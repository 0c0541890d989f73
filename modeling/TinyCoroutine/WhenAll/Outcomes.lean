import TinyCoroutine.WhenAll.Collect
import TinyCoroutine.WhenAll.Workers

/-!
# `when_all` collects every outcome, frames included

A stage for each wrapper ties its place in the code to its chain of frames. When all calls of
`wg.done()` are made every task has ended, so that the destructor of the shared state finds its
frame there and in nobody's hands.
-/
namespace TinyCoroutine.WhenAll

open TinyCoroutine.Foundation

variable {n : Nat} {T : Fin n → Type} {R : Type}

/-! ## The stages of a wrapper -/

def Wrapper.stage {T : Type} : Wrapper T → Stage
  | .created | .queued => .waiting
  | .awaiting => .inTask
  | .ended _ | .stored | .rescheduling _ => .inWrapper
  | .finished | .threw _ => .over

/-- Only three actions of wrapper `i` change its stage. -/
def Advances (a : Action T) (i : Fin n) (before after : Stage) : Prop :=
  after = before ∨ a = .start i ∧ before = .waiting ∧ after = .inTask ∨
    (∃ o, a = .taskEnds i o) ∧ before = .inTask ∧ after = .inWrapper ∨
    (∃ inline, a = .reschedule i inline) ∧ before = .inWrapper ∧ after = .over

theorem setWrapper_stage {s : State T R} {i : Fin n} {w : Wrapper (T i)} {a : Action T}
    (h : Advances a i (s.wrappers i).stage w.stage) (j : Fin n) :
    Advances a j (s.wrappers j).stage ((s.setWrapper i w).wrappers j).stage := by
  by_cases hj : j = i
  · subst hj
    simpa [State.setWrapper] using h
  · simp only [State.setWrapper, Function.update_of_ne hj]
    exact .inl rfl

theorem step_stage {unwrap : ((i : Fin n) → Option (T i)) → Option R} {s t : State T R}
    {a : Action T} (hs : Inv s) (ht : Inv t) (h : step unwrap s a = some t) (j : Fin n) :
    Advances a j (s.wrappers j).stage (t.wrappers j).stage := by
  cases a with
  | submit =>
    simp only [step] at h
    split at h <;> [rename_i k hc; cases h]
    split at h <;> cases h
    · rename_i hk
      have created : s.wrappers ⟨k, hk⟩ = .created := hs.unsubmitted k hc _ (Nat.le_refl k)
      exact setWrapper_stage (by simp [Advances, created, Wrapper.stage]) j
    · exact .inl rfl
  | start i =>
    simp only [step] at h
    split at h <;> cases h
    rename_i queued
    exact setWrapper_stage (by simp [Advances, queued, Wrapper.stage]) j
  | taskEnds i o =>
    simp only [step] at h
    split at h <;> cases h
    rename_i awaiting
    exact setWrapper_stage (by simp [Advances, awaiting, Wrapper.stage]) j
  | store i =>
    simp only [step] at h
    split at h <;> cases h
    rename_i o ended
    cases o <;> exact setWrapper_stage (by simp [Advances, ended, Wrapper.stage]) j
  | done i =>
    simp only [step] at h
    split at h <;> cases h
    rename_i stored
    revert ht
    unfold State.callDone
    split
    · exact fun _ => setWrapper_stage (by simp [Advances, stored, Wrapper.stage]) j
    · rename_i e _
      intro ht
      exact absurd (by simp [State.setWrapper]) ((ht.joined.wrapper i).noThrow e)
  | reschedule i inline =>
    simp only [step] at h
    split at h <;> cases h
    · rename_i hd hs' taken
      have moved : Advances (.reschedule i inline) j (s.wrappers j).stage
          ((s.setWrapper i (.rescheduling hs')).wrappers j).stage :=
        setWrapper_stage (by simp [Advances, taken, Wrapper.stage]) j
      unfold State.reschedule
      split <;> [split; skip] <;> exact moved
    · rename_i taken
      exact setWrapper_stage (by simp [Advances, taken, Wrapper.stage]) j
  | wait =>
    simp only [step] at h
    split at h <;> cases h
    split <;> exact .inl rfl
  | awaitSuspend =>
    simp only [step] at h
    split at h <;> [split at h; skip] <;> cases h <;> exact .inl rfl
  | resume =>
    simp only [step] at h
    split at h <;> cases h
    exact .inl rfl
  | finish =>
    simp only [step] at h
    split at h <;> cases h
    exact .inl rfl

/-- A caller that has returned stays so. -/
theorem Inv.stays_returned {unwrap : ((i : Fin n) → Option (T i)) → Option R} {s t : State T R}
    {a : Action T} (hs : Inv s) (h : step unwrap s a = some t) {r : Except Exn (Option R)}
    (hc : s.caller = .returned r) : t.caller = .returned r := by
  cases a with
  | start i | taskEnds i o =>
    simp only [step] at h
    split at h <;> cases h
    exact hc
  | store i =>
    simp only [step] at h
    split at h <;> cases h
    rename_i o _
    cases o <;> exact hc
  | done i =>
    simp only [step, State.callDone] at h
    split at h <;> [split at h; skip] <;> cases h <;> exact hc
  | reschedule i inline =>
    simp only [step] at h
    split at h <;> cases h
    · rename_i hd rest taken
      obtain hnil | ⟨-, parked, -⟩ := (hs.joined.wrapper i).taken _ taken
      · cases hnil
      · rw [hc] at parked
        cases parked
    · exact hc
  | submit | wait | awaitSuspend | resume | finish => simp [step, hc] at h

/-! ## The invariant -/

namespace Machine

structure Inv (m : Machine T R) : Prop where
  code : WhenAll.Inv m.code
  chains : ∀ i, (m.chains i).Ok (m.code.wrappers i).stage m.released
  locked : ∀ i, m.lockedBy = some i → (m.code.wrappers i).stage = .inWrapper
  gone : m.callerGone = true ∨ m.released = true → ∃ r, m.code.caller = .returned r
  mutex : m.mutexFault = false

variable {o : Overload T R} {m t : Machine T R} {i : Fin n}

theorem Inv.start (small : n < 2 ^ 31) : Inv (Machine.start T R) :=
  ⟨.init small, fun _ => .init, by simp [Machine.start], by simp [Machine.start], rfl⟩

theorem Inv.not_faulty (hm : m.Inv) : ¬m.Faulty := by
  rintro (hmutex | ⟨i, hfault⟩)
  · simp [hm.mutex] at hmutex
  · simp [(hm.chains i).noFault] at hfault

theorem Inv.setChain (hm : m.Inv) {x : Chain}
    (hx : x.Ok (m.code.wrappers i).stage m.released) : (m.setChain i x).Inv := by
  refine ⟨hm.code, fun j => ?_, hm.locked, hm.gone, hm.mutex⟩
  by_cases hj : j = i
  · subst hj
    simpa [Machine.setChain] using hx
  · simpa [Machine.setChain, hj] using hm.chains j

/-- Once all calls of `done` are made, every task has ended. -/
theorem Inv.stage_of_full (hm : m.Inv) (full : m.code.doneCalls.length = n) (i : Fin n) :
    (m.code.wrappers i).stage = .inWrapper ∨ (m.code.wrappers i).stage = .over := by
  have done := (hm.code.joined.wrapper i).called.mp (hm.code.joined.mem_doneCalls full i)
  cases h : m.code.wrappers i <;> simp_all [Wrapper.hasDone, Wrapper.stage]

/-- The state is destroyed while nobody is in `wg.done()`. -/
theorem Inv.releaseState (hm : m.Inv) (full : m.code.doneCalls.length = n)
    (hfirst : m.released = false) (hfree : m.lockedBy = none) {r : Except Exn (Option R)}
    {s : State T R} (hs : WhenAll.Inv s) (hwrappers : s.wrappers = m.code.wrappers)
    (hc : s.caller = .returned r) : Inv { m.releaseState with code := s } := by
  refine ⟨hs, fun i => ?_, fun i hi => ?_, fun _ => ⟨r, hc⟩, ?_⟩
  · have hi := hm.chains i
    rw [hfirst] at hi
    simp only [Machine.releaseState, hwrappers]
    exact hi.release (hm.stage_of_full full i)
  · simp [Machine.releaseState, hfree] at hi
  · simp [Machine.releaseState, hm.mutex, hfree]

/-- The code goes on, and with it the chain of one wrapper. -/
theorem Inv.advance (hm : m.Inv) {s : State T R} {a : Action T} {x : Chain}
    (hs : WhenAll.Inv s) (hstep : WhenAll.step o.unwrap m.code a = some s)
    (hx : x.Ok (s.wrappers i).stage m.released)
    (hother : ∀ j, j ≠ i → (s.wrappers j).stage = (m.code.wrappers j).stage)
    (hlocked : m.lockedBy = some i → (s.wrappers i).stage = .inWrapper) :
    Inv { m.setChain i x with code := s } := by
  refine ⟨hs, fun j => ?_, fun j hj => ?_, fun hg => ?_, hm.mutex⟩
  · by_cases hj : j = i
    · subst hj
      simpa [Machine.setChain] using hx
    · simpa [Machine.setChain, hj, hother j hj] using hm.chains j
  · by_cases hji : j = i
    · subst hji
      exact hlocked hj
    · exact (hother j hji).trans (hm.locked j hj)
  · obtain ⟨r, hc⟩ := hm.gone hg
    exact ⟨r, hm.code.stays_returned hstep hc⟩

theorem Inv.keep (hm : m.Inv) {s : State T R} {a : Action T} (hs : WhenAll.Inv s)
    (hstep : WhenAll.step o.unwrap m.code a = some s)
    (hstage : ∀ j, (s.wrappers j).stage = (m.code.wrappers j).stage) :
    Inv { m with code := s } := by
  refine ⟨hs, fun j => ?_, fun j hj => (hstage j).trans (hm.locked j hj), fun hg => ?_, hm.mutex⟩
  · simpa only [hstage j] using hm.chains j
  · obtain ⟨r, hc⟩ := hm.gone hg
    exact ⟨r, hm.code.stays_returned hstep hc⟩

/-- The end of the caller's body. -/
theorem Inv.finish (hm : m.Inv) {s : State T R} (hs : WhenAll.Inv s)
    (hfree : o.shared = true ∨ m.lockedBy = none)
    (hstep : WhenAll.step o.unwrap m.code .finish = some s) :
    Inv { (if o.shared then m else m.releaseState) with code := s } := by
  have hkeep := hm.keep hs hstep fun j => by
    simpa [Advances] using step_stage hm.code hs hstep j
  simp only [WhenAll.step] at hstep
  split at hstep <;> [rename_i passed; cases hstep]
  cases hstep
  have caller := hm.code.joined.caller
  simp only [State.CallerOk, passed] at caller
  cases hshared : o.shared with
  | true => simpa using hkeep
  | false =>
    have hfirst : m.released = false := by
      by_contra hne
      obtain ⟨r, hc⟩ := hm.gone (.inr (by simpa using hne))
      rw [passed] at hc
      cases hc
    exact hm.releaseState caller.2.2.1 hfirst (hfree.resolve_left (by simp [hshared])) hs rfl rfl

theorem Inv.codeStep (hm : m.Inv) (small : n < 2 ^ 31) {s : State T R} {a : Action T}
    (hc : EndsUnheld o m (.code a)) (hstep : WhenAll.step o.unwrap m.code a = some s)
    (hframe : m.frameStep o a = some t) : Inv { t with code := s } := by
  have hs := hm.code.preserved small hstep
  have hstage := step_stage hm.code hs hstep
  cases a with
  | submit | store | wait | resume =>
    cases hframe
    exact hm.keep hs hstep fun j => by simpa [Advances] using hstage j
  | awaitSuspend =>
    simp only [frameStep] at hframe
    split at hframe <;> cases hframe
    exact hm.keep hs hstep fun j => by simpa [Advances] using hstage j
  | finish =>
    cases hframe
    exact hm.finish hs hc hstep
  | done i =>
    simp only [frameStep] at hframe
    split at hframe <;> cases hframe
    have hsame : ∀ j, (s.wrappers j).stage = (m.code.wrappers j).stage := fun j => by
      simpa [Advances] using hstage j
    obtain ⟨hcode, hchains, -, hgone, hmutex⟩ := hm.keep hs hstep hsame
    refine ⟨hcode, hchains, fun j hj => ?_, hgone, hmutex⟩
    cases hj
    rw [hsame i]
    simp only [WhenAll.step] at hstep
    split at hstep <;> [rename_i stored; cases hstep]
    rw [stored]
    rfl
  | start i =>
    cases hframe
    have hother : ∀ j, j ≠ i → (s.wrappers j).stage = (m.code.wrappers j).stage := fun j hj => by
      simpa [Advances, Ne.symm hj] using hstage j
    have hold := hm.chains i
    have hlocked := hm.locked i
    have hstep' := hstep
    simp only [WhenAll.step] at hstep
    split at hstep <;> [rename_i queued; cases hstep]
    cases hstep
    rw [queued] at hold hlocked
    refine hm.advance hs hstep' ?_ hother fun hl => absurd (hlocked hl) (by simp [Wrapper.stage])
    simpa [State.setWrapper, Wrapper.stage] using hold.start
  | taskEnds i r =>
    obtain ⟨x, hx, rfl⟩ := Option.map_eq_some_iff.mp hframe
    have hother : ∀ j, j ≠ i → (s.wrappers j).stage = (m.code.wrappers j).stage := fun j hj => by
      simpa [Advances, Ne.symm hj] using hstage j
    have hold := hm.chains i
    have hstep' := hstep
    simp only [WhenAll.step] at hstep
    split at hstep <;> [rename_i awaiting; cases hstep]
    cases hstep
    rw [awaiting] at hold
    refine hm.advance hs hstep' ?_ hother fun _ => by simp [State.setWrapper, Wrapper.stage]
    simpa [State.setWrapper, Wrapper.stage, Stage.after] using
      hold.finish hx (.inr hc) (by simp) (fun _ => rfl)
  | reschedule i inline =>
    simp only [frameStep] at hframe
    split at hframe <;> [rename_i hfree; cases hframe]
    have hother : ∀ j, j ≠ i → (s.wrappers j).stage = (m.code.wrappers j).stage := fun j hj => by
      simpa [Advances, Ne.symm hj] using hstage j
    split at hframe
    · rename_i taken
      obtain ⟨x, hx, rfl⟩ := Option.map_eq_some_iff.mp hframe
      have hold := hm.chains i
      have hstep' := hstep
      simp only [WhenAll.step, taken] at hstep
      cases hstep
      rw [taken] at hold
      refine hm.advance hs hstep' ?_ hother fun hl => absurd hl hfree.1
      simpa [State.setWrapper, Wrapper.stage, Stage.after] using
        hold.finish hx (.inl rfl) (fun _ => rfl) (by simp)
    · rename_i hmore
      cases hframe
      refine hm.keep hs hstep fun j => ?_
      by_cases hj : j = i
      · subst hj
        simp only [WhenAll.step] at hstep
        split at hstep
        · rename_i hd rest taken
          cases hstep
          have moved : (((m.code.setWrapper j (.rescheduling rest)).reschedule j hd
              inline).wrappers j).stage = .inWrapper := by
            unfold State.reschedule
            split <;> [split; skip] <;> simp [State.setWrapper, State.pass, Wrapper.stage]
          rw [moved, taken]
          rfl
        · rename_i taken
          exact absurd taken hmore
        · cases hstep
      · exact hother j hj

theorem Inv.preserved (hm : m.Inv) (small : n < 2 ^ 31) {e : Event T} (hc : EndsUnheld o m e)
    (h : m.move o e = some t) : t.Inv := by
  cases e with
  | code a =>
    obtain ⟨s, hs, h⟩ := Option.bind_eq_some_iff.mp h
    obtain ⟨t, ht, rfl⟩ := Option.map_eq_some_iff.mp h
    have hnext := hm.codeStep small hc hs ht
    have hsound : ¬t.Faulty := hnext.not_faulty
    rwa [proceed, if_neg hsound]
  | unlock i =>
    simp only [move] at h
    split at h <;> cases h
    exact ⟨hm.code, hm.chains, by simp, hm.gone, hm.mutex⟩
  | call i =>
    obtain ⟨x, hx, rfl⟩ := Option.map_eq_some_iff.mp h
    exact hm.setChain ((hm.chains i).call hx)
  | ends i c =>
    simp only [move] at h
    split at h <;> [rename_i htwo; cases h]
    obtain ⟨x, hx, rfl⟩ := Option.map_eq_some_iff.mp h
    obtain ⟨c, rfl⟩ := Nat.exists_eq_add_of_le htwo
    have hended := (hm.chains i).finish hx (.inr hc) (by omega) (by omega)
    rw [Nat.add_comm] at hended
    exact hm.setChain hended
  | suspend i =>
    obtain ⟨x, hx, rfl⟩ := Option.map_eq_some_iff.mp h
    exact hm.setChain ((hm.chains i).suspend hx)
  | resume i byWorker =>
    obtain ⟨x, hx, rfl⟩ := Option.map_eq_some_iff.mp h
    exact hm.setChain ((hm.chains i).resume hx)
  | check i c answer =>
    obtain ⟨x, hx, rfl⟩ := Option.map_eq_some_iff.mp h
    exact hm.setChain ((hm.chains i).check hx)
  | drop i c =>
    obtain ⟨x, hx, rfl⟩ := Option.map_eq_some_iff.mp h
    exact hm.setChain ((hm.chains i).drop hx)
  | dropCaller =>
    simp only [move] at h
    split at h <;> cases h
    rename_i r hr
    exact ⟨hm.code, hm.chains, hm.locked, fun _ => ⟨r, hr⟩, hm.mutex⟩
  | release =>
    simp only [move] at h
    split at h <;> [rename_i hall; cases h]
    obtain ⟨-, hgone, hfirst, hdead⟩ := hall
    cases h
    obtain ⟨r, hr⟩ := hm.gone (.inl hgone)
    -- a wrapper inside `wg.done()` has its frame
    have hfree : m.lockedBy = none := by
      cases hl : m.lockedBy with
      | none => rfl
      | some i =>
        have hin := (hm.chains i).wrapperIn (.inr (hm.locked i hl))
        exact absurd (hdead i) ((hm.chains i).midway_ne hin).1
    exact hm.releaseState (hm.code.returned_full hr) hfirst hfree hm.code rfl hr

theorem Inv.of_run (small : n < 2 ^ 31)
    (run : Run (Machine.step o) (EndsUnheld o) (Machine.start T R) m) : m.Inv := by
  refine run.invariant (.start small) fun hm hc h => ?_
  rw [Machine.step, if_neg hm.not_faulty] at h
  exact hm.preserved small hc h

end Machine

/-! ## The outcomes -/

end TinyCoroutine.WhenAll
