import TinyCoroutine.Sync.Exclusion

/-!
# No notification is lost

Coroutines that share a predicate for each condition variable: they change it only in
their own code and with a guard that has the mutex, and they wait for it with that
predicate. A coroutine that makes a predicate true owes a `notify_all`, before or after it
releases the mutex. Evaluating a predicate, pushing the handle, unlocking the mutex,
changing a predicate and draining the queue are steps of their own.
-/
namespace TinyCoroutine.Sync

open TinyCoroutine.Foundation

structure Shared where
  sync : State := {}
  /-- the predicate of each condition variable -/
  pred : Nat → Bool := fun _ => false
  /-- coroutine `i` has made the predicate of `v` true and not drained its queue since -/
  owed : Nat → Nat → Bool := fun _ _ => false
  /-- the coroutine has found its predicate false and not pushed its handle yet -/
  parking : Nat → Bool := fun _ => false

namespace Shared

def init : Shared := {}

inductive Action where
  | sync (a : Sync.Action)
  | evaluate (i : Nat)
  | push (i : Nat)
  /-- coroutine `i` sets the predicate of `v`, with guard `g` -/
  | change (i g v : Nat) (b : Bool)
  deriving DecidableEq, Repr

variable (s : Shared)

/-- The steps of the mutex and the condition variables that are left as they are. -/
def allows : Sync.Action → Bool
  | .op _ (.wait _ _) => false
  | .op _ (.waitFor _ g) => s.sync.inside g
  | .predicate _ _ => false
  | _ => true

/-- A `notify_all` settles what its coroutine owes. -/
def settle : Sync.Action → Nat → Nat → Bool
  | .op i (.notifyAll v) => fun j w => if j = i ∧ w = v then false else s.owed j w
  | _ => s.owed

def step : Action → Option Shared
  | .sync a =>
    if s.allows a then
      (Sync.step s.sync a).map fun t => { s with sync := t, owed := s.settle a }
    else none
  | .evaluate i =>
    match s.sync.coros i with
    | ⟨.test v _, .running⟩ =>
      if s.parking i then none
      else if s.pred v then
        (Sync.step s.sync (.predicate i true)).map fun t => { s with sync := t }
      else some { s with parking := Function.update s.parking i true }
    | _ => none
  | .push i =>
    if s.parking i then
      (Sync.step s.sync (.predicate i false)).map fun t =>
        { s with sync := t, parking := Function.update s.parking i false }
    else none
  | .change i g v b =>
    match s.sync.guardOf i g with
    | some γ =>
      if γ.inside ∧ s.sync.coros i = ⟨.run, .running⟩ then
        some { s with
          pred := Function.update s.pred v b
          owed := fun j w => if j = i ∧ w = v ∧ b ∧ !s.pred v then true else s.owed j w }
      else none
    | none => none

end Shared

structure NotifyInv (s : Shared) : Prop where
  kept : KeptInv s.sync
  parking : ∀ i, s.parking i = true →
    ∃ v g, s.sync.coros i = ⟨.test v g, .running⟩ ∧ s.pred v = false
  queued : ∀ i v, i ∈ s.sync.cvs v → s.pred v = false ∨ ∃ j, s.owed j v = true

variable {s t : State} {a : Action}

theorem waitsInside_of_allows {s : Shared} (ha : s.allows a = true) : WaitsInside s.sync a := by
  cases a with
  | op i o => cases o <;> simp_all [Shared.allows, WaitsInside]
  | _ => trivial

/-- Outside of the test of a predicate nobody is pushed. -/
theorem mem_cvs {s : Shared} (ha : s.allows a = true) (h : Transition s.sync a t) {i v : Nat}
    (hi : i ∈ t.cvs v) : i ∈ s.sync.cvs v := by
  cases h with
  | cvPush _ hw => cases hw <;> cases ha
  | finish => exact (finishRelease_frame ..).2.1 ▸ hi
  | @notify i' v' o hs rest _ _ hcv =>
    simp only [State.notify, State.setCoro, Function.update_apply] at hi
    split at hi
    · rename_i hv
      rw [hv, hcv]
      exact List.mem_append_right _ hi
    · exact hi
  | _ => exact hi

theorem Locks.not_test {i : Nat} {pc : Pc} (hl : Locks s i a pc) (v g : Nat) :
    (s.coros i).pc ≠ .test v g := by
  cases hl <;> simp_all

theorem Finishes.not_test {i g : Nat} {γ : Guard} {kind : Release} (hf : Finishes s i g γ a kind)
    (v h : Nat) : (s.coros i).pc ≠ .test v h := by
  cases hf <;> simp_all

theorem Wakes.not_test {i h : Nat} {pc : Pc} (hw : Wakes s i h pc) (v g : Nat) :
    (s.coros i).pc ≠ .test v g := by
  cases hw <;> simp_all

/-- A coroutine between its test and its push is not moved by the steps of others. -/
theorem coros_of_testing {s : Shared} (P : Places s.sync) (ha : s.allows a = true)
    (h : Transition s.sync a t) {i v g : Nat} (hi : s.sync.coros i = ⟨.test v g, .running⟩) :
    t.coros i = s.sync.coros i := by
  have actor : ∀ {j}, (s.sync.coros j).pc ≠ .test v g → i ≠ j := by
    rintro j hj rfl
    simp [hi] at hj
  have woken : ∀ {j}, (s.sync.coros j).place ≠ .running → i ≠ j := by
    rintro j hj rfl
    simp [hi] at hj
  cases h with
  | idle | move | tailTest | tailFree | tailWrite => rfl
  | lockFree _ hl | lockBusy _ hl => exact Function.update_of_ne (actor (hl.not_test v g)) ..
  | lockResume _ hpc | relockResume _ hpc | free _ hpc =>
    exact Function.update_of_ne (actor (by simp [hpc])) ..
  | cvPush _ hw => cases hw <;> cases ha
  | @movePc _ j pc _ hm =>
    have hne : i ≠ j := by
      cases hm with
      | satisfied => cases ha
      | waitFor hpc | unlocking hpc | woken hpc => exact actor (by simp [hpc])
    exact Function.update_of_ne hne ..
  | finish _ hf =>
    refine (Function.update_of_ne (actor (hf.not_test v g)) ..).trans ?_
    rw [coros_finishRelease]
  | @handOver j _ _ _ h rest _ _ hpc _ hq =>
    have hplace : (s.sync.coros h).place = .mutexQueue := (P.mutex h).mp (by simp [hq])
    refine (Function.update_of_ne (actor (by simp [hpc])) ..).trans ?_
    exact Function.update_of_ne (woken (by simp [hplace])) ..
  | @wake j h pc inline _ hw =>
    have hplace : (s.sync.coros h).place = .heldBy j := (P.hand j h).mp (by simp [hw.hand])
    refine (Function.update_of_ne (actor (hw.not_test v g)) ..).trans ?_
    exact Function.update_of_ne (woken (by simp [hplace])) ..
  | @notify j v' o hs rest _ hpc hcv =>
    have hi' : i ∉ hs := by
      intro hmem
      have hplace := (P.cv v' i).mp (by rw [hcv]; exact List.mem_append_left _ hmem)
      simp [hi] at hplace
    refine (Function.update_of_ne (actor (by simp [hpc])) ..).trans ?_
    simp [hi']
  | @tailHandOver k τ h rest inline _ _ hq =>
    have hplace : (s.sync.coros h).place = .mutexQueue := (P.mutex h).mp (by simp [hq])
    exact Function.update_of_ne (woken (by simp [hplace])) ..
  | @tailWake k τ h inline hk hst =>
    have hplace : (s.sync.coros h).place = .heldByTail k := (P.tail k h).mp ⟨τ, hk, hst⟩
    exact Function.update_of_ne (woken (by simp [hplace])) ..
  | resume hr => exact Function.update_of_ne (woken (by simp [hr])) ..

/-- A drained queue is empty. -/
theorem cvs_notifyAll {i v : Nat} (h : step s (.op i (.notifyAll v)) = some t) : t.cvs v = [] := by
  simp only [step, opStep] at h
  split at h
  · cases h
    simp [State.notify, State.setCoro]
  · cases h

/-- A coroutine before its test has the mutex, and nobody else has. -/
theorem KeptInv.testing (I : KeptInv s) {i v g : Nat} (hpc : (s.coros i).pc = .test v g) :
    s.lock = true ∧ s.Has i g (fun γ => γ.inside = true) ∧
      (∀ h σ, s.guards h = some σ → σ.inside = true → h = g) ∧ ∀ j, ¬ (s.coros j).carries := by
  obtain ⟨-, O, keeper, K⟩ := I
  have has : s.Has i g fun γ => γ.inside = true := by simpa [hpc, Pc.Keeps] using O.pcs i
  obtain ⟨γ, hγ, -, -, hin⟩ := id has
  obtain rfl := (K.guard g γ hγ).mp hin
  refine ⟨by simp [K.lock], has, fun h σ hσ hin' => ?_, fun j hj => ?_⟩
  · simpa using ((K.guard h σ hσ).mp hin').symm
  · simpa using (K.coro j).mp hj

section

variable {s : Shared}

theorem NotifyInv.sync (I : NotifyInv s) (ha : s.allows a = true) (h : step s.sync a = some t) :
    NotifyInv { s with sync := t, owed := s.settle a } := by
  have trans := step_transition h
  refine ⟨I.kept.preserved (waitsInside_of_allows ha) trans, ?_, ?_⟩
  · intro i hi
    obtain ⟨v, g, hc, hp⟩ := I.parking i hi
    exact ⟨v, g, (coros_of_testing I.kept.places ha trans hc).trans hc, hp⟩
  · intro i v hi
    obtain hp | ⟨j, hj⟩ := I.queued i v (mem_cvs ha trans hi)
    · exact .inl hp
    by_cases hdrain : a = .op j (.notifyAll v)
    · subst hdrain
      simp [cvs_notifyAll h] at hi
    · refine .inr ⟨j, ?_⟩
      unfold Shared.settle
      split
      · rename_i k w
        have hother : ¬ (j = k ∧ v = w) := by
          rintro ⟨rfl, rfl⟩
          exact hdrain rfl
        simpa only [if_neg hother] using hj
      · exact hj

/-- The predicate holds, and `wait` returns. -/
theorem NotifyInv.satisfied (I : NotifyInv s) {i : Nat} (hi : s.parking i = false)
    (h : step s.sync (.predicate i true) = some t) : NotifyInv { s with sync := t } := by
  have kept := I.kept.preserved (a := .predicate i true) trivial (step_transition h)
  simp only [step] at h
  split at h <;> cases h
  refine ⟨kept, ?_, I.queued⟩
  intro j hj
  have hne : j ≠ i := by
    rintro rfl
    simp [hi] at hj
  simpa [State.setPc, State.setCoro, hne] using I.parking j hj

/-- A coroutine that has found its predicate false pushes itself: no other coroutine could
change it in between. -/
theorem NotifyInv.push (I : NotifyInv s) {i : Nat} (hi : s.parking i = true)
    (h : step s.sync (.predicate i false) = some t) :
    NotifyInv { s with sync := t, parking := Function.update s.parking i false } := by
  have kept := I.kept.preserved (a := .predicate i false) trivial (step_transition h)
  obtain ⟨v, g, hc, hp⟩ := I.parking i hi
  obtain ⟨γ, -, rfl⟩ : ∃ γ, s.sync.guards g = some γ ∧ s.sync.cvPush i v g γ (.test v) = t := by
    simpa [step, hc] using h
  refine ⟨kept, ?_, ?_⟩
  · intro j hj
    have hne : j ≠ i := by
      rintro rfl
      simp at hj
    simp only [Function.update_of_ne hne] at hj
    simpa [State.cvPush, State.setCoro, State.setGuard, State.setTail, hne] using I.parking j hj
  · intro j w hj
    simp only [State.cvPush, State.setCoro, State.setGuard, State.setTail,
      Function.update_apply] at hj
    split at hj
    · rename_i hw
      exact .inl (hw ▸ hp)
    · exact I.queued j w hj

theorem NotifyInv.change (I : NotifyInv s) {i g v : Nat} {γ : Guard} {b : Bool}
    (hγ : s.sync.guardOf i g = some γ) (hin : γ.inside = true)
    (hi : s.sync.coros i = ⟨.run, .running⟩) :
    NotifyInv { s with
      pred := Function.update s.pred v b
      owed := fun j w => if j = i ∧ w = v ∧ b ∧ !s.pred v then true else s.owed j w } := by
  obtain ⟨hguard, howner, -⟩ := guardOf_eq_some.mp hγ
  -- while a coroutine is before its push, the mutex is its own
  have alone : ∀ j, s.parking j = false := by
    intro j
    by_contra hj
    obtain ⟨w, h, hc, -⟩ := I.parking j (by simpa using hj)
    obtain ⟨-, ⟨σ, hσ, hσowner, -, -⟩, unique, -⟩ := I.kept.testing (i := j) (by rw [hc])
    obtain rfl := unique g γ hguard hin
    obtain rfl := Option.some.inj (hguard.symm.trans hσ)
    obtain rfl := howner.symm.trans hσowner
    simp [hi] at hc
  refine ⟨I.kept, fun j hj => ?_, fun j w hj => ?_⟩
  · simp [alone j] at hj
  · have old := I.queued j w hj
    simp only [Function.update_apply]
    by_cases hw : w = v
    · subst hw
      cases b with
      | false => exact .inl (by simp)
      | true =>
        refine .inr ?_
        cases hp : s.pred w with
        | false => exact ⟨i, by simp⟩
        | true =>
          obtain ⟨k, hk⟩ := old.resolve_left (by simp [hp])
          exact ⟨k, by simp [hk]⟩
    · simpa [hw] using old

theorem NotifyInv.preserved {t : Shared} {a : Shared.Action} (I : NotifyInv s)
    (h : s.step a = some t) : NotifyInv t := by
  cases a with
  | sync a =>
    simp only [Shared.step] at h
    split at h
    · rename_i ha
      obtain ⟨u, hu, rfl⟩ := Option.map_eq_some_iff.mp h
      exact I.sync ha hu
    · cases h
  | evaluate i =>
    simp only [Shared.step] at h
    split at h
    · rename_i v g hc
      split at h
      · cases h
      · rename_i hi
        split at h
        · obtain ⟨u, hu, rfl⟩ := Option.map_eq_some_iff.mp h
          exact I.satisfied (by simpa using hi) hu
        · rename_i hp
          cases h
          refine ⟨I.kept, fun j hj => ?_, I.queued⟩
          by_cases hj' : j = i
          · subst hj'
            exact ⟨v, g, hc, by simpa using hp⟩
          · simp only [Function.update_of_ne hj'] at hj
            exact I.parking j hj
    · cases h
  | push i =>
    simp only [Shared.step] at h
    split at h
    · rename_i hi
      obtain ⟨u, hu, rfl⟩ := Option.map_eq_some_iff.mp h
      exact I.push hi hu
    · cases h
  | change i g v b =>
    simp only [Shared.step] at h
    split at h
    · rename_i γ hγ
      split at h
      · rename_i hc
        cases h
        exact I.change hγ hc.1 hc.2
      · cases h
    · cases h

end

/-- What the coroutines that wait for a predicate can rely on. -/
structure NoLostNotification (s : Shared) : Prop where
  queued : ∀ i v, i ∈ s.sync.cvs v → s.pred v = false ∨ ∃ j, s.owed j v = true
  /-- A coroutine before its test, in particular after it was drained, has the mutex through
  its guard, and no other guard or coroutine has it. -/
  testing : ∀ i v g, (s.sync.coros i).pc = .test v g →
    s.sync.lock = true ∧ s.sync.Has i g (fun γ => γ.inside = true) ∧
      (∀ h σ, s.sync.guards h = some σ → σ.inside = true → h = g) ∧
      ∀ j, ¬ (s.sync.coros j).carries

theorem notifications_not_lost {s : Shared} (run : Run Shared.step Always Shared.init s) :
    NoLostNotification s := by
  have I : NotifyInv s := by
    refine run.invariant (I := NotifyInv) ⟨.init, ?_, ?_⟩ fun I _ h => I.preserved h
    · simp [Shared.init]
    · simp [Shared.init]
  exact ⟨I.queued, fun _ _ _ => I.kept.testing⟩

/-- Coroutine `0` waits; coroutine `1` makes the predicate true, releases the mutex and has
not called `notify_all` yet. -/
theorem notifications_not_lost_owed :
    ∃ s, Run Shared.step Always Shared.init s ∧
      (s.sync.cvs 0 = [0] ∧ s.pred 0 = true ∧ s.owed 1 0 = true) ∧ NoLostNotification s := by
  obtain ⟨s, run, facts⟩ := exists_run Shared.step Always Shared.init
    [.sync (.op 0 .lock), .sync (.step 0 false), .sync (.op 0 (.waitFor 0 0)), .evaluate 0, .push 0,
      .sync (.tail 0 false), .sync (.tail 0 false), .sync (.op 1 .lock), .sync (.step 1 false),
      .change 1 1 0 true, .sync (.op 1 (.release 1 .unlock)), .sync (.step 1 false)]
    (fun s => s.sync.cvs 0 = [0] ∧ s.pred 0 = true ∧ s.owed 1 0 = true) (by decide)
  exact ⟨s, run, facts, notifications_not_lost run⟩

end TinyCoroutine.Sync
