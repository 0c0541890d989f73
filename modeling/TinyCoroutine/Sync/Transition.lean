import TinyCoroutine.Sync.Basic

/-!
# The rules behind the mutex and its condition variables

`step_transition` takes a step apart into one of the rules of `Transition`, which name the
place the acting coroutine or tail has left and the state it leaves behind.
-/
namespace TinyCoroutine.Sync

/-- Coroutine `i` runs the section that tries to lock, and goes on at `pc` afterwards. -/
inductive Locks (s : State) (i : Nat) : Action → Pc → Prop where
  | lock : (s.coros i).pc = .run → Locks s i (.op i .lock) .lockResume
  | relock {g γ} : (s.coros i).pc = .run → s.guardOf i g = some γ → γ.attached = true →
      γ.owns = false → Locks s i (.op i (.relock g)) (.relockResume g .run)
  | wait {g next inline} : (s.coros i).pc = .relock g next →
      Locks s i (.step i inline) (.relockResume g next)

/-- Coroutine `i` is about to push itself into the queue of a condition variable. -/
inductive Waits (s : State) (i : Nat) : Action → Nat → Nat → Guard → After → Prop where
  | wait {v g γ} : (s.coros i).pc = .run → s.guardOf i g = some γ → γ.attached = true →
      Waits s i (.op i (.wait v g)) v g γ .run
  | test {v g γ} : (s.coros i).pc = .test v g → s.guards g = some γ →
      Waits s i (.predicate i false) v g γ (.test v)

/-- Coroutine `i` ends a release, or makes one that frees nothing. -/
inductive Finishes (s : State) (i g : Nat) (γ : Guard) : Action → Release → Prop where
  | finishing {kind inline} : (s.coros i).pc = .finishing g kind → s.guards g = some γ →
      Finishes s i g γ (.step i inline) kind
  | release {kind} : (s.coros i).pc = .run → s.guardOf i g = some γ →
      kind.allowed s i = true → kind ≠ .assign g → kind ≠ .unlock →
      (γ.owns && γ.attached) = false → Finishes s i g γ (.op i (.release g kind)) kind

/-- Coroutine `i` passes the handle `h` to `reschedule_or_resume`. -/
inductive Wakes (s : State) (i : Nat) : Nat → Pc → Prop where
  | handing {h g kind} : (s.coros i).pc = .handing h g kind → Wakes s i h (.finishing g kind)
  | waking {h hs} : (s.coros i).pc = .waking (h :: hs) → Wakes s i h (.waking hs)

/-- Moves of a coroutine that change nothing but its place in the code. -/
inductive Moves (s : State) (i : Nat) : Action → Pc → Prop where
  | waitFor {v g γ} : (s.coros i).pc = .run → s.guardOf i g = some γ → γ.attached = true →
      Moves s i (.op i (.waitFor v g)) (.test v g)
  | unlocking {g γ kind} : (s.coros i).pc = .run → s.guardOf i g = some γ →
      kind.allowed s i = true → kind ≠ .assign g → (γ.owns && γ.attached) = true →
      Moves s i (.op i (.release g kind)) (.unlocking g kind)
  | satisfied {v g} : (s.coros i).pc = .test v g → Moves s i (.predicate i true) .run
  | woken {inline} : (s.coros i).pc = .waking [] → Moves s i (.step i inline) .run

inductive Transition (s : State) : Action → State → Prop where
  | idle {a} : Transition s a s
  | lockFree {a i pc} : (s.coros i).place = .running → Locks s i a pc → s.lock = false →
      Transition s a ({ s with lock := true }.setCoro i ⟨pc, .running⟩)
  | lockBusy {a i pc} : (s.coros i).place = .running → Locks s i a pc → s.lock = true →
      Transition s a ({ s with waitQueue := s.waitQueue ++ [i] }.setCoro i ⟨pc, .mutexQueue⟩)
  | lockResume {i inline} : (s.coros i).place = .running → (s.coros i).pc = .lockResume →
      Transition s (.step i inline)
        { (s.setGuard s.nextGuard { owner := i }).setPc i .run with nextGuard := s.nextGuard + 1 }
  | relockResume {i g next γ inline} : (s.coros i).place = .running →
      (s.coros i).pc = .relockResume g next → s.guards g = some γ → Transition s (.step i inline)
        ((s.setGuard g { γ with owns := true, inside := true }).setPc i (next.pc g))
  | move {i g γ} : (s.coros i).place = .running → (s.coros i).pc = .run →
      s.guardOf i g = some γ → Transition s (.op i (.move g))
        { (s.setGuard s.nextGuard γ).setGuard g
            { γ with owns := false, attached := false, inside := false } with
          nextGuard := s.nextGuard + 1 }
  | cvPush {a i v g γ next} : (s.coros i).place = .running → Waits s i a v g γ next →
      Transition s a (s.cvPush i v g γ next)
  | movePc {a i pc} : (s.coros i).place = .running → Moves s i a pc →
      Transition s a (s.setPc i pc)
  | finish {a i g γ kind} : (s.coros i).place = .running → Finishes s i g γ a kind →
      Transition s a ((s.finishRelease g γ kind).setPc i .run)
  | handOver {i g kind γ h rest inline} : (s.coros i).place = .running →
      (s.coros i).pc = .unlocking g kind → s.guards g = some γ → s.waitQueue = h :: rest →
      Transition s (.step i inline)
        (({ s.setGuard g { γ with inside := false } with waitQueue := rest }.setPlace h
          (.heldBy i)).setPc i (.handing h g kind))
  | free {i g kind γ inline} : (s.coros i).place = .running →
      (s.coros i).pc = .unlocking g kind → s.guards g = some γ → s.waitQueue = [] →
      Transition s (.step i inline)
        ({ s.setGuard g { γ with inside := false } with lock := false }.setPc i (.finishing g kind))
  | wake {i h pc inline} : (s.coros i).place = .running → Wakes s i h pc →
      Transition s (.step i inline) ((s.wake h inline).setPc i pc)
  | notify {i v o hs rest} : (s.coros i).place = .running → (s.coros i).pc = .run →
      s.cvs v = hs ++ rest → Transition s (.op i o) (s.notify i v hs rest)
  | tailTest {k τ γ inline} : s.tails k = some τ → τ.stage = .test →
      s.guards τ.guard = some γ → Transition s (.tail k inline)
        (s.setTail k { τ with stage := if γ.owns && γ.attached then .unlocking else .done })
  | tailHandOver {k τ h rest inline} : s.tails k = some τ → τ.stage = .unlocking →
      s.waitQueue = h :: rest → Transition s (.tail k inline)
        (({ s with waitQueue := rest }.setPlace h (.heldByTail k)).setTail k
          { τ with stage := .handing h })
  | tailFree {k τ inline} : s.tails k = some τ → τ.stage = .unlocking → s.waitQueue = [] →
      Transition s (.tail k inline) ({ s with lock := false }.setTail k { τ with stage := .write })
  | tailWake {k τ h inline} : s.tails k = some τ → τ.stage = .handing h →
      Transition s (.tail k inline) ((s.wake h inline).setTail k { τ with stage := .write })
  | tailWrite {k τ γ inline} : s.tails k = some τ → τ.stage = .write →
      s.guards τ.guard = some γ → Transition s (.tail k inline)
        ((s.setGuard τ.guard { γ with owns := false }).setTail k { τ with stage := .done })
  | resume {i} : (s.coros i).place = .ready → Transition s (.resume i) (s.setPlace i .running)

variable {s t : State} {a : Action}

theorem lockSection_transition {i : Nat} {pc : Pc} (hr : (s.coros i).place = .running)
    (h : Locks s i a pc) : Transition s a (s.lockSection i pc) := by
  unfold State.lockSection
  split
  · rename_i hbusy
    exact .lockBusy hr h hbusy
  · rename_i hfree
    exact .lockFree hr h (by simpa using hfree)

theorem unlockSection_nil {place : Place} (h : s.waitQueue = []) :
    s.unlockSection place = (none, { s with lock := false }) := by
  unfold State.unlockSection
  split
  · simp_all
  · rfl

theorem unlockSection_cons {place : Place} {hd : Nat} {rest : List Nat}
    (h : s.waitQueue = hd :: rest) :
    s.unlockSection place = (some hd, { s with waitQueue := rest }.setPlace hd place) := by
  unfold State.unlockSection
  split <;> simp_all

/-- A coroutine that is already in its own code does not move when it gets there. -/
theorem setPc_run {i : Nat} {u : State} (hu : u.coros = s.coros) (hpc : (s.coros i).pc = .run) :
    u.setPc i .run = u := by
  have hsame : { u.coros i with pc := Pc.run } = u.coros i := by
    rw [hu, ← hpc]
  simp only [State.setPc, State.setCoro, hsame, Function.update_eq_self]

theorem coros_finishRelease (g : Nat) (γ : Guard) (kind : Release) :
    (s.finishRelease g γ kind).coros = s.coros := by
  cases kind with
  | unlock | drop => rfl
  | assign src =>
    simp only [State.finishRelease]
    split <;> rfl

theorem opStep_transition {i : Nat} {o : Op} (hr : (s.coros i).place = .running)
    (hpc : (s.coros i).pc = .run) (h : opStep s i o = some t) : Transition s (.op i o) t := by
  cases o with
  | lock =>
    cases h
    exact lockSection_transition hr (.lock hpc)
  | release g kind =>
    simp only [opStep] at h
    split at h
    · rename_i γ hγ
      split at h
      · cases h
      · rename_i hallowed
        simp only [Bool.not_eq_true', Bool.not_eq_false] at hallowed
        split at h
        · cases h
          exact .idle
        · rename_i hself
          split at h
          · rename_i howns
            cases h
            exact .movePc hr (.unlocking hpc hγ hallowed hself howns)
          · rename_i howns
            split at h
            · cases h
              exact .idle
            · rename_i hunlock
              cases h
              have hfin := Transition.finish hr (.release hpc hγ hallowed hself hunlock
                (by simpa using howns))
              rwa [setPc_run (coros_finishRelease ..) hpc] at hfin
    · cases h
  | move g =>
    simp only [opStep] at h
    split at h
    · rename_i γ hγ
      cases h
      exact .move hr hpc hγ
    · cases h
  | relock g =>
    simp only [opStep] at h
    split at h
    · rename_i γ hγ
      split at h
      · rename_i hok
        cases h
        exact lockSection_transition hr (.relock hpc hγ (by grind) (by grind))
      · cases h
    · cases h
  | wait v g =>
    simp only [opStep] at h
    split at h
    · rename_i γ hγ
      split at h
      · rename_i hok
        cases h
        exact .cvPush hr (.wait hpc hγ hok)
      · cases h
    · cases h
  | waitFor v g =>
    simp only [opStep] at h
    split at h
    · rename_i γ hγ
      split at h
      · rename_i hok
        cases h
        exact .movePc hr (.waitFor hpc hγ hok)
      · cases h
    · cases h
  | notifyOne v =>
    simp only [opStep] at h
    split at h
    · rename_i hd rest hcv
      cases h
      exact .notify hr hpc hcv
    · cases h
      exact .idle
  | notifyAll v =>
    cases h
    exact .notify hr hpc (List.append_nil _).symm

theorem coroStep_transition {i : Nat} {inline : Bool} (hr : (s.coros i).place = .running)
    (h : coroStep s i inline = some t) : Transition s (.step i inline) t := by
  unfold coroStep at h
  split at h <;> rename_i hpc
  · cases h
  · cases h
  · cases h
    exact .lockResume hr hpc
  · cases h
    exact lockSection_transition hr (.wait hpc)
  · obtain ⟨γ, hγ, rfl⟩ := Option.map_eq_some_iff.mp h
    exact .relockResume hr hpc hγ
  · obtain ⟨γ, hγ, rfl⟩ := Option.map_eq_some_iff.mp h
    cases hq : s.waitQueue with
    | nil =>
      rw [unlockSection_nil (by exact hq)]
      exact .free hr hpc hγ hq
    | cons hd rest =>
      rw [unlockSection_cons (by exact hq)]
      exact .handOver hr hpc hγ hq
  · cases h
    exact .wake hr (.handing hpc)
  · obtain ⟨γ, hγ, rfl⟩ := Option.map_eq_some_iff.mp h
    exact .finish hr (.finishing hpc hγ)
  · cases h
    exact .movePc hr (.woken hpc)
  · cases h
    exact .wake hr (.waking hpc)

theorem tailStep_transition {k : Nat} {τ : Tail} {inline : Bool} (hk : s.tails k = some τ)
    (h : tailStep s k inline τ = some t) : Transition s (.tail k inline) t := by
  unfold tailStep at h
  split at h <;> rename_i hst
  · obtain ⟨γ, hγ, rfl⟩ := Option.map_eq_some_iff.mp h
    exact .tailTest hk hst hγ
  · cases hq : s.waitQueue with
    | nil =>
      rw [unlockSection_nil hq] at h
      cases h
      exact .tailFree hk hst hq
    | cons hd rest =>
      rw [unlockSection_cons hq] at h
      cases h
      exact .tailHandOver hk hst hq
  · cases h
    exact .tailWake hk hst
  · obtain ⟨γ, hγ, rfl⟩ := Option.map_eq_some_iff.mp h
    exact .tailWrite hk hst hγ
  · cases h

theorem step_transition (h : step s a = some t) : Transition s a t := by
  cases a with
  | op i o =>
    simp only [step] at h
    split at h
    · rename_i hr
      exact opStep_transition hr.1 hr.2 h
    · cases h
  | predicate i answer =>
    simp only [step] at h
    split at h
    · rename_i v g hc
      have hr : (s.coros i).place = .running := by rw [hc]
      have hpc : (s.coros i).pc = .test v g := by rw [hc]
      cases answer with
      | true =>
        cases h
        exact .movePc hr (.satisfied hpc)
      | false =>
        obtain ⟨γ, hγ, rfl⟩ := Option.map_eq_some_iff.mp h
        exact .cvPush hr (.test hpc hγ)
    · cases h
  | step i inline =>
    simp only [step] at h
    split at h
    · rename_i hr
      exact coroStep_transition hr h
    · cases h
  | tail k inline =>
    obtain ⟨τ, hτ, ht⟩ := Option.bind_eq_some_iff.mp h
    exact tailStep_transition hτ ht
  | resume i =>
    simp only [step] at h
    split at h
    · rename_i hr
      cases h
      exact .resume hr
    · cases h

end TinyCoroutine.Sync
