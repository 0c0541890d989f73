import TinyCoroutine.Sync.LockBack

/-!
# Who asked for the mutex, who got it and who gave it back

The machine of the mutex without condition variables, with a record of what happened. The
acquisitions of the mutex are numbered in the order in which they are granted, and each is
followed from the section that granted it, through `await_resume` and the moves of guards,
to the section that releases it. A guard may also be moved into a variable of another
coroutine (`transfer`).

`step_effect` says what each event means for the mutex: the lock, its queue, the guards that
have the mutex (`State.inside`) and the coroutines that have been given it and not made
their guard yet (`Coroutine.carries`).
-/
namespace TinyCoroutine.Sync

/-- What a step does with the mutex. -/
inductive Event where
  | quiet
  /-- coroutine `i` runs the section of `lock()` or `relock()` -/
  | request (i : Nat)
  /-- the section of `AsyncMutex::unlock`, called through guard `g` -/
  | release (g : Nat)
  /-- `await_resume` puts what coroutine `i` was granted into guard `g` -/
  | acquire (i g : Nat)
  /-- what is in guard `src` goes into guard `dst` -/
  | pass (src dst : Nat)
  deriving DecidableEq, Repr

/-- The end of a release through guard `g`. -/
def Release.event (g : Nat) : Release → Event
  | .assign src => .pass src g
  | .unlock | .drop => .quiet

def Op.mutexOnly : Op → Bool
  | .lock | .release _ _ | .move _ | .relock _ => true
  | .wait _ _ | .waitFor _ _ | .notifyOne _ | .notifyAll _ => false

/-- The step is not one of a condition variable. -/
def Action.mutexOnly : Action → Bool
  | .op _ o => o.mutexOnly
  | .step _ _ | .resume _ => true
  | .predicate _ _ | .tail _ _ => false

namespace State

variable (s : State)

def event : Action → Event
  | .op i .lock => .request i
  | .op i (.relock _) => .request i
  | .op _ (.move g) => .pass g s.nextGuard
  | .op _ (.release g kind) =>
    match s.guards g with
    | some γ => if kind = .assign g ∨ γ.owns && γ.attached then .quiet else kind.event g
    | none => .quiet
  | .step i _ =>
    match (s.coros i).pc with
    | .relock _ _ => .request i
    | .lockResume => .acquire i s.nextGuard
    | .relockResume g _ => .acquire i g
    | .unlocking g _ => .release g
    | .finishing g kind => kind.event g
    | _ => .quiet
  | _ => .quiet

/-- Coroutine `i` moves its guard `g` into a new guard of coroutine `j`. -/
def transfer (i g j : Nat) : Option State :=
  if (s.coros i).place = .running ∧ (s.coros i).pc = .run then
    (s.guardOf i g).map fun γ =>
      { (s.setGuard s.nextGuard { γ with owner := j }).setGuard g
          { γ with owns := false, attached := false, inside := false } with
        nextGuard := s.nextGuard + 1 }
  else none

/-- Guard `g` has the mutex. -/
def inside (g : Nat) : Bool := (s.guards g).any (·.inside)

/-- Coroutine `i` is between an acquisition of the mutex and its release. -/
def Holds (i : Nat) : Prop :=
  (s.coros i).carries ∨ ∃ g γ, s.guards g = some γ ∧ γ.owner = i ∧ γ.inside = true

end State

structure Traced where
  sync : State := {}
  /-- the sections of `lock()` and `relock()`, by coroutine -/
  requested : List Nat := []
  /-- the acquisitions, by coroutine -/
  granted : List Nat := []
  /-- the acquisition a coroutine has been granted last -/
  mine : Nat → Nat := fun _ => 0
  /-- the acquisition that is in a guard -/
  inGuard : Nat → Option Nat := fun _ => none
  /-- the sections of `AsyncMutex::unlock`, by the acquisition that was in the guard -/
  released : List (Option Nat) := []

namespace Traced

def init : Traced := {}

variable (s : Traced)

def record : Event → Traced
  | .quiet => s
  | .request i =>
    if s.sync.lock then { s with requested := s.requested ++ [i] }
    else
      { s with
        requested := s.requested ++ [i]
        granted := s.granted ++ [i]
        mine := Function.update s.mine i s.granted.length }
  | .release g =>
    let t := { s with
      released := s.released ++ [s.inGuard g]
      inGuard := Function.update s.inGuard g none }
    match s.sync.waitQueue with
    | h :: _ =>
      { t with
        granted := s.granted ++ [h]
        mine := Function.update s.mine h s.granted.length }
    | [] => t
  | .acquire i g => { s with inGuard := Function.update s.inGuard g (some (s.mine i)) }
  | .pass src dst =>
    { s with
      inGuard := Function.update (Function.update s.inGuard dst (s.inGuard src)) src none }

inductive Action where
  | sync (a : Sync.Action)
  | transfer (i g j : Nat)
  deriving DecidableEq, Repr

def step : Action → Option Traced
  | .sync a =>
    if a.mutexOnly then
      (Sync.step s.sync a).map fun t => { s.record (s.sync.event a) with sync := t }
    else none
  | .transfer i g j =>
    (s.sync.transfer i g j).map fun t => { s.record (.pass g s.sync.nextGuard) with sync := t }

end Traced

/-! ### What the events mean -/

/-- The mutex before and after a step. -/
inductive Effect (s t : State) : Event → Prop where
  | quiet : t.lock = s.lock → t.waitQueue = s.waitQueue → (∀ g, t.inside g = s.inside g) →
      (∀ i, (t.coros i).carries ↔ (s.coros i).carries) → Effect s t .quiet
  | lockFree {i} : s.lock = false → t.lock = true → t.waitQueue = s.waitQueue →
      (∀ g, t.inside g = s.inside g) →
      (∀ j, (t.coros j).carries ↔ j = i ∨ (s.coros j).carries) → Effect s t (.request i)
  | lockBusy {i} : s.lock = true → t.lock = true → t.waitQueue = s.waitQueue ++ [i] →
      (∀ g, t.inside g = s.inside g) →
      (∀ j, (t.coros j).carries ↔ (s.coros j).carries) → Effect s t (.request i)
  | free {g} : s.inside g = true → s.waitQueue = [] → t.lock = false → t.waitQueue = [] →
      (∀ h, t.inside h = if h = g then false else s.inside h) →
      (∀ j, (t.coros j).carries ↔ (s.coros j).carries) → Effect s t (.release g)
  | handOver {g h rest} : s.inside g = true → s.waitQueue = h :: rest → t.lock = s.lock →
      t.waitQueue = rest → (∀ h, t.inside h = if h = g then false else s.inside h) →
      (∀ j, (t.coros j).carries ↔ j = h ∨ (s.coros j).carries) → Effect s t (.release g)
  | acquire {i g} : (s.coros i).carries → t.lock = s.lock → t.waitQueue = s.waitQueue →
      (∀ h, t.inside h = if h = g then true else s.inside h) →
      (∀ j, (t.coros j).carries ↔ j ≠ i ∧ (s.coros j).carries) → Effect s t (.acquire i g)
  | pass {src dst} : src ≠ dst → s.inside dst = false → t.lock = s.lock →
      t.waitQueue = s.waitQueue →
      (∀ h, t.inside h = if h = src then false else if h = dst then s.inside src else s.inside h) →
      (∀ j, (t.coros j).carries ↔ (s.coros j).carries) → Effect s t (.pass src dst)

variable {s t : State} {i g h : Nat} {γ : Guard} {pc : Pc}

theorem inside_of_some (hγ : s.guards g = some γ) : s.inside g = γ.inside := by
  simp [State.inside, hγ]

theorem inside_setGuard (g h : Nat) (γ : Guard) :
    (s.setGuard g γ).inside h = if h = g then γ.inside else s.inside h := by
  simp only [State.inside, State.setGuard, Function.update_apply]
  split <;> simp

theorem lockSection_effect (hpc : (s.coros i).pc.acquired = false) (hacq : pc.acquired = true) :
    Effect s (s.lockSection i pc) (.request i) := by
  have hold : ¬ (s.coros i).carries := by simp [Coroutine.carries, hpc]
  unfold State.lockSection
  split
  · rename_i hbusy
    refine .lockBusy hbusy hbusy rfl (fun _ => rfl) fun j => ?_
    simp only [State.setCoro, Function.update_apply]
    grind [Coroutine.carries]
  · rename_i hfree
    refine .lockFree (by simpa using hfree) rfl rfl (fun _ => rfl) fun j => ?_
    simp only [State.setCoro, Function.update_apply]
    grind [Coroutine.carries]

theorem handOver_effect {kind : Release} {rest : List Nat} (P : Places s) (I : Guards s)
    (hr : (s.coros i).place = .running) (hpc : (s.coros i).pc = .unlocking g kind)
    (hγ : s.guards g = some γ) (hq : s.waitQueue = h :: rest) :
    Effect s (({ s.setGuard g { γ with inside := false } with waitQueue := rest }.setPlace h
      (.heldBy i)).setPc i (.handing h g kind)) (.release g) := by
  obtain ⟨⟨γ', hγ', -, -, hin⟩, -⟩ : s.Has i g _ ∧ kind.Source s i g := by
    simpa [hpc, Pc.GuardOk] using I.pcs i
  obtain rfl := Option.some.inj (hγ.symm.trans hγ')
  have hplace : (s.coros h).place = .mutexQueue := (P.mutex h).mp (by simp [hq])
  have hacq := P.acquired h hplace
  have hne : h ≠ i := by
    rintro rfl
    simp [hr] at hplace
  refine .handOver ((inside_of_some hγ).trans hin) hq rfl rfl (inside_setGuard g · _) fun j => ?_
  simp only [State.setPc, State.setPlace, State.setCoro, State.setGuard, Function.update_apply]
  grind [Coroutine.carries, Pc.acquired]

theorem free_effect {kind : Release} (I : Guards s) (hpc : (s.coros i).pc = .unlocking g kind)
    (hγ : s.guards g = some γ) (hq : s.waitQueue = []) :
    Effect s ({ s.setGuard g { γ with inside := false } with lock := false }.setPc i
      (.finishing g kind)) (.release g) := by
  obtain ⟨⟨γ', hγ', -, -, hin⟩, -⟩ : s.Has i g _ ∧ kind.Source s i g := by
    simpa [hpc, Pc.GuardOk] using I.pcs i
  obtain rfl := Option.some.inj (hγ.symm.trans hγ')
  refine .free ((inside_of_some hγ).trans hin) hq rfl hq (inside_setGuard g · _) ?_
  exact carries_setPc (by simp [State.setGuard, hpc, Pc.acquired])

/-- The end of a release; only an assignment moves an acquisition. -/
theorem finish_effect {a : Action} {kind : Release} (I : Guards s) (hf : Finishes s i g γ a kind) :
    Effect s ((s.finishRelease g γ kind).setPc i .run) (kind.event g) := by
  obtain ⟨hγ, -, -, hin, hsrc, -, -⟩ := I.finishing hf
  have hcarries : ∀ j, (((s.finishRelease g γ kind).setPc i .run).coros j).carries ↔
      (s.coros j).carries := by
    intro j
    refine (carries_setPc ?_ j).trans (by rw [coros_finishRelease])
    rw [coros_finishRelease]
    cases hf <;> simp_all [Pc.acquired]
  cases kind with
  | unlock | drop =>
    refine .quiet rfl rfl (fun h => ?_) hcarries
    refine (inside_setGuard g h _).trans ?_
    split
    · rename_i hh
      rw [hh, inside_of_some hγ]
    · rfl
  | assign src =>
    obtain ⟨hne, σ, hσ, -⟩ := hsrc
    have hstate : s.finishRelease g γ (.assign src) = (s.setGuard g
        { γ with owns := σ.owns, attached := σ.attached, inside := σ.inside }).setGuard src
          { σ with owns := false, attached := false, inside := false } := by
      simp only [State.finishRelease, hσ]
    rw [hstate] at hcarries ⊢
    refine .pass hne ((inside_of_some hγ).trans hin) rfl rfl (fun h => ?_) hcarries
    refine (inside_setGuard src h _).trans ?_
    rw [inside_setGuard, inside_of_some hσ]

theorem transfer_effect {j : Nat} (I : Guards s) (hγ : s.guards g = some γ) :
    Effect s { (s.setGuard s.nextGuard { γ with owner := j }).setGuard g
        { γ with owns := false, attached := false, inside := false } with
      nextGuard := s.nextGuard + 1 } (.pass g s.nextGuard) := by
  have hnone := I.fresh s.nextGuard (Nat.le_refl _)
  have hne : g ≠ s.nextGuard := by
    rintro rfl
    simp [hnone] at hγ
  refine .pass hne (by simp [State.inside, hnone]) rfl rfl (fun h => ?_) (fun _ => .rfl)
  refine (inside_setGuard g h _).trans ?_
  rw [inside_setGuard, inside_of_some hγ]

theorem opStep_effect {o : Op} (I : Guards s) (hpc : (s.coros i).pc = .run)
    (ho : o.mutexOnly = true) (h : opStep s i o = some t) :
    Effect s t (s.event (.op i o)) := by
  have hidle : Effect s s .quiet := .quiet rfl rfl (fun _ => rfl) fun _ => .rfl
  cases o with
  | wait | waitFor | notifyOne | notifyAll => cases ho
  | lock =>
    cases h
    exact lockSection_effect (by simp [hpc, Pc.acquired]) rfl
  | release g kind =>
    simp only [opStep] at h
    split at h
    · rename_i γ hγ
      have hguard := (guardOf_eq_some.mp hγ).1
      simp only [State.event, hguard]
      split at h
      · cases h
      · rename_i hallowed
        simp only [Bool.not_eq_true', Bool.not_eq_false] at hallowed
        split at h
        · rename_i hself
          cases h
          rwa [if_pos (.inl hself)]
        · rename_i hself
          split at h
          · rename_i howns
            cases h
            rw [if_pos (.inr howns)]
            exact .quiet rfl rfl (fun _ => rfl) (carries_setPc (by simp [hpc, Pc.acquired]))
          · rename_i howns
            rw [if_neg (by rintro (h | h) <;> contradiction)]
            split at h
            · rename_i hunlock
              cases h
              rw [hunlock]
              exact hidle
            · rename_i hunlock
              cases h
              have hfin := finish_effect I (.release hpc hγ hallowed hself hunlock
                (by simpa using howns))
              rwa [setPc_run (coros_finishRelease ..) hpc] at hfin
    · cases h
  | move g =>
    simp only [opStep] at h
    split at h
    · rename_i γ hγ
      cases h
      obtain ⟨hguard, howner, -⟩ := guardOf_eq_some.mp hγ
      exact howner ▸ transfer_effect (j := γ.owner) I hguard
    · cases h
  | relock g =>
    simp only [opStep] at h
    split at h
    · split at h
      · cases h
        exact lockSection_effect (by simp [hpc, Pc.acquired]) rfl
      · cases h
    · cases h

theorem wake_effect (P : Places s) (hw : Wakes s i h pc) (inline : Bool) :
    Effect s ((s.wake h inline).setPc i pc) .quiet := by
  have hplace : (s.coros h).place = .heldBy i := (P.hand i h).mp (by simp [hw.hand])
  refine .quiet rfl rfl (fun _ => rfl) fun j => ?_
  refine (carries_setPc ?_ j).trans (carries_wake (by simp [hplace]) inline j)
  rw [State.wake, pc_setPlace, hw.not_acquired.1, hw.not_acquired.2]

theorem coroStep_effect {inline : Bool} (P : Places s) (I : Guards s)
    (hr : (s.coros i).place = .running) (h : coroStep s i inline = some t) :
    Effect s t (s.event (.step i inline)) := by
  unfold coroStep at h
  split at h <;> rename_i hpc <;> simp only [State.event, hpc]
  · cases h
  · cases h
  · cases h
    refine .acquire (by simp [Coroutine.carries, hpc, hr, Pc.acquired]) rfl rfl
      (inside_setGuard s.nextGuard · _) fun j => ?_
    simp only [State.setPc, State.setCoro, State.setGuard, Function.update_apply]
    grind [Coroutine.carries, Pc.acquired]
  · cases h
    exact lockSection_effect (by simp [hpc, Pc.acquired]) rfl
  · rename_i g next
    obtain ⟨γ, hγ, rfl⟩ := Option.map_eq_some_iff.mp h
    refine .acquire (by simp [Coroutine.carries, hpc, hr, Pc.acquired]) rfl rfl
      (inside_setGuard g · _) fun j => ?_
    have hnext : (next.pc g).acquired = false := by cases next <;> rfl
    simp only [State.setPc, State.setCoro, State.setGuard, Function.update_apply]
    grind [Coroutine.carries, Pc.acquired]
  · obtain ⟨γ, hγ, rfl⟩ := Option.map_eq_some_iff.mp h
    cases hq : s.waitQueue with
    | nil =>
      rw [unlockSection_nil (by exact hq)]
      exact free_effect I hpc hγ hq
    | cons hd rest =>
      rw [unlockSection_cons (by exact hq)]
      exact handOver_effect P I hr hpc hγ hq
  · cases h
    exact wake_effect P (.handing hpc) inline
  · obtain ⟨γ, hγ, rfl⟩ := Option.map_eq_some_iff.mp h
    exact finish_effect (a := .step i inline) I (.finishing hpc hγ)
  · cases h
    exact .quiet rfl rfl (fun _ => rfl) (carries_setPc (by simp [hpc, Pc.acquired]))
  · cases h
    exact wake_effect P (.waking hpc) inline

theorem step_effect {a : Action} (P : Places s) (I : Guards s) (ha : a.mutexOnly = true)
    (h : step s a = some t) : Effect s t (s.event a) := by
  cases a with
  | predicate | tail => cases ha
  | op i o =>
    simp only [step] at h
    split at h
    · rename_i hr
      exact opStep_effect I hr.2 ha h
    · cases h
  | step i inline =>
    simp only [step] at h
    split at h
    · rename_i hr
      exact coroStep_effect P I hr h
    · cases h
  | resume i =>
    simp only [step] at h
    split at h
    · rename_i hr
      cases h
      exact .quiet rfl rfl (fun _ => rfl) (carries_setPlace (by simp [hr]) (by simp))
    · cases h

end TinyCoroutine.Sync
