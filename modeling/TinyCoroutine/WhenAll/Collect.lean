import TinyCoroutine.WhenAll.Invariant

/-!
# `when_all` collects every outcome

The counter of the group is the number of wrappers that have not called `done`, so the
caller gets past its wait only after all of them, and by then every slot holds a value
unless an exception is stored. Both overloads obey one law, which leaves no freedom in the
result once the outcomes and the order of the exceptions are given.
-/
namespace TinyCoroutine.WhenAll

open TinyCoroutine.Foundation

variable {n : Nat} {T : Fin n → Type} {R : Type} {s : State T R}

/-- Once the calls of `done` are complete, every outcome is known and stored. -/
theorem Inv.hasStored (hs : Inv s) (full : s.doneCalls.length = n) (i : Fin n) :
    (s.wrappers i).hasStored := by
  have done := (hs.joined.wrapper i).called.mp (hs.joined.mem_doneCalls full i)
  cases h : s.wrappers i <;> simp_all [Wrapper.hasDone, Wrapper.hasStored]

/-- What the caller returned is what it would still collect. -/
def Returned (unwrap : ((i : Fin n) → Option (T i)) → Option R) (s : State T R) : Prop :=
  ∀ r, s.caller = .returned r → r = s.collect unwrap

/-- Only a store changes what the caller would collect, and only its last step returns. -/
theorem step_collect {unwrap : ((i : Fin n) → Option (T i)) → Option R} {a : Action T}
    {t : State T R} (noStore : ∀ i, a ≠ .store i) (noFinish : a ≠ .finish)
    (h : step unwrap s a = some t) :
    t.collect unwrap = s.collect unwrap ∧ ∀ r, t.caller = .returned r → s.caller = .returned r := by
  cases a with
  | store i => exact absurd rfl (noStore i)
  | finish => exact absurd rfl noFinish
  | submit =>
    simp only [step] at h
    split at h <;> [split at h; skip] <;> cases h <;> exact ⟨rfl, by simp⟩
  | start i =>
    simp only [step] at h
    split at h <;> cases h
    exact ⟨rfl, fun _ => id⟩
  | taskEnds i o =>
    simp only [step] at h
    split at h <;> cases h
    exact ⟨rfl, fun _ => id⟩
  | done i =>
    simp only [step, State.callDone] at h
    split at h <;> [split at h; skip] <;> cases h <;> exact ⟨rfl, fun _ => id⟩
  | reschedule i inline =>
    simp only [step, State.reschedule] at h
    split at h <;> cases h
    · split <;> [split; skip]
      · exact ⟨rfl, by simp [State.pass]⟩
      · exact ⟨rfl, by simp⟩
      · exact ⟨rfl, fun _ => id⟩
    · exact ⟨rfl, fun _ => id⟩
  | wait =>
    simp only [step] at h
    split at h <;> cases h
    split <;> exact ⟨rfl, by simp [State.pass]⟩
  | awaitSuspend =>
    simp only [step] at h
    split at h <;> [split at h; skip] <;> cases h <;> exact ⟨rfl, by simp [State.pass]⟩
  | resume =>
    simp only [step] at h
    split at h <;> cases h
    exact ⟨rfl, by simp [State.pass]⟩

theorem Returned.preserved {unwrap : ((i : Fin n) → Option (T i)) → Option R} {a : Action T}
    {t : State T R} (hs : Inv s) (hr : Returned unwrap s) (h : step unwrap s a = some t) :
    Returned unwrap t := by
  intro r hc
  by_cases finish : a = .finish
  · subst finish
    simp only [step] at h
    split at h <;> cases h
    cases hc
    rfl
  by_cases store : ∃ i, a = .store i
  · obtain ⟨i, rfl⟩ := store
    simp only [step] at h
    split at h <;> cases h
    rename_i o ended
    have hc : s.caller = .returned r := by cases o <;> exact hc
    have caller := hs.joined.caller
    simp only [State.CallerOk, hc] at caller
    have stored := hs.hasStored caller.2.2.1 i
    simp [ended, Wrapper.hasStored] at stored
  · obtain ⟨same, before⟩ := step_collect (fun i hi => store ⟨i, hi⟩) finish h
    exact (hr r (before r hc)).trans same.symm

theorem Inv.returned_full (hs : Inv s) {r : Except Exn (Option R)} (hc : s.caller = .returned r) :
    s.doneCalls.length = n := by
  have caller := hs.joined.caller
  simp only [State.CallerOk, hc] at caller
  exact caller.2.2.1

/-- When all tasks have ended and none threw, they all returned values. -/
theorem exists_values {outcomes : (i : Fin n) → Option (Except Exn (T i))}
    (known : ∀ i, (outcomes i).isSome) (none : ¬ ∃ i e, outcomes i = some (.error e)) :
    ∃ v : (i : Fin n) → T i, ∀ i, outcomes i = some (.ok (v i)) := by
  have each : ∀ i, ∃ v, outcomes i = some (.ok v) := by
    intro i
    obtain ⟨o, ho⟩ := Option.isSome_iff_exists.mp (known i)
    cases o with
    | ok v => exact ⟨v, ho⟩
    | error e => exact absurd ⟨i, e, ho⟩ none
  choose v hv using each
  exact ⟨v, hv⟩

end TinyCoroutine.WhenAll
