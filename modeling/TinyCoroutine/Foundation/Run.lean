import Mathlib.Logic.Relation

/-!
# Guarded runs of a transition function

A system is a partial step function `step : σ → α → Option σ`; `none` means that
the action is not enabled. A run may be restricted by a condition on the state
before a step and on the action taken, so that one step function serves several
classes of runs. Every safety result of the development is an instance of
`Run.invariant`; a concrete trace becomes a run through `exists_run`.
-/
namespace TinyCoroutine.Foundation

variable {σ α : Type*}

/-- `Run step C s t` holds when `t` is reached from `s` by enabled actions, each
taken in a state that meets `C` together with the action. -/
inductive Run (step : σ → α → Option σ) (C : σ → α → Prop) (s : σ) : σ → Prop where
  | refl : Run step C s s
  | snoc {t u : σ} {a : α} : Run step C s t → C t a → step t a = some u → Run step C s u

/-- The condition that excludes nothing. -/
def Always : σ → α → Prop := fun _ _ => True

instance (s : σ) (a : α) : Decidable (Always s a) := inferInstanceAs (Decidable True)

namespace Run

variable {step : σ → α → Option σ} {C D : σ → α → Prop} {s t u : σ}

/-- The invariant rule: established at the start and kept by every admitted step. -/
theorem invariant {I : σ → Prop} (h : Run step C s t) (start : I s)
    (preserved : ∀ {t a u}, I t → C t a → step t a = some u → I u) : I t := by
  induction h with
  | refl => exact start
  | snoc _ hc hs ih => exact preserved ih hc hs

/-- An invariant of the admitted steps may be used to justify another condition. -/
theorem weaken {I : σ → Prop} (h : Run step C s t) (start : I s)
    (preserved : ∀ {t a u}, I t → C t a → step t a = some u → I u)
    (implied : ∀ {t a}, I t → C t a → D t a) : Run step D s t := by
  have both : Run step D s t ∧ I t := by
    induction h with
    | refl => exact ⟨.refl, start⟩
    | snoc _ hc hs ih =>
      exact ⟨.snoc ih.1 (implied ih.2 hc) hs, preserved ih.2 hc hs⟩
  exact both.1

theorem trans (h : Run step C s t) (h' : Run step C t u) : Run step C s u := by
  induction h' with
  | refl => exact h
  | snoc _ hc hs ih => exact ih.snoc hc hs

theorem head {a : α} (hc : C s a) (hs : step s a = some t) (h : Run step C t u) :
    Run step C s u := (Run.refl.snoc hc hs).trans h

theorem mono (h : Run step C s t) (implied : ∀ {t a}, C t a → D t a) : Run step D s t :=
  h.weaken (I := fun _ => True) trivial (fun _ _ _ => trivial) (fun _ hc => implied hc)

end Run

/-- Follow a list of actions; `none` as soon as one of them is not enabled or not
admitted. -/
def exec (step : σ → α → Option σ) (C : σ → α → Prop) [∀ s a, Decidable (C s a)] :
    σ → List α → Option σ
  | s, [] => some s
  | s, a :: as => if C s a then (step s a).bind fun t => exec step C t as else none

theorem Run.of_exec {step : σ → α → Option σ} {C : σ → α → Prop} [∀ s a, Decidable (C s a)]
    {r s t : σ} {as : List α} (before : Run step C r s) (h : exec step C s as = some t) :
    Run step C r t := by
  induction as generalizing s with
  | nil => simpa [exec] using (Option.some.inj h) ▸ before
  | cons a as ih =>
    simp only [exec] at h
    split at h
    · rename_i hc
      obtain ⟨u, hu, hrest⟩ := Option.bind_eq_some_iff.mp h
      exact ih (before.snoc hc hu) hrest
    · cases h

/-- A trace that can be evaluated is a run, and its last state can be inspected. -/
theorem exists_run (step : σ → α → Option σ) (C : σ → α → Prop) [∀ s a, Decidable (C s a)]
    (s : σ) (as : List α) (P : σ → Prop) [DecidablePred P]
    (h : (exec step C s as).any (fun t => decide (P t)) = true) :
    ∃ t, Run step C s t ∧ P t := by
  cases ht : exec step C s as with
  | none => simp [ht] at h
  | some t => exact ⟨t, .of_exec .refl ht, by simpa [ht] using h⟩

end TinyCoroutine.Foundation
