import TinyCoroutine.Foundation.Run

/-!
# What a run can still reach

`Reaches step C s P` holds when some admitted continuation from `s` ends in a state that
satisfies `P`. It is the dual of an invariant: a system cannot get stuck before `P` when every
state it reaches still reaches `P`. Continuations compose, and a measure that can always be
lowered takes a system to where it cannot be lowered any more.
-/
namespace TinyCoroutine.Foundation

variable {σ α : Type*} {step : σ → α → Option σ} {C D : σ → α → Prop} {s t : σ}
  {P Q : σ → Prop}

def Reaches (step : σ → α → Option σ) (C : σ → α → Prop) (s : σ) (P : σ → Prop) : Prop :=
  ∃ t, Run step C s t ∧ P t

namespace Reaches

theorem here (h : P s) : Reaches step C s P := ⟨s, .refl, h⟩

theorem trans (h : Reaches step C s P) (next : ∀ t, P t → Reaches step C t Q) :
    Reaches step C s Q := by
  obtain ⟨t, hst, ht⟩ := h
  obtain ⟨u, htu, hu⟩ := next t ht
  exact ⟨u, hst.trans htu, hu⟩

theorem head {a : α} (hc : C s a) (hs : step s a = some t) (h : Reaches step C t P) :
    Reaches step C s P := by
  obtain ⟨u, htu, hu⟩ := h
  exact ⟨u, .head hc hs htu, hu⟩

theorem one {a : α} (hc : C s a) (hs : step s a = some t) (h : P t) : Reaches step C s P :=
  .head hc hs (.here h)

theorem imp (h : Reaches step C s P) (hPQ : ∀ t, P t → Q t) : Reaches step C s Q :=
  h.trans fun t ht => .here (hPQ t ht)

theorem mono (h : Reaches step C s P) (implied : ∀ {t a}, C t a → D t a) :
    Reaches step D s P := by
  obtain ⟨t, hst, ht⟩ := h
  exact ⟨t, hst.mono implied, ht⟩

/-- What the admitted steps keep also holds where the continuation ends. -/
theorem and_invariant {I : σ → Prop} (h : Reaches step C s P) (start : I s)
    (preserved : ∀ {t a u}, I t → C t a → step t a = some u → I u) :
    Reaches step C s fun t => I t ∧ P t := by
  obtain ⟨t, hst, ht⟩ := h
  exact ⟨t, hst, hst.invariant start preserved, ht⟩

/-- Whatever is not there yet can be brought closer, so it can be brought there. -/
theorem of_measure {I : σ → Prop} (μ : σ → Nat)
    (closer : ∀ s, I s → P s ∨ Reaches step C s fun t => I t ∧ μ t < μ s) (hs : I s) :
    Reaches step C s P := by
  induction hn : μ s using Nat.strongRecOn generalizing s with
  | _ n ih =>
    rcases closer s hs with hP | hcloser
    · exact .here hP
    · refine hcloser.trans fun t ht => ?_
      exact ih (μ t) (hn ▸ ht.2) ht.1 rfl

end Reaches

end TinyCoroutine.Foundation
