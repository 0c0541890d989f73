import Mathlib.Data.Option.Basic
import Mathlib.Data.List.Infix
import Mathlib.Data.Finset.Card

/-!
# Machines that run by themselves

A deterministic machine is a partial step function; it stops where the function gives
`none`. `after step n s` is the state after `n` steps. Two machines run in lockstep when related
states take related steps and stop together.
-/
namespace TinyCoroutine.Foundation

variable {σ τ α : Type*} {step : σ → Option σ} {s t u : σ} {m n : Nat}

def after (step : σ → Option σ) : Nat → σ → Option σ
  | 0, s => some s
  | n + 1, s => (step s).bind (after step n)

theorem after_add (step : σ → Option σ) (m n : Nat) (s : σ) :
    after step (m + n) s = (after step m s).bind (after step n) := by
  induction m generalizing s with
  | zero => simp [after]
  | succ m ih =>
    rw [Nat.succ_add]
    simp only [after]
    cases step s with
    | none => rfl
    | some t => exact ih t

theorem after_head (h : step s = some t) (ht : after step n t = some u) :
    after step (n + 1) s = some u := by
  simp [after, h, ht]

theorem after_trans (hs : after step m s = some t) (ht : after step n t = some u) :
    after step (m + n) s = some u := by
  rw [after_add, hs]
  exact ht

theorem after_one (h : step s = some t) : after step 1 s = some t := after_head h rfl

/-- A machine does not go on after it has stopped. -/
theorem le_of_stopped (ht : after step m s = some t) (hu : after step n s = some u)
    (hstop : step u = none) : m ≤ n := by
  by_contra hlt
  obtain ⟨k, rfl⟩ : ∃ k, m = n + (k + 1) := ⟨m - n - 1, by omega⟩
  rw [after_add, hu] at ht
  simp [after, hstop] at ht

/-- What grows with every step is, at any time, a part of what it is later. -/
theorem prefix_of_after {f : σ → List α} (hstep : ∀ s t, step s = some t → f s <+: f t)
    (h : after step n s = some t) : f s <+: f t := by
  induction n generalizing s with
  | zero =>
    cases h
    exact List.prefix_refl _
  | succ n ih =>
    obtain ⟨r, hr, h⟩ := Option.bind_eq_some_iff.mp h
    exact (hstep s r hr).trans (ih h)

theorem prefix_of_le {f : σ → List α} (hstep : ∀ s t, step s = some t → f s <+: f t)
    (ht : after step m s = some t) (hu : after step n s = some u) (hle : m ≤ n) :
    f t <+: f u := by
  obtain ⟨k, rfl⟩ := Nat.exists_eq_add_of_le hle
  rw [after_add, ht] at hu
  exact prefix_of_after hstep hu

/-- Related states take related steps, or both machines have stopped. -/
def Lockstep (R : σ → τ → Prop) (step : σ → Option σ) (advance : τ → Option τ) : Prop :=
  ∀ s c, R s c → Option.Rel R (step s) (advance c)

theorem Lockstep.stopped {R : σ → τ → Prop} {advance : τ → Option τ} {c : τ}
    (hL : Lockstep R step advance) (h : R s c) (hstop : advance c = none) : step s = none := by
  have hrel := hL s c h
  rw [hstop] at hrel
  cases hs : step s with
  | none => rfl
  | some t =>
    rw [hs] at hrel
    cases hrel

theorem Lockstep.after {R : σ → τ → Prop} {advance : τ → Option τ} {c : τ}
    (hL : Lockstep R step advance) (h : R s c) (n : Nat) :
    Option.Rel R (after step n s) (after advance n c) := by
  induction n generalizing s c with
  | zero => exact .some h
  | succ n ih =>
    have hrel := hL s c h
    simp only [Foundation.after]
    cases hs : step s with
    | none =>
      rw [hs] at hrel
      cases hc : advance c with
      | none => exact .none
      | some c' =>
        rw [hc] at hrel
        cases hrel
    | some s' =>
      rw [hs] at hrel
      cases hc : advance c with
      | none =>
        rw [hc] at hrel
        cases hrel
      | some c' =>
        rw [hc] at hrel
        cases hrel with
        | some h' => exact ih h'

theorem Lockstep.exists_right {R : σ → τ → Prop} {advance : τ → Option τ} {c : τ}
    (hL : Lockstep R step advance) (h : R s c) (ht : Foundation.after step n s = some t) :
    ∃ d, Foundation.after advance n c = some d ∧ R t d := by
  have hrel := hL.after h n
  rw [ht] at hrel
  cases hd : Foundation.after advance n c with
  | none =>
    rw [hd] at hrel
    cases hrel
  | some d =>
    rw [hd] at hrel
    cases hrel with
    | some hR => exact ⟨d, rfl, hR⟩

theorem Lockstep.exists_left {R : σ → τ → Prop} {advance : τ → Option τ} {c d : τ}
    (hL : Lockstep R step advance) (h : R s c) (hd : Foundation.after advance n c = some d) :
    ∃ t, Foundation.after step n s = some t ∧ R t d := by
  have hrel := hL.after h n
  rw [hd] at hrel
  cases ht : Foundation.after step n s with
  | none =>
    rw [ht] at hrel
    cases hrel
  | some t =>
    rw [ht] at hrel
    cases hrel with
    | some hR => exact ⟨t, rfl, hR⟩

/-- A way that passes no state twice is shorter than there are states. -/
theorem exists_after_lt_card {S : Finset σ} (h : after step n s = some t)
    (hS : ∀ m u, after step m s = some u → u ∈ S) : ∃ m < S.card, after step m s = some t := by
  induction n using Nat.strongRecOn with
  | ind n ih =>
    by_cases hlt : n < S.card
    · exact ⟨n, hlt, h⟩
    have hpassed (i : Nat) (hi : i ≤ n) : after step i s = some ((after step i s).getD s) := by
      obtain ⟨k, rfl⟩ := Nat.exists_eq_add_of_le hi
      rw [after_add] at h
      obtain ⟨u, hu, -⟩ := Option.bind_eq_some_iff.mp h
      rw [hu, Option.getD_some]
    -- two of the states on the way are the same, and what is between them can be left out
    have hcut {i j : Nat} (hij : i < j) (hj : j ≤ n)
        (heq : (after step i s).getD s = (after step j s).getD s) :
        ∃ m < S.card, after step m s = some t := by
      obtain ⟨k, rfl⟩ := Nat.exists_eq_add_of_le hj
      refine ih (i + k) (by omega) ?_
      rw [after_add, hpassed j hj] at h
      rw [after_add, hpassed i (by omega), heq]
      exact h
    have hcard : S.card < (Finset.range (n + 1)).card := by
      rw [Finset.card_range]
      omega
    obtain ⟨i, hi, j, hj, hne, heq⟩ := Finset.exists_ne_map_eq_of_card_lt_of_maps_to hcard
      (f := fun i => (after step i s).getD s)
      fun i hi => hS i _ (hpassed i (Nat.lt_succ_iff.mp (Finset.mem_range.mp hi)))
    have hi := Nat.lt_succ_iff.mp (Finset.mem_range.mp hi)
    have hj := Nat.lt_succ_iff.mp (Finset.mem_range.mp hj)
    rcases Nat.lt_or_gt_of_ne hne with hij | hij
    · exact hcut hij hj heq
    · exact hcut hij hi heq.symm

end TinyCoroutine.Foundation
