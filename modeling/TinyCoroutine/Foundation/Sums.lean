import Mathlib.Data.List.Basic
import Mathlib.Algebra.BigOperators.Group.List.Basic
import Mathlib.Algebra.GroupWithZero.Nat
import Mathlib.Algebra.Order.Group.Multiset

/-!
# Weights over an indexed family

A system keeps its parties in a list and a step rewrites one entry. `total f l`
adds the weight `f` over all parties; the rules below say how it moves when an
entry is rewritten or a party joins. They are stated as additions on both sides,
so that they can be handed to `omega`.
-/
namespace TinyCoroutine.Foundation

variable {α : Type*}

def total (f : α → Nat) (l : List α) : Nat := (l.map f).sum

@[simp] theorem total_nil (f : α → Nat) : total f [] = 0 := rfl

@[simp] theorem total_cons (f : α → Nat) (x : α) (l : List α) :
    total f (x :: l) = f x + total f l := by simp [total]

@[simp] theorem total_append (f : α → Nat) (l m : List α) :
    total f (l ++ m) = total f l + total f m := by simp [total]

theorem total_modify (f : α → Nat) (g : α → α) {l : List α} {i : Nat} {x : α}
    (h : l[i]? = some x) : total f (l.modify i g) + f x = total f l + f (g x) := by
  induction l generalizing i with
  | nil => simp at h
  | cons y l ih =>
    cases i with
    | zero =>
      obtain rfl : y = x := by simpa using h
      simp only [List.modify_zero_cons, total_cons]
      omega
    | succ i =>
      have := ih (i := i) (by simpa using h)
      simp only [List.modify_succ_cons, total_cons]
      omega

theorem total_set (f : α → Nat) {l : List α} {i : Nat} {x : α} (y : α)
    (h : l[i]? = some x) : total f (l.set i y) + f x = total f l + f y := by
  simpa [List.modify_eq_set_getElem?, h] using total_modify f (fun _ => y) h

/-- One party weighs at most as much as all of them. -/
theorem le_total (f : α → Nat) {l : List α} {i : Nat} {x : α} (h : l[i]? = some x) :
    f x ≤ total f l := by
  induction l generalizing i with
  | nil => simp at h
  | cons y l ih =>
    cases i with
    | zero =>
      obtain rfl : y = x := by simpa using h
      simp
    | succ i =>
      have := ih (i := i) (by simpa using h)
      simp only [total_cons]
      omega

/-- Two different parties together weigh at most as much as all of them. -/
theorem add_le_total (f : α → Nat) {l : List α} {i j : Nat} {x y : α} (hij : i ≠ j)
    (hi : l[i]? = some x) (hj : l[j]? = some y) : f x + f y ≤ total f l := by
  induction l generalizing i j with
  | nil => simp at hi
  | cons z l ih =>
    cases i with
    | zero =>
      obtain ⟨j, rfl⟩ := Nat.exists_eq_succ_of_ne_zero hij.symm
      obtain rfl : z = x := by simpa using hi
      have := le_total f (l := l) (i := j) (by simpa using hj)
      simp only [total_cons]
      omega
    | succ i =>
      cases j with
      | zero =>
        obtain rfl : z = y := by simpa using hj
        have := le_total f (l := l) (i := i) (by simpa using hi)
        simp only [total_cons]
        omega
      | succ j =>
        have := ih (i := i) (j := j) (by omega) (by simpa using hi) (by simpa using hj)
        simp only [total_cons]
        omega

/-- Parties without weight do not count. -/
theorem total_filter (f : α → Nat) (p : α → Bool) (h : ∀ x, p x = false → f x = 0)
    (l : List α) : total f (l.filter p) = total f l := by
  induction l with
  | nil => rfl
  | cons x l ih =>
    cases hx : p x with
    | true => simp [hx, ih]
    | false => simp [hx, ih, h x hx]

theorem total_eq_zero (f : α → Nat) (l : List α) : total f l = 0 ↔ ∀ x ∈ l, f x = 0 := by
  induction l with
  | nil => simp
  | cons x l ih => simp [ih]

theorem exists_of_total_ne_zero (f : α → Nat) {l : List α} (h : total f l ≠ 0) :
    ∃ (i : Nat) (x : α), l[i]? = some x ∧ f x ≠ 0 := by
  by_contra hnone
  push Not at hnone
  refine h ((total_eq_zero f l).mpr fun x hx => ?_)
  obtain ⟨i, hi⟩ := List.getElem?_of_mem hx
  exact hnone i x hi

/-- When the whole weighs one, one party has it. -/
theorem existsUnique_of_total_eq_one (f : α → Nat) {l : List α} (hl : ∀ x, x ∈ l)
    (h : total f l = 1) : ∃! x, 0 < f x := by
  obtain ⟨i, x, hi, hx⟩ := exists_of_total_ne_zero f (by omega : total f l ≠ 0)
  refine ⟨x, Nat.pos_of_ne_zero hx, fun y hy => ?_⟩
  obtain ⟨j, hj⟩ := List.getElem?_of_mem (hl y)
  by_cases hij : i = j
  · subst hij
    exact Option.some.inj (hj.symm.trans hi)
  · have hsum := add_le_total f hij hi hj
    omega

/-! ### Indexed contributions

The same for contributions in any commutative monoid, where a party's contribution may
depend on its position. -/

section Indexed

variable {M : Type*} [AddCommMonoid M]

def sumIdx (f : Nat → α → M) (l : List α) : M := (l.mapIdx f).sum

@[simp] theorem sumIdx_nil (f : Nat → α → M) : sumIdx f [] = 0 := rfl

theorem sumIdx_cons (f : Nat → α → M) (x : α) (l : List α) :
    sumIdx f (x :: l) = f 0 x + sumIdx (fun i => f (i + 1)) l := by
  simp [sumIdx, List.mapIdx_cons]

theorem sumIdx_append (f : Nat → α → M) (l : List α) (x : α) :
    sumIdx f (l ++ [x]) = sumIdx f l + f l.length x := by
  simp [sumIdx, List.mapIdx_append]

theorem sumIdx_set (f : Nat → α → M) {l : List α} {i : Nat} {x : α} (y : α)
    (h : l[i]? = some x) : sumIdx f (l.set i y) + f i x = sumIdx f l + f i y := by
  induction l generalizing i f with
  | nil => simp at h
  | cons z l ih =>
    cases i with
    | zero =>
      obtain rfl : z = x := by simpa using h
      simp only [List.set_cons_zero, sumIdx_cons]
      rw [add_right_comm, add_comm (f 0 y), add_right_comm]
    | succ i =>
      have hrest := ih (fun i => f (i + 1)) (by simpa using h)
      simp only [List.set_cons_succ, sumIdx_cons, add_assoc, hrest]

theorem sumIdx_map (f : Nat → α → M) (g : α → α) (h : ∀ i x, f i (g x) = f i x) (l : List α) :
    sumIdx f (l.map g) = sumIdx f l := by
  induction l generalizing f with
  | nil => rfl
  | cons x l ih =>
    rw [List.map_cons, sumIdx_cons, sumIdx_cons, h, ih (fun i => f (i + 1)) fun i => h (i + 1)]

end Indexed

theorem mem_sumIdx {β : Type*} (f : Nat → α → Multiset β) {l : List α} {b : β} :
    b ∈ sumIdx f l ↔ ∃ i x, l[i]? = some x ∧ b ∈ f i x := by
  induction l generalizing f with
  | nil => simp
  | cons z l ih =>
    rw [sumIdx_cons, Multiset.mem_add, ih]
    constructor
    · rintro (hz | ⟨i, x, hx, hb⟩)
      · exact ⟨0, z, rfl, hz⟩
      · exact ⟨i + 1, x, by simpa using hx, hb⟩
    · rintro ⟨i, x, hx, hb⟩
      cases i with
      | zero =>
        obtain rfl : z = x := by simpa using hx
        exact .inl hb
      | succ i => exact .inr ⟨i, x, by simpa using hx, hb⟩

theorem countP_sumIdx {β : Type*} (p : β → Prop) [DecidablePred p] (f : Nat → α → Multiset β)
    (n : α → Nat) (h : ∀ i x, (f i x).countP p = n x) (l : List α) :
    (sumIdx f l).countP p = total n l := by
  induction l generalizing f with
  | nil => rfl
  | cons x l ih =>
    rw [sumIdx_cons, Multiset.countP_add, h, total_cons, ih _ fun i => h (i + 1)]

/-- The members of `l` that are not in `m`, when `m` takes its members from `l`. -/
theorem countP_notMem_add_length [DecidableEq α] {l m : List α} (hl : l.Nodup) (hm : m.Nodup)
    (hsub : ∀ x ∈ m, x ∈ l) : l.countP (fun x => x ∉ m) + m.length = l.length := by
  have hperm : (l.filter fun x => x ∈ m).Perm m := by
    refine (List.perm_ext_iff_of_nodup (hl.filter _) hm).mpr fun x => ?_
    simp only [List.mem_filter, decide_eq_true_eq]
    exact ⟨And.right, fun hx => ⟨hsub x hx, hx⟩⟩
  have hsplit := List.length_eq_countP_add_countP (fun x => decide (x ∈ m)) (l := l)
  rw [List.countP_eq_length_filter, hperm.length_eq] at hsplit
  simp only [decide_eq_true_eq] at hsplit
  omega

end TinyCoroutine.Foundation
