import TinyCoroutine.Runtime.Ledger

/-!
# The counter of unfinished tasks

`pending` is a 64-bit counter. It is exact as long as the tasks it counts are distinct
coroutines that exist at one time: each takes memory, so there are fewer of them than the
counter can hold.
-/
namespace TinyCoroutine.Runtime

namespace Ledger

variable {C : Ledger → Delicate → Prop} {L L' : Ledger} {out new M : Multiset Mark}

/-- The coroutines whose submission has not been decided. -/
def submitting (M : Multiset Mark) : Nat := M.countP fun m => m.stage = .submitting

@[simp] theorem submitting_zero : submitting 0 = 0 := rfl

@[simp] theorem submitting_singleton (m : Mark) :
    submitting {m} = if m.stage = .submitting then 1 else 0 := by
  rw [submitting, ← Multiset.cons_zero, Multiset.countP_cons, Multiset.countP_zero, Nat.zero_add]

theorem Exchange.submitting (h : L.Exchange out new M) :
    submitting M + Ledger.submitting out = Ledger.submitting L.marks + Ledger.submitting new := by
  unfold Ledger.submitting
  rw [← Multiset.countP_add, ← Multiset.countP_add, h]

/-- A step that neither creates a coroutine nor decides about a submission. -/
theorem Exchange.submitting_eq (h : L.Exchange out new M)
    (hkept : ∀ m ∈ out + new, m.stage ≠ .submitting) :
    Ledger.submitting M = Ledger.submitting L.marks := by
  have hout : Ledger.submitting out = 0 :=
    Multiset.countP_eq_zero.mpr fun m hm => hkept m (Multiset.mem_add.mpr (.inl hm))
  have hnew : Ledger.submitting new = 0 :=
    Multiset.countP_eq_zero.mpr fun m hm => hkept m (Multiset.mem_add.mpr (.inr hm))
  have := h.submitting
  omega

/-- `outstanding` counts the undecided submissions and the accepted tasks that are not
completed, and there is memory for all of them. -/
structure Housed (L : Ledger) : Prop where
  count : L.outstanding + L.completed.length = L.accepted.length + submitting L.marks
  room : L.outstanding < 2 ^ 64

theorem Housed.step (hh : L.Housed) (hb : L.Balanced) (h : Step C L L') : L'.Housed := by
  obtain ⟨hcount, hroom⟩ := hh
  have hle := hb.completed_length_le
  cases h with
  | idle => exact ⟨hcount, hroom⟩
  | create _ hnew hex =>
    have hdiff := hex.submitting
    simp only [submitting_zero, submitting_singleton, if_true] at hdiff
    exact ⟨by simp only; omega, hnew⟩
  | reject hex =>
    have hdiff := hex.submitting
    simp only [submitting_zero, submitting_singleton, if_true] at hdiff
    exact ⟨by simp only; omega, by simp only; omega⟩
  | accept hex =>
    have hdiff := hex.submitting
    simp only [submitting_singleton, if_true, reduceCtorEq, if_false] at hdiff
    refine ⟨?_, hroom⟩
    simp only [List.length_append, List.length_singleton]
    omega
  | spawn _ hnew hex =>
    have hdiff := hex.submitting_eq (by simp)
    refine ⟨?_, hnew⟩
    simp only [List.length_append, List.length_singleton]
    omega
  | @move p q M hs hmove hex =>
    have hwaiting : ∀ {r : Place} {m : Mark}, m ∈ hs.map (Mark.mk (.waiting r)) →
        m.stage ≠ .submitting := by
      intro r m hm
      obtain ⟨g, -, rfl⟩ := Multiset.mem_map.mp hm
      simp
    have hdiff := hex.submitting_eq fun m hm => (Multiset.mem_add.mp hm).elim hwaiting hwaiting
    exact ⟨by simpa only [hdiff] using hcount, hroom⟩
  | resume _ _ hex | suspend _ _ hex | finish hex | notDone _ hex | done _ hex
  | destroy hex =>
    have hdiff := hex.submitting_eq (by simp)
    exact ⟨by simpa only [hdiff] using hcount, hroom⟩
  | complete hex =>
    have hlt := hb.completed_length_lt (hex.mem_out (Multiset.mem_singleton_self _) (by simp))
    have hdiff := hex.submitting_eq (by simp)
    refine ⟨?_, by simp only; omega⟩
    simp only [List.length_append, List.length_singleton]
    omega

/-- The accepted tasks that are not completed are fewer than the counter can hold. -/
theorem Housed.accepted_lt (hh : L.Housed) : L.accepted.length < L.completed.length + 2 ^ 64 := by
  have hcount := hh.count
  have hroom := hh.room
  omega

/-- `pending` is the number of accepted tasks that are not completed. -/
def Counted (L : Ledger) : Prop := L.pending + L.completed.length = L.accepted.length

theorem Counted.step (hc : L.Counted) (hb : L.Balanced) (h : Step C L L') (hh : L'.Housed) :
    L'.Counted := by
  have hlt := hh.accepted_lt
  unfold Counted at hc ⊢
  cases h with
  | idle | create | reject | move | resume | suspend | finish | notDone | done | destroy => exact hc
  | accept | spawn =>
    simp only [List.length_append, List.length_singleton] at hlt ⊢
    rw [fetchAdd_of_lt (by omega)]
    omega
  | complete hex =>
    have hone := hb.completed_length_lt (hex.mem_out (Multiset.mem_singleton_self _) (by simp))
    simp only [List.length_append, List.length_singleton]
    rw [fetchSub_of_le (by omega)]
    omega

end Ledger

end TinyCoroutine.Runtime
