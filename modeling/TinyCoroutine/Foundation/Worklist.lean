import TinyCoroutine.Foundation.Steps

/-!
# Worklists

Items are taken from the front of a queue and processed; processing an item may add others at the
back. Taking several items at once makes no difference: the items are processed in the order of
the queue, and what they add comes behind the rest of the batch.
-/
namespace TinyCoroutine.Foundation

variable {α σ : Type*}

structure Worklist (α σ : Type*) where
  state : σ
  queue : List α
  processed : List α

namespace Worklist

variable (work : σ → α → List α × σ)

/-- Process an item that has been taken from the queue. -/
def process (w : Worklist α σ) (a : α) : Worklist α σ where
  state := (work w.state a).2
  queue := w.queue ++ (work w.state a).1
  processed := w.processed ++ [a]

/-- Take one item and process it. -/
def one (w : Worklist α σ) : Option (Worklist α σ) :=
  match w.queue with
  | [] => none
  | a :: rest => some (process work { w with queue := rest } a)

/-- Take `n` items, or all there are, and process them. -/
def batch (n : Nat) (w : Worklist α σ) : Worklist α σ :=
  (w.queue.take n).foldl (process work) { w with queue := w.queue.drop n }

/-- Batches of the given sizes. -/
def batches (sizes : Nat → Nat) (w : Worklist α σ) : Nat → Worklist α σ
  | 0 => w
  | k + 1 => (batches sizes w k).batch work (sizes k)

variable {work} {w t : Worklist α σ} {sizes : Nat → Nat} {n : Nat}

theorem one_eq_none : w.one work = none ↔ w.queue = [] := by
  unfold one
  split <;> simp_all

theorem processed_one (h : w.one work = some t) : w.processed <+: t.processed := by
  unfold one at h
  split at h
  · cases h
  · cases h
    exact List.prefix_append _ _

theorem after_one_foldl (w : Worklist α σ) (as : List α) :
    after (one work) as.length { w with queue := as ++ w.queue } =
      some (as.foldl (process work) w) := by
  induction as generalizing w with
  | nil => rfl
  | cons a as ih =>
    rw [List.foldl_cons, ← ih (process work w a)]
    simp only [List.length_cons, after, one, List.cons_append, Option.bind_some, process,
      List.append_assoc]

theorem after_one_batch (n : Nat) (w : Worklist α σ) :
    after (one work) (w.queue.take n).length w = some (w.batch work n) := by
  have hafter : after (one work) _ _ = _ :=
    after_one_foldl { w with queue := w.queue.drop n } (w.queue.take n)
  simpa [batch] using hafter

theorem batch_of_nil (h : w.queue = []) (n : Nat) : w.batch work n = w := by
  cases w
  cases h
  simp [batch]

/-- Unless the queue has run empty, `k` batches process at least `k` items. -/
theorem exists_after_batches (hpos : ∀ k, 0 < sizes k) (w : Worklist α σ) (k : Nat) :
    ∃ m, after (one work) m w = some (w.batches work sizes k) ∧
      (k ≤ m ∨ (w.batches work sizes k).queue = []) := by
  induction k with
  | zero => exact ⟨0, rfl, .inl le_rfl⟩
  | succ k ih =>
    obtain ⟨m, hm, hk⟩ := ih
    have hbatch : after (one work) _ _ = _ := after_one_batch (sizes k) (w.batches work sizes k)
    by_cases hempty : (w.batches work sizes k).queue = []
    · refine ⟨m, ?_, .inr ?_⟩
      · rw [hm, batches, batch_of_nil hempty]
      · rw [batches, batch_of_nil hempty, hempty]
    · refine ⟨_, after_trans hm hbatch, .inl ?_⟩
      have hqueue := List.length_pos_iff.mpr hempty
      have hsize := hpos k
      have hk := hk.resolve_right hempty
      rw [List.length_take]
      omega

/-- As many batches process at least what is processed one by one. -/
theorem processed_batches (hpos : ∀ k, 0 < sizes k) (h : after (one work) n w = some t) :
    t.processed <+: (w.batches work sizes n).processed := by
  obtain ⟨m, hm, hn⟩ := exists_after_batches hpos w n
  have hle : n ≤ m := by
    rcases hn with hn | hempty
    · exact hn
    · exact le_of_stopped h hm (one_eq_none.mpr hempty)
  exact prefix_of_le (fun _ _ => processed_one) h hm hle

/-- Both run empty with the same result. -/
theorem batches_of_stopped (hpos : ∀ k, 0 < sizes k) (h : after (one work) n w = some t)
    (hstop : t.one work = none) : w.batches work sizes n = t := by
  obtain ⟨m, hm, hn⟩ := exists_after_batches hpos w n
  have hmn : m ≤ n := le_of_stopped hm h hstop
  have hnm : n ≤ m := by
    rcases hn with hn | hempty
    · exact hn
    · exact le_of_stopped h hm (one_eq_none.mpr hempty)
  rw [Nat.le_antisymm hmn hnm, h] at hm
  exact (Option.some.inj hm).symm

end Worklist

end TinyCoroutine.Foundation
