import Mathlib.Data.List.Basic
import Mathlib.Data.List.Induction
import Mathlib.Data.Nat.ModEq

/-!
# A ring of optional slots

A fixed vector of optional slots read from `header` and written at `tail`, both
advanced modulo the capacity. `RingBuffer.Holds r xs` says that the slot at offset `i`
from the header holds `xs[i]?`: the first `xs.length` slots are engaged with `xs`
in order and every other slot is disengaged. `push` and `pop` then act on `xs` as
on a queue. Nothing prevents a client from pushing into a full ring; that the
client does not is its own invariant.
-/
namespace TinyCoroutine.Foundation

/-- The slots and the four counters of a ring. -/
structure RingBuffer (α : Type*) where
  buffer : List (Option α)
  header : Nat
  tail : Nat
  capacity : Nat
  count : Nat
  deriving DecidableEq

namespace RingBuffer

variable {α : Type*}

def empty (capacity : Nat) : RingBuffer α := ⟨List.replicate capacity none, 0, 0, capacity, 0⟩

/-- Write the slot at the tail and advance it. -/
def push (r : RingBuffer α) (x : α) : RingBuffer α :=
  { r with
    buffer := r.buffer.set r.tail (some x)
    tail := (r.tail + 1) % r.capacity
    count := r.count + 1 }

/-- The value in the slot at the header, if it is engaged. -/
def front (r : RingBuffer α) : Option α := (r.buffer[r.header]?).join

/-- Reset the slot at the header and advance it. -/
def pop (r : RingBuffer α) : RingBuffer α :=
  { r with
    buffer := r.buffer.set r.header none
    header := (r.header + 1) % r.capacity
    count := r.count - 1 }

/-- The values read from the header onwards, `count` of them. -/
def contents (r : RingBuffer α) : List α :=
  (List.range r.count).filterMap fun i => (r.buffer[(r.header + i) % r.capacity]?).join

@[simp] theorem push_capacity (r : RingBuffer α) (x : α) : (r.push x).capacity = r.capacity := rfl
@[simp] theorem push_count (r : RingBuffer α) (x : α) : (r.push x).count = r.count + 1 := rfl
@[simp] theorem pop_capacity (r : RingBuffer α) : r.pop.capacity = r.capacity := rfl
@[simp] theorem pop_count (r : RingBuffer α) : r.pop.count = r.count - 1 := rfl

/-- The ring stores exactly `xs`, read from the header. -/
structure Holds (r : RingBuffer α) (xs : List α) : Prop where
  size : r.buffer.length = r.capacity
  count_eq : r.count = xs.length
  fits : r.count ≤ r.capacity
  header_lt : 0 < r.capacity → r.header < r.capacity
  tail_eq : 0 < r.capacity → r.tail = (r.header + r.count) % r.capacity
  slot : ∀ i, i < r.capacity → r.buffer[(r.header + i) % r.capacity]? = some xs[i]?

theorem holds_empty (capacity : Nat) : (empty capacity : RingBuffer α).Holds [] where
  size := by simp [empty]
  count_eq := rfl
  fits := Nat.zero_le _
  header_lt h := h
  tail_eq h := by simp [empty]
  slot i hi := by
    have hc : (empty capacity : RingBuffer α).capacity = capacity := rfl
    have hlt : i % capacity < capacity := Nat.mod_lt _ (by omega)
    simp [empty, hlt]

/-- Offsets below the capacity denote different slots. -/
theorem slot_injective {c h i j : Nat} (hi : i < c) (hj : j < c)
    (heq : (h + i) % c = (h + j) % c) : i = j := by
  have : i ≡ j [MOD c] := Nat.ModEq.add_left_cancel' h heq
  exact Nat.ModEq.eq_of_lt_of_lt this hi hj

/-- Every slot is at some offset from the header. -/
theorem exists_slot {c k : Nat} (h : Nat) (hk : k < c) : ∃ i < c, k = (h + i) % c := by
  have hpos : 0 < c := by omega
  have hlt := Nat.mod_lt h hpos
  refine ⟨(k + (c - h % c)) % c, Nat.mod_lt _ hpos, ?_⟩
  have hsum : h % c + (k + (c - h % c)) = k + c := by omega
  rw [Nat.add_mod_mod, ← Nat.mod_add_mod, hsum, Nat.add_mod_right, Nat.mod_eq_of_lt hk]

theorem Holds.push {r : RingBuffer α} {xs : List α} (h : r.Holds xs) (space : r.count < r.capacity)
    (x : α) : (r.push x).Holds (xs ++ [x]) where
  size := by simpa [RingBuffer.push] using h.size
  count_eq := by simp [h.count_eq]
  fits := space
  header_lt := h.header_lt
  tail_eq hc := by
    simp only [RingBuffer.push, h.tail_eq hc, Nat.mod_add_mod, Nat.add_assoc]
  slot i hi := by
    have hpos : 0 < r.capacity := by omega
    have htail := h.tail_eq hpos
    have hslot := h.slot i hi
    by_cases hnew : i = r.count
    · subst hnew
      have hlt : r.tail < r.buffer.length := by
        rw [h.size, htail]
        exact Nat.mod_lt _ hpos
      have hget : (xs ++ [x])[r.count]? = some x := by simp [h.count_eq]
      rw [hget]
      simp only [RingBuffer.push, ← htail, List.getElem?_set_self hlt]
    · have hne : r.tail ≠ (r.header + i) % r.capacity := by
        rw [htail]
        exact fun e => hnew (slot_injective (c := r.capacity) space hi e).symm
      simp only [RingBuffer.push, List.getElem?_set_ne hne, hslot, Option.some.injEq]
      rcases Nat.lt_or_ge i xs.length with hold | hbeyond
      · exact (List.getElem?_append_left hold).symm
      · have hcount := h.count_eq
        rw [List.getElem?_eq_none hbeyond, List.getElem?_eq_none (by simp; omega)]

theorem Holds.front {r : RingBuffer α} {x : α} {xs : List α} (h : r.Holds (x :: xs)) :
    r.front = some x := by
  have hcap : 0 < r.capacity := by have := h.count_eq; have := h.fits; simp at *; omega
  have := h.slot 0 hcap
  simp only [Nat.add_zero, Nat.mod_eq_of_lt (h.header_lt hcap), List.getElem?_cons_zero] at this
  simp [RingBuffer.front, this]

theorem Holds.pop {r : RingBuffer α} {x : α} {xs : List α} (h : r.Holds (x :: xs)) :
    r.pop.Holds xs := by
  have hcount := h.count_eq
  have hfits := h.fits
  simp only [List.length_cons] at hcount
  have hcap : 0 < r.capacity := by omega
  have hhead := h.header_lt hcap
  refine ⟨by simpa [RingBuffer.pop] using h.size, by simp [hcount], by simp; omega,
    fun _ => Nat.mod_lt _ hcap, fun _ => ?_, fun i hi => ?_⟩
  · simp only [RingBuffer.pop, h.tail_eq hcap, hcount, Nat.mod_add_mod]
    congr 1
    omega
  · have hshift : ((r.header + 1) % r.capacity + i) % r.capacity
        = (r.header + (i + 1)) % r.capacity := by
      rw [Nat.mod_add_mod]; congr 1; omega
    simp only [RingBuffer.pop, hshift] at hi ⊢
    by_cases hlast : i + 1 = r.capacity
    -- The slot just vacated is the last one of the new window.
    · have hself : (r.header + (i + 1)) % r.capacity = r.header := by
        rw [hlast, Nat.add_mod_right, Nat.mod_eq_of_lt hhead]
      rw [hself, List.getElem?_set_self (by rw [h.size]; exact hhead),
        List.getElem?_eq_none (by omega)]
    · have hne : r.header ≠ (r.header + (i + 1)) % r.capacity := by
        intro e
        have := slot_injective (c := r.capacity) (h := r.header) (i := 0) (j := i + 1) hcap
          (by omega) (by rw [Nat.add_zero, Nat.mod_eq_of_lt hhead]; exact e)
        omega
      rw [List.getElem?_set_ne hne, h.slot (i + 1) (by omega), List.getElem?_cons_succ]

theorem Holds.contents {r : RingBuffer α} {xs : List α} (h : r.Holds xs) : r.contents = xs := by
  have hget : ∀ i ∈ List.range r.count,
      (r.buffer[(r.header + i) % r.capacity]?).join = xs[i]? := by
    intro i hi
    have := List.mem_range.mp hi
    simp [h.slot i (by have := h.fits; omega)]
  have hlen := h.count_eq
  rw [RingBuffer.contents, List.filterMap_congr hget, hlen]
  clear hget hlen h
  induction xs using List.reverseRecOn with
  | nil => rfl
  | append_singleton xs x ih =>
    rw [List.length_append, List.length_singleton, List.range_succ, List.filterMap_append,
      List.filterMap_congr (g := fun i => xs[i]?), ih]
    · simp
    · intro i hi
      exact List.getElem?_append_left (List.mem_range.mp hi)

end RingBuffer

end TinyCoroutine.Foundation
