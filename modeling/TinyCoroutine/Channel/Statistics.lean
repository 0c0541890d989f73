import TinyCoroutine.Channel.Reported

/-!
# What the statistics count

Each operation adds to some of the counters. `Counted c c' d` says that `d` was added on the way
from `c` to `c'`, so that the amounts can be compared as numbers, without regard to the width of
the counters. This file has the amounts of the blocks and of the two loops.
-/
namespace TinyCoroutine.Channel

open Foundation

variable {T : Type*}

/-- `stats_load`. -/
def statsLoad (c : Channel T) (counter : Counter) : UInt64 :=
  if c.statsEnabled then c.stats counter else 0

/-- `stats_snapshot()`. -/
def statsSnapshot (c : Channel T) : Counter → UInt64 := fun counter => c.statsLoad counter

/-- The parked senders that were woken after their value had been taken. -/
def taken (wakes : List (Wake T)) : List Nat :=
  wakes.filterMap fun
    | .sender _ a => if a.close then none else some a.id
    | .receiver _ _ => none

theorem length_wokenSenders (wakes : List (Wake T)) :
    (wokenSenders wakes).length = (withdrawn wakes).length + (taken wakes).length := by
  induction wakes with
  | nil => rfl
  | cons w wakes ih =>
    cases w with
    | receiver h a => simpa [wokenSenders, withdrawn, taken] using ih
    | sender h a =>
      simp only [wokenSenders, withdrawn, taken] at ih
      cases hclose : a.close <;> simp [wokenSenders, withdrawn, taken, hclose, ih] <;> omega

/-! ## Amounts -/

/-- `n` for one counter and nothing for the others. -/
def only (k : Counter) (n : Nat) : Counter → Nat := fun j => if j = k then n else 0

@[simp] theorem only_zero (k : Counter) : only k 0 = fun _ => 0 := by
  funext j
  simp [only]

structure Counted (c c' : Channel T) (d : Counter → Nat) : Prop where
  enabled : c'.statsEnabled = c.statsEnabled
  stats : c.statsEnabled = true → ∀ k, c'.stats k = c.stats k + UInt64.ofNat (d k)

section

variable {c c' c'' : Channel T} {d d' : Counter → Nat}

theorem Counted.refl (c : Channel T) : Counted c c (fun _ => 0) := ⟨rfl, fun _ k => by simp⟩

theorem Counted.trans (h : Counted c c' d) (h' : Counted c' c'' d') :
    Counted c c'' (fun k => d k + d' k) := by
  refine ⟨h'.enabled.trans h.enabled, fun hon k => ?_⟩
  rw [h'.stats (h.enabled.trans hon), h.stats hon, UInt64.ofNat_add, UInt64.add_assoc]

/-- A channel whose statistics are those of `c` adds `n` to one counter. -/
theorem Counted.one (hon : c'.statsEnabled = c.statsEnabled) (hstats : c'.stats = c.stats)
    (k : Counter) (n : Nat) : Counted c (c'.statsAdd k (UInt64.ofNat n)) (only k n) := by
  constructor
  · rw [← hon]
    unfold Channel.statsAdd
    split <;> rfl
  · intro hc j
    simp only [Channel.statsAdd, hon.trans hc, if_true, hstats, Function.update_apply, only]
    split
    · subst j
      rfl
    · simp

theorem counted_handoff (c : Channel T) (rest : List (Handle × ReceiverAwaiter T)) :
    Counted c (c.handoff rest) (only .directHandoffs 1) := by
  refine Counted.one ?_ ?_ _ 1 <;> rfl

theorem counted_bufferedSend (c : Channel T) (v : T) :
    Counted c (c.bufferedSend v) (only .bufferPushes 1) := by
  refine Counted.one ?_ ?_ _ 1 <;> rfl

/-- A value is popped, and the value of a parked sender is pushed. -/
def takeAmounts (c : Channel T) : Counter → Nat := fun k =>
  only .bufferPops 1 k + only .bufferPushes (c.senderQueue.take 1).length k

theorem counted_takeBuffered (c : Channel T) : Counted c c.takeBuffered.2.1 c.takeAmounts := by
  have hpop : Counted c (c.popHeader.statsAdd .bufferPops) (only .bufferPops 1) := by
    refine Counted.one ?_ ?_ _ 1 <;> rfl
  refine hpop.trans ?_
  simp only [takeBuffered, refill, statsAdd_senderQueue]
  cases hs : c.popHeader.senderQueue with
  | nil =>
    have hnil : c.senderQueue = [] := hs
    simp only [hnil, List.take_nil, List.length_nil, only_zero]
    exact .refl _
  | cons p rest =>
    have hcons : c.senderQueue = p :: rest := hs
    simp only [hcons, List.take_succ_cons, List.take_zero, List.length_singleton]
    refine Counted.one ?_ ?_ _ 1 <;> rfl

end

/-! ## The loops -/

section

variable {c : Channel T} {xs : List T}

theorem counted_sendLoop (h : c.WellFormed xs) (vs : List T) :
    ∃ d, Counted c (c.sendLoop (vs.map .value)).2.2.1 d ∧
      d .directHandoffs = (wokenReceivers (c.sendLoop (vs.map .value)).2.2.2).length ∧
      d .directHandoffs = (handedOver (c.sendLoop (vs.map .value)).2.2.2).length ∧
      c.count + d .bufferPushes = (c.sendLoop (vs.map .value)).2.2.1.count ∧
      ∀ k, k ≠ .directHandoffs → k ≠ .bufferPushes → k ≠ .trySendFullFailures → d k = 0 := by
  induction vs generalizing c xs with
  | nil => exact ⟨_, .refl c, rfl, rfl, rfl, fun _ _ _ _ => rfl⟩
  | cons v vs ih =>
    cases hr : c.receiverQueue with
    | cons r rest =>
      obtain ⟨d, hd, hwoken, hgiven, hcount, hnone⟩ := ih (h.handoff hr)
      simp only [List.map_cons, sendLoop, hr]
      refine ⟨_, (counted_handoff c rest).trans hd, ?_, ?_, ?_, fun k h₁ h₂ h₃ => ?_⟩
      · simp only [only, if_true, hwoken]
        simp [wokenReceivers, Nat.add_comm]
      · simp only [only, if_true, hgiven]
        simp [handedOver, Nat.add_comm]
      · rw [← hcount]
        simp [only, handoff]
      · simp [only, h₁, hnone k h₁ h₂ h₃]
    | nil =>
      cases hfull : c.isFull with
      | false =>
        obtain ⟨d, hd, hwoken, hgiven, hcount, hnone⟩ := ih (h.bufferedSend hr hfull v)
        simp only [List.map_cons, sendLoop, hr, hfull, Bool.not_false, if_true]
        refine ⟨_, (counted_bufferedSend c v).trans hd, ?_, ?_, ?_, fun k h₁ h₂ h₃ => ?_⟩
        · simpa [only] using hwoken
        · simpa [only] using hgiven
        · rw [← hcount]
          simp only [only, if_true, bufferedSend, statsAdd_ring, pushTail_ring,
            RingBuffer.push_count]
          omega
        · simp [only, h₂, hnone k h₁ h₂ h₃]
      | true =>
        simp only [List.map_cons, sendLoop, hr, hfull, Bool.not_true, Bool.false_eq_true, if_false]
        exact ⟨_, .one rfl rfl _ 1, rfl, rfl, by simp [only], fun k _ _ h₃ => by simp [only, h₃]⟩

@[simp] theorem capacity_takeBuffered (c : Channel T) :
    c.takeBuffered.2.1.capacity = c.capacity := by
  simp only [takeBuffered, refill, statsAdd_senderQueue]
  cases c.popHeader.senderQueue <;> simp

theorem count_takeBuffered {x : T} (h : c.WellFormed (x :: xs)) :
    c.count + (c.senderQueue.take 1).length = 1 + c.takeBuffered.2.1.count := by
  have hcount := h.count
  have hafter := h.takeBuffered.2.1.count
  simp only [List.length_cons, List.length_append, List.length_take, List.length_map] at *
  omega

/-- With a capacity from one on, every value comes from the ring. -/
theorem counted_receiveLoop (h : c.WellFormed xs) (hpos : 0 < c.capacity) (n : Nat) :
    ∃ d, Counted c (c.receiveLoop n).2.1 d ∧ d .bufferPops = (c.receiveLoop n).1.length ∧
      c.count + d .bufferPushes = d .bufferPops + (c.receiveLoop n).2.1.count ∧
      ∀ k, k ≠ .bufferPops → k ≠ .bufferPushes → d k = 0 := by
  induction n generalizing c xs with
  | zero => exact ⟨_, .refl c, rfl, by simp [receiveLoop], fun _ _ _ => rfl⟩
  | succ n ih =>
    cases hempty : c.isEmpty with
    | false =>
      obtain ⟨x, rest, rfl⟩ := h.cons_of_count (isEmpty_eq_false.mp hempty)
      obtain ⟨hfront, hwf, -⟩ := h.takeBuffered
      obtain ⟨d, hd, hpops, hcount, hnone⟩ := ih hwf (by simpa using hpos)
      simp only [receiveLoop, hempty, Bool.not_false, if_true, hfront]
      refine ⟨_, (counted_takeBuffered c).trans hd, ?_, ?_, fun k h₁ h₂ => ?_⟩
      · simp only [takeAmounts, only, hpops]
        simp [Nat.add_comm]
      · have htake := count_takeBuffered h
        have hsum : c.count + (0 + (c.senderQueue.take 1).length + d .bufferPushes) =
            1 + 0 + d .bufferPops + (c.takeBuffered.2.1.receiveLoop n).2.1.count := by omega
        exact hsum
      · simp [takeAmounts, only, h₁, h₂, hnone k h₁ h₂]
    | true =>
      cases hs : c.senderQueue with
      | nil =>
        simp only [receiveLoop, hempty, Bool.not_true, Bool.false_eq_true, if_false, hs]
        exact ⟨_, .refl c, rfl, by simp, fun _ _ _ => rfl⟩
      | cons p rest =>
        have hfull := (h.senders (by simp [hs])).1
        have hzero : c.count = 0 := by simpa [isEmpty] using hempty
        omega

end

end TinyCoroutine.Channel
