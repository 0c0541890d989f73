import TinyCoroutine.Channel.Agreement
import TinyCoroutine.Channel.Waiting

/-!
# Batches are iterated calls

`try_send_many` and `try_receive_many` hold the mutex over their whole loop and reschedule at
the end. What they return, the channel they leave and the coroutines they wake are those of
calling `try_send` and `try_receive` in turn.
-/
namespace TinyCoroutine.Channel

open Foundation

variable {T : Type*}

/-- Call `try_send` on one value after another, up to the first call that returns false or
throws; count the calls that returned true. -/
def sendEach (c : Channel T) : List T → Outcome T (Except Exn Nat)
  | [] => ⟨.ok 0, c, []⟩
  | v :: vs =>
    match c.trySend (.ok v) with
    | ⟨.ok true, c, wakes⟩ =>
      let o := c.sendEach vs
      ⟨o.result.map (· + 1), o.channel, wakes ++ o.wakes⟩
    | ⟨.ok false, c, wakes⟩ => ⟨.ok 0, c, wakes⟩
    | ⟨.error e, c, wakes⟩ => ⟨.error e, c, wakes⟩

/-- Call `try_receive` until there are enough values, or a call returns none or throws. -/
def receiveEach (c : Channel T) : Nat → List T × Channel T × List (Wake T)
  | 0 => ([], c, [])
  | wanted + 1 =>
    match c.tryReceive with
    | ⟨.ok (some v), c, wakes⟩ =>
      let (vs, c, more) := c.receiveEach wanted
      (v :: vs, c, wakes ++ more)
    | ⟨_, c, wakes⟩ => ([], c, wakes)

/-! ## Sending -/

section

variable {c : Channel T}

@[simp] theorem close_handoff (rest : List (Handle × ReceiverAwaiter T)) :
    (c.handoff rest).close = c.close := by simp [handoff]

@[simp] theorem close_bufferedSend (v : T) : (c.bufferedSend v).close = c.close := by
  simp [bufferedSend, pushTail]

@[simp] theorem receiverQueue_bufferedSend (v : T) :
    (c.bufferedSend v).receiverQueue = c.receiverQueue := by simp [bufferedSend, pushTail]

/-! The three cases of a call on an open channel. -/

theorem sendEach_handoff {rh : Handle} {ra : ReceiverAwaiter T}
    {rest : List (Handle × ReceiverAwaiter T)} (hopen : c.close = false)
    (hr : c.receiverQueue = (rh, ra) :: rest) (v : T) (vs : List T) :
    c.sendEach (v :: vs) = ⟨((c.handoff rest).sendEach vs).result.map (· + 1),
      ((c.handoff rest).sendEach vs).channel,
      .receiver rh { ra with value := some v } :: ((c.handoff rest).sendEach vs).wakes⟩ := by
  simp [sendEach, trySend, hopen, hr]

theorem sendEach_buffered (hopen : c.close = false) (hr : c.receiverQueue = [])
    (hfull : c.isFull = false) (v : T) (vs : List T) :
    c.sendEach (v :: vs) = ⟨((c.bufferedSend v).sendEach vs).result.map (· + 1),
      ((c.bufferedSend v).sendEach vs).channel, ((c.bufferedSend v).sendEach vs).wakes⟩ := by
  simp [sendEach, trySend, hopen, hr, hfull]

theorem sendEach_full (hopen : c.close = false) (hr : c.receiverQueue = [])
    (hfull : c.isFull = true) (v : T) (vs : List T) :
    c.sendEach (v :: vs) = ⟨.ok 0, c.statsAdd .trySendFullFailures, []⟩ := by
  simp [sendEach, trySend, hopen, hr, hfull]

theorem sendEach_open (hopen : c.close = false) (vs : List T) :
    c.sendEach vs = ⟨.ok (c.sendLoop (vs.map .value)).1, (c.sendLoop (vs.map .value)).2.2.1,
      (c.sendLoop (vs.map .value)).2.2.2⟩ := by
  induction vs generalizing c with
  | nil => rfl
  | cons v vs ih =>
    cases hr : c.receiverQueue with
    | cons r rest =>
      have htail := ih (c := c.handoff rest) (by simpa using hopen)
      rw [sendEach_handoff hopen hr, htail]
      simp only [List.map_cons, sendLoop, hr, Except.map]
    | nil =>
      cases hfull : c.isFull with
      | false =>
        have htail := ih (c := c.bufferedSend v) (by simpa using hopen)
        rw [sendEach_buffered hopen hr hfull, htail]
        simp only [List.map_cons, sendLoop, hr, hfull, Bool.not_false, if_true, Except.map]
      | true =>
        rw [sendEach_full hopen hr hfull]
        simp only [List.map_cons, sendLoop, hr, hfull, Bool.not_true, Bool.false_eq_true, if_false]

/-- No exception leaves the loop when no item throws. -/
theorem sendLoop_exn (c : Channel T) (vs : List T) : (c.sendLoop (vs.map .value)).2.1 = none := by
  induction vs generalizing c with
  | nil => rfl
  | cons v vs ih =>
    cases hr : c.receiverQueue with
    | cons r rest =>
      simp only [List.map_cons, sendLoop, hr]
      exact ih (c.handoff rest)
    | nil =>
      cases hfull : c.isFull with
      | false =>
        simp only [List.map_cons, sendLoop, hr, hfull, Bool.not_false, if_true]
        exact ih (c.bufferedSend v)
      | true => simp [sendLoop, hr, hfull]

theorem trySendMany_eq_sendEach (c : Channel T) (vs : List T) :
    c.trySendMany (vs.map .value) = c.sendEach vs := by
  cases vs with
  | nil => rfl
  | cons v vs =>
    cases hclose : c.close with
    | true => simp [trySendMany, sendEach, trySend, hclose]
    | false => rw [trySendMany_eq hclose (sendLoop_exn c (v :: vs)), sendEach_open hclose]

theorem close_of_trySend_error {v : T} {e : Exn} (h : (c.trySend (.ok v)).result = .error e) :
    c.close = true := by
  by_contra hopen
  unfold trySend at h
  rw [if_neg hopen] at h
  split at h
  · cases h
  · split at h <;> cases h

end

/-- `try_send_many` returns what iterated `try_send` returns and leaves what it leaves, the
counters included; it throws if and only if the first call does. -/
theorem try_send_many_iterates (c : Channel T) (vs : List T) :
    c.trySendMany (vs.map .value) = c.sendEach vs ∧
      ∀ v rest, vs = v :: rest →
        ((c.trySendMany (vs.map .value)).result = .error channelIsClosed ↔
          (c.trySend (.ok v)).result = .error channelIsClosed) ∧
        ((c.trySendMany (vs.map .value)).result = .error channelIsClosed →
          (c.trySendMany (vs.map .value)).channel = (c.trySend (.ok v)).channel) := by
  refine ⟨trySendMany_eq_sendEach c vs, ?_⟩
  rintro v rest rfl
  cases hclose : c.close with
  | true => simp [trySendMany, trySend, hclose]
  | false =>
    rw [trySendMany_eq hclose (sendLoop_exn c (v :: rest))]
    refine ⟨⟨fun h => ?_, fun h => ?_⟩, fun h => ?_⟩
    · cases h
    · simp [close_of_trySend_error h] at hclose
    · cases h

/-! ## Receiving -/

theorem receiveLoop_each {c : Channel T} {xs : List T} (h : c.WellFormed xs) (n : Nat) :
    (c.receiveLoop n).1 = (c.receiveEach n).1 ∧
      (c.receiveLoop n).2.1.forgetStats = (c.receiveEach n).2.1.forgetStats ∧
      (c.receiveLoop n).2.2 = (c.receiveEach n).2.2 := by
  induction n generalizing c xs with
  | zero => exact ⟨rfl, rfl, rfl⟩
  | succ n ih =>
    cases hempty : c.isEmpty with
    | false =>
      obtain ⟨x, rest, rfl⟩ := h.cons_of_count (isEmpty_eq_false.mp hempty)
      obtain ⟨hfront, hwf, -⟩ := h.takeBuffered
      obtain ⟨hvalues, hchannel, hwakes⟩ := ih hwf
      simp only [receiveLoop, receiveEach, tryReceive, hempty, Bool.not_false, if_true, hfront,
        Option.toList_some, List.singleton_append]
      exact ⟨by rw [hvalues], hchannel, by rw [hwakes]⟩
    | true =>
      cases hs : c.senderQueue with
      | cons p rest =>
        obtain ⟨sh, sa⟩ := p
        obtain ⟨hvalues, hchannel, hwakes⟩ := ih (h.takeParked hs)
        simp only [takeParked] at hvalues hchannel hwakes
        simp only [receiveLoop, receiveEach, tryReceive, hempty, Bool.not_true, Bool.false_eq_true,
          if_false, hs, takeParked, Option.toList_some, List.singleton_append]
        exact ⟨by rw [hvalues], hchannel, by rw [hwakes]⟩
      | nil =>
        cases hclose : c.close <;>
          simp [receiveLoop, receiveEach, tryReceive, hempty, hs, hclose]

theorem tryReceive_error_iff (c : Channel T) :
    c.tryReceive.result = .error channelIsClosed ↔
      c.isEmpty = true ∧ c.senderQueue = [] ∧ c.close = true := by
  cases hempty : c.isEmpty <;> cases hs : c.senderQueue <;> cases hclose : c.close <;>
    simp [tryReceive, hempty, hs, hclose]

theorem receiveLoop_of_nil {c : Channel T} (hempty : c.isEmpty = true) (hs : c.senderQueue = [])
    (n : Nat) : c.receiveLoop n = ([], c, []) := by
  cases n <;> simp [receiveLoop, hempty, hs]

/-- `try_receive_many` throws if and only if the first `try_receive` does. Otherwise it returns
the values of the iterated calls; it leaves what they leave, and wakes whom they wake. -/
theorem try_receive_many_iterates {c₀ c : Channel T} (hc : Constructed c₀)
    (run : Run step Always c₀ c) {mem : Allocator} {maxItems : Nat} (hpos : 1 ≤ maxItems)
    (hmem : mem.reserve maxItems = .ok ()) :
    ((c.tryReceiveManyReserved mem maxItems).result = .error channelIsClosed ↔
        c.tryReceive.result = .error channelIsClosed) ∧
      (c.tryReceive.result ≠ .error channelIsClosed →
        (c.tryReceiveManyReserved mem maxItems).result = .ok (c.receiveEach maxItems).1) ∧
      (c.tryReceiveManyReserved mem maxItems).channel.forgetStats =
        (c.receiveEach maxItems).2.1.forgetStats ∧
      (c.tryReceiveManyReserved mem maxItems).wakes = (c.receiveEach maxItems).2.2 := by
  obtain ⟨xs, h⟩ := WellFormed.of_run hc run
  obtain ⟨n, rfl⟩ : ∃ n, maxItems = n + 1 := ⟨maxItems - 1, by omega⟩
  obtain ⟨hvalues, hchannel, hwakes⟩ := receiveLoop_each h (n + 1)
  rw [c.tryReceiveManyReserved_eq (.inr hmem), ne_eq, tryReceive_error_iff, ← hvalues,
    ← hchannel, ← hwakes]
  by_cases hnone : (c.receiveLoop (n + 1)).1 = []
  · obtain ⟨rfl, hs, hstop⟩ := receiveLoop_eq_nil h (Nat.succ_ne_zero n) hnone
    have hempty : c.isEmpty = true := by simp [isEmpty, h.count]
    cases hclose : c.close <;> simp [tryReceiveMany, hstop, hempty, hs, hclose]
  · have hsome : (c.receiveLoop (n + 1)).1.isEmpty = false := by simpa using hnone
    have hnot : ¬(c.isEmpty = true ∧ c.senderQueue = [] ∧ c.close = true) := by
      rintro ⟨hempty, hs, -⟩
      exact hnone (by rw [receiveLoop_of_nil hempty hs])
    simp [tryReceiveMany, hsome, hnot]

/-- Vectors of up to eight elements can be had. -/
def sampleMemory : Allocator := ⟨8, fun _ => true⟩

/-- A full channel of capacity one with two parked senders: the batch drains the ring twice over,
and wakes both. -/
theorem try_receive_many_iterates_parked :
    ∃ c : Channel Nat, Run step Always sampleChannel c ∧ c.senderQueue.length = 2 ∧
      (c.receiveEach 2).1 = [5, 6] ∧
      ((c.tryReceiveManyReserved sampleMemory 2).result = .error channelIsClosed ↔
        c.tryReceive.result = .error channelIsClosed) ∧
      (c.tryReceive.result ≠ .error channelIsClosed →
        (c.tryReceiveManyReserved sampleMemory 2).result = .ok (c.receiveEach 2).1) ∧
      (c.tryReceiveManyReserved sampleMemory 2).channel.forgetStats =
        (c.receiveEach 2).2.1.forgetStats ∧
      (c.tryReceiveManyReserved sampleMemory 2).wakes = (c.receiveEach 2).2.2 := by
  obtain ⟨c, hrun, hlen, hvalues⟩ := exists_run step Always sampleChannel
    [.op (.awaitSend 1 1 5), .op (.awaitSend 2 2 6), .op (.awaitSend 3 3 7)]
    (fun c => c.senderQueue.length = 2 ∧ (c.receiveEach 2).1 = [5, 6]) (by decide)
  exact ⟨c, hrun, hlen, hvalues,
    try_receive_many_iterates ⟨false, .inr ⟨1, rfl⟩⟩ hrun (by decide) rfl⟩

end TinyCoroutine.Channel
