import TinyCoroutine.Channel.Fifo

/-!
# The wait queues

Every operation takes coroutines from the fronts of the wait queues and lets at most the
coroutine that called it in at the back. Those it takes are those it wakes. This file states
this as one equation for each queue: who waited, followed by who parks, is who is woken,
followed by who waits afterwards.
-/
namespace TinyCoroutine.Channel

variable {T : Type*}

/-- The parked senders: their handles, and their awaiters. -/
def waitingSenders (c : Channel T) : List (Handle × Nat) :=
  c.senderQueue.map fun p => (p.1, p.2.id)

def waitingReceivers (c : Channel T) : List (Handle × Nat) :=
  c.receiverQueue.map fun p => (p.1, p.2.id)

def wokenSenders (wakes : List (Wake T)) : List (Handle × Nat) :=
  wakes.filterMap fun
    | .sender h a => some (h, a.id)
    | .receiver _ _ => none

def wokenReceivers (wakes : List (Wake T)) : List (Handle × Nat) :=
  wakes.filterMap fun
    | .receiver h a => some (h, a.id)
    | .sender _ _ => none

/-- The sender that the operation parks: `await_suspend` returns true. -/
def Op.parksSender (c : Channel T) : Op T → List (Handle × Nat)
  | .awaitSend handle id v =>
    match (SenderAwaiter.awaitSuspend .ok c handle { id, value := v }).result with
    | .ok .suspended => [(handle, id)]
    | _ => []
  | _ => []

def Op.parksReceiver (c : Channel T) : Op T → List (Handle × Nat)
  | .awaitReceive handle id =>
    match (ReceiverAwaiter.awaitSuspend c handle { id }).result with
    | .suspended => [(handle, id)]
    | .ready _ => []
  | _ => []

section

variable (c : Channel T) (u w : List (Wake T))

@[simp] theorem wokenSenders_append :
    wokenSenders (u ++ w) = wokenSenders u ++ wokenSenders w := List.filterMap_append ..
@[simp] theorem wokenReceivers_append :
    wokenReceivers (u ++ w) = wokenReceivers u ++ wokenReceivers w := List.filterMap_append ..
@[simp] theorem wokenSenders_nil : wokenSenders ([] : List (Wake T)) = [] := rfl
@[simp] theorem wokenReceivers_nil : wokenReceivers ([] : List (Wake T)) = [] := rfl
@[simp] theorem wokenSenders_senders (l : List (Handle × SenderAwaiter T)) :
    wokenSenders (l.map fun p => Wake.sender p.1 p.2) = l.map fun p => (p.1, p.2.id) := by
  simp [wokenSenders, List.filterMap_map]
@[simp] theorem wokenReceivers_senders (l : List (Handle × SenderAwaiter T)) :
    wokenReceivers (l.map fun p => Wake.sender p.1 p.2) = [] := by
  simp [wokenReceivers, List.filterMap_map]
@[simp] theorem waitingSenders_statsAdd (k : Counter) (d : UInt64) :
    waitingSenders (c.statsAdd k d) = waitingSenders c := by simp [waitingSenders]
@[simp] theorem waitingReceivers_statsAdd (k : Counter) (d : UInt64) :
    waitingReceivers (c.statsAdd k d) = waitingReceivers c := by simp [waitingReceivers]

end

/-- First in, first out, for both wait queues. -/
structure Op.Queues (op : Op T) (c : Channel T) : Prop where
  senders : waitingSenders c ++ op.parksSender c =
    wokenSenders (op.run c).2.2 ++ waitingSenders (op.run c).1
  receivers : waitingReceivers c ++ op.parksReceiver c =
    wokenReceivers (op.run c).2.2 ++ waitingReceivers (op.run c).1

section

variable {c : Channel T} {xs : List T}

/-! ## Sending -/

theorem queues_send (id : Nat) (v : T) : (Op.send id v).Queues c := by
  cases hc : c.close <;> constructor <;>
    simp [Op.run, Op.parksSender, Op.parksReceiver, send, hc]

theorem queues_awaitSend (handle : Handle) (id : Nat) (v : T) :
    (Op.awaitSend handle id v).Queues c := by
  cases hc : c.close with
  | true =>
    constructor <;> simp [Op.run, Op.parksSender, Op.parksReceiver, SenderAwaiter.awaitSuspend, hc]
  | false =>
    cases hr : c.receiverQueue with
    | cons r rest =>
      constructor <;>
        simp [Op.run, Op.parksSender, Op.parksReceiver, SenderAwaiter.awaitSuspend, hc, hr, handoff,
          waitingSenders, waitingReceivers, wokenSenders, wokenReceivers]
    | nil =>
      cases hfull : c.isFull <;> constructor <;>
        simp [Op.run, Op.parksSender, Op.parksReceiver, SenderAwaiter.awaitSuspend, hc, hr, hfull,
          bufferedSend, pushTail, waitingSenders, waitingReceivers]

theorem queues_trySend (v : T) : (Op.trySend v).Queues c := by
  cases hc : c.close with
  | true => constructor <;> simp [Op.run, Op.parksSender, Op.parksReceiver, trySend, hc]
  | false =>
    cases hr : c.receiverQueue with
    | cons r rest =>
      constructor <;>
        simp [Op.run, Op.parksSender, Op.parksReceiver, trySend, hc, hr, handoff, waitingSenders,
          waitingReceivers, wokenSenders, wokenReceivers]
    | nil =>
      cases hfull : c.isFull <;> constructor <;>
        simp [Op.run, Op.parksSender, Op.parksReceiver, trySend, hc, hr, hfull, bufferedSend,
          pushTail, waitingSenders, waitingReceivers]

/-- A batch send serves the parked receivers first and leaves the senders alone. -/
theorem queues_sendLoop (c : Channel T) (vs : List T) :
    (c.sendLoop (vs.map .value)).2.2.1.senderQueue = c.senderQueue ∧
      wokenSenders (c.sendLoop (vs.map .value)).2.2.2 = [] ∧
      waitingReceivers c = wokenReceivers (c.sendLoop (vs.map .value)).2.2.2 ++
        waitingReceivers (c.sendLoop (vs.map .value)).2.2.1 := by
  induction vs generalizing c with
  | nil => exact ⟨rfl, rfl, rfl⟩
  | cons v vs ih =>
    cases hr : c.receiverQueue with
    | cons r rest =>
      obtain ⟨hs, hnone, hrec⟩ := ih (c.handoff rest)
      simp only [List.map_cons, sendLoop, hr]
      refine ⟨hs.trans (by simp [handoff]), by simpa [wokenSenders] using hnone, ?_⟩
      calc
        waitingReceivers c = (r.1, r.2.id) :: waitingReceivers (c.handoff rest) := by
          simp [waitingReceivers, handoff, hr]
        _ = _ := by
          rw [hrec]
          simp [wokenReceivers]
    | nil =>
      cases hfull : c.isFull with
      | false =>
        obtain ⟨hs, hnone, hrec⟩ := ih (c.bufferedSend v)
        simp only [List.map_cons, sendLoop, hr, hfull, Bool.not_false, if_true]
        refine ⟨hs.trans (by simp [bufferedSend, pushTail]), hnone, ?_⟩
        rw [← hrec]
        simp [bufferedSend, pushTail, waitingReceivers]
      | true =>
        simp only [List.map_cons, sendLoop, hr, hfull, Bool.not_true, Bool.false_eq_true, if_false]
        exact ⟨by simp, rfl, by simp⟩

theorem queues_trySendMany (h : c.WellFormed xs) (vs : List T) :
    (Op.trySendMany vs).Queues c := by
  cases vs with
  | nil => constructor <;> simp [Op.run, Op.parksSender, Op.parksReceiver, trySendMany]
  | cons v vs =>
    cases hc : c.close with
    | true => constructor <;> simp [Op.run, Op.parksSender, Op.parksReceiver, trySendMany, hc]
    | false =>
      obtain ⟨hexn, -⟩ := transfer_sendLoop h (v :: vs)
      obtain ⟨hs, hnone, hrec⟩ := queues_sendLoop c (v :: vs)
      have hmany := trySendMany_eq hc hexn
      constructor
      · simp only [Op.run, Op.parksSender, hmany, hnone, waitingSenders, hs, List.append_nil,
          List.nil_append]
      · simp only [Op.run, Op.parksReceiver, hmany, List.append_nil, hrec]

/-! ## Receiving -/

/-- The first `k` parked senders are woken, their values taken. -/
structure WakesSenders (c : Channel T) (k : Nat) (c' : Channel T) (wakes : List (Wake T)) :
    Prop where
  wakes : wakes = (c.senderQueue.take k).map fun p => Wake.sender p.1 p.2
  senders : c'.senderQueue = c.senderQueue.drop k
  receivers : c'.receiverQueue = c.receiverQueue

theorem WakesSenders.trans {c d e : Channel T} {j k : Nat} {u w : List (Wake T)}
    (h : c.WakesSenders j d u) (g : d.WakesSenders k e w) : c.WakesSenders (j + k) e (u ++ w) := by
  refine ⟨?_, ?_, g.receivers.trans h.receivers⟩
  · rw [h.wakes, g.wakes, h.senders, ← List.map_append, ← List.take_add]
  · rw [g.senders, h.senders, List.drop_drop]

theorem wakesSenders_takeBuffered {x : T} (h : c.WellFormed (x :: xs)) :
    c.WakesSenders 1 c.takeBuffered.2.1 c.takeBuffered.2.2 := by
  obtain ⟨-, -, hs, hr, -, hwakes⟩ := h.takeBuffered
  exact ⟨hwakes, by rw [hs, List.drop_one], hr⟩

theorem wakesSenders_takeParked {sh : Handle} {sa : SenderAwaiter T}
    {rest : List (Handle × SenderAwaiter T)} (hs : c.senderQueue = (sh, sa) :: rest) :
    c.WakesSenders 1 (c.takeParked sh sa rest).2.1 (c.takeParked sh sa rest).2.2 := by
  constructor <;> simp [takeParked, hs]

theorem wakesSenders_receiveLoop (h : c.WellFormed xs) (n : Nat) :
    ∃ k, c.WakesSenders k (c.receiveLoop n).2.1 (c.receiveLoop n).2.2 := by
  induction n generalizing c xs with
  | zero => exact ⟨0, by simp [receiveLoop], by simp [receiveLoop], rfl⟩
  | succ n ih =>
    cases hempty : c.isEmpty with
    | false =>
      obtain ⟨x, rest, rfl⟩ := h.cons_of_count (isEmpty_eq_false.mp hempty)
      obtain ⟨k, hk⟩ := ih h.takeBuffered.2.1
      simp only [receiveLoop, hempty, Bool.not_false, if_true]
      exact ⟨1 + k, (wakesSenders_takeBuffered h).trans hk⟩
    | true =>
      cases hs : c.senderQueue with
      | nil =>
        simp only [receiveLoop, hempty, Bool.not_true, Bool.false_eq_true, if_false, hs]
        exact ⟨0, by simp, by simp, rfl⟩
      | cons p rest =>
        obtain ⟨sh, sa⟩ := p
        obtain ⟨k, hk⟩ := ih (h.takeParked hs)
        simp only [receiveLoop, hempty, Bool.not_true, Bool.false_eq_true, if_false, hs]
        exact ⟨1 + k, (wakesSenders_takeParked hs).trans hk⟩

theorem WakesSenders.none (c : Channel T) (k : Counter) (d : UInt64) :
    c.WakesSenders 0 (c.statsAdd k d) [] := by
  constructor <;> simp

/-- A batch receive that wants something and gets nothing has changed nothing. -/
theorem receiveLoop_eq_nil (h : c.WellFormed xs) {n : Nat} (hn : n ≠ 0)
    (hnil : (c.receiveLoop n).1 = []) :
    xs = [] ∧ c.senderQueue = [] ∧ c.receiveLoop n = ([], c, []) := by
  obtain ⟨n, rfl⟩ := Nat.exists_eq_succ_of_ne_zero hn
  cases hempty : c.isEmpty with
  | false =>
    obtain ⟨x, rest, rfl⟩ := h.cons_of_count (isEmpty_eq_false.mp hempty)
    simp [receiveLoop, hempty, h.takeBuffered.1] at hnil
  | true =>
    obtain rfl : xs = [] := h.nil_of_count (by simpa [isEmpty] using hempty)
    cases hs : c.senderQueue with
    | cons p rest => simp [receiveLoop, hempty, hs, takeParked] at hnil
    | nil => simp [receiveLoop, hempty, hs]

/-- An operation that takes senders and parks nobody. -/
theorem Op.Queues.of_senders {op : Op T} (k : Nat)
    (h : c.WakesSenders k (op.run c).1 (op.run c).2.2) (hs : op.parksSender c = [])
    (hr : op.parksReceiver c = []) : op.Queues c := by
  obtain ⟨hwakes, hsenders, hreceivers⟩ := h
  constructor
  · rw [hs, hwakes, wokenSenders_senders, waitingSenders, waitingSenders, hsenders,
      ← List.map_append, List.take_append_drop, List.append_nil]
  · rw [hr, hwakes, wokenReceivers_senders, waitingReceivers, waitingReceivers, hreceivers,
      List.append_nil, List.nil_append]

theorem queues_awaitReceive (h : c.WellFormed xs) (handle : Handle) (id : Nat) :
    (Op.awaitReceive handle id).Queues c := by
  cases hempty : c.isEmpty with
  | false =>
    obtain ⟨x, rest, rfl⟩ := h.cons_of_count (isEmpty_eq_false.mp hempty)
    refine .of_senders 1 ?_ rfl ?_
    · simpa [Op.run, ReceiverAwaiter.awaitSuspend, hempty] using wakesSenders_takeBuffered h
    · simp [Op.parksReceiver, ReceiverAwaiter.awaitSuspend, hempty]
  | true =>
    cases hc : c.close with
    | true =>
      refine .of_senders 0 ?_ rfl ?_
      · simpa [Op.run, ReceiverAwaiter.awaitSuspend, hempty, hc] using
          WakesSenders.none c .closedFailures 1
      · simp [Op.parksReceiver, ReceiverAwaiter.awaitSuspend, hempty, hc]
    | false =>
      cases hs : c.senderQueue with
      | cons p rest =>
        refine .of_senders 1 ?_ rfl ?_
        · simpa [Op.run, ReceiverAwaiter.awaitSuspend, hempty, hc, hs] using
            wakesSenders_takeParked hs
        · simp [Op.parksReceiver, ReceiverAwaiter.awaitSuspend, hempty, hc, hs]
      | nil =>
        constructor <;>
          simp [Op.run, Op.parksSender, Op.parksReceiver, ReceiverAwaiter.awaitSuspend, hempty, hc,
            hs, waitingSenders, waitingReceivers]

theorem queues_tryReceive (h : c.WellFormed xs) : Op.tryReceive.Queues c := by
  cases hempty : c.isEmpty with
  | false =>
    obtain ⟨x, rest, rfl⟩ := h.cons_of_count (isEmpty_eq_false.mp hempty)
    refine .of_senders 1 ?_ rfl rfl
    simpa [Op.run, tryReceive, hempty] using wakesSenders_takeBuffered h
  | true =>
    cases hs : c.senderQueue with
    | cons p rest =>
      refine .of_senders 1 ?_ rfl rfl
      simpa [Op.run, tryReceive, hempty, hs] using wakesSenders_takeParked hs
    | nil =>
      refine .of_senders 0 ?_ rfl rfl
      cases hc : c.close with
      | true =>
        simpa [Op.run, tryReceive, hempty, hs, hc] using WakesSenders.none c .closedFailures 1
      | false =>
        simpa [Op.run, tryReceive, hempty, hs, hc] using
          WakesSenders.none c .tryReceiveEmptyReturns 1

theorem queues_tryReceiveMany (h : c.WellFormed xs) (maxItems : Nat) :
    (Op.tryReceiveMany maxItems).Queues c := by
  by_cases hz : maxItems = 0
  · subst hz
    constructor <;> simp [Op.run, Op.parksSender, Op.parksReceiver, tryReceiveMany]
  · obtain ⟨k, hk⟩ := wakesSenders_receiveLoop h maxItems
    generalize hl : c.receiveLoop maxItems = r at hk
    obtain ⟨values, c', wakes⟩ := r
    cases values with
    | cons v vs => exact .of_senders k (by simpa [Op.run, tryReceiveMany, hz, hl] using hk) rfl rfl
    | nil =>
      obtain ⟨-, -, hstop⟩ := receiveLoop_eq_nil h hz (by rw [hl])
      rw [hl] at hstop
      obtain ⟨rfl, rfl⟩ : c = c' ∧ wakes = [] := by simpa [eq_comm] using hstop
      refine .of_senders 0 ?_ rfl rfl
      cases hc : c.close with
      | true =>
        simpa [Op.run, tryReceiveMany, hz, hl, hc] using WakesSenders.none c .closedFailures 1
      | false =>
        simpa [Op.run, tryReceiveMany, hz, hl, hc] using
          WakesSenders.none c .tryReceiveEmptyReturns 1

/-- A successful close wakes everybody. -/
theorem queues_close : Op.close.Queues c := by
  cases hc : c.close <;> constructor <;>
    simp [Op.run, Op.parksSender, Op.parksReceiver, closeChannel, hc, waitingSenders,
      waitingReceivers, wokenSenders, wokenReceivers, List.filterMap_map]

theorem queues (h : c.WellFormed xs) (op : Op T) : op.Queues c := by
  cases op with
  | send id v => exact queues_send id v
  | awaitSend handle id v => exact queues_awaitSend handle id v
  | trySend v => exact queues_trySend v
  | trySendMany vs => exact queues_trySendMany h vs
  | awaitReceive handle id => exact queues_awaitReceive h handle id
  | tryReceive => exact queues_tryReceive h
  | tryReceiveMany maxItems => exact queues_tryReceiveMany h maxItems
  | close => exact queues_close

end

end TinyCoroutine.Channel
