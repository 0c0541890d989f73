import TinyCoroutine.Channel.Statistics

/-!
# The books of an operation

What the amounts that an operation adds to the counters have to do with the ring, with the values
it gives to receivers, and with the coroutines that it parks and wakes. The capacity is at least
one: only then does every direct handoff go to a receiver that has waited.
-/
namespace TinyCoroutine.Channel

variable {T : Type*}

structure Op.Booked (op : Op T) (c : Channel T) (d : Counter → Nat) : Prop where
  counted : Counted c (op.run c).1 d
  ring : c.count + d .bufferPushes = d .bufferPops + (op.run c).1.count
  given : (op.run c).2.1.given.length = d .bufferPops + d .directHandoffs
  receiverWaits : d .receiverWaits = (op.parksReceiver c).length
  receivers : (wokenReceivers (op.run c).2.2).length = d .directHandoffs + d .closeWakeReceivers
  senderWaits : d .senderWaits = (op.parksSender c).length
  senders : (withdrawn (op.run c).2.2).length = d .closeWakeSenders
  closing : c.close.toNat + d .closeCalls = (op.run c).1.close.toNat

/-- The counters of calls that fail or find nothing. -/
def countsFailure : Counter → Bool
  | .closedFailures | .trySendFullFailures | .tryReceiveEmptyReturns => true
  | _ => false

section

variable {c : Channel T} {xs : List T} {op : Op T}

/-- Nothing is counted of an operation that does nothing. -/
theorem Op.Booked.unchanged (hrun : (op.run c).1 = c ∧ (op.run c).2.1.given = [] ∧
    (op.run c).2.2 = []) (hr : op.parksReceiver c = []) (hs : op.parksSender c = []) :
    op.Booked c fun _ => 0 := by
  obtain ⟨hc, hgiven, hwakes⟩ := hrun
  constructor
  · rw [hc]
    exact .refl c
  all_goals simp [hc, hgiven, hwakes, hr, hs, wokenReceivers, withdrawn]

/-- An operation that fails or finds nothing counts that and does nothing else. -/
theorem Op.Booked.failure {k : Counter} (hk : countsFailure k = true)
    (hrun : (op.run c).1 = c.statsAdd k ∧ (op.run c).2.1.given = [] ∧ (op.run c).2.2 = [])
    (hr : op.parksReceiver c = []) (hs : op.parksSender c = []) : op.Booked c (only k 1) := by
  obtain ⟨hc, hgiven, hwakes⟩ := hrun
  have hnone : ∀ j : Counter, countsFailure j = false → only k 1 j = 0 := by
    intro j hj
    refine if_neg ?_
    rintro rfl
    simp [hk] at hj
  constructor
  · rw [hc]
    refine Counted.one ?_ ?_ _ 1 <;> rfl
  all_goals simp (disch := decide) [hc, hgiven, hwakes, hr, hs, wokenReceivers, withdrawn, hnone]

theorem Op.Booked.handoff (rh : Handle) (ra : ReceiverAwaiter T)
    (rest : List (Handle × ReceiverAwaiter T))
    (hrun : (op.run c).1 = c.handoff rest ∧ (op.run c).2.1.given.length = 1 ∧
      (op.run c).2.2 = [.receiver rh ra])
    (hr : op.parksReceiver c = []) (hs : op.parksSender c = []) :
    op.Booked c (only .directHandoffs 1) := by
  obtain ⟨hc, hgiven, hwakes⟩ := hrun
  constructor
  · rw [hc]
    exact counted_handoff c rest
  all_goals simp [hc, hgiven, hwakes, hr, hs, only, Channel.handoff, wokenReceivers, withdrawn]

theorem Op.Booked.buffered (v : T)
    (hrun : (op.run c).1 = c.bufferedSend v ∧ (op.run c).2.1.given = [] ∧ (op.run c).2.2 = [])
    (hr : op.parksReceiver c = []) (hs : op.parksSender c = []) :
    op.Booked c (only .bufferPushes 1) := by
  obtain ⟨hc, hgiven, hwakes⟩ := hrun
  constructor
  · rw [hc]
    exact counted_bufferedSend c v
  all_goals
    simp [hc, hgiven, hwakes, hr, hs, only, bufferedSend, pushTail, wokenReceivers, withdrawn]

/-- Taking a value wakes senders only, and closes none of them. -/
theorem wakes_takeBuffered {x : T} (h : c.WellFormed (x :: xs)) :
    handedOver c.takeBuffered.2.2 = [] ∧ wokenReceivers c.takeBuffered.2.2 = [] ∧
      withdrawn c.takeBuffered.2.2 = [] := by
  rw [h.takeBuffered.2.2.2.2.2]
  refine ⟨handedOver_senders _, wokenReceivers_senders _, ?_⟩
  exact (benign_senders fun p hp => h.sending p (List.mem_of_mem_take hp)).1

theorem Op.Booked.taken {x : T} (h : c.WellFormed (x :: xs))
    (hrun : (op.run c).1 = c.takeBuffered.2.1 ∧ (op.run c).2.1.given.length = 1 ∧
      (op.run c).2.2 = c.takeBuffered.2.2)
    (hr : op.parksReceiver c = []) (hs : op.parksSender c = []) :
    op.Booked c c.takeAmounts := by
  obtain ⟨hc, hgiven, hwakes⟩ := hrun
  obtain ⟨-, hwoken, hwithdrawn⟩ := wakes_takeBuffered h
  have hclose := h.takeBuffered.2.2.2.2.1
  have hcount := count_takeBuffered h
  constructor
  · rw [hc]
    exact counted_takeBuffered c
  · simpa [hc, takeAmounts, only] using hcount
  all_goals
    simp [hc, hgiven, hwakes, hr, hs, takeAmounts, only, hwoken, hwithdrawn, hclose]

theorem booked_send (c : Channel T) (id : Nat) (v : T) : ∃ d, (Op.send id v).Booked c d := by
  cases hc : c.close with
  | true =>
    refine ⟨_, .failure (k := .closedFailures) rfl ?_ rfl rfl⟩
    simp [Op.run, send, hc]
  | false =>
    refine ⟨_, .unchanged ?_ rfl rfl⟩
    simp [Op.run, send, hc]

theorem booked_awaitSend (c : Channel T) (handle : Handle) (id : Nat) (v : T) :
    ∃ d, (Op.awaitSend handle id v).Booked c d := by
  cases hc : c.close with
  | true =>
    refine ⟨_, .failure (k := .closedFailures) rfl ?_ rfl ?_⟩
    · simp [Op.run, SenderAwaiter.awaitSuspend, hc, handedOver]
    · simp [Op.parksSender, SenderAwaiter.awaitSuspend, hc]
  | false =>
    cases hr : c.receiverQueue with
    | cons r rest =>
      refine ⟨_, .handoff r.1 { r.2 with value := some v } rest ⟨?_, ?_, ?_⟩ rfl ?_⟩
      all_goals simp [Op.run, Op.parksSender, SenderAwaiter.awaitSuspend, hc, hr, handedOver]
    | nil =>
      cases hfull : c.isFull with
      | false =>
        refine ⟨_, .buffered v ?_ rfl ?_⟩
        · simp [Op.run, SenderAwaiter.awaitSuspend, hc, hr, hfull, handedOver]
        · simp [Op.parksSender, SenderAwaiter.awaitSuspend, hc, hr, hfull]
      | true =>
        refine ⟨only .senderWaits 1, ?_, ?_, ?_, ?_, ?_, ?_, ?_, ?_⟩
        · simp only [Op.run, SenderAwaiter.awaitSuspend, hc, Bool.false_eq_true, if_false, hr,
            hfull, Bool.not_true]
          refine Counted.one ?_ ?_ _ 1 <;> rfl
        all_goals
          simp [Op.run, SenderAwaiter.awaitSuspend, hc, hr, hfull, only, withdrawn, handedOver,
            Op.parksReceiver, Op.parksSender]

theorem booked_trySend (c : Channel T) (v : T) : ∃ d, (Op.trySend v).Booked c d := by
  cases hc : c.close with
  | true =>
    refine ⟨_, .failure (k := .closedFailures) rfl ?_ rfl rfl⟩
    simp [Op.run, trySend, hc, handedOver]
  | false =>
    cases hr : c.receiverQueue with
    | cons r rest =>
      refine ⟨_, .handoff r.1 { r.2 with value := some v } rest ⟨?_, ?_, ?_⟩ rfl rfl⟩
      all_goals simp [Op.run, trySend, hc, hr, handedOver]
    | nil =>
      cases hfull : c.isFull with
      | false =>
        refine ⟨_, .buffered v ?_ rfl rfl⟩
        simp [Op.run, trySend, hc, hr, hfull, handedOver]
      | true =>
        refine ⟨_, .failure (k := .trySendFullFailures) rfl ?_ rfl rfl⟩
        simp [Op.run, trySend, hc, hr, hfull, handedOver]

theorem booked_trySendMany (h : c.WellFormed xs) (vs : List T) :
    ∃ d, (Op.trySendMany vs).Booked c d := by
  cases vs with
  | nil =>
    refine ⟨_, .unchanged ?_ rfl rfl⟩
    simp [Op.run, trySendMany, handedOver]
  | cons v vs =>
    cases hc : c.close with
    | true =>
      refine ⟨_, .failure (k := .closedFailures) rfl ?_ rfl rfl⟩
      simp [Op.run, trySendMany, hc, handedOver]
    | false =>
      obtain ⟨hexn, ⟨hwithdrawn, -⟩, xs', htr⟩ := transfer_sendLoop h (v :: vs)
      obtain ⟨d, hd, hwoken, hgiven, hcount, hnone⟩ := counted_sendLoop h (v :: vs)
      have hmany := trySendMany_eq hc hexn
      have hzero : ∀ k ∈ [Counter.bufferPops, .receiverWaits, .senderWaits, .closeWakeSenders,
          .closeWakeReceivers, .closeCalls], d k = 0 := by
        intro k hk
        apply hnone <;> rintro rfl <;> simp at hk
      simp only [List.forall_mem_cons, List.not_mem_nil, false_imp_iff, implies_true,
        and_true] at hzero
      obtain ⟨hpops, hrw, hsw, hcs, hcr, hcc⟩ := hzero
      refine ⟨d, ?_, ?_, ?_, ?_, ?_, ?_, ?_, ?_⟩
      · simpa only [Op.run, hmany] using hd
      · simp only [Op.run, hmany]
        omega
      · simp only [Op.run, hmany]
        omega
      · simpa [Op.parksReceiver] using hrw
      · simp only [Op.run, hmany]
        omega
      · simpa [Op.parksSender] using hsw
      · simp only [Op.run, hmany, hwithdrawn, List.length_nil, hcs]
      · simp only [Op.run, hmany, htr.close, hcc, Nat.add_zero]

/-- With a capacity from one on nobody sends while the ring is empty. -/
theorem senderQueue_of_empty (h : c.WellFormed xs) (hpos : 0 < c.capacity)
    (hempty : c.isEmpty = true) : c.senderQueue = [] := by
  by_contra hs
  have hfull := (h.senders hs).1
  have hzero : c.count = 0 := by simpa [isEmpty] using hempty
  omega

theorem booked_awaitReceive (h : c.WellFormed xs) (hpos : 0 < c.capacity) (handle : Handle)
    (id : Nat) : ∃ d, (Op.awaitReceive handle id).Booked c d := by
  cases hempty : c.isEmpty with
  | false =>
    obtain ⟨x, rest, rfl⟩ := h.cons_of_count (isEmpty_eq_false.mp hempty)
    have hfront := h.takeBuffered.1
    have hover := (wakes_takeBuffered h).1
    refine ⟨_, .taken h ?_ ?_ rfl⟩
    · simp [Op.run, ReceiverAwaiter.awaitSuspend, hempty, hfront, hover]
    · simp [Op.parksReceiver, ReceiverAwaiter.awaitSuspend, hempty]
  | true =>
    have hs := senderQueue_of_empty h hpos hempty
    cases hc : c.close with
    | true =>
      refine ⟨_, .failure (k := .closedFailures) rfl ?_ ?_ rfl⟩
      · simp [Op.run, ReceiverAwaiter.awaitSuspend, hempty, hc, handedOver]
      · simp [Op.parksReceiver, ReceiverAwaiter.awaitSuspend, hempty, hc]
    | false =>
      refine ⟨only .receiverWaits 1, ?_, ?_, ?_, ?_, ?_, ?_, ?_, ?_⟩
      · simp only [Op.run, ReceiverAwaiter.awaitSuspend, hempty, Bool.not_true, Bool.false_eq_true,
          if_false, hc, hs]
        refine Counted.one ?_ ?_ _ 1 <;> rfl
      all_goals
        simp [Op.run, Op.parksReceiver, Op.parksSender, ReceiverAwaiter.awaitSuspend, hempty, hc,
          hs, only, handedOver, withdrawn]

theorem booked_tryReceive (h : c.WellFormed xs) (hpos : 0 < c.capacity) :
    ∃ d, Op.tryReceive.Booked c d := by
  cases hempty : c.isEmpty with
  | false =>
    obtain ⟨x, rest, rfl⟩ := h.cons_of_count (isEmpty_eq_false.mp hempty)
    have hfront := h.takeBuffered.1
    have hover := (wakes_takeBuffered h).1
    refine ⟨_, .taken h ?_ rfl rfl⟩
    simp [Op.run, tryReceive, hempty, hfront, hover]
  | true =>
    have hs := senderQueue_of_empty h hpos hempty
    cases hc : c.close with
    | true =>
      refine ⟨_, .failure (k := .closedFailures) rfl ?_ rfl rfl⟩
      simp [Op.run, tryReceive, hempty, hs, hc, handedOver]
    | false =>
      refine ⟨_, .failure (k := .tryReceiveEmptyReturns) rfl ?_ rfl rfl⟩
      simp [Op.run, tryReceive, hempty, hs, hc, handedOver]

theorem booked_tryReceiveMany (h : c.WellFormed xs) (hpos : 0 < c.capacity) (maxItems : Nat) :
    ∃ d, (Op.tryReceiveMany maxItems).Booked c d := by
  by_cases hz : maxItems = 0
  · subst hz
    refine ⟨_, .unchanged ?_ rfl rfl⟩
    simp [Op.run, tryReceiveMany, handedOver]
  · by_cases hnone : (c.receiveLoop maxItems).1 = []
    · obtain ⟨-, -, hstop⟩ := receiveLoop_eq_nil h hz hnone
      cases hc : c.close with
      | true =>
        refine ⟨_, .failure (k := .closedFailures) rfl ?_ rfl rfl⟩
        simp [Op.run, tryReceiveMany, hz, hstop, hc, handedOver]
      | false =>
        refine ⟨_, .failure (k := .tryReceiveEmptyReturns) rfl ?_ rfl rfl⟩
        simp [Op.run, tryReceiveMany, hz, hstop, hc, handedOver]
    · obtain ⟨⟨hwithdrawn, -⟩, hover, xs', htr⟩ := transfer_receiveLoop h maxItems
      obtain ⟨k, hk⟩ := wakesSenders_receiveLoop h maxItems
      obtain ⟨d, hd, hpops, hcount, hzero⟩ := counted_receiveLoop h hpos maxItems
      have hwoken : wokenReceivers (c.receiveLoop maxItems).2.2 = [] := by
        rw [hk.wakes, wokenReceivers_senders]
      have hmany : c.tryReceiveMany maxItems = ⟨.ok (c.receiveLoop maxItems).1,
          (c.receiveLoop maxItems).2.1, (c.receiveLoop maxItems).2.2⟩ := by
        simp [tryReceiveMany, hz, hnone]
      have hvalues : ((c.receiveLoop maxItems).1.map fun v => (Request.call, v)).length =
          (c.receiveLoop maxItems).1.length := List.length_map ..
      refine ⟨d, ?_, ?_, ?_, ?_, ?_, ?_, ?_, ?_⟩
      · simpa only [Op.run, hmany] using hd
      · simpa only [Op.run, hmany] using hcount
      · simp only [Op.run, hmany, hover, List.nil_append, hvalues, hpops]
        rw [hzero .directHandoffs (by simp) (by simp), Nat.add_zero]
      · simpa [Op.parksReceiver] using hzero .receiverWaits (by simp) (by simp)
      · simp only [Op.run, hmany, hwoken, List.length_nil]
        rw [hzero .directHandoffs (by simp) (by simp),
          hzero .closeWakeReceivers (by simp) (by simp)]
      · simpa [Op.parksSender] using hzero .senderWaits (by simp) (by simp)
      · simp only [Op.run, hmany, hwithdrawn, List.length_nil]
        rw [hzero .closeWakeSenders (by simp) (by simp)]
      · simp only [Op.run, hmany, htr.close]
        rw [hzero .closeCalls (by simp) (by simp), Nat.add_zero]

/-- The close wakes every parked coroutine: the senders withdraw their values. -/
theorem wakes_close (hopen : c.close = false) :
    (withdrawn c.closeChannel.wakes).length = c.senderQueue.length ∧
      (wokenReceivers c.closeChannel.wakes).length = c.receiverQueue.length := by
  simp [closeChannel, hopen, withdrawn, wokenReceivers, List.filterMap_map]

theorem booked_close (c : Channel T) : ∃ d, Op.close.Booked c d := by
  cases hc : c.close with
  | true =>
    refine ⟨_, .unchanged ?_ rfl rfl⟩
    simp [Op.run, closeChannel, hc]
  | false =>
    obtain ⟨hsenders, hreceivers⟩ := wakes_close hc
    refine ⟨fun k => only .closeCalls 1 k + only .closeWakeSenders c.senderQueue.length k +
      only .closeWakeReceivers c.receiverQueue.length k, ?_, ?_, ?_, ?_, ?_, ?_, ?_, ?_⟩
    · simp only [Op.run, closeChannel, hc, Bool.false_eq_true, if_false]
      refine ((Counted.one ?_ ?_ _ 1).trans (.one rfl rfl _ _)).trans (.one rfl rfl _ _) <;> rfl
    · simp [Op.run, closeChannel, hc, only]
    · simp [Op.run, only]
    · simp [Op.parksReceiver, only]
    · simpa [Op.run, only] using hreceivers
    · simp [Op.parksSender, only]
    · simpa [Op.run, only] using hsenders
    · simp [Op.run, closeChannel, hc, only]

theorem booked (h : c.WellFormed xs) (hpos : 0 < c.capacity) (op : Op T) :
    ∃ d, op.Booked c d := by
  cases op with
  | send id v => exact booked_send c id v
  | awaitSend handle id v => exact booked_awaitSend c handle id v
  | trySend v => exact booked_trySend c v
  | trySendMany vs => exact booked_trySendMany h vs
  | awaitReceive handle id => exact booked_awaitReceive h hpos handle id
  | tryReceive => exact booked_tryReceive h hpos
  | tryReceiveMany maxItems => exact booked_tryReceiveMany h hpos maxItems
  | close => exact booked_close c

end

end TinyCoroutine.Channel
