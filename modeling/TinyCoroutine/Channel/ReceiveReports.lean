import TinyCoroutine.Channel.Reports

/-!
# Receives and what they report

A receive answers itself and wakes a prefix of the parked senders, each with the outcome of
a send that succeeded. With the sends, this covers every operation but a successful close,
which fails everyone that is parked.
-/
namespace TinyCoroutine.Channel

variable {T : Type*} {c : Channel T} {xs : List T}

/-- The senders a receive wakes have succeeded; they and the others make up the queue. -/
theorem WakesSenders.settles {c' : Channel T} {k : Nat} {wakes : List (Wake T)}
    (h : c.WellFormed xs) (g : c.WakesSenders k c' wakes) :
    parkedSends c = sent (sendOutcomes wakes) ++ parkedSends c' ∧
      receiveOutcomes wakes = [] ∧ handedOver wakes = [] := by
  have hopen : ∀ p ∈ c.senderQueue.take k, p.2.close = false := fun p hp =>
    h.sending p (List.mem_of_mem_take hp)
  obtain ⟨rfl, hs, -⟩ := g
  refine ⟨?_, receiveOutcomes_senders _, handedOver_senders _⟩
  rw [sent_senders hopen, parkedSends, parkedSends, hs, ← List.map_append, List.take_append_drop]

/-- A receive that wakes senders and answers itself. -/
theorem tells_receive {op : Op T} {q : List (ReceiveReport T)} (k : Nat) (h : c.WellFormed xs)
    (hw : c.WakesSenders k (op.run c).1 (op.run c).2.2)
    (hacc : (op.run c).2.1.accepted = []) (hsend : op.ownSends c = [])
    (hgiven : (op.run c).2.1.given = handedOver (op.run c).2.2 ++ received q)
    (hown : op.ownReceives c = q) : op.Tells c := by
  obtain ⟨hsends, hout, hover⟩ := hw.settles h
  constructor
  · rw [hacc, List.append_nil, Op.sendReports, hsend, List.nil_append, hsends]
  · rw [hgiven, Op.receiveReports, hout, hover, hown, List.nil_append, List.nil_append]

theorem tells_awaitReceive (h : c.WellFormed xs) (handle : Handle) (id : Nat) :
    (Op.awaitReceive handle id).Tells c := by
  cases hempty : c.isEmpty with
  | false =>
    obtain ⟨x, rest, rfl⟩ := h.cons_of_count (isEmpty_eq_false.mp hempty)
    have hv := h.takeBuffered.1
    refine tells_receive (q := [(.awaiter id, .ok x)]) 1 h ?_ ?_ rfl ?_ ?_
    · simpa [Op.run, ReceiverAwaiter.awaitSuspend, hempty] using wakesSenders_takeBuffered h
    all_goals simp [Op.run, Op.ownReceives, ReceiverAwaiter.awaitSuspend,
      ReceiverAwaiter.awaitResume, hempty, hv, received]
  | true =>
    cases hc : c.close with
    | true =>
      refine tells_receive (q := [(.awaiter id, .error channelIsClosed)]) 0 h ?_ ?_ rfl ?_ ?_
      · simpa [Op.run, ReceiverAwaiter.awaitSuspend, hempty, hc] using
          WakesSenders.none c .closedFailures 1
      all_goals simp [Op.run, Op.ownReceives, ReceiverAwaiter.awaitSuspend,
        ReceiverAwaiter.awaitResume, hempty, hc, received]
    | false =>
      cases hs : c.senderQueue with
      | cons p rest =>
        obtain ⟨sh, sa⟩ := p
        refine tells_receive (q := [(.awaiter id, .ok sa.value)]) 1 h ?_ ?_ rfl ?_ ?_
        · simpa [Op.run, ReceiverAwaiter.awaitSuspend, hempty, hc, hs] using
            wakesSenders_takeParked hs
        all_goals simp [Op.run, Op.ownReceives, ReceiverAwaiter.awaitSuspend,
          ReceiverAwaiter.awaitResume, hempty, hc, hs, takeParked, received]
      | nil =>
        constructor <;>
          simp [Op.run, Op.sendReports, Op.receiveReports, Op.ownSends, Op.ownReceives,
            ReceiverAwaiter.awaitSuspend, hempty, hc, hs, sent, received, parkedSends, sendOutcomes,
            receiveOutcomes, handedOver]

theorem tells_tryReceive (h : c.WellFormed xs) : Op.tryReceive.Tells c := by
  cases hempty : c.isEmpty with
  | false =>
    obtain ⟨x, rest, rfl⟩ := h.cons_of_count (isEmpty_eq_false.mp hempty)
    have hv := h.takeBuffered.1
    refine tells_receive (q := [(.call, .ok x)]) 1 h ?_ ?_ rfl ?_ ?_
    · simpa [Op.run, tryReceive, hempty] using wakesSenders_takeBuffered h
    all_goals simp [Op.run, Op.ownReceives, tryReceive, hempty, hv, received]
  | true =>
    cases hs : c.senderQueue with
    | cons p rest =>
      obtain ⟨sh, sa⟩ := p
      refine tells_receive (q := [(.call, .ok sa.value)]) 1 h ?_ ?_ rfl ?_ ?_
      · simpa [Op.run, tryReceive, hempty, hs] using wakesSenders_takeParked hs
      all_goals simp [Op.run, Op.ownReceives, tryReceive, hempty, hs, takeParked, received]
    | nil =>
      cases hc : c.close with
      | true =>
        refine tells_receive (q := [(.call, .error channelIsClosed)]) 0 h ?_ ?_ rfl ?_ ?_
        · simpa [Op.run, tryReceive, hempty, hs, hc] using WakesSenders.none c .closedFailures 1
        all_goals simp [Op.run, Op.ownReceives, tryReceive, hempty, hs, hc, received]
      | false =>
        refine tells_receive (q := []) 0 h ?_ ?_ rfl ?_ ?_
        · simpa [Op.run, tryReceive, hempty, hs, hc] using
            WakesSenders.none c .tryReceiveEmptyReturns 1
        all_goals simp [Op.run, Op.ownReceives, tryReceive, hempty, hs, hc, received]

theorem tells_tryReceiveMany (h : c.WellFormed xs) (maxItems : Nat) :
    (Op.tryReceiveMany maxItems).Tells c := by
  by_cases hz : maxItems = 0
  · subst hz
    constructor <;>
      simp [Op.run, Op.sendReports, Op.receiveReports, Op.ownSends, Op.ownReceives, tryReceiveMany,
        sent, received, sendOutcomes, receiveOutcomes, handedOver]
  · obtain ⟨k, hk⟩ := wakesSenders_receiveLoop h maxItems
    generalize hl : c.receiveLoop maxItems = r at hk
    obtain ⟨values, c', wakes⟩ := r
    cases values with
    | cons v vs =>
      refine tells_receive (q := (v :: vs).map fun v => (.call, .ok v)) k h
        (by simpa [Op.run, tryReceiveMany, hz, hl] using hk) ?_ rfl ?_ ?_
      all_goals simp [Op.run, Op.ownReceives, tryReceiveMany, hz, hl, received, List.filterMap_map]
    | nil =>
      obtain ⟨-, -, hstop⟩ := receiveLoop_eq_nil h hz (by rw [hl])
      rw [hl] at hstop
      obtain ⟨rfl, rfl⟩ : c = c' ∧ wakes = [] := by simpa [eq_comm] using hstop
      cases hc : c.close with
      | true =>
        refine tells_receive (q := [(.call, .error channelIsClosed)]) 0 h
          (by simpa [Op.run, tryReceiveMany, hz, hl, hc] using .none c .closedFailures 1)
          ?_ rfl ?_ ?_
        all_goals simp [Op.run, Op.ownReceives, tryReceiveMany, hz, hl, hc, received]
      | false =>
        refine tells_receive (q := []) 0 h
          (by simpa [Op.run, tryReceiveMany, hz, hl, hc] using .none c .tryReceiveEmptyReturns 1)
          ?_ rfl ?_ ?_
        all_goals simp [Op.run, Op.ownReceives, tryReceiveMany, hz, hl, hc, received]

theorem tells_close (hc : c.close = true) : Op.close.Tells c := by
  constructor <;>
    simp [Op.run, Op.sendReports, Op.receiveReports, Op.ownSends, Op.ownReceives, closeChannel, hc,
      sent, received, sendOutcomes, receiveOutcomes]

theorem tells (h : c.WellFormed xs) (op : Op T) (hop : op = .close → c.close = true) :
    op.Tells c := by
  cases op with
  | send id v => exact tells_send id v
  | awaitSend handle id v => exact tells_awaitSend h handle id v
  | trySend v => exact tells_trySend h v
  | trySendMany vs => exact tells_trySendMany h vs
  | awaitReceive handle id => exact tells_awaitReceive h handle id
  | tryReceive => exact tells_tryReceive h
  | tryReceiveMany maxItems => exact tells_tryReceiveMany h maxItems
  | close => exact tells_close (hop rfl)

/-- A successful close tells every parked coroutine that the channel is closed. -/
theorem close_reports (h : c.WellFormed xs) (hopen : c.close = false) :
    Op.close.sendReports c = (parkedSends c).map (fun s => (s, .failed channelIsClosed)) ∧
      Op.close.receiveReports c =
        (parkedReceivers c).map fun id => (.awaiter id, .error channelIsClosed) := by
  have hnone : ∀ p ∈ c.receiverQueue, p.2.awaitResume = .error channelIsClosed := by
    intro p hp
    simp [ReceiverAwaiter.awaitResume, h.receiving p hp]
  constructor
  · simp [Op.sendReports, Op.ownSends, Op.run, closeChannel, hopen, sendOutcomes, parkedSends,
      SenderAwaiter.awaitResume, List.filterMap_map]
  · simp only [Op.receiveReports, Op.ownReceives, Op.run, closeChannel, hopen, receiveOutcomes,
      parkedReceivers, List.append_nil, Bool.false_eq_true, if_false, List.filterMap_append,
      List.filterMap_map, Function.comp_def, List.filterMap_none, List.nil_append, List.map_map]
    rw [List.filterMap_eq_map']
    exact List.map_congr_left fun p hp => by rw [hnone p hp]

end TinyCoroutine.Channel
