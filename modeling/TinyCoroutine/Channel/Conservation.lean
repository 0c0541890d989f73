import TinyCoroutine.Channel.Flow

/-!
# Every operation conserves what the channel holds

The law of a transfer for each operation but a successful close, which withdraws what is parked.
None of them refuses a coroutine that it wakes.
-/
namespace TinyCoroutine.Channel

open Foundation

variable {T : Type*}

/-- The tags an operation adds to the log: the awaiter it was called on, at most. -/
def Op.sendTags : Op T → List Nat
  | .awaitSend _ id _ => [id]
  | _ => []

def Op.requestTags : Op T → List Nat
  | .awaitReceive _ id => [id]
  | _ => []

def Request.tag : Request → Option Nat
  | .awaiter id => some id
  | .call => none

theorem Request.tags_of_calls (l : List T) :
    (l.map fun _ => Request.call).filterMap Request.tag = [] := by
  rw [List.filterMap_map]
  simp [Function.comp_def, Request.tag]

/-- What every operation but a successful close does. -/
structure Op.Conserves (op : Op T) (c : Channel T) (xs : List T) : Prop where
  transfer : ∃ xs', Transfer c xs (op.run c).2.1 (op.run c).1 xs'
  benign : Benign (op.run c).2.2
  sendTags : (op.run c).2.1.accepted.filterMap Prod.fst <+: op.sendTags
  requestTags : (op.run c).2.1.arrived.filterMap Request.tag <+: op.requestTags

section Operations

variable {c : Channel T} {xs : List T}

theorem conserves_send (h : c.WellFormed xs) (id : Nat) (v : T) :
    (Op.send id v).Conserves c xs := by
  cases hc : c.close with
  | false => exact ⟨⟨xs, by simpa [Op.run, send, hc] using Transfer.refl h⟩,
      by simpa [Op.run, send, hc] using Benign.nil, by simp [Op.run], by simp [Op.run]⟩
  | true => exact ⟨⟨xs, by simpa [Op.run, send, hc] using (Transfer.refl h).statsAdd _ _⟩,
      by simpa [Op.run, send, hc] using Benign.nil, by simp [Op.run], by simp [Op.run]⟩

theorem conserves_awaitSend (h : c.WellFormed xs) (handle : Handle) (id : Nat) (v : T) :
    (Op.awaitSend handle id v).Conserves c xs := by
  cases hc : c.close with
  | true =>
    exact ⟨⟨xs, by simpa [Op.run, SenderAwaiter.awaitSuspend, hc, handedOver] using
      (Transfer.refl h).statsAdd _ _⟩,
      by simpa [Op.run, SenderAwaiter.awaitSuspend, hc] using Benign.nil,
      by simp [Op.run, SenderAwaiter.awaitSuspend, hc], by simp [Op.run]⟩
  | false =>
    cases hr : c.receiverQueue with
    | cons r rest =>
      obtain ⟨rh, ra⟩ := r
      refine ⟨⟨xs, ?_⟩, ?_, ?_, ?_⟩
      · simpa [Op.run, SenderAwaiter.awaitSuspend, hc, hr, handedOver] using
          transfer_handoff h hr (some id) v
      · simpa [Op.run, SenderAwaiter.awaitSuspend, hc, hr] using benign_receiver rh ra v
      · simp [Op.run, SenderAwaiter.awaitSuspend, hc, hr, Op.sendTags]
      · simp [Op.run]
    | nil =>
      cases hfull : c.isFull with
      | false =>
        refine ⟨⟨xs ++ [v], ?_⟩, ?_, ?_, ?_⟩
        · simpa [Op.run, SenderAwaiter.awaitSuspend, hc, hr, hfull, handedOver] using
            transfer_bufferedSend h hr hfull (some id) v
        · simpa [Op.run, SenderAwaiter.awaitSuspend, hc, hr, hfull] using Benign.nil
        · simp [Op.run, SenderAwaiter.awaitSuspend, hc, hr, hfull, Op.sendTags]
        · simp [Op.run]
      | true =>
        refine ⟨⟨xs, ?_⟩, ?_, ?_, ?_⟩
        · simpa [Op.run, SenderAwaiter.awaitSuspend, hc, hr, hfull, handedOver] using
            (transfer_parkSender h hc hr hfull handle id v).statsAdd .senderWaits 1
        · simpa [Op.run, SenderAwaiter.awaitSuspend, hc, hr, hfull] using Benign.nil
        · simp [Op.run, SenderAwaiter.awaitSuspend, hc, hr, hfull, Op.sendTags]
        · simp [Op.run]

theorem conserves_trySend (h : c.WellFormed xs) (v : T) : (Op.trySend v).Conserves c xs := by
  cases hc : c.close with
  | true =>
    exact ⟨⟨xs, by simpa [Op.run, trySend, hc, handedOver] using (Transfer.refl h).statsAdd _ _⟩,
      by simpa [Op.run, trySend, hc] using Benign.nil, by simp [Op.run, trySend, hc],
      by simp [Op.run]⟩
  | false =>
    cases hr : c.receiverQueue with
    | cons r rest =>
      obtain ⟨rh, ra⟩ := r
      refine ⟨⟨xs, ?_⟩, ?_, ?_, ?_⟩
      · simpa [Op.run, trySend, hc, hr, handedOver] using transfer_handoff h hr none v
      · simpa [Op.run, trySend, hc, hr] using benign_receiver rh ra v
      · simp [Op.run, trySend, hc, hr]
      · simp [Op.run]
    | nil =>
      cases hfull : c.isFull with
      | false =>
        refine ⟨⟨xs ++ [v], ?_⟩, ?_, ?_, ?_⟩
        · simpa [Op.run, trySend, hc, hr, hfull, handedOver] using
            transfer_bufferedSend h hr hfull none v
        · simpa [Op.run, trySend, hc, hr, hfull] using Benign.nil
        · simp [Op.run, trySend, hc, hr, hfull]
        · simp [Op.run]
      | true =>
        exact ⟨⟨xs, by simpa [Op.run, trySend, hc, hr, hfull, handedOver] using
          (Transfer.refl h).statsAdd _ _⟩,
          by simpa [Op.run, trySend, hc, hr, hfull] using Benign.nil,
          by simp [Op.run, trySend, hc, hr, hfull], by simp [Op.run]⟩

/-- On an open channel a batch that does not throw is its loop. -/
theorem trySendMany_eq {v : T} {vs : List T} (hc : c.close = false)
    (hexn : (c.sendLoop ((v :: vs).map .value)).2.1 = none) :
    c.trySendMany ((v :: vs).map .value) =
      ⟨.ok (c.sendLoop ((v :: vs).map .value)).1, (c.sendLoop ((v :: vs).map .value)).2.2.1,
        (c.sendLoop ((v :: vs).map .value)).2.2.2⟩ := by
  generalize hl : c.sendLoop ((v :: vs).map .value) = r at hexn
  obtain ⟨n, e, c', wakes⟩ := r
  obtain rfl : e = none := hexn
  simp only [trySendMany, hc, List.map_cons, List.isEmpty_cons, Bool.false_eq_true, if_false]
    at hl ⊢
  rw [hl]

theorem conserves_trySendMany (h : c.WellFormed xs) (vs : List T) :
    (Op.trySendMany vs).Conserves c xs := by
  cases vs with
  | nil => exact ⟨⟨xs, by simpa [Op.run, trySendMany, handedOver] using Transfer.refl h⟩,
      by simpa [Op.run, trySendMany] using Benign.nil, by simp [Op.run, trySendMany],
      by simp [Op.run]⟩
  | cons v vs =>
    cases hc : c.close with
    | true =>
      exact ⟨⟨xs, by simpa [Op.run, trySendMany, hc, handedOver] using
        (Transfer.refl h).statsAdd _ _⟩,
        by simpa [Op.run, trySendMany, hc] using Benign.nil, by simp [Op.run, trySendMany, hc],
        by simp [Op.run]⟩
    | false =>
      obtain ⟨hexn, hben, xs', htr⟩ := transfer_sendLoop h (v :: vs)
      have hout := trySendMany_eq hc hexn
      refine ⟨⟨xs', ?_⟩, ?_, ?_, ?_⟩
      · simpa only [Op.run, hout] using htr
      · simpa only [Op.run, hout] using hben
      · simp only [Op.run, hout]
        rw [List.filterMap_map]
        simp
      · simp [Op.run]

theorem conserves_awaitReceive (h : c.WellFormed xs) (handle : Handle) (id : Nat) :
    (Op.awaitReceive handle id).Conserves c xs := by
  cases hempty : c.isEmpty with
  | false =>
    obtain ⟨x, rest, rfl⟩ := h.cons_of_count (isEmpty_eq_false.mp hempty)
    obtain ⟨hv, -, -, -, -, hwakes⟩ := h.takeBuffered
    have hover : handedOver c.takeBuffered.2.2 = [] := by rw [hwakes, handedOver_senders]
    refine ⟨⟨rest ++ (c.senderQueue.map fun p => p.2.value).take 1, ?_⟩, ?_, ?_, ?_⟩
    · simpa [Op.run, ReceiverAwaiter.awaitSuspend, hempty, hv, hover] using
        transfer_takeBuffered h (.awaiter id)
    · simp only [Op.run, ReceiverAwaiter.awaitSuspend, hempty, Bool.not_false, if_true, hwakes]
      exact benign_senders fun p hp => h.sending p (List.mem_of_mem_take hp)
    · simp [Op.run, ReceiverAwaiter.awaitSuspend, hempty]
    · simp [Op.run, ReceiverAwaiter.awaitSuspend, hempty, hv, Request.tag, Op.requestTags]
  | true =>
    obtain rfl : xs = [] := h.nil_of_count (by simpa [isEmpty] using hempty)
    cases hc : c.close with
    | true =>
      exact ⟨⟨[], by simpa [Op.run, ReceiverAwaiter.awaitSuspend, hempty, hc, handedOver] using
        (Transfer.refl h).statsAdd _ _⟩,
        by simpa [Op.run, ReceiverAwaiter.awaitSuspend, hempty, hc] using Benign.nil,
        by simp [Op.run, ReceiverAwaiter.awaitSuspend, hempty, hc],
        by simp [Op.run, ReceiverAwaiter.awaitSuspend, hempty, hc]⟩
    | false =>
      cases hs : c.senderQueue with
      | cons p rest =>
        obtain ⟨sh, sa⟩ := p
        refine ⟨⟨[], ?_⟩, ?_, ?_, ?_⟩
        · simpa [Op.run, ReceiverAwaiter.awaitSuspend, hempty, hc, hs, takeParked, handedOver]
            using transfer_takeParked h hs (.awaiter id)
        · simpa [Op.run, ReceiverAwaiter.awaitSuspend, hempty, hc, hs, takeParked] using
            benign_senders (l := [(sh, sa)]) fun p hp => h.sending p (by simp_all)
        · simp [Op.run, ReceiverAwaiter.awaitSuspend, hempty, hc, hs]
        · simp [Op.run, ReceiverAwaiter.awaitSuspend, hempty, hc, hs, takeParked, Request.tag,
            Op.requestTags]
      | nil =>
        refine ⟨⟨[], ?_⟩, ?_, ?_, ?_⟩
        · simpa [Op.run, ReceiverAwaiter.awaitSuspend, hempty, hc, hs, handedOver] using
            (transfer_parkReceiver h hc hs hempty handle id).statsAdd .receiverWaits 1
        · simpa [Op.run, ReceiverAwaiter.awaitSuspend, hempty, hc, hs] using Benign.nil
        · simp [Op.run, ReceiverAwaiter.awaitSuspend, hempty, hc, hs]
        · simp [Op.run, ReceiverAwaiter.awaitSuspend, hempty, hc, hs, Request.tag, Op.requestTags]

theorem conserves_tryReceive (h : c.WellFormed xs) : Op.tryReceive.Conserves c xs := by
  cases hempty : c.isEmpty with
  | false =>
    obtain ⟨x, rest, rfl⟩ := h.cons_of_count (isEmpty_eq_false.mp hempty)
    obtain ⟨hv, -, -, -, -, hwakes⟩ := h.takeBuffered
    have hover : handedOver c.takeBuffered.2.2 = [] := by rw [hwakes, handedOver_senders]
    refine ⟨⟨rest ++ (c.senderQueue.map fun p => p.2.value).take 1, ?_⟩, ?_, ?_, ?_⟩
    · simpa [Op.run, tryReceive, hempty, hv, hover] using transfer_takeBuffered h .call
    · simp only [Op.run, tryReceive, hempty, Bool.not_false, if_true, hwakes]
      exact benign_senders fun p hp => h.sending p (List.mem_of_mem_take hp)
    · simp [Op.run]
    · simp [Op.run, tryReceive, hempty, hv, List.filterMap_cons, Request.tag]
  | true =>
    obtain rfl : xs = [] := h.nil_of_count (by simpa [isEmpty] using hempty)
    cases hs : c.senderQueue with
    | cons p rest =>
      obtain ⟨sh, sa⟩ := p
      refine ⟨⟨[], ?_⟩, ?_, ?_, ?_⟩
      · simpa [Op.run, tryReceive, hempty, hs, takeParked, handedOver] using
          transfer_takeParked h hs .call
      · simpa [Op.run, tryReceive, hempty, hs, takeParked] using
          benign_senders (l := [(sh, sa)]) fun p hp => h.sending p (by simp_all)
      · simp [Op.run]
      · simp [Op.run, tryReceive, hempty, hs, takeParked, List.filterMap_cons, Request.tag]
    | nil =>
      cases hc : c.close <;>
        exact ⟨⟨[], by simpa [Op.run, tryReceive, hempty, hs, hc, handedOver] using
          (Transfer.refl h).statsAdd _ _⟩,
          by simpa [Op.run, tryReceive, hempty, hs, hc] using Benign.nil, by simp [Op.run],
          by simp [Op.run, tryReceive, hempty, hs, hc]⟩

theorem conserves_tryReceiveMany (h : c.WellFormed xs) (maxItems : Nat) :
    (Op.tryReceiveMany maxItems).Conserves c xs := by
  by_cases hz : maxItems = 0
  · subst hz
    exact ⟨⟨xs, by simpa [Op.run, tryReceiveMany, handedOver] using Transfer.refl h⟩,
      by simpa [Op.run, tryReceiveMany] using Benign.nil, by simp [Op.run],
      by simp [Op.run, tryReceiveMany]⟩
  · obtain ⟨hben, hover, xs', htr⟩ := transfer_receiveLoop h maxItems
    generalize hl : c.receiveLoop maxItems = r at hben hover htr
    obtain ⟨values, c', wakes⟩ := r
    simp only at hben hover htr
    cases values with
    | nil =>
      cases hc : c'.close with
      | true =>
        refine ⟨⟨xs', ?_⟩, ?_, by simp [Op.run], ?_⟩
        · simpa [Op.run, tryReceiveMany, hz, hl, hc, handedOver] using
            htr.statsAdd .closedFailures 1
        · simpa [Op.run, tryReceiveMany, hz, hl, hc] using Benign.nil
        · simp [Op.run, tryReceiveMany, hz, hl, hc]
      | false =>
        refine ⟨⟨xs', ?_⟩, ?_, by simp [Op.run], ?_⟩
        · simpa [Op.run, tryReceiveMany, hz, hl, hc, hover] using
            htr.statsAdd .tryReceiveEmptyReturns 1
        · simpa [Op.run, tryReceiveMany, hz, hl, hc] using hben
        · simp [Op.run, tryReceiveMany, hz, hl, hc]
    | cons v vs =>
      refine ⟨⟨xs', ?_⟩, ?_, by simp [Op.run], ?_⟩
      · simpa [Op.run, tryReceiveMany, hz, hl, hover] using htr
      · simpa [Op.run, tryReceiveMany, hz, hl] using hben
      · simp only [Op.run, tryReceiveMany, hz, hl, if_false, List.isEmpty_cons, Bool.false_and,
          Bool.false_eq_true, Request.tags_of_calls]
        exact List.nil_prefix

/-- Closing a closed channel throws and changes nothing. -/
theorem conserves_close (h : c.WellFormed xs) (hc : c.close = true) : Op.close.Conserves c xs :=
  ⟨⟨xs, by simpa [Op.run, closeChannel, hc] using Transfer.refl h⟩,
    by simpa [Op.run, closeChannel, hc] using Benign.nil, by simp [Op.run], by simp [Op.run]⟩

theorem conserves (h : c.WellFormed xs) (op : Op T) (hop : op = .close → c.close = true) :
    op.Conserves c xs := by
  cases op with
  | send id v => exact conserves_send h id v
  | awaitSend handle id v => exact conserves_awaitSend h handle id v
  | trySend v => exact conserves_trySend h v
  | trySendMany vs => exact conserves_trySendMany h vs
  | awaitReceive handle id => exact conserves_awaitReceive h handle id
  | tryReceive => exact conserves_tryReceive h
  | tryReceiveMany maxItems => exact conserves_tryReceiveMany h maxItems
  | close => exact conserves_close h (hop rfl)

end Operations

end TinyCoroutine.Channel
