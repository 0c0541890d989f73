import TinyCoroutine.Channel.Throwing

/-!
# Receivers are not lost

A log beside the channel records the receivers that have parked and those that have been passed
to `reschedule_or_resume`. As long as nothing throws while a receiver is parked, the receivers
that have parked are those that have been woken, followed by those in the queue: each of them is
served by a later send or woken by the close. A batch may throw before its first item.
-/
namespace TinyCoroutine.Channel

open Foundation

variable {T : Type*}

def Item.isIteratorThrow : Item T → Bool
  | .iteratorThrows _ => true
  | _ => false

structure Parking (T : Type*) where
  channel : Channel T
  parked : List (Handle × Nat)
  woken : List (Handle × Nat)

def Operation.parksReceiver (c : Channel T) : Operation T → List (Handle × Nat)
  | .op o => o.parksReceiver c
  | _ => []

namespace Parking

def start (c : Channel T) : Parking T := ⟨c, [], []⟩

def step (s : Parking T) (op : Operation T) : Option (Parking T) :=
  some ⟨(op.run s.channel).1, s.parked ++ op.parksReceiver s.channel,
    s.woken ++ wokenReceivers (op.run s.channel).2⟩

end Parking

/-- What throws, throws while no receiver is parked, or before the first item of a batch. -/
def ThrowsUnattended (s : Parking T) : Operation T → Prop
  | .awaitSendThrows _ _ _ _ => s.channel.receiverQueue.isEmpty = true
  | .trySendThrows _ => s.channel.receiverQueue.isEmpty = true
  | .trySendMany items => s.channel.receiverQueue.isEmpty = true ∨
      items.all Item.isValue = true ∨ items.head?.any Item.isIteratorThrow = true
  | _ => True

instance (s : Parking T) (op : Operation T) : Decidable (ThrowsUnattended s op) :=
  match op with
  | .awaitSendThrows _ _ _ _ | .trySendThrows _ => inferInstanceAs (Decidable (_ = true))
  | .trySendMany _ => inferInstanceAs (Decidable (_ ∨ _ ∨ _))
  | .op _ | .sendThrows _ | .tryReceiveMany _ _ | .resetStats => inferInstanceAs (Decidable True)

section

variable {c : Channel T} {xs : List T}

/-- Without parked receivers a batch wakes nobody, whatever throws. -/
theorem sendLoop_of_nil (hr : c.receiverQueue = []) (items : List (Item T)) :
    (c.sendLoop items).2.2.1.receiverQueue = [] ∧ (c.sendLoop items).2.2.2 = [] := by
  induction items generalizing c with
  | nil => exact ⟨hr, rfl⟩
  | cons item items ih =>
    cases item with
    | iteratorThrows e => exact ⟨hr, rfl⟩
    | value v =>
      cases hfull : c.isFull with
      | false =>
        simp only [sendLoop, hr, hfull, Bool.not_false, if_true]
        exact ih (by simpa using hr)
      | true => simp [sendLoop, hr, hfull]
    | constructThrows e => cases hfull : c.isFull <;> simp [sendLoop, hr, hfull]

theorem trySendMany_of_nil (hr : c.receiverQueue = []) (items : List (Item T)) :
    (c.trySendMany items).channel.receiverQueue = [] ∧ (c.trySendMany items).wakes = [] := by
  obtain ⟨hqueue, hwakes⟩ := sendLoop_of_nil hr items
  unfold trySendMany
  split
  · exact ⟨hr, rfl⟩
  split
  · exact ⟨by simpa using hr, rfl⟩
  split
  · rename_i hl
    rw [hl] at hqueue hwakes
    exact ⟨hqueue, hwakes⟩
  · rename_i hl
    rw [hl] at hqueue
    exact ⟨hqueue, rfl⟩

theorem awaitSuspend_of_nil (hr : c.receiverQueue = []) (e : Exn) (handle : Handle)
    (a : SenderAwaiter T) :
    (SenderAwaiter.awaitSuspend (fun _ => .error e) c handle a).channel.receiverQueue = [] ∧
      (SenderAwaiter.awaitSuspend (fun _ => .error e) c handle a).wakes = [] := by
  cases hopen : c.close <;> cases hfull : c.isFull <;>
    simp [SenderAwaiter.awaitSuspend, hopen, hr, hfull]

theorem trySend_of_nil (hr : c.receiverQueue = []) (e : Exn) :
    (c.trySend (.error e)).channel.receiverQueue = [] ∧ (c.trySend (.error e)).wakes = [] := by
  cases hopen : c.close <;> cases hfull : c.isFull <;> simp [trySend, hopen, hr, hfull]

/-- A batch that throws before its first item changes nothing but the statistics. -/
theorem trySendMany_of_head {items : List (Item T)}
    (h : items.head?.any Item.isIteratorThrow = true) :
    (c.trySendMany items).channel.receiverQueue = c.receiverQueue ∧
      (c.trySendMany items).wakes = [] := by
  cases items with
  | nil => exact ⟨rfl, rfl⟩
  | cons item items =>
    cases item with
    | iteratorThrows e => cases hopen : c.close <;> simp [trySendMany, hopen, sendLoop]
    | value v => cases h
    | constructThrows e => cases h

/-- An operation that leaves the receivers alone. -/
theorem receivers_of_same {c' : Channel T} {wakes : List (Wake T)}
    (hr : c'.receiverQueue = c.receiverQueue) (hwakes : wakes = []) :
    waitingReceivers c ++ [] = wokenReceivers wakes ++ waitingReceivers c' := by
  simp [waitingReceivers, hr, hwakes]

/-- The law of one operation: who waited and who parks, is who is woken and who waits. -/
theorem Operation.receivers {s : Parking T} {op : Operation T} (h : s.channel.WellFormed xs)
    (hcond : ThrowsUnattended s op) :
    waitingReceivers s.channel ++ op.parksReceiver s.channel =
      wokenReceivers (op.run s.channel).2 ++ waitingReceivers (op.run s.channel).1 := by
  cases op with
  | op o => exact (queues h o).receivers
  | sendThrows e =>
    refine receivers_of_same ?_ ?_ <;>
      cases hopen : s.channel.close <;> simp [run, sendItem, hopen]
  | awaitSendThrows handle id v e =>
    have hr := List.isEmpty_iff.mp hcond
    obtain ⟨hqueue, hwakes⟩ := awaitSuspend_of_nil hr e handle { id, value := v }
    exact receivers_of_same (hqueue.trans hr.symm) hwakes
  | trySendThrows e =>
    have hr := List.isEmpty_iff.mp hcond
    obtain ⟨hqueue, hwakes⟩ := trySend_of_nil hr e
    exact receivers_of_same (hqueue.trans hr.symm) hwakes
  | trySendMany items =>
    obtain hr | hvalues | hhead := hcond
    · have hr := List.isEmpty_iff.mp hr
      obtain ⟨hqueue, hwakes⟩ := trySendMany_of_nil hr items
      exact receivers_of_same (hqueue.trans hr.symm) hwakes
    · obtain ⟨vs, rfl⟩ := exists_values hvalues
      exact (queues_trySendMany h vs).receivers
    · obtain ⟨hqueue, hwakes⟩ := trySendMany_of_head (c := s.channel) hhead
      exact receivers_of_same hqueue hwakes
  | tryReceiveMany mem n =>
    obtain ⟨heq, -⟩ | ⟨e, -, -, heq⟩ := s.channel.tryReceiveManyReserved_cases mem n
    · simp only [run, heq]
      exact (queues h (.tryReceiveMany n)).receivers
    · simp only [run, heq]
      exact receivers_of_same rfl rfl
  | resetStats =>
    refine receivers_of_same ?_ rfl
    simp only [run, Channel.resetStats]
    split <;> rfl

end

/-- Nobody is lost along a run. -/
structure Parking.Accounts (s : Parking T) : Prop where
  wellFormed : ∃ xs, s.channel.WellFormed xs
  receivers : s.parked = s.woken ++ waitingReceivers s.channel

theorem Parking.Accounts.step {s t : Parking T} {op : Operation T} (h : s.Accounts)
    (hcond : ThrowsUnattended s op) (ht : s.step op = some t) : t.Accounts := by
  obtain ⟨⟨xs, hwf⟩, hreceivers⟩ := h
  cases ht
  refine ⟨op.wellFormed hwf, ?_⟩
  rw [hreceivers, List.append_assoc, op.receivers hwf hcond, List.append_assoc]

theorem Parking.Accounts.of_run {c : Channel T} {s : Parking T} (hc : Constructed c)
    (run : Run Parking.step ThrowsUnattended (.start c) s) : s.Accounts := by
  refine run.invariant ⟨⟨[], hc.wellFormed⟩, ?_⟩ fun h hcond ht => h.step hcond ht
  obtain ⟨stats, capacity, rfl⟩ := hc.eq
  rfl

/-- A value that throws leaves the channel intact if and only if no receiver is parked. In a run
in which this is so, every receiver that has parked has been woken or is still parked, in
order. -/
theorem throwing_value_intact (e : Exn) :
    (∀ c : Channel T, c.TakesValue →
      ((c.trySend (.error e)).result = .error e ∧ Intact c (c.trySend (.error e)).channel ↔
        c.receiverQueue = [])) ∧
    (∀ (c : Channel T) (move : T → Except Exn T) (handle : Handle) (a : SenderAwaiter T),
      c.TakesValue → move a.value = .error e →
      ((SenderAwaiter.awaitSuspend move c handle a).result = .error e ∧
        Intact c (SenderAwaiter.awaitSuspend move c handle a).channel ↔ c.receiverQueue = [])) ∧
    ∀ (c : Channel T) (s : Parking T), Constructed c →
      Run Parking.step ThrowsUnattended (.start c) s →
      s.parked = s.woken ++ waitingReceivers s.channel := by
  refine ⟨fun c h => trySend_throws h, fun c move handle a h hmove => ?_, fun c s hc run => ?_⟩
  · exact awaitSuspend_throws h hmove
  · exact (Parking.Accounts.of_run hc run).receivers

/-- A value that throws at the buffer of an empty channel of capacity one. Afterwards two
receivers park, a batch throws before its first item, and one of them is served. -/
theorem throwing_value_intact_empty :
    sampleChannel.TakesValue ∧
      Intact sampleChannel (sampleChannel.trySend (.error (.client 0))).channel ∧
      Intact sampleChannel
        (SenderAwaiter.awaitSuspend (fun _ => .error (.client 0)) sampleChannel 1
          { id := 1, value := 5 }).channel ∧
      ∃ s, Run Parking.step ThrowsUnattended (.start sampleChannel) s ∧
        s.parked = [(1, 1), (2, 2)] ∧ s.woken = [(1, 1)] ∧
        s.parked = s.woken ++ waitingReceivers s.channel := by
  have h : sampleChannel.TakesValue := ⟨rfl, .inr rfl⟩
  obtain ⟨htry, hawait, hruns⟩ := throwing_value_intact (T := Nat) (.client 0)
  obtain ⟨s, hrun, hparked, hwoken⟩ := exists_run Parking.step ThrowsUnattended
    (.start sampleChannel)
    [.trySendThrows (.client 0), .op (.awaitReceive 1 1), .op (.awaitReceive 2 2),
      .trySendMany [.iteratorThrows (.client 0)], .op (.trySend 5)]
    (fun s => s.parked = [(1, 1), (2, 2)] ∧ s.woken = [(1, 1)]) (by decide)
  refine ⟨h, ((htry _ h).mpr rfl).2, ((hawait _ _ 1 ⟨1, 5, false⟩ h rfl).mpr rfl).2, s, hrun,
    hparked, hwoken, ?_⟩
  exact hruns _ s ⟨false, .inr ⟨1, rfl⟩⟩ hrun

/-- A receiver is parked and the value cannot be constructed: the receiver is gone. -/
theorem throwing_value_drops_receiver :
    ¬ ∀ c : Channel Nat, Run step Always sampleChannel c → ∀ e, c.TakesValue →
      (c.trySend (.error e)).result = .error e ∧ Intact c (c.trySend (.error e)).channel := by
  intro hall
  have h := hall attendedChannel attendedChannel_run (.client 0) ⟨rfl, .inl (by decide)⟩
  have hlost := congrArg List.length h.2.receivers
  revert hlost
  decide

end TinyCoroutine.Channel
