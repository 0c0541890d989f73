import TinyCoroutine.Channel.Books
import TinyCoroutine.Channel.Operations

/-!
# The statistics balance

Beside the channel a tally counts what its clients see: the values received, the sends that were
told to have succeeded, and the parked senders that were woken with their value taken. The
counters agree with the tally and with the channel, up to their width.
-/
namespace TinyCoroutine.Channel

open Foundation

variable {T : Type*}

/-! ## The capacity does not change -/

section

variable {c : Channel T}

@[simp] theorem capacity_handoff (rest : List (Handle × ReceiverAwaiter T)) :
    (c.handoff rest).capacity = c.capacity := by simp [handoff]

@[simp] theorem capacity_bufferedSend (v : T) : (c.bufferedSend v).capacity = c.capacity := by
  simp [bufferedSend]

@[simp] theorem capacity_takeParked (h : Handle) (a : SenderAwaiter T)
    (rest : List (Handle × SenderAwaiter T)) :
    (c.takeParked h a rest).2.1.capacity = c.capacity := by simp [takeParked]

theorem capacity_sendLoop (c : Channel T) (vs : List T) :
    (c.sendLoop (vs.map .value)).2.2.1.capacity = c.capacity := by
  induction vs generalizing c with
  | nil => rfl
  | cons v vs ih =>
    cases hr : c.receiverQueue with
    | cons r rest =>
      simp only [List.map_cons, sendLoop, hr]
      exact (ih _).trans (capacity_handoff rest)
    | nil =>
      cases hfull : c.isFull with
      | false =>
        simp only [List.map_cons, sendLoop, hr, hfull, Bool.not_false, if_true]
        exact (ih _).trans (capacity_bufferedSend v)
      | true => simp [sendLoop, hr, hfull]

theorem capacity_receiveLoop (c : Channel T) (n : Nat) :
    (c.receiveLoop n).2.1.capacity = c.capacity := by
  induction n generalizing c with
  | zero => rfl
  | succ n ih =>
    cases hempty : c.isEmpty with
    | false =>
      simp only [receiveLoop, hempty, Bool.not_false, if_true]
      exact (ih _).trans (capacity_takeBuffered c)
    | true =>
      cases hs : c.senderQueue with
      | nil => simp [receiveLoop, hempty, hs]
      | cons p rest =>
        simp only [receiveLoop, hempty, Bool.not_true, Bool.false_eq_true, if_false, hs]
        exact (ih _).trans (capacity_takeParked _ _ _)

theorem capacity_run (c : Channel T) (op : Op T) : (op.run c).1.capacity = c.capacity := by
  cases op with
  | send id v => cases hc : c.close <;> simp [Op.run, send, hc]
  | awaitSend handle id v =>
    cases hc : c.close <;> cases hr : c.receiverQueue <;> cases hfull : c.isFull <;>
      simp [Op.run, SenderAwaiter.awaitSuspend, hc, hr, hfull]
  | trySend v =>
    cases hc : c.close <;> cases hr : c.receiverQueue <;> cases hfull : c.isFull <;>
      simp [Op.run, trySend, hc, hr, hfull]
  | trySendMany vs =>
    have hloop := capacity_sendLoop c vs
    simp only [Op.run, trySendMany]
    split
    · rfl
    split
    · simp
    split <;> rename_i hl <;> simpa [hl] using hloop
  | awaitReceive handle id =>
    cases hempty : c.isEmpty <;> cases hc : c.close <;> cases hs : c.senderQueue <;>
      simp [Op.run, ReceiverAwaiter.awaitSuspend, hempty, hc, hs]
  | tryReceive =>
    cases hempty : c.isEmpty <;> cases hc : c.close <;> cases hs : c.senderQueue <;>
      simp [Op.run, tryReceive, hempty, hc, hs]
  | tryReceiveMany maxItems =>
    have hloop := capacity_receiveLoop c maxItems
    simp only [Op.run, tryReceiveMany]
    split
    · rfl
    split
    · simpa using hloop
    split
    · simpa using hloop
    · exact hloop
  | close => cases hc : c.close <;> simp [Op.run, closeChannel, hc]

end

/-! ## The tally -/

structure Tally (T : Type*) where
  channel : Channel T
  /-- The values received. -/
  received : Nat
  /-- The sends that succeeded: the value entered the channel or reached a receiver. -/
  entered : Nat
  /-- The parked senders whose value was taken. -/
  taken : Nat

namespace Tally

def start (c : Channel T) : Tally T := ⟨c, 0, 0, 0⟩

def step (s : Tally T) (op : Op T) : Option (Tally T) :=
  some
    { channel := (op.run s.channel).1
      received := s.received + (Channel.received (op.receiveReports s.channel)).length
      entered := s.entered + (sent (op.sendReports s.channel)).length
      taken := s.taken + (Channel.taken (op.run s.channel).2.2).length }

/-- The balances, as the snapshot of the counters shows them. -/
structure Balanced (s : Tally T) : Prop where
  ring : s.channel.statsSnapshot .bufferPushes =
    s.channel.statsSnapshot .bufferPops + UInt64.ofNat s.channel.count
  received : UInt64.ofNat s.received =
    s.channel.statsSnapshot .bufferPops + s.channel.statsSnapshot .directHandoffs
  entered : UInt64.ofNat s.entered =
    s.channel.statsSnapshot .bufferPushes + s.channel.statsSnapshot .directHandoffs
  receivers : s.channel.statsSnapshot .receiverWaits =
    s.channel.statsSnapshot .directHandoffs + s.channel.statsSnapshot .closeWakeReceivers +
      UInt64.ofNat s.channel.receiverQueue.length
  senders : s.channel.statsSnapshot .senderWaits =
    UInt64.ofNat s.taken + s.channel.statsSnapshot .closeWakeSenders +
      UInt64.ofNat s.channel.senderQueue.length
  closing : s.channel.statsSnapshot .closeCalls = if s.channel.close then 1 else 0

/-- All that has been added to the counters, and what it amounts to. -/
structure Books (s : Tally T) (d : Counter → Nat) : Prop where
  enabled : s.channel.statsEnabled = true
  stats : ∀ k, s.channel.stats k = UInt64.ofNat (d k)
  ring : d .bufferPushes = d .bufferPops + s.channel.count
  received : s.received = d .bufferPops + d .directHandoffs
  entered : s.entered = d .bufferPushes + d .directHandoffs
  receivers : d .receiverWaits =
    d .directHandoffs + d .closeWakeReceivers + s.channel.receiverQueue.length
  senders : d .senderWaits = s.taken + d .closeWakeSenders + s.channel.senderQueue.length
  closing : d .closeCalls = s.channel.close.toNat

variable {s t : Tally T} {d : Counter → Nat} {op : Op T} {xs : List T}

theorem Books.balanced (h : s.Books d) : s.Balanced := by
  have hload : ∀ k, s.channel.statsSnapshot k = UInt64.ofNat (d k) := by
    intro k
    simp [statsSnapshot, statsLoad, h.enabled, h.stats]
  constructor <;> simp only [hload]
  · rw [h.ring, UInt64.ofNat_add]
  · rw [h.received, UInt64.ofNat_add]
  · rw [h.entered, UInt64.ofNat_add]
  · rw [h.receivers, UInt64.ofNat_add, UInt64.ofNat_add]
  · rw [h.senders, UInt64.ofNat_add, UInt64.ofNat_add]
  · rw [h.closing]
    cases s.channel.close <;> rfl

/-- Values are received as they are given, and those that enter and are not given are in the
ring. -/
theorem reports_conserve {c : Channel T} (h : c.WellFormed xs) (op : Op T) :
    (Channel.received (op.receiveReports c)).length = (op.run c).2.1.given.length ∧
      c.count + (sent (op.sendReports c)).length =
        (op.run c).2.1.given.length + (op.run c).1.count := by
  by_cases hclose : op = .close ∧ c.close = false
  · obtain ⟨rfl, hopen⟩ := hclose
    obtain ⟨hsends, hreceives⟩ := close_reports h hopen
    rw [hsends, hreceives]
    simp [sent, Channel.received, List.filterMap_map, Op.run, closeChannel, hopen]
  · have hop : op = .close → c.close = true := by
      intro hop
      by_contra hc
      exact hclose ⟨hop, by simpa using hc⟩
    have htells := tells h op hop
    obtain ⟨xs', htr⟩ := (conserves h op hop).transfer
    obtain ⟨settled, hsettled, hvalues⟩ := htr.sends
    have hsent : sent (op.sendReports c) = settled :=
      List.append_cancel_right (htells.settles.symm.trans hsettled)
    have hlength := congrArg List.length hvalues
    simp only [List.length_append, List.length_map] at hlength
    refine ⟨by rw [htells.gives], ?_⟩
    rw [h.count, htr.wellFormed.count, hsent, hlength]

theorem Books.step {e : Counter → Nat} (h : s.Books d) (hwf : s.channel.WellFormed xs)
    (he : op.Booked s.channel e) (ht : s.step op = some t) : t.Books fun k => d k + e k := by
  cases ht
  obtain ⟨hreceived, hentered⟩ := reports_conserve hwf op
  have hqueues := queues hwf op
  have hsenders := congrArg List.length hqueues.senders
  have hreceivers := congrArg List.length hqueues.receivers
  have hwoken := length_wokenSenders (op.run s.channel).2.2
  simp only [waitingSenders, List.length_append, List.length_map] at hsenders
  simp only [waitingReceivers, List.length_append, List.length_map] at hreceivers
  obtain ⟨hcounted, hring, hgiven, hrw, hserved, hsw, hwithdrawn, hclosing⟩ := he
  obtain ⟨hon, hstats, hring', hreceived', hentered', hreceivers', hsenders', hclosing'⟩ := h
  refine ⟨hcounted.enabled.trans hon, fun k => ?_, ?_, ?_, ?_, ?_, ?_, ?_⟩
  · rw [hcounted.stats hon, hstats, UInt64.ofNat_add]
  all_goals
    dsimp only
    omega

/-- The invariant of a run. -/
structure Inv (s : Tally T) : Prop where
  wellFormed : ∃ xs, s.channel.WellFormed xs
  capacity : 0 < s.channel.capacity
  books : ∃ d, s.Books d

theorem Inv.step (h : s.Inv) (ht : s.step op = some t) : t.Inv := by
  obtain ⟨⟨xs, hwf⟩, hpos, d, hbooks⟩ := h
  obtain ⟨e, he⟩ := booked hwf hpos op
  have hbooks' := hbooks.step hwf he ht
  cases ht
  exact ⟨wellFormed_op hwf op, by simpa [capacity_run] using hpos, _, hbooks'⟩

theorem Inv.start {capacity : Nat} {c : Channel T} (hc : create true capacity = .ok c) :
    (start c).Inv := by
  have hwf := (create_wellFormed hc).1
  unfold create at hc
  split_ifs at hc with hzero
  cases hc
  refine ⟨⟨[], hwf⟩, Nat.pos_of_ne_zero hzero, fun _ => 0, ?_⟩
  exact ⟨rfl, fun _ => rfl, rfl, rfl, rfl, rfl, rfl, rfl⟩

end Tally

/-- After every critical section all counters balance. -/
theorem stats_balance {capacity : Nat} {c : Channel T} (hc : create true capacity = .ok c)
    {s : Tally T} (run : Run Tally.step Always (.start c) s) : s.Balanced := by
  have I := run.invariant (Tally.Inv.start hc) fun h _ ht => h.step ht
  obtain ⟨d, hbooks⟩ := I.books
  exact hbooks.balanced

/-- Two sends, of which one parks, a batch of receives that takes both values, a receive that
parks and the close. -/
theorem stats_balance_parked :
    ∃ s : Tally Nat, Run Tally.step Always
        (.start { default true with toRingBuffer := RingBuffer.empty 1 }) s ∧
      s.received = 2 ∧ s.taken = 1 ∧ s.channel.stats .closeWakeReceivers = 1 ∧ s.Balanced := by
  obtain ⟨s, hrun, hreceived, htaken, hwakes⟩ := exists_run Tally.step Always
    (.start { default true with toRingBuffer := RingBuffer.empty 1 } : Tally Nat)
    [.awaitSend 1 1 5, .awaitSend 2 2 6, .tryReceiveMany 3, .awaitReceive 3 3, .close]
    (fun s => s.received = 2 ∧ s.taken = 1 ∧ s.channel.stats .closeWakeReceivers = 1) (by decide)
  have hc : create true 1 =
      .ok ({ default true with toRingBuffer := RingBuffer.empty 1 } : Channel Nat) := rfl
  exact ⟨s, hrun, hreceived, htaken, hwakes, stats_balance hc hrun⟩

end TinyCoroutine.Channel
