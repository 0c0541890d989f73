import TinyCoroutine.Channel.Fifo

/-!
# All operations, and the representation they keep

The operations of `Fifo` are those whose payload does not throw. Here constructing a `T` from
an argument may throw, moving the value of a sender may throw, and so may the iterator of a
batch. The memory a batch receive asks for may be refused. The counters may be reset.

Whatever throws, the ring and the wait queues stay consistent with each other, and every access
to the ring is defined: this needs no assumption on the capacity, which may be zero.
-/
namespace TinyCoroutine.Channel

open Foundation

variable {T : Type*}

/-- `send(value)` with a value from which constructing the awaiter may throw. -/
def sendItem (c : Channel T) (id : Nat) (item : Except Exn T) :
    Outcome T (Except Exn (SenderAwaiter T)) :=
  if c.close then ⟨.error channelIsClosed, c.statsAdd .closedFailures, []⟩
  else ⟨item.map fun v => { id, value := v }, c, []⟩

/-- `reset_stats()`. -/
def resetStats (c : Channel T) : Channel T :=
  if c.statsEnabled then { c with stats := fun _ => 0 } else c

inductive Operation (T : Type*) where
  | op (op : Op T)
  | sendThrows (e : Exn)
  /-- `co_await` of a sender whose value throws when it is moved. -/
  | awaitSendThrows (handle : Handle) (id : Nat) (v : T) (e : Exn)
  | trySendThrows (e : Exn)
  | trySendMany (items : List (Item T))
  | tryReceiveMany (mem : Allocator) (maxItems : Nat)
  | resetStats

/-- The channel that an operation leaves, and whom it wakes. -/
def Operation.run (c : Channel T) : Operation T → Channel T × List (Wake T)
  | .op o => ((o.run c).1, (o.run c).2.2)
  | .sendThrows e => ((c.sendItem 0 (.error e)).channel, (c.sendItem 0 (.error e)).wakes)
  | .awaitSendThrows handle id v e =>
    let o := SenderAwaiter.awaitSuspend (fun _ => .error e) c handle { id, value := v }
    (o.channel, o.wakes)
  | .trySendThrows e => ((c.trySend (.error e)).channel, (c.trySend (.error e)).wakes)
  | .trySendMany items => ((c.trySendMany items).channel, (c.trySendMany items).wakes)
  | .tryReceiveMany mem maxItems =>
    let o := c.tryReceiveManyReserved mem maxItems
    (o.channel, o.wakes)
  | .resetStats => (c.resetStats, [])

def Item.isValue : Item T → Bool
  | .value _ => true
  | _ => false

/-- One critical section. -/
def step (c : Channel T) (op : Operation T) : Option (Channel T) := some (op.run c).1

@[simp] theorem sendItem_ok (c : Channel T) (id : Nat) (v : T) :
    c.sendItem id (.ok v) = c.send id v := by
  unfold sendItem send
  split <;> rfl

/-- A batch whose items are all values. -/
theorem exists_values {items : List (Item T)} (h : items.all Item.isValue = true) :
    ∃ vs : List T, items = vs.map .value := by
  induction items with
  | nil => exact ⟨[], rfl⟩
  | cons item items ih =>
    simp only [List.all_cons, Bool.and_eq_true] at h
    obtain ⟨vs, rfl⟩ := ih h.2
    cases item with
    | value v => exact ⟨v :: vs, rfl⟩
    | iteratorThrows e => cases h.1
    | constructThrows e => cases h.1

/-! ## The invariant along a run -/

section

variable {c : Channel T} {xs : List T}

theorem WellFormed.resetStats (h : c.WellFormed xs) : c.resetStats.WellFormed xs := by
  unfold Channel.resetStats
  split
  · exact ⟨h.ring, h.senders, h.receivers, h.closed, h.sending, h.receiving, h.faultless⟩
  · exact h

/-- A receiver is taken from the queue and dropped. -/
theorem WellFormed.dropReceiver {r : Handle × ReceiverAwaiter T}
    {rest : List (Handle × ReceiverAwaiter T)} (h : c.WellFormed xs)
    (hr : c.receiverQueue = r :: rest) :
    ({ c with receiverQueue := rest } : Channel T).WellFormed xs := by
  have hhandoff := h.handoff hr
  rwa [Channel.handoff, statsAdd_wellFormed] at hhandoff

theorem wellFormed_sendItem (h : c.WellFormed xs) (id : Nat) (item : Except Exn T) :
    (c.sendItem id item).channel.WellFormed xs := by
  unfold sendItem
  split
  · exact (statsAdd_wellFormed _ _).mpr h
  · exact h

theorem wellFormed_awaitSend (h : c.WellFormed xs) (move : T → Except Exn T) (handle : Handle)
    {a : SenderAwaiter T} (ha : a.close = false) :
    ∃ xs', (SenderAwaiter.awaitSuspend move c handle a).channel.WellFormed xs' := by
  unfold SenderAwaiter.awaitSuspend
  split
  · exact ⟨xs, (statsAdd_wellFormed _ _).mpr h⟩
  rename_i hopen
  split
  · rename_i hr
    split
    · exact ⟨xs, h.handoff hr⟩
    · exact ⟨xs, h.dropReceiver hr⟩
  rename_i hr
  split
  · rename_i hfull
    split
    · rename_i v _
      exact ⟨xs ++ [v], h.bufferedSend hr (by simpa using hfull) v⟩
    · exact ⟨xs, h⟩
  · rename_i hfull
    exact ⟨xs, (statsAdd_wellFormed _ _).mpr
      (h.parkSender (by simpa using hopen) hr (by simpa [isFull] using hfull) handle ha)⟩

theorem wellFormed_trySend (h : c.WellFormed xs) (item : Except Exn T) :
    ∃ xs', (c.trySend item).channel.WellFormed xs' := by
  unfold trySend
  split
  · exact ⟨xs, (statsAdd_wellFormed _ _).mpr h⟩
  split
  · rename_i hr
    split
    · exact ⟨xs, h.handoff hr⟩
    · exact ⟨xs, h.dropReceiver hr⟩
  rename_i hr
  split
  · rename_i hfull
    split
    · rename_i v
      exact ⟨xs ++ [v], h.bufferedSend hr (by simpa using hfull) v⟩
    · exact ⟨xs, h⟩
  · exact ⟨xs, (statsAdd_wellFormed _ _).mpr h⟩

theorem wellFormed_sendLoop (h : c.WellFormed xs) (items : List (Item T)) :
    ∃ xs', (c.sendLoop items).2.2.1.WellFormed xs' := by
  induction items generalizing c xs with
  | nil => exact ⟨xs, h⟩
  | cons item items ih =>
    cases item with
    | iteratorThrows e => exact ⟨xs, h⟩
    | value v =>
      cases hr : c.receiverQueue with
      | cons r rest =>
        simp only [sendLoop, hr]
        exact ih (h.handoff hr)
      | nil =>
        cases hfull : c.isFull with
        | false =>
          simp only [sendLoop, hr, hfull, Bool.not_false, if_true]
          exact ih (h.bufferedSend hr hfull v)
        | true =>
          simp only [sendLoop, hr, hfull, Bool.not_true, Bool.false_eq_true, if_false]
          exact ⟨xs, (statsAdd_wellFormed _ _).mpr h⟩
    | constructThrows e =>
      cases hr : c.receiverQueue with
      | cons r rest =>
        simp only [sendLoop, hr]
        exact ⟨xs, h.dropReceiver hr⟩
      | nil =>
        cases hfull : c.isFull with
        | false =>
          simp only [sendLoop, hr, hfull, Bool.not_false, if_true]
          exact ⟨xs, h⟩
        | true =>
          simp only [sendLoop, hr, hfull, Bool.not_true, Bool.false_eq_true, if_false]
          exact ⟨xs, (statsAdd_wellFormed _ _).mpr h⟩

theorem wellFormed_trySendMany (h : c.WellFormed xs) (items : List (Item T)) :
    ∃ xs', (c.trySendMany items).channel.WellFormed xs' := by
  unfold trySendMany
  split
  · exact ⟨xs, h⟩
  split
  · exact ⟨xs, (statsAdd_wellFormed _ _).mpr h⟩
  have hloop := wellFormed_sendLoop h items
  split
  · rename_i hl
    rwa [hl] at hloop
  · rename_i hl
    rwa [hl] at hloop

theorem wellFormed_op (h : c.WellFormed xs) (op : Op T) :
    ∃ xs', (op.run c).1.WellFormed xs' := by
  by_cases hclose : op = .close ∧ c.close = false
  · obtain ⟨rfl, hopen⟩ := hclose
    exact ⟨xs, (h.closeChannel hopen).1⟩
  · have hcons := conserves h op fun hop => by
      by_contra hc
      exact hclose ⟨hop, by simpa using hc⟩
    obtain ⟨xs', htr⟩ := hcons.transfer
    exact ⟨xs', htr.wellFormed⟩

/-- A batch receive whose reservation fails has not looked at the channel. -/
theorem tryReceiveManyReserved_cases (c : Channel T) (mem : Allocator) (n : Nat) :
    c.tryReceiveManyReserved mem n = c.tryReceiveMany n ∧ (n = 0 ∨ mem.reserve n = .ok ()) ∨
      ∃ e, n ≠ 0 ∧ mem.reserve n = .error e ∧
        c.tryReceiveManyReserved mem n = ⟨.error e, c, []⟩ := by
  by_cases hn : n = 0
  · exact .inl ⟨by simp [tryReceiveManyReserved, tryReceiveMany, hn], .inl hn⟩
  · cases hmem : mem.reserve n with
    | ok _ => exact .inl ⟨by simp [tryReceiveManyReserved, hn, hmem], .inr rfl⟩
    | error e => exact .inr ⟨e, hn, rfl, by simp [tryReceiveManyReserved, hn, hmem]⟩

theorem tryReceiveManyReserved_eq {mem : Allocator} {n : Nat} (c : Channel T)
    (h : n = 0 ∨ mem.reserve n = .ok ()) : c.tryReceiveManyReserved mem n = c.tryReceiveMany n := by
  obtain ⟨heq, -⟩ | ⟨e, hn, hmem, -⟩ := c.tryReceiveManyReserved_cases mem n
  · exact heq
  · obtain rfl | hok := h
    · exact absurd rfl hn
    · rw [hmem] at hok
      cases hok

theorem Operation.wellFormed (h : c.WellFormed xs) (op : Operation T) :
    ∃ xs', (op.run c).1.WellFormed xs' := by
  cases op with
  | op op => exact wellFormed_op h op
  | sendThrows e => exact ⟨xs, wellFormed_sendItem h 0 (.error e)⟩
  | awaitSendThrows handle id v e => exact wellFormed_awaitSend h _ handle rfl
  | trySendThrows e => exact wellFormed_trySend h (.error e)
  | trySendMany items => exact wellFormed_trySendMany h items
  | tryReceiveMany mem n =>
    obtain ⟨heq, -⟩ | ⟨e, -, -, heq⟩ := c.tryReceiveManyReserved_cases mem n
    · simpa only [run, heq, Op.run] using wellFormed_op h (.tryReceiveMany n)
    · exact ⟨xs, by simpa only [run, heq] using h⟩
  | resetStats => exact ⟨xs, h.resetStats⟩

end

theorem Constructed.wellFormed {c : Channel T} (h : Constructed c) : c.WellFormed [] :=
  h.accounts.wellFormed

/-- A new channel is empty, and has counted nothing. -/
theorem Constructed.eq {c : Channel T} (h : Constructed c) : ∃ stats capacity,
    c = { Channel.default stats with toRingBuffer := RingBuffer.empty capacity } := by
  obtain ⟨stats, rfl | ⟨capacity, hc⟩⟩ := h
  · exact ⟨stats, 0, rfl⟩
  · unfold create at hc
    split_ifs at hc
    cases hc
    exact ⟨stats, capacity, rfl⟩

theorem WellFormed.of_run {c₀ c : Channel T} (hc : Constructed c₀)
    (run : Run step Always c₀ c) : ∃ xs, c.WellFormed xs := by
  refine run.invariant (I := fun c => ∃ xs, c.WellFormed xs) ⟨[], hc.wellFormed⟩ ?_
  rintro t op u ⟨xs, h⟩ - hu
  cases hu
  exact op.wellFormed h

/-! ## What the invariant says about the representation -/

/-- The representation invariant in terms of the members of the class. -/
structure Sound (c : Channel T) : Prop where
  count_le : c.count ≤ c.capacity
  size : c.buffer.length = c.capacity
  header_lt : 0 < c.capacity → c.header < c.capacity
  tail_lt : 0 < c.capacity → c.tail < c.capacity
  tail_eq : 0 < c.capacity → c.tail = (c.header + c.count) % c.capacity
  /-- The engaged slots are the `count_` slots from `header_` on. -/
  engaged : 0 < c.capacity → ∀ k,
    (∃ v, c.buffer[k]? = some (some v)) ↔ ∃ i < c.count, k = (c.header + i) % c.capacity
  senders : c.senderQueue ≠ [] → c.count = c.capacity ∧ c.receiverQueue = []
  receivers : c.receiverQueue ≠ [] → c.count = 0 ∧ c.senderQueue = []
  closed : c.close = true → c.senderQueue = [] ∧ c.receiverQueue = []

/-- The two accesses to the ring: `buffer_[tail_]` where there is space is a slot to write, and
`*buffer_[header_]` where there are values is a value. -/
structure Accesses (c : Channel T) : Prop where
  write : c.isFull = false → 0 < c.capacity ∧ c.buffer[c.tail]? = some none
  read : c.isEmpty = false → 0 < c.capacity ∧ 0 < c.count ∧
    ∃ v, c.buffer[c.header]? = some (some v)

section

variable {c : Channel T} {xs : List T}

theorem WellFormed.engaged (h : c.WellFormed xs) (k : Nat) :
    (∃ v, c.buffer[k]? = some (some v)) ↔ ∃ i < c.count, k = (c.header + i) % c.capacity := by
  have hcount := h.count
  have hfits := h.ring.fits
  constructor
  · rintro ⟨v, hv⟩
    have hk : k < c.capacity := by
      rw [← h.ring.size]
      exact (List.getElem?_eq_some_iff.mp hv).1
    obtain ⟨i, hi, rfl⟩ := RingBuffer.exists_slot c.header hk
    rw [h.ring.slot i hi] at hv
    have hlt := (List.getElem?_eq_some_iff.mp (Option.some.inj hv)).1
    exact ⟨i, by omega, rfl⟩
  · rintro ⟨i, hi, rfl⟩
    rw [h.ring.slot i (by omega)]
    exact ⟨xs[i], by simp⟩

theorem WellFormed.sound (h : c.WellFormed xs) : Sound c where
  count_le := h.ring.fits
  size := h.ring.size
  header_lt := h.ring.header_lt
  tail_lt hpos := by
    rw [h.ring.tail_eq hpos]
    exact Nat.mod_lt _ hpos
  tail_eq := h.ring.tail_eq
  engaged _ := h.engaged
  senders := h.senders
  receivers hne := by
    refine ⟨h.receivers hne, ?_⟩
    by_contra hs
    exact hne (h.senders hs).2
  closed := h.closed

theorem WellFormed.accesses (h : c.WellFormed xs) : Accesses c where
  write hfull := by
    have hne := isFull_eq_false.mp hfull
    have hfits := h.ring.fits
    have hpos : 0 < c.capacity := by omega
    have hslot := h.ring.slot c.count (by omega)
    rw [← h.ring.tail_eq hpos, h.count, List.getElem?_eq_none (Nat.le_refl _)] at hslot
    exact ⟨hpos, hslot⟩
  read hempty := by
    have hne := isEmpty_eq_false.mp hempty
    have hfits := h.ring.fits
    have hpos : 0 < c.capacity := by omega
    obtain ⟨x, rest, rfl⟩ := h.cons_of_count hne
    have hslot := h.ring.slot 0 hpos
    rw [Nat.add_zero, Nat.mod_eq_of_lt (h.ring.header_lt hpos)] at hslot
    exact ⟨hpos, by omega, x, hslot⟩

end

/-- The representation invariant holds in every state, and no operation makes an access to the
ring that has no defined behaviour. -/
theorem representation_sound {c₀ c : Channel T} (hc : Constructed c₀)
    (run : Run step Always c₀ c) :
    Sound c ∧ Accesses c ∧ c.fault = false ∧ ∀ op : Operation T, (op.run c).1.fault = false := by
  obtain ⟨xs, h⟩ := WellFormed.of_run hc run
  refine ⟨h.sound, h.accesses, h.faultless, fun op => ?_⟩
  obtain ⟨xs', h'⟩ := op.wellFormed h
  exact h'.faultless

/-- Capacity zero: a sender parks, a receiver takes its value, another one parks and is dropped
by a value that cannot be constructed. -/
theorem representation_sound_capacity_zero :
    ∃ c : Channel Nat, Run step Always (default true) c ∧ c.stats .directHandoffs = 1 ∧
      Sound c ∧ Accesses c ∧ c.fault = false ∧
      ∀ op : Operation Nat, (op.run c).1.fault = false := by
  obtain ⟨c, hrun, hstats⟩ := exists_run step Always (default true : Channel Nat)
    [.op (.awaitSend 1 1 5), .op .tryReceive, .op (.awaitReceive 2 2), .trySendThrows (.client 0)]
    (fun c => c.stats .directHandoffs = 1) (by decide)
  exact ⟨c, hrun, hstats, representation_sound ⟨true, .inl rfl⟩ hrun⟩

end TinyCoroutine.Channel
