import TinyCoroutine.Channel.Basic

/-!
# The representation invariant of the channel

`c.WellFormed xs` says that the ring of `c` holds `xs` and that the two wait queues
are consistent with it: senders wait only in front of a full ring, receivers only
behind an empty one, and nobody waits on a closed channel. The four blocks the
operations are made of keep it; the capacity may be zero throughout, in which case
the ring is empty and full at once and every value is handed over directly.
-/
namespace TinyCoroutine.Channel

open Foundation

variable {T : Type*}

structure WellFormed (c : Channel T) (xs : List T) : Prop where
  ring : c.toRingBuffer.Holds xs
  senders : c.senderQueue ≠ [] → c.count = c.capacity ∧ c.receiverQueue = []
  receivers : c.receiverQueue ≠ [] → c.count = 0
  closed : c.close = true → c.senderQueue = [] ∧ c.receiverQueue = []
  sending : ∀ p ∈ c.senderQueue, p.2.close = false
  receiving : ∀ p ∈ c.receiverQueue, p.2.value = none
  faultless : c.fault = false

theorem default_wellFormed (stats : Bool) : (default stats : Channel T).WellFormed [] where
  ring := RingBuffer.holds_empty 0
  senders h := absurd rfl h
  receivers _ := rfl
  closed h := by cases h
  sending p h := by cases h
  receiving p h := by cases h
  faultless := rfl

theorem create_wellFormed {stats : Bool} {capacity : Nat} {c : Channel T}
    (h : create stats capacity = .ok c) : c.WellFormed [] ∧ c.close = false := by
  unfold create at h
  split_ifs at h
  cases h
  refine ⟨⟨RingBuffer.holds_empty capacity, fun h => absurd rfl h, fun _ => rfl, ?_, ?_, ?_, rfl⟩,
    rfl⟩
  · intro h; cases h
  · intro p h; cases h
  · intro p h; cases h

/-! ## Counting statistics changes nothing else -/

section Stats

variable (c : Channel T) (k : Counter) (d : UInt64)

@[simp] theorem statsAdd_ring : (c.statsAdd k d).toRingBuffer = c.toRingBuffer := by
  unfold statsAdd; split <;> rfl

@[simp] theorem statsAdd_close : (c.statsAdd k d).close = c.close := by
  unfold statsAdd; split <;> rfl

@[simp] theorem statsAdd_senderQueue : (c.statsAdd k d).senderQueue = c.senderQueue := by
  unfold statsAdd; split <;> rfl

@[simp] theorem statsAdd_receiverQueue : (c.statsAdd k d).receiverQueue = c.receiverQueue := by
  unfold statsAdd; split <;> rfl

@[simp] theorem statsAdd_fault : (c.statsAdd k d).fault = c.fault := by
  unfold statsAdd; split <;> rfl

variable {c}

@[simp] theorem statsAdd_wellFormed {xs : List T} :
    (c.statsAdd k d).WellFormed xs ↔ c.WellFormed xs := by
  constructor
  · rintro ⟨h1, h2, h3, h4, h5, h6, h7⟩
    simp only [statsAdd_ring, statsAdd_senderQueue, statsAdd_receiverQueue, statsAdd_close,
      statsAdd_fault] at h1 h2 h3 h4 h5 h6 h7
    exact ⟨h1, h2, h3, h4, h5, h6, h7⟩
  · rintro ⟨h1, h2, h3, h4, h5, h6, h7⟩
    refine ⟨?_, ?_, ?_, ?_, ?_, ?_, ?_⟩ <;>
      simpa only [statsAdd_ring, statsAdd_senderQueue, statsAdd_receiverQueue, statsAdd_close,
        statsAdd_fault]

end Stats

/-! ## The ring accesses -/

section Ring

variable {c : Channel T} {xs : List T}

@[simp] theorem isEmpty_eq_false : c.isEmpty = false ↔ c.count ≠ 0 := by simp [isEmpty]
@[simp] theorem isFull_eq_false : c.isFull = false ↔ c.count ≠ c.capacity := by simp [isFull]

theorem WellFormed.count (h : c.WellFormed xs) : c.count = xs.length := h.ring.count_eq

/-- A non-empty channel has a positive capacity and a first value. -/
theorem WellFormed.cons_of_count (h : c.WellFormed xs) (hne : c.count ≠ 0) :
    ∃ x rest, xs = x :: rest := by
  cases xs with
  | nil => exact absurd h.count hne
  | cons x rest => exact ⟨x, rest, rfl⟩

theorem WellFormed.nil_of_count (h : c.WellFormed xs) (hz : c.count = 0) : xs = [] :=
  List.eq_nil_of_length_eq_zero (h.count.symm.trans hz)

/-- Writing at the tail of a ring with space is a defined access. -/
theorem pushTail_fault (h : c.toRingBuffer.Holds xs) (space : c.count < c.capacity) (v : T) :
    (c.pushTail v).fault = c.fault := by
  have hpos : 0 < c.capacity := by omega
  have hslot := h.slot c.count space
  rw [← h.tail_eq hpos, h.count_eq] at hslot
  simp [pushTail, hslot, Nat.pos_iff_ne_zero.mp hpos]

/-- Reading at the header of a non-empty ring is a defined access. -/
theorem popHeader_fault {x : T} (h : c.toRingBuffer.Holds (x :: xs)) :
    c.popHeader.fault = c.fault := by
  have hcount := h.count_eq
  have hfits := h.fits
  simp only [List.length_cons] at hcount
  have hpos : 0 < c.capacity := by omega
  have hslot := h.slot 0 hpos
  rw [Nat.add_zero, Nat.mod_eq_of_lt (h.header_lt hpos)] at hslot
  simp [popHeader, hslot, Nat.pos_iff_ne_zero.mp hpos, hcount]

@[simp] theorem pushTail_ring (v : T) :
    (c.pushTail v).toRingBuffer = c.toRingBuffer.push v := rfl
@[simp] theorem popHeader_ring : c.popHeader.toRingBuffer = c.toRingBuffer.pop := rfl

end Ring

/-! ## The blocks keep the invariant -/

section Blocks

variable {c : Channel T} {xs : List T}

theorem WellFormed.handoff {r : Handle × ReceiverAwaiter T}
    {rest : List (Handle × ReceiverAwaiter T)} (h : c.WellFormed xs)
    (hr : c.receiverQueue = r :: rest) : (c.handoff rest).WellFormed xs := by
  have hsender : c.senderQueue = [] := by
    by_contra hne
    have := (h.senders hne).2
    simp [hr] at this
  have hempty : c.count = 0 := h.receivers (by simp [hr])
  rw [Channel.handoff, statsAdd_wellFormed]
  refine ⟨h.ring, fun hne => absurd hsender hne, fun _ => hempty, fun hc => ?_, h.sending, ?_,
    h.faultless⟩
  · have := (h.closed hc).2
    simp [hr] at this
  · intro p hp
    exact h.receiving p (by simp [hr, hp])

theorem WellFormed.bufferedSend (h : c.WellFormed xs) (hr : c.receiverQueue = [])
    (hfull : c.isFull = false) (v : T) : (c.bufferedSend v).WellFormed (xs ++ [v]) := by
  have hfits := h.ring.fits
  have hspace : c.count < c.capacity := by
    have := isFull_eq_false.mp hfull
    omega
  have hsender : c.senderQueue = [] := by
    by_contra hne
    have := (h.senders hne).1
    omega
  rw [Channel.bufferedSend, statsAdd_wellFormed]
  refine ⟨h.ring.push hspace v, fun hne => absurd hsender hne, fun hne => absurd hr hne, h.closed,
    h.sending, h.receiving, ?_⟩
  rw [pushTail_fault h.ring hspace, h.faultless]

/-- Taking the first buffered value frees a slot, which the front sender fills. -/
theorem WellFormed.takeBuffered {x : T} (h : c.WellFormed (x :: xs)) :
    c.takeBuffered.1 = some x ∧
      c.takeBuffered.2.1.WellFormed (xs ++ (c.senderQueue.map fun p => p.2.value).take 1) ∧
      c.takeBuffered.2.1.senderQueue = c.senderQueue.tail ∧
      c.takeBuffered.2.1.receiverQueue = c.receiverQueue ∧
      c.takeBuffered.2.1.close = c.close ∧
      c.takeBuffered.2.2 = (c.senderQueue.take 1).map fun p => Wake.sender p.1 p.2 := by
  have hcount := h.count
  have hfits := h.ring.fits
  simp only [List.length_cons] at hcount
  have hreceiver : c.receiverQueue = [] := by
    by_contra hne
    have := h.receivers hne
    omega
  have hpop := h.ring.pop
  refine ⟨h.ring.front, ?_⟩
  cases hq : c.senderQueue with
  | nil =>
    have hd : c.takeBuffered.2 = (c.popHeader.statsAdd .bufferPops, []) := by
      simp [Channel.takeBuffered, refill, popHeader, hq]
    rw [hd]
    simp only [List.map_nil, List.take_nil, List.append_nil, statsAdd_wellFormed,
      statsAdd_senderQueue, statsAdd_receiverQueue, statsAdd_close, List.tail_nil]
    refine ⟨⟨hpop, fun hne => absurd hq hne, fun hne => absurd hreceiver hne, h.closed, h.sending,
      h.receiving, ?_⟩, hq, rfl, rfl, trivial⟩
    exact (popHeader_fault h.ring).trans h.faultless
  | cons p rest =>
    obtain ⟨sh, sa⟩ := p
    have hfull := (h.senders (by simp [hq])).1
    have hspace : c.toRingBuffer.pop.count < c.toRingBuffer.pop.capacity := by
      simp only [RingBuffer.pop_count, RingBuffer.pop_capacity]
      omega
    let d : Channel T := { c.popHeader.statsAdd .bufferPops with senderQueue := rest }
    have hd : c.takeBuffered.2 =
        ((d.pushTail sa.value).statsAdd .bufferPushes, [.sender sh sa]) := by
      simp [Channel.takeBuffered, refill, popHeader, hq, d]
    have hring : d.toRingBuffer = c.toRingBuffer.pop := by simp [d]
    have hholds : d.toRingBuffer.Holds xs := hring ▸ hpop
    have hdspace : d.count < d.capacity := by rw [hring]; exact hspace
    have hdfault : d.fault = false := by
      simpa [d] using (popHeader_fault h.ring).trans h.faultless
    have hdr : d.receiverQueue = c.receiverQueue := by simp [d, popHeader]
    have hds : d.senderQueue = rest := rfl
    have hdc : d.close = c.close := by simp [d, popHeader]
    rw [hd]
    simp only [List.map_cons, List.take_succ_cons, List.take_zero, statsAdd_wellFormed,
      statsAdd_senderQueue, statsAdd_receiverQueue, statsAdd_close, List.tail_cons, List.map_nil]
    refine ⟨⟨hholds.push hdspace sa.value, fun _ => ?_, fun hne => ?_, fun hc => ?_, ?_, ?_, ?_⟩,
      hds, hdr, hdc, trivial⟩
    · refine ⟨?_, hdr.trans hreceiver⟩
      simp only [pushTail_ring, RingBuffer.push_count, RingBuffer.push_capacity, hring,
        RingBuffer.pop_count, RingBuffer.pop_capacity]
      omega
    · exact absurd (hdr.trans hreceiver) hne
    · have := (h.closed (hdc.symm.trans hc)).1
      simp [hq] at this
    · intro p hp
      exact h.sending p (by rw [hq]; exact List.mem_cons_of_mem _ hp)
    · intro p hp
      exact h.receiving p (hdr ▸ hp)
    · rw [pushTail_fault hholds hdspace]
      exact hdfault

/-- With an empty ring a value comes straight from the front sender. This happens
only for capacity zero. -/
theorem WellFormed.takeParked {sh : Handle} {sa : SenderAwaiter T}
    {rest : List (Handle × SenderAwaiter T)} (h : c.WellFormed xs)
    (hs : c.senderQueue = (sh, sa) :: rest) : (c.takeParked sh sa rest).2.1.WellFormed xs := by
  have hfull := h.senders (by simp [hs])
  rw [Channel.takeParked, statsAdd_wellFormed]
  refine ⟨h.ring, fun _ => hfull, h.receivers, fun hc => ?_, ?_, h.receiving, h.faultless⟩
  · have := (h.closed hc).1
    simp [hs] at this
  · intro p hp
    exact h.sending p (by rw [hs]; exact List.mem_cons_of_mem _ hp)

/-- A sender parks on a full open channel nobody receives from. -/
theorem WellFormed.parkSender (h : c.WellFormed xs) (hopen : c.close = false)
    (hr : c.receiverQueue = []) (hfull : c.isFull = true) (handle : Handle)
    {a : SenderAwaiter T} (ha : a.close = false) :
    ({ c with senderQueue := c.senderQueue ++ [(handle, a)] } : Channel T).WellFormed xs where
  ring := h.ring
  senders _ := ⟨by simpa [isFull] using hfull, hr⟩
  receivers := h.receivers
  closed hc := absurd (hopen.symm.trans hc) (by simp)
  sending p hp := by
    rcases List.mem_append.mp hp with hp | hp
    · exact h.sending p hp
    · obtain rfl := List.mem_singleton.mp hp
      exact ha
  receiving := h.receiving
  faultless := h.faultless

/-- A receiver parks on an empty open channel nobody sends to. -/
theorem WellFormed.parkReceiver (h : c.WellFormed xs) (hopen : c.close = false)
    (hs : c.senderQueue = []) (hempty : c.isEmpty = true) (handle : Handle)
    {a : ReceiverAwaiter T} (ha : a.value = none) :
    ({ c with receiverQueue := c.receiverQueue ++ [(handle, a)] } : Channel T).WellFormed xs where
  ring := h.ring
  senders hne := absurd hs hne
  receivers _ := by simpa [isEmpty] using hempty
  closed hc := absurd (hopen.symm.trans hc) (by simp)
  sending := h.sending
  receiving p hp := by
    rcases List.mem_append.mp hp with hp | hp
    · exact h.receiving p hp
    · obtain rfl := List.mem_singleton.mp hp
      exact ha
  faultless := h.faultless

theorem WellFormed.closeChannel (h : c.WellFormed xs) (hopen : c.close = false) :
    c.closeChannel.channel.WellFormed xs ∧ c.closeChannel.channel.close = true ∧
      c.closeChannel.channel.senderQueue = [] ∧ c.closeChannel.channel.receiverQueue = [] := by
  simp only [Channel.closeChannel, hopen, Bool.false_eq_true, if_false, statsAdd_wellFormed,
    statsAdd_close, statsAdd_senderQueue, statsAdd_receiverQueue, and_self, and_true]
  refine ⟨h.ring, fun hne => absurd rfl hne, fun hne => absurd rfl hne, fun _ => ⟨rfl, rfl⟩,
    ?_, ?_, h.faultless⟩
  · intro p hp; cases hp
  · intro p hp; cases hp

end Blocks

end TinyCoroutine.Channel
