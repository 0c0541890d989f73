import TinyCoroutine.Channel.Batches

/-!
# Values and iterators that throw

A send pops the front receiver before it constructs or moves the value into its awaiter, and
`try_send_many` keeps the receivers it has served in a local vector until its loop has ended. An
exception in between drops those receivers: they are in no queue, and nobody resumes them.

Where no receiver is parked an exception does no harm. A failing send changes nothing, and a
failing batch has sent what comes before the item that throws.
-/
namespace TinyCoroutine.Channel

open Foundation

variable {T : Type*}

/-! ## One value -/

/-- A send constructs or moves its value: it is handed to a parked receiver or buffered. -/
def TakesValue (c : Channel T) : Prop :=
  c.close = false ∧ (c.receiverQueue ≠ [] ∨ c.isFull = false)

/-- Nothing has changed but the statistics. -/
structure Intact (c c' : Channel T) : Prop where
  ring : c'.toRingBuffer = c.toRingBuffer
  close : c'.close = c.close
  senders : c'.senderQueue = c.senderQueue
  receivers : c'.receiverQueue = c.receiverQueue

section

variable {c : Channel T} {e : Exn}

theorem Intact.refl (c : Channel T) : Intact c c := ⟨rfl, rfl, rfl, rfl⟩

/-- Dropping the front receiver is seen in the queue. -/
theorem not_intact_of_drop {r : Handle × ReceiverAwaiter T}
    {rest : List (Handle × ReceiverAwaiter T)} (hr : c.receiverQueue = r :: rest) :
    ¬Intact c { c with receiverQueue := rest } := by
  intro h
  have hsame := h.receivers
  simp [hr] at hsame

theorem trySend_throws (h : c.TakesValue) :
    (c.trySend (.error e)).result = .error e ∧ Intact c (c.trySend (.error e)).channel ↔
      c.receiverQueue = [] := by
  obtain ⟨hopen, hspace⟩ := h
  cases hr : c.receiverQueue with
  | cons r rest =>
    have hthrow : c.trySend (.error e) = ⟨.error e, { c with receiverQueue := rest }, []⟩ := by
      unfold trySend
      simp only [hr]
      simp [hopen]
    rw [hthrow]
    simp [not_intact_of_drop hr]
  | nil =>
    have hfull : c.isFull = false := hspace.resolve_left (absurd hr)
    have hthrow : c.trySend (.error e) = ⟨.error e, c, []⟩ := by
      unfold trySend
      simp [hr, hopen, hfull]
    rw [hthrow]
    simp [Intact.refl]

theorem awaitSuspend_throws {move : T → Except Exn T} {handle : Handle} {a : SenderAwaiter T}
    (h : c.TakesValue) (hmove : move a.value = .error e) :
    (SenderAwaiter.awaitSuspend move c handle a).result = .error e ∧
        Intact c (SenderAwaiter.awaitSuspend move c handle a).channel ↔
      c.receiverQueue = [] := by
  obtain ⟨hopen, hspace⟩ := h
  cases hr : c.receiverQueue with
  | cons r rest =>
    have hthrow : SenderAwaiter.awaitSuspend move c handle a =
        ⟨.error e, { c with receiverQueue := rest }, []⟩ := by
      unfold SenderAwaiter.awaitSuspend
      simp only [hr, hmove]
      simp [hopen]
    rw [hthrow]
    simp [not_intact_of_drop hr]
  | nil =>
    have hfull : c.isFull = false := hspace.resolve_left (absurd hr)
    have hthrow : SenderAwaiter.awaitSuspend move c handle a = ⟨.error e, c, []⟩ := by
      unfold SenderAwaiter.awaitSuspend
      simp [hr, hopen, hfull, hmove]
    rw [hthrow]
    simp [Intact.refl]

end

/-! ## Batches -/

/-- `try_send_many` sends `vs` and is then left by `e`: advancing to the next item throws, or
constructing its value does. -/
structure ThrowsAt (c : Channel T) (vs : List T) (item : Item T) (e : Exn) : Prop where
  isOpen : c.close = false
  sent : (c.sendEach vs).result = .ok vs.length
  throws : item = .iteratorThrows e ∨
    item = .constructThrows e ∧ (c.sendEach vs).channel.TakesValue

/-- What `try_send_many` has done when it throws is what sending `vs` one by one does; every
receiver that was parked is woken or still parked, in order. -/
structure StrandsNobody (c : Channel T) (vs : List T) (o : Outcome T (Except Exn Nat)) :
    Prop where
  channel : o.channel = (c.sendEach vs).channel
  wakes : o.wakes = (c.sendEach vs).wakes
  receivers : waitingReceivers c = wokenReceivers o.wakes ++ waitingReceivers o.channel

section

variable {c : Channel T} {e : Exn} {item : Item T} {vs : List T}

theorem sent_of_map {r : Except Exn Nat} {n : Nat} (h : r.map (· + 1) = .ok (n + 1)) :
    r = .ok n := by
  cases r with
  | error e => cases h
  | ok m => simpa [Except.map] using h

/-- Values sent one by one, and then the rest of a batch. -/
theorem sendLoop_append (hopen : c.close = false) (hsent : (c.sendEach vs).result = .ok vs.length)
    (items : List (Item T)) :
    c.sendLoop (vs.map .value ++ items) =
      (vs.length + ((c.sendEach vs).channel.sendLoop items).1,
        ((c.sendEach vs).channel.sendLoop items).2.1,
        ((c.sendEach vs).channel.sendLoop items).2.2.1,
        (c.sendEach vs).wakes ++ ((c.sendEach vs).channel.sendLoop items).2.2.2) := by
  induction vs generalizing c with
  | nil => simp [sendEach]
  | cons v vs ih =>
    cases hr : c.receiverQueue with
    | cons r rest =>
      rw [sendEach_handoff hopen hr] at hsent ⊢
      have htail := ih (c := c.handoff rest) (by simpa using hopen) (sent_of_map hsent)
      simp only [List.map_cons, List.cons_append, sendLoop, hr, htail, List.length_cons,
        Prod.mk.injEq, and_true]
      omega
    | nil =>
      cases hfull : c.isFull with
      | false =>
        rw [sendEach_buffered hopen hr hfull] at hsent ⊢
        have htail := ih (c := c.bufferedSend v) (by simpa using hopen) (sent_of_map hsent)
        simp only [List.map_cons, List.cons_append, sendLoop, hr, hfull, Bool.not_false, if_true,
          htail, List.length_cons, Prod.mk.injEq, and_true]
        omega
      | true =>
        rw [sendEach_full hopen hr hfull] at hsent
        simp at hsent

/-- Without parked receivers nobody is woken. -/
theorem sendEach_of_nil (hr : c.receiverQueue = []) (vs : List T) :
    (c.sendEach vs).wakes = [] ∧ (c.sendEach vs).channel.receiverQueue = [] := by
  induction vs generalizing c with
  | nil => exact ⟨rfl, hr⟩
  | cons v vs ih =>
    cases hopen : c.close with
    | true => simp [sendEach, trySend, hopen, hr]
    | false =>
      cases hfull : c.isFull with
      | false =>
        rw [sendEach_buffered hopen hr hfull]
        exact ih (by simpa using hr)
      | true =>
        rw [sendEach_full hopen hr hfull]
        exact ⟨rfl, by simpa using hr⟩

/-- The receivers that iterated calls wake are taken from the front of the queue. -/
theorem receivers_sendEach (hopen : c.close = false) (vs : List T) :
    waitingReceivers c =
      wokenReceivers (c.sendEach vs).wakes ++ waitingReceivers (c.sendEach vs).channel := by
  rw [sendEach_open hopen]
  exact (queues_sendLoop c vs).2.2

/-- A batch that throws has made the changes of its loop and wakes nobody. -/
theorem trySendMany_of_throw {items : List (Item T)} (hopen : c.close = false)
    (hne : items ≠ []) (hthrow : (c.sendLoop items).2.1 = some e) :
    c.trySendMany items = ⟨.error e, (c.sendLoop items).2.2.1, []⟩ := by
  generalize hl : c.sendLoop items = r at hthrow
  obtain ⟨n, ex, c', wakes⟩ := r
  obtain rfl : ex = some e := hthrow
  simp [trySendMany, hne, hopen, hl]

theorem trySendMany_iteratorThrows (h : c.ThrowsAt vs (.iteratorThrows e) e)
    (rest : List (Item T)) :
    c.trySendMany (vs.map .value ++ .iteratorThrows e :: rest) =
      ⟨.error e, (c.sendEach vs).channel, []⟩ := by
  have hloop := sendLoop_append h.isOpen h.sent (.iteratorThrows e :: rest)
  rw [trySendMany_of_throw h.isOpen (by simp) (by rw [hloop]; rfl), hloop]
  rfl

/-- The receiver whose value could not be constructed is dropped. -/
theorem trySendMany_constructThrows (h : c.ThrowsAt vs (.constructThrows e) e)
    (rest : List (Item T)) :
    c.trySendMany (vs.map .value ++ .constructThrows e :: rest) =
      ⟨.error e, { (c.sendEach vs).channel with
        receiverQueue := (c.sendEach vs).channel.receiverQueue.tail }, []⟩ := by
  have hloop := sendLoop_append h.isOpen h.sent (.constructThrows e :: rest)
  obtain ⟨-, hspace⟩ : (c.sendEach vs).channel.TakesValue := by
    obtain hitem | ⟨-, hspace⟩ := h.throws
    · cases hitem
    · exact hspace
  generalize (c.sendEach vs).channel = d at hloop hspace ⊢
  have hthrow : d.sendLoop (.constructThrows e :: rest) =
      (0, some e, { d with receiverQueue := d.receiverQueue.tail }, []) := by
    cases hr : d.receiverQueue with
    | cons r queue => simp [sendLoop, hr]
    | nil =>
      have hfull := hspace.resolve_left (absurd hr)
      have hsame : ({ d with receiverQueue := [] } : Channel T) = d := by rw [← hr]
      simp [sendLoop, hr, hfull, hsame]
  rw [hthrow] at hloop
  rw [trySendMany_of_throw h.isOpen (by simp) (by rw [hloop]), hloop]

end

/-- Without wakes nobody is stranded when the channel is that of the iterated calls and those
wake nobody either: there was no receiver, or no value. -/
theorem strandsNobody_iff {c : Channel T} {vs : List T} (hopen : c.close = false)
    (r : Except Exn Nat) (c' : Channel T) :
    StrandsNobody c vs ⟨r, c', []⟩ ↔
      c' = (c.sendEach vs).channel ∧ (c.receiverQueue = [] ∨ vs = []) := by
  constructor
  · intro h
    refine ⟨h.channel, ?_⟩
    have hnone : (c.sendEach vs).wakes = [] := h.wakes.symm
    cases hr : c.receiverQueue with
    | nil => exact .inl rfl
    | cons r rest =>
      cases vs with
      | nil => exact .inr rfl
      | cons v vs => simp [sendEach_handoff hopen hr] at hnone
  · rintro ⟨rfl, hnone⟩
    have hwakes : (c.sendEach vs).wakes = [] := by
      obtain hr | rfl := hnone
      · exact (sendEach_of_nil hr vs).1
      · rfl
    refine ⟨rfl, hwakes.symm, ?_⟩
    rw [receivers_sendEach hopen vs, hwakes]

theorem dropReceiver_eq_self {c : Channel T} :
    ({ c with receiverQueue := c.receiverQueue.tail } : Channel T) = c ↔ c.receiverQueue = [] := by
  constructor
  · intro h
    have hqueue := congrArg Channel.receiverQueue h
    cases hr : c.receiverQueue with
    | nil => rfl
    | cons r rest => simp [hr] at hqueue
  · intro hr
    rw [hr, List.tail_nil, ← hr]

/-- A batch that throws strands nobody if and only if no receiver was parked, or its first item
could not be reached. -/
theorem try_send_many_strands_nobody {c : Channel T} {vs : List T} {item : Item T} {e : Exn}
    (h : c.ThrowsAt vs item e) (rest : List (Item T)) :
    (c.trySendMany (vs.map .value ++ item :: rest)).result = .error e ∧
      (StrandsNobody c vs (c.trySendMany (vs.map .value ++ item :: rest)) ↔
        c.receiverQueue = [] ∨ vs = [] ∧ item = .iteratorThrows e) := by
  obtain hitem | ⟨hitem, -⟩ := h.throws
  · subst hitem
    rw [trySendMany_iteratorThrows h rest, strandsNobody_iff h.isOpen]
    simp
  · subst hitem
    rw [trySendMany_constructThrows h rest, strandsNobody_iff h.isOpen, dropReceiver_eq_self]
    refine ⟨rfl, ⟨?_, ?_⟩⟩
    · rintro ⟨hnil, hr | rfl⟩
      · exact .inl hr
      · exact .inl hnil
    · rintro (hr | ⟨-, hitem⟩)
      · exact ⟨(sendEach_of_nil hr vs).2, .inl hr⟩
      · cases hitem

/-- A channel of capacity one on which one receiver has parked. -/
def attendedChannel : Channel Nat := ((Op.awaitReceive 1 1).run sampleChannel).1

theorem attendedChannel_run : Run step Always sampleChannel attendedChannel :=
  .snoc (a := .op (.awaitReceive 1 1)) .refl trivial rfl

/-- The iterator throws before the first item. -/
theorem try_send_many_strands_nobody_first :
    attendedChannel.ThrowsAt [] (.iteratorThrows (.client 0)) (.client 0) ∧
      (attendedChannel.trySendMany [.iteratorThrows (.client 0)]).result = .error (.client 0) ∧
      StrandsNobody attendedChannel []
        (attendedChannel.trySendMany [.iteratorThrows (.client 0)]) := by
  have h : attendedChannel.ThrowsAt [] (.iteratorThrows (.client 0)) (.client 0) :=
    ⟨rfl, rfl, .inl rfl⟩
  obtain ⟨hresult, hiff⟩ := try_send_many_strands_nobody h []
  exact ⟨h, hresult, hiff.mpr (.inr ⟨rfl, rfl⟩)⟩

/-- The receiver gets the first value and the iterator throws at the second: the receiver is
neither parked nor woken. -/
theorem served_receiver_stranded :
    ¬ ∀ c : Channel Nat, Run step Always sampleChannel c → ∀ vs item e rest,
      c.ThrowsAt vs item e →
        StrandsNobody c vs (c.trySendMany (vs.map .value ++ item :: rest)) := by
  intro hall
  have h := hall attendedChannel attendedChannel_run [5] (.iteratorThrows (.client 0)) (.client 0)
    [] ⟨rfl, rfl, .inl rfl⟩
  have hlost := h.receivers
  revert hlost
  decide

end TinyCoroutine.Channel
