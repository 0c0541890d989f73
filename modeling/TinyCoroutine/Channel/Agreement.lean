import TinyCoroutine.Channel.Operations

/-!
# Blocking and non-blocking operations

`co_await receive()` and `try_receive()` are two copies of the same code that test for a parked
sender and for the close in opposite orders, and `co_await send(v)` and `try_send(v)` are two
more. On the states that occur each pair agrees: they do the same, or they fail alike, or the
blocking one parks where the other one gives up.
-/
namespace TinyCoroutine.Channel

open Foundation

variable {T : Type*}

/-- The channel without its statistics. -/
def forgetStats (c : Channel T) : Channel T := { c with stats := fun _ => 0 }

@[simp] theorem forgetStats_statsAdd (c : Channel T) (k : Counter) (d : UInt64) :
    (c.statsAdd k d).forgetStats = c.forgetStats := by
  unfold statsAdd
  split <;> rfl

/-- What the expression `co_await receive()` gives without having parked. -/
def receiveEnds : Await (ReceiverAwaiter T) → Option (Except Exn T)
  | .suspended => none
  | .ready a => some a.awaitResume

def sendEnds : Except Exn (Await (SenderAwaiter T)) → Option (Except Exn Unit)
  | .error e => some (.error e)
  | .ok .suspended => none
  | .ok (.ready a) => some a.awaitResume

/-- `co_await send(value)`: `send` and then `await_suspend` of the awaiter it returns. -/
def awaitSend (c : Channel T) (handle : Handle) (id : Nat) (v : T) :
    Outcome T (Except Exn (Await (SenderAwaiter T))) :=
  match c.send id v with
  | ⟨.error e, c, wakes⟩ => ⟨.error e, c, wakes⟩
  | ⟨.ok a, c, _⟩ => SenderAwaiter.awaitSuspend .ok c handle a

def ExactlyOne (p q r : Prop) : Prop := (p ∨ q ∨ r) ∧ ¬(p ∧ q) ∧ ¬(p ∧ r) ∧ ¬(q ∧ r)

/-! ## Receiving -/

section

variable (c : Channel T) (b : Outcome T (Await (ReceiverAwaiter T)))

/-- Both give the same value, leave the same channel and wake the same sender. -/
structure ReceivesSame : Prop where
  value : ∃ v, receiveEnds b.result = some (.ok v) ∧ c.tryReceive.result = .ok (some v)
  channel : b.channel.forgetStats = c.tryReceive.channel.forgetStats
  wakes : b.wakes = c.tryReceive.wakes

/-- Both fail as closed and change nothing. -/
structure ReceivesClosed : Prop where
  blocking : receiveEnds b.result = some (.error channelIsClosed)
  trying : c.tryReceive.result = .error channelIsClosed
  channel : b.channel.forgetStats = c.forgetStats
  tryChannel : c.tryReceive.channel.forgetStats = c.forgetStats
  wakes : b.wakes = [] ∧ c.tryReceive.wakes = []

/-- One parks, which changes only the queue, and the other one finds nothing. -/
structure ReceiveParks (handle : Handle) (id : Nat) : Prop where
  blocking : receiveEnds b.result = none
  trying : c.tryReceive.result = .ok none
  channel : b.channel.forgetStats =
    ({ c with receiverQueue := c.receiverQueue ++ [(handle, { id })] } : Channel T).forgetStats
  tryChannel : c.tryReceive.channel.forgetStats = c.forgetStats
  wakes : b.wakes = [] ∧ c.tryReceive.wakes = []

end

section

variable {c : Channel T} {xs : List T}

theorem receives_cases (h : c.WellFormed xs) (handle : Handle) (id : Nat) :
    ReceivesSame c (ReceiverAwaiter.awaitSuspend c handle { id }) ∨
      ReceivesClosed c (ReceiverAwaiter.awaitSuspend c handle { id }) ∨
      ReceiveParks c (ReceiverAwaiter.awaitSuspend c handle { id }) handle id := by
  cases hempty : c.isEmpty with
  | false =>
    obtain ⟨x, rest, rfl⟩ := h.cons_of_count (isEmpty_eq_false.mp hempty)
    have hfront := h.takeBuffered.1
    left
    constructor <;>
      simp [ReceiverAwaiter.awaitSuspend, tryReceive, hempty, hfront, receiveEnds,
        ReceiverAwaiter.awaitResume]
  | true =>
    cases hclose : c.close with
    | true =>
      -- The order of the two tests does not matter: a closed channel has no parked sender.
      have hsenders := (h.closed hclose).1
      right; left
      constructor <;>
        simp [ReceiverAwaiter.awaitSuspend, tryReceive, hempty, hclose, hsenders, receiveEnds,
          ReceiverAwaiter.awaitResume]
    | false =>
      cases hs : c.senderQueue with
      | cons p rest =>
        left
        constructor <;>
          simp [ReceiverAwaiter.awaitSuspend, tryReceive, hempty, hclose, hs, takeParked,
            receiveEnds, ReceiverAwaiter.awaitResume]
      | nil =>
        right; right
        constructor <;>
          simp [ReceiverAwaiter.awaitSuspend, tryReceive, hempty, hclose, hs, receiveEnds]

end

/-- The cases exclude each other by what `try_receive` returns. -/
theorem receives_exclusive (c : Channel T) (b : Outcome T (Await (ReceiverAwaiter T)))
    (handle : Handle) (id : Nat) :
    ¬(ReceivesSame c b ∧ ReceivesClosed c b) ∧ ¬(ReceivesSame c b ∧ ReceiveParks c b handle id) ∧
      ¬(ReceivesClosed c b ∧ ReceiveParks c b handle id) := by
  refine ⟨?_, ?_, ?_⟩
  · rintro ⟨h, k⟩
    obtain ⟨v, -, hv⟩ := h.value
    simp [k.trying] at hv
  · rintro ⟨h, k⟩
    obtain ⟨v, -, hv⟩ := h.value
    simp [k.trying] at hv
  · rintro ⟨h, k⟩
    have hv := h.trying
    simp [k.trying] at hv

/-! ## Sending -/

section

variable (c : Channel T) (v : T) (b : Outcome T (Except Exn (Await (SenderAwaiter T))))

/-- Both send the value, leave the same channel and wake the same receiver. -/
structure SendsSame : Prop where
  blocking : sendEnds b.result = some (.ok ())
  trying : (c.trySend (.ok v)).result = .ok true
  channel : b.channel.forgetStats = (c.trySend (.ok v)).channel.forgetStats
  wakes : b.wakes = (c.trySend (.ok v)).wakes

structure SendsClosed : Prop where
  blocking : sendEnds b.result = some (.error channelIsClosed)
  trying : (c.trySend (.ok v)).result = .error channelIsClosed
  channel : b.channel.forgetStats = c.forgetStats
  tryChannel : (c.trySend (.ok v)).channel.forgetStats = c.forgetStats
  wakes : b.wakes = [] ∧ (c.trySend (.ok v)).wakes = []

structure SendParks (handle : Handle) (id : Nat) : Prop where
  blocking : sendEnds b.result = none
  trying : (c.trySend (.ok v)).result = .ok false
  channel : b.channel.forgetStats = ({ c with
    senderQueue := c.senderQueue ++ [(handle, { id, value := v })] } : Channel T).forgetStats
  tryChannel : (c.trySend (.ok v)).channel.forgetStats = c.forgetStats
  wakes : b.wakes = [] ∧ (c.trySend (.ok v)).wakes = []

end

/-- The awaiter that `send` returns from an open channel is awaited on the same channel. -/
theorem awaitSend_open {c : Channel T} (hopen : c.close = false) (handle : Handle) (id : Nat)
    (v : T) : c.awaitSend handle id v =
      SenderAwaiter.awaitSuspend .ok c handle { id, value := v } := by
  simp [awaitSend, send, hopen]

theorem awaitSuspend_cases (c : Channel T) (handle : Handle) (id : Nat) (v : T) :
    SendsSame c v (SenderAwaiter.awaitSuspend .ok c handle { id, value := v }) ∨
      SendsClosed c v (SenderAwaiter.awaitSuspend .ok c handle { id, value := v }) ∨
      SendParks c v (SenderAwaiter.awaitSuspend .ok c handle { id, value := v }) handle id := by
  cases hclose : c.close with
  | true =>
    right; left
    constructor <;>
      simp [SenderAwaiter.awaitSuspend, trySend, hclose, sendEnds, SenderAwaiter.awaitResume]
  | false =>
    cases hr : c.receiverQueue with
    | cons r rest =>
      left
      constructor <;>
        simp [SenderAwaiter.awaitSuspend, trySend, hclose, hr, sendEnds, SenderAwaiter.awaitResume]
    | nil =>
      cases hfull : c.isFull with
      | false =>
        left
        constructor <;>
          simp [SenderAwaiter.awaitSuspend, trySend, hclose, hr, hfull, sendEnds,
            SenderAwaiter.awaitResume]
      | true =>
        right; right
        constructor <;>
          simp [SenderAwaiter.awaitSuspend, trySend, hclose, hr, hfull, sendEnds]

theorem awaitSend_cases (c : Channel T) (handle : Handle) (id : Nat) (v : T) :
    SendsSame c v (c.awaitSend handle id v) ∨ SendsClosed c v (c.awaitSend handle id v) ∨
      SendParks c v (c.awaitSend handle id v) handle id := by
  cases hclose : c.close with
  | true =>
    right; left
    constructor <;> simp [awaitSend, send, trySend, hclose, sendEnds]
  | false =>
    rw [awaitSend_open hclose]
    exact awaitSuspend_cases c handle id v

theorem sends_exclusive (c : Channel T) (v : T)
    (b : Outcome T (Except Exn (Await (SenderAwaiter T)))) (handle : Handle) (id : Nat) :
    ¬(SendsSame c v b ∧ SendsClosed c v b) ∧ ¬(SendsSame c v b ∧ SendParks c v b handle id) ∧
      ¬(SendsClosed c v b ∧ SendParks c v b handle id) := by
  refine ⟨?_, ?_, ?_⟩
  · rintro ⟨h, k⟩
    have hv := h.trying
    simp [k.trying] at hv
  · rintro ⟨h, k⟩
    have hv := h.trying
    simp [k.trying] at hv
  · rintro ⟨h, k⟩
    have hv := h.trying
    simp [k.trying] at hv

/-! ## Agreement -/

/-- `try_receive` against `co_await receive()` with outcome `b`. -/
def ReceivesAgree (c : Channel T) (b : Outcome T (Await (ReceiverAwaiter T))) (handle : Handle)
    (id : Nat) : Prop :=
  ExactlyOne (ReceivesSame c b) (ReceivesClosed c b) (ReceiveParks c b handle id)

def SendsAgree (c : Channel T) (v : T) (b : Outcome T (Except Exn (Await (SenderAwaiter T))))
    (handle : Handle) (id : Nat) : Prop :=
  ExactlyOne (SendsSame c v b) (SendsClosed c v b) (SendParks c v b handle id)

/-- In every state that occurs the blocking operations do what the non-blocking ones do, except
that they park. An awaiter may also have been obtained from `send` earlier. -/
theorem blocking_agrees {c₀ c : Channel T} (hc : Constructed c₀) (run : Run step Always c₀ c)
    (handle : Handle) (id : Nat) :
    ReceivesAgree c (ReceiverAwaiter.awaitSuspend c handle { id }) handle id ∧
      ∀ v, SendsAgree c v (c.awaitSend handle id v) handle id ∧
        SendsAgree c v (SenderAwaiter.awaitSuspend .ok c handle { id, value := v }) handle id := by
  obtain ⟨xs, h⟩ := WellFormed.of_run hc run
  refine ⟨⟨receives_cases h handle id, receives_exclusive c _ handle id⟩, fun v => ⟨?_, ?_⟩⟩
  · exact ⟨awaitSend_cases c handle id v, sends_exclusive c v _ handle id⟩
  · exact ⟨awaitSuspend_cases c handle id v, sends_exclusive c v _ handle id⟩

/-- A full channel of capacity one with a parked sender. -/
theorem blocking_agrees_full :
    ∃ c : Channel Nat, Run step Always sampleChannel c ∧ c.senderQueue.length = 1 ∧
      ReceivesAgree c (ReceiverAwaiter.awaitSuspend c 3 { id := 3 }) 3 3 ∧
      ∀ v, SendsAgree c v (c.awaitSend 3 3 v) 3 3 ∧
        SendsAgree c v (SenderAwaiter.awaitSuspend .ok c 3 { id := 3, value := v }) 3 3 := by
  obtain ⟨c, hrun, hlen⟩ := exists_run step Always sampleChannel
    [.op (.awaitSend 1 1 5), .op (.awaitSend 2 2 6)]
    (fun c => c.senderQueue.length = 1) (by decide)
  exact ⟨c, hrun, hlen, blocking_agrees ⟨false, .inr ⟨1, rfl⟩⟩ hrun 3 3⟩

end TinyCoroutine.Channel
