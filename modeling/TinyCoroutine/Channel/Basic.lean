import TinyCoroutine.Basic
import TinyCoroutine.Foundation.RingBuffer
import Mathlib.Logic.Function.Basic

/-!
# The channel

`Channel T` of `include/channel.h`. Every operation takes the mutex once; its
critical section is one function here. The handles it collects under the lock and
passes to `reschedule_or_resume` after releasing it are returned as `wakes`, each
with the awaiter as the critical section left it. An awaiter is parked by address
in the source; since one queue entry points to it, the entry carries it here.

Constructing or moving a `T` may throw. `Item` says what an input of a send does,
and `move` what moving a stored value does; both are `.ok` for the runs in which
the payload does not throw.
-/
namespace TinyCoroutine

open Foundation

/-- The statistics counters, one per `stats_…_` member. -/
inductive Counter where
  | bufferPushes | bufferPops | directHandoffs | senderWaits | receiverWaits
  | trySendFullFailures | tryReceiveEmptyReturns | closedFailures
  | closeCalls | closeWakeSenders | closeWakeReceivers
  deriving DecidableEq, Repr

/-- The state of a `co_await send(value)` in flight. `id` stands for its address. -/
structure SenderAwaiter (T : Type*) where
  id : Nat
  value : T
  close : Bool := false

/-- The state of a `co_await receive()` in flight. -/
structure ReceiverAwaiter (T : Type*) where
  id : Nat
  value : Option T := none

structure Channel (T : Type*) extends RingBuffer T where
  close : Bool
  senderQueue : List (Handle × SenderAwaiter T)
  receiverQueue : List (Handle × ReceiverAwaiter T)
  /-- `TINY_COROUTINE_ENABLE_STATS`. -/
  statsEnabled : Bool
  stats : Counter → UInt64
  /-- Set by an access to the ring that has no defined behaviour. -/
  fault : Bool

/-- A coroutine handed to `reschedule_or_resume`, with its awaiter at that time. -/
inductive Wake (T : Type*) where
  | sender (handle : Handle) (awaiter : SenderAwaiter T)
  | receiver (handle : Handle) (awaiter : ReceiverAwaiter T)

def Wake.handle {T : Type*} : Wake T → Handle
  | .sender h _ => h
  | .receiver h _ => h

/-- What one operation returns, the channel it leaves, and whom it then wakes. -/
structure Outcome (T R : Type*) where
  result : R
  channel : Channel T
  wakes : List (Wake T)

/-- The two answers of `await_suspend`: park, or go on with the awaiter as it is. -/
inductive Await (A : Type*) where
  | suspended
  | ready (awaiter : A)

/-- One position of the input range of a send. -/
inductive Item (T : Type*) where
  | value (v : T)
  /-- Dereferencing or advancing the iterator throws. -/
  | iteratorThrows (e : Exn)
  /-- Constructing `T` from the element throws. -/
  | constructThrows (e : Exn)

/-- The memory behind a `std::vector`: its `max_size()`, and the requests that are granted. -/
structure Allocator where
  maxSize : Nat
  allocates : Nat → Bool

/-- `reserve(n)` on an empty vector. -/
def Allocator.reserve (mem : Allocator) (n : Nat) : Except Exn Unit :=
  if mem.maxSize < n then .error (.lengthError "vector::reserve")
  else if mem.allocates n then .ok ()
  else .error .badAlloc

def channelIsClosed : Exn := .runtimeError "channel is closed"

namespace Channel

variable {T : Type*}

/-! ## Construction and the ring -/

/-- `Channel() = default`: capacity zero and no slots. -/
def default (statsEnabled : Bool) : Channel T :=
  { RingBuffer.empty 0 with
    close := false, senderQueue := [], receiverQueue := [], statsEnabled,
    stats := fun _ => 0, fault := false }

/-- `explicit Channel(size_t capacity)`. -/
def create (statsEnabled : Bool) (capacity : Nat) : Except Exn (Channel T) :=
  if capacity = 0 then
    .error (.invalidArgument "channel capacity must be greater than 0")
  else
    .ok { Channel.default statsEnabled with toRingBuffer := RingBuffer.empty capacity }

def isEmpty (c : Channel T) : Bool := c.count == 0
def isFull (c : Channel T) : Bool := c.count == c.capacity

def statsAdd (c : Channel T) (counter : Counter) (delta : UInt64 := 1) : Channel T :=
  if c.statsEnabled then
    { c with stats := Function.update c.stats counter (c.stats counter + delta) }
  else c

/-- `buffer_[tail_] = v; tail_ = (tail_ + 1) % capacity_; count_++`. -/
def pushTail (c : Channel T) (v : T) : Channel T :=
  { c with
    toRingBuffer := c.toRingBuffer.push v
    -- the slot must exist, be disengaged, and the modulus must not be zero
    fault := c.fault || !(c.buffer[c.tail]?).any Option.isNone || c.capacity == 0 }

/-- `*buffer_[header_]` moved out, the slot reset, `header_` and `count_` updated. -/
def popHeader (c : Channel T) : Channel T :=
  { c with
    toRingBuffer := c.toRingBuffer.pop
    fault := c.fault || !(c.buffer[c.header]?).any Option.isSome || c.capacity == 0
      || c.count == 0 }

/-! ## The blocks the operations are made of

The source repeats these blocks by hand: the handoff to a parked receiver in three
operations, the buffered send in three, and the two ways to take a value in three. -/

/-- Pop the front receiver and emplace the value in its awaiter. -/
def handoff (c : Channel T) (rest : List (Handle × ReceiverAwaiter T)) : Channel T :=
  { c with receiverQueue := rest }.statsAdd .directHandoffs

def bufferedSend (c : Channel T) (v : T) : Channel T :=
  (c.pushTail v).statsAdd .bufferPushes

/-- After a pop, let the front parked sender write its value into the ring. -/
def refill (c : Channel T) : Channel T × List (Wake T) :=
  match c.senderQueue with
  | [] => (c, [])
  | (h, a) :: rest =>
    (({ c with senderQueue := rest }.pushTail a.value).statsAdd .bufferPushes, [.sender h a])

/-- Take the value at the header, then refill. -/
def takeBuffered (c : Channel T) : Option T × Channel T × List (Wake T) :=
  let (c', wakes) := (c.popHeader.statsAdd .bufferPops).refill
  (c.front, c', wakes)

/-- Take the value straight from the front parked sender. -/
def takeParked (c : Channel T) (h : Handle) (a : SenderAwaiter T)
    (rest : List (Handle × SenderAwaiter T)) : Option T × Channel T × List (Wake T) :=
  (some a.value, { c with senderQueue := rest }.statsAdd .directHandoffs, [.sender h a])

/-! ## Sending -/

/-- `send(value)`: the fast failure after close; otherwise only an awaiter is built. -/
def send (c : Channel T) (id : Nat) (v : T) : Outcome T (Except Exn (SenderAwaiter T)) :=
  if c.close then ⟨.error channelIsClosed, c.statsAdd .closedFailures, []⟩
  else ⟨.ok { id, value := v }, c, []⟩

end Channel

/-- `SenderAwaiter::await_suspend`. -/
def SenderAwaiter.awaitSuspend {T : Type*} (move : T → Except Exn T) (c : Channel T)
    (handle : Handle) (a : SenderAwaiter T) :
    Outcome T (Except Exn (Await (SenderAwaiter T))) :=
  if c.close then
    ⟨.ok (.ready { a with close := true }), c.statsAdd .closedFailures, []⟩
  else
    match c.receiverQueue with
    | (rh, ra) :: rest =>
      match move a.value with
      | .ok v => ⟨.ok (.ready a), c.handoff rest, [.receiver rh { ra with value := some v }]⟩
      | .error e => ⟨.error e, { c with receiverQueue := rest }, []⟩
    | [] =>
      if !c.isFull then
        match move a.value with
        | .ok v => ⟨.ok (.ready a), c.bufferedSend v, []⟩
        | .error e => ⟨.error e, c, []⟩
      else
        ⟨.ok .suspended,
          { c with senderQueue := c.senderQueue ++ [(handle, a)] }.statsAdd .senderWaits, []⟩

def SenderAwaiter.awaitResume {T : Type*} (a : SenderAwaiter T) : Except Exn Unit :=
  if a.close then .error channelIsClosed else .ok ()

namespace Channel

variable {T : Type*}

/-- `try_send(value)`. -/
def trySend (c : Channel T) (item : Except Exn T) : Outcome T (Except Exn Bool) :=
  if c.close then ⟨.error channelIsClosed, c.statsAdd .closedFailures, []⟩
  else
    match c.receiverQueue with
    | (rh, ra) :: rest =>
      match item with
      | .ok v => ⟨.ok true, c.handoff rest, [.receiver rh { ra with value := some v }]⟩
      | .error e => ⟨.error e, { c with receiverQueue := rest }, []⟩
    | [] =>
      if !c.isFull then
        match item with
        | .ok v => ⟨.ok true, c.bufferedSend v, []⟩
        | .error e => ⟨.error e, c, []⟩
      else ⟨.ok false, c.statsAdd .trySendFullFailures, []⟩

/-- The loop of `try_send_many`: how many items were sent, the exception that left
the loop if one did, and the receivers collected so far. -/
def sendLoop (c : Channel T) :
    List (Item T) → Nat × Option Exn × Channel T × List (Wake T)
  | [] => (0, none, c, [])
  | .iteratorThrows e :: _ => (0, some e, c, [])
  | .value v :: items =>
    match c.receiverQueue with
    | (rh, ra) :: rest =>
      let (sent, e, c', wakes) := (c.handoff rest).sendLoop items
      (sent + 1, e, c', .receiver rh { ra with value := some v } :: wakes)
    | [] =>
      if !c.isFull then
        let (sent, e, c', wakes) := (c.bufferedSend v).sendLoop items
        (sent + 1, e, c', wakes)
      else (0, none, c.statsAdd .trySendFullFailures, [])
  | .constructThrows e :: _ =>
    match c.receiverQueue with
    | _ :: rest => (0, some e, { c with receiverQueue := rest }, [])
    | [] =>
      if !c.isFull then (0, some e, c, [])
      else (0, none, c.statsAdd .trySendFullFailures, [])

/-- `try_send_many(first, last)`. An exception leaves before the collected handles
are rescheduled. -/
def trySendMany (c : Channel T) (items : List (Item T)) : Outcome T (Except Exn Nat) :=
  if items.isEmpty then ⟨.ok 0, c, []⟩
  else if c.close then ⟨.error channelIsClosed, c.statsAdd .closedFailures, []⟩
  else
    match c.sendLoop items with
    | (sent, none, c', wakes) => ⟨.ok sent, c', wakes⟩
    | (_, some e, c', _) => ⟨.error e, c', []⟩

end Channel

/-! ## Receiving -/

/-- `ReceiverAwaiter::await_suspend`. -/
def ReceiverAwaiter.awaitSuspend {T : Type*} (c : Channel T) (handle : Handle)
    (a : ReceiverAwaiter T) : Outcome T (Await (ReceiverAwaiter T)) :=
  if !c.isEmpty then
    let (v, c', wakes) := c.takeBuffered
    ⟨.ready { a with value := v }, c', wakes⟩
  else if c.close then
    ⟨.ready { a with value := none }, c.statsAdd .closedFailures, []⟩
  else
    match c.senderQueue with
    | (sh, sa) :: rest =>
      let (v, c', wakes) := c.takeParked sh sa rest
      ⟨.ready { a with value := v }, c', wakes⟩
    | [] =>
      ⟨.suspended,
        { c with receiverQueue := c.receiverQueue ++ [(handle, a)] }.statsAdd .receiverWaits, []⟩

def ReceiverAwaiter.awaitResume {T : Type*} (a : ReceiverAwaiter T) : Except Exn T :=
  match a.value with
  | some v => .ok v
  | none => .error channelIsClosed

namespace Channel

variable {T : Type*}

/-- `try_receive()`. It looks for a parked sender before it looks at `close_`. -/
def tryReceive (c : Channel T) : Outcome T (Except Exn (Option T)) :=
  if !c.isEmpty then
    let (v, c', wakes) := c.takeBuffered
    ⟨.ok v, c', wakes⟩
  else
    match c.senderQueue with
    | (sh, sa) :: rest =>
      let (v, c', wakes) := c.takeParked sh sa rest
      ⟨.ok v, c', wakes⟩
    | [] =>
      if c.close then ⟨.error channelIsClosed, c.statsAdd .closedFailures, []⟩
      else ⟨.ok none, c.statsAdd .tryReceiveEmptyReturns, []⟩

/-- The loop of `try_receive_many`, with the number of values still wanted. -/
def receiveLoop (c : Channel T) : Nat → List T × Channel T × List (Wake T)
  | 0 => ([], c, [])
  | wanted + 1 =>
    if !c.isEmpty then
      let (v, c', wakes) := c.takeBuffered
      let (vs, c'', more) := c'.receiveLoop wanted
      (v.toList ++ vs, c'', wakes ++ more)
    else
      match c.senderQueue with
      | (sh, sa) :: rest =>
        let (v, c', wakes) := c.takeParked sh sa rest
        let (vs, c'', more) := c'.receiveLoop wanted
        (v.toList ++ vs, c'', wakes ++ more)
      | [] => ([], c, [])

/-- `try_receive_many(max_items)`. -/
def tryReceiveMany (c : Channel T) (maxItems : Nat) : Outcome T (Except Exn (List T)) :=
  if maxItems = 0 then ⟨.ok [], c, []⟩
  else
    let (values, c', wakes) := c.receiveLoop maxItems
    if values.isEmpty && c'.close then
      ⟨.error channelIsClosed, c'.statsAdd .closedFailures, []⟩
    else if values.isEmpty then ⟨.ok values, c'.statsAdd .tryReceiveEmptyReturns, wakes⟩
    else ⟨.ok values, c', wakes⟩

/-- `try_receive_many(max_items)` as called, with the `values.reserve(max_items)` that comes
before the lock. -/
def tryReceiveManyReserved (mem : Allocator) (c : Channel T) (maxItems : Nat) :
    Outcome T (Except Exn (List T)) :=
  if maxItems = 0 then ⟨.ok [], c, []⟩
  else
    match mem.reserve maxItems with
    | .error e => ⟨.error e, c, []⟩
    | .ok _ => c.tryReceiveMany maxItems

/-! ## Closing -/

/-- `close()`: every parked coroutine is released, senders before receivers. -/
def closeChannel (c : Channel T) : Outcome T (Except Exn Unit) :=
  if c.close then ⟨.error (.runtimeError "channel is already closed"), c, []⟩
  else
    let c' := { c with close := true, senderQueue := [], receiverQueue := [] }
    ⟨.ok (),
      ((c'.statsAdd .closeCalls).statsAdd .closeWakeSenders c.senderQueue.length.toUInt64).statsAdd
        .closeWakeReceivers c.receiverQueue.length.toUInt64,
      c.senderQueue.map (fun p => .sender p.1 { p.2 with close := true }) ++
        c.receiverQueue.map fun p => .receiver p.1 p.2⟩

end Channel

end TinyCoroutine
