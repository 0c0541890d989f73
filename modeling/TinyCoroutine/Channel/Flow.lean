import TinyCoroutine.Channel.Invariant
import Mathlib.Data.List.Nodup

/-!
# The operations of a channel and what they show

What one operation shows to its clients is computed from its result and the awaiters it wakes,
never from the branch it took. `Transfer` is the conservation law of one operation: what was
stored or parked, together with what it accepted, is what it gave away together with what is
stored or parked afterwards. The laws of single values compose along the batch loops.
-/
namespace TinyCoroutine.Channel

open Foundation

variable {T : Type*}

/-- Who asked for a value: a `co_await receive()` by its awaiter, or a `try_` call. -/
inductive Request where
  | awaiter (id : Nat)
  | call
  deriving DecidableEq, Repr

/-- The operations on a channel whose payload does not throw. Awaiters are fresh:
each is awaited once. -/
inductive Op (T : Type*) where
  | send (id : Nat) (v : T)
  | awaitSend (handle : Handle) (id : Nat) (v : T)
  | trySend (v : T)
  | trySendMany (vs : List T)
  | awaitReceive (handle : Handle) (id : Nat)
  | tryReceive
  | tryReceiveMany (maxItems : Nat)
  | close

/-! ## What an operation shows -/

/-- What one operation shows to its clients. An accepted value is tagged with its
awaiter, if it has one. -/
structure Flow (T : Type*) where
  accepted : List (Option Nat × T) := []
  given : List (Request × T) := []
  arrived : List Request := []

def Flow.append (f g : Flow T) : Flow T :=
  ⟨f.accepted ++ g.accepted, f.given ++ g.given, f.arrived ++ g.arrived⟩

/-- The values found in the awaiters of woken receivers. -/
def handedOver (wakes : List (Wake T)) : List (Request × T) :=
  wakes.filterMap fun
    | .receiver _ a => a.value.map fun v => (.awaiter a.id, v)
    | .sender _ _ => none

/-- The senders woken with the closed flag: their values are withdrawn. -/
def withdrawn (wakes : List (Wake T)) : List Nat :=
  wakes.filterMap fun
    | .sender _ a => if a.close then some a.id else none
    | .receiver _ _ => none

/-- The receivers woken without a value: they fail as closed. -/
def failed (wakes : List (Wake T)) : List Nat :=
  wakes.filterMap fun
    | .receiver _ a => if a.value.isNone then some a.id else none
    | .sender _ _ => none

/-- Run one operation: the channel it leaves, what it shows, whom it wakes. -/
def Op.run (c : Channel T) : Op T → Channel T × Flow T × List (Wake T)
  | .send id v => ((c.send id v).channel, {}, (c.send id v).wakes)
  | .awaitSend handle id v =>
    let o := SenderAwaiter.awaitSuspend .ok c handle { id, value := v }
    (o.channel,
      { accepted := match o.result with
          | .ok (.ready a) => if a.close then [] else [(some id, v)]
          | .ok .suspended => [(some id, v)]
          | .error _ => []
        given := handedOver o.wakes }, o.wakes)
  | .trySend v =>
    let o := c.trySend (.ok v)
    (o.channel,
      { accepted := match o.result with
          | .ok true => [(none, v)]
          | _ => []
        given := handedOver o.wakes }, o.wakes)
  | .trySendMany vs =>
    let o := c.trySendMany (vs.map .value)
    (o.channel,
      { accepted := match o.result with
          | .ok sent => (vs.take sent).map fun v => (none, v)
          | .error _ => []
        given := handedOver o.wakes }, o.wakes)
  | .awaitReceive handle id =>
    let o := ReceiverAwaiter.awaitSuspend c handle { id }
    (o.channel,
      match o.result with
      | .suspended => { arrived := [.awaiter id], given := handedOver o.wakes }
      | .ready a =>
        { arrived := a.value.toList.map fun _ => .awaiter id
          given := handedOver o.wakes ++ a.value.toList.map fun v => (.awaiter id, v) },
      o.wakes)
  | .tryReceive =>
    let o := c.tryReceive
    let values := match o.result with
      | .ok v => v.toList
      | .error _ => []
    (o.channel,
      { arrived := values.map fun _ => .call
        given := handedOver o.wakes ++ values.map fun v => (.call, v) }, o.wakes)
  | .tryReceiveMany maxItems =>
    let o := c.tryReceiveMany maxItems
    let values := match o.result with
      | .ok vs => vs
      | .error _ => []
    (o.channel,
      { arrived := values.map fun _ => .call
        given := handedOver o.wakes ++ values.map fun v => (.call, v) }, o.wakes)
  | .close => (c.closeChannel.channel, {}, c.closeChannel.wakes)

/-! ## Conservation -/

def parkedSends (c : Channel T) : List (Option Nat × T) :=
  c.senderQueue.map fun p => (some p.2.id, p.2.value)

def parkedRequests (c : Channel T) : List Request :=
  c.receiverQueue.map fun p => .awaiter p.2.id

/-- The conservation law. `settled` are the parked or accepted sends whose values
leave the sender side in this operation. -/
structure Transfer (c : Channel T) (xs : List T) (f : Flow T) (c' : Channel T) (xs' : List T) :
    Prop where
  wellFormed : c'.WellFormed xs'
  close : c'.close = c.close
  sends : ∃ settled, parkedSends c ++ f.accepted = settled ++ parkedSends c' ∧
    xs ++ settled.map Prod.snd = f.given.map Prod.snd ++ xs'
  requests : parkedRequests c ++ f.arrived = f.given.map Prod.fst ++ parkedRequests c'

theorem Transfer.refl {c : Channel T} {xs : List T} (h : c.WellFormed xs) :
    Transfer c xs {} c xs := ⟨h, rfl, ⟨[], by simp⟩, by simp⟩

theorem Transfer.trans {c d e : Channel T} {xs ys zs : List T} {f g : Flow T}
    (h : Transfer c xs f d ys) (k : Transfer d ys g e zs) :
    Transfer c xs (f.append g) e zs := by
  obtain ⟨p, hp, hpv⟩ := h.sends
  obtain ⟨q, hq, hqv⟩ := k.sends
  refine ⟨k.wellFormed, k.close.trans h.close, ⟨p ++ q, ?_, ?_⟩, ?_⟩
  · rw [Flow.append, ← List.append_assoc, hp, List.append_assoc, hq, List.append_assoc]
  · rw [List.map_append, ← List.append_assoc, hpv, List.append_assoc, hqv, Flow.append,
      List.map_append, List.append_assoc]
  · rw [Flow.append, ← List.append_assoc, h.requests, List.append_assoc, k.requests,
      List.map_append, List.append_assoc]

/-- Statistics do not take part in a transfer. -/
theorem Transfer.statsAdd {c c' : Channel T} {xs xs' : List T} {f : Flow T} (k : Counter)
    (d : UInt64) (h : Transfer c xs f c' xs') : Transfer c xs f (c'.statsAdd k d) xs' := by
  refine ⟨(statsAdd_wellFormed k d).mpr h.wellFormed, by simpa using h.close, ?_, ?_⟩
  · simpa [parkedSends] using h.sends
  · simpa [parkedRequests] using h.requests

section Blocks

variable {c : Channel T} {xs : List T}

theorem transfer_handoff {rh : Handle} {ra : ReceiverAwaiter T}
    {rest : List (Handle × ReceiverAwaiter T)} (h : c.WellFormed xs)
    (hr : c.receiverQueue = (rh, ra) :: rest) (tag : Option Nat) (v : T) :
    Transfer c xs ⟨[(tag, v)], [(.awaiter ra.id, v)], []⟩ (c.handoff rest) xs := by
  have hxs : xs = [] := h.nil_of_count (h.receivers (by simp [hr]))
  have hsender : c.senderQueue = [] := by
    by_contra hne
    have := (h.senders hne).2
    simp [hr] at this
  refine ⟨h.handoff hr, by simp [handoff], ⟨[(tag, v)], ?_, by simp [hxs]⟩, ?_⟩
  · simp [parkedSends, handoff, hsender]
  · simp [parkedRequests, handoff, hr]

theorem transfer_bufferedSend (h : c.WellFormed xs) (hr : c.receiverQueue = [])
    (hfull : c.isFull = false) (tag : Option Nat) (v : T) :
    Transfer c xs ⟨[(tag, v)], [], []⟩ (c.bufferedSend v) (xs ++ [v]) := by
  have hsender : c.senderQueue = [] := by
    by_contra hne
    exact isFull_eq_false.mp hfull (h.senders hne).1
  refine ⟨h.bufferedSend hr hfull v, by simp [bufferedSend, pushTail], ⟨[(tag, v)], ?_, by simp⟩,
    ?_⟩
  · simp [parkedSends, bufferedSend, pushTail, hsender]
  · simp [parkedRequests, bufferedSend, pushTail, hr]

theorem transfer_takeBuffered {x : T} (h : c.WellFormed (x :: xs)) (q : Request) :
    Transfer c (x :: xs) ⟨[], [(q, x)], [q]⟩ c.takeBuffered.2.1
      (xs ++ (c.senderQueue.map fun p => p.2.value).take 1) := by
  obtain ⟨-, hwf, hs, hr, hc, -⟩ := h.takeBuffered
  have hreceiver : c.receiverQueue = [] := by
    by_contra hne
    have := h.receivers hne
    simp [h.count] at this
  refine ⟨hwf, hc, ⟨(parkedSends c).take 1, ?_, ?_⟩, ?_⟩
  · simp only [parkedSends, hs, List.map_tail, List.append_nil]
    cases c.senderQueue <;> simp
  · simp [parkedSends, List.map_take, Function.comp_def]
  · simp [parkedRequests, hr, hreceiver]

theorem transfer_takeParked {sh : Handle} {sa : SenderAwaiter T}
    {rest : List (Handle × SenderAwaiter T)} (h : c.WellFormed [])
    (hs : c.senderQueue = (sh, sa) :: rest) (q : Request) :
    Transfer c [] ⟨[], [(q, sa.value)], [q]⟩ (c.takeParked sh sa rest).2.1 [] := by
  have hreceiver := (h.senders (by simp [hs])).2
  refine ⟨h.takeParked hs, by simp [takeParked], ⟨[(some sa.id, sa.value)], ?_, by simp⟩, ?_⟩
  · simp [parkedSends, takeParked, hs]
  · simp [parkedRequests, takeParked, hreceiver]

theorem transfer_parkSender (h : c.WellFormed xs) (hopen : c.close = false)
    (hr : c.receiverQueue = []) (hfull : c.isFull = true) (handle : Handle) (id : Nat) (v : T) :
    Transfer c xs ⟨[(some id, v)], [], []⟩
      { c with senderQueue := c.senderQueue ++ [(handle, { id, value := v })] } xs := by
  refine ⟨h.parkSender hopen hr hfull handle rfl, rfl, ⟨[], ?_, by simp⟩, ?_⟩
  · simp [parkedSends]
  · simp [parkedRequests]

theorem transfer_parkReceiver (h : c.WellFormed xs) (hopen : c.close = false)
    (hs : c.senderQueue = []) (hempty : c.isEmpty = true) (handle : Handle) (id : Nat) :
    Transfer c xs ⟨[], [], [.awaiter id]⟩
      { c with receiverQueue := c.receiverQueue ++ [(handle, { id })] } xs := by
  refine ⟨h.parkReceiver hopen hs hempty handle rfl, rfl, ⟨[], ?_, by simp⟩, ?_⟩
  · simp [parkedSends]
  · simp [parkedRequests]

/-- Nobody woken here has been refused. -/
def Benign (wakes : List (Wake T)) : Prop := withdrawn wakes = [] ∧ failed wakes = []

theorem Benign.nil : Benign ([] : List (Wake T)) := ⟨rfl, rfl⟩

theorem Benign.append {u v : List (Wake T)} (hu : Benign u) (hv : Benign v) : Benign (u ++ v) := by
  obtain ⟨h1, h2⟩ := hu
  obtain ⟨h3, h4⟩ := hv
  simp only [Benign, withdrawn, failed, List.filterMap_append] at *
  exact ⟨by rw [h1, h3]; rfl, by rw [h2, h4]; rfl⟩

theorem benign_receiver (rh : Handle) (ra : ReceiverAwaiter T) (v : T) :
    Benign [.receiver rh { ra with value := some v }] := ⟨rfl, rfl⟩

theorem benign_senders {l : List (Handle × SenderAwaiter T)} (h : ∀ p ∈ l, p.2.close = false) :
    Benign (l.map fun p => Wake.sender p.1 p.2) := by
  refine ⟨?_, ?_⟩
  · simp only [withdrawn, List.filterMap_map, List.filterMap_eq_nil_iff, Function.comp_apply]
    intro p hp
    simp [h p hp]
  · simp [failed, List.filterMap_map]

@[simp] theorem handedOver_senders (l : List (Handle × SenderAwaiter T)) :
    handedOver (l.map fun p => Wake.sender p.1 p.2) = [] := by
  simp [handedOver, List.filterMap_map]

@[simp] theorem handedOver_append (u v : List (Wake T)) :
    handedOver (u ++ v) = handedOver u ++ handedOver v := by simp [handedOver]

/-! ## The loops and the operations -/

theorem transfer_sendLoop {c : Channel T} {xs : List T} (h : c.WellFormed xs) (vs : List T) :
    (c.sendLoop (vs.map .value)).2.1 = none ∧ Benign (c.sendLoop (vs.map .value)).2.2.2 ∧
      ∃ xs', Transfer c xs
        ⟨(vs.take (c.sendLoop (vs.map .value)).1).map fun v => (none, v),
          handedOver (c.sendLoop (vs.map .value)).2.2.2, []⟩
        (c.sendLoop (vs.map .value)).2.2.1 xs' := by
  induction vs generalizing c xs with
  | nil => exact ⟨rfl, .nil, xs, .refl h⟩
  | cons v vs ih =>
    cases hr : c.receiverQueue with
    | cons r rest =>
      obtain ⟨rh, ra⟩ := r
      obtain ⟨hexn, hben, xs', htr⟩ := ih (h.handoff hr)
      have hhead := transfer_handoff h hr none v
      simp only [List.map_cons, sendLoop, hr]
      refine ⟨hexn, (benign_receiver rh ra v).append hben, xs', ?_⟩
      simpa [Flow.append, handedOver] using hhead.trans htr
    | nil =>
      cases hfull : c.isFull with
      | false =>
        obtain ⟨hexn, hben, xs', htr⟩ := ih (h.bufferedSend hr hfull v)
        have hhead := transfer_bufferedSend h hr hfull none v
        simp only [List.map_cons, sendLoop, hr, hfull, Bool.not_false, if_true]
        refine ⟨hexn, hben, xs', ?_⟩
        simpa [Flow.append] using hhead.trans htr
      | true =>
        simp only [List.map_cons, sendLoop, hr, hfull, Bool.not_true, Bool.false_eq_true, if_false]
        exact ⟨trivial, .nil, xs, (Transfer.refl h).statsAdd _ _⟩

theorem transfer_receiveLoop {c : Channel T} {xs : List T} (h : c.WellFormed xs) (n : Nat) :
    Benign (c.receiveLoop n).2.2 ∧ handedOver (c.receiveLoop n).2.2 = [] ∧
      ∃ xs', Transfer c xs
        ⟨[], (c.receiveLoop n).1.map fun v => (.call, v), (c.receiveLoop n).1.map fun _ => .call⟩
        (c.receiveLoop n).2.1 xs' := by
  induction n generalizing c xs with
  | zero => exact ⟨.nil, rfl, xs, .refl h⟩
  | succ n ih =>
    cases hempty : c.isEmpty with
    | false =>
      obtain ⟨x, rest, rfl⟩ := h.cons_of_count (isEmpty_eq_false.mp hempty)
      obtain ⟨hv, hwf, -, -, -, hwakes⟩ := h.takeBuffered
      obtain ⟨hben, hover, xs', htr⟩ := ih hwf
      have hhead := transfer_takeBuffered h .call
      have hbenign : Benign c.takeBuffered.2.2 := by
        rw [hwakes]
        exact benign_senders fun p hp => h.sending p (List.mem_of_mem_take hp)
      simp only [receiveLoop, hempty, Bool.not_false, if_true, hv]
      refine ⟨hbenign.append hben, ?_, xs', ?_⟩
      · rw [handedOver_append, hwakes, handedOver_senders, hover, List.nil_append]
      · simpa [Flow.append] using hhead.trans htr
    | true =>
      obtain rfl : xs = [] := h.nil_of_count (by simpa [isEmpty] using hempty)
      cases hs : c.senderQueue with
      | nil =>
        simp only [receiveLoop, hempty, Bool.not_true, Bool.false_eq_true, if_false, hs]
        exact ⟨.nil, rfl, [], .refl h⟩
      | cons p rest =>
        obtain ⟨sh, sa⟩ := p
        obtain ⟨hben, hover, xs', htr⟩ := ih (h.takeParked hs)
        have hhead := transfer_takeParked h hs .call
        have hbenign : Benign (c.takeParked sh sa rest).2.2 :=
          benign_senders (l := [(sh, sa)]) fun p hp => h.sending p (by simp_all)
        simp only [receiveLoop, hempty, Bool.not_true, Bool.false_eq_true, if_false, hs]
        refine ⟨hbenign.append hben, by simpa [takeParked, handedOver] using hover, xs', ?_⟩
        simpa [Flow.append, takeParked] using hhead.trans htr

end Blocks

end TinyCoroutine.Channel
