import TinyCoroutine.Channel.Waiting

/-!
# What the clients of a channel are told

Every send and every receive ends with an outcome: the result of a `try_` call, or what
`await_resume` makes of the awaiter. A critical section fixes the outcomes of its own call,
unless it parks, and of the coroutines it wakes. The laws of this file say that each awaiter
gets one outcome or stays parked, that the values received are those the log calls given,
and that the sends told to have succeeded are the accepted ones that are not parked.
-/
namespace TinyCoroutine.Channel

variable {T : Type*}

/-- How a send can end: `full` is the `false` of `try_send`, and what becomes of the items
`try_send_many` does not get to. -/
inductive SendResult where
  | done
  | full
  | failed (e : Exn)
  deriving DecidableEq, Repr

def SendResult.ofExcept : Except Exn Unit → SendResult
  | .ok _ => .done
  | .error e => .failed e

@[simp] theorem SendResult.ofExcept_ok : ofExcept (.ok ()) = .done := rfl
@[simp] theorem SendResult.ofExcept_error (e : Exn) : ofExcept (.error e) = .failed e := rfl

/-- The outcome of a send, with its awaiter if it has one. -/
abbrev SendReport (T : Type*) := (Option Nat × T) × SendResult

/-- The outcome of a receive. -/
abbrev ReceiveReport (T : Type*) := Request × Except Exn T

/-- The outcomes of the senders that are woken. -/
def sendOutcomes (wakes : List (Wake T)) : List (SendReport T) :=
  wakes.filterMap fun
    | .sender _ a => some ((some a.id, a.value), .ofExcept a.awaitResume)
    | .receiver _ _ => none

/-- The outcomes of the receivers that are woken. -/
def receiveOutcomes (wakes : List (Wake T)) : List (ReceiveReport T) :=
  wakes.filterMap fun
    | .receiver _ a => some (.awaiter a.id, a.awaitResume)
    | .sender _ _ => none

/-- The outcomes of the sends of the call itself. -/
def Op.ownSends (c : Channel T) : Op T → List (SendReport T)
  | .send id v =>
    match (c.send id v).result with
    | .ok _ => []
    | .error e => [((none, v), .failed e)]
  | .awaitSend handle id v =>
    match (SenderAwaiter.awaitSuspend .ok c handle { id, value := v }).result with
    | .ok (.ready a) => [((some id, v), .ofExcept a.awaitResume)]
    | .ok .suspended => []
    | .error e => [((some id, v), .failed e)]
  | .trySend v =>
    match (c.trySend (.ok v)).result with
    | .ok true => [((none, v), .done)]
    | .ok false => [((none, v), .full)]
    | .error e => [((none, v), .failed e)]
  | .trySendMany vs =>
    match (c.trySendMany (vs.map .value)).result with
    | .ok sent => (vs.take sent).map (fun v => ((none, v), .done)) ++
        (vs.drop sent).map fun v => ((none, v), .full)
    | .error e => vs.map fun v => ((none, v), .failed e)
  | _ => []

/-- The outcomes of the receives of the call itself. -/
def Op.ownReceives (c : Channel T) : Op T → List (ReceiveReport T)
  | .awaitReceive handle id =>
    match (ReceiverAwaiter.awaitSuspend c handle { id }).result with
    | .ready a => [(.awaiter id, a.awaitResume)]
    | .suspended => []
  | .tryReceive =>
    match c.tryReceive.result with
    | .ok v => v.toList.map fun v => (.call, .ok v)
    | .error e => [(.call, .error e)]
  | .tryReceiveMany maxItems =>
    match (c.tryReceiveMany maxItems).result with
    | .ok vs => vs.map fun v => (.call, .ok v)
    | .error e => [(.call, .error e)]
  | _ => []

def Op.sendReports (c : Channel T) (op : Op T) : List (SendReport T) :=
  op.ownSends c ++ sendOutcomes (op.run c).2.2

def Op.receiveReports (c : Channel T) (op : Op T) : List (ReceiveReport T) :=
  receiveOutcomes (op.run c).2.2 ++ op.ownReceives c

/-- The sends that succeeded. -/
def sent (reports : List (SendReport T)) : List (Option Nat × T) :=
  reports.filterMap fun
    | (send, .done) => some send
    | _ => none

/-- The receives that succeeded, with their values. -/
def received (reports : List (ReceiveReport T)) : List (Request × T) :=
  reports.filterMap fun
    | (q, .ok v) => some (q, v)
    | (_, .error _) => none

def reportedSenders (reports : List (SendReport T)) : List Nat := reports.filterMap fun r => r.1.1

def reportedReceivers (reports : List (ReceiveReport T)) : List Nat :=
  reports.filterMap fun r => r.1.tag

def parkedSenders (c : Channel T) : List Nat := c.senderQueue.map fun p => p.2.id

def parkedReceivers (c : Channel T) : List Nat := c.receiverQueue.map fun p => p.2.id

section

variable (l m : List (SendReport T)) (q r : List (ReceiveReport T)) (u w : List (Wake T))

@[simp] theorem sent_append : sent (l ++ m) = sent l ++ sent m := List.filterMap_append ..
@[simp] theorem received_append : received (q ++ r) = received q ++ received r :=
  List.filterMap_append ..
@[simp] theorem reportedSenders_append :
    reportedSenders (l ++ m) = reportedSenders l ++ reportedSenders m := List.filterMap_append ..
@[simp] theorem reportedReceivers_append :
    reportedReceivers (q ++ r) = reportedReceivers q ++ reportedReceivers r :=
  List.filterMap_append ..
@[simp] theorem sendOutcomes_append :
    sendOutcomes (u ++ w) = sendOutcomes u ++ sendOutcomes w := List.filterMap_append ..
@[simp] theorem receiveOutcomes_append :
    receiveOutcomes (u ++ w) = receiveOutcomes u ++ receiveOutcomes w := List.filterMap_append ..

/-- A woken receiver is told the value that is in its awaiter. -/
theorem received_receiveOutcomes (wakes : List (Wake T)) :
    received (receiveOutcomes wakes) = handedOver wakes := by
  rw [received, receiveOutcomes, handedOver, List.filterMap_filterMap]
  refine List.filterMap_congr fun w _ => ?_
  cases w with
  | sender => rfl
  | receiver h a => cases hv : a.value <;> simp [ReceiverAwaiter.awaitResume, hv]

end

/-- Senders that are woken with an open channel have succeeded. -/
theorem sent_senders {l : List (Handle × SenderAwaiter T)} (h : ∀ p ∈ l, p.2.close = false) :
    sent (sendOutcomes (l.map fun p => Wake.sender p.1 p.2)) =
      l.map fun p => (some p.2.id, p.2.value) := by
  induction l with
  | nil => rfl
  | cons p l ih =>
    have hp : p.2.awaitResume = .ok () := by
      simp [SenderAwaiter.awaitResume, h p List.mem_cons_self]
    have hrest := ih fun r hr => h r (List.mem_cons_of_mem _ hr)
    simp only [List.map_cons, sendOutcomes, List.filterMap_cons, sent, hp, SendResult.ofExcept]
    exact congrArg _ hrest

@[simp] theorem receiveOutcomes_senders (l : List (Handle × SenderAwaiter T)) :
    receiveOutcomes (l.map fun p => Wake.sender p.1 p.2) = [] := by
  simp [receiveOutcomes, List.filterMap_map]

theorem reportedSenders_outcomes (wakes : List (Wake T)) :
    reportedSenders (sendOutcomes wakes) = (wokenSenders wakes).map Prod.snd := by
  rw [reportedSenders, sendOutcomes, wokenSenders, List.filterMap_filterMap, List.map_filterMap]
  refine List.filterMap_congr fun w _ => ?_
  cases w <;> rfl

theorem reportedReceivers_outcomes (wakes : List (Wake T)) :
    reportedReceivers (receiveOutcomes wakes) = (wokenReceivers wakes).map Prod.snd := by
  rw [reportedReceivers, receiveOutcomes, wokenReceivers, List.filterMap_filterMap,
    List.map_filterMap]
  refine List.filterMap_congr fun w _ => ?_
  cases w <;> rfl

@[simp] theorem reportedSenders_values (vs : List T) (r : SendResult) :
    reportedSenders (vs.map fun v => ((none, v), r)) = [] := by
  simp [reportedSenders, List.filterMap_map]

@[simp] theorem reportedReceivers_values (vs : List T) :
    reportedReceivers (vs.map fun v => (Request.call, Except.ok v)) = [] := by
  simp [reportedReceivers, List.filterMap_map, Request.tag]

/-- A call has an outcome of its own, or parks. -/
theorem own_senders (c : Channel T) (op : Op T) :
    reportedSenders (op.ownSends c) ++ (op.parksSender c).map Prod.snd = op.sendTags := by
  cases op with
  | send id v =>
    cases hr : (c.send id v).result <;>
      simp [Op.ownSends, Op.parksSender, Op.sendTags, hr, reportedSenders]
  | awaitSend handle id v =>
    rcases hr : (SenderAwaiter.awaitSuspend .ok c handle { id, value := v }).result with e | (- | a)
      <;> simp [Op.ownSends, Op.parksSender, Op.sendTags, hr, reportedSenders]
  | trySend v =>
    simp only [Op.ownSends, Op.parksSender, Op.sendTags]
    split <;> simp [reportedSenders]
  | trySendMany vs =>
    simp only [Op.ownSends, Op.parksSender, Op.sendTags]
    split <;> simp only [reportedSenders_append, reportedSenders_values] <;> rfl
  | _ => rfl

theorem own_receivers (c : Channel T) (op : Op T) :
    reportedReceivers (op.ownReceives c) ++ (op.parksReceiver c).map Prod.snd =
      op.requestTags := by
  cases op with
  | awaitReceive handle id =>
    cases hr : (ReceiverAwaiter.awaitSuspend c handle { id }).result <;>
      simp [Op.ownReceives, Op.parksReceiver, Op.requestTags, hr, reportedReceivers, Request.tag]
  | tryReceive =>
    simp only [Op.ownReceives, Op.parksReceiver, Op.requestTags]
    split <;> simp [reportedReceivers, Request.tag]
  | tryReceiveMany maxItems =>
    simp only [Op.ownReceives, Op.parksReceiver, Op.requestTags]
    split
    · simp
    · simp [reportedReceivers, Request.tag]
  | _ => rfl

/-- Each awaiter is told or parked: those told of, and those that are parked, are those that
were parked and the one that is awaited. -/
theorem Op.Queues.told {op : Op T} {c : Channel T} (h : op.Queues c) :
    (reportedSenders (op.sendReports c) ++ parkedSenders (op.run c).1).Perm
        (parkedSenders c ++ op.sendTags) ∧
      (reportedReceivers (op.receiveReports c) ++ parkedReceivers (op.run c).1).Perm
        (parkedReceivers c ++ op.requestTags) := by
  have hs : ∀ c : Channel T, parkedSenders c = (waitingSenders c).map Prod.snd := by
    intro c
    simp [parkedSenders, waitingSenders]
  have hr : ∀ c : Channel T, parkedReceivers c = (waitingReceivers c).map Prod.snd := by
    intro c
    simp [parkedReceivers, waitingReceivers]
  have hsenders := congrArg (List.map Prod.snd) h.senders
  have hreceivers := congrArg (List.map Prod.snd) h.receivers
  simp only [List.map_append, ← hs, ← hr] at hsenders hreceivers
  constructor
  · rw [Op.sendReports, reportedSenders_append, reportedSenders_outcomes, List.append_assoc,
      ← hsenders, ← own_senders c op]
    exact List.perm_append_comm_assoc _ _ _
  · rw [Op.receiveReports, reportedReceivers_append, reportedReceivers_outcomes,
      ← own_receivers c op]
    calc
      (_ ++ reportedReceivers (op.ownReceives c) ++ parkedReceivers (op.run c).1).Perm
          (reportedReceivers (op.ownReceives c) ++ _ ++ parkedReceivers (op.run c).1) :=
        List.perm_append_comm.append_right _
      _ = reportedReceivers (op.ownReceives c) ++
          (parkedReceivers c ++ (op.parksReceiver c).map Prod.snd) := by
        rw [List.append_assoc, hreceivers]
      _ |>.Perm _ := List.perm_append_comm_assoc _ _ _

/-- What an operation tells agrees with the log. -/
structure Op.Tells (op : Op T) (c : Channel T) : Prop where
  settles : parkedSends c ++ (op.run c).2.1.accepted =
    sent (op.sendReports c) ++ parkedSends (op.run c).1
  gives : (op.run c).2.1.given = received (op.receiveReports c)

section

variable {c : Channel T} {xs : List T}

@[simp] theorem parkedSends_statsAdd (k : Counter) (d : UInt64) :
    parkedSends (c.statsAdd k d) = parkedSends c := by simp [parkedSends]

/-- An operation that has no receives of its own gives what its wakes carry. -/
theorem gives_of_wakes {op : Op T} (hown : op.ownReceives c = [])
    (hgiven : (op.run c).2.1.given = handedOver (op.run c).2.2) :
    (op.run c).2.1.given = received (op.receiveReports c) := by
  rw [hgiven, Op.receiveReports, hown, List.append_nil, received_receiveOutcomes]

theorem tells_send (id : Nat) (v : T) : (Op.send id v).Tells c := by
  cases hc : c.close <;> constructor <;>
    simp [Op.run, Op.sendReports, Op.receiveReports, Op.ownSends, Op.ownReceives, send, hc, sent,
      received, sendOutcomes, receiveOutcomes]

theorem senderQueue_of_receiver {r : Handle × ReceiverAwaiter T}
    {rest : List (Handle × ReceiverAwaiter T)} (h : c.WellFormed xs)
    (hr : c.receiverQueue = r :: rest) : c.senderQueue = [] := by
  by_contra hne
  have := (h.senders hne).2
  simp [hr] at this

theorem senderQueue_of_space (h : c.WellFormed xs) (hfull : c.isFull = false) :
    c.senderQueue = [] := by
  by_contra hne
  exact isFull_eq_false.mp hfull (h.senders hne).1

theorem tells_awaitSend (h : c.WellFormed xs) (handle : Handle) (id : Nat) (v : T) :
    (Op.awaitSend handle id v).Tells c := by
  refine ⟨?_, gives_of_wakes rfl rfl⟩
  cases hc : c.close with
  | true =>
    simp [Op.run, Op.sendReports, Op.ownSends, SenderAwaiter.awaitSuspend,
      SenderAwaiter.awaitResume, hc, sent, sendOutcomes]
  | false =>
    cases hr : c.receiverQueue with
    | cons r rest =>
      simp [Op.run, Op.sendReports, Op.ownSends, SenderAwaiter.awaitSuspend,
        SenderAwaiter.awaitResume, hc, hr, senderQueue_of_receiver h hr, handoff, sent,
        sendOutcomes, parkedSends]
    | nil =>
      cases hfull : c.isFull with
      | false =>
        simp [Op.run, Op.sendReports, Op.ownSends, SenderAwaiter.awaitSuspend,
          SenderAwaiter.awaitResume, hc, hr, hfull, senderQueue_of_space h hfull, bufferedSend,
          pushTail, sent, sendOutcomes, parkedSends]
      | true =>
        simp [Op.run, Op.sendReports, Op.ownSends, SenderAwaiter.awaitSuspend, hc, hr, hfull, sent,
          sendOutcomes, parkedSends]

theorem tells_trySend (h : c.WellFormed xs) (v : T) : (Op.trySend v).Tells c := by
  refine ⟨?_, gives_of_wakes rfl rfl⟩
  cases hc : c.close with
  | true => simp [Op.run, Op.sendReports, Op.ownSends, trySend, hc, sent, sendOutcomes]
  | false =>
    cases hr : c.receiverQueue with
    | cons r rest =>
      simp [Op.run, Op.sendReports, Op.ownSends, trySend, hc, hr, senderQueue_of_receiver h hr,
        handoff, sent, sendOutcomes, parkedSends]
    | nil =>
      cases hfull : c.isFull with
      | false =>
        simp [Op.run, Op.sendReports, Op.ownSends, trySend, hc, hr, hfull,
          senderQueue_of_space h hfull, bufferedSend, pushTail, sent, sendOutcomes, parkedSends]
      | true =>
        simp [Op.run, Op.sendReports, Op.ownSends, trySend, hc, hr, hfull, sent, sendOutcomes]

/-- With senders parked a batch send sends nothing. -/
theorem sendLoop_parked (h : c.WellFormed xs) (vs : List T) :
    (c.sendLoop (vs.map .value)).1 = 0 ∨ c.senderQueue = [] := by
  cases vs with
  | nil => exact .inl rfl
  | cons v vs =>
    cases hr : c.receiverQueue with
    | cons r rest => exact .inr (senderQueue_of_receiver h hr)
    | nil =>
      cases hfull : c.isFull with
      | false => exact .inr (senderQueue_of_space h hfull)
      | true =>
        left
        simp [sendLoop, hr, hfull]

theorem sent_done (vs : List T) :
    sent (vs.map fun v => ((none, v), .done)) = vs.map fun v => (none, v) := by
  simp [sent, List.filterMap_map]

theorem sent_full (vs : List T) : sent (vs.map fun v => ((none, v), .full)) = [] := by
  simp [sent, List.filterMap_map]

theorem sendOutcomes_of_wokenSenders {wakes : List (Wake T)} (h : wokenSenders wakes = []) :
    sendOutcomes wakes = [] := by
  rw [sendOutcomes, List.filterMap_eq_nil_iff]
  rw [wokenSenders, List.filterMap_eq_nil_iff] at h
  intro w hw
  cases w with
  | receiver => rfl
  | sender handle a => cases h _ hw

theorem tells_trySendMany (h : c.WellFormed xs) (vs : List T) : (Op.trySendMany vs).Tells c := by
  refine ⟨?_, gives_of_wakes rfl rfl⟩
  cases vs with
  | nil => simp [Op.run, Op.sendReports, Op.ownSends, trySendMany, sent, sendOutcomes]
  | cons v vs =>
    cases hc : c.close with
    | true =>
      simp [Op.run, Op.sendReports, Op.ownSends, trySendMany, hc, sent, sendOutcomes]
    | false =>
      obtain ⟨hexn, -, -⟩ := transfer_sendLoop h (v :: vs)
      obtain ⟨hsame, hnone, -⟩ := queues_sendLoop c (v :: vs)
      have hmany := trySendMany_eq hc hexn
      have hsends : parkedSends (c.sendLoop ((v :: vs).map .value)).2.2.1 = parkedSends c := by
        rw [parkedSends, hsame, parkedSends]
      simp only [Op.run, Op.sendReports, Op.ownSends, hmany, sent_append, sent_done, sent_full,
        sendOutcomes_of_wokenSenders hnone, hsends]
      rcases sendLoop_parked h (v :: vs) with hz | hq
      · rw [hz]
        simp [sent]
      · simp [parkedSends, hq, sent]

end

end TinyCoroutine.Channel
