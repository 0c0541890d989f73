import TinyCoroutine.Channel.Operations
import TinyCoroutine.Channel.Reported

/-!
# What the clients are told when a call can be disturbed

The reports and the log are about operations in which nothing throws. A session is a channel
under all its operations, with the outcome of every call: a value, an iterator or a reservation
of memory may throw out of the middle of one. An operation that nothing disturbs is one of those
the log accounts for.
-/
namespace TinyCoroutine.Channel

open Foundation

variable {T : Type*}

def Item.value? : Item T → Option T
  | .value v => some v
  | _ => none

def Operation.sendTags : Operation T → List Nat
  | .op o => o.sendTags
  | .awaitSendThrows _ id _ _ => [id]
  | _ => []

def Operation.requestTags : Operation T → List Nat
  | .op o => o.requestTags
  | _ => []

/-- The outcomes of the sends of the call itself. Where no `T` could be constructed there is no
value to report on. -/
def Operation.ownSends (c : Channel T) : Operation T → List (SendReport T)
  | .op o => o.ownSends c
  | .awaitSendThrows handle id v e =>
    match (SenderAwaiter.awaitSuspend (fun _ => .error e) c handle { id, value := v }).result with
    | .ok (.ready a) => [((some id, v), .ofExcept a.awaitResume)]
    | .ok .suspended => []
    | .error e => [((some id, v), .failed e)]
  | .trySendMany items =>
    match (c.trySendMany items).result with
    | .ok sent => ((items.take sent).filterMap Item.value?).map (fun v => ((none, v), .done)) ++
        ((items.drop sent).filterMap Item.value?).map fun v => ((none, v), .full)
    | .error e => (items.filterMap Item.value?).map fun v => ((none, v), .failed e)
  | _ => []

/-- The outcomes of the receives of the call itself. -/
def Operation.ownReceives (c : Channel T) : Operation T → List (ReceiveReport T)
  | .op o => o.ownReceives c
  | .tryReceiveMany mem maxItems =>
    match (c.tryReceiveManyReserved mem maxItems).result with
    | .ok vs => vs.map fun v => (.call, .ok v)
    | .error e => [(.call, .error e)]
  | _ => []

/-- A channel with all outcomes so far, and the awaiters that have been awaited. -/
structure Session (T : Type*) where
  channel : Channel T
  sendersUsed : List Nat
  receiversUsed : List Nat
  sends : List (SendReport T)
  receives : List (ReceiveReport T)

namespace Session

def start (c : Channel T) : Session T := ⟨c, [], [], [], []⟩

/-- An awaiter that was awaited before is not awaited again. -/
def fresh (s : Session T) (a : Operation T) : Bool :=
  a.sendTags.all (fun id => id ∉ s.sendersUsed) && a.requestTags.all fun id => id ∉ s.receiversUsed

def step (s : Session T) (a : Operation T) : Option (Session T) :=
  if s.fresh a then
    some
      { channel := (a.run s.channel).1
        sendersUsed := a.sendTags ++ s.sendersUsed
        receiversUsed := a.requestTags ++ s.receiversUsed
        sends := s.sends ++ (a.ownSends s.channel ++ sendOutcomes (a.run s.channel).2)
        receives := s.receives ++ (receiveOutcomes (a.run s.channel).2 ++ a.ownReceives s.channel) }
  else none

end Session

/-- No value and no iterator of the client throws, and the memory that is reserved is granted. -/
def Undisturbed (_ : Session T) : Operation T → Prop
  | .sendThrows _ | .awaitSendThrows _ _ _ _ | .trySendThrows _ => False
  | .trySendMany items => items.all Item.isValue = true
  | .tryReceiveMany mem maxItems => maxItems = 0 ∨ mem.reserve maxItems = .ok ()
  | .op _ | .resetStats => True

instance (s : Session T) (a : Operation T) : Decidable (Undisturbed s a) :=
  match a with
  | .sendThrows _ | .awaitSendThrows _ _ _ _ | .trySendThrows _ => inferInstanceAs (Decidable False)
  | .trySendMany _ => inferInstanceAs (Decidable (_ = true))
  | .tryReceiveMany _ _ => inferInstanceAs (Decidable (_ ∨ _))
  | .op _ | .resetStats => inferInstanceAs (Decidable True)

/-! ## Undisturbed operations -/

/-- The operation does on `c` what `op` does, and tells the clients the same. -/
structure Operation.Performs (a : Operation T) (op : Op T) (c : Channel T) : Prop where
  run : a.run c = ((op.run c).1, (op.run c).2.2)
  sendTags : a.sendTags = op.sendTags
  requestTags : a.requestTags = op.requestTags
  ownSends : a.ownSends c = op.ownSends c
  ownReceives : a.ownReceives c = op.ownReceives c

theorem filterMap_value? (vs : List T) : (vs.map Item.value).filterMap Item.value? = vs := by
  simp [List.filterMap_map, Function.comp_def, Item.value?]

theorem Undisturbed.performs {s : Session T} {a : Operation T} (h : Undisturbed s a)
    (c : Channel T) : (∃ op, a.Performs op c) ∨ a = .resetStats := by
  cases a with
  | op op => exact .inl ⟨op, rfl, rfl, rfl, rfl, rfl⟩
  | sendThrows e => exact h.elim
  | awaitSendThrows handle id v e => exact h.elim
  | trySendThrows e => exact h.elim
  | trySendMany items =>
    obtain ⟨vs, rfl⟩ := exists_values h
    refine .inl ⟨.trySendMany vs, rfl, rfl, rfl, ?_, rfl⟩
    simp only [Operation.ownSends, ← List.map_take, ← List.map_drop, filterMap_value?]
    rfl
  | tryReceiveMany mem n =>
    have heq := c.tryReceiveManyReserved_eq h
    refine .inl ⟨.tryReceiveMany n, ?_, rfl, rfl, rfl, ?_⟩
    · simp only [Operation.run, heq, Op.run]
    · simp only [Operation.ownReceives, heq]
      rfl
  | resetStats => exact .inr rfl

/-- The part of the account the clients see. -/
def Reported.session (r : Reported T) : Session T :=
  ⟨r.log.channel, r.log.sendersUsed, r.log.receiversUsed, r.sends, r.receives⟩

theorem Session.fresh_iff {s : Session T} {a : Operation T} :
    s.fresh a = true ↔
      (∀ id ∈ a.sendTags, id ∉ s.sendersUsed) ∧ ∀ id ∈ a.requestTags, id ∉ s.receiversUsed := by
  simp [fresh]

theorem Session.step_eq {s t : Session T} {a : Operation T} (h : s.step a = some t) :
    s.fresh a = true ∧ t =
      { channel := (a.run s.channel).1
        sendersUsed := a.sendTags ++ s.sendersUsed
        receiversUsed := a.requestTags ++ s.receiversUsed
        sends := s.sends ++ (a.ownSends s.channel ++ sendOutcomes (a.run s.channel).2)
        receives := s.receives ++
          (receiveOutcomes (a.run s.channel).2 ++ a.ownReceives s.channel) } := by
  unfold step at h
  split_ifs at h with hfresh
  exact ⟨hfresh, (Option.some.inj h).symm⟩

/-- What a session does undisturbed can be entered in the log. -/
theorem Reported.step_of_performs {r : Reported T} {a : Operation T} {op : Op T} {t : Session T}
    (hp : a.Performs op r.log.channel) (h : r.session.step a = some t) :
    ∃ r' : Reported T, r.step op = some r' ∧ r'.session = t := by
  obtain ⟨hfresh, rfl⟩ := Session.step_eq h
  obtain ⟨hsend, hrequest⟩ := Session.fresh_iff.mp hfresh
  rw [hp.sendTags] at hsend
  rw [hp.requestTags] at hrequest
  refine ⟨_, by rw [step, Logged.step_of_fresh hsend hrequest]; rfl, ?_⟩
  simp only [session, hp.run, hp.sendTags, hp.requestTags, hp.ownSends, hp.ownReceives]
  rfl

/-! ## The account along a session -/

def Reported.resetStats (r : Reported T) : Reported T :=
  { r with log := { r.log with channel := r.log.channel.resetStats } }

@[simp] theorem resetStats_senderQueue (c : Channel T) :
    c.resetStats.senderQueue = c.senderQueue := by
  unfold Channel.resetStats
  split <;> rfl

@[simp] theorem resetStats_receiverQueue (c : Channel T) :
    c.resetStats.receiverQueue = c.receiverQueue := by
  unfold Channel.resetStats
  split <;> rfl

@[simp] theorem resetStats_close (c : Channel T) : c.resetStats.close = c.close := by
  unfold Channel.resetStats
  split <;> rfl

theorem Reported.Accounts.resetStats {r : Reported T} {xs : List T} (h : r.Accounts xs) :
    r.resetStats.Accounts xs := by
  obtain ⟨hlog, haccepted, hgiven, hsenders, hreceivers, honce, honce'⟩ := h
  obtain ⟨hwf, hsends, hrequests, htags, hused, htags', hused'⟩ := hlog
  refine ⟨⟨hwf.resetStats, ?_, ?_, htags, hused, htags', hused'⟩, ?_, hgiven, ?_, ?_, honce, honce'⟩
  · simpa [Reported.resetStats, parkedSends] using hsends
  · simpa [Reported.resetStats, parkedRequests] using hrequests
  · simpa [Reported.resetStats, parkedSends] using haccepted
  · simpa [Reported.resetStats, parkedSenders] using hsenders
  · simpa [Reported.resetStats, parkedReceivers] using hreceivers

namespace Session

/-- The session is what the clients see of an account. -/
def Accounts (s : Session T) (xs : List T) : Prop :=
  ∃ r : Reported T, r.session = s ∧ r.Accounts xs

theorem reset_step {r : Reported T} {t : Session T} (h : r.session.step .resetStats = some t) :
    r.resetStats.session = t := by
  obtain ⟨-, rfl⟩ := step_eq h
  simp [Reported.session, Reported.resetStats, Operation.run, Operation.sendTags,
    Operation.requestTags, Operation.ownSends, Operation.ownReceives, sendOutcomes,
    receiveOutcomes]

theorem Accounts.step {s t : Session T} {a : Operation T} (h : ∃ xs, s.Accounts xs)
    (hu : Undisturbed s a) (ht : s.step a = some t) : ∃ xs, t.Accounts xs := by
  obtain ⟨xs, r, rfl, h⟩ := h
  obtain ⟨op, hop⟩ | rfl := hu.performs r.log.channel
  · obtain ⟨r', hr', rfl⟩ := Reported.step_of_performs hop ht
    obtain ⟨ys, h'⟩ := Reported.Accounts.preserved ⟨xs, h⟩ hr'
    exact ⟨ys, r', rfl, h'⟩
  · exact ⟨xs, r.resetStats, reset_step ht, h.resetStats⟩

theorem Accounts.of_run {c : Channel T} (hc : Constructed c) {s : Session T}
    (run : Run Session.step Undisturbed (start c) s) : ∃ xs, s.Accounts xs :=
  run.invariant (I := fun s => ∃ xs, s.Accounts xs)
    ⟨[], Reported.start c, rfl, Reported.start_accounts hc⟩ fun h hu ht => Accounts.step h hu ht

end Session

end TinyCoroutine.Channel
