import TinyCoroutine.Program.Basic
import TinyCoroutine.Channel.Operations
import TinyCoroutine.Channel.Waiting
import TinyCoroutine.WaitGroup.Basic
import TinyCoroutine.Sync.Basic

/-!
# Channels, mutexes and wait groups

The objects of the library as `WaitQueues`. An operation is one critical section, and the handles
it collects are those it reschedules after it has released its own mutex. The sections of an
`AsyncMutex` are also those of the machine in which guards and condition variables use it
(`lockSection_mutex`, `unlockSection_mutex`).
-/
namespace TinyCoroutine

open Foundation

/-! ### Channels -/

namespace Channel

variable {T : Type*} {c : Channel T} {xs : List T}

/-- The coroutine that a blocking operation would park is the one that calls it. -/
def Op.calledBy (h : Handle) : Op T → Bool
  | .awaitSend handle _ _ => handle = h
  | .awaitReceive handle _ => handle = h
  | _ => true

def waiting (c : Channel T) : Multiset Handle :=
  c.waitingSenders.map Prod.fst + c.waitingReceivers.map Prod.fst

theorem woken_handles (wakes : List (Wake T)) : (wakes.map Wake.handle : Multiset Handle) =
    (wokenSenders wakes).map Prod.fst + (wokenReceivers wakes).map Prod.fst := by
  induction wakes with
  | nil => rfl
  | cons w wakes ih =>
    rw [List.map_cons, ← Multiset.cons_coe, ih]
    cases w with
    | sender h a => rfl
    | receiver h a =>
      have hs : wokenSenders (.receiver h a :: wakes) = wokenSenders wakes := rfl
      have hr : wokenReceivers (.receiver h a :: wakes) = (h, a.id) :: wokenReceivers wakes := rfl
      rw [hs, hr, List.map_cons, ← Multiset.cons_coe, Multiset.add_cons]
      rfl

/-- At most the coroutine that calls the operation parks. -/
def Op.parks (op : Op T) (c : Channel T) : Bool :=
  !(op.parksSender c ++ op.parksReceiver c).isEmpty

theorem Op.parks_handles {op : Op T} {h : Handle} (hcalled : op.calledBy h = true) :
    ((op.parksSender c).map Prod.fst + (op.parksReceiver c).map Prod.fst : Multiset Handle) =
      if op.parks c then {h} else 0 := by
  cases op with
  | awaitSend handle id v =>
    obtain rfl : handle = h := by simpa [calledBy] using hcalled
    have hone : (awaitSend handle id v).parksSender c = [] ∨
        (awaitSend handle id v).parksSender c = [(handle, id)] := by
      simp only [parksSender]
      split <;> simp
    rcases hone with h | h <;> simp [parks, h, parksReceiver]
  | awaitReceive handle id =>
    obtain rfl : handle = h := by simpa [calledBy] using hcalled
    have hone : (awaitReceive handle id : Op T).parksReceiver c = [] ∨
        (awaitReceive handle id : Op T).parksReceiver c = [(handle, id)] := by
      simp only [parksReceiver]
      split <;> simp
    rcases hone with h | h <;> simp [parks, h, parksSender]
  | _ => rfl

/-- An operation that parks its caller wakes nobody. -/
theorem Op.wakes_of_parks {op : Op T} (hparks : op.parks c = true) : (op.run c).2.2 = [] := by
  cases op with
  | awaitSend handle id v =>
    simp only [parks, parksSender, parksReceiver, run, SenderAwaiter.awaitSuspend] at hparks ⊢
    split
    · rfl
    split
    · simp_all
    · split <;> simp_all
  | awaitReceive handle id =>
    simp only [parks, parksSender, parksReceiver, run, ReceiverAwaiter.awaitSuspend] at hparks ⊢
    split
    · simp_all
    split
    · rfl
    split <;> simp_all
  | _ => simp [parks, parksSender, parksReceiver] at hparks

/-- A channel whose payload does not throw. -/
def waitQueues (T : Type*) : WaitQueues Handle (Channel T) (Op T) where
  run c h op :=
    if op.calledBy h then
      some { state := (op.run c).1, parks := op.parks c, wakes := (op.run c).2.2.map Wake.handle }
    else none
  waiting := waiting
  Valid c := ∃ xs, c.WellFormed xs
  valid := by
    rintro c h op e ⟨xs, hc⟩ he
    split at he
    · cases he
      exact wellFormed_op hc op
    · cases he
  conserved := by
    rintro c h op e ⟨xs, hc⟩ he
    split at he
    · rename_i hcalled
      cases he
      obtain ⟨hs, hr⟩ := queues hc op
      have hsenders := congrArg (fun l => (l.map Prod.fst : Multiset Handle)) hs
      have hreceivers := congrArg (fun l => (l.map Prod.fst : Multiset Handle)) hr
      simp only [List.map_append, ← Multiset.coe_add] at hsenders hreceivers
      dsimp only
      rw [← Op.parks_handles hcalled, woken_handles, waiting, waiting]
      conv_rhs => rw [add_add_add_comm, hsenders, hreceivers]
      abel
    · cases he
  alone := by
    intro c h op e _ he hparks
    split at he
    · cases he
      rw [Op.wakes_of_parks hparks]
      rfl
    · cases he

theorem state_of_run {h : Handle} {op : Op T} {e : Effect (Channel T) Handle}
    (he : (waitQueues T).run c h op = some e) : e.state = (op.run c).1 := by
  dsimp only [waitQueues] at he
  split at he
  · cases he
    rfl
  · cases he

theorem waiting_of_constructed (h : Constructed c) : c.waiting = 0 := by
  obtain ⟨stats, capacity, rfl⟩ := h.eq
  rfl

end Channel

/-! ### Mutexes -/

structure AsyncMutex where
  lock : Bool := false
  waitQueue : List Handle := []
  deriving DecidableEq, Repr

namespace AsyncMutex

/-- The section of `Awaiter::await_suspend` and of `ReLockAwaiter::await_suspend`. -/
def awaitSuspend (m : AsyncMutex) (h : Handle) : Bool × AsyncMutex :=
  if m.lock then (true, { m with waitQueue := m.waitQueue ++ [h] })
  else (false, { m with lock := true })

/-- `unlock`: the mutex after its section, and the handle it reschedules. -/
def unlock (m : AsyncMutex) : AsyncMutex × List Handle :=
  match m.waitQueue with
  | h :: rest => ({ m with waitQueue := rest }, [h])
  | [] => ({ m with lock := false }, [])

inductive Op where
  | lock
  | unlock
  deriving DecidableEq, Repr

def waitQueues : WaitQueues Handle AsyncMutex Op where
  run m h
    | .lock => some { state := (m.awaitSuspend h).2, parks := (m.awaitSuspend h).1 }
    | .unlock => some { state := m.unlock.1, wakes := m.unlock.2 }
  waiting m := m.waitQueue
  Valid _ := True
  valid _ _ := trivial
  conserved := by
    intro m h op e _ he
    cases op <;> cases he
    · cases hlock : m.lock <;> simp [awaitSuspend, hlock, ← Multiset.coe_add]
    · cases hq : m.waitQueue with
      | nil => simp [unlock, hq]
      | cons g rest => simp [unlock, hq, ← Multiset.cons_coe, ← Multiset.singleton_add, add_comm]
  alone := by
    intro m h op e _ he hparks
    cases op <;> cases he
    · rfl
    · cases hparks

end AsyncMutex

/-- The mutex in the machine of guards and condition variables. -/
def Sync.State.mutex (s : Sync.State) : AsyncMutex := { lock := s.lock, waitQueue := s.waitQueue }

theorem Sync.State.lockSection_mutex (s : Sync.State) (i : Nat) (pc : Sync.Pc) :
    (s.lockSection i pc).mutex = (s.mutex.awaitSuspend i).2 := by
  unfold lockSection AsyncMutex.awaitSuspend
  cases hlock : s.lock <;> simp [mutex, hlock, setCoro]

theorem Sync.State.unlockSection_mutex (s : Sync.State) (place : Sync.Place) :
    (s.unlockSection place).2.mutex = s.mutex.unlock.1 ∧
      (s.unlockSection place).1.toList = s.mutex.unlock.2 := by
  unfold unlockSection AsyncMutex.unlock
  cases hq : s.waitQueue <;> simp [mutex, hq, setPlace, setCoro]

/-! ### Wait groups -/

namespace WaitGroup

inductive Op where
  | add (n : Int)
  | done
  /-- `Awaiter::await_suspend`, after `await_ready` has returned false -/
  | wait
  deriving DecidableEq, Repr

def waitQueues : WaitQueues Handle WaitGroup Op where
  run w h
    | .add n => some { state := w.add n }
    | .done =>
      match w.done with
      | .ok (w, hs) => some { state := w, wakes := hs }
      | .error _ => some { state := w }
    | .wait => some { state := (w.awaitSuspend h).2, parks := (w.awaitSuspend h).1 }
  waiting w := w.waitQueue
  Valid _ := True
  valid _ _ := trivial
  conserved := by
    intro w h op e _ he
    cases op with
    | add n =>
      cases he
      simp [add]
    | done =>
      by_cases hzero : w.count = 0
      · simp only [done, hzero, if_true] at he
        cases he
        simp
      · by_cases hlast : wrapInt (w.count - 1) = 0
        · simp only [done, hzero, hlast, if_true, if_false] at he
          cases he
          simp
        · simp only [done, hzero, hlast, if_false] at he
          cases he
          simp
    | wait =>
      cases he
      by_cases hzero : w.count = 0 <;> simp [awaitSuspend, hzero, ← Multiset.coe_add]
  alone := by
    intro w h op e _ he hparks
    cases op with
    | add n =>
      cases he
      rfl
    | done =>
      dsimp only at he
      split at he <;> cases he <;> cases hparks
    | wait =>
      cases he
      rfl

end WaitGroup

end TinyCoroutine
