import TinyCoroutine.Foundation.Run
import Mathlib.Logic.Function.Basic

/-!
# An asynchronous mutex with condition variables

One `AsyncMutex`, condition variables on it, and any number of coroutines that lock it,
release and relock their guards, wait and notify in any order. Every step is one critical
section, one write of `owns_lock_` or one call of `reschedule_or_resume`.

A coroutine that waits on a condition variable is published in its queue before the rest
of `Awaiter::await_suspend` has run: this rest, `guard_->unlock()`, is a `Tail` with steps of
its own, which interleave with those of the coroutine once it has been resumed elsewhere.
`reschedule_or_resume` either queues a handle on a context (`Place.ready`) or resumes it
inline. The caller of an inline resumption goes on when the resumed coroutine suspends;
here its steps may come at any time, so the runs of both modes are among those of `step`.
-/
namespace TinyCoroutine.Sync

/-- Where the handle of a coroutine is. -/
inductive Place where
  | running
  /-- in the task queue of some context -/
  | ready
  | mutexQueue
  | cvQueue (v : Nat)
  /-- popped by coroutine `i`, which is about to wake it -/
  | heldBy (i : Nat)
  | heldByTail (k : Nat)
  deriving DecidableEq, Repr

/-- The three ways in which a coroutine may give up the mutex through a guard. -/
inductive Release where
  /-- `LockGuard::unlock` -/
  | unlock
  /-- `LockGuard::~LockGuard` -/
  | drop
  /-- move assignment from another guard -/
  | assign (src : Nat)
  deriving DecidableEq, Repr

/-- What follows a relock: the caller's code, or the predicate of `wait`. -/
inductive After where
  | run
  | test (v : Nat)
  deriving DecidableEq, Repr

inductive Pc where
  /-- in the coroutine's own code -/
  | run
  /-- before `Awaiter::await_resume`, which makes the guard -/
  | lockResume
  /-- before the predicate of `wait` -/
  | test (v g : Nat)
  /-- before the section of `ReLockAwaiter::await_suspend` -/
  | relock (g : Nat) (next : After)
  /-- before `ReLockAwaiter::await_resume`, which sets `owns_lock_` -/
  | relockResume (g : Nat) (next : After)
  /-- before the section of `AsyncMutex::unlock` -/
  | unlocking (g : Nat) (kind : Release)
  /-- before `reschedule_or_resume` of the next owner -/
  | handing (h g : Nat) (kind : Release)
  /-- after `AsyncMutex::unlock` -/
  | finishing (g : Nat) (kind : Release)
  /-- before `reschedule_or_resume` of notified coroutines -/
  | waking (hs : List Nat)
  deriving DecidableEq, Repr

structure Coroutine where
  pc : Pc := .run
  place : Place := .running
  deriving DecidableEq, Repr

structure Guard where
  owner : Nat
  owns : Bool := true
  /-- `async_mutex_` is not null -/
  attached : Bool := true
  alive : Bool := true
  /-- The owner is inside its critical section: it has got the mutex through this guard and
  has not released it since. -/
  inside : Bool := true
  deriving DecidableEq, Repr

inductive TailStage where
  | test
  | unlocking
  | handing (h : Nat)
  | write
  | done
  deriving DecidableEq, Repr

/-- The rest of `ConditionVariable::Awaiter::await_suspend`, after the push. -/
structure Tail where
  guard : Nat
  stage : TailStage := .test
  deriving DecidableEq, Repr

structure State where
  lock : Bool := false
  waitQueue : List Nat := []
  cvs : Nat → List Nat := fun _ => []
  coros : Nat → Coroutine := fun _ => {}
  guards : Nat → Option Guard := fun _ => none
  nextGuard : Nat := 0
  tails : Nat → Option Tail := fun _ => none
  nextTail : Nat := 0

def init : State := {}

/-- What the code of a coroutine does next. -/
inductive Op where
  | lock
  | release (g : Nat) (kind : Release)
  /-- move construction of a new guard -/
  | move (g : Nat)
  | relock (g : Nat)
  /-- `wait` without a predicate -/
  | wait (v g : Nat)
  /-- `wait` with a predicate -/
  | waitFor (v g : Nat)
  | notifyOne (v : Nat)
  | notifyAll (v : Nat)
  deriving DecidableEq, Repr

inductive Action where
  | op (i : Nat) (o : Op)
  /-- the predicate of `wait` answers -/
  | predicate (i : Nat) (answer : Bool)
  | step (i : Nat) (inline : Bool)
  | tail (k : Nat) (inline : Bool)
  /-- a worker resumes a coroutine from its task queue -/
  | resume (i : Nat)
  deriving DecidableEq, Repr

namespace State

variable (s : State)

def setCoro (i : Nat) (c : Coroutine) : State := { s with coros := Function.update s.coros i c }

def setPc (i : Nat) (pc : Pc) : State := s.setCoro i { s.coros i with pc }

def setPlace (i : Nat) (place : Place) : State := s.setCoro i { s.coros i with place }

def setGuard (g : Nat) (γ : Guard) : State :=
  { s with guards := Function.update s.guards g (some γ) }

def setTail (k : Nat) (τ : Tail) : State := { s with tails := Function.update s.tails k (some τ) }

/-- The guard `g`, if coroutine `i` has it and it is not destroyed. -/
def guardOf (i g : Nat) : Option Guard :=
  (s.guards g).filter fun γ => γ.owner = i ∧ γ.alive

/-- The section of both `await_suspend` functions; `pc` is where the coroutine goes on once it
has got the mutex. -/
def lockSection (i : Nat) (pc : Pc) : State :=
  if s.lock then
    { s with waitQueue := s.waitQueue ++ [i] }.setCoro i ⟨pc, .mutexQueue⟩
  else { s with lock := true }.setCoro i ⟨pc, .running⟩

/-- The section of `AsyncMutex::unlock`: the mutex is freed, or handed to the first waiter,
whose handle is then held at `place`. -/
def unlockSection (place : Place) : Option Nat × State :=
  match s.waitQueue with
  | h :: rest => (some h, { s with waitQueue := rest }.setPlace h place)
  | [] => (none, { s with lock := false })

/-- `reschedule_or_resume`. -/
def wake (h : Nat) (inline : Bool) : State := s.setPlace h (if inline then .running else .ready)

/-- The push of `ConditionVariable::Awaiter::await_suspend`. -/
def cvPush (i v g : Nat) (γ : Guard) (next : After) : State :=
  { ((s.setCoro i ⟨.relock g next, .cvQueue v⟩).setGuard g { γ with inside := false }).setTail
      s.nextTail { guard := g } with
    cvs := Function.update s.cvs v (s.cvs v ++ [i])
    nextTail := s.nextTail + 1 }

/-- The handles that `notify_one` or `notify_all` takes, now held by coroutine `i`. -/
def notify (i v : Nat) (hs rest : List Nat) : State :=
  let held := fun j => if j ∈ hs then { s.coros j with place := .heldBy i } else s.coros j
  { s with cvs := Function.update s.cvs v rest, coros := held }.setCoro i ⟨.waking hs, .running⟩

/-- The rest of a release after `AsyncMutex::unlock`, or without it. -/
def finishRelease (g : Nat) (γ : Guard) : Release → State
  | .unlock => s.setGuard g { γ with owns := false }
  | .drop => s.setGuard g { γ with alive := false }
  | .assign src =>
    match s.guards src with
    | some σ =>
      (s.setGuard g { γ with owns := σ.owns, attached := σ.attached, inside := σ.inside }).setGuard
        src { σ with owns := false, attached := false, inside := false }
    | none => s

end State

/-- A guard can be assigned from another guard of the same coroutine. -/
def Release.allowed (s : State) (i : Nat) : Release → Bool
  | .assign src => (s.guardOf i src).isSome
  | _ => true

def After.pc (g : Nat) : After → Pc
  | .run => .run
  | .test v => .test v g

/-- Coroutine `i` starts an operation. -/
def opStep (s : State) (i : Nat) : Op → Option State
  | .lock => some (s.lockSection i .lockResume)
  | .release g kind =>
    match s.guardOf i g with
    | some γ =>
      if !kind.allowed s i then none
      else if kind = .assign g then some s
      else if γ.owns && γ.attached then some (s.setPc i (.unlocking g kind))
      else if kind = .unlock then some s
      else some (s.finishRelease g γ kind)
    | none => none
  | .move g =>
    match s.guardOf i g with
    | some γ =>
      some { (s.setGuard s.nextGuard γ).setGuard g
          { γ with owns := false, attached := false, inside := false } with
        nextGuard := s.nextGuard + 1 }
    | none => none
  | .relock g =>
    match s.guardOf i g with
    | some γ =>
      if γ.attached && !γ.owns then some (s.lockSection i (.relockResume g .run)) else none
    | none => none
  | .wait v g =>
    match s.guardOf i g with
    | some γ => if γ.attached then some (s.cvPush i v g γ .run) else none
    | none => none
  | .waitFor v g =>
    match s.guardOf i g with
    | some γ => if γ.attached then some (s.setPc i (.test v g)) else none
    | none => none
  | .notifyOne v =>
    match s.cvs v with
    | h :: rest => some (s.notify i v [h] rest)
    | [] => some s
  | .notifyAll v => some (s.notify i v (s.cvs v) [])

/-- Coroutine `i` goes on with an operation. -/
def coroStep (s : State) (i : Nat) (inline : Bool) : Option State :=
  match (s.coros i).pc with
  | .run => none
  | .test _ _ => none
  | .lockResume =>
    some { (s.setGuard s.nextGuard { owner := i }).setPc i .run with nextGuard := s.nextGuard + 1 }
  | .relock g next => some (s.lockSection i (.relockResume g next))
  | .relockResume g next =>
    (s.guards g).map fun γ =>
      (s.setGuard g { γ with owns := true, inside := true }).setPc i (next.pc g)
  | .unlocking g kind =>
    (s.guards g).map fun γ =>
      match (s.setGuard g { γ with inside := false }).unlockSection (.heldBy i) with
      | (some h, t) => t.setPc i (.handing h g kind)
      | (none, t) => t.setPc i (.finishing g kind)
  | .handing h g kind => some ((s.wake h inline).setPc i (.finishing g kind))
  | .finishing g kind => (s.guards g).map fun γ => (s.finishRelease g γ kind).setPc i .run
  | .waking [] => some (s.setPc i .run)
  | .waking (h :: hs) => some ((s.wake h inline).setPc i (.waking hs))

def tailStep (s : State) (k : Nat) (inline : Bool) (τ : Tail) : Option State :=
  match τ.stage with
  | .test =>
    (s.guards τ.guard).map fun γ =>
      s.setTail k { τ with stage := if γ.owns && γ.attached then .unlocking else .done }
  | .unlocking =>
    match s.unlockSection (.heldByTail k) with
    | (some h, t) => some (t.setTail k { τ with stage := .handing h })
    | (none, t) => some (t.setTail k { τ with stage := .write })
  | .handing h => some ((s.wake h inline).setTail k { τ with stage := .write })
  | .write =>
    (s.guards τ.guard).map fun γ =>
      (s.setGuard τ.guard { γ with owns := false }).setTail k { τ with stage := .done }
  | .done => none

def step (s : State) : Action → Option State
  | .op i o =>
    if (s.coros i).place = .running ∧ (s.coros i).pc = .run then opStep s i o else none
  | .predicate i answer =>
    match s.coros i with
    | ⟨.test v g, .running⟩ =>
      if answer then some (s.setPc i .run)
      else (s.guards g).map fun γ => s.cvPush i v g γ (.test v)
    | _ => none
  | .step i inline => if (s.coros i).place = .running then coroStep s i inline else none
  | .tail k inline => (s.tails k).bind (tailStep s k inline)
  | .resume i => if (s.coros i).place = .ready then some (s.setPlace i .running) else none

end TinyCoroutine.Sync
