import TinyCoroutine.WaitGroup.Basic
import Mathlib.Data.List.OfFn

/-!
# Waiting for all of several tasks

`when_all` starts one wrapper coroutine for each task and waits for all of them through a
`WaitGroup`. A wrapper awaits its task, stores the value or reports the exception, and calls
`done`. The two overloads differ in the container of the results and in how it is unwrapped
at the end, which is the parameter `unwrap` of the machine.

Every step is one critical section, one store, or one call of `reschedule_or_resume`. The
steps of the wrappers interleave with each other and with those of the caller in any order;
when a task ends, it may end in any way. The frames these coroutines have, and the workers that
resume and destroy them, come with `Frames` and `Workers`.
-/
namespace TinyCoroutine.WhenAll

/-- Where the wrapper of a task is in its code. -/
inductive Wrapper (T : Type) where
  | created
  /-- submitted to the scheduler -/
  | queued
  /-- in `co_await` of its task -/
  | awaiting
  | ended (o : Except Exn T)
  /-- before `wg.done()` -/
  | stored
  /-- in the loop at the end of `wg.done()` -/
  | rescheduling (hs : List Handle)
  | finished
  /-- left by an exception of `wg.done()` -/
  | threw (e : Exn)
  deriving DecidableEq, Repr

/-- Where the caller is. The result is `none` inside `ok` when an empty optional was
dereferenced. -/
inductive Caller (R : Type) where
  /-- before the submission of wrapper `i`, or after the last one -/
  | submitting (i : Nat)
  /-- before `await_ready` of `wg.wait()` -/
  | waiting
  /-- before `await_suspend` of `wg.wait()` -/
  | suspending
  | parked
  /-- in the task queue of some context -/
  | ready
  | passed
  | returned (r : Except Exn (Option R))
  deriving DecidableEq, Repr

/-- The handle of the caller, the only coroutine that waits on the group. -/
def callerHandle : Handle := 0

variable {n : Nat} {T : Fin n → Type} {R : Type}

/-- `VectorState` or `TupleState`, the coroutines that share it, and what happened so far. -/
structure State (T : Fin n → Type) (R : Type) where
  res : (i : Fin n) → Option (T i) := fun _ => none
  exception : Option Exn := none
  wg : WaitGroup
  caller : Caller R := .submitting 0
  wrappers : (i : Fin n) → Wrapper (T i) := fun _ => .created
  /-- how the tasks ended -/
  outcomes : (i : Fin n) → Option (Except Exn (T i)) := fun _ => none
  /-- the calls of `store_first_exception` -/
  stores : List (Fin n × Exn) := []
  /-- the calls of `wg.done()` -/
  doneCalls : List (Fin n) := []
  /-- the wrappers that passed the caller to `reschedule_or_resume` -/
  handedBy : List (Fin n) := []
  /-- how often the caller got past `wg.wait()` -/
  passes : Nat := 0

/-- The state after `wg.add(n)`. -/
def init (T : Fin n → Type) (R : Type) : State T R := { wg := ({} : WaitGroup).add n }

def storeFirstException (exception ex : Option Exn) : Option Exn :=
  match ex with
  | none => exception
  | some e =>
    match exception with
    | none => some e
    | some _ => exception

inductive Action (T : Fin n → Type) where
  /-- one iteration of the submission loop, or its end -/
  | submit
  /-- a worker starts the wrapper -/
  | start (i : Fin n)
  | taskEnds (i : Fin n) (o : Except Exn (T i))
  | store (i : Fin n)
  | done (i : Fin n)
  | reschedule (i : Fin n) (inline : Bool)
  | wait
  | awaitSuspend
  /-- a worker resumes the caller -/
  | resume
  | finish

namespace State

variable (s : State T R)

def setWrapper (i : Fin n) (w : Wrapper (T i)) : State T R :=
  { s with wrappers := Function.update s.wrappers i w }

def pass : State T R := { s with caller := .passed, passes := s.passes + 1 }

def storeOutcome (i : Fin n) : Except Exn (T i) → State T R
  | .ok v => { s.setWrapper i .stored with res := Function.update s.res i (some v) }
  | .error e =>
    { s.setWrapper i .stored with
      exception := storeFirstException s.exception (some e)
      stores := s.stores ++ [(i, e)] }

/-- Wrapper `i` calls `wg.done()`. -/
def callDone (i : Fin n) : State T R :=
  match s.wg.done with
  | .ok (w, hs) =>
    { s.setWrapper i (.rescheduling hs) with wg := w, doneCalls := s.doneCalls ++ [i] }
  | .error e => { s.setWrapper i (.threw e) with doneCalls := s.doneCalls ++ [i] }

/-- Wrapper `i` passes `h` to `reschedule_or_resume`. -/
def reschedule (i : Fin n) (h : Handle) (inline : Bool) : State T R :=
  if h = callerHandle then
    let t := { s with handedBy := s.handedBy ++ [i] }
    if inline then t.pass else { t with caller := .ready }
  else s

/-- What the caller does after `wg.wait()`. -/
def collect (unwrap : ((i : Fin n) → Option (T i)) → Option R) : Except Exn (Option R) :=
  match s.exception with
  | some e => .error e
  | none => .ok (unwrap s.res)

end State

def step (unwrap : ((i : Fin n) → Option (T i)) → Option R) (s : State T R) :
    Action T → Option (State T R)
  | .submit =>
    match s.caller with
    | .submitting k =>
      if h : k < n then some { s.setWrapper ⟨k, h⟩ .queued with caller := .submitting (k + 1) }
      else some { s with caller := .waiting }
    | _ => none
  | .start i =>
    match s.wrappers i with
    | .queued => some (s.setWrapper i .awaiting)
    | _ => none
  | .taskEnds i o =>
    match s.wrappers i with
    | .awaiting =>
      some { s.setWrapper i (.ended o) with outcomes := Function.update s.outcomes i (some o) }
    | _ => none
  | .store i =>
    match s.wrappers i with
    | .ended o => some (s.storeOutcome i o)
    | _ => none
  | .done i =>
    match s.wrappers i with
    | .stored => some (s.callDone i)
    | _ => none
  | .reschedule i inline =>
    match s.wrappers i with
    | .rescheduling (h :: hs) => some ((s.setWrapper i (.rescheduling hs)).reschedule i h inline)
    | .rescheduling [] => some (s.setWrapper i .finished)
    | _ => none
  | .wait =>
    match s.caller with
    | .waiting => some (if s.wg.awaitReady then s.pass else { s with caller := .suspending })
    | _ => none
  | .awaitSuspend =>
    match s.caller with
    | .suspending =>
      match s.wg.awaitSuspend callerHandle with
      | (true, w) => some { s with caller := .parked, wg := w }
      | (false, _) => some s.pass
    | _ => none
  | .resume =>
    match s.caller with
    | .ready => some s.pass
    | _ => none
  | .finish =>
    match s.caller with
    | .passed => some { s with caller := .returned (s.collect unwrap) }
    | _ => none

end TinyCoroutine.WhenAll
