import TinyCoroutine.Basic
import TinyCoroutine.Foundation.Run
import Mathlib.Algebra.Group.Int.Defs
import Mathlib.Algebra.Group.Nat.Defs
import Mathlib.Logic.Function.Basic

/-!
# A wait group

The counter and the queue of a `WaitGroup`, its operations as the code computes them, and
the machine of any number of coroutines that await it while `add` and `done` are called
in any order. Every step is one critical section, the read of `await_ready`, or one call
of `reschedule_or_resume`.

The machine also keeps what the group itself does not remember. The operations that bring
the counter from another value to zero are numbered, and every parking has a record: the
number of those operations before it, and those that handed its coroutine over.
-/
namespace TinyCoroutine

/-- The value of an `int` after an atomic addition: outside the range it wraps. -/
def wrapInt (z : Int) : Int := z.bmod (2 ^ 32)

theorem wrapInt_of_range {z : Int} (low : 0 ≤ z) (high : z < 2 ^ 31) : wrapInt z = z := by
  rw [wrapInt, Int.bmod_eq_of_le_mul_two] <;> omega

structure WaitGroup where
  /-- `count_` -/
  count : Int := 0
  /-- `wait_queue_` -/
  waitQueue : List Handle := []
  deriving DecidableEq, Repr

namespace WaitGroup

/-- `Awaiter::await_ready`, a read without the lock. -/
def awaitReady (w : WaitGroup) : Bool := w.count = 0

/-- `Awaiter::await_suspend` -/
def awaitSuspend (w : WaitGroup) (h : Handle) : Bool × WaitGroup :=
  if w.count = 0 then (false, w) else (true, { w with waitQueue := w.waitQueue ++ [h] })

def add (w : WaitGroup) (n : Int) : WaitGroup := { w with count := wrapInt (w.count + n) }

/-- `done`: the group after its section, and the handles it will reschedule. -/
def done (w : WaitGroup) : Except Exn (WaitGroup × List Handle) :=
  if w.count = 0 then .error (.runtimeError "count is zero")
  else if wrapInt (w.count - 1) = 0 then .ok (⟨0, []⟩, w.waitQueue)
  else .ok ({ w with count := wrapInt (w.count - 1) }, [])

/-- What a coroutine that awaits the group is doing. -/
inductive Phase where
  | running
  /-- `await_ready` has returned false, `await_suspend` has not run yet -/
  | suspending
  /-- `await_suspend` has returned true; the number is that of the parking -/
  | parked (t : Nat)
  /-- in the task queue of some context -/
  | ready
  deriving DecidableEq, Repr

/-- The record of one parking. -/
structure Parking where
  handle : Handle
  /-- how many operations had brought the counter to zero before -/
  zeros : Nat
  /-- the operations that passed the handle to `reschedule_or_resume` -/
  handedBy : List Nat := []
  deriving DecidableEq, Repr

structure State where
  group : WaitGroup := {}
  coros : Handle → Phase := fun _ => .running
  /-- how many operations have brought the counter to zero -/
  zeros : Nat := 0
  /-- the handles that the `k`-th of these operations has yet to reschedule -/
  handles : Nat → List Handle := fun _ => []
  parkings : Nat → Parking := fun _ => ⟨0, 0, []⟩
  /-- how many parkings there were -/
  parked : Nat := 0
  /-- the values of the counter on which a `wait` went on without parking -/
  observed : List Int := []

def init : State := {}

inductive Action where
  | add (n : Int)
  | done
  /-- `co_await wg.wait()` up to the result of `await_ready` -/
  | wait (h : Handle)
  | awaitSuspend (h : Handle)
  /-- the `k`-th zeroing operation calls `reschedule_or_resume` -/
  | wake (k : Nat) (inline : Bool)
  /-- a worker resumes a coroutine from its task queue -/
  | resume (h : Handle)
  deriving DecidableEq, Repr

namespace State

variable (s : State)

def setCoro (h : Handle) (p : Phase) : State := { s with coros := Function.update s.coros h p }

/-- An operation leaves the group `w`; if it brought the counter to zero it has a number, and
`hs` are the handles it took. -/
def operated (w : WaitGroup) (hs : List Handle) : State :=
  if s.group.count ≠ 0 ∧ w.count = 0 then
    { s with
      group := w
      zeros := s.zeros + 1
      handles := Function.update s.handles s.zeros hs }
  else { s with group := w }

/-- Coroutine `h` goes on without parking. -/
def pass (h : Handle) : State :=
  { s.setCoro h .running with observed := s.observed ++ [s.group.count] }

/-- Coroutine `h` has parked, and the queue is now that of `w`. -/
def park (h : Handle) (w : WaitGroup) : State :=
  { s.setCoro h (.parked s.parked) with
    group := w
    parkings := Function.update s.parkings s.parked ⟨h, s.zeros, []⟩
    parked := s.parked + 1 }

/-- The `k`-th zeroing operation hands over `h`, the first of its handles. -/
def hand (k : Nat) (h : Handle) (hs : List Handle) (inline : Bool) : State :=
  let t := { s with handles := Function.update s.handles k hs }
  let u := t.setCoro h (if inline then .running else .ready)
  match s.coros h with
  | .parked p =>
    { u with
      parkings := Function.update s.parkings p
        { s.parkings p with handedBy := (s.parkings p).handedBy ++ [k] } }
  | _ => u

end State

def step (s : State) : Action → Option State
  | .add n => some (s.operated (s.group.add n) [])
  | .done =>
    match s.group.done with
    | .ok (w, hs) => some (s.operated w hs)
    | .error _ => some s
  | .wait h =>
    if s.coros h = .running then
      some (if s.group.awaitReady then s.pass h else s.setCoro h .suspending)
    else none
  | .awaitSuspend h =>
    if s.coros h = .suspending then
      match s.group.awaitSuspend h with
      | (true, w) => some (s.park h w)
      | (false, _) => some (s.pass h)
    else none
  | .wake k inline =>
    match s.handles k with
    | h :: hs => some (s.hand k h hs inline)
    | [] => none
  | .resume h => if s.coros h = .ready then some (s.setCoro h .running) else none

/-- The calls keep the running total non-negative and within `int`. -/
def Counts (s : State) : Action → Prop
  | .add n => 0 ≤ s.group.count + n ∧ s.group.count + n < 2 ^ 31
  | _ => True

/-- No `add` brings the counter to zero while a coroutine is parked. -/
def NoZeroingAdd (s : State) : Action → Prop
  | .add n => s.group.count + n = 0 → s.group.waitQueue = []
  | _ => True

instance (s : State) : (a : Action) → Decidable (Counts s a)
  | .add _ => inferInstanceAs (Decidable (_ ∧ _))
  | .done | .wait _ | .awaitSuspend _ | .wake _ _ | .resume _ => inferInstanceAs (Decidable True)

instance (s : State) : (a : Action) → Decidable (NoZeroingAdd s a)
  | .add _ => inferInstanceAs (Decidable (_ → _))
  | .done | .wait _ | .awaitSuspend _ | .wake _ _ | .resume _ => inferInstanceAs (Decidable True)

end WaitGroup

end TinyCoroutine
