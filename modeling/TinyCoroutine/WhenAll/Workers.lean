import TinyCoroutine.WhenAll.Basic
import TinyCoroutine.WhenAll.Frames

/-!
# `when_all` on the workers

The code of `when_all` together with the frames it runs in. The tasks are in the shared state,
and its destructor destroys their frames. For a vector the state goes when the body of the caller
ends: the wrappers reach it through a closure among the caller's locals. The wrappers of the
variadic overload each have a `shared_ptr` to it in their frame.

A worker that has popped the handle of a task destroys the frame of that task when it has ended,
although the shared state owns it, and the destructor then destroys it once more. And `wg.done()`
counts down to zero before it unlocks, so that the caller of the vector overload may destroy the
mutex while it is held. Where neither happens, every outcome is collected.

The frame of the caller is one of those that tasks are made of: it is followed until its `Task`
has the result.
-/
namespace TinyCoroutine.WhenAll

variable {n : Nat} {T : Fin n → Type} {R : Type}

/-- How the results are unwrapped, and whether the wrappers share in the ownership of the
state. -/
structure Overload (T : Fin n → Type) (R : Type) where
  unwrap : ((i : Fin n) → Option (T i)) → Option R
  shared : Bool

structure Machine (T : Fin n → Type) (R : Type) where
  code : State T R
  chains : Fin n → Chain := fun _ => {}
  /-- the wrapper that has `wg.mtx` in `wg.done()` -/
  lockedBy : Option (Fin n) := none
  /-- the frame of the caller is destroyed -/
  callerGone : Bool := false
  /-- the shared state is destroyed -/
  released : Bool := false
  /-- `wg.mtx` was destroyed while it was locked -/
  mutexFault : Bool := false

inductive Event (T : Fin n → Type) where
  | code (a : Action T)
  /-- `wg.done()` unlocks -/
  | unlock (i : Fin n)
  /-- a coroutine of chain `i` awaits another one -/
  | call (i : Fin n)
  /-- coroutine `c` that the task awaits, or one that it awaits, ends -/
  | ends (i : Fin n) (c : Nat)
  | suspend (i : Fin n)
  | resume (i : Fin n) (byWorker : Bool)
  /-- a worker asks `done()` -/
  | check (i : Fin n) (c : Nat) (answer : Bool)
  | drop (i : Fin n) (c : Nat)
  | dropCaller
  /-- the last `shared_ptr` to the state is gone -/
  | release

namespace Machine

def start (T : Fin n → Type) (R : Type) : Machine T R := { code := init T R }

variable (m : Machine T R)

/-- Something was done that has no defined behaviour. -/
def Faulty : Prop := m.mutexFault = true ∨ ∃ i, (m.chains i).fault = true

instance : Decidable m.Faulty := inferInstanceAs (Decidable (_ ∨ ∃ _, _))

def setChain (i : Fin n) (x : Chain) : Machine T R :=
  { m with chains := Function.update m.chains i x }

/-- The destructor of the shared state. -/
def releaseState : Machine T R :=
  { m with
    chains := fun i => (m.chains i).destroy 1
    released := true
    mutexFault := m.mutexFault || m.lockedBy.isSome }

/-- What the code does to the frames and to the mutex of the group. -/
def frameStep (o : Overload T R) : Action T → Option (Machine T R)
  | .start i => some (m.setChain i (m.chains i).start)
  | .taskEnds i _ => ((m.chains i).finish 1).map (m.setChain i)
  | .done i => if m.lockedBy = none then some { m with lockedBy := some i } else none
  | .reschedule i inline =>
    -- a worker has a context
    if m.lockedBy ≠ some i ∧ inline = (m.chains i).popped.isNone then
      match m.code.wrappers i with
      | .rescheduling [] => ((m.chains i).finish 0).map (m.setChain i)
      | _ => some m
    else none
  | .awaitSuspend => if m.lockedBy = none then some m else none
  | .finish => some (if o.shared then m else m.releaseState)
  | .submit | .store _ | .wait | .resume => some m

/-- The caller does not get its result from a state that could not be destroyed. -/
def proceed (s : State T R) : Machine T R := if m.Faulty then m else { m with code := s }

def move (o : Overload T R) : Event T → Option (Machine T R)
  | .code a =>
    (WhenAll.step o.unwrap m.code a).bind fun s => (m.frameStep o a).map fun t => t.proceed s
  | .unlock i => if m.lockedBy = some i then some { m with lockedBy := none } else none
  | .call i => (m.chains i).call.map (m.setChain i)
  | .ends i c => if 2 ≤ c then ((m.chains i).finish c).map (m.setChain i) else none
  | .suspend i => (m.chains i).suspend.map (m.setChain i)
  | .resume i byWorker => ((m.chains i).resume byWorker).map (m.setChain i)
  | .check i c answer => ((m.chains i).check c answer).map (m.setChain i)
  | .drop i c => ((m.chains i).drop c).map (m.setChain i)
  | .dropCaller =>
    match m.code.caller with
    | .returned _ => some { m with callerGone := true }
    | _ => none
  | .release =>
    if o.shared ∧ m.callerGone ∧ m.released = false ∧ ∀ i, (m.chains i).status 0 = .destroyed then
      some m.releaseState
    else none

/-- Nothing is promised after a fault. -/
def step (o : Overload T R) (m : Machine T R) (e : Event T) : Option (Machine T R) :=
  if m.Faulty then none else m.move o e

end Machine

/-- No coroutine that is awaited ends while a worker has its handle, and the caller of the vector
overload does not end while `wg.done()` has the mutex. -/
def EndsUnheld (o : Overload T R) (m : Machine T R) : Event T → Prop
  | .code (.taskEnds i _) => 1 ∉ (m.chains i).handles
  | .ends i c => c ∉ (m.chains i).handles
  | .code .finish => o.shared = true ∨ m.lockedBy = none
  | _ => True

instance (o : Overload T R) (m : Machine T R) (e : Event T) : Decidable (EndsUnheld o m e) :=
  match e with
  | .code (.taskEnds i _) => inferInstanceAs (Decidable (1 ∉ (m.chains i).handles))
  | .ends i c => inferInstanceAs (Decidable (c ∉ (m.chains i).handles))
  | .code .finish => inferInstanceAs (Decidable (o.shared = true ∨ m.lockedBy = none))
  | .code .submit | .code (.start _) | .code (.store _) | .code (.done _)
  | .code (.reschedule _ _) | .code .wait | .code .awaitSuspend | .code .resume
  | .unlock _ | .call _ | .suspend _ | .resume _ _ | .check _ _ _ | .drop _ _ | .dropCaller
  | .release => inferInstanceAs (Decidable True)

end TinyCoroutine.WhenAll
