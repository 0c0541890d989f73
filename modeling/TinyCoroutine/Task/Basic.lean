import TinyCoroutine.Foundation.Run
import TinyCoroutine.Runtime.Step

/-!
# Tasks that await tasks on one worker

A scheduler with a single context, whose coroutines create, await, move, submit and drop
`Task` objects. A frame is destroyed by the destructor of the `Task` that owns it, together
with everything its own locals and parameters own, or by the scheduler once the `Task` has
been detached. `co_await` of a `Task` stores the caller and transfers to the callee,
`final_suspend` transfers back, so one `handle.resume()` of the worker may run through many
frames: `WorkerPc.running` keeps the handle that was popped apart from the coroutine whose
code is being executed.

The parts of `Context::run` that neither resume a handle nor move one are left out: the
worker may pop and poll whenever it is not in `process_work_once`.
-/
namespace TinyCoroutine.Task

open TinyCoroutine.Runtime (Engine IoRequest kProcessBatchSize kIoPollBatchSize)

/-- The life of a coroutine frame. -/
inductive Status where
  | none
  /-- at `initial_suspend` -/
  | initial
  | running
  /-- in a `co_await` of the `Task` of another frame -/
  | awaiting (callee : Handle)
  /-- in any other `co_await` -/
  | suspended
  /-- at `final_suspend` -/
  | final
  | destroyed
  deriving DecidableEq, Repr

/-- Who has the `Task` object of a frame. -/
inductive Owner where
  /-- code that is not in a coroutine -/
  | client
  /-- a local, a temporary or a parameter of the coroutine `h` -/
  | frame (h : Handle)
  /-- nobody, after `Task::detach` -/
  | detached
  deriving DecidableEq, Repr

structure Frame where
  status : Status := .none
  caller : Option Handle := none
  owner : Owner := .client
  /-- `final_suspend` has been reached. -/
  finished : Bool := false
  deriving DecidableEq, Repr

/-- `Context::process_work_once`. -/
inductive WorkerPc where
  | idle
  | forLoop
  /-- inside `popped.resume()`, in the code of `current` -/
  | running (popped current : Handle)
  /-- `done()` is still to be asked -/
  | resumed (popped : Handle)
  | destroy (popped : Handle)
  /-- before `on_task_completed_()` -/
  | completed (popped : Handle)
  deriving DecidableEq, Repr

structure State where
  engine : Engine := {}
  batch : List Handle := []
  worker : WorkerPc := .idle
  accepting : Bool := true
  pending : Nat := 0
  frames : Handle → Frame := fun _ => {}
  /-- The frame that is created next. -/
  next : Nat := 0
  /-- Handles in the wait queues of channels, mutexes, condition variables and wait groups. -/
  parked : List Handle := []
  /-- Handles accepted from client threads and not yet in the task queue. -/
  pushing : List Handle := []
  /-- Handles counted in `pending`. -/
  accepted : List Handle := []
  /-- Handles for which the worker has called `on_task_completed_`. -/
  completed : List Handle := []
  /-- Handles on which the worker has called `destroy()`. -/
  destroyed : List Handle := []

def init : State := {}

/-- What both coroutines and client threads do with `Task` objects they own. -/
inductive Code where
  | create
  | move (g : Handle) (dest : Owner)
  /-- `Task::~Task` -/
  | drop (g : Handle)
  /-- `Scheduler::submit` -/
  | submit (g : Handle)
  deriving DecidableEq, Repr

inductive BodyAction where
  | code (o : Code)
  | submitToScheduler (g : Handle)
  /-- `co_await` of a `Task` -/
  | await (g : Handle)
  | yield
  /-- `io_suspend_once()`, `io::read` or `io::write` -/
  | suspendIo (r : IoRequest)
  /-- suspension in the wait queue of a primitive -/
  | park
  /-- `reschedule_or_resume` of a coroutine in such a queue -/
  | wake (g : Handle)
  | finish
  deriving DecidableEq, Repr

inductive Action where
  | client (o : Code)
  /-- the push of a handle that a client thread has submitted -/
  | push (h : Handle)
  /-- `stop()`, or `loop()` after its wait -/
  | stopAccepting
  | popBatch
  | worker
  | body (b : BodyAction)
  | checkDone (answer : Bool)
  | pollSubmit (rets : List Int)
  | reap
  /-- the kernel finishes an operation -/
  | complete (k : Nat) (result : Int)
  deriving DecidableEq, Repr

def Status.live : Status → Bool
  | .none => false
  | .destroyed => false
  | _ => true

/-- Started and not finished. -/
def Status.midway : Status → Bool
  | .running => true
  | .awaiting _ => true
  | .suspended => true
  | _ => false

section

variable (frames : Handle → Frame)

/-- The number of frames that exist, of the first `n`. -/
def liveFrames (n : Nat) : Nat := (List.range n).countP fun h => (frames h).status.live

/-- Frame `g` is `h`, or goes with it through at most `n` owners. -/
def ownedBy : Nat → Handle → Handle → Bool
  | 0, g, h => g = h
  | n + 1, g, h =>
    g = h ||
      match (frames g).owner with
      | .frame p => ownedBy n p h
      | _ => false

end

/-- `handle.destroy()`, with the destructors of the `Task` objects the frame owns; `n` frames
have been created. -/
def destroyFrames (n : Nat) (frames : Handle → Frame) (h : Handle) : Handle → Frame :=
  fun g => if ownedBy frames n g h then { frames g with status := .destroyed } else frames g

namespace State

variable (s : State)

def setFrame (h : Handle) (f : Frame) : State :=
  { s with frames := Function.update s.frames h f }

def setStatus (h : Handle) (status : Status) : State := s.setFrame h { s.frames h with status }

def setOwner (h : Handle) (owner : Owner) : State := s.setFrame h { s.frames h with owner }

def destroyFrame (h : Handle) : State := { s with frames := destroyFrames s.next s.frames h }

/-- `pending_tasks_.fetch_add(1)` on behalf of `h`. -/
def accept (h : Handle) : State :=
  { s.setOwner h .detached with pending := fetchAdd s.pending 1, accepted := s.accepted ++ [h] }

def submitTask (h : Handle) : State := { s with engine := s.engine.submitTask h }

end State

def Owner.exists (s : State) : Owner → Bool
  | .client => true
  | .frame h => (s.frames h).status.live
  | .detached => false

def codeStep (s : State) (who : Owner) : Code → Option State
  | .create =>
    -- A frame takes memory; the worker has some, too.
    if liveFrames s.frames s.next + 2 < 2 ^ 64 then
      some { s.setFrame s.next { status := .initial, owner := who } with next := s.next + 1 }
    else none
  | .move g dest =>
    if (s.frames g).owner = who ∧ (s.frames g).status.live ∧ dest.exists s then
      some (s.setOwner g dest)
    else none
  | .drop g =>
    if (s.frames g).owner = who ∧ (s.frames g).status.live then some (s.destroyFrame g) else none
  | .submit g =>
    if (s.frames g).owner = who ∧ (s.frames g).status = .initial then
      if s.accepting then
        match who with
        | .client => some { s.accept g with pushing := s.pushing ++ [g] }
        | _ => some ((s.accept g).submitTask g)
      else some (s.destroyFrame g)
    else none

/-- The coroutine `i`, inside `popped.resume()`. -/
def bodyStep (s : State) (popped i : Handle) : BodyAction → Option State
  | .code o => codeStep s (.frame i) o
  | .submitToScheduler g =>
    if (s.frames g).owner = .frame i ∧ (s.frames g).status = .initial then
      some ((s.accept g).submitTask g)
    else none
  | .await g =>
    match (s.frames g).status with
    | .initial =>
      if (s.frames g).owner = .detached then none
      else
        some { (s.setStatus i (.awaiting g)).setFrame g
            { s.frames g with status := .running, caller := some i } with
          worker := .running popped g }
    | .final => some s
    | _ => none
  | .yield => some { (s.setStatus i .suspended).submitTask i with worker := .resumed popped }
  | .suspendIo r =>
    if r.handle = i then
      some { s.setStatus i .suspended with
        engine := s.engine.submitIo r, worker := .resumed popped }
    else none
  | .park =>
    some { s.setStatus i .suspended with parked := s.parked ++ [i], worker := .resumed popped }
  | .wake g =>
    if g ∈ s.parked then some ({ s with parked := s.parked.erase g }.submitTask g) else none
  | .finish =>
    let t := s.setFrame i { s.frames i with status := .final, finished := true }
    match (s.frames i).caller with
    | some p => some { t.setStatus p .running with worker := .running popped p }
    | none => some { t with worker := .resumed popped }

/-- `process_work_once` outside of `handle.resume()` and `handle.done()`. -/
def workerStep (s : State) : Option State :=
  match s.worker with
  | .forLoop =>
    match s.batch with
    | [] => some { s with worker := .idle }
    | h :: rest =>
      some { s.setStatus h .running with
        engine := s.engine.onTaskResumeBegin, batch := rest, worker := .running h h }
  | .destroy h =>
    some { s.destroyFrame h with destroyed := s.destroyed ++ [h], worker := .completed h }
  | .completed h =>
    some { s with
      pending := fetchSub s.pending 1, completed := s.completed ++ [h], worker := .forLoop }
  | _ => none

/-- What `done()` may answer: on a destroyed frame the answer is arbitrary. -/
def DoneAnswer (status : Status) (answer : Bool) : Prop :=
  status = .destroyed ∨ answer = decide (status = .final)

instance (status : Status) (answer : Bool) : Decidable (DoneAnswer status answer) :=
  inferInstanceAs (Decidable (_ ∨ _))

def step (s : State) : Action → Option State
  | .client o => codeStep s .client o
  | .push h =>
    if h ∈ s.pushing then some ({ s with pushing := s.pushing.erase h }.submitTask h) else none
  | .stopAccepting => some { s with accepting := false }
  | .popBatch =>
    if s.worker = .idle then
      let (batch, engine) := s.engine.popBatch kProcessBatchSize
      some { s with engine, batch, worker := .forLoop }
    else none
  | .worker => workerStep s
  | .body b =>
    match s.worker with
    | .running popped current => bodyStep s popped current b
    | _ => none
  | .checkDone answer =>
    match s.worker with
    | .resumed h =>
      if DoneAnswer (s.frames h).status answer then
        some { s with
          engine := s.engine.onTaskResumeEnd
          worker := if answer then .destroy h else .forLoop }
      else none
    | _ => none
  | .pollSubmit rets =>
    if s.worker = .idle then
      match s.engine.pollSubmit kIoPollBatchSize rets with
      | .ok (engine, _) => some { s with engine }
      | .error _ => none
    else none
  | .reap =>
    if s.worker = .idle then s.engine.reapOne.map fun engine => { s with engine } else none
  | .complete k result =>
    (s.engine.uring.complete k result).map fun uring =>
      { s with engine := { s.engine with uring } }

end TinyCoroutine.Task
