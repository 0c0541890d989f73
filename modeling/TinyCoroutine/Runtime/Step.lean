import TinyCoroutine.Runtime.State

/-!
# The steps of a scheduler, its workers and its clients

`step` interleaves the steps of all threads in any order. What the library does not
determine is part of the action: which calls clients make, what a running coroutine
does next, what `io_uring_submit` returns and when the kernel finishes an operation,
spurious wake-ups, and the answer of `done()` on a frame that no longer exists.

An exception that leaves `Context::run` ends the program, so a poll that throws has no
next state.
-/
namespace TinyCoroutine.Runtime

/-- What the code of a coroutine does next. -/
inductive BodyAction where
  /-- `co_await runtime::yield()` -/
  | yield
  /-- `co_await` of `io_suspend_once()`, `io::read` or `io::write` -/
  | suspendIo (r : IoRequest)
  /-- `Scheduler::submit` of a new coroutine -/
  | submit (g : Handle)
  /-- `submit_to_scheduler` of a new coroutine -/
  | submitToScheduler (g : Handle)
  /-- suspension in the wait queue of a channel, mutex or wait group -/
  | park
  /-- `reschedule_or_resume` of a coroutine parked in such a queue -/
  | wake (g : Handle)
  /-- arrival at `final_suspend` -/
  | finish
  deriving DecidableEq, Repr

inductive Action where
  | callSubmit (h : Handle)
  | callLoop
  | callStop
  /-- `Context::submit_task` called directly -/
  | callSubmitTask (c : Nat) (h : Handle)
  /-- `Context::submit_io_*` called directly -/
  | callSubmitIo (c : Nat) (r : IoRequest)
  /-- the next step of a submission -/
  | submission (who : Submitter)
  /-- the next step of any other call -/
  | call (i : Nat)
  | spuriousLoop (i : Nat)
  | worker (c : Nat)
  | spuriousWorker (c : Nat)
  | body (c : Nat) (b : BodyAction)
  | checkDone (c : Nat) (answer : Bool)
  | pollSubmit (c : Nat) (rets : List Int)
  /-- the kernel finishes an operation -/
  | complete (c k : Nat) (result : Int)
  deriving DecidableEq, Repr

def kProcessBatchSize : Nat := 64

def kIoPollBatchSize : Nat := 64

/-- `Scheduler::submit_new`, `Context::submit_task` and `Engine::submit_task`. -/
def submitStep (s : State) (who : Submitter) : Option State :=
  match s.submission who with
  | none => none
  | some (.stateLock h) =>
    if s.stateLocked then none
    else if !s.initialized || !s.accepting then
      some ((s.refuse h).setSubmission none who)
    else
      match s.contexts[s.next % s.contextCount]? with
      | none => none
      | some c =>
        some ({ s.accept h with next := (s.next + 1) % 2 ^ 64 }.setSubmission
          (some (.push c h)) who)
  | some (.push c h) =>
    if s.mutexFree c then
      some ((s.setSubmission (some (.notify c)) who).modifyCtx c fun x =>
        { x with engine := x.engine.submitTask h })
    else none
  | some (.notify c) => some ((s.setSubmission none who).notifyWorker c)

/-- `Scheduler::loop`, up to its `shutdown_contexts`. -/
def loopStep (s : State) (i : Nat) : LoopPc → Option State
  | .enter =>
    if s.stateLocked then none
    else if !s.initialized then
      some (s.setCall i
        (.threw (.logicError "runtime::Scheduler::init must be called before loop")))
    else some { s.setCall i (.loop .evaluate) with stateLocked := true }
  | .evaluate =>
    if s.stopRequested || s.pending == 0 then
      some { s.setCall i (.shutdown .swap) with accepting := false, stateLocked := false }
    else some (s.setCall i (.loop .block))
  | .block => some { s.setCall i (.loop .blocked) with stateLocked := false }
  | .blocked => none
  | .woken =>
    if s.stateLocked then none
    else some { s.setCall i (.loop .evaluate) with stateLocked := true }

/-- `Scheduler::stop`, up to its `shutdown_contexts`. -/
def stopStep (s : State) (i : Nat) : StopPc → Option State
  | .enter live =>
    if s.stateLocked then none
    else if !s.initialized then some (s.setCall i (.returned live))
    else some { s.setCall i (.stop .notifyAll) with accepting := false, stopRequested := true }
  | .notifyAll => some (s.setCall i (.shutdown .swap)).notifyLoops

def State.hasLeft (s : State) (c : Nat) : Bool := (s.ctxs[c]?).any fun x => x.worker = .left

/-- `Scheduler::shutdown_contexts`, and the destruction of the contexts at its end. -/
def shutdownStep (s : State) (i : Nat) : ShutdownPc → Option State
  | .swap =>
    if s.stateLocked then none
    else if !s.initialized then some (s.setCall i (.returned true))
    else some { s.setCall i (.shutdown (.requestStop s.contexts s.contexts)) with
      contexts := [], initialized := false }
  | .requestStop [] cs => some (s.setCall i (.shutdown (.join cs cs)))
  | .requestStop (c :: todo) cs =>
    some ((s.setCall i (.shutdown (.notifyStop c todo cs))).modifyCtx c fun x =>
      { x with stopRequested := true })
  | .notifyStop c todo cs =>
    some ((s.setCall i (.shutdown (.requestStop todo cs))).notifyWorker c)
  | .join [] cs => some (s.setCall i (.shutdown (.destroy cs)))
  | .join (c :: todo) cs =>
    if s.hasLeft c then some (s.setCall i (.shutdown (.join todo cs))) else none
  | .destroy [] => some (s.setCall i (.returned true))
  | .destroy (c :: todo) =>
    some ((s.setCall i (.shutdown (.destroy todo))).modifyCtx c fun x => { x with alive := false })

def callStep (s : State) (i : Nat) : Option State :=
  match s.calls[i]? with
  | some (.submitIo c r) =>
    if s.mutexFree c then
      some ((s.setCall i (.submit (.notify c))).modifyCtx c fun x =>
        { x with engine := x.engine.pushIo r })
    else none
  | some (.loop p) => loopStep s i p
  | some (.stop p) => stopStep s i p
  | some (.shutdown p) => shutdownStep s i p
  | _ => none

/-- `Context::run` outside of `handle.resume()`; `x` is the context at `c`. -/
def workerStep (s : State) (c : Nat) (x : Context) : Option State :=
  let goto (pc : WorkerPc) : State := s.setCtx c { x with worker := pc }
  match x.worker with
  | .popBatch =>
    if x.engine.taskQueue.isEmpty then some (goto .pollSubmit)
    else
      let (batch, engine) := x.engine.popBatch kProcessBatchSize
      some (s.setCtx c { x with engine, batch, worker := .forLoop })
  | .forLoop =>
    match x.batch with
    | [] => some (goto .popBatch)
    | h :: rest =>
      some ({ s with frames := Function.update s.frames h ⟨.running, some c⟩ }.setCtx c
        { x with engine := x.engine.onTaskResumeBegin, batch := rest, worker := .running h none })
  | .destroy h => some ((s.destroyFrame h).setCtx c { x with worker := .completed h })
  | .completed h =>
    some ((s.countOff h).setCtx c
      { x with worker := if s.pending = 1 then .notifyCompletion else .forLoop })
  | .notifyCompletion => some (goto .forLoop).notifyLoops
  | .pollComplete progressed completed =>
    match if completed < kIoPollBatchSize then x.engine.reapOne else none with
    | some engine =>
      some (s.setCtx c { x with engine, worker := .pollComplete progressed (completed + 1) })
    | none => some (goto (if 0 < progressed + completed then .popBatch else .canStop))
  | .canStop => some (goto (if x.stopRequested then .canStopQueues else .waitPredicate))
  | .canStopQueues => some (goto (if x.engine.empty then .canStopInflight else .waitPredicate))
  | .canStopInflight => some (goto (if x.engine.quiet then .left else .waitPredicate))
  | .waitPredicate =>
    some (goto (if x.engine.hasWorkOrStop x.stopRequested then .popBatch else .waitBlock))
  | .waitBlock => some (goto .blocked)
  | _ => none

/-- A coroutine `h` that worker `c` is running. -/
def bodyStep (s : State) (c : Nat) (x : Context) (h : Handle) : BodyAction → Option State
  | .yield =>
    some ((s.setStatus h .suspended).setCtx c
      { x with engine := x.engine.submitTask h, worker := .resumed h })
  | .suspendIo r =>
    if r.handle = h ∧ x.engine.IoRoom then
      some ((s.setStatus h .suspended).setCtx c
        { x with engine := x.engine.submitIo r, worker := .resumed h })
    else none
  | .submit g =>
    if s.fresh g then
      some ((s.create g).setCtx c { x with worker := .running h (some (.stateLock g)) })
    else none
  | .submitToScheduler g =>
    if s.fresh g then
      some (((s.create g).accept g).setCtx c
        { x with worker := .running h (some (.push c g)) })
    else none
  | .park =>
    some ({ s.setStatus h .suspended with parked := s.parked ++ [h] }.setCtx c
      { x with worker := .resumed h })
  | .wake g =>
    if g ∈ s.parked then
      some ({ s with parked := s.parked.erase g }.setCtx c
        { x with worker := .running h (some (.push c g)) })
    else none
  | .finish => some ((s.setStatus h .final).setCtx c { x with worker := .resumed h })

/-- What `done()` may answer: on a destroyed frame the answer is arbitrary. -/
def DoneAnswer (status : FrameStatus) (answer : Bool) : Prop :=
  status = .destroyed ∨ answer = decide (status = .final)

instance (status : FrameStatus) (answer : Bool) : Decidable (DoneAnswer status answer) :=
  inferInstanceAs (Decidable (_ ∨ _))

def step (s : State) : Action → Option State
  | .callSubmit h =>
    if s.fresh h then some ((s.create h).addCall (.submit (.stateLock h))) else none
  | .callLoop => some (s.addCall (.loop .enter))
  | .callStop => some (s.addCall (.stop (.enter s.initialized)))
  | .callSubmitTask c h =>
    if c < s.ctxs.length then some (s.addCall (.submit (.push c h))) else none
  | .callSubmitIo c r =>
    if c < s.ctxs.length then
      some ((s.addCall (.submitIo c r)).modifyCtx c fun x =>
        { x with engine := x.engine.onIoInflightBegin })
    else none
  | .submission who => submitStep s who
  | .call i => callStep s i
  | .spuriousLoop i =>
    match s.calls[i]? with
    | some (.loop .blocked) => some (s.setCall i (.loop .woken))
    | _ => none
  | .worker c => (s.ctxs[c]?).bind (workerStep s c)
  | .spuriousWorker c =>
    match s.ctxs[c]? with
    | some x =>
      if x.worker = .blocked then some (s.setCtx c { x with worker := .waitPredicate }) else none
    | none => none
  | .body c b =>
    match s.ctxs[c]? with
    | some x =>
      match x.worker with
      | .running h none => bodyStep s c x h b
      | _ => none
    | none => none
  | .checkDone c answer =>
    match s.ctxs[c]? with
    | some x =>
      match x.worker with
      | .resumed h =>
        if DoneAnswer (s.frames h).status answer then
          some (s.setCtx c { x with
            engine := x.engine.onTaskResumeEnd
            worker := if answer then .destroy h else .forLoop })
        else none
      | _ => none
    | none => none
  | .pollSubmit c rets =>
    match s.ctxs[c]? with
    | some x =>
      match x.worker, x.engine.pollSubmit kIoPollBatchSize rets with
      | .pollSubmit, .ok (engine, progressed) =>
        some (s.setCtx c { x with engine, worker := .pollComplete progressed 0 })
      | _, _ => none
    | none => none
  | .complete c k result =>
    match s.ctxs[c]? with
    | some x =>
      (x.engine.uring.complete k result).map fun uring =>
        s.setCtx c { x with engine := { x.engine with uring } }
    | none => none

end TinyCoroutine.Runtime
