import TinyCoroutine.Runtime.Engine

/-!
# The state of a scheduler between two steps

A scheduler that has been initialized, its contexts with their workers, and the calls
that clients have made so far. Every thread is represented by the place it has
reached in the source: a worker by a `WorkerPc`, a call by a `Call`. A place stands
before an access to shared state, so that one step performs one critical section or
one atomic operation.

Two mutexes are held over more than one step, both by a thread that evaluates the
predicate of a condition variable and then blocks: `state_mutex_` by `loop()`
(`stateLocked`), and the mutex of an engine by its own worker (`WorkerPc.waitBlock`).
-/
namespace TinyCoroutine.Runtime

/-- The life of a coroutine frame. `final` is suspension at `final_suspend`. -/
inductive FrameStatus where
  | none
  | suspended
  | running
  | final
  | destroyed
  deriving DecidableEq, Repr

/-- A frame, with the context whose worker resumed it last. -/
structure Frame where
  status : FrameStatus := .none
  resumedBy : Option Nat := none
  deriving DecidableEq, Repr

/-- `Scheduler::submit_new` and, from its second place on, `Engine::submit_task`. -/
inductive SubmitPc where
  | stateLock (h : Handle)
  | push (c : Nat) (h : Handle)
  | notify (c : Nat)
  deriving DecidableEq, Repr

/-- `Context::run`, with the functions it calls. -/
inductive WorkerPc where
  | popBatch
  | forLoop
  /-- Inside `handle.resume()`, in the coroutine's own code or in a submission it makes. -/
  | running (h : Handle) (submit : Option SubmitPc)
  /-- The coroutine has suspended or finished and `done()` is still to be asked. -/
  | resumed (h : Handle)
  | destroy (h : Handle)
  /-- Before the decrement in `on_task_completed`. -/
  | completed (h : Handle)
  | notifyCompletion
  | pollSubmit
  | pollComplete (progressed completed : Nat)
  | canStop
  | canStopQueues
  | canStopInflight
  | waitPredicate
  /-- The predicate was false; the worker holds the mutex and is about to block. -/
  | waitBlock
  | blocked
  | left
  deriving DecidableEq, Repr

structure Context where
  engine : Engine := {}
  stopRequested : Bool := false
  worker : WorkerPc := .popBatch
  /-- The part of `work_batch_` the loop has not reached yet. -/
  batch : List Handle := []
  alive : Bool := true

inductive LoopPc where
  | enter
  | evaluate
  /-- The predicate was false; the call holds `state_mutex_` and is about to block. -/
  | block
  | blocked
  | woken
  deriving DecidableEq, Repr

inductive StopPc where
  /-- `live` says whether `initialized_` was true when the call was made. -/
  | enter (live : Bool)
  | notifyAll
  deriving DecidableEq, Repr

/-- `Scheduler::shutdown_contexts`: `todo` are the contexts its current loop has not
reached yet, `cs` all the contexts it has taken over. -/
inductive ShutdownPc where
  | swap
  | requestStop (todo cs : List Nat)
  | notifyStop (c : Nat) (todo cs : List Nat)
  | join (todo cs : List Nat)
  | destroy (todo : List Nat)
  deriving DecidableEq, Repr

/-- A call made by a thread that is not a worker. -/
inductive Call where
  | submit (p : SubmitPc)
  /-- `Engine::submit_io_*` called directly, before its push. -/
  | submitIo (c : Nat) (r : IoRequest)
  | submitted
  | loop (p : LoopPc)
  | stop (p : StopPc)
  | shutdown (p : ShutdownPc)
  | returned (live : Bool)
  | threw (ex : Exn)
  deriving DecidableEq, Repr

structure State where
  stateLocked : Bool := false
  /-- `contexts_`, by position in `ctxs`. -/
  contexts : List Nat
  contextCount : Nat
  next : Nat := 0
  pending : Nat := 0
  stopRequested : Bool := false
  accepting : Bool := true
  initialized : Bool := true
  ctxs : List Context
  calls : List Call := []
  frames : Handle → Frame := fun _ => {}
  /-- Handles in the wait queues of channels, mutexes and wait groups. -/
  parked : List Handle := []
  /-- Handles counted in `pending`, in the order in which they were accepted. -/
  accepted : List Handle := []
  /-- Handles for which `on_task_completed` has decremented `pending`. -/
  completed : List Handle := []
  /-- Handles on which the scheduler has called `destroy()`. -/
  destroyed : List Handle := []
  /-- The coroutines given to the scheduler that were neither refused nor counted off. Each one
  takes memory: a frame, or the worker that has just destroyed it. -/
  outstanding : Nat := 0

/-- `Scheduler::init`. -/
def init (contextCount : Nat) : State :=
  let workerCount := if contextCount = 0 then 1 else contextCount
  { contexts := List.range workerCount, contextCount := workerCount
    ctxs := List.replicate workerCount {} }

/-- Who carries out a submission: a call, or the coroutine a worker is running. -/
inductive Submitter where
  | call (i : Nat)
  | worker (c : Nat)
  deriving DecidableEq, Repr

def WorkerPc.submission : WorkerPc → Option SubmitPc
  | .running _ p => p
  | _ => none

def WorkerPc.setSubmission (p : Option SubmitPc) : WorkerPc → WorkerPc
  | .running h _ => .running h p
  | pc => pc

/-- A notification of `cv_` reaches the worker only when it is blocked. -/
def WorkerPc.notified : WorkerPc → WorkerPc
  | .blocked => .waitPredicate
  | pc => pc

def Call.submission : Call → Option SubmitPc
  | .submit p => some p
  | _ => none

def Call.ofSubmission : Option SubmitPc → Call
  | some p => .submit p
  | none => .submitted

/-- A notification of `completion_cv_` reaches the calls that are blocked. -/
def Call.notified : Call → Call
  | .loop .blocked => .loop .woken
  | k => k

namespace State

variable (s : State)

/-- `h` can be created: it does not exist yet, and there is memory for another coroutine. -/
def fresh (h : Handle) : Prop := (s.frames h).status = .none ∧ s.outstanding + 1 < 2 ^ 64

instance (h : Handle) : Decidable (s.fresh h) := inferInstanceAs (Decidable (_ ∧ _))

def setStatus (h : Handle) (status : FrameStatus) : State :=
  { s with frames := Function.update s.frames h { s.frames h with status } }

def setCtx (c : Nat) (x : Context) : State := { s with ctxs := s.ctxs.set c x }

def modifyCtx (c : Nat) (f : Context → Context) : State := { s with ctxs := s.ctxs.modify c f }

def setCall (i : Nat) (k : Call) : State := { s with calls := s.calls.set i k }

def addCall (k : Call) : State := { s with calls := s.calls ++ [k] }

/-- The mutex of engine `c` can be taken: its worker does not hold it across a step. -/
def mutexFree (c : Nat) : Bool := (s.ctxs[c]?).any fun x => x.worker ≠ .waitBlock

def submission : Submitter → Option SubmitPc
  | .call i => (s.calls[i]?).bind Call.submission
  | .worker c => (s.ctxs[c]?).bind fun x => x.worker.submission

def setSubmission (p : Option SubmitPc) : Submitter → State
  | .call i => s.setCall i (.ofSubmission p)
  | .worker c => s.modifyCtx c fun x => { x with worker := x.worker.setSubmission p }

section

variable (p : Option SubmitPc) (who : Submitter)

@[simp] theorem stateLocked_setSubmission :
    (s.setSubmission p who).stateLocked = s.stateLocked := by cases who <;> rfl

@[simp] theorem contexts_setSubmission : (s.setSubmission p who).contexts = s.contexts := by
  cases who <;> rfl

@[simp] theorem pending_setSubmission : (s.setSubmission p who).pending = s.pending := by
  cases who <;> rfl

@[simp] theorem stopRequested_setSubmission :
    (s.setSubmission p who).stopRequested = s.stopRequested := by cases who <;> rfl

@[simp] theorem accepting_setSubmission : (s.setSubmission p who).accepting = s.accepting := by
  cases who <;> rfl

@[simp] theorem initialized_setSubmission :
    (s.setSubmission p who).initialized = s.initialized := by cases who <;> rfl

@[simp] theorem frames_setSubmission : (s.setSubmission p who).frames = s.frames := by
  cases who <;> rfl

@[simp] theorem parked_setSubmission : (s.setSubmission p who).parked = s.parked := by
  cases who <;> rfl

@[simp] theorem accepted_setSubmission : (s.setSubmission p who).accepted = s.accepted := by
  cases who <;> rfl

@[simp] theorem completed_setSubmission : (s.setSubmission p who).completed = s.completed := by
  cases who <;> rfl

@[simp] theorem destroyed_setSubmission : (s.setSubmission p who).destroyed = s.destroyed := by
  cases who <;> rfl

@[simp] theorem outstanding_setSubmission :
    (s.setSubmission p who).outstanding = s.outstanding := by cases who <;> rfl

end

/-- A coroutine is called and suspends initially, for its handle to be submitted. -/
def create (h : Handle) : State :=
  { s with
    frames := Function.update s.frames h { s.frames h with status := .suspended }
    outstanding := s.outstanding + 1 }

/-- A frame that is destroyed by the scheduler. -/
def destroyFrame (h : Handle) : State :=
  { s.setStatus h .destroyed with destroyed := s.destroyed ++ [h] }

/-- A submission is refused and the frame destroyed. -/
def refuse (h : Handle) : State :=
  { s with
    frames := Function.update s.frames h { s.frames h with status := .destroyed }
    destroyed := s.destroyed ++ [h]
    outstanding := s.outstanding - 1 }

/-- `pending_tasks_.fetch_add(1)` on behalf of `h`. -/
def accept (h : Handle) : State :=
  { s with pending := fetchAdd s.pending 1, accepted := s.accepted ++ [h] }

/-- `pending_tasks_.fetch_sub(1)` on behalf of `h`. -/
def countOff (h : Handle) : State :=
  { s with
    pending := fetchSub s.pending 1
    completed := s.completed ++ [h]
    outstanding := s.outstanding - 1 }

/-- `cv_.notify_one()` or `cv_.notify_all()`: only the worker ever waits there. -/
def notifyWorker (c : Nat) : State :=
  s.modifyCtx c fun x => { x with worker := x.worker.notified }

/-- `completion_cv_.notify_all()`. -/
def notifyLoops : State := { s with calls := s.calls.map Call.notified }

variable {s}

theorem modifyCtx_eq_setCtx {c : Nat} {x : Context} {f : Context → Context}
    (hx : s.ctxs[c]? = some x) : s.modifyCtx c f = s.setCtx c (f x) := by
  simp [modifyCtx, setCtx, List.modify_eq_set_getElem?, hx]

theorem mutexFree_iff {c : Nat} :
    s.mutexFree c = true ↔ ∃ x, s.ctxs[c]? = some x ∧ x.worker ≠ .waitBlock := by
  unfold mutexFree
  cases s.ctxs[c]? <;> simp

theorem submission_setSubmission {who : Submitter} {p q : SubmitPc}
    (hp : s.submission who = some p) : (s.setSubmission (some q) who).submission who = some q := by
  cases who with
  | call i =>
    obtain ⟨k, hi, -⟩ := Option.bind_eq_some_iff.mp hp
    simp [submission, setSubmission, setCall, Call.ofSubmission, Call.submission,
      (List.getElem?_eq_some_iff.mp hi).1]
  | worker c =>
    obtain ⟨x, hx, hxp⟩ := Option.bind_eq_some_iff.mp hp
    rw [setSubmission, modifyCtx_eq_setCtx hx]
    cases hw : x.worker <;>
      simp_all [submission, setCtx, WorkerPc.submission, WorkerPc.setSubmission,
        (List.getElem?_eq_some_iff.mp hx).1]

theorem getElem?_setCtx {c d : Nat} {x y z : Context} (hx : s.ctxs[c]? = some x)
    (hz : (s.setCtx c y).ctxs[d]? = some z) : c = d ∧ z = y ∨ c ≠ d ∧ s.ctxs[d]? = some z := by
  by_cases hcd : c = d
  · subst hcd
    have hlt := (List.getElem?_eq_some_iff.mp hx).1
    rw [setCtx, List.getElem?_set_self hlt] at hz
    exact .inl ⟨rfl, (Option.some.inj hz).symm⟩
  · rw [setCtx, List.getElem?_set_ne hcd] at hz
    exact .inr ⟨hcd, hz⟩

theorem getElem?_modifyCtx {c d : Nat} {f : Context → Context} {z : Context}
    (hz : (s.modifyCtx c f).ctxs[d]? = some z) :
    ∃ x, s.ctxs[d]? = some x ∧ z = if c = d then f x else x := by
  simp only [modifyCtx, List.getElem?_modify] at hz
  obtain ⟨x, hx, rfl⟩ := Option.map_eq_some_iff.mp hz
  refine ⟨x, hx, ?_⟩
  split <;> rfl

end State

end TinyCoroutine.Runtime
