import TinyCoroutine.Runtime.Ledger
import TinyCoroutine.Runtime.Unchanged
import TinyCoroutine.Foundation.Sums

/-!
# The ledger of a state

`State.ledger` reads the ledger off a state of the scheduler: every queue, batch, ring
and thread contributes the marks of the coroutines it has. Client code that pushes into
an engine directly, past the scheduler, is left out (`Action.direct`): such handles
are not accepted tasks.
-/
namespace TinyCoroutine.Runtime

open Foundation

variable {s t : State} {a : Action} {c : Nat} {x y : Context}

/-! ### Marks -/

def submissionMarks : Option SubmitPc → Multiset Mark
  | some (.stateLock h) => {⟨.submitting, h⟩}
  | some (.push c h) => {⟨.waiting (.pushing c), h⟩}
  | some (.notify _) => 0
  | none => 0

def WorkerPc.marks (c : Nat) : WorkerPc → Multiset Mark
  | .running h p => {⟨.running c, h⟩} + submissionMarks p
  | .resumed h => {⟨.resumed c, h⟩}
  | .destroy h => {⟨.destroying c, h⟩}
  | .completed h => {⟨.completing c, h⟩}
  | _ => 0

/-- The runnable handles of a context. -/
def Context.tasks (x : Context) : Multiset Handle := x.engine.taskQueue + x.batch

def Context.marks (c : Nat) (x : Context) : Multiset Mark :=
  x.tasks.map (Mark.mk (.waiting (.task c))) +
    x.engine.ioHandles.map (Mark.mk (.waiting (.io c))) + x.worker.marks c

def Call.marks (k : Call) : Multiset Mark := submissionMarks k.submission

def State.marks (s : State) : Multiset Mark :=
  sumIdx Context.marks s.ctxs + sumIdx (fun _ => Call.marks) s.calls +
    (s.parked : Multiset Handle).map (Mark.mk (.waiting .parked))

def State.ledger (s : State) : Ledger where
  marks := s.marks
  frames := s.frames
  pending := s.pending
  accepted := s.accepted
  completed := s.completed
  destroyed := s.destroyed
  outstanding := s.outstanding

/-! ### How the operations on a state move marks -/

theorem marks_setCtx (hx : s.ctxs[c]? = some x) :
    (s.setCtx c y).marks + x.marks c = s.marks + y.marks c := by
  have hset := sumIdx_set Context.marks y hx
  simp only [State.marks, State.setCtx]
  rw [add_right_comm, add_right_comm _ _ (x.marks c), hset]
  abel

/-- The marks that a context loses and gains, when the rest is the same. -/
theorem exchange_setCtx {out new : Multiset Mark} (rest : Multiset Mark)
    (hx : s.ctxs[c]? = some x) (hout : x.marks c = rest + out) (hnew : y.marks c = rest + new) :
    (s.setCtx c y).marks + out = s.marks + new := by
  have hset := marks_setCtx (y := y) hx
  rw [hout, hnew, add_left_comm, add_left_comm s.marks] at hset
  exact add_left_cancel hset

theorem marks_setCtx_of_eq (hx : s.ctxs[c]? = some x) (hy : y.marks c = x.marks c) :
    (s.setCtx c y).marks = s.marks := by
  have hsame : (s.setCtx c y).marks + 0 = s.marks + 0 :=
    exchange_setCtx (x.marks c) hx (by simp) (by simp [hy])
  simpa using hsame

theorem marks_setCall {i : Nat} {k : Call} (l : Call) (hi : s.calls[i]? = some k) :
    (s.setCall i l).marks + k.marks = s.marks + l.marks := by
  have hset := sumIdx_set (fun _ => Call.marks) l hi
  simp only [State.marks, State.setCall]
  rw [add_right_comm, add_assoc _ _ k.marks, hset]
  abel

theorem marks_setCall_of_eq {i : Nat} {k l : Call} (hi : s.calls[i]? = some k)
    (hk : l.marks = k.marks) : (s.setCall i l).marks = s.marks := by
  have hset := marks_setCall l hi
  rwa [hk, add_left_inj] at hset

theorem marks_addCall {k : Call} : (s.addCall k).marks = s.marks + k.marks := by
  simp only [State.marks, State.addCall, sumIdx_append]
  abel

theorem marks_modifyCtx {f : Context → Context} (hf : ∀ x, (f x).marks c = x.marks c) :
    (s.modifyCtx c f).marks = s.marks := by
  cases hx : s.ctxs[c]? with
  | none =>
    have : s.modifyCtx c f = s := by
      simp [State.modifyCtx, List.modify_eq_set_getElem?, hx]
    rw [this]
  | some x =>
    rw [State.modifyCtx_eq_setCtx hx]
    exact marks_setCtx_of_eq hx (hf x)

theorem marks_notified (pc : WorkerPc) : pc.notified.marks c = pc.marks c := by
  cases pc <;> rfl

theorem marks_notifyWorker : (s.notifyWorker c).marks = s.marks :=
  marks_modifyCtx fun x => by simp [Context.marks, Context.tasks, marks_notified]

theorem marks_notifyLoops : s.notifyLoops.marks = s.marks := by
  simp only [State.marks, State.notifyLoops]
  rw [sumIdx_map]
  intro _ k
  unfold Call.notified
  split <;> rfl

theorem marks_setSubmission {who : Submitter} {p : SubmitPc} (q : Option SubmitPc)
    (hp : s.submission who = some p) :
    (s.setSubmission q who).marks + submissionMarks (some p) = s.marks + submissionMarks q := by
  cases who with
  | call i =>
    obtain ⟨k, hi, hk⟩ := Option.bind_eq_some_iff.mp hp
    have hset := marks_setCall (.ofSubmission q) hi
    rw [Call.marks, hk] at hset
    rw [State.setSubmission, hset]
    cases q <;> rfl
  | worker d =>
    obtain ⟨z, hz, hzp⟩ := Option.bind_eq_some_iff.mp hp
    rw [State.setSubmission, State.modifyCtx_eq_setCtx hz]
    cases hw : z.worker with
    | running h r =>
      rw [hw] at hzp
      obtain rfl : r = some p := hzp
      refine exchange_setCtx (z.tasks.map (Mark.mk (.waiting (.task d))) +
        z.engine.ioHandles.map (Mark.mk (.waiting (.io d))) + {⟨.running d, h⟩}) hz ?_ ?_
      · rw [Context.marks, hw, WorkerPc.marks, ← add_assoc]
      · rw [Context.marks, WorkerPc.setSubmission, WorkerPc.marks, ← add_assoc]
        rfl
    | _ =>
      rw [hw] at hzp
      cases hzp

theorem marks_push {h : Handle} (hc : c < s.ctxs.length) :
    (s.modifyCtx c fun x => { x with engine := x.engine.submitTask h }).marks =
      s.marks + {⟨.waiting (.task c), h⟩} := by
  have hx := List.getElem?_eq_getElem hc
  rw [State.modifyCtx_eq_setCtx hx]
  rw [← add_zero (State.marks _)]
  refine exchange_setCtx (s.ctxs[c].marks c) hx (by simp) ?_
  simp only [Context.marks, Context.tasks, Engine.submitTask, Engine.ioHandles,
    ← Multiset.coe_add, Multiset.coe_singleton, Multiset.map_add, Multiset.map_singleton]
  abel

/-! ### States the ledger can be read off -/

/-- The call hands a request to an engine past the scheduler. -/
def Call.direct : Call → Bool
  | .submitIo _ _ => true
  | _ => false

def Action.direct : Action → Bool
  | .callSubmitTask _ _ => true
  | .callSubmitIo _ _ => true
  | _ => false

/-- The worker is inside the loop over `work_batch_`. -/
def WorkerPc.inBatch : WorkerPc → Bool
  | .forLoop => true
  | .running _ _ => true
  | .resumed _ => true
  | .destroy _ => true
  | .completed _ => true
  | .notifyCompletion => true
  | _ => false

/-- Outside of that loop nothing is left in the batch. -/
def Context.BatchOk (x : Context) : Prop := x.worker.inBatch = false → x.batch = []

structure Regular (s : State) : Prop where
  calls : s.calls.filter Call.direct = []
  batches : s.Each fun _ x => x.BatchOk

theorem Regular.init (n : Nat) : Regular (init n) where
  calls := rfl
  batches := .init fun _ _ => rfl

/-- There are no direct calls of `submit_io`. -/
theorem Regular.no_submitIo {i : Nat} {r : IoRequest} (I : Regular s)
    (hi : s.calls[i]? = some (.submitIo c r)) : False := by
  have := List.filter_eq_nil_iff.mp I.calls _ (List.mem_of_getElem? hi)
  simp [Call.direct] at this

theorem ContextUpdate.batchOk (h : ContextUpdate s a c x y) (hx : x.BatchOk) : y.BatchOk := by
  intro hw
  cases h with
  | setSubmission =>
    exact hx (by cases hpc : x.worker <;> simp_all [WorkerPc.setSubmission, WorkerPc.inBatch])
  | notified =>
    exact hx (by cases hpc : x.worker <;> simp_all [WorkerPc.notified, WorkerPc.inBatch])
  | push | beginIo | pushIo | requestStop | destroy | complete => exact hx hw
  | move _ hpc hm =>
    cases hm with
    | batchDone hempty => exact hempty
    | _ => exact hx (by simp [hpc, WorkerPc.inBatch])
  | work _ _ hm => cases hm <;> cases hw
  | reap _ hpc | pollSubmit _ hpc => exact hx (by simp [hpc, WorkerPc.inBatch])

theorem Regular.preserved (I : Regular s) (ha : a.direct = false) (h : Transition s a t) :
    Regular t := by
  refine ⟨?_, h.each (fun _ _ _ hu => hu.batchOk) I.batches⟩
  have hcalls := I.calls
  cases h with
  | callSubmit | callLoop | callStop => exact (filter_addCall rfl).trans hcalls
  | callSubmitTask | callSubmitIo => cases ha
  | reject hp | accept hp | push hp | notify hp =>
    rw [← hcalls]
    apply filter_setSubmission
    · exact hp
    · exact fun _ => rfl
    · rfl
  | pushIo hi => exact (I.no_submitIo hi).elim
  | moveCall hi hm =>
    exact (filter_setCall hi (by cases hm <;> rfl) (by cases hm <;> rfl)).trans hcalls
  | loopLock hi | loopPass hi | loopBlock hi | stopRequest hi | swap hi | requestStop hi
  | notifyStop hi | destroyContext hi => exact (filter_setCall hi rfl rfl).trans hcalls
  | stopNotify hi =>
    exact (filter_notifyLoops rfl rfl).trans ((filter_setCall hi rfl rfl).trans hcalls)
  | notifyCompletion => exact (filter_notifyLoops rfl rfl).trans hcalls
  | moveWorker | popBatch | resume | destroyFrame | completed | reap | suspend | bodySubmit | spawn
  | wake | checkDone | pollSubmit | complete => exact hcalls

end TinyCoroutine.Runtime
