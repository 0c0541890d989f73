import TinyCoroutine.Runtime.Drain

/-!
# The counters of an engine

`inflight_tasks_`, `pending_submit_count_` and `inflight_io_` along every run of a scheduler
whose contexts are used by the library only. A worker counts itself in `inflight_tasks_` while it
is inside `handle.resume()`, and nobody else does, so when it asks `can_stop` itself that counter
is zero. Everything prepared is submitted in the critical section that prepares it. A worker
that goes to sleep has no I/O in flight, so the completion of an operation has nobody to wake.
-/
namespace TinyCoroutine.Runtime

open Foundation

variable {s t : State} {a : Action} {c : Nat} {x y : Context}

/-- How often the worker counts in `inflight_tasks_`. -/
def WorkerPc.resuming : WorkerPc → Nat
  | .running _ _ => 1
  | .resumed _ => 1
  | _ => 0

/-- The worker sleeps, or is about to. -/
def WorkerPc.asleep : WorkerPc → Bool
  | .waitBlock => true
  | .blocked => true
  | _ => false

@[simp] theorem WorkerPc.resuming_setSubmission (pc : WorkerPc) (p : Option SubmitPc) :
    (pc.setSubmission p).resuming = pc.resuming := by
  cases pc <;> rfl

@[simp] theorem WorkerPc.resuming_notified (pc : WorkerPc) :
    pc.notified.resuming = pc.resuming := by
  cases pc <;> rfl

/-- `inflight_tasks_` counts the worker itself, and only while it resumes a handle. -/
def Context.TasksCounted (x : Context) : Prop := x.engine.inflightTasks = x.worker.resuming

/-- Nothing is prepared and not submitted. -/
def Engine.Submitted (e : Engine) : Prop := e.pendingSubmitCount = 0 ∧ e.uring.sq = []

theorem Suspension.counters {h : Handle} {e e' : Engine} {b : BodyAction} {status : FrameStatus}
    {parked : List Handle} (hs : Suspension h e b status e' parked) :
    e'.inflightTasks = e.inflightTasks ∧ e'.pendingSubmitCount = e.pendingSubmitCount ∧
      e'.uring = e.uring := by
  cases hs with
  | yield | park | finish => exact ⟨rfl, rfl, rfl⟩
  | @suspendIo r => cases r <;> exact ⟨rfl, rfl, rfl⟩

theorem ContextUpdate.tasksCounted (h : ContextUpdate s a c x y) (hx : x.TasksCounted) :
    y.TasksCounted := by
  unfold Context.TasksCounted at hx ⊢
  cases h with
  | setSubmission | notified => simpa using hx
  | push | beginIo | requestStop | destroy | complete => exact hx
  | @pushIo _ _ r => cases r <;> exact hx
  | move _ hpc hm => cases hm <;> simpa [hpc, WorkerPc.resuming] using hx
  | work _ hpc hm =>
    cases hm with
    | suspend hsus => simpa [hsus.counters.1, hpc, WorkerPc.resuming] using hx
    | again | done =>
      simp only [hpc, WorkerPc.resuming] at hx
      simp [Engine.onTaskResumeEnd, hx, WorkerPc.resuming, fetchSub]
    | resume =>
      simp only [hpc, WorkerPc.resuming] at hx
      simp [Engine.onTaskResumeBegin, hx, WorkerPc.resuming, fetchAdd]
    | popBatch | submit | destroyed | completed | last | notified =>
      simpa [Engine.popBatch, hpc, WorkerPc.resuming] using hx
  | reap _ hpc hreap =>
    obtain ⟨-, -, -, -, htasks, -⟩ := Engine.reapOne_some hreap
    simpa [htasks, hpc, WorkerPc.resuming] using hx
  | pollSubmit _ hpc hpoll =>
    obtain ⟨-, -, -, htasks, -⟩ := Engine.pollSubmit_ok hpoll
    simpa [htasks, hpc, WorkerPc.resuming] using hx

theorem ContextUpdate.submitted (h : ContextUpdate s a c x y) (hx : x.engine.Submitted) :
    y.engine.Submitted := by
  cases h with
  | setSubmission | notified | push | beginIo | requestStop | destroy | move => exact hx
  | @pushIo _ _ r => cases r <;> exact hx
  | work _ _ hm =>
    cases hm with
    | suspend hsus =>
      obtain ⟨-, hcount, hring⟩ := hsus.counters
      exact ⟨hcount.trans hx.1, (congrArg IoUring.sq hring).trans hx.2⟩
    | _ => exact hx
  | reap _ _ hreap =>
    obtain ⟨-, -, -, -, -, hcount, hring⟩ := Engine.reapOne_some hreap
    exact ⟨hcount.trans hx.1, hring.trans hx.2⟩
  | pollSubmit _ _ hpoll =>
    obtain ⟨-, -, -, -, hcount, hring⟩ := Engine.pollSubmit_ok hpoll
    exact ⟨hcount, hring (by rw [hx.1, hx.2]; rfl)⟩
  | complete _ hring =>
    obtain ⟨b, -, rfl⟩ := Option.map_eq_some_iff.mp hring
    exact hx

/-- A worker blocks only when its predicate is false, and while it sleeps only the worker itself
could submit I/O. -/
theorem ContextUpdate.asleep (h : ContextUpdate s a c x y) (hs : Regular s) (ha : a.direct = false)
    (hx : x.worker.asleep = true → x.engine.inflightIo = 0) :
    y.worker.asleep = true → y.engine.inflightIo = 0 := by
  intro hw
  cases h with
  | setSubmission =>
    exact hx (by cases hpc : x.worker <;> simp_all [WorkerPc.setSubmission, WorkerPc.asleep])
  | notified =>
    exact hx (by cases hpc : x.worker <;> simp_all [WorkerPc.notified, WorkerPc.asleep])
  | push | requestStop | destroy | complete => exact hx hw
  | beginIo heq =>
    subst heq
    cases ha
  | pushIo hi => exact (hs.no_submitIo hi).elim
  | move _ hpc hm =>
    cases hm with
    | waitFalse hfalse =>
      simp only [Engine.hasWorkOrStop, Bool.or_eq_false_iff, bne_eq_false_iff_eq] at hfalse
      exact hfalse.2
    | block => exact hx (by simp [hpc, WorkerPc.asleep])
    | _ => cases hw
  | work _ _ hm => cases hm <;> cases hw
  | reap | pollSubmit => cases hw

/-! ### Along a run -/

structure CountersExact (s : State) : Prop where
  regular : Regular s
  tasks : s.Each fun _ x => x.TasksCounted
  submitted : s.Each fun _ x => x.engine.Submitted
  io : s.Each fun _ x => x.engine.IoCounted
  asleep : s.Each fun _ x => x.worker.asleep = true → x.engine.inflightIo = 0

theorem CountersExact.init (n : Nat) : CountersExact (init n) where
  regular := .init n
  tasks := .init fun _ => rfl
  submitted := .init fun _ => ⟨rfl, rfl⟩
  io := .init fun _ => rfl
  asleep := .init fun _ _ => rfl

theorem CountersExact.preserved (I : CountersExact s) (ha : a.direct = false)
    (h : Transition s a t) : CountersExact t where
  regular := I.regular.preserved ha h
  tasks := h.each (fun _ _ _ hu => hu.tasksCounted) I.tasks
  submitted := h.each (fun _ _ _ hu => hu.submitted) I.submitted
  io := h.ioCounted I.regular ha I.io
  asleep := h.each (fun _ _ _ hu => hu.asleep I.regular ha) I.asleep

theorem CountersExact.of_run {n : Nat} (h : Run step Managed (Runtime.init n) s) :
    CountersExact s :=
  h.invariant (.init n) fun I ha ht => I.preserved ha (step_transition ht)

/-- The counters of an engine, and what `can_stop` reads from them. -/
structure Context.Counted (x : Context) : Prop where
  tasks : x.engine.inflightTasks = x.worker.resuming
  submitted : x.engine.pendingSubmitCount = 0 ∧ x.engine.uring.sq = []
  io : x.engine.inflightIo = Multiset.card x.engine.ioHandles
  /-- The worker is the only one to ask, and it is not inside `handle.resume()` then. -/
  quiet : x.worker = .canStopInflight → (x.engine.quiet = true ↔ x.engine.ioHandles = 0)
  asleep : x.worker = .waitBlock ∨ x.worker = .blocked → x.engine.ioHandles = 0

/-- Every counter of an engine is exact in every state of a run. -/
theorem engine_counters_exact {n : Nat} (run : Run step Managed (init n) s)
    (hx : s.ctxs[c]? = some x) : x.Counted := by
  have I := CountersExact.of_run run
  have htasks : x.engine.inflightTasks = x.worker.resuming := I.tasks c x hx
  have hio : x.engine.inflightIo = Multiset.card x.engine.ioHandles := I.io c x hx
  refine ⟨htasks, I.submitted c x hx, hio, fun hw => ?_, fun hw => ?_⟩
  · rw [hw] at htasks
    simp [Engine.quiet, htasks, WorkerPc.resuming, hio]
  · have hzero : x.engine.inflightIo = 0 := by
      refine I.asleep c x hx ?_
      rcases hw with hw | hw <;> simp [hw, WorkerPc.asleep]
    rw [← Multiset.card_eq_zero, ← hio, hzero]

/-- A worker whose queues are empty asks `can_stop` while the kernel holds an operation of it. -/
theorem engine_counters_exact_inflight :
    ∃ s x, Run step Managed (init 1) s ∧ s.ctxs[0]? = some x ∧ x.worker = .canStopInflight ∧
      x.engine.uring.kernel ≠ [] ∧ x.Counted := by
  obtain ⟨s, run, x, hx, hw, hkernel⟩ := exists_run step Managed (init 1)
    [.callSubmit 7, .submission (.call 0), .submission (.call 0), .submission (.call 0),
      .worker 0, .worker 0, .body 0 (.suspendIo (.read ⟨.read, 0, 3, 0, 1, 0, 7⟩)),
      .checkDone 0 false, .worker 0, .worker 0, .pollSubmit 0 [1], .worker 0, .worker 0,
      .pollSubmit 0 [], .worker 0, .callStop, .call 1, .call 1, .call 1, .call 1, .worker 0,
      .worker 0]
    (fun s => ∃ x ∈ s.ctxs[0]?, x.worker = .canStopInflight ∧ x.engine.uring.kernel ≠ [])
    (by decide)
  exact ⟨s, x, run, hx, hw, hkernel, engine_counters_exact run hx⟩

end TinyCoroutine.Runtime
