import TinyCoroutine.Runtime.WindingDown

/-!
# The way of a worker to the end of `Context::run`

The steps that a worker takes by itself once its stop token is set, when its tasks finish as soon
as they are resumed and the kernel finishes the operations it holds. Every handle in a context
weighs less the closer it is to its end, and so does the place of the worker. `Context.load`
adds these weights; each of the steps lowers it.
-/
namespace TinyCoroutine.Runtime

open Foundation

variable {s t : State} {a : Action} {c i : Nat} {x y : Context} {g : Handle} {k : Call}

/-! ### The continuation -/

/-- No new call, no spurious wake-up, and a coroutine that is resumed runs to its end. -/
def Action.winding : Action → Bool
  | .submission _ => true
  | .call _ => true
  | .worker _ => true
  | .body _ .finish => true
  | .checkDone _ _ => true
  | .pollSubmit _ _ => true
  | .complete _ _ _ => true
  | _ => false

def WindsDown (s : State) (a : Action) : Prop :=
  StopNotifiesOutsideWindow s a ∧ a.winding = true

/-- The continuation leaves call `i` where it is. -/
def Besides (i : Nat) (s : State) (a : Action) : Prop := WindsDown s a ∧ a ≠ .call i

theorem WindsDown.unhindered (h : WindsDown s a) : Unhindered s a := by
  refine ⟨?_, h.1⟩
  have hw := h.2
  cases a <;> first | rfl | cases hw

/-- A call in `stop()` or `shutdown_contexts` is moved by its own thread only. -/
def Call.stopping : Call → Bool
  | .stop _ => true
  | .shutdown _ => true
  | _ => false

theorem Transition.keeps_call (h : Transition s a t) (ha : a ≠ .call i)
    (hi : s.calls[i]? = some k) (hk : k.stopping = true) : t.calls[i]? = some k := by
  have add (l : Call) : (s.calls ++ [l])[i]? = some k := by
    rw [List.getElem?_append_left (List.getElem?_eq_some_iff.mp hi).1, hi]
  have set {j : Nat} (l : Call) (hj : j ≠ i) : (s.calls.set j l)[i]? = some k := by
    rw [List.getElem?_set_ne hj, hi]
  have notified {l : List Call} (hl : l[i]? = some k) : (l.map Call.notified)[i]? = some k := by
    rw [List.getElem?_map, hl]
    cases k with
    | stop | shutdown => rfl
    | _ => cases hk
  have submission {who : Submitter} {p : SubmitPc} (p' : Option SubmitPc)
      (hp : s.submission who = some p) {u : State} (hu : u.calls = s.calls) :
      (u.setSubmission p' who).calls[i]? = some k := by
    cases who with
    | worker d => exact hu.symm ▸ hi
    | call j =>
      obtain ⟨l, hj, hl⟩ := Option.bind_eq_some_iff.mp hp
      have hji : j ≠ i := by
        rintro rfl
        obtain rfl := Option.some.inj (hi.symm.trans hj)
        cases k with
        | submit => cases hk
        | _ => cases hl
      show (u.calls.set j _)[i]? = some k
      rw [hu]
      exact set _ hji
  have other {j : Nat} (hj : a = .call j) : j ≠ i := by
    rintro rfl
    exact ha hj
  cases h with
  | callSubmit | callLoop | callStop | callSubmitTask | callSubmitIo => exact add _
  | reject hp | accept hp => exact submission _ hp rfl
  | push hp | notify hp => exact submission (u := s) _ hp rfl
  | moveCall hj hm =>
    cases hm with
    | loopSpurious =>
      refine set _ ?_
      rintro rfl
      obtain rfl := Option.some.inj (hi.symm.trans hj)
      cases hk
    | _ => exact set _ (other rfl)
  | pushIo | loopLock | loopPass | loopBlock | stopRequest | swap | requestStop | notifyStop
  | destroyContext => exact set _ (other rfl)
  | stopNotify => exact notified (set _ (other rfl))
  | notifyCompletion => exact notified hi
  | moveWorker | popBatch | resume | destroyFrame | completed | reap | suspend | bodySubmit | spawn
  | wake | checkDone | pollSubmit | complete => exact hi

/-! ### Weights -/

/-- The engine holds nothing, and the kernel holds nothing for it. -/
def Engine.idle (e : Engine) : Bool :=
  e.empty && e.uring.kernel.isEmpty && e.uring.cq.isEmpty

def Engine.load (e : Engine) : Nat :=
  8 * e.taskQueue.length + 40 * e.ioWaitingQueue.length +
    70 * (e.ioReadSubmitQueue.length + e.ioWriteSubmitQueue.length) +
    41 * e.uring.kernel.length + 40 * e.uring.cq.length

/-- How far the worker is from leaving if nothing that it holds needs to be run. -/
def WorkerPc.rank (e : Engine) : WorkerPc → Nat
  | .left => 0
  | .canStopInflight => if e.idle then 6 else 32
  | .canStopQueues => if e.idle then 7 else 33
  | .canStop => if e.idle then 8 else 34
  | .pollComplete p n => if p + n = 0 ∧ e.empty = true then 9 else 35
  | .pollSubmit => if e.taskQueue = [] then 10 else 40
  | .popBatch => 20
  | .forLoop => 21
  | .notifyCompletion => 22
  | .completed _ => 23
  | .destroy _ => 24
  | .resumed _ => 25
  | .running _ none => 26
  | .running _ (some (.notify _)) => 27
  | .running _ (some (.push _ _)) => 36
  | .running _ (some (.stateLock _)) => 37
  | .waitPredicate => 31
  | .blocked => 32
  | .waitBlock => 33

def Context.load (x : Context) : Nat :=
  x.engine.load + 6 * x.batch.length + x.worker.rank x.engine

/-- Without moving call `i`, the load of context `c` can be brought below that of `x`. -/
def State.Lowers (s : State) (i c : Nat) (x : Context) : Prop :=
  Reaches step (Besides i) s fun t =>
    ∃ y, t.ctxs[c]? = some y ∧ y.stopRequested = true ∧ y.load < x.load

theorem getElem?_setCtx_self (hx : s.ctxs[c]? = some x) : (s.setCtx c y).ctxs[c]? = some y :=
  List.getElem?_set_self (List.getElem?_eq_some_iff.mp hx).1

theorem Besides.worker (d : Nat) : Besides i s (.worker d) := ⟨⟨trivial, rfl⟩, by simp⟩

theorem step_worker (hx : s.ctxs[c]? = some x) : step s (.worker c) = workerStep s c x := by
  simp [step, hx]

/-- One step on context `c` that a thread other than call `i` takes. -/
theorem State.Lowers.of_step (hx : s.ctxs[c]? = some x) (hstop : x.stopRequested = true)
    (ht : t.ctxs = s.ctxs) (hs : step s a = some (t.setCtx c y)) (hc : Besides i s a)
    (hy : y.stopRequested = x.stopRequested) (hlt : y.load < x.load) : s.Lowers i c x :=
  .one hc hs ⟨y, getElem?_setCtx_self (ht ▸ hx), hy.trans hstop, hlt⟩

/-- One step of the worker of context `c` itself that changes nothing but its place. -/
theorem State.Lowers.of_move (pc : WorkerPc) (hx : s.ctxs[c]? = some x)
    (hstop : x.stopRequested = true)
    (hs : workerStep s c x = some (s.setCtx c { x with worker := pc }))
    (hlt : pc.rank x.engine < x.worker.rank x.engine) : s.Lowers i c x := by
  refine .of_step hx hstop rfl ((step_worker hx).trans hs) (.worker c) rfl ?_
  simpa [Context.load] using hlt

/-! ### The loop over the batch -/

theorem lowers_popBatch (hx : s.ctxs[c]? = some x) (hstop : x.stopRequested = true)
    (hw : x.worker = .popBatch) : s.Lowers i c x := by
  cases hq : x.engine.taskQueue with
  | nil =>
    refine .of_move .pollSubmit hx hstop ?_ ?_
    · simp [workerStep, hw, hq]
    · simp [hw, WorkerPc.rank, hq]
  | cons g rest =>
    refine .of_step (t := s) (y := { x with
        engine := (x.engine.popBatch kProcessBatchSize).2
        batch := (x.engine.popBatch kProcessBatchSize).1
        worker := .forLoop }) hx hstop rfl ((step_worker hx).trans ?_) (.worker c) rfl ?_
    · simp [workerStep, hw, hq]
    · simp only [Context.load, Engine.load, Engine.popBatch, kProcessBatchSize, hw, WorkerPc.rank,
        List.length_take, List.length_drop, hq, List.length_cons]
      omega

theorem lowers_forLoop (hx : s.ctxs[c]? = some x) (hstop : x.stopRequested = true)
    (hw : x.worker = .forLoop) : s.Lowers i c x := by
  cases hb : x.batch with
  | nil =>
    refine .of_move .popBatch hx hstop ?_ ?_
    · simp [workerStep, hw, hb]
    · simp [hw, WorkerPc.rank]
  | cons g rest =>
    refine .of_step (t := { s with frames := Function.update s.frames g ⟨.running, some c⟩ })
      (y := { x with
        engine := x.engine.onTaskResumeBegin, batch := rest, worker := .running g none })
      hx hstop rfl ((step_worker hx).trans ?_) (.worker c) rfl ?_
    · simp [workerStep, hw, hb]
    · simp only [Context.load, Engine.load, Engine.onTaskResumeBegin, hw, WorkerPc.rank, hb,
        List.length_cons]
      omega

theorem lowers_finish (hx : s.ctxs[c]? = some x) (hstop : x.stopRequested = true)
    (hw : x.worker = .running g none) : s.Lowers i c x := by
  refine .of_step (t := s.setStatus g .final) (a := .body c .finish)
    (y := { x with worker := .resumed g }) hx hstop rfl ?_ ⟨⟨trivial, rfl⟩, by simp⟩ rfl ?_
  · simp [step, hx, hw, bodyStep]
  · simp [Context.load, hw, WorkerPc.rank]

theorem lowers_checkDone (hx : s.ctxs[c]? = some x) (hstop : x.stopRequested = true)
    (hw : x.worker = .resumed g) : s.Lowers i c x := by
  refine .of_step (t := s) (a := .checkDone c (decide ((s.frames g).status = .final))) hx hstop rfl
    (y := { x with
      engine := x.engine.onTaskResumeEnd
      worker := if decide ((s.frames g).status = .final) then .destroy g else .forLoop })
    ?_ ⟨⟨trivial, rfl⟩, by simp⟩ rfl ?_
  · simp [step, hx, hw, DoneAnswer]
  · by_cases hfinal : (s.frames g).status = .final <;>
      simp [Context.load, Engine.load, Engine.onTaskResumeEnd, hw, WorkerPc.rank, hfinal]

theorem lowers_destroy (hx : s.ctxs[c]? = some x) (hstop : x.stopRequested = true)
    (hw : x.worker = .destroy g) : s.Lowers i c x := by
  refine .of_step (t := s.destroyFrame g) (y := { x with worker := .completed g }) hx hstop rfl
    ((step_worker hx).trans ?_) (.worker c) rfl ?_
  · simp [workerStep, hw]
  · simp [Context.load, hw, WorkerPc.rank]

theorem lowers_completed (hx : s.ctxs[c]? = some x) (hstop : x.stopRequested = true)
    (hw : x.worker = .completed g) : s.Lowers i c x := by
  refine .of_step (t := s.countOff g)
    (y := { x with worker := if s.pending = 1 then .notifyCompletion else .forLoop }) hx hstop rfl
    ((step_worker hx).trans ?_) (.worker c) rfl ?_
  · simp [workerStep, hw]
  · by_cases hlast : s.pending = 1 <;> simp [Context.load, hw, WorkerPc.rank, hlast]

theorem lowers_notifyCompletion (hx : s.ctxs[c]? = some x) (hstop : x.stopRequested = true)
    (hw : x.worker = .notifyCompletion) : s.Lowers i c x := by
  refine .of_step (t := s.notifyLoops) (y := { x with worker := .forLoop }) hx hstop rfl
    ((step_worker hx).trans ?_) (.worker c) rfl ?_
  · simp [workerStep, hw]
    rfl
  · simp [Context.load, hw, WorkerPc.rank]

/-! ### Polling -/

theorem Engine.exists_pollSubmit_lt {e : Engine} (hs : e.Submitted)
    (hdepth : kIoPollBatchSize ≤ e.uring.queueDepth) :
    ∃ rets e' p, e.pollSubmit kIoPollBatchSize rets = .ok (e', p) ∧
      e'.load + (WorkerPc.pollComplete p 0).rank e' < e.load + WorkerPc.pollSubmit.rank e := by
  obtain ⟨rets, hpoll⟩ := exists_pollSubmit hs hdepth
  refine ⟨rets, _, _, hpoll, ?_⟩
  simp only [load, WorkerPc.rank, kIoPollBatchSize, empty, List.length_append, List.length_take,
    List.length_drop, Nat.add_zero]
  cases e.taskQueue <;> cases e.ioWaitingQueue <;> cases e.ioReadSubmitQueue <;>
    cases e.ioWriteSubmitQueue <;> simp <;> omega

theorem lowers_pollSubmit (hx : s.ctxs[c]? = some x) (hstop : x.stopRequested = true)
    (hw : x.worker = .pollSubmit) (hs : x.engine.Submitted)
    (hdepth : kIoPollBatchSize ≤ x.engine.uring.queueDepth) : s.Lowers i c x := by
  obtain ⟨rets, e, p, hpoll, hlt⟩ := Engine.exists_pollSubmit_lt hs hdepth
  refine .of_step (t := s) (y := { x with engine := e, worker := .pollComplete p 0 })
    (a := .pollSubmit c rets) hx hstop rfl ?_ ⟨⟨trivial, rfl⟩, by simp⟩ rfl ?_
  · simp [step, hx, hw, hpoll]
  · simp only [Context.load, hw]
    omega

theorem WorkerPc.rank_pollComplete_le (p n : Nat) (e : Engine) :
    (WorkerPc.pollComplete p n).rank e ≤ 35 := by
  simp only [rank]
  split <;> omega

theorem WorkerPc.le_rank_pollComplete (p n : Nat) (e : Engine) :
    9 ≤ (WorkerPc.pollComplete p n).rank e := by
  simp only [rank]
  split <;> omega

theorem Engine.load_reapOne {e e' : Engine} (h : e.reapOne = some e') :
    e'.load + 32 = e.load := by
  unfold reapOne at h
  split at h
  · cases h
  · rename_i hcq
    cases h
    simp only [load, onIoInflightEnd, hcq, List.length_append, List.length_cons, List.length_nil]
    omega

theorem lowers_reap {p n : Nat} {e : Engine} (hx : s.ctxs[c]? = some x)
    (hstop : x.stopRequested = true) (hw : x.worker = .pollComplete p n)
    (hn : n < kIoPollBatchSize) (hreap : x.engine.reapOne = some e) : s.Lowers i c x := by
  refine .of_step (t := s) (y := { x with engine := e, worker := .pollComplete p (n + 1) }) hx hstop
    rfl ((step_worker hx).trans ?_) (.worker c) rfl ?_
  · simp [workerStep, hw, hn, hreap]
  · have hload := Engine.load_reapOne hreap
    have hle := WorkerPc.rank_pollComplete_le p (n + 1) e
    have hge := WorkerPc.le_rank_pollComplete p n x.engine
    simp only [Context.load, hw]
    omega

/-- The kernel finishes an operation that the worker would otherwise come back for. -/
theorem lowers_complete {p n : Nat} {b : IoAwaiter} {rest : List IoAwaiter}
    (hx : s.ctxs[c]? = some x) (hstop : x.stopRequested = true)
    (hw : x.worker = .pollComplete p n) (hkernel : x.engine.uring.kernel = b :: rest) :
    s.Lowers i c x := by
  let e := { x.engine with
    uring := { x.engine.uring with kernel := rest, cq := x.engine.uring.cq ++ [(b, 0)] } }
  refine .of_step (t := s) (a := .complete c 0 0) (y := { x with engine := e }) hx hstop rfl ?_
    ⟨⟨trivial, rfl⟩, by simp⟩ rfl ?_
  · simp [step, hx, IoUring.complete, hkernel, e]
  · have hload : e.load + 1 = x.engine.load := by
      simp only [Engine.load, hkernel, List.length_append, List.length_cons, List.length_nil, e]
      omega
    have hrank : (WorkerPc.pollComplete p n).rank e =
      (WorkerPc.pollComplete p n).rank x.engine := rfl
    simp only [Context.load, hw, hrank]
    omega

theorem lowers_pollComplete {p n : Nat} (hx : s.ctxs[c]? = some x) (hstop : x.stopRequested = true)
    (hw : x.worker = .pollComplete p n) : s.Lowers i c x := by
  cases hreap : if n < kIoPollBatchSize then x.engine.reapOne else none with
  | some e =>
    split at hreap
    · rename_i hn
      exact lowers_reap hx hstop hw hn hreap
    · cases hreap
  | none =>
    have hgoto : workerStep s c x = some (s.setCtx c
        { x with worker := if 0 < p + n then .popBatch else .canStop }) := by
      simp only [workerStep, hw, hreap]
    by_cases hpn : 0 < p + n
    · rw [if_pos hpn] at hgoto
      refine .of_move _ hx hstop hgoto ?_
      simp only [hw, WorkerPc.rank]
      split <;> omega
    · rw [if_neg hpn] at hgoto
      have hcq : x.engine.uring.cq = [] := by
        rw [if_pos (by unfold kIoPollBatchSize; omega)] at hreap
        unfold Engine.reapOne at hreap
        split at hreap
        · assumption
        · cases hreap
      cases hkernel : x.engine.uring.kernel with
      | cons b rest => exact lowers_complete hx hstop hw hkernel
      | nil =>
        refine .of_move _ hx hstop hgoto ?_
        simp only [hw, WorkerPc.rank, Engine.idle, hcq, hkernel, List.isEmpty_nil, Bool.and_true]
        split <;> split <;> grind

/-! ### Stopping -/

theorem lowers_canStop (hx : s.ctxs[c]? = some x) (hstop : x.stopRequested = true)
    (hw : x.worker = .canStop) : s.Lowers i c x := by
  refine .of_move .canStopQueues hx hstop ?_ ?_
  · simp [workerStep, hw, hstop]
  · simp only [hw, WorkerPc.rank]
    split <;> omega

theorem lowers_canStopQueues (hx : s.ctxs[c]? = some x) (hstop : x.stopRequested = true)
    (hw : x.worker = .canStopQueues) : s.Lowers i c x := by
  cases hempty : x.engine.empty with
  | true =>
    refine .of_move .canStopInflight hx hstop ?_ ?_
    · simp [workerStep, hw, hempty]
    · simp only [hw, WorkerPc.rank]
      split <;> omega
  | false =>
    refine .of_move .waitPredicate hx hstop ?_ ?_
    · simp [workerStep, hw, hempty]
    · simp [hw, WorkerPc.rank, Engine.idle, hempty]

/-- An engine that holds nothing has counted everything down. -/
theorem Engine.IoCounted.of_idle {e : Engine} (h : e.IoCounted) (hs : e.Submitted)
    (hidle : e.idle = true) : e.inflightIo = 0 := by
  simp only [idle, empty, Bool.and_eq_true, List.isEmpty_iff] at hidle
  obtain ⟨⟨⟨⟨⟨⟨-, hwait⟩, hr⟩, hwr⟩, -⟩, hkernel⟩, hcq⟩ := hidle
  unfold IoCounted at h
  simpa [ioHandles, IoUring.awaiters, hwait, hr, hwr, hkernel, hcq, hs.2] using h

theorem lowers_canStopInflight (hx : s.ctxs[c]? = some x) (hstop : x.stopRequested = true)
    (hw : x.worker = .canStopInflight) (hs : x.engine.Submitted) (hio : x.engine.IoCounted)
    (htasks : x.TasksCounted) : s.Lowers i c x := by
  cases hquiet : x.engine.quiet with
  | true =>
    refine .of_move .left hx hstop ?_ ?_
    · simp [workerStep, hw, hquiet]
    · simp only [hw, WorkerPc.rank]
      split <;> omega
  | false =>
    have hbusy : x.engine.idle = false := by
      refine Bool.eq_false_iff.mpr fun hidle => ?_
      have hnone : x.engine.inflightTasks = 0 := by
        simpa [Context.TasksCounted, hw, WorkerPc.resuming] using htasks
      simp [Engine.quiet, hnone, hio.of_idle hs hidle] at hquiet
    refine .of_move .waitPredicate hx hstop ?_ ?_
    · simp [workerStep, hw, hquiet]
    · simp [hw, WorkerPc.rank, hbusy]

theorem lowers_waitPredicate (hx : s.ctxs[c]? = some x) (hstop : x.stopRequested = true)
    (hw : x.worker = .waitPredicate) : s.Lowers i c x := by
  refine .of_move .popBatch hx hstop ?_ ?_
  · simp [workerStep, hw, Engine.hasWorkOrStop, hstop]
  · simp [hw, WorkerPc.rank]

theorem lowers_waitBlock (hx : s.ctxs[c]? = some x) (hstop : x.stopRequested = true)
    (hw : x.worker = .waitBlock) : s.Lowers i c x := by
  refine .of_move .blocked hx hstop ?_ ?_
  · simp [workerStep, hw]
  · simp [hw, WorkerPc.rank]

end TinyCoroutine.Runtime
