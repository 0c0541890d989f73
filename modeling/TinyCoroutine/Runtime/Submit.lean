import TinyCoroutine.Runtime.Closing
import TinyCoroutine.Runtime.Migration
import TinyCoroutine.Runtime.Shutdown
import TinyCoroutine.Runtime.Tracking

/-!
# Submission against shutdown

`submit_new` decides under `state_mutex_` whether a handle is accepted and by which
context, and pushes it after the mutex has been released. In between the scheduler may
be stopped, and the worker may make its last `can_stop` test: then the push goes to an
engine nobody serves, or to a context that has been destroyed
(`accepted_task_dropped`). When no worker passes its queue test while a push to it is
still to come (`TestsAfterPushes`), every accepted handle is pushed to a live worker and
resumed before the contexts are destroyed.
-/
namespace TinyCoroutine.Runtime

open Foundation

variable {s t : State} {a : Action} {c : Nat} {x : Context} {g : Handle}

/-! ### The last test of a worker -/

/-- The worker has found its queues empty and will leave. -/
def WorkerPc.tested : WorkerPc → Bool
  | .canStopInflight => true
  | .left => true
  | _ => false

/-- How a worker comes to be past its test: it was before, and its queue has not changed
unless by a pending push, or it has just made the test. -/
structure TestedFrom (s : State) (a : Action) (c : Nat) (x y : Context) : Prop where
  before : s.ctxs[c]? = some x
  quiet : y.engine.quiet = x.engine.quiet
  step : x.worker.tested = true ∧
      (y.engine.taskQueue = x.engine.taskQueue ∨ ∃ w g, s.submission w = some (.push c g)) ∨
    x.worker = .canStopQueues ∧ x.engine.empty = true ∧ a = .worker c ∧
      y.engine.taskQueue = x.engine.taskQueue

theorem Transition.tested_from (h : Transition s a t) (ha : a.direct = false) (hs : Regular s) :
    t.Each fun c y => y.worker.tested = true → ∃ x, TestedFrom s a c x y := by
  have hb : s.Each fun c y => y.worker.tested = true → ∃ x, TestedFrom s a c x y :=
    fun c x hx hw => ⟨x, hx, rfl, .inl ⟨hw, .inl rfl⟩⟩
  refine h.each (fun c x y hu hx hw => ?_) hb
  cases hu with
  | setSubmission =>
    have htested : x.worker.tested = true := by
      cases hpc : x.worker <;> simp_all [WorkerPc.setSubmission, WorkerPc.tested]
    obtain ⟨z, hz, hq, hstep⟩ := hx htested
    exact ⟨z, hz, hq, hstep⟩
  | notified =>
    have htested : x.worker.tested = true := by
      cases hpc : x.worker <;> simp_all [WorkerPc.notified, WorkerPc.tested]
    obtain ⟨z, hz, hq, hstep⟩ := hx htested
    exact ⟨z, hz, hq, hstep⟩
  | @push _ who g heq hp =>
    subst heq
    obtain ⟨z, hz, hq, hold | hnew⟩ := hx hw
    · exact ⟨z, hz, hq, .inl ⟨hold.1, .inr ⟨who, g, hp⟩⟩⟩
    · cases hnew.2.2.1
  | beginIo heq =>
    subst heq
    cases ha
  | pushIo hi => exact (hs.no_submitIo hi).elim
  | requestStop | destroy | complete =>
    obtain ⟨z, hz, hq, hstep⟩ := hx hw
    exact ⟨z, hz, hq, hstep⟩
  | move hctx hpc hm =>
    refine ⟨x, hctx, rfl, ?_⟩
    cases hm with
    | queuesEmpty hempty => exact .inr ⟨hpc, hempty, rfl, rfl⟩
    | leave => exact .inl ⟨by simp [hpc, WorkerPc.tested], .inl rfl⟩
    | _ => cases hw
  | work _ _ hm => cases hm <;> cases hw
  | reap | pollSubmit => cases hw

/-- A worker leaves only when its engine is quiet, and the engine stays so. -/
theorem Transition.quiet_of_left (h : Transition s a t) (ha : a.direct = false) (hs : Regular s)
    (hb : s.Each fun _ x => x.worker = .left → x.engine.quiet = true) :
    t.Each fun _ x => x.worker = .left → x.engine.quiet = true := by
  refine h.each (fun c x y hu hx hw => ?_) hb
  cases hu with
  | setSubmission => exact hx (by cases hpc : x.worker <;> simp_all [WorkerPc.setSubmission])
  | notified => exact hx (by cases hpc : x.worker <;> simp_all [WorkerPc.notified])
  | push | requestStop | destroy | complete => exact hx hw
  | beginIo heq =>
    subst heq
    cases ha
  | pushIo hi => exact (hs.no_submitIo hi).elim
  | move _ _ hm =>
    cases hm with
    | leave hquiet => exact hquiet
    | _ => cases hw
  | work _ _ hm => cases hm <;> cases hw
  | reap | pollSubmit => cases hw

/-- Only `shutdown_contexts` destroys a context, after it has joined all workers. -/
theorem Transition.alive (h : Transition s a t) (I : ShutdownInv s)
    (hb : s.Each fun _ x => x.alive = false → x.worker = .left) :
    t.Each fun _ x => x.alive = false → x.worker = .left := by
  refine h.each (fun c x y hu hx hdead => ?_) hb
  have hleft := hu.left
  cases hu with
  | destroy hctx hi => exact I.joined _ (List.mem_of_getElem? hi) x (List.mem_of_getElem? hctx)
  | _ => exact hleft (hx hdead)

/-! ### The condition and the invariant -/

def SubmitPc.pushesTo (c : Nat) : SubmitPc → Bool
  | .push d _ => d == c
  | _ => false

/-- Some submitter has chosen context `c` and not pushed yet. -/
def State.pushing (s : State) (c : Nat) : Bool :=
  s.calls.any (fun k => k.submission.any (SubmitPc.pushesTo c)) ||
    s.ctxs.any fun x => x.worker.submission.any (SubmitPc.pushesTo c)

theorem State.pushing_of_submission {w : Submitter} (hp : s.submission w = some (.push c g)) :
    s.pushing c = true := by
  unfold State.pushing
  cases w with
  | call i =>
    obtain ⟨k, hk, hkp⟩ := Option.bind_eq_some_iff.mp hp
    refine Bool.or_eq_true_iff.mpr (.inl (List.any_eq_true.mpr ⟨k, List.mem_of_getElem? hk, ?_⟩))
    simp [hkp, SubmitPc.pushesTo]
  | worker d =>
    obtain ⟨x, hx, hxp⟩ := Option.bind_eq_some_iff.mp hp
    refine Bool.or_eq_true_iff.mpr (.inr (List.any_eq_true.mpr ⟨x, List.mem_of_getElem? hx, ?_⟩))
    simp [hxp, SubmitPc.pushesTo]

theorem State.submission_of_pushing {c : Nat} (h : s.pushing c = true) :
    ∃ w g, s.submission w = some (.push c g) := by
  have hpush {p : Option SubmitPc} (hp : p.any (SubmitPc.pushesTo c) = true) :
      ∃ g, p = some (.push c g) := by
    obtain - | p := p
    · cases hp
    · cases p <;> simp_all [SubmitPc.pushesTo]
  rcases Bool.or_eq_true_iff.mp h with h | h
  · obtain ⟨k, hk, hkp⟩ := List.any_eq_true.mp h
    obtain ⟨i, hi⟩ := List.mem_iff_getElem?.mp hk
    obtain ⟨g, hg⟩ := hpush hkp
    exact ⟨.call i, g, Option.bind_eq_some_iff.mpr ⟨k, hi, hg⟩⟩
  · obtain ⟨x, hx, hxp⟩ := List.any_eq_true.mp h
    obtain ⟨d, hd⟩ := List.mem_iff_getElem?.mp hx
    obtain ⟨g, hg⟩ := hpush hxp
    exact ⟨.worker d, g, Option.bind_eq_some_iff.mpr ⟨x, hd, hg⟩⟩

/-- A worker with nothing in flight does not pass the queue test of `can_stop` while a push
to it is pending. -/
def TestsAfterPushes (s : State) : Action → Prop
  | .worker c => ∀ x ∈ s.ctxs[c]?, x.worker = .canStopQueues → x.engine.empty = true →
      x.engine.quiet = true → s.pushing c = false
  | a => a.direct = false

instance (s : State) (a : Action) : Decidable (TestsAfterPushes s a) :=
  match a with
  | .worker c => inferInstanceAs (Decidable (∀ x ∈ s.ctxs[c]?, _))
  | .callSubmit _ | .callLoop | .callStop | .callSubmitTask _ _ | .callSubmitIo _ _
  | .submission _ | .call _ | .spuriousLoop _ | .spuriousWorker _ | .body _ _ | .checkDone _ _
  | .pollSubmit _ _ | .complete _ _ _ => inferInstanceAs (Decidable (_ = false))

theorem TestsAfterPushes.direct (h : TestsAfterPushes s a) : a.direct = false := by
  unfold TestsAfterPushes at h
  split at h
  · rfl
  · exact h

structure SubmitInv (s : State) : Prop where
  regular : Regular s
  shutdown : ShutdownInv s
  closed : ClosedInv s
  tracked : s.ledger.Tracked
  known : s.ledger.Known
  range : ∀ w c g, s.submission w = some (.push c g) → c < s.ctxs.length
  quiet : s.Each fun _ x => x.worker = .left → x.engine.quiet = true
  drained : s.Each fun c x => x.worker.tested = true → x.engine.quiet = true →
    x.engine.taskQueue = [] ∧ ∀ w g, s.submission w ≠ some (.push c g)
  alive : s.Each fun _ x => x.alive = false → x.worker = .left

theorem WorkerPc.stopping_of_tested {pc : WorkerPc} (h : pc.tested = true) :
    pc.stopping = true := by
  cases pc <;> simp_all [WorkerPc.tested, WorkerPc.stopping]

theorem SubmitInv.init (n : Nat) : SubmitInv (init n) where
  regular := .init n
  shutdown := .init n
  closed := .init n
  tracked h hh := by simp [State.ledger, Runtime.init] at hh
  known h hh := by
    rcases hh with hh | ⟨m, hm, -⟩
    · exact absurd rfl hh
    · rw [State.ledger, marks_init] at hm
      exact absurd hm (Multiset.notMem_zero _)
  range w c g hp := by
    have hnone : (Runtime.init n).Each fun _ x => x.worker.submission = none := .init fun _ => rfl
    cases w with
    | call i => cases hp
    | worker d =>
      obtain ⟨x, hx, hxp⟩ := Option.bind_eq_some_iff.mp hp
      rw [hnone d x hx] at hxp
      cases hxp
  quiet := .init fun _ h => by cases h
  drained := .init fun _ h => by cases h
  alive := .init fun _ h => by cases h

theorem SubmitInv.preserved (I : SubmitInv s) (hc : TestsAfterPushes s a) (h : Transition s a t) :
    SubmitInv t := by
  have hstep : Ledger.Step (fun _ _ => True) s.ledger t.ledger :=
    h.ledger I.regular hc.direct fun _ _ => trivial
  refine ⟨I.regular.preserved hc.direct h, I.shutdown.preserved h, I.closed.preserved h,
    I.tracked.step hstep, I.known.step hstep, ?_, ?_, ?_, ?_⟩
  · intro w c g hp
    rw [h.length_ctxs]
    rcases h.submission_origin I.regular hc.direct hp with hp | ho
    · exact I.range w c g hp
    · cases ho with
      | accept _ _ hinit hmem =>
        rw [I.shutdown.contexts hinit] at hmem
        exact List.mem_range.mp hmem
      | body hx => exact (List.getElem?_eq_some_iff.mp hx).1
  · exact h.quiet_of_left hc.direct I.regular I.quiet
  · intro c y hy hw hquiet
    obtain ⟨x, hx, hsameq, hfrom⟩ := h.tested_from hc.direct I.regular c y hy hw
    rw [hsameq] at hquiet
    obtain ⟨hpc, hqueue, hpush⟩ : x.worker.stopping = true ∧ y.engine.taskQueue = [] ∧
        ∀ w g, s.submission w ≠ some (.push c g) := by
      rcases hfrom with ⟨hpc, hsame⟩ | ⟨hpc, hempty, rfl, hsame⟩
      · obtain ⟨hnil, hnone⟩ := I.drained c x hx hpc hquiet
        refine ⟨WorkerPc.stopping_of_tested hpc, ?_, hnone⟩
        rcases hsame with hsame | ⟨w, g, hp⟩
        · exact hsame.trans hnil
        · exact absurd hp (hnone w g)
      · refine ⟨by rw [hpc]; rfl, hsame.trans (Engine.taskQueue_of_empty hempty), fun w g hp => ?_⟩
        have hbusy := State.pushing_of_submission hp
        rw [hc x hx hpc hempty hquiet] at hbusy
        cases hbusy
    refine ⟨hqueue, fun w g hp => ?_⟩
    rcases h.submission_origin I.regular hc.direct hp with hp | ho
    · exact hpush w g hp
    · cases ho with
      | accept _ hacc =>
        exact absurd (hacc.symm.trans (I.closed.accepting_of_stopping hx hpc)) (by simp)
      | body hz hrun =>
        obtain rfl := Option.some.inj (hx.symm.trans hz)
        rw [hrun] at hpc
        cases hpc
  · exact h.alive I.shutdown I.alive

theorem SubmitInv.of_run {n : Nat} (h : Run step TestsAfterPushes (Runtime.init n) s) :
    SubmitInv s :=
  h.invariant (.init n) fun I hc ht => I.preserved hc (step_transition ht)

/-! ### No accepted task is dropped -/

/-- What a client of `submit` may rely on. -/
structure NothingDropped (s : State) : Prop where
  /-- A pending push goes to a context that exists and whose worker has not left. -/
  pushes : ∀ w c g, s.submission w = some (.push c g) →
    ∃ x, s.ctxs[c]? = some x ∧ x.worker ≠ .left ∧ x.alive = true
  /-- Accepted handles have been resumed when the contexts are about to be destroyed. -/
  resumed : ∀ todo, .shutdown (.destroy todo) ∈ s.calls →
    s.accepting = false ∧ ∀ h ∈ s.accepted, (s.frames h).resumedBy ≠ none
  /-- There is no third way for a handle besides acceptance and destruction. -/
  submitted : ∀ h, (s.frames h).status ≠ .none →
    h ∈ s.accepted ∨ h ∈ s.destroyed ∨ ∃ w, s.submission w = some (.stateLock h)

/-- When all workers have left, no task is on its way. -/
theorem SubmitInv.not_fresh (I : SubmitInv s) (hall : s.AllLeft) : ¬ s.ledger.Fresh g := by
  have drained {d : Nat} {x : Context} (hx : s.ctxs[d]? = some x) :
      x.tasks = 0 ∧ ∀ w g, s.submission w ≠ some (.push d g) := by
    have hleft := hall x (List.mem_of_getElem? hx)
    have hdrained := I.drained d x hx (by rw [hleft]; rfl) (I.quiet d x hx hleft)
    have hbatch := I.regular.batches d x hx (by rw [hleft]; rfl)
    refine ⟨?_, hdrained.2⟩
    rw [Context.tasks, hdrained.1, hbatch]
    rfl
  rintro ⟨c, hm | hm⟩
  · obtain ⟨w, hp⟩ := submission_of_pushing hm
    have hx := List.getElem?_eq_getElem (I.range w c g hp)
    exact (drained hx).2 w g hp
  · obtain ⟨x, hx, hg⟩ := mem_tasks_of_marks hm
    rw [(drained hx).1] at hg
    exact Multiset.notMem_zero _ hg

theorem SubmitInv.nothingDropped (I : SubmitInv s) : NothingDropped s := by
  refine ⟨fun w c g hp => ?_, fun todo hk => ?_, fun h hst => ?_⟩
  · have hlt := I.range w c g hp
    have hx := List.getElem?_eq_getElem hlt
    have hnot : s.ctxs[c].worker ≠ .left := by
      intro hleft
      have := I.drained c _ hx (by rw [hleft]; rfl) (I.quiet c _ hx hleft)
      exact this.2 w g hp
    refine ⟨_, hx, hnot, ?_⟩
    by_contra hdead
    exact hnot (I.alive c _ hx (by simpa using hdead))
  · obtain ⟨i, hi⟩ := List.mem_iff_getElem?.mp hk
    refine ⟨I.closed.accepting_of_closing hi rfl, fun h hh hnone => ?_⟩
    exact I.not_fresh (I.shutdown.joined _ hk) (I.tracked h hh hnone)
  · rcases I.known h (.inl hst) with hacc | hdes | hm
    · exact .inl hacc
    · exact .inr (.inl hdes)
    · exact .inr (.inr (submission_of_submitting hm))

/-- No accepted task is dropped when the queue tests come after the pushes. -/
theorem accepted_tasks_reach_live_workers {n : Nat} (h : Run step TestsAfterPushes (init n) s) :
    NothingDropped s :=
  (SubmitInv.of_run h).nothingDropped

/-- A `stop()` that overtakes a submission between its acceptance and its push: the worker
passes its test only after the push, and runs the task before it leaves. -/
theorem accepted_tasks_reach_live_workers_one :
    ∃ s, Run step TestsAfterPushes (init 1) s ∧ NothingDropped s ∧
      s.calls[1]? = some (.shutdown (.destroy [])) ∧ s.accepted = [7] ∧ s.completed = [7] := by
  obtain ⟨s, hs, hstop, hacc, hdone⟩ := exists_run step TestsAfterPushes (init 1)
    [.callSubmit 7, .submission (.call 0), .callStop, .call 1, .call 1, .call 1, .call 1, .call 1,
      .submission (.call 0), .submission (.call 0), .worker 0, .worker 0, .body 0 .finish,
      .checkDone 0 true, .worker 0, .worker 0, .worker 0, .worker 0, .worker 0,
      .pollSubmit 0 [], .worker 0, .worker 0, .worker 0, .worker 0,
      .call 1, .call 1, .call 1, .call 1]
    (fun s => s.calls[1]? = some (.shutdown (.destroy [])) ∧ s.accepted = [7] ∧ s.completed = [7])
    (by decide)
  exact ⟨s, hs, accepted_tasks_reach_live_workers hs, hstop, hacc, hdone⟩

/-- A worker that makes its last test between the acceptance and the push: the task goes
to a context that has been destroyed. -/
theorem accepted_task_dropped :
    ¬ ∀ (n : Nat) (s : State), Run step Managed (init n) s → NothingDropped s := by
  intro h
  obtain ⟨s, hs, hpush, hdead⟩ := exists_run step Managed (init 1)
    [.callSubmit 7, .submission (.call 0), .callStop, .call 1, .call 1, .call 1, .call 1, .call 1,
      .worker 0, .pollSubmit 0 [], .worker 0, .worker 0, .worker 0, .worker 0,
      .call 1, .call 1, .call 1, .call 1]
    (fun s => s.submission (.call 0) = some (.push 0 7) ∧ ∃ x ∈ s.ctxs[0]?, x.alive = false)
    (by decide)
  obtain ⟨x, hx, hfalse⟩ := hdead
  obtain ⟨y, hy, -, htrue⟩ := (h 1 s hs).pushes _ _ _ hpush
  obtain rfl := Option.some.inj (hx.symm.trans hy)
  simp [hfalse] at htrue

end TinyCoroutine.Runtime
