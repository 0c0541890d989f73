import TinyCoroutine.Runtime.Marks

/-!
# The scheduler keeps a ledger

`Transition.ledger` says that each step of the scheduler is a step of the ledger that is read off
its state.
-/
namespace TinyCoroutine.Runtime

open Foundation

variable {s t : State} {a : Action} {c : Nat} {x y : Context}

/-- The delicate rule of the ledger that an action would use. -/
def State.delicate (s : State) : Action → Option Ledger.Delicate
  | .worker c => (s.ctxs[c]?).bind fun x =>
    if x.worker = .forLoop then x.batch.head?.map (.resume c) else none
  | .body c .park => (s.ctxs[c]?).bind fun x =>
    match x.worker with
    | .running h none => some (.park h)
    | _ => none
  | _ => none

variable {C : Ledger → Ledger.Delicate → Prop}

theorem ledger_idle (hmarks : t.marks = s.marks)
    (hrest : { t.ledger with marks := s.marks } = s.ledger) :
    Ledger.Step C s.ledger t.ledger := by
  have : t.ledger = s.ledger := by
    rw [← hrest, ← hmarks]
    rfl
  rw [this]
  exact .idle

/-- A step of a worker that moves no handle between its queues. -/
theorem exchange_worker {pc : WorkerPc} {out new : Multiset Mark} (rest : Multiset Mark)
    (hx : s.ctxs[c]? = some x) (hout : x.worker.marks c = rest + out)
    (hnew : pc.marks c = rest + new) :
    (s.setCtx c { x with worker := pc }).marks + out = s.marks + new := by
  refine exchange_setCtx (x.tasks.map (Mark.mk (.waiting (.task c))) +
    x.engine.ioHandles.map (Mark.mk (.waiting (.io c))) + rest) hx ?_ ?_
  · rw [Context.marks, hout, ← add_assoc]
  · rw [Context.marks, hnew, ← add_assoc]
    rfl

theorem marks_setWorker {pc : WorkerPc} (hx : s.ctxs[c]? = some x)
    (hpc : pc.marks c = x.worker.marks c) :
    (s.setCtx c { x with worker := pc }).marks = s.marks :=
  marks_setCtx_of_eq hx (by simp only [Context.marks, Context.tasks, hpc])

/-- A step of a worker that resumes the first handle of its batch. -/
theorem exchange_resume {h : Handle} {rest : List Handle} (hx : s.ctxs[c]? = some x)
    (hw : x.worker = .forLoop) (hb : x.batch = h :: rest) :
    (s.setCtx c { x with
      engine := x.engine.onTaskResumeBegin, batch := rest, worker := .running h none }).marks +
        {⟨.waiting (.task c), h⟩} = s.marks + {⟨.running c, h⟩} := by
  refine exchange_setCtx ((x.engine.taskQueue + rest : Multiset Handle).map
    (Mark.mk (.waiting (.task c))) + x.engine.ioHandles.map (Mark.mk (.waiting (.io c)))) hx ?_ ?_
  · simp only [Context.marks, Context.tasks, hb, hw, WorkerPc.marks, ← Multiset.cons_coe,
      ← Multiset.singleton_add, Multiset.map_add, Multiset.map_singleton]
    abel
  · simp only [Context.marks, Context.tasks, Engine.onTaskResumeBegin, Engine.ioHandles,
      WorkerPc.marks, submissionMarks, add_zero]

/-- Handles that are polled out of the I/O part of an engine become runnable. -/
theorem exchange_poll {e : Engine} {pc : WorkerPc} (hs : Multiset Handle)
    (hx : s.ctxs[c]? = some x) (hpc : pc.marks c = x.worker.marks c)
    (htasks : (e.taskQueue : Multiset Handle) = x.engine.taskQueue + hs)
    (hio : x.engine.ioHandles = hs + e.ioHandles) :
    (s.setCtx c { x with engine := e, worker := pc }).marks +
        hs.map (Mark.mk (.waiting (.io c))) =
      s.marks + hs.map (Mark.mk (.waiting (.task c))) := by
  refine exchange_setCtx (x.tasks.map (Mark.mk (.waiting (.task c))) +
    e.ioHandles.map (Mark.mk (.waiting (.io c))) + x.worker.marks c) hx ?_ ?_
  · rw [Context.marks, hio, Multiset.map_add]
    abel
  · simp only [Context.marks, Context.tasks, htasks, hpc, Multiset.map_add]
    abel

theorem marks_park (l : List Handle) :
    { s with parked := s.parked ++ l }.marks =
      s.marks + (l : Multiset Handle).map (Mark.mk (.waiting .parked)) := by
  simp only [State.marks, ← Multiset.coe_add, Multiset.map_add]
  abel

/-- A coroutine that suspends or finishes: its place depends on how it does. -/
theorem exchange_suspend {h : Handle} {b : BodyAction} {status : FrameStatus} {e : Engine}
    {parked : List Handle} (hx : s.ctxs[c]? = some x) (hw : x.worker = .running h none)
    (hs : Suspension h x.engine b status e parked) :
    ∃ new : Multiset Mark,
      ({ s with parked := s.parked ++ parked }.setCtx c
        { x with engine := e, worker := .resumed h }).marks + {⟨.running c, h⟩} =
          s.marks + new ∧
      (status = .final ∧ new = {⟨.resumed c, h⟩} ∨
        status = .suspended ∧ ∃ p, Ledger.Suspends c p ∧ (p = .parked → b = .park) ∧
          new = {⟨.resumed c, h⟩, ⟨.waiting p, h⟩}) := by
  have hmarks : x.marks c = x.tasks.map (Mark.mk (.waiting (.task c))) +
      x.engine.ioHandles.map (Mark.mk (.waiting (.io c))) + {⟨.running c, h⟩} := by
    simp only [Context.marks, hw, WorkerPc.marks, submissionMarks, add_zero]
  have hset : ∀ new, Context.marks c { x with engine := e, worker := .resumed h } =
      x.tasks.map (Mark.mk (.waiting (.task c))) +
        x.engine.ioHandles.map (Mark.mk (.waiting (.io c))) + new →
      ({ s with parked := s.parked ++ parked }.setCtx c
        { x with engine := e, worker := .resumed h }).marks + {⟨.running c, h⟩} =
          s.marks + (new + (parked : Multiset Handle).map (Mark.mk (.waiting .parked))) := by
    intro new hnew
    have hex := exchange_setCtx (s := { s with parked := s.parked ++ parked }) _ hx hmarks hnew
    rw [hex, marks_park]
    abel
  cases hs with
  | yield =>
    refine ⟨_, hset {⟨.resumed c, h⟩, ⟨.waiting (.task c), h⟩} ?_,
      .inr ⟨rfl, _, .yield, by simp, by simp⟩⟩
    simp only [Context.marks, Context.tasks, Engine.submitTask, Engine.ioHandles, WorkerPc.marks,
      ← Multiset.coe_add, Multiset.coe_singleton, Multiset.map_add, Multiset.map_singleton,
      Multiset.insert_eq_cons, ← Multiset.singleton_add]
    abel
  | @suspendIo r hr =>
    refine ⟨_, hset {⟨.resumed c, h⟩, ⟨.waiting (.io c), h⟩} ?_,
      .inr ⟨rfl, _, .io, by simp, by simp⟩⟩
    simp only [Context.marks, Context.tasks, Engine.submitIo, Engine.ioHandles_pushIo,
      Engine.taskQueue_pushIo, hr, WorkerPc.marks, Multiset.map_add, Multiset.map_singleton,
      Multiset.insert_eq_cons, ← Multiset.singleton_add]
    simp only [Engine.onIoInflightBegin, Engine.ioHandles]
    abel
  | park =>
    refine ⟨_, hset {⟨.resumed c, h⟩} ?_, .inr ⟨rfl, _, .park, by simp, ?_⟩⟩
    · simp only [Context.marks, Context.tasks, WorkerPc.marks]
    · simp [Multiset.insert_eq_cons, ← Multiset.singleton_add]
  | finish =>
    refine ⟨_, hset {⟨.resumed c, h⟩} ?_, .inl ⟨rfl, by simp⟩⟩
    simp only [Context.marks, Context.tasks, WorkerPc.marks]

theorem stage_of_submission {p : Option SubmitPc} {m : Mark} (hm : m ∈ submissionMarks p) :
    m.stage.worker = none := by
  unfold submissionMarks at hm
  split at hm <;> simp_all [Stage.worker]

/-- Where the marks of a state come from. -/
theorem mem_marks_cases {m : Mark} (hm : m ∈ s.marks) :
    (∃ d x, s.ctxs[d]? = some x ∧
      (m.stage = .waiting (.task d) ∧ m.handle ∈ x.tasks ∨
        m.stage = .waiting (.io d) ∧ m.handle ∈ x.engine.ioHandles ∨
        m.stage.worker = some d ∧ m ∈ x.worker.marks d)) ∨
    (∃ w, m ∈ submissionMarks (s.submission w)) ∨
    m.stage = .waiting .parked ∧ m.handle ∈ s.parked := by
  rcases Multiset.mem_add.mp hm with hm | hm
  · rcases Multiset.mem_add.mp hm with hm | hm
    · obtain ⟨d, x, hx, hm⟩ := (mem_sumIdx _).mp hm
      rcases Multiset.mem_add.mp hm with hm | hm
      · rcases Multiset.mem_add.mp hm with hm | hm
        · obtain ⟨g, hg, rfl⟩ := Multiset.mem_map.mp hm
          exact .inl ⟨d, x, hx, .inl ⟨rfl, hg⟩⟩
        · obtain ⟨g, hg, rfl⟩ := Multiset.mem_map.mp hm
          exact .inl ⟨d, x, hx, .inr (.inl ⟨rfl, hg⟩)⟩
      · cases hw : x.worker with
        | running h p =>
          rw [hw] at hm
          rcases Multiset.mem_add.mp hm with hm' | hm'
          · refine .inl ⟨d, x, hx, .inr (.inr ⟨?_, hw ▸ hm⟩)⟩
            rw [Multiset.mem_singleton.mp hm']
            rfl
          · refine .inr (.inl ⟨.worker d, ?_⟩)
            simpa [State.submission, hx, hw, WorkerPc.submission] using hm'
        | _ =>
          refine .inl ⟨d, x, hx, .inr (.inr ⟨?_, hm⟩)⟩
          simp_all [WorkerPc.marks, Stage.worker]
    · obtain ⟨i, k, hk, hm⟩ := (mem_sumIdx _).mp hm
      refine .inr (.inl ⟨.call i, ?_⟩)
      simpa [State.submission, hk, Call.marks] using hm
  · obtain ⟨g, hg, rfl⟩ := Multiset.mem_map.mp hm
    exact .inr (.inr ⟨rfl, hg⟩)

/-- A mark of a worker comes from the place of that worker. -/
theorem mem_marks_of_worker {m : Mark} (hm : m ∈ s.marks) (hc : m.stage.worker = some c) :
    ∃ x, s.ctxs[c]? = some x ∧ m ∈ x.worker.marks c := by
  obtain ⟨d, x, hx, ⟨hst, -⟩ | ⟨hst, -⟩ | ⟨hst, hm⟩⟩ | ⟨w, hw⟩ | ⟨hst, -⟩ := mem_marks_cases hm
  · simp [hst, Stage.worker] at hc
  · simp [hst, Stage.worker] at hc
  · obtain rfl := Option.some.inj (hst.symm.trans hc)
    exact ⟨x, hx, hm⟩
  · simp [stage_of_submission hw] at hc
  · simp [hst, Stage.worker] at hc

/-- The mark of a runnable coroutine comes from the queue or the batch of its context. -/
theorem mem_tasks_of_marks {g : Handle} (hm : ⟨.waiting (.task c), g⟩ ∈ s.marks) :
    ∃ x, s.ctxs[c]? = some x ∧ g ∈ x.tasks := by
  obtain ⟨d, x, hx, ⟨hst, hg⟩ | ⟨hst, -⟩ | ⟨hst, -⟩⟩ | ⟨w, hw⟩ | ⟨hst, -⟩ := mem_marks_cases hm
  · cases hst
    exact ⟨x, hx, hg⟩
  · cases hst
  · cases hst
  · unfold submissionMarks at hw
    split at hw <;> simp at hw
  · cases hst

theorem submission_of_pushing {g : Handle} (hm : ⟨.waiting (.pushing c), g⟩ ∈ s.marks) :
    ∃ w, s.submission w = some (.push c g) := by
  obtain ⟨d, x, hx, ⟨hst, -⟩ | ⟨hst, -⟩ | ⟨hst, -⟩⟩ | ⟨w, hw⟩ | ⟨hst, -⟩ := mem_marks_cases hm
  · cases hst
  · cases hst
  · cases hst
  · refine ⟨w, ?_⟩
    unfold submissionMarks at hw
    split at hw <;> simp_all
  · cases hst

theorem submission_of_submitting {g : Handle} (hm : ⟨.submitting, g⟩ ∈ s.marks) :
    ∃ w, s.submission w = some (.stateLock g) := by
  obtain ⟨d, x, hx, ⟨hst, -⟩ | ⟨hst, -⟩ | ⟨hst, -⟩⟩ | ⟨w, hw⟩ | ⟨hst, -⟩ := mem_marks_cases hm
  · cases hst
  · cases hst
  · cases hst
  · refine ⟨w, ?_⟩
    unfold submissionMarks at hw
    split at hw <;> simp_all
  · cases hst

/-- A worker that is between two coroutines has no mark of its own. -/
theorem worker_free {m : Mark} (hx : s.ctxs[c]? = some x) (hw : x.worker.marks c = 0)
    (hm : m ∈ s.marks) : m.stage.worker ≠ some c := by
  intro hc
  obtain ⟨z, hz, hmz⟩ := mem_marks_of_worker hm hc
  rw [hx] at hz
  cases hz
  rw [hw] at hmz
  exact Multiset.notMem_zero _ hmz

theorem Transition.ledger (h : Transition s a t) (hs : Regular s) (ha : a.direct = false)
    (hC : ∀ d ∈ s.delicate a, C s.ledger d) : Ledger.Step C s.ledger t.ledger := by
  cases h with
  | callSubmit hfresh =>
    refine .create hfresh.1 hfresh.2 ?_
    exact (add_zero _).trans marks_addCall
  | callLoop | callStop => exact ledger_idle (marks_addCall.trans (add_zero _)) rfl
  | callSubmitTask | callSubmitIo => cases ha
  | @reject who g hp =>
    have hm := marks_setSubmission (s := s.refuse g) none hp
    cases who <;> exact .reject hm
  | @accept who g c hp =>
    have hm := marks_setSubmission (s := { s.accept g with next := (s.next + 1) % 2 ^ 64 })
      (some (.push c g)) hp
    cases who <;> exact .accept hm
  | @push who c g hp hfree =>
    obtain ⟨x, hx, -⟩ := State.mutexFree_iff.mp hfree
    have hlt : c < (s.setSubmission (some (.notify c)) who).ctxs.length := by
      have := (List.getElem?_eq_some_iff.mp hx).1
      cases who <;> simpa [State.setSubmission, State.setCall, State.modifyCtx] using this
    have hm := marks_setSubmission (some (.notify c)) hp
    have hpush : s.ledger.Exchange (({g} : Multiset Handle).map (Mark.mk (.waiting (.pushing c))))
        (({g} : Multiset Handle).map (Mark.mk (.waiting (.task c))))
        ((s.setSubmission (some (.notify c)) who).modifyCtx c fun x =>
          { x with engine := x.engine.submitTask g }).marks := by
      rw [Ledger.Exchange, marks_push hlt, Multiset.map_singleton, Multiset.map_singleton,
        add_right_comm]
      exact congrArg (· + _) (by simpa [submissionMarks, State.ledger] using hm)
    cases who <;> exact .move {g} (.push c) hpush
  | @notify who c hp =>
    have hm := marks_setSubmission none hp
    have hsame : ((s.setSubmission none who).notifyWorker c).marks = s.marks :=
      marks_notifyWorker.trans (by simpa [submissionMarks] using hm)
    cases who <;> exact ledger_idle hsame rfl
  | pushIo hi => exact (hs.no_submitIo hi).elim
  | moveCall hi hm => exact ledger_idle (marks_setCall_of_eq hi (by cases hm <;> rfl)) rfl
  | loopLock hi | loopPass hi | loopBlock hi | stopRequest hi | swap hi =>
    exact ledger_idle (marks_setCall_of_eq hi rfl) rfl
  | stopNotify hi =>
    exact ledger_idle (marks_notifyLoops.trans (marks_setCall_of_eq hi rfl)) rfl
  | requestStop hi | destroyContext hi =>
    refine ledger_idle (Eq.trans (marks_modifyCtx ?_) (marks_setCall_of_eq hi rfl)) rfl
    exact fun x => rfl
  | notifyStop hi =>
    exact ledger_idle (marks_notifyWorker.trans (marks_setCall_of_eq hi rfl)) rfl
  | moveWorker hx hw hm =>
    refine ledger_idle (marks_setWorker hx ?_) rfl
    rw [hw]
    cases hm <;> rfl
  | @popBatch c x hx hw =>
    refine ledger_idle (marks_setCtx_of_eq hx ?_) rfl
    have hbatch := hs.batches c x hx (by simp [hw, WorkerPc.inBatch])
    have htasks : ((x.engine.popBatch kProcessBatchSize).2.taskQueue : Multiset Handle) +
        (x.engine.popBatch kProcessBatchSize).1 = x.engine.taskQueue := by
      rw [add_comm, Multiset.coe_add, Engine.popBatch, List.take_append_drop]
    simp only [Context.marks, Context.tasks, htasks, hbatch, hw, WorkerPc.marks, Multiset.coe_nil,
      add_zero]
    rfl
  | @resume c x g rest hx hw hb =>
    refine .resume (hC _ (by simp [State.delicate, hx, hw, hb])) ?_ (exchange_resume hx hw hb)
    exact fun m hm => worker_free hx (by rw [hw]; rfl) hm
  | @destroyFrame c x g hx hw =>
    refine .destroy (c := c) (exchange_worker 0 hx ?_ ?_)
    · rw [hw, zero_add]
      rfl
    · rw [zero_add]
      rfl
  | @completed c x g hx hw =>
    refine .complete (c := c) (exchange_worker 0 hx ?_ ?_)
    · rw [hw, zero_add]
      rfl
    · split <;> rfl
  | notifyCompletion hx hw =>
    refine ledger_idle (marks_notifyLoops.trans (marks_setWorker hx ?_)) rfl
    rw [hw]
    rfl
  | @reap c x _ _ e hx hw hreap =>
    obtain ⟨g, htasks, hio, -⟩ := Engine.reapOne_some hreap
    refine .move {g} (.poll c) (exchange_poll {g} hx (by rw [hw]; rfl) ?_ hio)
    rw [htasks, ← Multiset.coe_add, Multiset.coe_singleton]
  | @suspend c x g b status e parked hx hw hsus =>
    obtain ⟨new, hex, ⟨rfl, rfl⟩ | ⟨rfl, p, hp, hpark, rfl⟩⟩ := exchange_suspend hx hw hsus
    · exact .finish hex
    · refine .suspend hp (fun hparked => hC _ ?_) hex
      rw [hpark hparked]
      simp [State.delicate, hx, hw]
  | bodySubmit hx hw hfresh =>
    exact .create hfresh.1 hfresh.2 (exchange_worker _ hx (by rw [hw]; rfl) (by rfl))
  | spawn hx hw hfresh =>
    exact .spawn hfresh.1 hfresh.2 (exchange_worker _ hx (by rw [hw]; rfl) (by rfl))
  | @wake c x h g hx hw hg =>
    have hunpark : { s with parked := s.parked.erase g }.marks + {⟨.waiting .parked, g⟩} =
        s.marks := by
      have hcons : (s.parked : Multiset Handle) = s.parked.erase g + {g} := by
        rw [add_comm, Multiset.singleton_add, Multiset.cons_coe, Multiset.coe_eq_coe]
        exact List.perm_cons_erase hg
      simp only [State.marks, hcons, Multiset.map_add, Multiset.map_singleton]
      abel
    have hex : ({ s with parked := s.parked.erase g }.setCtx c
        { x with worker := .running h (some (.push c g)) }).marks + 0 =
          { s with parked := s.parked.erase g }.marks + {⟨.waiting (.pushing c), g⟩} :=
      exchange_worker {⟨.running c, h⟩} hx (by rw [hw]; rfl) rfl
    refine .move {g} (.wake c) ?_
    rw [Ledger.Exchange, Multiset.map_singleton, Multiset.map_singleton]
    rw [add_zero] at hex
    change State.marks _ + _ = s.marks + _
    rw [hex, add_right_comm, hunpark]
  | @checkDone c x g answer hx hw hans =>
    have hmarks : x.marks c = x.tasks.map (Mark.mk (.waiting (.task c))) +
        x.engine.ioHandles.map (Mark.mk (.waiting (.io c))) + {⟨.resumed c, g⟩} := by
      simp only [Context.marks, hw, WorkerPc.marks]
    cases answer with
    | true =>
      refine .done (c := c) (h := g) ?_ (exchange_setCtx _ hx hmarks rfl)
      rcases hans with hans | hans
      · exact .inr hans
      · exact .inl (by simpa [State.ledger] using hans)
    | false =>
      refine .notDone (c := c) (h := g) ?_ (exchange_setCtx _ hx hmarks ?_)
      · rcases hans with hans | hans
        · simp [State.ledger, hans]
        · simpa [State.ledger] using hans
      · rfl
  | @pollSubmit c x _ e _ hx hw hpoll =>
    obtain ⟨htasks, hio, -⟩ := Engine.pollSubmit_ok hpoll
    refine .move _ (.poll c) (exchange_poll _ hx (by rw [hw]; rfl) ?_ hio)
    rw [htasks, ← Multiset.coe_add]
  | @complete c x k result uring hx hu =>
    refine ledger_idle (marks_setCtx_of_eq hx ?_) rfl
    simp only [Context.marks, Context.tasks, Engine.ioHandles, IoUring.awaiters_complete hu]

end TinyCoroutine.Runtime
