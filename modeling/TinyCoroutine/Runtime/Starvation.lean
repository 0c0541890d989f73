import TinyCoroutine.Runtime.Leaving

/-!
# A task that yields for ever

`Context::run` polls for I/O, asks `can_stop` and sleeps only after `process_work_once` has found
the task queue empty, and `yield` puts the running coroutine back into that queue. So one coroutine
that never suspends in any other way keeps its worker in `process_work_once`: requests for I/O pile
up, finished operations are not reaped, and a `stop()` that has to join the worker does not return.
-/
namespace TinyCoroutine.Runtime

open Foundation

variable {s t : State} {a : Action} {c i : Nat} {x y : Context} {g h : Handle} {k : Call}

/-- The worker is in `process_work_once` and will resume `h` before it finds its queue empty. -/
def Context.Occupied (x : Context) (h : Handle) : Prop :=
  match x.worker with
  | .popBatch => h ∈ x.engine.taskQueue
  | .running g _ => g = h ∨ h ∈ x.batch ∨ h ∈ x.engine.taskQueue
  | .forLoop | .resumed _ | .destroy _ | .completed _ | .notifyCompletion =>
    h ∈ x.batch ∨ h ∈ x.engine.taskQueue
  | _ => False

/-- Every suspension of a coroutine but `yield` takes it away from its worker. -/
def BodyAction.keepsReady : BodyAction → Bool
  | .suspendIo _ | .park | .finish => false
  | _ => true

/-- Whenever worker `c` runs `h`, it goes on, submits or wakes another coroutine, or yields. -/
def Yielding (c : Nat) (h : Handle) (s : State) : Action → Prop
  | .body d b =>
    d = c → ((s.ctxs[c]?).any fun x => x.worker = .running h none) = true → b.keepsReady = true
  | _ => True

instance (c : Nat) (h : Handle) (s : State) (a : Action) : Decidable (Yielding c h s a) :=
  match a with
  | .body _ _ => inferInstanceAs (Decidable (_ → _))
  | .callSubmit _ | .callLoop | .callStop | .callSubmitTask _ _ | .callSubmitIo _ _ | .submission _
  | .call _ | .spuriousLoop _ | .worker _ | .spuriousWorker _ | .checkDone _ _ | .pollSubmit _ _
  | .complete _ _ _ => inferInstanceAs (Decidable True)

/-! ### The worker stays where it is -/

theorem Context.Occupied.of_queue {pc : WorkerPc} (hx : x.Occupied h) (hw : x.worker = pc)
    (hpc : ∀ g p, pc ≠ .running g p) : h ∈ x.batch ∨ h ∈ x.engine.taskQueue := by
  unfold Context.Occupied at hx
  split at hx
  · exact .inr hx
  · exact absurd (hw.symm.trans ‹_›) (hpc _ _)
  all_goals first | exact hx | exact hx.elim

/-- A change of place inside the loop over the batch. -/
theorem Context.occupied_of_queue {pc : WorkerPc} {engine : Engine} {batch : List Handle}
    (hpc : pc = .forLoop ∨ (∃ g, pc = .resumed g ∨ pc = .destroy g ∨ pc = .completed g) ∨
      pc = .notifyCompletion)
    (hh : h ∈ batch ∨ h ∈ engine.taskQueue) :
    Context.Occupied { x with worker := pc, engine, batch } h := by
  rcases hpc with rfl | ⟨g, rfl | rfl | rfl⟩ | rfl <;> exact hh

theorem Context.Occupied.setSubmission (hx : x.Occupied h) (p : Option SubmitPc) :
    Context.Occupied { x with worker := x.worker.setSubmission p } h := by
  unfold Context.Occupied at hx ⊢
  cases hw : x.worker <;> simp_all [WorkerPc.setSubmission]

theorem Context.Occupied.notified (hx : x.Occupied h) :
    Context.Occupied { x with worker := x.worker.notified } h := by
  unfold Context.Occupied at hx ⊢
  cases hw : x.worker <;> simp_all [WorkerPc.notified]

theorem Context.Occupied.submitTask (hx : x.Occupied h) (g : Handle) :
    Context.Occupied { x with engine := x.engine.submitTask g } h := by
  unfold Context.Occupied at hx ⊢
  cases hw : x.worker <;> simp_all [Engine.submitTask] <;> grind

theorem Context.Occupied.of_taskQueue {engine : Engine} (hx : x.Occupied h)
    (hq : engine.taskQueue = x.engine.taskQueue) : Context.Occupied { x with engine } h := by
  unfold Context.Occupied at hx ⊢
  simpa only [hq] using hx

theorem WorkerMove.occupied {pc pc' : WorkerPc} (hx : x.Occupied h) (hw : x.worker = pc)
    (hm : WorkerMove x c a pc pc') : Context.Occupied { x with worker := pc' } h := by
  cases hm with
  | popNone hq => simp [Context.Occupied, hw, hq] at hx
  | batchDone hb => simpa [Context.Occupied, hw, hb] using hx
  | _ => simp [Context.Occupied, hw] at hx

theorem Context.Occupied.popBatch (hx : x.Occupied h) (hw : x.worker = .popBatch) :
    Context.Occupied { x with
      engine := (x.engine.popBatch kProcessBatchSize).2
      batch := (x.engine.popBatch kProcessBatchSize).1
      worker := .forLoop } h := by
  have hq : h ∈ x.engine.taskQueue := by simpa [Context.Occupied, hw] using hx
  rw [← List.take_append_drop kProcessBatchSize x.engine.taskQueue] at hq
  exact List.mem_append.mp hq

theorem Context.Occupied.resume {rest : List Handle} (hx : x.Occupied h) (hw : x.worker = .forLoop)
    (hb : x.batch = g :: rest) : Context.Occupied { x with
      engine := x.engine.onTaskResumeBegin, batch := rest, worker := .running g none } h := by
  have hq : h ∈ g :: rest ∨ h ∈ x.engine.taskQueue := by simpa [Context.Occupied, hw, hb] using hx
  rcases hq with hq | hq
  · rcases List.mem_cons.mp hq with rfl | hq
    · exact .inl rfl
    · exact .inr (.inl hq)
  · exact .inr (.inr hq)

/-- The only place where `h` can get lost is its own suspension, and it yields there. -/
theorem Suspension.occupied {b : BodyAction} {status : FrameStatus} {engine : Engine}
    {parked : List Handle} (hx : x.Occupied h) (hw : x.worker = .running g none)
    (hs : Suspension g x.engine b status engine parked) (hb : g = h → b.keepsReady = true) :
    Context.Occupied { x with engine, worker := .resumed g } h := by
  have hq : g = h ∨ h ∈ x.batch ∨ h ∈ x.engine.taskQueue := by
    simpa [Context.Occupied, hw] using hx
  rcases hq with rfl | hq
  · cases hs with
    | yield => exact .inr (List.mem_append.mpr (.inr (List.mem_singleton.mpr rfl)))
    | suspendIo | park | finish => cases hb rfl
  · have hle : x.engine.taskQueue ⊆ engine.taskQueue := by
      cases hs with
      | yield => exact List.subset_append_left _ _
      | @suspendIo r => cases r <;> exact List.Subset.refl _
      | park | finish => exact List.Subset.refl _
    exact hq.imp_right fun hq => hle hq

/-- Worker `c` is kept busy by `h`. -/
def State.Occupied (c : Nat) (h : Handle) : State → Prop :=
  State.Each fun d x => d = c → x.Occupied h

theorem State.Occupied.preserved (ho : s.Occupied c h) (hc : Yielding c h s a)
    (ht : Transition s a t) : t.Occupied c h := by
  cases ht with
  | callSubmit | callLoop | callStop | callSubmitTask | moveCall | loopLock | loopPass | loopBlock
  | stopRequest | stopNotify | swap => exact ho
  | callSubmitIo => exact ho.modifyCtx fun x _ hx hd => (hx hd).of_taskQueue rfl
  | reject | accept =>
    refine State.Each.setSubmission ?_ fun d x hx hd => (hx hd).setSubmission _
    exact ho
  | push =>
    refine State.Each.modifyCtx ?_ fun x _ hx hd => (hx hd).submitTask _
    exact ho.setSubmission fun d x hx hd => (hx hd).setSubmission _
  | notify =>
    refine State.Each.notifyWorker ?_ fun d x hx hd => (hx hd).notified
    exact ho.setSubmission fun d x hx hd => (hx hd).setSubmission _
  | pushIo =>
    exact ho.modifyCtx fun x _ hx hd => (hx hd).of_taskQueue (Engine.taskQueue_pushIo _ _)
  | requestStop | destroyContext => exact ho.modifyCtx fun x _ hx => hx
  | notifyStop => exact ho.notifyWorker fun d x hx hd => (hx hd).notified
  | moveWorker hx hw hm => exact ho.setCtx hx fun hd => hm.occupied (ho _ _ hx hd) hw
  | popBatch hx hw => exact ho.setCtx hx fun hd => (ho _ _ hx hd).popBatch hw
  | resume hx hw hb => exact ho.setCtx hx fun hd => (ho _ _ hx hd).resume hw hb
  | destroyFrame hx hw =>
    exact ho.setCtx hx fun hd => (ho _ _ hx hd).of_queue hw (by simp)
  | completed hx hw =>
    refine ho.setCtx hx fun hd =>
      Context.occupied_of_queue ?_ ((ho _ _ hx hd).of_queue hw (by simp))
    split
    · exact .inr (.inr rfl)
    · exact .inl rfl
  | notifyCompletion hx hw => exact ho.setCtx hx fun hd => (ho _ _ hx hd).of_queue hw (by simp)
  | reap hx hw =>
    refine ho.setCtx hx fun hd => ?_
    simpa [Context.Occupied, hw] using ho _ _ hx hd
  | @suspend d x g b _ _ _ hx hw hsus =>
    refine ho.setCtx hx fun hd => hsus.occupied (ho _ _ hx hd) hw ?_
    rintro rfl
    subst hd
    exact hc rfl (by simp [hx, hw])
  | bodySubmit hx hw | spawn hx hw | wake hx hw =>
    refine ho.setCtx hx fun hd => ?_
    simpa [Context.Occupied, hw] using ho _ _ hx hd
  | checkDone hx hw =>
    refine ho.setCtx hx fun hd =>
      Context.occupied_of_queue ?_ ((ho _ _ hx hd).of_queue hw (by simp))
    split
    · exact .inr (.inl ⟨_, .inr (.inl rfl)⟩)
    · exact .inl rfl
  | pollSubmit hx hw =>
    refine ho.setCtx hx fun hd => ?_
    simpa [Context.Occupied, hw] using ho _ _ hx hd
  | complete hx => exact ho.setCtx hx fun hd => (ho _ _ hx hd).of_taskQueue rfl

/-! ### Nobody looks after its I/O -/

/-- From `e` to `e'` requests have been added and the kernel has finished operations, but nothing
was submitted to the ring, and no result has reached the coroutine that waits for it. -/
structure Engine.Unpolled (e e' : Engine) : Prop where
  waiting : e.ioWaitingQueue <+: e'.ioWaitingQueue
  reads : e.ioReadSubmitQueue <+: e'.ioReadSubmitQueue
  writes : e.ioWriteSubmitQueue <+: e'.ioWriteSubmitQueue
  prepared : e'.uring.sq = e.uring.sq
  finished : e.uring.cq <+: e'.uring.cq
  results : e'.results = e.results

namespace Engine.Unpolled

variable {e e' : Engine}

theorem refl : Unpolled e e :=
  ⟨List.prefix_rfl, List.prefix_rfl, List.prefix_rfl, rfl, List.prefix_rfl, rfl⟩

theorem pushIo (hu : Unpolled e e') (r : IoRequest) : Unpolled e (e'.pushIo r) := by
  cases r with
  | waiting g => exact { hu with waiting := hu.waiting.trans (List.prefix_append _ _) }
  | read a => exact { hu with reads := hu.reads.trans (List.prefix_append _ _) }
  | write a => exact { hu with writes := hu.writes.trans (List.prefix_append _ _) }

theorem complete {n : Nat} {result : Int} {uring : IoUring} (hu : Unpolled e e')
    (hc : e'.uring.complete n result = some uring) : Unpolled e { e' with uring } := by
  obtain ⟨op, -, rfl⟩ := Option.map_eq_some_iff.mp hc
  exact { hu with finished := hu.finished.trans (List.prefix_append _ _) }

theorem workStep {pc pc' : WorkerPc} {engine : Engine} {batch : List Handle}
    (hu : Unpolled e x.engine) (hw : WorkStep x pc pc' engine batch) : Unpolled e engine := by
  cases hw with
  | suspend hs =>
    cases hs with
    | yield => exact { hu with }
    | @suspendIo r =>
      have hbegin : Unpolled e x.engine.onIoInflightBegin := { hu with }
      exact hbegin.pushIo r
    | park | finish => exact hu
  | popBatch | resume | again | done => exact { hu with }
  | submit | destroyed | completed | last | notified => exact hu

end Engine.Unpolled

theorem ContextUpdate.unpolled {e : Engine} (hu : ContextUpdate s a c x y) (ho : s.Occupied c h)
    (hx : e.Unpolled x.engine) : e.Unpolled y.engine := by
  cases hu with
  | setSubmission | notified | requestStop | destroy | move => exact hx
  | push | beginIo => exact { hx with }
  | pushIo => exact hx.pushIo _
  | work _ _ hs => exact hx.workStep hs
  | reap hc hw | pollSubmit hc hw => simpa [Context.Occupied, hw] using ho _ _ hc rfl
  | complete _ hring => exact hx.complete hring

/-! ### Nobody gets past its join -/

/-- The call has taken context `c` over and still has to join its worker. -/
def Call.Awaits (c : Nat) : Call → Prop
  | .shutdown (.requestStop _ cs) => c ∈ cs
  | .shutdown (.notifyStop _ _ cs) => c ∈ cs
  | .shutdown (.join todo _) => c ∈ todo
  | _ => False

theorem Call.Awaits.stopping (hk : k.Awaits c) : k.stopping = true := by
  cases k with
  | shutdown p => rfl
  | _ => exact hk.elim

theorem State.Occupied.not_hasLeft (ho : s.Occupied c h) : s.hasLeft c = false := by
  cases hx : s.ctxs[c]? with
  | none => simp [State.hasLeft, hx]
  | some x =>
    have := ho c x hx rfl
    simp only [State.hasLeft, hx, Option.any_some, decide_eq_false_iff_not]
    intro hw
    simp [Context.Occupied, hw] at this

theorem Transition.awaits (ht : Transition s a t) (ho : s.Occupied c h)
    (hi : s.calls[i]? = some k) (hk : k.Awaits c) :
    ∃ k', t.calls[i]? = some k' ∧ k'.Awaits c := by
  by_cases ha : a = .call i
  · subst ha
    have hlt : i < s.calls.length := (List.getElem?_eq_some_iff.mp hi).1
    have set (l : Call) (hl : l.Awaits c) :
        ∃ k', (s.calls.set i l)[i]? = some k' ∧ k'.Awaits c :=
      ⟨l, List.getElem?_set_self hlt, hl⟩
    cases ht with
    | moveCall hj hm =>
      cases hm with
      | requestDone =>
        obtain rfl := Option.some.inj (hi.symm.trans hj)
        exact set _ hk
      | @join d todo cs hleft =>
        obtain rfl := Option.some.inj (hi.symm.trans hj)
        refine set _ ?_
        rcases List.mem_cons.mp hk with rfl | hk
        · simp [ho.not_hasLeft] at hleft
        · exact hk
      | joinDone =>
        obtain rfl := Option.some.inj (hi.symm.trans hj)
        cases hk
      | _ =>
        obtain rfl := Option.some.inj (hi.symm.trans hj)
        exact hk.elim
    | requestStop hj | notifyStop hj =>
      obtain rfl := Option.some.inj (hi.symm.trans hj)
      exact set _ hk
    | pushIo hj | loopLock hj | loopPass hj | loopBlock hj | stopRequest hj | stopNotify hj
    | swap hj | destroyContext hj =>
      obtain rfl := Option.some.inj (hi.symm.trans hj)
      exact hk.elim
    | moveWorker _ _ hm => cases hm
  · exact ⟨k, ht.keeps_call ha hi hk.stopping, hk⟩

/-! ### Starvation -/

/-- What a run that keeps worker `c` busy from `s` on has come to: context `c` of `s` is `x`. -/
structure Starved (c : Nat) (h : Handle) (s : State) (x : Context) (t : State) : Prop where
  occupied : t.Occupied c h
  unpolled : t.Each fun d y => d = c → x.engine.Unpolled y.engine
  exists_ctx : c < t.ctxs.length
  awaits : ∀ (i : Nat) (k : Call), s.calls[i]? = some k → k.Awaits c →
    ∃ k', t.calls[i]? = some k' ∧ k'.Awaits c

theorem Starved.preserved {u : State} (I : Starved c h s x t) (hc : Yielding c h t a)
    (hu : Transition t a u) : Starved c h s x u where
  occupied := I.occupied.preserved hc hu
  unpolled := by
    refine hu.each (fun d y z hupd hy hd => ?_) I.unpolled
    subst hd
    exact hupd.unpolled I.occupied (hy rfl)
  exists_ctx := by
    rw [hu.length_ctxs]
    exact I.exists_ctx
  awaits := by
    intro i k hi hk
    obtain ⟨k', hi', hk'⟩ := I.awaits i k hi hk
    exact hu.awaits I.occupied hi' hk'

theorem Starved.start (hx : s.ctxs[c]? = some x) (ho : x.Occupied h) : Starved c h s x s where
  occupied := by
    rintro d y hy rfl
    obtain rfl := Option.some.inj (hx.symm.trans hy)
    exact ho
  unpolled := by
    rintro d y hy rfl
    obtain rfl := Option.some.inj (hx.symm.trans hy)
    exact .refl
  exists_ctx := (List.getElem?_eq_some_iff.mp hx).1
  awaits := fun i k hi hk => ⟨k, hi, hk⟩

/-- As long as a coroutine that is ready on a worker answers every resume by yielding, the worker
does not leave `process_work_once`, its I/O is left alone, and whoever has to join it waits. -/
theorem yield_starves_worker (hx : s.ctxs[c]? = some x) (ho : x.Occupied h)
    (run : Run step (Yielding c h) s t) :
    (∃ y, t.ctxs[c]? = some y ∧ y.Occupied h ∧ x.engine.Unpolled y.engine) ∧
      ∀ (i : Nat) (k : Call), s.calls[i]? = some k → k.Awaits c →
        ∃ k', t.calls[i]? = some k' ∧ k'.Awaits c := by
  have I : Starved c h s x t :=
    run.invariant (Starved.start hx ho) fun I hc hs => I.preserved hc (step_transition hs)
  refine ⟨?_, I.awaits⟩
  obtain ⟨y, hy⟩ : ∃ y, t.ctxs[c]? = some y := ⟨_, List.getElem?_eq_getElem I.exists_ctx⟩
  exact ⟨y, hy, I.occupied c y hy rfl, I.unpolled c y hy rfl⟩

/-- Coroutine 5 waits for I/O and `stop()` for the worker, while coroutine 6 yields once more. -/
theorem yield_starves_worker_stop :
    ∃ s x t, Run step Always (init 1) s ∧ s.ctxs[0]? = some x ∧ x.engine.ioWaitingQueue = [5] ∧
      s.calls[2]? = some (.shutdown (.join [0] [0])) ∧ Run step (Yielding 0 6) s t ∧
      (∃ y, t.ctxs[0]? = some y ∧ y.Occupied 6 ∧ x.engine.Unpolled y.engine) ∧
      ∃ k, t.calls[2]? = some k ∧ k.Awaits 0 := by
  obtain ⟨s, hrun, x, hx, hio, hw, hq, hcall, t, ht⟩ := exists_run step Always (init 1)
    [.callSubmit 5, .submission (.call 0), .submission (.call 0), .callSubmit 6,
      .submission (.call 1), .submission (.call 1), .worker 0, .worker 0,
      .body 0 (.suspendIo (.waiting 5)), .checkDone 0 false, .worker 0, .body 0 .yield,
      .checkDone 0 false, .worker 0, .callStop, .call 2, .call 2, .call 2, .call 2, .call 2,
      .call 2]
    (fun s => ∃ x ∈ s.ctxs[0]?, x.engine.ioWaitingQueue = [5] ∧ x.worker = .popBatch ∧
      6 ∈ x.engine.taskQueue ∧ s.calls[2]? = some (.shutdown (.join [0] [0])) ∧
      ∃ t ∈ exec step (Yielding 0 6) s [.worker 0, .worker 0, .body 0 .yield, .checkDone 0 false,
        .worker 0], True) (by decide)
  have hyields : Run step (Yielding 0 6) s t := .of_exec .refl ht.1
  have ho : x.Occupied 6 := by simpa [Context.Occupied, hw] using hq
  obtain ⟨hworker, hcalls⟩ := yield_starves_worker hx ho hyields
  exact ⟨s, x, t, hrun, hx, hio, hcall, hyields, hworker,
    hcalls 2 _ hcall (List.mem_singleton.mpr rfl)⟩

end TinyCoroutine.Runtime
