import TinyCoroutine.Runtime.Transition

/-!
# What a step leaves alone

The updates of a state, seen from what they do not touch: the place of a worker that another
thread does not move, a property of every context, and the calls that matter to an invariant.
`Transition.each` reduces a property of every context to the updates that a step can make to
one of them (`ContextUpdate`).
-/
namespace TinyCoroutine.Runtime

variable {s t : State} {a : Action}

/-! ### Places that a step of another thread does not change -/

/-- The worker of context `c` is at `pc`. -/
def State.workerIs (s : State) (c : Nat) (pc : WorkerPc) : Prop :=
  ∃ x, s.ctxs[c]? = some x ∧ x.worker = pc

theorem State.exists_workerIs {pc : WorkerPc} :
    (∃ c, s.workerIs c pc) ↔ ∃ x ∈ s.ctxs, x.worker = pc := by
  constructor
  · rintro ⟨c, x, hx, hw⟩
    exact ⟨x, List.mem_of_getElem? hx, hw⟩
  · rintro ⟨x, hx, hw⟩
    obtain ⟨c, hc⟩ := List.mem_iff_getElem?.mp hx
    exact ⟨c, x, hc, hw⟩

namespace State.workerIs

variable {c d : Nat} {pc : WorkerPc}

theorem setCtx {x y : Context} (hx : s.ctxs[c]? = some x) (hw : x.worker = pc → y.worker = pc)
    (h : s.workerIs d pc) : (s.setCtx c y).workerIs d pc := by
  obtain ⟨z, hz, hzw⟩ := h
  by_cases hcd : c = d
  · subst hcd
    refine ⟨y, ?_, hw (by grind)⟩
    simp [State.setCtx, (List.getElem?_eq_some_iff.mp hx).1]
  · exact ⟨z, by simp [State.setCtx, List.getElem?_set_ne hcd, hz], hzw⟩

theorem modifyCtx {f : Context → Context} (hf : ∀ x, x.worker = pc → (f x).worker = pc)
    (h : s.workerIs d pc) : (s.modifyCtx c f).workerIs d pc := by
  obtain ⟨x, hx, hw⟩ := h
  refine ⟨if c = d then f x else x, by simp [State.modifyCtx, List.getElem?_modify, hx], ?_⟩
  split
  · exact hf x hw
  · exact hw

theorem setSubmission {who : Submitter} {p : Option SubmitPc} (hpc : pc.setSubmission p = pc)
    (h : s.workerIs d pc) : (s.setSubmission p who).workerIs d pc := by
  cases who with
  | call i => exact h
  | worker c => exact modifyCtx (fun x hw => by simp [hw, hpc]) h

end State.workerIs

/-! ### Properties of every context -/

/-- `P` holds of every context, together with its position. -/
def State.Each (P : Nat → Context → Prop) (s : State) : Prop :=
  ∀ c x, s.ctxs[c]? = some x → P c x

namespace State.Each

variable {P : Nat → Context → Prop} {c : Nat}

theorem init {n : Nat} (h : ∀ c, P c {}) : (Runtime.init n).Each P := by
  intro c x hx
  have hmem : x ∈ List.replicate (if n = 0 then 1 else n) ({} : Context) := List.mem_of_getElem? hx
  rw [(List.mem_replicate.mp hmem).2]
  exact h c

theorem setCtx {x y : Context} (h : s.Each P) (hx : s.ctxs[c]? = some x) (hy : P c y) :
    (s.setCtx c y).Each P := by
  intro d z hz
  rcases State.getElem?_setCtx hx hz with ⟨rfl, rfl⟩ | ⟨-, hz⟩
  · exact hy
  · exact h d z hz

theorem modifyCtx {f : Context → Context} (h : s.Each P)
    (hf : ∀ x, s.ctxs[c]? = some x → P c x → P c (f x)) : (s.modifyCtx c f).Each P := by
  intro d z hz
  obtain ⟨x, hx, rfl⟩ := State.getElem?_modifyCtx hz
  split
  · rename_i hcd
    subst hcd
    exact hf x hx (h c x hx)
  · exact h d x hx

theorem setSubmission {who : Submitter} {p : Option SubmitPc} (h : s.Each P)
    (hP : ∀ c x, P c x → P c { x with worker := x.worker.setSubmission p }) :
    (s.setSubmission p who).Each P := by
  cases who with
  | call i => exact h
  | worker c => exact h.modifyCtx fun x _ => hP c x

theorem notifyWorker (h : s.Each P)
    (hP : ∀ c x, P c x → P c { x with worker := x.worker.notified }) :
    (s.notifyWorker c).Each P :=
  h.modifyCtx fun x _ => hP c x

end State.Each

/-! ### What a step does to one context -/

/-- The steps of a worker inside the loop over its batch: from which place to which, and what
becomes of its engine and of its batch. -/
inductive WorkStep (x : Context) : WorkerPc → WorkerPc → Engine → List Handle → Prop where
  | popBatch : x.engine.taskQueue ≠ [] → WorkStep x .popBatch .forLoop
      (x.engine.popBatch kProcessBatchSize).2 (x.engine.popBatch kProcessBatchSize).1
  | resume {h rest} : x.batch = h :: rest →
      WorkStep x .forLoop (.running h none) x.engine.onTaskResumeBegin rest
  | suspend {h b status engine parked} : Suspension h x.engine b status engine parked →
      WorkStep x (.running h none) (.resumed h) engine x.batch
  | submit {h p} : WorkStep x (.running h none) (.running h (some p)) x.engine x.batch
  | again {h} : WorkStep x (.resumed h) .forLoop x.engine.onTaskResumeEnd x.batch
  | done {h} : WorkStep x (.resumed h) (.destroy h) x.engine.onTaskResumeEnd x.batch
  | destroyed {h} : WorkStep x (.destroy h) (.completed h) x.engine x.batch
  | completed {h} : WorkStep x (.completed h) .forLoop x.engine x.batch
  | last {h} : WorkStep x (.completed h) .notifyCompletion x.engine x.batch
  | notified : WorkStep x .notifyCompletion .forLoop x.engine x.batch

/-- One update of context `c` by the action `a` from `s`. A step makes at most two of them to
one context: a worker that pushes into its own queue also goes on to its next place. -/
inductive ContextUpdate (s : State) (a : Action) (c : Nat) : Context → Context → Prop where
  | setSubmission {x} (p) :
      ContextUpdate s a c x { x with worker := x.worker.setSubmission p }
  | notified {x} : ContextUpdate s a c x { x with worker := x.worker.notified }
  | push {x who h} : a = .submission who → s.submission who = some (.push c h) →
      ContextUpdate s a c x { x with engine := x.engine.submitTask h }
  | beginIo {x r} : a = .callSubmitIo c r →
      ContextUpdate s a c x { x with engine := x.engine.onIoInflightBegin }
  | pushIo {i : Nat} {x r} : s.calls[i]? = some (.submitIo c r) →
      ContextUpdate s a c x { x with engine := x.engine.pushIo r }
  | requestStop {i : Nat} {x todo cs} :
      s.calls[i]? = some (.shutdown (.requestStop (c :: todo) cs)) →
      ContextUpdate s a c x { x with stopRequested := true }
  | destroy {i : Nat} {x todo} : s.ctxs[c]? = some x →
      s.calls[i]? = some (.shutdown (.destroy (c :: todo))) →
      ContextUpdate s a c x { x with alive := false }
  | move {x pc pc'} : s.ctxs[c]? = some x → x.worker = pc → WorkerMove x c a pc pc' →
      ContextUpdate s a c x { x with worker := pc' }
  | work {x pc pc' engine batch} : s.ctxs[c]? = some x → x.worker = pc →
      WorkStep x pc pc' engine batch →
      ContextUpdate s a c x { x with engine, batch, worker := pc' }
  | reap {x progressed completed engine} : s.ctxs[c]? = some x →
      x.worker = .pollComplete progressed completed → x.engine.reapOne = some engine →
      ContextUpdate s a c x { x with engine, worker := .pollComplete progressed (completed + 1) }
  | pollSubmit {x rets engine progressed} : s.ctxs[c]? = some x → x.worker = .pollSubmit →
      x.engine.pollSubmit kIoPollBatchSize rets = .ok (engine, progressed) →
      ContextUpdate s a c x { x with engine, worker := .pollComplete progressed 0 }
  | complete {x k result uring} : s.ctxs[c]? = some x →
      x.engine.uring.complete k result = some uring →
      ContextUpdate s a c x { x with engine := { x.engine with uring } }

/-- A property of every context that all updates of a step keep holds after the step. -/
theorem Transition.each {P : Nat → Context → Prop} (h : Transition s a t)
    (hu : ∀ c x y, ContextUpdate s a c x y → P c x → P c y) (hb : s.Each P) : t.Each P := by
  have hset {c : Nat} {x y : Context} (hx : s.ctxs[c]? = some x)
      (hy : ContextUpdate s a c x y) : (s.setCtx c y).Each P :=
    hb.setCtx hx (hu c x y hy (hb c x hx))
  cases h with
  | callSubmit | callLoop | callStop | callSubmitTask | moveCall | loopLock | loopPass | loopBlock
  | stopRequest | stopNotify | swap => exact hb
  | callSubmitIo => exact hb.modifyCtx fun x _ => hu _ x _ (.beginIo rfl)
  | reject | accept =>
    refine State.Each.setSubmission ?_ fun c x => hu c x _ (.setSubmission _)
    exact hb
  | push hp =>
    refine State.Each.modifyCtx ?_ fun x _ => hu _ x _ (.push rfl hp)
    exact hb.setSubmission fun c x => hu c x _ (.setSubmission _)
  | notify =>
    refine State.Each.notifyWorker ?_ fun c x => hu c x _ .notified
    exact hb.setSubmission fun c x => hu c x _ (.setSubmission _)
  | pushIo hi => exact hb.modifyCtx fun x _ => hu _ x _ (.pushIo hi)
  | requestStop hi => exact hb.modifyCtx fun x _ => hu _ x _ (.requestStop hi)
  | notifyStop => exact hb.notifyWorker fun c x => hu c x _ .notified
  | destroyContext hi => exact hb.modifyCtx fun x hx => hu _ x _ (.destroy hx hi)
  | moveWorker hx hw hm => exact hset hx (.move hx hw hm)
  | popBatch hx hw hq => exact hset hx (.work hx hw (.popBatch hq))
  | resume hx hw hbatch => exact hset hx (.work hx hw (.resume hbatch))
  | destroyFrame hx hw => exact hset hx (.work hx hw .destroyed)
  | completed hx hw =>
    refine hb.setCtx hx ?_
    split
    · exact hu _ _ _ (.work hx hw .last) (hb _ _ hx)
    · exact hu _ _ _ (.work hx hw .completed) (hb _ _ hx)
  | notifyCompletion hx hw => exact hset hx (.work hx hw .notified)
  | reap hx hw hreap => exact hset hx (.reap hx hw hreap)
  | suspend hx hw hsus => exact hset hx (.work hx hw (.suspend hsus))
  | bodySubmit hx hw | spawn hx hw | wake hx hw => exact hset hx (.work hx hw .submit)
  | checkDone hx hw =>
    refine hb.setCtx hx ?_
    split
    · exact hu _ _ _ (.work hx hw .done) (hb _ _ hx)
    · exact hu _ _ _ (.work hx hw .again) (hb _ _ hx)
  | pollSubmit hx hw hpoll => exact hset hx (.pollSubmit hx hw hpoll)
  | complete hx hring => exact hset hx (.complete hx hring)

/-! ### Calls that matter to an invariant

An invariant looks at the calls that satisfy some test. The rules below say that a
step leaves those calls, and their order, alone. -/

section Relevant

variable {relevant : Call → Bool}

theorem filter_addCall {k : Call} (hk : relevant k = false) :
    (s.addCall k).calls.filter relevant = s.calls.filter relevant := by
  simp [State.addCall, hk]

theorem filter_setCall {i : Nat} {k k' : Call} (hi : s.calls[i]? = some k)
    (hk : relevant k = false) (hk' : relevant k' = false) :
    (s.setCall i k').calls.filter relevant = s.calls.filter relevant := by
  obtain ⟨hlt, rfl⟩ := List.getElem?_eq_some_iff.mp hi
  rw [State.setCall, List.set_eq_take_append_cons_drop, if_pos hlt]
  conv_rhs => rw [← List.take_append_drop i s.calls, List.drop_eq_getElem_cons hlt]
  simp only [List.filter_append, List.filter_cons, hk, hk', Bool.false_eq_true, if_false]

theorem filter_notifyLoops (hb : relevant (.loop .blocked) = false)
    (hw : relevant (.loop .woken) = false) :
    s.notifyLoops.calls.filter relevant = s.calls.filter relevant := by
  have hsame : ∀ k : Call, relevant k = true → k.notified = k := by
    intro k hk
    unfold Call.notified
    split
    · simp [hb] at hk
    · rfl
  have hrel : relevant ∘ Call.notified = relevant := by
    funext k
    simp only [Function.comp, Call.notified]
    split
    · rw [hb, hw]
    · rfl
  rw [State.notifyLoops, List.filter_map, hrel]
  conv_rhs => rw [← List.map_id (s.calls.filter relevant)]
  exact List.map_congr_left fun k hk => hsame k (List.mem_filter.mp hk).2

theorem mem_setCall_of_ne {i : Nat} {k k' l : Call} (hi : s.calls[i]? = some k)
    (hl : l ∈ s.calls) (hne : l ≠ k) : l ∈ (s.setCall i k').calls := by
  obtain ⟨j, hj⟩ := List.mem_iff_getElem?.mp hl
  have hij : i ≠ j := by
    rintro rfl
    rw [hi] at hj
    exact hne (Option.some.inj hj).symm
  refine List.mem_iff_getElem?.mpr ⟨j, ?_⟩
  rw [State.setCall, List.getElem?_set_ne hij, hj]

theorem filter_setSubmission {who : Submitter} {p : SubmitPc} {p' : Option SubmitPc}
    (hp : s.submission who = some p) (hk : ∀ p, relevant (.submit p) = false)
    (hk' : relevant .submitted = false) :
    (s.setSubmission p' who).calls.filter relevant = s.calls.filter relevant := by
  cases who with
  | worker c => rfl
  | call i =>
    obtain ⟨k, hi, hks⟩ := Option.bind_eq_some_iff.mp hp
    cases k with
    | submit q =>
      refine filter_setCall hi (hk q) ?_
      cases p' with
      | none => exact hk'
      | some p' => exact hk p'
    | _ => cases hks

end Relevant

end TinyCoroutine.Runtime
