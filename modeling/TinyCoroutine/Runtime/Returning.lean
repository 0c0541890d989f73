import TinyCoroutine.Runtime.Leaving

/-!
# A stop can return

From every state that a scheduler reaches, a call of `stop()`, or of `loop()` once it shuts down,
can still return: no queue, no mutex, no join and no condition variable can hold it for ever,
unless `notify_stop` has fallen between the predicate of a worker and its block
(`StopNotifiesOutsideWindow`; `worker_sleeps_through_stop` is a run where it has).

The worker waits for other threads at three places: for `state_mutex_` and for the mutex of
another engine inside a submission, and for a notification when it sleeps. Each of them is
given by a thread that does not wait for the worker.
-/
namespace TinyCoroutine.Runtime

open Foundation

variable {s t : State} {a : Action} {c i : Nat} {x y : Context} {g : Handle} {k : Call}

/-! ### Waiting for other threads -/

/-- A call of `loop()` that holds `state_mutex_` gives it back within two steps. -/
theorem Windable.unlocks (I : Windable s) (hi : s.calls[i]? = some k) (hk : k.stopping = true) :
    Reaches step (Besides i) s fun t => t.stateLocked = false ∧ t.ctxs = s.ctxs := by
  cases hlock : s.stateLocked with
  | false => exact .here ⟨hlock, rfl⟩
  | true =>
    obtain ⟨l, hl, hlocks⟩ := I.lock hlock
    obtain ⟨j, hj⟩ := List.mem_iff_getElem?.mp hl
    have hji : j ≠ i := by
      rintro rfl
      obtain rfl := Option.some.inj (hi.symm.trans hj)
      cases k with
      | stop | shutdown => cases hlocks
      | _ => cases hk
    have hbesides {u : State} {p : LoopPc} (hu : u.calls[j]? = some (.loop p)) :
        Besides i u (.call j) :=
      ⟨⟨by simp [StopNotifiesOutsideWindow, hu], rfl⟩, by simpa using hji⟩
    have block {u : State} (hu : u.calls[j]? = some (.loop .block)) (hctxs : u.ctxs = s.ctxs) :
        Reaches step (Besides i) u fun t => t.stateLocked = false ∧ t.ctxs = s.ctxs := by
      refine .one (t := { u.setCall j (.loop .blocked) with stateLocked := false }) (hbesides hu) ?_
        ⟨rfl, hctxs⟩
      simp [step, callStep, hu, loopStep]
    unfold Call.locks at hlocks
    split at hlocks
    · by_cases hpass : s.stopRequested = true ∨ s.pending = 0
      · refine .one (t := { s.setCall j (.shutdown .swap) with
          accepting := false, stateLocked := false }) (hbesides hj) ?_ ⟨rfl, rfl⟩
        simp [step, callStep, hj, loopStep, hpass]
      · refine .head (t := s.setCall j (.loop .block)) (hbesides hj) ?_ (block ?_ rfl)
        · simp [step, callStep, hj, loopStep, hpass]
        · simp [State.setCall, (List.getElem?_eq_some_iff.mp hj).1]
    · exact block hj rfl
    · cases hlocks

theorem Besides.submission (who : Submitter) : Besides i s (.submission who) :=
  ⟨⟨trivial, rfl⟩, by simp⟩

theorem getElem?_modifyCtx_self {d : Nat} {f : Context → Context} (hx : s.ctxs[c]? = some x) :
    (s.modifyCtx d f).ctxs[c]? = some (if d = c then f x else x) := by
  simp [State.modifyCtx, List.getElem?_modify, hx]

theorem getElem?_setSubmission_self {p : Option SubmitPc} (hx : s.ctxs[c]? = some x) :
    (s.setSubmission p (.worker c)).ctxs[c]? =
      some { x with worker := x.worker.setSubmission p } := by
  rw [State.setSubmission, getElem?_modifyCtx_self hx, if_pos rfl]

theorem submission_worker {p : SubmitPc} (hx : s.ctxs[c]? = some x)
    (hw : x.worker = .running g (some p)) : s.submission (.worker c) = some p := by
  simp [State.submission, hx, hw, WorkerPc.submission]

theorem lowers_notify {d : Nat} (hx : s.ctxs[c]? = some x) (hstop : x.stopRequested = true)
    (hw : x.worker = .running g (some (.notify d))) : s.Lowers i c x := by
  have hnext : (s.setSubmission none (.worker c)).ctxs[c]? =
      some { x with worker := .running g none } := by
    rw [getElem?_setSubmission_self hx, hw]
    rfl
  refine .one (.submission (.worker c)) (t := (s.setSubmission none (.worker c)).notifyWorker d) ?_
    ⟨_, getElem?_modifyCtx_self hnext, ?_, ?_⟩
  · simp [step, submitStep, submission_worker hx hw]
  · split <;> exact hstop
  · split <;> simp [Context.load, hw, WorkerPc.rank, WorkerPc.notified]

theorem lowers_push_of_free {d : Nat} {h : Handle} (hx : s.ctxs[c]? = some x)
    (hstop : x.stopRequested = true) (hw : x.worker = .running g (some (.push d h)))
    (hfree : s.mutexFree d = true) : s.Lowers i c x := by
  have hnext : (s.setSubmission (some (.notify d)) (.worker c)).ctxs[c]? =
      some { x with worker := .running g (some (.notify d)) } := by
    rw [getElem?_setSubmission_self hx, hw]
    rfl
  refine .one (.submission (.worker c))
    (t := (s.setSubmission (some (.notify d)) (.worker c)).modifyCtx d fun x =>
      { x with engine := x.engine.submitTask h }) ?_
    ⟨_, getElem?_modifyCtx_self hnext, ?_, ?_⟩
  · simp [step, submitStep, submission_worker hx hw, hfree]
  · split <;> exact hstop
  · split <;> simp [Context.load, hw, WorkerPc.rank, Engine.load, Engine.submitTask]
    omega

/-- A worker that is about to block gives its mutex back when it does. -/
theorem frees_mutex {d : Nat} (hd : d < s.ctxs.length) :
    Reaches step (Besides i) s fun t => t.mutexFree d = true ∧
      ∀ (c : Nat) (x : Context), s.ctxs[c]? = some x → x.worker ≠ .waitBlock →
        t.ctxs[c]? = some x := by
  have hx := List.getElem?_eq_getElem hd
  by_cases hw : s.ctxs[d].worker = .waitBlock
  · refine .one (.worker d) (t := s.setCtx d { s.ctxs[d] with worker := .blocked })
      ((step_worker hx).trans ?_) ⟨?_, fun c x hc hne => ?_⟩
    · simp [workerStep, hw]
    · exact State.mutexFree_iff.mpr ⟨_, getElem?_setCtx_self hx, by simp⟩
    · rw [State.setCtx, List.getElem?_set_ne, hc]
      rintro rfl
      exact hne (Option.some.inj (hx.symm.trans hc) ▸ hw)
  · exact .here ⟨State.mutexFree_iff.mpr ⟨_, hx, hw⟩, fun _ _ hc _ => hc⟩

theorem Windable.lowers_push {d : Nat} {h : Handle} (I : Windable s) (hx : s.ctxs[c]? = some x)
    (hstop : x.stopRequested = true) (hw : x.worker = .running g (some (.push d h))) :
    s.Lowers i c x := by
  refine (frees_mutex (I.range _ d h (submission_worker hx hw))).trans fun t ht => ?_
  exact lowers_push_of_free (ht.2 c x hx (by simp [hw])) hstop hw ht.1

theorem lowers_stateLock_of_free {h : Handle} (hd : s.initialized = true →
      ∃ d, s.contexts[s.next % s.contextCount]? = some d)
    (hx : s.ctxs[c]? = some x) (hstop : x.stopRequested = true)
    (hw : x.worker = .running g (some (.stateLock h))) (hfree : s.stateLocked = false) :
    s.Lowers i c x := by
  have hnext (p : Option SubmitPc) {u : State} (hu : u.ctxs = s.ctxs) :
      (u.setSubmission p (.worker c)).ctxs[c]? = some { x with worker := .running g p } := by
    rw [getElem?_setSubmission_self (hu ▸ hx), hw]
    rfl
  by_cases hopen : s.initialized = true ∧ s.accepting = true
  · obtain ⟨d, hd⟩ := hd hopen.1
    refine .one (.submission (.worker c))
      (t := ({ s.accept h with next := (s.next + 1) % 2 ^ 64 } : State).setSubmission
        (some (.push d h)) (.worker c)) ?_ ⟨_, hnext _ rfl, hstop, ?_⟩
    · simp [step, submitStep, submission_worker hx hw, hfree, hopen, hd]
    · simp [Context.load, hw, WorkerPc.rank]
  · refine .one (.submission (.worker c))
      (t := (s.refuse h).setSubmission none (.worker c)) ?_
      ⟨_, hnext _ rfl, hstop, ?_⟩
    · simp [step, submitStep, submission_worker hx hw, hfree]
      grind
    · simp [Context.load, hw, WorkerPc.rank]

theorem Windable.reaches {P : State → Prop} (I : Windable s) (hi : s.calls[i]? = some k)
    (hk : k.stopping = true) (h : Reaches step (Besides i) s P) :
    Reaches step (Besides i) s fun t => (Windable t ∧ t.calls[i]? = some k) ∧ P t := by
  refine h.and_invariant ⟨I, hi⟩ fun It hc hs => ?_
  have ht := step_transition hs
  exact ⟨It.1.preserved hc.1.unhindered ht, ht.keeps_call hc.2 It.2 hk⟩

theorem Windable.lowers_stateLock {h : Handle} (I : Windable s) (hi : s.calls[i]? = some k)
    (hk : k.stopping = true) (hx : s.ctxs[c]? = some x) (hstop : x.stopRequested = true)
    (hw : x.worker = .running g (some (.stateLock h))) : s.Lowers i c x := by
  refine (I.reaches hi hk (I.unlocks hi hk)).trans ?_
  rintro t ⟨⟨It, -⟩, hfree, hctxs⟩
  refine lowers_stateLock_of_free (fun hinit => ?_) (hctxs ▸ hx) hstop hw hfree
  obtain ⟨d, -, hd, -⟩ := It.takeover.dispatched hinit
  exact ⟨d, hd⟩

/-- A notification reaches the worker of context `c`. -/
theorem lowers_of_notified (hstop : x.stopRequested = true) (hw : x.worker = .blocked)
    (hc : Besides i s a) (hs : step s a = some t)
    (ht : t.ctxs[c]? = some { x with worker := .waitPredicate }) : s.Lowers i c x := by
  refine .one hc hs ⟨_, ht, hstop, ?_⟩
  simp [Context.load, hw, WorkerPc.rank]

theorem lowers_of_submission (who : Submitter) (hx : s.ctxs[c]? = some x)
    (hstop : x.stopRequested = true) (hw : x.worker = .blocked)
    (hp : s.submission who = some (.notify c)) : s.Lowers i c x := by
  have hkept : (s.setSubmission none who).ctxs[c]? = some x := by
    cases who with
    | call j => exact hx
    | worker d =>
      have hdc : d ≠ c := by
        rintro rfl
        simp [State.submission, hx, hw, WorkerPc.submission] at hp
      rw [State.setSubmission, getElem?_modifyCtx_self hx, if_neg hdc]
  refine lowers_of_notified hstop hw (.submission who)
    (t := (s.setSubmission none who).notifyWorker c) ?_ ?_
  · simp [step, submitStep, hp]
  · rw [State.notifyWorker, getElem?_modifyCtx_self hkept, if_pos rfl, hw]
    rfl

theorem Windable.lowers_blocked (I : Windable s) (hi : s.calls[i]? = some k)
    (hk : k.notifies c = false) (hx : s.ctxs[c]? = some x) (hstop : x.stopRequested = true)
    (hw : x.worker = .blocked) : s.Lowers i c x := by
  have hwork : x.engine.hasWorkOrStop x.stopRequested = true := by
    simp [Engine.hasWorkOrStop, hstop]
  rcases (I.wake c x hx).blocked hw hwork with ⟨l, hl, hn⟩ | ⟨z, hz, hn⟩
  · obtain ⟨j, hj⟩ := List.mem_iff_getElem?.mp hl
    have hji : j ≠ i := by
      rintro rfl
      obtain rfl := Option.some.inj (hi.symm.trans hj)
      simp [hk] at hn
    unfold Call.notifies at hn
    split at hn
    · obtain rfl := eq_of_beq hn
      exact lowers_of_submission (.call j) hx hstop hw
        (by simp [State.submission, hj, Call.submission])
    · exact (I.counters.regular.no_submitIo hj).elim
    · rename_i d todo cs
      obtain rfl := eq_of_beq hn
      have hfree : s.mutexFree d = true := State.mutexFree_iff.mpr ⟨x, hx, by simp [hw]⟩
      refine lowers_of_notified hstop hw (a := .call j)
        (t := (s.setCall j (.shutdown (.requestStop todo cs))).notifyWorker d) ?_ ?_ ?_
      · exact ⟨⟨by simpa [StopNotifiesOutsideWindow, hj] using hfree, rfl⟩, by simpa using hji⟩
      · simp [step, callStep, hj, shutdownStep]
      · have hx' : (s.setCall j (.shutdown (.requestStop todo cs))).ctxs[d]? = some x := hx
        rw [State.notifyWorker, getElem?_modifyCtx_self hx', if_pos rfl, hw]
        rfl
    · cases hn
  · obtain ⟨d, hd⟩ := List.mem_iff_getElem?.mp hz
    unfold WorkerPc.notifies at hn
    split at hn
    · rename_i hz
      obtain rfl := eq_of_beq hn
      exact lowers_of_submission (.worker d) hx hstop hw (submission_worker hd hz)
    · cases hn

/-! ### The whole way -/

/-- The load of a worker that has been asked to stop can be lowered until it leaves. -/
theorem Windable.lowers (I : Windable s) (hi : s.calls[i]? = some k) (hk : k.stopping = true)
    (hn : k.notifies c = false) (hx : s.ctxs[c]? = some x) (hstop : x.stopRequested = true)
    (hleft : x.worker ≠ .left) : s.Lowers i c x := by
  have hs := I.counters.submitted c x hx
  cases hw : x.worker with
  | popBatch => exact lowers_popBatch hx hstop hw
  | forLoop => exact lowers_forLoop hx hstop hw
  | running h p =>
    rcases p with _ | _ | _ | _
    · exact lowers_finish hx hstop hw
    · exact I.lowers_stateLock hi hk hx hstop hw
    · exact I.lowers_push hx hstop hw
    · exact lowers_notify hx hstop hw
  | resumed h => exact lowers_checkDone hx hstop hw
  | destroy h => exact lowers_destroy hx hstop hw
  | completed h => exact lowers_completed hx hstop hw
  | notifyCompletion => exact lowers_notifyCompletion hx hstop hw
  | pollSubmit => exact lowers_pollSubmit hx hstop hw hs (I.depth c x hx)
  | pollComplete p n => exact lowers_pollComplete hx hstop hw
  | canStop => exact lowers_canStop hx hstop hw
  | canStopQueues => exact lowers_canStopQueues hx hstop hw
  | canStopInflight =>
    exact lowers_canStopInflight hx hstop hw hs (I.counters.io c x hx) (I.counters.tasks c x hx)
  | waitPredicate => exact lowers_waitPredicate hx hstop hw
  | waitBlock => exact lowers_waitBlock hx hstop hw
  | blocked => exact I.lowers_blocked hi hn hx hstop hw
  | left => exact absurd hw hleft

theorem Windable.leaves (I : Windable s) (hi : s.calls[i]? = some k) (hk : k.stopping = true)
    (hn : k.notifies c = false) (hx : s.ctxs[c]? = some x) (hstop : x.stopRequested = true) :
    Reaches step (Besides i) s fun t =>
      (Windable t ∧ t.calls[i]? = some k) ∧ t.hasLeft c = true := by
  refine Reaches.of_measure (I := fun t => (Windable t ∧ t.calls[i]? = some k) ∧
      ∃ y, t.ctxs[c]? = some y ∧ y.stopRequested = true)
    (fun t => (t.ctxs[c]?).elim 0 Context.load) ?_ ⟨⟨I, hi⟩, x, hx, hstop⟩
  rintro t ⟨⟨It, hit⟩, y, hy, hstop⟩
  by_cases hleft : y.worker = .left
  · exact .inl ⟨⟨It, hit⟩, State.hasLeft_iff.mpr ⟨y, hy, hleft⟩⟩
  · refine .inr ((It.reaches hit hk (It.lowers hit hk hn hy hstop hleft)).imp ?_)
    rintro u ⟨hu, z, hz, hzstop, hlt⟩
    exact ⟨⟨hu, z, hz, hzstop⟩, by simpa [hz, hy] using hlt⟩

/-! ### The call -/

/-- Call `i` can still return. -/
def State.CanReturn (s : State) (i : Nat) : Prop :=
  Reaches step WindsDown s fun t => ∃ live, t.calls[i]? = some (.returned live)

theorem getElem?_setCall_self (k' : Call) (hi : s.calls[i]? = some k) :
    (s.setCall i k').calls[i]? = some k' := by
  simp [State.setCall, (List.getElem?_eq_some_iff.mp hi).1]

/-- Other threads prepare the next step of call `i`. -/
theorem State.CanReturn.of_besides {P : State → Prop} (I : Windable s)
    (hi : s.calls[i]? = some k) (hk : k.stopping = true) (h : Reaches step (Besides i) s P)
    (next : ∀ t, Windable t → t.calls[i]? = some k → P t → t.CanReturn i) : s.CanReturn i := by
  refine ((I.reaches hi hk h).mono fun hc => hc.1).trans ?_
  rintro t ⟨⟨It, hit⟩, hP⟩
  exact next t It hit hP

theorem WindsDown.call (hi : s.calls[i]? = some k) (hk : ∀ c, k.stops c = false) :
    WindsDown s (.call i) := by
  refine ⟨?_, rfl⟩
  cases k with
  | shutdown p =>
    cases p with
    | notifyStop c => simpa [Call.stops] using hk c
    | _ => simp [StopNotifiesOutsideWindow, hi]
  | _ => simp [StopNotifiesOutsideWindow, hi]

theorem canReturn_destroy {todo : List Nat}
    (hi : s.calls[i]? = some (.shutdown (.destroy todo))) : s.CanReturn i := by
  induction todo generalizing s with
  | nil =>
    refine .one (.call hi fun _ => rfl) (t := s.setCall i (.returned true)) ?_
      ⟨true, getElem?_setCall_self _ hi⟩
    simp [step, callStep, hi, shutdownStep]
  | cons c todo ih =>
    refine .head (.call hi fun _ => rfl)
      (t := (s.setCall i (.shutdown (.destroy todo))).modifyCtx c
        fun x => { x with alive := false })
      ?_ (ih (getElem?_setCall_self _ hi))
    simp [step, callStep, hi, shutdownStep]

theorem Windable.canReturn_join {todo cs : List Nat} (I : Windable s)
    (hi : s.calls[i]? = some (.shutdown (.join todo cs))) : s.CanReturn i := by
  induction todo generalizing s with
  | nil =>
    refine .head (.call hi fun _ => rfl) (t := s.setCall i (.shutdown (.destroy cs))) ?_
      (canReturn_destroy (getElem?_setCall_self _ hi))
    simp [step, callStep, hi, shutdownStep]
  | cons c todo ih =>
    have hmem := List.mem_of_getElem? hi
    have hc : c ∈ cs := I.within _ hmem c List.mem_cons_self
    have hlt := (I.takeover.owned.of_holds hi hc).1
    have hx := List.getElem?_eq_getElem hlt
    have hstop := (I.takeover.serves _ hmem c hc).1 _ hx
    refine .of_besides I hi rfl (I.leaves hi rfl rfl hx hstop) fun t It hit ht => ?_
    have hs : step t (.call i) = some (t.setCall i (.shutdown (.join todo cs))) := by
      simp [step, callStep, hit, shutdownStep, ht.2]
    have hwinds : WindsDown t (.call i) := .call hit fun _ => rfl
    refine .head hwinds hs (ih ?_ (getElem?_setCall_self _ hit))
    exact It.preserved hwinds.unhindered (step_transition hs)

/-- `notify_stop` waits until the worker is outside of the window. -/
theorem Windable.canReturn_notifyStop {todo cs : List Nat} (I : Windable s)
    (hi : s.calls[i]? = some (.shutdown (.notifyStop c todo cs)))
    (next : ∀ t, Windable t → t.calls[i]? = some (.shutdown (.requestStop todo cs)) →
      t.CanReturn i) : s.CanReturn i := by
  have hc : c ∈ cs := I.within _ (List.mem_of_getElem? hi) c List.mem_cons_self
  have hlt := (I.takeover.owned.of_holds hi hc).1
  refine .of_besides I hi rfl (frees_mutex hlt) fun t It hit ht => ?_
  have hwinds : WindsDown t (.call i) :=
    ⟨by simpa [StopNotifiesOutsideWindow, hit] using ht.1, rfl⟩
  have hs : step t (.call i) =
      some ((t.setCall i (.shutdown (.requestStop todo cs))).notifyWorker c) := by
    simp [step, callStep, hit, shutdownStep]
  refine .head hwinds hs (next _ ?_ (getElem?_setCall_self _ hit))
  exact It.preserved hwinds.unhindered (step_transition hs)

theorem Windable.canReturn_requestStop {todo cs : List Nat} (I : Windable s)
    (hi : s.calls[i]? = some (.shutdown (.requestStop todo cs))) : s.CanReturn i := by
  induction todo generalizing s with
  | nil =>
    have hwinds : WindsDown s (.call i) := .call hi fun _ => rfl
    have hs : step s (.call i) = some (s.setCall i (.shutdown (.join cs cs))) := by
      simp [step, callStep, hi, shutdownStep]
    refine .head hwinds hs (Windable.canReturn_join ?_ (getElem?_setCall_self _ hi))
    exact I.preserved hwinds.unhindered (step_transition hs)
  | cons c todo ih =>
    have hwinds : WindsDown s (.call i) := .call hi fun _ => rfl
    have hs : step s (.call i) = some ((s.setCall i (.shutdown (.notifyStop c todo cs))).modifyCtx c
        fun x => { x with stopRequested := true }) := by
      simp [step, callStep, hi, shutdownStep]
    refine .head hwinds hs (Windable.canReturn_notifyStop ?_ (getElem?_setCall_self _ hi)
      fun t It hit => ih It hit)
    exact I.preserved hwinds.unhindered (step_transition hs)

theorem Windable.canReturn_swap (I : Windable s) (hi : s.calls[i]? = some (.shutdown .swap)) :
    s.CanReturn i := by
  refine .of_besides I hi rfl (I.unlocks hi rfl) fun t It hit ht => ?_
  have hwinds : WindsDown t (.call i) := .call hit fun _ => rfl
  cases hinit : t.initialized with
  | false =>
    refine .one hwinds (t := t.setCall i (.returned true)) ?_ ⟨true, getElem?_setCall_self _ hit⟩
    simp [step, callStep, hit, shutdownStep, ht.1, hinit]
  | true =>
    have hs : step t (.call i) =
        some { t.setCall i (.shutdown (.requestStop t.contexts t.contexts)) with
          contexts := [], initialized := false } := by
      simp [step, callStep, hit, shutdownStep, ht.1, hinit]
    refine .head hwinds hs (Windable.canReturn_requestStop ?_ (getElem?_setCall_self _ hit))
    exact It.preserved hwinds.unhindered (step_transition hs)

theorem Windable.canReturn_notifyAll (I : Windable s)
    (hi : s.calls[i]? = some (.stop .notifyAll)) : s.CanReturn i := by
  have hwinds : WindsDown s (.call i) := .call hi fun _ => rfl
  have hs : step s (.call i) = some (s.setCall i (.shutdown .swap)).notifyLoops := by
    simp [step, callStep, hi, stopStep]
  refine .head hwinds hs (Windable.canReturn_swap ?_ ?_)
  · exact I.preserved hwinds.unhindered (step_transition hs)
  · rw [State.notifyLoops, List.getElem?_map, getElem?_setCall_self _ hi]
    rfl

theorem Windable.canReturn_enter {live : Bool} (I : Windable s)
    (hi : s.calls[i]? = some (.stop (.enter live))) : s.CanReturn i := by
  refine .of_besides I hi rfl (I.unlocks hi rfl) fun t It hit ht => ?_
  have hwinds : WindsDown t (.call i) := .call hit fun _ => rfl
  cases hinit : t.initialized with
  | false =>
    refine .one hwinds (t := t.setCall i (.returned live)) ?_ ⟨live, getElem?_setCall_self _ hit⟩
    simp [step, callStep, hit, stopStep, ht.1, hinit]
  | true =>
    have hs : step t (.call i) = some { t.setCall i (.stop .notifyAll) with
        accepting := false, stopRequested := true } := by
      simp [step, callStep, hit, stopStep, ht.1, hinit]
    refine .head hwinds hs (Windable.canReturn_notifyAll ?_ (getElem?_setCall_self _ hit))
    exact It.preserved hwinds.unhindered (step_transition hs)

theorem Windable.canReturn (I : Windable s) (hi : s.calls[i]? = some k)
    (hk : k.stopping = true) : s.CanReturn i := by
  cases k with
  | stop p =>
    cases p with
    | enter live => exact I.canReturn_enter hi
    | notifyAll => exact I.canReturn_notifyAll hi
  | shutdown p =>
    cases p with
    | swap => exact I.canReturn_swap hi
    | requestStop todo cs => exact I.canReturn_requestStop hi
    | notifyStop c todo cs =>
      exact I.canReturn_notifyStop hi fun t It hit => It.canReturn_requestStop hit
    | join todo cs => exact I.canReturn_join hi
    | destroy todo => exact canReturn_destroy hi
  | _ => cases hk

/-- Wherever the threads of a scheduler have got to, a call that stops it can be brought to its
return by steps of the threads and of the kernel alone. -/
theorem stop_can_return {n : Nat} (run : Run step Unhindered (init n) s)
    (hi : s.calls[i]? = some k) (hk : k.stopping = true) :
    ∃ t live, Run step WindsDown s t ∧ t.calls[i]? = some (.returned live) := by
  obtain ⟨t, hst, live, ht⟩ := (Windable.of_run run).canReturn hi hk
  exact ⟨t, live, hst, ht⟩

/-- The call waits in its join for a worker that is inside a submission, and `loop()` holds the
mutex that the submission needs. -/
theorem stop_can_return_waiting :
    ∃ s t live, Run step Unhindered (init 1) s ∧ s.calls[2]? = some (.shutdown (.join [0] [0])) ∧
      s.stateLocked = true ∧ (s.ctxs.map Context.worker = [.running 7 (some (.stateLock 8))]) ∧
      Run step WindsDown s t ∧ t.calls[2]? = some (.returned live) := by
  obtain ⟨s, run, hi, hlocked, hw⟩ := exists_run step Unhindered (init 1)
    [.callSubmit 7, .submission (.call 0), .submission (.call 0), .submission (.call 0),
      .worker 0, .worker 0, .body 0 (.submit 8), .callLoop, .call 1, .call 1, .call 1,
      .callStop, .call 2, .call 2, .call 2, .call 2, .call 2, .call 2, .call 1]
    (fun s => s.calls[2]? = some (.shutdown (.join [0] [0])) ∧ s.stateLocked = true ∧
      s.ctxs.map Context.worker = [.running 7 (some (.stateLock 8))]) (by decide)
  obtain ⟨t, live, hst, ht⟩ := stop_can_return run hi rfl
  exact ⟨s, t, live, run, hi, hlocked, hw, hst, ht⟩

end TinyCoroutine.Runtime
