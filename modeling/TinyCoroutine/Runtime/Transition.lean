import TinyCoroutine.Runtime.Step

/-!
# The rules behind `step`

`step_transition` takes a step apart into one of the rules of `Transition`. Each rule
names the place the acting thread has left, the tests it has passed and the state it
leaves behind. Moves that change nothing but the place of one thread are collected in
`CallMove` and `WorkerMove`. All invariants of the scheduler are proved by cases on
these rules, so that `step` itself is unfolded only here.
-/
namespace TinyCoroutine.Runtime

/-- Call `i` goes from one place to another and changes nothing else. -/
inductive CallMove (s : State) (i : Nat) : Action → Call → Call → Prop where
  | loopThrow : s.initialized = false → CallMove s i (.call i) (.loop .enter)
      (.threw (.logicError "runtime::Scheduler::init must be called before loop"))
  | loopWait : s.stopRequested = false → s.pending ≠ 0 →
      CallMove s i (.call i) (.loop .evaluate) (.loop .block)
  | loopSpurious : CallMove s i (.spuriousLoop i) (.loop .blocked) (.loop .woken)
  | stopSkip {live} : s.stateLocked = false → s.initialized = false →
      CallMove s i (.call i) (.stop (.enter live)) (.returned live)
  | swapSkip : s.stateLocked = false → s.initialized = false →
      CallMove s i (.call i) (.shutdown .swap) (.returned true)
  | requestDone {cs} :
      CallMove s i (.call i) (.shutdown (.requestStop [] cs)) (.shutdown (.join cs cs))
  | join {c todo cs} : s.hasLeft c = true →
      CallMove s i (.call i) (.shutdown (.join (c :: todo) cs)) (.shutdown (.join todo cs))
  | joinDone {cs} : CallMove s i (.call i) (.shutdown (.join [] cs)) (.shutdown (.destroy cs))
  | destroyDone : CallMove s i (.call i) (.shutdown (.destroy [])) (.returned true)

/-- The worker of `x` goes to another place and changes nothing else. -/
inductive WorkerMove (x : Context) (c : Nat) : Action → WorkerPc → WorkerPc → Prop where
  | popNone : x.engine.taskQueue = [] → WorkerMove x c (.worker c) .popBatch .pollSubmit
  | batchDone : x.batch = [] → WorkerMove x c (.worker c) .forLoop .popBatch
  | pollProgress {progressed completed} :
      WorkerMove x c (.worker c) (.pollComplete progressed completed) .popBatch
  | pollIdle {progressed completed} :
      WorkerMove x c (.worker c) (.pollComplete progressed completed) .canStop
  | noStop : x.stopRequested = false → WorkerMove x c (.worker c) .canStop .waitPredicate
  | stopAsked : x.stopRequested = true → WorkerMove x c (.worker c) .canStop .canStopQueues
  | queuesBusy : WorkerMove x c (.worker c) .canStopQueues .waitPredicate
  | queuesEmpty : x.engine.empty = true →
      WorkerMove x c (.worker c) .canStopQueues .canStopInflight
  | inflight : WorkerMove x c (.worker c) .canStopInflight .waitPredicate
  | leave : x.engine.quiet = true → WorkerMove x c (.worker c) .canStopInflight .left
  | waitOver : WorkerMove x c (.worker c) .waitPredicate .popBatch
  | waitFalse : x.engine.hasWorkOrStop x.stopRequested = false →
      WorkerMove x c (.worker c) .waitPredicate .waitBlock
  | block : WorkerMove x c (.worker c) .waitBlock .blocked
  | spurious : WorkerMove x c (.spuriousWorker c) .blocked .waitPredicate

/-- A coroutine of worker `c` suspends or finishes: what becomes of its own frame, of its
engine and of the parked handles. -/
inductive Suspension (h : Handle) (e : Engine) :
    BodyAction → FrameStatus → Engine → List Handle → Prop where
  | yield : Suspension h e .yield .suspended (e.submitTask h) []
  | suspendIo {r} : r.handle = h → e.IoRoom →
      Suspension h e (.suspendIo r) .suspended (e.submitIo r) []
  | park : Suspension h e .park .suspended e [h]
  | finish : Suspension h e .finish .final e []

inductive Transition (s : State) : Action → State → Prop where
  | callSubmit {h} : s.fresh h → Transition s (.callSubmit h)
      ((s.create h).addCall (.submit (.stateLock h)))
  | callLoop : Transition s .callLoop (s.addCall (.loop .enter))
  | callStop : Transition s .callStop (s.addCall (.stop (.enter s.initialized)))
  | callSubmitTask {c h} : c < s.ctxs.length →
      Transition s (.callSubmitTask c h) (s.addCall (.submit (.push c h)))
  | callSubmitIo {c r} : c < s.ctxs.length → Transition s (.callSubmitIo c r)
      ((s.addCall (.submitIo c r)).modifyCtx c fun x =>
        { x with engine := x.engine.onIoInflightBegin })
  | reject {who h} : s.submission who = some (.stateLock h) → s.stateLocked = false →
      s.initialized = false ∨ s.accepting = false →
      Transition s (.submission who) ((s.refuse h).setSubmission none who)
  | accept {who h c} : s.submission who = some (.stateLock h) → s.stateLocked = false →
      s.initialized = true → s.accepting = true →
      s.contexts[s.next % s.contextCount]? = some c →
      Transition s (.submission who)
        ({ s.accept h with next := (s.next + 1) % 2 ^ 64 }.setSubmission (some (.push c h)) who)
  | push {who c h} : s.submission who = some (.push c h) → s.mutexFree c = true →
      Transition s (.submission who) ((s.setSubmission (some (.notify c)) who).modifyCtx c
        fun x => { x with engine := x.engine.submitTask h })
  | notify {who c} : s.submission who = some (.notify c) →
      Transition s (.submission who) ((s.setSubmission none who).notifyWorker c)
  | pushIo {i c r} : s.calls[i]? = some (.submitIo c r) → s.mutexFree c = true →
      Transition s (.call i) ((s.setCall i (.submit (.notify c))).modifyCtx c
        fun x => { x with engine := x.engine.pushIo r })
  | moveCall {a i k k'} : s.calls[i]? = some k → CallMove s i a k k' →
      Transition s a (s.setCall i k')
  | loopLock {i p} : s.calls[i]? = some (.loop p) →
      p = .enter ∧ s.initialized = true ∨ p = .woken → s.stateLocked = false →
      Transition s (.call i) { s.setCall i (.loop .evaluate) with stateLocked := true }
  | loopPass {i} : s.calls[i]? = some (.loop .evaluate) →
      s.stopRequested = true ∨ s.pending = 0 → Transition s (.call i)
        { s.setCall i (.shutdown .swap) with accepting := false, stateLocked := false }
  | loopBlock {i} : s.calls[i]? = some (.loop .block) → Transition s (.call i)
      { s.setCall i (.loop .blocked) with stateLocked := false }
  | stopRequest {i live} : s.calls[i]? = some (.stop (.enter live)) → s.stateLocked = false →
      s.initialized = true → Transition s (.call i)
        { s.setCall i (.stop .notifyAll) with accepting := false, stopRequested := true }
  | stopNotify {i} : s.calls[i]? = some (.stop .notifyAll) →
      Transition s (.call i) (s.setCall i (.shutdown .swap)).notifyLoops
  | swap {i} : s.calls[i]? = some (.shutdown .swap) → s.stateLocked = false →
      s.initialized = true → Transition s (.call i)
        { s.setCall i (.shutdown (.requestStop s.contexts s.contexts)) with
          contexts := [], initialized := false }
  | requestStop {i c todo cs} : s.calls[i]? = some (.shutdown (.requestStop (c :: todo) cs)) →
      Transition s (.call i) ((s.setCall i (.shutdown (.notifyStop c todo cs))).modifyCtx c
        fun x => { x with stopRequested := true })
  | notifyStop {i c todo cs} : s.calls[i]? = some (.shutdown (.notifyStop c todo cs)) →
      Transition s (.call i) ((s.setCall i (.shutdown (.requestStop todo cs))).notifyWorker c)
  | destroyContext {i c todo} : s.calls[i]? = some (.shutdown (.destroy (c :: todo))) →
      Transition s (.call i) ((s.setCall i (.shutdown (.destroy todo))).modifyCtx c
        fun x => { x with alive := false })
  | moveWorker {a c x pc pc'} : s.ctxs[c]? = some x → x.worker = pc → WorkerMove x c a pc pc' →
      Transition s a (s.setCtx c { x with worker := pc' })
  | popBatch {c x} : s.ctxs[c]? = some x → x.worker = .popBatch → x.engine.taskQueue ≠ [] →
      Transition s (.worker c) (s.setCtx c { x with
        engine := (x.engine.popBatch kProcessBatchSize).2
        batch := (x.engine.popBatch kProcessBatchSize).1
        worker := .forLoop })
  | resume {c x h rest} : s.ctxs[c]? = some x → x.worker = .forLoop → x.batch = h :: rest →
      Transition s (.worker c)
        ({ s with frames := Function.update s.frames h ⟨.running, some c⟩ }.setCtx c { x with
          engine := x.engine.onTaskResumeBegin, batch := rest, worker := .running h none })
  | destroyFrame {c x h} : s.ctxs[c]? = some x → x.worker = .destroy h →
      Transition s (.worker c) ((s.destroyFrame h).setCtx c { x with worker := .completed h })
  | completed {c x h} : s.ctxs[c]? = some x → x.worker = .completed h →
      Transition s (.worker c)
        ((s.countOff h).setCtx c
          { x with worker := if s.pending = 1 then .notifyCompletion else .forLoop })
  | notifyCompletion {c x} : s.ctxs[c]? = some x → x.worker = .notifyCompletion →
      Transition s (.worker c) (s.setCtx c { x with worker := .forLoop }).notifyLoops
  | reap {c x progressed completed engine} : s.ctxs[c]? = some x →
      x.worker = .pollComplete progressed completed → x.engine.reapOne = some engine →
      Transition s (.worker c)
        (s.setCtx c { x with engine, worker := .pollComplete progressed (completed + 1) })
  | suspend {c x h b status engine parked} : s.ctxs[c]? = some x → x.worker = .running h none →
      Suspension h x.engine b status engine parked → Transition s (.body c b)
        ({ s.setStatus h status with parked := s.parked ++ parked }.setCtx c
          { x with engine, worker := .resumed h })
  | bodySubmit {c x h g} : s.ctxs[c]? = some x → x.worker = .running h none → s.fresh g →
      Transition s (.body c (.submit g)) ((s.create g).setCtx c
        { x with worker := .running h (some (.stateLock g)) })
  | spawn {c x h g} : s.ctxs[c]? = some x → x.worker = .running h none → s.fresh g →
      Transition s (.body c (.submitToScheduler g))
        (((s.create g).accept g).setCtx c
          { x with worker := .running h (some (.push c g)) })
  | wake {c x h g} : s.ctxs[c]? = some x → x.worker = .running h none → g ∈ s.parked →
      Transition s (.body c (.wake g)) ({ s with parked := s.parked.erase g }.setCtx c
        { x with worker := .running h (some (.push c g)) })
  | checkDone {c x h answer} : s.ctxs[c]? = some x → x.worker = .resumed h →
      DoneAnswer (s.frames h).status answer → Transition s (.checkDone c answer)
        (s.setCtx c { x with
          engine := x.engine.onTaskResumeEnd
          worker := if answer then .destroy h else .forLoop })
  | pollSubmit {c x rets engine progressed} : s.ctxs[c]? = some x → x.worker = .pollSubmit →
      x.engine.pollSubmit kIoPollBatchSize rets = .ok (engine, progressed) →
      Transition s (.pollSubmit c rets)
        (s.setCtx c { x with engine, worker := .pollComplete progressed 0 })
  | complete {c x k result uring} : s.ctxs[c]? = some x →
      x.engine.uring.complete k result = some uring → Transition s (.complete c k result)
        (s.setCtx c { x with engine := { x.engine with uring } })

variable {s t : State} {a : Action}

theorem submitStep_transition {who : Submitter} (h : submitStep s who = some t) :
    Transition s (.submission who) t := by
  simp only [submitStep] at h
  split at h
  · cases h
  · rename_i g hp
    split at h
    · cases h
    · rename_i hlock
      split at h
      · cases h
        exact .reject hp (by simpa using hlock) (by grind)
      · split at h
        · cases h
        · rename_i c hc
          cases h
          exact .accept hp (by simpa using hlock) (by grind) (by grind) hc
  · rename_i c g hp
    split at h
    · rename_i hfree
      cases h
      exact .push hp hfree
    · cases h
  · rename_i c hp
    cases h
    exact .notify hp

theorem loopStep_transition {i : Nat} {p : LoopPc} (hi : s.calls[i]? = some (.loop p))
    (h : loopStep s i p = some t) : Transition s (.call i) t := by
  cases p with
  | enter =>
    simp only [loopStep] at h
    split at h
    · cases h
    · split at h
      · cases h
        exact .moveCall hi (.loopThrow (by grind))
      · cases h
        exact .loopLock hi (.inl ⟨rfl, by grind⟩) (by grind)
  | evaluate =>
    simp only [loopStep] at h
    split at h
    · cases h
      exact .loopPass hi (by grind)
    · cases h
      exact .moveCall hi (.loopWait (by grind) (by grind))
  | block =>
    cases h
    exact .loopBlock hi
  | blocked => cases h
  | woken =>
    simp only [loopStep] at h
    split at h
    · cases h
    · cases h
      exact .loopLock hi (.inr rfl) (by grind)

theorem stopStep_transition {i : Nat} {p : StopPc} (hi : s.calls[i]? = some (.stop p))
    (h : stopStep s i p = some t) : Transition s (.call i) t := by
  cases p with
  | enter live =>
    simp only [stopStep] at h
    split at h
    · cases h
    · split at h
      · cases h
        exact .moveCall hi (.stopSkip (by grind) (by grind))
      · cases h
        exact .stopRequest hi (by grind) (by grind)
  | notifyAll =>
    cases h
    exact .stopNotify hi

theorem shutdownStep_transition {i : Nat} {p : ShutdownPc}
    (hi : s.calls[i]? = some (.shutdown p)) (h : shutdownStep s i p = some t) :
    Transition s (.call i) t := by
  cases p with
  | swap =>
    simp only [shutdownStep] at h
    split at h
    · cases h
    · split at h
      · cases h
        exact .moveCall hi (.swapSkip (by grind) (by grind))
      · cases h
        exact .swap hi (by grind) (by grind)
  | requestStop todo cs =>
    cases todo with
    | nil =>
      cases h
      exact .moveCall hi .requestDone
    | cons c todo =>
      cases h
      exact .requestStop hi
  | notifyStop c todo cs =>
    cases h
    exact .notifyStop hi
  | join todo cs =>
    cases todo with
    | nil =>
      cases h
      exact .moveCall hi .joinDone
    | cons c todo =>
      simp only [shutdownStep] at h
      split at h
      · rename_i hleft
        cases h
        exact .moveCall hi (.join hleft)
      · cases h
  | destroy todo =>
    cases todo with
    | nil =>
      cases h
      exact .moveCall hi .destroyDone
    | cons c todo =>
      cases h
      exact .destroyContext hi

theorem callStep_transition {i : Nat} (h : callStep s i = some t) : Transition s (.call i) t := by
  unfold callStep at h
  split at h
  · rename_i c r hi
    split at h
    · rename_i hfree
      cases h
      exact .pushIo hi hfree
    · cases h
  · rename_i p hi
    exact loopStep_transition hi h
  · rename_i p hi
    exact stopStep_transition hi h
  · rename_i p hi
    exact shutdownStep_transition hi h
  · cases h

theorem workerStep_transition {c : Nat} {x : Context} (hx : s.ctxs[c]? = some x)
    (h : workerStep s c x = some t) : Transition s (.worker c) t := by
  unfold workerStep at h
  split at h <;> rename_i hw
  · split at h
    · cases h
      exact .moveWorker hx hw (.popNone (by grind))
    · cases h
      exact .popBatch hx hw (by grind)
  · split at h
    · cases h
      exact .moveWorker hx hw (.batchDone (by grind))
    · rename_i hb
      cases h
      exact .resume hx hw hb
  · cases h
    exact .destroyFrame hx hw
  · cases h
    exact .completed hx hw
  · cases h
    exact .notifyCompletion hx hw
  · split at h
    · rename_i hreap
      cases h
      exact .reap hx hw (by grind)
    · cases h
      split
      · exact .moveWorker hx hw .pollProgress
      · exact .moveWorker hx hw .pollIdle
  · cases h
    split
    · rename_i hstop
      exact .moveWorker hx hw (.stopAsked hstop)
    · exact .moveWorker hx hw (.noStop (by grind))
  · cases h
    split
    · rename_i hempty
      exact .moveWorker hx hw (.queuesEmpty hempty)
    · exact .moveWorker hx hw .queuesBusy
  · cases h
    split
    · rename_i hquiet
      exact .moveWorker hx hw (.leave hquiet)
    · exact .moveWorker hx hw .inflight
  · cases h
    split
    · exact .moveWorker hx hw .waitOver
    · exact .moveWorker hx hw (.waitFalse (by grind))
  · cases h
    exact .moveWorker hx hw .block
  · cases h

theorem Transition.suspend_nothing_parked {c : Nat} {x : Context} {g : Handle} {b : BodyAction}
    {status : FrameStatus} {engine : Engine} (hx : s.ctxs[c]? = some x)
    (hw : x.worker = .running g none) (hs : Suspension g x.engine b status engine []) :
    Transition s (.body c b)
      ((s.setStatus g status).setCtx c { x with engine, worker := .resumed g }) := by
  have := Transition.suspend hx hw hs
  rwa [List.append_nil] at this

theorem bodyStep_transition {c : Nat} {x : Context} {g : Handle} {b : BodyAction}
    (hx : s.ctxs[c]? = some x) (hw : x.worker = .running g none)
    (h : bodyStep s c x g b = some t) : Transition s (.body c b) t := by
  cases b with
  | yield =>
    cases h
    exact .suspend_nothing_parked hx hw .yield
  | suspendIo r =>
    simp only [bodyStep] at h
    split at h
    · rename_i hr
      cases h
      exact .suspend_nothing_parked hx hw (.suspendIo hr.1 hr.2)
    · cases h
  | submit f =>
    simp only [bodyStep] at h
    split at h
    · rename_i hf
      cases h
      exact .bodySubmit hx hw hf
    · cases h
  | submitToScheduler f =>
    simp only [bodyStep] at h
    split at h
    · rename_i hf
      cases h
      exact .spawn hx hw hf
    · cases h
  | park =>
    cases h
    exact .suspend hx hw .park
  | wake f =>
    simp only [bodyStep] at h
    split at h
    · rename_i hf
      cases h
      exact .wake hx hw hf
    · cases h
  | finish =>
    cases h
    exact .suspend_nothing_parked hx hw .finish

theorem step_transition (h : step s a = some t) : Transition s a t := by
  cases a with
  | callSubmit g =>
    simp only [step] at h
    split at h
    · rename_i hg
      cases h
      exact .callSubmit hg
    · cases h
  | callLoop =>
    cases h
    exact .callLoop
  | callStop =>
    cases h
    exact .callStop
  | callSubmitTask c g =>
    simp only [step] at h
    split at h
    · rename_i hc
      cases h
      exact .callSubmitTask hc
    · cases h
  | callSubmitIo c r =>
    simp only [step] at h
    split at h
    · rename_i hc
      cases h
      exact .callSubmitIo hc
    · cases h
  | submission who => exact submitStep_transition h
  | call i => exact callStep_transition h
  | spuriousLoop i =>
    simp only [step] at h
    split at h
    · rename_i hi
      cases h
      exact .moveCall hi .loopSpurious
    · cases h
  | worker c =>
    obtain ⟨x, hx, h⟩ := Option.bind_eq_some_iff.mp h
    exact workerStep_transition hx h
  | spuriousWorker c =>
    simp only [step] at h
    split at h
    · rename_i x hx
      split at h
      · rename_i hw
        cases h
        exact .moveWorker hx hw .spurious
      · cases h
    · cases h
  | body c b =>
    simp only [step] at h
    split at h
    · rename_i x hx
      split at h
      · rename_i g hw
        exact bodyStep_transition hx hw h
      · cases h
    · cases h
  | checkDone c answer =>
    simp only [step] at h
    split at h
    · rename_i x hx
      split at h
      · rename_i g hw
        split at h
        · rename_i hdone
          cases h
          exact .checkDone hx hw hdone
        · cases h
      · cases h
    · cases h
  | pollSubmit c rets =>
    simp only [step] at h
    split at h
    · rename_i x hx
      split at h
      · rename_i hw hpoll
        cases h
        exact .pollSubmit hx hw hpoll
      · cases h
    · cases h
  | complete c k result =>
    simp only [step] at h
    split at h
    · rename_i x hx
      obtain ⟨uring, hu, rfl⟩ := Option.map_eq_some_iff.mp h
      exact .complete hx hu
    · cases h

end TinyCoroutine.Runtime
