import TinyCoroutine.Runtime.Refinement

/-!
# Submissions and the end of acceptance

Where a place in a submission comes from (`Transition.submission_origin`), and what holds once a
`loop()` or a `stop()` has cleared `accepting_`: no stop token is set before, so a worker
that has seen its token works for a scheduler that accepts nothing any more.
-/
namespace TinyCoroutine.Runtime

variable {s t : State} {a : Action} {c : Nat} {x : Context} {g : Handle}

/-! ### Where a pending push comes from -/

section Submissions

variable {who w : Submitter} {p : SubmitPc} {q : Option SubmitPc}

theorem submission_setCall {i : Nat} {k k' : Call}
    (hp : (s.setCall i k').submission w = some p) (hi : s.calls[i]? = some k) :
    w = .call i ∧ k'.submission = some p ∨ s.submission w = some p := by
  cases w with
  | worker d => exact .inr hp
  | call j =>
    by_cases hij : i = j
    · subst hij
      simp only [State.submission, State.setCall,
        List.getElem?_set_self (List.getElem?_eq_some_iff.mp hi).1, Option.bind_some] at hp
      exact .inl ⟨rfl, hp⟩
    · simp only [State.submission, State.setCall, List.getElem?_set_ne hij] at hp
      exact .inr hp

theorem submission_setCtx {y : Context} (hp : (s.setCtx c y).submission w = some p)
    (hx : s.ctxs[c]? = some x) :
    w = .worker c ∧ y.worker.submission = some p ∨ s.submission w = some p := by
  cases w with
  | call i => exact .inr hp
  | worker d =>
    obtain ⟨z, hz, hzp⟩ := Option.bind_eq_some_iff.mp hp
    rcases State.getElem?_setCtx hx hz with ⟨rfl, rfl⟩ | ⟨-, hz⟩
    · exact .inl ⟨rfl, hzp⟩
    · exact .inr (Option.bind_eq_some_iff.mpr ⟨z, hz, hzp⟩)

theorem submission_modifyCtx_eq {f : Context → Context}
    (hf : ∀ x, (f x).worker.submission = x.worker.submission) :
    (s.modifyCtx c f).submission w = s.submission w := by
  cases w with
  | call i => rfl
  | worker d =>
    simp only [State.submission, State.modifyCtx, List.getElem?_modify]
    cases s.ctxs[d]? with
    | none => rfl
    | some x =>
      by_cases hd : c = d
      · simpa [hd] using hf x
      · simp [hd]

theorem submission_modifyCtx {f : Context → Context}
    (hp : (s.modifyCtx c f).submission w = some p)
    (hf : ∀ x, (f x).worker.submission = x.worker.submission) : s.submission w = some p :=
  (submission_modifyCtx_eq hf).symm.trans hp

theorem submission_notifyWorker : (s.notifyWorker c).submission w = s.submission w :=
  submission_modifyCtx_eq fun x => by cases hw : x.worker <;> rfl

theorem submission_notifyLoops : s.notifyLoops.submission w = s.submission w := by
  cases w with
  | worker d => rfl
  | call i =>
    simp only [State.submission, State.notifyLoops, List.getElem?_map]
    cases s.calls[i]? with
    | none => rfl
    | some k =>
      simp only [Option.map_some, Option.bind_some, Call.notified]
      split <;> rfl

theorem submission_addCall {k : Call} (hp : (s.addCall k).submission w = some p) :
    w = .call s.calls.length ∧ k.submission = some p ∨ s.submission w = some p := by
  cases w with
  | worker d => exact .inr hp
  | call i =>
    obtain ⟨l, hl, hlp⟩ := Option.bind_eq_some_iff.mp hp
    rcases Nat.lt_trichotomy i s.calls.length with hlt | rfl | hgt
    · rw [State.addCall, List.getElem?_append_left hlt] at hl
      exact .inr (Option.bind_eq_some_iff.mpr ⟨l, hl, hlp⟩)
    · obtain rfl : k = l := by simpa [State.addCall] using hl
      exact .inl ⟨rfl, hlp⟩
    · rw [State.addCall, List.getElem?_eq_none (by simp; omega)] at hl
      cases hl

/-- A submission that moves on is the only one that changes. -/
theorem submission_of_setSubmission {p₀ : SubmitPc}
    (hp : (s.setSubmission q who).submission w = some p) (hp₀ : s.submission who = some p₀) :
    w = who ∧ q = some p ∨ s.submission w = some p := by
  cases who with
  | call i =>
    obtain ⟨k, hi, -⟩ := Option.bind_eq_some_iff.mp hp₀
    rcases submission_setCall hp hi with ⟨rfl, hk⟩ | hp
    · refine .inl ⟨rfl, ?_⟩
      cases q with
      | none => cases hk
      | some q => exact hk
    · exact .inr hp
  | worker c =>
    obtain ⟨x, hx, hxp⟩ := Option.bind_eq_some_iff.mp hp₀
    rw [State.setSubmission, State.modifyCtx_eq_setCtx hx] at hp
    rcases submission_setCtx hp hx with ⟨rfl, hy⟩ | hp
    · refine .inl ⟨rfl, ?_⟩
      cases hw : x.worker <;> simp_all [WorkerPc.submission, WorkerPc.setSubmission]
    · exact .inr hp

/-- How a thread comes to its place in a submission, when it was not there before. -/
inductive SubmissionOrigin (s : State) : Action → Submitter → SubmitPc → Prop where
  | create {h} : SubmissionOrigin s (.callSubmit h) (.call s.calls.length) (.stateLock h)
  | bodySubmit {c h} : SubmissionOrigin s (.body c (.submit h)) (.worker c) (.stateLock h)
  | accept {who c h} : s.submission who = some (.stateLock h) → s.accepting = true →
      s.initialized = true → c ∈ s.contexts →
      SubmissionOrigin s (.submission who) who (.push c h)
  | body {b c x h g} : s.ctxs[c]? = some x → x.worker = .running h none →
      SubmissionOrigin s (.body c b) (.worker c) (.push c g)
  | pushed {who c h} : s.submission who = some (.push c h) →
      SubmissionOrigin s (.submission who) who (.notify c)

theorem Transition.submission_origin (h : Transition s a t) (hs : Regular s)
    (ha : a.direct = false) (hp : t.submission w = some p) :
    s.submission w = some p ∨ SubmissionOrigin s a w p := by
  cases h with
  | callSubmit =>
    rcases submission_addCall (s := s.create _) hp with ⟨rfl, hk⟩ | hp
    · cases hk
      exact .inr .create
    · exact .inl hp
  | callLoop | callStop =>
    rcases submission_addCall hp with ⟨-, hk⟩ | hp
    · cases hk
    · exact .inl hp
  | callSubmitTask | callSubmitIo => cases ha
  | reject hp₀ =>
    rcases submission_of_setSubmission hp hp₀ with ⟨-, hq⟩ | hp
    · cases hq
    · exact .inl hp
  | accept hp₀ _ hinit hacc hc =>
    rcases submission_of_setSubmission hp hp₀ with ⟨rfl, hq⟩ | hp
    · cases hq
      exact .inr (.accept hp₀ hacc hinit (List.mem_of_getElem? hc))
    · exact .inl hp
  | push hp₀ =>
    rcases submission_of_setSubmission (submission_modifyCtx hp fun _ => rfl) hp₀ with
      ⟨rfl, hq⟩ | hp
    · cases hq
      exact .inr (.pushed hp₀)
    · exact .inl hp
  | notify hp₀ =>
    rcases submission_of_setSubmission (submission_notifyWorker.symm.trans hp) hp₀ with
      ⟨-, hq⟩ | hp
    · cases hq
    · exact .inl hp
  | pushIo hi => exact (hs.no_submitIo hi).elim
  | requestStop hi | destroyContext hi =>
    rcases submission_setCall (submission_modifyCtx hp fun _ => rfl) hi with ⟨-, hk⟩ | hp
    · cases hk
    · exact .inl hp
  | moveCall hi hm =>
    rcases submission_setCall hp hi with ⟨-, hk⟩ | hp
    · cases hm <;> cases hk
    · exact .inl hp
  | loopLock hi | loopPass hi | loopBlock hi | stopRequest hi | swap hi =>
    rcases submission_setCall (s := s) hp hi with ⟨-, hk⟩ | hp
    · cases hk
    · exact .inl hp
  | stopNotify hi =>
    rcases submission_setCall (submission_notifyLoops.symm.trans hp) hi with ⟨-, hk⟩ | hp
    · cases hk
    · exact .inl hp
  | notifyStop hi =>
    rcases submission_setCall (submission_notifyWorker.symm.trans hp) hi with ⟨-, hk⟩ | hp
    · cases hk
    · exact .inl hp
  | moveWorker hx hw hm =>
    rcases submission_setCtx hp hx with ⟨-, hk⟩ | hp
    · cases hm <;> cases hk
    · exact .inl hp
  | notifyCompletion hx =>
    rcases submission_setCtx (submission_notifyLoops.symm.trans hp) hx with ⟨-, hk⟩ | hp
    · cases hk
    · exact .inl hp
  | completed hx | checkDone hx =>
    rcases submission_setCtx hp hx with ⟨-, hk⟩ | hp
    · dsimp only at hk
      split at hk <;> cases hk
    · exact .inl hp
  | bodySubmit hx =>
    rcases submission_setCtx hp hx with ⟨rfl, hk⟩ | hp
    · cases hk
      exact .inr .bodySubmit
    · exact .inl hp
  | spawn hx hw | wake hx hw =>
    rcases submission_setCtx hp hx with ⟨rfl, hk⟩ | hp
    · cases hk
      exact .inr (.body hx hw)
    · exact .inl hp
  | @complete d x k result uring hx =>
    rcases submission_setCtx hp hx with ⟨rfl, hk⟩ | hp
    · exact .inl (Option.bind_eq_some_iff.mpr ⟨x, hx, hk⟩)
    · exact .inl hp
  | popBatch hx | resume hx | destroyFrame hx | reap hx | suspend hx | pollSubmit hx =>
    rcases submission_setCtx hp hx with ⟨-, hk⟩ | hp
    · cases hk
    · exact .inl hp

end Submissions

/-! ### Once a stop is requested nothing is accepted -/

/-- The call is past the section of `loop()` or `stop()` that ends acceptance. -/
def Call.closing : Call → Bool
  | .stop .notifyAll => true
  | .shutdown _ => true
  | _ => false

/-- The worker has seen the stop token. -/
def WorkerPc.stopping : WorkerPc → Bool
  | .canStopQueues => true
  | .canStopInflight => true
  | .left => true
  | _ => false

structure ClosedInv (s : State) : Prop where
  calls : s.accepting = true → s.calls.filter Call.closing = []
  tokens : s.accepting = true → s.Each fun _ x => x.stopRequested = false
  stages : s.Each fun _ x => x.worker.stopping = true → x.stopRequested = true

theorem ClosedInv.init (n : Nat) : ClosedInv (init n) where
  calls _ := rfl
  tokens _ := .init fun _ => rfl
  stages := .init fun _ h => by cases h

theorem ClosedInv.accepting_of_closing {i : Nat} {k : Call} (I : ClosedInv s)
    (hi : s.calls[i]? = some k) (hk : k.closing = true) : s.accepting = false := by
  refine Bool.eq_false_iff.mpr fun ha => ?_
  have := List.filter_eq_nil_iff.mp (I.calls ha) k (List.mem_of_getElem? hi)
  exact this hk

theorem ClosedInv.accepting_of_stopping (I : ClosedInv s) (hx : s.ctxs[c]? = some x)
    (hw : x.worker.stopping = true) : s.accepting = false := by
  refine Bool.eq_false_iff.mpr fun ha => ?_
  have h := I.tokens ha c x hx
  simp [I.stages c x hx hw] at h

/-- A worker sees the stop token only after it has been set, and nobody takes it back. -/
theorem ContextUpdate.stopping {y : Context} (h : ContextUpdate s a c x y)
    (hx : x.worker.stopping = true → x.stopRequested = true) :
    y.worker.stopping = true → y.stopRequested = true := by
  intro hw
  cases h with
  | setSubmission =>
    exact hx (by cases hpc : x.worker <;> simp_all [WorkerPc.setSubmission, WorkerPc.stopping])
  | notified =>
    exact hx (by cases hpc : x.worker <;> simp_all [WorkerPc.notified, WorkerPc.stopping])
  | push | beginIo | pushIo | destroy | complete => exact hx hw
  | requestStop => rfl
  | move _ hpc hm =>
    cases hm with
    | stopAsked hasked => exact hasked
    | queuesEmpty | leave => exact hx (by simp [hpc, WorkerPc.stopping])
    | _ => cases hw
  | work _ _ hm => cases hm <;> cases hw
  | reap | pollSubmit => cases hw

theorem Transition.accepting_before (h : Transition s a t) (ha : t.accepting = true) :
    s.accepting = true := by
  cases h with
  | loopPass | stopRequest => cases ha
  | reject | accept | push | notify =>
    simpa [State.refuse, State.accept, State.modifyCtx, State.notifyWorker] using ha
  | _ => exact ha

theorem ClosedInv.calls_step (I : ClosedInv s) (h : Transition s a t) (ha : t.accepting = true) :
    t.calls.filter Call.closing = [] := by
  have hs := h.accepting_before ha
  have closed {i : Nat} {k : Call} (hi : s.calls[i]? = some k) (hk : k.closing = true) :
      False := by
    simp [I.accepting_of_closing hi hk] at hs
  cases h with
  | callSubmit | callLoop | callStop | callSubmitTask | callSubmitIo =>
    exact (filter_addCall rfl).trans (I.calls ha)
  | reject hp | accept hp | push hp | notify hp =>
    rw [← I.calls hs]
    apply filter_setSubmission
    · exact hp
    · exact fun _ => rfl
    · rfl
  | pushIo hi | loopLock hi | loopBlock hi => exact (filter_setCall hi rfl rfl).trans (I.calls ha)
  | loopPass | stopRequest => cases ha
  | stopNotify hi | swap hi | requestStop hi | notifyStop hi | destroyContext hi =>
    exact (closed hi rfl).elim
  | moveCall hi hm =>
    cases hm with
    | loopThrow | loopWait | loopSpurious | stopSkip =>
      exact (filter_setCall hi rfl rfl).trans (I.calls ha)
    | swapSkip | requestDone | join | joinDone | destroyDone => exact (closed hi rfl).elim
  | notifyCompletion => exact (filter_notifyLoops rfl rfl).trans (I.calls ha)
  | moveWorker | popBatch | resume | destroyFrame | completed | reap | suspend | bodySubmit | spawn
  | wake | checkDone | pollSubmit | complete => exact I.calls ha

theorem ClosedInv.tokens_step (I : ClosedInv s) (h : Transition s a t) (ha : t.accepting = true) :
    t.Each fun _ x => x.stopRequested = false := by
  have hs := h.accepting_before ha
  refine h.each (fun c x y hu hx => ?_) (I.tokens hs)
  cases hu with
  | requestStop hi =>
    have hfalse := I.accepting_of_closing hi rfl
    simp [hs] at hfalse
  | _ => exact hx

theorem ClosedInv.preserved (I : ClosedInv s) (h : Transition s a t) : ClosedInv t where
  calls := I.calls_step h
  tokens := I.tokens_step h
  stages := h.each (fun _ _ _ hu => hu.stopping) I.stages

end TinyCoroutine.Runtime
