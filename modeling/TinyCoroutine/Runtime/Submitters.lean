import TinyCoroutine.Runtime.Closing
import TinyCoroutine.Runtime.Shutdown

/-!
# Submitters

A submission moves by the steps of its own submitter: every other step leaves it where it is,
whoever makes it. What a submitter has before it after the critical section of `submit_new` is
therefore what it does next.
-/
namespace TinyCoroutine.Runtime

variable {s t : State} {a : Action} {c : Nat}
variable {w : Submitter} {p : SubmitPc} {i : Nat} {k k' : Call} {x y : Context}

theorem submission_addCall_of (hp : s.submission w = some p) :
    (s.addCall k).submission w = some p := by
  cases w with
  | worker d => exact hp
  | call i =>
    obtain ⟨l, hl, hlp⟩ := Option.bind_eq_some_iff.mp hp
    refine Option.bind_eq_some_iff.mpr ⟨l, ?_, hlp⟩
    rw [State.addCall, List.getElem?_append_left (List.getElem?_eq_some_iff.mp hl).1, hl]

theorem submission_setCall_of (hi : s.calls[i]? = some k) (hk : k.submission = none)
    (hp : s.submission w = some p) : (s.setCall i k').submission w = some p := by
  cases w with
  | worker d => exact hp
  | call j =>
    have hij : i ≠ j := by
      rintro rfl
      simp [State.submission, hi, hk] at hp
    simpa only [State.submission, State.setCall, List.getElem?_set_ne hij] using hp

theorem submission_setCtx_of (hx : s.ctxs[c]? = some x)
    (hw : x.worker.submission = none ∨ y.worker = x.worker) (hp : s.submission w = some p) :
    (s.setCtx c y).submission w = some p := by
  cases w with
  | call j => exact hp
  | worker d =>
    obtain ⟨z, hz, hzp⟩ := Option.bind_eq_some_iff.mp hp
    by_cases hcd : c = d
    · subst hcd
      obtain rfl := Option.some.inj (hx.symm.trans hz)
      refine Option.bind_eq_some_iff.mpr
        ⟨y, List.getElem?_set_self (List.getElem?_eq_some_iff.mp hx).1, ?_⟩
      rcases hw with hw | hw
      · simp [hw] at hzp
      · rwa [hw]
    · refine Option.bind_eq_some_iff.mpr ⟨z, ?_, hzp⟩
      rw [State.setCtx, List.getElem?_set_ne hcd, hz]

theorem submission_setSubmission_of_ne {who : Submitter} {q : Option SubmitPc} (hne : w ≠ who) :
    (s.setSubmission q who).submission w = s.submission w := by
  cases who with
  | call i =>
    cases w with
    | worker d => rfl
    | call j =>
      have hij : i ≠ j := fun h => hne (h ▸ rfl)
      simp only [State.setSubmission, State.submission, State.setCall, List.getElem?_set_ne hij]
  | worker c =>
    cases w with
    | call j => rfl
    | worker d =>
      have hcd : c ≠ d := fun h => hne (h ▸ rfl)
      simp [State.setSubmission, State.submission, State.modifyCtx, hcd]

theorem Transition.keeps_submission (h : Transition s a t) (ha : a ≠ .submission w)
    (hp : s.submission w = some p) : t.submission w = some p := by
  cases h with
  | callSubmit | callLoop | callStop | callSubmitTask => exact submission_addCall_of hp
  | callSubmitIo =>
    rw [submission_modifyCtx_eq fun _ => by rfl]
    exact submission_addCall_of hp
  | reject | accept =>
    rw [submission_setSubmission_of_ne fun hw => ha (by rw [hw])]
    exact hp
  | push =>
    rw [submission_modifyCtx_eq (fun _ => by rfl),
      submission_setSubmission_of_ne fun hw => ha (by rw [hw])]
    exact hp
  | notify =>
    rw [submission_notifyWorker, submission_setSubmission_of_ne fun hw => ha (by rw [hw])]
    exact hp
  | pushIo hi | requestStop hi | destroyContext hi =>
    rw [submission_modifyCtx_eq (fun _ => by rfl)]
    exact submission_setCall_of hi rfl hp
  | moveCall hi hm => exact submission_setCall_of hi (by cases hm <;> rfl) hp
  | loopLock hi | loopPass hi | loopBlock hi | stopRequest hi | swap hi =>
    exact submission_setCall_of (s := s) hi rfl hp
  | stopNotify hi =>
    rw [submission_notifyLoops]
    exact submission_setCall_of hi rfl hp
  | notifyStop hi =>
    rw [submission_notifyWorker]
    exact submission_setCall_of hi rfl hp
  | moveWorker hx hw hm => exact submission_setCtx_of hx (.inl (by cases hm <;> rw [hw] <;> rfl)) hp
  | notifyCompletion hx hw =>
    rw [submission_notifyLoops]
    exact submission_setCtx_of hx (.inl (by rw [hw]; rfl)) hp
  | complete hx => exact submission_setCtx_of hx (.inr rfl) hp
  | popBatch hx hw | reap hx hw | checkDone hx hw | pollSubmit hx hw =>
    exact submission_setCtx_of hx (.inl (by rw [hw]; rfl)) hp
  | resume hx hw | destroyFrame hx hw | completed hx hw | suspend hx hw | bodySubmit hx hw
  | spawn hx hw | wake hx hw => exact submission_setCtx_of hx (.inl (by rw [hw]; rfl)) hp

/-- The step of a submitter that has a push before it: the handle goes to the end of the task
queue of the context that was chosen. -/
theorem Transition.pushes {h : Handle} (ht : Transition s (.submission w) t)
    (hp : s.submission w = some (.push c h)) :
    ∃ x y, s.ctxs[c]? = some x ∧ t.ctxs[c]? = some y ∧
      y.engine.taskQueue = x.engine.taskQueue ++ [h] := by
  cases ht with
  | reject hp' | accept hp' | notify hp' => cases hp.symm.trans hp'
  | @push _ _ _ hp' hfree =>
    cases hp.symm.trans hp'
    obtain ⟨x, hx, -⟩ := State.mutexFree_iff.mp hfree
    obtain ⟨z, hz, hzx⟩ : ∃ z, (s.setSubmission (some (.notify c)) w).ctxs[c]? = some z ∧
        z.engine = x.engine := by
      cases w with
      | call i => exact ⟨x, hx, rfl⟩
      | worker d =>
        simp only [State.setSubmission, State.modifyCtx, List.getElem?_modify, hx]
        exact ⟨_, rfl, by split <;> rfl⟩
    refine ⟨x, { z with engine := z.engine.submitTask h }, hx, ?_, ?_⟩
    · simp [State.modifyCtx, hz]
    · simp [Engine.submitTask, hzx]
  | moveCall _ hm => cases hm
  | moveWorker _ _ hm => cases hm

/-- A submitter that is done has no place in a submission. -/
theorem submission_setSubmission_none {who : Submitter} {p : SubmitPc}
    (hp : s.submission who = some p) : (s.setSubmission none who).submission who = none := by
  cases who with
  | call i =>
    obtain ⟨k, hi, -⟩ := Option.bind_eq_some_iff.mp hp
    simp [State.submission, State.setSubmission, State.setCall, Call.ofSubmission,
      Call.submission, (List.getElem?_eq_some_iff.mp hi).1]
  | worker c =>
    obtain ⟨x, hx, hxp⟩ := Option.bind_eq_some_iff.mp hp
    rw [State.setSubmission, State.modifyCtx_eq_setCtx hx]
    cases hw : x.worker <;>
      simp_all [State.submission, State.setCtx, WorkerPc.submission, WorkerPc.setSubmission,
        (List.getElem?_eq_some_iff.mp hx).1]

end TinyCoroutine.Runtime
