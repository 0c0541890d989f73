import TinyCoroutine.Runtime.Unchanged
import TinyCoroutine.Foundation.Run

/-!
# The sleep of a worker

`wait_for_work_or_stop` evaluates its predicate under the engine's mutex and blocks on
`cv_`. Work is queued under that mutex and announced afterwards, and an I/O request is
counted in `inflight_io_` before it is queued; in both cases the notification comes
after the block. The stop token is set, and announced, without the mutex: when both
fall between predicate and block the worker sleeps with stop requested, and
`worker_sleeps_through_stop` is a run where they do. Under
`StopNotifiesOutsideWindow` a sleeping worker whose predicate holds always has a
notification ahead.
-/
namespace TinyCoroutine.Runtime

open Foundation

variable {s t u : State} {a : Action} {c : Nat}

/-! ### Notifications ahead -/

/-- The next notification of the thread is for the worker of context `c`. -/
def Call.notifies (c : Nat) : Call → Bool
  | .submit (.notify d) => d == c
  | .submitIo d _ => d == c
  | .shutdown (.notifyStop d _ _) => d == c
  | _ => false

def WorkerPc.notifies (c : Nat) : WorkerPc → Bool
  | .running _ (some (.notify d)) => d == c
  | _ => false

/-- Some thread has a notification of `cv_` of context `c` to execute. -/
def State.Waking (s : State) (c : Nat) : Prop :=
  (∃ k ∈ s.calls, k.notifies c = true) ∨ ∃ x ∈ s.ctxs, x.worker.notifies c = true

instance (s : State) (c : Nat) : Decidable (s.Waking c) := inferInstanceAs (Decidable (_ ∨ _))

/-- The call has requested a stop of context `c` and has not notified it yet. -/
def Call.stops (c : Nat) : Call → Bool
  | .shutdown (.notifyStop d _ _) => d == c
  | _ => false

/-- The call has counted an I/O request for context `c` and has not queued it yet. -/
def Call.submitsIo (c : Nat) : Call → Bool
  | .submitIo d _ => d == c
  | _ => false

theorem Call.notifies_of_stops {k : Call} (h : k.stops c = true) : k.notifies c = true := by
  unfold Call.stops at h
  split at h
  · exact h
  · cases h

theorem Call.notifies_of_submitsIo {k : Call} (h : k.submitsIo c = true) :
    k.notifies c = true := by
  unfold Call.submitsIo at h
  split at h
  · exact h
  · cases h

/-- `notify_stop` does not notify a worker that is between its predicate and its block. -/
def StopNotifiesOutsideWindow (s : State) : Action → Prop
  | .call i =>
    match s.calls[i]? with
    | some (.shutdown (.notifyStop c _ _)) => s.mutexFree c = true
    | _ => True
  | _ => True

instance (s : State) (a : Action) : Decidable (StopNotifiesOutsideWindow s a) :=
  match a with
  | .call i => by
    show Decidable (match s.calls[i]? with
      | some (.shutdown (.notifyStop c _ _)) => s.mutexFree c = true
      | _ => True)
    split <;> infer_instance
  | .callSubmit _ | .callLoop | .callStop | .callSubmitTask _ _ | .callSubmitIo _ _
  | .submission _ | .spuriousLoop _ | .worker _ | .spuriousWorker _ | .body _ _ | .checkDone _ _
  | .pollSubmit _ _ | .complete _ _ _ => inferInstanceAs (Decidable True)

/-- The calls that have announced a change to context `c` outside of its mutex. -/
structure WindowKept (s t : State) (c : Nat) : Prop where
  stops : (∃ k ∈ s.calls, k.stops c = true) → ∃ k ∈ t.calls, k.stops c = true
  submitsIo : (∃ k ∈ s.calls, k.submitsIo c = true) → ∃ k ∈ t.calls, k.submitsIo c = true

/-- The notifications ahead of context `c` in `s` are still ahead in `t`. -/
structure WakeKept (s t : State) (c : Nat) : Prop extends WindowKept s t c where
  waking : s.Waking c → t.Waking c

theorem WindowKept.of_eq (hcalls : t.calls = s.calls) : WindowKept s t c := by
  constructor <;> rw [hcalls] <;> exact id

namespace WakeKept

theorem trans (h : WakeKept s t c) (h' : WakeKept t u c) : WakeKept s u c :=
  ⟨⟨h'.stops ∘ h.stops, h'.submitsIo ∘ h.submitsIo⟩, h'.waking ∘ h.waking⟩

theorem of_eq (hcalls : t.calls = s.calls) (hctxs : t.ctxs = s.ctxs) : WakeKept s t c := by
  refine ⟨.of_eq hcalls, ?_⟩
  rw [State.Waking, State.Waking, hcalls, hctxs]
  exact id

theorem addCall (k : Call) : WakeKept s (s.addCall k) c where
  waking := Or.imp_left fun ⟨l, hl, hn⟩ => ⟨l, by simp [State.addCall, hl], hn⟩
  stops := fun ⟨l, hl, hn⟩ => ⟨l, by simp [State.addCall, hl], hn⟩
  submitsIo := fun ⟨l, hl, hn⟩ => ⟨l, by simp [State.addCall, hl], hn⟩

theorem exists_setCall {i : Nat} {k k' : Call} {P : Call → Bool} (hi : s.calls[i]? = some k)
    (hk : P k = true → P k' = true) (h : ∃ l ∈ s.calls, P l = true) :
    ∃ l ∈ (s.setCall i k').calls, P l = true := by
  obtain ⟨l, hl, hn⟩ := h
  by_cases hlk : l = k
  · exact ⟨k', List.mem_set (List.getElem?_eq_some_iff.mp hi).1 _, hk (hlk ▸ hn)⟩
  · exact ⟨l, mem_setCall_of_ne hi hl hlk, hn⟩

theorem setCall {i : Nat} {k k' : Call} (hi : s.calls[i]? = some k)
    (hn : k.notifies c = true → k'.notifies c = true) (hs : k.stops c = false)
    (hio : k.submitsIo c = false) : WakeKept s (s.setCall i k') c where
  waking := Or.imp_left (exists_setCall hi hn)
  stops := exists_setCall hi (by simp [hs])
  submitsIo := exists_setCall hi (by simp [hio])

theorem notifyLoops : WakeKept s s.notifyLoops c := by
  have hkeep : ∀ {P : Call → Bool}, P (.loop .blocked) = false → (∃ k ∈ s.calls, P k = true) →
      ∃ k ∈ s.notifyLoops.calls, P k = true := by
    rintro P hP ⟨k, hk, hPk⟩
    refine ⟨k.notified, List.mem_map_of_mem hk, ?_⟩
    unfold Call.notified
    split
    · simp [hP] at hPk
    · exact hPk
  exact ⟨⟨hkeep rfl, hkeep rfl⟩, Or.imp_left (hkeep rfl)⟩

theorem modifyCtx {d : Nat} {f : Context → Context}
    (hf : ∀ x, x.worker.notifies c = true → (f x).worker.notifies c = true) :
    WakeKept s (s.modifyCtx d f) c where
  waking := by
    refine Or.imp_right ?_
    rintro ⟨x, hx, hn⟩
    obtain ⟨e, he⟩ := List.mem_iff_getElem?.mp hx
    refine ⟨if d = e then f x else x, List.mem_iff_getElem?.mpr ⟨e, ?_⟩, ?_⟩
    · simp [State.modifyCtx, List.getElem?_modify, he]
    · split
      · exact hf x hn
      · exact hn
  stops := id
  submitsIo := id

theorem setCtx {d : Nat} {x y : Context} (hx : s.ctxs[d]? = some x)
    (hn : x.worker.notifies c = true → y.worker.notifies c = true) :
    WakeKept s (s.setCtx d y) c where
  waking := by
    refine Or.imp_right ?_
    rintro ⟨z, hz, hzn⟩
    obtain ⟨e, he⟩ := List.mem_iff_getElem?.mp hz
    by_cases hde : d = e
    · subst hde
      have hxz : x = z := Option.some.inj (hx.symm.trans he)
      exact ⟨y, List.mem_set (List.getElem?_eq_some_iff.mp hx).1 _, hn (hxz ▸ hzn)⟩
    · refine ⟨z, List.mem_iff_getElem?.mpr ⟨e, ?_⟩, hzn⟩
      rw [State.setCtx, List.getElem?_set_ne hde, he]
  stops := id
  submitsIo := id

theorem notifyWorker {d : Nat} : WakeKept s (s.notifyWorker d) c :=
  modifyCtx fun x hn => by
    unfold WorkerPc.notified
    split
    · rename_i hw
      simp [hw, WorkerPc.notifies] at hn
    · exact hn

end WakeKept

theorem WindowKept.setSubmission {who : Submitter} {p : SubmitPc} {p' : Option SubmitPc}
    (hp : s.submission who = some p) : WindowKept s (s.setSubmission p' who) c := by
  cases who with
  | worker d => exact .of_eq rfl
  | call i =>
    obtain ⟨k, hi, hk⟩ := Option.bind_eq_some_iff.mp hp
    obtain rfl : k = .submit p := by cases k <;> simp_all [Call.submission]
    exact ⟨WakeKept.exists_setCall hi (by simp [Call.stops]),
      WakeKept.exists_setCall hi (by simp [Call.submitsIo])⟩

/-- A submission that moves on keeps the notifications of the other threads. -/
theorem WakeKept.setSubmission {who : Submitter} {p : SubmitPc} {p' : Option SubmitPc}
    (hp : s.submission who = some p) (hn : p ≠ .notify c) :
    WakeKept s (s.setSubmission p' who) c := by
  refine ⟨.setSubmission hp, ?_⟩
  cases who with
  | call i =>
    obtain ⟨k, hi, hk⟩ := Option.bind_eq_some_iff.mp hp
    obtain rfl : k = .submit p := by cases k <;> simp_all [Call.submission]
    refine (WakeKept.setCall hi (fun h => ?_) rfl rfl).waking
    unfold Call.notifies at h
    split at h <;> simp_all
  | worker d =>
    obtain ⟨x, hx, hxp⟩ := Option.bind_eq_some_iff.mp hp
    rw [State.setSubmission, State.modifyCtx_eq_setCtx hx]
    refine (WakeKept.setCtx hx fun h => ?_).waking
    unfold WorkerPc.notifies at h
    split at h <;> simp_all [WorkerPc.submission]

/-! ### The invariant -/

/-- What the place of a worker says about its predicate. -/
structure WakeOk (s : State) (c : Nat) (x : Context) : Prop where
  window : x.worker = .waitBlock → x.engine.empty = true ∧
    (x.stopRequested = true → ∃ k ∈ s.calls, k.stops c = true) ∧
    (x.engine.inflightIo ≠ 0 → ∃ k ∈ s.calls, k.submitsIo c = true)
  blocked : x.worker = .blocked → x.engine.hasWorkOrStop x.stopRequested = true → s.Waking c

/-- The worker neither sleeps nor is about to. -/
def WorkerPc.awake : WorkerPc → Bool
  | .waitBlock => false
  | .blocked => false
  | _ => true

theorem WakeOk.of_awake {x : Context} (h : x.worker.awake = true) : WakeOk s c x := by
  constructor <;> intro hw <;> simp [hw, WorkerPc.awake] at h

/-- A step of another thread that does not touch what the predicate reads. -/
theorem WakeOk.frame {x y : Context} (h : WakeOk s c x) (hk : WakeKept s t c)
    (hw : y.worker = x.worker) (hempty : y.engine.empty = x.engine.empty)
    (hstop : y.stopRequested = x.stopRequested) (hio : y.engine.inflightIo = x.engine.inflightIo) :
    WakeOk t c y where
  window hwait := by
    rw [hempty, hstop, hio]
    obtain ⟨he, hs, hi⟩ := h.window (hw ▸ hwait)
    exact ⟨he, hk.stops ∘ hs, hk.submitsIo ∘ hi⟩
  blocked hblocked hwork := by
    simp only [Engine.hasWorkOrStop, hempty, hstop, hio] at hwork
    exact hk.waking (h.blocked (hw ▸ hblocked) hwork)

theorem WakeOk.kept {x : Context} (h : WakeOk s c x) (hk : WakeKept s t c) : WakeOk t c x :=
  h.frame hk rfl rfl rfl rfl

def WakeInv (s : State) : Prop := ∀ c x, s.ctxs[c]? = some x → WakeOk s c x

theorem WakeInv.init (n : Nat) : WakeInv (init n) := by
  intro c x hx
  have hmem : x ∈ List.replicate (if n = 0 then 1 else n) ({} : Context) := List.mem_of_getElem? hx
  rw [(List.mem_replicate.mp hmem).2]
  exact .of_awake rfl

/-- Contexts unchanged. -/
theorem WakeInv.same_ctxs (I : WakeInv s) (hctxs : t.ctxs = s.ctxs) (hk : ∀ c, WakeKept s t c) :
    WakeInv t :=
  fun c x hx => (I c x (hctxs ▸ hx)).kept (hk c)

/-- A step of the worker of context `c` itself. -/
theorem WakeInv.setCtx {x y : Context} (I : WakeInv s) (hx : s.ctxs[c]? = some x)
    (hn : ∀ d, x.worker.notifies d = false) (hy : WakeOk (s.setCtx c y) c y) :
    WakeInv (s.setCtx c y) := by
  intro d z hz
  rcases State.getElem?_setCtx hx hz with ⟨rfl, rfl⟩ | ⟨-, hz⟩
  · exact hy
  · exact (I d z hz).kept (.setCtx hx (by simp [hn d]))

/-- A step on context `c` by another thread. -/
theorem WakeInv.modifyCtx {f : Context → Context} (I : WakeInv s)
    (hn : ∀ d x, x.worker.notifies d = true → (f x).worker.notifies d = true)
    (hf : ∀ x, s.ctxs[c]? = some x → WakeOk (s.modifyCtx c f) c (f x)) :
    WakeInv (s.modifyCtx c f) := by
  intro d z hz
  obtain ⟨x, hx, rfl⟩ := State.getElem?_modifyCtx hz
  split
  · rename_i hcd
    subst hcd
    exact hf x hx
  · exact (I d x hx).kept (.modifyCtx (hn d))

/-- A submission changes no context but the one that runs it. -/
theorem getElem?_setSubmission {who : Submitter} {p : SubmitPc} {p' : Option SubmitPc} {d : Nat}
    {z : Context} (hp : s.submission who = some p)
    (hz : (s.setSubmission p' who).ctxs[d]? = some z) :
    s.ctxs[d]? = some z ∨ z.worker.awake = true := by
  cases who with
  | call i => exact .inl hz
  | worker e =>
    obtain ⟨x, hx, hxp⟩ := Option.bind_eq_some_iff.mp hp
    rw [State.setSubmission, State.modifyCtx_eq_setCtx hx] at hz
    rcases State.getElem?_setCtx hx hz with ⟨-, rfl⟩ | ⟨-, hz⟩
    · right
      cases hw : x.worker <;> simp_all [WorkerPc.submission, WorkerPc.setSubmission, WorkerPc.awake]
    · exact .inl hz

theorem WakeInv.setSubmission {who : Submitter} {p : SubmitPc} {p' : Option SubmitPc}
    (I : WakeInv s) (hp : s.submission who = some p) (hn : ∀ c, p ≠ .notify c) :
    WakeInv (s.setSubmission p' who) := by
  intro d z hz
  rcases getElem?_setSubmission hp hz with hz | hz
  · exact (I d z hz).kept (.setSubmission hp (hn d))
  · exact .of_awake hz

theorem awake_notified {pc : WorkerPc} (h : pc ≠ .waitBlock) : pc.notified.awake = true := by
  cases pc <;> simp_all [WorkerPc.notified, WorkerPc.awake]

/-- A notification of `cv_` of context `c`: it can only be missed inside the window. -/
theorem WakeInv.notified {who : Submitter} (I : WakeInv s)
    (hp : s.submission who = some (.notify c)) :
    WakeInv ((s.setSubmission none who).notifyWorker c) := by
  intro d z hz
  obtain ⟨x, hx, rfl⟩ := State.getElem?_modifyCtx hz
  rcases getElem?_setSubmission hp hx with hx | hx
  · split
    · rename_i hcd
      subst hcd
      by_cases hw : x.worker = .waitBlock
      · refine ⟨fun _ => ?_, fun hb => ?_⟩
        · obtain ⟨he, hs, hi⟩ := (I c x hx).window hw
          have hkept : WindowKept s (s.setSubmission none who) c := .setSubmission hp
          exact ⟨he, hkept.stops ∘ hs, hkept.submitsIo ∘ hi⟩
        · simp [hw, WorkerPc.notified] at hb
      · exact .of_awake (awake_notified hw)
    · rename_i hcd
      refine (I d x hx).kept ?_
      exact (WakeKept.setSubmission hp (by simpa using hcd)).trans .notifyWorker
  · refine .of_awake ?_
    split
    · exact awake_notified (by rintro h; simp [h, WorkerPc.awake] at hx)
    · exact hx

theorem State.Waking.of_submission {who : Submitter} (h : s.submission who = some (.notify c)) :
    s.Waking c := by
  cases who with
  | call i =>
    obtain ⟨k, hi, hk⟩ := Option.bind_eq_some_iff.mp h
    refine .inl ⟨k, List.mem_of_getElem? hi, ?_⟩
    cases k <;> simp_all [Call.submission, Call.notifies]
  | worker d =>
    obtain ⟨x, hx, hw⟩ := Option.bind_eq_some_iff.mp h
    refine .inr ⟨x, List.mem_of_getElem? hx, ?_⟩
    cases hpc : x.worker <;> simp_all [WorkerPc.submission, WorkerPc.notifies]

theorem WakeInv.setCall {i : Nat} {k k' : Call} (I : WakeInv s) (hi : s.calls[i]? = some k)
    (hk : ∀ c, k.notifies c = false) : WakeInv (s.setCall i k') := by
  refine I.same_ctxs rfl fun c => .setCall hi (by simp [hk c]) ?_ ?_
  · refine Bool.eq_false_iff.mpr fun hs => ?_
    simpa [hk c] using Call.notifies_of_stops hs
  · refine Bool.eq_false_iff.mpr fun hs => ?_
    simpa [hk c] using Call.notifies_of_submitsIo hs

theorem State.worker_of_mutexFree {x : Context} (h : s.mutexFree c = true)
    (hx : s.ctxs[c]? = some x) : x.worker ≠ .waitBlock := by
  simpa [State.mutexFree, hx] using h

theorem WakeInv.moveWorker {x : Context} {pc pc' : WorkerPc} (I : WakeInv s)
    (hx : s.ctxs[c]? = some x) (hw : x.worker = pc) (hm : WorkerMove x c a pc pc') :
    WakeInv (s.setCtx c { x with worker := pc' }) := by
  refine I.setCtx hx (fun d => by cases hm <;> simp [hw, WorkerPc.notifies]) ?_
  cases hm with
  | waitFalse hfalse =>
    refine ⟨fun _ => ?_, by simp⟩
    simp only [Engine.hasWorkOrStop, Bool.or_eq_false_iff, Bool.not_eq_false', bne_eq_false_iff_eq]
      at hfalse
    exact ⟨hfalse.1.2, by simp [hfalse.1.1], by simp [hfalse.2]⟩
  | block =>
    refine ⟨by simp, fun _ hwork => .inl ?_⟩
    obtain ⟨he, hs, hi⟩ := (I c x hx).window hw
    simp only [Engine.hasWorkOrStop, he, Bool.not_true, Bool.or_false, Bool.or_eq_true, bne_iff_ne]
      at hwork
    rcases hwork with hstop | hio
    · obtain ⟨k, hk, hks⟩ := hs hstop
      exact ⟨k, hk, Call.notifies_of_stops hks⟩
    · obtain ⟨k, hk, hks⟩ := hi hio
      exact ⟨k, hk, Call.notifies_of_submitsIo hks⟩
  | _ => exact .of_awake rfl

theorem WakeInv.push {who : Submitter} {h : Handle} (I : WakeInv s)
    (hp : s.submission who = some (.push c h)) (hfree : s.mutexFree c = true) :
    WakeInv ((s.setSubmission (some (.notify c)) who).modifyCtx c fun x =>
      { x with engine := x.engine.submitTask h }) := by
  refine WakeInv.modifyCtx (I.setSubmission hp (by simp)) (fun _ _ hn => hn) fun x hx => ?_
  refine ⟨fun (hw : x.worker = .waitBlock) => ?_, fun _ _ => ?_⟩
  · rcases getElem?_setSubmission hp hx with hx | hx
    · exact absurd hw (State.worker_of_mutexFree hfree hx)
    · simp [hw, WorkerPc.awake] at hx
  · refine WakeKept.waking (.modifyCtx ?_) (.of_submission (State.submission_setSubmission hp))
    exact fun _ hn => hn

theorem WakeInv.pushIo {i : Nat} {r : IoRequest} (I : WakeInv s)
    (hi : s.calls[i]? = some (.submitIo c r)) (hfree : s.mutexFree c = true) :
    WakeInv ((s.setCall i (.submit (.notify c))).modifyCtx c fun x =>
      { x with engine := x.engine.pushIo r }) := by
  have hnew : .submit (.notify c) ∈ (s.setCall i (.submit (.notify c))).calls :=
    List.mem_set (List.getElem?_eq_some_iff.mp hi).1 _
  intro d z hz
  obtain ⟨x, hx, rfl⟩ := State.getElem?_modifyCtx hz
  split
  · rename_i hcd
    subst hcd
    refine ⟨fun (hw : x.worker = .waitBlock) => ?_, fun _ _ => .inl ⟨_, hnew, ?_⟩⟩
    · exact absurd hw (State.worker_of_mutexFree hfree hx)
    · simp [Call.notifies]
  · rename_i hcd
    refine (I d x hx).kept (WakeKept.trans (.setCall hi ?_ rfl ?_) (.modifyCtx fun _ hn => hn))
    · simp [Call.notifies, hcd]
    · simp [Call.submitsIo, hcd]

theorem WakeInv.requestStop {i : Nat} {todo cs : List Nat} (I : WakeInv s)
    (hi : s.calls[i]? = some (.shutdown (.requestStop (c :: todo) cs))) :
    WakeInv ((s.setCall i (.shutdown (.notifyStop c todo cs))).modifyCtx c fun x =>
      { x with stopRequested := true }) := by
  have hnew : .shutdown (.notifyStop c todo cs) ∈
      (s.setCall i (.shutdown (.notifyStop c todo cs))).calls :=
    List.mem_set (List.getElem?_eq_some_iff.mp hi).1 _
  refine WakeInv.modifyCtx (I.setCall hi fun _ => rfl) (fun _ _ hn => hn) fun x hx => ?_
  refine ⟨fun hw => ?_, fun _ _ => .inl ⟨_, hnew, by simp [Call.notifies]⟩⟩
  obtain ⟨he, -, hio⟩ := (I c x hx).window hw
  refine ⟨he, fun _ => ⟨_, hnew, by simp [Call.stops]⟩, fun hne => ?_⟩
  exact WakeKept.exists_setCall hi (by simp [Call.submitsIo]) (hio hne)

theorem WakeInv.notifyStop {i : Nat} {todo cs : List Nat} (I : WakeInv s)
    (hi : s.calls[i]? = some (.shutdown (.notifyStop c todo cs)))
    (hfree : s.mutexFree c = true) :
    WakeInv ((s.setCall i (.shutdown (.requestStop todo cs))).notifyWorker c) := by
  intro d z hz
  obtain ⟨x, hx, rfl⟩ := State.getElem?_modifyCtx hz
  split
  · rename_i hcd
    subst hcd
    exact .of_awake (awake_notified (State.worker_of_mutexFree hfree hx))
  · rename_i hcd
    refine (I d x hx).kept (WakeKept.trans (.setCall hi ?_ ?_ rfl) .notifyWorker)
    · simp [Call.notifies, hcd]
    · simp [Call.stops, hcd]

theorem WakeInv.preserved (I : WakeInv s) (hc : StopNotifiesOutsideWindow s a)
    (h : Transition s a t) : WakeInv t := by
  cases h with
  | callSubmit =>
    refine I.same_ctxs rfl fun c => WakeKept.trans (t := s.create _) ?_ (.addCall _)
    exact .of_eq rfl rfl
  | callLoop | callStop | callSubmitTask => exact I.same_ctxs rfl fun c => .addCall _
  | @callSubmitIo c r hlt =>
    refine WakeInv.modifyCtx (I.same_ctxs rfl fun c => .addCall _) (fun _ _ hn => hn) ?_
    intro x hx
    have hnew : .submitIo c r ∈ (s.addCall (.submitIo c r)).calls := by simp [State.addCall]
    refine ⟨fun hw => ?_, fun _ _ => .inl ⟨_, hnew, by simp [Call.notifies]⟩⟩
    obtain ⟨he, hs, -⟩ := (I c x hx).window hw
    exact ⟨he, (WakeKept.addCall _).stops ∘ hs, fun _ => ⟨_, hnew, by simp [Call.submitsIo]⟩⟩
  | reject hp | accept hp =>
    refine WakeInv.setSubmission (I.same_ctxs ?_ fun c => .of_eq ?_ ?_) hp (by simp) <;> rfl
  | push hp hfree => exact I.push hp hfree
  | notify hp => exact I.notified hp
  | pushIo hi hfree => exact I.pushIo hi hfree
  | moveCall hi hm =>
    exact I.setCall hi fun c => by cases hm <;> rfl
  | loopLock hi | loopPass hi | loopBlock hi | stopRequest hi | swap hi =>
    exact (I.setCall hi fun c => rfl).same_ctxs rfl fun c => .of_eq rfl rfl
  | stopNotify hi =>
    exact (I.setCall hi fun c => rfl).same_ctxs rfl fun c => .notifyLoops
  | requestStop hi => exact I.requestStop hi
  | notifyStop hi => exact I.notifyStop hi (by simpa [StopNotifiesOutsideWindow, hi] using hc)
  | destroyContext hi =>
    refine WakeInv.modifyCtx (I.setCall hi fun c => rfl) (fun _ _ hn => hn) fun x hx => ?_
    exact ((I.setCall hi fun c => rfl) _ x hx).frame (.modifyCtx fun _ hn => hn) rfl rfl rfl rfl
  | moveWorker hx hw hm => exact I.moveWorker hx hw hm
  | popBatch hx hw | reap hx hw | pollSubmit hx hw =>
    exact I.setCtx hx (by simp [hw, WorkerPc.notifies]) (.of_awake rfl)
  | resume hx hw | destroyFrame hx hw | suspend hx hw | bodySubmit hx hw | spawn hx hw
  | wake hx hw  =>
    refine WakeInv.setCtx (I.same_ctxs ?_ fun c => .of_eq ?_ ?_) hx
      (by simp [hw, WorkerPc.notifies]) (.of_awake rfl) <;> rfl
  | completed hx hw =>
    refine WakeInv.setCtx (I.same_ctxs ?_ fun c => .of_eq ?_ ?_) hx
      (by simp [hw, WorkerPc.notifies]) (.of_awake ?_)
    · rfl
    · rfl
    · rfl
    · dsimp only
      split <;> rfl
  | checkDone hx hw =>
    refine I.setCtx hx (by simp [hw, WorkerPc.notifies]) (.of_awake ?_)
    dsimp only
    split <;> rfl
  | notifyCompletion hx hw =>
    refine WakeInv.same_ctxs (I.setCtx hx (by simp [hw, WorkerPc.notifies]) ?_) rfl
      fun c => .notifyLoops
    exact .of_awake rfl
  | @complete c x k result uring hx hu =>
    have hkept : ∀ d, WakeKept s (s.setCtx c { x with engine := { x.engine with uring } }) d :=
      fun d => .setCtx hx fun hn => hn
    intro d z hz
    rcases State.getElem?_setCtx hx hz with ⟨rfl, rfl⟩ | ⟨-, hz⟩
    · exact (I c x hx).frame (hkept c) rfl rfl rfl rfl
    · exact (I d z hz).kept (hkept d)

theorem WakeInv.of_run {n : Nat} (h : Run step StopNotifiesOutsideWindow (Runtime.init n) s) :
    WakeInv s :=
  h.invariant (.init n) fun I hc ht => I.preserved hc (step_transition ht)

/-- A worker that is blocked although its predicate holds has a notification ahead. -/
theorem blocked_worker_is_notified {n : Nat} {x : Context}
    (h : Run step StopNotifiesOutsideWindow (init n) s) (hx : s.ctxs[c]? = some x)
    (hw : x.worker = .blocked) (hwork : x.engine.hasWorkOrStop x.stopRequested = true) :
    s.Waking c :=
  (WakeInv.of_run h c x hx).blocked hw hwork

/-- A worker asleep, and a task pushed into its queue. -/
theorem blocked_worker_is_notified_one :
    ∃ s x, Run step StopNotifiesOutsideWindow (init 1) s ∧ s.ctxs[0]? = some x ∧
      x.worker = .blocked ∧ x.engine.taskQueue = [7] ∧ s.Waking 0 := by
  obtain ⟨s, hs, x, hx, hw, hq⟩ := exists_run step StopNotifiesOutsideWindow (init 1)
    [.worker 0, .pollSubmit 0 [], .worker 0, .worker 0, .worker 0, .worker 0,
      .callSubmit 7, .submission (.call 0), .submission (.call 0)]
    (fun s => ∃ x ∈ s.ctxs[0]?, x.worker = .blocked ∧ x.engine.taskQueue = [7]) (by decide)
  refine ⟨s, x, hs, hx, hw, hq, blocked_worker_is_notified hs hx hw ?_⟩
  simp [Engine.hasWorkOrStop, Engine.empty, hq]

/-- Stop is requested and announced after the worker has evaluated its predicate and
before it blocks: it sleeps, and the join waits for it. -/
theorem worker_sleeps_through_stop :
    ¬ ∀ (n c : Nat) (s : State) (x : Context), Run step Always (init n) s →
      s.ctxs[c]? = some x → x.worker = .blocked →
      x.engine.hasWorkOrStop x.stopRequested = true → s.Waking c := by
  intro h
  obtain ⟨s, hs, x, hx, hw, hwork, hnone⟩ := exists_run step Always (init 1)
    [.worker 0, .pollSubmit 0 [], .worker 0, .worker 0, .worker 0,
      .callStop, .call 0, .call 0, .call 0, .call 0, .call 0, .worker 0]
    (fun s => ∃ x ∈ s.ctxs[0]?, x.worker = .blocked ∧
      x.engine.hasWorkOrStop x.stopRequested = true ∧ ¬ s.Waking 0) (by decide)
  exact hnone (h 1 0 s x hs hx hw hwork)

end TinyCoroutine.Runtime
