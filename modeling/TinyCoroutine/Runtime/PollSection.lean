import TinyCoroutine.Runtime.Polling

/-!
# The critical section of `poll_io`

The scheduler uses the critical section of `poll_io` as one function, `Engine.pollSubmit`. It
is what the first four loops do when nothing happens between their iterations.
-/
namespace TinyCoroutine.Runtime.Polling

open Foundation

theorem waiting_run {n room progressed : Nat} (hroom : progressed + room = n) (s : Polling)
    (hpc : s.pc = .waiting n progressed) :
    ∃ t, Run step Always s t ∧
      t.engine = (Engine.drainWaiting room s.engine progressed).1 ∧
      t.pc = .preparing .read n (Engine.drainWaiting room s.engine progressed).2 0 := by
  induction room generalizing s progressed with
  | zero =>
    refine ⟨{ s with pc := .preparing .read n progressed 0 }, ?_, rfl, rfl⟩
    refine .head (a := .next) trivial ?_ .refl
    have hnot : ¬progressed < n := by omega
    simp [step, next, hpc, hnot]
  | succ room ih =>
    have hlt : progressed < n := by omega
    cases hq : s.engine.ioWaitingQueue with
    | nil =>
      simp only [Engine.drainWaiting, hq]
      refine ⟨{ s with pc := .preparing .read n progressed 0 }, ?_, rfl, rfl⟩
      refine .head (a := .next) trivial ?_ .refl
      simp [step, next, hpc, hq]
    | cons h rest =>
      simp only [Engine.drainWaiting, hq]
      obtain ⟨t, hrun, ht⟩ := ih (show progressed + 1 + room = n by omega) { s with
        engine := { s.engine.onIoInflightEnd with
          taskQueue := s.engine.taskQueue ++ [h], ioWaitingQueue := rest }
        pc := .waiting n (progressed + 1)
        moved := s.moved ++ [.waiting h] } rfl
      refine ⟨t, .head (a := .next) trivial ?_ hrun, ht⟩
      simp [step, next, hpc, hq, hlt]

theorem setSubmitQueue_self (e : Engine) (kind : IoKind) :
    e.setSubmitQueue (e.submitQueue kind) kind = e := by
  cases kind <;> rfl

theorem preparing_run {kind : IoKind} {n progressed prepared room room' pending : Nat}
    {queue : List IoAwaiter} {u : IoUring} (hroom : prepared + room = n) (s : Polling)
    (hpc : s.pc = .preparing kind n progressed prepared)
    (hok : Engine.prepareLoop room (s.engine.submitQueue kind) s.engine.uring
      s.engine.pendingSubmitCount = .ok (room', queue, u, pending)) :
    ∃ t prepared', Run step Always s t ∧ prepared' + room' = n ∧
      t.engine = { s.engine.setSubmitQueue queue kind with
        uring := u, pendingSubmitCount := pending } ∧
      t.pc = afterPreparing kind n progressed prepared' := by
  induction room generalizing s prepared with
  | zero =>
    cases hok
    refine ⟨{ s with pc := afterPreparing kind n progressed prepared }, prepared, ?_, hroom, ?_,
      rfl⟩
    · refine .head (a := .next) trivial ?_ .refl
      have hnot : ¬prepared < n := by omega
      simp [step, next, hpc, hnot]
    · simp [setSubmitQueue_self]
  | succ room ih =>
    have hlt : prepared < n := by omega
    cases hq : s.engine.submitQueue kind with
    | nil =>
      have hself := setSubmitQueue_self s.engine kind
      rw [hq] at hok hself
      cases hok
      refine ⟨{ s with pc := afterPreparing kind n progressed prepared }, prepared, ?_, hroom, ?_,
        rfl⟩
      · refine .head (a := .next) trivial ?_ .refl
        simp [step, next, hpc, hq]
      · simp [hself]
    | cons w rest =>
      simp only [hq, Engine.prepareLoop] at hok
      split at hok
      · cases hok
      · rename_i v hv
        obtain ⟨t, prepared', hrun, hprepared, hengine, ht⟩ :=
          ih (show prepared + 1 + room = n by omega) { s with
            engine := { s.engine.setSubmitQueue rest kind with
              uring := v, pendingSubmitCount := s.engine.pendingSubmitCount + 1 }
            pc := .preparing kind n progressed (prepared + 1) } rfl
            (by cases kind <;> exact hok)
        refine ⟨t, prepared', .head (a := .next) trivial ?_ hrun, hprepared, ?_, ht⟩
        · cases kind <;> simp [step, next, hpc, hq, hlt, hv, Engine.setSubmitQueue]
        · rw [hengine]
          cases kind <;> rfl

theorem submitting_done {n progressed : Nat} (s : Polling) (hpc : s.pc = .submitting n progressed)
    (hp : s.engine.pendingSubmitCount = 0) :
    ∃ t, Run step Always s t ∧ t.engine = { s.engine with pendingSubmitCount := 0 } ∧
      t.pc = .completing n progressed 0 := by
  refine ⟨{ s with pc := .completing n progressed 0 }, ?_, by simp [← hp], rfl⟩
  refine .head (a := .next) trivial ?_ .refl
  simp [step, next, hpc, hp]

theorem submitting_run {rets : List Int} {n progressed progressed' : Nat} {u : IoUring}
    (s : Polling) (hpc : s.pc = .submitting n progressed)
    (hok : Engine.submitLoop rets s.engine.uring s.engine.pendingSubmitCount progressed =
      .ok (u, progressed')) :
    ∃ t, Run step Always s t ∧ t.engine = { s.engine with uring := u, pendingSubmitCount := 0 } ∧
      t.pc = .completing n progressed' 0 := by
  induction rets generalizing s progressed with
  | nil =>
    cases hp : s.engine.pendingSubmitCount with
    | zero =>
      rw [hp] at hok
      cases hok
      exact submitting_done s hpc hp
    | succ pending => simp [hp, Engine.submitLoop] at hok
  | cons ret rets ih =>
    cases hp : s.engine.pendingSubmitCount with
    | zero =>
      rw [hp] at hok
      cases hok
      exact submitting_done s hpc hp
    | succ pending =>
      simp only [hp, Engine.submitLoop] at hok
      split at hok
      · cases hok
      split at hok
      · cases hok
      · rename_i hpos hle
        obtain ⟨t, hrun, hengine, ht⟩ := ih { s with
          engine := { s.engine with
            uring := s.engine.uring.submit ret.toNat
            pendingSubmitCount := pending + 1 - ret.toNat }
          pc := .submitting n (progressed + ret.toNat)
          consumed := s.consumed ++ s.engine.uring.sq.take ret.toNat } rfl hok
        refine ⟨t, .head (a := .submit ret) trivial ?_ hrun, hengine, ht⟩
        simp [step, submit, hpc, hp, hpos, hle]

/-- The critical section of `poll_io` is the run of its first four loops. -/
theorem pollSubmit_run {n progressed : Nat} {rets : List Int} {e : Engine} (s : Polling)
    (hpc : s.pc = .waiting n 0) (hok : s.engine.pollSubmit n rets = .ok (e, progressed)) :
    ∃ t, Run step Always s t ∧ t.engine = e ∧ t.pc = .completing n progressed 0 := by
  simp only [Engine.pollSubmit] at hok
  obtain ⟨⟨room, reads, u, pending⟩, hreads, hok⟩ := bind_eq_ok.mp hok
  obtain ⟨⟨room', writes, v, pending'⟩, hwrites, hok⟩ := bind_eq_ok.mp hok
  obtain ⟨⟨w, progressed'⟩, hsubmit, hok⟩ := bind_eq_ok.mp hok
  cases hok
  obtain ⟨s₁, hrun₁, hengine₁, hpc₁⟩ := waiting_run (Nat.zero_add n) s hpc
  rw [← hengine₁] at hreads hwrites
  obtain ⟨s₂, prepared, hrun₂, hprepared, hengine₂, hpc₂⟩ :=
    preparing_run (Nat.zero_add n) s₁ hpc₁ hreads
  obtain ⟨s₃, prepared', hrun₃, -, hengine₃, hpc₃⟩ :=
    preparing_run hprepared s₂ hpc₂ (by rw [hengine₂]; exact hwrites)
  obtain ⟨s₄, hrun₄, hengine₄, hpc₄⟩ :=
    submitting_run s₃ hpc₃ (by rw [hengine₃]; exact hsubmit)
  refine ⟨s₄, ((hrun₁.trans hrun₂).trans hrun₃).trans hrun₄, ?_, hpc₄⟩
  rw [hengine₄, hengine₃, hengine₂, hengine₁]
  rfl

end TinyCoroutine.Runtime.Polling
