import TinyCoroutine.Runtime.Awaiting
import TinyCoroutine.Runtime.Shutdown
import Mathlib.Data.List.Pairwise

/-!
# Every awaiter gets its own result

The table of requests and the engines agree: every request in the table is in the engine of its
context, or its coroutine is runnable there and finds the answer of the kernel in its awaiter. So a
coroutine is resumed by the worker on which it suspended, with the result of its own operation.
-/
namespace TinyCoroutine.Runtime

open Foundation

variable {t : State} {a : Action} {c : Nat} {x y : Context} {h : Handle}

namespace AwaitState

/-- Two requests whose awaiters are different objects. -/
def Apart (v w : Wait) : Prop :=
  ∀ p ∈ v.request.awaiter, ∀ q ∈ w.request.awaiter, p.addr ≠ q.addr

instance : Std.Symm Apart where
  symm _ _ h p hp q hq heq := h q hq p hp heq.symm

/-- Every request in the table is somewhere in its context, and every operation in an engine is in
the table. -/
structure Inv (s : AwaitState) : Prop where
  ledger : LedgerInv s.runtime
  placed : ∀ w ∈ s.waits, ∃ x, s.runtime.ctxs[w.context]? = some x ∧ w.In x
  known : s.runtime.Each fun c x => ∀ op ∈ x.engine.operations,
    ∃ w ∈ s.waits, w.context = c ∧ w.request.awaiter = some op
  apart : s.waits.Pairwise Apart

theorem Inv.init (n : Nat) : (init n).Inv where
  ledger := .init n
  placed w hw := by cases hw
  known := .init fun c op hop => by cases hop
  apart := .nil

variable {s : AwaitState}

/-- A step that leaves the requests alone. -/
theorem Inv.of_sameIo (I : s.Inv) (L : LedgerInv t) (hlen : t.ctxs.length = s.runtime.ctxs.length)
    (hsame : t.Each fun d y => ∀ x ∈ s.runtime.ctxs[d]?, x.SameIo y) :
    Inv { s with runtime := t } where
  ledger := L
  placed w hw := by
    obtain ⟨x, hx, hin⟩ := I.placed w hw
    have hlt : w.context < t.ctxs.length := hlen ▸ (List.getElem?_eq_some_iff.mp hx).1
    have hy : t.ctxs[w.context]? = some t.ctxs[w.context] := List.getElem?_eq_getElem hlt
    exact ⟨_, hy, (hsame _ _ hy x hx).wait hin⟩
  known d y hy op hop := by
    have hlt : d < s.runtime.ctxs.length := hlen ▸ (List.getElem?_eq_some_iff.mp hy).1
    have hx : s.runtime.ctxs[d]? = some s.runtime.ctxs[d] := List.getElem?_eq_getElem hlt
    rw [(hsame d y hy _ hx).operations] at hop
    exact I.known d _ hx op hop
  apart := I.apart

/-- A step that moves requests of context `c`. -/
theorem Inv.of_setCtx (I : s.Inv) {waits : List Wait} (L : LedgerInv t)
    (hx : s.runtime.ctxs[c]? = some x) (hctxs : t.ctxs = s.runtime.ctxs.set c y)
    (hold : ∀ w ∈ waits, w.context ≠ c → w ∈ s.waits)
    (hin : ∀ w ∈ waits, w.context = c → w.In y)
    (hkeep : ∀ d z, s.runtime.ctxs[d]? = some z → d ≠ c → ∀ op ∈ z.engine.operations,
      ∀ w ∈ s.waits, w.context = d → w.request.awaiter = some op → w ∈ waits)
    (hknown : ∀ op ∈ y.engine.operations, ∃ w ∈ waits, w.context = c ∧ w.request.awaiter = some op)
    (hapart : waits.Pairwise Apart) : Inv { runtime := t, waits } where
  ledger := L
  placed w hw := by
    change ∃ x, t.ctxs[w.context]? = some x ∧ w.In x
    rw [hctxs]
    by_cases hc : w.context = c
    · refine ⟨y, ?_, hin w hw hc⟩
      rw [hc, List.getElem?_set_self (List.getElem?_eq_some_iff.mp hx).1]
    · obtain ⟨z, hz, hzin⟩ := I.placed w (hold w hw hc)
      exact ⟨z, by rw [List.getElem?_set_ne (Ne.symm hc), hz], hzin⟩
  known d z hz op hop := by
    change t.ctxs[d]? = some z at hz
    rw [hctxs] at hz
    by_cases hd : d = c
    · subst hd
      rw [List.getElem?_set_self (List.getElem?_eq_some_iff.mp hx).1] at hz
      obtain rfl := Option.some.inj hz
      exact hknown op hop
    · rw [List.getElem?_set_ne (Ne.symm hd)] at hz
      obtain ⟨w, hw, hwd, hwop⟩ := I.known d z hz op hop
      exact ⟨w, hkeep d z hz hd op hop w hw hwd hwop, hwd, hwop⟩
  apart := hapart

/-- A request of context `c` is in this context. -/
theorem Inv.in_ctx (I : s.Inv) (hx : s.runtime.ctxs[c]? = some x) {w : Wait} (hw : w ∈ s.waits)
    (hc : w.context = c) : w.In x := by
  obtain ⟨z, hz, hzin⟩ := I.placed w hw
  rw [hc, hx] at hz
  exact Option.some.inj hz ▸ hzin

theorem Inv.pollSubmit (I : s.Inv) (L : LedgerInv t) (hx : s.runtime.ctxs[c]? = some x)
    {engine : Engine} {rets : List Int} {pc : WorkerPc} {n progressed : Nat}
    (hpoll : x.engine.pollSubmit n rets = .ok (engine, progressed))
    (hctxs : t.ctxs = s.runtime.ctxs.set c { x with engine, worker := pc }) :
    Inv { s with runtime := t } := by
  obtain ⟨htasks, -⟩ := Engine.pollSubmit_ok hpoll
  obtain ⟨hwaiting, hunfinished, hcq, hresults⟩ := Engine.pollSubmit_moves hpoll
  refine I.of_setCtx L hx hctxs (fun w hw _ => hw) (fun w hw hc => ?_)
    (fun _ _ _ _ _ _ w hw _ _ => hw) (fun op hop => ?_) I.apart
  · rcases I.in_ctx hx hw hc with hopen | ⟨hready, hanswer⟩
    · unfold Wait.Open at hopen
      split at hopen
      · rename_i hnone
        rw [← List.take_append_drop n x.engine.ioWaitingQueue] at hopen
        rcases List.mem_append.mp hopen with hmoved | hleft
        · refine .inr ⟨Multiset.mem_add.mpr (.inl ?_), by simp [hnone]⟩
          exact htasks ▸ List.mem_append_right _ hmoved
        · left
          simpa only [Wait.Open, hnone, hwaiting] using hleft
      · rename_i op hop
        left
        simpa only [Wait.Open, hop, hunfinished, hcq] using hopen
    · refine .inr ⟨?_, by simpa only [hresults] using hanswer⟩
      rcases Multiset.mem_add.mp hready with hq | hb
      · exact Multiset.mem_add.mpr (.inl (htasks ▸ List.mem_append_left _ hq))
      · exact Multiset.mem_add.mpr (.inr hb)
  · refine I.known c x hx op ?_
    simpa only [Engine.operations, hunfinished, hcq] using hop

theorem Inv.reap (I : s.Inv) (L : LedgerInv t) (hx : s.runtime.ctxs[c]? = some x)
    {engine : Engine} {pc : WorkerPc} (hreap : x.engine.reapOne = some engine)
    (hctxs : t.ctxs = s.runtime.ctxs.set c { x with engine, worker := pc }) :
    Inv { s with runtime := t } := by
  obtain ⟨op, v, rest, hcq, htasks, hwaiting, hunfinished, hrest, hresults⟩ :=
    Engine.reapOne_moves hreap
  have hop : op ∈ x.engine.operations := by
    refine Multiset.mem_add.mpr (.inr ?_)
    simp [hcq]
  refine I.of_setCtx L hx hctxs (fun w hw _ => hw) (fun w hw hc => ?_)
    (fun _ _ _ _ _ _ w hw _ _ => hw) (fun q hq => ?_) I.apart
  · rcases I.in_ctx hx hw hc with hopen | ⟨hready, hanswer⟩
    · unfold Wait.Open at hopen
      split at hopen
      · rename_i hnone
        left
        simpa only [Wait.Open, hnone, hwaiting] using hopen
      · rename_i q hq
        rcases hopen with ⟨hmem, hanswer⟩ | ⟨u, hmem, hanswer⟩
        · left
          simp only [Wait.Open, hq, hunfinished]
          exact .inl ⟨hmem, hanswer⟩
        · rw [hcq] at hmem
          rcases List.mem_cons.mp hmem with heq | hmem
          · -- the operation of `w` is the one that is reaped
            cases heq
            refine .inr ⟨Multiset.mem_add.mpr (.inl ?_), fun p hp => ?_⟩
            · rw [htasks, ← IoRequest.handle_of_awaiter hq]
              exact List.mem_append_right _ (List.mem_singleton.mpr rfl)
            · obtain rfl := Option.some.inj (hq.symm.trans hp)
              rw [hanswer, hresults, Function.update_self]
          · left
            simp only [Wait.Open, hq, hrest]
            exact .inr ⟨u, hmem, hanswer⟩
    · refine .inr ⟨?_, fun p hp => ?_⟩
      · rcases Multiset.mem_add.mp hready with hq | hb
        · exact Multiset.mem_add.mpr (.inl (htasks ▸ List.mem_append_left _ hq))
        · exact Multiset.mem_add.mpr (.inr hb)
      · -- another awaiter, since the coroutine of `w` waits in the task queue already
        obtain ⟨w', hw', hc', hop'⟩ := I.known c x hx op hop
        have hne : w ≠ w' := by
          rintro rfl
          have hio : w.request.handle ∈ x.engine.ioHandles := by
            rw [← IoRequest.handle_of_awaiter hop', Engine.ioHandles_eq]
            exact Multiset.mem_add.mpr (.inr (Multiset.mem_map_of_mem _ hop))
          cases I.ledger.place_unique (mem_marks_of_tasks hx hready) (mem_marks_of_io hx hio)
        have haddr : p.addr ≠ op.addr := I.apart.forall hw hw' hne p hp op hop'
        rw [hanswer p hp, hresults, Function.update_of_ne haddr]
  · refine I.known c x hx q (Multiset.mem_add.mpr ?_)
    rcases Multiset.mem_add.mp hq with hq | hq
    · exact .inl (hunfinished ▸ hq)
    · right
      rw [hcq]
      exact List.mem_cons_of_mem _ (hrest ▸ hq)

theorem Inv.complete (I : s.Inv) (L : LedgerInv t) (hx : s.runtime.ctxs[c]? = some x) {k : Nat}
    {result : Int} {uring : IoUring} (hring : x.engine.uring.complete k result = some uring)
    (hctxs : t.ctxs = s.runtime.ctxs.set c { x with engine := { x.engine with uring } }) :
    Inv { runtime := t, waits := s.waits.map (Wait.finish c (s.runtime.kernelOp c k) result) } := by
  obtain ⟨op, hop, hunfinished, hcq⟩ := Engine.unfinished_complete hring
  have hkernel : s.runtime.kernelOp c k = some op := by
    simp [State.kernelOp, hx, hop]
  rw [hkernel]
  have hother (w : Wait) (hc : w.context ≠ c) : w.finish c (some op) result = w := by
    simp [Wait.finish, hc]
  have hrequest (w : Wait) : (w.finish c (some op) result).request = w.request := by
    unfold Wait.finish
    split <;> rfl
  have hcontext (w : Wait) : (w.finish c (some op) result).context = w.context := by
    unfold Wait.finish
    split <;> rfl
  refine I.of_setCtx L hx hctxs (fun w hw hc => ?_) (fun w hw hc => ?_)
    (fun d z hz hd q hq w hw hwd hwq => ?_) (fun q hq => ?_) ?_
  · obtain ⟨v, hv, rfl⟩ := List.mem_map.mp hw
    rw [hcontext] at hc
    rwa [hother v hc]
  · obtain ⟨v, hv, rfl⟩ := List.mem_map.mp hw
    rw [hcontext] at hc
    by_cases hv' : v.request.awaiter = some op
    · left
      rw [Wait.finish, if_pos ⟨hc, rfl, hv'⟩]
      simp only [Wait.Open, hv']
      exact .inr ⟨result, by simp [hcq], rfl⟩
    · rw [Wait.finish, if_neg fun h => hv' h.2.2]
      rcases I.in_ctx hx hv hc with hopen | hready
      · left
        unfold Wait.Open at hopen ⊢
        split at hopen
        · exact hopen
        · rename_i q hq
          rcases hopen with ⟨hmem, hanswer⟩ | ⟨u, hmem, hanswer⟩
          · rw [hunfinished] at hmem
            refine .inl ⟨(Multiset.mem_add.mp hmem).resolve_right fun hqop => hv' ?_, hanswer⟩
            rw [hq, Multiset.mem_singleton.mp hqop]
          · exact .inr ⟨u, hcq ▸ List.mem_append_left _ hmem, hanswer⟩
      · exact .inr hready
  · refine List.mem_map.mpr ⟨w, hw, hother w ?_⟩
    rwa [hwd]
  · have hold : q ∈ x.engine.operations := by
      rcases Multiset.mem_add.mp hq with hq | hq
      · refine Multiset.mem_add.mpr (.inl ?_)
        rw [hunfinished]
        exact Multiset.mem_add.mpr (.inl hq)
      · rw [Multiset.mem_coe, hcq, List.map_append] at hq
        rcases List.mem_append.mp hq with hq | hq
        · exact Multiset.mem_add.mpr (.inr hq)
        · refine Multiset.mem_add.mpr (.inl ?_)
          rw [hunfinished, List.mem_singleton.mp hq]
          exact Multiset.mem_add.mpr (.inr (Multiset.mem_singleton.mpr rfl))
    obtain ⟨w, hw, hwc, hwq⟩ := I.known c x hx q hold
    exact ⟨_, List.mem_map_of_mem hw, by rw [hcontext, hwc], by rw [hrequest, hwq]⟩
  · refine List.pairwise_map.mpr (I.apart.imp fun {v w} hvw => ?_)
    simpa only [Apart, hrequest] using hvw

/-- A coroutine that runs leaves a request behind. -/
theorem Inv.suspendIo (I : s.Inv) (L : LedgerInv t) (hx : s.runtime.ctxs[c]? = some x)
    {r : IoRequest} {pc : WorkerPc}
    (haddr : ∀ w ∈ s.waits, ∀ p ∈ w.request.awaiter, ∀ q ∈ r.awaiter, q.addr ≠ p.addr)
    (hctxs : t.ctxs = s.runtime.ctxs.set c { x with engine := x.engine.submitIo r, worker := pc }) :
    Inv { runtime := t, waits := { context := c, request := r } :: s.waits } := by
  have hcq : (x.engine.submitIo r).uring.cq = x.engine.uring.cq := by cases r <;> rfl
  have hunfinished : (x.engine.submitIo r).unfinished =
      x.engine.unfinished + r.awaiter.elim 0 fun op => {op} := by
    cases r with
    | waiting g => exact (add_zero _).symm
    | read op | write op =>
      simp only [Engine.submitIo, Engine.pushIo, Engine.unfinished, Engine.onIoInflightBegin,
        IoRequest.awaiter, Option.elim_some, ← Multiset.coe_add, Multiset.coe_singleton]
      abel
  refine I.of_setCtx L hx hctxs (fun w hw hc => ?_) (fun w hw hc => ?_)
    (fun _ _ _ _ _ _ w hw _ _ => List.mem_cons_of_mem _ hw) (fun q hq => ?_) ?_
  · rcases List.mem_cons.mp hw with rfl | hw
    · exact absurd rfl hc
    · exact hw
  · rcases List.mem_cons.mp hw with rfl | hw
    · left
      cases r with
      | waiting g => exact List.mem_append_right _ (List.mem_singleton.mpr rfl)
      | read op | write op =>
        refine .inl ⟨?_, rfl⟩
        rw [hunfinished]
        exact Multiset.mem_add.mpr (.inr (Multiset.mem_singleton.mpr rfl))
    · rcases I.in_ctx hx hw hc with hopen | ⟨hmem, hanswer⟩
      · left
        unfold Wait.Open at hopen ⊢
        split at hopen
        · cases r with
          | waiting g => exact List.mem_append_left _ hopen
          | read op | write op => exact hopen
        · rw [hunfinished, hcq]
          exact hopen.imp_left fun hold => ⟨Multiset.mem_add.mpr (.inl hold.1), hold.2⟩
      · right
        cases r <;> exact ⟨hmem, hanswer⟩
  · have hnew : r.awaiter = some q ∨ q ∈ x.engine.operations := by
      rw [Engine.operations, hunfinished, hcq, add_right_comm] at hq
      refine (Multiset.mem_add.mp hq).symm.imp_left fun hq => ?_
      cases hr : r.awaiter with
      | none => simp [hr] at hq
      | some op => simpa [hr, eq_comm] using hq
    rcases hnew with hnew | hold
    · exact ⟨_, List.mem_cons_self, rfl, hnew⟩
    · obtain ⟨w, hw, hwc, hwq⟩ := I.known c x hx q hold
      exact ⟨w, List.mem_cons_of_mem _ hw, hwc, hwq⟩
  · refine List.pairwise_cons.mpr ⟨fun w hw p hp q hq => haddr w hw q hq p hp, I.apart⟩

theorem Inv.resume (I : s.Inv) (L : LedgerInv t) (hx : s.runtime.ctxs[c]? = some x)
    {rest : List Handle} {pc : WorkerPc} (hb : x.batch = h :: rest)
    (hctxs : t.ctxs = s.runtime.ctxs.set c { x with
      engine := x.engine.onTaskResumeBegin, batch := rest, worker := pc }) :
    Inv { runtime := t, waits := s.waits.filter fun w => w.request.handle ≠ h } := by
  have hready : h ∈ x.tasks := Multiset.mem_add.mpr (.inr (hb ▸ List.mem_cons_self))
  have hnot (d : Nat) (z : Context) (hz : s.runtime.ctxs[d]? = some z) (op : IoAwaiter)
      (hop : op ∈ z.engine.operations) : op.handle ≠ h := by
    rintro rfl
    have hio : op.handle ∈ z.engine.ioHandles := by
      rw [Engine.ioHandles_eq]
      exact Multiset.mem_add.mpr (.inr (Multiset.mem_map_of_mem _ hop))
    cases I.ledger.place_unique (mem_marks_of_tasks hx hready) (mem_marks_of_io hz hio)
  have hkept (d : Nat) (z : Context) (hz : s.runtime.ctxs[d]? = some z) (op : IoAwaiter)
      (hop : op ∈ z.engine.operations) (w : Wait) (hw : w ∈ s.waits)
      (hwop : w.request.awaiter = some op) : w ∈ s.waits.filter fun w => w.request.handle ≠ h := by
    refine List.mem_filter.mpr ⟨hw, ?_⟩
    rw [← IoRequest.handle_of_awaiter hwop]
    simpa using hnot d z hz op hop
  refine I.of_setCtx L hx hctxs (fun w hw _ => (List.mem_filter.mp hw).1) (fun w hw hc => ?_)
    (fun d z hz _ op hop w hw _ hwop => hkept d z hz op hop w hw hwop) (fun op hop => ?_)
    (I.apart.filter _)
  · obtain ⟨hw, hne⟩ := List.mem_filter.mp hw
    rcases I.in_ctx hx hw hc with hopen | ⟨hmem, hanswer⟩
    · exact .inl hopen
    · refine .inr ⟨?_, hanswer⟩
      rcases Multiset.mem_add.mp hmem with hq | hq
      · exact Multiset.mem_add.mpr (.inl hq)
      · rw [hb] at hq
        refine Multiset.mem_add.mpr (.inr ((List.mem_cons.mp hq).resolve_left ?_))
        simpa using hne
  · obtain ⟨w, hw, hwc, hwop⟩ := I.known c x hx op hop
    exact ⟨w, hkept c x hx op hop w hw hwop, hwc, hwop⟩

/-! ### Runs -/

/-- A step of a worker that resumes nobody leaves the table alone. -/
theorem record_worker (hx : s.runtime.ctxs[c]? = some x)
    (hw : x.worker ≠ .forLoop ∨ x.batch = []) : s.record (.worker c) = s.waits := by
  have hnone : s.runtime.resumes c = none := by
    rcases hw with hw | hw <;> simp [State.resumes, hx, hw]
  simp only [record, hnone]

theorem Inv.preserved (I : s.Inv) (hc : s.Admitted a) (ht : Transition s.runtime a t) :
    Inv { runtime := t, waits := s.record a } := by
  have L : LedgerInv t := I.ledger.preserved hc.1.direct hc.1.noLag ht
  have hself : s.runtime.Each fun d y => ∀ x ∈ s.runtime.ctxs[d]?, x.SameIo y := by
    rintro d y hy x hx
    obtain rfl := Option.some.inj (hy.symm.trans hx)
    exact .refl
  have hset {c : Nat} {x y : Context} (hx : s.runtime.ctxs[c]? = some x) (hxy : x.SameIo y) :
      (s.runtime.setCtx c y).Each fun d y => ∀ x ∈ s.runtime.ctxs[d]?, x.SameIo y := by
    refine hself.setCtx hx ?_
    rintro z hz
    obtain rfl := Option.some.inj (hx.symm.trans hz)
    exact hxy
  have quiet (hrecord : s.record a = s.waits)
      (heach : t.Each fun d y => ∀ x ∈ s.runtime.ctxs[d]?, x.SameIo y) :
      Inv { runtime := t, waits := s.record a } := by
    rw [hrecord]
    exact I.of_sameIo L ht.length_ctxs heach
  cases ht with
  | callSubmit | callLoop | callStop | callSubmitTask | loopLock | loopPass | loopBlock
  | stopRequest | stopNotify | swap => exact quiet rfl hself
  | callSubmitIo => cases hc.1.direct
  | reject | accept =>
    refine quiet rfl (State.Each.setSubmission ?_ fun d y hy x hx => (hy x hx).of_worker _)
    exact hself
  | push =>
    refine quiet rfl (State.Each.modifyCtx ?_ fun y _ hy x hx => (hy x hx).push _)
    exact hself.setSubmission fun d y hy x hx => (hy x hx).of_worker _
  | notify =>
    refine quiet rfl (State.Each.notifyWorker ?_ fun d y hy x hx => (hy x hx).of_worker _)
    exact hself.setSubmission fun d y hy x hx => (hy x hx).of_worker _
  | pushIo hi => exact (I.ledger.regular.no_submitIo hi).elim
  | moveCall _ hm =>
    refine quiet ?_ hself
    cases hm <;> rfl
  | requestStop | destroyContext =>
    exact quiet rfl (hself.modifyCtx fun y _ hy x hx => { hy x hx with tasks := (hy x hx).tasks })
  | notifyStop => exact quiet rfl (hself.notifyWorker fun d y hy x hx => (hy x hx).of_worker _)
  | moveWorker hx hw hm =>
    refine quiet ?_ (hset hx (Context.SameIo.refl.of_worker _))
    cases hm with
    | batchDone hb => exact record_worker hx (.inr hb)
    | spurious => rfl
    | _ => exact record_worker hx (.inl (by simp [hw]))
  | @popBatch c x hx hw hq =>
    refine quiet (record_worker hx (.inl (by simp [hw]))) (hset hx { Context.SameIo.refl with
      tasks := fun h hh => ?_ })
    have hbatch : x.batch = [] := I.ledger.regular.batches c x hx (by simp [hw, WorkerPc.inBatch])
    have hmem : h ∈ x.engine.taskQueue := by simpa [Context.tasks, hbatch] using hh
    rw [← List.take_append_drop kProcessBatchSize x.engine.taskQueue] at hmem
    exact Multiset.mem_add.mpr (List.mem_append.mp hmem).symm
  | @resume c x h rest hx hw hb =>
    have hrecord : s.record (.worker c) = s.waits.filter fun w => w.request.handle ≠ h := by
      simp [record, State.resumes, hx, hw, hb]
    rw [hrecord]
    exact I.resume L hx hb rfl
  | destroyFrame hx hw | completed hx hw | notifyCompletion hx hw =>
    refine quiet (record_worker hx (.inl (by simp [hw]))) ?_
    exact hset hx (Context.SameIo.refl.of_worker _)
  | reap hx hw hreap =>
    rw [record_worker hx (.inl (by simp [hw]))]
    exact I.reap L hx hreap rfl
  | @suspend c x h b _ _ _ hx hw hsus =>
    cases hsus with
    | yield => exact quiet rfl (hset hx ((Context.SameIo.refl.push h).of_worker _))
    | suspendIo => exact I.suspendIo L hx hc.2 rfl
    | park | finish => exact quiet rfl (hset hx (Context.SameIo.refl.of_worker _))
  | bodySubmit hx | spawn hx | wake hx =>
    exact quiet rfl (hset hx (Context.SameIo.refl.of_worker _))
  | checkDone hx =>
    exact quiet rfl (hset hx { Context.SameIo.refl with tasks := fun _ hh => hh })
  | pollSubmit hx hw hpoll => exact I.pollSubmit L hx hpoll rfl
  | complete hx hring => exact I.complete L hx hring rfl

theorem Inv.of_run {n : Nat} (run : Run step Admitted (AwaitState.init n) s) : s.Inv := by
  refine run.invariant (.init n) fun {s a t} I hc hs => ?_
  obtain ⟨r, hr, rfl⟩ := Option.map_eq_some_iff.mp hs
  exact I.preserved hc (step_transition hr)

/-- Until a coroutine that has suspended for I/O is resumed, its request is in the engine of its
worker, or it is runnable there. It is resumed by this worker, and what `await_resume` returns is
what the kernel has finished its operation with. -/
theorem awaiter_gets_own_result {n : Nat} (run : Run step Admitted (AwaitState.init n) s)
    {w : Wait} (hw : w ∈ s.waits) :
    (∃ x, s.runtime.ctxs[w.context]? = some x ∧ (w.Open x.engine ∨ w.Ready x)) ∧
      ∀ c, s.runtime.resumes c = some w.request.handle → c = w.context ∧
        ∃ x, s.runtime.ctxs[c]? = some x ∧
          ∀ op ∈ w.request.awaiter, w.answer = some (x.engine.results op.addr) := by
  have I := Inv.of_run run
  obtain ⟨x, hx, hin⟩ := I.placed w hw
  refine ⟨⟨x, hx, hin⟩, fun c hc => ?_⟩
  obtain ⟨y, hy, hhead⟩ := Option.bind_eq_some_iff.mp hc
  split at hhead
  · have hready : w.request.handle ∈ y.tasks :=
      Multiset.mem_add.mpr (.inr (List.mem_of_mem_head? hhead))
    have hmark := mem_marks_of_tasks hy hready
    rcases hin with hopen | ⟨hmem, hanswer⟩
    · cases I.ledger.place_unique hmark (mem_marks_of_io hx hopen.mem_ioHandles)
    · obtain rfl : c = w.context := by
        cases I.ledger.place_unique hmark (mem_marks_of_tasks hx hmem)
        rfl
      exact ⟨rfl, x, hx, hanswer⟩
  · cases hhead

/-- Coroutine 5 reads and coroutine 6 writes; the kernel finishes the second operation first. -/
theorem awaiter_gets_own_result_overtaken :
    ∃ s w x, Run step Admitted (AwaitState.init 1) s ∧ w ∈ s.waits ∧ w.request.handle = 6 ∧
      s.runtime.resumes 0 = some 6 ∧ s.runtime.ctxs[0]? = some x ∧ x.engine.results 200 = 60 := by
  obtain ⟨s, run, hresumes, w, hw, hrequest, hanswer⟩ := exists_run step Admitted
    (AwaitState.init 1)
    [.callSubmit 5, .submission (.call 0), .submission (.call 0), .callSubmit 6,
      .submission (.call 1), .submission (.call 1), .worker 0, .worker 0,
      .body 0 (.suspendIo (.read ⟨.read, 100, 3, 0, 8, 0, 5⟩)), .checkDone 0 false, .worker 0,
      .body 0 (.suspendIo (.write ⟨.write, 200, 4, 0, 8, 0, 6⟩)), .checkDone 0 false, .worker 0,
      .worker 0, .pollSubmit 0 [2], .complete 0 1 60, .complete 0 0 50, .worker 0, .worker 0,
      .worker 0, .worker 0]
    (fun s => s.runtime.resumes 0 = some 6 ∧
      ∃ w ∈ s.waits, w.request = .write ⟨.write, 200, 4, 0, 8, 0, 6⟩ ∧ w.answer = some 60)
    (by decide)
  have hhandle : w.request.handle = 6 := by rw [hrequest]; rfl
  obtain ⟨-, hresult⟩ := awaiter_gets_own_result run hw
  obtain ⟨-, x, hx, hvalue⟩ := hresult 0 (by rw [hresumes, hhandle])
  have hsixty := hvalue ⟨.write, 200, 4, 0, 8, 0, 6⟩ (by rw [hrequest]; rfl)
  rw [hanswer] at hsixty
  exact ⟨s, w, x, run, hw, hhandle, hresumes, hx, (Option.some.inj hsixty).symm⟩

end AwaitState

end TinyCoroutine.Runtime
