import TinyCoroutine.Runtime.Accounting
import TinyCoroutine.Runtime.Submit

/-!
# Draining before the workers leave

For tasks that stay on their worker and spawn only through `submit_to_scheduler`, with all
external submissions over before `stop()` is called, a worker leaves `Context::run` only
when its queues and its ring are empty, and they stay empty: `inflight_io_` counts exactly
the handles that wait for I/O, and nobody but the worker itself pushes into its queue any
more. A `stop()` that joins the workers therefore returns with every accepted task
destroyed. A `stop()` that finds the contexts already taken over by another call returns
at once (`stop_returns_before_draining`), so the result is about runs where it does not
overtake the joins of that call.
-/
namespace TinyCoroutine.Runtime

open Foundation

variable {s t : State} {a : Action} {c : Nat} {x : Context} {g : Handle}

/-! ### The counter of I/O in flight -/

theorem iterate_fetchSub {m k : Nat} (h : k ≤ m) : (fetchSub · 1)^[k] m = m - k := by
  induction k generalizing m with
  | zero => rfl
  | succ k ih =>
    rw [Function.iterate_succ_apply, fetchSub_of_le (by omega), ih (by omega)]
    omega

/-- `inflight_io_` is the number of handles that wait for I/O. -/
def Engine.IoCounted (e : Engine) : Prop := e.inflightIo = Multiset.card e.ioHandles

theorem Engine.IoCounted.pollSubmit {e e' : Engine} {n progressed : Nat} {rets : List Int}
    (h : e.IoCounted) (hp : e.pollSubmit n rets = .ok (e', progressed)) : e'.IoCounted := by
  obtain ⟨-, hio, hinflight, -⟩ := pollSubmit_ok hp
  have hcard := congrArg Multiset.card hio
  rw [Multiset.card_add, Multiset.coe_card, List.length_take] at hcard
  unfold IoCounted at h ⊢
  rw [hinflight, h, iterate_fetchSub (by omega)]
  omega

theorem Engine.IoCounted.reapOne {e e' : Engine} (h : e.IoCounted) (hr : e.reapOne = some e') :
    e'.IoCounted := by
  obtain ⟨g, -, hio, hinflight, -⟩ := reapOne_some hr
  have hcard := congrArg Multiset.card hio
  rw [Multiset.card_add, Multiset.card_singleton] at hcard
  unfold IoCounted at h ⊢
  rw [hinflight, h, fetchSub_of_le (by omega)]
  omega

theorem Engine.IoCounted.suspension {e e' : Engine} {h : Handle} {b : BodyAction}
    {status : FrameStatus} {parked : List Handle} (hc : e.IoCounted)
    (hs : Suspension h e b status e' parked) : e'.IoCounted := by
  cases hs with
  | yield | park | finish => exact hc
  | @suspendIo r hr hroom =>
    unfold IoCounted at hc ⊢
    rw [inflightIo_submitIo, hc, fetchAdd_of_lt hroom, submitIo, ioHandles_pushIo,
      Multiset.card_add, Multiset.card_singleton]
    rfl

theorem Transition.ioCounted (h : Transition s a t) (hs : Regular s) (ha : a.direct = false)
    (hb : s.Each fun _ x => x.engine.IoCounted) : t.Each fun _ x => x.engine.IoCounted := by
  refine h.each (fun c x y hu hx => ?_) hb
  cases hu with
  | setSubmission | notified | push | requestStop | destroy | move => exact hx
  | beginIo heq =>
    subst heq
    cases ha
  | pushIo hi => exact (hs.no_submitIo hi).elim
  | work _ _ hm =>
    cases hm with
    | suspend hsus => exact hx.suspension hsus
    | _ => exact hx
  | reap _ _ hreap => exact hx.reapOne hreap
  | pollSubmit _ _ hpoll => exact hx.pollSubmit hpoll
  | complete _ hu =>
    simpa [Engine.IoCounted, Engine.ioHandles, IoUring.awaiters_complete hu] using hx

/-! ### Stop calls that have not entered yet -/

/-- A `stop()` whose first section is still to come was called before or is called now. -/
theorem Transition.stop_origin {live : Bool} (h : Transition s a t)
    (hk : .stop (.enter live) ∈ t.calls) : .stop (.enter live) ∈ s.calls ∨ a = .callStop := by
  have set {i : Nat} {k : Call} {l : List Call} (hm : .stop (.enter live) ∈ l.set i k)
      (hne : .stop (.enter live) ≠ k) : .stop (.enter live) ∈ l :=
    (List.mem_or_eq_of_mem_set hm).resolve_right hne
  have notified {l : List Call} (hm : .stop (.enter live) ∈ l.map Call.notified) :
      .stop (.enter live) ∈ l := by
    obtain ⟨k, hk, heq⟩ := List.mem_map.mp hm
    unfold Call.notified at heq
    split at heq
    · cases heq
    · exact heq ▸ hk
  have submission {u : State} {p : Option SubmitPc} {who : Submitter}
      (hm : .stop (.enter live) ∈ (u.setSubmission p who).calls) (hu : u.calls = s.calls) :
      .stop (.enter live) ∈ s.calls := by
    rw [← hu]
    cases who with
    | worker d => exact hm
    | call i => exact set hm (by cases p <;> simp [Call.ofSubmission])
  cases h with
  | callSubmit | callLoop | callSubmitTask | callSubmitIo =>
    exact .inl ((List.mem_append.mp hk).resolve_right (by simp))
  | callStop => exact .inr rfl
  | reject | accept => exact .inl (submission hk rfl)
  | push | notify => exact .inl (submission (u := s) hk rfl)
  | moveCall hi hm => exact .inl (set hk (by cases hm <;> simp))
  | pushIo | loopLock | loopPass | loopBlock | stopRequest | swap | requestStop | notifyStop
  | destroyContext => exact .inl (set hk (by simp))
  | stopNotify => exact .inl (set (notified hk) (by simp))
  | notifyCompletion => exact .inl (notified hk)
  | moveWorker | popBatch | resume | destroyFrame | completed | reap | suspend | bodySubmit | spawn
  | wake | checkDone | pollSubmit | complete => exact .inl hk

/-- What ends acceptance. -/
inductive Closes (s : State) : Action → Prop where
  | stop {i live} : s.calls[i]? = some (Call.stop (.enter live)) → Closes s (.call i)
  | loop {i} : s.stopRequested = true ∨ s.pending = 0 → Closes s (.call i)

theorem Transition.accepting (h : Transition s a t) :
    t.accepting = s.accepting ∧ t.stopRequested = s.stopRequested ∨
      t.accepting = false ∧ Closes s a := by
  cases h with
  | loopPass _ hpass => exact .inr ⟨rfl, .loop hpass⟩
  | stopRequest hi => exact .inr ⟨rfl, .stop hi⟩
  | reject | accept =>
    exact .inl ⟨State.accepting_setSubmission .., State.stopRequested_setSubmission ..⟩
  | push | notify =>
    exact .inl ⟨State.accepting_setSubmission .., State.stopRequested_setSubmission ..⟩
  | _ => exact .inl ⟨rfl, rfl⟩

/-! ### The runs -/

/-- All external submissions are over when `stop()` is called, none is made until it has
closed the scheduler, and tasks stay on their worker and submit nothing through the
scheduler's own `submit`. -/
def SubmitsBeforeStop (s : State) : Action → Prop
  | .callStop => ∀ k ∈ s.calls, k.submission = none
  | .callSubmit _ => ∀ live, .stop (.enter live) ∉ s.calls
  | .body _ (.submit _) => False
  | a => StaysOnWorker s a

instance (s : State) (a : Action) : Decidable (SubmitsBeforeStop s a) := by
  unfold SubmitsBeforeStop
  split <;> infer_instance

theorem SubmitsBeforeStop.stays (h : SubmitsBeforeStop s a) : StaysOnWorker s a := by
  unfold SubmitsBeforeStop at h
  split at h
  · rfl
  · rfl
  · exact h.elim
  · exact h

structure DrainInv (s : State) : Prop where
  account : AccountInv s
  submit : SubmitInv s
  io : s.Each fun _ x => x.engine.IoCounted
  /-- A worker pushes into its own queue only, and takes no other way to submit. -/
  own : ∀ d p, s.submission (.worker d) = some p → (∃ g, p = .push d g) ∨ p = .notify d
  stopped : s.stopRequested = true → s.accepting = false
  entered : ∀ live, .stop (.enter live) ∈ s.calls → ∀ i, s.submission (.call i) = none
  closed : s.accepting = false → ∀ i c g, s.submission (.call i) ≠ some (.push c g)

theorem DrainInv.init (n : Nat) : DrainInv (init n) where
  account := .init n
  submit := .init n
  io := .init fun _ => rfl
  own d p hp := by
    have hnone : (Runtime.init n).Each fun _ x => x.worker.submission = none := .init fun _ => rfl
    obtain ⟨x, hx, hxp⟩ := Option.bind_eq_some_iff.mp hp
    simp [hnone d x hx] at hxp
  stopped h := by cases h
  entered live hm := by cases hm
  closed h := by cases h

/-- The worker makes its queue test when nobody can push to it any more. -/
theorem DrainInv.testsAfterPushes (I : DrainInv s) (hc : StaysOnWorker s a) :
    TestsAfterPushes s a := by
  unfold TestsAfterPushes
  split
  · rename_i c
    intro x hx hw _ _
    refine Bool.eq_false_iff.mpr fun hpush => ?_
    obtain ⟨w, g, hp⟩ := State.submission_of_pushing hpush
    cases w with
    | call i =>
      have hacc := I.submit.closed.accepting_of_stopping hx (by rw [hw]; rfl)
      exact I.closed hacc i c g hp
    | worker d =>
      obtain ⟨f, hf⟩ | hf := I.own d _ hp
      · obtain ⟨rfl, -⟩ := SubmitPc.push.inj hf
        obtain ⟨y, hy, hyp⟩ := Option.bind_eq_some_iff.mp hp
        obtain rfl := Option.some.inj (hx.symm.trans hy)
        simp [hw, WorkerPc.submission] at hyp
      · cases hf
  · exact hc.direct

/-- When the scheduler closes, no external call has an accepted handle to push. -/
theorem DrainInv.not_pushing_of_closes {i : Nat} (I : DrainInv s) (hclose : Closes s a)
    (hp : s.submission (.call i) = some (.push c g)) : False := by
  cases hclose with
  | stop hk =>
    have hnone := I.entered _ (List.mem_of_getElem? hk) i
    simp [hnone] at hp
  | loop hpass =>
    rcases hpass with hstop | hzero
    · exact I.closed (I.stopped hstop) i c g hp
    · have hnone := (I.account.allDone hzero).places g
      obtain ⟨k, hk, hkp⟩ := Option.bind_eq_some_iff.mp hp
      have hle : pushCount g k.submission ≤ _ := le_total (fun k => pushCount g k.submission) hk
      have hone : pushCount g k.submission = 1 := by simp [hkp, pushCount]
      unfold State.places at hnone
      omega

theorem DrainInv.preserved (I : DrainInv s) (hc : SubmitsBeforeStop s a) (h : Transition s a t) :
    DrainInv t := by
  have hdirect := hc.stays.direct
  have horigin := fun w p hp => h.submission_origin (w := w) (p := p) I.account.regular hdirect hp
  refine ⟨I.account.preserved hc.stays h, I.submit.preserved (I.testsAfterPushes hc.stays) h,
    h.ioCounted I.account.regular hdirect I.io, ?_, ?_, ?_, ?_⟩
  · intro d p hp
    rcases horigin _ _ hp with hp | ho
    · exact I.own d p hp
    · cases ho with
      | bodySubmit => exact hc.elim
      | accept hp₀ =>
        obtain ⟨f, hf⟩ | hf := I.own d _ hp₀ <;> cases hf
      | body => exact .inl ⟨_, rfl⟩
      | pushed hp₀ =>
        obtain ⟨f, hf⟩ | hf := I.own d _ hp₀
        · cases hf
          exact .inr rfl
        · cases hf
  · intro hstop
    rcases h.accepting with ⟨hacc, hsame⟩ | ⟨hacc, -⟩
    · rw [hacc]
      exact I.stopped (hsame ▸ hstop)
    · exact hacc
  · intro live hm i
    refine Option.eq_none_iff_forall_ne_some.mpr fun p hp => ?_
    rcases h.stop_origin hm with hm | rfl
    · have hnone := I.entered live hm
      rcases horigin _ _ hp with hp | ho
      · simp [hnone i] at hp
      · cases ho with
        | create => exact hc live hm
        | accept hp₀ | pushed hp₀ => simp [hnone i] at hp₀
    · rcases horigin _ _ hp with hp | ho
      · obtain ⟨k, hk, hkp⟩ := Option.bind_eq_some_iff.mp hp
        simp [hc k (List.mem_of_getElem? hk)] at hkp
      · cases ho
  · intro hacc i c g hp
    rcases h.accepting with ⟨hsame, -⟩ | ⟨-, hclose⟩
    · rw [hsame] at hacc
      rcases horigin _ _ hp with hp | ho
      · exact I.closed hacc i c g hp
      · cases ho with
        | accept _ htrue => simp [hacc] at htrue
    · have hold : s.submission (.call i) = some (.push c g) := by
        rcases horigin _ _ hp with hp | ho
        · exact hp
        · cases ho
          cases hclose
      exact I.not_pushing_of_closes hclose hold

theorem DrainInv.of_run {n : Nat} (h : Run step SubmitsBeforeStop (Runtime.init n) s) :
    DrainInv s :=
  h.invariant (.init n) fun I hc ht => I.preserved hc (step_transition ht)

/-! ### What the workers leave behind -/

theorem DrainInv.left_empty (I : DrainInv s) (hx : s.ctxs[c]? = some x)
    (hw : x.worker = .left) :
    x.engine.taskQueue = [] ∧ x.batch = [] ∧ x.engine.ioHandles = 0 := by
  have hquiet := I.submit.quiet c x hx hw
  have hqueue := I.submit.drained c x hx (by rw [hw]; rfl) hquiet
  refine ⟨hqueue.1, I.account.regular.batches c x hx (by rw [hw]; rfl), ?_⟩
  have hio : x.engine.inflightIo = _ := I.io c x hx
  simp only [Engine.quiet, Bool.and_eq_true, beq_iff_eq] at hquiet
  exact Multiset.card_eq_zero.mp (hio.symm.trans hquiet.2)

/-- When all workers have left, the only coroutines around are being rejected. -/
theorem DrainInv.stage_of_mark (I : DrainInv s) (hall : s.AllLeft) {m : Mark}
    (hm : m ∈ s.marks) : m.stage = .submitting := by
  have left {d : Nat} {x : Context} (hx : s.ctxs[d]? = some x) : x.worker = .left :=
    hall x (List.mem_of_getElem? hx)
  obtain ⟨d, x, hx, hctx⟩ | ⟨w, hw⟩ | ⟨hst, hparked⟩ := mem_marks_cases hm
  · obtain ⟨hqueue, hbatch, hio⟩ := I.left_empty hx (left hx)
    rcases hctx with ⟨-, hh⟩ | ⟨-, hh⟩ | ⟨-, hh⟩
    · simp [Context.tasks, hqueue, hbatch] at hh
    · simp [hio] at hh
    · simp [left hx, WorkerPc.marks] at hh
  · cases hp : s.submission w with
    | none => simp [hp, submissionMarks] at hw
    | some p =>
      cases p with
      | stateLock g =>
        obtain rfl : m = ⟨.submitting, g⟩ := by simpa [hp, submissionMarks] using hw
        rfl
      | push c g =>
        have hx := List.getElem?_eq_getElem (I.submit.range w c g hp)
        have hacc := I.submit.closed.accepting_of_stopping hx (by rw [left hx]; rfl)
        cases w with
        | call i => exact absurd hp (I.closed hacc i c g)
        | worker d =>
          obtain ⟨y, hy, hyp⟩ := Option.bind_eq_some_iff.mp hp
          simp [left hy, WorkerPc.submission] at hyp
      | notify c => simp [hp, submissionMarks] at hw
  · simp [I.account.parked] at hparked

theorem DrainInv.all_destroyed (I : DrainInv s) (hall : s.AllLeft) (hg : g ∈ s.accepted) :
    (s.frames g).status = .destroyed ∧ g ∈ s.completed := by
  have hnone : ∀ k, k ≠ .submitting → Ledger.tally s.marks k g = 0 := by
    intro k hk
    by_contra hne
    obtain ⟨m, hm, rfl, -⟩ := Ledger.exists_mem_of_tally_pos (Nat.pos_of_ne_zero hne)
    simp [I.stage_of_mark hall hm, Stage.kind] at hk
  have hwaiting : (s.ledger.entry g).waiting = 0 := hnone .waiting (by simp)
  have hrunning : (s.ledger.entry g).running = 0 := hnone .running (by simp)
  have hresumed : (s.ledger.entry g).resumed = 0 := hnone .resumed (by simp)
  have hdestroying : (s.ledger.entry g).destroying = 0 := hnone .destroying (by simp)
  have hcompleting : (s.ledger.entry g).completing = 0 := hnone .completing (by simp)
  have hpos : 0 < (s.ledger.entry g).accepted := List.count_pos_iff.mpr hg
  have hok : (s.ledger.entry g).Ok (s.frames g).status := I.account.balanced g
  cases hst : (s.frames g).status <;> simp only [hst, Ledger.Entry.Ok] at hok
  case destroyed =>
    refine ⟨rfl, List.count_pos_iff.mp ?_⟩
    change 0 < (s.ledger.entry g).completed
    omega
  case suspended | final => omega
  all_goals simp [hok] at hpos hrunning

/-! ### What a returned call means -/

/-- While tasks are pending, no `stop()` enters and no `shutdown_contexts` swaps when
another call has joins left to do. -/
def NoOvertaking (s : State) : Action → Prop
  | .call i => (∃ live, .stop (.enter live) ∈ s.calls[i]?) ∨ .shutdown .swap ∈ s.calls[i]? →
      s.pending ≠ 0 → ∀ k ∈ s.calls, k.joining = false
  | _ => True

instance (s : State) (a : Action) : Decidable (NoOvertaking s a) :=
  match a with
  | .call _ => inferInstanceAs (Decidable (_ ∨ _ → _))
  | .callSubmit _ | .callLoop | .callStop | .callSubmitTask _ _ | .callSubmitIo _ _
  | .submission _ | .spuriousLoop _ | .worker _ | .spuriousWorker _ | .body _ _ | .checkDone _ _
  | .pollSubmit _ _ | .complete _ _ _ => inferInstanceAs (Decidable True)

def DrainsFirst (s : State) (a : Action) : Prop := SubmitsBeforeStop s a ∧ NoOvertaking s a

instance (s : State) (a : Action) : Decidable (DrainsFirst s a) :=
  inferInstanceAs (Decidable (_ ∧ _))

/-- Nothing is pending and nothing will be. -/
structure Settled (s : State) : Prop where
  pending : s.pending = 0
  accepting : s.accepting = false

theorem Settled.step (h : Settled s) (I : AccountInv s) (ht : Transition s a t) : Settled t := by
  obtain ⟨hpending, hacc⟩ := h
  have hdone := I.allDone hpending
  have htacc : t.accepting = false := by
    rcases ht.accepting with ⟨hsame, -⟩ | ⟨hfalse, -⟩
    · exact hsame.trans hacc
    · exact hfalse
  refine ⟨?_, htacc⟩
  cases ht with
  | accept _ _ _ htrue => simp [hacc] at htrue
  | @spawn c x h g hx hw =>
    have hle := le_total (Context.places h) hx
    have hpos : 0 < x.places h := by
      simp only [Context.places, hw, WorkerPc.places, if_true]
      omega
    have hnone := hdone.places h
    unfold State.places at hnone
    omega
  | @completed c x h hx hw =>
    have hpos := I.accounted.decrement x (List.mem_of_getElem? hx) h hw
    omega
  | reject | push | notify => exact (State.pending_setSubmission ..).trans hpending
  | _ => exact hpending

theorem Call.closing_of_joining {k : Call} (h : k.joining = true) : k.closing = true := by
  unfold Call.joining at h
  split at h <;> first | rfl | cases h

theorem settled_or_allLeft_of_returned {n : Nat} {live : Bool}
    (h : Run step DrainsFirst (init n) s) (hr : .returned live ∈ s.calls) :
    Settled s ∨ s.AllLeft := by
  have hinv : DrainInv s ∧ (.returned live ∈ s.calls → Settled s ∨ s.AllLeft) := by
    refine h.invariant
      (I := fun s => DrainInv s ∧ (.returned live ∈ s.calls → Settled s ∨ s.AllLeft))
      ⟨.init n, by simp [Runtime.init]⟩ ?_
    intro s a t I hc ht
    have htr := step_transition ht
    refine ⟨I.1.preserved hc.1 htr, fun hr => ?_⟩
    by_cases hset : Settled s
    · exact .inl (hset.step I.1.account htr)
    · refine .inr (I.1.submit.shutdown.returned_step htr (fun i ha hi => ?_)
        (fun hs => (I.2 hs).resolve_left hset) hr)
      subst ha
      by_cases hzero : s.pending = 0
      · have hacc : s.accepting = true := by
          by_contra hfalse
          exact hset ⟨hzero, by simpa using hfalse⟩
        intro k hk
        have hopen := List.filter_eq_nil_iff.mp (I.1.submit.closed.calls hacc) k hk
        exact Bool.eq_false_iff.mpr fun hj => hopen (Call.closing_of_joining hj)
      · exact hc.2 (hi.imp_left fun hstop => ⟨live, hstop⟩) hzero
  exact hinv.2 hr

/-- Nothing is lost when workers leave and calls return. -/
structure DrainedOnReturn (s : State) : Prop where
  left : ∀ x ∈ s.ctxs, x.worker = .left → x.engine.Drained ∧ x.batch = []
  returned : ∀ live, .returned live ∈ s.calls → ∀ h ∈ s.accepted,
    (s.frames h).status = .destroyed ∧ h ∈ s.completed

theorem stop_drains {n : Nat} (h : Run step DrainsFirst (init n) s) : DrainedOnReturn s := by
  have I := DrainInv.of_run (h.mono fun hc => hc.1)
  refine ⟨fun x hx hw => ?_, fun live hr g hg => ?_⟩
  · obtain ⟨c, hc⟩ := List.mem_iff_getElem?.mp hx
    obtain ⟨hqueue, hbatch, hio⟩ := I.left_empty hc hw
    exact ⟨Engine.drained_of_handles hqueue hio, hbatch⟩
  · rcases settled_or_allLeft_of_returned h hr with hset | hall
    · exact (I.account.allDone hset.pending).tasks g hg
    · exact I.all_destroyed hall hg

/-- A task that spawns another one and waits for I/O after the stop was requested. -/
theorem stop_drains_spawned :
    ∃ s, Run step DrainsFirst (init 1) s ∧ DrainedOnReturn s ∧
      s.calls[1]? = some (.returned true) ∧ s.accepted = [1, 2] := by
  obtain ⟨s, hs, hr, hacc⟩ := exists_run step DrainsFirst (init 1)
    [.callSubmit 1, .submission (.call 0), .submission (.call 0), .submission (.call 0),
      .callStop, .call 1, .call 1, .call 1, .call 1, .call 1, .call 1, .worker 0, .worker 0,
      .body 0 (.submitToScheduler 2), .submission (.worker 0), .submission (.worker 0),
      .body 0 (.suspendIo (.waiting 1)), .checkDone 0 false, .worker 0, .worker 0, .worker 0,
      .body 0 .finish, .checkDone 0 true, .worker 0, .worker 0, .worker 0, .worker 0,
      .pollSubmit 0 [], .worker 0, .worker 0, .worker 0, .body 0 .finish, .checkDone 0 true,
      .worker 0, .worker 0, .worker 0, .worker 0, .worker 0, .pollSubmit 0 [], .worker 0,
      .worker 0, .worker 0, .worker 0, .call 1, .call 1, .call 1, .call 1]
    (fun s => s.calls[1]? = some (.returned true) ∧ s.accepted = [1, 2]) (by decide)
  exact ⟨s, hs, stop_drains hs, hr, hacc⟩

/-- A `loop()` that a `stop()` has woken takes the contexts over first: the `stop()` returns
while the only task has not even been popped. -/
theorem stop_returns_before_draining :
    ¬ ∀ (n : Nat) (s : State), Run step SubmitsBeforeStop (init n) s → DrainedOnReturn s := by
  intro h
  obtain ⟨s, hs, hr, hacc, hst⟩ := exists_run step SubmitsBeforeStop (init 1)
    [.callSubmit 1, .submission (.call 0), .submission (.call 0), .submission (.call 0),
      .callLoop, .call 1, .call 1, .call 1, .callStop, .call 2, .call 2, .call 1, .call 1, .call 1,
      .call 2]
    (fun s => .returned true ∈ s.calls ∧ 1 ∈ s.accepted ∧ (s.frames 1).status = .suspended)
    (by decide)
  have hdone := (h 1 s hs).returned true hr 1 hacc
  simp [hst] at hdone

end TinyCoroutine.Runtime
