import TinyCoroutine.Runtime.Counters
import TinyCoroutine.Runtime.Takeover
import TinyCoroutine.Runtime.Wakeup
import TinyCoroutine.Runtime.LoopWait
import TinyCoroutine.Foundation.Progress

/-!
# What a scheduler keeps for its shutdown

The invariants that a call of `stop()` rests on when it waits for the workers, along every run
in which the library alone uses the contexts and `notify_stop` does not fall between the
predicate of a worker and its block. They are those of the counters, of the sleep of a worker, of
the joins and of the owners of the contexts, and three more: `state_mutex_` is held by a call
of `loop()` only, a call asks and joins contexts that it has taken over, and the ring has room for
what one poll prepares.
-/
namespace TinyCoroutine.Runtime

open Foundation

variable {s t : State} {a : Action} {c : Nat} {x y : Context} {g : Handle}

/-! ### A poll that has room -/

namespace Engine

theorem prepareLoop_of_room {n : Nat} {queue : List IoAwaiter} {u : IoUring} {pending : Nat}
    (hroom : u.sq.length + n ≤ u.queueDepth) :
    prepareLoop n queue u pending = .ok (n - queue.length, queue.drop n,
      { u with sq := u.sq ++ queue.take n }, pending + min n queue.length) := by
  induction n generalizing queue u pending with
  | zero => simp [prepareLoop]
  | succ n ih =>
    cases queue with
    | nil => simp [prepareLoop]
    | cons b queue =>
      have hfree : u.sq.length < u.queueDepth := by omega
      simp only [prepareLoop, IoUring.prepare, if_pos hfree]
      rw [ih (by simp; omega)]
      simp [Nat.add_min_add_right]
      omega

theorem submitLoop_all (u : IoUring) (pending progressed : Nat) :
    submitLoop (if pending = 0 then [] else [(pending : Int)]) u pending progressed =
      .ok (u.submit pending, progressed + pending) := by
  cases pending with
  | zero => simp [submitLoop, IoUring.submit]
  | succ pending =>
    have hpos : ¬ ((pending : Int) + 1 ≤ 0) := by omega
    have hnat : ((pending : Int) + 1).toNat = pending + 1 := by omega
    simp [submitLoop, hpos, hnat]

/-- A poll of an engine that has room: everything it may take is taken and submitted at once. -/
theorem exists_pollSubmit {e : Engine} {n : Nat} (hs : e.Submitted) (hn : n ≤ e.uring.queueDepth) :
    ∃ rets, e.pollSubmit n rets = .ok
      ({ e with
          taskQueue := e.taskQueue ++ e.ioWaitingQueue.take n
          ioWaitingQueue := e.ioWaitingQueue.drop n
          ioReadSubmitQueue := e.ioReadSubmitQueue.drop n
          ioWriteSubmitQueue := e.ioWriteSubmitQueue.drop (n - e.ioReadSubmitQueue.length)
          inflightIo := (fetchSub · 1)^[min n e.ioWaitingQueue.length] e.inflightIo
          pendingSubmitCount := 0
          uring := { e.uring with
            sq := []
            kernel := e.uring.kernel ++ (e.ioReadSubmitQueue.take n ++
              e.ioWriteSubmitQueue.take (n - e.ioReadSubmitQueue.length)) } },
        min n e.ioWaitingQueue.length + (min n e.ioReadSubmitQueue.length +
          min (n - e.ioReadSubmitQueue.length) e.ioWriteSubmitQueue.length)) := by
  obtain ⟨hcount, hsq⟩ := hs
  refine ⟨if min n e.ioReadSubmitQueue.length +
    min (n - e.ioReadSubmitQueue.length) e.ioWriteSubmitQueue.length = 0 then []
    else [((min n e.ioReadSubmitQueue.length +
      min (n - e.ioReadSubmitQueue.length) e.ioWriteSubmitQueue.length : Nat) : Int)], ?_⟩
  simp only [pollSubmit, drainWaiting_eq, hcount]
  rw [prepareLoop_of_room (by simpa [hsq] using hn)]
  simp only [bind, Except.bind]
  rw [prepareLoop_of_room (by simp [hsq]; omega)]
  simp only [Nat.zero_add]
  rw [submitLoop_all]
  simp [pure, Except.pure, IoUring.submit, hsq, List.take_of_length_le, List.drop_eq_nil_of_le]

theorem queueDepth_reapOne {e e' : Engine} (h : e.reapOne = some e') :
    e'.uring.queueDepth = e.uring.queueDepth := by
  unfold reapOne at h
  split at h
  · cases h
  · cases h
    rfl

theorem queueDepth_pollSubmit {e e' : Engine} {n progressed : Nat} {rets : List Int}
    (h : e.pollSubmit n rets = .ok (e', progressed)) :
    e'.uring.queueDepth = e.uring.queueDepth := by
  simp only [pollSubmit, drainWaiting_eq] at h
  obtain ⟨⟨room, reads, u, pending⟩, hreads, h⟩ := bind_eq_ok.mp h
  obtain ⟨⟨room', writes, v, pending'⟩, hwrites, h⟩ := bind_eq_ok.mp h
  obtain ⟨⟨w, progressed'⟩, hsubmit, h⟩ := bind_eq_ok.mp h
  obtain ⟨movedReads, -, rfl, -⟩ := prepareLoop_ok hreads
  obtain ⟨movedWrites, -, rfl, -⟩ := prepareLoop_ok hwrites
  obtain ⟨rfl, -⟩ := submitLoop_ok hsubmit
  cases h
  rfl

end Engine

/-! ### The runs -/

/-- The library alone uses the contexts, and a stop is not announced to a worker that is about to
block. -/
def Unhindered (s : State) (a : Action) : Prop :=
  a.direct = false ∧ StopNotifiesOutsideWindow s a

instance (s : State) (a : Action) : Decidable (Unhindered s a) :=
  inferInstanceAs (Decidable (_ ∧ _))

/-- The call holds `state_mutex_` between two steps. -/
def Call.locks : Call → Bool
  | .loop .evaluate => true
  | .loop .block => true
  | _ => false

/-- The contexts that the current loop of the call has not reached yet. -/
def Call.todo : Call → List Nat
  | .shutdown (.requestStop todo _) => todo
  | .shutdown (.notifyStop c todo _) => c :: todo
  | .shutdown (.join todo _) => todo
  | _ => []

theorem ContextUpdate.queueDepth (h : ContextUpdate s a c x y) :
    y.engine.uring.queueDepth = x.engine.uring.queueDepth := by
  cases h with
  | setSubmission | notified | push | beginIo | requestStop | destroy | move => rfl
  | @pushIo _ _ r => cases r <;> rfl
  | work _ _ hm =>
    cases hm with
    | suspend hsus => exact congrArg IoUring.queueDepth hsus.counters.2.2
    | _ => rfl
  | reap _ _ hreap => exact Engine.queueDepth_reapOne hreap
  | pollSubmit _ _ hpoll => exact Engine.queueDepth_pollSubmit hpoll
  | complete _ hring =>
    obtain ⟨b, -, rfl⟩ := Option.map_eq_some_iff.mp hring
    rfl

structure Windable (s : State) : Prop where
  counters : CountersExact s
  wake : WakeInv s
  shutdown : ShutdownInv s
  takeover : Takeover s
  depth : s.Each fun _ x => kIoPollBatchSize ≤ x.engine.uring.queueDepth
  within : ∀ k ∈ s.calls, ∀ c ∈ k.todo, c ∈ k.holds
  lock : s.stateLocked = true → ∃ k ∈ s.calls, k.locks = true
  range : ∀ w c g, s.submission w = some (.push c g) → c < s.ctxs.length

theorem Windable.init (n : Nat) : Windable (init n) where
  counters := .init n
  wake := .init n
  shutdown := .init n
  takeover := Takeover.constructed.init (n := n)
    (by simp [initStep, EpochState.constructed, Runtime.init])
  depth := .init fun _ => by decide
  within k hk := by cases hk
  lock h := by cases h
  range w c g h := by
    have hnone : (Runtime.init n).Each fun _ x => x.worker.submission = none := .init fun _ => rfl
    cases w with
    | call i => simp [State.submission, Runtime.init] at h
    | worker d =>
      obtain ⟨x, hx, hp⟩ := Option.bind_eq_some_iff.mp h
      rw [hnone d x hx] at hp
      cases hp

theorem Windable.lock_step (I : Windable s) (h : Transition s a t) (ht : t.stateLocked = true) :
    ∃ k ∈ t.calls, k.locks = true := by
  have same (hs : s.stateLocked = true)
      (hf : t.calls.filter Call.locks = s.calls.filter Call.locks) :
      ∃ k ∈ t.calls, k.locks = true := by
    obtain ⟨k, hk, hlocks⟩ := I.lock hs
    have hmem : k ∈ t.calls.filter Call.locks := by
      rw [hf]
      exact List.mem_filter.mpr ⟨hk, hlocks⟩
    exact ⟨k, (List.mem_filter.mp hmem).1, hlocks⟩
  cases h with
  | callSubmit | callLoop | callStop | callSubmitTask | callSubmitIo =>
    exact same ht (filter_addCall rfl)
  | reject hp | accept hp | push hp | notify hp =>
    refine same (by simpa [State.refuse, State.accept, State.modifyCtx,
      State.notifyWorker] using ht) ?_
    apply filter_setSubmission
    · exact hp
    · exact fun _ => rfl
    · rfl
  | loopLock hi => exact ⟨_, List.mem_set (List.getElem?_eq_some_iff.mp hi).1 _, rfl⟩
  | loopPass | loopBlock => cases ht
  | moveCall hi hm =>
    cases hm with
    | loopWait => exact ⟨_, List.mem_set (List.getElem?_eq_some_iff.mp hi).1 _, rfl⟩
    | _ => exact same ht (filter_setCall hi rfl rfl)
  | pushIo hi | stopRequest hi | swap hi | requestStop hi | notifyStop hi | destroyContext hi =>
    exact same ht (filter_setCall hi rfl rfl)
  | stopNotify hi =>
    exact same ht ((filter_notifyLoops rfl rfl).trans (filter_setCall hi rfl rfl))
  | notifyCompletion => exact same ht (filter_notifyLoops rfl rfl)
  | moveWorker | popBatch | resume | destroyFrame | completed | reap | suspend | bodySubmit | spawn
  | wake | checkDone | pollSubmit | complete => exact same ht rfl

theorem Windable.range_step (I : Windable s) (ha : a.direct = false) (h : Transition s a t)
    (w : Submitter) (hp : t.submission w = some (.push c g)) : c < t.ctxs.length := by
  rw [h.length_ctxs]
  rcases h.submission_origin I.counters.regular ha hp with hp | horigin
  · exact I.range w c g hp
  · cases horigin with
    | accept _ _ hinit hc =>
      have hcontexts := I.shutdown.contexts hinit
      rw [hcontexts] at hc
      exact List.mem_range.mp hc
    | body hx => exact (List.getElem?_eq_some_iff.mp hx).1

theorem Windable.within_step (I : Windable s) (h : Transition s a t) :
    ∀ k ∈ t.calls, ∀ c ∈ k.todo, c ∈ k.holds := by
  refine h.eachCall (fun k hk => ?_) (fun k k' hu hk => ?_) I.within
  · unfold Call.todo
    split <;> simp_all [Call.starting]
  · cases hu with
    | submit p' => cases p' <;> simp [Call.ofSubmission, Call.todo]
    | move hm => cases hm <;> simp_all [Call.todo, Call.holds]
    | _ => simp_all [Call.todo, Call.holds]

theorem Windable.preserved (I : Windable s) (hc : Unhindered s a) (h : Transition s a t) :
    Windable t where
  counters := I.counters.preserved hc.1 h
  wake := I.wake.preserved hc.2 h
  shutdown := I.shutdown.preserved h
  takeover := I.takeover.preserved h
  depth := h.each (fun _ _ _ hu hd => hu.queueDepth ▸ hd) I.depth
  within := I.within_step h
  lock := I.lock_step h
  range _ _ _ hp := I.range_step hc.1 h _ hp

theorem Windable.of_run {n : Nat} (h : Run step Unhindered (Runtime.init n) s) : Windable s :=
  h.invariant (.init n) fun I hc ht => I.preserved hc (step_transition ht)

end TinyCoroutine.Runtime
