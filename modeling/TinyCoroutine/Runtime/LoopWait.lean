import TinyCoroutine.Runtime.Unchanged
import TinyCoroutine.Foundation.Run
import TinyCoroutine.Foundation.Sums

/-!
# Waiting for the last completion

`loop()` evaluates its predicate under `state_mutex_` and blocks on `completion_cv_`
with the mutex released. `stop()` changes the predicate under the same mutex, but
`on_task_completed` decrements `pending_tasks_` and notifies without it. A
notification that falls between the evaluation and the block is lost. And a handle that
was pushed past the scheduler is counted off without having been counted: below zero the
counter wraps, and the next acceptance takes it back to zero, where nobody notifies.
`loop_misses_last_completion` has a run for each. When no worker notifies inside that
window and no acceptance wraps the counter (`NotifiesInTime`), a blocked `loop()` whose
predicate holds always has a notification ahead of it.
-/
namespace TinyCoroutine.Runtime

open Foundation

variable {s t : State} {a : Action}

/-- The predicate of `loop()`. -/
def State.loopDone (s : State) : Bool := s.stopRequested || s.pending == 0

/-- Some thread is about to execute `completion_cv_.notify_all()`. -/
def State.Notifying (s : State) : Prop :=
  (∃ x ∈ s.ctxs, x.worker = .notifyCompletion) ∨ .stop .notifyAll ∈ s.calls

instance (s : State) : Decidable s.Notifying := inferInstanceAs (Decidable (_ ∨ _))

/-- No worker notifies `completion_cv_` while a `loop()` is between its predicate and
its block. -/
def NotifiesOutsideWindow (s : State) : Action → Prop
  | .worker c =>
    (s.ctxs[c]?).any (fun x => x.worker = .notifyCompletion) = true → .loop .block ∉ s.calls
  | _ => True

instance (s : State) (a : Action) : Decidable (NotifiesOutsideWindow s a) := by
  unfold NotifiesOutsideWindow
  split <;> infer_instance

def SubmitPc.deciding : SubmitPc → Bool
  | .stateLock _ => true
  | _ => false

/-- The action executes the `fetch_add` on `pending_tasks_`. -/
def State.counting (s : State) : Action → Bool
  | .submission who => s.initialized && s.accepting && (s.submission who).any SubmitPc.deciding
  | .body _ (.submitToScheduler _) => true
  | _ => false

/-- Notifications stay outside of the window, and the counter has room for what it counts. -/
def NotifiesInTime (s : State) (a : Action) : Prop :=
  NotifiesOutsideWindow s a ∧ (s.counting a = true → s.pending + 1 < 2 ^ 64)

instance (s : State) (a : Action) : Decidable (NotifiesInTime s a) :=
  inferInstanceAs (Decidable (_ ∧ _))

/-- The calls that hold `state_mutex_` between two steps. -/
def Call.lockWeight : Call → Nat
  | .loop .evaluate => 1
  | .loop .block => 1
  | _ => 0

/-- The calls the wait of `loop()` is about. -/
def Call.waits : Call → Bool
  | .loop .evaluate => true
  | .loop .block => true
  | .loop .blocked => true
  | .stop .notifyAll => true
  | _ => false

structure LoopInv (s : State) : Prop where
  lock : total Call.lockWeight s.calls = s.stateLocked.toNat
  window : .loop .block ∈ s.calls →
    s.stopRequested = false ∧ (s.pending = 0 → ∃ c, s.workerIs c .notifyCompletion)
  blocked : .loop .blocked ∈ s.calls → s.loopDone = true →
    (∃ c, s.workerIs c .notifyCompletion) ∨ .stop .notifyAll ∈ s.calls

theorem LoopInv.init (n : Nat) : LoopInv (init n) where
  lock := by simp [Runtime.init]
  window h := by simp [Runtime.init] at h
  blocked h := by simp [Runtime.init] at h

theorem LoopInv.not_block (I : LoopInv s) (h : s.stateLocked = false) : .loop .block ∉ s.calls := by
  intro hmem
  have hzero := (total_eq_zero _ _).mp (I.lock.trans (by simp [h])) _ hmem
  simp [Call.lockWeight] at hzero

theorem LoopInv.locked {i : Nat} {k : Call} (I : LoopInv s) (hi : s.calls[i]? = some k)
    (hk : k.lockWeight = 1) : s.stateLocked = true := by
  have hle := le_total Call.lockWeight hi
  rw [I.lock, hk] at hle
  cases hs : s.stateLocked <;> simp_all

/-- A step that leaves the waiting calls, the lock and the pending notifications alone. -/
theorem LoopInv.frame (I : LoopInv s)
    (hcalls : t.calls.filter Call.waits = s.calls.filter Call.waits)
    (hlock : t.stateLocked = s.stateLocked) (hstop : t.stopRequested = s.stopRequested)
    (hpending : t.pending = 0 → s.pending = 0)
    (hnotify : ∀ c, s.workerIs c .notifyCompletion → t.workerIs c .notifyCompletion) :
    LoopInv t := by
  have hmem : ∀ k, k.waits = true → (k ∈ t.calls ↔ k ∈ s.calls) := by
    intro k hk
    have := congrArg (k ∈ ·) hcalls
    simpa [hk] using this
  have hweight : ∀ k, Call.waits k = false → k.lockWeight = 0 := by
    intro k hk
    unfold Call.lockWeight
    split <;> simp_all [Call.waits]
  refine ⟨?_, fun hb => ?_, fun hb hdone => ?_⟩
  · rw [← total_filter _ _ hweight, hcalls, total_filter _ _ hweight, hlock]
    exact I.lock
  · obtain ⟨hfalse, hzero⟩ := I.window ((hmem _ rfl).mp hb)
    refine ⟨hstop.trans hfalse, fun hp => ?_⟩
    obtain ⟨c, hc⟩ := hzero (hpending hp)
    exact ⟨c, hnotify c hc⟩
  · have hdone' : s.loopDone = true := by
      simp only [State.loopDone, Bool.or_eq_true, beq_iff_eq, hstop] at hdone ⊢
      exact hdone.imp_right hpending
    rcases I.blocked ((hmem _ rfl).mp hb) hdone' with ⟨c, hc⟩ | hn
    · exact .inl ⟨c, hnotify c hc⟩
    · exact .inr ((hmem _ rfl).mpr hn)

/-- A step of a worker that is not about to notify. -/
theorem LoopInv.setCtx {c : Nat} {x y : Context} (I : LoopInv s) (hx : s.ctxs[c]? = some x)
    (hw : x.worker = .notifyCompletion → y.worker = .notifyCompletion) (u : State)
    (hctxs : u.ctxs = s.ctxs) (hcalls : u.calls = s.calls) (hlock : u.stateLocked = s.stateLocked)
    (hstop : u.stopRequested = s.stopRequested) (hpending : u.pending = 0 → s.pending = 0) :
    LoopInv (u.setCtx c y) := by
  refine I.frame (by rw [State.setCtx, hcalls]) hlock hstop hpending fun d hd => ?_
  refine .setCtx (by rwa [hctxs]) hw ?_
  simpa only [State.workerIs, hctxs] using hd

/-- A step of a submission. -/
theorem LoopInv.setSubmission {who : Submitter} {p : SubmitPc} {p' : Option SubmitPc}
    (I : LoopInv s) (hp : s.submission who = some p) : LoopInv (s.setSubmission p' who) :=
  I.frame (filter_setSubmission hp (fun _ => rfl) rfl) (by simp) (by simp) (by simp)
    fun _ hd => .setSubmission rfl hd

theorem LoopInv.modifyCtx {c : Nat} {f : Context → Context} (I : LoopInv s)
    (hf : ∀ x, x.worker = .notifyCompletion → (f x).worker = .notifyCompletion) :
    LoopInv (s.modifyCtx c f) :=
  I.frame rfl rfl rfl id fun _ hd => .modifyCtx hf hd

theorem LoopInv.notifyWorker {c : Nat} (I : LoopInv s) : LoopInv (s.notifyWorker c) :=
  I.modifyCtx fun x hx => by simp [hx, WorkerPc.notified]

theorem LoopInv.setCall {i : Nat} {k k' : Call} (I : LoopInv s) (hi : s.calls[i]? = some k)
    (hk : k.waits = false) (hk' : k'.waits = false) : LoopInv (s.setCall i k') :=
  I.frame (filter_setCall hi hk hk') rfl rfl id fun _ hd => hd

/-- A step of `loop()` itself: the lock moves with the weight of its place. -/
theorem LoopInv.setLoop {i : Nat} {p : LoopPc} {k : Call} (I : LoopInv s)
    (hi : s.calls[i]? = some (.loop p)) (u : State)
    (hcalls : u.calls = (s.setCall i k).calls) (hctxs : u.ctxs = s.ctxs)
    (hstop : u.stopRequested = s.stopRequested) (hpending : u.pending = s.pending)
    (hlock : u.stateLocked.toNat + (Call.loop p).lockWeight = s.stateLocked.toNat + k.lockWeight)
    (hwindow : k = .loop .block → s.stopRequested = false ∧ s.pending ≠ 0)
    (hblocked : k = .loop .blocked → p = .block) : LoopInv u := by
  have hworker : ∀ c pc, u.workerIs c pc = s.workerIs c pc := fun c pc => by
    simp only [State.workerIs, hctxs]
  refine ⟨?_, fun hb => ?_, fun hb hdone => ?_⟩
  · have hset := total_set Call.lockWeight k hi
    have hold := I.lock
    rw [hcalls]
    change total Call.lockWeight (s.calls.set i k) = _
    omega
  · rw [hstop, hpending]
    simp only [hworker]
    rw [hcalls] at hb
    rcases List.mem_or_eq_of_mem_set hb with hb | hb
    · exact I.window hb
    · obtain ⟨hfalse, hne⟩ := hwindow hb.symm
      exact ⟨hfalse, fun hzero => absurd hzero hne⟩
  · simp only [hworker]
    simp only [State.loopDone, hstop, hpending] at hdone
    rw [hcalls] at hb ⊢
    have hold : (∃ c, s.workerIs c .notifyCompletion) ∨ .stop .notifyAll ∈ s.calls := by
      rcases List.mem_or_eq_of_mem_set hb with hb | hb
      · exact I.blocked hb hdone
      · have hp := hblocked hb.symm
        subst hp
        obtain ⟨hfalse, hzero⟩ := I.window (List.mem_of_getElem? hi)
        exact .inl (hzero (by simpa [hfalse] using hdone))
    exact hold.imp_right fun hn => mem_setCall_of_ne hi hn (by simp)

theorem LoopInv.moveCall {i : Nat} {k k' : Call} (I : LoopInv s) (hi : s.calls[i]? = some k)
    (hm : CallMove s i a k k') : LoopInv (s.setCall i k') := by
  cases hm with
  | loopThrow | stopSkip | swapSkip | requestDone | join | joinDone | destroyDone =>
    exact I.setCall hi rfl rfl
  | loopWait hstop hpending =>
    exact I.setLoop hi _ rfl rfl rfl rfl rfl (fun _ => ⟨hstop, hpending⟩) (by simp)
  | loopSpurious => exact I.setLoop hi _ rfl rfl rfl rfl rfl (by simp) (by simp)

theorem notified_ne_blocked (k : Call) : k.notified ≠ .loop .blocked := by
  unfold Call.notified
  split
  · simp
  · rename_i hk
    exact fun h => hk (by rw [h])

/-- A notification empties the set of blocked calls; only the window can miss it. -/
theorem LoopInv.notifyLoops (hlock : total Call.lockWeight s.calls = s.stateLocked.toNat)
    (hwindow : .loop .block ∈ s.calls →
      s.stopRequested = false ∧ (s.pending = 0 → ∃ c, s.workerIs c .notifyCompletion)) :
    LoopInv s.notifyLoops where
  lock := by
    rw [State.notifyLoops, total, List.map_map]
    have : Call.lockWeight ∘ Call.notified = Call.lockWeight := by
      funext k
      simp only [Function.comp, Call.notified]
      split <;> rfl
    rw [this]
    exact hlock
  window hb := by
    obtain ⟨k, hk, hkb⟩ := List.mem_map.mp hb
    have : k = .loop .block := by
      unfold Call.notified at hkb
      split at hkb
      · cases hkb
      · exact hkb
    exact hwindow (this ▸ hk)
  blocked hb := by
    obtain ⟨k, -, hkb⟩ := List.mem_map.mp hb
    exact absurd hkb (notified_ne_blocked k)

/-- A counter that does not wrap leaves zero when it is incremented. -/
theorem fetchAdd_ne_zero {n : Nat} (h : n + 1 < 2 ^ 64) : fetchAdd n 1 ≠ 0 := by
  rw [fetchAdd_of_lt h]
  exact Nat.succ_ne_zero n

theorem LoopInv.preserved (I : LoopInv s) (hc : NotifiesInTime s a)
    (h : Transition s a t) : LoopInv t := by
  cases h with
  | callSubmit | callLoop | callStop | callSubmitTask =>
    exact I.frame (filter_addCall rfl) rfl rfl id fun _ hd => hd
  | callSubmitIo =>
    refine LoopInv.modifyCtx ?_ fun _ hx => hx
    exact I.frame (filter_addCall rfl) rfl rfl id fun _ hd => hd
  | reject hp =>
    exact LoopInv.setSubmission (I.frame rfl rfl rfl id fun _ hd => hd) hp
  | accept hp _ hinit hacc =>
    have hroom := hc.2 (by simp [State.counting, hinit, hacc, hp, SubmitPc.deciding])
    refine LoopInv.setSubmission (I.frame rfl rfl rfl ?_ fun _ hd => hd) hp
    exact fun hzero => absurd hzero (fetchAdd_ne_zero hroom)
  | push hp => exact (I.setSubmission hp).modifyCtx fun _ hx => hx
  | notify hp => exact (I.setSubmission hp).notifyWorker
  | pushIo hi => exact (I.setCall hi rfl rfl).modifyCtx fun _ hx => hx
  | moveCall hi hm => exact I.moveCall hi hm
  | loopLock hi hp hlock =>
    refine I.setLoop hi _ rfl rfl rfl rfl ?_ (by simp) (by simp)
    rcases hp with ⟨rfl, -⟩ | rfl <;> simp [hlock, Call.lockWeight]
  | loopPass hi =>
    have hlocked := I.locked hi rfl
    exact I.setLoop hi _ rfl rfl rfl rfl (by simp [hlocked, Call.lockWeight])
      (by simp) (by simp)
  | loopBlock hi =>
    have hlocked := I.locked hi rfl
    exact I.setLoop hi _ rfl rfl rfl rfl (by simp [hlocked, Call.lockWeight])
      (by simp) (by simp)
  | stopRequest hi hlock =>
    have hset := total_set Call.lockWeight (.stop .notifyAll) hi
    have hold := I.lock
    refine ⟨?_, fun hb => ?_, fun _ _ => .inr ?_⟩
    · simpa [Call.lockWeight, hold, State.setCall] using hset
    · rcases List.mem_or_eq_of_mem_set hb with hb | hb
      · exact absurd hb (I.not_block hlock)
      · cases hb
    · exact List.mem_set (List.getElem?_eq_some_iff.mp hi).1 _
  | stopNotify hi =>
    have hset := total_set Call.lockWeight (.shutdown .swap) hi
    have hold := I.lock
    refine LoopInv.notifyLoops ?_ fun hb => ?_
    · simpa [Call.lockWeight, hold, State.setCall] using hset
    · rcases List.mem_or_eq_of_mem_set hb with hb | hb
      · exact I.window hb
      · cases hb
  | swap hi => exact (I.setCall hi rfl rfl).frame rfl rfl rfl id fun _ hd => hd
  | requestStop hi | destroyContext hi => exact (I.setCall hi rfl rfl).modifyCtx fun _ hx => hx
  | notifyStop hi => exact (I.setCall hi rfl rfl).notifyWorker
  | moveWorker hx hw hm => exact I.setCtx hx (by cases hm <;> simp [hw]) s rfl rfl rfl rfl id
  | popBatch hx hw | resume hx hw | destroyFrame hx hw | reap hx hw | suspend hx hw
  | bodySubmit hx hw | wake hx hw | checkDone hx hw | pollSubmit hx hw =>
    exact I.setCtx hx (by simp [hw]) _ rfl rfl rfl rfl id
  | spawn hx hw =>
    refine I.setCtx hx (by simp [hw]) _ rfl rfl rfl rfl ?_
    exact fun hzero => absurd hzero (fetchAdd_ne_zero (hc.2 rfl))
  | complete hx =>
    refine LoopInv.setCtx I hx ?_ s rfl rfl rfl rfl id
    exact fun hw => hw
  | @completed c x g hx hw =>
    by_cases hlast : s.pending = 1
    · have hnotify : (s.setCtx c { x with worker := .notifyCompletion }).workerIs c
          .notifyCompletion :=
        ⟨_, List.getElem?_set_self (List.getElem?_eq_some_iff.mp hx).1, rfl⟩
      rw [if_pos hlast]
      exact ⟨I.lock, fun hb => ⟨(I.window hb).1, fun _ => ⟨c, hnotify⟩⟩,
        fun _ _ => .inl ⟨c, hnotify⟩⟩
    · rw [if_neg hlast]
      refine LoopInv.setCtx I hx (by simp [hw]) _ rfl rfl rfl rfl fun hzero => ?_
      simp only [State.countOff, fetchSub] at hzero
      split at hzero <;> omega
  | @notifyCompletion c x hx hw =>
    have hout : .loop .block ∉ s.calls := hc.1 (by simp [hx, hw])
    exact LoopInv.notifyLoops I.lock fun hb => absurd hb hout

theorem LoopInv.of_run {n : Nat} (h : Run step NotifiesInTime (Runtime.init n) s) :
    LoopInv s :=
  h.invariant (.init n) fun I hc ht => I.preserved hc (step_transition ht)

/-- A `loop()` that is blocked although its predicate holds has a notification ahead. -/
theorem blocked_loop_is_notified {n i : Nat} (h : Run step NotifiesInTime (init n) s)
    (hi : s.calls[i]? = some (.loop .blocked)) (hdone : s.loopDone = true) : s.Notifying :=
  ((LoopInv.of_run h).blocked (List.mem_of_getElem? hi) hdone).imp_left State.exists_workerIs.mp

/-- One task, finished by its worker while `loop()` is blocked. -/
theorem blocked_loop_is_notified_one :
    ∃ s, Run step NotifiesInTime (init 1) s ∧ s.calls[1]? = some (.loop .blocked) ∧
      s.pending = 0 ∧ s.Notifying := by
  obtain ⟨s, hs, hi, hzero⟩ := exists_run step NotifiesInTime (init 1)
    [.callSubmit 7, .submission (.call 0), .submission (.call 0), .submission (.call 0),
      .callLoop, .call 1, .call 1, .call 1, .worker 0, .worker 0, .body 0 .finish,
      .checkDone 0 true, .worker 0, .worker 0]
    (fun s => s.calls[1]? = some (.loop .blocked) ∧ s.pending = 0) (by decide)
  exact ⟨s, hs, hi, hzero, blocked_loop_is_notified hs hi (by simp [State.loopDone, hzero])⟩

/-- The worker decrements and notifies after `loop()` has evaluated its predicate and
before it blocks: nothing is left to wake it. And where every notification comes in time, task
7, which nobody counted, is counted off and task 8 takes the counter back to zero under a
blocked `loop()`. -/
theorem loop_misses_last_completion :
    (¬ ∀ (n i : Nat) (s : State), Run step Always (init n) s →
      s.calls[i]? = some (.loop .blocked) → s.loopDone = true → s.Notifying) ∧
    ¬ ∀ (n i : Nat) (s : State), Run step NotifiesOutsideWindow (init n) s →
      s.calls[i]? = some (.loop .blocked) → s.loopDone = true → s.Notifying := by
  constructor
  · intro h
    obtain ⟨s, hs, hi, hdone, hnone⟩ := exists_run step Always (init 1)
      [.callSubmit 7, .submission (.call 0), .submission (.call 0), .submission (.call 0),
        .worker 0, .worker 0, .body 0 .finish, .checkDone 0 true, .worker 0,
        .callLoop, .call 1, .call 1, .worker 0, .worker 0, .call 1]
      (fun s => s.calls[1]? = some (.loop .blocked) ∧ s.loopDone = true ∧ ¬ s.Notifying)
      (by decide)
    exact hnone (h 1 1 s hs hi hdone)
  · intro h
    obtain ⟨s, hs, hi, hdone, hnone⟩ := exists_run step NotifiesOutsideWindow (init 1)
      [.callSubmitTask 0 7, .submission (.call 0), .submission (.call 0), .worker 0, .worker 0,
        .body 0 .finish, .checkDone 0 true, .worker 0, .worker 0,
        .callLoop, .call 1, .call 1, .call 1, .callSubmit 8, .submission (.call 2)]
      (fun s => s.calls[1]? = some (.loop .blocked) ∧ s.loopDone = true ∧ ¬ s.Notifying)
      (by decide)
    exact hnone (h 1 1 s hs hi hdone)

end TinyCoroutine.Runtime
