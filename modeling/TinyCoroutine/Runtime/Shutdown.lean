import TinyCoroutine.Runtime.Unchanged
import TinyCoroutine.Foundation.Run

/-!
# Joining the workers

`loop()` and `stop()` both end in `shutdown_contexts`. Only the call that swaps
`contexts_` out joins the workers; a call that arrives later finds `initialized_`
cleared and returns at once, whether or not the joins are over. A call therefore
returns after all workers have left when no such late section runs during the joins
of another call (`JoinsFirst`); `stop_overtakes_joins` is a run of two calls where one
does.
-/
namespace TinyCoroutine.Runtime

open Foundation

variable {s t : State} {a : Action}

/-! ### Workers that have left -/

theorem Transition.length_ctxs (h : Transition s a t) : t.ctxs.length = s.ctxs.length := by
  cases h <;>
    simp [State.setCtx, State.modifyCtx, State.addCall, State.setCall, State.setStatus,
      State.create, State.refuse, State.accept, State.countOff, State.notifyLoops,
      State.notifyWorker, State.destroyFrame]
  all_goals
    rename Submitter => who
    cases who <;> simp [State.setSubmission, State.setCall, State.modifyCtx]

theorem State.hasLeft_iff {c : Nat} : s.hasLeft c = true ↔ s.workerIs c .left := by
  unfold State.hasLeft State.workerIs
  cases s.ctxs[c]? <;> simp

/-- A worker that has left `Context::run` stays there. -/
theorem ContextUpdate.left {c : Nat} {x y : Context} (h : ContextUpdate s a c x y)
    (hx : x.worker = .left) : y.worker = .left := by
  cases h with
  | setSubmission | notified =>
    rw [hx]
    rfl
  | push | beginIo | pushIo | requestStop | destroy | complete => exact hx
  | move _ hpc hm | work _ hpc hm =>
    rw [hx] at hpc
    subst hpc
    cases hm
  | reap _ hpc | pollSubmit _ hpc =>
    rw [hx] at hpc
    cases hpc

theorem Transition.hasLeft {c : Nat} (h : Transition s a t) (hl : s.hasLeft c = true) :
    t.hasLeft c = true := by
  rw [State.hasLeft_iff] at hl ⊢
  obtain ⟨x, hx, hw⟩ := hl
  have hb : s.Each fun d y => d = c → y.worker = .left := by
    rintro d y hy rfl
    rw [hx] at hy
    exact Option.some.inj hy ▸ hw
  have hlt : c < t.ctxs.length := h.length_ctxs ▸ (List.getElem?_eq_some_iff.mp hx).1
  have ht : t.Each fun d y => d = c → y.worker = .left :=
    h.each (fun _ _ _ hu hy hd => hu.left (hy hd)) hb
  exact ⟨_, List.getElem?_eq_getElem hlt, ht c _ (List.getElem?_eq_getElem hlt) rfl⟩

/-- Every worker has left `Context::run`. -/
def State.AllLeft (s : State) : Prop := ∀ x ∈ s.ctxs, x.worker = .left

instance (s : State) : Decidable s.AllLeft := inferInstanceAs (Decidable (∀ x ∈ s.ctxs, _))

theorem State.allLeft_iff : s.AllLeft ↔ ∀ c < s.ctxs.length, s.hasLeft c = true := by
  constructor
  · intro h c hc
    exact hasLeft_iff.mpr ⟨s.ctxs[c], List.getElem?_eq_getElem hc, h _ (List.getElem_mem hc)⟩
  · intro h x hx
    obtain ⟨c, hc, rfl⟩ := List.mem_iff_getElem.mp hx
    obtain ⟨x, hx, hw⟩ := hasLeft_iff.mp (h c hc)
    grind

theorem Transition.allLeft (h : Transition s a t) (hl : s.AllLeft) : t.AllLeft := by
  rw [State.allLeft_iff] at hl ⊢
  intro c hc
  exact h.hasLeft (hl c (h.length_ctxs ▸ hc))

/-! ### The calls that shut down -/

/-- The call has taken over the contexts and has joins left to do. -/
def Call.joining : Call → Bool
  | .shutdown (.requestStop _ _) => true
  | .shutdown (.notifyStop _ _ _) => true
  | .shutdown (.join todo _) => !todo.isEmpty
  | _ => false

/-- The next section of the call returns at once when `initialized_` is cleared. -/
def Call.mayReturn : Call → Bool
  | .stop (.enter live) => live
  | .shutdown .swap => true
  | _ => false

/-- No call that may return at once runs its section while another one is joining. -/
def JoinsFirst (s : State) : Action → Prop
  | .call i => (s.calls[i]?).any Call.mayReturn = true → ∀ k ∈ s.calls, k.joining = false
  | _ => True

instance (s : State) (a : Action) : Decidable (JoinsFirst s a) := by
  unfold JoinsFirst
  split <;> infer_instance

/-- What the place of a call says about the workers. -/
def Call.Joined (s : State) : Call → Prop
  | .shutdown (.requestStop _ cs) => cs = List.range s.ctxs.length
  | .shutdown (.notifyStop _ _ cs) => cs = List.range s.ctxs.length
  | .shutdown (.join todo cs) =>
    cs = List.range s.ctxs.length ∧ ∀ c < s.ctxs.length, c ∈ todo ∨ s.hasLeft c = true
  | .shutdown (.destroy _) => s.AllLeft
  | _ => True

structure ShutdownInv (s : State) : Prop where
  contexts : s.initialized = true → s.contexts = List.range s.ctxs.length
  joining : s.initialized = false → (∃ k ∈ s.calls, k.joining = true) ∨ s.AllLeft
  joined : ∀ k ∈ s.calls, k.Joined s

theorem Call.Joined.step {k : Call} (h : k.Joined s) (ht : Transition s a t) : k.Joined t := by
  have hlen := ht.length_ctxs
  have hall := ht.allLeft
  have hleft := fun c => ht.hasLeft (c := c)
  unfold Call.Joined at h ⊢
  split <;> grind

theorem ShutdownInv.init (n : Nat) : ShutdownInv (init n) where
  contexts _ := by simp [Runtime.init]
  joining h := by simp [Runtime.init] at h
  joined k hk := by simp [Runtime.init] at hk

/-- The calls of `t` meet what their places say, given that those of `s` did, and no
call has stopped joining. -/
structure CallsKept (s t : State) : Prop where
  joining : ∀ k ∈ s.calls, k.joining = true → (∃ k' ∈ t.calls, k'.joining = true) ∨ t.AllLeft
  joined : ∀ k ∈ t.calls, k ∈ s.calls ∨ k.Joined t

theorem CallsKept.of_eq (h : t.calls = s.calls) : CallsKept s t where
  joining k hk hj := .inl ⟨k, h ▸ hk, hj⟩
  joined _ hk := .inl (h ▸ hk)

theorem CallsKept.of_append {k : Call} (h : t.calls = s.calls ++ [k]) (hk : k.Joined t) :
    CallsKept s t where
  joining k' hk' hj := .inl ⟨k', by simp [h, hk'], hj⟩
  joined k' hk' := by
    rw [h, List.mem_append, List.mem_singleton] at hk'
    rcases hk' with hk' | rfl
    · exact .inl hk'
    · exact .inr hk

theorem CallsKept.of_set {i : Nat} {k k' : Call} (hi : s.calls[i]? = some k)
    (h : t.calls = s.calls.set i k') (hk : k'.Joined t)
    (hj : k.joining = true → k'.joining = true ∨ t.AllLeft) : CallsKept s t where
  joining l hl hlj := by
    obtain ⟨j, hlt, rfl⟩ := List.mem_iff_getElem.mp hl
    by_cases hij : i = j
    · subst hij
      have hkj : k.joining = true := by grind
      exact (hj hkj).imp_left fun hk'j => ⟨k', h ▸ List.mem_set hlt k', hk'j⟩
    · refine .inl ⟨s.calls[j], ?_, hlj⟩
      rw [h, List.mem_iff_getElem?]
      exact ⟨j, by rw [List.getElem?_set_ne hij, List.getElem?_eq_getElem hlt]⟩
  joined l hl := by
    rw [h] at hl
    rcases List.mem_or_eq_of_mem_set hl with hl | rfl
    · exact .inl hl
    · exact .inr hk

theorem CallsKept.of_submission {who : Submitter} {p : SubmitPc} {p' : Option SubmitPc}
    (hp : s.submission who = some p) (u : State) (hu : u.calls = s.calls)
    (h : t.calls = (u.setSubmission p' who).calls) : CallsKept s t := by
  cases who with
  | worker c => exact .of_eq (h.trans hu)
  | call i =>
    obtain ⟨k, hi, hk⟩ := Option.bind_eq_some_iff.mp hp
    rw [State.setSubmission, State.setCall, hu] at h
    refine .of_set hi h ?_ ?_
    · cases p' <;> trivial
    · cases k <;> simp_all [Call.submission, Call.joining]

theorem CallsKept.notifyLoops (h : CallsKept s t) : CallsKept s t.notifyLoops where
  joining k hk hj := by
    refine (h.joining k hk hj).imp_left ?_
    rintro ⟨k', hk', hj'⟩
    refine ⟨k'.notified, List.mem_map_of_mem hk', ?_⟩
    unfold Call.notified
    split <;> exact hj'
  joined k hk := by
    obtain ⟨k', hk', rfl⟩ := List.mem_map.mp hk
    unfold Call.notified
    split
    · exact .inr trivial
    · exact h.joined k' hk'

theorem ShutdownInv.of_callsKept (I : ShutdownInv s) (h : Transition s a t)
    (hcontexts : t.contexts = s.contexts) (hinit : t.initialized = s.initialized)
    (hcalls : CallsKept s t) : ShutdownInv t where
  contexts hi := by
    rw [hcontexts, h.length_ctxs]
    exact I.contexts (hinit ▸ hi)
  joining hi := by
    rcases I.joining (hinit ▸ hi) with ⟨k, hk, hj⟩ | hall
    · exact hcalls.joining k hk hj
    · exact .inr (h.allLeft hall)
  joined k hk := by
    rcases hcalls.joined k hk with hk | hk
    · exact (I.joined k hk).step h
    · exact hk

theorem ShutdownInv.moveCall {i : Nat} {k k' : Call} (I : ShutdownInv s)
    (hi : s.calls[i]? = some k) (hm : CallMove s i a k k') : ShutdownInv (s.setCall i k') := by
  have hk := I.joined k (List.mem_of_getElem? hi)
  have htr : Transition s a (s.setCall i k') := .moveCall hi hm
  have kept := fun hk' hj => I.of_callsKept htr rfl rfl (.of_set hi rfl hk' hj)
  cases hm with
  | loopThrow | loopWait | loopSpurious | stopSkip | swapSkip | destroyDone =>
    exact kept trivial (by simp [Call.joining])
  | @requestDone cs =>
    refine kept ⟨hk, fun c hc => .inl ?_⟩ fun _ => ?_
    · rw [show cs = List.range s.ctxs.length from hk]
      exact List.mem_range.mpr hc
    · cases cs with
      | nil =>
        refine .inr fun x hx => ?_
        have hempty : s.ctxs = [] := by simpa [Call.Joined] using hk
        simp [State.setCall, hempty] at hx
      | cons => exact .inl rfl
  | @join c todo cs hleft =>
    have htodo : ∀ d < s.ctxs.length, d ∈ todo ∨ s.hasLeft d = true := by
      intro d hd
      rcases hk.2 d hd with hd | hd
      · rcases List.mem_cons.mp hd with rfl | hd
        · exact .inr hleft
        · exact .inl hd
      · exact .inr hd
    refine kept ⟨hk.1, htodo⟩ fun _ => ?_
    cases todo with
    | nil => exact .inr (State.allLeft_iff.mpr fun d hd => (htodo d hd).resolve_left (by simp))
    | cons => exact .inl rfl
  | joinDone =>
    refine kept ?_ (by simp [Call.joining])
    exact State.allLeft_iff.mpr fun d hd => (hk.2 d hd).resolve_left (by simp)

/-- One step keeps the invariant. -/
theorem ShutdownInv.preserved (I : ShutdownInv s) (h : Transition s a t) : ShutdownInv t := by
  have kept := I.of_callsKept h
  have hstep := fun k hk => (I.joined k hk).step h
  cases h with
  | callSubmit | callLoop | callStop | callSubmitTask | callSubmitIo =>
    exact kept rfl rfl (.of_append rfl trivial)
  | reject hp | accept hp =>
    exact kept (by simp [State.refuse, State.accept])
      (by simp [State.refuse, State.accept])
      (.of_submission hp _ (by rfl) rfl)
  | push hp | notify hp =>
    exact kept (State.contexts_setSubmission ..) (State.initialized_setSubmission ..)
      (.of_submission hp s rfl rfl)
  | pushIo hi | loopLock hi | loopPass hi | loopBlock hi | stopRequest hi =>
    exact kept rfl rfl (.of_set hi rfl trivial (by simp [Call.joining]))
  | moveCall hi hm => exact I.moveCall hi hm
  | stopNotify hi =>
    exact kept rfl rfl (.notifyLoops (.of_set hi rfl trivial (by simp [Call.joining])))
  | swap hi hlock hinit =>
    have hcalls := CallsKept.of_set hi
      (t := { s.setCall _ (.shutdown (.requestStop s.contexts s.contexts)) with
        contexts := [], initialized := false }) rfl (I.contexts hinit) (by simp [Call.joining])
    refine ⟨by simp, fun _ => ?_, fun k hk => ?_⟩
    · obtain ⟨hlt, -⟩ := List.getElem?_eq_some_iff.mp hi
      exact .inl ⟨_, List.mem_set hlt _, rfl⟩
    · exact (hcalls.joined k hk).elim (hstep k) id
  | requestStop hi | notifyStop hi | destroyContext hi =>
    have hk := hstep _ (List.mem_of_getElem? hi)
    exact kept rfl rfl (.of_set hi rfl hk (by simp [Call.joining]))
  | notifyCompletion => exact kept rfl rfl (.notifyLoops (.of_eq rfl))
  | moveWorker | popBatch | resume | destroyFrame | completed | reap | suspend | bodySubmit | spawn
  | wake | checkDone | pollSubmit | complete => exact kept rfl rfl (.of_eq rfl)

/-! ### The calls that have returned -/

def Call.isReturned (live : Bool) (k : Call) : Bool := k == .returned live

/-- A call that returns has joined the workers itself, or was held back until another
call had. -/
theorem ShutdownInv.returned_step {live : Bool} (I : ShutdownInv s) (h : Transition s a t)
    (hc : ∀ i, a = .call i → .stop (.enter live) ∈ s.calls[i]? ∨ .shutdown .swap ∈ s.calls[i]? →
      ∀ k ∈ s.calls, k.joining = false)
    (hs : .returned live ∈ s.calls → s.AllLeft) (ht : .returned live ∈ t.calls) : t.AllLeft := by
  have same (hf : t.calls.filter (Call.isReturned live) =
      s.calls.filter (Call.isReturned live)) : t.AllLeft := by
    have hmem : .returned live ∈ s.calls.filter (Call.isReturned live) := by
      rw [← hf]
      exact List.mem_filter.mpr ⟨ht, by simp [Call.isReturned]⟩
    exact h.allLeft (hs (List.mem_filter.mp hmem).1)
  have htr := h
  cases h with
  | callSubmit | callLoop | callStop | callSubmitTask | callSubmitIo =>
    exact same (filter_addCall rfl)
  | reject hp | accept hp | push hp | notify hp =>
    apply same
    apply filter_setSubmission
    · exact hp
    · exact fun _ => rfl
    · rfl
  | pushIo hi | loopLock hi | loopPass hi | loopBlock hi | stopRequest hi | swap hi
  | requestStop hi | notifyStop hi | destroyContext hi => exact same (filter_setCall hi rfl rfl)
  | stopNotify hi => exact same ((filter_notifyLoops rfl rfl).trans (filter_setCall hi rfl rfl))
  | notifyCompletion => exact same (filter_notifyLoops rfl rfl)
  | moveWorker | popBatch | resume | destroyFrame | completed | reap | suspend | bodySubmit | spawn
  | wake | checkDone | pollSubmit | complete => exact same rfl
  | @moveCall a i k k' hi hm =>
    have late (hmay : k = .stop (.enter live) ∨ k = .shutdown .swap)
        (hinit : s.initialized = false) (ha : a = .call i) : s.AllLeft := by
      have hnone := hc i ha (by rcases hmay with rfl | rfl <;> simp [hi])
      rcases I.joining hinit with ⟨l, hl, hlj⟩ | hall
      · simp [hnone l hl] at hlj
      · exact hall
    cases hm with
    | loopThrow | loopWait | loopSpurious | requestDone | join | joinDone =>
      exact same (filter_setCall hi rfl rfl)
    | @stopSkip live' _ hinit =>
      by_cases hlive : live' = live
      · exact htr.allLeft (late (.inl (by rw [hlive])) hinit rfl)
      · exact same (filter_setCall hi rfl (by simp [Call.isReturned, hlive]))
    | swapSkip _ hinit => exact htr.allLeft (late (.inr rfl) hinit rfl)
    | destroyDone => exact htr.allLeft (I.joined _ (List.mem_of_getElem? hi))

theorem ShutdownInv.of_joinsFirst_run {n : Nat} (h : Run step JoinsFirst (Runtime.init n) s) :
    ShutdownInv s ∧ (.returned true ∈ s.calls → s.AllLeft) := by
  refine h.invariant (I := fun s => ShutdownInv s ∧ (.returned true ∈ s.calls → s.AllLeft))
    ⟨.init n, by simp [Runtime.init]⟩ fun I hc ht => ?_
  have htr := step_transition ht
  refine ⟨I.1.preserved htr, I.1.returned_step htr (fun i ha hi => ?_) I.2⟩
  subst ha
  exact hc (by rcases hi with hi | hi <;> simp [Option.mem_def.mp hi, Call.mayReturn])

/-- A `loop()` or `stop()` made while the scheduler was initialized returns only after
every worker has left. -/
theorem returned_after_workers_left {n i : Nat} (h : Run step JoinsFirst (init n) s)
    (hi : s.calls[i]? = some (.returned true)) : s.AllLeft :=
  (ShutdownInv.of_joinsFirst_run h).2 (List.mem_of_getElem? hi)

/-- One worker and a `loop()` that has nothing to wait for. -/
theorem returned_after_workers_left_one :
    ∃ s, Run step JoinsFirst (init 1) s ∧ s.calls[0]? = some (.returned true) ∧ s.AllLeft := by
  obtain ⟨s, hs, hi⟩ := exists_run step JoinsFirst (init 1)
    [.callLoop, .call 0, .call 0, .call 0, .call 0, .call 0, .call 0, .worker 0, .pollSubmit 0 [],
      .worker 0, .worker 0, .worker 0, .worker 0, .call 0, .call 0, .call 0, .call 0]
    (fun s => s.calls[0]? = some (.returned true)) (by decide)
  exact ⟨s, hs, hi, returned_after_workers_left hs hi⟩

/-- A `stop()` that arrives after the swap of a `loop()` returns while the worker is
still running. -/
theorem stop_overtakes_joins :
    ¬ ∀ (n i : Nat) (s : State), Run step Always (init n) s →
      s.calls[i]? = some (.returned true) → s.AllLeft := by
  intro h
  obtain ⟨s, hs, hi, hleft⟩ := exists_run step Always (init 1)
    [.callLoop, .callStop, .call 0, .call 0, .call 0, .call 1]
    (fun s => s.calls[1]? = some (.returned true) ∧ ¬ s.AllLeft) (by decide)
  exact hleft (h 1 1 s hs hi)

end TinyCoroutine.Runtime
