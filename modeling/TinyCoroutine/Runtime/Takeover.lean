import TinyCoroutine.Runtime.Epochs
import TinyCoroutine.Runtime.Shutdown

/-!
# Who has a context

`shutdown_contexts` swaps `contexts_` into a vector of its own while it holds `state_mutex_`, and
asks, joins and destroys the contexts after it has released it. Other threads may then call
`stop()`, `loop()` or `init`. Over any number of epochs a context is in `contexts_`, or in the
vector of one call, or has been destroyed: `owners` counts these places, and it is one for every
context that has been made.

A call destroys the contexts it has taken over only after it has asked each of them to stop and
has joined its worker.
-/
namespace TinyCoroutine.Runtime

open Foundation

variable {s t : State} {a : Action} {c : Nat} {x y : Context}

/-! ### What a step does to one call -/

/-- The stop token of context `c` is set. -/
def State.Asked (s : State) (c : Nat) : Prop := ∀ x, s.ctxs[c]? = some x → x.stopRequested = true

/-- The ways in which a step from `s` to `t` changes a call. -/
inductive CallUpdate (s t : State) : Call → Call → Prop where
  | submit {p} (p') : CallUpdate s t (.submit p) (.ofSubmission p')
  | pushIo {c r} : CallUpdate s t (.submitIo c r) (.submit (.notify c))
  | move {a i k k'} : CallMove s i a k k' → CallUpdate s t k k'
  | loopLock {p} : CallUpdate s t (.loop p) (.loop .evaluate)
  | loopPass : CallUpdate s t (.loop .evaluate) (.shutdown .swap)
  | loopBlock : CallUpdate s t (.loop .block) (.loop .blocked)
  | loopNotified : CallUpdate s t (.loop .blocked) (.loop .woken)
  | stopRequest {live} : CallUpdate s t (.stop (.enter live)) (.stop .notifyAll)
  | stopNotify : CallUpdate s t (.stop .notifyAll) (.shutdown .swap)
  | swap : CallUpdate s t (.shutdown .swap) (.shutdown (.requestStop s.contexts s.contexts))
  | requestStop {c todo cs} : t.Asked c →
      CallUpdate s t (.shutdown (.requestStop (c :: todo) cs)) (.shutdown (.notifyStop c todo cs))
  | notifyStop {c todo cs} :
      CallUpdate s t (.shutdown (.notifyStop c todo cs)) (.shutdown (.requestStop todo cs))
  | destroyContext {c todo} :
      CallUpdate s t (.shutdown (.destroy (c :: todo))) (.shutdown (.destroy todo))

/-- The places at which a call starts. -/
def Call.starting : Call → Bool
  | .submit _ => true
  | .submitIo _ _ => true
  | .loop .enter => true
  | .stop (.enter _) => true
  | _ => false

theorem State.asked_modifyCtx (c : Nat) :
    (s.modifyCtx c fun x => { x with stopRequested := true }).Asked c := by
  intro x hx
  obtain ⟨y, -, rfl⟩ := getElem?_modifyCtx hx
  rw [if_pos rfl]

/-- A property of every call holds after a step if new calls have it and the updates keep it. -/
theorem Transition.eachCall {Q : Call → Prop} (h : Transition s a t)
    (hnew : ∀ k, k.starting = true → Q k) (hu : ∀ k k', CallUpdate s t k k' → Q k → Q k')
    (hb : ∀ k ∈ s.calls, Q k) : ∀ k ∈ t.calls, Q k := by
  have add {l : List Call} {k : Call} (hl : ∀ k ∈ l, Q k) (hk : k.starting = true) :
      ∀ k' ∈ l ++ [k], Q k' := by
    intro k' hk'
    rcases List.mem_append.mp hk' with hk' | hk'
    · exact hl k' hk'
    · exact List.mem_singleton.mp hk' ▸ hnew k hk
  have set {i : Nat} {k k' : Call} (hi : s.calls[i]? = some k) (hk : CallUpdate s t k k') :
      ∀ l ∈ s.calls.set i k', Q l := by
    intro l hl
    rcases List.mem_or_eq_of_mem_set hl with hl | rfl
    · exact hb l hl
    · exact hu k l hk (hb k (List.mem_of_getElem? hi))
  have notified {l : List Call} (hl : ∀ k ∈ l, Q k) : ∀ k ∈ l.map Call.notified, Q k := by
    intro k hk
    obtain ⟨k, hmem, rfl⟩ := List.mem_map.mp hk
    unfold Call.notified
    split
    · exact hu _ _ .loopNotified (hl _ hmem)
    · exact hl _ hmem
  have submission {who : Submitter} {p : SubmitPc} (p' : Option SubmitPc) {u : State}
      (hcalls : u.calls = s.calls) (hp : s.submission who = some p) :
      ∀ k ∈ (u.setSubmission p' who).calls, Q k := by
    cases who with
    | worker d => exact hcalls.symm ▸ hb
    | call i =>
      obtain ⟨k, hi, hk⟩ := Option.bind_eq_some_iff.mp hp
      obtain rfl : k = .submit p := by cases k <;> simp_all [Call.submission]
      show ∀ k ∈ u.calls.set i (.ofSubmission p'), Q k
      rw [hcalls]
      exact set hi (.submit p')
  cases h with
  | callSubmit | callLoop | callStop | callSubmitTask | callSubmitIo => exact add hb rfl
  | reject hp | accept hp => exact submission _ rfl hp
  | push hp | notify hp => exact submission (u := s) _ rfl hp
  | pushIo hi => exact set hi .pushIo
  | moveCall hi hm => exact set hi (.move hm)
  | loopLock hi => exact set hi .loopLock
  | loopPass hi => exact set hi .loopPass
  | loopBlock hi => exact set hi .loopBlock
  | stopRequest hi => exact set hi .stopRequest
  | stopNotify hi => exact notified (set hi .stopNotify)
  | swap hi => exact set hi .swap
  | requestStop hi => exact set hi (.requestStop (State.asked_modifyCtx _))
  | notifyStop hi => exact set hi .notifyStop
  | destroyContext hi => exact set hi .destroyContext
  | notifyCompletion => exact notified hb
  | moveWorker | popBatch | resume | destroyFrame | completed | reap | suspend | bodySubmit | spawn
  | wake | checkDone | pollSubmit | complete => exact hb

/-! ### Asking, joining and destroying -/

theorem ContextUpdate.asked (h : ContextUpdate s a c x y) (hx : x.stopRequested = true) :
    y.stopRequested = true := by
  cases h with
  | requestStop => rfl
  | _ => exact hx

theorem Transition.asked (h : Transition s a t) (hc : s.Asked c) : t.Asked c := by
  have ht : t.Each fun d y => d = c → y.stopRequested = true := by
    refine h.each (fun _ _ _ hu hy hd => hu.asked (hy hd)) ?_
    rintro d y hy rfl
    exact hc y hy
  exact fun x hx => ht c x hx rfl

/-- The contexts that the call has taken over and not destroyed yet. -/
def Call.holds : Call → List Nat
  | .shutdown (.requestStop _ cs) => cs
  | .shutdown (.notifyStop _ _ cs) => cs
  | .shutdown (.join _ cs) => cs
  | .shutdown (.destroy todo) => todo
  | _ => []

/-- What the place of a call says about the contexts it has taken over. -/
def Call.Serves (s : State) : Call → Prop
  | .shutdown (.requestStop todo cs) => ∀ c ∈ cs, c ∈ todo ∨ s.Asked c
  | .shutdown (.notifyStop _ todo cs) => ∀ c ∈ cs, c ∈ todo ∨ s.Asked c
  | .shutdown (.join todo cs) => ∀ c ∈ cs, s.Asked c ∧ (c ∈ todo ∨ s.hasLeft c = true)
  | .shutdown (.destroy todo) => ∀ c ∈ todo, s.Asked c ∧ s.hasLeft c = true
  | _ => True

theorem Call.Serves.mono {k : Call} (hasked : ∀ c ∈ k.holds, s.Asked c → t.Asked c)
    (hleft : ∀ c, s.hasLeft c = true → t.hasLeft c = true) (h : k.Serves s) : k.Serves t := by
  unfold Call.Serves at h ⊢
  split <;> simp only [Call.holds] at hasked <;> grind

theorem Call.Serves.update {k k' : Call} (hu : CallUpdate s t k k') (h : k.Serves t)
    (hleft : ∀ c, s.hasLeft c = true → t.hasLeft c = true) : k'.Serves t := by
  cases hu with
  | submit p' => cases p' <;> trivial
  | move hm =>
    cases hm with
    | requestDone => exact fun c hc => ⟨(h c hc).resolve_left List.not_mem_nil, .inl hc⟩
    | join hc =>
      intro d hd
      obtain ⟨hasked, hd | hd⟩ := h d hd
      · rcases List.mem_cons.mp hd with rfl | hd
        · exact ⟨hasked, .inr (hleft _ hc)⟩
        · exact ⟨hasked, .inl hd⟩
      · exact ⟨hasked, .inr hd⟩
    | joinDone => exact fun c hc => ⟨(h c hc).1, (h c hc).2.resolve_left List.not_mem_nil⟩
    | _ => trivial
  | swap => exact fun c hc => .inl hc
  | requestStop hasked =>
    intro d hd
    rcases h d hd with hd | hd
    · rcases List.mem_cons.mp hd with rfl | hd
      · exact .inr hasked
      · exact .inl hd
    · exact .inr hd
  | notifyStop => exact h
  | destroyContext => exact fun c hc => h c (List.mem_cons_of_mem _ hc)
  | _ => trivial

theorem Transition.serves (h : Transition s a t) (hb : ∀ k ∈ s.calls, k.Serves s) :
    ∀ k ∈ t.calls, k.Serves t := by
  have hleft : ∀ c, s.hasLeft c = true → t.hasLeft c = true := fun _ => h.hasLeft
  refine h.eachCall (fun k hk => ?_) (fun k k' hu hk => hk.update hu hleft) fun k hk => ?_
  · unfold Call.Serves
    split <;> trivial
  · exact (hb k hk).mono (fun _ _ => h.asked) hleft

/-! ### Owners -/

/-- Whether context `c` has been destroyed, as a number. -/
def State.gone (s : State) (c : Nat) : Nat := ((s.ctxs[c]?).any fun x => !x.alive).toNat

/-- All calls together: how often context `c` is in their vectors. -/
def State.taken (s : State) (c : Nat) : Nat := total (fun k => k.holds.count c) s.calls

/-- In how many places context `c` is. -/
def State.owners (s : State) (c : Nat) : Nat := s.contexts.count c + s.taken c + s.gone c

section

theorem State.gone_setCtx (hx : s.ctxs[c]? = some x) (hy : y.alive = x.alive) (d : Nat) :
    (s.setCtx c y).gone d = s.gone d := by
  unfold gone State.setCtx
  by_cases hcd : c = d
  · subst hcd
    rw [List.getElem?_set_self (List.getElem?_eq_some_iff.mp hx).1, hx, Option.any_some,
      Option.any_some, hy]
  · rw [List.getElem?_set_ne hcd]

theorem State.gone_modifyCtx {f : Context → Context} (hf : ∀ x, (f x).alive = x.alive) (d : Nat) :
    (s.modifyCtx c f).gone d = s.gone d := by
  unfold gone State.modifyCtx
  rw [List.getElem?_modify]
  cases s.ctxs[d]? with
  | none => rfl
  | some x =>
    by_cases hcd : c = d
    · simp [hcd, hf]
    · simp [hcd]

theorem State.gone_setSubmission (p : Option SubmitPc) (who : Submitter) (d : Nat) :
    (s.setSubmission p who).gone d = s.gone d := by
  cases who with
  | call i => rfl
  | worker c => exact gone_modifyCtx (fun _ => by rfl) d

theorem State.gone_destroy {d : Nat} (hd : d < s.ctxs.length) (hs : s.gone d = 0) (e : Nat) :
    (s.modifyCtx d fun x => { x with alive := false }).gone e =
      s.gone e + if d = e then 1 else 0 := by
  unfold gone State.modifyCtx at *
  rw [List.getElem?_modify]
  by_cases hde : d = e
  · subst hde
    rw [List.getElem?_eq_getElem hd] at hs ⊢
    simpa using hs
  · simp only [hde, if_false, Nat.add_zero]
    cases s.ctxs[e]? <;> rfl

theorem taken_setCall {i : Nat} {k : Call} (k' : Call) (hi : s.calls[i]? = some k) (c : Nat) :
    (s.setCall i k').taken c + k.holds.count c = s.taken c + k'.holds.count c :=
  total_set _ k' hi

theorem taken_addCall {k : Call} (hk : k.holds = []) (c : Nat) :
    (s.addCall k).taken c = s.taken c := by
  simp [State.taken, State.addCall, hk]

theorem taken_setSubmission {who : Submitter} {p : SubmitPc} (p' : Option SubmitPc)
    (hp : s.submission who = some p) (c : Nat) : (s.setSubmission p' who).taken c = s.taken c := by
  cases who with
  | worker d => rfl
  | call i =>
    obtain ⟨k, hi, hk⟩ := Option.bind_eq_some_iff.mp hp
    obtain rfl : k = .submit p := by cases k <;> simp_all [Call.submission]
    have hset := taken_setCall (.ofSubmission p') hi c
    have hnone : (Call.ofSubmission p').holds = [] := by cases p' <;> rfl
    rw [hnone] at hset
    exact hset

theorem taken_notifyLoops (c : Nat) : s.notifyLoops.taken c = s.taken c := by
  have hsame : (fun k : Call => k.notified.holds.count c) = fun k => k.holds.count c := by
    funext k
    unfold Call.notified
    split <;> rfl
  simp only [State.taken, State.notifyLoops, total, List.map_map, Function.comp_def, hsame]

end

/-- Every context that has been made is in one place, and nothing else is. -/
def State.Owned (s : State) : Prop := ∀ c, s.owners c = if c < s.ctxs.length then 1 else 0

theorem State.Owned.of_owners (ho : s.Owned) (hlen : t.ctxs.length = s.ctxs.length)
    (h : ∀ c, t.owners c = s.owners c) : t.Owned := by
  intro c
  rw [h, hlen]
  exact ho c

/-- A call that holds a context is its only owner. -/
theorem State.Owned.of_holds {i : Nat} {k : Call} (ho : s.Owned) (hi : s.calls[i]? = some k)
    (hc : c ∈ k.holds) : c < s.ctxs.length ∧ s.gone c = 0 ∧ c ∉ s.contexts ∧
      ∀ j k', j ≠ i → s.calls[j]? = some k' → c ∉ k'.holds := by
  have hone := ho c
  have hle : k.holds.count c ≤ s.taken c := le_total (fun k => k.holds.count c) hi
  have hpos : 0 < k.holds.count c := List.count_pos_iff.mpr hc
  unfold State.owners at hone
  have hlt : c < s.ctxs.length := by
    by_contra hge
    rw [if_neg hge] at hone
    omega
  rw [if_pos hlt] at hone
  refine ⟨hlt, by omega, fun hmem => ?_, fun j k' hj hk' hmem => ?_⟩
  · have := List.count_pos_iff.mpr hmem
    omega
  · have htwo := add_le_total (fun k => k.holds.count c) hj hk' hi
    have := List.count_pos_iff.mpr hmem
    change k'.holds.count c + k.holds.count c ≤ s.taken c at htwo
    omega

theorem Transition.owned (h : Transition s a t) (ho : s.Owned) : t.Owned := by
  have hlen := h.length_ctxs
  have kept {u : State} (hu : u.ctxs.length = s.ctxs.length) (hcontexts : u.contexts = s.contexts)
      (htaken : ∀ c, u.taken c = s.taken c) (hgone : ∀ c, u.gone c = s.gone c) : u.Owned := by
    refine ho.of_owners hu fun c => ?_
    rw [State.owners, State.owners, hcontexts, htaken, hgone]
  have set {u : State} {i : Nat} {k k' : Call} (hi : s.calls[i]? = some k)
      (hcalls : u.calls = s.calls.set i k') (hk : k'.holds = k.holds) (c : Nat) :
      u.taken c = s.taken c := by
    have := taken_setCall k' hi c
    rw [hk] at this
    rw [State.taken, hcalls]
    exact Nat.add_right_cancel this
  cases h with
  | callSubmit | callLoop | callStop | callSubmitTask =>
    exact kept hlen rfl (taken_addCall rfl) fun _ => rfl
  | callSubmitIo =>
    exact kept hlen rfl (taken_addCall rfl) (State.gone_modifyCtx fun _ => by rfl)
  | reject hp | accept hp =>
    refine kept hlen (State.contexts_setSubmission ..) ?_ (State.gone_setSubmission _ _)
    exact taken_setSubmission _ hp
  | push hp =>
    refine kept hlen (State.contexts_setSubmission ..) (taken_setSubmission _ hp) fun c => ?_
    exact (State.gone_modifyCtx (fun _ => by rfl) c).trans (State.gone_setSubmission _ _ c)
  | notify hp =>
    refine kept hlen (State.contexts_setSubmission ..) (taken_setSubmission _ hp) fun c => ?_
    exact (State.gone_modifyCtx (fun _ => by rfl) c).trans (State.gone_setSubmission _ _ c)
  | pushIo hi =>
    exact kept hlen rfl (set hi rfl rfl) (State.gone_modifyCtx fun _ => by rfl)
  | moveCall hi hm => exact kept hlen rfl (set hi rfl (by cases hm <;> rfl)) fun _ => rfl
  | loopLock hi | loopPass hi | loopBlock hi | stopRequest hi =>
    exact kept hlen rfl (set hi rfl rfl) fun _ => rfl
  | stopNotify hi =>
    refine kept hlen rfl (fun c => (taken_notifyLoops c).trans ?_) fun _ => rfl
    exact set hi rfl (by rfl) c
  | @swap i hi =>
    refine ho.of_owners hlen fun c => ?_
    have htaken := taken_setCall (.shutdown (.requestStop s.contexts s.contexts)) hi c
    simp only [Call.holds, List.count_nil, Nat.add_zero] at htaken
    change 0 + (s.setCall i _).taken c + s.gone c = _
    rw [State.owners, htaken]
    omega
  | requestStop hi =>
    exact kept hlen rfl (set hi rfl rfl) (State.gone_modifyCtx fun _ => by rfl)
  | notifyStop hi => exact kept hlen rfl (set hi rfl rfl) (State.gone_modifyCtx fun _ => by rfl)
  | @destroyContext i d todo hi =>
    obtain ⟨hlt, hgone, -⟩ := ho.of_holds hi (c := d) List.mem_cons_self
    refine ho.of_owners hlen fun c => ?_
    have htaken := taken_setCall (.shutdown (.destroy todo)) hi c
    have hdead : ((s.setCall i (.shutdown (.destroy todo))).modifyCtx d
        fun x => { x with alive := false }).gone c = s.gone c + if d = c then 1 else 0 :=
      State.gone_destroy (s := s.setCall i _) hlt hgone c
    rw [State.owners, State.owners, hdead]
    change s.contexts.count c + (s.setCall i _).taken c + _ = _
    simp only [Call.holds, List.count_cons] at htaken
    by_cases hdc : d = c
    · simp only [hdc, beq_self_eq_true, if_true] at htaken ⊢
      omega
    · simp only [beq_iff_eq, hdc, if_false] at htaken ⊢
      omega
  | moveWorker hx => exact kept hlen rfl (fun _ => rfl) (State.gone_setCtx hx rfl)
  | notifyCompletion hx =>
    exact kept hlen rfl (fun c => taken_notifyLoops c) (State.gone_setCtx hx rfl)
  | popBatch hx | resume hx | destroyFrame hx | completed hx | reap hx | suspend hx
  | bodySubmit hx | spawn hx | wake hx | checkDone hx | pollSubmit hx | complete hx =>
    exact kept hlen rfl (fun _ => rfl) (State.gone_setCtx (s := s) hx rfl)

/-! ### Over several epochs -/

/-- The dispatcher has as many contexts to choose from as it counts, and there are none to choose
from while the scheduler is not initialized. -/
def State.Dispatches (s : State) : Prop :=
  if s.initialized then 0 < s.contextCount ∧ s.contexts.length = s.contextCount
  else s.contexts = []

theorem Transition.dispatches (h : Transition s a t) (hs : s.Dispatches) : t.Dispatches := by
  have same (hcontexts : t.contexts = s.contexts) (hcount : t.contextCount = s.contextCount)
      (hinit : t.initialized = s.initialized) : t.Dispatches := by
    unfold State.Dispatches
    rw [hcontexts, hcount, hinit]
    exact hs
  cases h with
  | @reject who | @accept who | @push who | @notify who => cases who <;> exact same rfl rfl rfl
  | swap => exact rfl
  | _ => exact same rfl rfl rfl

structure Takeover (s : State) : Prop where
  owned : s.Owned
  serves : ∀ k ∈ s.calls, k.Serves s
  joined : s.Each fun _ x => x.alive = false → x.worker = .left
  dispatches : s.Dispatches

/-- Only a call that has joined the worker destroys its context. -/
theorem Takeover.joined_step (I : Takeover s) (h : Transition s a t) :
    t.Each fun _ x => x.alive = false → x.worker = .left := by
  refine h.each (fun c x y hu hx hdead => ?_) I.joined
  have hleft := hu.left
  cases hu with
  | destroy hctx hi =>
    obtain ⟨-, hleft⟩ := I.serves _ (List.mem_of_getElem? hi) c List.mem_cons_self
    simpa [State.hasLeft, hctx] using hleft
  | _ => exact hleft (hx hdead)

theorem Takeover.preserved (I : Takeover s) (h : Transition s a t) : Takeover t where
  owned := h.owned I.owned
  serves := h.serves I.serves
  joined := I.joined_step h
  dispatches := h.dispatches I.dispatches

/-- `init` makes new contexts and leaves the old ones where they are. -/
theorem Takeover.init {n : Nat} (I : Takeover s) (h : initStep s n = some t) : Takeover t := by
  simp only [initStep] at h
  split at h
  · cases h
  split at h
  · cases h
    exact I
  rename_i hinit
  have hnone : s.contexts = [] := by simpa [State.Dispatches, hinit] using I.dispatches
  generalize hcount : (if n = 0 then 1 else n) = count at h
  cases h
  have hpos : 0 < count := by
    rw [← hcount]
    split <;> omega
  have hold {c : Nat} (hc : c < s.ctxs.length) :
      (s.ctxs ++ List.replicate count ({} : Context))[c]? = s.ctxs[c]? :=
    List.getElem?_append_left hc
  have hgone (c : Nat) : ((s.ctxs ++ List.replicate count ({} : Context))[c]?).any
      (fun x : Context => !x.alive) = (s.ctxs[c]?).any fun x => !x.alive := by
    by_cases hc : c < s.ctxs.length
    · rw [hold hc]
    · rw [List.getElem?_append_right (by omega), List.getElem?_eq_none (by omega : _ ≤ c),
        List.getElem?_replicate]
      split <;> rfl
  refine ⟨fun c => ?_, fun k hk => ?_, fun c x hx => ?_, ?_⟩
  · have hone := I.owned c
    have hmem : ((List.range count).map (s.ctxs.length + ·)).count c =
        if s.ctxs.length ≤ c ∧ c < s.ctxs.length + count then 1 else 0 := by
      rw [← List.range'_eq_map_range, List.count_range_1']
    simp only [State.owners, State.gone, State.taken, hgone, hnone, List.nil_append, hmem,
      List.count_nil, List.length_append, List.length_replicate] at hone ⊢
    split at hone <;> split <;> split <;> omega
  · obtain ⟨i, hi⟩ := List.mem_iff_getElem?.mp hk
    refine (I.serves k hk).mono (fun c hc hasked x hx => ?_) fun c hleft => ?_
    · obtain ⟨hlt, -⟩ := I.owned.of_holds hi hc
      rw [hold hlt] at hx
      exact hasked x hx
    · obtain ⟨x, hx, hw⟩ := State.hasLeft_iff.mp hleft
      exact State.hasLeft_iff.mpr ⟨x, (hold (List.getElem?_eq_some_iff.mp hx).1).trans hx, hw⟩
  · rcases getElem?_append_contexts hx with hx | rfl
    · exact I.joined c x hx
    · intro hdead
      cases hdead
  · simp [State.Dispatches, hnone, hpos]

theorem Takeover.constructed : Takeover EpochState.constructed.runtime where
  owned c := rfl
  serves k hk := by cases hk
  joined c x hx := by cases hx
  dispatches := rfl

theorem Takeover.of_run {s : EpochState}
    (run : Run EpochState.step Always EpochState.constructed s) : Takeover s.runtime := by
  refine run.invariant (I := fun s => Takeover s.runtime) .constructed ?_
  intro s a t I _ hstep
  cases a with
  | runtime a =>
    obtain ⟨r, hr, rfl⟩ := Option.map_eq_some_iff.mp hstep
    exact I.preserved (step_transition hr)
  | init n =>
    obtain ⟨r, hr, rfl⟩ := Option.map_eq_some_iff.mp hstep
    split
    · exact I
    · exact I.init hr

structure ContextsOwned (s : State) : Prop where
  /-- A context is in `contexts_`, with one call, or has been destroyed. -/
  once : ∀ c < s.ctxs.length, s.owners c = 1
  apart : ∀ (i j : Nat) (k k' : Call) (c : Nat), i ≠ j → s.calls[i]? = some k →
    s.calls[j]? = some k' → c ∈ k.holds → c ∉ k'.holds
  asked : ∀ todo cs c, .shutdown (.join todo cs) ∈ s.calls → c ∈ cs → s.Asked c
  joined : ∀ (c : Nat) (x : Context), s.ctxs[c]? = some x → x.alive = false → x.worker = .left
  /-- `contexts_[dispatcher_.dispatch()]` is a context that has not been destroyed. -/
  dispatched : s.initialized = true → ∃ (c : Nat) (x : Context),
    s.contexts[s.next % s.contextCount]? = some c ∧ s.ctxs[c]? = some x ∧ x.alive = true

theorem Takeover.dispatched (I : Takeover s) (hinit : s.initialized = true) :
    ∃ (c : Nat) (x : Context), s.contexts[s.next % s.contextCount]? = some c ∧
      s.ctxs[c]? = some x ∧ x.alive = true := by
  have hd := I.dispatches
  rw [State.Dispatches, if_pos hinit] at hd
  obtain ⟨hpos, hlen⟩ := hd
  have hlt : s.next % s.contextCount < s.contexts.length := by
    rw [hlen]
    exact Nat.mod_lt _ hpos
  have hcount := List.count_pos_iff.mpr (List.getElem_mem hlt)
  have hone := I.owned s.contexts[s.next % s.contextCount]
  unfold State.owners at hone
  split at hone
  · rename_i hc
    refine ⟨_, _, List.getElem?_eq_getElem hlt, List.getElem?_eq_getElem hc, ?_⟩
    have hgone : s.gone s.contexts[s.next % s.contextCount] = 0 := by omega
    simpa [State.gone, List.getElem?_eq_getElem hc] using hgone
  · omega

/-- However often a scheduler is initialized, stopped and looped by any number of threads, every
context it has made has one owner. -/
theorem contexts_have_one_owner {s : EpochState}
    (run : Run EpochState.step Always EpochState.constructed s) : ContextsOwned s.runtime := by
  have I := Takeover.of_run run
  refine ⟨fun c hc => ?_, fun i j k k' c hij hi hj hc => ?_, fun todo cs c hk hc => ?_, I.joined,
    I.dispatched⟩
  · rw [I.owned c, if_pos hc]
  · exact (I.owned.of_holds hi hc).2.2.2 j k' hij.symm hj
  · exact (I.serves _ hk c hc).1

/-- One thread has taken over the context of the first epoch, another initializes again. -/
theorem contexts_have_one_owner_overlapping :
    ∃ s : EpochState, Run EpochState.step Always EpochState.constructed s ∧
      s.runtime.calls = [.shutdown (.requestStop [0] [0])] ∧ s.runtime.contexts = [1, 2] ∧
      ContextsOwned s.runtime := by
  obtain ⟨s, run, hcalls, hcontexts⟩ := exists_run EpochState.step Always EpochState.constructed
    [.init 1, .runtime .callStop, .runtime (.call 0), .runtime (.call 0), .runtime (.call 0),
      .init 2]
    (fun s => s.runtime.calls = [.shutdown (.requestStop [0] [0])] ∧ s.runtime.contexts = [1, 2])
    (by decide)
  exact ⟨s, run, hcalls, hcontexts, contexts_have_one_owner run⟩

end TinyCoroutine.Runtime
