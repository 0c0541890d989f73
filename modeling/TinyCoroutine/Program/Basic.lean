import TinyCoroutine.Runtime.Shutdown
import TinyCoroutine.Foundation.WaitQueues

/-!
# Tasks that use objects they can wait on

The scheduler on its own lets a running coroutine park, and wake any coroutine that is parked:
which of them is decided by the objects the coroutine calls. Here both are put together. A
coroutine calls an operation of an object; the operation parks it, or returns the handles that
the call then passes to `reschedule_or_resume` one after the other, each of them through
`Context::submit_task` of the worker that runs the call.

The scheduler takes no word of the objects for granted: its step that wakes a coroutine is enabled
only when the coroutine is parked. `attended_of_run` shows that it always is.
-/
namespace TinyCoroutine.Program

open Foundation
open TinyCoroutine.Runtime

variable {σ ω : Type*}

structure State (σ : Type*) where
  runtime : Runtime.State
  objects : σ
  /-- What the call on worker `c` has taken out of an object and not rescheduled yet. -/
  wakes : Nat → List Handle := fun _ => []

inductive Action (ω : Type*) where
  | runtime (a : Runtime.Action)
  /-- the coroutine on worker `c` calls an operation -/
  | operate (c : Nat) (o : ω)
  /-- the call on worker `c` passes its next handle to `reschedule_or_resume` -/
  | reschedule (c : Nat)

def start (n : Nat) (objects : σ) : State σ := { runtime := Runtime.init n, objects }

/-- The steps of the scheduler in which no object takes part. A coroutine does nothing else while
a call of it has handles to reschedule. -/
def State.own (s : State σ) : Runtime.Action → Bool
  | .body _ .park => false
  | .body _ (.wake _) => false
  | .body c _ => (s.wakes c).isEmpty
  | _ => true

def step (Q : WaitQueues Handle σ ω) (s : State σ) : Action ω → Option (State σ)
  | .runtime a =>
    if s.own a then (Runtime.step s.runtime a).map fun r => { s with runtime := r } else none
  | .operate c o =>
    match (s.runtime.ctxs[c]?).map Context.worker with
    | some (.running h none) =>
      if s.wakes c = [] then
        (Q.run s.objects h o).bind fun e =>
          if e.parks then
            (Runtime.step s.runtime (.body c .park)).map fun r =>
              { s with runtime := r, objects := e.state }
          else some { s with objects := e.state, wakes := Function.update s.wakes c e.wakes }
      else none
    | _ => none
  | .reschedule c =>
    match s.wakes c with
    | [] => none
    | g :: rest =>
      (Runtime.step s.runtime (.body c (.wake g))).map fun r =>
        { s with runtime := r, wakes := Function.update s.wakes c rest }

/-! ### The rules behind `step` -/

inductive Rule (Q : WaitQueues Handle σ ω) (s : State σ) : Action ω → State σ → Prop where
  | runtime {a r} : s.own a = true → Runtime.step s.runtime a = some r →
      Rule Q s (.runtime a) { s with runtime := r }
  | park {c o x h e r} : s.runtime.ctxs[c]? = some x → x.worker = .running h none →
      s.wakes c = [] → Q.run s.objects h o = some e → e.parks = true →
      Runtime.step s.runtime (.body c .park) = some r →
      Rule Q s (.operate c o) { s with runtime := r, objects := e.state }
  | operate {c o x h e} : s.runtime.ctxs[c]? = some x → x.worker = .running h none →
      s.wakes c = [] → Q.run s.objects h o = some e → e.parks = false →
      Rule Q s (.operate c o)
        { s with objects := e.state, wakes := Function.update s.wakes c e.wakes }
  | reschedule {c g rest r} : s.wakes c = g :: rest →
      Runtime.step s.runtime (.body c (.wake g)) = some r →
      Rule Q s (.reschedule c) { s with runtime := r, wakes := Function.update s.wakes c rest }

variable {Q : WaitQueues Handle σ ω} {s t : State σ} {a : Action ω}

theorem step_rule (h : step Q s a = some t) : Rule Q s a t := by
  cases a with
  | runtime a =>
    simp only [step] at h
    split at h
    · rename_i hown
      obtain ⟨r, hr, rfl⟩ := Option.map_eq_some_iff.mp h
      exact .runtime hown hr
    · cases h
  | operate c o =>
    simp only [step] at h
    split at h
    · rename_i g hpc
      obtain ⟨x, hx, hw⟩ := Option.map_eq_some_iff.mp hpc
      split at h
      · rename_i hnone
        obtain ⟨e, he, h⟩ := Option.bind_eq_some_iff.mp h
        split at h
        · rename_i hparks
          obtain ⟨r, hr, rfl⟩ := Option.map_eq_some_iff.mp h
          exact .park hx hw hnone he hparks hr
        · rename_i hparks
          cases h
          exact .operate hx hw hnone he (by simpa using hparks)
      · cases h
    · cases h
  | reschedule c =>
    simp only [step] at h
    split at h
    · cases h
    · rename_i g rest hwakes
      obtain ⟨r, hr, rfl⟩ := Option.map_eq_some_iff.mp h
      exact .reschedule hwakes hr

end TinyCoroutine.Program

namespace TinyCoroutine.Runtime

variable {s t : State} {a : Action} {c : Nat} {x : Context} {h : Handle}

/-! ### What a step of the scheduler keeps -/

/-- Only a coroutine that parks or wakes another one changes who is parked. -/
theorem Transition.parked (ht : Transition s a t) (hpark : ∀ c, a ≠ .body c .park)
    (hwake : ∀ c g, a ≠ .body c (.wake g)) : t.parked = s.parked := by
  cases ht with
  | @reject who | @accept who | @push who | @notify who => cases who <;> rfl
  | @suspend c x h b status engine parked _ _ hsus =>
    cases hsus with
    | park => exact absurd rfl (hpark c)
    | _ => exact List.append_nil _
  | @wake c x h g => exact absurd rfl (hwake c g)
  | _ => rfl

theorem Transition.of_park (ht : Transition s (.body c .park) t) (hx : s.ctxs[c]? = some x)
    (hw : x.worker = .running h none) : t.parked = s.parked ++ [h] := by
  cases ht with
  | moveCall _ hm => cases hm
  | moveWorker _ _ hm => cases hm
  | suspend hx' hw' hsus =>
    obtain rfl := Option.some.inj (hx.symm.trans hx')
    rw [hw] at hw'
    cases hw'
    cases hsus
    rfl

/-- Worker `c` is inside `handle.resume()`. -/
def State.Runs (s : State) (c : Nat) (h : Handle) : Prop :=
  ∃ x p, s.ctxs[c]? = some x ∧ x.worker = .running h p

theorem Transition.of_wake {g : Handle} (ht : Transition s (.body c (.wake g)) t) :
    g ∈ s.parked ∧ t.parked = s.parked.erase g ∧ ∃ h, t.Runs c h := by
  cases ht with
  | moveCall _ hm => cases hm
  | moveWorker _ _ hm => cases hm
  | suspend _ _ hsus => cases hsus
  | @wake _ x h _ hx _ hg =>
    exact ⟨hg, rfl, h, _, _, List.getElem?_set_self (List.getElem?_eq_some_iff.mp hx).1, rfl⟩

namespace State.Runs

theorem setCtx {d : Nat} {x y : Context} (hx : s.ctxs[d]? = some x)
    (hw : ∀ p, x.worker = .running h p → ∃ q, y.worker = .running h q) (hr : s.Runs c h) :
    (s.setCtx d y).Runs c h := by
  obtain ⟨z, p, hz, hzw⟩ := hr
  by_cases hdc : d = c
  · subst hdc
    obtain rfl := Option.some.inj (hx.symm.trans hz)
    obtain ⟨q, hq⟩ := hw p hzw
    exact ⟨y, q, List.getElem?_set_self (List.getElem?_eq_some_iff.mp hx).1, hq⟩
  · exact ⟨z, p, by rw [State.setCtx, List.getElem?_set_ne hdc, hz], hzw⟩

theorem modifyCtx {d : Nat} {f : Context → Context}
    (hf : ∀ x p, x.worker = .running h p → ∃ q, (f x).worker = .running h q) (hr : s.Runs c h) :
    (s.modifyCtx d f).Runs c h := by
  obtain ⟨z, p, hz, hzw⟩ := hr
  by_cases hdc : d = c
  · subst hdc
    obtain ⟨q, hq⟩ := hf z p hzw
    exact ⟨f z, q, by simp [State.modifyCtx, hz], hq⟩
  · exact ⟨z, p, by simp [State.modifyCtx, hz, hdc], hzw⟩

theorem setSubmission {who : Submitter} {p : Option SubmitPc} (hr : s.Runs c h) :
    (s.setSubmission p who).Runs c h := by
  cases who with
  | call i => exact hr
  | worker d => exact hr.modifyCtx fun x q hw => ⟨p, by rw [hw]; rfl⟩

theorem notifyWorker {d : Nat} (hr : s.Runs c h) : (s.notifyWorker d).Runs c h :=
  hr.modifyCtx fun x q hw => ⟨q, by rw [hw]; rfl⟩

end State.Runs

/-- A coroutine runs until its own code suspends it. -/
theorem Transition.keeps_running (ht : Transition s a t) (ha : ∀ b, a ≠ .body c b)
    (hr : s.Runs c h) : t.Runs c h := by
  have elsewhere {d : Nat} {x y : Context} (hx : s.ctxs[d]? = some x)
      (hw : ∀ p, x.worker ≠ .running h p) : (s.setCtx d y).Runs c h :=
    hr.setCtx hx fun p hp => absurd hp (hw p)
  have apart {d : Nat} {y : Context} (hd : d ≠ c) : (s.setCtx d y).Runs c h := by
    obtain ⟨z, p, hz, hzw⟩ := hr
    exact ⟨z, p, by rw [State.setCtx, List.getElem?_set_ne hd, hz], hzw⟩
  have other {d : Nat} {b : BodyAction} (hb : a = .body d b) : d ≠ c := by
    rintro rfl
    exact ha b hb
  cases ht with
  | callSubmit | callLoop | callStop | callSubmitTask | moveCall | loopLock | loopPass | loopBlock
  | stopRequest | stopNotify | swap => exact hr
  | callSubmitIo | pushIo | requestStop | destroyContext =>
    exact hr.modifyCtx fun x p hw => ⟨p, hw⟩
  | reject | accept =>
    refine State.Runs.setSubmission ?_
    exact hr
  | push => exact hr.setSubmission.modifyCtx fun x p hw => ⟨p, hw⟩
  | notify => exact hr.setSubmission.notifyWorker
  | notifyStop => exact hr.notifyWorker
  | moveWorker hx hw hm => exact elsewhere hx fun p => by cases hm <;> simp [hw]
  | popBatch hx hw | resume hx hw | destroyFrame hx hw | completed hx hw | notifyCompletion hx hw
  | reap hx hw | checkDone hx hw | pollSubmit hx hw => exact elsewhere hx fun p => by simp [hw]
  | complete hx => exact hr.setCtx hx fun p hw => ⟨p, hw⟩
  | suspend | bodySubmit | spawn | wake => exact apart (other rfl)

end TinyCoroutine.Runtime

namespace TinyCoroutine.Program

open Foundation
open TinyCoroutine.Runtime

variable {σ ω : Type*} {Q : WaitQueues Handle σ ω} {s t : State σ} {a : Action ω}

/-! ### Nobody is lost between the objects and the scheduler -/

/-- What the calls on all workers have taken out of the objects and not rescheduled yet. -/
def State.woken (s : State σ) : Multiset Handle :=
  ∑ c ∈ Finset.range s.runtime.ctxs.length, (s.wakes c : Multiset Handle)

structure Attended (Q : WaitQueues Handle σ ω) (s : State σ) : Prop where
  valid : Q.Valid s.objects
  parked : (s.runtime.parked : Multiset Handle) = Q.waiting s.objects + s.woken
  busy : ∀ c, s.wakes c ≠ [] → ∃ h, s.runtime.Runs c h

theorem attended_start {n : Nat} {objects : σ} (hvalid : Q.Valid objects)
    (hnone : Q.waiting objects = 0) : Attended Q (start n objects) where
  valid := hvalid
  parked := by simp [start, Runtime.init, State.woken, hnone]
  busy c h := absurd rfl h

theorem State.woken_update {c : Nat} (hs : List Handle) (hc : c < s.runtime.ctxs.length) :
    ({ s with wakes := Function.update s.wakes c hs } : State σ).woken + s.wakes c =
      s.woken + hs := by
  have hmem := Finset.mem_range.mpr hc
  simp only [State.woken]
  rw [← Finset.add_sum_erase _ _ hmem,
    ← Finset.add_sum_erase _ (fun d => (s.wakes d : Multiset Handle)) hmem, Function.update_self]
  have hrest : ∑ d ∈ (Finset.range s.runtime.ctxs.length).erase c,
      (Function.update s.wakes c hs d : Multiset Handle) =
      ∑ d ∈ (Finset.range s.runtime.ctxs.length).erase c, (s.wakes d : Multiset Handle) := by
    refine Finset.sum_congr rfl fun d hd => ?_
    rw [Function.update_of_ne (Finset.ne_of_mem_erase hd)]
  rw [hrest]
  abel

theorem State.woken_runtime {r : Runtime.State} (hr : r.ctxs.length = s.runtime.ctxs.length) :
    ({ s with runtime := r } : State σ).woken = s.woken := by
  simp only [State.woken, hr]

theorem Attended.runtime {b : Runtime.Action} {r : Runtime.State} (I : Attended Q s)
    (hown : s.own b = true) (hr : Transition s.runtime b r) :
    Attended Q { s with runtime := r } where
  valid := I.valid
  parked := by
    have hparked : r.parked = s.runtime.parked := by
      refine hr.parked (fun c hb => ?_) fun c g hb => ?_ <;> simp [hb, State.own] at hown
    rw [State.woken_runtime hr.length_ctxs, hparked]
    exact I.parked
  busy c hc := by
    obtain ⟨h, hruns⟩ := I.busy c hc
    refine ⟨h, hr.keeps_running (fun b' hb => ?_) hruns⟩
    subst hb
    cases b' <;> simp_all [State.own]

theorem Attended.park {c : Nat} {o : ω} {x : Context} {h : Handle} {e : Effect σ Handle}
    {r : Runtime.State} (I : Attended Q s) (hx : s.runtime.ctxs[c]? = some x)
    (hw : x.worker = .running h none) (hnone : s.wakes c = []) (he : Q.run s.objects h o = some e)
    (hparks : e.parks = true) (hr : Transition s.runtime (.body c .park) r) :
    Attended Q { s with runtime := r, objects := e.state } where
  valid := Q.valid I.valid he
  parked := by
    have hconserved := Q.conserved I.valid he
    rw [Q.alone I.valid he hparks, hparks, if_pos rfl, Multiset.coe_nil, add_zero] at hconserved
    have hparked : r.parked = s.runtime.parked ++ [h] := hr.of_park hx hw
    have hwoken : ({ s with runtime := r, objects := e.state } : State σ).woken = s.woken :=
      State.woken_runtime hr.length_ctxs
    rw [hwoken, hparked, ← Multiset.coe_add, I.parked, hconserved, Multiset.coe_singleton]
    abel
  busy d hd := by
    obtain ⟨g, hruns⟩ := I.busy d hd
    refine ⟨g, hr.keeps_running (fun b hb => ?_) hruns⟩
    cases hb
    exact hd hnone

theorem Attended.operate {c : Nat} {o : ω} {x : Context} {h : Handle} {e : Effect σ Handle}
    (I : Attended Q s) (hx : s.runtime.ctxs[c]? = some x) (hw : x.worker = .running h none)
    (hnone : s.wakes c = []) (he : Q.run s.objects h o = some e) (hparks : e.parks = false) :
    Attended Q { s with objects := e.state, wakes := Function.update s.wakes c e.wakes } where
  valid := Q.valid I.valid he
  parked := by
    have hconserved := Q.conserved I.valid he
    rw [hparks, if_neg (by simp), add_zero] at hconserved
    have hwoken := State.woken_update e.wakes (List.getElem?_eq_some_iff.mp hx).1
    rw [hnone, Multiset.coe_nil, add_zero] at hwoken
    change _ = Q.waiting e.state +
      ({ s with wakes := Function.update s.wakes c e.wakes } : State σ).woken
    rw [hwoken, I.parked, ← hconserved]
    abel
  busy d hd := by
    by_cases hdc : d = c
    · subst hdc
      exact ⟨h, x, none, hx, hw⟩
    · exact I.busy d (by simpa [Function.update_of_ne hdc] using hd)

theorem Attended.reschedule {c : Nat} {g : Handle} {rest : List Handle} {r : Runtime.State}
    (I : Attended Q s) (hwakes : s.wakes c = g :: rest)
    (hr : Transition s.runtime (.body c (.wake g)) r) :
    Attended Q { s with runtime := r, wakes := Function.update s.wakes c rest } where
  valid := I.valid
  parked := by
    obtain ⟨hmem, hparked, h, x, p, hx, -⟩ := hr.of_wake
    have hlt : c < s.runtime.ctxs.length := hr.length_ctxs ▸ (List.getElem?_eq_some_iff.mp hx).1
    have hwoken := State.woken_update rest hlt
    rw [hwakes, ← Multiset.cons_coe, ← Multiset.singleton_add] at hwoken
    have hone : ({g} : Multiset Handle) + s.runtime.parked.erase g = s.runtime.parked := by
      rw [Multiset.singleton_add, ← Multiset.coe_erase]
      exact Multiset.cons_erase hmem
    have hsame :
        ({ s with runtime := r, wakes := Function.update s.wakes c rest } : State σ).woken =
          ({ s with wakes := Function.update s.wakes c rest } : State σ).woken :=
      State.woken_runtime (s := { s with wakes := Function.update s.wakes c rest }) hr.length_ctxs
    rw [hsame, hparked]
    refine add_left_cancel (a := {g}) ?_
    rw [hone, I.parked]
    refine add_right_cancel (b := (rest : Multiset Handle)) ?_
    rw [add_assoc, ← hwoken]
    abel
  busy d hd := by
    by_cases hdc : d = c
    · subst hdc
      exact hr.of_wake.2.2
    · obtain ⟨h, hruns⟩ := I.busy d (by simpa [Function.update_of_ne hdc] using hd)
      refine ⟨h, hr.keeps_running (fun b hb => ?_) hruns⟩
      cases hb
      exact hdc rfl

theorem Attended.preserved (I : Attended Q s) (h : Rule Q s a t) : Attended Q t := by
  cases h with
  | runtime hown hr => exact I.runtime hown (step_transition hr)
  | park hx hw hnone he hparks hr => exact I.park hx hw hnone he hparks (step_transition hr)
  | operate hx hw hnone he hparks => exact I.operate hx hw hnone he hparks
  | reschedule hwakes hr => exact I.reschedule hwakes (step_transition hr)

theorem attended_of_run {C : State σ → Action ω → Prop} {n : Nat} {objects : σ}
    (hvalid : Q.Valid objects) (hnone : Q.waiting objects = 0)
    (run : Run (step Q) C (start n objects) s) : Attended Q s :=
  run.invariant (attended_start hvalid hnone) fun I _ hs => I.preserved (step_rule hs)

/-- A handle that an operation has returned can be passed on as soon as the coroutine that called
the operation is back in its own code. -/
theorem Attended.can_reschedule {c : Nat} {x : Context} {g h : Handle} {rest : List Handle}
    (I : Attended Q s) (hwakes : s.wakes c = g :: rest) (hx : s.runtime.ctxs[c]? = some x)
    (hw : x.worker = .running h none) :
    g ∈ s.runtime.parked ∧ ∃ t, step Q s (.reschedule c) = some t := by
  have hmem : g ∈ s.runtime.parked := by
    rw [← Multiset.mem_coe, I.parked, Multiset.mem_add]
    refine .inr (Multiset.mem_sum.mpr ⟨c, Finset.mem_range.mpr ?_, ?_⟩)
    · exact (List.getElem?_eq_some_iff.mp hx).1
    · simp [hwakes]
  refine ⟨hmem, ?_⟩
  simp [step, hwakes, Runtime.step, hx, hw, bodyStep, hmem]

end TinyCoroutine.Program
