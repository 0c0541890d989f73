import TinyCoroutine.Task.Basic
import Mathlib.Data.Finset.Basic

/-!
# The frames under a wrapper

A wrapper awaits its task, and the task may await others: a chain of coroutines, of which the
innermost runs or is suspended. Coroutine `0` is the wrapper, `1` the task, the rest are those
that it and they await. A worker executes the chain inside `resume()` of the handle it has
popped, which is that of the innermost coroutine; a thread without a context executes it inline.
When `resume()` returns, the worker asks `done()` of the handle it popped, and destroys that
frame if so. The wrapper is detached; every other frame has a `Task` that destroys it, too.

Nothing goes wrong as long as no coroutine but the wrapper ends while a worker has its handle.
-/
namespace TinyCoroutine.WhenAll

open TinyCoroutine.Task (Status DoneAnswer)

/-- How far the wrapper is. -/
inductive Stage where
  | waiting
  | inTask
  | inWrapper
  | over
  deriving DecidableEq, Repr

/-- The stage after coroutine `c` has ended. -/
def Stage.after (stage : Stage) : Nat → Stage
  | 0 => .over
  | 1 => .inWrapper
  | _ => stage

structure Chain where
  /-- started and not ended, the innermost first -/
  stack : List Nat := []
  status : Nat → Status := fun c => if c < 2 then .initial else .none
  next : Nat := 2
  /-- those after the task whose `Task` object exists -/
  owned : Finset Nat := ∅
  /-- the worker that executes the chain is in `resume()` of this handle -/
  popped : Option Nat := none
  /-- workers have yet to ask `done()` of these -/
  held : List Nat := []
  /-- `done()` or `destroy()` was called on a frame that was destroyed before -/
  fault : Bool := false

namespace Chain

variable (x : Chain)

/-- What workers have popped and not asked `done()` of. -/
def handles : List Nat := x.popped.toList ++ x.held

/-- A worker resumes the wrapper, which awaits its task. -/
def start : Chain :=
  { x with
    stack := [1, 0]
    status := Function.update (Function.update x.status 0 (.awaiting 1)) 1 .running
    popped := some 0 }

/-- The innermost coroutine awaits another one. -/
def call : Option Chain :=
  match x.stack with
  | [] => none
  | c :: rest =>
    if 1 ≤ c ∧ x.status c = .running then
      some { x with
        stack := x.next :: c :: rest
        status := Function.update (Function.update x.status c (.awaiting x.next)) x.next .running
        next := x.next + 1
        owned := insert x.next x.owned }
    else none

/-- The innermost coroutine suspends, under its own handle. -/
def suspend : Option Chain :=
  match x.stack with
  | [] => none
  | c :: _ =>
    if 1 ≤ c ∧ x.status c = .running then
      some { x with
        status := Function.update x.status c .suspended
        popped := none, held := x.popped.toList ++ x.held }
    else none

def resume (byWorker : Bool) : Option Chain :=
  match x.stack with
  | [] => none
  | c :: _ =>
    if 1 ≤ c ∧ x.status c = .suspended then
      some { x with
        status := Function.update x.status c .running
        popped := if byWorker then some c else none }
    else none

/-- Coroutine `c`, the innermost one, comes to `final_suspend`. -/
def finish (c : Nat) : Option Chain :=
  match x.stack with
  | [] => none
  | d :: rest =>
    if d = c ∧ x.status c = .running then
      match rest with
      | [] =>
        some { x with
          stack := [], status := Function.update x.status c .final
          popped := none, held := x.popped.toList ++ x.held }
      | p :: _ =>
        some { x with
          stack := rest
          status := Function.update (Function.update x.status c .final) p .running }
    else none

def destroy (c : Nat) : Chain :=
  { x with
    status := Function.update x.status c .destroyed
    fault := x.fault || decide (x.status c = .destroyed) }

def ask (c : Nat) : Chain :=
  { x with
    held := x.held.erase c
    fault := x.fault || decide (x.status c = .destroyed) }

/-- A worker asks `done()`, and calls `destroy()` if the answer is yes. -/
def check (c : Nat) (answer : Bool) : Option Chain :=
  if c ∈ x.held ∧ DoneAnswer (x.status c) answer then
    some (if answer then (x.ask c).destroy c else x.ask c)
  else none

/-- `Task::~Task` of an awaited coroutine. -/
def drop (c : Nat) : Option Chain :=
  if c ∈ x.owned ∧ (x.status c).midway = false then
    some { x.destroy c with owned := x.owned.erase c }
  else none

/-- What is so at a stage; the vector or tuple of the tasks may be `released`. -/
structure Ok (stage : Stage) (released : Bool) : Prop where
  fresh : stage = .waiting → x.stack = [] ∧ x.handles = []
  nodup : x.stack.Nodup
  below : ∀ c ∈ x.stack, c < x.next
  two : 2 ≤ x.next
  midway : ∀ c ∈ x.stack, (x.status c).midway = true
  /-- What a worker has popped has not ended, the wrapper apart. -/
  popped : ∀ c ∈ x.handles, 1 ≤ c → c ∈ x.stack
  wrapperOnce : x.handles.count 0 ≤ 1
  wrapper : x.status 0 = .destroyed → 0 ∉ x.handles
  task : x.status 1 = .destroyed → released = true
  taskEnded : stage = .inWrapper ∨ stage = .over → 1 ∉ x.stack
  wrapperIn : stage = .inTask ∨ stage = .inWrapper → 0 ∈ x.stack
  owned : ∀ c ∈ x.owned, 2 ≤ c ∧ c < x.next ∧ x.status c ≠ .destroyed
  noFault : x.fault = false

variable {x} {y : Chain} {stage : Stage} {released : Bool} {c : Nat}

theorem Ok.init : Ok ({} : Chain) .waiting released := by
  constructor <;> simp [handles]

theorem Ok.stage_ne (h : x.Ok stage released) (hc : c ∈ x.stack) : stage ≠ .waiting := by
  intro hstage
  rw [(h.fresh hstage).1] at hc
  cases hc

theorem Ok.start (h : x.Ok .waiting released) : x.start.Ok .inTask released := by
  obtain ⟨-, hnone⟩ := h.fresh rfl
  have hheld : x.held = [] := (List.append_eq_nil_iff.mp hnone).2
  have hother : ∀ d, 2 ≤ d → x.start.status d = x.status d := by
    intro d hd
    have hzero : d ≠ 0 := by omega
    have hone : d ≠ 1 := by omega
    simp [Chain.start, hzero, hone]
  refine ⟨by simp, by simp [Chain.start], fun c hc => ?_, h.two, ?_, ?_, ?_, ?_, ?_, by simp,
    by simp [Chain.start], fun d hd => ?_, h.noFault⟩
  · have htwo := h.two
    have hlt : c < 2 := by
      simp only [Chain.start, List.mem_cons, List.not_mem_nil, or_false] at hc
      omega
    exact hlt.trans_le htwo
  · simp [Chain.start, Status.midway]
  · simp [Chain.start, handles, hheld]
  · simp [Chain.start, handles, hheld]
  · simp [Chain.start]
  · simp [Chain.start]
  · rw [hother d (h.owned d hd).1]
    exact h.owned d hd

theorem Ok.midway_ne (h : x.Ok stage released) (hc : c ∈ x.stack) :
    x.status c ≠ .destroyed ∧ x.status c ≠ .final := by
  have hmidway := h.midway c hc
  constructor <;> intro hs <;> simp [hs, Status.midway] at hmidway

/-- A step that changes only the status of coroutines of the stack, which stay midway. -/
theorem Ok.switch (h : x.Ok stage released) (hstarted : stage ≠ .waiting)
    (hstack : y.stack = x.stack) (hnext : y.next = x.next) (howned : y.owned = x.owned)
    (hfault : y.fault = x.fault)
    (hmidway : ∀ d ∈ x.stack, (y.status d).midway = true)
    (hstatus : ∀ d, d ∉ x.stack → y.status d = x.status d)
    (hpopped : ∀ d ∈ y.handles, 1 ≤ d → d ∈ x.stack)
    (honce : y.handles.count 0 ≤ x.handles.count 0) : y.Ok stage released := by
  have hdead : ∀ d, y.status d = .destroyed → x.status d = .destroyed := by
    intro d hd
    by_cases hmem : d ∈ x.stack
    · have hlive := hmidway d hmem
      simp [hd, Status.midway] at hlive
    · rw [← hstatus d hmem, hd]
  have hone := h.wrapperOnce
  refine ⟨fun hs => absurd hs hstarted, hstack ▸ h.nodup, hstack ▸ hnext ▸ h.below, hnext ▸ h.two,
    hstack ▸ hmidway, hstack ▸ hpopped, honce.trans hone, fun hd => ?_,
    fun hd => h.task (hdead 1 hd), hstack ▸ h.taskEnded, hstack ▸ h.wrapperIn, fun d hd => ?_,
    hfault ▸ h.noFault⟩
  · have hnone := List.count_eq_zero.mpr (h.wrapper (hdead 0 hd))
    exact List.count_eq_zero.mp (by omega)
  · obtain ⟨htwo, hlt, hlive⟩ := h.owned d (howned ▸ hd)
    exact ⟨htwo, hnext ▸ hlt, fun hs => hlive (hdead d hs)⟩

theorem Ok.suspend (h : x.Ok stage released) (hy : x.suspend = some y) : y.Ok stage released := by
  unfold Chain.suspend at hy
  split at hy
  · cases hy
  rename_i c rest hstack
  split_ifs at hy with hc
  obtain rfl := Option.some.inj hy
  have hmem : c ∈ x.stack := hstack ▸ List.mem_cons_self
  refine h.switch (h.stage_ne hmem) rfl rfl rfl rfl (fun d hd => ?_) (fun d hd => ?_) h.popped
    (Nat.le_refl _)
  · by_cases hdc : d = c
    · simp [hdc, Status.midway]
    · simpa [hdc] using h.midway d hd
  · have hdc : d ≠ c := by
      rintro rfl
      exact hd hmem
    exact Function.update_of_ne hdc _ _

theorem Ok.resume {byWorker : Bool} (h : x.Ok stage released) (hy : x.resume byWorker = some y) :
    y.Ok stage released := by
  unfold Chain.resume at hy
  split at hy
  · cases hy
  rename_i c rest hstack
  split at hy <;> [rename_i hc; cases hy]
  obtain rfl := Option.some.inj hy
  have hmem : c ∈ x.stack := hstack ▸ List.mem_cons_self
  refine h.switch (h.stage_ne hmem) rfl rfl rfl rfl (fun d hd => ?_) (fun d hd => ?_)
    (fun d hd hpos => ?_) ?_
  · by_cases hdc : d = c
    · simp [hdc, Status.midway]
    · simpa [hdc] using h.midway d hd
  · have hdc : d ≠ c := by
      rintro rfl
      exact hd hmem
    exact Function.update_of_ne hdc _ _
  · have hcases : d = c ∨ d ∈ x.held := by
      cases byWorker
      · exact .inr (by simpa [handles] using hd)
      · simpa [handles] using hd
    obtain rfl | hheld := hcases
    · exact hmem
    · exact h.popped d (List.mem_append_right _ hheld) hpos
  · have hne : c ≠ 0 := Nat.one_le_iff_ne_zero.mp hc.1
    cases byWorker <;> simp [handles, hne]

theorem Ok.call (h : x.Ok stage released) (hy : x.call = some y) : y.Ok stage released := by
  unfold Chain.call at hy
  split at hy
  · cases hy
  rename_i c rest hstack
  split_ifs at hy with hc
  obtain rfl := Option.some.inj hy
  have hmem : c ∈ x.stack := hstack ▸ List.mem_cons_self
  have hlt := h.below c hmem
  have htwo := h.two
  have hfresh : x.next ∉ x.stack := fun hin => absurd (h.below _ hin) (Nat.lt_irrefl _)
  have hother : ∀ d, d ≠ c → d ≠ x.next → Function.update (Function.update x.status c
      (.awaiting x.next)) x.next .running d = x.status d := by
    intro d hdc hdn
    simp [hdc, hdn]
  have hdead : ∀ d, Function.update (Function.update x.status c (.awaiting x.next)) x.next
      .running d = .destroyed → x.status d = .destroyed := by
    intro d hd
    by_cases hdn : d = x.next
    · simp [hdn] at hd
    · by_cases hdc : d = c
      · simp [hdc, hlt.ne] at hd
      · rwa [hother d hdc hdn] at hd
  refine ⟨fun hs => absurd hs (h.stage_ne hmem), ?_, ?_, Nat.le_succ_of_le htwo, ?_, ?_,
    h.wrapperOnce, ?_, ?_, ?_, ?_, ?_, h.noFault⟩
  · exact hstack ▸ List.nodup_cons.mpr ⟨hfresh, h.nodup⟩
  · intro d hd
    obtain rfl | hd := List.mem_cons.mp hd
    · exact Nat.lt_succ_self _
    · exact Nat.lt_succ_of_lt (h.below d (hstack ▸ hd))
  · intro d hd
    obtain rfl | hd := List.mem_cons.mp hd
    · simp [Status.midway]
    · have hdn : d ≠ x.next := (h.below d (hstack ▸ hd)).ne
      by_cases hdc : d = c
      · simp [hdc, hlt.ne, Status.midway]
      · simpa only [hother d hdc hdn] using h.midway d (hstack ▸ hd)
  · exact fun d hd hpos => List.mem_cons_of_mem _ (hstack ▸ h.popped d hd hpos)
  · exact fun hd => h.wrapper (hdead 0 hd)
  · exact fun hd => h.task (hdead 1 hd)
  · intro hended hin
    obtain hone | hin := List.mem_cons.mp hin
    · omega
    · exact h.taskEnded hended (hstack ▸ hin)
  · exact fun hs => List.mem_cons_of_mem _ (hstack ▸ h.wrapperIn hs)
  · intro d hd
    obtain rfl | hd := Finset.mem_insert.mp hd
    · exact ⟨htwo, Nat.lt_succ_self _, by simp⟩
    · obtain ⟨hpos, hbelow, hlive⟩ := h.owned d hd
      exact ⟨hpos, Nat.lt_succ_of_lt hbelow, fun hs => hlive (hdead d hs)⟩

/-- The innermost coroutine leaves the stack: no worker has its handle, or it is the wrapper. -/
theorem Ok.pop {rest : List Nat} (h : x.Ok stage released) (hstack : x.stack = c :: rest)
    (hfree : c = 0 ∨ c ∉ x.handles) (hzero : c = 0 → stage = .inWrapper)
    (hone : c = 1 → stage = .inTask) (hrest : y.stack = rest) (hnext : y.next = x.next)
    (howned : y.owned = x.owned) (hhandles : y.handles = x.handles) (hfault : y.fault = x.fault)
    (hmidway : ∀ d ∈ rest, (y.status d).midway = true)
    (hdead : ∀ d, y.status d = .destroyed → x.status d = .destroyed) :
    y.Ok (stage.after c) released := by
  subst hrest
  have hnodup := h.nodup
  rw [hstack] at hnodup
  obtain ⟨hout, hnodup⟩ := List.nodup_cons.mp hnodup
  have hkeep : ∀ d ∈ y.stack, d ∈ x.stack := fun d hd => hstack ▸ List.mem_cons_of_mem _ hd
  have hmem : c ∈ x.stack := hstack ▸ List.mem_cons_self
  refine ⟨fun hs => ?_, hnodup, fun d hd => hnext ▸ h.below d (hkeep d hd), hnext ▸ h.two,
    hmidway, ?_, hhandles ▸ h.wrapperOnce, fun hs => hhandles ▸ h.wrapper (hdead 0 hs),
    fun hs => h.task (hdead 1 hs), fun hs hin => ?_, fun hs => ?_, fun d hd => ?_,
    hfault ▸ h.noFault⟩
  · obtain _ | _ | c := c
    · cases hs
    · cases hs
    · exact absurd hs (h.stage_ne hmem)
  · intro d hd hpos
    rw [hhandles] at hd
    have hin := h.popped d hd hpos
    rw [hstack] at hin
    obtain rfl | hin := List.mem_cons.mp hin
    · obtain rfl | hfree := hfree
      · omega
      · exact absurd hd hfree
    · exact hin
  · obtain _ | _ | c := c
    · exact h.taskEnded (.inl (hzero rfl)) (hkeep 1 hin)
    · exact hout hin
    · exact h.taskEnded hs (hkeep 1 hin)
  · have hin : c ≠ 0 → 0 ∈ x.stack → 0 ∈ y.stack := by
      intro hne hin
      rw [hstack] at hin
      exact (List.mem_cons.mp hin).resolve_left hne.symm
    obtain _ | _ | c := c
    · simp [Stage.after] at hs
    · exact hin (by decide) (h.wrapperIn (.inl (hone rfl)))
    · exact hin (by omega) (h.wrapperIn hs)
  · obtain ⟨hpos, hlt, hlive⟩ := h.owned d (howned ▸ hd)
    exact ⟨hpos, hnext ▸ hlt, fun hs => hlive (hdead d hs)⟩

theorem Ok.finish (h : x.Ok stage released) (hy : x.finish c = some y)
    (hfree : c = 0 ∨ c ∉ x.handles) (hzero : c = 0 → stage = .inWrapper)
    (hone : c = 1 → stage = .inTask) : y.Ok (stage.after c) released := by
  unfold Chain.finish at hy
  split at hy
  · cases hy
  rename_i d rest hstack
  split at hy <;> [rename_i hc; cases hy]
  obtain ⟨rfl, -⟩ := hc
  have hnodup := h.nodup
  rw [hstack] at hnodup
  split at hy <;> obtain rfl := Option.some.inj hy
  · refine h.pop hstack hfree hzero hone rfl rfl rfl (by simp [handles]) rfl (by simp)
      fun e he => ?_
    by_cases hed : e = d
    · simp [hed] at he
    · simpa [hed] using he
  · rename_i p tail
    have hdp : d ≠ p := fun hdp => (List.nodup_cons.mp hnodup).1 (hdp ▸ List.mem_cons_self)
    refine h.pop hstack hfree hzero hone rfl rfl rfl rfl rfl (fun e he => ?_) fun e he => ?_
    · by_cases hep : e = p
      · simp [hep, Status.midway]
      · have hed : e ≠ d := fun hed => (List.nodup_cons.mp hnodup).1 (hed ▸ he)
        simpa [hep, hed] using h.midway e (hstack ▸ List.mem_cons_of_mem _ he)
    · by_cases hep : e = p
      · simp [hep] at he
      · by_cases hed : e = d
        · simp [hed, hdp] at he
        · simpa [hep, hed] using he

/-- A frame is destroyed that is not on the stack, was not destroyed before and that no worker
has the handle of. -/
theorem Ok.destroy {released' : Bool} (h : x.Ok stage released) (hout : c ∉ x.stack)
    (hlive : x.status c ≠ .destroyed) (hfree : c ∉ x.handles) (howned : c ∉ x.owned)
    (hreleased : c = 1 ∨ released = true → released' = true) :
    (x.destroy c).Ok stage released' := by
  have hother : ∀ d, d ≠ c → (x.destroy c).status d = x.status d := fun d hd =>
    Function.update_of_ne hd _ _
  refine ⟨h.fresh, h.nodup, h.below, h.two, fun d hd => ?_, h.popped, h.wrapperOnce, fun hs => ?_,
    fun hs => ?_, h.taskEnded, h.wrapperIn, fun d hd => ?_, ?_⟩
  · rw [hother d fun hdc => hout (hdc ▸ hd)]
    exact h.midway d hd
  · by_cases hc : c = 0
    · exact hc ▸ hfree
    · exact h.wrapper ((hother 0 (Ne.symm hc)).symm.trans hs)
  · by_cases hc : c = 1
    · exact hreleased (.inl hc)
    · exact hreleased (.inr (h.task ((hother 1 (Ne.symm hc)).symm.trans hs)))
  · have hdc : d ≠ c := fun hdc => howned (hdc ▸ hd)
    rw [hother d hdc]
    exact h.owned d hd
  · simp [Chain.destroy, h.noFault, hlive]

/-- A worker that asks `done()` finds the wrapper, or a coroutine that has not ended. -/
theorem Ok.check {answer : Bool} (h : x.Ok stage released) (hy : x.check c answer = some y) :
    y.Ok stage released := by
  unfold Chain.check at hy
  split at hy <;> [rename_i hc; cases hy]
  obtain ⟨hheld, hanswer⟩ := hc
  have hmem : c ∈ x.handles := List.mem_append_right _ hheld
  have hlive : x.status c ≠ .destroyed := by
    by_cases hzero : c = 0
    · exact fun hs => h.wrapper (hzero ▸ hs) (hzero ▸ hmem)
    · exact (h.midway_ne (h.popped c hmem (Nat.one_le_iff_ne_zero.mpr hzero))).1
  have hdecide : answer = decide (x.status c = .final) := hanswer.resolve_left hlive
  have hsub : ∀ d ∈ x.popped.toList ++ x.held.erase c, d ∈ x.handles := by
    intro d hd
    obtain hd | hd := List.mem_append.mp hd
    · exact List.mem_append_left _ hd
    · exact List.mem_append_right _ (List.mem_of_mem_erase hd)
  have hcount : (x.popped.toList ++ x.held.erase c).count 0 ≤ x.handles.count 0 := by
    simp only [handles, List.count_append]
    exact Nat.add_le_add_left (List.Sublist.count_le 0 List.erase_sublist) _
  -- the handle is gone from those that workers have
  have hasked : (x.ask c).Ok stage released :=
    ⟨fun hs => absurd hmem (by simp [(h.fresh hs).2]), h.nodup, h.below, h.two, h.midway,
      fun d hd => h.popped d (hsub d hd), hcount.trans h.wrapperOnce,
      fun hs hin => h.wrapper hs (hsub 0 hin), h.task, h.taskEnded, h.wrapperIn, h.owned,
      by simp [ask, h.noFault, hlive]⟩
  obtain rfl := Option.some.inj hy
  cases hans : answer with
  | false => exact hasked
  | true =>
    have hfinal : x.status c = .final := by simpa [hans] using hdecide.symm
    have hout : c ∉ x.stack := fun hin => (h.midway_ne hin).2 hfinal
    have hzero : c = 0 := by
      by_contra hne
      exact hout (h.popped c hmem (Nat.one_le_iff_ne_zero.mpr hne))
    subst hzero
    have hfree : 0 ∉ (x.ask 0).handles := by
      have hone := h.wrapperOnce
      have hpos := List.count_pos_iff.mpr hheld
      refine List.count_eq_zero.mp ?_
      simp only [handles, ask, List.count_append, List.count_erase_self] at hone ⊢
      omega
    exact hasked.destroy hout hlive hfree (fun hin => absurd (h.owned 0 hin).1 (by omega)) (by simp)

theorem Ok.drop (h : x.Ok stage released) (hy : x.drop c = some y) : y.Ok stage released := by
  unfold Chain.drop at hy
  split_ifs at hy with hc
  obtain ⟨howned, hended⟩ := hc
  obtain rfl := Option.some.inj hy
  obtain ⟨htwo, hlt, hlive⟩ := h.owned c howned
  have hout : c ∉ x.stack := fun hin => by simp [h.midway c hin] at hended
  have hfree : c ∉ x.handles := fun hin => hout (h.popped c hin (by omega))
  have hless : Ok { x with owned := x.owned.erase c } stage released :=
    ⟨h.fresh, h.nodup, h.below, h.two, h.midway, h.popped, h.wrapperOnce, h.wrapper, h.task,
      h.taskEnded, h.wrapperIn, fun d hd => h.owned d (Finset.mem_of_mem_erase hd), h.noFault⟩
  refine hless.destroy hout hlive hfree (Finset.notMem_erase c _) ?_
  rintro (rfl | hreleased)
  · omega
  · exact hreleased

/-- The destructor of the vector or tuple destroys the task, which has ended. -/
theorem Ok.release (h : x.Ok stage false) (hstage : stage = .inWrapper ∨ stage = .over) :
    (x.destroy 1).Ok stage true := by
  have hout := h.taskEnded hstage
  refine h.destroy hout (fun hs => by simpa using h.task hs) ?_ ?_ (by simp)
  · exact fun hin => hout (h.popped 1 hin (Nat.le_refl 1))
  · exact fun hin => absurd (h.owned 1 hin).1 (by omega)

end Chain

end TinyCoroutine.WhenAll
