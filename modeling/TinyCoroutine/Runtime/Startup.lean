import TinyCoroutine.Basic
import TinyCoroutine.Foundation.Run
import Mathlib.Data.List.Nodup

/-!
# An `init` that throws

`Scheduler::init` constructs its contexts, starts their workers and sets `initialized_` at the
end. The construction of a context throws when `io_uring_queue_init` fails, and the start of a
thread may throw; what was done before stays as it is. `stop()` does nothing as long as
`initialized_` is false, so it is the destructor of a context that joins its worker, and that
asks the worker to stop without notifying it.

The scheduler is seen as `init`, `stop` and the destructor see it: the contexts with their
workers, the dispatcher and the flags.
-/
namespace TinyCoroutine.Runtime

open Foundation

/-- The thread in `worker_`. One that is blocked has found nothing to do and waits for a
notification. -/
inductive Worker where
  | absent
  | running
  | blocked
  deriving DecidableEq, Repr

/-- `request_stop` and `join` without a notification return: a worker that runs sees the request
before it blocks. -/
def Worker.joins : Worker → Bool
  | .blocked => false
  | _ => true

/-- A context, and how often it was started. -/
structure StartedContext where
  id : Nat
  worker : Worker := .absent
  starts : Nat := 0
  deriving DecidableEq, Repr

/-- What the calls that leave the library answer during an `init`. -/
structure InitEnv where
  /-- The value of `io_uring_queue_init` in the construction of context `i`. -/
  queueInit : Nat → Int := fun _ => 0
  /-- What the creation of the thread of the context at position `i` throws. -/
  startThread : Nat → Option Exn := fun _ => none

inductive InitOutcome where
  | returned
  | threw (e : Exn)
  /-- The call waits for a worker that nobody wakes. -/
  | waits
  deriving DecidableEq, Repr

structure Startup where
  contexts : List StartedContext := []
  /-- `dispatcher_`. -/
  contextCount : Nat := 1
  next : Nat := 0
  pending : Nat := 0
  stopRequested : Bool := false
  accepting : Bool := false
  initialized : Bool := false
  deriving DecidableEq, Repr

namespace Startup

def workerCount (contextCount : Nat) : Nat := if contextCount = 0 then 1 else contextCount

/-- The loop that constructs the contexts. -/
def constructLoop (env : InitEnv) (s : Startup) : List Nat → InitOutcome × Startup
  | [] => (.returned, s)
  | i :: todo =>
    if env.queueInit i < 0 then (.threw (.runtimeError "io_uring_queue_init failed"), s)
    else constructLoop env { s with contexts := s.contexts ++ [{ id := i }] } todo

/-- The loop that starts the contexts. A thread that `worker_` still holds is asked to stop and
joined when the new one is assigned. -/
def startLoop (env : InitEnv) (s : Startup) (started : List StartedContext) :
    List StartedContext → InitOutcome × Startup
  | [] => (.returned, { s with contexts := started })
  | x :: todo =>
    match env.startThread started.length with
    | some e => (.threw e, { s with contexts := started ++ x :: todo })
    | none =>
      let x' := { x with worker := .running, starts := x.starts + 1 }
      if x.worker.joins then startLoop env s (started ++ [x']) todo
      else (.waits, { s with contexts := started ++ x' :: todo })

def init (s : Startup) (env : InitEnv) (contextCount : Nat) : InitOutcome × Startup :=
  if s.initialized then (.returned, s)
  else
    match constructLoop env s (List.range (workerCount contextCount)) with
    | (.returned, s) =>
      match startLoop env s [] s.contexts with
      | (.returned, s) =>
        (.returned,
          { s with
            contextCount := workerCount contextCount
            next := 0
            pending := 0
            stopRequested := false
            accepting := true
            initialized := true })
      | failed => failed
    | failed => failed

/-- `notify_stop`: the worker is notified and no longer blocked. -/
def notifyStop (x : StartedContext) : StartedContext :=
  if x.worker = .blocked then { x with worker := .running } else x

/-- The joins of all workers, one after the other. -/
def joinAll (xs : List StartedContext) : InitOutcome :=
  if xs.all fun x => x.worker.joins then .returned else .waits

/-- `shutdown_contexts()`. -/
def shutdownContexts (s : Startup) : InitOutcome × Startup :=
  if !s.initialized then (.returned, s)
  else (joinAll (s.contexts.map notifyStop), { s with contexts := [], initialized := false })

def stop (s : Startup) : InitOutcome × Startup :=
  if !s.initialized then (.returned, s)
  else shutdownContexts { s with accepting := false, stopRequested := true }

/-- `loop()`, when all tasks have completed. -/
def loop (s : Startup) : InitOutcome × Startup :=
  if !s.initialized then
    (.threw (.logicError "runtime::Scheduler::init must be called before loop"), s)
  else shutdownContexts { s with accepting := false }

/-- `~Scheduler`: `stop()` and the destruction of `contexts_`. -/
def destroy (s : Startup) : InitOutcome :=
  match s.stop with
  | (.returned, s) => joinAll s.contexts
  | (failed, _) => failed

/-- Workers that have nothing to do block. -/
def settle (s : Startup) (blocks : Nat → Bool) : Startup :=
  { s with
    contexts := s.contexts.mapIdx fun i x =>
      if blocks i && x.worker = .running then { x with worker := .blocked } else x }

/-! ## All or nothing -/

/-- An `init(m)` that has started a new scheduler. -/
structure Started (m : Nat) (outcome : InitOutcome) (s : Startup) : Prop where
  returned : outcome = .returned
  initialized : s.initialized = true
  count : s.contexts.length = max m 1
  ids : (s.contexts.map StartedContext.id).Nodup
  /-- The positions that `dispatch()` gives are those of the contexts. -/
  dispatched : ∀ i, i < s.contexts.length ↔ ∃ next, next % s.contextCount = i
  once : ∀ x ∈ s.contexts, x.starts = 1 ∧ x.worker = .running

/-- The scheduler `t` that a failed `init` leaves of `s`. -/
structure AllOrNothing (s t : Startup) : Prop where
  unchanged : t = s
  contexts : t.contexts = []
  initialized : t.initialized = false
  stop : ∀ blocks, (t.settle blocks).stop.1 = .returned
  destroy : ∀ blocks, (t.settle blocks).destroy = .returned
  later : ∀ blocks env m, (∀ i, 0 ≤ env.queueInit i) → (∀ i, env.startThread i = none) →
    Started m ((t.settle blocks).init env m).1 ((t.settle blocks).init env m).2

inductive StartupAction where
  | init (env : InitEnv) (contextCount : Nat)
  | stop
  | loop
  | settle (blocks : Nat → Bool)

def StartupAction.run (s : Startup) : StartupAction → InitOutcome × Startup
  | .init env contextCount => s.init env contextCount
  | .stop => s.stop
  | .loop => s.loop
  | .settle blocks => (.returned, s.settle blocks)

/-- The calls on a scheduler; one that waits for ever has no next state. -/
def step (s : Startup) (a : StartupAction) : Option Startup :=
  match a.run s with
  | (.waits, _) => none
  | (_, t) => some t

/-- If anything fails during an `init`, the construction of the first context does. -/
def FailsFirst (_ : Startup) : StartupAction → Prop
  | .init env contextCount =>
    (∃ i < workerCount contextCount, env.queueInit i < 0 ∨ (env.startThread i).isSome) →
      env.queueInit 0 < 0
  | _ => True

instance (s : Startup) (a : StartupAction) : Decidable (s.FailsFirst a) :=
  match a with
  | .init _ _ => inferInstanceAs (Decidable (_ → _))
  | .stop | .loop | .settle _ => .isTrue trivial

/-! ## The two loops -/

section

variable {env : InitEnv} {s t : Startup} {n : Nat}

theorem workerCount_eq (n : Nat) : workerCount n = max n 1 := by
  unfold workerCount
  split <;> omega

theorem constructLoop_ok (s : Startup) {todo : List Nat} (h : ∀ i ∈ todo, 0 ≤ env.queueInit i) :
    constructLoop env s todo =
      (.returned, { s with contexts := s.contexts ++ todo.map fun i => { id := i } }) := by
  induction todo generalizing s with
  | nil => simp [constructLoop]
  | cons i todo ih =>
    have hi : ¬env.queueInit i < 0 := by
      have := h i List.mem_cons_self
      omega
    rw [constructLoop, if_neg hi, ih _ fun j hj => h j (List.mem_cons_of_mem _ hj)]
    simp

/-- Contexts that have been constructed stay. -/
theorem length_constructLoop (env : InitEnv) (s : Startup) (todo : List Nat) :
    s.contexts.length ≤ (constructLoop env s todo).2.contexts.length := by
  induction todo generalizing s with
  | nil => exact Nat.le_refl _
  | cons i todo ih =>
    unfold constructLoop
    split
    · exact Nat.le_refl _
    · refine Nat.le_trans ?_ (ih _)
      simp

/-- A context that is started for the first time. -/
def firstStart (x : StartedContext) : StartedContext := { x with worker := .running, starts := 1 }

theorem startLoop_ok (s : Startup) (started : List StartedContext) {todo : List StartedContext}
    (hthreads : ∀ i < started.length + todo.length, env.startThread i = none)
    (hnew : ∀ x ∈ todo, x.worker = .absent ∧ x.starts = 0) :
    startLoop env s started todo =
      (.returned, { s with contexts := started ++ todo.map firstStart }) := by
  induction todo generalizing started with
  | nil => simp [startLoop]
  | cons x todo ih =>
    have hthread := hthreads started.length (by simp)
    obtain ⟨habsent, hstarts⟩ := hnew x List.mem_cons_self
    have hrest := ih (started ++ [firstStart x])
      (fun i hi => hthreads i (by simp at hi ⊢; omega))
      fun y hy => hnew y (List.mem_cons_of_mem _ hy)
    simp only [startLoop, hthread, habsent, hstarts, Worker.joins, if_true]
    simpa [firstStart] using hrest

theorem length_startLoop (env : InitEnv) (s : Startup) (started todo : List StartedContext) :
    (startLoop env s started todo).2.contexts.length = started.length + todo.length := by
  induction todo generalizing started with
  | nil => rfl
  | cons x todo ih =>
    unfold startLoop
    split
    · simp
    · simp only
      split
      · rw [ih]
        simp
        omega
      · simp

/-! ## Where nothing has been constructed -/

/-- Without contexts, an `init` in which nothing fails starts the scheduler. -/
theorem init_started (hcontexts : s.contexts = []) (hnot : s.initialized = false)
    (hrings : ∀ i < workerCount n, 0 ≤ env.queueInit i)
    (hthreads : ∀ i < workerCount n, env.startThread i = none) :
    Started n (s.init env n).1 (s.init env n).2 := by
  have hconstruct : constructLoop env s (List.range (workerCount n)) = _ :=
    constructLoop_ok s fun i hi => hrings i (List.mem_range.mp hi)
  rw [hcontexts, List.nil_append] at hconstruct
  have hstart : ∀ s : Startup, startLoop env s []
      ((List.range (workerCount n)).map fun i => { id := i }) = _ := fun s =>
    startLoop_ok s [] (by simpa using hthreads) (by simp)
  have hpos : 0 < workerCount n := by
    rw [workerCount_eq]
    omega
  unfold init
  rw [if_neg (by simp [hnot]), hconstruct]
  simp only [hstart]
  refine ⟨rfl, rfl, ?_, ?_, ?_, ?_⟩
  · simp [workerCount_eq]
  · simpa [firstStart, Function.comp_def] using List.nodup_range
  · intro i
    simp only [List.nil_append, List.length_map, List.length_range]
    refine ⟨fun hi => ⟨i, Nat.mod_eq_of_lt hi⟩, ?_⟩
    rintro ⟨next, rfl⟩
    exact Nat.mod_lt _ hpos
  · simp [firstStart]

theorem init_contexts (hfirst : ¬env.queueInit 0 < 0) (hnot : s.initialized = false) (n : Nat) :
    (s.init env n).2.contexts ≠ [] := by
  have hpos : ∃ k, workerCount n = k + 1 := ⟨workerCount n - 1, by rw [workerCount_eq]; omega⟩
  obtain ⟨k, hk⟩ := hpos
  have hconstructed : 0 <
      (constructLoop env s (List.range (workerCount n))).2.contexts.length := by
    rw [hk, List.range_succ_eq_map, constructLoop, if_neg hfirst]
    exact Nat.lt_of_lt_of_le (by simp) (length_constructLoop env _ _)
  rw [← List.length_pos_iff]
  unfold init
  rw [if_neg (by simp [hnot])]
  split
  · rename_i t ht
    rw [ht] at hconstructed
    have hstarted := length_startLoop env t [] t.contexts
    rw [List.length_nil, Nat.zero_add] at hstarted
    split
    · rename_i u hu
      rw [hu] at hstarted
      exact hstarted ▸ hconstructed
    · exact hstarted ▸ hconstructed
  · exact hconstructed

theorem init_of_first (hfirst : env.queueInit 0 < 0) (hnot : s.initialized = false) (n : Nat) :
    s.init env n = (.threw (.runtimeError "io_uring_queue_init failed"), s) := by
  have hpos : ∃ k, workerCount n = k + 1 := ⟨workerCount n - 1, by rw [workerCount_eq]; omega⟩
  obtain ⟨k, hk⟩ := hpos
  unfold init
  rw [if_neg (by simp [hnot]), hk, List.range_succ_eq_map, constructLoop, if_pos hfirst]

theorem settle_of_nil (h : s.contexts = []) (blocks : Nat → Bool) : s.settle blocks = s := by
  cases s
  cases h
  rfl

theorem AllOrNothing.of_nil (hcontexts : s.contexts = []) (hnot : s.initialized = false) :
    AllOrNothing s s where
  unchanged := rfl
  contexts := hcontexts
  initialized := hnot
  stop blocks := by simp [settle_of_nil hcontexts, Startup.stop, hnot]
  destroy blocks := by
    simp [settle_of_nil hcontexts, Startup.destroy, Startup.stop, hnot, joinAll, hcontexts]
  later blocks env m hrings hthreads := by
    rw [settle_of_nil hcontexts]
    exact init_started hcontexts hnot (fun i _ => hrings i) fun i _ => hthreads i

/-- There are contexts only while the scheduler is initialized. -/
def Rested (s : Startup) : Prop := s.initialized = false → s.contexts = []

theorem Rested.shutdownContexts (h : s.Rested) : s.shutdownContexts.2.Rested := by
  unfold Startup.shutdownContexts
  split
  · exact h
  · exact fun _ => rfl

theorem Rested.init (h : s.Rested) (hfails : s.FailsFirst (.init env n)) :
    (s.init env n).2.Rested := by
  intro hnot'
  cases hs : s.initialized with
  | true => simp [Startup.init, hs] at hnot'
  | false =>
    by_cases hfirst : env.queueInit 0 < 0
    · rw [init_of_first hfirst hs]
      exact h hs
    · have hrings : ∀ i < workerCount n, 0 ≤ env.queueInit i := fun i hi =>
        Int.not_lt.mp fun hlt => hfirst (hfails ⟨i, hi, .inl hlt⟩)
      have hthreads : ∀ i < workerCount n, env.startThread i = none := fun i hi =>
        Option.not_isSome_iff_eq_none.mp fun hsome => hfirst (hfails ⟨i, hi, .inr hsome⟩)
      have hstarted := init_started (h hs) hs hrings hthreads
      rw [hstarted.initialized] at hnot'
      cases hnot'

theorem Rested.stop (h : s.Rested) : s.stop.2.Rested := by
  unfold Startup.stop
  split
  · exact h
  · exact Rested.shutdownContexts fun hnot => h hnot

theorem Rested.loop (h : s.Rested) : s.loop.2.Rested := by
  unfold Startup.loop
  split
  · exact h
  · exact Rested.shutdownContexts fun hnot => h hnot

theorem Rested.settle (h : s.Rested) (blocks : Nat → Bool) : (s.settle blocks).Rested := by
  intro hnot
  rw [settle_of_nil (h hnot)]
  exact h hnot

theorem Rested.run {a : StartupAction} (h : s.Rested) (hfails : s.FailsFirst a) :
    (a.run s).2.Rested := by
  cases a with
  | init env n => exact h.init hfails
  | stop => exact h.stop
  | loop => exact h.loop
  | settle blocks => exact h.settle blocks

theorem Rested.step {a : StartupAction} (h : s.Rested) (hfails : s.FailsFirst a)
    (ht : s.step a = some t) : t.Rested := by
  have hrun := h.run hfails
  unfold Startup.step at ht
  split at ht
  · cases ht
  · rename_i hu
    cases ht
    rwa [hu] at hrun

end

/-- A failed `init` leaves the scheduler as it was exactly if it fails at the construction of its
first context. -/
theorem init_all_or_nothing {s t : Startup} (run : Run step FailsFirst {} s) {env : InitEnv}
    {n : Nat} {e : Exn} (hinit : s.init env n = (.threw e, t)) :
    AllOrNothing s t ↔ env.queueInit 0 < 0 := by
  have hrested : s.Rested := run.invariant (fun _ => rfl) fun h hfails ht => h.step hfails ht
  have hnot : s.initialized = false := by
    cases hs : s.initialized with
    | false => rfl
    | true => simp [init, hs] at hinit
  refine ⟨fun hall => ?_, fun hfirst => ?_⟩
  · by_contra hfirst
    have hcontexts := init_contexts hfirst hnot n
    rw [hinit] at hcontexts
    exact hcontexts hall.contexts
  · rw [init_of_first hfirst hnot] at hinit
    cases hinit
    exact .of_nil (hrested hnot) hnot

/-- An `init` that fails at once, on a scheduler that has been stopped. -/
theorem init_all_or_nothing_stopped :
    ∃ s t e, Run step FailsFirst {} s ∧ s.stopRequested = true ∧
      s.init { queueInit := fun _ => -12 } 3 = (.threw e, t) ∧ AllOrNothing s t := by
  obtain ⟨s, run, hstop, hthrew⟩ := exists_run step FailsFirst ({} : Startup)
    [.init {} 2, .settle fun _ => true, .stop]
    (fun s => s.stopRequested = true ∧ (s.init { queueInit := fun _ => -12 } 3).1 =
      .threw (.runtimeError "io_uring_queue_init failed")) (by decide)
  have hinit : s.init { queueInit := fun _ => -12 } 3 = (.threw _, _) := Prod.ext hthrew rfl
  exact ⟨s, _, _, run, hstop, hinit, (init_all_or_nothing run hinit).mpr (by decide)⟩

/-- The second thread cannot be created. -/
def secondThreadFails : InitEnv where
  startThread i :=
    if i = 1 then some (.runtimeError "Resource temporarily unavailable") else none

/-- The first worker has nothing to do and blocks, and the destructor waits for it. -/
theorem init_leaves_worker :
    ¬ ∀ s : Startup, Run step FailsFirst {} s → ∀ env n e t, s.init env n = (.threw e, t) →
      AllOrNothing s t := by
  intro hall
  have h := hall {} .refl secondThreadFails 2 _ _ rfl
  have hdestroy := h.destroy fun _ => true
  revert hdestroy
  decide

end Startup

end TinyCoroutine.Runtime
