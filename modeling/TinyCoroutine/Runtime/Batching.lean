import TinyCoroutine.Runtime.Engine
import TinyCoroutine.Foundation.Run
import TinyCoroutine.Foundation.Worklist

/-!
# Work in batches

`process_work_once` takes a batch from the task queue and resumes its handles one after the other.
While a batch is run its tail is outside the queue, and what the running coroutine pushes comes
behind it. `work_batch_` keeps the handles of the last batch, also when `pop_batch` finds the
queue empty and leaves it alone.

What the coroutines do is a parameter: resuming a handle in some world gives the handles that it
pushes to the queue of its own context, in this order, and the world it leaves. Other threads may
push at any time and change the world.
-/
namespace TinyCoroutine.Runtime

open Foundation

/-- What resuming a handle pushes, and the world it leaves. -/
abbrev Behaviour (W : Type*) := W → Handle → List Handle × W

/-- The loop of `pop_batch`, with `max_n - out.size()` iterations left. -/
def popLoop : Nat → List Handle → List Handle → List Handle × List Handle
  | 0, out, queue => (out, queue)
  | _ + 1, out, [] => (out, [])
  | room + 1, out, h :: queue => popLoop room (out ++ [h]) queue

/-- `pop_batch(out, max_n)`: its value, the vector and the engine. -/
def Engine.popBatchInto (e : Engine) (out : List Handle) (maxN : Nat) :
    Nat × List Handle × Engine :=
  if e.taskQueue.isEmpty || maxN == 0 then (0, out, e)
  else
    let (out, queue) := popLoop maxN [] e.taskQueue
    (out.length, out, { e with taskQueue := queue })

/-- `process_work_once` between two of its steps; `i` counts the iterations of its loop. -/
inductive ProcessPc where
  | idle
  | forLoop (i : Nat)
  /-- the coroutine of iteration `i` is running, and these pushes are to come -/
  | running (i : Nat) (pushes : List Handle)
  deriving DecidableEq, Repr

structure Processing (W : Type*) where
  world : W
  engine : Engine
  workBatch : List Handle
  pc : ProcessPc := .idle
  /-- All that has been pushed to the task queue. -/
  pushed : List Handle
  resumed : List Handle := []

inductive ProcessAction (W : Type*) where
  /-- a push by another thread, or by `poll_io` -/
  | submitTask (h : Handle)
  | changeWorld (w : W)
  /-- `process_work_once`, with a batch of at most `maxN` -/
  | processWorkOnce (maxN : Nat)
  | next

namespace Processing

variable {W : Type*} (b : Behaviour W) (s : Processing W)

def start (w : W) (e : Engine) (workBatch : List Handle) : Processing W where
  world := w
  engine := e
  workBatch
  pushed := e.taskQueue

def step : ProcessAction W → Option (Processing W)
  | .submitTask h => some { s with engine := s.engine.submitTask h, pushed := s.pushed ++ [h] }
  | .changeWorld w => some { s with world := w }
  | .processWorkOnce maxN =>
    match s.pc with
    | .idle =>
      let (popped, workBatch, engine) := s.engine.popBatchInto s.workBatch maxN
      some { s with engine, workBatch, pc := if popped = 0 then .idle else .forLoop 0 }
    | _ => none
  | .next =>
    match s.pc with
    | .idle => none
    | .forLoop i =>
      match s.workBatch[i]? with
      | none => some { s with pc := .idle }
      | some h =>
        let (pushes, world) := b s.world h
        some { s with
          world
          engine := s.engine.onTaskResumeBegin
          pc := .running i pushes
          resumed := s.resumed ++ [h] }
    | .running i [] =>
      some { s with engine := s.engine.onTaskResumeEnd, pc := .forLoop (i + 1) }
    | .running i (h :: pushes) =>
      some { s with
        engine := s.engine.submitTask h
        pc := .running i pushes
        pushed := s.pushed ++ [h] }

/-- The part of the batch that the loop has not reached. -/
def unprocessed : List Handle :=
  match s.pc with
  | .idle => []
  | .forLoop i => s.workBatch.drop i
  | .running i _ => s.workBatch.drop (i + 1)

/-- What is pushed is resumed in this order. -/
structure Fifo : Prop where
  resumed : s.resumed <+: s.pushed
  pushed : s.pushed = s.resumed ++ (s.unprocessed ++ s.engine.taskQueue)

/-! ## Without other threads -/

/-- One iteration of the loop, with the destruction of a frame that is done. -/
def iteration (h : Handle) : Processing W :=
  let (pushes, world) := b s.world h
  { s with
    world
    engine := (pushes.foldl Engine.submitTask s.engine.onTaskResumeBegin).onTaskResumeEnd
    pushed := s.pushed ++ pushes
    resumed := s.resumed ++ [h] }

def processWorkOnce (maxN : Nat) : Bool × Processing W :=
  let (popped, workBatch, engine) := s.engine.popBatchInto s.workBatch maxN
  let s := { s with engine, workBatch }
  if popped = 0 then (false, s) else (true, workBatch.foldl (iteration b) s)

/-- Calls of `process_work_once` with the given sizes of a batch. -/
def calls (sizes : Nat → Nat) : Nat → Processing W
  | 0 => s
  | k + 1 => (processWorkOnce b (calls sizes k) (sizes k)).2

/-- One handle, taken with `try_pop_task`. -/
def resumeOne : Option (Processing W) :=
  match s.engine.tryPopTask with
  | (none, _) => none
  | (some h, engine) => some (iteration b { s with engine } h)

/-- The world, the queue and the handles resumed. -/
def worklist : Worklist Handle W := ⟨s.world, s.engine.taskQueue, s.resumed⟩

/-- Batches of any sizes, compared with one handle at a time. -/
structure Agrees (sizes : Nat → Nat) : Prop where
  /-- After every call some number of single steps has the same result, and both go on or both
  stop. -/
  batched : ∀ k, ∃ n t, after (resumeOne b) n s = some t ∧
    (calls b s sizes k).worklist = t.worklist ∧
    (processWorkOnce b (calls b s sizes k) (sizes k)).1 = (resumeOne b t).isSome
  /-- Every handle resumed by single steps is resumed in the batches, in this order. -/
  single : ∀ {n t}, after (resumeOne b) n s = some t →
    t.resumed <+: (calls b s sizes n).resumed
  /-- When the single steps stop, so do the calls, with the same result. -/
  final : ∀ {n t}, after (resumeOne b) n s = some t → resumeOne b t = none →
    (calls b s sizes n).worklist = t.worklist ∧
    (processWorkOnce b (calls b s sizes n) (sizes n)).1 = false

/-! ## Popping a batch -/

theorem popLoop_eq (room : Nat) (out queue : List Handle) :
    popLoop room out queue = (out ++ queue.take room, queue.drop room) := by
  induction room generalizing out queue with
  | zero => simp [popLoop]
  | succ room ih =>
    cases queue with
    | nil => simp [popLoop]
    | cons h queue => simp [popLoop, ih]

/-- Nothing is popped and the vector stays as it was, or it holds the batch. -/
theorem popBatchInto_cases (e : Engine) (out : List Handle) (maxN : Nat) :
    e.taskQueue.take maxN = [] ∧ e.popBatchInto out maxN = (0, out, e) ∨
    e.taskQueue.take maxN ≠ [] ∧
      e.popBatchInto out maxN = ((e.popBatch maxN).1.length, e.popBatch maxN) := by
  by_cases hnone : e.taskQueue = [] ∨ maxN = 0
  · refine .inl ⟨List.take_eq_nil_iff.mpr hnone.symm, ?_⟩
    simp [Engine.popBatchInto, hnone]
  · refine .inr ⟨fun htake => hnone (List.take_eq_nil_iff.mp htake).symm, ?_⟩
    simp [Engine.popBatchInto, hnone, popLoop_eq, Engine.popBatch]

/-! ## Order -/

section

variable {b s} {t : Processing W} {a : ProcessAction W}

theorem Fifo.of_pushed (h : s.pushed = s.resumed ++ (s.unprocessed ++ s.engine.taskQueue)) :
    s.Fifo := ⟨h ▸ List.prefix_append _ _, h⟩

theorem Fifo.processWorkOnce (h : s.Fifo) {maxN : Nat}
    (ht : s.step b (.processWorkOnce maxN) = some t) : t.Fifo := by
  have hpushed := h.pushed
  simp only [step] at ht
  split at ht
  · rename_i hpc
    simp only [unprocessed, hpc, List.nil_append] at hpushed
    cases ht
    apply Fifo.of_pushed
    rcases popBatchInto_cases s.engine s.workBatch maxN with ⟨-, hpop⟩ | ⟨htake, hpop⟩
    · simp [hpop, unprocessed, hpushed]
    · have hlength : (s.engine.popBatch maxN).1.length ≠ 0 := by
        simpa [Engine.popBatch] using htake
      simp only [hpop, if_neg hlength]
      simp [unprocessed, hpushed, Engine.popBatch]
  · cases ht

theorem Fifo.next (h : s.Fifo) (ht : s.step b .next = some t) : t.Fifo := by
  have hpushed := h.pushed
  simp only [step] at ht
  split at ht
  · cases ht
  · rename_i i hpc
    simp only [unprocessed, hpc] at hpushed
    apply Fifo.of_pushed
    split at ht
    · rename_i hnone
      cases ht
      have hdrop : s.workBatch.drop i = [] :=
        List.drop_eq_nil_of_le (List.getElem?_eq_none_iff.mp hnone)
      simpa [unprocessed, hdrop] using hpushed
    · rename_i g hsome
      cases ht
      have hdrop : s.workBatch.drop i = g :: s.workBatch.drop (i + 1) :=
        List.drop_eq_getElem?_toList_append ▸ by simp [hsome]
      simpa [unprocessed, hdrop, Engine.onTaskResumeBegin] using hpushed
  · rename_i i hpc
    simp only [unprocessed, hpc] at hpushed
    cases ht
    exact .of_pushed hpushed
  · rename_i i g pushes hpc
    simp only [unprocessed, hpc] at hpushed
    cases ht
    apply Fifo.of_pushed
    simp [unprocessed, hpushed, Engine.submitTask]

theorem Fifo.step (h : s.Fifo) (ht : s.step b a = some t) : t.Fifo := by
  cases a with
  | submitTask g =>
    cases ht
    apply Fifo.of_pushed
    simpa [unprocessed, Engine.submitTask] using congrArg (· ++ [g]) h.pushed
  | changeWorld w =>
    cases ht
    exact ⟨h.resumed, h.pushed⟩
  | processWorkOnce maxN => exact h.processWorkOnce ht
  | next => exact h.next ht

end

/-! ## A call without other threads is a run -/

section

variable {b s}

theorem pushes_run (i : Nat) (pushes : List Handle) (s : Processing W) :
    Run (step b) Always { s with pc := .running i pushes }
      { s with
        engine := pushes.foldl Engine.submitTask s.engine
        pc := .running i []
        pushed := s.pushed ++ pushes } := by
  induction pushes generalizing s with
  | nil =>
    rw [List.append_nil]
    exact .refl
  | cons h pushes ih =>
    have hrest := ih { s with engine := s.engine.submitTask h, pushed := s.pushed ++ [h] }
    rw [List.append_assoc] at hrest
    exact .head (a := .next) trivial rfl hrest

theorem iteration_run {i : Nat} {h : Handle} (s : Processing W) (hi : s.workBatch[i]? = some h) :
    Run (step b) Always { s with pc := .forLoop i }
      { iteration b s h with pc := .forLoop (i + 1) } := by
  have hpushes := pushes_run (b := b) i (b s.world h).1
    { s with
      world := (b s.world h).2
      engine := s.engine.onTaskResumeBegin
      resumed := s.resumed ++ [h] }
  refine .head (a := .next) trivial ?_ (hpushes.snoc (a := .next) trivial rfl)
  simp [step, hi]

theorem loop_run {i : Nat} {rest : List Handle} (s : Processing W)
    (hrest : s.workBatch.drop i = rest) :
    Run (step b) Always { s with pc := .forLoop i }
      { rest.foldl (iteration b) s with pc := .idle } := by
  induction rest generalizing s i with
  | nil =>
    have hnone : s.workBatch[i]? = none :=
      List.getElem?_eq_none_iff.mpr (List.drop_eq_nil_iff.mp hrest)
    refine .head (a := .next) trivial ?_ .refl
    simp [step, hnone]
  | cons h rest ih =>
    have hsome : s.workBatch[i]? = some h := by
      rw [← List.head?_drop, hrest, List.head?_cons]
    have hdrop : (iteration b s h).workBatch.drop (i + 1) = rest := by
      rw [← List.drop_drop, show (iteration b s h).workBatch = s.workBatch from rfl, hrest,
        List.drop_one, List.tail_cons]
    exact (iteration_run s hsome).trans (ih _ hdrop)

/-- `process_work_once` is a run of its steps. -/
theorem processWorkOnce_run (hpc : s.pc = .idle) (maxN : Nat) :
    Run (step b) Always s { (processWorkOnce b s maxN).2 with pc := .idle } := by
  rcases popBatchInto_cases s.engine s.workBatch maxN with ⟨-, hpop⟩ | ⟨htake, hpop⟩
  · refine .head (a := .processWorkOnce maxN) trivial ?_ .refl
    simp [step, hpc, hpop, processWorkOnce]
  · have hlength : (s.engine.popBatch maxN).1.length ≠ 0 := by
      simpa [Engine.popBatch] using htake
    simp only [processWorkOnce, hpop, if_neg hlength]
    refine .head (a := .processWorkOnce maxN) trivial ?_ (loop_run _ List.drop_zero)
    simp only [step, hpc, hpop, if_neg hlength]

end

/-! ## The queue as a worklist -/

section

variable {b s} {sizes : Nat → Nat}

theorem taskQueue_foldl_submitTask (e : Engine) (pushes : List Handle) :
    (pushes.foldl Engine.submitTask e).taskQueue = e.taskQueue ++ pushes := by
  induction pushes generalizing e with
  | nil => simp
  | cons h pushes ih => simp [ih, Engine.submitTask]

theorem worklist_iteration (s : Processing W) (h : Handle) :
    (iteration b s h).worklist = s.worklist.process b h := by
  simp [iteration, worklist, Worklist.process, Engine.onTaskResumeEnd, Engine.onTaskResumeBegin,
    taskQueue_foldl_submitTask]

theorem worklist_foldl (s : Processing W) (hs : List Handle) :
    (hs.foldl (iteration b) s).worklist = hs.foldl (Worklist.process b) s.worklist := by
  induction hs generalizing s with
  | nil => rfl
  | cons h hs ih => rw [List.foldl_cons, List.foldl_cons, ih, worklist_iteration]

theorem worklist_processWorkOnce (s : Processing W) (maxN : Nat) :
    (processWorkOnce b s maxN).2.worklist = s.worklist.batch b maxN := by
  rcases popBatchInto_cases s.engine s.workBatch maxN with ⟨htake, hpop⟩ | ⟨htake, hpop⟩
  · have hdrop : s.engine.taskQueue.drop maxN = s.engine.taskQueue := by
      simpa [htake] using List.take_append_drop maxN s.engine.taskQueue
    simp [processWorkOnce, hpop, Worklist.batch, worklist, htake, hdrop]
  · have hlength : (s.engine.popBatch maxN).1.length ≠ 0 := by
      simpa [Engine.popBatch] using htake
    simp only [processWorkOnce, hpop, if_neg hlength, worklist_foldl]
    rfl

theorem worklist_calls (s : Processing W) (sizes : Nat → Nat) (k : Nat) :
    (calls b s sizes k).worklist = s.worklist.batches b sizes k := by
  induction k with
  | zero => rfl
  | succ k ih => rw [calls, worklist_processWorkOnce, ih, Worklist.batches]

theorem resumeOne_lockstep :
    Lockstep (fun s w => s.worklist = w) (resumeOne b) (Worklist.one b) := by
  rintro s _ rfl
  cases hq : s.engine.taskQueue with
  | nil =>
    simp only [resumeOne, Engine.tryPopTask, Worklist.one, worklist, hq]
    exact .none
  | cons h rest =>
    simp only [resumeOne, Engine.tryPopTask, Worklist.one, worklist, hq]
    exact .some (worklist_iteration _ h)

/-- A call returns true when there is something to take. -/
theorem processWorkOnce_fst {maxN : Nat} (hpos : 0 < maxN) (s : Processing W) :
    (processWorkOnce b s maxN).1 = (s.worklist.one b).isSome := by
  cases hq : s.engine.taskQueue with
  | nil => simp [processWorkOnce, Engine.popBatchInto, Worklist.one, worklist, hq]
  | cons h rest =>
    rcases popBatchInto_cases s.engine s.workBatch maxN with ⟨htake, hpop⟩ | ⟨htake, hpop⟩
    · simp [hq, List.take_eq_nil_iff, hpos.ne'] at htake
    · have hlength : (s.engine.popBatch maxN).1.length ≠ 0 := by
        simpa [Engine.popBatch] using htake
      simp [processWorkOnce, hpop, hlength, Worklist.one, worklist, hq]

theorem resumeOne_isSome (s : Processing W) :
    (resumeOne b s).isSome = (s.worklist.one b).isSome := by
  have hrel := resumeOne_lockstep (b := b) s s.worklist rfl
  cases hs : resumeOne b s <;> cases hw : s.worklist.one b <;> simp_all

theorem agrees (hpos : ∀ k, 1 ≤ sizes k) (s : Processing W) : Agrees b s sizes where
  batched k := by
    obtain ⟨n, hn, -⟩ := Worklist.exists_after_batches hpos s.worklist k
    obtain ⟨t, ht, hworklist⟩ := resumeOne_lockstep.exists_left rfl hn
    rw [← worklist_calls] at hworklist
    exact ⟨n, t, ht, hworklist.symm, by
      rw [processWorkOnce_fst (hpos k), resumeOne_isSome, hworklist]⟩
  single := by
    intro n t ht
    obtain ⟨_, hw, rfl⟩ := resumeOne_lockstep.exists_right rfl ht
    have hprefix := Worklist.processed_batches hpos hw
    rwa [← worklist_calls] at hprefix
  final := by
    intro n t ht hstop
    obtain ⟨_, hw, rfl⟩ := resumeOne_lockstep.exists_right rfl ht
    have hnone : t.worklist.one b = none := by
      rw [← Option.isNone_iff_eq_none, ← Option.not_isSome, ← resumeOne_isSome, hstop]
      rfl
    have hcalls := Worklist.batches_of_stopped hpos hw hnone
    rw [← worklist_calls] at hcalls
    exact ⟨hcalls, by rw [processWorkOnce_fst (hpos n), hcalls, hnone]; rfl⟩

end

/-- Handles are resumed in the order of the pushes, whatever the sizes of the batches and
whoever pushes between; without other threads the batches make no difference. -/
theorem batched_fifo {b : Behaviour W} {w : W} {e : Engine} {workBatch : List Handle}
    {s : Processing W} (run : Run (step b) Always (start w e workBatch) s) {sizes : Nat → Nat}
    (hpos : ∀ k, 1 ≤ sizes k) : s.Fifo ∧ Agrees b (start w e workBatch) sizes := by
  refine ⟨?_, agrees hpos _⟩
  have hstart : (start w e workBatch).Fifo := .of_pushed rfl
  exact run.invariant hstart fun h _ ht => h.step ht

/-- Handle `2` yields once and pushes `3`. -/
def yieldOnce : Behaviour Bool := fun yielded h =>
  if h = 2 ∧ yielded = false then ([2, 3], true) else ([], yielded)

/-- Another thread pushes `9` while `2` runs; the batch before has left `7` in `work_batch_`. -/
theorem batched_fifo_yield :
    ∃ s, Run (step yieldOnce) Always (start false { taskQueue := [1, 2, 4] } [7]) s ∧
      s.resumed = [1, 2] ∧ s.pushed = [1, 2, 4, 9, 2, 3] ∧ s.Fifo ∧
      Agrees yieldOnce (start false { taskQueue := [1, 2, 4] } [7]) fun _ => 3 := by
  obtain ⟨s, run, hresumed, hpushed⟩ := exists_run (step yieldOnce) Always
    (start false { taskQueue := [1, 2, 4] } [7])
    [.processWorkOnce 3, .next, .next, .next, .submitTask 9, .next, .next, .next]
    (fun s => s.resumed = [1, 2] ∧ s.pushed = [1, 2, 4, 9, 2, 3]) (by decide)
  have hpos : ∀ _ : Nat, 1 ≤ 3 := fun _ => by decide
  obtain ⟨hfifo, hagrees⟩ := batched_fifo run hpos
  exact ⟨s, run, hresumed, hpushed, hfifo, hagrees⟩

end Processing

end TinyCoroutine.Runtime
