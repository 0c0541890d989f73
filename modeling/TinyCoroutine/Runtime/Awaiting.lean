import TinyCoroutine.Runtime.Migration

/-!
# From `co_await io::read` to its result

A coroutine that suspends for I/O leaves a request with the engine of its worker. The address of
its awaiter travels through the ring, the result comes back under that address, and the handle in
the awaiter goes into the task queue. `AwaitState` keeps a table of the requests whose coroutine
has not been resumed yet, with the answer of the kernel once there is one. A request is first in
the engine (`Wait.Open`), and then its coroutine is runnable and its awaiter has the answer
(`Wait.Ready`).
-/
namespace TinyCoroutine.Runtime

open Foundation

variable {s t : State} {a : Action} {c d : Nat} {x y : Context} {g h : Handle}

/-- The awaiter of `io::read` or `io::write`; `io_suspend_once` has none. -/
def IoRequest.awaiter : IoRequest → Option IoAwaiter
  | .waiting _ => none
  | .read w => some w
  | .write w => some w

theorem IoRequest.handle_of_awaiter {r : IoRequest} {w : IoAwaiter} (hw : r.awaiter = some w) :
    w.handle = r.handle := by
  cases r <;> cases hw <;> rfl

/-- The operations that the kernel has not finished. -/
def Engine.unfinished (e : Engine) : Multiset IoAwaiter :=
  e.ioReadSubmitQueue + e.ioWriteSubmitQueue + e.uring.sq + e.uring.kernel

/-- The awaiters that are somewhere in the engine. -/
def Engine.operations (e : Engine) : Multiset IoAwaiter :=
  e.unfinished + (e.uring.cq.map Prod.fst : List IoAwaiter)

theorem Engine.ioHandles_eq (e : Engine) :
    e.ioHandles = e.ioWaitingQueue + e.operations.map IoAwaiter.handle := by
  simp only [ioHandles, operations, unfinished, IoUring.awaiters, ← add_assoc]

/-- A request whose coroutine has not been resumed since it suspended. -/
structure Wait where
  context : Nat
  request : IoRequest
  /-- What the kernel has finished the operation with. -/
  answer : Option Int := none
  deriving DecidableEq, Repr

structure AwaitState where
  runtime : State
  waits : List Wait := []

/-- The handle that the next step of worker `c` resumes. -/
def State.resumes (s : State) (c : Nat) : Option Handle :=
  (s.ctxs[c]?).bind fun x => if x.worker = .forLoop then x.batch.head? else none

/-- The operation at position `k` among those the kernel holds for context `c`. -/
def State.kernelOp (s : State) (c k : Nat) : Option IoAwaiter :=
  (s.ctxs[c]?).bind fun x => x.engine.uring.kernel[k]?

def Wait.finish (c : Nat) (op : Option IoAwaiter) (result : Int) (w : Wait) : Wait :=
  if w.context = c ∧ op.isSome ∧ w.request.awaiter = op then { w with answer := some result }
  else w

namespace AwaitState

def init (n : Nat) : AwaitState := { runtime := Runtime.init n }

/-- The table after an action. -/
def record (s : AwaitState) : Action → List Wait
  | .body c (.suspendIo r) => { context := c, request := r } :: s.waits
  | .worker c =>
    match s.runtime.resumes c with
    | some h => s.waits.filter fun w => w.request.handle ≠ h
    | none => s.waits
  | .complete c k result => s.waits.map (Wait.finish c (s.runtime.kernelOp c k) result)
  | _ => s.waits

def step (s : AwaitState) (a : Action) : Option AwaitState :=
  (Runtime.step s.runtime a).map fun r => { runtime := r, waits := s.record a }

/-- An awaiter is a temporary in the frame of its coroutine, so that no other awaiter that is still
in use has its address. -/
def OwnAddress (s : AwaitState) : Action → Prop
  | .body _ (.suspendIo r) =>
    ∀ w ∈ s.waits, ∀ p ∈ w.request.awaiter, ∀ q ∈ r.awaiter, q.addr ≠ p.addr
  | _ => True

def Admitted (s : AwaitState) (a : Action) : Prop := SettledResume s.runtime a ∧ s.OwnAddress a

instance (s : AwaitState) (a : Action) : Decidable (s.OwnAddress a) :=
  match a with
  | .body _ (.suspendIo r) => inferInstanceAs (Decidable (∀ w ∈ s.waits, ∀ p ∈ w.request.awaiter,
      ∀ q ∈ r.awaiter, q.addr ≠ p.addr))
  | .body _ .yield | .body _ (.submit _) | .body _ (.submitToScheduler _) | .body _ .park
  | .body _ (.wake _) | .body _ .finish | .callSubmit _ | .callLoop | .callStop
  | .callSubmitTask _ _ | .callSubmitIo _ _ | .submission _ | .call _ | .spuriousLoop _ | .worker _
  | .spuriousWorker _ | .checkDone _ _ | .pollSubmit _ _ | .complete _ _ _ =>
    inferInstanceAs (Decidable True)

instance (s : AwaitState) (a : Action) : Decidable (s.Admitted a) :=
  inferInstanceAs (Decidable (_ ∧ _))

end AwaitState

/-! ### One place for each coroutine -/

theorem LedgerInv.waiting_le (I : LedgerInv s) (h : Handle) :
    Ledger.tally s.marks .waiting h ≤ 1 := by
  have hok := I.balanced h
  change (s.ledger.entry h).waiting ≤ 1
  cases hst : (s.ledger.frames h).status <;> simp only [hst, Ledger.Entry.Ok] at hok
  · simp [hok]
  · omega
  · simp [hok]
  · omega
  · omega

/-- A coroutine waits in one place. -/
theorem LedgerInv.place_unique (I : LedgerInv s) {p q : Place}
    (hp : (⟨.waiting p, h⟩ : Mark) ∈ s.marks) (hq : (⟨.waiting q, h⟩ : Mark) ∈ s.marks) :
    p = q := by
  by_contra hne
  obtain ⟨M, hM⟩ := Multiset.exists_cons_of_mem hp
  have hqM : (⟨.waiting q, h⟩ : Mark) ∈ M := by
    rw [hM, Multiset.mem_cons] at hq
    refine hq.resolve_left fun heq => hne ?_
    cases heq
    rfl
  have hpos : 0 < Ledger.tally M .waiting h := Ledger.tally_pos hqM
  have hle := I.waiting_le h
  rw [hM, Ledger.tally_cons, if_pos ⟨rfl, rfl⟩] at hle
  omega

theorem mem_marks_of_tasks (hx : s.ctxs[c]? = some x) (hh : h ∈ x.tasks) :
    (⟨.waiting (.task c), h⟩ : Mark) ∈ s.marks := by
  refine Multiset.mem_add.mpr (.inl (Multiset.mem_add.mpr (.inl ?_)))
  refine (mem_sumIdx _).mpr ⟨c, x, hx, Multiset.mem_add.mpr (.inl (Multiset.mem_add.mpr (.inl ?_)))⟩
  exact Multiset.mem_map_of_mem _ hh

theorem mem_marks_of_io (hx : s.ctxs[c]? = some x) (hh : h ∈ x.engine.ioHandles) :
    (⟨.waiting (.io c), h⟩ : Mark) ∈ s.marks := by
  refine Multiset.mem_add.mpr (.inl (Multiset.mem_add.mpr (.inl ?_)))
  refine (mem_sumIdx _).mpr ⟨c, x, hx, Multiset.mem_add.mpr (.inl (Multiset.mem_add.mpr (.inr ?_)))⟩
  exact Multiset.mem_map_of_mem _ hh

/-! ### Where a request is -/

/-- The request is still in the engine. -/
def Wait.Open (w : Wait) (e : Engine) : Prop :=
  match w.request.awaiter with
  | none => w.request.handle ∈ e.ioWaitingQueue
  | some op => op ∈ e.unfinished ∧ w.answer = none ∨ ∃ v, (op, v) ∈ e.uring.cq ∧ w.answer = some v

/-- The coroutine is runnable, and finds the answer of the kernel in its awaiter. -/
def Wait.Ready (w : Wait) (x : Context) : Prop :=
  w.request.handle ∈ x.tasks ∧ ∀ op ∈ w.request.awaiter, w.answer = some (x.engine.results op.addr)

theorem Wait.Open.mem_ioHandles {w : Wait} {e : Engine} (hw : w.Open e) :
    w.request.handle ∈ e.ioHandles := by
  rw [Engine.ioHandles_eq, Multiset.mem_add]
  unfold Wait.Open at hw
  split at hw
  · exact .inl hw
  · rename_i op hop
    right
    rw [← IoRequest.handle_of_awaiter hop]
    refine Multiset.mem_map_of_mem _ (Multiset.mem_add.mpr ?_)
    rcases hw with ⟨hmem, -⟩ | ⟨v, hmem, -⟩
    · exact .inl hmem
    · exact .inr (List.mem_map_of_mem (f := Prod.fst) hmem)

/-- Nothing that concerns I/O is taken from a context. -/
structure Context.SameIo (x y : Context) : Prop where
  tasks : ∀ h ∈ x.tasks, h ∈ y.tasks
  waiting : y.engine.ioWaitingQueue = x.engine.ioWaitingQueue
  reads : y.engine.ioReadSubmitQueue = x.engine.ioReadSubmitQueue
  writes : y.engine.ioWriteSubmitQueue = x.engine.ioWriteSubmitQueue
  uring : y.engine.uring = x.engine.uring
  results : y.engine.results = x.engine.results

/-- Where the request can be as long as the coroutine has not been resumed. -/
def Wait.In (w : Wait) (x : Context) : Prop := w.Open x.engine ∨ w.Ready x

namespace Context.SameIo

theorem refl : x.SameIo x := ⟨fun _ hh => hh, rfl, rfl, rfl, rfl, rfl⟩

theorem of_worker (hxy : x.SameIo y) (pc : WorkerPc) : x.SameIo { y with worker := pc } :=
  { hxy with tasks := hxy.tasks }

theorem push (hxy : x.SameIo y) (h : Handle) :
    x.SameIo { y with engine := y.engine.submitTask h } where
  tasks g hg := by
    rcases Multiset.mem_add.mp (hxy.tasks g hg) with hg | hg
    · exact Multiset.mem_add.mpr (.inl (List.mem_append_left _ hg))
    · exact Multiset.mem_add.mpr (.inr hg)
  waiting := hxy.waiting
  reads := hxy.reads
  writes := hxy.writes
  uring := hxy.uring
  results := hxy.results

theorem wait (hxy : x.SameIo y) {w : Wait} (hw : w.In x) : w.In y := by
  rcases hw with hw | ⟨hready, hanswer⟩
  · left
    simpa only [Wait.Open, Engine.unfinished, hxy.waiting, hxy.reads, hxy.writes, hxy.uring]
      using hw
  · right
    refine ⟨hxy.tasks _ hready, ?_⟩
    rwa [hxy.results]

theorem operations (hxy : x.SameIo y) : y.engine.operations = x.engine.operations := by
  simp only [Engine.operations, Engine.unfinished, hxy.reads, hxy.writes, hxy.uring]

end Context.SameIo

/-! ### Polls -/

/-- What a poll does to the requests: the oldest of `io_suspend_once` become runnable, operations
go to the ring, and no result is touched. -/
theorem Engine.pollSubmit_moves {e e' : Engine} {n progressed : Nat} {rets : List Int}
    (h : e.pollSubmit n rets = .ok (e', progressed)) :
    e'.ioWaitingQueue = e.ioWaitingQueue.drop n ∧ e'.unfinished = e.unfinished ∧
      e'.uring.cq = e.uring.cq ∧ e'.results = e.results := by
  simp only [pollSubmit, drainWaiting_eq] at h
  obtain ⟨⟨room, reads, u, pending⟩, hreads, h⟩ := bind_eq_ok.mp h
  obtain ⟨⟨room', writes, v, pending'⟩, hwrites, h⟩ := bind_eq_ok.mp h
  obtain ⟨⟨w, progressed'⟩, hsubmit, h⟩ := bind_eq_ok.mp h
  obtain ⟨movedReads, hr, rfl, rfl⟩ := prepareLoop_ok hreads
  obtain ⟨movedWrites, hw, rfl, rfl⟩ := prepareLoop_ok hwrites
  obtain ⟨rfl, -⟩ := submitLoop_ok hsubmit
  cases h
  refine ⟨rfl, ?_, rfl, rfl⟩
  simp only [unfinished, IoUring.submit, hr, hw, ← Multiset.coe_add]
  generalize e.pendingSubmitCount + movedReads.length + movedWrites.length = m
  have hring : ((e.uring.sq ++ movedReads ++ movedWrites).take m : Multiset IoAwaiter) +
      (e.uring.sq ++ movedReads ++ movedWrites).drop m = e.uring.sq + movedReads + movedWrites := by
    rw [Multiset.coe_add, List.take_append_drop, Multiset.coe_add, Multiset.coe_add]
  calc (reads + writes + ((e.uring.sq ++ movedReads ++ movedWrites).drop m : List IoAwaiter) +
        (e.uring.kernel + ((e.uring.sq ++ movedReads ++ movedWrites).take m : List IoAwaiter)) :
        Multiset IoAwaiter)
      = reads + writes + e.uring.kernel +
        (((e.uring.sq ++ movedReads ++ movedWrites).take m : List IoAwaiter) +
          ((e.uring.sq ++ movedReads ++ movedWrites).drop m : List IoAwaiter)) := by abel
    _ = movedReads + reads + (movedWrites + writes) + e.uring.sq + e.uring.kernel := by
      rw [hring]
      abel

/-- A finished operation leaves the ring, and its result is stored. -/
theorem Engine.reapOne_moves {e e' : Engine} (h : e.reapOne = some e') :
    ∃ op v rest, e.uring.cq = (op, v) :: rest ∧ e'.taskQueue = e.taskQueue ++ [op.handle] ∧
      e'.ioWaitingQueue = e.ioWaitingQueue ∧ e'.unfinished = e.unfinished ∧ e'.uring.cq = rest ∧
      e'.results = Function.update e.results op.addr v := by
  unfold reapOne at h
  split at h
  · cases h
  · rename_i op v rest hcq
    cases h
    exact ⟨op, v, rest, hcq, rfl, rfl, rfl, rfl, rfl⟩

theorem Engine.unfinished_complete {e : Engine} {k : Nat} {result : Int} {uring : IoUring}
    (h : e.uring.complete k result = some uring) :
    ∃ op, e.uring.kernel[k]? = some op ∧
      e.unfinished = ({ e with uring } : Engine).unfinished + {op} ∧
      uring.cq = e.uring.cq ++ [(op, result)] := by
  obtain ⟨op, hop, rfl⟩ := Option.map_eq_some_iff.mp h
  refine ⟨op, hop, ?_, rfl⟩
  simp only [unfinished, IoUring.kernel_eraseIdx hop]
  abel

end TinyCoroutine.Runtime
