import TinyCoroutine.Basic
import Mathlib.Algebra.Order.Group.Multiset
import Mathlib.Tactic.Abel

/-!
# The engine of one context

`Engine` keeps the runnable handles of a context and its I/O: a queue of handles that
wait for the next poll, two queues of awaiters that wait for a submission entry, and
the ring. The functions below are the critical sections of `engine.cpp`; where a call
of the source consists of several sections (`poll_io`, `can_stop`), each one is a
function of its own, since other threads may run between them.

The kernel side of the ring is not part of the library. It appears through the
values `io_uring_submit` returns, which are an argument of the poll, and through
`IoUring.complete`, which finishes any operation the kernel holds, in any order.
-/
namespace TinyCoroutine.Runtime

inductive IoKind where
  | read
  | write
  deriving DecidableEq, Repr

/-- An `IoReadAwaiter` or `IoWriteAwaiter`; `addr` is the object's address, which
travels through the ring as `user_data`. -/
structure IoAwaiter where
  kind : IoKind
  addr : Nat
  fd : Int
  buf : Nat
  len : Nat
  offset : Nat
  handle : Handle
  deriving DecidableEq, Repr

/-- The ring: prepared entries, operations held by the kernel, finished ones. -/
structure IoUring where
  queueDepth : Nat := 256
  sq : List IoAwaiter := []
  kernel : List IoAwaiter := []
  cq : List (IoAwaiter × Int) := []

namespace IoUring

/-- `submit_read` and `submit_write`: take an entry and fill it. -/
def prepare (u : IoUring) (a : IoAwaiter) : Except Exn IoUring :=
  if u.sq.length < u.queueDepth then .ok { u with sq := u.sq ++ [a] }
  else .error (.runtimeError "io_uring_get_sqe failed")

/-- `io_uring_submit` returning `count`: the kernel takes the oldest entries. -/
def submit (u : IoUring) (count : Nat) : IoUring :=
  { u with sq := u.sq.drop count, kernel := u.kernel ++ u.sq.take count }

/-- The kernel finishes the operation at position `k` with `result`. -/
def complete (u : IoUring) (k : Nat) (result : Int) : Option IoUring :=
  (u.kernel[k]?).map fun a =>
    { u with kernel := u.kernel.eraseIdx k, cq := u.cq ++ [(a, result)] }

/-- Everything the ring holds, finished or not. -/
def awaiters (u : IoUring) : Multiset IoAwaiter := u.sq + u.kernel + u.cq.map Prod.fst

theorem awaiters_submit (u : IoUring) (count : Nat) : (u.submit count).awaiters = u.awaiters := by
  have hsq : (u.sq : Multiset IoAwaiter) = u.sq.take count + u.sq.drop count := by
    rw [Multiset.coe_add, List.take_append_drop]
  simp only [awaiters, submit, hsq, ← Multiset.coe_add]
  abel

/-- The operation at position `k`, and the others the kernel holds. -/
theorem kernel_eraseIdx {u : IoUring} {k : Nat} {a : IoAwaiter} (ha : u.kernel[k]? = some a) :
    (u.kernel : Multiset IoAwaiter) = u.kernel.eraseIdx k + {a} := by
  obtain ⟨hk, rfl⟩ := List.getElem?_eq_some_iff.mp ha
  rw [add_comm, Multiset.singleton_add, Multiset.cons_coe, Multiset.coe_eq_coe]
  exact (List.getElem_cons_eraseIdx_perm hk).symm

theorem awaiters_complete {u u' : IoUring} {k : Nat} {result : Int}
    (h : u.complete k result = some u') : u'.awaiters = u.awaiters := by
  obtain ⟨a, ha, rfl⟩ := Option.map_eq_some_iff.mp h
  simp only [awaiters, kernel_eraseIdx ha, List.map_append, List.map_cons, List.map_nil,
    ← Multiset.coe_add, Multiset.coe_singleton]
  abel

end IoUring

/-- What a coroutine hands to the engine when it suspends for I/O. -/
inductive IoRequest where
  | waiting (handle : Handle)
  | read (awaiter : IoAwaiter)
  | write (awaiter : IoAwaiter)
  deriving DecidableEq, Repr

def IoRequest.handle : IoRequest → Handle
  | .waiting h => h
  | .read a => a.handle
  | .write a => a.handle

structure Engine where
  taskQueue : List Handle := []
  ioWaitingQueue : List Handle := []
  ioReadSubmitQueue : List IoAwaiter := []
  ioWriteSubmitQueue : List IoAwaiter := []
  uring : IoUring := {}
  pendingSubmitCount : Nat := 0
  inflightTasks : Nat := 0
  inflightIo : Nat := 0
  /-- The `result_` fields of the awaiters, by address. -/
  results : Nat → Int := fun _ => 0

namespace Engine

variable (e : Engine)

/-! ### Submission -/

def submitTask (h : Handle) : Engine := { e with taskQueue := e.taskQueue ++ [h] }

def onTaskResumeBegin : Engine := { e with inflightTasks := fetchAdd e.inflightTasks 1 }

def onTaskResumeEnd : Engine := { e with inflightTasks := fetchSub e.inflightTasks 1 }

def onIoInflightBegin : Engine := { e with inflightIo := fetchAdd e.inflightIo 1 }

def onIoInflightEnd : Engine := { e with inflightIo := fetchSub e.inflightIo 1 }

/-- The critical section of `submit_io_waiting`, `submit_io_read`, `submit_io_write`. -/
def pushIo : IoRequest → Engine
  | .waiting h => { e with ioWaitingQueue := e.ioWaitingQueue ++ [h] }
  | .read a => { e with ioReadSubmitQueue := e.ioReadSubmitQueue ++ [a] }
  | .write a => { e with ioWriteSubmitQueue := e.ioWriteSubmitQueue ++ [a] }

/-- The whole of `submit_io_waiting`, `submit_io_read`, `submit_io_write` up to the
notification. -/
def submitIo (r : IoRequest) : Engine := e.onIoInflightBegin.pushIo r

/-! ### The task queue -/

/-- `try_pop_task`. -/
def tryPopTask : Option Handle × Engine :=
  match e.taskQueue with
  | [] => (none, e)
  | h :: rest => (some h, { e with taskQueue := rest })

/-- `pop_batch`: the popped handles and what remains. The loop takes from the front
while the batch has room. -/
def popBatch (maxN : Nat) : List Handle × Engine :=
  (e.taskQueue.take maxN, { e with taskQueue := e.taskQueue.drop maxN })

/-! ### The poll -/

/-- The first loop of `poll_io`, with `maxN - progressed` iterations left. -/
def drainWaiting : Nat → Engine → Nat → Engine × Nat
  | 0, e, progressed => (e, progressed)
  | room + 1, e, progressed =>
    match e.ioWaitingQueue with
    | [] => (e, progressed)
    | h :: rest =>
      drainWaiting room
        { e.onIoInflightEnd with taskQueue := e.taskQueue ++ [h], ioWaitingQueue := rest }
        (progressed + 1)

/-- One of the two loops that prepare entries: from a queue, the ring and the count of
entries to submit, with `maxN - prepared` iterations left. -/
def prepareLoop : Nat → List IoAwaiter → IoUring → Nat →
    Except Exn (Nat × List IoAwaiter × IoUring × Nat)
  | 0, queue, u, pending => .ok (0, queue, u, pending)
  | room + 1, [], u, pending => .ok (room + 1, [], u, pending)
  | room + 1, a :: queue, u, pending =>
    match u.prepare a with
    | .error ex => .error ex
    | .ok u => prepareLoop room queue u (pending + 1)

/-- The loop that submits what is prepared; `rets` are the values the successive calls
of `io_uring_submit` return. -/
def submitLoop : List Int → IoUring → Nat → Nat → Except Exn (IoUring × Nat)
  | _, u, 0, progressed => .ok (u, progressed)
  | [], _, _ + 1, _ => .error (.runtimeError "io_uring_submit failed in runtime::Engine")
  | ret :: rets, u, pending + 1, progressed =>
    if ret ≤ 0 then .error (.runtimeError "io_uring_submit failed in runtime::Engine")
    else if pending + 1 < ret.toNat then
      .error (.runtimeError "io_uring_submit returned invalid count")
    else submitLoop rets (u.submit ret.toNat) (pending + 1 - ret.toNat) (progressed + ret.toNat)

/-- The critical section of `poll_io`. -/
def pollSubmit (maxN : Nat) (rets : List Int) : Except Exn (Engine × Nat) := do
  let (e, progressed) := drainWaiting maxN e 0
  let (room, reads, u, pending) ←
    prepareLoop maxN e.ioReadSubmitQueue e.uring e.pendingSubmitCount
  let (_, writes, u, pending) ← prepareLoop room e.ioWriteSubmitQueue u pending
  let (u, progressed) ← submitLoop rets u pending progressed
  return ({ e with ioReadSubmitQueue := reads, ioWriteSubmitQueue := writes, uring := u,
                   pendingSubmitCount := 0 }, progressed)

/-- One iteration of the second loop of `poll_io`: a finished operation is taken from
the ring, its result stored, its handle queued. -/
def reapOne : Option Engine :=
  match e.uring.cq with
  | [] => none
  | (a, result) :: rest =>
    some { e.onIoInflightEnd with
      taskQueue := e.taskQueue ++ [a.handle]
      uring := { e.uring with cq := rest }
      results := Function.update e.results a.addr result }

/-! ### Stopping and waiting -/

/-- `empty()`, and the test `can_stop` makes under the mutex. -/
def empty : Bool :=
  e.taskQueue.isEmpty && e.ioWaitingQueue.isEmpty && e.ioReadSubmitQueue.isEmpty &&
    e.ioWriteSubmitQueue.isEmpty && e.pendingSubmitCount == 0

/-- The two counters `can_stop` reads after it has released the mutex. -/
def quiet : Bool := e.inflightTasks == 0 && e.inflightIo == 0

/-- The predicate of `wait_for_work_or_stop`. -/
def hasWorkOrStop (stopRequested : Bool) : Bool :=
  stopRequested || !e.empty || e.inflightIo != 0

/-! ### What the engine holds -/

/-- The handles that are suspended for I/O somewhere in the engine. -/
def ioHandles : Multiset Handle :=
  e.ioWaitingQueue +
    (e.ioReadSubmitQueue + e.ioWriteSubmitQueue + e.uring.awaiters : Multiset IoAwaiter).map
      IoAwaiter.handle

/-- There is memory for another request: every open one takes some. -/
def IoRoom : Prop := Multiset.card e.ioHandles + 1 < 2 ^ 64

instance : Decidable e.IoRoom := inferInstanceAs (Decidable (_ < _))

@[simp] theorem ioHandles_pushIo (r : IoRequest) :
    (e.pushIo r).ioHandles = e.ioHandles + {r.handle} := by
  cases r <;>
    simp only [pushIo, ioHandles, IoRequest.handle, ← Multiset.coe_add, Multiset.coe_singleton,
      Multiset.map_add, Multiset.map_singleton] <;>
    abel

theorem inflightIo_submitIo (r : IoRequest) :
    (e.submitIo r).inflightIo = fetchAdd e.inflightIo 1 := by
  cases r <;> rfl

@[simp] theorem taskQueue_pushIo (r : IoRequest) : (e.pushIo r).taskQueue = e.taskQueue := by
  cases r <;> rfl

theorem taskQueue_of_empty {e : Engine} (h : e.empty = true) : e.taskQueue = [] := by
  simp only [empty, Bool.and_eq_true, List.isEmpty_iff] at h
  exact h.1.1.1.1

theorem drainWaiting_eq (n : Nat) (e : Engine) (progressed : Nat) :
    drainWaiting n e progressed =
      ({ e with
          taskQueue := e.taskQueue ++ e.ioWaitingQueue.take n
          ioWaitingQueue := e.ioWaitingQueue.drop n
          inflightIo := (fetchSub · 1)^[min n e.ioWaitingQueue.length] e.inflightIo },
        progressed + min n e.ioWaitingQueue.length) := by
  induction n generalizing e progressed with
  | zero => simp [drainWaiting]
  | succ n ih =>
    cases hq : e.ioWaitingQueue with
    | nil =>
      simp only [drainWaiting, hq, List.take_nil, List.append_nil, List.drop_nil,
        List.length_nil, Nat.min_zero, Function.iterate_zero, id_eq, Nat.add_zero]
      rw [← hq]
    | cons h rest =>
      simp only [drainWaiting, hq, ih, onIoInflightEnd, List.take_succ_cons, List.drop_succ_cons,
        List.length_cons, Nat.add_min_add_right, Function.iterate_succ_apply, List.append_assoc,
        List.singleton_append, Prod.mk.injEq, true_and]
      omega

theorem prepareLoop_ok {n n' : Nat} {queue queue' : List IoAwaiter} {u u' : IoUring}
    {pending pending' : Nat}
    (h : prepareLoop n queue u pending = .ok (n', queue', u', pending')) :
    ∃ moved, queue = moved ++ queue' ∧ u' = { u with sq := u.sq ++ moved } ∧
      pending' = pending + moved.length := by
  induction n generalizing queue u pending with
  | zero =>
    cases h
    exact ⟨[], by simp⟩
  | succ n ih =>
    cases queue with
    | nil =>
      cases h
      exact ⟨[], by simp⟩
    | cons a queue =>
      simp only [prepareLoop, IoUring.prepare] at h
      by_cases hroom : u.sq.length < u.queueDepth
      · rw [if_pos hroom] at h
        obtain ⟨moved, hq, hu, hp⟩ := ih h
        exact ⟨a :: moved, by simp [hq], by simp [hu], by simp [hp]; omega⟩
      · simp [hroom] at h

theorem submitLoop_ok {rets : List Int} {u u' : IoUring} {pending progressed progressed' : Nat}
    (h : submitLoop rets u pending progressed = .ok (u', progressed')) :
    u' = u.submit pending ∧ progressed' = progressed + pending := by
  induction rets generalizing u pending progressed with
  | nil =>
    cases pending with
    | zero =>
      cases h
      simp [IoUring.submit]
    | succ pending => simp [submitLoop] at h
  | cons ret rets ih =>
    cases pending with
    | zero =>
      cases h
      simp [IoUring.submit]
    | succ pending =>
      simp only [submitLoop] at h
      split at h
      · cases h
      · split at h
        · cases h
        · obtain ⟨hu, hp⟩ := ih h
          have hle : ret.toNat ≤ pending + 1 := by omega
          refine ⟨?_, by omega⟩
          rw [hu]
          simp only [IoUring.submit, List.drop_drop, List.append_assoc, IoUring.mk.injEq, true_and,
            and_true]
          rw [Nat.add_sub_cancel' hle]
          refine ⟨rfl, ?_⟩
          rw [← List.take_add, Nat.add_sub_cancel' hle]

/-- A poll that does not throw: the oldest waiting handles become runnable, everything
prepared reaches the kernel and nothing else moves. -/
theorem pollSubmit_ok {e e' : Engine} {n progressed : Nat} {rets : List Int}
    (h : e.pollSubmit n rets = .ok (e', progressed)) :
    e'.taskQueue = e.taskQueue ++ e.ioWaitingQueue.take n ∧
      e.ioHandles = (e.ioWaitingQueue.take n : List Handle) + e'.ioHandles ∧
      e'.inflightIo = (fetchSub · 1)^[min n e.ioWaitingQueue.length] e.inflightIo ∧
      e'.inflightTasks = e.inflightTasks ∧ e'.pendingSubmitCount = 0 ∧
      (e.pendingSubmitCount = e.uring.sq.length → e'.uring.sq = []) := by
  simp only [pollSubmit, drainWaiting_eq] at h
  obtain ⟨⟨room, reads, u, pending⟩, hreads, h⟩ := bind_eq_ok.mp h
  obtain ⟨⟨room', writes, v, pending'⟩, hwrites, h⟩ := bind_eq_ok.mp h
  obtain ⟨⟨w, progressed'⟩, hsubmit, h⟩ := bind_eq_ok.mp h
  obtain ⟨movedReads, hr, rfl, rfl⟩ := prepareLoop_ok hreads
  obtain ⟨movedWrites, hw, rfl, rfl⟩ := prepareLoop_ok hwrites
  obtain ⟨rfl, -⟩ := submitLoop_ok hsubmit
  cases h
  refine ⟨rfl, ?_, rfl, rfl, rfl, fun hp => by simp [IoUring.submit, hp, Nat.add_assoc]⟩
  have hwaiting : (e.ioWaitingQueue : Multiset Handle) =
      e.ioWaitingQueue.take n + e.ioWaitingQueue.drop n := by
    rw [Multiset.coe_add, List.take_append_drop]
  simp only [ioHandles, IoUring.awaiters_submit]
  rw [hwaiting, hr, hw]
  simp only [IoUring.awaiters, ← Multiset.coe_add, Multiset.map_add]
  abel

/-- A finished operation makes its handle runnable. -/
theorem reapOne_some {e e' : Engine} (h : e.reapOne = some e') :
    ∃ g, e'.taskQueue = e.taskQueue ++ [g] ∧ e.ioHandles = {g} + e'.ioHandles ∧
      e'.inflightIo = fetchSub e.inflightIo 1 ∧ e'.inflightTasks = e.inflightTasks ∧
      e'.pendingSubmitCount = e.pendingSubmitCount ∧ e'.uring.sq = e.uring.sq := by
  unfold reapOne at h
  split at h
  · cases h
  · rename_i a result rest hcq
    cases h
    refine ⟨a.handle, rfl, ?_, rfl, rfl, rfl, rfl⟩
    simp only [ioHandles, IoUring.awaiters, onIoInflightEnd, hcq, List.map_cons,
      ← Multiset.cons_coe, ← Multiset.singleton_add, Multiset.map_add, Multiset.map_singleton]
    abel

end Engine

end TinyCoroutine.Runtime
