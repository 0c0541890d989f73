import TinyCoroutine.Runtime.Engine
import TinyCoroutine.Foundation.Run

/-!
# The calls on an engine, loop by loop

One engine under a sequence of calls of `submit_io_waiting`, `submit_io_read`,
`submit_io_write` and `poll_io`. A step is one iteration of one of the five loops of
`poll_io`, so that the kernel may finish operations between any two of them. What
`io_uring_submit` returns is part of the action.

The state also keeps what has happened so far: the requests that were submitted, the entries
the kernel has consumed and finished, what `poll_io` has moved to the task queue and
what it has returned.
-/
namespace TinyCoroutine.Runtime

open Foundation

/-- `poll_io(max_n)` before an iteration of one of its loops. -/
inductive PollPc where
  | idle
  | waiting (maxN progressed : Nat)
  | preparing (kind : IoKind) (maxN progressed prepared : Nat)
  | submitting (maxN progressed : Nat)
  | completing (maxN progressed completed : Nat)
  deriving DecidableEq, Repr

/-- Something that `poll_io` has moved to the task queue, with the `result_` its
awaiter has at that moment. -/
inductive Moved where
  | waiting (handle : Handle)
  | completed (awaiter : IoAwaiter) (result : Int)
  deriving DecidableEq, Repr

def Moved.handle : Moved → Handle
  | .waiting h => h
  | .completed a _ => a.handle

/-- The request that an awaiter was submitted with. -/
def IoAwaiter.request (a : IoAwaiter) : IoRequest :=
  match a.kind with
  | .read => .read a
  | .write => .write a

def Moved.request : Moved → IoRequest
  | .waiting h => .waiting h
  | .completed a _ => a.request

/-- A `poll_io` that has returned: its value, what it has moved and what it has submitted. -/
structure PollReturn where
  value : Nat
  moved : List Moved
  submitted : List IoAwaiter
  deriving DecidableEq, Repr

structure Polling where
  engine : Engine := {}
  pc : PollPc := .idle
  submitted : List IoRequest := []
  /-- The entries that `io_uring_submit` has consumed. -/
  consumed : List IoAwaiter := []
  /-- The completion entries the kernel has produced. -/
  finished : List (IoAwaiter × Int) := []
  moved : List Moved := []
  /-- How much had been moved and consumed when the current `poll_io` began. -/
  movedBefore : Nat := 0
  consumedBefore : Nat := 0
  returned : List PollReturn := []
  thrown : List Exn := []

inductive PollAction where
  | submitIoWaiting (h : Handle)
  | submitIoRead (awaiter : Option IoAwaiter)
  | submitIoWrite (awaiter : Option IoAwaiter)
  | pollIo (maxN : Nat)
  /-- the next iteration of a loop, or its end -/
  | next
  /-- an iteration of the loop that submits, in which `io_uring_submit` returns `ret` -/
  | submit (ret : Int)
  /-- the kernel finishes an operation -/
  | complete (k : Nat) (result : Int)
  deriving DecidableEq, Repr

/-- The queue from which entries of one kind are prepared. -/
def Engine.submitQueue (e : Engine) : IoKind → List IoAwaiter
  | .read => e.ioReadSubmitQueue
  | .write => e.ioWriteSubmitQueue

def Engine.setSubmitQueue (e : Engine) (queue : List IoAwaiter) : IoKind → Engine
  | .read => { e with ioReadSubmitQueue := queue }
  | .write => { e with ioWriteSubmitQueue := queue }

namespace Polling

variable (s : Polling)

/-- `submit_io_read` and `submit_io_write`; the types of their arguments tell the kinds
apart. -/
def submitAwaiter (kind : IoKind) : Option IoAwaiter → Option Polling
  | none => some s
  | some a =>
    if a.kind = kind ∧ s.engine.IoRoom then
      some { s with engine := s.engine.submitIo a.request, submitted := s.submitted ++ [a.request] }
    else none

def throw (engine : Engine) (ex : Exn) : Polling :=
  { s with engine, pc := .idle, thrown := s.thrown ++ [ex] }

/-- The loop that prepares entries of the other kind, or the loop that submits. -/
def afterPreparing (kind : IoKind) (maxN progressed prepared : Nat) : PollPc :=
  match kind with
  | .read => .preparing .write maxN progressed prepared
  | .write => .submitting maxN progressed

/-- The awaiter that the next iteration takes to `io_uring_get_sqe`. -/
def prepares : Option IoAwaiter :=
  match s.pc with
  | .preparing kind maxN _ prepared =>
    if prepared < maxN then (s.engine.submitQueue kind).head? else none
  | _ => none

/-- The return of `poll_io`. -/
def finish (value : Nat) : Polling :=
  { s with
    pc := .idle
    returned := s.returned ++
      [{ value, moved := s.moved.drop s.movedBefore
         submitted := s.consumed.drop s.consumedBefore }] }

def next : Option Polling :=
  match s.pc with
  | .idle => none
  | .waiting maxN progressed =>
    match if progressed < maxN then s.engine.ioWaitingQueue else [] with
    | [] => some { s with pc := .preparing .read maxN progressed 0 }
    | h :: rest =>
      some { s with
        engine := { s.engine.onIoInflightEnd with
          taskQueue := s.engine.taskQueue ++ [h], ioWaitingQueue := rest }
        pc := .waiting maxN (progressed + 1)
        moved := s.moved ++ [.waiting h] }
  | .preparing kind maxN progressed prepared =>
    match if prepared < maxN then s.engine.submitQueue kind else [] with
    | [] => some { s with pc := afterPreparing kind maxN progressed prepared }
    | a :: rest =>
      let engine := s.engine.setSubmitQueue rest kind
      match s.engine.uring.prepare a with
      | .error ex => some (s.throw engine ex)
      | .ok uring =>
        some { s with
          engine := { engine with uring, pendingSubmitCount := engine.pendingSubmitCount + 1 }
          pc := .preparing kind maxN progressed (prepared + 1) }
  | .submitting maxN progressed =>
    if s.engine.pendingSubmitCount = 0 then some { s with pc := .completing maxN progressed 0 }
    else none
  | .completing maxN progressed completed =>
    match if completed < maxN then s.engine.uring.cq else [], s.engine.reapOne with
    | (a, _) :: _, some engine =>
      some { s with
        engine
        pc := .completing maxN progressed (completed + 1)
        moved := s.moved ++ [.completed a (engine.results a.addr)] }
    | _, _ => some (s.finish (progressed + completed))

def submit (ret : Int) : Option Polling :=
  match s.pc with
  | .submitting maxN progressed =>
    let engine := { s.engine with uring := s.engine.uring.submit ret.toNat }
    if s.engine.pendingSubmitCount = 0 then none
    else if ret ≤ 0 then
      some (s.throw s.engine (.runtimeError "io_uring_submit failed in runtime::Engine"))
    else if s.engine.pendingSubmitCount < ret.toNat then
      some ({ s with consumed := s.consumed ++ s.engine.uring.sq.take ret.toNat }.throw engine
        (.runtimeError "io_uring_submit returned invalid count"))
    else
      some { s with
        engine := { engine with
          pendingSubmitCount := s.engine.pendingSubmitCount - ret.toNat }
        pc := .submitting maxN (progressed + ret.toNat)
        consumed := s.consumed ++ s.engine.uring.sq.take ret.toNat }
  | _ => none

def step : PollAction → Option Polling
  | .submitIoWaiting h =>
    if s.pc = .idle ∧ s.engine.IoRoom then
      some { s with
        engine := s.engine.submitIo (.waiting h), submitted := s.submitted ++ [.waiting h] }
    else none
  | .submitIoRead awaiter => if s.pc = .idle then s.submitAwaiter .read awaiter else none
  | .submitIoWrite awaiter => if s.pc = .idle then s.submitAwaiter .write awaiter else none
  | .pollIo maxN =>
    if s.pc = .idle then
      let s := { s with movedBefore := s.moved.length, consumedBefore := s.consumed.length }
      some (if maxN = 0 then s.finish 0 else { s with pc := .waiting maxN 0 })
    else none
  | .next => s.next
  | .submit ret => s.submit ret
  | .complete k result =>
    match s.engine.uring.kernel[k]?, s.engine.uring.complete k result with
    | some a, some uring =>
      some { s with
        engine := { s.engine with uring }, finished := s.finished ++ [(a, result)] }
    | _, _ => none

/-- A request whose awaiter has the kind of the call it was made with. -/
def Typed : IoRequest → Prop
  | .waiting _ => True
  | .read a => a.kind = .read
  | .write a => a.kind = .write

inductive Transition (s : Polling) : PollAction → Polling → Prop where
  | submitIo {a r} : s.pc = .idle → s.engine.IoRoom → Typed r → Transition s a
      { s with engine := s.engine.submitIo r, submitted := s.submitted ++ [r] }
  | submitNull {a} : Transition s a s
  | pollNothing : s.pc = .idle → Transition s (.pollIo 0)
      ({ s with
        movedBefore := s.moved.length, consumedBefore := s.consumed.length }.finish 0)
  | pollIo {maxN} : s.pc = .idle → Transition s (.pollIo maxN)
      { s with
        movedBefore := s.moved.length, consumedBefore := s.consumed.length
        pc := .waiting maxN 0 }
  | moveWaiting {maxN progressed h rest} : s.pc = .waiting maxN progressed →
      progressed < maxN → s.engine.ioWaitingQueue = h :: rest → Transition s .next
      { s with
        engine := { s.engine.onIoInflightEnd with
          taskQueue := s.engine.taskQueue ++ [h], ioWaitingQueue := rest }
        pc := .waiting maxN (progressed + 1)
        moved := s.moved ++ [.waiting h] }
  | waitingDone {maxN progressed} : s.pc = .waiting maxN progressed →
      Transition s .next { s with pc := .preparing .read maxN progressed 0 }
  | prepareThrow {a engine ex} : a ∈ s.prepares → s.engine.uring.prepare a = .error ex →
      Transition s .next (s.throw engine ex)
  | prepare {kind maxN progressed prepared a rest uring} :
      s.pc = .preparing kind maxN progressed prepared → prepared < maxN →
      s.engine.submitQueue kind = a :: rest → s.engine.uring.prepare a = .ok uring →
      Transition s .next
      { s with
        engine := { s.engine.setSubmitQueue rest kind with
          uring, pendingSubmitCount := s.engine.pendingSubmitCount + 1 }
        pc := .preparing kind maxN progressed (prepared + 1) }
  | preparingDone {kind maxN progressed prepared} :
      s.pc = .preparing kind maxN progressed prepared →
      Transition s .next { s with pc := afterPreparing kind maxN progressed prepared }
  | submitThrow {ret t} : ret ≤ 0 ∨ s.engine.pendingSubmitCount < ret.toNat →
      Transition s (.submit ret) t
  | submit {maxN progressed ret} : s.pc = .submitting maxN progressed → 0 < ret →
      ret.toNat ≤ s.engine.pendingSubmitCount → Transition s (.submit ret)
      { s with
        engine := { s.engine with
          uring := s.engine.uring.submit ret.toNat
          pendingSubmitCount := s.engine.pendingSubmitCount - ret.toNat }
        pc := .submitting maxN (progressed + ret.toNat)
        consumed := s.consumed ++ s.engine.uring.sq.take ret.toNat }
  | submittingDone {maxN progressed} : s.pc = .submitting maxN progressed →
      s.engine.pendingSubmitCount = 0 →
      Transition s .next { s with pc := .completing maxN progressed 0 }
  | reap {maxN progressed completed a result rest} :
      s.pc = .completing maxN progressed completed → completed < maxN →
      s.engine.uring.cq = (a, result) :: rest → Transition s .next
      { s with
        engine := { s.engine.onIoInflightEnd with
          taskQueue := s.engine.taskQueue ++ [a.handle]
          uring := { s.engine.uring with cq := rest }
          results := Function.update s.engine.results a.addr result }
        pc := .completing maxN progressed (completed + 1)
        moved := s.moved ++
          [.completed a (Function.update s.engine.results a.addr result a.addr)] }
  | finish {maxN progressed completed} : s.pc = .completing maxN progressed completed →
      Transition s .next (s.finish (progressed + completed))
  | complete {k result a} : s.engine.uring.kernel[k]? = some a →
      Transition s (.complete k result)
      { s with
        engine := { s.engine with uring := { s.engine.uring with
          kernel := s.engine.uring.kernel.eraseIdx k
          cq := s.engine.uring.cq ++ [(a, result)] } }
        finished := s.finished ++ [(a, result)] }

variable {s t : Polling} {a : PollAction}

theorem typed_request (w : IoAwaiter) : Typed w.request := by
  unfold IoAwaiter.request
  split <;> assumption

theorem submitAwaiter_transition {kind : IoKind} {awaiter : Option IoAwaiter}
    (hpc : s.pc = .idle) (h : s.submitAwaiter kind awaiter = some t) : Transition s a t := by
  cases awaiter with
  | none =>
    cases h
    exact .submitNull
  | some w =>
    simp only [submitAwaiter] at h
    split at h
    · rename_i hroom
      cases h
      exact .submitIo hpc hroom.2 (typed_request w)
    · cases h

theorem next_transition (h : s.next = some t) : Transition s .next t := by
  unfold next at h
  split at h
  · cases h
  · rename_i maxN progressed hpc
    split at h
    · cases h
      exact .waitingDone hpc
    · rename_i g rest hq
      split at hq
      · cases h
        exact .moveWaiting hpc ‹_› hq
      · cases hq
  · rename_i kind maxN progressed prepared hpc
    split at h
    · cases h
      exact .preparingDone hpc
    · rename_i w rest hq
      split at hq
      · rename_i hlt
        simp only at h
        split at h
        · rename_i ex hex
          cases h
          exact .prepareThrow (by simp [prepares, hpc, hlt, hq]) hex
        · rename_i uring hok
          cases h
          have hpending : (s.engine.setSubmitQueue rest kind).pendingSubmitCount =
              s.engine.pendingSubmitCount := by cases kind <;> rfl
          rw [hpending]
          exact .prepare hpc hlt hq hok
      · cases hq
  · rename_i maxN progressed hpc
    split at h
    · cases h
      exact .submittingDone hpc ‹_›
    · cases h
  · rename_i maxN progressed completed hpc
    split at h
    · rename_i w result rest engine hcq hreap
      split at hcq
      · rename_i hlt
        cases h
        simp only [Engine.reapOne, hcq] at hreap
        cases hreap
        exact .reap hpc hlt hcq
      · cases hcq
    · cases h
      exact .finish hpc

theorem submit_transition {ret : Int} (h : s.submit ret = some t) :
    Transition s (.submit ret) t := by
  unfold submit at h
  split at h
  · rename_i maxN progressed hpc
    simp only at h
    split at h
    · cases h
    split at h
    · exact .submitThrow (.inl ‹_›)
    split at h
    · exact .submitThrow (.inr ‹_›)
    · cases h
      exact .submit hpc (by omega) (by omega)
  · cases h

theorem step_transition (h : s.step a = some t) : Transition s a t := by
  cases a with
  | submitIoWaiting g =>
    simp only [step] at h
    split at h
    · rename_i hroom
      cases h
      exact .submitIo hroom.1 hroom.2 trivial
    · cases h
  | submitIoRead awaiter | submitIoWrite awaiter =>
    simp only [step] at h
    split at h
    · exact submitAwaiter_transition ‹_› h
    · cases h
  | pollIo maxN =>
    simp only [step] at h
    split at h
    · rename_i hpc
      cases h
      split
      · rename_i hzero
        subst hzero
        exact .pollNothing hpc
      · exact .pollIo hpc
    · cases h
  | next => exact next_transition h
  | submit ret => exact submit_transition h
  | complete k result =>
    simp only [step, IoUring.complete] at h
    split at h
    · rename_i w uring hw hu
      rw [hw] at hu
      cases hu
      cases h
      exact .complete hw
    · cases h

end Polling

end TinyCoroutine.Runtime
