import TinyCoroutine.Runtime.Polling
import TinyCoroutine.Runtime.Step

/-!
# The submission ring has room

`poll_io` takes an awaiter from its queue before it asks the ring for an entry, so a full ring
would lose the awaiter. Here the calls of other threads come between the iterations of `poll_io`
wherever the mutex is free, and a peek may fail.

A `poll_io` that does not throw leaves the ring empty: it submits until the count of prepared
entries is zero, and the count is the number of entries in the ring. The two loops that prepare
entries share one budget of `max_n`.
-/
namespace TinyCoroutine.Runtime

open Foundation

theorem Engine.submitQueue_pushIo (e : Engine) (r : IoRequest) (kind : IoKind) :
    ∃ pushed, (e.pushIo r).submitQueue kind = e.submitQueue kind ++ pushed := by
  cases r with
  | waiting h => exact ⟨[], by cases kind <;> simp [pushIo, submitQueue]⟩
  | read w => cases kind with
    | read => exact ⟨[w], rfl⟩
    | write => exact ⟨[], (List.append_nil _).symm⟩
  | write w => cases kind with
    | read => exact ⟨[], (List.append_nil _).symm⟩
    | write => exact ⟨[w], rfl⟩

/-- A call besides `poll_io`: one critical section, or one access to a counter. -/
inductive EngineCall where
  | submitTask (h : Handle)
  | tryPopTask
  | popBatch (maxN : Nat)
  | pushIo (r : IoRequest)
  | onTaskResumeBegin
  | onTaskResumeEnd
  | onIoInflightBegin
  | onIoInflightEnd
  deriving DecidableEq, Repr

namespace EngineCall

def run (e : Engine) : EngineCall → Engine
  | submitTask h => e.submitTask h
  | tryPopTask => e.tryPopTask.2
  | popBatch maxN => (e.popBatch maxN).2
  | pushIo r => e.pushIo r
  | onTaskResumeBegin => e.onTaskResumeBegin
  | onTaskResumeEnd => e.onTaskResumeEnd
  | onIoInflightBegin => e.onIoInflightBegin
  | onIoInflightEnd => e.onIoInflightEnd

def takesMutex : EngineCall → Bool
  | submitTask _ | tryPopTask | popBatch _ | pushIo _ => true
  | _ => false

@[simp] theorem uring_run (e : Engine) (c : EngineCall) : (c.run e).uring = e.uring := by
  cases c with
  | tryPopTask =>
    simp only [run, Engine.tryPopTask]
    split <;> rfl
  | pushIo r => cases r <;> rfl
  | _ => rfl

@[simp] theorem pendingSubmitCount_run (e : Engine) (c : EngineCall) :
    (c.run e).pendingSubmitCount = e.pendingSubmitCount := by
  cases c with
  | tryPopTask =>
    simp only [run, Engine.tryPopTask]
    split <;> rfl
  | pushIo r => cases r <;> rfl
  | _ => rfl

theorem submitQueue_run (e : Engine) (c : EngineCall) (kind : IoKind) :
    ∃ pushed, (c.run e).submitQueue kind = e.submitQueue kind ++ pushed := by
  cases c with
  | tryPopTask =>
    refine ⟨[], ?_⟩
    simp only [run, Engine.tryPopTask, List.append_nil]
    split <;> rfl
  | pushIo r => exact e.submitQueue_pushIo r kind
  | _ => exact ⟨[], (List.append_nil _).symm⟩

end EngineCall

/-- A step of the thread that polls, or of another. -/
inductive EngineAction where
  | poll (action : PollAction)
  /-- `io_uring_peek_cqe` fails -/
  | peekFails
  | call (c : EngineCall)
  deriving DecidableEq, Repr

namespace Polling

/-- `poll_io` is in its critical section. -/
def locked (s : Polling) : Bool :=
  match s.pc with
  | .idle | .completing .. => false
  | _ => true

def engineStep (s : Polling) : EngineAction → Option Polling
  | .poll a => s.step a
  | .peekFails =>
    match s.pc with
    | .completing .. => some (s.throw s.engine (.runtimeError "io_uring_peek_cqe failed"))
    | _ => none
  | .call c =>
    if c.takesMutex && s.locked then none else some { s with engine := c.run s.engine }

/-- An engine with a ring of the given depth. -/
def start (queueDepth : Nat) : Polling := { engine := { uring := { queueDepth } } }

/-- `poll_io` is called with at most the depth of the ring, and the kernel takes no more entries
than the ring holds. -/
def RingLaws (s : Polling) : EngineAction → Prop
  | .poll (.pollIo maxN) => maxN ≤ s.engine.uring.queueDepth
  | .poll (.submit ret) => ret.toNat ≤ s.engine.uring.sq.length
  | _ => True

instance (s : Polling) (a : EngineAction) : Decidable (s.RingLaws a) :=
  match a with
  | .poll (.pollIo _) => inferInstanceAs (Decidable (_ ≤ _))
  | .poll (.submit _) => inferInstanceAs (Decidable (_ ≤ _))
  | .poll (.submitIoWaiting _) | .poll (.submitIoRead _) | .poll (.submitIoWrite _)
  | .poll .next | .poll (.complete _ _) | .peekFails | .call _ => .isTrue trivial

/-- From `s` to `t` the queue has only grown, or its first awaiter has got an entry. -/
def Served (s t : Polling) (kind : IoKind) : Prop :=
  (∃ pushed, t.engine.submitQueue kind = s.engine.submitQueue kind ++ pushed) ∨
  ∃ w rest, s.engine.submitQueue kind = w :: rest ∧ t.engine.submitQueue kind = rest ∧
    t.engine.uring.sq = s.engine.uring.sq ++ [w]

def submitFailed : Exn := .runtimeError "io_uring_submit failed in runtime::Engine"

def peekFailed : Exn := .runtimeError "io_uring_peek_cqe failed"

/-- What the next step finds in the ring, and what it can throw. -/
structure RingSafe (s : Polling) : Prop where
  /-- The next awaiter to be prepared gets an entry. -/
  room : ∀ w ∈ s.prepares, ∃ uring, s.engine.uring.prepare w = .ok uring
  served : ∀ {a t}, s.RingLaws a → s.engineStep a = some t → ∀ kind, Served s t kind
  /-- The first exception is that of a failed `io_uring_submit` or `io_uring_peek_cqe`. -/
  throws : ∀ {a t}, s.RingLaws a → s.engineStep a = some t →
    t.thrown = [] ∨ t.thrown = [submitFailed] ∨ t.thrown = [peekFailed]

/-! ## The count is the number of entries -/

def PcSpace (s : Polling) : Prop :=
  match s.pc with
  | .idle | .completing .. => s.engine.uring.sq = []
  | .waiting maxN _ => s.engine.uring.sq = [] ∧ maxN ≤ s.engine.uring.queueDepth
  | .preparing _ maxN _ prepared =>
    s.engine.uring.sq.length = prepared ∧ maxN ≤ s.engine.uring.queueDepth
  | .submitting .. => True

/-- The invariant as long as nothing has been thrown. -/
structure Spacious (s : Polling) : Prop where
  pending : s.engine.pendingSubmitCount = s.engine.uring.sq.length
  space : s.PcSpace

/-- A step that keeps the invariant, or throws for a reason outside the library. -/
inductive SafeStep (s t : Polling) : Prop where
  | proceeds : t.Spacious → t.thrown = s.thrown → (∀ kind, Served s t kind) → SafeStep s t
  | throws : t.thrown = s.thrown ++ [submitFailed] ∨ t.thrown = s.thrown ++ [peekFailed] →
      (∀ kind, Served s t kind) → SafeStep s t

variable {s t : Polling} {a : PollAction}

theorem Served.of_eq {kind : IoKind}
    (h : t.engine.submitQueue kind = s.engine.submitQueue kind) : Served s t kind :=
  .inl ⟨[], by rw [h, List.append_nil]⟩

theorem Spacious.room (h : s.Spacious) {w : IoAwaiter} (hw : w ∈ s.prepares) :
    s.engine.uring.prepare w = .ok { s.engine.uring with sq := s.engine.uring.sq ++ [w] } := by
  have hspace := h.space
  unfold prepares at hw
  unfold PcSpace at hspace
  split at hw
  · rename_i kind maxN progressed prepared hpc
    rw [hpc] at hspace
    split at hw
    · exact if_pos (by omega)
    · cases hw
  · cases hw

/-- The ring and its count are as before. -/
theorem Spacious.of_engine (h : s.Spacious) (hpc : t.pc = s.pc)
    (hpending : t.engine.pendingSubmitCount = s.engine.pendingSubmitCount)
    (hsq : t.engine.uring.sq = s.engine.uring.sq)
    (hdepth : t.engine.uring.queueDepth = s.engine.uring.queueDepth) : t.Spacious := by
  refine ⟨by rw [hpending, hsq, h.pending], ?_⟩
  have hspace := h.space
  unfold PcSpace at hspace ⊢
  rw [hpc, hsq, hdepth]
  exact hspace

theorem Spacious.goto (h : s.Spacious) {pc : PollPc} (hspace : PcSpace { s with pc }) :
    Spacious { s with pc } := ⟨h.pending, hspace⟩

theorem Spacious.submitStep (h : s.Spacious) {ret : Int}
    (hret : ret.toNat ≤ s.engine.uring.sq.length) (ht : s.submit ret = some t) :
    SafeStep s t := by
  have hpending := h.pending
  unfold submit at ht
  split at ht
  · rename_i maxN progressed hpc
    simp only at ht
    split at ht
    · cases ht
    split at ht
    · cases ht
      exact .throws (.inl rfl) fun kind => .of_eq rfl
    split at ht
    · omega
    · cases ht
      refine .proceeds ⟨?_, trivial⟩ rfl fun kind => .of_eq ?_
      · simp only [IoUring.submit, List.length_drop]
        omega
      · cases kind <;> rfl
  · cases ht

theorem Spacious.prepareStep (h : s.Spacious) {kind : IoKind} {maxN progressed prepared : Nat}
    {w : IoAwaiter} {rest : List IoAwaiter} {uring : IoUring}
    (hpc : s.pc = .preparing kind maxN progressed prepared) (hlt : prepared < maxN)
    (hq : s.engine.submitQueue kind = w :: rest)
    (hok : s.engine.uring.prepare w = .ok uring) :
    SafeStep s { s with
      engine := { s.engine.setSubmitQueue rest kind with
        uring, pendingSubmitCount := s.engine.pendingSubmitCount + 1 }
      pc := .preparing kind maxN progressed (prepared + 1) } := by
  have hw : w ∈ s.prepares := by simp [prepares, hpc, hlt, hq]
  have huring := hok.symm.trans (h.room hw)
  cases huring
  have hspace := h.space
  simp only [PcSpace, hpc] at hspace
  refine .proceeds ⟨?_, ?_, hspace.2⟩ rfl fun kind' => ?_
  · simp [h.pending]
  · simp [hspace.1]
  · cases kind with
    | read =>
      cases kind' with
      | read => exact .inr ⟨w, rest, hq, rfl, rfl⟩
      | write => exact .of_eq rfl
    | write =>
      cases kind' with
      | read => exact .of_eq rfl
      | write => exact .inr ⟨w, rest, hq, rfl, rfl⟩

theorem Spacious.pollStep (h : s.Spacious) (hlaws : s.RingLaws (.poll a))
    (ht : s.step a = some t) : SafeStep s t := by
  have hspace := h.space
  unfold PcSpace at hspace
  have hT := step_transition ht
  cases hT with
  | submitIo hpc hr =>
    refine .proceeds (h.of_engine rfl ?_ ?_ ?_) rfl fun kind => .inl ?_
    · exact EngineCall.pendingSubmitCount_run s.engine.onIoInflightBegin (.pushIo _)
    · exact congrArg IoUring.sq (EngineCall.uring_run s.engine.onIoInflightBegin (.pushIo _))
    · exact congrArg IoUring.queueDepth
        (EngineCall.uring_run s.engine.onIoInflightBegin (.pushIo _))
    · exact s.engine.onIoInflightBegin.submitQueue_pushIo _ kind
  | submitNull => exact .proceeds h rfl fun kind => .of_eq rfl
  | pollNothing hpc =>
    rw [hpc] at hspace
    exact .proceeds ⟨h.pending, hspace⟩ rfl fun kind => .of_eq rfl
  | pollIo hpc =>
    rw [hpc] at hspace
    exact .proceeds ⟨h.pending, hspace, hlaws⟩ rfl fun kind => .of_eq rfl
  | moveWaiting hpc hlt hq =>
    rw [hpc] at hspace
    exact .proceeds ⟨h.pending, hspace⟩ rfl fun kind => .of_eq (by cases kind <;> rfl)
  | waitingDone hpc =>
    rw [hpc] at hspace
    refine .proceeds (h.goto ⟨?_, hspace.2⟩) rfl fun kind => .of_eq rfl
    simp [hspace.1]
  | prepareThrow hw hex =>
    rw [h.room hw] at hex
    cases hex
  | prepare hpc hlt hq hok => exact h.prepareStep hpc hlt hq hok
  | @preparingDone kind maxN progressed prepared hpc =>
    rw [hpc] at hspace
    refine .proceeds (h.goto ?_) rfl fun kind => .of_eq rfl
    cases kind with
    | read => exact hspace
    | write => trivial
  | submitThrow hthrow => exact h.submitStep hlaws ht
  | submit hpc hpos hle => exact h.submitStep hlaws ht
  | submittingDone hpc hzero =>
    refine .proceeds (h.goto (List.eq_nil_of_length_eq_zero ?_)) rfl fun kind => .of_eq rfl
    exact h.pending.symm.trans hzero
  | reap hpc hlt hcq =>
    rw [hpc] at hspace
    exact .proceeds ⟨h.pending, hspace⟩ rfl fun kind => .of_eq (by cases kind <;> rfl)
  | finish hpc =>
    rw [hpc] at hspace
    exact .proceeds ⟨h.pending, hspace⟩ rfl fun kind => .of_eq rfl
  | complete hk =>
    exact .proceeds (h.of_engine rfl rfl rfl rfl) rfl fun kind => .of_eq (by cases kind <;> rfl)

theorem Spacious.safeStep {a : EngineAction} (h : s.Spacious) (hlaws : s.RingLaws a)
    (ht : s.engineStep a = some t) : SafeStep s t := by
  cases a with
  | poll a => exact h.pollStep hlaws ht
  | peekFails =>
    simp only [engineStep] at ht
    split at ht
    · cases ht
      exact .throws (.inr rfl) fun kind => .of_eq rfl
    · cases ht
  | call c =>
    simp only [engineStep] at ht
    split at ht
    · cases ht
    · cases ht
      refine .proceeds (h.of_engine rfl ?_ ?_ ?_) rfl fun kind => .inl ?_
      · exact c.pendingSubmitCount_run s.engine
      · exact congrArg IoUring.sq (c.uring_run s.engine)
      · exact congrArg IoUring.queueDepth (c.uring_run s.engine)
      · exact c.submitQueue_run s.engine kind

/-! ## Runs -/

theorem thrown_submit {ret : Int} (ht : s.submit ret = some t) : s.thrown <+: t.thrown := by
  unfold submit at ht
  split at ht
  · simp only at ht
    split at ht
    · cases ht
    split at ht
    · cases ht
      exact List.prefix_append _ _
    split at ht
    · cases ht
      exact List.prefix_append _ _
    · cases ht
      exact List.prefix_refl _
  · cases ht

/-- Nothing that has been thrown is forgotten. -/
theorem thrown_engineStep {a : EngineAction} (ht : s.engineStep a = some t) :
    s.thrown <+: t.thrown := by
  cases a with
  | poll a =>
    have hT := step_transition ht
    cases hT with
    | submitThrow hthrow => exact thrown_submit ht
    | prepareThrow hw hex => exact List.prefix_append _ _
    | _ => exact List.prefix_refl _
  | peekFails =>
    simp only [engineStep] at ht
    split at ht
    · cases ht
      exact List.prefix_append _ _
    · cases ht
  | call c =>
    simp only [engineStep] at ht
    split at ht
    · cases ht
    · cases ht
      exact List.prefix_refl _

theorem Spacious.of_run {queueDepth : Nat} (run : Run engineStep RingLaws (start queueDepth) s)
    (hthrown : s.thrown = []) : s.Spacious := by
  have hstart : (start queueDepth).thrown = [] → (start queueDepth).Spacious :=
    fun _ => ⟨rfl, rfl⟩
  refine run.invariant (I := fun s => s.thrown = [] → s.Spacious) hstart ?_ hthrown
  intro t a u ih hlaws hu hnone
  have ht : t.thrown = [] := List.prefix_nil.mp (hnone ▸ thrown_engineStep hu)
  cases (ih ht).safeStep hlaws hu with
  | proceeds hspacious _ _ => exact hspacious
  | throws hthrows _ => simp [hnone] at hthrows

/-- As long as no `poll_io` has thrown, the ring is never found full and no submission is
counted wrongly. -/
theorem ring_never_full {queueDepth : Nat} {s : Polling}
    (run : Run engineStep RingLaws (start queueDepth) s) (hthrown : s.thrown = []) :
    s.RingSafe := by
  have hspacious := Spacious.of_run run hthrown
  refine ⟨fun w hw => ⟨_, hspacious.room hw⟩, ?_, ?_⟩
  · intro a t hlaws ht
    cases hspacious.safeStep hlaws ht with
    | proceeds _ _ hserved => exact hserved
    | throws _ hserved => exact hserved
  · intro a t hlaws ht
    cases hspacious.safeStep hlaws ht with
    | proceeds _ hsame _ => exact .inl (hsame.trans hthrown)
    | throws hthrows _ =>
      rw [hthrown] at hthrows
      exact .inr hthrows

/-- The ring of a context in the second poll of its worker: a write is prepared, and one more
waits in its queue. -/
theorem ring_never_full_context :
    ∃ s, Run engineStep RingLaws (start 256) s ∧ s.thrown = [] ∧ s.prepares.isSome ∧
      s.engine.uring.sq.length = 1 ∧ s.RingSafe := by
  obtain ⟨s, run, hthrown, hprepares, hsq⟩ := exists_run engineStep RingLaws (start 256)
    [.call (.pushIo (.read ⟨.read, 1, 3, 0, 8, 0, 7⟩)), .poll (.pollIo kIoPollBatchSize),
      .poll .next, .poll .next, .call .onIoInflightBegin, .poll .next, .poll .next,
      .poll (.submit 1), .poll .next, .call (.pushIo (.write ⟨.write, 2, 3, 0, 8, 0, 8⟩)),
      .call (.pushIo (.write ⟨.write, 3, 3, 0, 8, 8, 9⟩)), .poll .next,
      .poll (.pollIo kIoPollBatchSize), .poll .next, .poll .next, .poll .next]
    (fun s => s.thrown = [] ∧ s.prepares.isSome ∧ s.engine.uring.sq.length = 1) (by decide)
  exact ⟨s, run, hthrown, hprepares, hsq, ring_never_full run hthrown⟩

end Polling

end TinyCoroutine.Runtime
