import TinyCoroutine.Runtime.IoLedger

/-!
# The order of an engine's I/O

Requests of one kind keep their order: reads reach the kernel in the order in which they were
submitted, and so do writes and the handles of `io_suspend_once` on their way to the task queue.
Between the kinds there is none: a poll prepares reads first, and a write gets an entry only when
no read is left, so that writes wait as long as every poll finds enough reads.
-/
namespace TinyCoroutine.Runtime

open Foundation

def IoRequest.ofKind (kind : IoKind) : IoRequest → Option IoAwaiter
  | .waiting _ => none
  | .read w => if kind = .read then some w else none
  | .write w => if kind = .write then some w else none

def IoRequest.waiter : IoRequest → Option Handle
  | .waiting h => some h
  | _ => none

def Moved.waiter : Moved → Option Handle
  | .waiting h => some h
  | .completed _ _ => none

namespace Polling

variable {s t : Polling} {a : PollAction} {kind : IoKind}

/-- The entries of one kind that have been taken from the submit queue, in this order. -/
def taken (s : Polling) (kind : IoKind) : List IoAwaiter :=
  (s.consumed ++ s.engine.uring.sq).filter fun w => w.kind = kind

/-- The requests of each kind go through their queue in order, and writes wait for reads. -/
structure Ordered (s : Polling) : Prop where
  kinds : ∀ kind, ∀ w ∈ s.engine.submitQueue kind, w.kind = kind
  taken : ∀ kind, s.taken kind ++ s.engine.submitQueue kind =
    s.submitted.filterMap (IoRequest.ofKind kind)
  waiters : s.moved.filterMap Moved.waiter ++ s.engine.ioWaitingQueue =
    s.submitted.filterMap IoRequest.waiter
  reads : ∀ maxN progressed prepared, s.pc = .preparing .write maxN progressed prepared →
    s.engine.ioReadSubmitQueue = [] ∨ maxN ≤ prepared

theorem Ordered.init : Ordered {} where
  kinds kind w hw := by cases kind <;> cases hw
  taken kind := by cases kind <;> rfl
  waiters := rfl
  reads _ _ _ hpc := by cases hpc

/-- The loop over the reads ends when there are none left, or no room. -/
theorem reads_of_next {maxN progressed prepared : Nat}
    (hpc : s.pc = .preparing .read maxN progressed prepared)
    (hs : s.next = some { s with pc := .preparing .write maxN progressed prepared }) :
    s.engine.ioReadSubmitQueue = [] ∨ maxN ≤ prepared := by
  by_contra hnot
  push Not at hnot
  obtain ⟨w, rest, hq⟩ := List.exists_cons_of_ne_nil hnot.1
  simp only [next, hpc, if_pos hnot.2, Engine.submitQueue, hq] at hs
  split at hs <;> simp [throw] at hs

/-- A step after which no write is about to be prepared, and that leaves the queues alone. -/
theorem Ordered.goto (I : s.Ordered) (hqueues : ∀ kind, t.engine.submitQueue kind =
      s.engine.submitQueue kind) (hwaiting : t.engine.ioWaitingQueue = s.engine.ioWaitingQueue)
    (htaken : t.consumed ++ t.engine.uring.sq = s.consumed ++ s.engine.uring.sq)
    (hsubmitted : t.submitted = s.submitted)
    (hmoved : t.moved.filterMap Moved.waiter = s.moved.filterMap Moved.waiter)
    (hpc : ∀ maxN progressed prepared, t.pc = .preparing .write maxN progressed prepared →
      t.engine.ioReadSubmitQueue = [] ∨ maxN ≤ prepared) : t.Ordered where
  kinds kind w hw := I.kinds kind w (hqueues kind ▸ hw)
  taken kind := by
    rw [Polling.taken, htaken, hqueues, hsubmitted]
    exact I.taken kind
  waiters := by rw [hmoved, hwaiting, hsubmitted, I.waiters]
  reads := hpc

theorem Ordered.submitIo (I : s.Ordered) {r : IoRequest} (hpc : s.pc = .idle) (hr : Typed r) :
    Ordered { s with engine := s.engine.submitIo r, submitted := s.submitted ++ [r] } where
  kinds kind w hw := by
    have hold := I.kinds kind w
    cases r with
    | waiting g => cases kind <;> exact hold hw
    | read v =>
      cases kind with
      | read =>
        rcases List.mem_append.mp hw with hw | hw
        · exact hold hw
        · rw [List.mem_singleton.mp hw]
          exact hr
      | write => exact hold hw
    | write v =>
      cases kind with
      | read => exact hold hw
      | write =>
        rcases List.mem_append.mp hw with hw | hw
        · exact hold hw
        · rw [List.mem_singleton.mp hw]
          exact hr
  taken kind := by
    have htaken := I.taken kind
    rw [List.filterMap_append, ← htaken]
    cases r <;> cases kind <;> simp [Polling.taken, Engine.submitIo, Engine.pushIo,
      Engine.submitQueue, Engine.onIoInflightBegin, IoRequest.ofKind]
  waiters := by
    rw [List.filterMap_append, ← I.waiters]
    cases r <;> simp [Engine.submitIo, Engine.pushIo, Engine.onIoInflightBegin, IoRequest.waiter]
  reads _ _ _ hwrite := by simp [hpc] at hwrite

theorem Ordered.moveWaiting (I : s.Ordered) {h : Handle} {rest : List Handle}
    {maxN progressed : Nat} (hq : s.engine.ioWaitingQueue = h :: rest) :
    Ordered { s with
      engine := { s.engine.onIoInflightEnd with
        taskQueue := s.engine.taskQueue ++ [h], ioWaitingQueue := rest }
      pc := .waiting maxN progressed
      moved := s.moved ++ [.waiting h] } where
  kinds kind w hw := I.kinds kind w (by cases kind <;> exact hw)
  taken kind := by
    rw [← I.taken kind]
    cases kind <;> rfl
  waiters := by
    rw [← I.waiters, hq, List.filterMap_append]
    simp [Moved.waiter]
  reads _ _ _ hpc := by cases hpc

theorem Ordered.prepare (I : s.Ordered) {maxN progressed prepared : Nat} {w : IoAwaiter}
    {rest : List IoAwaiter} {uring : IoUring}
    (hpc : s.pc = .preparing kind maxN progressed prepared) (hlt : prepared < maxN)
    (hq : s.engine.submitQueue kind = w :: rest) (hprepare : s.engine.uring.prepare w = .ok uring) :
    Ordered { s with
      engine := { s.engine.setSubmitQueue rest kind with
        uring, pendingSubmitCount := s.engine.pendingSubmitCount + 1 }
      pc := .preparing kind maxN progressed (prepared + 1) } := by
  have hsq : uring.sq = s.engine.uring.sq ++ [w] := by
    unfold IoUring.prepare at hprepare
    split at hprepare
    · cases hprepare
      rfl
    · cases hprepare
  have hw : w.kind = kind := I.kinds kind w (hq ▸ List.mem_cons_self)
  have hqueue (k : IoKind) : Engine.submitQueue { s.engine.setSubmitQueue rest kind with
      uring, pendingSubmitCount := s.engine.pendingSubmitCount + 1 } k =
        if k = kind then rest else s.engine.submitQueue k := by
    cases k <;> cases kind <;> rfl
  constructor
  · intro k v hv
    rw [hqueue] at hv
    split at hv
    · subst k
      exact I.kinds kind v (hq ▸ List.mem_cons_of_mem _ hv)
    · exact I.kinds k v hv
  · intro k
    have htaken := I.taken k
    rw [hqueue, Polling.taken, hsq, ← htaken, Polling.taken, ← List.append_assoc,
      List.filter_append _ [w], List.append_assoc]
    by_cases hk : k = kind
    · subst hk
      simp [hw, hq]
    · have hwk : w.kind ≠ k := fun h => hk (h.symm.trans hw)
      simp [hk, hwk]
  · cases kind <;> exact I.waiters
  · intro _ _ _ hwrite
    cases kind with
    | read => simp at hwrite
    | write => exact .inl ((I.reads _ _ _ hpc).resolve_right (Nat.not_le_of_lt hlt))

theorem Ordered.preserved (I : s.Ordered) (L : s.Inv) (hC : RingOk s a)
    (hs : s.step a = some t) : t.Ordered := by
  have h := step_transition hs
  cases h with
  | submitIo hpc _ hr => exact I.submitIo hpc hr
  | submitNull => exact I
  | pollNothing hpc =>
    refine I.goto (fun _ => rfl) rfl rfl rfl rfl ?_
    intro _ _ _ hwrite
    simp [finish] at hwrite
  | pollIo hpc =>
    refine I.goto (fun _ => rfl) rfl rfl rfl rfl ?_
    intro _ _ _ hwrite
    simp at hwrite
  | moveWaiting hpc _ hq => exact I.moveWaiting hq
  | waitingDone hpc =>
    refine I.goto (fun _ => rfl) rfl rfl rfl rfl ?_
    intro _ _ _ hwrite
    simp at hwrite
  | prepareThrow hw hex =>
    have hroom := hC _ hw
    simp [IoUring.prepare, hroom] at hex
  | prepare hpc hlt hq hprepare => exact I.prepare hpc hlt hq hprepare
  | @preparingDone kind maxN progressed prepared hpc =>
    refine I.goto (fun _ => rfl) rfl rfl rfl rfl ?_
    intro _ _ _ hwrite
    cases kind with
    | write => simp [afterPreparing] at hwrite
    | read =>
      obtain ⟨rfl, rfl, rfl⟩ : maxN = _ ∧ progressed = _ ∧ prepared = _ := by
        simpa [afterPreparing] using hwrite
      have hreads : s.engine.ioReadSubmitQueue = [] ∨ maxN ≤ prepared := reads_of_next hpc hs
      exact hreads
  | submitThrow hbad =>
    have hpending := L.pending
    obtain ⟨hpos, hle⟩ := hC
    omega
  | @submit maxN progressed ret hpc _ hle =>
    refine I.goto (fun kind => by cases kind <;> rfl) rfl ?_ rfl rfl ?_
    · simp [IoUring.submit]
    · intro _ _ _ hwrite
      simp at hwrite
  | submittingDone hpc =>
    refine I.goto (fun _ => rfl) rfl rfl rfl rfl ?_
    intro _ _ _ hwrite
    simp at hwrite
  | reap hpc _ hcq =>
    refine I.goto (fun kind => by cases kind <;> rfl) rfl rfl rfl ?_ ?_
    · simp [Moved.waiter]
    · intro _ _ _ hwrite
      simp at hwrite
  | finish hpc =>
    refine I.goto (fun _ => rfl) rfl rfl rfl rfl ?_
    intro _ _ _ hwrite
    simp [finish] at hwrite
  | complete hw =>
    refine I.goto (fun kind => by cases kind <;> rfl) rfl rfl rfl rfl ?_
    exact I.reads

theorem Ordered.of_run (run : Run step RingOk {} s) : s.Ordered := by
  have hboth : s.Inv ∧ s.Ordered := by
    refine run.invariant (I := fun s => s.Inv ∧ s.Ordered) ⟨.init, .init⟩ ?_
    intro s a t I hC h
    exact ⟨I.1.preserved hC (step_transition h), I.2.preserved I.1 hC h⟩
  exact hboth.2

/-- The room that is left for a write was not needed for a read. -/
theorem Ordered.reads_of_prepares (I : s.Ordered) {w : IoAwaiter} (hw : w ∈ s.prepares)
    (hkind : w.kind = .write) : s.engine.ioReadSubmitQueue = [] := by
  cases hpc : s.pc with
  | preparing kind maxN progressed prepared =>
    simp only [prepares, hpc] at hw
    split at hw
    · rename_i hlt
      obtain rfl : kind = .write := by
        rw [← hkind]
        exact (I.kinds kind w (List.mem_of_mem_head? hw)).symm
      exact (I.reads _ _ _ hpc).resolve_right (Nat.not_le_of_lt hlt)
    · cases hw
  | _ => simp [prepares, hpc] at hw

/-- What every run of an engine and its ring keeps of the order of the requests. -/
theorem io_requests_keep_order (run : Run step RingOk {} s) :
    (∀ kind, s.taken kind ++ s.engine.submitQueue kind =
      s.submitted.filterMap (IoRequest.ofKind kind)) ∧
    s.moved.filterMap Moved.waiter ++ s.engine.ioWaitingQueue =
      s.submitted.filterMap IoRequest.waiter ∧
    ∀ w ∈ s.prepares, w.kind = .write → s.engine.ioReadSubmitQueue = [] :=
  have I := Ordered.of_run run
  ⟨I.taken, I.waiters, fun _ hw hkind => I.reads_of_prepares hw hkind⟩

/-- Two `poll_io(1)` take the two reads one by one, and the write that was submitted between them
is still queued. -/
theorem io_requests_keep_order_waiting_write :
    let r₁ : IoAwaiter := ⟨.read, 100, 3, 0, 8, 0, 1⟩
    let w : IoAwaiter := ⟨.write, 200, 4, 0, 8, 0, 2⟩
    let r₂ : IoAwaiter := ⟨.read, 300, 3, 0, 8, 0, 3⟩
    ∃ s, Run step RingOk {} s ∧ s.submitted = [.read r₁, .write w, .read r₂] ∧
      s.taken .read ++ s.engine.submitQueue .read = [r₁, r₂] ∧ s.engine.submitQueue .read = [] ∧
      s.engine.submitQueue .write = [w] ∧ s.returned.map PollReturn.value = [1, 1] := by
  intro r₁ w r₂
  obtain ⟨s, hs, hsubmitted, hstate⟩ := exists_run step RingOk {}
    [.submitIoRead (some r₁), .submitIoWrite (some w), .submitIoRead (some r₂),
      .pollIo 1, .next, .next, .next, .next, .submit 1, .next, .next,
      .pollIo 1, .next, .next, .next, .next, .submit 1, .next, .next]
    (fun s => s.submitted = [.read r₁, .write w, .read r₂] ∧
      s.engine.submitQueue .read = [] ∧ s.engine.submitQueue .write = [w] ∧
      s.returned.map PollReturn.value = [1, 1]) (by decide)
  have hread := (io_requests_keep_order hs).1 .read
  rw [hsubmitted] at hread
  exact ⟨s, hs, hsubmitted, hread, hstate⟩

end Polling

end TinyCoroutine.Runtime
