import TinyCoroutine.Runtime.Polling
import TinyCoroutine.Foundation.Sums

/-!
# The ledger of an engine's I/O

Every request that was submitted is in one place: in one of the three queues, prepared, with
the kernel, or moved to the task queue. The two counters of the engine are the number of
requests that are not moved and the number of entries that are prepared, and what
`poll_io` returns is the number of requests it has moved and submitted.

This is under what the ring promises: `io_uring_get_sqe` succeeds, and `io_uring_submit` takes
at least one and at most all of the prepared entries.
-/
namespace TinyCoroutine.Runtime

open Foundation

/-- Where a request may be. -/
inductive IoPlace where
  | waitingQueue
  | submitQueue (kind : IoKind)
  | prepared
  | kernel
  | taskQueue
  deriving DecidableEq, Repr

def IoPlace.all : List IoPlace :=
  [.waitingQueue, .submitQueue .read, .submitQueue .write, .prepared, .kernel, .taskQueue]

theorem IoPlace.mem_all (p : IoPlace) : p ∈ IoPlace.all := by
  rcases p with _ | ⟨_ | _⟩ | _ | _ | _ <;> decide

/-- The completion entry with which a request was moved. -/
def Moved.entry : Moved → Option (IoAwaiter × Int)
  | .waiting _ => none
  | .completed a result => some (a, result)

/-- The requests that are not moved to the task queue yet. -/
def Engine.openIo (e : Engine) : Multiset IoRequest :=
  (e.ioWaitingQueue : Multiset Handle).map .waiting +
    (e.ioReadSubmitQueue + e.ioWriteSubmitQueue + e.uring.awaiters : Multiset IoAwaiter).map
      IoAwaiter.request

namespace Polling

variable {s t : Polling} {a : PollAction}

/-- The requests at a place. A finished operation stays with the kernel until `poll_io` takes
its completion entry. -/
def requests (s : Polling) : IoPlace → Multiset IoRequest
  | .waitingQueue => (s.engine.ioWaitingQueue : Multiset Handle).map .waiting
  | .submitQueue kind => (s.engine.submitQueue kind : Multiset IoAwaiter).map IoAwaiter.request
  | .prepared => (s.engine.uring.sq : Multiset IoAwaiter).map IoAwaiter.request
  | .kernel => (s.engine.uring.kernel + s.engine.uring.cq.map Prod.fst : Multiset IoAwaiter).map
      IoAwaiter.request
  | .taskQueue => (s.moved : Multiset Moved).map Moved.request

/-- What the ring promises. -/
def RingOk (s : Polling) : PollAction → Prop
  | .next => ∀ w ∈ s.prepares, s.engine.uring.sq.length < s.engine.uring.queueDepth
  | .submit ret => 1 ≤ ret ∧ ret ≤ s.engine.uring.sq.length
  | _ => True

instance (s : Polling) (a : PollAction) : Decidable (RingOk s a) :=
  match a with
  | .next => inferInstanceAs (Decidable (∀ w ∈ s.prepares, _))
  | .submit _ => inferInstanceAs (Decidable (_ ∧ _))
  | .submitIoWaiting _ => inferInstanceAs (Decidable True)
  | .submitIoRead _ => inferInstanceAs (Decidable True)
  | .submitIoWrite _ => inferInstanceAs (Decidable True)
  | .pollIo _ => inferInstanceAs (Decidable True)
  | .complete _ _ => inferInstanceAs (Decidable True)

/-- What the current `poll_io` has moved and submitted so far. -/
def progress (s : Polling) : Nat :=
  (s.moved.drop s.movedBefore).length + (s.consumed.drop s.consumedBefore).length

/-- The counts of a `poll_io` between two iterations. -/
def PcOk (s : Polling) : Prop :=
  match s.pc with
  | .idle => s.engine.uring.sq = []
  | .waiting _ progressed => s.engine.uring.sq = [] ∧ progressed = s.progress
  | .preparing _ _ progressed _ => progressed = s.progress
  | .submitting _ progressed => progressed = s.progress
  | .completing _ progressed completed =>
    s.engine.uring.sq = [] ∧ progressed + completed = s.progress

/-- The last completion that was stored in an awaiter is still there. -/
def ResultsKept (s : Polling) : Prop :=
  ∀ before w result after, s.moved = before ++ .completed w result :: after →
    (∀ v r, .completed v r ∈ after → v.addr ≠ w.addr) → s.engine.results w.addr = result

structure Inv (s : Polling) : Prop where
  places : s.engine.openIo + (s.moved : Multiset Moved).map Moved.request = s.submitted
  taskQueue : s.engine.taskQueue = s.moved.map Moved.handle
  inflight : s.engine.inflightIo + s.moved.length = s.submitted.length
  pending : s.engine.pendingSubmitCount = s.engine.uring.sq.length
  entries : s.finished = s.moved.filterMap Moved.entry ++ s.engine.uring.cq
  consumed : (s.consumed : Multiset IoAwaiter) = s.engine.uring.kernel + s.finished.map Prod.fst
  results : s.ResultsKept
  pc : s.PcOk
  movedBefore : s.movedBefore ≤ s.moved.length
  consumedBefore : s.consumedBefore ≤ s.consumed.length
  returned : ∀ r ∈ s.returned, r.value = r.moved.length + r.submitted.length
  thrown : s.thrown = []

theorem Inv.init : Inv {} where
  places := rfl
  taskQueue := rfl
  inflight := rfl
  pending := rfl
  entries := rfl
  consumed := rfl
  results before w result after hmoved := by simp at hmoved
  pc := rfl
  movedBefore := Nat.le_refl _
  consumedBefore := Nat.le_refl _
  returned r hr := by cases hr
  thrown := rfl

/-! ### The steps of `poll_io` that move nothing -/

theorem Inv.goto (I : s.Inv) {pc : PollPc} (hpc : PcOk { s with pc }) : Inv { s with pc } :=
  { I with pc := hpc }

theorem Inv.begin (I : s.Inv) (hpc : s.pc = .idle) : Inv { s with
    movedBefore := s.moved.length, consumedBefore := s.consumed.length } := by
  have hsq : s.engine.uring.sq = [] := by
    have hok := I.pc
    simpa only [PcOk, hpc] using hok
  refine { I with movedBefore := Nat.le_refl _, consumedBefore := Nat.le_refl _, pc := ?_ }
  simp only [PcOk, hpc]
  exact hsq

theorem Inv.finish (I : s.Inv) {value : Nat} (hsq : s.engine.uring.sq = [])
    (hvalue : value = s.progress) : Inv (s.finish value) := by
  refine { I with pc := hsq, returned := fun r hr => ?_ }
  rcases List.mem_append.mp hr with hr | hr
  · exact I.returned r hr
  · rw [List.mem_singleton.mp hr]
    exact hvalue

/-! ### Requests that change their place -/

theorem Inv.card_openIo (I : s.Inv) : s.engine.inflightIo = Multiset.card s.engine.openIo := by
  have hcard := congrArg Multiset.card I.places
  have hinflight := I.inflight
  simp only [Multiset.card_add, Multiset.card_map, Multiset.coe_card] at hcard
  omega

theorem card_ioHandles (e : Engine) : Multiset.card e.ioHandles = Multiset.card e.openIo := by
  simp only [Engine.ioHandles, Engine.openIo, Multiset.card_add, Multiset.card_map]

theorem openIo_submitIo {r : IoRequest} (hr : Typed r) (e : Engine) :
    (e.submitIo r).openIo = e.openIo + {r} := by
  have hawaiter : ∀ w, r = .read w ∨ r = .write w → w.request = r := by
    rintro w (rfl | rfl) <;> rw [IoAwaiter.request, show w.kind = _ from hr]
  cases r with
  | waiting h =>
    simp only [Engine.openIo, Engine.submitIo, Engine.pushIo, Engine.onIoInflightBegin,
      ← Multiset.coe_add, Multiset.coe_singleton, Multiset.map_add, Multiset.map_singleton]
    abel
  | read w | write w =>
    simp only [Engine.openIo, Engine.submitIo, Engine.pushIo, Engine.onIoInflightBegin,
      ← Multiset.coe_add, Multiset.coe_singleton, Multiset.map_add, Multiset.map_singleton,
      hawaiter w (by simp)]
    abel

theorem Inv.submitIo (I : s.Inv) {r : IoRequest} (hpc : s.pc = .idle) (hroom : s.engine.IoRoom)
    (hr : Typed r) :
    Inv { s with engine := s.engine.submitIo r, submitted := s.submitted ++ [r] } := by
  have hsq : s.engine.uring.sq = [] := by simpa only [PcOk, hpc] using I.pc
  have hring : (s.engine.submitIo r).uring = s.engine.uring := by cases r <;> rfl
  refine { I with
    places := ?_, taskQueue := ?_, inflight := ?_, pending := ?_, entries := ?_, consumed := ?_
    results := ?_, pc := ?_ }
  · rw [openIo_submitIo hr, ← Multiset.coe_add, ← I.places, Multiset.coe_singleton]
    exact add_right_comm ..
  · cases r <;> exact I.taskQueue
  · have hinflight := I.inflight
    have hlt : s.engine.inflightIo + 1 < 2 ^ 64 := by
      rw [I.card_openIo, ← card_ioHandles]
      exact hroom
    have hnew : (s.engine.submitIo r).inflightIo = s.engine.inflightIo + 1 := by
      rw [Engine.inflightIo_submitIo, fetchAdd_of_lt hlt]
    simp only [hnew, List.length_append, List.length_singleton]
    omega
  · cases r <;> exact I.pending
  · simpa only [hring] using I.entries
  · simpa only [hring] using I.consumed
  · cases r <;> exact I.results
  · simpa only [PcOk, hpc, hring] using hsq

theorem ResultsKept.push (hk : s.ResultsKept) {e : Engine} {m : Moved} {pc : PollPc}
    (hresults : ∀ addr, (∀ w r, m = .completed w r → w.addr ≠ addr) →
      e.results addr = s.engine.results addr)
    (hnew : ∀ w r, m = .completed w r → e.results w.addr = r) :
    ResultsKept { s with engine := e, pc, moved := s.moved ++ [m] } := by
  intro before w result after hmoved hlast
  rcases List.eq_nil_or_concat after with rfl | ⟨rest, m', rfl⟩
  · obtain ⟨-, hm⟩ := List.append_inj' hmoved rfl
    exact hnew w result (List.singleton_inj.mp hm)
  · rw [List.concat_eq_append, ← List.cons_append, ← List.append_assoc] at hmoved
    obtain ⟨hold, hm⟩ := List.append_inj' hmoved rfl
    obtain rfl := List.singleton_inj.mp hm
    rw [hresults w.addr fun v r hv => hlast v r (by simp [hv])]
    exact hk before w result rest hold fun v r hv => hlast v r (by simp [hv])

theorem progress_push {e : Engine} {m : Moved} {pc : PollPc}
    (hle : s.movedBefore ≤ s.moved.length) :
    progress { s with engine := e, pc, moved := s.moved ++ [m] } = s.progress + 1 := by
  simp only [progress, List.drop_append_of_le_length hle, List.length_append,
    List.length_singleton]
  omega

/-- A request is moved to the task queue, from the queue of waiting handles or from the
completion entries. -/
theorem Inv.push (I : s.Inv) {e : Engine} {m : Moved} {pc : PollPc}
    (hopen : s.engine.openIo = e.openIo + {m.request})
    (htasks : e.taskQueue = s.engine.taskQueue ++ [m.handle])
    (hinflight : e.inflightIo = fetchSub s.engine.inflightIo 1)
    (hpending : e.pendingSubmitCount = s.engine.pendingSubmitCount)
    (hsq : e.uring.sq = s.engine.uring.sq) (hkernel : e.uring.kernel = s.engine.uring.kernel)
    (hcq : s.engine.uring.cq = m.entry.toList ++ e.uring.cq)
    (hresults : ∀ addr, (∀ w r, m = .completed w r → w.addr ≠ addr) →
      e.results addr = s.engine.results addr)
    (hnew : ∀ w r, m = .completed w r → e.results w.addr = r)
    (hpc : PcOk { s with engine := e, pc, moved := s.moved ++ [m] }) :
    Inv { s with engine := e, pc, moved := s.moved ++ [m] } := by
  have hpos : 0 < s.engine.inflightIo := by
    rw [I.card_openIo, hopen, Multiset.card_add, Multiset.card_singleton]
    omega
  have hold := I.inflight
  refine { I with
    places := ?_, taskQueue := ?_, inflight := ?_, pending := ?_, entries := ?_, consumed := ?_
    results := I.results.push hresults hnew, pc := hpc, movedBefore := ?_ }
  · rw [← I.places, hopen, ← Multiset.coe_add, Multiset.coe_singleton, Multiset.map_add,
      Multiset.map_singleton, add_right_comm, add_assoc]
  · simp [htasks, I.taskQueue]
  · simp only [hinflight, fetchSub_of_le hpos, List.length_append, List.length_singleton]
    omega
  · rw [hpending, hsq]
    exact I.pending
  · simp only [I.entries, hcq, List.filterMap_append, List.append_assoc]
    cases m <;> rfl
  · simpa only [hkernel] using I.consumed
  · simpa using Nat.le_succ_of_le I.movedBefore

theorem Inv.moveWaiting (I : s.Inv) {maxN progressed : Nat} {h : Handle} {rest : List Handle}
    (hpc : s.pc = .waiting maxN progressed) (hq : s.engine.ioWaitingQueue = h :: rest) :
    Inv { s with
      engine := { s.engine.onIoInflightEnd with
        taskQueue := s.engine.taskQueue ++ [h], ioWaitingQueue := rest }
      pc := .waiting maxN (progressed + 1)
      moved := s.moved ++ [.waiting h] } := by
  obtain ⟨hsq, hprogressed⟩ : s.engine.uring.sq = [] ∧ progressed = s.progress := by
    simpa only [PcOk, hpc] using I.pc
  refine I.push ?_ rfl rfl rfl rfl rfl rfl (fun _ _ => rfl) (by simp) ?_
  · simp only [Engine.openIo, hq, Engine.onIoInflightEnd, ← Multiset.cons_coe, Moved.request,
      ← Multiset.singleton_add, Multiset.map_add, Multiset.map_singleton]
    abel
  · exact ⟨hsq, by rw [progress_push I.movedBefore, hprogressed]⟩

theorem Inv.reap (I : s.Inv) {maxN progressed completed : Nat} {w : IoAwaiter} {result : Int}
    {rest : List (IoAwaiter × Int)} (hpc : s.pc = .completing maxN progressed completed)
    (hcq : s.engine.uring.cq = (w, result) :: rest) :
    Inv { s with
      engine := { s.engine.onIoInflightEnd with
        taskQueue := s.engine.taskQueue ++ [w.handle]
        uring := { s.engine.uring with cq := rest }
        results := Function.update s.engine.results w.addr result }
      pc := .completing maxN progressed (completed + 1)
      moved := s.moved ++
        [.completed w (Function.update s.engine.results w.addr result w.addr)] } := by
  obtain ⟨hsq, hprogressed⟩ : s.engine.uring.sq = [] ∧ progressed + completed = s.progress := by
    simpa only [PcOk, hpc] using I.pc
  rw [Function.update_self]
  refine I.push ?_ rfl rfl rfl rfl rfl hcq ?_ ?_ ?_
  · simp only [Engine.openIo, IoUring.awaiters, hcq, Engine.onIoInflightEnd, List.map_cons,
      ← Multiset.cons_coe, Multiset.map_add, Moved.request, ← Multiset.singleton_add,
      Multiset.map_singleton]
    abel
  · intro addr hne
    exact Function.update_of_ne (hne w result rfl).symm ..
  · rintro v r hv
    obtain ⟨rfl, rfl⟩ : w = v ∧ result = r := by simpa using hv
    exact Function.update_self ..
  · refine ⟨hsq, ?_⟩
    rw [progress_push I.movedBefore]
    omega

/-- The ring or the submit queues change, and no request becomes runnable. -/
theorem Inv.of_openIo (I : s.Inv) {e : Engine} {pc : PollPc} {consumed : List IoAwaiter}
    {finished : List (IoAwaiter × Int)} (hopen : e.openIo = s.engine.openIo)
    (htasks : e.taskQueue = s.engine.taskQueue) (hinflight : e.inflightIo = s.engine.inflightIo)
    (hresults : e.results = s.engine.results)
    (hpending : e.pendingSubmitCount = e.uring.sq.length)
    (hentries : finished = s.moved.filterMap Moved.entry ++ e.uring.cq)
    (hconsumed : (consumed : Multiset IoAwaiter) = e.uring.kernel + finished.map Prod.fst)
    (hpc : PcOk { s with engine := e, pc, consumed, finished })
    (hle : s.consumedBefore ≤ consumed.length) :
    Inv { s with engine := e, pc, consumed, finished } := by
  refine { I with
    places := ?_, taskQueue := ?_, inflight := ?_, pending := hpending, entries := hentries
    consumed := hconsumed, results := ?_, pc := hpc, consumedBefore := hle }
  · rw [hopen]
    exact I.places
  · rw [htasks]
    exact I.taskQueue
  · rw [hinflight]
    exact I.inflight
  · intro before w result after hmoved hlast
    rw [hresults]
    exact I.results before w result after hmoved hlast

theorem Inv.prepare (I : s.Inv) {kind : IoKind} {maxN progressed prepared : Nat}
    {w : IoAwaiter} {rest : List IoAwaiter} {uring : IoUring}
    (hpc : s.pc = .preparing kind maxN progressed prepared)
    (hq : s.engine.submitQueue kind = w :: rest) (hok : s.engine.uring.prepare w = .ok uring) :
    Inv { s with
      engine := { s.engine.setSubmitQueue rest kind with
        uring, pendingSubmitCount := s.engine.pendingSubmitCount + 1 }
      pc := .preparing kind maxN progressed (prepared + 1) } := by
  have hprogressed : progressed = s.progress := by simpa only [PcOk, hpc] using I.pc
  obtain rfl : { s.engine.uring with sq := s.engine.uring.sq ++ [w] } = uring := by
    simp only [IoUring.prepare] at hok
    split at hok
    · exact Except.ok.inj hok
    · cases hok
  refine I.of_openIo ?_ (by cases kind <;> rfl) (by cases kind <;> rfl) (by cases kind <;> rfl) ?_
    I.entries I.consumed hprogressed I.consumedBefore
  · cases kind <;>
      simp only [Engine.submitQueue] at hq <;>
      simp only [Engine.openIo, Engine.setSubmitQueue, IoUring.awaiters, hq, ← Multiset.coe_add,
        ← Multiset.cons_coe, ← Multiset.singleton_add, Multiset.map_add] <;>
      abel
  · simp [I.pending]

theorem Inv.submit (I : s.Inv) {maxN progressed : Nat} {ret : Int}
    (hpc : s.pc = .submitting maxN progressed)
    (hle : ret.toNat ≤ s.engine.pendingSubmitCount) :
    Inv { s with
      engine := { s.engine with
        uring := s.engine.uring.submit ret.toNat
        pendingSubmitCount := s.engine.pendingSubmitCount - ret.toNat }
      pc := .submitting maxN (progressed + ret.toNat)
      consumed := s.consumed ++ s.engine.uring.sq.take ret.toNat } := by
  have hprogressed : progressed = s.progress := by simpa only [PcOk, hpc] using I.pc
  have hpending := I.pending
  have hconsumed := I.consumed
  have hbefore := I.consumedBefore
  refine I.of_openIo ?_ rfl rfl rfl ?_ I.entries ?_ ?_ ?_
  · simp only [Engine.openIo, IoUring.awaiters_submit]
  · simp [IoUring.submit, hpending]
  · rw [← Multiset.coe_add, hconsumed, IoUring.submit, ← Multiset.coe_add]
    exact add_right_comm ..
  · simp only [PcOk, progress, List.drop_append_of_le_length hbefore, List.length_append,
      List.length_take]
    simp only [progress] at hprogressed
    omega
  · simp only [List.length_append]
    omega

theorem Inv.complete (I : s.Inv) {k : Nat} {result : Int} {w : IoAwaiter}
    (hw : s.engine.uring.kernel[k]? = some w) :
    Inv { s with
      engine := { s.engine with uring := { s.engine.uring with
        kernel := s.engine.uring.kernel.eraseIdx k
        cq := s.engine.uring.cq ++ [(w, result)] } }
      finished := s.finished ++ [(w, result)] } := by
  have hcomplete : s.engine.uring.complete k result = some { s.engine.uring with
      kernel := s.engine.uring.kernel.eraseIdx k, cq := s.engine.uring.cq ++ [(w, result)] } := by
    simp [IoUring.complete, hw]
  refine I.of_openIo ?_ rfl rfl rfl I.pending ?_ ?_ I.pc I.consumedBefore
  · simp only [Engine.openIo, IoUring.awaiters_complete hcomplete]
  · simp [I.entries]
  · rw [I.consumed, IoUring.kernel_eraseIdx hw, List.map_append, ← Multiset.coe_add]
    simp only [List.map_cons, List.map_nil, Multiset.coe_singleton]
    abel

theorem Inv.preserved (I : s.Inv) (hC : RingOk s a) (h : Transition s a t) : t.Inv := by
  have hok := I.pc
  cases h with
  | submitIo hpc hroom hr => exact I.submitIo hpc hroom hr
  | submitNull => exact I
  | pollNothing hpc =>
    have hsq : s.engine.uring.sq = [] := by simpa only [PcOk, hpc] using hok
    exact (I.begin hpc).finish hsq (by simp [progress])
  | pollIo hpc =>
    have hsq : s.engine.uring.sq = [] := by simpa only [PcOk, hpc] using hok
    exact (I.begin hpc).goto ⟨hsq, by simp [progress]⟩
  | moveWaiting hpc _ hq => exact I.moveWaiting hpc hq
  | waitingDone hpc =>
    simp only [PcOk, hpc] at hok
    exact I.goto hok.2
  | prepareThrow hw hex =>
    have hroom := hC _ hw
    simp [IoUring.prepare, hroom] at hex
  | prepare hpc _ hq hprepare => exact I.prepare hpc hq hprepare
  | @preparingDone kind _ _ _ hpc =>
    simp only [PcOk, hpc] at hok
    cases kind <;> exact I.goto hok
  | submitThrow hbad =>
    have hpending := I.pending
    obtain ⟨hpos, hle⟩ := hC
    omega
  | submit hpc _ hle => exact I.submit hpc hle
  | submittingDone hpc hzero =>
    simp only [PcOk, hpc] at hok
    have hsq : s.engine.uring.sq = [] := List.length_eq_zero_iff.mp (I.pending ▸ hzero)
    exact I.goto ⟨hsq, hok⟩
  | reap hpc _ hcq => exact I.reap hpc hcq
  | finish hpc =>
    simp only [PcOk, hpc] at hok
    exact I.finish hok.1 hok.2
  | complete hw => exact I.complete hw

theorem Inv.of_run (run : Run step RingOk {} s) : s.Inv :=
  run.invariant .init fun I hC h => I.preserved hC (step_transition h)

/-! ### The ledger -/

/-- What holds after every call, and between any two iterations of the loops of
`poll_io`. -/
structure IoLedger (s : Polling) : Prop where
  /-- A request is in as many places as it was submitted times. -/
  places : ∀ r, total (fun p => (s.requests p).count r) IoPlace.all = s.submitted.count r
  onePlace : ∀ r, s.submitted.count r = 1 → ∃! p, r ∈ s.requests p
  movedOnce : ∀ r, (s.moved.map Moved.request).count r ≤ s.submitted.count r
  taskQueue : s.engine.taskQueue = s.moved.map Moved.handle
  /-- An awaiter is moved with the result of its own completion entry. -/
  ownEntry : s.finished = s.moved.filterMap Moved.entry ++ s.engine.uring.cq
  results : s.ResultsKept
  inflight : s.engine.inflightIo = s.submitted.length - s.moved.length
  noUnderflow : s.engine.ioWaitingQueue ≠ [] ∨ s.engine.uring.cq ≠ [] → 0 < s.engine.inflightIo
  pending : s.engine.pendingSubmitCount = s.engine.uring.sq.length
  pendingIdle : s.pc = .idle → s.engine.pendingSubmitCount = 0
  returned : ∀ r ∈ s.returned, r.value = r.moved.length + r.submitted.length
  thrown : s.thrown = []

theorem openIo_requests (s : Polling) : s.engine.openIo =
    s.requests .waitingQueue + s.requests (.submitQueue .read) +
      s.requests (.submitQueue .write) + s.requests .prepared + s.requests .kernel := by
  simp only [Engine.openIo, requests, Engine.submitQueue, IoUring.awaiters, Multiset.map_add]
  abel

theorem Inv.total_requests (I : s.Inv) (r : IoRequest) :
    total (fun p => (s.requests p).count r) IoPlace.all = s.submitted.count r := by
  have hplaces := I.places
  rw [openIo_requests] at hplaces
  have hcount := congrArg (Multiset.count r) hplaces
  rw [Multiset.coe_count] at hcount
  simp only [Multiset.count_add] at hcount
  rw [← hcount]
  simp only [IoPlace.all, total_cons, total_nil, Nat.add_assoc]
  rfl

theorem Inv.ioLedger (I : s.Inv) : IoLedger s where
  places := I.total_requests
  onePlace r hr := by
    have hone := existsUnique_of_total_eq_one _ IoPlace.mem_all ((I.total_requests r).trans hr)
    simpa only [Multiset.count_pos] using hone
  movedOnce r := by
    have hle := le_total (fun p => (s.requests p).count r) (l := IoPlace.all) (i := 5)
      (x := .taskQueue) rfl
    rw [I.total_requests r] at hle
    simpa only [requests, Multiset.map_coe, Multiset.coe_count] using hle
  taskQueue := I.taskQueue
  ownEntry := I.entries
  results := I.results
  inflight := by
    have hinflight := I.inflight
    omega
  noUnderflow hne := by
    rw [I.card_openIo]
    simp only [Engine.openIo, IoUring.awaiters, Multiset.card_add, Multiset.card_map,
      Multiset.coe_card, List.length_map]
    rcases hne with hne | hne
    · have hpos := List.length_pos_iff.mpr hne
      omega
    · have hpos := List.length_pos_iff.mpr hne
      omega
  pending := I.pending
  pendingIdle hpc := by
    have hsq : s.engine.uring.sq = [] := by simpa only [PcOk, hpc] using I.pc
    rw [I.pending, hsq]
    rfl
  returned := I.returned
  thrown := I.thrown

/-- The ledger is right in every run of the engine and its ring. -/
theorem io_ledger (run : Run step RingOk {} s) : IoLedger s := (Inv.of_run run).ioLedger

/-- A waiting handle, a read and a write in one `poll_io(2)`: the ring takes the two entries
one by one, and the write finishes first. -/
theorem io_ledger_write_first :
    let w₁ : IoAwaiter := ⟨.read, 100, 3, 0, 8, 0, 2⟩
    let w₂ : IoAwaiter := ⟨.write, 200, 4, 0, 8, 0, 3⟩
    ∃ s, Run step RingOk {} s ∧ IoLedger s ∧ s.pc = .idle ∧
      s.moved = [.waiting 1, .completed w₂ 7, .completed w₁ (-5)] ∧
      s.returned.map PollReturn.value = [5] ∧ s.engine.inflightIo = 0 := by
  intro w₁ w₂
  obtain ⟨s, hs, hstate⟩ := exists_run step RingOk {}
    [.submitIoWaiting 1, .submitIoRead (some w₁), .submitIoRead none, .submitIoWrite (some w₂),
      .pollIo 2, .next, .next, .next, .next, .next, .next, .submit 1, .submit 1, .next,
      .complete 1 7, .next, .complete 0 (-5), .next, .next]
    (fun s => s.pc = .idle ∧ s.moved = [.waiting 1, .completed w₂ 7, .completed w₁ (-5)] ∧
      s.returned.map PollReturn.value = [5] ∧ s.engine.inflightIo = 0) (by decide)
  exact ⟨s, hs, io_ledger hs, hstate⟩

end Polling

end TinyCoroutine.Runtime
