import TinyCoroutine.Runtime.Accounting

/-!
# A scheduler that is initialized again

After `stop()` or `loop()` a scheduler can be initialized again. `init` starts new
contexts and sets `pending` to zero, but a task of an earlier epoch may still be parked in a
channel, a mutex or a wait group, and a task of the new epoch may wake it. Its completion is
then counted in the new epoch, in which it was never accepted.

When this does not happen, `pending` counts the tasks accepted since the last `init`.
-/
namespace TinyCoroutine.Runtime

open Foundation

variable {a : Action} {c k : Nat} {x : Context} {h : Handle}

/-! ### `Scheduler::init` -/

/-- `Scheduler::init`. The contexts of earlier epochs keep their positions. -/
def initStep (s : State) (contextCount : Nat) : Option State :=
  if s.stateLocked then none
  else if s.initialized then some s
  else
    let workerCount := if contextCount = 0 then 1 else contextCount
    some { s with
      contexts := s.contexts ++ (List.range workerCount).map (s.ctxs.length + ·)
      contextCount := workerCount
      next := 0
      pending := 0
      stopRequested := false
      accepting := true
      initialized := true
      ctxs := s.ctxs ++ List.replicate workerCount {} }

/-- The task on whose behalf the action executes the decrement of `on_task_completed`. -/
def decrementing (s : State) : Action → Option Handle
  | .worker c => (s.ctxs[c]?).bind fun x =>
    match x.worker with
    | .completed h => some h
    | _ => none
  | _ => none

/-- A scheduler over several epochs. -/
structure EpochState where
  runtime : State
  /-- What had been accepted and completed when the current epoch began. -/
  acceptedBefore : Nat := 0
  completedBefore : Nat := 0
  /-- The values that `pending` had before its decrements. -/
  decremented : List Nat := []

inductive EpochAction where
  | runtime (a : Action)
  | init (contextCount : Nat)
  deriving DecidableEq, Repr

namespace EpochState

variable {s t : EpochState}

/-- A scheduler that has been constructed and not initialized yet. -/
def constructed : EpochState where
  runtime := { contexts := [], contextCount := 1, accepting := false, initialized := false
               ctxs := [] }

def step (s : EpochState) : EpochAction → Option EpochState
  | .runtime a => (Runtime.step s.runtime a).map fun r =>
    { s with
      runtime := r
      decremented := s.decremented ++
        ((decrementing s.runtime a).map fun _ => s.runtime.pending).toList }
  | .init contextCount => (initStep s.runtime contextCount).map fun r =>
    if s.runtime.initialized then s
    else { s with
      runtime := r
      acceptedBefore := s.runtime.accepted.length
      completedBefore := s.runtime.completed.length }

/-- The tasks accepted in the current epoch. -/
def accepted (s : EpochState) : List Handle := s.runtime.accepted.drop s.acceptedBefore

/-- The tasks counted off in the current epoch. -/
def completed (s : EpochState) : List Handle := s.runtime.completed.drop s.completedBefore

/-- The first `init` makes the state in which a single epoch starts. -/
theorem step_init_constructed (n : Nat) :
    constructed.step (.init n) = some { runtime := Runtime.init n } := by
  simp [step, constructed, initStep, Runtime.init]

end EpochState

/-! ### What a step does to the counters -/

/-- A step accepts one task, counts one off or does neither. -/
inductive Counts (s : State) (a : Action) (t : State) : Prop where
  | same : decrementing s a = none → t.pending = s.pending → t.accepted = s.accepted →
      t.completed = s.completed → Counts s a t
  | accept (h : Handle) : decrementing s a = none → t.pending = fetchAdd s.pending 1 →
      t.accepted = s.accepted ++ [h] → t.completed = s.completed → Counts s a t
  | complete (h : Handle) : decrementing s a = some h → t.pending = fetchSub s.pending 1 →
      t.accepted = s.accepted → t.completed = s.completed ++ [h] → Counts s a t

theorem decrementing_worker {s : State} {pc : WorkerPc} (hx : s.ctxs[c]? = some x)
    (hw : x.worker = pc) (hpc : ∀ h, pc ≠ .completed h) : decrementing s (.worker c) = none := by
  simp only [decrementing, hx, Option.bind_some, hw]

theorem decrementing_eq_some {s : State} (hdec : decrementing s a = some h) :
    ∃ c x, a = .worker c ∧ s.ctxs[c]? = some x ∧ x.worker = .completed h := by
  cases a with
  | worker c =>
    obtain ⟨x, hx, hdec⟩ := Option.bind_eq_some_iff.mp hdec
    split at hdec
    · rename_i hw
      cases hdec
      exact ⟨c, x, rfl, hx, hw⟩
    · cases hdec
  | _ => cases hdec

theorem Transition.counts {s t : State} (htr : Transition s a t) : Counts s a t := by
  cases htr with
  | @reject who | @push who | @notify who => cases who <;> exact .same rfl rfl rfl rfl
  | @accept who => cases who <;> exact .accept _ rfl rfl rfl rfl
  | spawn => exact .accept _ rfl rfl rfl rfl
  | moveCall hi hm => exact .same (by cases hm <;> rfl) rfl rfl rfl
  | moveWorker hx hw hm =>
    refine .same ?_ rfl rfl rfl
    cases hm
    case spurious => rfl
    all_goals exact decrementing_worker hx hw (by simp)
  | popBatch hx hw | resume hx hw | destroyFrame hx hw | notifyCompletion hx hw | reap hx hw =>
    exact .same (decrementing_worker hx hw (by simp)) rfl rfl rfl
  | @completed c x h hx hw =>
    refine .complete h ?_ rfl rfl rfl
    simp [decrementing, hx, hw]
  | _ => exact .same rfl rfl rfl rfl

/-! ### What `init` does to the ledger -/

/-- A context of a new epoch is one of the old contexts or has just been made. -/
theorem getElem?_append_contexts {s : State} {n : Nat}
    (hx : (s.ctxs ++ List.replicate n ({} : Context))[c]? = some x) :
    s.ctxs[c]? = some x ∨ x = {} := by
  rw [List.getElem?_append] at hx
  split at hx
  · exact .inl hx
  · exact .inr (List.eq_of_mem_replicate (List.mem_of_getElem? hx))

theorem sumIdx_append_contexts (s : State) (n : Nat) :
    sumIdx Context.marks (s.ctxs ++ List.replicate n ({} : Context)) =
      sumIdx Context.marks s.ctxs := by
  induction n with
  | zero => simp
  | succ n ih =>
    rw [List.replicate_succ', ← List.append_assoc, sumIdx_append, ih]
    exact add_zero _

/-- `init` starts a new epoch: nobody's place changes and `pending` becomes zero. -/
theorem initStep_ledger {s t : State} (hinit : initStep s k = some t) :
    t = s ∧ s.initialized = true ∨
      s.initialized = false ∧ t.ledger = { s.ledger with pending := 0 } ∧
        (Regular s → Regular t) := by
  simp only [initStep] at hinit
  split at hinit
  · cases hinit
  split at hinit <;> rename_i hlive <;> cases hinit
  · exact .inl ⟨rfl, hlive⟩
  · refine .inr ⟨by simpa using hlive, ?_, fun hr => ⟨hr.calls, fun c x hx => ?_⟩⟩
    · simp only [State.ledger, State.marks, sumIdx_append_contexts]
    · rcases getElem?_append_contexts hx with hx | rfl
      · exact hr.batches c x hx
      · exact fun _ => rfl

/-! ### The count of an epoch -/

namespace EpochState

variable {s t : EpochState} {a : EpochAction}

/-- Workers resume settled coroutines only, and a worker that executes the decrement of
`on_task_completed` does so for a task that was accepted since the last `init`. -/
def CompletesOwn (s : EpochState) : EpochAction → Prop
  | .runtime a => SettledResume s.runtime a ∧ ∀ h ∈ decrementing s.runtime a, h ∈ s.accepted
  | .init _ => True

instance (s : EpochState) (a : EpochAction) : Decidable (CompletesOwn s a) :=
  match a with
  | .runtime _ => inferInstanceAs (Decidable (_ ∧ _))
  | .init _ => inferInstanceAs (Decidable True)

structure Inv (s : EpochState) : Prop where
  regular : Regular s.runtime
  balanced : s.runtime.ledger.Balanced
  owned : s.runtime.ledger.Owned
  housed : s.runtime.ledger.Housed
  before_le : s.completedBefore ≤ s.acceptedBefore
  accepted_le : s.acceptedBefore ≤ s.runtime.accepted.length
  completed_le : s.completedBefore ≤ s.runtime.completed.length
  own : ∀ h ∈ s.completed, h ∈ s.accepted
  counted : s.runtime.pending + s.completed.length = s.accepted.length
  decremented : 0 ∉ s.decremented

theorem Inv.constructed : Inv constructed where
  regular := ⟨rfl, fun c x hx => by cases hx⟩
  balanced h := rfl
  owned m hm := absurd hm (Multiset.notMem_zero m)
  housed := ⟨rfl, Nat.two_pow_pos 64⟩
  before_le := Nat.le_refl _
  accepted_le := Nat.le_refl _
  completed_le := Nat.le_refl _
  own h hh := by cases hh
  counted := rfl
  decremented := by simp [EpochState.constructed]

theorem Inv.nodup_completed (I : s.Inv) : s.completed.Nodup :=
  (I.balanced.nodup_completed).sublist (List.drop_sublist ..)

/-- A task that is about to be counted off in its own epoch is one that `pending` counts. -/
theorem Inv.pending_pos (I : s.Inv) (hx : s.runtime.ctxs[c]? = some x)
    (hw : x.worker = .completed h) (hown : h ∈ s.accepted) : 0 < s.runtime.pending := by
  have hm : (⟨.completing c, h⟩ : Mark) ∈ s.runtime.marks :=
    mem_marks_of_ctx hx (by simp [hw, WorkerPc.marks])
  have hpos : 0 < Ledger.tally s.runtime.marks .completing h := Ledger.tally_pos hm
  have hle : s.runtime.completed.count h + Ledger.tally s.runtime.marks .completing h ≤
      s.runtime.accepted.count h := I.balanced.completed_le h
  have hone : s.runtime.accepted.count h ≤ 1 :=
    List.nodup_iff_count_le_one.mp I.balanced.nodup_accepted h
  have hnot : h ∉ s.completed := by
    intro hmem
    have := List.count_pos_iff.mpr (List.mem_of_mem_drop hmem)
    omega
  have hsub : (h :: s.completed).Subperm s.accepted := by
    refine List.subperm_of_subset (List.nodup_cons.mpr ⟨hnot, I.nodup_completed⟩) ?_
    exact List.cons_subset.mpr ⟨hown, I.own⟩
  have hlen := hsub.length_le
  have hcounted := I.counted
  simp only [List.length_cons] at hlen
  omega

theorem Inv.step_runtime (I : s.Inv) {a : Action} {r : State}
    (hC : CompletesOwn s (.runtime a)) (hr : Runtime.step s.runtime a = some r) :
    Inv { s with
      runtime := r
      decremented := s.decremented ++
        ((decrementing s.runtime a).map fun _ => s.runtime.pending).toList } := by
  have htr := step_transition hr
  have hledger : Ledger.Step Ledger.NoLag s.runtime.ledger r.ledger :=
    htr.ledger I.regular hC.1.direct hC.1.noLag
  have hregular := I.regular.preserved hC.1.direct htr
  have hbalanced := I.balanced.step hledger
  have howned := I.owned.step I.balanced hledger
  have hhoused := I.housed.step I.balanced hledger
  have hcounted := I.counted
  have haccepted_le := I.accepted_le
  have hcompleted_le := I.completed_le
  cases htr.counts with
  | same hdec hpending haccepted hcompleted =>
    refine ⟨hregular, hbalanced, howned, hhoused, I.before_le, ?_, ?_, ?_, ?_, ?_⟩
    · simpa only [haccepted] using I.accepted_le
    · simpa only [hcompleted] using I.completed_le
    · simpa only [accepted, completed, haccepted, hcompleted] using I.own
    · simpa only [accepted, completed, haccepted, hcompleted, hpending] using I.counted
    · simpa [hdec] using I.decremented
  | accept h hdec hpending haccepted hcompleted =>
    have hnew : r.accepted.drop s.acceptedBefore = s.accepted ++ [h] := by
      rw [haccepted, List.drop_append_of_le_length I.accepted_le]
      rfl
    refine ⟨hregular, hbalanced, howned, hhoused, I.before_le, ?_, ?_, ?_, ?_, ?_⟩
    · simp only [haccepted, List.length_append]
      omega
    · simpa only [hcompleted] using I.completed_le
    · intro g hg
      simp only [completed, hcompleted] at hg
      simp only [accepted, hnew]
      exact List.mem_append_left _ (I.own g hg)
    · have hlen := congrArg List.length hnew
      have hlt : r.accepted.length < r.completed.length + 2 ^ 64 := hhoused.accepted_lt
      have hbefore := I.before_le
      simp only [haccepted, hcompleted, List.length_append, List.length_singleton] at hlt hlen
      simp only [accepted, completed, List.length_drop] at hcounted
      have hroom : s.runtime.pending + 1 < 2 ^ 64 := by omega
      simp only [accepted, completed, List.length_drop, List.length_append, List.length_singleton,
        haccepted, hpending, hcompleted, fetchAdd_of_lt hroom]
      omega
    · simpa [hdec] using I.decremented
  | complete h hdec hpending haccepted hcompleted =>
    obtain ⟨c, x, rfl, hx, hw⟩ := decrementing_eq_some hdec
    have hown := hC.2 h hdec
    have hpos := I.pending_pos hx hw hown
    have hnew : r.completed.drop s.completedBefore = s.completed ++ [h] := by
      rw [hcompleted, List.drop_append_of_le_length I.completed_le]
      rfl
    refine ⟨hregular, hbalanced, howned, hhoused, I.before_le, ?_, ?_, ?_, ?_, ?_⟩
    · simpa only [haccepted] using I.accepted_le
    · simp only [hcompleted, List.length_append]
      omega
    · intro g hg
      simp only [completed, hnew] at hg
      simp only [accepted, haccepted]
      rcases List.mem_append.mp hg with hg | hg
      · exact I.own g hg
      · rw [List.mem_singleton.mp hg]
        exact hown
    · have hlen := congrArg List.length hnew
      simp only [List.length_append, List.length_singleton] at hlen
      simp only [accepted, completed, hpending, haccepted, fetchSub_of_le hpos] at hcounted hlen ⊢
      omega
    · have hne : (0 : Nat) ≠ s.runtime.pending := by omega
      simpa [hdec, hne] using I.decremented

theorem Inv.step_init (I : s.Inv) {r : State} (hr : initStep s.runtime k = some r) :
    Inv (if s.runtime.initialized then s
      else { s with
        runtime := r
        acceptedBefore := s.runtime.accepted.length
        completedBefore := s.runtime.completed.length }) := by
  rcases initStep_ledger hr with ⟨-, hlive⟩ | ⟨hlive, hledger, hregular⟩
  · rw [if_pos hlive]
    exact I
  · rw [if_neg (by simp [hlive])]
    have haccepted : r.accepted = s.runtime.accepted := congrArg Ledger.accepted hledger
    have hcompleted : r.completed = s.runtime.completed := congrArg Ledger.completed hledger
    have hpending : r.pending = 0 := congrArg Ledger.pending hledger
    refine ⟨hregular I.regular, ?_, ?_, ?_, I.balanced.completed_length_le, ?_, ?_, ?_, ?_,
      I.decremented⟩
    · rw [hledger]
      exact I.balanced
    · rw [hledger]
      exact I.owned
    · rw [hledger]
      exact ⟨I.housed.count, I.housed.room⟩
    · exact haccepted ▸ Nat.le_refl _
    · exact hcompleted ▸ Nat.le_refl _
    · simp [completed, hcompleted]
    · simp [accepted, completed, haccepted, hcompleted, hpending]

theorem Inv.of_run (run : Run step CompletesOwn EpochState.constructed s) : s.Inv := by
  refine run.invariant .constructed ?_
  intro s a t I hC hstep
  cases a with
  | runtime a =>
    obtain ⟨r, hr, rfl⟩ := Option.map_eq_some_iff.mp hstep
    exact I.step_runtime hC hr
  | init k =>
    obtain ⟨r, hr, rfl⟩ := Option.map_eq_some_iff.mp hstep
    exact I.step_init hr

/-- The counter is exact over all epochs: it is never decremented at zero, and a `loop()`
that gets past its wait without a stop request does so when all tasks of the epoch are
finished, destroyed and counted off. -/
structure CountExact (s : EpochState) : Prop where
  decremented : 0 ∉ s.decremented
  loop : ∀ i t, LoopPasses s.runtime i t → ∀ h ∈ s.accepted,
    (t.frames h).status = .destroyed ∧ h ∈ t.completed

theorem Inv.countExact (I : s.Inv) : CountExact s := by
  refine ⟨I.decremented, fun i t hpass h hh => ?_⟩
  obtain ⟨hzero, rfl⟩ := hpass.state
  have hsub : s.completed.Subperm s.accepted := List.subperm_of_subset I.nodup_completed I.own
  have hlen := I.counted
  rw [hzero, Nat.zero_add] at hlen
  have hperm := hsub.perm_of_length_le (Nat.le_of_eq hlen.symm)
  have hmem : h ∈ s.runtime.completed := List.mem_of_mem_drop (hperm.mem_iff.mpr hh)
  exact ⟨(I.balanced.status_of_completed hmem).2, hmem⟩

/-- Restarts keep the count exact as long as every completion belongs to the current epoch. -/
theorem count_exact_across_epochs (run : Run step CompletesOwn constructed s) : CountExact s :=
  (Inv.of_run run).countExact

def ofActions (as : List Action) : List EpochAction := as.map .runtime

/-- Task 5 parks, `stop()` ends its epoch, and another epoch begins in which task 6 is
submitted, resumed, and wakes task 5. -/
def wakeAcrossEpochs : List EpochAction :=
  .init 1 :: ofActions [.callSubmit 5, .submission (.call 0), .submission (.call 0),
    .submission (.call 0), .worker 0, .worker 0, .body 0 .park, .checkDone 0 false, .worker 0,
    .worker 0, .pollSubmit 0 [], .worker 0, .callStop, .call 1, .call 1, .call 1, .call 1, .call 1,
    .call 1, .worker 0, .worker 0, .worker 0, .call 1, .call 1, .call 1, .call 1] ++
  .init 1 :: ofActions [.callSubmit 6, .submission (.call 2), .submission (.call 2),
    .submission (.call 2), .worker 1, .worker 1, .body 1 (.wake 5), .submission (.worker 1),
    .submission (.worker 1)]

/-- In the new epoch task 5 parks again and task 6 finishes, under a `loop()` that gets past
its wait. -/
theorem count_exact_across_epochs_parked :
    ∃ s t, Run step CompletesOwn constructed s ∧ CountExact s ∧ s.runtime.parked = [5] ∧
      s.accepted = [6] ∧ s.decremented = [1] ∧ LoopPasses s.runtime 3 t := by
  obtain ⟨s, hs, hparked, hacc, hdec, hi, hstop, t, hstep, hswap⟩ :=
    exists_run step CompletesOwn constructed
      (wakeAcrossEpochs ++ ofActions [.body 1 .finish, .checkDone 1 true, .worker 1, .worker 1,
        .worker 1, .worker 1, .worker 1, .worker 1, .body 1 .park, .checkDone 1 false, .callLoop,
        .call 3])
      (fun s => s.runtime.parked = [5] ∧ s.accepted = [6] ∧ s.decremented = [1] ∧
        s.runtime.calls[3]? = some (.loop .evaluate) ∧ s.runtime.stopRequested = false ∧
        ∃ t ∈ Runtime.step s.runtime (.call 3), t.calls[3]? = some (.shutdown .swap)) (by decide)
  exact ⟨s, t, hs, count_exact_across_epochs hs, hparked, hacc, hdec, hi, hstep, hswap, hstop⟩

/-- The runs in which clients use the scheduler and not its engines. -/
def Restarts (_ : EpochState) : EpochAction → Prop
  | .runtime a => a.direct = false
  | .init _ => True

instance (s : EpochState) (a : EpochAction) : Decidable (Restarts s a) :=
  match a with
  | .runtime a => inferInstanceAs (Decidable (a.direct = false))
  | .init _ => inferInstanceAs (Decidable True)

/-- Both parts fail when task 5 finishes in the new epoch: after task 6 the decrement happens
at zero, and before it `loop()` gets past its wait while task 6 still has to run. -/
theorem earlier_epoch_counted :
    (¬∀ s, Run step Restarts constructed s → 0 ∉ s.decremented) ∧
      ¬∀ s, Run step Restarts constructed s → ∀ i t, LoopPasses s.runtime i t →
        ∀ h ∈ s.accepted, t.unfinished h = false := by
  constructor
  · intro h
    obtain ⟨s, hs, hdec⟩ := exists_run step Restarts constructed
      (wakeAcrossEpochs ++ ofActions [.body 1 .finish, .checkDone 1 true, .worker 1, .worker 1,
        .worker 1, .worker 1, .worker 1, .worker 1, .body 1 .finish, .checkDone 1 true, .worker 1,
        .worker 1])
      (fun s => s.decremented = [1, 0] ∧ s.runtime.pending = 2 ^ 64 - 1) (by decide)
    exact h s hs (by simp [hdec])
  · intro h
    obtain ⟨s, hs, hacc, hi, hstop, t, hstep, hswap, hopen⟩ :=
      exists_run step Restarts constructed
        (wakeAcrossEpochs ++ ofActions [.body 1 .yield, .checkDone 1 false, .worker 1, .worker 1,
          .worker 1, .body 1 .finish, .checkDone 1 true, .worker 1, .worker 1, .callLoop, .call 3])
        (fun s => s.accepted = [6] ∧ s.runtime.calls[3]? = some (.loop .evaluate) ∧
          s.runtime.stopRequested = false ∧ ∃ t ∈ Runtime.step s.runtime (.call 3),
            t.calls[3]? = some (.shutdown .swap) ∧ t.unfinished 6 = true) (by decide)
    have hdone := h s hs 3 t ⟨hi, hstep, hswap, hstop⟩ 6 (by simp [hacc])
    rw [hopen] at hdone
    cases hdone

end EpochState

end TinyCoroutine.Runtime
