import TinyCoroutine.Runtime.Accounting
import TinyCoroutine.Runtime.Hide

/-!
# Tasks that are woken on other threads

`reschedule_or_resume` on a thread that has no context resumes the coroutine right there.
Such a coroutine runs outside of the runtime: it may park again, and then be woken by a worker
or by another such thread, any number of times. Nobody destroys or counts a task that reaches
its final suspend outside.

As long as this does not happen, the runtime cannot tell a coroutine that runs outside from one
that is still parked: its invariant holds for the ledger with these coroutines hidden.
-/
namespace TinyCoroutine.Runtime

open Foundation

variable {g h : Handle}

/-! ### The runtime with other threads -/

/-- A scheduler, and the coroutines that run on threads without a context. -/
structure OutsideState where
  runtime : State
  outside : List Handle := []

inductive OutsideAction where
  | runtime (a : Action)
  /-- An operation on such a thread takes `g` from a wait queue and resumes it. -/
  | resume (g : Handle)
  /-- A coroutine that runs outside suspends in a wait queue. -/
  | park (g : Handle)
  /-- A coroutine that runs outside arrives at `final_suspend`. -/
  | finish (g : Handle)
  /-- `submit_to_scheduler` of a new coroutine: without a context it is destroyed. -/
  | submitToScheduler (g : Handle)
  deriving DecidableEq, Repr

namespace OutsideState

variable {s t : OutsideState} {a : OutsideAction}

def init (n : Nat) : OutsideState := { runtime := Runtime.init n }

/-- Without a context `yield()` and the I/O awaiters do not suspend, so that a coroutine that
runs outside parks or finishes. -/
def step (s : OutsideState) : OutsideAction → Option OutsideState
  | .runtime a => (Runtime.step s.runtime a).map fun r => { s with runtime := r }
  | .resume g =>
    if g ∈ s.runtime.parked then
      some { runtime := { s.runtime.setStatus g .running with
               parked := s.runtime.parked.erase g }
             outside := s.outside ++ [g] }
    else none
  | .park g =>
    if g ∈ s.outside then
      some { runtime := { s.runtime.setStatus g .suspended with
               parked := s.runtime.parked ++ [g] }
             outside := s.outside.erase g }
    else none
  | .finish g =>
    if g ∈ s.outside then
      some { runtime := s.runtime.setStatus g .final, outside := s.outside.erase g }
    else none
  | .submitToScheduler g =>
    if s.runtime.fresh g then some { s with runtime := s.runtime.destroyFrame g } else none

/-- The runtime as it sees itself. -/
def hidden (s : OutsideState) : State :=
  { s.runtime with
    parked := s.runtime.parked ++ s.outside
    frames := fun h => if h ∈ s.outside then { s.runtime.frames h with status := .suspended }
      else s.runtime.frames h }

theorem ledger_hidden (s : OutsideState) : s.hidden.ledger = s.runtime.ledger.hide s.outside := by
  simp only [State.ledger, hidden, Ledger.hide, State.marks, ← Multiset.coe_add, Multiset.map_add,
    add_assoc]

/-- The invariant of the runtime, with those that run outside counted as parked. -/
structure Inv (s : OutsideState) : Prop where
  ledger : LedgerInv s.hidden
  running : ∀ h ∈ s.outside, (s.runtime.frames h).status = .running

theorem Inv.init (n : Nat) : Inv (init n) where
  ledger := by
    have hsame : (OutsideState.init n).hidden = Runtime.init n := by
      simp [OutsideState.init, hidden]
    rw [hsame]
    exact .init n
  running h hh := by cases hh

/-- The invariant is about the ledger and the places of the threads. -/
theorem LedgerInv.of_ledger {s t : State} (I : LedgerInv s) (hctxs : t.ctxs = s.ctxs)
    (hcalls : t.calls = s.calls) (hledger : t.ledger = s.ledger) : LedgerInv t where
  regular := ⟨hcalls ▸ I.regular.calls, fun c x hx => I.regular.batches c x (hctxs ▸ hx)⟩
  balanced := hledger ▸ I.balanced
  owned := hledger ▸ I.owned
  housed := hledger ▸ I.housed
  counted := hledger ▸ I.counted

theorem LedgerInv.of_step {s t : State} (I : LedgerInv s) (hr : Regular t)
    (h : Ledger.Step Ledger.NoLag s.ledger t.ledger) : LedgerInv t :=
  have hhoused := I.housed.step I.balanced h
  ⟨hr, I.balanced.step h, I.owned.step I.balanced h, hhoused, I.counted.step I.balanced h hhoused⟩

/-- A parked coroutine does not run outside, and is parked once. -/
theorem Inv.count_le (I : s.Inv) (g : Handle) :
    s.runtime.parked.count g + s.outside.count g ≤ 1 ∧
      (0 < s.runtime.parked.count g + s.outside.count g →
        (s.hidden.frames g).status = .suspended) := by
  have hok : (s.hidden.ledger.entry g).Ok (s.hidden.frames g).status := I.ledger.balanced g
  have hle : s.runtime.parked.count g + s.outside.count g ≤
      (s.hidden.ledger.entry g).waiting := by
    rw [← List.count_append, ← Multiset.coe_count]
    simp only [Ledger.entry, State.ledger, State.marks, Ledger.tally_add, Ledger.tally_waiting,
      if_true]
    exact Nat.le_add_left ..
  cases hst : (s.hidden.frames g).status <;> simp only [hst, Ledger.Entry.Ok] at hok
  case suspended => exact ⟨by omega, fun _ => rfl⟩
  all_goals
    have hzero : (s.hidden.ledger.entry g).waiting = 0 := by first | omega | simp [hok]
    exact ⟨by omega, fun hpos => by omega⟩

theorem Inv.step_runtime (I : s.Inv) {a : Action} {r : State} (hC : SettledResume s.runtime a)
    (hstep : Runtime.step s.runtime a = some r) : Inv { s with runtime := r } := by
  have htr := step_transition hstep
  have hregular : Regular s.runtime := ⟨I.ledger.regular.calls, I.ledger.regular.batches⟩
  have hledger : Ledger.Step Ledger.NoLag s.runtime.ledger r.ledger :=
    htr.ledger hregular hC.direct hC.noLag
  have hb : (s.runtime.ledger.hide s.outside).Balanced := by
    rw [← ledger_hidden]
    exact I.ledger.balanced
  obtain ⟨hhide, hframes⟩ := hledger.hide hb I.running
  have hr := hregular.preserved hC.direct htr
  constructor
  · refine LedgerInv.of_step I.ledger ⟨hr.calls, hr.batches⟩ ?_
    rw [ledger_hidden, ledger_hidden]
    exact hhide
  · intro h hh
    have hsame : r.frames h = s.runtime.frames h := hframes h hh
    rw [hsame]
    exact I.running h hh

/-- A step that the runtime does not see: a coroutine changes between parked and running
outside. -/
theorem Inv.of_hidden (I : s.Inv) {r : State} {o : List Handle} (hctxs : r.ctxs = s.runtime.ctxs)
    (hcalls : r.calls = s.runtime.calls) (hpending : r.pending = s.runtime.pending)
    (haccepted : r.accepted = s.runtime.accepted) (hcompleted : r.completed = s.runtime.completed)
    (hdestroyed : r.destroyed = s.runtime.destroyed)
    (houtstanding : r.outstanding = s.runtime.outstanding)
    (hparked : (r.parked ++ o).Perm (s.runtime.parked ++ s.outside))
    (hframes : ∀ h, (OutsideState.mk r o).hidden.frames h = s.hidden.frames h)
    (hrunning : ∀ h ∈ o, (r.frames h).status = .running) : Inv ⟨r, o⟩ := by
  refine ⟨LedgerInv.of_ledger I.ledger hctxs hcalls ?_, hrunning⟩
  have hmarks : (OutsideState.mk r o).hidden.marks = s.hidden.marks := by
    simp only [State.marks, hidden, hctxs, hcalls, Multiset.coe_eq_coe.mpr hparked]
  simp only [State.ledger, hmarks, funext hframes]
  simp only [hidden, hpending, haccepted, hcompleted, hdestroyed, houtstanding]

theorem frames_setStatus_of_ne (r : State) (status : FrameStatus) {g h : Handle} (hne : h ≠ g) :
    (r.setStatus g status).frames h = r.frames h := Function.update_of_ne hne ..

theorem Inv.step_resume (I : s.Inv) (hg : g ∈ s.runtime.parked) :
    Inv { runtime := { s.runtime.setStatus g .running with parked := s.runtime.parked.erase g }
          outside := s.outside ++ [g] } := by
  obtain ⟨hone, hsus⟩ := I.count_le g
  have hpos := List.count_pos_iff.mpr hg
  have hout : g ∉ s.outside := List.count_eq_zero.mp (by omega)
  have hst : (s.runtime.frames g).status = .suspended := by
    simpa [hidden, hout] using hsus (by omega)
  refine I.of_hidden rfl rfl rfl rfl rfl rfl rfl ?_ ?_ ?_
  · calc
      (s.runtime.parked.erase g ++ (s.outside ++ [g])).Perm
          ((g :: s.runtime.parked.erase g) ++ s.outside) := by
        rw [← List.append_assoc, List.cons_append]
        exact List.perm_append_singleton _ _
      _ |>.Perm (s.runtime.parked ++ s.outside) :=
        (List.perm_cons_erase hg).symm.append_right _
  · intro h
    by_cases hne : h = g
    · subst hne
      simp only [hidden, hout, List.mem_append, List.mem_singleton, or_true, if_true, if_false,
        State.setStatus, Function.update_self]
      rw [← hst]
    · simp [hidden, hne, frames_setStatus_of_ne]
  · intro h hh
    by_cases hne : h = g
    · simp [hne, State.setStatus]
    · have hmem : h ∈ s.outside := by simpa [hne] using hh
      simpa [frames_setStatus_of_ne _ _ hne] using I.running h hmem

theorem Inv.step_park (I : s.Inv) (hg : g ∈ s.outside) :
    Inv { runtime := { s.runtime.setStatus g .suspended with parked := s.runtime.parked ++ [g] }
          outside := s.outside.erase g } := by
  obtain ⟨hone, -⟩ := I.count_le g
  have hpos := List.count_pos_iff.mpr hg
  have hout : g ∉ s.outside.erase g := by
    rw [← List.count_eq_zero, List.count_erase_self]
    omega
  have hkeep : ∀ h, h ≠ g → (h ∈ s.outside.erase g ↔ h ∈ s.outside) :=
    fun h hne => List.mem_erase_of_ne hne
  refine I.of_hidden rfl rfl rfl rfl rfl rfl rfl ?_ ?_ ?_
  · rw [List.append_assoc]
    exact ((List.perm_cons_erase hg).symm).append_left _
  · intro h
    by_cases hne : h = g
    · subst hne
      simp [hidden, hout, hg, State.setStatus]
    · simp [hidden, hkeep h hne, frames_setStatus_of_ne _ _ hne]
  · intro h hh
    have hne : h ≠ g := by
      rintro rfl
      exact hout hh
    simpa [frames_setStatus_of_ne _ _ hne] using I.running h ((hkeep h hne).mp hh)

/-- A coroutine that is refused is destroyed at once. -/
theorem Inv.step_refuse (I : s.Inv) (hg : s.runtime.fresh g) :
    Inv { s with runtime := s.runtime.destroyFrame g } := by
  have hout : g ∉ s.outside := by
    intro hmem
    have hrun := I.running g hmem
    rw [show (s.runtime.frames g).status = .none from hg.1] at hrun
    cases hrun
  have hnone : (s.hidden.ledger.frames g).status = .none := by
    simp only [State.ledger, hidden, hout, if_false]
    exact hg.1
  let L : Ledger := { s.hidden.ledger with
    marks := s.hidden.marks + {⟨.submitting, g⟩}
    frames := s.hidden.ledger.setStatus g .suspended
    outstanding := s.runtime.outstanding + 1 }
  have hcreate : Ledger.Step Ledger.NoLag s.hidden.ledger L := .create hnone hg.2 (add_zero _)
  have hreject : Ledger.Step Ledger.NoLag L { L with
      marks := s.hidden.marks, frames := L.setStatus g .destroyed
      destroyed := L.destroyed ++ [g], outstanding := s.runtime.outstanding } :=
    .reject (add_zero _).symm
  have hsame : (OutsideState.mk (s.runtime.destroyFrame g) s.outside).hidden.ledger = { L with
      marks := s.hidden.marks, frames := L.setStatus g .destroyed
      destroyed := L.destroyed ++ [g], outstanding := s.runtime.outstanding } := by
    have hframes : ∀ h, (OutsideState.mk (s.runtime.destroyFrame g) s.outside).hidden.frames h =
        L.setStatus g .destroyed h := by
      intro h
      by_cases hne : h = g
      · subst hne
        simp [hidden, hout, L, Ledger.setStatus, State.destroyFrame, State.setStatus, State.ledger]
      · simp [hidden, L, Ledger.setStatus, State.destroyFrame, State.setStatus, State.ledger, hne]
    simp only [State.ledger, funext hframes]
    rfl
  have hb := I.ledger.balanced.step hcreate
  have ho := I.ledger.owned.step I.ledger.balanced hcreate
  have hh := I.ledger.housed.step I.ledger.balanced hcreate
  have hc := I.ledger.counted.step I.ledger.balanced hcreate hh
  refine ⟨⟨⟨I.ledger.regular.calls, I.ledger.regular.batches⟩, ?_, ?_, ?_, ?_⟩, ?_⟩
  · rw [hsame]
    exact hb.step hreject
  · rw [hsame]
    exact ho.step hb hreject
  · rw [hsame]
    exact hh.step hb hreject
  · rw [hsame]
    exact hc.step hb hreject (hh.step hb hreject)
  · intro h hh
    have hne : h ≠ g := by
      rintro rfl
      exact hout hh
    simpa [State.destroyFrame, frames_setStatus_of_ne _ _ hne] using I.running h hh

/-! ### Completion is counted -/

/-- Workers resume settled coroutines only, and no task reaches its final suspend on a thread
without a context. -/
def FinishesInside (s : OutsideState) : OutsideAction → Prop
  | .runtime a => SettledResume s.runtime a
  | .finish _ => False
  | _ => True

instance (s : OutsideState) (a : OutsideAction) : Decidable (FinishesInside s a) :=
  match a with
  | .runtime a => inferInstanceAs (Decidable (SettledResume s.runtime a))
  | .finish _ => inferInstanceAs (Decidable False)
  | .resume _ => inferInstanceAs (Decidable True)
  | .park _ => inferInstanceAs (Decidable True)
  | .submitToScheduler _ => inferInstanceAs (Decidable True)

theorem Inv.of_run {n : Nat} (run : Run step FinishesInside (OutsideState.init n) s) :
    s.Inv := by
  refine run.invariant (.init n) ?_
  intro s a t I hC hstep
  cases a with
  | runtime a =>
    obtain ⟨r, hr, rfl⟩ := Option.map_eq_some_iff.mp hstep
    exact I.step_runtime hC hr
  | resume g =>
    simp only [step] at hstep
    split_ifs at hstep with hg
    cases hstep
    exact I.step_resume hg
  | park g =>
    simp only [step] at hstep
    split_ifs at hstep with hg
    cases hstep
    exact I.step_park hg
  | finish g => cases hC
  | submitToScheduler g =>
    simp only [step] at hstep
    split_ifs at hstep with hg
    cases hstep
    exact I.step_refuse hg

/-- The task has reached its final suspend. -/
def Finished (r : State) (h : Handle) : Prop :=
  (r.frames h).status = .final ∨ (r.frames h).status = .destroyed

instance (r : State) (h : Handle) : Decidable (Finished r h) := inferInstanceAs (Decidable (_ ∨ _))

/-- Completion is counted whichever thread wakes the task. -/
structure CountsCompletion (r : State) : Prop where
  destroyedOnce : ∀ h, r.destroyed.count h ≤ 1
  completedOnce : ∀ h, r.completed.count h ≤ 1
  finished : ∀ h ∈ r.accepted, Finished r h → ¬r.Held h →
    r.destroyed.count h = 1 ∧ r.completed.count h = 1
  drained : (∀ h ∈ r.accepted, Finished r h ∧ ¬r.Held h) → r.pending = 0 ∧
    ∀ i, loopStep r i .evaluate =
      some { r.setCall i (.shutdown .swap) with accepting := false, stateLocked := false }

theorem Inv.frames_of_finished (I : s.Inv) (hf : Finished s.runtime h) :
    s.hidden.frames h = s.runtime.frames h := by
  have hout : h ∉ s.outside := by
    intro hmem
    rcases hf with hf | hf <;> simp [I.running h hmem] at hf
  simp [hidden, hout]

theorem Inv.countsCompletion (I : s.Inv) : CountsCompletion s.runtime := by
  have honce := I.ledger.exactlyOnce
  have hfinished : ∀ h ∈ s.runtime.accepted, Finished s.runtime h → ¬s.runtime.Held h →
      s.runtime.destroyed.count h = 1 ∧ s.runtime.completed.count h = 1 := by
    intro h hacc hf hheld
    refine honce.finished h hacc ?_ hheld
    rw [I.frames_of_finished hf]
    exact hf
  refine ⟨honce.destroyed, honce.completed, hfinished, fun hall => ?_⟩
  have hcounted : s.runtime.pending + s.runtime.completed.length = s.runtime.accepted.length :=
    I.ledger.counted
  have hsub : s.runtime.accepted.Subperm s.runtime.completed := by
    refine List.subperm_of_subset I.ledger.balanced.nodup_accepted fun h hh => ?_
    have hone := (hfinished h hh (hall h hh).1 (hall h hh).2).2
    exact List.count_pos_iff.mp (by omega)
  have hpending : s.runtime.pending = 0 := by
    have := hsub.length_le
    omega
  refine ⟨hpending, fun i => ?_⟩
  simp [loopStep, hpending]

/-- Every task that finishes on a worker is destroyed and counted once, however often it was
woken and resumed on other threads before. -/
theorem completion_counted {n : Nat} (run : Run step FinishesInside (init n) s) :
    CountsCompletion s.runtime :=
  (Inv.of_run run).countsCompletion

/-- One worker: task 5 parks, another thread resumes it and it parks again, and task 6 wakes it
on the worker, where it finishes. -/
theorem completion_counted_alternating :
    ∃ s, Run step FinishesInside (init 1) s ∧ CountsCompletion s.runtime ∧
      s.runtime.completed = [6, 5] ∧ s.runtime.pending = 0 := by
  obtain ⟨s, hs, hstate⟩ := exists_run step FinishesInside (init 1)
    ([.runtime (.callSubmit 5), .runtime (.submission (.call 0)), .runtime (.submission (.call 0)),
      .runtime (.submission (.call 0)), .runtime (.worker 0), .runtime (.worker 0),
      .runtime (.body 0 .park), .runtime (.checkDone 0 false), .resume 5, .park 5,
      .runtime (.callSubmit 6), .runtime (.submission (.call 1)), .runtime (.submission (.call 1)),
      .runtime (.submission (.call 1)), .runtime (.worker 0), .runtime (.worker 0),
      .runtime (.worker 0), .runtime (.body 0 (.wake 5)), .runtime (.submission (.worker 0)),
      .runtime (.submission (.worker 0)), .runtime (.body 0 .finish), .runtime (.checkDone 0 true),
      .runtime (.worker 0), .runtime (.worker 0), .runtime (.worker 0), .runtime (.worker 0),
      .runtime (.worker 0), .runtime (.body 0 .finish), .runtime (.checkDone 0 true),
      .runtime (.worker 0), .runtime (.worker 0)])
    (fun s => s.runtime.completed = [6, 5] ∧ s.runtime.pending = 0) (by decide)
  exact ⟨s, hs, completion_counted hs, hstate⟩

/-- The runs in which clients use the scheduler and not its engines. -/
def UsesScheduler (_ : OutsideState) : OutsideAction → Prop
  | .runtime a => a.direct = false
  | _ => True

instance (s : OutsideState) (a : OutsideAction) : Decidable (UsesScheduler s a) :=
  match a with
  | .runtime a => inferInstanceAs (Decidable (a.direct = false))
  | .finish _ => inferInstanceAs (Decidable True)
  | .resume _ => inferInstanceAs (Decidable True)
  | .park _ => inferInstanceAs (Decidable True)
  | .submitToScheduler _ => inferInstanceAs (Decidable True)

/-- A task that is woken on a thread without a context and finishes there is never destroyed,
and `pending` stays at one. -/
theorem finished_outside_not_counted :
    ¬∀ (n : Nat) (s : OutsideState), Run step UsesScheduler (init n) s →
      CountsCompletion s.runtime := by
  intro h
  obtain ⟨s, hs, hacc, hfin, hworkers, hpending⟩ := exists_run step UsesScheduler (init 1)
    ([.runtime (.callSubmit 5), .runtime (.submission (.call 0)), .runtime (.submission (.call 0)),
      .runtime (.submission (.call 0)), .runtime (.worker 0), .runtime (.worker 0),
      .runtime (.body 0 .park), .runtime (.checkDone 0 false), .resume 5, .finish 5])
    (fun s => s.runtime.accepted = [5] ∧ Finished s.runtime 5 ∧
      (s.runtime.ctxs.map fun x => x.worker) = [.forLoop] ∧ s.runtime.pending = 1) (by decide)
  have hheld : ¬s.runtime.Held 5 := by
    rintro ⟨x, hx, hw⟩
    have hmem : x.worker ∈ s.runtime.ctxs.map fun x => x.worker := List.mem_map_of_mem hx
    rw [hworkers, List.mem_singleton] at hmem
    simp [hmem] at hw
  have hdone := ((h 1 s hs).drained fun g hg => by
    obtain rfl : g = 5 := by simpa [hacc] using hg
    exact ⟨hfin, hheld⟩).1
  omega

end OutsideState

end TinyCoroutine.Runtime
