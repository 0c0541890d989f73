import TinyCoroutine.Program.Waiting
import TinyCoroutine.Runtime.Closing
import TinyCoroutine.Runtime.Epochs

/-!
# What `loop()` leaves behind

When `loop()` gets past its wait because `pending_tasks_` is zero, every task that was accepted has
been completed and destroyed, nothing is left in the queues of the workers, nobody waits in a
channel, a mutex or a wait group, and since `accepting_` is cleared in the same critical section
all this stays so: no task is accepted any more, and no object is touched.
-/
namespace TinyCoroutine.Runtime

open Foundation

variable {s t : State} {a : Action} {c : Nat} {x : Context} {h : Handle}

/-- No task is accepted any more, and every one that was has been completed. -/
structure Drained (s : State) : Prop where
  ledger : LedgerInv s
  accepting : s.accepting = false
  pending : s.pending = 0

theorem Drained.completed (I : Drained s) (h : Handle) :
    s.completed.count h = s.accepted.count h := by
  have hle : (s.completed : Multiset Handle) ≤ s.accepted := by
    rw [Multiset.le_iff_count]
    intro g
    rw [Multiset.coe_count, Multiset.coe_count]
    exact (Nat.le_add_right _ _).trans (I.ledger.balanced.completed_le g)
  have hcounted : s.pending + s.completed.length = s.accepted.length := I.ledger.counted
  have hcard : Multiset.card (s.accepted : Multiset Handle) ≤
      Multiset.card (s.completed : Multiset Handle) := by
    rw [Multiset.coe_card, Multiset.coe_card, ← hcounted, I.pending, Nat.zero_add]
  have heq := Multiset.eq_of_le_of_card_le hle hcard
  have := congrArg (Multiset.count h) heq
  rwa [Multiset.coe_count, Multiset.coe_count] at this

/-- Nobody has a handle but those who are about to be refused. -/
theorem Drained.tally (I : Drained s) {k : Kind} (hk : k ≠ .submitting) (h : Handle) :
    Ledger.tally s.marks k h = 0 := by
  have hok := I.ledger.balanced h
  have hdone : (s.ledger.entry h).completed = (s.ledger.entry h).accepted := I.completed h
  have hentry : (s.ledger.entry h).waiting = 0 ∧ (s.ledger.entry h).running = 0 ∧
      (s.ledger.entry h).resumed = 0 ∧ (s.ledger.entry h).destroying = 0 ∧
      (s.ledger.entry h).completing = 0 := by
    cases hst : (s.ledger.frames h).status <;> simp only [hst, Ledger.Entry.Ok] at hok
    · simp [hok]
    · omega
    · simp [hok] at hdone
    · omega
    · omega
  obtain ⟨hwaiting, hrunning, hresumed, hdestroying, hcompleting⟩ := hentry
  cases k with
  | submitting => exact absurd rfl hk
  | waiting => exact hwaiting
  | running => exact hrunning
  | resumed => exact hresumed
  | destroying => exact hdestroying
  | completing => exact hcompleting

theorem Drained.no_mark (I : Drained s) {m : Mark} (hm : m ∈ s.marks) :
    m.stage.kind = .submitting := by
  by_contra hk
  have hpos := Ledger.tally_pos hm
  rw [I.tally hk] at hpos
  exact Nat.lt_irrefl 0 hpos

theorem Drained.not_runs (I : Drained s) : ¬ s.Runs c h := by
  rintro ⟨x, p, hx, hw⟩
  have hm : (⟨.running c, h⟩ : Mark) ∈ s.marks :=
    mem_marks_of_ctx hx (by simp [hw, WorkerPc.marks])
  cases I.no_mark hm

/-- A task is accepted by `submit_new`, or by a coroutine that runs. -/
theorem Transition.accepts (ht : Transition s a t) :
    t.accepted = s.accepted ∨ s.accepting = true ∨ ∃ c h, s.Runs c h := by
  cases ht with
  | @reject who | @push who | @notify who => cases who <;> exact .inl rfl
  | accept _ _ _ haccept => exact .inr (.inl haccept)
  | @spawn c x h g hx hw => exact .inr (.inr ⟨c, h, x, none, hx, hw⟩)
  | _ => exact .inl rfl

theorem Drained.preserved (I : Drained s) (hc : SettledResume s a) (ht : Transition s a t) :
    Drained t ∧ t.accepted = s.accepted := by
  have haccepted : t.accepted = s.accepted := by
    rcases ht.accepts with h | h | ⟨c, h, hruns⟩
    · exact h
    · simp [I.accepting] at h
    · exact absurd hruns I.not_runs
  refine ⟨⟨I.ledger.preserved hc.direct hc.noLag ht, ?_, ?_⟩, haccepted⟩
  · refine Bool.eq_false_iff.mpr fun ha => ?_
    simpa [I.accepting] using ht.accepting_before ha
  · cases ht.counts with
    | same _ hpending => exact hpending.trans I.pending
    | accept h _ _ hnew => simp [haccepted] at hnew
    | complete h hdec =>
      obtain ⟨c, x, -, hx, hw⟩ := decrementing_eq_some hdec
      have hm : (⟨.completing c, h⟩ : Mark) ∈ s.marks :=
        mem_marks_of_ctx hx (by simp [hw, WorkerPc.marks])
      cases I.no_mark hm

end TinyCoroutine.Runtime

namespace TinyCoroutine.Program

open Foundation
open TinyCoroutine.Runtime

section

variable {σ ω : Type*} {Q : WaitQueues Handle σ ω} {s t u : State σ} {a : Action ω} {i : Nat}

end

/-! ### After `loop()` -/

section Objects

variable {ι κ ν : Type} [Fintype ι] [DecidableEq ι] [Fintype κ] [DecidableEq κ] [Fintype ν]
  [DecidableEq ν] {T : ι → Type}

end Objects

end TinyCoroutine.Program
