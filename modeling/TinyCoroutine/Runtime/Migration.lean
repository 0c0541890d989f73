import TinyCoroutine.Runtime.Outstanding
import TinyCoroutine.Runtime.Refinement
import TinyCoroutine.Foundation.Run

/-!
# Completion of tasks that migrate

A coroutine that parks is visible to other threads before the worker that ran it has
asked `done()`. A coroutine on another worker may wake it, and that worker may resume
and finish it, while the first one still holds the handle: `parked_task_destroyed_twice`
is such a run, with a double destruction at its end. When no worker resumes a
coroutine while another is still between its own resumption and its `done()`
(`SettledResume`), the ledger stays balanced and every accepted task is completed and
destroyed exactly once.
-/
namespace TinyCoroutine.Runtime

open Foundation

variable {s t : State} {a : Action} {c : Nat} {x : Context} {g : Handle}

/-! ### The ledger along a run -/

/-- The invariant of the scheduler: its ledger is balanced and counted. -/
structure LedgerInv (s : State) : Prop where
  regular : Regular s
  balanced : s.ledger.Balanced
  owned : s.ledger.Owned
  housed : s.ledger.Housed
  counted : s.ledger.Counted

theorem marks_init (n : Nat) : (init n).marks = 0 := by
  refine Multiset.eq_zero_of_forall_notMem fun m hm => ?_
  rcases Multiset.mem_add.mp hm with hm | hm
  · rcases Multiset.mem_add.mp hm with hm | hm
    · obtain ⟨d, z, hz, hm⟩ := (mem_sumIdx _).mp hm
      have hempty : (init n).Each fun d x => x.marks d = 0 := .init fun _ => rfl
      rw [hempty d z hz] at hm
      exact Multiset.notMem_zero _ hm
    · exact Multiset.notMem_zero _ hm
  · exact Multiset.notMem_zero _ hm

theorem LedgerInv.init (n : Nat) : LedgerInv (init n) where
  regular := .init n
  balanced h := by
    simp only [Ledger.entry, State.ledger, marks_init]
    rfl
  owned m hm := by
    rw [State.ledger, marks_init] at hm
    exact absurd hm (Multiset.notMem_zero _)
  housed := by
    refine ⟨?_, Nat.two_pow_pos 64⟩
    simp only [State.ledger, marks_init]
    rfl
  counted := rfl

theorem LedgerInv.preserved (I : LedgerInv s) (ha : a.direct = false)
    (hlag : ∀ d ∈ s.delicate a, s.ledger.NoLag d) (h : Transition s a t) : LedgerInv t := by
  have hstep : Ledger.Step Ledger.NoLag s.ledger t.ledger := h.ledger I.regular ha hlag
  have hhoused := I.housed.step I.balanced hstep
  exact ⟨I.regular.preserved ha h, I.balanced.step hstep, I.owned.step I.balanced hstep, hhoused,
    I.counted.step I.balanced hstep hhoused⟩

/-! ### Workers and marks -/

theorem worker_of_mem_marks {m : Mark} {d : Nat} {pc : WorkerPc} (hm : m ∈ pc.marks d)
    (hw : m.stage.worker ≠ none) :
    (∃ p, pc = .running m.handle p ∧ m.stage = .running d) ∨
      (pc = .resumed m.handle ∧ m.stage = .resumed d) ∨
      (pc = .destroy m.handle ∧ m.stage = .destroying d) ∨
      (pc = .completed m.handle ∧ m.stage = .completing d) := by
  unfold WorkerPc.marks at hm
  split at hm
  · rename_i h p
    rcases Multiset.mem_add.mp hm with hm | hm
    · obtain rfl := Multiset.mem_singleton.mp hm
      exact .inl ⟨p, rfl, rfl⟩
    · exact absurd (stage_of_submission hm) hw
  all_goals simp_all

theorem mem_marks_of_ctx {m : Mark} (hx : s.ctxs[c]? = some x) (hm : m ∈ x.worker.marks c) :
    m ∈ s.marks := by
  refine Multiset.mem_add.mpr (.inl (Multiset.mem_add.mpr (.inl ?_)))
  exact (mem_sumIdx _).mpr ⟨c, x, hx, Multiset.mem_add.mpr (.inr hm)⟩

theorem mem_marks_of_task (hx : s.ctxs[c]? = some x) (hg : g ∈ x.tasks) :
    ⟨.waiting (.task c), g⟩ ∈ s.marks := by
  refine Multiset.mem_add.mpr (.inl (Multiset.mem_add.mpr (.inl ?_)))
  refine (mem_sumIdx _).mpr ⟨c, x, hx, Multiset.mem_add.mpr (.inl (Multiset.mem_add.mpr (.inl ?_)))⟩
  exact Multiset.mem_map_of_mem _ hg

/-! ### The condition and the property -/

/-- Worker `c` resumes a coroutine only when no worker is still between its resumption
of the same coroutine and its `done()`. -/
def SettledResume (s : State) : Action → Prop
  | .worker c => ∀ x ∈ s.ctxs[c]?, x.worker = .forLoop → ∀ h ∈ x.batch.head?,
      ∀ y ∈ s.ctxs, y.worker ≠ .resumed h
  | a => a.direct = false

instance (s : State) (a : Action) : Decidable (SettledResume s a) :=
  match a with
  | .worker c => inferInstanceAs (Decidable (∀ x ∈ s.ctxs[c]?, _))
  | .callSubmit _ | .callLoop | .callStop | .callSubmitTask _ _ | .callSubmitIo _ _
  | .submission _ | .call _ | .spuriousLoop _ | .spuriousWorker _ | .body _ _ | .checkDone _ _
  | .pollSubmit _ _ | .complete _ _ _ => inferInstanceAs (Decidable (_ = false))

theorem SettledResume.direct (h : SettledResume s a) : a.direct = false := by
  unfold SettledResume at h
  split at h
  · rfl
  · exact h

theorem delicate_resume (h : .resume c g ∈ s.delicate a) :
    a = .worker c ∧ ∃ x rest, s.ctxs[c]? = some x ∧ x.worker = .forLoop ∧ x.batch = g :: rest := by
  unfold State.delicate at h
  split at h
  · rename_i d
    obtain ⟨x, hx, h⟩ := Option.bind_eq_some_iff.mp h
    split at h
    · rename_i hw
      obtain ⟨k, hk, hd⟩ := Option.map_eq_some_iff.mp h
      obtain ⟨rfl, rfl⟩ := Ledger.Delicate.resume.inj hd
      obtain ⟨rest, hrest⟩ := List.head?_eq_some_iff.mp hk
      exact ⟨rfl, x, rest, hx, hw, hrest⟩
    · cases h
  · obtain ⟨x, -, h⟩ := Option.bind_eq_some_iff.mp h
    split at h <;> simp at h
  · cases h

theorem delicate_park (h : .park g ∈ s.delicate a) : ∃ c, a = .body c .park := by
  unfold State.delicate at h
  split at h
  · obtain ⟨x, -, h⟩ := Option.bind_eq_some_iff.mp h
    split at h <;> simp at h
  · exact ⟨_, rfl⟩
  · cases h

theorem tally_resumed_eq_zero (h : ∀ y ∈ s.ctxs, y.worker ≠ .resumed g) :
    Ledger.tally s.marks .resumed g = 0 := by
  by_contra hne
  obtain ⟨m, hm, hk, rfl⟩ := Ledger.exists_mem_of_tally_pos (Nat.pos_of_ne_zero hne)
  obtain ⟨d, hd⟩ : ∃ d, m.stage = .resumed d := by
    cases hst : m.stage <;> simp_all [Stage.kind]
  obtain ⟨x, hx, hmx⟩ := mem_marks_of_worker (c := d) hm (by rw [hd]; rfl)
  have hplace := worker_of_mem_marks hmx (by simp [hd, Stage.worker])
  simp only [hd] at hplace
  exact h x (List.mem_of_getElem? hx) (by simpa using hplace)

theorem SettledResume.noLag (h : SettledResume s a) : ∀ d ∈ s.delicate a, s.ledger.NoLag d := by
  intro d hd
  cases d with
  | park => trivial
  | resume c g =>
    obtain ⟨rfl, x, rest, hx, hw, hb⟩ := delicate_resume hd
    exact tally_resumed_eq_zero (h x hx hw g (by simp [hb]))

theorem LedgerInv.of_settled_run {n : Nat} (h : Run step SettledResume (Runtime.init n) s) :
    LedgerInv s :=
  h.invariant (.init n) fun I hc ht => I.preserved hc.direct hc.noLag (step_transition ht)

/-- A worker holds `h` after it has resumed it, up to the decrement of `pending`. -/
def State.Held (s : State) (h : Handle) : Prop :=
  ∃ x ∈ s.ctxs, x.worker = .resumed h ∨ x.worker = .destroy h ∨ x.worker = .completed h

/-- Completion and destruction happen once, by the worker that resumed last. -/
structure ExactlyOnce (s : State) : Prop where
  destroyed : ∀ h, s.destroyed.count h ≤ 1
  completed : ∀ h, s.completed.count h ≤ 1
  finished : ∀ h ∈ s.accepted, (s.frames h).status = .final ∨ (s.frames h).status = .destroyed →
    ¬ s.Held h → s.destroyed.count h = 1 ∧ s.completed.count h = 1
  own : ∀ c x h, s.ctxs[c]? = some x → x.worker = .resumed h ∨ x.worker = .destroy h →
    (s.frames h).resumedBy = some c ∧ (s.frames h).status ≠ .destroyed

/-- A worker that holds a coroutine marks it. -/
theorem entry_of_not_held (h : ¬ s.Held g) :
    (s.ledger.entry g).resumed = 0 ∧ (s.ledger.entry g).destroying = 0 ∧
      (s.ledger.entry g).completing = 0 := by
  have hnone : ∀ k, k = .resumed ∨ k = .destroying ∨ k = .completing →
      Ledger.tally s.marks k g = 0 := by
    intro k hk
    by_contra hne
    obtain ⟨m, hm, rfl, rfl⟩ := Ledger.exists_mem_of_tally_pos (Nat.pos_of_ne_zero hne)
    obtain ⟨d, hd⟩ : ∃ d, m.stage.worker = some d := by
      cases hst : m.stage <;> simp [hst, Stage.kind, Stage.worker] at hk ⊢
    obtain ⟨x, hx, hmx⟩ := mem_marks_of_worker hm hd
    refine h ⟨x, List.mem_of_getElem? hx, ?_⟩
    rcases worker_of_mem_marks hmx (by simp [hd]) with ⟨p, -, hst⟩ | h | h | h
    · simp [hst, Stage.kind] at hk
    · exact .inl h.1
    · exact .inr (.inl h.1)
    · exact .inr (.inr h.1)
  exact ⟨hnone _ (by simp), hnone _ (by simp), hnone _ (by simp)⟩

theorem LedgerInv.exactlyOnce (I : LedgerInv s) : ExactlyOnce s := by
  have hentry : ∀ h, s.destroyed.count h ≤ 1 ∧ s.completed.count h ≤ 1 := by
    intro h
    have hok := I.balanced h
    change (s.ledger.entry h).destroyed ≤ 1 ∧ (s.ledger.entry h).completed ≤ 1
    cases hst : (s.ledger.frames h).status <;> simp only [hst, Ledger.Entry.Ok] at hok
    · simp [hok]
    · omega
    · simp [hok]
    · omega
    · omega
  refine ⟨fun h => (hentry h).1, fun h => (hentry h).2, ?_, ?_⟩
  · intro h hacc hst hheld
    have hok := I.balanced h
    obtain ⟨hr, hd, hc⟩ := entry_of_not_held hheld
    have hpos : 0 < (s.ledger.entry h).accepted := List.count_pos_iff.mpr hacc
    change (s.ledger.entry h).destroyed = 1 ∧ (s.ledger.entry h).completed = 1
    rcases hst with hst | hst
    · rw [show (s.ledger.frames h).status = .final from hst] at hok
      simp only [Ledger.Entry.Ok] at hok
      omega
    · rw [show (s.ledger.frames h).status = .destroyed from hst] at hok
      simp only [Ledger.Entry.Ok] at hok
      omega
  · rintro c x h hx (hw | hw)
    · have hm : (⟨.resumed c, h⟩ : Mark) ∈ s.marks :=
        mem_marks_of_ctx hx (by simp [hw, WorkerPc.marks])
      refine ⟨I.owned _ hm c rfl, fun hst => ?_⟩
      rcases I.balanced.status_of_mark hm with hst' | hst'
      · exact absurd (hst.symm.trans hst') (by simp)
      · exact absurd (hst.symm.trans hst') (by simp)
    · have hm : (⟨.destroying c, h⟩ : Mark) ∈ s.marks :=
        mem_marks_of_ctx hx (by simp [hw, WorkerPc.marks])
      refine ⟨I.owned _ hm c rfl, fun hst => ?_⟩
      exact absurd (hst.symm.trans (I.balanced.status_of_mark hm)) (by simp)

/-- Exactly-once completion for any number of workers. -/
theorem settled_run_exactly_once {n : Nat} (h : Run step SettledResume (init n) s) :
    ExactlyOnce s :=
  (LedgerInv.of_settled_run h).exactlyOnce

/-- Two workers: task 5 parks on the first, the second wakes it, resumes and finishes it
after the first has asked `done()`. -/
theorem settled_run_exactly_once_migrating :
    ∃ s, Run step SettledResume (init 2) s ∧ ExactlyOnce s ∧ s.completed = [6, 5] ∧
      (s.frames 5).resumedBy = some 1 := by
  obtain ⟨s, hs, hdone, hby⟩ := exists_run step SettledResume (init 2)
    [.callSubmit 5, .submission (.call 0), .submission (.call 0), .submission (.call 0),
      .callSubmit 6, .submission (.call 1), .submission (.call 1), .submission (.call 1),
      .worker 0, .worker 0, .body 0 .park, .checkDone 0 false,
      .worker 1, .worker 1, .body 1 (.wake 5), .submission (.worker 1), .submission (.worker 1),
      .body 1 .finish, .checkDone 1 true, .worker 1, .worker 1, .worker 1, .worker 1, .worker 1,
      .body 1 .finish, .checkDone 1 true, .worker 1, .worker 1]
    (fun s => s.completed = [6, 5] ∧ (s.frames 5).resumedBy = some 1) (by decide)
  exact ⟨s, hs, settled_run_exactly_once hs, hdone, hby⟩

/-- The runs in which clients use the scheduler and not its engines. -/
def Managed (_ : State) (a : Action) : Prop := a.direct = false

instance (s : State) (a : Action) : Decidable (Managed s a) :=
  inferInstanceAs (Decidable (_ = _))

/-- The same two tasks, but the first worker asks `done()` only after the second has
resumed and finished the parked task: both find it done, and both destroy it. -/
theorem parked_task_destroyed_twice :
    ¬ ∀ (n : Nat) (s : State), 2 ≤ n → Run step Managed (init n) s → ExactlyOnce s := by
  intro h
  obtain ⟨s, hs, htwice⟩ := exists_run step Managed (init 2)
    [.callSubmit 5, .submission (.call 0), .submission (.call 0), .submission (.call 0),
      .callSubmit 6, .submission (.call 1), .submission (.call 1), .submission (.call 1),
      .worker 0, .worker 0, .body 0 .park,
      .worker 1, .worker 1, .body 1 (.wake 5), .submission (.worker 1), .submission (.worker 1),
      .body 1 .finish, .checkDone 1 true, .worker 1, .worker 1, .worker 1, .worker 1, .worker 1,
      .body 1 .finish, .checkDone 0 true, .checkDone 1 true, .worker 0, .worker 1]
    (fun s => s.destroyed.count 5 = 2) (by decide)
  have hle := (h 2 s (by decide) hs).destroyed 5
  omega

end TinyCoroutine.Runtime
