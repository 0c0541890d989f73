import Mathlib.Data.Multiset.OrderedMonoid
import TinyCoroutine.Runtime.Migration

/-!
# Tasks that stay on their worker

A task that suspends only by yielding or for I/O waits in the engine of the worker that
ran it. That worker resumes it again only after it has asked `done()`, so no
condition on the schedule is needed: every accepted task that is not finished is in
exactly one place, and `pending` counts it. A `loop()` that gets past its wait without a
stop request finds nothing left anywhere.
-/
namespace TinyCoroutine.Runtime

open Foundation

variable {s t : State} {a : Action} {c : Nat} {x : Context} {g : Handle}

/-! ### The local ledger -/

namespace Ledger

variable {C : Ledger → Delicate → Prop} {L L' : Ledger} {out new M : Multiset Mark}

/-- A coroutine that a worker has just resumed waits, if it is suspended, in the engine of
that worker. -/
structure Local (L : Ledger) : Prop where
  resumed : ∀ c h, ⟨.resumed c, h⟩ ∈ L.marks → (L.frames h).status = .suspended →
    ⟨.waiting (.task c), h⟩ ∈ L.marks ∨ ⟨.waiting (.io c), h⟩ ∈ L.marks
  parked : ∀ h, ⟨.waiting .parked, h⟩ ∉ L.marks

theorem tally_pair {m m' : Mark} (hm : m ∈ M) (hm' : m' ∈ M) (hne : m ≠ m')
    (hk : m'.stage.kind = m.stage.kind) (hh : m'.handle = m.handle) :
    2 ≤ tally M m.stage.kind m.handle := by
  obtain ⟨N, rfl⟩ := Multiset.exists_cons_of_mem hm
  have hN : m' ∈ N := (Multiset.mem_cons.mp hm').resolve_left hne.symm
  have hpos := tally_pos hN
  rw [hk, hh] at hpos
  simp only [tally_cons, and_self, if_true]
  omega

/-- A worker that is free to resume a coroutine is the only one that could still hold it. -/
theorem Local.noLag (hl : L.Local) (hb : L.Balanced)
    (hm : ⟨.waiting (.task c), g⟩ ∈ L.marks) (hfree : ∀ m ∈ L.marks, m.stage.worker ≠ some c) :
    tally L.marks .resumed g = 0 := by
  by_contra hne
  obtain ⟨⟨st, h⟩, hr, hk, rfl⟩ := exists_mem_of_tally_pos (Nat.pos_of_ne_zero hne)
  obtain ⟨d, rfl⟩ : ∃ d, st = .resumed d := by
    cases st <;> simp [Stage.kind] at hk ⊢
  have hcd : c ≠ d := by
    rintro rfl
    exact hfree _ hr rfl
  have hst := hb.status_of_mark hm
  have hwaiting : tally L.marks .waiting h ≤ 1 := by
    have hok := hb h
    simp only [Stage.kind] at hst
    simp only [hst, Entry.Ok, entry] at hok
    omega
  have htwo : 2 ≤ tally L.marks .waiting h := by
    rcases hl.resumed d h hr hst with hm' | hm'
    · exact tally_pair hm hm' (by simp [hcd]) rfl rfl
    · exact tally_pair hm hm' (by simp) rfl rfl
  omega

theorem Local.of_exchange (hl : L.Local) (hex : L.Exchange out new L'.marks)
    (hkeep : ∀ d h, ⟨.resumed d, h⟩ ∈ L.marks → (L'.frames h).status = .suspended →
      (L.frames h).status = .suspended ∧ ⟨.waiting (.task d), h⟩ ∉ out ∧
        ⟨.waiting (.io d), h⟩ ∉ out)
    (hnew : ∀ d h, ⟨.resumed d, h⟩ ∈ new → (L'.frames h).status = .suspended →
      ⟨.waiting (.task d), h⟩ ∈ L'.marks ∨ ⟨.waiting (.io d), h⟩ ∈ L'.marks)
    (hparked : ∀ h, ⟨.waiting .parked, h⟩ ∉ new) : L'.Local where
  resumed d h hm hst := by
    rcases hex.mem_new hm with hm | hm
    · obtain ⟨hold, htask, hio⟩ := hkeep d h hm hst
      rcases hl.resumed d h hm hold with hw | hw
      · exact .inl (hex.mem_kept hw htask)
      · exact .inr (hex.mem_kept hw hio)
    · exact hnew d h hm hst
  parked h hm := by
    rcases hex.mem_new hm with hm | hm
    · exact hl.parked h hm
    · exact hparked h hm

/-- The status of a coroutine that a worker has just resumed. -/
theorem Balanced.status_of_resumed (hb : L.Balanced) {d : Nat} (hm : ⟨.resumed d, g⟩ ∈ L.marks) :
    (L.frames g).status = .suspended ∨ (L.frames g).status = .final := by
  have hst := hb.status_of_mark hm
  simpa [Stage.kind] using hst

theorem Local.step (hl : L.Local) (hb : L.Balanced) (hpark : ∀ h, ¬ C L (.park h))
    (h : Step C L L') : L'.Local := by
  have same : ∀ {d h}, ⟨.resumed d, h⟩ ∈ L.marks → (L.frames h).status ≠ .final →
      (L.frames h).status = .suspended := fun hm hst => (hb.status_of_resumed hm).resolve_right hst
  cases h with
  | idle => exact hl
  | @create h M hfresh _ hex | @spawn h _ M hfresh _ hex =>
    refine hl.of_exchange hex (fun d g hm hst => ⟨?_, by simp, by simp⟩) (by simp) (by simp)
    refine same hm fun hfin => ?_
    by_cases hg : g = h
    · simp [hg, hfresh] at hfin
    · simp only [setStatus_of_ne _ hg, hfin] at hst
      cases hst
  | @reject h M hex | @destroy _ h M hex =>
    refine hl.of_exchange hex (fun d g hm hst => ⟨?_, by simp, by simp⟩) (by simp) (by simp)
    by_cases hg : g = h
    · simp [hg, setStatus] at hst
    · simpa only [setStatus_of_ne _ hg] using hst
  | @finish c h M hex =>
    refine hl.of_exchange hex (fun d g hm hst => ⟨?_, by simp, by simp⟩) ?_ (by simp)
    · by_cases hg : g = h
      · simp [hg, setStatus] at hst
      · simpa only [setStatus_of_ne _ hg] using hst
    · intro d g hm hst
      obtain ⟨-, rfl⟩ : d = c ∧ g = h := by simpa using hm
      simp [setStatus] at hst
  | accept hex | notDone _ hex | done _ hex | complete hex =>
    exact hl.of_exchange hex (fun d g hm hst => ⟨hst, by simp, by simp⟩) (by simp) (by simp)
  | @move p q M hs hmove hex =>
    refine ⟨fun d g hm hst => ?_, fun g hm => ?_⟩
    · have hold := (hex.mem_new hm).resolve_right (by simp)
      rcases hl.resumed d g hold hst with hw | hw
      · exact .inl (hex.mem_kept hw (by cases hmove <;> simp))
      · by_cases hout : (⟨.waiting (.io d), g⟩ : Mark) ∈ hs.map (Mark.mk (.waiting p))
        · obtain ⟨h, hh, heq⟩ := Multiset.mem_map.mp hout
          obtain ⟨rfl, rfl⟩ : p = .io d ∧ h = g := by simpa using heq
          cases hmove
          exact .inl (hex.mem_of_new (Multiset.mem_map_of_mem _ hh) (by simp))
        · exact .inr (hex.mem_kept hw hout)
    · rcases hex.mem_new hm with hm | hm
      · exact hl.parked g hm
      · cases hmove <;> simp at hm
  | @resume c h M _ hfree hex =>
    have hne : ∀ g, (Function.update L.frames h ⟨.running, some c⟩ g).status = .suspended →
        g ≠ h := by
      rintro g hst rfl
      simp at hst
    refine hl.of_exchange hex (fun d g hm hst => ?_) (by simp) (by simp)
    refine ⟨by simpa only [Function.update_of_ne (hne g hst)] using hst, ?_, by simp⟩
    simp [hne g hst]
  | @suspend c h p M hp hparked hex =>
    have hp' : p = .task c ∨ p = .io c := by
      cases hp with
      | yield => exact .inl rfl
      | io => exact .inr rfl
      | park => exact absurd (hparked rfl) (hpark h)
    have hw : (⟨.waiting p, h⟩ : Mark) ∈ M := hex.mem_of_new (by simp) (by simp)
    refine hl.of_exchange hex (fun d g hm hst => ⟨?_, by simp, by simp⟩) (fun d g hm hst => ?_) ?_
    · refine same hm fun hfin => ?_
      by_cases hg : g = h
      · have hrunning := hb.status_of_mark (hex.mem_out (m := ⟨.running c, h⟩) (by simp) (by simp))
        simp [Stage.kind, ← hg, hfin] at hrunning
      · simp only [setStatus_of_ne _ hg, hfin] at hst
        cases hst
    · obtain ⟨rfl, rfl⟩ : d = c ∧ g = h := by simpa using hm
      rcases hp' with rfl | rfl
      · exact .inl hw
      · exact .inr hw
    · rcases hp' with rfl | rfl <;> simp

end Ledger

/-! ### The runs -/

/-- Tasks suspend only by yielding or for I/O, and clients leave the engines alone. -/
def StaysOnWorker (_ : State) : Action → Prop
  | .body _ .park => False
  | a => a.direct = false

instance (s : State) (a : Action) : Decidable (StaysOnWorker s a) := by
  unfold StaysOnWorker
  split <;> infer_instance

theorem StaysOnWorker.direct (h : StaysOnWorker s a) : a.direct = false := by
  unfold StaysOnWorker at h
  split at h
  · exact h.elim
  · exact h

theorem StaysOnWorker.not_park (h : StaysOnWorker s a) : a ≠ .body c .park := by
  rintro rfl
  exact h

structure AccountInv (s : State) : Prop extends LedgerInv s where
  stays : s.ledger.Local

theorem AccountInv.init (n : Nat) : AccountInv (init n) where
  toLedgerInv := .init n
  stays := by
    refine ⟨fun c h hm => ?_, fun h hm => ?_⟩
    all_goals
      rw [State.ledger, marks_init] at hm
      exact absurd hm (Multiset.notMem_zero _)

theorem AccountInv.noLag (I : AccountInv s) : ∀ d ∈ s.delicate a, s.ledger.NoLag d := by
  intro d hd
  cases d with
  | park => trivial
  | resume c g =>
    obtain ⟨-, x, rest, hx, hw, hb⟩ := delicate_resume hd
    refine I.stays.noLag I.balanced (c := c) ?_ fun m hm => worker_free hx (by rw [hw]; rfl) hm
    exact mem_marks_of_task hx (by simp [Context.tasks, hb])

theorem AccountInv.preserved (I : AccountInv s) (hc : StaysOnWorker s a) (h : Transition s a t) :
    AccountInv t where
  toLedgerInv := I.toLedgerInv.preserved hc.direct I.noLag h
  stays := by
    have hstep : Ledger.Step (fun _ d => ∀ h, d ≠ .park h) s.ledger t.ledger := by
      refine h.ledger I.regular hc.direct fun d hd h => ?_
      rintro rfl
      obtain ⟨c, rfl⟩ := delicate_park hd
      exact hc.not_park rfl
    exact I.stays.step I.balanced (fun h hpark => hpark h rfl) hstep

theorem AccountInv.of_run {n : Nat} (h : Run step StaysOnWorker (Runtime.init n) s) :
    AccountInv s :=
  h.invariant (.init n) fun I hc ht => I.preserved hc (step_transition ht)

/-! ### Places -/

def pushCount (h : Handle) : Option SubmitPc → Nat
  | some (.push _ g) => if g = h then 1 else 0
  | _ => 0

def WorkerPc.places (h : Handle) : WorkerPc → Nat
  | .running g p => (if g = h then 1 else 0) + pushCount h p
  | _ => 0

def Context.places (h : Handle) (x : Context) : Nat :=
  x.engine.taskQueue.count h + x.batch.count h + x.engine.ioHandles.count h + x.worker.places h

/-- How often `h` is about to be pushed, queued, in a batch, waiting for I/O or running. -/
def State.places (s : State) (h : Handle) : Nat :=
  total (Context.places h) s.ctxs + total (fun k => pushCount h k.submission) s.calls

/-- The mark is on `h` and says that it is waiting or running. -/
def Mark.AtPlace (h : Handle) (m : Mark) : Prop :=
  (m.stage.kind = .waiting ∨ m.stage.kind = .running) ∧ m.handle = h

instance (h : Handle) : DecidablePred (Mark.AtPlace h) := fun _ =>
  inferInstanceAs (Decidable (_ ∧ _))

theorem countP_atPlace (M : Multiset Mark) (h : Handle) :
    M.countP (Mark.AtPlace h) = Ledger.tally M .waiting h + Ledger.tally M .running h := by
  induction M using Multiset.induction with
  | empty => rfl
  | cons m M ih =>
    rw [Multiset.countP_cons, ih, Ledger.tally_cons, Ledger.tally_cons]
    obtain ⟨st, g⟩ := m
    cases st <;> simp [Mark.AtPlace, Stage.kind] <;> omega

theorem countP_waiting (q : Place) (S : Multiset Handle) (h : Handle) :
    (S.map (Mark.mk (.waiting q))).countP (Mark.AtPlace h) = S.count h := by
  rw [Multiset.countP_map, Multiset.count, Multiset.countP_eq_card_filter]
  congr 1
  refine Multiset.filter_congr fun g _ => ?_
  simp [Mark.AtPlace, Stage.kind, eq_comm]

theorem countP_submission (p : Option SubmitPc) (h : Handle) :
    (submissionMarks p).countP (Mark.AtPlace h) = pushCount h p := by
  unfold submissionMarks pushCount
  split <;> simp [← Multiset.cons_zero, Multiset.countP_cons, Mark.AtPlace, Stage.kind]

theorem countP_worker (pc : WorkerPc) (h : Handle) :
    (pc.marks c).countP (Mark.AtPlace h) = pc.places h := by
  cases pc with
  | running g p =>
    simp [WorkerPc.marks, WorkerPc.places, Multiset.countP_cons, Mark.AtPlace, Stage.kind,
      countP_submission, Nat.add_comm]
  | _ =>
    simp [WorkerPc.marks, WorkerPc.places, ← Multiset.cons_zero, Mark.AtPlace, Stage.kind]

theorem countP_context (x : Context) (h : Handle) :
    (x.marks c).countP (Mark.AtPlace h) = x.places h := by
  simp only [Context.marks, Context.tasks, Context.places, Multiset.countP_add, countP_waiting,
    countP_worker, Multiset.count_add, Multiset.coe_count]

theorem State.places_eq (s : State) (h : Handle) :
    s.places h + s.parked.count h =
      Ledger.tally s.marks .waiting h + Ledger.tally s.marks .running h := by
  rw [← countP_atPlace, State.marks, Multiset.countP_add, Multiset.countP_add, countP_waiting,
    countP_sumIdx _ _ _ fun _ x => countP_context x h,
    countP_sumIdx _ _ _ fun _ k => countP_submission k.submission h, Multiset.coe_count]
  rfl

/-! ### The accounts -/

/-- The coroutine has not reached its final suspension. -/
def State.unfinished (s : State) (h : Handle) : Bool :=
  (s.frames h).status = .suspended || (s.frames h).status = .running

/-- The counter and the places of the accepted tasks. -/
structure Accounted (s : State) : Prop where
  accepted : s.accepted.Nodup
  /-- An accepted task that is not finished is in one place, and nothing else is in any. -/
  places : ∀ h, s.unfinished h = true → s.places h = if h ∈ s.accepted then 1 else 0
  finished : ∀ h, s.unfinished h = false → s.places h = 0
  /-- A worker still has the decrement for a finished task that was not counted off. -/
  held : ∀ h ∈ s.accepted, s.unfinished h = false → h ∉ s.completed → s.Held h
  pending : s.pending = s.accepted.countP s.unfinished +
    s.accepted.countP fun h => !s.unfinished h && h ∉ s.completed
  decrement : ∀ x ∈ s.ctxs, ∀ h, x.worker = .completed h → 0 < s.pending

theorem AccountInv.parked (I : AccountInv s) : s.parked = [] := by
  refine List.eq_nil_iff_forall_not_mem.mpr fun h hh => I.stays.parked h ?_
  exact Multiset.mem_add.mpr (.inr (Multiset.mem_map_of_mem _ hh))

theorem LedgerInv.pending_eq (I : LedgerInv s) :
    s.pending = s.accepted.countP s.unfinished +
      s.accepted.countP fun h => !s.unfinished h && h ∉ s.completed := by
  have hcounted : s.pending + s.completed.length = s.accepted.length := I.counted
  have hrest : s.accepted.countP (fun h => h ∉ s.completed) + s.completed.length =
      s.accepted.length :=
    countP_notMem_add_length I.balanced.nodup_accepted I.balanced.nodup_completed
      fun h hh => (I.balanced.status_of_completed hh).1
  have hsplit := List.countP_eq_countP_filter_add s.accepted (fun h => decide (h ∉ s.completed))
    s.unfinished
  rw [List.countP_filter, List.countP_filter] at hsplit
  have hopen : s.accepted.countP (fun h => decide (h ∉ s.completed) && s.unfinished h) =
      s.accepted.countP s.unfinished := by
    refine List.countP_congr fun h _ => ?_
    simp only [Bool.and_eq_true, decide_eq_true_eq, and_iff_right_iff_imp]
    intro hopen hh
    have hst : (s.frames h).status = .destroyed := (I.balanced.status_of_completed hh).2
    simp [State.unfinished, hst] at hopen
  simp only [Bool.and_comm (!s.unfinished _)]
  omega

theorem AccountInv.places_eq (I : AccountInv s) (h : Handle) :
    s.places h = (s.ledger.entry h).waiting + (s.ledger.entry h).running := by
  have heq := s.places_eq h
  rw [I.parked, List.count_nil] at heq
  exact heq

theorem AccountInv.accounted (I : AccountInv s) : Accounted s where
  accepted := I.balanced.nodup_accepted
  places h hopen := by
    have hok := I.balanced h
    have hone : s.accepted.count h ≤ 1 :=
      List.nodup_iff_count_le_one.mp I.balanced.nodup_accepted h
    have hmem : (s.ledger.entry h).accepted = if h ∈ s.accepted then 1 else 0 := by
      change s.accepted.count h = _
      split
      · have := List.count_pos_iff.mpr ‹_›
        omega
      · exact List.count_eq_zero_of_not_mem ‹_›
    rw [I.places_eq, ← hmem]
    simp only [State.unfinished, Bool.or_eq_true, decide_eq_true_eq] at hopen
    rcases hopen with hst | hst
    · simp only [State.ledger, hst, Ledger.Entry.Ok] at hok ⊢
      omega
    · simp only [State.ledger, hst, Ledger.Entry.Ok] at hok ⊢
      simp [hok]
  finished h hdone := by
    have hok : (s.ledger.entry h).Ok (s.frames h).status := I.balanced h
    rw [I.places_eq]
    cases hst : (s.frames h).status <;> simp only [hst, Ledger.Entry.Ok] at hok
    case none => simp [hok]
    case final | destroyed => omega
    all_goals simp [State.unfinished, hst] at hdone
  held h hacc hdone hcomp := by
    by_contra hheld
    obtain ⟨hr, hd, hc⟩ := entry_of_not_held hheld
    have hok : (s.ledger.entry h).Ok (s.frames h).status := I.balanced h
    have hpos : 0 < (s.ledger.entry h).accepted := List.count_pos_iff.mpr hacc
    have hnone : (s.ledger.entry h).completed = 0 := List.count_eq_zero_of_not_mem hcomp
    cases hst : (s.frames h).status <;> simp only [hst, Ledger.Entry.Ok] at hok
    case none => simp [hok] at hpos
    case final | destroyed => omega
    all_goals simp [State.unfinished, hst] at hdone
  pending := I.pending_eq
  decrement x hx h hw := by
    obtain ⟨c, hc⟩ := List.mem_iff_getElem?.mp hx
    have hm : (⟨.completing c, h⟩ : Mark) ∈ s.marks :=
      mem_marks_of_ctx hc (by simp [hw, WorkerPc.marks])
    have hpos := Ledger.tally_pos hm
    have hle : s.completed.count h + Ledger.tally s.marks .completing h ≤ s.accepted.count h :=
      I.balanced.completed_le h
    have hone : s.accepted.count h ≤ 1 :=
      List.nodup_iff_count_le_one.mp I.balanced.nodup_accepted h
    simp only [Stage.kind] at hpos
    have hopen : s.unfinished h = false := by
      have hst : (s.frames h).status = .destroyed := I.balanced.status_of_mark hm
      simp [State.unfinished, hst]
    have hcount : 0 < s.accepted.countP fun h => !s.unfinished h && h ∉ s.completed := by
      refine List.countP_pos_iff.mpr ⟨h, List.count_pos_iff.mp (by omega), ?_⟩
      simp [hopen, List.count_eq_zero.mp (by omega : s.completed.count h = 0)]
    rw [I.pending_eq]
    omega

/-! ### When `loop()` gets past its wait -/

/-- Nothing is left in the queues of an engine or in its ring. -/
structure Engine.Drained (e : Engine) : Prop where
  taskQueue : e.taskQueue = []
  ioWaitingQueue : e.ioWaitingQueue = []
  ioReadSubmitQueue : e.ioReadSubmitQueue = []
  ioWriteSubmitQueue : e.ioWriteSubmitQueue = []
  uring : e.uring.awaiters = 0

theorem Engine.drained_of_handles {e : Engine} (htasks : e.taskQueue = [])
    (hio : e.ioHandles = 0) : e.Drained := by
  obtain ⟨hwaiting, hawaiters⟩ := add_eq_zero.mp hio
  obtain ⟨hqueues, hring⟩ := add_eq_zero.mp (Multiset.map_eq_zero.mp hawaiters)
  obtain ⟨hreads, hwrites⟩ := add_eq_zero.mp hqueues
  exact ⟨htasks, (Multiset.coe_eq_zero _).mp hwaiting, (Multiset.coe_eq_zero _).mp hreads,
    (Multiset.coe_eq_zero _).mp hwrites, hring⟩

/-- Every accepted task has been finished, destroyed and counted off, and no handle is
left anywhere. -/
structure AllDone (s : State) : Prop where
  tasks : ∀ h ∈ s.accepted, (s.frames h).status = .destroyed ∧ h ∈ s.completed
  places : ∀ h, s.places h = 0
  contexts : ∀ x ∈ s.ctxs, x.engine.Drained ∧ x.batch = []

theorem AccountInv.allDone (I : AccountInv s) (hzero : s.pending = 0) : AllDone s := by
  have A := I.accounted
  have hpending := A.pending
  have hopen : ∀ h ∈ s.accepted, s.unfinished h = false := by
    intro h hh
    have := List.countP_eq_zero.mp (by omega : s.accepted.countP s.unfinished = 0) h hh
    simpa using this
  have hcomp : ∀ h ∈ s.accepted, h ∈ s.completed := by
    intro h hh
    have := List.countP_eq_zero.mp (by omega :
      (s.accepted.countP fun h => !s.unfinished h && h ∉ s.completed) = 0) h hh
    simpa [hopen h hh] using this
  have hplaces : ∀ h, s.places h = 0 := by
    intro h
    cases hst : s.unfinished h with
    | false => exact A.finished h hst
    | true =>
      rw [A.places h hst, if_neg]
      intro hh
      simp [hopen h hh] at hst
  refine ⟨fun h hh => ⟨(I.balanced.status_of_completed (hcomp h hh)).2, hcomp h hh⟩, hplaces, ?_⟩
  intro x hx
  have hcount : ∀ h, x.places h = 0 := by
    intro h
    have htotal : total (Context.places h) s.ctxs = 0 := by
      have := hplaces h
      unfold State.places at this
      omega
    exact (total_eq_zero _ _).mp htotal x hx
  have hnil {l : List Handle} (hl : ∀ h, l.count h = 0) : l = [] :=
    List.eq_nil_iff_forall_not_mem.mpr fun h => List.count_eq_zero.mp (hl h)
  have hparts : ∀ h, x.engine.taskQueue.count h = 0 ∧ x.batch.count h = 0 ∧
      x.engine.ioHandles.count h = 0 := by
    intro h
    have := hcount h
    unfold Context.places at this
    omega
  refine ⟨Engine.drained_of_handles (hnil fun h => (hparts h).1) ?_, hnil fun h => (hparts h).2.1⟩
  exact Multiset.eq_zero_of_forall_notMem fun h => Multiset.count_eq_zero.mp (hparts h).2.2

/-- The call gets past its wait in this step, and not because of a stop request. -/
def LoopPasses (s : State) (i : Nat) (t : State) : Prop :=
  s.calls[i]? = some (.loop .evaluate) ∧ step s (.call i) = some t ∧
    t.calls[i]? = some (.shutdown .swap) ∧ s.stopRequested = false

theorem LoopPasses.state {i : Nat} (h : LoopPasses s i t) : s.pending = 0 ∧
    t = { s.setCall i (.shutdown .swap) with accepting := false, stateLocked := false } := by
  obtain ⟨hi, hstep, hswap, hstop⟩ := h
  have hlt := (List.getElem?_eq_some_iff.mp hi).1
  by_cases hzero : s.pending = 0
  · have hpass : { s.setCall i (.shutdown .swap) with
        accepting := false, stateLocked := false } = t := by
      simpa [step, callStep, hi, loopStep, hzero] using hstep
    exact ⟨hzero, hpass.symm⟩
  · have hblock : s.setCall i (.loop .block) = t := by
      simpa [step, callStep, hi, loopStep, hstop, hzero] using hstep
    rw [← hblock, State.setCall, List.getElem?_set_self hlt] at hswap
    cases hswap

theorem LoopPasses.pending {i : Nat} (h : LoopPasses s i t) : t.pending = 0 := by
  obtain ⟨hzero, rfl⟩ := h.state
  exact hzero

/-- The accounts are right in every state, and a `loop()` that returns from its wait
without a stop request leaves nothing behind. -/
theorem pending_accounts_for_tasks {n : Nat} (h : Run step StaysOnWorker (init n) s) :
    Accounted s ∧ ∀ i t, LoopPasses s i t → AllDone t := by
  have I := AccountInv.of_run h
  refine ⟨I.accounted, fun i t hpass => ?_⟩
  have It : AccountInv t :=
    AccountInv.of_run (h.snoc (show StaysOnWorker s (.call i) from rfl) hpass.2.1)
  exact It.allDone hpass.pending

/-- A task that spawns another one and waits for I/O until that one has finished, under a
`loop()` that is woken by the last completion. -/
theorem pending_accounts_for_tasks_spawning :
    ∃ s t, Run step StaysOnWorker (init 1) s ∧ Accounted s ∧ s.accepted = [1, 2] ∧
      LoopPasses s 1 t ∧ AllDone t := by
  obtain ⟨s, hs, hacc, hi, hstop, t, hstep, hswap⟩ := exists_run step StaysOnWorker (init 1)
    [.callSubmit 1, .submission (.call 0), .submission (.call 0), .submission (.call 0),
      .callLoop, .call 1, .call 1, .call 1, .worker 0, .worker 0,
      .body 0 (.submitToScheduler 2), .submission (.worker 0), .submission (.worker 0),
      .body 0 (.suspendIo (.waiting 1)), .checkDone 0 false, .worker 0, .worker 0, .worker 0,
      .body 0 .finish, .checkDone 0 true, .worker 0, .worker 0, .worker 0, .worker 0,
      .pollSubmit 0 [], .worker 0, .worker 0, .worker 0, .body 0 .finish, .checkDone 0 true,
      .worker 0, .worker 0, .worker 0, .call 1]
    (fun s => s.accepted = [1, 2] ∧ s.calls[1]? = some (.loop .evaluate) ∧
      s.stopRequested = false ∧
      ∃ t ∈ step s (.call 1), t.calls[1]? = some (.shutdown .swap)) (by decide)
  have hpass : LoopPasses s 1 t := ⟨hi, hstep, hswap, hstop⟩
  obtain ⟨haccounted, hdone⟩ := pending_accounts_for_tasks hs
  exact ⟨s, t, hs, haccounted, hacc, hpass, hdone 1 t hpass⟩

end TinyCoroutine.Runtime
