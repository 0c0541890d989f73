import TinyCoroutine.Runtime.State

/-!
# The ledger of accepted tasks

What the scheduler is for, without its threads and queues: every coroutine it has been
given is in some stage of its life, and `pending` counts those that were accepted and
are not finished. A `Mark` says that some thread or queue has a coroutine in some
stage; a step exchanges marks. Nothing in the rules says that a coroutine has one mark
only: that is what has to be proved, and it depends on what is allowed
(`Ledger.Step` is parameterised by a condition on the two delicate rules).
-/
namespace TinyCoroutine.Runtime

/-- Where a suspended coroutine waits to be resumed. -/
inductive Place where
  /-- its submitter has chosen context `c` and not pushed it yet -/
  | pushing (c : Nat)
  /-- the task queue of context `c`, or the unprocessed rest of its batch -/
  | task (c : Nat)
  /-- the I/O queues or the ring of context `c` -/
  | io (c : Nat)
  /-- the wait queue of a channel, mutex or wait group -/
  | parked
  deriving DecidableEq, Repr

inductive Stage where
  | submitting
  | waiting (p : Place)
  | running (c : Nat)
  /-- resumed by worker `c`, which has not asked `done()` yet -/
  | resumed (c : Nat)
  | destroying (c : Nat)
  | completing (c : Nat)
  deriving DecidableEq, Repr

inductive Kind where
  | submitting
  | waiting
  | running
  | resumed
  | destroying
  | completing
  deriving DecidableEq, Repr

def Stage.kind : Stage → Kind
  | .submitting => .submitting
  | .waiting _ => .waiting
  | .running _ => .running
  | .resumed _ => .resumed
  | .destroying _ => .destroying
  | .completing _ => .completing

/-- The worker that is busy with a coroutine in this stage. -/
def Stage.worker : Stage → Option Nat
  | .submitting => none
  | .waiting _ => none
  | .running c => some c
  | .resumed c => some c
  | .destroying c => some c
  | .completing c => some c

structure Mark where
  stage : Stage
  handle : Handle
  deriving DecidableEq, Repr

structure Ledger where
  marks : Multiset Mark
  frames : Handle → Frame
  pending : Nat
  accepted : List Handle
  completed : List Handle
  destroyed : List Handle
  outstanding : Nat

namespace Ledger

/-- The rules that a class of runs may restrict. -/
inductive Delicate where
  | resume (c : Nat) (h : Handle)
  | park (h : Handle)

/-- A waiting coroutine moves on towards the task queue of a context. -/
inductive Move : Place → Place → Prop where
  | push (c : Nat) : Move (.pushing c) (.task c)
  | poll (c : Nat) : Move (.io c) (.task c)
  | wake (c : Nat) : Move .parked (.pushing c)

/-- Where a coroutine of worker `c` waits after it has suspended. -/
inductive Suspends (c : Nat) : Place → Prop where
  | yield : Suspends c (.task c)
  | io : Suspends c (.io c)
  | park : Suspends c .parked

def setStatus (L : Ledger) (h : Handle) (status : FrameStatus) : Handle → Frame :=
  Function.update L.frames h { L.frames h with status }

/-- The marks `M` arise from those of `L` by taking `out` away and putting `new` in. -/
def Exchange (L : Ledger) (out new M : Multiset Mark) : Prop := M + out = L.marks + new

inductive Step (C : Ledger → Delicate → Prop) (L : Ledger) : Ledger → Prop where
  | idle : Step C L L
  | create {h M} : (L.frames h).status = .none → L.outstanding + 1 < 2 ^ 64 →
      L.Exchange 0 {⟨.submitting, h⟩} M →
      Step C L { L with
        marks := M, frames := L.setStatus h .suspended, outstanding := L.outstanding + 1 }
  | reject {h M} : L.Exchange {⟨.submitting, h⟩} 0 M →
      Step C L { L with
        marks := M, frames := L.setStatus h .destroyed, destroyed := L.destroyed ++ [h]
        outstanding := L.outstanding - 1 }
  | accept {h c M} : L.Exchange {⟨.submitting, h⟩} {⟨.waiting (.pushing c), h⟩} M →
      Step C L { L with
        marks := M, pending := fetchAdd L.pending 1, accepted := L.accepted ++ [h] }
  | spawn {h c M} : (L.frames h).status = .none → L.outstanding + 1 < 2 ^ 64 →
      L.Exchange 0 {⟨.waiting (.pushing c), h⟩} M →
      Step C L { L with
        marks := M, frames := L.setStatus h .suspended, outstanding := L.outstanding + 1
        pending := fetchAdd L.pending 1, accepted := L.accepted ++ [h] }
  | move {p q M} (hs : Multiset Handle) : Move p q →
      L.Exchange (hs.map (Mark.mk (.waiting p))) (hs.map (Mark.mk (.waiting q))) M →
      Step C L { L with marks := M }
  | resume {c h M} : C L (.resume c h) → (∀ m ∈ L.marks, m.stage.worker ≠ some c) →
      L.Exchange {⟨.waiting (.task c), h⟩} {⟨.running c, h⟩} M →
      Step C L { L with marks := M, frames := Function.update L.frames h ⟨.running, some c⟩ }
  | suspend {c h p M} : Suspends c p → (p = .parked → C L (.park h)) →
      L.Exchange {⟨.running c, h⟩} {⟨.resumed c, h⟩, ⟨.waiting p, h⟩} M →
      Step C L { L with marks := M, frames := L.setStatus h .suspended }
  | finish {c h M} : L.Exchange {⟨.running c, h⟩} {⟨.resumed c, h⟩} M →
      Step C L { L with marks := M, frames := L.setStatus h .final }
  | notDone {c h M} : (L.frames h).status ≠ .final → L.Exchange {⟨.resumed c, h⟩} 0 M →
      Step C L { L with marks := M }
  | done {c h M} : (L.frames h).status = .final ∨ (L.frames h).status = .destroyed →
      L.Exchange {⟨.resumed c, h⟩} {⟨.destroying c, h⟩} M → Step C L { L with marks := M }
  | destroy {c h M} : L.Exchange {⟨.destroying c, h⟩} {⟨.completing c, h⟩} M →
      Step C L { L with
        marks := M, frames := L.setStatus h .destroyed, destroyed := L.destroyed ++ [h] }
  | complete {c h M} : L.Exchange {⟨.completing c, h⟩} 0 M →
      Step C L { L with
        marks := M, pending := fetchSub L.pending 1, completed := L.completed ++ [h]
        outstanding := L.outstanding - 1 }

/-! ### Counting -/

/-- The number of marks of one kind on one coroutine. -/
def tally (M : Multiset Mark) (k : Kind) (h : Handle) : Nat :=
  M.countP fun m => m.stage.kind = k ∧ m.handle = h

@[simp] theorem tally_zero (k : Kind) (h : Handle) : tally 0 k h = 0 := rfl

@[simp] theorem tally_add (M N : Multiset Mark) (k : Kind) (h : Handle) :
    tally (M + N) k h = tally M k h + tally N k h := Multiset.countP_add ..

@[simp] theorem tally_singleton (m : Mark) (k : Kind) (h : Handle) :
    tally {m} k h = if m.stage.kind = k ∧ m.handle = h then 1 else 0 := by
  rw [tally, ← Multiset.cons_zero, Multiset.countP_cons, Multiset.countP_zero, Nat.zero_add]

@[simp] theorem tally_cons (m : Mark) (M : Multiset Mark) (k : Kind) (h : Handle) :
    tally (m ::ₘ M) k h = tally M k h + if m.stage.kind = k ∧ m.handle = h then 1 else 0 :=
  Multiset.countP_cons ..

theorem tally_waiting (p : Place) (hs : Multiset Handle) (k : Kind) (h : Handle) :
    tally (hs.map (Mark.mk (.waiting p))) k h = if k = .waiting then hs.count h else 0 := by
  rw [tally, Multiset.countP_map, Multiset.count, Multiset.countP_eq_card_filter]
  split
  · rename_i hk
    subst hk
    simp [Stage.kind, eq_comm]
  · rename_i hk
    rw [Multiset.card_eq_zero, Multiset.filter_eq_nil]
    exact fun g _ hg => hk hg.1.symm

theorem tally_pos {M : Multiset Mark} {m : Mark} (hm : m ∈ M) :
    0 < tally M m.stage.kind m.handle :=
  Multiset.countP_pos.mpr ⟨m, hm, rfl, rfl⟩

theorem exists_mem_of_tally_pos {M : Multiset Mark} {k : Kind} {h : Handle}
    (hpos : 0 < tally M k h) : ∃ m ∈ M, m.stage.kind = k ∧ m.handle = h :=
  Multiset.countP_pos.mp hpos

variable {C : Ledger → Delicate → Prop} {L L' : Ledger} {out new M : Multiset Mark}

theorem Exchange.tally (h : L.Exchange out new M) (k : Kind) (g : Handle) :
    tally M k g + Ledger.tally out k g = Ledger.tally L.marks k g + Ledger.tally new k g := by
  rw [← tally_add, ← tally_add, h]

/-! ### Every coroutine is accounted for -/

/-- What the ledger says about one coroutine. -/
structure Entry where
  submitting : Nat
  waiting : Nat
  running : Nat
  resumed : Nat
  destroying : Nat
  completing : Nat
  accepted : Nat
  completed : Nat
  destroyed : Nat

def entry (L : Ledger) (h : Handle) : Entry where
  submitting := tally L.marks .submitting h
  waiting := tally L.marks .waiting h
  running := tally L.marks .running h
  resumed := tally L.marks .resumed h
  destroying := tally L.marks .destroying h
  completing := tally L.marks .completing h
  accepted := L.accepted.count h
  completed := L.completed.count h
  destroyed := L.destroyed.count h

/-- The entries that fit the status of the frame. -/
def Entry.Ok (e : Entry) : FrameStatus → Prop
  | .none => e = ⟨0, 0, 0, 0, 0, 0, 0, 0, 0⟩
  | .suspended => e.submitting + e.accepted = 1 ∧ e.waiting = e.accepted ∧ e.running = 0 ∧
      e.resumed ≤ e.accepted ∧ e.destroying = 0 ∧ e.completing = 0 ∧ e.completed = 0 ∧
      e.destroyed = 0
  | .running => e = ⟨0, 0, 1, 0, 0, 0, 1, 0, 0⟩
  | .final => e.submitting = 0 ∧ e.accepted = 1 ∧ e.waiting = 0 ∧ e.running = 0 ∧
      e.resumed + e.destroying = 1 ∧ e.completing = 0 ∧ e.completed = 0 ∧ e.destroyed = 0
  | .destroyed => e.submitting = 0 ∧ e.accepted ≤ 1 ∧ e.waiting = 0 ∧ e.running = 0 ∧
      e.resumed = 0 ∧ e.destroying = 0 ∧ e.completing + e.completed = e.accepted ∧
      e.destroyed = 1

def Balanced (L : Ledger) : Prop := ∀ h, (L.entry h).Ok (L.frames h).status

/-- No worker is between its resumption of the coroutine and its `done()`. -/
def NoLag (L : Ledger) : Delicate → Prop
  | .resume _ h => tally L.marks .resumed h = 0
  | .park _ => True

/-! ### What a mark says about its frame -/

theorem Balanced.status_of_mark (hb : L.Balanced) {m : Mark} (hm : m ∈ L.marks) :
    match m.stage.kind with
    | .submitting => (L.frames m.handle).status = .suspended
    | .waiting => (L.frames m.handle).status = .suspended
    | .running => (L.frames m.handle).status = .running
    | .resumed => (L.frames m.handle).status = .suspended ∨ (L.frames m.handle).status = .final
    | .destroying => (L.frames m.handle).status = .final
    | .completing => (L.frames m.handle).status = .destroyed := by
  have hpos := tally_pos hm
  have hold := hb m.handle
  cases hst : (L.frames m.handle).status <;> simp [hst, Entry.Ok, entry] at hold <;>
    split <;> simp_all

theorem Exchange.mem_new (hex : L.Exchange out new M) {m : Mark} (hm : m ∈ M) :
    m ∈ L.marks ∨ m ∈ new := by
  rw [← Multiset.mem_add, ← hex]
  exact Multiset.mem_add.mpr (.inl hm)

theorem Exchange.mem_out (hex : L.Exchange out new M) {m : Mark} (hm : m ∈ out) (hn : m ∉ new) :
    m ∈ L.marks := by
  have : m ∈ L.marks + new := hex ▸ Multiset.mem_add.mpr (.inr hm)
  exact (Multiset.mem_add.mp this).resolve_right hn

theorem Exchange.mem_kept (hex : L.Exchange out new M) {m : Mark} (hm : m ∈ L.marks)
    (hout : m ∉ out) : m ∈ M := by
  have : m ∈ M + out := hex ▸ Multiset.mem_add.mpr (.inl hm)
  exact (Multiset.mem_add.mp this).resolve_right hout

theorem Exchange.mem_of_new (hex : L.Exchange out new M) {m : Mark} (hm : m ∈ new)
    (hout : m ∉ out) : m ∈ M := by
  have : m ∈ M + out := hex ▸ Multiset.mem_add.mpr (.inr hm)
  exact (Multiset.mem_add.mp this).resolve_right hout

/-! ### Every step keeps the account -/

/-- A step on `h` does not touch the entries of other coroutines. -/
theorem entry_of_ne {g h : Handle} (hg : g ≠ h) (hex : L.Exchange out new L'.marks)
    (hon : ∀ m ∈ out + new, m.handle = h) (ha : L'.accepted.count g = L.accepted.count g)
    (hc : L'.completed.count g = L.completed.count g)
    (hd : L'.destroyed.count g = L.destroyed.count g) : L'.entry g = L.entry g := by
  have hzero : ∀ {N : Multiset Mark}, (∀ m ∈ N, m.handle = h) → ∀ k, tally N k g = 0 := by
    intro N hN k
    refine Multiset.countP_eq_zero.mpr fun m hm hmk => hg ?_
    rw [← hmk.2, hN m hm]
  have hsame : ∀ k, tally L'.marks k g = tally L.marks k g := by
    intro k
    have hout := hzero (fun m hm => hon m (Multiset.mem_add.mpr (.inl hm))) k
    have hnew := hzero (fun m hm => hon m (Multiset.mem_add.mpr (.inr hm))) k
    have := hex.tally k g
    omega
  simp only [entry, hsame, ha, hc, hd]

/-- A step on `h` keeps the ledger balanced when it fits the new status of `h`. -/
theorem Balanced.of_entry (hb : L.Balanced) {h : Handle} (hex : L.Exchange out new L'.marks)
    (hon : ∀ m ∈ out + new, m.handle = h) (hframes : ∀ g ≠ h, L'.frames g = L.frames g)
    (ha : ∀ g ≠ h, L'.accepted.count g = L.accepted.count g)
    (hc : ∀ g ≠ h, L'.completed.count g = L.completed.count g)
    (hd : ∀ g ≠ h, L'.destroyed.count g = L.destroyed.count g)
    (hh : (L'.entry h).Ok (L'.frames h).status) : L'.Balanced := by
  intro g
  by_cases hg : g = h
  · exact hg ▸ hh
  · rw [entry_of_ne hg hex hon (ha g hg) (hc g hg) (hd g hg), hframes g hg]
    exact hb g

theorem setStatus_of_ne {g h : Handle} (status : FrameStatus) (hg : g ≠ h) :
    L.setStatus h status g = L.frames g := Function.update_of_ne hg ..

theorem count_append_of_ne {g h : Handle} (l : List Handle) (hg : g ≠ h) :
    (l ++ [h]).count g = l.count g := by
  simp [List.count_append, hg.symm]

/-- What is known about the counts of one coroutine before and after an exchange. -/
theorem Balanced.counts (hb : L.Balanced) (hex : L.Exchange out new M) {h : Handle}
    {status : FrameStatus} (hst : (L.frames h).status = status) :
    (L.entry h).Ok status ∧
      let diff k := Ledger.tally M k h + Ledger.tally out k h =
        Ledger.tally L.marks k h + Ledger.tally new k h
      diff .submitting ∧ diff .waiting ∧ diff .running ∧ diff .resumed ∧ diff .destroying ∧
        diff .completing := by
  refine ⟨hst ▸ hb h, ?_, ?_, ?_, ?_, ?_, ?_⟩
  all_goals exact hex.tally _ h

theorem Balanced.step (hb : L.Balanced) (h : Step NoLag L L') : L'.Balanced := by
  cases h with
  | idle => exact hb
  | @create h M hfresh hroom hex =>
    refine hb.of_entry hex (by simp) (fun g hg => setStatus_of_ne _ hg) (fun _ _ => rfl)
      (fun _ _ => rfl) (fun _ _ => rfl) ?_
    obtain ⟨hold, hk⟩ := hb.counts hex hfresh
    simp [Entry.Ok, entry, Stage.kind] at hold hk
    simp [setStatus, Entry.Ok, entry]
    omega
  | @reject h M hex =>
    have hst : (L.frames h).status = .suspended :=
      hb.status_of_mark (hex.mem_out (Multiset.mem_singleton_self _) (by simp))
    refine hb.of_entry hex (by simp) (fun g hg => setStatus_of_ne _ hg) (fun _ _ => rfl)
      (fun _ _ => rfl) (fun g hg => count_append_of_ne _ hg) ?_
    obtain ⟨hold, hk⟩ := hb.counts hex hst
    simp [Entry.Ok, entry, Stage.kind] at hold hk
    simp [setStatus, Entry.Ok, entry]
    omega
  | @accept h c M hex =>
    have hst : (L.frames h).status = .suspended :=
      hb.status_of_mark (hex.mem_out (Multiset.mem_singleton_self _) (by simp))
    refine hb.of_entry hex (by simp) (fun _ _ => rfl) (fun g hg => count_append_of_ne _ hg)
      (fun _ _ => rfl) (fun _ _ => rfl) ?_
    obtain ⟨hold, hk⟩ := hb.counts hex hst
    simp [Entry.Ok, entry, Stage.kind] at hold hk
    simp [hst, Entry.Ok, entry]
    omega
  | @spawn h c M hfresh hroom hex =>
    refine hb.of_entry hex (by simp) (fun g hg => setStatus_of_ne _ hg)
      (fun g hg => count_append_of_ne _ hg) (fun _ _ => rfl) (fun _ _ => rfl) ?_
    obtain ⟨hold, hk⟩ := hb.counts hex hfresh
    simp [Entry.Ok, entry, Stage.kind] at hold hk
    simp [setStatus, Entry.Ok, entry]
    omega
  | @move p q M hs hmove hex =>
    intro g
    have hsame : ∀ k, tally M k g = tally L.marks k g := by
      intro k
      have := hex.tally k g
      rw [tally_waiting, tally_waiting] at this
      omega
    simpa only [entry, hsame] using hb g
  | @resume c h M hlag hfree hex =>
    have hst : (L.frames h).status = .suspended :=
      hb.status_of_mark (hex.mem_out (Multiset.mem_singleton_self _) (by simp))
    refine hb.of_entry hex (by simp) (fun g hg => Function.update_of_ne hg ..) (fun _ _ => rfl)
      (fun _ _ => rfl) (fun _ _ => rfl) ?_
    obtain ⟨hold, hk⟩ := hb.counts hex hst
    simp only [NoLag] at hlag
    simp [Entry.Ok, entry, Stage.kind] at hold hk
    simp [Entry.Ok, entry]
    omega
  | @suspend c h p M hp hpark hex =>
    have hst : (L.frames h).status = .running :=
      hb.status_of_mark (hex.mem_out (Multiset.mem_singleton_self _) (by simp))
    refine hb.of_entry hex (by simp) (fun g hg => setStatus_of_ne _ hg) (fun _ _ => rfl)
      (fun _ _ => rfl) (fun _ _ => rfl) ?_
    obtain ⟨hold, hk⟩ := hb.counts hex hst
    simp [Entry.Ok, entry, Stage.kind] at hold hk
    simp [setStatus, Entry.Ok, entry]
    omega
  | @finish c h M hex =>
    have hst : (L.frames h).status = .running :=
      hb.status_of_mark (hex.mem_out (Multiset.mem_singleton_self _) (by simp))
    refine hb.of_entry hex (by simp) (fun g hg => setStatus_of_ne _ hg) (fun _ _ => rfl)
      (fun _ _ => rfl) (fun _ _ => rfl) ?_
    obtain ⟨hold, hk⟩ := hb.counts hex hst
    simp [Entry.Ok, entry, Stage.kind] at hold hk
    simp [setStatus, Entry.Ok, entry]
    omega
  | @notDone c h M hnot hex =>
    have hst : (L.frames h).status = .suspended :=
      (hb.status_of_mark (hex.mem_out (Multiset.mem_singleton_self _) (by simp))).resolve_right
        hnot
    refine hb.of_entry (h := h) hex (by simp) (fun _ _ => rfl) (fun _ _ => rfl)
      (fun _ _ => rfl) (fun _ _ => rfl) ?_
    obtain ⟨hold, hk⟩ := hb.counts hex hst
    simp [Entry.Ok, entry, Stage.kind] at hold hk
    simp [hst, Entry.Ok, entry]
    omega
  | @done c h M hdone hex =>
    have hmark : (L.frames h).status = .suspended ∨ (L.frames h).status = .final :=
      hb.status_of_mark (hex.mem_out (Multiset.mem_singleton_self _) (by simp))
    have hst : (L.frames h).status = .final := by
      rcases hmark with hsuspended | hfinal
      · simp [hsuspended] at hdone
      · exact hfinal
    refine hb.of_entry (h := h) hex (by simp) (fun _ _ => rfl) (fun _ _ => rfl)
      (fun _ _ => rfl) (fun _ _ => rfl) ?_
    obtain ⟨hold, hk⟩ := hb.counts hex hst
    simp [Entry.Ok, entry, Stage.kind] at hold hk
    simp [hst, Entry.Ok, entry]
    omega
  | @destroy c h M hex =>
    have hst : (L.frames h).status = .final :=
      hb.status_of_mark (hex.mem_out (Multiset.mem_singleton_self _) (by simp))
    refine hb.of_entry hex (by simp) (fun g hg => setStatus_of_ne _ hg) (fun _ _ => rfl)
      (fun _ _ => rfl) (fun g hg => count_append_of_ne _ hg) ?_
    obtain ⟨hold, hk⟩ := hb.counts hex hst
    simp [Entry.Ok, entry, Stage.kind] at hold hk
    simp [setStatus, Entry.Ok, entry]
    omega
  | @complete c h M hex =>
    have hst : (L.frames h).status = .destroyed :=
      hb.status_of_mark (hex.mem_out (Multiset.mem_singleton_self _) (by simp))
    refine hb.of_entry hex (by simp) (fun _ _ => rfl) (fun _ _ => rfl)
      (fun g hg => count_append_of_ne _ hg) (fun _ _ => rfl) ?_
    obtain ⟨hold, hk⟩ := hb.counts hex hst
    simp [Entry.Ok, entry, Stage.kind] at hold hk
    simp [hst, Entry.Ok, entry]
    omega

/-! ### Who resumed a coroutine -/

/-- The worker that is busy with a coroutine is the one that resumed it last. -/
def Owned (L : Ledger) : Prop :=
  ∀ m ∈ L.marks, ∀ c, m.stage.worker = some c → (L.frames m.handle).resumedBy = some c

theorem resumedBy_setStatus (L : Ledger) (g h : Handle) (status : FrameStatus) :
    (L.setStatus h status g).resumedBy = (L.frames g).resumedBy := by
  by_cases hg : g = h
  · subst hg
    simp [setStatus]
  · rw [setStatus_of_ne _ hg]

/-- A step whose new marks belong to no worker. -/
theorem Owned.of_exchange (ho : L.Owned) (hex : L.Exchange out new L'.marks)
    (hframes : ∀ g, (L'.frames g).resumedBy = (L.frames g).resumedBy)
    (hnew : ∀ m ∈ new, m.stage.worker = none) : L'.Owned := by
  intro m hm c hc
  rw [hframes]
  rcases hex.mem_new hm with hm | hm
  · exact ho m hm c hc
  · simp [hnew m hm] at hc

/-- A step whose new marks belong to the worker of the mark they replace. -/
theorem Owned.replace (ho : L.Owned) {c : Nat} {h : Handle} {st : Stage}
    (hst : st.worker = some c) (hex : L.Exchange {⟨st, h⟩} new L'.marks) (hn : ⟨st, h⟩ ∉ new)
    (hframes : ∀ g, (L'.frames g).resumedBy = (L.frames g).resumedBy)
    (hnew : ∀ m ∈ new, m.handle = h ∧ (m.stage.worker = none ∨ m.stage.worker = some c)) :
    L'.Owned := by
  intro m hm d hd
  rw [hframes]
  rcases hex.mem_new hm with hm | hm
  · exact ho m hm d hd
  · obtain ⟨hh, hw⟩ := hnew m hm
    have hcd : d = c := by
      rcases hw with hw | hw <;> simp_all
    rw [hh, hcd]
    exact ho ⟨st, h⟩ (hex.mem_out (by simp) hn) c hst

theorem Owned.step (ho : L.Owned) (hb : L.Balanced) (h : Step NoLag L L') : L'.Owned := by
  cases h with
  | idle => exact ho
  | create _ _ hex | spawn _ _ hex =>
    exact ho.of_exchange hex (fun g => resumedBy_setStatus ..) (by simp [Stage.worker])
  | reject hex => exact ho.of_exchange hex (fun g => resumedBy_setStatus ..) (by simp)
  | accept hex => exact ho.of_exchange hex (fun _ => rfl) (by simp [Stage.worker])
  | move hs hmove hex => exact ho.of_exchange hex (fun _ => rfl) (by simp [Stage.worker])
  | @resume c h M hlag hfree hex =>
    intro m hm d hd
    by_cases hh : m.handle = h
    · rcases hex.mem_new hm with hm | hm
      · have hwaiting : (⟨.waiting (.task c), h⟩ : Mark) ∈ L.marks :=
          hex.mem_out (by simp) (by simp)
        have hst := hb.status_of_mark hwaiting
        have hst' := hb.status_of_mark hm
        have hpos := tally_pos hm
        rw [hh] at hst' hpos
        cases hstage : m.stage <;> simp_all [Stage.kind, Stage.worker, NoLag]
      · obtain rfl := Multiset.mem_singleton.mp hm
        simp_all [Stage.worker]
    · simp only [Function.update_of_ne hh]
      rcases hex.mem_new hm with hm | hm
      · exact ho m hm d hd
      · exact absurd (by rw [Multiset.mem_singleton.mp hm]) hh
  | suspend _ _ hex =>
    exact ho.replace rfl hex (by simp) (fun g => resumedBy_setStatus ..) (by simp [Stage.worker])
  | finish hex | destroy hex =>
    exact ho.replace rfl hex (by simp) (fun g => resumedBy_setStatus ..) (by simp [Stage.worker])
  | done _ hex => exact ho.replace rfl hex (by simp) (fun _ => rfl) (by simp [Stage.worker])
  | notDone _ hex => exact ho.of_exchange hex (fun _ => rfl) (by simp)
  | complete hex => exact ho.of_exchange hex (fun _ => rfl) (by simp)

/-- Completions never outrun acceptances. -/
theorem Balanced.completed_le (hb : L.Balanced) (h : Handle) :
    L.completed.count h + tally L.marks .completing h ≤ L.accepted.count h := by
  have hold := hb h
  cases hst : (L.frames h).status <;> simp [hst, Entry.Ok, entry] at hold <;> omega

theorem Balanced.nodup_accepted (hb : L.Balanced) : L.accepted.Nodup := by
  refine List.nodup_iff_count_le_one.mpr fun h => ?_
  have hok := hb h
  change (L.entry h).accepted ≤ 1
  cases hst : (L.frames h).status <;> simp only [hst, Entry.Ok] at hok <;>
    first | omega | simp [hok]

theorem Balanced.nodup_completed (hb : L.Balanced) : L.completed.Nodup := by
  refine List.nodup_iff_count_le_one.mpr fun h => ?_
  have hle := hb.completed_le h
  have hone := List.nodup_iff_count_le_one.mp hb.nodup_accepted h
  omega

/-- A task is counted off only when it is destroyed. -/
theorem Balanced.status_of_completed (hb : L.Balanced) {h : Handle} (hh : h ∈ L.completed) :
    h ∈ L.accepted ∧ (L.frames h).status = .destroyed := by
  have hpos := List.count_pos_iff.mpr hh
  have hle := hb.completed_le h
  have hok := hb h
  refine ⟨List.count_pos_iff.mp (by omega), ?_⟩
  cases hst : (L.frames h).status <;> simp [hst, Entry.Ok, entry] at hok <;> first | rfl | omega

theorem Balanced.completed_length_le (hb : L.Balanced) :
    L.completed.length ≤ L.accepted.length := by
  refine List.Subperm.length_le (List.subperm_ext_iff.mpr fun g _ => ?_)
  have := hb.completed_le g
  omega

/-- A task that is about to be counted off is not among the completed ones. -/
theorem Balanced.completed_length_lt (hb : L.Balanced) {c : Nat} {h : Handle}
    (hm : ⟨.completing c, h⟩ ∈ L.marks) : L.completed.length < L.accepted.length := by
  have hpos := tally_pos hm
  have hsub : (L.completed ++ [h]).Subperm L.accepted := by
    refine List.subperm_ext_iff.mpr fun g _ => ?_
    have hle := hb.completed_le g
    by_cases hg : g = h
    · subst hg
      simp only [Stage.kind] at hpos
      simp only [List.count_append, List.count_singleton_self]
      omega
    · rw [count_append_of_ne _ hg]
      omega
  have hlen := hsub.length_le
  rw [List.length_append, List.length_singleton] at hlen
  exact hlen

end Ledger

end TinyCoroutine.Runtime
