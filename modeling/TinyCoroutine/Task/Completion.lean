import TinyCoroutine.Task.Memory
import TinyCoroutine.Foundation.Sums

/-!
# Completion of tasks that await tasks

`process_work_once` decides by the handle it popped whether a task is complete. As long as
the frame behind that handle ends only as a root, and nobody destroys a `Task` whose coroutine
is midway (`Nests`), the worker destroys and counts exactly the roots that have finished, and
asks `done()` of frames that are there.
When an inner coroutine that was suspended by itself is popped and ends, its caller goes on
inside the same `resume()`, and the worker asks `done()` of a frame that may be gone
(`inner_coroutine_hides_root`).
-/
namespace TinyCoroutine.Task

open Foundation

variable {v w : View} {s t : State} {a : Action}

structure Counted (v : View) : Prop where
  final : ∀ h, (v.frames h).status = .final → (v.frames h).finished = true
  completed_nodup : v.completed.Nodup
  completed : ∀ h ∈ v.completed, h ∈ v.accepted ∧ (v.frames h).finished = true
  destroyed_nodup : v.destroyed.Nodup
  destroyed : ∀ h ∈ v.destroyed, h ∈ v.accepted ∧ (v.frames h).finished = true
  completes : ∀ h ∈ v.accepted, (v.frames h).finished = true → h ∈ v.completed ∨
    v.worker = .resumed h ∨ v.worker = .destroy h ∨ v.worker = .completed h
  destroys : ∀ h ∈ v.accepted, (v.frames h).finished = true → h ∈ v.destroyed ∨
    v.worker = .resumed h ∨ v.worker = .destroy h
  resumed : ∀ h, v.worker = .resumed h → (v.frames h).finished = true →
    h ∉ v.completed ∧ h ∉ v.destroyed
  destroy : ∀ h, v.worker = .destroy h → h ∉ v.completed ∧ h ∉ v.destroyed
  complete : ∀ h, v.worker = .completed h →
    h ∈ v.accepted ∧ (v.frames h).finished = true ∧ h ∉ v.completed
  pending : v.pending + v.completed.length = v.accepted.length

theorem Counted.init : Counted init.view := by
  constructor <;> simp [State.view, Task.init]

/-- The roots that are not counted off exist, or the worker has just destroyed them: there is
room for them in the counter, and for a frame that has not been submitted yet. -/
theorem Counted.pending_lt (C : Counted v) (I : FramesInv v) (H : Housed v) {g : Handle}
    (hg : (v.frames g).status.live = true) (hnew : g ∉ v.accepted) : v.pending + 1 < 2 ^ 64 := by
  have hlt : ∀ h, (v.frames h).status.live = true → h < v.next := by
    intro h hlive
    refine I.lt_next fun hnone => ?_
    simp [hnone, Status.live] at hlive
  obtain ⟨last, hlast⟩ : ∃ last, ∀ h, v.worker = .completed h → h = last := by
    cases hw : v.worker <;> simp
  have hlive : ∀ h ∈ v.accepted, h ∉ v.completed → h ≠ last → (v.frames h).status.live = true := by
    intro h hh hout hne
    by_contra hgone
    have hdead : (v.frames h).status = .destroyed := by
      have hst := (I.accepted h hh).2
      cases hs : (v.frames h).status <;> simp_all [Status.live]
    obtain hmem | hw | hw | hw :=
      C.completes h hh (C.destroyed h (H.dead h hh hdead)).2
    · exact hout hmem
    · obtain hmid | ⟨hfinal, -⟩ := I.resumed h hw
      · simp [hdead, Status.midway] at hmid
      · simp [hdead] at hfinal
    · have hfinal := (I.destroy h hw).1
      simp [hdead] at hfinal
    · exact hne (hlast h hw)
  have hsub : (g :: v.accepted.filter fun h => h ∉ v.completed).Subperm
      (last :: (List.range v.next).filter fun h => (v.frames h).status.live) := by
    refine List.subperm_of_subset (List.nodup_cons.mpr ⟨?_, I.accepted_nodup.filter _⟩ ) ?_
    · exact fun hmem => hnew (List.mem_filter.mp hmem).1
    · refine List.cons_subset.mpr ⟨?_, fun h hh => ?_⟩
      · exact List.mem_cons_of_mem _ (List.mem_filter.mpr ⟨List.mem_range.mpr (hlt g hg), hg⟩)
      · obtain ⟨hmem, hout⟩ := List.mem_filter.mp hh
        by_cases hne : h = last
        · exact hne ▸ List.mem_cons_self
        · have hh := hlive h hmem (by simpa using hout) hne
          exact List.mem_cons_of_mem _ (List.mem_filter.mpr ⟨List.mem_range.mpr (hlt h hh), hh⟩)
  have hlen := hsub.length_le
  have hpending := C.pending
  have hcount := countP_notMem_add_length (l := v.accepted) I.accepted_nodup C.completed_nodup
    fun h hh => (C.completed h hh).1
  have hroom := H.room
  simp only [List.length_cons, ← List.countP_eq_length_filter] at hlen
  unfold liveFrames at hroom
  omega

/-- The worker has finished its last iteration, or is executing coroutines. -/
def WorkerPc.settled : WorkerPc → Bool
  | .idle => true
  | .forLoop => true
  | .running _ _ => true
  | _ => false

theorem WorkerPc.settled_of_between {pc : WorkerPc} (h : pc.between = true) :
    pc.settled = true := by
  cases pc <;> first | rfl | cases h

/-- A step in which no root ends. -/
theorem Counted.frame (C : Counted v) (hcompleted : w.completed = v.completed)
    (hdestroyed : w.destroyed = v.destroyed)
    (hfinal : ∀ h, (w.frames h).status = .final → (w.frames h).finished = true)
    (hroots : ∀ h ∈ v.accepted, h ∈ w.accepted ∧ (w.frames h).finished = (v.frames h).finished)
    (hnew : ∀ h ∈ w.accepted, h ∉ v.accepted → (w.frames h).finished = false)
    (hworker : w.worker = v.worker ∨ v.worker.settled = true ∧ w.worker.settled = true)
    (hpending : w.pending + w.completed.length = w.accepted.length) : Counted w := by
  obtain ⟨hfin, hcn, hc, hdn, hd, hcs, hds, hr, hdes, hcom, hp⟩ := C
  constructor
  case pending => exact hpending
  all_goals grind [WorkerPc.settled]

/-! ### The rules in which a root ends or is accounted for -/

section Worker

variable {h p i : Handle}

theorem Counted.suspend (C : Counted v) (hw : v.worker = .running p i)
    (hp : (v.frames p).finished = false) (places : Multiset Handle) :
    Counted { v.setStatus i .suspended with places, worker := .resumed p } := by
  have hfinished : ∀ g,
      ((v.setStatus i .suspended).frames g).finished = (v.frames g).finished := by
    intro g
    simp only [View.setStatus, View.setFrame, Function.update_apply]
    split
    · subst g
      rfl
    · rfl
  constructor
  case final =>
    intro g hg
    simp only [hfinished]
    simp only [View.setStatus, View.setFrame, Function.update_apply] at hg
    split at hg
    · cases hg
    · exact C.final g hg
  case completed_nodup => exact C.completed_nodup
  case completed =>
    simp only [hfinished]
    exact C.completed
  case destroyed_nodup => exact C.destroyed_nodup
  case destroyed =>
    simp only [hfinished]
    exact C.destroyed
  case completes =>
    intro g hg hf
    have hmem := C.completes g hg (hfinished g ▸ hf)
    simp only [hw, reduceCtorEq, or_false] at hmem
    exact .inl hmem
  case destroys =>
    intro g hg hf
    have hmem := C.destroys g hg (hfinished g ▸ hf)
    simp only [hw, reduceCtorEq, or_false] at hmem
    exact .inl hmem
  case resumed =>
    rintro g ⟨⟩ hf
    simp [hfinished, hp] at hf
  case destroy => rintro g ⟨⟩
  case complete => rintro g ⟨⟩
  case pending => exact C.pending

theorem Counted.finish (C : Counted v) (hw : v.worker = .running h h)
    (hunfinished : (v.frames h).finished = false) :
    Counted { v.setFrame h { v.frames h with status := .final, finished := true } with
      worker := .resumed h } := by
  have hself : ((v.setFrame h { v.frames h with status := .final, finished := true }).frames
      h).finished = true := by
    simp [View.setFrame]
  have hother : ∀ g ≠ h,
      (v.setFrame h { v.frames h with status := .final, finished := true }).frames g =
        v.frames g := fun g hg => Function.update_of_ne hg _ _
  have hcompleted : h ∉ v.completed := fun hmem => by simp [(C.completed h hmem).2] at hunfinished
  have hdestroyed : h ∉ v.destroyed := fun hmem => by simp [(C.destroyed h hmem).2] at hunfinished
  constructor
  case final =>
    intro g hg
    obtain rfl | hne := eq_or_ne g h
    · exact hself
    · rw [hother g hne] at hg ⊢
      exact C.final g hg
  case completed_nodup => exact C.completed_nodup
  case completed =>
    intro g hg
    rw [hother g fun hgh => hcompleted (hgh ▸ hg)]
    exact C.completed g hg
  case destroyed_nodup => exact C.destroyed_nodup
  case destroyed =>
    intro g hg
    rw [hother g fun hgh => hdestroyed (hgh ▸ hg)]
    exact C.destroyed g hg
  case completes =>
    intro g hg hf
    obtain rfl | hne := eq_or_ne g h
    · exact .inr (.inl rfl)
    · rw [hother g hne] at hf
      have hmem := C.completes g hg hf
      simp only [hw, reduceCtorEq, or_false] at hmem
      exact .inl hmem
  case destroys =>
    intro g hg hf
    obtain rfl | hne := eq_or_ne g h
    · exact .inr (.inl rfl)
    · rw [hother g hne] at hf
      have hmem := C.destroys g hg hf
      simp only [hw, reduceCtorEq, or_false] at hmem
      exact .inl hmem
  case resumed =>
    rintro g ⟨⟩ -
    exact ⟨hcompleted, hdestroyed⟩
  case destroy => rintro g ⟨⟩
  case complete => rintro g ⟨⟩
  case pending => exact C.pending

theorem Counted.done (C : Counted v) (hw : v.worker = .resumed h)
    (hfinal : (v.frames h).status = .final) : Counted { v with worker := .destroy h } := by
  refine { C with
    completes := ?completes, destroys := ?destroys
    resumed := ?resumed, destroy := ?destroy, complete := ?complete }
  case completes => simpa [hw] using C.completes
  case destroys => simpa [hw] using C.destroys
  case resumed => rintro g ⟨⟩
  case destroy =>
    rintro g ⟨⟩
    exact C.resumed h hw (C.final h hfinal)
  case complete => rintro g ⟨⟩

theorem Counted.not_done (C : Counted v) (hw : v.worker = .resumed h)
    (hunfinished : (v.frames h).finished = false) : Counted { v with worker := .forLoop } := by
  refine { C with
    completes := ?completes, destroys := ?destroys
    resumed := ?resumed, destroy := ?destroy, complete := ?complete }
  case completes =>
    intro g hg hf
    have hne : h ≠ g := by
      rintro rfl
      simp [hunfinished] at hf
    simpa [hw, hne] using C.completes g hg hf
  case destroys =>
    intro g hg hf
    have hne : h ≠ g := by
      rintro rfl
      simp [hunfinished] at hf
    simpa [hw, hne] using C.destroys g hg hf
  all_goals rintro g ⟨⟩

theorem Counted.destroyFrame (C : Counted v) (hw : v.worker = .destroy h) (hmem : h ∈ v.accepted)
    (hfinal : (v.frames h).status = .final)
    (hframes : ∀ g, (v.destroyFrame h).frames g = v.frames g ∨
      (v.destroyFrame h).frames g = { v.frames g with status := .destroyed }) :
    Counted { v.destroyFrame h with destroyed := v.destroyed ++ [h], worker := .completed h } := by
  have hfinished : ∀ g, ((v.destroyFrame h).frames g).finished = (v.frames g).finished := by
    intro g
    obtain hg | hg := hframes g <;> rw [hg]
  obtain ⟨hcompleted, hdestroyed⟩ := C.destroy h hw
  constructor
  case final =>
    intro g hg
    simp only [hfinished]
    obtain hsame | hdead := hframes g
    · rw [hsame] at hg
      exact C.final g hg
    · simp [hdead] at hg
  case completed_nodup => exact C.completed_nodup
  case completed =>
    simp only [hfinished]
    exact C.completed
  case destroyed_nodup =>
    refine List.nodup_append.mpr ⟨C.destroyed_nodup, List.nodup_singleton h, ?_⟩
    rintro g hg _ hh rfl
    exact hdestroyed (List.mem_singleton.mp hh ▸ hg)
  case destroyed =>
    simp only [hfinished, List.mem_append, List.mem_singleton]
    rintro g (hg | rfl)
    · exact C.destroyed g hg
    · exact ⟨hmem, C.final g hfinal⟩
  case completes =>
    intro g hg hf
    have hdue := C.completes g hg (hfinished g ▸ hf)
    simp only [hw, reduceCtorEq, false_or, or_false, WorkerPc.destroy.injEq] at hdue
    exact hdue.imp_right fun hg => .inr (.inr (congrArg _ hg))
  case destroys =>
    intro g hg hf
    have hdue := C.destroys g hg (hfinished g ▸ hf)
    simp only [hw, reduceCtorEq, false_or, WorkerPc.destroy.injEq] at hdue
    refine .inl (List.mem_append.mpr ?_)
    rwa [List.mem_singleton, eq_comm]
  case resumed => rintro g ⟨⟩
  case destroy => rintro g ⟨⟩
  case complete =>
    rintro g ⟨⟩
    exact ⟨hmem, (hfinished h).trans (C.final h hfinal), hcompleted⟩
  case pending => exact C.pending

theorem Counted.completeOne (C : Counted v) (hw : v.worker = .completed h) :
    Counted { v with
      pending := fetchSub v.pending 1, completed := v.completed ++ [h], worker := .forLoop } := by
  obtain ⟨hmem, hfinished, hnot⟩ := C.complete h hw
  have hnodup : (v.completed ++ [h]).Nodup := by
    refine List.nodup_append.mpr ⟨C.completed_nodup, List.nodup_singleton h, ?_⟩
    rintro g hg _ hh rfl
    exact hnot (List.mem_singleton.mp hh ▸ hg)
  have hcompleted : ∀ g ∈ v.completed ++ [h], g ∈ v.accepted ∧ (v.frames g).finished = true := by
    simp only [List.mem_append, List.mem_singleton]
    rintro g (hg | rfl)
    · exact C.completed g hg
    · exact ⟨hmem, hfinished⟩
  -- The counter has not wrapped: `h` is accepted and not yet counted.
  have hle : (v.completed ++ [h]).length ≤ v.accepted.length :=
    (List.subperm_of_subset hnodup fun g hg => (hcompleted g hg).1).length_le
  constructor
  case final => exact C.final
  case completed_nodup => exact hnodup
  case completed => exact hcompleted
  case destroyed_nodup => exact C.destroyed_nodup
  case destroyed => exact C.destroyed
  case completes =>
    intro g hg hf
    have hdue := C.completes g hg hf
    simp only [hw, reduceCtorEq, false_or, WorkerPc.completed.injEq] at hdue
    refine .inl (List.mem_append.mpr ?_)
    rwa [List.mem_singleton, eq_comm]
  case destroys =>
    intro g hg hf
    have hdue := C.destroys g hg hf
    simp only [hw, reduceCtorEq, or_false] at hdue
    exact .inl hdue
  case pending =>
    have hpending := C.pending
    simp only [List.length_append, List.length_singleton] at hle ⊢
    rw [fetchSub_of_le (by omega)]
    omega
  all_goals rintro g ⟨⟩

end Worker

theorem Counted.preserved (I : FramesInv v) (H : Housed v) (C : Counted v) (h : Rule v w) :
    Counted w := by
  have hmidway := I.midway
  have hinitial := I.initial
  have hfinal := C.final
  cases h with
  | idle => exact C
  | @loop u hv hu =>
    exact C.frame rfl rfl C.final (fun _ hh => ⟨hh, rfl⟩) (fun _ hh hh' => absurd hh hh')
      (.inr ⟨WorkerPc.settled_of_between hv, WorkerPc.settled_of_between hu⟩) C.pending
  | create hacts hroom =>
    have hnone := I.fresh v.next (Nat.le_refl _)
    have hacc := I.accepted
    refine C.frame rfl rfl ?_ ?_ (fun _ hh hh' => absurd hh hh') (.inl rfl) C.pending
    all_goals
      simp only [View.setFrame, Function.update_apply]
      grind
  | move hacts howner hlive hdest =>
    refine C.frame rfl rfl ?_ ?_ (fun _ hh hh' => absurd hh hh') (.inl rfl) C.pending
    all_goals
      simp only [View.setOwner, View.setFrame, Function.update_apply]
      grind
  | @drop who g hacts howner hlive hspares =>
    have hframes := I.frames_destroyFrame hspares
    refine C.frame rfl rfl ?_ (fun h hh => ⟨hh, ?_⟩) (fun _ hh hh' => absurd hh hh') (.inl rfl)
      C.pending
    · grind
    · grind
  | @accept who g hacts howner hg =>
    refine C.frame rfl rfl ?_ ?_ ?_ (.inl rfl) ?_
    case refine_4 =>
      have hnew : g ∉ v.accepted := by
        intro hmem
        have hdet := (I.accepted g hmem).1
        obtain rfl | ⟨p, i, -, rfl⟩ := hacts <;> simp [hdet] at howner
      have hlt := C.pending_lt I H (by rw [hg]; rfl) hnew
      have hp := C.pending
      simp only [List.length_append, List.length_singleton, View.setOwner, View.setFrame,
        fetchAdd_of_lt hlt]
      omega
    all_goals
      simp only [View.setOwner, View.setFrame, Function.update_apply, List.mem_append,
        List.mem_singleton]
      grind
  | @call p i g hw hg howner =>
    have hrun := (I.current p i hw).1
    refine C.frame rfl rfl ?_ (fun h hh => ⟨hh, ?_⟩) (fun _ hh hh' => absurd hh hh')
      (.inr ⟨by rw [hw]; rfl, rfl⟩) C.pending
    all_goals
      simp only [View.setStatus, View.setFrame, Function.update_apply]
      grind
  | @suspend p i hw =>
    obtain ⟨hrun, hcalls⟩ := I.current p i hw
    have hp := (I.midway p (I.calls_midway hcalls (by simp [hrun, Status.midway]))).1
    exact C.suspend hw hp _
  | @resume h places hw hpop =>
    refine C.frame rfl rfl ?_ (fun h hh => ⟨hh, ?_⟩) (fun _ hh hh' => absurd hh hh')
      (.inr ⟨by rw [hw]; rfl, rfl⟩) C.pending
    all_goals
      simp only [View.setStatus, View.setFrame, Function.update_apply]
      grind
  | @returnTo p i q hw hq hne =>
    have hrun := (I.current p i hw).1
    have hawait := I.caller_awaiting hw hq
    -- The coroutine that ends is awaited, so it is no root.
    have hinner : i ∉ v.accepted := by
      intro hmem
      cases (I.midway i (by simp [hrun, Status.midway])).2 with
      | root _ hnone => simp [hq] at hnone
      | inner _ _ hdet => exact hdet (I.accepted i hmem).1
    refine C.frame rfl rfl ?_ (fun h hh => ⟨hh, ?_⟩) (fun _ hh hh' => absurd hh hh')
      (.inr ⟨by rw [hw]; rfl, rfl⟩) C.pending
    all_goals
      simp only [View.setStatus, View.setFrame, Function.update_apply]
      grind
  | @finish p i hw hq =>
    obtain ⟨rfl, hrun, -⟩ := I.root_of_finish hw hq
    exact C.finish hw (I.midway i (by simp [hrun, Status.midway])).1
  | @checkDone h answer hw hdone =>
    have hres := I.checkDone hw hdone
    cases answer with
    | true => exact C.done hw hres.1
    | false => exact C.not_done hw (I.midway h hres).1
  | @destroy h hw hspares =>
    obtain ⟨hst, hmem⟩ := I.destroy h hw
    refine C.destroyFrame hw hmem hst fun g => ?_
    exact (I.frames_destroyFrame hspares g).imp_right And.left
  | @complete h hw => exact C.completeOne hw

structure TaskInv (s : State) : Prop where
  regular : Regular s
  frames : FramesInv s.view
  housed : Housed s.view
  counted : Counted s.view

theorem TaskInv.of_run (h : Run step Nests Task.init s) : TaskInv s := by
  refine h.invariant ⟨fun _ => rfl, .init, .init, .init⟩ ?_
  intro t a u I hc ht
  have hrule := step_rule I.regular hc ht
  exact ⟨I.regular.preserved ht, I.frames.preserved hrule, I.housed.preserved I.frames hrule,
    .preserved I.frames I.housed I.counted hrule⟩

/-- The root `h` was accepted and has reached its final suspend. -/
def State.RootFinished (s : State) (h : Handle) : Prop :=
  h ∈ s.accepted ∧ (s.frames h).finished = true

instance (h : Handle) : Decidable (s.RootFinished h) := inferInstanceAs (Decidable (_ ∧ _))

/-- The worker has counted and destroyed every root that has finished, each of them once,
and nothing else. -/
structure RootsAccounted (s : State) : Prop where
  completed : ∀ h, s.completed.count h = if s.RootFinished h then 1 else 0
  destroyed : ∀ h, s.destroyed.count h = if s.RootFinished h then 1 else 0
  pending : s.pending = s.accepted.countP fun h => !(s.frames h).finished

theorem TaskInv.rootsAccounted (I : TaskInv s) (hw : s.worker.between = true) :
    RootsAccounted s := by
  obtain ⟨-, F, -, C⟩ := I
  have hcn : s.completed.Nodup := C.completed_nodup
  have hdn : s.destroyed.Nodup := C.destroyed_nodup
  have hcompleted : ∀ h, h ∈ s.completed ↔ s.RootFinished h := by
    intro h
    refine ⟨C.completed h, fun hroot => ?_⟩
    obtain hmem | hdue := C.completes h hroot.1 hroot.2
    · exact hmem
    · simp only [State.view] at hdue
      obtain hdue | hdue | hdue := hdue <;> simp [hdue, WorkerPc.between] at hw
  have hdestroyed : ∀ h, h ∈ s.destroyed ↔ s.RootFinished h := by
    intro h
    refine ⟨C.destroyed h, fun hroot => ?_⟩
    obtain hmem | hdue := C.destroys h hroot.1 hroot.2
    · exact hmem
    · simp only [State.view] at hdue
      obtain hdue | hdue := hdue <;> simp [hdue, WorkerPc.between] at hw
  refine ⟨fun h => ?_, fun h => ?_, ?_⟩
  · rw [hcn.count]
    simp only [hcompleted]
  · rw [hdn.count]
    simp only [hdestroyed]
  · have hpending := C.pending
    have hcount := countP_notMem_add_length (l := s.accepted) F.accepted_nodup hcn
      fun h hh => (C.completed h hh).1
    have hsame : s.accepted.countP (fun h => h ∉ s.completed) =
        s.accepted.countP fun h => !(s.frames h).finished := by
      refine List.countP_congr fun h hh => ?_
      simp [hcompleted, State.RootFinished, hh]
    simp only [State.view] at hpending
    rw [hsame] at hcount
    omega

/-- After every iteration the count is that of the unfinished roots, and `done()` is asked of
no frame that has been destroyed. -/
theorem nested_tasks_accounted (h : Run step Nests init s) :
    (s.worker.between = true → RootsAccounted s) ∧
      ∀ p, s.worker = .resumed p → (s.frames p).status ≠ .destroyed := by
  have I := TaskInv.of_run h
  refine ⟨I.rootsAccounted, fun p hp hdead => ?_⟩
  obtain hmid | ⟨hfinal, -⟩ := I.frames.resumed p hp
  · simp [State.view, hdead, Status.midway] at hmid
  · simp [State.view, hdead] at hfinal

/-- A root awaits a coroutine that runs through, yields by itself and ends. -/
theorem nested_tasks_accounted_one :
    ∃ s, Run step Nests init s ∧ s.worker.between = true ∧ s.RootFinished 0 ∧
      (s.frames 1).finished = true ∧ RootsAccounted s := by
  obtain ⟨s, hs, hw, hroot, hinner⟩ := exists_run step Nests init
    [.client .create, .client (.submit 0), .push 0, .popBatch, .worker, .body (.code .create),
      .body (.await 1), .body .finish, .body (.code (.drop 1)), .body .yield, .checkDone false,
      .worker, .popBatch, .worker, .body .finish, .checkDone true, .worker, .worker]
    (fun s => s.worker.between = true ∧ s.RootFinished 0 ∧ (s.frames 1).finished = true)
    (by decide)
  exact ⟨s, hs, hw, hroot, hinner, (nested_tasks_accounted hs).1 hw⟩

/-- The awaited coroutine yields. When the worker pops its handle again, it ends, the root
goes on, drops it and ends too: `done()` is asked of a destroyed frame, and nothing asks it of
the root. -/
theorem inner_coroutine_hides_root :
    ¬ ∀ s, Run step SparesMidway init s → (s.worker.between = true → RootsAccounted s) ∧
      ∀ p, s.worker = .resumed p → (s.frames p).status ≠ .destroyed := by
  intro h
  obtain ⟨s, hs, hw, hdead⟩ := exists_run step SparesMidway init
    [.client .create, .client (.submit 0), .push 0, .popBatch, .worker, .body (.code .create),
      .body (.await 1), .body .yield, .checkDone false, .worker, .popBatch, .worker,
      .body .finish, .body (.code (.drop 1)), .body .finish]
    (fun s => s.worker = .resumed 1 ∧ (s.frames 1).status = .destroyed) (by decide)
  exact (h s hs).2 1 hw hdead

end TinyCoroutine.Task
