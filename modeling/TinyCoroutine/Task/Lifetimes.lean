import TinyCoroutine.Task.Destruction
import TinyCoroutine.Foundation.Run

/-!
# The life of a frame under the operations of `Task`

In every program that uses `Task` objects, however they are moved, assigned, detached and
destructed, a frame exists as long as it has a holder, and it has one holder; and an operation is
defined exactly under the conditions of `Legal`. An assignment needs that neither of its operands
lives in the tree of frames that the old value owns: the old frame is destroyed before the new
handle is read.
-/
namespace TinyCoroutine.Task

open Foundation

namespace Store

variable {s t : Store} {o : Nat} {x : Object} {f g h : Handle}

/-- Nothing runs below the frame that `v` points to, and none of the objects `os` lives there. -/
def Disposable (s : Store) (v : Option Handle) (os : List Object) : Prop :=
  ∀ f, s.Below v.toList f → s.lives f ≠ .running ∧ ∀ x ∈ os, x.place ≠ some f

/-- When an operation is defined. -/
def Legal (s : Store) : TaskOp → Prop
  | .call place | .construct place => s.room place = true
  | .moveConstruct place src => (s.objects src).isSome = true ∧ s.room place = true
  | .moveAssign dst src => ∃ x y, s.objects dst = some x ∧ s.objects src = some y ∧
      (dst = src ∨ s.Disposable x.handler [x, y])
  | .destruct o => ∃ x, s.objects o = some x ∧ s.Disposable x.handler [x]
  | .detach o => (s.objects o).isSome = true
  | .resume o => ∃ x, s.objects o = some x ∧ ∀ h ∈ x.handler, s.lives h = .suspended
  | .resumeReleased h => h ∈ s.released ∧ s.lives h = .suspended
  | .destroyReleased h => h ∈ s.released ∧ s.Disposable (some h) []
  | .suspend h | .finish h => s.lives h = .running

/-- The edge from an object to its frame is not needed to reach what is below this frame. -/
theorem below_setHandler (hx : s.objects o = some x) :
    Below (s.setHandler o none) x.handler.toList f ↔ Below s x.handler.toList f := by
  constructor
  · intro hb
    induction hb with
    | root hg => exact .root hg
    | @inner f g o' x' _ hx' hplace hg ih =>
      by_cases ho : o' = o
      · subst ho
        obtain rfl := Option.some.inj ((objects_setHandler_self hx).symm.trans hx')
        cases hg
      · rw [objects_setHandler_of_ne ho] at hx'
        exact .inner ih hx' hplace hg
  · intro hb
    induction hb with
    | root hg => exact .root hg
    | @inner f g o' x' _ hx' hplace hg ih =>
      by_cases ho : o' = o
      · subst ho
        obtain rfl := Option.some.inj (hx.symm.trans hx')
        exact .root (by simpa using hg)
      · exact .inner ih ((objects_setHandler_of_ne ho).trans hx') hplace hg

/-- `~Task`, where it is defined. -/
theorem Owned.clear (I : s.Owned []) (hx : s.objects o = some x) (hc : s.clear o x = some t) :
    t.Owned [] ∧ s.Disposable x.handler [x] ∧
      t.objects o = some { x with handler := none } ∧ ∀ o' ≠ o, ∀ y, t.objects o' = some y ↔
        s.objects o' = some y ∧ ∀ f, y.place = some f → ¬ s.Below x.handler.toList f := by
  rw [Store.clear, Option.filter_eq_some_iff] at hc
  obtain ⟨hd, hsome⟩ := hc
  obtain ⟨It, hrun, hobjects⟩ := (I.take hx).destroy hd
  obtain ⟨x', hx'⟩ := Option.isSome_iff_exists.mp hsome
  obtain ⟨hself, hplace⟩ := (hobjects o x').mp hx'
  obtain rfl := Option.some.inj ((objects_setHandler_self hx).symm.trans hself)
  refine ⟨It, fun f hf => ⟨hrun f ((below_setHandler hx).mpr hf), ?_⟩, hx', fun o' ho y => ?_⟩
  · intro y hy hyf
    rw [List.mem_singleton.mp hy] at hyf
    exact hplace f hyf ((below_setHandler hx).mpr hf)
  · rw [hobjects, objects_setHandler_of_ne ho]
    simp only [below_setHandler hx]

theorem Owned.exists_clear (I : s.Owned []) (hx : s.objects o = some x)
    (hd : s.Disposable x.handler [x]) : ∃ t, s.clear o x = some t := by
  have hrun : ∀ g, Below (s.setHandler o none) x.handler.toList g → s.lives g ≠ .running :=
    fun g hg => (hd g ((below_setHandler hx).mp hg)).1
  obtain ⟨t, ht⟩ := (I.take hx).exists_destroy liveCount_le hrun
  obtain ⟨-, -, hobjects⟩ := (I.take hx).destroy ht
  refine ⟨t, Option.filter_eq_some_iff.mpr ⟨ht, ?_⟩⟩
  have hself : t.objects o = some { x with handler := none } := by
    refine (hobjects o _).mpr ⟨objects_setHandler_self hx, fun f hf hb => ?_⟩
    exact (hd f ((below_setHandler hx).mp hb)).2 x (List.mem_singleton.mpr rfl) hf
  simp [hself]

/-! ### Assignment and destruction -/

theorem moveAssign_eq_some {dst src : Nat} (hs : s.step (.moveAssign dst src) = some t) :
    ∃ x y, s.objects dst = some x ∧ s.objects src = some y ∧
      (dst = src ∧ t = s ∨ dst ≠ src ∧ ∃ u y', s.clear dst x = some u ∧ u.objects src = some y' ∧
        t = (u.setHandler src none).setHandler dst y'.handler) := by
  simp only [step] at hs
  split at hs
  · rename_i x y hx hy
    refine ⟨x, y, hx, hy, ?_⟩
    split at hs
    · rename_i heq
      exact .inl ⟨heq, (Option.some.inj hs).symm⟩
    · rename_i hne
      obtain ⟨u, hu, hs⟩ := Option.bind_eq_some_iff.mp hs
      obtain ⟨y', hy', rfl⟩ := Option.map_eq_some_iff.mp hs
      exact .inr ⟨hne, u, y', hu, hy', rfl⟩
  · cases hs

theorem Owned.moveAssign {dst src : Nat} (I : s.Owned [])
    (hs : s.step (.moveAssign dst src) = some t) : t.Owned [] := by
  obtain ⟨x, y, hx, hy, ⟨-, rfl⟩ | ⟨hne, u, y', hu, hy', rfl⟩⟩ := moveAssign_eq_some hs
  · exact I
  · obtain ⟨Iu, -, hdst, -⟩ := I.clear hx hu
    exact (Iu.take hy').put ((objects_setHandler_of_ne hne).trans hdst) rfl

theorem Owned.moveAssign_legal {dst src : Nat} (I : s.Owned []) :
    (∃ t, s.step (.moveAssign dst src) = some t) ↔ s.Legal (.moveAssign dst src) := by
  constructor
  · rintro ⟨t, hs⟩
    obtain ⟨x, y, hx, hy, ⟨heq, -⟩ | ⟨hne, u, y', hu, hy', -⟩⟩ := moveAssign_eq_some hs
    · exact ⟨x, y, hx, hy, .inl heq⟩
    · obtain ⟨-, hd, -, hothers⟩ := I.clear hx hu
      obtain ⟨hsrc, hplace⟩ := (hothers src hne.symm y').mp hy'
      obtain rfl := Option.some.inj (hy.symm.trans hsrc)
      refine ⟨x, y, hx, hy, .inr fun f hf => ⟨(hd f hf).1, fun z hz => ?_⟩⟩
      rcases List.mem_cons.mp hz with rfl | hz
      · exact (hd f hf).2 z (List.mem_singleton.mpr rfl)
      · rw [List.mem_singleton.mp hz]
        exact fun hyf => hplace f hyf hf
  · rintro ⟨x, y, hx, hy, heq | hd⟩
    · exact ⟨s, by simp [step, hy, heq]⟩
    · by_cases hne : dst = src
      · exact ⟨s, by simp [step, hy, hne]⟩
      · have hdst : s.Disposable x.handler [x] := fun f hf =>
          ⟨(hd f hf).1, fun z hz => (hd f hf).2 z (by simp [List.mem_singleton.mp hz])⟩
        obtain ⟨u, hu⟩ := I.exists_clear hx hdst
        obtain ⟨-, -, -, hothers⟩ := I.clear hx hu
        have hsrc : u.objects src = some y := by
          refine (hothers src (Ne.symm hne) y).mpr ⟨hy, fun f hyf hf => ?_⟩
          exact (hd f hf).2 y (by simp) hyf
        exact ⟨(u.setHandler src none).setHandler dst y.handler,
          by simp [step, hx, hy, hne, hu, hsrc]⟩

theorem destruct_eq_some (hs : s.step (.destruct o) = some t) :
    ∃ x u, s.objects o = some x ∧ s.clear o x = some u ∧
      t = { u with objects := Function.update u.objects o none } := by
  simp only [step] at hs
  split at hs
  · rename_i x hx
    obtain ⟨u, hu, rfl⟩ := Option.map_eq_some_iff.mp hs
    exact ⟨x, u, hx, hu, rfl⟩
  · cases hs

theorem Owned.destruct (I : s.Owned []) (hs : s.step (.destruct o) = some t) : t.Owned [] := by
  obtain ⟨x, u, hx, hu, rfl⟩ := destruct_eq_some hs
  obtain ⟨Iu, -, hself, -⟩ := I.clear hx hu
  exact Iu.remove hself rfl

theorem Owned.destruct_legal (I : s.Owned []) :
    (∃ t, s.step (.destruct o) = some t) ↔ s.Legal (.destruct o) := by
  constructor
  · rintro ⟨t, hs⟩
    obtain ⟨x, u, hx, hu, -⟩ := destruct_eq_some hs
    exact ⟨x, hx, (I.clear hx hu).2.1⟩
  · rintro ⟨x, hx, hd⟩
    obtain ⟨u, hu⟩ := I.exists_clear hx hd
    exact ⟨{ u with objects := Function.update u.objects o none }, by simp [step, hx, hu]⟩

theorem Owned.destroyReleased (I : s.Owned []) (hs : s.step (.destroyReleased h) = some t) :
    t.Owned [] := by
  simp only [step] at hs
  split at hs
  · rename_i hh
    exact ((I.unrelease hh).destroy hs).1
  · cases hs

theorem Owned.destroyReleased_legal (I : s.Owned []) :
    (∃ t, s.step (.destroyReleased h) = some t) ↔ s.Legal (.destroyReleased h) := by
  have hbelow (g : Handle) :
      Below { s with released := s.released.erase h } [h] g ↔ s.Below [h] g := by
    constructor
    all_goals
      intro hb
      induction hb with
      | root hg => exact .root hg
      | inner _ hx hplace hg ih => exact .inner ih hx hplace hg
  simp only [step, Legal]
  by_cases hh : h ∈ s.released
  · simp only [hh, if_true, true_and]
    constructor
    · rintro ⟨t, hs⟩
      obtain ⟨-, hrun, -⟩ := (I.unrelease hh).destroy hs
      exact fun f hf => ⟨hrun f ((hbelow f).mpr hf), by simp⟩
    · intro hd
      exact (I.unrelease hh).exists_destroy liveCount_le fun g hg => (hd g ((hbelow g).mp hg)).1
  · simp [hh]

/-! ### Every operation -/

theorem Owned.start (I : s.Owned []) (hs : s.start h = some t) : t.Owned [] := by
  simp only [Store.start] at hs
  split at hs
  · rename_i hlife
    cases hs
    exact I.setLife (by simp [Store.live, hlife, Life.live]) rfl
  · cases hs

theorem start_legal : (∃ t, s.start h = some t) ↔ s.lives h = .suspended := by
  simp [start]

theorem room_newFrame {place : Option Handle} (hroom : s.room place = true) :
    s.newFrame.room place = true := by
  cases place with
  | none => rfl
  | some f =>
    by_cases hf : f = s.nextFrame
    · simp [room, live, newFrame, hf, Life.live]
    · simpa [room, live, newFrame, hf] using hroom

theorem Owned.step {op : TaskOp} (I : s.Owned []) (hs : s.step op = some t) : t.Owned [] := by
  cases op with
  | moveAssign dst src => exact I.moveAssign hs
  | destruct o => exact I.destruct hs
  | destroyReleased h => exact I.destroyReleased hs
  | call place =>
    simp only [Store.step] at hs
    split at hs
    · rename_i hroom
      cases hs
      exact Owned.addObject (v := some s.nextFrame) I.newFrame (room_newFrame hroom)
    · cases hs
  | construct place =>
    simp only [Store.step] at hs
    split at hs
    · rename_i hroom
      cases hs
      exact Owned.addObject (v := none) I hroom
    · cases hs
  | moveConstruct place src =>
    simp only [Store.step] at hs
    split at hs
    · rename_i y hy
      split at hs
      · rename_i hroom
        cases hs
        exact (I.take hy).addObject hroom
      · cases hs
    · cases hs
  | detach o =>
    simp only [Store.step] at hs
    split at hs
    · rename_i x hx
      cases hs
      exact (I.take hx).release
    · cases hs
  | resume o =>
    simp only [Store.step] at hs
    split at hs
    · rename_i x hx
      cases hv : x.handler with
      | none =>
        simp only [hv, Option.elim_none] at hs
        cases hs
        exact I
      | some h =>
        simp only [hv, Option.elim_some] at hs
        exact I.start hs
    · cases hs
  | resumeReleased h =>
    simp only [Store.step] at hs
    split at hs
    · exact I.start hs
    · cases hs
  | suspend h | finish h =>
    simp only [Store.step] at hs
    split at hs
    · rename_i hlife
      cases hs
      exact I.setLife (by simp [Store.live, hlife, Life.live]) rfl
    · cases hs

theorem Owned.legal (I : s.Owned []) (op : TaskOp) : (∃ t, s.step op = some t) ↔ s.Legal op := by
  cases op with
  | moveAssign dst src => exact I.moveAssign_legal
  | destruct o => exact I.destruct_legal
  | destroyReleased h => exact I.destroyReleased_legal
  | call place | construct place => simp [Store.step, Legal]
  | moveConstruct place src =>
    cases hy : s.objects src <;> simp [Store.step, Legal, hy]
  | detach o => cases hx : s.objects o <;> simp [Store.step, Legal, hx]
  | resume o =>
    cases hx : s.objects o with
    | none => simp [Store.step, Legal, hx]
    | some x => cases hv : x.handler <;> simp [Store.step, Legal, hx, hv, start_legal]
  | resumeReleased h =>
    by_cases hh : h ∈ s.released <;> simp [Store.step, Legal, hh, start_legal]
  | suspend h | finish h => simp [Store.step, Legal]

theorem Owned.of_run (run : Run Store.step Always {} s) : s.Owned [] :=
  run.invariant (I := fun s => s.Owned []) .init fun I _ hs => I.step hs

/-- In every program on `Task` objects a frame is live as long as it has a holder, and it has one;
it is destroyed at most once; and an operation is defined exactly when it is legal. -/
theorem task_frames_have_one_holder (run : Run Store.step Always {} s) :
    (∀ h, s.live h = true ↔ ∃! w, s.Has [] w h) ∧
      (s.destroyed.Nodup ∧ ∀ h, h ∈ s.destroyed ↔ s.lives h = .destroyed) ∧
      ∀ op, (∃ t, s.step op = some t) ↔ s.Legal op := by
  have I := Owned.of_run run
  refine ⟨fun h => ?_, ⟨I.nodup_destroyed, I.destroyed⟩, I.legal⟩
  rw [I.live]
  constructor
  · rintro ⟨w, hw⟩
    exact ⟨w, hw, fun w' hw' => I.unique w' w h hw' hw⟩
  · rintro ⟨w, hw, -⟩
    exact ⟨w, hw⟩

/-- Task 1 lives in the frame that task 0 owns: it cannot be assigned to task 0 directly, but by way
of a third object. -/
theorem task_frames_have_one_holder_nested :
    ∃ s t, Run Store.step Always {} s ∧ ¬ s.Legal (.moveAssign 0 1) ∧
      Run Store.step Always s t ∧ t.Legal (.moveAssign 0 2) ∧ ∃! w, t.Has [] w 1 := by
  obtain ⟨s, hs, hundefined, t, ht, hdefined, hlive⟩ := exists_run Store.step Always {}
    [.call none, .call (some 0)]
    (fun s => (s.step (.moveAssign 0 1)).isSome = false ∧
      ∃ t ∈ exec Store.step Always s [.moveConstruct none 1],
        (t.step (.moveAssign 0 2)).isSome = true ∧ t.live 1 = true) (by decide)
  have hrun : Run Store.step Always s t := .of_exec .refl ht
  obtain ⟨-, -, hlegal⟩ := task_frames_have_one_holder hs
  obtain ⟨hholder, -, hlegal'⟩ := task_frames_have_one_holder (hs.trans hrun)
  refine ⟨s, t, hs, fun hl => ?_, hrun, ?_, (hholder 1).mp hlive⟩
  · obtain ⟨u, hu⟩ := (hlegal _).mpr hl
    simp [hu] at hundefined
  · exact (hlegal' _).mp (Option.isSome_iff_exists.mp hdefined)

end Store

end TinyCoroutine.Task
