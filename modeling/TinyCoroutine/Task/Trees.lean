import TinyCoroutine.Task.Lifetimes
import TinyCoroutine.Task.Basic
import TinyCoroutine.Foundation.Steps

/-!
# Trees of frames at two levels

The scheduler with nested tasks does not keep `Task` objects: there a frame has an owner, and
`destroyFrames` ends all frames from which the chain of owners leads to the destroyed one. Read off
the objects, this is what `~Task` does: the recursion through the destructors and the chains of
owners give the same frames.
-/
namespace TinyCoroutine.Task

open Foundation

def Life.status : Life → Status
  | .none => .none
  | .suspended => .suspended
  | .running => .running
  | .final => .final
  | .destroyed => .destroyed

namespace Store

variable {s t : Store} {o : Nat} {x : Object} {f g h : Handle}

/-- The owner of a frame: where the object lives that has its handle. -/
def owner (s : Store) (h : Handle) : Owner :=
  match (List.range s.nextObject).find? fun o => (s.objects o).bind Object.handler = some h with
  | some o =>
    match (s.objects o).bind Object.place with
    | some f => .frame f
    | none => .client
  | none => .detached

/-- The frames, as the scheduler with nested tasks sees them. -/
def view (s : Store) (h : Handle) : Frame :=
  { status := (s.lives h).status, owner := s.owner h }

/-- The frame in which the owner of `g` lives. -/
def up (s : Store) (g : Handle) : Option Handle :=
  match s.owner g with
  | .frame f => some f
  | _ => none

theorem Owned.owner_of_object (I : s.Owned []) (hx : s.objects o = some x)
    (hg : x.handler = some g) : s.owner g = x.place.elim .client .frame := by
  have hhas : s.Has [] (.object o) g := by simp [Has, hx, hg]
  obtain ⟨o', ho'⟩ : ∃ o', (List.range s.nextObject).find? (fun o =>
      (s.objects o).bind Object.handler = some g) = some o' := by
    refine Option.isSome_iff_exists.mp (List.find?_isSome.mpr ⟨o, ?_, ?_⟩)
    · exact List.mem_range.mpr (I.objects_lt o x hx)
    · simp [hx, hg]
  have hhas' : s.Has [] (.object o') g := by simpa [Has] using List.find?_some ho'
  obtain rfl : o' = o := by simpa using I.unique _ _ g hhas' hhas
  rw [owner, ho']
  cases hplace : x.place <;> simp [hx, hplace]

theorem owner_of_no_object (hnone : ∀ o, (s.objects o).bind Object.handler ≠ some g) :
    s.owner g = .detached := by
  have hfind : (List.range s.nextObject).find? (fun o =>
      (s.objects o).bind Object.handler = some g) = none := by
    refine List.find?_eq_none.mpr fun o _ => ?_
    simpa using hnone o
  rw [owner, hfind]

theorem Owned.up_eq_some (I : s.Owned []) : s.up g = some f ↔
    ∃ o x, s.objects o = some x ∧ x.place = some f ∧ x.handler = some g := by
  constructor
  · intro hup
    by_cases hnone : ∀ o, (s.objects o).bind Object.handler ≠ some g
    · simp [up, owner_of_no_object hnone] at hup
    · push Not at hnone
      obtain ⟨o, ho⟩ := hnone
      obtain ⟨x, hx, hg⟩ := Option.bind_eq_some_iff.mp ho
      refine ⟨o, x, hx, ?_, hg⟩
      rw [up, I.owner_of_object hx hg] at hup
      cases hplace : x.place with
      | none => simp [hplace] at hup
      | some f' => simpa [hplace] using hup
  · rintro ⟨o, x, hx, hplace, hg⟩
    rw [up, I.owner_of_object hx hg, hplace]
    rfl

theorem ownedBy_succ {n : Nat} : ownedBy s.view (n + 1) g h = true ↔
    g = h ∨ ∃ f, s.up g = some f ∧ ownedBy s.view n f h = true := by
  rw [ownedBy, Bool.or_eq_true, decide_eq_true_eq, up]
  simp only [view]
  cases s.owner g <;> simp

theorem ownedBy_iff {n : Nat} :
    ownedBy s.view n g h = true ↔ ∃ m ≤ n, after s.up m g = some h := by
  induction n generalizing g with
  | zero => simp [ownedBy, after]
  | succ n ih =>
    rw [ownedBy_succ]
    constructor
    · rintro (rfl | ⟨f, hf, howned⟩)
      · exact ⟨0, Nat.zero_le _, rfl⟩
      · obtain ⟨m, hm, h⟩ := ih.mp howned
        exact ⟨m + 1, Nat.succ_le_succ hm, after_head hf h⟩
    · rintro ⟨m, hm, h⟩
      cases m with
      | zero => exact .inl (Option.some.inj h)
      | succ m =>
        obtain ⟨f, hf, h⟩ := Option.bind_eq_some_iff.mp h
        exact .inr ⟨f, hf, ih.mpr ⟨m, Nat.le_of_succ_le_succ hm, h⟩⟩

theorem Owned.below_iff (I : s.Owned []) : s.Below [h] g ↔ ∃ m, after s.up m g = some h := by
  constructor
  · intro hb
    induction hb with
    | root hg => exact ⟨0, by rw [List.mem_singleton.mp hg]; rfl⟩
    | @inner f g o x _ hx hplace hg ih =>
      obtain ⟨m, hm⟩ := ih
      exact ⟨m + 1, after_head (I.up_eq_some.mpr ⟨o, x, hx, hplace, hg⟩) hm⟩
  · rintro ⟨m, hm⟩
    induction m generalizing g with
    | zero => exact .root (by simpa [after] using hm)
    | succ m ih =>
      obtain ⟨f, hf, hm⟩ := Option.bind_eq_some_iff.mp hm
      obtain ⟨o, x, hx, hplace, hg⟩ := I.up_eq_some.mp hf
      exact .inner (ih hm) hx hplace hg

/-- The chains of owners are followed far enough. -/
theorem Owned.ownedBy_iff_below (I : s.Owned []) (hh : s.live h = true) :
    ownedBy s.view s.nextFrame g h = true ↔ s.Below [h] g := by
  rw [ownedBy_iff, I.below_iff]
  constructor
  · rintro ⟨m, -, hm⟩
    exact ⟨m, hm⟩
  · rintro ⟨m, hm⟩
    have hlt (f : Handle) (hf : s.live f = true) : f < s.nextFrame := by
      refine I.frames_lt f fun hnone => ?_
      simp [Store.live, hnone, Life.live] at hf
    have hg : s.live g = true := by
      cases m with
      | zero =>
        cases hm
        exact hh
      | succ m =>
        obtain ⟨f, hf, -⟩ := Option.bind_eq_some_iff.mp hm
        obtain ⟨o, x, hx, -, hg⟩ := I.up_eq_some.mp hf
        exact (I.live g).mpr ⟨.object o, by simp [Has, hx, hg]⟩
    have hchain (k : Nat) (f : Handle) (hk : after s.up k g = some f) :
        f ∈ Finset.range s.nextFrame := by
      refine Finset.mem_range.mpr (hlt f ?_)
      cases k with
      | zero =>
        cases hk
        exact hg
      | succ k =>
        rw [after_add] at hk
        obtain ⟨f', -, hf'⟩ := Option.bind_eq_some_iff.mp hk
        obtain ⟨f'', hup, hf⟩ := Option.bind_eq_some_iff.mp hf'
        obtain rfl : f'' = f := by simpa [after] using hf
        obtain ⟨o, x, hx, hplace, -⟩ := I.up_eq_some.mp hup
        exact I.places o x f'' hx hplace
    obtain ⟨k, hk, hkh⟩ := exists_after_lt_card hm hchain
    rw [Finset.card_range] at hk
    exact ⟨k, hk.le, hkh⟩

/-! ### The destructor -/

/-- A frame that outlives the destructor keeps its owner. -/
theorem Owned.clear_owner (I : s.Owned []) (hx : s.objects o = some x) (hh : x.handler = some h)
    (hc : s.clear o x = some t) (hg : ¬ s.Below [h] g) : t.owner g = s.owner g := by
  obtain ⟨It, -, hself, hothers⟩ := I.clear hx hc
  have hne : g ≠ h := fun hgh => hg (.root (List.mem_singleton.mpr hgh))
  by_cases hnone : ∀ o', (s.objects o').bind Object.handler ≠ some g
  · rw [owner_of_no_object hnone, owner_of_no_object]
    intro o' ho'
    obtain ⟨y, hy, hyg⟩ := Option.bind_eq_some_iff.mp ho'
    by_cases ho : o' = o
    · subst ho
      obtain rfl := Option.some.inj (hself.symm.trans hy)
      cases hyg
    · refine hnone o' ?_
      rw [((hothers o' ho y).mp hy).1]
      exact hyg
  · push Not at hnone
    obtain ⟨o', ho'⟩ := hnone
    obtain ⟨y, hy, hyg⟩ := Option.bind_eq_some_iff.mp ho'
    have ho : o' ≠ o := by
      rintro rfl
      obtain rfl := Option.some.inj (hx.symm.trans hy)
      exact hne (Option.some.inj (hyg.symm.trans hh))
    have hty : t.objects o' = some y := by
      refine (hothers o' ho y).mpr ⟨hy, fun f hf hb => hg ?_⟩
      rw [hh] at hb
      exact .inner hb hy hf hyg
    rw [It.owner_of_object hty hyg, I.owner_of_object hy hyg]

/-- `~Task` ends the frames that `destroyFrames` ends, and the others stay as they are. -/
theorem Owned.clear_view (I : s.Owned []) (hx : s.objects o = some x) (hh : x.handler = some h)
    (hc : s.clear o x = some t) (g : Handle) :
    (t.view g).status = (destroyFrames s.nextFrame s.view h g).status ∧
      (t.live g = true → t.view g = destroyFrames s.nextFrame s.view h g) := by
  have hlive : s.live h = true := (I.live h).mpr ⟨.object o, by simp [Has, hx, hh]⟩
  obtain ⟨hd, -⟩ := Option.filter_eq_some_iff.mp hc
  obtain ⟨hbelow, hrest⟩ := (I.take hx).lives_destroy (g := g) hd
  rw [below_setHandler hx, hh] at hbelow hrest
  have howned := I.ownedBy_iff_below (g := g) hlive
  by_cases hg : s.Below [h] g
  · have hdead : t.lives g = .destroyed := hbelow hg
    rw [destroyFrames, if_pos (howned.mpr hg)]
    refine ⟨by rw [view, hdead, Life.status], fun htg => ?_⟩
    simp [Store.live, hdead, Life.live] at htg
  · have hsame : t.view g = s.view g := by
      rw [view, view, I.clear_owner hx hh hc hg, hrest hg]
      rfl
    rw [destroyFrames, if_neg fun h => hg (howned.mp h), hsame]
    exact ⟨rfl, fun _ => rfl⟩

/-- In every program on `Task` objects, destructing an object or assigning to it does to the frames
what the scheduler with nested tasks takes it to do. -/
theorem destructor_agrees_with_owners (run : Run Store.step Always {} s)
    (hx : s.objects o = some x) (hh : x.handler = some h) (hc : s.clear o x = some t) (g : Handle) :
    (t.view g).status = (destroyFrames s.nextFrame s.view h g).status ∧
      (t.live g = true → t.view g = destroyFrames s.nextFrame s.view h g) :=
  (Owned.of_run run).clear_view hx hh hc g

/-- Frame 2 belongs to frame 1 and frame 1 to frame 0, whose task is destructed; frame 3 is
another one. -/
theorem destructor_agrees_with_owners_nested :
    ∃ s x t, Run Store.step Always {} s ∧ s.objects 0 = some x ∧ s.clear 0 x = some t ∧
      (t.view 2).status = .destroyed ∧ (t.view 3).status = .suspended := by
  obtain ⟨s, run, x, hx, hh, t, hc, htwo, hthree⟩ := exists_run Store.step Always {}
    [.call none, .call (some 0), .call (some 1), .call none]
    (fun s => ∃ x ∈ s.objects 0, x.handler = some 0 ∧ ∃ t ∈ s.clear 0 x,
      (destroyFrames s.nextFrame s.view 0 2).status = .destroyed ∧
        (destroyFrames s.nextFrame s.view 0 3).status = .suspended) (by decide)
  refine ⟨s, x, t, run, hx, hc, ?_, ?_⟩
  · rw [(destructor_agrees_with_owners run hx hh hc 2).1, htwo]
  · rw [(destructor_agrees_with_owners run hx hh hc 3).1, hthree]

end Store

end TinyCoroutine.Task
