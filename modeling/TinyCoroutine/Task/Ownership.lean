import TinyCoroutine.Task.Objects
import Mathlib.Data.List.Nodup

/-!
# Every frame has one holder

The handle of a live frame is in `handler_` of one `Task`, or it was released to the scheduler, or
the code of an operation has it between two accesses. `Owned` says this of a store; the lemmas
below move a handle from one holder to another.
-/
namespace TinyCoroutine.Task

/-- What can have the handle of a live frame. Between two accesses of an operation, handles are in
local variables of its code: `hand`. -/
inductive Holder where
  | object (o : Nat)
  | released
  | hand
  deriving DecidableEq, Repr

namespace Store

def Has (s : Store) (hand : List Handle) : Holder → Handle → Prop
  | .object o, h => (s.objects o).bind Object.handler = some h
  | .released, h => h ∈ s.released
  | .hand, h => h ∈ hand

structure Owned (s : Store) (hand : List Handle) : Prop where
  unique : ∀ w w' h, s.Has hand w h → s.Has hand w' h → w = w'
  live : ∀ h, s.live h = true ↔ ∃ w, s.Has hand w h
  nodup_released : s.released.Nodup
  nodup_hand : hand.Nodup
  places : ∀ o x f, s.objects o = some x → x.place = some f → s.live f = true
  objects_lt : ∀ o x, s.objects o = some x → o < s.nextObject
  frames_lt : ∀ h, s.lives h ≠ .none → h < s.nextFrame
  nodup_destroyed : s.destroyed.Nodup
  destroyed : ∀ h, h ∈ s.destroyed ↔ s.lives h = .destroyed

variable {s t : Store} {o : Nat} {x : Object} {g h : Handle} {v : Option Handle}
  {hand hand' : List Handle}

theorem Owned.init : Owned {} [] where
  unique w w' h hw := by cases w <;> simp [Has] at hw
  live h := by
    constructor
    · intro hh
      cases hh
    · rintro ⟨w, hw⟩
      cases w <;> simp [Has] at hw
  nodup_released := .nil
  nodup_hand := .nil
  places o x f hx := by cases hx
  objects_lt o x hx := by cases hx
  frames_lt h hh := absurd rfl hh
  nodup_destroyed := .nil
  destroyed h := by simp

/-- The handles of `t` are those of `s` that `keep` lets pass, each with the holder that `move`
says. -/
structure Moves (s : Store) (hand : List Handle) (t : Store) (hand' : List Handle)
    (keep : Handle → Prop) (move : Holder → Handle → Holder) : Prop where
  source : ∀ w h, t.Has hand' w h → keep h ∧ ∃ w₀, move w₀ h = w ∧ s.Has hand w₀ h
  target : ∀ w h, s.Has hand w h → keep h → t.Has hand' (move w h) h

section Moves

variable {keep : Handle → Prop} {move : Holder → Handle → Holder}

theorem Moves.unique (hm : Moves s hand t hand' keep move) (I : s.Owned hand) (w w' : Holder)
    (h : Handle) (hw : t.Has hand' w h) (hw' : t.Has hand' w' h) : w = w' := by
  obtain ⟨-, w₀, rfl, hw₀⟩ := hm.source w h hw
  obtain ⟨-, w₀', rfl, hw₀'⟩ := hm.source w' h hw'
  rw [I.unique w₀ w₀' h hw₀ hw₀']

theorem Moves.live (hm : Moves s hand t hand' keep move) (I : s.Owned hand)
    (hlive : t.live h = true ↔ keep h ∧ s.live h = true) :
    t.live h = true ↔ ∃ w, t.Has hand' w h := by
  rw [hlive, I.live]
  constructor
  · rintro ⟨hkeep, w, hw⟩
    exact ⟨_, hm.target w h hw hkeep⟩
  · rintro ⟨w, hw⟩
    obtain ⟨hkeep, w₀, -, hw₀⟩ := hm.source w h hw
    exact ⟨hkeep, w₀, hw₀⟩

end Moves

@[simp, grind =] theorem released_setHandler : (s.setHandler o v).released = s.released := rfl

@[simp] theorem lives_setHandler : (s.setHandler o v).lives = s.lives := rfl

theorem objects_setHandler_self (hx : s.objects o = some x) :
    (s.setHandler o v).objects o = some { x with handler := v } := by simp [setHandler, hx]

theorem objects_setHandler_of_ne {o' : Nat} (ho : o' ≠ o) :
    (s.setHandler o v).objects o' = s.objects o' := Function.update_of_ne ho ..

theorem objects_setHandler {o' : Nat} {x' : Object} (hx : (s.setHandler o v).objects o' = some x') :
    ∃ x, s.objects o' = some x ∧ x'.place = x.place := by
  by_cases ho : o' = o
  · subst ho
    simp only [setHandler, Function.update_self] at hx
    obtain ⟨y, hy, rfl⟩ := Option.map_eq_some_iff.mp hx
    exact ⟨y, hy, rfl⟩
  · rw [objects_setHandler_of_ne ho] at hx
    exact ⟨x', hx, rfl⟩

theorem handler_setHandler (hx : s.objects o = some x) (o' : Nat) :
    ((s.setHandler o v).objects o').bind Object.handler =
      if o' = o then v else (s.objects o').bind Object.handler := by
  by_cases ho : o' = o
  · subst ho
    simp [objects_setHandler_self hx]
  · simp [objects_setHandler_of_ne ho, ho]

/-- `handler_` of one object changes, and its frame has another holder. -/
theorem Owned.setHandler (I : s.Owned hand) (move : Holder → Handle → Holder)
    (hm : Moves s hand (s.setHandler o v) hand' (fun _ => True) move) (hnodup : hand'.Nodup) :
    (s.setHandler o v).Owned hand' where
  unique := hm.unique I
  live h := hm.live I (by simp [Store.live])
  nodup_released := I.nodup_released
  nodup_hand := hnodup
  places o' x' f hx' hf := by
    obtain ⟨y, hy, hplace⟩ := objects_setHandler hx'
    exact I.places o' y f hy (hplace ▸ hf)
  objects_lt o' x' hx' := by
    obtain ⟨y, hy, -⟩ := objects_setHandler hx'
    exact I.objects_lt o' y hy
  frames_lt := I.frames_lt
  nodup_destroyed := I.nodup_destroyed
  destroyed := I.destroyed

/-- `handler_` is read and set to null. -/
theorem Owned.take (I : s.Owned []) (hx : s.objects o = some x) :
    (s.setHandler o none).Owned x.handler.toList := by
  have hself : (s.objects o).bind Object.handler = x.handler := by simp [hx]
  have hhandler := handler_setHandler (v := none) hx
  refine I.setHandler (fun w _ => if w = .object o then .hand else w) ⟨?_, ?_⟩ ?_
  · intro w h hw
    refine ⟨trivial, ?_⟩
    cases w with
    | object o' => exact ⟨.object o', by grind [Has]⟩
    | released => exact ⟨.released, by grind [Has]⟩
    | hand => exact ⟨.object o, by grind [Has]⟩
  · intro w h hw _
    cases w with
    | object o' | released | hand => grind [Has]
  · cases x.handler <;> simp

/-- `handler_` of an empty object gets the handle that the code has. -/
theorem Owned.put (I : s.Owned v.toList) (hx : s.objects o = some x) (hnone : x.handler = none) :
    (s.setHandler o v).Owned [] := by
  have hself : (s.objects o).bind Object.handler = none := by simp [hx, hnone]
  have hhandler := handler_setHandler (v := v) hx
  refine I.setHandler (fun w _ => if w = .hand then .object o else w) ⟨?_, ?_⟩ .nil
  · intro w h hw
    refine ⟨trivial, ?_⟩
    cases w with
    | object o' =>
      by_cases ho : o' = o
      · exact ⟨.hand, by grind [Has]⟩
      · exact ⟨.object o', by grind [Has]⟩
    | released => exact ⟨.released, by grind [Has]⟩
    | hand => cases hw
  · intro w h hw _
    cases w with
    | object o' | released | hand => grind [Has]

/-- The end of an empty object. -/
theorem Owned.remove (I : s.Owned hand) (hx : s.objects o = some x) (hnone : x.handler = none) :
    Owned { s with objects := Function.update s.objects o none } hand := by
  have hhandler (o' : Nat) : (Function.update s.objects o none o').bind Object.handler =
      (s.objects o').bind Object.handler := by
    by_cases ho : o' = o
    · subst ho
      simp [hx, hnone]
    · rw [Function.update_of_ne ho]
  have hobjects {o' : Nat} {x' : Object} (hx' : Function.update s.objects o none o' = some x') :
      s.objects o' = some x' := by
    by_cases ho : o' = o
    · subst ho
      simp at hx'
    · rwa [Function.update_of_ne ho] at hx'
  have hhas (w : Holder) (h : Handle) :
      Has { s with objects := Function.update s.objects o none } hand w h ↔ s.Has hand w h := by
    cases w with
    | object o' => rw [Has, Has, hhandler]
    | released | hand => rfl
  exact { I with
    unique := fun w w' h hw hw' => I.unique w w' h ((hhas w h).mp hw) ((hhas w' h).mp hw')
    live := fun h => (I.live h).trans (exists_congr fun w => (hhas w h).symm)
    places := fun o' x' f hx' hf => I.places o' x' f (hobjects hx') hf
    objects_lt := fun o' x' hx' => I.objects_lt o' x' (hobjects hx') }

/-- A new object gets the handle that the code has. -/
theorem Owned.addObject {place : Option Handle} (I : s.Owned v.toList)
    (hroom : s.room place = true) : (s.addObject ⟨place, v⟩).Owned [] := by
  have hfree : s.objects s.nextObject = none := by
    refine Option.eq_none_iff_forall_ne_some.mpr fun x hx => ?_
    exact Nat.lt_irrefl _ (I.objects_lt _ x hx)
  have hhandler (o' : Nat) : ((s.addObject ⟨place, v⟩).objects o').bind Object.handler =
      if o' = s.nextObject then v else (s.objects o').bind Object.handler := by
    by_cases ho : o' = s.nextObject <;> simp [Store.addObject, ho]
  have hreleased : (s.addObject ⟨place, v⟩).released = s.released := rfl
  have hobjects (o' : Nat) (x' : Object) (hx' : (s.addObject ⟨place, v⟩).objects o' = some x') :
      o' = s.nextObject ∧ x'.place = place ∨ s.objects o' = some x' := by
    by_cases ho : o' = s.nextObject
    · subst ho
      simp only [Store.addObject, Function.update_self, Option.some.injEq] at hx'
      exact .inl ⟨rfl, by rw [← hx']⟩
    · simp only [Store.addObject, Function.update_of_ne ho] at hx'
      exact .inr hx'
  have hm : Moves s v.toList (s.addObject ⟨place, v⟩) [] (fun _ => True)
      (fun w _ => if w = .hand then .object s.nextObject else w) := by
    constructor
    · intro w h hw
      refine ⟨trivial, ?_⟩
      cases w with
      | object o' =>
        by_cases ho : o' = s.nextObject
        · exact ⟨.hand, by grind [Has]⟩
        · exact ⟨.object o', by grind [Has]⟩
      | released => exact ⟨.released, by grind [Has]⟩
      | hand => cases hw
    · intro w h hw _
      cases w with
      | object o' | released | hand => grind [Has]
  exact {
    unique := hm.unique I
    live := fun h => hm.live I (by simp [Store.addObject, Store.live])
    nodup_released := I.nodup_released
    nodup_hand := .nil
    places := by
      intro o' x' f hx' hf
      rcases hobjects o' x' hx' with ⟨-, hplace⟩ | hx'
      · rw [← hplace, hf] at hroom
        exact hroom
      · exact I.places o' x' f hx' hf
    objects_lt := by
      intro o' x' hx'
      rcases hobjects o' x' hx' with ⟨rfl, -⟩ | hx'
      · exact Nat.lt_succ_self _
      · exact Nat.lt_succ_of_lt (I.objects_lt o' x' hx')
    frames_lt := I.frames_lt
    nodup_destroyed := I.nodup_destroyed
    destroyed := I.destroyed }

/-- The handle that the code has is left to the scheduler. -/
theorem Owned.release (I : s.Owned v.toList) :
    Owned { s with released := s.released ++ v.toList } [] := by
  have hm : Moves s v.toList { s with released := s.released ++ v.toList } [] (fun _ => True)
      (fun w _ => if w = .hand then .released else w) := by
    constructor
    · intro w h hw
      refine ⟨trivial, ?_⟩
      cases w with
      | object o' => exact ⟨.object o', by grind [Has]⟩
      | released =>
        rcases List.mem_append.mp hw with hw | hw
        · exact ⟨.released, by simp, hw⟩
        · exact ⟨.hand, by simp, hw⟩
      | hand => cases hw
    · intro w h hw _
      cases w with
      | object o' | released | hand => grind [Has]
  have hdisjoint : ∀ h ∈ s.released, ∀ g ∈ v.toList, h ≠ g := by
    rintro h hh g hg rfl
    cases I.unique .released .hand h hh hg
  exact { I with
    unique := hm.unique I
    live := fun h => hm.live I (by simp [Store.live])
    nodup_released := List.nodup_append.mpr ⟨I.nodup_released, I.nodup_hand, hdisjoint⟩
    nodup_hand := .nil }

/-- The scheduler takes up a handle that was left to it. -/
theorem Owned.unrelease (I : s.Owned []) (hh : h ∈ s.released) :
    Owned { s with released := s.released.erase h } [h] := by
  have hmem (g : Handle) : g ∈ s.released.erase h ↔ g ≠ h ∧ g ∈ s.released :=
    I.nodup_released.mem_erase_iff
  have hm : Moves s [] { s with released := s.released.erase h } [h] (fun _ => True)
      (fun w g => if w = .released ∧ g = h then .hand else w) := by
    constructor
    · intro w g hw
      refine ⟨trivial, ?_⟩
      cases w with
      | object o' => exact ⟨.object o', by grind [Has]⟩
      | released => exact ⟨.released, by grind [Has]⟩
      | hand => exact ⟨.released, by grind [Has]⟩
    · intro w g hw _
      cases w with
      | object o' | released | hand => grind [Has]
  exact { I with
    unique := hm.unique I
    live := fun g => hm.live I (by simp [Store.live])
    nodup_released := I.nodup_released.erase h
    nodup_hand := List.nodup_singleton h }

/-- A coroutine is called: its frame has been created. -/
theorem Owned.newFrame (I : s.Owned []) : s.newFrame.Owned [s.nextFrame] := by
  have hnone : s.lives s.nextFrame = .none := by
    by_contra hne
    exact Nat.lt_irrefl _ (I.frames_lt _ hne)
  have hlives (g : Handle) (hg : g ≠ s.nextFrame) : s.newFrame.lives g = s.lives g :=
    Function.update_of_ne hg ..
  have hnot (w : Holder) : ¬ s.Has [] w s.nextFrame := by
    intro hw
    have hlive := (I.live _).mpr ⟨w, hw⟩
    simp [Store.live, hnone, Life.live] at hlive
  have hself : s.newFrame.lives s.nextFrame = .suspended := Function.update_self ..
  have hhas (w : Holder) (g : Handle) : s.newFrame.Has [s.nextFrame] w g ↔
      w = .hand ∧ g = s.nextFrame ∨ s.Has [] w g := by
    cases w <;> simp [Has, Store.newFrame]
  exact { I with
    unique := by
      intro w w' g hw hw'
      rcases (hhas w g).mp hw with ⟨rfl, rfl⟩ | hw
      · rcases (hhas w' _).mp hw' with ⟨rfl, -⟩ | hw'
        · rfl
        · exact absurd hw' (hnot w')
      · rcases (hhas w' g).mp hw' with ⟨-, rfl⟩ | hw'
        · exact absurd hw (hnot w)
        · exact I.unique w w' g hw hw'
    live := by
      intro g
      by_cases hg : g = s.nextFrame
      · subst hg
        refine iff_of_true ?_ ⟨.hand, (hhas _ _).mpr (.inl ⟨rfl, rfl⟩)⟩
        rw [Store.live, hself, Life.live]
      · rw [Store.live, hlives g hg]
        refine (I.live g).trans (exists_congr fun w => ?_)
        rw [hhas w g]
        exact (or_iff_right fun h => hg h.2).symm
    nodup_hand := List.nodup_singleton _
    places := by
      intro o x f hx hf
      have hlive := I.places o x f hx hf
      by_cases hf' : f = s.nextFrame
      · simp [Store.live, hf', hnone, Life.live] at hlive
      · rwa [Store.live, hlives f hf']
    frames_lt := by
      intro g hg
      by_cases hg' : g = s.nextFrame
      · exact hg' ▸ Nat.lt_succ_self _
      · refine Nat.lt_succ_of_lt (I.frames_lt g ?_)
        rwa [← hlives g hg']
    destroyed := by
      intro g
      by_cases hg' : g = s.nextFrame
      · subst hg'
        refine (I.destroyed _).trans ?_
        simp [hself, hnone]
      · refine (I.destroyed g).trans ?_
        rw [hlives g hg'] }

/-- A live frame stays live. -/
theorem Owned.setLife (I : s.Owned hand) {l : Life} (hh : s.live h = true) (hl : l.live = true) :
    (s.setLife h l).Owned hand := by
  have hlives (g : Handle) (hg : g ≠ h) : (s.setLife h l).lives g = s.lives g :=
    Function.update_of_ne hg ..
  have hself : (s.setLife h l).lives h = l := Function.update_self ..
  have hlive (g : Handle) : (s.setLife h l).live g = s.live g := by
    by_cases hg : g = h
    · rw [hg, hh, Store.live, hself, hl]
    · rw [Store.live, hlives g hg, Store.live]
  exact { I with
    live := by
      intro g
      rw [hlive]
      exact I.live g
    places := by
      intro o x f hx hf
      rw [hlive]
      exact I.places o x f hx hf
    frames_lt := by
      intro g hg
      by_cases hg' : g = h
      · refine I.frames_lt g fun hnone => ?_
        simp [Store.live, ← hg', hnone, Life.live] at hh
      · exact I.frames_lt g (hlives g hg' ▸ hg)
    destroyed := by
      intro g
      refine (I.destroyed g).trans ?_
      by_cases hg' : g = h
      · subst hg'
        rw [hself]
        cases hlg : s.lives g <;> cases l <;> simp_all [Store.live, Life.live]
      · rw [hlives g hg'] }

end Store

end TinyCoroutine.Task
