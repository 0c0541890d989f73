import TinyCoroutine.Task.Ownership
import Mathlib.Data.Finset.Card

/-!
# What the destructor of a `Task` destroys

`handle.destroy()` ends a whole tree: the frame, the frames owned by the objects in it, and so on
(`Below`). The recursion meets every frame of the tree once, and it is defined when none of them is
running.
-/
namespace TinyCoroutine.Task

namespace Store

/-- Frame `g` is one of `roots`, or owned by an object in a frame below them. -/
inductive Below (s : Store) (roots : List Handle) : Handle → Prop where
  | root {g} : g ∈ roots → Below s roots g
  | inner {f g o x} : Below s roots f → s.objects o = some x → x.place = some f →
      x.handler = some g → Below s roots g

variable {s t : Store} {o : Nat} {x : Object} {f g h : Handle} {todo : List Handle}

/-! ### One frame -/

theorem objects_kill : (s.kill h).objects o = some x ↔
    s.objects o = some x ∧ x.place ≠ some h := by
  simp [kill, Option.filter_eq_some_iff]

theorem lives_kill_self : (s.kill h).lives h = .destroyed := Function.update_self ..

theorem lives_kill_of_ne (hg : g ≠ h) : (s.kill h).lives g = s.lives g :=
  Function.update_of_ne hg ..

theorem live_kill : (s.kill h).live g = true ↔ g ≠ h ∧ s.live g = true := by
  by_cases hg : g = h
  · subst hg
    simp [Store.live, lives_kill_self, Life.live]
  · simp [Store.live, lives_kill_of_ne hg, hg]

theorem mem_ownedIn (hlt : ∀ o x, s.objects o = some x → o < s.nextObject) :
    g ∈ s.ownedIn h ↔
      ∃ o x, s.objects o = some x ∧ x.place = some h ∧ x.handler = some g := by
  simp only [ownedIn, List.mem_filterMap, List.mem_reverse, List.mem_range,
    Option.bind_eq_some_iff]
  constructor
  · rintro ⟨o, -, x, hx, hg⟩
    split at hg
    · exact ⟨o, x, hx, ‹_›, hg⟩
    · cases hg
  · rintro ⟨o, x, hx, hplace, hg⟩
    exact ⟨o, hlt o x hx, x, hx, by rw [if_pos hplace, hg]⟩

theorem nodup_ownedIn (I : s.Owned todo) (h : Handle) : (s.ownedIn h).Nodup := by
  refine (List.nodup_reverse.mpr List.nodup_range).filterMap ?_
  intro o o' g hg hg'
  have hhas {o : Nat} (hg : g ∈ (s.objects o).bind fun x =>
      if x.place = some h then x.handler else none) : s.Has todo (.object o) g := by
    obtain ⟨x, hx, hg⟩ := Option.bind_eq_some_iff.mp hg
    split at hg
    · simp [Has, hx, hg]
    · cases hg
  have := I.unique _ _ g (hhas hg) (hhas hg')
  simpa using this

/-- What holds a handle after the end of frame `h`. -/
def evict (s : Store) (h : Handle) : Holder → Handle → Holder
  | .object o, _ => if (s.objects o).bind Object.place = some h then .hand else .object o
  | w, _ => w

/-- The end of a frame: the code now has the handles of the objects in it. -/
theorem Owned.kill (I : s.Owned (h :: todo)) : (s.kill h).Owned (s.ownedIn h ++ todo) := by
  have hhand : ∀ g, g ∈ s.ownedIn h ↔ ∃ o x, s.objects o = some x ∧ x.place = some h ∧
      x.handler = some g := fun g => mem_ownedIn I.objects_lt
  have hhas {o : Nat} {x : Object} {g : Handle} (hx : s.objects o = some x)
      (hg : x.handler = some g) : s.Has (h :: todo) (.object o) g := by simp [Has, hx, hg]
  have hself (w : Holder) (hw : s.Has (h :: todo) w h) : w = .hand :=
    I.unique w .hand h hw List.mem_cons_self
  obtain ⟨hnot, htodo⟩ := List.nodup_cons.mp I.nodup_hand
  have hm : Moves s (h :: todo) (s.kill h) (s.ownedIn h ++ todo) (· ≠ h) (s.evict h) := by
    constructor
    · intro w g hw
      cases w with
      | object o =>
        obtain ⟨x, hkill, hg⟩ := Option.bind_eq_some_iff.mp hw
        obtain ⟨hx, hplace⟩ := objects_kill.mp hkill
        refine ⟨fun hgh => ?_, .object o, by simp [evict, hx, hplace], hhas hx hg⟩
        cases hself _ (hgh ▸ hhas hx hg)
      | released =>
        refine ⟨?_, .released, rfl, hw⟩
        rintro rfl
        cases hself .released hw
      | hand =>
        rcases List.mem_append.mp hw with hg | hg
        · obtain ⟨o, x, hx, hplace, hg⟩ := (hhand g).mp hg
          refine ⟨fun hgh => ?_, .object o, by simp [evict, hx, hplace], hhas hx hg⟩
          cases hself _ (hgh ▸ hhas hx hg)
        · refine ⟨?_, .hand, rfl, List.mem_cons_of_mem _ hg⟩
          rintro rfl
          exact hnot hg
    · intro w g hw hne
      cases w with
      | object o =>
        obtain ⟨x, hx, hg⟩ := Option.bind_eq_some_iff.mp hw
        by_cases hplace : x.place = some h
        · simp only [evict, hx, Option.bind_some, hplace, if_true]
          exact List.mem_append_left _ ((hhand g).mpr ⟨o, x, hx, hplace, hg⟩)
        · simp only [evict, hx, Option.bind_some, hplace, if_false]
          exact Option.bind_eq_some_iff.mpr ⟨x, objects_kill.mpr ⟨hx, hplace⟩, hg⟩
      | released => exact hw
      | hand => exact List.mem_append_right _ ((List.mem_cons.mp hw).resolve_left hne)
  exact {
    unique := hm.unique I
    live := fun g => hm.live I live_kill
    nodup_released := I.nodup_released
    nodup_hand := by
      refine List.nodup_append.mpr ⟨nodup_ownedIn I h, htodo, ?_⟩
      rintro g hg g' hg' rfl
      obtain ⟨o, x, hx, -, hg⟩ := (hhand g).mp hg
      cases I.unique _ .hand g (hhas hx hg) (List.mem_cons_of_mem _ hg')
    places := by
      intro o x f hx hf
      obtain ⟨hx, hplace⟩ := objects_kill.mp hx
      refine live_kill.mpr ⟨?_, I.places o x f hx hf⟩
      rintro rfl
      exact hplace hf
    objects_lt := fun o x hx => I.objects_lt o x (objects_kill.mp hx).1
    frames_lt := by
      intro g hg
      by_cases hgh : g = h
      · have hlive := (I.live h).mpr ⟨.hand, List.mem_cons_self⟩
        refine I.frames_lt g fun hnone => ?_
        simp [Store.live, ← hgh, hnone, Life.live] at hlive
      · exact I.frames_lt g (lives_kill_of_ne hgh ▸ hg)
    nodup_destroyed := by
      refine List.nodup_append.mpr ⟨I.nodup_destroyed, List.nodup_singleton h, ?_⟩
      rintro g hg g' hg' rfl
      rw [List.mem_singleton.mp hg'] at hg
      have hlive := (I.live h).mpr ⟨.hand, List.mem_cons_self⟩
      simp [Store.live, (I.destroyed h).mp hg, Life.live] at hlive
    destroyed := by
      intro g
      by_cases hgh : g = h
      · subst hgh
        simp [Store.kill, Store.setLife]
      · rw [lives_kill_of_ne hgh, ← I.destroyed g]
        simp [Store.kill, hgh] }

theorem below_kill (hlt : ∀ o x, s.objects o = some x → o < s.nextObject) :
    Below s (h :: todo) g ↔ g = h ∨ Below (s.kill h) (s.ownedIn h ++ todo) g := by
  constructor
  · intro hb
    induction hb with
    | root hg =>
      rcases List.mem_cons.mp hg with rfl | hg
      · exact .inl rfl
      · exact .inr (.root (List.mem_append_right _ hg))
    | @inner f g o x _ hx hplace hg ih =>
      right
      by_cases hf : f = h
      · subst hf
        exact .root (List.mem_append_left _ ((mem_ownedIn hlt).mpr ⟨o, x, hx, hplace, hg⟩))
      · refine .inner (ih.resolve_left hf) (objects_kill.mpr ⟨hx, ?_⟩) hplace hg
        rw [hplace]
        exact fun heq => hf (Option.some.inj heq)
  · rintro (rfl | hb)
    · exact .root List.mem_cons_self
    · induction hb with
      | root hg =>
        rcases List.mem_append.mp hg with hg | hg
        · obtain ⟨o, x, hx, hplace, hg⟩ := (mem_ownedIn hlt).mp hg
          exact .inner (.root List.mem_cons_self) hx hplace hg
        · exact .root (List.mem_cons_of_mem _ hg)
      | inner _ hx hplace hg ih => exact .inner ih (objects_kill.mp hx).1 hplace hg

/-! ### The whole tree -/

theorem Owned.lives_hand (I : s.Owned (h :: todo)) (hrun : s.lives h ≠ .running) :
    s.lives h = .suspended ∨ s.lives h = .final := by
  have hlive := (I.live h).mpr ⟨.hand, List.mem_cons_self⟩
  rw [Store.live] at hlive
  cases hl : s.lives h with
  | suspended => exact .inl rfl
  | final => exact .inr rfl
  | running => exact absurd hl hrun
  | none | destroyed => simp [hl, Life.live] at hlive

theorem not_below_nil : ¬ Below s [] g := by
  intro hb
  induction hb with
  | root hg => cases hg
  | inner _ _ _ _ ih => exact ih

/-- What a destruction that is defined leaves behind. -/
theorem Owned.destroy {n : Nat} (I : s.Owned todo) (hd : destroy n s todo = some t) :
    t.Owned [] ∧ (∀ g, Below s todo g → s.lives g ≠ .running) ∧
      ∀ o x, t.objects o = some x ↔
        s.objects o = some x ∧ ∀ f, x.place = some f → ¬ Below s todo f := by
  induction n, s, todo using destroy.induct with
  | case1 n s =>
    rw [Store.destroy] at hd
    cases hd
    exact ⟨I, fun g hg => absurd hg not_below_nil, fun o x => by simp [not_below_nil]⟩
  | case2 s h todo =>
    rw [Store.destroy] at hd
    cases hd
  | case3 n s h todo hlife ih =>
    rw [Store.destroy, if_pos hlife] at hd
    obtain ⟨It, hrun, hobjects⟩ := ih I.kill hd
    refine ⟨It, fun g hg => ?_, fun o x => ?_⟩
    · by_cases hgh : g = h
      · subst hgh
        rcases hlife with hlife | hlife <;> simp [hlife]
      · have hne := hrun g (((below_kill I.objects_lt).mp hg).resolve_left hgh)
        rwa [lives_kill_of_ne hgh] at hne
    · rw [hobjects, objects_kill]
      constructor
      · rintro ⟨⟨hx, hplace⟩, hnot⟩
        refine ⟨hx, fun f hf hb => ?_⟩
        rcases (below_kill I.objects_lt).mp hb with rfl | hb
        · exact hplace hf
        · exact hnot f hf hb
      · rintro ⟨hx, hnot⟩
        exact ⟨⟨hx, fun hf => hnot h hf (.root List.mem_cons_self)⟩, fun f hf hb =>
          hnot f hf ((below_kill I.objects_lt).mpr (.inr hb))⟩
  | case4 n s h todo hlife =>
    rw [Store.destroy, if_neg hlife] at hd
    cases hd

/-- The destruction ends the frames of the tree and no others. -/
theorem Owned.lives_destroy {n : Nat} (I : s.Owned todo) (hd : Store.destroy n s todo = some t) :
    (Below s todo g → t.lives g = .destroyed) ∧ (¬ Below s todo g → t.lives g = s.lives g) := by
  induction n, s, todo using Store.destroy.induct with
  | case1 n s =>
    rw [Store.destroy] at hd
    cases hd
    exact ⟨fun hg => absurd hg not_below_nil, fun _ => rfl⟩
  | case2 s h todo =>
    rw [Store.destroy] at hd
    cases hd
  | case3 n s h todo hlife ih =>
    rw [Store.destroy, if_pos hlife] at hd
    obtain ⟨hbelow, hrest⟩ := ih I.kill hd
    rw [below_kill I.objects_lt]
    by_cases hb : Below (s.kill h) (s.ownedIn h ++ todo) g
    · exact ⟨fun _ => hbelow hb, fun hnot => absurd (.inr hb) hnot⟩
    · refine ⟨fun hg => ?_, fun hnot => ?_⟩
      · obtain rfl := hg.resolve_right hb
        rw [hrest hb, lives_kill_self]
      · rw [hrest hb, lives_kill_of_ne fun hgh => hnot (.inl hgh)]
  | case4 n s h todo hlife =>
    rw [Store.destroy, if_neg hlife] at hd
    cases hd

/-- The number of live frames: each step of the recursion ends one. -/
def liveCount (s : Store) : Nat := ((Finset.range s.nextFrame).filter fun h => s.live h).card

theorem Owned.liveCount_kill (I : s.Owned (h :: todo)) :
    (s.kill h).liveCount + 1 = s.liveCount := by
  have hlive : s.live h = true := (I.live h).mpr ⟨.hand, List.mem_cons_self⟩
  have hlt : h < s.nextFrame := by
    refine I.frames_lt h fun hnone => ?_
    simp [Store.live, hnone, Life.live] at hlive
  have hmem : h ∈ (Finset.range s.nextFrame).filter fun h => s.live h := by simp [hlt, hlive]
  have herase : ((Finset.range s.nextFrame).filter fun g => (s.kill h).live g) =
      ((Finset.range s.nextFrame).filter fun h => s.live h).erase h := by
    ext g
    simp only [Finset.mem_filter, Finset.mem_erase, live_kill]
    exact and_left_comm
  rw [liveCount, liveCount, show (s.kill h).nextFrame = s.nextFrame from rfl, herase]
  exact Finset.card_erase_add_one hmem

/-- The destruction of a tree in which nothing runs is defined. -/
theorem Owned.exists_destroy {n : Nat} (I : s.Owned todo) (hn : s.liveCount ≤ n)
    (hrun : ∀ g, Below s todo g → s.lives g ≠ .running) : ∃ t, Store.destroy n s todo = some t := by
  induction n, s, todo using Store.destroy.induct with
  | case1 n s => exact ⟨s, by rw [Store.destroy]⟩
  | case2 s h todo =>
    have := I.liveCount_kill
    omega
  | case3 n s h todo hlife ih =>
    rw [Store.destroy, if_pos hlife]
    have hcount := I.liveCount_kill
    refine ih I.kill (by omega) fun g hg => ?_
    by_cases hgh : g = h
    · subst hgh
      simp [lives_kill_self]
    · rw [lives_kill_of_ne hgh]
      exact hrun g ((below_kill I.objects_lt).mpr (.inr hg))
  | case4 n s h todo hlife =>
    exact absurd (I.lives_hand (hrun h (.root List.mem_cons_self))) hlife

theorem liveCount_le : s.liveCount ≤ s.nextFrame := by
  refine (Finset.card_filter_le ..).trans ?_
  rw [Finset.card_range]

end Store

end TinyCoroutine.Task
