import TinyCoroutine.Task.Frames

/-!
# The frames that exist

A frame takes memory from its creation to its destruction, so that fewer than `2 ^ 64` exist at a
time. Of the accepted roots only those are gone that the worker has destroyed.
-/
namespace TinyCoroutine.Task

variable {v w : View}

theorem liveFrames_le {f f' : Handle → Frame} {n : Nat}
    (h : ∀ g < n, (f' g).status.live = true → (f g).status.live = true) :
    liveFrames f' n ≤ liveFrames f n :=
  List.countP_mono_left fun g hg => h g (List.mem_range.mp hg)

structure Housed (v : View) : Prop where
  room : liveFrames v.frames v.next + 1 < 2 ^ 64
  dead : ∀ h ∈ v.accepted, (v.frames h).status = .destroyed → h ∈ v.destroyed

theorem Housed.init : Housed init.view where
  room := by decide
  dead h hh := by cases hh

/-- A step in which no frame comes into being. -/
theorem Housed.frame (H : Housed v) (hnext : w.next = v.next)
    (hlive : ∀ g < v.next, (w.frames g).status.live = true → (v.frames g).status.live = true)
    (hdead : ∀ h ∈ w.accepted, (w.frames h).status = .destroyed →
      h ∈ v.accepted ∧ (v.frames h).status = .destroyed ∨ h ∈ w.destroyed)
    (hkept : ∀ h ∈ v.destroyed, h ∈ w.destroyed) : Housed w where
  room := by
    have hle := liveFrames_le hlive
    have hroom := H.room
    rw [hnext]
    omega
  dead h hh hd := by
    obtain ⟨hmem, hold⟩ | hnew := hdead h hh hd
    · exact hkept h (H.dead h hmem hold)
    · exact hnew

theorem Housed.create (H : Housed v) (I : FramesInv v) {owner : Owner}
    (hroom : liveFrames v.frames v.next + 2 < 2 ^ 64) :
    Housed { v.setFrame v.next { status := .initial, owner } with next := v.next + 1 } where
  room := by
    have hsame : liveFrames (v.setFrame v.next { status := .initial, owner }).frames v.next ≤
        liveFrames v.frames v.next := by
      refine liveFrames_le fun g hg hlive => ?_
      simpa only [View.setFrame, Function.update_of_ne hg.ne] using hlive
    simp only [liveFrames, List.range_succ, List.countP_append] at hsame ⊢
    have hone : List.countP (fun h => ((v.setFrame v.next
        { status := .initial, owner }).frames h).status.live) [v.next] ≤ 1 := List.countP_le_length
    simp only [liveFrames] at hroom
    omega
  dead h hh hd := by
    have hne : h ≠ v.next := by
      rintro rfl
      exact (I.accepted v.next hh).2 (by rw [I.fresh v.next (Nat.le_refl _)])
    simp only [View.setFrame, Function.update_of_ne hne] at hd
    exact H.dead h hh hd

/-- The frames that are destroyed with `h` are no other roots. -/
theorem Housed.destroyFrame (H : Housed v) (I : FramesInv v) {h : Handle} (hspares : v.Spares h)
    (hw : ∀ g, (w.frames g) = (v.destroyFrame h).frames g) (hnext : w.next = v.next)
    (hacc : w.accepted = v.accepted) (hkept : ∀ g ∈ v.destroyed, g ∈ w.destroyed)
    (hroot : h ∈ v.accepted → h ∈ w.destroyed) : Housed w := by
  have hframes := I.frames_destroyFrame hspares
  have haccepted := I.accepted
  refine H.frame hnext (fun g _ hg => ?_) (fun g hg hd => ?_) hkept
  · rw [hw g] at hg
    obtain hsame | ⟨hdead, -⟩ := hframes g
    · rwa [hsame] at hg
    · rw [hdead] at hg
      cases hg
  · rw [hw g] at hd
    rw [hacc] at hg
    obtain hsame | ⟨-, -, hframe | rfl⟩ := hframes g
    · exact .inl ⟨hg, hsame ▸ hd⟩
    · obtain ⟨p, hp⟩ := hframe
      simp [(I.accepted g hg).1] at hp
    · exact .inr (hroot hg)

theorem Housed.preserved (H : Housed v) (I : FramesInv v) (h : Rule v w) : Housed w := by
  cases h with
  | idle => exact H
  | loop | checkDone | complete =>
    exact H.frame rfl (fun _ _ => id) (fun h hh hd => .inl ⟨hh, hd⟩) (fun _ => id)
  | create hacts hroom => exact H.create I hroom
  | @drop who g hacts howner _ hspares =>
    refine H.destroyFrame I hspares (fun _ => rfl) rfl rfl (fun _ => id) fun hmem => ?_
    have hdet := (I.accepted g hmem).1
    obtain rfl | ⟨p, i, -, rfl⟩ := hacts <;> simp [hdet] at howner
  | destroy hw hspares =>
    exact H.destroyFrame I hspares (fun _ => rfl) rfl rfl (fun _ => List.mem_append_left _)
      fun _ => List.mem_append_right _ (List.mem_singleton_self _)
  | move hacts howner hlive hdest =>
    refine H.frame rfl ?_ ?_ (fun _ => id)
    all_goals
      simp only [View.setOwner, View.setFrame, Function.update_apply]
      grind
  | accept hacts howner hg =>
    refine H.frame rfl ?_ ?_ (fun _ => id)
    all_goals
      simp only [View.setOwner, View.setFrame, Function.update_apply, List.mem_append,
        List.mem_singleton]
      grind
  | @call p i g hw hg howner =>
    have hrun := (I.current p i hw).1
    refine H.frame rfl ?_ ?_ (fun _ => id)
    all_goals
      simp only [View.setStatus, View.setFrame, Function.update_apply]
      grind [Status.live]
  | @suspend p i hw | @finish p i hw hq =>
    have hrun := (I.current p i hw).1
    refine H.frame rfl ?_ ?_ (fun _ => id)
    all_goals
      simp only [View.setStatus, View.setFrame, Function.update_apply]
      grind [Status.live]
  | @resume h places hw hpop =>
    have hst := I.places h (by simp [hpop])
    refine H.frame rfl ?_ ?_ (fun _ => id)
    all_goals
      simp only [View.setStatus, View.setFrame, Function.update_apply]
      grind [Status.live]
  | @returnTo p i q hw hq hne =>
    have hrun := (I.current p i hw).1
    have hawait := I.caller_awaiting hw hq
    refine H.frame rfl ?_ ?_ (fun _ => id)
    all_goals
      simp only [View.setStatus, View.setFrame, Function.update_apply]
      grind [Status.live]

end TinyCoroutine.Task
