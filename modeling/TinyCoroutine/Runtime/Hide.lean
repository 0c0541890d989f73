import TinyCoroutine.Runtime.Ledger

/-!
# Hiding coroutines from the ledger

A coroutine that something other than a worker runs is, for the ledger, as good as parked:
nobody but its runner has a mark on it. `Ledger.hide` takes this view of a list of coroutines,
and a step of the ledger is a step of the ledger with these hidden.
-/
namespace TinyCoroutine.Runtime

variable {g h : Handle}

namespace Ledger

variable {L L' : Ledger} {out new M : Multiset Mark} {o : List Handle}

/-- The ledger in which the coroutines `o` are parked. -/
def hide (L : Ledger) (o : List Handle) : Ledger :=
  { L with
    marks := L.marks + (o : Multiset Handle).map (Mark.mk (.waiting .parked))
    frames := fun h => if h ∈ o then { L.frames h with status := .suspended } else L.frames h }

theorem Exchange.hide (hex : L.Exchange out new M) :
    (L.hide o).Exchange out new (M + (o : Multiset Handle).map (Mark.mk (.waiting .parked))) := by
  have hm : M + out = L.marks + new := hex
  rw [Exchange, Ledger.hide, add_right_comm, hm, add_right_comm]

/-- A mark of another stage belongs to a coroutine that is not hidden. -/
theorem not_hidden (hb : (L.hide o).Balanced) {m : Mark} (hm : m ∈ L.marks)
    (hk : m.stage.kind ≠ .resumed) : m.handle ∉ o := by
  intro ho
  have hok := hb m.handle
  have hpos := tally_pos hm
  have hparked : 0 < tally ((o : Multiset Handle).map (Mark.mk (.waiting .parked))) .waiting
      m.handle := tally_pos (m := ⟨.waiting .parked, m.handle⟩) (Multiset.mem_map_of_mem _ ho)
  have hst : ((L.hide o).frames m.handle).status = .suspended := by simp [hide, ho]
  rw [hst] at hok
  simp only [Entry.Ok, entry, hide, tally_add] at hok
  cases hs : m.stage <;> simp only [hs, Stage.kind] at hpos hk <;> first | omega | simp at hk

theorem frames_hide_of_notMem (ho : h ∉ o) : (L.hide o).frames h = L.frames h := by
  simp [hide, ho]

/-- A step on a coroutine that is not hidden. -/
theorem hide_setStatus (ho : h ∉ o) (status : FrameStatus) :
    (fun g => if g ∈ o then { L.setStatus h status g with status := .suspended }
      else L.setStatus h status g) = (L.hide o).setStatus h status := by
  funext g
  by_cases hg : g = h
  · subst hg
    simp [setStatus, hide, ho]
  · simp [setStatus, hide, Function.update_of_ne hg]

/-- The ledger after a step on a coroutine that is not hidden. -/
theorem hide_step_frames (ho : h ∉ o) (status : FrameStatus) (pending : Nat)
    (accepted completed destroyed : List Handle) (outstanding : Nat) :
    ({ marks := M, frames := L.setStatus h status, pending, accepted, completed, destroyed,
       outstanding } : Ledger).hide o =
      { marks := M + (o : Multiset Handle).map (Mark.mk (.waiting .parked))
        frames := (L.hide o).setStatus h status
        pending, accepted, completed, destroyed, outstanding } := by
  rw [← hide_setStatus ho]
  rfl

theorem setStatus_of_hidden (ho : h ∉ o) (status : FrameStatus) :
    ∀ g ∈ o, L.setStatus h status g = L.frames g := by
  intro g hg
  refine setStatus_of_ne status ?_
  rintro rfl
  exact ho hg

/-- A step of the runtime does not notice the coroutines that run outside. -/
theorem Step.hide (hb : (L.hide o).Balanced) (hrun : ∀ h ∈ o, (L.frames h).status = .running)
    (hstep : Step NoLag L L') :
    Step NoLag (L.hide o) (L'.hide o) ∧ ∀ h ∈ o, L'.frames h = L.frames h := by
  have hfresh : ∀ {h : Handle}, (L.frames h).status = .none → h ∉ o := by
    intro h hnone ho
    rw [hrun h ho] at hnone
    cases hnone
  have hmark : ∀ {st : Stage} {h : Handle} {new M : Multiset Mark},
      L.Exchange {⟨st, h⟩} new M → ⟨st, h⟩ ∉ new → st.kind ≠ .resumed → h ∉ o :=
    fun hex hn hk => not_hidden hb (hex.mem_out (Multiset.mem_singleton_self _) hn) hk
  cases hstep with
  | idle => exact ⟨.idle, fun _ _ => rfl⟩
  | @create h M hnone hroom hex =>
    have ho := hfresh hnone
    refine ⟨?_, setStatus_of_hidden ho _⟩
    rw [hide_step_frames ho]
    exact .create (by rwa [frames_hide_of_notMem ho]) hroom hex.hide
  | @reject h M hex =>
    have ho := hmark hex (by simp) (by simp [Stage.kind])
    refine ⟨?_, setStatus_of_hidden ho _⟩
    rw [hide_step_frames ho]
    exact .reject hex.hide
  | accept hex => exact ⟨.accept hex.hide, fun _ _ => rfl⟩
  | @spawn h c M hnone hroom hex =>
    have ho := hfresh hnone
    refine ⟨?_, setStatus_of_hidden ho _⟩
    rw [hide_step_frames ho]
    exact .spawn (by rwa [frames_hide_of_notMem ho]) hroom hex.hide
  | move hs hmove hex => exact ⟨.move hs hmove hex.hide, fun _ _ => rfl⟩
  | @resume c h M hlag hfree hex =>
    have ho := hmark hex (by simp) (by simp [Stage.kind])
    have hne : ∀ g ∈ o, g ≠ h := by
      rintro g hg rfl
      exact ho hg
    refine ⟨?_, fun g hg => Function.update_of_ne (hne g hg) ..⟩
    have hframes : ({ L with marks := M, frames := Function.update L.frames h ⟨.running, some c⟩ } :
        Ledger).hide o = { L.hide o with
          marks := M + (o : Multiset Handle).map (Mark.mk (.waiting .parked))
          frames := Function.update (L.hide o).frames h ⟨.running, some c⟩ } := by
      simp only [Ledger.hide]
      congr 1
      funext g
      by_cases hg : g = h
      · subst hg
        simp [ho]
      · simp [Function.update_of_ne hg]
    rw [hframes]
    refine .resume ?_ ?_ hex.hide
    · rw [NoLag, Ledger.hide, tally_add, tally_waiting, if_neg (by simp), add_zero]
      exact hlag
    · intro m hm
      rcases Multiset.mem_add.mp hm with hm | hm
      · exact hfree m hm
      · obtain ⟨g, -, rfl⟩ := Multiset.mem_map.mp hm
        simp [Stage.worker]
  | @suspend c h p M hp hpark hex =>
    have ho := hmark hex (by simp) (by simp [Stage.kind])
    refine ⟨?_, setStatus_of_hidden ho _⟩
    rw [hide_step_frames ho]
    exact .suspend hp (fun _ => trivial) hex.hide
  | @finish c h M hex =>
    have ho := hmark hex (by simp) (by simp [Stage.kind])
    refine ⟨?_, setStatus_of_hidden ho _⟩
    rw [hide_step_frames ho]
    exact .finish hex.hide
  | @notDone c h M hst hex =>
    refine ⟨.notDone ?_ hex.hide, fun _ _ => rfl⟩
    by_cases ho : h ∈ o
    · simp [Ledger.hide, ho]
    · rwa [frames_hide_of_notMem ho]
  | @done c h M hst hex =>
    refine ⟨.done ?_ hex.hide, fun _ _ => rfl⟩
    have ho : h ∉ o := by
      intro ho
      simp [hrun h ho] at hst
    rwa [frames_hide_of_notMem ho]
  | @destroy c h M hex =>
    have ho := hmark hex (by simp) (by simp [Stage.kind])
    refine ⟨?_, setStatus_of_hidden ho _⟩
    rw [hide_step_frames ho]
    exact .destroy hex.hide
  | complete hex => exact ⟨.complete hex.hide, fun _ _ => rfl⟩

end Ledger

end TinyCoroutine.Runtime
