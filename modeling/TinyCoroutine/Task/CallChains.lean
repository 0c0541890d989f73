import TinyCoroutine.Task.View
import Mathlib.Logic.Relation

/-!
# Who called whom

A frame that has started and not finished is the root of a chain of calls, or is awaited by
the frame its `caller_` names, and everybody further up the chain is inside a `co_await`
too. No destructor reaches such a frame, so what is going to be resumed is still there
(`FramesInv`).
-/
namespace TinyCoroutine.Task

open Relation (ReflTransGen)

variable {v w : View}

/-- From `h` the stored callers lead to `p`. -/
def Calls (v : View) : Handle → Handle → Prop :=
  ReflTransGen fun h p => (v.frames h).caller = some p

/-- A frame that has started is a root, or it is awaited and somebody has its `Task` object. -/
inductive Linked (v : View) (h : Handle) : Prop where
  | root : (v.frames h).owner = .detached → (v.frames h).caller = none → h ∈ v.accepted → Linked v h
  | inner {q} : (v.frames h).caller = some q → (v.frames q).status = .awaiting h →
      (v.frames h).owner ≠ .detached → Linked v h

structure FramesInv (v : View) : Prop where
  fresh : ∀ h, v.next ≤ h → v.frames h = {}
  midway : ∀ h, (v.frames h).status.midway = true → (v.frames h).finished = false ∧ Linked v h
  initial : ∀ h, (v.frames h).status = .initial → (v.frames h).finished = false ∧
    (v.frames h).caller = none ∧ ((v.frames h).owner = .detached → h ∈ v.accepted)
  current : ∀ p i, v.worker = .running p i → (v.frames i).status = .running ∧ Calls v i p
  running : ∀ i, (v.frames i).status = .running → ∃ p, v.worker = .running p i
  resumed : ∀ p, v.worker = .resumed p →
    (v.frames p).status.midway = true ∨ (v.frames p).status = .final ∧ p ∈ v.accepted
  destroy : ∀ p, v.worker = .destroy p → (v.frames p).status = .final ∧ p ∈ v.accepted
  places_nodup : v.places.Nodup
  places : ∀ h ∈ v.places, (v.frames h).status = .suspended ∨
    (v.frames h).status = .initial ∧ (v.frames h).owner = .detached
  accepted_nodup : v.accepted.Nodup
  accepted : ∀ h ∈ v.accepted, (v.frames h).owner = .detached ∧ (v.frames h).status ≠ .none

theorem FramesInv.init : FramesInv init.view := by
  constructor <;> simp [State.view, Task.init, Status.midway, State.places, handles,
    Runtime.Engine.ioHandles, Runtime.IoUring.awaiters]

/-! ### Chains of calls -/

theorem Calls.mono {a b : Handle} (h : Calls v a b)
    (hcaller : ∀ g q, (v.frames g).caller = some q → (w.frames g).caller = some q) : Calls w a b :=
  ReflTransGen.mono (fun g q => hcaller g q) a b h

/-- Everybody up the chain from a frame that has started is inside a `co_await`. -/
theorem FramesInv.calls_awaiting (I : FramesInv v) {a b : Handle} (h : Calls v a b)
    (hmid : (v.frames a).status.midway = true) :
    b = a ∨ ∃ x, (v.frames b).status = .awaiting x := by
  induction h with
  | refl => exact .inl rfl
  | @tail b c _ hstep ih =>
    have hb : (v.frames b).status.midway = true := by
      obtain rfl | ⟨x, hx⟩ := ih
      · exact hmid
      · simp [hx, Status.midway]
    cases (I.midway b hb).2 with
    | root _ hnone => simp [hstep] at hnone
    | inner hq hawait =>
      rw [hstep] at hq
      cases hq
      exact .inr ⟨b, hawait⟩

theorem FramesInv.calls_midway (I : FramesInv v) {a b : Handle} (h : Calls v a b)
    (hmid : (v.frames a).status.midway = true) : (v.frames b).status.midway = true := by
  obtain rfl | ⟨x, hx⟩ := I.calls_awaiting h hmid
  · exact hmid
  · simp [hx, Status.midway]

/-! ### Destruction -/

theorem owner_of_ownedBy {frames : Handle → Frame} {n : Nat} {g h : Handle}
    (howned : ownedBy frames n g h = true) : (∃ p, (frames g).owner = .frame p) ∨ g = h := by
  cases n with
  | zero => exact .inr (by simpa [ownedBy] using howned)
  | succ n =>
    simp only [ownedBy, Bool.or_eq_true, decide_eq_true_eq] at howned
    obtain rfl | hrest := howned
    · exact .inr rfl
    · split at hrest
      · rename_i p hp
        exact .inl ⟨p, hp⟩
      · cases hrest

/-- The destruction of `h` leaves what has started alone. -/
theorem FramesInv.frames_destroyFrame (I : FramesInv v) {h : Handle} (hspares : v.Spares h)
    (g : Handle) : (v.destroyFrame h).frames g = v.frames g ∨
      (v.destroyFrame h).frames g = { v.frames g with status := .destroyed } ∧
        (v.frames g).status.midway = false ∧ ((∃ p, (v.frames g).owner = .frame p) ∨ g = h) := by
  simp only [View.destroyFrame, destroyFrames]
  split
  · rename_i howned
    refine .inr ⟨rfl, ?_, owner_of_ownedBy howned⟩
    by_cases hlt : g < v.next
    · exact hspares g hlt howned
    · rw [I.fresh g (Nat.le_of_not_lt hlt)]
      rfl
  · exact .inl rfl

end TinyCoroutine.Task
