import Mathlib.Algebra.BigOperators.Group.Finset.Basic
import Mathlib.Algebra.Order.Group.Multiset
import Mathlib.Data.Fintype.Basic
import Mathlib.Tactic.Abel

/-!
# Objects that let their callers wait

An object on which callers wait, such as a mutex or a channel, is a state with operations. An
operation may park its caller in the object, or take others out of it and give them back to be
woken. `WaitQueues` asks for one law: whoever goes in is either still inside or has been given
back. Finitely many such objects together are one again (`WaitQueues.family`, `WaitQueues.prod`), so
what is proved of one object holds of a program that uses several of them.
-/
namespace TinyCoroutine.Foundation

/-- What one operation leaves behind: the object, whether the caller waits in it now, and the
callers that have to be woken. -/
structure Effect (σ H : Type*) where
  state : σ
  parks : Bool := false
  wakes : List H := []

/-- `run s h o` is the operation `o` of the caller `h`. -/
structure WaitQueues (H σ ω : Type*) where
  run : σ → H → ω → Option (Effect σ H)
  waiting : σ → Multiset H
  Valid : σ → Prop
  valid : ∀ {s h o e}, Valid s → run s h o = some e → Valid e.state
  conserved : ∀ {s h o e}, Valid s → run s h o = some e →
    waiting e.state + e.wakes = waiting s + if e.parks then {h} else 0
  alone : ∀ {s h o e}, Valid s → run s h o = some e → e.parks = true → e.wakes = []

namespace WaitQueues

variable {H : Type*}

/-- Objects side by side: an operation names the object it is for. -/
def family {ι : Type*} [Fintype ι] [DecidableEq ι] {σ ω : ι → Type*}
    (Q : ∀ i, WaitQueues H (σ i) (ω i)) : WaitQueues H (∀ i, σ i) (Σ i, ω i) where
  run s h o := ((Q o.1).run (s o.1) h o.2).map fun e =>
    { state := Function.update s o.1 e.state, parks := e.parks, wakes := e.wakes }
  waiting s := ∑ i, (Q i).waiting (s i)
  Valid s := ∀ i, (Q i).Valid (s i)
  valid := by
    intro s h o e hs he i
    obtain ⟨d, hd, rfl⟩ := Option.map_eq_some_iff.mp he
    by_cases hi : i = o.1
    · subst hi
      simpa using (Q o.1).valid (hs o.1) hd
    · simpa [Function.update_of_ne hi] using hs i
  conserved := by
    intro s h o e hs he
    obtain ⟨d, hd, rfl⟩ := Option.map_eq_some_iff.mp he
    have hone := (Q o.1).conserved (hs o.1) hd
    have hrest : ∑ i ∈ Finset.univ.erase o.1, (Q i).waiting (Function.update s o.1 d.state i) =
        ∑ i ∈ Finset.univ.erase o.1, (Q i).waiting (s i) := by
      refine Finset.sum_congr rfl fun i hi => ?_
      rw [Function.update_of_ne (Finset.ne_of_mem_erase hi)]
    dsimp only
    rw [← Finset.add_sum_erase _ _ (Finset.mem_univ o.1), hrest,
      ← Finset.add_sum_erase _ (fun i => (Q i).waiting (s i)) (Finset.mem_univ o.1),
      Function.update_self, add_right_comm, hone]
    abel
  alone := by
    intro s h o e hs he hparks
    obtain ⟨d, hd, rfl⟩ := Option.map_eq_some_iff.mp he
    exact (Q o.1).alone (hs o.1) hd hparks

/-- Objects of two kinds. -/
def prod {σ ω τ υ : Type*} (Q : WaitQueues H σ ω) (R : WaitQueues H τ υ) :
    WaitQueues H (σ × τ) (ω ⊕ υ) where
  run s h
    | .inl o => (Q.run s.1 h o).map fun e => { e with state := (e.state, s.2) }
    | .inr o => (R.run s.2 h o).map fun e => { e with state := (s.1, e.state) }
  waiting s := Q.waiting s.1 + R.waiting s.2
  Valid s := Q.Valid s.1 ∧ R.Valid s.2
  valid := by
    intro s h o e hs he
    cases o with
    | inl o =>
      obtain ⟨d, hd, rfl⟩ := Option.map_eq_some_iff.mp he
      exact ⟨Q.valid hs.1 hd, hs.2⟩
    | inr o =>
      obtain ⟨d, hd, rfl⟩ := Option.map_eq_some_iff.mp he
      exact ⟨hs.1, R.valid hs.2 hd⟩
  conserved := by
    intro s h o e hs he
    cases o with
    | inl o =>
      obtain ⟨d, hd, rfl⟩ := Option.map_eq_some_iff.mp he
      have hone := Q.conserved hs.1 hd
      dsimp only
      rw [add_right_comm, hone]
      abel
    | inr o =>
      obtain ⟨d, hd, rfl⟩ := Option.map_eq_some_iff.mp he
      have hone := R.conserved hs.2 hd
      dsimp only
      rw [add_assoc, hone]
      abel
  alone := by
    intro s h o e hs he hparks
    cases o with
    | inl o =>
      obtain ⟨d, hd, rfl⟩ := Option.map_eq_some_iff.mp he
      exact Q.alone hs.1 hd hparks
    | inr o =>
      obtain ⟨d, hd, rfl⟩ := Option.map_eq_some_iff.mp he
      exact R.alone hs.2 hd hparks

end WaitQueues

end TinyCoroutine.Foundation
