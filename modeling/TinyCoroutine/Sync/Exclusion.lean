import TinyCoroutine.Sync.Owning

/-!
# Exclusion with condition variables

What remains of mutual exclusion when tails may come at any time: the mutex may get lost,
so that it stays locked for ever, but it is never given to two parties.
-/
namespace TinyCoroutine.Sync

variable {s t : State} {a : Action}

/-- Any tail has the mutex up to its unlock, or until it has decided against it. -/
def Regime.anyTails : Regime where
  carries := fun _ τ => τ.stage = .test ∨ τ.stage = .unlocking
  lossy := True
  unlocking := .inr
  before := id

/-- What the guards say of a step, whatever the tails do. -/
theorem Owning.rules (I : Owning s) (hc : WaitsInside s a) : Rules .anyTails s a where
  fresh := I.fresh _ (Nat.le_refl _)
  freshTail := I.freshTail _ (Nat.le_refl _)
  unlocking {i g kind γ} hpc hγ := by
    obtain ⟨⟨γ', hγ', -, -, hin⟩, -⟩ : s.Has i g _ ∧ kind.Source s i g := by
      simpa [hpc, Pc.Keeps] using I.pcs i
    obtain rfl := Option.some.inj (hγ.symm.trans hγ')
    exact hin
  waits {i v g γ next} hw := by
    obtain ⟨hpc, hγ⟩ := hw.test_of_inside hc
    obtain ⟨γ', hγ', -, -, hin⟩ : s.Has i g _ := by simpa [hpc, Pc.Keeps] using I.pcs i
    obtain rfl := Option.some.inj (hγ.symm.trans hγ')
    exact ⟨hγ, iff_of_true (.inl rfl) hin⟩
  finishes hf := by
    obtain ⟨hγ, -, hsrc, -⟩ := I.finishing hf
    exact ⟨hγ, hsrc, fun _ => trivial⟩
  test _ hstage _ := .inr ⟨trivial, .inl hstage⟩
  steady _ _ _ _ _ := .rfl

structure KeptInv (s : State) : Prop where
  places : Places s
  owning : Owning s
  held : ∃ holder, Held .anyTails s holder

theorem KeptInv.init : KeptInv init := ⟨.init, .init, none, .init⟩

theorem KeptInv.preserved (I : KeptInv s) (hc : WaitsInside s a) (h : Transition s a t) :
    KeptInv t := by
  obtain ⟨P, O, holder, H⟩ := I
  exact ⟨P.preserved (O.freshTail _ (Nat.le_refl _)) h, O.preserved hc h,
    H.preserved P (O.rules hc) h⟩

end TinyCoroutine.Sync
