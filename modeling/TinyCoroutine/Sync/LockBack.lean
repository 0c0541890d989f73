import TinyCoroutine.Sync.Guards
import TinyCoroutine.Sync.Holding

/-!
# `wait` gives the lock back

When tails come first (`TailsFirst`), the tails that have the mutex are those that will find
`owns_lock_` set, the mutex is never lost, and `owns_lock_` of the guard that has it is set.
Without the condition, the tail of a `wait` may clear `owns_lock_` after the coroutine has
relocked (`tail_clears_relocked_guard`).
-/
namespace TinyCoroutine.Sync

open Foundation

variable {s t : State} {a : Action}

/-- The tail has still to unlock the mutex. -/
def Tail.carries (s : State) (τ : Tail) : Prop :=
  τ.stage = .unlocking ∨ τ.stage = .test ∧ ∃ γ, s.guards τ.guard = some γ ∧ γ.owns = true

def Regime.tailsFirst : Regime where
  carries := Tail.carries
  lossy := False
  unlocking := .inl
  before := by
    rintro s τ (h | ⟨h, -⟩)
    · exact .inr h
    · exact .inl h

/-- A tail whose guard keeps `owns_lock_`. -/
theorem Tail.carries_iff {τ : Tail} (h : τ.stage = .test →
    (t.guards τ.guard).map Guard.owns = (s.guards τ.guard).map Guard.owns) :
    τ.carries t ↔ τ.carries s := by
  have howns : ∀ u : State, (∃ γ, u.guards τ.guard = some γ ∧ γ.owns = true) ↔
      (u.guards τ.guard).map Guard.owns = some true := by simp
  refine or_congr .rfl (and_congr_right fun hstage => ?_)
  rw [howns, howns, h hstage]

section

variable {i g : Nat} {γ : Guard}

/-- A guard that is moved into a variable of coroutine `j` is not the guard of a tail. -/
theorem Guards.owns_transfer {k : Nat} {τ : Tail} (j : Nat) (I : Guards s)
    (hpc : (s.coros i).pc = .run) (hγ : s.guardOf i g = some γ) (hs : s.tails k = some τ)
    (hp : τ.pending) :
    (((s.setGuard s.nextGuard { γ with owner := j }).setGuard g
        { γ with owns := false, attached := false, inside := false }).guards τ.guard).map
      Guard.owns = (s.guards τ.guard).map Guard.owns := by
  obtain ⟨σ, hσ, -⟩ := I.tails k τ hs hp
  obtain ⟨hγ, howner, -⟩ := guardOf_eq_some.mp hγ
  have hidle := I.idle hγ (by simp [howner, hpc, Pc.relocks])
  have hnone := I.fresh s.nextGuard (Nat.le_refl _)
  simp only [State.setGuard, Function.update_apply]
  grind

theorem Guards.steady_transfer (j : Nat) (I : Guards s) (hpc : (s.coros i).pc = .run)
    (hγ : s.guardOf i g = some γ) :
    Steady .tailsFirst s { (s.setGuard s.nextGuard { γ with owner := j }).setGuard g
        { γ with owns := false, attached := false, inside := false } with
      nextGuard := s.nextGuard + 1 } := fun _ _ hs _ =>
  Tail.carries_iff fun hstage => I.owns_transfer j hpc hγ hs (by simp [Tail.pending, hstage])

end

theorem Guards.steady (I : Guards s) (hc : TailsFirst s a) (h : Transition s a t) :
    Steady .tailsFirst s t := by
  intro k τ hs ht
  refine Tail.carries_iff fun hstage => ?_
  have hp : τ.pending := by simp [Tail.pending, hstage]
  obtain ⟨σ, hσ, -⟩ := I.tails k τ hs hp
  cases h with
  | lockResume =>
    have hnone := I.fresh s.nextGuard (Nat.le_refl _)
    simp only [State.setPc, State.setCoro, State.setGuard, Function.update_apply]
    grind
  | @relockResume i g next γ inline _ hpc hγ =>
    have hover := I.over_of_tailsFirst hc hpc k τ hs
    simp only [State.setPc, State.setCoro, State.setGuard, Function.update_apply]
    grind
  | @move i g γ _ hpc hγ => exact I.owns_transfer γ.owner hpc hγ hs hp
  | @cvPush a i v g γ next _ hw =>
    obtain ⟨hγ, -⟩ := I.waiting hw
    simp only [State.cvPush, State.setCoro, State.setGuard, State.setTail, Function.update_apply]
    grind
  | @finish a i g γ kind _ hf =>
    obtain ⟨hγ, howner, -, -, hsrc, hrelocks, -⟩ := I.finishing hf
    have hidle := I.idle hγ (by rw [howner]; exact hrelocks g)
    cases kind with
    | unlock | drop =>
      simp only [State.finishRelease, State.setPc, State.setCoro, State.setGuard,
        Function.update_apply]
      grind
    | assign src =>
      obtain ⟨hne, ρ, hρ, hρowner, -⟩ := hsrc
      have hidle' := I.idle hρ (by rw [hρowner]; exact hrelocks src)
      simp only [State.finishRelease, hρ, State.setPc, State.setCoro, State.setGuard,
        Function.update_apply]
      grind
  | handOver _ _ hγ | free _ _ hγ =>
    simp only [State.setPc, State.setPlace, State.setCoro, State.setGuard, Function.update_apply]
    grind
  | @tailWrite j τ' γ inline hk hstage' hγ =>
    have hone := I.one k j τ τ' hs hk hp (by simp [Tail.pending, hstage'])
    simp only [State.setTail, State.setGuard, Function.update_apply] at ht ⊢
    grind
  | _ => rfl

/-- What the guards say of a step. -/
theorem Guards.rules (I : Guards s) (hc : TailsFirst s a) : Rules .tailsFirst s a where
  fresh := I.fresh _ (Nat.le_refl _)
  freshTail := I.freshTail _ (Nat.le_refl _)
  unlocking {i g kind γ} hpc hγ := by
    obtain ⟨⟨γ', hγ', -, -, hin⟩, -⟩ : s.Has i g _ ∧ kind.Source s i g := by
      simpa [hpc, Pc.GuardOk] using I.pcs i
    obtain rfl := Option.some.inj (hγ.symm.trans hγ')
    exact hin
  waits {i v g γ next} hw := by
    obtain ⟨hγ, howner, halive, -, hrelocks, hreleasing⟩ := I.waiting hw
    have htrue := I.truthful hγ halive (by rw [howner]; exact hrelocks g)
      (by rw [howner]; exact hreleasing g)
    refine ⟨hγ, ?_⟩
    simp [Regime.tailsFirst, Tail.carries, State.cvPush, State.setTail, State.setGuard, htrue]
  finishes hf := by
    obtain ⟨hγ, -, -, hin, hsrc, -⟩ := I.finishing hf
    exact ⟨hγ, hsrc, by simp [hin]⟩
  test {k τ γ} hk hstage hγ := by
    refine .inl ?_
    rw [I.test_eq hγ]
    simp [Regime.tailsFirst, Tail.carries, hstage, hγ]
  steady := I.steady hc

structure HeldInv (s : State) : Prop where
  places : Places s
  guards : Guards s
  held : ∃ holder, Held .tailsFirst s holder

theorem HeldInv.init : HeldInv init := ⟨.init, .init, none, .init⟩

theorem HeldInv.preserved (I : HeldInv s) (hc : TailsFirst s a) (h : Transition s a t) :
    HeldInv t := by
  obtain ⟨P, G, holder, H⟩ := I
  exact ⟨P.preserved (G.freshTail _ (Nat.le_refl _)) h, G.preserved hc h,
    H.preserved P (G.rules hc) h⟩

theorem HeldInv.of_run (h : Run step TailsFirst Sync.init s) : HeldInv s :=
  h.invariant .init fun I hc ht => I.preserved hc (step_transition ht)

/-- While a coroutine is inside its critical section, in particular after a `wait` has
returned, the mutex is locked, nobody else is inside, and its guard is going to release. -/
def LockGivenBack (s : State) : Prop :=
  ∀ g γ, s.guards g = some γ → γ.inside = true →
    s.lock = true ∧ γ.owns = true ∧ γ.attached = true ∧
      ∀ g' γ', s.guards g' = some γ' → γ'.inside = true → g' = g

theorem Guards.owns_of_inside (I : Guards s) {g : Nat} {γ : Guard} (hγ : s.guards g = some γ)
    (hin : γ.inside = true) : γ.owns = true := by
  by_contra howns
  have halive : γ.alive = true := by
    by_contra hdead
    simp [I.dead g γ hγ (by simpa using hdead)] at hin
  have hfalse := (I.owns g γ hγ halive fun heq => howns (heq.trans hin)).1
  simp [hin] at hfalse

theorem HeldInv.lockGivenBack (I : HeldInv s) : LockGivenBack s := by
  obtain ⟨P, G, holder, H⟩ := I
  intro g γ hγ hin
  have howns := G.owns_of_inside hγ hin
  obtain rfl := (H.guard g γ hγ).mp hin
  refine ⟨by simp [H.lock], howns, G.attached g γ hγ howns, fun g' γ' hγ' hin' => ?_⟩
  have hsame := (H.guard g' γ' hγ').mp hin'
  simpa using hsame.symm

theorem wait_gives_lock_back (h : Run step TailsFirst init s) : LockGivenBack s :=
  (HeldInv.of_run h).lockGivenBack

/-- Coroutine `0` waits, its `await_suspend` ends, coroutine `1` notifies it under the mutex
and unlocks, and the `wait` returns. -/
theorem wait_gives_lock_back_notified :
    ∃ s, Run step TailsFirst init s ∧ (s.coros 0).pc = .run ∧
      s.guards 0 = some { owner := 0, inside := true } ∧ LockGivenBack s := by
  obtain ⟨s, hs, hpc, hguard⟩ := exists_run step TailsFirst init
    [.op 0 .lock, .step 0 false, .op 0 (.wait 0 0), .tail 0 false, .tail 0 false, .tail 0 false,
      .op 1 .lock, .step 1 false, .op 1 (.notifyOne 0), .step 1 false, .step 1 false,
      .resume 0, .step 0 false, .op 1 (.release 1 .unlock), .step 1 false, .step 1 false,
      .step 1 false, .resume 0, .step 0 false]
    (fun s => (s.coros 0).pc = .run ∧ s.guards 0 = some { owner := 0, inside := true }) (by decide)
  exact ⟨s, hs, hpc, hguard, wait_gives_lock_back hs⟩

/-- The tail of the `wait` is still to clear `owns_lock_` when the coroutine has relocked on
another worker: the guard will never release the mutex. -/
theorem tail_clears_relocked_guard :
    ¬ ∀ s, Run step Always init s → LockGivenBack s := by
  intro h
  obtain ⟨s, hs, hguard⟩ := exists_run step Always init
    [.op 0 .lock, .step 0 false, .op 0 (.wait 0 0), .op 1 (.notifyOne 0), .step 1 false,
      .tail 0 false, .tail 0 false, .resume 0, .step 0 false, .step 0 false, .tail 0 false]
    (fun s => s.guards 0 = some { owner := 0, owns := false }) (by decide)
  have hback := h s hs 0 _ hguard rfl
  simp at hback

end TinyCoroutine.Sync
