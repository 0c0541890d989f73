import TinyCoroutine.Sync.GuardPlaces

/-!
# The operations on guards keep the invariant

One rule for each operation that creates, changes, moves or ends a guard, and for the writes of
the tails.
-/
namespace TinyCoroutine.Sync

variable {s t : State} {a : Action}

section

variable {i g : Nat} {γ : Guard} {next : After} {kind : Release}

theorem Guards.lockResume (I : Guards s) (hpc : (s.coros i).pc = .lockResume) :
    Guards { (s.setGuard s.nextGuard { owner := i }).setPc i .run with
      nextGuard := s.nextGuard + 1 } := by
  have hnone := I.fresh s.nextGuard (Nat.le_refl _)
  have hfresh := I.fresh
  refine I.setGuards (i := i) ?_ ?_ rfl rfl ?_ ?_ ?_ ?_
  · intro j hj
    simp [State.setPc, State.setCoro, State.setGuard, hj]
  · simp [State.setPc, State.setCoro, Pc.GuardOk]
  · simp only [State.setPc, State.setCoro, State.setGuard, Function.update_apply]
    grind
  · simp only [State.setPc, State.setCoro, State.setGuard, Function.update_apply]
    grind
  · intro h σ hσ ho
    simp only [State.setPc, State.setCoro, State.setGuard, Function.update_apply] at hσ
    split at hσ
    · cases hσ
      exact .inl (.of_eq rfl (fun _ => rfl) (by simp))
    · exact .inr ⟨hσ, by simp [hpc, Pc.releasing]⟩
  · simp [hpc, Pc.relocks]

theorem Guards.relockResume (I : Guards s) (hpc : (s.coros i).pc = .relockResume g next)
    (hγ : s.guards g = some γ)
    (hover : ∀ k τ, s.tails k = some τ → τ.guard = g → ¬ τ.pending) :
    Guards ((s.setGuard g { γ with owns := true, inside := true }).setPc i (next.pc g)) := by
  obtain ⟨γ', hγ', howner, halive, hatt, -⟩ : s.Has i g _ := by
    simpa [hpc, Pc.GuardOk] using I.pcs i
  obtain rfl := Option.some.inj (hγ.symm.trans hγ')
  have hfresh := I.fresh
  refine I.setGuards (i := i) ?_ ?_ rfl rfl ?_ ?_ ?_ ?_
  · intro j hj
    simp [State.setPc, State.setCoro, State.setGuard, hj]
  · cases next with
    | run => simp [State.setPc, State.setCoro, Pc.GuardOk, After.pc]
    | test v =>
      simp only [State.setPc, State.setCoro, State.setGuard, Function.update_self, After.pc,
        Pc.GuardOk]
      exact ⟨_, Function.update_self .., howner, halive, hatt⟩
  · simp only [State.setPc, State.setCoro, State.setGuard, Function.update_apply]
    grind
  · simp only [State.setPc, State.setCoro, State.setGuard, Function.update_apply]
    grind
  · intro h σ hσ ho
    simp only [State.setPc, State.setCoro, State.setGuard, Function.update_apply] at hσ
    split at hσ
    · cases hσ
      exact .inl (.of_eq rfl (fun _ => hatt) (by simp [halive]))
    · exact .inr ⟨hσ, by simp [hpc, Pc.releasing]⟩
  · intro k τ hk hp
    by_contra hrel
    simp only [hpc, Pc.relocks, decide_eq_true_eq, Bool.not_eq_false] at hrel
    exact hover k τ hk hrel.symm hp

/-- The section of `AsyncMutex::unlock` in a release through guard `g`. -/
theorem Guards.unlock (pc : Pc) (I : Guards s) (hpc : (s.coros i).pc = .unlocking g kind)
    (hγ : s.guards g = some γ)
    (ht : t.guards = Function.update s.guards g (some { γ with inside := false }))
    (htails : t.tails = s.tails) (hnext : t.nextTail = s.nextTail)
    (hnextGuard : t.nextGuard = s.nextGuard)
    (hcoros : ∀ j, (t.coros j).pc = if j = i then pc else (s.coros j).pc)
    (hok : ∀ u : State, u.Has i g (fun γ => γ.inside = false) → kind.Source u i g → pc.GuardOk u i)
    (hrel : pc.releasing g = true) : Guards t := by
  obtain ⟨⟨γ', hγ', howner, halive, hin⟩, hsrc⟩ : s.Has i g _ ∧ kind.Source s i g := by
    simpa [hpc, Pc.GuardOk] using I.pcs i
  obtain rfl := Option.some.inj (hγ.symm.trans hγ')
  have hfresh := I.fresh
  have hpct : (t.coros i).pc = pc := by rw [hcoros, if_pos rfl]
  refine I.setGuards (i := i) (fun j hj => by rw [hcoros, if_neg hj]) ?_ htails hnext ?_ ?_ ?_ ?_
  · rw [hpct]
    refine hok t ⟨{ γ with inside := false }, by rw [ht, Function.update_self], howner, halive,
      rfl⟩ ?_
    cases kind with
    | unlock | drop => trivial
    | assign src =>
      obtain ⟨hne, σ, hσ, hσ'⟩ := hsrc
      exact ⟨hne, σ, by rw [ht, Function.update_of_ne hne]; exact hσ, hσ'⟩
  · rw [ht]
    simp only [Function.update_apply]
    grind
  · rw [ht]
    simp only [Function.update_apply]
    grind
  · intro h σ hσ ho
    rw [ht] at hσ
    simp only [Function.update_apply] at hσ
    split at hσ
    · cases hσ
      rename_i heq
      refine .inl ⟨I.attached g γ hγ, fun _ => rfl, fun _ _ => ⟨rfl, .inr ?_⟩⟩
      rw [howner, hpct, heq]
      exact hrel
    · exact .inr ⟨hσ, by simp [hpc, Pc.releasing]⟩
  · simp [hpc, Pc.relocks]

theorem Release.source_of_allowed (hallowed : kind.allowed s i = true) (hself : kind ≠ .assign g) :
    kind.Source s i g := by
  cases kind with
  | unlock | drop => trivial
  | assign src =>
    obtain ⟨σ, hσ⟩ := Option.isSome_iff_exists.mp hallowed
    obtain ⟨hσ, hσowner, hσalive⟩ := guardOf_eq_some.mp hσ
    exact ⟨fun heq => hself (by rw [heq]), σ, hσ, hσowner, hσalive, trivial⟩

/-- What a release finds when it comes to its end. -/
structure Guards.Finishing (s : State) (i g : Nat) (γ : Guard) (kind : Release) : Prop where
  guard : s.guards g = some γ
  owner : γ.owner = i
  alive : γ.alive = true
  inside : γ.inside = false
  source : kind.Source s i g
  relocks : ∀ h, (s.coros i).pc.relocks h = false
  releasing : ∀ h ≠ g, (s.coros i).pc.releasing h = false

theorem Guards.finishing (I : Guards s) (hf : Finishes s i g γ a kind) :
    Finishing s i g γ kind := by
  cases hf with
  | finishing hpc hγ =>
    obtain ⟨⟨γ', hγ', howner, halive, hin⟩, hsrc⟩ : s.Has i g _ ∧ kind.Source s i g := by
      simpa [hpc, Pc.GuardOk] using I.pcs i
    obtain rfl := Option.some.inj (hγ.symm.trans hγ')
    exact ⟨hγ, howner, halive, hin, hsrc, by simp [hpc, Pc.relocks],
      fun h hne => by simp [hpc, Pc.releasing, hne.symm]⟩
  | release hpc hγ hallowed hself _ howns =>
    obtain ⟨hγ, howner, halive⟩ := guardOf_eq_some.mp hγ
    rw [I.test_eq hγ] at howns
    have htrue : γ.owns = γ.inside := I.truthful hγ halive (by simp [howner, hpc, Pc.relocks])
      (by simp [howner, hpc, Pc.releasing])
    exact ⟨hγ, howner, halive, htrue ▸ howns, Release.source_of_allowed hallowed hself,
      by simp [hpc, Pc.relocks], by simp [hpc, Pc.releasing]⟩

theorem Guards.finish (I : Guards s) (hf : Finishes s i g γ a kind) :
    Guards ((s.finishRelease g γ kind).setPc i .run) := by
  obtain ⟨hγ, howner, halive, hin, hsrc, hrelocks, hreleasing⟩ := I.finishing hf
  have hfresh := I.fresh
  have hcoros : ∀ j ≠ i,
      (((s.finishRelease g γ kind).setPc i .run).coros j).pc = (s.coros j).pc := by
    intro j hj
    simp only [State.setPc, State.setCoro, Function.update_of_ne hj, coros_finishRelease]
  cases kind with
  | unlock | drop =>
    refine I.setGuards (i := i) hcoros (by simp [State.setPc, State.setCoro, Pc.GuardOk]) rfl rfl
      ?_ ?_ ?_ fun k τ _ _ => hrelocks _
    · simp only [State.finishRelease, State.setPc, State.setCoro, State.setGuard,
        Function.update_apply]
      grind
    · simp only [State.finishRelease, State.setPc, State.setCoro, State.setGuard,
        Function.update_apply]
      grind
    · intro h σ hσ ho
      simp only [State.finishRelease, State.setPc, State.setCoro, State.setGuard,
        Function.update_apply] at hσ
      split at hσ
      · cases hσ
        exact .inl ⟨fun howns => I.attached g γ hγ (by simp_all), fun _ => hin, by simp [hin]⟩
      · rename_i hne
        exact .inr ⟨hσ, hreleasing h hne⟩
  | assign src =>
    obtain ⟨hne, σ, hσ, hσowner, hσalive, -⟩ := hsrc
    have hstate : s.finishRelease g γ (.assign src) = (s.setGuard g
        { γ with owns := σ.owns, attached := σ.attached, inside := σ.inside }).setGuard src
          { σ with owns := false, attached := false, inside := false } := by
      simp only [State.finishRelease, hσ]
    have htrue : σ.owns = σ.inside := I.truthful hσ hσalive (by rw [hσowner]; exact hrelocks _)
      (by rw [hσowner]; exact hreleasing _ hne)
    rw [hstate] at hcoros ⊢
    refine I.setGuards (i := i) hcoros (by simp [State.setPc, State.setCoro, Pc.GuardOk]) rfl rfl
      ?_ ?_ ?_ fun k τ _ _ => hrelocks _
    · simp only [State.setPc, State.setCoro, State.setGuard, Function.update_apply]
      grind
    · simp only [State.setPc, State.setCoro, State.setGuard, Function.update_apply]
      grind
    · intro h ρ hρ ho
      simp only [State.setPc, State.setCoro, State.setGuard, Function.update_apply] at hρ
      split at hρ
      · cases hρ
        exact .inl (.of_eq rfl (by simp) (by simp))
      · split at hρ
        · cases hρ
          exact .inl (.of_eq htrue (I.attached src σ hσ) (by simp [halive]))
        · rename_i hne'
          exact .inr ⟨hρ, hreleasing h hne'⟩

/-- What a `wait` finds when it is about to park its coroutine. -/
structure Guards.Waiting (s : State) (i g : Nat) (γ : Guard) : Prop where
  guard : s.guards g = some γ
  owner : γ.owner = i
  alive : γ.alive = true
  attached : γ.attached = true
  relocks : ∀ h, (s.coros i).pc.relocks h = false
  releasing : ∀ h, (s.coros i).pc.releasing h = false

theorem Guards.waiting {v : Nat} (I : Guards s) (hw : Waits s i a v g γ next) :
    Waiting s i g γ := by
  cases hw with
  | wait hpc hγ hatt =>
    obtain ⟨hγ, howner, halive⟩ := guardOf_eq_some.mp hγ
    exact ⟨hγ, howner, halive, hatt, by simp [hpc, Pc.relocks], by simp [hpc, Pc.releasing]⟩
  | test hpc hγ =>
    obtain ⟨γ', hγ', howner, halive, hatt⟩ : s.Has i g _ := by
      simpa [hpc, Pc.GuardOk] using I.pcs i
    obtain rfl := Option.some.inj (hγ.symm.trans hγ')
    exact ⟨hγ, howner, halive, hatt, by simp [hpc, Pc.relocks], by simp [hpc, Pc.releasing]⟩

/-- No tail is pending on a guard whose owner is not on its way back to the mutex. -/
theorem Guards.idle (I : Guards s) (hγ : s.guards g = some γ)
    (hrelocks : (s.coros γ.owner).pc.relocks g = false) :
    ∀ k τ, s.tails k = some τ → τ.pending → τ.guard ≠ g := by
  rintro k τ hk hp rfl
  obtain ⟨γ', hγ', -, hrel⟩ := I.tails k τ hk hp
  obtain rfl := Option.some.inj (hγ.symm.trans hγ')
  simp [hrelocks] at hrel

/-- Coroutine `i` moves its guard `g` into a new guard, which belongs to coroutine `j`. -/
theorem Guards.transfer (j : Nat) (I : Guards s) (hpc : (s.coros i).pc = .run)
    (hγ : s.guardOf i g = some γ) :
    Guards { (s.setGuard s.nextGuard { γ with owner := j }).setGuard g
        { γ with owns := false, attached := false, inside := false } with
      nextGuard := s.nextGuard + 1 } := by
  obtain ⟨hγ, howner, halive⟩ := guardOf_eq_some.mp hγ
  have htrue : γ.owns = γ.inside :=
    I.truthful hγ halive (by simp [howner, hpc, Pc.relocks]) (by simp [howner, hpc, Pc.releasing])
  have hidle := I.idle hγ (by simp [howner, hpc, Pc.relocks])
  have hnone := I.fresh s.nextGuard (Nat.le_refl _)
  refine ⟨?_, I.freshTail, ?_, ?_, ?_, ?_, I.one, ?_⟩
  · have hfresh := I.fresh
    simp only [State.setGuard, Function.update_apply]
    grind
  · intro k
    by_cases hk : k = i
    · subst hk
      simp [State.setGuard, hpc, Pc.GuardOk]
    · refine (I.pcs k).same fun h σ hσ ho => ⟨σ.owns, ?_⟩
      have hne : h ≠ g := by grind
      have hne' : h ≠ s.nextGuard := by grind
      simp [State.setGuard, hne, hne', hσ]
  · have hattached := I.attached
    simp only [State.setGuard, Function.update_apply]
    grind
  · have hdead := I.dead
    simp only [State.setGuard, Function.update_apply]
    grind
  · have htails := I.tails
    simp only [State.setGuard, Function.update_apply]
    grind
  · have howns := I.owns
    simp only [State.setGuard, Function.update_apply]
    grind

theorem Guards.cvPush {v : Nat} (I : Guards s) (hw : Waits s i a v g γ next) :
    Guards (s.cvPush i v g γ next) := by
  obtain ⟨hγ, howner, halive, hatt, hrelocks, hreleasing⟩ := I.waiting hw
  have hnone := I.freshTail s.nextTail (Nat.le_refl _)
  have hidle := I.idle hγ (by rw [howner]; exact hrelocks g)
  have hpending : Tail.pending { guard := g } := by simp [Tail.pending]
  have hpc : (Pc.relock g next).relocks g = true := by simp [Pc.relocks]
  refine ⟨?_, ?_, ?_, ?_, ?_, ?_, ?_, ?_⟩
  · have hfresh := I.fresh
    simp only [State.cvPush, State.setCoro, State.setGuard, State.setTail, Function.update_apply]
    grind
  · have hfresh := I.freshTail
    simp only [State.cvPush, State.setCoro, State.setGuard, State.setTail, Function.update_apply]
    grind
  · intro j
    simp only [State.cvPush, State.setCoro, State.setGuard, State.setTail]
    by_cases hj : j = i
    · subst hj
      rw [Function.update_self]
      exact ⟨_, Function.update_self .., howner, halive, hatt, rfl⟩
    · rw [Function.update_of_ne hj]
      refine (I.pcs j).same fun h σ hσ ho => ⟨σ.owns, ?_⟩
      have hne : h ≠ g := by
        rintro rfl
        obtain rfl := Option.some.inj (hγ.symm.trans hσ)
        exact hj (ho.symm.trans howner)
      exact (Function.update_of_ne hne ..).trans hσ
  · have hattached := I.attached
    simp only [State.cvPush, State.setCoro, State.setGuard, State.setTail, Function.update_apply]
    grind
  · have hdead := I.dead
    simp only [State.cvPush, State.setCoro, State.setGuard, State.setTail, Function.update_apply]
    grind
  · have htails := I.tails
    simp only [State.cvPush, State.setCoro, State.setGuard, State.setTail, Function.update_apply]
    grind
  · have hone := I.one
    simp only [State.cvPush, State.setCoro, State.setGuard, State.setTail, Function.update_apply]
    grind
  · intro h σ hσ hlive hne
    simp only [State.cvPush, State.setCoro, State.setGuard, State.setTail,
      Function.update_apply] at hσ ⊢
    split at hσ
    · cases hσ
      exact ⟨rfl, .inl ⟨s.nextTail, _, if_pos rfl, hpending, by simp_all⟩⟩
    · obtain ⟨hin, ⟨k, τ, hk, hp, hg⟩ | hrel⟩ := I.owns h σ hσ hlive hne
      · have hne' : k ≠ s.nextTail := by
          rintro rfl
          simp [hnone] at hk
        exact ⟨hin, .inl ⟨k, τ, by rw [if_neg hne']; exact hk, hp, hg⟩⟩
      · have hne' : σ.owner ≠ i := by
          intro ho
          simp [ho, hreleasing] at hrel
        exact ⟨hin, .inr (by rw [if_neg hne']; exact hrel)⟩

/-- A tail goes to another stage, and may change `owns_lock_` of its guard. -/
theorem Guards.moveTail {k : Nat} {τ : Tail} (stage : TailStage) (owns : Bool) (I : Guards s)
    (hk : s.tails k = some τ) (hp : τ.pending) (hγ : s.guards τ.guard = some γ)
    (htails : ∀ j, t.tails j = if j = k then some { τ with stage } else s.tails j)
    (hguards : ∀ h, t.guards h = if h = τ.guard then some { γ with owns } else s.guards h)
    (hcoros : ∀ j, (t.coros j).pc = (s.coros j).pc) (hnext : t.nextTail = s.nextTail)
    (hnextGuard : t.nextGuard = s.nextGuard) (hatt : owns = true → γ.attached = true)
    (hover : stage = .done → owns = γ.inside) : Guards t := by
  have hpending : Tail.pending { τ with stage } ↔ stage ≠ .done := Iff.rfl
  refine ⟨?_, ?_, ?_, ?_, ?_, ?_, ?_, ?_⟩
  · have hfresh := I.fresh
    grind
  · have hfresh := I.freshTail
    grind
  · intro j
    rw [hcoros]
    refine (I.pcs j).same fun h σ hσ _ => ?_
    by_cases hh : h = τ.guard
    · subst hh
      obtain rfl := Option.some.inj (hγ.symm.trans hσ)
      exact ⟨owns, by rw [hguards, if_pos rfl]⟩
    · exact ⟨σ.owns, by rw [hguards, if_neg hh, hσ]⟩
  · have hattached := I.attached
    grind
  · have hdead := I.dead
    grind
  · have hold := I.tails
    grind
  · have hone := I.one
    grind
  · have howns := I.owns
    have hin := I.tails k τ hk hp
    have hone := I.one
    grind

/-- A tail goes to another stage and leaves its guard alone. -/
theorem Guards.advanceTail {k : Nat} {τ : Tail} (stage : TailStage) (I : Guards s)
    (hk : s.tails k = some τ) (hp : τ.pending)
    (htails : ∀ j, t.tails j = if j = k then some { τ with stage } else s.tails j)
    (hguards : t.guards = s.guards) (hcoros : ∀ j, (t.coros j).pc = (s.coros j).pc)
    (hnext : t.nextTail = s.nextTail) (hnextGuard : t.nextGuard = s.nextGuard)
    (hover : stage = .done → ∀ γ, s.guards τ.guard = some γ → γ.owns = γ.inside) : Guards t := by
  obtain ⟨γ, hγ, -⟩ := I.tails k τ hk hp
  refine I.moveTail stage γ.owns hk hp hγ htails (fun h => ?_) hcoros hnext hnextGuard
    (I.attached _ γ hγ) fun hdone => hover hdone γ hγ
  rw [hguards]
  split
  · rename_i hh
    rw [hh, hγ]
  · rfl

end

end TinyCoroutine.Sync
