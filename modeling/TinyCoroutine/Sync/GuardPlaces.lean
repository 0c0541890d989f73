import TinyCoroutine.Sync.Places

/-!
# What a place says about guards

What the place of a coroutine in its code says about its guards, and when `owns_lock_` may
differ from the truth: while its coroutine is past the unlock of a release, or while the
tail of a `wait` has not done its write.
-/
namespace TinyCoroutine.Sync

variable {s t : State}

/-- The coroutine is on its way back to the mutex through guard `g`. -/
def Pc.relocks (g : Nat) : Pc → Bool
  | .relock h _ => h = g
  | .relockResume h _ => h = g
  | _ => false

/-- The coroutine has given up the mutex and not finished the release of guard `g`. -/
def Pc.releasing (g : Nat) : Pc → Bool
  | .handing _ h _ => h = g
  | .finishing h _ => h = g
  | _ => false

def Tail.pending (τ : Tail) : Prop := τ.stage ≠ .done

instance (τ : Tail) : Decidable τ.pending := inferInstanceAs (Decidable (_ ≠ _))

/-- Guard `g` is one of the live guards of coroutine `i`, and has property `P`. -/
def State.Has (s : State) (i g : Nat) (P : Guard → Prop) : Prop :=
  ∃ γ, s.guards g = some γ ∧ γ.owner = i ∧ γ.alive = true ∧ P γ

/-- The guard that is assigned from. -/
def Release.Source (s : State) (i g : Nat) : Release → Prop
  | .assign src => src ≠ g ∧ s.Has i src fun _ => True
  | _ => True

/-- What the place of coroutine `i` says about its guards. -/
def Pc.GuardOk (s : State) (i : Nat) : Pc → Prop
  | .test _ g => s.Has i g fun γ => γ.attached = true
  | .relock g _ => s.Has i g fun γ => γ.attached = true ∧ γ.inside = false
  | .relockResume g _ => s.Has i g fun γ => γ.attached = true ∧ γ.inside = false
  | .unlocking g kind => s.Has i g (fun γ => γ.inside = true) ∧ kind.Source s i g
  | .handing _ g kind => s.Has i g (fun γ => γ.inside = false) ∧ kind.Source s i g
  | .finishing g kind => s.Has i g (fun γ => γ.inside = false) ∧ kind.Source s i g
  | _ => True

/-- The guards of coroutine `i` are the same up to `owns_lock_`. -/
def SameGuards (s t : State) (i : Nat) : Prop :=
  ∀ g γ, s.guards g = some γ → γ.owner = i → ∃ owns, t.guards g = some { γ with owns }

theorem State.Has.same {i g : Nat} {P : Guard → Prop} (h : s.Has i g P) (hs : SameGuards s t i)
    (hP : ∀ γ owns, P γ → P { γ with owns }) : t.Has i g P := by
  obtain ⟨γ, hγ, howner, halive, hp⟩ := h
  obtain ⟨owns, ht⟩ := hs g γ hγ howner
  exact ⟨_, ht, howner, halive, hP γ owns hp⟩

theorem Release.Source.same {i g : Nat} {kind : Release} (h : kind.Source s i g)
    (hs : SameGuards s t i) : kind.Source t i g := by
  cases kind with
  | unlock | drop => trivial
  | assign src => exact ⟨h.1, h.2.same hs fun _ _ => id⟩

theorem Pc.GuardOk.same {i : Nat} {pc : Pc} (h : pc.GuardOk s i) (hs : SameGuards s t i) :
    pc.GuardOk t i := by
  cases pc with
  | run | lockResume | waking => trivial
  | test | relock | relockResume => exact State.Has.same h hs fun _ _ => id
  | unlocking | handing | finishing => exact ⟨h.1.same hs fun _ _ => id, h.2.same hs⟩

structure Guards (s : State) : Prop where
  fresh : ∀ g, s.nextGuard ≤ g → s.guards g = none
  freshTail : ∀ k, s.nextTail ≤ k → s.tails k = none
  pcs : ∀ i, (s.coros i).pc.GuardOk s i
  attached : ∀ g γ, s.guards g = some γ → γ.owns = true → γ.attached = true
  dead : ∀ g γ, s.guards g = some γ → γ.alive = false → γ.inside = false
  tails : ∀ k τ, s.tails k = some τ → τ.pending →
    ∃ γ, s.guards τ.guard = some γ ∧ γ.inside = false ∧
      (s.coros γ.owner).pc.relocks τ.guard = true
  one : ∀ k k' τ τ', s.tails k = some τ → s.tails k' = some τ' → τ.pending → τ'.pending →
    τ.guard = τ'.guard → k = k'
  owns : ∀ g γ, s.guards g = some γ → γ.alive = true → γ.owns ≠ γ.inside → γ.inside = false ∧
    ((∃ k τ, s.tails k = some τ ∧ τ.pending ∧ τ.guard = g) ∨
      (s.coros γ.owner).pc.releasing g = true)

theorem Guards.init : Guards init := by
  constructor <;> simp [Sync.init, Pc.GuardOk]

/-- What holds of a guard by itself, given the pending tails and the place of its owner. -/
structure Guard.Ok (s : State) (g : Nat) (γ : Guard) : Prop where
  attached : γ.owns = true → γ.attached = true
  dead : γ.alive = false → γ.inside = false
  owns : γ.alive = true → γ.owns ≠ γ.inside → γ.inside = false ∧
    ((∃ k τ, s.tails k = some τ ∧ τ.pending ∧ τ.guard = g) ∨
      (s.coros γ.owner).pc.releasing g = true)

theorem Guards.ok (I : Guards s) {g : Nat} {γ : Guard} (hγ : s.guards g = some γ) : γ.Ok s g :=
  ⟨I.attached g γ hγ, I.dead g γ hγ, I.owns g γ hγ⟩

/-- A guard in whose state `owns_lock_` tells the truth. -/
theorem Guard.Ok.of_eq {g : Nat} {γ : Guard} (hown : γ.owns = γ.inside)
    (hatt : γ.owns = true → γ.attached = true) (hdead : γ.alive = false → γ.inside = false) :
    γ.Ok s g :=
  ⟨hatt, hdead, fun _ hne => absurd hown hne⟩

/-- A step of coroutine `i` on its own guards. -/
theorem Guards.actor {i : Nat} (I : Guards s) (hcoros : ∀ j ≠ i, (t.coros j).pc = (s.coros j).pc)
    (hpc : (t.coros i).pc.GuardOk t i) (htails : t.tails = s.tails)
    (hnext : t.nextTail = s.nextTail) (hfresh : ∀ g, t.nextGuard ≤ g → t.guards g = none)
    (hother : ∀ g γ, γ.owner ≠ i → (t.guards g = some γ ↔ s.guards g = some γ))
    (hown : ∀ g γ, t.guards g = some γ → γ.owner = i → γ.Ok t g)
    (hrelock : ∀ k τ γ, s.tails k = some τ → τ.pending → s.guards τ.guard = some γ →
      γ.owner = i → γ.inside = false → (s.coros i).pc.relocks τ.guard = true →
      t.guards τ.guard = some γ ∧ (t.coros i).pc.relocks τ.guard = true) : Guards t where
  fresh := hfresh
  freshTail k hk := by
    rw [htails]
    exact I.freshTail k (hnext ▸ hk)
  pcs j := by
    by_cases hj : j = i
    · subst hj
      exact hpc
    · rw [hcoros j hj]
      refine (I.pcs j).same fun g γ hγ howner => ⟨γ.owns, ?_⟩
      exact (hother g γ (by rw [howner]; exact hj)).mpr hγ
  attached g γ hγ := by
    by_cases ho : γ.owner = i
    · exact (hown g γ hγ ho).attached
    · exact I.attached g γ ((hother g γ ho).mp hγ)
  dead g γ hγ := by
    by_cases ho : γ.owner = i
    · exact (hown g γ hγ ho).dead
    · exact I.dead g γ ((hother g γ ho).mp hγ)
  tails k τ hk hp := by
    rw [htails] at hk
    obtain ⟨γ, hγ, hin, hrel⟩ := I.tails k τ hk hp
    by_cases ho : γ.owner = i
    · obtain ⟨hγt, hrelt⟩ := hrelock k τ γ hk hp hγ ho hin (ho ▸ hrel)
      exact ⟨γ, hγt, hin, ho ▸ hrelt⟩
    · exact ⟨γ, (hother _ γ ho).mpr hγ, hin, by rwa [hcoros _ ho]⟩
  one k k' τ τ' hk hk' := by
    rw [htails] at hk hk'
    exact I.one k k' τ τ' hk hk'
  owns g γ hγ := by
    by_cases ho : γ.owner = i
    · exact (hown g γ hγ ho).owns
    · rw [htails, hcoros _ ho]
      exact I.owns g γ ((hother g γ ho).mp hγ)

/-- A step of coroutine `i` that leaves the guards alone. -/
theorem Guards.movePc {i : Nat} (I : Guards s) (hcoros : ∀ j ≠ i, (t.coros j).pc = (s.coros j).pc)
    (hpc : (t.coros i).pc.GuardOk s i) (hguards : t.guards = s.guards)
    (htails : t.tails = s.tails) (hnext : t.nextTail = s.nextTail)
    (hnextGuard : t.nextGuard = s.nextGuard)
    (hrel : ∀ g, (s.coros i).pc.releasing g = true → (t.coros i).pc.releasing g = true)
    (hrelock : ∀ g, (s.coros i).pc.relocks g = true → (t.coros i).pc.relocks g = true) :
    Guards t := by
  refine I.actor hcoros ?_ htails hnext ?_ (fun g γ _ => by rw [hguards]) ?_ ?_
  · exact hpc.same fun g γ hγ _ => ⟨γ.owns, by rw [hguards]; exact hγ⟩
  · intro g hg
    rw [hguards]
    exact I.fresh g (hnextGuard ▸ hg)
  · intro g γ hγ ho
    rw [hguards] at hγ
    obtain ⟨hatt, hdead, howns⟩ := I.ok hγ
    refine ⟨hatt, hdead, fun halive hne => ?_⟩
    obtain ⟨hin, htail | hreleasing⟩ := howns halive hne
    · exact ⟨hin, .inl (htails ▸ htail)⟩
    · rw [ho] at hreleasing ⊢
      exact ⟨hin, .inr (hrel g hreleasing)⟩
  · intro k τ γ _ _ hγ _ _ hrelocks
    exact ⟨hguards ▸ hγ, hrelock _ hrelocks⟩

/-- A step of coroutine `i` that changes some of its guards, when no tail waits for it to
relock. -/
theorem Guards.setGuards {i : Nat} (I : Guards s)
    (hcoros : ∀ j ≠ i, (t.coros j).pc = (s.coros j).pc) (hpc : (t.coros i).pc.GuardOk t i)
    (htails : t.tails = s.tails) (hnext : t.nextTail = s.nextTail)
    (hfresh : ∀ g, t.nextGuard ≤ g → t.guards g = none)
    (hother : ∀ g γ, γ.owner ≠ i → (t.guards g = some γ ↔ s.guards g = some γ))
    (hown : ∀ g γ, t.guards g = some γ → γ.owner = i →
      γ.Ok t g ∨ s.guards g = some γ ∧ (s.coros i).pc.releasing g = false)
    (hquiet : ∀ k τ, s.tails k = some τ → τ.pending → (s.coros i).pc.relocks τ.guard = false) :
    Guards t := by
  refine I.actor hcoros hpc htails hnext hfresh hother (fun g γ hγ ho => ?_) ?_
  · rcases hown g γ hγ ho with hok | ⟨hγs, hrel⟩
    · exact hok
    · obtain ⟨hatt, hdead, howns⟩ := I.ok hγs
      refine ⟨hatt, hdead, fun halive hne => ?_⟩
      obtain ⟨hin, htail | hreleasing⟩ := howns halive hne
      · exact ⟨hin, .inl (htails ▸ htail)⟩
      · simp [ho, hrel] at hreleasing
  · intro k τ γ hk hp _ _ _ hrelocks
    simp [hquiet k τ hk hp] at hrelocks

theorem guardOf_eq_some {i g : Nat} {γ : Guard} :
    s.guardOf i g = some γ ↔ s.guards g = some γ ∧ γ.owner = i ∧ γ.alive = true := by
  simp [State.guardOf, Option.filter_eq_some_iff]

/-- Outside of a relock or a release, `owns_lock_` of a live guard tells the truth. -/
theorem Guards.truthful (I : Guards s) {g : Nat} {γ : Guard} (hγ : s.guards g = some γ)
    (halive : γ.alive = true) (hrelock : (s.coros γ.owner).pc.relocks g = false)
    (hrel : (s.coros γ.owner).pc.releasing g = false) : γ.owns = γ.inside := by
  by_contra hne
  obtain ⟨-, ⟨k, τ, hk, hp, rfl⟩ | hreleasing⟩ := I.owns g γ hγ halive hne
  · obtain ⟨γ', hγ', -, hrelocks⟩ := I.tails k τ hk hp
    obtain rfl := Option.some.inj (hγ.symm.trans hγ')
    simp [hrelock] at hrelocks
  · simp [hrel] at hreleasing

/-- The tail of a guard that is not owned has nothing to free. -/
theorem Guards.test_eq (I : Guards s) {g : Nat} {γ : Guard} (hγ : s.guards g = some γ) :
    (γ.owns && γ.attached) = γ.owns := by
  cases howns : γ.owns with
  | false => rfl
  | true => simp [I.attached g γ hγ howns]

end TinyCoroutine.Sync
