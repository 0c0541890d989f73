import TinyCoroutine.Sync.Tickets

/-!
# Guards that own the mutex, whatever the tails do

The tail of a `wait` may clear `owns_lock_` of a guard that has been relocked, so in the
runs in which tails come at any time a guard may have the mutex without knowing it. The
converse fails for no guard: one whose `owns_lock_` is set has the mutex, unless its
coroutine is on its way to it or giving it back (`Owning`). The condition on the coroutines
is that they call `wait` with a predicate only, and with a guard that has the mutex.
-/
namespace TinyCoroutine.Sync

variable {s t : State} {a : Action}

/-- The condition variables are used with a predicate, and with a guard that has the mutex. -/
def WaitsInside (s : State) : Action → Prop
  | .op _ (.wait _ _) => False
  | .op _ (.waitFor _ g) => s.inside g = true
  | _ => True

/-- What the place of coroutine `i` says about its guards. -/
def Pc.Keeps (s : State) (i : Nat) : Pc → Prop
  | .test _ g => s.Has i g fun γ => γ.inside = true
  | .relock g _ | .relockResume g _ => s.Has i g fun _ => True
  | .unlocking g kind => s.Has i g (fun γ => γ.inside = true) ∧ kind.Source s i g
  | .handing _ g kind | .finishing g kind => s.Has i g (fun _ => True) ∧ kind.Source s i g
  | _ => True

/-- A guard whose `owns_lock_` is set has the mutex, or its coroutine is getting it or giving
it back. -/
structure Owning (s : State) : Prop where
  fresh : ∀ g, s.nextGuard ≤ g → s.guards g = none
  freshTail : ∀ k, s.nextTail ≤ k → s.tails k = none
  pcs : ∀ i, (s.coros i).pc.Keeps s i
  owns : ∀ g γ, s.guards g = some γ → γ.alive = true → γ.owns = true →
    γ.inside = true ∨ (s.coros γ.owner).pc.relocks g = true ∨
      (s.coros γ.owner).pc.releasing g = true

theorem Pc.Keeps.same {i : Nat} {pc : Pc} (h : pc.Keeps s i) (hs : SameGuards s t i) :
    pc.Keeps t i := by
  cases pc with
  | run | lockResume | waking => trivial
  | test | relock | relockResume => exact State.Has.same h hs fun _ _ => id
  | unlocking | handing | finishing => exact ⟨h.1.same hs fun _ _ => id, h.2.same hs⟩

theorem Owning.init : Owning init := by
  constructor <;> simp [Sync.init, Pc.Keeps]

/-- A coroutine in its own code has the mutex through every guard that owns it. -/
theorem Owning.inside_of_owns {i g : Nat} {γ : Guard} (I : Owning s) (hγ : s.guardOf i g = some γ)
    (hrel : (s.coros i).pc.relocks g = false) (hout : (s.coros i).pc.releasing g = false)
    (howns : γ.owns = true) : γ.inside = true := by
  obtain ⟨hguard, rfl, halive⟩ := guardOf_eq_some.mp hγ
  simpa [hrel, hout] using I.owns g γ hguard halive howns

/-- A step of coroutine `i` that changes no guard. -/
theorem Owning.movePc {i : Nat} {pc : Pc} (I : Owning s)
    (hcoros : ∀ j, (t.coros j).pc = if j = i then pc else (s.coros j).pc)
    (hpc : pc.Keeps s i) (hguards : t.guards = s.guards) (htails : t.tails = s.tails)
    (hnext : t.nextTail = s.nextTail) (hnextGuard : t.nextGuard = s.nextGuard)
    (hrelocks : ∀ g, (s.coros i).pc.relocks g = true → pc.relocks g = true)
    (hreleasing : ∀ g, (s.coros i).pc.releasing g = true → pc.releasing g = true) : Owning t where
  fresh g hg := hguards ▸ I.fresh g (hnextGuard ▸ hg)
  freshTail k hk := htails ▸ I.freshTail k (hnext ▸ hk)
  pcs j := by
    have same : SameGuards s t j := fun g γ hγ _ => ⟨γ.owns, by rw [hguards]; exact hγ⟩
    rw [hcoros]
    split
    · rename_i hj
      exact hj ▸ hpc.same (hj ▸ same)
    · exact (I.pcs j).same same
  owns g γ hγ halive howns := by
    rw [hcoros]
    obtain hin | hrel | hout := I.owns g γ (hguards ▸ hγ) halive howns
    · exact .inl hin
    · refine .inr (.inl ?_)
      split
      · rename_i hj
        exact hrelocks g (hj ▸ hrel)
      · exact hrel
    · refine .inr (.inr ?_)
      split
      · rename_i hj
        exact hreleasing g (hj ▸ hout)
      · exact hout

/-- A step of coroutine `i` on its own guards. -/
theorem Owning.actor {i : Nat} (I : Owning s) (hcoros : ∀ j ≠ i, (t.coros j).pc = (s.coros j).pc)
    (hpc : (t.coros i).pc.Keeps t i) (hfresh : ∀ g, t.nextGuard ≤ g → t.guards g = none)
    (hfreshTail : ∀ k, t.nextTail ≤ k → t.tails k = none)
    (hother : ∀ g γ, γ.owner ≠ i → (t.guards g = some γ ↔ s.guards g = some γ))
    (hown : ∀ g γ, t.guards g = some γ → γ.owner = i → γ.alive = true → γ.owns = true →
      γ.inside = true ∨ (t.coros i).pc.relocks g = true ∨ (t.coros i).pc.releasing g = true) :
    Owning t where
  fresh := hfresh
  freshTail := hfreshTail
  pcs j := by
    by_cases hj : j = i
    · subst hj
      exact hpc
    · rw [hcoros j hj]
      refine (I.pcs j).same fun g γ hγ howner => ⟨γ.owns, ?_⟩
      exact (hother g γ (by rw [howner]; exact hj)).mpr hγ
  owns g γ hγ halive howns := by
    by_cases ho : γ.owner = i
    · rw [ho]
      exact hown g γ hγ ho halive howns
    · rw [hcoros _ ho]
      exact I.owns g γ ((hother g γ ho).mp hγ) halive howns

section

variable {i g h : Nat} {γ : Guard} {next : After} {kind : Release} {pc : Pc}

/-- Outside of relocks and releases, a guard that owns has the mutex. -/
theorem Owning.quiet (I : Owning s) (hrel : ∀ g, (s.coros i).pc.relocks g = false)
    (hout : ∀ g, (s.coros i).pc.releasing g = false) :
    ∀ g γ, s.guards g = some γ → γ.owner = i → γ.alive = true → γ.owns = true →
      γ.inside = true := by
  rintro g γ hγ rfl halive howns
  simpa [hrel, hout] using I.owns g γ hγ halive howns

theorem Owning.lockResume (I : Owning s) (hpc : (s.coros i).pc = .lockResume) :
    Owning { (s.setGuard s.nextGuard { owner := i }).setPc i .run with
      nextGuard := s.nextGuard + 1 } := by
  have hquiet := I.quiet (i := i) (by simp [hpc, Pc.relocks]) (by simp [hpc, Pc.releasing])
  have hfresh := I.fresh
  refine I.actor (i := i) ?_ ?_ ?_ I.freshTail ?_ ?_ <;>
    simp only [State.setPc, State.setCoro, State.setGuard, Function.update_apply]
  · grind
  · simp [Pc.Keeps]
  all_goals grind

theorem Owning.relockResume (I : Owning s) (hpc : (s.coros i).pc = .relockResume g next)
    (hγ : s.guards g = some γ) :
    Owning ((s.setGuard g { γ with owns := true, inside := true }).setPc i (next.pc g)) := by
  obtain ⟨γ', hγ', howner, halive, -⟩ : s.Has i g _ := by simpa [hpc, Pc.Keeps] using I.pcs i
  obtain rfl := Option.some.inj (hγ.symm.trans hγ')
  have howns := I.owns
  have hrelocks : ∀ h, (s.coros i).pc.relocks h = decide (g = h) := by simp [hpc, Pc.relocks]
  have hreleasing : ∀ h, (s.coros i).pc.releasing h = false := by simp [hpc, Pc.releasing]
  have hfresh := I.fresh
  refine I.actor (i := i) ?_ ?_ ?_ I.freshTail ?_ ?_
  · intro j hj
    simp [State.setPc, State.setCoro, State.setGuard, hj]
  · cases next with
    | run => simp [State.setPc, State.setCoro, Pc.Keeps, After.pc]
    | test v =>
      simp only [State.setPc, State.setCoro, State.setGuard, Function.update_self, After.pc,
        Pc.Keeps]
      exact ⟨_, Function.update_self .., howner, halive, rfl⟩
  all_goals
    simp only [State.setPc, State.setCoro, State.setGuard, Function.update_apply]
    grind

theorem Owning.move (I : Owning s) (hpc : (s.coros i).pc = .run) (hγ : s.guardOf i g = some γ) :
    Owning { (s.setGuard s.nextGuard γ).setGuard g
        { γ with owns := false, attached := false, inside := false } with
      nextGuard := s.nextGuard + 1 } := by
  obtain ⟨hγ, howner, halive⟩ := guardOf_eq_some.mp hγ
  have hquiet := I.quiet (i := i) (by simp [hpc, Pc.relocks]) (by simp [hpc, Pc.releasing])
  have hnone := I.fresh s.nextGuard (Nat.le_refl _)
  have hfresh := I.fresh
  refine I.actor (i := i) (fun _ _ => rfl) ?_ ?_ I.freshTail ?_ ?_
  · simp [State.setGuard, hpc, Pc.Keeps]
  all_goals
    simp only [State.setGuard, Function.update_apply]
    grind

theorem Owning.cvPush {v : Nat} (I : Owning s) (hpc : (s.coros i).pc = .test v g)
    (hγ : s.guards g = some γ) : Owning (s.cvPush i v g γ next) := by
  obtain ⟨γ', hγ', howner, halive, hin⟩ : s.Has i g _ := by simpa [hpc, Pc.Keeps] using I.pcs i
  obtain rfl := Option.some.inj (hγ.symm.trans hγ')
  have hquiet := I.quiet (i := i) (by simp [hpc, Pc.relocks]) (by simp [hpc, Pc.releasing])
  have hfresh := I.fresh
  have hfreshTail := I.freshTail
  have hnew : (Pc.relock g next).relocks g = true := by simp [Pc.relocks]
  refine I.actor (i := i) ?_ ?_ ?_ ?_ ?_ ?_
  · intro j hj
    simp [State.cvPush, State.setCoro, State.setGuard, State.setTail, hj]
  · simp only [State.cvPush, State.setCoro, State.setGuard, State.setTail, Function.update_self]
    exact ⟨_, Function.update_self .., howner, halive, trivial⟩
  all_goals
    simp only [State.cvPush, State.setCoro, State.setGuard, State.setTail, Function.update_apply]
    grind

/-- The section of `AsyncMutex::unlock` in a release through guard `g`. -/
theorem Owning.unlock (I : Owning s) (hpc : (s.coros i).pc = .unlocking g kind)
    (hγ : s.guards g = some γ)
    (ht : t.guards = Function.update s.guards g (some { γ with inside := false }))
    (htails : t.tails = s.tails) (hnext : t.nextTail = s.nextTail)
    (hnextGuard : t.nextGuard = s.nextGuard)
    (hcoros : ∀ j, (t.coros j).pc = if j = i then pc else (s.coros j).pc)
    (hok : ∀ u : State, u.Has i g (fun _ => True) → kind.Source u i g → pc.Keeps u i)
    (hrel : pc.releasing g = true) : Owning t := by
  obtain ⟨⟨γ', hγ', howner, halive, hin⟩, hsrc⟩ : s.Has i g _ ∧ kind.Source s i g := by
    simpa [hpc, Pc.Keeps] using I.pcs i
  obtain rfl := Option.some.inj (hγ.symm.trans hγ')
  have hquiet := I.quiet (i := i) (by simp [hpc, Pc.relocks]) (by simp [hpc, Pc.releasing])
  have hfresh := I.fresh
  have hfreshTail := I.freshTail
  have hpct : (t.coros i).pc = pc := by rw [hcoros, if_pos rfl]
  refine I.actor (i := i) (fun j hj => by rw [hcoros, if_neg hj]) ?_ ?_ ?_ ?_ ?_
  · rw [hpct]
    refine hok t ⟨{ γ with inside := false }, by rw [ht, Function.update_self], howner, halive,
      trivial⟩ ?_
    cases kind with
    | unlock | drop => trivial
    | assign src =>
      obtain ⟨hne, σ, hσ, hσ'⟩ := hsrc
      exact ⟨hne, σ, by rw [ht, Function.update_of_ne hne]; exact hσ, hσ'⟩
  · rw [ht]
    simp only [Function.update_apply]
    grind
  · rw [htails, hnext]
    exact hfreshTail
  · rw [ht]
    simp only [Function.update_apply]
    grind
  · rw [ht, hpct]
    simp only [Function.update_apply]
    grind

/-- What the end of a release finds. -/
theorem Owning.finishing (I : Owning s) (hf : Finishes s i g γ a kind) :
    s.guards g = some γ ∧ γ.owner = i ∧ kind.Source s i g ∧
      (∀ h, (s.coros i).pc.relocks h = false) ∧ ∀ h ≠ g, (s.coros i).pc.releasing h = false := by
  cases hf with
  | finishing hpc hγ =>
    obtain ⟨⟨γ', hγ', howner, -, -⟩, hsrc⟩ : s.Has i g _ ∧ kind.Source s i g := by
      simpa [hpc, Pc.Keeps] using I.pcs i
    obtain rfl := Option.some.inj (hγ.symm.trans hγ')
    exact ⟨hγ, howner, hsrc, by simp [hpc, Pc.relocks],
      fun h hne => by simp [hpc, Pc.releasing, hne.symm]⟩
  | release hpc hγ hallowed hself =>
    obtain ⟨hγ, howner, -⟩ := guardOf_eq_some.mp hγ
    exact ⟨hγ, howner, Release.source_of_allowed hallowed hself, by simp [hpc, Pc.relocks],
      by simp [hpc, Pc.releasing]⟩

theorem Owning.finish (I : Owning s) (hf : Finishes s i g γ a kind) :
    Owning ((s.finishRelease g γ kind).setPc i .run) := by
  obtain ⟨hγ, howner, hsrc, hrelocks, hreleasing⟩ := I.finishing hf
  have howns := I.owns
  have hfresh := I.fresh
  have hcoros : ∀ j ≠ i,
      (((s.finishRelease g γ kind).setPc i .run).coros j).pc = (s.coros j).pc := by
    intro j hj
    simp only [State.setPc, State.setCoro, Function.update_of_ne hj, coros_finishRelease]
  cases kind with
  | drop =>
    refine I.actor (i := i) hcoros (by simp [State.setPc, State.setCoro, Pc.Keeps]) ?_ I.freshTail
      ?_ ?_ <;>
    simp only [State.finishRelease, State.setPc, State.setCoro, State.setGuard,
      Function.update_apply] <;>
    grind
  | unlock =>
    refine I.actor (i := i) hcoros (by simp [State.setPc, State.setCoro, Pc.Keeps]) ?_ I.freshTail
      ?_ ?_ <;>
    simp only [State.finishRelease, State.setPc, State.setCoro, State.setGuard,
      Function.update_apply] <;>
    grind
  | assign src =>
    obtain ⟨hne, σ, hσ, hσowner, hσalive, -⟩ := hsrc
    have hstate : s.finishRelease g γ (.assign src) = (s.setGuard g
        { γ with owns := σ.owns, attached := σ.attached, inside := σ.inside }).setGuard src
          { σ with owns := false, attached := false, inside := false } := by
      simp only [State.finishRelease, hσ]
    have hsrc : σ.owns = true → σ.inside = true := by
      intro h
      obtain rfl := hσowner
      simpa [hrelocks, hreleasing src hne] using howns src σ hσ hσalive h
    rw [hstate] at hcoros ⊢
    refine I.actor (i := i) hcoros (by simp [State.setPc, State.setCoro, Pc.Keeps]) ?_ I.freshTail
      ?_ ?_ <;>
    simp only [State.setPc, State.setCoro, State.setGuard, Function.update_apply] <;>
    grind

/-- A tail goes to another stage, and may clear `owns_lock_` of its guard. -/
theorem Owning.moveTail {k : Nat} {τ : Tail} {stage : TailStage} (I : Owning s)
    (hk : s.tails k = some τ)
    (htails : ∀ j, t.tails j = if j = k then some { τ with stage } else s.tails j)
    (hguards : ∀ g γ, s.guards g = some γ →
      t.guards g = some γ ∨ t.guards g = some { γ with owns := false })
    (hnone : ∀ g, s.guards g = none → t.guards g = none)
    (hcoros : ∀ j, (t.coros j).pc = (s.coros j).pc) (hnext : t.nextTail = s.nextTail)
    (hnextGuard : t.nextGuard = s.nextGuard) : Owning t where
  fresh g hg := hnone g (I.fresh g (hnextGuard ▸ hg))
  freshTail j hj := by
    have hfresh := I.freshTail
    grind
  pcs j := by
    rw [hcoros]
    refine (I.pcs j).same fun g γ hγ _ => ?_
    rcases hguards g γ hγ with h | h
    · exact ⟨γ.owns, h⟩
    · exact ⟨false, h⟩
  owns g γ hγ halive howns := by
    rw [hcoros]
    cases hg : s.guards g with
    | none => simp [hnone g hg] at hγ
    | some σ =>
      rcases hguards g σ hg with h | h
      · obtain rfl := Option.some.inj (h.symm.trans hγ)
        exact I.owns g σ hg halive howns
      · obtain rfl := Option.some.inj (h.symm.trans hγ)
        cases howns

end

/-- The places a coroutine can go to without a change of its guards. -/
theorem Owning.locks {i : Nat} {pc : Pc} (I : Owning s) (hl : Locks s i a pc) :
    pc.Keeps s i ∧ (∀ g, (s.coros i).pc.relocks g = true → pc.relocks g = true) ∧
      ∀ g, (s.coros i).pc.releasing g = true → pc.releasing g = true := by
  have hok := I.pcs i
  cases hl with
  | lock hpc => exact ⟨trivial, by simp [hpc, Pc.relocks], by simp [hpc, Pc.releasing]⟩
  | @relock g γ hpc hγ =>
    obtain ⟨hγ, howner, halive⟩ := guardOf_eq_some.mp hγ
    exact ⟨⟨γ, hγ, howner, halive, trivial⟩, by simp [hpc, Pc.relocks], by simp [hpc, Pc.releasing]⟩
  | wait hpc =>
    rw [hpc] at hok ⊢
    exact ⟨hok, by simp [Pc.relocks], by simp [Pc.releasing]⟩

theorem Owning.moves {i : Nat} {pc : Pc} (I : Owning s) (hc : WaitsInside s a)
    (hm : Moves s i a pc) :
    pc.Keeps s i ∧ (∀ g, (s.coros i).pc.relocks g = true → pc.relocks g = true) ∧
      ∀ g, (s.coros i).pc.releasing g = true → pc.releasing g = true := by
  cases hm with
  | @waitFor v g γ hpc hγ =>
    obtain ⟨hγ, howner, halive⟩ := guardOf_eq_some.mp hγ
    exact ⟨⟨γ, hγ, howner, halive, (inside_of_some hγ).symm.trans hc⟩,
      by simp [hpc, Pc.relocks], by simp [hpc, Pc.releasing]⟩
  | @unlocking g γ kind hpc hγ hallowed hself howns =>
    have hin := I.inside_of_owns hγ (by simp [hpc, Pc.relocks]) (by simp [hpc, Pc.releasing])
      (by grind)
    obtain ⟨hγ, howner, halive⟩ := guardOf_eq_some.mp hγ
    exact ⟨⟨⟨γ, hγ, howner, halive, hin⟩, Release.source_of_allowed hallowed hself⟩,
      by simp [hpc, Pc.relocks], by simp [hpc, Pc.releasing]⟩
  | satisfied hpc => exact ⟨trivial, by simp [hpc, Pc.relocks], by simp [hpc, Pc.releasing]⟩
  | woken hpc => exact ⟨trivial, by simp [hpc, Pc.relocks], by simp [hpc, Pc.releasing]⟩

theorem Owning.wakes {i h : Nat} {pc : Pc} (I : Owning s) (hw : Wakes s i h pc) :
    pc.Keeps s i ∧ (∀ g, (s.coros i).pc.relocks g = true → pc.relocks g = true) ∧
      ∀ g, (s.coros i).pc.releasing g = true → pc.releasing g = true := by
  have hok := I.pcs i
  cases hw with
  | handing hpc =>
    rw [hpc] at hok ⊢
    exact ⟨hok, by simp [Pc.relocks], by simp [Pc.releasing]⟩
  | waking hpc => exact ⟨trivial, by simp [hpc, Pc.relocks], by simp [hpc, Pc.releasing]⟩

/-- With predicates only, a coroutine parks from its test. -/
theorem Waits.test_of_inside {i v g : Nat} {γ : Guard} {next : After} (hw : Waits s i a v g γ next)
    (hc : WaitsInside s a) : (s.coros i).pc = .test v g ∧ s.guards g = some γ := by
  cases hw with
  | wait => exact hc.elim
  | test hpc hγ => exact ⟨hpc, hγ⟩

theorem Owning.preserved (I : Owning s) (hc : WaitsInside s a) (h : Transition s a t) :
    Owning t := by
  cases h with
  | idle => exact I
  | lockFree hr hl | lockBusy hr hl =>
    obtain ⟨hok, hrel, hout⟩ := I.locks hl
    exact I.movePc pc_setCoro hok rfl rfl rfl rfl hrel hout
  | lockResume _ hpc => exact I.lockResume hpc
  | relockResume _ hpc hγ => exact I.relockResume hpc hγ
  | move _ hpc hγ => exact I.move hpc hγ
  | cvPush _ hw =>
    obtain ⟨hpc, hγ⟩ := hw.test_of_inside hc
    exact I.cvPush hpc hγ
  | movePc hr hm =>
    obtain ⟨hok, hrel, hout⟩ := I.moves hc hm
    exact I.movePc pc_setCoro hok rfl rfl rfl rfl hrel hout
  | finish _ hf => exact I.finish hf
  | @handOver i g kind γ h rest inline _ hpc hγ =>
    refine I.unlock hpc hγ rfl rfl rfl rfl (fun j => ?_) (fun u => And.intro)
      (show (Pc.handing h g kind).releasing g = true by simp [Pc.releasing])
    rw [State.setPc, pc_setCoro, pc_setPlace]
    rfl
  | @free i g kind γ inline _ hpc hγ =>
    refine I.unlock hpc hγ rfl rfl rfl rfl (fun j => ?_) (fun u => And.intro)
      (show (Pc.finishing g kind).releasing g = true by simp [Pc.releasing])
    rw [State.setPc, pc_setCoro]
    rfl
  | wake hr hw =>
    obtain ⟨hok, hrel, hout⟩ := I.wakes hw
    refine I.movePc (fun j => ?_) hok rfl rfl rfl rfl hrel hout
    rw [State.setPc, pc_setCoro, State.wake, pc_setPlace]
  | @notify i v o hs rest hr hpc =>
    have hok : (Pc.waking hs).Keeps s i := trivial
    exact I.movePc pc_notify hok rfl rfl rfl rfl (by simp [hpc, Pc.relocks])
      (by simp [hpc, Pc.releasing])
  | tailTest hk | tailFree hk =>
    exact I.moveTail hk (fun _ => Function.update_apply ..) (fun _ _ => .inl) (fun _ => id)
      (fun _ => rfl) rfl rfl
  | tailHandOver hk | tailWake hk =>
    exact I.moveTail hk (fun _ => Function.update_apply ..) (fun _ _ => .inl) (fun _ => id)
      pc_setPlace rfl rfl
  | @tailWrite k τ γ inline hk hst hγ =>
    refine I.moveTail hk (fun _ => Function.update_apply ..) (fun g σ hσ => ?_) (fun g hg => ?_)
      (fun _ => rfl) rfl rfl
    all_goals simp only [State.setTail, State.setGuard, Function.update_apply]
    all_goals grind
  | @resume i hr =>
    exact I.movePc pc_setCoro (I.pcs i) rfl rfl rfl rfl (fun _ => id) fun _ => id

end TinyCoroutine.Sync
