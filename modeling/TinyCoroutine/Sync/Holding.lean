import TinyCoroutine.Sync.GuardPlaces

/-!
# Who has the mutex

While the mutex is locked one party has it: a guard whose coroutine is inside its critical
section, a coroutine that has been given the mutex and has not been resumed up to its
`await_resume`, or a tail that has still to unlock. Which tails these are, and whether the mutex
may get lost on the way, depends on what is assumed of the runs: a `Regime` says so, and `Rules`
is what the invariant of the guards has to provide. The rest is the same for all.
-/
namespace TinyCoroutine.Sync

variable {s t : State} {a : Action}

/-- Who has the mutex. -/
inductive Holder where
  | guard (g : Nat)
  | coro (i : Nat)
  | tail (k : Nat)
  /-- nobody will unlock it -/
  | lost
  deriving DecidableEq

/-- The coroutine has been given the mutex and not made, or marked, its guard yet. -/
def Coroutine.carries (c : Coroutine) : Prop := c.pc.acquired = true ∧ c.place ≠ .mutexQueue

/-- Which tails have the mutex, and whether it may get lost. -/
structure Regime where
  carries : State → Tail → Prop
  lossy : Prop
  unlocking : ∀ {s τ}, τ.stage = .unlocking → carries s τ
  before : ∀ {s τ}, carries s τ → τ.stage = .test ∨ τ.stage = .unlocking

/-- Tails that have got past their unlock do not have the mutex. -/
theorem Regime.over_iff (R : Regime) {τ τ' : Tail}
    (hnew : ¬(τ'.stage = .test ∨ τ'.stage = .unlocking))
    (hold : ¬(τ.stage = .test ∨ τ.stage = .unlocking)) : R.carries t τ' ↔ R.carries s τ :=
  iff_of_false (fun h => hnew (R.before h)) fun h => hold (R.before h)

structure Held (R : Regime) (s : State) (holder : Option Holder) : Prop where
  lock : s.lock = holder.isSome
  queue : s.waitQueue ≠ [] → s.lock = true
  guard : ∀ g γ, s.guards g = some γ → (γ.inside = true ↔ holder = some (.guard g))
  coro : ∀ i, (s.coros i).carries ↔ holder = some (.coro i)
  tail : ∀ k τ, s.tails k = some τ → (R.carries s τ ↔ holder = some (.tail k))
  guardExists : ∀ g, holder = some (.guard g) → s.guards g ≠ none
  tailExists : ∀ k, holder = some (.tail k) → s.tails k ≠ none
  lossy : holder = some .lost → R.lossy

/-- Tails that have not moved have the mutex as before. -/
def Steady (R : Regime) (s t : State) : Prop :=
  ∀ k τ, s.tails k = some τ → t.tails k = some τ → (R.carries t τ ↔ R.carries s τ)

/-- What is known of the guards and tails of a step. -/
structure Rules (R : Regime) (s : State) (a : Action) : Prop where
  fresh : s.guards s.nextGuard = none
  freshTail : s.tails s.nextTail = none
  unlocking : ∀ {i g kind γ}, (s.coros i).pc = .unlocking g kind → s.guards g = some γ →
    γ.inside = true
  waits : ∀ {i v g γ next}, Waits s i a v g γ next →
    s.guards g = some γ ∧ (R.carries (s.cvPush i v g γ next) { guard := g } ↔ γ.inside = true)
  finishes : ∀ {i g γ kind}, Finishes s i g γ a kind →
    s.guards g = some γ ∧ kind.Source s i g ∧ (γ.inside = true → R.lossy)
  test : ∀ {k τ γ}, s.tails k = some τ → τ.stage = .test → s.guards τ.guard = some γ →
    (R.carries s τ ↔ (γ.owns && γ.attached) = true) ∨ R.lossy ∧ R.carries s τ
  steady : ∀ {t}, Transition s a t → Steady R s t

theorem Held.init {R : Regime} : Held R init none := by
  constructor <;> simp [Sync.init, Coroutine.carries, Pc.acquired]

/-! ## Coroutines that neither get nor give the mutex -/

section

variable {i g h : Nat} {γ : Guard} {pc : Pc}

theorem Locks.not_carries (hl : Locks s i a pc) :
    ¬ (s.coros i).carries ∧ pc.acquired = true := by
  cases hl <;> simp_all [Coroutine.carries, Pc.acquired]

theorem Moves.not_acquired (hm : Moves s i a pc) :
    (s.coros i).pc.acquired = false ∧ pc.acquired = false := by
  cases hm <;> simp_all [Pc.acquired]

theorem Wakes.not_acquired (hw : Wakes s i h pc) :
    (s.coros i).pc.acquired = false ∧ pc.acquired = false := by
  cases hw <;> simp_all [Pc.acquired]

/-- A coroutine that moves from one place to another without getting or using an
acquisition. -/
theorem carries_setPc (hpc : pc.acquired = (s.coros i).pc.acquired) (j : Nat) :
    ((s.setPc i pc).coros j).carries ↔ (s.coros j).carries := by
  simp only [State.setPc, State.setCoro, Function.update_apply]
  split
  · rename_i hj
    simp [Coroutine.carries, hj, hpc]
  · rfl

/-- A handle that leaves a place other than the queue of the mutex. -/
theorem carries_setPlace {place : Place} (hold : (s.coros h).place ≠ .mutexQueue)
    (hnew : place ≠ .mutexQueue) (j : Nat) :
    ((s.setPlace h place).coros j).carries ↔ (s.coros j).carries := by
  simp only [State.setPlace, State.setCoro, Function.update_apply]
  split
  · rename_i hj
    simp [Coroutine.carries, hj, hold, hnew]
  · rfl

theorem carries_wake (hold : (s.coros h).place ≠ .mutexQueue) (inline : Bool) (j : Nat) :
    ((s.wake h inline).coros j).carries ↔ (s.coros j).carries := by
  refine carries_setPlace hold ?_ j
  cases inline <;> simp

end

/-! ## The rules -/

section

variable {R : Regime} {holder : Option Holder} {i g h k : Nat} {γ : Guard} {pc : Pc} {τ : Tail}

theorem Held.lockFree (H : Held R s holder) (hl : Locks s i a pc) (hfree : s.lock = false)
    (ht : t = { s with lock := true }.setCoro i ⟨pc, .running⟩) (hst : Steady R s t) :
    Held R t (some (.coro i)) := by
  obtain ⟨hold, hacq⟩ := hl.not_carries
  have hnone : holder = none := by
    have hlock := H.lock
    rw [hfree] at hlock
    simpa using hlock.symm
  subst hnone ht
  have hnew : Coroutine.carries ⟨pc, .running⟩ := ⟨hacq, by simp⟩
  obtain ⟨hlock, hqueue, hguard, hcoro, htail, hge, hte, -⟩ := H
  refine ⟨?_, ?_, ?_, ?_, ?_, ?_, ?_, by simp⟩ <;>
    simp only [Steady, State.setCoro, Function.update_apply] at hst ⊢
  all_goals grind

theorem Held.lockResume (H : Held R s holder)
    (hr : (s.coros i).place = .running) (hpc : (s.coros i).pc = .lockResume)
    (ht : t = { (s.setGuard s.nextGuard { owner := i }).setPc i .run with
      nextGuard := s.nextGuard + 1 }) (hst : Steady R s t) :
    Held R t (some (.guard s.nextGuard)) := by
  have hold : (s.coros i).carries := by simp [Coroutine.carries, hpc, hr, Pc.acquired]
  obtain rfl := (H.coro i).mp hold
  subst ht
  have hnew : ¬ Coroutine.carries ⟨.run, (s.coros i).place⟩ := by
    simp [Coroutine.carries, Pc.acquired]
  obtain ⟨hlock, hqueue, hguard, hcoro, htail, hge, hte, -⟩ := H
  refine ⟨?_, ?_, ?_, ?_, ?_, ?_, ?_, by simp⟩ <;>
    simp only [Steady, State.setPc, State.setCoro, State.setGuard,
      Function.update_apply] at hst ⊢
  all_goals grind

theorem Held.relockResume {next : After} (H : Held R s holder)
    (hr : (s.coros i).place = .running) (hpc : (s.coros i).pc = .relockResume g next)
    (ht : t = (s.setGuard g { γ with owns := true, inside := true }).setPc i (next.pc g))
    (hst : Steady R s t) : Held R t (some (.guard g)) := by
  have hold : (s.coros i).carries := by simp [Coroutine.carries, hpc, hr, Pc.acquired]
  obtain rfl := (H.coro i).mp hold
  subst ht
  have hnew : ¬ Coroutine.carries ⟨next.pc g, (s.coros i).place⟩ := by
    cases next <;> simp [Coroutine.carries, Pc.acquired, After.pc]
  obtain ⟨hlock, hqueue, hguard, hcoro, htail, hge, hte, -⟩ := H
  refine ⟨?_, ?_, ?_, ?_, ?_, ?_, ?_, by simp⟩ <;>
    simp only [Steady, State.setPc, State.setCoro, State.setGuard,
      Function.update_apply] at hst ⊢
  all_goals grind

/-- The mutex goes with the guard when the guard is moved. -/
theorem Held.transfer (j : Nat) (H : Held R s holder) (hnone : s.guards s.nextGuard = none)
    (hγ : s.guards g = some γ)
    (ht : t = { (s.setGuard s.nextGuard { γ with owner := j }).setGuard g
        { γ with owns := false, attached := false, inside := false } with
      nextGuard := s.nextGuard + 1 }) (hst : Steady R s t) : ∃ holder', Held R t holder' := by
  subst ht
  refine ⟨if γ.inside then some (.guard s.nextGuard) else holder, ?_⟩
  obtain ⟨hlock, hqueue, hguard, hcoro, htail, hge, hte, hlossy⟩ := H
  have hholder := hguard g γ hγ
  refine ⟨?_, ?_, ?_, ?_, ?_, ?_, ?_, by grind⟩ <;>
    simp only [Steady, State.setGuard, Function.update_apply] at hst ⊢
  all_goals grind

/-- A waiting coroutine leaves the mutex to its tail. -/
theorem Held.cvPush {v : Nat} {next : After} (H : Held R s holder)
    (hnone : s.tails s.nextTail = none) (hw : Waits s i a v g γ next)
    (hγ : s.guards g = some γ) (ht : t = s.cvPush i v g γ next)
    (htail : R.carries t { guard := g } ↔ γ.inside = true) (hst : Steady R s t) :
    ∃ holder', Held R t holder' := by
  have hold : ¬ (s.coros i).carries := by
    cases hw <;> simp_all [Coroutine.carries, Pc.acquired]
  have hnew : ¬ Coroutine.carries ⟨.relock g next, .cvQueue v⟩ := by
    simp [Coroutine.carries, Pc.acquired]
  refine ⟨if γ.inside then some (.tail s.nextTail) else holder, ?_⟩
  obtain ⟨hlock, hqueue, hguard, hcoro, htails, hge, hte, hlossy⟩ := H
  have hholder := hguard g γ hγ
  subst ht
  refine ⟨?_, ?_, ?_, ?_, ?_, ?_, ?_, by grind⟩ <;>
    simp only [Steady, State.cvPush, State.setCoro, State.setGuard, State.setTail,
      Function.update_apply] at hst htail ⊢
  all_goals grind

/-- A guard that has the mutex and does not own it loses it when it is overwritten. -/
theorem Held.finish {kind : Release} (H : Held R s holder) (hf : Finishes s i g γ a kind)
    (hγ : s.guards g = some γ) (hsrc : kind.Source s i g) (hlose : γ.inside = true → R.lossy)
    (ht : t = (s.finishRelease g γ kind).setPc i .run) (hst : Steady R s t) :
    ∃ holder', Held R t holder' := by
  have hold : ¬ (s.coros i).carries := by
    cases hf <;> simp_all [Coroutine.carries, Pc.acquired]
  have hnew : ¬ Coroutine.carries ⟨.run, (s.coros i).place⟩ := by
    simp [Coroutine.carries, Pc.acquired]
  obtain ⟨hlock, hqueue, hguard, hcoro, htail, hge, hte, hlossy⟩ := H
  subst ht
  cases kind with
  | unlock | drop =>
    refine ⟨holder, ?_, ?_, ?_, ?_, ?_, ?_, ?_, hlossy⟩ <;>
      simp only [Steady, State.finishRelease, State.setPc, State.setCoro, State.setGuard,
        Function.update_apply] at hst ⊢
    all_goals grind
  | assign src =>
    obtain ⟨hne, σ, hσ, -⟩ := hsrc
    have hsource := hguard src σ hσ
    have htarget := hguard g γ hγ
    refine ⟨if σ.inside then some (.guard g) else if γ.inside then some .lost else holder, ?_⟩
    simp only [State.finishRelease, hσ] at hst ⊢
    refine ⟨?_, ?_, ?_, ?_, ?_, ?_, ?_, by grind⟩ <;>
      simp only [Steady, State.setPc, State.setCoro, State.setGuard,
        Function.update_apply] at hst ⊢
    all_goals grind

/-- The first waiter gets the mutex without `lock_` ever being cleared. -/
theorem Held.handOver {kind : Release} {rest : List Nat} (H : Held R s holder) (P : Places s)
    (hr : (s.coros i).place = .running) (hγ : s.guards g = some γ) (hin : γ.inside = true)
    (hq : s.waitQueue = h :: rest)
    (ht : t = ({ s.setGuard g { γ with inside := false } with waitQueue := rest }.setPlace h
      (.heldBy i)).setPc i (.handing h g kind)) (hst : Steady R s t) :
    Held R t (some (.coro h)) := by
  obtain rfl := (H.guard g γ hγ).mp hin
  have hplace : (s.coros h).place = .mutexQueue := (P.mutex h).mp (by simp [hq])
  have hcarries : Coroutine.carries ⟨(s.coros h).pc, .heldBy i⟩ := ⟨P.acquired h hplace, by simp⟩
  have hnew : ¬ Coroutine.carries ⟨.handing h g kind, (s.coros i).place⟩ := by
    simp [Coroutine.carries, Pc.acquired]
  have hne : h ≠ i := by
    rintro rfl
    simp [hr] at hplace
  obtain ⟨hlock, hqueue, hguard, hcoro, htail, hge, hte, -⟩ := H
  subst ht
  refine ⟨?_, ?_, ?_, ?_, ?_, ?_, ?_, by simp⟩ <;>
    simp only [Steady, State.setPc, State.setPlace, State.setCoro, State.setGuard,
      Function.update_apply] at hst ⊢
  all_goals grind

theorem Held.free {kind : Release} (H : Held R s holder)
    (hγ : s.guards g = some γ) (hin : γ.inside = true) (hq : s.waitQueue = [])
    (ht : t = { s.setGuard g { γ with inside := false } with lock := false }.setPc i
      (.finishing g kind)) (hst : Steady R s t) : Held R t none := by
  obtain rfl := (H.guard g γ hγ).mp hin
  have hnew : ¬ Coroutine.carries ⟨.finishing g kind, (s.coros i).place⟩ := by
    simp [Coroutine.carries, Pc.acquired]
  obtain ⟨hlock, hqueue, hguard, hcoro, htail, hge, hte, -⟩ := H
  subst ht
  refine ⟨?_, ?_, ?_, ?_, ?_, ?_, ?_, by simp⟩ <;>
    simp only [Steady, State.setPc, State.setCoro, State.setGuard,
      Function.update_apply] at hst ⊢
  all_goals grind

theorem Held.tailHandOver {rest : List Nat} (H : Held R s holder) (P : Places s)
    (hk : s.tails k = some τ) (hstage : τ.stage = .unlocking) (hq : s.waitQueue = h :: rest)
    (ht : t = ({ s with waitQueue := rest }.setPlace h (.heldByTail k)).setTail k
      { τ with stage := .handing h }) (hst : Steady R s t) : Held R t (some (.coro h)) := by
  obtain rfl := (H.tail k τ hk).mp (R.unlocking hstage)
  have hplace : (s.coros h).place = .mutexQueue := (P.mutex h).mp (by simp [hq])
  have hcarries : Coroutine.carries ⟨(s.coros h).pc, .heldByTail k⟩ :=
    ⟨P.acquired h hplace, by simp⟩
  have hover : ¬ R.carries t { τ with stage := .handing h } := fun hc => by simpa using R.before hc
  obtain ⟨hlock, hqueue, hguard, hcoro, htail, hge, hte, -⟩ := H
  subst ht
  refine ⟨?_, ?_, ?_, ?_, ?_, ?_, ?_, by simp⟩ <;>
    simp only [Steady, State.setPlace, State.setCoro, State.setTail,
      Function.update_apply] at hst hover ⊢
  all_goals grind

theorem Held.tailFree (H : Held R s holder) (hk : s.tails k = some τ)
    (hstage : τ.stage = .unlocking) (hq : s.waitQueue = [])
    (ht : t = { s with lock := false }.setTail k { τ with stage := .write })
    (hst : Steady R s t) : Held R t none := by
  obtain rfl := (H.tail k τ hk).mp (R.unlocking hstage)
  have hover : ¬ R.carries t { τ with stage := .write } := fun hc => by simpa using R.before hc
  obtain ⟨hlock, hqueue, hguard, hcoro, htail, hge, hte, -⟩ := H
  subst ht
  refine ⟨?_, ?_, ?_, ?_, ?_, ?_, ?_, by simp⟩ <;>
    simp only [Steady, State.setTail, Function.update_apply] at hst hover ⊢
  all_goals grind

/-- A step in which the mutex stays with its holder. -/
theorem Held.frame (H : Held R s holder) (hlock : t.lock = s.lock)
    (hqueue : t.waitQueue ≠ [] → s.lock = true)
    (hguards : ∀ g γ', t.guards g = some γ' → ∃ γ, s.guards g = some γ ∧ γ'.inside = γ.inside)
    (hexists : ∀ g, s.guards g ≠ none → t.guards g ≠ none)
    (hcoros : ∀ i, (t.coros i).carries ↔ (s.coros i).carries)
    (htails : ∀ k τ', t.tails k = some τ' →
      ∃ τ, s.tails k = some τ ∧ (R.carries t τ' ↔ R.carries s τ))
    (htexists : ∀ k, s.tails k ≠ none → t.tails k ≠ none) : Held R t holder where
  lock := hlock.trans H.lock
  queue hq := hlock.trans (hqueue hq)
  guard g γ' hγ' := by
    obtain ⟨γ, hγ, hin⟩ := hguards g γ' hγ'
    rw [hin]
    exact H.guard g γ hγ
  coro i := (hcoros i).trans (H.coro i)
  tail k τ' hτ' := by
    obtain ⟨τ, hτ, hiff⟩ := htails k τ' hτ'
    exact hiff.trans (H.tail k τ hτ)
  guardExists g hg := hexists g (H.guardExists g hg)
  tailExists k hk := htexists k (H.tailExists k hk)
  lossy := H.lossy

/-- Steps in which coroutines move and no guard or tail does. -/
theorem Held.moveCoros (H : Held R s holder) (hlock : t.lock = s.lock)
    (hqueue : t.waitQueue ≠ [] → s.lock = true) (hguards : t.guards = s.guards)
    (htails : t.tails = s.tails) (hcoros : ∀ j, (t.coros j).carries ↔ (s.coros j).carries)
    (hst : Steady R s t) : Held R t holder := by
  refine H.frame hlock hqueue (fun g γ hγ => ⟨γ, hguards ▸ hγ, rfl⟩) (fun g => hguards ▸ id) hcoros
    (fun k τ hτ => ?_) fun k => htails ▸ id
  have hold : s.tails k = some τ := htails ▸ hτ
  exact ⟨τ, hold, hst k τ hold hτ⟩

/-- A tail changes its stage and keeps what it has of the mutex, and perhaps writes
`owns_lock_`. -/
theorem Held.moveTail {τ' : Tail} (H : Held R s holder) (hk : s.tails k = some τ)
    (hlock : t.lock = s.lock) (hqueue : t.waitQueue = s.waitQueue)
    (hguards : ∀ g γ', t.guards g = some γ' → ∃ γ, s.guards g = some γ ∧ γ'.inside = γ.inside)
    (hexists : ∀ g, s.guards g ≠ none → t.guards g ≠ none)
    (hcoros : ∀ j, (t.coros j).carries ↔ (s.coros j).carries)
    (htails : ∀ j, t.tails j = if j = k then some τ' else s.tails j)
    (hcarries : R.carries t τ' ↔ R.carries s τ) (hst : Steady R s t) : Held R t holder := by
  refine H.frame hlock (fun hq => H.queue (hqueue ▸ hq)) hguards hexists hcoros ?_ ?_
  · intro j σ hσ
    have hnew := hσ
    rw [htails] at hσ
    split at hσ
    · rename_i hj
      cases hσ
      exact ⟨τ, hj ▸ hk, hcarries⟩
    · exact ⟨σ, hσ, hst j σ hσ hnew⟩
  · intro j hj
    rw [htails]
    split <;> simp_all

/-- A tail that finds `owns_lock_` cleared does not unlock, and then nobody does. -/
theorem Held.lose (H : Held R s holder) (hk : s.tails k = some τ) (hcarries : R.carries s τ)
    (hlose : R.lossy) (ht : t = s.setTail k { τ with stage := .done }) (hst : Steady R s t) :
    Held R t (some .lost) := by
  obtain rfl := (H.tail k τ hk).mp hcarries
  have hover : ¬ R.carries t { τ with stage := .done } := fun hc => by simpa using R.before hc
  obtain ⟨hlock, hqueue, hguard, hcoro, htail, hge, hte, -⟩ := H
  subst ht
  refine ⟨?_, ?_, ?_, ?_, ?_, ?_, ?_, fun _ => hlose⟩ <;>
    simp only [Steady, State.setTail, Function.update_apply] at hst hover ⊢
  all_goals grind

theorem Held.tailTest {owns : Bool} (H : Held R s holder) (hk : s.tails k = some τ)
    (htest : (R.carries s τ ↔ owns = true) ∨ R.lossy ∧ R.carries s τ)
    (ht : t = s.setTail k { τ with stage := if owns then .unlocking else .done })
    (hst : Steady R s t) : ∃ holder', Held R t holder' := by
  have hkeep : ∀ τ', t = s.setTail k τ' → (R.carries t τ' ↔ R.carries s τ) → Held R t holder := by
    rintro τ' rfl hcarries
    exact H.moveTail hk rfl rfl (fun g γ hγ => ⟨γ, hγ, rfl⟩) (fun _ => id) (fun _ => .rfl)
      (fun _ => Function.update_apply ..) hcarries hst
  cases owns with
  | true =>
    have hcarries : R.carries s τ := htest.elim (fun h => h.mpr rfl) And.right
    exact ⟨holder, hkeep _ ht (iff_of_true (R.unlocking rfl) hcarries)⟩
  | false =>
    obtain hiff | ⟨hlose, hcarries⟩ := htest
    · have hover : ¬ R.carries t { τ with stage := .done } := fun hc => by simpa using R.before hc
      exact ⟨holder, hkeep _ ht (iff_of_false hover (by simp [hiff]))⟩
    · exact ⟨_, H.lose hk hcarries hlose ht hst⟩

end

/-- Every step leaves the mutex with one party. -/
theorem Held.preserved {R : Regime} {holder : Option Holder} (H : Held R s holder) (P : Places s)
    (G : Rules R s a) (h : Transition s a t) : ∃ holder', Held R t holder' := by
  have hst := G.steady h
  cases h with
  | idle => exact ⟨holder, H⟩
  | lockFree _ hl hfree => exact ⟨_, H.lockFree hl hfree rfl hst⟩
  | @lockBusy a i pc _ hl hbusy =>
    have hold := hl.not_carries.1
    refine ⟨holder, H.moveCoros rfl (fun _ => hbusy) rfl rfl (fun j => ?_) hst⟩
    simp only [State.setCoro, Function.update_apply]
    split
    · rename_i hj
      simp [Coroutine.carries, hj] at hold ⊢
      exact hold
    · rfl
  | lockResume hr hpc => exact ⟨_, H.lockResume hr hpc rfl hst⟩
  | relockResume hr hpc => exact ⟨_, H.relockResume hr hpc rfl hst⟩
  | @move i g γ _ _ hγ => exact H.transfer γ.owner G.fresh (guardOf_eq_some.mp hγ).1 rfl hst
  | cvPush _ hw =>
    obtain ⟨hγ, htail⟩ := G.waits hw
    exact H.cvPush G.freshTail hw hγ rfl htail hst
  | movePc _ hm =>
    refine ⟨holder, H.moveCoros rfl H.queue rfl rfl (carries_setPc ?_) hst⟩
    rw [hm.not_acquired.1, hm.not_acquired.2]
  | finish _ hf =>
    obtain ⟨hγ, hsrc, hlose⟩ := G.finishes hf
    exact H.finish hf hγ hsrc hlose rfl hst
  | handOver hr hpc hγ hq => exact ⟨_, H.handOver P hr hγ (G.unlocking hpc hγ) hq rfl hst⟩
  | free _ hpc hγ hq => exact ⟨_, H.free hγ (G.unlocking hpc hγ) hq rfl hst⟩
  | @wake i h pc inline hr hw =>
    have hplace : (s.coros h).place = .heldBy i := (P.hand i h).mp (by simp [hw.hand])
    refine ⟨holder, H.moveCoros rfl H.queue rfl rfl (fun j => ?_) hst⟩
    refine (carries_setPc ?_ j).trans (carries_wake (by simp [hplace]) inline j)
    rw [State.wake, pc_setPlace, hw.not_acquired.1, hw.not_acquired.2]
  | @notify i v o hs rest hr hpc hcv =>
    refine ⟨holder, H.moveCoros rfl H.queue rfl rfl (fun j => ?_) hst⟩
    have hplace : ∀ j ∈ hs, (s.coros j).place = .cvQueue v := by
      intro j hj
      exact (P.cv v j).mp (by simp [hcv, hj])
    simp only [State.notify, State.setCoro, Function.update_apply]
    grind [Coroutine.carries, Pc.acquired]
  | tailTest hk hstage hγ => exact H.tailTest hk (G.test hk hstage hγ) rfl hst
  | tailHandOver hk hstage hq => exact ⟨_, H.tailHandOver P hk hstage hq rfl hst⟩
  | tailFree hk hstage hq => exact ⟨_, H.tailFree hk hstage hq rfl hst⟩
  | @tailWake k τ h inline hk hstage =>
    have hplace : (s.coros h).place = .heldByTail k := (P.tail k h).mp ⟨τ, hk, hstage⟩
    exact ⟨holder, H.moveTail hk rfl rfl (fun g γ hγ => ⟨γ, hγ, rfl⟩) (fun _ => id)
      (carries_wake (by simp [hplace]) inline) (fun _ => Function.update_apply ..)
      (R.over_iff (by simp) (by simp [hstage])) hst⟩
  | @tailWrite k τ γ inline hk hstage hγ =>
    refine ⟨holder, H.moveTail hk rfl rfl (fun g σ hσ => ?_) (fun g hg => ?_) (fun _ => .rfl)
      (fun _ => Function.update_apply ..) (R.over_iff (by simp) (by simp [hstage])) hst⟩
    all_goals simp only [State.setTail, State.setGuard, Function.update_apply] at *
    all_goals grind
  | resume hr =>
    exact ⟨holder, H.moveCoros rfl H.queue rfl rfl (carries_setPlace (by simp [hr]) (by simp)) hst⟩

end TinyCoroutine.Sync
