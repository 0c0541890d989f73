import TinyCoroutine.Sync.Tickets

/-!
# Mutual exclusion and fairness

Without condition variables there are no tails, so one party has the mutex while it is
locked: a guard, or a coroutine on its way to its guard. The acquisitions then follow each
other: one is granted when the one before it is released, and the requests are granted in
the order in which they were made.
-/
namespace TinyCoroutine.Sync

open TinyCoroutine.Foundation

variable {s t : State} {a : Action}

/-- The exclusive right to the mutex, when no tail can have it. -/
structure Exclusive (s : State) : Prop where
  guards : ∀ g h, s.inside g = true → s.inside h = true → g = h
  coros : ∀ i j, (s.coros i).carries → (s.coros j).carries → i = j
  apart : ∀ g i, s.inside g = true → ¬ (s.coros i).carries
  locked : s.lock = true ↔ (∃ g, s.inside g = true) ∨ ∃ i, (s.coros i).carries
  queue : s.lock = false → s.waitQueue = []

theorem Held.exclusive {holder : Option Holder} (H : Held .tailsFirst s holder)
    (none : ∀ k, s.tails k = none) : Exclusive s := by
  have inside : ∀ g, s.inside g = true ↔ holder = some (.guard g) := by
    intro g
    cases hg : s.guards g with
    | none =>
      have := H.guardExists g
      simp_all [State.inside]
    | some γ => rw [inside_of_some hg, H.guard g γ hg]
  refine ⟨?_, ?_, ?_, ?_, ?_⟩
  · intro g h hg hh
    simpa [(inside g).mp hg] using (inside h).mp hh
  · intro i j hi hj
    simpa [(H.coro i).mp hi] using (H.coro j).mp hj
  · intro g i hg hi
    have := (inside g).mp hg
    simp [(H.coro i).mp hi] at this
  · rw [H.lock]
    simp only [inside, H.coro]
    cases holder with
    | none => simp
    | some p =>
      cases p with
      | guard g => simp
      | coro i => simp
      | tail k => exact absurd (none k) (H.tailExists k rfl)
      | lost => exact (H.lossy rfl).elim
  · intro hfree
    by_contra hq
    simp [H.queue hq] at hfree

theorem Exclusive.other (E : Exclusive s) {g h : Nat} (has : s.inside g = true) (hne : h ≠ g) :
    s.inside h = false := by
  by_contra hh
  exact hne (E.guards h g (by simpa using hh) has)

theorem Exclusive.unlocked (E : Exclusive s) (free : s.lock = false) :
    (∀ g, s.inside g = false) ∧ ∀ i, ¬ (s.coros i).carries := by
  constructor
  · intro g
    by_contra hg
    simp [E.locked.mpr (.inl ⟨g, by simpa using hg⟩)] at free
  · intro i hi
    simp [E.locked.mpr (.inr ⟨i, hi⟩)] at free

/-- Moving a guard into a variable of another coroutine. -/
theorem HeldInv.transfer {i g j : Nat} (I : HeldInv s) (h : s.transfer i g j = some t) :
    HeldInv t := by
  obtain ⟨P, G, holder, H⟩ := I
  unfold State.transfer at h
  split at h
  · rename_i hr
    obtain ⟨γ, hγ, rfl⟩ := Option.map_eq_some_iff.mp h
    refine ⟨?_, G.transfer j hr.2 hγ, H.transfer j (G.fresh _ (Nat.le_refl _))
      (guardOf_eq_some.mp hγ).1 rfl (G.steady_transfer j hr.2 hγ)⟩
    exact P.frame rfl rfl (fun _ => rfl) (fun _ => rfl) (fun _ _ => rfl) (fun _ _ => .rfl)
  · cases h

/-- Only a condition variable makes tails. -/
theorem tails_of_mutexOnly (ha : a.mutexOnly = true) (h : Transition s a t) :
    t.tails = s.tails := by
  cases h with
  | cvPush _ hw => cases hw <;> cases ha
  | tailTest | tailHandOver | tailFree | tailWake | tailWrite => cases ha
  | finish => exact (finishRelease_frame ..).2.2
  | _ => rfl

theorem tailsFirst_of_none (none : ∀ k, s.tails k = none) (a : Action) : TailsFirst s a := by
  unfold TailsFirst
  split
  · split
    · simp [none]
    · trivial
  · trivial

/-- The numbers of the acquisitions: all but the last one are released, and the last one is
where the mutex is. -/
structure Numbered (s : Traced) : Prop where
  fair : s.requested = s.granted ++ s.sync.waitQueue
  released : s.released = (List.range s.released.length).map some
  count : s.granted.length = s.released.length + if s.sync.lock then 1 else 0
  guard : ∀ g, s.inGuard g = if s.sync.inside g then some s.released.length else none
  coro : ∀ i, (s.sync.coros i).carries → s.mine i = s.released.length

theorem Numbered.init : Numbered Traced.init := by
  constructor <;> simp [Traced.init, State.inside, Coroutine.carries, Pc.acquired]

theorem range_map_some_append {l : List (Option Nat)} {o : Option Nat}
    (hl : l = (List.range l.length).map some) (ho : o = some l.length) :
    l ++ [o] = (List.range (l ++ [o]).length).map some := by
  rw [List.length_append, List.length_singleton, List.range_succ, List.map_append, ← hl, ho]
  rfl

/-- Every event keeps the numbers right. -/
theorem Numbered.record {s : Traced} {e : Event} (N : Numbered s) (E : Exclusive s.sync)
    (h : Effect s.sync t e) : Numbered { s.record e with sync := t } := by
  obtain ⟨fair, released, count, guard, coro⟩ := N
  cases h with
  | quiet lock queue inside carries =>
    constructor <;> simp only [Traced.record, lock, queue, inside, carries]
    exacts [fair, released, count, guard, coro]
  | @lockFree i free lock queue inside carries =>
    have empty := E.queue free
    obtain ⟨-, noCoro⟩ := E.unlocked free
    constructor <;> simp only [Traced.record, free, lock, queue, inside, carries]
    · simp [fair, empty]
    · exact released
    · simp [count, free]
    · exact guard
    · intro j hj
      obtain rfl := hj.resolve_right (noCoro j)
      simp [count, free]
  | @lockBusy i busy lock queue inside carries =>
    constructor <;> simp only [Traced.record, busy, lock, queue, inside, carries, if_true]
    · simp [fair]
    · exact released
    · simpa [busy] using count
    · exact guard
    · exact coro
  | @free g has empty lock queue inside carries =>
    have locked : s.sync.lock = true := E.locked.mpr (.inl ⟨g, has⟩)
    have mine : s.inGuard g = some s.released.length := by simp [guard, has]
    constructor <;> simp only [Traced.record, empty, lock, queue, inside, carries]
    · simpa [empty] using fair
    · exact range_map_some_append released mine
    · simp [count, locked]
    · intro h
      simp only [Function.update_apply]
      split
      · simp
      · rename_i hne
        simp [guard, E.other has hne]
    · exact fun j hj => absurd hj (E.apart g j has)
  | @handOver g h rest has first lock queue inside carries =>
    have locked : s.sync.lock = true := E.locked.mpr (.inl ⟨g, has⟩)
    have mine : s.inGuard g = some s.released.length := by simp [guard, has]
    constructor <;> simp only [Traced.record, first, lock, queue, inside, carries]
    · simp [fair, first]
    · exact range_map_some_append released mine
    · simp [count, locked]
    · intro h
      simp only [Function.update_apply]
      split
      · simp
      · rename_i hne
        simp [guard, E.other has hne]
    · intro j hj
      obtain rfl := hj.resolve_right (E.apart g j has)
      simp [count, locked]
  | @acquire i g has lock queue inside carries =>
    constructor <;> simp only [Traced.record, lock, queue, inside, carries]
    · exact fair
    · exact released
    · exact count
    · intro h
      simp only [Function.update_apply]
      split
      · simp [coro i has]
      · exact guard h
    · exact fun j hj => coro j hj.2
  | @pass src dst hne notDst lock queue inside carries =>
    constructor <;> simp only [Traced.record, lock, queue, inside, carries]
    · exact fair
    · exact released
    · exact count
    · intro h
      simp only [Function.update_apply]
      grind
    · exact coro

structure FairInv (s : Traced) : Prop where
  held : HeldInv s.sync
  noTails : ∀ k, s.sync.tails k = none
  numbered : Numbered s

theorem FairInv.exclusive {s : Traced} (I : FairInv s) : Exclusive s.sync := by
  obtain ⟨holder, H⟩ := I.held.held
  exact H.exclusive I.noTails

theorem FairInv.preserved {s t : Traced} {a : Traced.Action} (I : FairInv s)
    (h : s.step a = some t) : FairInv t := by
  cases a with
  | sync a =>
    simp only [Traced.step] at h
    split at h
    · rename_i ha
      obtain ⟨u, hu, rfl⟩ := Option.map_eq_some_iff.mp h
      have trans := step_transition hu
      refine ⟨I.held.preserved (tailsFirst_of_none I.noTails a) trans, ?_, ?_⟩
      · intro k
        rw [tails_of_mutexOnly ha trans]
        exact I.noTails k
      · exact I.numbered.record I.exclusive (step_effect I.held.places I.held.guards ha hu)
    · cases h
  | transfer i g j =>
    obtain ⟨u, hu, rfl⟩ := Option.map_eq_some_iff.mp h
    have held := I.held.transfer hu
    unfold State.transfer at hu
    split at hu
    · obtain ⟨γ, hγ, rfl⟩ := Option.map_eq_some_iff.mp hu
      have effect := transfer_effect (j := j) I.held.guards (guardOf_eq_some.mp hγ).1
      exact ⟨held, I.noTails, I.numbered.record I.exclusive effect⟩
    · cases hu

/-- Mutual exclusion, the meaning of `lock_`, the fate of every acquisition, and fairness. -/
structure FairMutex (s : Traced) : Prop where
  exclusion : ∀ i j, s.sync.Holds i → s.sync.Holds j → i = j
  locked : s.sync.lock = true ↔ ∃ i, s.sync.Holds i
  queue : s.sync.lock = false → s.sync.waitQueue = []
  /-- The sections of `unlock` released acquisitions `0`, `1`, `2` and so on, and all but the
  one that is under way. -/
  released : s.released = (List.range s.released.length).map some ∧
    s.granted.length = s.released.length + if s.sync.lock then 1 else 0
  /-- An acquisition that is not released is with its coroutine or in a guard. -/
  kept : ∀ k < s.granted.length, some k ∉ s.released →
    (∃ i, (s.sync.coros i).carries ∧ s.mine i = k) ∨ ∃ g, s.inGuard g = some k
  /-- A guard with an acquisition in it is alive and is going to release it. -/
  guards : ∀ g k, s.inGuard g = some k → some k ∉ s.released ∧
    ∃ γ, s.sync.guards g = some γ ∧ γ.alive = true ∧ γ.owns = true ∧ γ.attached = true
  /-- Unlocking, overwriting or destroying the guard comes to the section of `unlock`. -/
  releases : ∀ g k i kind t, s.inGuard g = some k → kind ≠ .assign g →
    s.step (.sync (.op i (.release g kind))) = some t →
    (t.sync.coros i).pc = .unlocking g kind ∧ t.inGuard g = some k
  unlocks : ∀ i g kind inline t, (s.sync.coros i).pc = .unlocking g kind →
    s.step (.sync (.step i inline)) = some t →
    ∃ k, s.inGuard g = some k ∧ t.released = s.released ++ [some k]
  fair : s.requested = s.granted ++ s.sync.waitQueue

theorem Exclusive.holds_unique {i j : Nat} (E : Exclusive s) (hi : s.Holds i) (hj : s.Holds j) :
    i = j := by
  obtain hi | ⟨g, γ, hγ, rfl, hin⟩ := hi <;> obtain hj | ⟨g', γ', hγ', rfl, hin'⟩ := hj
  · exact E.coros i j hi hj
  · exact absurd hi (E.apart g' i ((inside_of_some hγ').trans hin'))
  · exact absurd hj (E.apart g j ((inside_of_some hγ).trans hin))
  · obtain rfl := E.guards g g' ((inside_of_some hγ).trans hin) ((inside_of_some hγ').trans hin')
    rw [Option.some.inj (hγ.symm.trans hγ')]

theorem exists_of_inside {g : Nat} (h : s.inside g = true) :
    ∃ γ, s.guards g = some γ ∧ γ.inside = true := by
  cases hg : s.guards g with
  | none => simp [State.inside, hg] at h
  | some γ => exact ⟨γ, rfl, (inside_of_some hg).symm.trans h⟩

theorem Exclusive.locked_iff (E : Exclusive s) : s.lock = true ↔ ∃ i, s.Holds i := by
  rw [E.locked]
  constructor
  · rintro (⟨g, hg⟩ | ⟨i, hi⟩)
    · obtain ⟨γ, hγ, hin⟩ := exists_of_inside hg
      exact ⟨γ.owner, .inr ⟨g, γ, hγ, rfl, hin⟩⟩
    · exact ⟨i, .inl hi⟩
  · rintro ⟨i, hi | ⟨g, γ, hγ, -, hin⟩⟩
    · exact .inr ⟨i, hi⟩
    · exact .inl ⟨g, (inside_of_some hγ).trans hin⟩

theorem Numbered.inside_of_inGuard {s : Traced} {g k : Nat} (N : Numbered s)
    (h : s.inGuard g = some k) : s.sync.inside g = true ∧ k = s.released.length := by
  rw [N.guard] at h
  split at h
  · rename_i hin
    exact ⟨hin, (Option.some.inj h).symm⟩
  · cases h

/-- The acquisitions that are released are the first ones. -/
theorem Numbered.mem_released {s : Traced} (N : Numbered s) (k : Nat) :
    some k ∈ s.released ↔ k < s.released.length := by
  rw [N.released]
  simp

theorem FairInv.kept {s : Traced} (I : FairInv s) {k : Nat} (hk : k < s.granted.length)
    (not : some k ∉ s.released) :
    (∃ i, (s.sync.coros i).carries ∧ s.mine i = k) ∨ ∃ g, s.inGuard g = some k := by
  obtain ⟨-, -, count, guard, coro⟩ := I.numbered
  rw [I.numbered.mem_released] at not
  have locked : s.sync.lock = true := by
    by_contra free
    simp only [free] at count
    simp at count
    omega
  have last : k = s.released.length := by
    simp only [locked, if_true] at count
    omega
  rcases I.exclusive.locked.mp locked with ⟨g, hg⟩ | ⟨i, hi⟩
  · exact .inr ⟨g, by simp [guard, hg, last]⟩
  · exact .inl ⟨i, hi, (coro i hi).trans last.symm⟩

theorem FairInv.guards {s : Traced} (I : FairInv s) {g k : Nat} (h : s.inGuard g = some k) :
    some k ∉ s.released ∧
      ∃ γ, s.sync.guards g = some γ ∧ γ.alive = true ∧ γ.owns = true ∧ γ.attached = true := by
  obtain ⟨hin, rfl⟩ := I.numbered.inside_of_inGuard h
  obtain ⟨γ, hγ, hin⟩ := exists_of_inside hin
  have G := I.held.guards
  have howns := G.owns_of_inside hγ hin
  refine ⟨by simp [I.numbered.mem_released], γ, hγ, ?_, howns, G.attached g γ hγ howns⟩
  by_contra hdead
  simp [G.dead g γ hγ (by simpa using hdead)] at hin

/-- A release of a guard that has the mutex goes on to the section of `unlock`. -/
theorem FairInv.releases {s t : Traced} (I : FairInv s) {g k i : Nat} {kind : Release}
    (h : s.inGuard g = some k) (hself : kind ≠ .assign g)
    (ht : s.step (.sync (.op i (.release g kind))) = some t) :
    (t.sync.coros i).pc = .unlocking g kind ∧ t.inGuard g = some k := by
  obtain ⟨-, γ, hγ, halive, howns, hatt⟩ := I.guards h
  obtain ⟨u, hu, rfl⟩ : ∃ u, step s.sync (.op i (.release g kind)) = some u ∧
      { s.record (s.sync.event (.op i (.release g kind))) with sync := u } = t := by
    simpa [Traced.step, Action.mutexOnly, Op.mutexOnly] using ht
  have hevent : s.sync.event (.op i (.release g kind)) = .quiet := by
    simp [State.event, hγ, howns, hatt]
  rw [hevent]
  refine ⟨?_, h⟩
  simp only [step, opStep] at hu
  split at hu
  · split at hu
    · rename_i γ' hγ'
      obtain rfl := Option.some.inj ((guardOf_eq_some.mp hγ').1.symm.trans hγ)
      split at hu
      · cases hu
      · simp only [howns, hatt, Bool.and_self, if_true] at hu
        cases hu
        simp [State.setPc, State.setCoro]
    · cases hu
  · cases hu

theorem FairInv.unlocks {s t : Traced} (I : FairInv s) {i g : Nat} {kind : Release}
    {inline : Bool} (hpc : (s.sync.coros i).pc = .unlocking g kind)
    (ht : s.step (.sync (.step i inline)) = some t) :
    ∃ k, s.inGuard g = some k ∧ t.released = s.released ++ [some k] := by
  obtain ⟨⟨γ, hγ, -, -, hin⟩, -⟩ : s.sync.Has i g _ ∧ kind.Source s.sync i g := by
    simpa [hpc, Pc.GuardOk] using I.held.guards.pcs i
  have mine : s.inGuard g = some s.released.length := by
    rw [I.numbered.guard, inside_of_some hγ, hin, if_pos rfl]
  obtain ⟨u, -, rfl⟩ : ∃ u, step s.sync (.step i inline) = some u ∧
      { s.record (s.sync.event (.step i inline)) with sync := u } = t := by
    simpa [Traced.step, Action.mutexOnly] using ht
  refine ⟨_, mine, ?_⟩
  simp only [State.event, hpc, Traced.record]
  split <;> simp [mine]

theorem mutex_exclusive_and_fair {s : Traced} (run : Run Traced.step Always Traced.init s) :
    FairMutex s := by
  have I : FairInv s := by
    refine run.invariant (I := FairInv) ⟨.init, fun _ => rfl, .init⟩ ?_
    exact fun I _ h => I.preserved h
  exact {
    exclusion := fun _ _ => I.exclusive.holds_unique
    locked := I.exclusive.locked_iff
    queue := I.exclusive.queue
    released := ⟨I.numbered.released, I.numbered.count⟩
    kept := fun _ => I.kept
    guards := fun _ _ => I.guards
    releases := fun _ _ _ _ _ => I.releases
    unlocks := fun _ _ _ _ _ => I.unlocks
    fair := I.numbered.fair }

/-- Coroutine `1` parks behind coroutine `0`, whose guard is moved into a variable of
coroutine `2` and destroyed there. -/
theorem mutex_exclusive_and_fair_transfer :
    ∃ s, Run Traced.step Always Traced.init s ∧
      (s.granted = [0, 1] ∧ s.released = [some 0]) ∧ FairMutex s := by
  obtain ⟨s, run, facts⟩ := exists_run Traced.step Always Traced.init
    [.sync (.op 0 .lock), .sync (.step 0 false), .sync (.op 1 .lock), .transfer 0 0 2,
      .sync (.op 2 (.release 1 .drop)), .sync (.step 2 false), .sync (.step 2 false),
      .sync (.step 2 false), .sync (.resume 1), .sync (.step 1 false)]
    (fun s => s.granted = [0, 1] ∧ s.released = [some 0]) (by decide)
  exact ⟨s, run, facts, mutex_exclusive_and_fair run⟩

end TinyCoroutine.Sync
