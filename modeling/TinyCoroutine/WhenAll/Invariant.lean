import TinyCoroutine.WhenAll.Basic
import Mathlib.Data.List.Nodup
import Mathlib.Data.Fintype.Card

/-!
# The invariant of `when_all`

One invariant ties the counter of the group, its queue, the result slots, the stored
exception and the places of all coroutines together. It has two halves that share only the
places of the wrappers: `Results` is about the slots and the exception, `Joined` about the
group and the caller.
-/
namespace TinyCoroutine.WhenAll

open TinyCoroutine.Foundation

variable {n : Nat} {T : Fin n → Type} {R : Type}

namespace Wrapper

variable {T : Type}

/-- The task has ended. -/
def hasEnded : Wrapper T → Bool
  | .created | .queued | .awaiting => false
  | _ => true

/-- The outcome of the task is stored. -/
def hasStored : Wrapper T → Bool
  | .created | .queued | .awaiting | .ended _ => false
  | _ => true

/-- The call of `wg.done()` has passed its section. -/
def hasDone : Wrapper T → Bool
  | .rescheduling _ | .finished | .threw _ => true
  | _ => false

end Wrapper

/-- Wrapper `i` made the last of the `n` calls of `done`. -/
def State.Nth (s : State T R) (i : Fin n) : Prop :=
  s.doneCalls.length = n ∧ s.doneCalls.getLast? = some i

/-- What each place of the caller says about the group. -/
def State.CallerOk (s : State T R) : Prop :=
  match s.caller with
  | .submitting _ | .waiting | .suspending =>
    s.passes = 0 ∧ s.handedBy = [] ∧ s.wg.waitQueue = []
  | .parked =>
    s.passes = 0 ∧ s.handedBy = [] ∧
      (s.wg.waitQueue = [callerHandle] ∧ s.doneCalls.length < n ∨
        s.wg.waitQueue = [] ∧ s.doneCalls.length = n)
  | .ready =>
    s.passes = 0 ∧ s.wg.waitQueue = [] ∧ s.doneCalls.length = n ∧ ∃ i, s.Nth i ∧ s.handedBy = [i]
  | .passed | .returned _ =>
    s.passes = 1 ∧ s.wg.waitQueue = [] ∧ s.doneCalls.length = n ∧
      (s.handedBy = [] ∨ ∃ i, s.Nth i ∧ s.handedBy = [i])

/-- What the shared state says about task `i` when its wrapper is at `w`. -/
structure State.TaskOk (s : State T R) (i : Fin n) (w : Wrapper (T i)) : Prop where
  outcome : (s.outcomes i).isSome = w.hasEnded
  ended : ∀ o, w = .ended o → s.outcomes i = some o
  value : ∀ v, w.hasStored → s.outcomes i = some (.ok v) → s.res i = some v
  stores : ∀ e, (i, e) ∈ s.stores ↔ w.hasStored ∧ s.outcomes i = some (.error e)

/-- The result slots and the stored exception. -/
structure Results (s : State T R) : Prop where
  task : ∀ i, s.TaskOk i (s.wrappers i)
  storesNodup : (s.stores.map Prod.fst).Nodup
  exception : s.exception = s.stores.head?.map Prod.snd

/-- What the calls of `done` say about wrapper `i` when it is at `w`. -/
structure State.DoneOk (s : State T R) (i : Fin n) (w : Wrapper (T i)) : Prop where
  called : i ∈ s.doneCalls ↔ w.hasDone
  noThrow : ∀ e, w ≠ .threw e
  taken : ∀ hs, w = .rescheduling hs → hs = [] ∨ hs = [callerHandle] ∧ s.caller = .parked ∧ s.Nth i

/-- The wait group and its only waiter. -/
structure Joined (s : State T R) : Prop where
  wrapper : ∀ i, s.DoneOk i (s.wrappers i)
  doneNodup : s.doneCalls.Nodup
  count : s.wg.count = n - s.doneCalls.length
  caller : s.CallerOk
  /-- A caller that has left the queue is in the hands of the last call of `done`. -/
  inHand : s.caller = .parked → s.wg.waitQueue = [] →
    ∃ i, s.Nth i ∧ s.wrappers i = .rescheduling [callerHandle]

variable {s : State T R}

theorem Results.init : Results (init T R) := by
  refine ⟨fun i => ?_, ?_, ?_⟩
  · constructor <;> simp [WhenAll.init, Wrapper.hasEnded, Wrapper.hasStored]
  · simp [WhenAll.init]
  · simp [WhenAll.init]

/-- A wrapper that moves while nothing is known or stored about its task. -/
theorem Results.move (hs : Results s) {i : Fin n} {w : Wrapper (T i)}
    (ended : w.hasEnded = (s.wrappers i).hasEnded) (plain : ∀ o, w ≠ .ended o)
    (stored : w.hasStored = (s.wrappers i).hasStored) : Results (s.setWrapper i w) where
  task := by
    refine (Function.forall_update_iff s.wrappers fun j v => (s.setWrapper i w).TaskOk j v).mpr
      ⟨?_, fun j _ => ?_⟩
    · have old := hs.task i
      exact ⟨ended ▸ old.outcome, fun o h => absurd h (plain o), stored ▸ old.value,
        stored ▸ old.stores⟩
    · have old := hs.task j
      exact ⟨old.outcome, old.ended, old.value, old.stores⟩
  storesNodup := hs.storesNodup
  exception := hs.exception

theorem Results.taskEnds (hs : Results s) {i : Fin n} (awaiting : s.wrappers i = .awaiting)
    (o : Except Exn (T i)) :
    Results { s.setWrapper i (.ended o) with
      outcomes := Function.update s.outcomes i (some o) } where
  task := by
    refine (Function.forall_update_iff s.wrappers fun j v => State.TaskOk
      { s.setWrapper i (.ended o) with outcomes := Function.update s.outcomes i (some o) } j v).mpr
      ⟨?_, fun j hj => ?_⟩
    · have old := hs.task i
      constructor
      case stores =>
        intro e
        simpa [State.setWrapper, awaiting, Wrapper.hasStored] using old.stores e
      all_goals simp [Wrapper.hasEnded, Wrapper.hasStored]
    · have old := hs.task j
      constructor <;> simp only [Function.update_of_ne hj]
      exacts [old.outcome, old.ended, old.value, old.stores]
  storesNodup := hs.storesNodup
  exception := hs.exception

theorem Results.store (hs : Results s) {i : Fin n} {o : Except Exn (T i)}
    (ended : s.wrappers i = .ended o) : Results (s.storeOutcome i o) := by
  have old := hs.task i
  rw [ended] at old
  have known : s.outcomes i = some o := old.ended o rfl
  have fresh : ∀ e, (i, e) ∉ s.stores := by simp [old.stores, Wrapper.hasStored]
  cases o with
  | ok v =>
    refine ⟨?_, hs.storesNodup, hs.exception⟩
    refine (Function.forall_update_iff s.wrappers fun j v' =>
      State.TaskOk (s.storeOutcome i (.ok v)) j v').mpr ⟨?_, fun j hj => ?_⟩
    · constructor <;> simp [State.storeOutcome, State.setWrapper, Wrapper.hasEnded,
        Wrapper.hasStored, known, fresh]
    · have other := hs.task j
      refine ⟨other.outcome, other.ended, ?_, other.stores⟩
      simpa [State.storeOutcome, State.setWrapper, hj] using other.value
  | error e =>
    refine ⟨?_, ?_, ?_⟩
    · refine (Function.forall_update_iff s.wrappers fun j v' =>
        State.TaskOk (s.storeOutcome i (.error e)) j v').mpr ⟨?_, fun j hj => ?_⟩
      · constructor <;> simp [State.storeOutcome, State.setWrapper, Wrapper.hasEnded,
          Wrapper.hasStored, known, fresh, eq_comm]
      · have other := hs.task j
        refine ⟨other.outcome, other.ended, other.value, ?_⟩
        simpa [State.storeOutcome, State.setWrapper, hj] using other.stores
    · have notStored : i ∉ s.stores.map Prod.fst := by simpa using fresh
      simp only [State.storeOutcome, List.map_append, List.map_cons, List.map_nil]
      refine List.nodup_append.mpr ⟨hs.storesNodup, List.nodup_singleton i, ?_⟩
      rintro a ha b hb rfl
      exact notStored (List.mem_singleton.mp hb ▸ ha)
    · simp only [State.storeOutcome, storeFirstException, hs.exception]
      cases s.stores <;> simp

theorem Joined.init (small : n < 2 ^ 31) : Joined (init T R) := by
  refine ⟨fun i => ?_, ?_, ?_, ?_, ?_⟩
  · constructor <;> simp [WhenAll.init, Wrapper.hasDone]
  · simp [WhenAll.init]
  · simp only [WhenAll.init, WaitGroup.add, List.length_nil]
    rw [wrapInt_of_range] <;> omega
  · simp [WhenAll.init, State.CallerOk, WaitGroup.add]
  · simp [WhenAll.init]

/-- The calls of `done` are those of different wrappers. -/
theorem Joined.length_le (hs : Joined s) : s.doneCalls.length ≤ n := by
  simpa using hs.doneNodup.length_le_card

/-- When the calls of `done` are complete, every wrapper has made one. -/
theorem Joined.mem_doneCalls (hs : Joined s) (full : s.doneCalls.length = n) (i : Fin n) :
    i ∈ s.doneCalls := by
  have univ : s.doneCalls.toFinset = Finset.univ := by
    rw [← Finset.card_eq_iff_eq_univ, List.toFinset_card_of_nodup hs.doneNodup, full,
      Fintype.card_fin]
  exact List.mem_toFinset.mp (univ ▸ Finset.mem_univ i)

/-- A wrapper that moves outside `wg.done()`. -/
theorem Joined.move (hs : Joined s) {i : Fin n} {w : Wrapper (T i)}
    (called : w.hasDone = (s.wrappers i).hasDone) (noThrow : ∀ e, w ≠ .threw e)
    (untaken : ∀ l, w ≠ .rescheduling l) (before : s.wrappers i ≠ .rescheduling [callerHandle]) :
    Joined (s.setWrapper i w) where
  wrapper := by
    refine (Function.forall_update_iff s.wrappers fun j v => (s.setWrapper i w).DoneOk j v).mpr
      ⟨?_, fun j _ => ?_⟩
    · exact ⟨called ▸ (hs.wrapper i).called, noThrow, fun l h => absurd h (untaken l)⟩
    · have old := hs.wrapper j
      exact ⟨old.called, old.noThrow, old.taken⟩
  doneNodup := hs.doneNodup
  count := hs.count
  caller := hs.caller
  inHand parked empty := by
    obtain ⟨j, nth, hand⟩ := hs.inHand parked empty
    have hj : j ≠ i := by
      rintro rfl
      exact before hand
    exact ⟨j, nth, by simp [State.setWrapper, hj, hand]⟩

/-- One more call of `done`, of a wrapper that has made none: `w` is the group after it and
`taken` what it took from the queue. -/
theorem Joined.called (hs : Joined s) {i : Fin n} (stored : s.wrappers i = .stored)
    (more : s.doneCalls.length < n) {w : WaitGroup} {taken : List Handle}
    (count : w.count = n - (s.doneCalls.length + 1))
    (last : s.doneCalls.length + 1 = n → w.waitQueue = [] ∧ taken = s.wg.waitQueue)
    (other : s.doneCalls.length + 1 ≠ n → w.waitQueue = s.wg.waitQueue ∧ taken = []) :
    Joined { s.setWrapper i (.rescheduling taken) with
      wg := w, doneCalls := s.doneCalls ++ [i] } := by
  have new : i ∉ s.doneCalls := by simp [(hs.wrapper i).called, stored, Wrapper.hasDone]
  have length : (s.doneCalls ++ [i]).length = s.doneCalls.length + 1 := List.length_append
  have caller := hs.caller
  refine ⟨?_, ?_, ?_, ?_, ?_⟩
  · refine (Function.forall_update_iff s.wrappers fun j v => State.DoneOk
      { s.setWrapper i (.rescheduling taken) with wg := w, doneCalls := s.doneCalls ++ [i] }
      j v).mpr ⟨⟨?_, ?_, ?_⟩, fun j hj => ⟨?_, (hs.wrapper j).noThrow, ?_⟩⟩
    · simp [Wrapper.hasDone]
    · simp
    · rintro l h
      cases h
      by_cases full : s.doneCalls.length + 1 = n
      · obtain ⟨-, rfl⟩ := last full
        revert caller
        cases hc : s.caller <;>
          simp only [State.CallerOk, State.setWrapper, hc, State.Nth] <;> grind
      · exact .inl (other full).2
    · simp [(hs.wrapper j).called, hj]
    · intro l h
      refine .inl (((hs.wrapper j).taken l h).resolve_right ?_)
      rintro ⟨-, -, nth⟩
      exact Nat.ne_of_lt more nth.1
  · refine List.nodup_append.mpr ⟨hs.doneNodup, List.nodup_singleton i, ?_⟩
    rintro a ha b hb rfl
    exact new (List.mem_singleton.mp hb ▸ ha)
  · simp only [length, count]
    omega
  · revert caller
    by_cases full : s.doneCalls.length + 1 = n
    · obtain ⟨queue, -⟩ := last full
      cases hc : s.caller <;> simp only [State.CallerOk, State.setWrapper, hc, length, queue] <;>
        grind
    · obtain ⟨queue, -⟩ := other full
      cases hc : s.caller <;> simp only [State.CallerOk, State.setWrapper, hc, length, queue] <;>
        grind
  · intro parked empty
    have parked : s.caller = .parked := parked
    simp only [State.CallerOk, parked] at caller
    have queue : s.wg.waitQueue = [callerHandle] := by grind
    have full : s.doneCalls.length + 1 = n := by
      by_contra h
      simp [(other h).1, queue] at empty
    refine ⟨i, ⟨length.trans full, by simp⟩, ?_⟩
    simp [State.setWrapper, (last full).2, queue]

/-- The call of `done` in wrapper `i` never throws. -/
theorem Joined.callDone (hs : Joined s) {i : Fin n} (small : n < 2 ^ 31)
    (stored : s.wrappers i = .stored) : Joined (s.callDone i) := by
  have new : i ∉ s.doneCalls := by simp [(hs.wrapper i).called, stored, Wrapper.hasDone]
  have more : s.doneCalls.length < n :=
    Nat.lt_of_le_of_ne hs.length_le fun full => new (hs.mem_doneCalls full i)
  have count := hs.count
  have positive : s.wg.count ≠ 0 := by omega
  have less : wrapInt (s.wg.count - 1) = s.wg.count - 1 :=
    wrapInt_of_range (by omega) (by omega)
  by_cases full : s.doneCalls.length + 1 = n
  · have zero : wrapInt (s.wg.count - 1) = 0 := by omega
    simp only [State.callDone, WaitGroup.done, positive, zero, if_true, if_false]
    exact hs.called stored more (by simp; omega) (fun _ => ⟨rfl, rfl⟩) (fun h => absurd full h)
  · have left : s.wg.count - 1 ≠ 0 := by omega
    simp only [State.callDone, WaitGroup.done, positive, less, left, if_false]
    exact hs.called stored more (by simp; omega) (fun h => absurd h full) (fun _ => ⟨rfl, rfl⟩)

/-- A step of the caller that leaves the wrappers alone. -/
theorem Joined.callerStep {t : State T R} (hs : Joined s) (unparked : s.caller ≠ .parked)
    (wrappers : t.wrappers = s.wrappers) (doneCalls : t.doneCalls = s.doneCalls)
    (count : t.wg.count = s.wg.count) (caller : t.CallerOk)
    (parked : t.caller = .parked → t.wg.waitQueue ≠ []) : Joined t where
  wrapper i := by
    have old := hs.wrapper i
    refine wrappers ▸ ⟨doneCalls ▸ old.called, old.noThrow, fun l h => .inl ?_⟩
    exact (old.taken l h).resolve_right fun hand => unparked hand.2.1
  doneNodup := doneCalls ▸ hs.doneNodup
  count := doneCalls ▸ count.trans hs.count
  caller := caller
  inHand h empty := absurd empty (parked h)

/-- The last call of `done` hands the caller over. -/
theorem Joined.hand (hs : Joined s) {i : Fin n} {h : Handle} {rest : List Handle}
    (eq : s.wrappers i = .rescheduling (h :: rest)) (inline : Bool) :
    Joined ((s.setWrapper i (.rescheduling rest)).reschedule i h inline) := by
  obtain impossible | ⟨only, parked, nth⟩ := (hs.wrapper i).taken _ eq
  · cases impossible
  cases only
  have caller := hs.caller
  simp only [State.CallerOk, parked] at caller
  obtain ⟨passes, handed, place⟩ := caller
  have empty : s.wg.waitQueue = [] := by
    refine (place.resolve_left fun waiting => ?_).1
    exact Nat.ne_of_lt waiting.2 nth.1
  -- every other call of `done` took nothing
  have alone : ∀ j ≠ i, ∀ l, s.wrappers j = .rescheduling l → l = [] := by
    intro j hj l hl
    refine ((hs.wrapper j).taken l hl).resolve_right fun hand => hj ?_
    exact Option.some.inj (hand.2.2.2.symm.trans nth.2)
  refine ⟨?_, ?_, ?_, ?_, ?_⟩
  · refine fun j => ?_
    by_cases hj : j = i
    · subst hj
      have called : j ∈ s.doneCalls := by simp [(hs.wrapper j).called, eq, Wrapper.hasDone]
      cases inline <;> constructor <;>
        simp [State.reschedule, State.setWrapper, State.pass, Wrapper.hasDone, called]
    · have old := hs.wrapper j
      have empty := alone j hj
      cases inline <;> constructor <;>
        simp only [State.reschedule, State.setWrapper, State.pass, if_true,
          Function.update_of_ne hj] <;>
        grind [State.DoneOk]
  · cases inline <;> exact hs.doneNodup
  · cases inline <;> exact hs.count
  · cases inline
    · simp only [State.reschedule, State.CallerOk, State.setWrapper, State.Nth, if_true]
      exact ⟨passes, empty, nth.1, i, nth, by simp [handed]⟩
    · simp only [State.reschedule, State.CallerOk, State.setWrapper, State.pass, State.Nth, if_true]
      exact ⟨by simp [passes], empty, nth.1, .inr ⟨i, nth, by simp [handed]⟩⟩
  · cases inline <;> simp [State.reschedule, State.setWrapper, State.pass]

/-- The results do not depend on the caller or the group. -/
theorem Results.congr {t : State T R} (hs : Results s) (res : t.res = s.res)
    (wrappers : t.wrappers = s.wrappers) (outcomes : t.outcomes = s.outcomes)
    (stores : t.stores = s.stores) (exception : t.exception = s.exception) : Results t where
  task i := by
    have old := hs.task i
    exact wrappers ▸ ⟨outcomes ▸ old.outcome, outcomes ▸ old.ended, outcomes ▸ res ▸ old.value,
      outcomes ▸ stores ▸ old.stores⟩
  storesNodup := stores ▸ hs.storesNodup
  exception := exception ▸ stores ▸ hs.exception

/-- The group and the places of the coroutines do not depend on the results. -/
theorem Joined.congr {t : State T R} (hs : Joined s) (wrappers : t.wrappers = s.wrappers)
    (doneCalls : t.doneCalls = s.doneCalls) (wg : t.wg = s.wg) (caller : t.caller = s.caller)
    (passes : t.passes = s.passes) (handedBy : t.handedBy = s.handedBy) : Joined t := by
  obtain ⟨wrapper, doneNodup, count, callerOk, inHand⟩ := hs
  refine ⟨fun i => ?_, doneCalls ▸ doneNodup, doneCalls ▸ wg ▸ count, ?_, ?_⟩
  · obtain ⟨called, noThrow, taken⟩ := wrapper i
    rw [wrappers]
    refine ⟨doneCalls ▸ called, noThrow, ?_⟩
    simpa only [State.Nth, doneCalls, caller] using taken
  · simpa only [State.CallerOk, State.Nth, doneCalls, wg, caller, passes, handedBy] using callerOk
  · simpa only [State.Nth, doneCalls, wg, caller, wrappers] using inHand

/-- While the caller is submitting, the wrappers it has not reached are untouched. -/
def State.Unsubmitted (s : State T R) : Prop :=
  ∀ k, s.caller = .submitting k → ∀ i : Fin n, k ≤ i → s.wrappers i = .created

/-- A wrapper can only move after its submission. -/
theorem State.Unsubmitted.move (hs : s.Unsubmitted) {t : State T R} {i : Fin n}
    {w : Wrapper (T i)} (submitted : s.wrappers i ≠ .created) (caller : t.caller = s.caller)
    (wrappers : t.wrappers = Function.update s.wrappers i w) : t.Unsubmitted := by
  intro k hk j hj
  have created := hs k (caller ▸ hk) j hj
  have hne : j ≠ i := by
    rintro rfl
    exact submitted created
  rw [wrappers, Function.update_of_ne hne, created]

/-- The caller has left its submission loop. -/
theorem State.Unsubmitted.of_left (left : ∀ k, s.caller ≠ .submitting k) : s.Unsubmitted :=
  fun k hk => absurd hk (left k)

structure Inv (s : State T R) : Prop where
  results : Results s
  joined : Joined s
  unsubmitted : s.Unsubmitted

theorem Inv.init (small : n < 2 ^ 31) : Inv (init T R) :=
  ⟨Results.init, Joined.init small, fun _ _ _ _ => rfl⟩

/-- The caller finds the counter at zero. -/
theorem Inv.passEmpty (hs : Inv s) (zero : s.wg.count = 0) (unparked : s.caller ≠ .parked)
    (caller : s.passes = 0 ∧ s.handedBy = [] ∧ s.wg.waitQueue = []) : Inv s.pass := by
  have full : s.doneCalls.length = n := by
    have := hs.joined.count
    omega
  refine ⟨hs.results.congr rfl rfl rfl rfl rfl,
    hs.joined.callerStep unparked rfl rfl rfl ?_ (by simp [State.pass]),
    .of_left (by simp [State.pass])⟩
  simp only [State.CallerOk, State.pass]
  exact ⟨by simp [caller.1], caller.2.2, full, .inl caller.2.1⟩

/-- One step of the submission loop, or its end. -/
theorem Inv.submit (hs : Inv s) {unwrap : ((i : Fin n) → Option (T i)) → Option R}
    {t : State T R} (h : step unwrap s .submit = some t) : Inv t := by
  have caller := hs.joined.caller
  simp only [step] at h
  split at h <;> [rename_i k hc; cases h]
  simp only [State.CallerOk, hc] at caller
  split at h <;> cases h
  · rename_i hk
    have created : s.wrappers ⟨k, hk⟩ = .created := hs.unsubmitted k hc _ (Nat.le_refl k)
    have results : Results (s.setWrapper ⟨k, hk⟩ .queued) := by
      apply hs.results.move <;> simp [created, Wrapper.hasEnded, Wrapper.hasStored]
    have joined : Joined (s.setWrapper ⟨k, hk⟩ .queued) := by
      apply hs.joined.move <;> simp [created, Wrapper.hasDone]
    refine ⟨results.congr rfl rfl rfl rfl rfl,
      joined.callerStep (by simp [State.setWrapper, hc]) rfl rfl rfl caller (by simp), ?_⟩
    intro k' hk' i hi
    cases hk'
    have hne : i ≠ ⟨k, hk⟩ := by
      rintro rfl
      exact Nat.not_succ_le_self k hi
    simpa [State.setWrapper, hne] using hs.unsubmitted k hc i (by omega)
  · exact ⟨hs.results.congr rfl rfl rfl rfl rfl,
      hs.joined.callerStep (by simp [hc]) rfl rfl rfl caller (by simp), .of_left (by simp)⟩

/-- The steps of the wrapper of task `i`. -/
theorem Inv.wrapperStep (hs : Inv s) (small : n < 2 ^ 31)
    {unwrap : ((i : Fin n) → Option (T i)) → Option R} {t : State T R} {i : Fin n} {a : Action T}
    (own : a = .start i ∨ (∃ o, a = .taskEnds i o) ∨ a = .store i ∨ a = .done i)
    (h : step unwrap s a = some t) : Inv t := by
  obtain rfl | ⟨o, rfl⟩ | rfl | rfl := own <;> simp only [step] at h <;> split at h <;> cases h
  · rename_i queued
    refine ⟨?_, ?_, hs.unsubmitted.move (by simp [queued]) rfl rfl⟩
    · apply hs.results.move <;> simp [queued, Wrapper.hasEnded, Wrapper.hasStored]
    · apply hs.joined.move <;> simp [queued, Wrapper.hasDone]
  · rename_i awaiting
    have moved : Joined (s.setWrapper i (.ended o)) := by
      apply hs.joined.move <;> simp [awaiting, Wrapper.hasDone]
    exact ⟨hs.results.taskEnds awaiting o, moved.congr rfl rfl rfl rfl rfl rfl,
      hs.unsubmitted.move (by simp [awaiting]) rfl rfl⟩
  · rename_i o ended
    have moved : Joined (s.setWrapper i .stored) := by
      apply hs.joined.move <;> simp [ended, Wrapper.hasDone]
    refine ⟨hs.results.store ended, ?_, ?_⟩
    · cases o <;> exact moved.congr rfl rfl rfl rfl rfl rfl
    · cases o <;> exact hs.unsubmitted.move (by simp [ended]) rfl rfl
  · rename_i stored
    have moved : ∀ w : Wrapper (T i), w.hasEnded → w.hasStored → (∀ o, w ≠ .ended o) →
        Results (s.setWrapper i w) := by
      intro w ended _ plain
      apply hs.results.move <;> simp_all [Wrapper.hasEnded, Wrapper.hasStored]
    refine ⟨?_, hs.joined.callDone small stored, ?_⟩
    · unfold State.callDone
      split <;> exact (moved _ rfl rfl (by simp)).congr rfl rfl rfl rfl rfl
    · unfold State.callDone
      split <;> exact hs.unsubmitted.move (by simp [stored]) rfl rfl

/-- A step of the loop at the end of `wg.done()`. -/
theorem Inv.reschedule (hs : Inv s) {unwrap : ((i : Fin n) → Option (T i)) → Option R}
    {t : State T R} {i : Fin n} {inline : Bool}
    (h : step unwrap s (.reschedule i inline) = some t) : Inv t := by
  simp only [step] at h
  split at h <;> cases h
  · rename_i c rest eq
    have moved : Results (s.setWrapper i (.rescheduling rest)) := by
      apply hs.results.move <;> simp [eq, Wrapper.hasEnded, Wrapper.hasStored]
    refine ⟨?_, hs.joined.hand eq inline, ?_⟩
    · unfold State.reschedule
      split <;> [split; skip] <;> exact moved.congr rfl rfl rfl rfl rfl
    · unfold State.reschedule
      split <;> [split; skip]
      · exact .of_left (by simp [State.pass])
      · exact .of_left (by simp)
      · exact hs.unsubmitted.move (by simp [eq]) rfl rfl
  · rename_i eq
    refine ⟨?_, ?_, hs.unsubmitted.move (by simp [eq]) rfl rfl⟩
    · apply hs.results.move <;> simp [eq, Wrapper.hasEnded, Wrapper.hasStored]
    · apply hs.joined.move <;> simp [eq, Wrapper.hasDone]

/-- The steps of the caller at and after `wg.wait()`. -/
theorem Inv.callerStep (hs : Inv s) {unwrap : ((i : Fin n) → Option (T i)) → Option R}
    {t : State T R} {a : Action T} (own : a = .wait ∨ a = .awaitSuspend ∨ a = .resume ∨ a = .finish)
    (h : step unwrap s a = some t) : Inv t := by
  have caller := hs.joined.caller
  have results := hs.results
  obtain rfl | rfl | rfl | rfl := own <;> simp only [step] at h <;>
    (split at h <;> [rename_i hc; cases h]) <;> simp only [State.CallerOk, hc] at caller
  · cases h
    split
    · rename_i zero
      exact hs.passEmpty (by simpa [WaitGroup.awaitReady] using zero) (by simp [hc]) caller
    · exact ⟨results.congr rfl rfl rfl rfl rfl,
        hs.joined.callerStep (by simp [hc]) rfl rfl rfl caller (by simp), .of_left (by simp)⟩
  · by_cases zero : s.wg.count = 0
    · simp only [WaitGroup.awaitSuspend, zero, if_true] at h
      cases h
      exact hs.passEmpty zero (by simp [hc]) caller
    · simp only [WaitGroup.awaitSuspend, zero, if_false] at h
      cases h
      have more : s.doneCalls.length < n := by
        have := hs.joined.count
        have := hs.joined.length_le
        omega
      refine ⟨results.congr rfl rfl rfl rfl rfl,
        hs.joined.callerStep (by simp [hc]) rfl rfl rfl ?_ (by simp), .of_left (by simp)⟩
      simp only [State.CallerOk]
      exact ⟨caller.1, caller.2.1, .inl ⟨by simp [caller.2.2], more⟩⟩
  · cases h
    obtain ⟨passes, queue, full, handed⟩ := caller
    refine ⟨results.congr rfl rfl rfl rfl rfl,
      hs.joined.callerStep (by simp [hc]) rfl rfl rfl ?_ (by simp [State.pass]),
      .of_left (by simp [State.pass])⟩
    simp only [State.CallerOk, State.pass]
    exact ⟨by simp [passes], queue, full, .inr handed⟩
  · cases h
    exact ⟨results.congr rfl rfl rfl rfl rfl,
      hs.joined.callerStep (by simp [hc]) rfl rfl rfl caller (by simp), .of_left (by simp)⟩

theorem Inv.preserved {unwrap : ((i : Fin n) → Option (T i)) → Option R} {a : Action T}
    {t : State T R} (small : n < 2 ^ 31) (hs : Inv s) (h : step unwrap s a = some t) : Inv t := by
  cases a with
  | submit => exact hs.submit h
  | start i => exact hs.wrapperStep small (.inl rfl) h
  | taskEnds i o => exact hs.wrapperStep small (.inr (.inl ⟨o, rfl⟩)) h
  | store i => exact hs.wrapperStep small (.inr (.inr (.inl rfl))) h
  | done i => exact hs.wrapperStep small (.inr (.inr (.inr rfl))) h
  | reschedule i inline => exact hs.reschedule h
  | wait => exact hs.callerStep (.inl rfl) h
  | awaitSuspend => exact hs.callerStep (.inr (.inl rfl)) h
  | resume => exact hs.callerStep (.inr (.inr (.inl rfl))) h
  | finish => exact hs.callerStep (.inr (.inr (.inr rfl))) h

end TinyCoroutine.WhenAll
