import TinyCoroutine.WaitGroup.Basic
import Mathlib.Data.List.Nodup

/-!
# Every waiter is handed over once, by the first operation that reaches zero

A parked coroutine is in the queue as long as no operation has brought the counter to zero
since its parking, then among the handles of the first operation that did, and is handed
over by this one. The link between the counter and the queue is kept by `done`, which
empties the queue when it reaches zero; `add` may reach zero as well and does not.
-/
namespace TinyCoroutine.WaitGroup

open TinyCoroutine.Foundation

/-- Parking `t` of the coroutine `h` is the current one, after `k` zeroing operations, and
nobody has handed the coroutine over. -/
def State.Waits (s : State) (h : Handle) (k t : Nat) : Prop :=
  t < s.parked ∧ s.coros h = .parked t ∧ s.parkings t = ⟨h, k, []⟩

structure Inv (s : State) : Prop where
  low : 0 ≤ s.group.count
  high : s.group.count < 2 ^ 31
  drained : s.group.count = 0 → s.group.waitQueue = []
  queued : ∀ h ∈ s.group.waitQueue, ∃ t, s.Waits h s.zeros t
  taken : ∀ k, ∀ h ∈ s.handles k, k < s.zeros ∧ ∃ t, s.Waits h k t
  queueNodup : s.group.waitQueue.Nodup
  handlesNodup : ∀ k, (s.handles k).Nodup
  /-- Every parking so far is still in its place or was handed over once. -/
  settled : ∀ t < s.parked,
    (∃ h k, s.Waits h k t ∧ (k = s.zeros ∧ h ∈ s.group.waitQueue ∨ h ∈ s.handles k)) ∨
      (s.parkings t).handedBy = [(s.parkings t).zeros] ∧ (s.parkings t).zeros < s.zeros
  observed : ∀ z ∈ s.observed, z = 0

theorem Inv.init : Inv init := by
  constructor <;> simp [WaitGroup.init]

namespace Inv

variable {s : State}

theorem notMem_handles (hs : Inv s) : s.handles s.zeros = [] := by
  refine List.eq_nil_iff_forall_not_mem.mpr fun h hh => ?_
  exact Nat.lt_irrefl _ (hs.taken _ h hh).1

/-- An operation that does not reach zero, or starts at zero, and leaves the queue alone. -/
theorem recount (hs : Inv s) {w : WaitGroup} (low : 0 ≤ w.count) (high : w.count < 2 ^ 31)
    (queue : w.waitQueue = s.group.waitQueue) (stays : w.count = 0 → s.group.count = 0) :
    Inv { s with group := w } where
  low := low
  high := high
  drained hz := queue.trans (hs.drained (stays hz))
  queued h hh := hs.queued h (queue ▸ hh)
  taken := hs.taken
  queueNodup := queue ▸ hs.queueNodup
  handlesNodup := hs.handlesNodup
  settled t ht := queue ▸ hs.settled t ht
  observed := hs.observed

/-- The counter reaches zero and the operation takes the whole queue. -/
theorem zeroed (hs : Inv s) : Inv { s with
    group := ⟨0, []⟩
    zeros := s.zeros + 1
    handles := Function.update s.handles s.zeros s.group.waitQueue } where
  low := Int.le_refl 0
  high := show (0 : Int) < 2 ^ 31 by decide
  drained _ := rfl
  queued h hh := by simp at hh
  taken k h hh := by
    by_cases hk : k = s.zeros
    · subst hk
      simp only [Function.update_self] at hh
      exact ⟨Nat.lt_succ_self _, hs.queued h hh⟩
    · simp only [Function.update_of_ne hk] at hh
      exact ⟨Nat.lt_succ_of_lt (hs.taken k h hh).1, (hs.taken k h hh).2⟩
  queueNodup := List.nodup_nil
  handlesNodup k := by
    by_cases hk : k = s.zeros
    · simpa [hk] using hs.queueNodup
    · simpa [hk] using hs.handlesNodup k
  settled t ht := by
    have empty := hs.notMem_handles
    obtain ⟨h, k, waits, ⟨rfl, hq⟩ | hk⟩ | ⟨once, before⟩ := hs.settled t ht
    · exact .inl ⟨h, s.zeros, waits, .inr (by simpa using hq)⟩
    · refine .inl ⟨h, k, waits, .inr ?_⟩
      have hne : k ≠ s.zeros := by
        rintro rfl
        simp [empty] at hk
      simpa [hne] using hk
    · exact .inr ⟨once, Nat.lt_succ_of_lt before⟩
  observed := hs.observed

/-- A coroutine that is not parked may change its phase. -/
theorem setCoro (hs : Inv s) {h : Handle} (free : ∀ t, s.coros h ≠ .parked t) (p : Phase) :
    Inv (s.setCoro h p) := by
  have other : ∀ {h' k t}, s.Waits h' k t → (s.setCoro h p).Waits h' k t := by
    rintro h' k t ⟨lt, parked, record⟩
    refine ⟨lt, ?_, record⟩
    have hne : h' ≠ h := fun e => free t (e ▸ parked)
    simp [State.setCoro, hne, parked]
  exact {
    low := hs.low
    high := hs.high
    drained := hs.drained
    queued := fun h' hh => (hs.queued h' hh).imp fun _ => other
    taken := fun k h' hh => ⟨(hs.taken k h' hh).1, (hs.taken k h' hh).2.imp fun _ => other⟩
    queueNodup := hs.queueNodup
    handlesNodup := hs.handlesNodup
    settled := fun t ht => (hs.settled t ht).imp
      (fun ⟨h', k, waits, place⟩ => ⟨h', k, other waits, place⟩) id
    observed := hs.observed }

theorem pass (hs : Inv s) {h : Handle} (free : ∀ t, s.coros h ≠ .parked t)
    (zero : s.group.count = 0) : Inv (s.pass h) := by
  have moved := hs.setCoro free .running
  refine { moved with observed := ?_ }
  intro z hz
  rcases List.mem_append.mp hz with old | new
  · exact hs.observed z old
  · simpa [zero] using new

theorem park (hs : Inv s) {h : Handle} (free : ∀ t, s.coros h ≠ .parked t)
    (positive : s.group.count ≠ 0) :
    Inv (s.park h { s.group with waitQueue := s.group.waitQueue ++ [h] }) := by
  have kept : ∀ {h' k t}, s.Waits h' k t →
      (s.park h { s.group with waitQueue := s.group.waitQueue ++ [h] }).Waits h' k t := by
    rintro h' k t ⟨lt, parked, record⟩
    have hne : h' ≠ h := fun e => free t (e ▸ parked)
    refine ⟨Nat.lt_succ_of_lt lt, ?_, ?_⟩
    · simp [State.park, State.setCoro, hne, parked]
    · simp [State.park, Nat.ne_of_lt lt, record]
  have new : (s.park h { s.group with waitQueue := s.group.waitQueue ++ [h] }).Waits h s.zeros
      s.parked := by
    refine ⟨Nat.lt_succ_self _, ?_, ?_⟩ <;> simp [State.park, State.setCoro]
  constructor
  case low => exact hs.low
  case high => exact hs.high
  case drained => exact fun hz => absurd hz positive
  case queued =>
    intro h' hh
    rcases List.mem_append.mp hh with old | last
    · exact (hs.queued h' old).imp fun _ => kept
    · rw [List.mem_singleton.mp last]
      exact ⟨_, new⟩
  case taken => exact fun k h' hh =>
    ⟨(hs.taken k h' hh).1, (hs.taken k h' hh).2.imp fun _ => kept⟩
  case queueNodup =>
    refine List.nodup_append.mpr ⟨hs.queueNodup, List.nodup_singleton h, ?_⟩
    rintro a ha b hb rfl
    rw [List.mem_singleton] at hb
    obtain ⟨t, -, parked, -⟩ := hs.queued a ha
    exact free t (hb ▸ parked)
  case handlesNodup => exact hs.handlesNodup
  case settled =>
    intro t ht
    rcases Nat.lt_succ_iff_lt_or_eq.mp ht with old | rfl
    · obtain ⟨h', k, waits, place⟩ | handed := hs.settled t old
      · refine .inl ⟨h', k, kept waits, place.imp (fun ⟨hz, hq⟩ => ⟨hz, ?_⟩) id⟩
        exact List.mem_append_left _ hq
      · refine .inr ?_
        simpa only [State.park, State.setCoro, Function.update_of_ne (Nat.ne_of_lt old)] using
          handed
    · exact .inl ⟨h, s.zeros, new, .inl ⟨rfl, List.mem_append_right _ List.mem_cons_self⟩⟩
  case observed => exact hs.observed

theorem hand (hs : Inv s) {k : Nat} {h : Handle} {rest : List Handle}
    (eq : s.handles k = h :: rest) (inline : Bool) : Inv (s.hand k h rest inline) := by
  obtain ⟨before, p, lt, parked, record⟩ := hs.taken k h (eq ▸ List.mem_cons_self)
  have notRest : h ∉ rest := (List.nodup_cons.mp (eq ▸ hs.handlesNodup k)).1
  -- a handle that waits for something else than this call is another one
  have kept : ∀ {h' k' t}, h' ≠ h → s.Waits h' k' t → (s.hand k h rest inline).Waits h' k' t := by
    rintro h' k' t hne ⟨lt', parked', record'⟩
    have ht : t ≠ p := by
      rintro rfl
      rw [record] at record'
      injection record' with e
      exact hne e.symm
    refine ⟨?_, ?_, ?_⟩ <;> simp [State.hand, State.setCoro, parked, hne, ht, lt', parked', record']
  have notQueued : h ∉ s.group.waitQueue := by
    intro hh
    obtain ⟨t, -, parked', record'⟩ := hs.queued h hh
    rw [parked] at parked'
    injection parked' with e
    rw [← e, record] at record'
    injection record' with _ hz
    omega
  have only : ∀ k', h ∈ s.handles k' → k' = k := by
    intro k' hh
    obtain ⟨-, t, -, parked', record'⟩ := hs.taken k' h hh
    rw [parked] at parked'
    injection parked' with e
    rw [← e, record] at record'
    injection record' with _ hz
    exact hz.symm
  have group : (s.hand k h rest inline).group = s.group := by
    simp [State.hand, State.setCoro, parked]
  have zeros : (s.hand k h rest inline).zeros = s.zeros := by
    simp [State.hand, State.setCoro, parked]
  have handles : (s.hand k h rest inline).handles = Function.update s.handles k rest := by
    simp [State.hand, State.setCoro, parked]
  constructor
  case low => exact group ▸ hs.low
  case high => exact group ▸ hs.high
  case drained => exact group ▸ hs.drained
  case queued =>
    intro h' hh
    rw [group] at hh
    rw [zeros]
    exact (hs.queued h' hh).imp fun _ => kept fun e => notQueued (e ▸ hh)
  case taken =>
    intro k' h' hh
    rw [zeros]
    rw [handles] at hh
    by_cases hk : k' = k
    · subst hk
      rw [Function.update_self] at hh
      obtain ⟨lt', t, waits⟩ := hs.taken k' h' (eq ▸ List.mem_cons_of_mem _ hh)
      exact ⟨lt', t, kept (fun e => notRest (e ▸ hh)) waits⟩
    · rw [Function.update_of_ne hk] at hh
      obtain ⟨lt', t, waits⟩ := hs.taken k' h' hh
      exact ⟨lt', t, kept (fun e => hk (only k' (e ▸ hh))) waits⟩
  case queueNodup => exact group ▸ hs.queueNodup
  case handlesNodup =>
    intro k'
    rw [handles]
    by_cases hk : k' = k
    · subst hk
      simpa using (List.nodup_cons.mp (eq ▸ hs.handlesNodup k')).2
    · simpa [hk] using hs.handlesNodup k'
  case settled =>
    intro t ht
    have ht : t < s.parked := by simpa [State.hand, State.setCoro, parked] using ht
    have parkings : (s.hand k h rest inline).parkings = Function.update s.parkings p
        { s.parkings p with handedBy := (s.parkings p).handedBy ++ [k] } := by
      simp [State.hand, State.setCoro, parked]
    rw [group, zeros, handles, parkings]
    by_cases hp : t = p
    · subst hp
      exact .inr (by simp [record, before])
    · rw [Function.update_of_ne hp]
      refine (hs.settled t ht).imp (fun ⟨h', k', waits, place⟩ => ?_) id
      have hne : h' ≠ h := by
        rintro rfl
        rw [waits.2.1] at parked
        injection parked with e
        exact hp e
      refine ⟨h', k', kept hne waits, place.imp id fun hk => ?_⟩
      by_cases hk' : k' = k
      · subst hk'
        rw [Function.update_self]
        exact (List.mem_cons.mp (eq ▸ hk)).resolve_left hne
      · rwa [Function.update_of_ne hk']
  case observed => simpa [State.hand, State.setCoro, parked] using hs.observed

/-- `add` keeps the invariant when it does not reach zero over parked coroutines. -/
theorem add (hs : Inv s) {n : Int} (counts : Counts s (.add n))
    (noZero : NoZeroingAdd s (.add n)) : Inv (s.operated (s.group.add n) []) := by
  obtain ⟨low, high⟩ := counts
  have count : (s.group.add n).count = s.group.count + n := wrapInt_of_range low high
  unfold State.operated
  split
  · rename_i reached
    have zero : s.group.count + n = 0 := count ▸ reached.2
    have empty : s.group.waitQueue = [] := noZero zero
    have same : s.group.add n = ⟨0, []⟩ := by
      rw [WaitGroup.add, wrapInt_of_range low high, zero, empty]
    have drained := hs.zeroed
    rw [empty] at drained
    rwa [same]
  · rename_i stays
    refine hs.recount (count ▸ low) (count ▸ high) rfl fun zero => ?_
    by_contra hne
    exact stays ⟨hne, zero⟩

/-- `done` keeps the invariant: it throws at zero, and takes the queue when it reaches zero. -/
theorem done (hs : Inv s) {w : WaitGroup} {taken : List Handle}
    (h : s.group.done = .ok (w, taken)) : Inv (s.operated w taken) := by
  unfold WaitGroup.done at h
  split at h
  · cases h
  rename_i positive
  have low := hs.low
  have high := hs.high
  have count : wrapInt (s.group.count - 1) = s.group.count - 1 :=
    wrapInt_of_range (by omega) (by omega)
  split at h <;> cases h
  · simpa [State.operated, positive] using hs.zeroed
  · rename_i more
    rw [State.operated, if_neg fun reached => more reached.2]
    refine hs.recount ?_ ?_ rfl fun zero => absurd zero more
    · simp only [count]
      omega
    · simp only [count]
      omega

theorem preserved {a : Action} {s' : State} (hs : Inv s) (counts : Counts s a)
    (noZero : NoZeroingAdd s a) (h : step s a = some s') : Inv s' := by
  cases a with
  | add n =>
    cases h
    exact hs.add counts noZero
  | done =>
    simp only [step] at h
    split at h <;> cases h
    · rename_i ok
      exact hs.done ok
    · exact hs
  | wait c =>
    simp only [step] at h
    split at h <;> cases h
    rename_i running
    have free : ∀ t, s.coros c ≠ .parked t := by simp [running]
    split
    · rename_i zero
      exact hs.pass free (by simpa [awaitReady] using zero)
    · exact hs.setCoro free _
  | awaitSuspend c =>
    simp only [step] at h
    split at h <;> [rename_i suspending; cases h]
    have free : ∀ t, s.coros c ≠ .parked t := by simp [suspending]
    unfold WaitGroup.awaitSuspend at h
    by_cases zero : s.group.count = 0
    · simp only [zero, if_true] at h
      cases h
      exact hs.pass free zero
    · simp only [zero, if_false] at h
      cases h
      exact hs.park free zero
  | wake k inline =>
    simp only [step] at h
    split at h <;> cases h
    rename_i eq
    exact hs.hand eq inline
  | resume c =>
    simp only [step] at h
    split at h <;> cases h
    rename_i ready
    exact hs.setCoro (by simp [ready]) _

end Inv

/-- What the waiters of a group can rely on. -/
structure NeverStranded (s : State) : Prop where
  drained : s.group.count = 0 → s.group.waitQueue = []
  /-- A parking of which no operation has reached zero since is in the queue; otherwise it is
  the first such operation, and no other, that has handed it over or still has it to do. -/
  handed : ∀ t < s.parked,
    (s.parkings t).handedBy = [] ∧ (s.parkings t).zeros = s.zeros ∧
        (s.parkings t).handle ∈ s.group.waitQueue ∨
      (s.parkings t).handedBy = [] ∧ (s.parkings t).zeros < s.zeros ∧
        (s.handles (s.parkings t).zeros).count (s.parkings t).handle = 1 ∨
      (s.parkings t).handedBy = [(s.parkings t).zeros] ∧ (s.parkings t).zeros < s.zeros
  observed : ∀ z ∈ s.observed, z = 0

theorem Inv.neverStranded {s : State} (hs : Inv s) : NeverStranded s where
  drained := hs.drained
  handed t ht := by
    obtain ⟨h, k, ⟨-, -, record⟩, ⟨rfl, hq⟩ | hk⟩ | handed := hs.settled t ht
    · exact .inl (by simp [record, hq])
    · refine .inr (.inl ?_)
      rw [record]
      exact ⟨rfl, (hs.taken k h hk).1, List.count_eq_one_of_mem (hs.handlesNodup k) hk⟩
    · exact .inr (.inr handed)
  observed := hs.observed

/-- As long as no `add` reaches zero over parked coroutines, no waiter is stranded. -/
theorem waiters_never_stranded {s : State}
    (run : Run step (fun s a => Counts s a ∧ NoZeroingAdd s a) WaitGroup.init s) :
    NeverStranded s :=
  (run.invariant Inv.init fun hs hc h => hs.preserved hc.1 hc.2 h).neverStranded

/-- A coroutine parks, two calls of `done` reach zero, and the second hands it over. -/
theorem waiters_never_stranded_two_done :
    ∃ s, Run step (fun s a => Counts s a ∧ NoZeroingAdd s a) WaitGroup.init s ∧
      (s.parked = 1 ∧ (s.parkings 0).handedBy = [0]) ∧ NeverStranded s := by
  obtain ⟨s, run, handed⟩ := exists_run step (fun s a => Counts s a ∧ NoZeroingAdd s a)
    WaitGroup.init
    [.add 2, .wait 7, .awaitSuspend 7, .done, .done, .wake 0 false, .resume 7]
    (fun s => s.parked = 1 ∧ (s.parkings 0).handedBy = [0]) (by decide)
  exact ⟨s, run, handed, waiters_never_stranded run⟩

/-- A negative `add` that reaches zero leaves the parked coroutine in the queue. -/
theorem negative_add_strands :
    ∃ s, Run step Counts WaitGroup.init s ∧ ¬ NeverStranded s := by
  obtain ⟨s, run, zero, queue⟩ := exists_run step Counts WaitGroup.init
    [.add 1, .wait 7, .awaitSuspend 7, .add (-1)]
    (fun s => s.group.count = 0 ∧ s.group.waitQueue = [7]) (by decide)
  refine ⟨s, run, fun never => ?_⟩
  simp [never.drained zero] at queue

end TinyCoroutine.WaitGroup
