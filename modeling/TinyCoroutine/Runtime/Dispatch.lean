import TinyCoroutine.Runtime.Epochs
import TinyCoroutine.Runtime.Submitters
import Mathlib.Data.Int.CardIntervalMod

/-!
# Where the dispatcher sends tasks

`submit_new` asks the dispatcher while it holds `state_mutex_`, and pushes into the queue of the
chosen context after it has released it. In every epoch, and whichever threads submit in which
order, the tasks that are accepted go to the contexts in turn: the `k`-th one to the task queue of
context `k mod 2^64 mod n`. As long as the counter has not wrapped around, the shares of two
contexts differ by one task at most.
-/
namespace TinyCoroutine.Runtime

open Foundation

variable {s t : State} {a : Action} {c : Nat}

/-! ### What a step says about the dispatcher -/

/-- The tasks that a step of a submission has added to the accepted ones. -/
def admitting (s : State) (a : Action) (t : State) : List Handle :=
  match a with
  | .submission _ => t.accepted.drop s.accepted.length
  | _ => []

/-- The push that a submitter has before it once it has left the critical section. -/
def preparing (s : State) (a : Action) (t : State) : Option (Handle × Nat) :=
  match a with
  | .submission who =>
    match s.submission who, t.submission who with
    | some (.stateLock _), some (.push c h) => some (h, c)
    | _, _ => none
  | _ => none

/-- A scheduler over several epochs. -/
structure DispatchState where
  runtime : State
  /-- The tasks that `submit_new` has accepted in the current epoch. -/
  admitted : List Handle := []
  /-- The pushes that its callers then had before them. -/
  dispatched : List (Handle × Nat) := []
  /-- The number of the push that a submitter still has before it. -/
  turn : Submitter → Option Nat := fun _ => none
  /-- The numbers of the pushes that have been made. -/
  made : List Nat := []

namespace DispatchState

def constructed : DispatchState where
  runtime := EpochState.constructed.runtime

/-- The record of a step that leads to `r`. -/
def record (s : DispatchState) (a : Action) (r : State) : DispatchState where
  runtime := r
  admitted := s.admitted ++ admitting s.runtime a r
  dispatched := s.dispatched ++ (preparing s.runtime a r).toList
  turn :=
    match a with
    | .submission who =>
      Function.update s.turn who ((preparing s.runtime a r).map fun _ => s.dispatched.length)
    | _ => s.turn
  made :=
    match a with
    | .submission who => s.made ++ (s.turn who).toList
    | _ => s.made

def step (s : DispatchState) : EpochAction → Option DispatchState
  | .runtime a => (Runtime.step s.runtime a).map (s.record a)
  | .init contextCount => (initStep s.runtime contextCount).map fun r =>
    if s.runtime.initialized then s else { runtime := r }

end DispatchState

/-! ### One step -/

/-- The first context of the current epoch. -/
def State.first (s : State) : Nat := s.ctxs.length - s.contextCount

/-- `contexts_` is what `init` has made it, or has been swapped out. -/
structure State.InTurn (s : State) : Prop where
  count : 0 < s.contextCount
  contexts : s.initialized = true → s.contexts = (List.range s.contextCount).map (s.first + ·)
  none : s.initialized = false → s.contexts = []

theorem Transition.inTurn (h : Transition s a t) (hs : s.InTurn) : t.InTurn := by
  have hlen := h.length_ctxs
  have same (hcontexts : t.contexts = s.contexts) (hcount : t.contextCount = s.contextCount)
      (hinit : t.initialized = s.initialized) : t.InTurn := by
    constructor
    · exact hcount ▸ hs.count
    · rw [hinit, hcontexts, State.first, hlen, hcount]
      exact hs.contexts
    · rw [hinit, hcontexts]
      exact hs.none
  cases h with
  | @reject who | @accept who | @push who | @notify who => cases who <;> exact same rfl rfl rfl
  | swap => exact ⟨hs.count, by simp, fun _ => rfl⟩
  | _ => exact same rfl rfl rfl

theorem Transition.contextCount (h : Transition s a t) : t.contextCount = s.contextCount := by
  cases h with
  | @reject who | @accept who | @push who | @notify who => cases who <;> rfl
  | _ => rfl

/-- A step accepts a task through the dispatcher and has its push ahead, or leaves the dispatcher
alone. -/
inductive DispatchStep (s : State) (a : Action) (t : State) : Prop where
  | one (who : Submitter) (h : Handle) (c : Nat) : a = .submission who → admitting s a t = [h] →
      preparing s a t = some (h, c) → t.submission who = some (.push c h) →
      s.initialized = true → s.contexts[s.next % s.contextCount]? = some c →
      t.next = (s.next + 1) % 2 ^ 64 → DispatchStep s a t
  | none : admitting s a t = [] → preparing s a t = none → t.next = s.next → DispatchStep s a t

theorem Transition.dispatchStep (h : Transition s a t) : DispatchStep s a t := by
  cases h with
  | @accept who h c hp hlock hinit haccept hc =>
    have hpush : (({ s.accept h with next := (s.next + 1) % 2 ^ 64 } : State).setSubmission
        (some (.push c h)) who).submission who = some (.push c h) :=
      State.submission_setSubmission (s := { s.accept h with next := _ }) hp
    refine .one who h c rfl ?_ ?_ hpush hinit hc ?_
    · simp [admitting, State.accept]
    · simp only [preparing, hp, hpush]
    · cases who <;> rfl
  | @reject who h hp =>
    have hnone : ((s.refuse h).setSubmission none who).submission who = none :=
      submission_setSubmission_none (s := s.refuse h) hp
    refine .none ?_ ?_ ?_
    · simp [admitting, State.refuse]
    · simp only [preparing, hp, hnone]
    · cases who <;> rfl
  | @push who c h hp | @notify who c hp =>
    refine .none ?_ ?_ ?_
    · cases who <;> simp [admitting, State.modifyCtx, State.notifyWorker, State.setSubmission,
        State.setCall]
    · simp only [preparing, hp]
    · cases who <;> rfl
  | moveCall _ hm => cases hm <;> exact .none rfl rfl rfl
  | moveWorker _ _ hm => cases hm <;> exact .none rfl rfl rfl
  | _ => exact .none rfl rfl rfl

/-! ### Along a run -/

namespace DispatchState

variable {s t : DispatchState} {b : EpochAction}

/-- The position at which `dispatch` places the `k`-th task. -/
def place (s : DispatchState) (k : Nat) : Nat :=
  s.runtime.first + k % 2 ^ 64 % s.runtime.contextCount

structure Placed (s : DispatchState) : Prop where
  turn : s.runtime.InTurn
  next : s.runtime.next = s.dispatched.length % 2 ^ 64
  places : s.dispatched.map Prod.snd = (List.range s.dispatched.length).map s.place
  admitted : s.dispatched.map Prod.fst = s.admitted
  ahead : ∀ who k, s.turn who = some k → ∃ h c, s.dispatched[k]? = some (h, c) ∧
    s.runtime.submission who = some (.push c h)

theorem Placed.constructed : Placed constructed where
  turn := ⟨by decide, fun h => absurd h (by decide), fun _ => rfl⟩
  next := rfl
  places := rfl
  admitted := rfl
  ahead _ _ h := by cases h

theorem Placed.runtime {a : Action} {r : State} (I : Placed s)
    (h : Transition s.runtime a r) : Placed (s.record a r) := by
  have hplace : ∀ k, (s.record a r).place k = s.place k := by
    intro k
    simp only [record, place, State.first, h.length_ctxs, h.contextCount]
  -- A submitter keeps its push until it makes the step itself.
  have hahead : ∀ w k, a ≠ .submission w → s.turn w = some k → ∃ h c,
      (s.record a r).dispatched[k]? = some (h, c) ∧ r.submission w = some (.push c h) := by
    intro w k hne hk
    obtain ⟨g, c, hg, hp⟩ := I.ahead w k hk
    refine ⟨g, c, ?_, h.keeps_submission hne hp⟩
    exact (List.getElem?_append_left (List.getElem?_eq_some_iff.mp hg).1).trans hg
  cases h.dispatchStep with
  | none hadmit hprepare hnext =>
    have hdispatched : (s.record a r).dispatched = s.dispatched := by simp [record, hprepare]
    refine ⟨h.inTurn I.turn, ?_, ?_, ?_, ?_⟩
    · rw [hdispatched]
      exact hnext.trans I.next
    · rw [hdispatched, I.places]
      exact List.map_congr_left fun k _ => (hplace k).symm
    · rw [hdispatched, I.admitted]
      simp [record, hadmit]
    · intro w k hk
      refine hahead w k ?_ ?_
      · rintro rfl
        simp [record, hprepare] at hk
      · cases a with
        | submission who =>
          by_cases hw : w = who
          · subst hw
            simp [record, hprepare] at hk
          · simpa [record, hw] using hk
        | _ => exact hk
  | one who g c ha hadmit hprepare hpush hinit hc hnext =>
    subst ha
    have hdispatched : (s.record (.submission who) r).dispatched = s.dispatched ++ [(g, c)] := by
      simp [record, hprepare]
    refine ⟨h.inTurn I.turn, ?_, ?_, ?_, ?_⟩
    · rw [hdispatched, List.length_append, List.length_singleton]
      refine hnext.trans ?_
      rw [I.next, Nat.mod_add_mod]
    · have hlt := Nat.mod_lt s.runtime.next I.turn.count
      have hcplace : c = s.place s.dispatched.length := by
        rw [I.turn.contexts hinit, List.getElem?_map, List.getElem?_range hlt] at hc
        rw [place, ← I.next]
        exact (Option.some.inj hc).symm
      rw [hdispatched, List.map_append, List.length_append, List.length_singleton,
        List.range_succ, List.map_append, I.places, List.map_singleton, List.map_singleton, hplace,
        ← hcplace]
      congr 1
      exact List.map_congr_left fun k _ => (hplace k).symm
    · rw [hdispatched, List.map_append, I.admitted]
      simp [record, hadmit]
    · intro w k hk
      by_cases hw : w = who
      · subst hw
        obtain rfl : s.dispatched.length = k := by simpa [record, hprepare] using hk
        refine ⟨g, c, ?_, hpush⟩
        rw [hdispatched, List.getElem?_concat_length]
      · refine hahead w k (fun heq => hw (by cases heq; rfl)) ?_
        simpa [record, hw] using hk

theorem Placed.init {n : Nat} {r : State} (I : Placed s) (hinit : s.runtime.initialized = false)
    (h : initStep s.runtime n = some r) : Placed { runtime := r } := by
  have hnone := I.turn.none hinit
  simp only [initStep, hinit, hnone, List.nil_append] at h
  generalize hcount : (if n = 0 then 1 else n) = count at h
  have hpos : 0 < count := by
    rw [← hcount]
    split <;> omega
  split at h
  · cases h
  cases h
  refine ⟨⟨hpos, fun _ => ?_, by simp⟩, rfl, rfl, rfl, fun _ _ hk => by cases hk⟩
  simp [State.first]

theorem Placed.of_run (run : Run step Always DispatchState.constructed s) : Placed s := by
  refine run.invariant .constructed ?_
  intro s b t I _ hstep
  cases b with
  | runtime a =>
    obtain ⟨r, hr, rfl⟩ := Option.map_eq_some_iff.mp hstep
    exact I.runtime (step_transition hr)
  | init n =>
    obtain ⟨r, hr, rfl⟩ := Option.map_eq_some_iff.mp hstep
    split
    · exact I
    · rename_i hinit
      exact I.init (by simpa using hinit) hr

/-- Every push is made once, or is still before one submitter. -/
structure Turns (s : DispatchState) : Prop where
  delivered : ∀ k < s.dispatched.length, k ∈ s.made ∨ ∃ who, s.turn who = some k
  once : s.made.Nodup
  below : ∀ k ∈ s.made, k < s.dispatched.length
  ahead : ∀ who k, s.turn who = some k → k < s.dispatched.length ∧ k ∉ s.made
  single : ∀ who who' k, s.turn who = some k → s.turn who' = some k → who = who'

theorem Turns.congr (T : Turns s) (hdispatched : t.dispatched = s.dispatched)
    (hturn : t.turn = s.turn) (hmade : t.made = s.made) : Turns t := by
  constructor <;> simp only [hdispatched, hturn, hmade]
  · exact T.delivered
  · exact T.once
  · exact T.below
  · exact T.ahead
  · exact T.single

theorem Turns.recorded (T : Turns s) (a : Action) (r : State) : Turns (s.record a r) := by
  have hgrows : s.dispatched.length ≤ (s.record a r).dispatched.length := by simp [record]
  cases a with
  | submission who =>
    have hmade : (s.record (.submission who) r).made = s.made ++ (s.turn who).toList := rfl
    have hother : ∀ w, w ≠ who → (s.record (.submission who) r).turn w = s.turn w :=
      fun w hw => Function.update_of_ne hw _ _
    -- the number of the push that is new
    have hself : ∀ k, (s.record (.submission who) r).turn who = some k →
        k = s.dispatched.length ∧
          (s.record (.submission who) r).dispatched.length = s.dispatched.length + 1 := by
      intro k hk
      simp only [record, Function.update_self, Option.map_eq_some_iff] at hk
      obtain ⟨p, hp, rfl⟩ := hk
      simp [record, hp]
    have hbelow : ∀ k ∈ (s.record (.submission who) r).made, k < s.dispatched.length := by
      intro k hk
      rw [hmade, List.mem_append, Option.mem_toList] at hk
      exact hk.elim (T.below k) fun hk => (T.ahead who k hk).1
    constructor
    · intro k hk
      rw [hmade]
      by_cases hnew : k < s.dispatched.length
      · obtain hk | ⟨w, hw⟩ := T.delivered k hnew
        · exact .inl (List.mem_append_left _ hk)
        · by_cases hwho : w = who
          · exact .inl (List.mem_append_right _ (by simpa [hwho] using hw))
          · exact .inr ⟨w, (hother w hwho).trans hw⟩
      · refine .inr ⟨who, ?_⟩
        simp only [record, List.length_append] at hk
        cases hp : preparing s.runtime (.submission who) r with
        | none => simp [hp] at hk; omega
        | some p =>
          simp only [hp, Option.toList_some, List.length_singleton] at hk
          simp only [record, hp, Function.update_self, Option.map_some, Option.some.injEq]
          omega
    · rw [hmade, List.nodup_append]
      refine ⟨T.once, by cases s.turn who <;> simp, fun k hk l hl heq => ?_⟩
      exact (T.ahead who l (by simpa using hl)).2 (heq ▸ hk)
    · exact fun k hk => (hbelow k hk).trans_le hgrows
    · intro w k hk
      by_cases hwho : w = who
      · subst hwho
        obtain ⟨rfl, hlen⟩ := hself k hk
        exact ⟨by omega, fun hmem => Nat.lt_irrefl _ (hbelow _ hmem)⟩
      · rw [hother w hwho] at hk
        obtain ⟨hlt, hfresh⟩ := T.ahead w k hk
        refine ⟨hlt.trans_le hgrows, fun hmem => ?_⟩
        rw [hmade, List.mem_append, Option.mem_toList] at hmem
        exact hmem.elim hfresh fun hk' => hwho (T.single w who k hk hk')
    · intro w w' k hw hw'
      by_cases hwho : w = who
      · by_cases hwho' : w' = who
        · exact hwho.trans hwho'.symm
        · subst hwho
          rw [hother w' hwho'] at hw'
          exact absurd (T.ahead w' k hw').1 (by simp [(hself k hw).1])
      · rw [hother w hwho] at hw
        by_cases hwho' : w' = who
        · subst hwho'
          exact absurd (T.ahead w k hw).1 (by simp [(hself k hw').1])
        · rw [hother w' hwho'] at hw'
          exact T.single w w' k hw hw'
  | _ => exact T.congr (List.append_nil _) rfl rfl

theorem Turns.of_run (run : Run step Always DispatchState.constructed s) : Turns s := by
  have hfresh : ∀ r, Turns { runtime := r } := fun _ => by constructor <;> simp
  refine run.invariant (hfresh _) ?_
  intro s b t T _ hstep
  cases b with
  | runtime a =>
    obtain ⟨r, -, rfl⟩ := Option.map_eq_some_iff.mp hstep
    exact T.recorded a r
  | init n =>
    obtain ⟨r, -, rfl⟩ := Option.map_eq_some_iff.mp hstep
    split
    · exact T
    · exact hfresh r

theorem Placed.placed (I : Placed s) {k c : Nat} {h : Handle}
    (hk : s.dispatched[k]? = some (h, c)) : c = s.place k := by
  have hc : (s.dispatched.map Prod.snd)[k]? = some c := by
    rw [List.getElem?_map, hk]
    rfl
  have hlt := (List.getElem?_eq_some_iff.mp hk).1
  rw [I.places, List.getElem?_map, List.getElem?_range hlt] at hc
  exact (Option.some.inj hc).symm

end DispatchState

end TinyCoroutine.Runtime
