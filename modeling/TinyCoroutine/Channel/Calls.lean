import TinyCoroutine.Channel.Reported

/-!
# Calls of the channel on threads

Each call is code that a thread runs: it takes the mutex, runs its critical section, releases
the mutex, and passes the handles it collected to `reschedule_or_resume` one by one. On a
thread with a local context the handle goes to the queue of the context; on any other thread
the coroutine is resumed right there, and may call the channel again before the outer call
goes on. A thread therefore has a stack of calls. Threads are interleaved in any order.

The mutex is not recursive: `lock` waits until nobody holds it. Nothing in the step function
keeps a thread that holds the mutex from passing on a handle; that this does not happen is a
consequence of the code of the calls.
-/
namespace TinyCoroutine.Channel.Calls

open Foundation

variable {T : Type*}

inductive Instr (T : Type*) where
  | lock
  | critical (op : Op T)
  | unlock
  | reschedule (w : Wake T)

/-- The code of an operation. The batch operations return before they lock when there is
nothing to do. -/
def code : Op T → List (Instr T)
  | .trySendMany [] => []
  | .tryReceiveMany 0 => []
  | op => [.lock, .critical op, .unlock]

/-- A call in progress. -/
structure Call (T : Type*) where
  number : Nat
  code : List (Instr T)
  /-- The thread runs a coroutine that this call has resumed. -/
  resuming : Bool

structure State (T : Type*) where
  reported : Reported T
  /-- The thread that holds `mtx_`. -/
  owner : Option Nat
  /-- The calls of each thread, the innermost first. -/
  calls : Nat → List (Call T)
  /-- The number of the next call. An awaiter is named after the call that awaits it. -/
  next : Nat
  /-- Coroutines whose `await_suspend` returned true, in this order. -/
  parkedSenders : List (Handle × Nat)
  parkedReceivers : List (Handle × Nat)
  /-- Awaiters whose `await_suspend` returned false. -/
  ready : List Nat
  /-- Coroutines taken from a wait queue, each with the call that took it. -/
  removed : List (Nat × Wake T)
  /-- Coroutines passed to `reschedule_or_resume`, each with the call that did it. -/
  rescheduled : List (Nat × Wake T)
  returned : List Nat

def start (c : Channel T) : State T where
  reported := .start c
  owner := none
  calls _ := []
  next := 0
  parkedSenders := []
  parkedReceivers := []
  ready := []
  removed := []
  rescheduled := []
  returned := []

def State.setCalls (s : State T) (t : Nat) (cs : List (Call T)) : State T :=
  { s with calls := Function.update s.calls t cs }

/-- The awaiter of an operation that does not park. -/
def readyTags (c : Channel T) (op : Op T) : List Nat :=
  if op.parksSender c = [] ∧ op.parksReceiver c = [] then op.sendTags ++ op.requestTags else []

/-- The critical section of a call. -/
def State.enter (s : State T) (r : Reported T) (number : Nat) (op : Op T) : State T :=
  let c := s.reported.log.channel
  { s with
    reported := r
    parkedSenders := s.parkedSenders ++ op.parksSender c
    parkedReceivers := s.parkedReceivers ++ op.parksReceiver c
    ready := s.ready ++ readyTags c op
    removed := s.removed ++ (op.run c).2.2.map fun w => (number, w) }

inductive Action (T : Type*) where
  /-- The code that runs on a thread calls the channel. -/
  | call (t : Nat) (op : Op T)
  /-- The innermost call of a thread goes on. -/
  | exec (t : Nat)
  /-- A coroutine that was resumed on a thread suspends or ends. -/
  | back (t : Nat)

/-- Code other than a call of the channel runs on the thread. -/
def State.outside (s : State T) (t : Nat) : Prop := ∀ c ∈ (s.calls t).head?, c.resuming = true

instance (s : State T) (t : Nat) : Decidable (s.outside t) :=
  inferInstanceAs (Decidable (∀ c ∈ (s.calls t).head?, c.resuming = true))

/-- `hasContext` says which threads have a local context. -/
def step (hasContext : Nat → Bool) (s : State T) : Action T → Option (State T)
  | .call t op =>
    if s.outside t ∧ ∀ id ∈ op.sendTags ++ op.requestTags, id = s.next then
      some { s.setCalls t (⟨s.next, code op, false⟩ :: s.calls t) with next := s.next + 1 }
    else none
  | .exec t =>
    match s.calls t with
    | ⟨n, is, false⟩ :: rest =>
      match is with
      | [] => some { s.setCalls t rest with returned := s.returned ++ [n] }
      | .lock :: is =>
        if s.owner = none then
          some { s.setCalls t (⟨n, is, false⟩ :: rest) with owner := some t }
        else none
      | .critical op :: is =>
        (s.reported.step op).map fun r =>
          (s.enter r n op).setCalls t
            (⟨n, is ++ (op.run s.reported.log.channel).2.2.map .reschedule, false⟩ :: rest)
      | .unlock :: is => some { s.setCalls t (⟨n, is, false⟩ :: rest) with owner := none }
      | .reschedule w :: is =>
        some { s.setCalls t (⟨n, is, !hasContext t⟩ :: rest) with
          rescheduled := s.rescheduled ++ [(n, w)] }
    | _ => none
  | .back t =>
    match s.calls t with
    | ⟨n, is, true⟩ :: rest => some (s.setCalls t (⟨n, is, false⟩ :: rest))
    | _ => none

/-! ## The shape of the code -/

/-- What is left of the code of call `n`. -/
inductive Shape (n : Nat) : List (Instr T) → Prop where
  | entering (op : Op T) (own : ∀ id ∈ op.sendTags ++ op.requestTags, id = n) :
    Shape n [.lock, .critical op, .unlock]
  | inside (op : Op T) (own : ∀ id ∈ op.sendTags ++ op.requestTags, id = n) :
    Shape n [.critical op, .unlock]
  | leaving (wakes : List (Wake T)) : Shape n (.unlock :: wakes.map .reschedule)
  | waking (wakes : List (Wake T)) : Shape n (wakes.map .reschedule)

theorem shape_code {n : Nat} {op : Op T} (h : ∀ id ∈ op.sendTags ++ op.requestTags, id = n) :
    Shape n (code op) := by
  unfold code
  split
  · exact .waking []
  · exact .waking []
  · exact .entering _ h

section Inversion

variable {n : Nat} {op : Op T} {w : Wake T} {is : List (Instr T)}

theorem Shape.of_lock (h : Shape n (.lock :: is)) :
    ∃ op : Op T, (∀ id ∈ op.sendTags ++ op.requestTags, id = n) ∧ is = [.critical op, .unlock] := by
  generalize hl : Instr.lock :: is = l at h
  cases h with
  | entering op own => exact ⟨op, own, (List.cons.inj hl).2⟩
  | inside => cases hl
  | leaving => cases hl
  | waking wakes => cases wakes <;> cases hl

theorem Shape.of_critical (h : Shape n (.critical op :: is)) :
    (∀ id ∈ op.sendTags ++ op.requestTags, id = n) ∧ is = [.unlock] := by
  generalize hl : Instr.critical op :: is = l at h
  cases h with
  | entering => cases hl
  | inside op own =>
    cases hl
    exact ⟨own, rfl⟩
  | leaving => cases hl
  | waking wakes => cases wakes <;> cases hl

theorem Shape.of_unlock (h : Shape n (.unlock :: is)) :
    ∃ wakes : List (Wake T), is = wakes.map .reschedule := by
  generalize hl : Instr.unlock :: is = l at h
  cases h with
  | entering => cases hl
  | inside => cases hl
  | leaving wakes => exact ⟨wakes, (List.cons.inj hl).2⟩
  | waking wakes => cases wakes <;> cases hl

theorem Shape.of_reschedule (h : Shape n (.reschedule w :: is)) :
    ∃ wakes : List (Wake T), is = wakes.map .reschedule := by
  generalize hl : Instr.reschedule w :: is = l at h
  cases h with
  | entering => cases hl
  | inside => cases hl
  | leaving => cases hl
  | waking wakes =>
    cases wakes with
    | nil => cases hl
    | cons v wakes => exact ⟨wakes, (List.cons.inj hl).2⟩

end Inversion

/-- The code is at a place where it holds the mutex. -/
def holds : List (Instr T) → Bool
  | .critical _ :: _ => true
  | .unlock :: _ => true
  | _ => false

/-- The critical section is over. -/
def begun (is : List (Instr T)) : Prop := ∀ op, .critical op ∉ is

@[simp] theorem holds_wakes (wakes : List (Wake T)) :
    holds (wakes.map Instr.reschedule) = false := by
  cases wakes <;> rfl

theorem holds_code (op : Op T) : holds (code op) = false := by
  unfold code
  split <;> rfl

/-- The handles that the call has still to pass on. -/
def pending (is : List (Instr T)) : List (Wake T) :=
  is.filterMap fun
    | .reschedule w => some w
    | _ => none

@[simp] theorem pending_wakes (wakes : List (Wake T)) :
    pending (wakes.map Instr.reschedule) = wakes := by
  simp [pending, List.filterMap_map]

theorem pending_code (op : Op T) : pending (code op) = [] := by
  unfold code
  split <;> rfl

/-! ## What a step can do -/

/-- The steps, with the state each one leads to. -/
inductive Transition (hasContext : Nat → Bool) (s : State T) : State T → Prop where
  | call (t : Nat) (op : Op T) (out : s.outside t)
    (own : ∀ id ∈ op.sendTags ++ op.requestTags, id = s.next) :
    Transition hasContext s
      { s.setCalls t (⟨s.next, code op, false⟩ :: s.calls t) with next := s.next + 1 }
  | ret {t n : Nat} {rest : List (Call T)} (at_ : s.calls t = ⟨n, [], false⟩ :: rest) :
    Transition hasContext s { s.setCalls t rest with returned := s.returned ++ [n] }
  | lock {t n : Nat} {is : List (Instr T)} {rest : List (Call T)}
    (at_ : s.calls t = ⟨n, .lock :: is, false⟩ :: rest) (free : s.owner = none) :
    Transition hasContext s { s.setCalls t (⟨n, is, false⟩ :: rest) with owner := some t }
  | critical {t n : Nat} {op : Op T} {is : List (Instr T)} {rest : List (Call T)} {r : Reported T}
    (at_ : s.calls t = ⟨n, .critical op :: is, false⟩ :: rest) (run : s.reported.step op = some r) :
    Transition hasContext s ((s.enter r n op).setCalls t
      (⟨n, is ++ (op.run s.reported.log.channel).2.2.map .reschedule, false⟩ :: rest))
  | unlock {t n : Nat} {is : List (Instr T)} {rest : List (Call T)}
    (at_ : s.calls t = ⟨n, .unlock :: is, false⟩ :: rest) :
    Transition hasContext s { s.setCalls t (⟨n, is, false⟩ :: rest) with owner := none }
  | reschedule {t n : Nat} {w : Wake T} {is : List (Instr T)} {rest : List (Call T)}
    (at_ : s.calls t = ⟨n, .reschedule w :: is, false⟩ :: rest) :
    Transition hasContext s { s.setCalls t (⟨n, is, !hasContext t⟩ :: rest) with
      rescheduled := s.rescheduled ++ [(n, w)] }
  | back {t n : Nat} {is : List (Instr T)} {rest : List (Call T)}
    (at_ : s.calls t = ⟨n, is, true⟩ :: rest) :
    Transition hasContext s (s.setCalls t (⟨n, is, false⟩ :: rest))

theorem step_transition {hasContext : Nat → Bool} {s s' : State T} {a : Action T}
    (h : step hasContext s a = some s') : Transition hasContext s s' := by
  cases a with
  | call t op =>
    simp only [step] at h
    split_ifs at h with hc
    cases h
    exact .call t op hc.1 hc.2
  | exec t =>
    simp only [step] at h
    split at h
    · rename_i n is rest hcalls
      split at h
      · cases h
        exact .ret hcalls
      · split_ifs at h with hfree
        cases h
        exact .lock hcalls hfree
      · obtain ⟨r, hr, rfl⟩ := Option.map_eq_some_iff.mp h
        exact .critical hcalls hr
      · cases h
        exact .unlock hcalls
      · cases h
        exact .reschedule hcalls
    · cases h
  | back t =>
    simp only [step] at h
    split at h
    · rename_i n is rest hcalls
      cases h
      exact .back hcalls
    · cases h

end TinyCoroutine.Channel.Calls
