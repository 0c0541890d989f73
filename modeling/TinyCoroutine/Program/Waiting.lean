import TinyCoroutine.Program.Objects
import TinyCoroutine.Runtime.Counters

/-!
# What an idle scheduler waits for

A program is a set of tasks on a scheduler that share any finite number of channels, mutexes and
wait groups. Whoever is parked waits in one of these objects, or has been taken out of it by a
call that is about to reschedule it; this step is always possible.

When every worker sleeps with nothing to do, nobody is left but those who wait in an object:
`pending_tasks_`, the number that keeps `loop()` from returning, counts exactly them.
-/
namespace TinyCoroutine.Program

open Foundation
open TinyCoroutine.Runtime

/-! ### An idle scheduler -/

section Idle

variable {σ ω : Type*} {Q : WaitQueues Handle σ ω} {s : State σ}

/-- Every worker sleeps in front of empty queues, and nobody is submitting. -/
structure Idle (s : Runtime.State) : Prop where
  workers : ∀ x ∈ s.ctxs, x.worker = .blocked ∧ x.engine.empty = true
  calls : ∀ k ∈ s.calls, k.submission = none

/-- The schedulers whose workers do not overtake each other (`SettledResume`). -/
def Settled (s : State σ) : Action ω → Prop
  | .runtime a => SettledResume s.runtime a
  | _ => True

instance (s : State σ) (a : Action ω) : Decidable (Settled s a) :=
  match a with
  | .runtime a => inferInstanceAs (Decidable (SettledResume s.runtime a))
  | .operate _ _ | .reschedule _ => inferInstanceAs (Decidable True)

theorem Idle.marks {s : Runtime.State} (h : Idle s) (I : CountersExact s) :
    s.marks = (s.parked : Multiset Handle).map (Mark.mk (.waiting .parked)) := by
  have hctxs : sumIdx Context.marks s.ctxs = 0 := by
    refine Multiset.eq_zero_of_forall_notMem fun m hm => ?_
    obtain ⟨c, x, hx, hm⟩ := (mem_sumIdx _).mp hm
    obtain ⟨hw, hempty⟩ := h.workers x (List.mem_of_getElem? hx)
    have hio : x.engine.ioHandles = 0 := by
      rw [← Multiset.card_eq_zero, ← I.io c x hx]
      exact I.asleep c x hx (by simp [hw, WorkerPc.asleep])
    have hbatch : x.batch = [] := I.regular.batches c x hx (by simp [hw, WorkerPc.inBatch])
    have htasks := Engine.taskQueue_of_empty hempty
    simp [Context.marks, Context.tasks, hio, hbatch, htasks, hw, WorkerPc.marks] at hm
  have hcalls : sumIdx (fun _ => Call.marks) s.calls = 0 := by
    refine Multiset.eq_zero_of_forall_notMem fun m hm => ?_
    obtain ⟨i, k, hk, hm⟩ := (mem_sumIdx _).mp hm
    simp [Call.marks, h.calls k (List.mem_of_getElem? hk), submissionMarks] at hm
  rw [State.marks, hctxs, hcalls, zero_add, zero_add]

end Idle

/-! ### Programs with channels, mutexes and wait groups -/

section Objects

variable {ι κ ν : Type} [Fintype ι] [DecidableEq ι] [Fintype κ] [DecidableEq κ] [Fintype ν]
  [DecidableEq ν] {T : ι → Type}

/-- The objects of a program; the channels may have different payloads. -/
abbrev Objects (T : ι → Type) (κ ν : Type) : Type :=
  (∀ i, Channel (T i)) × (κ → AsyncMutex) × (ν → WaitGroup)

def objects (T : ι → Type) (κ ν : Type) [Fintype κ] [DecidableEq κ] [Fintype ν] [DecidableEq ν] :=
  (WaitQueues.family fun i => Channel.waitQueues (T i)).prod
    ((WaitQueues.family fun _ : κ => AsyncMutex.waitQueues).prod
      (WaitQueues.family fun _ : ν => WaitGroup.waitQueues))

/-- All objects have just been constructed. -/
structure Fresh (o : Objects T κ ν) : Prop where
  channels : ∀ i, Channel.Constructed (o.1 i)
  mutexes : ∀ k, o.2.1 k = {}
  groups : ∀ v, o.2.2 v = {}

theorem Fresh.valid {o : Objects T κ ν} (h : Fresh o) : (objects T κ ν).Valid o :=
  ⟨fun i => ⟨[], (h.channels i).wellFormed⟩, fun _ => trivial, fun _ => trivial⟩

theorem Fresh.waiting {o : Objects T κ ν} (h : Fresh o) : (objects T κ ν).waiting o = 0 := by
  have hchannels : ∑ i, (o.1 i).waiting = 0 :=
    Finset.sum_eq_zero fun i _ => Channel.waiting_of_constructed (h.channels i)
  have hmutexes : ∑ k, ((o.2.1 k).waitQueue : Multiset Handle) = 0 :=
    Finset.sum_eq_zero fun k _ => by rw [h.mutexes k]; rfl
  have hgroups : ∑ v, ((o.2.2 v).waitQueue : Multiset Handle) = 0 :=
    Finset.sum_eq_zero fun v _ => by rw [h.groups v]; rfl
  change ∑ i, (o.1 i).waiting + (∑ k, ((o.2.1 k).waitQueue : Multiset Handle) +
    ∑ v, ((o.2.2 v).waitQueue : Multiset Handle)) = 0
  rw [hchannels, hmutexes, hgroups]
  rfl

/-- An operation on the objects is one on each channel, or leaves it alone. -/
theorem run_channel {o : Objects T κ ν} {h : Handle} {op : _} {e : Effect (Objects T κ ν) Handle}
    (he : (objects T κ ν).run o h op = some e) (i : ι) :
    e.state.1 i = o.1 i ∨
      ∃ p : Channel.Op (T i), Channel.step (o.1 i) (.op p) = some (e.state.1 i) := by
  rcases op with ⟨j, p⟩ | op
  · obtain ⟨d, hd, rfl⟩ := Option.map_eq_some_iff.mp he
    obtain ⟨f, hf, rfl⟩ := Option.map_eq_some_iff.mp hd
    by_cases hij : i = j
    · subst hij
      refine .inr ⟨p, ?_⟩
      simp [Channel.step, Channel.Operation.run, Channel.state_of_run hf]
    · exact .inl (Function.update_of_ne hij _ _)
  · obtain ⟨d, -, rfl⟩ := Option.map_eq_some_iff.mp he
    exact .inl rfl

/-- The channels of a program take no steps but those of a channel. -/
theorem channel_run {C : State (Objects T κ ν) → Action _ → Prop} {n : Nat} {o : Objects T κ ν}
    {s : State (Objects T κ ν)} (run : Run (step (objects T κ ν)) C (start n o) s) (i : ι) :
    Run Channel.step Always (o.1 i) (s.objects.1 i) := by
  induction run with
  | refl => exact .refl
  | snoc _ _ hs ih =>
    cases step_rule hs with
    | runtime | reschedule => exact ih
    | park _ _ _ he | operate _ _ _ he =>
      rcases run_channel he i with hsame | ⟨p, hp⟩
      · dsimp only
        rwa [hsame]
      · exact ih.snoc trivial hp

/-- What the objects and the scheduler of a program know of each other. -/
structure Agrees (o : Objects T κ ν) (s : State (Objects T κ ν)) : Prop where
  parked : (s.runtime.parked : Multiset Handle) =
    ∑ i, (s.objects.1 i).waiting + (∑ k, ((s.objects.2.1 k).waitQueue : Multiset Handle) +
      ∑ v, ((s.objects.2.2 v).waitQueue : Multiset Handle)) +
    ∑ c ∈ Finset.range s.runtime.ctxs.length, (s.wakes c : Multiset Handle)
  /-- A call that has handles to reschedule is on a worker that runs a coroutine, and its next
  step is enabled once the worker is done with the previous one. -/
  rescheduling : ∀ (c : Nat) (g : Handle) (rest : List Handle), s.wakes c = g :: rest →
    ∃ (x : Context) (h : Handle) (p : Option SubmitPc), s.runtime.ctxs[c]? = some x ∧
      x.worker = .running h p ∧
      (p = none → ∃ t, step (objects T κ ν) s (.reschedule c) = some t)
  /-- Each channel is in a state that it reaches by its own operations. -/
  channels : ∀ i, Run Channel.step Always (o.1 i) (s.objects.1 i)

/-- Whoever waits in a channel, a mutex or a wait group is parked in the scheduler, and nobody
else is: a coroutine is never rescheduled twice, or before it has parked, or not at all. -/
theorem parked_wait_in_objects {n : Nat} {o : Objects T κ ν} {s : State (Objects T κ ν)}
    (hfresh : Fresh o) (run : Run (step (objects T κ ν)) Always (start n o) s) : Agrees o s := by
  have I := attended_of_run hfresh.valid hfresh.waiting run
  refine ⟨I.parked, fun c g rest hwakes => ?_, channel_run run⟩
  obtain ⟨h, x, p, hx, hw⟩ := I.busy c (by simp [hwakes])
  refine ⟨x, h, p, hx, hw, ?_⟩
  rintro rfl
  exact (I.can_reschedule hwakes hx hw).2

/-- A program with one object of each kind. -/
def oneOfEach : Objects (fun _ : Unit => Nat) Unit Unit :=
  (fun _ => Channel.default false, fun _ => {}, fun _ => {})

theorem fresh_oneOfEach : Fresh oneOfEach :=
  ⟨fun _ => ⟨false, .inl rfl⟩, fun _ => rfl, fun _ => rfl⟩

/-- Coroutine 5 waits for a value; coroutine 6 sends it and has not rescheduled 5 yet. -/
theorem parked_wait_in_objects_handoff :
    ∃ s, Run (step (objects (fun _ : Unit => Nat) Unit Unit)) Always (start 2 oneOfEach) s ∧
      s.wakes 1 = [5] ∧ s.runtime.parked = [5] ∧ Agrees oneOfEach s := by
  obtain ⟨s, run, hwakes, hparked⟩ := exists_run
    (step (objects (fun _ : Unit => Nat) Unit Unit)) Always (start 2 oneOfEach)
    [.runtime (.callSubmit 5), .runtime (.submission (.call 0)), .runtime (.submission (.call 0)),
      .runtime (.callSubmit 6), .runtime (.submission (.call 1)), .runtime (.submission (.call 1)),
      .runtime (.worker 0), .runtime (.worker 0), .operate 0 (.inl ⟨(), .awaitReceive 5 0⟩),
      .runtime (.worker 1), .runtime (.worker 1), .operate 1 (.inl ⟨(), .trySend 42⟩)]
    (fun s => s.wakes 1 = [5] ∧ s.runtime.parked = [5]) (by decide)
  exact ⟨s, run, hwakes, hparked, parked_wait_in_objects fresh_oneOfEach run⟩

end Objects

end TinyCoroutine.Program
