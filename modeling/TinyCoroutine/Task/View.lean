import TinyCoroutine.Task.Basic

/-!
# What the worker can do to the frames

For the question which frames are run, destroyed and counted it does not matter in which
queue of the engine a suspended coroutine is. `View` keeps the handles that are to be
resumed as one multiset, and `Rule` says what can happen to it; `step_rule` shows that
every step of the machine is one of these rules.
-/
namespace TinyCoroutine.Task

open TinyCoroutine.Runtime (Engine IoRequest kProcessBatchSize kIoPollBatchSize)

/-- The handles in an engine. -/
def handles (e : Engine) : Multiset Handle := e.taskQueue + e.ioHandles

structure View where
  frames : Handle → Frame
  next : Nat
  /-- The handles that are going to be resumed. -/
  places : Multiset Handle
  worker : WorkerPc
  pending : Nat
  accepted : List Handle
  completed : List Handle
  destroyed : List Handle

def State.places (s : State) : Multiset Handle :=
  handles s.engine + s.batch + s.parked + s.pushing

def State.view (s : State) : View where
  frames := s.frames
  next := s.next
  places := s.places
  worker := s.worker
  pending := s.pending
  accepted := s.accepted
  completed := s.completed
  destroyed := s.destroyed

namespace View

variable (v : View)

def setFrame (h : Handle) (f : Frame) : View :=
  { v with frames := Function.update v.frames h f }

def setStatus (h : Handle) (status : Status) : View := v.setFrame h { v.frames h with status }

def setOwner (h : Handle) (owner : Owner) : View := v.setFrame h { v.frames h with owner }

def destroyFrame (h : Handle) : View := { v with frames := destroyFrames v.next v.frames h }

/-- A client thread, or the coroutine that is being executed. -/
def Acts (who : Owner) : Prop := who = .client ∨ ∃ p i, v.worker = .running p i ∧ who = .frame i

/-- No frame that goes with `h` has started and not finished. -/
def Spares (h : Handle) : Prop :=
  ∀ g < v.next, ownedBy v.frames v.next g h = true → (v.frames g).status.midway = false

end View

/-- The worker is not in the body of the loop of `process_work_once`. -/
def WorkerPc.between : WorkerPc → Bool
  | .idle => true
  | .forLoop => true
  | _ => false

inductive Rule (v : View) : View → Prop where
  | idle : Rule v v
  | loop {w} : v.worker.between = true → w.between = true → Rule v { v with worker := w }
  | create {who} : v.Acts who → liveFrames v.frames v.next + 2 < 2 ^ 64 →
      Rule v { v.setFrame v.next { status := .initial, owner := who } with next := v.next + 1 }
  | move {who g dest} : v.Acts who → (v.frames g).owner = who → (v.frames g).status.live = true →
      dest ≠ .detached → Rule v (v.setOwner g dest)
  | drop {who g} : v.Acts who → (v.frames g).owner = who → (v.frames g).status.live = true →
      v.Spares g → Rule v (v.destroyFrame g)
  | accept {who g} : v.Acts who → (v.frames g).owner = who → (v.frames g).status = .initial →
      Rule v { v.setOwner g .detached with
        places := v.places + {g}, pending := fetchAdd v.pending 1
        accepted := v.accepted ++ [g] }
  | call {p i g} : v.worker = .running p i → (v.frames g).status = .initial →
      (v.frames g).owner ≠ .detached → Rule v { (v.setStatus i (.awaiting g)).setFrame g
          { v.frames g with status := .running, caller := some i } with worker := .running p g }
  | suspend {p i} : v.worker = .running p i →
      Rule v { v.setStatus i .suspended with places := v.places + {i}, worker := .resumed p }
  | resume {h places} : v.worker = .forLoop → v.places = {h} + places →
      Rule v { v.setStatus h .running with places, worker := .running h h }
  | returnTo {p i q} : v.worker = .running p i → (v.frames i).caller = some q → i ≠ p →
      Rule v { (v.setFrame i { v.frames i with status := .final, finished := true }).setStatus q
          .running with worker := .running p q }
  | finish {p i} : v.worker = .running p i → (v.frames i).caller = none →
      Rule v { v.setFrame i { v.frames i with status := .final, finished := true } with
        worker := .resumed p }
  | checkDone {h answer} : v.worker = .resumed h → DoneAnswer (v.frames h).status answer →
      Rule v { v with worker := if answer then .destroy h else .forLoop }
  | destroy {h} : v.worker = .destroy h → v.Spares h →
      Rule v { v.destroyFrame h with destroyed := v.destroyed ++ [h], worker := .completed h }
  | complete {h} : v.worker = .completed h →
      Rule v { v with
        pending := fetchSub v.pending 1, completed := v.completed ++ [h], worker := .forLoop }

/-- A coroutine that the worker has popped ends only if nobody awaits it. -/
def FinishesAsRoot (s : State) : Action → Prop
  | .body .finish =>
    match s.worker with
    | .running popped current => current = popped → (s.frames current).caller = none
    | _ => True
  | _ => True

instance (s : State) (a : Action) : Decidable (FinishesAsRoot s a) := by
  unfold FinishesAsRoot
  split
  · split <;> infer_instance
  · infer_instance

/-- The frame on which the action calls `destroy()`. -/
def State.destroying (s : State) : Action → Option Handle
  | .client (.drop g) => some g
  | .body (.code (.drop g)) => some g
  | .client (.submit g) => if s.accepting then none else some g
  | .body (.code (.submit g)) => if s.accepting then none else some g
  | .worker =>
    match s.worker with
    | .destroy h => some h
    | _ => none
  | _ => none

/-- No `Task` is destroyed while its coroutine is midway, neither by itself nor with the frame it
lives in. -/
def SparesMidway (s : State) (a : Action) : Prop :=
  ∀ h ∈ s.destroying a, ∀ g < s.next, ownedBy s.frames s.next g h = true →
    (s.frames g).status.midway = false

instance (s : State) (a : Action) : Decidable (SparesMidway s a) :=
  inferInstanceAs (Decidable (∀ h ∈ s.destroying a, _))

/-- What coroutines and clients owe the worker. -/
def Nests (s : State) (a : Action) : Prop := FinishesAsRoot s a ∧ SparesMidway s a

instance (s : State) (a : Action) : Decidable (Nests s a) := inferInstanceAs (Decidable (_ ∧ _))

variable {s t : State} {a : Action}

/-! ### Where the handles are -/

section

variable {e e' : Engine}

theorem handles_submitTask (h : Handle) : handles (e.submitTask h) = handles e + {h} := by
  simp only [handles, Engine.submitTask, Engine.ioHandles, ← Multiset.coe_add,
    Multiset.coe_singleton]
  abel

theorem handles_submitIo (r : IoRequest) : handles (e.submitIo r) = handles e + {r.handle} := by
  simp only [handles, Engine.submitIo, Engine.taskQueue_pushIo, Engine.ioHandles_pushIo,
    ← add_assoc]
  rfl

theorem handles_popBatch (n : Nat) :
    handles e = (e.popBatch n).1 + handles (e.popBatch n).2 := by
  have hq : (e.taskQueue : Multiset Handle) = e.taskQueue.take n + e.taskQueue.drop n := by
    rw [Multiset.coe_add, List.take_append_drop]
  rw [handles, hq, add_assoc]
  rfl

theorem handles_pollSubmit {n progressed : Nat} {rets : List Int}
    (h : e.pollSubmit n rets = .ok (e', progressed)) : handles e' = handles e := by
  obtain ⟨hq, hio, -⟩ := Engine.pollSubmit_ok h
  rw [handles, handles, hq, hio, ← Multiset.coe_add, add_assoc]

theorem handles_reapOne (h : e.reapOne = some e') : handles e' = handles e := by
  obtain ⟨g, hq, hio, -⟩ := Engine.reapOne_some h
  rw [handles, handles, hq, hio, ← Multiset.coe_add, Multiset.coe_singleton, add_assoc]

theorem handles_complete {k : Nat} {result : Int} {uring : Runtime.IoUring}
    (h : e.uring.complete k result = some uring) :
    handles { e with uring } = handles e := by
  simp only [handles, Engine.ioHandles, Runtime.IoUring.awaiters_complete h]

end

/-- A suspended coroutine goes from a wait queue to the task queue. -/
theorem erase_add_singleton {l : List Handle} {g : Handle} (hg : g ∈ l) :
    ((l.erase g : List Handle) : Multiset Handle) + {g} = l := by
  rw [← Multiset.coe_erase, add_comm, Multiset.singleton_add]
  exact Multiset.cons_erase hg

theorem view_mk {places : Multiset Handle} (h : t.places = places) :
    t.view = ⟨t.frames, t.next, places, t.worker, t.pending, t.accepted, t.completed,
      t.destroyed⟩ := by
  rw [← h]
  rfl

theorem Rule.of_places (h : t.places = s.places)
    (hrule : Rule s.view ⟨t.frames, t.next, s.places, t.worker, t.pending, t.accepted, t.completed,
      t.destroyed⟩) : Rule s.view t.view := by
  rw [view_mk h]
  exact hrule

/-! ### Steps -/

theorem places_submitTask (h : Handle) : (s.submitTask h).places = s.places + {h} := by
  simp only [State.places, State.submitTask, handles_submitTask]
  abel

theorem accept_rule {who : Owner} {g : Handle} (hacts : s.view.Acts who)
    (howner : (s.frames g).owner = who) (hinit : (s.frames g).status = .initial) :
    Rule s.view ((s.accept g).submitTask g).view := by
  rw [view_mk (places_submitTask g)]
  exact .accept hacts howner hinit

theorem codeStep_rule {who : Owner} {o : Code} (hacts : s.view.Acts who)
    (hspares : ∀ g, o = .drop g ∨ o = .submit g ∧ s.accepting = false → s.view.Spares g)
    (h : codeStep s who o = some t) : Rule s.view t.view := by
  cases o with
  | create =>
    simp only [codeStep] at h
    split at h
    · rename_i hroom
      cases h
      exact .create hacts hroom
    · cases h
  | move g dest =>
    simp only [codeStep] at h
    split at h
    · rename_i hg
      obtain ⟨howner, hlive, hdest⟩ := hg
      cases h
      refine .move hacts howner hlive ?_
      rintro rfl
      simp [Owner.exists] at hdest
    · cases h
  | drop g =>
    simp only [codeStep] at h
    split at h
    · rename_i hg
      cases h
      exact .drop hacts hg.1 hg.2 (hspares g (.inl rfl))
    · cases h
  | submit g =>
    simp only [codeStep] at h
    split at h
    · rename_i hg
      obtain ⟨howner, hinit⟩ := hg
      split at h <;> rename_i hopen
      · split at h
        · cases h
          have hplaces : State.places { s.accept g with pushing := s.pushing ++ [g] } =
              s.places + {g} := by
            simp only [State.places, State.accept, ← Multiset.coe_add, Multiset.coe_singleton,
              ← add_assoc]
            rfl
          rw [view_mk hplaces]
          exact .accept hacts howner hinit
        · cases h
          exact accept_rule hacts howner hinit
      · cases h
        exact .drop hacts howner (by rw [State.view, hinit]; rfl)
          (hspares g (.inr ⟨rfl, by simpa using hopen⟩))
    · cases h

theorem bodyStep_rule {p i : Handle} {b : BodyAction} (hw : s.worker = .running p i)
    (hc : Nests s (.body b)) (h : bodyStep s p i b = some t) : Rule s.view t.view := by
  have hacts : s.view.Acts (.frame i) := .inr ⟨p, i, hw, rfl⟩
  cases b with
  | code o =>
    refine codeStep_rule hacts (fun g hg => hc.2 g ?_) h
    obtain rfl | ⟨rfl, hclosed⟩ := hg
    · rfl
    · simp [State.destroying, hclosed]
  | submitToScheduler g =>
    simp only [bodyStep] at h
    split at h
    · rename_i hg
      cases h
      exact accept_rule hacts hg.1 hg.2
    · cases h
  | await g =>
    simp only [bodyStep] at h
    split at h
    · rename_i hinit
      split at h
      · cases h
      · rename_i howner
        cases h
        exact .call hw hinit howner
    · cases h
      exact .idle
    · cases h
  | yield =>
    cases h
    have hplaces : State.places { (s.setStatus i .suspended).submitTask i with
        worker := .resumed p } = s.places + {i} := places_submitTask i
    rw [view_mk hplaces]
    exact .suspend hw
  | suspendIo r =>
    simp only [bodyStep] at h
    split at h
    · rename_i hr
      cases h
      have hplaces : State.places { s.setStatus i .suspended with
          engine := s.engine.submitIo r, worker := .resumed p } = s.places + {i} := by
        simp only [State.places, State.setStatus, State.setFrame, handles_submitIo, hr]
        abel
      rw [view_mk hplaces]
      exact .suspend hw
    · cases h
  | park =>
    cases h
    have hplaces : State.places { s.setStatus i .suspended with
        parked := s.parked ++ [i], worker := .resumed p } = s.places + {i} := by
      simp only [State.places, State.setStatus, State.setFrame, ← Multiset.coe_add,
        Multiset.coe_singleton]
      abel
    rw [view_mk hplaces]
    exact .suspend hw
  | wake g =>
    simp only [bodyStep] at h
    split at h
    · rename_i hg
      cases h
      refine .of_places ?_ .idle
      rw [places_submitTask]
      simp only [State.places]
      rw [← erase_add_singleton hg]
      abel
    · cases h
  | finish =>
    have hroot := hc.1
    simp only [FinishesAsRoot, hw] at hroot
    simp only [bodyStep] at h
    split at h
    · rename_i q hq
      cases h
      refine .returnTo hw hq ?_
      intro heq
      simp [hroot heq] at hq
    · rename_i hq
      cases h
      exact .finish hw hq

theorem workerStep_rule (hc : SparesMidway s .worker) (h : workerStep s = some t) :
    Rule s.view t.view := by
  unfold workerStep at h
  split at h <;> rename_i hw
  · split at h <;> rename_i hbatch
    · cases h
      exact .loop (by simp [State.view, hw, WorkerPc.between]) rfl
    · rename_i g rest
      cases h
      refine .resume hw ?_
      have hbegin : handles s.engine.onTaskResumeBegin = handles s.engine := rfl
      simp only [State.view, State.places, State.setStatus, State.setFrame, hbatch, hbegin,
        ← Multiset.cons_coe, ← Multiset.singleton_add]
      abel
  · rename_i g
    cases h
    exact .destroy hw (hc g (by simp [State.destroying, hw]))
  · cases h
    exact .complete hw
  · cases h

/-- Between two calls of `process_work_once` nothing is left in the batch. -/
def Regular (s : State) : Prop := s.worker = .idle → s.batch = []

theorem step_rule (hr : Regular s) (hc : Nests s a) (h : step s a = some t) :
    Rule s.view t.view := by
  cases a with
  | client o =>
    refine codeStep_rule (.inl rfl) (fun g hg => hc.2 g ?_) h
    obtain rfl | ⟨rfl, hclosed⟩ := hg
    · rfl
    · simp [State.destroying, hclosed]
  | push g =>
    simp only [step] at h
    split at h
    · rename_i hg
      cases h
      refine .of_places ?_ .idle
      rw [places_submitTask]
      simp only [State.places]
      rw [← erase_add_singleton hg]
      abel
    · cases h
  | stopAccepting =>
    cases h
    exact .idle
  | popBatch =>
    simp only [step] at h
    split at h
    · rename_i hw
      cases h
      refine .of_places ?_ (.loop (by simp [State.view, hw, WorkerPc.between]) rfl)
      have hpop := handles_popBatch kProcessBatchSize (e := s.engine)
      simp only [State.places, hr hw, hpop, Multiset.coe_nil]
      abel
    · cases h
  | worker => exact workerStep_rule hc.2 h
  | body b =>
    simp only [step] at h
    split at h
    · rename_i p i hw
      exact bodyStep_rule hw hc h
    · cases h
  | checkDone answer =>
    simp only [step] at h
    split at h
    · rename_i g hw
      split at h
      · rename_i hdone
        cases h
        exact .checkDone hw hdone
      · cases h
    · cases h
  | pollSubmit rets =>
    simp only [step] at h
    split at h
    · split at h
      · rename_i e _ hpoll
        cases h
        exact .of_places (by simp only [State.places, handles_pollSubmit hpoll]) .idle
      · cases h
    · cases h
  | reap =>
    simp only [step] at h
    split at h
    · obtain ⟨e, he, rfl⟩ := Option.map_eq_some_iff.mp h
      exact .of_places (by simp only [State.places, handles_reapOne he]) .idle
    · cases h
  | complete k result =>
    obtain ⟨u, hu, rfl⟩ := Option.map_eq_some_iff.mp h
    exact .of_places (by simp only [State.places, handles_complete hu]) .idle

theorem codeStep_worker {who : Owner} {o : Code} (h : codeStep s who o = some t) :
    t.worker = s.worker ∧ t.batch = s.batch := by
  cases o with
  | create | move g dest | drop g =>
    simp only [codeStep] at h
    split at h
    · cases h
      exact ⟨rfl, rfl⟩
    · cases h
  | submit g =>
    simp only [codeStep] at h
    split at h
    · split at h
      · split at h <;> cases h <;> exact ⟨rfl, rfl⟩
      · cases h
        exact ⟨rfl, rfl⟩
    · cases h

theorem bodyStep_worker {p i : Handle} {b : BodyAction} (hw : s.worker = .running p i)
    (h : bodyStep s p i b = some t) : t.worker ≠ .idle := by
  cases b with
  | code o =>
    rw [(codeStep_worker h).1, hw]
    simp
  | submitToScheduler g | suspendIo r | wake g =>
    simp only [bodyStep] at h
    split at h
    · cases h
      simp [State.submitTask, State.accept, State.setOwner, State.setFrame, hw]
    · cases h
  | await g =>
    simp only [bodyStep] at h
    split at h
    · split at h
      · cases h
      · cases h
        simp
    · cases h
      simp [hw]
    · cases h
  | yield | park =>
    cases h
    simp
  | finish =>
    simp only [bodyStep] at h
    split at h <;> cases h <;> simp

theorem Regular.preserved (hr : Regular s) (h : step s a = some t) : Regular t := by
  cases a with
  | client o =>
    obtain ⟨hworker, hbatch⟩ := codeStep_worker h
    rw [Regular, hworker, hbatch]
    exact hr
  | push g =>
    simp only [step] at h
    split at h
    · cases h
      exact hr
    · cases h
  | stopAccepting =>
    cases h
    exact hr
  | popBatch =>
    simp only [step] at h
    split at h
    · cases h
      intro hidle
      cases hidle
    · cases h
  | worker =>
    simp only [step] at h
    unfold workerStep at h
    split at h
    · split at h <;> rename_i hbatch
      · cases h
        exact fun _ => hbatch
      · cases h
        intro hidle
        cases hidle
    · cases h
      intro hidle
      cases hidle
    · cases h
      intro hidle
      cases hidle
    · cases h
  | body b =>
    simp only [step] at h
    split at h
    · rename_i p i hw
      exact fun hidle => absurd hidle (bodyStep_worker hw h)
    · cases h
  | checkDone answer =>
    simp only [step] at h
    split at h
    · split at h
      · cases h
        intro hidle
        cases answer <;> cases hidle
      · cases h
    · cases h
  | pollSubmit rets =>
    simp only [step] at h
    split at h
    · split at h
      · cases h
        exact hr
      · cases h
    · cases h
  | reap =>
    simp only [step] at h
    split at h
    · obtain ⟨e, -, rfl⟩ := Option.map_eq_some_iff.mp h
      exact hr
    · cases h
  | complete k result =>
    obtain ⟨u, -, rfl⟩ := Option.map_eq_some_iff.mp h
    exact hr

end TinyCoroutine.Task
