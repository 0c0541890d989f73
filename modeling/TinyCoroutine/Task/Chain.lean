import TinyCoroutine.Basic
import TinyCoroutine.Foundation.Structured

/-!
# The chain of callers

Coroutines of type `Task`, whose bodies are structured programs that `co_await` the tasks of
other coroutines. A coroutine is a frame with its promise and the point at which it continues;
nothing but the pointers `caller_` connects the frames. The functions below are the
ones of `task.h` that the compiler calls: `initial_suspend`, `Task::await_ready`,
`Task::await_suspend`, `Task::await_resume`, `final_suspend` and `unhandled_exception`.

A driver resumes the root, and then the innermost coroutine each time control comes back to
it.
-/
namespace TinyCoroutine.Task.Chain

open Foundation Structured

/-- Where a coroutine is in its own code. -/
inductive Point (σ V X Ev Re P : Type) where
  | run (k : List (Todo σ V X Ev Re P)) (l : σ)
  /-- an exception is on its way to a handler -/
  | raise (x : X) (k : List (Todo σ V X Ev Re P)) (l : σ)
  /-- in the `co_await` of a task, whose value goes to `bind` -/
  | awaiting (bind : σ → Option V → σ) (k : List (Todo σ V X Ev Re P)) (l : σ)

inductive Status where
  /-- at `initial_suspend` -/
  | initial
  | running
  /-- in the `co_await` of a task -/
  | awaiting
  /-- in a suspension of another kind -/
  | suspended
  /-- at `final_suspend` -/
  | final
  deriving DecidableEq, Repr

structure Frame (σ V X Ev Re P : Type) where
  status : Status := .initial
  /-- `caller_` -/
  caller : Option Handle := none
  /-- `exception_` -/
  exception : Option X := none
  /-- `value_`, which a `Task<void>` does not have -/
  value : Option V := none
  /-- The temporary `Task` object of the `co_await`. -/
  task : Option Handle := none
  point : Point σ V X Ev Re P

/-- What happens between the frames. -/
inductive Link where
  | await (caller callee : Handle)
  | finish (callee : Handle)
  | resume (caller callee : Handle)
  deriving DecidableEq, Repr

structure Machine (σ V X Ev Re P : Type) where
  /-- The frames that exist. -/
  frames : Handle → Option (Frame σ V X Ev Re P)
  /-- The frame that is created next. -/
  next : Nat
  /-- The coroutine whose code is executed, or the driver. -/
  control : Option Handle := none
  trace : List Ev := []
  log : List Link := []

variable {σ V X Ev Re P : Type}

def Frame.done (f : Frame σ V X Ev Re P) : Bool := f.status = .final

/-- `Task::await_resume` and `Task::get`. -/
def Frame.result (f : Frame σ V X Ev Re P) : Except X (Option V) :=
  match f.exception with
  | some x => .error x
  | none => .ok f.value

variable (prog : Program σ V X Ev Re P)

/-- A coroutine that has been called and is at `initial_suspend`. -/
def create (p : P) : Frame σ V X Ev Re P := { point := .run [.stmt (prog.body p)] (prog.locals p) }

namespace Machine

variable (m : Machine σ V X Ev Re P)

def setFrame (h : Handle) (f : Frame σ V X Ev Re P) : Machine σ V X Ev Re P :=
  { m with frames := Function.update m.frames h (some f) }

/-- `handle.resume()`, or the transfer to `h`. -/
def resume (h : Handle) : Machine σ V X Ev Re P :=
  { m with
    frames := Function.update m.frames h
      ((m.frames h).map fun f => { f with status := .running })
    control := some h }

/-- `final_suspend` of `h`, whose promise is complete. -/
def finalSuspend (h : Handle) (f : Frame σ V X Ev Re P) : Machine σ V X Ev Re P :=
  let m : Machine σ V X Ev Re P :=
    { m.setFrame h { f with status := .final } with log := m.log ++ [.finish h] }
  match f.caller with
  | some p => m.resume p
  | none => { m with control := none }

/-- `Task::await_suspend` of the task of `g` in `h`. -/
def awaitSuspend (h g : Handle) (f c : Frame σ V X Ev Re P) : Machine σ V X Ev Re P :=
  { ((m.setFrame h { f with status := .awaiting, task := some g }).setFrame g
      { c with caller := some h }).resume g with log := m.log ++ [.await h g] }

/-- `Task::await_resume` of the task of `g` in `h`, and the end of the temporary task. -/
def awaitResume (h g : Handle) (f c : Frame σ V X Ev Re P) (bind : σ → Option V → σ)
    (k : List (Todo σ V X Ev Re P)) (l : σ) : Machine σ V X Ev Re P :=
  let point := match c.result with
    | .ok v => .run k (bind l v)
    | .error x => .raise x k l
  { m.setFrame h { f with task := none, point } with
    frames := Function.update (m.setFrame h { f with task := none, point }).frames g none
    log := m.log ++ [.resume h g] }

/-- The statement `s` of the coroutine `h`. -/
def begin (h : Handle) (f : Frame σ V X Ev Re P) (k : List (Todo σ V X Ev Re P)) (l : σ) :
    Stmt σ V X Ev Re P → Machine σ V X Ev Re P
  | .skip => m.setFrame h { f with point := .run k l }
  | .effect e u =>
    { m.setFrame h { f with point := .run k (u l (prog.respond m.trace (e l))) } with
      trace := m.trace ++ [e l] }
  | .ret v => m.finalSuspend h { f with value := v l }
  | .throw x => m.setFrame h { f with point := .raise (x l) k l }
  | .await p bind =>
    let g := m.next
    let c := create prog (p l)
    let f := { f with point := .awaiting bind k l }
    let m := { m.setFrame g c with next := g + 1 }
    if c.done then m.awaitResume h g f c bind k l else m.awaitSuspend h g f c
  | .suspend =>
    { m.setFrame h { f with status := .suspended, point := .run k l } with control := none }
  | .seq s t => m.setFrame h { f with point := .run (.stmt s :: .stmt t :: k) l }
  | .ite b s t => m.setFrame h { f with point := .run (.stmt (if b l then s else t) :: k) l }
  | .loop b s =>
    let k := if b l then .stmt s :: .stmt (.loop b s) :: k else k
    m.setFrame h { f with point := .run k l }
  | .tryCatch s c t => m.setFrame h { f with point := .run (.stmt s :: .handler c t :: k) l }

/-- The code of the coroutine `h` with frame `f`. -/
def exec (h : Handle) (f : Frame σ V X Ev Re P) : Option (Machine σ V X Ev Re P) :=
  match f.point with
  | .run [] _ => some (m.finalSuspend h f)
  | .run (.stmt s :: k) l => some (m.begin prog h f k l s)
  | .run (.handler _ _ :: k) l => some (m.setFrame h { f with point := .run k l })
  -- `unhandled_exception`
  | .raise x [] _ => some (m.finalSuspend h { f with exception := some x })
  | .raise x (.stmt _ :: k) l => some (m.setFrame h { f with point := .raise x k l })
  | .raise x (.handler c t :: k) l =>
    match c l x with
    | some l => some (m.setFrame h { f with point := .run (.stmt t :: k) l })
    | none => some (m.setFrame h { f with point := .raise x k l })
  | .awaiting bind k l => do
    let g ← f.task
    let c ← m.frames g
    return m.awaitResume h g f c bind k l

/-- The coroutine at the end of the chain of tasks that `h` awaits, through at most `n`. -/
def innermost : Nat → Handle → Handle
  | 0, h => h
  | n + 1, h =>
    match m.frames h with
    | some f =>
      match f.status, f.task with
      | .awaiting, some g => innermost n g
      | _, _ => h
    | none => h

def root : Handle := 0

/-- One step of the driver or of the coroutine that has control. -/
def step : Option (Machine σ V X Ev Re P) :=
  match m.control with
  | some h => (m.frames h).bind (m.exec prog h)
  | none =>
    let h := m.innermost m.next root
    (m.frames h).bind fun f =>
      match f.status with
      | .initial => some (m.resume h)
      | .suspended => some (m.resume h)
      | _ => none

end Machine

/-- The root coroutine has been called. -/
def start (p : P) : Machine σ V X Ev Re P where
  frames := Function.update (fun _ => none) Machine.root (some (create prog p))
  next := 1

end TinyCoroutine.Task.Chain
