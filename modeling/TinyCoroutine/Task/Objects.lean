import TinyCoroutine.Basic
import Mathlib.Logic.Function.Basic

/-!
# `Task` objects and the frames they own

A `Task` is an object with one member, `handler_`. It lives in a coroutine frame, as a local, a
temporary or a parameter, or somewhere else, and its destructor destroys the frame that `handler_`
points to. Destroying a frame runs the destructors of the objects that live in it, last constructed
first, so one assignment can destroy a whole tree of frames.

`Store.step` gives the operations of the class on any number of objects, and `none` where the
behaviour is undefined: an object or a frame that no longer exists is used, or a frame is destroyed
that is not suspended.
-/
namespace TinyCoroutine.Task

inductive Life where
  | none
  | suspended
  | running
  /-- suspended at `final_suspend` -/
  | final
  | destroyed
  deriving DecidableEq, Repr

def Life.live : Life → Bool
  | .suspended | .running | .final => true
  | _ => false

/-- A `Task`, with the frame in which it lives, if it lives in one. -/
structure Object where
  place : Option Handle
  handler : Option Handle
  deriving DecidableEq, Repr

structure Store where
  /-- The objects, by address. -/
  objects : Nat → Option Object := fun _ => none
  nextObject : Nat := 0
  lives : Handle → Life := fun _ => .none
  nextFrame : Nat := 0
  /-- Frames whose `Task` was detached: they are left to the scheduler. -/
  released : List Handle := []
  /-- Frames on which `destroy()` was called. -/
  destroyed : List Handle := []

namespace Store

variable (s : Store)

def live (h : Handle) : Bool := (s.lives h).live

/-- An object can be constructed there. -/
def room : Option Handle → Bool
  | none => true
  | some f => s.live f

def setHandler (o : Nat) (v : Option Handle) : Store :=
  { s with objects := Function.update s.objects o ((s.objects o).map ({ · with handler := v })) }

def setLife (h : Handle) (l : Life) : Store := { s with lives := Function.update s.lives h l }

/-- The frame of a coroutine that has been called, suspended at `initial_suspend`. -/
def newFrame : Store :=
  { s with
    lives := Function.update s.lives s.nextFrame .suspended, nextFrame := s.nextFrame + 1 }

def addObject (x : Object) : Store :=
  { s with objects := Function.update s.objects s.nextObject x, nextObject := s.nextObject + 1 }

/-- The frames owned by the objects in frame `h`, in the order in which these are destructed. -/
def ownedIn (h : Handle) : List Handle :=
  (List.range s.nextObject).reverse.filterMap fun o =>
    (s.objects o).bind fun x => if x.place = some h then x.handler else none

/-- The end of one frame and of the objects in it. -/
def kill (h : Handle) : Store :=
  { s.setLife h .destroyed with
    objects := fun o => (s.objects o).filter fun x => x.place ≠ some h
    destroyed := s.destroyed ++ [h] }

/-- `destroy()` on one frame after the other, with all the destructors this runs; `n` frames have
been created. -/
def destroy : Nat → Store → List Handle → Option Store
  | _, s, [] => some s
  | 0, _, _ :: _ => none
  | n + 1, s, h :: todo =>
    if s.lives h = .suspended ∨ s.lives h = .final then
      destroy n (s.kill h) (s.ownedIn h ++ todo)
    else none

def destroyAll (todo : List Handle) : Option Store := destroy s.nextFrame s todo

end Store

inductive TaskOp where
  /-- A coroutine is called: `get_return_object`. -/
  | call (place : Option Handle)
  | construct (place : Option Handle)
  | moveConstruct (place : Option Handle) (src : Nat)
  | moveAssign (dst src : Nat)
  | destruct (o : Nat)
  | detach (o : Nat)
  | resume (o : Nat)
  /-- The scheduler resumes a handle it was given. -/
  | resumeReleased (h : Handle)
  /-- The scheduler, or `submit_new`, destroys a handle it was given. -/
  | destroyReleased (h : Handle)
  /-- A running coroutine suspends. -/
  | suspend (h : Handle)
  /-- A running coroutine arrives at `final_suspend`. -/
  | finish (h : Handle)
  deriving DecidableEq, Repr

namespace Store

variable (s : Store)

/-- `~Task`, without the end of the object itself. While `destroy()` runs, `handler_` still points
to the frame. Only a destructor of the same object could see that, and this object then lives in
the frame it owns. -/
def clear (o : Nat) (x : Object) : Option Store :=
  ((s.setHandler o none).destroyAll x.handler.toList).filter fun t => (t.objects o).isSome

def start (h : Handle) : Option Store :=
  if s.lives h = .suspended then some (s.setLife h .running) else none

def step (s : Store) : TaskOp → Option Store
  | .call place =>
    if s.room place then some (s.newFrame.addObject ⟨place, some s.nextFrame⟩) else none
  | .construct place => if s.room place then some (s.addObject ⟨place, none⟩) else none
  | .moveConstruct place src =>
    match s.objects src with
    | some y =>
      if s.room place then some ((s.setHandler src none).addObject ⟨place, y.handler⟩) else none
    | none => none
  | .moveAssign dst src =>
    match s.objects dst, s.objects src with
    | some x, some _ =>
      if dst = src then some s
      else
        (s.clear dst x).bind fun t => (t.objects src).map fun y =>
          (t.setHandler src none).setHandler dst y.handler
    | _, _ => none
  | .destruct o =>
    match s.objects o with
    | some x =>
      (s.clear o x).map fun t => { t with objects := Function.update t.objects o none }
    | none => none
  | .detach o =>
    match s.objects o with
    | some x => some { s.setHandler o none with released := s.released ++ x.handler.toList }
    | none => none
  | .resume o =>
    match s.objects o with
    | some x => x.handler.elim (some s) s.start
    | none => none
  | .resumeReleased h => if h ∈ s.released then s.start h else none
  | .destroyReleased h =>
    if h ∈ s.released then { s with released := s.released.erase h }.destroyAll [h] else none
  | .suspend h => if s.lives h = .running then some (s.setLife h .suspended) else none
  | .finish h => if s.lives h = .running then some (s.setLife h .final) else none

end Store

end TinyCoroutine.Task
