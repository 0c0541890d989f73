import Mathlib.Algebra.Group.Nat.Defs

/-!
# Handles and exceptions

The two things every component of the library passes around. A coroutine handle is
an identity: the model never looks inside a frame through it. The exceptions are
the ones the library throws, with their texts, and the ones thrown by client code.
-/
namespace TinyCoroutine

/-- A non-null `std::coroutine_handle<>`. -/
abbrev Handle := Nat

/-- What a call of the library can throw. -/
inductive Exn where
  | runtimeError (what : String)
  | logicError (what : String)
  | invalidArgument (what : String)
  | lengthError (what : String)
  | badAlloc
  /-- Thrown by a constructor, a move or an iterator of the client. -/
  | client (code : Nat)
  deriving DecidableEq, Repr

/-- `fetch_sub` on a `std::atomic<size_t>`: below zero it wraps. -/
def fetchSub (counter delta : Nat) : Nat :=
  if delta ≤ counter then counter - delta else counter + 2 ^ 64 - delta

/-- `fetch_add` on a `std::atomic<size_t>`: beyond the largest value it wraps. -/
def fetchAdd (counter delta : Nat) : Nat := (counter + delta) % 2 ^ 64

theorem fetchSub_of_le {counter delta : Nat} (h : delta ≤ counter) :
    fetchSub counter delta = counter - delta := if_pos h

theorem fetchAdd_of_lt {counter delta : Nat} (h : counter + delta < 2 ^ 64) :
    fetchAdd counter delta = counter + delta := Nat.mod_eq_of_lt h

/-- A sequenced computation that returns passed through its first part. -/
theorem bind_eq_ok {ε α β : Type} {x : Except ε α} {f : α → Except ε β} {b : β} :
    x >>= f = .ok b ↔ ∃ a, x = .ok a ∧ f a = .ok b := by
  cases x <;> simp [bind, Except.bind]

end TinyCoroutine
