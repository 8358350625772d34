/-
# Nachos.Outcome -- how a kernel routine can fail to return

The kernel is C++ that runs to a return, calls `Abort()` from `ASSERT`, faults on
the host, loops, or hands the processor away for good.  A routine of the model
returns `Except Stop α`; the constructors of `Stop` are the ways control does not
come back to the caller.
-/
import Mathlib.Tactic.Common

namespace Nachos

set_option autoImplicit false

inductive Stop where
  /-- An `ASSERT` failed. -/
  | assertion
  /-- An array index outside the array: undefined behaviour, the model stops. -/
  | outOfBounds
  /-- Bytes that were never written are used. -/
  | uninitialised
  /-- The host faults: a quotient that does not fit, or the `NULL` pointer used. -/
  | hostFault
  /-- Signed arithmetic leaves the range of `int`: undefined behaviour, the model stops. -/
  | overflow
  /-- A pointer to an object that has been deleted is used. -/
  | dangling
  /-- A loop that never exits. -/
  | loops
  /-- `Thread::Finish`: the thread is never resumed. -/
  | finished
  /-- `Interrupt::Halt`. -/
  | halted
  /-- The thread waits for a lock nobody will release. -/
  | blocked
  deriving DecidableEq, Repr

/-- `ASSERT(condition)`. -/
def ASSERT (condition : Bool) : Except Stop Unit :=
  if condition then .ok () else .error .assertion

section Bind

variable {α β : Type} {ε : Type}

theorem bind_eq_ok {x : Except ε α} {f : α → Except ε β} {b : β} :
    (x >>= f) = .ok b ↔ ∃ a, x = .ok a ∧ f a = .ok b := by
  cases x with
  | error e => simp [bind, Except.bind]
  | ok a => simp [bind, Except.bind]

theorem bind_of_ok {x : Except ε α} {f : α → Except ε β} {a : α} (h : x = .ok a) :
    (x >>= f) = f a := by
  rw [h]; rfl

@[simp] theorem ok_bind (a : α) (f : α → Except ε β) : (Except.ok a >>= f) = f a := rfl

@[simp] theorem error_bind (e : ε) (f : α → Except ε β) :
    (Except.error e >>= f) = .error e := rfl

@[simp] theorem pure_eq_ok (a : α) : (pure a : Except ε α) = .ok a := rfl

@[simp] theorem ASSERT_true : ASSERT true = .ok () := rfl

@[simp] theorem ASSERT_false : ASSERT false = .error .assertion := rfl

theorem ASSERT_eq_ok {c : Bool} {u : Unit} : ASSERT c = .ok u ↔ c = true := by
  cases c <;> simp

end Bind

end Nachos
