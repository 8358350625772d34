/-
# Nachos.Lib.Writes -- lists of writes, and what an interruption leaves of them

A store is a function from addresses to values, and an operation on it is the list of the
writes it makes, in their order.  `putAll` carries them out; an interruption leaves the
writes up to some point, `putAll m (ws.take k)`.  A function that changes the store is
related to its list by an equation of the form `f m = (log m).map (putAll m)`.
-/
import Mathlib.Data.List.Basic
import Mathlib.Logic.Function.Basic
import Mathlib.Tactic.Common

namespace Nachos.Lib.Writes

set_option autoImplicit false

variable {ι β : Type} [DecidableEq ι]

/-- One write. -/
def put (m : ι → β) (w : ι × β) : ι → β := Function.update m w.1 w.2

/-- The writes of a list, from the first to the last. -/
def putAll (m : ι → β) (ws : List (ι × β)) : ι → β := ws.foldl put m

@[simp] theorem putAll_nil (m : ι → β) : putAll m [] = m := rfl

@[simp] theorem putAll_cons (m : ι → β) (w : ι × β) (ws : List (ι × β)) :
    putAll m (w :: ws) = putAll (put m w) ws := rfl

theorem putAll_append (m : ι → β) (ws vs : List (ι × β)) :
    putAll m (ws ++ vs) = putAll (putAll m ws) vs := List.foldl_append

theorem put_self (m : ι → β) (i : ι) (b : β) : put m (i, b) i = b := Function.update_self ..

theorem put_other (m : ι → β) {w : ι × β} {i : ι} (other : i ≠ w.1) : put m w i = m i :=
  Function.update_of_ne other ..

/-- What no write is to keeps its value. -/
theorem putAll_other {m : ι → β} {ws : List (ι × β)} {i : ι} (other : ∀ w ∈ ws, i ≠ w.1) :
    putAll m ws i = m i := by
  induction ws generalizing m with
  | nil => rfl
  | cons w ws ih =>
      rw [putAll_cons, ih fun v member => other v (List.mem_cons_of_mem _ member),
        put_other m (other w List.mem_cons_self)]

/-- Nor does an interruption change it. -/
theorem putAll_take_other {m : ι → β} {ws : List (ι × β)} {i : ι} (k : Nat)
    (other : ∀ w ∈ ws, i ≠ w.1) : putAll m (ws.take k) i = m i :=
  putAll_other fun w member => other w (List.mem_of_mem_take member)

/-- With each address written once, an address has its new value from its write on. -/
theorem putAll_take_at {m : ι → β} {ws : List (ι × β)} (once : (ws.map Prod.fst).Nodup) {j : Nat}
    {i : ι} {b : β}
    (there : ws[j]? = some (i, b)) (k : Nat) : putAll m (ws.take k) i = if j < k then b
      else m i := by
  induction ws generalizing m j k with
  | nil => cases there
  | cons w ws ih =>
      rw [List.map_cons, List.nodup_cons] at once
      cases k with
      | zero => exact (if_neg (Nat.not_lt_zero j)).symm
      | succ k =>
          rw [List.take_succ_cons, putAll_cons]
          cases j with
          | zero =>
              obtain rfl : w = (i, b) := Option.some.inj there
              have rest : ∀ v ∈ ws, i ≠ v.1 := fun v member same =>
                once.1 (List.mem_map.mpr ⟨v, member, same.symm⟩)
              rw [putAll_take_other k rest, put_self, if_pos (Nat.succ_pos k)]
          | succ j =>
              have later : ws[j]? = some (i, b) := there
              have differ : i ≠ w.1 := fun same =>
                once.1 (same ▸ List.mem_map_of_mem (f := Prod.fst) (List.mem_of_getElem? later))
              rw [ih once.2 later, put_other m differ]
              exact if_congr Nat.succ_lt_succ_iff.symm rfl rfl

end Nachos.Lib.Writes
