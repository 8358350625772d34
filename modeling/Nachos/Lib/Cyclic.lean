/-
# Nachos.Lib.Cyclic -- scanning a table round and round

A hand that starts at `h` and moves over `n` slots is at `slot h n k` after `k`
moves.  The first `n` slots are pairwise distinct (`slot_injective`) and cover the
table (`exists_slot`), so after `n` moves every slot has been passed
(`passed_of_le`), and before that the slot under the hand has not
(`not_passed_slot`).  `FirstAt` is the outcome of a search on the first round.
-/
import Mathlib.Data.Nat.Find
import Mathlib.Data.Nat.ModEq
import Mathlib.Data.Int.ModEq
import Mathlib.Tactic.Common

namespace Nachos.Lib.Cyclic

set_option autoImplicit false

/-- The slot under the hand after `k` moves. -/
def slot (h n k : Nat) : Nat := (h + k) % n

/-- The hand has left slot `i` during its first `k` moves. -/
def Passed (h n k i : Nat) : Prop := ∃ j < k, slot h n j = i

instance (h n k i : Nat) : Decidable (Passed h n k i) :=
  inferInstanceAs (Decidable (∃ j < k, slot h n j = i))

variable {h n k i : Nat}

theorem slot_lt (pos : 0 < n) : slot h n k < n := Nat.mod_lt _ pos

theorem slot_zero (inside : h < n) : slot h n 0 = h := Nat.mod_eq_of_lt inside

theorem slot_add_self : slot h n (k + n) = slot h n k := by
  unfold slot
  rw [← Nat.add_assoc, Nat.add_mod_right]

/-- Moving on from slot `slot h n j` is moving on from `h`. -/
theorem slot_slot (j : Nat) : slot (slot h n j) n k = slot h n (j + k) := by
  unfold slot
  rw [Nat.mod_add_mod, Nat.add_assoc]

theorem slot_succ : slot h n (k + 1) = (slot h n k + 1) % n := by
  unfold slot
  rw [Nat.mod_add_mod, Nat.add_assoc]

theorem slot_injective {j : Nat} (hj : j < n) (hk : k < n) (same : slot h n j = slot h n k) :
    j = k := by
  have congruent : h + j ≡ h + k [MOD n] := same
  have := Nat.ModEq.add_left_cancel' h congruent
  exact Nat.ModEq.eq_of_lt_of_lt this hj hk

theorem exists_slot (inside : h < n) (hi : i < n) : ∃ k < n, slot h n k = i := by
  by_cases le : h ≤ i
  · refine ⟨i - h, by omega, ?_⟩
    rw [slot, Nat.add_sub_cancel' le, Nat.mod_eq_of_lt hi]
  · refine ⟨n - h + i, by omega, ?_⟩
    rw [slot, show h + (n - h + i) = i + n by omega, Nat.add_mod_right, Nat.mod_eq_of_lt hi]

theorem not_passed_zero : ¬ Passed h n 0 i := by
  rintro ⟨j, lt, -⟩
  omega

theorem passed_succ : Passed h n (k + 1) i ↔ Passed h n k i ∨ slot h n k = i := by
  constructor
  · rintro ⟨j, lt, at_⟩
    by_cases last : j = k
    · exact Or.inr (last ▸ at_)
    · exact Or.inl ⟨j, by omega, at_⟩
  · rintro (⟨j, lt, at_⟩ | at_)
    · exact ⟨j, by omega, at_⟩
    · exact ⟨k, by omega, at_⟩

theorem not_passed_slot (hk : k < n) : ¬ Passed h n k (slot h n k) := by
  rintro ⟨j, lt, at_⟩
  have := slot_injective (by omega) hk at_
  omega

theorem passed_of_le (inside : h < n) (full : n ≤ k) (hi : i < n) : Passed h n k i := by
  obtain ⟨j, lt, at_⟩ := exists_slot inside hi
  exact ⟨j, by omega, at_⟩

/-- After `k` moves, on the first round, the hand comes to the first slot that has `p`. -/
structure FirstAt (h n : Nat) (p : Nat → Prop) (k : Nat) : Prop where
  round : k < n
  here : p (slot h n k)
  before : ∀ j < k, ¬ p (slot h n j)

theorem exists_firstAt {p : Nat → Prop} (inside : h < n) (hi : i < n) (found : p i) :
    ∃ k, FirstAt h n p k := by
  obtain ⟨j, lt, at_⟩ := exists_slot inside hi
  classical
  have some_ : ∃ k, p (slot h n k) := ⟨j, at_ ▸ found⟩
  have least := Nat.find_min' some_ (at_ ▸ found : p (slot h n j))
  exact ⟨Nat.find some_, Nat.lt_of_le_of_lt least lt, Nat.find_spec some_, fun j lt =>
    Nat.find_min some_ lt⟩

end Nachos.Lib.Cyclic
