/-
# Nachos.Lib.Rotation -- a medium that turns under a head

Time is cut into slots of length `p`: slot `k` begins at `k * p` and ends at `(k + 1) * p`.
The medium has `n` sectors on a round, and sector `s` is under the head in the slots that are
`s` modulo `n`.  A head that comes to rest at time `t` waits for the next boundary
(`Boundary`), and from slot `k` on it waits `delay n s k` slots for sector `s`.
-/
import Mathlib.Algebra.Group.Int.Defs
import Mathlib.Algebra.Group.Nat.Defs
import Mathlib.Data.Int.ModEq
import Mathlib.Order.Bounds.Defs

namespace Nachos.Lib.Rotation

set_option autoImplicit false

variable {p n t b k s : Int}

/-- `b` is the first boundary between slots at or after `t`. -/
def Boundary (p t b : Int) : Prop := IsLeast {b | p ∣ b ∧ t ≤ b} b

theorem boundary_pad (pos : 0 < p) :
    Boundary p t (t + if 0 < t % p then p - t % p else 0) := by
  have nonneg := Int.emod_nonneg t pos.ne'
  have split := Int.mul_ediv_add_emod t p
  have below := Int.emod_lt_of_pos t pos
  split_ifs with inside
  · refine ⟨⟨⟨t / p + 1, by rw [Int.mul_add]; omega⟩, by omega⟩, ?_⟩
    -- a boundary before this one is at most the beginning of the slot of `t`
    rintro _ ⟨⟨j, rfl⟩, le⟩
    have after : t / p < j := by
      by_contra before
      have := Int.mul_le_mul_of_nonneg_left (Int.not_lt.mp before) pos.le
      omega
    have := Int.mul_le_mul_of_nonneg_left (Int.add_one_le_of_lt after) pos.le
    rw [Int.mul_add] at this
    omega
  · refine ⟨⟨⟨t / p, by omega⟩, by omega⟩, ?_⟩
    rintro _ ⟨-, le⟩
    omega

theorem Boundary.slot_eq (at_ : Boundary p t b) : b / p * p = b :=
  Int.ediv_mul_cancel at_.1.1

/-- How many slots go by from slot `k` on before sector `s` comes. -/
def delay (n s k : Int) : Int := (s - k) % n

theorem delay_nonneg (pos : 0 < n) : 0 ≤ delay n s k := Int.emod_nonneg _ pos.ne'

theorem delay_modEq : k + delay n s k ≡ s [ZMOD n] := by
  calc k + (s - k) % n ≡ k + (s - k) [ZMOD n] := (Int.mod_modEq _ _).add_left k
    _ = s := by omega

/-- The slot that ends at time `t`. -/
def slotBefore (p t : Int) : Int := t / p - 1

/-- A head that waits at a boundary for its sector and stays for one slot has seen it. -/
theorem slotBefore_delay (pos : 0 < p) (at_ : Boundary p t b) :
    slotBefore p (b + delay n s (b / p) * p + p) ≡ s [ZMOD n] := by
  have sum : b + delay n s (b / p) * p + p = (b / p + delay n s (b / p) + 1) * p := by
    have := at_.slot_eq
    rw [Int.add_mul, Int.add_mul]
    omega
  rw [slotBefore, sum, Int.mul_ediv_cancel _ pos.ne', Int.add_sub_cancel]
  exact delay_modEq

/-- Since boundary `start`, sector `s` went by before `b` if more slots did than the delay. -/
theorem passed_of_delay_lt (pos : 0 < p) (turning : 0 < n) {start : Int} (begins : p ∣ start)
    (more : delay n s (start / p) < (b - start) / p) :
    ∃ slot, slot ≡ s [ZMOD n] ∧ start ≤ slot * p ∧ (slot + 1) * p ≤ b := by
  have exact_ := Int.ediv_mul_cancel begins
  refine ⟨start / p + delay n s (start / p), delay_modEq, ?_, ?_⟩
  · have := Int.mul_nonneg (delay_nonneg (k := start / p) (s := s) turning) pos.le
    rw [Int.add_mul]
    omega
  · have := Int.mul_le_mul_of_nonneg_right (Int.add_one_le_of_lt more) pos.le
    have := Int.ediv_mul_le (b - start) pos.ne'
    rw [Int.add_assoc, Int.add_mul]
    omega

end Nachos.Lib.Rotation
