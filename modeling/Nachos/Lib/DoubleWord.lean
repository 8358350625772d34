/-
# Nachos.Lib.DoubleWord -- double-length numbers held in two words

A number of `w + w` bits in a high and a low word of `w` bits is `hi ++ lo`.  The three
operations a shift-and-add loop needs are done word by word, with the carry found by a
test: `append_add` compares the low sum with an operand, `append_double` looks at the top
bit, `append_neg` asks whether the complemented low word came round to zero.
-/
import Mathlib.Data.BitVec
import Mathlib.Data.Nat.ModEq
import Mathlib.Tactic.Ring
import Mathlib.Tactic.Common

namespace Nachos.Lib.DoubleWord

set_option autoImplicit false

variable {w : Nat}

theorem toNat_append (hi lo : BitVec w) :
    (hi ++ lo).toNat = hi.toNat * 2 ^ w + lo.toNat := by
  rw [BitVec.toNat_append, ← Nat.shiftLeft_add_eq_or_of_lt lo.isLt, Nat.shiftLeft_eq]

/-- The high word counts modulo `2 ^ w` only. -/
theorem append_eq_of_modEq {hi lo : BitVec w} {x : BitVec (w + w)} {h : Nat}
    (high : hi.toNat ≡ h [MOD 2 ^ w])
    (same : h * 2 ^ w + lo.toNat ≡ x.toNat [MOD 2 ^ (w + w)]) : hi ++ lo = x := by
  have wide : hi.toNat * 2 ^ w ≡ h * 2 ^ w [MOD 2 ^ (w + w)] := by
    rw [Nat.pow_add]
    exact high.mul_right' (2 ^ w)
  apply BitVec.eq_of_toNat_eq
  have close := (wide.add_right lo.toNat).trans same
  rw [← toNat_append] at close
  exact close.eq_of_lt_of_lt (hi ++ lo).isLt x.isLt

theorem toNat_add_modEq (x y : BitVec w) : (x + y).toNat ≡ x.toNat + y.toNat [MOD 2 ^ w] := by
  rw [BitVec.toNat_add]
  exact Nat.mod_modEq _ _

theorem toNat_succ_modEq (x : BitVec w) : (x + 1).toNat ≡ x.toNat + 1 [MOD 2 ^ w] :=
  (toNat_add_modEq x 1).trans ((Nat.mod_modEq 1 (2 ^ w)).add_left x.toNat)

/-- The carry out of `lo + b` shows in the sum: it is below an operand. -/
theorem toNat_add_carry (lo b : BitVec w) :
    (if lo + b < b then 1 else 0) * 2 ^ w + (lo + b).toNat = lo.toNat + b.toNat := by
  have hl := lo.isLt
  have hb := b.isLt
  simp only [BitVec.lt_def, BitVec.toNat_add]
  by_cases fits : lo.toNat + b.toNat < 2 ^ w
  · rw [Nat.mod_eq_of_lt fits, if_neg (by omega), Nat.zero_mul, Nat.zero_add]
  · rw [Nat.mod_eq_sub_mod (by omega), Nat.mod_eq_of_lt (by omega), if_pos (by omega)]
    omega

/-- **Double words are added word by word**, with the carry found by a comparison. -/
theorem append_add (hi lo bHi bLo : BitVec w) :
    ((if lo + bLo < bLo then hi + 1 else hi) + bHi) ++ (lo + bLo) =
      (hi ++ lo) + (bHi ++ bLo) := by
  have low := toNat_add_carry lo bLo
  generalize carried : (if lo + bLo < bLo then 1 else 0) = carry at low
  refine append_eq_of_modEq (h := hi.toNat + carry + bHi.toNat) ?_ ?_
  · refine (toNat_add_modEq _ _).trans (Nat.ModEq.add_right _ ?_)
    rw [← carried]
    split
    · exact toNat_succ_modEq hi
    · exact Nat.ModEq.refl _
  · refine Nat.ModEq.trans ?_ (toNat_add_modEq _ _).symm
    rw [toNat_append, toNat_append]
    have exact_ : (hi.toNat + carry + bHi.toNat) * 2 ^ w + (lo + bLo).toNat =
        hi.toNat * 2 ^ w + lo.toNat + (bHi.toNat * 2 ^ w + bLo.toNat) := by
      calc _ = (hi.toNat + bHi.toNat) * 2 ^ w + (carry * 2 ^ w + (lo + bLo).toNat) := by ring
        _ = _ := by
          rw [low]
          ring
    rw [exact_]

theorem shiftLeft_one (x : BitVec w) : x <<< 1 = x + x := by
  apply BitVec.eq_of_toNat_eq
  rw [BitVec.toNat_shiftLeft, BitVec.toNat_add, Nat.shiftLeft_eq, Nat.pow_one, Nat.mul_two]

theorem shiftLeft_one_or_one (x : BitVec w) : (x <<< 1) ||| 1#w = x + x + 1#w := by
  rw [← shiftLeft_one, BitVec.add_eq_or_of_and_eq_zero]
  ext i inside
  cases i <;> simp

/-- The top bit is carried out of a doubling. -/
theorem add_self_lt_iff (x : BitVec w) : x + x < x ↔ x.msb = true := by
  have := x.isLt
  rw [BitVec.lt_def, BitVec.toNat_add, BitVec.msb_eq_true_iff_two_mul_ge]
  by_cases fits : x.toNat + x.toNat < 2 ^ w
  · rw [Nat.mod_eq_of_lt fits]
    omega
  · rw [Nat.mod_eq_sub_mod (by omega), Nat.mod_eq_of_lt (by omega)]
    omega

/-- **Doubling** carries the top bit of the low word into the high one. -/
theorem append_double (hi lo : BitVec w) :
    (if lo.msb then (hi <<< 1) ||| 1#w else hi <<< 1) ++ (lo <<< 1) = (hi ++ lo) + (hi ++ lo) := by
  rw [← append_add, shiftLeft_one_or_one, shiftLeft_one, shiftLeft_one]
  simp only [add_self_lt_iff]
  congr 1
  split
  · rw [BitVec.add_assoc, BitVec.add_comm hi 1#w, ← BitVec.add_assoc]
    rfl
  · rfl

/-- **Two's complement**: both words complemented, and one added with its carry. -/
theorem append_neg (pos : 0 < w) (hi lo : BitVec w) :
    (if ~~~lo + 1#w = 0#w then ~~~hi + 1#w else ~~~hi) ++ (~~~lo + 1#w) = -(hi ++ lo) := by
  have small : 1 < 2 ^ w := Nat.one_lt_two_pow pos.ne'
  have one : (0#w ++ 1#w) = 1#(w + w) := by
    apply BitVec.eq_of_toNat_eq
    rw [toNat_append, BitVec.toNat_ofNat, BitVec.toNat_ofNat, BitVec.toNat_ofNat, Nat.zero_mod,
      Nat.zero_mul, Nat.zero_add, Nat.mod_eq_of_lt small,
      Nat.mod_eq_of_lt (Nat.one_lt_two_pow (by omega))]
  have carry : ~~~lo + 1#w < 1#w ↔ ~~~lo + 1#w = 0#w := by
    rw [BitVec.lt_def, BitVec.toNat_eq, BitVec.toNat_ofNat, BitVec.toNat_ofNat, Nat.zero_mod,
      Nat.mod_eq_of_lt small, Nat.lt_one_iff]
  rw [BitVec.neg_eq_not_add, BitVec.not_append, ← one, ← append_add]
  simp only [carry, BitVec.add_zero]
  rfl

end Nachos.Lib.DoubleWord
