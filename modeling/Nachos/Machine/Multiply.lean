/-
# Nachos.Machine.Multiply -- `Mult` in `machine/mipssim.cc` computes the product

`multLoop_spec` is the invariant of the shift-and-add loop: with `n` bits of `a` left,
the double word `hi, lo` still lacks `bHi, bLo` times the low `n` bits of `a`.  The
source declares `a` signed, so `a >>= 1` shifts copies of the sign in; they stay above
the bits that are left (`toNat_sshiftRight_one_mod`).  The early exit is taken at the
last bit that is set (`lt_two_of_and_rest`).

The signed product is made of magnitudes and negated at the end: `toNat_magnitude`
holds for the most negative word too, as its negation is its magnitude read unsigned.
-/
import Nachos.Machine.MipsSim
import Nachos.Lib.DoubleWord

namespace Nachos.Machine

open Nachos.Lib.Bytes
open Nachos.Lib.DoubleWord

set_option autoImplicit false

/-! ## The loop -/

section Loop

variable {n : Nat} {a : Word}

/-- `a & 1`. -/
theorem and_one_ne_zero_iff : a &&& 1#32 ≠ 0#32 ↔ a.toNat % 2 = 1 := by
  rw [Ne, BitVec.toNat_eq, BitVec.toNat_and]
  show ¬ a.toNat &&& 1 = 0 ↔ _
  rw [Nat.and_one_is_mod]
  omega

/-- `(a & 0xfffffffe) == 0`: no bit but the last is left. -/
theorem lt_two_of_and_rest (none_ : a &&& 0xfffffffe#32 = 0#32) : a.toNat < 2 := by
  have last : a = a &&& 1#32 := by
    calc a = a &&& (1#32 ||| 0xfffffffe#32) := (BitVec.and_allOnes).symm
      _ = (a &&& 1#32) ||| (a &&& 0xfffffffe#32) := BitVec.and_or_distrib_left
      _ = a &&& 1#32 := by rw [none_, BitVec.or_zero]
  rw [last, BitVec.toNat_and]
  exact Nat.and_lt_two_pow (n := 1) _ (by decide)

/-- `a >>= 1` moves the low bits down, whatever sign bit it shifts in. -/
theorem toNat_sshiftRight_one_mod (low : n < 32) :
    (a.sshiftRight 1).toNat % 2 ^ n = a.toNat / 2 % 2 ^ n := by
  rw [BitVec.toNat_sshiftRight]
  by_cases negative : a.msb = true
  · have high := BitVec.msb_eq_true_iff_two_mul_ge.mp negative
    have inside := a.isLt
    have shifted : 2 ^ 32 - 1 - (2 ^ 32 - 1 - a.toNat) >>> 1 = a.toNat / 2 + 2 ^ 31 := by
      rw [Nat.shiftRight_eq_div_pow]
      omega
    rw [if_pos negative, shifted, Nat.add_mod, Nat.mod_eq_zero_of_dvd
      (Nat.pow_dvd_pow 2 (by omega)), Nat.add_zero, Nat.mod_mod]
  · rw [if_neg negative, Nat.shiftRight_eq_div_pow, Nat.pow_one]

/-- `b` is doubled for the next bit of `a`. -/
theorem double_append (bLo bHi : Word) :
    (if bLo &&& 0x80000000#32 ≠ 0#32 then (bHi <<< 1) ||| 1#32 else bHi <<< 1) ++ (bLo <<< 1) =
      (bHi ++ bLo) + (bHi ++ bLo) := by
  have top : bLo &&& 0x80000000#32 ≠ 0#32 ↔ bLo.msb = true := by
    have := BitVec.and_twoPow bLo 31
    rw [show (0x80000000#32) = BitVec.twoPow 32 31 by decide, this, BitVec.msb_eq_getLsbD_last]
    cases bLo.getLsbD 31 <;> simp
  simp only [top]
  exact append_double bHi bLo

/-- Multiplying by the bits that are left: by the last one, and by the others doubled. -/
theorem mul_bits (x : BitVec (32 + 32)) (last m : Nat) :
    x * BitVec.ofNat (32 + 32) (last + 2 * m) =
      x * BitVec.ofNat (32 + 32) last + (x + x) * BitVec.ofNat (32 + 32) m := by
  rw [BitVec.ofNat_add, Nat.two_mul, BitVec.ofNat_add]
  ring

/-- **What the loop adds**: the shifted `b`, times the bits of `a` that are left. -/
theorem multLoop_spec (n : Nat) (inside : n ≤ 32) (a bLo bHi lo hi : Word) :
    (multLoop n a bLo bHi lo hi).1 ++ (multLoop n a bLo bHi lo hi).2 =
      (hi ++ lo) + (bHi ++ bLo) * BitVec.ofNat (32 + 32) (a.toNat % 2 ^ n) := by
  induction n generalizing a bLo bHi lo hi with
  | zero => simp [multLoop, Nat.mod_one]
  | succ n ih =>
      have bits : a.toNat % 2 ^ (n + 1) = a.toNat % 2 + 2 * (a.toNat / 2 % 2 ^ n) := by
        rw [Nat.pow_succ', Nat.mod_mul]
      unfold multLoop
      by_cases odd : a &&& 1#32 ≠ 0#32
      · have one : a.toNat % 2 = 1 := and_one_ne_zero_iff.mp odd
        dsimp only
        rw [if_pos odd, if_pos odd]
        by_cases last : a &&& 0xfffffffe#32 = 0#32
        · -- the early exit: nothing but this bit is left
          have small := lt_two_of_and_rest last
          have : a.toNat % 2 ^ (n + 1) = 1 := by
            rw [bits, show a.toNat / 2 = 0 by omega, Nat.zero_mod, one]
          rw [if_pos ⟨odd, last⟩, this, BitVec.mul_one]
          exact append_add hi lo bHi bLo
        · rw [if_neg (mt And.right last), ih (by omega), double_append, append_add,
            toNat_sshiftRight_one_mod (by omega), bits, one, mul_bits, BitVec.mul_one,
            BitVec.add_assoc]
      · have even : a.toNat % 2 = 0 := by
          have := mt and_one_ne_zero_iff.mpr odd
          omega
        dsimp only
        rw [if_neg (mt And.left odd), if_neg odd, if_neg odd, ih (by omega), double_append,
          toNat_sshiftRight_one_mod (by omega), bits, even, mul_bits, BitVec.mul_zero,
          BitVec.zero_add]

/-- The loop as `Mult` starts it: the product, in two words. -/
theorem multLoop_mul (a b : Word) :
    (multLoop 32 a b 0 0 0).1 ++ (multLoop 32 a b 0 0 0).2 =
      BitVec.ofNat (32 + 32) (b.toNat * a.toNat) := by
  have low : (0 : Word) ++ b = BitVec.ofNat (32 + 32) b.toNat := by
    apply BitVec.eq_of_toNat_eq
    have := b.isLt
    rw [toNat_append, BitVec.toNat_ofNat, Nat.mod_eq_of_lt (by omega)]
    exact (congrArg (· + b.toNat) (Nat.zero_mul _)).trans (Nat.zero_add _)
  have none_ : (0 : Word) ++ (0 : Word) = 0#(32 + 32) := rfl
  rw [multLoop_spec 32 (Nat.le_refl _), low, none_, BitVec.zero_add, Nat.mod_eq_of_lt a.isLt,
    BitVec.ofNat_mul]

end Loop

/-! ## The product -/

section Mult

/-- The operand as `Mult` makes it positive: its magnitude, as an unsigned word. -/
theorem toNat_magnitude (a : Word) : (if sign a then -a else a).toNat = a.toInt.natAbs := by
  have inside := a.isLt
  unfold sign
  rw [BitVec.toInt_eq_msb_cond]
  by_cases negative : a.msb = true
  · have high := BitVec.msb_eq_true_iff_two_mul_ge.mp negative
    rw [if_pos negative, if_pos negative, BitVec.toNat_neg, Nat.mod_eq_of_lt (by omega)]
    omega
  · rw [if_neg negative, if_neg negative]
    rfl

theorem natAbs_toInt_le (a : Word) : a.toInt.natAbs ≤ 2 ^ 31 := by
  have := BitVec.toInt_lt (x := a)
  have := BitVec.le_toInt a
  omega

/-- The sign rule. -/
theorem toInt_mul_of_signs (a b : Word) :
    a.toInt * b.toInt =
      if sign a != sign b then -((b.toInt.natAbs * a.toInt.natAbs : Nat) : Int)
      else ((b.toInt.natAbs * a.toInt.natAbs : Nat) : Int) := by
  have signs : ∀ x : Word, x.toInt = if sign x then -(x.toInt.natAbs : Int)
      else x.toInt.natAbs := by
    intro x
    unfold sign
    rw [BitVec.msb_eq_toInt]
    by_cases negative : x.toInt < 0
    · rw [if_pos (decide_eq_true negative), Int.ofNat_natAbs_of_nonpos (Int.le_of_lt negative),
        Int.neg_neg]
    · rw [if_neg (by simpa using negative), Int.natAbs_of_nonneg (Int.not_lt.mp negative)]
  rw [signs a, signs b, Int.natCast_mul]
  cases sign a <;> cases sign b <;>
    simp only [Bool.false_eq_true, if_false, if_true, bne_self_eq_false, Bool.false_bne,
      Bool.true_bne, Bool.not_false, Int.natAbs_neg, Int.natAbs_natCast] <;> ring

/-- A product of magnitudes leaves the sign bit of the double word alone. -/
theorem toInt_ofNat_of_le {m : Nat} (small : m ≤ 2 ^ 31 * 2 ^ 31) :
    (BitVec.ofNat 64 m).toInt = m := by
  rw [BitVec.toInt_eq_toNat_bmod, BitVec.toNat_ofNat, Nat.mod_eq_of_lt (by omega)]
  exact Int.bmod_eq_of_le (by omega) (by omega)

theorem toInt_neg_of_le {m : Nat} (small : m ≤ 2 ^ 31 * 2 ^ 31) :
    (-BitVec.ofNat 64 m).toInt = -m := by
  rw [BitVec.toInt_neg, toInt_ofNat_of_le small]
  exact Int.bmod_eq_of_le (by omega) (by omega)

theorem mult_signed (a b : Word) :
    ((mult a b true).1 ++ (mult a b true).2).toInt = a.toInt * b.toInt := by
  unfold mult
  by_cases zero : a = 0#32 ∨ b = 0#32
  · rw [if_pos zero]
    rcases zero with rfl | rfl <;> simp
  rw [if_neg zero]
  have product := multLoop_mul (if sign a then -a else a) (if sign b then -b else b)
  rw [toNat_magnitude, toNat_magnitude] at product
  have small : b.toInt.natAbs * a.toInt.natAbs ≤ 2 ^ 31 * 2 ^ 31 :=
    Nat.mul_le_mul (natAbs_toInt_le b) (natAbs_toInt_le a)
  rw [toInt_mul_of_signs]
  simp only [Bool.true_and]
  split
  · rw [← toInt_neg_of_le small]
    exact congrArg BitVec.toInt ((append_neg (by decide) _ _).trans (congrArg _ product))
  · rw [product]
    exact toInt_ofNat_of_le small

theorem mult_unsigned (a b : Word) :
    ((mult a b false).1 ++ (mult a b false).2).toNat = a.toNat * b.toNat := by
  unfold mult
  by_cases zero : a = 0#32 ∨ b = 0#32
  · rw [if_pos zero]
    rcases zero with rfl | rfl <;> simp
  rw [if_neg zero]
  have small : b.toNat * a.toNat < 2 ^ (32 + 32) := by
    rw [Nat.pow_add]
    exact Nat.mul_lt_mul'' b.isLt a.isLt
  simp only [Bool.false_and, Bool.false_eq_true, if_false]
  rw [multLoop_mul, BitVec.toNat_ofNat, Nat.mod_eq_of_lt small, Nat.mul_comm]

/-- **Multiplication is exact**, signed and unsigned. -/
theorem mult_exact (a b : Word) :
    ((mult a b true).1 ++ (mult a b true).2).toInt = a.toInt * b.toInt ∧
      ((mult a b false).1 ++ (mult a b false).2).toNat = a.toNat * b.toNat :=
  ⟨mult_signed a b, mult_unsigned a b⟩

end Mult

end Nachos.Machine
