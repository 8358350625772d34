/-
# Nachos.Lib.Mips -- the integer instructions of the MIPS-I architecture

The instruction word with its fields, the encodings of the computational instructions,
and what the architecture says each computes from the words in `rs` and `rt`.  Nothing
here refers to a simulator: immediates are fields of 16 bits that an operation extends
with zeros or with their sign, and shifts to the right are the logical or the arithmetic
one of the architecture.

`AluOp` are the operations that cannot trap; `ArithOp` are the three that trap when the
exact result of the signed operands does not fit.
-/
import Mathlib.Data.BitVec
import Mathlib.Tactic.Common

namespace Nachos.Lib.Mips

set_option autoImplicit false

/-! ## The instruction word -/

section Fields

variable (w : BitVec 32)

def opcode : BitVec 6 := w.extractLsb' 26 6
def rs : BitVec 5 := w.extractLsb' 21 5
def rt : BitVec 5 := w.extractLsb' 16 5
def rd : BitVec 5 := w.extractLsb' 11 5
def shamt : BitVec 5 := w.extractLsb' 6 5
def funct : BitVec 6 := w.extractLsb' 0 6
def immediate : BitVec 16 := w.extractLsb' 0 16

end Fields

/-- What tells an operation: its `funct` under the opcode `SPECIAL`, or its opcode. -/
inductive Code where
  | special (funct : BitVec 6)
  | immediate (opcode : BitVec 6)
  deriving DecidableEq, Repr

/-- The code a word carries. -/
def codeOf (w : BitVec 32) : Code :=
  if opcode w = 0 then .special (funct w) else .immediate (opcode w)

/-- The destination field. -/
def Code.dest (w : BitVec 32) : Code → BitVec 5
  | .special _ => rd w
  | .immediate _ => rt w

/-! ## Operations that do not trap -/

inductive AluOp where
  | addu | subu | and | or | xor | nor | slt | sltu | sll | srl | sra | sllv | srlv | srav
  | addiu | andi | ori | xori | lui | slti | sltiu
  deriving DecidableEq, Repr

namespace AluOp

def code : AluOp → Code
  | .sll => .special 0x00
  | .srl => .special 0x02
  | .sra => .special 0x03
  | .sllv => .special 0x04
  | .srlv => .special 0x06
  | .srav => .special 0x07
  | .addu => .special 0x21
  | .subu => .special 0x23
  | .and => .special 0x24
  | .or => .special 0x25
  | .xor => .special 0x26
  | .nor => .special 0x27
  | .slt => .special 0x2a
  | .sltu => .special 0x2b
  | .addiu => .immediate 0x09
  | .slti => .immediate 0x0a
  | .sltiu => .immediate 0x0b
  | .andi => .immediate 0x0c
  | .ori => .immediate 0x0d
  | .xori => .immediate 0x0e
  | .lui => .immediate 0x0f

/-- The result of `op`, encoded in `w`, on the words `s` in `rs` and `t` in `rt`. -/
def result (op : AluOp) (w s t : BitVec 32) : BitVec 32 :=
  match op with
  | .addu => s + t
  | .subu => s - t
  | .and => s &&& t
  | .or => s ||| t
  | .xor => s ^^^ t
  | .nor => ~~~(s ||| t)
  | .slt => if s.toInt < t.toInt then 1 else 0
  | .sltu => if s.toNat < t.toNat then 1 else 0
  | .sll => t <<< (shamt w).toNat
  | .srl => t >>> (shamt w).toNat
  | .sra => t.sshiftRight (shamt w).toNat
  | .sllv => t <<< (s.toNat % 32)
  | .srlv => t >>> (s.toNat % 32)
  | .srav => t.sshiftRight (s.toNat % 32)
  | .addiu => s + (immediate w).signExtend 32
  | .andi => s &&& (immediate w).setWidth 32
  | .ori => s ||| (immediate w).setWidth 32
  | .xori => s ^^^ (immediate w).setWidth 32
  | .lui => immediate w ++ 0#16
  | .slti => if s.toInt < (immediate w).toInt then 1 else 0
  | .sltiu => if s.toNat < ((immediate w).signExtend 32).toNat then 1 else 0

end AluOp

/-! ## Operations that trap on overflow -/

inductive ArithOp where
  | add | sub | addi
  deriving DecidableEq, Repr

namespace ArithOp

def code : ArithOp → Code
  | .add => .special 0x20
  | .sub => .special 0x22
  | .addi => .immediate 0x08

/-- The exact result. -/
def exactResult (op : ArithOp) (w s t : BitVec 32) : Int :=
  match op with
  | .add => s.toInt + t.toInt
  | .sub => s.toInt - t.toInt
  | .addi => s.toInt + (immediate w).toInt

end ArithOp

/-- The number fits a signed word. -/
def Representable (x : Int) : Prop := -2 ^ 31 ≤ x ∧ x ≤ 2 ^ 31 - 1

instance (x : Int) : Decidable (Representable x) :=
  inferInstanceAs (Decidable (-2 ^ 31 ≤ x ∧ x ≤ 2 ^ 31 - 1))

/-! ## Shifts and immediates -/

/-- **The two right shifts agree** exactly where no sign bit is moved. -/
theorem sshiftRight_eq_iff {w : Nat} (t : BitVec w) (k : Nat) :
    t.sshiftRight k = t >>> k ↔ k = 0 ∨ t.msb = false := by
  constructor
  · intro same
    rcases Nat.eq_zero_or_pos k with zero | pos
    · exact Or.inl zero
    · have tops := congrArg BitVec.msb same
      rw [BitVec.msb_sshiftRight, BitVec.msb_ushiftRight, decide_eq_true pos] at tops
      exact Or.inr tops
  · rintro (rfl | positive)
    · rw [BitVec.sshiftRight_zero, BitVec.ushiftRight_zero]
    · exact BitVec.sshiftRight_eq_of_msb_false positive

/-- A word takes nothing from another that has no bit of its own. -/
theorem or_eq_left_iff {w : Nat} (s t : BitVec w) : s ||| t = s ↔ t &&& ~~~s = 0#w := by
  constructor
  · intro same
    apply BitVec.eq_of_getLsbD_eq
    intro i inside
    have bit := congrArg (BitVec.getLsbD · i) same
    simp only [BitVec.getLsbD_or] at bit
    rw [BitVec.getLsbD_and, BitVec.getLsbD_not, decide_eq_true inside, BitVec.getLsbD_zero, ← bit]
    cases s.getLsbD i <;> cases t.getLsbD i <;> rfl
  · intro none_
    apply BitVec.eq_of_getLsbD_eq
    intro i inside
    have bit := congrArg (BitVec.getLsbD · i) none_
    simp only [BitVec.getLsbD_and, BitVec.getLsbD_not, decide_eq_true inside,
      BitVec.getLsbD_zero] at bit
    rw [BitVec.getLsbD_or]
    revert bit
    cases s.getLsbD i <;> cases t.getLsbD i <;> decide

end Nachos.Lib.Mips
