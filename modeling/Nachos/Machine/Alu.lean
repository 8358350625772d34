/-
# Nachos.Machine.Alu -- the computational instructions against the architecture

`Decode` finds the operations of `Lib.Mips` where MIPS-I encodes them: the tables of the
source are read at the code of the word (`decode_eq`), hold each opcode at one place
(`listed_alu`, `listed_arith`), and the fields come out extended as the operation wants
them.

`alu_correct_iff` compares what the `switch` then computes with the result of the
architecture.  Three cases differ: `OR` combines `rs` with itself, and `SRL` and `SRLV`
shift a signed `int`, which brings the sign in; `Slips` are the operands on which it
shows.  `overflow_exact` says that `ADD`, `ADDI` and `SUB` trap exactly where the result
does not fit.
-/
import Nachos.Machine.Exceptions
import Nachos.Lib.Mips

namespace Nachos.Machine

open Nachos.Lib.Bytes
open Nachos.Lib.Mips (AluOp ArithOp Code codeOf)

set_option autoImplicit false

/-! ## `Decode` and the encodings of the architecture -/

section Decode

variable {value : Word}

/-- A field of the instruction word, as `Decode` extracts it. -/
theorem field_eq (value : Word) (s k : Nat) (small : k ≤ 32) :
    ((value >>> s) &&& BitVec.ofNat 32 (2 ^ k - 1)).toNat = (value.extractLsb' s k).toNat := by
  have bound : 2 ^ k ≤ 2 ^ 32 := Nat.pow_le_pow_right (by decide) small
  have pos := Nat.two_pow_pos k
  rw [BitVec.toNat_and, BitVec.toNat_ofNat, BitVec.extractLsb'_toNat, BitVec.toNat_ushiftRight,
    Nat.mod_eq_of_lt (by omega), Nat.and_two_pow_sub_one_eq_mod]

theorem decode_rs (value : Word) : (decode value).rs = (Lib.Mips.rs value).toNat :=
  field_eq value 21 5 (by decide)

theorem decode_rt (value : Word) : (decode value).rt = (Lib.Mips.rt value).toNat :=
  field_eq value 16 5 (by decide)

theorem decode_rd (value : Word) : (decode value).rd = (Lib.Mips.rd value).toNat :=
  field_eq value 11 5 (by decide)

/-- What the tables hold at a code. -/
def codeInfo : Code → OpInfo × Format
  | .special f => (.op (specialTable.getD f.toNat .res), .r)
  | .immediate k => opTable.getD k.toNat (.op .res, .i)

theorem codeInfo_special (k : BitVec 6) :
    ((codeInfo (.immediate k)).1 = .special ↔ k = 0) ∧
      (k = 0 → codeInfo (.immediate k) = (.special, .r)) := by
  revert k
  decide

/-- The opcode an entry stands for, `branch` for the branches of `BCOND`. -/
def OpInfo.opCode (branch : OpCode) : OpInfo → OpCode
  | .op opCode => opCode
  | .special => .res
  | .bcond => branch

/-- **`Decode` reads its tables at the code of the word**; the branches of `BCOND` are
told apart by other bits. -/
theorem decode_eq (value : Word) :
    (decode value).opCode = (codeInfo (codeOf value)).1.opCode (bcondOp (value &&& 0x1f0000#32)) ∧
      (decode value).extra = decodeExtra value (codeInfo (codeOf value)).2 := by
  have k := field_eq value 26 6 (by decide)
  have f := field_eq value 0 6 (by decide)
  rw [BitVec.ushiftRight_zero] at f
  have index : opTable.getD ((value >>> 26) &&& 0x3f#32).toNat (.op .res, .i) =
      codeInfo (.immediate (Lib.Mips.opcode value)) := congrArg (opTable.getD · _) k
  have funct : specialTable.getD (value &&& 0x3f#32).toNat .res =
      specialTable.getD (Lib.Mips.funct value).toNat .res :=
    congrArg (specialTable.getD · _) f
  have info := codeInfo_special (Lib.Mips.opcode value)
  unfold decode codeOf
  dsimp only
  rw [index, funct]
  by_cases special : Lib.Mips.opcode value = 0
  · rw [if_pos special, info.2 special]
    exact ⟨rfl, rfl⟩
  · rw [if_neg special]
    have other := mt info.1.mp special
    revert other
    cases (codeInfo (.immediate (Lib.Mips.opcode value))).1 with
    | op o => exact fun _ => ⟨rfl, rfl⟩
    | special => exact fun other => absurd rfl other
    | bcond => exact fun _ => ⟨rfl, rfl⟩

/-- The opcodes `Decode` can give without reading them off its tables. -/
def otherOps : List OpCode := [.bltz, .bgez, .bltzal, .bgezal, .unimp, .res]

theorem bcondOp_mem (i : Word) : bcondOp i ∈ otherOps := by
  unfold bcondOp
  split
  · decide
  · split
    · decide
    · split
      · decide
      · split <;> decide

end Decode

/-! ## The operations of the architecture among the opcodes -/

section Operations

variable {value : Word}

def aluOpCode : AluOp → OpCode
  | .addu => .addu
  | .subu => .subu
  | .and => .and
  | .or => .or
  | .xor => .xor
  | .nor => .nor
  | .slt => .slt
  | .sltu => .sltu
  | .sll => .sll
  | .srl => .srl
  | .sra => .sra
  | .sllv => .sllv
  | .srlv => .srlv
  | .srav => .srav
  | .addiu => .addiu
  | .andi => .andi
  | .ori => .ori
  | .xori => .xori
  | .lui => .lui
  | .slti => .slti
  | .sltiu => .sltiu

def arithOpCode : ArithOp → OpCode
  | .add => .add
  | .sub => .sub
  | .addi => .addi

/-- The tables hold the opcode `o` at the code `c` and nowhere else. -/
structure Listed (o : OpCode) (c : Code) (format : Format) : Prop where
  here : codeInfo c = (.op o, format)
  alone : ∀ c', (codeInfo c').1 = .op o → c' = c
  plain : o ∉ otherOps

def codeFormat : Code → Format
  | .special _ => .r
  | .immediate _ => .i

theorem listed_alu (op : AluOp) : Listed (aluOpCode op) op.code (codeFormat op.code) := by
  refine ⟨by cases op <;> rfl, ?_, by cases op <;> decide⟩
  intro c held
  cases c with
  | special f => cases op <;> revert f <;> decide
  | immediate k => cases op <;> revert k <;> decide

theorem listed_arith (op : ArithOp) : Listed (arithOpCode op) op.code (codeFormat op.code) := by
  refine ⟨by cases op <;> rfl, ?_, by cases op <;> decide⟩
  intro c held
  cases c with
  | special f => cases op <;> revert f <;> decide
  | immediate k => cases op <;> revert k <;> decide

/-- **`Decode` finds an operation where the architecture encodes it.** -/
theorem Listed.decode_iff {o : OpCode} {c : Code} {format : Format} (listed : Listed o c format) :
    (decode value).opCode = o ↔ codeOf value = c := by
  rw [(decode_eq value).1]
  constructor
  · intro found
    apply listed.alone
    revert found
    cases (codeInfo (codeOf value)).1 with
    | op o' => exact congrArg OpInfo.op
    | special =>
        rintro rfl
        exact absurd (show OpCode.res ∈ otherOps by decide) listed.plain
    | bcond =>
        rintro rfl
        exact absurd (bcondOp_mem _) listed.plain
  · intro here
    rw [here, listed.here]
    rfl

/-- The instruction it is decoded to. -/
theorem Listed.instruction {o : OpCode} {c : Code} {format : Format} (listed : Listed o c format)
    (encoded : codeOf value = c) :
    decode value = ⟨o, (Lib.Mips.rs value).toNat, (Lib.Mips.rt value).toNat,
      (Lib.Mips.rd value).toNat, decodeExtra value format⟩ := by
  have opCode := listed.decode_iff.mpr encoded
  have extra := (decode_eq value).2
  rw [encoded, listed.here] at extra
  rw [← opCode, ← decode_rs, ← decode_rt, ← decode_rd, ← extra]

end Operations

/-! ## Immediates -/

section Immediates

variable (value : Word)

theorem toNat_and_0xffff (x : Word) : (x &&& 0xffff#32).toNat = x.toNat % 2 ^ 16 := by
  rw [BitVec.toNat_and]
  exact Nat.and_two_pow_sub_one_eq_mod x.toNat 16

theorem toNat_and_0x1f (x : Word) : (x &&& 0x1f#32).toNat = x.toNat % 32 := by
  rw [BitVec.toNat_and]
  exact Nat.and_two_pow_sub_one_eq_mod x.toNat 5

theorem and_0x8000_ne_zero_iff (x : BitVec 16) :
    x.setWidth 32 &&& 0x8000#32 ≠ 0#32 ↔ x.msb = true := by
  rw [show (0x8000#32) = BitVec.twoPow 32 15 by decide, BitVec.and_twoPow,
    BitVec.getLsbD_setWidth, BitVec.msb_eq_getLsbD_last]
  have : BitVec.twoPow 32 15 ≠ 0#32 := by decide
  cases x.getLsbD 15 <;> simp [this]

/-- Setting the upper half adds it. -/
theorem toNat_or_0xffff0000 (x : BitVec 16) :
    (x.setWidth 32 ||| 0xffff0000#32).toNat = x.toNat + (2 ^ 32 - 2 ^ 16) := by
  have half := Nat.shiftLeft_add_eq_or_of_lt x.isLt 0xffff
  rw [BitVec.toNat_or, BitVec.toNat_setWidth_of_le (by decide), Nat.or_comm]
  exact half.symm.trans (Nat.add_comm _ _)

theorem and_0xffff_eq : value &&& 0xffff#32 = (Lib.Mips.immediate value).setWidth 32 := by
  apply BitVec.eq_of_toNat_eq
  rw [toNat_and_0xffff, BitVec.toNat_setWidth_of_le (by decide), Lib.Mips.immediate,
    BitVec.extractLsb'_toNat, Nat.shiftRight_zero]

/-- `Decode` extends the immediate field with its sign. -/
theorem decodeExtra_i : decodeExtra value .i = (Lib.Mips.immediate value).signExtend 32 := by
  unfold decodeExtra
  dsimp only
  rw [and_0xffff_eq]
  generalize Lib.Mips.immediate value = x
  apply BitVec.eq_of_toNat_eq
  rw [BitVec.toNat_signExtend, BitVec.toNat_setWidth_of_le (by decide)]
  by_cases negative : x.msb = true
  · rw [if_pos ((and_0x8000_ne_zero_iff x).mpr negative), if_pos negative, toNat_or_0xffff0000]
  · rw [if_neg (mt (and_0x8000_ne_zero_iff x).mp negative), if_neg negative,
      BitVec.toNat_setWidth_of_le (by decide), Nat.add_zero]

theorem decodeExtra_r : (decodeExtra value .r).toNat = (Lib.Mips.shamt value).toNat :=
  field_eq value 6 5 (by decide)

/-- Cut to its half again, the immediate is extended with zeros. -/
theorem signExtend_and_0xffff (x : BitVec 16) : x.signExtend 32 &&& 0xffff#32 = x.setWidth 32 := by
  have inside := x.isLt
  apply BitVec.eq_of_toNat_eq
  rw [toNat_and_0xffff, BitVec.toNat_signExtend, BitVec.toNat_setWidth_of_le (by decide)]
  split <;> omega

theorem signExtend_shiftLeft (x : BitVec 16) : x.signExtend 32 <<< 16 = x ++ 0#16 := by
  have inside := x.isLt
  apply BitVec.eq_of_toNat_eq
  rw [BitVec.toNat_shiftLeft, BitVec.toNat_signExtend, BitVec.toNat_setWidth_of_le (by decide),
    BitVec.toNat_append, Nat.shiftLeft_eq, Nat.shiftLeft_eq]
  show _ = x.toNat * 2 ^ 16 ||| 0
  rw [Nat.or_zero]
  split <;> omega

end Immediates

/-! ## What the simulator computes -/

section Execute

variable {value : Word}

/-- What the `case` of an operation computes from the words of `rs` and `rt`.  `OR`
takes `rs` twice, and the shifts right of `SRL` and `SRLV` are those of a signed `int`. -/
def simulated (op : AluOp) (value s t : Word) : Word :=
  match op with
  | .or => s ||| s
  | .srl => t.sshiftRight (Lib.Mips.shamt value).toNat
  | .srlv => t.sshiftRight (s.toNat % 32)
  | op => op.result value s t

/-- The destination field is the one the `case` assigns. -/
theorem execute_alu (op : AluOp) (encoded : codeOf value = op.code) (r : Registers) :
    execute (decode value) r =
      .complete [((op.code.dest value).toNat,
        simulated op value (r (Lib.Mips.rs value).toNat) (r (Lib.Mips.rt value).toNat))]
        (r nextPCReg + 4) := by
  have shift := decodeExtra_r value
  have imm := decodeExtra_i value
  rw [(listed_alu op).instruction encoded]
  unfold execute
  cases op <;>
    simp only [aluOpCode, codeFormat, AluOp.code, Code.dest, simulated, AluOp.result, shift, imm,
      BitVec.shiftLeft_eq', toNat_and_0x1f, signExtend_and_0xffff, signExtend_shiftLeft,
      BitVec.slt_iff_toInt_lt, BitVec.ult_iff_lt, BitVec.lt_def,
      BitVec.toInt_signExtend_of_le (show 16 ≤ 32 by decide)]

/-- The operands on which a `case` of the simulator goes wrong: an `OR` that should take
a bit from `rt`, and a logical shift of a word with its top bit set. -/
def Slips (op : AluOp) (value s t : Word) : Prop :=
  match op with
  | .or => t &&& ~~~s ≠ 0#32
  | .srl => Lib.Mips.shamt value ≠ 0 ∧ t.msb = true
  | .srlv => s.toNat % 32 ≠ 0 ∧ t.msb = true
  | _ => False

theorem simulated_eq_iff (op : AluOp) (value s t : Word) :
    simulated op value s t = op.result value s t ↔ ¬ Slips op value s t := by
  cases op with
  | or =>
      have swap : s ||| s = s ||| t ↔ s ||| t = s := by
        rw [BitVec.or_self]
        exact eq_comm
      exact (swap.trans (Lib.Mips.or_eq_left_iff s t)).trans Classical.not_not.symm
  | srl =>
      have zero : (Lib.Mips.shamt value).toNat = 0 ↔ Lib.Mips.shamt value = 0 :=
        ⟨fun h => BitVec.eq_of_toNat_eq h, fun h => by rw [h]; rfl⟩
      refine (Lib.Mips.sshiftRight_eq_iff t _).trans ?_
      rw [zero]
      simp only [Slips]
      grind
  | srlv =>
      refine (Lib.Mips.sshiftRight_eq_iff t _).trans ?_
      simp only [Slips]
      grind
  | _ => exact ⟨fun _ => id, fun _ => rfl⟩

end Execute

/-! ## The instruction on the machine -/

section Machine

variable {c : Config} {cpu : Cpu Vm} {value : Word} {m : Vm}

/-- `cpu'` is `cpu` with `v` in register `dest`, and register 0 zero: no other general
register, not `HiReg` nor `LoReg`, and no byte of the memory has changed. -/
structure Sets (cpu cpu' : Cpu Vm) (dest : Nat) (v : Word) : Prop where
  memory : cpu'.memory.mainMemory = cpu.memory.mainMemory
  registers : ∀ n ≤ loReg, cpu'.registers n =
    if n = 0 then 0 else if n = dest then v else cpu.registers n

/-- One assignment and no pending load. -/
theorem complete_one {r : Registers} (idle : r loadReg = 0) (dest : Nat) (low : dest < pcReg)
    (v pcAfter : Word) {n : Nat} (below : n ≤ loReg) :
    advance (delayedLoad (assignAll r [(dest, v)]) 0 0) pcAfter n =
      if n = 0 then 0 else if n = dest then v else r n := by
  have proper : ∀ w ∈ [(dest, v)], w.1 < pcReg := by
    intro w isIn
    rw [List.mem_singleton.mp isIn]
    exact low
  rw [complete_apply proper _ _ _ (Nat.lt_of_le_of_lt below (by decide)), idle]
  by_cases zero : n = 0
  · rw [if_pos zero, if_pos zero]
  · rw [if_neg zero, if_neg zero, if_neg (show n ≠ (0 : Word).toNat from zero)]
    exact Function.update_apply r dest v n

/-- The instruction does what the fetched word asks for. -/
theorem oneInstruction_of_fetch
    (fetched : (vmOps c).readMem cpu.memory (cpu.registers pcReg) 4 = .ok (.value value m)) :
    oneInstruction (vmOps c) cpu =
      perform (vmOps c) cpu.registers m (execute (decode value) cpu.registers) :=
  bind_of_ok fetched

/-- An instruction that only assigns one register, with no load pending. -/
theorem completes_one {dest : Nat} {v : Word} (low : dest < pcReg)
    (idle : cpu.registers loadReg = 0)
    (fetched : (vmOps c).readMem cpu.memory (cpu.registers pcReg) 4 = .ok (.value value m))
    (asks : execute (decode value) cpu.registers =
      .complete [(dest, v)] (cpu.registers nextPCReg + 4)) :
    ∃ cpu', oneInstruction (vmOps c) cpu = .ok (.completed cpu') ∧ Sets cpu cpu' dest v := by
  refine ⟨⟨advance (delayedLoad (assignAll cpu.registers [(dest, v)]) 0 0)
    (cpu.registers nextPCReg + 4), m⟩, ?_, ?_⟩
  · rw [oneInstruction_of_fetch fetched, asks]
    rfl
  · exact ⟨Vm.readMem_mainMemory fetched, fun n below => complete_one idle dest low v _ below⟩

/-- The destination field names a general register. -/
theorem dest_lt (code : Code) (value : Word) : (code.dest value).toNat < 32 :=
  (code.dest value).isLt

/-- **Where the ALU computes the MIPS-I result.**  A word that decodes to one of the
operations is encoded as the architecture encodes it, and its execution sets exactly the
destination to the result of the architecture, unless the destination is not register 0
and the operands are ones on which the `case` slips. -/
theorem alu_correct_iff (op : AluOp) (idle : cpu.registers loadReg = 0)
    (fetched : (vmOps c).readMem cpu.memory (cpu.registers pcReg) 4 = .ok (.value value m))
    (decoded : (decode value).opCode = aluOpCode op) :
    let s := cpu.registers (Lib.Mips.rs value).toNat
    let t := cpu.registers (Lib.Mips.rt value).toNat
    codeOf value = op.code ∧
      ((∃ cpu', oneInstruction (vmOps c) cpu = .ok (.completed cpu') ∧
          Sets cpu cpu' (op.code.dest value).toNat (op.result value s t)) ↔
        ¬ (op.code.dest value ≠ 0 ∧ Slips op value s t)) := by
  intro s t
  have encoded := (listed_alu op).decode_iff.mp decoded
  have low := dest_lt op.code value
  obtain ⟨cpu', ran, sets⟩ := completes_one (Nat.lt_of_lt_of_le low (by decide)) idle fetched
    (execute_alu op encoded cpu.registers)
  refine ⟨encoded, ?_, ?_⟩
  · rintro ⟨cpu'', ran', sets'⟩ ⟨written, slips⟩
    have same : cpu' = cpu'' := by
      rw [ran] at ran'
      cases ran'
      rfl
    subst same
    have dest : (op.code.dest value).toNat ≠ 0 := fun zero => written (BitVec.eq_of_toNat_eq zero)
    have below : (op.code.dest value).toNat ≤ loReg :=
      Nat.le_of_lt (Nat.lt_of_lt_of_le low (by decide))
    have computed := sets.registers _ below
    rw [sets'.registers _ below, if_neg dest, if_neg dest, if_pos rfl, if_pos rfl] at computed
    exact (simulated_eq_iff op value s t).mp computed.symm slips
  · intro fine_
    refine ⟨cpu', ran, sets.memory, fun n below => ?_⟩
    rw [sets.registers n below]
    by_cases zero : n = 0
    · rw [if_pos zero, if_pos zero]
    rw [if_neg zero, if_neg zero]
    by_cases isDest : n = (op.code.dest value).toNat
    · rw [if_pos isDest, if_pos isDest]
      refine (simulated_eq_iff op value s t).mpr fun slips => fine_ ⟨?_, slips⟩
      intro none_
      rw [none_] at isDest
      exact zero isDest
    · rw [if_neg isDest, if_neg isDest]

/-- `addu r3, r1, r2` on 5 and 7. -/
theorem alu_correct_twelve :
    ∃ cpu', oneInstruction (vmOps oneFrame) (running 5 7 0x221821) = .ok (.completed cpu') ∧
      Sets (running 5 7 0x221821) cpu' 3 12 := by
  have fetched : (vmOps oneFrame).readMem (running 5 7 0x221821).memory
      ((running 5 7 0x221821).registers pcReg) 4 = .ok (.value 0x221821 _) := rfl
  exact (alu_correct_iff .addu rfl fetched rfl).2.mpr And.right

/-- `or r3, r1, r2` on 0 and 1 leaves 0 in `r3`. -/
theorem or_ignores_rt :
    codeOf 0x221825 = AluOp.or.code ∧
      ¬ ∃ cpu', oneInstruction (vmOps oneFrame) (running 0 1 0x221825) = .ok (.completed cpu') ∧
        Sets (running 0 1 0x221825) cpu' 3 (AluOp.or.result 0x221825 0 1) := by
  refine ⟨by decide, ?_⟩
  rintro ⟨cpu', ran, sets⟩
  have three : cpu'.registers 3 = 0 := by
    cases ran
    rfl
  have wanted := sets.registers 3 (by decide)
  rw [three] at wanted
  exact absurd wanted (by decide)

end Machine

/-! ## Overflow -/

section Overflow

variable {c : Config} {cpu : Cpu Vm} {value : Word} {m : Vm}

theorem sign_eq (x : Word) : sign x = decide (x.toInt < 0) := BitVec.msb_eq_toInt

theorem sign_xor (x y : Word) : sign (x ^^^ y) = (sign x != sign y) := BitVec.msb_xor

theorem toInt_range (x : Word) : -2 ^ 31 ≤ x.toInt ∧ x.toInt < 2 ^ 31 :=
  ⟨BitVec.le_toInt x, BitVec.toInt_lt⟩

/-- A wrapped number is exact, or off by the modulus to the side that fits. -/
theorem bmod_cases (x : Int) (range : -2 ^ 32 ≤ x ∧ x < 2 ^ 32) :
    x.bmod (2 ^ 32) =
      if x < -2 ^ 31 then x + 2 ^ 32 else if 2 ^ 31 ≤ x then x - 2 ^ 32 else x := by
  have modulus : ((2 ^ 32 : Nat) : Int) = 2 ^ 32 := rfl
  rw [Int.bmod_def, modulus]
  split <;> split <;> (try split) <;> omega

/-- `ADD` compares the sign of the sum with that of operands of one sign. -/
theorem add_overflows (s t : Word) :
    (!sign (s ^^^ t) && sign (s ^^^ (s + t))) = true ↔
      ¬ Lib.Mips.Representable (s.toInt + t.toInt) := by
  have hs := toInt_range s
  have ht := toInt_range t
  have sum := BitVec.toInt_add s t
  rw [bmod_cases _ (by omega)] at sum
  unfold Lib.Mips.Representable
  rw [sign_xor, sign_xor, sign_eq, sign_eq, sign_eq]
  simp only [Bool.and_eq_true, Bool.not_eq_true', bne_eq_false_iff_eq, bne_iff_ne, ne_eq,
    decide_eq_decide]
  split at sum
  · omega
  · split at sum <;> omega

/-- `ADDI` compares the sign of the sum with that of the other operand. -/
theorem add_overflows_right (s t : Word) :
    (!sign (s ^^^ t) && sign (t ^^^ (s + t))) = true ↔
      ¬ Lib.Mips.Representable (s.toInt + t.toInt) := by
  have swapped := add_overflows t s
  rwa [BitVec.xor_comm t s, BitVec.add_comm t s, Int.add_comm] at swapped

/-- `SUB` does with operands of different signs. -/
theorem sub_overflows (s t : Word) :
    (sign (s ^^^ t) && sign (s ^^^ (s - t))) = true ↔
      ¬ Lib.Mips.Representable (s.toInt - t.toInt) := by
  have hs := toInt_range s
  have ht := toInt_range t
  have diff := BitVec.toInt_sub (x := s) (y := t)
  rw [bmod_cases _ (by omega)] at diff
  unfold Lib.Mips.Representable
  rw [sign_xor, sign_xor, sign_eq, sign_eq, sign_eq]
  simp only [Bool.and_eq_true, bne_iff_ne, ne_eq, decide_eq_decide]
  split at diff
  · omega
  · split at diff <;> omega

/-- A result that is representable is not changed by the wrap. -/
theorem toInt_of_representable {x : Int} (fits : Lib.Mips.Representable x) :
    (BitVec.ofInt 32 x).toInt = x := by
  obtain ⟨low, high⟩ := fits
  rw [BitVec.toInt_ofInt]
  exact Int.bmod_eq_of_le (by omega) (by omega)

theorem sub_eq_ofInt (s t : Word) : s - t = BitVec.ofInt 32 (s.toInt - t.toInt) := by
  apply BitVec.eq_of_toInt_eq
  rw [BitVec.toInt_sub, BitVec.toInt_ofInt]

/-- What `ADD`, `ADDI` and `SUB` ask for. -/
theorem execute_arith (op : ArithOp) (encoded : codeOf value = op.code) (r : Registers) :
    let exactly := op.exactResult value (r (Lib.Mips.rs value).toNat) (r (Lib.Mips.rt value).toNat)
    execute (decode value) r =
      if Lib.Mips.Representable exactly then
        .complete [((op.code.dest value).toNat, BitVec.ofInt 32 exactly)] (r nextPCReg + 4)
      else .raise .overflowException 0 := by
  have imm := decodeExtra_i value
  rw [(listed_arith op).instruction encoded]
  intro exactly
  -- the test of each case is the exact condition
  have tested : ∀ {test : Bool} {e e' : Effect}, (test = true ↔ ¬ Lib.Mips.Representable exactly) →
      (if test then e' else e) = if Lib.Mips.Representable exactly then e else e' := by
    intro test e e' iff
    by_cases fits : Lib.Mips.Representable exactly
    · rw [if_pos fits, if_neg (fun raised => iff.mp raised fits)]
    · rw [if_neg fits, if_pos (iff.mpr fits)]
  unfold execute
  cases op with
  | add =>
      simp only [arithOpCode]
      rw [tested (add_overflows _ _)]
      simp only [exactly, ArithOp.exactResult, BitVec.ofInt_add, BitVec.ofInt_toInt]
      rfl
  | sub =>
      simp only [arithOpCode]
      rw [tested (sub_overflows _ _)]
      simp only [exactly, ArithOp.exactResult, sub_eq_ofInt]
      rfl
  | addi =>
      have exact_ : exactly = (r (Lib.Mips.rs value).toNat).toInt +
          ((Lib.Mips.immediate value).signExtend 32).toInt := by
        simp only [exactly, ArithOp.exactResult,
          BitVec.toInt_signExtend_of_le (show 16 ≤ 32 by decide)]
      simp only [arithOpCode, codeFormat, ArithOp.code, imm]
      rw [exact_] at tested ⊢
      rw [tested (add_overflows_right _ _), BitVec.ofInt_add, BitVec.ofInt_toInt,
        BitVec.ofInt_toInt]
      rfl

/-- **Overflow is detected exactly.**  `ADD`, `ADDI` and `SUB` raise where the exact
result does not fit a signed word; the destination is then as it was, and otherwise
holds the exact result. -/
theorem overflow_exact (op : ArithOp) (idle : cpu.registers loadReg = 0)
    (fetched : (vmOps c).readMem cpu.memory (cpu.registers pcReg) 4 = .ok (.value value m))
    (decoded : (decode value).opCode = arithOpCode op) (written : op.code.dest value ≠ 0) :
    let exactly := op.exactResult value (cpu.registers (Lib.Mips.rs value).toNat)
      (cpu.registers (Lib.Mips.rt value).toNat)
    let dest := (op.code.dest value).toNat
    ((∃ cpu', oneInstruction (vmOps c) cpu = .ok (.trapped .overflowException cpu')) ↔
        ¬ Lib.Mips.Representable exactly) ∧
      (∀ cpu', oneInstruction (vmOps c) cpu = .ok (.trapped .overflowException cpu') →
        cpu'.registers dest = cpu.registers dest) ∧
      ((¬ ∃ cpu', oneInstruction (vmOps c) cpu = .ok (.trapped .overflowException cpu')) →
        ∃ cpu', oneInstruction (vmOps c) cpu = .ok (.completed cpu') ∧
          (cpu'.registers dest).toInt = exactly) := by
  intro exactly dest
  have encoded := (listed_arith op).decode_iff.mp decoded
  have low := dest_lt op.code value
  have notZero : dest ≠ 0 := fun zero => written (BitVec.eq_of_toNat_eq zero)
  by_cases fits : Lib.Mips.Representable exactly
  · have asks := (execute_arith op encoded cpu.registers).trans (if_pos fits)
    obtain ⟨cpu', ran, sets⟩ := completes_one (Nat.lt_of_lt_of_le low (by decide)) idle fetched asks
    refine ⟨⟨?_, fun misfit => absurd fits misfit⟩, ?_, fun _ => ⟨cpu', ran, ?_⟩⟩
    · rintro ⟨cpu'', raised⟩
      rw [ran] at raised
      cases raised
    · intro cpu'' raised
      rw [ran] at raised
      cases raised
    · rw [sets.registers _ (Nat.le_of_lt (Nat.lt_of_lt_of_le low (by decide))), if_neg notZero,
        if_pos rfl]
      exact toInt_of_representable fits
  · have asks := (execute_arith op encoded cpu.registers).trans (if_neg fits)
    have raised : oneInstruction (vmOps c) cpu =
        .ok (.trapped .overflowException ⟨trapRegisters cpu.registers 0, m⟩) := by
      rw [oneInstruction_of_fetch fetched, asks]
      rfl
    refine ⟨⟨fun _ => fits, fun _ => ⟨_, raised⟩⟩, ?_, fun none_ => absurd ⟨_, raised⟩ none_⟩
    intro cpu' raised'
    rw [raised] at raised'
    cases raised'
    have below : dest ≤ prevPCReg := Nat.le_of_lt (Nat.lt_of_lt_of_le low (by decide))
    calc trapRegisters cpu.registers 0 dest
        = if dest = (cpu.registers loadReg).toNat then cpu.registers loadValueReg
          else cpu.registers dest := by rw [trapRegisters_apply _ _ below, if_neg notZero]
      _ = cpu.registers dest := by
          rw [idle]
          exact if_neg notZero

/-- `addi r3, r1, 1` on the largest word traps. -/
theorem overflow_exact_max :
    (∃ cpu', oneInstruction (vmOps oneFrame) (running 0x7fffffff 0 0x20230001) =
        .ok (.trapped .overflowException cpu')) ∧
      ¬ Lib.Mips.Representable (ArithOp.addi.exactResult 0x20230001 0x7fffffff 0) := by
  have fetched : (vmOps oneFrame).readMem (running 0x7fffffff 0 0x20230001).memory
      ((running 0x7fffffff 0 0x20230001).registers pcReg) 4 = .ok (.value 0x20230001 _) := rfl
  have misfit : ¬ Lib.Mips.Representable (ArithOp.addi.exactResult 0x20230001 0x7fffffff 0) := by
    decide
  exact ⟨(overflow_exact .addi rfl fetched rfl (by decide)).1.mpr misfit, misfit⟩

end Overflow

end Nachos.Machine
