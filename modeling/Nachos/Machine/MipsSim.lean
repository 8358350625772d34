/-
# Nachos.Machine.MipsSim -- `machine/mipssim.cc`: the MIPS simulator

`Instruction::Decode` with its two tables, and `Machine::OneInstruction`.  The big
`switch` is split in two: `execute` says what an instruction wants done as a function
of the registers (`Effect`), and `oneInstruction` does it: the fetch, the access to
memory, the delayed load, the step of the program counters, or the trap.

The simulator is written over an arbitrary memory, given by its `ReadMem` and
`WriteMem`.  Registers are the array of 40 `int`s, as words; what the source does is
kept also where it is odd (`OR` of a register with itself, `SRL` that shifts the sign
in).
-/
import Nachos.Machine.Translate

namespace Nachos.Machine

open Nachos.Lib.Bytes

set_option autoImplicit false

/-! ## Registers -/

/-- `registers[NumTotalRegs]`. -/
abbrev Registers := Nat → Word

def stackReg : Nat := 29
def r31 : Nat := 31
def numGPRegs : Nat := 32
def hiReg : Nat := 32
def loReg : Nat := 33
def pcReg : Nat := 34
def nextPCReg : Nat := 35
def prevPCReg : Nat := 36
def loadReg : Nat := 37
def loadValueReg : Nat := 38
def badVAddrReg : Nat := 39

/-- `registers[num] = value`. -/
def Registers.set (r : Registers) (num : Nat) (value : Word) : Registers :=
  Function.update r num value

/-- `Machine::DelayedLoad`. -/
def delayedLoad (r : Registers) (nextReg : Nat) (nextValue : Word) : Registers :=
  let r := r.set (r loadReg).toNat (r loadValueReg)
  let r := r.set loadReg (BitVec.ofNat 32 nextReg)
  let r := r.set loadValueReg nextValue
  r.set 0 0

/-- `RaiseException` up to the call of the handler. -/
def trapRegisters (r : Registers) (badVAddr : Word) : Registers :=
  delayedLoad (r.set badVAddrReg badVAddr) 0 0

/-- The end of `OneInstruction`: the program counters advance. -/
def advance (r : Registers) (pcAfter : Word) : Registers :=
  let r := r.set prevPCReg (r pcReg)
  let r := r.set pcReg (r nextPCReg)
  r.set nextPCReg pcAfter

/-! ## Decoding -/

inductive OpCode where
  | add | addi | addiu | addu | and | andi | beq | bgez | bgezal | bgtz | blez | bltz | bltzal | bne
  | div | divu | j | jal | jalr | jr | lb | lbu | lh | lhu | lui | lw | lwl | lwr
  | mfhi | mflo | mthi | mtlo | mult | multu | nor | or | ori | rfe | sb | sh | sll | sllv
  | slt | slti | sltiu | sltu | sra | srav | srl | srlv | sub | subu | sw | swl | swr
  | xor | xori | syscall | unimp | res
  deriving DecidableEq, Repr

/-- `IFMT`, `JFMT`, `RFMT`. -/
inductive Format where
  | i | j | r
  deriving DecidableEq, Repr

/-- The `opCode` field of `OpInfo`: an opcode, or `SPECIAL`, or `BCOND`. -/
inductive OpInfo where
  | op (opCode : OpCode)
  | special
  | bcond
  deriving DecidableEq, Repr

structure Instruction where
  opCode : OpCode
  rs : Nat
  rt : Nat
  rd : Nat
  extra : Word
  deriving DecidableEq, Repr

/-- `opTable`. -/
def opTable : List (OpInfo × Format) :=
  [(.special, .r), (.bcond, .i), (.op .j, .j), (.op .jal, .j),
    (.op .beq, .i), (.op .bne, .i), (.op .blez, .i), (.op .bgtz, .i),
    (.op .addi, .i), (.op .addiu, .i), (.op .slti, .i), (.op .sltiu, .i),
    (.op .andi, .i), (.op .ori, .i), (.op .xori, .i), (.op .lui, .i),
    (.op .unimp, .i), (.op .unimp, .i), (.op .unimp, .i), (.op .unimp, .i),
    (.op .res, .i), (.op .res, .i), (.op .res, .i), (.op .res, .i),
    (.op .res, .i), (.op .res, .i), (.op .res, .i), (.op .res, .i),
    (.op .res, .i), (.op .res, .i), (.op .res, .i), (.op .res, .i),
    (.op .lb, .i), (.op .lh, .i), (.op .lwl, .i), (.op .lw, .i),
    (.op .lbu, .i), (.op .lhu, .i), (.op .lwr, .i), (.op .res, .i),
    (.op .sb, .i), (.op .sh, .i), (.op .swl, .i), (.op .sw, .i),
    (.op .res, .i), (.op .res, .i), (.op .swr, .i), (.op .res, .i),
    (.op .unimp, .i), (.op .unimp, .i), (.op .unimp, .i), (.op .unimp, .i),
    (.op .res, .i), (.op .res, .i), (.op .res, .i), (.op .res, .i),
    (.op .unimp, .i), (.op .unimp, .i), (.op .unimp, .i), (.op .unimp, .i),
    (.op .res, .i), (.op .res, .i), (.op .res, .i), (.op .res, .i)]

/-- `specialTable`. -/
def specialTable : List OpCode :=
  [.sll, .res, .srl, .sra, .sllv, .res, .srlv, .srav,
    .jr, .jalr, .res, .res, .syscall, .unimp, .res, .res,
    .mfhi, .mthi, .mflo, .mtlo, .res, .res, .res, .res,
    .mult, .multu, .div, .divu, .res, .res, .res, .res,
    .add, .addu, .sub, .subu, .and, .or, .xor, .nor,
    .res, .res, .slt, .sltu, .res, .res, .res, .res,
    .res, .res, .res, .res, .res, .res, .res, .res,
    .res, .res, .res, .res, .res, .res, .res, .res]

/-- The `BCOND` branch of `Decode`, on `value & 0x1f0000`. -/
def bcondOp (i : Word) : OpCode :=
  if i = 0#32 then .bltz
  else if i = 0x10000#32 then .bgez
  else if i = 0x100000#32 then .bltzal
  else if i = 0x110000#32 then .bgezal
  else .unimp

/-- The `extra` field, by format. -/
def decodeExtra (value : Word) : Format → Word
  | .i =>
      let extra := value &&& 0xffff#32
      if extra &&& 0x8000#32 ≠ 0#32 then extra ||| 0xffff0000#32 else extra
  | .r => (value >>> 6) &&& 0x1f#32
  | .j => value &&& 0x3ffffff#32

/-- `Instruction::Decode`. -/
def decode (value : Word) : Instruction :=
  let opPtr := opTable.getD ((value >>> 26) &&& 0x3f#32).toNat (.op .res, .i)
  { opCode :=
      match opPtr.1 with
      | .op opCode => opCode
      | .special => specialTable.getD (value &&& 0x3f#32).toNat .res
      | .bcond => bcondOp (value &&& 0x1f0000#32)
    rs := ((value >>> 21) &&& 0x1f#32).toNat
    rt := ((value >>> 16) &&& 0x1f#32).toNat
    rd := ((value >>> 11) &&& 0x1f#32).toNat
    extra := decodeExtra value opPtr.2 }

/-! ## Arithmetic -/

/-- `x & SIGN_BIT`. -/
def sign (x : Word) : Bool := x.msb

/-- `IndexToAddr`. -/
def indexToAddr (x : Word) : Word := x <<< 2

/-- The loop of `Mult`, for `n` more bits of `a`. -/
def multLoop : Nat → (a bLo bHi lo hi : Word) → Word × Word
  | 0, _, _, _, lo, hi => (hi, lo)
  | n + 1, a, bLo, bHi, lo, hi =>
      let odd := a &&& 1#32 ≠ 0#32
      let lo' := if odd then lo + bLo else lo
      let hi' := if odd then (if lo' < bLo then hi + 1 else hi) + bHi else hi
      if odd ∧ a &&& 0xfffffffe#32 = 0#32 then (hi', lo')
      else
        let bHi' := if bLo &&& 0x80000000#32 ≠ 0#32 then (bHi <<< 1) ||| 1#32 else bHi <<< 1
        multLoop n (a.sshiftRight 1) (bLo <<< 1) bHi' lo' hi'

/-- `Mult`: the high and the low word of the product. -/
def mult (a b : Word) (signedArith : Bool) : Word × Word :=
  if a = 0#32 ∨ b = 0#32 then (0, 0)
  else
    let negative := signedArith && (sign a != sign b)
    let a := if signedArith && sign a then -a else a
    let b := if signedArith && sign b then -b else b
    let (hi, lo) := multLoop 32 a b 0 0 0
    if negative then
      let lo' := ~~~lo + 1
      (if lo' = 0#32 then ~~~hi + 1 else ~~~hi, lo')
    else (hi, lo)

/-- The `switch (tmp & 0x3)` of `OP_LWL`. -/
def mergeLwl (tmp old value : Word) : Word :=
  if tmp &&& 3#32 = 0#32 then value
  else if tmp &&& 3#32 = 1#32 then (old &&& 0xff#32) ||| (value <<< 8)
  else if tmp &&& 3#32 = 2#32 then (old &&& 0xffff#32) ||| (value <<< 16)
  else (old &&& 0xffffff#32) ||| (value <<< 24)

/-- The `switch (tmp & 0x3)` of `OP_LWR`. -/
def mergeLwr (tmp old value : Word) : Word :=
  if tmp &&& 3#32 = 0#32 then (old &&& 0xffffff00#32) ||| (value.sshiftRight 24 &&& 0xff#32)
  else if tmp &&& 3#32 = 1#32 then (old &&& 0xffff0000#32) ||| (value.sshiftRight 16 &&& 0xffff#32)
  else if tmp &&& 3#32 = 2#32 then
    (old &&& 0xff000000#32) ||| (value.sshiftRight 8 &&& 0xffffff#32)
  else value

/-- The `switch (tmp & 0x3)` of `OP_SWL`. -/
def mergeSwl (tmp rt value : Word) : Word :=
  if tmp &&& 3#32 = 0#32 then rt
  else if tmp &&& 3#32 = 1#32 then (value &&& 0xff000000#32) ||| (rt.sshiftRight 8 &&& 0xffffff#32)
  else if tmp &&& 3#32 = 2#32 then (value &&& 0xffff0000#32) ||| (rt.sshiftRight 16 &&& 0xffff#32)
  else (value &&& 0xffffff00#32) ||| (rt.sshiftRight 24 &&& 0xff#32)

/-- The `switch (tmp & 0x3)` of `OP_SWR`. -/
def mergeSwr (tmp rt value : Word) : Word :=
  if tmp &&& 3#32 = 0#32 then (value &&& 0xffffff#32) ||| (rt <<< 24)
  else if tmp &&& 3#32 = 1#32 then (value &&& 0xffff#32) ||| (rt <<< 16)
  else if tmp &&& 3#32 = 2#32 then (value &&& 0xff#32) ||| (rt <<< 8)
  else rt

/-- The value an `OP_LB` or `OP_LH` makes of what it read; `bit` is its sign bit. -/
def extendLoad (signed : Bool) (bit mask : Word) (value : Word) : Word :=
  if value &&& bit ≠ 0#32 ∧ signed then value ||| ~~~mask else value &&& mask

/-! ## Instructions -/

/-- What an instruction asks for, the registers given. -/
inductive Effect where
  /-- Assign registers, in this order, and go on to `pcAfter`. -/
  | complete (writes : List (Nat × Word)) (pcAfter : Word)
  /-- Read memory; the delayed load of register `rt` gets `value` of what was read. -/
  | load (addr : Word) (size : Nat) (rt : Nat) (value : Word → Word)
  | store (addr : Word) (size : Nat) (value : Word)
  /-- Read a word and write it back changed. -/
  | modify (addr : Word) (value : Word → Word)
  | raise (which : ExceptionType) (badVAddr : Word)
  /-- The simulator itself stops. -/
  | stop (why : Stop)

/-- The value `LWL` and `LWR` merge into: the pending load's, if it has the same target. -/
def pendingOr (r : Registers) (rt : Nat) : Word :=
  if (r loadReg).toNat = rt then r loadValueReg else r rt

/-- The `switch` of `OneInstruction`. -/
def execute (i : Instruction) (r : Registers) : Effect :=
  let next := r nextPCReg
  let pcAfter := next + 4
  let branch := next + indexToAddr i.extra
  let tmp := r i.rs + i.extra
  let assign (num : Nat) (value : Word) : Effect := .complete [(num, value)] pcAfter
  let when (taken : Bool) : Effect := .complete [] (if taken then branch else pcAfter)
  match i.opCode with
  | .add =>
      let sum := r i.rs + r i.rt
      if !sign (r i.rs ^^^ r i.rt) && sign (r i.rs ^^^ sum) then .raise .overflowException 0
      else assign i.rd sum
  | .addi =>
      let sum := r i.rs + i.extra
      if !sign (r i.rs ^^^ i.extra) && sign (i.extra ^^^ sum) then .raise .overflowException 0
      else assign i.rt sum
  | .addiu => assign i.rt (r i.rs + i.extra)
  | .addu => assign i.rd (r i.rs + r i.rt)
  | .and => assign i.rd (r i.rs &&& r i.rt)
  | .andi => assign i.rt (r i.rs &&& (i.extra &&& 0xffff#32))
  | .beq => when (r i.rs == r i.rt)
  | .bgezal =>
      -- the link register is written before `rs` is read
      .complete [(r31, next + 4)]
        (if !sign (r.set r31 (next + 4) i.rs) then branch else pcAfter)
  | .bgez => when (!sign (r i.rs))
  | .bgtz => when (decide (0 < (r i.rs).toInt))
  | .blez => when (decide ((r i.rs).toInt ≤ 0))
  | .bltzal =>
      .complete [(r31, next + 4)]
        (if sign (r.set r31 (next + 4) i.rs) then branch else pcAfter)
  | .bltz => when (sign (r i.rs))
  | .bne => when (r i.rs != r i.rt)
  | .div =>
      if r i.rt = 0#32 then .complete [(loReg, 0), (hiReg, 0)] pcAfter
      else if (r i.rs).toInt = -2 ^ 31 ∧ (r i.rt).toInt = -1 then .stop .hostFault
      else .complete [(loReg, (r i.rs).sdiv (r i.rt)), (hiReg, (r i.rs).srem (r i.rt))] pcAfter
  | .divu =>
      if r i.rt = 0#32 then .complete [(loReg, 0), (hiReg, 0)] pcAfter
      else .complete [(loReg, r i.rs / r i.rt), (hiReg, r i.rs % r i.rt)] pcAfter
  | .jal =>
      .complete [(r31, next + 4)] ((pcAfter &&& 0xf0000000#32) ||| indexToAddr i.extra)
  | .j => .complete [] ((pcAfter &&& 0xf0000000#32) ||| indexToAddr i.extra)
  | .jalr => .complete [(i.rd, next + 4)] (r.set i.rd (next + 4) i.rs)
  | .jr => .complete [] (r i.rs)
  | .lb => .load tmp 1 i.rt (extendLoad true 0x80#32 0xff#32)
  | .lbu => .load tmp 1 i.rt (extendLoad false 0x80#32 0xff#32)
  | .lh =>
      if tmp &&& 1#32 ≠ 0#32 then .raise .addressErrorException tmp
      else .load tmp 2 i.rt (extendLoad true 0x8000#32 0xffff#32)
  | .lhu =>
      if tmp &&& 1#32 ≠ 0#32 then .raise .addressErrorException tmp
      else .load tmp 2 i.rt (extendLoad false 0x8000#32 0xffff#32)
  | .lui => assign i.rt (i.extra <<< 16)
  | .lw =>
      if tmp &&& 3#32 ≠ 0#32 then .raise .addressErrorException tmp
      else .load tmp 4 i.rt fun value => value
  | .lwl =>
      if tmp &&& 3#32 ≠ 0#32 then .stop .assertion
      else .load tmp 4 i.rt (mergeLwl tmp (pendingOr r i.rt))
  | .lwr =>
      if tmp &&& 3#32 ≠ 0#32 then .stop .assertion
      else .load tmp 4 i.rt (mergeLwr tmp (pendingOr r i.rt))
  | .mfhi => assign i.rd (r hiReg)
  | .mflo => assign i.rd (r loReg)
  | .mthi => assign hiReg (r i.rs)
  | .mtlo => assign loReg (r i.rs)
  | .mult =>
      let product := mult (r i.rs) (r i.rt) true
      .complete [(hiReg, product.1), (loReg, product.2)] pcAfter
  | .multu =>
      let product := mult (r i.rs) (r i.rt) false
      .complete [(hiReg, product.1), (loReg, product.2)] pcAfter
  | .nor => assign i.rd (~~~(r i.rs ||| r i.rt))
  | .or => assign i.rd (r i.rs ||| r i.rs)
  | .ori => assign i.rt (r i.rs ||| (i.extra &&& 0xffff#32))
  | .rfe => .stop .assertion
  | .sb => .store tmp 1 (r i.rt)
  | .sh => .store tmp 2 (r i.rt)
  | .sll => assign i.rd (r i.rt <<< i.extra)
  | .sllv => assign i.rd (r i.rt <<< (r i.rs &&& 0x1f#32))
  | .slt => assign i.rd (if (r i.rs).slt (r i.rt) then 1 else 0)
  | .slti => assign i.rt (if (r i.rs).slt i.extra then 1 else 0)
  | .sltiu => assign i.rt (if (r i.rs).ult i.extra then 1 else 0)
  | .sltu => assign i.rd (if (r i.rs).ult (r i.rt) then 1 else 0)
  | .sra => assign i.rd ((r i.rt).sshiftRight i.extra.toNat)
  | .srav => assign i.rd ((r i.rt).sshiftRight (r i.rs &&& 0x1f#32).toNat)
  | .srl => assign i.rd ((r i.rt).sshiftRight i.extra.toNat)
  | .srlv => assign i.rd ((r i.rt).sshiftRight (r i.rs &&& 0x1f#32).toNat)
  | .sub =>
      let diff := r i.rs - r i.rt
      if sign (r i.rs ^^^ r i.rt) && sign (r i.rs ^^^ diff) then .raise .overflowException 0
      else assign i.rd diff
  | .subu => assign i.rd (r i.rs - r i.rt)
  | .sw => .store tmp 4 (r i.rt)
  | .swl =>
      if tmp &&& 3#32 ≠ 0#32 then .stop .assertion
      else .modify (tmp &&& ~~~3#32) (mergeSwl tmp (r i.rt))
  | .swr =>
      if tmp &&& 3#32 ≠ 0#32 then .stop .assertion
      else .modify (tmp &&& ~~~3#32) (mergeSwr tmp (r i.rt))
  | .syscall => .raise .syscallException 0
  | .xor => assign i.rd (r i.rs ^^^ r i.rt)
  | .xori => assign i.rt (r i.rs ^^^ (i.extra &&& 0xffff#32))
  | .unimp => .raise .illegalInstrException 0
  | .res => .raise .illegalInstrException 0

/-! ## The simulator -/

/-- `ReadMem` and `WriteMem` of a memory `μ`, up to the exception they raise. -/
structure MemoryOps (μ : Type) where
  readMem : μ → Word → Nat → Except Stop (Result μ Word)
  writeMem : μ → Word → Nat → Word → Except Stop (Result μ Unit)

/-- The processor and the memory it runs on. -/
structure Cpu (μ : Type) where
  registers : Registers
  memory : μ

/-- One call of `OneInstruction`: the instruction completed, or it trapped and the
exception handler is about to run. -/
inductive Turn (μ : Type) where
  | completed (cpu : Cpu μ)
  | trapped (which : ExceptionType) (cpu : Cpu μ)

section Simulator

variable {μ : Type}

/-- `RaiseException`, up to the call of the handler. -/
def raiseException (r : Registers) (memory : μ) (which : ExceptionType) (badVAddr : Word) :
    Turn μ :=
  .trapped which ⟨trapRegisters r badVAddr, memory⟩

/-- Assign registers in order. -/
def assignAll (r : Registers) (writes : List (Nat × Word)) : Registers :=
  writes.foldl (fun r w => r.set w.1 w.2) r

/-- The last lines of `OneInstruction`. -/
def complete (r : Registers) (memory : μ) (nextLoadReg : Nat) (nextLoadValue pcAfter : Word) :
    Turn μ :=
  .completed ⟨advance (delayedLoad r nextLoadReg nextLoadValue) pcAfter, memory⟩

/-- Do what an instruction asks for. -/
def perform (ops : MemoryOps μ) (r : Registers) (memory : μ) : Effect → Except Stop (Turn μ)
  | .complete writes pcAfter => return complete (assignAll r writes) memory 0 0 pcAfter
  | .load addr size rt value => do
      match ← ops.readMem memory addr size with
      | .exception which => return raiseException r memory which addr
      | .value v memory => return complete r memory rt (value v) (r nextPCReg + 4)
  | .store addr size value => do
      match ← ops.writeMem memory addr size value with
      | .exception which => return raiseException r memory which addr
      | .value () memory => return complete r memory 0 0 (r nextPCReg + 4)
  | .modify addr value => do
      match ← ops.readMem memory addr 4 with
      | .exception which => return raiseException r memory which addr
      | .value v memory =>
          match ← ops.writeMem memory addr 4 (value v) with
          | .exception which => return raiseException r memory which addr
          | .value () memory => return complete r memory 0 0 (r nextPCReg + 4)
  | .raise which badVAddr => return raiseException r memory which badVAddr
  | .stop why => .error why

/-- `Machine::OneInstruction`. -/
def oneInstruction (ops : MemoryOps μ) (cpu : Cpu μ) : Except Stop (Turn μ) := do
  let pc := cpu.registers pcReg
  match ← ops.readMem cpu.memory pc 4 with
  | .exception which => return raiseException cpu.registers cpu.memory which pc
  | .value raw memory => perform ops cpu.registers memory (execute (decode raw) cpu.registers)

end Simulator

/-- The memory of the machine, through the page table of the running process. -/
def vmOps (c : Config) : MemoryOps Vm := ⟨Vm.readMem c, Vm.writeMem c⟩

/-- `AddrSpace::InitRegisters`. -/
def initRegisters (numPages : Nat) : Registers :=
  let r : Registers := fun _ => 0
  let r := r.set pcReg 0
  let r := r.set nextPCReg 4
  r.set stackReg (BitVec.ofNat 32 (numPages * pageSize) - 16)

end Nachos.Machine
