/-
# Nachos.Machine.Exceptions -- what `ExceptionHandler` finds when an instruction faults

`oneInstruction` stops at the call of the handler.  In the source the handler is called
from inside `RaiseException`, which may itself be inside `ReadMem` or `WriteMem`; it
returns, the routine says `FALSE`, and `OneInstruction` is expected to leave at once.
`oneInstructionWith` follows these calls and returns for an arbitrary handler and keeps
the list of calls; `oneInstructionWith_eq` says that it calls the handler where
`oneInstruction` stops, and nowhere else.

`Restartable cpu entered` is what makes it safe to take the instruction again: in
`entered` the pending load of `cpu` is done, and nothing else of the memory or of the
registers of the program has changed.
-/
import Nachos.Machine.Restart

namespace Nachos.Machine

open Nachos.Lib.Bytes

set_option autoImplicit false

/-! ## Raising inside the simulator -/

section Calls

variable {μ : Type}

/-- `ExceptionHandler`, on the machine it finds. -/
abbrev Handler (μ : Type) := ExceptionType → Cpu μ → Except Stop (Cpu μ)

/-- The calls of the handler so far, each with the machine it was entered on. -/
abbrev Calls (μ : Type) := List (ExceptionType × Cpu μ)

/-- A routine of the simulator that may call the handler on its way. -/
abbrev Calling (μ α : Type) := StateT (Calls μ) (Except Stop) α

section Routines

variable (handler : Handler μ) (ops : MemoryOps μ)

/-- `RaiseException`. -/
def raiseWith (which : ExceptionType) (badVAddr : Word) (cpu : Cpu μ) : Calling μ (Cpu μ) := do
  let entered : Cpu μ := ⟨trapRegisters cpu.registers badVAddr, cpu.memory⟩
  modify (· ++ [(which, entered)])
  handler which entered

/-- `ReadMem`; nothing is read where the source returns `FALSE`. -/
def readMemWith (cpu : Cpu μ) (addr : Word) (size : Nat) : Calling μ (Option Word × Cpu μ) := do
  match ← ops.readMem cpu.memory addr size with
  | .exception which => return (none, ← raiseWith handler which addr cpu)
  | .value v memory => return (some v, ⟨cpu.registers, memory⟩)

/-- `WriteMem`. -/
def writeMemWith (cpu : Cpu μ) (addr : Word) (size : Nat) (value : Word) :
    Calling μ (Option Unit × Cpu μ) := do
  match ← ops.writeMem cpu.memory addr size value with
  | .exception which => return (none, ← raiseWith handler which addr cpu)
  | .value () memory => return (some (), ⟨cpu.registers, memory⟩)

/-- The last lines of `OneInstruction`. -/
def completeWith (cpu : Cpu μ) (nextLoadReg : Nat) (nextLoadValue pcAfter : Word) :
    Calling μ (Cpu μ) :=
  return ⟨advance (delayedLoad cpu.registers nextLoadReg nextLoadValue) pcAfter, cpu.memory⟩

/-- The `switch`, with its returns. -/
def performWith (cpu : Cpu μ) : Effect → Calling μ (Cpu μ)
  | .complete writes pcAfter =>
      completeWith ⟨assignAll cpu.registers writes, cpu.memory⟩ 0 0 pcAfter
  | .load addr size rt value => do
      match ← readMemWith handler ops cpu addr size with
      | (none, cpu) => return cpu
      | (some v, cpu) => completeWith cpu rt (value v) (cpu.registers nextPCReg + 4)
  | .store addr size value => do
      match ← writeMemWith handler ops cpu addr size value with
      | (none, cpu) => return cpu
      | (some (), cpu) => completeWith cpu 0 0 (cpu.registers nextPCReg + 4)
  | .modify addr value => do
      match ← readMemWith handler ops cpu addr 4 with
      | (none, cpu) => return cpu
      | (some v, cpu) =>
          match ← writeMemWith handler ops cpu addr 4 (value v) with
          | (none, cpu) => return cpu
          | (some (), cpu) => completeWith cpu 0 0 (cpu.registers nextPCReg + 4)
  | .raise which badVAddr => raiseWith handler which badVAddr cpu
  | .stop why => throw why

/-- `OneInstruction`, with the calls of the handler. -/
def oneInstructionWith (cpu : Cpu μ) : Calling μ (Cpu μ) := do
  match ← readMemWith handler ops cpu (cpu.registers pcReg) 4 with
  | (none, cpu) => return cpu
  | (some raw, cpu) => performWith handler ops cpu (execute (decode raw) cpu.registers)

end Routines

/-- How a turn ends once the handler has run. -/
def Turn.handled (handler : Handler μ) (calls : Calls μ) : Turn μ → Except Stop (Cpu μ × Calls μ)
  | .completed cpu => .ok (cpu, calls)
  | .trapped which entered => do
      return (← handler which entered, calls ++ [(which, entered)])

variable {handler : Handler μ} {ops : MemoryOps μ} {calls : Calls μ}

@[simp] theorem raiseWith_run (which : ExceptionType) (badVAddr : Word) (cpu : Cpu μ) :
    (raiseWith handler which badVAddr cpu).run calls =
      (raiseException cpu.registers cpu.memory which badVAddr).handled handler calls := by
  unfold raiseWith raiseException Turn.handled
  simp

/-- An instruction does the same, and goes on to call the handler where it trapped. -/
theorem performWith_run (r : Registers) (m : μ) (e : Effect) :
    (performWith handler ops ⟨r, m⟩ e).run calls =
      perform ops r m e >>= Turn.handled handler calls := by
  have trap : ∀ (which : ExceptionType) (a : Word) (m' : μ),
      (raiseException r m' which a).handled handler calls =
        handler which ⟨trapRegisters r a, m'⟩ >>= fun cpu =>
          .ok (cpu, calls ++ [(which, ⟨trapRegisters r a, m'⟩)]) := fun _ _ _ => rfl
  cases e with
  | complete writes pcAfter => rfl
  | load addr size rt value =>
      cases read : ops.readMem m addr size with
      | error why => simp [performWith, perform, readMemWith, read]
      | ok result =>
          cases result with
          | exception which => simp [performWith, perform, readMemWith, read, trap]
          | value v m' =>
              simp [performWith, perform, readMemWith, read, completeWith, complete, Turn.handled]
  | store addr size value =>
      cases wrote : ops.writeMem m addr size value with
      | error why => simp [performWith, perform, writeMemWith, wrote]
      | ok result =>
          cases result with
          | exception which => simp [performWith, perform, writeMemWith, wrote, trap]
          | value v m' =>
              simp [performWith, perform, writeMemWith, wrote, completeWith, complete, Turn.handled]
  | modify addr value =>
      cases read : ops.readMem m addr 4 with
      | error why => simp [performWith, perform, readMemWith, read]
      | ok result =>
          cases result with
          | exception which => simp [performWith, perform, readMemWith, read, trap]
          | value v m' =>
              cases wrote : ops.writeMem m' addr 4 (value v) with
              | error why => simp [performWith, perform, readMemWith, writeMemWith, read, wrote]
              | ok result' =>
                  cases result' with
                  | exception which =>
                      simp [performWith, perform, readMemWith, writeMemWith, read, wrote, trap]
                  | value v' m'' =>
                      simp [performWith, perform, readMemWith, writeMemWith, read, wrote,
                        completeWith, complete, Turn.handled]
  | raise which badVAddr => exact raiseWith_run which badVAddr ⟨r, m⟩
  | stop why => rfl

/-- **The handler is called where `oneInstruction` stops, and nowhere else.** -/
theorem oneInstructionWith_eq (cpu : Cpu μ) :
    (oneInstructionWith handler ops cpu).run calls =
      oneInstruction ops cpu >>= Turn.handled handler calls := by
  obtain ⟨r, m⟩ := cpu
  cases fetched : ops.readMem m (r pcReg) 4 with
  | error why => simp [oneInstructionWith, oneInstruction, readMemWith, fetched]
  | ok result =>
      cases result with
      | exception which =>
          simp [oneInstructionWith, oneInstruction, readMemWith, fetched, raiseException,
            Turn.handled]
      | value raw m' =>
          simp [oneInstructionWith, oneInstruction, readMemWith, fetched, performWith_run]

end Calls

/-! ## What the handler finds -/

/-- `entered` is `cpu` before the instruction, with the pending load done and register 0
zero: nothing else of the registers up to the program counters, or of the memory,
has changed. -/
structure Restartable (cpu entered : Cpu Vm) : Prop where
  memory : entered.memory.mainMemory = cpu.memory.mainMemory
  registers : ∀ n ≤ prevPCReg, entered.registers n =
    if n = 0 then 0
    else if n = (cpu.registers loadReg).toNat then cpu.registers loadValueReg
    else cpu.registers n

namespace Vm

variable {c : Config} {s s' : Vm}

theorem translate_mainMemory {addr : Word} {size pa : Nat} {w : Bool}
    (done : s.translate c addr size w = .ok (.value pa s')) : s'.mainMemory = s.mainMemory := by
  unfold translate at done
  dsimp only at done
  split at done
  · cases done
  split at done
  · cases done
  split at done
  · cases done
  split at done
  · cases done
  split at done
  · cases done
  · obtain ⟨_, -, rest⟩ := bind_eq_ok.mp done
    cases rest
    rfl

theorem readMem_mainMemory {addr : Word} {size : Nat} {v : Word}
    (done : s.readMem c addr size = .ok (.value v s')) : s'.mainMemory = s.mainMemory := by
  obtain ⟨result, translated, rest⟩ := bind_eq_ok.mp done
  cases result with
  | exception which => cases rest
  | value pa s₁ =>
      obtain ⟨_, -, rest⟩ := bind_eq_ok.mp rest
      cases rest
      exact translate_mainMemory translated

end Vm

section Restart

variable {c : Config} {cpu cpu' : Cpu Vm} {which : ExceptionType}

/-- Registers as `RaiseException` hands them over. -/
theorem trapRegisters_apply (r : Registers) (badVAddr : Word) {n : Nat} (low : n ≤ prevPCReg) :
    trapRegisters r badVAddr n =
      if n = 0 then 0 else if n = (r loadReg).toNat then r loadValueReg else r n := by
  simp only [prevPCReg] at low
  have other : ∀ m, m ≠ badVAddrReg → (r.set badVAddrReg badVAddr) m = r m :=
    fun m ne => Function.update_of_ne ne _ _
  rw [trapRegisters, delayedLoad_apply, other loadReg (by decide), other loadValueReg (by decide),
    other n (by simp only [badVAddrReg]; omega)]
  rw [if_neg (show n ≠ loadValueReg by simp only [loadValueReg]; omega),
    if_neg (show n ≠ loadReg by simp only [loadReg]; omega)]

theorem restartable_trap (r : Registers) {m m' : Vm} (same : m'.mainMemory = m.mainMemory)
    (badVAddr : Word) : Restartable ⟨r, m⟩ ⟨trapRegisters r badVAddr, m'⟩ :=
  ⟨same, fun _ low => trapRegisters_apply r badVAddr low⟩

/-- An instruction that has only read does not change the memory before it traps. -/
theorem perform_restartable {r : Registers} {m : Vm} {e : Effect}
    (done : perform (vmOps c) r m e = .ok (.trapped which cpu')) : Restartable ⟨r, m⟩ cpu' := by
  cases e with
  | complete writes pcAfter => cases done
  | load addr size rt value =>
      obtain ⟨result, -, rest⟩ := bind_eq_ok.mp done
      cases result with
      | exception which =>
          cases rest
          exact restartable_trap r rfl addr
      | value v m' => cases rest
  | store addr size value =>
      obtain ⟨result, -, rest⟩ := bind_eq_ok.mp done
      cases result with
      | exception which =>
          cases rest
          exact restartable_trap r rfl addr
      | value v m' => cases rest
  | modify addr value =>
      obtain ⟨result, read, rest⟩ := bind_eq_ok.mp done
      cases result with
      | exception which =>
          cases rest
          exact restartable_trap r rfl addr
      | value v m' =>
          obtain ⟨result', -, rest⟩ := bind_eq_ok.mp rest
          cases result' with
          | exception which =>
              cases rest
              exact restartable_trap r (Vm.readMem_mainMemory read) addr
          | value v m'' => cases rest
  | raise which badVAddr =>
      cases done
      exact restartable_trap r rfl badVAddr
  | stop why => cases done

theorem oneInstruction_restartable
    (done : oneInstruction (vmOps c) cpu = .ok (.trapped which cpu')) : Restartable cpu cpu' := by
  obtain ⟨r, m⟩ := cpu
  obtain ⟨result, fetched, rest⟩ := bind_eq_ok.mp done
  cases result with
  | exception which =>
      cases rest
      exact restartable_trap r rfl _
  | value raw m' =>
      have inner := perform_restartable rest
      exact ⟨inner.memory.trans (Vm.readMem_mainMemory fetched), inner.registers⟩

/-- **Instruction restartability.**  Where an instruction traps, the handler finds the
machine restartable; and a call of `OneInstruction`, whatever its handler does, has
called it at most once, on such a machine. -/
theorem instruction_restartable (c : Config) (handler : Handler Vm) (cpu : Cpu Vm) :
    (∀ which entered, oneInstruction (vmOps c) cpu = .ok (.trapped which entered) →
      Restartable cpu entered) ∧
    ∀ cpu' calls, (oneInstructionWith handler (vmOps c) cpu).run [] = .ok (cpu', calls) →
      calls.length ≤ 1 ∧ ∀ call ∈ calls, Restartable cpu call.2 := by
  refine ⟨fun which entered done => oneInstruction_restartable done, ?_⟩
  intro cpu' calls done
  rw [oneInstructionWith_eq] at done
  obtain ⟨turn, ran, rest⟩ := bind_eq_ok.mp done
  cases turn with
  | completed cpu'' =>
      cases rest
      exact ⟨Nat.zero_le _, by simp⟩
  | trapped which entered =>
      obtain ⟨after, -, rest⟩ := bind_eq_ok.mp rest
      cases rest
      refine ⟨Nat.le_refl _, ?_⟩
      intro call member
      cases List.mem_singleton.mp member
      exact oneInstruction_restartable ran

end Restart

/-! ## A machine of one page -/

theorem one_frame_int : 1 * pageSize < 2 ^ 31 := by decide

def oneFrame : Config := ⟨1, false, Nat.one_pos, one_frame_int⟩

/-- One page, resident in the only frame, with these words from address 0 on. -/
def holding (words : List Word) : Vm where
  mainMemory := fun i => byteOf (words.getD (i / 4) 0) (i % 4)
  memmanage := ⟨1, ⟨1, fun _ => 1#32⟩⟩
  fileSystem := ⟨fun _ => none, fun _ => [], 0⟩
  stats := ⟨0, 0, 0⟩
  pageTable := fun _ => ⟨0, 0, true, false, false, false⟩
  numPages := 1
  clockHand := 0
  backing := ⟨⟨0⟩, "bs"⟩
  storedExecutable := ⟨0⟩

/-- About to execute `word`, with `r1` and `r2` given. -/
def running (x y word : Word) : Cpu Vm := ⟨((initRegisters 1).set 1 x).set 2 y, holding [word]⟩

end Nachos.Machine
