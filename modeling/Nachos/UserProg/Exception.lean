/-
# Nachos.UserProg.Exception -- `userprog/exception.cc`: the kernel entered from a program

`ExceptionHandler` with all its branches.  It runs on behalf of one process: on the
registers of the machine, the address space of the current thread, and the kernel,
which is the shared state of paging, the table of programs, the threads and the ready
list.  While it runs, the kernel takes page faults of its own: `Exec` copies the name of
the program with `ReadMem`, and a fault there enters the handler again.

Wherever the source turns interrupts back on or waits, the thread can lose the
processor.  `stays` says what then happens: the other threads do something to the
kernel and leave their own values in the registers, or the thread is never resumed.
`Scheduler::Run` saves the registers before and restores them after.
-/
import Nachos.UserProg.System
import Nachos.Machine.Restart
import Nachos.Threads.List
import Nachos.Threads.Table

namespace Nachos.UserProg

open Nachos.Lib.Bytes
open Nachos.Lib.Run
open Nachos.Machine
open Nachos.Threads (ListElement Table sortedInsert)
open Nachos.FileSys (OpenFile)

set_option autoImplicit false

/-- What the handler uses of a `Thread`. -/
structure Thread where
  joinSignal : Nat
  mayDie : Nat
  exitStatus : Word
  space : Option AddrSpace

structure Kernel where
  core : Core
  /-- The thread objects; `none` where there is none, or none any more. -/
  threads : Nat → Option Thread
  /-- The next unused address for a thread object. -/
  nextThread : Nat
  threadlist : Table
  readyList : List (ListElement Nat)
  currentThread : Nat

/-- What the other threads do while one is off the processor. -/
structure Meanwhile where
  kernel : Kernel → Kernel
  registers : Registers

/-- What is not the handler's to decide. -/
structure Environment where
  /-- The stays off the processor, numbered as the handler comes to them. -/
  stays : Nat → Option Meanwhile
  /-- What a new `Thread` holds as its `exitStatus`. -/
  exitStatus : Word
  /-- What a new `AddrSpace` holds as its `clock_hand`. -/
  clockHand : Int

/-- The machine and the kernel as the current thread runs on them. -/
structure Process where
  registers : Registers
  kernel : Kernel
  space : AddrSpace

def Process.cpu (p : Process) : Cpu Vm := ⟨p.registers, ⟨p.kernel.core, p.space⟩⟩

/-- The process after it has computed on its own memory. -/
def Process.resume (p : Process) (cpu : Cpu Vm) : Process :=
  { registers := cpu.registers
    kernel := { p.kernel with core := cpu.memory.toCore }
    space := cpu.memory.toAddrSpace }

/-- `machine->WriteRegister(num, value)`. -/
def Process.writeRegister (p : Process) (num : Nat) (value : Word) : Process :=
  { p with registers := p.registers.set num value }

/-- `NumTotalRegs`. -/
def numTotalRegs : Nat := 40

/-- `SaveUserState`, and later `RestoreUserState` over what the others left. -/
def restoreUserState (userRegisters scratch : Registers) : Registers :=
  fun i => if i < numTotalRegs then userRegisters i else scratch i

/-- The thread is off the processor for a while. -/
def Process.stay (p : Process) : Option Meanwhile → Except Stop Process
  | none => throw .blocked
  | some m => return { p with
      registers := restoreUserState p.registers m.registers
      kernel := { m.kernel p.kernel with currentThread := p.kernel.currentThread } }

/-! ## Exceptions -/

/-- The page-fault branch of `ExceptionHandler`: `PCReg` is moved on, and moved back
once the page is there. -/
def handlePageFault (c : Config) (cpu : Cpu Vm) : Except Stop (Cpu Vm) := do
  let pcAfter := cpu.registers pcReg + 4
  let r := cpu.registers.set pcReg pcAfter
  let s ← pageFault c cpu.memory (r badVAddrReg)
  return ⟨r.set pcReg (pcAfter - 4), s⟩

/-- `Destroy`: the thread finishes. -/
def destroy {α : Type} (cpu : Cpu Vm) : Except Stop α := do
  let _ ← clearState cpu.memory.toCore cpu.memory.toAddrSpace
  throw .finished

/-- `ExceptionHandler` on anything but a system call. -/
def handleFault (c : Config) (which : ExceptionType) (cpu : Cpu Vm) : Except Stop (Cpu Vm) :=
  match which with
  | .pageFaultException => handlePageFault c cpu
  | .readOnlyException => destroy cpu
  | .busErrorException => destroy cpu
  | .addressErrorException => destroy cpu
  | .overflowException => destroy cpu
  | .illegalInstrException => destroy cpu
  | .noException => throw .assertion
  | .syscallException => throw .assertion

/-- `machine->ReadMem(addr, 1, &v)` in the kernel: `none` when it returned false, after
the handler has dealt with the exception. -/
def readByte (c : Config) (cpu : Cpu Vm) (addr : Word) :
    Except Stop (Option Word × Cpu Vm) := do
  match ← cpu.memory.readMem c addr 1 with
  | .value v s => return (some v, ⟨cpu.registers, s⟩)
  | .exception which =>
      return (none, ← handleFault c which ⟨trapRegisters cpu.registers addr, cpu.memory⟩)

/-- The condition of the loop in `Exec`: two tries, then `ASSERT(FALSE)`. -/
def readByteTwice (c : Config) (cpu : Cpu Vm) (addr : Word) : Except Stop (Word × Cpu Vm) := do
  match ← readByte c cpu addr with
  | (some v, cpu) => return (v, cpu)
  | (none, cpu) =>
      match ← readByte c cpu addr with
      | (some v, cpu) => return (v, cpu)
      | (none, _) => throw .assertion

/-- The loop in `Exec`, for the next `n` characters; `none` when no `NUL` is among them. -/
def copyName (c : Config) : Nat → Cpu Vm → Word → Except Stop (Option (List Byte) × Cpu Vm)
  | 0, cpu, _ => return (none, cpu)
  | n + 1, cpu, addr => do
      let (v, cpu) ← readByteTwice c cpu addr
      if v = 0 then return (some [], cpu)
      else
        let (rest, cpu) ← copyName c n cpu (addr + 1)
        return (rest.map (byteOf v 0 :: ·), cpu)

/-- The C string of these bytes. -/
def nameOf (bytes : List Byte) : String := String.ofList (bytes.map fun b => Char.ofNat b.toNat)

/-! ## System calls -/

inductive Syscall where
  | halt | exit | exec | join | write | other
  deriving DecidableEq, Repr

/-- The system call of code `type`, as far as the handler tells them apart. -/
def syscallOf (type : Word) : Syscall :=
  if type = 0 then .halt
  else if type = 1 then .exit
  else if type = 2 then .exec
  else if type = 3 then .join
  else if type = 7 then .write
  else .other

/-- `new Thread("Exec Spawn", 1)` with its space: `mayDie` has been taken, and nobody has
finished. -/
def Kernel.newThread (k : Kernel) (env : Environment) (space : AddrSpace) : Kernel :=
  { k with
    threads := Function.update k.threads k.nextThread (some ⟨0, 0, env.exitStatus, some space⟩)
    nextThread := k.nextThread + 1 }

/-- `scheduler->ReadyToRun` of a new thread, whose priority is 0. -/
def Kernel.readyToRun (k : Kernel) (thread : Nat) : Kernel :=
  { k with readyList := sortedInsert thread 0 k.readyList }

/-- The end of `Thread::Join`: `joinSignal` is taken, the current thread copies the
child's `exitStatus`, and the child may die. -/
def Kernel.joined (k : Kernel) (child : Nat) (thread : Thread) : Kernel :=
  let threads := Function.update k.threads k.currentThread
    ((k.threads k.currentThread).map fun t => { t with exitStatus := thread.exitStatus })
  { k with
    threads := Function.update threads child (some { thread with
      joinSignal := thread.joinSignal - 1, mayDie := thread.mayDie + 1 }) }

/-- `SC_Exec` once the name is known. -/
def execProgram (env : Environment) (p : Process) (name : String) : Except Stop Process :=
  match p.kernel.core.fileSystem.open name with
  | none => return p.writeRegister 2 0
  | some executable => do
      let p ← p.stay (env.stays 0)
      let (space, core) ← initializeSpace p.kernel.core executable env.clockHand
      let fork := p.kernel.nextThread
      let p := { p with kernel := { p.kernel with core }.newThread env space }
      let p ← p.stay (env.stays 1)
      let held ← p.kernel.threadlist.acquire p.kernel.currentThread
      let (result, threadlist) ← held.allocHeld fork
      let p ← { p with kernel := { p.kernel with threadlist } }.stay (env.stays 2)
      let p := { p with kernel := p.kernel.readyToRun fork }
      let p ← p.stay (env.stays 3)
      return p.writeRegister 2 (BitVec.ofInt 32 result)

/-- `SC_Exec`. -/
def sysExec (c : Config) (env : Environment) (p : Process) : Except Stop Process := do
  let (name, cpu) ← copyName c 1024 p.cpu (p.registers 4)
  let p := p.resume cpu
  match name with
  | none => return p.writeRegister 2 0
  | some bytes => execProgram env p (nameOf bytes)

/-- `threads[i]` through a pointer. -/
def Kernel.thread (k : Kernel) (i : Nat) : Except Stop Thread :=
  match k.threads i with
  | none => throw .dangling
  | some thread => return thread

/-- `SC_Join`: `Thread::Join` on the thread of identifier `r4`. -/
def sysJoin (env : Environment) (p : Process) : Except Stop Process := do
  match ← p.kernel.threadlist.get (p.registers 4).toInt with
  | none => throw .hostFault
  | some child =>
      ASSERT (decide (child ≠ p.kernel.currentThread))
      let _ ← p.kernel.thread child
      -- `joinSignal->P()`
      let p ← p.stay (env.stays 0)
      let thread ← p.kernel.thread child
      if thread.joinSignal = 0 then throw .blocked
      else
        let p ← { p with kernel := p.kernel.joined child thread }.stay (env.stays 1)
        return p.writeRegister 2 thread.exitStatus

/-- `ExceptionHandler(SyscallException)`. -/
def handleSyscall (c : Config) (env : Environment) (p : Process) : Except Stop Process :=
  let p := p.writeRegister pcReg (p.registers pcReg + 4)
  match syscallOf (p.registers 2) with
  | .halt => throw .halted
  | .exit => destroy p.cpu
  | .exec => sysExec c env p
  | .join => sysJoin env p
  | .write => destroy p.cpu
  | .other => throw .assertion

/-- `ExceptionHandler`. -/
def exceptionHandler (c : Config) (env : Environment) (which : ExceptionType) (p : Process) :
    Except Stop Process :=
  match which with
  | .syscallException => handleSyscall c env p
  | which => do return p.resume (← handleFault c which p.cpu)

/-- One turn of `Machine::Run`: an instruction, the handler if it raises an exception,
and the tick, at which the thread can lose the processor. -/
def runTurn (c : Config) (env : Environment) (p : Process) : Except Stop Process := do
  match ← oneInstruction (vmOps c) p.cpu with
  | .completed cpu => (p.resume cpu).stay (env.stays 4)
  | .trapped which cpu => do (← exceptionHandler c env which (p.resume cpu)).stay (env.stays 4)

/-! ## The program counters -/

/-- The program counters in the handler; the trap has finished the delayed load. -/
structure Calm (pc next : Word) (r : Registers) : Prop where
  pc : r pcReg = pc
  next : r nextPCReg = next
  load : r loadReg = 0

section Counters

variable {c : Config} {env : Environment} {pc next : Word} {r : Registers}

theorem calm_trap (target : (r loadReg).toNat < numGPRegs) (a : Word) :
    Calm (r pcReg) (r nextPCReg) (trapRegisters r a) := by
  have same : Same r (r.set badVAddrReg a) := same_badVAddr r a
  have other : ∀ n, numGPRegs ≤ n → n ≠ ((r.set badVAddrReg a) loadReg).toNat := by
    intro n high
    rw [same loadReg (by decide)]
    omega
  refine ⟨?_, ?_, ?_⟩ <;>
    rw [trapRegisters, delayedLoad_apply, if_neg (by decide), if_neg (by decide)]
  · rw [if_neg (by decide), if_neg (other pcReg (by decide))]
    exact same pcReg (by decide)
  · rw [if_neg (by decide), if_neg (other nextPCReg (by decide))]
    exact same nextPCReg (by decide)
  · rfl

theorem Calm.target (calm : Calm pc next r) : (r loadReg).toNat < numGPRegs := by
  rw [calm.load]
  decide

theorem Calm.trap (calm : Calm pc next r) (a : Word) : Calm pc next (trapRegisters r a) := by
  have := calm_trap calm.target a
  rwa [calm.pc, calm.next] at this

theorem Calm.set (calm : Calm pc next r) {n : Nat} (low : n < numGPRegs) (value : Word) :
    Calm pc next (r.set n value) := by
  have other : ∀ m, numGPRegs ≤ m → r.set n value m = r m := by
    intro m high
    exact Function.update_of_ne (by omega) _ _
  refine ⟨?_, ?_, ?_⟩
  · rw [other pcReg (by decide)]
    exact calm.pc
  · rw [other nextPCReg (by decide)]
    exact calm.next
  · rw [other loadReg (by decide)]
    exact calm.load

theorem Calm.setPc (calm : Calm pc next r) (value : Word) : Calm value next (r.set pcReg value) :=
  ⟨Function.update_self _ _ _, (Function.update_of_ne (by decide) _ _).trans calm.next,
    (Function.update_of_ne (by decide) _ _).trans calm.load⟩

/-- A page fault in the kernel puts the program counter back where it was. -/
theorem handlePageFault_calm {cpu cpu' : Cpu Vm} (handled : handlePageFault c cpu = .ok cpu')
    (calm : Calm pc next cpu.registers) : Calm pc next cpu'.registers := by
  obtain ⟨s, -, rest⟩ := bind_eq_ok.mp handled
  cases rest
  have back := (calm.setPc (pc + 4)).setPc (pc + 4 - 4)
  rw [BitVec.add_sub_cancel] at back
  show Calm pc next ((cpu.registers.set pcReg (cpu.registers pcReg + 4)).set pcReg
    (cpu.registers pcReg + 4 - 4))
  rw [calm.pc, BitVec.add_sub_cancel]
  exact back

theorem handleFault_calm {which : ExceptionType} {cpu cpu' : Cpu Vm}
    (handled : handleFault c which cpu = .ok cpu') (calm : Calm pc next cpu.registers) :
    Calm pc next cpu'.registers := by
  have gone : ∀ {cpu' : Cpu Vm}, destroy cpu ≠ .ok cpu' := by
    intro cpu' bad
    obtain ⟨core, -, rest⟩ := bind_eq_ok.mp bad
    cases rest
  cases which with
  | pageFaultException => exact handlePageFault_calm handled calm
  | noException => cases handled
  | syscallException => cases handled
  | readOnlyException => exact absurd handled gone
  | busErrorException => exact absurd handled gone
  | addressErrorException => exact absurd handled gone
  | overflowException => exact absurd handled gone
  | illegalInstrException => exact absurd handled gone

theorem readByte_calm {cpu cpu' : Cpu Vm} {a : Word} {v : Option Word}
    (read : readByte c cpu a = .ok (v, cpu')) (calm : Calm pc next cpu.registers) :
    Calm pc next cpu'.registers := by
  obtain ⟨result, -, rest⟩ := bind_eq_ok.mp read
  cases result with
  | value v s =>
      cases rest
      exact calm
  | exception which =>
      obtain ⟨cpu₁, handled, last⟩ := bind_eq_ok.mp rest
      cases last
      exact handleFault_calm handled (calm.trap a)

theorem readByteTwice_calm {cpu cpu' : Cpu Vm} {a v : Word}
    (read : readByteTwice c cpu a = .ok (v, cpu')) (calm : Calm pc next cpu.registers) :
    Calm pc next cpu'.registers := by
  obtain ⟨⟨v₁, cpu₁⟩, first, rest⟩ := bind_eq_ok.mp read
  have calm₁ := readByte_calm first calm
  cases v₁ with
  | some v =>
      cases rest
      exact calm₁
  | none =>
      obtain ⟨⟨v₂, cpu₂⟩, second, last⟩ := bind_eq_ok.mp rest
      cases v₂ with
      | some v =>
          cases last
          exact readByte_calm second calm₁
      | none => cases last

/-- However many faults copying the name takes. -/
theorem copyName_calm {n : Nat} {cpu cpu' : Cpu Vm} {a : Word} {name : Option (List Byte)}
    (copied : copyName c n cpu a = .ok (name, cpu')) (calm : Calm pc next cpu.registers) :
    Calm pc next cpu'.registers := by
  induction n generalizing cpu a name with
  | zero =>
      cases copied
      exact calm
  | succ n ih =>
      obtain ⟨⟨v, cpu₁⟩, read, rest⟩ := bind_eq_ok.mp copied
      have calm₁ := readByteTwice_calm read calm
      simp only [] at rest
      split at rest
      · cases rest
        exact calm₁
      · obtain ⟨⟨more, cpu₂⟩, copied', last⟩ := bind_eq_ok.mp rest
        cases last
        exact ih copied' calm₁

/-- A context switch is not seen. -/
theorem stay_calm {p p' : Process} {m : Option Meanwhile} (stayed : p.stay m = .ok p')
    (calm : Calm pc next p.registers) : Calm pc next p'.registers := by
  cases m with
  | none => cases stayed
  | some m =>
      cases stayed
      exact ⟨calm.pc, calm.next, calm.load⟩

theorem execProgram_calm {p p' : Process} {name : String}
    (ran : execProgram env p name = .ok p') (calm : Calm pc next p.registers) :
    Calm pc next p'.registers := by
  unfold execProgram at ran
  split at ran
  · cases ran
    exact calm.set (by decide) 0
  · obtain ⟨p₁, stay₁, ran⟩ := bind_eq_ok.mp ran
    obtain ⟨⟨space, core⟩, -, ran⟩ := bind_eq_ok.mp ran
    obtain ⟨p₂, stay₂, ran⟩ := bind_eq_ok.mp ran
    obtain ⟨held, -, ran⟩ := bind_eq_ok.mp ran
    obtain ⟨⟨result, threadlist⟩, -, ran⟩ := bind_eq_ok.mp ran
    obtain ⟨p₃, stay₃, ran⟩ := bind_eq_ok.mp ran
    obtain ⟨p₄, stay₄, ran⟩ := bind_eq_ok.mp ran
    cases ran
    have calm₁ := stay_calm stay₁ calm
    have calm₂ := stay_calm stay₂ calm₁
    have calm₃ := stay_calm stay₃ calm₂
    have calm₄ := stay_calm stay₄ calm₃
    exact calm₄.set (by decide) _

theorem sysExec_calm {p p' : Process} (ran : sysExec c env p = .ok p')
    (calm : Calm pc next p.registers) : Calm pc next p'.registers := by
  obtain ⟨⟨name, cpu⟩, copied, rest⟩ := bind_eq_ok.mp ran
  have calm₁ : Calm pc next cpu.registers := copyName_calm copied calm
  cases name with
  | none =>
      cases rest
      exact calm₁.set (by decide) 0
  | some bytes => exact execProgram_calm rest calm₁

theorem sysJoin_calm {p p' : Process} (ran : sysJoin env p = .ok p')
    (calm : Calm pc next p.registers) : Calm pc next p'.registers := by
  obtain ⟨child, -, ran⟩ := bind_eq_ok.mp ran
  cases child with
  | none => cases ran
  | some child =>
      obtain ⟨u, -, ran⟩ := bind_eq_ok.mp ran
      obtain ⟨t, -, ran⟩ := bind_eq_ok.mp ran
      obtain ⟨p₁, stay₁, ran⟩ := bind_eq_ok.mp ran
      obtain ⟨thread, -, ran⟩ := bind_eq_ok.mp ran
      have calm₁ := stay_calm stay₁ calm
      split at ran
      · cases ran
      · obtain ⟨p₂, stay₂, ran⟩ := bind_eq_ok.mp ran
        cases ran
        exact (stay_calm stay₂ calm₁).set (by decide) _

/-- **A system call that returns** has moved `PCReg` on and left `NextPCReg` alone. -/
theorem handleSyscall_calm {p p' : Process} (ran : handleSyscall c env p = .ok p')
    (calm : Calm pc next p.registers) : Calm (pc + 4) next p'.registers := by
  have gone : ∀ {cpu : Cpu Vm} {p' : Process}, destroy cpu ≠ .ok p' := by
    intro cpu p' bad
    obtain ⟨core, -, rest⟩ := bind_eq_ok.mp bad
    cases rest
  have calm' : Calm (pc + 4) next (p.writeRegister pcReg (p.registers pcReg + 4)).registers := by
    rw [calm.pc]
    exact calm.setPc (pc + 4)
  unfold handleSyscall at ran
  simp only [] at ran
  split at ran
  · cases ran
  · exact absurd ran gone
  · exact sysExec_calm ran calm'
  · exact sysJoin_calm ran calm'
  · exact absurd ran gone
  · cases ran

end Counters

/-! ## Runs of a program -/

/-- A turn of `Machine::Run` as a step; `none` when control does not come back. -/
def userStep (c : Config) (p : Process) (env : Environment) : Option Process :=
  (runTurn c env p).toOption

section Runs

variable {c : Config} {env : Environment} {p p' : Process}

theorem toOption_eq_some {α : Type} {x : Except Stop α} {a : α} (some_ : x.toOption = some a) :
    x = .ok a := by
  cases x with
  | error e => cases some_
  | ok b =>
      cases some_
      rfl

theorem stay_target {m : Option Meanwhile} (stayed : p.stay m = .ok p')
    (target : (p.registers loadReg).toNat < numGPRegs) :
    (p'.registers loadReg).toNat < numGPRegs := by
  cases m with
  | none => cases stayed
  | some m =>
      cases stayed
      exact target

/-- The pending load of a running program is into a general register. -/
theorem runTurn_target (target : (p.registers loadReg).toNat < numGPRegs)
    (ran : runTurn c env p = .ok p') : (p'.registers loadReg).toNat < numGPRegs := by
  obtain ⟨turn, stepped, rest⟩ := bind_eq_ok.mp ran
  rcases oneInstruction_registers stepped with ⟨r, s, rfl, completes⟩ | ⟨which, a, s, rfl⟩
  · exact stay_target rest completes.sane.target
  · obtain ⟨p₁, handled, stayed⟩ := bind_eq_ok.mp rest
    refine stay_target stayed ?_
    have calm := calm_trap target a
    cases which with
    | syscallException => exact (handleSyscall_calm handled calm).target
    | _ =>
        obtain ⟨cpu, fault, last⟩ := bind_eq_ok.mp handled
        cases last
        exact (handleFault_calm fault calm).target

/-- **A system call breaks the flow of control.**  In every run of every program, a
`SYSCALL` outside a branch delay slot that returns leaves both program counters at the
instruction after it.  So that instruction, when it completes, is up again: it is
executed twice. -/
theorem syscall_repeats {start : Process} {envs : List Environment} {cpu : Cpu Vm}
    (fresh : start.registers = initRegisters start.space.numPages)
    (ran : exec (userStep c) start envs = some p)
    (raised : oneInstruction (vmOps c) p.cpu = .ok (.trapped .syscallException cpu))
    (outside : p.registers nextPCReg = p.registers pcReg + 4)
    (returned : runTurn c env p = .ok p') :
    p'.registers pcReg = p.registers pcReg + 4 ∧
      p'.registers nextPCReg = p.registers pcReg + 4 ∧
      p'.registers nextPCReg ≠ p.registers pcReg + 8 ∧
      ∀ cpu', oneInstruction (vmOps c) p'.cpu = .ok (.completed cpu') →
        cpu'.registers pcReg = p.registers pcReg + 4 := by
  have target : (p.registers loadReg).toNat < numGPRegs := by
    refine exec_invariant' (I := fun q => (q.registers loadReg).toNat < numGPRegs) ?_ ?_ ran
    · intro q env q' low stepped
      exact runTurn_target low (toOption_eq_some stepped)
    · show (start.registers loadReg).toNat < _
      rw [fresh]
      exact (initRegisters_sane _).target
  obtain ⟨turn, stepped, rest⟩ := bind_eq_ok.mp returned
  rw [raised] at stepped
  cases stepped
  obtain ⟨p₁, handled, stayed⟩ := bind_eq_ok.mp rest
  have calm : Calm (p.registers pcReg) (p.registers pcReg + 4) cpu.registers := by
    rcases oneInstruction_registers raised with ⟨r, s, bad, -⟩ | ⟨which, a, s, same⟩
    · cases bad
    · cases same
      have := calm_trap target a
      rwa [outside] at this
  have after := stay_calm stayed (handleSyscall_calm handled calm)
  refine ⟨after.pc, after.next, ?_, fun cpu' completed => ?_⟩
  · rw [after.next]
    intro same
    simp at same
  · rcases oneInstruction_registers completed with ⟨r, s, same, completes⟩ | ⟨which, a, s, bad⟩
    · cases same
      exact (completes.pc after.target).trans after.next
    · cases bad

end Runs

/-- `addiu r2, r0, 2` (`SC_Exec`), `syscall`, `addiu r9, r9, 1`. -/
def callerCode : List Byte :=
  [2, 0, 2, 0x24, 0x0c, 0, 0, 0, 1, 0, 0x29, 0x25] ++ List.replicate 116 0

/-- That program on a machine of four frames, about to start. -/
def callerStart : Process where
  registers := initRegisters 9
  kernel :=
    { core := { sampleStarted 4 with fileSystem :=
        { sampleFiles.create "bs1152" with data := fun _ => sampleFile.take 40 ++ callerCode } }
      threads := fun _ => none
      nextThread := 1
      threadlist := ⟨fun _ => none, 1023, 0, none⟩
      readyList := []
      currentThread := 0 }
  space := sampleSpace

/-- Nothing else happens. -/
def quiet : Environment := ⟨fun _ => some ⟨id, fun _ => 0⟩, 0, 0⟩

def raisesSyscall (p : Process) : Bool :=
  match oneInstruction (vmOps fourFrames) p.cpu with
  | .ok (.trapped .syscallException _) => true
  | _ => false

theorem caller_before :
    (exec (userStep fourFrames) callerStart [quiet, quiet]).map
      (fun p => (p.registers pcReg, p.registers nextPCReg, raisesSyscall p)) =
        some (4, 8, true) := by
  decide +kernel

theorem caller_after :
    (exec (userStep fourFrames) callerStart [quiet, quiet, quiet]).map
      (fun p => (p.registers pcReg, p.registers nextPCReg)) = some (8, 8) := by
  decide +kernel

theorem caller_counts :
    (exec (userStep fourFrames) callerStart [quiet, quiet, quiet, quiet, quiet]).map
      (fun p => p.registers 9) = some 2 := by
  decide +kernel

theorem raisesSyscall_eq {p : Process} (raises : raisesSyscall p = true) :
    ∃ cpu, oneInstruction (vmOps fourFrames) p.cpu = .ok (.trapped .syscallException cpu) := by
  unfold raisesSyscall at raises
  split at raises
  · exact ⟨_, by assumption⟩
  · cases raises

/-- The state before the call, and the state it leaves. -/
theorem caller_returns : ∃ p p' cpu,
    exec (userStep fourFrames) callerStart [quiet, quiet] = some p ∧
      oneInstruction (vmOps fourFrames) p.cpu = .ok (.trapped .syscallException cpu) ∧
      p.registers pcReg = 4 ∧ p.registers nextPCReg = 8 ∧
      runTurn fourFrames quiet p = .ok p' ∧
      p'.registers pcReg = 8 ∧ p'.registers nextPCReg = 8 := by
  obtain ⟨p, ran, before⟩ := Option.map_eq_some_iff.mp caller_before
  obtain ⟨pc, before⟩ := Prod.mk.inj before
  obtain ⟨next, raises⟩ := Prod.mk.inj before
  obtain ⟨cpu, raised⟩ := raisesSyscall_eq raises
  obtain ⟨p', ran', after⟩ := Option.map_eq_some_iff.mp caller_after
  obtain ⟨pc', next'⟩ := Prod.mk.inj after
  have split : exec (userStep fourFrames) callerStart ([quiet, quiet] ++ [quiet]) = some p' := ran'
  obtain ⟨q, reached, last⟩ := exec_append_eq_some.mp split
  have same : q = p := Option.some.inj (reached.symm.trans ran)
  subst same
  obtain ⟨q', moved, done⟩ := exec_cons_eq_some.mp last
  cases done
  exact ⟨q, p', cpu, ran, raised, pc, next, toOption_eq_some moved, pc', next'⟩

/-- The call at address 4 returns with `NextPCReg` at 8, not 12, and the one
`addiu r9, r9, 1` after it has been executed twice two turns later. -/
theorem instruction_runs_twice :
    (∃ p p' cpu, exec (userStep fourFrames) callerStart [quiet, quiet] = some p ∧
      oneInstruction (vmOps fourFrames) p.cpu = .ok (.trapped .syscallException cpu) ∧
      p.registers nextPCReg = p.registers pcReg + 4 ∧ runTurn fourFrames quiet p = .ok p' ∧
      ¬ (p'.registers pcReg = p.registers pcReg + 4 ∧
        p'.registers nextPCReg = p.registers pcReg + 8)) ∧
    (exec (userStep fourFrames) callerStart [quiet, quiet, quiet, quiet, quiet]).map
      (fun p => p.registers 9) = some 2 := by
  refine ⟨?_, caller_counts⟩
  obtain ⟨p, p', cpu, ran, raised, pc, next, returned, -, next'⟩ := caller_returns
  refine ⟨p, p', cpu, ran, raised, ?_, returned, ?_⟩
  · rw [pc, next]
    rfl
  · rintro ⟨-, good⟩
    rw [next', pc] at good
    cases good

theorem syscall_repeats_caller : ∃ p p', runTurn fourFrames quiet p = .ok p' ∧
    p'.registers pcReg = p.registers pcReg + 4 ∧
    p'.registers nextPCReg = p.registers pcReg + 4 ∧
    p'.registers nextPCReg ≠ p.registers pcReg + 8 ∧
    ∀ cpu', oneInstruction (vmOps fourFrames) p'.cpu = .ok (.completed cpu') →
      cpu'.registers pcReg = p.registers pcReg + 4 := by
  obtain ⟨p, p', cpu, ran, raised, pc, next, returned, -, -⟩ := caller_returns
  refine ⟨p, p', returned, syscall_repeats rfl ran raised ?_ returned⟩
  rw [pc, next]
  rfl

end Nachos.UserProg
