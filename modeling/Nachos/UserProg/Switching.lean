/-
# Nachos.UserProg.Switching -- one register file for all programs

The machine has one set of registers and one page table, and every thread that runs a program
uses them.  `Scheduler::Run` saves the registers of the thread it leaves, if that has an address
space, and on the other side of `SWITCH` restores those of the thread it comes to.  A thread
that runs for the first time comes out of `SWITCH` in `ThreadRoot` and not in `Run`; nothing is
restored for it, and it may be switched out again, and have somebody else's registers saved as
its own, before `NewProcess` sets them.

A thread is in the loop of `Machine::Run`, before an instruction or in `OneTick`; or in
`ExceptionHandler`; or in the kernel, outside of any program.  An interrupt finishes the pending
load before its handler runs, in the registers of whatever thread is current.  Which thread runs
next, when interrupts come and what the kernel does to memory is left open.  The files are UNIX
files: neither a page fault nor the deletion of a thread gives up the processor.

`history` keeps what the registers were when a thread was last switched out, and is no part of
the code.
-/
import Nachos.UserProg.Exception

namespace Nachos.UserProg.Switching

open Nachos.Lib.Bytes
open Nachos.Lib.Run
open Nachos.Machine

set_option autoImplicit false

/-! ## Threads -/

/-- What `InitRegisters` and `RestoreState` use of an `AddrSpace`. -/
structure Space where
  /-- The address of the page table. -/
  pageTable : Nat
  numPages : Nat

inductive Place where
  /-- Forked: `SWITCH` goes to `ThreadRoot`. -/
  | ready
  /-- In the kernel and in no program: in `ThreadRoot`, or in the function it was forked with. -/
  | kernel
  /-- In `Machine::Run`, before `OneInstruction`. -/
  | user
  /-- In `Machine::Run`, in `OneTick`. -/
  | ticking (yieldOnReturn : Bool)
  /-- In `ExceptionHandler`, which `ReadMem` in the kernel may have entered again. -/
  | system (which : ExceptionType) (depth : Nat)
  | finished
  deriving DecidableEq, Repr

/-- What happened to the registers of a thread since it last executed an instruction. -/
inductive History where
  /-- It has executed one, or was never in a program. -/
  | ran
  /-- `InitRegisters`. -/
  | started
  /-- It was switched out, last with these registers; since then its system call has written
  some of them. -/
  | out (registers : Registers) (written : List Nat)

/-- The system call of the thread writes a register. -/
def History.write (num : Nat) : History → History
  | .out r written => .out r (num :: written)
  | h => h

structure Thread where
  space : Option Space
  userRegisters : Registers
  place : Place
  history : History

structure State (μ : Type) where
  registers : Registers
  pageTable : Nat
  pageTableSize : Nat
  memory : μ
  /-- The thread objects. -/
  threads : Nat → Option Thread
  currentThread : Nat

/-- `Machine::Machine`, with the main thread running. -/
def boot {μ : Type} (memory : μ) (pageTableSize : Nat) (userRegisters : Registers) : State μ where
  registers := fun _ => 0
  pageTable := 0
  pageTableSize
  memory
  threads := Function.update (fun _ => none) 0 (some ⟨none, userRegisters, .kernel, .ran⟩)
  currentThread := 0

inductive Label (μ : Type) where
  /-- `OneInstruction`. -/
  | instruction
  /-- `ReadMem` in `ExceptionHandler` raises an exception. -/
  | fault (badVAddr : Word)
  /-- `machine->WriteRegister(num, value)` in `ExceptionHandler`. -/
  | write (num : Nat) (value : Word)
  /-- The kernel changes the memory. -/
  | touch (memory : μ)
  /-- `ExceptionHandler` returns. -/
  | leave
  /-- `CheckIfDue` calls a handler, which may ask for a yield. -/
  | check (yieldOnReturn : Bool)
  /-- `OneTick` returns. -/
  | done
  /-- A new thread is forked. -/
  | fork (t : Nat) (space : Option Space) (userRegisters : Registers)
  | newProcess
  | startProcess (space : Space)
  /-- `Yield` or `Sleep` calls `Run`. -/
  | run (next : Nat)
  /-- `Finish` calls `Run`. -/
  | finish (next : Nat)
  /-- `delete threadToBeDestroyed`. -/
  | destroy (t : Nat)

/-- The loop of `SaveUserState`. -/
def saveUserState (machineRegisters userRegisters : Registers) : Registers :=
  fun i => if i < numTotalRegs then machineRegisters i else userRegisters i

/-- `Scheduler::Run` up to `SWITCH`, with these registers in the machine; the thread goes on at
`place` when it comes back. -/
def Thread.switchOut (th : Thread) (registers : Registers) (place : Place) : Thread :=
  { th with
    userRegisters :=
      if th.space.isSome then saveUserState registers th.userRegisters else th.userRegisters
    place
    history := .out registers [] }

/-- The first lines of `ExceptionHandler`. -/
def handlerEntry (r : Registers) : Registers := r.set pcReg (r pcReg + 4)

section Step

variable {μ : Type}

namespace State

/-- The current thread is now like this. -/
def put (s : State μ) (th : Thread) : State μ :=
  { s with threads := Function.update s.threads s.currentThread (some th) }

/-- One turn of the loop of `Machine::Run`, up to `OneTick` or to the handler. -/
def instruction (ops : Nat → Nat → MemoryOps μ) (s : State μ) (th : Thread) : Option (State μ) :=
  match oneInstruction (ops s.pageTable s.pageTableSize) ⟨s.registers, s.memory⟩ with
  | .ok (.completed cpu) => some
      { s.put { th with place := .ticking false, history := .ran } with
        registers := cpu.registers
        memory := cpu.memory }
  | .ok (.trapped which cpu) => some
      { s.put { th with place := .system which 0, history := .ran } with
        registers := handlerEntry cpu.registers
        memory := cpu.memory }
  | .error _ => none

/-- `RaiseException` out of `ReadMem` in a system call, up to the handler. -/
def fault (s : State μ) (th : Thread) (depth : Nat) (badVAddr : Word) : State μ :=
  { s.put { th with
      place := .system .syscallException (depth + 1)
      history := (th.history.write badVAddrReg).write pcReg } with
    registers := handlerEntry (trapRegisters s.registers badVAddr) }

/-- `InitRegisters`, `RestoreState` and `machine->Run()`. -/
def enter (s : State μ) (th : Thread) (space : Space) : State μ :=
  { s.put { th with space := some space, place := .user, history := .started } with
    registers := restoreUserState (initRegisters space.numPages) s.registers
    pageTable := space.pageTable
    pageTableSize := space.numPages }

/-- `SWITCH` to a thread, and what comes after it in `Run` or in `ThreadRoot`. -/
def resume (s : State μ) (next : Nat) : Option (State μ) := do
  let th ← s.threads next
  let s := { s with currentThread := next }
  match th.place with
  | .finished => none
  | .ready => some (s.put { th with place := .kernel })
  | _ =>
      match th.space with
      | none => some s
      | some space => some { s with
          registers := restoreUserState th.userRegisters s.registers
          pageTable := space.pageTable
          pageTableSize := space.numPages }

/-- `Scheduler::Run`. -/
def run (s : State μ) (th : Thread) (place : Place) (next : Nat) : Option (State μ) :=
  (s.put (th.switchOut s.registers place)).resume next

/-- There is a new thread. -/
def fork (s : State μ) (t : Nat) (th : Thread) : Option (State μ) :=
  if s.threads t = none then some { s with threads := Function.update s.threads t (some th) }
  else none

/-- What the current thread does. -/
def go (ops : Nat → Nat → MemoryOps μ) (s : State μ) (th : Thread) : Label μ → Option (State μ)
  | .instruction => if th.place = .user then s.instruction ops th else none
  | .fault badVAddr =>
      match th.place with
      | .system .syscallException depth => some (s.fault th depth badVAddr)
      | _ => none
  | .write num value =>
      match th.place with
      | .system .syscallException _ =>
          if num = 2 ∨ num = pcReg then
            some { s.put { th with history := th.history.write num } with
              registers := s.registers.set num value }
          else none
      | .system .pageFaultException _ =>
          if num = pcReg then some { s with registers := s.registers.set num value } else none
      | _ => none
  | .touch memory =>
      match th.place with
      | .system _ _ | .kernel => some { s with memory }
      | _ => none
  | .leave =>
      match th.place with
      | .system which (depth + 1) => some (s.put { th with place := .system which depth })
      -- the other branches end in `Finish`
      | .system .syscallException 0 | .system .pageFaultException 0 =>
          some (s.put { th with place := .ticking false })
      | _ => none
  | .check yieldOnReturn =>
      match th.place with
      | .ticking before => some { s.put { th with place := .ticking (before || yieldOnReturn) } with
          registers := flush s.registers }
      | .system _ _ | .kernel => some { s with registers := flush s.registers }
      | _ => none
  | .done =>
      match th.place with
      -- `Yield` returns at once when nobody else is ready
      | .ticking _ => some (s.put { th with place := .user })
      | _ => none
  | .fork t space userRegisters =>
      match th.place with
      | .system _ _ | .kernel => s.fork t ⟨space, userRegisters, .ready, .ran⟩
      | _ => none
  | .newProcess =>
      match th.place, th.space with
      | .kernel, some space => some (s.enter th space)
      | _, _ => none
  | .startProcess space => if th.place = .kernel then some (s.enter th space) else none
  | .run next =>
      match th.place with
      | .ticking true => s.run th (.ticking false) next
      | .system .pageFaultException _ => none
      | .system which depth => s.run th (.system which depth) next
      | .kernel => s.run th .kernel next
      | _ => none
  | .finish next =>
      match th.place with
      | .system _ _ | .kernel => s.run th .finished next
      | _ => none
  | .destroy t =>
      match s.threads t with
      | some ⟨_, _, .finished, _⟩ => some { s with threads := Function.update s.threads t none }
      | _ => none

def step (ops : Nat → Nat → MemoryOps μ) (s : State μ) (label : Label μ) : Option (State μ) :=
  (s.threads s.currentThread).bind fun th => s.go ops th label

end State

end Step

/-! ## What is to hold -/

/-- What a thread finds when it executes an instruction. -/
structure Undisturbed {μ : Type} (s : State μ) (th : Thread) : Prop where
  /-- Its own page table. -/
  pageTable : ∃ space, th.space = some space ∧ s.pageTable = space.pageTable ∧
    s.pageTableSize = space.numPages ∧
    /- And the registers `InitRegisters` sets, if it is its first one. -/
    (th.history = .started →
      ∀ i < numTotalRegs, s.registers i = initRegisters space.numPages i)
  /-- After it was switched out, the registers it had then, where its own system call has not
  written them. -/
  registers : ∀ r written, th.history = .out r written →
    ∀ i < numTotalRegs, i ∉ written → s.registers i = r i

/-- Whoever executes an instruction is undisturbed. -/
def Invisible {μ : Type} (s : State μ) : Prop :=
  ∀ th, s.threads s.currentThread = some th → th.place = .user → Undisturbed s th

/-- The current thread is before the first instruction of its program. -/
def Started {μ : Type} (s : State μ) (space : Space) : Prop :=
  (s.threads s.currentThread).map (fun th => (th.space, th.place)) = some (some space, .user) ∧
    s.pageTable = space.pageTable ∧ s.pageTableSize = space.numPages ∧
      ∀ i < numTotalRegs, s.registers i = initRegisters space.numPages i

/-- What becomes of the current thread when it starts its program, and when it gives the
processor away. -/
structure Changes {μ : Type} (ops : Nat → Nat → MemoryOps μ) (s : State μ) : Prop where
  newProcess : ∀ th space, s.threads s.currentThread = some th → th.place = .kernel →
    th.space = some space → ∃ s', s.step ops .newProcess = some s' ∧
      s'.currentThread = s.currentThread ∧ Started s' space
  startProcess : ∀ th space, s.threads s.currentThread = some th → th.place = .kernel →
    ∃ s', s.step ops (.startProcess space) = some s' ∧
      s'.currentThread = s.currentThread ∧ Started s' space
  /-- The registers it had are noted in its history. -/
  run : ∀ next s', s.step ops (.run next) = some s' →
    (s'.threads s.currentThread).map Thread.history = some (.out s.registers [])

/-! ## No load pending -/

section Registers

variable {r r' : Registers}

/-- No load is pending: an interrupt leaves these registers alone. -/
structure Settled (r : Registers) : Prop where
  zero : r 0 = 0
  load : r loadReg = 0
  value : r loadValueReg = 0

theorem Settled.flush_eq (settled : Settled r) : flush r = r := by
  have target : (r loadReg).toNat < numGPRegs := by
    rw [settled.load]
    decide
  exact flush_of_none ⟨settled.zero, target⟩ ⟨settled.load, settled.value⟩

theorem settled_flush (r : Registers) : Settled (flush r) :=
  ⟨delayedLoad_apply 0 0 0, delayedLoad_apply 0 0 loadReg, delayedLoad_apply 0 0 loadValueReg⟩

theorem Settled.set (settled : Settled r) {num : Nat} (value : Word)
    (written : num = 2 ∨ num = pcReg ∨ num = badVAddrReg) : Settled (r.set num value) := by
  obtain rfl | rfl | rfl := written <;> exact ⟨settled.zero, settled.load, settled.value⟩

theorem Settled.congr (settled : Settled r) (same : ∀ i < numTotalRegs, r' i = r i) :
    Settled r' :=
  ⟨(same 0 (by decide)).trans settled.zero, (same loadReg (by decide)).trans settled.load,
    (same loadValueReg (by decide)).trans settled.value⟩

theorem settled_handlerEntry (r : Registers) (badVAddr : Word) :
    Settled (handlerEntry (trapRegisters r badVAddr)) := by
  have trapped : Settled (trapRegisters r badVAddr) := settled_flush _
  exact trapped.set _ (Or.inr (Or.inl rfl))

/-- A trap in the kernel writes two registers. -/
theorem Settled.handlerEntry_eq (settled : Settled r) (badVAddr : Word) :
    handlerEntry (trapRegisters r badVAddr) = handlerEntry (r.set badVAddrReg badVAddr) := by
  have settled' := settled.set badVAddr (Or.inr (Or.inr rfl))
  have trapped : trapRegisters r badVAddr = r.set badVAddrReg badVAddr := settled'.flush_eq
  rw [trapped]

end Registers

/-! ## The invariant -/

section Invariant

variable {μ : Type} {ops : Nat → Nat → MemoryOps μ} {s s' : State μ} {th : Thread}

/-- The registers are what the history of their thread asks for. -/
def Follows (registers : Registers) (numPages : Nat) : History → Prop
  | .ran => True
  | .started => ∀ i < numTotalRegs, registers i = initRegisters numPages i
  | .out r written => ∀ i < numTotalRegs, i ∉ written → registers i = r i

/-- A thread in its program, with the registers and the page table of the machine. -/
def InProgram (registers : Registers) (pageTable pageTableSize : Nat) (th : Thread) : Prop :=
  ∃ space, th.space = some space ∧ pageTable = space.pageTable ∧
    pageTableSize = space.numPages ∧ Follows registers space.numPages th.history

/-- What holds of the current thread. -/
def Running (registers : Registers) (pageTable pageTableSize : Nat) (th : Thread) : Prop :=
  match th.place with
  | .ready | .finished => False
  | .kernel => True
  | .user => InProgram registers pageTable pageTableSize th
  | .ticking yieldOnReturn =>
      InProgram registers pageTable pageTableSize th ∧ th.history ≠ .started ∧
        (yieldOnReturn = true ∨ th.history ≠ .ran → Settled registers)
  | .system which _ =>
      InProgram registers pageTable pageTableSize th ∧ th.history ≠ .started ∧
        Settled registers ∧ (which = .pageFaultException → th.history = .ran)

/-- The registers of the thread are saved. -/
def Saved (th : Thread) : Prop :=
  th.space.isSome ∧ ∃ r, th.history = .out r [] ∧ Settled r ∧
    ∀ i < numTotalRegs, th.userRegisters i = r i

/-- What holds of a thread that is switched out. -/
def Suspended (th : Thread) : Prop :=
  match th.place with
  | .ready | .kernel | .finished => True
  | .user => False
  | .ticking yieldOnReturn => yieldOnReturn = false ∧ Saved th
  | .system which _ => which ≠ .pageFaultException ∧ Saved th

structure Sound (s : State μ) : Prop where
  current : ∃ th, s.threads s.currentThread = some th ∧
    Running s.registers s.pageTable s.pageTableSize th
  others : ∀ t th, t ≠ s.currentThread → s.threads t = some th → Suspended th

theorem boot_sound (memory : μ) (pageTableSize : Nat) (userRegisters : Registers) :
    Sound (boot memory pageTableSize userRegisters) := by
  refine ⟨⟨⟨none, userRegisters, .kernel, .ran⟩, rfl, trivial⟩, fun t th other here => ?_⟩
  simp only [boot, ne_eq] at other here
  rw [Function.update_of_ne other] at here
  cases here

/-! ### The current thread moves on -/

/-- The current thread is like this now. -/
theorem Sound.put (sound : Sound s)
    (threads : s'.threads = Function.update s.threads s.currentThread (some th))
    (current : s'.currentThread = s.currentThread)
    (running : Running s'.registers s'.pageTable s'.pageTableSize th) : Sound s' := by
  refine ⟨⟨th, ?_, running⟩, fun t u other here => ?_⟩
  · rw [threads, current]
    exact Function.update_self _ _ _
  · rw [current] at other
    rw [threads, Function.update_of_ne other] at here
    exact sound.others t u other here

/-- No thread has changed. -/
theorem Sound.keep (sound : Sound s) (here : s.threads s.currentThread = some th)
    (threads : s'.threads = s.threads) (current : s'.currentThread = s.currentThread)
    (running : Running s'.registers s'.pageTable s'.pageTableSize th) : Sound s' := by
  refine sound.put ?_ current running
  rw [threads]
  exact (Function.update_eq_self_iff.mpr here.symm).symm

/-- A thread that does not run comes, changes or goes. -/
theorem Sound.alter (sound : Sound s) {t : Nat} {u : Option Thread} (other : t ≠ s.currentThread)
    (suspended : ∀ th, u = some th → Suspended th) :
    Sound { s with threads := Function.update s.threads t u } := by
  obtain ⟨th, here, running⟩ := sound.current
  refine ⟨⟨th, (Function.update_of_ne other.symm _ _).trans here, running⟩, ?_⟩
  intro t' th' other' here'
  rcases eq_or_ne t' t with rfl | ne
  · exact suspended th' ((Function.update_self t' u s.threads).symm.trans here')
  · exact sound.others t' th' other' ((Function.update_of_ne ne _ _).symm.trans here')

@[simp] theorem History.write_eq_started {num : Nat} {h : History} :
    h.write num = .started ↔ h = .started := by
  cases h <;> simp [History.write]

@[simp] theorem History.write_eq_ran {num : Nat} {h : History} :
    h.write num = .ran ↔ h = .ran := by
  cases h <;> simp [History.write]

/-- A register is written in a system call. -/
theorem Follows.write {r : Registers} {numPages : Nat} {h : History}
    (follows : Follows r numPages h) (running : h ≠ .started) (num : Nat) (value : Word) :
    Follows (r.set num value) numPages (h.write num) := by
  cases h with
  | ran => trivial
  | started => exact absurd rfl running
  | out r₀ written =>
      intro i low unwritten
      rw [List.mem_cons, not_or] at unwritten
      exact (Function.update_of_ne unwritten.1 _ _).trans (follows i low unwritten.2)

theorem InProgram.write {r : Registers} {pageTable pageTableSize : Nat}
    (inside : InProgram r pageTable pageTableSize th) (running : th.history ≠ .started)
    (num : Nat) (value : Word) :
    InProgram (r.set num value) pageTable pageTableSize
      { th with history := th.history.write num } := by
  obtain ⟨space, mine, table, size, follows⟩ := inside
  exact ⟨space, mine, table, size, follows.write running num value⟩

/-- A thread that has executed an instruction since asks nothing of the registers. -/
theorem InProgram.of_ran {r r' : Registers} {pageTable pageTableSize : Nat} {u : Thread}
    (inside : InProgram r pageTable pageTableSize th) (same : u.space = th.space)
    (ran : u.history = .ran) : InProgram r' pageTable pageTableSize u := by
  obtain ⟨space, mine, table, size, -⟩ := inside
  refine ⟨space, same.trans mine, table, size, ?_⟩
  rw [ran]
  trivial

theorem Sound.instruction (sound : Sound s)
    (running : Running s.registers s.pageTable s.pageTableSize th) (place : th.place = .user)
    (moved : s.instruction ops th = some s') : Sound s' := by
  rw [Running, place] at running
  unfold State.instruction at moved
  split at moved
  · cases moved
    exact sound.put rfl rfl ⟨running.of_ran rfl rfl, by simp, by simp⟩
  · rename_i which cpu done
    cases moved
    obtain ⟨r', m', completed, -⟩ | ⟨_, a, m', trapped⟩ := oneInstruction_registers done
    · cases completed
    · cases trapped
      exact sound.put rfl rfl
        ⟨running.of_ran rfl rfl, by simp, settled_handlerEntry s.registers a, fun _ => rfl⟩
  · cases moved

theorem Sound.fault (sound : Sound s) (running : Running s.registers s.pageTable s.pageTableSize th)
    {depth : Nat} (place : th.place = .system .syscallException depth) (badVAddr : Word) :
    Sound (s.fault th depth badVAddr) := by
  rw [Running, place] at running
  obtain ⟨inside, begun, settled, -⟩ := running
  have bad := inside.write begun badVAddrReg badVAddr
  have both := bad.write (by simpa using begun) pcReg
    (s.registers.set badVAddrReg badVAddr pcReg + 4)
  refine sound.put rfl rfl ⟨?_, by simpa using begun, settled_handlerEntry _ _, by simp⟩
  show InProgram (handlerEntry (trapRegisters s.registers badVAddr)) _ _ _
  rw [settled.handlerEntry_eq]
  exact both

/-- What a call of `check` leaves of the registers. -/
theorem InProgram.flush {r : Registers} {pageTable pageTableSize : Nat} {place : Place}
    (inside : InProgram r pageTable pageTableSize th) (begun : th.history ≠ .started)
    (settled : th.history ≠ .ran → Settled r) :
    InProgram (flush r) pageTable pageTableSize { th with place } := by
  obtain ⟨space, mine, table, size, follows⟩ := inside
  refine ⟨space, mine, table, size, ?_⟩
  cases history : th.history with
  | ran => exact trivial
  | started => exact absurd history begun
  | out r₀ written =>
      rw [(settled (by rw [history]; simp)).flush_eq]
      rw [history] at follows
      exact follows

/-! ### The current thread changes -/

/-- Nobody is running. -/
def Parked (s : State μ) : Prop := ∀ t th, s.threads t = some th → Suspended th

theorem Sound.parked (sound : Sound s) (suspended : Suspended th) : Parked (s.put th) := by
  intro t u here
  rcases eq_or_ne t s.currentThread with rfl | other
  · cases (Function.update_self _ _ _).symm.trans here
    exact suspended
  · exact sound.others t u other ((Function.update_of_ne other _ _).symm.trans here)

/-- `SaveUserState` saves what the machine has. -/
theorem InProgram.saved {r : Registers} {pageTable pageTableSize : Nat}
    (inside : InProgram r pageTable pageTableSize th) (settled : Settled r) (place : Place) :
    Saved (th.switchOut r place) := by
  obtain ⟨space, mine, -⟩ := inside
  refine ⟨by simp [Thread.switchOut, mine], r, rfl, settled, fun i low => ?_⟩
  simp [Thread.switchOut, mine, saveUserState, low]

/-- `RestoreUserState` and `RestoreState` bring back what was saved. -/
theorem Saved.resume {space : Space} (saved : Saved th) (mine : th.space = some space)
    (scratch : Registers) :
    InProgram (restoreUserState th.userRegisters scratch) space.pageTable space.numPages th ∧
      th.history ≠ .started ∧ th.history ≠ .ran ∧
      Settled (restoreUserState th.userRegisters scratch) := by
  obtain ⟨-, r, history, settled, same⟩ := saved
  have back : ∀ i < numTotalRegs, restoreUserState th.userRegisters scratch i = r i := by
    intro i low
    rw [restoreUserState, if_pos low]
    exact same i low
  refine ⟨⟨space, mine, rfl, rfl, ?_⟩, by simp [history], by simp [history], settled.congr back⟩
  rw [history]
  exact fun i low _ => back i low

/-- A thread without an address space is in the kernel. -/
theorem Suspended.kernel (suspended : Suspended th) (nowhere : th.space = none)
    (unfinished : th.place ≠ .finished) (unready : th.place ≠ .ready) : th.place = .kernel := by
  have unsaved : ¬ Saved th := fun saved => by simpa [nowhere] using saved.1
  cases place : th.place with
  | ready => exact absurd place unready
  | kernel => rfl
  | user =>
      rw [Suspended, place] at suspended
      exact suspended.elim
  | ticking yieldOnReturn =>
      rw [Suspended, place] at suspended
      exact absurd suspended.2 unsaved
  | system which depth =>
      rw [Suspended, place] at suspended
      exact absurd suspended.2 unsaved
  | finished => exact absurd place unfinished

/-- One with an address space goes on where it was. -/
theorem Suspended.resume {space : Space} (suspended : Suspended th) (mine : th.space = some space)
    (unfinished : th.place ≠ .finished) (unready : th.place ≠ .ready) (scratch : Registers) :
    Running (restoreUserState th.userRegisters scratch) space.pageTable space.numPages th := by
  unfold Running
  cases place : th.place with
  | ready => exact absurd place unready
  | kernel => trivial
  | user =>
      rw [Suspended, place] at suspended
      exact suspended.elim
  | ticking yieldOnReturn =>
      rw [Suspended, place] at suspended
      obtain ⟨inside, begun, -, settled⟩ := suspended.2.resume mine scratch
      exact ⟨inside, begun, fun _ => settled⟩
  | system which depth =>
      rw [Suspended, place] at suspended
      obtain ⟨inside, begun, -, settled⟩ := suspended.2.resume mine scratch
      exact ⟨inside, begun, settled, fun fault => absurd fault suspended.1⟩
  | finished => exact absurd place unfinished

theorem Parked.resume (parked : Parked s) {next : Nat} (moved : s.resume next = some s') :
    Sound s' := by
  obtain ⟨th, here, moved⟩ := Option.bind_eq_some_iff.mp moved
  have suspended := parked next th here
  have rest : ∀ t u, t ≠ next → s.threads t = some u → Suspended u := fun t u _ => parked t u
  split at moved
  · cases moved
  · cases moved
    refine ⟨⟨_, Function.update_self _ _ _, trivial⟩, fun t u other here => ?_⟩
    exact rest t u other ((Function.update_of_ne other _ _).symm.trans here)
  · rename_i unfinished unready
    split at moved
    · rename_i nowhere
      cases moved
      have place := suspended.kernel nowhere unfinished unready
      refine ⟨⟨th, here, ?_⟩, rest⟩
      rw [Running, place]
      trivial
    · rename_i space mine
      cases moved
      exact ⟨⟨th, here, suspended.resume mine unfinished unready _⟩, rest⟩

theorem Sound.switch (sound : Sound s) {place : Place} {next : Nat}
    (moved : s.run th place next = some s')
    (suspended : Suspended (th.switchOut s.registers place)) : Sound s' :=
  (sound.parked suspended).resume moved

/-! ### The step and the run -/

/-- `InitRegisters` and `RestoreState`. -/
theorem Sound.enter (sound : Sound s) (th : Thread) (space : Space) : Sound (s.enter th space) := by
  refine sound.put rfl rfl ⟨space, rfl, rfl, rfl, fun i low => ?_⟩
  exact if_pos low

theorem Sound.check (sound : Sound s) (here : s.threads s.currentThread = some th)
    (running : Running s.registers s.pageTable s.pageTableSize th) {yieldOnReturn : Bool}
    (moved : s.go ops th (.check yieldOnReturn) = some s') : Sound s' := by
  simp only [State.go] at moved
  split at moved
  · rename_i before place
    rw [Running, place] at running
    obtain ⟨inside, begun, settled⟩ := running
    cases moved
    exact sound.put rfl rfl
      ⟨inside.flush begun (fun out => settled (Or.inr out)), begun, fun _ => settled_flush _⟩
  · rename_i which depth place
    cases moved
    refine sound.keep here rfl rfl ?_
    have settled : Settled s.registers := by
      rw [Running, place] at running
      exact running.2.2.1
    show Running (flush s.registers) _ _ _
    rw [settled.flush_eq]
    exact running
  · rename_i place
    cases moved
    refine sound.keep here rfl rfl ?_
    rw [Running, place]
    trivial
  · cases moved

theorem Sound.run (sound : Sound s)
    (running : Running s.registers s.pageTable s.pageTableSize th) {next : Nat}
    (moved : s.go ops th (.run next) = some s') : Sound s' := by
  simp only [State.go] at moved
  split at moved
  · rename_i place
    rw [Running, place] at running
    obtain ⟨inside, -, settled⟩ := running
    exact sound.switch moved ⟨rfl, inside.saved (settled (Or.inl rfl)) _⟩
  · cases moved
  · rename_i which depth unfaulted place
    rw [Running, place] at running
    obtain ⟨inside, -, settled, -⟩ := running
    exact sound.switch moved ⟨fun fault => unfaulted fault, inside.saved settled _⟩
  · exact sound.switch moved trivial
  · cases moved

/-- `ExceptionHandler` returns to `Machine::Run`. -/
theorem Sound.leave (sound : Sound s)
    (running : Running s.registers s.pageTable s.pageTableSize th) {which : ExceptionType}
    (place : th.place = .system which 0)
    (moved : some (s.put { th with place := .ticking false }) = some s') : Sound s' := by
  rw [Running, place] at running
  obtain ⟨inside, begun, settled, -⟩ := running
  cases moved
  exact sound.put rfl rfl ⟨inside, begun, fun _ => settled⟩

theorem Sound.fork (sound : Sound s) {t : Nat} {u : Thread} (moved : s.fork t u = some s')
    (suspended : Suspended u) : Sound s' := by
  obtain ⟨free, moved⟩ := Option.ite_none_right_eq_some.mp moved
  cases moved
  refine sound.alter ?_ ?_
  · rintro rfl
    obtain ⟨th, here, -⟩ := sound.current
    cases free.symm.trans here
  · rintro _ ⟨⟩
    exact suspended

theorem Sound.go (sound : Sound s) (here : s.threads s.currentThread = some th)
    (running : Running s.registers s.pageTable s.pageTableSize th) {label : Label μ}
    (moved : s.go ops th label = some s') : Sound s' := by
  cases label with
  | instruction =>
      obtain ⟨place, moved⟩ := Option.ite_none_right_eq_some.mp moved
      exact sound.instruction running place moved
  | fault badVAddr =>
      simp only [State.go] at moved
      split at moved
      · rename_i depth place
        cases moved
        exact sound.fault running place badVAddr
      · cases moved
  | write num value =>
      simp only [State.go] at moved
      split at moved
      · rename_i depth place
        obtain ⟨allowed, moved⟩ := Option.ite_none_right_eq_some.mp moved
        rw [Running, place] at running
        obtain ⟨inside, begun, settled, -⟩ := running
        cases moved
        refine sound.put rfl rfl ?_
        rw [Running]
        simp only [place]
        exact ⟨inside.write begun num value, by simpa using begun,
          settled.set value (allowed.imp_right Or.inl), by simp⟩
      · rename_i depth place
        obtain ⟨rfl, moved⟩ := Option.ite_none_right_eq_some.mp moved
        rw [Running, place] at running
        obtain ⟨inside, begun, settled, ran⟩ := running
        cases moved
        refine sound.keep here rfl rfl ?_
        rw [Running, place]
        exact ⟨inside.of_ran rfl (ran rfl), begun, settled.set value (Or.inr (Or.inl rfl)), ran⟩
      · cases moved
  | touch memory =>
      simp only [State.go] at moved
      split at moved
      · cases moved
        exact sound.keep here rfl rfl running
      · cases moved
        exact sound.keep here rfl rfl running
      · cases moved
  | leave =>
      simp only [State.go] at moved
      split at moved
      · rename_i which depth place
        rw [Running, place] at running
        cases moved
        exact sound.put rfl rfl running
      · rename_i place
        exact sound.leave running place moved
      · rename_i place
        exact sound.leave running place moved
      · cases moved
  | check yieldOnReturn => exact sound.check here running moved
  | done =>
      simp only [State.go] at moved
      split at moved
      · rename_i place
        rw [Running, place] at running
        cases moved
        exact sound.put rfl rfl running.1
      · cases moved
  | fork t space userRegisters =>
      simp only [State.go] at moved
      split at moved
      · exact sound.fork moved trivial
      · exact sound.fork moved trivial
      · cases moved
  | newProcess =>
      simp only [State.go] at moved
      split at moved
      · cases moved
        exact sound.enter th _
      · cases moved
  | startProcess space =>
      obtain ⟨-, moved⟩ := Option.ite_none_right_eq_some.mp moved
      cases moved
      exact sound.enter th space
  | run next => exact sound.run running moved
  | finish next =>
      simp only [State.go] at moved
      split at moved
      · exact sound.switch moved trivial
      · exact sound.switch moved trivial
      · cases moved
  | destroy t =>
      simp only [State.go] at moved
      split at moved
      · rename_i gone
        cases moved
        refine sound.alter ?_ (by simp)
        rintro rfl
        cases here.symm.trans gone
        exact running
      · cases moved

theorem Sound.step (sound : Sound s) {label : Label μ}
    (moved : s.step ops label = some s') : Sound s' := by
  obtain ⟨th, here, running⟩ := sound.current
  obtain ⟨th', here', moved⟩ := Option.bind_eq_some_iff.mp moved
  cases here.symm.trans here'
  exact sound.go here running moved

theorem Sound.invisible (sound : Sound s) : Invisible s := by
  intro th here place
  obtain ⟨th', here', running⟩ := sound.current
  cases here.symm.trans here'
  rw [Running, place] at running
  obtain ⟨space, mine, table, size, follows⟩ := running
  refine ⟨⟨space, mine, table, size, fun started => ?_⟩, fun r written out => ?_⟩
  · rw [started] at follows
    exact follows
  · rw [out] at follows
    exact follows

theorem started_enter (s : State μ) (th : Thread) (space : Space) :
    Started (s.enter th space) space := by
  refine ⟨?_, rfl, rfl, fun i low => if_pos low⟩
  simp [State.enter, State.put]

/-- `SWITCH` changes no history. -/
theorem resume_history {next : Nat} (moved : s.resume next = some s') (t : Nat) :
    (s'.threads t).map Thread.history = (s.threads t).map Thread.history := by
  obtain ⟨th, here, moved⟩ := Option.bind_eq_some_iff.mp moved
  split at moved
  · cases moved
  · cases moved
    by_cases same : t = next
    · subst same
      simp [State.put, here]
    · simp [State.put, same]
  · split at moved
    · cases moved
      rfl
    · cases moved
      rfl

theorem run_history {place : Place} {next : Nat} (moved : s.run th place next = some s') :
    (s'.threads s.currentThread).map Thread.history = some (.out s.registers []) := by
  rw [resume_history moved]
  simp [State.put, Thread.switchOut]

theorem changes (s : State μ) : Changes ops s := by
  refine ⟨fun th space here kernel mine => ?_, fun th space here kernel => ?_,
    fun next s' moved => ?_⟩
  · refine ⟨s.enter th space, ?_, rfl, started_enter s th space⟩
    simp [State.step, here, State.go, kernel, mine]
  · refine ⟨s.enter th space, ?_, rfl, started_enter s th space⟩
    simp [State.step, here, State.go, kernel]
  · obtain ⟨th, -, moved⟩ := Option.bind_eq_some_iff.mp moved
    simp only [State.go] at moved
    split at moved
    · exact run_history moved
    · cases moved
    · exact run_history moved
    · exact run_history moved
    · cases moved

end Invariant

/-- **Context switches are invisible.**  Whatever threads there are and however they take turns,
whoever executes an instruction has its own page table; the registers of `InitRegisters`, when it
is the first; and else, when it was switched out since the last one, the registers it had then,
but for those its own system call has written.  Whoever starts its program is before its first
instruction, with these registers and this table. -/
theorem switches_invisible {μ : Type} (ops : Nat → Nat → MemoryOps μ) (memory : μ)
    (pageTableSize : Nat) (userRegisters : Registers) (labels : List (Label μ)) :
    AllStates (State.step ops) (fun s => Invisible s ∧ Changes ops s)
      (boot memory pageTableSize userRegisters) labels := by
  have sound : AllStates (State.step ops) Sound (boot memory pageTableSize userRegisters) labels :=
    allStates_of_invariant (fun _ _ _ before _ moved => before.step moved)
      (boot_sound memory pageTableSize userRegisters) (allSteps_true _ labels)
  exact sound.mono fun s sound => ⟨sound.invisible, changes s⟩

/-- A memory with the code of each page table, which nobody writes to. -/
def codeOps (pageTable _ : Nat) : MemoryOps (Nat → List Word) where
  readMem := fun code addr _ => .ok (.value ((code pageTable).getD (addr.toNat / 4) 0) code)
  writeMem := fun code _ _ _ => .ok (.value () code)

/-- `addiu r1, r1, 1` twice, `syscall`, and `addiu r1, r2, 0`; and `addiu r1, r0, 5` twice. -/
def twoPrograms (pageTable : Nat) : List Word :=
  if pageTable = 1 then [0x24210001, 0x24210001, 0xc, 0x24410000] else [0x24010005, 0x24010005]

/-- The second program starts and runs between two instructions of the first, and again while
the first is in its system call, which then returns 7. -/
def twoLabels : List (Label (Nat → List Word)) :=
  [.fork 1 (some ⟨1, 9⟩) (fun _ => 0), .fork 2 (some ⟨2, 10⟩) (fun _ => 0), .run 1, .newProcess,
    .instruction, .check true, .run 2, .newProcess, .instruction, .check true, .run 1, .done,
    .instruction, .done, .instruction, .run 2, .done, .instruction, .check true, .run 1,
    .write 2 7, .leave, .done, .instruction]

theorem switches_invisible_two :
    (exec (State.step codeOps) (boot twoPrograms 0 fun _ => 0) (twoLabels.take 13)).map
        (fun s => (s.currentThread, s.registers 1, s.pageTable, s.pageTableSize)) =
      some (1, 2, 1, 9) ∧
    (exec (State.step codeOps) (boot twoPrograms 0 fun _ => 0) twoLabels).map
        (fun s => (s.currentThread, s.registers 1, s.pageTable, s.pageTableSize)) =
      some (1, 7, 1, 9) ∧
    AllStates (State.step codeOps) (fun s => Invisible s ∧ Changes codeOps s)
      (boot twoPrograms 0 fun _ => 0) twoLabels :=
  ⟨by decide +kernel, by decide +kernel,
    switches_invisible codeOps twoPrograms 0 (fun _ => 0) twoLabels⟩

end Nachos.UserProg.Switching
