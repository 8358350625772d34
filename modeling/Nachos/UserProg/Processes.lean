/-
# Nachos.UserProg.Processes -- system calls of many processes, in any order

`ExceptionHandler` again, now on the whole kernel: every thread has a place of its own
in its program or in the handler (`Phase`), and a step is the turn of one thread up to
the next point at which it can lose the processor.  `Exec` stops at every character of
the name, in the constructor of the new thread, at the lock of the table of programs
and in `Fork`; `Join` stops in `joinSignal->P()`, before it copies the status and after
`mayDie->V()`.  Between these points the turn of one thread is one step.

Two histories are kept: `issued` is the thread behind an identifier that `Exec`
returned, and `fate` says how a thread has ended.

`Moves` is what a turn can do to the threads, memory apart, and `turn_moves` that it
does nothing else.
-/
import Nachos.UserProg.Exception

namespace Nachos.UserProg

open Nachos.Lib.Bytes
open Nachos.Lib.Run
open Nachos.Machine
open Nachos.Threads (Table)
open Nachos.FileSys (OpenFile)

set_option autoImplicit false

/-! ## Threads and their places -/

/-- Where a thread is when it does not run. -/
inductive Phase where
  /-- Made, and not yet forked. -/
  | created
  /-- In its program. -/
  | user
  /-- `SC_Exec` at `ReadMem(addr, 1, &v)`, with `left` turns of the loop to go. -/
  | naming (left : Nat) (addr : Word) (name : List Byte)
  /-- `SC_Exec` in `new Thread("Exec Spawn", 1)`. -/
  | loading (executable : OpenFile)
  /-- `SC_Exec` at `access_lock->Acquire()` of `Alloc`. -/
  | placing (fork : Nat)
  /-- `SC_Exec` in `Alloc`, with the lock. -/
  | allocating (fork : Nat)
  /-- `SC_Exec` at `fork->Fork(NewProcess, 0)`. -/
  | forking (fork : Nat) (result : Int)
  /-- `SC_Exec` at `WriteRegister(2, result)`. -/
  | returning (fork : Nat) (result : Int)
  /-- `SC_Join` in `joinSignal->P()`. -/
  | joining (id : Int) (child : Nat)
  /-- `SC_Join` with the signal taken. -/
  | joined (id : Int) (child : Nat)
  /-- `SC_Join` at `getExitStatus()`. -/
  | reading (id : Int) (child : Nat)
  /-- `Finish` at `mayDie->P()`. -/
  | finishing
  /-- `Finish` past `threadToBeDestroyed = currentThread`. -/
  | finished

/-- A thread with the user registers `SaveUserState` keeps for it. -/
structure Task where
  registers : Registers
  joinSignal : Nat
  mayDie : Nat
  exitStatus : Word
  /-- It can be joined: the second argument of the constructor. -/
  joining : Bool
  phase : Phase

/-- The kernel and all its threads.  `system.live` has the spaces of the threads that
have not exited. -/
structure Processes where
  system : System
  tasks : Nat → Option Task
  /-- The next unused address for a thread object. -/
  nextThread : Nat
  threadlist : Table
  /-- A history variable: the thread for which `Exec` returned this identifier. -/
  issued : Int → Option Nat
  /-- A history variable: how a thread ended, by `Exit` of a status or otherwise. -/
  fate : Nat → Option (Option Word)

/-- In its program or in `ReadMem` for the name of another: where a thread can exit. -/
def Phase.Runs : Phase → Prop
  | .user => True
  | .naming _ _ _ => True
  | _ => False

/-- What a new `Thread` and a new `AddrSpace` happen to hold. -/
structure Chance where
  exitStatus : Word
  clockHand : Int

/-- A step: the turn of a thread, or the deletion of one that has finished. -/
inductive Label where
  | turn (t : Nat) (chance : Chance)
  | delete (t : Nat)

/-- `ExceptionHandler` on anything but a system call.  `none`: the process is destroyed. -/
def serve (c : Config) (which : ExceptionType) (cpu : Cpu Vm) : Except Stop (Option (Cpu Vm)) :=
  match which with
  | .pageFaultException => do return some (← handlePageFault c cpu)
  | .readOnlyException => return none
  | .busErrorException => return none
  | .addressErrorException => return none
  | .overflowException => return none
  | .illegalInstrException => return none
  | .noException => throw .assertion
  | .syscallException => throw .assertion

/-- The handler of a single process is this one with `Destroy` at its end. -/
theorem handleFault_serve (c : Config) (which : ExceptionType) (cpu : Cpu Vm) :
    handleFault c which cpu = serve c which cpu >>= fun served =>
      match served with
      | some cpu => pure cpu
      | none => destroy cpu := by
  cases which with
  | pageFaultException =>
      show handlePageFault c cpu = handlePageFault c cpu >>= _ >>= _
      cases handlePageFault c cpu <;> rfl
  | _ => rfl

namespace Processes

def setTask (m : Processes) (t : Nat) (task : Task) : Processes :=
  { m with tasks := Function.update m.tasks t (some task) }

/-- Thread `t` is at `phase` with the processor in state `cpu`. -/
def resume (m : Processes) (t : Nat) (task : Task) (cpu : Cpu Vm) (phase : Phase) : Processes :=
  { m.setTask t { task with registers := cpu.registers, phase } with
    system := m.system.resume t cpu.memory }

/-- `SC_Exit` and `Destroy`, which both end with `setExitStatus(0)` and `Finish`; up to
`mayDie->P()`. -/
def exit (m : Processes) (t : Nat) (task : Task) (cpu : Cpu Vm) (how : Option Word) :
    Except Stop Processes := do
  let system := m.system.resume t cpu.memory
  let core ← clearState system.core cpu.memory.toAddrSpace
  return { m.setTask t { task with
      registers := cpu.registers
      joinSignal := if task.joining then task.joinSignal + 1 else task.joinSignal
      exitStatus := 0
      phase := .finishing } with
    system := { system with
      core
      live := Function.update system.live t none
      exited := Function.update system.exited t (some cpu.memory.toAddrSpace) }
    fate := Function.update m.fate t (some how) }

/-- The thread behind a pointer, whose `joinSignal` is to be used; a thread that cannot
be joined has none. -/
def joinable (m : Processes) (child : Nat) : Except Stop Task :=
  match m.tasks child with
  | none => throw .dangling
  | some thread => if thread.joining then return thread else throw .uninitialised

/-- `SC_Join` up to `joinSignal->P()`. -/
def join (m : Processes) (t : Nat) (task : Task) (cpu : Cpu Vm) : Except Stop Processes := do
  let id := (cpu.registers 4).toInt
  match ← m.threadlist.get id with
  | none => throw .hostFault
  | some child =>
      ASSERT (decide (child ≠ t))
      let _ ← m.joinable child
      return m.resume t task cpu (.joining id child)

/-- `ExceptionHandler(SyscallException)` up to the first place the thread can stop. -/
def syscall (m : Processes) (t : Nat) (task : Task) (cpu : Cpu Vm) : Except Stop Processes :=
  let cpu := { cpu with registers := cpu.registers.set pcReg (cpu.registers pcReg + 4) }
  match syscallOf (cpu.registers 2) with
  | .halt => throw .halted
  | .exit => m.exit t task cpu (some (cpu.registers 4))
  | .exec => return m.resume t task cpu (.naming 1024 (cpu.registers 4) [])
  | .join => m.join t task cpu
  | .write => m.exit t task cpu none
  | .other => throw .assertion

/-- A turn of `Machine::Run`. -/
def userTurn (c : Config) (m : Processes) (t : Nat) (task : Task) (memory : Vm) :
    Except Stop Processes := do
  match ← oneInstruction (vmOps c) ⟨task.registers, memory⟩ with
  | .completed cpu => return m.resume t task cpu .user
  | .trapped .syscallException cpu => m.syscall t task cpu
  | .trapped which cpu =>
      match ← serve c which cpu with
      | some cpu => return m.resume t task cpu .user
      | none => m.exit t task cpu none

/-- `SC_Exec` with a character read: the next one, or `Open` at the end of the name. -/
def character (m : Processes) (t : Nat) (task : Task) (left : Nat) (addr : Word)
    (name : List Byte) (v : Word) (cpu : Cpu Vm) : Processes :=
  if v = 0 then
    match m.system.core.fileSystem.open (nameOf name) with
    | none => m.resume t task { cpu with registers := cpu.registers.set 2 0 } .user
    | some executable => m.resume t task cpu (.loading executable)
  else m.resume t task cpu (.naming left (addr + 1) (name ++ [byteOf v 0]))

/-- A turn of the loop that copies the name, with its two tries. -/
def namingTurn (c : Config) (m : Processes) (t : Nat) (task : Task) (memory : Vm) (left : Nat)
    (addr : Word) (name : List Byte) : Except Stop Processes :=
  match left with
  | 0 => return m.resume t task ⟨task.registers.set 2 0, memory⟩ .user
  | left + 1 => do
      match ← memory.readMem c addr 1 with
      | .value v memory => return m.character t task left addr name v ⟨task.registers, memory⟩
      | .exception which =>
          let cpu : Cpu Vm := ⟨trapRegisters task.registers addr, memory⟩
          match ← serve c which cpu with
          | none => m.exit t task cpu none
          | some cpu =>
              match ← cpu.memory.readMem c addr 1 with
              | .value v memory =>
                  return m.character t task left addr name v ⟨cpu.registers, memory⟩
              | .exception which =>
                  let cpu : Cpu Vm := ⟨trapRegisters cpu.registers addr, cpu.memory⟩
                  match ← serve c which cpu with
                  | none => m.exit t task cpu none
                  | some _ => throw .assertion

/-- `new Thread("Exec Spawn", 1)` and `AddrSpace::Initialize`.  The registers are those
`NewProcess` sets when the thread first runs. -/
def loadingTurn (m : Processes) (t : Nat) (task : Task) (executable : OpenFile)
    (chance : Chance) : Except Stop Processes := do
  let fork := m.nextThread
  let (space, core) ← initializeSpace m.system.core executable chance.clockHand
  let m := m.setTask fork ⟨initRegisters space.numPages, 0, 0, chance.exitStatus, true, .created⟩
  return { m.setTask t { task with phase := .placing fork } with
    system := { m.system with core, live := Function.update m.system.live fork (some space) }
    nextThread := fork + 1 }

/-- `access_lock->Acquire()` of `Alloc`. -/
def placingTurn (m : Processes) (t : Nat) (task : Task) (fork : Nat) : Except Stop Processes := do
  let threadlist ← m.threadlist.acquire t
  return { m with threadlist }.setTask t { task with phase := .allocating fork }

/-- The rest of `Alloc`. -/
def allocatingTurn (m : Processes) (t : Nat) (task : Task) (fork : Nat) :
    Except Stop Processes := do
  let (result, threadlist) ← m.threadlist.allocHeld fork
  return { m with threadlist }.setTask t { task with phase := .forking fork result }

/-- `fork->Fork(NewProcess, 0)`. -/
def forkingTurn (m : Processes) (t : Nat) (task : Task) (fork : Nat) (result : Int) :
    Except Stop Processes :=
  match m.tasks fork with
  | none => throw .dangling
  | some thread =>
      let m := m.setTask fork { thread with phase := .user }
      return m.setTask t { task with phase := .returning fork result }

/-- `WriteRegister(2, result)`. -/
def returningTurn (m : Processes) (t : Nat) (task : Task) (fork : Nat) (result : Int) : Processes :=
  let registers := task.registers.set 2 (BitVec.ofInt 32 result)
  { m.setTask t { task with registers, phase := .user } with
    issued := Function.update m.issued result (some fork) }

/-- A turn of the loop of `joinSignal->P()`. -/
def joiningTurn (m : Processes) (t : Nat) (task : Task) (id : Int) (child : Nat) :
    Except Stop Processes := do
  let thread ← m.joinable child
  if thread.joinSignal = 0 then throw .blocked
  else
    let m := m.setTask child { thread with joinSignal := thread.joinSignal - 1 }
    return m.setTask t { task with phase := .joined id child }

/-- The rest of `Thread::Join`: the status is copied, and the child may die. -/
def joinedTurn (m : Processes) (t : Nat) (task : Task) (id : Int) (child : Nat) :
    Except Stop Processes :=
  match m.tasks child with
  | none => throw .dangling
  | some thread =>
      let m := m.setTask child { thread with mayDie := thread.mayDie + 1 }
      return m.setTask t { task with exitStatus := thread.exitStatus, phase := .reading id child }

/-- `WriteRegister(2, currentThread->getExitStatus())`. -/
def readingTurn (m : Processes) (t : Nat) (task : Task) : Processes :=
  m.setTask t { task with registers := task.registers.set 2 task.exitStatus, phase := .user }

/-- `Finish` from `mayDie->P()` on; only a thread that can be joined waits there. -/
def finishingTurn (m : Processes) (t : Nat) (task : Task) : Except Stop Processes :=
  if task.joining then
    if task.mayDie = 0 then throw .blocked
    else return m.setTask t { task with mayDie := task.mayDie - 1, phase := .finished }
  else return m.setTask t { task with phase := .finished }

/-- The memory of a thread, through its address space. -/
def memoryOf (m : Processes) (t : Nat) : Except Stop Vm :=
  match m.system.live t with
  | none => throw .hostFault
  | some space => return ⟨m.system.core, space⟩

/-- The turn of thread `t`, which is at `task`. -/
def taskTurn (c : Config) (m : Processes) (t : Nat) (chance : Chance) (task : Task) :
    Except Stop Processes :=
  match task.phase with
  | .created => throw .blocked
  | .user => do m.userTurn c t task (← m.memoryOf t)
  | .naming left addr name => do m.namingTurn c t task (← m.memoryOf t) left addr name
  | .loading executable => m.loadingTurn t task executable chance
  | .placing fork => m.placingTurn t task fork
  | .allocating fork => m.allocatingTurn t task fork
  | .forking fork result => m.forkingTurn t task fork result
  | .returning fork result => return m.returningTurn t task fork result
  | .joining id child => m.joiningTurn t task id child
  | .joined id child => m.joinedTurn t task id child
  | .reading _ _ => return m.readingTurn t task
  | .finishing => m.finishingTurn t task
  | .finished => throw .blocked

/-- The turn of thread `t`. -/
def turn (c : Config) (m : Processes) (t : Nat) (chance : Chance) : Except Stop Processes :=
  match m.tasks t with
  | none => throw .blocked
  | some task => m.taskTurn c t chance task

/-- `delete threadToBeDestroyed`, with the address space. -/
def delete (m : Processes) (t : Nat) : Option Processes :=
  match m.tasks t, m.system.exited t with
  | some ⟨_, _, _, _, _, .finished⟩, some space => some
      { m with
        system := { m.system with
          core := { m.system.core with
            fileSystem := BackingStore.destroy m.system.core.fileSystem space.backing }
          exited := Function.update m.system.exited t none }
        tasks := Function.update m.tasks t none }
  | _, _ => none

/-- One step.  `none`: it is not possible here, or control does not come back. -/
def step (c : Config) (m : Processes) : Label → Option Processes
  | .turn t chance => (m.turn c t chance).toOption
  | .delete t => m.delete t

/-- `StartProcess`: the main thread runs the first program. -/
def boot (system : System) (threadlist : Table) (executable : OpenFile) (chance : Chance) :
    Except Stop Processes := do
  let (space, core) ← initializeSpace system.core executable chance.clockHand
  return {
    system := { system with core, live := Function.update system.live 0 (some space) }
    tasks := Function.update (fun _ => none) 0
      (some ⟨initRegisters space.numPages, 0, 1, chance.exitStatus, false, .user⟩)
    nextThread := 1
    threadlist
    issued := fun _ => none
    fate := fun _ => none }

/-! ## What a turn can do to the threads -/

/-- A thread that moves keeps its address space, or gets it back changed. -/
def KeepsSpace (sys : System) (t : Nat) (sys' : System) : Prop :=
  sys'.live = sys.live ∨ ∃ space, sys'.live = Function.update sys.live t (some space)

/-- The pending load of the registers is into a general register, if it was. -/
def KeepsTarget (r r' : Registers) : Prop :=
  (r loadReg).toNat < numGPRegs → (r' loadReg).toNat < numGPRegs

/-- Where a thread that moves alone gets to. -/
inductive Next (m : Processes) (t : Nat) : Phase → Phase → Prop
  | run : Next m t .user .user
  | exec (addr : Word) : Next m t .user (.naming 1024 addr [])
  | join {id : Int} {child : Nat} {thread : Task} (entry : m.threadlist.get id = .ok (some child))
      (other : child ≠ t) (there : m.tasks child = some thread) : Next m t .user (.joining id child)
  | more (left left' : Nat) (addr addr' : Word) (name name' : List Byte) :
      Next m t (.naming left addr name) (.naming left' addr' name')
  | refuse (left : Nat) (addr : Word) (name : List Byte) : Next m t (.naming left addr name) .user
  | found (left : Nat) (addr : Word) (name : List Byte) (executable : OpenFile) :
      Next m t (.naming left addr name) (.loading executable)
  | read (id : Int) (child : Nat) : Next m t (.reading id child) .user

/-- What a turn of thread `t` does, memory apart. -/
inductive Moves (m : Processes) (t : Nat) : Processes → Prop
  | goes {task : Task} {registers : Registers} {phase : Phase} {system : System}
      (here : m.tasks t = some task) (next : Next m t task.phase phase)
      (target : KeepsTarget task.registers registers) (space : KeepsSpace m.system t system) :
      Moves m t { m.setTask t { task with registers, phase } with system }
  | exits {task : Task} {registers : Registers} {how : Option Word} {system : System}
      (here : m.tasks t = some task) (runs : task.phase.Runs)
      (target : KeepsTarget task.registers registers)
      (space : system.live = Function.update m.system.live t none) :
      Moves m t { m.setTask t { task with
          registers
          joinSignal := if task.joining then task.joinSignal + 1 else task.joinSignal
          exitStatus := 0
          phase := .finishing } with
        system
        fate := Function.update m.fate t (some how) }
  | spawns {task : Task} {executable : OpenFile} {space : AddrSpace} {exitStatus : Word}
      {system : System} (here : m.tasks t = some task) (phase : task.phase = .loading executable)
      (live : system.live = Function.update m.system.live m.nextThread (some space)) :
      Moves m t { (m.setTask m.nextThread
          ⟨initRegisters space.numPages, 0, 0, exitStatus, true, .created⟩).setTask t
            { task with phase := .placing m.nextThread } with
        system
        nextThread := m.nextThread + 1 }
  | places {task : Task} {fork : Nat} {threadlist : Table} (here : m.tasks t = some task)
      (phase : task.phase = .placing fork) (grows : m.threadlist.Extends threadlist) :
      Moves m t ({ m with threadlist }.setTask t { task with phase := .allocating fork })
  | allocates {task : Task} {fork : Nat} {result : Int} {threadlist : Table}
      (here : m.tasks t = some task) (phase : task.phase = .allocating fork)
      (grows : m.threadlist.Extends threadlist)
      (entry : result = -1 ∨ threadlist.get result = .ok (some fork)) :
      Moves m t ({ m with threadlist }.setTask t { task with phase := .forking fork result })
  | forks {task thread : Task} {fork : Nat} {result : Int} (here : m.tasks t = some task)
      (phase : task.phase = .forking fork result) (there : m.tasks fork = some thread) :
      Moves m t ((m.setTask fork { thread with phase := .user }).setTask t
        { task with phase := .returning fork result })
  | returns {task : Task} {fork : Nat} {result : Int} (here : m.tasks t = some task)
      (phase : task.phase = .returning fork result) : Moves m t (m.returningTurn t task fork result)
  | takes {task thread : Task} {id : Int} {child : Nat} (here : m.tasks t = some task)
      (phase : task.phase = .joining id child) (there : m.tasks child = some thread)
      (joinable : thread.joining = true) (signalled : 0 < thread.joinSignal) :
      Moves m t ((m.setTask child { thread with joinSignal := thread.joinSignal - 1 }).setTask t
        { task with phase := .joined id child })
  | releases {task thread : Task} {id : Int} {child : Nat} (here : m.tasks t = some task)
      (phase : task.phase = .joined id child) (there : m.tasks child = some thread) :
      Moves m t ((m.setTask child { thread with mayDie := thread.mayDie + 1 }).setTask t
        { task with exitStatus := thread.exitStatus, phase := .reading id child })
  | dies {task : Task} {mayDie : Nat} (here : m.tasks t = some task)
      (phase : task.phase = .finishing) (allowed : task.joining = true → task.mayDie = mayDie + 1) :
      Moves m t (m.setTask t { task with mayDie, phase := .finished })

section Inversion

variable {c : Config} {m m' : Processes} {t : Nat} {task : Task} {cpu cpu' : Cpu Vm}

theorem KeepsTarget.refl (r : Registers) : KeepsTarget r r := fun low => low

theorem KeepsTarget.trans {r r' r'' : Registers} (first : KeepsTarget r r')
    (second : KeepsTarget r' r'') : KeepsTarget r r'' := fun low => second (first low)

theorem keepsTarget_trap (r : Registers) (a : Word) : KeepsTarget r (trapRegisters r a) :=
  fun low => (calm_trap low a).target

theorem keepsTarget_set (r : Registers) {n : Nat} (other : n ≠ loadReg) (value : Word) :
    KeepsTarget r (r.set n value) := by
  intro low
  unfold Registers.set
  rw [Function.update_of_ne other.symm]
  exact low

theorem serve_target {which : ExceptionType} (served : serve c which cpu = .ok (some cpu')) :
    KeepsTarget cpu.registers cpu'.registers := by
  cases which with
  | pageFaultException =>
      obtain ⟨cpu₁, handled, same⟩ := bind_eq_ok.mp served
      cases same
      obtain ⟨s, -, last⟩ := bind_eq_ok.mp handled
      cases last
      exact (keepsTarget_set _ (by decide) _).trans (keepsTarget_set _ (by decide) _)
  | noException => cases served
  | syscallException => cases served
  | readOnlyException => cases served
  | busErrorException => cases served
  | addressErrorException => cases served
  | overflowException => cases served
  | illegalInstrException => cases served

theorem resume_moves {phase : Phase} (here : m.tasks t = some task)
    (next : Next m t task.phase phase) (target : KeepsTarget task.registers cpu.registers) :
    Moves m t (m.resume t task cpu phase) :=
  .goes here next target (.inr ⟨cpu.memory.toAddrSpace, rfl⟩)

theorem exit_moves {how : Option Word} (here : m.tasks t = some task) (runs : task.phase.Runs)
    (target : KeepsTarget task.registers cpu.registers)
    (left : m.exit t task cpu how = .ok m') : Moves m t m' := by
  obtain ⟨core, -, last⟩ := bind_eq_ok.mp left
  cases last
  refine .exits here runs target ?_
  show Function.update (Function.update m.system.live t _) t none = _
  exact Function.update_idem _ _ _

theorem joinable_eq_ok {child : Nat} {thread : Task} (found : m.joinable child = .ok thread) :
    m.tasks child = some thread ∧ thread.joining = true := by
  unfold joinable at found
  split at found
  · cases found
  · rename_i thread' there
    split at found
    · rename_i joining
      cases found
      exact ⟨there, joining⟩
    · cases found

theorem join_moves (here : m.tasks t = some task) (phase : task.phase = .user)
    (target : KeepsTarget task.registers cpu.registers)
    (joined : m.join t task cpu = .ok m') : Moves m t m' := by
  obtain ⟨child, entry, rest⟩ := bind_eq_ok.mp joined
  cases child with
  | none => cases rest
  | some child =>
      obtain ⟨u, asserted, rest⟩ := bind_eq_ok.mp rest
      obtain ⟨thread, found, last⟩ := bind_eq_ok.mp rest
      cases last
      refine resume_moves here ?_ target
      rw [phase]
      exact .join entry (by simpa [ASSERT_eq_ok] using asserted) (joinable_eq_ok found).1

theorem syscall_moves (here : m.tasks t = some task) (phase : task.phase = .user)
    (target : KeepsTarget task.registers cpu.registers)
    (called : m.syscall t task cpu = .ok m') : Moves m t m' := by
  have runs : task.phase.Runs := by
    rw [phase]
    trivial
  have target' := target.trans
    (keepsTarget_set cpu.registers (show pcReg ≠ loadReg by decide) (cpu.registers pcReg + 4))
  unfold syscall at called
  simp only [] at called
  split at called
  · cases called
  · refine exit_moves here runs ?_ called
    exact target'
  · cases called
    refine resume_moves here ?_ target'
    rw [phase]
    exact .exec _
  · refine join_moves here phase ?_ called
    exact target'
  · refine exit_moves here runs ?_ called
    exact target'
  · cases called

theorem userTurn_moves {memory : Vm} (here : m.tasks t = some task) (phase : task.phase = .user)
    (turned : m.userTurn c t task memory = .ok m') : Moves m t m' := by
  have runs : task.phase.Runs := by
    rw [phase]
    trivial
  have onward : Next m t task.phase .user := by
    rw [phase]
    exact .run
  obtain ⟨turn, done, rest⟩ := bind_eq_ok.mp turned
  rcases oneInstruction_registers done with ⟨r, s, rfl, completes⟩ | ⟨which, a, s, rfl⟩
  · cases rest
    exact resume_moves here onward fun _ => completes.sane.target
  · have trapped : KeepsTarget task.registers (trapRegisters task.registers a) :=
      keepsTarget_trap _ a
    split at rest
    · rename_i bad
      cases bad
    · rename_i same
      cases same
      exact syscall_moves here phase trapped rest
    · rename_i same
      cases same
      obtain ⟨served, handled, last⟩ := bind_eq_ok.mp rest
      cases served with
      | none => exact exit_moves here runs trapped last
      | some cpu =>
          cases last
          exact resume_moves here onward (trapped.trans (serve_target handled))

theorem character_moves {left addr v : _} {name : List Byte}
    (here : m.tasks t = some task) (phase : task.phase = .naming (left + 1) addr name)
    (target : KeepsTarget task.registers cpu.registers) :
    Moves m t (m.character t task left addr name v cpu) := by
  unfold character
  split
  · split
    · refine resume_moves here ?_ (target.trans (keepsTarget_set _ (by decide) _))
      rw [phase]
      exact .refuse _ _ _
    · refine resume_moves here ?_ target
      rw [phase]
      exact .found _ _ _ _
  · refine resume_moves here ?_ target
    rw [phase]
    exact .more _ _ _ _ _ _

theorem namingTurn_moves {memory : Vm} {left : Nat} {addr : Word} {name : List Byte}
    (here : m.tasks t = some task) (phase : task.phase = .naming left addr name)
    (turned : m.namingTurn c t task memory left addr name = .ok m') : Moves m t m' := by
  have runs : task.phase.Runs := by
    rw [phase]
    trivial
  cases left with
  | zero =>
      cases turned
      refine resume_moves here ?_ (keepsTarget_set _ (by decide) _)
      rw [phase]
      exact .refuse _ _ _
  | succ left =>
      obtain ⟨first, -, rest⟩ := bind_eq_ok.mp turned
      cases first with
      | value v s =>
          cases rest
          exact character_moves here phase (KeepsTarget.refl _)
      | exception which =>
          have trapped := keepsTarget_trap task.registers addr
          obtain ⟨served, handled, rest⟩ := bind_eq_ok.mp rest
          cases served with
          | none => exact exit_moves here runs trapped rest
          | some cpu =>
              have kept := trapped.trans (serve_target handled)
              obtain ⟨second, -, rest⟩ := bind_eq_ok.mp rest
              cases second with
              | value v s =>
                  cases rest
                  exact character_moves here phase kept
              | exception which =>
                  obtain ⟨served, -, rest⟩ := bind_eq_ok.mp rest
                  cases served with
                  | none => exact exit_moves here runs (kept.trans (keepsTarget_trap _ addr)) rest
                  | some cpu => cases rest

theorem taskTurn_moves {chance : Chance} (here : m.tasks t = some task)
    (turned : m.taskTurn c t chance task = .ok m') : Moves m t m' := by
  unfold taskTurn at turned
  split at turned
  · cases turned
  · rename_i phase
    obtain ⟨memory, -, rest⟩ := bind_eq_ok.mp turned
    exact userTurn_moves here phase rest
  · rename_i phase
    obtain ⟨memory, -, rest⟩ := bind_eq_ok.mp turned
    exact namingTurn_moves here phase rest
  · rename_i phase
    obtain ⟨⟨space, core⟩, -, last⟩ := bind_eq_ok.mp turned
    cases last
    exact .spawns here phase rfl
  · rename_i phase
    obtain ⟨threadlist, acquired, last⟩ := bind_eq_ok.mp turned
    cases last
    exact .places here phase (Table.acquire_extends acquired)
  · rename_i phase
    obtain ⟨⟨result, threadlist⟩, allocated, last⟩ := bind_eq_ok.mp turned
    cases last
    obtain ⟨grows, entry⟩ := Table.allocHeld_extends allocated
    exact .allocates here phase grows entry
  · rename_i phase
    unfold forkingTurn at turned
    split at turned
    · cases turned
    · rename_i there
      cases turned
      exact .forks here phase there
  · rename_i phase
    cases turned
    exact .returns here phase
  · rename_i phase
    obtain ⟨thread, found, rest⟩ := bind_eq_ok.mp turned
    obtain ⟨there, joinable⟩ := joinable_eq_ok found
    split at rest
    · cases rest
    · rename_i signalled
      cases rest
      exact .takes here phase there joinable (Nat.pos_of_ne_zero signalled)
  · rename_i phase
    unfold joinedTurn at turned
    split at turned
    · cases turned
    · rename_i there
      cases turned
      exact .releases here phase there
  · rename_i phase
    cases turned
    refine .goes here ?_ (keepsTarget_set _ (by decide) _) (.inl rfl)
    rw [phase]
    exact .read _ _
  · rename_i phase
    unfold finishingTurn at turned
    split at turned
    · split at turned
      · cases turned
      · rename_i allowed
        cases turned
        refine .dies here phase ?_
        intro _
        omega
    · rename_i single
      cases turned
      have last : Moves m t (m.setTask t { task with mayDie := task.mayDie, phase := .finished }) :=
        .dies here phase fun joining => absurd joining single
      exact last
  · cases turned

/-- **What the turn of a thread can do.** -/
theorem turn_moves {chance : Chance} (turned : m.turn c t chance = .ok m') : Moves m t m' := by
  unfold turn at turned
  split at turned
  · cases turned
  · rename_i task here
    exact taskTurn_moves here turned

/-- What is deleted has finished. -/
theorem delete_cases (deleted : m.delete t = some m') :
    ∃ task, m.tasks t = some task ∧ task.phase = .finished ∧
      m'.tasks = Function.update m.tasks t none ∧ m'.system.live = m.system.live ∧
      m'.system.core.memmanage = m.system.core.memmanage ∧ m'.nextThread = m.nextThread ∧
      m'.threadlist = m.threadlist ∧ m'.issued = m.issued ∧ m'.fate = m.fate := by
  unfold delete at deleted
  split at deleted
  · rename_i here left
    cases deleted
    exact ⟨_, here, rfl, rfl, rfl, rfl, rfl, rfl, rfl, rfl⟩
  · cases deleted

end Inversion

end Processes

end Nachos.UserProg
