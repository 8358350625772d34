/-
# Nachos.UserProg.Crash -- what a program can do to the kernel

A turn of a thread crashes the kernel when it neither returns, nor waits, nor is the
`Halt` the program asked for: an `ASSERT` fails, an array is left, an object that is gone
is used, the host faults, or a loop does not end.  The kernel does not keep programs from
that.  `Careful` lists, place by place, what it takes for granted: of an instruction and
its page faults (`Tame`), of the code and the arguments of a system call, of the file
`Exec` is given, of the table of programs (its lock included, which an `Exec` that found no
entry keeps), and of the thread a `Join` waits for.

`kernel_survives`: in a run whose turns are all careful no turn crashes the kernel, and no
turn takes the memory of another process away.
-/
import Nachos.UserProg.Join
import Nachos.UserProg.Traps

namespace Nachos.UserProg

open Nachos.Lib.Bytes
open Nachos.Lib.Run
open Nachos.Machine
open Nachos.Threads (Table)
open Nachos.FileSys (FileSystem OpenFile)

set_option autoImplicit false

namespace Processes

/-- The kernel stops in the turn of a thread. -/
def Crashes (c : Config) (m : Processes) : Label → Prop
  | .turn t chance => ∃ e, m.turn c t chance = .error e ∧ e ≠ .blocked ∧ e ≠ .halted
  | .delete _ => False

/-! ## What the kernel takes for granted -/

/-- A `Join` can wait for this thread. -/
def Joinable (m : Processes) (child : Nat) : Prop :=
  ∃ thread, m.tasks child = some thread ∧ thread.joining = true

/-- A system call with these registers: its code is one the handler knows, and what is
joined is another thread of the table that is still there. -/
def GoodCall (m : Processes) (t : Nat) (r : Registers) : Prop :=
  match syscallOf (r 2) with
  | .other => False
  | .join => ∃ child, m.threadlist.get (r 4).toInt = .ok (some child) ∧ child ≠ t ∧ m.Joinable child
  | _ => True

/-- `Initialize` finds a header, of a program of fewer than `2^25` pages. -/
def HasProgram (fs : FileSystem) (executable : OpenFile) : Prop :=
  ∃ noffH, readHeader fs executable = .ok noffH ∧ imagePages noffH < 2 ^ 25

/-- What the turn of a thread needs, by the place it is at. -/
def Ready (c : Config) (m : Processes) (t : Nat) (task : Task) : Prop :=
  match task.phase with
  | .user => ∀ space, m.system.live t = some space →
      Tame c task.registers ⟨m.system.core, space⟩ ∧
        (AtSyscall c task.registers ⟨m.system.core, space⟩ →
          m.GoodCall t (trapRegisters task.registers 0))
  | .naming left addr _ => ∀ space, m.system.live t = some space → 0 < left →
      Backed c ⟨m.system.core, space⟩ addr 1
  | .loading executable => HasProgram m.system.core.fileSystem executable
  | .placing _ => m.threadlist.accessLock ≠ some t
  | .allocating _ => m.threadlist.HasRoom
  | .joining _ child => m.Joinable child
  | _ => True

/-- The condition on a step, in the state before it. -/
def Careful (c : Config) (m : Processes) : Label → Prop
  | .turn t _ => ∀ task, m.tasks t = some task → m.Ready c t task
  | .delete _ => True

section Decidable

variable (c : Config) (m : Processes) (t : Nat) (task : Task) (r : Registers)

instance (child : Nat) : Decidable (m.Joinable child) :=
  match there : m.tasks child with
  | none => isFalse (by simp [Joinable, there])
  | some thread => decidable_of_iff (thread.joining = true) (by simp [Joinable, there])

instance : Decidable (m.GoodCall t r) :=
  match call : syscallOf (r 2) with
  | .other => isFalse (by simp [GoodCall, call])
  | .join =>
      match entry : m.threadlist.get (r 4).toInt with
      | .error _ => isFalse (by simp [GoodCall, call, entry])
      | .ok none => isFalse (by simp [GoodCall, call, entry])
      | .ok (some child) => decidable_of_iff (child ≠ t ∧ m.Joinable child)
          (by simp [GoodCall, call, entry])
  | .halt => isTrue (by simp [GoodCall, call])
  | .exit => isTrue (by simp [GoodCall, call])
  | .exec => isTrue (by simp [GoodCall, call])
  | .write => isTrue (by simp [GoodCall, call])

instance (fs : FileSystem) (executable : OpenFile) : Decidable (HasProgram fs executable) :=
  inferInstanceAs (Decidable (∃ noffH, readHeader fs executable = .ok noffH ∧
    imagePages noffH < 2 ^ 25))

instance : Decidable (m.Ready c t task) :=
  match place : task.phase with
  | .user => decidable_of_iff (∀ space, m.system.live t = some space →
      Tame c task.registers ⟨m.system.core, space⟩ ∧
        (AtSyscall c task.registers ⟨m.system.core, space⟩ →
          m.GoodCall t (trapRegisters task.registers 0))) (by simp only [Ready, place])
  | .naming left addr name => decidable_of_iff (∀ space, m.system.live t = some space → 0 < left →
      Backed c ⟨m.system.core, space⟩ addr 1) (by simp only [Ready, place])
  | .loading executable => decidable_of_iff (HasProgram m.system.core.fileSystem executable)
      (by simp only [Ready, place])
  | .allocating _ => decidable_of_iff m.threadlist.HasRoom (by simp only [Ready, place])
  | .joining _ child => decidable_of_iff (m.Joinable child) (by simp only [Ready, place])
  | .created => isTrue (by simp only [Ready, place])
  | .placing _ => decidable_of_iff (m.threadlist.accessLock ≠ some t) (by simp only [Ready, place])
  | .forking _ _ => isTrue (by simp only [Ready, place])
  | .returning _ _ => isTrue (by simp only [Ready, place])
  | .joined _ _ => isTrue (by simp only [Ready, place])
  | .reading _ _ => isTrue (by simp only [Ready, place])
  | .finishing => isTrue (by simp only [Ready, place])
  | .finished => isTrue (by simp only [Ready, place])

instance (l : Label) : Decidable (m.Careful c l) :=
  match l with
  | .turn t _ => inferInstanceAs (Decidable (∀ task, m.tasks t = some task → m.Ready c t task))
  | .delete _ => isTrue trivial

end Decidable

/-! ## Turns that do not crash -/

/-- The turn returns with the frames in order, or the thread waits, or the machine halts. -/
def Goes (c : Config) : Except Stop Processes → Prop
  | .ok m => Sound c m.system
  | .error e => e = .blocked ∨ e = .halted

section Turns

variable {c : Config} {m m' : Processes} {t : Nat} {task : Task} {cpu : Cpu Vm} {s : Vm}

theorem sound_fit {sys : System} {space : AddrSpace} (sound : Sound c sys)
    (live : sys.live t = some space) : Fit c (sys.others t) ⟨sys.core, space⟩ :=
  ⟨sound.owns live, sound.numbered t space live, sound.small t space live⟩

theorem sound_resume (sound : Sound c m.system) (fit : Fit c (m.system.others t) s) :
    Sound c (m.system.resume t s) :=
  sound.resume fit.owns fit.numbered fit.small

/-- A process that is ended returns its frames. -/
theorem exit_goes {how : Option Word} (sound : Sound c m.system)
    (fit : Fit c (m.system.others t) cpu.memory) : Goes c (m.exit t task cpu how) := by
  have resumed : Sound c (m.system.resume t cpu.memory) := sound_resume sound fit
  have live : (m.system.resume t cpu.memory).live t = some cpu.memory.toAddrSpace := by
    rw [resume_live, if_pos rfl]
  obtain ⟨mm, cleared, -⟩ := clearStateBelow_frees (n := cpu.memory.numPages) resumed.manages
    fun i => resumed.bounded t cpu.memory.toAddrSpace i live
  have freed : clearState (m.system.resume t cpu.memory).core cpu.memory.toAddrSpace =
      .ok { (m.system.resume t cpu.memory).core with memmanage := mm } := by
    rw [clearState, cleared]
    rfl
  rw [exit, freed, ok_bind]
  refine finish_sound resumed live ?_
  rw [System.finish, freed]

theorem character_goes {left : Nat} {addr v : Word} {name : List Byte} (sound : Sound c m.system)
    (fit : Fit c (m.system.others t) cpu.memory) :
    Sound c (m.character t task left addr name v cpu).system := by
  unfold character
  split
  · split
    · exact sound_resume sound fit
    · exact sound_resume sound fit
  · exact sound_resume sound fit

theorem joinable_total {child : Nat} (joinable : m.Joinable child) :
    ∃ thread, m.joinable child = .ok thread ∧ m.tasks child = some thread := by
  obtain ⟨thread, there, joining⟩ := joinable
  refine ⟨thread, ?_, there⟩
  simp only [Processes.joinable, there, joining]
  rfl

theorem syscall_goes (sound : Sound c m.system) (fit : Fit c (m.system.others t) cpu.memory)
    (good : m.GoodCall t cpu.registers) : Goes c (m.syscall t task cpu) := by
  have same : ∀ n, n ≠ pcReg →
      cpu.registers.set pcReg (cpu.registers pcReg + 4) n = cpu.registers n :=
    fun n other => Function.update_of_ne other _ _
  unfold syscall
  unfold GoodCall at good
  simp only [same 2 (by decide), same 4 (by decide)]
  split
  · exact Or.inr rfl
  · exact exit_goes sound fit
  · exact sound_resume sound fit
  · rename_i call
    rw [call] at good
    obtain ⟨child, entry, other, joinable⟩ := good
    obtain ⟨thread, found, -⟩ := joinable_total joinable
    simp only [join, same 4 (by decide), entry, ok_bind, found, ne_eq, other, not_false_iff,
      decide_true, ASSERT_true]
    exact sound_resume sound fit
  · exact exit_goes sound fit
  · rename_i call
    rw [call] at good
    exact good.elim

theorem userTurn_goes {space : AddrSpace} (sound : Sound c m.system)
    (live : m.system.live t = some space) (target : (task.registers loadReg).toNat < numGPRegs)
    (tame : Tame c task.registers ⟨m.system.core, space⟩)
    (call : AtSyscall c task.registers ⟨m.system.core, space⟩ →
      m.GoodCall t (trapRegisters task.registers 0)) :
    Goes c (m.userTurn c t task ⟨m.system.core, space⟩) := by
  have fit := sound_fit sound live
  obtain ⟨turn, done, handled⟩ := oneInstruction_total fit tame
  rw [userTurn, done, ok_bind]
  cases handled with
  | completed fit' => exact sound_resume sound fit'
  | called fit' calls => exact syscall_goes sound fit' (call calls)
  | @excepted which a s' fit' survivable =>
      have bad := trapRegisters_badVAddr a target
      have notCall : which ≠ .syscallException := by
        rintro rfl
        exact survivable
      rcases serve_total fit' bad survivable with ended | ⟨r', s'', served, fit'', -, -⟩
      · cases which <;> simp only [ended, ok_bind] <;>
          first | exact exit_goes sound fit' | exact absurd rfl notCall
      · cases which <;> simp only [served, ok_bind] <;>
          first | exact sound_resume sound fit'' | exact absurd rfl notCall

theorem namingTurn_goes {space : AddrSpace} {left : Nat} {addr : Word} {name : List Byte}
    (sound : Sound c m.system) (live : m.system.live t = some space)
    (target : (task.registers loadReg).toNat < numGPRegs)
    (backed : 0 < left → Backed c ⟨m.system.core, space⟩ addr 1) :
    Goes c (m.namingTurn c t task ⟨m.system.core, space⟩ left addr name) := by
  have fit := sound_fit sound live
  cases left with
  | zero => exact sound_resume sound fit
  | succ left =>
      rcases readMem_total fit addr (Or.inl rfl) with
        ⟨-, -, -, v, read⟩ | ⟨which, failed, excepts⟩
      · simp only [namingTurn, read, ok_bind]
        exact character_goes sound fit.touch
      · have bad := trapRegisters_badVAddr addr target
        have survivable := excepts.survivable (backed (Nat.succ_pos left))
        simp only [namingTurn, failed, ok_bind]
        rcases serve_total fit bad survivable with ended | ⟨r', s', served, fit', inside', valid'⟩
        · simp only [ended, ok_bind]
          exact exit_goes sound fit
        · -- the page has come in, so the second try reads the character
          have aligned : Aligned addr 1 := ⟨Or.inl rfl, Nat.mod_one _⟩
          obtain ⟨f, -, -, read⟩ :=
            readMem_valid fit'.owns aligned inside' (fit'.numbered _ inside') valid'
          simp only [served, read, ok_bind]
          exact character_goes sound fit'.touch

theorem initializeSpace_total {core : Core} {executable : OpenFile} {noffH : NoffHeader}
    (header : readHeader core.fileSystem executable = .ok noffH) (clockHand : Int) :
    ∃ space core', initializeSpace core executable clockHand = .ok (space, core') := by
  obtain ⟨file, opened, -⟩ := core.fileSystem.open_create
    (backingName (BitVec.ofNat 32 (imagePages noffH * pageSize)))
  rw [initializeSpace, header, ok_bind]
  simp only [BackingStore.create, opened]
  exact ⟨_, _, rfl⟩

theorem loadingTurn_goes {executable : OpenFile} {chance : Chance} (sound : Sound c m.system)
    (unused : m.system.live m.nextThread = none)
    (program : HasProgram m.system.core.fileSystem executable) :
    Goes c (m.loadingTurn t task executable chance) := by
  obtain ⟨noffH, header, small⟩ := program
  obtain ⟨space, core, init⟩ := initializeSpace_total header chance.clockHand
  obtain ⟨noffH', starts⟩ := initializeSpace_starts init
  have same : noffH' = noffH := by
    have := starts.header
    rw [header] at this
    cases this
    rfl
  subst same
  simp only [loadingTurn, init, ok_bind]
  exact (launch_sound sound unused starts small).congr rfl rfl

end Turns

/-! ## Runs that do not crash -/

/-- What a thread needs to run: memory, and a pending load into a general register. -/
structure Equipped (live : Nat → Option AddrSpace) (t : Nat) (task : Task) : Prop where
  space : task.phase.Active → ∃ space, live t = some space
  target : (task.registers loadReg).toNat < numGPRegs

/-- The invariant of the runs that do not crash. -/
structure Sane (c : Config) (m : Processes) : Prop where
  threaded : Threaded m
  sound : Sound c m.system
  equipped : ∀ t task, m.tasks t = some task → Equipped m.system.live t task
  unused : ∀ t, m.nextThread ≤ t → m.system.live t = none

section Survival

variable {c : Config} {m m' : Processes} {t : Nat} {task : Task}

theorem taskTurn_goes {chance : Chance} (sane : Sane c m) (here : m.tasks t = some task)
    (ready : m.Ready c t task) : Goes c (m.taskTurn c t chance task) := by
  have equipped := sane.equipped t task here
  unfold taskTurn
  unfold Ready at ready
  cases phase : task.phase with
  | created => exact Or.inl rfl
  | user =>
      rw [phase] at ready
      obtain ⟨space, live⟩ := equipped.space (by rw [phase]; trivial)
      obtain ⟨tame, call⟩ := ready space live
      simp only [memoryOf, live, pure_eq_ok, ok_bind]
      exact userTurn_goes sane.sound live equipped.target tame call
  | naming left addr name =>
      rw [phase] at ready
      obtain ⟨space, live⟩ := equipped.space (by rw [phase]; trivial)
      simp only [memoryOf, live, pure_eq_ok, ok_bind]
      exact namingTurn_goes sane.sound live equipped.target (ready space live)
  | loading executable =>
      rw [phase] at ready
      exact loadingTurn_goes sane.sound (sane.unused _ le_rfl) ready
  | placing fork =>
      rw [phase] at ready
      simp only [placingTurn, Table.acquire]
      split
      · rename_i holder held
        have other : holder ≠ t := by
          rintro rfl
          exact ready held
        rw [if_neg other]
        exact Or.inl rfl
      · exact sane.sound
  | allocating fork =>
      rw [phase] at ready
      obtain ⟨⟨result, threadlist⟩, allocated⟩ := Table.allocHeld_ok ready fork
      simp only [allocatingTurn, allocated, ok_bind]
      exact sane.sound
  | forking fork result =>
      obtain ⟨thread, there, -⟩ := sane.threaded.claims.suits t task fork here (by rw [phase]; rfl)
      simp only [forkingTurn, there]
      exact sane.sound
  | returning fork result => exact sane.sound
  | joining id child =>
      rw [phase] at ready
      obtain ⟨thread, found, there⟩ := joinable_total ready
      simp only [joiningTurn, found, ok_bind]
      split
      · exact Or.inl rfl
      · exact sane.sound
  | joined id child =>
      obtain ⟨thread, there, -⟩ := sane.threaded.claims.suits t task child here (by rw [phase]; rfl)
      simp only [joinedTurn, there]
      exact sane.sound
  | reading id child => exact sane.sound
  | finishing =>
      simp only [finishingTurn]
      split
      · split
        · exact Or.inl rfl
        · exact sane.sound
      · exact sane.sound
  | finished => exact Or.inl rfl

theorem turn_goes {chance : Chance} (sane : Sane c m) (careful : m.Careful c (.turn t chance)) :
    Goes c (m.turn c t chance) := by
  unfold turn
  split
  · exact Or.inl rfl
  · rename_i task here
    exact taskTurn_goes sane here (careful task here)

theorem Equipped.mono {live live' : Nat → Option AddrSpace} (equipped : Equipped live t task)
    (kept : live' t = live t) : Equipped live' t task := by
  refine ⟨fun active => ?_, equipped.target⟩
  rw [kept]
  exact equipped.space active

/-- A thread that stays in the kernel, or comes back from it. -/
theorem Equipped.phase {live : Nat → Option AddrSpace} {phase : Phase}
    (equipped : Equipped live t task) (active : task.phase.Active) :
    Equipped live t { task with phase } :=
  ⟨fun _ => equipped.space active, equipped.target⟩

theorem KeepsSpace.cases {sys sys' : System} (keeps : KeepsSpace sys t sys')
    (some_ : ∃ space, sys.live t = some space) :
    (∃ space, sys'.live t = some space) ∧ ∀ u, u ≠ t → sys'.live u = sys.live u := by
  rcases keeps with same | ⟨space, changed⟩
  · rw [same]
    exact ⟨some_, fun _ _ => rfl⟩
  · rw [changed]
    exact ⟨⟨space, Function.update_self _ _ _⟩, fun u other => Function.update_of_ne other _ _⟩

/-- **A turn keeps the threads equipped**, and leaves the memory of the others alone. -/
theorem Sane.moves (sane : Sane c m) (moves : Moves m t m') :
    (∀ u task, m'.tasks u = some task → Equipped m'.system.live u task) ∧
      (∀ u, m'.nextThread ≤ u → m'.system.live u = none) ∧
      ∀ u space, u ≠ t → m.system.live u = some space → m'.system.live u = some space := by
  have kept := sane.equipped
  cases moves with
  | @goes task registers phase system here next target space =>
      have plain := next.plain
      have mine := kept t task here
      have low := sane.threaded.lt here
      obtain ⟨mine', others⟩ := space.cases (mine.space plain.active)
      refine ⟨update_others ?_ ⟨fun _ => mine', target mine.target⟩, ?_, ?_⟩
      · intro u other ne found
        exact (kept u other found).mono (others u ne)
      · intro u high
        have high' : m.nextThread ≤ u := high
        exact (others u (by omega)).trans (sane.unused u high')
      · intro u space ne live
        exact (others u ne).trans live
  | @exits task registers how system here runs target space =>
      have mine := kept t task here
      have low := sane.threaded.lt here
      have others : ∀ u, u ≠ t → system.live u = m.system.live u := by
        intro u ne
        rw [space, Function.update_of_ne ne]
      refine ⟨update_others ?_ ⟨fun active => active.elim, target mine.target⟩, ?_, ?_⟩
      · intro u other ne found
        exact (kept u other found).mono (others u ne)
      · intro u high
        have high' : m.nextThread ≤ u := high
        exact (others u (by omega)).trans (sane.unused u high')
      · intro u space ne live
        exact (others u ne).trans live
  | @spawns task executable space exitStatus system here phase live =>
      have mine := kept t task here
      have low := sane.threaded.lt here
      have others : ∀ u, u ≠ m.nextThread → system.live u = m.system.live u := by
        intro u ne
        rw [live, Function.update_of_ne ne]
      refine ⟨update_others ?_ ?_, ?_, ?_⟩
      · intro u other ne
        refine update_others ?_ ?_ u other
        · intro v other' ne' found
          exact (kept v other' found).mono (others v ne')
        · refine ⟨fun _ => ⟨space, ?_⟩, (initRegisters_sane space.numPages).target⟩
          show system.live m.nextThread = _
          rw [live, Function.update_self]
      · exact (mine.phase (by rw [phase]; trivial)).mono (others t (by omega))
      · intro u high
        have high' : m.nextThread + 1 ≤ u := high
        exact (others u (by omega)).trans (sane.unused u (by omega))
      · intro u space' ne found
        refine (others u ?_).trans found
        rintro rfl
        rw [sane.unused _ le_rfl] at found
        cases found
  | @places task fork threadlist here phase grows =>
      refine ⟨update_all kept ?_, sane.unused, fun _ _ _ live => live⟩
      exact (kept t task here).phase (by rw [phase]; trivial)
  | @allocates task fork result threadlist here phase grows entry =>
      refine ⟨update_all kept ?_, sane.unused, fun _ _ _ live => live⟩
      exact (kept t task here).phase (by rw [phase]; trivial)
  | @forks task thread fork result here phase there =>
      obtain ⟨suits, -, -⟩ := sane.threaded.claims.claimed here (by rw [phase]; rfl) there
      rw [phase] at suits
      refine ⟨update_all (update_all kept ?_) ?_, sane.unused, fun _ _ _ live => live⟩
      · exact (kept fork thread there).phase (by rw [suits]; trivial)
      · exact (kept t task here).phase (by rw [phase]; trivial)
  | @returns task fork result here phase =>
      have mine := kept t task here
      refine ⟨update_all kept ?_, sane.unused, fun _ _ _ live => live⟩
      exact ⟨fun _ => mine.space (by rw [phase]; trivial),
        keepsTarget_set _ (by decide) _ mine.target⟩
  | @takes task thread id child here phase there joinable signalled =>
      have other := kept child thread there
      refine ⟨update_all (update_all kept ⟨other.space, other.target⟩) ?_, sane.unused,
        fun _ _ _ live => live⟩
      exact (kept t task here).phase (by rw [phase]; trivial)
  | @releases task thread id child here phase there =>
      have other := kept child thread there
      have mine := kept t task here
      refine ⟨update_all (update_all kept ⟨other.space, other.target⟩) ?_, sane.unused,
        fun _ _ _ live => live⟩
      exact ⟨fun _ => mine.space (by rw [phase]; trivial), mine.target⟩
  | @dies task mayDie here phase allowed =>
      have mine := kept t task here
      exact ⟨update_all kept ⟨fun active => active.elim, mine.target⟩, sane.unused,
        fun _ _ _ live => live⟩

/-- The thread of a step. -/
def Label.thread : Label → Nat
  | .turn t _ => t
  | .delete t => t

/-- The step does not crash the kernel, and the other processes keep their memory. -/
structure Survives (c : Config) (m : Processes) (l : Label) : Prop where
  runs : ¬ m.Crashes c l
  spares : ∀ m', m.step c l = some m' → ∀ u space, u ≠ Label.thread l →
    m.system.live u = some space → m'.system.live u = some space

theorem Sane.survives {l : Label} (sane : Sane c m) (careful : m.Careful c l) : m.Survives c l := by
  cases l with
  | turn t chance =>
      have goes : Goes c (m.turn c t chance) := turn_goes sane careful
      refine ⟨?_, fun m' moved => (sane.moves (turn_moves (toOption_eq_some moved))).2.2⟩
      rintro ⟨e, stopped, notBlocked, notHalted⟩
      rw [stopped] at goes
      rcases goes with blocked | halted
      · exact notBlocked blocked
      · exact notHalted halted
  | delete t =>
      refine ⟨id, fun m' moved u space _ live => ?_⟩
      obtain ⟨-, -, -, -, same, -⟩ := delete_cases moved
      rw [same]
      exact live

theorem Sane.step {l : Label} (sane : Sane c m) (careful : m.Careful c l)
    (moved : m.step c l = some m') : Sane c m' := by
  have threaded := sane.threaded.step moved
  cases l with
  | turn t chance =>
      have turned := toOption_eq_some moved
      have goes : Goes c (m.turn c t chance) := turn_goes sane careful
      rw [turned] at goes
      obtain ⟨equipped, unused, -⟩ := sane.moves (turn_moves turned)
      exact ⟨threaded, goes, equipped, unused⟩
  | delete t =>
      obtain ⟨task, here, phase, tasks, live, memmanage, next, -⟩ := delete_cases moved
      refine ⟨threaded, sane.sound.congr memmanage live, ?_, ?_⟩
      · intro u other found
        rw [tasks] at found
        rw [live]
        by_cases same : u = t
        · subst same
          rw [Function.update_self] at found
          cases found
        · rw [Function.update_of_ne same] at found
          exact sane.equipped u other found
      · rw [next, live]
        exact sane.unused

theorem boot_sane {system : System} {threadlist : Table} {executable : OpenFile} {chance : Chance}
    (booted : Booted c system) (program : HasProgram system.core.fileSystem executable)
    (starts : boot system threadlist executable chance = .ok m) : Sane c m := by
  have threaded := boot_threaded starts
  obtain ⟨⟨space, core⟩, init, last⟩ := bind_eq_ok.mp starts
  cases last
  obtain ⟨noffH, header, small⟩ := program
  obtain ⟨noffH', begins⟩ := initializeSpace_starts init
  have same : noffH' = noffH := by
    have := begins.header
    rw [header] at this
    cases this
    rfl
  subst same
  refine ⟨threaded, (launch_sound booted.sound (booted.live 0) begins small).congr rfl rfl, ?_, ?_⟩
  · refine update_all (fun _ _ bad => by cases bad) ⟨fun _ => ⟨space, ?_⟩, ?_⟩
    · show Function.update system.live 0 (some space) 0 = _
      rw [Function.update_self]
    · exact (initRegisters_sane space.numPages).target
  · intro t high
    have other : t ≠ 0 := by
      rintro rfl
      cases high
    show Function.update system.live 0 (some space) t = none
    rw [Function.update_of_ne other]
    exact booted.live t

/-- **The kernel survives careful programs.**  In every run, of any programs in any order,
whose steps are all careful, no step crashes the kernel and no step takes from a process
other than its own the memory it has. -/
theorem kernel_survives {system : System} {threadlist : Table} {executable : OpenFile}
    {chance : Chance} {labels : List Label} (booted : Booted c system)
    (program : HasProgram system.core.fileSystem executable)
    (starts : boot system threadlist executable chance = .ok m)
    (careful : AllSteps (step c) (Careful c) m labels) :
    AllSteps (step c) (Survives c) m labels := by
  refine allSteps_of_invariant (I := Sane c) ?_ ?_ (boot_sane booted program starts) careful
  · intro m l m' sane careful moved
    exact sane.step careful moved
  · intro m l sane careful
    exact sane.survives careful

end Survival

theorem family_careful :
    (boot familySystem emptyTable ⟨0⟩ noChance).toOption.map (fun start =>
      decide (AllSteps (step fourFrames) (Careful fourFrames) start familyRun)) = some true := by
  decide +kernel

theorem familySystem_booted : Booted fourFrames familySystem :=
  ⟨⟨rfl, rfl⟩, sample_booted.free, fun _ => rfl, fun _ => rfl⟩

theorem family_program : HasProgram familySystem.core.fileSystem ⟨0⟩ := by
  decide +kernel

/-- A run with `Exec`, `Join` and `Exit`. -/
theorem kernel_survives_family : ∃ start,
    boot familySystem emptyTable ⟨0⟩ noChance = .ok start ∧
      AllSteps (step fourFrames) (Survives fourFrames) start familyRun := by
  obtain ⟨start, booted, careful⟩ := Option.map_eq_some_iff.mp family_careful
  exact ⟨start, toOption_eq_some booted, kernel_survives familySystem_booted family_program
    (toOption_eq_some booted) (of_decide_eq_true careful)⟩

/-! ## Programs that crash the kernel -/

/-- A machine with one program of these instructions. -/
def straySystem (code : List Byte) : System :=
  { sampleSystem with core := { sampleCore 4 with fileSystem :=
      { names := fun name => if name = "a" then some 0 else none
        data := fun file =>
          if file = 0 then sampleFile.take 40 ++ code ++ List.replicate
            (128 - code.length) 0 else []
        next := 1 } } }

/-- How the kernel stops in the turn after the first `n`, if it does. -/
def stopsAfter (code : List Byte) (n : Nat) : Option Stop :=
  ((boot (straySystem code) emptyTable ⟨0⟩ noChance).toOption.bind fun start =>
    exec (step fourFrames) start (List.replicate n (.turn 0 noChance))).bind fun m =>
      match m.turn fourFrames 0 noChance with
      | .error e => some e
      | .ok _ => none

/-- `addiu r2, r0, 9`, `syscall`. -/
def strayCall : List Byte := [9, 0, 2, 0x24, 0x0c, 0, 0, 0]

/-- `lwl r1, 1(r0)`. -/
def strayLoad : List Byte := [1, 0, 1, 0x88]

/-- `lui r1, 0x8000`, `addiu r2, r0, -1`, `div r1, r2`. -/
def strayDivision : List Byte := [0, 0x80, 1, 0x3c, 0xff, 0xff, 2, 0x24, 0x1a, 0, 0x22, 0]

/-- `Join(5)`, with no program 5. -/
def strayJoin : List Byte := [5, 0, 4, 0x24, 3, 0, 2, 0x24, 0x0c, 0, 0, 0]

/-- `Join(-1)`, outside of the table. -/
def strayIndex : List Byte := [0xff, 0xff, 4, 0x24, 3, 0, 2, 0x24, 0x0c, 0, 0, 0]

/-- An unknown system call and an unaligned partial load end in an `ASSERT`, the division
and the missing entry in a fault of the host, and the index in memory that is not the
table's. -/
theorem stray_stops :
    [stopsAfter strayCall 2, stopsAfter strayLoad 1, stopsAfter strayDivision 3,
      stopsAfter strayJoin 3, stopsAfter strayIndex 3] =
    [some .assertion, some .assertion, some .hostFault, some .hostFault, some .outOfBounds] := by
  decide +kernel

theorem stopsAfter_crashes {code : List Byte} {n : Nat} {e : Stop}
    (stops : stopsAfter code n = some e) (running : e ≠ .blocked) (unasked : e ≠ .halted) :
    ∃ start m, boot (straySystem code) emptyTable ⟨0⟩ noChance = .ok start ∧
      exec (step fourFrames) start (List.replicate n (.turn 0 noChance)) = some m ∧
      m.Crashes fourFrames (.turn 0 noChance) := by
  obtain ⟨m, reached, turned⟩ := Option.bind_eq_some_iff.mp stops
  obtain ⟨start, booted, run⟩ := Option.bind_eq_some_iff.mp reached
  refine ⟨start, m, toOption_eq_some booted, run, ?_⟩
  split at turned
  · rename_i e' stopped
    cases turned
    exact ⟨_, stopped, running, unasked⟩
  · cases turned

/-- The system call of code 9, which the handler does not know: `ASSERT(FALSE)`. -/
theorem unknown_call_crashes : Booted fourFrames (straySystem strayCall) ∧ ∃ start m,
    boot (straySystem strayCall) emptyTable ⟨0⟩ noChance = .ok start ∧
      exec (step fourFrames) start [.turn 0 noChance, .turn 0 noChance] = some m ∧
      m.Crashes fourFrames (.turn 0 noChance) := by
  refine ⟨⟨⟨rfl, rfl⟩, sample_booted.free, fun _ => rfl, fun _ => rfl⟩, ?_⟩
  have stops : stopsAfter strayCall 2 = some .assertion := (List.cons.inj stray_stops).1
  exact stopsAfter_crashes stops (by decide) (by decide)

end Processes

end Nachos.UserProg
