/-
# Nachos.UserProg.Join -- what `Join` reports

The status of a child goes through `setExitStatus`, `Finish`, the two semaphores and
`Thread::Join` into the record of the parent, and from there into register 2.  The
rendezvous is right: `Join` returns only when the thread behind the identifier has
exited (`join_reports_zero`, whatever the order of the processes).  The value is not:
`SC_Exit` reads the status, prints it, and calls `setExitStatus(0)`.  So `Join` returns
0, which is the status of the child exactly when that is 0.
-/
import Nachos.UserProg.Claims

namespace Nachos.UserProg

open Nachos.Lib.Bytes
open Nachos.Lib.Run
open Nachos.Machine
open Nachos.Threads (Table)
open Nachos.FileSys (FileSystem OpenFile)

set_option autoImplicit false

/-- The record of the thread holds the status of one that has exited. -/
def Phase.Reports : Phase → Prop
  | .reading _ _ => True
  | .finishing => True
  | .finished => True
  | _ => False

/-- The identifiers the thread works with are those of the table. -/
def Phase.Entered (threadlist : Table) : Phase → Prop
  | .forking fork result => result = -1 ∨ threadlist.get result = .ok (some fork)
  | .returning fork result => result = -1 ∨ threadlist.get result = .ok (some fork)
  | .joining id child => threadlist.get id = .ok (some child)
  | .joined id child => threadlist.get id = .ok (some child)
  | .reading id child => threadlist.get id = .ok (some child)
  | _ => True

namespace Processes

/-- What is known of thread `t`: its record, its identifiers, and its end. -/
structure Settled (threadlist : Table) (fate : Nat → Option (Option Word)) (t : Nat) (task : Task) :
    Prop where
  status : task.phase.Reports → task.exitStatus = 0
  entered : task.phase.Entered threadlist
  running : fate t = none ↔ task.phase.Active
  ended : ∀ id child, task.phase = .reading id child → fate child ≠ none

/-- What is known of the histories. -/
structure Recorded (m : Processes) : Prop where
  settled : ∀ t task, m.tasks t = some task → Settled m.threadlist m.fate t task
  fresh : ∀ t, m.nextThread ≤ t → m.fate t = none
  issues : ∀ id child, m.issued id = some child →
    id = -1 ∨ m.threadlist.get id = .ok (some child)

section Statuses

variable {c : Config} {m m' : Processes} {threadlist threadlist' : Table}
  {fate fate' : Nat → Option (Option Word)} {t : Nat} {task : Task} {phase phase' : Phase}

theorem entered_grows (entered : phase.Entered threadlist)
    (grows : threadlist.Extends threadlist') :
    phase.Entered threadlist' := by
  cases phase with
  | forking fork result => exact entered.imp_right grows.get
  | returning fork result => exact entered.imp_right grows.get
  | joining id child => exact grows.get entered
  | joined id child => exact grows.get entered
  | reading id child => exact grows.get entered
  | _ => trivial

/-- A thread that does not move, while the table grows and another one ends. -/
theorem Settled.keep (settled : Settled threadlist fate t task)
    (grows : threadlist.Extends threadlist') (same : fate' t = fate t)
    (kept : ∀ u, fate u ≠ none → fate' u ≠ none) : Settled threadlist' fate' t task where
  status := settled.status
  entered := entered_grows settled.entered grows
  running := by
    rw [same]
    exact settled.running
  ended := fun id child reading => kept child (settled.ended id child reading)

/-- A thread gets to a place where nothing is reported. -/
theorem Settled.onward {task' : Task} (settled : Settled threadlist fate t task)
    (active : task.phase.Active) (active' : task'.phase.Active)
    (silent : ¬ task'.phase.Reports) (entered : task'.phase.Entered threadlist) :
    Settled threadlist fate t task' where
  status := fun reports => absurd reports silent
  entered := entered
  running := iff_of_true (settled.running.mpr active) active'
  ended := fun id child reading => by
    rw [reading] at silent
    exact absurd trivial silent

/-- The counters of a semaphore are not looked at. -/
theorem Settled.congr {task' : Task} (settled : Settled threadlist fate t task)
    (status : task'.exitStatus = task.exitStatus) (phase : task'.phase = task.phase) :
    Settled threadlist fate t task' where
  status := by
    rw [phase, status]
    exact settled.status
  entered := by
    rw [phase]
    exact settled.entered
  running := by
    rw [phase]
    exact settled.running
  ended := by
    rw [phase]
    exact settled.ended

theorem extends_refl (threadlist : Table) : threadlist.Extends threadlist :=
  ⟨rfl, fun _ _ taken => taken⟩

theorem Next.entered (next : Next m t phase phase') :
    ¬ phase'.Reports ∧ phase'.Entered m.threadlist := by
  cases next with
  | join entry other there => exact ⟨id, entry⟩
  | _ => exact ⟨id, trivial⟩

/-- The table grows, and a thread goes on. -/
theorem Recorded.grows {task' : Task} (recorded : Recorded m) (here : m.tasks t = some task)
    (grows : m.threadlist.Extends threadlist) (active : task.phase.Active)
    (active' : task'.phase.Active)
    (silent : ¬ task'.phase.Reports) (entered : task'.phase.Entered threadlist) :
    Recorded ({ m with threadlist }.setTask t task') := by
  have kept : ∀ u other, m.tasks u = some other → Settled threadlist m.fate u other :=
    fun u other found => (recorded.settled u other found).keep grows rfl fun _ ended => ended
  refine ⟨update_all kept ?_, recorded.fresh, fun id child issued =>
    (recorded.issues id child issued).imp_right grows.get⟩
  exact (kept t task here).onward active active' silent entered

theorem Recorded.exits {registers : Registers} {how : Option Word} {system : System}
    (recorded : Recorded m) (threaded : Threaded m) (here : m.tasks t = some task) :
    Recorded { m.setTask t { task with
        registers
        joinSignal := if task.joining then task.joinSignal + 1 else task.joinSignal
        exitStatus := 0
        phase := .finishing } with
      system
      fate := Function.update m.fate t (some how) } := by
  have low := threaded.lt here
  have kept : ∀ u, m.fate u ≠ none → Function.update m.fate t (some how) u ≠ none := by
    intro u ended
    by_cases same : u = t
    · subst same
      rw [Function.update_self]
      exact Option.some_ne_none _
    · rw [Function.update_of_ne same]
      exact ended
  refine ⟨?_, ?_, recorded.issues⟩
  · intro u other found
    by_cases same : u = t
    · subst same
      cases (Function.update_self _ _ _).symm.trans found
      refine ⟨fun _ => rfl, trivial, iff_of_false ?_ not_false, fun _ _ bad => by cases bad⟩
      show Function.update m.fate u (some how) u ≠ none
      rw [Function.update_self]
      exact Option.some_ne_none _
    · have old := (Function.update_of_ne same _ _).symm.trans found
      exact (recorded.settled u other old).keep (extends_refl _)
        (Function.update_of_ne same _ _) kept
  · intro u high
    have apart : u ≠ t := by
      have : m.nextThread ≤ u := high
      omega
    exact (Function.update_of_ne apart _ _).trans (recorded.fresh u high)

/-- **Every turn keeps the records.** -/
theorem Recorded.moves (threaded : Threaded m) (recorded : Recorded m) (moves : Moves m t m') :
    Recorded m' := by
  cases moves with
  | @goes task registers phase system here next target space =>
      have plain := next.plain
      obtain ⟨silent, entered⟩ := next.entered
      refine ⟨?_, recorded.fresh, recorded.issues⟩
      exact update_all recorded.settled
        ((recorded.settled t task here).onward plain.active plain.active' silent entered)
  | @exits task registers how system here runs target space =>
      exact recorded.exits threaded here
  | @spawns task executable space exitStatus system here phase live =>
      have settled := recorded.settled t task here
      have active : task.phase.Active := by
        rw [phase]
        trivial
      refine ⟨?_, fun u high => recorded.fresh u (Nat.le_of_succ_le high), recorded.issues⟩
      refine update_all (update_all recorded.settled ?_) (settled.onward active trivial id trivial)
      exact ⟨fun bad => bad.elim, trivial,
        iff_of_true (recorded.fresh m.nextThread le_rfl) trivial, fun _ _ bad => by cases bad⟩
  | @places task fork threadlist here phase grows =>
      have active : task.phase.Active := by
        rw [phase]
        trivial
      exact recorded.grows here grows active trivial id trivial
  | @allocates task fork result threadlist here phase grows entry =>
      have active : task.phase.Active := by
        rw [phase]
        trivial
      exact recorded.grows here grows active trivial id entry
  | @forks task thread fork result here phase there =>
      have settled := recorded.settled t task here
      have entered := settled.entered
      rw [phase] at entered
      have active : task.phase.Active := by
        rw [phase]
        trivial
      obtain ⟨suits, -, -⟩ := threaded.claims.claimed here (by rw [phase]; rfl) there
      rw [phase] at suits
      have active' : thread.phase.Active := by
        rw [suits]
        trivial
      refine ⟨update_all (update_all recorded.settled ?_) ?_, recorded.fresh, recorded.issues⟩
      · exact (recorded.settled fork thread there).onward active' trivial id trivial
      · exact settled.onward active trivial id entered
  | @returns task fork result here phase =>
      have settled := recorded.settled t task here
      have entered := settled.entered
      rw [phase] at entered
      have active : task.phase.Active := by
        rw [phase]
        trivial
      refine ⟨update_all recorded.settled (settled.onward active trivial id trivial),
        recorded.fresh, ?_⟩
      intro id child issued
      by_cases same : id = result
      · subst same
        cases (Function.update_self _ _ _).symm.trans issued
        exact entered
      · exact recorded.issues id child ((Function.update_of_ne same _ _).symm.trans issued)
  | @takes task thread id child here phase there joinable signalled =>
      have settled := recorded.settled t task here
      have entered := settled.entered
      rw [phase] at entered
      have active : task.phase.Active := by
        rw [phase]
        trivial
      refine ⟨update_all (update_all recorded.settled ?_) ?_, recorded.fresh, recorded.issues⟩
      · exact (recorded.settled child thread there).congr rfl rfl
      · exact settled.onward active trivial (fun bad => bad.elim) entered
  | @releases task thread id child here phase there =>
      have settled := recorded.settled t task here
      have entered := settled.entered
      rw [phase] at entered
      have active : task.phase.Active := by
        rw [phase]
        trivial
      -- the child is in `Finish`: its status is 0, and it has ended
      obtain ⟨suits, -, -⟩ := threaded.claims.claimed here (by rw [phase]; rfl) there
      rw [phase] at suits
      have settled' := recorded.settled child thread there
      have zero : thread.exitStatus = 0 := by
        apply settled'.status
        rw [suits.1]
        trivial
      have ended : m.fate child ≠ none := by
        rw [Ne, settled'.running, suits.1]
        exact not_false
      refine ⟨update_all (update_all recorded.settled (settled'.congr rfl rfl)) ?_, recorded.fresh,
        recorded.issues⟩
      refine ⟨fun _ => zero, entered, iff_of_true (settled.running.mpr active) trivial, ?_⟩
      intro id' child' reading
      cases reading
      exact ended
  | @dies task mayDie here phase allowed =>
      have settled := recorded.settled t task here
      refine ⟨update_all recorded.settled ?_, recorded.fresh, recorded.issues⟩
      refine ⟨fun _ => ?_, trivial, ?_, fun _ _ bad => by cases bad⟩
      · apply settled.status
        rw [phase]
        trivial
      · have running := settled.running
        rw [phase] at running
        exact running

/-- A thread ends once. -/
theorem Moves.fate_kept {u : Nat} {how : Option Word} (recorded : Recorded m) (moves : Moves m t m')
    (ended : m.fate u = some how) : m'.fate u = some how := by
  cases moves with
  | @exits task registers how' system here runs target space =>
      have other : u ≠ t := by
        rintro rfl
        rw [(recorded.settled u task here).running.mpr (runs_plain runs).2] at ended
        cases ended
      exact (Function.update_of_ne other _ _).trans ended
  | _ => exact ended

theorem Recorded.delete (recorded : Recorded m) (deleted : m.delete t = some m') : Recorded m' := by
  obtain ⟨task, here, phase, tasks, -, -, next, table, issued, fate⟩ := delete_cases deleted
  refine ⟨?_, ?_, ?_⟩
  · intro u other found
    rw [tasks] at found
    by_cases same : u = t
    · subst same
      rw [Function.update_self] at found
      cases found
    · rw [Function.update_of_ne same] at found
      rw [table, fate]
      exact recorded.settled u other found
  · rw [next, fate]
    exact recorded.fresh
  · rw [issued, table]
    exact recorded.issues

theorem boot_recorded {system : System} {executable : OpenFile} {chance : Chance}
    (booted : boot system threadlist executable chance = .ok m) : Recorded m := by
  obtain ⟨⟨space, core⟩, -, last⟩ := bind_eq_ok.mp booted
  cases last
  refine ⟨?_, fun _ _ => rfl, fun _ _ bad => by cases bad⟩
  exact update_all (fun _ _ bad => by cases bad)
    ⟨fun bad => bad.elim, trivial, iff_of_true rfl trivial, fun _ _ bad => by cases bad⟩

/-- Both invariants, and how threads have ended, over a step. -/
theorem recorded_step {l : Label} (known : Threaded m ∧ Recorded m) (moved : m.step c l = some m') :
    (Threaded m' ∧ Recorded m') ∧ ∀ u how, m.fate u = some how → m'.fate u = some how := by
  obtain ⟨threaded, recorded⟩ := known
  cases l with
  | turn t chance =>
      have moves := turn_moves (toOption_eq_some moved)
      exact ⟨⟨threaded.moves moves, recorded.moves threaded moves⟩,
        fun u how ended => moves.fate_kept recorded ended⟩
  | delete t =>
      refine ⟨⟨threaded.delete moved, recorded.delete moved⟩, fun u how ended => ?_⟩
      obtain ⟨-, -, -, -, -, -, -, -, -, fate⟩ := delete_cases moved
      rw [fate]
      exact ended

/-- ... and over a run. -/
theorem recorded_run {labels : List Label} (known : Threaded m ∧ Recorded m)
    (run : exec (step c) m labels = some m') :
    (Threaded m' ∧ Recorded m') ∧ ∀ u how, m.fate u = some how → m'.fate u = some how := by
  induction labels generalizing m with
  | nil =>
      cases run
      exact ⟨known, fun _ _ ended => ended⟩
  | cons l labels ih =>
      obtain ⟨m₁, moved, rest⟩ := exec_cons_eq_some.mp run
      obtain ⟨known₁, kept₁⟩ := recorded_step known moved
      obtain ⟨known', kept'⟩ := ih known₁ rest
      exact ⟨known', fun u how ended => kept' u how (kept₁ u how ended)⟩

/-- A `Join` that is about to return: what it has found. -/
theorem Recorded.reading {id : Int} {child child' : Nat} (recorded : Recorded m)
    (here : m.tasks t = some task) (phase : task.phase = .reading id child)
    (issued : m.issued id = some child') :
    child' = child ∧ m.fate child ≠ none ∧ task.exitStatus = 0 := by
  have settled := recorded.settled t task here
  have entered := settled.entered
  rw [phase] at entered
  have same : child' = child := by
    rcases recorded.issues id child' issued with failed | entry
    · obtain ⟨low, -, -⟩ := Table.get_eq_ok entered
      omega
    · rw [show m.threadlist.get id = _ from entered] at entry
      cases entry
      rfl
  refine ⟨same, settled.ended id child phase, settled.status ?_⟩
  rw [phase]
  trivial

/-- **What `Join` returns.**  In every run of any programs in any order: when a `Join` on
the identifier that `Exec` returned for `child` comes back, the child has exited before,
and register 2 is the status of its `Exit` exactly when that status is 0. -/
theorem join_reports_zero {system : System} {executable : OpenFile} {chance chance' : Chance}
    {start final : Processes} {labels later : List Label} {p child child' : Nat} {id : Int}
    {status : Word}
    (booted : boot system threadlist executable chance = .ok start)
    (run : exec (step c) start labels = some m)
    (here : m.tasks p = some task) (joins : task.phase = .reading id child')
    (issued : m.issued id = some child)
    (returns : m.step c (.turn p chance') = some m')
    (rest : exec (step c) m' later = some final) (exits : final.fate child = some (some status)) :
    m.fate child = some (some status) ∧
      ∃ task', m'.tasks p = some task' ∧ task'.phase = .user ∧
        (task'.registers 2 = status ↔ status = 0) := by
  obtain ⟨⟨threaded, recorded⟩, -⟩ := recorded_run ⟨boot_threaded booted, boot_recorded booted⟩ run
  obtain ⟨rfl, ended, zero⟩ := recorded.reading here joins issued
  obtain ⟨known', kept⟩ := recorded_step ⟨threaded, recorded⟩ returns
  obtain ⟨-, kept'⟩ := recorded_run known' rest
  refine ⟨?_, ?_⟩
  · obtain ⟨how, was⟩ := Option.ne_none_iff_exists'.mp ended
    have := kept' child how (kept child how was)
    rw [exits] at this
    rw [was, this]
  · have turned := toOption_eq_some returns
    simp only [turn, here, taskTurn, joins] at turned
    cases turned
    refine ⟨_, Function.update_self _ _ _, rfl, ?_⟩
    show task.registers.set 2 task.exitStatus 2 = status ↔ _
    rw [Registers.set, Function.update_self, zero]
    exact eq_comm

end Statuses

/-! ## A status that is lost -/

/-- `Exec("b")` with the name at address 32, then `Join` on what it returned. -/
def parentCode : List Byte :=
  [2, 0, 2, 0x24, 32, 0, 4, 0x24, 0x0c, 0, 0, 0, 0x21, 0x20, 0x40, 0, 3, 0, 2, 0x24, 0x0c, 0, 0, 0,
    0, 0, 0, 0, 0, 0, 0, 0, 98, 0] ++ List.replicate 94 0

/-- `Exit(7)`. -/
def childCode : List Byte :=
  [7, 0, 4, 0x24, 1, 0, 2, 0x24, 0x0c, 0, 0, 0] ++ List.replicate 116 0

/-- The two programs, each with the header of a file of one page of code. -/
def familyFiles : FileSystem where
  names := fun name => if name = "a" then some 0 else if name = "b" then some 1 else none
  data := fun file =>
    if file = 0 then sampleFile.take 40 ++ parentCode
    else if file = 1 then sampleFile.take 40 ++ childCode else []
  next := 2

def familySystem : System :=
  { sampleSystem with core := { sampleCore 4 with fileSystem := familyFiles } }

/-- The empty table of `MAX_PROGS` programs. -/
def emptyTable : Table := ⟨fun _ => none, 1023, 0, none⟩

def noChance : Chance := ⟨0, 0⟩

/-- The parent starts the child and waits in `Join`; the child exits; the parent goes on
up to `getExitStatus()`. -/
def familyRun : List Label :=
  List.replicate 15 (.turn 0 noChance) ++ List.replicate 4 (.turn 1 noChance) ++
    List.replicate 2 (.turn 0 noChance)

def isReading (task : Task) (id : Int) (child : Nat) : Bool :=
  match task.phase with
  | .reading id' child' => decide (id' = id ∧ child' = child)
  | _ => false

/-- The machine at that point. -/
def familyBefore : Option Processes :=
  (boot familySystem emptyTable ⟨0⟩ noChance).toOption.bind fun start =>
    exec (step fourFrames) start familyRun

theorem family_before :
    familyBefore.map (fun m => (m.issued 1, m.fate 1, (m.tasks 0).map (isReading · 1 1))) =
      some (some 1, some (some 7), some true) := by
  decide +kernel

theorem family_after :
    (familyBefore.bind fun m => m.step fourFrames (.turn 0 noChance)).map
      (fun m => ((m.tasks 0).map (·.registers 2), m.fate 1)) = some (some 0, some (some 7)) := by
  decide +kernel

theorem isReading_eq {task : Task} {id : Int} {child : Nat}
    (reads : isReading task id child = true) :
    task.phase = .reading id child := by
  unfold isReading at reads
  split at reads
  · rename_i id' child' phase
    obtain ⟨rfl, rfl⟩ := of_decide_eq_true reads
    exact phase
  · cases reads

/-- The run, and the step in which `Join` returns. -/
theorem family_returns : ∃ start m m' task task',
    boot familySystem emptyTable ⟨0⟩ noChance = .ok start ∧
    exec (step fourFrames) start familyRun = some m ∧
    m.tasks 0 = some task ∧ task.phase = .reading 1 1 ∧ m.issued 1 = some 1 ∧
    m.fate 1 = some (some 7) ∧ m.step fourFrames (.turn 0 noChance) = some m' ∧
    m'.fate 1 = some (some 7) ∧ m'.tasks 0 = some task' ∧ task'.registers 2 = 0 := by
  obtain ⟨m, reached, before⟩ := Option.map_eq_some_iff.mp family_before
  obtain ⟨issued, before⟩ := Prod.mk.inj before
  obtain ⟨fate, reads⟩ := Prod.mk.inj before
  obtain ⟨task, here, reading⟩ := Option.map_eq_some_iff.mp reads
  obtain ⟨m', moved, after⟩ := Option.map_eq_some_iff.mp family_after
  rw [reached] at moved
  obtain ⟨register, fate'⟩ := Prod.mk.inj after
  obtain ⟨task', there, two⟩ := Option.map_eq_some_iff.mp register
  obtain ⟨start, booted, run⟩ := Option.bind_eq_some_iff.mp reached
  exact ⟨start, m, m', task, task', toOption_eq_some booted, run, here,
    isReading_eq reading, issued, fate, moved, fate', there, two⟩

/-- The child executes `Exit(7)`, and the `Join` of its parent leaves 0 in register 2. -/
theorem exit_status_lost : ∃ start m m' task task',
    boot familySystem emptyTable ⟨0⟩ noChance = .ok start ∧
    exec (step fourFrames) start familyRun = some m ∧
    m.tasks 0 = some task ∧ task.phase = .reading 1 1 ∧ m.issued 1 = some 1 ∧
    m.fate 1 = some (some 7) ∧ m.step fourFrames (.turn 0 noChance) = some m' ∧
    m'.tasks 0 = some task' ∧ task'.registers 2 ≠ 7 := by
  obtain ⟨start, m, m', task, task', booted, run, here, reads, issued, fate, moved, -,
      there, two⟩ :=
    family_returns
  refine ⟨start, m, m', task, task', booted, run, here, reads, issued, fate, moved, there, ?_⟩
  rw [two]
  decide

theorem join_reports_zero_family : ∃ m m' : Processes, m.fate 1 = some (some 7) ∧
    ∃ task', m'.tasks 0 = some task' ∧ task'.phase = .user ∧
      (task'.registers 2 = 7 ↔ (7 : Word) = 0) := by
  obtain ⟨start, m, m', task, task', booted, run, here, reads, issued, -, moved, fate', -, -⟩ :=
    family_returns
  exact ⟨m, m', join_reports_zero booted run here reads issued moved (exec_nil m') fate'⟩

end Processes

end Nachos.UserProg
