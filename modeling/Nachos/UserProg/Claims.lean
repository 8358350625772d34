/-
# Nachos.UserProg.Claims -- which thread is in whose hands

The invariant over all threads of the kernel, in every run and with nothing assumed of
the programs.  A thread that is being made is in the hands of the one `Exec` that makes
it, and a thread whose `joinSignal` was taken waits in `Finish` for the one `Join` that
took it (`Claims`).  The semaphores of a thread count its end: before `Finish` both are
zero, in `Finish` at most one of them is 1 (`Task.Counted`).

`Claims.change` and `Claims.exchange` are the two ways a step keeps the claims: one
thread changes alone, or together with the one it claims.
-/
import Nachos.UserProg.Processes

namespace Nachos.UserProg

open Nachos.Lib.Bytes
open Nachos.Machine
open Nachos.Threads (Table)
open Nachos.FileSys (OpenFile)

set_option autoImplicit false

/-- It has not exited. -/
def Phase.Active : Phase → Prop
  | .finishing => False
  | .finished => False
  | _ => True

/-- The thread this one has to itself: the one it makes, or the one whose signal it took. -/
def Phase.claim : Phase → Option Nat
  | .placing fork => some fork
  | .allocating fork => some fork
  | .forking fork _ => some fork
  | .joined _ child => some child
  | _ => none

/-- What is known of that thread meanwhile. -/
def Phase.Suits : Phase → Task → Prop
  | .joined _ _, thread =>
      thread.phase = .finishing ∧ thread.joining = true ∧ thread.joinSignal = 0 ∧ thread.mayDie = 0
  | _, thread => thread.phase = .created

/-- The two semaphores of a thread that can be joined: signalled by `Finish`, and before
and after that not at all. -/
def Task.Counted (task : Task) : Prop :=
  task.joining = true →
    match task.phase with
    | .finishing => task.joinSignal + task.mayDie ≤ 1
    | _ => task.joinSignal = 0 ∧ task.mayDie = 0

namespace Processes

/-- A thread claims one that suits it, and no two claim the same. -/
structure Claims (tasks : Nat → Option Task) : Prop where
  suits : ∀ t task v, tasks t = some task → task.phase.claim = some v →
    ∃ thread, tasks v = some thread ∧ task.phase.Suits thread
  exclusive : ∀ t u task other v, tasks t = some task → tasks u = some other →
    task.phase.claim = some v → other.phase.claim = some v → t = u

/-- Nobody claims `v`. -/
def Free (tasks : Nat → Option Task) (v : Nat) : Prop :=
  ∀ u other, tasks u = some other → other.phase.claim ≠ some v

/-- The invariant over all threads. -/
structure Threaded (m : Processes) : Prop where
  fresh : ∀ t, m.nextThread ≤ t → m.tasks t = none
  counted : ∀ t task, m.tasks t = some task → task.Counted
  claims : Claims m.tasks

section Claiming

variable {tasks : Nat → Option Task} {t u v : Nat} {task task' thread thread' : Task}

/-- A thread that was forked and whose signal nobody took is nobody's. -/
theorem Claims.free (claims : Claims tasks) (here : tasks t = some task)
    (made : task.phase ≠ .created)
    (untaken : task.phase = .finishing → task.joining = true → 0 < task.joinSignal + task.mayDie) :
    Free tasks t := by
  intro u other found claim
  obtain ⟨same, there, suits⟩ := claims.suits u other t found claim
  rw [here] at there
  cases there
  unfold Phase.Suits at suits
  split at suits
  · obtain ⟨dying, joining, untouched, forbidden⟩ := suits
    have := untaken dying joining
    omega
  · exact made suits

theorem Claims.free_active (claims : Claims tasks) (here : tasks t = some task)
    (made : task.phase ≠ .created) (active : task.phase.Active) : Free tasks t := by
  refine claims.free here made ?_
  intro dying
  rw [dying] at active
  exact active.elim

/-- A claim, seen from the thread that has it. -/
theorem Claims.claimed (claims : Claims tasks) (here : tasks t = some task)
    (claim : task.phase.claim = some v) (there : tasks v = some thread) :
    task.phase.Suits thread ∧ v ≠ t ∧
      ∀ u other, u ≠ t → tasks u = some other → other.phase.claim ≠ some v := by
  obtain ⟨thread', there', suits⟩ := claims.suits t task v here claim
  rw [there] at there'
  cases there'
  refine ⟨suits, ?_, ?_⟩
  · rintro rfl
    rw [there] at here
    cases here
    -- a thread with a claim is neither new nor in `Finish`
    unfold Phase.Suits at suits
    split at suits
    · rename_i phase
      rw [phase] at suits
      cases suits.1
    · rw [suits] at claim
      cases claim
  · intro u other ne found same
    exact ne (claims.exclusive u t other task v found here same claim)

/-- One thread changes, or goes.  It drops its claim, or keeps it. -/
theorem Claims.change {o : Option Task} (claims : Claims tasks) (free : Free tasks t)
    (own : ∀ task', o = some task' → task'.phase.claim = none ∨ ∃ task, tasks t = some task ∧
      task.phase.claim = task'.phase.claim ∧
      ∀ thread, task.phase.Suits thread → task'.phase.Suits thread) :
    Claims (Function.update tasks t o) := by
  -- whoever claims something in the new state claimed it in the old one
  have look : ∀ u other v, Function.update tasks t o u = some other → other.phase.claim = some v →
      ∃ old, tasks u = some old ∧ old.phase.claim = some v ∧
        ∀ thread, old.phase.Suits thread → other.phase.Suits thread := by
    intro u other v found claim
    by_cases here : u = t
    · subst here
      rw [Function.update_self] at found
      rcases own other found with nothing | ⟨old, there, same, suits⟩
      · rw [nothing] at claim
        cases claim
      · exact ⟨old, there, same.trans claim, suits⟩
    · rw [Function.update_of_ne here] at found
      exact ⟨other, found, claim, fun _ suits => suits⟩
  refine ⟨?_, ?_⟩
  · intro u task' v found claim
    obtain ⟨old, there, claim', suits⟩ := look u task' v found claim
    obtain ⟨thread, target, fits⟩ := claims.suits u old v there claim'
    have other : v ≠ t := by
      rintro rfl
      exact free u old there claim'
    exact ⟨thread, (Function.update_of_ne other _ _).trans target, suits thread fits⟩
  · intro u w task' other' v found found' claim claim'
    obtain ⟨old, there, claimed, -⟩ := look u task' v found claim
    obtain ⟨old', there', claimed', -⟩ := look w other' v found' claim'
    exact claims.exclusive u w old old' v there there' claimed claimed'

/-- Thread `t` and the thread it claims, or is about to claim, change together. -/
theorem Claims.exchange (claims : Claims tasks) (apart : v ≠ t) (free : Free tasks t)
    (alone : ∀ u other, u ≠ t → tasks u = some other → other.phase.claim ≠ some v)
    (idle : thread'.phase.claim = none)
    (own : task'.phase.claim = none ∨ task'.phase.claim = some v ∧ task'.phase.Suits thread') :
    Claims (Function.update (Function.update tasks v (some thread')) t (some task')) := by
  -- whoever claims something in the new state is `t`, and it claims `v`, or claimed it before
  have look : ∀ u other w, Function.update (Function.update tasks v (some thread')) t (some task') u
      = some other → other.phase.claim = some w →
      (u = t ∧ w = v ∧ other = task' ∧ task'.phase.Suits thread') ∨
        (u ≠ t ∧ w ≠ v ∧ tasks u = some other) := by
    intro u other w found claim
    by_cases here : u = t
    · subst here
      rw [Function.update_self] at found
      cases found
      rcases own with nothing | ⟨same, suits⟩
      · rw [nothing] at claim
        cases claim
      · rw [same] at claim
        cases claim
        exact Or.inl ⟨rfl, rfl, rfl, suits⟩
    · rw [Function.update_of_ne here] at found
      by_cases there : u = v
      · subst there
        rw [Function.update_self] at found
        cases found
        rw [idle] at claim
        cases claim
      · rw [Function.update_of_ne there] at found
        refine Or.inr ⟨here, ?_, found⟩
        rintro rfl
        exact alone u other here found claim
  refine ⟨?_, ?_⟩
  · intro u other' w found claim
    rcases look u other' w found claim with ⟨-, rfl, rfl, suits⟩ | ⟨-, ne, old⟩
    · refine ⟨thread', ?_, suits⟩
      rw [Function.update_of_ne apart, Function.update_self]
    · obtain ⟨target, there, suits⟩ := claims.suits u other' w old claim
      refine ⟨target, ?_, suits⟩
      have elsewhere : w ≠ t := by
        rintro rfl
        exact free u other' old claim
      rw [Function.update_of_ne elsewhere, Function.update_of_ne ne]
      exact there
  · intro u u' other' other'' w found found' claim claim'
    rcases look u other' w found claim with ⟨rfl, rfl, -⟩ | ⟨-, ne, old⟩ <;>
      rcases look u' other'' w found' claim' with ⟨rfl, same, -⟩ | ⟨-, ne', old'⟩
    · rfl
    · exact absurd rfl ne'
    · exact absurd same ne
    · exact claims.exclusive u u' other' other'' w old old' claim claim'

/-- What holds of the others, and of a thread that has changed, holds of all. -/
theorem update_others {P : Nat → Task → Prop}
    (others : ∀ u other, u ≠ t → tasks u = some other → P u other) (new : P t task') :
    ∀ u other, Function.update tasks t (some task') u = some other → P u other := by
  intro u other found
  by_cases here : u = t
  · subst here
    rw [Function.update_self] at found
    cases found
    exact new
  · rw [Function.update_of_ne here] at found
    exact others u other here found

theorem update_all {P : Nat → Task → Prop} (all : ∀ u other, tasks u = some other → P u other)
    (new : P t task') :
    ∀ u other, Function.update tasks t (some task') u = some other → P u other :=
  update_others (fun u other _ => all u other) new

end Claiming

section Invariant

variable {c : Config} {m m' : Processes} {t : Nat} {task : Task} {phase phase' : Phase}

/-- A step that is nobody else's business. -/
structure Plain (phase phase' : Phase) : Prop where
  made : phase ≠ .created
  active : phase.Active
  active' : phase'.Active
  claim : phase'.claim = none

theorem Next.plain (next : Next m t phase phase') : Plain phase phase' := by
  cases next <;> exact ⟨Phase.noConfusion, trivial, trivial, rfl⟩

theorem runs_plain (runs : phase.Runs) : phase ≠ .created ∧ phase.Active := by
  cases phase <;> first | exact ⟨Phase.noConfusion, trivial⟩ | exact runs.elim

theorem counted_active (active : task.phase.Active) :
    task.Counted ↔ (task.joining = true → task.joinSignal = 0 ∧ task.mayDie = 0) := by
  unfold Task.Counted
  split
  · rename_i dying
    rw [dying] at active
    exact active.elim
  · exact Iff.rfl

theorem counted_dying (dying : task.phase = .finishing) (sum : task.joinSignal + task.mayDie ≤ 1) :
    task.Counted := by
  intro _
  rw [dying]
  exact sum

theorem claim_dying (dying : phase = .finishing) : phase.claim = none := by
  rw [dying]
  rfl

theorem Threaded.lt (threaded : Threaded m) (here : m.tasks t = some task) : t < m.nextThread := by
  by_contra high
  rw [threaded.fresh t (not_lt.mp high)] at here
  cases here

/-- The semaphores of a thread that has not exited. -/
theorem Threaded.untouched (threaded : Threaded m) (here : m.tasks t = some task)
    (active : task.phase.Active) :
    task.joining = true → task.joinSignal = 0 ∧ task.mayDie = 0 :=
  (counted_active active).mp (threaded.counted t task here)

/-- A thread that changes alone. -/
theorem Threaded.change {task' : Task} (threaded : Threaded m) (here : m.tasks t = some task)
    (tasks : m'.tasks = Function.update m.tasks t (some task'))
    (next : m'.nextThread = m.nextThread)
    (counted : task'.Counted) (claims : Claims (Function.update m.tasks t (some task'))) :
    Threaded m' := by
  refine ⟨?_, ?_, ?_⟩
  · intro u high
    rw [next] at high
    have other : u ≠ t := by
      have := threaded.lt here
      omega
    rw [tasks, Function.update_of_ne other]
    exact threaded.fresh u high
  · rw [tasks]
    exact update_all threaded.counted counted
  · rw [tasks]
    exact claims

/-- A thread that changes with another one. -/
theorem Threaded.exchange {v : Nat} {thread' task' : Task} (threaded : Threaded m)
    (here : m.tasks t = some task) (low : v < m'.nextThread)
    (tasks : m'.tasks = Function.update (Function.update m.tasks v (some thread')) t (some task'))
    (next : m.nextThread ≤ m'.nextThread) (counted : task'.Counted) (counted' : thread'.Counted)
    (claims : Claims (Function.update (Function.update m.tasks v (some thread')) t (some task'))) :
    Threaded m' := by
  refine ⟨?_, ?_, ?_⟩
  · intro u high
    have other : u ≠ t := by
      have := threaded.lt here
      omega
    have other' : u ≠ v := by omega
    rw [tasks, Function.update_of_ne other, Function.update_of_ne other']
    exact threaded.fresh u (le_trans next high)
  · rw [tasks]
    exact update_all (update_all threaded.counted counted') counted
  · rw [tasks]
    exact claims

/-- A thread that is not in `Finish` goes on alone, with no claim or with the one it has. -/
theorem Threaded.onward {task' : Task} (threaded : Threaded m) (here : m.tasks t = some task)
    (tasks : m'.tasks = Function.update m.tasks t (some task'))
    (next : m'.nextThread = m.nextThread)
    (made : task.phase ≠ .created) (active : task.phase.Active) (active' : task'.phase.Active)
    (joinSignal : task'.joinSignal = task.joinSignal) (mayDie : task'.mayDie = task.mayDie)
    (joining : task'.joining = task.joining)
    (own : task'.phase.claim = none ∨ task.phase.claim = task'.phase.claim ∧
      ∀ thread, task.phase.Suits thread → task'.phase.Suits thread) : Threaded m' := by
  refine threaded.change here tasks next ?_ (threaded.claims.change
    (threaded.claims.free_active here made active) ?_)
  · rw [counted_active active', joinSignal, mayDie, joining, ← counted_active active]
    exact threaded.counted t task here
  · intro other same
    cases same
    exact own.imp_right fun kept => ⟨task, here, kept⟩

theorem Threaded.exits {registers : Registers} {how : Option Word} {system : System}
    (threaded : Threaded m) (here : m.tasks t = some task) (runs : task.phase.Runs) :
    Threaded { m.setTask t { task with
        registers
        joinSignal := if task.joining then task.joinSignal + 1 else task.joinSignal
        exitStatus := 0
        phase := .finishing } with
      system
      fate := Function.update m.fate t (some how) } := by
  obtain ⟨made, active⟩ := runs_plain runs
  refine threaded.change here rfl rfl ?_ (threaded.claims.change
    (threaded.claims.free_active here made active) ?_)
  · intro joining
    have zero := threaded.untouched here active joining
    show (if task.joining then task.joinSignal + 1 else task.joinSignal) + task.mayDie ≤ 1
    rw [if_pos joining]
    omega
  · intro other same
    cases same
    exact .inl rfl

theorem Threaded.spawns {executable : OpenFile} {registers : Registers} {exitStatus : Word}
    {system : System} (threaded : Threaded m) (here : m.tasks t = some task)
    (phase : task.phase = .loading executable) :
    Threaded { (m.setTask m.nextThread ⟨registers, 0, 0, exitStatus, true, .created⟩).setTask t
        { task with phase := .placing m.nextThread } with
      system
      nextThread := m.nextThread + 1 } := by
  have low := threaded.lt here
  have active : task.phase.Active := by
    rw [phase]
    trivial
  have counts := threaded.untouched here active
  have unused : Free m.tasks m.nextThread := by
    intro u other found claim
    obtain ⟨thread, there, -⟩ := threaded.claims.suits u other m.nextThread found claim
    have := threaded.lt there
    omega
  have free : Free m.tasks t :=
    threaded.claims.free_active here (by rw [phase]; exact Phase.noConfusion) active
  refine threaded.exchange here (Nat.lt_succ_self _) rfl (Nat.le_succ _)
    (fun joining => counts joining) (fun _ => ⟨rfl, rfl⟩) ?_
  exact threaded.claims.exchange (by omega) free (fun u other _ => unused u other) rfl
    (.inr ⟨rfl, rfl⟩)

theorem Threaded.forks {thread : Task} {fork : Nat} {result : Int} (threaded : Threaded m)
    (here : m.tasks t = some task) (phase : task.phase = .forking fork result)
    (there : m.tasks fork = some thread) :
    Threaded ((m.setTask fork { thread with phase := .user }).setTask t
      { task with phase := .returning fork result }) := by
  have active : task.phase.Active := by
    rw [phase]
    trivial
  have counts := threaded.untouched here active
  obtain ⟨suits, apart, alone⟩ := threaded.claims.claimed here (by rw [phase]; rfl) there
  rw [phase] at suits
  have free : Free m.tasks t :=
    threaded.claims.free_active here (by rw [phase]; exact Phase.noConfusion) active
  have active' : thread.phase.Active := by
    rw [suits]
    trivial
  have counts' := threaded.untouched there active'
  refine threaded.exchange here (threaded.lt there) rfl le_rfl
    (fun joining => counts joining) (fun joining => counts' joining) ?_
  exact threaded.claims.exchange apart free alone rfl (.inl rfl)

/-- A signal can only be taken from a thread in `Finish`. -/
theorem Threaded.signalled {thread : Task} {child : Nat} (threaded : Threaded m)
    (there : m.tasks child = some thread) (joinable : thread.joining = true)
    (signalled : 0 < thread.joinSignal) :
    thread.phase = .finishing ∧ thread.joinSignal = 1 ∧ thread.mayDie = 0 := by
  have counted := threaded.counted child thread there joinable
  split at counted
  · exact ⟨by assumption, by omega, by omega⟩
  · omega

theorem Threaded.takes {thread : Task} {id : Int} {child : Nat} (threaded : Threaded m)
    (here : m.tasks t = some task) (phase : task.phase = .joining id child)
    (there : m.tasks child = some thread) (joinable : thread.joining = true)
    (signalled : 0 < thread.joinSignal) :
    Threaded ((m.setTask child { thread with joinSignal := thread.joinSignal - 1 }).setTask t
      { task with phase := .joined id child }) := by
  have active : task.phase.Active := by
    rw [phase]
    trivial
  have counts := threaded.untouched here active
  obtain ⟨dying, one, zero⟩ := threaded.signalled there joinable signalled
  have apart : child ≠ t := by
    rintro rfl
    rw [there] at here
    cases here
    rw [phase] at dying
    cases dying
  have free : Free m.tasks t :=
    threaded.claims.free_active here (by rw [phase]; exact Phase.noConfusion) active
  have free' : Free m.tasks child := by
    refine threaded.claims.free there ?_ ?_
    · rw [dying]
      exact Phase.noConfusion
    · intro _ _
      omega
  have taken : thread.joinSignal - 1 = 0 := by omega
  refine threaded.exchange here (threaded.lt there) rfl le_rfl
    (fun joining => counts joining) ?_ ?_
  · apply counted_dying
    · exact dying
    · show thread.joinSignal - 1 + thread.mayDie ≤ 1
      omega
  · exact threaded.claims.exchange apart free (fun u other _ => free' u other) (claim_dying dying)
      (.inr ⟨rfl, dying, joinable, taken, zero⟩)

theorem Threaded.releases {thread : Task} {id : Int} {child : Nat} (threaded : Threaded m)
    (here : m.tasks t = some task) (phase : task.phase = .joined id child)
    (there : m.tasks child = some thread) :
    Threaded ((m.setTask child { thread with mayDie := thread.mayDie + 1 }).setTask t
      { task with exitStatus := thread.exitStatus, phase := .reading id child }) := by
  have active : task.phase.Active := by
    rw [phase]
    trivial
  have counts := threaded.untouched here active
  obtain ⟨suits, apart, alone⟩ := threaded.claims.claimed here (by rw [phase]; rfl) there
  rw [phase] at suits
  obtain ⟨dying, joinable, taken, waits⟩ := suits
  have free : Free m.tasks t :=
    threaded.claims.free_active here (by rw [phase]; exact Phase.noConfusion) active
  refine threaded.exchange here (threaded.lt there) rfl le_rfl (fun joining => counts joining) ?_
    (threaded.claims.exchange apart free alone (claim_dying dying) (.inl rfl))
  apply counted_dying
  · exact dying
  · show thread.joinSignal + (thread.mayDie + 1) ≤ 1
    omega

theorem Threaded.dies {mayDie : Nat} (threaded : Threaded m) (here : m.tasks t = some task)
    (phase : task.phase = .finishing) (allowed : task.joining = true → task.mayDie = mayDie + 1) :
    Threaded (m.setTask t { task with mayDie, phase := .finished }) := by
  have counted := threaded.counted t task here
  refine threaded.change here rfl rfl ?_ (threaded.claims.change
    (threaded.claims.free here ?_ ?_) ?_)
  · intro joining
    have sum := counted joining
    rw [phase] at sum
    have enough := allowed joining
    show task.joinSignal = 0 ∧ mayDie = 0
    constructor <;> omega
  · rw [phase]
    exact Phase.noConfusion
  · intro _ joining
    have := allowed joining
    omega
  · intro other same
    cases same
    exact .inl rfl

/-- **Every turn keeps the invariant over the threads.** -/
theorem Threaded.moves (threaded : Threaded m) (moves : Moves m t m') : Threaded m' := by
  cases moves with
  | goes here next target space =>
      have plain := next.plain
      exact threaded.onward here rfl rfl plain.made plain.active plain.active' rfl rfl rfl
        (.inl plain.claim)
  | exits here runs target space => exact threaded.exits here runs
  | spawns here phase live => exact threaded.spawns here phase
  | places here phase grows =>
      refine threaded.onward here rfl rfl ?_ ?_ trivial rfl rfl rfl ?_ <;> rw [phase]
      · exact Phase.noConfusion
      · trivial
      · exact .inr ⟨rfl, fun _ suits => suits⟩
  | allocates here phase grows entry =>
      refine threaded.onward here rfl rfl ?_ ?_ trivial rfl rfl rfl ?_ <;> rw [phase]
      · exact Phase.noConfusion
      · trivial
      · exact .inr ⟨rfl, fun _ suits => suits⟩
  | forks here phase there => exact threaded.forks here phase there
  | returns here phase =>
      refine threaded.onward here rfl rfl ?_ ?_ trivial rfl rfl rfl ?_ <;> rw [phase]
      · exact Phase.noConfusion
      · trivial
      · exact .inl rfl
  | takes here phase there joinable signalled =>
      exact threaded.takes here phase there joinable signalled
  | releases here phase there => exact threaded.releases here phase there
  | dies here phase allowed => exact threaded.dies here phase allowed

theorem Threaded.delete (threaded : Threaded m) (deleted : m.delete t = some m') : Threaded m' := by
  obtain ⟨task, here, phase, tasks, -, -, next, -⟩ := delete_cases deleted
  refine ⟨?_, ?_, ?_⟩
  · intro u high
    rw [next] at high
    have other : u ≠ t := by
      have := threaded.lt here
      omega
    rw [tasks, Function.update_of_ne other]
    exact threaded.fresh u high
  · intro u other found
    rw [tasks] at found
    by_cases same : u = t
    · subst same
      rw [Function.update_self] at found
      cases found
    · rw [Function.update_of_ne same] at found
      exact threaded.counted u other found
  · rw [tasks]
    refine threaded.claims.change (threaded.claims.free here ?_ ?_) ?_
    · rw [phase]
      exact Phase.noConfusion
    · intro dying
      rw [phase] at dying
      cases dying
    · intro other none_
      cases none_

theorem Threaded.step {l : Label} (threaded : Threaded m) (moved : m.step c l = some m') :
    Threaded m' := by
  cases l with
  | turn t chance => exact threaded.moves (turn_moves (toOption_eq_some moved))
  | delete t => exact threaded.delete moved

theorem boot_threaded {system : System} {threadlist : Table} {executable : OpenFile}
    {chance : Chance} (booted : boot system threadlist executable chance = .ok m) : Threaded m := by
  obtain ⟨⟨space, core⟩, -, last⟩ := bind_eq_ok.mp booted
  cases last
  have only : ∀ t task, Function.update (fun _ => none) 0
      (some (⟨initRegisters space.numPages, 0, 1, chance.exitStatus, false, .user⟩ : Task)) t =
        some task → task.joining = false ∧ task.phase = .user :=
    update_all (fun _ _ bad => by cases bad) ⟨rfl, rfl⟩
  refine ⟨?_, ?_, ?_, ?_⟩
  · intro t high
    have other : t ≠ 0 := by
      rintro rfl
      cases high
    simp [other]
  · intro t task here joining
    rw [(only t task here).1] at joining
    cases joining
  · intro t task v here claim
    rw [(only t task here).2] at claim
    cases claim
  · intro t u task other v here _ claim
    rw [(only t task here).2] at claim
    cases claim

end Invariant

end Processes

end Nachos.UserProg
