/-
# Nachos.Machine.Interrupt -- simulated time and the interrupts that are due

`machine/interrupt.cc`: the list of pending interrupts, sorted by when they occur, and the
clock.  `CheckIfDue` takes the first interrupt out of the list before it looks at it; it may
advance the clock, put the interrupt back, or call its handler, which inserts into the same
list.  What the handlers do is a parameter: any function from the state to a list of calls of
`Schedule`.

A loop here takes at most one turn more than there are interrupts pending, and stops with
`loops` if that is not enough.  It always is: what a handler schedules lies in the future,
and the clock stands still while the loop runs.

The clock has no bound here.  After 2^31 ticks the one of the code overflows; what it does then
is left out.
-/
import Nachos.Outcome
import Nachos.Lib.Run
import Nachos.Threads.List
import Mathlib.Data.List.Nodup
import Mathlib.Data.List.Range

namespace Nachos.Machine.Interrupt

open Nachos.Lib.Run
open Nachos.Threads (ListElement sortedInsert items)

set_option autoImplicit false

inductive IntStatus where
  | intOff | intOn
  deriving DecidableEq, Repr

inductive MachineStatus where
  | idleMode | systemMode | userMode
  deriving DecidableEq, Repr

inductive IntType where
  | timerInt | diskInt | consoleWriteInt | consoleReadInt | networkSendInt | networkRecvInt
  deriving DecidableEq, Repr

def UserTick : Int := 1
def SystemTick : Int := 10

/-- The interrupts are numbered in the order of their `Schedule`; the number stands for the
handler and its argument. -/
structure PendingInterrupt where
  number : Nat
  when : Int
  type : IntType
  deriving DecidableEq, Repr

/-- A call of `Schedule`. -/
structure Request where
  fromNow : Int
  type : IntType
  deriving DecidableEq, Repr

/-- A handler was called, when the clock said `now`. -/
structure Firing where
  interrupt : PendingInterrupt
  now : Int
  deriving DecidableEq, Repr

structure State where
  level : IntStatus
  pending : List (ListElement PendingInterrupt)
  inHandler : Bool
  status : MachineStatus
  totalTicks : Int
  idleTicks : Int
  systemTicks : Int
  userTicks : Int
  /-- Every interrupt that was scheduled, in order. -/
  scheduled : List PendingInterrupt
  /-- The handlers that were called, newest first. -/
  log : List Firing

/-- `Interrupt::Interrupt`, and the statistics at zero. -/
def create : State :=
  ⟨.intOff, [], false, .systemMode, 0, 0, 0, 0, [], []⟩

/-- `List::SortedRemove`, with what it leaves in `*keyPtr`. -/
def sortedRemove {α : Type} : List (ListElement α) → Option (α × Int × List (ListElement α))
  | [] => none
  | e :: rest => some (e.item, e.key, rest)

/-- `Interrupt::Schedule`.  The clock is an `int` in the code and a number here: a run in which
`totalTicks + fromNow` leaves the `int`s is none of the code. -/
def schedule (st : State) (r : Request) : Except Stop State := do
  let when := st.totalTicks + r.fromNow
  ASSERT (0 < r.fromNow)
  let toOccur := ⟨st.scheduled.length, when, r.type⟩
  return { st with
    pending := sortedInsert toOccur when st.pending
    scheduled := st.scheduled ++ [toOccur] }

/-- What a handler does. -/
def scheduleAll : List Request → State → Except Stop State
  | [], st => .ok st
  | r :: rs, st => do
      let st ← schedule st r
      scheduleAll rs st

/-- `Interrupt::ChangeLevel`. -/
def changeLevel (st : State) (now : IntStatus) : State := { st with level := now }

section Code

variable (react : State → PendingInterrupt → List Request)

/-- The call of the handler in `CheckIfDue`. -/
def fire (st : State) (toOccur : PendingInterrupt) : Except Stop (Bool × State) := do
  let old := st.status
  let st := { st with
    inHandler := true
    status := .systemMode
    log := ⟨toOccur, st.totalTicks⟩ :: st.log }
  let st ← scheduleAll (react st toOccur) st
  return (true, { st with status := old, inHandler := false })

/-- The rest of `CheckIfDue`, for an interrupt that is due. -/
def fireOrQuit (st : State) (toOccur : PendingInterrupt) (when : Int) :
    Except Stop (Bool × State) :=
  -- nothing more to do: only the time slice is left
  if st.status = .idleMode ∧ toOccur.type = .timerInt ∧ st.pending.isEmpty then
    .ok (false, { st with pending := sortedInsert toOccur when st.pending })
  else fire react st toOccur

/-- `Interrupt::CheckIfDue`. -/
def checkIfDue (advanceClock : Bool) (st : State) : Except Stop (Bool × State) := do
  ASSERT (st.level = .intOff)
  match sortedRemove st.pending with
  | none => return (false, st)
  | some (toOccur, when, rest) =>
      let st := { st with pending := rest }
      if advanceClock ∧ st.totalTicks < when then
        fireOrQuit react { st with
          idleTicks := st.idleTicks + (when - st.totalTicks)
          totalTicks := when } toOccur when
      else if st.totalTicks < when then
        return (false, { st with pending := sortedInsert toOccur when st.pending })
      else fireOrQuit react st toOccur when

/-- `while (CheckIfDue(FALSE)) ;`, for at most `n` turns. -/
def checkAll : Nat → State → Except Stop State
  | 0, _ => .error .loops
  | n + 1, st => do
      let (more, st) ← checkIfDue react false st
      if more then checkAll n st else return st

/-- `Interrupt::OneTick`, as far as no handler has called `YieldOnReturn`. -/
def oneTick (st : State) : Except Stop State := do
  let st :=
    if st.status = .systemMode then
      { st with
        totalTicks := st.totalTicks + SystemTick
        systemTicks := st.systemTicks + SystemTick }
    else
      { st with
        totalTicks := st.totalTicks + UserTick
        userTicks := st.userTicks + UserTick }
  let st := changeLevel st .intOff
  let st ← checkAll react (st.pending.length + 1) st
  return changeLevel st .intOn

/-- `Interrupt::SetLevel`. -/
def setLevel (st : State) (now : IntStatus) : Except Stop State := do
  let old := st.level
  ASSERT (now = .intOff ∨ st.inHandler = false)
  let st := changeLevel st now
  if now = .intOn ∧ old = .intOff then oneTick react st else return st

/-- `Interrupt::Idle`. -/
def idle (st : State) : Except Stop State := do
  let st := { st with status := .idleMode }
  let (found, st) ← checkIfDue react true st
  if found then
    let st ← checkAll react (st.pending.length + 1) st
    return { st with status := .systemMode }
  else .error .halted

end Code

/-! ## Runs -/

inductive Event where
  | schedule (r : Request)
  | setLevel (now : IntStatus)
  /-- A user instruction was executed. -/
  | oneTick
  | idle
  /-- The processor enters or leaves a user program. -/
  | setStatus (user : Bool)
  deriving DecidableEq, Repr

def step (react : State → PendingInterrupt → List Request) (st : State) :
    Event → Except Stop State
  | .schedule r => schedule st r
  | .setLevel now => setLevel react st now
  | .oneTick => oneTick react st
  | .idle => idle react st
  | .setStatus user => .ok { st with status := if user then .userMode else .systemMode }

def next (react : State → PendingInterrupt → List Request) (st : State) (e : Event) :
    Option State :=
  (step react st e).toOption

/-! ## One turn -/

def fired (log : List Firing) : List PendingInterrupt := log.map Firing.interrupt

/-- The list is sorted, every interrupt is pending or was fired, once, and the clock adds
up. -/
structure Good (st : State) : Prop where
  sorted : st.pending.Pairwise fun e f => e.key ≤ f.key
  keyed : ∀ e ∈ st.pending, e.key = e.item.when
  numbered : st.scheduled.map PendingInterrupt.number = List.range st.scheduled.length
  account : (items st.pending ++ fired st.log).Perm st.scheduled
  punctual : ∀ f ∈ st.log, f.interrupt.when ≤ f.now
  clock : st.totalTicks = st.idleTicks + st.systemTicks + st.userTicks

/-- How many interrupts are due. -/
def due (st : State) : Nat := st.pending.countP fun e => e.key ≤ st.totalTicks

/-- The clock and the registers of the interrupt unit are the same. -/
structure Still (st st' : State) : Prop where
  level : st'.level = st.level
  status : st'.status = st.status
  inHandler : st'.inHandler = st.inHandler
  totalTicks : st'.totalTicks = st.totalTicks

theorem Still.trans {st mid st' : State} (first : Still st mid) (second : Still mid st') :
    Still st st' :=
  ⟨second.level.trans first.level, second.status.trans first.status,
    second.inHandler.trans first.inHandler, second.totalTicks.trans first.totalTicks⟩

section Turns

variable {react : State → PendingInterrupt → List Request} {st st' : State} {r : Request}
  {rs : List Request} {toOccur : PendingInterrupt} {rest : List (ListElement PendingInterrupt)}

theorem schedule_returns (future : 0 < r.fromNow) : ∃ st', schedule st r = .ok st' := by
  simp [schedule, ASSERT, future]

theorem schedule_good (good : Good st) (scheduled : schedule st r = .ok st') :
    Good st' ∧ Still st st' ∧ due st' = due st := by
  obtain ⟨_, asserted, rest⟩ := bind_eq_ok.mp scheduled
  have future : 0 < r.fromNow := by
    by_contra past
    simp [ASSERT, past] at asserted
  cases rest
  refine ⟨⟨?_, ?_, ?_, ?_, good.punctual, good.clock⟩, ⟨rfl, rfl, rfl, rfl⟩, ?_⟩
  · exact Threads.sorted_sortedInsert good.sorted
  · intro e there
    obtain rfl | there := List.mem_cons.mp (Threads.sortedInsert_perm.mem_iff.mp there)
    · rfl
    · exact good.keyed e there
  · simp [good.numbered, List.range_succ]
  · refine (Threads.items_sortedInsert_perm.append_right _).trans ?_
    exact (good.account.cons _).trans (List.perm_append_singleton _ _).symm
  · have late : ¬ st.totalTicks + r.fromNow ≤ st.totalTicks := by omega
    simp only [due]
    rw [Threads.sortedInsert_perm.countP_eq]
    simp [late]

/-- A handler that looks ahead comes to its end, and leaves as many interrupts due as there
were. -/
theorem scheduleAll_good (good : Good st) (positive : ∀ r ∈ rs, 0 < r.fromNow) :
    ∃ st', scheduleAll rs st = .ok st' ∧ Good st' ∧ Still st st' ∧ due st' = due st := by
  induction rs generalizing st with
  | nil => exact ⟨st, rfl, good, ⟨rfl, rfl, rfl, rfl⟩, rfl⟩
  | cons r rs ih =>
      have future := positive r List.mem_cons_self
      obtain ⟨mid, first⟩ := @schedule_returns st r future
      obtain ⟨good', still, same⟩ := schedule_good good first
      obtain ⟨st', rest, good'', still', same'⟩ :=
        ih good' fun r there => positive r (List.mem_cons_of_mem _ there)
      refine ⟨st', ?_, good'', still.trans still', same'.trans same⟩
      rw [scheduleAll, first]
      exact rest

/-- The state of `CheckIfDue` with an interrupt in its hand. -/
structure Held (st : State) (toOccur : PendingInterrupt) : Prop where
  sorted : st.pending.Pairwise fun e f => e.key ≤ f.key
  keyed : ∀ e ∈ st.pending, e.key = e.item.when
  numbered : st.scheduled.map PendingInterrupt.number = List.range st.scheduled.length
  account : (toOccur :: items st.pending ++ fired st.log).Perm st.scheduled
  punctual : ∀ f ∈ st.log, f.interrupt.when ≤ f.now
  clock : st.totalTicks = st.idleTicks + st.systemTicks + st.userTicks
  handler : st.inHandler = false

/-- Nothing is due, but for a time slice when there is nothing else to wait for. -/
def Rested (st : State) : Prop :=
  (∀ e ∈ st.pending, st.totalTicks < e.item.when) ∨
    st.status = .idleMode ∧ ∃ e, st.pending = [e] ∧ e.item.type = .timerInt

theorem Good.take {key : Int} (good : Good st) (handler : st.inHandler = false)
    (head : st.pending = ⟨toOccur, key⟩ :: rest) : Held { st with pending := rest } toOccur := by
  obtain ⟨sorted, keyed, numbered, account, punctual, clock⟩ := good
  rw [head] at sorted keyed account
  exact ⟨(List.pairwise_cons.mp sorted).2, fun e there => keyed e (List.mem_cons_of_mem _ there),
    numbered, account, punctual, clock, handler⟩

/-- The interrupt goes back into the list. -/
theorem Held.putBack (held : Held st toOccur) :
    Good { st with pending := sortedInsert toOccur toOccur.when st.pending } := by
  refine ⟨Threads.sorted_sortedInsert held.sorted, ?_, held.numbered, ?_, held.punctual, held.clock⟩
  · intro e there
    obtain rfl | there := List.mem_cons.mp (Threads.sortedInsert_perm.mem_iff.mp there)
    · rfl
    · exact held.keyed e there
  · exact (Threads.items_sortedInsert_perm.append_right _).trans held.account

/-- The handler is called. -/
theorem Held.fire (held : Held st toOccur) (now : toOccur.when ≤ st.totalTicks)
    (positive : ∀ st p, ∀ r ∈ react st p, 0 < r.fromNow) :
    ∃ st', fire react st toOccur = .ok (true, st') ∧ Good st' ∧ Still st st' ∧
      due st' = due st := by
  have before : Good { st with
      inHandler := true
      status := .systemMode
      log := ⟨toOccur, st.totalTicks⟩ :: st.log } := by
    refine ⟨held.sorted, held.keyed, held.numbered, List.perm_middle.trans held.account,
      ?_, held.clock⟩
    intro f there
    obtain rfl | there := List.mem_cons.mp there
    · exact now
    · exact held.punctual f there
  obtain ⟨st', called, good, still, same⟩ := scheduleAll_good before (positive _ toOccur)
  refine ⟨{ st' with status := st.status, inHandler := false }, ?_, ?_, ?_, same⟩
  · rw [Interrupt.fire, called]
    rfl
  · exact ⟨good.sorted, good.keyed, good.numbered, good.account, good.punctual, good.clock⟩
  · exact ⟨still.level, rfl, held.handler.symm, still.totalTicks⟩

theorem Held.fireOrQuit (held : Held st toOccur) (now : toOccur.when ≤ st.totalTicks)
    (positive : ∀ st p, ∀ r ∈ react st p, 0 < r.fromNow) :
    (∃ st', fireOrQuit react st toOccur toOccur.when = .ok (false, st') ∧
        Good st' ∧ Still st st' ∧ Rested st') ∨
      ∃ st', fireOrQuit react st toOccur toOccur.when = .ok (true, st') ∧
        Good st' ∧ Still st st' ∧ due st' = due st := by
  by_cases quit : st.status = .idleMode ∧ toOccur.type = .timerInt ∧ st.pending.isEmpty
  · left
    refine ⟨_, if_pos quit, held.putBack, ⟨rfl, rfl, rfl, rfl⟩,
      .inr ⟨quit.1, ⟨toOccur, toOccur.when⟩, ?_⟩⟩
    have empty : st.pending = [] := List.isEmpty_iff.mp quit.2.2
    simp [empty, sortedInsert, quit.2.1]
  · right
    obtain ⟨st', called, rest⟩ := held.fire now positive
    exact ⟨st', (if_neg quit).trans called, rest⟩

/-- **One turn of the loop**: it ends the loop with nothing due, or one interrupt less is
due. -/
theorem checkIfDue_good (good : Good st) (off : st.level = .intOff) (handler : st.inHandler = false)
    (positive : ∀ st p, ∀ r ∈ react st p, 0 < r.fromNow) :
    (∃ st', checkIfDue react false st = .ok (false, st') ∧ Good st' ∧ Still st st' ∧ Rested st') ∨
      ∃ st', checkIfDue react false st = .ok (true, st') ∧ Good st' ∧ Still st st' ∧
        due st' + 1 = due st := by
  have asserted : ASSERT (st.level = .intOff) = .ok () := by simp [ASSERT, off]
  cases head : st.pending with
  | nil =>
      left
      refine ⟨st, ?_, good, ⟨rfl, rfl, rfl, rfl⟩, .inl (by simp [head])⟩
      simp [checkIfDue, asserted, head, sortedRemove, pure, Except.pure]
  | cons e rest =>
      obtain ⟨toOccur, key⟩ := e
      obtain rfl : key = toOccur.when := good.keyed ⟨toOccur, key⟩ (by simp [head])
      have held := good.take handler head
      have first : ∀ e ∈ rest, toOccur.when ≤ e.key := by
        have sorted := good.sorted
        rw [head] at sorted
        exact (List.pairwise_cons.mp sorted).1
      by_cases early : st.totalTicks < toOccur.when
      · left
        refine ⟨_, ?_, held.putBack, ⟨rfl, rfl, rfl, rfl⟩, .inl ?_⟩
        · simp [checkIfDue, asserted, head, sortedRemove, early, pure, Except.pure]
        · intro e there
          obtain rfl | there := List.mem_cons.mp (Threads.sortedInsert_perm.mem_iff.mp there)
          · exact early
          · have later := first e there
            rw [held.keyed e there] at later
            exact Int.lt_of_lt_of_le early later
      · have same : checkIfDue react false st =
            fireOrQuit react { st with pending := rest } toOccur toOccur.when := by
          simp [checkIfDue, asserted, head, sortedRemove, early]
        have fewer : due { st with pending := rest } + 1 = due st := by
          simp [due, head, Int.not_lt.mp early]
        rw [same]
        have taken : Still st { st with pending := rest } := ⟨rfl, rfl, rfl, rfl⟩
        obtain ⟨st', called, good', still, rested⟩ | ⟨st', called, good', still, same'⟩ :=
          held.fireOrQuit (Int.not_lt.mp early) positive
        · exact .inl ⟨st', called, good', taken.trans still, rested⟩
        · refine .inr ⟨st', called, good', taken.trans still, ?_⟩
          rw [same', fewer]

/-- **The loop ends**, before it has taken a turn more than there are interrupts due. -/
theorem checkAll_good {n : Nat} (good : Good st) (off : st.level = .intOff)
    (handler : st.inHandler = false) (positive : ∀ st p, ∀ r ∈ react st p, 0 < r.fromNow)
    (enough : due st < n) :
    ∃ st', checkAll react n st = .ok st' ∧ Good st' ∧ Still st st' ∧ Rested st' := by
  induction n generalizing st with
  | zero => exact absurd enough (Nat.not_lt_zero _)
  | succ n ih =>
      obtain ⟨mid, checked, good', still, rested⟩ | ⟨mid, checked, good', still, fewer⟩ :=
        checkIfDue_good good off handler positive
      · refine ⟨mid, ?_, good', still, rested⟩
        rw [checkAll, checked]
        rfl
      · obtain ⟨st', rest, good'', still', rested⟩ :=
          ih good' (still.level.trans off) (still.inHandler.trans handler) (by omega)
        refine ⟨st', ?_, good'', still.trans still', rested⟩
        rw [checkAll, checked]
        exact rest

theorem due_lt (st : State) : due st < st.pending.length + 1 :=
  Nat.lt_succ_of_le List.countP_le_length

end Turns

/-! ## The operations -/

/-- What holds between the calls. -/
structure Sound (st : State) : Prop where
  good : Good st
  handler : st.inHandler = false
  awake : st.status ≠ .idleMode

/-- Nothing is due. -/
def Quiet (st : State) : Prop := ∀ e ∈ st.pending, st.totalTicks < e.item.when

section Operations

variable {react : State → PendingInterrupt → List Request} {st st' : State}

theorem create_sound : Sound create := by
  refine ⟨⟨List.Pairwise.nil, nofun, rfl, ?_, nofun, rfl⟩, rfl, nofun⟩
  exact List.Perm.refl _

/-- Fields that say nothing about interrupts. -/
theorem Good.congr (good : Good st) (pending : st'.pending = st.pending)
    (scheduled : st'.scheduled = st.scheduled) (log : st'.log = st.log)
    (clock : st'.totalTicks = st'.idleTicks + st'.systemTicks + st'.userTicks) : Good st' := by
  refine ⟨?_, ?_, ?_, ?_, ?_, clock⟩
  · rw [pending]
    exact good.sorted
  · rw [pending]
    exact good.keyed
  · rw [scheduled]
    exact good.numbered
  · rw [pending, scheduled, log]
    exact good.account
  · rw [log]
    exact good.punctual

/-- **`OneTick` returns, and leaves nothing due.** -/
theorem oneTick_good (sound : Sound st) (positive : ∀ st p, ∀ r ∈ react st p, 0 < r.fromNow) :
    ∃ st', oneTick react st = .ok st' ∧ Sound st' ∧ st.totalTicks < st'.totalTicks ∧ Quiet st' := by
  obtain ⟨good, handler, awake⟩ := sound
  have clock := good.clock
  -- the clock advances by one of the two ticks
  obtain ⟨ticked, same, good', handler', awake', later⟩ : ∃ ticked : State,
      (if st.status = .systemMode then
        { st with
          totalTicks := st.totalTicks + SystemTick
          systemTicks := st.systemTicks + SystemTick }
      else
        { st with
          totalTicks := st.totalTicks + UserTick
          userTicks := st.userTicks + UserTick }) = ticked ∧
      Good ticked ∧ ticked.inHandler = false ∧ ticked.status ≠ .idleMode ∧
      st.totalTicks < ticked.totalTicks := by
    by_cases system : st.status = .systemMode
    · refine ⟨_, if_pos system, good.congr rfl rfl rfl ?_, handler, awake, ?_⟩
      · simp only [SystemTick]
        omega
      · simp only [SystemTick]
        omega
    · refine ⟨_, if_neg system, good.congr rfl rfl rfl ?_, handler, awake, ?_⟩
      · simp only [UserTick]
        omega
      · simp only [UserTick]
        omega
  have off : Good (changeLevel ticked .intOff) := good'.congr rfl rfl rfl good'.clock
  obtain ⟨st', ran, good'', still, rested⟩ :=
    checkAll_good off rfl handler' positive (due_lt (changeLevel ticked .intOff))
  have busy : st'.status ≠ .idleMode := by
    rw [still.status]
    exact awake'
  refine ⟨changeLevel st' .intOn, ?_, ⟨good''.congr rfl rfl rfl good''.clock, ?_, busy⟩, ?_, ?_⟩
  · rw [oneTick, same]
    simp only [ran, ok_bind]
    rfl
  · exact still.inHandler.trans handler'
  · exact still.totalTicks ▸ later
  · obtain quiet | ⟨idle, -⟩ := rested
    · exact quiet
    · exact absurd idle busy

theorem setLevel_good (now : IntStatus) (sound : Sound st)
    (positive : ∀ st p, ∀ r ∈ react st p, 0 < r.fromNow) :
    ∃ st', setLevel react st now = .ok st' ∧ Sound st' ∧ st.totalTicks ≤ st'.totalTicks ∧
      (now = .intOn → st.level = .intOff → Quiet st') := by
  have asserted : ASSERT (now = .intOff ∨ st.inHandler = false) = .ok () := by
    simp [ASSERT, sound.handler]
  have changed : Sound (changeLevel st now) :=
    ⟨sound.good.congr rfl rfl rfl sound.good.clock, sound.handler, sound.awake⟩
  by_cases enabled : now = .intOn ∧ st.level = .intOff
  · obtain ⟨st', ticked, sound', later, quiet⟩ := oneTick_good changed positive
    refine ⟨st', ?_, sound', Int.le_of_lt later, fun _ _ => quiet⟩
    simp only [setLevel, asserted, ok_bind, if_pos enabled]
    exact ticked
  · refine ⟨changeLevel st now, ?_, changed, Int.le_refl _, fun on off => absurd ⟨on, off⟩ enabled⟩
    simp only [setLevel, asserted, ok_bind, if_neg enabled]
    rfl

/-- `CheckIfDue(TRUE)`: the clock goes on to the next interrupt, if it has to. -/
theorem checkNext_good (good : Good st) (off : st.level = .intOff) (handler : st.inHandler = false)
    (positive : ∀ st p, ∀ r ∈ react st p, 0 < r.fromNow) :
    ∃ found st', checkIfDue react true st = .ok (found, st') ∧ Good st' ∧
      st'.level = .intOff ∧ st'.inHandler = false ∧ st'.status = st.status ∧
      st.totalTicks ≤ st'.totalTicks := by
  have asserted : ASSERT (st.level = .intOff) = .ok () := by simp [ASSERT, off]
  cases head : st.pending with
  | nil =>
      refine ⟨false, st, ?_, good, off, handler, rfl, Int.le_refl _⟩
      simp [checkIfDue, asserted, head, sortedRemove, pure, Except.pure]
  | cons e rest =>
      obtain ⟨toOccur, key⟩ := e
      obtain rfl : key = toOccur.when := good.keyed ⟨toOccur, key⟩ (by simp [head])
      have held := good.take handler head
      obtain ⟨mid, same, held', levels, status, later, now⟩ : ∃ mid,
          checkIfDue react true st = fireOrQuit react mid toOccur toOccur.when ∧ Held mid toOccur ∧
          mid.level = .intOff ∧ mid.status = st.status ∧ st.totalTicks ≤ mid.totalTicks ∧
          toOccur.when ≤ mid.totalTicks := by
        by_cases early : st.totalTicks < toOccur.when
        · refine ⟨{ st with
            pending := rest
            idleTicks := st.idleTicks + (toOccur.when - st.totalTicks)
            totalTicks := toOccur.when }, ?_, ?_, off, rfl, Int.le_of_lt early, Int.le_refl _⟩
          · simp [checkIfDue, asserted, head, sortedRemove, early]
          · refine ⟨held.sorted, held.keyed, held.numbered, held.account, held.punctual,
              ?_, handler⟩
            have clock := good.clock
            simp only
            omega
        · refine ⟨{ st with pending := rest }, ?_, held, off, rfl, Int.le_refl _,
            Int.not_lt.mp early⟩
          simp [checkIfDue, asserted, head, sortedRemove, early]
      rw [same]
      have after : ∀ st', Still mid st' → st'.level = .intOff ∧ st'.inHandler = false ∧
          st'.status = st.status ∧ st.totalTicks ≤ st'.totalTicks := fun st' still =>
        ⟨still.level.trans levels, still.inHandler.trans held'.handler, still.status.trans status,
          still.totalTicks ▸ later⟩
      obtain ⟨st', called, good', still, -⟩ | ⟨st', called, good', still, -⟩ :=
        held'.fireOrQuit now positive
      · exact ⟨false, st', called, good', after st' still⟩
      · exact ⟨true, st', called, good', after st' still⟩

/-- **`Idle` halts, or returns** with nothing due but a last time slice. -/
theorem idle_good (sound : Sound st) (off : st.level = .intOff)
    (positive : ∀ st p, ∀ r ∈ react st p, 0 < r.fromNow) :
    idle react st = .error .halted ∨ ∃ st', idle react st = .ok st' ∧ Sound st' ∧
      st.totalTicks ≤ st'.totalTicks ∧
      (Quiet st' ∨ ∃ e, st'.pending = [e] ∧ e.item.type = .timerInt) := by
  have idling : Good { st with status := .idleMode } :=
    sound.good.congr rfl rfl rfl sound.good.clock
  obtain ⟨found, mid, checked, good, off', handler, -, later⟩ :=
    @checkNext_good react _ idling off sound.handler positive
  cases found with
  | false =>
      left
      simp only [idle, checked, ok_bind]
      rfl
  | true =>
      right
      obtain ⟨st', ran, good', still, rested⟩ :=
        @checkAll_good react _ _ good off' handler positive (due_lt mid)
      refine ⟨{ st' with status := .systemMode }, ?_, ⟨?_, ?_, nofun⟩, ?_, ?_⟩
      · simp only [idle, checked, ok_bind, if_true, ran]
        rfl
      · exact good'.congr rfl rfl rfl good'.clock
      · exact still.inHandler.trans handler
      · exact still.totalTicks ▸ later
      · exact rested.imp id And.right

theorem Good.nodup (good : Good st) : st.scheduled.Nodup := by
  apply List.Nodup.of_map PendingInterrupt.number
  rw [good.numbered]
  exact List.nodup_range

theorem step_good {e : Event} (sound : Sound st)
    (positive : ∀ st p, ∀ r ∈ react st p, 0 < r.fromNow) (stepped : step react st e = .ok st') :
    Sound st' ∧ st.totalTicks ≤ st'.totalTicks := by
  cases e with
  | schedule r =>
      obtain ⟨good, still, -⟩ := schedule_good sound.good stepped
      refine ⟨⟨good, still.inHandler.trans sound.handler, ?_⟩, ?_⟩
      · rw [still.status]
        exact sound.awake
      · exact Int.le_of_eq still.totalTicks.symm
  | setLevel now =>
      obtain ⟨_, changed, sound', later, -⟩ := setLevel_good now sound positive
      cases stepped.symm.trans changed
      exact ⟨sound', later⟩
  | oneTick =>
      obtain ⟨_, ticked, sound', later, -⟩ := oneTick_good sound positive
      cases stepped.symm.trans ticked
      exact ⟨sound', Int.le_of_lt later⟩
  | idle =>
      by_cases off : st.level = .intOff
      · obtain halted | ⟨_, idled, sound', later, -⟩ := idle_good sound off positive
        · cases stepped.symm.trans halted
        · cases stepped.symm.trans idled
          exact ⟨sound', later⟩
      · have asserted : ASSERT (st.level = .intOff) = .error .assertion := by simp [ASSERT, off]
        simp [step, idle, checkIfDue, asserted] at stepped
  | setStatus user =>
      cases stepped
      refine ⟨⟨sound.good.congr rfl rfl rfl sound.good.clock, sound.handler, ?_⟩, Int.le_refl _⟩
      cases user <;> simp

end Operations

/-! ## Runs -/

/-- What holds of the interrupts and of the clock in a state, and of whatever is called
next. -/
structure Timely (react : State → PendingInterrupt → List Request) (st : State) : Prop where
  /-- An interrupt is pending or has fired, and only one of the two, and only once. -/
  delivered : ∀ p ∈ st.scheduled, (items st.pending).count p + (fired st.log).count p = 1
  punctual : ∀ f ∈ st.log, f.interrupt ∈ st.scheduled ∧ f.interrupt.when ≤ f.now
  clock : st.totalTicks = st.idleTicks + st.systemTicks + st.userTicks
  forward : ∀ e st', step react st e = .ok st' → st.totalTicks ≤ st'.totalTicks
  /-- The loop of `OneTick` ends, and nothing is due then. -/
  ticks : ∃ st', oneTick react st = .ok st' ∧ Quiet st'
  enables : st.level = .intOff → ∃ st', setLevel react st .intOn = .ok st' ∧ Quiet st'
  /-- The loop of `Idle` ends, and what may be due is a last time slice. -/
  idles : st.level = .intOff → idle react st = .error .halted ∨
    ∃ st', idle react st = .ok st' ∧ (Quiet st' ∨ ∃ e, st'.pending = [e] ∧ e.item.type = .timerInt)

/-- **Simulated time and the delivery of interrupts are sound**, whatever the devices do, as
long as their handlers look ahead. -/
theorem interrupts_timely (react : State → PendingInterrupt → List Request)
    (positive : ∀ st p, ∀ r ∈ react st p, 0 < r.fromNow) (events : List Event) (st : State)
    (run : exec (next react) create events = some st) : Timely react st := by
  have keep : ∀ st e st', Sound st → next react st e = some st' → Sound st' := by
    intro st e st' sound stepped
    have stepped : step react st e = .ok st' := by
      cases result : step react st e <;> simp_all [next, Except.toOption]
    exact (step_good sound positive stepped).1
  have sound : Sound st := exec_invariant' keep create_sound run
  have good := sound.good
  constructor
  · intro p there
    rw [← List.count_append, good.account.count_eq]
    exact List.count_eq_one_of_mem good.nodup there
  · intro f there
    refine ⟨good.account.mem_iff.mp ?_, good.punctual f there⟩
    exact List.mem_append_right _ (List.mem_map_of_mem there)
  · exact good.clock
  · exact fun e st' stepped => (step_good sound positive stepped).2
  · obtain ⟨st', ticked, -, -, quiet⟩ := oneTick_good sound positive
    exact ⟨st', ticked, quiet⟩
  · intro off
    obtain ⟨st', changed, -, -, quiet⟩ := setLevel_good .intOn sound positive
    exact ⟨st', changed, quiet rfl off⟩
  · intro off
    obtain halted | ⟨st', idled, -, -, rested⟩ := idle_good sound off positive
    · exact .inl halted
    · exact .inr ⟨st', idled, rested⟩

/-- The timer starts again whenever it goes off. -/
def onlyTimer (_ : State) (p : PendingInterrupt) : List Request :=
  if p.type = .timerInt then [⟨100, .timerInt⟩] else []

/-- A disk request and the timer: the machine idles until the disk is done, ticks, and
idles again until the timer and a second request have gone off. -/
theorem interrupts_timely_disk :
    ∃ st, exec (next onlyTimer) create
        [.schedule ⟨100, .timerInt⟩, .schedule ⟨30, .diskInt⟩, .idle, .setLevel .intOn,
          .schedule ⟨80, .diskInt⟩, .setLevel .intOff, .idle, .idle] = some st ∧
      fired st.log = [⟨2, 120, .diskInt⟩, ⟨0, 100, .timerInt⟩, ⟨1, 30, .diskInt⟩] ∧
      Timely onlyTimer st := by
  have positive : ∀ st p, ∀ r ∈ onlyTimer st p, 0 < r.fromNow := by
    intro st p r there
    unfold onlyTimer at there
    split at there
    · obtain rfl : r = ⟨100, .timerInt⟩ := by simpa using there
      decide
    · cases there
  refine ⟨_, rfl, rfl, ?_⟩
  exact interrupts_timely onlyTimer positive
    [.schedule ⟨100, .timerInt⟩, .schedule ⟨30, .diskInt⟩, .idle, .setLevel .intOn,
      .schedule ⟨80, .diskInt⟩, .setLevel .intOff, .idle, .idle] _ rfl

end Nachos.Machine.Interrupt
