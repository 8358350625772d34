/-
# Nachos.Threads.Thread -- threads, their wait queues and the dispatcher

`threads/thread.cc`, `threads/scheduler.cc` and the primitives of `threads/synch.cc`,
as one transition function.  An event is a call the running thread makes, an interrupt
handler that calls `V`, or what the kernel does by itself: the next turn of a waiting
loop of the thread that was just resumed (`proceed`), the call of `Idle`, and the end
of the loop of `Sleep` (`dispatch`).

Events are separated where the code can be preempted.  A thread that comes back from
`Sleep` has interrupts off until it has tested its condition again, so that its next
event is `proceed`; only `Join` can be preempted in the middle, between `joinSignal->P()`
and `mayDie->V()`.

A thread that was never switched out has `ThreadRoot` for its program counter: `SWITCH`
takes it there and not to the code after `SWITCH` in `Scheduler::Run`.  What `Run` and
`Finish` do about `threadToBeDestroyed` is written down in `log`, newest first.
-/
import Nachos.Threads.List
import Mathlib.Logic.Function.Basic

namespace Nachos.Threads

set_option autoImplicit false

/-- Two semaphores come with every thread; the kernel has others. -/
inductive Sem where
  | joinSignal (t : Nat)
  | mayDie (t : Nat)
  | other (i : Nat)
  deriving DecidableEq, Repr

/-- The objects a thread can wait at. -/
inductive Queue where
  | semaphore (s : Sem)
  | lock (l : Nat)
  | condition (c : Nat)
  deriving DecidableEq, Repr

inductive ThreadStatus where
  | justCreated | running | ready | blocked
  deriving DecidableEq, Repr

/-- `machineState[PCState]`: where `SWITCH` takes the thread. -/
inductive PCState where
  | threadRoot
  /-- The code after `SWITCH` in `Scheduler::Run`. -/
  | run
  deriving DecidableEq, Repr

/-- Where a thread is in its program. -/
inductive Point where
  /-- Its own procedure, outside of the calls below. -/
  | body
  | p (s : Sem)
  | acquire (l : Nat)
  | wait (c l : Nat)
  /-- In `joinSignal->P()` of `Join`. -/
  | join (t : Nat)
  /-- In `Join`, before `mayDie->V()`. -/
  | joined (t : Nat)
  /-- In `mayDie->P()` of `Finish`. -/
  | finish
  /-- In the `Sleep` at the end of `Finish`. -/
  | finished
  deriving DecidableEq, Repr

/-- The queue a thread sleeps in at a point of its program. -/
def Point.queue (self : Nat) : Point → Option Queue
  | .p s => some (.semaphore s)
  | .acquire l => some (.lock l)
  | .wait c _ => some (.condition c)
  | .join t => some (.semaphore (.joinSignal t))
  | .finish => some (.semaphore (.mayDie self))
  | _ => none

/-- Interrupts are on at this point. -/
def Point.enabled : Point → Bool
  | .body | .joined _ => true
  | _ => false

structure Thread where
  key : Int
  joining : Bool
  status : ThreadStatus
  pcState : PCState
  /-- `none` before the first assignment. -/
  exitStatus : Option Int
  point : Point
  deriving DecidableEq, Repr

/-- What the processor is doing: running `currentThread`, or in the loop of its `Sleep`,
before or in a call of `Idle`. -/
inductive Mode where
  | thread | sleep | idle
  deriving DecidableEq, Repr

/-- What the log keeps. -/
inductive Record where
  /-- `t` did `threadToBeDestroyed = currentThread`, and what stood there before. -/
  | finish (t : Nat) (found : Option Nat)
  /-- `t` was switched to, into the code after `SWITCH`. -/
  | resume (t : Nat)
  /-- `t` was switched to, into `ThreadRoot`. -/
  | first (t : Nat)
  | delete (t : Nat)
  deriving DecidableEq, Repr

structure State where
  /-- The thread objects; `none` where there is none, or none any more. -/
  threads : Nat → Option Thread
  /-- The threads from here on are still to be created. -/
  next : Nat
  currentThread : Nat
  mode : Mode
  readyList : List (ListElement Nat)
  queues : Queue → List (ListElement Nat)
  /-- `value` of every semaphore. -/
  value : Sem → Int
  /-- `isLocked` and `currThread` of every lock. -/
  isLocked : Nat → Bool
  currThread : Nat → Option Nat
  threadToBeDestroyed : Option Nat
  log : List Record

namespace State

def setThread (st : State) (t : Nat) (th : Thread) : State :=
  { st with threads := Function.update st.threads t (some th) }

def setQueue (st : State) (q : Queue) (l : List (ListElement Nat)) : State :=
  { st with queues := Function.update st.queues q l }

def setValue (st : State) (s : Sem) (v : Int) : State :=
  { st with value := Function.update st.value s v }

def setLock (st : State) (l : Nat) (held : Bool) (by' : Option Nat) : State :=
  { st with
    isLocked := Function.update st.isLocked l held
    currThread := Function.update st.currThread l by' }

section Frames

variable (st : State) (t : Nat) (th : Thread) (q : Queue) (l : List (ListElement Nat))

@[simp] theorem setThread_queues : (st.setThread t th).queues = st.queues := rfl
@[simp] theorem setThread_readyList : (st.setThread t th).readyList = st.readyList := rfl
@[simp] theorem setThread_currentThread : (st.setThread t th).currentThread =
    st.currentThread := rfl
@[simp] theorem setThread_next : (st.setThread t th).next = st.next := rfl
@[simp] theorem setThread_threads_self : (st.setThread t th).threads t = some th := by
  simp [setThread]

theorem setThread_threads_of_ne {u : Nat} (differ : u ≠ t) :
    (st.setThread t th).threads u = st.threads u := by
  simp [setThread, differ]

@[simp] theorem setQueue_threads : (st.setQueue q l).threads = st.threads := rfl
@[simp] theorem setQueue_readyList : (st.setQueue q l).readyList = st.readyList := rfl
@[simp] theorem setQueue_currentThread : (st.setQueue q l).currentThread = st.currentThread := rfl
@[simp] theorem setQueue_queues_self : (st.setQueue q l).queues q = l := by simp [setQueue]

theorem setQueue_queues_of_ne {r : Queue} (differ : r ≠ q) :
    (st.setQueue q l).queues r = st.queues r := by
  simp [setQueue, differ]

end Frames

/-- The current thread goes on to another point of its program. -/
def goTo (st : State) (p : Point) : Option State := do
  let th ← st.threads st.currentThread
  return st.setThread st.currentThread { th with point := p }

/-! ## The scheduler -/

/-- `Scheduler::ReadyToRun`. -/
def readyToRun (st : State) (t : Nat) : Option State := do
  let th ← st.threads t
  return { st.setThread t { th with status := .ready } with
    readyList := sortedInsert t th.key st.readyList }

/-- `Thread::~Thread`: the object goes, and its two semaphores with their queues. -/
def deleteThread (st : State) (t : Nat) : State :=
  let st := st.setQueue (.semaphore (.joinSignal t)) []
  let st := st.setQueue (.semaphore (.mayDie t)) []
  { st with threads := Function.update st.threads t none }

/-- The code after `SWITCH` deletes the carcass of a finished thread. -/
def destroy (st : State) : Option State :=
  match st.threadToBeDestroyed with
  | none => some st
  | some t => do
      let _ ← st.threads t
      -- `ASSERT(this != currentThread)` in the destructor
      if t = st.currentThread then none
      else return { st.deleteThread t with
        threadToBeDestroyed := none
        log := .delete t :: st.log }

/-- `Scheduler::Run`. -/
def run (st : State) (nextThread : Nat) : Option State := do
  let oldThread ← st.threads st.currentThread
  let st := st.setThread st.currentThread { oldThread with pcState := .run }
  let th ← st.threads nextThread
  let st := { st.setThread nextThread { th with status := .running } with
    currentThread := nextThread
    mode := .thread }
  match th.pcState with
  | .threadRoot => return { st with log := .first nextThread :: st.log }
  | .run => destroy { st with log := .resume nextThread :: st.log }

/-- `queue->SortedInsert(currentThread, priority); currentThread->Sleep()`, up to the
loop of `Sleep`. -/
def sleepIn (st : State) (q : Queue) (p : Point) : Option State := do
  let th ← st.threads st.currentThread
  let st := st.setThread st.currentThread { th with status := .blocked, point := p }
  return { st.setQueue q (sortedInsert st.currentThread th.key (st.queues q)) with
    mode := .sleep }

/-- `queue->Remove()`, and `ReadyToRun` of the thread if there is one. -/
def wake (st : State) (q : Queue) : Option State :=
  match remove (st.queues q) with
  | none => some st
  | some (t, rest) => (st.setQueue q rest).readyToRun t

/-- The loop of `Broadcast`, for at most `n` threads. -/
def wakeAll (q : Queue) : Nat → State → Option State
  | 0, st => some st
  | n + 1, st => (st.wake q).bind (wakeAll q n)

/-! ## Semaphores, locks and conditions -/

/-- A turn of the loop of `Semaphore::P`; the thread sleeps at `p`, and goes on with
`andThen`. -/
def semP (st : State) (s : Sem) (p : Point) (andThen : State → Option State) : Option State :=
  if st.value s = 0 then st.sleepIn (.semaphore s) p
  else andThen (st.setValue s (st.value s - 1))

/-- `Semaphore::V`. -/
def semV (st : State) (s : Sem) : Option State := do
  let st ← st.wake (.semaphore s)
  return st.setValue s (st.value s + 1)

/-- A turn of the loop of `Lock::Acquire`. -/
def lockAcquire (st : State) (l : Nat) : Option State :=
  if st.isLocked l then st.sleepIn (.lock l) (.acquire l)
  else (st.setLock l true (some st.currentThread)).goTo .body

def heldByCurrentThread (st : State) (l : Nat) : Bool := st.currThread l = some st.currentThread

/-- `Lock::Release`. -/
def lockRelease (st : State) (l : Nat) : Option State :=
  if st.heldByCurrentThread l then do
    let st ← st.wake (.lock l)
    return st.setLock l false none
  else none

/-- `Condition::Wait` up to `Sleep`. -/
def conditionWait (st : State) (c l : Nat) : Option State :=
  if st.heldByCurrentThread l then do
    let st ← st.lockRelease l
    st.sleepIn (.condition c) (.wait c l)
  else none

/-! ## Threads -/

/-- `Thread::Thread`: `mayDie` is 1, and taken at once by a thread that can be joined. -/
def create (st : State) (joining : Bool) : State :=
  let st := st.setThread st.next
    { key := 0, joining, status := .justCreated, pcState := .threadRoot
      exitStatus := none, point := .body }
  let st := st.setValue (.mayDie st.next) (if joining then 0 else 1)
  { st.setValue (.joinSignal st.next) 0 with next := st.next + 1 }

/-- `Thread::Fork`. -/
def fork (st : State) (t : Nat) : Option State := do
  let th ← st.threads t
  -- `StackAllocate`: the thread starts again, wherever it was
  (st.setThread t { th with pcState := .threadRoot, point := .body }).readyToRun t

/-- `Thread::Yield`. -/
def yield (st : State) : Option State :=
  match remove st.readyList with
  | none => some st
  | some (nextThread, rest) => do
      let st ← { st with readyList := rest }.readyToRun st.currentThread
      st.run nextThread

/-- The end of the loop of `Thread::Sleep`. -/
def dispatch (st : State) : Option State := do
  let (nextThread, rest) ← remove st.readyList
  { st with readyList := rest }.run nextThread

/-- The end of `Finish`: `threadToBeDestroyed = currentThread; Sleep()`. -/
def die (st : State) : Option State := do
  let th ← st.threads st.currentThread
  return { st.setThread st.currentThread { th with status := .blocked, point := .finished } with
    mode := .sleep
    threadToBeDestroyed := some st.currentThread
    log := .finish st.currentThread st.threadToBeDestroyed :: st.log }

/-- `Thread::Finish`. -/
def finish (st : State) : Option State := do
  let th ← st.threads st.currentThread
  if th.joining then do
    let st ← st.semV (.joinSignal st.currentThread)
    st.semP (.mayDie st.currentThread) .finish die
  else st.die

/-- `Thread::Join` up to `joinSignal->P()`; only a thread that can be joined has a
`joinSignal`. -/
def join (st : State) (t : Nat) : Option State := do
  let th ← st.threads t
  if th.joining ∧ t ≠ st.currentThread then
    st.semP (.joinSignal t) (.join t) (goTo · (.joined t))
  else none

/-- The rest of `Thread::Join`. -/
def joinRest (st : State) (t : Nat) : Option State := do
  let th ← st.threads t
  let self ← st.threads st.currentThread
  let st := st.setThread st.currentThread { self with exitStatus := th.exitStatus, point := .body }
  st.semV (.mayDie t)

/-- What a thread does next that is not in its own procedure. -/
def proceed (st : State) : Option State := do
  let th ← st.threads st.currentThread
  match th.point with
  | .p s => st.semP s (.p s) (goTo · .body)
  | .acquire l => st.lockAcquire l
  | .wait _ l => st.lockAcquire l
  | .join t => do
      let joined ← st.threads t
      if joined.joining then st.semP (.joinSignal t) (.join t) (goTo · (.joined t)) else none
  | .joined t => st.joinRest t
  | .finish => st.semP (.mayDie st.currentThread) .finish die
  | _ => none

end State

/-! ## Runs -/

inductive Event where
  | create (joining : Bool)
  | setPriority (t : Nat) (priority : Int)
  | setExitStatus (status : Int)
  | fork (t : Nat)
  | yield
  | p (i : Nat)
  | v (i : Nat)
  | acquire (l : Nat)
  | release (l : Nat)
  | wait (c l : Nat)
  | signal (c l : Nat)
  | broadcast (c l : Nat)
  | join (t : Nat)
  | finish
  | proceed
  /-- An interrupt handler calls `V`. -/
  | interrupt (i : Nat)
  | idle
  | dispatch
  deriving DecidableEq, Repr

namespace State

def statusOf (st : State) (t : Nat) : Option ThreadStatus := (st.threads t).map Thread.status

/-- The current thread is in its own procedure. -/
def inBody (st : State) : Bool :=
  st.mode = .thread ∧ (st.threads st.currentThread).map Thread.point = some .body

/-- The current thread has interrupts on. -/
def preemptible (st : State) : Bool :=
  st.mode = .thread ∧ ((st.threads st.currentThread).map fun th => th.point.enabled) = some true

/-- A call of the current thread, in its own procedure.  `Fork` does not look at the thread
it is called on; here it is called on a new thread. -/
def call (st : State) : Event → Option State
  | .create joining => st.create joining
  | .setPriority t priority => do
      let th ← st.threads t
      return st.setThread t { th with key := priority }
  | .setExitStatus status => do
      let th ← st.threads st.currentThread
      return st.setThread st.currentThread { th with exitStatus := some status }
  | .fork t => if st.statusOf t = some .justCreated then st.fork t else none
  | .p i => st.semP (.other i) (.p (.other i)) (goTo · .body)
  | .v i => st.semV (.other i)
  -- `ASSERT(!isHeldByCurrentThread())`
  | .acquire l => if st.heldByCurrentThread l then none else st.lockAcquire l
  | .release l => st.lockRelease l
  | .wait c l => st.conditionWait c l
  | .signal c l => if st.heldByCurrentThread l then st.wake (.condition c) else none
  | .broadcast c l =>
      if st.heldByCurrentThread l then
        wakeAll (.condition c) (st.queues (.condition c)).length st
      else none
  | .join t => st.join t
  | .finish => st.finish
  | _ => none

/-- One event, if it can happen. -/
def step (st : State) : Event → Option State
  | .yield => if st.preemptible then st.yield else none
  | .proceed => if st.mode = .thread then st.proceed else none
  | .interrupt i => if st.preemptible ∨ st.mode = .idle then st.semV (.other i) else none
  | .idle => if st.mode = .sleep ∧ st.readyList = [] then some { st with mode := .idle } else none
  | .dispatch => if st.mode = .thread then none else st.dispatch
  | e => if st.inBody then st.call e else none

/-- After `Initialize`: the main thread runs, and the semaphores of the kernel have their
initial values. -/
def boot (initialValue : Nat → Int) : State where
  threads := Function.update (fun _ => none) 0
    (some { key := 0, joining := false, status := .running, pcState := .run
            exitStatus := none, point := .body })
  next := 1
  currentThread := 0
  mode := .thread
  readyList := []
  queues := fun _ => []
  value
    | .joinSignal _ => 0
    | .mayDie _ => 1
    | .other i => initialValue i
  isLocked := fun _ => false
  currThread := fun _ => none
  threadToBeDestroyed := none
  log := []

end State

end Nachos.Threads
