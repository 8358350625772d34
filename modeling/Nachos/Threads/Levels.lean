/-
# Nachos.Threads.Levels -- the interrupt level across calls and context switches

`interrupt->level` is one variable for all threads, and every routine keeps what it found
there on its own stack.  Here a routine is a list of instructions, a thread is a stack of
frames, and `SetLevel`, `OneTick`, the handlers and `Yield` call each other as they do in the
source; what the routines work on is the state of `Nachos.Threads.Thread`.

`effect` is a small type system for instructions: which level an instruction needs, and
which one it leaves.  Every routine is well typed, from any level it can be called at back to
that level (`code_flows`), and every step keeps the stacks well typed (`Typed.step`).  A thread
that was switched out is typed for interrupts off, because no switch is typed otherwise.
-/
import Nachos.Threads.Scheduler
import Nachos.Machine.Interrupt

namespace Nachos.Threads.Levels

open Nachos.Lib.Run
open Nachos.Machine.Interrupt (IntStatus)

set_option autoImplicit false

/-! ## The routines -/

/-- What an interrupt handler may do. -/
inductive HandlerOp where
  | v (s : Sem)
  | readyToRun (t : Nat)
  | yieldOnReturn
  | schedule
  deriving DecidableEq, Repr

inductive Routine where
  | p (s : Sem)
  | v (s : Sem)
  | acquire (l : Nat)
  | release (l : Nat)
  | wait (c l : Nat)
  | signal (c l : Nat)
  | broadcast (c l : Nat)
  | yield
  | fork (t : Nat)
  | sleep
  | finish
  | threadRoot
  /-- What the main thread runs. -/
  | main
  | oneTick
  | idle
  | handler (ops : List HandlerOp)
  deriving DecidableEq, Repr

inductive Instr where
  /-- `oldLevel = interrupt->SetLevel(IntOff)`. -/
  | save
  /-- `interrupt->SetLevel(oldLevel)`. -/
  | restore
  /-- `interrupt->SetLevel(IntOn)`. -/
  | enable
  /-- `interrupt->SetLevel(IntOff)`, with the old level thrown away. -/
  | disable
  | call (r : Routine)
  /-- The procedure of the thread. -/
  | body
  | assertHeld (l : Nat)
  | assertNotHeld (l : Nat)
  | assertOff
  /-- The loop of `P`, and `value--`. -/
  | pLoop (s : Sem)
  /-- `value++`. -/
  | raise (s : Sem)
  /-- The loop of `Acquire`, and taking the lock. -/
  | lockLoop (l : Nat)
  | free (l : Nat)
  | wake (q : Queue)
  | wakeAll (q : Queue)
  | enqueue (q : Queue)
  | stackAllocate (t : Nat)
  | readyToRun (t : Nat)
  /-- `FindNextToRun`, and the switch if there is a thread. -/
  | yieldTo
  | block
  /-- The loop of `Sleep`, and the switch. -/
  | sleepLoop
  /-- The handshake with `Join`, in `Finish`. -/
  | endJoin
  | record
  /-- `ChangeLevel(IntOn, IntOff)`. -/
  | tickOff
  /-- `ChangeLevel(IntOff, IntOn)`. -/
  | tickOn
  /-- `while (CheckIfDue(FALSE)) ;`. -/
  | checkDue
  /-- `if (CheckIfDue(TRUE))`. -/
  | idleFirst
  | yieldIfAsked
  | clearYield
  /-- `inHandler = TRUE`. -/
  | enter
  /-- `inHandler = FALSE`. -/
  | leave
  | yieldOnReturn
  | schedule
  deriving DecidableEq, Repr

def HandlerOp.instr : HandlerOp → Instr
  | .v s => .call (.v s)
  | .readyToRun t => .readyToRun t
  | .yieldOnReturn => .yieldOnReturn
  | .schedule => .schedule

def code : Routine → List Instr
  | .p s => [.save, .pLoop s, .restore]
  | .v s => [.save, .wake (.semaphore s), .raise s, .restore]
  | .acquire l => [.save, .assertNotHeld l, .lockLoop l, .restore]
  | .release l => [.save, .assertHeld l, .wake (.lock l), .free l, .restore]
  | .wait c l => [.save, .assertHeld l, .call (.release l), .enqueue (.condition c), .call .sleep,
      .call (.acquire l), .restore]
  | .signal c l => [.save, .assertHeld l, .wake (.condition c), .restore]
  | .broadcast c l => [.save, .assertHeld l, .wakeAll (.condition c), .restore]
  | .yield => [.save, .yieldTo, .restore]
  | .fork t => [.stackAllocate t, .save, .readyToRun t, .restore]
  | .sleep => [.assertOff, .block, .sleepLoop]
  | .finish => [.disable, .endJoin, .record, .call .sleep]
  | .threadRoot => [.enable, .body]
  | .main => [.body]
  | .oneTick => [.tickOff, .checkDue, .tickOn, .yieldIfAsked]
  | .idle => [.idleFirst, .checkDue, .clearYield]
  | .handler ops => .enter :: (ops.map HandlerOp.instr ++ [.leave])

/-- What a thread may call from its procedure; a user instruction calls `OneTick`. -/
def Routine.callable : Routine → Bool
  | .p _ | .v _ | .acquire _ | .release _ | .wait _ _ | .signal _ _ | .broadcast _ _ | .yield
  | .fork _ | .finish | .oneTick => true
  | _ => false

/-! ## The machine -/

/-- The level, and whether a handler is running. -/
structure Mode where
  level : IntStatus
  inHandler : Bool
  deriving DecidableEq, Repr

/-- A call: what is left of its code, its `oldLevel`, and the mode it was made in. -/
structure Frame where
  routine : Routine
  rest : List Instr
  old : IntStatus
  entry : Mode
  deriving DecidableEq, Repr

structure Kernel where
  data : State
  mode : Mode
  yieldRequested : Bool
  /-- The calls every thread is in, the innermost first. -/
  stack : Nat → List Frame

inductive Label where
  | go
  /-- The procedure of the current thread calls a routine, creates a thread, or sets the level. -/
  | call (r : Routine)
  | create (joining : Bool)
  | setLevel (now : IntStatus)
  /-- An interrupt is due. -/
  | interrupt (ops : List HandlerOp)
  deriving DecidableEq, Repr

namespace Kernel

def setStack (k : Kernel) (s : List Frame) : Kernel :=
  { k with stack := Function.update k.stack k.data.currentThread s }

/-- The frame `f`, on top of `fs`, goes on with `is`. -/
def advance (k : Kernel) (f : Frame) (fs : List Frame) (is : List Instr) : Kernel :=
  k.setStack ({ f with rest := is } :: fs)

/-- Call a routine. -/
def push (k : Kernel) (r : Routine) : Kernel :=
  k.setStack (⟨r, code r, .intOff, k.mode⟩ :: k.stack k.data.currentThread)

/-- `Interrupt::SetLevel`. -/
def setLevel (k : Kernel) (now : IntStatus) : Option Kernel :=
  if now = .intOn ∧ k.mode.inHandler then none
  else
    let k' := { k with mode := { k.mode with level := now } }
    if now = .intOn ∧ k.mode.level = .intOff then some (k'.push .oneTick) else some k'

def withData (k : Kernel) (data : Option State) : Option Kernel :=
  data.map fun data => { k with data }

/-- `queue->SortedInsert(currentThread, priority)`. -/
def enqueue (data : State) (q : Queue) : Option State :=
  (data.threads data.currentThread).map fun th =>
    data.setQueue q (sortedInsert data.currentThread th.key (data.queues q))

/-- `status = BLOCKED`. -/
def block (data : State) : Option State :=
  (data.threads data.currentThread).map fun th =>
    data.setThread data.currentThread { th with status := .blocked }

/-- `new Thread(name, join)`, up to `mayDie->P()`. -/
def create (data : State) (joining : Bool) : State :=
  (data.create joining).setValue (.mayDie data.next) 1

/-- `StackAllocate`: the thread will start in `ThreadRoot`.  On itself a thread only spoils what
the next `SWITCH` overwrites. -/
def stackAllocate (k : Kernel) (t : Nat) : Option Kernel :=
  (k.data.threads t).map fun th =>
    { k with
      data := k.data.setThread t { th with pcState := .threadRoot }
      stack :=
        if t = k.data.currentThread then k.stack
        else Function.update k.stack t
          [⟨.threadRoot, code .threadRoot, .intOff, ⟨.intOff, false⟩⟩] }

/-- One instruction `i` of the frame `f`, with `is` after it and the frames `fs` below. -/
def perform (k : Kernel) (f : Frame) (fs : List Frame) (is : List Instr) :
    Instr → Label → Option Kernel
  | .save, .go => (k.setStack ({ f with rest := is, old := k.mode.level } :: fs)).setLevel .intOff
  | .restore, .go => (k.advance f fs is).setLevel f.old
  | .enable, .go => (k.advance f fs is).setLevel .intOn
  | .disable, .go => (k.advance f fs is).setLevel .intOff
  | .call r, .go => (k.advance f fs is).push r
  | .body, .go => k.advance f fs (.call .finish :: is)
  | .body, .call r => if r.callable then k.push r else none
  | .body, .create joining =>
      let k' : Kernel := { k with data := create k.data joining }
      if joining then k'.push (.p (.mayDie k.data.next)) else k'
  | .body, .setLevel now => k.setLevel now
  | .assertHeld l, .go =>
      if k.data.heldByCurrentThread l then k.advance f fs is else none
  | .assertNotHeld l, .go =>
      if k.data.heldByCurrentThread l then none else k.advance f fs is
  | .assertOff, .go =>
      if k.mode.level = .intOff then k.advance f fs is else none
  | .pLoop s, .go =>
      if k.data.value s = 0 then
        (k.advance f fs (.call .sleep :: .pLoop s :: is)).withData
          (enqueue k.data (.semaphore s))
      else
        (k.advance f fs is).withData
          (k.data.setValue s (k.data.value s - 1))
  | .raise s, .go =>
      (k.advance f fs is).withData (k.data.setValue s (k.data.value s + 1))
  | .lockLoop l, .go =>
      if k.data.isLocked l then
        (k.advance f fs (.call .sleep :: .lockLoop l :: is)).withData
          (enqueue k.data (.lock l))
      else
        (k.advance f fs is).withData
          (k.data.setLock l true (some k.data.currentThread))
  | .free l, .go =>
      (k.advance f fs is).withData (k.data.setLock l false none)
  | .wake q, .go => (k.advance f fs is).withData (k.data.wake q)
  | .wakeAll q, .go =>
      (k.advance f fs is).withData
        (State.wakeAll q (k.data.queues q).length k.data)
  | .enqueue q, .go => (k.advance f fs is).withData (enqueue k.data q)
  | .stackAllocate t, .go => (k.advance f fs is).stackAllocate t
  | .readyToRun t, .go =>
      (k.advance f fs is).withData (k.data.readyToRun t)
  | .yieldTo, .go => (k.advance f fs is).withData k.data.yield
  | .block, .go => (k.advance f fs is).withData (block k.data)
  | .sleepLoop, .go =>
      if k.data.readyList = [] then k.push .idle
      else (k.advance f fs is).withData k.data.dispatch
  | .endJoin, .go =>
      (k.data.threads k.data.currentThread).map fun th =>
        if th.joining then
          k.advance f fs (.call (.v (.joinSignal k.data.currentThread)) ::
            .call (.p (.mayDie k.data.currentThread)) :: is)
        else k.advance f fs is
  | .record, .go =>
      (k.advance f fs is).withData
        (some { k.data with threadToBeDestroyed := some k.data.currentThread })
  | .tickOff, .go =>
      some { k.advance f fs is with mode := { k.mode with level := .intOff } }
  | .tickOn, .go =>
      some { k.advance f fs is with mode := { k.mode with level := .intOn } }
  -- `ASSERT(level == IntOff)`
  | .checkDue, .go =>
      if k.mode.level = .intOff then k.advance f fs is else none
  | .checkDue, .interrupt ops => if k.mode.level = .intOff then k.push (.handler ops) else none
  | .idleFirst, .interrupt ops =>
      if k.mode.level = .intOff then
        (k.advance f fs is).push (.handler ops)
      else none
  | .yieldIfAsked, .go =>
      let k' : Kernel := k.advance f fs is
      if k.yieldRequested then { k' with yieldRequested := false }.push .yield else k'
  | .clearYield, .go => some { k.advance f fs is with yieldRequested := false }
  | .enter, .go =>
      some { k.advance f fs is with mode := { k.mode with inHandler := true } }
  | .leave, .go =>
      some { k.advance f fs is with mode := { k.mode with inHandler := false } }
  -- `ASSERT(inHandler == TRUE)`
  | .yieldOnReturn, .go =>
      if k.mode.inHandler then
        some { k.advance f fs is with yieldRequested := true }
      else none
  | .schedule, .go => k.advance f fs is
  | _, _ => none

/-- The current thread executes one instruction, or returns from a call. -/
def step (k : Kernel) (label : Label) : Option Kernel :=
  match k.stack k.data.currentThread with
  | [] => none
  | f :: fs =>
      match f.rest with
      | [] => if label = .go then some (k.setStack fs) else none
      | i :: is => k.perform f fs is i label

/-- The main thread runs, with interrupts on. -/
def boot (initialValue : Nat → Int) : Kernel where
  data := State.boot initialValue
  mode := ⟨.intOn, false⟩
  yieldRequested := false
  stack := Function.update (fun _ => []) 0 [⟨.main, code .main, .intOff, ⟨.intOn, false⟩⟩]

end Kernel

/-! ## Types for instructions -/

/-- The mode a routine is called in. -/
def Routine.pre (m : Mode) : Routine → Bool
  | .v _ => m.level = .intOff || !m.inHandler
  | .sleep | .idle | .handler _ | .threadRoot => m = ⟨.intOff, false⟩
  | _ => !m.inHandler

/-- The mode a routine returns in. -/
def Routine.post (m : Mode) : Routine → Mode
  | .finish | .main | .threadRoot => ⟨.intOff, false⟩
  | .oneTick => ⟨.intOn, false⟩
  | _ => m

/-- What an instruction makes of `oldLevel` and of the mode; `none` where it must not stand. -/
def effect (old : IntStatus) (m : Mode) : Instr → Option (IntStatus × Mode)
  | .save => some (m.level, { m with level := .intOff })
  | .restore => if old = .intOn ∧ m.inHandler then none else some (old, { m with level := old })
  | .enable | .tickOn => if m.inHandler then none else some (old, { m with level := .intOn })
  | .disable | .tickOff => some (old, { m with level := .intOff })
  | .call r => if r.pre m then some (old, r.post m) else none
  | .body => if m.inHandler then none else some (old, ⟨.intOff, false⟩)
  | .yieldIfAsked => if m.inHandler then none else some (old, m)
  | .yieldOnReturn => if m.inHandler then some (old, m) else none
  | .pLoop _ | .lockLoop _ | .yieldTo | .sleepLoop | .checkDue | .idleFirst | .endJoin =>
      if m = ⟨.intOff, false⟩ then some (old, m) else none
  | .enter => if m = ⟨.intOff, false⟩ then some (old, ⟨.intOff, true⟩) else none
  | .leave => if m = ⟨.intOff, true⟩ then some (old, ⟨.intOff, false⟩) else none
  | _ => some (old, m)

/-- The mode after a list of instructions. -/
def flow : List Instr → IntStatus → Mode → Option Mode
  | [], _, m => some m
  | i :: is, old, m => (effect old m i).bind fun next => flow is next.1 next.2

section Flow

variable {old : IntStatus} {m : Mode} {is : List Instr}

theorem flow_append {js : List Instr} (keeps : ∀ i ∈ is, effect old m i = some (old, m)) :
    flow (is ++ js) old m = flow js old m := by
  induction is with
  | nil => rfl
  | cons i is ih =>
      have here : effect old m i = some (old, m) := keeps i (List.mem_cons_self ..)
      rw [List.cons_append, flow, here, Option.bind_some]
      exact ih fun j member => keeps j (List.mem_cons_of_mem i member)

/-- A handler keeps the mode it runs in. -/
theorem effect_handlerOp (op : HandlerOp) :
    effect old ⟨.intOff, true⟩ op.instr = some (old, ⟨.intOff, true⟩) := by
  cases op <;> rfl

theorem handler_flows (ops : List HandlerOp) :
    flow (code (.handler ops)) old ⟨.intOff, false⟩ = some ⟨.intOff, false⟩ := by
  have keeps : ∀ i ∈ ops.map HandlerOp.instr,
      effect old ⟨.intOff, true⟩ i = some (old, ⟨.intOff, true⟩) := by
    intro i member
    obtain ⟨op, -, rfl⟩ := List.mem_map.mp member
    exact effect_handlerOp op
  have entered : flow (code (.handler ops)) old ⟨.intOff, false⟩ =
      flow (ops.map HandlerOp.instr ++ [.leave]) old ⟨.intOff, true⟩ := rfl
  rw [entered, flow_append keeps]
  rfl

/-- **Every routine is well typed.**  Called where it may be called, it goes from instruction to
instruction, each of them where it may stand, to the mode it returns in. -/
theorem code_flows (r : Routine) (allowed : r.pre m) : flow (code r) old m = some (r.post m) := by
  obtain ⟨level, inHandler⟩ := m
  cases r with
  | handler ops =>
      obtain ⟨rfl, rfl⟩ : level = .intOff ∧
          inHandler = false := by simpa [Routine.pre] using allowed
      exact handler_flows ops
  | _ => revert allowed; cases level <;> cases inHandler <;> simp [Routine.pre] <;> rfl

end Flow

/-- The frames of a thread, if the mode is `m` when it goes on. -/
def Flows (m : Mode) : List Frame → Prop
  | [] => True
  | f :: fs => flow f.rest f.old m = some (f.routine.post f.entry) ∧
      Flows (f.routine.post f.entry) fs

/-- The current thread can go on in the mode `m`, and every other one, when it is switched to,
with interrupts off. -/
structure Resumes (m : Mode) (k : Kernel) : Prop where
  current : Flows m (k.stack k.data.currentThread)
  others : ∀ t, t ≠ k.data.currentThread → Flows ⟨.intOff, false⟩ (k.stack t)

structure Typed (k : Kernel) : Prop where
  resumes : Resumes k.mode k
  masked : k.mode.inHandler → k.mode.level = .intOff

/-! ## What the steps keep -/

section Data

variable {st st' : State} {t : Nat} {q : Queue}

theorem readyToRun_currentThread (ready : st.readyToRun t = some st') :
    st'.currentThread = st.currentThread := by
  obtain ⟨th, -, made⟩ := Option.bind_eq_some_iff.mp ready
  cases made
  rfl

theorem wake_currentThread (woken : st.wake q = some st') :
    st'.currentThread = st.currentThread := by
  unfold State.wake at woken
  split at woken
  · cases woken
    rfl
  · have kept := readyToRun_currentThread woken
    exact kept

theorem wakeAll_currentThread {n : Nat} (woken : State.wakeAll q n st = some st') :
    st'.currentThread = st.currentThread := by
  induction n generalizing st with
  | zero =>
      cases woken
      rfl
  | succ n ih =>
      obtain ⟨middle, one, rest⟩ := Option.bind_eq_some_iff.mp woken
      exact (ih rest).trans (wake_currentThread one)

theorem enqueue_currentThread (queued : Kernel.enqueue st q = some st') :
    st'.currentThread = st.currentThread := by
  obtain ⟨th, -, rfl⟩ := Option.map_eq_some_iff.mp queued
  rfl

theorem block_currentThread (blocked : Kernel.block st = some st') :
    st'.currentThread = st.currentThread := by
  obtain ⟨th, -, rfl⟩ := Option.map_eq_some_iff.mp blocked
  rfl

end Data

section Step

variable {k k' : Kernel} {m : Mode} {f : Frame} {fs : List Frame} {i : Instr} {is : List Instr}
  {label : Label}

theorem Resumes.setStack (resumes : Resumes m k) {m' : Mode} {frames : List Frame}
    (flows : Flows m' frames) : Resumes m' (k.setStack frames) where
  current := by simpa [Kernel.setStack] using flows
  others t other := by
    have apart : t ≠ k.data.currentThread := other
    simpa [Kernel.setStack, apart] using resumes.others t apart

/-- A call, where the caller can go on in the mode the routine returns in. -/
theorem Resumes.push {r : Routine} (resumes : Resumes (r.post k.mode) k) (allowed : r.pre k.mode)
    (masked : k.mode.inHandler → k.mode.level = .intOff) : Typed (k.push r) where
  resumes := resumes.setStack ⟨code_flows r allowed, resumes.current⟩
  masked := masked

theorem Resumes.setLevel {now : IntStatus} (resumes : Resumes { k.mode with level := now } k)
    (moved : k.setLevel now = some k') : Typed k' := by
  unfold Kernel.setLevel at moved
  split at moved
  · cases moved
  · rename_i permitted
    have quiet : now = .intOn → k.mode.inHandler = false := by
      intro on
      simpa [on] using permitted
    have masked : k.mode.inHandler → now = .intOff := by
      intro handling
      cases now with
      | intOff => rfl
      | intOn => simp [quiet rfl] at handling
    split at moved
    · rename_i raised
      cases moved
      obtain ⟨rfl, -⟩ := raised
      refine Resumes.push ⟨?_, resumes.others⟩ ?_ masked
      · simpa [Routine.post, quiet rfl] using resumes.current
      · simp [Routine.pre, quiet rfl]
    · cases moved
      exact ⟨⟨resumes.current, resumes.others⟩, masked⟩

theorem Typed.withData {data : Option State} (typed : Typed k)
    (same : ∀ st, data = some st → st.currentThread = k.data.currentThread)
    (moved : k.withData data = some k') : Typed k' := by
  obtain ⟨st, found, rfl⟩ := Option.map_eq_some_iff.mp moved
  have unmoved : st.currentThread = k.data.currentThread := same st found
  refine ⟨⟨?_, ?_⟩, typed.masked⟩
  · simpa [unmoved] using typed.resumes.current
  · simpa [unmoved] using typed.resumes.others

/-- With interrupts off and outside of a handler, any thread may become the current one. -/
theorem Typed.switch {data : Option State} (typed : Typed k) (off : k.mode = ⟨.intOff, false⟩)
    (moved : k.withData data = some k') : Typed k' := by
  obtain ⟨st, -, rfl⟩ := Option.map_eq_some_iff.mp moved
  have every (t : Nat) : Flows ⟨.intOff, false⟩ (k.stack t) := by
    by_cases current : t = k.data.currentThread
    · rw [current, ← off]
      exact typed.resumes.current
    · exact typed.resumes.others t current
  refine ⟨⟨?_, fun t _ => every t⟩, typed.masked⟩
  change Flows k.mode (k.stack st.currentThread)
  rw [off]
  exact every _

theorem Typed.stackAllocate {t : Nat} (typed : Typed k) (moved : k.stackAllocate t = some k') :
    Typed k' := by
  obtain ⟨th, -, rfl⟩ := Option.map_eq_some_iff.mp moved
  refine ⟨⟨?_, fun u other => ?_⟩, typed.masked⟩
  · change Flows k.mode ((if t = k.data.currentThread then k.stack else _) k.data.currentThread)
    split
    · exact typed.resumes.current
    · rename_i apart
      rw [Function.update_of_ne (Ne.symm apart)]
      exact typed.resumes.current
  · change Flows _ ((if t = k.data.currentThread then k.stack else _) u)
    have other' : u ≠ k.data.currentThread := other
    split
    · exact typed.resumes.others u other'
    · by_cases same : u = t
      · subst same
        rw [Function.update_self]
        exact ⟨rfl, trivial⟩
      · rw [Function.update_of_ne same]
        exact typed.resumes.others u other'

/-- What is left of the frame at the top has a type. -/
theorem Typed.next (typed : Typed k) (top : k.stack k.data.currentThread = f :: fs)
    (rest : f.rest = i :: is) :
    ∃ old m, effect f.old k.mode i = some (old, m) ∧
      Resumes m (k.setStack ({ f with rest := is, old } :: fs)) := by
  have flows := typed.resumes.current
  rw [top] at flows
  obtain ⟨here, below⟩ := flows
  rw [rest] at here
  obtain ⟨⟨old, m⟩, allowed, after⟩ := Option.bind_eq_some_iff.mp here
  exact ⟨old, m, allowed, typed.resumes.setStack ⟨after, below⟩⟩

/-- The frame at the top goes on with other instructions of the same type. -/
theorem Typed.exchange (typed : Typed k) (top : k.stack k.data.currentThread = f :: fs)
    {rest : List Instr} (same : flow rest f.old k.mode = flow f.rest f.old k.mode) :
    Typed (k.advance f fs rest) := by
  have flows := typed.resumes.current
  rw [top] at flows
  exact ⟨typed.resumes.setStack ⟨same.trans flows.1, flows.2⟩, typed.masked⟩

/-- An instruction that keeps `oldLevel` and the mode. -/
theorem Typed.advance (typed : Typed k) (top : k.stack k.data.currentThread = f :: fs)
    (rest : f.rest = i :: is) (neutral : effect f.old k.mode i = some (f.old, k.mode)) :
    Typed (k.advance f fs is) := by
  apply typed.exchange top
  rw [rest, flow, neutral, Option.bind_some]

/-- The instructions that need interrupts off, outside of a handler. -/
def Instr.atomic : Instr → Bool
  | .pLoop _ | .lockLoop _ | .yieldTo | .sleepLoop | .checkDue | .idleFirst | .endJoin => true
  | _ => false

theorem effect_atomic (old : IntStatus) (m : Mode) (atomic : i.atomic) :
    effect old m i = if m = ⟨.intOff, false⟩ then some (old, m) else none := by
  cases i <;> first | rfl | cases atomic

theorem Typed.off (typed : Typed k) (top : k.stack k.data.currentThread = f :: fs)
    (rest : f.rest = i :: is) (atomic : i.atomic) : k.mode = ⟨.intOff, false⟩ := by
  obtain ⟨old, m, allowed, -⟩ := typed.next top rest
  rw [effect_atomic _ _ atomic] at allowed
  exact (Option.ite_none_right_eq_some.mp allowed).1

theorem Typed.advanceAtomic (typed : Typed k) (top : k.stack k.data.currentThread = f :: fs)
    (rest : f.rest = i :: is) (atomic : i.atomic) : Typed (k.advance f fs is) := by
  apply typed.advance top rest
  rw [effect_atomic _ _ atomic, if_pos (typed.off top rest atomic)]

/-- A loop of `P` or `Acquire` goes to sleep before its next turn. -/
theorem Typed.sleepFirst (typed : Typed k) (top : k.stack k.data.currentThread = f :: fs)
    (rest : f.rest = i :: is) (atomic : i.atomic) :
    Typed (k.advance f fs (.call .sleep :: i :: is)) := by
  apply typed.exchange top
  rw [typed.off top rest atomic, rest]
  rfl

/-- One instruction of the code. -/
theorem Typed.go (typed : Typed k) (top : k.stack k.data.currentThread = f :: fs)
    (rest : f.rest = i :: is) (moved : k.perform f fs is i .go = some k') : Typed k' := by
  obtain ⟨old, m, allowed, resumes⟩ := typed.next top rest
  -- the instructions that keep the mode, and change nothing about who runs
  have plain (neutral : effect f.old k.mode i = some (f.old, k.mode)) {data : Option State}
      (same : ∀ st, data = some st → st.currentThread = k.data.currentThread)
      (moved : (k.advance f fs is).withData data = some k') : Typed k' :=
    (typed.advance top rest neutral).withData same moved
  cases i with
  | save =>
      cases allowed
      exact resumes.setLevel moved
  | restore =>
      obtain ⟨-, same⟩ := Option.ite_none_left_eq_some.mp allowed
      cases same
      exact resumes.setLevel moved
  | enable =>
      obtain ⟨-, same⟩ := Option.ite_none_left_eq_some.mp allowed
      cases same
      exact resumes.setLevel moved
  | disable =>
      cases allowed
      exact resumes.setLevel moved
  | call r =>
      obtain ⟨may, same⟩ := Option.ite_none_right_eq_some.mp allowed
      cases same
      cases moved
      exact resumes.push may typed.masked
  | body =>
      obtain ⟨outside, same⟩ := Option.ite_none_left_eq_some.mp allowed
      cases moved
      apply typed.exchange top
      have may : Routine.finish.pre k.mode := by simpa [Routine.pre] using outside
      simp [rest, flow, effect, may, outside, Routine.post]
  | assertHeld l =>
      obtain ⟨-, same⟩ := Option.ite_none_right_eq_some.mp moved
      cases same
      exact typed.advance top rest rfl
  | assertNotHeld l =>
      obtain ⟨-, same⟩ := Option.ite_none_left_eq_some.mp moved
      cases same
      exact typed.advance top rest rfl
  | assertOff =>
      obtain ⟨-, same⟩ := Option.ite_none_right_eq_some.mp moved
      cases same
      exact typed.advance top rest rfl
  | pLoop s =>
      simp only [Kernel.perform] at moved
      split at moved
      · exact (typed.sleepFirst top rest rfl).withData (fun st => enqueue_currentThread) moved
      · apply (typed.advanceAtomic top rest rfl).withData _ moved
        rintro st ⟨⟩
        rfl
  | lockLoop l =>
      simp only [Kernel.perform] at moved
      split at moved
      · exact (typed.sleepFirst top rest rfl).withData (fun st => enqueue_currentThread) moved
      · apply (typed.advanceAtomic top rest rfl).withData _ moved
        rintro st ⟨⟩
        rfl
  | raise s => exact plain rfl (by rintro st ⟨⟩; rfl) moved
  | free l => exact plain rfl (by rintro st ⟨⟩; rfl) moved
  | wake q => exact plain rfl (fun st => wake_currentThread) moved
  | wakeAll q => exact plain rfl (fun st => wakeAll_currentThread) moved
  | enqueue q => exact plain rfl (fun st => enqueue_currentThread) moved
  | readyToRun t => exact plain rfl (fun st => readyToRun_currentThread) moved
  | block => exact plain rfl (fun st => block_currentThread) moved
  | record => exact plain rfl (by rintro st ⟨⟩; rfl) moved
  | stackAllocate t => exact (typed.advance top rest rfl).stackAllocate moved
  | yieldTo =>
      exact (typed.advanceAtomic top rest rfl).switch (typed.off top rest rfl) moved
  | sleepLoop =>
      have off := typed.off top rest rfl
      simp only [Kernel.perform] at moved
      split at moved
      · cases moved
        exact Resumes.push typed.resumes (by rw [off]; rfl) typed.masked
      · exact (typed.advanceAtomic top rest rfl).switch off moved
  | endJoin =>
      obtain ⟨th, -, rfl⟩ := Option.map_eq_some_iff.mp moved
      split
      · apply typed.exchange top
        rw [typed.off top rest rfl, rest]
        rfl
      · exact typed.advanceAtomic top rest rfl
  | tickOff =>
      cases allowed
      cases moved
      exact ⟨⟨resumes.current, resumes.others⟩, fun _ => rfl⟩
  | tickOn =>
      obtain ⟨outside, same⟩ := Option.ite_none_left_eq_some.mp allowed
      cases same
      cases moved
      exact ⟨⟨resumes.current, resumes.others⟩, fun inside => absurd inside outside⟩
  | checkDue =>
      obtain ⟨-, same⟩ := Option.ite_none_right_eq_some.mp moved
      cases same
      exact typed.advanceAtomic top rest rfl
  | idleFirst => cases moved
  | yieldIfAsked =>
      obtain ⟨outside, same⟩ := Option.ite_none_left_eq_some.mp allowed
      cases same
      simp only [Kernel.perform] at moved
      split at moved
      · cases moved
        have may : Routine.yield.pre k.mode := by simpa [Routine.pre] using outside
        exact Resumes.push ⟨resumes.current, resumes.others⟩ may typed.masked
      · cases moved
        exact ⟨resumes, typed.masked⟩
  | clearYield =>
      cases allowed
      cases moved
      exact ⟨⟨resumes.current, resumes.others⟩, typed.masked⟩
  | enter =>
      obtain ⟨off, same⟩ := Option.ite_none_right_eq_some.mp allowed
      cases same
      cases moved
      have entered : ({ k.mode with inHandler := true } : Mode) = ⟨.intOff, true⟩ := by rw [off]
      refine ⟨⟨?_, resumes.others⟩, fun _ => by rw [entered]⟩
      rw [entered]
      exact resumes.current
  | leave =>
      obtain ⟨inside, same⟩ := Option.ite_none_right_eq_some.mp allowed
      cases same
      cases moved
      have left : ({ k.mode with inHandler := false } : Mode) = ⟨.intOff, false⟩ := by rw [inside]
      refine ⟨⟨?_, resumes.others⟩, fun _ => by rw [left]⟩
      rw [left]
      exact resumes.current
  | yieldOnReturn =>
      obtain ⟨inside, same⟩ := Option.ite_none_right_eq_some.mp allowed
      cases same
      obtain ⟨-, same⟩ := Option.ite_none_right_eq_some.mp moved
      cases same
      exact ⟨⟨resumes.current, resumes.others⟩, typed.masked⟩
  | schedule =>
      cases moved
      exact typed.advance top rest rfl

/-- What the procedure of a thread does. -/
theorem Typed.body (typed : Typed k) (top : k.stack k.data.currentThread = f :: fs)
    (rest : f.rest = .body :: is) (other : label ≠ .go)
    (moved : k.perform f fs is .body label = some k') : Typed k' := by
  obtain ⟨old, m, allowed, -⟩ := typed.next top rest
  obtain ⟨outside, -⟩ := Option.ite_none_left_eq_some.mp allowed
  have outside : k.mode.inHandler = false := by simpa using outside
  -- the procedure can be called back in any mode outside of a handler
  have anywhere {m' : Mode} (outside' : m'.inHandler = false) : Resumes m' k := by
    have flows := typed.resumes.current
    rw [top] at flows
    refine ⟨?_, typed.resumes.others⟩
    rw [top]
    refine ⟨?_, flows.2⟩
    rw [← flows.1, rest]
    simp [flow, effect, outside, outside']
  cases label with
  | go => exact absurd rfl other
  | call r =>
      obtain ⟨callable, same⟩ := Option.ite_none_right_eq_some.mp moved
      cases same
      refine Resumes.push (anywhere ?_) ?_ typed.masked
      · cases r <;> first | exact outside | rfl
      · cases r <;> first | cases callable; done | simp [Routine.pre, outside]
  | create joining =>
      have kept : Typed { k with data := Kernel.create k.data joining } :=
        ⟨⟨typed.resumes.current, typed.resumes.others⟩, typed.masked⟩
      simp only [Kernel.perform] at moved
      split at moved
      · cases moved
        exact Resumes.push kept.resumes (by simp [Routine.pre, outside]) typed.masked
      · cases moved
        exact kept
  | setLevel now =>
      have resumes : Resumes { k.mode with level := now } k := anywhere outside
      exact resumes.setLevel moved
  | interrupt ops => cases moved

/-- **Every step keeps the stacks well typed.** -/
theorem Typed.step (typed : Typed k) (moved : k.step label = some k') : Typed k' := by
  unfold Kernel.step at moved
  split at moved
  · cases moved
  rename_i f fs top
  split at moved
  · rename_i done
    obtain ⟨-, same⟩ := Option.ite_none_right_eq_some.mp moved
    cases same
    -- a return: the mode is the one the frame below expects
    have flows := typed.resumes.current
    rw [top] at flows
    obtain ⟨here, below⟩ := flows
    rw [done] at here
    have back : k.mode = f.routine.post f.entry := Option.some.inj here
    rw [← back] at below
    exact ⟨typed.resumes.setStack below, typed.masked⟩
  · rename_i i is rest
    by_cases going : label = .go
    · subst going
      exact typed.go top rest moved
    cases i with
    | body => exact typed.body top rest going moved
    | checkDue =>
        have off := typed.off top rest rfl
        cases label with
        | interrupt ops =>
            obtain ⟨-, same⟩ := Option.ite_none_right_eq_some.mp moved
            cases same
            exact Resumes.push typed.resumes (by rw [off]; rfl) typed.masked
        | go => exact absurd rfl going
        | _ => cases moved
    | idleFirst =>
        have off : (k.advance f fs is).mode = ⟨.intOff, false⟩ := typed.off top rest rfl
        cases label with
        | interrupt ops =>
            obtain ⟨-, same⟩ := Option.ite_none_right_eq_some.mp moved
            cases same
            have advanced := typed.advanceAtomic top rest rfl
            exact Resumes.push advanced.resumes (by rw [off]; rfl) advanced.masked
        | go => exact absurd rfl going
        | _ => cases moved
    | _ => cases label <;> first | exact absurd rfl going | cases moved

end Step

theorem boot_typed (initialValue : Nat → Int) : Typed (Kernel.boot initialValue) where
  resumes := by
    refine ⟨⟨rfl, trivial⟩, fun t other => ?_⟩
    have apart : t ≠ 0 := other
    simp [Kernel.boot, apart, Flows]
  masked inside := by cases inside

/-! ## The discipline -/

/-- The routines that promise to restore the level. -/
def Routine.restores : Routine → Bool
  | .p _ | .v _ | .acquire _ | .release _ | .wait _ _ | .signal _ _ | .broadcast _ _ | .yield
  | .fork _ => true
  | _ => false

namespace Kernel

/-- The call the current thread returns from in its next step. -/
def returning (k : Kernel) : Option Frame :=
  match k.stack k.data.currentThread with
  | f :: _ => if f.rest = [] then some f else none
  | [] => none

/-- The instruction the current thread executes next, and the frame it stands in. -/
def upcoming (k : Kernel) : Option (Frame × Instr) :=
  match k.stack k.data.currentThread with
  | f :: _ => f.rest.head?.map fun i => (f, i)
  | [] => none

/-- The next step is a `SWITCH`. -/
def switching (k : Kernel) : Prop :=
  ∃ f i, k.upcoming = some (f, i) ∧ (i = .yieldTo ∨ i = .sleepLoop) ∧ k.data.readyList ≠ []

/-- The argument of the call of `SetLevel` that the next step makes. -/
def setsLevel (k : Kernel) (label : Label) : Option IntStatus :=
  match k.upcoming, label with
  | some (_, .save), .go | some (_, .disable), .go => some .intOff
  | some (f, .restore), .go => some f.old
  | some (_, .enable), .go => some .intOn
  | some (_, .body), .setLevel now => some now
  | _, _ => none

end Kernel

structure Disciplined (k : Kernel) : Prop where
  /-- A call returns with the level it was made with. -/
  returns : ∀ f, k.returning = some f → f.routine.restores → k.mode.level = f.entry.level
  switches : k.switching → k.mode.level = .intOff
  handlers : k.mode.inHandler → k.mode.level = .intOff
  /-- A handler is started with interrupts off. -/
  due : ∀ f i, k.upcoming = some (f, i) → i = .checkDue ∨ i = .idleFirst → k.mode.level = .intOff
  /-- The assertion in `SetLevel`. -/
  asserts : ∀ label now, k.setsLevel label = some now → now = .intOff ∨ k.mode.inHandler = false

section Discipline

variable {k : Kernel} {f : Frame} {i : Instr}

theorem upcoming_eq_some (next : k.upcoming = some (f, i)) :
    ∃ fs is, k.stack k.data.currentThread = f :: fs ∧ f.rest = i :: is := by
  unfold Kernel.upcoming at next
  split at next
  · rename_i f' fs top
    obtain ⟨j, head, same⟩ := Option.map_eq_some_iff.mp next
    cases same
    obtain ⟨is, rest⟩ := List.head?_eq_some_iff.mp head
    exact ⟨fs, is, top, rest⟩
  · cases next

theorem returning_eq_some (back : k.returning = some f) :
    ∃ fs, k.stack k.data.currentThread = f :: fs ∧ f.rest = [] := by
  unfold Kernel.returning at back
  split at back
  · rename_i f' fs top
    obtain ⟨done, same⟩ := Option.ite_none_right_eq_some.mp back
    cases same
    exact ⟨fs, top, done⟩
  · cases back

theorem Typed.level_off (typed : Typed k) (next : k.upcoming = some (f, i)) (atomic : i.atomic) :
    k.mode.level = .intOff := by
  obtain ⟨fs, is, top, rest⟩ := upcoming_eq_some next
  rw [typed.off top rest atomic]

theorem Typed.returns (typed : Typed k) (back : k.returning = some f)
    (restores : f.routine.restores) : k.mode.level = f.entry.level := by
  obtain ⟨fs, top, done⟩ := returning_eq_some back
  have flows := typed.resumes.current
  rw [top] at flows
  have here := flows.1
  rw [done] at here
  have mode : k.mode = f.routine.post f.entry := Option.some.inj here
  have entry : f.routine.post f.entry = f.entry := by
    cases shape : f.routine <;> rw [shape] at restores <;> first | rfl | cases restores
  rw [mode, entry]

theorem Typed.asserts (typed : Typed k) {label : Label} {now : IntStatus}
    (sets : k.setsLevel label = some now) : now = .intOff ∨ k.mode.inHandler = false := by
  -- what stands in front of the call allows it
  have allowed {f : Frame} {i : Instr} (next : k.upcoming = some (f, i)) :
      ∃ r, effect f.old k.mode i = some r := by
    obtain ⟨fs, is, top, rest⟩ := upcoming_eq_some next
    obtain ⟨old, m, typedHere, -⟩ := typed.next top rest
    exact ⟨_, typedHere⟩
  unfold Kernel.setsLevel at sets
  split at sets
  · cases sets
    exact .inl rfl
  · cases sets
    exact .inl rfl
  · rename_i f next
    cases sets
    obtain ⟨r, here⟩ := allowed next
    obtain ⟨may, -⟩ := Option.ite_none_left_eq_some.mp here
    cases level : f.old with
    | intOff => exact .inl rfl
    | intOn => exact .inr (by simpa [level] using may)
  · rename_i next
    obtain ⟨r, here⟩ := allowed next
    obtain ⟨may, -⟩ := Option.ite_none_left_eq_some.mp here
    exact .inr (by simpa using may)
  · rename_i next
    obtain ⟨r, here⟩ := allowed next
    obtain ⟨may, -⟩ := Option.ite_none_left_eq_some.mp here
    exact .inr (by simpa using may)
  · cases sets

theorem Typed.disciplined (typed : Typed k) : Disciplined k where
  returns f := typed.returns
  switches := by
    rintro ⟨f, i, next, which, -⟩
    apply typed.level_off next
    obtain rfl | rfl := which <;> rfl
  handlers := typed.masked
  due f i next which := by
    apply typed.level_off next
    obtain rfl | rfl := which <;> rfl
  asserts label now := typed.asserts

end Discipline

/-- **The interrupt-level discipline**, in every state of every run of any number of threads:
calls return with the level they were made with, switches happen and handlers run with
interrupts off, and nobody enables interrupts inside a handler. -/
theorem levels_disciplined (initialValue : Nat → Int) (labels : List Label) :
    AllStates Kernel.step Disciplined (Kernel.boot initialValue) labels := by
  have all : AllStates Kernel.step Typed (Kernel.boot initialValue) labels :=
    allStates_of_invariant (fun _ _ _ typed _ moved => Typed.step typed moved)
      (boot_typed initialValue) (allSteps_true _ labels)
  exact all.mono fun k typed => typed.disciplined

-- A time slice at the end of `Fork`: its `SetLevel` ticks, the handler asks for a yield, and the
-- new thread runs while `Fork`, `OneTick` and `Yield` wait on the stack of the main thread.
example :
    (exec Kernel.step (Kernel.boot fun _ => 0)
      ([.create false, .call (.fork 1)] ++ List.replicate 5 .go ++
        [.interrupt [.v (.other 0), .yieldOnReturn]] ++ List.replicate 15 .go)).map
      (fun k => (k.data.currentThread, k.mode.level, (k.stack 0).map Frame.routine)) =
    some (1, .intOff, [.yield, .oneTick, .fork 1, .main]) := by
  rfl

end Nachos.Threads.Levels
