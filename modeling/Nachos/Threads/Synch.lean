/-
# Nachos.Threads.Synch -- one `Lock` and its `Condition`s (`threads/synch.cc`)

Any number of threads run a program that is written with one lock and conditions on it.
Each begins with `Acquire` and ends with `Release`, and may release the lock and acquire it
again in between.  A thread moves from one point where
interrupts are enabled to the next; which thread moves is the label of the step, so that
a run is any interleaving.  `Acquire` does not take the lock over from `Release`: it tests
`isLocked` again after it was woken, and another thread may have come in between.

`Sound` ties the queues to the places of the threads, and says that `Release` loses no
wake-up.  By `step_simulates` every step is a step of the monitor of `Lib.Monitor`, or
changes nothing that it sees; a state in which every thread is asleep or has returned has
nobody awake there (`Sound.quiescent`).
-/
import Nachos.Lib.Monitor
import Nachos.Lib.Run
import Nachos.Threads.List
import Mathlib.Algebra.BigOperators.Group.List.Basic
import Mathlib.Algebra.Order.Group.Multiset
import Mathlib.Logic.Function.Basic

namespace Nachos.Threads.Synch

open Nachos.Lib.Monitor

set_option autoImplicit false

/-- How a thread came to the test of `isLocked` in `Acquire`. -/
inductive Turn where
  | first
  /-- From `Sleep` in `Wait`. -/
  | signalled
  /-- From `Sleep` in `Acquire`. -/
  | woken
  deriving DecidableEq, Repr

inductive Place (P C : Type) where
  /-- Before the test of `isLocked`. -/
  | acquire (turn : Turn) (next : P)
  /-- Asleep in `Acquire`. -/
  | queued (next : P)
  /-- Asleep in `Wait`. -/
  | waiting (c : C) (next : P)
  | holds (pc : P)
  | returned (pc : P)
  deriving DecidableEq, Repr

structure Caller (P C : Type) where
  key : Int
  place : Place P C

structure Monitor (P C σ : Type) where
  threads : List (Caller P C)
  isLocked : Bool
  currThread : Option Nat
  /-- The queue of the lock. -/
  lockQueue : List (ListElement Nat)
  /-- The queues of the conditions. -/
  queue : C → List (ListElement Nat)
  shared : σ

variable {P C σ : Type}

/-- Where a sleeping thread goes on when it is made ready. -/
def Place.wake : Place P C → Place P C
  | .queued next => .acquire .woken next
  | .waiting _ next => .acquire .signalled next
  | place => place

/-- The thread can be dispatched. -/
def Place.runnable : Place P C → Bool
  | .acquire _ _ | .holds _ => true
  | _ => false

/-- The thread sleeps, in `Acquire` or in `Wait`. -/
def Place.blocked : Place P C → Bool
  | .queued _ | .waiting _ _ => true
  | _ => false

namespace Monitor

def place (st : Monitor P C σ) (i : Nat) : Option (Place P C) :=
  (st.threads[i]?).map Caller.place

def update (st : Monitor P C σ) (i : Nat) (f : Place P C → Place P C) : Monitor P C σ :=
  { st with threads := st.threads.modify i fun t => { t with place := f t.place } }

def put (st : Monitor P C σ) (i : Nat) (p : Place P C) : Monitor P C σ := st.update i fun _ => p

/-- A new thread makes a call. -/
def call (st : Monitor P C σ) (pc : P) (key : Int) : Monitor P C σ :=
  { st with threads := st.threads ++ [⟨key, .acquire .first pc⟩] }

/-- `Thread::setPriority`. -/
def setPriority (st : Monitor P C σ) (i : Nat) (key : Int) : Monitor P C σ :=
  { st with threads := st.threads.modify i fun t => { t with key := key } }

/-- A turn of the loop of `Lock::Acquire`, after `ASSERT(!isHeldByCurrentThread())`. -/
def acquire (st : Monitor P C σ) (i : Nat) (key : Int) (next : P) : Option (Monitor P C σ) :=
  if st.currThread = some i then none
  else if st.isLocked then
    some { st.put i (.queued next) with lockQueue := sortedInsert i key st.lockQueue }
  else
    some { st.put i (.holds next) with isLocked := true, currThread := some i }

/-- `queue->Remove()` and `ReadyToRun` in `Lock::Release`. -/
def wakeLock (st : Monitor P C σ) : Monitor P C σ :=
  match remove st.lockQueue with
  | none => st
  | some (j, rest) => { st.update j Place.wake with lockQueue := rest }

/-- `Lock::Release`, after its `ASSERT`. -/
def release (st : Monitor P C σ) : Monitor P C σ :=
  { st.wakeLock with currThread := none, isLocked := false }

variable [DecidableEq C]

/-- `Condition::Signal`, after its `ASSERT`. -/
def signal (st : Monitor P C σ) (c : C) : Monitor P C σ :=
  match remove (st.queue c) with
  | none => st
  | some (j, rest) =>
      { st.update j Place.wake with queue := Function.update st.queue c rest }

/-- The loop of `Condition::Broadcast`, for at most `n` threads. -/
def broadcast (c : C) : Nat → Monitor P C σ → Monitor P C σ
  | 0, st => st
  | n + 1, st => broadcast c n (st.signal c)

/-- `Condition::Wait` up to `Sleep`, after its `ASSERT`.  The release of the lock and the place in
the queue are one step: `Wait` has turned the interrupts off, the `SetLevel` at the end of
`Lock::Release` only sets them back to off (as in `Levels`), and nobody else runs before `Sleep`. -/
def wait (st : Monitor P C σ) (i : Nat) (key : Int) (c : C) (next : P) : Monitor P C σ :=
  let st := st.release
  { st.put i (.waiting c next) with
    queue := Function.update st.queue c (sortedInsert i key (st.queue c)) }

/-- The thread that holds the lock goes on to where it can next be preempted.  `Signal`,
`Wait` and `Release` begin with `ASSERT(isHeldByCurrentThread())`. -/
def run (prog : Program P C σ) (st : Monitor P C σ) (i : Nat) (key : Int) (pc : P) :
    Option (Monitor P C σ) := do
  let (shared, action) ← prog.code pc st.shared
  let st := { st with shared := shared }
  if st.currThread = some i then
    match action with
    | .signal c next => return (st.signal c).put i (.holds next)
    | .broadcast c next => return (broadcast c (st.queue c).length st).put i (.holds next)
    | .wait c next => return st.wait i key c next
    | .release => return st.release.put i (.returned pc)
    | .again next => return st.release.put i (.acquire .first next)
  else none

end Monitor

inductive Event (P : Type) where
  /-- A new thread makes a call. -/
  | call (pc : P) (key : Int)
  | setPriority (i : Nat) (key : Int)
  | move (i : Nat)
  deriving DecidableEq, Repr

instance decidableMove {Q : Nat → Prop} [DecidablePred Q] :
    (e : Event P) → Decidable (∃ i, e = .move i ∧ Q i)
  | .call _ _ => isFalse (by simp)
  | .setPriority _ _ => isFalse (by simp)
  | .move i => decidable_of_iff (Q i) (by simp)

def step [DecidableEq C] (prog : Program P C σ) (st : Monitor P C σ) :
    Event P → Option (Monitor P C σ)
  | .call pc key => if prog.entry pc then some (st.call pc key) else none
  | .setPriority i key => some (st.setPriority i key)
  | .move i => do
      let t ← st.threads[i]?
      match t.place with
      | .acquire _ next => st.acquire i t.key next
      | .holds pc => st.run prog i t.key pc
      | _ => none

/-- A lock and conditions that were just made. -/
def init (s : σ) : Monitor P C σ where
  threads := []
  isLocked := false
  currThread := none
  lockQueue := []
  queue := fun _ => []
  shared := s

/-- No thread is runnable. -/
def Quiescent (st : Monitor P C σ) : Prop := ∀ t ∈ st.threads, t.place.runnable = false

instance (st : Monitor P C σ) : Decidable (Quiescent st) :=
  inferInstanceAs (Decidable (∀ t ∈ st.threads, t.place.runnable = false))

/-! ## The invariant -/

/-- The queues hold the threads that sleep in them, once, and the lock knows its holder.
While threads are queued for the lock it is taken, or one that was queued is on its way. -/
structure Tied (place : Nat → Option (Place P C)) (currThread : Option Nat) (isLocked : Bool)
    (lockQueue : List (ListElement Nat)) (queue : C → List (ListElement Nat)) : Prop where
  held : ∀ i, currThread = some i ↔ ∃ pc, place i = some (.holds pc)
  locked : isLocked = currThread.isSome
  inLock : ∀ i, i ∈ items lockQueue ↔ ∃ next, place i = some (.queued next)
  lockOnce : (items lockQueue).Nodup
  inQueue : ∀ c i, i ∈ items (queue c) ↔ ∃ next, place i = some (.waiting c next)
  queueOnce : ∀ c, (items (queue c)).Nodup
  woken : lockQueue ≠ [] → isLocked = true ∨ ∃ i next, place i = some (.acquire .woken next)

def Sound (st : Monitor P C σ) : Prop :=
  Tied st.place st.currThread st.isLocked st.lockQueue st.queue

theorem Sound.holder_unique {st : Monitor P C σ} (sound : Sound st) {i j : Nat} {pc pc' : P}
    (first : st.place i = some (.holds pc)) (second : st.place j = some (.holds pc')) : i = j := by
  have one := (sound.held i).mpr ⟨pc, first⟩
  rw [(sound.held j).mpr ⟨pc', second⟩] at one
  exact (Option.some.inj one).symm

section Tied

variable {place : Nat → Option (Place P C)} {currThread : Option Nat} {isLocked : Bool}
  {lockQueue : List (ListElement Nat)} {queue : C → List (ListElement Nat)} {i : Nat} {key : Int}
  {next pc : P} {turn : Turn}

/-- A thread that finds the lock taken goes to sleep. -/
theorem Tied.enqueue (tied : Tied place currThread true lockQueue queue)
    (there : place i = some (.acquire turn next)) :
    Tied (Function.update place i (some (.queued next))) currThread true
      (sortedInsert i key lockQueue) queue := by
  have absent : i ∉ items lockQueue := by simp [tied.inLock, there]
  refine ⟨?_, tied.locked, ?_, ?_, ?_, tied.queueOnce, fun _ => .inl rfl⟩
  · intro j
    by_cases same : j = i
    · simp [tied.held, there, same]
    · simp [tied.held, same]
  · intro j
    by_cases same : j = i
    · simp [same]
    · simp [tied.inLock, same]
  · exact items_sortedInsert_perm.nodup_iff.mpr (List.nodup_cons.mpr ⟨absent, tied.lockOnce⟩)
  · intro c j
    by_cases same : j = i
    · simp [tied.inQueue, there, same]
    · simp [tied.inQueue, same]

/-- A thread that finds the lock free takes it. -/
theorem Tied.take (tied : Tied place currThread false lockQueue queue)
    (there : place i = some (.acquire turn next)) :
    Tied (Function.update place i (some (.holds next))) (some i) true lockQueue queue := by
  have free : currThread = none := by simpa using tied.locked
  refine ⟨?_, rfl, ?_, tied.lockOnce, ?_, tied.queueOnce, fun _ => .inl rfl⟩
  · intro j
    by_cases same : j = i
    · simp [same]
    · have nobody := tied.held j
      simp only [free, reduceCtorEq, false_iff] at nobody
      simpa [same, Ne.symm same] using nobody
  · intro j
    by_cases same : j = i
    · simp [tied.inLock, there, same]
    · simp [tied.inLock, same]
  · intro c j
    by_cases same : j = i
    · simp [tied.inQueue, there, same]
    · simp [tied.inQueue, same]

/-- The holder of the lock goes on. -/
theorem Tied.goOn (tied : Tied place currThread isLocked lockQueue queue)
    (there : place i = some (.holds pc)) :
    Tied (Function.update place i (some (.holds next))) currThread isLocked lockQueue queue := by
  refine ⟨?_, tied.locked, ?_, tied.lockOnce, ?_, tied.queueOnce, ?_⟩
  · intro j
    by_cases same : j = i
    · simp [tied.held, there, same]
    · simp [tied.held, same]
  · intro j
    by_cases same : j = i
    · simp [tied.inLock, there, same]
    · simp [tied.inLock, same]
  · intro c j
    by_cases same : j = i
    · simp [tied.inQueue, there, same]
    · simp [tied.inQueue, same]
  · intro queued
    refine .inl ?_
    rw [tied.locked, (tied.held i).mpr ⟨pc, there⟩]
    rfl

/-- A new thread is on its way to the lock. -/
theorem Tied.call (tied : Tied place currThread isLocked lockQueue queue) (fresh : place i = none) :
    Tied (Function.update place i (some (.acquire .first next))) currThread isLocked lockQueue
      queue := by
  refine ⟨?_, tied.locked, ?_, tied.lockOnce, ?_, tied.queueOnce, ?_⟩
  · intro j
    by_cases same : j = i
    · simp [tied.held, fresh, same]
    · simp [tied.held, same]
  · intro j
    by_cases same : j = i
    · simp [tied.inLock, fresh, same]
    · simp [tied.inLock, same]
  · intro c j
    by_cases same : j = i
    · simp [tied.inQueue, fresh, same]
    · simp [tied.inQueue, same]
  · intro queued
    obtain taken | ⟨j, next', ready⟩ := tied.woken queued
    · exact .inl taken
    · refine .inr ⟨j, next', ?_⟩
      have differ : j ≠ i := by
        rintro rfl
        simp [fresh] at ready
      simpa [differ] using ready

/-- A thread that has left the lock goes on without it. -/
theorem Tied.outside {p : Place P C} (tied : Tied place currThread isLocked lockQueue queue)
    (there : place i = some (.returned pc)) (gone : ∀ pc, p ≠ .holds pc)
    (unqueued : ∀ next, p ≠ .queued next) (unwaiting : ∀ c next, p ≠ .waiting c next) :
    Tied (Function.update place i (some p)) currThread isLocked lockQueue queue := by
  refine ⟨?_, tied.locked, ?_, tied.lockOnce, ?_, tied.queueOnce, ?_⟩
  · intro j
    by_cases same : j = i
    · simp [tied.held, there, same, gone]
    · simp [tied.held, same]
  · intro j
    by_cases same : j = i
    · simp [tied.inLock, there, same, unqueued]
    · simp [tied.inLock, same]
  · intro c j
    by_cases same : j = i
    · simp [tied.inQueue, there, same, unwaiting]
    · simp [tied.inQueue, same]
  · intro queued
    obtain taken | ⟨j, next', ready⟩ := tied.woken queued
    · exact .inl taken
    · refine .inr ⟨j, next', ?_⟩
      have differ : j ≠ i := by
        rintro rfl
        simp [there] at ready
      simpa [differ] using ready

/-- The first thread in the queue of the lock is made ready. -/
theorem Tied.wakeLock {rest : List (ListElement Nat)}
    (tied : Tied place currThread true (⟨i, key⟩ :: rest) queue)
    (there : place i = some (.queued next)) :
    Tied (Function.update place i (some (.acquire .woken next))) currThread true rest queue := by
  obtain ⟨absent, once⟩ : i ∉ items rest ∧ (items rest).Nodup := List.nodup_cons.mp tied.lockOnce
  refine ⟨?_, tied.locked, ?_, once, ?_, tied.queueOnce, fun _ => .inl rfl⟩
  · intro j
    by_cases same : j = i
    · simp [tied.held, there, same]
    · simp [tied.held, same]
  · intro j
    by_cases same : j = i
    · simpa [same] using absent
    · have queued := tied.inLock j
      simpa [items, same] using queued
  · intro c j
    by_cases same : j = i
    · simp [tied.inQueue, there, same]
    · simp [tied.inQueue, same]

/-- The holder of the lock leaves it; whoever was first in its queue has been woken. -/
theorem Tied.leave {p : Place P C} (tied : Tied place currThread true lockQueue queue)
    (there : place i = some (.holds pc)) (gone : ∀ pc, p ≠ .holds pc)
    (unqueued : ∀ next, p ≠ .queued next) (unwaiting : ∀ c next, p ≠ .waiting c next)
    (woken : lockQueue ≠ [] → ∃ i next, place i = some (.acquire .woken next)) :
    Tied (Function.update place i (some p)) none false lockQueue queue := by
  have holder : currThread = some i := (tied.held i).mpr ⟨pc, there⟩
  refine ⟨?_, rfl, ?_, tied.lockOnce, ?_, tied.queueOnce, ?_⟩
  · intro j
    by_cases same : j = i
    · simp [same, gone]
    · have other := tied.held j
      simp only [holder, Option.some.injEq, Ne.symm same, false_iff] at other
      simpa [same] using other
  · intro j
    by_cases same : j = i
    · simp [tied.inLock, there, same, unqueued]
    · simp [tied.inLock, same]
  · intro c j
    by_cases same : j = i
    · simp [tied.inQueue, there, same, unwaiting]
    · simp [tied.inQueue, same]
  · intro queued
    obtain ⟨j, next, ready⟩ := woken queued
    refine .inr ⟨j, next, ?_⟩
    have differ : j ≠ i := by
      rintro rfl
      simp [there] at ready
    simpa [differ] using ready

variable [DecidableEq C]

/-- The first thread in the queue of a condition is made ready. -/
theorem Tied.signal {c : C} {rest : List (ListElement Nat)}
    (tied : Tied place currThread isLocked lockQueue queue) (head : queue c = ⟨i, key⟩ :: rest)
    (there : place i = some (.waiting c next)) :
    Tied (Function.update place i (some (.acquire .signalled next))) currThread isLocked lockQueue
      (Function.update queue c rest) := by
  have once := tied.queueOnce c
  rw [head] at once
  obtain ⟨absent, restOnce⟩ : i ∉ items rest ∧ (items rest).Nodup := List.nodup_cons.mp once
  refine ⟨?_, tied.locked, ?_, tied.lockOnce, ?_, ?_, ?_⟩
  · intro j
    by_cases same : j = i
    · simp [tied.held, there, same]
    · simp [tied.held, same]
  · intro j
    by_cases same : j = i
    · simp [tied.inLock, there, same]
    · simp [tied.inLock, same]
  · intro d j
    have queued := tied.inQueue d j
    by_cases here : d = c
    · subst here
      rw [head] at queued
      by_cases same : j = i
      · simpa [same] using absent
      · simpa [items, same] using queued
    · by_cases same : j = i
      · simpa [same, there, here, Ne.symm here] using queued
      · simpa [same, here] using queued
  · intro d
    by_cases here : d = c
    · simpa [here] using restOnce
    · simpa [here] using tied.queueOnce d
  · intro queued
    obtain taken | ⟨j, next', ready⟩ := tied.woken queued
    · exact .inl taken
    · refine .inr ⟨j, next', ?_⟩
      have differ : j ≠ i := by
        rintro rfl
        simp [there] at ready
      simpa [differ] using ready

/-- A thread that has left the lock goes to sleep on a condition. -/
theorem Tied.sleep {c : C} {p : Place P C}
    (tied : Tied (Function.update place i (some p)) currThread isLocked lockQueue queue)
    (gone : ∀ pc, p ≠ .holds pc) (unqueued : ∀ next, p ≠ .queued next)
    (unwaiting : ∀ c next, p ≠ .waiting c next) (unwoken : ∀ next, p ≠ .acquire .woken next) :
    Tied (Function.update place i (some (.waiting c next))) currThread isLocked lockQueue
      (Function.update queue c (sortedInsert i key (queue c))) := by
  have absent : ∀ c, i ∉ items (queue c) := by simp [tied.inQueue, unwaiting]
  refine ⟨?_, tied.locked, ?_, tied.lockOnce, ?_, ?_, ?_⟩
  · intro j
    by_cases same : j = i
    · simp [tied.held, same, gone]
    · simp [tied.held, same]
  · intro j
    by_cases same : j = i
    · simp [tied.inLock, same, unqueued]
    · simp [tied.inLock, same]
  · intro d j
    have queued := tied.inQueue d j
    by_cases here : d = c
    · subst here
      by_cases same : j = i
      · simp [same]
      · simpa [same] using queued
    · by_cases same : j = i
      · simp [same, here, absent, Ne.symm here]
      · simpa [same, here] using queued
  · intro d
    by_cases here : d = c
    · subst here
      simpa using items_sortedInsert_perm.nodup_iff.mpr
        (List.nodup_cons.mpr ⟨absent d, tied.queueOnce d⟩)
    · simpa [here] using tied.queueOnce d
  · intro queued
    obtain taken | ⟨j, next', ready⟩ := tied.woken queued
    · exact .inl taken
    · refine .inr ⟨j, next', ?_⟩
      have differ : j ≠ i := by
        rintro rfl
        simp [unwoken] at ready
      simpa [differ] using ready

end Tied

/-! ## The monitor it implements -/

/-- What `Lib.Monitor` sees of a thread that does not hold the lock. -/
def Place.status : Place P C → Option (Status P C)
  | .acquire _ next | .queued next => some (.awake next)
  | .waiting c next => some (.asleep c next)
  | .holds _ => none
  | .returned pc => some (.done pc)

def Place.held : Place P C → Option P
  | .holds pc => some pc
  | _ => none

/-- The multiset of what is there, if anything. -/
def part {β : Type} : Option β → Multiset β
  | none => 0
  | some b => {b}

namespace Monitor

def others (st : Monitor P C σ) : Multiset (Status P C) :=
  (st.threads.map fun t => part t.place.status).sum

/-- What `Lib.Monitor` sees of the state. -/
def view (st : Monitor P C σ) : System P C σ where
  holder := st.currThread.bind fun i => (st.place i).bind Place.held
  others := st.others
  shared := st.shared

end Monitor

section View

variable {st : Monitor P C σ} {i j : Nat} {p q : Place P C} {f : Place P C → Place P C}

theorem place_update (there : st.place i = some p) :
    (st.update i f).place = Function.update st.place i (some (f p)) := by
  obtain ⟨t, found, rfl⟩ := Option.map_eq_some_iff.mp there
  funext j
  by_cases same : j = i
  · simp [Monitor.place, Monitor.update, same, found]
  · simp [Monitor.place, Monitor.update, same, Ne.symm same]

theorem place_put (there : st.place i = some p) :
    (st.put i q).place = Function.update st.place i (some q) :=
  place_update there

theorem part_some_add {β : Type} (b : β) (s : Multiset β) : part (some b) + s = b ::ₘ s :=
  Multiset.singleton_add b s

/-- One element of a list changes, and so does its part of the sum. -/
theorem sum_modify {α β : Type} (g : α → Multiset β) (f : α → α) (l : List α) (i : Nat) (a : α)
    (there : l[i]? = some a) :
    ∃ rest : Multiset β, (l.map g).sum = g a + rest ∧
      ((l.modify i f).map g).sum = g (f a) + rest := by
  induction l generalizing i with
  | nil => simp at there
  | cons x xs ih =>
      cases i with
      | zero =>
          obtain rfl : x = a := by simpa using there
          exact ⟨(xs.map g).sum, by simp, by simp⟩
      | succ i =>
          obtain ⟨rest, before, after⟩ := ih i (by simpa using there)
          refine ⟨g x + rest, ?_, ?_⟩
          · simp [before, add_left_comm]
          · simp [after, add_left_comm]

theorem others_update (there : st.place i = some p) :
    ∃ rest : Multiset (Status P C), st.others = part p.status + rest ∧
      (st.update i f).others = part (f p).status + rest := by
  obtain ⟨t, found, rfl⟩ := Option.map_eq_some_iff.mp there
  exact sum_modify (fun t => part t.place.status) (fun t => { t with place := f t.place })
    st.threads i t found

/-- A thread that changes its place without changing what is seen of it. -/
theorem others_update_same (there : st.place i = some p) (same : (f p).status = p.status) :
    (st.update i f).others = st.others := by
  obtain ⟨rest, before, after⟩ := others_update (f := f) there
  rw [before, after, same]

/-- The places tell all that is seen of the threads. -/
theorem others_congr {st' : Monitor P C σ} (place : st'.place = st.place) :
    st'.others = st.others := by
  have same : st'.threads.map Caller.place = st.threads.map Caller.place := by
    apply List.ext_getElem?
    intro j
    rw [List.getElem?_map, List.getElem?_map]
    exact congrFun place j
  have through : ∀ st : Monitor P C σ, st.others =
      ((st.threads.map Caller.place).map fun p => part p.status).sum := by
    intro st
    rw [List.map_map]
    rfl
  rw [through, through, same]

theorem mem_sum_map {α β : Type} {g : α → Multiset β} {l : List α} {x : β} :
    x ∈ (l.map g).sum ↔ ∃ a ∈ l, x ∈ g a := by
  induction l with
  | nil => simp
  | cons a l ih => simp [ih]

theorem mem_others {x : Status P C} :
    x ∈ st.others ↔ ∃ i p, st.place i = some p ∧ p.status = some x := by
  have inPart : ∀ o : Option (Status P C), x ∈ part o ↔ o = some x := by
    intro o
    cases o with
    | none => simp [part]
    | some y => simp [part, eq_comm]
  simp only [Monitor.others, mem_sum_map, inPart]
  constructor
  · rintro ⟨t, there, seen⟩
    obtain ⟨i, found⟩ := List.mem_iff_getElem?.mp there
    exact ⟨i, t.place, by simp [Monitor.place, found], seen⟩
  · rintro ⟨i, p, there, seen⟩
    obtain ⟨t, found, rfl⟩ := Option.map_eq_some_iff.mp there
    exact ⟨t, List.mem_of_getElem? found, seen⟩

theorem mem_others_asleep {c : C} {next : P} :
    .asleep c next ∈ st.others ↔ ∃ i, st.place i = some (.waiting c next) := by
  rw [mem_others]
  constructor
  · rintro ⟨i, p, there, seen⟩
    cases p <;> simp only [Place.status, reduceCtorEq, Option.some.injEq,
      Status.asleep.injEq] at seen
    obtain ⟨rfl, rfl⟩ := seen
    exact ⟨i, there⟩
  · rintro ⟨i, there⟩
    exact ⟨i, _, there, rfl⟩

/-- The lock of a state that is sound is free when nobody holds it. -/
theorem Sound.holder (sound : Sound st) {pc : P} (there : st.place i = some (.holds pc)) :
    st.currThread = some i ∧ st.isLocked = true ∧ st.view.holder = some pc := by
  have current := (sound.held i).mpr ⟨pc, there⟩
  refine ⟨current, ?_, ?_⟩
  · rw [sound.locked, current]
    rfl
  · simp [Monitor.view, current, there, Place.held]

end View

section Simulation

variable {st st' : Monitor P C σ} {i : Nat} {key : Int} {next pc : P} {turn : Turn} {c : C}

/-- `Release` wakes the first thread in the queue; what is seen of it stays the same. -/
theorem Sound.wakeLock (sound : Sound st) (taken : st.isLocked = true) :
    Sound st.wakeLock ∧ st.wakeLock.others = st.others ∧
      (∀ j pc, st.place j = some (.holds pc) → st.wakeLock.place j = some (.holds pc)) ∧
      (st.wakeLock.lockQueue ≠ [] →
        ∃ j next, st.wakeLock.place j = some (.acquire .woken next)) := by
  have tied : Tied st.place st.currThread st.isLocked st.lockQueue st.queue := sound
  unfold Monitor.wakeLock
  cases removed : remove st.lockQueue with
  | none =>
      exact ⟨sound, rfl, fun _ _ there => there, fun queued =>
        absurd (remove_eq_none removed) queued⟩
  | some pair =>
      obtain ⟨j, rest⟩ := pair
      obtain ⟨key, head⟩ := remove_eq_some removed
      obtain ⟨next, there⟩ := (tied.inLock j).mp (by simp [head, items])
      have place : (st.update j Place.wake).place =
          Function.update st.place j (some (.acquire .woken next)) := place_update there
      rw [taken, head] at tied
      refine ⟨?_, others_update_same there rfl, ?_, ?_⟩
      · show Tied (st.update j Place.wake).place st.currThread st.isLocked rest st.queue
        rw [place, taken]
        exact tied.wakeLock there
      · intro k pc held
        have differ : k ≠ j := by
          rintro rfl
          simp [there] at held
        exact (congrFun place k).trans (by simpa [differ] using held)
      · intro _
        exact ⟨j, next, (congrFun place j).trans (by simp)⟩

@[simp] theorem wakeLock_shared : st.wakeLock.shared = st.shared := by
  unfold Monitor.wakeLock
  split <;> rfl

/-- The holder of the lock releases it and goes elsewhere. -/
theorem Sound.others_release (sound : Sound st) (there : st.place i = some (.holds pc))
    (p : Place P C) : (st.release.put i p).others = part p.status + st.others := by
  obtain ⟨-, taken, -⟩ := sound.holder there
  obtain ⟨-, others, kept, -⟩ := sound.wakeLock taken
  have there' : st.release.place i = some (.holds pc) := kept i pc there
  have released : st.release.others = st.others := others
  obtain ⟨rest, before, after⟩ := others_update (f := fun _ => p) there'
  rw [Monitor.put, after, ← released, before]
  simp [Place.status, part]

theorem Sound.view_released (sound : Sound st) (there : st.place i = some (.holds pc))
    (p : Place P C) :
    (st.release.put i p).view = ⟨none, part p.status + st.others, st.shared⟩ := by
  rw [← sound.others_release there p, ← wakeLock_shared]
  rfl

theorem Sound.release {p : Place P C} (sound : Sound st) (there : st.place i = some (.holds pc))
    (gone : ∀ pc, p ≠ .holds pc) (unqueued : ∀ next, p ≠ .queued next)
    (unwaiting : ∀ c next, p ≠ .waiting c next) : Sound (st.release.put i p) := by
  obtain ⟨-, taken, -⟩ := sound.holder there
  obtain ⟨sound', -, kept, woken⟩ := sound.wakeLock taken
  have there' : st.release.place i = some (.holds pc) := kept i pc there
  obtain ⟨-, taken', -⟩ := sound'.holder there'
  have tied : Tied st.wakeLock.place st.wakeLock.currThread st.wakeLock.isLocked
    st.wakeLock.lockQueue st.wakeLock.queue := sound'
  rw [taken'] at tied
  show Tied (st.release.put i p).place none false st.wakeLock.lockQueue st.wakeLock.queue
  rw [place_put there']
  exact tied.leave there' gone unqueued unwaiting woken

theorem Sound.view_held (sound : Sound st) (there : st.place i = some (.holds pc)) :
    st.view = ⟨some pc, st.others, st.shared⟩ := by
  obtain ⟨-, -, holder⟩ := sound.holder there
  rw [← holder]
  rfl

theorem Sound.holder_congr (sound : Sound st) (current : st'.currThread = st.currThread)
    (kept : ∀ j pc, st.place j = some (.holds pc) → st'.place j = some (.holds pc)) :
    st'.view.holder = st.view.holder := by
  simp only [Monitor.view, current]
  cases holder : st.currThread with
  | none => rfl
  | some j =>
      obtain ⟨pc, there⟩ := (sound.held j).mp holder
      simp [there, kept j pc there]

theorem Sound.view_congr (sound : Sound st) (current : st'.currThread = st.currThread)
    (kept : ∀ j pc, st.place j = some (.holds pc) → st'.place j = some (.holds pc))
    (others : st'.others = st.others) (shared : st'.shared = st.shared) : st'.view = st.view := by
  have holder := sound.holder_congr current kept
  rw [Monitor.view, Monitor.view] at *
  simp_all

theorem Sound.goOn (sound : Sound st) (there : st.place i = some (.holds pc)) (next : P) :
    Sound (st.put i (.holds next)) ∧
      (st.put i (.holds next)).view = ⟨some next, st.others, st.shared⟩ := by
  have place : (st.put i (.holds next)).place = _ := place_put there
  have sound' : Sound (st.put i (.holds next)) := by
    show Tied (st.put i (.holds next)).place st.currThread st.isLocked st.lockQueue st.queue
    rw [place]
    exact Tied.goOn sound there
  refine ⟨sound', ?_⟩
  rw [sound'.view_held ((congrFun place i).trans (Function.update_self _ _ _))]
  have others : (st.put i (.holds next)).others = st.others := others_update_same there rfl
  rw [others]
  rfl

theorem place_call :
    (st.call pc key).place =
      Function.update st.place st.threads.length (some (.acquire .first pc)) := by
  funext j
  by_cases same : j = st.threads.length
  · simp [Monitor.place, Monitor.call, same]
  · by_cases old : j < st.threads.length
    · simp [Monitor.place, Monitor.call, same, List.getElem?_append_left old]
    · have before : st.threads[j]? = none := List.getElem?_eq_none (by omega)
      have after : (st.threads ++ [⟨key, .acquire .first pc⟩])[j]? = none := by
        apply List.getElem?_eq_none
        rw [List.length_append, List.length_singleton]
        omega
      simp [Monitor.place, Monitor.call, same, before, after]

theorem others_call : (st.call pc key).others = .awake pc ::ₘ st.others := by
  simp [Monitor.others, Monitor.call, Place.status, part, add_comm]

theorem place_setPriority : (st.setPriority i key).place = st.place := by
  funext j
  simp only [Monitor.place, Monitor.setPriority, List.getElem?_modify]
  cases st.threads[j]? with
  | none => rfl
  | some t => split <;> rfl

variable [DecidableEq C]

@[simp] theorem signal_shared : (st.signal c).shared = st.shared := by
  unfold Monitor.signal
  split <;> rfl

@[simp] theorem broadcast_shared {n : Nat} : (Monitor.broadcast c n st).shared = st.shared := by
  induction n generalizing st with
  | zero => rfl
  | succ n ih => simp [Monitor.broadcast, ih]

/-- What `Signal` does: nobody waits, or the first thread in the queue is made ready. -/
theorem Sound.signal (sound : Sound st) (c : C) :
    Sound (st.signal c) ∧ Wakes c st.others (st.signal c).others ∧
      ∀ j pc, st.place j = some (.holds pc) → (st.signal c).place j = some (.holds pc) := by
  have tied : Tied st.place st.currThread st.isLocked st.lockQueue st.queue := sound
  unfold Monitor.signal
  cases removed : remove (st.queue c) with
  | none =>
      refine ⟨sound, .none ?_, fun _ _ there => there⟩
      intro next asleep
      obtain ⟨j, there⟩ := mem_others_asleep.mp asleep
      have queued := (tied.inQueue c j).mpr ⟨next, there⟩
      simp [remove_eq_none removed, items] at queued
  | some pair =>
      obtain ⟨j, rest⟩ := pair
      obtain ⟨key, head⟩ := remove_eq_some removed
      obtain ⟨next, there⟩ := (tied.inQueue c j).mp (by simp [head, items])
      have place : (st.update j Place.wake).place =
          Function.update st.place j (some (.acquire .signalled next)) := place_update there
      refine ⟨?_, ?_, ?_⟩
      · show Tied (st.update j Place.wake).place st.currThread st.isLocked st.lockQueue _
        rw [place]
        exact tied.signal head there
      · obtain ⟨others, before, after⟩ := others_update (f := Place.wake) there
        have woken : Wakes c (.asleep c next ::ₘ others) (.awake next ::ₘ others) :=
          .one next others
        rw [before]
        exact after ▸ woken
      · intro k pc held
        have differ : k ≠ j := by
          rintro rfl
          simp [there] at held
        exact (congrFun place k).trans (by simpa [differ] using held)

theorem length_signal (c : C) : ((st.signal c).queue c).length = (st.queue c).length - 1 := by
  unfold Monitor.signal
  cases removed : remove (st.queue c) with
  | none => simp [remove_eq_none removed]
  | some pair =>
      obtain ⟨j, rest⟩ := pair
      obtain ⟨key, head⟩ := remove_eq_some removed
      simp [head]

/-- `Broadcast` wakes them all. -/
theorem Sound.broadcast {n : Nat} (sound : Sound st) (length : (st.queue c).length = n) :
    Sound (Monitor.broadcast c n st) ∧ WakesAll c st.others (Monitor.broadcast c n st).others ∧
      ∀ j pc, st.place j = some (.holds pc) →
        (Monitor.broadcast c n st).place j = some (.holds pc) := by
  induction n generalizing st with
  | zero =>
      refine ⟨sound, .none ?_, fun _ _ there => there⟩
      intro next asleep
      obtain ⟨j, there⟩ := mem_others_asleep.mp asleep
      have queued := (sound.inQueue c j).mpr ⟨next, there⟩
      simp [List.length_eq_zero_iff.mp length, items] at queued
  | succ n ih =>
      obtain ⟨sound', wakes, kept⟩ := sound.signal c
      obtain ⟨sound'', all, kept'⟩ := ih sound' (by simp [length_signal, length])
      exact ⟨sound'', wakes.all all, fun j pc there => kept' j pc (kept j pc there)⟩

/-- The holder of the lock goes to sleep on a condition. -/
theorem Sound.wait (sound : Sound st) (there : st.place i = some (.holds pc)) :
    Sound (st.wait i key c next) := by
  obtain ⟨-, taken, -⟩ := sound.holder there
  have there' : st.release.place i = some (.holds pc) := (sound.wakeLock taken).2.2.1 i pc there
  have left : Sound (st.release.put i (.returned pc)) := sound.release there nofun nofun nofun
  have tied : Tied (st.release.put i (.returned pc)).place none false st.wakeLock.lockQueue
    st.wakeLock.queue := left
  rw [place_put there'] at tied
  show Tied (st.release.put i (.waiting c next)).place none false st.wakeLock.lockQueue _
  rw [place_put there']
  exact tied.sleep nofun nofun nofun nofun

/-- What the holder of the lock does is a step of the monitor. -/
theorem Sound.run {prog : Program P C σ} (sound : Sound st) (there : st.place i = some (.holds pc))
    (ran : st.run prog i key pc = some st') : Sound st' ∧ Runs prog st.view st'.view := by
  obtain ⟨current, -, -⟩ := sound.holder there
  obtain ⟨⟨shared, action⟩, code, ran⟩ := Option.bind_eq_some_iff.mp ran
  have sound₁ : Sound { st with shared := shared } := sound
  rw [sound.view_held there]
  dsimp only at ran
  split at ran
  case isFalse differ => exact absurd current differ
  cases action with
  | signal c next =>
      cases ran
      obtain ⟨sound₂, wakes, kept⟩ := sound₁.signal c
      obtain ⟨sound₃, view'⟩ := sound₂.goOn (kept i pc there) next
      rw [view', signal_shared]
      exact ⟨sound₃, .signal code wakes⟩
  | broadcast c next =>
      cases ran
      obtain ⟨sound₂, wakes, kept⟩ := sound₁.broadcast rfl
      obtain ⟨sound₃, view'⟩ := sound₂.goOn (kept i pc there) next
      rw [view', broadcast_shared]
      exact ⟨sound₃, .broadcast code wakes⟩
  | wait c next =>
      cases ran
      refine ⟨sound₁.wait there, ?_⟩
      have view' : (Monitor.wait { st with shared := shared } i key c next).view =
          ⟨none, part (some (.asleep c next)) + st.others, shared⟩ :=
        sound₁.view_released there (.waiting c next)
      rw [view', part_some_add]
      exact .wait code
  | release =>
      cases ran
      refine ⟨sound₁.release there nofun nofun nofun, ?_⟩
      rw [sound₁.view_released there, Place.status, part_some_add]
      exact .release code
  | again next =>
      cases ran
      refine ⟨sound₁.release there nofun nofun nofun, ?_⟩
      rw [sound₁.view_released there, Place.status, part_some_add]
      exact .again code

omit [DecidableEq C] in
/-- A turn of `Acquire` takes the free lock, or changes nothing that is seen. -/
theorem Sound.acquire (prog : Program P C σ) (sound : Sound st)
    (there : st.place i = some (.acquire turn next)) (moved : st.acquire i key next = some st') :
    Sound st' ∧ (st'.view = st.view ∨ Enters prog st.view st'.view) := by
  have tied : Tied st.place st.currThread st.isLocked st.lockQueue st.queue := sound
  unfold Monitor.acquire at moved
  split at moved
  · cases moved
  split at moved
  · rename_i taken
    cases moved
    rw [taken] at tied
    constructor
    · show Tied (st.put i (.queued next)).place st.currThread st.isLocked _ st.queue
      rw [place_put there, taken]
      exact tied.enqueue there
    · have others : (st.put i (.queued next)).others = st.others := others_update_same there rfl
      refine .inl (sound.view_congr rfl (fun k pc held => ?_) others rfl)
      have differ : k ≠ i := by
        rintro rfl
        simp [there] at held
      exact (congrFun (place_put there) k).trans (by simpa [differ] using held)
  · rename_i free
    cases moved
    have free : st.isLocked = false := by simpa using free
    have nobody : st.currThread = none := by simpa [free] using tied.locked
    rw [free] at tied
    have place : (st.put i (.holds next)).place = _ := place_put there
    have sound' : Sound { st.put i (.holds next) with isLocked := true, currThread := some i } := by
      show Tied (st.put i (.holds next)).place (some i) true st.lockQueue st.queue
      rw [place]
      exact tied.take there
    refine ⟨sound', .inr ?_⟩
    obtain ⟨rest, before, after⟩ := others_update (f := fun _ => .holds next) there
    have view : st.view = ⟨none, .awake next ::ₘ rest, st.shared⟩ := by
      rw [← part_some_add]
      simp [Monitor.view, nobody, before, Place.status]
    rw [view, sound'.view_held ((congrFun place i).trans (Function.update_self _ _ _))]
    have others : (st.put i (.holds next)).others = rest := by
      simpa [Place.status, part, Monitor.put] using after
    exact others ▸ .take next

/-- **Every step is a step of the monitor, or changes nothing that it sees.** -/
theorem step_simulates {prog : Program P C σ} {e : Event P} (sound : Sound st)
    (stepped : step prog st e = some st') :
    Sound st' ∧ (st'.view = st.view ∨ Enters prog st.view st'.view ∨
      ∃ i pc, e = .move i ∧ st.place i = some (.holds pc) ∧ Runs prog st.view st'.view) := by
  have tied : Tied st.place st.currThread st.isLocked st.lockQueue st.queue := sound
  cases e with
  | call pc key =>
      simp only [step] at stepped
      split at stepped
      · rename_i entry
        cases stepped
        have fresh : st.place st.threads.length = none := by simp [Monitor.place]
        constructor
        · show Tied (st.call pc key).place st.currThread st.isLocked st.lockQueue st.queue
          rw [place_call]
          exact tied.call fresh
        · have holder : (st.call pc key).view.holder = st.view.holder := by
            refine sound.holder_congr rfl fun j pc held => ?_
            have differ : j ≠ st.threads.length := by
              rintro rfl
              simp [fresh] at held
            rw [place_call]
            simpa [differ] using held
          have view : (st.call pc key).view =
              ⟨st.view.holder, .awake pc ::ₘ st.others, st.shared⟩ := by
            rw [← holder, ← others_call]
            rfl
          rw [view]
          exact .inr (.inl (.call pc entry))
      · cases stepped
  | setPriority i key =>
      cases stepped
      constructor
      · show Tied (st.setPriority i key).place st.currThread st.isLocked st.lockQueue st.queue
        rw [place_setPriority]
        exact tied
      · refine .inl (sound.view_congr rfl (fun j pc held => ?_)
          (others_congr place_setPriority) rfl)
        rw [place_setPriority]
        exact held
  | move i =>
      obtain ⟨t, found, moved⟩ := Option.bind_eq_some_iff.mp stepped
      have there : st.place i = some t.place := by simp [Monitor.place, found]
      split at moved
      · rename_i turn next here
        obtain ⟨sound', same | enters⟩ := sound.acquire prog (here ▸ there) moved
        · exact ⟨sound', .inl same⟩
        · exact ⟨sound', .inr (.inl enters)⟩
      · rename_i pc here
        rw [here] at there
        obtain ⟨sound', runs⟩ := sound.run there moved
        exact ⟨sound', .inr (.inr ⟨i, pc, rfl, there, runs⟩)⟩
      · cases moved

omit [DecidableEq C] in
/-- When every thread sleeps or has returned nobody is awake: `Release` has lost none of
the threads in the queue of the lock. -/
theorem Sound.quiescent (sound : Sound st) (quiescent : Quiescent st) :
    st.view.holder = none ∧ ∀ pc, .awake pc ∉ st.others := by
  have asleep : ∀ j p, st.place j = some p → p.runnable = false := by
    intro j p there
    obtain ⟨t, found, rfl⟩ := Option.map_eq_some_iff.mp there
    exact quiescent t (List.mem_of_getElem? found)
  have nobody : st.currThread = none := by
    cases current : st.currThread with
    | none => rfl
    | some j =>
        obtain ⟨pc, there⟩ := (sound.held j).mp current
        cases asleep j _ there
  refine ⟨by simp [Monitor.view, nobody], fun pc awake => ?_⟩
  obtain ⟨j, p, there, seen⟩ := mem_others.mp awake
  cases p with
  | acquire turn next => cases asleep j _ there
  | queued next =>
      have queued : st.lockQueue ≠ [] := by
        intro empty
        have inLock := (sound.inLock j).mpr ⟨next, there⟩
        simp [empty, items] at inLock
      obtain taken | ⟨k, next', woken⟩ := sound.woken queued
      · simp [sound.locked, nobody] at taken
      · cases asleep k _ woken
  | waiting c next => cases seen
  | holds pc => cases seen
  | returned pc => cases seen

end Simulation

/-! ## Counting threads -/

/-- Where the thread goes on, or went out. -/
def Place.pc : Place P C → P
  | .acquire _ pc | .queued pc | .waiting _ pc | .holds pc | .returned pc => pc

def Place.returnedAt (p : P → Bool) : Place P C → Bool
  | .returned pc => p pc
  | _ => false

def Place.waitingAt (p : P → Bool) : Place P C → Bool
  | .waiting _ pc => p pc
  | _ => false

namespace Monitor

/-- The threads at the points `p`. -/
def count (st : Monitor P C σ) (p : P → Bool) : Nat := st.threads.countP fun t => p t.place.pc

/-- The threads that have returned from a call, out of the points `p`. -/
def returned (st : Monitor P C σ) (p : P → Bool) : Nat :=
  st.threads.countP fun t => t.place.returnedAt p

/-- The threads that sleep in `Wait`, and go on at the points `p`. -/
def sleeping (st : Monitor P C σ) (p : P → Bool) : Nat :=
  st.threads.countP fun t => t.place.waitingAt p

end Monitor

section Counting

variable {st : Monitor P C σ} {p : P → Bool}

theorem countP_sum {α β : Type} {l : List α} {g : α → Multiset β} {f : β → Bool} {h : α → Bool}
    (each : ∀ a ∈ l, (g a).countP (fun x => f x) = (h a).toNat) :
    (l.map g).sum.countP (fun x => f x) = l.countP h := by
  induction l with
  | nil => simp
  | cons a l ih =>
      have rest := ih fun b there => each b (List.mem_cons_of_mem _ there)
      have first := each a List.mem_cons_self
      rw [List.map_cons, List.sum_cons, Multiset.countP_add, rest, first,
        List.countP_cons, add_comm]
      cases h a <;> rfl

theorem countP_part {β : Type} (f : β → Bool) (o : Option β) :
    (part o).countP (fun x => f x) = (o.any f).toNat := by
  cases o with
  | none => simp [part]
  | some b =>
      rw [part, ← Multiset.cons_zero, Multiset.countP_cons]
      cases found : f b <;> simp [found]

theorem countP_modify {α : Type} {l : List α} {f : α → α} {h : α → Bool} {i : Nat} {a : α}
    (there : l[i]? = some a) :
    (l.modify i f).countP h + (h a).toNat = l.countP h + (h (f a)).toNat := by
  induction l generalizing i with
  | nil => simp at there
  | cons x xs ih =>
      cases i with
      | zero =>
          obtain rfl : x = a := by simpa using there
          simp only [List.modify_zero_cons, List.countP_cons]
          cases h x <;> cases h (f x) <;> simp
      | succ i =>
          have rest := ih (by simpa using there)
          simp only [List.modify_succ_cons, List.countP_cons]
          omega

theorem view_returned : st.view.returned p = st.returned p := by
  refine countP_sum fun t _ => ?_
  rw [countP_part]
  cases t.place <;> simp [Place.status, Place.returnedAt, Status.returned]

theorem view_sleeping : st.view.sleeping p = st.sleeping p := by
  refine countP_sum fun t _ => ?_
  rw [countP_part]
  cases t.place <;> simp [Place.status, Place.waitingAt, Status.sleeps]

/-- A thread that is at `p` and does not wait is not counted among the sleepers. -/
theorem sleeping_lt_count {t : Caller P C} (there : t ∈ st.threads) (at_pc : p t.place.pc = true)
    (awake : t.place.waitingAt p = false) : st.sleeping p < st.count p := by
  have less : ∀ t : Caller P C, t.place.waitingAt p = true → p t.place.pc = true := by
    intro t waits
    cases place : t.place with
    | waiting c next => simpa [place, Place.waitingAt, Place.pc] using waits
    | acquire | queued | holds | returned => simp [place, Place.waitingAt] at waits
  simp only [Monitor.sleeping, Monitor.count]
  obtain ⟨before, after, threads⟩ := List.append_of_mem there
  have first := List.countP_mono_left (l := before) fun t _ => less t
  have last := List.countP_mono_left (l := after) fun t _ => less t
  simp only [threads, List.countP_append, List.countP_cons, at_pc, awake, if_true,
    Bool.false_eq_true, if_false]
  omega

/-- When nobody holds the lock the other threads are all the threads. -/
theorem count_others (free : ∀ i q, st.place i = some q → q.held = none) :
    st.others.countP (fun x => p x.pc) = st.count p := by
  refine countP_sum (f := fun x : Status P C => p x.pc) fun t there => ?_
  obtain ⟨i, found⟩ := List.mem_iff_getElem?.mp there
  have free := free i t.place (by simp [Monitor.place, found])
  rw [countP_part]
  cases place : t.place with
  | holds pc => simp [place, Place.held] at free
  | acquire turn next => simp [Place.status, Place.pc, Status.pc]
  | queued next => simp [Place.status, Place.pc, Status.pc]
  | waiting c next => simp [Place.status, Place.pc, Status.pc]
  | returned pc => simp [Place.status, Place.pc, Status.pc]

/-- What is seen of a state counts its threads; the holder is counted as if it were done. -/
theorem Sound.view_count (sound : Sound st) : st.view.count p = st.count p := by
  cases current : st.currThread with
  | none =>
      have free : ∀ i q, st.place i = some q → q.held = none := by
        intro i q there
        cases q with
        | holds pc => simp [(sound.held i).mpr ⟨pc, there⟩] at current
        | acquire | queued | waiting | returned => rfl
      rw [← count_others free]
      simp [System.count, Monitor.view, current]
  | some i =>
      obtain ⟨pc, there⟩ := (sound.held i).mp current
      obtain ⟨t, found, here⟩ := Option.map_eq_some_iff.mp there
      have place : (st.put i (.returned pc)).place = _ := place_put there
      have free : ∀ j q, (st.put i (.returned pc)).place j = some q → q.held = none := by
        intro j q there'
        rw [place] at there'
        by_cases same : j = i
        · obtain rfl : Place.returned pc = q := by simpa [same] using there'
          rfl
        · have there' : st.place j = some q := by simpa [same] using there'
          cases q with
          | holds pc' => exact absurd (sound.holder_unique there' there) same
          | acquire | queued | waiting | returned => rfl
      obtain ⟨rest, before, after⟩ := others_update (f := fun _ => .returned pc) there
      have same : (st.put i (.returned pc)).count p = st.count p := by
        have counted := countP_modify (h := fun t => p t.place.pc)
          (f := fun t => { t with place := .returned pc }) found
        simp only [here, Place.pc] at counted
        exact Nat.add_right_cancel counted
      rw [← same, ← count_others free, Monitor.put, after, sound.view_held there,
        System.count, before,
        Place.status, Place.status, part_some_add, Multiset.countP_cons, part, zero_add]
      change _ + (p pc).toNat = _ + if p pc = true then 1 else 0
      cases p pc <;> rfl

/-- A thread that is blocked inside a call, out of the points `p`. -/
def Blocked (st : Monitor P C σ) (p : P → Bool) : Prop :=
  ∃ i q, st.place i = some q ∧ q.blocked = true ∧ p q.pc = true

/-- In a quiescent state whoever is blocked sleeps on a condition. -/
theorem Sound.blocked (sound : Sound st) (quiescent : Quiescent st) (blocked : Blocked st p) :
    0 < st.view.sleeping p := by
  obtain ⟨i, q, there, asleep, at_pc⟩ := blocked
  have seen : ∀ x, q.status = some x → x ∈ st.others := fun x status =>
    mem_others.mpr ⟨i, q, there, status⟩
  cases q with
  | queued next => exact absurd (seen _ rfl) ((sound.quiescent quiescent).2 next)
  | waiting c next => exact Multiset.countP_pos.mpr ⟨_, seen _ rfl, at_pc⟩
  | acquire | holds | returned => cases asleep

end Counting

/-! ## Runs -/

section Invariants

open Nachos.Lib.Run

theorem init_sound (s : σ) : Sound (init s : Monitor P C σ) := by
  refine ⟨?_, rfl, ?_, List.nodup_nil, ?_, fun _ => List.nodup_nil, fun queued => absurd rfl queued⟩
  · intro i
    simp [init, Monitor.place]
  · intro i
    simp [init, items, Monitor.place]
  · intro c i
    simp [init, items, Monitor.place]

variable [DecidableEq C] {prog : Program P C σ} {I : System P C σ → Prop}
  {A : Monitor P C σ → Event P → Prop} {s : σ}

/-- **The rule for invariants of the monitor**: what entering keeps, and the moves of the
holder that the run allows, holds of what is seen of every state. -/
theorem step_keeps (enters : ∀ a b, I a → Enters prog a b → I b)
    (runs : ∀ (st : Monitor P C σ) i pc b, Sound st → st.place i = some (.holds pc) →
      A st (.move i) → I st.view → Runs prog st.view b → I b)
    (st : Monitor P C σ) (e : Event P) (st' : Monitor P C σ) (kept : Sound st ∧ I st.view)
    (allowed : A st e) (stepped : step prog st e = some st') : Sound st' ∧ I st'.view := by
  obtain ⟨sound, inv⟩ := kept
  obtain ⟨sound', same | arrives | ⟨i, pc, rfl, there, ran⟩⟩ := step_simulates sound stepped
  · exact ⟨sound', same ▸ inv⟩
  · exact ⟨sound', enters _ _ inv arrives⟩
  · exact ⟨sound', runs st i pc _ sound there allowed inv ran⟩

theorem run_keeps (enters : ∀ a b, I a → Enters prog a b → I b)
    (runs : ∀ a b, I a → Runs prog a b → I b) (start : I ⟨none, 0, s⟩) {events : List (Event P)}
    {st : Monitor P C σ} (run : exec (step prog) (init s) events = some st) :
    Sound st ∧ I st.view :=
  exec_invariant (C := fun _ _ => True)
    (step_keeps enters fun st _ _ b _ _ _ inv ran => runs st.view b inv ran)
    ⟨init_sound s, start⟩ (allSteps_true _ _) run

end Invariants

/-! ## One call -/

/-- Where the thread `i` goes on, or went out. -/
def Monitor.point (st : Monitor P C σ) (i : Nat) : Option P := (st.place i).map Place.pc

/-- Where a thread at `pc` is after the action. -/
def placeAfter (pc : P) : Action P C → Place P C
  | .signal _ next | .broadcast _ next => .holds next
  | .wait c next => .waiting c next
  | .release => .returned pc
  | .again next => .acquire .first next

section Calls

variable {st st' : Monitor P C σ} {i j : Nat} {p : Place P C}

theorem place_put_self (there : st.place i ≠ none) : (st.put i p).place i = some p := by
  obtain ⟨q, here⟩ := Option.ne_none_iff_exists'.mp there
  rw [place_put here, Function.update_self]

theorem place_put_other (other : j ≠ i) : (st.put i p).place j = st.place j := by
  simp [Monitor.place, Monitor.put, Monitor.update, Ne.symm other]

theorem point_put_other (other : j ≠ i) : (st.put i p).point j = st.point j := by
  rw [Monitor.point, place_put_other other, Monitor.point]

/-- To be woken is not to go on. -/
theorem point_wake (k : Nat) : (st.update k Place.wake).point j = st.point j := by
  have kept : ∀ p : Place P C, p.wake.pc = p.pc := by
    intro p
    cases p <;> rfl
  by_cases same : k = j
  · subst same
    simp [Monitor.point, Monitor.place, Monitor.update, Function.comp_def, kept]
  · simp [Monitor.point, Monitor.place, Monitor.update, same]

theorem place_ne_none : st.place i ≠ none ↔ st.point i ≠ none := by
  simp [Monitor.point]

theorem point_release : st.release.point j = st.point j := by
  show st.wakeLock.point j = st.point j
  unfold Monitor.wakeLock
  split
  · rfl
  · exact point_wake _

theorem point_call (pc : P) (key : Int) (known : st.point j ≠ none) :
    (st.call pc key).point j = st.point j := by
  obtain ⟨q, here⟩ := Option.ne_none_iff_exists'.mp (place_ne_none.mpr known)
  obtain ⟨t, found, -⟩ := Option.map_eq_some_iff.mp here
  have early : j < st.threads.length := (List.getElem?_eq_some_iff.mp found).1
  simp [Monitor.point, Monitor.place, Monitor.call, List.getElem?_append_left early]

theorem point_call_new (pc : P) (key : Int) :
    (st.call pc key).point st.threads.length = some pc := by
  simp [Monitor.point, Monitor.place, Monitor.call, Place.pc]

variable [DecidableEq C]

theorem point_signal (c : C) : (st.signal c).point j = st.point j := by
  unfold Monitor.signal
  split
  · rfl
  · exact point_wake _

theorem point_broadcast (c : C) (n : Nat) : (Monitor.broadcast c n st).point j = st.point j := by
  induction n generalizing st with
  | zero => rfl
  | succ n ih => rw [Monitor.broadcast, ih, point_signal]

/-- **What a move does**: the thread comes nearer to the lock, or runs a segment of the program
with it; no other thread gets anywhere. -/
theorem move_cases {prog : Program P C σ} (moved : step prog st (.move i) = some st') :
    (∀ j, j ≠ i → st'.point j = st.point j) ∧
      ((∃ turn next, st.place i = some (.acquire turn next) ∧ st'.shared = st.shared ∧
          (st'.place i = some (.queued next) ∨ st'.place i = some (.holds next))) ∨
        ∃ pc action, st.place i = some (.holds pc) ∧
          prog.code pc st.shared = some (st'.shared, action) ∧
          st'.place i = some (placeAfter pc action)) := by
  simp only [step, Option.bind_eq_bind, Option.bind_eq_some_iff] at moved
  obtain ⟨t, found, went⟩ := moved
  have here : st.place i = some t.place := by rw [Monitor.place, found, Option.map_some]
  have there : st.place i ≠ none := by rw [here]; exact Option.some_ne_none _
  cases place : t.place with
  | acquire turn next =>
      rw [place] at here
      simp only [place, Monitor.acquire] at went
      split at went
      · cases went
      split at went
      · cases went
        refine ⟨fun j other => ?_, .inl ⟨turn, next, here, rfl, .inl ?_⟩⟩
        · exact point_put_other other
        · exact place_put_self there
      · cases went
        refine ⟨fun j other => ?_, .inl ⟨turn, next, here, rfl, .inr ?_⟩⟩
        · exact point_put_other other
        · exact place_put_self there
  | holds pc =>
      rw [place] at here
      simp only [place, Monitor.run, Option.bind_eq_bind, Option.bind_eq_some_iff] at went
      obtain ⟨⟨shared, action⟩, ran, went⟩ := went
      split at went
      · -- the action leaves the others where they are, and puts the thread somewhere
        have lands (st₁ : Monitor P C σ) (shared' : st₁.shared = shared)
            (same : ∀ j, st₁.point j = st.point j)
            (place' : st'.place = (st₁.put i (placeAfter pc action)).place)
              (kept : st'.shared = st₁.shared) :
            (∀ j, j ≠ i → st'.point j = st.point j) ∧
              prog.code pc st.shared = some (st'.shared, action) ∧
              st'.place i = some (placeAfter pc action) := by
          have known : st₁.place i ≠ none := by
            rw [place_ne_none, same, ← place_ne_none]
            exact there
          refine ⟨fun j other => ?_, ?_, ?_⟩
          · rw [Monitor.point, place', ← Monitor.point, point_put_other other, same]
          · rw [kept, shared']
            exact ran
          · rw [place']
            exact place_put_self known
        suffices landed : (∀ j, j ≠ i → st'.point j = st.point j) ∧
            prog.code pc st.shared = some (st'.shared, action) ∧
            st'.place i = some (placeAfter pc action) from
          ⟨landed.1, .inr ⟨pc, action, here, landed.2⟩⟩
        cases action with
        | signal c next =>
            cases went
            exact lands (Monitor.signal { st with shared := shared } c) signal_shared
              (fun _ => point_signal c) rfl rfl
        | broadcast c next =>
            cases went
            exact lands (Monitor.broadcast c (st.queue c).length { st with shared := shared })
              broadcast_shared
              (fun _ => point_broadcast c _) rfl rfl
        | wait c next =>
            cases went
            exact lands (Monitor.release { st with shared := shared }) wakeLock_shared
              (fun _ => point_release) rfl rfl
        | release =>
            cases went
            exact lands (Monitor.release { st with shared := shared }) wakeLock_shared
              (fun _ => point_release) rfl rfl
        | again next =>
            cases went
            exact lands (Monitor.release { st with shared := shared }) wakeLock_shared
              (fun _ => point_release) rfl rfl
      · cases went
  | queued next => simp [place] at went
  | waiting c next => simp [place] at went
  | returned pc => simp [place] at went

end Calls

end Nachos.Threads.Synch
