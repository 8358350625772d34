/-
# Nachos.Threads.Semaphore -- `Semaphore::P` and `Semaphore::V`

One semaphore, and any number of threads that call `P` and `V` in any order; interrupt
handlers call `V` as well.  `V` wakes the first thread in the queue and counts up, but does
not hand the count over: a thread that calls `P` before the one that was woken runs takes it,
and the woken thread, which tests `value` again, goes back to sleep.  `completedP` and
`completedV` count the calls, and are no part of the code.

`value` is an `int`, and `V` does not look before it counts up: at the largest `int` it
wraps round.  `semaphore_counts_iff` says that the semaphore counts in just the runs in which
no `V` finds it there (`HasRoom`).
-/
import Nachos.Threads.Synch

namespace Nachos.Threads

open Nachos.Lib.Run
open Nachos.Threads.Synch (countP_modify)

set_option autoImplicit false

namespace Semaphore

inductive Place where
  /-- Not in `P`. -/
  | outside
  /-- Asleep in `P`. -/
  | queued
  /-- Made ready by `V`, before the test of `value`. -/
  | woken
  deriving DecidableEq, Repr

structure Caller where
  key : Int
  place : Place

end Semaphore

structure Semaphore where
  threads : List Semaphore.Caller
  /-- An `int`. -/
  value : BitVec 32
  queue : List (ListElement Nat)
  completedP : Nat
  completedV : Nat

namespace Semaphore

/-- `Semaphore::Semaphore`. -/
def create (initialValue : BitVec 32) : Semaphore := ⟨[], initialValue, [], 0, 0⟩

def place (s : Semaphore) (i : Nat) : Option Place := (s.threads[i]?).map Caller.place

def put (s : Semaphore) (i : Nat) (p : Place) : Semaphore :=
  { s with threads := s.threads.modify i fun t => { t with place := p } }

/-- A turn of the loop of `Semaphore::P`, and the rest of it. -/
def p (s : Semaphore) (i : Nat) (key : Int) : Semaphore :=
  if s.value = 0 then { s.put i .queued with queue := sortedInsert i key s.queue }
  else { s.put i .outside with value := s.value - 1, completedP := s.completedP + 1 }

/-- `queue->Remove()`, and `ReadyToRun`. -/
def wake (s : Semaphore) : Semaphore :=
  match remove s.queue with
  | none => s
  | some (j, rest) => { s.put j .woken with queue := rest }

/-- `Semaphore::V`. -/
def v (s : Semaphore) : Semaphore :=
  { s.wake with value := s.value + 1, completedV := s.completedV + 1 }

inductive Event where
  /-- A new thread. -/
  | thread (key : Int)
  | setPriority (i : Nat) (key : Int)
  | p (i : Nat)
  | v (i : Nat)
  /-- The thread comes back from `Sleep`. -/
  | proceed (i : Nat)
  /-- An interrupt handler calls `V`. -/
  | interrupt
  deriving DecidableEq, Repr

def step (s : Semaphore) : Event → Option Semaphore
  | .thread key => some { s with threads := s.threads ++ [⟨key, .outside⟩] }
  | .setPriority i key =>
      some { s with threads := s.threads.modify i fun t => { t with key := key } }
  | .p i => do
      let t ← s.threads[i]?
      if t.place = .outside then some (s.p i t.key) else none
  | .v i => do
      let t ← s.threads[i]?
      if t.place = .outside then some s.v else none
  | .proceed i => do
      let t ← s.threads[i]?
      if t.place = .woken then some (s.p i t.key) else none
  | .interrupt => some s.v

/-- The threads that were queued, are ready, and have not tested `value` again. -/
def woken (s : Semaphore) : Nat := s.threads.countP fun t => t.place = .woken

/-! ## The invariant -/

/-- The value is what was put in less what was taken out, and while threads sleep as many
as the value says are on their way to take it. -/
structure Counts (initialValue : BitVec 32) (s : Semaphore) : Prop where
  value : s.value.toInt = initialValue.toInt + s.completedV - s.completedP
  positive : 0 ≤ s.value.toInt
  covered : s.queue ≠ [] → s.value.toInt ≤ s.woken

/-- The queue holds the threads that sleep, once. -/
structure Counted (initialValue : BitVec 32) (s : Semaphore) : Prop
    extends Counts initialValue s where
  queued : ∀ i, i ∈ items s.queue ↔ s.place i = some .queued
  once : (items s.queue).Nodup

/-- A call of `V` finds `value` below the largest `int`. -/
def HasRoom (s : Semaphore) : Event → Prop
  | .v _ => s.value.toInt < 2 ^ 31 - 1
  | .interrupt => s.value.toInt < 2 ^ 31 - 1
  | _ => True

instance (s : Semaphore) (e : Event) : Decidable (s.HasRoom e) :=
  match e with
  | .v _ => inferInstanceAs (Decidable (_ < _))
  | .interrupt => inferInstanceAs (Decidable (_ < _))
  | .thread _ => inferInstanceAs (Decidable True)
  | .setPriority _ _ => inferInstanceAs (Decidable True)
  | .p _ => inferInstanceAs (Decidable True)
  | .proceed _ => inferInstanceAs (Decidable True)

section Invariant

variable {initialValue : BitVec 32} {s s' : Semaphore} {i : Nat} {t : Caller} {key : Int}

theorem place_put (found : s.threads[i]? = some t) (p : Place) (j : Nat) :
    (s.put i p).place j = if j = i then some p else s.place j := by
  simp only [place, put, List.getElem?_modify]
  by_cases same : j = i
  · subst same
    simp [found]
  · simp [same, Ne.symm same]

theorem woken_put (found : s.threads[i]? = some t) (p : Place) :
    (s.put i p).woken + (decide (t.place = .woken)).toNat =
      s.woken + (decide (p = .woken)).toNat :=
  countP_modify (h := fun t : Caller => decide (t.place = .woken)) found

/-- Below the largest `int`, counting up does not wrap. -/
theorem toInt_up {x : BitVec 32} (positive : 0 ≤ x.toInt) (room : x.toInt < 2 ^ 31 - 1) :
    (x + 1).toInt = x.toInt + 1 := by
  have one : (1 : BitVec 32).toInt = 1 := rfl
  rw [BitVec.toInt_add, one]
  exact Int.bmod_eq_of_le (by omega) (by omega)

theorem toInt_down {x : BitVec 32} (positive : 0 < x.toInt) : (x - 1).toInt = x.toInt - 1 := by
  have small := BitVec.toInt_lt (x := x)
  have one : (1 : BitVec 32).toInt = 1 := rfl
  rw [BitVec.toInt_sub, one]
  exact Int.bmod_eq_of_le (by omega) (by omega)

/-- At the largest `int` it does: the count is the smallest one. -/
theorem toInt_wrapped {x : BitVec 32} (full : ¬ x.toInt < 2 ^ 31 - 1) : (x + 1).toInt < 0 := by
  have small := BitVec.toInt_lt (x := x)
  have one : (1 : BitVec 32).toInt = 1 := rfl
  have wrapped : (x.toInt + 1).bmod (2 ^ 32) = -2 ^ 31 := by
    rw [show x.toInt = 2 ^ 31 - 1 by omega]
    rfl
  rw [BitVec.toInt_add, one, wrapped]
  decide

/-- A thread that does not sleep tests `value`. -/
theorem Counted.p (counted : Counted initialValue s) (found : s.threads[i]? = some t)
    (awake : t.place ≠ .queued) : Counted initialValue (s.p i key) := by
  have here : s.place i = some t.place := by simp [place, found]
  have absent : i ∉ items s.queue := by
    rw [counted.queued, here]
    simpa using awake
  unfold Semaphore.p
  split
  · rename_i empty
    refine ⟨⟨counted.value, counted.positive, ?_⟩, ?_, ?_⟩
    · intro _
      show s.value.toInt ≤ (s.put i .queued).woken
      rw [empty]
      exact Int.natCast_nonneg _
    · intro j
      show j ∈ items (sortedInsert i key s.queue) ↔ (s.put i .queued).place j = some .queued
      rw [mem_items_sortedInsert, place_put found, counted.queued]
      by_cases same : j = i <;> simp [same]
    · exact items_sortedInsert_perm.nodup_iff.mpr (List.nodup_cons.mpr ⟨absent, counted.once⟩)
  · rename_i some
    have positive : 0 < s.value.toInt := by
      have nonzero : s.value.toInt ≠ 0 := fun zero => some (BitVec.eq_of_toInt_eq zero)
      have := counted.positive
      omega
    have down := toInt_down positive
    refine ⟨⟨?_, ?_, ?_⟩, ?_, counted.once⟩
    · have value := counted.value
      show (s.value - 1).toInt = initialValue.toInt +
          s.completedV - ((s.completedP + 1 : Nat) : Int)
      omega
    · show 0 ≤ (s.value - 1).toInt
      omega
    · intro waiting
      have covered := counted.covered waiting
      have fewer := woken_put found .outside
      show (s.value - 1).toInt ≤ (s.put i .outside).woken
      cases place : t.place <;> simp [place] at fewer <;> omega
    · intro j
      show j ∈ items s.queue ↔ (s.put i .outside).place j = Option.some .queued
      rw [place_put found, counted.queued]
      by_cases same : j = i
      · simp [same, here, awake]
      · simp [same]

/-- `V` wakes a thread, if one sleeps, and counts up. -/
theorem Counted.v (counted : Counted initialValue s) (room : s.value.toInt < 2 ^ 31 - 1) :
    Counted initialValue s.v := by
  have value := counted.value
  have positive := counted.positive
  have up := toInt_up positive room
  unfold Semaphore.v wake
  cases removed : remove s.queue with
  | none =>
      have nobody := remove_eq_none removed
      refine ⟨⟨?_, ?_, fun waiting => absurd nobody waiting⟩, counted.queued, counted.once⟩
      · show (s.value + 1).toInt =
          initialValue.toInt + ((s.completedV + 1 : Nat) : Int) - s.completedP
        omega
      · show 0 ≤ (s.value + 1).toInt
        omega
  | some pair =>
      obtain ⟨j, rest⟩ := pair
      obtain ⟨key, head⟩ := remove_eq_some removed
      have once := counted.once
      rw [head] at once
      obtain ⟨absent, once⟩ : j ∉ items rest ∧ (items rest).Nodup := List.nodup_cons.mp once
      have asleep : s.place j = some .queued := (counted.queued j).mp (by simp [head, items])
      obtain ⟨t, found, here⟩ := Option.map_eq_some_iff.mp asleep
      refine ⟨⟨?_, ?_, ?_⟩, ?_, once⟩
      · show (s.value + 1).toInt =
          initialValue.toInt + ((s.completedV + 1 : Nat) : Int) - s.completedP
        omega
      · show 0 ≤ (s.value + 1).toInt
        omega
      · intro _
        have covered := counted.covered (by simp [head])
        have more := woken_put found .woken
        show (s.value + 1).toInt ≤ (s.put j .woken).woken
        simp [here] at more
        omega
      · intro k
        show k ∈ items rest ↔ (s.put j .woken).place k = some .queued
        have queued := counted.queued k
        rw [head] at queued
        rw [place_put found]
        by_cases same : k = j
        · simp [same, absent]
        · simpa [items, same] using queued

theorem Counted.step {e : Event} (counted : Counted initialValue s) (room : s.HasRoom e)
    (stepped : s.step e = some s') : Counted initialValue s' := by
  cases e with
  | thread key =>
      cases stepped
      refine ⟨⟨counted.value, counted.positive, ?_⟩, ?_, counted.once⟩
      · intro waiting
        simpa [woken] using counted.covered waiting
      · intro i
        rw [counted.queued]
        by_cases old : i < s.threads.length
        · simp [place, List.getElem?_append_left old]
        · by_cases new : i = s.threads.length
          · simp [place, new]
          · have before : s.threads[i]? = none := List.getElem?_eq_none (by omega)
            have after : (s.threads ++ [⟨key, .outside⟩])[i]? = none := by
              apply List.getElem?_eq_none
              rw [List.length_append, List.length_singleton]
              omega
            simp [place, before, after]
  | setPriority i key =>
      cases stepped
      have places : ∀ j,
          place { s with threads := s.threads.modify i fun t => { t with key := key } } j =
          s.place j := by
        intro j
        simp only [place, List.getElem?_modify]
        cases s.threads[j]? with
        | none => rfl
        | some t => split <;> rfl
      have same : woken { s with threads := s.threads.modify i fun t => { t with key := key } } =
          s.woken := by
        cases found : s.threads[i]? with
        | none =>
            have beyond : s.threads.length ≤ i := List.getElem?_eq_none_iff.mp found
            simp [woken, List.modify_eq_self beyond]
        | some t =>
            exact Nat.add_right_cancel
              (countP_modify (h := fun t : Caller => decide (t.place = .woken))
              (f := fun t => { t with key := key }) found)
      refine ⟨⟨counted.value, counted.positive, fun waiting => ?_⟩, fun j => ?_, counted.once⟩
      · rw [same]
        exact counted.covered waiting
      · rw [places]
        exact counted.queued j
  | p i =>
      obtain ⟨t, found, moved⟩ := Option.bind_eq_some_iff.mp stepped
      split at moved
      · rename_i outside
        cases moved
        exact counted.p found (by simp [outside])
      · cases moved
  | v i =>
      obtain ⟨t, found, moved⟩ := Option.bind_eq_some_iff.mp stepped
      split at moved
      · cases moved
        exact counted.v room
      · cases moved
  | proceed i =>
      obtain ⟨t, found, moved⟩ := Option.bind_eq_some_iff.mp stepped
      split at moved
      · rename_i ready
        cases moved
        exact counted.p found (by simp [ready])
      · cases moved
  | interrupt =>
      cases stepped
      exact counted.v room

/-- A `V` that wraps leaves a count below zero. -/
theorem hasRoom_of_positive {e : Event} (stepped : s.step e = some s')
    (positive : 0 ≤ s'.value.toInt) : s.HasRoom e := by
  have up : 0 ≤ s.v.value.toInt → s.value.toInt < 2 ^ 31 - 1 := by
    intro nonneg
    by_contra full
    exact absurd nonneg (Int.not_le.mpr (toInt_wrapped full))
  cases e with
  | v i =>
      obtain ⟨t, found, moved⟩ := Option.bind_eq_some_iff.mp stepped
      split at moved
      · cases moved
        exact up positive
      · cases moved
  | interrupt =>
      cases stepped
      exact up positive
  | thread key => trivial
  | setPriority i key => trivial
  | p i => trivial
  | proceed i => trivial

end Invariant

theorem counted_create {initialValue : BitVec 32} (start : 0 ≤ initialValue.toInt) :
    Counted initialValue (create initialValue) := by
  refine ⟨⟨?_, start, fun waiting => absurd rfl waiting⟩, ?_, List.nodup_nil⟩
  · simp [create]
  · intro i
    simp [create, items, place]

/-- **A semaphore counts, never below zero, and loses no wake-up**: in every state of a run
the value is the initial one with the calls of `V` less those of `P`, and while threads sleep
as many as it says have been woken and are yet to test it.  This holds in the runs in which
no `V` finds the value at the largest `int`, and in no others. -/
theorem semaphore_counts_iff (initialValue : BitVec 32) (start : 0 ≤ initialValue.toInt)
    (events : List Event) (s : Semaphore)
    (run : exec step (create initialValue) events = some s) :
    AllStates step (Counts initialValue) (create initialValue) events ↔
      AllSteps step HasRoom (create initialValue) events := by
  constructor
  · intro counts
    clear start
    generalize create initialValue = s₀ at run counts
    induction events generalizing s₀ with
    | nil => trivial
    | cons e events ih =>
        obtain ⟨s', stepped, rest⟩ := exec_cons_eq_some.mp run
        have later := counts.2 s' stepped
        exact AllSteps.cons (hasRoom_of_positive stepped later.first.positive) stepped
          (ih s' rest later)
  · intro room
    have counted := allStates_of_invariant
      (fun s e s' (counted : Counted initialValue s) room stepped => counted.step room stepped)
      (counted_create start) room
    exact counted.mono fun s counted => counted.toCounts

/-- Two threads sleep; `V` wakes the first, a third takes the value before it runs, and it
sleeps again. -/
theorem semaphore_counts_three :
    ∃ s, exec step (create 0) [.thread 0, .thread 0, .thread 0, .p 0, .p 1, .interrupt, .p 2,
        .proceed 0, .v 2] = some s ∧ items s.queue = [0] ∧
      AllStates step (Counts 0) (create 0) [.thread 0, .thread 0, .thread 0, .p 0, .p 1,
        .interrupt, .p 2, .proceed 0, .v 2] :=
  ⟨_, rfl, rfl, (semaphore_counts_iff 0 (by decide) [.thread 0, .thread 0, .thread 0, .p 0, .p 1,
    .interrupt, .p 2, .proceed 0, .v 2] _ rfl).mpr (by decide)⟩

/-- `V` on a semaphore made with the largest `int`: the value is negative. -/
theorem semaphore_overflows :
    ∃ s, exec step (create 0x7fffffff) [.interrupt] = some s ∧ s.value.toInt = -2 ^ 31 ∧
      0 ≤ (create 0x7fffffff).value.toInt ∧ ¬ Counts 0x7fffffff s := by
  refine ⟨_, rfl, rfl, by decide, fun counts => ?_⟩
  exact absurd counts.positive (by decide)

end Semaphore

end Nachos.Threads
