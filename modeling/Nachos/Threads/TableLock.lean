/-
# Nachos.Threads.TableLock -- `Alloc` and `Release` of a `Table`, by any number of threads

The calls of one table, interleaved.  A thread moves from one point where interrupts are enabled
to the next, as in `Threads.Synch`: it tests the lock, it runs with the lock, or it goes on after
`access_lock->Release()`.  A thread whose call has returned may make another one.

In `Alloc` the assignment to `last_element` comes after the lock is released, and `return -1` comes
before it: a thread that finds nothing leaves `Alloc` and keeps the lock (`Point.full`).  Nobody
else gets into the table after that.

* `Fair.step`: while every search finds an entry, nobody keeps the lock.
* `table_usable`: the table stays usable in a run exactly when every search in it finds an entry.
-/
import Nachos.Threads.Synch
import Nachos.Threads.Identifiers

namespace Nachos.Threads.TableLock

open Nachos.Lib.Run
open Nachos.Threads.Synch

set_option autoImplicit false

/-- Where a thread is in a call, or what the call has returned. -/
inductive Point where
  | alloc (object : Option Nat)
  /-- The entry is taken and the lock is released, and `last_element` is still to be set. -/
  | setLast (entry : Nat)
  | allocated (id : Nat)
  /-- `Alloc` has returned -1. -/
  | full
  | release (index : Int)
  | released
  deriving DecidableEq, Repr

/-- A call begins at its `Acquire`. -/
def Point.entry : Point → Bool
  | .alloc _ | .release _ => true
  | _ => false

/-- The lock is that of the monitor; there are no conditions. -/
abbrev State := Monitor Point Empty Table

/-- The table after `Table::Table`. -/
def start (size : Nat) (garbage : Nat → Option Nat) : State := init (Table.create size garbage)

/-- The thread that holds the lock goes on. -/
def run (st : State) (i : Nat) : Point → Option State
  | .alloc object =>
      match st.shared.findFree st.shared.maxElements st.shared.lastElement with
      | .error _ => none
      | .ok none => some (st.put i (.holds .full))
      | .ok (some entry) =>
          let shared := { st.shared with backing := Function.update st.shared.backing entry object }
          some ((Monitor.release { st with shared }).put i (.returned (.setLast entry)))
  | .release index =>
      if 1 ≤ index ∧ index ≤ st.shared.maxElements then
        let shared := { st.shared with
          backing := Function.update st.shared.backing (index - 1).toNat none }
        some ((Monitor.release { st with shared }).put i (.returned .released))
      else none
  | _ => none

/-- The call has returned. -/
def ended : Place Point Empty → Bool
  | .returned (.setLast _) => false
  | .returned _ | .holds .full => true
  | _ => false

inductive Event where
  /-- A new thread makes a call. -/
  | fork (pc : Point) (key : Int)
  /-- A thread that has returned from a call makes another one. -/
  | call (i : Nat) (pc : Point)
  | setPriority (i : Nat) (key : Int)
  | move (i : Nat)
  deriving DecidableEq, Repr

/-- `Acquire` begins with `ASSERT(!isHeldByCurrentThread())`, `Release` with
`ASSERT(isHeldByCurrentThread())`. -/
def step (st : State) : Event → Option State
  | .fork pc key => if pc.entry then some (st.call pc key) else none
  | .call i pc => do
      let p ← st.place i
      if ended p ∧ pc.entry ∧ st.currThread ≠ some i then
        some (st.put i (.acquire .first pc))
      else none
  | .setPriority i key => some (st.setPriority i key)
  | .move i => do
      let t ← st.threads[i]?
      match t.place with
      | .acquire _ next => st.acquire i t.key next
      | .holds pc => if st.currThread = some i then run st i pc else none
      | .returned (.setLast entry) =>
          let shared := { st.shared with lastElement := entry + 1 }
          some (Monitor.put { st with shared } i (.returned (.allocated (entry + 1))))
      | _ => none

/-! ## What should hold -/

/-- Nobody keeps the lock after a call, and when every thread has returned or sleeps nobody
sleeps. -/
structure Usable (st : State) : Prop where
  left : ∀ i p, st.place i = some p → ended p = true → st.currThread ≠ some i
  live : (∀ i p, st.place i = some p → ended p = true ∨ p.blocked = true) →
    ∀ i p, st.place i = some p → p.blocked = false

/-- An `Alloc` that returns -1 changes nothing in the table. -/
def Harmless (st : State) (e : Event) : Prop :=
  ∀ i st', e = .move i → step st e = some st' → st'.place i = some (.holds .full) →
    st'.shared = st.shared

/-- From `last_element` on there is an entry that is free. -/
def HasFree (t : Table) : Prop := ∃ k < t.maxElements, t.lastElement ≤ k ∧ t.backing k = none

instance (t : Table) : Decidable (HasFree t) :=
  inferInstanceAs (Decidable (∃ k < t.maxElements, t.lastElement ≤ k ∧ t.backing k = none))

/-- The thread is in `Alloc`, with the lock. -/
def searches : Place Point Empty → Bool
  | .holds (.alloc _) => true
  | _ => false

/-- A thread that searches has a free entry before it. -/
def Finds (st : State) : Event → Prop
  | .move i => (st.place i).any searches = true → HasFree st.shared
  | _ => True

instance (st : State) : (e : Event) → Decidable (Finds st e)
  | .move i => inferInstanceAs (Decidable ((st.place i).any searches = true → HasFree st.shared))
  | .fork _ _ | .call _ _ | .setPriority _ _ => isTrue trivial

/-! ## Places -/

section Places

variable {st st' : State} {i : Nat} {p : Place Point Empty} {pc : Point} {key : Int}

/-- Only threads under way to an entry point, or in it, have to do with the lock. -/
def fits : Place Point Empty → Bool
  | .acquire _ pc | .queued pc | .holds pc => pc.entry
  | .waiting c _ => c.elim
  | .returned _ => true

/-- The queue of the lock is as it should be, and nobody has left a call with the lock. -/
structure Fair (st : State) : Prop where
  sound : Sound st
  fits : ∀ i p, st.place i = some p → fits p = true

theorem fits_put (fair : ∀ j q, st.place j = some q → fits q = true) (here : fits p = true) :
    ∀ j q, (st.put i p).place j = some q → fits q = true := by
  intro j q there
  by_cases same : j = i
  · subst same
    by_cases known : st.place j = none
    · have gone : (st.put j p).place j = none := by
        simp only [Monitor.place, Option.map_eq_none_iff] at known
        simp [Monitor.place, Monitor.put, Monitor.update, known]
      rw [gone] at there
      cases there
    · rw [place_put_self known, Option.some.injEq] at there
      exact there ▸ here
  · rw [place_put_other same] at there
    exact fair j q there

/-- To be woken leaves a thread under way. -/
theorem fits_release (fair : ∀ j q, st.place j = some q → fits q = true) :
    ∀ j q, st.release.place j = some q → fits q = true := by
  have up : ∀ q : Place Point Empty, fits q = true → fits q.wake = true := by
    intro q here
    cases q with
    | waiting c next => exact c.elim
    | acquire | queued | holds | returned => exact here
  intro j q there
  have there : st.wakeLock.place j = some q := there
  unfold Monitor.wakeLock at there
  split at there
  · exact fair j q there
  · rename_i k rest _
    have there : (st.update k Place.wake).place j = some q := there
    by_cases same : k = j
    · subst same
      cases before : st.place k with
      | none =>
          simp only [Monitor.place, Option.map_eq_none_iff] at before
          simp [Monitor.place, Monitor.update, before] at there
      | some p =>
          rw [place_update before, Function.update_self, Option.some.injEq] at there
          exact there ▸ up p (fair k p before)
    · have other : (st.update k Place.wake).place j = st.place j := by
        simp [Monitor.place, Monitor.update, same]
      exact fair j q (other ▸ there)

theorem Fair.put_outside (fair : Fair st) (there : st.place i = some (.returned pc))
    (gone : ∀ pc, p ≠ .holds pc)
    (unqueued : ∀ next, p ≠ .queued next) (here : TableLock.fits p = true) : Fair (st.put i p) := by
  refine ⟨?_, fits_put fair.fits here⟩
  show Tied (st.put i p).place st.currThread st.isLocked st.lockQueue st.queue
  rw [place_put there]
  exact Tied.outside fair.sound there gone unqueued fun c => c.elim

theorem Fair.leave (fair : Fair st) (there : st.place i = some (.holds pc)) {shared : Table}
    (pc' : Point) :
    Fair ((Monitor.release { st with shared }).put i (.returned pc')) := by
  have sound : Sound { st with shared } := fair.sound
  have fits : ∀ j q, Monitor.place { st with shared } j = some q →
      TableLock.fits q = true := fair.fits
  exact ⟨sound.release there nofun nofun nofun, fits_put (fits_release fits) rfl⟩

end Places

/-! ## Steps -/

section Steps

variable {st st' : State} {e : Event} {i : Nat} {object : Option Nat}

/-- **A search with a free entry ahead takes one.** -/
theorem HasFree.found {t : Table} (free : HasFree t) :
    ∃ j, t.findFree t.maxElements t.lastElement = .ok (some j) := by
  obtain ⟨k, high, low, clear⟩ := free
  obtain ⟨none, -⟩ | ⟨j, -, -, found, -⟩ := t.findFree_cases (i := t.lastElement)
    (n := t.maxElements)
    (by omega) (Nat.sub_le ..)
  · rw [Table.nulls, List.countP_eq_zero] at none
    exact absurd (by simp [clear]) (none k (List.mem_range'_1.mpr ⟨low, by omega⟩))
  · exact ⟨j, found⟩

theorem Fair.step (fair : Fair st) (finds : Finds st e) (stepped : step st e = some st') :
    Fair st' := by
  cases e with
  | fork pc key =>
      simp only [TableLock.step] at stepped
      split at stepped
      · rename_i entry
        cases stepped
        have fresh : st.place st.threads.length = none := by simp [Monitor.place]
        refine ⟨?_, fun j q there => ?_⟩
        · show Tied (st.call pc key).place st.currThread st.isLocked st.lockQueue st.queue
          rw [place_call]
          exact Tied.call fair.sound fresh
        · rw [place_call] at there
          by_cases same : j = st.threads.length
          · rw [same, Function.update_self, Option.some.injEq] at there
            exact there ▸ entry
          · rw [Function.update_of_ne same] at there
            exact fair.fits j q there
      · cases stepped
  | call i pc =>
      obtain ⟨p, there, went⟩ := Option.bind_eq_some_iff.mp stepped
      split at went
      · rename_i here
        obtain ⟨out, entry, -⟩ := here
        cases went
        have law := fair.fits i p there
        cases p with
        | returned pc' => exact fair.put_outside there (by rintro _ ⟨⟩) (by rintro _ ⟨⟩) entry
        | holds pc' =>
            cases pc' with
            | full => cases law
            | alloc | setLast | allocated | release | released => cases out
        | acquire | queued | waiting => cases out
      · cases went
  | setPriority i key =>
      cases stepped
      refine ⟨?_, fun j q there => fair.fits j q (by rwa [place_setPriority] at there)⟩
      show Tied (st.setPriority i key).place st.currThread st.isLocked st.lockQueue st.queue
      rw [place_setPriority]
      exact fair.sound
  | move i =>
      obtain ⟨t, found, moved⟩ := Option.bind_eq_some_iff.mp stepped
      have there : st.place i = some t.place := by simp [Monitor.place, found]
      have law := fair.fits i t.place there
      split at moved
      · rename_i turn next here
        rw [here] at there law
        refine ⟨(fair.sound.acquire ⟨fun _ => true, fun _ _ => none⟩ there moved).1, ?_⟩
        unfold Monitor.acquire at moved
        split at moved
        · cases moved
        split at moved
        · cases moved
          exact fits_put fair.fits law
        · cases moved
          exact fits_put fair.fits law
      · rename_i pc here
        rw [here] at there law
        split at moved
        · cases pc with
          | alloc object =>
              obtain ⟨j, searched⟩ := (finds (by rw [there]; rfl)).found
              simp only [run, searched] at moved
              cases moved
              exact fair.leave there _
          | release index =>
              simp only [run] at moved
              split at moved
              · cases moved
                exact fair.leave there _
              · cases moved
          | setLast | allocated | full | released => cases law
        · cases moved
      · rename_i entry here
        rw [here] at there
        cases moved
        have fair' : Fair { st with shared := { st.shared with lastElement := entry + 1 } } :=
          ⟨fair.sound, fair.fits⟩
        exact fair'.put_outside there (by rintro _ ⟨⟩) (by rintro _ ⟨⟩) rfl
      · cases moved

theorem Fair.usable (fair : Fair st) : Usable st := by
  refine ⟨fun i p there out holder => ?_, fun quiet i p there => ?_⟩
  · obtain ⟨pc, here⟩ := (fair.sound.held i).mp holder
    have law := fair.fits i _ here
    rw [there, Option.some.injEq] at here
    subst here
    cases pc with
    | full => cases law
    | alloc | setLast | allocated | release | released => cases out
  · -- if all have returned or sleep, nobody is on the way to the lock
    have quiescent : Quiescent st := by
      intro t member
      obtain ⟨j, found⟩ := List.mem_iff_getElem?.mp member
      have here : st.place j = some t.place := by simp [Monitor.place, found]
      obtain out | asleep := quiet j _ here
      · cases place : t.place with
        | holds pc =>
            have law := fair.fits j _ here
            rw [place] at law out
            cases pc with
            | full => cases law
            | alloc | setLast | allocated | release | released => cases out
        | acquire | queued | waiting => simp [place, ended] at out
        | returned => rfl
      · cases place : t.place with
        | queued | waiting => rfl
        | acquire | holds | returned => simp [place, Place.blocked] at asleep
    cases p with
    | queued next =>
        exact absurd (mem_others.mpr ⟨i, _, there, rfl⟩) ((fair.sound.quiescent quiescent).2 next)
    | waiting c next => exact c.elim
    | acquire | holds | returned => rfl

/-- **A search that finds nothing keeps the lock.** -/
theorem Usable.finds (stepped : step st e = some st') (usable : Usable st') : Finds st e := by
  cases e with
  | fork | call | setPriority => trivial
  | move i =>
      intro searching
      obtain ⟨t, found, moved⟩ := Option.bind_eq_some_iff.mp stepped
      have there : st.place i = some t.place := by simp [Monitor.place, found]
      rw [there, Option.any_some] at searching
      unfold searches at searching
      split at searching
      · rename_i object here
        simp only [here] at moved
        split at moved
        · rename_i holder
          simp only [run] at moved
          split at moved
          · cases moved
          · cases moved
            have kept : (st.put i (.holds .full)).place i = some (.holds .full) :=
              place_put_self (by rw [there]; simp)
            exact absurd holder (usable.left i _ kept rfl)
          · rename_i k searched
            obtain ⟨low, high, clear⟩ := Table.findFree_some searched
            exact ⟨k, high, low, clear⟩
        · cases moved
      · cases searching

theorem place_left {shared : Table} {pc : Point} (known : st.place i ≠ none) :
    ((Monitor.release { st with shared }).put i (.returned pc)).place i = some (.returned pc) := by
  refine place_put_self ?_
  rw [place_ne_none, point_release]
  exact place_ne_none.mp known

theorem harmless (st : State) (e : Event) : Harmless st e := by
  rintro i st' rfl stepped failed
  obtain ⟨t, found, moved⟩ := Option.bind_eq_some_iff.mp stepped
  have known : st.place i ≠ none := by simp [Monitor.place, found]
  split at moved
  · unfold Monitor.acquire at moved
    split at moved
    · cases moved
    split at moved
    · cases moved
      rfl
    · cases moved
      rfl
  · rename_i pc _
    split at moved
    · cases pc with
      | alloc object =>
          simp only [run] at moved
          split at moved
          · cases moved
          · cases moved
            rfl
          · cases moved
            rw [place_left known] at failed
            cases failed
      | release index =>
          simp only [run] at moved
          split at moved
          · cases moved
            rw [place_left known] at failed
            cases failed
          · cases moved
      | setLast | allocated | full | released => cases moved
    · cases moved
  · cases moved
    have there := failed.symm.trans (place_put_self known)
    cases there
  · cases moved

end Steps

/-! ## Runs -/

/-- In every state of the run the table is usable, and no `Alloc` that fails changes it. -/
def Serves (st : State) (events : List Event) : Prop :=
  AllStates step Usable st events ∧ AllSteps step Harmless st events

section Runs

variable {st t : State} {events : List Event}

theorem start_fair (size : Nat) (garbage : Nat → Option Nat) : Fair (start size garbage) :=
  ⟨init_sound _, fun i p there => by simp [start, init, Monitor.place] at there⟩

/-- Where the table is usable throughout, every search has found an entry. -/
theorem finds_of_usable (run : exec step st events = some t)
    (usable : AllStates step Usable st events) :
    AllSteps step Finds st events := by
  induction events generalizing st with
  | nil => trivial
  | cons e events ih =>
      obtain ⟨st', stepped, rest⟩ := exec_cons_eq_some.mp run
      have later := usable.2 st' stepped
      exact .cons (later.first.finds stepped) stepped (ih rest later)

/-- **A table stays usable exactly when every search finds an entry**, in every interleaving of any
number of calls. -/
theorem table_usable (size : Nat) (garbage : Nat → Option Nat) {events : List Event} {st : State}
    (run : exec step (start size garbage) events = some st) :
    Serves (start size garbage) events ↔ AllSteps step Finds (start size garbage) events := by
  constructor
  · rintro ⟨usable, -⟩
    exact finds_of_usable run usable
  · intro finds
    have fair := allStates_of_invariant
      (fun _ _ _ fair finds stepped => Fair.step fair finds stepped)
      (start_fair size garbage) finds
    have all := allSteps_of_invariant (I := fun _ => True) (fun _ _ _ _ _ _ => trivial)
      (fun st e _ _ => harmless st e)
      trivial finds
    exact ⟨fair.mono fun st => Fair.usable, all⟩

/-- Two threads allocate an entry each and release them, and each time the second sleeps until the
first has released the lock. -/
def twoThreads : List Event :=
  [.fork (.alloc (some 7)) 0, .fork (.alloc (some 8)) 0, .move 0, .move 1, .move 0, .move 0,
    .move 1, .move 1, .move 1, .call 0 (.release 1), .move 0, .call 1 (.release 2),
    .move 1, .move 0, .move 1, .move 1]

theorem table_usable_two : ∃ st, exec step (start 2 fun _ => none) twoThreads = some st ∧
    st.place 0 = some (.returned .released) ∧ st.place 1 = some (.returned .released) ∧
    Serves (start 2 fun _ => none) twoThreads :=
  ⟨_, rfl, rfl, rfl, (table_usable 2 (fun _ => none) rfl).mpr (by decide +kernel)⟩

/-- The only entry is taken, and before `last_element` is set a second thread searches: its `Alloc`
returns -1 and keeps the lock, and a third thread sleeps in `Release` for ever. -/
theorem full_table_locked : ∃ st, exec step (start 1 fun _ => none)
      [.fork (.alloc (some 7)) 0, .move 0, .move 0, .fork (.alloc (some 8)) 0, .move 1,
        .move 1, .move 0, .fork (.release 1) 0, .move 2] = some st ∧
    st.place 1 = some (.holds .full) ∧ st.currThread = some 1 ∧
      st.place 2 = some (.queued (.release 1)) ∧
    ¬ Usable st := by
  refine ⟨_, rfl, rfl, rfl, rfl, fun usable => ?_⟩
  exact usable.left 1 _ rfl rfl rfl

end Runs

end Nachos.Threads.TableLock
