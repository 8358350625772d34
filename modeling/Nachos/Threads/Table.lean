/-
# Nachos.Threads.Table -- `threads/table.cc`: the table of programs

`Alloc` looks for a free entry from `last_element` on, `max_elements` entries far and
without wrapping round, so that it can leave the array; the model stops there.  When it
finds no entry it returns -1 with `access_lock` still held: the next `Alloc` or `Release` of the
same thread fails an `ASSERT`, and that of another thread waits for ever.
-/
import Nachos.Outcome
import Mathlib.Logic.Function.Basic

namespace Nachos.Threads

set_option autoImplicit false

/-- A `Table` of pointers to threads, which are numbered here; `none` is `NULL`. -/
structure Table where
  backing : Nat → Option Nat
  maxElements : Nat
  lastElement : Nat
  /-- The thread that holds `access_lock`. -/
  accessLock : Option Nat

namespace Table

/-- The loop of `Alloc`, with `n` entries to go: the entry it stops at. -/
def findFree (t : Table) : Nat → Nat → Except Stop (Option Nat)
  | 0, _ => return none
  | n + 1, nextElement =>
      if t.maxElements ≤ nextElement then throw .outOfBounds
      else
        match t.backing nextElement with
        | none => return some nextElement
        | some _ => findFree t n (nextElement + 1)

/-- `access_lock->Acquire()` by `thread`, once it is its turn: a thread that holds the lock
already fails the `ASSERT(!isHeldByCurrentThread())`, any other waits. -/
def acquire (t : Table) (thread : Nat) : Except Stop Table :=
  match t.accessLock with
  | some holder => if holder = thread then throw .assertion else throw .blocked
  | none => return { t with accessLock := some thread }

/-- `Alloc` between `Acquire` and `Release`, for any pointer: the result, and the table. -/
def allocPointer (t : Table) (object : Option Nat) : Except Stop (Int × Table) := do
  match ← t.findFree t.maxElements t.lastElement with
  | none => return (-1, t)
  | some i =>
      return (i + 1, { t with
        backing := Function.update t.backing i object
        lastElement := i + 1
        accessLock := none })

/-- The same for a thread that was just made. -/
def allocHeld (t : Table) (object : Nat) : Except Stop (Int × Table) := t.allocPointer (some object)

/-- `Get`. -/
def get (t : Table) (index : Int) : Except Stop (Option Nat) :=
  if 1 ≤ index ∧ index ≤ t.maxElements then return t.backing (index - 1).toNat
  else throw .outOfBounds

/-- Entries that are taken stay as they are. -/
def Extends (t t' : Table) : Prop :=
  t'.maxElements = t.maxElements ∧ ∀ i object, t.backing i = some object →
    t'.backing i = some object

/-- `Alloc` stays in the array: it starts at the first entry, or there is a free one ahead. -/
def HasRoom (t : Table) : Prop :=
  t.lastElement = 0 ∨ ∃ i, t.lastElement ≤ i ∧ i < t.maxElements ∧ t.backing i = none

instance (t : Table) : Decidable t.HasRoom :=
  decidable_of_iff
    (t.lastElement = 0 ∨ ∃ i, i < t.maxElements ∧ t.lastElement ≤ i ∧ t.backing i = none)
    (or_congr_right (exists_congr fun _ => and_left_comm))

section Entries

variable {t t' : Table} {object : Nat}

theorem findFree_some {n i j : Nat} (found : t.findFree n i = .ok (some j)) :
    i ≤ j ∧ j < t.maxElements ∧ t.backing j = none := by
  induction n generalizing i with
  | zero => cases found
  | succ n ih =>
      unfold findFree at found
      split at found
      · cases found
      · rename_i inside
        split at found
        · rename_i free
          cases found
          exact ⟨Nat.le_refl _, Nat.lt_of_not_le inside, free⟩
        · obtain ⟨low, rest⟩ := ih found
          exact ⟨by omega, rest⟩

theorem findFree_ok {n i : Nat}
    (room : i + n ≤ t.maxElements ∨ ∃ j, i ≤ j ∧ j < t.maxElements ∧ t.backing j = none) :
    ∃ found, t.findFree n i = .ok found := by
  induction n generalizing i with
  | zero => exact ⟨none, rfl⟩
  | succ n ih =>
      have inside : ¬ t.maxElements ≤ i := by
        rcases room with fits | ⟨j, ahead, low, -⟩ <;> omega
      unfold findFree
      rw [if_neg inside]
      cases entry : t.backing i with
      | none => exact ⟨some i, rfl⟩
      | some taken =>
          apply ih
          rcases room with fits | ⟨j, ahead, low, free⟩
          · exact Or.inl (by omega)
          · refine Or.inr ⟨j, ?_, low, free⟩
            have ne : i ≠ j := by
              rintro rfl
              rw [entry] at free
              cases free
            omega

theorem acquire_extends {thread : Nat} (acquired : t.acquire thread = .ok t') : t.Extends t' := by
  unfold acquire at acquired
  split at acquired
  · split at acquired <;> cases acquired
  · cases acquired
    exact ⟨rfl, fun _ _ taken => taken⟩

/-- **`Alloc` takes a free entry** and returns its number, or it returns -1. -/
theorem allocHeld_extends {result : Int} (allocated : t.allocHeld object = .ok (result, t')) :
    t.Extends t' ∧ (result = -1 ∨ t'.get result = .ok (some object)) := by
  obtain ⟨found, looked, rest⟩ := bind_eq_ok.mp allocated
  cases found with
  | none =>
      cases rest
      exact ⟨⟨rfl, fun _ _ taken => taken⟩, Or.inl rfl⟩
  | some i =>
      cases rest
      obtain ⟨-, inside, free⟩ := findFree_some looked
      refine ⟨⟨rfl, fun j taken entry => ?_⟩, Or.inr ?_⟩
      · have ne : j ≠ i := by
          rintro rfl
          rw [free] at entry
          cases entry
        exact (Function.update_of_ne ne _ _).trans entry
      · have range : (1 : Int) ≤ (i : Int) + 1 ∧ (i : Int) + 1 ≤ (t.maxElements : Int) := by omega
        have entry : ((i : Int) + 1 - 1).toNat = i := by omega
        simp only [get, if_pos range, entry, Function.update_self]
        rfl

/-- **An `Alloc` that returns -1 keeps the lock**: the next `Acquire` of its thread fails the
`ASSERT`. -/
theorem acquire_again {thread : Nat} {held : Table} (acquired : t.acquire thread = .ok held)
    (full : held.allocHeld object = .ok (-1, t')) : t'.acquire thread = .error .assertion := by
  obtain ⟨found, -, rest⟩ := bind_eq_ok.mp full
  cases found with
  | some i =>
      have number : (i : Int) + 1 = -1 := congrArg Prod.fst (Except.ok.inj rest)
      omega
  | none =>
      cases rest
      have keeps : t'.accessLock = some thread := by
        unfold acquire at acquired
        split at acquired
        · split at acquired <;> cases acquired
        · cases acquired
          rfl
      simp only [acquire, keeps, if_pos]
      rfl

theorem allocHeld_ok (room : t.HasRoom) (object : Nat) :
    ∃ result, t.allocHeld object = .ok result := by
  have enough : t.lastElement + t.maxElements ≤ t.maxElements ∨
      ∃ j, t.lastElement ≤ j ∧ j < t.maxElements ∧ t.backing j = none := by
    rcases room with first | ahead
    · exact Or.inl (by omega)
    · exact Or.inr ahead
  obtain ⟨found, looked⟩ := findFree_ok enough
  rw [allocHeld, allocPointer, looked, ok_bind]
  cases found with
  | none => exact ⟨_, rfl⟩
  | some i => exact ⟨_, rfl⟩

theorem get_eq_ok {index : Int} {entry : Option Nat} (got : t.get index = .ok entry) :
    1 ≤ index ∧ index ≤ t.maxElements ∧ t.backing (index - 1).toNat = entry := by
  unfold get at got
  split at got
  · rename_i range
    cases got
    exact ⟨range.1, range.2, rfl⟩
  · cases got

theorem Extends.get {index : Int} (grows : t.Extends t') (got : t.get index = .ok (some object)) :
    t'.get index = .ok (some object) := by
  obtain ⟨low, high, entry⟩ := get_eq_ok got
  have range : 1 ≤ index ∧ index ≤ t'.maxElements := ⟨low, by rw [grows.1]; exact high⟩
  rw [Table.get, if_pos range, grows.2 _ _ entry]
  rfl

end Entries

end Table

end Nachos.Threads
