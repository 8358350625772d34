/-
# Nachos.Lib.Shelf -- named things in a row of places

A row of places, each free or with a name and a thing.  A thing has a size, the row has room for
so much, and a thing that is `put` on it takes the first free place; `put` refuses a name that
is there already, a full row and a thing that is too large for what room is left.

`find` looks at the places in turn.  `get_put` and `get_drop` say what is found under every
name after a change: the rules are those of a map, in whatever order the places are used.
-/
import Mathlib.Algebra.GroupWithZero.Nat
import Mathlib.Data.List.Range
import Mathlib.Logic.Function.Basic
import Mathlib.Tactic.Common

namespace Nachos.Lib.Shelf

set_option autoImplicit false

universe u v

/-- The number of places, the size of a thing, and the room for all of them. -/
structure Limits (V : Type v) where
  places : Nat
  size : V → Nat
  room : Nat

abbrev Row (K : Type u) (V : Type v) := Nat → Option (K × V)

namespace Row

section Definitions

variable {K : Type u} {V : Type v} [DecidableEq K]

/-- The first of `n` places with that name. -/
def find (n : Nat) (s : Row K V) (k : K) : Option Nat :=
  (List.range n).find? fun i => (s i).any fun e => e.1 = k

/-- The first of `n` places that is free. -/
def vacant (n : Nat) (s : Row K V) : Option Nat := (List.range n).find? fun i => (s i).isNone

/-- The thing with that name. -/
def get (n : Nat) (s : Row K V) (k : K) : Option V := (s.find n k).bind fun i => (s i).map Prod.snd

/-- The room that is taken. -/
def taken (limits : Limits V) (s : Row K V) : Nat :=
  ((List.range limits.places).map fun i => ((s i).map fun e => limits.size e.2).getD 0).sum

/-- A thing is put in the first free place, if its name is new and there is room for it. -/
def put (limits : Limits V) (s : Row K V) (k : K) (x : V) : Option (Row K V) :=
  match s.find limits.places k, s.vacant limits.places with
  | none, some i =>
      if s.taken limits + limits.size x ≤ limits.room then some (Function.update s i (some (k, x)))
      else none
  | _, _ => none

/-- The thing with that name is taken away. -/
def drop (n : Nat) (s : Row K V) (k : K) : Option (Row K V) :=
  (s.find n k).map fun i => Function.update s i none

end Definitions

section Rules

variable {K : Type u} {V : Type v} [DecidableEq K] {n i : Nat} {s s' : Row K V} {k : K} {x : V}
  {limits : Limits V}

theorem any_name_iff {e : Option (K × V)} : (e.any fun e => decide (e.1 = k)) = true ↔
    ∃ x, e = some (k, x) := by
  cases e with
  | none => simp
  | some e =>
      obtain ⟨k', x⟩ := e
      simp

theorem find_eq_some_iff : s.find n k = some i ↔
    i < n ∧ (∃ x, s i = some (k, x)) ∧ ∀ j < i, ∀ x, s j ≠ some (k, x) := by
  unfold find
  rw [List.find?_range_eq_some, any_name_iff, List.mem_range]
  have before : (∀ j, j < i → (!(s j).any fun e => decide (e.1 = k)) = true) ↔ ∀ j < i, ∀ x,
      s j ≠ some (k, x) := by
    refine forall_congr' fun j => imp_congr_right fun _ => ?_
    rw [Bool.not_eq_true', ← Bool.not_eq_true, any_name_iff, not_exists]
  rw [before]
  exact and_left_comm

theorem find_eq_none_iff : s.find n k = none ↔ ∀ i < n, ∀ x, s i ≠ some (k, x) := by
  unfold find
  rw [List.find?_range_eq_none]
  refine forall_congr' fun j => imp_congr_right fun _ => ?_
  rw [Bool.not_eq_true', ← Bool.not_eq_true, any_name_iff, not_exists]

omit [DecidableEq K] in
theorem vacant_eq_some_iff : s.vacant n = some i ↔ i < n ∧ s i = none ∧ ∀ j < i, s j ≠ none := by
  unfold vacant
  rw [List.find?_range_eq_some, Option.isNone_iff_eq_none, List.mem_range]
  have before : (∀ j, j < i → (!(s j).isNone) = true) ↔ ∀ j < i, s j ≠ none := by
    refine forall_congr' fun j => imp_congr_right fun _ => ?_
    rw [Bool.not_eq_true', ← Bool.not_eq_true, Option.isNone_iff_eq_none]
  rw [before]
  exact and_left_comm

omit [DecidableEq K] in
theorem vacant_eq_none_iff : s.vacant n = none ↔ ∀ i < n, s i ≠ none := by
  unfold vacant
  rw [List.find?_range_eq_none]
  refine forall_congr' fun j => imp_congr_right fun _ => ?_
  rw [Bool.not_eq_true', ← Bool.not_eq_true, Option.isNone_iff_eq_none]

/-- What `put` does when it does not refuse. -/
theorem put_eq_some_iff : s.put limits k x = some s' ↔ ∃ i, s.vacant limits.places = some i ∧
    s.find limits.places k = none ∧ s.taken limits + limits.size x ≤ limits.room ∧
      s' = Function.update s i (some (k, x)) := by
  unfold put
  split
  · rename_i i absent free
    rw [absent, free]
    split
    · rename_i fits
      simp [fits, eq_comm]
    · rename_i large
      simp [large]
  · rename_i refused
    simp only [reduceCtorEq, false_iff, not_exists, not_and]
    intro i free absent
    exact (refused i absent free).elim

/-- Why `put` refuses. -/
theorem put_eq_none_iff : s.put limits k x = none ↔ (∃ i, s.find limits.places k = some i) ∨
    s.vacant limits.places = none ∨ limits.room < s.taken limits + limits.size x := by
  unfold put
  split
  · rename_i i absent free
    simp [absent, free]
  · rename_i refused
    simp only [true_iff]
    cases found : s.find limits.places k with
    | some i => exact .inl ⟨i, rfl⟩
    | none =>
        cases free : s.vacant limits.places with
        | none => exact .inr (.inl rfl)
        | some i => exact (refused i found free).elim

theorem get_eq_none_iff : s.get n k = none ↔ s.find n k = none := by
  unfold get
  cases found : s.find n k with
  | none => simp
  | some i =>
      obtain ⟨-, ⟨x, here⟩, -⟩ := find_eq_some_iff.mp found
      simp [here]

theorem get_eq_some (found : s.find n k = some i) (here : s i = some (k, x)) :
    s.get n k = some x := by
  rw [get, found, Option.bind_some, here]
  rfl

/-- **What is found after a `put`.** -/
theorem get_put (done : s.put limits k x = some s') (k' : K) :
    s'.get limits.places k' = if k' = k then some x else s.get limits.places k' := by
  obtain ⟨i, free, absent, -, rfl⟩ := put_eq_some_iff.mp done
  obtain ⟨inside, empty, -⟩ := vacant_eq_some_iff.mp free
  have absent := find_eq_none_iff.mp absent
  split
  · rename_i same
    subst same
    refine get_eq_some
      (find_eq_some_iff.mpr ⟨inside, ⟨x, Function.update_self ..⟩, fun j below y => ?_⟩)
      (Function.update_self ..)
    rw [Function.update_of_ne (Nat.ne_of_lt below)]
    exact absent j (Nat.lt_trans below inside) y
  · rename_i differ
    have same : ∀ j y, Function.update s i (some (k, x)) j = some (k', y) ↔ s j = some (k', y) := by
      intro j y
      by_cases here : j = i
      · rw [here, Function.update_self, empty]
        simp only [Option.some.injEq, Prod.mk.injEq, reduceCtorEq, iff_false, not_and]
        exact fun named => absurd named.symm differ
      · rw [Function.update_of_ne here]
    have found : find limits.places (Function.update s i (some (k, x))) k' =
        s.find limits.places k' := by
      refine Option.ext fun j => ?_
      rw [find_eq_some_iff, find_eq_some_iff]
      simp only [same, ne_eq]
    unfold get
    rw [found]
    cases here : s.find limits.places k' with
    | none => rfl
    | some j =>
        obtain ⟨-, ⟨y, there⟩, -⟩ := find_eq_some_iff.mp here
        rw [Option.bind_some, Option.bind_some, (same j y).mpr there, there]

/-- No two places have one name. -/
def Distinct (n : Nat) (s : Row K V) : Prop :=
  ∀ i < n, ∀ j < n, ∀ k x y, s i = some (k, x) → s j = some (k, y) → i = j

theorem Distinct.put (distinct : Distinct limits.places s) (done : s.put limits k x = some s') :
    Distinct limits.places s' := by
  obtain ⟨i, free, absent, -, rfl⟩ := put_eq_some_iff.mp done
  have absent := find_eq_none_iff.mp absent
  intro a inside b inside' k' y z here there
  by_cases first : a = i <;> by_cases second : b = i
  · exact first.trans second.symm
  · rw [first, Function.update_self, Option.some.injEq, Prod.mk.injEq] at here
    rw [Function.update_of_ne second, ← here.1] at there
    exact absurd there (absent b inside' z)
  · rw [second, Function.update_self, Option.some.injEq, Prod.mk.injEq] at there
    rw [Function.update_of_ne first, ← there.1] at here
    exact absurd here (absent a inside y)
  · rw [Function.update_of_ne first] at here
    rw [Function.update_of_ne second] at there
    exact distinct a inside b inside' k' y z here there

theorem Distinct.drop (distinct : Distinct n s) (done : s.drop n k = some s') : Distinct n s' := by
  obtain ⟨i, -, rfl⟩ := Option.map_eq_some_iff.mp done
  intro a inside b inside' k' y z here there
  have first : a ≠ i := by
    rintro rfl
    rw [Function.update_self] at here
    cases here
  have second : b ≠ i := by
    rintro rfl
    rw [Function.update_self] at there
    cases there
  rw [Function.update_of_ne first] at here
  rw [Function.update_of_ne second] at there
  exact distinct a inside b inside' k' y z here there

/-- **What is found after a `drop`.** -/
theorem get_drop (distinct : Distinct n s) (done : s.drop n k = some s') (k' : K) :
    s'.get n k' = if k' = k then none else s.get n k' := by
  obtain ⟨i, found, rfl⟩ := Option.map_eq_some_iff.mp done
  obtain ⟨inside, ⟨x, here⟩, -⟩ := find_eq_some_iff.mp found
  split
  · rename_i same
    subst same
    refine get_eq_none_iff.mpr (find_eq_none_iff.mpr fun j inside' y there => ?_)
    have other : j ≠ i := by
      rintro rfl
      rw [Function.update_self] at there
      cases there
    rw [Function.update_of_ne other] at there
    exact other (distinct j inside' i inside k' y x there here)
  · rename_i differ
    have same : ∀ j y, Function.update s i none j = some (k', y) ↔ s j = some (k', y) := by
      intro j y
      by_cases mine : j = i
      · rw [mine, Function.update_self, here]
        simp only [reduceCtorEq, Option.some.injEq, Prod.mk.injEq, false_iff, not_and]
        exact fun named => absurd named.symm differ
      · rw [Function.update_of_ne mine]
    have found : find n (Function.update s i none) k' = s.find n k' := by
      refine Option.ext fun j => ?_
      rw [find_eq_some_iff, find_eq_some_iff]
      simp only [same, ne_eq]
    unfold get
    rw [found]
    cases here : s.find n k' with
    | none => rfl
    | some j =>
        obtain ⟨-, ⟨y, there⟩, -⟩ := find_eq_some_iff.mp here
        rw [Option.bind_some, Option.bind_some, (same j y).mpr there, there]

end Rules

end Row

end Nachos.Lib.Shelf
