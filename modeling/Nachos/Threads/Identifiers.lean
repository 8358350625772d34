/-
# Nachos.Threads.Identifiers -- the identifiers that a `Table` hands out

One thread calls `Alloc`, `Get` and `Release`.  What has been allocated is written down beside the
table, from the results of the calls alone (`record`), and `Right` says what each result should be.

The search of `Alloc` starts after the entry that it found last and does not come back, so that an
entry is never used twice, and `new` does not clear the array that it searches.  (An array of
pointers has fewer than 2^30 entries, so that `max_elements + last_element` is an `int`.)  Every
`Alloc` uses up one of the entries that happened to be `NULL` at the start (`ahead`); the first
one that finds none of them left reads on after the end of the array, or returns -1 from a table
that is empty.

* `findFree_cases`: what the search finds, and how many free entries are ahead of it afterwards.
* `identifiers_exact`: the calls go as they should exactly when there are enough of these entries.
-/
import Nachos.Threads.Table
import Mathlib.Data.List.Perm.Subperm
import Mathlib.Data.List.Range

namespace Nachos.Threads.Table

set_option autoImplicit false

/-- `Table::Table`: the array is as `new` returns it. -/
def create (size : Nat) (garbage : Nat → Option Nat) : Table := ⟨garbage, size, 0, none⟩

/-- `Alloc`, by the one thread that uses the table. -/
def alloc (t : Table) (object : Option Nat) : Except Stop (Int × Table) := do
  let t ← t.acquire 0
  t.allocPointer object

/-- `Release`. -/
def release (t : Table) (index : Int) : Except Stop Table := do
  let t ← t.acquire 0
  if 1 ≤ index ∧ index ≤ t.maxElements then
    return { t with
      backing := Function.update t.backing (index - 1).toNat none
      accessLock := none }
  else throw .outOfBounds

inductive Call where
  | alloc (object : Option Nat)
  | release (id : Int)
  | get (id : Int)
  deriving DecidableEq, Repr

inductive Result where
  | allocated (id : Int)
  | released
  | got (object : Option Nat)
  deriving DecidableEq, Repr

def call (t : Table) : Call → Except Stop (Result × Table)
  | .alloc object => do
      let (id, t) ← t.alloc object
      return (.allocated id, t)
  | .release id => do
      let t ← t.release id
      return (.released, t)
  | .get id => do
      let object ← t.get id
      return (.got object, t)

/-! ## What the calls should do -/

/-- The identifiers that are allocated, with their objects. -/
abbrev Held := List (Int × Option Nat)

/-- What is allocated after a call. -/
def record (held : Held) : Call → Result → Held
  | .alloc object, .allocated id => if id = -1 then held else (id, object) :: held
  | .release id, _ => held.filter fun e => decide (e.1 ≠ id)
  | _, _ => held

/-- `Release` and `Get` are called with allocated identifiers. -/
def Allowed (held : Held) : Call → Prop
  | .alloc _ => True
  | .release id | .get id => id ∈ held.map Prod.fst

instance (held : Held) : (c : Call) → Decidable (Allowed held c)
  | .alloc _ => isTrue trivial
  | .release id | .get id => inferInstanceAs (Decidable (id ∈ held.map Prod.fst))

/-- What a table of `n` entries should return.  An identifier that is released is free for `Alloc`
again: its entry is `NULL`. -/
def Right (n : Nat) (held : Held) (after : Table) : Call → Result → Prop
  | .alloc _, .allocated id =>
      if held.length < n then 1 ≤ id ∧ id ≤ n ∧ id ∉ held.map Prod.fst else id = -1
  | .release id, .released => after.backing (id - 1).toNat = none
  | .get id, .got object => (id, object) ∈ held
  | _, _ => False

/-- Every call is one that a caller may make. -/
def Legal : Table → Held → List Call → Prop
  | _, _, [] => True
  | t, held, c :: calls => Allowed held c ∧
      match t.call c with
      | .ok (r, t') => Legal t' (record held c r) calls
      | .error _ => True

/-- Every call keeps inside of the array, and returns what it should. -/
def Follows (n : Nat) : Table → Held → List Call → Prop
  | _, _, [] => True
  | t, held, c :: calls =>
      match t.call c with
      | .ok (r, t') => Right n held t' c r ∧ Follows n t' (record held c r) calls
      | .error _ => False

/-! ## The search -/

/-- The entries from `i` on that are `NULL`. -/
def nulls (t : Table) (i : Nat) : Nat :=
  (List.range' i (t.maxElements - i)).countP fun k => (t.backing k).isNone

/-- Those that the next `Alloc` can still find. -/
def ahead (t : Table) : Nat := t.nulls t.lastElement

section Search

variable {t t' : Table} {i n : Nat}

theorem nulls_step (inside : i < t.maxElements) :
    t.nulls i = (t.backing i).isNone.toNat + t.nulls (i + 1) := by
  obtain ⟨m, length⟩ : ∃ m, t.maxElements - i = m + 1 := ⟨t.maxElements - i - 1, by omega⟩
  have rest : t.maxElements - (i + 1) = m := by omega
  rw [nulls, nulls, length, rest, List.range'_succ, List.countP_cons, Nat.add_comm]
  cases t.backing i <;> rfl

theorem nulls_end (outside : t.maxElements ≤ i) : t.nulls i = 0 := by
  rw [nulls, Nat.sub_eq_zero_of_le outside]
  rfl

theorem nulls_congr (size : t'.maxElements = t.maxElements)
    (same : ∀ k, i ≤ k → t'.backing k = t.backing k) :
    t'.nulls i = t.nulls i := by
  rw [nulls, nulls, size]
  refine List.countP_congr fun k member => ?_
  rw [same k (List.mem_range'_1.mp member).1]

/-- **What the search finds**: the first free entry, of those that are ahead; or it comes to the end
of the array, and if it started after the first entry it goes on behind it. -/
theorem findFree_cases (inside : i ≤ t.maxElements) (enough : t.maxElements - i ≤ n) :
    (t.nulls i = 0 ∧
        t.findFree n i = if i + n = t.maxElements then .ok none else .error .outOfBounds) ∨
      ∃ j, i ≤ j ∧ j < t.maxElements ∧ t.findFree n i = .ok (some j) ∧
        t.nulls i = t.nulls (j + 1) + 1 := by
  induction n generalizing i with
  | zero =>
      refine .inl ⟨nulls_end (by omega), ?_⟩
      rw [if_pos (by omega)]
      rfl
  | succ n ih =>
      by_cases last : i = t.maxElements
      · refine .inl ⟨nulls_end (by omega), ?_⟩
        rw [if_neg (by omega), findFree, if_pos (by omega)]
        rfl
      · have step := nulls_step (t := t) (i := i) (by omega)
        rw [findFree, if_neg (by omega)]
        cases entry : t.backing i with
        | none =>
            rw [entry] at step
            exact .inr ⟨i, Nat.le_refl i, by omega, rfl, by simpa [Nat.add_comm] using step⟩
        | some taken =>
            rw [entry] at step
            have step : t.nulls i = t.nulls (i + 1) := by simpa using step
            obtain ⟨none, stops⟩ | ⟨j, low, high, found, count⟩ :=
              ih (i := i + 1) (by omega) (by omega)
            · refine .inl ⟨by omega, ?_⟩
              rw [stops, Nat.add_assoc, Nat.add_comm 1 n]
            · exact .inr ⟨j, by omega, high, found, by omega⟩

end Search

/-! ## Calls -/

/-- The table has what is allocated, in the entries before `last_element`. -/
structure Tracks (t : Table) (held : Held) : Prop where
  free : t.accessLock = none
  inside : t.lastElement ≤ t.maxElements
  ids : ∀ e ∈ held, 1 ≤ e.1 ∧ e.1 ≤ t.lastElement
  stored : ∀ e ∈ held, t.backing (e.1 - 1).toNat = e.2
  distinct : (held.map Prod.fst).Nodup

section Calls

variable {t : Table} {held : Held} {id : Int} {object : Option Nat}

theorem Tracks.length_le (tracks : Tracks t held) : held.length ≤ t.lastElement := by
  have covered : held.map Prod.fst ⊆ (List.range' 1 t.lastElement).map fun k : Nat =>
      (k : Int) := by
    intro id member
    obtain ⟨e, there, rfl⟩ := List.mem_map.mp member
    obtain ⟨low, high⟩ := tracks.ids e there
    exact List.mem_map.mpr ⟨e.1.toNat, List.mem_range'_1.mpr ⟨by omega, by omega⟩, by omega⟩
  have fewer := (List.Nodup.subperm tracks.distinct covered).length_le
  simpa using fewer

theorem Tracks.acquire (tracks : Tracks t held) :
    t.acquire 0 = .ok { t with accessLock := some 0 } := by
  rw [Table.acquire, tracks.free]
  rfl

/-- `Alloc` takes the next entry that is ahead. -/
theorem Tracks.alloc (tracks : Tracks t held) (object : Option Nat) (some : 0 < t.ahead) :
    ∃ (j : Nat) (t' : Table), t.alloc object = .ok ((j : Int) + 1, t') ∧ t.lastElement ≤ j ∧
      j < t.maxElements ∧
      Tracks t' (((j : Int) + 1, object) :: held) ∧ t'.maxElements = t.maxElements ∧
      t.ahead = t'.ahead + 1 := by
  obtain ⟨none, -⟩ | ⟨j, low, high, found, count⟩ :=
    findFree_cases (t := { t with accessLock := Option.some 0 })
    (i := t.lastElement) (n := t.maxElements) tracks.inside (Nat.sub_le ..)
  · have same : t.ahead = 0 := none
    omega
  · refine ⟨j, ⟨Function.update t.backing j object, t.maxElements, j + 1, Option.none⟩,
      ?_, low, high, ⟨rfl, high, ?_, ?_, ?_⟩, rfl, ?_⟩
    · rw [Table.alloc, tracks.acquire, ok_bind, allocPointer, found]
      rfl
    · intro e member
      obtain rfl | member := List.mem_cons.mp member
      · simp only
        omega
      · have range := tracks.ids e member
        simp only
        omega
    · intro e member
      obtain rfl | member := List.mem_cons.mp member
      · have place : ((j : Int) + 1 - 1).toNat = j := by omega
        simp only [place, Function.update_self]
      · have range := tracks.ids e member
        rw [← tracks.stored e member]
        exact Function.update_of_ne (by omega) ..
    · refine List.nodup_cons.mpr ⟨fun member => ?_, tracks.distinct⟩
      obtain ⟨e, there, same⟩ := List.mem_map.mp member
      have range := tracks.ids e there
      omega
    · refine count.trans (congrArg (· + 1) (nulls_congr rfl fun k after => ?_))
      exact (Function.update_of_ne (by omega) ..).symm

/-- `Alloc` with nothing ahead reads behind the array, or finds a table full that is empty. -/
theorem Tracks.alloc_fails (tracks : Tracks t held) (object : Option Nat) (none : t.ahead = 0) :
    (∃ e, t.alloc object = .error e) ∨ t.lastElement = 0 ∧ ∃ t', t.alloc object = .ok (-1, t') := by
  obtain ⟨-, stops⟩ | ⟨j, -, -, -, count⟩ := findFree_cases (t := { t with accessLock := some 0 })
    (i := t.lastElement) (n := t.maxElements) tracks.inside (Nat.sub_le ..)
  · have searched : t.alloc object = Table.allocPointer { t with accessLock := some 0 } object := by
      rw [Table.alloc, tracks.acquire, ok_bind]
    rw [searched, allocPointer, stops]
    split
    · exact .inr ⟨by simp only at *; omega, _, rfl⟩
    · exact .inl ⟨_, rfl⟩
  · have same : t.ahead = Table.nulls { t with accessLock := some 0 } t.lastElement := rfl
    omega

theorem Tracks.release (tracks : Tracks t held) (allocated : id ∈ held.map Prod.fst) :
    ∃ t', t.release id = .ok t' ∧ t'.backing (id - 1).toNat = none ∧
      Tracks t' (held.filter fun e => decide (e.1 ≠ id)) ∧ t'.maxElements = t.maxElements ∧
      t'.ahead = t.ahead := by
  obtain ⟨e, member, rfl⟩ := List.mem_map.mp allocated
  have range := tracks.ids e member
  have inside := tracks.inside
  refine ⟨{ t with
      backing := Function.update t.backing (e.1 - 1).toNat none
      accessLock := none }, ?_,
    Function.update_self .., ⟨rfl, inside, fun f member => ?_, fun f member => ?_, ?_⟩, rfl, ?_⟩
  · rw [Table.release, tracks.acquire, ok_bind, if_pos (by simp only; omega)]
    rfl
  · exact tracks.ids f (List.mem_filter.mp member).1
  · obtain ⟨there, other⟩ := List.mem_filter.mp member
    have range' := tracks.ids f there
    have other : f.1 ≠ e.1 := of_decide_eq_true other
    rw [← tracks.stored f there]
    exact Function.update_of_ne (by omega) ..
  · exact tracks.distinct.sublist (List.filter_sublist.map _)
  · refine nulls_congr rfl fun k after => Function.update_of_ne ?_ ..
    simp only at after
    omega

theorem Tracks.get (tracks : Tracks t held) (allocated : id ∈ held.map Prod.fst) :
    ∃ object, t.get id = .ok object ∧ (id, object) ∈ held := by
  obtain ⟨⟨id, object⟩, member, rfl⟩ := List.mem_map.mp allocated
  have range := tracks.ids _ member
  have inside := tracks.inside
  have stored := tracks.stored _ member
  simp only at range stored ⊢
  refine ⟨object, ?_, member⟩
  rw [Table.get, if_pos (by omega), stored]
  rfl

def Call.isAlloc : Call → Bool
  | .alloc _ => true
  | _ => false

/-- **The calls go as they should while there are free entries ahead for every `Alloc`.** -/
theorem Tracks.follows_iff (tracks : Tracks t held) (some : 0 < t.maxElements) {calls : List Call}
    (legal : Legal t held calls) :
    Follows t.maxElements t held calls ↔ calls.countP Call.isAlloc ≤ t.ahead := by
  induction calls generalizing t held with
  | nil => simp [Follows]
  | cons c calls ih =>
      obtain ⟨allowed, later⟩ := legal
      rw [List.countP_cons]
      cases c with
      | alloc object =>
          rw [Call.isAlloc, if_pos rfl]
          by_cases left : 0 < t.ahead
          · obtain ⟨j, t', done, low, high, tracks', size, count⟩ := tracks.alloc object left
            have called : t.call (.alloc object) = .ok (.allocated ((j : Int) + 1), t') := by
              rw [call, done]
              rfl
            have next : record held (.alloc object) (.allocated ((j : Int) + 1)) =
                ((j : Int) + 1, object) :: held := by
              rw [record, if_neg (by omega)]
            have length := tracks.length_le
            have right : Right t.maxElements held t' (.alloc object)
                (.allocated ((j : Int) + 1)) := by
              rw [Right, if_pos (by omega)]
              refine ⟨by omega, by omega, fun member => ?_⟩
              obtain ⟨e, there, same⟩ := List.mem_map.mp member
              have range := tracks.ids e there
              omega
            simp only [called, next] at later
            have rest := ih tracks' (by omega) later
            simp only [Follows, called, next, right, true_and]
            rw [← size, rest]
            omega
          · refine ⟨fun follows => ?_, fun enough => by omega⟩
            obtain ⟨e, stops⟩ | ⟨first, t', failed⟩ := tracks.alloc_fails object (by omega)
            · have called : t.call (.alloc object) = .error e := by
                rw [call, stops]
                rfl
              simp only [Follows, called] at follows
            · have called : t.call (.alloc object) = .ok (.allocated (-1), t') := by
                rw [call, failed]
                rfl
              have length := tracks.length_le
              simp only [Follows, called, Right] at follows
              rw [if_pos (by omega)] at follows
              omega
      | release id =>
          obtain ⟨t', done, cleared, tracks', size, count⟩ := tracks.release allowed
          have called : t.call (.release id) = .ok (.released, t') := by
            rw [call, done]
            rfl
          have right : Right t.maxElements held t' (.release id) .released := cleared
          simp only [called] at later
          have rest := ih tracks' (by omega) later
          simp only [Follows, called, right, true_and, Call.isAlloc, Bool.false_eq_true, if_false]
          rw [← size, record, rest]
          omega
      | get id =>
          obtain ⟨object, done, member⟩ := tracks.get allowed
          have called : t.call (.get id) = .ok (.got object, t) := by
            rw [call, done]
            rfl
          have right : Right t.maxElements held t (.get id) (.got object) := member
          have same : record held (.get id) (.got object) = held := rfl
          simp only [called, same] at later
          have rest := ih tracks some later
          simp only [Follows, called, right, true_and, same, Call.isAlloc,
            Bool.false_eq_true, if_false]
          rw [rest]
          omega

theorem create_tracks (n : Nat) (garbage : Nat → Option Nat) : Tracks (create n garbage) [] :=
  ⟨rfl, Nat.zero_le n, nofun, nofun, List.nodup_nil⟩

end Calls

/-- **A new table hands out its identifiers as it should exactly as long as no more `Alloc`s are
called than entries of the array happen to be `NULL`.** -/
theorem identifiers_exact {n : Nat} (some : 0 < n) (garbage : Nat → Option Nat) {calls : List Call}
    (legal : Legal (create n garbage) [] calls) :
    Follows n (create n garbage) [] calls ↔
      calls.countP Call.isAlloc ≤ (List.range n).countP fun i => (garbage i).isNone := by
  have follows := (create_tracks n garbage).follows_iff some legal
  rw [List.range_eq_range']
  exact follows

/-- Two entries are allocated, and one is released. -/
theorem identifiers_exact_two : Follows 2 (create 2 fun _ => none) []
    [.alloc (some 7), .get 1, .alloc (some 8), .release 1, .get 2] := by
  refine (identifiers_exact (by decide) (fun _ => none) ?_).mpr (by decide)
  exact ⟨trivial, by decide, trivial, by decide, by decide, trivial⟩

/-- The only entry is released and not found again; and an array that `new` returns with something
in it is full at once. -/
theorem identifiers_used_up :
    (Legal (create 1 fun _ => none) [] [.alloc (some 7), .release 1, .alloc (some 8)] ∧
      ¬ Follows 1 (create 1 fun _ => none) [] [.alloc (some 7), .release 1, .alloc (some 8)]) ∧
    Legal (create 1 fun _ => some 3) [] [.alloc (some 7)] ∧
      ¬ Follows 1 (create 1 fun _ => some 3) [] [.alloc (some 7)] := by
  have legal : Legal (create 1 fun _ => none) [] [.alloc (some 7), .release 1, .alloc (some 8)] :=
    ⟨trivial, by decide, trivial, trivial⟩
  have legal' : Legal (create 1 fun _ => some 3) [] [.alloc (some 7)] := ⟨trivial, trivial⟩
  refine ⟨⟨legal, fun follows => ?_⟩, legal', fun follows => ?_⟩
  · exact absurd (((create_tracks 1 _).follows_iff (by decide) legal).mp follows) (by decide)
  · exact absurd (((create_tracks 1 _).follows_iff (by decide) legal').mp follows) (by decide)

end Nachos.Threads.Table
