/-
# Nachos.UserProg.BitSet -- a bitmap is a finite set of indices

`class BitMap` of `userprog/bitmap.cc` under any sequence of `Mark`, `Clear`, `Test`, `Find` and
`NumClear`.  `Call.onSet` is what a call does to a finite set, with the free indices those below
`numBits` that are not in it: `Find` puts the least of them in.  `bitmap_is_set` runs both from
the constructor on and finds the same answers, whatever the words of the array held before.

What the callers of `Find` rely on is `BitMap.Holds.finds`: with `k` free indices the next `k`
calls return the least of them in order, so that `FileHeader::Allocate`, which has asked
`NumClear`, need not look at what `Find` returns.
-/
import Nachos.FileSys.FreeMap
import Mathlib.Data.Finset.Sort

namespace Nachos.UserProg

open Nachos.Lib.Bytes (Word)
open Nachos.Disk (numClearBelow_spec)

set_option autoImplicit false

namespace BitMap

/-- The calls; a bit that is named is in range. -/
inductive Call (n : Nat) where
  | mark (which : Fin n)
  | clear (which : Fin n)
  | test (which : Fin n)
  | find
  | numClear
  deriving DecidableEq, Repr

inductive Response where
  | done
  | bit (isSet : Bool)
  | index (i : Int)
  | count (k : Nat)
  deriving DecidableEq, Repr

section Calls

variable {n : Nat}

def call (b : BitMap) : Call n → Except Stop (Response × BitMap)
  | .mark which => do return (.done, ← b.mark which)
  | .clear which => do return (.done, ← b.clear which)
  | .test which => do return (.bit (← b.test which), b)
  | .find => do
      let (i, b) ← b.find
      return (.index i, b)
  | .numClear => do return (.count (← Disk.numClear b), b)

/-- The calls of a run, each with its answer. -/
def callAll (b : BitMap) : List (Call n) → Except Stop (List (Call n × Response) × BitMap)
  | [] => return ([], b)
  | c :: calls => do
      let (response, b) ← b.call c
      let (trace, b) ← b.callAll calls
      return ((c, response) :: trace, b)

/-! ## The set -/

/-- The indices that are free. -/
def free (n : Nat) (s : Finset Nat) : Finset Nat := Finset.range n \ s

/-- What a call does to the set, and its answer. -/
def Call.onSet (s : Finset Nat) : Call n → Response × Finset Nat
  | .mark which => (.done, insert which.val s)
  | .clear which => (.done, s.erase which)
  | .test which => (.bit (decide (which.val ∈ s)), s)
  | .find =>
      if some_ : (free n s).Nonempty then
        (.index ((free n s).min' some_), insert ((free n s).min' some_) s)
      else (.index (-1), s)
  | .numClear => (.count (free n s).card, s)

def onSetAll (s : Finset Nat) : List (Call n) → List (Call n × Response) × Finset Nat
  | [] => ([], s)
  | c :: calls =>
      let after := onSetAll (c.onSet s).2 calls
      ((c, (c.onSet s).1) :: after.1, after.2)

/-- The call sets bit `j`, as its answer tells. -/
def Call.Sets : Call n → Response → Nat → Prop
  | .mark which, _, j => j = which
  | .find, .index i, j => (j : Int) = i
  | _, _, _ => False

def Call.Clears : Call n → Nat → Prop
  | .clear which, j => j = which
  | _, _ => False

/-- Bit `j` has been marked or found, and not been cleared since. -/
def MarkedSince (trace : List (Call n × Response)) (j : Nat) : Prop :=
  ∃ earlier c response later, trace = earlier ++ (c, response) :: later ∧ c.Sets response j ∧
    ∀ after ∈ later, ¬ after.1.Clears j

/-- The bits below `n` are the set. -/
structure Holds (b : BitMap) (n : Nat) (s : Finset Nat) : Prop where
  numBits : b.numBits = n
  bits : ∀ i < n, b.isSet i = decide (i ∈ s)

variable {b b' : BitMap} {s : Finset Nat} {k : Nat}

theorem mem_free {i : Nat} : i ∈ free n s ↔ i < n ∧ i ∉ s := by
  rw [free, Finset.mem_sdiff, Finset.mem_range]

/-- Putting a free index in takes it from the free ones. -/
theorem free_insert (i : Nat) : free n (insert i s) = (free n s).erase i := by
  ext j
  rw [Finset.mem_erase, mem_free, mem_free, Finset.mem_insert, not_or]
  exact ⟨fun both => ⟨both.2.1, both.1, both.2.2⟩, fun both => ⟨both.2.1, both.1, both.2.2⟩⟩

theorem mem_onSet {c : Call n} {j : Nat} :
    j ∈ (c.onSet s).2 ↔ c.Sets (c.onSet s).1 j ∨ j ∈ s ∧ ¬ c.Clears j := by
  cases c with
  | mark which => simp [Call.onSet, Call.Sets, Call.Clears]
  | clear which => simp [Call.onSet, Call.Sets, Call.Clears, and_comm]
  | test which => simp [Call.onSet, Call.Sets, Call.Clears]
  | numClear => simp [Call.onSet, Call.Sets, Call.Clears]
  | find =>
      by_cases some_ : (free n s).Nonempty
      · simp only [Call.onSet, Call.Sets, Call.Clears, dif_pos some_, Int.ofNat_inj,
          not_false_eq_true, and_true, Finset.mem_insert]
      · have absent : (j : Int) ≠ -1 := by omega
        simp [Call.onSet, Call.Sets, Call.Clears, some_, absent]

theorem not_markedSince_nil {j : Nat} : ¬ MarkedSince ([] : List (Call n × Response)) j := by
  rintro ⟨earlier, c, response, later, trace, -⟩
  cases earlier <;> cases trace

theorem markedSince_cons {c : Call n} {response : Response} {trace : List (Call n × Response)}
    {j : Nat} :
    MarkedSince ((c, response) :: trace) j ↔
      MarkedSince trace j ∨ c.Sets response j ∧ ∀ after ∈ trace, ¬ after.1.Clears j := by
  constructor
  · rintro ⟨earlier, c', response', later, split, sets, kept⟩
    cases earlier with
    | nil =>
        cases split
        exact .inr ⟨sets, kept⟩
    | cons _ earlier =>
        exact .inl ⟨earlier, c', response', later, (List.cons.inj split).2, sets, kept⟩
  · rintro (⟨earlier, c', response', later, rfl, sets, kept⟩ | ⟨sets, kept⟩)
    · exact ⟨_ :: earlier, c', response', later, rfl, sets, kept⟩
    · exact ⟨[], c, response, trace, rfl, sets, kept⟩

/-- The set after a run: what was put in and not taken out since. -/
theorem mem_onSetAll {calls : List (Call n)} {j : Nat} :
    j ∈ (onSetAll s calls).2 ↔
      MarkedSince (onSetAll s calls).1 j ∨
        j ∈ s ∧ ∀ after ∈ (onSetAll s calls).1, ¬ after.1.Clears j := by
  induction calls generalizing s with
  | nil => simp [onSetAll, not_markedSince_nil]
  | cons c calls ih =>
      simp only [onSetAll]
      rw [ih, mem_onSet, markedSince_cons, List.forall_mem_cons, or_and_right, or_assoc, and_assoc]

theorem sort_eq_cons {t : Finset Nat} (some_ : t.Nonempty) :
    t.sort = t.min' some_ :: (t.erase (t.min' some_)).sort := by
  have least : ∀ i ∈ t.erase (t.min' some_), t.min' some_ ≤ i := fun i there =>
    t.min'_le i (Finset.mem_of_mem_erase there)
  have sorted := Finset.sort_insert (· ≤ ·) least (Finset.notMem_erase _ _)
  rwa [Finset.insert_erase (t.min'_mem some_)] at sorted

/-! ## The map -/

theorem holds_create (n : Nat) (garbage : Nat → Word) :
    ∃ b, create n garbage = .ok b ∧ Holds b n ∅ := by
  obtain ⟨b, made, bits, clear⟩ := create_spec n garbage
  refine ⟨b, made, bits, fun i inside => ?_⟩
  rw [clear i inside]
  rfl

namespace Holds

theorem test (holds : Holds b n s) (which : Fin n) :
    b.test which = .ok (decide (which.val ∈ s)) := by
  rw [test_natCast (holds.numBits ▸ which.isLt), holds.bits which which.isLt]

theorem mark (holds : Holds b n s) {i : Nat} (inside : i < n) :
    ∃ b', b.mark i = .ok b' ∧ Holds b' n (insert i s) ∧ ∀ j, j ≠ i → b'.isSet j = b.isSet j := by
  obtain ⟨b', marked, bits, sets⟩ := mark_natCast (holds.numBits ▸ inside)
  refine ⟨b', marked, ⟨bits.trans holds.numBits, fun j below => ?_⟩, fun j other => ?_⟩
  · rw [sets, holds.bits j below, Bool.eq_iff_iff]
    simp
  · rw [sets, decide_eq_false other, Bool.false_or]

theorem clear (holds : Holds b n s) {i : Nat} (inside : i < n) :
    ∃ b', b.clear i = .ok b' ∧ Holds b' n (s.erase i) ∧ ∀ j, j ≠ i → b'.isSet j = b.isSet j := by
  obtain ⟨b', cleared, bits, sets⟩ := clear_natCast (holds.numBits ▸ inside)
  refine ⟨b', cleared, ⟨bits.trans holds.numBits, fun j below => ?_⟩, fun j other => ?_⟩
  · rw [sets, holds.bits j below, Bool.eq_iff_iff]
    simp
  · rw [sets, decide_eq_false other, Bool.not_false, Bool.true_and]

theorem isSet_iff (holds : Holds b n s) {i : Nat} (inside : i < n) : b.isSet i = true ↔ i ∈ s := by
  rw [holds.bits i inside, decide_eq_true_iff]

/-- `Find` with every index taken. -/
theorem find_none (holds : Holds b n s) (full : free n s = ∅) : b.find = .ok (-1, b) := by
  have bits := holds.numBits
  refine findFrom_none (by omega) fun j _ high => ?_
  have inside : j < n := by omega
  rw [holds.isSet_iff inside]
  by_contra absent
  have isFree := mem_free.mpr ⟨inside, absent⟩
  rw [full] at isFree
  exact absurd isFree (Finset.notMem_empty j)

/-- `Find` takes the least free index. -/
theorem find_some (holds : Holds b n s) (some_ : (free n s).Nonempty) :
    ∃ b', b.find = .ok (((free n s).min' some_ : Nat), b') ∧
      Holds b' n (insert ((free n s).min' some_) s) ∧
      ∀ j, j ≠ (free n s).min' some_ → b'.isSet j = b.isSet j := by
  have bits := holds.numBits
  obtain ⟨inside, absent⟩ := mem_free.mp ((free n s).min'_mem some_)
  obtain ⟨b', marked, holds', apart⟩ := holds.mark inside
  refine ⟨b', ?_, holds', apart⟩
  rw [find, findFrom_some (k := (free n s).min' some_) (by omega) (Nat.zero_le _) (by omega) ?_ ?_,
    marked]
  · rfl
  · rw [holds.bits _ inside, decide_eq_false absent]
  · intro j _ below
    rw [holds.isSet_iff (by omega)]
    by_contra absent'
    have least := (free n s).min'_le j (mem_free.mpr ⟨by omega, absent'⟩)
    omega

theorem numClear (holds : Holds b n s) : Disk.numClear b = .ok (free n s).card := by
  rw [Disk.numClear, numClearBelow_spec (Nat.le_refl _), holds.numBits,
    List.countP_eq_length_filter]
  have same : (List.range n).filter (fun j => !b.isSet j) = (List.range n).filter (· ∉ s) := by
    refine List.filter_congr fun j below => ?_
    rw [holds.bits j (List.mem_range.mp below)]
    simp
  have distinct : ((List.range n).filter (· ∉ s)).Nodup := List.nodup_range.filter _
  rw [same, ← List.toFinset_card_of_nodup distinct]
  congr 2
  ext j
  rw [List.mem_toFinset, List.mem_filter, List.mem_range, mem_free, decide_eq_true_iff]

/-- **One call** does to the map what it does to the set, and to no other bit anything. -/
theorem call (holds : Holds b n s) (c : Call n) :
    ∃ b', b.call c = .ok ((c.onSet s).1, b') ∧ Holds b' n (c.onSet s).2 ∧
      ∀ j, ¬ c.Sets (c.onSet s).1 j → ¬ c.Clears j → b'.isSet j = b.isSet j := by
  cases c with
  | mark which =>
      obtain ⟨b', marked, holds', apart⟩ := holds.mark which.isLt
      exact ⟨b', bind_of_ok marked, holds', fun j other _ => apart j other⟩
  | clear which =>
      obtain ⟨b', cleared, holds', apart⟩ := holds.clear which.isLt
      exact ⟨b', bind_of_ok cleared, holds', fun j _ other => apart j other⟩
  | test which => exact ⟨b, bind_of_ok (holds.test which), holds, fun _ _ _ => rfl⟩
  | numClear => exact ⟨b, bind_of_ok holds.numClear, holds, fun _ _ _ => rfl⟩
  | find =>
      by_cases some_ : (free n s).Nonempty
      · obtain ⟨b', found, holds', apart⟩ := holds.find_some some_
        simp only [Call.onSet, dif_pos some_]
        exact ⟨b', bind_of_ok found, holds', fun j other _ => apart j fun same =>
          other (congrArg Nat.cast same)⟩
      · have full := Finset.not_nonempty_iff_eq_empty.mp some_
        simp only [Call.onSet, dif_neg some_]
        exact ⟨b, bind_of_ok (holds.find_none full), holds, fun _ _ _ => rfl⟩

theorem callAll_cons {b₁ b₂ : BitMap} {c : Call n} {calls : List (Call n)} {response : Response}
    {trace : List (Call n × Response)} (called : b.call c = .ok (response, b₁))
    (rest : b₁.callAll calls = .ok (trace, b₂)) :
    b.callAll (c :: calls) = .ok ((c, response) :: trace, b₂) := by
  rw [BitMap.callAll, bind_of_ok called]
  exact bind_of_ok rest

/-- **A run of calls** answers as the set does. -/
theorem callAll (holds : Holds b n s) (calls : List (Call n)) :
    ∃ b', b.callAll calls = .ok ((onSetAll s calls).1, b') ∧ Holds b' n (onSetAll s calls).2 := by
  induction calls generalizing b s with
  | nil => exact ⟨b, rfl, holds⟩
  | cons c calls ih =>
      obtain ⟨b₁, called, holds₁, -⟩ := holds.call c
      obtain ⟨b₂, rest, holds₂⟩ := ih holds₁
      exact ⟨b₂, callAll_cons called rest, holds₂⟩

/-- As many calls of `Find` as there are free indices, or fewer, return the least ones in order. -/
theorem finds (holds : Holds b n s) {k : Nat} (enough : k ≤ (free n s).card) :
    ∃ b', b.callAll (List.replicate k (.find : Call n)) =
      .ok (((free n s).sort.take k).map fun i : Nat => (.find, .index i), b') := by
  induction k generalizing b s with
  | zero => exact ⟨b, rfl⟩
  | succ k ih =>
      have some_ : (free n s).Nonempty := Finset.card_pos.mp (by omega)
      obtain ⟨b₁, found, holds₁, -⟩ := holds.find_some some_
      have rest : k ≤ (free n (insert ((free n s).min' some_) s)).card := by
        rw [free_insert, Finset.card_erase_of_mem (Finset.min'_mem _ some_)]
        omega
      obtain ⟨b₂, found₂⟩ := ih holds₁ rest
      rw [free_insert] at found₂
      refine ⟨b₂, ?_⟩
      rw [List.replicate_succ, sort_eq_cons some_, List.take_succ_cons, List.map_cons]
      exact callAll_cons (bind_of_ok found) found₂

end Holds

/-- The bitmap is the set `s` of indices below `n`, to whatever is called next. -/
structure IsFiniteSet (b : BitMap) (n : Nat) (s : Finset Nat) : Prop where
  below : ∀ i ∈ s, i < n
  test : ∀ which : Fin n, b.test which = .ok (decide (which.val ∈ s))
  /-- A call changes no bit that it does not set or clear, also none past `numBits`. -/
  apart : ∀ c : Call n, ∃ response b', b.call c = .ok (response, b') ∧
    ∀ j, ¬ c.Sets response j → ¬ c.Clears j → b'.isSet j = b.isSet j
  find_none : free n s = ∅ → b.find = .ok (-1, b)
  find_some : ∀ some_ : (free n s).Nonempty, ∃ b',
    b.find = .ok (((free n s).min' some_ : Nat), b') ∧
    b'.test ((free n s).min' some_) = .ok true
  numClear : Disk.numClear b = .ok (free n s).card
  finds : ∀ k count : Nat, Disk.numClear b = .ok count → k ≤ count →
    ∃ (found : List Nat) (b' : BitMap),
      b.callAll (List.replicate k (.find : Call n)) =
        .ok (found.map fun i : Nat => (.find, .index i), b') ∧
      found.length = k ∧ found.Nodup ∧ ∀ i ∈ found, i ∈ free n s

theorem Holds.isFiniteSet (holds : Holds b n s) (below : ∀ i ∈ s, i < n) : IsFiniteSet b n s where
  below := below
  test := holds.test
  apart c := by
    obtain ⟨b', called, -, apart⟩ := holds.call c
    exact ⟨_, b', called, apart⟩
  find_none := holds.find_none
  find_some some_ := by
    obtain ⟨b', found, holds', -⟩ := holds.find_some some_
    have inside := (mem_free.mp ((free n s).min'_mem some_)).1
    refine ⟨b', found, (holds'.test ⟨_, inside⟩).trans ?_⟩
    simp
  numClear := holds.numClear
  finds k count counted enough := by
    obtain rfl := Except.ok.inj (holds.numClear.symm.trans counted)
    obtain ⟨b', ran⟩ := holds.finds enough
    refine ⟨_, b', ran, ?_, ((free n s).sort_nodup _).sublist (List.take_sublist _ _),
      fun i there => ?_⟩
    · rw [List.length_take, Finset.length_sort, Nat.min_eq_left enough]
    · exact (Finset.mem_sort _).mp (List.mem_of_mem_take there)

theorem onSet_below {c : Call n} (below : ∀ i ∈ s, i < n) : ∀ i ∈ (c.onSet s).2, i < n := by
  intro i there
  obtain sets | ⟨there, -⟩ := mem_onSet.mp there
  · cases c with
    | mark which => exact sets ▸ which.isLt
    | find =>
        by_cases some_ : (free n s).Nonempty
        · simp only [Call.onSet, dif_pos some_, Call.Sets, Int.ofNat_inj] at sets
          exact sets ▸ (mem_free.mp ((free n s).min'_mem some_)).1
        · simp only [Call.onSet, dif_neg some_, Call.Sets] at sets
          omega
    | clear which => exact sets.elim
    | test which => exact sets.elim
    | numClear => exact sets.elim
  · exact below i there

theorem onSetAll_below {calls : List (Call n)} (below : ∀ i ∈ s, i < n) :
    ∀ i ∈ (onSetAll s calls).2, i < n := by
  induction calls generalizing s with
  | nil => exact below
  | cons c calls ih => exact ih (onSet_below below)

end Calls

/-- **A bitmap is a finite set of indices.**  After any calls from the constructor on, whatever
the words held, it is the set of the indices marked or found and not cleared since, and every
call has been answered as that set answers it. -/
theorem bitmap_is_set (n : Nat) (garbage : Nat → Word) :
    ∃ b₀, create n garbage = .ok b₀ ∧ ∀ calls : List (Call n), ∃ trace b s,
      b₀.callAll calls = .ok (trace, b) ∧ (trace, s) = onSetAll ∅ calls ∧
      (∀ i, i ∈ s ↔ MarkedSince trace i) ∧ IsFiniteSet b n s := by
  obtain ⟨b₀, made, holds₀⟩ := holds_create n garbage
  refine ⟨b₀, made, fun calls => ?_⟩
  obtain ⟨b, ran, holds⟩ := holds₀.callAll calls
  refine ⟨_, b, _, ran, rfl, fun i => ?_, holds.isFiniteSet (onSetAll_below fun i absent => ?_)⟩
  · rw [mem_onSetAll, or_iff_left (fun both => absurd both.1 (Finset.notMem_empty i))]
  · exact absurd absent (Finset.notMem_empty i)

end BitMap

end Nachos.UserProg
