/-
# Nachos.UserProg.BitMap -- `userprog/bitmap.cc` and `userprog/memmanage.cc`

`BitMap` is the array of 32-bit words of the source, with its word and bit index
arithmetic and its range `ASSERT`s; `MemoryManager` is the page allocator on top.
`BitMap.isSet` reads one bit; the specification lemmas say that `Mark` and `Clear`
change exactly one bit (`isSet_mark`, `isSet_clear`), and that the scan shared by
`BitMap::Find` and `MemoryManager::AllocPage` marks the least clear bit, or
returns -1 when none is clear (`findFrom_some`, `findFrom_none`).
-/
import Nachos.Outcome
import Nachos.Lib.Bytes
import Mathlib.Data.Nat.Find

namespace Nachos.UserProg

open Nachos.Lib.Bytes

set_option autoImplicit false

/-- `BitsInWord`. -/
def bitsInWord : Nat := 32

structure BitMap where
  numBits : Nat
  /-- The words of `map`, by word index. -/
  map : Nat → Word

namespace BitMap

/-- The range check every bit operation makes. -/
def inRange (b : BitMap) (which : Int) : Bool := decide (0 ≤ which ∧ which < b.numBits)

/-- `1 << (which % BitsInWord)`. -/
def bit (which : Nat) : Word := 1#32 <<< (which % bitsInWord)

/-- `BitMap::Mark`. -/
def mark (b : BitMap) (which : Int) : Except Stop BitMap := do
  ASSERT (b.inRange which)
  let w := which.toNat / bitsInWord
  return { b with map := Function.update b.map w (b.map w ||| bit which.toNat) }

/-- `BitMap::Clear`. -/
def clear (b : BitMap) (which : Int) : Except Stop BitMap := do
  ASSERT (b.inRange which)
  let w := which.toNat / bitsInWord
  return { b with map := Function.update b.map w (b.map w &&& ~~~ bit which.toNat) }

/-- `BitMap::Test`. -/
def test (b : BitMap) (which : Int) : Except Stop Bool := do
  ASSERT (b.inRange which)
  return b.map (which.toNat / bitsInWord) &&& bit which.toNat != 0#32

/-- The loop of `BitMap::Find` and of `MemoryManager::AllocPage`: mark and return
the first clear bit among the next `n` from `i`, or return -1. -/
def findFrom (b : BitMap) : Nat → Nat → Except Stop (Int × BitMap)
  | 0, _ => return (-1, b)
  | n + 1, i => do
      if ← b.test i then findFrom b n (i + 1)
      else return ((i : Int), ← b.mark i)

/-- `BitMap::Find`. -/
def find (b : BitMap) : Except Stop (Int × BitMap) := b.findFrom b.numBits 0

/-- The loop of the constructor, which clears the bits below `n`. -/
def clearBelow (b : BitMap) : Nat → Except Stop BitMap
  | 0 => return b
  | n + 1 => do (← clearBelow b n).clear n

/-- `BitMap::BitMap`; the words of `new unsigned int[numWords]` are arbitrary. -/
def create (nitems : Nat) (garbage : Nat → Word) : Except Stop BitMap :=
  clearBelow ⟨nitems, garbage⟩ nitems

/-- Bit `i`, as `Test` sees it. -/
def isSet (b : BitMap) (i : Nat) : Bool := (b.map (i / bitsInWord)).getLsbD (i % bitsInWord)

theorem mod_bitsInWord_lt (i : Nat) : i % bitsInWord < 32 := Nat.mod_lt _ (by decide)

theorem getLsbD_bit (i k : Nat) (h : k < 32) :
    (bit i).getLsbD k = decide (k = i % bitsInWord) := by
  have hi := mod_bitsInWord_lt i
  simp only [bit, BitVec.getLsbD_shiftLeft, h, decide_true, Bool.true_and, BitVec.getLsbD_one]
  by_cases eq : k = i % bitsInWord
  · subst eq; simp
  · rcases Nat.lt_or_gt_of_ne eq with lt | gt
    · simp [lt, eq]
    · have : ¬ k < i % bitsInWord := by omega
      have : ¬ k - i % bitsInWord = 0 := by omega
      simp_all

theorem and_bit_ne_zero (w : Word) (i : Nat) :
    (w &&& bit i != 0#32) = w.getLsbD (i % bitsInWord) := by
  have hi := mod_bitsInWord_lt i
  cases hb : w.getLsbD (i % bitsInWord) with
  | true =>
      rw [bne_iff_ne]
      intro zero
      have := congrArg (fun v => BitVec.getLsbD v (i % bitsInWord)) zero
      simp [getLsbD_bit i _ hi, hb] at this
  | false =>
      rw [bne_eq_false_iff_eq]
      apply BitVec.eq_of_getLsbD_eq
      intro k hk
      rw [BitVec.getLsbD_and, getLsbD_bit i k hk, BitVec.getLsbD_zero]
      by_cases eq : k = i % bitsInWord
      · rw [eq, hb, Bool.false_and]
      · simp [eq]

theorem inRange_natCast {b : BitMap} {i : Nat} : b.inRange i = true ↔ i < b.numBits := by
  simp [inRange]

theorem test_natCast {b : BitMap} {i : Nat} (bound : i < b.numBits) :
    b.test i = .ok (b.isSet i) := by
  rw [test, inRange_natCast.mpr bound]
  simp [and_bit_ne_zero, isSet]

/-- The bit index determines the word index and the index in the word. -/
theorem index_eq {i j : Nat} (word : j / bitsInWord = i / bitsInWord)
    (bit : j % bitsInWord = i % bitsInWord) : j = i := by
  rw [← Nat.div_add_mod j bitsInWord, ← Nat.div_add_mod i bitsInWord, word, bit]

/-- A word in which one bit is `v` and the others are as they were. -/
theorem isSet_update (b : BitMap) (i j : Nat) {w : Word} {v : Bool}
    (bits : ∀ k < 32, w.getLsbD k =
      if k = i % bitsInWord then v else (b.map (i / bitsInWord)).getLsbD k) :
    isSet { b with map := Function.update b.map (i / bitsInWord) w } j =
      if j = i then v else b.isSet j := by
  unfold isSet
  by_cases word : j / bitsInWord = i / bitsInWord
  · simp only [word, Function.update_self, bits _ (mod_bitsInWord_lt j)]
    by_cases same : j % bitsInWord = i % bitsInWord
    · rw [if_pos same, if_pos (index_eq word same)]
    · rw [if_neg same, if_neg fun e => same (by rw [e])]
  · rw [if_neg fun e => word (by rw [e])]
    simp only [Function.update_of_ne word]

/-- `Mark` of an in-range bit succeeds and sets exactly that bit. -/
theorem mark_natCast {b : BitMap} {i : Nat} (bound : i < b.numBits) :
    ∃ b', b.mark i = .ok b' ∧ b'.numBits = b.numBits ∧
      ∀ j, b'.isSet j = (decide (j = i) || b.isSet j) := by
  rw [mark, inRange_natCast.mpr bound]
  refine ⟨_, rfl, rfl, fun j => (isSet_update b i j (v := true) fun k inside => ?_).trans ?_⟩
  · rw [Int.toNat_natCast, BitVec.getLsbD_or, getLsbD_bit i k inside]
    by_cases this : k = i % bitsInWord <;> simp [this]
  · by_cases same : j = i <;> simp [same]

/-- `Clear` of an in-range bit succeeds and clears exactly that bit. -/
theorem clear_natCast {b : BitMap} {i : Nat} (bound : i < b.numBits) :
    ∃ b', b.clear i = .ok b' ∧ b'.numBits = b.numBits ∧
      ∀ j, b'.isSet j = (!decide (j = i) && b.isSet j) := by
  rw [clear, inRange_natCast.mpr bound]
  refine ⟨_, rfl, rfl, fun j => (isSet_update b i j (v := false) fun k inside => ?_).trans ?_⟩
  · rw [Int.toNat_natCast, BitVec.getLsbD_and, BitVec.getLsbD_not, getLsbD_bit i k inside]
    by_cases this : k = i % bitsInWord <;> simp [this, inside]
  · by_cases same : j = i <;> simp [same]

theorem findFrom_succ {b : BitMap} {n i : Nat} (bound : i < b.numBits) :
    b.findFrom (n + 1) i =
      if b.isSet i then b.findFrom n (i + 1) else (b.mark i).map fun b' => ((i : Int), b') := by
  rw [findFrom, test_natCast bound, ok_bind]
  cases b.isSet i with
  | true => rfl
  | false => cases b.mark i <;> rfl

/-- With every bit of the range set, the scan returns -1 and changes nothing. -/
theorem findFrom_none {b : BitMap} {n i : Nat} (bound : i + n ≤ b.numBits)
    (full : ∀ j, i ≤ j → j < i + n → b.isSet j = true) : b.findFrom n i = .ok (-1, b) := by
  induction n generalizing i with
  | zero => rfl
  | succ n ih =>
      rw [findFrom_succ (by omega), full i (le_refl i) (by omega), if_pos rfl]
      exact ih (by omega) fun j low high => full j (by omega) (by omega)

/-- With a clear bit in the range, the scan marks and returns the least one. -/
theorem findFrom_some {b : BitMap} {n i k : Nat} (bound : i + n ≤ b.numBits)
    (low : i ≤ k) (high : k < i + n) (isClear : b.isSet k = false)
    (least : ∀ j, i ≤ j → j < k → b.isSet j = true) :
    b.findFrom n i = (b.mark k).map fun b' => ((k : Int), b') := by
  induction n generalizing i with
  | zero => omega
  | succ n ih =>
      rw [findFrom_succ (by omega)]
      by_cases here : i = k
      · subst here; rw [isClear]; rfl
      · rw [least i (le_refl i) (by omega), if_pos rfl]
        exact ih (by omega) (by omega) (by omega) fun j lo hi => least j (by omega) hi

/-- With a clear bit, `Find` returns the least one and marks exactly it. -/
theorem find_free {b : BitMap} {f : Nat} (bound : f < b.numBits) (free : b.isSet f = false) :
    ∃ (g : Nat) (b' : BitMap), b.find = .ok ((g : Int), b') ∧ g < b.numBits ∧ b.isSet g = false ∧
      (∀ j < g, b.isSet j = true) ∧ b'.numBits = b.numBits ∧
      ∀ j, b'.isSet j = (decide (j = g) || b.isSet j) := by
  classical
  have some_free : ∃ k, b.isSet k = false := ⟨f, free⟩
  have isClear := Nat.find_spec some_free
  have least : ∀ j < Nat.find some_free, b.isSet j = true := fun j lt => by
    simpa using Nat.find_min some_free lt
  have bound' : Nat.find some_free < b.numBits :=
    lt_of_le_of_lt (Nat.find_min' some_free free) bound
  obtain ⟨b', marked, bits, sets⟩ := mark_natCast bound'
  refine ⟨_, b', ?_, bound', isClear, least, bits, sets⟩
  rw [find, findFrom_some (by omega) (Nat.zero_le _) (by omega) isClear (fun j _ lt => least j lt),
    marked]
  rfl

/-- The constructor's loop: the bits below `n` are clear, the others as they were. -/
theorem clearBelow_spec (b : BitMap) {n : Nat} (bound : n ≤ b.numBits) :
    ∃ b', b.clearBelow n = .ok b' ∧ b'.numBits = b.numBits ∧
      ∀ j, b'.isSet j = (!decide (j < n) && b.isSet j) := by
  induction n with
  | zero => exact ⟨b, rfl, rfl, fun j => by simp⟩
  | succ n ih =>
      obtain ⟨b₁, cleared, bits, sets⟩ := ih (by omega)
      obtain ⟨b₂, last, bits₂, sets₂⟩ := clear_natCast (b := b₁) (i := n) (by omega)
      refine ⟨b₂, by rw [clearBelow, cleared, ok_bind, last], by omega, fun j => ?_⟩
      rw [sets₂, sets]
      by_cases lt : j < n
      · simp [lt, show j < n + 1 by omega]
      · by_cases eq : j = n
        · simp [eq]
        · simp [lt, eq, show ¬ j < n + 1 by omega]

theorem create_spec (nitems : Nat) (garbage : Nat → Word) :
    ∃ b, create nitems garbage = .ok b ∧ b.numBits = nitems ∧ ∀ j < nitems, b.isSet j = false := by
  obtain ⟨b, made, bits, sets⟩ := clearBelow_spec ⟨nitems, garbage⟩ (le_refl nitems)
  exact ⟨b, made, bits, fun j lt => by rw [sets]; simp [lt]⟩

end BitMap

/-! ## The memory manager -/

structure MemoryManager where
  mNumPages : Nat
  bmap : BitMap

namespace MemoryManager

/-- `MemoryManager::MemoryManager`. -/
def create (numPages : Nat) (garbage : Nat → Word) : Except Stop MemoryManager := do
  return ⟨numPages, ← BitMap.create numPages garbage⟩

/-- `MemoryManager::AllocPage`. -/
def allocPage (mm : MemoryManager) : Except Stop (Int × MemoryManager) := do
  let (page, bmap) ← mm.bmap.findFrom mm.mNumPages 0
  return (page, { mm with bmap })

/-- `MemoryManager::FreePage`. -/
def freePage (mm : MemoryManager) (physPageNum : Int) : Except Stop MemoryManager := do
  return { mm with bmap := ← mm.bmap.clear physPageNum }

/-- `MemoryManager::PageIsAllocated`. -/
def pageIsAllocated (mm : MemoryManager) (physPageNum : Int) : Except Stop Bool :=
  mm.bmap.test physPageNum

/-- A manager of `n` frames: both of its counts are `n`. -/
def Manages (mm : MemoryManager) (n : Nat) : Prop := mm.mNumPages = n ∧ mm.bmap.numBits = n

/-- Frame `f` is allocated. -/
def allocated (mm : MemoryManager) (f : Nat) : Bool := mm.bmap.isSet f

theorem pageIsAllocated_natCast {mm : MemoryManager} {n f : Nat} (manages : mm.Manages n)
    (bound : f < n) : mm.pageIsAllocated f = .ok (mm.allocated f) :=
  BitMap.test_natCast (by rw [manages.2]; exact bound)

theorem create_spec (n : Nat) (garbage : Nat → Word) :
    ∃ mm, create n garbage = .ok mm ∧ mm.Manages n ∧ ∀ f < n, mm.allocated f = false := by
  obtain ⟨b, made, bits, sets⟩ := BitMap.create_spec n garbage
  exact ⟨⟨n, b⟩, by rw [create, made]; rfl, ⟨rfl, bits⟩, sets⟩

/-- With every frame allocated, `AllocPage` returns -1 and changes nothing. -/
theorem allocPage_full {mm : MemoryManager} {n : Nat} (manages : mm.Manages n)
    (full : ∀ f < n, mm.allocated f = true) : mm.allocPage = .ok (-1, mm) := by
  rw [allocPage, BitMap.findFrom_none (by rw [manages.1, manages.2]; omega)
    (fun j _ high => full j (by rw [manages.1] at high; omega))]
  rfl

/-- With a free frame, `AllocPage` returns the least one and allocates exactly it. -/
theorem allocPage_free {mm : MemoryManager} {n f : Nat} (manages : mm.Manages n)
    (bound : f < n) (free : mm.allocated f = false) :
    ∃ (g : Nat) (mm' : MemoryManager), mm.allocPage = .ok ((g : Int), mm') ∧ g < n ∧
      mm.allocated g = false ∧
      (∀ j < g, mm.allocated j = true) ∧ mm'.Manages n ∧
      ∀ j, mm'.allocated j = (decide (j = g) || mm.allocated j) := by
  obtain ⟨g, b', found, bound', isClear, least, bits, sets⟩ :=
    BitMap.find_free (b := mm.bmap) (by rw [manages.2]; exact bound) free
  rw [manages.2] at bound'
  refine ⟨g, { mm with bmap := b' }, ?_, bound', isClear, least,
    ⟨manages.1, bits.trans manages.2⟩, sets⟩
  rw [allocPage, manages.1, ← manages.2]
  exact bind_of_ok found

/-- `FreePage` of a frame in range frees exactly it. -/
theorem freePage_natCast {mm : MemoryManager} {n f : Nat} (manages : mm.Manages n) (bound : f < n) :
    ∃ mm', mm.freePage f = .ok mm' ∧ mm'.Manages n ∧
      ∀ j, mm'.allocated j = (!decide (j = f) && mm.allocated j) := by
  obtain ⟨b', cleared, bits, sets⟩ :=
    BitMap.clear_natCast (b := mm.bmap) (i := f) (by rw [manages.2]; exact bound)
  exact ⟨{ mm with bmap := b' }, by rw [freePage, cleared]; rfl,
    ⟨manages.1, bits.trans manages.2⟩, sets⟩

end MemoryManager

end Nachos.UserProg
