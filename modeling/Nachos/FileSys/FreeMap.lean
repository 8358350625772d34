/-
# Nachos.FileSys.FreeMap -- the bitmap of free sectors, and the allocation of file data

`BitMap::FetchFrom`, `WriteBack` and `NumClear` of `userprog/bitmap.cc`, and
`FileHeader::Allocate` and `Deallocate` of `filesys/filehdr.cc`.  The bits are read through
`BitMap.isSet`: `Find` takes a clear bit, so that the sectors that `Allocate` takes are
distinct, were free and are marked afterwards (`allocate_spec`).
-/
import Nachos.FileSys.OpenFile
import Nachos.UserProg.BitMap
import Mathlib.Data.List.Count
import Mathlib.Data.List.Nodup
import Mathlib.Data.List.Perm.Subperm

namespace Nachos.Disk

open Nachos.Lib.Bytes
open Nachos.UserProg (BitMap bitsInWord)

set_option autoImplicit false

/-- `FreeMapFileSize`. -/
def freeMapFileSize : Nat := numSectors / 8

/-- `divRoundUp`. -/
def divRoundUp (n s : Int) : Int := n.tdiv s + if n.tmod s > 0 then 1 else 0

/-- `BitMap::FetchFrom`. -/
def fetchMap (b : BitMap) (d : Disk) (file : FileHeader) : Except Stop BitMap := do
  let bytes ← readAt d file (divRoundUp b.numBits bitsInWord * 4) 0
  return { b with map := words (splice (bytesOfWords b.map) 0 bytes) }

/-- `BitMap::WriteBack`. -/
def writeMap (b : BitMap) (d : Disk) (file : FileHeader) (garbage : Nat → Byte) :
    Except Stop Disk := do
  return (← writeAt d file (bytesOfWords b.map) (divRoundUp b.numBits bitsInWord * 4) 0 garbage).2

/-- The loop of `BitMap::NumClear`, over the bits below `n`. -/
def numClearBelow (b : BitMap) : Nat → Except Stop Nat
  | 0 => return 0
  | n + 1 => do
      let count ← numClearBelow b n
      return if ← b.test n then count else count + 1

/-- `BitMap::NumClear`. -/
def numClear (b : BitMap) : Except Stop Nat := numClearBelow b b.numBits

namespace FileHeader

/-- The loop of `FileHeader::Allocate`. -/
def allocateSectors : Nat → FileHeader × BitMap → Except Stop (FileHeader × BitMap)
  | 0, state => return state
  | n + 1, state => do
      let (h, freeMap) ← allocateSectors n state
      let (sector, freeMap) ← freeMap.find
      if numDirect ≤ n then throw .outOfBounds
      return (Function.update h (2 + n) (BitVec.ofInt 32 sector), freeMap)

/-- `FileHeader::Allocate`; `none` is `FALSE`. -/
def allocate (h : FileHeader) (freeMap : BitMap) (fileSize : Int) :
    Except Stop (Option (FileHeader × BitMap)) := do
  let h := Function.update h 0 (BitVec.ofInt 32 fileSize)
  let h := Function.update h 1 (BitVec.ofInt 32 (divRoundUp fileSize sectorSize))
  if (← numClear freeMap : Nat) < FileHeader.numSectors h then return none
  return some (← allocateSectors (FileHeader.numSectors h).toNat (h, freeMap))

/-- `FileHeader::Deallocate`, of the first `n` sectors. -/
def deallocateSectors (h : FileHeader) : Nat → BitMap → Except Stop BitMap
  | 0, freeMap => return freeMap
  | n + 1, freeMap => do
      let freeMap ← deallocateSectors h n freeMap
      let sector ← h.dataSectors n
      ASSERT (← freeMap.test sector)
      freeMap.clear sector

/-- `FileHeader::Deallocate`. -/
def deallocate (h : FileHeader) (freeMap : BitMap) : Except Stop BitMap :=
  h.deallocateSectors (FileHeader.numSectors h).toNat freeMap

end FileHeader

/-! ## The bits on the disk -/

/-- A bit of a map that lies in memory. -/
def bitOf (m : Nat → Byte) (j : Nat) : Bool := (words m (j / bitsInWord)).getLsbD (j % bitsInWord)

section Bits

variable {b : BitMap} {d : Disk} {h : FileHeader} {s j : Nat} {m m' garbage : Nat → Byte}

theorem bitOf_congr (inside : j < numSectors) (same : ∀ q < freeMapFileSize, m q = m' q) :
    bitOf m j = bitOf m' j := by
  have word : words m (j / bitsInWord) = words m' (j / bitsInWord) := by
    refine wordAt_congr fun k small => same _ ?_
    simp only [freeMapFileSize, numSectors, bitsInWord] at *
    omega
  rw [bitOf, bitOf, word]

theorem bitOf_contents {d' : Disk} (inside : j < numSectors) (same : d' s = d s) :
    bitOf (contents d' [s]) j = bitOf (contents d [s]) j :=
  bitOf_congr inside fun q small => contents_congr
    (by simpa [sectorSize, freeMapFileSize, numSectors] using small) fun t member => by
    rw [List.mem_singleton.mp member, same]

theorem mapSize (bits : b.numBits = numSectors) :
    divRoundUp b.numBits bitsInWord * 4 = ((freeMapFileSize : Nat) : Int) := by
  rw [bits]
  rfl

theorem fetchMap_spec (describes : Describes h freeMapFileSize [s])
    (bits : b.numBits = numSectors) :
    ∃ b', fetchMap b d h = .ok b' ∧ b'.numBits = numSectors ∧
      ∀ j < numSectors, b'.isSet j = bitOf (contents d [s]) j := by
  have read := describes.readAt (d := d) (p := 0) (n := freeMapFileSize) (by decide)
    (by decide) (by decide)
  refine ⟨{ b with map := words (splice (bytesOfWords b.map) 0
      (block (contents d [s]) 0 freeMapFileSize)) },
    ?_, bits, fun j inside => ?_⟩
  · rw [fetchMap, mapSize bits]
    exact bind_of_ok read
  · refine bitOf_congr inside fun q small => ?_
    rw [splice_block_at _ _ (Nat.zero_le q) (by simpa using small), Nat.zero_add, Nat.sub_zero]

theorem writeMap_spec (garbage : Nat → Byte) (describes : Describes h freeMapFileSize [s])
    (bits : b.numBits = numSectors) :
    ∃ d', writeMap b d h garbage = .ok d' ∧
      (∀ j < numSectors, bitOf (contents d' [s]) j = b.isSet j) ∧ ∀ t, t ≠ s → d' t = d t := by
  obtain ⟨d', wrote, here, elsewhere⟩ := describes.writeAt (d := d) (bytesOfWords b.map)
    garbage (List.nodup_singleton s) (p := 0) (n := freeMapFileSize) (by decide)
    (by decide) (by decide)
  refine ⟨d', ?_, fun j inside => ?_, fun t other => elsewhere t ?_⟩
  · rw [writeMap, mapSize bits]
    exact bind_of_ok wrote
  · have same : bitOf (contents d' [s]) j = bitOf (bytesOfWords b.map) j := by
      refine bitOf_congr inside fun q small => ?_
      rw [here q small, splice_block_at _ _ (Nat.zero_le q) (by simpa using small), Nat.zero_add,
        Nat.sub_zero]
    rw [same, bitOf, words_bytesOfWords]
    rfl
  · simpa [touched, freeMapFileSize, numSectors] using other

theorem numClearBelow_spec {n : Nat} (inside : n ≤ b.numBits) :
    numClearBelow b n = .ok ((List.range n).countP fun j => !b.isSet j) := by
  induction n with
  | zero => rfl
  | succ n ih =>
      rw [numClearBelow, ih (by omega), ok_bind, BitMap.test_natCast (by omega), ok_bind,
        List.range_succ, List.countP_append]
      cases marked : b.isSet n <;> simp [marked]

end Bits

/-! ## Allocation -/

section Allocation

variable {b : BitMap} {h : FileHeader} {n bytes : Nat} {sectors : List Nat}

/-- These sectors, in the order of their numbers, were the lowest free ones and are now marked. -/
structure Taken (b b' : BitMap) (sectors : List Nat) : Prop where
  bits : b'.numBits = numSectors
  sorted : sectors.Pairwise (· < ·)
  bound : ∀ s ∈ sectors, s < numSectors
  free : ∀ s ∈ sectors, b.isSet s = false
  sets : ∀ j, b'.isSet j = (decide (j ∈ sectors) || b.isSet j)
  lowest : ∀ s ∈ sectors, ∀ j < s, b'.isSet j = true

theorem Taken.nil (bits : b.numBits = numSectors) : Taken b b [] := by
  exact ⟨bits, List.Pairwise.nil, by simp, by simp, by simp, by simp⟩

theorem Taken.distinct {b' : BitMap} (taken : Taken b b' sectors) : sectors.Nodup := by
  refine taken.sorted.imp ?_
  intro x y less
  exact Nat.ne_of_lt less

theorem Taken.append {b' b'' : BitMap} {more : List Nat} (first : Taken b b' sectors)
    (second : Taken b' b'' more) : Taken b b'' (sectors ++ more) := by
  have free : ∀ t ∈ more, t ∉ sectors ∧ b.isSet t = false := by
    intro t there
    have clear := second.free t there
    rw [first.sets] at clear
    simpa using clear
  refine ⟨second.bits, ?_, ?_, ?_, ?_, ?_⟩
  · rw [List.pairwise_append]
    refine ⟨first.sorted, second.sorted, fun s mine t there => ?_⟩
    -- were `t` lower, it would have been marked when `s` was found
    by_contra higher
    have differ : s ≠ t := fun same => (free t there).1 (same ▸ mine)
    have marked := first.lowest s mine t (by omega)
    rw [second.free t there] at marked
    cases marked
  · intro s there
    obtain mine | there := List.mem_append.mp there
    · exact first.bound s mine
    · exact second.bound s there
  · intro s there
    obtain mine | there := List.mem_append.mp there
    · exact first.free s mine
    · exact (free s there).2
  · intro j
    rw [second.sets, first.sets, ← Bool.or_assoc]
    congr 1
    rw [Bool.eq_iff_iff]
    simp [or_comm]
  · intro s there j below
    rw [second.sets]
    obtain mine | there := List.mem_append.mp there
    · rw [first.lowest s mine j below, Bool.or_true]
    · rw [← second.sets]
      exact second.lowest s there j below

/-- What is taken is a run of sectors when everything below `k` was in use. -/
theorem eq_range_of_lowest {k : Nat} (sorted : sectors.Pairwise (· < ·))
    (low : ∀ s ∈ sectors, k ≤ s) (lowest : ∀ s ∈ sectors, ∀ j, k ≤ j → j < s → j ∈ sectors) :
    sectors = List.range' k sectors.length := by
  induction sectors generalizing k with
  | nil => rfl
  | cons a rest ih =>
      obtain ⟨above, sorted⟩ := List.pairwise_cons.mp sorted
      have first : a = k := by
        by_contra other
        have here := low a (List.mem_cons_self ..)
        obtain same | there := List.mem_cons.mp
          (lowest a (List.mem_cons_self ..) k (Nat.le_refl k) (by omega))
        · exact other same.symm
        · have := above k there
          omega
      rw [List.length_cons, List.range'_succ, first]
      refine congrArg _ (ih sorted (fun s there => ?_) fun s there j from_ below => ?_)
      · have := above s there
        omega
      · obtain same | there := List.mem_cons.mp
          (lowest s (List.mem_cons_of_mem _ there) j (by omega) below)
        · omega
        · exact there

/-- `Find` takes the lowest free sector. -/
theorem find_taken {f : Nat} (bits : b.numBits = numSectors) (inside : f < numSectors)
    (clear : b.isSet f = false) :
    ∃ (g : Nat) (b' : BitMap), b.find = .ok ((g : Int), b') ∧ Taken b b' [g] := by
  obtain ⟨g, b', found, bound, isClear, least, bits', sets⟩ :=
    BitMap.find_free (b := b) (f := f) (by omega) clear
  refine ⟨g, b', found, by omega, List.pairwise_singleton _ g, ?_, ?_, ?_, ?_⟩
  · intro s same
    rw [List.mem_singleton.mp same]
    omega
  · intro s same
    rw [List.mem_singleton.mp same]
    exact isClear
  · intro j
    rw [sets]
    simp
  · intro s same j below
    rw [List.mem_singleton.mp same] at below
    rw [sets, least j below, Bool.or_true]

/-- As long as enough bits are clear one more can be found. -/
theorem exists_clear {b' : BitMap}
    (taken : sectors.length < (List.range b.numBits).countP fun j => !b.isSet j)
    (sets : ∀ j, b'.isSet j = (decide (j ∈ sectors) || b.isSet j)) :
    ∃ f < b.numBits, b'.isSet f = false := by
  by_contra full
  have covered : (List.range b.numBits).filter (fun j => !b.isSet j) ⊆ sectors := by
    intro j member
    obtain ⟨inside, clear⟩ := List.mem_filter.mp member
    have marked : b'.isSet j = true := by
      by_contra free
      exact full ⟨j, List.mem_range.mp inside, by simpa using free⟩
    rw [sets] at marked
    have clear : b.isSet j = false := by simpa using clear
    simpa [clear] using marked
  have fewer := (List.Nodup.subperm (List.Nodup.filter _ List.nodup_range) covered).length_le
  rw [← List.countP_eq_length_filter] at fewer
  omega

/-- The sectors that `Allocate` takes, one after the other, are the lowest that are free. -/
theorem allocateSectors_spec (bits : b.numBits = numSectors) (fits : n ≤ numDirect)
    (enough : n ≤ (List.range b.numBits).countP fun j => !b.isSet j) :
    ∃ (h' : FileHeader) (b' : BitMap) (sectors : List Nat),
      FileHeader.allocateSectors n (h, b) = .ok (h', b') ∧ sectors.length = n ∧
      Taken b b' sectors ∧
      (∀ (j s : Nat), sectors[j]? = some s → (h' (2 + j)).toInt = s) ∧ h' 0 = h 0 ∧ h' 1 = h 1 := by
  induction n with
  | zero => exact ⟨h, b, [], rfl, rfl, Taken.nil bits, by simp, rfl, rfl⟩
  | succ n ih =>
      obtain ⟨h', b', sectors, done, length, taken, data, zero, one⟩ := ih (by omega) (by omega)
      obtain ⟨f, inside, clear⟩ := exists_clear (by omega) taken.sets
      obtain ⟨g, b'', found, last⟩ := find_taken (f := f) taken.bits (by omega) clear
      have taken' := taken.append last
      have small := taken'.bound g (by simp)
      refine ⟨Function.update h' (2 + n) (BitVec.ofInt 32 g), b'', sectors ++ [g],
        ?_, by simp [length], taken', ?_, ?_, ?_⟩
      · rw [FileHeader.allocateSectors, done, ok_bind]
        simp only
        rw [found, ok_bind]
        simp only
        rw [if_neg (by omega)]
        rfl
      · intro j s there
        by_cases last : j = n
        · have same : s = g := by
            rw [last, ← length, List.getElem?_append_right (Nat.le_refl _)] at there
            simpa using there.symm
          rw [last, Function.update_self, same, BitVec.toInt_ofInt]
          simp only [numSectors] at small
          exact Int.bmod_eq_of_le (by omega) (by omega)
        · have inside : j < sectors.length := by
            have := (List.getElem?_eq_some_iff.mp there).1
            simp only [List.length_append, List.length_singleton] at this
            omega
          rw [List.getElem?_append_left inside] at there
          rw [Function.update_of_ne (by omega), data j s there]
      · rw [Function.update_of_ne (by omega), zero]
      · rw [Function.update_of_ne (by omega), one]

theorem toInt_ofInt {k : Int} (low : -maxInt - 1 ≤ k) (high : k ≤ maxInt) :
    (BitVec.ofInt 32 k).toInt = k := by
  rw [BitVec.toInt_ofInt]
  simp only [maxInt] at low high
  exact Int.bmod_eq_of_le (by omega) (by omega)

theorem divRoundUp_natCast (k : Nat) :
    divRoundUp k sectorSize = (((k + 127) / 128 : Nat) : Int) := by
  have quotient : (k : Int).tdiv sectorSize = ((k / 128 : Nat) : Int) := rfl
  have rest : (k : Int).tmod sectorSize = ((k % 128 : Nat) : Int) := rfl
  rw [divRoundUp, quotient, rest]
  by_cases whole : k % 128 = 0
  · rw [if_neg (by omega)]
    omega
  · rw [if_pos (by omega)]
    omega

/-- The number of sectors of a file; a negative size needs none. -/
theorem divRoundUp_bounds {size : Int} (low : -maxInt - 1 ≤ size) (high : size ≤ maxInt) :
    -maxInt - 1 ≤ divRoundUp size sectorSize ∧ divRoundUp size sectorSize ≤ maxInt ∧
      (divRoundUp size sectorSize).toNat = (size.toNat + 127) / 128 := by
  simp only [maxInt] at *
  obtain ⟨k, rfl | rfl⟩ := Int.eq_nat_or_neg size
  · rw [divRoundUp_natCast]
    omega
  · have quotient : (-(k : Int)).tdiv sectorSize = -((k / 128 : Nat) : Int) := by
      rw [Int.neg_tdiv]
      rfl
    have rest : (-(k : Int)).tmod sectorSize = -((k % 128 : Nat) : Int) := by
      rw [Int.neg_tmod]
      rfl
    rw [divRoundUp, quotient, rest, if_neg (by omega)]
    omega

/-- `Allocate` for a size of which the number of sectors is an `int`. -/
theorem allocate_eq (h : FileHeader) {size : Int} (low : -maxInt - 1 ≤ size)
    (high : size ≤ maxInt) :
    h.allocate b size =
      if (List.range b.numBits).countP (fun j => !b.isSet j) < (size.toNat + 127) / 128 then
        .ok none
      else
        (FileHeader.allocateSectors ((size.toNat + 127) / 128)
          (Function.update (Function.update h 0 (BitVec.ofInt 32 size)) 1
            (BitVec.ofInt 32 (divRoundUp size sectorSize)), b)).map some := by
  obtain ⟨least, most, round⟩ := divRoundUp_bounds low high
  unfold FileHeader.allocate
  rw [numClear, numClearBelow_spec (Nat.le_refl b.numBits), ok_bind]
  simp only [FileHeader.numSectors, Function.update_self, toInt_ofInt least most]
  by_cases few : (List.range b.numBits).countP (fun j => !b.isSet j) < (size.toNat + 127) / 128
  · rw [if_pos few, if_pos (by omega)]
    rfl
  · rw [if_neg few, if_neg (by omega), round]
    cases FileHeader.allocateSectors _ _ with
    | error e => rfl
    | ok taken => rfl

/-- `Allocate` takes free sectors for the file, or there are too few of them. -/
theorem allocate_spec (h : FileHeader) (size : Int) (bits : b.numBits = numSectors)
    (low : -maxInt - 1 ≤ size) (high : size ≤ maxFileSize) :
    (h.allocate b size = .ok none ∧
        (List.range b.numBits).countP (fun j => !b.isSet j) < (size.toNat + 127) / 128) ∨
      ∃ (h' : FileHeader) (b' : BitMap) (sectors : List Nat),
        h.allocate b size = .ok (some (h', b')) ∧
        h'.fileLength = size ∧ Describes h' size.toNat sectors ∧ Taken b b' sectors := by
  have sizes : (maxFileSize : Int) = 3840 := rfl
  have top : size ≤ maxInt := by
    simp only [maxInt]
    omega
  obtain ⟨least, most, round⟩ := divRoundUp_bounds low top
  have needed := toInt_ofInt least most
  by_cases few : (List.range b.numBits).countP (fun j => !b.isSet j) < (size.toNat + 127) / 128
  · exact .inl ⟨(allocate_eq h low top).trans (if_pos few), few⟩
  · obtain ⟨h', b', sectors, done, length, taken, data, zero, one⟩ :=
      allocateSectors_spec (b := b) (n := (size.toNat + 127) / 128)
        (h := Function.update (Function.update h 0 (BitVec.ofInt 32 size)) 1
          (BitVec.ofInt 32 (divRoundUp size sectorSize))) bits
            (by simp only [numDirect]; omega) (by omega)
    have whole : h'.fileLength = size := by
      rw [FileHeader.fileLength, zero, Function.update_of_ne (by decide), Function.update_self,
        toInt_ofInt low top]
    refine .inr ⟨h', b', sectors, ?_, whole,
      ⟨congrArg Int.toNat whole, ?_, data, length, ?_, taken.bound⟩, taken⟩
    · rw [allocate_eq h low top, if_neg few, done]
      rfl
    · rw [one, Function.update_self, needed, length, round]
    · simp only [numDirect]
      omega

/-- `Allocate` from a disk where the sectors below `k` are in use. -/
theorem allocate_from (h : FileHeader) (bytes : Nat) (bits : b.numBits = numSectors) {k : Nat}
    (set : ∀ j < numSectors, b.isSet j = decide (j < k)) (size : bytes ≤ maxFileSize)
    (room : k + (bytes + 127) / 128 ≤ numSectors) :
    ∃ (h' : FileHeader) (b' : BitMap), h.allocate b bytes = .ok (some (h', b')) ∧
      Describes h' bytes (List.range' k ((bytes + 127) / 128)) ∧ b'.numBits = numSectors ∧
      ∀ j < numSectors, b'.isSet j = decide (j < k + (bytes + 127) / 128) := by
  obtain ⟨-, few⟩ | ⟨h', b', sectors, allocated, -, describes, taken⟩ :=
    allocate_spec (b := b) h bytes bits (by simp only [maxInt]; omega) (by omega)
  · have covered : List.range' k ((bytes + 127) / 128) ⊆ (List.range b.numBits).filter fun j =>
        !b.isSet j := by
      intro s there
      rw [List.mem_range'_1] at there
      have bound : s < numSectors := by omega
      rw [List.mem_filter, List.mem_range, set s bound]
      exact ⟨by omega, by simp; omega⟩
    have enough := (List.Nodup.subperm List.nodup_range' covered).length_le
    rw [← List.countP_eq_length_filter, List.length_range'] at enough
    omega
  · rw [Int.toNat_natCast] at describes
    have run : sectors = List.range' k sectors.length := by
      refine eq_range_of_lowest taken.sorted (fun s there => ?_) fun s there j high below => ?_
      · have free := taken.free s there
        rw [set s (taken.bound s there)] at free
        simpa using free
      · have marked := taken.lowest s there j below
        have bound := taken.bound s there
        rw [taken.sets, set j (by omega)] at marked
        simp only [Bool.or_eq_true, decide_eq_true_eq] at marked
        exact marked.resolve_right (by omega)
    rw [describes.size] at run
    refine ⟨h', b', allocated, run ▸ describes, taken.bits, fun j bound => ?_⟩
    rw [taken.sets, set j bound, run, Bool.eq_iff_iff]
    simp only [Bool.or_eq_true, decide_eq_true_eq, List.mem_range'_1]
    omega

/-- The sectors of a file that is too large do not fit in its header. -/
theorem allocateSectors_large (large : numDirect < n) (state : FileHeader × BitMap) :
    ∃ e, FileHeader.allocateSectors n state = .error e := by
  induction n with
  | zero => omega
  | succ n ih =>
      rw [FileHeader.allocateSectors]
      cases before : FileHeader.allocateSectors n state with
      | error e => exact ⟨e, rfl⟩
      | ok state' =>
          by_cases more : numDirect < n
          · obtain ⟨e, stops⟩ := ih more
            rw [stops] at before
            cases before
          · cases found : state'.2.find with
            | error e => exact ⟨e, by simp [found]⟩
            | ok pair =>
                refine ⟨.outOfBounds, ?_⟩
                have last : numDirect ≤ n := by omega
                simp [found, last]
                rfl

theorem allocate_large (h : FileHeader) {size : Int} (large : maxFileSize < size)
    (high : size ≤ maxInt) :
    (h.allocate b size = .ok none ∧
        (List.range b.numBits).countP (fun j => !b.isSet j) < (size.toNat + 127) / 128) ∨
      (size.toNat + 127) / 128 ≤ (List.range b.numBits).countP (fun j => !b.isSet j) ∧
        ∃ e, h.allocate b size = .error e := by
  have sizes : (maxFileSize : Int) = 3840 := rfl
  have low : -maxInt - 1 ≤ size := by
    simp only [maxInt]
    omega
  by_cases few : (List.range b.numBits).countP (fun j => !b.isSet j) < (size.toNat + 127) / 128
  · exact .inl ⟨(allocate_eq h low high).trans (if_pos few), few⟩
  · obtain ⟨e, stops⟩ := allocateSectors_large (n := (size.toNat + 127) / 128)
      (by simp only [numDirect]; omega)
      (Function.update (Function.update h 0 (BitVec.ofInt 32 size)) 1
        (BitVec.ofInt 32 (divRoundUp size sectorSize)), b)
    refine .inr ⟨Nat.not_lt.mp few, e, ?_⟩
    rw [allocate_eq h low high, if_neg few, stops]
    rfl

/-- `Deallocate` frees the sectors of a file whose sectors are marked. -/
theorem Describes.deallocate (describes : Describes h bytes sectors) (distinct : sectors.Nodup)
    (bits : b.numBits = numSectors) (marked : ∀ s ∈ sectors, b.isSet s = true) :
    ∃ b', h.deallocate b = .ok b' ∧ b'.numBits = numSectors ∧
      ∀ j, b'.isSet j = (!decide (j ∈ sectors) && b.isSet j) := by
  have some : ∀ n ≤ sectors.length, ∃ b', h.deallocateSectors n b = .ok b' ∧
      b'.numBits = numSectors ∧
      ∀ j, b'.isSet j = (!decide (j ∈ sectors.take n) && b.isSet j) := by
    intro n inside
    induction n with
    | zero => exact ⟨b, rfl, bits, by simp⟩
    | succ n ih =>
        obtain ⟨b', done, bits', sets⟩ := ih (by omega)
        have fits := describes.fits
        have there : sectors[n]? = .some sectors[n] := List.getElem?_eq_getElem inside
        have member : sectors[n] ∈ sectors := List.getElem_mem inside
        have bound := describes.bound _ member
        have fresh : sectors[n] ∉ sectors.take n := by
          intro earlier
          obtain ⟨k, small, same⟩ := List.mem_take_iff_getElem.mp earlier
          have := (List.getElem_inj distinct).mp same
          omega
        have set : b'.isSet sectors[n] = true := by
          rw [sets, marked _ member]
          simpa using fresh
        have sector : h.dataSectors n = .ok ((sectors[n] : Nat) : Int) := by
          rw [FileHeader.dataSectors, if_pos ⟨by omega, by omega⟩, Int.toNat_natCast,
            describes.data n _ there]
        obtain ⟨b'', cleared, bits'', sets'⟩ := BitMap.clear_natCast (b := b')
          (i := sectors[n]) (by omega)
        refine ⟨b'', ?_, by omega, fun j => ?_⟩
        · rw [FileHeader.deallocateSectors, done, ok_bind, sector, ok_bind,
            BitMap.test_natCast (by omega), ok_bind, set, ASSERT_true, ok_bind, cleared]
        · rw [sets', sets, List.take_add_one, there]
          simp only [Option.toList_some, List.mem_append, List.mem_singleton]
          by_cases same : j = sectors[n]
          · simp [same]
          · simp [same]
  obtain ⟨b', done, bits', sets⟩ := some sectors.length (Nat.le_refl _)
  refine ⟨b', ?_, bits', fun j => by rw [sets, List.take_length]⟩
  have count : (FileHeader.numSectors h).toNat = sectors.length := by
    rw [FileHeader.numSectors, describes.count]
  rw [FileHeader.deallocate, count, done]

end Allocation

end Nachos.Disk
