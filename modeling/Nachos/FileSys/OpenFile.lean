/-
# Nachos.FileSys.OpenFile -- sectors, file headers, and reading and writing through them

`machine/disk.cc` behind `filesys/synchdisk.cc`, `filesys/filehdr.cc` and
`filesys/openfile.cc`, for one thread.  The disk is an array of sectors of 128 bytes.  A
header is the 32 words of its sector as they lie in memory, and an open file is its own copy
of one.

`ReadAt` and `WriteAt` are followed with their rounding to whole sectors.  Positions are
`int`: `/` rounds towards zero, a sum that leaves the range of `int` is undefined and stops
the model, and so does an index outside of `dataSectors` or of the buffer.  A buffer from
`new` has arbitrary bytes until they are written.

`contents` is the file as one array of bytes; `Describes.readAt` and `Describes.writeAt` say
that the two calls are a slice of it and a splice into it, and touch no other sector.
-/
import Nachos.Outcome
import Nachos.Lib.Bytes
import Mathlib.Algebra.Group.Int.Defs
import Mathlib.Algebra.Group.Nat.Defs

namespace Nachos

/-- The sectors; the bytes of a sector from `SectorSize` on are never read. -/
abbrev Disk := Nat → Nat → Lib.Bytes.Byte

end Nachos

namespace Nachos.Disk

open Nachos.Lib.Bytes

set_option autoImplicit false

/-- `SectorSize`. -/
def sectorSize : Nat := 128

/-- `NumSectors`. -/
def numSectors : Nat := 1024

/-- `NumDirect`. -/
def numDirect : Nat := 30

/-- `MaxFileSize`. -/
def maxFileSize : Nat := numDirect * sectorSize

/-- The largest `int`. -/
def maxInt : Int := 2 ^ 31 - 1

/-- A sum of two `int`s. -/
def addInt (a b : Int) : Except Stop Int :=
  if -maxInt - 1 ≤ a + b ∧ a + b ≤ maxInt then .ok (a + b) else .error .overflow

/-- `Disk::ReadRequest`, and the wait for it. -/
def readSector (d : Disk) (sectorNumber : Int) : Except Stop (Nat → Byte) := do
  ASSERT (decide (0 ≤ sectorNumber ∧ sectorNumber < numSectors))
  return d sectorNumber.toNat

/-- `Disk::WriteRequest`, and the wait for it. -/
def writeSector (d : Disk) (sectorNumber : Int) (data : Nat → Byte) : Except Stop Disk := do
  ASSERT (decide (0 ≤ sectorNumber ∧ sectorNumber < numSectors))
  return Function.update d sectorNumber.toNat data

/-! ## File headers -/

/-- The words of a `FileHeader`: `numBytes`, `numSectors` and `dataSectors`. -/
abbrev FileHeader := Nat → Word

namespace FileHeader

/-- `FileHeader::FileLength`. -/
def fileLength (h : FileHeader) : Int := (h 0).toInt

def numSectors (h : FileHeader) : Int := (h 1).toInt

def dataSectors (h : FileHeader) (i : Int) : Except Stop Int :=
  if 0 ≤ i ∧ i < numDirect then .ok (h (2 + i.toNat)).toInt else .error .outOfBounds

/-- `FileHeader::ByteToSector`. -/
def byteToSector (h : FileHeader) (offset : Int) : Except Stop Int :=
  h.dataSectors (offset.tdiv sectorSize)

/-- `FileHeader::FetchFrom`. -/
def fetchFrom (d : Disk) (sector : Int) : Except Stop FileHeader := do
  return words (← readSector d sector)

/-- `FileHeader::WriteBack`. -/
def writeBack (h : FileHeader) (d : Disk) (sector : Int) : Except Stop Disk :=
  writeSector d sector (bytesOfWords h)

end FileHeader

/-! ## Open files -/

/-- The loop of `ReadAt`: `n` sectors from `firstSector` on, into a buffer. -/
def readSectors (d : Disk) (h : FileHeader) (firstSector : Int) : Nat → Except Stop (List Byte)
  | 0 => return []
  | n + 1 => do
      let buf ← readSectors d h firstSector n
      let data ← readSector d (← h.byteToSector ((firstSector + n) * sectorSize))
      return buf ++ block data 0 sectorSize

/-- `OpenFile::ReadAt`: the bytes that are copied to `into`. -/
def readAt (d : Disk) (h : FileHeader) (numBytes position : Int) : Except Stop (List Byte) := do
  if numBytes ≤ 0 ∨ position ≥ h.fileLength then return []
  let past ← addInt position numBytes
  let numBytes := if past > h.fileLength then h.fileLength - position else numBytes
  let firstSector := position.tdiv sectorSize
  let lastSector := (position + numBytes - 1).tdiv sectorSize
  let buf ← readSectors d h firstSector (1 + lastSector - firstSector).toNat
  let start := position - firstSector * sectorSize
  if start < 0 then throw .outOfBounds
  return (buf.drop start.toNat).take numBytes.toNat

/-- The loop of `WriteAt`: `n` sectors from `firstSector` on, out of a buffer. -/
def writeSectors (h : FileHeader) (buf : Nat → Byte) (firstSector : Int) :
    Nat → Disk → Except Stop Disk
  | 0, d => return d
  | n + 1, d => do
      let d ← writeSectors h buf firstSector n d
      writeSector d (← h.byteToSector ((firstSector + n) * sectorSize))
        fun k => buf (n * sectorSize + k)

/-- The buffer of `WriteAt` before the new bytes are copied in: the first and the last sector
are read if they are to be partially modified. -/
def oldSectors (d : Disk) (h : FileHeader) (numBytes position firstSector lastSector : Int)
    (garbage : Nat → Byte) : Except Stop (Nat → Byte) := do
  let firstAligned := decide (position = firstSector * sectorSize)
  let lastAligned := decide (position + numBytes = (lastSector + 1) * sectorSize)
  let buf ←
    if firstAligned then pure garbage
    else do
      let old ← readAt d h sectorSize (firstSector * sectorSize)
      pure (splice garbage 0 old)
  if !lastAligned && (decide (firstSector ≠ lastSector) || firstAligned) then do
    let old ← readAt d h sectorSize (lastSector * sectorSize)
    return splice buf ((lastSector - firstSector) * sectorSize).toNat old
  else return buf

/-- `OpenFile::WriteAt`: the number of bytes written, and the disk. -/
def writeAt (d : Disk) (h : FileHeader) (source : Nat → Byte) (numBytes position : Int)
    (garbage : Nat → Byte) : Except Stop (Int × Disk) := do
  if numBytes ≤ 0 ∨ position ≥ h.fileLength then return (0, d)
  let past ← addInt position numBytes
  let numBytes := if past > h.fileLength then h.fileLength - position else numBytes
  let firstSector := position.tdiv sectorSize
  let lastSector := (position + numBytes - 1).tdiv sectorSize
  let buf ← oldSectors d h numBytes position firstSector lastSector garbage
  let start := position - firstSector * sectorSize
  if start < 0 then throw .outOfBounds
  let buf := splice buf start.toNat (block source 0 numBytes.toNat)
  let d ← writeSectors h buf firstSector (1 + lastSector - firstSector).toNat d
  return (numBytes, d)

/-! ## Files as arrays of bytes -/

/-- The header of a file of so many bytes in these sectors; a file that was created with a
negative size is empty. -/
structure Describes (h : FileHeader) (bytes : Nat) (sectors : List Nat) : Prop where
  length : (h 0).toInt.toNat = bytes
  count : (h 1).toInt.toNat = sectors.length
  data : ∀ (j s : Nat), sectors[j]? = some s → (h (2 + j)).toInt = s
  size : sectors.length = (bytes + 127) / 128
  fits : sectors.length ≤ numDirect
  bound : ∀ s ∈ sectors, s < numSectors

/-- The bytes in some sectors, one after the other. -/
def contents (d : Disk) (sectors : List Nat) (q : Nat) : Byte :=
  d (sectors.getD (q / sectorSize) 0) (q % sectorSize)

theorem contents_congr {d d' : Disk} {sectors : List Nat} {q : Nat}
    (inside : q < sectors.length * sectorSize)
    (same : ∀ s ∈ sectors, d' s = d s) : contents d' sectors q = contents d sectors q := by
  have index : q / sectorSize < sectors.length := (Nat.div_lt_iff_lt_mul (by decide)).mpr inside
  rw [contents, contents, List.getD_eq_getElem?_getD, List.getElem?_eq_getElem index,
    Option.getD_some, same _ (List.getElem_mem index)]

section Reading

variable {d : Disk} {h : FileHeader} {bytes : Nat} {sectors : List Nat}

theorem Describes.fileLength (describes : Describes h bytes sectors) (some : 0 < bytes) :
    h.fileLength = bytes := by
  have length := describes.length
  rw [FileHeader.fileLength]
  omega

theorem Describes.byteToSector (describes : Describes h bytes sectors) {j : Nat}
    (inside : j < sectors.length) :
    h.byteToSector ((j : Int) * sectorSize) = .ok ((sectors.getD j 0 : Nat) : Int) := by
  have fits := describes.fits
  have index : ((j : Int) * sectorSize).tdiv sectorSize = j := by
    simp [sectorSize]
  have word := describes.data j (sectors.getD j 0) (by
    rw [List.getD_eq_getElem?_getD, List.getElem?_eq_getElem inside, Option.getD_some])
  simp only [FileHeader.byteToSector, FileHeader.dataSectors, index]
  rw [if_pos ⟨by omega, by omega⟩, Int.toNat_natCast, word]

theorem readSector_ok {s : Nat} (bound : s < numSectors) : readSector d s = .ok (d s) := by
  have range : (0 : Int) ≤ s ∧ (s : Int) < numSectors := ⟨by omega, by omega⟩
  simp [readSector, range]

theorem writeSector_ok {s : Nat} {data : Nat → Byte} (bound : s < numSectors) :
    writeSector d s data = .ok (Function.update d s data) := by
  have range : (0 : Int) ≤ s ∧ (s : Int) < numSectors := ⟨by omega, by omega⟩
  simp [writeSector, range]

theorem Describes.getD_lt (describes : Describes h bytes sectors) {j : Nat}
    (inside : j < sectors.length) : sectors.getD j 0 < numSectors := by
  rw [List.getD_eq_getElem?_getD, List.getElem?_eq_getElem inside, Option.getD_some]
  exact describes.bound _ (List.getElem_mem inside)

theorem contents_sector (j : Nat) :
    block (d (sectors.getD j 0)) 0 sectorSize =
    block (contents d sectors) (j * sectorSize) sectorSize := by
  refine List.map_congr_left fun i member => ?_
  have small : i < 128 := List.mem_range.mp member
  have sector : (j * sectorSize + i) / sectorSize = j := by simp only [sectorSize]; omega
  have offset : (j * sectorSize + i) % sectorSize = i := by simp only [sectorSize]; omega
  rw [contents, sector, offset, Nat.zero_add]

theorem Describes.readSectors (describes : Describes h bytes sectors) {a n : Nat}
    (inside : a + n ≤ sectors.length) :
    Disk.readSectors d h a n =
      .ok (block (contents d sectors) (a * sectorSize) (n * sectorSize)) := by
  induction n with
  | zero => simp [Disk.readSectors, block]
  | succ n ih =>
      have sector := describes.byteToSector (j := a + n) (by omega)
      rw [Int.natCast_add] at sector
      rw [Disk.readSectors, ih (by omega), ok_bind, sector, ok_bind,
        readSector_ok (describes.getD_lt (by omega)), ok_bind, contents_sector, Nat.add_mul,
          Nat.add_mul,
        block_add, Nat.one_mul]
      rfl

/-- The sectors of a request that lies inside the file. -/
theorem Describes.lastSector (describes : Describes h bytes sectors) {p n : Nat} (some : 0 < n)
    (inside : p + n ≤ bytes) :
    (p : Int).tdiv sectorSize = ((p / 128 : Nat) : Int) ∧
      ((p : Int) + n - 1).tdiv sectorSize = (((p + n - 1) / 128 : Nat) : Int) ∧
      (p + n - 1) / 128 < sectors.length := by
  have size := describes.size
  have last : (p : Int) + n - 1 = ((p + n - 1 : Nat) : Int) := by omega
  rw [last]
  exact ⟨rfl, rfl, by omega⟩

theorem addInt_ok {a b : Int} (low : 0 ≤ a + b) (high : a + b ≤ maxInt) :
    addInt a b = .ok (a + b) := by
  have bound : -maxInt - 1 ≤ a + b := by
    simp only [maxInt]
    omega
  rw [addInt, if_pos ⟨bound, high⟩]

/-- **`ReadAt` is a slice of the file.** -/
theorem Describes.readAt (describes : Describes h bytes sectors) {p n : Nat} (inside : p < bytes)
    (some : 0 < n) (range : (p : Int) + n ≤ maxInt) :
    Disk.readAt d h n p = .ok (block (contents d sectors) p (min n (bytes - p))) := by
  have length := describes.fileLength (by omega)
  have count : (if (p : Int) + n > bytes then (bytes : Int) - p else n) =
      ((min n (bytes - p) : Nat) : Int) := by
    split <;> omega
  obtain ⟨first, last, fits⟩ := describes.lastSector (p := p) (n := min n (bytes - p))
    (by omega) (by omega)
  unfold Disk.readAt
  rw [length, if_neg (by omega), addInt_ok (by omega) range, ok_bind]
  simp only [count, first, last]
  have sectorsRead :
      (1 + (((p + min n (bytes - p) - 1) / 128 : Nat) : Int) - ((p / 128 : Nat) : Int)).toNat =
      1 + (p + min n (bytes - p) - 1) / 128 - p / 128 := by omega
  have start : ((p : Int) - ((p / 128 : Nat) : Int) * sectorSize) = ((p % 128 : Nat) : Int) := by
    simp only [sectorSize]
    omega
  rw [sectorsRead, describes.readSectors (by omega), ok_bind, start, if_neg (by omega)]
  simp only [Int.toNat_natCast, pure_eq_ok]
  rw [drop_take_block]
  · have here : p / 128 * sectorSize + p % 128 = p := by
      simp only [sectorSize]
      omega
    rw [here]
  · simp only [sectorSize]
    omega

end Reading

section Writing

variable {d d' : Disk} {h : FileHeader} {bytes : Nat} {sectors : List Nat}
  {buf source garbage : Nat → Byte}

/-- The buffer goes to the sectors of the request, and nothing else changes. -/
theorem Describes.writeSectors (describes : Describes h bytes sectors) (buf : Nat → Byte)
    (distinct : sectors.Nodup) {a n : Nat} (inside : a + n ≤ sectors.length) :
    ∃ d', Disk.writeSectors h buf a n d = .ok d' ∧
      (∀ j < n, ∀ k, d' (sectors.getD (a + j) 0) k = buf (j * sectorSize + k)) ∧
      ∀ s, (∀ j < n, s ≠ sectors.getD (a + j) 0) → d' s = d s := by
  induction n with
  | zero => exact ⟨d, rfl, nofun, fun _ _ => rfl⟩
  | succ n ih =>
      obtain ⟨d₁, wrote, written, kept⟩ := ih (by omega)
      have sector := describes.byteToSector (j := a + n) (by omega)
      rw [Int.natCast_add] at sector
      refine ⟨Function.update d₁ (sectors.getD (a + n) 0) fun k =>
        buf (n * sectorSize + k), ?_, ?_, ?_⟩
      · rw [Disk.writeSectors, wrote, ok_bind, sector, ok_bind,
          writeSector_ok (describes.getD_lt (by omega))]
      · intro j before k
        obtain rfl | before : j = n ∨ j < n := by omega
        · rw [Function.update_self]
        · have differ : sectors.getD (a + j) 0 ≠ sectors.getD (a + n) 0 := by
            have first : a + j < sectors.length := by omega
            have second : a + n < sectors.length := by omega
            rw [List.getD_eq_getElem?_getD, List.getD_eq_getElem?_getD,
              List.getElem?_eq_getElem first, List.getElem?_eq_getElem second]
            intro same
            have same := (List.getElem_inj distinct).mp same
            omega
          rw [Function.update_of_ne differ, written j before]
      · intro s other
        rw [Function.update_of_ne (other n (by omega)), kept s fun j before => other j (by omega)]

theorem Describes.bytes_le (describes : Describes h bytes sectors) : bytes ≤ 3840 := by
  have size := describes.size
  have fits := describes.fits
  simp only [numDirect] at fits
  omega

theorem Describes.readAt_sector (describes : Describes h bytes sectors) {j : Nat}
    (inside : j * 128 < bytes) :
    Disk.readAt d h sectorSize ((j : Int) * sectorSize) =
      .ok (block (contents d sectors) (j * 128) (min 128 (bytes - j * 128))) := by
  have small := describes.bytes_le
  have position : (j : Int) * sectorSize = ((j * 128 : Nat) : Int) := by simp [sectorSize]
  rw [position]
  exact describes.readAt inside (by decide) (by simp only [sectorSize, maxInt]; omega)

/-- The old bytes around the request are in the buffer, as far as the file goes. -/
theorem Describes.oldSectors (describes : Describes h bytes sectors) (garbage : Nat → Byte)
    {p n : Nat} (some : 0 < n) (inside : p + n ≤ bytes) :
    ∃ buf, Disk.oldSectors d h n p ((p / 128 : Nat) : Int)
      (((p + n - 1) / 128 : Nat) : Int) garbage =
        .ok buf ∧
      ∀ q < bytes, q / 128 * 128 < p + n → p / 128 * 128 ≤ q → q < p ∨ p + n ≤ q →
        buf (q - p / 128 * 128) = contents d sectors q := by
  have firstRead := describes.readAt_sector (d := d) (j := p / 128) (by omega)
  have lastRead := describes.readAt_sector (d := d) (j := (p + n - 1) / 128) (by omega)
  have firstAligned : ((p : Int) = ((p / 128 : Nat) : Int) * sectorSize) ↔ p = p / 128 * 128 := by
    simp only [sectorSize]
    omega
  have lastAligned : ((p : Int) + n = ((((p + n - 1) / 128 : Nat) : Int) + 1) * sectorSize) ↔
      p + n = ((p + n - 1) / 128 + 1) * 128 := by
    simp only [sectorSize]
    omega
  have same : (((p / 128 : Nat) : Int) ≠ (((p + n - 1) / 128 : Nat) : Int)) ↔
      p / 128 ≠ (p + n - 1) / 128 := by
    omega
  have offset : (((((p + n - 1) / 128 : Nat) : Int) - ((p / 128 : Nat) : Int)) * sectorSize).toNat =
      ((p + n - 1) / 128 - p / 128) * 128 := by
    simp only [sectorSize]
    omega
  unfold Disk.oldSectors
  rw [firstRead, lastRead, offset]
  simp only [firstAligned, lastAligned, same, ok_bind]
  by_cases first : p = p / 128 * 128
  · rw [decide_eq_true first, if_pos rfl]
    simp only [pure_eq_ok, ok_bind, Bool.or_true, Bool.and_true, Bool.not_eq_true',
      decide_eq_false_iff_not]
    split
    · refine ⟨_, rfl, fun q before sector after outside => ?_⟩
      rw [splice_block_at _ _ (by omega) (by omega)]
      congr 1
      omega
    · rename_i last
      refine ⟨_, rfl, fun q before sector after outside => ?_⟩
      omega
  · rw [decide_eq_false first, if_neg (by simp)]
    simp only [pure_eq_ok, ok_bind, Bool.or_false]
    split
    · rename_i partially
      simp only [Bool.and_eq_true, Bool.not_eq_true', decide_eq_false_iff_not,
        decide_eq_true_eq] at partially
      refine ⟨_, rfl, fun q before sector after outside => ?_⟩
      by_cases early : q < p
      · rw [splice_outside _ (.inl (by omega)), splice_block_at _ _ (by omega) (by omega)]
        congr 1
        omega
      · rw [splice_block_at _ _ (by omega) (by omega)]
        congr 1
        omega
    · rename_i whole
      simp only [Bool.and_eq_true, Bool.not_eq_true', decide_eq_false_iff_not,
        decide_eq_true_eq, not_and, not_not] at whole
      refine ⟨_, rfl, fun q before sector after outside => ?_⟩
      have near : q < p / 128 * 128 + 128 := by
        obtain early | late := outside
        · omega
        · have together := whole (by omega)
          omega
      rw [splice_block_at _ _ (by omega) (by omega)]
      congr 1
      omega

/-- The numbers of the sectors that a request touches. -/
def touched (sectors : List Nat) (p n : Nat) : List Nat :=
  if n = 0 then []
  else (List.range ((p + n - 1) / 128 - p / 128 + 1)).map fun j => sectors.getD (p / 128 + j) 0

theorem mem_touched {p n s : Nat} (some : 0 < n) : s ∈ touched sectors p n ↔
    ∃ j < (p + n - 1) / 128 - p / 128 + 1, sectors.getD (p / 128 + j) 0 = s := by
  rw [touched, if_neg (by omega)]
  simp only [List.mem_map, List.mem_range]

theorem Describes.touched_subset (describes : Describes h bytes sectors) {p n s : Nat}
    (inside : p + n ≤ bytes) (member : s ∈ touched sectors p n) : s ∈ sectors := by
  obtain rfl | some := Nat.eq_zero_or_pos n
  · cases member
  obtain ⟨j, bound, same⟩ := (mem_touched some).mp member
  have room := (describes.lastSector some inside).2.2
  have index : p / 128 + j < sectors.length := by omega
  rw [← same, List.getD_eq_getElem?_getD, List.getElem?_eq_getElem index, Option.getD_some]
  exact List.getElem_mem index

/-- The steps of `WriteAt` for a request that starts inside the file. -/
theorem Describes.writeAt_eq (describes : Describes h bytes sectors) {p n m : Nat}
    (inside : p < bytes)
    (some : 0 < n) (range : (p : Int) + n ≤ maxInt) (written : min n (bytes - p) = m) :
    Disk.writeAt d h source n p garbage =
      (Disk.oldSectors d h m p ((p / 128 : Nat) : Int) (((p + m - 1) / 128 : Nat) : Int) garbage
        >>= fun buf =>
        Disk.writeSectors h (splice buf (p % 128) (block source 0 m)) ((p / 128 : Nat) : Int)
          ((p + m - 1) / 128 - p / 128 + 1) d >>= fun d' => .ok ((m : Int), d')) := by
  have length := describes.fileLength (by omega)
  have count : (if (p : Int) + n > bytes then (bytes : Int) - p else n) = (m : Int) := by
    split <;> omega
  obtain ⟨first, last, room⟩ := describes.lastSector (p := p) (n := m) (by omega) (by omega)
  have sectorsWritten : (1 + (((p + m - 1) / 128 : Nat) : Int) - ((p / 128 : Nat) : Int)).toNat =
      (p + m - 1) / 128 - p / 128 + 1 := by omega
  have start : ((p : Int) - ((p / 128 : Nat) : Int) * sectorSize) = ((p % 128 : Nat) : Int) := by
    simp only [sectorSize]
    omega
  unfold Disk.writeAt
  rw [length, if_neg (by omega), addInt_ok (by omega) range, ok_bind]
  simp only [count, first, last, sectorsWritten, start, Int.toNat_natCast]
  refine congrArg _ (funext fun buf => ?_)
  rw [if_neg (by omega)]
  rfl

/-- **`WriteAt` is a splice into the file**, and touches no sector but those of the request. -/
theorem Describes.writeAt (describes : Describes h bytes sectors) (source garbage : Nat → Byte)
    (distinct : sectors.Nodup) {p n : Nat} (inside : p < bytes) (some : 0 < n)
    (range : (p : Int) + n ≤ maxInt) :
    ∃ d', Disk.writeAt d h source n p garbage = .ok ((min n (bytes - p) : Nat), d') ∧
      (∀ q < bytes, contents d' sectors q =
        splice (contents d sectors) p (block source 0 (min n (bytes - p))) q) ∧
      ∀ s, s ∉ touched sectors p (min n (bytes - p)) → d' s = d s := by
  generalize written : min n (bytes - p) = m
  have fits : p + m ≤ bytes := by omega
  have room := (describes.lastSector (p := p) (n := m) (by omega) fits).2.2
  obtain ⟨buf, old, around⟩ := describes.oldSectors (d := d) garbage (p := p) (n := m)
    (by omega) fits
  obtain ⟨d', wrote, here, elsewhere⟩ := describes.writeSectors (d := d)
    (splice buf (p % 128) (block source 0 m)) distinct
    (a := p / 128) (n := (p + m - 1) / 128 - p / 128 + 1) (by omega)
  refine ⟨d', ?_, ?_, ?_⟩
  · rw [describes.writeAt_eq inside some range written, old, ok_bind, wrote, ok_bind]
  · intro q before
    have sector : q / sectorSize = q / 128 := rfl
    by_cases untouched : q / 128 < p / 128 ∨ (p + m - 1) / 128 < q / 128
    · rw [splice_outside _ (by rw [length_block]; omega), contents, contents, elsewhere]
      intro j inside same
      have there : q / 128 < sectors.length := by
        have size := describes.size
        omega
      have other : p / 128 + j < sectors.length := by omega
      rw [sector, List.getD_eq_getElem?_getD, List.getD_eq_getElem?_getD,
        List.getElem?_eq_getElem there, List.getElem?_eq_getElem other] at same
      have same := (List.getElem_inj distinct).mp same
      omega
    · have index : q / sectorSize = p / 128 + (q / 128 - p / 128) := by
        rw [sector]
        omega
      have place : (q / 128 - p / 128) * sectorSize + q % sectorSize = q - p / 128 * 128 := by
        simp only [sectorSize]
        omega
      rw [contents, index, here (q / 128 - p / 128) (by omega), place]
      by_cases inside : p ≤ q ∧ q < p + m
      · rw [splice_block_at _ _ (by omega) (by omega), splice_block_at _ _ (by omega) (by omega)]
        congr 1
        omega
      · rw [splice_outside _ (by rw [length_block]; omega),
          splice_outside _ (by rw [length_block]; omega)]
        exact around q before (by omega) (by omega) (by omega)
  · intro s other
    refine elsewhere s fun j inside same => other ?_
    exact (mem_touched (by omega)).mpr ⟨j, inside, same.symm⟩

end Writing

/-! ## Requests -/

/-- A request that is refused at once, or starts inside the file and ends at an `int`. -/
def InRange (h : FileHeader) (numBytes position : Int) : Prop :=
  numBytes ≤ 0 ∨ h.fileLength ≤ position ∨ 0 ≤ position ∧ position + numBytes ≤ maxInt

instance (h : FileHeader) (numBytes position : Int) : Decidable (InRange h numBytes position) :=
  inferInstanceAs (Decidable (_ ∨ _ ∨ _ ∧ _))

section Requests

variable {d d' : Disk} {h : FileHeader} {bytes : Nat} {sectors : List Nat}
  {source garbage : Nat → Byte} {n p : Int}

/-- The bytes of a request that are in the file. -/
def transferred (bytes : Nat) (n p : Int) : Nat := min n.toNat (bytes - p.toNat)

/-- A request transfers nothing, or it is one for a part of the file. -/
theorem Describes.request (describes : Describes h bytes sectors) (range : InRange h n p) :
    ((n ≤ 0 ∨ p ≥ h.fileLength) ∧ transferred bytes n p = 0) ∨
      ∃ n' p' : Nat, n = n' ∧ p = p' ∧ p' < bytes ∧ 0 < n' ∧ (p' : Int) + n' ≤ maxInt := by
  have length := describes.length
  have same : h.fileLength = (h 0).toInt := rfl
  by_cases nothing : n ≤ 0 ∨ p ≥ h.fileLength
  · refine .inl ⟨nothing, ?_⟩
    rw [transferred]
    omega
  · obtain first | late | ⟨low, high⟩ := range
    · exact absurd (.inl first) nothing
    · exact absurd (.inr late) nothing
    · exact .inr ⟨n.toNat, p.toNat, by omega, by omega, by omega, by omega, by omega⟩

theorem Describes.touched_request (describes : Describes h bytes sectors)
    (range : InRange h n p) {s : Nat}
    (member : s ∈ touched sectors p.toNat (transferred bytes n p)) : s ∈ sectors := by
  obtain ⟨-, none⟩ | ⟨n', p', rfl, rfl, inside, some, high⟩ := describes.request range
  · rw [none] at member
    cases member
  · refine describes.touched_subset ?_ member
    rw [transferred]
    omega

theorem Describes.read (describes : Describes h bytes sectors) (range : InRange h n p) :
    Disk.readAt d h n p = .ok (block (contents d sectors) p.toNat (transferred bytes n p)) := by
  obtain ⟨nothing, none⟩ | ⟨n', p', rfl, rfl, inside, some, high⟩ := describes.request range
  · rw [none, Disk.readAt, if_pos nothing]
    rfl
  · exact describes.readAt inside some high

theorem Describes.write (describes : Describes h bytes sectors) (source garbage : Nat → Byte)
    (distinct : sectors.Nodup) (range : InRange h n p) :
    ∃ d', Disk.writeAt d h source n p garbage = .ok ((transferred bytes n p : Nat), d') ∧
      (∀ q < bytes, contents d' sectors q =
        splice (contents d sectors) p.toNat (block source 0 (transferred bytes n p)) q) ∧
      ∀ s, s ∉ touched sectors p.toNat (transferred bytes n p) → d' s = d s := by
  obtain ⟨nothing, none⟩ | ⟨n', p', rfl, rfl, inside, some, high⟩ := describes.request range
  · refine ⟨d, ?_, fun q _ => ?_, fun _ _ => rfl⟩
    · rw [none, Disk.writeAt, if_pos nothing]
      rfl
    · rw [none, splice_outside _ (by simp; omega)]
  · exact describes.writeAt source garbage distinct inside some high

theorem readSectors_negative {a : Int} (negative : a < 0) (k : Nat) :
    ∃ e, readSectors d h a (k + 1) = .error e := by
  induction k with
  | zero =>
      have index : ((a + (0 : Nat)) * sectorSize).tdiv sectorSize = a := by
        rw [Int.natCast_zero, Int.add_zero]
        exact Int.mul_tdiv_cancel a (by decide)
      refine ⟨.outOfBounds, ?_⟩
      rw [readSectors, readSectors, pure_eq_ok, ok_bind, FileHeader.byteToSector,
        FileHeader.dataSectors, index, if_neg (by omega)]
      rfl
  | succ k ih =>
      obtain ⟨e, stops⟩ := ih
      exact ⟨e, by rw [readSectors, stops]; rfl⟩

theorem writeSectors_negative (buf : Nat → Byte) {a : Int} (negative : a < 0) (k : Nat) :
    ∃ e, writeSectors h buf a (k + 1) d = .error e := by
  induction k with
  | zero =>
      have index : ((a + (0 : Nat)) * sectorSize).tdiv sectorSize = a := by
        rw [Int.natCast_zero, Int.add_zero]
        exact Int.mul_tdiv_cancel a (by decide)
      refine ⟨.outOfBounds, ?_⟩
      rw [writeSectors, writeSectors, pure_eq_ok, ok_bind, FileHeader.byteToSector,
        FileHeader.dataSectors, index, if_neg (by omega)]
      rfl
  | succ k ih =>
      obtain ⟨e, stops⟩ := ih
      exact ⟨e, by rw [writeSectors, stops]; rfl⟩

/-- The first sector of a request that starts before the file. -/
theorem first_negative (before : p < 0) :
    p.tdiv sectorSize < 0 ∨ p.tdiv sectorSize = 0 := by
  have order : p.tdiv sectorSize ≤ (0 : Int).tdiv sectorSize :=
    Int.tdiv_le_tdiv (by decide) (by omega)
  rw [Int.zero_tdiv] at order
  omega

theorem numSectors_pos (some : 0 < n) :
    ∃ k, (1 + (p + n - 1).tdiv sectorSize - p.tdiv sectorSize).toNat = k + 1 := by
  have order : p.tdiv sectorSize ≤ (p + n - 1).tdiv sectorSize :=
    Int.tdiv_le_tdiv (by decide) (by omega)
  exact ⟨((p + n - 1).tdiv sectorSize - p.tdiv sectorSize).toNat, by omega⟩

theorem contents_touched {m q : Nat} (some : 0 < m) (low : p.toNat / 128 ≤ q / 128)
    (high : q / 128 ≤ (p.toNat + m - 1) / 128)
    (same : ∀ s ∈ touched sectors p.toNat m, d' s = d s) :
    contents d' sectors q = contents d sectors q := by
  have sector : q / sectorSize = p.toNat / 128 + (q / 128 - p.toNat / 128) := by
    simp only [sectorSize]
    omega
  rw [contents, contents, same _ ((mem_touched some).mpr ⟨q / 128 - p.toNat / 128, by omega, ?_⟩)]
  rw [sector]

/-- A read depends on no sector but those of the request. -/
theorem Describes.read_congr (describes : Describes h bytes sectors) (range : InRange h n p)
    (same : ∀ s ∈ touched sectors p.toNat (transferred bytes n p), d' s = d s) :
    Disk.readAt d' h n p = Disk.readAt d h n p := by
  rw [describes.read range, describes.read range]
  refine congrArg _ (List.map_congr_left fun k member => ?_)
  have inside := List.mem_range.mp member
  exact contents_touched (by omega) (by omega) (by omega) same

/-- And so does what a write leaves there. -/
theorem Describes.write_congr (describes : Describes h bytes sectors) (distinct : sectors.Nodup)
    (range : InRange h n p)
    (same : ∀ s ∈ touched sectors p.toNat (transferred bytes n p), d' s = d s)
    {count : Int} {e : Disk} (wrote : Disk.writeAt d h source n p garbage = .ok (count, e)) :
    ∃ e', Disk.writeAt d' h source n p garbage = .ok (count, e') ∧
      ∀ s ∈ touched sectors p.toNat (transferred bytes n p), e' s = e s := by
  obtain ⟨nothing, none⟩ | ⟨n', p', rfl, rfl, inside, some, high⟩ := describes.request range
  · rw [Disk.writeAt, if_pos nothing] at wrote ⊢
    obtain ⟨rfl, rfl⟩ := Prod.mk.inj (Except.ok.inj wrote)
    exact ⟨d', rfl, same⟩
  · generalize written : transferred bytes n' p' = m at same ⊢
    have written : min n' (bytes - p') = m := written
    have fits : p' + m ≤ bytes := by omega
    rw [Int.toNat_natCast] at same ⊢
    have room := (describes.lastSector (p := p') (n := m) (by omega) fits).2.2
    -- the old bytes of the first and of the last sector are the same
    have old : Disk.oldSectors d' h m p' ((p' / 128 : Nat) : Int)
        (((p' + m - 1) / 128 : Nat) : Int) garbage =
        Disk.oldSectors d h m p' ((p' / 128 : Nat) : Int)
          (((p' + m - 1) / 128 : Nat) : Int) garbage := by
      have block_same : ∀ j, p' / 128 ≤ j → j ≤ (p' + m - 1) / 128 →
          Disk.readAt d' h sectorSize ((j : Int) * sectorSize) =
            Disk.readAt d h sectorSize ((j : Int) * sectorSize) := by
        intro j low high
        rw [describes.readAt_sector (by omega), describes.readAt_sector (by omega)]
        refine congrArg _ (List.map_congr_left fun k member => ?_)
        have inside := List.mem_range.mp member
        exact contents_touched (p := p') (m := m) (by omega) (by simp; omega) (by simp; omega) same
      unfold Disk.oldSectors
      rw [block_same _ (Nat.le_refl _) (by omega), block_same _ (by omega) (Nat.le_refl _)]
    rw [describes.writeAt_eq inside some high written] at wrote ⊢
    rw [old]
    obtain ⟨buf, bufOk, wrote⟩ := bind_eq_ok.mp wrote
    obtain ⟨e₁, wrote₁, rest⟩ := bind_eq_ok.mp wrote
    obtain ⟨rfl, rfl⟩ := Prod.mk.inj (Except.ok.inj rest)
    obtain ⟨e₂, wrote₂, here₂, -⟩ := describes.writeSectors (d := d)
      (splice buf (p' % 128) (block source 0 m)) distinct
      (a := p' / 128) (n := (p' + m - 1) / 128 - p' / 128 + 1) (by omega)
    obtain ⟨e₃, wrote₃, here₃, -⟩ := describes.writeSectors (d := d')
      (splice buf (p' % 128) (block source 0 m)) distinct
      (a := p' / 128) (n := (p' + m - 1) / 128 - p' / 128 + 1) (by omega)
    rw [wrote₁] at wrote₂
    obtain rfl := Except.ok.inj wrote₂
    refine ⟨e₃, by rw [bufOk, ok_bind, wrote₃, ok_bind], fun s member => ?_⟩
    obtain ⟨j, bound, rfl⟩ := (mem_touched (by omega)).mp member
    exact funext fun k => (here₃ j bound k).trans (here₂ j bound k).symm

/-- A request out of range that passes the check is undefined. -/
theorem readAt_outside (outside : ¬ InRange h n p) : ∃ e, Disk.readAt d h n p = .error e := by
  simp only [InRange, not_or, not_and, Int.not_le] at outside
  obtain ⟨some, early, high⟩ := outside
  unfold Disk.readAt
  rw [if_neg (by omega), addInt]
  split
  · rename_i sum
    have before : p < 0 := by
      by_contra low
      have := high (by omega)
      omega
    rw [ok_bind]
    generalize count : (if p + n > h.fileLength then h.fileLength - p else n) = m
    have some : 0 < m := by
      rw [← count]
      split <;> omega
    obtain ⟨k, sectorsRead⟩ := numSectors_pos (p := p) some
    simp only [sectorsRead]
    obtain negative | zero := first_negative before
    · obtain ⟨e, stops⟩ := readSectors_negative (d := d) (h := h) negative k
      exact ⟨e, by rw [stops]; rfl⟩
    · cases readSectors d h (p.tdiv sectorSize) (k + 1) with
      | error e => exact ⟨e, rfl⟩
      | ok buf =>
          refine ⟨.outOfBounds, ?_⟩
          rw [ok_bind, zero, if_pos (by omega)]
          rfl
  · exact ⟨.overflow, rfl⟩

theorem writeAt_outside (source garbage : Nat → Byte) (outside : ¬ InRange h n p) :
    ∃ e, Disk.writeAt d h source n p garbage = .error e := by
  simp only [InRange, not_or, not_and, Int.not_le] at outside
  obtain ⟨some, early, high⟩ := outside
  unfold Disk.writeAt
  rw [if_neg (by omega), addInt]
  split
  · rename_i sum
    have before : p < 0 := by
      by_contra low
      have := high (by omega)
      omega
    rw [ok_bind]
    generalize count : (if p + n > h.fileLength then h.fileLength - p else n) = m
    have some : 0 < m := by
      rw [← count]
      split <;> omega
    obtain ⟨k, sectorsWritten⟩ := numSectors_pos (p := p) some
    simp only [sectorsWritten]
    cases oldSectors d h m p (p.tdiv sectorSize) ((p + m - 1).tdiv sectorSize) garbage with
    | error e => exact ⟨e, rfl⟩
    | ok buf =>
        rw [ok_bind]
        split
        · exact ⟨.outOfBounds, rfl⟩
        · rename_i start
          obtain negative | zero := first_negative before
          · obtain ⟨e, stops⟩ := writeSectors_negative (d := d) (h := h)
              (splice buf (p - p.tdiv sectorSize * sectorSize).toNat (block source 0 m.toNat))
                negative k
            exact ⟨e, by rw [stops]; rfl⟩
          · rw [zero] at start
            omega
  · exact ⟨.overflow, rfl⟩

end Requests

end Nachos.Disk
