/-
# Nachos.FileSys.Transfer -- every index of `ReadAt` and `WriteAt`, for every `int`

The two calls once more, with what the previous model leaves out: `int` arithmetic wraps round,
the sector buffer and the caller's array have a size, and every copy is checked against it.  A
copy outside of an array stops the model, so a call that returns has kept inside.

* `Describes.wrapped_readAt`, `Describes.wrapped_writeAt`: on a request in range nothing wraps and
  no check fails, and the two models agree.
* `transfers_exact`: what such a request transfers, in terms of the header alone.
* `transfers_iff`: through `Seek`, `Read` and `Write`, the right number of bytes is transferred on
  requests in range and on no others.
-/
import Nachos.FileSys.FreeMap

namespace Nachos.Disk

open Nachos.Lib.Bytes

set_option autoImplicit false

/-- The `int` that a result wraps round to. -/
def wrap (k : Int) : Int := (BitVec.ofInt 32 k).toInt

/-- An array of bytes, of the heap or of the caller. -/
structure Buffer where
  size : Nat
  bytes : Nat → Byte

namespace Buffer

/-- `new char[size]`; the host has no array of a negative size. -/
def create (size : Int) (garbage : Nat → Byte) : Except Stop Buffer :=
  if 0 ≤ size then .ok ⟨size.toNat, garbage⟩ else .error .hostFault

/-- Some bytes are copied to `&buf[index]`. -/
def copyTo (buf : Buffer) (index : Int) (data : List Byte) : Except Stop Buffer :=
  if 0 ≤ index ∧ index + data.length ≤ buf.size then
    .ok { buf with bytes := splice buf.bytes index.toNat data }
  else .error .outOfBounds

/-- `count` bytes are copied from `&buf[index]`. -/
def copyFrom (buf : Buffer) (index count : Int) : Except Stop (List Byte) :=
  if 0 ≤ index ∧ 0 ≤ count ∧ index + count ≤ buf.size then
    .ok (block buf.bytes index.toNat count.toNat)
  else .error .outOfBounds

/-- The sector at `&buf[n * SectorSize]`. -/
def sector (buf : Buffer) (n : Nat) : Except Stop (Nat → Byte) :=
  if (n + 1) * sectorSize ≤ buf.size then .ok fun k => buf.bytes (n * sectorSize + k)
  else .error .outOfBounds

end Buffer

namespace Wrapped

/-- The loop of `ReadAt`: `n` sectors from `firstSector` on.  No product wraps: a sector number is
an `int` divided by `SectorSize`, and a table index ends the loop long before `i - firstSector`
is large. -/
def readSectors (d : Disk) (h : FileHeader) (firstSector : Int) : Nat → Buffer → Except Stop Buffer
  | 0, buf => return buf
  | n + 1, buf => do
      let buf ← readSectors d h firstSector n buf
      let data ← readSector d (← h.byteToSector ((firstSector + n) * sectorSize))
      buf.copyTo (n * sectorSize) (block data 0 sectorSize)

/-- `OpenFile::ReadAt`: the bytes that are copied to `into`, an array of `numBytes`. -/
def readAt (d : Disk) (h : FileHeader) (numBytes position : Int) (garbage : Nat → Byte) :
    Except Stop (List Byte) := do
  if numBytes ≤ 0 ∨ position ≥ h.fileLength then return []
  let count :=
    if wrap (position + numBytes) > h.fileLength then wrap (h.fileLength - position) else numBytes
  let firstSector := position.tdiv sectorSize
  let lastSector := (wrap (position + count - 1)).tdiv sectorSize
  let numSectors := 1 + lastSector - firstSector
  let buf ← Buffer.create (wrap (numSectors * sectorSize)) garbage
  let buf ← readSectors d h firstSector numSectors.toNat buf
  let data ← buf.copyFrom (position - firstSector * sectorSize) count
  if numBytes < data.length then throw .outOfBounds
  return data

/-- The loop of `WriteAt`: `n` sectors from `firstSector` on. -/
def writeSectors (h : FileHeader) (buf : Buffer) (firstSector : Int) : Nat → Disk → Except Stop Disk
  | 0, d => return d
  | n + 1, d => do
      let d ← writeSectors h buf firstSector n d
      let sector ← h.byteToSector ((firstSector + n) * sectorSize)
      writeSector d sector (← buf.sector n)

/-- The first and the last sector are read if they are to be partially modified. -/
def oldSectors (d : Disk) (h : FileHeader) (count position firstSector lastSector : Int)
    (fresh : Nat → Nat → Byte) (buf : Buffer) : Except Stop Buffer := do
  let firstAligned := decide (position = firstSector * sectorSize)
  let lastAligned := decide (wrap (position + count) = wrap ((lastSector + 1) * sectorSize))
  let buf ←
    if firstAligned then pure buf
    else do buf.copyTo 0 (← readAt d h sectorSize (firstSector * sectorSize) (fresh 1))
  if !lastAligned && (decide (firstSector ≠ lastSector) || firstAligned) then do
    buf.copyTo ((lastSector - firstSector) * sectorSize)
      (← readAt d h sectorSize (lastSector * sectorSize) (fresh 2))
  else return buf

/-- `OpenFile::WriteAt`, from an array of `numBytes`. -/
def writeAt (d : Disk) (h : FileHeader) (source : Nat → Byte) (numBytes position : Int)
    (fresh : Nat → Nat → Byte) : Except Stop (Int × Disk) := do
  if numBytes ≤ 0 ∨ position ≥ h.fileLength then return (0, d)
  let count :=
    if wrap (position + numBytes) > h.fileLength then wrap (h.fileLength - position) else numBytes
  let firstSector := position.tdiv sectorSize
  let lastSector := (wrap (position + count - 1)).tdiv sectorSize
  let numSectors := 1 + lastSector - firstSector
  let buf ← Buffer.create (wrap (numSectors * sectorSize)) (fresh 0)
  let buf ← oldSectors d h count position firstSector lastSector fresh buf
  let data ← Buffer.copyFrom ⟨numBytes.toNat, source⟩ 0 count
  let buf ← buf.copyTo (position - firstSector * sectorSize) data
  let d ← writeSectors h buf firstSector numSectors.toNat d
  return (count, d)

end Wrapped

/-- An `OpenFile`. -/
structure OpenFile where
  hdr : FileHeader
  seekPosition : Int

namespace OpenFile

/-- `OpenFile::OpenFile`, once the header has been fetched. -/
def create (hdr : FileHeader) : OpenFile := ⟨hdr, 0⟩

/-- `OpenFile::Seek`. -/
def seek (f : OpenFile) (position : Int) : OpenFile := { f with seekPosition := position }

/-- `OpenFile::Read`. -/
def read (f : OpenFile) (d : Disk) (numBytes : Int) (garbage : Nat → Byte) :
    Except Stop (List Byte × OpenFile) := do
  let data ← Wrapped.readAt d f.hdr numBytes f.seekPosition garbage
  return (data, { f with seekPosition := wrap (f.seekPosition + data.length) })

/-- `OpenFile::Write`. -/
def write (f : OpenFile) (d : Disk) (source : Nat → Byte) (numBytes : Int)
    (fresh : Nat → Nat → Byte) :
    Except Stop (Int × OpenFile × Disk) := do
  let (result, d) ← Wrapped.writeAt d f.hdr source numBytes f.seekPosition fresh
  return (result, { f with seekPosition := wrap (f.seekPosition + result) }, d)

end OpenFile

/-! ## Requests in range -/

section Agreement

variable {d : Disk} {h : FileHeader} {bytes : Nat} {sectors : List Nat}
  {garbage source : Nat → Byte} {fresh : Nat → Nat → Byte} {buf : Buffer}

theorem wrap_eq {k : Int} (low : -maxInt - 1 ≤ k) (high : k ≤ maxInt) : wrap k = k :=
    toInt_ofInt low high

theorem wrap_natCast {k : Nat} (small : k < 2 ^ 31) : wrap k = k :=
  wrap_eq (by simp only [maxInt]; omega) (by simp only [maxInt]; omega)

theorem Buffer.create_natCast {size : Int} {k : Nat} (same : size = k) :
    Buffer.create size garbage = .ok ⟨k, garbage⟩ := by
  rw [Buffer.create, same, if_pos (by omega), Int.toNat_natCast]

theorem Buffer.copyTo_natCast {index : Int} {k : Nat} {data : List Byte} (same : index = k)
    (fits : k + data.length ≤ buf.size) :
    buf.copyTo index data = .ok { buf with bytes := splice buf.bytes k data } := by
  rw [Buffer.copyTo, same, if_pos ⟨by omega, by omega⟩, Int.toNat_natCast]

theorem Buffer.copyFrom_natCast {index count : Int} {k n : Nat} (same : index = k)
    (size : count = n)
    (fits : k + n ≤ buf.size) : buf.copyFrom index count = .ok (block buf.bytes k n) := by
  rw [Buffer.copyFrom, same, size, if_pos ⟨by omega, by omega, by omega⟩, Int.toNat_natCast,
    Int.toNat_natCast]

/-- The loop of `ReadAt` fills the buffer from its start. -/
theorem Describes.wrapped_readSectors (describes : Describes h bytes sectors) {a n : Nat}
    (inside : a + n ≤ sectors.length) (room : n * sectorSize ≤ buf.size) :
    Wrapped.readSectors d h a n buf = .ok { buf with
      bytes := splice buf.bytes 0
        (block (contents d sectors) (a * sectorSize) (n * sectorSize)) } := by
  induction n with
  | zero =>
      have same : splice buf.bytes 0 [] = buf.bytes := funext fun i => splice_outside _ (by simp)
      rw [Wrapped.readSectors, Nat.zero_mul, block, List.range_zero, List.map_nil, same]
      rfl
  | succ n ih =>
      have sector := describes.byteToSector (j := a + n) (by omega)
      rw [Int.natCast_add] at sector
      rw [Nat.add_mul, Nat.one_mul] at room
      rw [Wrapped.readSectors, ih (by omega) (by omega), ok_bind, sector, ok_bind,
        readSector_ok (describes.getD_lt (by omega)), ok_bind, contents_sector, Nat.add_mul,
          Nat.add_mul,
        Nat.one_mul, block_add,
        Buffer.copyTo_natCast (k := n * sectorSize) (by push_cast; rfl)
          (by rw [length_block]; exact room)]
      congr 2
      rw [← splice_append, length_block, Nat.zero_add]

/-- The numbers of a request for `n` bytes from `p` on, of which `m` are in the file. -/
structure Numbers (bytes p n m : Nat) : Prop where
  count : (if wrap ((p : Int) + n) > bytes then wrap ((bytes : Int) - p) else (n : Int)) = (m : Int)
  last : (wrap ((p : Int) + m - 1)).tdiv sectorSize = (((p + m - 1) / 128 : Nat) : Int)
  sectors : 1 + (((p + m - 1) / 128 : Nat) : Int) - ((p / 128 : Nat) : Int) =
    (((p + m - 1) / 128 - p / 128 + 1 : Nat) : Int)
  size : wrap ((((p + m - 1) / 128 - p / 128 + 1 : Nat) : Int) * sectorSize) =
    ((((p + m - 1) / 128 - p / 128 + 1) * sectorSize : Nat) : Int)
  start : (p : Int) - ((p / 128 : Nat) : Int) * sectorSize = ((p % 128 : Nat) : Int)

theorem numbers {p n m : Nat} (inside : p < bytes) (small : bytes ≤ 3840) (some : 0 < n)
    (range : (p : Int) + n ≤ maxInt) (transferred : min n (bytes - p) = m) :
    Numbers bytes p n m := by
  simp only [maxInt] at range
  have last : (p : Int) + m - 1 = ((p + m - 1 : Nat) : Int) := by omega
  have size : (((p + m - 1) / 128 - p / 128 + 1 : Nat) : Int) * sectorSize =
      ((((p + m - 1) / 128 - p / 128 + 1) * sectorSize : Nat) : Int) := by push_cast; rfl
  refine ⟨?_, ?_, by omega, ?_, by simp only [sectorSize]; omega⟩
  · rw [← Int.natCast_add, wrap_natCast (by omega), ← Int.natCast_sub (by omega),
      wrap_natCast (by omega)]
    split <;> omega
  · rw [last, wrap_natCast (by omega)]
    rfl
  · rw [size, wrap_natCast (by simp only [sectorSize]; omega)]

/-- **On a request in range nothing of `ReadAt` wraps or leaves an array.** -/
theorem Describes.wrapped_readAt (describes : Describes h bytes sectors)
    (garbage : Nat → Byte) {p n : Nat}
    (inside : p < bytes) (some : 0 < n) (range : (p : Int) + n ≤ maxInt) :
    Wrapped.readAt d h n p garbage = .ok (block (contents d sectors) p (min n (bytes - p))) := by
  generalize transferred : min n (bytes - p) = m
  have length := describes.fileLength (by omega)
  have numbers := numbers inside describes.bytes_le some range transferred
  have room := (describes.lastSector (p := p) (n := m) (by omega) (by omega)).2.2
  have first : (p : Int).tdiv sectorSize = ((p / 128 : Nat) : Int) := rfl
  unfold Wrapped.readAt
  rw [length, if_neg (by omega)]
  simp only [numbers.count, first, numbers.last, numbers.sectors, numbers.size, numbers.start,
    Int.toNat_natCast]
  rw [Buffer.create_natCast rfl, ok_bind, describes.wrapped_readSectors (by omega)
    (by simp), ok_bind,
    Buffer.copyFrom_natCast rfl rfl (by simp only [sectorSize]; omega), ok_bind, length_block,
      if_neg (by omega)]
  have here : block (splice garbage 0 (block (contents d sectors) (p / 128 * sectorSize)
      (((p + m - 1) / 128 - p / 128 + 1) * sectorSize))) (p % 128) m =
        block (contents d sectors) p m := by
    refine List.map_congr_left fun i member => ?_
    have small := List.mem_range.mp member
    rw [splice_block_at _ _ (by omega) (by simp only [sectorSize]; omega)]
    congr 1
    simp only [sectorSize]
    omega
  rw [here]
  rfl

theorem Describes.wrapped_readAt_sector (describes : Describes h bytes sectors)
    (garbage : Nat → Byte) {j : Nat} (inside : j * 128 < bytes) :
    Wrapped.readAt d h sectorSize ((j : Int) * sectorSize) garbage =
      Disk.readAt d h sectorSize ((j : Int) * sectorSize) := by
  have small := describes.bytes_le
  have position : (j : Int) * sectorSize = ((j * 128 : Nat) : Int) := by simp [sectorSize]
  have range : ((j * 128 : Nat) : Int) + sectorSize ≤ maxInt := by
    simp only [sectorSize, maxInt]
    omega
  rw [position, describes.wrapped_readAt garbage inside (by decide) range,
    describes.readAt inside (by decide) range]

theorem Describes.wrapped_oldSectors (describes : Describes h bytes sectors)
    (fresh : Nat → Nat → Byte) {p m : Nat} (some : 0 < m) (inside : p + m ≤ bytes)
    (room : ((p + m - 1) / 128 - p / 128 + 1) * sectorSize ≤ buf.size) :
    Wrapped.oldSectors d h m p ((p / 128 : Nat) : Int) (((p + m - 1) / 128 : Nat) : Int) fresh buf =
      (Disk.oldSectors d h m p ((p / 128 : Nat) : Int)
        (((p + m - 1) / 128 : Nat) : Int) buf.bytes).map
        fun old => { buf with bytes := old } := by
  have small := describes.bytes_le
  have firstRead := describes.readAt_sector (d := d) (j := p / 128) (by omega)
  have lastRead := describes.readAt_sector (d := d) (j := (p + m - 1) / 128) (by omega)
  have index : ((((p + m - 1) / 128 : Nat) : Int) - ((p / 128 : Nat) : Int)) * sectorSize =
      ((((p + m - 1) / 128 - p / 128) * sectorSize : Nat) : Int) := by
    simp only [sectorSize]
    omega
  have past : wrap ((p : Int) + m) = (p : Int) + m := by
    rw [← Int.natCast_add]
    exact wrap_natCast (by omega)
  have next : wrap (((((p + m - 1) / 128 : Nat) : Int) + 1) * sectorSize) =
      ((((p + m - 1) / 128 : Nat) : Int) + 1) * sectorSize := by
    refine wrap_eq ?_ ?_ <;> simp only [maxInt, sectorSize] <;> omega
  simp only [sectorSize] at room
  unfold Wrapped.oldSectors Disk.oldSectors
  rw [describes.wrapped_readAt_sector (fresh 1) (by omega), describes.wrapped_readAt_sector
    (fresh 2) (by omega), past, next, firstRead, lastRead, index]
  simp only [ok_bind, Int.toNat_natCast]
  -- the buffer holds every sector of the request, so that neither copy fails
  split
  · simp only [pure_eq_ok, ok_bind]
    split
    · rw [Buffer.copyTo_natCast rfl (by rw [length_block]; simp only [sectorSize]; omega)]
      rfl
    · rfl
  · rw [Buffer.copyTo_natCast (show (0 : Int) = (0 : Nat) from rfl) (by rw [length_block]; omega)]
    simp only [pure_eq_ok, ok_bind]
    split
    · rw [Buffer.copyTo_natCast rfl (by rw [length_block]; simp only [sectorSize]; omega)]
      rfl
    · rfl

theorem wrapped_writeSectors {a : Int} {n : Nat} (room : n * sectorSize ≤ buf.size) :
    Wrapped.writeSectors h buf a n d = Disk.writeSectors h buf.bytes a n d := by
  induction n with
  | zero => rfl
  | succ n ih =>
      have before : n * sectorSize ≤ buf.size := by
        rw [Nat.add_mul] at room
        omega
      rw [Wrapped.writeSectors, Disk.writeSectors, ih before, Buffer.sector, if_pos room]
      rfl

/-- **On a request in range nothing of `WriteAt` wraps or leaves an array.** -/
theorem Describes.wrapped_writeAt (describes : Describes h bytes sectors) (source : Nat → Byte)
    (fresh : Nat → Nat → Byte) {p n : Nat} (inside : p < bytes) (some : 0 < n)
    (range : (p : Int) + n ≤ maxInt) :
    Wrapped.writeAt d h source n p fresh = Disk.writeAt d h source n p (fresh 0) := by
  obtain ⟨m, transferred⟩ : ∃ m, min n (bytes - p) = m := ⟨_, rfl⟩
  have length := describes.fileLength (by omega)
  have numbers := numbers inside describes.bytes_le some range transferred
  have first : (p : Int).tdiv sectorSize = ((p / 128 : Nat) : Int) := rfl
  rw [describes.writeAt_eq inside some range transferred]
  unfold Wrapped.writeAt
  rw [length, if_neg (by omega)]
  simp only [numbers.count, first, numbers.last, numbers.sectors, numbers.size, numbers.start,
    Int.toNat_natCast]
  rw [Buffer.create_natCast rfl, ok_bind, describes.wrapped_oldSectors fresh (by omega) (by omega)
    (Nat.le_refl _)]
  cases Disk.oldSectors d h m p ((p / 128 : Nat) : Int) (((p + m - 1) / 128 : Nat) : Int)
    (fresh 0) with
  | error e => rfl
  | ok old =>
      simp only [Except.map, ok_bind]
      rw [Buffer.copyFrom_natCast (show (0 : Int) = (0 : Nat) from rfl) rfl
        (by simp only; omega), ok_bind,
        Buffer.copyTo_natCast rfl (by rw [length_block]; simp only [sectorSize]; omega), ok_bind,
        wrapped_writeSectors (Nat.le_refl _)]
      rfl

end Agreement

/-! ## Headers -/

namespace FileHeader

/-- The part of `dataSectors` that the file uses. -/
def sectors (h : FileHeader) : List Int := (List.range h.numSectors.toNat).map fun j =>
    (h (2 + j)).toInt

/-- A byte of the file. -/
def byteAt (h : FileHeader) (d : Disk) : Nat → Byte := contents d (h.sectors.map Int.toNat)

structure WellFormed (h : FileHeader) : Prop where
  length : 0 ≤ h.fileLength
  count : h.numSectors = divRoundUp h.fileLength sectorSize
  fits : h.numSectors ≤ numDirect
  range : ∀ s ∈ h.sectors, 0 ≤ s ∧ s < Disk.numSectors
  distinct : h.sectors.Nodup

variable {h : FileHeader}

theorem WellFormed.describes (wellFormed : h.WellFormed) :
    Describes h h.fileLength.toNat (h.sectors.map Int.toNat) := by
  have length : (h.sectors.map Int.toNat).length = h.numSectors.toNat := by simp [sectors]
  obtain ⟨bytes, whole⟩ : ∃ bytes : Nat, h.fileLength = bytes :=
    ⟨_, (Int.toNat_of_nonneg wellFormed.length).symm⟩
  have count := wellFormed.count
  have fits := wellFormed.fits
  rw [whole, divRoundUp_natCast] at count
  refine ⟨rfl, length.symm, fun j s there => ?_, ?_, by omega, fun s member => ?_⟩
  · rw [List.getElem?_map] at there
    obtain ⟨t, found, rfl⟩ := Option.map_eq_some_iff.mp there
    have range := wellFormed.range t (List.mem_of_getElem? found)
    obtain ⟨inside, same⟩ := List.getElem?_eq_some_iff.mp found
    have same : (h (2 + j)).toInt = t := by simpa [sectors] using same
    omega
  · rw [length, whole, Int.toNat_natCast]
    omega
  · obtain ⟨t, there, rfl⟩ := List.mem_map.mp member
    have range := wellFormed.range t there
    omega

theorem WellFormed.nodup (wellFormed : h.WellFormed) : (h.sectors.map Int.toNat).Nodup := by
  refine wellFormed.distinct.map_on fun s first t second same => ?_
  have low := (wellFormed.range s first).1
  have low' := (wellFormed.range t second).1
  omega

end FileHeader

section Transfers

variable {h : FileHeader} {n p : Int} {d : Disk} {source garbage : Nat → Byte}
  {fresh : Nat → Nat → Byte}

/-- The bytes a request should transfer. -/
def wanted (length numBytes position : Int) : Int :=
  if position < 0 then 0 else max 0 (min numBytes (length - position))

theorem wanted_natCast {bytes : Nat} {n p : Nat} :
    wanted bytes n p = ((min n (bytes - p) : Nat) : Int) := by
  rw [wanted, if_neg (by omega)]
  omega

/-- A request that the check refuses transfers nothing. -/
theorem wanted_refused {length : Int} (refused : n ≤ 0 ∨ p ≥ length) : wanted length n p = 0 := by
  rw [wanted]
  split <;> omega

/-- **What a request in range transfers.** -/
theorem FileHeader.WellFormed.transfers (wellFormed : h.WellFormed) (range : InRange h n p)
    (source garbage : Nat → Byte) (fresh : Nat → Nat → Byte) :
    ∃ (count : Nat) (d' : Disk), wanted h.fileLength n p = count ∧
      Wrapped.readAt d h n p garbage = .ok (block (h.byteAt d) p.toNat count) ∧
      Wrapped.writeAt d h source n p fresh = .ok ((count : Int), d') ∧
      (∀ q : Nat, (q : Int) < h.fileLength →
        h.byteAt d' q = splice (h.byteAt d) p.toNat (block source 0 count) q) ∧
      ∀ s : Nat, (s : Int) ∉ h.sectors → d' s = d s := by
  have describes := wellFormed.describes
  obtain ⟨bytes, whole⟩ : ∃ bytes : Nat, h.fileLength = bytes :=
    ⟨_, (Int.toNat_of_nonneg wellFormed.length).symm⟩
  rw [whole, Int.toNat_natCast] at describes
  obtain ⟨refused, none⟩ | ⟨n, p, rfl, rfl, inside, some, high⟩ := describes.request range
  · refine ⟨0, d, ?_, ?_, ?_, fun q _ => ?_, fun _ _ => rfl⟩
    · rw [wanted_refused refused]
      rfl
    · rw [Wrapped.readAt, if_pos refused]
      rfl
    · rw [Wrapped.writeAt, if_pos refused]
      rfl
    · rw [splice_outside _ (by simp; omega)]
  · obtain ⟨d', wrote, here, elsewhere⟩ :=
      describes.writeAt (d := d) source (fresh 0) wellFormed.nodup inside some high
    refine ⟨min n (bytes - p),
      d', by rw [whole, wanted_natCast], describes.wrapped_readAt garbage inside some high,
      (describes.wrapped_writeAt source fresh inside some high).trans wrote, fun q before =>
        here q (by omega),
      fun s other => elsewhere s fun member => other ?_⟩
    obtain ⟨t, there, rfl⟩ := List.mem_map.mp (describes.touched_subset (by omega) member)
    rw [Int.toNat_of_nonneg (wellFormed.range t there).1]
    exact there

/-- **`WriteAt` and `ReadAt` are exact**, on every request that starts at the first byte or later
and whose end is an `int`: no index leaves its array, `WriteAt` replaces the bytes of the request
that are in the file and no others, and `ReadAt` returns those bytes. -/
theorem transfers_exact (wellFormed : h.WellFormed) (d : Disk) (source garbage : Nat → Byte)
    (fresh : Nat → Nat → Byte) {n p : Word} (start : 0 ≤ p.toInt)
    (sum : p.toInt + n.toInt ≤ maxInt) :
    ∃ count : Nat, (count : Int) = max 0 (min n.toInt (h.fileLength - p.toInt)) ∧
      (∃ d', Wrapped.writeAt d h source n.toInt p.toInt fresh = .ok ((count : Int), d') ∧
        (∀ q : Nat, (q : Int) < h.fileLength → h.byteAt d' q =
          if p.toInt ≤ q ∧ (q : Int) < p.toInt + count then source (q - p.toInt.toNat)
          else h.byteAt d q) ∧
        ∀ s : Nat, (s : Int) ∉ h.sectors → d' s = d s) ∧
      Wrapped.readAt d h n.toInt p.toInt garbage =
        .ok (block (h.byteAt d) p.toInt.toNat count) := by
  obtain ⟨count, d', size, read, wrote, here, elsewhere⟩ :=
    wellFormed.transfers (d := d) (.inr (.inr ⟨start, sum⟩)) source garbage fresh
  rw [wanted, if_neg (by omega)] at size
  refine ⟨count, size.symm, ⟨d', wrote, fun q before => ?_, elsewhere⟩, read⟩
  rw [here q before]
  split
  · rename_i inside
    rw [splice_block_at _ _ (by omega) (by omega), Nat.zero_add]
  · rename_i outside
    rw [splice_outside _ (by rw [length_block]; omega)]

/-- The header of a file of two bytes in sector 6. -/
def smallHeader : FileHeader := fun i => if i = 0 then 2 else if i = 1 then 1 else 6

theorem smallHeader_wellFormed : smallHeader.WellFormed :=
  ⟨by decide, by decide, by decide, by decide, by decide⟩

/-- One of three bytes is still in the file. -/
theorem transfers_exact_last : ∃ count : Nat, (count : Int) = 1 ∧
    (∃ d', Wrapped.writeAt (fun _ _ => 0) smallHeader (fun _ => 7) (3 : Word).toInt (1 : Word).toInt
      (fun _ _ => 9) =
        .ok ((count : Int), d') ∧ d' 6 0 = 0 ∧ d' 6 1 = 7 ∧ d' 5 = fun _ => 0) ∧
    Wrapped.readAt (fun _ _ => 0) smallHeader (3 : Word).toInt (1 : Word).toInt (fun _ => 9) =
      .ok [0] := by
  obtain ⟨count, size, ⟨d', wrote, here, elsewhere⟩, read⟩ :=
    transfers_exact smallHeader_wellFormed (fun _ _ => 0) (fun _ => 7) (fun _ => 9) (fun _ _ => 9)
      (n := 3) (p := 1)
      (by decide) (by decide)
  have one : (count : Int) = 1 := size.trans (by decide)
  obtain rfl : count = 1 := by omega
  refine ⟨1, rfl, ⟨d', wrote, ?_, ?_, elsewhere 5 (by decide)⟩, read⟩
  · exact here 0 (by decide)
  · exact here 1 (by decide)

/-- From any position and for any count, `Read` and `Write` transfer what they should, and every
index is in its array. -/
def Transfers (f : OpenFile) (n p : Int) : Prop :=
  ∀ d source garbage fresh,
    (∃ data g, (f.seek p).read d n garbage = .ok (data, g) ∧
      (data.length : Int) = wanted f.hdr.fileLength n p) ∧
      ∃ g d', (f.seek p).write d source n fresh = .ok (wanted f.hdr.fileLength n p, g, d')

/-- A read that passes the check and returns has copied as many bytes as were left after the request
was shortened. -/
theorem length_wrapped_readAt {data : List Byte} (asked : 0 < n) (early : p < h.fileLength)
    (read : Wrapped.readAt d h n p garbage = .ok data) :
    (data.length : Int) = if wrap (p + n) > h.fileLength then wrap (h.fileLength - p) else n := by
  unfold Wrapped.readAt at read
  rw [if_neg (by omega)] at read
  dsimp only at read
  generalize (if wrap (p + n) > h.fileLength then wrap (h.fileLength - p) else n) = count at read ⊢
  obtain ⟨buf, -, read⟩ := bind_eq_ok.mp read
  obtain ⟨buf', -, read⟩ := bind_eq_ok.mp read
  obtain ⟨copied, copy, read⟩ := bind_eq_ok.mp read
  split at read
  · cases read
  · cases read
    unfold Buffer.copyFrom at copy
    split at copy
    · rename_i inside
      cases copy
      rw [length_block, Int.toNat_of_nonneg inside.2.1]
    · cases copy

/-- **Out of range the number of bytes is wrong**: a negative position is not refused, and a sum
that wraps round is not shortened. -/
theorem Transfers.inRange {f : OpenFile} {n p : Word} (transfers : Transfers f n.toInt p.toInt)
    (high : f.hdr.fileLength ≤ maxFileSize) : InRange f.hdr n.toInt p.toInt := by
  by_contra outside
  simp only [InRange, not_or, not_and, Int.not_le] at outside
  obtain ⟨asked, early, far⟩ := outside
  have sizes : (maxFileSize : Int) = 3840 := rfl
  have top := BitVec.toInt_lt (x := n)
  have bottom := BitVec.le_toInt p
  obtain ⟨⟨data, g, read, length⟩, -⟩ := transfers (fun _ _ => 0) (fun _ => 0)
    (fun _ => 0) fun _ _ => 0
  obtain ⟨data', copied, last⟩ := bind_eq_ok.mp read
  cases last
  rw [length_wrapped_readAt asked early copied] at length
  simp only [maxInt] at far
  by_cases before : p.toInt < 0
  · rw [wanted, if_pos before, wrap_eq (by simp only [maxInt]; omega)
      (by simp only [maxInt]; omega)] at length
    split at length
    · rw [wrap_eq (by simp only [maxInt]; omega) (by simp only [maxInt]; omega)] at length
      omega
    · omega
  · have around : wrap (p.toInt + n.toInt) = p.toInt + n.toInt - 2 ^ 32 := by
      rw [wrap, BitVec.toInt_ofInt, Int.bmod_def]
      omega
    rw [wanted, if_neg before, around, if_neg (by omega)] at length
    omega

/-- **`Read` and `Write` transfer the right number of bytes on requests in range, and on no
others.** -/
theorem transfers_iff {f : OpenFile} (wellFormed : f.hdr.WellFormed) (n p : Word) :
    Transfers f n.toInt p.toInt ↔ InRange f.hdr n.toInt p.toInt := by
  constructor
  · intro transfers
    have small := wellFormed.describes.bytes_le
    refine transfers.inRange ?_
    simp only [maxFileSize, numDirect, sectorSize]
    omega
  · intro range d source garbage fresh
    obtain ⟨count, d', size, read, wrote, -⟩ :=
      wellFormed.transfers (d := d) range source garbage fresh
    rw [size]
    refine ⟨⟨_, _, bind_of_ok read, ?_⟩, ⟨f.hdr, wrap (p.toInt + count)⟩, d', bind_of_ok wrote⟩
    rw [length_block]

/-- Three bytes are asked for from the last one on, and one is transferred. -/
theorem transfers_iff_last : InRange smallHeader (3 : Word).toInt (1 : Word).toInt ∧
    wanted smallHeader.fileLength (3 : Word).toInt (1 : Word).toInt = 1 ∧
    Transfers (OpenFile.create smallHeader) (3 : Word).toInt (1 : Word).toInt := by
  have range : InRange smallHeader (3 : Word).toInt (1 : Word).toInt := by decide
  exact ⟨range, by decide, (transfers_iff smallHeader_wellFormed 3 1).mpr range⟩

/-- One byte is asked for at position -1, and `INT_MAX` bytes at position 1. -/
theorem transfers_wrong :
    ¬ Transfers (OpenFile.create smallHeader) (1 : Word).toInt (-1 : Word).toInt ∧
    ¬ Transfers (OpenFile.create smallHeader) (0x7fffffff : Word).toInt (1 : Word).toInt := by
  refine ⟨fun transfers => ?_, fun transfers => ?_⟩
  · exact absurd (transfers.inRange (by decide)) (by decide)
  · exact absurd (transfers.inRange (by decide)) (by decide)

end Transfers

end Nachos.Disk
