/-
# Nachos.FileSys.Requests -- the write requests of the file system, in their order

`Create`, `Remove` and `WriteAt` once more, with the sectors they write as a list instead of
the disk they leave.  The functions of this module follow those of `OpenFile`, `Directory`,
`FreeMap` and `FileSystem` line by line: what was `writeSector` is one entry of the list, and
what is read after a write is read from the disk with the list carried out.  Each is equal to
the function it follows, once its list is carried out (`create_log`, `remove_log`,
`writeAt_log`).

A disk that loses power in the middle of a call, and a thread that looks at the disk while
another one is inside a call, see the disk after some of the requests of the list.
-/
import Nachos.FileSys.Creation
import Nachos.Lib.Writes

namespace Nachos.Disk

open Nachos.Lib.Bytes
open Nachos.Lib.Writes
open Nachos.UserProg (BitMap)

set_option autoImplicit false

/-- A sector and the bytes that are written to it. -/
abbrev SectorWrite := Nat × (Nat → Byte)

/-- `Disk::WriteRequest`. -/
def sectorRequest (sectorNumber : Int) (data : Nat → Byte) : Except Stop SectorWrite := do
  ASSERT (decide (0 ≤ sectorNumber ∧ sectorNumber < numSectors))
  return (sectorNumber.toNat, data)

/-- The loop of `WriteAt`. -/
def writeSectorsLog (h : FileHeader) (buf : Nat → Byte) (firstSector : Int) :
    Nat → Except Stop (List SectorWrite)
  | 0 => return []
  | n + 1 => do
      let ws ← writeSectorsLog h buf firstSector n
      let w ← sectorRequest (← h.byteToSector ((firstSector + n) * sectorSize))
        fun k => buf (n * sectorSize + k)
      return ws ++ [w]

/-- `OpenFile::WriteAt`. -/
def writeAtLog (d : Disk) (h : FileHeader) (source : Nat → Byte) (numBytes position : Int)
    (garbage : Nat → Byte) : Except Stop (Int × List SectorWrite) := do
  if numBytes ≤ 0 ∨ position ≥ h.fileLength then return (0, [])
  let past ← addInt position numBytes
  let numBytes := if past > h.fileLength then h.fileLength - position else numBytes
  let firstSector := position.tdiv sectorSize
  let lastSector := (position + numBytes - 1).tdiv sectorSize
  let buf ← oldSectors d h numBytes position firstSector lastSector garbage
  let start := position - firstSector * sectorSize
  if start < 0 then throw .outOfBounds
  let buf := splice buf start.toNat (block source 0 numBytes.toNat)
  let ws ← writeSectorsLog h buf firstSector (1 + lastSector - firstSector).toNat
  return (numBytes, ws)

/-- `Directory::WriteBack`. -/
def Table.writeBackLog (t : Table) (d : Disk) (file : FileHeader) (garbage : Nat → Byte) :
    Except Stop (List SectorWrite) := do
  return (← writeAtLog d file t directoryFileSize 0 garbage).2

/-- `BitMap::WriteBack`. -/
def writeMapLog (b : BitMap) (d : Disk) (file : FileHeader) (garbage : Nat → Byte) :
    Except Stop (List SectorWrite) := do
  return (← writeAtLog d file (bytesOfWords b.map)
    (divRoundUp b.numBits Nachos.UserProg.bitsInWord * 4) 0
    garbage).2

namespace FileSystem

/-- `FileSystem::Create`. -/
def createLog (fs : FileSystem) (d : Disk) (name : Nat → Byte) (initialSize : Int)
    (fresh : Nat → Nat → Byte) : Except Stop (Bool × List SectorWrite) := do
  let directory ← (Table.create (fresh 0)).fetchFrom d fs.directoryFile
  if directory.find name ≠ -1 then return (false, [])
  let freeMap ← fetchMap (← BitMap.create numSectors (words (fresh 1))) d fs.freeMapFile
  let (sector, freeMap) ← freeMap.find
  if sector = -1 then return (false, [])
  match directory.add name sector with
  | none => return (false, [])
  | some directory =>
      match ← FileHeader.allocate (words (fresh 2)) freeMap initialSize with
      | none => return (false, [])
      | some (hdr, freeMap) =>
          let header ← sectorRequest sector (bytesOfWords hdr)
          let listed ← directory.writeBackLog (put d header) fs.directoryFile (fresh 3)
          let marked ← writeMapLog freeMap (putAll d (header :: listed)) fs.freeMapFile (fresh 4)
          return (true, header :: listed ++ marked)

/-- `FileSystem::Remove`. -/
def removeLog (fs : FileSystem) (d : Disk) (name : Nat → Byte) (fresh : Nat → Nat → Byte) :
    Except Stop (Bool × List SectorWrite) := do
  let directory ← (Table.create (fresh 0)).fetchFrom d fs.directoryFile
  let sector := directory.find name
  if sector = -1 then return (false, [])
  let fileHdr ← FileHeader.fetchFrom d sector
  let freeMap ← fetchMap (← BitMap.create numSectors (words (fresh 1))) d fs.freeMapFile
  let freeMap ← fileHdr.deallocate freeMap
  let freeMap ← freeMap.clear sector
  let directory := (directory.remove name).getD directory
  let cleared ← writeMapLog freeMap d fs.freeMapFile (fresh 2)
  let unlisted ← directory.writeBackLog (putAll d cleared) fs.directoryFile (fresh 3)
  return (true, cleared ++ unlisted)

end FileSystem

/-! ## The lists and the functions -/

section Log

variable {d : Disk} {h : FileHeader} {buf source garbage : Nat → Byte}

theorem writeSector_log (s : Int) (data : Nat → Byte) :
    writeSector d s data = (sectorRequest s data).map (put d) := by
  unfold writeSector sectorRequest
  cases ASSERT (decide (0 ≤ s ∧ s < numSectors)) <;> rfl

theorem writeSectors_log (h : FileHeader) (buf : Nat → Byte) (a : Int) (n : Nat) :
    writeSectors h buf a n d = (writeSectorsLog h buf a n).map (putAll d) := by
  induction n with
  | zero => rfl
  | succ n ih =>
      rw [writeSectors, writeSectorsLog, ih]
      cases writeSectorsLog h buf a n with
      | error e => rfl
      | ok ws =>
          cases h.byteToSector ((a + n) * sectorSize) with
          | error e => simp [Except.map]
          | ok s =>
              simp only [Except.map, ok_bind, writeSector_log, pure_eq_ok]
              cases sectorRequest s fun k => buf (n * sectorSize + k) with
              | error e => rfl
              | ok w => simp [putAll_append]

theorem map_bind {α β γ : Type} (x : Except Stop α) (f : α → Except Stop β) (g : β → γ) :
    (x >>= f).map g = x >>= fun a => (f a).map g := by
  cases x <;> rfl

theorem writeAt_log (d : Disk) (h : FileHeader) (source : Nat → Byte) (n p : Int)
    (garbage : Nat → Byte) :
    writeAt d h source n p garbage =
      (writeAtLog d h source n p garbage).map fun r => (r.1, putAll d r.2) := by
  unfold writeAt writeAtLog
  split
  · rfl
  · rw [map_bind]
    refine congrArg _ (funext fun past => ?_)
    simp only [map_bind]
    refine congrArg _ (funext fun buf => ?_)
    split
    · rfl
    · rw [writeSectors_log]
      cases writeSectorsLog _ _ _ _ <;> rfl

theorem writeBack_log (t : Table) (file : FileHeader) (garbage : Nat → Byte) :
    t.writeBack d file garbage = (t.writeBackLog d file garbage).map (putAll d) := by
  rw [Table.writeBack, Table.writeBackLog, writeAt_log]
  cases writeAtLog d file t directoryFileSize 0 garbage <;> rfl

theorem writeMap_log (b : BitMap) (file : FileHeader) (garbage : Nat → Byte) :
    writeMap b d file garbage = (writeMapLog b d file garbage).map (putAll d) := by
  rw [writeMap, writeMapLog, writeAt_log]
  cases writeAtLog d file (bytesOfWords b.map)
    (divRoundUp b.numBits Nachos.UserProg.bitsInWord * 4) 0
    garbage <;> rfl

variable (fs : FileSystem) (d) (name : Nat → Byte) (fresh : Nat → Nat → Byte)

/-- What `Create` writes once it has the header, the directory and the map. -/
theorem written_log (sector : Int) (hdr : FileHeader) (directory : Table) (freeMap : BitMap)
    (fresh : Nat → Nat → Byte) :
    (do
      let d ← FileHeader.writeBack hdr d sector
      let d ← directory.writeBack d fs.directoryFile (fresh 3)
      let d ← writeMap freeMap d fs.freeMapFile (fresh 4)
      return (true, d) : Except Stop (Bool × Disk)) =
    (do
      let header ← sectorRequest sector (bytesOfWords hdr)
      let listed ← directory.writeBackLog (put d header) fs.directoryFile (fresh 3)
      let marked ← writeMapLog freeMap (putAll d (header :: listed)) fs.freeMapFile (fresh 4)
      return (true, header :: listed ++ marked) : Except Stop (Bool × List SectorWrite)).map
        fun r => (r.1, putAll d r.2) := by
  rw [FileHeader.writeBack, writeSector_log]
  cases sectorRequest sector (bytesOfWords hdr) with
  | error e => rfl
  | ok header =>
      simp only [Except.map, ok_bind, writeBack_log]
      cases directory.writeBackLog (put d header) fs.directoryFile (fresh 3) with
      | error e => rfl
      | ok listed =>
          simp only [Except.map, ok_bind, writeMap_log, putAll_cons]
          cases writeMapLog freeMap (putAll (put d header) listed) fs.freeMapFile (fresh 4) with
          | error e => rfl
          | ok marked => simp [putAll_append]

/-- **`Create` is its list of writes.** -/
theorem create_log (size : Int) :
    fs.create d name size fresh =
      (fs.createLog d name size fresh).map fun r => (r.1, putAll d r.2) := by
  unfold FileSystem.create FileSystem.createLog
  rw [map_bind]
  refine congrArg _ (funext fun directory => ?_)
  split
  · rfl
  · simp only [map_bind]
    refine congrArg _
      (funext fun fresh₁ => congrArg _ (funext fun freeMap => congrArg _ (funext fun found => ?_)))
    split
    · rfl
    · cases directory.add name found.fst with
      | none => rfl
      | some listed =>
          simp only [map_bind]
          refine congrArg _ (funext fun allocated => ?_)
          rcases allocated with _ | ⟨hdr, marked⟩
          · rfl
          · exact written_log d fs found.fst hdr listed marked fresh

/-- **`Remove` is its list of writes.** -/
theorem remove_log :
    fs.remove d name fresh = (fs.removeLog d name fresh).map fun r => (r.1, putAll d r.2) := by
  unfold FileSystem.remove FileSystem.removeLog
  rw [map_bind]
  refine congrArg _ (funext fun directory => ?_)
  dsimp only
  split
  · rfl
  · simp only [map_bind]
    refine congrArg _
      (funext fun hdr => congrArg _ (funext fun fresh₁ => congrArg _ (funext fun freeMap =>
      congrArg _ (funext fun data => congrArg _ (funext fun cleared => ?_)))))
    rw [writeMap_log]
    cases writeMapLog cleared d fs.freeMapFile (fresh 2) with
    | error e => rfl
    | ok ws =>
        simp only [Except.map, ok_bind, writeBack_log]
        cases Table.writeBackLog _ (putAll d ws) fs.directoryFile (fresh 3) with
        | error e => rfl
        | ok vs => simp [putAll_append]

end Log

/-! ## The lists of a file's header -/

section Lists

variable {d : Disk} {h : FileHeader} {bytes : Nat} {sectors : List Nat}
  {buf source garbage : Nat → Byte}

theorem sectorRequest_ok {s : Nat} (bound : s < numSectors) (data : Nat → Byte) :
    sectorRequest s data = .ok (s, data) := by
  have range : (0 : Int) ≤ s ∧ (s : Int) < numSectors := ⟨by omega, by omega⟩
  rw [sectorRequest, decide_eq_true range]
  rfl

theorem Describes.writeSectorsLog (describes : Describes h bytes sectors) (buf : Nat → Byte)
    {a n : Nat} (inside : a + n ≤ sectors.length) :
    Disk.writeSectorsLog h buf a n = .ok ((List.range n).map fun j =>
      (sectors.getD (a + j) 0, fun k => buf (j * sectorSize + k))) := by
  induction n with
  | zero => rfl
  | succ n ih =>
      have sector := describes.byteToSector (j := a + n) (by omega)
      rw [Int.natCast_add] at sector
      rw [Disk.writeSectorsLog, ih (by omega), ok_bind, sector, ok_bind,
        sectorRequest_ok (describes.getD_lt (by omega)), List.range_succ, List.map_append]
      rfl

/-- The steps of `WriteAt` for a request that starts inside the file. -/
theorem Describes.writeAtLog_eq (describes : Describes h bytes sectors)
    (source garbage : Nat → Byte) {p n m : Nat}
    (inside : p < bytes) (some : 0 < n) (range : (p : Int) + n ≤ maxInt)
    (written : min n (bytes - p) = m) :
    ∃ buf, Disk.oldSectors d h m p ((p / 128 : Nat) : Int)
      (((p + m - 1) / 128 : Nat) : Int) garbage = .ok buf ∧
      Disk.writeAtLog d h source n p garbage = .ok ((m : Int),
        (List.range ((p + m - 1) / 128 - p / 128 + 1)).map fun j => (sectors.getD (p / 128 + j) 0,
          fun k => splice buf (p % 128) (block source 0 m) (j * sectorSize + k))) := by
  have length := describes.fileLength (by omega)
  have count : (if (p : Int) + n > bytes then (bytes : Int) - p else n) = (m : Int) := by
    split <;> omega
  obtain ⟨first, last, room⟩ := describes.lastSector (p := p) (n := m) (by omega) (by omega)
  have sectorsWritten : (1 + (((p + m - 1) / 128 : Nat) : Int) - ((p / 128 : Nat) : Int)).toNat =
      (p + m - 1) / 128 - p / 128 + 1 := by omega
  have start : ((p : Int) - ((p / 128 : Nat) : Int) * sectorSize) = ((p % 128 : Nat) : Int) := by
    simp only [sectorSize]
    omega
  obtain ⟨buf, old, -⟩ := describes.oldSectors (d := d) garbage (p := p) (n := m)
    (by omega) (by omega)
  refine ⟨buf, old, ?_⟩
  unfold Disk.writeAtLog
  rw [length, if_neg (by omega), addInt_ok (by omega) range, ok_bind]
  simp only [count, first, last, sectorsWritten, start, Int.toNat_natCast, old, ok_bind]
  rw [if_neg (by omega), describes.writeSectorsLog _ (by omega)]
  rfl

/-- `WriteAt` of a whole file. -/
theorem Describes.writeAtLog_whole (describes : Describes h bytes sectors)
    (source garbage : Nat → Byte) (some : 0 < bytes) :
    ∃ buf : Nat → Byte, (∀ q < bytes, buf q = source q) ∧
      Disk.writeAtLog d h source bytes 0 garbage = .ok ((bytes : Int),
        (List.range sectors.length).map fun j => (sectors.getD j 0,
          fun k => buf (j * sectorSize + k))) := by
  have size := describes.size
  have small := describes.bytes_le
  obtain ⟨buf, -, log⟩ := describes.writeAtLog_eq (d := d) source garbage
    (p := 0) (n := bytes) (m := bytes) some some (by simp only [maxInt]; omega) (by omega)
  have count : (0 + bytes - 1) / 128 - 0 / 128 + 1 = sectors.length := by omega
  refine ⟨splice buf 0 (block source 0 bytes), fun q inside => ?_, ?_⟩
  · rw [splice_block_at _ _ (Nat.zero_le q) (by omega), Nat.zero_add, Nat.sub_zero]
  · rw [count] at log
    simpa using log

/-- The list of a request in range has the sectors of the request. -/
theorem Describes.writeAtLog (describes : Describes h bytes sectors)
    (source garbage : Nat → Byte) {n p : Int} (range : InRange h n p) :
    ∃ ws, Disk.writeAtLog d h source n p garbage = .ok ((transferred bytes n p : Nat), ws) ∧
      ws.map Prod.fst = touched sectors p.toNat (transferred bytes n p) := by
  obtain ⟨nothing, none⟩ | ⟨n', p', rfl, rfl, inside, some, high⟩ := describes.request range
  · refine ⟨[], ?_, ?_⟩
    · rw [none, Disk.writeAtLog, if_pos nothing]
      rfl
    · rw [none, touched, if_pos rfl, List.map_nil]
  · obtain ⟨buf, -, log⟩ := describes.writeAtLog_eq (d := d) source garbage
      inside some high (m := transferred bytes n' p') rfl
    refine ⟨_, log, ?_⟩
    have positive : transferred bytes n' p' ≠ 0 := by
      simp only [transferred, Int.toNat_natCast]
      omega
    rw [Int.toNat_natCast, touched, if_neg positive, List.map_map]
    rfl

end Lists

end Nachos.Disk
