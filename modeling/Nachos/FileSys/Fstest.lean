/-
# Nachos.FileSys.Fstest -- `filesys/fstest.cc`, and what `main` does with its arguments

`Copy` brings a UNIX file to the Nachos disk in chunks of `TransferSize` bytes, `Print` prints a
Nachos file chunk by chunk, and `PerformanceTest` creates, writes, reads and removes a file of
its own.  The arguments `-f`, `-cp`, `-p`, `-r`, `-l` and `-t` of `nachos` call them, `Remove`
and `List`; what they print is the only thing that a user sees of the file system.

* `Describes.copyData`: the loop of `Copy` leaves the bytes of the UNIX file in the Nachos file.
* `Describes.printData`: the loop of `Print` prints a file to its end, and ends.
* `Describes.readRounds`: the loop of `FileRead` gives up before its last round.
-/
import Nachos.FileSys.Recovery
import Nachos.FileSys.Sequential

namespace Nachos.Disk

open Nachos.Lib.Bytes

set_option autoImplicit false

/-- What `printf` is given.  A name of the directory is an `α`: the memory that `%s` starts at,
or the characters of the name. -/
inductive Printed (α : Type) where
  | text (s : String)
  | argument (s : Nat → Byte)
  | entry (name : α)
  | number (n : Nat)
  | byte (b : Byte)
  | statistics

/-- The same with other names. -/
def Printed.map {α β : Type} (f : α → β) : Printed α → Printed β
  | .text s => .text s
  | .argument s => .argument s
  | .entry name => .entry (f name)
  | .number n => .number n
  | .byte b => .byte b
  | .statistics => .statistics

/-- One `printf` with one string among its arguments. -/
def message {α : Type} (before : String) (name : Nat → Byte) : List (Printed α) :=
  [.text before, .argument name, .text "\n"]

abbrev Output := List (Printed (Nat → Byte))

/-- The memory that `new` returns in a command. -/
abbrev Memory := Nat → Nat → Nat → Byte

/-- A UNIX file whose length `ftell` can report. -/
abbrev UnixFile := {bytes : List Byte // (bytes.length : Int) ≤ maxInt}

/-- The characters of a literal, with the zeros behind them. -/
def literal (s : String) : Nat → Byte := fun k =>
    (s.toList.map fun c => BitVec.ofNat 8 c.toNat).getD k 0

/-! ## Copy -/

/-- `TransferSize`. -/
def transferSize : Nat := 10

/-- The loop of `Copy`: what `fread` has still to read is `data`. -/
def copyData (mem : Memory) (data : List Byte) (buffer : Nat → Byte) (f : OpenFile) (d : Disk) :
    Except Stop (OpenFile × Disk) := do
  let read := data.take transferSize
  if _more : read.length > 0 then
    let buffer := splice buffer 0 read
    let (_, f, d) ← f.write d buffer read.length (mem (3 + data.length))
    copyData mem (data.drop transferSize) buffer f d
  else return (f, d)
termination_by data.length
decreasing_by
  rw [List.length_take] at _more
  rw [List.length_drop]
  have : 0 < transferSize := by decide
  omega

/-- `Copy`. -/
def copy (v : Volume) (source : Nat → Byte) (file : Option UnixFile) (target : Nat → Byte)
    (mem : Memory) :
    Except Stop (Output × Volume) := do
  match file with
  | none => return (message "Copy: couldn't open input file " source, v)
  | some file =>
      let (created, disk) ← v.fs.create v.disk target file.val.length (mem 0)
      if !created then return (message "Copy: couldn't create output file " target, { v with disk })
      match ← v.fs.open disk target (mem 1) with
      | none => .error .assertion
      | some hdr =>
          let (_, disk) ← copyData mem file.val (mem 2 0) (OpenFile.create hdr) disk
          return ([], { v with disk })

/-! ## Print -/

/-- The loop of `Print`.  Each round but the last reads a byte, and there are no more rounds than
`fuel`. -/
def printData (d : Disk) (garbage : Nat → Nat → Byte) : Nat → OpenFile → Except Stop Output
  | 0, _ => .error .loops
  | fuel + 1, f => do
      let (data, f) ← f.read d transferSize (garbage fuel)
      if data.length > 0 then return data.map .byte ++ (← printData d garbage fuel f)
      return []

/-- `Print`. -/
def print (v : Volume) (name : Nat → Byte) (mem : Memory) : Except Stop Output := do
  match ← v.fs.open v.disk name (mem 0) with
  | none => return message "Print: unable to open file " name
  | some hdr => printData v.disk (mem 1) (hdr.fileLength.toNat + 1) (OpenFile.create hdr)

/-! ## List -/

/-- `Directory::List`. -/
def Table.list (t : Table) : Output :=
  (List.range numDirEntries).flatMap fun i =>
    if t.inUse i then [.entry (t.name i), .text "\n"] else []

/-- `FileSystem::List`. -/
def FileSystem.list (fs : FileSystem) (d : Disk) (fresh : Nat → Nat → Byte) :
    Except Stop Output := do
  let directory ← (Table.create (fresh 0)).fetchFrom d fs.directoryFile
  return directory.list

/-! ## PerformanceTest -/

/-- `FileName`. -/
def testFile : Nat → Byte := literal "TestFile"

/-- `Contents`. -/
def testContents : Nat → Byte := literal "1234567890"

/-- `ContentSize`. -/
def contentSize : Nat := 10

/-- `FileSize`. -/
def testFileSize : Nat := contentSize * 5000

/-- The loop of `FileWrite`, with so many rounds to go. -/
def writeRounds (mem : Memory) : Nat → OpenFile → Disk → Except Stop (Output × Disk)
  | 0, _, d => return ([], d)
  | rounds + 1, f, d => do
      let (numBytes, f, d) ← f.write d testContents contentSize (mem (2 + rounds))
      if numBytes < 10 then return (message "Perf test: unable to write " testFile, d)
      writeRounds mem rounds f d

/-- What `FileWrite` and `FileRead` announce. -/
def sequential {α : Type} (what : String) : List (Printed α) :=
  [.text what, .number testFileSize, .text " byte file, in ", .number contentSize,
    .text " byte chunks\n"]

/-- `FileWrite`. -/
def fileWrite (v : Volume) (mem : Memory) : Except Stop (Output × Volume) := do
  let start := sequential "Sequential write of "
  let (created, disk) ← v.fs.create v.disk testFile 0 (mem 0)
  if !created then return (start ++ message "Perf test: can't create " testFile, { v with disk })
  match ← v.fs.open disk testFile (mem 1) with
  | none => return (start ++ message "Perf test: unable to open " testFile, { v with disk })
  | some hdr =>
      let (out, disk) ← writeRounds mem (testFileSize / contentSize) (OpenFile.create hdr) disk
      return (start ++ out, { v with disk })

/-- The loop of `FileRead`, with so many rounds to go. -/
def readRounds (d : Disk) (garbage : Nat → Nat → Byte) :
    Nat → (Nat → Byte) → OpenFile → Except Stop Output
  | 0, _, _ => return []
  | rounds + 1, buffer, f => do
      let (data, f) ← f.read d contentSize (garbage rounds)
      let buffer := splice buffer 0 data
      if data.length < 10 ∨ sameName buffer testContents contentSize 0 = false then
        return message "Perf test: unable to read " testFile
      readRounds d garbage rounds buffer f

/-- `FileRead`. -/
def fileRead (v : Volume) (mem : Memory) : Except Stop Output := do
  let start := sequential "Sequential read of "
  match ← v.fs.open v.disk testFile (mem 1) with
  | none => return start ++ message "Perf test: unable to open file " testFile
  | some hdr =>
      let out ← readRounds v.disk (mem 2) (testFileSize / contentSize) (mem 0 0)
          (OpenFile.create hdr)
      return start ++ out

/-- `PerformanceTest`. -/
def performanceTest (v : Volume) (mem : Nat → Memory) : Except Stop (Output × Volume) := do
  let start : Output := [.text "Starting file system performance test:\n", .statistics]
  let (wrote, v) ← fileWrite v (mem 0)
  let read ← fileRead v (mem 1)
  let (success, disk) ← v.fs.remove v.disk testFile (mem 2 0)
  if !success then
    return (start ++ wrote ++ read ++ message "Perf test: unable to remove " testFile,
      { v with disk })
  return (start ++ wrote ++ read ++ [.statistics], { v with disk })

/-! ## The loops -/

section Loops

variable {h : FileHeader} {bytes p : Nat} {sectors : List Nat} {d : Disk}

/-- One `Write` that ends in the file, from a buffer. -/
theorem Describes.write_buffer (describes : Describes h bytes sectors) (distinct : sectors.Nodup)
    (fresh : Nat → Nat → Byte) (source : Nat → Byte) {n : Nat} (some : 0 < n)
    (inside : p + n ≤ bytes) :
    ∃ d', OpenFile.write ⟨h, p⟩ d source n fresh = .ok ((n : Int), ⟨h, ((p + n : Nat) : Int)⟩, d') ∧
      (∀ q < bytes, contents d' sectors q = splice (contents d sectors) p (block source 0 n) q) ∧
      ∀ s, s ∉ sectors → d' s = d s := by
  have small := describes.bytes_le
  have range : (p : Int) + n ≤ maxInt := by
    simp only [maxInt]
    omega
  have whole : min n (bytes - p) = n := by omega
  obtain ⟨d', wrote, here, elsewhere⟩ :=
    describes.writeAt (d := d) source (fresh 0) distinct (by omega) some range
  rw [whole] at wrote here elsewhere
  refine ⟨d', ?_, here, fun s other => elsewhere s fun member =>
    other (describes.touched_subset (by omega) member)⟩
  rw [OpenFile.write, describes.wrapped_writeAt _ fresh (by omega) some range, wrote, ok_bind]
  simp only
  rw [← Int.natCast_add, wrap_natCast (by omega)]
  rfl

/-- One `Read`, before the end of the file or at it. -/
theorem Describes.read_some (describes : Describes h bytes sectors) (garbage : Nat → Byte) {n : Nat}
    (some : 0 < n) (before : p ≤ bytes) (short : n ≤ bytes + 10) :
    OpenFile.read ⟨h, p⟩ d n garbage =
      .ok (block (contents d sectors) p (min n (bytes - p)),
        ⟨h, ((p + min n (bytes - p) : Nat) : Int)⟩) := by
  have small := describes.bytes_le
  have range : (p : Int) + n ≤ maxInt := by
    simp only [maxInt]
    omega
  by_cases last : p = bytes
  · subst last
    rw [describes.read_end garbage n, Nat.sub_self, Nat.min_zero]
    rfl
  · rw [OpenFile.read, describes.wrapped_readAt garbage (by omega) some range, ok_bind,
      length_block, ← Int.natCast_add, wrap_natCast (by omega)]
    rfl

/-- **What the loop of `Copy` leaves in the file.** -/
theorem Describes.copyData (describes : Describes h bytes sectors) (distinct : sectors.Nodup)
    (mem : Memory) (data : List Byte) (buffer : Nat → Byte) (inside : p + data.length ≤ bytes) :
    ∃ f d', Disk.copyData mem data buffer ⟨h, p⟩ d = .ok (f, d') ∧
      (∀ q < bytes, contents d' sectors q = splice (contents d sectors) p data q) ∧
      ∀ s, s ∉ sectors → d' s = d s := by
  induction size : data.length using Nat.strong_induction_on generalizing data buffer p d with
  | _ n ih =>
      subst size
      have ten : transferSize = 10 := rfl
      have read : (data.take transferSize).length = min transferSize data.length :=
        List.length_take ..
      rw [Disk.copyData]
      simp only
      split
      · rename_i more
        obtain ⟨d₁, wrote, here, elsewhere⟩ := describes.write_buffer (d := d) (p := p) distinct
          (mem (3 + data.length)) (splice buffer 0 (data.take transferSize)) more (by omega)
        have left : (data.drop transferSize).length = data.length - transferSize :=
          List.length_drop ..
        obtain ⟨f, d₂, rest, there, kept⟩ := ih (data.drop transferSize).length (by omega) (d := d₁)
          (p := p + (data.take transferSize).length) (data.drop transferSize)
          (splice buffer 0 (data.take transferSize)) (by omega) rfl
        refine ⟨f, d₂, ?_, fun q before => ?_, fun s other =>
          (kept s other).trans (elsewhere s other)⟩
        · rw [wrote, ok_bind]
          exact rest
        · -- what the later rounds write lies behind the bytes of this one
          have together := splice_append (contents d sectors) p (data.take transferSize)
            (data.drop transferSize)
          rw [List.take_append_drop] at together
          rw [there q before, ← together, splice, splice, here q before, splice_block_self]
      · rename_i last
        have none : data = [] := by
          apply List.length_eq_zero_iff.mp
          omega
        subst none
        refine ⟨_, d, rfl, fun q _ => ?_, fun _ _ => rfl⟩
        rw [splice_outside _ (by simp; omega)]

/-- **What the loop of `Print` prints.** -/
theorem Describes.printData (describes : Describes h bytes sectors) (garbage : Nat → Nat → Byte)
    (fuel : Nat) (before : p ≤ bytes) (enough : bytes - p < fuel) :
    Disk.printData d garbage fuel ⟨h, p⟩ =
      .ok ((block (contents d sectors) p (bytes - p)).map .byte) := by
  induction fuel generalizing p with
  | zero => omega
  | succ fuel ih =>
      have ten : transferSize = 10 := rfl
      rw [Disk.printData, describes.read_some (garbage fuel) (by decide) before (by omega), ok_bind]
      simp only [length_block]
      split
      · rename_i more
        rw [ih (by omega) (by omega), ok_bind, pure_eq_ok, ← List.map_append, ← block_add]
        congr 3
        omega
      · rename_i last
        have none : bytes - p = 0 := by omega
        rw [none]
        rfl

/-- **`FileRead` does not get to its last round**: no file is that long. -/
theorem Describes.readRounds (describes : Describes h bytes sectors) (garbage : Nat → Nat → Byte)
    (rounds : Nat)
    (buffer : Nat → Byte) (before : p ≤ bytes) (enough : bytes - p < contentSize * rounds) :
    Disk.readRounds d garbage rounds buffer ⟨h, p⟩ =
      .ok (message "Perf test: unable to read " testFile) := by
  have ten : contentSize = 10 := rfl
  induction rounds generalizing p buffer with
  | zero => omega
  | succ rounds ih =>
      rw [Nat.mul_add_one] at enough
      rw [Disk.readRounds, describes.read_some (garbage rounds) (by decide) before
        (by omega), ok_bind]
      simp only [length_block]
      split
      · rfl
      · rename_i more
        exact ih _ (by omega) (by omega)

end Loops

end Nachos.Disk
