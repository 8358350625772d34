/-
# Nachos.FileSys.Sequential -- `Write` and `Read` from one end of a file to the other

A file is written by one `Write` after the other and read back by one `Read` after the other,
as `Copy` and `Print` of `fstest.cc` do.  Where one call ends and the next begins makes no
difference, and the two passes need not agree on it: a call in the middle of a sector keeps
what the calls before it have left there.

* `Describes.writeChunks`, `Describes.readChunks`: one pass, by induction on the calls.
* `sequential_roundtrip`: a new file, written and then read through a second `OpenFile`.
-/
import Nachos.FileSys.Metadata
import Nachos.FileSys.Transfer
import Mathlib.Algebra.GroupWithZero.Nat

namespace Nachos.Disk

open Nachos.Lib.Bytes

set_option autoImplicit false

namespace OpenFile

/-- `Write` is called once for each size, with the next bytes of `data`.  The results of the
calls; `fresh k` is the memory that `new` returns when `k` calls are still to come. -/
def writeChunks (fresh : Nat → Nat → Nat → Byte) :
    List Nat → List Byte → OpenFile → Disk → Except Stop (List Int × OpenFile × Disk)
  | [], _, f, d => return ([], f, d)
  | n :: sizes, data, f, d => do
      let (result, f, d) ← f.write d (fun k => data.getD k 0) n (fresh sizes.length)
      let (results, f, d) ← writeChunks fresh sizes (data.drop n) f d
      return (result :: results, f, d)

/-- `Read` is called once for each size.  What each call reads. -/
def readChunks (garbage : Nat → Nat → Byte) (d : Disk) :
    List Nat → OpenFile → Except Stop (List (List Byte) × OpenFile)
  | [], f => return ([], f)
  | n :: sizes, f => do
      let (data, f) ← f.read d n (garbage sizes.length)
      let (rest, f) ← readChunks garbage d sizes f
      return (data :: rest, f)

end OpenFile

section Chunks

variable {h : FileHeader} {bytes p : Nat} {sectors : List Nat} {d : Disk}

theorem block_getD (data : List Byte) {n : Nat} (fits : n ≤ data.length) :
    block (fun k => data.getD k 0) 0 n = data.take n := by
  apply List.ext_getElem
  · simp [fits]
  · intro k inside _
    rw [length_block] at inside
    simp [block, List.getElem?_eq_getElem (show k < data.length by omega)]

/-- One `Write` that ends in the file. -/
theorem Describes.write_chunk (describes : Describes h bytes sectors) (distinct : sectors.Nodup)
    (fresh : Nat → Nat → Byte) {data : List Byte} {n : Nat} (some : 0 < n) (fits : n ≤ data.length)
    (inside : p + n ≤ bytes) :
    ∃ d', OpenFile.write ⟨h, p⟩ d (fun k => data.getD k 0) n fresh =
      .ok ((n : Int), ⟨h, ((p + n : Nat) : Int)⟩, d') ∧
      (∀ q < bytes, contents d' sectors q = splice (contents d sectors) p (data.take n) q) ∧
      ∀ s, s ∉ sectors → d' s = d s := by
  have small := describes.bytes_le
  have range : (p : Int) + n ≤ maxInt := by
    simp only [maxInt]
    omega
  have whole : min n (bytes - p) = n := by omega
  obtain ⟨d', wrote, here, elsewhere⟩ :=
    describes.writeAt (d := d) (fun k => data.getD k 0) (fresh 0) distinct (by omega) some range
  rw [whole, block_getD data fits] at here
  rw [whole] at wrote elsewhere
  refine ⟨d', ?_, here, fun s other => elsewhere s fun member =>
    other (describes.touched_subset (by omega) member)⟩
  rw [OpenFile.write, describes.wrapped_writeAt _ fresh (by omega) some range, wrote, ok_bind]
  simp only
  rw [← Int.natCast_add, wrap_natCast (by omega)]
  rfl

/-- One `Read` that ends in the file. -/
theorem Describes.read_chunk (describes : Describes h bytes sectors) (garbage : Nat → Byte)
    {n : Nat} (some : 0 < n) (inside : p + n ≤ bytes) :
    OpenFile.read ⟨h, p⟩ d n garbage =
      .ok (block (contents d sectors) p n, ⟨h, ((p + n : Nat) : Int)⟩) := by
  have small := describes.bytes_le
  have range : (p : Int) + n ≤ maxInt := by
    simp only [maxInt]
    omega
  have whole : min n (bytes - p) = n := by omega
  rw [OpenFile.read, describes.wrapped_readAt garbage (by omega) some range, ok_bind, whole,
    length_block, ← Int.natCast_add, wrap_natCast (by omega)]
  rfl

/-- **What a pass of `Write`s leaves in the file.** -/
theorem Describes.writeChunks (describes : Describes h bytes sectors) (distinct : sectors.Nodup)
    (fresh : Nat → Nat → Nat → Byte) {sizes : List Nat} (positive : ∀ n ∈ sizes, 0 < n)
    (data : List Byte) (sum : sizes.sum = data.length) (inside : p + data.length ≤ bytes) :
    ∃ d', OpenFile.writeChunks fresh sizes data ⟨h, p⟩ d =
        .ok (sizes.map fun n : Nat => (n : Int), ⟨h, ((p + data.length : Nat) : Int)⟩, d') ∧
      (∀ q < bytes, contents d' sectors q = splice (contents d sectors) p data q) ∧
      ∀ s, s ∉ sectors → d' s = d s := by
  induction sizes generalizing data p d with
  | nil =>
      obtain rfl : data = [] := List.length_eq_zero_iff.mp sum.symm
      refine ⟨d, rfl, fun q _ => ?_, fun _ _ => rfl⟩
      rw [splice_outside _ (by simp; omega)]
  | cons n sizes ih =>
      rw [List.sum_cons] at sum
      have fits : n ≤ data.length := by omega
      obtain ⟨d₁, wrote, here, elsewhere⟩ := describes.write_chunk (d := d) (p := p) distinct
        (fresh sizes.length) (positive n (List.mem_cons_self ..)) fits (by omega)
      have left : (data.drop n).length = data.length - n := List.length_drop ..
      obtain ⟨d₂, rest, there, kept⟩ := ih (d := d₁) (p := p + n)
        (fun m member => positive m (List.mem_cons_of_mem _ member)) (data.drop n)
          (by omega) (by omega)
      refine ⟨d₂, ?_, fun q before => ?_, fun s other => (kept s other).trans (elsewhere s other)⟩
      · rw [OpenFile.writeChunks, wrote, ok_bind]
        simp only
        rw [rest, ok_bind, left, Nat.add_assoc, Nat.add_sub_cancel' (by omega)]
        rfl
      · -- what the later calls write lies behind the bytes of the first one
        have length : (data.take n).length = n := List.length_take_of_le (by omega)
        have together := splice_append (contents d sectors) p (data.take n) (data.drop n)
        rw [List.take_append_drop, length] at together
        rw [there q before, ← together, splice, splice, here q before]

/-- **What a pass of `Read`s returns.** -/
theorem Describes.readChunks (describes : Describes h bytes sectors) (garbage : Nat → Nat → Byte)
    {sizes : List Nat} (positive : ∀ n ∈ sizes, 0 < n) (inside : p + sizes.sum ≤ bytes) :
    ∃ parts,
      OpenFile.readChunks garbage d sizes ⟨h, p⟩ = .ok (parts, ⟨h, ((p + sizes.sum : Nat) : Int)⟩) ∧
      parts.map List.length = sizes ∧ parts.flatten = block (contents d sectors) p sizes.sum := by
  induction sizes generalizing p with
  | nil => exact ⟨[], rfl, rfl, rfl⟩
  | cons n sizes ih =>
      rw [List.sum_cons] at inside
      have read := describes.read_chunk (d := d) (p := p) (garbage sizes.length)
        (positive n (List.mem_cons_self ..))
        (by omega)
      obtain ⟨parts, rest, lengths, together⟩ :=
        ih (p := p + n) (fun m member => positive m (List.mem_cons_of_mem _ member)) (by omega)
      refine ⟨block (contents d sectors) p n :: parts, ?_, ?_, ?_⟩
      · rw [OpenFile.readChunks, read, ok_bind]
        simp only
        rw [rest, ok_bind, List.sum_cons, Nat.add_assoc]
        rfl
      · rw [List.map_cons, length_block, lengths]
      · rw [List.flatten_cons, together, List.sum_cons, block_add]

/-- At the end of the file there is nothing to read. -/
theorem Describes.read_end (describes : Describes h bytes sectors)
    (garbage : Nat → Byte) (n : Int) :
    OpenFile.read ⟨h, bytes⟩ d n garbage = .ok ([], ⟨h, bytes⟩) := by
  have length := describes.length
  have small := describes.bytes_le
  have refused : n ≤ 0 ∨ (bytes : Int) ≥ h.fileLength := by
    rw [FileHeader.fileLength]
    omega
  rw [OpenFile.read, Wrapped.readAt, if_pos refused, pure_eq_ok, ok_bind, List.length_nil,
    Int.natCast_zero, Int.add_zero, wrap_natCast (by omega)]
  rfl

end Chunks

/-- **Sequential reads and writes do not depend on where one call ends and the next begins.**  A
file is created with the length of `data`; it is opened and written in chunks of the sizes `first`,
opened again and read in chunks of the sizes `second`. -/
theorem sequential_roundtrip {fs : FileSystem} {d d₁ : Disk} {l : Layout} (rep : Represents fs d l)
    (name : Nat → Byte) {data : List Byte} (small : data.length ≤ maxFileSize)
    (fresh : Nat → Nat → Nat → Byte) (new : Nat → Nat → Nat → Byte) (garbage : Nat → Nat → Byte)
    (created : fs.create d name data.length (fresh 0) = .ok (true, d₁))
    {first second : List Nat} (positive : ∀ n ∈ first, 0 < n) (sum : first.sum = data.length)
    (positive' : ∀ n ∈ second, 0 < n) (sum' : second.sum = data.length) :
    ∃ hdr f d₂ hdr' parts g,
      fs.open d₁ name (fresh 1) = .ok (some hdr) ∧
      OpenFile.writeChunks new first data (OpenFile.create hdr) d₁ =
        .ok (first.map fun n : Nat => (n : Int), f, d₂) ∧
      f.seekPosition = data.length ∧
      fs.open d₂ name (fresh 2) = .ok (some hdr') ∧
      OpenFile.readChunks garbage d₂ second (OpenFile.create hdr') = .ok (parts, g) ∧
      parts.map List.length = second ∧ parts.flatten = data ∧
      (∀ (n : Word) (garbage : Nat → Byte), g.read d₂ n.toInt garbage = .ok ([], g)) ∧
      g.seekPosition = data.length := by
  have top : ((maxFileSize : Nat) : Int) ≤ maxInt := by decide
  have low : -maxInt - 1 ≤ (data.length : Int) := by
    simp only [maxInt]
    omega
  have high : (data.length : Int) ≤ maxInt := by omega
  obtain ⟨large, -⟩ | ⟨refused, -⟩ | ⟨i, file, d', done, added, named, sized, -, rep₁, -⟩ :=
    rep.create name (fresh 0) low high
  · omega
  · rw [created] at refused
    cases refused
  rw [created, Except.ok.injEq, Prod.mk.injEq] at done
  obtain ⟨-, rfl⟩ := done
  rw [Int.toNat_natCast] at sized
  have there : Function.update l i (some file) i = some file := Function.update_self ..
  have describes := rep₁.headers i added.inside file there
  have distinct := (List.nodup_cons.mp (rep₁.apart added.inside there).1).2
  rw [sized] at describes
  obtain ⟨d₂, wrote, here, kept⟩ :=
    describes.writeChunks (d := d₁) (p := 0) distinct new positive data sum (by omega)
  have rep₂ := rep₁.write added.inside there kept
  have describes₂ := rep₂.headers i added.inside file there
  rw [sized] at describes₂
  obtain ⟨parts, read, lengths, together⟩ :=
    describes₂.readChunks (d := d₂) (p := 0) garbage positive' (by omega)
  rw [Nat.zero_add] at wrote read
  refine ⟨_, _, d₂, _, parts, _, rep₁.opens added.inside there named (fresh 1), wrote, rfl,
    rep₂.opens added.inside there named (fresh 2), read, lengths, ?_, fun n other => ?_, ?_⟩
  · rw [together, sum']
    have same : block (contents d₂ file.sectors) 0 data.length =
        block (splice (contents d₁ file.sectors) 0 data) 0 data.length := by
      refine block_congr fun q inside => here _ ?_
      omega
    rw [same, splice_block_self]
  · rw [sum']
    exact describes₂.read_end other n.toInt
  · rw [sum']

/-- Three bytes on a formatted disk, written in two calls and read in one. -/
theorem sequential_roundtrip_three : ∃ v d₁ hdr f d₂ hdr' parts g,
    formatted (fun _ _ => 0) (fun _ _ => 0) = .ok v ∧
    v.fs.create v.disk (letter 97) 3 (fun _ _ => 0) = .ok (true, d₁) ∧
    v.fs.open d₁ (letter 97) (fun _ _ => 0) = .ok (some hdr) ∧
    OpenFile.writeChunks (fun _ _ _ => 9) [1, 2] [10, 11, 12] (OpenFile.create hdr) d₁ =
      .ok ([1, 2], f, d₂) ∧
    v.fs.open d₂ (letter 97) (fun _ _ => 0) = .ok (some hdr') ∧
    OpenFile.readChunks (fun _ _ => 9) d₂ [3] (OpenFile.create hdr') = .ok (parts, g) ∧
    parts.flatten = [10, 11, 12] ∧ g.seekPosition = 3 := by
  obtain ⟨v, done, sound, -, -⟩ := formatted_sound (fun _ _ => 0) (fun _ _ => 0)
  obtain ⟨i, d₁, -, called, -, -⟩ := sound.first_file (letter 97) (fun _ _ => 0) 3 1
    (by decide) (by decide)
  have created : v.fs.create v.disk (letter 97) 3 (fun _ _ => 0) = .ok (true, d₁) := by
    obtain ⟨⟨success, disk⟩, created, last⟩ := bind_eq_ok.mp called
    cases last
    exact created
  have small : ([10, 11, 12] : List Byte).length ≤ maxFileSize := by decide
  have positive : ∀ n ∈ [1, 2], 0 < n := by decide
  have positive' : ∀ n ∈ [3], 0 < n := by decide
  obtain ⟨hdr, f, d₂, hdr', parts, g, opened, wrote, -, reopened, read, -, together, -, position⟩ :=
    sequential_roundtrip sound.represents (letter 97) small (fun _ _ _ => 0) (fun _ _ _ => 9)
      (fun _ _ => 9) created positive rfl positive' rfl
  exact ⟨v, d₁, hdr, f, d₂, hdr', parts, g, done, created, opened, wrote, reopened, read,
    together, position⟩

end Nachos.Disk
