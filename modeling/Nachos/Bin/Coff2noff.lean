/-
# Nachos.Bin.Coff2noff -- `bin/coff2noff.c`: from COFF to NOFF

The converter reads the section headers of a COFF file and folds them into the three slots of
a NOFF header, copying the stored sections one after the other behind it.  Both files describe
a memory: which byte belongs at which address.  `Preserves` says that the two memories are the
same whenever the converter is content, and that it is content with the input the linker makes.

The test that is meant to refuse a `.bss` and a `.sbss` that do not follow each other refuses
those that do.  So two of them are never converted well, and a second `.text` takes the slot of
the first; `preserves_iff` says what is left.
-/
import Nachos.UserProg.Image
import Mathlib.Data.Finset.Card
import Mathlib.Order.Interval.Finset.Nat

namespace Nachos.Bin.Coff2noff

open Nachos.Lib.Bytes
open Nachos.UserProg (NoffHeader Segment noffMagic noffHeaderSize)

set_option autoImplicit false

/-! ## COFF files: `bin/coff.h` -/

/-- `struct scnhdr`, as far as it is read.  The name is the C string in its eight bytes. -/
structure Scnhdr where
  name : List Byte
  paddr : Word
  size : Word
  scnptr : Word
  deriving DecidableEq, Repr

def filehdrSize : Nat := 20
def aouthdrSize : Nat := 56
def scnhdrSize : Nat := 40

/-- `MIPSELMAGIC`. -/
def mipselMagic : Word := 0x162#32
/-- `OMAGIC`, which is octal. -/
def omagic : Word := 0o407#32

def shortAt (file : List Byte) (pos : Nat) : Word := load 2 fun i => file.getD (pos + i) 0
def longAt (file : List Byte) (pos : Nat) : Word := load 4 fun i => file.getD (pos + i) 0

/-- The section header at a place of the file. -/
def scnhdrAt (file : List Byte) (pos : Nat) : Scnhdr where
  name := (readAt file pos 8).takeWhile (· ≠ 0)
  paddr := longAt file (pos + 8)
  size := longAt file (pos + 16)
  scnptr := longAt file (pos + 20)

/-- `fileh.f_nscns`. -/
def numsections (file : List Byte) : Nat := (shortAt file 2).toNat

def sections (file : List Byte) : List Scnhdr :=
  (List.range (numsections file)).map fun i =>
    scnhdrAt file (filehdrSize + aouthdrSize + i * scnhdrSize)

/-- A C string. -/
def cString (s : String) : List Byte := s.toList.map fun c => BitVec.ofNat 8 c.toNat

inductive Kind where
  | text | data | bss
  deriving DecidableEq, Repr

/-- The branch of the loop a name leads to. -/
def Scnhdr.kind (s : Scnhdr) : Option Kind :=
  if s.name = cString ".text" then some .text
  else if s.name = cString ".data" ∨ s.name = cString ".rdata" then some .data
  else if s.name = cString ".bss" ∨ s.name = cString ".sbss" then some .bss
  else none

/-! ## The converter -/

/-- What the converter complains about before `exit(1)`. -/
inductive Failure where
  | tooShort
  | notMipsel
  | notOmagic
  | bothData
  | bothBss
  | unknownSegment (name : List Byte)
  deriving DecidableEq, Repr

/-- The NOFF header in the making, where the next section will stand in the file, what was
written behind the header, and the position of `fdIn`. -/
structure Output where
  noffH : NoffHeader
  inNoffFile : Word
  written : List Byte
  position : Nat

/-- `lseek(fdIn, offset, 0)`: a negative offset fails and moves nothing. -/
def lseek (position : Nat) (offset : Word) : Nat :=
  if 0 ≤ offset.toInt then offset.toNat else position

/-- `Read`. -/
def read (file : List Byte) (position : Nat) (nBytes : Word) : Except Failure (List Byte) :=
  let bytes := readAt file position nBytes.toNat
  if bytes.length = nBytes.toNat then .ok bytes else .error .tooShort

/-- Copy a section, and say where it went: the lines the code and the data share. -/
def copy (file : List Byte) (out : Output) (s : Scnhdr) : Except Failure (Segment × Output) := do
  let position := lseek out.position s.scnptr
  let buffer ← read file position s.size
  return (⟨s.paddr, out.inNoffFile, s.size⟩,
    { out with
      inNoffFile := out.inNoffFile + s.size
      written := out.written ++ buffer
      position := position + s.size.toNat })

/-- The body of the loop. -/
def copySection (file : List Byte) (out : Output) (s : Scnhdr) : Except Failure Output :=
  if s.size = 0 then return out
  else match s.kind with
    | some .text => do
        let (code, out) ← copy file out s
        return { out with noffH := { out.noffH with code } }
    | some .data =>
        if out.noffH.initData.size ≠ 0 then throw .bothData
        else do
          let (initData, out) ← copy file out s
          return { out with noffH := { out.noffH with initData } }
    | some .bss =>
        let uninitData := out.noffH.uninitData
        if uninitData.size ≠ 0 then
          if s.paddr = uninitData.virtualAddr + uninitData.size then throw .bothBss
          else return { out with noffH := { out.noffH with
            uninitData := { uninitData with size := uninitData.size + s.size } } }
        else return { out with noffH := { out.noffH with
          uninitData := { uninitData with virtualAddr := s.paddr, size := s.size } } }
    | none => throw (.unknownSegment s.name)

/-- The bytes of a NOFF header. -/
def headerBytes (h : NoffHeader) : List Byte :=
  [h.noffMagic, h.code.virtualAddr, h.code.inFileAddr, h.code.size,
    h.initData.virtualAddr, h.initData.inFileAddr, h.initData.size,
    h.uninitData.virtualAddr, h.uninitData.inFileAddr, h.uninitData.size].flatMap (bytesOf · 4)

/-- Before the loop; `noffH` is what the variable happens to hold. -/
def start (file : List Byte) (noffH : NoffHeader) : Output where
  noffH := ⟨noffMagic, { noffH.code with size := 0 }, { noffH.initData with size := 0 },
    { noffH.uninitData with size := 0 }⟩
  inNoffFile := BitVec.ofNat 32 noffHeaderSize
  written := []
  position := filehdrSize + aouthdrSize + numsections file * scnhdrSize

/-- `main`, on an input file whose name was given and could be opened. -/
def main (file : List Byte) (noffH : NoffHeader) : Except Failure (List Byte) :=
  if file.length < filehdrSize then throw .tooShort
  else if shortAt file 0 ≠ mipselMagic then throw .notMipsel
  else if file.length < filehdrSize + aouthdrSize then throw .tooShort
  else if shortAt file filehdrSize ≠ omagic then throw .notOmagic
  else if file.length < filehdrSize + aouthdrSize + numsections file * scnhdrSize then
    throw .tooShort
  else do
    let out ← (sections file).foldlM (copySection file) (start file noffH)
    return headerBytes out.noffH ++ out.written

/-! ## The memories the files describe -/

/-- The NOFF file has the byte `b` at address `a`. -/
def NoffDescribes (noff : List Byte) (a : Nat) (b : Byte) : Prop :=
  let h := NoffHeader.ofBytes (noff.take noffHeaderSize)
  (h.code.covers a ∧
    noff[h.code.inFileAddr.toNat + (a - h.code.virtualAddr.toNat)]? = some b) ∨
  (h.initData.covers a ∧
    noff[h.initData.inFileAddr.toNat + (a - h.initData.virtualAddr.toNat)]? = some b) ∨
  (h.uninitData.covers a ∧ b = 0)

/-- The section has a byte at address `a`. -/
def Scnhdr.Covers (s : Scnhdr) (a : Nat) : Prop :=
  s.paddr.toNat ≤ a ∧ a < s.paddr.toNat + s.size.toNat

/-- The section has the byte `b` at address `a`. -/
def Scnhdr.Describes (file : List Byte) (s : Scnhdr) (a : Nat) (b : Byte) : Prop :=
  s.Covers a ∧
    if s.kind = some .bss then b = 0 else file[s.scnptr.toNat + (a - s.paddr.toNat)]? = some b

/-- The COFF file has the byte `b` at address `a`. -/
def CoffDescribes (file : List Byte) (a : Nat) (b : Byte) : Prop :=
  ∃ s ∈ sections file, s.Describes file a b

/-! ## The input -/

/-- The non-empty sections of one kind, in the order of the headers. -/
def ofKind (k : Kind) (l : List Scnhdr) : List Scnhdr :=
  l.filter fun s => s.size ≠ 0 ∧ s.kind = some k

/-- The bytes of some sections taken together. -/
def total (l : List Scnhdr) : Nat := (l.map fun s => s.size.toNat).sum

/-- The addresses the sections cover. -/
def cover (l : List Scnhdr) : Finset Nat :=
  l.foldr (fun s c => Finset.Ico s.paddr.toNat (s.paddr.toNat + s.size.toNat) ∪ c) ∅

/-- A COFF file of sections the converter knows, each at its own place in memory. -/
structure WellFormed (file : List Byte) : Prop where
  magic : shortAt file 0 = mipselMagic
  omagic : shortAt file filehdrSize = omagic
  headers : filehdrSize + aouthdrSize + numsections file * scnhdrSize ≤ file.length
  known : ∀ s ∈ sections file, s.kind ≠ none
  addresses : ∀ s ∈ sections file, s.size ≠ 0 → s.paddr.toNat + s.size.toNat ≤ 2 ^ 31
  /-- `s_scnptr` is a place in a file. -/
  places : ∀ s ∈ sections file, 0 ≤ s.scnptr.toInt
  apart : (sections file).Pairwise fun s t => ∀ a, s.Covers a → ¬ t.Covers a

/-- The bytes of the section are all there. -/
def Readable (file : List Byte) (s : Scnhdr) : Prop :=
  s.size ≠ 0 → s.kind ≠ some .bss → s.scnptr.toNat + s.size.toNat ≤ file.length

/-- The sections fill one stretch of memory. -/
def Contiguous (l : List Scnhdr) : Prop :=
  ∃ low, cover l = Finset.Ico low (low + total l)

/-- What the linker makes: one `.text`, data or read-only data, and uninitialised data in one
stretch. -/
structure Regular (file : List Byte) : Prop where
  readable : ∀ s ∈ sections file, Readable file s
  text : ((sections file).filter fun s => s.kind = some .text).length = 1
  data : (ofKind .data (sections file)).length ≤ 1
  bss : Contiguous (ofKind .bss (sections file))

/-- The conversion keeps the memory, and takes what the linker makes. -/
structure Preserves (file : List Byte) (noffH : NoffHeader) : Prop where
  image : ∀ noff, main file noffH = .ok noff → ∀ a b, NoffDescribes noff a b ↔
    CoffDescribes file a b
  accepts : Regular file → ∃ noff, main file noffH = .ok noff

/-- Where the uninitialised data ends after some sections, if there was one. -/
def limit : List Scnhdr → Option Nat
  | [] => none
  | b :: l => some (b.paddr.toNat + total (b :: l))

/-- No section starts at the end of the ones before it, the end being `from_` at first. -/
def Spread (from_ : Option Nat) : List Scnhdr → Prop
  | [] => True
  | s :: l => from_ ≠ some s.paddr.toNat ∧
      Spread (some (from_.getD s.paddr.toNat + s.size.toNat)) l

/-- The stretch the NOFF header gives to the uninitialised data. -/
def stretch : List Scnhdr → Finset Nat
  | [] => ∅
  | b :: l => Finset.Ico b.paddr.toNat (b.paddr.toNat + total (b :: l))

/-- What the code needs to meet its purpose. -/
def Convertible (file : List Byte) : Prop :=
  (∀ s ∈ sections file, Readable file s) → (ofKind .data (sections file)).length ≤ 1 →
    (Spread none (ofKind .bss (sections file)) →
      (ofKind .text (sections file)).length ≤ 1 ∧
        stretch (ofKind .bss (sections file)) = cover (ofKind .bss (sections file))) ∧
    (¬ Spread none (ofKind .bss (sections file)) →
      ¬ (((sections file).filter fun s => s.kind = some .text).length = 1 ∧
        Contiguous (ofKind .bss (sections file))))

/-! ## Sections taken together -/

section Lists

variable {l m : List Scnhdr} {s t : Scnhdr} {k : Kind} {a : Nat}

theorem mem_ofKind : s ∈ ofKind k l ↔ s ∈ l ∧ s.size ≠ 0 ∧ s.kind = some k := by
  simp [ofKind]

theorem ofKind_append : ofKind k (l ++ m) = ofKind k l ++ ofKind k m := List.filter_append ..

theorem ofKind_of (size : s.size ≠ 0) (kind : s.kind = some k) : ofKind k [s] = [s] := by
  simpa [ofKind, kind] using size

theorem ofKind_empty (size : s.size = 0) : ofKind k [s] = [] := by
  simp [ofKind, size]

theorem ofKind_other {k' : Kind} (kind : s.kind = some k') (other : k' ≠ k) :
    ofKind k [s] = [] := by
  simp [ofKind, kind, other]

@[simp] theorem total_cons : total (s :: l) = s.size.toNat + total l := by
  simp [total]

theorem total_append : total (l ++ m) = total l + total m := by
  simp [total]

theorem size_pos (size : s.size ≠ 0) : 0 < s.size.toNat := by
  apply Nat.pos_of_ne_zero
  intro zero
  exact size (BitVec.eq_of_toNat_eq zero)

theorem mem_cover : a ∈ cover l ↔ ∃ s ∈ l, s.Covers a := by
  induction l with
  | nil => simp [cover]
  | cons s l ih =>
      have step : cover (s :: l) =
          Finset.Ico s.paddr.toNat (s.paddr.toNat + s.size.toNat) ∪ cover l := rfl
      rw [step, Finset.mem_union, Finset.mem_Ico, ih]
      simp [Scnhdr.Covers]

/-- Sections at different places cover as many addresses as they have bytes. -/
theorem card_cover (apart : l.Pairwise fun s t => ∀ a, s.Covers a → ¬ t.Covers a) :
    (cover l).card = total l := by
  induction l with
  | nil => rfl
  | cons s l ih =>
      obtain ⟨first, rest⟩ := List.pairwise_cons.mp apart
      have disjoint : Disjoint (Finset.Ico s.paddr.toNat (s.paddr.toNat + s.size.toNat))
          (cover l) := by
        rw [Finset.disjoint_left]
        intro a here there
        obtain ⟨t, member, covers⟩ := mem_cover.mp there
        exact first t member a (Finset.mem_Ico.mp here) covers
      have step : cover (s :: l) =
          Finset.Ico s.paddr.toNat (s.paddr.toNat + s.size.toNat) ∪ cover l := rfl
      rw [step, Finset.card_union_of_disjoint disjoint, Nat.card_Ico, ih rest, total_cons]
      omega

theorem limit_append : limit (l ++ [s]) = some ((limit l).getD s.paddr.toNat + s.size.toNat) := by
  cases l with
  | nil => simp [limit, total]
  | cons b l =>
      simp only [limit, List.cons_append, total_cons, total_append, Option.getD_some]
      simp [total]
      omega

theorem total_le_of_sublist (sub : l.Sublist m) : total l ≤ total m := by
  induction sub with
  | slnil => exact Nat.le_refl _
  | cons s _ ih =>
      rw [total_cons]
      omega
  | cons_cons s _ ih =>
      rw [total_cons, total_cons]
      omega

end Lists

theorem WellFormed.total_le {file : List Byte} (formed : WellFormed file) :
    total (sections file) ≤ 2 ^ 31 := by
  rw [← card_cover formed.apart]
  have inside : cover (sections file) ⊆ Finset.range (2 ^ 31) := by
    intro a member
    obtain ⟨s, there, low, high⟩ := mem_cover.mp member
    have size : s.size ≠ 0 := by
      intro zero
      rw [zero] at high
      simp at high
      omega
    have := formed.addresses s there size
    rw [Finset.mem_range]
    omega
  have card := Finset.card_le_card inside
  rwa [Finset.card_range] at card

/-- What the loop relies on. -/
structure Sane (l : List Scnhdr) : Prop where
  known : ∀ s ∈ l, s.kind ≠ none
  addresses : ∀ s ∈ l, s.size ≠ 0 → s.paddr.toNat + s.size.toNat ≤ 2 ^ 31
  places : ∀ s ∈ l, 0 ≤ s.scnptr.toInt
  small : total l ≤ 2 ^ 31

theorem WellFormed.sane {file : List Byte} (formed : WellFormed file) : Sane (sections file) :=
  ⟨formed.known, formed.addresses, formed.places, formed.total_le⟩

/-! ## The loop -/

/-- The segment of the NOFF header stands for the section, and `written` has its bytes. -/
structure Slot (file written : List Byte) (seg : Segment) (s : Scnhdr) : Prop where
  virtualAddr : seg.virtualAddr = s.paddr
  size : seg.size = s.size
  behind : noffHeaderSize ≤ seg.inFileAddr.toNat
  inside : seg.inFileAddr.toNat + s.size.toNat ≤ noffHeaderSize + written.length
  bytes : readAt written (seg.inFileAddr.toNat - noffHeaderSize) s.size.toNat =
    readAt file s.scnptr.toNat s.size.toNat

/-- The segment stands for the section, or is empty if there is none. -/
def StandsFor (file written : List Byte) (seg : Segment) : Option Scnhdr → Prop
  | none => seg.size = 0
  | some s => Slot file written seg s

/-- The segment is as long as the sections together, and starts where the first one does. -/
def Gathers (seg : Segment) : List Scnhdr → Prop
  | [] => seg.size = 0
  | b :: l => seg.virtualAddr = b.paddr ∧ seg.size.toNat = total (b :: l)

/-- What the loop has made of the sections `done`.  The code is the last of the `.text`
sections. -/
structure Copied (file : List Byte) (done : List Scnhdr) (out : Output) : Prop where
  place : out.inNoffFile.toNat = noffHeaderSize + out.written.length
  small : out.written.length ≤ total done
  code : StandsFor file out.written out.noffH.code (ofKind .text done).getLast?
  single : (ofKind .data done).length ≤ 1
  initData : StandsFor file out.written out.noffH.initData (ofKind .data done).getLast?
  uninitData : Gathers out.noffH.uninitData (ofKind .bss done)

section Loop

variable {file written bytes : List Byte} {done : List Scnhdr} {out out' : Output} {s t : Scnhdr}
  {seg : Segment}

theorem Slot.append (slot : Slot file written seg s) : Slot file (written ++ bytes) seg s := by
  refine ⟨slot.virtualAddr, slot.size, slot.behind, ?_, ?_⟩
  · have := slot.inside
    rw [List.length_append]
    omega
  · rw [← slot.bytes, readAt, readAt, List.drop_append_of_le_length, List.take_append_of_le_length]
    · have := slot.inside
      have := slot.behind
      rw [List.length_drop]
      omega
    · have := slot.inside
      have := slot.behind
      omega

theorem StandsFor.append {o : Option Scnhdr} (stands : StandsFor file written seg o) :
    StandsFor file (written ++ bytes) seg o := by
  cases o with
  | none => exact stands
  | some s => exact Slot.append stands

theorem read_eq_ok {position : Nat} {n : Word} :
    read file position n = .ok bytes ↔
      bytes = readAt file position n.toNat ∧ bytes.length = n.toNat := by
  simp only [read]
  split
  · rename_i full
    constructor
    · intro same
      cases same
      exact ⟨rfl, full⟩
    · rintro ⟨rfl, -⟩
      rfl
  · rename_i short
    constructor
    · intro bad
      cases bad
    · rintro ⟨rfl, full⟩
      exact absurd full short

/-- `Read` finds what it is asked for if the file goes that far. -/
theorem read_total {position : Nat} {n : Word} (some_ : 0 < n.toNat) :
    (∃ bytes, read file position n = .ok bytes) ↔ position + n.toNat ≤ file.length := by
  constructor
  · rintro ⟨bytes, got⟩
    obtain ⟨rfl, full⟩ := read_eq_ok.mp got
    rw [readAt, List.length_take, List.length_drop] at full
    omega
  · intro covered
    exact ⟨_, read_eq_ok.mpr ⟨rfl, length_readAt file covered⟩⟩

/-- Copying a section makes a slot for it and moves no other. -/
theorem Copied.copy (copied : Copied file done out) (small : total done + s.size.toNat ≤ 2 ^ 31)
    (place : 0 ≤ s.scnptr.toInt) (made : copy file out s = .ok (seg, out')) :
    Slot file out'.written seg s ∧ out'.noffH = out.noffH ∧
      out'.inNoffFile.toNat = noffHeaderSize + out'.written.length ∧
      out'.written.length = out.written.length + s.size.toNat ∧
      ∃ bytes, out'.written = out.written ++ bytes := by
  obtain ⟨buffer, got, rest⟩ := bind_eq_ok.mp made
  cases rest
  obtain ⟨found, full⟩ := read_eq_ok.mp got
  rw [lseek, if_pos place] at found
  have written := copied.place
  have below := copied.small
  have header : noffHeaderSize = 40 := rfl
  have next : (out.inNoffFile + s.size).toNat = out.inNoffFile.toNat + s.size.toNat := by
    rw [BitVec.toNat_add, Nat.mod_eq_of_lt (by omega)]
  refine ⟨⟨rfl, rfl, ?_, ?_, ?_⟩, rfl, ?_, ?_, buffer, rfl⟩
  · show noffHeaderSize ≤ out.inNoffFile.toNat
    omega
  · show out.inNoffFile.toNat + s.size.toNat ≤ _ + (out.written ++ buffer).length
    rw [List.length_append]
    omega
  · show readAt (out.written ++ buffer) (out.inNoffFile.toNat - noffHeaderSize) _ = _
    rw [written, Nat.add_sub_cancel_left, readAt, List.drop_left, ← found, ← full, List.take_length]
  · show (out.inNoffFile + s.size).toNat = _ + (out.written ++ buffer).length
    rw [next, List.length_append]
    omega
  · show (out.written ++ buffer).length = _
    rw [List.length_append, full]

/-- What the loop wants of a section, after the sections `done`. -/
def Takes (file : List Byte) (done : List Scnhdr) (s : Scnhdr) : Prop :=
  s.size ≠ 0 → match s.kind with
    | some .text => Readable file s
    | some .data => ofKind .data done = [] ∧ Readable file s
    | some .bss => limit (ofKind .bss done) ≠ some s.paddr.toNat
    | none => False

theorem copy_total (size : s.size ≠ 0) (stored : s.kind ≠ some .bss) (place : 0 ≤ s.scnptr.toInt) :
    (∃ r, copy file out s = .ok r) ↔ Readable file s := by
  have found := @read_total file (lseek out.position s.scnptr) s.size (size_pos size)
  have seek : lseek out.position s.scnptr = s.scnptr.toNat := if_pos place
  constructor
  · rintro ⟨r, made⟩ _ _
    obtain ⟨buffer, got, -⟩ := bind_eq_ok.mp made
    rw [← seek]
    exact found.mp ⟨buffer, got⟩
  · intro readable
    rw [seek] at found
    obtain ⟨buffer, got⟩ := found.mpr (readable size stored)
    rw [copy, seek, got]
    exact ⟨_, rfl⟩

/-- The slot of the data is taken if there was a data section. -/
theorem Copied.initData_size (copied : Copied file done out) :
    out.noffH.initData.size = 0 ↔ ofKind .data done = [] := by
  have stands := copied.initData
  constructor
  · intro zero
    by_contra some_
    have last := List.getLast?_eq_some_getLast some_
    rw [last] at stands
    have member := List.getLast_mem some_
    exact absurd (stands.size.symm.trans zero) (mem_ofKind.mp member).2.1
  · intro none
    rw [none] at stands
    exact stands

/-- What the header says about the uninitialised data. -/
theorem Copied.limit_eq (copied : Copied file done out) :
    limit (ofKind .bss done) =
      if out.noffH.uninitData.size = 0 then none
      else some (out.noffH.uninitData.virtualAddr.toNat + out.noffH.uninitData.size.toNat) := by
  have slot := copied.uninitData
  match shape : ofKind .bss done with
  | [] =>
      rw [shape] at slot
      have zero : out.noffH.uninitData.size = 0 := slot
      rw [if_pos zero]
      rfl
  | b :: l =>
      rw [shape] at slot
      have member : b ∈ ofKind .bss done := by simp [shape]
      have pos := size_pos (mem_ofKind.mp member).2.1
      rw [if_neg, slot.1, slot.2]
      · rfl
      · intro zero
        have none := slot.2
        rw [zero, total_cons] at none
        simp at none
        omega

section Branches

variable (file out)

theorem copySection_empty (size : s.size = 0) : copySection file out s = .ok out := by
  rw [copySection, if_pos size]
  rfl

theorem copySection_text (size : s.size ≠ 0) (kind : s.kind = some .text) :
    copySection file out s = (do
      let (code, out) ← copy file out s
      return { out with noffH := { out.noffH with code } }) := by
  rw [copySection, if_neg size, kind]

theorem copySection_data (size : s.size ≠ 0) (kind : s.kind = some .data) :
    copySection file out s =
      if out.noffH.initData.size ≠ 0 then .error .bothData
      else do
        let (initData, out) ← copy file out s
        return { out with noffH := { out.noffH with initData } } := by
  rw [copySection, if_neg size, kind]
  rfl

theorem copySection_bss (size : s.size ≠ 0) (kind : s.kind = some .bss) :
    copySection file out s =
      if out.noffH.uninitData.size ≠ 0 then
        if s.paddr = out.noffH.uninitData.virtualAddr + out.noffH.uninitData.size then
          .error .bothBss
        else .ok { out with noffH := { out.noffH with
          uninitData := { out.noffH.uninitData with size := out.noffH.uninitData.size + s.size } } }
      else .ok { out with noffH := { out.noffH with
        uninitData := { out.noffH.uninitData with virtualAddr := s.paddr, size := s.size } } } := by
  rw [copySection, if_neg size, kind]
  rfl

end Branches

/-- The loop takes the section it wants. -/
theorem takes_iff (copied : Copied file done out) (known : s.kind ≠ none)
    (place : 0 ≤ s.scnptr.toInt)
    (fits : out.noffH.uninitData.virtualAddr.toNat + out.noffH.uninitData.size.toNat < 2 ^ 32) :
    (∃ out', copySection file out s = .ok out') ↔ Takes file done s := by
  unfold Takes
  by_cases size : s.size = 0
  · rw [copySection_empty file out size]
    exact ⟨fun _ bad => absurd size bad, fun _ => ⟨out, rfl⟩⟩
  match kind : s.kind with
  | none => exact absurd kind known
  | some .text =>
      rw [copySection_text file out size kind, forall_prop_of_true size,
        ← @copy_total file out s size (by rw [kind]; simp) place]
      constructor
      · rintro ⟨out', made⟩
        obtain ⟨r, got, -⟩ := bind_eq_ok.mp made
        exact ⟨r, got⟩
      · rintro ⟨⟨seg, out'⟩, got⟩
        rw [got]
        exact ⟨_, rfl⟩
  | some .data =>
      rw [copySection_data file out size kind, forall_prop_of_true size,
        ← @copy_total file out s size (by rw [kind]; simp) place, ← copied.initData_size]
      constructor
      · rintro ⟨out', made⟩
        split at made
        · cases made
        · rename_i zero
          obtain ⟨r, got, -⟩ := bind_eq_ok.mp made
          exact ⟨not_not.mp zero, r, got⟩
      · rintro ⟨zero, ⟨seg, out'⟩, got⟩
        rw [if_neg (not_not.mpr zero), got]
        exact ⟨_, rfl⟩
  | some .bss =>
      rw [copySection_bss file out size kind, forall_prop_of_true size, copied.limit_eq]
      have sum : (out.noffH.uninitData.virtualAddr + out.noffH.uninitData.size).toNat =
          out.noffH.uninitData.virtualAddr.toNat + out.noffH.uninitData.size.toNat := by
        rw [BitVec.toNat_add, Nat.mod_eq_of_lt fits]
      by_cases zero : out.noffH.uninitData.size = 0
      · rw [if_neg (not_not.mpr zero), if_pos zero]
        exact ⟨fun _ => by simp, fun _ => ⟨_, rfl⟩⟩
      · rw [if_pos zero, if_neg zero, ← sum]
        split
        · rename_i follows
          constructor
          · rintro ⟨out', bad⟩
            cases bad
          · intro apart
            rw [follows] at apart
            exact absurd rfl apart
        · rename_i follows
          refine ⟨fun _ same => ?_, fun _ => ⟨_, rfl⟩⟩
          exact follows (BitVec.eq_of_toNat_eq (Option.some.inj same)).symm

/-- A section leaves the slots of the other kinds. -/
theorem ofKind_concat_other {k k' : Kind} (kind : s.kind = some k') (other : k' ≠ k) :
    ofKind k (done ++ [s]) = ofKind k done := by
  rw [ofKind_append, ofKind_other kind other, List.append_nil]

theorem ofKind_concat_self {k : Kind} (size : s.size ≠ 0) (kind : s.kind = some k) :
    ofKind k (done ++ [s]) = ofKind k done ++ [s] := by
  rw [ofKind_append, ofKind_of size kind]

theorem total_concat : total (done ++ [s]) = total done + s.size.toNat := by
  simp [total]

theorem Copied.empty (copied : Copied file done out) (size : s.size = 0) :
    Copied file (done ++ [s]) out := by
  have same (k : Kind) : ofKind k (done ++ [s]) = ofKind k done := by
    rw [ofKind_append, ofKind_empty size, List.append_nil]
  have below := copied.small
  have sum := @total_concat done s
  refine ⟨copied.place, by omega, ?_, ?_, ?_, ?_⟩ <;> rw [same]
  · exact copied.code
  · exact copied.single
  · exact copied.initData
  · exact copied.uninitData

theorem Copied.text (copied : Copied file done out) (small : total done + s.size.toNat ≤ 2 ^ 31)
    (place : 0 ≤ s.scnptr.toInt) (size : s.size ≠ 0) (kind : s.kind = some .text)
    (made : copySection file out s = .ok out') : Copied file (done ++ [s]) out' := by
  rw [copySection_text file out size kind] at made
  obtain ⟨⟨seg, out₁⟩, got, rest⟩ := bind_eq_ok.mp made
  cases rest
  obtain ⟨slot, header, place', length, bytes, written⟩ := copied.copy small place got
  have below := copied.small
  have sum := @total_concat done s
  have room : out₁.written.length ≤ total (done ++ [s]) := by omega
  refine ⟨place', room, ?_, ?_, ?_, ?_⟩
  · rw [ofKind_concat_self size kind, List.getLast?_concat]
    exact slot
  · rw [ofKind_concat_other kind (by decide)]
    exact copied.single
  · rw [ofKind_concat_other kind (by decide)]
    show StandsFor file out₁.written out₁.noffH.initData _
    rw [header, written]
    exact copied.initData.append
  · rw [ofKind_concat_other kind (by decide)]
    show Gathers out₁.noffH.uninitData _
    rw [header]
    exact copied.uninitData

theorem Copied.data (copied : Copied file done out) (small : total done + s.size.toNat ≤ 2 ^ 31)
    (place : 0 ≤ s.scnptr.toInt) (size : s.size ≠ 0) (kind : s.kind = some .data)
    (made : copySection file out s = .ok out') : Copied file (done ++ [s]) out' := by
  rw [copySection_data file out size kind] at made
  split at made
  · cases made
  rename_i zero
  have first := copied.initData_size.mp (not_not.mp zero)
  obtain ⟨⟨seg, out₁⟩, got, rest⟩ := bind_eq_ok.mp made
  cases rest
  obtain ⟨slot, header, place', length, bytes, written⟩ := copied.copy small place got
  have below := copied.small
  have sum := @total_concat done s
  have room : out₁.written.length ≤ total (done ++ [s]) := by omega
  refine ⟨place', room, ?_, ?_, ?_, ?_⟩
  · rw [ofKind_concat_other kind (by decide)]
    show StandsFor file out₁.written out₁.noffH.code _
    rw [header, written]
    exact copied.code.append
  · rw [ofKind_concat_self size kind, first]
    exact Nat.le_refl _
  · rw [ofKind_concat_self size kind, List.getLast?_concat]
    exact slot
  · rw [ofKind_concat_other kind (by decide)]
    show Gathers out₁.noffH.uninitData _
    rw [header]
    exact copied.uninitData

/-- Uninitialised data only changes its own slot. -/
theorem Copied.gather (copied : Copied file done out) (size : s.size ≠ 0)
    (kind : s.kind = some .bss) (gathers : Gathers seg (ofKind .bss done ++ [s])) :
    Copied file (done ++ [s]) { out with noffH := { out.noffH with uninitData := seg } } := by
  have below := copied.small
  have sum := @total_concat done s
  have room : out.written.length ≤ total (done ++ [s]) := by omega
  refine ⟨copied.place, room, ?_, ?_, ?_, ?_⟩
  · rw [ofKind_concat_other kind (by decide)]
    exact copied.code
  · rw [ofKind_concat_other kind (by decide)]
    exact copied.single
  · rw [ofKind_concat_other kind (by decide)]
    exact copied.initData
  · rw [ofKind_concat_self size kind]
    exact gathers

theorem Copied.bss (copied : Copied file done out) (small : total done + s.size.toNat ≤ 2 ^ 31)
    (size : s.size ≠ 0) (kind : s.kind = some .bss) (made : copySection file out s = .ok out') :
    Copied file (done ++ [s]) out' := by
  have gathered := copied.uninitData
  have inside : total (ofKind .bss done) ≤ total done := total_le_of_sublist List.filter_sublist
  rw [copySection_bss file out size kind] at made
  split at made
  · rename_i taken
    split at made
    · cases made
    cases made
    apply copied.gather size kind
    cases shape : ofKind .bss done with
    | nil =>
        rw [shape] at gathered
        exact absurd gathered taken
    | cons b l =>
        rw [shape] at gathered inside
        obtain ⟨first, length⟩ := gathered
        refine ⟨first, ?_⟩
        show (out.noffH.uninitData.size + s.size).toNat = total ((b :: l) ++ [s])
        rw [BitVec.toNat_add, length, total_concat, Nat.mod_eq_of_lt (by omega)]
  · rename_i zero
    cases made
    apply copied.gather size kind
    cases shape : ofKind .bss done with
    | nil => exact ⟨rfl, by simp [total]⟩
    | cons b l =>
        have taken := copied.limit_eq
        rw [shape, if_pos (not_not.mp zero)] at taken
        cases taken

/-- **One section.** -/
theorem Copied.step (copied : Copied file done out) (small : total done + s.size.toNat ≤ 2 ^ 31)
    (place : 0 ≤ s.scnptr.toInt) (made : copySection file out s = .ok out') :
    Copied file (done ++ [s]) out' := by
  by_cases size : s.size = 0
  · rw [copySection_empty file out size] at made
    cases made
    exact copied.empty size
  match kind : s.kind with
  | none =>
      rw [copySection, if_neg size, kind] at made
      cases made
  | some .text => exact copied.text small place size kind made
  | some .data => exact copied.data small place size kind made
  | some .bss => exact copied.bss small size kind made

/-- The end of the uninitialised data is a 32-bit number. -/
theorem Copied.fits (copied : Copied file done out)
    (addresses : ∀ s ∈ done, s.size ≠ 0 → s.paddr.toNat + s.size.toNat ≤ 2 ^ 31)
    (small : total done ≤ 2 ^ 31) :
    out.noffH.uninitData.virtualAddr.toNat + out.noffH.uninitData.size.toNat < 2 ^ 32 := by
  have gathered := copied.uninitData
  have inside : total (ofKind .bss done) ≤ total done := total_le_of_sublist List.filter_sublist
  match shape : ofKind .bss done with
  | [] =>
      rw [shape] at gathered
      have zero : out.noffH.uninitData.size = 0 := gathered
      have := out.noffH.uninitData.virtualAddr.isLt
      rw [zero]
      simpa using this
  | b :: l =>
      rw [shape] at gathered inside
      have member : b ∈ ofKind .bss done := by simp [shape]
      obtain ⟨there, size, -⟩ := mem_ofKind.mp member
      have := addresses b there size
      have := size_pos size
      rw [gathered.1, gathered.2]
      omega

theorem takes_split (known : s.kind ≠ none) {rest : List Scnhdr}
    (single : (ofKind .data done).length ≤ 1) :
    (Takes file done s ∧ (∀ t ∈ rest, Readable file t) ∧
      (ofKind .data (done ++ [s]) ++ ofKind .data rest).length ≤ 1 ∧
      Spread (limit (ofKind .bss (done ++ [s]))) (ofKind .bss rest)) ↔
    ((∀ t ∈ s :: rest, Readable file t) ∧
      (ofKind .data done ++ ofKind .data (s :: rest)).length ≤ 1 ∧
      Spread (limit (ofKind .bss done)) (ofKind .bss (s :: rest))) := by
  have cons (k : Kind) : ofKind k (s :: rest) = ofKind k [s] ++ ofKind k rest := by
    rw [← ofKind_append]
    rfl
  rw [List.forall_mem_cons, cons, cons, ofKind_append, ofKind_append, List.append_assoc]
  unfold Takes
  by_cases size : s.size = 0
  · have readable : Readable file s := fun bad => absurd size bad
    simp [ofKind_empty size, size, readable]
  match kind : s.kind with
  | none => exact absurd kind known
  | some .text =>
      rw [ofKind_other kind (show Kind.text ≠ .data by decide),
        ofKind_other kind (show Kind.text ≠ .bss by decide), forall_prop_of_true size]
      simp only [List.nil_append, List.append_nil, and_assoc]
  | some .data =>
      rw [ofKind_of size kind, ofKind_other kind (show Kind.data ≠ .bss by decide)]
      simp only [List.append_nil, List.nil_append, List.length_append, List.length_singleton]
      constructor
      · rintro ⟨taken, readable, one, spread⟩
        exact ⟨⟨(taken size).2, readable⟩, one, spread⟩
      · rintro ⟨⟨readable, others⟩, one, spread⟩
        refine ⟨fun _ => ⟨List.eq_nil_of_length_eq_zero (by omega), readable⟩, others, one, spread⟩
  | some .bss =>
      have readable : Readable file s := fun _ bad => absurd kind bad
      rw [ofKind_of size kind, ofKind_other kind (show Kind.bss ≠ .data by decide), limit_append]
      rw [forall_prop_of_true size]
      simp only [readable, List.nil_append, List.singleton_append, Spread, true_and]
      tauto

/-- **The loop** takes a list of sections if it can read the stored ones, finds one data section
at most, and no section of uninitialised data at the end of those before it. -/
theorem Copied.loop {rest : List Scnhdr} (copied : Copied file done out)
    (sane : Sane (done ++ rest)) :
    ((∃ out', rest.foldlM (copySection file) out = .ok out') ↔
      (∀ s ∈ rest, Readable file s) ∧ (ofKind .data done ++ ofKind .data rest).length ≤ 1 ∧
        Spread (limit (ofKind .bss done)) (ofKind .bss rest)) ∧
    ∀ out', rest.foldlM (copySection file) out = .ok out' → Copied file (done ++ rest) out' := by
  induction rest generalizing done out with
  | nil =>
      refine ⟨⟨fun _ => ⟨by simp, by simpa [ofKind] using copied.single, trivial⟩,
        fun _ => ⟨out, rfl⟩⟩, ?_⟩
      intro out' made
      cases made
      rw [List.append_nil]
      exact copied
  | cons s rest ih =>
      have member : s ∈ done ++ s :: rest := by simp
      have sum : total (done ++ s :: rest) = total done + (s.size.toNat + total rest) := by
        rw [total_append, total_cons]
      have small := sane.small
      have fits := copied.fits (fun t there => sane.addresses t (by simp [there])) (by omega)
      have takes := takes_iff copied (sane.known s member) (sane.places s member) fits
      have regroup : done ++ s :: rest = (done ++ [s]) ++ rest := by simp
      rw [regroup] at sane
      have step (out₁ : Output) (made : copySection file out s = .ok out₁) :=
        ih (copied.step (by omega) (sane.places s (by simp)) made) sane
      rw [← takes_split (sane.known s (by simp)) copied.single, ← takes, List.foldlM_cons, regroup]
      constructor
      · constructor
        · rintro ⟨out', made⟩
          obtain ⟨out₁, first, others⟩ := bind_eq_ok.mp made
          exact ⟨⟨out₁, first⟩, (step out₁ first).1.mp ⟨out', others⟩⟩
        · rintro ⟨⟨out₁, first⟩, others⟩
          rw [first]
          exact (step out₁ first).1.mpr others
      · intro out' made
        obtain ⟨out₁, first, others⟩ := bind_eq_ok.mp made
        exact (step out₁ first).2 out' others

end Loop

/-! ## The output -/

section Output

variable {file written noff : List Byte} {noffH : NoffHeader} {out : Output} {s : Scnhdr}
  {seg : Segment} {a : Nat} {b : Byte}

theorem length_headerBytes (h : NoffHeader) : (headerBytes h).length = noffHeaderSize := by
  simp [headerBytes, noffHeaderSize]

/-- The header is read back as it was written. -/
theorem ofBytes_headerBytes (h : NoffHeader) : NoffHeader.ofBytes (headerBytes h) = h := by
  unfold NoffHeader.ofBytes headerBytes
  simp only
  rw [load_flatMap_bytesOf _ rfl, load_flatMap_bytesOf _ rfl, load_flatMap_bytesOf _ rfl,
    load_flatMap_bytesOf _ rfl, load_flatMap_bytesOf _ rfl, load_flatMap_bytesOf _ rfl,
    load_flatMap_bytesOf _ rfl, load_flatMap_bytesOf _ rfl, load_flatMap_bytesOf _ rfl,
    load_flatMap_bytesOf _ rfl]

/-- A slot describes what its section does. -/
theorem Slot.describes (slot : Slot file written seg s) (stored : s.kind ≠ some .bss)
    (h : NoffHeader) :
    (seg.covers a ∧
      (headerBytes h ++ written)[seg.inFileAddr.toNat + (a - seg.virtualAddr.toNat)]? = some b) ↔
    s.Describes file a b := by
  unfold Segment.covers Scnhdr.Describes Scnhdr.Covers
  rw [slot.virtualAddr, slot.size, if_neg stored]
  refine and_congr_right fun ⟨low, high⟩ => ?_
  have behind := slot.behind
  have inside : a - s.paddr.toNat < s.size.toNat := by omega
  have length := length_headerBytes h
  have index : seg.inFileAddr.toNat + (a - s.paddr.toNat) - noffHeaderSize =
      seg.inFileAddr.toNat - noffHeaderSize + (a - s.paddr.toNat) := by omega
  rw [List.getElem?_append_right (by omega), length, index, ← getElem?_readAt written inside,
    slot.bytes, getElem?_readAt file inside]

theorem StandsFor.describes {o : Option Scnhdr} (stands : StandsFor file written seg o)
    (stored : ∀ s, o = some s → s.kind ≠ some .bss) (h : NoffHeader) :
    (seg.covers a ∧
      (headerBytes h ++ written)[seg.inFileAddr.toNat + (a - seg.virtualAddr.toNat)]? = some b) ↔
    ∃ s, o = some s ∧ s.Describes file a b := by
  cases o with
  | none =>
      have zero : seg.size = 0 := stands
      simp [Segment.covers, zero]
  | some s =>
      rw [Slot.describes stands (stored s rfl) h]
      simp

theorem Gathers.covers {l : List Scnhdr} (gathers : Gathers seg l) :
    seg.covers a ↔ a ∈ stretch l := by
  cases l with
  | nil =>
      have zero : seg.size = 0 := gathers
      simp [Segment.covers, zero, stretch]
  | cons b l =>
      rw [Segment.covers, gathers.1, gathers.2, stretch, Finset.mem_Ico]

theorem start_copied (file : List Byte) (noffH : NoffHeader) : Copied file [] (start file noffH) :=
  ⟨rfl, Nat.le_refl _, rfl, Nat.zero_le _, rfl, rfl⟩

theorem WellFormed.main_eq (formed : WellFormed file) (noffH : NoffHeader) :
    main file noffH = (do
      let out ← (sections file).foldlM (copySection file) (start file noffH)
      return headerBytes out.noffH ++ out.written) := by
  have headers := formed.headers
  unfold main
  rw [if_neg (by omega), if_neg (not_not.mpr formed.magic), if_neg (by omega),
    if_neg (not_not.mpr formed.omagic), if_neg (by omega)]

/-- The converter accepts the file. -/
def Accepted (file : List Byte) : Prop :=
  (∀ s ∈ sections file, Readable file s) ∧ (ofKind .data (sections file)).length ≤ 1 ∧
    Spread none (ofKind .bss (sections file))

theorem WellFormed.accepted_iff (formed : WellFormed file) :
    (∃ noff, main file noffH = .ok noff) ↔ Accepted file := by
  have loop : (∃ out, (sections file).foldlM (copySection file) (start file noffH) = .ok out) ↔
      Accepted file := ((start_copied file noffH).loop formed.sane).1
  rw [← loop, formed.main_eq]
  constructor
  · rintro ⟨noff, made⟩
    obtain ⟨out, looped, -⟩ := bind_eq_ok.mp made
    exact ⟨out, looped⟩
  · rintro ⟨out, looped⟩
    rw [looped]
    exact ⟨_, rfl⟩

/-- The memory the output describes. -/
theorem WellFormed.describes (formed : WellFormed file) (made : main file noffH = .ok noff) :
    NoffDescribes noff a b ↔
      (∃ s, (ofKind .text (sections file)).getLast? = some s ∧ s.Describes file a b) ∨
      (∃ s, (ofKind .data (sections file)).getLast? = some s ∧ s.Describes file a b) ∨
      (a ∈ stretch (ofKind .bss (sections file)) ∧ b = 0) := by
  rw [formed.main_eq] at made
  obtain ⟨out, looped, last⟩ := bind_eq_ok.mp made
  cases last
  have copied : Copied file (sections file) out :=
    ((start_copied file noffH).loop formed.sane).2 out looped
  have header : NoffHeader.ofBytes ((headerBytes out.noffH ++ out.written).take noffHeaderSize) =
      out.noffH := by
    rw [List.take_left' (length_headerBytes _), ofBytes_headerBytes]
  have stored {k : Kind} (other : k ≠ .bss) (s : Scnhdr)
      (last : (ofKind k (sections file)).getLast? = some s) : s.kind ≠ some .bss := by
    have member := List.mem_of_getLast? last
    rw [(mem_ofKind.mp member).2.2]
    simpa using other
  unfold NoffDescribes
  simp only [header]
  rw [copied.code.describes (stored (by decide)), copied.initData.describes (stored (by decide)),
    copied.uninitData.covers]

end Output

/-! ## The condition -/

section Condition

variable {file noff : List Byte} {noffH : NoffHeader} {s t : Scnhdr} {l : List Scnhdr} {a : Nat}
  {b : Byte}

theorem Scnhdr.Covers.size (covers : s.Covers a) : s.size ≠ 0 := by
  intro zero
  obtain ⟨low, high⟩ := covers
  rw [zero] at high
  simp at high
  omega

/-- The memory of the input, by the kinds of its sections. -/
theorem WellFormed.coff_split (formed : WellFormed file) :
    CoffDescribes file a b ↔
      (∃ s ∈ ofKind .text (sections file), s.Describes file a b) ∨
      (∃ s ∈ ofKind .data (sections file), s.Describes file a b) ∨
      (a ∈ cover (ofKind .bss (sections file)) ∧ b = 0) := by
  constructor
  · rintro ⟨s, member, describes⟩
    have size := describes.1.size
    match kind : s.kind with
    | none => exact absurd kind (formed.known s member)
    | some .text => exact .inl ⟨s, mem_ofKind.mpr ⟨member, size, kind⟩, describes⟩
    | some .data => exact .inr (.inl ⟨s, mem_ofKind.mpr ⟨member, size, kind⟩, describes⟩)
    | some .bss =>
        have zero := describes.2
        rw [if_pos kind] at zero
        exact .inr (.inr
          ⟨mem_cover.mpr ⟨s, mem_ofKind.mpr ⟨member, size, kind⟩, describes.1⟩, zero⟩)
  · rintro (⟨s, member, describes⟩ | ⟨s, member, describes⟩ | ⟨covered, rfl⟩)
    · exact ⟨s, (mem_ofKind.mp member).1, describes⟩
    · exact ⟨s, (mem_ofKind.mp member).1, describes⟩
    · obtain ⟨s, member, covers⟩ := mem_cover.mp covered
      obtain ⟨there, -, kind⟩ := mem_ofKind.mp member
      exact ⟨s, there, covers, by rw [if_pos kind]⟩

/-- Sections of different kinds do not meet. -/
theorem WellFormed.kinds_apart (formed : WellFormed file) {k k' : Kind} (other : k ≠ k')
    (here : s ∈ ofKind k (sections file)) (there : t ∈ ofKind k' (sections file))
    (covers : s.Covers a) : ¬ t.Covers a := by
  obtain ⟨inS, -, kind⟩ := mem_ofKind.mp here
  obtain ⟨inT, -, kind'⟩ := mem_ofKind.mp there
  have distinct : s ≠ t := by
    rintro rfl
    rw [kind] at kind'
    exact other (Option.some.inj kind')
  have symmetric : Std.Symm fun s t : Scnhdr => ∀ a, s.Covers a → ¬ t.Covers a :=
    ⟨fun x y apart a inY inX => apart a inX inY⟩
  exact formed.apart.forall inS inT distinct a covers

theorem WellFormed.kind_apart (formed : WellFormed file) (k : Kind) :
    (ofKind k (sections file)).Pairwise fun s t => ∀ a, s.Covers a → ¬ t.Covers a :=
  formed.apart.sublist List.filter_sublist

theorem getLast?_eq_some_iff_mem (short : l.length ≤ 1) : l.getLast? = some s ↔ s ∈ l := by
  match l with
  | [] => simp
  | [x] => simp [eq_comm]
  | _ :: _ :: _ => simp at short

theorem card_stretch (l : List Scnhdr) : (stretch l).card = total l := by
  cases l with
  | nil => rfl
  | cons b l =>
      rw [stretch, Nat.card_Ico]
      omega

/-- Where the uninitialised data must be, if nothing else describes its addresses. -/
theorem WellFormed.stretch_eq (formed : WellFormed file) (made : main file noffH = .ok noff)
    (same : ∀ a b, NoffDescribes noff a b ↔ CoffDescribes file a b) :
    stretch (ofKind .bss (sections file)) = cover (ofKind .bss (sections file)) := by
  have inside : cover (ofKind .bss (sections file)) ⊆ stretch (ofKind .bss (sections file)) := by
    intro a covered
    obtain ⟨s, member, covers⟩ := mem_cover.mp covered
    have described := (same a 0).mpr (formed.coff_split.mpr (.inr (.inr ⟨covered, rfl⟩)))
    rcases (formed.describes made).mp described with
      ⟨t, last, there⟩ | ⟨t, last, there⟩ | ⟨there, -⟩
    · exact absurd covers
        (formed.kinds_apart (by decide) (List.mem_of_getLast? last) member there.1)
    · exact absurd covers
        (formed.kinds_apart (by decide) (List.mem_of_getLast? last) member there.1)
    · exact there
  refine (Finset.eq_of_subset_of_card_le inside ?_).symm
  rw [card_stretch, card_cover (formed.kind_apart .bss)]

/-- A second `.text` would be lost. -/
theorem WellFormed.one_text (formed : WellFormed file) (made : main file noffH = .ok noff)
    (readable : ∀ s ∈ sections file, Readable file s)
    (same : ∀ a b, NoffDescribes noff a b ↔ CoffDescribes file a b) :
    (ofKind .text (sections file)).length ≤ 1 := by
  have apart := formed.kind_apart .text
  match shape : ofKind .text (sections file) with
  | [] => exact Nat.zero_le _
  | [_] => exact Nat.le_refl _
  | t :: u :: l =>
      exfalso
      have member : t ∈ ofKind .text (sections file) := by simp [shape]
      obtain ⟨inFile, size, kind⟩ := mem_ofKind.mp member
      have pos := size_pos size
      have covers : t.Covers t.paddr.toNat := ⟨Nat.le_refl _, by omega⟩
      have room := readable t inFile size (by rw [kind]; simp)
      have byte : file[t.scnptr.toNat]? = some (file.get ⟨t.scnptr.toNat, by omega⟩) :=
        List.getElem?_eq_getElem (by omega)
      have describes : t.Describes file t.paddr.toNat (file.get ⟨t.scnptr.toNat, by omega⟩) := by
        refine ⟨covers, ?_⟩
        rw [if_neg (by rw [kind]; simp), Nat.sub_self, Nat.add_zero]
        exact byte
      have described := (same _ _).mpr (formed.coff_split.mpr (.inl ⟨t, member, describes⟩))
      rcases (formed.describes made).mp described with
        ⟨s, last, there⟩ | ⟨s, last, there⟩ | ⟨there, -⟩
      · rw [shape, List.getLast?_cons_cons] at last
        rw [shape] at apart
        exact (List.pairwise_cons.mp apart).1 s (List.mem_of_getLast? last) _ covers there.1
      · exact formed.kinds_apart (by decide) member (List.mem_of_getLast? last) covers there.1
      · rw [formed.stretch_eq made same] at there
        obtain ⟨s, among, meets⟩ := mem_cover.mp there
        exact formed.kinds_apart (by decide) member among covers meets

/-- When an accepted input is converted well. -/
theorem WellFormed.same_iff (formed : WellFormed file) (made : main file noffH = .ok noff) :
    (∀ a b, NoffDescribes noff a b ↔ CoffDescribes file a b) ↔
      (ofKind .text (sections file)).length ≤ 1 ∧
        stretch (ofKind .bss (sections file)) = cover (ofKind .bss (sections file)) := by
  obtain ⟨readable, single, -⟩ := formed.accepted_iff.mp ⟨noff, made⟩
  constructor
  · intro same
    exact ⟨formed.one_text made readable same, formed.stretch_eq made same⟩
  · rintro ⟨short, filled⟩ a b
    rw [formed.describes made, formed.coff_split, filled]
    simp only [getLast?_eq_some_iff_mem short, getLast?_eq_some_iff_mem single]

/-- **When the converter does its work**: unless the sections cannot be read or there are two of
data, which it may refuse, it needs one `.text` at most and uninitialised data that fills the
stretch from the first section of it on without any section starting at the end of those
before it; and sections of which one does must not be what the linker makes. -/
theorem preserves_iff (formed : WellFormed file) :
    Preserves file noffH ↔ Convertible file := by
  have accepted := @WellFormed.accepted_iff file noffH formed
  constructor
  · intro preserves readable single
    constructor
    · intro spread
      obtain ⟨noff, made⟩ := accepted.mpr ⟨readable, single, spread⟩
      exact (formed.same_iff made).mp (preserves.image noff made)
    · rintro adjoins ⟨text, bss⟩
      obtain ⟨-, -, spread⟩ := accepted.mp (preserves.accepts ⟨readable, text, single, bss⟩)
      exact adjoins spread
  · intro convertible
    constructor
    · intro noff made
      obtain ⟨readable, single, spread⟩ := accepted.mp ⟨noff, made⟩
      exact (formed.same_iff made).mpr ((convertible readable single).1 spread)
    · intro regular
      apply accepted.mpr
      refine ⟨regular.readable, regular.data, ?_⟩
      by_contra adjoins
      exact (convertible regular.readable regular.data).2 adjoins ⟨regular.text, regular.bss⟩

end Condition

/-! ## Two inputs -/

/-- A section header. -/
def scnhdrBytes (name : String) (paddr size scnptr : Word) : List Byte :=
  (cString name ++ List.replicate 8 0).take 8 ++
    [paddr, 0, size, scnptr, 0, 0, 0, 0].flatMap (bytesOf · 4)

/-- A COFF file with these section headers and these bytes behind them. -/
def coffBytes (headers : List (List Byte)) (raw : List Byte) : List Byte :=
  bytesOf mipselMagic 2 ++ bytesOf (BitVec.ofNat 32 headers.length) 2 ++ List.replicate 16 0 ++
    (bytesOf omagic 2 ++ List.replicate 54 0) ++ headers.flatten ++ raw

/-- One instruction and one word of zeros, and nothing else. -/
def plainFile : List Byte :=
  coffBytes [scnhdrBytes ".text" 0 4 156, scnhdrBytes ".bss" 4 4 0] [0x08, 0, 0xe0, 0x03]

def plainText : Scnhdr := ⟨cString ".text", 0, 4, 156⟩
def plainBss : Scnhdr := ⟨cString ".bss", 4, 4, 0⟩

theorem plain_sections : sections plainFile = [plainText, plainBss] := by decide +kernel

theorem plain_wellFormed : WellFormed plainFile := by
  refine ⟨by decide +kernel, by decide +kernel, by decide +kernel, ?_, ?_, ?_, ?_⟩ <;>
    rw [plain_sections]
  · decide
  · decide
  · decide
  · simp [Scnhdr.Covers, plainText, plainBss]
    omega

def zeroHeader : NoffHeader := ⟨0, ⟨0, 0, 0⟩, ⟨0, 0, 0⟩, ⟨0, 0, 0⟩⟩

/-- It is converted well. -/
theorem preserves_plain : Preserves plainFile zeroHeader := by
  refine (preserves_iff plain_wellFormed).mpr ?_
  have bss : ofKind .bss [plainText, plainBss] = [plainBss] := by decide
  intro _ _
  rw [plain_sections, bss]
  refine ⟨fun _ => ⟨by decide, by decide⟩, fun adjoins => ?_⟩
  exact absurd ⟨by simp, trivial⟩ adjoins

/-- The same with the zeros split between `.sbss` and `.bss`. -/
def splitFile : List Byte :=
  coffBytes [scnhdrBytes ".text" 0 4 196, scnhdrBytes ".sbss" 4 4 0, scnhdrBytes ".bss" 8 4 0]
    [0x08, 0, 0xe0, 0x03]

def splitText : Scnhdr := ⟨cString ".text", 0, 4, 196⟩
def splitSbss : Scnhdr := ⟨cString ".sbss", 4, 4, 0⟩
def splitBss : Scnhdr := ⟨cString ".bss", 8, 4, 0⟩

theorem split_sections : sections splitFile = [splitText, splitSbss, splitBss] := by decide +kernel

theorem split_wellFormed : WellFormed splitFile := by
  refine ⟨by decide +kernel, by decide +kernel, by decide +kernel, ?_, ?_, ?_, ?_⟩ <;>
    rw [split_sections]
  · decide
  · decide
  · decide
  · simp [Scnhdr.Covers, splitText, splitSbss, splitBss]
    refine ⟨⟨?_, ?_⟩, ?_⟩ <;> intros <;> omega

theorem split_regular : Regular splitFile := by
  have length : splitFile.length = 200 := by decide +kernel
  refine ⟨?_, ?_, ?_, 4, ?_⟩ <;> rw [split_sections]
  · unfold Readable
    rw [length]
    decide
  · decide
  · decide
  · decide

/-- It is what the linker makes, and it is refused. -/
theorem contiguous_bss_refused : WellFormed splitFile ∧ ¬ Preserves splitFile zeroHeader := by
  refine ⟨split_wellFormed, fun preserves => ?_⟩
  obtain ⟨-, -, spread⟩ := split_wellFormed.accepted_iff.mp (preserves.accepts split_regular)
  have bss : ofKind .bss [splitText, splitSbss, splitBss] = [splitSbss, splitBss] := by decide
  rw [split_sections, bss] at spread
  exact spread.2.1 rfl

end Nachos.Bin.Coff2noff
