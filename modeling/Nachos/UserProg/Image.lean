/-
# Nachos.UserProg.Image -- the memory a program starts with

The linker script puts the code at address 0, the initialised data right after it and the
uninitialised data after that, and `coff2noff` stores the first two in the file one after the
other.  `linkedByte` is the image such a file describes; `InitialImage` says that `Initialize`
makes room for all of it, and that the first load of a page, whatever its frame held before,
puts there what the image says.

A page is loaded from one segment, from its place in the file on, and since memory and file
have the same order the page is right across the end of the code.  It is not right at the end
of the file: `ReadAt` is short there, and the rest of the page keeps what the frame held.
-/
import Nachos.UserProg.Coherence

namespace Nachos.UserProg

open Nachos.Lib.Bytes
open Nachos.Machine
open Nachos.FileSys (FileSystem OpenFile)

set_option autoImplicit false

/-! ## Linked executables -/

/-- The bytes the file stores. -/
def NoffHeader.stored (noffH : NoffHeader) : Nat :=
    noffH.code.size.toNat + noffH.initData.size.toNat

/-- The bytes of the address space that are not stack. -/
def NoffHeader.extent (noffH : NoffHeader) : Nat := noffH.stored + noffH.uninitData.size.toNat

/-- A file as the linker script and `coff2noff` make it.  The fields are `int`s and not
negative; a segment without bytes may be anywhere. -/
structure Linked (noffH : NoffHeader) (file : List Byte) : Prop where
  complete : noffHeaderSize ≤ file.length
  header : NoffHeader.ofBytes (file.take noffHeaderSize) = noffH
  magic : noffH.noffMagic = noffMagic
  code : noffH.code.virtualAddr.toNat = 0
  initData : 0 < noffH.initData.size.toNat →
    noffH.initData.virtualAddr.toNat = noffH.code.size.toNat ∧
    noffH.initData.inFileAddr.toNat = noffH.code.inFileAddr.toNat + noffH.code.size.toNat
  uninitData : 0 < noffH.uninitData.size.toNat → noffH.uninitData.virtualAddr.toNat = noffH.stored
  size : noffH.uninitData.size.toNat < 2 ^ 31
  /-- The file ends with the last byte it stores. -/
  ends : file.length = noffH.code.inFileAddr.toNat + noffH.stored
  positions : file.length < 2 ^ 31

/-- The segment has a byte at address `a`. -/
def Segment.covers (seg : Segment) (a : Nat) : Prop :=
  seg.virtualAddr.toNat ≤ a ∧ a < seg.virtualAddr.toNat + seg.size.toNat

instance (seg : Segment) (a : Nat) : Decidable (seg.covers a) :=
  inferInstanceAs (Decidable (_ ∧ _))

/-- The byte of the file that belongs at address `a` of the segment. -/
def Segment.byteAt (seg : Segment) (file : List Byte) (a : Nat) : Byte :=
  file.getD (seg.inFileAddr.toNat + (a - seg.virtualAddr.toNat)) 0

/-- The image: the bytes of the code and of the initialised data, and zeros. -/
def linkedByte (noffH : NoffHeader) (file : List Byte) (a : Nat) : Byte :=
  if noffH.code.covers a then noffH.code.byteAt file a
  else if noffH.initData.covers a then noffH.initData.byteAt file a
  else 0

/-! ## The first load of a page -/

/-- Page `i` of a process that runs the file faults for the first time. -/
structure FirstFault (c : Config) (noffH : NoffHeader) (file : List Byte) (s : Vm) (i : Nat) :
    Prop where
  owns : ∃ others, Owns c others s
  apart : s.storedExecutable.file ≠ s.backing.file.file
  executable : s.fileSystem.data s.storedExecutable.file = file
  numPages : s.numPages = imagePages noffH
  inside : i < s.numPages
  unloaded : (s.pageTable i).physicalPage < 0

/-- The process starts with the image of the file. -/
structure InitialImage (noffH : NoffHeader) (file : List Byte) : Prop where
  /-- Every address of every segment has a page. -/
  room : ∀ seg ∈ [noffH.code, noffH.initData, noffH.uninitData], ∀ a, seg.covers a →
    a / pageSize < imagePages noffH
  /-- The first load of a page makes each of its bytes right. -/
  loads : ∀ c s i s', FirstFault c noffH file s i → demandpage c s i = .ok (true, s') →
    ∀ o < pageSize, s'.mainMemory (frameAddr (s'.pageTable i).physicalPage + o) =
      linkedByte noffH file (i * pageSize + o)

section Segments

variable {seg : Segment} {pa : Word}

theorem holds_iff (fits : seg.virtualAddr.toNat + seg.size.toNat < 2 ^ 31) :
    seg.holds pa = true ↔ seg.covers pa.toNat := by
  have low : seg.virtualAddr.toInt = seg.virtualAddr.toNat :=
    BitVec.toInt_eq_toNat_of_lt (by omega)
  have sum : (seg.virtualAddr + seg.size).toNat = seg.virtualAddr.toNat + seg.size.toNat := by
    rw [BitVec.toNat_add, Nat.mod_eq_of_lt (by omega)]
  have high : (seg.virtualAddr + seg.size).toInt = seg.virtualAddr.toNat + seg.size.toNat := by
    rw [BitVec.toInt_eq_toNat_of_lt (by omega), sum]
    rfl
  have bound := pa.isLt
  simp only [Segment.holds, Segment.covers, Bool.and_eq_true, BitVec.sle_iff_toInt_le,
    BitVec.slt_iff_toInt_lt, low, high, BitVec.toInt_eq_toNat_cond]
  split <;> omega

theorem holds_empty (empty : seg.size.toNat = 0) : seg.holds pa = false := by
  have zero : seg.size = 0#32 := BitVec.eq_of_toNat_eq empty
  rw [Segment.holds, zero, BitVec.add_zero]
  by_contra both
  simp only [Bool.and_eq_false_imp, BitVec.sle_iff_toInt_le, Classical.not_imp, Bool.not_eq_false,
    BitVec.slt_iff_toInt_lt] at both
  omega

theorem position_natCast (low : seg.virtualAddr.toNat ≤ pa.toNat)
    (fits : seg.inFileAddr.toNat + (pa.toNat - seg.virtualAddr.toNat) < 2 ^ 31) :
    seg.position pa =
      ((seg.inFileAddr.toNat + (pa.toNat - seg.virtualAddr.toNat) : Nat) : Int) := by
  have above := seg.virtualAddr.isLt
  have bound := pa.isLt
  have distance : (pa - seg.virtualAddr).toNat = pa.toNat - seg.virtualAddr.toNat := by
    rw [BitVec.toNat_sub]
    omega
  have sum : (seg.inFileAddr + (pa - seg.virtualAddr)).toNat =
      seg.inFileAddr.toNat + (pa.toNat - seg.virtualAddr.toNat) := by
    rw [BitVec.toNat_add, distance, Nat.mod_eq_of_lt (by omega)]
  rw [Segment.position, BitVec.toInt_eq_toNat_of_lt (by omega), sum]

end Segments

/-! ## What a page gets -/

/-- The bytes the first load of page `i` brings: as far as the file goes, or zeros. -/
def loadedBytes (noffH : NoffHeader) (file : List Byte) (i : Nat) : List Byte :=
  if i * pageSize < noffH.stored then readAt file
    (noffH.code.inFileAddr.toNat + i * pageSize) pageSize
  else List.replicate pageSize 0

theorem imagePages_le (noffH : NoffHeader) : imagePages noffH * pageSize ≤ 2 ^ 32 := by
  have bound := (noffH.code.size + noffH.initData.size + noffH.uninitData.size + userStackSize).isLt
  unfold imagePages divRoundUp pageSize
  split <;> omega

theorem pageAddr_toNat {i : Nat} (small : i * pageSize < 2 ^ 32) :
    (pageAddr i).toNat = i * pageSize := by
  have cast : ((i : Int) * (pageSize : Int)) = ((i * pageSize : Nat) : Int) := by push_cast; rfl
  rw [pageAddr, cast, BitVec.ofInt_natCast, BitVec.toNat_ofNat, Nat.mod_eq_of_lt small]

section Linked

variable {noffH : NoffHeader} {file : List Byte} {fs : FileSystem} {e : OpenFile} {i : Nat}

theorem Linked.code_covers (linked : Linked noffH file) (a : Nat) :
    noffH.code.covers a ↔ a < noffH.code.size.toNat := by
  rw [Segment.covers, linked.code]
  omega

theorem Linked.initData_covers (linked : Linked noffH file) (a : Nat) :
    noffH.initData.covers a ↔ noffH.code.size.toNat ≤ a ∧ a < noffH.stored := by
  unfold Segment.covers NoffHeader.stored
  by_cases empty : noffH.initData.size.toNat = 0
  · omega
  · rw [(linked.initData (by omega)).1]

theorem linkedByte_eq (linked : Linked noffH file) (a : Nat) :
    linkedByte noffH file a =
      if a < noffH.stored then file.getD (noffH.code.inFileAddr.toNat + a) 0 else 0 := by
  have stored : noffH.stored = noffH.code.size.toNat + noffH.initData.size.toNat := rfl
  unfold linkedByte Segment.byteAt
  by_cases inCode : a < noffH.code.size.toNat
  · rw [if_pos ((linked.code_covers a).mpr inCode), if_pos (by omega), linked.code, Nat.sub_zero]
  · rw [if_neg (inCode ∘ (linked.code_covers a).mp)]
    by_cases inside : a < noffH.stored
    · obtain ⟨at_, from_⟩ := linked.initData (by omega)
      rw [if_pos ((linked.initData_covers a).mpr ⟨by omega, inside⟩), if_pos inside, at_, from_]
      congr 1
      omega
    · rw [if_neg fun covered => inside ((linked.initData_covers a).mp covered).2, if_neg inside]

theorem Linked.code_holds (linked : Linked noffH file) (pa : Word) :
    noffH.code.holds pa = true ↔ pa.toNat < noffH.code.size.toNat := by
  have fits := linked.positions
  rw [linked.ends, NoffHeader.stored] at fits
  rw [holds_iff (by rw [linked.code]; omega), linked.code_covers]

theorem Linked.initData_holds (linked : Linked noffH file) (pa : Word) :
    noffH.initData.holds pa = true ↔
    noffH.code.size.toNat ≤ pa.toNat ∧ pa.toNat < noffH.stored := by
  have stored : noffH.stored = noffH.code.size.toNat + noffH.initData.size.toNat := rfl
  have fits := linked.positions
  rw [linked.ends] at fits
  by_cases empty : noffH.initData.size.toNat = 0
  · rw [holds_empty empty]
    constructor
    · intro held
      cases held
    · omega
  · have at_ := (linked.initData (by omega)).1
    rw [holds_iff (by omega), linked.initData_covers]

/-- Code or data, a page comes from the same place of the file. -/
theorem pageImage_linked (linked : Linked noffH file) (data : fs.data e.file = file)
    (small : i * pageSize < 2 ^ 32) :
    pageImage fs e noffH (pageAddr i) = .ok (loadedBytes noffH file i) := by
  have address := pageAddr_toNat small
  have fits := linked.positions
  rw [linked.ends] at fits
  have within (inside : i * pageSize < noffH.stored) :
      i * pageSize < noffH.code.size.toNat + noffH.initData.size.toNat := inside
  unfold pageImage loadedBytes
  by_cases inCode : i * pageSize < noffH.code.size.toNat
  · have inside : i * pageSize < noffH.stored := by unfold NoffHeader.stored; omega
    have place : noffH.code.position (pageAddr i) =
        ((noffH.code.inFileAddr.toNat + i * pageSize : Nat) : Int) := by
      rw [position_natCast, address, linked.code, Nat.sub_zero] <;> rw [linked.code] <;> omega
    rw [if_pos ((linked.code_holds _).mpr (by omega)), if_pos inside, place,
      fs.readAt_natCast, data]
  · rw [if_neg (by rw [linked.code_holds]; omega)]
    by_cases inside : i * pageSize < noffH.stored
    · have some := within inside
      obtain ⟨at_, from_⟩ := linked.initData (by omega)
      have place : noffH.initData.position (pageAddr i) =
          ((noffH.code.inFileAddr.toNat + i * pageSize : Nat) : Int) := by
        rw [position_natCast, address, at_, from_]
        · congr 1
          omega
        · omega
        · omega
      rw [if_pos ((linked.initData_holds _).mpr (by omega)), if_pos inside, place,
        fs.readAt_natCast, data]
    · rw [if_neg (by rw [linked.initData_holds]; omega), if_neg inside]
      rfl

/-- The bytes that are loaded belong there. -/
theorem loadedBytes_right (linked : Linked noffH file) {o : Nat} {b : Byte}
    (found : (loadedBytes noffH file i)[o]? = some b) :
    b = linkedByte noffH file (i * pageSize + o) := by
  rw [linkedByte_eq linked]
  unfold loadedBytes at found
  have ends := linked.ends
  split at found
  · rename_i inside
    have short : o < pageSize := by
      have := (List.getElem?_eq_some_iff.mp found).1
      simp only [readAt, List.length_take] at this
      omega
    rw [getElem?_readAt _ short, Nat.add_assoc] at found
    have there : noffH.code.inFileAddr.toNat + (i * pageSize + o) < file.length :=
      (List.getElem?_eq_some_iff.mp found).1
    rw [if_pos (by omega), List.getD, found, Option.getD_some]
  · rename_i outside
    rw [if_neg (by omega)]
    rw [List.getElem?_replicate] at found
    split at found <;> cases found
    rfl

/-- How far the load goes. -/
theorem length_loadedBytes (linked : Linked noffH file) :
    (loadedBytes noffH file i).length =
      if i * pageSize < noffH.stored then min pageSize (noffH.stored - i * pageSize)
      else pageSize := by
  have ends := linked.ends
  unfold loadedBytes
  split
  · simp only [readAt, List.length_take, List.length_drop]
    omega
  · exact List.length_replicate

/-- What stands in the file is what `readHeader` finds. -/
theorem readHeader_linked (linked : Linked noffH file) (data : fs.data e.file = file) :
    readHeader fs e = .ok noffH := by
  have whole : ¬ (file.take noffHeaderSize).length < noffHeaderSize := by
    rw [List.length_take]
    have := linked.complete
    omega
  have read : fs.readAt e noffHeaderSize 0 = .ok (file.take noffHeaderSize) := by
    rw [← data]
    exact fs.readAt_natCast e noffHeaderSize 0
  rw [readHeader, read, ok_bind, if_neg whole, linked.header]
  simp [linked.magic, noffMagic]

end Linked

section Loading

variable {c : Config} {noffH : NoffHeader} {file : List Byte} {s s' : Vm} {i : Nat}

/-- The frame holds the bytes that were loaded, and beyond them what it held before. -/
theorem FirstFault.mainMemory (fault : FirstFault c noffH file s i) (linked : Linked noffH file)
    (ret : demandpage c s i = .ok (true, s')) :
    s'.mainMemory =
      splice s.mainMemory (frameAddr (s'.pageTable i).physicalPage) (loadedBytes noffH file i) := by
  obtain ⟨others, owns⟩ := fault.owns
  have invalid : (s.pageTable i).valid = false := by
    by_contra valid
    obtain ⟨f, -, phys⟩ := owns.bounded i fault.inside (by simpa using valid)
    have := fault.unloaded
    omega
  have small : i * pageSize < 2 ^ 32 := by
    have room := imagePages_le noffH
    have inside := fault.inside
    rw [fault.numPages] at inside
    unfold pageSize at room ⊢
    omega
  have unchanged := (demandpage_confined owns fault.inside invalid ret).executable fault.apart
  obtain ⟨-, g, victim, s₁, bytes, dirty, sec, -, fills,
      ⟨loaded, -⟩ | ⟨-, -, noffH', header, image⟩⟩ :=
    demandpage_cases owns fault.inside invalid ret
  · have := fault.unloaded
    omega
  have same : noffH' = noffH := by
    rw [readHeader_linked linked fault.executable] at header
    exact (Except.ok.inj header).symm
  have file₁ : s₁.fileSystem.data s.storedExecutable.file = file := by
    rw [← fills.fileSystem, unchanged, fault.executable]
  rw [same, pageImage_linked linked file₁ small] at image
  cases image
  rw [fills.mainMemory, fills.entry, sec.mainMemory]

/-- A page whose bytes are all loaded is right, whatever its frame held. -/
theorem FirstFault.right (fault : FirstFault c noffH file s i) (linked : Linked noffH file)
    (aligned : noffH.stored % pageSize = 0) (ret : demandpage c s i = .ok (true, s')) {o : Nat}
    (inside : o < pageSize) :
    s'.mainMemory (frameAddr (s'.pageTable i).physicalPage + o) =
      linkedByte noffH file (i * pageSize + o) := by
  have full : o < (loadedBytes noffH file i).length := by
    rw [length_loadedBytes linked]
    unfold pageSize at aligned inside ⊢
    split <;> omega
  have found := List.getElem?_eq_getElem full
  rw [fault.mainMemory linked ret, splice_add _ _ _ found]
  exact loadedBytes_right linked found

/-- Past the end of the file the page keeps what its frame held. -/
theorem FirstFault.stale (fault : FirstFault c noffH file s i) (linked : Linked noffH file)
    (ret : demandpage c s i = .ok (true, s')) {o : Nat} (starts : i * pageSize < noffH.stored)
    (past : noffH.stored ≤ i * pageSize + o) :
    s'.mainMemory (frameAddr (s'.pageTable i).physicalPage + o) =
      s.mainMemory (frameAddr (s'.pageTable i).physicalPage + o) := by
  rw [fault.mainMemory linked ret]
  apply splice_outside
  right
  rw [length_loadedBytes linked, if_pos starts]
  omega

end Loading

/-! ## Room for the image -/

section Room

variable {noffH : NoffHeader} {file : List Byte}

theorem imagePages_eq (noffH : NoffHeader) :
    imagePages noffH = divRoundUp ((noffH.extent + 1024) % 2 ^ 32) pageSize := by
  have sum : (noffH.code.size + noffH.initData.size + noffH.uninitData.size + userStackSize).toNat =
      (noffH.extent + 1024) % 2 ^ 32 := by
    simp only [BitVec.toNat_add, userStackSize, BitVec.toNat_ofNat, NoffHeader.extent,
      NoffHeader.stored]
    omega
  rw [imagePages, sum]

theorem imagePages_of_fits (fits : noffH.extent + 1024 < 2 ^ 32) :
    noffH.extent + 1024 ≤ imagePages noffH * pageSize := by
  rw [imagePages_eq, Nat.mod_eq_of_lt fits]
  unfold divRoundUp pageSize
  split <;> omega

theorem Linked.uninitData_covers (linked : Linked noffH file) (a : Nat) :
    noffH.uninitData.covers a ↔ noffH.stored ≤ a ∧ a < noffH.extent := by
  unfold Segment.covers NoffHeader.extent
  by_cases empty : noffH.uninitData.size.toNat = 0
  · omega
  · rw [linked.uninitData (by omega)]

theorem Linked.stored_lt (linked : Linked noffH file) : noffH.stored < 2 ^ 31 := by
  have ends := linked.ends
  have fits := linked.positions
  omega

/-- There is room for every segment unless the sum of the sizes wraps around. -/
theorem Linked.room_iff (linked : Linked noffH file) :
    (∀ seg ∈ [noffH.code, noffH.initData, noffH.uninitData], ∀ a, seg.covers a →
      a / pageSize < imagePages noffH) ↔ noffH.extent + 1024 < 2 ^ 32 := by
  have extent : noffH.extent = noffH.stored + noffH.uninitData.size.toNat := rfl
  have stored : noffH.stored = noffH.code.size.toNat + noffH.initData.size.toNat := rfl
  have low := linked.stored_lt
  have size := linked.size
  constructor
  · intro room
    by_contra wraps
    have last := room noffH.uninitData (by simp) (noffH.extent - 1)
      ((linked.uninitData_covers _).mpr ⟨by omega, by omega⟩)
    rw [imagePages_eq] at last
    unfold divRoundUp pageSize at last
    split at last <;> omega
  · intro fits seg member a covered
    have room := imagePages_of_fits fits
    have below : a < noffH.extent := by
      simp only [List.mem_cons, List.not_mem_nil, or_false] at member
      obtain rfl | rfl | rfl := member
      · have := (linked.code_covers a).mp covered
        omega
      · have := (linked.initData_covers a).mp covered
        omega
      · exact ((linked.uninitData_covers a).mp covered).2
    unfold pageSize at room ⊢
    omega

end Room

/-! ## The condition -/

/-- A machine of one free frame, every byte of its memory used before, and the file. -/
def usedCore (file : List Byte) : Core where
  mainMemory := fun _ => 1
  memmanage := ⟨1, ⟨1, fun _ => 0⟩⟩
  fileSystem := ⟨fun _ => none, fun _ => file, 1⟩
  stats := ⟨0, 0, 0⟩

def oneFrame : Config := ⟨1, false, by decide, by decide⟩

theorem usedCore_free (file : List Byte) : (usedCore file).memmanage.allocated 0 = false := by
  have free : (⟨1, ⟨1, fun _ => 0⟩⟩ : MemoryManager).allocated 0 = false := by decide
  exact free

section Condition

variable {noffH : NoffHeader} {file : List Byte}

/-- On that machine every page of the program can be the first to fault. -/
theorem Linked.faults (linked : Linked noffH file) {i : Nat} (inside : i < imagePages noffH) :
    ∃ s s', FirstFault oneFrame noffH file s i ∧ demandpage oneFrame s i = .ok (true, s') ∧
      ∀ a, s.mainMemory a = 1 := by
  have header : readHeader (usedCore file).fileSystem ⟨0⟩ = .ok noffH :=
    readHeader_linked linked rfl
  obtain ⟨space, core, init⟩ : ∃ space core, initializeSpace (usedCore file) ⟨0⟩ 0 =
      .ok (space, core) := by
    rw [initializeSpace, header, ok_bind]
    obtain ⟨f, opened, -⟩ := (usedCore file).fileSystem.open_create
      (backingName (BitVec.ofNat 32 (imagePages noffH * pageSize)))
    simp only [BackingStore.create, opened]
    exact ⟨_, _, rfl⟩
  obtain ⟨noffH', starts⟩ := initializeSpace_starts init
  obtain rfl : noffH' = noffH := Except.ok.inj (starts.header.symm.trans header)
  have apart : (0 : Nat) ≠ space.backing.file.file := by
    rw [starts.file]
    exact Nat.zero_ne_one
  have alone : ∀ f < oneFrame.numPhysPages, (usedCore file).memmanage.allocated f = false := by
    intro f lt
    obtain rfl : f = 0 := Nat.lt_one_iff.mp lt
    exact usedCore_free file
  have running := starts.runningAlone ⟨rfl, rfl⟩ alone apart
  have fresh : (⟨core, space⟩ : Vm).pageTable i = freshEntry i := congrFun starts.pageTable i
  have fault : FirstFault oneFrame noffH' file ⟨core, space⟩ i := by
    refine ⟨⟨_, running.owns⟩, running.apart, ?_, starts.numPages, ?_, ?_⟩
    · show core.fileSystem.data space.storedExecutable.file = file
      rw [starts.storedExecutable, starts.elsewhere _ apart]
      rfl
    · show i < space.numPages
      rw [starts.numPages]
      exact inside
    · rw [fresh]
      show (-1 : Int) < 0
      decide
  have small : i * pageSize < 2 ^ 32 := by
    have room := imagePages_le noffH'
    unfold pageSize at room ⊢
    omega
  have loadable : Loadable noffH' (pageAddr i) := by
    obtain ⟨yes, -⟩ | ⟨-, bad⟩ := pageImage_cases (usedCore file).fileSystem ⟨0⟩ noffH' (pageAddr i)
    · exact yes
    · rw [pageImage_linked linked rfl small] at bad
      cases bad
  have free : FrameFree oneFrame core := by
    refine ⟨0, by decide, ?_⟩
    rw [starts.memmanage]
    exact usedCore_free file
  obtain ⟨s', ret⟩ := (demandpage_returns running.owns running.pages.numbered fault.inside
    (by rw [fresh]; rfl)).mpr ⟨Or.inl free, Or.inr ⟨noffH', running.header, loadable⟩⟩
  refine ⟨_, s', fault, ret, fun a => ?_⟩
  show core.mainMemory a = 1
  rw [starts.mainMemory]
  rfl

/-- The page in which the file ends is wrong on a machine whose memory was used before. -/
theorem InitialImage.aligned (image : InitialImage noffH file) (linked : Linked noffH file) :
    noffH.stored % pageSize = 0 := by
  by_contra unaligned
  have room := imagePages_of_fits (linked.room_iff.mp image.room)
  have extent : noffH.extent = noffH.stored + noffH.uninitData.size.toNat := rfl
  have inside : noffH.stored / pageSize < imagePages noffH := by
    unfold pageSize at room ⊢
    omega
  obtain ⟨s, s', fault, ret, used⟩ := linked.faults inside
  have division := Nat.div_add_mod noffH.stored pageSize
  rw [Nat.mul_comm] at division
  have right := image.loads _ _ _ _ fault ret (noffH.stored % pageSize) (Nat.mod_lt _ (by decide))
  rw [fault.stale linked ret (by omega) (by omega), used, linkedByte_eq linked,
    if_neg (by omega)] at right
  exact absurd right (by decide)

/-- **When a program starts with its image**: the file has to end where a page ends, for the
rest of its last page keeps what the frame held, and the sizes have to fit in an
`unsigned int`. -/
theorem initial_image_iff (linked : Linked noffH file) :
    InitialImage noffH file ↔ noffH.stored % pageSize = 0 ∧ noffH.extent + 1024 < 2 ^ 32 := by
  constructor
  · intro image
    exact ⟨image.aligned linked, linked.room_iff.mp image.room⟩
  · rintro ⟨aligned, fits⟩
    refine ⟨linked.room_iff.mpr fits, ?_⟩
    intro c s i s' fault ret o inside
    exact fault.right linked aligned ret inside

theorem sample_linked : Linked sampleHeader sampleFile := by
  have length : sampleFile.length = 168 := by
    rw [sampleFile, List.length_append, List.length_replicate]
    rfl
  refine ⟨?_, by rfl, rfl, rfl, ?_, ?_, by decide, ?_, ?_⟩
  · rw [length]
    decide
  · intro some
    exact absurd some (by decide)
  · intro some
    exact absurd some (by decide)
  · rw [length]
    decide
  · rw [length]
    decide

/-- The sample program ends where its page ends. -/
theorem initial_image_sample : InitialImage sampleHeader sampleFile :=
  (initial_image_iff sample_linked).mpr ⟨by decide, by decide⟩

/-- A program of one instruction and a variable. -/
def shortFile : List Byte :=
  [0xad, 0xdf, 0xba, 0, 0, 0, 0, 0, 40, 0, 0, 0, 4, 0, 0, 0, 4, 0, 0, 0, 44, 0, 0, 0, 0, 0, 0, 0,
    4, 0, 0, 0, 0, 0, 0, 0, 4, 0, 0, 0] ++ [0x08, 0, 0xe0, 0x03]

def shortHeader : NoffHeader := ⟨noffMagic, ⟨0, 40, 4⟩, ⟨4, 44, 0⟩, ⟨4, 0, 4⟩⟩

/-- Its variable need not start as zero: it shares the page in which the file ends. -/
theorem short_image_wrong :
    Linked shortHeader shortFile ∧ ¬ InitialImage shortHeader shortFile := by
  have linked : Linked shortHeader shortFile := by
    refine ⟨by decide, by rfl, rfl, rfl, ?_, fun _ => rfl, by decide, by decide, by decide⟩
    intro some
    exact absurd some (by decide)
  refine ⟨linked, fun image => ?_⟩
  exact absurd (image.aligned linked) (by decide)

end Condition

end Nachos.UserProg
