/-
# Nachos.UserProg.AddrSpace -- `userprog/addrspace.cc` and `userprog/backingstore.cc`

Demand paging as the kernel does it.  `Initialize` builds an address space with no
page resident; `demandpage` loads a page the first time it faults from the
executable, and from the backing file after that; when no frame is free `ClearPage`
runs the clock over the process's own page table and pages one victim out.

What the source leaves to chance is a parameter here: `new AddrSpace` does not
initialise `clock_hand`, so `initializeSpace` takes the value it happens to hold.  An
index outside `pageTable` stops the model (`Stop.outOfBounds`), and so does the use
of header bytes the executable does not have (`Stop.uninitialised`).

`ClearPage` is `for(;;)`.  One round of the clock clears every `use` bit, so a
second round finds a victim if the process has a resident page at all; the loop is
therefore followed for `2 * numPages + 1` turns and reported as `Stop.loops` after
that.  `ClearPage.loops_forever` in the next module shows that it then never exits.
-/
import Nachos.Machine.Translate

namespace Nachos.UserProg

open Nachos.Lib.Bytes
open Nachos.Machine
open Nachos.FileSys (FileSystem OpenFile)

set_option autoImplicit false

/-! ## Object files: `bin/noff.h` -/

structure Segment where
  virtualAddr : Word
  inFileAddr : Word
  size : Word
  deriving DecidableEq, Repr

structure NoffHeader where
  noffMagic : Word
  code : Segment
  initData : Segment
  uninitData : Segment
  deriving DecidableEq, Repr

/-- `NOFFMAGIC`. -/
def noffMagic : Word := 0xbadfad#32

/-- `sizeof(NoffHeader)`: ten `int`s. -/
def noffHeaderSize : Nat := 40

/-- `WordToHost` on a little-endian host. -/
def wordToHost (word : Word) : Word := word

/-- The `SwapHeader` of one segment. -/
def Segment.swap (seg : Segment) : Segment :=
  ⟨wordToHost seg.virtualAddr, wordToHost seg.inFileAddr, wordToHost seg.size⟩

/-- `SwapHeader`. -/
def swapHeader (h : NoffHeader) : NoffHeader :=
  ⟨wordToHost h.noffMagic, h.code.swap, h.initData.swap, h.uninitData.swap⟩

/-- The header laid over the first bytes of a file. -/
def NoffHeader.ofBytes (bytes : List Byte) : NoffHeader :=
  let int (k : Nat) : Word := load 4 fun i => bytes.getD (4 * k + i) 0
  ⟨int 0, ⟨int 1, int 2, int 3⟩, ⟨int 4, int 5, int 6⟩, ⟨int 7, int 8, int 9⟩⟩

/-- Read the header, swap it if need be, and `ASSERT` its magic number: the lines
`Initialize` and `demandpage` share. -/
def readHeader (fs : FileSystem) (executable : OpenFile) : Except Stop NoffHeader := do
  let bytes ← fs.readAt executable noffHeaderSize 0
  if bytes.length < noffHeaderSize then throw .uninitialised
  else
    let noffH := NoffHeader.ofBytes bytes
    let noffH :=
      if noffH.noffMagic ≠ noffMagic ∧ wordToHost noffH.noffMagic = noffMagic then swapHeader noffH
      else noffH
    ASSERT (decide (noffH.noffMagic = noffMagic))
    return noffH

/-! ## The backing store -/

/-- The name the constructor prints with `sprintf("bs%u", start_size)`. -/
def backingName (startSize : Word) : String := "bs" ++ toString startSize.toNat

/-- `BackingStore::BackingStore`. -/
def BackingStore.create (fs : FileSystem) (startSize : Word) :
    Except Stop (BackingStore × FileSystem) :=
  let fname := backingName startSize
  let fs := fs.create fname
  match fs.open fname with
  | some file => return (⟨file, fname⟩, fs)
  | none => throw .uninitialised

/-- `BackingStore::~BackingStore`. -/
def BackingStore.destroy (fs : FileSystem) (backing : BackingStore) : FileSystem :=
  fs.remove backing.fname

/-- The byte offset `virtualPage * PageSize`, in C `int` arithmetic. -/
def pageOffset (page : Int) : Int := (BitVec.ofInt 32 (page * pageSize)).toInt

/-- The address of a frame in `mainMemory`. -/
def frameAddr (physicalPage : Int) : Nat := physicalPage.toNat * pageSize

/-- The `if (pte->dirty)` of `PageOut`. -/
def writeBack (s : Vm) (pte : TranslationEntry) : Except Stop Vm :=
  if pte.dirty then do
    let fileSystem ← s.fileSystem.writeAt s.backing.file
      (block s.mainMemory (frameAddr pte.physicalPage) pageSize) (pageOffset pte.virtualPage)
    return { s with
      fileSystem, stats := { s.stats with numPageOuts := s.stats.numPageOuts + 1 } }
  else return s

/-- `BackingStore::PageOut(&pageTable[i])`. -/
def pageOut (s : Vm) (i : Nat) : Except Stop Vm := do
  let pte := s.pageTable i
  let s ← writeBack (s.setEntry i { pte with valid := false }) pte
  return { s with memmanage := ← s.memmanage.freePage pte.physicalPage }

/-- `BackingStore::PageIn(&pageTable[i])`. -/
def pageIn (s : Vm) (i : Nat) : Except Stop Vm := do
  let pte := s.pageTable i
  let bytes ← s.fileSystem.readAt s.backing.file pageSize (pageOffset pte.virtualPage)
  let stats := { s.stats with numPageIns := s.stats.numPageIns + 1 }
  let mainMemory := splice s.mainMemory (frameAddr pte.physicalPage) bytes
  return { s with mainMemory, stats }.setEntry i { pte with valid := true, dirty := false }

/-! ## The clock -/

/-- The entry may be paged out: the test of `ClearPage`. -/
def evictable (cfg : Config) (pte : TranslationEntry) : Bool :=
  pte.valid && (!pte.use || cfg.useFifo) && decide (0 ≤ pte.physicalPage)

/-- The `else` branch of `ClearPage` and the step of the hand. -/
def passOver (s : Vm) (hand : Nat) : Vm :=
  { s.setEntry hand { s.pageTable hand with use := false } with
    clockHand := (s.clockHand + 1) % s.numPages }

/-- `pageTable[i]` as the C code indexes it. -/
def index (s : Vm) (i : Int) : Except Stop Nat :=
  if 0 ≤ i ∧ i < s.numPages then .ok i.toNat else .error .outOfBounds

/-- The loop of `AddrSpace::ClearPage`, followed for `n` turns. -/
def clearPageLoop (cfg : Config) : Nat → Vm → Except Stop Vm
  | 0, _ => .error .loops
  | n + 1, s => do
      let hand ← index s s.clockHand
      if evictable cfg (s.pageTable hand) then pageOut s hand
      else clearPageLoop cfg n (passOver s hand)

/-- `AddrSpace::ClearPage`. -/
def clearPage (cfg : Config) (s : Vm) : Except Stop Vm :=
  clearPageLoop cfg (2 * s.numPages + 1) s

/-! ## Page faults -/

/-- `pageTable[i].physicalPage = memmanage->AllocPage()`. -/
def allocInto (s : Vm) (i : Nat) : Except Stop Vm := do
  let (page, memmanage) ← s.memmanage.allocPage
  return { s with memmanage }.setEntry i { s.pageTable i with physicalPage := page }

/-- Another try at a frame for entry `i`: evict a page, then allocate. -/
def retryAlloc (cfg : Config) (s : Vm) (i : Nat) : Except Stop Vm := do
  allocInto (← clearPage cfg s) i

/-- The three tries of the reload path; the third failing is `ASSERT(FALSE)`. -/
def secureForReload (cfg : Config) (s : Vm) (i : Nat) : Except Stop Vm := do
  let s ← allocInto s i
  if 0 ≤ (s.pageTable i).physicalPage then return s
  else
    let s ← retryAlloc cfg s i
    if 0 ≤ (s.pageTable i).physicalPage then return s
    else
      let s ← retryAlloc cfg s i
      ASSERT (decide (0 ≤ (s.pageTable i).physicalPage))
      return s

/-- The two tries of the first load. -/
def secureForLoad (cfg : Config) (s : Vm) (i : Nat) : Except Stop Vm := do
  let s ← allocInto s i
  if 0 ≤ (s.pageTable i).physicalPage then return s
  else retryAlloc cfg s i

/-- The page at `pageAddr` starts inside the segment. -/
def Segment.holds (seg : Segment) (pageAddr : Word) : Bool :=
  seg.virtualAddr.sle pageAddr && pageAddr.slt (seg.virtualAddr + seg.size)

/-- The file position of the page, `inFileAddr + (page_num * PageSize - virtualAddr)`. -/
def Segment.position (seg : Segment) (pageAddr : Word) : Int :=
  (seg.inFileAddr + (pageAddr - seg.virtualAddr)).toInt

/-- Read one page of a segment from the executable into the frame of entry `i`. -/
def loadSegment (s : Vm) (i : Nat) (seg : Segment) (pageAddr : Word) : Except Stop Vm := do
  let bytes ← s.fileSystem.readAt s.storedExecutable pageSize (seg.position pageAddr)
  let stats := { s.stats with numPageIns := s.stats.numPageIns + 1 }
  let mainMemory := splice s.mainMemory (frameAddr (s.pageTable i).physicalPage) bytes
  return { s with mainMemory, stats }

/-- `bzero` of the frame of entry `i`. -/
def zeroFill (s : Vm) (i : Nat) : Vm :=
  { s with
    mainMemory :=
      splice s.mainMemory (frameAddr (s.pageTable i).physicalPage) (List.replicate pageSize 0) }

/-- Fill the frame of entry `i` for the first time: code, initialised data, or zeros. -/
def fillPage (s : Vm) (i : Nat) (noffH : NoffHeader) (pageAddr : Word) : Except Stop Vm :=
  if noffH.code.holds pageAddr then loadSegment s i noffH.code pageAddr
  else if noffH.initData.holds pageAddr then loadSegment s i noffH.initData pageAddr
  else return zeroFill s i

/-- `AddrSpace::demandpage` on a page that has been loaded before. -/
def reloadPage (cfg : Config) (s : Vm) (i : Nat) : Except Stop Vm := do
  let s := s.setEntry i { s.pageTable i with valid := false }
  pageIn (← secureForReload cfg s i) i

/-- `AddrSpace::demandpage` on a page that was never loaded. -/
def loadPage (cfg : Config) (s : Vm) (i : Nat) : Except Stop (Bool × Vm) := do
  let pageAddr : Word := BitVec.ofInt 32 (i * pageSize)
  let noffH ← readHeader s.fileSystem s.storedExecutable
  let s ← secureForLoad cfg s i
  if (s.pageTable i).physicalPage < 0 then return (false, s)
  else
    let s ← fillPage s i noffH pageAddr
    return (true, s.setEntry i { s.pageTable i with dirty := true, valid := true })

/-- `AddrSpace::demandpage`.  A `physicalPage` that is not negative says that the
page was loaded before, also when the number is stale. -/
def demandpage (cfg : Config) (s : Vm) (pageNum : Int) : Except Stop (Bool × Vm) := do
  let i ← index s pageNum
  if 0 ≤ (s.pageTable i).physicalPage then return (true, ← reloadPage cfg s i)
  else loadPage cfg s i

/-! ## Creating and clearing an address space -/

/-- `UserStackSize`. -/
def userStackSize : Word := 1024#32

/-- `divRoundUp`. -/
def divRoundUp (n s : Nat) : Nat := n / s + if n % s > 0 then 1 else 0

/-- The number of pages `Initialize` computes; the sum is `unsigned int`. -/
def imagePages (noffH : NoffHeader) : Nat :=
  divRoundUp (noffH.code.size + noffH.initData.size + noffH.uninitData.size + userStackSize).toNat
    pageSize

/-- Entry `i` of a new page table. -/
def freshEntry (i : Nat) : TranslationEntry := ⟨i, -1, false, false, false, false⟩

/-- `AddrSpace::Initialize`.  `clockHand` is whatever the new object holds there. -/
def initializeSpace (core : Core) (executable : OpenFile) (clockHand : Int) :
    Except Stop (AddrSpace × Core) := do
  let noffH ← readHeader core.fileSystem executable
  let numPages := imagePages noffH
  let size : Word := BitVec.ofNat 32 (numPages * pageSize)
  let (backing, fileSystem) ← BackingStore.create core.fileSystem size
  return (⟨freshEntry, numPages, clockHand, backing, executable⟩, { core with fileSystem })

/-- The loop of `AddrSpace::ClearState` over the pages below `n`. -/
def clearStateBelow (space : AddrSpace) (mm : MemoryManager) : Nat → Except Stop MemoryManager
  | 0 => return mm
  | n + 1 => do
      let mm ← clearStateBelow space mm n
      let pte := space.pageTable n
      if pte.valid && decide (0 ≤ pte.physicalPage) then mm.freePage pte.physicalPage
      else return mm

/-- `AddrSpace::ClearState`. -/
def clearState (core : Core) (space : AddrSpace) : Except Stop Core := do
  return { core with memmanage := ← clearStateBelow space core.memmanage space.numPages }

end Nachos.UserProg
