/-
# Nachos.Machine.Translate -- `machine/translate.cc`: address translation and memory access

The state one process computes on: the machine's `mainMemory`, the frame
allocator, the file system and the paging counters (`Core`), and the address space
of the running thread (`AddrSpace`).  `Vm` is both together, as a routine that
runs with `currentThread->space` loaded sees them.

`Translate` is the linear page table of the build without `USE_TLB` (`tlb == NULL`,
`pageTable` and `pageTableSize` those of the running address space).  The number of
frames is `NumPhysPages` in the source; here it is a parameter of `Config`.
-/
import Nachos.UserProg.BitMap
import Nachos.FileSys.Stub
import Mathlib.Algebra.Group.Int.Defs
import Mathlib.Algebra.Group.Nat.Defs

namespace Nachos.Machine

open Nachos.Lib.Bytes
open Nachos.UserProg (MemoryManager)
open Nachos.FileSys (FileSystem OpenFile)

set_option autoImplicit false

/-- `PageSize`, which is `SectorSize`. -/
def pageSize : Nat := 128

/-- The compile-time frame count and the `-b` flag.  `MemorySize` is an `int`. -/
structure Config where
  numPhysPages : Nat
  useFifo : Bool
  some_frame : 0 < numPhysPages
  memory_int : numPhysPages * pageSize < 2 ^ 31
  deriving DecidableEq

/-- `MemorySize`. -/
def Config.memorySize (cfg : Config) : Nat := cfg.numPhysPages * pageSize

inductive ExceptionType where
  | noException
  | syscallException
  | pageFaultException
  | readOnlyException
  | busErrorException
  | addressErrorException
  | overflowException
  | illegalInstrException
  deriving DecidableEq, Repr

structure TranslationEntry where
  virtualPage : Int
  physicalPage : Int
  valid : Bool
  readOnly : Bool
  use : Bool
  dirty : Bool
  deriving DecidableEq, Repr

/-- The paging counters of `machine/stats.h`. -/
structure Statistics where
  numPageFaults : Nat
  numPageIns : Nat
  numPageOuts : Nat
  deriving DecidableEq, Repr

/-- The state all processes share. -/
structure Core where
  mainMemory : Nat → Byte
  memmanage : MemoryManager
  fileSystem : FileSystem
  stats : Statistics

structure BackingStore where
  file : OpenFile
  fname : String

structure AddrSpace where
  /-- `pageTable[i]`, for `i < numPages`. -/
  pageTable : Nat → TranslationEntry
  numPages : Nat
  clockHand : Int
  backing : BackingStore
  storedExecutable : OpenFile

/-- What a routine running on behalf of one process reads and writes. -/
structure Vm extends Core, AddrSpace

/-- The outcome of an access to a memory `μ`: a value and the new state, or the
exception it raises, with nothing changed. -/
inductive Result (μ α : Type) where
  | value (a : α) (s : μ)
  | exception (which : ExceptionType)

namespace Vm

/-- `pageTable[i] = e`. -/
def setEntry (s : Vm) (i : Nat) (e : TranslationEntry) : Vm :=
  { s with pageTable := Function.update s.pageTable i e }

/-- `Machine::Translate`. -/
def translate (cfg : Config) (s : Vm) (virtAddr : Word) (size : Nat) (writing : Bool) :
    Except Stop (Result Vm Nat) :=
  if (size = 4 ∧ virtAddr &&& 3#32 ≠ 0#32) ∨ (size = 2 ∧ virtAddr &&& 1#32 ≠ 0#32) then
    return .exception .addressErrorException
  else
    let vpn := virtAddr.toNat / pageSize
    let offset := virtAddr.toNat % pageSize
    if s.numPages ≤ vpn then return .exception .addressErrorException
    else
      let entry := s.pageTable vpn
      if !entry.valid then return .exception .pageFaultException
      else if entry.readOnly && writing then return .exception .readOnlyException
      else
        -- `pageFrame` is unsigned: a negative `physicalPage` is a huge frame number
        let pageFrame := (BitVec.ofInt 32 entry.physicalPage).toNat
        if cfg.numPhysPages ≤ pageFrame then return .exception .busErrorException
        else do
          let physAddr := pageFrame * pageSize + offset
          ASSERT (decide (physAddr + size ≤ cfg.memorySize))
          return .value physAddr
            (s.setEntry vpn { entry with use := true, dirty := entry.dirty || writing })

/-- The `size` switch of `ReadMem` and `WriteMem`. -/
def isAccessSize (size : Nat) : Bool := size == 1 || size == 2 || size == 4

/-- `Machine::ReadMem`, up to the exception it raises. -/
def readMem (cfg : Config) (s : Vm) (addr : Word) (size : Nat) : Except Stop (Result Vm Word) := do
  match ← s.translate cfg addr size false with
  | .exception which => return .exception which
  | .value physicalAddress s =>
      ASSERT (isAccessSize size)
      return .value (load size fun i => s.mainMemory (physicalAddress + i)) s

/-- `Machine::WriteMem`, up to the exception it raises. -/
def writeMem (cfg : Config) (s : Vm) (addr : Word) (size : Nat) (value : Word) :
    Except Stop (Result Vm Unit) := do
  match ← s.translate cfg addr size true with
  | .exception which => return .exception which
  | .value physicalAddress s =>
      ASSERT (isAccessSize size)
      return .value ()
        { s with mainMemory := splice s.mainMemory physicalAddress (bytesOf value size) }

end Vm

end Nachos.Machine
