/-
# Nachos.FileSys.Stub -- the `FILESYS_STUB` file system

With `FILESYS_STUB` the Nachos file system is the host's: `Create`, `Open` and
`Remove` become `open`, `open` and `unlink`, and an `OpenFile` is a descriptor.
The host keeps a directory of names and, behind each open descriptor, an inode
whose bytes outlive the name.  `Create` of a name that exists truncates its inode,
so two processes that create the same name write one file.
-/
import Nachos.Outcome
import Nachos.Lib.Bytes

namespace Nachos.FileSys

open Nachos.Lib.Bytes

set_option autoImplicit false

/-- The inode behind an open descriptor. -/
structure OpenFile where
  file : Nat
  deriving DecidableEq, Repr

structure FileSystem where
  /-- The host directory. -/
  names : String → Option Nat
  /-- The bytes of each inode. -/
  data : Nat → List Byte
  /-- The next unused inode. -/
  next : Nat

namespace FileSystem

/-- `FileSystem::Create`: `open(name, O_RDWR|O_CREAT|O_TRUNC)`, then close.  The
initial size is ignored. -/
def create (fs : FileSystem) (name : String) : FileSystem :=
  match fs.names name with
  | some i => { fs with data := Function.update fs.data i [] }
  | none =>
      { names := Function.update fs.names name (some fs.next)
        data := Function.update fs.data fs.next []
        next := fs.next + 1 }

/-- `FileSystem::Open`; `none` is `NULL`. -/
def «open» (fs : FileSystem) (name : String) : Option OpenFile :=
  (fs.names name).map OpenFile.mk

/-- `FileSystem::Remove`: `unlink`. -/
def remove (fs : FileSystem) (name : String) : FileSystem :=
  { fs with names := Function.update fs.names name none }

/-- `OpenFile::ReadAt`: `Lseek` asserts that the position is not negative, and
`ReadPartial` returns the bytes that are there. -/
def readAt (fs : FileSystem) (f : OpenFile) (numBytes : Nat) (position : Int) :
    Except Stop (List Byte) := do
  ASSERT (decide (0 ≤ position))
  return Lib.Bytes.readAt (fs.data f.file) position.toNat numBytes

/-- `OpenFile::WriteAt`. -/
def writeAt (fs : FileSystem) (f : OpenFile) (bytes : List Byte) (position : Int) :
    Except Stop FileSystem := do
  ASSERT (decide (0 ≤ position))
  return { fs with
    data := Function.update fs.data f.file
      (Lib.Bytes.writeAt (fs.data f.file) position.toNat bytes) }

theorem readAt_natCast (fs : FileSystem) (f : OpenFile) (numBytes pos : Nat) :
    fs.readAt f numBytes pos = .ok (Lib.Bytes.readAt (fs.data f.file) pos numBytes) := by
  simp [readAt]

theorem writeAt_natCast (fs : FileSystem) (f : OpenFile) (bytes : List Byte) (pos : Nat) :
    fs.writeAt f bytes pos = .ok { fs with
      data := Function.update fs.data f.file (Lib.Bytes.writeAt (fs.data f.file) pos bytes) } := by
  simp [writeAt]

/-- Creating a file makes it openable, empty, and leaves every other inode as it was. -/
theorem open_create (fs : FileSystem) (name : String) :
    ∃ f, (fs.create name).open name = some f ∧ (fs.create name).data f.file = [] ∧
      (f.file = (fs.names name).getD fs.next) ∧
      ∀ i, i ≠ f.file → (fs.create name).data i = fs.data i := by
  unfold create «open»
  cases found : fs.names name with
  | some i =>
      refine ⟨⟨i⟩, by simp [found], by simp, by simp, fun j ne => ?_⟩
      simp only [Function.update_of_ne ne]
  | none =>
      refine ⟨⟨fs.next⟩, by simp, by simp, by simp, fun j ne => ?_⟩
      simp only [Function.update_of_ne ne]

end FileSystem

end Nachos.FileSys
