/-
# Nachos.FileSys.Names -- a directory of any size is a bounded finite map

`class Directory` of `filesys/directory.cc` for every `tableSize`, with the loops of
`Nachos.FileSys.Directory`.  The key of a name is what `strncpy` and `strncmp` look at, its
first nine characters; a freed entry keeps its name, and an entry that is used again may be
any one.

`BoundedMap` is what the directory is for: a finite map from keys to sectors that takes a new
key while it has fewer than `capacity`.  `directory_refines_map` runs both through the same
calls, in any order, and finds the same answers; a `reload` among them writes the table back
and fetches it into a new directory.
-/
import Nachos.FileSys.Directory
import Nachos.Lib.Slots

namespace Nachos.Disk

open Nachos.Lib.Bytes
open Nachos.Lib.Slots

set_option autoImplicit false

/-- `class Directory`. -/
structure Directory where
  tableSize : Nat
  table : Table

namespace Directory

/-- `Directory::Directory`; what `new` leaves in the table is arbitrary. -/
def create (size : Nat) (garbage : Nat → Byte) : Directory := ⟨size, Table.create garbage⟩

/-- `Directory::FetchFrom`. -/
def fetchFrom (dir : Directory) (d : Disk) (file : FileHeader) : Except Stop Directory := do
  let bytes ← readAt d file (dir.tableSize * entrySize : Nat) 0
  return { dir with table := splice dir.table 0 bytes }

/-- `Directory::WriteBack`. -/
def writeBack (dir : Directory) (d : Disk) (file : FileHeader) (garbage : Nat → Byte) :
    Except Stop Disk := do
  return (← writeAt d file dir.table (dir.tableSize * entrySize : Nat) 0 garbage).2

/-- `Directory::FindIndex`. -/
def findIndex (dir : Directory) (name : Nat → Byte) : Int :=
  dir.table.findIndexFrom name dir.tableSize 0

/-- `Directory::Find`. -/
def find (dir : Directory) (name : Nat → Byte) : Int :=
  let i := dir.findIndex name
  if i ≠ -1 then dir.table.sector i.toNat else -1

/-- `Directory::Add`. -/
def add (dir : Directory) (name : Nat → Byte) (newSector : Int) : Directory × Bool :=
  if dir.findIndex name ≠ -1 then (dir, false)
  else match dir.table.addFrom name newSector dir.tableSize 0 with
    | some table => ({ dir with table }, true)
    | none => (dir, false)

/-- `Directory::Remove`. -/
def remove (dir : Directory) (name : Nat → Byte) : Directory × Bool :=
  let i := dir.findIndex name
  if i = -1 then (dir, false)
  else ({ dir with table := splice dir.table (entrySize * i.toNat) [0] }, true)

end Directory

/-- The calls; a name is what a `char *` points to. -/
inductive Directory.Call where
  | add (name : Nat → Byte) (newSector : Word)
  | find (name : Nat → Byte)
  | remove (name : Nat → Byte)
  /-- `WriteBack` to a file, and `FetchFrom` it into a new directory of the same size. -/
  | reload (d : Disk) (file : FileHeader) (garbage : Nat → Byte)

inductive Directory.Response where
  | done (ok : Bool)
  | sector (s : Int)
  | reloaded
  deriving DecidableEq, Repr

namespace Directory

def call (dir : Directory) : Call → Except Stop (Directory × Response)
  | .add name newSector =>
      let (dir, ok) := dir.add name newSector.toInt
      return (dir, .done ok)
  | .find name => return (dir, .sector (dir.find name))
  | .remove name =>
      let (dir, ok) := dir.remove name
      return (dir, .done ok)
  | .reload d file garbage => do
      let d ← dir.writeBack d file garbage
      let dir ← (create dir.tableSize garbage).fetchFrom d file
      return (dir, .reloaded)

def callAll (dir : Directory) : List Call → Except Stop (Directory × List Response)
  | [] => return (dir, [])
  | c :: calls => do
      let (dir, response) ← dir.call c
      let (dir, responses) ← dir.callAll calls
      return (dir, response :: responses)

/-- The file of a `reload` has room for the table. -/
def Call.Fits (capacity : Nat) : Call → Prop
  | .reload _ file _ => ∃ bytes sectors, Describes file bytes sectors ∧ sectors.Nodup ∧
      capacity * entrySize ≤ bytes
  | _ => True

/-! The directory of the file system is the one of `numDirEntries`. -/

theorem find_numDirEntries (t : Table) (name : Nat → Byte) :
    find ⟨numDirEntries, t⟩ name = t.find name := rfl

theorem add_numDirEntries (t : Table) (name : Nat → Byte) (newSector : Int) :
    add ⟨numDirEntries, t⟩ name newSector = match t.add name newSector with
      | some t' => (⟨numDirEntries, t'⟩, true)
      | none => (⟨numDirEntries, t⟩, false) := by
  rw [Table.add]
  by_cases taken : t.findIndex name ≠ -1
  · rw [if_pos taken]
    exact if_pos taken
  · rw [if_neg taken]
    exact if_neg taken

theorem remove_numDirEntries (t : Table) (name : Nat → Byte) :
    remove ⟨numDirEntries, t⟩ name = match t.remove name with
      | some t' => (⟨numDirEntries, t'⟩, true)
      | none => (⟨numDirEntries, t⟩, false) := by
  rw [Table.remove]
  by_cases absent : t.findIndex name = -1
  · simp only [if_pos absent]
    exact if_pos absent
  · simp only [if_neg absent]
    exact if_neg absent

end Directory

/-! ## What it is for -/

/-- A name as far as the directory looks at it. -/
def keyOf (name : Nat → Byte) : List Byte := chars name fileNameMaxLen 0

/-- The sectors of the files, by key. -/
abbrev BoundedMap := Finmap fun _ : List Byte => Int

namespace BoundedMap

open Directory (Call Response)

/-- What a call does to the map, and its answer. -/
def call (capacity : Nat) (m : BoundedMap) : Call → BoundedMap × Response
  | .add name newSector =>
      if keyOf name ∉ m ∧ m.keys.card < capacity then
        (m.insert (keyOf name) newSector.toInt, .done true)
      else (m, .done false)
  | .find name => (m, .sector ((m.lookup (keyOf name)).getD (-1)))
  | .remove name =>
      if keyOf name ∈ m then (m.erase (keyOf name), .done true) else (m, .done false)
  | .reload _ _ _ => (m, .reloaded)

def callAll (capacity : Nat) (m : BoundedMap) : List Call → BoundedMap × List Response
  | [] => (m, [])
  | c :: calls =>
      let (m, response) := m.call capacity c
      let (m, responses) := m.callAll capacity calls
      (m, response :: responses)

end BoundedMap

/-! ## The directory is that map -/

namespace Directory

variable {dir : Directory} {m : BoundedMap} {name : Nat → Byte}

/-- The entries in use are the map, and no two of them have one key. -/
def Holds (dir : Directory) (m : BoundedMap) : Prop :=
  Tabulates dir.tableSize dir.table.entry m

theorem holds_create (size : Nat) (garbage : Nat → Byte) : (create size garbage).Holds ∅ :=
  tabulates_empty fun _ _ => Table.entry_create garbage

theorem Holds.findIndex_cases (holds : dir.Holds m) (name : Nat → Byte) :
    (dir.findIndex name = -1 ∧ keyOf name ∉ m) ∨
      ∃ j s, dir.findIndex name = (j : Nat) ∧ j < dir.tableSize ∧
        dir.table.entry j = some (keyOf name, s) := by
  obtain ⟨none_, absent⟩ | ⟨j, s, found, -, high, there⟩ :=
    Table.findIndexFrom_cases dir.table name dir.tableSize 0
  · refine .inl ⟨none_, fun isKey => ?_⟩
    obtain ⟨j, inside, s, there⟩ := holds.mem_iff.mp isKey
    exact absent j (Nat.zero_le j) (by omega) s there
  · exact .inr ⟨j, s, found, by omega, there⟩

theorem Holds.find (holds : dir.Holds m) (name : Nat → Byte) :
    dir.find name = (m.lookup (keyOf name)).getD (-1) := by
  rw [Directory.find]
  obtain ⟨none_, absent⟩ | ⟨j, s, found, inside, there⟩ := holds.findIndex_cases name
  · rw [none_, Finmap.lookup_eq_none.mpr absent]
    rfl
  · have sector : dir.table.sector j = s := by
      unfold Table.entry at there
      split at there
      · exact (Prod.mk.inj (Option.some.inj there)).2
      · cases there
    rw [found, (holds.entries _ _).mpr ⟨j, inside, there⟩, Option.getD_some]
    show (if (j : Int) ≠ -1 then dir.table.sector (j : Int).toNat else -1) = s
    rw [if_pos (by omega), Int.toNat_natCast, sector]

/-- The directory answers a call as the map does, and is the map afterwards. -/
def Follows (dir : Directory) (m : BoundedMap) (c : Call) : Prop :=
  ∃ dir', dir.call c = .ok (dir', (m.call dir.tableSize c).2) ∧
    dir'.Holds (m.call dir.tableSize c).1 ∧ dir'.tableSize = dir.tableSize

theorem Holds.add (holds : dir.Holds m) (name : Nat → Byte) (newSector : Word) :
    dir.Follows m (.add name newSector) := by
  rw [Follows, Directory.call, Directory.add, BoundedMap.call]
  obtain ⟨none_, absent⟩ | ⟨j, s, found, inside, there⟩ := holds.findIndex_cases name
  · rw [if_neg (not_not_intro none_)]
    obtain ⟨full, noneFree⟩ | ⟨j, added, -, high, free⟩ :=
      Table.addFrom_cases dir.table name newSector.toInt dir.tableSize 0
    · have noRoom : ¬ m.keys.card < dir.tableSize := by
        rw [holds.free_iff]
        rintro ⟨j, inside, free⟩
        exact noneFree j (Nat.zero_le j) (by omega) free
      rw [full, if_neg fun room => noRoom room.2]
      exact ⟨dir, rfl, holds, rfl⟩
    · have inside : j < dir.tableSize := by omega
      rw [added, if_pos ⟨absent, holds.free_iff.mpr ⟨j, inside, free⟩⟩]
      refine ⟨_, rfl, ?_, rfl⟩
      exact holds.insert inside free absent
        (Table.entry_set_self ⟨BitVec.le_toInt newSector, BitVec.toInt_lt⟩)
        (fun i differ => Table.entry_set_other differ)
  · have isKey : keyOf name ∈ m := holds.mem_iff.mpr ⟨j, inside, s, there⟩
    rw [found, if_pos (by omega), if_neg fun room => room.1 isKey]
    exact ⟨dir, rfl, holds, rfl⟩

theorem Holds.find_follows (holds : dir.Holds m) (name : Nat → Byte) :
    dir.Follows m (.find name) := by
  rw [Follows, Directory.call, BoundedMap.call, holds.find]
  exact ⟨dir, rfl, holds, rfl⟩

theorem Holds.remove (holds : dir.Holds m) (name : Nat → Byte) : dir.Follows m (.remove name) := by
  rw [Follows, Directory.call, Directory.remove, BoundedMap.call]
  obtain ⟨none_, absent⟩ | ⟨j, s, found, inside, there⟩ := holds.findIndex_cases name
  · rw [if_neg absent, none_]
    exact ⟨dir, rfl, holds, rfl⟩
  · rw [if_pos (holds.mem_iff.mpr ⟨j, inside, s, there⟩), found]
    simp only [show ¬ (j : Int) = -1 by omega, if_false, Int.toNat_natCast]
    refine ⟨_, rfl, ?_, rfl⟩
    exact holds.erase inside there Table.entry_clear_self
      (fun i differ => Table.entry_clear_other differ)

/-! ## The table in a file -/

section File

variable {d : Disk} {file : FileHeader} {bytes : Nat} {sectors : List Nat}

theorem writeBack_spec (describes : Describes file bytes sectors) (distinct : sectors.Nodup)
    (room : dir.tableSize * entrySize ≤ bytes) (garbage : Nat → Byte) :
    ∃ d', dir.writeBack d file garbage = .ok d' ∧
      ∀ i < dir.tableSize, Table.entry (contents d' sectors) i = dir.table.entry i := by
  have small := describes.bytes_le
  obtain empty | some_ := Nat.eq_zero_or_pos (dir.tableSize * entrySize)
  · have nothing : writeAt d file dir.table (dir.tableSize * entrySize : Nat) 0 garbage
        = .ok (0, d) := by
      rw [empty, Disk.writeAt]
      exact if_pos (.inl (Int.le_refl 0))
    refine ⟨d, bind_of_ok nothing, fun i inside => ?_⟩
    rw [entrySize] at empty
    omega
  · obtain ⟨d', wrote, here, -⟩ := describes.writeAt (d := d) dir.table garbage distinct (p := 0)
      (n := dir.tableSize * entrySize) (by omega) some_ (by rw [maxInt]; omega)
    rw [Nat.sub_zero, Nat.min_eq_left room] at here
    refine ⟨d', bind_of_ok wrote, fun i inside => ?_⟩
    calc Table.entry (contents d' sectors) i
        = Table.entry (splice (contents d sectors) 0
          (block dir.table 0 (dir.tableSize * entrySize))) i :=
          Table.entry_eq_of_prefix (fun q small => here q (Nat.lt_of_lt_of_le small room)) inside
      _ = dir.table.entry i := Table.entry_splice_block (contents d sectors) dir.table inside

theorem fetchFrom_spec (describes : Describes file bytes sectors)
    (room : dir.tableSize * entrySize ≤ bytes) :
    ∃ dir', dir.fetchFrom d file = .ok dir' ∧ dir'.tableSize = dir.tableSize ∧
      ∀ i < dir.tableSize, dir'.table.entry i = Table.entry (contents d sectors) i := by
  have small := describes.bytes_le
  obtain empty | some_ := Nat.eq_zero_or_pos (dir.tableSize * entrySize)
  · have nothing : readAt d file (dir.tableSize * entrySize : Nat) 0 = .ok [] := by
      rw [empty, Disk.readAt]
      exact if_pos (.inl (Int.le_refl 0))
    refine ⟨_, bind_of_ok nothing, rfl, fun i inside => ?_⟩
    rw [entrySize] at empty
    omega
  · have read := describes.readAt (d := d) (p := 0) (n := dir.tableSize * entrySize) (by omega)
      some_ (by rw [maxInt]; omega)
    rw [Nat.sub_zero, Nat.min_eq_left room] at read
    exact ⟨_, bind_of_ok read, rfl, fun i inside =>
      Table.entry_splice_block dir.table (contents d sectors) inside⟩

end File

theorem Holds.reload (holds : dir.Holds m) {d : Disk} {file : FileHeader} {garbage : Nat → Byte}
    (fits : (Call.reload d file garbage).Fits dir.tableSize) :
    dir.Follows m (.reload d file garbage) := by
  obtain ⟨bytes, sectors, describes, distinct, room⟩ := fits
  obtain ⟨d', wrote, stored⟩ := writeBack_spec describes distinct room garbage
  obtain ⟨dir', fetched, size, loaded⟩ :=
    @fetchFrom_spec (create dir.tableSize garbage) d' file bytes sectors describes room
  refine ⟨dir', ?_, ?_, size⟩
  · rw [Directory.call, wrote, ok_bind, fetched, ok_bind]
    rfl
  · have same : ∀ i < dir.tableSize, dir'.table.entry i = dir.table.entry i :=
      fun i inside => (loaded i inside).trans (stored i inside)
    rw [Holds, size]
    exact holds.congr same

theorem Holds.call (holds : dir.Holds m) {c : Call} (fits : c.Fits dir.tableSize) :
    dir.Follows m c := by
  cases c with
  | add name newSector => exact holds.add name newSector
  | find name => exact holds.find_follows name
  | remove name => exact holds.remove name
  | reload d file garbage => exact holds.reload fits

theorem Holds.callAll (holds : dir.Holds m) {calls : List Call}
    (fits : ∀ c ∈ calls, c.Fits dir.tableSize) :
    ∃ dir', dir.callAll calls = .ok (dir', (m.callAll dir.tableSize calls).2) ∧
      dir'.Holds (m.callAll dir.tableSize calls).1 ∧ dir'.tableSize = dir.tableSize := by
  induction calls generalizing dir m with
  | nil => exact ⟨dir, rfl, holds, rfl⟩
  | cons c calls ih =>
      obtain ⟨mid, first, holds, size⟩ := holds.call (fits c List.mem_cons_self)
      rw [← size] at holds
      obtain ⟨dir', rest, holds', size'⟩ := ih holds
        (fun c' isIn => size ▸ fits c' (List.mem_cons_of_mem _ isIn))
      rw [size] at rest holds'
      refine ⟨dir', ?_, holds', size'.trans size⟩
      rw [Directory.callAll, first, ok_bind]
      simp only [rest, ok_bind]
      rfl

/-- A directory of any size answers any calls, in any order, as a finite map of at most so many
keys does; its entries in use are the keys of that map, and there is one for each. -/
theorem directory_refines_map (capacity : Nat) (garbage : Nat → Byte) (calls : List Call)
    (fits : ∀ c ∈ calls, c.Fits capacity) :
    ∃ dir, (create capacity garbage).callAll calls
        = .ok (dir, (BoundedMap.callAll capacity ∅ calls).2) ∧
      dir.tableSize = capacity ∧
      Tabulates capacity dir.table.entry (BoundedMap.callAll capacity ∅ calls).1 ∧
      (used capacity dir.table.entry).card
        = (BoundedMap.callAll capacity ∅ calls).1.keys.card := by
  obtain ⟨dir, run, holds, size⟩ := (holds_create capacity garbage).callAll fits
  rw [Holds, size] at holds
  exact ⟨dir, run, size, holds, holds.card_keys.symm⟩

/-- A file of 40 bytes in sector 5. -/
def twoEntries : FileHeader := fun i => [40, 1, 5].getD i 0

/-- `"a"` is added, written to the file and read back, added again and looked for. -/
def addAndReload : List Call :=
  [.add (fun i => [97].getD i 0) 3, .reload (fun _ _ => 0) twoEntries fun _ => 7,
    .add (fun i => [97].getD i 0) 4, .find fun i => [97].getD i 0]

theorem directory_refines_map_reload :
    (BoundedMap.callAll 2 ∅ addAndReload).2
        = [.done true, .reloaded, .done false, .sector 3] ∧
      ∃ dir, (create 2 fun _ => 7).callAll addAndReload
          = .ok (dir, (BoundedMap.callAll 2 ∅ addAndReload).2) ∧
        dir.tableSize = 2 ∧
        Tabulates 2 dir.table.entry (BoundedMap.callAll 2 ∅ addAndReload).1 ∧
        (used 2 dir.table.entry).card = (BoundedMap.callAll 2 ∅ addAndReload).1.keys.card := by
  have describes : Describes twoEntries 40 [5] := by
    refine ⟨rfl, rfl, ?_, rfl, by decide, by decide⟩
    rintro (_ | j) s there
    · cases there
      rfl
    · cases there
  have fits : (Call.reload (fun _ _ => 0) twoEntries fun _ => 7).Fits 2 :=
    ⟨40, [5], describes, List.nodup_singleton 5, Nat.le_refl 40⟩
  refine ⟨rfl, directory_refines_map 2 (fun _ => 7) addAndReload ?_⟩
  rw [addAndReload, List.forall_mem_cons, List.forall_mem_cons, List.forall_mem_cons,
    List.forall_mem_singleton]
  exact ⟨trivial, fits, trivial, trivial⟩

end Directory

end Nachos.Disk
