/-
# Nachos.FileSys.FileSystem -- `filesys/filesys.cc`

`FileSystem(TRUE)`, `Create`, `Open` and `Remove`.  The free map and the directory are files
themselves: each call fetches its own copy of them, changes the copies and writes them back.
The memory that `new` returns has arbitrary bytes, `fresh i` for the `i`-th object of a call.

A `Layout` says which files are in which entries of the directory, and which sectors are
theirs.  `Represents` ties the disk to a layout: the headers describe the files, the
directory lists them, and the free map marks their sectors and no others.  Each call takes
a disk that represents one layout to a disk that represents the layout with that file added
or taken away, and says which sectors it may have changed.
-/
import Nachos.FileSys.Directory
import Nachos.FileSys.FreeMap

namespace Nachos.Disk

open Nachos.Lib.Bytes
open Nachos.UserProg (BitMap)

set_option autoImplicit false

/-- `FreeMapSector`. -/
def freeMapSector : Nat := 0

/-- `DirectorySector`. -/
def directorySector : Nat := 1

structure FileSystem where
  freeMapFile : FileHeader
  directoryFile : FileHeader

/-- `ASSERT` of a call that returns `FALSE` as `none`. -/
def succeeded {α : Type} : Option α → Except Stop α
  | none => .error .assertion
  | some a => .ok a

namespace FileSystem

/-- `FileSystem::FileSystem(TRUE)`. -/
def format (d : Disk) (fresh : Nat → Nat → Byte) : Except Stop (FileSystem × Disk) := do
  let freeMap ← BitMap.create numSectors (words (fresh 0))
  let directory := Table.create (fresh 1)
  let freeMap ← freeMap.mark freeMapSector
  let freeMap ← freeMap.mark directorySector
  let (mapHdr, freeMap) ← succeeded
      (← FileHeader.allocate (words (fresh 2)) freeMap freeMapFileSize)
  let (dirHdr, freeMap) ← succeeded
      (← FileHeader.allocate (words (fresh 3)) freeMap directoryFileSize)
  let d ← FileHeader.writeBack mapHdr d freeMapSector
  let d ← FileHeader.writeBack dirHdr d directorySector
  let freeMapFile ← FileHeader.fetchFrom d freeMapSector
  let directoryFile ← FileHeader.fetchFrom d directorySector
  let d ← writeMap freeMap d freeMapFile (fresh 4)
  let d ← directory.writeBack d directoryFile (fresh 5)
  return (⟨freeMapFile, directoryFile⟩, d)

/-- `FileSystem::Create`. -/
def create (fs : FileSystem) (d : Disk) (name : Nat → Byte) (initialSize : Int)
    (fresh : Nat → Nat → Byte) :
    Except Stop (Bool × Disk) := do
  let directory ← (Table.create (fresh 0)).fetchFrom d fs.directoryFile
  if directory.find name ≠ -1 then return (false, d)
  let freeMap ← fetchMap (← BitMap.create numSectors (words (fresh 1))) d fs.freeMapFile
  let (sector, freeMap) ← freeMap.find
  if sector = -1 then return (false, d)
  match directory.add name sector with
  | none => return (false, d)
  | some directory =>
      match ← FileHeader.allocate (words (fresh 2)) freeMap initialSize with
      | none => return (false, d)
      | some (hdr, freeMap) =>
          let d ← FileHeader.writeBack hdr d sector
          let d ← directory.writeBack d fs.directoryFile (fresh 3)
          let d ← writeMap freeMap d fs.freeMapFile (fresh 4)
          return (true, d)

/-- `FileSystem::Open`; `none` is `NULL`. -/
def «open» (fs : FileSystem) (d : Disk) (name : Nat → Byte) (fresh : Nat → Nat → Byte) :
    Except Stop (Option FileHeader) := do
  let directory ← (Table.create (fresh 0)).fetchFrom d fs.directoryFile
  let sector := directory.find name
  if sector ≥ 0 then return some (← FileHeader.fetchFrom d sector)
  return none

/-- `FileSystem::Remove`. -/
def remove (fs : FileSystem) (d : Disk) (name : Nat → Byte) (fresh : Nat → Nat → Byte) :
    Except Stop (Bool × Disk) := do
  let directory ← (Table.create (fresh 0)).fetchFrom d fs.directoryFile
  let sector := directory.find name
  if sector = -1 then return (false, d)
  let fileHdr ← FileHeader.fetchFrom d sector
  let freeMap ← fetchMap (← BitMap.create numSectors (words (fresh 1))) d fs.freeMapFile
  let freeMap ← fileHdr.deallocate freeMap
  let freeMap ← freeMap.clear sector
  let directory := (directory.remove name).getD directory
  let d ← writeMap freeMap d fs.freeMapFile (fresh 2)
  let d ← directory.writeBack d fs.directoryFile (fresh 3)
  return (true, d)

end FileSystem

/-! ## Layouts -/

/-- A file of the directory, where it lies and how long it is. -/
structure File where
  name : List Byte
  header : Nat
  length : Nat
  sectors : List Nat

/-- The files by the entries of the directory. -/
abbrev Layout := Nat → Option File

/-- The sectors of a file. -/
def own : Option File → List Nat
  | none => []
  | some f => f.header :: f.sectors

/-- The sectors that are in use: those of the free map and of the directory, and those of
the files. -/
def Layout.used (l : Layout) : List Nat :=
  [0, 1, 2, 3, 4] ++ (List.range numDirEntries).flatMap fun i => own (l i)

section Used

variable {l : Layout} {f : File} {i s : Nat}

theorem Layout.mem_used : s ∈ l.used ↔ s < 5 ∨ ∃ i < numDirEntries, s ∈ own (l i) := by
  rw [Layout.used, List.mem_append, List.mem_flatMap]
  refine or_congr ?_ ?_
  · simp only [List.mem_cons, List.not_mem_nil, or_false]
    omega
  · simp only [List.mem_range]

theorem flatMap_own_perm (l' : Layout) (entries : List Nat) (distinct : entries.Nodup)
    (member : i ∈ entries) (empty : l i = none) (same : ∀ j, j ≠ i → l' j = l j) :
    (entries.flatMap fun j => own (l' j)).Perm
      (own (l' i) ++ entries.flatMap fun j => own (l j)) := by
  obtain ⟨before, after, rfl⟩ := List.append_of_mem member
  rw [List.nodup_append, List.nodup_cons] at distinct
  obtain ⟨-, ⟨notAfter, -⟩, apart⟩ := distinct
  have first : (before.flatMap fun j => own (l' j)) = before.flatMap fun j => own (l j) := by
    refine List.flatMap_congr fun j there => ?_
    rw [same j (apart j there i (List.mem_cons_self ..))]
  have second : (after.flatMap fun j => own (l' j)) = after.flatMap fun j => own (l j) := by
    refine List.flatMap_congr fun j there => ?_
    rw [same j fun equal => notAfter (equal ▸ there)]
  simp only [List.flatMap_append, List.flatMap_cons, first, second, empty]
  exact List.perm_append_comm_assoc ..

/-- The sectors in use after a file is entered in the directory. -/
theorem Layout.used_update (inside : i < numDirEntries) (empty : l i = none) :
    (Layout.used (Function.update l i (some f))).Perm (own (some f) ++ l.used) := by
  have perm := flatMap_own_perm (l := l) (Function.update l i (some f)) (List.range numDirEntries)
    List.nodup_range (List.mem_range.mpr inside) empty fun j other => Function.update_of_ne other ..
  rw [Function.update_self] at perm
  exact (perm.append_left _).trans (List.perm_append_comm_assoc ..)

/-- The sectors in use before a file is taken out of the directory. -/
theorem Layout.used_remove (inside : i < numDirEntries) (there : l i = some f) :
    l.used.Perm (own (some f) ++ Layout.used (Function.update l i none)) := by
  have perm := Layout.used_update (l := Function.update l i none) (f := f) inside
    (Function.update_self ..)
  have same : Function.update l i (some f) = l := by rw [← there, Function.update_eq_self]
  rwa [Function.update_idem, same] at perm

end Used

/-- The disk holds the files of a layout. -/
structure Represents (fs : FileSystem) (d : Disk) (l : Layout) : Prop where
  mapFile : Describes fs.freeMapFile freeMapFileSize [2]
  dirFile : Describes fs.directoryFile directoryFileSize [3, 4]
  mapHeader : Describes (words (d freeMapSector)) freeMapFileSize [2]
  dirHeader : Describes (words (d directorySector)) directoryFileSize [3, 4]
  entries : ∀ i < numDirEntries,
    Table.entry (contents d [3, 4]) i = (l i).map fun f => (f.name, (f.header : Int))
  headers : ∀ i < numDirEntries, ∀ f, l i = some f →
    Describes (words (d f.header)) f.length f.sectors
  marks : ∀ j < numSectors, bitOf (contents d [2]) j = decide (j ∈ l.used)
  distinct : l.used.Nodup
  bound : ∀ s ∈ l.used, s < numSectors
  names : ∀ i < numDirEntries, ∀ j < numDirEntries, ∀ f g, l i = some f → l j = some g →
    f.name = g.name → i = j

section Represents

variable {fs : FileSystem} {d d' : Disk} {l : Layout} {f g : File} {i j s : Nat}

theorem own_mem (there : l i = some f) : f.header ∈ own (l i) ∧ ∀ s ∈ f.sectors, s ∈ own (l i) := by
  rw [there, own]
  exact ⟨List.mem_cons_self .., fun s member => List.mem_cons_of_mem _ member⟩

theorem Represents.header_used (_ : Represents fs d l) (inside : i < numDirEntries)
    (there : l i = some f) :
    f.header ∈ l.used :=
  Layout.mem_used.mpr (.inr ⟨i, inside, (own_mem there).1⟩)

theorem Represents.data_used (_ : Represents fs d l) (inside : i < numDirEntries)
    (there : l i = some f) (member : s ∈ f.sectors) : s ∈ l.used :=
  Layout.mem_used.mpr (.inr ⟨i, inside, (own_mem there).2 s member⟩)

/-- No sector belongs to two files, or to a file twice, or to a file and to the free map or the
directory. -/
theorem Represents.apart (rep : Represents fs d l) (inside : i < numDirEntries)
    (there : l i = some f) :
    (own (some f)).Nodup ∧ ∀ s ∈ own (some f), 5 ≤ s ∧
      ∀ j < numDirEntries, j ≠ i → s ∉ own (l j) := by
  have nodup := (Layout.used_remove inside there).nodup_iff.mp rep.distinct
  rw [List.nodup_append] at nodup
  obtain ⟨distinct, -, differ⟩ := nodup
  refine ⟨distinct, fun s member => ⟨?_, fun j bound other shared => ?_⟩⟩
  · by_contra small
    exact differ s member s (Layout.mem_used.mpr (.inl (by omega))) rfl
  · refine differ s member s (Layout.mem_used.mpr (.inr ⟨j, bound, ?_⟩)) rfl
    rwa [Function.update_of_ne other]

/-- The layout is kept by whatever leaves the free map, the directory and the headers alone. -/
theorem Represents.frame (rep : Represents fs d l) (system : ∀ s < 5, d' s = d s)
    (files : ∀ i < numDirEntries, ∀ f, l i = some f → d' f.header = d f.header) :
    Represents fs d' l where
  mapFile := rep.mapFile
  dirFile := rep.dirFile
  mapHeader := by
    rw [system freeMapSector (by decide)]
    exact rep.mapHeader
  dirHeader := by
    rw [system directorySector (by decide)]
    exact rep.dirHeader
  entries i inside := by
    rw [← rep.entries i inside]
    exact Table.entry_contents inside (by decide) fun s member =>
      system s (by simp at member; omega)
  headers i inside f there := by
    rw [files i inside f there]
    exact rep.headers i inside f there
  marks j inside := by
    rw [← rep.marks j inside]
    exact bitOf_contents inside (system 2 (by decide))
  distinct := rep.distinct
  bound := rep.bound
  names := rep.names

/-- The layout with one more file. -/
theorem Represents.enter (rep : Represents fs d l) (inside : i < numDirEntries) (empty : l i = none)
    (distinct : (own (some f)).Nodup) (unused : ∀ s ∈ own (some f), s < numSectors ∧ s ∉ l.used)
    (unnamed : ∀ j < numDirEntries, ∀ g, l j = some g → g.name ≠ f.name)
    (same : ∀ s, s ∉ [2, 3, 4, f.header] → d' s = d s)
    (describes : Describes (words (d' f.header)) f.length f.sectors)
    (entry : Table.entry (contents d' [3, 4]) i = some (f.name, (f.header : Int)))
    (others : ∀ j < numDirEntries, j ≠ i →
      Table.entry (contents d' [3, 4]) j = Table.entry (contents d [3, 4]) j)
    (marks : ∀ j < numSectors,
      bitOf (contents d' [2]) j = (decide (j ∈ own (some f)) || bitOf (contents d [2]) j)) :
    Represents fs d' (Function.update l i (some f)) := by
  have perm := Layout.used_update (f := f) inside empty
  have high : 5 ≤ f.header := by
    have unused := (unused f.header (List.mem_cons_self ..)).2
    by_contra small
    exact unused (Layout.mem_used.mpr (.inl (by omega)))
  have zero : d' freeMapSector = d freeMapSector := same _ (by simp [freeMapSector]; omega)
  have one : d' directorySector = d directorySector := same _ (by simp [directorySector]; omega)
  refine ⟨rep.mapFile, rep.dirFile, zero ▸ rep.mapHeader, one ▸ rep.dirHeader, ?_, ?_,
    ?_, ?_, ?_, ?_⟩
  · intro j bound
    by_cases here : j = i
    · rw [here, Function.update_self, entry, Option.map_some]
    · rw [Function.update_of_ne here, others j bound here, rep.entries j bound]
  · intro j bound g there
    by_cases here : j = i
    · rw [here, Function.update_self, Option.some.injEq] at there
      exact there ▸ describes
    · rw [Function.update_of_ne here] at there
      have used := rep.header_used bound there
      have apart := (rep.apart bound there).2 g.header (List.mem_cons_self ..)
      have differ : g.header ≠ f.header := fun equal =>
        (unused f.header (List.mem_cons_self ..)).2 (equal ▸ used)
      rw [same g.header (by simp; omega)]
      exact rep.headers j bound g there
  · intro j bound
    rw [marks j bound, rep.marks j bound, Bool.eq_iff_iff]
    simp only [Bool.or_eq_true, decide_eq_true_eq]
    rw [perm.mem_iff, List.mem_append]
  · rw [perm.nodup_iff, List.nodup_append]
    refine ⟨distinct, rep.distinct, fun s mine t used equal => ?_⟩
    exact (unused s mine).2 (equal ▸ used)
  · intro s member
    obtain mine | used := List.mem_append.mp (perm.mem_iff.mp member)
    · exact (unused s mine).1
    · exact rep.bound s used
  · intro j bound k bound' g g' there there' equal
    by_cases here : j = i
    · by_cases here' : k = i
      · rw [here, here']
      · rw [here, Function.update_self, Option.some.injEq] at there
        rw [Function.update_of_ne here'] at there'
        exact absurd (there ▸ equal.symm) (unnamed k bound' g' there')
    · rw [Function.update_of_ne here] at there
      by_cases here' : k = i
      · rw [here', Function.update_self, Option.some.injEq] at there'
        exact absurd (there' ▸ equal) (unnamed j bound g there)
      · rw [Function.update_of_ne here'] at there'
        exact rep.names j bound k bound' g g' there there' equal

/-- The layout with one file less. -/
theorem Represents.leave (rep : Represents fs d l) (inside : i < numDirEntries)
    (there : l i = some f) (same : ∀ s, s ∉ [2, 3, 4] → d' s = d s)
    (entry : Table.entry (contents d' [3, 4]) i = none)
    (others : ∀ j < numDirEntries, j ≠ i →
      Table.entry (contents d' [3, 4]) j = Table.entry (contents d [3, 4]) j)
    (marks : ∀ j < numSectors,
      bitOf (contents d' [2]) j = (!decide (j ∈ own (some f)) && bitOf (contents d [2]) j)) :
    Represents fs d' (Function.update l i none) := by
  have perm := Layout.used_remove inside there
  have nodup := perm.nodup_iff.mp rep.distinct
  rw [List.nodup_append] at nodup
  have zero : d' freeMapSector = d freeMapSector := same _ (by decide)
  have one : d' directorySector = d directorySector := same _ (by decide)
  have kept : ∀ {j : Nat} {g : File}, Function.update l i none j = some g → l j = some g := by
    intro j g there
    by_cases here : j = i
    · rw [here, Function.update_self] at there
      cases there
    · rwa [Function.update_of_ne here] at there
  refine ⟨rep.mapFile, rep.dirFile, zero ▸ rep.mapHeader, one ▸ rep.dirHeader, ?_, ?_,
    ?_, ?_, ?_, ?_⟩
  · intro j bound
    by_cases here : j = i
    · rw [here, Function.update_self, entry, Option.map_none]
    · rw [Function.update_of_ne here, others j bound here, rep.entries j bound]
  · intro j bound g there
    have apart := (rep.apart bound (kept there)).2 g.header (List.mem_cons_self ..)
    rw [same g.header (by simp; omega)]
    exact rep.headers j bound g (kept there)
  · intro j bound
    rw [marks j bound, rep.marks j bound, Bool.eq_iff_iff]
    simp only [Bool.and_eq_true, Bool.not_eq_true', decide_eq_true_eq, decide_eq_false_iff_not]
    rw [perm.mem_iff, List.mem_append]
    constructor
    · rintro ⟨other, mine | used⟩
      · exact absurd mine other
      · exact used
    · intro used
      exact ⟨fun mine => nodup.2.2 j mine j used rfl, .inr used⟩
  · exact nodup.2.1
  · intro s used
    exact rep.bound s (perm.mem_iff.mpr (List.mem_append_right _ used))
  · intro j bound k bound' g g' there there' equal
    exact rep.names j bound k bound' g g' (kept there) (kept there') equal

/-! ## The calls -/

/-- What `Find` finds in a table that lists the files of a layout. -/
theorem Layout.find_cases {t : Table}
    (entries : ∀ i < numDirEntries, t.entry i = (l i).map fun f => (f.name, (f.header : Int)))
    (name : Nat → Byte) :
    (t.find name = -1 ∧ t.findIndex name = -1 ∧
        ∀ j < numDirEntries, ∀ g, l j = some g → g.name ≠ chars name fileNameMaxLen 0) ∨
      ∃ i f, i < numDirEntries ∧ l i = some f ∧ f.name = chars name fileNameMaxLen 0 ∧
        t.find name = (f.header : Int) ∧ t.findIndex name = (i : Int) := by
  obtain ⟨none, absent⟩ | ⟨i, inside, index, found⟩ := t.find_cases name
  · refine .inl ⟨none, ?_, fun j inside g there named => ?_⟩
    · obtain ⟨none, -⟩ | ⟨j, s, -, inside, there⟩ := t.findIndex_cases name
      · exact none
      · exact absurd there (absent j inside s)
    · refine absent j inside g.header ?_
      rw [entries j inside, there, Option.map_some, named]
  · rw [entries i inside] at found
    obtain ⟨f, there, same⟩ := Option.map_eq_some_iff.mp found
    rw [Prod.mk.injEq] at same
    exact .inr ⟨i, f, inside, there, same.1, same.2.symm, index⟩

theorem Represents.fetchDirectory (rep : Represents fs d l) (name : Nat → Byte) (t : Table) :
    ∃ t', t.fetchFrom d fs.directoryFile = .ok t' ∧
      (∀ i < numDirEntries, t'.entry i = Table.entry (contents d [3, 4]) i) ∧
      ((t'.find name = -1 ∧ t'.findIndex name = -1 ∧
          ∀ j < numDirEntries, ∀ g, l j = some g → g.name ≠ chars name fileNameMaxLen 0) ∨
        ∃ i f, i < numDirEntries ∧ l i = some f ∧ f.name = chars name fileNameMaxLen 0 ∧
          t'.find name = (f.header : Int) ∧ t'.findIndex name = (i : Int)) := by
  obtain ⟨t', fetched, same⟩ := Table.fetchFrom_spec (d := d) rep.dirFile t
  exact ⟨t', fetched, same, Layout.find_cases
    (fun i inside => (same i inside).trans (rep.entries i inside)) name⟩

theorem Represents.fetchMap (rep : Represents fs d l) (garbage : Nat → Word) :
    ∃ b₀ b, BitMap.create numSectors garbage = .ok b₀ ∧ Disk.fetchMap b₀ d fs.freeMapFile = .ok b ∧
      b.numBits = numSectors ∧ ∀ j < numSectors, b.isSet j = bitOf (contents d [2]) j := by
  obtain ⟨b₀, made, bits₀, -⟩ := BitMap.create_spec numSectors garbage
  obtain ⟨b, fetched, bits, sets⟩ := fetchMap_spec (d := d) rep.mapFile bits₀
  exact ⟨b₀, b, made, fetched, bits, sets⟩

/-- The file that `Create` enters in the directory, in the lowest sectors that were free. -/
structure Added (l : Layout) (i : Nat) (f : File) : Prop where
  inside : i < numDirEntries
  empty : l i = none
  unnamed : ∀ j < numDirEntries, ∀ g, l j = some g → g.name ≠ f.name
  sorted : (own (some f)).Pairwise (· < ·)
  unused : ∀ s ∈ own (some f), s ∉ l.used
  lowest : ∀ s ∈ own (some f), ∀ k < s, k ∈ own (some f) ∨ k ∈ l.used

/-- Why `Create` returns `FALSE`: the name is in the directory, the directory is full, or there
are too few free sectors for the header and the data. -/
def Refused (l : Layout) (name : List Byte) (size : Int) : Prop :=
  (∃ j < numDirEntries, ∃ g, l j = some g ∧ g.name = name) ∨ (∀ j < numDirEntries, l j ≠ none) ∨
    ∀ free : List Nat, free.Nodup → (∀ s ∈ free, s < numSectors ∧ s ∉ l.used) →
      free.length ≤ (size.toNat + 127) / 128

/-- The free sectors other than the one for the header are clear in the map that is allocated
from. -/
theorem free_le_clear {b b' : BitMap} {free : List Nat} (bits : b'.numBits = numSectors)
    (distinct : free.Nodup)
    (unset : ∀ t ∈ free, t < numSectors ∧ b.isSet t = false) (taken : Taken b b' [s]) :
    free.length ≤ 1 + (List.range b'.numBits).countP fun j => !b'.isSet j := by
  have covered : free.erase s ⊆ (List.range b'.numBits).filter fun j => !b'.isSet j := by
    intro t member
    obtain ⟨other, there⟩ := distinct.mem_erase_iff.mp member
    rw [List.mem_filter, List.mem_range, taken.sets, (unset t there).2, bits]
    exact ⟨(unset t there).1, by simpa using other⟩
  have few := (List.Nodup.subperm (distinct.erase s) covered).length_le
  rw [← List.countP_eq_length_filter] at few
  have length := List.le_length_erase (a := s) (l := free)
  omega

/-- The header's sector and the sectors that are still clear were all free. -/
theorem exists_free {b b' : BitMap} (taken : Taken b b' [s]) :
    ∃ free : List Nat, free.Nodup ∧ (∀ t ∈ free, t < numSectors ∧ b.isSet t = false) ∧
      free.length = 1 + (List.range b'.numBits).countP fun j => !b'.isSet j := by
  have own : s ∈ [s] := List.mem_singleton_self s
  refine ⟨s :: (List.range b'.numBits).filter fun j => !b'.isSet j, ?_, ?_, ?_⟩
  · refine List.nodup_cons.mpr ⟨fun member => ?_, List.nodup_range.filter _⟩
    have clear := (List.mem_filter.mp member).2
    rw [taken.sets, decide_eq_true own] at clear
    cases clear
  · intro t member
    obtain rfl | member := List.mem_cons.mp member
    · exact ⟨taken.bound t own, taken.free t own⟩
    · obtain ⟨inside, clear⟩ := List.mem_filter.mp member
      rw [List.mem_range, taken.bits] at inside
      rw [taken.sets, Bool.not_or, Bool.and_eq_true] at clear
      exact ⟨inside, by simpa using clear.2⟩
  · rw [List.length_cons, ← List.countP_eq_length_filter, Nat.add_comm]

/-- The sectors that were taken from the free map belong to nobody else. -/
theorem Represents.added (rep : Represents fs d l) {b b' : BitMap}
    (marks : ∀ j < numSectors, b.isSet j = bitOf (contents d [2]) j)
    (taken : Taken b b' (own (some f))) (inside : i < numDirEntries) (empty : l i = none)
    (unnamed : ∀ j < numDirEntries, ∀ g, l j = some g → g.name ≠ f.name) : Added l i f := by
  refine ⟨inside, empty, unnamed, taken.sorted, fun s member used => ?_, fun s member k below => ?_⟩
  · have free := taken.free s member
    rw [marks s (taken.bound s member), rep.marks s (taken.bound s member),
      decide_eq_true used] at free
    cases free
  · have set := taken.lowest s member k below
    have bound : k < numSectors := Nat.lt_trans below (taken.bound s member)
    rw [taken.sets, marks k bound, rep.marks k bound] at set
    simpa using set

/-- `Create` writes the header, the directory and the map, and the file is in the layout. -/
theorem Represents.writeFile (rep : Represents fs d l) (added : Added l i f)
    {b b' : BitMap} {t : Table} {hdr : FileHeader} {name : Nat → Byte} (fresh fresh' : Nat → Byte)
    (marks : ∀ j < numSectors, b.isSet j = bitOf (contents d [2]) j)
    (taken : Taken b b' (own (some f)))
    (same : ∀ j < numDirEntries, t.entry j = Table.entry (contents d [3, 4]) j)
    (named : f.name = chars name fileNameMaxLen 0) (describes : Describes hdr f.length f.sectors) :
    ∃ d₁ d₂ d₃, hdr.writeBack d f.header = .ok d₁ ∧
      (t.set i name f.header).writeBack d₁ fs.directoryFile fresh = .ok d₂ ∧
      writeMap b' d₂ fs.freeMapFile fresh' = .ok d₃ ∧ words (d₃ f.header) = hdr ∧
      Represents fs d₃ (Function.update l i (some f)) ∧ ∀ s, s ∉ [2, 3, 4, f.header] →
      d₃ s = d s := by
  have mine : f.header ∈ own (some f) := List.mem_cons_self ..
  have sectorBound := taken.bound f.header mine
  have high : 5 ≤ f.header := by
    by_contra small
    exact added.unused f.header mine (Layout.mem_used.mpr (.inl (by omega)))
  obtain ⟨d₂, wroteDir, entries, keptDir⟩ := Table.writeBack_spec fresh
    (d := Function.update d f.header (bytesOfWords hdr)) rep.dirFile (by decide)
      (t.set i name f.header)
  obtain ⟨d₃, wroteMap, bitsWritten, keptMap⟩ :=
    writeMap_spec (d := d₂) fresh' rep.mapFile taken.bits
  have read : words (d₃ f.header) = hdr := by
    rw [keptMap f.header (by omega), keptDir f.header (by simp; omega), Function.update_self]
    exact funext (words_bytesOfWords hdr)
  have same' : ∀ j < numDirEntries, Table.entry (contents d₃ [3, 4]) j =
      (t.set i name f.header).entry j := by
    intro j bound
    rw [← entries j bound]
    exact Table.entry_contents bound (by decide) fun s member =>
      keptMap s (by simp at member; omega)
  have others : ∀ s, s ∉ [2, 3, 4, f.header] → d₃ s = d s := by
    intro s other
    simp only [List.mem_cons, List.not_mem_nil, or_false, not_or] at other
    rw [keptMap s other.1, keptDir s (by simp [other]), Function.update_of_ne other.2.2.2]
  have small : f.header < 1024 := sectorBound
  refine ⟨_, d₂, d₃, writeSector_ok sectorBound, wroteDir, wroteMap, read, ?_, others⟩
  refine rep.enter added.inside added.empty taken.distinct
    (fun s member => ⟨taken.bound s member, added.unused s member⟩) added.unnamed others ?_ ?_ ?_ ?_
  · rw [read]
    exact describes
  · rw [same' i added.inside, Table.entry_set_self (by omega), named]
  · intro j bound other
    rw [same' j bound, Table.entry_set_other other, same j bound]
  · intro j bound
    rw [bitsWritten j bound, taken.sets, marks j bound]

/-- **`Create` adds a file of that name and size, or changes nothing.** -/
theorem Represents.create (rep : Represents fs d l) (name : Nat → Byte) (fresh : Nat → Nat → Byte)
    {size : Int} (low : -maxInt - 1 ≤ size) (high : size ≤ maxInt) :
    (maxFileSize < size ∧ ¬ Refused l (chars name fileNameMaxLen 0) size ∧
        ∃ e, fs.create d name size fresh = .error e) ∨
      (fs.create d name size fresh = .ok (false, d) ∧
        Refused l (chars name fileNameMaxLen 0) size) ∨
      ∃ i f d', fs.create d name size fresh = .ok (true, d') ∧ Added l i f ∧
        f.name = chars name fileNameMaxLen 0 ∧ f.length = size.toNat ∧
        FileHeader.fileLength (words (d' f.header)) = size ∧
        Represents fs d' (Function.update l i (some f)) ∧ ∀ s, s ∉ [2, 3, 4, f.header] →
        d' s = d s := by
  obtain ⟨t, fetched, same, cases⟩ := rep.fetchDirectory name (Table.create (fresh 0))
  obtain ⟨b₀, b, made, fetchedMap, bits, marks⟩ := rep.fetchMap (words (fresh 1))
  unfold FileSystem.create
  rw [fetched, ok_bind]
  obtain ⟨absent, noIndex, unnamed⟩ | ⟨i, f, inside, there, named, found, index⟩ := cases
  swap
  · rw [found, if_pos (by omega)]
    exact .inr (.inl ⟨rfl, .inl ⟨i, inside, f, there, named⟩⟩)
  simp only [absent, ne_eq, not_true_eq_false, if_false, made, fetchedMap, ok_bind]
  have unset : ∀ s, s < numSectors ∧ s ∉ l.used → b.isSet s = false := by
    rintro s ⟨bound, unused⟩
    rw [marks s bound, rep.marks s bound, decide_eq_false unused]
  by_cases full : ∀ k < numSectors, b.isSet k = true
  · have find : b.find = .ok (-1, b) := by
      refine BitMap.findFrom_none (by omega) fun k _ small => full k (by omega)
    rw [find, ok_bind]
    refine .inr (.inl ⟨rfl, .inr (.inr fun free _ unused => ?_)⟩)
    cases free with
    | nil => exact Nat.zero_le _
    | cons s free =>
        have clear := unset s (unused s (List.mem_cons_self ..))
        rw [full s (unused s (List.mem_cons_self ..)).1] at clear
        cases clear
  obtain ⟨k, small, clear⟩ : ∃ k < numSectors, b.isSet k = false := by simpa using full
  obtain ⟨sector, b₁, found, takenHeader⟩ := find_taken bits small clear
  have sectorBound := takenHeader.bound sector (List.mem_singleton_self _)
  rw [found, ok_bind]
  simp only
  rw [if_neg (by omega), Table.add, noIndex, if_neg (by simp)]
  obtain ⟨none, used⟩ | ⟨i, added, -, inside, free⟩ :=
    Table.addFrom_cases t name sector numDirEntries 0
  · rw [none]
    refine .inr (.inl ⟨rfl, .inr (.inl fun j inside empty => ?_)⟩)
    refine used j (Nat.zero_le j) (by omega) ?_
    rw [same j inside, rep.entries j inside, empty, Option.map_none]
  rw [added]
  simp only
  have empty : l i = none := by
    have entry := same i (by omega)
    rw [free, rep.entries i (by omega)] at entry
    exact Option.map_eq_none_iff.mp entry.symm
  have few : (List.range b₁.numBits).countP (fun j => !b₁.isSet j) < (size.toNat + 127) / 128 →
      Refused l (chars name fileNameMaxLen 0) size := by
    refine fun few => .inr (.inr fun free distinct unused => ?_)
    have := free_le_clear takenHeader.bits distinct
      (fun t member => ⟨(unused t member).1, unset t (unused t member)⟩) takenHeader
    omega
  by_cases large : maxFileSize < size
  · obtain ⟨none, clear⟩ | ⟨enough, e, stops⟩ :=
      allocate_large (b := b₁) (words (fresh 2)) large high
    · rw [none]
      exact .inr (.inl ⟨rfl, few clear⟩)
    · rw [stops]
      refine .inl ⟨large, ?_, e, rfl⟩
      rintro (⟨j, inside, g, there, named⟩ | full | most)
      · exact unnamed j inside g there named
      · exact full i (by omega) empty
      · obtain ⟨free, distinct, clear, length⟩ := exists_free takenHeader
        have few := most free distinct fun s member => by
          obtain ⟨bound, clear⟩ := clear s member
          rw [marks s bound, rep.marks s bound] at clear
          exact ⟨bound, of_decide_eq_false clear⟩
        omega
  obtain ⟨none, clear⟩ | ⟨hdr, b₂, sectors, allocated, whole, describes, takenData⟩ :=
    allocate_spec (b := b₁) (words (fresh 2)) size takenHeader.bits low (Int.not_lt.mp large)
  · rw [none]
    exact .inr (.inl ⟨rfl, few clear⟩)
  have taken : Taken b b₂ (sector :: sectors) := takenHeader.append takenData
  let f : File := ⟨chars name fileNameMaxLen 0, sector, size.toNat, sectors⟩
  have fits : Added l i f := rep.added marks taken (by omega) empty unnamed
  obtain ⟨d₁, d₂, d₃, wroteHeader, wroteDir, wroteMap, read, rep', others⟩ :=
    rep.writeFile fits (fresh 3) (fresh 4) marks taken same rfl describes
  refine .inr (.inr ⟨i, f, d₃, ?_, fits, rfl, rfl, ?_, rep', others⟩)
  · rw [allocated, ok_bind]
    simp only
    rw [wroteHeader, ok_bind, wroteDir, ok_bind, wroteMap]
    rfl
  · rw [read]
    exact whole

/-- **`Open` fetches the header of the file of that name**, if there is one. -/
theorem Represents.open (rep : Represents fs d l) (name : Nat → Byte) (fresh : Nat → Nat → Byte) :
    (fs.open d name fresh = .ok none ∧
        ∀ j < numDirEntries, ∀ g, l j = some g → g.name ≠ chars name fileNameMaxLen 0) ∨
      ∃ i f, i < numDirEntries ∧ l i = some f ∧ f.name = chars name fileNameMaxLen 0 ∧
        fs.open d name fresh = .ok (some (words (d f.header))) := by
  obtain ⟨t, fetched, -, cases⟩ := rep.fetchDirectory name (Table.create (fresh 0))
  unfold FileSystem.open
  rw [fetched, ok_bind]
  obtain ⟨absent, -, unnamed⟩ | ⟨i, f, inside, there, named, found, -⟩ := cases
  · rw [absent]
    exact .inl ⟨rfl, unnamed⟩
  · refine .inr ⟨i, f, inside, there, named, ?_⟩
    have bound := rep.bound f.header (rep.header_used inside there)
    rw [found]
    simp only
    rw [if_pos (by omega), FileHeader.fetchFrom, readSector_ok bound]
    rfl

/-- **`Remove` takes the file of that name away**, if there is one; its `ASSERT` holds. -/
theorem Represents.remove (rep : Represents fs d l) (name : Nat → Byte) (fresh : Nat → Nat → Byte) :
    (fs.remove d name fresh = .ok (false, d) ∧
        ∀ j < numDirEntries, ∀ g, l j = some g → g.name ≠ chars name fileNameMaxLen 0) ∨
      ∃ i f d', i < numDirEntries ∧ l i = some f ∧ f.name = chars name fileNameMaxLen 0 ∧
        fs.remove d name fresh = .ok (true, d') ∧ Represents fs d' (Function.update l i none) ∧
        ∀ s, s ∉ [2, 3, 4] → d' s = d s := by
  obtain ⟨t, fetched, same, cases⟩ := rep.fetchDirectory name (Table.create (fresh 0))
  obtain ⟨b₀, b, made, fetchedMap, bits, marks⟩ := rep.fetchMap (words (fresh 1))
  unfold FileSystem.remove
  rw [fetched, ok_bind]
  obtain ⟨absent, -, unnamed⟩ | ⟨i, f, inside, there, named, found, index⟩ := cases
  · rw [absent]
    exact .inl ⟨rfl, unnamed⟩
  have bound := rep.bound f.header (rep.header_used inside there)
  have distinct := (rep.apart inside there).1
  rw [own, List.nodup_cons] at distinct
  obtain ⟨b₁, deallocated, bits₁, sets₁⟩ :=
    (rep.headers i inside f there).deallocate distinct.2 bits fun s member => by
    have used := rep.data_used inside there member
    rw [marks s (rep.bound s used), rep.marks s (rep.bound s used), decide_eq_true used]
  obtain ⟨b₂, cleared, bits₂, sets₂⟩ := BitMap.clear_natCast (b := b₁) (i := f.header) (by omega)
  obtain ⟨d₁, wroteMap, bitsWritten, keptMap⟩ := writeMap_spec (b := b₂) (d := d)
    (fresh 2) rep.mapFile
    (by omega)
  obtain ⟨d₂, wroteDir, entries, keptDir⟩ := Table.writeBack_spec (fresh 3) (d := d₁) rep.dirFile
    (by decide) (splice t (entrySize * i) [0])
  have others : ∀ s, s ∉ [2, 3, 4] → d₂ s = d s := by
    intro s other
    simp only [List.mem_cons, List.not_mem_nil, or_false, not_or] at other
    rw [keptDir s (by simp [other]), keptMap s other.1]
  refine .inr ⟨i, f, d₂, inside, there, named, ?_, rep.leave inside there others ?_ ?_ ?_, others⟩
  · have removed : (t.remove name).getD t = splice t (entrySize * i) [0] := by
      rw [Table.remove, index]
      simp only [Int.toNat_natCast]
      rw [if_neg (by omega), Option.getD_some]
    rw [found]
    simp only
    rw [if_neg (by omega), FileHeader.fetchFrom, readSector_ok bound, ok_bind, made]
    simp only [pure_eq_ok, ok_bind, fetchedMap, deallocated, cleared, removed, wroteMap, wroteDir]
  · rw [entries i inside, Table.entry_clear_self]
  · intro j bound other
    rw [entries j bound, Table.entry_clear_other other, same j bound]
  · intro j bound
    have kept : bitOf (contents d₂ [2]) j = bitOf (contents d₁ [2]) j :=
      bitOf_contents bound (keptDir 2 (by decide))
    have mine : (!decide (j ∈ own (some f))) =
        (!decide (j = f.header) && !decide (j ∈ f.sectors)) := by
      simp [own]
    rw [kept, bitsWritten j bound, sets₂, sets₁, marks j bound, mine, Bool.and_assoc]

/-- `Open` of a file of the layout. -/
theorem Represents.opens (rep : Represents fs d l) (inside : i < numDirEntries)
    (there : l i = some f)
    {name : Nat → Byte} (named : f.name = chars name fileNameMaxLen 0) (fresh : Nat → Nat → Byte) :
    fs.open d name fresh = .ok (some (words (d f.header))) := by
  obtain ⟨-, unnamed⟩ | ⟨j, g, bound, there', named', done⟩ := rep.open name fresh
  · exact absurd named (unnamed i inside f there)
  · obtain rfl := rep.names i inside j bound f g there there' (named.trans named'.symm)
    rw [there, Option.some.injEq] at there'
    rw [there', done]

/-- `Remove` of a file of the layout. -/
theorem Represents.removes (rep : Represents fs d l) (inside : i < numDirEntries)
    (there : l i = some f)
    {name : Nat → Byte} (named : f.name = chars name fileNameMaxLen 0) (fresh : Nat → Nat → Byte) :
    ∃ d', fs.remove d name fresh = .ok (true, d') ∧ Represents fs d' (Function.update l i none) ∧
      ∀ s, s ∉ [2, 3, 4] → d' s = d s := by
  obtain ⟨-, unnamed⟩ | ⟨j, g, d', bound, there', named', done, rep', kept⟩ := rep.remove name fresh
  · exact absurd named (unnamed i inside f there)
  · obtain rfl := rep.names i inside j bound f g there there' (named.trans named'.symm)
    exact ⟨d', done, rep', kept⟩

end Represents

/-- `FileSystem(TRUE)` succeeds on every disk, and leaves an empty directory on it. -/
theorem format_represents (d : Disk) (fresh : Nat → Nat → Byte) :
    ∃ fs d', FileSystem.format d fresh = .ok (fs, d') ∧ Represents fs d' (fun _ => none) ∧
      ∀ s, 5 ≤ s → d' s = d s := by
  obtain ⟨b₀, made, bits₀, clear⟩ := BitMap.create_spec numSectors (words (fresh 0))
  obtain ⟨b₁, marked₁, bits₁, sets₁⟩ := BitMap.mark_natCast (b := b₀) (i := freeMapSector) (by
    rw [bits₀]
    decide)
  obtain ⟨b₂, marked₂, bits₂, sets₂⟩ := BitMap.mark_natCast (b := b₁) (i := directorySector) (by
    rw [bits₁, bits₀]
    decide)
  have bits₂ : b₂.numBits = numSectors := by omega
  have set₂ : ∀ j < numSectors, b₂.isSet j = decide (j < 2) := by
    intro j bound
    rw [sets₂, sets₁, clear j bound, Bool.eq_iff_iff]
    simp only [Bool.or_false, Bool.or_eq_true, decide_eq_true_eq]
    rw [freeMapSector, directorySector]
    omega
  obtain ⟨mapHdr, b₃, mapAllocated, mapDescribes, bits₃, set₃⟩ :=
    allocate_from (words (fresh 2)) freeMapFileSize bits₂ set₂ (by decide) (by decide)
  obtain ⟨dirHdr, b₄, dirAllocated, dirDescribes, bits₄, set₄⟩ :=
    allocate_from (words (fresh 3)) directoryFileSize bits₃ set₃ (by decide) (by decide)
  have mapDescribes : Describes mapHdr freeMapFileSize [2] := mapDescribes
  have dirDescribes : Describes dirHdr directoryFileSize [3, 4] := dirDescribes
  -- both headers go to the disk, and are read from there again
  have mapRead : words (bytesOfWords mapHdr) = mapHdr := funext (words_bytesOfWords mapHdr)
  have dirRead : words (bytesOfWords dirHdr) = dirHdr := funext (words_bytesOfWords dirHdr)
  generalize written : Function.update (Function.update d 0 (bytesOfWords mapHdr)) 1
    (bytesOfWords dirHdr) = d₂
  have zero : d₂ 0 = bytesOfWords mapHdr := by rw [← written]; rfl
  have one : d₂ 1 = bytesOfWords dirHdr := by rw [← written]; rfl
  obtain ⟨d₃, wroteMap, bitsWritten, keptMap⟩ :=
    writeMap_spec (d := d₂) (fresh 4) mapDescribes bits₄
  obtain ⟨d₄, wroteDir, entries, keptDir⟩ := Table.writeBack_spec (fresh 5) (d := d₃) dirDescribes
    (by decide) (Table.create (fresh 1))
  have headers : ∀ s < 2, d₄ s = d₂ s := by
    intro s small
    rw [keptDir s (by simp; omega), keptMap s (by omega)]
  have used : Layout.used (fun _ => none) = [0, 1, 2, 3, 4] := rfl
  refine ⟨⟨mapHdr, dirHdr⟩, d₄, ?_,
    ⟨mapDescribes, dirDescribes, ?_, ?_, ?_, nofun, ?_, ?_, ?_, nofun⟩, ?_⟩
  · unfold FileSystem.format
    have sectorZero : writeSector d ((freeMapSector : Nat) : Int) (bytesOfWords mapHdr) =
        .ok (Function.update d 0 (bytesOfWords mapHdr)) := writeSector_ok (by decide)
    have sectorOne : writeSector (Function.update d 0 (bytesOfWords mapHdr))
        ((directorySector : Nat) : Int)
        (bytesOfWords dirHdr) = .ok d₂ := written ▸ writeSector_ok (by decide)
    have readZero : readSector d₂ ((freeMapSector : Nat) : Int) = .ok (d₂ 0) :=
      readSector_ok (by decide)
    have readOne : readSector d₂ ((directorySector : Nat) : Int) = .ok (d₂ 1) :=
      readSector_ok (by decide)
    rw [made, ok_bind, marked₁, ok_bind, marked₂, ok_bind, mapAllocated, ok_bind,
      succeeded, ok_bind]
    dsimp only
    rw [dirAllocated, ok_bind, succeeded, ok_bind]
    dsimp only
    rw [FileHeader.writeBack, sectorZero, ok_bind, FileHeader.writeBack, sectorOne, ok_bind]
    rw [FileHeader.fetchFrom, readZero, ok_bind, pure_eq_ok, ok_bind, zero, mapRead]
    rw [FileHeader.fetchFrom, readOne, ok_bind, pure_eq_ok, ok_bind, one, dirRead]
    rw [wroteMap, ok_bind, wroteDir, ok_bind]
    rfl
  · rw [freeMapSector, headers 0 (by decide), zero, mapRead]
    exact mapDescribes
  · rw [directorySector, headers 1 (by decide), one, dirRead]
    exact dirDescribes
  · intro i inside
    rw [entries i inside, Table.entry_create]
    rfl
  · intro j bound
    rw [bitOf_contents bound (keptDir 2 (by decide)), bitsWritten j bound, set₄ j bound, used,
      Bool.eq_iff_iff]
    have sum : 2 + (freeMapFileSize + 127) / 128 + (directoryFileSize + 127) / 128 = 5 := rfl
    simp only [sum, decide_eq_true_eq, List.mem_cons, List.not_mem_nil, or_false]
    omega
  · rw [used]
    decide
  · rw [used]
    decide
  · intro s high
    rw [keptDir s (by simp; omega), keptMap s (by omega), ← written,
      Function.update_of_ne (by omega), Function.update_of_ne (by omega)]

end Nachos.Disk
