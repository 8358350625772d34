/-
# Nachos.FileSys.Mount -- `FileSystem(FALSE)`, and what a disk lists

`Open` and `ReadAt` look at the directory and at the headers, and not at the free map.
`Lists` says what they find: the entries that are in use and the headers behind them.  It is
what is left of `Represents` on a disk on which a call has stopped half way: the free map may
be wrong, and two entries may have one name, of which `FindIndex` takes the first
(`Lists.open`, `Lists.readBack`).

The directory is a file of two sectors, and entry 6 lies in both of them: it is in use, or not,
by the first sector, and its name is in the second.  `torn` is a table of which one sector
is old and the other new.
-/
import Nachos.FileSys.Requests

namespace Nachos.Disk

open Nachos.Lib.Bytes

set_option autoImplicit false

/-- `FileSystem::FileSystem(FALSE)`. -/
def FileSystem.mount (d : Disk) : Except Stop FileSystem := do
  let freeMapFile ← FileHeader.fetchFrom d freeMapSector
  let directoryFile ← FileHeader.fetchFrom d directorySector
  return ⟨freeMapFile, directoryFile⟩

/-- The system after a restart: the disk, and no `OpenFile`s. -/
def mounted (d : Disk) : Except Stop Volume := do
  return ⟨d, ← FileSystem.mount d, []⟩

theorem mounted_eq (d : Disk) :
    mounted d = .ok ⟨d, ⟨words (d freeMapSector), words (d directorySector)⟩, []⟩ := by
  have zero : readSector d ((freeMapSector : Nat) : Int) = .ok (d freeMapSector) :=
    readSector_ok (by decide)
  have one : readSector d ((directorySector : Nat) : Int) = .ok (d directorySector) :=
    readSector_ok (by decide)
  rw [mounted, FileSystem.mount, FileHeader.fetchFrom, zero, ok_bind, pure_eq_ok, ok_bind,
    FileHeader.fetchFrom, one]
  rfl

/-! ## The bytes of a table -/

namespace Table

/-- The name of an entry, in use or not. -/
def key (t : Table) (i : Nat) : List Byte := chars (t.name i) fileNameMaxLen 0

/-- The first sector of one table and the second of another. -/
def torn (first second : Table) : Table := fun q => if q < sectorSize then first q else second q

@[simp] theorem torn_self (t : Table) : torn t t = t := funext fun _ => ite_self _

section Bytes

variable {t t' first second : Table} {name : Nat → Byte} {n i j q : Nat} {s : Int}

theorem entry_of_inUse (used : t.inUse i = true) :
    t.entry i = some (t.key i, t.sector i) := if_pos used

theorem entry_of_not_inUse (free : t.inUse i = false) : t.entry i = none := by
  rw [entry, free]
  rfl

theorem key_congr (same : ∀ q, entrySize * i + 8 ≤ q → q < entrySize * i + 17 → t q = t' q) :
    t.key i = t'.key i := by
  refine chars_congr fun k inside => same _ (by omega) ?_
  rw [fileNameMaxLen] at inside
  omega

/-- An entry that is in use has its name. -/
theorem entry_key (i : Nat) : ((t.entry i).map fun e => (t.key i, e.2)) = t.entry i := by
  cases used : t.inUse i with
  | false => rw [entry_of_not_inUse used, Option.map_none]
  | true => rw [entry_of_inUse used, Option.map_some]

theorem key_of_entry {e : List Byte × Int} (there : t.entry i = some e) : t.key i = e.1 := by
  have same := entry_key (t := t) i
  rw [there, Option.map_some, Option.some.injEq] at same
  rw [← same]

theorem set_outside (apart : q < entrySize * i ∨ entrySize * i + entrySize ≤ q) :
    t.set i name s q = t q := by
  simp only [entrySize] at apart
  unfold set
  rw [splice_outside, splice_outside, splice_outside]
  · simp [entrySize]
    omega
  · simp [entrySize, fileNameMaxLen]
    omega
  · simp [entrySize]
    omega

theorem splice_congr {β : Type} {m m' : Nat → β} {bs : List β} (same : m q = m' q) (pos : Nat) :
    splice m pos bs q = splice m' pos bs q := by
  unfold splice
  rw [same]

theorem set_congr (same : t q = t' q) : t.set i name s q = t'.set i name s q :=
  splice_congr (splice_congr (splice_congr same _) _) _

theorem key_set_other (differ : j ≠ i) : (t.set i name s).key j = t.key j := by
  refine key_congr fun q low high => set_outside ?_
  simp only [entrySize] at *
  omega

theorem key_clear (i j : Nat) : key (splice t (entrySize * i) [0]) j = t.key j := by
  refine key_congr fun q low high => splice_outside _ ?_
  simp only [entrySize, List.length_singleton] at *
  omega

/-- Entry 6 takes its name from the second sector. -/
theorem entry_torn (i : Nat) : (torn first second).entry i =
    if i < 6 then first.entry i else if i = 6 then (first.entry i).map fun e => (second.key i, e.2)
      else second.entry i := by
  have low : ∀ q < sectorSize, torn first second q = first q := fun q small => if_pos small
  have high : ∀ q, sectorSize ≤ q → torn first second q = second q := fun q large =>
    if_neg (Nat.not_lt.mpr large)
  split
  · refine entry_congr fun q _ above => low q ?_
    simp only [entrySize, sectorSize] at *
    omega
  split
  · rename_i six
    subst six
    have used : (torn first second).inUse 6 = first.inUse 6 := by
      rw [inUse, inUse, low _ (by decide)]
    have sectors : (torn first second).sector 6 = first.sector 6 := by
      have word : wordAt (torn first second) (entrySize * 6 + 4) =
          wordAt first (entrySize * 6 + 4) :=
        wordAt_congr fun k inside => low _ (by simp only [entrySize, sectorSize]; omega)
      rw [sector, sector, word]
    have names : (torn first second).key 6 = second.key 6 := by
      refine key_congr fun q below _ => high q ?_
      simp only [entrySize, sectorSize] at *
      omega
    cases here : first.inUse 6 with
    | false => rw [entry_of_not_inUse here, entry_of_not_inUse (used.trans here), Option.map_none]
    | true => rw [entry_of_inUse here, entry_of_inUse (used.trans here), Option.map_some,
        names, sectors]
  · refine entry_congr fun q below _ => high q ?_
    simp only [entrySize, sectorSize] at *
    omega

/-- `FindIndex` returns the first entry of that name. -/
theorem findIndexFrom_first (t : Table) (name : Nat → Byte) (n i : Nat)
    (found : t.findIndexFrom name n i = (j : Nat)) :
    ∀ k, i ≤ k → k < j → ∀ s, t.entry k ≠ some (chars name fileNameMaxLen 0, s) := by
  induction n generalizing i with
  | zero =>
      rw [findIndexFrom] at found
      omega
  | succ n ih =>
      intro k low below s there
      unfold findIndexFrom at found
      split at found
      · omega
      · rename_i other
        obtain rfl | low : k = i ∨ i + 1 ≤ k := by omega
        · exact other (found_iff.mpr ⟨s, there⟩)
        · exact ih (i + 1) found k low below s there

/-- `Add` takes the first entry that is not in use. -/
theorem addFrom_first (t : Table) (name : Nat → Byte) (s : Int) (n i : Nat)
    (added : t.addFrom name s n i = some t') :
    ∃ j, t' = t.set j name s ∧ i ≤ j ∧ j < i + n ∧ t.entry j = none ∧
      ∀ k, i ≤ k → k < j → t.entry k ≠ none := by
  induction n generalizing i with
  | zero => cases added
  | succ n ih =>
      unfold addFrom at added
      split at added
      · rename_i used
        obtain ⟨j, same, low, high, free, first⟩ := ih (i + 1) added
        refine ⟨j, same, by omega, by omega, free, fun k low below => ?_⟩
        by_cases here : k = i
        · rw [here, entry_of_inUse used]
          exact Option.some_ne_none _
        · exact first k (by omega) below
      · rename_i free
        exact ⟨i, (Option.some.inj added).symm,
          Nat.le_refl i, by omega, entry_of_not_inUse (by simpa using free),
          fun k low below => by omega⟩

/-- The table of the directory file, byte for byte. -/
theorem fetchFrom_bytes {d : Disk} {file : FileHeader} {sectors : List Nat}
    (describes : Describes file directoryFileSize sectors) (fetched : t.fetchFrom d file = .ok t') :
    ∀ q < directoryFileSize, t' q = contents d sectors q := by
  have read := describes.readAt (d := d) (p := 0) (n := directoryFileSize) (by decide)
    (by decide) (by decide)
  rw [Nat.sub_zero, Nat.min_self] at read
  have same : t.fetchFrom d file = .ok
      (splice t 0 (block (contents d sectors) 0 directoryFileSize)) :=
    bind_of_ok read
  rw [fetched, Except.ok.injEq] at same
  intro q small
  rw [same, splice_block_at _ _ (Nat.zero_le q) (by omega), Nat.zero_add, Nat.sub_zero]

end Bytes

end Table

/-! ## What a disk lists -/

/-- The directory on the disk has the entries of the layout, with a header behind each. -/
structure Lists (fs : FileSystem) (d : Disk) (l : Layout) : Prop where
  dirFile : Describes fs.directoryFile directoryFileSize [3, 4]
  entries : ∀ i < numDirEntries,
    Table.entry (contents d [3, 4]) i = (l i).map fun f => (f.name, (f.header : Int))
  headers : ∀ i < numDirEntries, ∀ f, l i = some f →
    f.header < numSectors ∧ Describes (words (d f.header)) f.length f.sectors

theorem Represents.lists {fs : FileSystem} {d : Disk} {l : Layout} (rep : Represents fs d l) :
    Lists fs d l :=
  ⟨rep.dirFile, rep.entries, fun i inside f there =>
    ⟨rep.bound f.header (rep.header_used inside there), rep.headers i inside f there⟩⟩

section Lists

variable {fs : FileSystem} {d : Disk} {l : Layout} {name : Nat → Byte}

/-- The first file of a name. -/
structure First (l : Layout) (name : List Byte) (i : Nat) (f : File) : Prop where
  inside : i < numDirEntries
  there : l i = some f
  named : f.name = name
  first : ∀ j < i, ∀ g, l j = some g → g.name ≠ name

/-- No file has the name. -/
def Unnamed (l : Layout) (name : List Byte) : Prop := ∀ j < numDirEntries, ∀ g, l j = some g →
    g.name ≠ name

/-- `Open` finds the first file of that name. -/
theorem Lists.open (lists : Lists fs d l) (name : Nat → Byte) (fresh : Nat → Nat → Byte) :
    (fs.open d name fresh = .ok none ∧ Unnamed l (chars name fileNameMaxLen 0)) ∨
      ∃ i f, First l (chars name fileNameMaxLen 0) i f ∧
        fs.open d name fresh = .ok (some (words (d f.header))) := by
  obtain ⟨t, fetched, same⟩ := Table.fetchFrom_spec (d := d) lists.dirFile (Table.create (fresh 0))
  have entries : ∀ i < numDirEntries, t.entry i = (l i).map fun f => (f.name, (f.header : Int)) :=
    fun i inside => (same i inside).trans (lists.entries i inside)
  unfold FileSystem.open
  rw [fetched, ok_bind]
  obtain ⟨absent, -, unnamed⟩ | ⟨i, f, inside, there, named, found, index⟩ :=
    Layout.find_cases entries name
  · rw [absent]
    exact .inl ⟨rfl, unnamed⟩
  · have bound := (lists.headers i inside f there).1
    refine .inr ⟨i, f, ⟨inside, there, named, fun j below g here other => ?_⟩, ?_⟩
    · refine t.findIndexFrom_first name numDirEntries 0 index j (Nat.zero_le j) below g.header ?_
      rw [entries j (by omega), here, Option.map_some, other]
    · rw [found]
      simp only
      rw [if_pos (by omega), FileHeader.fetchFrom, readSector_ok bound]
      rfl

/-- What is read back is the first file of the name. -/
theorem Lists.readBack {v : Volume} (lists : Lists v.fs v.disk l) (name : Nat → Byte)
    (fresh : Nat → Nat → Byte) :
    (Disk.readBack v name fresh = .ok none ∧ Unnamed l (chars name fileNameMaxLen 0)) ∨
      ∃ i f, First l (chars name fileNameMaxLen 0) i f ∧
        Disk.readBack v name fresh = .ok (some (fileBytes v.disk f)) := by
  unfold Disk.readBack
  obtain ⟨done, unnamed⟩ | ⟨i, f, first, done⟩ := lists.open name fresh
  · rw [done]
    exact .inl ⟨rfl, unnamed⟩
  · refine .inr ⟨i, f, first, ?_⟩
    have describes := (lists.headers i first.inside f first.there).2
    have length := describes.length
    have small := describes.bytes_le
    have range : InRange (words (v.disk f.header))
        (FileHeader.fileLength (words (v.disk f.header))) 0 := by
      simp only [InRange, FileHeader.fileLength, maxInt]
      omega
    have whole : transferred f.length (FileHeader.fileLength (words (v.disk f.header))) 0 =
        f.length := by
      simp only [transferred, FileHeader.fileLength]
      omega
    rw [done, ok_bind]
    simp only
    rw [describes.read range, whole]
    rfl

/-- A restart reads the two headers again. -/
theorem Lists.mounted (lists : Lists fs d l)
    (mapHeader : Describes (words (d freeMapSector)) freeMapFileSize [2])
    (dirHeader : Describes (words (d directorySector)) directoryFileSize [3, 4]) :
    ∃ v, Disk.mounted d = .ok v ∧ v.disk = d ∧ Describes v.fs.freeMapFile freeMapFileSize [2] ∧
      Lists v.fs v.disk l :=
  ⟨_, mounted_eq d, rfl, mapHeader, dirHeader, lists.entries, lists.headers⟩

end Lists

end Nachos.Disk
