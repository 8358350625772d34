/-
# Nachos.FileSys.Recovery -- the metadata after a call that was cut short

`Consistent` on the disks in the middle of a call: `crash_consistent` says after which writes of
`Create` and of `Remove` it fails, and why it does then.  In `Create` the directory lists the new
file before the free map has its sectors, so that after a restart the next `Create` takes the
same header sector, and two names have one header (`crash_shares_header`).

`WriteAt` writes the sectors of a request in their order and no metadata: `write_crash` says that
the file has a first part of the new bytes, up to the end of a sector, and the old bytes from
there.
-/
import Nachos.FileSys.Crash

namespace Nachos.Disk

open Nachos.Lib.Bytes
open Nachos.Lib.Run
open Nachos.Lib.Writes
open Nachos.UserProg (BitMap)

set_option autoImplicit false

/-! ## Consistency -/

section Consistency

variable {fs : FileSystem} {d d' : Disk} {l : Layout} {name : Nat → Byte} {ws : List SectorWrite}
  {size : Int} {i k : Nat} {f : File}

/-- The layout of a disk with the same free map and the same headers of the system files. -/
theorem Represents.of_lists (rep : Represents fs d l) (lists : Lists fs d' l)
    (same : ∀ s < 3, d' s = d s) :
    Represents fs d' l where
  mapFile := rep.mapFile
  dirFile := rep.dirFile
  mapHeader := by
    rw [same freeMapSector (by decide)]
    exact rep.mapHeader
  dirHeader := by
    rw [same directorySector (by decide)]
    exact rep.dirHeader
  entries := lists.entries
  headers i inside f there := (lists.headers i inside f there).2
  marks j inside := by
    rw [← rep.marks j inside]
    exact bitOf_contents inside (same 2 (by decide))
  distinct := rep.distinct
  bound := rep.bound
  names := rep.names

/-- A file that is listed while the free map has its header as free. -/
theorem Lists.inconsistent (lists : Lists fs d l)
    (mapHeader : Describes (words (d freeMapSector)) freeMapFileSize [2])
    (dirHeader : Describes (words (d directorySector)) directoryFileSize [3, 4])
    (inside : i < numDirEntries)
    (there : l i = some f) (free : bitOf (contents d [2]) f.header = false) : ¬ Consistent d := by
  intro consistent
  have bound := (lists.headers i inside f there).1
  have entry := lists.entries i inside
  rw [← dirHeader.bytesOn, there, Option.map_some] at entry
  have listed : (f.header : Int) ∈ listedOn d :=
    List.mem_filterMap.mpr ⟨i, List.mem_range.mpr inside, by rw [directoryOn, entry]; rfl⟩
  have used : (f.header : Int) ∈ usedOn d :=
    List.mem_flatMap.mpr
      ⟨f.header, List.mem_cons_of_mem _ (List.mem_cons_of_mem _ listed), List.mem_cons_self⟩
  have marked := (consistent.marked f.header bound).mpr used
  rw [freeMapOn, mapHeader.bytesOn, free] at marked
  cases marked

/-- A sector that no file has is free. -/
theorem Represents.free (rep : Represents fs d l) {s : Nat} (bound : s < numSectors)
    (unused : s ∉ l.used) :
    bitOf (contents d [2]) s = false := by
  rw [rep.marks s bound, decide_eq_false unused]

theorem Creating.map_there (creating : Creating fs d l name size ws i f) (early : k < 4) :
    putAll d (ws.take k) 2 = d 2 := by
  have once := creating.once
  have high := creating.header_high
  obtain ⟨header, dir, map, rfl, -⟩ := creating.writes
  rw [putAll_take_at once (j := 3) rfl k, if_neg (by omega)]

/-- **The metadata in the middle of `Create`.** -/
theorem Creating.consistent_iff (rep : Represents fs d l)
    (creating : Creating fs d l name size ws i f) (k : Nat) :
    Consistent (putAll d (ws.take k)) ↔ k ≤ 1 ∨ k = 2 ∧ 6 < i ∨ 3 < k := by
  have there : Function.update l i (some f) i = some f := Function.update_self ..
  have bound := creating.final.bound _ (creating.final.header_used creating.added.inside there)
  have lists := creating.lists rep k
  obtain ⟨zero, one⟩ := creating.system k
  by_cases late : 3 < k
  · have all : ws.take k = ws := by
      obtain ⟨header, dir, map, rfl, -⟩ := creating.writes
      exact List.take_of_length_le (by simp [directoryWrites]; omega)
    rw [all]
    exact ⟨fun _ => .inr (.inr late), fun _ => creating.final.consistent⟩
  have two := creating.map_there (k := k) (by omega)
  by_cases early : k ≤ 1 ∨ k = 2 ∧ 6 < i
  · have none_ : Function.update l i (createdEntry i f (Table.key (contents d [3, 4]) i) k) =
        l := by
      rw [createdEntry, if_pos early, ← creating.added.empty, Function.update_eq_self]
    rw [none_] at lists
    have same : ∀ s < 3, putAll d (ws.take k) s = d s := by
      intro s small
      obtain rfl | rfl | rfl : s = 0 ∨ s = 1 ∨ s = 2 := by omega
      · exact zero
      · exact one
      · exact two
    exact ⟨fun _ => early.imp id Or.inl, fun _ => (rep.of_lists lists same).consistent⟩
  · obtain ⟨g, entry, header⟩ : ∃ g, createdEntry i f (Table.key (contents d [3, 4]) i) k = some g ∧
        g.header = f.header := by
      rw [createdEntry, if_neg early]
      split
      · exact ⟨_, rfl, rfl⟩
      · exact ⟨f, rfl, rfl⟩
    have free : bitOf (contents (putAll d (ws.take k)) [2]) g.header = false := by
      rw [header, bitOf_contents bound two]
      exact rep.free bound (creating.added.unused f.header List.mem_cons_self)
    refine ⟨fun consistent => absurd consistent ?_, fun range => ?_⟩
    · refine lists.inconsistent (zero ▸ rep.mapHeader)
        (one ▸ rep.dirHeader) creating.added.inside ?_ free
      rw [Function.update_self, entry]
    · omega

theorem Removing.map_take (removing : Removing fs d l name ws i f) (begun : 0 < k) :
    putAll d (ws.take k) 2 = putAll d ws 2 := by
  obtain ⟨map, dir, rfl, -⟩ := removing.writes
  have once : (((2, map) :: directoryWrites dir).map Prod.fst).Nodup := by simp [directoryWrites]
  have full := putAll_take_at (m := d) once (j := 0) rfl ((2, map) :: directoryWrites dir).length
  rw [List.take_length, if_pos (by simp)] at full
  rw [putAll_take_at once (j := 0) rfl k, if_pos begun]
  exact full.symm

theorem Removing.all (removing : Removing fs d l name ws i f) (late : 2 < k) : ws.take k = ws := by
  obtain ⟨map, dir, rfl, -⟩ := removing.writes
  exact List.take_of_length_le (by simp [directoryWrites]; omega)

/-- **The metadata in the middle of `Remove`.** -/
theorem Removing.consistent_iff (rep : Represents fs d l)
    (removing : Removing fs d l name ws i f) (k : Nat) :
    Consistent (putAll d (ws.take k)) ↔ k = 0 ∨ k = 2 ∧ i ≤ 6 ∨ 2 < k := by
  by_cases late : 2 < k
  · rw [removing.all late]
    exact ⟨fun _ => .inr (.inr late), fun _ => removing.final.consistent⟩
  by_cases none_ : k = 0
  · rw [none_]
    exact ⟨fun _ => .inl rfl, fun _ => rep.consistent⟩
  have begun : 0 < k := Nat.pos_of_ne_zero none_
  have lists := removing.lists rep k
  have zero : putAll d (ws.take k) freeMapSector = d freeMapSector := removing.kept k (by decide)
  have one : putAll d (ws.take k) directorySector = d directorySector := removing.kept k (by decide)
  have two := removing.map_take begun
  by_cases gone : k = 2 ∧ i ≤ 6
  · rw [removedEntry, if_neg (by omega)] at lists
    have same : ∀ s < 3, putAll d (ws.take k) s = putAll d ws s := by
      have all := removing.all (k := 3) (by decide)
      intro s small
      obtain rfl | rfl | rfl : s = 0 ∨ s = 1 ∨ s = 2 := by omega
      · exact zero.trans (by rw [← all]; exact (removing.kept 3 (by decide)).symm)
      · exact one.trans (by rw [← all]; exact (removing.kept 3 (by decide)).symm)
      · exact two
    exact ⟨fun _ => .inr (.inl gone), fun _ => (removing.final.of_lists lists same).consistent⟩
  · rw [removedEntry, if_pos (by omega)] at lists
    have bound := rep.bound _ (rep.header_used removing.inside removing.there)
    have unused : f.header ∉ Layout.used (Function.update l i none) := by
      have nodup := (Layout.used_remove removing.inside removing.there).nodup_iff.mp rep.distinct
      rw [List.nodup_append] at nodup
      exact fun used => nodup.2.2 f.header List.mem_cons_self f.header used rfl
    have free : bitOf (contents (putAll d (ws.take k)) [2]) f.header = false := by
      rw [bitOf_contents bound two]
      exact removing.final.free bound unused
    refine ⟨fun consistent => absurd consistent ?_, fun range => ?_⟩
    · exact lists.inconsistent (zero ▸ rep.mapHeader) (one ▸ rep.dirHeader) removing.inside
        (Function.update_self ..) free
    · omega

end Consistency

/-- **When the metadata is consistent in the middle of a call.**  `Create` breaks it from the
write that lists the file to the write of the map, `Remove` from the write of the map to the one
that takes the file out of the directory. -/
theorem crash_consistency (d : Disk) (fresh : Nat → Nat → Byte) : ∃ v, formatted d fresh = .ok v ∧
    ∀ calls w, AllSteps Volume.step Unmarked v calls → exec Volume.step v calls = some w →
      (∀ name (size : Word) fresh ws, w.fs.createLog w.disk name size.toInt fresh = .ok (true, ws) →
        ∃ i, FirstFree (directoryOn w.disk) i ∧
          ∀ k, Consistent (putAll w.disk (ws.take k)) ↔ k ≤ 1 ∨ k = 2 ∧ 6 < i ∨ 3 < k) ∧
      ∀ name fresh ws, w.fs.removeLog w.disk name fresh = .ok (true, ws) →
        ∃ i : Nat, (directoryOn w.disk).findIndex name = i ∧
          ∀ k, Consistent (putAll w.disk (ws.take k)) ↔ k = 0 ∨ k = 2 ∧ i ≤ 6 ∨ 2 < k := by
  obtain ⟨v, done, runs⟩ := formatted_runs d fresh
  refine ⟨v, done, fun calls w unmarked run => ?_⟩
  obtain ⟨l, sound, -⟩ := runs calls w unmarked run
  have rep := sound.represents
  refine ⟨fun name size fresh ws log => ?_, fun name fresh ws log => ?_⟩
  · obtain ⟨low, high⟩ := word_bounds size
    obtain ⟨i, f, creating⟩ := rep.creating low high log
    exact ⟨i, creating.firstFree rep, creating.consistent_iff rep⟩
  · obtain ⟨i, f, removing⟩ := rep.removing log
    exact ⟨i, removing.index rep, removing.consistent_iff rep⟩

/-- The first file of a formatted disk. -/
theorem crash_consistency_first : ∃ v w ws vs, formatted (fun _ _ => 0) (fun _ _ => 0) = .ok v ∧
    v.fs.createLog v.disk (letter 97) (128 : Word).toInt (fun _ _ => 0) = .ok (true, ws) ∧
    (∃ i, FirstFree (directoryOn v.disk) i ∧
      ∀ k, Consistent (putAll v.disk (ws.take k)) ↔ k ≤ 1 ∨ k = 2 ∧ 6 < i ∨ 3 < k) ∧
    v.step (.create (letter 97) 128 fun _ _ => 0) = some w ∧
    w.fs.removeLog w.disk (letter 97) (fun _ _ => 0) = .ok (true, vs) ∧
    ∃ i : Nat, (directoryOn w.disk).findIndex (letter 97) = i ∧
      ∀ k, Consistent (putAll w.disk (vs.take k)) ↔ k = 0 ∨ k = 2 ∧ i ≤ 6 ∨ 2 < k := by
  obtain ⟨v, done, all⟩ := crash_consistency (fun _ _ => 0) fun _ _ => 0
  obtain ⟨v', done', sound, -, -⟩ := formatted_sound (fun _ _ => 0) (fun _ _ => 0)
  obtain rfl : v = v' := Except.ok.inj (done.symm.trans done')
  obtain ⟨d₁, hdr, created, -, -⟩ := sound.first_created
  obtain ⟨ws, log, -⟩ := createLog_of_create created
  obtain ⟨w, vs, moved, log'⟩ := sound.first_removed
  have run : exec Volume.step v [.create (letter 97) 128 fun _ _ => 0] = some w := by
    rw [exec_cons, moved]
    rfl
  exact ⟨v, w, ws, vs, done, log, (all [] v trivial rfl).1 (letter 97) 128 (fun _ _ => 0) ws log,
    moved, log',
    (all [.create (letter 97) 128 fun _ _ => 0] w ⟨trivial, fun _ _ => trivial⟩ run).2 (letter 97)
      (fun _ _ => 0) vs log'⟩

/-! ## `Create` after a restart -/

section Shared

variable {fs : FileSystem} {d d' : Disk} {l : Layout} {name other : Nat → Byte}
  {ws : List SectorWrite} {size : Int} {fresh : Nat → Nat → Byte} {i k s : Nat} {f : File}

/-- `Find` of a name whose first entry is known. -/
theorem Table.find_first {t : Table} (inside : i < numDirEntries)
    (entry : t.entry i = some (chars name fileNameMaxLen 0, (s : Int)))
    (first : ∀ j < i, ∀ r, t.entry j ≠ some (chars name fileNameMaxLen 0, r)) :
    t.find name = s := by
  obtain ⟨-, absent⟩ | ⟨j, inside', index, found⟩ := Table.find_cases t name
  · exact absurd entry (absent i inside s)
  · have here : j = i := by
      by_contra differ
      obtain below | above : j < i ∨ i < j := by omega
      · exact first j below _ found
      · exact Table.findIndexFrom_first t name numDirEntries 0 index i (Nat.zero_le i) above s entry
    rw [here, entry, Option.some.injEq, Prod.mk.injEq] at found
    exact found.2.symm

/-- `Open` of a name whose first entry is known. -/
theorem open_at (dirFile : Describes fs.directoryFile directoryFileSize [3, 4])
    (inside : i < numDirEntries)
    (entry : Table.entry (contents d [3, 4]) i = some (chars name fileNameMaxLen 0, (s : Int)))
    (bound : s < numSectors)
    (first : ∀ j < i, ∀ r, Table.entry (contents d [3, 4]) j ≠
      some (chars name fileNameMaxLen 0, r)) :
    fs.open d name fresh = .ok (some (words (d s))) := by
  obtain ⟨t, fetched, same⟩ := Table.fetchFrom_spec (d := d) dirFile (Table.create (fresh 0))
  have found : t.find name = s := by
    refine Table.find_first inside ((same i inside).trans entry) fun j below r => ?_
    rw [same j (Nat.lt_trans below inside)]
    exact first j below r
  unfold FileSystem.open
  rw [fetched, ok_bind, found]
  simp only
  rw [if_pos (by omega), FileHeader.fetchFrom, readSector_ok bound]
  rfl

/-- The sector that `Find` takes for the header is the lowest that is clear. -/
theorem find_lowest {b b' : BitMap} (bits : b.numBits = numSectors)
    (found : b.find = .ok ((s : Int), b'))
    {g : Nat} (inside : g < numSectors) (clear : b.isSet g = false)
    (least : ∀ j < g, b.isSet j = true) : s = g := by
  obtain ⟨s', b'', found', taken⟩ := find_taken bits inside clear
  rw [found', Except.ok.injEq, Prod.mk.injEq] at found
  obtain rfl : s' = s := Int.ofNat_inj.mp found.1
  have free := taken.free s' (List.mem_singleton_self s')
  by_contra differ
  obtain below | above : s' < g ∨ g < s' := by omega
  · rw [least s' below] at free
    cases free
  · have marked := taken.lowest s' (List.mem_singleton_self s') g above
    rw [taken.sets, clear] at marked
    simp at marked
    exact differ marked.symm

/-- A header that was allocated has the length that was asked for. -/
theorem allocate_length {h h' : FileHeader} {b b' : BitMap} (bits : b.numBits = numSectors)
    (allocated : h.allocate b size = .ok (some (h', b'))) (low : -maxInt - 1 ≤ size)
    (high : size ≤ maxInt) :
    h'.fileLength = size := by
  by_cases large : maxFileSize < size
  · obtain ⟨none_, -⟩ | ⟨-, e, stops⟩ := allocate_large (b := b) h large high
    · rw [none_] at allocated
      cases allocated
    · rw [stops] at allocated
      cases allocated
  · obtain ⟨none_, -⟩ | ⟨h'', b'', sectors, done, whole, -⟩ :=
      allocate_spec h size bits low (Int.not_lt.mp large)
    · rw [none_] at allocated
      cases allocated
    · rw [done, Except.ok.injEq, Option.some.injEq, Prod.mk.injEq] at allocated
      rw [← allocated.1, whole]

/-- Where the new file is found if its name is found at all. -/
theorem Creating.found (creating : Creating fs d l name size ws i f)
    {fs' : FileSystem} (lists : Lists fs' (putAll d (ws.take k))
      (Function.update l i (createdEntry i f (Table.key (contents d [3, 4]) i) k)))
    {hdr : FileHeader} (opened : fs'.open (putAll d (ws.take k)) name fresh = .ok (some hdr)) :
    Table.entry (contents (putAll d (ws.take k)) [3, 4]) i =
      some (chars name fileNameMaxLen 0, (f.header : Int)) ∧
      ∀ j < numDirEntries, j ≠ i → ∀ r,
        Table.entry (contents (putAll d (ws.take k)) [3, 4]) j ≠
          some (chars name fileNameMaxLen 0, r) := by
  have others : ∀ j < numDirEntries, j ≠ i → ∀ r,
      Table.entry (contents (putAll d (ws.take k)) [3, 4]) j ≠
        some (chars name fileNameMaxLen 0, r) := by
    intro j inside other r entry
    rw [lists.entries j inside, Function.update_of_ne other] at entry
    obtain ⟨g, there, same⟩ := Option.map_eq_some_iff.mp entry
    rw [Prod.mk.injEq] at same
    exact creating.added.unnamed j inside g there (same.1.trans creating.named.symm)
  refine ⟨?_, others⟩
  obtain ⟨missing, -⟩ | ⟨j, g, first, -⟩ := lists.open name fresh
  · rw [missing] at opened
    cases opened
  · have entry := lists.entries j first.inside
    rw [first.there, Option.map_some, first.named] at entry
    have here : j = i := by
      by_contra other
      exact others j first.inside other _ entry
    have there := first.there
    rw [here, Function.update_self, createdEntry] at there
    rw [here] at entry
    split_ifs at there <;> cases there <;> exact entry

/-- **The next `Create` takes the same header sector**, and the two names have one header. -/
theorem Creating.shared (rep : Represents fs d l) (creating : Creating fs d l name size ws i f)
    (early : k < 4) {fs' : FileSystem} (lists : Lists fs' (putAll d (ws.take k))
      (Function.update l i (createdEntry i f (Table.key (contents d [3, 4]) i) k)))
    (mapFile : Describes fs'.freeMapFile freeMapFileSize [2])
    {hdr₀ : FileHeader} {fresh₀ : Nat → Nat → Byte}
    (opened : fs'.open (putAll d (ws.take k)) name fresh₀ = .ok (some hdr₀))
    (differ : chars other fileNameMaxLen 0 ≠ chars name fileNameMaxLen 0) {size' : Int}
    (low : -maxInt - 1 ≤ size') (high : size' ≤ maxInt)
    (created : fs'.create (putAll d (ws.take k)) other size' fresh = .ok (true, d')) :
    ∃ (s : Nat) (hdr : FileHeader), (directoryOn d').find name = s ∧
      (directoryOn d').find other = s ∧
      (∀ fresh, fs'.open d' name fresh = .ok (some hdr)) ∧
      (∀ fresh, fs'.open d' other fresh = .ok (some hdr)) ∧ hdr.fileLength = size' := by
  obtain ⟨entry, others⟩ := creating.found lists opened
  have two := creating.map_there early
  have one := (creating.system k).2
  have large := creating.header_high
  have inside : f.header < numSectors :=
    creating.final.bound _
      (creating.final.header_used creating.added.inside (Function.update_self ..))
  generalize putAll d (ws.take k) = e at *
  obtain ⟨ws', log, rfl⟩ := createLog_of_create created
  obtain ⟨t, b, b₁, b₂, g₀, hdr, j, s, dir, map, bytes, unnamed, bits, sets, found, bound, free,
      allocated, rfl, dirBytes⟩ :=
    createLog_ok mapFile lists.dirFile log
  -- the map on the disk has the header of the first file as free, and nothing below it
  obtain rfl : s = f.header := by
    refine find_lowest bits found inside ?_ fun m below => ?_
    · rw [sets f.header inside, bitOf_contents inside two]
      exact rep.free inside (creating.added.unused f.header List.mem_cons_self)
    · have small : m < numSectors := Nat.lt_trans below inside
      rw [sets m small, bitOf_contents small two, rep.marks m small, decide_eq_true_eq]
      refine (creating.added.lowest f.header List.mem_cons_self m below).resolve_left fun mine => ?_
      obtain rfl | data := List.mem_cons.mp mine
      · omega
      · have := (List.pairwise_cons.mp creating.added.sorted).1 m data
        omega
  have entries : ∀ m < numDirEntries, t.entry m = Table.entry (contents e [3, 4]) m :=
    fun m small =>
    (directoryFileSize_entries bytes m small).1
  have new : words
      (putAll e ((f.header, bytesOfWords hdr) :: directoryWrites dir ++ [(2, map)]) f.header) =
      hdr := by
    have once : (((f.header, bytesOfWords hdr) :: directoryWrites dir ++ [(2, map)]).map
        Prod.fst).Nodup := by
      simp [directoryWrites]
      omega
    have there : putAll e ((f.header, bytesOfWords hdr) :: directoryWrites dir ++ [(2, map)])
        f.header =
        bytesOfWords hdr := putAll_take_at once (j := 0) rfl 4
    rw [there]
    exact funext (words_bytesOfWords hdr)
  have header : Describes
      (words (putAll e ((f.header, bytesOfWords hdr) :: directoryWrites dir ++ [(2, map)])
      directorySector)) directoryFileSize [3, 4] := by
    have kept : putAll e ((f.header, bytesOfWords hdr) :: directoryWrites dir ++ [(2, map)])
        directorySector =
        d directorySector := by
      rw [← one]
      refine putAll_other fun w member => ?_
      simp only [directoryWrites, List.cons_append, List.nil_append, List.mem_cons,
        List.not_mem_nil, or_false] at member
      simp only [directorySector]
      rcases member with rfl | rfl | rfl | rfl <;> simp only <;> omega
    rw [kept]
    exact rep.dirHeader
  have written : ∀ m < numDirEntries,
      Table.entry (contents
        (putAll e ((f.header, bytesOfWords hdr) :: directoryWrites dir ++ [(2, map)])) [3, 4]) m =
        (t.set j other f.header).entry m := fun m small =>
    (directoryFileSize_entries
      (fun q small => (contents_written _ dir map q small).trans (dirBytes q small)) m small).1
  generalize putAll e ((f.header, bytesOfWords hdr) :: directoryWrites dir ++ [(2, map)]) = d' at *
  have range : -2 ^ 31 ≤ (f.header : Int) ∧ (f.header : Int) < 2 ^ 31 := creating.range
  have apart : i ≠ j := by
    rintro rfl
    have empty := free.free
    rw [entries i free.inside, entry] at empty
    cases empty
  have named : Table.entry (contents d' [3, 4]) i =
      some (chars name fileNameMaxLen 0, (f.header : Int)) := by
    rw [written i creating.added.inside, Table.entry_set_other apart,
      entries i creating.added.inside, entry]
  have firstNamed : ∀ m < i, ∀ r, Table.entry (contents d' [3, 4]) m ≠
      some (chars name fileNameMaxLen 0, r) := by
    intro m below r
    have small : m < numDirEntries := Nat.lt_trans below creating.added.inside
    rw [written m small]
    by_cases here : m = j
    · rw [here, Table.entry_set_self range]
      intro same
      exact differ (Prod.mk.inj (Option.some.inj same)).1
    · rw [Table.entry_set_other here, entries m small]
      exact others m small (Nat.ne_of_lt below) r
  have namedOther : Table.entry (contents d' [3, 4]) j =
      some (chars other fileNameMaxLen 0, (f.header : Int)) := by
    rw [written j free.inside, Table.entry_set_self range]
  have firstOther : ∀ m < j, ∀ r, Table.entry (contents d' [3, 4]) m ≠
      some (chars other fileNameMaxLen 0, r) := by
    intro m below r
    rw [written m (Nat.lt_trans below free.inside), Table.entry_set_other (Nat.ne_of_lt below)]
    exact unnamed m (Nat.lt_trans below free.inside) r
  refine ⟨f.header, hdr, ?_, ?_, fun fresh => ?_, fun fresh => ?_, ?_⟩
  · rw [Disk.directoryOn, header.bytesOn]
    exact Table.find_first creating.added.inside named firstNamed
  · rw [Disk.directoryOn, header.bytesOn]
    exact Table.find_first free.inside namedOther firstOther
  · rw [← new]
    exact open_at lists.dirFile creating.added.inside named inside firstNamed
  · rw [← new]
    exact open_at lists.dirFile free.inside namedOther inside firstOther
  · exact allocate_length ((findFrom_bits found).trans bits) allocated low high

/-- `Create` succeeds on every disk that has a place for the file, whatever else is on it. -/
theorem create_ok (mapFile : Describes fs.freeMapFile freeMapFileSize [2])
    (dirFile : Describes fs.directoryFile directoryFileSize [3, 4]) (name : Nat → Byte)
    (fresh : Nat → Nat → Byte)
    (unnamed : ∀ j < numDirEntries, ∀ r,
      Table.entry (contents d [3, 4]) j ≠ some (chars name fileNameMaxLen 0, r))
    (entry : ∃ j < numDirEntries, Table.entry (contents d [3, 4]) j = none) (free : List Nat)
    (distinct : free.Nodup)
    (clear : ∀ s ∈ free, s < numSectors ∧ bitOf (contents d [2]) s = false)
    (low : -maxInt - 1 ≤ size)
    (high : size ≤ maxFileSize) (room : (size.toNat + 127) / 128 < free.length) :
    ∃ d', fs.create d name size fresh = .ok (true, d') := by
  obtain ⟨t, fetched, same⟩ := Table.fetchFrom_spec (d := d) dirFile (Table.create (fresh 0))
  obtain ⟨b₀, made, bits₀, -⟩ := BitMap.create_spec numSectors (words (fresh 1))
  obtain ⟨b, fetchedMap, bits, sets⟩ := fetchMap_spec (d := d) mapFile bits₀
  have absent : t.findIndex name = -1 := by
    obtain ⟨none_, -⟩ | ⟨j, r, -, inside, there⟩ := Table.findIndex_cases t name
    · exact none_
    · exact absurd ((same j inside).symm.trans there) (unnamed j inside r)
  have notFound : t.find name = -1 := by
    rw [Table.find, absent]
    rfl
  have unset : ∀ s ∈ free, s < numSectors ∧ b.isSet s = false := fun s member =>
    ⟨(clear s member).1, (sets s (clear s member).1).trans (clear s member).2⟩
  obtain ⟨g, member⟩ := List.exists_mem_of_length_pos (l := free) (by omega)
  obtain ⟨s, b₁, found, takenHeader⟩ := find_taken bits (unset g member).1 (unset g member).2
  have bound := takenHeader.bound s (List.mem_singleton_self s)
  have enough := free_le_clear takenHeader.bits distinct unset takenHeader
  obtain ⟨-, few⟩ | ⟨hdr, b₂, sectors, allocated, -, -, takenData⟩ :=
    allocate_spec (b := b₁) (words (fresh 2)) size takenHeader.bits low high
  · omega
  obtain ⟨j, there, empty⟩ := entry
  obtain ⟨-, full⟩ | ⟨i, added, -⟩ := Table.addFrom_cases t name s numDirEntries 0
  · exact absurd ((same j there).trans empty) (full j (Nat.zero_le j) (by omega))
  obtain ⟨d₂, wroteDir, -⟩ := Table.writeBack_spec (fresh 3)
    (d := Function.update d s (bytesOfWords hdr)) dirFile
    (by decide) (t.set i name s)
  obtain ⟨d₃, wroteMap, -⟩ := writeMap_spec (d := d₂) (fresh 4) mapFile takenData.bits
  have wroteHeader : hdr.writeBack d (s : Int) = .ok (Function.update d s (bytesOfWords hdr)) :=
    writeSector_ok bound
  refine ⟨d₃, ?_⟩
  unfold FileSystem.create
  rw [fetched, ok_bind, notFound, if_neg (by simp), made, ok_bind, fetchedMap, ok_bind,
    found, ok_bind]
  simp only
  rw [if_neg (by omega), Table.add, absent, if_neg (by simp), added]
  simp only
  rw [allocated, ok_bind]
  simp only
  rw [wroteHeader, ok_bind, wroteDir, ok_bind, wroteMap]
  rfl

end Shared

/-- **Two names with one header.**  The first `k` writes of a `Create` leave out that of the free
map, and after a restart the new file is there.  Then the next `Create` takes the same header
sector: both names open the header that it has made. -/
theorem crash_shares_header (d : Disk) (fresh : Nat → Nat → Byte) : ∃ v, formatted d fresh = .ok v ∧
    ∀ calls w, AllSteps Volume.step Unmarked v calls → exec Volume.step v calls = some w →
      ∀ name (size : Word) fresh ws, w.fs.createLog w.disk name size.toInt fresh = .ok (true, ws) →
        ∀ k < 4, ∃ w', mounted (putAll w.disk (ws.take k)) = .ok w' ∧
          ∀ fresh₀ hdr₀, w'.fs.open w'.disk name fresh₀ = .ok (some hdr₀) →
            ∀ other (size' : Word) fresh' d',
              chars other fileNameMaxLen 0 ≠ chars name fileNameMaxLen 0 →
              w'.fs.create w'.disk other size'.toInt fresh' = .ok (true, d') →
              ∃ (s : Nat) (hdr : FileHeader), (directoryOn d').find name = s ∧
                (directoryOn d').find other = s ∧
                (∀ fresh, w'.fs.open d' name fresh = .ok (some hdr)) ∧
                (∀ fresh, w'.fs.open d' other fresh = .ok (some hdr)) ∧
                hdr.fileLength = size'.toInt := by
  obtain ⟨v, done, runs⟩ := formatted_runs d fresh
  refine ⟨v, done, fun calls w unmarked run name size fresh ws log k early => ?_⟩
  obtain ⟨l, sound, -⟩ := runs calls w unmarked run
  have rep := sound.represents
  obtain ⟨low, high⟩ := word_bounds size
  obtain ⟨i, f, creating⟩ := rep.creating low high log
  obtain ⟨w', mounted, disk, mapFile, lists⟩ := creating.mounted rep k
  refine ⟨w', mounted, fun fresh₀ hdr₀ opened other size' fresh' d' differ created => ?_⟩
  obtain ⟨low', high'⟩ := word_bounds size'
  rw [disk] at opened created lists
  exact creating.shared rep early lists mapFile opened differ low' high' created

/-- Files `"a"` of 128 bytes and `"b"` of 10 bytes; the first `Create` stops before the map. -/
theorem crash_shares_header_first : ∃ v ws w' d' s hdr,
    formatted (fun _ _ => 0) (fun _ _ => 0) = .ok v ∧
    v.fs.createLog v.disk (letter 97) (128 : Word).toInt (fun _ _ => 0) = .ok (true, ws) ∧
    mounted (putAll v.disk (ws.take 3)) = .ok w' ∧
    w'.fs.create w'.disk (letter 98) (10 : Word).toInt (fun _ _ => 0) = .ok (true, d') ∧
    (directoryOn d').find (letter 97) = (s : Nat) ∧ (directoryOn d').find (letter 98) = s ∧
    (∀ fresh, w'.fs.open d' (letter 97) fresh = .ok (some hdr)) ∧
    (∀ fresh, w'.fs.open d' (letter 98) fresh = .ok (some hdr)) ∧
      hdr.fileLength = (10 : Word).toInt := by
  obtain ⟨v, done, all⟩ := crash_shares_header (fun _ _ => 0) fun _ _ => 0
  obtain ⟨v', done', sound, -, -⟩ := formatted_sound (fun _ _ => 0) (fun _ _ => 0)
  obtain rfl : v = v' := Except.ok.inj (done.symm.trans done')
  have rep := sound.represents
  obtain ⟨d₁, hdr₁, created, -, -⟩ := sound.first_created
  obtain ⟨ws, log, -⟩ := createLog_of_create created
  obtain ⟨i, f, creating⟩ := rep.creating (by decide) (by decide) log
  obtain ⟨u, remounted, disk, mapFile, lists⟩ := creating.mounted rep 3
  obtain ⟨w', mounted', shares⟩ := all [] v trivial rfl (letter 97) 128
    (fun _ _ => 0) ws log 3 (by decide)
  obtain rfl : u = w' := Except.ok.inj (remounted.symm.trans mounted')
  rw [createdEntry, if_neg (by omega), if_neg (by omega)] at lists
  have two := creating.map_there (k := 3) (by decide)
  have used : Layout.used (fun _ => none) = [0, 1, 2, 3, 4] := rfl
  obtain ⟨hdr₀, opened⟩ : ∃ hdr₀, u.fs.open u.disk (letter 97) (fun _ _ => 0) =
      .ok (some hdr₀) := by
    obtain ⟨-, unnamed⟩ | ⟨j, g, -, opened⟩ := lists.open (letter 97) fun _ _ => 0
    · exact absurd creating.named (unnamed i creating.added.inside f (Function.update_self ..))
    · exact ⟨_, opened⟩
  have entries : ∀ j < numDirEntries, j ≠ i → Table.entry (contents u.disk [3, 4]) j = none :=
    fun j inside other => by
    rw [lists.entries j inside, Function.update_of_ne other, Option.map_none]
  obtain ⟨d', second⟩ : ∃ d', u.fs.create u.disk (letter 98) (10 : Word).toInt (fun _ _ => 0) =
      .ok (true, d') :=
    create_ok mapFile lists.dirFile (letter 98) (fun _ _ => 0) (fun j inside r there => by
      by_cases here : j = i
      · rw [here, lists.entries i creating.added.inside, Function.update_self, Option.map_some,
          creating.named] at there
        exact absurd (Prod.mk.inj (Option.some.inj there)).1 (by decide)
      · rw [entries j inside here] at there
        cases there)
    (by
      by_cases here : i = 0
      · exact ⟨1, by decide, entries 1 (by decide) (by omega)⟩
      · exact ⟨0, by decide, entries 0 (by decide) (Ne.symm here)⟩)
    [5, 6] (by decide) (fun s member => by
      have small : s < numSectors ∧ s ∉ Layout.used (fun _ => none) := by
        rw [used]
        simp only [List.mem_cons, List.not_mem_nil, or_false, numSectors] at member ⊢
        omega
      rw [disk, bitOf_contents small.1 two]
      exact ⟨small.1, rep.free small.1 small.2⟩)
    (by decide) (by decide) (by decide)
  obtain ⟨s, hdr, shared⟩ := shares _ hdr₀ opened (letter 98) 10 (fun _ _ => 0) d'
    (by decide) second
  exact ⟨v, ws, u, d', s, hdr, done, log, mounted', second, shared⟩

/-! ## `WriteAt` -/

section Writing

variable {d : Disk} {h : FileHeader} {bytes : Nat} {sectors : List Nat}
  {source garbage : Nat → Byte} {n p count : Int} {ws : List SectorWrite}

/-- The sectors of a request are different ones. -/
theorem Describes.touched_nodup (describes : Describes h bytes sectors) (distinct : sectors.Nodup)
    (range : InRange h n p) : (touched sectors p.toNat (transferred bytes n p)).Nodup := by
  obtain ⟨-, none_⟩ | ⟨n', p', rfl, rfl, inside, some_, -⟩ := describes.request range
  · rw [none_]
    exact List.nodup_nil
  · generalize written : transferred bytes n' p' = m
    have written : min n' (bytes - p') = m := written
    have room := (describes.lastSector (p := p') (n := m) (by omega) (by omega)).2.2
    rw [Int.toNat_natCast, touched, if_neg (by omega), List.nodup_map_iff_inj_on List.nodup_range]
    intro a first b second same
    rw [List.mem_range] at first second
    have left : p' / 128 + a < sectors.length := by omega
    have right : p' / 128 + b < sectors.length := by omega
    rw [List.getD_eq_getElem?_getD, List.getD_eq_getElem?_getD, List.getElem?_eq_getElem left,
      List.getElem?_eq_getElem right, Option.getD_some, Option.getD_some] at same
    have index := (List.getElem_inj distinct).mp same
    omega

/-- The sectors of a request, by their places. -/
theorem Describes.touched_place (describes : Describes h bytes sectors)
    (range : InRange h n p) {j s : Nat}
    (there : (touched sectors p.toNat (transferred bytes n p))[j]? = some s) :
    sectors[p.toNat / 128 + j]? = some s := by
  obtain ⟨-, none_⟩ | ⟨n', p', rfl, rfl, inside, some_, -⟩ := describes.request range
  · rw [none_] at there
    cases there
  · generalize written : transferred bytes n' p' = m at there
    have written : min n' (bytes - p') = m := written
    have room := (describes.lastSector (p := p') (n := m) (by omega) (by omega)).2.2
    rw [Int.toNat_natCast, touched, if_neg (by omega), List.getElem?_map] at there
    obtain ⟨j', found, rfl⟩ := Option.map_eq_some_iff.mp there
    obtain ⟨small, same⟩ := List.getElem?_eq_some_iff.mp found
    rw [List.length_range] at small
    rw [List.getElem_range] at same
    have index : p' / 128 + j < sectors.length := by omega
    rw [Int.toNat_natCast, ← same, List.getD_eq_getElem?_getD, List.getElem?_eq_getElem index,
      Option.getD_some]

/-- **A `WriteAt` that is cut short**: the bytes are new up to the sector that was not written any
more. -/
theorem Describes.contents_take (describes : Describes h bytes sectors) (distinct : sectors.Nodup)
    (range : InRange h n p) (log : Disk.writeAtLog d h source n p garbage = .ok (count, ws))
    (k : Nat) :
    (∀ q < bytes, contents (putAll d (ws.take k)) sectors q =
      if q < (p.toNat / sectorSize + k) * sectorSize then contents (putAll d ws) sectors q
        else contents d sectors q) ∧
      ∀ s, s ∉ sectors → putAll d (ws.take k) s = d s := by
  obtain ⟨vs, log', places⟩ := describes.writeAtLog (d := d) source garbage range
  rw [log, Except.ok.injEq, Prod.mk.injEq] at log'
  obtain rfl : ws = vs := log'.2
  have once : (ws.map Prod.fst).Nodup := places ▸ describes.touched_nodup distinct range
  have size := describes.size
  refine ⟨fun q inside => ?_, fun s other => putAll_take_other k fun w member same => other ?_⟩
  · have index : q / sectorSize < sectors.length := by
      simp only [sectorSize]
      omega
    have place : sectors[q / sectorSize]? = some (sectors.getD (q / sectorSize) 0) := by
      rw [List.getD_eq_getElem?_getD, List.getElem?_eq_getElem index, Option.getD_some]
    by_cases member : sectors.getD (q / sectorSize) 0 ∈ ws.map Prod.fst
    · obtain ⟨j, small, found⟩ := List.mem_iff_getElem.mp member
      have there : (ws.map Prod.fst)[j]? = some (sectors.getD (q / sectorSize) 0) :=
        List.getElem?_eq_some_iff.mpr ⟨small, found⟩
      have same : p.toNat / 128 + j = q / sectorSize := by
        rw [places] at there
        obtain ⟨low, left⟩ := List.getElem?_eq_some_iff.mp (describes.touched_place range there)
        obtain ⟨high, right⟩ := List.getElem?_eq_some_iff.mp place
        exact (List.getElem_inj distinct).mp (left.trans right.symm)
      rw [List.getElem?_map] at there
      obtain ⟨⟨s, b⟩, write, rfl⟩ := Option.map_eq_some_iff.mp there
      have full := putAll_take_at (m := d) once write ws.length
      rw [List.take_length, if_pos (List.getElem?_eq_some_iff.mp write).1] at full
      have cut := putAll_take_at (m := d) once write k
      have bound : q < (p.toNat / sectorSize + k) * sectorSize ↔ j < k := by
        simp only [sectorSize] at *
        omega
      simp only [contents, full, cut, bound]
      split <;> rfl
    · have other : ∀ w ∈ ws, sectors.getD (q / sectorSize) 0 ≠ w.1 := fun w there same =>
        member (List.mem_map.mpr ⟨w, there, same.symm⟩)
      simp only [contents]
      rw [putAll_take_other k other, putAll_other other, ite_self]
  · have there : s ∈ touched sectors p.toNat (transferred bytes n p) :=
      places ▸ List.mem_map.mpr ⟨w, member, same.symm⟩
    exact describes.touched_request range there

/-- A block of bytes that are new up to some place. -/
theorem block_cut {m new old : Nat → Byte} {n c : Nat}
    (cut : ∀ q < n, m q = if q < c then new q else old q) :
    block m 0 n = (block new 0 n).take c ++ (block old 0 n).drop c := by
  apply List.ext_getElem?
  intro q
  by_cases inside : q < n
  · rw [getElem?_block m inside, Nat.zero_add, cut q inside]
    by_cases before : q < c
    · rw [if_pos before, List.getElem?_append_left (by simp; omega),
        List.getElem?_take_of_lt before, getElem?_block new inside, Nat.zero_add]
    · rw [if_neg before, List.getElem?_append_right (by simp; omega), List.getElem?_drop,
        List.length_take, length_block]
      have place : c + (q - min c n) = q := by omega
      rw [place, getElem?_block old inside, Nat.zero_add]
  · rw [List.getElem?_eq_none (by simp; omega), List.getElem?_eq_none (by simp; omega)]

end Writing

section Restart

variable {v w : Volume} {l : Layout} {name : Nat → Byte} {fresh : Nat → Nat → Byte}
  {i : Nat} {f : File}

/-- A file of the layout is read back. -/
theorem Represents.readBack_file (rep : Represents v.fs v.disk l) (inside : i < numDirEntries)
    (there : l i = some f)
    (named : f.name = chars name fileNameMaxLen 0) :
    Disk.readBack v name fresh = .ok (some (fileBytes v.disk f)) := by
  obtain ⟨-, unnamed⟩ | ⟨j, g, first, found⟩ := rep.lists.readBack (v := v) name fresh
  · exact absurd named (unnamed i inside f there)
  · obtain rfl := rep.names i inside j first.inside f g there first.there
      (named.trans first.named.symm)
    obtain rfl : f = g := Option.some.inj (there.symm.trans first.there)
    exact found

/-- A restart on a disk that represents a layout. -/
theorem Represents.remount {fs : FileSystem} {d : Disk} (rep : Represents fs d l) :
    ∃ v, mounted d = .ok v ∧ v.disk = d ∧ Represents v.fs v.disk l :=
  ⟨_, mounted_eq d, rfl, { rep with mapFile := rep.mapHeader, dirFile := rep.dirHeader }⟩

end Restart

/-- **A `WriteAt` that is cut short.**  After the first `k` sectors of a write to a file that is
there, and a restart, that file has the new bytes up to the end of a sector and the old bytes from
there, and every other name reads back as before. -/
theorem write_crash (d : Disk) (fresh : Nat → Nat → Byte) : ∃ v, formatted d fresh = .ok v ∧
    ∀ calls w, AllSteps Volume.step Unmarked v calls → exec Volume.step v calls = some w →
      ∀ (file : Nat) (h : Handle) source (n p : Word) garbage count ws, w.handles[file]? = some h →
        h.live = true →
        writeAtLog w.disk h.hdr source n.toInt p.toInt garbage = .ok (count, ws) →
          ∀ k, ∃ w', mounted (putAll w.disk (ws.take k)) = .ok w' ∧
            (∀ name fresh fresh', chars name fileNameMaxLen 0 ≠ h.name →
              readBack w' name fresh = readBack w name fresh') ∧
            ∀ name, chars name fileNameMaxLen 0 = h.name → ∃ old new,
              (∀ fresh, readBack w name fresh = .ok (some old)) ∧
              (∀ fresh, readBack { w with disk := putAll w.disk ws } name fresh = .ok (some new)) ∧
              ∀ fresh, readBack w' name fresh = .ok (some
                (new.take ((p.toInt.toNat / sectorSize + k) * sectorSize) ++
                  old.drop ((p.toInt.toNat / sectorSize + k) * sectorSize))) := by
  obtain ⟨v, done, runs⟩ := formatted_runs d fresh
  refine ⟨v, done, fun calls w unmarked run file h source n p garbage count ws held live log k =>
    ?_⟩
  obtain ⟨l, sound, -⟩ := runs calls w unmarked run
  have rep := sound.represents
  obtain ⟨-, bytes, sectors, ok⟩ := sound.handle held
  obtain ⟨i, f, inside, there, named, rfl, rfl⟩ := ok.file live
  have range : InRange h.hdr n.toInt p.toInt := by
    by_contra outside
    obtain ⟨e, stops⟩ := writeAt_outside (d := w.disk) source garbage outside
    rw [writeAt_log, log] at stops
    cases stops
  have cut := ok.describes.contents_take ok.distinct range log
  have whole : ∀ k, Represents w.fs (putAll w.disk (ws.take k)) l := fun k =>
    rep.write inside there (cut k).2
  have final := whole ws.length
  rw [List.take_length] at final
  obtain ⟨w', mounted, disk, rep'⟩ := (whole k).remount
  refine ⟨w', mounted, fun name fresh fresh' other => ?_, fun name same => ?_⟩
  · refine rep.readBack_same rep'.lists (fun unnamed => unnamed) fun j g first => ⟨first.there, ?_⟩
    have differ : j ≠ i := by
      rintro rfl
      obtain rfl : f = g := Option.some.inj (there.symm.trans first.there)
      exact other (first.named.symm.trans named)
    rw [disk]
    refine rep.fileBytes_other first.inside first.there fun s _ member => (cut k).2 s fun mine => ?_
    exact ((rep.apart inside there).2 s (List.mem_cons_of_mem _ mine)).2 j first.inside differ
      ((own_mem first.there).2 s member)
  · have named : f.name = chars name fileNameMaxLen 0 := named.trans same.symm
    refine ⟨fileBytes w.disk f, fileBytes (putAll w.disk ws) f, fun fresh =>
      rep.readBack_file inside there named,
      fun fresh => Represents.readBack_file (v := { w with disk := putAll w.disk ws }) final inside
        there named,
      fun fresh => ?_⟩
    rw [rep'.readBack_file inside there named, disk]
    exact congrArg _ (congrArg _ (block_cut (cut k).1))

/-- A file of three sectors is written from its byte 20 on, and the system stops after the first
sector. -/
theorem write_crash_first : ∃ v w ws w', formatted (fun _ _ => 0) (fun _ _ => 0) = .ok v ∧
    exec Volume.step v [.create (letter 97) 300 fun _ _ => 0, .open (letter 97) fun _ _ => 0] =
      some w ∧
    (∃ h, w.handles[0]? = some h ∧
      writeAtLog w.disk h.hdr (fun _ => 1) (250 : Word).toInt (20 : Word).toInt (fun _ => 0) =
        .ok (250, ws)) ∧
    ws.map Prod.fst = [6, 7, 8] ∧ mounted (putAll w.disk (ws.take 1)) = .ok w' ∧
    ∃ old new, (∀ fresh, readBack w (letter 97) fresh = .ok (some old)) ∧
      (∀ fresh, readBack { w with disk := putAll w.disk ws } (letter 97) fresh = .ok (some new)) ∧
      ∀ fresh, readBack w' (letter 97) fresh = .ok (some (new.take 128 ++ old.drop 128)) := by
  obtain ⟨v, done, all⟩ := write_crash (fun _ _ => 0) fun _ _ => 0
  obtain ⟨v', done', sound, empty, -⟩ := formatted_sound (fun _ _ => 0) (fun _ _ => 0)
  obtain rfl : v = v' := Except.ok.inj (done.symm.trans done')
  obtain ⟨v₁, w, i, hdr, created, opened, handles, describes, -⟩ :=
    sound.first_handle empty (letter 97) (fun _ _ => 0) 300 3 (by decide) (by decide)
  have held : w.handles[0]? = some ⟨hdr, chars (letter 97) fileNameMaxLen 0, true⟩ := by
    rw [handles]
    rfl
  have run : exec Volume.step v
      [.create (letter 97) 300 fun _ _ => 0, .open (letter 97) fun _ _ => 0] = some w := by
    rw [exec_cons, created, Option.bind_some, exec_cons, opened, Option.bind_some, exec_nil]
  have range : InRange hdr (250 : Word).toInt (20 : Word).toInt := .inr (.inr (by decide))
  obtain ⟨ws, log, places⟩ := describes.writeAtLog (d := w.disk) (fun _ => 1) (fun _ => 0) range
  obtain ⟨w', mounted', -, same⟩ :=
    all [.create (letter 97) 300 fun _ _ => 0, .open (letter 97) fun _ _ => 0] w
    ⟨trivial, fun _ _ => ⟨trivial, fun _ _ => trivial⟩⟩ run 0 _ (fun _ => 1) 250 20
      (fun _ => 0) _ ws held rfl log 1
  exact ⟨v, w, ws, w', done, run, ⟨_, held, log⟩, places, mounted', same (letter 97) rfl⟩

end Nachos.Disk
