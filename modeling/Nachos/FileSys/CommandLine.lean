/-
# Nachos.FileSys.CommandLine -- `Copy`, `Print`, `Remove`, `List`, `PerformanceTest`, run after run

The commands are the calls that `main` makes for `-cp`, `-p`, `-r`, `-l` and `-t`, once its loop
over the arguments gets to them.  (A build with `THREADS`, as `filesys/Makefile` sets it, uses the
arguments up in another loop before, and one with `NETWORK` takes an argument after `-l`.)  `-D`
prints the tables of the file system themselves, and `-x` runs a program; they are left out.

`Catalog` is what the file system is to its user: at most ten files with their names and bytes,
and as many of them as fit on the disk.  It has the same commands, and nothing in it is about
sectors, headers or bitmaps.

`commandLine_refines` runs both through the same commands, among them the end of one `nachos`
and the start of the next, with or without `-f`.  Both print the same, and the code stops where
the catalog says so: at the `Copy` of a file that has room on the disk but not in its header.
`List` prints a name of nine characters or more with `%s` although there is no zero behind it; of
such a name only the nine characters are compared.
-/
import Nachos.FileSys.Fstest
import Nachos.Lib.Shelf

namespace Nachos.Disk

open Nachos.Lib.Bytes
open Nachos.Lib.Shelf
open Nachos.Lib.Writes

set_option autoImplicit false

/-! ## Commands -/

inductive Command where
  /-- A new process, with `-f` or without. -/
  | nachos (format : Bool)
  | copy (source : Nat → Byte) (file : Option UnixFile) (target : Nat → Byte)
  | print (name : Nat → Byte)
  | remove (name : Nat → Byte)
  | list
  | test

/-- The call that `main` makes. -/
def Volume.command (v : Volume) (mem : Nat → Memory) : Command → Except Stop (Output × Volume)
  | .nachos format => return ([], ← if format then formatted v.disk (mem 0 0) else mounted v.disk)
  | .copy source file target => copy v source file target (mem 0)
  | .print name => return (← print v name (mem 0), v)
  | .remove name => do
      let (_, disk) ← v.fs.remove v.disk name (mem 0 0)
      return ([], { v with disk })
  | .list => return (← v.fs.list v.disk (mem 0 0), v)
  | .test => performanceTest v mem

/-- The commands of some runs of `nachos`, one after the other. -/
def Volume.commands (v : Volume) : List (Command × (Nat → Memory)) → Except Stop (Output × Volume)
  | [] => return ([], v)
  | (c, mem) :: rest => do
      let (first, v) ← v.command mem c
      let (out, v) ← v.commands rest
      return (first ++ out, v)

/-! ## The catalog -/

/-- Ten files, and the sectors of the disk but for those of the free map and of the directory: a
file takes one for its header and as many as its bytes need. -/
def catalogLimits : Limits (List Byte) where
  places := numDirEntries
  size bytes := 1 + (bytes.length + 127) / sectorSize
  room := numSectors - 5

/-- Names, as far as `strncmp` looks at them, and bytes. -/
abbrev Catalog := Row (List Byte) (List Byte)

abbrev Lines := List (Printed (List Byte))

namespace Catalog

/-- `-cp`.  `none` if the file is too large for a header. -/
def copy (c : Catalog) (source : Nat → Byte) (file : Option UnixFile) (target : Nat → Byte) :
    Option (Lines × Catalog) :=
  match file with
  | none => some (message "Copy: couldn't open input file " source, c)
  | some file =>
      match c.put catalogLimits (chars target fileNameMaxLen 0) file.val with
      | none => some (message "Copy: couldn't create output file " target, c)
      | some c' => if file.val.length ≤ maxFileSize then some ([], c') else none

/-- `-p`. -/
def print (c : Catalog) (name : Nat → Byte) : Lines :=
  match c.get numDirEntries (chars name fileNameMaxLen 0) with
  | none => message "Print: unable to open file " name
  | some bytes => bytes.map .byte

/-- `-r`. -/
def remove (c : Catalog) (name : Nat → Byte) : Catalog :=
    (c.drop numDirEntries (chars name fileNameMaxLen 0)).getD c

/-- `-l`. -/
def list (c : Catalog) : Lines :=
  (List.range numDirEntries).flatMap fun i => ((c i).map fun e => [.entry e.1, .text "\n"]).getD []

/-- `-t`: the file has no bytes, and nothing can be written to it or read from it. -/
def test (c : Catalog) : Lines × Catalog :=
  let start : Lines := [.text "Starting file system performance test:\n", .statistics]
  let created := c.put catalogLimits (chars testFile fileNameMaxLen 0) []
  let wrote := sequential "Sequential write of " ++
    if created.isSome then message "Perf test: unable to write " testFile
    else message "Perf test: can't create " testFile
  let c := created.getD c
  let read := sequential "Sequential read of " ++
    if (c.get numDirEntries (chars testFile fileNameMaxLen 0)).isSome then
      message "Perf test: unable to read " testFile
    else message "Perf test: unable to open file " testFile
  match c.drop numDirEntries (chars testFile fileNameMaxLen 0) with
  | none => (start ++ wrote ++ read ++ message "Perf test: unable to remove " testFile, c)
  | some c => (start ++ wrote ++ read ++ [.statistics], c)

/-- One command. -/
def command (c : Catalog) : Command → Option (Lines × Catalog)
  | .nachos format => some ([], if format then fun _ => none else c)
  | .copy source file target => c.copy source file target
  | .print name => some (c.print name, c)
  | .remove name => some ([], c.remove name)
  | .list => some (c.list, c)
  | .test => some c.test

def commands (c : Catalog) : List Command → Option (Lines × Catalog)
  | [] => some ([], c)
  | first :: rest => do
      let (lines, c) ← c.command first
      let (more, c) ← c.commands rest
      return (lines ++ more, c)

end Catalog

/-! ## What the disk holds -/

/-- The catalog has the files of the disk. -/
structure Holds (v : Volume) (l : Layout) (c : Catalog) : Prop where
  represents : Represents v.fs v.disk l
  entries : ∀ i < numDirEntries, c i = (l i).map fun f => (f.name, fileBytes v.disk f)

section Holds

variable {v : Volume} {l : Layout} {c : Catalog} {f : File} {i : Nat} {name : List Byte}

theorem Holds.entry_iff (holds : Holds v l c) (inside : i < numDirEntries) {bytes : List Byte} :
    c i = some (name, bytes) ↔ ∃ f, l i = some f ∧ f.name = name ∧ fileBytes v.disk f = bytes := by
  rw [holds.entries i inside, Option.map_eq_some_iff]
  simp only [Prod.mk.injEq]

theorem Holds.free_iff (holds : Holds v l c) (inside : i < numDirEntries) :
    c i = none ↔ l i = none := by
  rw [holds.entries i inside, Option.map_eq_none_iff]

/-- A name that the catalog does not have. -/
theorem Holds.find_none (holds : Holds v l c) :
    c.find numDirEntries name = none ↔ Unnamed l name := by
  rw [Row.find_eq_none_iff]
  refine forall_congr' fun i => forall_congr' fun inside => ?_
  constructor
  · intro absent g there named
    exact absent (fileBytes v.disk g) ((holds.entry_iff inside).mpr ⟨g, there, named, rfl⟩)
  · intro unnamed bytes there
    obtain ⟨g, here, named, -⟩ := (holds.entry_iff inside).mp there
    exact unnamed g here named

/-- A name that it has. -/
theorem Holds.find_some (holds : Holds v l c) (inside : i < numDirEntries) (there : l i = some f) :
    c.find numDirEntries f.name = some i ∧
      c.get numDirEntries f.name = some (fileBytes v.disk f) := by
  have here : c i = some (f.name, fileBytes v.disk f) :=
    (holds.entry_iff inside).mpr ⟨f, there, rfl, rfl⟩
  have found : c.find numDirEntries f.name = some i := by
    refine Row.find_eq_some_iff.mpr ⟨inside, ⟨_, here⟩, fun j below bytes other => ?_⟩
    obtain ⟨g, there', named, -⟩ := (holds.entry_iff (Nat.lt_trans below inside)).mp other
    have := holds.represents.names j (Nat.lt_trans below inside) i inside g f there' there named
    omega
  exact ⟨found, Row.get_eq_some found here⟩

theorem Holds.get_none (holds : Holds v l c) :
    c.get numDirEntries name = none ↔ Unnamed l name := by
  rw [Row.get_eq_none_iff, holds.find_none]

/-- The room that the files take are the sectors in use. -/
theorem Holds.taken (holds : Holds v l c) : l.used.length = 5 + c.taken catalogLimits := by
  unfold Layout.used Row.taken
  rw [List.length_append, List.length_flatMap]
  refine congrArg (5 + List.sum ·) (List.map_congr_left fun i member => ?_)
  have inside : i < numDirEntries := List.mem_range.mp member
  rw [holds.entries i inside]
  cases there : l i with
  | none => rfl
  | some f =>
      have size := (holds.represents.headers i inside f there).size
      simp only [own, List.length_cons, size, Option.map_some, Option.getD_some,
        catalogLimits, fileBytes, length_block, sectorSize]
      omega

/-- The sectors that no file uses. -/
theorem Represents.few_iff {fs : FileSystem} {d : Disk} (rep : Represents fs d l) {n : Nat} :
    (∀ free : List Nat, free.Nodup → (∀ s ∈ free, s < numSectors ∧ s ∉ l.used) → free.length ≤ n) ↔
      numSectors ≤ l.used.length + n := by
  have whole : (l.used ++ (List.range numSectors).filter fun s => s ∉ l.used).Perm
      (List.range numSectors) := by
    refine (List.perm_ext_iff_of_nodup ?_ List.nodup_range).mpr fun s => ?_
    · refine List.nodup_append.mpr ⟨rep.distinct, List.nodup_range.filter _, ?_⟩
      rintro s member t member' rfl
      exact absurd member (by simpa using (List.mem_filter.mp member').2)
    · simp only [List.mem_append, List.mem_filter, List.mem_range, decide_eq_true_eq]
      constructor
      · rintro (member | ⟨bound, -⟩)
        · exact rep.bound s member
        · exact bound
      · intro bound
        by_cases member : s ∈ l.used
        · exact .inl member
        · exact .inr ⟨bound, member⟩
  have count := whole.length_eq
  rw [List.length_append, List.length_range] at count
  constructor
  · intro few
    have := few ((List.range numSectors).filter fun s => s ∉ l.used)
      (List.nodup_range.filter _) fun s member => by
      simpa using member
    omega
  · intro full free distinct unused
    have covered : free ⊆ (List.range numSectors).filter fun s => s ∉ l.used := fun s member => by
      simpa using unused s member
    have := (distinct.subperm covered).length_le
    omega

/-- **`Create` refuses what the catalog refuses.** -/
theorem Holds.refused_iff (holds : Holds v l c) {bytes : List Byte} :
    Refused l name bytes.length ↔ c.put catalogLimits name bytes = none := by
  rw [Row.put_eq_none_iff]
  refine or_congr ?_ (or_congr ?_ ?_)
  · constructor
    · rintro ⟨i, inside, f, there, rfl⟩
      exact ⟨i, (holds.find_some inside there).1⟩
    · rintro ⟨i, found⟩
      obtain ⟨inside, ⟨bytes, here⟩, -⟩ := Row.find_eq_some_iff.mp found
      obtain ⟨f, there, named, -⟩ := (holds.entry_iff inside).mp here
      exact ⟨i, inside, f, there, named⟩
  · rw [Row.vacant_eq_none_iff]
    refine forall_congr' fun i => forall_congr' fun inside => not_congr (holds.free_iff inside).symm
  · rw [holds.represents.few_iff, holds.taken]
    simp only [Int.toNat_natCast, catalogLimits, numSectors, sectorSize]
    omega

/-- One entry of the directory changes. -/
theorem Holds.replace (holds : Holds v l c) {w : Volume} {e : Option File}
    (rep : Represents w.fs w.disk (Function.update l i e))
    (kept : ∀ j < numDirEntries, j ≠ i → ∀ g, l j = some g → ∀ s, 5 ≤ s → s ∈ g.sectors →
      w.disk s = v.disk s) :
    Holds w (Function.update l i e)
    (Function.update c i (e.map fun f => (f.name, fileBytes w.disk f))) := by
  refine ⟨rep, fun j inside => ?_⟩
  by_cases here : j = i
  · rw [here, Function.update_self, Function.update_self]
  · rw [Function.update_of_ne here, Function.update_of_ne here, holds.entries j inside]
    cases there : l j with
    | none => rfl
    | some g =>
        have same : fileBytes w.disk g = fileBytes v.disk g :=
          holds.represents.fileBytes_other inside there (kept j inside here g there)
        simp only [Option.map_some, same]

/-- **`Create`, and the catalog.** -/
theorem Holds.create (holds : Holds v l c) (target : Nat → Byte) (fresh : Nat → Nat → Byte)
    (bytes : List Byte) (high : (bytes.length : Int) ≤ maxInt) :
    (c.put catalogLimits (chars target fileNameMaxLen 0) bytes = none ∧
        v.fs.create v.disk target bytes.length fresh = .ok (false, v.disk)) ∨
      ((∃ c', c.put catalogLimits (chars target fileNameMaxLen 0) bytes = some c') ∧
        maxFileSize < bytes.length ∧
        ∃ e, v.fs.create v.disk target bytes.length fresh = .error e) ∨
      ∃ i f d', i < numDirEntries ∧ l i = none ∧ f.name = chars target fileNameMaxLen 0 ∧
        f.length = bytes.length ∧
        c.put catalogLimits f.name bytes = some (Function.update c i (some (f.name, bytes))) ∧
        v.fs.create v.disk target bytes.length fresh = .ok (true, d') ∧
        Represents v.fs d' (Function.update l i (some f)) ∧
        ∀ j < numDirEntries, ∀ g, l j = some g → ∀ s, 5 ≤ s → s ∈ g.sectors → d' s = v.disk s := by
  have rep := holds.represents
  have low : -maxInt - 1 ≤ (bytes.length : Int) := by
    simp only [maxInt]
    omega
  have refused_iff : Refused l (chars target fileNameMaxLen 0) bytes.length ↔
      c.put catalogLimits (chars target fileNameMaxLen 0) bytes = none := holds.refused_iff
  obtain ⟨large, room, stops⟩ | ⟨refused, why⟩ |
      ⟨j, g, d', created, added, named, sized, -, rep', -⟩ := rep.create target fresh low high
  · rw [refused_iff, ← ne_eq, Option.ne_none_iff_exists'] at room
    exact .inr (.inl ⟨room, by omega, stops⟩)
  · exact .inl ⟨refused_iff.mp why, refused⟩
  · have some := added.not_refused rep' sized
    rw [named, refused_iff, ← ne_eq, Option.ne_none_iff_exists'] at some
    obtain ⟨c', put⟩ := some
    obtain ⟨ws, log, rfl⟩ := createLog_of_create created
    obtain ⟨i, f, creating⟩ := rep.creating low high log
    have inside := creating.added.inside
    obtain ⟨k, free, absent, room, rfl⟩ := Row.put_eq_some_iff.mp put
    have first : c.vacant numDirEntries = .some i := by
      refine Row.vacant_eq_some_iff.mpr
        ⟨inside, (holds.free_iff inside).mpr creating.added.empty, fun j below => ?_⟩
      rw [ne_eq, holds.free_iff (Nat.lt_trans below inside)]
      exact creating.first j below
    obtain rfl : k = i := Option.some.inj (free.symm.trans first)
    refine .inr (.inr ⟨k, f, _, inside, creating.added.empty, creating.named,
      by simpa using creating.sized, ?_, created, creating.final,
      fun j bound g there s high member => ?_⟩)
    · rw [creating.named, put]
    · have kept := creating.kept ws.length (s := s)
      rw [List.take_length] at kept
      refine kept ?_
      have differ : s ≠ f.header := by
        rintro rfl
        exact creating.added.unused _ List.mem_cons_self (rep.data_used bound there member)
      simp only [List.mem_cons, List.not_mem_nil, or_false, not_or]
      omega

end Holds

/-! ## One command -/

/-- What is printed, with the names of the directory as their first nine characters: all of a
name that has a zero among them. -/
def seen (out : Output) : Lines := out.map (Printed.map fun a => chars a fileNameMaxLen 0)

@[simp] theorem seen_nil : seen [] = [] := rfl

@[simp] theorem seen_append (a b : Output) : seen (a ++ b) = seen a ++ seen b := List.map_append ..

@[simp] theorem seen_message (before : String) (name : Nat → Byte) : seen (message before name) =
    message before name :=
  rfl

@[simp] theorem seen_sequential (what : String) : seen (sequential what) = sequential what := rfl

@[simp] theorem seen_bytes (bytes : List Byte) : seen (bytes.map .byte) = bytes.map .byte := by
  simp [seen, Printed.map]

/-- The code does what the catalog does. -/
def Agrees (x : Except Stop (Output × Volume)) (y : Option (Lines × Catalog)) : Prop :=
  (∃ out v c, x = .ok (out, v) ∧ y = some (seen out, c) ∧ ∃ l, Holds v l c) ∨
    (∃ e, x = .error e) ∧ y = none

section Step

variable {v : Volume} {l : Layout} {c : Catalog}

theorem Holds.nachos (holds : Holds v l c) (format : Bool) (mem : Nat → Memory) :
    Agrees (v.command mem (.nachos format)) (c.command (.nachos format)) := by
  cases format with
  | false =>
      obtain ⟨v', mounted, disk, rep⟩ := holds.represents.remount
      refine .inl ⟨[], v', c, ?_, rfl, l, rep, fun i inside => ?_⟩
      · rw [Volume.command, if_neg (by decide), mounted]
        rfl
      · rw [disk]
        exact holds.entries i inside
  | true =>
      obtain ⟨v', made, sound, -, -⟩ := formatted_sound v.disk (mem 0 0)
      refine .inl ⟨[], v', fun _ => none, ?_, rfl, fun _ => none, sound.represents, fun _ _ => rfl⟩
      rw [Volume.command, if_pos rfl, made]
      rfl

theorem Holds.copy (holds : Holds v l c) (source : Nat → Byte) (file : Option UnixFile)
    (target : Nat → Byte) (mem : Memory) :
    Agrees (copy v source file target mem) (c.copy source file target) := by
  cases file with
  | none => exact .inl ⟨_, v, c, rfl, rfl, l, holds⟩
  | some file =>
      obtain ⟨refused, created⟩ | ⟨⟨c', room⟩, large, e, stops⟩ |
        ⟨i, f, d₁, inside, empty, named, sized, room, created, rep, kept⟩ :=
          holds.create target (mem 0) file.val file.property
      · refine .inl ⟨message "Copy: couldn't create output file " target, v, c, ?_, ?_, l, holds⟩
        · rw [Disk.copy, created]
          rfl
        · rw [Catalog.copy, refused]
          rfl
      · refine .inr ⟨⟨e, ?_⟩, ?_⟩
        · rw [Disk.copy, stops]
          rfl
        · rw [Catalog.copy, room]
          exact if_neg (by omega)
      · have there : Function.update l i (some f) i = some f := Function.update_self ..
        have describes := rep.headers i inside f there
        have distinct := (List.nodup_cons.mp (rep.apart inside there).1).2
        rw [sized] at describes
        have small : file.val.length ≤ maxFileSize := describes.bytes_le
        obtain ⟨g, d₂, copied, here, others⟩ :=
          describes.copyData (d := d₁) (p := 0) distinct mem file.val (mem 2 0) (by omega)
        have rep₂ := rep.write inside there others
        have bytes : fileBytes d₂ f = file.val := by
          have same : block (contents d₂ f.sectors) 0 file.val.length =
              block (splice (contents d₁ f.sectors) 0 file.val) 0 file.val.length := by
            refine block_congr fun q inside => here _ ?_
            omega
          rw [fileBytes, sized, same, splice_block_self]
        have holds₂ := holds.replace (w := { v with disk := d₂ }) rep₂
          fun j bound other h there' s high member => by
          have mine : s ∉ f.sectors := fun mine =>
            ((rep.apart inside there).2 s (List.mem_cons_of_mem _ mine)).2 j bound other
              ((own_mem ((Function.update_of_ne other ..).trans there')).2 s member)
          exact (others s mine).trans (kept j bound h there' s high member)
        rw [Option.map_some, bytes] at holds₂
        refine .inl ⟨[], _, _, ?_, ?_, _, holds₂⟩
        · rw [Disk.copy, created]
          simp only [ok_bind, Bool.not_true, Bool.false_eq_true, if_false]
          rw [rep.opens inside there named (mem 1), ok_bind]
          simp only
          rw [OpenFile.create, show (0 : Int) = ((0 : Nat) : Int) from rfl, copied, ok_bind]
          rfl
        · rw [Catalog.copy, ← named, room]
          exact if_pos small

/-- `Open`, and the catalog. -/
theorem Holds.open (holds : Holds v l c) (name : Nat → Byte) (fresh : Nat → Nat → Byte) :
    (c.get numDirEntries (chars name fileNameMaxLen 0) = none ∧
      v.fs.open v.disk name fresh = .ok none) ∨
      ∃ i f, i < numDirEntries ∧ l i = some f ∧
        c.get numDirEntries (chars name fileNameMaxLen 0) = some (fileBytes v.disk f) ∧
        v.fs.open v.disk name fresh = .ok (some (words (v.disk f.header))) := by
  obtain ⟨missed, unnamed⟩ | ⟨i, f, inside, there, named, opened⟩ :=
    holds.represents.open name fresh
  · exact .inl ⟨holds.get_none.mpr unnamed, missed⟩
  · exact .inr ⟨i, f, inside, there, named ▸ (holds.find_some inside there).2, opened⟩

/-- `Print`, and the catalog. -/
theorem Holds.print (holds : Holds v l c) (name : Nat → Byte) (mem : Memory) :
    (c.get numDirEntries (chars name fileNameMaxLen 0) = none ∧
        print v name mem = .ok (message "Print: unable to open file " name)) ∨
      ∃ bytes, c.get numDirEntries (chars name fileNameMaxLen 0) = some bytes ∧
        print v name mem = .ok (bytes.map .byte) := by
  obtain ⟨missing, missed⟩ | ⟨i, f, inside, there, bytes, opened⟩ := holds.open name (mem 0)
  · refine .inl ⟨missing, ?_⟩
    rw [Disk.print, missed]
    rfl
  · have describes := holds.represents.headers i inside f there
    have length : (FileHeader.fileLength (words (v.disk f.header))).toNat = f.length :=
      describes.length
    have printed := describes.printData (d := v.disk) (p := 0) (mem 1) (f.length + 1)
      (by omega) (by omega)
    rw [Nat.sub_zero] at printed
    refine .inr ⟨fileBytes v.disk f, bytes, ?_⟩
    rw [Disk.print, opened, ok_bind]
    simp only [length]
    exact printed

/-- `Remove`, and the catalog. -/
theorem Holds.remove (holds : Holds v l c) (name : Nat → Byte) (fresh : Nat → Nat → Byte) :
    (c.drop numDirEntries (chars name fileNameMaxLen 0) = none ∧
      v.fs.remove v.disk name fresh = .ok (false, v.disk)) ∨
      ∃ c' d' l', c.drop numDirEntries (chars name fileNameMaxLen 0) = some c' ∧
        v.fs.remove v.disk name fresh = .ok (true, d') ∧ Holds { v with disk := d' } l' c' := by
  obtain ⟨missed, unnamed⟩ | ⟨i, f, d', inside, there, named, removed, rep, kept⟩ :=
    holds.represents.remove name fresh
  · refine .inl ⟨?_, missed⟩
    rw [Row.drop, holds.find_none.mpr unnamed, Option.map_none]
  · have holds' := holds.replace (w := { v with disk := d' }) (e := none) rep
      fun j _ _ g _ s high _ => by
        refine kept s ?_
        simp only [List.mem_cons, List.not_mem_nil, or_false, not_or]
        omega
    refine .inr ⟨_, d', _, ?_, removed, holds'⟩
    rw [Row.drop, ← named, (holds.find_some inside there).1]
    rfl

/-- `List`, and the catalog. -/
theorem Holds.list (holds : Holds v l c) (fresh : Nat → Nat → Byte) :
    ∃ out, v.fs.list v.disk fresh = .ok out ∧ seen out = c.list := by
  obtain ⟨t, fetched, same, -⟩ := holds.represents.fetchDirectory (fun _ => 0)
    (Table.create (fresh 0))
  refine ⟨t.list, ?_, ?_⟩
  · rw [FileSystem.list, fetched]
    rfl
  · rw [Table.list, seen, List.map_flatMap, Catalog.list]
    refine List.flatMap_congr fun i member => ?_
    have inside : i < numDirEntries := List.mem_range.mp member
    have entry := (same i inside).trans (holds.represents.entries i inside)
    rw [holds.entries i inside]
    cases used : t.inUse i with
    | false =>
        rw [Table.entry_of_not_inUse used] at entry
        rw [Option.map_eq_none_iff.mp entry.symm]
        rfl
    | true =>
        rw [Table.entry_of_inUse used] at entry
        obtain ⟨f, there, named⟩ := Option.map_eq_some_iff.mp entry.symm
        rw [there, Option.map_some, Option.map_some, Option.getD_some, (Prod.mk.inj named).1]
        rfl

/-- At the end of the file nothing can be written. -/
theorem Describes.write_end {h : FileHeader} {bytes : Nat} {sectors : List Nat} {d : Disk}
    (describes : Describes h bytes sectors) (source : Nat → Byte) (n : Int)
    (fresh : Nat → Nat → Byte) :
    OpenFile.write ⟨h, bytes⟩ d source n fresh = .ok (0, ⟨h, bytes⟩, d) := by
  have length := describes.length
  have small := describes.bytes_le
  have refused : n ≤ 0 ∨ (bytes : Int) ≥ h.fileLength := by
    rw [FileHeader.fileLength]
    omega
  rw [OpenFile.write, Wrapped.writeAt, if_pos refused, pure_eq_ok, ok_bind]
  simp only
  rw [Int.add_zero, wrap_natCast (by omega)]
  rfl

theorem Holds.fileWrite (holds : Holds v l c) (mem : Memory) :
    ∃ out v' l', fileWrite v mem = .ok (out, v') ∧
    seen out = sequential "Sequential write of " ++
      (if (c.put catalogLimits (chars testFile fileNameMaxLen 0) []).isSome then
          message "Perf test: unable to write " testFile
        else message "Perf test: can't create " testFile) ∧
    Holds v' l' ((c.put catalogLimits (chars testFile fileNameMaxLen 0) []).getD c) := by
  obtain ⟨refused, created⟩ | ⟨-, large, -⟩ |
      ⟨i, f, d₁, inside, empty, named, sized, room, created, rep, kept⟩ :=
    holds.create testFile (mem 0) [] (by decide)
  · refine ⟨sequential "Sequential write of " ++ message "Perf test: can't create " testFile, v, l,
      ?_, ?_, ?_⟩
    · rw [Disk.fileWrite, show (0 : Int) = (([] : List Byte).length : Int) from rfl, created]
      rfl
    · rw [refused]
      simp
    · rw [refused]
      exact holds
  · exact absurd large (by decide)
  · have there : Function.update l i (some f) i = some f := Function.update_self ..
    have describes := rep.headers i inside f there
    have holds₁ := holds.replace (w := { v with disk := d₁ }) rep fun j bound other => kept j bound
    have none : fileBytes d₁ f = [] := by
      rw [fileBytes, sized]
      rfl
    rw [Option.map_some, none] at holds₁
    rw [sized] at describes
    have full := describes.write_end (d := d₁) testContents contentSize (mem (2 + 4999))
    refine ⟨sequential "Sequential write of " ++ message "Perf test: unable to write " testFile,
      { v with disk := d₁ }, Function.update l i (some f), ?_, ?_, ?_⟩
    · rw [Disk.fileWrite, show (0 : Int) = (([] : List Byte).length : Int) from rfl, created]
      simp only [ok_bind, Bool.not_true, Bool.false_eq_true, if_false]
      rw [rep.opens inside there named (mem 1), ok_bind]
      simp only
      rw [show testFileSize / contentSize = 4999 + 1 from rfl, writeRounds, OpenFile.create,
        show (0 : Int) = (([] : List Byte).length : Int) from rfl, full, ok_bind]
      rfl
    · rw [← named, room]
      simp
    · rw [← named, room]
      exact holds₁

theorem Holds.fileRead (holds : Holds v l c) (mem : Memory) : ∃ out, fileRead v mem = .ok out ∧
    seen out = sequential "Sequential read of " ++
      if (c.get numDirEntries (chars testFile fileNameMaxLen 0)).isSome then
        message "Perf test: unable to read " testFile
      else message "Perf test: unable to open file " testFile := by
  obtain ⟨missing, missed⟩ | ⟨i, f, inside, there, bytes, opened⟩ := holds.open testFile (mem 1)
  · refine ⟨sequential "Sequential read of " ++ message "Perf test: unable to open file " testFile,
      ?_, ?_⟩
    · rw [Disk.fileRead, missed]
      rfl
    · rw [missing]
      simp
  · have describes := holds.represents.headers i inside f there
    have small := describes.bytes_le
    have read := describes.readRounds (d := v.disk) (p := 0) (mem 2)
      (testFileSize / contentSize) (mem 0 0)
      (by omega) (by
        rw [show contentSize * (testFileSize / contentSize) = 50000 from rfl]
        omega)
    refine ⟨sequential "Sequential read of " ++ message "Perf test: unable to read " testFile, ?_,
      ?_⟩
    · rw [Disk.fileRead, opened, ok_bind]
      simp only
      rw [OpenFile.create, show (0 : Int) = ((0 : Nat) : Int) from rfl, read]
      rfl
    · rw [bytes]
      simp

theorem Holds.test (holds : Holds v l c) (mem : Nat → Memory) :
    Agrees (performanceTest v mem) (some c.test) := by
  let start : Output := [.text "Starting file system performance test:\n", .statistics]
  obtain ⟨wrote, v₁, l₁, write, said, holds₁⟩ := holds.fileWrite (mem 0)
  obtain ⟨read, reading, told⟩ := holds₁.fileRead (mem 1)
  obtain ⟨missing, missed⟩ | ⟨c', d', l', dropped, removed, holds'⟩ :=
    holds₁.remove testFile (mem 2 0)
  · refine .inl ⟨start ++ wrote ++ read ++ message "Perf test: unable to remove " testFile, v₁, _,
      ?_, ?_, l₁, holds₁⟩
    · rw [performanceTest, write, ok_bind]
      simp only [reading, missed, ok_bind]
      rfl
    · rw [Catalog.test]
      simp only [missing, seen_append, said, told, seen_message]
      rfl
  · refine .inl ⟨start ++ wrote ++ read ++ [.statistics], _, c', ?_, ?_, l', holds'⟩
    · rw [performanceTest, write, ok_bind]
      simp only [reading, removed, ok_bind]
      rfl
    · rw [Catalog.test]
      simp only [dropped, seen_append, said, told]
      rfl

/-- **One command.** -/
theorem Holds.command (holds : Holds v l c) (mem : Nat → Memory) (k : Command) :
    Agrees (v.command mem k) (c.command k) := by
  cases k with
  | nachos format => exact holds.nachos format mem
  | copy source file target => exact holds.copy source file target (mem 0)
  | print name =>
      obtain ⟨missing, printed⟩ | ⟨bytes, there, printed⟩ := holds.print name (mem 0)
      · refine .inl ⟨message "Print: unable to open file " name, v, c, ?_, ?_, l, holds⟩
        · rw [Volume.command, printed]
          rfl
        · rw [Catalog.command, Catalog.print, missing]
          rfl
      · refine .inl ⟨bytes.map .byte, v, c, ?_, ?_, l, holds⟩
        · rw [Volume.command, printed]
          rfl
        · rw [Catalog.command, Catalog.print, there, seen_bytes]
  | remove name =>
      obtain ⟨missing, missed⟩ | ⟨c', d', l', dropped, removed, holds'⟩ :=
        holds.remove name (mem 0 0)
      · refine .inl ⟨[], v, c, ?_, ?_, l, holds⟩
        · rw [Volume.command, missed]
          rfl
        · rw [Catalog.command, Catalog.remove, missing]
          rfl
      · refine .inl ⟨[], _, c', ?_, ?_, l', holds'⟩
        · rw [Volume.command, removed]
          rfl
        · rw [Catalog.command, Catalog.remove, dropped]
          rfl
  | list =>
      obtain ⟨out, listed, said⟩ := holds.list (mem 0 0)
      refine .inl ⟨out, v, c, ?_, ?_, l, holds⟩
      · rw [Volume.command, listed]
        rfl
      · rw [Catalog.command, said]
  | test => exact holds.test mem

/-- Some commands, by induction on them. -/
theorem Holds.commands (holds : Holds v l c) (ks : List (Command × (Nat → Memory))) :
    Agrees (v.commands ks) (c.commands (ks.map Prod.fst)) := by
  induction ks generalizing v l c with
  | nil => exact .inl ⟨[], v, c, rfl, rfl, l, holds⟩
  | cons k rest ih =>
      obtain ⟨k, mem⟩ := k
      rw [Volume.commands, List.map_cons, Catalog.commands]
      obtain ⟨first, v₁, c₁, ran, does, l₁, holds₁⟩ | ⟨⟨e, stops⟩, none⟩ := holds.command mem k
      · rw [ran, does, ok_bind]
        obtain ⟨out, v₂, c₂, ran₂, does₂, holds₂⟩ | ⟨⟨e, stops⟩, none⟩ := ih holds₁
        · refine .inl ⟨first ++ out, v₂, c₂, ?_, ?_, holds₂⟩
          · simp only [ran₂]
            rfl
          · simp only [Option.bind_eq_bind, Option.bind_some, does₂, seen_append]
            rfl
        · refine .inr ⟨⟨e, ?_⟩, ?_⟩
          · simp only [stops]
            rfl
          · simp only [Option.bind_eq_bind, Option.bind_some, none]
            rfl
      · refine .inr ⟨⟨e, ?_⟩, ?_⟩
        · rw [stops]
          rfl
        · rw [none]
          rfl

end Step

/-- A formatted disk holds the empty catalog. -/
theorem formatted_holds (d : Disk) (fresh : Nat → Nat → Byte) :
    ∃ v, formatted d fresh = .ok v ∧ Holds v (fun _ => none) fun _ => none := by
  obtain ⟨v, made, sound, -, -⟩ := formatted_sound d fresh
  exact ⟨v, made, sound.represents, fun _ _ => rfl⟩

/-- **The file system and the catalog.**  On a formatted disk, whatever commands follow in whatever
runs of `nachos`, the code prints what the catalog prints (of the names that `List` prints, the
first nine characters), and where the catalog stops it stops. -/
theorem commandLine_refines (d : Disk) (fresh : Nat → Nat → Byte) : ∃ v, formatted d fresh = .ok v ∧
    ∀ ks, Agrees (v.commands ks) (Catalog.commands (fun _ => none) (ks.map Prod.fst)) := by
  obtain ⟨v, made, holds⟩ := formatted_holds d fresh
  exact ⟨v, made, holds.commands⟩

/-! ## From `Copy` to `Print` -/

/-- A command that leaves the file of that name alone. -/
def Command.Keeps (name : List Byte) : Command → Prop
  | .nachos format => format = false
  | .remove other => chars other fileNameMaxLen 0 ≠ name
  | .test => chars testFile fileNameMaxLen 0 ≠ name
  | .copy .. | .print _ | .list => True

section Keeps

variable {v : Volume} {l : Layout} {c c' : Catalog} {name bytes : List Byte}

/-- No two files of the catalog have one name. -/
theorem Holds.distinct (holds : Holds v l c) : Row.Distinct numDirEntries c := by
  intro i inside j inside' k x y here there
  obtain ⟨f, mine, named, -⟩ := (holds.entry_iff inside).mp here
  obtain ⟨g, other, named', -⟩ := (holds.entry_iff inside').mp there
  exact holds.represents.names i inside j inside' f g mine other (named.trans named'.symm)

theorem get_of_put {k : List Byte} {x : List Byte} (there : c.get numDirEntries name = some bytes)
    (done : c.put catalogLimits k x = some c') : c'.get numDirEntries name = some bytes := by
  have get := Row.get_put done name
  obtain ⟨-, -, absent, -, -⟩ := Row.put_eq_some_iff.mp done
  have differ : name ≠ k := by
    rintro rfl
    have missing : c.get numDirEntries name = none := Row.get_eq_none_iff.mpr absent
    rw [missing] at there
    cases there
  rw [if_neg differ] at get
  exact get.trans there

theorem get_of_drop {k : List Byte} (distinct : Row.Distinct numDirEntries c)
    (there : c.get numDirEntries name = some bytes) (done : c.drop numDirEntries k = some c')
    (differ : k ≠ name) :
    c'.get numDirEntries name = some bytes := by
  have get := Row.get_drop distinct done name
  rw [if_neg differ.symm] at get
  exact get.trans there

/-- A file stays in the catalog. -/
theorem Catalog.command_keeps {k : Command} {lines : Lines}
    (distinct : Row.Distinct numDirEntries c)
    (there : c.get numDirEntries name = some bytes) (keeps : k.Keeps name)
    (done : c.command k = some (lines, c')) :
    c'.get numDirEntries name = some bytes := by
  cases k with
  | nachos format =>
      obtain rfl : format = false := keeps
      cases done
      exact there
  | copy source file target =>
      rw [Catalog.command] at done
      unfold Catalog.copy at done
      split at done
      · cases done
        exact there
      · split at done
        · cases done
          exact there
        · rename_i put
          split at done
          · cases done
            exact get_of_put there put
          · cases done
  | print other | list =>
      cases done
      exact there
  | remove other =>
      rw [Catalog.command, Catalog.remove, Option.some.injEq, Prod.mk.injEq] at done
      obtain ⟨-, rfl⟩ := done
      cases dropped : c.drop numDirEntries (chars other fileNameMaxLen 0) with
      | none => exact there
      | some c' => exact get_of_drop distinct there dropped keeps
  | test =>
      rw [Catalog.command, Catalog.test, Option.some.injEq] at done
      have first : ((c.put catalogLimits (chars testFile fileNameMaxLen 0) []).getD c).get
          numDirEntries name = some bytes ∧
          Row.Distinct numDirEntries
            ((c.put catalogLimits (chars testFile fileNameMaxLen 0) []).getD c) := by
        cases put : c.put catalogLimits (chars testFile fileNameMaxLen 0) [] with
        | none => exact ⟨there, distinct⟩
        | some c₁ => exact ⟨get_of_put there put, distinct.put put⟩
      split at done
      · cases done
        exact first.1
      · rename_i dropped
        cases done
        exact get_of_drop first.2 first.1 dropped keeps

/-- The state and the catalog after a command that succeeds. -/
theorem Agrees.ok {x : Except Stop (Output × Volume)} {y : Option (Lines × Catalog)} {out : Output}
    (agrees : Agrees x y) (done : x = .ok (out, v)) :
    ∃ c, y = some (seen out, c) ∧ ∃ l, Holds v l c := by
  obtain ⟨out', v', c, same, does, holds⟩ | ⟨⟨e, stops⟩, -⟩ := agrees
  · rw [done, Except.ok.injEq, Prod.mk.injEq] at same
    obtain ⟨rfl, rfl⟩ := same
    exact ⟨c, does, holds⟩
  · rw [done] at stops
    cases stops

/-- A file stays on the disk, by induction on the commands. -/
theorem Holds.commands_keep (holds : Holds v l c) (there : c.get numDirEntries name = some bytes)
    {ks : List (Command × (Nat → Memory))} (keeps : ∀ k ∈ ks, k.1.Keeps name) {out : Output}
    {w : Volume} (done : v.commands ks = .ok (out, w)) :
    ∃ c' l', Holds w l' c' ∧ c'.get numDirEntries name = some bytes := by
  induction ks generalizing v l c out with
  | nil =>
      cases done
      exact ⟨c, l, holds, there⟩
  | cons k rest ih =>
      obtain ⟨k, mem⟩ := k
      obtain ⟨⟨first, v₁⟩, ran, done⟩ := bind_eq_ok.mp done
      obtain ⟨⟨more, v₂⟩, ran₂, last⟩ := bind_eq_ok.mp done
      cases last
      obtain ⟨c₁, does, l₁, holds₁⟩ := (holds.command mem k).ok ran
      have there₁ := Catalog.command_keeps holds.distinct there (keeps _ List.mem_cons_self) does
      exact ih holds₁ there₁ (fun k member => keeps k (List.mem_cons_of_mem _ member)) ran₂

end Keeps

/-- **What `Copy` brings to the disk is what `Print` prints**, whatever commands came before, and
whatever commands come between, in this run of `nachos` or in later ones, but for `-f`, `-r` of
that name and `-t` of its own file, as long as none of them stops. -/
theorem copied_prints (d : Disk) (fresh : Nat → Nat → Byte) : ∃ v, formatted d fresh = .ok v ∧
    ∀ before between (mem mem' : Nat → Memory) source
      (file : UnixFile) target name out₁ v₁ v₂ out₃ v₃,
      v.commands before = .ok (out₁, v₁) →
        v₁.command mem (.copy source (some file) target) = .ok ([], v₂) →
      v₂.commands between = .ok (out₃, v₃) →
      (∀ k ∈ between, k.1.Keeps (chars target fileNameMaxLen 0)) →
      chars name fileNameMaxLen 0 = chars target fileNameMaxLen 0 →
        v₃.command mem' (.print name) = .ok (file.val.map .byte, v₃) := by
  obtain ⟨v, made, holds⟩ := formatted_holds d fresh
  refine ⟨v, made,
    fun before between mem mem' source file target name out₁ v₁ v₂ out₃ v₃ ran copied ran'
    keeps same => ?_⟩
  obtain ⟨c₁, -, l₁, holds₁⟩ := (holds.commands before).ok ran
  obtain ⟨c₂, does, l₂, holds₂⟩ := (holds₁.command mem _).ok copied
  have there : c₂.get numDirEntries (chars target fileNameMaxLen 0) = some file.val := by
    rw [Catalog.command, Catalog.copy] at does
    split at does
    · cases does
    · rename_i put
      split at does
      · cases does
        have get := Row.get_put put (chars target fileNameMaxLen 0)
        rwa [if_pos rfl] at get
      · cases does
  obtain ⟨c₃, l₃, holds₃, there₃⟩ := holds₂.commands_keep there keeps ran'
  obtain ⟨missing, -⟩ | ⟨bytes, found, printed⟩ := holds₃.print name (mem' 0)
  · rw [same, there₃] at missing
    cases missing
  · rw [same, there₃, Option.some.injEq] at found
    rw [Volume.command, printed, found]
    rfl

/-- Three bytes, printed by the next run of `nachos`. -/
theorem copied_prints_three : ∃ v v₂ v₃, formatted (fun _ _ => 0) (fun _ _ => 0) = .ok v ∧
    v.command (fun _ _ _ _ => 0) (.copy (letter 98) (some ⟨[10, 11, 12], by decide⟩) (letter 97)) =
      .ok ([], v₂) ∧
    v₂.commands [(.nachos false, fun _ _ _ _ => 0)] = .ok ([], v₃) ∧
    v₃.command (fun _ _ _ _ => 0) (.print (letter 97)) =
      .ok ([.byte 10, .byte 11, .byte 12], v₃) := by
  obtain ⟨v, made, prints⟩ := copied_prints (fun _ _ => 0) fun _ _ => 0
  obtain ⟨v', made', holds⟩ := formatted_holds (fun _ _ => 0) fun _ _ => 0
  obtain rfl : v = v' := Except.ok.inj (made.symm.trans made')
  obtain ⟨out, v₂, c₂, copied, does, l₂, holds₂⟩ | ⟨-, none⟩ := holds.copy (letter 98)
    (some ⟨[10, 11, 12], by decide⟩) (letter 97) fun _ _ _ => 0
  · obtain rfl : out = [] := by
      have short : seen out = [] := by
        have prints : some ([], _) = some (seen out, c₂) := does
        exact (Prod.mk.inj (Option.some.inj prints)).1.symm
      exact List.map_eq_nil_iff.mp short
    obtain ⟨v₃, mounted, -, -⟩ := holds₂.represents.remount
    have ran : v₂.commands [(.nachos false, fun _ _ _ _ => 0)] = .ok ([], v₃) := by
      rw [Volume.commands, Volume.command, if_neg (by decide), mounted]
      rfl
    refine ⟨v, v₂, v₃, made, copied, ran, ?_⟩
    refine prints [] [(.nachos false, fun _ _ _ _ => 0)] (fun _ _ _ _ => 0)
      (fun _ _ _ _ => 0) (letter 98)
      ⟨[10, 11, 12], by decide⟩ (letter 97) (letter 97) [] v v₂ [] v₃ rfl copied ran ?_ rfl
    intro k member
    obtain rfl := List.mem_singleton.mp member
    exact rfl
  · cases none

end Nachos.Disk
