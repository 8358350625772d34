/-
# Nachos.FileSys.Crash -- `Create` and `Remove` that are cut short

The source says of itself that the disk may be corrupt if Nachos exits in the middle of an
operation.  Here that is made exact: a call has the list of its sector writes (`createLog`,
`removeLog`), the system stops after the first `k` of them, and `FileSystem(FALSE)` opens the
disk again.

`create_crash` and `remove_crash` are about every name, on every disk that calls can lead to:
all files but the one of the call read back as before, and that one is there as a whole or not
at all.  The one exception is entry 6 of the directory, which lies in two sectors: between the
two writes the new file has the name that the entry had before.  `Table.Placed` says why that
name never hides a file that exists: `Add` takes the first entry that is free.
-/
import Nachos.FileSys.Interrupted
import Nachos.FileSys.Stale

namespace Nachos.Disk

open Nachos.Lib.Bytes
open Nachos.Lib.Run
open Nachos.Lib.Writes

set_option autoImplicit false

/-! ## Names of free entries -/

namespace Table

/-- No file behind a free entry has the name that is left in it. -/
def Placed (t : Table) : Prop :=
  ∀ i j, i < j → j < numDirEntries → t.entry i = none → ∀ e, t.entry j = some e → e.1 ≠ t.key i

variable {t t' : Table} {name : Nat → Byte} {i : Nat} {s : Int}

theorem Placed.congr (placed : t.Placed)
    (same : ∀ j < numDirEntries, t'.entry j = t.entry j ∧ t'.key j = t.key j) :
    t'.Placed := by
  intro i j below inside free e there
  rw [(same i (by omega)).1] at free
  rw [(same j inside).1] at there
  rw [(same i (by omega)).2]
  exact placed i j below inside free e there

/-- A new file goes to the first free entry: there is none before it. -/
theorem Placed.set (placed : t.Placed) (first : ∀ j < i, t.entry j ≠ none)
    (range : -2 ^ 31 ≤ s ∧ s < 2 ^ 31) :
    (t.set i name s).Placed := by
  intro j k below inside free e there
  have here : j ≠ i := by
    rintro rfl
    rw [entry_set_self range] at free
    cases free
  rw [entry_set_other here] at free
  rw [key_set_other here]
  by_cases last : k = i
  · exact absurd free (first j (last ▸ below))
  · rw [entry_set_other last] at there
    exact placed j k below inside free e there

/-- The name that `Remove` leaves in an entry is no other file's. -/
theorem Placed.clear (placed : t.Placed) {e : List Byte × Int} (there : t.entry i = some e)
    (unique : ∀ j < numDirEntries, j ≠ i → ∀ g, t.entry j = some g → g.1 ≠ e.1) :
    Placed (splice t (entrySize * i) [0]) := by
  intro j k below inside free g other
  rw [key_clear]
  have last : k ≠ i := by
    rintro rfl
    rw [entry_clear_self] at other
    cases other
  rw [entry_clear_other last] at other
  by_cases here : j = i
  · rw [here, key_of_entry there]
    exact unique k inside last g other
  · rw [entry_clear_other here] at free
    exact placed j k below inside free g other

end Table

section Runs

variable {v v' : Volume} {l : Layout} {c : Call} {r : Result}

theorem Creating.final_bytes {fs : FileSystem} {d : Disk} {name : Nat → Byte} {size : Int}
    {ws : List SectorWrite} {i : Nat} {f : File} (creating : Creating fs d l name size ws i f) :
    ∀ q < directoryFileSize,
      contents (putAll d ws) [3, 4] q = Table.set (contents d [3, 4]) i name f.header q := by
  have bytes := creating.bytes 4
  obtain ⟨header, dir, map, rfl, -⟩ := creating.writes
  rw [if_pos (by decide), if_pos (by decide), Table.torn_self] at bytes
  exact bytes

theorem Removing.final_bytes {fs : FileSystem} {d : Disk} {name : Nat → Byte}
    {ws : List SectorWrite} {i : Nat} {f : File} (removing : Removing fs d l name ws i f) :
    ∀ q < directoryFileSize,
      contents (putAll d ws) [3, 4] q = splice (contents d [3, 4]) (entrySize * i) [0] q := by
  have bytes := removing.bytes 3
  obtain ⟨map, dir, rfl, -⟩ := removing.writes
  rw [if_pos (by decide), if_pos (by decide), Table.torn_self] at bytes
  exact bytes

theorem map_eq_ok {α β : Type} {x : Except Stop α} {f : α → β} {b : β} (done : x.map f = .ok b) :
    ∃ a, x = .ok a ∧ f a = b := by
  cases x with
  | error e => cases done
  | ok a => exact ⟨a, rfl, Except.ok.inj done⟩

theorem createLog_of_create {fs : FileSystem} {d d' : Disk} {name : Nat → Byte} {size : Int}
    {fresh : Nat → Nat → Byte}
    {success : Bool} (created : fs.create d name size fresh = .ok (success, d')) :
    ∃ ws, fs.createLog d name size fresh = .ok (success, ws) ∧ putAll d ws = d' := by
  rw [create_log] at created
  obtain ⟨⟨success', ws⟩, log, same⟩ := map_eq_ok created
  cases same
  exact ⟨ws, log, rfl⟩

theorem removeLog_of_remove {fs : FileSystem} {d d' : Disk} {name : Nat → Byte}
    {fresh : Nat → Nat → Byte}
    {success : Bool} (removed : fs.remove d name fresh = .ok (success, d')) :
    ∃ ws, fs.removeLog d name fresh = .ok (success, ws) ∧ putAll d ws = d' := by
  rw [remove_log] at removed
  obtain ⟨⟨success', ws⟩, log, same⟩ := map_eq_ok removed
  cases same
  exact ⟨ws, log, rfl⟩

/-- A write in range leaves the metadata alone. -/
theorem Sound.untouched (sound : Sound v l) {h : Handle} {bytes file : Nat} {sectors : List Nat}
    {n p : Word}
    {source garbage : Nat → Byte} (held : v.handles[file]? = some h)
    (ok : HandleOk l h bytes sectors)
    (range : InRange h.hdr n.toInt p.toInt)
    (harmless : Harmless v l (.writeAt file source n p garbage)) :
    ∀ s ∈ touched sectors p.toInt.toNat (transferred bytes n.toInt p.toInt), 5 ≤ s := by
  intro s member
  cases live : h.live with
  | true =>
      obtain ⟨i, f, inside, there, -, -, data⟩ := ok.listed live
      have mine : s ∈ f.sectors := data ▸ ok.describes.touched_request range member
      exact ((sound.represents.apart inside there).2 s (List.mem_cons_of_mem _ mine)).1
  | false =>
      have unused := harmless h bytes sectors held live ok s member
      by_contra small
      exact unused (Layout.mem_used.mpr (.inl (by omega)))

/-- Every call keeps `Placed`. -/
theorem Sound.placed (sound : Sound v l) (placed : Table.Placed (contents v.disk [3, 4]))
    (harmless : Harmless v l c)
    (done : v.call c = .ok (r, v')) :
    ∃ l', Sound v' l' ∧ Table.Placed (contents v'.disk [3, 4]) := by
  obtain ⟨e, stops, -⟩ | ⟨r', w, l', done', does, keeps⟩ := sound.call c
  · rw [done] at stops
    cases stops
  rw [done, Except.ok.injEq, Prod.mk.injEq] at done'
  obtain ⟨rfl, rfl⟩ := done'
  refine ⟨l', keeps harmless, ?_⟩
  have rep := sound.represents
  cases does with
  | refused | absent | missed | opened | read => exact placed
  | @created name size fresh i f d =>
      obtain ⟨⟨success, d'⟩, created, last⟩ := bind_eq_ok.mp done
      cases last
      obtain ⟨ws, log, rfl⟩ := createLog_of_create created
      obtain ⟨low, high⟩ := word_bounds size
      obtain ⟨j, g, creating⟩ := rep.creating low high log
      have kept : (Table.set (contents v.disk [3, 4]) j name g.header).Placed →
          Table.Placed (contents (putAll v.disk ws) [3, 4]) :=
        fun placed => placed.congr (directoryFileSize_entries creating.final_bytes)
      refine kept (placed.set (fun k below free => ?_) creating.range)
      rw [rep.entries k (Nat.lt_trans below creating.added.inside), Option.map_eq_none_iff] at free
      exact creating.first k below free
  | @removed name fresh i f d =>
      obtain ⟨⟨success, d'⟩, removed, last⟩ := bind_eq_ok.mp done
      cases success <;> cases last
      obtain ⟨ws, log, rfl⟩ := removeLog_of_remove removed
      obtain ⟨j, g, removing⟩ := rep.removing log
      have entry := rep.entries j removing.inside
      rw [removing.there] at entry
      refine (placed.clear entry fun k inside other e there => ?_).congr
        (directoryFileSize_entries removing.final_bytes)
      rw [rep.entries k inside] at there
      obtain ⟨g', here, rfl⟩ := Option.map_eq_some_iff.mp there
      exact fun same => other (rep.names k inside j removing.inside g' g here removing.there same)
  | wrote held ok range spliced kept =>
      have high := sound.untouched held ok range harmless
      refine placed.congr
        (directoryFileSize_entries fun q small => contents_congr ?_ fun s member =>
        kept s fun mine => ?_)
      · simp only [directoryFileSize, entrySize, numDirEntries, sectorSize, List.length_cons,
          List.length_nil] at *
        omega
      · have := high s mine
        simp at member
        omega

/-- **Every disk that calls lead to** represents a layout, and is `Placed`. -/
theorem Sound.placed_runs {w : Volume} {calls : List Call} (sound : Sound v l)
    (placed : Table.Placed (contents v.disk [3, 4]))
    (unmarked : AllSteps Volume.step Unmarked v calls) (run : exec Volume.step v calls = some w) :
    ∃ l', Sound w l' ∧ Table.Placed (contents w.disk [3, 4]) := by
  refine exec_invariant (I := fun w => ∃ l', Sound w l' ∧ Table.Placed (contents w.disk [3, 4])) ?_
    ⟨l, sound, placed⟩
    unmarked run
  rintro s c s' ⟨l', sound, placed⟩ unmarked moved
  obtain ⟨r, done⟩ := Volume.step_eq_some.mp moved
  exact sound.placed placed (unmarked.harmless sound) done

end Runs

/-! ## Every name after a restart -/

/-- The names under which the new file is there after the first `k` writes of a `Create` that takes
entry `i`. -/
def Shown (t : Table) (name : List Byte) (i k : Nat) (other : List Byte) : Prop :=
  (2 < k ∨ k = 2 ∧ i < 6) ∧ other = name ∨
    k = 2 ∧ i = 6 ∧ other = t.key 6 ∧ ∀ j < numDirEntries, ∀ s, t.entry j ≠ some (other, s)

/-- After the first `k` writes of a `Remove` that frees entry `i` the file is not there. -/
def Hidden (i k : Nat) : Prop := 2 < k ∨ k = 2 ∧ i ≤ 6

section Restart

variable {v w : Volume} {l : Layout} {name other : Nat → Byte} {fresh fresh' : Nat → Nat → Byte}
  {ws : List SectorWrite} {size : Int} {i k : Nat} {f : File}

/-- A name is read back from a disk that lists the same first file of it, with the same bytes. -/
theorem Represents.readBack_same (rep : Represents v.fs v.disk l) {l' : Layout}
    (lists : Lists w.fs w.disk l')
    (absent : Unnamed l' (chars other fileNameMaxLen 0) → Unnamed l (chars other fileNameMaxLen 0))
    (here : ∀ j g, First l' (chars other fileNameMaxLen 0) j g → l j = some g ∧
      fileBytes w.disk g = fileBytes v.disk g) :
    Disk.readBack w other fresh = Disk.readBack v other fresh' := by
  obtain ⟨missing, unnamed⟩ | ⟨j, g, first, found⟩ := lists.readBack other fresh
  · obtain ⟨missing', -⟩ | ⟨j', g', first', -⟩ := rep.lists.readBack (v := v) other fresh'
    · rw [missing, missing']
    · exact absurd first'.named (absent unnamed j' first'.inside g' first'.there)
  · obtain ⟨there, bytes⟩ := here j g first
    obtain ⟨-, unnamed⟩ | ⟨j', g', first', found'⟩ := rep.lists.readBack (v := v) other fresh'
    · exact absurd first.named (unnamed j first.inside g there)
    · obtain rfl := rep.names j first.inside j' first'.inside g g' there first'.there
        (first.named.trans first'.named.symm)
      obtain rfl : g = g' := Option.some.inj (there.symm.trans first'.there)
      rw [found, found', bytes]

theorem Creating.mounted (rep : Represents v.fs v.disk l)
    (creating : Creating v.fs v.disk l name size ws i f) (k : Nat) :
    ∃ w, Disk.mounted (putAll v.disk (ws.take k)) = .ok w ∧ w.disk = putAll v.disk (ws.take k) ∧
      Describes w.fs.freeMapFile freeMapFileSize [2] ∧
      Lists w.fs w.disk
        (Function.update l i (createdEntry i f (Table.key (contents v.disk [3, 4]) i) k)) := by
  obtain ⟨zero, one⟩ := creating.system k
  exact (creating.lists rep k).mounted (zero ▸ rep.mapHeader) (one ▸ rep.dirHeader)

/-- The bytes of the new file are the same from the start: its data is not written. -/
theorem Creating.new_bytes (creating : Creating v.fs v.disk l name size ws i f) (k : Nat) :
    fileBytes (putAll v.disk (ws.take k)) f = fileBytes v.disk f := by
  have there : Function.update l i (some f) i = some f := Function.update_self ..
  have distinct := (creating.final.apart creating.added.inside there).1
  rw [own, List.nodup_cons] at distinct
  have length := (creating.final.headers i creating.added.inside f there).size
  refine block_congr fun q small => contents_congr ?_ fun s member => creating.kept k ?_
  · rw [length]
    simp only [sectorSize]
    omega
  · have unused := creating.added.unused s (List.mem_cons_of_mem _ member)
    have high : 5 ≤ s := by
      by_contra small
      exact unused (Layout.mem_used.mpr (.inl (by omega)))
    have differ : s ≠ f.header := fun same => distinct.1 (same ▸ member)
    simp
    omega

/-- The other files keep their bytes. -/
theorem Creating.old_bytes (rep : Represents v.fs v.disk l)
    (creating : Creating v.fs v.disk l name size ws i f) (k : Nat)
    {j : Nat} {g : File} (inside : j < numDirEntries) (there : l j = some g) :
    fileBytes (putAll v.disk (ws.take k)) g = fileBytes v.disk g := by
  refine rep.fileBytes_other inside there fun s high member => creating.kept k ?_
  have differ : s ≠ f.header := fun same =>
    creating.added.unused f.header List.mem_cons_self (same ▸ rep.data_used inside there member)
  simp
  omega

/-- The new file is shown. -/
theorem Creating.shown (rep : Represents v.fs v.disk l)
    (creating : Creating v.fs v.disk l name size ws i f)
    (lists : Lists w.fs w.disk
      (Function.update l i (createdEntry i f (Table.key (contents v.disk [3, 4]) i) k)))
    (disk : w.disk = putAll v.disk (ws.take k))
    (shown : Shown (contents v.disk [3, 4]) (chars name fileNameMaxLen 0) i k
      (chars other fileNameMaxLen 0)) :
    readBack w other fresh = .ok (some (fileBytes v.disk f)) := by
  have others : ∀ j < numDirEntries, ∀ g, l j = some g → g.name ≠ chars other fileNameMaxLen 0 := by
    intro j inside g there
    obtain ⟨-, same⟩ | ⟨-, -, -, absent⟩ := shown
    · rw [same, ← creating.named]
      exact creating.added.unnamed j inside g there
    · intro named
      refine absent j inside g.header ?_
      rw [rep.entries j inside, there, Option.map_some, named]
  obtain ⟨g, entry, named, length, sectors⟩ : ∃ g,
      createdEntry i f (Table.key (contents v.disk [3, 4]) i) k = some g ∧
      g.name = chars other fileNameMaxLen 0 ∧ g.length = f.length ∧ g.sectors = f.sectors := by
    obtain ⟨late, same⟩ | ⟨rfl, rfl, old, -⟩ := shown
    · refine ⟨f, ?_, creating.named.trans same.symm, rfl, rfl⟩
      rw [createdEntry, if_neg (by omega), if_neg (by omega)]
    · exact ⟨{ f with name := Table.key (contents v.disk [3, 4]) 6 }, rfl, old.symm, rfl, rfl⟩
  have bytes : fileBytes w.disk g = fileBytes v.disk f := by
    rw [disk, ← creating.new_bytes k, fileBytes, fileBytes, length, sectors]
  obtain ⟨-, unnamed⟩ | ⟨j, g', first, found⟩ := lists.readBack other fresh
  · refine absurd named (unnamed i creating.added.inside g ?_)
    rw [Function.update_self, entry]
  · have there := first.there
    by_cases here : j = i
    · rw [here, Function.update_self, entry, Option.some.injEq] at there
      rw [found, ← there, bytes]
    · rw [Function.update_of_ne here] at there
      exact absurd first.named (others j first.inside g' there)

/-- Every other name is read back as before. -/
theorem Creating.not_shown (rep : Represents v.fs v.disk l)
    (placed : Table.Placed (contents v.disk [3, 4]))
    (creating : Creating v.fs v.disk l name size ws i f)
    (lists : Lists w.fs w.disk
      (Function.update l i (createdEntry i f (Table.key (contents v.disk [3, 4]) i) k)))
    (disk : w.disk = putAll v.disk (ws.take k))
    (other_ : ¬ Shown (contents v.disk [3, 4]) (chars name fileNameMaxLen 0) i k
      (chars other fileNameMaxLen 0)) :
    readBack w other fresh = readBack v other fresh' := by
  have old : ∀ {j : Nat} {g : File}, l j = some g → j ≠ i := by
    rintro j g there rfl
    rw [creating.added.empty] at there
    cases there
  refine rep.readBack_same lists (fun unnamed j inside g there => unnamed j inside g ?_)
    fun j g first => ?_
  · rw [Function.update_of_ne (old there), there]
  have there := first.there
  by_cases here : j = i
  · exfalso
    rw [here, Function.update_self, createdEntry] at there
    split_ifs at there with early torn
    · -- the name is the one that was left in entry 6; a file that has it is before that entry
      obtain ⟨rfl, rfl⟩ := torn
      cases there
      refine other_ (.inr ⟨rfl, rfl, first.named.symm, fun m inside s entry => ?_⟩)
      have free : Table.entry (contents v.disk [3, 4]) 6 = none := by
        rw [rep.entries 6 (by decide), creating.added.empty, Option.map_none]
      obtain below | rfl | above : m < 6 ∨ m = 6 ∨ 6 < m := by omega
      · rw [rep.entries m inside] at entry
        obtain ⟨g, here', same⟩ := Option.map_eq_some_iff.mp entry
        rw [Prod.mk.injEq] at same
        refine first.first m (here ▸ below) g ?_ same.1
        rw [Function.update_of_ne (old here'), here']
      · rw [free] at entry
        cases entry
      · exact placed 6 m above inside free _ entry first.named.symm
    · cases there
      refine other_ (.inl ⟨by omega, ?_⟩)
      rw [← creating.named, ← first.named]
  · rw [Function.update_of_ne here] at there
    exact ⟨there, disk ▸ creating.old_bytes rep k first.inside there⟩

theorem Removing.mounted (rep : Represents v.fs v.disk l)
    (removing : Removing v.fs v.disk l name ws i f) (k : Nat) :
    ∃ w, Disk.mounted (putAll v.disk (ws.take k)) = .ok w ∧ w.disk = putAll v.disk (ws.take k) ∧
      Lists w.fs w.disk (Function.update l i (removedEntry i f k)) := by
  have zero : putAll v.disk (ws.take k) freeMapSector = v.disk freeMapSector :=
    removing.kept k (by decide)
  have one : putAll v.disk (ws.take k) directorySector = v.disk directorySector :=
    removing.kept k (by decide)
  obtain ⟨w, done, disk, -, lists⟩ := (removing.lists rep k).mounted (zero ▸ rep.mapHeader)
    (one ▸ rep.dirHeader)
  exact ⟨w, done, disk, lists⟩

/-- The file is there as before, or it is not there. -/
theorem Removing.readBack (rep : Represents v.fs v.disk l)
    (removing : Removing v.fs v.disk l name ws i f)
    (lists : Lists w.fs w.disk (Function.update l i (removedEntry i f k)))
    (disk : w.disk = putAll v.disk (ws.take k)) :
    (Hidden i k ∧ chars other fileNameMaxLen 0 = chars name fileNameMaxLen 0 →
        Disk.readBack w other fresh = .ok none) ∧
      (¬ (Hidden i k ∧ chars other fileNameMaxLen 0 = chars name fileNameMaxLen 0) →
        Disk.readBack w other fresh = Disk.readBack v other fresh') := by
  have there : ∀ {j : Nat} {g : File}, Function.update l i (removedEntry i f k) j = some g →
      l j = some g := by
    intro j g here
    by_cases same : j = i
    · rw [same, Function.update_self, removedEntry] at here
      split_ifs at here
      rw [same, removing.there, ← here]
    · rwa [Function.update_of_ne same] at here
  refine ⟨fun hidden => ?_, fun visible => ?_⟩
  · obtain ⟨missing, -⟩ | ⟨j, g, first, -⟩ := lists.readBack other fresh
    · exact missing
    · have named : g.name = f.name := first.named.trans (hidden.2.trans removing.named.symm)
      obtain rfl := rep.names j first.inside i removing.inside g f
        (there first.there) removing.there named
      have here := first.there
      obtain ⟨late, -⟩ := hidden
      rw [Hidden] at late
      rw [Function.update_self, removedEntry, if_neg (by omega)] at here
      cases here
  · refine rep.readBack_same lists (fun unnamed j inside g here => ?_) fun j g first => ?_
    · by_cases same : j = i
      · rw [same, removing.there, Option.some.injEq] at here
        rw [← here, removing.named]
        intro named
        have early : k ≤ 1 ∨ k = 2 ∧ 6 < i := by
          have shown : ¬ Hidden i k := fun hidden => visible ⟨hidden, named.symm⟩
          rw [Hidden] at shown
          omega
        refine unnamed i removing.inside f ?_ (removing.named.trans named)
        rw [Function.update_self, removedEntry, if_pos early]
      · exact unnamed j inside g (by rw [Function.update_of_ne same, here])
    · have here := there first.there
      refine ⟨here, disk ▸ rep.fileBytes_other first.inside here fun s high _ => removing.kept k ?_⟩
      simp
      omega

theorem Creating.firstFree (rep : Represents v.fs v.disk l)
    (creating : Creating v.fs v.disk l name size ws i f) :
    FirstFree (directoryOn v.disk) i := by
  rw [rep.directoryOn]
  refine ⟨creating.added.inside, ?_, fun j below free => ?_⟩
  · rw [rep.entries i creating.added.inside, creating.added.empty, Option.map_none]
  · rw [rep.entries j (Nat.lt_trans below creating.added.inside), Option.map_eq_none_iff] at free
    exact creating.first j below free

theorem Removing.index (rep : Represents v.fs v.disk l)
    (removing : Removing v.fs v.disk l name ws i f) :
    (directoryOn v.disk).findIndex name = i := by
  obtain ⟨-, -, unnamed⟩ | ⟨j, g, inside, there, named, -, index⟩ :=
    Layout.find_cases rep.entriesOn name
  · exact absurd removing.named (unnamed i removing.inside f removing.there)
  · rw [index, rep.names i removing.inside j inside f g removing.there there
      (removing.named.trans named.symm)]

end Restart

/-- The disks that calls lead to from a formatted one. -/
theorem formatted_runs (d : Disk) (fresh : Nat → Nat → Byte) : ∃ v, formatted d fresh = .ok v ∧
    ∀ calls w, AllSteps Volume.step Unmarked v calls → exec Volume.step v calls = some w →
      ∃ l, Sound w l ∧ Table.Placed (contents w.disk [3, 4]) := by
  obtain ⟨v, done, sound, -, -⟩ := formatted_sound d fresh
  refine ⟨v, done, fun calls w unmarked run => sound.placed_runs ?_ unmarked run⟩
  intro i j _ inside _ e there
  rw [sound.represents.entries j inside] at there
  cases there

/-- **A `Create` that is cut short.**  On every disk that calls lead to from a formatted one, after
the first `k` writes of a `Create` and a restart, the new file has its full length or is not
there, and every other name reads back as before. -/
theorem create_crash (d : Disk) (fresh : Nat → Nat → Byte) : ∃ v, formatted d fresh = .ok v ∧
    ∀ calls w, AllSteps Volume.step Unmarked v calls → exec Volume.step v calls = some w →
      ∀ name (size : Word) fresh ws, w.fs.createLog w.disk name size.toInt fresh = .ok (true, ws) →
        ∃ i bytes, FirstFree (directoryOn w.disk) i ∧ bytes.length = size.toInt.toNat ∧
          ∀ k, ∃ w', mounted (putAll w.disk (ws.take k)) = .ok w' ∧ ∀ other fresh fresh',
            (Shown (directoryOn w.disk) (chars name fileNameMaxLen 0) i k
              (chars other fileNameMaxLen 0) →
                readBack w' other fresh = .ok (some bytes)) ∧
              (¬ Shown (directoryOn w.disk) (chars name fileNameMaxLen 0) i k
                (chars other fileNameMaxLen 0) →
                readBack w' other fresh = readBack w other fresh') := by
  obtain ⟨v, done, runs⟩ := formatted_runs d fresh
  refine ⟨v, done, fun calls w unmarked run name size fresh ws log => ?_⟩
  obtain ⟨l, sound, placed⟩ := runs calls w unmarked run
  have rep := sound.represents
  obtain ⟨low, high⟩ := word_bounds size
  obtain ⟨i, f, creating⟩ := rep.creating low high log
  have free := creating.firstFree rep
  rw [rep.directoryOn] at free ⊢
  refine ⟨i, fileBytes w.disk f, free, ?_, fun k => ?_⟩
  · rw [fileBytes, length_block, creating.sized]
  · obtain ⟨w', mounted, disk, -, lists⟩ := creating.mounted rep k
    exact ⟨w', mounted, fun other fresh fresh' =>
      ⟨creating.shown rep lists disk, creating.not_shown rep placed lists disk⟩⟩

/-- The first `Create` on a formatted disk. -/
theorem create_crash_first : ∃ v ws, formatted (fun _ _ => 0) (fun _ _ => 0) = .ok v ∧
    v.fs.createLog v.disk (letter 97) (128 : Word).toInt (fun _ _ => 0) = .ok (true, ws) ∧
    ∃ i bytes, FirstFree (directoryOn v.disk) i ∧ bytes.length = (128 : Word).toInt.toNat ∧
      ∀ k, ∃ w', mounted (putAll v.disk (ws.take k)) = .ok w' ∧ ∀ other fresh fresh',
        (Shown (directoryOn v.disk) (chars (letter 97) fileNameMaxLen 0) i k
          (chars other fileNameMaxLen 0) →
            readBack w' other fresh = .ok (some bytes)) ∧
          (¬ Shown (directoryOn v.disk) (chars (letter 97) fileNameMaxLen 0) i k
            (chars other fileNameMaxLen 0) →
            readBack w' other fresh = readBack v other fresh') := by
  obtain ⟨v, done, all⟩ := create_crash (fun _ _ => 0) fun _ _ => 0
  obtain ⟨v', done', sound, -, -⟩ := formatted_sound (fun _ _ => 0) (fun _ _ => 0)
  obtain rfl : v = v' := Except.ok.inj (done.symm.trans done')
  obtain ⟨d₁, hdr, created, -, -⟩ := sound.first_created
  obtain ⟨ws, log, -⟩ := createLog_of_create created
  exact ⟨v, ws, done, log, all [] v trivial rfl (letter 97) 128 (fun _ _ => 0) ws log⟩

/-- **A `Remove` that is cut short.**  After the first `k` writes and a restart the file reads
back as before or is not there, and every other name reads back as before. -/
theorem remove_crash (d : Disk) (fresh : Nat → Nat → Byte) : ∃ v, formatted d fresh = .ok v ∧
    ∀ calls w, AllSteps Volume.step Unmarked v calls → exec Volume.step v calls = some w →
      ∀ name fresh ws, w.fs.removeLog w.disk name fresh = .ok (true, ws) →
        ∃ i : Nat, (directoryOn w.disk).findIndex name = i ∧
          ∀ k, ∃ w', mounted (putAll w.disk (ws.take k)) = .ok w' ∧ ∀ other fresh fresh',
            (Hidden i k ∧ chars other fileNameMaxLen 0 = chars name fileNameMaxLen 0 →
                readBack w' other fresh = .ok none) ∧
              (¬ (Hidden i k ∧ chars other fileNameMaxLen 0 = chars name fileNameMaxLen 0) →
                readBack w' other fresh = readBack w other fresh') := by
  obtain ⟨v, done, runs⟩ := formatted_runs d fresh
  refine ⟨v, done, fun calls w unmarked run name fresh ws log => ?_⟩
  obtain ⟨l, sound, -⟩ := runs calls w unmarked run
  have rep := sound.represents
  obtain ⟨i, f, removing⟩ := rep.removing log
  refine ⟨i, removing.index rep, fun k => ?_⟩
  obtain ⟨w', mounted, disk, lists⟩ := removing.mounted rep k
  exact ⟨w', mounted, fun other fresh fresh' => removing.readBack rep lists disk⟩

/-- The first file of a formatted disk is created and removed. -/
theorem Sound.first_removed {v : Volume} (sound : Sound v fun _ => none) :
    ∃ w ws, v.step (.create (letter 97) 128 fun _ _ => 0) = some w ∧
      w.fs.removeLog w.disk (letter 97) (fun _ _ => 0) = .ok (true, ws) := by
  obtain ⟨i, d₁, inside, called, sound₁, -⟩ := sound.first_file (letter 97) (fun _ _ => 0) 128 1
    (by decide) (by decide)
  have named : chars (letter 97) fileNameMaxLen 0 = chars (letter 97) fileNameMaxLen 0 := rfl
  obtain ⟨d₂, removed, -, -⟩ := sound₁.represents.removes inside
    (Function.update_self ..) named fun _ _ => 0
  obtain ⟨ws, log, -⟩ := removeLog_of_remove removed
  exact ⟨_, ws, Volume.step_eq_some.mpr ⟨_, called⟩, log⟩

/-- The first file of a disk is removed. -/
theorem remove_crash_first : ∃ v w ws, formatted (fun _ _ => 0) (fun _ _ => 0) = .ok v ∧
    v.step (.create (letter 97) 128 fun _ _ => 0) = some w ∧
    w.fs.removeLog w.disk (letter 97) (fun _ _ => 0) = .ok (true, ws) ∧
    ∃ i : Nat, (directoryOn w.disk).findIndex (letter 97) = i ∧
      ∀ k, ∃ w', mounted (putAll w.disk (ws.take k)) = .ok w' ∧ ∀ other fresh fresh',
        (Hidden i k ∧ chars other fileNameMaxLen 0 = chars (letter 97) fileNameMaxLen 0 →
            readBack w' other fresh = .ok none) ∧
          (¬ (Hidden i k ∧ chars other fileNameMaxLen 0 = chars (letter 97) fileNameMaxLen 0) →
            readBack w' other fresh = readBack w other fresh') := by
  obtain ⟨v, done, all⟩ := remove_crash (fun _ _ => 0) fun _ _ => 0
  obtain ⟨v', done', sound, -, -⟩ := formatted_sound (fun _ _ => 0) (fun _ _ => 0)
  obtain rfl : v = v' := Except.ok.inj (done.symm.trans done')
  obtain ⟨w, ws, moved, log⟩ := sound.first_removed
  refine ⟨v, w, ws, done, moved, log, all [.create (letter 97) 128 fun _ _ => 0] w
    ⟨trivial, fun _ _ => trivial⟩ ?_
    (letter 97) (fun _ _ => 0) ws log⟩
  rw [exec_cons, moved]
  rfl

end Nachos.Disk
