/-
# Nachos.FileSys.Creation -- `Create` for every size, and `Remove` after it

`Create` changes its copies of the free map and of the directory before it knows whether there is
room for the data, and writes nothing back if there is not.  What it should refuse is said here in
terms of the disk alone: `Lacks` is a name in use, a full directory or too few free sectors.  The
one check that is missing is that of the size: a large file is given more sectors than its header
has room for, and a negative size makes a file of negative length.

* `create_exact`: `Create` does all or nothing exactly on the sizes that a header can have, and
  where it finds another reason to refuse.
* `remove_undoes_create`: `Create`, any writes to the new file in range, and `Remove` leave the disk
  as it was, but for sectors that are free again.
-/
import Nachos.FileSys.FileMap

namespace Nachos.Disk

open Nachos.Lib.Bytes

set_option autoImplicit false

/-- The number of sectors that the free map on the disk has as free. -/
def freeOn (d : Disk) : Nat := (List.range numSectors).countP fun j => !bitOf (freeMapOn d) j

/-- A file of this name and size has no place: its name is in the directory, no entry of the
directory is free, or there are too few sectors for the header and the data. -/
def Lacks (d : Disk) (name : Nat → Byte) (size : Int) : Prop :=
  (∃ i < numDirEntries, ∃ s, (directoryOn d).entry i = some (chars name fileNameMaxLen 0, s)) ∨
    (∀ i < numDirEntries, (directoryOn d).entry i ≠ none) ∨
    freeOn d < 1 + (divRoundUp size sectorSize).toNat

/-- What `Create` should refuse. -/
def ShouldRefuse (d : Disk) (name : Nat → Byte) (size : Int) : Prop :=
  size < 0 ∨ maxFileSize < size ∨ Lacks d name size

/-- `Create` refuses what it should and changes nothing, or it makes a file that can be opened, has
that length, and lies in sectors that were free. -/
def AllOrNothing (fs : FileSystem) (d : Disk) (name : Nat → Byte) (size : Int)
    (fresh : Nat → Nat → Byte) : Prop :=
  (fs.create d name size fresh = .ok (false, d) ∧ ShouldRefuse d name size) ∨
    ∃ d', fs.create d name size fresh = .ok (true, d') ∧ ¬ ShouldRefuse d name size ∧
      ∀ fresh', ∃ hdr, fs.open d' name fresh' = .ok (some hdr) ∧ hdr.fileLength = size ∧
        ∀ p : Nat, (p : Int) < size →
          ∃ s : Nat, hdr.byteToSector p = .ok (s : Int) ∧ s < numSectors ∧
          bitOf (freeMapOn d) s = false

section Create

variable {fs : FileSystem} {d d' : Disk} {l : Layout} {f : File} {i : Nat} {name : Nat → Byte}
  {size : Int}

theorem Represents.isFree (rep : Represents fs d l) {s : Nat} (bound : s < numSectors) :
    bitOf (Disk.freeMapOn d) s = false ↔ s ∉ l.used := by
  rw [rep.freeMapOn, rep.marks s bound, decide_eq_false_iff_not]

theorem Represents.entriesOn (rep : Represents fs d l) :
    ∀ i < numDirEntries, (Disk.directoryOn d).entry i = (l i).map fun f =>
      (f.name, (f.header : Int)) := by
  rw [rep.directoryOn]
  exact rep.entries

/-- The free sectors, counted on the disk. -/
theorem Represents.freeOn_le (rep : Represents fs d l) {n : Nat} :
    freeOn d ≤ n ↔ ∀ free : List Nat, free.Nodup → (∀ s ∈ free, s < numSectors ∧ s ∉ l.used) →
    free.length ≤ n := by
  have count : freeOn d =
      ((List.range numSectors).filter fun j => !bitOf (Disk.freeMapOn d) j).length :=
    List.countP_eq_length_filter
  constructor
  · intro few free distinct unused
    have covered : free ⊆ (List.range numSectors).filter fun j => !bitOf (Disk.freeMapOn d) j := by
      intro s member
      obtain ⟨bound, other⟩ := unused s member
      rw [List.mem_filter, List.mem_range, (rep.isFree bound).mpr other]
      exact ⟨bound, rfl⟩
    have fewer := (distinct.subperm covered).length_le
    omega
  · intro most
    rw [count]
    refine most _ (List.nodup_range.filter _) fun s member => ?_
    obtain ⟨inside, clear⟩ := List.mem_filter.mp member
    have bound := List.mem_range.mp inside
    exact ⟨bound, (rep.isFree bound).mp (by simpa using clear)⟩

/-- The reasons of `Create`, read off the disk. -/
theorem Represents.lacks_iff (rep : Represents fs d l) (low : -maxInt - 1 ≤ size)
    (high : size ≤ maxInt) :
    Lacks d name size ↔ Refused l (chars name fileNameMaxLen 0) size := by
  have entries := rep.entriesOn
  refine or_congr ?_ (or_congr ?_ ?_)
  · constructor
    · rintro ⟨i, inside, s, entry⟩
      rw [entries i inside] at entry
      obtain ⟨f, there, same⟩ := Option.map_eq_some_iff.mp entry
      exact ⟨i, inside, f, there, (Prod.mk.inj same).1⟩
    · rintro ⟨i, inside, f, there, named⟩
      refine ⟨i, inside, f.header, ?_⟩
      rw [entries i inside, there, Option.map_some, named]
  · refine forall_congr' fun i => forall_congr' fun inside => not_congr ?_
    rw [entries i inside, Option.map_eq_none_iff]
  · rw [(divRoundUp_bounds low high).2.2, Nat.lt_one_add_iff]
    exact rep.freeOn_le

theorem Represents.own_bound (rep : Represents fs d l) (inside : i < numDirEntries)
    (there : l i = some f) {s : Nat} (member : s ∈ own (some f)) : s < numSectors := by
  refine rep.bound s (Layout.mem_used.mpr (.inr ⟨i, inside, ?_⟩))
  rw [there]
  exact member

/-- A file that `Create` has made had a place. -/
theorem Added.not_refused (added : Added l i f)
    (rep : Represents fs d (Function.update l i (some f)))
    (sized : f.length = size.toNat) : ¬ Refused l f.name size := by
  have there : Function.update l i (some f) i = some f := Function.update_self ..
  rintro (⟨j, inside, g, there, named⟩ | full | few)
  · exact added.unnamed j inside g there named
  · exact full i added.inside added.empty
  · have room := few (own (some f)) (added.sorted.imp Nat.ne_of_lt) fun s member =>
      ⟨rep.own_bound added.inside there member, added.unused s member⟩
    have length := (rep.headers i added.inside f there).size
    rw [own, List.length_cons, length, sized] at room
    omega

/-- Every byte of a file is in one of its sectors. -/
theorem Describes.byteToSector_lt {h : FileHeader} {bytes : Nat} {sectors : List Nat}
    (describes : Describes h bytes sectors) {p : Nat} (inside : p < bytes) :
    ∃ s ∈ sectors, h.byteToSector p = .ok (s : Int) := by
  have size := describes.size
  have there : p / 128 < sectors.length := by omega
  have same : h.byteToSector p = h.byteToSector (((p / 128 : Nat) : Int) * sectorSize) := by
    have sector : (p : Int).tdiv sectorSize = ((p / 128 : Nat) : Int) := rfl
    have again : (((p / 128 : Nat) : Int) * sectorSize).tdiv sectorSize = ((p / 128 : Nat) : Int) :=
      Int.mul_tdiv_cancel _ (by decide)
    rw [FileHeader.byteToSector, FileHeader.byteToSector, sector, again]
  refine ⟨sectors[p / 128], List.getElem_mem there, ?_⟩
  rw [same, describes.byteToSector there, List.getD_eq_getElem?_getD,
    List.getElem?_eq_getElem there]
  rfl

/-- **A size that no header has is not refused**, unless for another reason. -/
theorem Represents.create_wrong (rep : Represents fs d l) (fresh : Nat → Nat → Byte)
    (low : -maxInt - 1 ≤ size)
    (high : size ≤ maxInt) (outside : size < 0 ∨ maxFileSize < size) (place : ¬ Lacks d name size) :
    ¬ AllOrNothing fs d name size fresh := by
  rintro (⟨refused, -⟩ | ⟨d', -, fine, -⟩)
  · obtain ⟨-, -, e, stops⟩ | ⟨-, why⟩ | ⟨i, f, d', done, -⟩ := rep.create name fresh low high
    · rw [stops] at refused
      cases refused
    · exact place ((rep.lacks_iff low high).mpr why)
    · rw [done] at refused
      cases refused
  · exact fine (outside.imp id Or.inl)

/-- **A size that a header can have is refused or granted, as it should be.** -/
theorem Represents.create_right (rep : Represents fs d l) (fresh : Nat → Nat → Byte)
    (low : 0 ≤ size) (high : size ≤ maxFileSize) : AllOrNothing fs d name size fresh := by
  have top : ((maxFileSize : Nat) : Int) ≤ maxInt := by decide
  have least : -maxInt - 1 ≤ size := by
    simp only [maxInt]
    omega
  have reasons : Lacks d name size ↔ Refused l (chars name fileNameMaxLen 0) size :=
    rep.lacks_iff least (by omega)
  obtain ⟨large, -⟩ | ⟨refused, why⟩ | ⟨i, f, d', done, added, named, sized, whole, rep', -⟩ :=
    rep.create name fresh least (by omega)
  · omega
  · exact .inl ⟨refused, .inr (.inr (reasons.mpr why))⟩
  · have there : Function.update l i (some f) i = some f := Function.update_self ..
    refine .inr ⟨d', done, ?_, fun fresh' =>
      ⟨_, rep'.opens added.inside there named fresh', whole, fun p inside => ?_⟩⟩
    · rintro (negative | large | lacks)
      · omega
      · omega
      · exact added.not_refused rep' sized (named ▸ reasons.mp lacks)
    · obtain ⟨s, member, sector⟩ := (rep'.headers i added.inside f there).byteToSector_lt
        (p := p) (by omega)
      have mine : s ∈ own (some f) := List.mem_cons_of_mem _ member
      have bound := rep'.own_bound added.inside there mine
      exact ⟨s, sector, bound, (rep.isFree bound).mpr (added.unused s mine)⟩

/-- **`Create` does all or nothing exactly on the sizes that a header can have**, and where it has
another reason to refuse. -/
theorem create_exact (rep : Represents fs d l) (name : Nat → Byte) (size : Word)
    (fresh : Nat → Nat → Byte) :
    AllOrNothing fs d name size.toInt fresh ↔
      0 ≤ size.toInt ∧ size.toInt ≤ maxFileSize ∨ Lacks d name size.toInt := by
  obtain ⟨low, high⟩ := word_bounds size
  constructor
  · intro whole
    by_contra other
    rw [not_or, not_and_or, Int.not_le, Int.not_le] at other
    exact rep.create_wrong fresh low high other.1 other.2 whole
  · rintro (⟨least, most⟩ | lacks)
    · exact rep.create_right fresh least most
    · obtain ⟨-, fine, -⟩ | ⟨refused, -⟩ | ⟨i, f, d', done, added, named, sized, -, rep', -⟩ :=
        rep.create name fresh low high
      · exact absurd ((rep.lacks_iff low high).mp lacks) fine
      · exact .inl ⟨refused, .inr (.inr lacks)⟩
      · exact absurd ((rep.lacks_iff low high).mp lacks) (named ▸ added.not_refused rep' sized)

/-- The first file of a formatted disk. -/
theorem create_exact_first : ∃ v, formatted (fun _ _ => 0) (fun _ _ => 0) = .ok v ∧
    AllOrNothing v.fs v.disk (letter 97) (128 : Word).toInt fun _ _ => 0 := by
  obtain ⟨v, done, sound, -⟩ := formatted_sound (fun _ _ => 0) (fun _ _ => 0)
  exact ⟨v, done, (create_exact sound.represents (letter 97) 128 fun _ _ => 0).mpr
    (.inl (by decide))⟩

/-- On a formatted disk every name and almost every size has a place. -/
theorem Represents.not_lacks_empty (rep : Represents fs d fun _ => none) (low : -maxInt - 1 ≤ size)
    (small : size ≤ 4096) : ¬ Lacks d name size := by
  have used : Layout.used (fun _ => none) = [0, 1, 2, 3, 4] := rfl
  rw [rep.lacks_iff low (by simp only [maxInt]; omega)]
  rintro (⟨j, -, g, there, -⟩ | full | few)
  · cases there
  · exact full 0 (by decide) rfl
  · have room := few (List.range' 5 40) List.nodup_range' fun s member => by
      rw [List.mem_range'_1] at member
      rw [used]
      simp only [numSectors, List.mem_cons, List.not_mem_nil, or_false]
      omega
    rw [List.length_range'] at room
    omega

/-- One byte more than a header has sectors for is stored after `dataSectors`, and a file of length
-1 is made. -/
theorem create_sizes_unchecked : ∃ v, formatted (fun _ _ => 0) (fun _ _ => 0) = .ok v ∧
    (∃ e, v.fs.create v.disk (letter 97) (3841 : Word).toInt (fun _ _ => 0) = .error e) ∧
    ¬ AllOrNothing v.fs v.disk (letter 97) (3841 : Word).toInt (fun _ _ => 0) ∧
    (∃ d, v.fs.create v.disk (letter 97) (-1 : Word).toInt (fun _ _ => 0) = .ok (true, d)) ∧
    ¬ AllOrNothing v.fs v.disk (letter 97) (-1 : Word).toInt fun _ _ => 0 := by
  obtain ⟨v, done, sound, -⟩ := formatted_sound (fun _ _ => 0) (fun _ _ => 0)
  have rep := sound.represents
  have reasons : ∀ {size : Int}, -maxInt - 1 ≤ size → size ≤ 4096 →
      ¬ Refused (fun _ => none) (chars (letter 97) fileNameMaxLen 0) size := fun low small why =>
    rep.not_lacks_empty low small ((rep.lacks_iff low (by simp only [maxInt]; omega)).mpr why)
  obtain ⟨low, high⟩ := word_bounds 3841
  obtain ⟨low', high'⟩ := word_bounds (-1)
  refine ⟨v, done, ?_, ?_, ?_, ?_⟩
  · obtain ⟨-, -, stops⟩ | ⟨-, why⟩ | ⟨i, f, d, -, added, -, sized, -, rep', -⟩ :=
      rep.create (letter 97) (fun _ _ => 0) low high
    · exact stops
    · exact absurd why (reasons (by decide) (by decide))
    · have small := (rep'.headers i added.inside f (Function.update_self ..)).bytes_le
      rw [sized] at small
      exact absurd small (by decide)
  · exact rep.create_wrong _ low high (.inr (by decide))
      (rep.not_lacks_empty (by decide) (by decide))
  · obtain ⟨large, -⟩ | ⟨-, why⟩ | ⟨i, f, d, done, -⟩ :=
      rep.create (letter 97) (fun _ _ => 0) low' high'
    · exact absurd large (by decide)
    · exact absurd why (reasons (by decide) (by decide))
    · exact ⟨d, done⟩
  · exact rep.create_wrong _ low' high' (.inl (by decide))
      (rep.not_lacks_empty (by decide) (by decide))

end Create

/-! ## `Remove` after `Create` -/

/-- A `WriteAt`. -/
structure Request where
  source : Nat → Byte
  numBytes : Word
  position : Word
  garbage : Nat → Byte

/-- Some `WriteAt`s through an `OpenFile`, one after the other. -/
def writes (h : FileHeader) : List Request → Disk → Except Stop Disk
  | [], d => return d
  | r :: requests, d => do
      let (_, d) ← writeAt d h r.source r.numBytes.toInt r.position.toInt r.garbage
      writes h requests d

/-- The free map is the same bit for bit, `Find` gives the same sector for every name, and the files
that were there have the same headers and the same data. -/
structure Restored (d d' : Disk) : Prop where
  map : ∀ j < numSectors, bitOf (freeMapOn d') j = bitOf (freeMapOn d) j
  find : ∀ name, (directoryOn d').find name = (directoryOn d).find name
  files : ∀ s ∈ listedOn d, ∀ t ∈ s :: dataOn d s, d' t.toNat = d t.toNat

section Remove

variable {fs : FileSystem} {d d₁ d₂ : Disk} {l : Layout} {f : File} {h : FileHeader} {i bytes : Nat}
  {sectors : List Nat} {requests : List Request}

/-- Writes in range go through. -/
theorem Describes.writes (describes : Describes h bytes sectors) (distinct : sectors.Nodup)
    (ranged : ∀ r ∈ requests, InRange h r.numBytes.toInt r.position.toInt) :
    ∃ d', Disk.writes h requests d = .ok d' := by
  induction requests generalizing d with
  | nil => exact ⟨d, rfl⟩
  | cons r requests ih =>
      obtain ⟨d₁, wrote, -⟩ := describes.write (d := d) r.source r.garbage distinct
        (ranged r (List.mem_cons_self ..))
      obtain ⟨d₂, rest⟩ := ih (d := d₁) fun r member => ranged r (List.mem_cons_of_mem _ member)
      exact ⟨d₂, by rw [Disk.writes, wrote, ok_bind]; exact rest⟩

/-- Writes that go through are in range and keep to the sectors of the file. -/
theorem Describes.writes_kept (describes : Describes h bytes sectors) (distinct : sectors.Nodup)
    (wrote : Disk.writes h requests d = .ok d₁) :
    (∀ r ∈ requests, InRange h r.numBytes.toInt r.position.toInt) ∧ ∀ s, s ∉ sectors →
    d₁ s = d s := by
  induction requests generalizing d with
  | nil =>
      cases wrote
      exact ⟨nofun, fun _ _ => rfl⟩
  | cons r requests ih =>
      obtain ⟨⟨count, d₂⟩, first, rest⟩ := bind_eq_ok.mp wrote
      have range : InRange h r.numBytes.toInt r.position.toInt := by
        by_contra outside
        obtain ⟨e, stops⟩ := writeAt_outside (d := d) r.source r.garbage outside
        rw [stops] at first
        cases first
      obtain ⟨d', again, -, kept⟩ := describes.write (d := d) r.source r.garbage distinct range
      rw [first] at again
      cases again
      obtain ⟨ranged, later⟩ := ih rest
      refine ⟨List.forall_mem_cons.mpr ⟨range, ranged⟩, fun s other => ?_⟩
      rw [later s other, kept s fun member => other (describes.touched_request range member)]

/-- `Find` depends on the layout alone. -/
theorem Represents.find_eq (rep : Represents fs d l) (rep₁ : Represents fs d₁ l)
    (name : Nat → Byte) :
    (Disk.directoryOn d₁).find name = (Disk.directoryOn d).find name := by
  obtain ⟨none, -, unnamed⟩ | ⟨i, f, inside, there, named, found, -⟩ :=
    Layout.find_cases rep.entriesOn name
  · obtain ⟨none₁, -⟩ | ⟨j, g, inside, there, named, -⟩ := Layout.find_cases rep₁.entriesOn name
    · rw [none, none₁]
    · exact absurd named (unnamed j inside g there)
  · obtain ⟨-, -, unnamed⟩ | ⟨j, g, inside', there', named', found', -⟩ :=
      Layout.find_cases rep₁.entriesOn name
    · exact absurd named (unnamed i inside f there)
    · obtain rfl := rep.names i inside j inside' f g there there' (named.trans named'.symm)
      rw [there, Option.some.injEq] at there'
      rw [found, found', there']

/-- The sectors of a file that the directory lists. -/
theorem Represents.listed (rep : Represents fs d l) {s t : Int} (listed : s ∈ listedOn d)
    (member : t ∈ s :: dataOn d s) :
    5 ≤ t.toNat ∧ t.toNat ∈ l.used := by
  obtain ⟨j, there, found⟩ := List.mem_filterMap.mp listed
  have inside := List.mem_range.mp there
  rw [rep.entriesOn j inside] at found
  simp only [Option.map_map, Option.map_eq_some_iff] at found
  obtain ⟨g, there, rfl⟩ := found
  have mine : t.toNat ∈ own (some g) := by
    simp only [Function.comp_apply] at member
    rw [(rep.headers j inside g there).dataOn,
      ← List.map_cons (f := fun t : Nat => (t : Int))] at member
    obtain ⟨u, here, rfl⟩ := List.mem_map.mp member
    exact here
  refine ⟨((rep.apart inside there).2 _ mine).1, Layout.mem_used.mpr (.inr ⟨j, inside, ?_⟩)⟩
  rw [there]
  exact mine

/-- **`Remove` undoes `Create`.**  The new file is opened and written any number of times, through
any number of `OpenFile`s: they all have the same header.  The calls go through and leave the free
map, the directory and the other files as they were, exactly when the writes are in range. -/
theorem remove_undoes_create (rep : Represents fs d l) (name : Nat → Byte) {size : Word}
    (fresh : Nat → Nat → Byte) (created : fs.create d name size.toInt fresh = .ok (true, d₁)) :
    ∃ hdr, (∀ requests d₂ fresh, writes hdr requests d₁ = .ok d₂ →
      fs.open d₂ name fresh = .ok (some hdr)) ∧
      ∀ requests fresh,
        (∃ d₂ d₃, writes hdr requests d₁ = .ok d₂ ∧ fs.remove d₂ name fresh = .ok (true, d₃) ∧
          Restored d d₃) ↔
          ∀ r ∈ requests, InRange hdr r.numBytes.toInt r.position.toInt := by
  have top := word_bounds size
  obtain ⟨-, -, e, stops⟩ | ⟨refused, -⟩ | ⟨i, f, d', done, added, named, -, -, rep₁, kept₁⟩ :=
    rep.create name fresh top.1 top.2
  · rw [created] at stops
    cases stops
  · rw [created] at refused
    cases refused
  rw [created, Except.ok.injEq, Prod.mk.injEq] at done
  obtain ⟨-, rfl⟩ := done
  have there : Function.update l i (some f) i = some f := Function.update_self ..
  have describes := rep₁.headers i added.inside f there
  have distinct := List.nodup_cons.mp (rep₁.apart added.inside there).1
  have later : ∀ {requests : List Request} {d₂ : Disk},
      writes (words (d₁ f.header)) requests d₁ = .ok d₂ →
      Represents fs d₂ (Function.update l i (some f)) ∧ ∀ s, s ∉ f.sectors → d₂ s = d₁ s :=
        fun wrote =>
    have kept := (describes.writes_kept distinct.2 wrote).2
    ⟨rep₁.write added.inside there kept, kept⟩
  refine ⟨words (d₁ f.header), fun requests d₂ fresh wrote => ?_, fun requests fresh =>
    ⟨?_, fun ranged => ?_⟩⟩
  · obtain ⟨rep₂, kept⟩ := later wrote
    rw [rep₂.opens added.inside there named fresh, kept _ distinct.1]
  · rintro ⟨d₂, -, wrote, -⟩
    exact (describes.writes_kept distinct.2 wrote).1
  · obtain ⟨d₂, wrote⟩ := describes.writes (d := d₁) distinct.2 ranged
    obtain ⟨rep₂, kept₂⟩ := later wrote
    obtain ⟨d₃, removed, rep₃, kept₃⟩ := rep₂.removes added.inside there named fresh
    rw [Function.update_idem, ← added.empty, Function.update_eq_self] at rep₃
    refine ⟨d₂, d₃, wrote, removed,
      ⟨fun j bound => ?_, rep.find_eq rep₃, fun s listed t member => ?_⟩⟩
    · rw [rep.freeMapOn, rep₃.freeMapOn, rep.marks j bound, rep₃.marks j bound]
    · -- no sector of an old file is one of the new file
      obtain ⟨large, used⟩ := rep.listed listed member
      have other : t.toNat ∉ own (some f) := fun mine => added.unused _ mine used
      rw [own, List.mem_cons, not_or] at other
      rw [kept₃ _ (by simp; omega), kept₂ _ other.2, kept₁ _ (by simp; omega)]

/-- The first file of a formatted disk, created and opened. -/
theorem Sound.first_created {v : Volume} (sound : Sound v fun _ => none) : ∃ d₁ hdr,
    v.fs.create v.disk (letter 97) (128 : Word).toInt (fun _ _ => 0) = .ok (true, d₁) ∧
    v.fs.open d₁ (letter 97) (fun _ _ => 0) = .ok (some hdr) ∧ hdr.fileLength = 128 := by
  obtain ⟨i, d₁, inside, called, sound₁, -⟩ := sound.first_file (letter 97) (fun _ _ => 0) 128 1
    (by decide) (by decide)
  obtain ⟨⟨success, disk⟩, created, last⟩ := bind_eq_ok.mp called
  cases last
  have describes := sound₁.represents.headers i inside _ (Function.update_self ..)
  exact ⟨d₁, _, created, sound₁.represents.opens inside (Function.update_self ..) rfl
    (fun _ _ => 0), describes.fileLength (by decide)⟩

/-- Two bytes are written to the first file of a formatted disk. -/
theorem remove_undoes_create_first : ∃ v d₁ hdr d₂ d₃,
    formatted (fun _ _ => 0) (fun _ _ => 0) = .ok v ∧
    v.fs.create v.disk (letter 97) (128 : Word).toInt (fun _ _ => 0) = .ok (true, d₁) ∧
    v.fs.open d₁ (letter 97) (fun _ _ => 0) = .ok (some hdr) ∧
    writes hdr [⟨fun _ => 1, 2, 126, fun _ => 9⟩] d₁ = .ok d₂ ∧
    v.fs.remove d₂ (letter 97) (fun _ _ => 0) = .ok (true, d₃) ∧ Restored v.disk d₃ := by
  obtain ⟨v, done, sound, -⟩ := formatted_sound (fun _ _ => 0) (fun _ _ => 0)
  obtain ⟨d₁, hdr, created, opened, -⟩ := sound.first_created
  obtain ⟨hdr', open₁, all⟩ := remove_undoes_create sound.represents (letter 97)
    (fun _ _ => 0) created
  have same := open₁ [] d₁ (fun _ _ => 0) rfl
  rw [opened, Except.ok.injEq, Option.some.injEq] at same
  obtain ⟨d₂, d₃, wrote, removed, restored⟩ :=
    (all [⟨fun _ => 1, 2, 126, fun _ => 9⟩] fun _ _ => 0).mpr fun r member => by
    rw [List.mem_singleton.mp member]
    exact .inr (.inr (by decide))
  exact ⟨v, d₁, hdr, d₂, d₃, done, created, opened, same ▸ wrote, removed, restored⟩

/-- A write of 128 bytes at position -128 does not get as far as `Remove`. -/
theorem negative_write_not_undone : ∃ v d₁ hdr, formatted (fun _ _ => 0) (fun _ _ => 0) = .ok v ∧
    v.fs.create v.disk (letter 97) (128 : Word).toInt (fun _ _ => 0) = .ok (true, d₁) ∧
    v.fs.open d₁ (letter 97) (fun _ _ => 0) = .ok (some hdr) ∧
    ¬ ∃ d₂ d₃, writes hdr [⟨fun _ => 1, 128, BitVec.ofInt 32 (-128), fun _ => 9⟩] d₁ = .ok d₂ ∧
      v.fs.remove d₂ (letter 97) (fun _ _ => 0) = .ok (true, d₃) ∧ Restored v.disk d₃ := by
  obtain ⟨v, done, sound, -⟩ := formatted_sound (fun _ _ => 0) (fun _ _ => 0)
  obtain ⟨d₁, hdr, created, opened, length⟩ := sound.first_created
  refine ⟨v, d₁, hdr, done, created, opened, ?_⟩
  rintro ⟨d₂, -, wrote, -⟩
  obtain ⟨e, stops⟩ := writeAt_outside (d := d₁) (fun _ => 1) (fun _ => 9) (h := hdr)
    (n := (128 : Word).toInt)
    (p := (BitVec.ofInt 32 (-128)).toInt) (by rw [InRange, length]; decide)
  rw [writes, stops] at wrote
  cases wrote

end Remove

end Nachos.Disk
