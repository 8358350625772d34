/-
# Nachos.FileSys.Metadata -- the metadata on the disk stays consistent

What the sectors of the disk say, read off the disk alone: `usedOn` lists the header and data
sectors of the free map, of the directory and of every file that the directory lists.
`Consistent` is the invariant of the format: no sector is in the list twice, the free map marks
those of the list and no others, and no two entries of the directory match the same name.

The invariant holds after every run of calls from a formatted disk, as long as the requests
are in range; a request with a negative position passes the check of `ReadAt` and `WriteAt`
and indexes `dataSectors` or the buffer below its start.
-/
import Nachos.FileSys.Volume

namespace Nachos.Disk

open Nachos.Lib.Bytes
open Nachos.Lib.Run

set_option autoImplicit false

/-! ## What is on the disk -/

/-- The data sectors of the file whose header is in sector `s`. -/
def dataOn (d : Disk) (s : Int) : List Int :=
  (List.range (FileHeader.numSectors (words (d s.toNat))).toNat).map fun j =>
    (words (d s.toNat) (2 + j)).toInt

/-- The bytes of the file whose header is in sector `s`. -/
def bytesOn (d : Disk) (s : Int) : Nat → Byte := contents d ((dataOn d s).map Int.toNat)

def freeMapOn (d : Disk) : Nat → Byte := bytesOn d freeMapSector

def directoryOn (d : Disk) : Table := bytesOn d directorySector

/-- The headers of the files that the directory lists. -/
def listedOn (d : Disk) : List Int :=
  (List.range numDirEntries).filterMap fun i => ((directoryOn d).entry i).map Prod.snd

/-- The header and data sectors of the free map, of the directory and of the listed files. -/
def usedOn (d : Disk) : List Int :=
  ((freeMapSector : Int) :: (directorySector : Int) :: listedOn d).flatMap fun s => s :: dataOn d s

structure Consistent (d : Disk) : Prop where
  distinct : (usedOn d).Nodup
  range : ∀ s ∈ usedOn d, 0 ≤ s ∧ s < numSectors
  marked : ∀ j < numSectors, bitOf (freeMapOn d) j = true ↔ (j : Int) ∈ usedOn d
  names : ∀ i < numDirEntries, ∀ j < numDirEntries, (directoryOn d).inUse i = true →
    (directoryOn d).inUse j = true →
    sameName ((directoryOn d).name i) ((directoryOn d).name j) fileNameMaxLen 0 = true → i = j

section Reading

variable {fs : FileSystem} {d : Disk} {l : Layout}

theorem Describes.dataOn {s bytes : Nat} {sectors : List Nat}
    (describes : Describes (words (d s)) bytes sectors) :
    dataOn d s = sectors.map fun t : Nat => (t : Int) := by
  have count := describes.count
  apply List.ext_getElem
  · rw [Disk.dataOn, List.length_map, List.length_range, List.length_map]
    exact count
  · intro j inside inside'
    rw [List.length_map] at inside'
    have word := describes.data j sectors[j] (List.getElem?_eq_getElem inside')
    simp only [Disk.dataOn, List.getElem_map, List.getElem_range]
    exact word

theorem Describes.bytesOn {s bytes : Nat} {sectors : List Nat}
    (describes : Describes (words (d s)) bytes sectors) :
    bytesOn d s = contents d sectors := by
  rw [Disk.bytesOn, describes.dataOn, List.map_map]
  congr 1
  exact List.map_id' sectors

theorem Represents.directoryOn (rep : Represents fs d l) : directoryOn d = contents d [3, 4] :=
  rep.dirHeader.bytesOn

theorem Represents.freeMapOn (rep : Represents fs d l) : freeMapOn d = contents d [2] :=
  rep.mapHeader.bytesOn

theorem Represents.listed_data (rep : Represents fs d l) (entries : List Nat)
    (inside : ∀ i ∈ entries, i < numDirEntries) :
    ((entries.filterMap fun i => ((Disk.directoryOn d).entry i).map Prod.snd).flatMap fun s =>
      s :: dataOn d s) =
      (entries.flatMap fun i => own (l i)).map fun t : Nat => (t : Int) := by
  induction entries with
  | nil => rfl
  | cons i entries ih =>
      have here := rep.entries i (inside i (List.mem_cons_self ..))
      have rest := ih fun j member => inside j (List.mem_cons_of_mem _ member)
      rw [List.flatMap_cons, List.map_append, ← rest, List.filterMap_cons, rep.directoryOn, here]
      cases there : l i with
      | none => rfl
      | some f =>
          have describes := rep.headers i (inside i (List.mem_cons_self ..)) f there
          simp only [Option.map_some, List.flatMap_cons, describes.dataOn, own, List.map_cons]

/-- The sectors in use, as they are read off the disk. -/
theorem Represents.usedOn_perm (rep : Represents fs d l) :
    (usedOn d).Perm (l.used.map fun t : Nat => (t : Int)) := by
  have listed := rep.listed_data (List.range numDirEntries) fun i member => List.mem_range.mp member
  rw [usedOn, List.flatMap_cons, List.flatMap_cons, rep.mapHeader.dataOn, rep.dirHeader.dataOn,
    listedOn, listed, Layout.used, List.map_append, ← List.append_assoc]
  exact List.Perm.append_right _ (by decide)

theorem Represents.mem_usedOn (rep : Represents fs d l) {s : Nat} :
    (s : Int) ∈ usedOn d ↔ s ∈ l.used := by
  rw [rep.usedOn_perm.mem_iff, List.mem_map]
  constructor
  · rintro ⟨t, member, same⟩
    exact Int.ofNat_inj.mp same ▸ member
  · intro member
    exact ⟨s, member, rfl⟩

theorem Represents.entry_name (rep : Represents fs d l) {i : Nat} (inside : i < numDirEntries)
    (used : (Disk.directoryOn d).inUse i = true) :
    ∃ f, l i = some f ∧ f.name = chars ((Disk.directoryOn d).name i) fileNameMaxLen 0 := by
  have entry := rep.entries i inside
  rw [← rep.directoryOn, Table.entry, if_pos used] at entry
  obtain ⟨f, there, same⟩ := Option.map_eq_some_iff.mp entry.symm
  exact ⟨f, there, (Prod.mk.inj same).1⟩

/-- **A disk that represents a layout is consistent.** -/
theorem Represents.consistent (rep : Represents fs d l) : Consistent d where
  distinct := by
    rw [rep.usedOn_perm.nodup_iff]
    exact rep.distinct.map fun s t same => Int.ofNat_inj.mp same
  range s member := by
    obtain ⟨t, used, rfl⟩ := List.mem_map.mp (rep.usedOn_perm.mem_iff.mp member)
    have bound := rep.bound t used
    exact ⟨by omega, by omega⟩
  marked j bound := by
    rw [rep.freeMapOn, rep.marks j bound, rep.mem_usedOn, decide_eq_true_eq]
  names i inside j inside' usedI usedJ same := by
    obtain ⟨f, there, named⟩ := rep.entry_name inside usedI
    obtain ⟨g, there', named'⟩ := rep.entry_name inside' usedJ
    refine rep.names i inside j inside' f g there there' ?_
    rw [named, named']
    exact sameName_iff.mp same

end Reading

/-! ## Runs -/

/-- A size that fits in a header, an `OpenFile` that exists, and no write to a removed file. -/
def Proper (v : Volume) : Call → Prop
  | .create _ size _ => 0 ≤ size.toInt ∧ size.toInt ≤ maxFileSize
  | .readAt file _ _ => ∃ h, v.handles[file]? = some h
  | .writeAt file _ _ _ _ => ∃ h, v.handles[file]? = some h ∧ h.live = true
  | _ => True

/-- A request is refused by the check, or starts at the first byte or later and ends at an `int`. -/
def Ranged (v : Volume) : Call → Prop
  | .readAt file n p => ∀ h, v.handles[file]? = some h → InRange h.hdr n.toInt p.toInt
  | .writeAt file _ n p _ => ∀ h, v.handles[file]? = some h → InRange h.hdr n.toInt p.toInt
  | _ => True

section Runs

variable {v v' : Volume} {l : Layout} {c : Call} {r : Result}

theorem Proper.fine (proper : Proper v c) (ranged : Ranged v c) : Fine v c := by
  cases c with
  | create => exact proper.2
  | remove => trivial
  | «open» => trivial
  | readAt file n p =>
      obtain ⟨h, held⟩ := proper
      exact ⟨h, held, ranged h held⟩
  | writeAt file source n p garbage =>
      obtain ⟨h, held, -⟩ := proper
      exact ⟨h, held, ranged h held⟩

theorem Proper.harmless (proper : Proper v c) : Harmless v l c := by
  cases c with
  | writeAt file source n p garbage =>
      intro h bytes sectors held removed
      obtain ⟨g, held', live⟩ := proper
      rw [held, Option.some.injEq] at held'
      rw [held', live] at removed
      cases removed
  | _ => trivial

theorem ranged_of_call (done : v.call c = .ok (r, v')) : Ranged v c := by
  cases c with
  | readAt file n p => exact fun h held => (inRange_of_call held).1 r v' done
  | writeAt file source n p garbage =>
      exact fun h held => (inRange_of_call held).2 source garbage r v' done
  | _ => trivial

theorem Sound.proper (sound : Sound v l) (proper : Proper v c) (ranged : Ranged v c) :
    ∃ r v' l', v.call c = .ok (r, v') ∧ Does v l c r v' l' ∧ Sound v' l' := by
  obtain ⟨-, -, notFine⟩ | ⟨r, v', l', done, does, keeps⟩ := sound.call c
  · exact absurd (proper.fine ranged) notFine
  · exact ⟨r, v', l', done, does, keeps proper.harmless⟩

/-- A run of calls goes through, over consistent disks, if and only if its requests are in range. -/
theorem Sound.runs {calls : List Call} (sound : Sound v l)
    (proper : AllSteps Volume.step Proper v calls) :
    (∃ v', exec Volume.step v calls = some v') ∧
    AllStates Volume.step (fun v => Consistent v.disk) v calls ↔
      AllSteps Volume.step Ranged v calls := by
  induction calls generalizing v l with
  | nil => exact ⟨fun _ => trivial, fun _ => ⟨⟨v, rfl⟩, sound.represents.consistent⟩⟩
  | cons c calls ih =>
      constructor
      · rintro ⟨⟨last, run⟩, states⟩
        obtain ⟨v', moved, run⟩ := exec_cons_eq_some.mp run
        obtain ⟨r, done⟩ := Volume.step_eq_some.mp moved
        refine ⟨ranged_of_call done, fun w moved' => ?_⟩
        obtain rfl : v' = w := Option.some.inj (moved.symm.trans moved')
        obtain ⟨r', w, l', done', -, sound'⟩ := sound.proper proper.1 (ranged_of_call done)
        rw [done, Except.ok.injEq, Prod.mk.injEq] at done'
        rw [← done'.2] at sound'
        exact (ih sound' (proper.2 v' moved)).mp ⟨⟨last, run⟩, states.2 v' moved⟩
      · intro ranged
        obtain ⟨r, v', l', done, -, sound'⟩ := sound.proper proper.1 ranged.1
        have moved : v.step c = some v' := Volume.step_eq_some.mpr ⟨r, done⟩
        obtain ⟨⟨last, run⟩, states⟩ := (ih sound' (proper.2 v' moved)).mpr (ranged.2 v' moved)
        refine ⟨⟨last, exec_cons_eq_some.mpr ⟨v', moved, run⟩⟩, sound.represents.consistent,
          fun w moved' => ?_⟩
        obtain rfl : v' = w := Option.some.inj (moved.symm.trans moved')
        exact states

end Runs

/-- The volume after `FileSystem(TRUE)`. -/
def formatted (d : Disk) (fresh : Nat → Nat → Byte) : Except Stop Volume := do
  let (fs, disk) ← FileSystem.format d fresh
  return ⟨disk, fs, []⟩

theorem formatted_sound (d : Disk) (fresh : Nat → Nat → Byte) :
    ∃ v, formatted d fresh = .ok v ∧ Sound v (fun _ => none) ∧ v.handles = [] ∧
      ∀ s, 5 ≤ s → v.disk s = d s := by
  obtain ⟨fs, d', done, rep, kept⟩ := format_represents d fresh
  exact ⟨⟨d', fs, []⟩, by rw [formatted, done]; rfl, ⟨rep, nofun⟩, rfl, kept⟩

/-- A string of one character. -/
def letter (c : Byte) : Nat → Byte := fun k => if k = 0 then c else 0

/-- The first file of a formatted disk, created and opened. -/
theorem Sound.first_handle {v : Volume} (sound : Sound v fun _ => none) (none : v.handles = [])
    (name : Nat → Byte) (fresh : Nat → Nat → Byte) (size : Word) (n : Nat)
    (count : (size.toInt.toNat + 127) / 128 = n) (small : size.toInt ≤ maxFileSize) :
    ∃ v₁ w i hdr, v.step (.create name size fresh) = some v₁ ∧ v₁.step (.open name fresh) = some w ∧
      w.handles = [⟨hdr, chars name fileNameMaxLen 0, true⟩] ∧
        Describes hdr size.toInt.toNat (List.range' 6 n) ∧
      i < numDirEntries ∧
      Sound w (Function.update (fun _ => Option.none) i
        (some ⟨chars name fileNameMaxLen 0, 5, size.toInt.toNat, List.range' 6 n⟩)) ∧
      ∀ s, 6 ≤ s → w.disk s = v.disk s := by
  obtain ⟨i, d, inside, created, sound₁, kept⟩ := sound.first_file name fresh size n count small
  have opened := sound₁.opens inside (Function.update_self ..) name fresh rfl
  refine ⟨_, _, i, _, Volume.step_eq_some.mpr ⟨_, created⟩, Volume.step_eq_some.mpr ⟨_, opened⟩, ?_,
    sound₁.represents.headers i inside _ (Function.update_self ..), inside,
    sound₁.hold inside (Function.update_self ..) rfl, kept⟩
  simp [none]

theorem Volume.step_writeAt_handles {v w : Volume} {file : Nat} {source : Nat → Byte} {n p : Word}
    {garbage : Nat → Byte} (wrote : v.step (.writeAt file source n p garbage) = some w) :
    w.handles = v.handles := by
  obtain ⟨r, done⟩ := Volume.step_eq_some.mp wrote
  obtain ⟨h, -, rest⟩ := bind_eq_ok.mp done
  obtain ⟨⟨count, disk⟩, -, last⟩ := bind_eq_ok.mp rest
  cases last
  rfl

/-- **The metadata stays consistent.**  From a formatted disk a run of proper calls goes through,
with every `ASSERT` of it, over disks that are all consistent, exactly when its requests are in
range. -/
theorem metadata_consistent (d : Disk) (fresh : Nat → Nat → Byte) :
    ∃ v, formatted d fresh = .ok v ∧ ∀ calls, AllSteps Volume.step Proper v calls →
      ((∃ v', exec Volume.step v calls = some v') ∧
          AllStates Volume.step (fun w => Consistent w.disk) v calls ↔
        AllSteps Volume.step Ranged v calls) := by
  obtain ⟨v, done, sound, -, -⟩ := formatted_sound d fresh
  exact ⟨v, done, fun calls proper => sound.runs proper⟩

/-- A file of three sectors is created, opened, written from its byte 20 on, read as a whole and
removed. -/
theorem metadata_consistent_five : ∃ v v', formatted (fun _ _ => 0) (fun _ _ => 0) = .ok v ∧
    exec Volume.step v [.create (letter 97) 300 fun _ _ => 0, .open (letter 97) fun _ _ => 0,
      .writeAt 0 (fun _ => 1) 250 20 fun _ => 0, .readAt 0 300 0, .remove (letter 97) fun _ _ =>
        0] = some v' ∧
    Consistent v'.disk := by
  obtain ⟨v, done, all⟩ := metadata_consistent (fun _ _ => 0) (fun _ _ => 0)
  obtain ⟨v', done', sound, empty, -⟩ := formatted_sound (fun _ _ => 0) (fun _ _ => 0)
  obtain rfl : v = v' := Except.ok.inj (done.symm.trans done')
  obtain ⟨v₁, w, i, hdr, created, opened, handles, -⟩ :=
    sound.first_handle empty (letter 97) (fun _ _ => 0) 300 3 (by decide) (by decide)
  have held : w.handles[0]? =
      some ⟨hdr, chars (letter 97) fileNameMaxLen 0, true⟩ := by rw [handles]; rfl
  have proper : AllSteps Volume.step Proper v
      [.create (letter 97) 300 fun _ _ => 0, .open (letter 97) fun _ _ => 0,
      .writeAt 0 (fun _ => 1) 250 20 fun _ => 0, .readAt 0 300 0,
        .remove (letter 97) fun _ _ => 0] := by
    refine .cons ⟨by decide, by decide⟩ created
      (.cons trivial opened ⟨⟨_, held, rfl⟩, fun u wrote => ?_⟩)
    have kept : u.handles[0]? = w.handles[0]? := by rw [Volume.step_writeAt_handles wrote]
    exact ⟨⟨_, kept.trans held⟩, fun _ _ => ⟨trivial, fun _ _ => trivial⟩⟩
  have ranged : AllSteps Volume.step Ranged v
      [.create (letter 97) 300 fun _ _ => 0, .open (letter 97) fun _ _ => 0,
      .writeAt 0 (fun _ => 1) 250 20 fun _ => 0, .readAt 0 300 0,
        .remove (letter 97) fun _ _ => 0] := by
    refine .cons trivial created
      (.cons trivial opened ⟨fun h _ => .inr (.inr (by decide)), fun u wrote => ?_⟩)
    exact ⟨fun h _ => .inr (.inr (by decide)), fun _ _ => ⟨trivial, fun _ _ => trivial⟩⟩
  obtain ⟨⟨v', run⟩, states⟩ := (all _ proper).mpr ranged
  exact ⟨v, v', done, run, states.last run⟩

/-- A write at a negative position, through the handle of a file that is there, passes the check
of the request and is undefined: it looks up `dataSectors[-1]`. -/
theorem negative_write_undefined : ∃ v w, formatted (fun _ _ => 0) (fun _ _ => 0) = .ok v ∧
    exec Volume.step v [.create (letter 97) 128 fun _ _ => 0, .open (letter 97) fun _ _ => 0] =
      some w ∧
    AllSteps Volume.step Proper v
      [.create (letter 97) 128 fun _ _ => 0, .open (letter 97) fun _ _ => 0,
      .writeAt 0 (fun _ => 1) 128 (BitVec.ofInt 32 (-128)) fun _ => 0] ∧
    (∃ e, w.call (.writeAt 0 (fun _ => 1) 128 (BitVec.ofInt 32 (-128)) fun _ => 0) = .error e) ∧
    exec Volume.step v [.create (letter 97) 128 fun _ _ => 0, .open (letter 97) fun _ _ => 0,
      .writeAt 0 (fun _ => 1) 128 (BitVec.ofInt 32 (-128)) fun _ => 0] = none := by
  obtain ⟨v, done, sound, empty, -⟩ := formatted_sound (fun _ _ => 0) (fun _ _ => 0)
  obtain ⟨v₁, w, i, hdr, created, opened, handles, describes, -⟩ :=
    sound.first_handle empty (letter 97) (fun _ _ => 0) 128 1 (by decide) (by decide)
  have held : w.handles[0]? =
      some ⟨hdr, chars (letter 97) fileNameMaxLen 0, true⟩ := by rw [handles]; rfl
  have length : hdr.fileLength = 128 := describes.fileLength (by decide)
  have stops : ∃ e, w.call (.writeAt 0 (fun _ => 1) 128 (BitVec.ofInt 32 (-128)) fun _ => 0) =
      .error e := by
    obtain ⟨e, stops⟩ := writeAt_outside (d := w.disk) (fun _ => 1) (fun _ => 0) (h := hdr)
      (n := (128 : Word).toInt) (p := (BitVec.ofInt 32 (-128)).toInt)
        (by rw [InRange, length]; decide)
    have found : w.handle 0 = .ok
        ⟨hdr, chars (letter 97) fileNameMaxLen 0, true⟩ := by rw [Volume.handle, held]
    refine ⟨e, ?_⟩
    rw [Volume.call, found, ok_bind, stops]
    rfl
  have stuck : w.step (.writeAt 0 (fun _ => 1) 128 (BitVec.ofInt 32 (-128)) fun _ => 0) = none := by
    obtain ⟨e, stops⟩ := stops
    rw [Volume.step, stops]
    rfl
  have first : exec Volume.step v
      [.create (letter 97) 128 fun _ _ => 0, .open (letter 97) fun _ _ => 0] =
      some w := by
    rw [exec_cons, created, Option.bind_some, exec_cons, opened, Option.bind_some, exec_nil]
  refine ⟨v, w, done, first, ?_, stops, ?_⟩
  · refine .cons ⟨by decide, by decide⟩ created (.cons trivial opened ?_)
    exact ⟨⟨_, held, rfl⟩, fun _ _ => trivial⟩
  · rw [exec_cons, created, Option.bind_some, exec_cons, opened, Option.bind_some, exec_cons, stuck,
      Option.bind_none]

end Nachos.Disk
