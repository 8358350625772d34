/-
# Nachos.FileSys.Stale -- `OpenFile`s of removed files

`Remove` frees the sectors of a file at once, whoever has it open, and an `OpenFile` keeps its
own copy of the header.  A request through it still goes to the sectors that the file had.

`Isolated` says that such a request has nothing to do with the sectors of the files that are
there: what it returns, and what it leaves in the other sectors, is the same whatever they
hold, and they keep what they hold.  That is so as long as the free map does not mark the
sectors of the request; a later `Create` takes the lowest free sectors, which are those of
the file that has just been removed.
-/
import Nachos.FileSys.Metadata

namespace Nachos.Disk

open Nachos.Lib.Bytes
open Nachos.Lib.Run

set_option autoImplicit false

/-- The sectors of a request, by the header of the `OpenFile`. -/
def requestSectors (h : FileHeader) (numBytes position : Int) : List Int :=
  if numBytes ≤ 0 ∨ position ≥ h.fileLength then []
  else
    let numBytes := if position + numBytes > h.fileLength then h.fileLength - position else numBytes
    let firstSector := position.tdiv sectorSize
    let lastSector := (position + numBytes - 1).tdiv sectorSize
    (List.range (1 + lastSector - firstSector).toNat).map fun j =>
      (h (2 + (firstSector.toNat + j))).toInt

/-- A disk that may differ in the sectors of the free map, of the directory and of the files
that it lists. -/
def AgreesOutside (d d' : Disk) : Prop := ∀ s : Nat, (s : Int) ∉ usedOn d → d' s = d s

/-- A request through the handle of a removed file neither reads nor changes the contents,
headers or metadata of the files that are there. -/
def Isolated (v : Volume) : Call → Prop
  | .readAt file n p => ∀ h, v.handles[file]? = some h → h.live = false →
      ∃ bytes, ∀ d' : Disk, AgreesOutside v.disk d' → readAt d' h.hdr n.toInt p.toInt = .ok bytes
  | .writeAt file source n p garbage => ∀ h, v.handles[file]? = some h → h.live = false →
      ∃ (count : Int) (e : Disk), ∀ d' : Disk, AgreesOutside v.disk d' →
        ∃ d'' : Disk, writeAt d' h.hdr source n.toInt p.toInt garbage = .ok (count, d'') ∧
          (∀ s : Nat, (s : Int) ∈ usedOn v.disk → d'' s = d' s) ∧
          ∀ s : Nat, (s : Int) ∉ usedOn v.disk → d'' s = e s
  | _ => True

/-- A request through the handle of a removed file is in range, and the free map marks none of
its sectors. -/
def Unmarked (v : Volume) : Call → Prop
  | .readAt file n p => ∀ h, v.handles[file]? = some h → h.live = false →
      InRange h.hdr n.toInt p.toInt ∧
        ∀ s ∈ requestSectors h.hdr n.toInt p.toInt, bitOf (freeMapOn v.disk) s.toNat = false
  | .writeAt file _ n p _ => ∀ h, v.handles[file]? = some h → h.live = false →
      InRange h.hdr n.toInt p.toInt ∧
        ∀ s ∈ requestSectors h.hdr n.toInt p.toInt, bitOf (freeMapOn v.disk) s.toNat = false
  | _ => True

section Requests

variable {v v' : Volume} {l : Layout} {c : Call} {h : Handle} {bytes : Nat}
  {sectors : List Nat} {n p : Int}

theorem Describes.mem_requestSectors {h : FileHeader} (describes : Describes h bytes sectors)
    (range : InRange h n p) {s : Nat}
    (member : s ∈ touched sectors p.toNat (transferred bytes n p)) :
    (s : Int) ∈ requestSectors h n p := by
  obtain ⟨-, none⟩ | ⟨n', p', rfl, rfl, inside, some, -⟩ := describes.request range
  · rw [none] at member
    cases member
  · have length := describes.fileLength (by omega)
    generalize written : transferred bytes n' p' = m at member
    have written : min n' (bytes - p') = m := written
    have count : (if (p' : Int) + n' > bytes then (bytes : Int) - p' else n') = (m : Int) := by
      split <;> omega
    obtain ⟨first, last, room⟩ := describes.lastSector (p := p') (n := m) (by omega) (by omega)
    rw [Int.toNat_natCast] at member
    obtain ⟨j, bound, rfl⟩ := (mem_touched (by omega)).mp member
    have index : p' / 128 + j < sectors.length := by omega
    have word := describes.data (p' / 128 + j) (sectors.getD (p' / 128 + j) 0) (by
      rw [List.getD_eq_getElem?_getD, List.getElem?_eq_getElem index, Option.getD_some])
    rw [requestSectors, length, if_neg (by omega)]
    simp only [count, first, last]
    refine List.mem_map.mpr ⟨j, List.mem_range.mpr (by omega), ?_⟩
    rw [Int.toNat_natCast, word]

/-- Sectors that the free map does not mark belong to nobody. -/
theorem Represents.unused {fs : FileSystem} {d : Disk} (rep : Represents fs d l) {hdr : FileHeader}
    (describes : Describes hdr bytes sectors) (range : InRange hdr n p)
    (clear : ∀ s ∈ requestSectors hdr n p, bitOf (Disk.freeMapOn d) s.toNat = false) :
    ∀ s ∈ touched sectors p.toNat (transferred bytes n p), s ∉ l.used := by
  intro s member used
  have bit := clear s (describes.mem_requestSectors range member)
  have bound := describes.bound s (describes.touched_request range member)
  rw [Int.toNat_natCast, rep.freeMapOn, rep.marks s bound, decide_eq_true used] at bit
  cases bit

theorem Unmarked.harmless (sound : Sound v l) (unmarked : Unmarked v c) : Harmless v l c := by
  cases c with
  | writeAt file source n p garbage =>
      intro h bytes sectors held removed ok
      obtain ⟨range, clear⟩ := unmarked h held removed
      exact sound.represents.unused ok.describes range clear
  | _ => trivial

/-- One request through the handle of a removed file. -/
theorem Sound.isolated (sound : Sound v l) (unmarked : Unmarked v c) : Isolated v c := by
  cases c with
  | readAt file n p =>
      intro h held removed
      obtain ⟨range, clear⟩ := unmarked h held removed
      obtain ⟨-, bytes, sectors, ok⟩ := sound.handle held
      have unused := sound.represents.unused ok.describes range clear
      refine ⟨block (contents v.disk sectors) p.toInt.toNat (transferred bytes n.toInt p.toInt),
        fun d' agrees => ?_⟩
      rw [ok.describes.read_congr (d := v.disk) range]
      · exact ok.describes.read range
      · intro s member
        exact agrees s fun used => unused s member (sound.represents.mem_usedOn.mp used)
  | writeAt file source n p garbage =>
      intro h held removed
      obtain ⟨range, clear⟩ := unmarked h held removed
      obtain ⟨-, bytes, sectors, ok⟩ := sound.handle held
      have unused := sound.represents.unused ok.describes range clear
      obtain ⟨e, wrote, -, kept⟩ := ok.describes.write (d := v.disk) source garbage
        ok.distinct range
      refine ⟨(transferred bytes n.toInt p.toInt : Nat), e, fun d' agrees => ?_⟩
      have same : ∀ s ∈ touched sectors p.toInt.toNat (transferred bytes n.toInt p.toInt),
          d' s = v.disk s :=
        fun s member => agrees s fun used => unused s member (sound.represents.mem_usedOn.mp used)
      obtain ⟨e', wrote', left⟩ := ok.describes.write_congr ok.distinct range same wrote
      obtain ⟨e'', again, -, kept'⟩ := ok.describes.write (d := d') source garbage
        ok.distinct range
      rw [wrote', Except.ok.injEq, Prod.mk.injEq] at again
      obtain ⟨-, rfl⟩ := again
      refine ⟨e', wrote', fun s used => ?_, fun s free => ?_⟩
      · exact kept' s fun member => unused s member (sound.represents.mem_usedOn.mp used)
      · by_cases member : s ∈ touched sectors p.toInt.toNat (transferred bytes n.toInt p.toInt)
        · exact left s member
        · rw [kept' s member, kept s member, agrees s free]
  | _ => trivial

theorem Sound.stale_runs {calls : List Call} (sound : Sound v l)
    (unmarked : AllSteps Volume.step Unmarked v calls) :
    AllSteps Volume.step Isolated v calls := by
  induction calls generalizing v l with
  | nil => trivial
  | cons c calls ih =>
      refine ⟨sound.isolated unmarked.1, fun v' moved => ?_⟩
      obtain ⟨e, stops, -⟩ | ⟨r, w, l', done, -, keeps⟩ := sound.call c
      · rw [Volume.step, stops] at moved
        cases moved
      · obtain rfl : w = v' := Option.some.inj
          ((Volume.step_eq_some.mpr ⟨r, done⟩).symm.trans moved)
        exact ih (keeps (unmarked.1.harmless sound)) (unmarked.2 w moved)

end Requests

/-- **A handle of a removed file is isolated** as long as the sectors of its requests have not
been given out again: in every run from a formatted disk whose requests through such handles are in
range and go to sectors that the free map does not mark. -/
theorem stale_handles_isolated (d : Disk) (fresh : Nat → Nat → Byte) :
    ∃ v, formatted d fresh = .ok v ∧ ∀ calls, AllSteps Volume.step Unmarked v calls →
      AllSteps Volume.step Isolated v calls := by
  obtain ⟨v, done, sound, -, -⟩ := formatted_sound d fresh
  exact ⟨v, done, fun calls unmarked => sound.stale_runs unmarked⟩

/-- A file of one sector is created, opened and removed: its handle stays. -/
theorem Sound.stale_handle {v : Volume} (sound : Sound v fun _ => none) (empty : v.handles = [])
    (name : Nat → Byte) (fresh : Nat → Nat → Byte) :
    ∃ v₁ v₂ w hdr, v.step (.create name 128 fresh) = some v₁ ∧
      v₁.step (.open name fresh) = some v₂ ∧
      v₂.step (.remove name fresh) = some w ∧
      w.handles = [⟨hdr, chars name fileNameMaxLen 0, false⟩] ∧ Describes hdr 128 [6] ∧
      Sound w (fun _ => none) ∧ ∀ s, 6 ≤ s → w.disk s = v.disk s := by
  obtain ⟨v₁, v₂, i, hdr, created, opened, handles, describes, inside, sound₂, kept⟩ :=
    sound.first_handle empty name fresh 128 1 (by decide) (by decide)
  obtain ⟨d, removed, sound₃, kept'⟩ := sound₂.removes inside
    (Function.update_self ..) name fresh rfl
  refine ⟨v₁, v₂, _, hdr, created, opened, Volume.step_eq_some.mpr ⟨_, removed⟩, ?_, describes, ?_,
    fun s high => ?_⟩
  · rw [handles]
    simp [Handle.retire]
  · rwa [Function.update_idem, Function.update_eq_self] at sound₃
  · rw [← kept s high]
    exact kept' s (by simp; omega)

/-- A handle is read and written after its file was removed, while its sector is free. -/
theorem stale_handles_isolated_five : ∃ v, formatted (fun _ _ => 0) (fun _ _ => 0) = .ok v ∧
    AllSteps Volume.step Isolated v
      [.create (letter 97) 128 fun _ _ => 0, .open (letter 97) fun _ _ => 0,
      .remove (letter 97) fun _ _ => 0, .readAt 0 1 0, .writeAt 0 (fun _ => 1) 1 0 fun _ => 0] := by
  obtain ⟨v, done, all⟩ := stale_handles_isolated (fun _ _ => 0) (fun _ _ => 0)
  obtain ⟨v', done', sound, empty, -⟩ := formatted_sound (fun _ _ => 0) (fun _ _ => 0)
  obtain rfl : v = v' := Except.ok.inj (done.symm.trans done')
  obtain ⟨v₁, v₂, w, hdr, created, opened, removed, handles, describes, sound₃, -⟩ :=
    sound.stale_handle empty (letter 97) fun _ _ => 0
  have length : hdr.fileLength = 128 := describes.fileLength (by decide)
  have request : requestSectors hdr (1 : Word).toInt (0 : Word).toInt = [6] := by
    have word : (hdr 2).toInt = 6 := describes.data 0 6 rfl
    have one : requestSectors hdr (1 : Word).toInt (0 : Word).toInt = [(hdr 2).toInt] := by
      rw [requestSectors, length]
      rfl
    rw [one, word]
  have clear : bitOf (freeMapOn w.disk) 6 = false := by
    rw [sound₃.represents.freeMapOn, sound₃.represents.marks 6 (by decide)]
    decide
  have unmarked : ∀ h, w.handles[0]? = some h → h.live = false →
      InRange h.hdr (1 : Word).toInt (0 : Word).toInt ∧
        ∀ s ∈ requestSectors h.hdr (1 : Word).toInt (0 : Word).toInt,
          bitOf (freeMapOn w.disk) s.toNat = false := by
    intro h held _
    rw [handles] at held
    obtain rfl := Option.some.inj held
    refine ⟨.inr (.inr (by decide)), fun s member => ?_⟩
    rw [request, List.mem_singleton] at member
    rw [member]
    exact clear
  refine ⟨v, done, all _ ?_⟩
  refine .cons trivial created
    (.cons trivial opened (.cons trivial removed ⟨unmarked, fun w' moved => ?_⟩))
  obtain ⟨r, read⟩ := Volume.step_eq_some.mp moved
  have same : w' = w := by
    obtain ⟨e, stops, -⟩ | ⟨r', done, -⟩ := sound₃.readAt 0 1 0
    · rw [stops] at read
      cases read
    · rw [done, Except.ok.injEq, Prod.mk.injEq] at read
      exact read.2.symm
  exact ⟨same ▸ unmarked, fun _ _ => trivial⟩

/-- Once another file has been created in its sector, the handle of a removed file writes to that
file. -/
theorem stale_write_reaches : ∃ v, formatted (fun _ _ => 0) (fun _ _ => 0) = .ok v ∧
    ¬ AllSteps Volume.step Isolated v
      [.create (letter 97) 128 fun _ _ => 0, .open (letter 97) fun _ _ => 0,
      .remove (letter 97) fun _ _ => 0, .create (letter 98) 128 fun _ _ => 0,
      .writeAt 0 (fun _ => 1) 1 0 fun _ => 0] := by
  obtain ⟨v, done, sound, empty, kept⟩ := formatted_sound (fun _ _ => 0) (fun _ _ => 0)
  obtain ⟨v₁, v₂, w, hdr, created, opened, removed, handles, describes, sound₃, kept₃⟩ :=
    sound.stale_handle empty (letter 97) fun _ _ => 0
  obtain ⟨i, d, inside, created', sound₄, kept₄⟩ :=
    sound₃.first_file (letter 98) (fun _ _ => 0) 128 1
    (by decide) (by decide)
  refine ⟨v, done, fun isolated => ?_⟩
  have last := (((isolated.2 v₁ created).2 v₂ opened).2 w removed).2 _
    (Volume.step_eq_some.mpr ⟨_, created'⟩)
  obtain ⟨count, e, all⟩ := last.1 ⟨hdr, chars (letter 97) fileNameMaxLen 0, false⟩
    (by rw [handles]; rfl) rfl
  obtain ⟨d'', wrote, same, -⟩ := all d fun _ _ => rfl
  -- sector 6 is the data of the new file
  have used : ((6 : Nat) : Int) ∈ usedOn d :=
    sound₄.represents.mem_usedOn.mpr
      (sound₄.represents.data_used inside (Function.update_self ..) (by simp))
  have old : d 6 0 = 0 := by
    rw [kept₄ 6 (by decide), kept₃ 6 (by decide), kept 6 (by decide)]
  obtain ⟨e', wrote', spliced, -⟩ := describes.write (d := d) (fun _ => 1) (fun _ => 0)
    (n := (1 : Word).toInt) (p := (0 : Word).toInt) (List.nodup_singleton 6)
      (.inr (.inr (by decide)))
  rw [wrote, Except.ok.injEq, Prod.mk.injEq] at wrote'
  obtain ⟨-, rfl⟩ := wrote'
  have new : d'' 6 0 = 1 := spliced 0 (by decide)
  rw [same 6 used, old] at new
  exact absurd new (by decide)

end Nachos.Disk
