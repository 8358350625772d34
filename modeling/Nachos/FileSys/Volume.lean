/-
# Nachos.FileSys.Volume -- the file system with its open files

The system that one thread drives: the disk, the two files that the file system keeps open,
and the `OpenFile` objects that `Open` has returned.  An `OpenFile` has its own copy of the
header.  For the specification a handle also keeps the name it was opened by, and whether its
file has been removed since; no call looks at either.

`Sound` ties a state to a layout: the disk represents it, and the handle of a file that is
still there describes that file.  `Sound.call` says once what a call can do; what follows
about metadata, contents and handles is derived from it.
-/
import Nachos.FileSys.FileSystem
import Nachos.Lib.Run

namespace Nachos.Disk

open Nachos.Lib.Bytes
open Nachos.Lib.Run

set_option autoImplicit false

/-- An `OpenFile`. -/
structure Handle where
  hdr : FileHeader
  name : List Byte
  live : Bool

/-- Its file has been removed. -/
def Handle.retire (name : List Byte) (h : Handle) : Handle :=
  if h.name = name then { h with live := false } else h

structure Volume where
  disk : Disk
  fs : FileSystem
  handles : List Handle

/-- A call, with the memory that `new` returns in it. -/
inductive Call where
  | create (name : Nat → Byte) (initialSize : Word) (fresh : Nat → Nat → Byte)
  | remove (name : Nat → Byte) (fresh : Nat → Nat → Byte)
  | open (name : Nat → Byte) (fresh : Nat → Nat → Byte)
  | readAt (file : Nat) (numBytes position : Word)
  | writeAt (file : Nat) (source : Nat → Byte) (numBytes position : Word) (garbage : Nat → Byte)

inductive Result where
  | created (success : Bool)
  | removed (success : Bool)
  | opened (success : Bool)
  | read (bytes : List Byte)
  | wrote (count : Int)

namespace Volume

/-- The handle of a call. -/
def handle (v : Volume) (file : Nat) : Except Stop Handle :=
  match v.handles[file]? with
  | none => .error .dangling
  | some h => .ok h

/-- One call. -/
def call (v : Volume) : Call → Except Stop (Result × Volume)
  | .create name initialSize fresh => do
      let (success, disk) ← v.fs.create v.disk name initialSize.toInt fresh
      return (.created success, { v with disk })
  | .remove name fresh => do
      let (success, disk) ← v.fs.remove v.disk name fresh
      if success then
        return (.removed true,
          { v with disk, handles := v.handles.map (Handle.retire (chars name fileNameMaxLen 0)) })
      return (.removed false, { v with disk })
  | .open name fresh => do
      match ← v.fs.open v.disk name fresh with
      | none => return (.opened false, v)
      | some hdr =>
          return (.opened true,
            { v with handles := v.handles ++ [⟨hdr, chars name fileNameMaxLen 0, true⟩] })
  | .readAt file numBytes position => do
      let h ← v.handle file
      return (.read (← readAt v.disk h.hdr numBytes.toInt position.toInt), v)
  | .writeAt file source numBytes position garbage => do
      let h ← v.handle file
      let (count, disk) ← writeAt v.disk h.hdr source numBytes.toInt position.toInt garbage
      return (.wrote count, { v with disk })

def step (v : Volume) (c : Call) : Option Volume := (v.call c).toOption.map Prod.snd

theorem step_eq_some {v v' : Volume} {c : Call} :
    v.step c = some v' ↔ ∃ r, v.call c = .ok (r, v') := by
  unfold step
  cases v.call c with
  | error e => simp [Except.toOption]
  | ok pair =>
      obtain ⟨r, w⟩ := pair
      simp [Except.toOption]

end Volume

/-! ## Soundness -/

/-- A handle describes a file, and if that file is still there it is the one of its name. -/
structure HandleOk (l : Layout) (h : Handle) (bytes : Nat) (sectors : List Nat) : Prop where
  describes : Describes h.hdr bytes sectors
  distinct : sectors.Nodup
  listed : h.live = true →
    ∃ i f, i < numDirEntries ∧ l i = some f ∧ f.name = h.name ∧ f.length = bytes ∧
    f.sectors = sectors

/-- The disk represents the layout, and the handles fit it. -/
structure Sound (v : Volume) (l : Layout) : Prop where
  represents : Represents v.fs v.disk l
  handles : ∀ h ∈ v.handles, ∃ bytes sectors, HandleOk l h bytes sectors

/-- What a call does. -/
inductive Does (v : Volume) (l : Layout) : Call → Result → Volume → Layout → Prop where
  | refused {name : Nat → Byte} {size : Word} {fresh : Nat → Nat → Byte}
      (why : Refused l (chars name fileNameMaxLen 0) size.toInt) :
      Does v l (.create name size fresh) (.created false) v l
  | created {name : Nat → Byte} {size : Word} {fresh : Nat → Nat → Byte} {i : Nat}
      {f : File} {d : Disk}
      (added : Added l i f) (named : f.name = chars name fileNameMaxLen 0)
      (sized : f.length = size.toInt.toNat) (kept : ∀ s, s ∉ [2, 3, 4, f.header] → d s = v.disk s) :
      Does v l (.create name size fresh) (.created true) { v with disk := d }
        (Function.update l i (some f))
  | absent {name : Nat → Byte} {fresh : Nat → Nat → Byte}
      (unnamed : ∀ j < numDirEntries, ∀ g, l j = some g → g.name ≠ chars name fileNameMaxLen 0) :
      Does v l (.remove name fresh) (.removed false) v l
  | removed {name : Nat → Byte} {fresh : Nat → Nat → Byte} {i : Nat} {f : File} {d : Disk}
      (inside : i < numDirEntries) (there : l i = some f)
        (named : f.name = chars name fileNameMaxLen 0)
      (kept : ∀ s, s ∉ [2, 3, 4] → d s = v.disk s) :
      Does v l (.remove name fresh) (.removed true)
        { v with disk := d, handles := v.handles.map (Handle.retire (chars name fileNameMaxLen 0)) }
        (Function.update l i none)
  | missed {name : Nat → Byte} {fresh : Nat → Nat → Byte}
      (unnamed : ∀ j < numDirEntries, ∀ g, l j = some g → g.name ≠ chars name fileNameMaxLen 0) :
      Does v l (.open name fresh) (.opened false) v l
  | opened {name : Nat → Byte} {fresh : Nat → Nat → Byte} {i : Nat} {f : File}
      (inside : i < numDirEntries) (there : l i = some f)
        (named : f.name = chars name fileNameMaxLen 0) :
      Does v l (.open name fresh) (.opened true)
        { v with handles := v.handles ++
          [⟨words (v.disk f.header), chars name fileNameMaxLen 0, true⟩] } l
  | read {file : Nat} {n p : Word} {h : Handle} {bytes : Nat} {sectors : List Nat}
      (held : v.handles[file]? = some h) (ok : HandleOk l h bytes sectors)
      (range : InRange h.hdr n.toInt p.toInt) :
      Does v l (.readAt file n p)
        (.read (block (contents v.disk sectors) p.toInt.toNat (transferred bytes n.toInt p.toInt)))
          v l
  | wrote {file : Nat} {source : Nat → Byte} {n p : Word} {garbage : Nat → Byte} {h : Handle}
      {bytes : Nat}
      {sectors : List Nat} {d : Disk}
      (held : v.handles[file]? = some h) (ok : HandleOk l h bytes sectors)
      (range : InRange h.hdr n.toInt p.toInt)
      (spliced : ∀ q < bytes, contents d sectors q = splice (contents v.disk sectors) p.toInt.toNat
        (block source 0 (transferred bytes n.toInt p.toInt)) q)
      (kept : ∀ s, s ∉ touched sectors p.toInt.toNat (transferred bytes n.toInt p.toInt) →
        d s = v.disk s) :
      Does v l (.writeAt file source n p garbage) (.wrote (transferred bytes n.toInt p.toInt : Nat))
        { v with disk := d } l

/-- What the calls are written for: a size that fits in a header, and a request in range. -/
def Fine (v : Volume) : Call → Prop
  | .create _ size _ => size.toInt ≤ maxFileSize
  | .readAt file n p => ∃ h, v.handles[file]? = some h ∧ InRange h.hdr n.toInt p.toInt
  | .writeAt file _ n p _ => ∃ h, v.handles[file]? = some h ∧ InRange h.hdr n.toInt p.toInt
  | _ => True

/-- A write through the handle of a removed file touches no sector that is in use. -/
def Harmless (v : Volume) (l : Layout) : Call → Prop
  | .writeAt file _ n p _ => ∀ h bytes sectors, v.handles[file]? = some h → h.live = false →
      HandleOk l h bytes sectors →
      ∀ s ∈ touched sectors p.toInt.toNat (transferred bytes n.toInt p.toInt), s ∉ l.used
  | _ => True

section Calls

variable {v v' : Volume} {l l' : Layout} {c : Call} {r : Result} {h : Handle} {f : File}
  {i bytes : Nat} {sectors : List Nat}

theorem word_bounds (w : Word) : -maxInt - 1 ≤ w.toInt ∧ w.toInt ≤ maxInt := by
  have low := BitVec.le_toInt w
  have high := BitVec.toInt_lt (x := w)
  simp only [maxInt]
  omega

theorem HandleOk.enter (ok : HandleOk l h bytes sectors) (empty : l i = none) :
    HandleOk (Function.update l i (some f)) h bytes sectors := by
  refine ⟨ok.describes, ok.distinct, fun live => ?_⟩
  obtain ⟨j, g, inside, there, rest⟩ := ok.listed live
  refine ⟨j, g, inside, ?_, rest⟩
  rw [Function.update_of_ne, there]
  rintro rfl
  rw [empty] at there
  cases there

theorem HandleOk.retire (ok : HandleOk l h bytes sectors) (there : l i = some f) :
    HandleOk (Function.update l i none) (h.retire f.name) bytes sectors := by
  unfold Handle.retire
  split
  · exact ⟨ok.describes, ok.distinct, nofun⟩
  · rename_i other
    refine ⟨ok.describes, ok.distinct, fun live => ?_⟩
    obtain ⟨j, g, inside, there', named, rest⟩ := ok.listed live
    refine ⟨j, g, inside, ?_, named, rest⟩
    rw [Function.update_of_ne, there']
    rintro rfl
    rw [there, Option.some.injEq] at there'
    exact other (there' ▸ named.symm)

/-- A write to the data of a file leaves all metadata alone. -/
theorem Represents.write {fs : FileSystem} {d d' : Disk} (rep : Represents fs d l)
    (inside : i < numDirEntries)
    (there : l i = some f) (kept : ∀ s, s ∉ f.sectors → d' s = d s) : Represents fs d' l := by
  obtain ⟨distinct, apart⟩ := rep.apart inside there
  rw [own, List.nodup_cons] at distinct
  refine rep.frame (fun s small => kept s fun member => ?_) fun j bound g there' =>
    kept _ fun member => ?_
  · have := (apart s (List.mem_cons_of_mem _ member)).1
    omega
  · by_cases same : j = i
    · rw [same, there, Option.some.injEq] at there'
      exact distinct.1 (there' ▸ member)
    · exact (apart g.header (List.mem_cons_of_mem _ member)).2 j bound same (own_mem there').1

theorem Sound.handle (sound : Sound v l) {file : Nat} (held : v.handles[file]? = some h) :
    v.handle file = .ok h ∧ ∃ bytes sectors, HandleOk l h bytes sectors := by
  refine ⟨?_, sound.handles h (List.mem_of_getElem? held)⟩
  rw [Volume.handle, held]

theorem Sound.create (sound : Sound v l) (name : Nat → Byte) (size : Word)
    (fresh : Nat → Nat → Byte) :
    (∃ e, v.call (.create name size fresh) = .error e ∧ ¬ Fine v (.create name size fresh)) ∨
      ∃ r v' l', v.call (.create name size fresh) = .ok (r, v') ∧
        Does v l (.create name size fresh) r v' l' ∧ Sound v' l' := by
  obtain ⟨low, high⟩ := word_bounds size
  obtain ⟨large, -, e, stops⟩ | ⟨refused, why⟩ | ⟨i, f, d, done, added, named, sized, -,
      rep, kept⟩ :=
    sound.represents.create name fresh low high
  · exact .inl ⟨e, by rw [Volume.call, stops]; rfl, Int.not_le.mpr large⟩
  · exact .inr ⟨_, v, l, by rw [Volume.call, refused]; rfl, .refused why, sound⟩
  · refine .inr ⟨_, _, _, by rw [Volume.call, done]; rfl, .created added named sized kept, rep, ?_⟩
    intro h member
    obtain ⟨bytes, sectors, ok⟩ := sound.handles h member
    exact ⟨bytes, sectors, ok.enter added.empty⟩

theorem Sound.remove (sound : Sound v l) (name : Nat → Byte) (fresh : Nat → Nat → Byte) :
    ∃ r v' l', v.call (.remove name fresh) = .ok (r, v') ∧ Does v l (.remove name fresh) r v' l' ∧
      Sound v' l' := by
  obtain ⟨refused, unnamed⟩ | ⟨i, f, d, inside, there, named, done, rep, kept⟩ :=
    sound.represents.remove name fresh
  · exact ⟨_, v, l, by rw [Volume.call, refused]; rfl, .absent unnamed, sound⟩
  · refine ⟨_, _, _, by rw [Volume.call, done]; rfl, .removed inside there named kept, rep, ?_⟩
    intro h member
    obtain ⟨old, there', rfl⟩ := List.mem_map.mp member
    obtain ⟨bytes, sectors, ok⟩ := sound.handles old there'
    exact ⟨bytes, sectors, named ▸ ok.retire there⟩

/-- One more handle, to a file that is there. -/
theorem Sound.hold (sound : Sound v l) (inside : i < numDirEntries) (there : l i = some f)
    {name : List Byte} (named : f.name = name) :
    Sound { v with handles := v.handles ++ [⟨words (v.disk f.header), name, true⟩] } l := by
  refine ⟨sound.represents, fun h member => ?_⟩
  obtain member | last := List.mem_append.mp member
  · exact sound.handles h member
  · rw [List.mem_singleton.mp last]
    have distinct := (sound.represents.apart inside there).1
    rw [own, List.nodup_cons] at distinct
    exact ⟨f.length, f.sectors, sound.represents.headers i inside f there, distinct.2,
      fun _ => ⟨i, f, inside, there, named, rfl, rfl⟩⟩

theorem Sound.open (sound : Sound v l) (name : Nat → Byte) (fresh : Nat → Nat → Byte) :
    ∃ r v' l', v.call (.open name fresh) = .ok (r, v') ∧ Does v l (.open name fresh) r v' l' ∧
      Sound v' l' := by
  obtain ⟨refused, unnamed⟩ | ⟨i, f, inside, there, named, done⟩ :=
    sound.represents.open name fresh
  · exact ⟨_, v, l, by rw [Volume.call, refused]; rfl, .missed unnamed, sound⟩
  · exact ⟨_, _, l, by rw [Volume.call, done]; rfl, .opened inside there named,
      sound.hold inside there named⟩

theorem Sound.readAt (sound : Sound v l) (file : Nat) (n p : Word) :
    (∃ e, v.call (.readAt file n p) = .error e ∧ ¬ Fine v (.readAt file n p)) ∨
      ∃ r, v.call (.readAt file n p) = .ok (r, v) ∧ Does v l (.readAt file n p) r v l := by
  cases held : v.handles[file]? with
  | none =>
      refine .inl ⟨.dangling, ?_, ?_⟩
      · rw [Volume.call, Volume.handle, held]
        rfl
      · rintro ⟨h, there, -⟩
        rw [held] at there
        cases there
  | some h =>
      obtain ⟨found, bytes, sectors, ok⟩ := sound.handle held
      by_cases range : InRange h.hdr n.toInt p.toInt
      · have done := ok.describes.read (d := v.disk) range
        exact .inr ⟨_, by rw [Volume.call, found, ok_bind, done]; rfl, .read held ok range⟩
      · obtain ⟨e, stops⟩ := readAt_outside (d := v.disk) range
        refine .inl ⟨e, by rw [Volume.call, found, ok_bind, stops]; rfl, ?_⟩
        rintro ⟨g, there, inRange⟩
        rw [held, Option.some.injEq] at there
        exact range (there ▸ inRange)

theorem Sound.writeAt (sound : Sound v l) (file : Nat) (source : Nat → Byte) (n p : Word)
    (garbage : Nat → Byte) :
    (∃ e, v.call (.writeAt file source n p garbage) = .error e ∧
      ¬ Fine v (.writeAt file source n p garbage)) ∨
      ∃ r v', v.call (.writeAt file source n p garbage) = .ok (r, v') ∧
        Does v l (.writeAt file source n p garbage) r v' l ∧
        (Harmless v l (.writeAt file source n p garbage) → Sound v' l) := by
  cases held : v.handles[file]? with
  | none =>
      refine .inl ⟨.dangling, ?_, ?_⟩
      · rw [Volume.call, Volume.handle, held]
        rfl
      · rintro ⟨h, there, -⟩
        rw [held] at there
        cases there
  | some h =>
      obtain ⟨found, bytes, sectors, ok⟩ := sound.handle held
      by_cases range : InRange h.hdr n.toInt p.toInt
      · obtain ⟨d, done, spliced, kept⟩ := ok.describes.write (d := v.disk) source garbage
          ok.distinct range
        refine .inr ⟨_, _, by rw [Volume.call, found, ok_bind, done]; rfl,
          .wrote held ok range spliced kept, fun harmless => ⟨?_, sound.handles⟩⟩
        by_cases live : h.live = true
        · obtain ⟨i, f, inside, there, -, -, data⟩ := ok.listed live
          refine sound.represents.write inside there fun s other => kept s fun member => other ?_
          rw [data]
          exact ok.describes.touched_request range member
        · have unused := harmless h bytes sectors held (by simpa using live) ok
          refine sound.represents.frame (fun s small => kept s fun member => ?_)
            fun i inside f there => kept _ fun member => ?_
          · exact unused s member (Layout.mem_used.mpr (.inl small))
          · exact unused _ member (sound.represents.header_used inside there)
      · obtain ⟨e, stops⟩ := writeAt_outside (d := v.disk) source garbage range
        refine .inl ⟨e, by rw [Volume.call, found, ok_bind, stops]; rfl, ?_⟩
        rintro ⟨g, there, inRange⟩
        rw [held, Option.some.injEq] at there
        exact range (there ▸ inRange)

/-- **What a call does to a sound volume**: it is undefined, and then it is not one the calls are
written for; or it returns, and the volume stays sound unless a removed file is written to. -/
theorem Sound.call (sound : Sound v l) (c : Call) :
    (∃ e, v.call c = .error e ∧ ¬ Fine v c) ∨
      ∃ r v' l', v.call c = .ok (r, v') ∧ Does v l c r v' l' ∧ (Harmless v l c → Sound v' l') := by
  cases c with
  | create name size fresh =>
      obtain stops | ⟨r, v', l', done, does, sound'⟩ := sound.create name size fresh
      · exact .inl stops
      · exact .inr ⟨r, v', l', done, does, fun _ => sound'⟩
  | remove name fresh =>
      obtain ⟨r, v', l', done, does, sound'⟩ := sound.remove name fresh
      exact .inr ⟨r, v', l', done, does, fun _ => sound'⟩
  | «open» name fresh =>
      obtain ⟨r, v', l', done, does, sound'⟩ := sound.open name fresh
      exact .inr ⟨r, v', l', done, does, fun _ => sound'⟩
  | readAt file n p =>
      obtain stops | ⟨r, done, does⟩ := sound.readAt file n p
      · exact .inl stops
      · exact .inr ⟨r, v, l, done, does, fun _ => sound⟩
  | writeAt file source n p garbage =>
      obtain stops | ⟨r, v', done, does, sound'⟩ := sound.writeAt file source n p garbage
      · exact .inl stops
      · exact .inr ⟨r, v', l, done, does, sound'⟩

/-- A request that returns was in range. -/
theorem inRange_of_call {file : Nat} {n p : Word} (held : v.handles[file]? = some h) :
    (∀ r v', v.call (.readAt file n p) = .ok (r, v') → InRange h.hdr n.toInt p.toInt) ∧
      ∀ source garbage r v', v.call (.writeAt file source n p garbage) = .ok (r, v') →
        InRange h.hdr n.toInt p.toInt := by
  have found : v.handle file = .ok h := by rw [Volume.handle, held]
  refine ⟨fun r v' done => ?_, fun source garbage r v' done => ?_⟩
  · by_contra outside
    obtain ⟨e, stops⟩ := readAt_outside (d := v.disk) outside
    rw [Volume.call, found, ok_bind, stops] at done
    cases done
  · by_contra outside
    obtain ⟨e, stops⟩ := writeAt_outside (d := v.disk) source garbage outside
    rw [Volume.call, found, ok_bind, stops] at done
    cases done

/-- The first file of an empty directory is put in the sectors from 5 on. -/
theorem Sound.first_file (sound : Sound v fun _ => none) (name : Nat → Byte)
    (fresh : Nat → Nat → Byte)
    (size : Word) (n : Nat) (count : (size.toInt.toNat + 127) / 128 = n)
      (small : size.toInt ≤ maxFileSize) :
    ∃ i d, i < numDirEntries ∧
      v.call (.create name size fresh) = .ok (.created true, { v with disk := d }) ∧
      Sound { v with disk := d } (Function.update (fun _ => none) i
        (some ⟨chars name fileNameMaxLen 0, 5, size.toInt.toNat, List.range' 6 n⟩)) ∧
      ∀ s, 6 ≤ s → d s = v.disk s := by
  have used : Layout.used (fun _ => none) = [0, 1, 2, 3, 4] := rfl
  obtain ⟨e, -, large⟩ | ⟨r, v', l', done, does, keeps⟩ := sound.call (.create name size fresh)
  · exact absurd small large
  · have sound' := keeps trivial
    cases does with
    | refused why =>
        obtain ⟨j, -, g, there, -⟩ | full | few := why
        · cases there
        · exact absurd rfl (full 0 (by decide))
        · have enough := few (List.range' 5 (n + 1)) List.nodup_range' (fun s member => by
            obtain ⟨low, high⟩ := List.mem_range'_1.mp member
            simp only [maxFileSize, sectorSize, numDirect] at small
            rw [used]
            simp only [numSectors, List.mem_cons, List.not_mem_nil, or_false, not_or]
            omega)
          rw [List.length_range'] at enough
          omega
    | @created _ _ _ i f d added named sized kept =>
        have describes := sound'.represents.headers i added.inside f (Function.update_self ..)
        have place : own (some f) = List.range' 5 (own (some f)).length := by
          refine eq_range_of_lowest added.sorted (fun s member => ?_) fun s member j high below =>
            ?_
          · have unused := added.unused s member
            rw [used] at unused
            simp only [List.mem_cons, List.not_mem_nil, or_false, not_or] at unused
            omega
          · refine (added.lowest s member j below).resolve_right ?_
            rw [used]
            simp only [List.mem_cons, List.not_mem_nil, or_false, not_or]
            omega
        have length : f.sectors.length = n := by rw [describes.size, sized, count]
        rw [own, List.length_cons, length] at place
        obtain ⟨header, sectors⟩ := List.cons.inj place
        have file : f = ⟨chars name fileNameMaxLen 0, 5, size.toInt.toNat, List.range' 6 n⟩ := by
          rw [← named, ← sized, ← header]
          cases f
          simp only at sectors ⊢
          rw [sectors]
        refine ⟨i, d, added.inside, done, file ▸ sound', fun s high => kept s ?_⟩
        simp only [List.mem_cons, List.not_mem_nil, or_false, not_or, header]
        omega

theorem Sound.opens (sound : Sound v l) (inside : i < numDirEntries) (there : l i = some f)
    (name : Nat → Byte) (fresh : Nat → Nat → Byte) (named : f.name = chars name fileNameMaxLen 0) :
    v.call (.open name fresh) = .ok (.opened true,
      { v with handles := v.handles ++
        [⟨words (v.disk f.header), chars name fileNameMaxLen 0, true⟩] }) := by
  rw [Volume.call, sound.represents.opens inside there named fresh]
  rfl

theorem Sound.removes (sound : Sound v l) (inside : i < numDirEntries) (there : l i = some f)
    (name : Nat → Byte) (fresh : Nat → Nat → Byte) (named : f.name = chars name fileNameMaxLen 0) :
    ∃ d, v.call (.remove name fresh) = .ok (.removed true,
        { v with
          disk := d
          handles := v.handles.map (Handle.retire (chars name fileNameMaxLen 0)) }) ∧
      Sound { v with
          disk := d
          handles := v.handles.map (Handle.retire (chars name fileNameMaxLen 0)) }
        (Function.update l i none) ∧
      ∀ s, s ∉ [2, 3, 4] → d s = v.disk s := by
  obtain ⟨r, v', l', done, does, sound'⟩ := sound.remove name fresh
  cases does with
  | absent unnamed => exact absurd named (unnamed i inside f there)
  | @removed _ _ j g d bound there' named' kept =>
      obtain rfl := sound.represents.names i inside j bound f g there there'
        (named.trans named'.symm)
      exact ⟨d, done, sound', kept⟩

end Calls

end Nachos.Disk
