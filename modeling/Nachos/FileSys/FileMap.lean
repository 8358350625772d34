/-
# Nachos.FileSys.FileMap -- the file system as a map from names to bytes

What the file system is for: names, as far as `strncmp` looks at them, have arrays of bytes,
and an `OpenFile` stands for a name.  `Spec` says what each call may do to that map and what
it returns; `Create` may refuse, and a new file starts with any bytes.

`Simulates` runs the code and the map side by side: after every call, opening any name and
reading the whole file gives what the map has.  The only calls for which this fails are
requests whose end is not an `int`: `position + numBytes` overflows in the check that should
shorten them.
-/
import Nachos.FileSys.Metadata

namespace Nachos.Disk

open Nachos.Lib.Bytes
open Nachos.Lib.Run

set_option autoImplicit false

/-! ## The map -/

structure Files where
  files : List Byte → Option (List Byte)
  handles : List (List Byte × Bool)

/-- Some bytes of a file are replaced. -/
def overwrite (bytes : List Byte) (p : Nat) (new : List Byte) : List Byte :=
  bytes.take p ++ new ++ bytes.drop (p + new.length)

/-- A handle to a file that has been removed. -/
def retired (name : List Byte) (h : List Byte × Bool) : List Byte × Bool :=
  if h.1 = name then (h.1, false) else h

/-- What a call may do to the map, and what it returns. -/
inductive Spec (a : Files) : Call → Result → Files → Prop where
  | refused {name : Nat → Byte} {size : Word} {fresh : Nat → Nat → Byte} :
      Spec a (.create name size fresh) (.created false) a
  | created {name : Nat → Byte} {size : Word} {fresh : Nat → Nat → Byte} {bytes : List Byte}
      (new : a.files (chars name fileNameMaxLen 0) = none) (sized : bytes.length = size.toInt) :
      Spec a (.create name size fresh) (.created true)
        { a with files := Function.update a.files (chars name fileNameMaxLen 0) (some bytes) }
  | absent {name : Nat → Byte} {fresh : Nat → Nat → Byte}
      (missing : a.files (chars name fileNameMaxLen 0) = none) :
      Spec a (.remove name fresh) (.removed false) a
  | removed {name : Nat → Byte} {fresh : Nat → Nat → Byte}
      (there : (a.files (chars name fileNameMaxLen 0)).isSome = true) :
      Spec a (.remove name fresh) (.removed true)
        { files := Function.update a.files (chars name fileNameMaxLen 0) none
          handles := a.handles.map (retired (chars name fileNameMaxLen 0)) }
  | missed {name : Nat → Byte} {fresh : Nat → Nat → Byte}
      (missing : a.files (chars name fileNameMaxLen 0) = none) :
      Spec a (.open name fresh) (.opened false) a
  | opened {name : Nat → Byte} {fresh : Nat → Nat → Byte}
      (there : (a.files (chars name fileNameMaxLen 0)).isSome = true) :
      Spec a (.open name fresh) (.opened true)
        { a with handles := a.handles ++ [(chars name fileNameMaxLen 0, true)] }
  | read {file : Nat} {n p : Word} {name bytes : List Byte}
      (held : a.handles[file]? = some (name, true)) (there : a.files name = some bytes) :
      Spec a (.readAt file n p) (.read ((bytes.drop p.toInt.toNat).take n.toInt.toNat)) a
  | wrote {file : Nat} {source : Nat → Byte} {n p : Word} {garbage : Nat → Byte}
      {name bytes : List Byte} {count : Nat}
      (held : a.handles[file]? = some (name, true)) (there : a.files name = some bytes)
      (fits : count = min n.toInt.toNat (bytes.length - p.toInt.toNat)) :
      Spec a (.writeAt file source n p garbage) (.wrote count)
        { a with
          files := Function.update a.files name
            (some (overwrite bytes p.toInt.toNat (block source 0 count))) }

/-- A file is opened and read from its first byte to its last. -/
def readBack (v : Volume) (name : Nat → Byte) (fresh : Nat → Nat → Byte) :
    Except Stop (Option (List Byte)) := do
  match ← v.fs.open v.disk name fresh with
  | none => return none
  | some hdr => return some (← readAt v.disk hdr hdr.fileLength 0)

/-- What is read back is what the map has. -/
structure Matches (v : Volume) (a : Files) : Prop where
  files : ∀ name fresh, readBack v name fresh = .ok (a.files (chars name fileNameMaxLen 0))
  handles : v.handles.map (fun h => (h.name, h.live)) = a.handles

/-- The code and the map, call by call. -/
def Simulates : Volume → Files → List Call → Prop
  | v, a, [] => Matches v a
  | v, a, c :: calls => Matches v a ∧
      ∃ r v' a', v.call c = .ok (r, v') ∧ Spec a c r a' ∧ Simulates v' a' calls

/-! ## One call -/

/-- The bytes of a file. -/
def fileBytes (d : Disk) (f : File) : List Byte := block (contents d f.sectors) 0 f.length

/-- The map has the files of the layout. -/
structure Stores (d : Disk) (l : Layout) (a : Files) : Prop where
  here : ∀ i < numDirEntries, ∀ f, l i = some f → a.files f.name = some (fileBytes d f)
  nothing : ∀ name, (∀ i < numDirEntries, ∀ f, l i = some f → f.name ≠ name) → a.files name = none

section Step

variable {v v' : Volume} {l l' : Layout} {a : Files} {c : Call} {r : Result} {f g : File} {i : Nat}
  {d d' : Disk} {fs : FileSystem}

theorem Represents.fileBytes_congr (rep : Represents fs d l) (inside : i < numDirEntries)
    (there : l i = some f)
    (same : ∀ s ∈ f.sectors, d' s = d s) : fileBytes d' f = fileBytes d f := by
  have size := (rep.headers i inside f there).size
  refine block_congr fun q small => contents_congr ?_ same
  rw [size]
  simp only [sectorSize]
  omega

theorem Represents.readBack {v : Volume} (rep : Represents v.fs v.disk l)
    (stores : Stores v.disk l a) (name : Nat → Byte) (fresh : Nat → Nat → Byte) :
    Disk.readBack v name fresh = .ok (a.files (chars name fileNameMaxLen 0)) := by
  unfold Disk.readBack
  obtain ⟨done, unnamed⟩ | ⟨i, f, inside, there, named, done⟩ := rep.open name fresh
  · rw [done, ok_bind, stores.nothing _ unnamed]
    rfl
  · have describes := rep.headers i inside f there
    have length := describes.length
    have small := describes.bytes_le
    have range : InRange (words (v.disk f.header))
        (FileHeader.fileLength (words (v.disk f.header))) 0 := by
      simp only [InRange, FileHeader.fileLength, maxInt]
      omega
    have whole : transferred f.length (FileHeader.fileLength (words (v.disk f.header))) 0 =
        f.length := by
      simp only [transferred, FileHeader.fileLength]
      omega
    rw [done, ok_bind]
    simp only
    rw [describes.read range, whole, ← named, stores.here i inside f there]
    rfl

theorem Sound.matches (sound : Sound v l) (stores : Stores v.disk l a)
    (handles : v.handles.map (fun h => (h.name, h.live)) = a.handles) : Matches v a :=
  ⟨sound.represents.readBack stores, handles⟩

theorem Stores.none_iff (stores : Stores d l a) {name : List Byte} :
    a.files name = none ↔ ∀ i < numDirEntries, ∀ f, l i = some f → f.name ≠ name := by
  refine ⟨fun nothing i inside f there named => ?_, stores.nothing name⟩
  have here := stores.here i inside f there
  rw [named, nothing] at here
  cases here

/-- Another file keeps its bytes when only sectors of this one, or sectors of no file, change. -/
theorem Represents.fileBytes_other (rep : Represents fs d l) {j : Nat} (inside : j < numDirEntries)
    (there : l j = some g) (kept : ∀ s, 5 ≤ s → s ∈ g.sectors → d' s = d s) :
    fileBytes d' g = fileBytes d g :=
  rep.fileBytes_congr inside there fun s member =>
    kept s ((rep.apart inside there).2 s (List.mem_cons_of_mem _ member)).1 member

theorem Stores.enter (stores : Stores d l a) (rep : Represents fs d l) (added : Added l i f)
    (kept : ∀ s, s ∉ [2, 3, 4, f.header] → d' s = d s) :
    Stores d' (Function.update l i (some f))
      { a with files := Function.update a.files f.name (some (fileBytes d' f)) } := by
  refine ⟨fun j inside g there => ?_, fun name unnamed => ?_⟩
  · by_cases here : j = i
    · rw [here, Function.update_self, Option.some.injEq] at there
      simp only [← there, Function.update_self]
    · rw [Function.update_of_ne here] at there
      have same : fileBytes d' g = fileBytes d g := by
        refine rep.fileBytes_other inside there fun s high member => kept s ?_
        have differ : s ≠ f.header := fun same =>
          added.unused f.header (List.mem_cons_self ..) (same ▸ rep.data_used inside there member)
        simp only [List.mem_cons, List.not_mem_nil, or_false, not_or]
        omega
      simp only
      rw [Function.update_of_ne (added.unnamed j inside g there),
        stores.here j inside g there, same]
  · have other : name ≠ f.name := fun same =>
      unnamed i added.inside f (Function.update_self ..) same.symm
    simp only
    rw [Function.update_of_ne other]
    refine stores.nothing name fun j inside g there => unnamed j inside g ?_
    rw [Function.update_of_ne, there]
    rintro rfl
    rw [added.empty] at there
    cases there

theorem Stores.leave (stores : Stores d l a) (rep : Represents fs d l) (inside : i < numDirEntries)
    (there : l i = some f) (kept : ∀ s, s ∉ [2, 3, 4] → d' s = d s)
    (handles : List (List Byte × Bool)) :
    Stores d' (Function.update l i none) ⟨Function.update a.files f.name none, handles⟩ := by
  refine ⟨fun j bound g here => ?_, fun name unnamed => ?_⟩
  · have differ : j ≠ i := by
      rintro rfl
      rw [Function.update_self] at here
      cases here
    rw [Function.update_of_ne differ] at here
    have other : g.name ≠ f.name := fun same =>
      differ (rep.names j bound i inside g f here there same)
    have same : fileBytes d' g = fileBytes d g := by
      refine rep.fileBytes_other bound here fun s high member => kept s ?_
      simp only [List.mem_cons, List.not_mem_nil, or_false, not_or]
      omega
    simp only
    rw [Function.update_of_ne other, stores.here j bound g here, same]
  · simp only
    by_cases mine : name = f.name
    · rw [mine, Function.update_self]
    · rw [Function.update_of_ne mine]
      refine stores.nothing name fun j bound g here => ?_
      by_cases same : j = i
      · rw [same, there, Option.some.injEq] at here
        exact here ▸ fun named => mine named.symm
      · exact unnamed j bound g (by rw [Function.update_of_ne same, here])

theorem Stores.write (stores : Stores d l a) (rep : Represents fs d l) (inside : i < numDirEntries)
    (there : l i = some f) (kept : ∀ s, s ∉ f.sectors → d' s = d s) :
    Stores d' l { a with files := Function.update a.files f.name (some (fileBytes d' f)) } := by
  refine ⟨fun j bound g here => ?_, fun name unnamed => ?_⟩
  · by_cases same : j = i
    · rw [same, there, Option.some.injEq] at here
      simp only [← here, Function.update_self]
    · have other : g.name ≠ f.name := fun named =>
        same (rep.names j bound i inside g f here there named)
      have bytes : fileBytes d' g = fileBytes d g := by
        refine rep.fileBytes_other bound here fun s _ member => kept s fun mine => ?_
        exact ((rep.apart inside there).2 s (List.mem_cons_of_mem _ mine)).2 j bound same
          ((own_mem here).2 s member)
      simp only
      rw [Function.update_of_ne other, stores.here j bound g here, bytes]
  · have other : name ≠ f.name := fun same => unnamed i inside f there same.symm
    simp only
    rw [Function.update_of_ne other]
    exact stores.nothing name unnamed

theorem retired_map (name : List Byte) (handles : List Handle) :
    (handles.map (Handle.retire name)).map (fun h => (h.name, h.live)) =
      (handles.map fun h => (h.name, h.live)).map (retired name) := by
  rw [List.map_map, List.map_map]
  refine List.map_congr_left fun h _ => ?_
  simp only [Function.comp, Handle.retire, retired]
  split <;> rfl

/-- Sizes that fit in a header, and requests at non-negative positions through the handles of
files that are still there. -/
def Regular (v : Volume) : Call → Prop
  | .create _ size _ => 0 ≤ size.toInt ∧ size.toInt ≤ maxFileSize
  | .readAt file _ p => ∃ h, v.handles[file]? = some h ∧ h.live = true ∧ 0 ≤ p.toInt
  | .writeAt file _ _ p _ => ∃ h, v.handles[file]? = some h ∧ h.live = true ∧ 0 ≤ p.toInt
  | _ => True

/-- The file behind a live handle. -/
theorem HandleOk.file {h : Handle} {bytes : Nat} {sectors : List Nat}
    (ok : HandleOk l h bytes sectors)
    (live : h.live = true) : ∃ i f, i < numDirEntries ∧ l i = some f ∧ f.name = h.name ∧
      bytes = f.length ∧ sectors = f.sectors := by
  obtain ⟨i, f, inside, there, named, length, data⟩ := ok.listed live
  exact ⟨i, f, inside, there, named, length.symm, data.symm⟩

/-- **Each call does to the map what the specification allows.** -/
theorem Sound.spec (sound : Sound v l) (stores : Stores v.disk l a)
    (handles : v.handles.map (fun h => (h.name, h.live)) = a.handles) (regular : Regular v c)
    (does : Does v l c r v' l') :
    ∃ a', Spec a c r a' ∧ Stores v'.disk l' a' ∧
      v'.handles.map (fun h => (h.name, h.live)) = a'.handles := by
  have rep := sound.represents
  have viewed : ∀ {file : Nat} {h : Handle}, v.handles[file]? = some h → h.live = true →
      a.handles[file]? = some (h.name, true) := by
    intro file h held live
    rw [← handles, List.getElem?_map, held, Option.map_some, live]
  cases does with
  | refused why => exact ⟨a, .refused, stores, handles⟩
  | @created name size fresh i f d added named sized kept =>
      have length : (fileBytes d f).length = size.toInt := by
        rw [fileBytes, length_block, sized]
        exact Int.toNat_of_nonneg regular.1
      refine ⟨_, .created (stores.none_iff.mpr ?_) length, ?_, handles⟩
      · exact named ▸ added.unnamed
      · exact named ▸ stores.enter rep added kept
  | absent unnamed => exact ⟨a, .absent (stores.nothing _ unnamed), stores, handles⟩
  | @removed name fresh i f d inside there named kept =>
      refine ⟨_, .removed ?_, named ▸ stores.leave rep inside there kept _, ?_⟩
      · rw [← named, stores.here i inside f there]
        rfl
      · rw [← handles]
        exact retired_map _ v.handles
  | missed unnamed => exact ⟨a, .missed (stores.nothing _ unnamed), stores, handles⟩
  | @opened name fresh i f inside there named =>
      refine ⟨_, .opened ?_, ⟨stores.here, stores.nothing⟩, ?_⟩
      · rw [← named, stores.here i inside f there]
        rfl
      · rw [List.map_append, handles]
        rfl
  | @read file n p h bytes sectors held ok range =>
      obtain ⟨g, held', live, -⟩ := regular
      obtain rfl : h = g := Option.some.inj (held.symm.trans held')
      obtain ⟨i, f, inside, there, named, rfl, rfl⟩ := ok.file live
      have bytes := stores.here i inside f there
      rw [named] at bytes
      have slice := drop_take_block_min (contents v.disk f.sectors) f.length p.toInt.toNat
        n.toInt.toNat
      refine ⟨a, ?_, stores, handles⟩
      rw [transferred, ← slice]
      exact .read (viewed held live) bytes
  | @wrote file source n p garbage h bytes sectors d held ok range spliced kept =>
      obtain ⟨g, held', live, -⟩ := regular
      obtain rfl : h = g := Option.some.inj (held.symm.trans held')
      obtain ⟨i, f, inside, there, named, rfl, rfl⟩ := ok.file live
      have bytes := stores.here i inside f there
      have stores' := stores.write rep inside there fun s other => kept s fun member =>
        other (ok.describes.touched_request range member)
      have new : fileBytes d f = overwrite (fileBytes v.disk f) p.toInt.toNat
          (block source 0 (transferred f.length n.toInt p.toInt)) := by
        have same : fileBytes d f = block (splice (contents v.disk f.sectors) p.toInt.toNat
            (block source 0 (transferred f.length n.toInt p.toInt))) 0 f.length :=
          block_congr fun q small => spliced _ (by omega)
        rw [same, block_splice]
        · rfl
        · obtain none | some := Nat.eq_zero_or_pos (transferred f.length n.toInt p.toInt)
          · exact .inl (by rw [none]; rfl)
          · refine .inr ?_
            rw [length_block]
            rw [transferred] at some ⊢
            omega
      rw [new, named] at stores'
      rw [named] at bytes
      refine ⟨_, .wrote (viewed held live) bytes ?_, stores', handles⟩
      rw [fileBytes, length_block, transferred]

end Step

/-! ## Runs -/

/-- The end of a request that passes the check is an `int`. -/
def Bounded (v : Volume) : Call → Prop
  | .readAt file n p => ∀ h, v.handles[file]? = some h →
      n.toInt ≤ 0 ∨ h.hdr.fileLength ≤ p.toInt ∨ p.toInt + n.toInt ≤ maxInt
  | .writeAt file _ n p _ => ∀ h, v.handles[file]? = some h →
      n.toInt ≤ 0 ∨ h.hdr.fileLength ≤ p.toInt ∨ p.toInt + n.toInt ≤ maxInt
  | _ => True

section Runs

variable {v v' : Volume} {l : Layout} {a : Files} {c : Call} {calls : List Call}

theorem Regular.proper (regular : Regular v c) : Proper v c := by
  cases c with
  | create name size fresh => exact regular
  | remove => trivial
  | «open» => trivial
  | readAt file n p =>
      obtain ⟨h, held, -⟩ := regular
      exact ⟨h, held⟩
  | writeAt file source n p garbage =>
      obtain ⟨h, held, live, -⟩ := regular
      exact ⟨h, held, live⟩

theorem Regular.ranged (regular : Regular v c) (bounded : Bounded v c) : Ranged v c := by
  cases c with
  | readAt file n p =>
      intro h held
      obtain ⟨g, -, -, low⟩ := regular
      exact (bounded h held).imp_right fun late => late.imp_right fun high => ⟨low, high⟩
  | writeAt file source n p garbage =>
      intro h held
      obtain ⟨g, -, -, low⟩ := regular
      exact (bounded h held).imp_right fun late => late.imp_right fun high => ⟨low, high⟩
  | _ => trivial

theorem Ranged.bounded (ranged : Ranged v c) : Bounded v c := by
  cases c with
  | readAt file n p =>
      exact fun h held => (ranged h held).imp_right fun late => late.imp_right fun high => high.2
  | writeAt file source n p garbage =>
      exact fun h held => (ranged h held).imp_right fun late => late.imp_right fun high => high.2
  | _ => trivial

theorem Simulates.bounded (simulates : Simulates v a calls) :
    AllSteps Volume.step Bounded v calls := by
  induction calls generalizing v a with
  | nil => trivial
  | cons c calls ih =>
      obtain ⟨-, r, v', a', done, -, rest⟩ := simulates
      refine ⟨(ranged_of_call done).bounded, fun w moved => ?_⟩
      obtain rfl : v' = w := Option.some.inj ((Volume.step_eq_some.mpr ⟨r, done⟩).symm.trans moved)
      exact ih rest

theorem Sound.simulates (sound : Sound v l) (stores : Stores v.disk l a)
    (handles : v.handles.map (fun h => (h.name, h.live)) = a.handles)
    (regular : AllSteps Volume.step Regular v calls)
      (bounded : AllSteps Volume.step Bounded v calls) :
    Simulates v a calls := by
  induction calls generalizing v l a with
  | nil => exact sound.matches stores handles
  | cons c calls ih =>
      obtain ⟨r, v', l', done, does, sound'⟩ :=
        sound.proper regular.1.proper (regular.1.ranged bounded.1)
      obtain ⟨a', spec, stores', handles'⟩ := sound.spec stores handles regular.1 does
      have moved : v.step c = some v' := Volume.step_eq_some.mpr ⟨r, done⟩
      exact ⟨sound.matches stores handles, r, v', a', done, spec,
        ih sound' stores' handles' (regular.2 v' moved) (bounded.2 v' moved)⟩

end Runs

/-- **The file system is a map from names to bytes.**  From a formatted disk, a run of regular
calls does what the map does, call by call, exactly when no request that passes the check ends
beyond the largest `int`. -/
theorem refines_files (d : Disk) (fresh : Nat → Nat → Byte) :
    ∃ v, formatted d fresh = .ok v ∧ ∀ calls, AllSteps Volume.step Regular v calls →
      (Simulates v ⟨fun _ => none, []⟩ calls ↔ AllSteps Volume.step Bounded v calls) := by
  obtain ⟨v, done, sound, empty, -⟩ := formatted_sound d fresh
  refine ⟨v, done, fun calls regular => ⟨Simulates.bounded, fun bounded => ?_⟩⟩
  exact sound.simulates ⟨nofun, fun _ _ => rfl⟩ (by rw [empty]; rfl) regular bounded

/-- A file of two bytes is created and opened, and five bytes are asked for from its second on. -/
theorem refines_files_three : ∃ v, formatted (fun _ _ => 0) (fun _ _ => 0) = .ok v ∧
    Simulates v ⟨fun _ => none, []⟩
      [.create (letter 97) 2 fun _ _ => 0, .open (letter 97) fun _ _ => 0, .readAt 0 5 1] := by
  obtain ⟨v, done, all⟩ := refines_files (fun _ _ => 0) (fun _ _ => 0)
  obtain ⟨v', done', sound, empty, -⟩ := formatted_sound (fun _ _ => 0) (fun _ _ => 0)
  obtain rfl : v = v' := Except.ok.inj (done.symm.trans done')
  obtain ⟨v₁, w, i, hdr, created, opened, handles, -⟩ :=
    sound.first_handle empty (letter 97) (fun _ _ => 0) 2 1 (by decide) (by decide)
  have held : w.handles[0]? =
      some ⟨hdr, chars (letter 97) fileNameMaxLen 0, true⟩ := by rw [handles]; rfl
  refine ⟨v, done, (all _ ?_).mpr ?_⟩
  · refine .cons ⟨by decide, by decide⟩ created (.cons trivial opened ?_)
    exact ⟨⟨_, held, rfl, by decide⟩, fun _ _ => trivial⟩
  · refine .cons trivial created (.cons trivial opened ?_)
    exact ⟨fun h _ => .inr (.inr (by decide)), fun _ _ => trivial⟩

/-- The largest `int` of bytes is asked for from the second byte on: `position + numBytes`
overflows. -/
theorem long_read_undefined : ∃ v, formatted (fun _ _ => 0) (fun _ _ => 0) = .ok v ∧
    AllSteps Volume.step Regular v
      [.create (letter 97) 2 fun _ _ => 0, .open (letter 97) fun _ _ => 0, .readAt 0 2147483647 1] ∧
    ¬ Simulates v ⟨fun _ => none, []⟩
      [.create (letter 97) 2 fun _ _ => 0, .open (letter 97) fun _ _ => 0,
      .readAt 0 2147483647 1] := by
  obtain ⟨v, done, sound, empty, -⟩ := formatted_sound (fun _ _ => 0) (fun _ _ => 0)
  obtain ⟨v₁, w, i, hdr, created, opened, handles, describes, -⟩ :=
    sound.first_handle empty (letter 97) (fun _ _ => 0) 2 1 (by decide) (by decide)
  have held : w.handles[0]? =
      some ⟨hdr, chars (letter 97) fileNameMaxLen 0, true⟩ := by rw [handles]; rfl
  have length : hdr.fileLength = 2 := describes.fileLength (by decide)
  refine ⟨v, done, ?_, fun simulates => ?_⟩
  · refine .cons ⟨by decide, by decide⟩ created (.cons trivial opened ?_)
    exact ⟨⟨_, held, rfl, by decide⟩, fun _ _ => trivial⟩
  · have bounded := ((simulates.bounded.2 v₁ created).2 w opened).1 _ held
    rw [length] at bounded
    exact absurd bounded (by decide)

end Nachos.Disk
