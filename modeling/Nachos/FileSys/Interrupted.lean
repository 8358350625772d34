/-
# Nachos.FileSys.Interrupted -- what is on the disk in the middle of `Create` and `Remove`

`Create` writes the new header, the two sectors of the directory and the free map, in this
order; `Remove` writes the map and then the directory.  `Creating` and `Removing` say what is
in these writes, for a call that succeeds.  After the first `k` of them the directory is
`torn` (`contents_take`), and the disk lists the files that were there, and the file of the
call or not: `Creating.lists` and `Removing.lists`.
-/
import Nachos.FileSys.Mount

namespace Nachos.Disk

open Nachos.Lib.Bytes
open Nachos.Lib.Writes
open Nachos.UserProg (BitMap)

set_option autoImplicit false

/-! ## The lists of writes -/

section Bits

variable {b b' : BitMap} {h h' : FileHeader} {n : Nat}

theorem mark_bits {which : Int} (marked : b.mark which = .ok b') : b'.numBits = b.numBits := by
  obtain ⟨-, -, last⟩ := bind_eq_ok.mp marked
  cases last
  rfl

theorem clear_bits {which : Int} (cleared : b.clear which = .ok b') : b'.numBits = b.numBits := by
  obtain ⟨-, -, last⟩ := bind_eq_ok.mp cleared
  cases last
  rfl

theorem findFrom_bits {i : Nat} {s : Int} (found : b.findFrom n i = .ok (s, b')) :
    b'.numBits = b.numBits := by
  induction n generalizing i with
  | zero =>
      cases found
      rfl
  | succ n ih =>
      obtain ⟨set, -, rest⟩ := bind_eq_ok.mp found
      split at rest
      · exact ih rest
      · obtain ⟨b'', marked, last⟩ := bind_eq_ok.mp rest
        cases last
        exact mark_bits marked

theorem allocateSectors_bits (taken : FileHeader.allocateSectors n (h, b) = .ok (h', b')) :
    b'.numBits = b.numBits := by
  induction n generalizing h' b' with
  | zero =>
      cases taken
      rfl
  | succ n ih =>
      obtain ⟨⟨h₁, b₁⟩, before, rest⟩ := bind_eq_ok.mp taken
      obtain ⟨⟨s, b₂⟩, found, rest⟩ := bind_eq_ok.mp rest
      dsimp only at found rest
      split at rest
      · cases rest
      · cases rest
        exact (findFrom_bits found).trans (ih before)

theorem allocate_bits {size : Int} (allocated : h.allocate b size = .ok (some (h', b'))) :
    b'.numBits = b.numBits := by
  obtain ⟨count, -, rest⟩ := bind_eq_ok.mp allocated
  split at rest
  · cases rest
  · obtain ⟨taken, done, last⟩ := bind_eq_ok.mp rest
    cases last
    exact allocateSectors_bits done

theorem deallocateSectors_bits (freed : h.deallocateSectors n b = .ok b') :
    b'.numBits = b.numBits := by
  induction n generalizing b' with
  | zero =>
      cases freed
      rfl
  | succ n ih =>
      obtain ⟨b₁, before, rest⟩ := bind_eq_ok.mp freed
      obtain ⟨s, -, rest⟩ := bind_eq_ok.mp rest
      obtain ⟨set, -, rest⟩ := bind_eq_ok.mp rest
      obtain ⟨-, -, cleared⟩ := bind_eq_ok.mp rest
      exact (clear_bits cleared).trans (ih before)

end Bits

section Lists

variable {fs : FileSystem} {d : Disk} {file : FileHeader} {t : Table} {garbage : Nat → Byte}

/-- The directory goes to sectors 3 and 4. -/
def directoryWrites (dir : Nat → Byte) : List SectorWrite :=
    [(3, dir), (4, fun k => dir (sectorSize + k))]

theorem Describes.writeBackLog (describes : Describes file directoryFileSize [3, 4])
    {ws : List SectorWrite} (log : t.writeBackLog d file garbage = .ok ws) :
    ∃ dir : Nat → Byte, ws = directoryWrites dir ∧ ∀ q < directoryFileSize, dir q = t q := by
  obtain ⟨dir, same, wrote⟩ := describes.writeAtLog_whole (d := d) t garbage (by decide)
  rw [Table.writeBackLog, wrote, ok_bind, pure_eq_ok, Except.ok.injEq] at log
  refine ⟨dir, ?_, same⟩
  rw [← log]
  simp [List.range_succ, directoryWrites]

theorem Describes.writeMapLog (describes : Describes file freeMapFileSize [2]) {b : BitMap}
    (bits : b.numBits = numSectors) {ws : List SectorWrite}
    (log : writeMapLog b d file garbage = .ok ws) :
    ∃ map : Nat → Byte, ws = [(2, map)] ∧ ∀ q < freeMapFileSize, map q = bytesOfWords b.map q := by
  obtain ⟨map, same, wrote⟩ :=
    describes.writeAtLog_whole (d := d) (bytesOfWords b.map) garbage (by decide)
  rw [Disk.writeMapLog, mapSize bits, wrote, ok_bind, pure_eq_ok, Except.ok.injEq] at log
  refine ⟨map, ?_, same⟩
  rw [← log]
  simp [List.range_succ]

end Lists

/-! ## What is in them -/

/-- A `Create` that succeeds: the file, and the writes. -/
structure Creating (fs : FileSystem) (d : Disk) (l : Layout) (name : Nat → Byte) (size : Int)
    (ws : List SectorWrite) (i : Nat) (f : File) : Prop where
  added : Added l i f
  first : ∀ j < i, l j ≠ none
  named : f.name = chars name fileNameMaxLen 0
  sized : f.length = size.toNat
  final : Represents fs (putAll d ws) (Function.update l i (some f))
  writes : ∃ header dir map : Nat → Byte,
    ws = (f.header, header) :: directoryWrites dir ++ [(2, map)] ∧
    ∀ q < directoryFileSize, dir q = Table.set (contents d [3, 4]) i name f.header q

/-- A `Remove` that succeeds. -/
structure Removing (fs : FileSystem) (d : Disk) (l : Layout) (name : Nat → Byte)
    (ws : List SectorWrite) (i : Nat) (f : File) : Prop where
  inside : i < numDirEntries
  there : l i = some f
  named : f.name = chars name fileNameMaxLen 0
  final : Represents fs (putAll d ws) (Function.update l i none)
  writes : ∃ map dir : Nat → Byte, ws = (2, map) :: directoryWrites dir ∧
    ∀ q < directoryFileSize, dir q = splice (contents d [3, 4]) (entrySize * i) [0] q

/-- The first free entry. -/
structure FirstFree (t : Table) (i : Nat) : Prop where
  inside : i < numDirEntries
  free : t.entry i = none
  first : ∀ j < i, t.entry j ≠ none

section Inversion

variable {fs : FileSystem} {d : Disk} {l : Layout} {name : Nat → Byte} {fresh : Nat → Nat → Byte}
  {ws : List SectorWrite} {i s : Nat} {f : File}

theorem sectorRequest_eq_ok {k : Int} {data : Nat → Byte} {w : SectorWrite}
    (requested : sectorRequest k data = .ok w) :
    ∃ s < numSectors, k = (s : Nat) ∧ w = (s, data) := by
  obtain ⟨_, checked, last⟩ := bind_eq_ok.mp requested
  cases last
  have range := of_decide_eq_true (ASSERT_eq_ok.mp checked)
  exact ⟨k.toNat, by omega, by omega, rfl⟩

/-- The writes of `Create`, one after the other, on a disk whose free map may be wrong. -/
theorem createLog_ok (mapFile : Describes fs.freeMapFile freeMapFileSize [2])
    (dirFile : Describes fs.directoryFile directoryFileSize [3, 4]) {size : Int}
    (log : fs.createLog d name size fresh = .ok (true, ws)) :
    ∃ (t : Table) (b b₁ b₂ : BitMap) (hdr₀ hdr : FileHeader) (i s : Nat) (dir map : Nat → Byte),
      (∀ q < directoryFileSize, t q = contents d [3, 4] q) ∧
      (∀ j < numDirEntries, ∀ r, t.entry j ≠ some (chars name fileNameMaxLen 0, r)) ∧
      b.numBits = numSectors ∧ (∀ j < numSectors, b.isSet j = bitOf (contents d [2]) j) ∧
      b.find = .ok ((s : Int), b₁) ∧ s < numSectors ∧ FirstFree t i ∧
      hdr₀.allocate b₁ size = .ok (some (hdr, b₂)) ∧
      ws = (s, bytesOfWords hdr) :: directoryWrites dir ++ [(2, map)] ∧
      ∀ q < directoryFileSize, dir q = t.set i name s q := by
  obtain ⟨t, fetched, rest⟩ := bind_eq_ok.mp log
  have bytes := Table.fetchFrom_bytes dirFile fetched
  split at rest
  · cases rest
  obtain ⟨b₀, made, rest⟩ := bind_eq_ok.mp rest
  obtain ⟨b, fetchedMap, rest⟩ := bind_eq_ok.mp rest
  obtain ⟨⟨sector, b₁⟩, found, rest⟩ := bind_eq_ok.mp rest
  dsimp only at found rest
  split at rest
  · cases rest
  obtain ⟨b₀', made', bits₀, -⟩ := BitMap.create_spec numSectors (words (fresh 1))
  obtain rfl : b₀ = b₀' := Except.ok.inj (made.symm.trans made')
  obtain ⟨b', fetchedMap', bits, sets⟩ := fetchMap_spec (d := d) mapFile bits₀
  obtain rfl : b = b' := Except.ok.inj (fetchedMap.symm.trans fetchedMap')
  cases added : t.add name sector with
  | none =>
      rw [added] at rest
      cases rest
  | some t' =>
      rw [added] at rest
      obtain ⟨taken, allocated, rest⟩ := bind_eq_ok.mp rest
      cases taken with
      | none => cases rest
      | some pair =>
          obtain ⟨hdr, b₂⟩ := pair
          obtain ⟨header, requested, rest⟩ := bind_eq_ok.mp rest
          obtain ⟨listed, listedLog, rest⟩ := bind_eq_ok.mp rest
          obtain ⟨marked, markedLog, last⟩ := bind_eq_ok.mp rest
          cases last
          obtain ⟨s, bound, rfl, rfl⟩ := sectorRequest_eq_ok requested
          have bits₂ : b₂.numBits = numSectors :=
            (allocate_bits allocated).trans ((findFrom_bits found).trans bits)
          obtain ⟨dir, rfl, dirBytes⟩ := dirFile.writeBackLog listedLog
          obtain ⟨map, rfl, -⟩ := mapFile.writeMapLog bits₂ markedLog
          unfold Table.add at added
          split at added
          · cases added
          rename_i noIndex
          have unnamed : ∀ j < numDirEntries, ∀ r,
              t.entry j ≠ some (chars name fileNameMaxLen 0, r) := by
            obtain ⟨-, absent⟩ | ⟨j, r, index, -⟩ := Table.findIndex_cases t name
            · exact absent
            · rw [index] at noIndex
              omega
          obtain ⟨i, rfl, -, inside, free, first⟩ :=
            Table.addFrom_first t name s numDirEntries 0 added
          exact ⟨t, b, b₁, b₂, _, hdr, i, s, dir, map, bytes, unnamed, bits, sets, found, bound,
            ⟨by omega, free, fun j => first j (Nat.zero_le j)⟩, allocated, rfl, dirBytes⟩

/-- The bytes of the directory file are those of sectors 3 and 4. -/
theorem contents_low {q : Nat} (small : q < sectorSize) : contents d [3, 4] q = d 3 q := by
  rw [contents, Nat.div_eq_of_lt small, Nat.mod_eq_of_lt small]
  rfl

theorem contents_high {q : Nat} (small : q < sectorSize) :
    contents d [3, 4] (sectorSize + q) = d 4 q := by
  have sector : (sectorSize + q) / sectorSize = 1 := by
    simp only [sectorSize] at *
    omega
  have offset : (sectorSize + q) % sectorSize = q := by
    simp only [sectorSize] at *
    omega
  rw [contents, sector, offset]
  rfl

/-- The directory file from its two sectors. -/
theorem contents_torn {first second : Table} (three : ∀ q < sectorSize, d 3 q = first q)
    (four : ∀ q, sectorSize + q < directoryFileSize → d 4 q = second (sectorSize + q)) :
    ∀ q < directoryFileSize, contents d [3, 4] q = Table.torn first second q := by
  intro q small
  by_cases low : q < sectorSize
  · rw [contents_low low, three q low, Table.torn, if_pos low]
  · obtain ⟨p, rfl⟩ : ∃ p, q = sectorSize + p := ⟨q - sectorSize, by omega⟩
    have inside : p < sectorSize := by
      simp only [directoryFileSize, entrySize, numDirEntries, sectorSize] at *
      omega
    rw [contents_high inside, four p small, Table.torn, if_neg low]

/-- The directory after the writes of `Create`. -/
theorem contents_written (header : SectorWrite) (dir map : Nat → Byte) :
    ∀ q < directoryFileSize,
      contents (putAll d (header :: directoryWrites dir ++ [(2, map)])) [3, 4] q = dir q := by
  have three : putAll d (header :: directoryWrites dir ++ [(2, map)]) 3 = dir := by
    rw [List.cons_append, putAll_cons]
    rfl
  have four : putAll d (header :: directoryWrites dir ++ [(2, map)]) 4 = fun k =>
      dir (sectorSize + k) := by
    rw [List.cons_append, putAll_cons]
    rfl
  have torn := contents_torn (fun q _ => congrFun three q) fun q _ => congrFun four q
  rwa [Table.torn_self] at torn

/-- **The directory after an interruption**, when its first sector is the second write of the call
and its second sector the third. -/
theorem contents_take {first : SectorWrite} {rest : List SectorWrite} {dir : Nat → Byte} {t : Table}
    (once : ((first :: directoryWrites dir ++ rest).map Prod.fst).Nodup)
    (bytes : ∀ q < directoryFileSize, dir q = t q) (k : Nat) :
    ∀ q < directoryFileSize, contents (putAll d ((first :: directoryWrites dir ++ rest).take k))
      [3, 4] q =
      Table.torn (if 1 < k then t else contents d [3, 4])
      (if 2 < k then t else contents d [3, 4]) q := by
  have three : putAll d ((first :: directoryWrites dir ++ rest).take k) 3 =
      if 1 < k then dir else d 3 :=
    putAll_take_at once (j := 1) rfl k
  have four : putAll d ((first :: directoryWrites dir ++ rest).take k) 4 =
      if 2 < k then (fun q => dir (sectorSize + q)) else d 4 :=
    putAll_take_at once (j := 2) rfl k
  refine contents_torn (fun q low => ?_) fun q small => ?_
  · rw [three]
    split
    · refine bytes q ?_
      simp only [directoryFileSize, entrySize, numDirEntries, sectorSize] at *
      omega
    · exact (contents_low low).symm
  · rw [four]
    split
    · exact bytes _ small
    · refine (contents_high ?_).symm
      simp only [directoryFileSize, entrySize, numDirEntries, sectorSize] at *
      omega

theorem directoryFileSize_entries {t t' : Table} (bytes : ∀ q < directoryFileSize, t q = t' q) :
    ∀ j < numDirEntries, t.entry j = t'.entry j ∧ t.key j = t'.key j := by
  intro j inside
  refine ⟨Table.entry_eq_of_prefix (n := numDirEntries) (fun q small => bytes q ?_) inside,
    Table.key_congr fun q low high => bytes q ?_⟩
  · rwa [Table.directoryFileSize_eq]
  · simp only [directoryFileSize, entrySize, numDirEntries] at *
    omega

/-- **The writes of a `Create` that succeeds.** -/
theorem Represents.creating (rep : Represents fs d l) {size : Int} (low : -maxInt - 1 ≤ size)
    (high : size ≤ maxInt)
    (log : fs.createLog d name size fresh = .ok (true, ws)) :
    ∃ i f, Creating fs d l name size ws i f := by
  have created : fs.create d name size fresh = .ok (true, putAll d ws) := by
    rw [create_log, log]
    rfl
  obtain ⟨-, -, e, stops⟩ | ⟨refused, -⟩ | ⟨i, f, d', done, added, named, sized, -, rep', -⟩ :=
    rep.create name fresh low high
  · rw [created] at stops
    cases stops
  · rw [created] at refused
    cases refused
  rw [created, Except.ok.injEq, Prod.mk.injEq] at done
  obtain ⟨-, rfl⟩ := done
  obtain ⟨t, b, b₁, b₂, hdr₀, hdr, j, s, dir, map, bytes, -, -, -, -, bound, ⟨inside, free, first⟩,
      -, rfl, dirBytes⟩ :=
    createLog_ok rep.mapFile rep.dirFile log
  have same : ∀ k < numDirEntries, t.entry k = (l k).map fun f => (f.name, (f.header : Int)) :=
    fun k inside =>
    (directoryFileSize_entries bytes k inside).1.trans (rep.entries k inside)
  have dirBytes : ∀ q < directoryFileSize, dir q = Table.set (contents d [3, 4]) j name s q :=
    fun q small =>
    (dirBytes q small).trans (Table.set_congr (bytes q small))
  -- the entry that is new on the disk is the one of the new file
  have entry : Table.entry
      (contents (putAll d ((s, bytesOfWords hdr) :: directoryWrites dir ++ [(2, map)])) [3, 4]) j =
      some (chars name fileNameMaxLen 0, (s : Int)) := by
    have written : ∀ q < directoryFileSize,
        contents (putAll d ((s, bytesOfWords hdr) :: directoryWrites dir ++ [(2, map)])) [3, 4] q =
          Table.set (contents d [3, 4]) j name s q := fun q small =>
      (contents_written _ dir map q small).trans (dirBytes q small)
    have small : (s : Int) < 2 ^ 31 := by
      rw [numSectors] at bound
      omega
    rw [(directoryFileSize_entries written j inside).1, Table.entry_set_self ⟨by omega, small⟩]
  have empty : l j = none := by
    rw [same j inside] at free
    exact Option.map_eq_none_iff.mp free
  have here : j = i := by
    by_contra other
    rw [rep'.entries j inside, Function.update_of_ne other, empty] at entry
    cases entry
  subst here
  have header : s = f.header := by
    rw [rep'.entries j inside, Function.update_self, Option.map_some, Option.some.injEq,
      Prod.mk.injEq] at entry
    exact Int.ofNat_inj.mp entry.2.symm
  subst header
  refine ⟨j, f, added, fun k below there => first k below ?_, named, sized, rep', _, dir, map,
    rfl, dirBytes⟩
  rw [same k (by omega), there, Option.map_none]

/-- **The writes of a `Remove` that succeeds.** -/
theorem Represents.removing (rep : Represents fs d l)
    (log : fs.removeLog d name fresh = .ok (true, ws)) :
    ∃ i f, Removing fs d l name ws i f := by
  have removed : fs.remove d name fresh = .ok (true, putAll d ws) := by
    rw [remove_log, log]
    rfl
  obtain ⟨t, fetched, rest⟩ := bind_eq_ok.mp log
  have bytes := Table.fetchFrom_bytes rep.dirFile fetched
  obtain ⟨t', fetched', -, cases⟩ := rep.fetchDirectory name (Table.create (fresh 0))
  obtain rfl : t = t' := Except.ok.inj (fetched.symm.trans fetched')
  obtain ⟨absent, -⟩ | ⟨i, f, inside, there, named, found, index⟩ := cases
  · rw [absent] at rest
    cases rest
  obtain ⟨d', done, rep', -⟩ := rep.removes inside there named fresh
  rw [removed, Except.ok.injEq, Prod.mk.injEq] at done
  obtain ⟨-, rfl⟩ := done
  dsimp only at rest
  rw [found, if_neg (by omega)] at rest
  obtain ⟨hdr, -, rest⟩ := bind_eq_ok.mp rest
  obtain ⟨b₀, made, rest⟩ := bind_eq_ok.mp rest
  obtain ⟨b, fetchedMap, rest⟩ := bind_eq_ok.mp rest
  obtain ⟨b₁, freed, rest⟩ := bind_eq_ok.mp rest
  obtain ⟨b₂, unmarked, rest⟩ := bind_eq_ok.mp rest
  obtain ⟨cleared, clearedLog, rest⟩ := bind_eq_ok.mp rest
  obtain ⟨unlisted, unlistedLog, last⟩ := bind_eq_ok.mp rest
  cases last
  have bits : b₂.numBits = numSectors := by
    obtain ⟨b', made', bits, -⟩ := BitMap.create_spec numSectors (words (fresh 1))
    obtain ⟨read, -, same⟩ := bind_eq_ok.mp fetchedMap
    cases made.symm.trans made'
    cases same
    exact (clear_bits unmarked).trans ((deallocateSectors_bits freed).trans bits)
  obtain ⟨map, rfl, -⟩ := rep.mapFile.writeMapLog bits clearedLog
  obtain ⟨dir, rfl, dirBytes⟩ := rep.dirFile.writeBackLog unlistedLog
  refine ⟨i, f, inside, there, named, rep', map, dir, rfl, fun q small => ?_⟩
  have gone : (t.remove name).getD t = splice t (entrySize * i) [0] := by
    rw [Table.remove, index]
    simp only [Int.toNat_natCast]
    rw [if_neg (by omega), Option.getD_some]
  rw [dirBytes q small, gone]
  exact Table.splice_congr (bytes q small) _

end Inversion

/-! ## What the disk lists after an interruption -/

/-- The entry of a new file after the first `k` writes of `Create`; `old` is the name that was
there before. -/
def createdEntry (i : Nat) (f : File) (old : List Byte) (k : Nat) : Option File :=
  if k ≤ 1 ∨ k = 2 ∧ 6 < i then none else if k = 2 ∧
    i = 6 then some { f with name := old } else some f

/-- The entry of a file after the first `k` writes of `Remove`. -/
def removedEntry (i : Nat) (f : File) (k : Nat) : Option File :=
  if k ≤ 1 ∨ k = 2 ∧ 6 < i then some f else none

section Interrupted

variable {fs : FileSystem} {d : Disk} {l : Layout} {name : Nat → Byte} {ws : List SectorWrite}
  {size : Int} {i : Nat} {f : File}

theorem Creating.header_high (creating : Creating fs d l name size ws i f) : 5 ≤ f.header := by
  by_contra small
  exact creating.added.unused f.header List.mem_cons_self (Layout.mem_used.mpr (.inl (by omega)))

/-- Each sector is written once. -/
theorem Creating.once (creating : Creating fs d l name size ws i f) : (ws.map Prod.fst).Nodup := by
  obtain ⟨header, dir, map, rfl, -⟩ := creating.writes
  have high := creating.header_high
  simp [directoryWrites]
  omega

/-- What no write of `Create` is to. -/
theorem Creating.kept (creating : Creating fs d l name size ws i f) (k : Nat) {s : Nat}
    (other : s ∉ [2, 3, 4, f.header]) : putAll d (ws.take k) s = d s := by
  obtain ⟨header, dir, map, rfl, -⟩ := creating.writes
  refine putAll_take_other k fun w member => ?_
  rintro rfl
  simp only [directoryWrites, List.cons_append, List.nil_append, List.mem_cons, List.not_mem_nil,
    or_false] at member
  obtain rfl | rfl | rfl | rfl := member <;> simp at other

theorem Creating.system (creating : Creating fs d l name size ws i f) (k : Nat) :
    putAll d (ws.take k) freeMapSector = d freeMapSector ∧
      putAll d (ws.take k) directorySector = d directorySector := by
  have high := creating.header_high
  exact ⟨creating.kept k (by simp [freeMapSector]; omega),
    creating.kept k (by simp [directorySector]; omega)⟩

theorem Creating.bytes (creating : Creating fs d l name size ws i f) (k : Nat) :
    ∀ q < directoryFileSize, contents (putAll d (ws.take k)) [3, 4] q =
      Table.torn (if 1 < k then Table.set (contents d [3, 4]) i name f.header
        else contents d [3, 4])
        (if 2 < k then Table.set (contents d [3, 4]) i name f.header else contents d [3, 4]) q := by
  have once := creating.once
  obtain ⟨header, dir, map, rfl, same⟩ := creating.writes
  exact contents_take once same k

theorem Creating.range (creating : Creating fs d l name size ws i f) :
    -2 ^ 31 ≤ (f.header : Int) ∧ (f.header : Int) < 2 ^ 31 := by
  have there : Function.update l i (some f) i = some f := Function.update_self ..
  have bound : f.header < 1024 := creating.final.bound _
    (creating.final.header_used creating.added.inside there)
  omega

/-- The entry of the new file. -/
theorem Creating.entry_here (rep : Represents fs d l)
    (creating : Creating fs d l name size ws i f) (k : Nat) :
    Table.entry (contents (putAll d (ws.take k)) [3, 4]) i =
      (createdEntry i f (Table.key (contents d [3, 4]) i) k).map fun f =>
        (f.name, (f.header : Int)) := by
  have inside := creating.added.inside
  have free : Table.entry (contents d [3, 4]) i = none := by
    rw [rep.entries i inside, creating.added.empty, Option.map_none]
  have new : (Table.set (contents d [3, 4]) i name f.header).entry i =
      some (chars name fileNameMaxLen 0, (f.header : Int)) :=
    Table.entry_set_self creating.range
  rw [(directoryFileSize_entries (creating.bytes k) i inside).1, createdEntry]
  obtain early | rfl | late : k ≤ 1 ∨ k = 2 ∨ 2 < k := by omega
  · rw [if_neg (Nat.not_lt.mpr early), if_neg (by omega), Table.torn_self, free,
      if_pos (.inl early)]
    rfl
  · rw [if_pos (by decide), if_neg (by decide), Table.entry_torn, new, free, Option.map_some]
    obtain low | rfl | high : i < 6 ∨ i = 6 ∨ 6 < i := by omega
    · rw [if_pos low, if_neg (by omega), if_neg (by omega), Option.map_some, creating.named]
    · rfl
    · rw [if_neg (by omega), if_neg (by omega), if_pos (by omega)]
      rfl
  · rw [if_pos (by omega), if_pos late, Table.torn_self, new, if_neg (by omega), if_neg (by omega),
      Option.map_some, creating.named]

/-- The other entries. -/
theorem Creating.entry_other (creating : Creating fs d l name size ws i f) (k : Nat) {j : Nat}
    (inside : j < numDirEntries) (other : j ≠ i) :
    Table.entry (contents (putAll d (ws.take k)) [3, 4]) j = Table.entry (contents d [3, 4]) j := by
  have same : (Table.set (contents d [3, 4]) i name f.header).entry j = Table.entry
      (contents d [3, 4]) j :=
    Table.entry_set_other other
  rw [(directoryFileSize_entries (creating.bytes k) j inside).1, Table.entry_torn]
  split_ifs <;> simp only [same, Table.key_set_other other, Table.entry_key]

/-- The header of the new file is on the disk before any entry has it. -/
theorem Creating.header_there (creating : Creating fs d l name size ws i f) {k : Nat}
    (begun : 0 < k) :
    Describes (words (putAll d (ws.take k) f.header)) f.length f.sectors := by
  have there : Function.update l i (some f) i = some f := Function.update_self ..
  have describes := creating.final.headers i creating.added.inside f there
  have once := creating.once
  obtain ⟨header, dir, map, rfl, -⟩ := creating.writes
  have full := putAll_take_at (m := d) once (j := 0) rfl
    (List.length ((f.header, header) :: directoryWrites dir ++ [(2, map)]))
  rw [List.take_length, if_pos (by simp)] at full
  rw [putAll_take_at once (j := 0) rfl k, if_pos begun, ← full]
  exact describes

/-- **What the disk lists after an interrupted `Create`.** -/
theorem Creating.lists (rep : Represents fs d l)
    (creating : Creating fs d l name size ws i f) (k : Nat) :
    Lists fs (putAll d (ws.take k))
      (Function.update l i (createdEntry i f (Table.key (contents d [3, 4]) i) k)) where
  dirFile := rep.dirFile
  entries j inside := by
    by_cases here : j = i
    · rw [here, creating.entry_here rep k, Function.update_self]
    · rw [creating.entry_other k inside here, Function.update_of_ne here, rep.entries j inside]
  headers j inside g there := by
    by_cases here : j = i
    · rw [here, Function.update_self, createdEntry] at there
      have used := creating.final.header_used creating.added.inside (Function.update_self ..)
      have bound := creating.final.bound _ used
      split_ifs at there with early torn
      · cases there
        exact ⟨bound, creating.header_there (by omega)⟩
      · cases there
        exact ⟨bound, creating.header_there (by omega)⟩
    · rw [Function.update_of_ne here] at there
      have used := rep.header_used inside there
      have high := (rep.apart inside there).2 g.header List.mem_cons_self
      have differ : g.header ≠ f.header := fun same =>
        creating.added.unused f.header List.mem_cons_self (same ▸ used)
      refine ⟨rep.bound _ used, ?_⟩
      rw [creating.kept k (by simp; omega)]
      exact rep.headers j inside g there

/-- What no write of `Remove` is to. -/
theorem Removing.kept (removing : Removing fs d l name ws i f) (k : Nat) {s : Nat}
    (other : s ∉ [2, 3, 4]) :
    putAll d (ws.take k) s = d s := by
  obtain ⟨map, dir, rfl, -⟩ := removing.writes
  refine putAll_take_other k fun w member => ?_
  rintro rfl
  simp only [directoryWrites, List.mem_cons, List.not_mem_nil, or_false] at member
  obtain rfl | rfl | rfl := member <;> simp at other

theorem Removing.bytes (removing : Removing fs d l name ws i f) (k : Nat) :
    ∀ q < directoryFileSize, contents (putAll d (ws.take k)) [3, 4] q =
      Table.torn (if 1 < k then splice (contents d [3, 4]) (entrySize * i) [0]
        else contents d [3, 4])
        (if 2 < k then splice (contents d [3, 4]) (entrySize * i) [0] else contents d [3, 4])
        q := by
  obtain ⟨map, dir, rfl, same⟩ := removing.writes
  have once : (((2, map) :: directoryWrites dir ++ []).map
      Prod.fst).Nodup := by simp [directoryWrites]
  have take := contents_take (d := d) once same k
  rwa [List.append_nil] at take

/-- The entry of the file that is removed. -/
theorem Removing.entry_here (rep : Represents fs d l)
    (removing : Removing fs d l name ws i f) (k : Nat) :
    Table.entry (contents (putAll d (ws.take k)) [3, 4]) i =
      (removedEntry i f k).map fun f => (f.name, (f.header : Int)) := by
  have old := rep.entries i removing.inside
  rw [removing.there] at old
  have gone : Table.entry (splice (contents d [3, 4]) (entrySize * i) [0]) i = none :=
    Table.entry_clear_self
  rw [(directoryFileSize_entries (removing.bytes k) i removing.inside).1, removedEntry]
  obtain early | rfl | late : k ≤ 1 ∨ k = 2 ∨ 2 < k := by omega
  · rw [if_neg (Nat.not_lt.mpr early), if_neg (by omega), Table.torn_self, old, if_pos (.inl early)]
  · rw [if_pos (by decide), if_neg (by decide), Table.entry_torn, gone, old, Option.map_none]
    by_cases high : 6 < i
    · rw [if_neg (by omega), if_neg (by omega), if_pos (by omega)]
    · rw [if_neg (c := 2 ≤ 1 ∨ 2 = 2 ∧ 6 < i) (by omega)]
      split_ifs <;> first | rfl | omega
  · rw [if_pos (by omega), if_pos late, Table.torn_self, gone, if_neg (by omega)]
    rfl

/-- The other entries. -/
theorem Removing.entry_other (removing : Removing fs d l name ws i f) (k : Nat) {j : Nat}
    (inside : j < numDirEntries) (other : j ≠ i) :
    Table.entry (contents (putAll d (ws.take k)) [3, 4]) j = Table.entry (contents d [3, 4]) j := by
  have same := Table.entry_clear_other (t := contents d [3, 4]) other
  rw [(directoryFileSize_entries (removing.bytes k) j inside).1, Table.entry_torn]
  split_ifs <;> simp only [same, Table.key_clear, Table.entry_key]

/-- **What the disk lists after an interrupted `Remove`.** -/
theorem Removing.lists (rep : Represents fs d l)
    (removing : Removing fs d l name ws i f) (k : Nat) :
    Lists fs (putAll d (ws.take k)) (Function.update l i (removedEntry i f k)) where
  dirFile := rep.dirFile
  entries j inside := by
    by_cases here : j = i
    · rw [here, removing.entry_here rep k, Function.update_self]
    · rw [removing.entry_other k inside here, Function.update_of_ne here, rep.entries j inside]
  headers j inside g there := by
    have old : l j = some g := by
      by_cases here : j = i
      · rw [here, Function.update_self, removedEntry] at there
        split_ifs at there
        rw [here, removing.there, ← there]
      · rwa [Function.update_of_ne here] at there
    have high := (rep.apart inside old).2 g.header List.mem_cons_self
    refine ⟨rep.bound _ (rep.header_used inside old), ?_⟩
    rw [removing.kept k (by simp; omega)]
    exact rep.headers j inside g old

end Interrupted

end Nachos.Disk
