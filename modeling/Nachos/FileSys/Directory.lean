/-
# Nachos.FileSys.Directory -- `filesys/directory.cc`

The table is the memory of an array of ten `DirectoryEntry`s of 20 bytes each: `inUse` at
byte 0, `sector` at bytes 4 to 7, and the name from byte 8 on.  `FetchFrom` and `WriteBack`
copy it as it is.

`entry` reads an entry that is in use as a name and a sector; names are what `strncmp` looks
at, the first nine characters.  The specification of each call is in terms of `entry`.
-/
import Nachos.FileSys.OpenFile

namespace Nachos.Disk

open Nachos.Lib.Bytes

set_option autoImplicit false

/-- `FileNameMaxLen`. -/
def fileNameMaxLen : Nat := 9

/-- `sizeof(DirectoryEntry)`. -/
def entrySize : Nat := 20

/-- `NumDirEntries`. -/
def numDirEntries : Nat := 10

/-- `DirectoryFileSize`. -/
def directoryFileSize : Nat := entrySize * numDirEntries

/-! ## Strings -/

/-- `strncmp(a, b, n) == 0`, from character `i` on. -/
def sameName (a b : Nat → Byte) : Nat → Nat → Bool
  | 0, _ => true
  | n + 1, i => if a i ≠ b i then false else if a i = 0 then true else sameName a b n (i + 1)

/-- What `strncpy(_, src, n)` stores, from character `i` on: it pads with zeros. -/
def strncpy (src : Nat → Byte) : Nat → Nat → List Byte
  | 0, _ => []
  | n + 1, i => if src i = 0 then List.replicate (n + 1) 0 else src i :: strncpy src n (i + 1)

/-- The characters before the end of the string, `n` at most, from character `i` on. -/
def chars (a : Nat → Byte) : Nat → Nat → List Byte
  | 0, _ => []
  | n + 1, i => if a i = 0 then [] else a i :: chars a n (i + 1)

section Strings

variable {a b : Nat → Byte} {n i : Nat}

theorem sameName_iff : sameName a b n i = true ↔ chars a n i = chars b n i := by
  induction n generalizing i with
  | zero => simp [sameName, chars]
  | succ n ih =>
      by_cases same : a i = b i
      · simp only [sameName, chars, same, ne_eq, not_true_eq_false, if_false]
        by_cases last : b i = 0
        · simp only [if_pos last]
        · simp only [if_neg last, List.cons.injEq, true_and]
          exact ih
      · simp only [sameName, ne_eq, same, not_false_eq_true, if_true, Bool.false_eq_true, false_iff]
        intro equal
        unfold chars at equal
        split at equal
        · rename_i first
          split at equal
          · rename_i second
            exact same (first.trans second.symm)
          · cases equal
        · split at equal
          · cases equal
          · exact same (List.cons.inj equal).1

@[simp] theorem length_strncpy : (strncpy a n i).length = n := by
  induction n generalizing i with
  | zero => rfl
  | succ n ih =>
      unfold strncpy
      split
      · simp
      · simp [ih]

/-- A string is read back as it was copied. -/
theorem chars_strncpy (j : Nat) (copied : ∀ k < n, b (j + k) = (strncpy a n i).getD k 0) :
    chars b n j = chars a n i := by
  induction n generalizing i j with
  | zero => rfl
  | succ n ih =>
      have first := copied 0 (by omega)
      unfold strncpy at first copied
      unfold chars
      split at first
      · rename_i last
        simp only [Nat.add_zero] at first
        simp [last]
        simpa using first
      · rename_i more
        have here : b j = a i := by simpa using first
        rw [here, if_neg more, if_neg more]
        refine congrArg _ (ih (j + 1) fun k inside => ?_)
        have next := copied (k + 1) (by omega)
        rw [if_neg more] at next
        rw [Nat.add_right_comm, Nat.add_assoc, next]
        simp

theorem chars_congr {j : Nat} (same : ∀ k < n, a (i + k) = b (j + k)) :
    chars a n i = chars b n j := by
  induction n generalizing i j with
  | zero => rfl
  | succ n ih =>
      have first : a i = b j := same 0 (by omega)
      have rest := ih (i := i + 1) (j := j + 1) fun k inside => by
        have next := same (k + 1) (by omega)
        rwa [Nat.add_right_comm i, Nat.add_assoc, Nat.add_right_comm j, Nat.add_assoc]
      rw [chars, chars, first, rest]

end Strings

/-! ## The table -/

/-- The memory of the table. -/
abbrev Table := Nat → Byte

namespace Table

def inUse (t : Table) (i : Nat) : Bool := t (entrySize * i) ≠ 0

def sector (t : Table) (i : Nat) : Int := (wordAt t (entrySize * i + 4)).toInt

def name (t : Table) (i : Nat) : Nat → Byte := fun k => t (entrySize * i + 8 + k)

/-- `Directory::Directory`: no entry is in use. -/
def create (garbage : Nat → Byte) : Table := fun q => if q % entrySize = 0 then 0 else garbage q

/-- `Directory::FetchFrom`. -/
def fetchFrom (t : Table) (d : Disk) (file : FileHeader) : Except Stop Table := do
  return splice t 0 (← readAt d file directoryFileSize 0)

/-- `Directory::WriteBack`. -/
def writeBack (t : Table) (d : Disk) (file : FileHeader) (garbage : Nat → Byte) :
    Except Stop Disk := do
  return (← writeAt d file t directoryFileSize 0 garbage).2

/-- The loop of `Directory::FindIndex`. -/
def findIndexFrom (t : Table) (name : Nat → Byte) : Nat → Nat → Int
  | 0, _ => -1
  | n + 1, i =>
      if t.inUse i && sameName (t.name i) name fileNameMaxLen 0 then i
      else findIndexFrom t name n (i + 1)

/-- `Directory::FindIndex`. -/
def findIndex (t : Table) (name : Nat → Byte) : Int := t.findIndexFrom name numDirEntries 0

/-- `Directory::Find`. -/
def find (t : Table) (name : Nat → Byte) : Int :=
  let i := t.findIndex name
  if i ≠ -1 then t.sector i.toNat else -1

/-- An entry is taken into use. -/
def set (t : Table) (i : Nat) (name : Nat → Byte) (newSector : Int) : Table :=
  let t := splice t (entrySize * i) [1]
  let t := splice t (entrySize * i + 8) (strncpy name fileNameMaxLen 0)
  splice t (entrySize * i + 4) (bytesOf (BitVec.ofInt 32 newSector) 4)

/-- The loop of `Directory::Add`. -/
def addFrom (t : Table) (name : Nat → Byte) (newSector : Int) : Nat → Nat → Option Table
  | 0, _ => none
  | n + 1, i => if t.inUse i then addFrom t name newSector n (i + 1)
      else some (t.set i name newSector)

/-- `Directory::Add`; `none` is `FALSE`. -/
def add (t : Table) (name : Nat → Byte) (newSector : Int) : Option Table :=
  if t.findIndex name ≠ -1 then none else t.addFrom name newSector numDirEntries 0

/-- `Directory::Remove`; `none` is `FALSE`. -/
def remove (t : Table) (name : Nat → Byte) : Option Table :=
  let i := t.findIndex name
  if i = -1 then none else some (splice t (entrySize * i.toNat) [0])

/-- An entry that is in use: its name and its sector. -/
def entry (t : Table) (i : Nat) : Option (List Byte × Int) :=
  if t.inUse i then some (chars (t.name i) fileNameMaxLen 0, t.sector i) else none

section Entries

variable {t t' : Table} {name : Nat → Byte} {n i j : Nat} {s : Int}

theorem entry_congr (same : ∀ q, entrySize * i ≤ q → q < entrySize * i + entrySize → t q = t' q) :
    t.entry i = t'.entry i := by
  have used : t.inUse i = t'.inUse i := by
    rw [inUse, inUse, same _ (by omega) (by simp [entrySize])]
  have sectors : t.sector i = t'.sector i := by
    rw [sector, sector, wordAt_congr fun k inside =>
      same _ (by omega) (by simp only [entrySize]; omega)]
  have names : chars (t.name i) fileNameMaxLen 0 = chars (t'.name i) fileNameMaxLen 0 :=
    chars_congr fun k inside => same _ (by omega)
      (by simp only [entrySize, fileNameMaxLen] at *; omega)
  rw [entry, entry, used, sectors, names]

theorem entry_contents {d d' : Disk} {sectors : List Nat} (inside : i < numDirEntries)
    (size : directoryFileSize ≤ sectors.length * sectorSize) (same : ∀ s ∈ sectors, d' s = d s) :
    entry (contents d' sectors) i = entry (contents d sectors) i := by
  refine entry_congr fun q low high => contents_congr (Nat.lt_of_lt_of_le ?_ size) same
  simp only [directoryFileSize, numDirEntries, entrySize] at *
  omega

theorem entry_create (garbage : Nat → Byte) : (create garbage).entry i = none := by
  simp [entry, inUse, create]

theorem entry_set_self (range : -2 ^ 31 ≤ s ∧ s < 2 ^ 31) :
    (t.set i name s).entry i = some (chars name fileNameMaxLen 0, s) := by
  have used : (t.set i name s).inUse i = true := by
    have byte : t.set i name s (entrySize * i) = 1 := by
      unfold set
      rw [splice_outside _ (.inl (by omega)), splice_outside _ (.inl (by omega))]
      exact splice_add t _ [1] (j := 0) rfl
    rw [inUse, byte]
    decide
  have sectors : (t.set i name s).sector i = s := by
    unfold sector set
    rw [wordAt_splice_self, BitVec.toInt_ofInt]
    exact Int.bmod_eq_of_le (by omega) (by omega)
  have names : chars ((t.set i name s).name i) fileNameMaxLen 0 = chars name fileNameMaxLen 0 := by
    refine chars_strncpy 0 fun k inside => ?_
    have length : (strncpy name fileNameMaxLen 0)[k]? =
        some ((strncpy name fileNameMaxLen 0).getD k 0) := by
      rw [List.getD_eq_getElem?_getD, List.getElem?_eq_getElem (by simpa using inside),
        Option.getD_some]
    simp only [Table.name, Nat.zero_add]
    unfold set
    rw [splice_outside _ (.inr (by simp))]
    exact splice_add _ _ _ length
  rw [entry, used, if_pos rfl, names, sectors]

theorem entry_set_other (differ : j ≠ i) : (t.set i name s).entry j = t.entry j := by
  refine entry_congr fun q low high => ?_
  have apart : q < entrySize * i ∨ entrySize * i + entrySize ≤ q := by
    simp only [entrySize] at *
    omega
  unfold set
  simp only [entrySize, fileNameMaxLen] at *
  rw [splice_outside, splice_outside, splice_outside]
  · simp; omega
  · simp; omega
  · simp; omega

theorem entry_clear_self : entry (splice t (entrySize * i) [0]) i = none := by
  have byte : splice t (entrySize * i) [0] (entrySize * i) = 0 := splice_add t _ [0] (j := 0) rfl
  rw [entry, inUse, byte]
  rfl

theorem entry_clear_other (differ : j ≠ i) :
    entry (splice t (entrySize * i) [0]) j = t.entry j := by
  refine entry_congr fun q low high => splice_outside _ ?_
  simp only [entrySize, List.length_singleton] at *
  omega

theorem found_iff : (t.inUse i && sameName (t.name i) name fileNameMaxLen 0) = true ↔
    ∃ s, t.entry i = some (chars name fileNameMaxLen 0, s) := by
  rw [Bool.and_eq_true, sameName_iff, entry]
  constructor
  · rintro ⟨used, same⟩
    exact ⟨t.sector i, by rw [if_pos used, same]⟩
  · rintro ⟨s, found⟩
    split at found
    · rename_i used
      obtain ⟨same, -⟩ := Prod.mk.inj (Option.some.inj found)
      exact ⟨used, same⟩
    · cases found

theorem findIndexFrom_cases (t : Table) (name : Nat → Byte) (n i : Nat) :
    (t.findIndexFrom name n i = -1 ∧
        ∀ j, i ≤ j → j < i + n → ∀ s, t.entry j ≠ some (chars name fileNameMaxLen 0, s)) ∨
      ∃ j s, t.findIndexFrom name n i = (j : Nat) ∧ i ≤ j ∧ j < i + n ∧
        t.entry j = some (chars name fileNameMaxLen 0, s) := by
  induction n generalizing i with
  | zero => exact .inl ⟨rfl, fun j low high => by omega⟩
  | succ n ih =>
      unfold findIndexFrom
      split
      · rename_i found
        obtain ⟨s, here⟩ := found_iff.mp found
        exact .inr ⟨i, s, rfl, by omega, by omega, here⟩
      · rename_i other
        obtain ⟨none, absent⟩ | ⟨j, s, found, low, high, there⟩ := ih (i + 1)
        · refine .inl ⟨none, fun j low high s there => ?_⟩
          obtain rfl | low : j = i ∨ i + 1 ≤ j := by omega
          · exact other (found_iff.mpr ⟨s, there⟩)
          · exact absent j low (by omega) s there
        · exact .inr ⟨j, s, found, by omega, by omega, there⟩

/-- `FindIndex` returns an entry of that name, or there is none. -/
theorem findIndex_cases (t : Table) (name : Nat → Byte) :
    (t.findIndex name = -1 ∧
        ∀ j < numDirEntries, ∀ s, t.entry j ≠ some (chars name fileNameMaxLen 0, s)) ∨
      ∃ j s, t.findIndex name = (j : Nat) ∧ j < numDirEntries ∧
        t.entry j = some (chars name fileNameMaxLen 0, s) := by
  obtain ⟨none, absent⟩ | ⟨j, s, found, -, high, there⟩ :=
    findIndexFrom_cases t name numDirEntries 0
  · exact .inl ⟨none, fun j inside => absent j (by omega) (by omega)⟩
  · exact .inr ⟨j, s, found, by omega, there⟩

theorem find_cases (t : Table) (name : Nat → Byte) :
    (t.find name = -1 ∧
        ∀ j < numDirEntries, ∀ s, t.entry j ≠ some (chars name fileNameMaxLen 0, s)) ∨
      ∃ j < numDirEntries, t.findIndex name = (j : Nat) ∧
        t.entry j = some (chars name fileNameMaxLen 0, t.find name) := by
  unfold find
  obtain ⟨none, absent⟩ | ⟨j, s, found, inside, there⟩ := findIndex_cases t name
  · exact .inl ⟨by rw [none]; rfl, absent⟩
  · refine .inr ⟨j, inside, found, ?_⟩
    rw [found]
    simp only [Int.toNat_natCast]
    rw [if_pos (by omega), there]
    unfold entry at there
    split at there
    · rw [(Prod.mk.inj (Option.some.inj there)).2]
    · cases there

/-- `Add` takes the first entry that is not in use, or there is none. -/
theorem addFrom_cases (t : Table) (name : Nat → Byte) (s : Int) (n i : Nat) :
    (t.addFrom name s n i = none ∧ ∀ j, i ≤ j → j < i + n → t.entry j ≠ none) ∨
      ∃ j, t.addFrom name s n i = some (t.set j name s) ∧ i ≤ j ∧ j < i + n ∧ t.entry j = none := by
  induction n generalizing i with
  | zero => exact .inl ⟨rfl, fun j low high => by omega⟩
  | succ n ih =>
      unfold addFrom
      split
      · rename_i used
        obtain ⟨none, full⟩ | ⟨j, found, low, high, free⟩ := ih (i + 1)
        · refine .inl ⟨none, fun j low high => ?_⟩
          obtain rfl | low : j = i ∨ i + 1 ≤ j := by omega
          · simp [entry, used]
          · exact full j low (by omega)
        · exact .inr ⟨j, found, by omega, by omega, free⟩
      · rename_i free
        exact .inr ⟨i, rfl, by omega, by omega, by simp [entry, free]⟩

/-! ## The table on the disk -/

/-- The first `n` entries are in the first `n * entrySize` bytes. -/
theorem entry_eq_of_prefix (same : ∀ q < n * entrySize, t q = t' q) (inside : i < n) :
    t.entry i = t'.entry i := by
  refine entry_congr fun q low high => same q ?_
  rw [entrySize] at *
  omega

theorem directoryFileSize_eq : directoryFileSize = numDirEntries * entrySize := Nat.mul_comm _ _

/-- The entries of a table whose first bytes are replaced by those of another. -/
theorem entry_splice_block (t t' : Table) (inside : i < n) :
    entry (splice t 0 (block t' 0 (n * entrySize))) i = t'.entry i := by
  refine entry_eq_of_prefix (fun q small => ?_) inside
  rw [splice_block_at _ _ (Nat.zero_le q) (by rwa [Nat.zero_add]), Nat.zero_add, Nat.sub_zero]

theorem fetchFrom_spec {d : Disk} {file : FileHeader} {sectors : List Nat}
    (describes : Describes file directoryFileSize sectors) (t : Table) :
    ∃ t', t.fetchFrom d file = .ok t' ∧
      ∀ i < numDirEntries, t'.entry i = entry (contents d sectors) i := by
  have read := describes.readAt (d := d) (p := 0) (n := directoryFileSize) (by decide)
    (by decide) (by decide)
  rw [Nat.sub_zero, Nat.min_self, directoryFileSize_eq] at read
  exact ⟨_, bind_of_ok read, fun i inside => entry_splice_block t (contents d sectors) inside⟩

theorem writeBack_spec {d : Disk} {file : FileHeader} {sectors : List Nat} (garbage : Nat → Byte)
    (describes : Describes file directoryFileSize sectors) (distinct : sectors.Nodup) (t : Table) :
    ∃ d', t.writeBack d file garbage = .ok d' ∧
      (∀ i < numDirEntries, entry (contents d' sectors) i = t.entry i) ∧
        ∀ s ∉ sectors, d' s = d s := by
  obtain ⟨d', wrote, here, elsewhere⟩ := describes.writeAt (d := d) t garbage
    distinct (p := 0) (n := directoryFileSize) (by decide) (by decide) (by decide)
  rw [Nat.sub_zero, Nat.min_self, directoryFileSize_eq] at here
  refine ⟨d', bind_of_ok wrote, fun i inside => ?_, fun s other => elsewhere s ?_⟩
  · calc entry (contents d' sectors) i
        = entry (splice (contents d sectors) 0 (block t 0 (numDirEntries * entrySize))) i :=
          entry_eq_of_prefix here inside
      _ = t.entry i := entry_splice_block (contents d sectors) t inside
  · intro member
    exact other (describes.touched_subset (p := 0) (by simp) member)

end Entries

end Table

end Nachos.Disk
