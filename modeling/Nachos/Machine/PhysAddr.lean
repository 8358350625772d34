/-
# Nachos.Machine.PhysAddr -- translation stays inside the physical memory

`Machine::Translate` once more, with the integers of the machine: the page number, the offset
and the frame are `unsigned`, `*physAddr` is an `int`, and the `ASSERT` at the end tests its
sign and adds to it.  What an exception leaves behind is part of the result.

`translateInt_cases` is all that it can come to.  A frame number that passes the test against
`NumPhysPages` is small, whatever the entry holds, and so none of this wraps: the routine is
`Vm.translate` (`translate_eq_translateInt`), and the bytes of an access lie in the one frame
that the entry names (`translate_stays_inside`).
-/
import Nachos.UserProg.Access
import Nachos.Machine.Exceptions

namespace Nachos.Machine

open Nachos.Lib.Bytes
open Nachos.UserProg (Aligned touched aligned_of_passes)

set_option autoImplicit false

/-- What a call of `Translate` leaves: the exception it returns, `*physAddr`, the machine. -/
structure Translation where
  exception : ExceptionType
  physAddr : Word
  vm : Vm

/-- `pageFrame`: the frame an entry names, as an `unsigned`. -/
def TranslationEntry.pageFrame (entry : TranslationEntry) : Word :=
    BitVec.ofInt 32 entry.physicalPage

/-- `Machine::Translate` with a linear page table; `physAddr` is what `*physAddr` holds before. -/
def Vm.translateInt (cfg : Config) (s : Vm) (virtAddr physAddr : Word) (size : Nat)
    (writing : Bool) : Except Stop Translation :=
  if (size = 4 ∧ virtAddr &&& 3#32 ≠ 0#32) ∨ (size = 2 ∧ virtAddr &&& 1#32 ≠ 0#32) then
    return ⟨.addressErrorException, physAddr, s⟩
  else
    let vpn := virtAddr / BitVec.ofNat 32 pageSize
    let offset := virtAddr % BitVec.ofNat 32 pageSize
    if s.numPages ≤ vpn.toNat then return ⟨.addressErrorException, physAddr, s⟩
    else if !(s.pageTable vpn.toNat).valid then return ⟨.pageFaultException, physAddr, s⟩
    else
      let entry := s.pageTable vpn.toNat
      if entry.readOnly && writing then return ⟨.readOnlyException, physAddr, s⟩
      else
        let pageFrame := entry.pageFrame
        if BitVec.ofNat 32 cfg.numPhysPages ≤ pageFrame then
          return ⟨.busErrorException, physAddr, s⟩
        else do
          let entry := { entry with use := true }
          let entry := if writing then { entry with dirty := true } else entry
          let s := s.setEntry vpn.toNat entry
          let physAddr := pageFrame * BitVec.ofNat 32 pageSize + offset
          ASSERT (decide (0 ≤ physAddr.toInt ∧
            (physAddr + BitVec.ofNat 32 size).toInt ≤ cfg.memorySize))
          return ⟨.noException, physAddr, s⟩

/-! ## One translation -/

section Translation

variable {cfg : Config} {s s' : Vm} {virtAddr virtAddr' physAddr physAddr' : Word}
  {size size' : Nat} {writing writing' : Bool} {t t' : Translation}

/-- The entry of the page of an address. -/
def Vm.entryOf (s : Vm) (virtAddr : Word) : TranslationEntry :=
    s.pageTable (virtAddr.toNat / pageSize)

/-- The address of a byte in the frame that the entry of its page names. -/
def Vm.physAddrOf (s : Vm) (virtAddr : Word) : Nat :=
  (s.entryOf virtAddr).pageFrame.toNat * pageSize + virtAddr.toNat % pageSize

theorem vpn_toNat (virtAddr : Word) :
    (virtAddr / BitVec.ofNat 32 pageSize).toNat = virtAddr.toNat / pageSize := rfl

theorem offset_toNat (virtAddr : Word) :
    (virtAddr % BitVec.ofNat 32 pageSize).toNat = virtAddr.toNat % pageSize := rfl

theorem frame_le_iff (cfg : Config) (frame : Word) :
    BitVec.ofNat 32 cfg.numPhysPages ≤ frame ↔ cfg.numPhysPages ≤ frame.toNat := by
  have int := cfg.memory_int
  rw [pageSize] at int
  rw [BitVec.le_def, BitVec.toNat_ofNat, Nat.mod_eq_of_lt (by omega)]

/-- A frame that exists ends inside the memory. -/
theorem frame_end_le {frame : Nat} (exists_ : frame < cfg.numPhysPages) :
    frame * pageSize + pageSize ≤ cfg.memorySize := by
  rw [← Nat.succ_mul]
  exact Nat.mul_le_mul_right pageSize exists_

/-- Where the byte of an address lies, once its frame is known to exist: nothing wraps. -/
theorem physAddr_toNat (exists_ : (s.entryOf virtAddr).pageFrame.toNat < cfg.numPhysPages) :
    ((s.entryOf virtAddr).pageFrame * BitVec.ofNat 32 pageSize
      + virtAddr % BitVec.ofNat 32 pageSize).toNat = s.physAddrOf virtAddr := by
  have below := frame_end_le exists_
  have int := cfg.memory_int
  have offset := Nat.mod_lt virtAddr.toNat (show 0 < pageSize by decide)
  have size : (BitVec.ofNat 32 pageSize).toNat = pageSize := rfl
  rw [Config.memorySize] at below
  rw [BitVec.toNat_add, BitVec.toNat_mul, offset_toNat, size, Vm.physAddrOf,
    Nat.mod_eq_of_lt (show (s.entryOf virtAddr).pageFrame.toNat * pageSize < 2 ^ 32 by omega),
    Nat.mod_eq_of_lt (by omega)]

/-- An aligned access ends in the frame in which it begins. -/
theorem physAddrOf_add_le (exists_ : (s.entryOf virtAddr).pageFrame.toNat < cfg.numPhysPages)
    (aligned : Aligned virtAddr size) : s.physAddrOf virtAddr + size ≤ cfg.memorySize := by
  have below := frame_end_le exists_
  have fits := aligned.fits
  rw [Vm.physAddrOf]
  omega

/-- The `ASSERT` at the end holds. -/
theorem translate_assert (exists_ : (s.entryOf virtAddr).pageFrame.toNat < cfg.numPhysPages)
    (aligned : Aligned virtAddr size) :
    0 ≤ ((s.entryOf virtAddr).pageFrame * BitVec.ofNat 32 pageSize
      + virtAddr % BitVec.ofNat 32 pageSize).toInt ∧
    ((s.entryOf virtAddr).pageFrame * BitVec.ofNat 32 pageSize
      + virtAddr % BitVec.ofNat 32 pageSize + BitVec.ofNat 32 size).toInt ≤ cfg.memorySize := by
  have physAddr := physAddr_toNat exists_
  have below := physAddrOf_add_le exists_ aligned
  have int := cfg.memory_int
  rw [Config.memorySize] at below ⊢
  generalize (s.entryOf virtAddr).pageFrame * BitVec.ofNat 32 pageSize
    + virtAddr % BitVec.ofNat 32 pageSize = p at physAddr ⊢
  have sum : (p + BitVec.ofNat 32 size).toNat = s.physAddrOf virtAddr + size := by
    rw [BitVec.toNat_add, BitVec.toNat_ofNat, physAddr,
      Nat.mod_eq_of_lt (show size < 2 ^ 32 by omega), Nat.mod_eq_of_lt (by omega)]
  rw [BitVec.toInt_eq_toNat_of_lt (by omega), BitVec.toInt_eq_toNat_of_lt (by omega), sum]
  omega

/-- The entry of the page lets the access through, and names a frame that exists. -/
structure Admits (cfg : Config) (s : Vm) (virtAddr : Word) (size : Nat) (writing : Bool) :
    Prop where
  aligned : Aligned virtAddr size
  page : virtAddr.toNat / pageSize < s.numPages
  valid : (s.entryOf virtAddr).valid = true
  writable : ((s.entryOf virtAddr).readOnly && writing) = false
  frame : (s.entryOf virtAddr).pageFrame.toNat < cfg.numPhysPages

theorem touched_eq (s : Vm) (i : Nat) (writing : Bool) :
    touched s i writing = s.setEntry i
      (if writing then { s.pageTable i with use := true, dirty := true }
        else { s.pageTable i with use := true }) := by
  cases writing with
  | false => rw [touched, Bool.or_false, if_neg Bool.false_ne_true]
  | true => rw [touched, Bool.or_true, if_pos rfl]

/-- **All that a translation can come to**, with and without the integers of the machine. -/
theorem translateInt_cases (cfg : Config) (s : Vm) (virtAddr physAddr : Word)
    (isSize : size = 1 ∨ size = 2 ∨ size = 4) (writing : Bool) :
    (∃ which, which ≠ .noException ∧
      s.translateInt cfg virtAddr physAddr size writing = .ok ⟨which, physAddr, s⟩ ∧
      s.translate cfg virtAddr size writing = .ok (.exception which)) ∨
    ∃ p : Word, Admits cfg s virtAddr size writing ∧ p.toNat = s.physAddrOf virtAddr ∧
      s.translateInt cfg virtAddr physAddr size writing =
        .ok ⟨.noException, p, touched s (virtAddr.toNat / pageSize) writing⟩ ∧
      s.translate cfg virtAddr size writing =
        .ok (.value p.toNat (touched s (virtAddr.toNat / pageSize) writing)) := by
  have entry : s.pageTable (virtAddr.toNat / pageSize) = s.entryOf virtAddr := rfl
  have frame : BitVec.ofInt 32 (s.entryOf virtAddr).physicalPage = (s.entryOf virtAddr).pageFrame :=
    rfl
  unfold Vm.translateInt Vm.translate
  simp only [vpn_toNat, entry, frame, frame_le_iff]
  by_cases passes : (size = 4 ∧ virtAddr &&& 3#32 ≠ 0#32) ∨ (size = 2 ∧ virtAddr &&& 1#32 ≠ 0#32)
  · simp only [if_pos passes]
    exact .inl ⟨_, ExceptionType.noConfusion, rfl, rfl⟩
  have aligned := aligned_of_passes isSize passes
  simp only [if_neg passes]
  by_cases outside : s.numPages ≤ virtAddr.toNat / pageSize
  · simp only [if_pos outside]
    exact .inl ⟨_, ExceptionType.noConfusion, rfl, rfl⟩
  simp only [if_neg outside]
  by_cases invalid : (!(s.entryOf virtAddr).valid) = true
  · simp only [if_pos invalid]
    exact .inl ⟨_, ExceptionType.noConfusion, rfl, rfl⟩
  simp only [if_neg invalid]
  by_cases readOnly : ((s.entryOf virtAddr).readOnly && writing) = true
  · simp only [if_pos readOnly]
    exact .inl ⟨_, ExceptionType.noConfusion, rfl, rfl⟩
  simp only [if_neg readOnly]
  by_cases bus : cfg.numPhysPages ≤ (s.entryOf virtAddr).pageFrame.toNat
  · simp only [if_pos bus]
    exact .inl ⟨_, ExceptionType.noConfusion, rfl, rfl⟩
  have exists_ := Nat.not_le.mp bus
  have asserted := decide_eq_true (translate_assert exists_ aligned)
  have room := decide_eq_true (physAddrOf_add_le exists_ aligned)
  have physAddr := physAddr_toNat exists_
  rw [Vm.physAddrOf] at room
  simp only [if_neg bus, asserted, room, ASSERT_true, ok_bind]
  have admits : Admits cfg s virtAddr size writing :=
    ⟨aligned, Nat.not_le.mp outside, by simpa using invalid, by simpa using readOnly, exists_⟩
  refine .inr ⟨_, admits, physAddr, ?_, ?_⟩
  · rw [touched_eq]
    rfl
  · rw [physAddr]
    rfl

/-- The exception or the address, as the rest of the machine sees them. -/
def Translation.result (t : Translation) : Result Vm Nat :=
  if t.exception = .noException then .value t.physAddr.toNat t.vm else .exception t.exception

/-- **No integer of the machine wraps in a translation.** -/
theorem translate_eq_translateInt (cfg : Config) (s : Vm) (virtAddr physAddr : Word)
    (isSize : size = 1 ∨ size = 2 ∨ size = 4) (writing : Bool) :
    s.translate cfg virtAddr size writing =
      (s.translateInt cfg virtAddr physAddr size writing).map Translation.result := by
  obtain ⟨which, raised, int, nat⟩ | ⟨p, -, -, int, nat⟩ :=
    translateInt_cases cfg s virtAddr physAddr isSize writing
  · rw [nat, int]
    exact congrArg Except.ok (if_neg raised).symm
  · rw [nat, int]
    exact congrArg Except.ok (if_pos rfl).symm

/-! ## Where the bytes lie -/

/-- One of `size` places from `start` on. -/
def Covers (start size i : Nat) : Prop := start ≤ i ∧ i < start + size

/-- The bytes of an access, from `*physAddr` on. -/
structure Inside (cfg : Config) (s : Vm) (virtAddr : Word) (size : Nat) (physAddr : Word) :
    Prop where
  nonneg : 0 ≤ physAddr.toInt
  room : physAddr.toInt + size ≤ cfg.memorySize
  congruent : physAddr.toInt % pageSize = virtAddr.toNat % pageSize
  /-- The frame that the entry names exists; as long as the entry holds an `int`, it is that. -/
  named : (s.entryOf virtAddr).pageFrame.toNat < cfg.numPhysPages ∧
    (-2 ^ 31 ≤ (s.entryOf virtAddr).physicalPage → (s.entryOf virtAddr).physicalPage < 2 ^ 31 →
      (s.entryOf virtAddr).physicalPage = (s.entryOf virtAddr).pageFrame.toNat)
  inFrame : ∀ i, Covers physAddr.toNat size i → i / pageSize = (s.entryOf virtAddr).pageFrame.toNat

/-- An `int` that names an existing frame is the number of that frame. -/
theorem physicalPage_eq {entry : TranslationEntry}
    (exists_ : entry.pageFrame.toNat < cfg.numPhysPages)
    (low : -2 ^ 31 ≤ entry.physicalPage) (high : entry.physicalPage < 2 ^ 31) :
    entry.physicalPage = entry.pageFrame.toNat := by
  have int := cfg.memory_int
  rw [pageSize] at int
  rw [← BitVec.toInt_eq_toNat_of_lt (by omega), TranslationEntry.pageFrame, BitVec.toInt_ofInt]
  exact (Int.bmod_eq_of_le (by omega) (by omega)).symm

theorem Admits.inside {p : Word} (admits : Admits cfg s virtAddr size writing)
    (physAddr : p.toNat = s.physAddrOf virtAddr) : Inside cfg s virtAddr size p := by
  have room := physAddrOf_add_le admits.frame admits.aligned
  have int := cfg.memory_int
  have isInt : p.toInt = s.physAddrOf virtAddr := by
    rw [BitVec.toInt_eq_toNat_of_lt (by rw [Config.memorySize] at room; omega), physAddr]
  refine ⟨by omega, by omega, ?_, ⟨admits.frame, physicalPage_eq admits.frame⟩, ?_⟩
  · have offset : s.physAddrOf virtAddr % pageSize = virtAddr.toNat % pageSize := by
      rw [Vm.physAddrOf, Nat.mul_add_mod_self_right, Nat.mod_mod]
    rw [isInt]
    exact_mod_cast offset
  · rintro i ⟨low, high⟩
    have fits := admits.aligned.fits
    rw [physAddr, Vm.physAddrOf] at low high
    exact Nat.div_eq_of_lt_le (by omega) (by rw [Nat.succ_mul]; omega)

/-- Two ranges of bytes in frames overlap where the frame is one and the offsets overlap. -/
theorem covers_both_iff {f f' o o' n n' : Nat} (fits : o + n ≤ pageSize)
    (fits' : o' + n' ≤ pageSize) :
    (∃ i, Covers (f * pageSize + o) n i ∧ Covers (f' * pageSize + o') n' i) ↔
      f = f' ∧ ∃ i, Covers o n i ∧ Covers o' n' i := by
  constructor
  · rintro ⟨i, ⟨low, high⟩, ⟨low', high'⟩⟩
    have frame : i / pageSize = f := Nat.div_eq_of_lt_le (by omega) (by rw [Nat.succ_mul]; omega)
    have frame' : i / pageSize = f' := Nat.div_eq_of_lt_le (by omega) (by rw [Nat.succ_mul]; omega)
    obtain rfl : f = f' := frame.symm.trans frame'
    exact ⟨rfl, i - f * pageSize, ⟨by omega, by omega⟩, ⟨by omega, by omega⟩⟩
  · rintro ⟨rfl, i, ⟨low, high⟩, ⟨low', high'⟩⟩
    exact ⟨f * pageSize + i, ⟨by omega, by omega⟩, ⟨by omega, by omega⟩⟩

/-- **Translation stays inside the physical memory.**  For any table, a call of `Translate`
returns; without an exception the bytes of the access are in the one frame that the entry names
and only that entry has changed, and they are bytes of another access exactly if the two pages
share the frame and the offsets overlap; with one nothing has changed. -/
theorem translate_stays_inside (cfg : Config) (s : Vm) (virtAddr physAddr : Word)
    (isSize : size = 1 ∨ size = 2 ∨ size = 4) (writing : Bool) :
    ∃ t, s.translateInt cfg virtAddr physAddr size writing = .ok t ∧
      (t.exception = .noException →
        Inside cfg s virtAddr size t.physAddr ∧
        t.vm = touched s (virtAddr.toNat / pageSize) writing ∧
        ∀ (s' : Vm) (virtAddr' physAddr' : Word) (size' : Nat) (writing' : Bool) (t' : Translation),
          size' = 1 ∨ size' = 2 ∨ size' = 4 →
          s'.translateInt cfg virtAddr' physAddr' size' writing' = .ok t' →
          t'.exception = .noException →
          ((∃ i, Covers t.physAddr.toNat size i ∧ Covers t'.physAddr.toNat size' i) ↔
            (s.entryOf virtAddr).pageFrame = (s'.entryOf virtAddr').pageFrame ∧
            ∃ i, Covers (virtAddr.toNat % pageSize) size i ∧
              Covers (virtAddr'.toNat % pageSize) size' i)) ∧
      (t.exception ≠ .noException → t.vm = s ∧ t.physAddr = physAddr) := by
  obtain ⟨which, raised, int, -⟩ | ⟨p, admits, here, int, -⟩ :=
    translateInt_cases cfg s virtAddr physAddr isSize writing
  · exact ⟨_, int, fun bad => absurd bad raised, fun _ => ⟨rfl, rfl⟩⟩
  · refine ⟨_, int, fun _ => ⟨admits.inside here, rfl, ?_⟩, fun bad => absurd rfl bad⟩
    intro s' virtAddr' physAddr' size' writing' t' isSize' ran passed
    obtain ⟨which, raised, int', -⟩ | ⟨p', admits', here', int', -⟩ :=
      translateInt_cases cfg s' virtAddr' physAddr' isSize' writing'
    · obtain rfl := Except.ok.inj (ran.symm.trans int')
      exact absurd passed raised
    · obtain rfl := Except.ok.inj (ran.symm.trans int')
      rw [← BitVec.toNat_inj]
      show (∃ i, Covers p.toNat size i ∧ Covers p'.toNat size' i) ↔ _
      rw [here, here']
      exact covers_both_iff admits.aligned.fits admits'.aligned.fits

end Translation

/-- The word at address 4 of the machine of one page. -/
theorem translate_stays_inside_word :
    ∃ t, (holding []).translateInt oneFrame 4 0 4 false = .ok t ∧ t.exception = .noException ∧
      Inside oneFrame (holding []) 4 4 t.physAddr := by
  obtain ⟨t, ran, stays, -⟩ :=
    translate_stays_inside oneFrame (holding []) 4 0 (Or.inr (Or.inr rfl)) false
  have passed : t.exception = .noException := by
    cases ran
    rfl
  exact ⟨t, ran, passed, (stays passed).1⟩

end Nachos.Machine
