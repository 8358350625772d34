/-
# Nachos.UserProg.ExecName -- the name that `Exec` reads

The loop in `Exec` reads its argument with `ReadMem`, a byte at a time.  Any of these reads
may fault; the handler is entered from inside the handler, perhaps pages out what was read
before, and the read is tried once more.

`memoryOf` is the memory the string is in: a byte that was ever loaded is what it is, and on
a page that was not it is what the first load puts there while the string is read.
`ExecReads` is the loop as a function of this memory.  In a process the kernel can page in
(`Ready`), one character is one read of the memory (`Ready.readByteTwice`), and the whole loop
is `nameIn` (`Ready.copyName_eq`).  `exec_reads_iff` says for which programs the loop is right
in every state and at every address.
-/
import Nachos.UserProg.Progress

namespace Nachos.UserProg

open Nachos.Lib.Bytes
open Nachos.Machine
open Nachos.FileSys (OpenFile)

set_option autoImplicit false

/-- The byte at `b` once the loop in `Exec`, cut to `j` characters, is through. -/
def byteAt (c : Config) (p : Process) (j b : Nat) : Option Byte :=
  match copyName c j p.cpu (p.registers 4) with
  | .ok (_, cpu) => vbyte cpu.memory b
  | .error _ => none

open Classical in
/-- The memory of a process that calls `Exec`: a byte is what it is when its page is first
there, before the call or while the string is read; `rest` where the page stays away. -/
noncomputable def memoryOf (c : Config) (p : Process) (rest : Nat → Byte) (b : Nat) : Byte :=
  if there : ∃ j, byteAt c p j b ≠ none then (byteAt c p (Nat.find there) b).getD 0 else rest b

/-- The address of character `i` of the argument. -/
def Process.character (p : Process) (i : Nat) : Nat := (p.registers 4 + BitVec.ofNat 32 i).toNat

/-- `Exec` reads the string at its argument. -/
structure ExecReads (c : Config) (p : Process) (mem : Nat → Byte) : Prop where
  /-- The string ends at character `k`, and it lies in the address space. -/
  name : ∀ k < 1024, (∀ i ≤ k, p.character i / pageSize < p.space.numPages) →
    (∀ i < k, mem (p.character i) ≠ 0) → mem (p.character k) = 0 → ∀ env, ∃ cpu,
      copyName c 1024 p.cpu (p.registers 4)
        = .ok (some ((List.range k).map fun i => mem (p.character i)), cpu) ∧
      sysExec c env p
        = execProgram env (p.resume cpu) (nameOf ((List.range k).map fun i => mem (p.character i)))
  /-- There is no end among 1024 characters. -/
  tooLong : (∀ i < 1024, p.character i / pageSize < p.space.numPages ∧ mem (p.character i) ≠ 0) →
    ∀ env, ∃ p', sysExec c env p = .ok p' ∧ p'.registers 2 = 0 ∧
      p'.kernel = { p.kernel with core := p'.kernel.core }

/-- The states of memory of a process that has the machine to itself: it runs, with any
registers, it writes what it likes, and the kernel reads for it. -/
inductive Lives (c : Config) (start : Vm) : Vm → Prop where
  | start : Lives c start start
  | turn {s : Vm} {r : Registers} {status : Status} : Lives c start s → Sane r →
      UserProg.turn c ⟨r, s⟩ = .ok status → Lives c start status.cpu.memory
  | write {s s' : Vm} {a value : Word} {size : Nat} : Lives c start s →
      size = 1 ∨ size = 2 ∨ size = 4 → s.writeMem c a size value = .ok (.value () s') →
      Lives c start s'
  | readByte {s : Vm} {r : Registers} {a : Word} {v : Option Word} {cpu : Cpu Vm} :
      Lives c start s → Sane r → UserProg.readByte c ⟨r, s⟩ a = .ok (v, cpu) →
      Lives c start cpu.memory

/-! ## The string in a flat memory -/

section Strings

variable {mem : Nat → Byte} {numPages n k : Nat} {a : Word}

/-- The characters before the `NUL`; `none` when there is none among `n` of them. -/
def nameIn (mem : Nat → Byte) : Nat → Word → Option (List Byte)
  | 0, _ => none
  | n + 1, a => if mem a.toNat = 0 then some [] else (nameIn mem n (a + 1)).map (mem a.toNat :: ·)

/-- The characters that are read lie in so many pages. -/
def Within (mem : Nat → Byte) (numPages : Nat) : Nat → Word → Prop
  | 0, _ => True
  | n + 1, a => a.toNat / pageSize < numPages ∧ (mem a.toNat ≠ 0 → Within mem numPages n (a + 1))

/-- Character `i + 1` from `a` on is character `i` from `a + 1` on. -/
theorem next_character (a : Word) (i : Nat) :
    a + BitVec.ofNat 32 (i + 1) = a + 1 + BitVec.ofNat 32 i := by
  have sum : BitVec.ofNat 32 (i + 1) = 1#32 + BitVec.ofNat 32 i := by
    rw [← BitVec.ofNat_add, Nat.add_comm]
  rw [sum, ← BitVec.add_assoc]
  rfl

theorem nameIn_of_end (short : k < n)
    (some_ : ∀ i < k, mem (a + BitVec.ofNat 32 i).toNat ≠ 0)
    (last : mem (a + BitVec.ofNat 32 k).toNat = 0) :
    nameIn mem n a = some ((List.range k).map fun i => mem (a + BitVec.ofNat 32 i).toNat) := by
  induction k generalizing n a with
  | zero =>
      obtain ⟨n, rfl⟩ := Nat.exists_eq_succ_of_ne_zero (by omega : n ≠ 0)
      rw [BitVec.add_zero] at last
      exact if_pos last
  | succ k ih =>
      obtain ⟨n, rfl⟩ := Nat.exists_eq_succ_of_ne_zero (by omega : n ≠ 0)
      have first := some_ 0 (by omega)
      rw [BitVec.add_zero] at first
      rw [next_character] at last
      have rest := @ih n (a + 1) (by omega) (fun i lt => by
        rw [← next_character]
        exact some_ (i + 1) (by omega)) last
      rw [nameIn, if_neg first, rest, Option.map_some, List.range_succ_eq_map, List.map_cons,
        List.map_map, BitVec.add_zero]
      congr 2
      refine List.map_congr_left fun i _ => ?_
      rw [Function.comp_apply, next_character]

theorem nameIn_of_none (some_ : ∀ i < n, mem (a + BitVec.ofNat 32 i).toNat ≠ 0) :
    nameIn mem n a = none := by
  induction n generalizing a with
  | zero => rfl
  | succ n ih =>
      have first := some_ 0 (by omega)
      rw [BitVec.add_zero] at first
      rw [nameIn, if_neg first, ih, Option.map_none]
      intro i lt
      rw [← next_character]
      exact some_ (i + 1) (by omega)

/-- It is enough that the characters up to the first `NUL` are inside. -/
theorem within_of (inside : ∀ i < n, (∀ j < i, mem (a + BitVec.ofNat 32 j).toNat ≠ 0) →
    (a + BitVec.ofNat 32 i).toNat / pageSize < numPages) : Within mem numPages n a := by
  induction n generalizing a with
  | zero => trivial
  | succ n ih =>
      have first := inside 0 (by omega) (fun j lt => absurd lt (Nat.not_lt_zero j))
      rw [BitVec.add_zero] at first
      refine ⟨first, fun more => ih ?_⟩
      intro i lt before
      rw [← next_character]
      refine inside (i + 1) (by omega) ?_
      rintro (_ | j) lt'
      · rwa [BitVec.add_zero]
      · rw [next_character]
        exact before j (by omega)

end Strings

/-! ## One character -/

/-- The character `v` has been read at `a`; nothing that was loaded has changed. -/
structure Reads (c : Config) (noffH : NoffHeader) (s : Vm) (a v : Word) (cpu : Cpu Vm) : Prop where
  ready : Ready c noffH cpu.memory
  sane : Sane cpu.registers
  numPages : cpu.memory.numPages = s.numPages
  kept : ∀ b, b / pageSize < s.numPages → vbyte s b ≠ none → vbyte cpu.memory b = vbyte s b
  here : vbyte cpu.memory a.toNat = some (byteOf v 0)
  isNul : v = 0 ↔ byteOf v 0 = 0

section Characters

variable {c : Config} {noffH : NoffHeader} {s s' start : Vm} {r : Registers} {a v : Word}

theorem load_one_eq_zero (b : Nat → Byte) : load 1 b = 0 ↔ byteOf (load 1 b) 0 = 0 := by
  constructor
  · intro none_
    rw [none_]
    rfl
  · intro nul
    rw [byteOf_load_one] at nul
    rw [load, nul]
    rfl

theorem Ready.readByte_resident (ready : Ready c noffH s) (sane : Sane r)
    (inside : a.toNat / pageSize < s.numPages)
    (valid : (s.pageTable (a.toNat / pageSize)).valid = true) :
    ∃ v, UserProg.readByte c ⟨r, s⟩ a
        = .ok (some v, ⟨r, touched s (a.toNat / pageSize) false⟩) ∧
      Reads c noffH s a v ⟨r, touched s (a.toNat / pageSize) false⟩ := by
  have aligned : Aligned a 1 := ⟨.inl rfl, Nat.mod_one _⟩
  obtain ⟨bytes, read, held⟩ := readMem_vbyte ready.running.owns ready.running.pages aligned
    inside valid
  refine ⟨load 1 bytes, ?_, ready.touch _, sane, rfl, fun b _ _ => vbyte_touched b, ?_,
    load_one_eq_zero _⟩
  · rw [UserProg.readByte]
    simp only [read, ok_bind, pure_eq_ok]
  · rw [vbyte_touched, byteOf_load_one]
    exact held 0 Nat.one_pos

/-- **A read in the kernel is through at the second try**, whatever has to be paged in and out. -/
theorem Ready.readByteTwice (ready : Ready c noffH s) (sane : Sane r)
    (inside : a.toNat / pageSize < s.numPages) :
    ∃ v cpu, UserProg.readByteTwice c ⟨r, s⟩ a = .ok (v, cpu) ∧ Reads c noffH s a v cpu := by
  cases valid : (s.pageTable (a.toNat / pageSize)).valid with
  | true =>
      obtain ⟨v, read, reads⟩ := ready.readByte_resident sane inside valid
      refine ⟨v, _, ?_, reads⟩
      rw [UserProg.readByteTwice, read]
      rfl
  | false =>
      obtain ⟨r', s', handled, served, flushed, running, hand, pages, kept⟩ :=
        handlePageFault_served ready.running ready.hand sane (Or.inl (Same.refl r)) inside valid
          (ready.low inside) (ready.loadable _ inside)
      have ready' := ready.step running hand pages
      have small := Nat.lt_of_lt_of_le inside ready.limit
      have valid' := (demandpage_content ready.running.count.owns ready.running.count.pages inside
        small valid served).2.2.2
      have inside' : a.toNat / pageSize < s'.numPages := pages.symm ▸ inside
      obtain ⟨v, read, reads⟩ := ready'.readByte_resident (sane_of_flushed flushed) inside' valid'
      have faulted : UserProg.readByte c ⟨r, s⟩ a = .ok (none, ⟨r', s'⟩) := by
        have paged : s.readMem c a 1 = .ok (.exception .pageFaultException) :=
          readMem_fault ⟨.inl rfl, Nat.mod_one _⟩ inside valid
        rw [UserProg.readByte]
        simp only [paged, ok_bind, handleFault, handled, pure_eq_ok]
      refine ⟨v, _, ?_, reads.ready, reads.sane, reads.numPages.trans pages, ?_, reads.here,
        reads.isNul⟩
      · rw [UserProg.readByteTwice, faulted, ok_bind]
        simp only [read, ok_bind, pure_eq_ok]
      · intro b hb loaded
        have before := kept b hb loaded
        rw [reads.kept b (pages.symm ▸ hb) (before ▸ loaded), before]

/-- Outside of the address space the process is ended. -/
theorem readByteTwice_outside
    (outside : ¬ a.toNat / pageSize < s.numPages) (x : Word × Cpu Vm) :
    UserProg.readByteTwice c ⟨r, s⟩ a ≠ .ok x := by
  intro read
  have refused : s.readMem c a 1 = .ok (.exception .addressErrorException) := by
    rw [Vm.readMem, translate_refused (m := view s) rfl (.inr (Nat.not_lt.mp outside))]
    rfl
  obtain ⟨y, first, -⟩ := bind_eq_ok.mp read
  simp only [UserProg.readByte, refused, ok_bind, handleFault] at first
  obtain ⟨cpu', destroyed, -⟩ := bind_eq_ok.mp first
  obtain ⟨core, -, bad⟩ := bind_eq_ok.mp destroyed
  cases bad

theorem Ready.reads_of_ok {cpu : Cpu Vm} (ready : Ready c noffH s) (sane : Sane r)
    (read : UserProg.readByteTwice c ⟨r, s⟩ a = .ok (v, cpu)) : Reads c noffH s a v cpu := by
  by_cases inside : a.toNat / pageSize < s.numPages
  · obtain ⟨v', cpu', read', reads⟩ := ready.readByteTwice sane inside
    rw [read] at read'
    cases read'
    exact reads
  · exact absurd read (readByteTwice_outside inside _)

theorem Ready.write {size : Nat} {value : Word} (ready : Ready c noffH s)
    (isSize : size = 1 ∨ size = 2 ∨ size = 4)
    (wrote : s.writeMem c a size value = .ok (.value () s')) : Ready c noffH s' := by
  rcases (view_views s).write (a := a) ready.running isSize value with
    ⟨-, paged, -⟩ | ⟨-, m, -, ⟨-, paged⟩ | ⟨-, s₁, paged, stores, -⟩⟩
  · rw [wrote] at paged
    cases paged
  · rw [wrote] at paged
    cases paged
  · rw [wrote] at paged
    cases paged
    exact ready.store stores

theorem Lives.ready (lives : Lives c start s) (ready : Ready c noffH start) : Ready c noffH s := by
  induction lives with
  | start => exact ready
  | turn _ sane turned ih => exact ih.turn sane turned
  | write _ isSize wrote ih => exact ih.write isSize wrote
  | readByte _ sane read ih => exact ih.readByte sane read

end Characters

/-! ## The loop -/

section Loop

variable {c : Config} {noffH : NoffHeader} {s : Vm} {r : Registers} {a : Word} {m n b : Nat}
  {name name' : Option (List Byte)} {cpu cpu' : Cpu Vm} {mem : Nat → Byte}

theorem copyName_succ {v : Word} (read : readByteTwice c cpu a = .ok (v, cpu')) :
    copyName c (n + 1) cpu a =
      if v = 0 then .ok (some [], cpu')
      else copyName c n cpu' (a + 1) >>= fun x => .ok (x.1.map (byteOf v 0 :: ·), x.2) := by
  rw [copyName, read, ok_bind]
  rfl

/-- The loop changes nothing that was loaded. -/
theorem Ready.copyName_keeps (ready : Ready c noffH s) (sane : Sane r)
    (copied : copyName c n ⟨r, s⟩ a = .ok (name, cpu)) (hb : b / pageSize < s.numPages)
    (loaded : vbyte s b ≠ none) : vbyte cpu.memory b = vbyte s b := by
  induction n generalizing r s a name with
  | zero =>
      cases copied
      rfl
  | succ n ih =>
      obtain ⟨⟨v, cpu₁⟩, read, -⟩ := bind_eq_ok.mp copied
      have reads := ready.reads_of_ok sane read
      have first := reads.kept b hb loaded
      rw [copyName_succ read] at copied
      split at copied
      · cases copied
        exact first
      · obtain ⟨⟨name', cpu₂⟩, rest, last⟩ := bind_eq_ok.mp copied
        cases last
        rw [← first]
        exact ih reads.ready reads.sane rest (reads.numPages.symm ▸ hb) (first ▸ loaded)

/-- What is loaded after `m` characters is the same after more. -/
theorem Ready.copyName_prefix (ready : Ready c noffH s) (sane : Sane r) (le : m ≤ n)
    (early : copyName c m ⟨r, s⟩ a = .ok (name, cpu))
    (late : copyName c n ⟨r, s⟩ a = .ok (name', cpu')) (hb : b / pageSize < s.numPages)
    (loaded : vbyte cpu.memory b ≠ none) : vbyte cpu'.memory b = vbyte cpu.memory b := by
  induction m generalizing n r s a name name' with
  | zero =>
      cases early
      exact ready.copyName_keeps sane late hb loaded
  | succ m ih =>
      obtain ⟨n, rfl⟩ := Nat.exists_eq_succ_of_ne_zero (by omega : n ≠ 0)
      obtain ⟨⟨v, cpu₁⟩, read, -⟩ := bind_eq_ok.mp early
      have reads := ready.reads_of_ok sane read
      rw [copyName_succ read] at early late
      split at early
      next nul =>
        rw [if_pos nul] at late
        cases early
        cases late
        rfl
      next more =>
        rw [if_neg more] at late
        obtain ⟨⟨name₁, cpu₂⟩, early', last⟩ := bind_eq_ok.mp early
        obtain ⟨⟨name₂, cpu₃⟩, late', last'⟩ := bind_eq_ok.mp late
        cases last
        cases last'
        exact ih reads.ready reads.sane (by omega) early' late' (reads.numPages.symm ▸ hb)

/-- **The loop reads the string**, if `mem` has what is loaded on the way. -/
theorem Ready.copyName_eq (ready : Ready c noffH s) (sane : Sane r)
    (agrees : ∀ m ≤ n, ∀ name cpu, copyName c m ⟨r, s⟩ a = .ok (name, cpu) →
      ∀ b x, b / pageSize < s.numPages → vbyte cpu.memory b = some x → mem b = x)
    (within : Within mem s.numPages n a) :
    ∃ cpu, copyName c n ⟨r, s⟩ a = .ok (nameIn mem n a, cpu) := by
  induction n generalizing r s a with
  | zero => exact ⟨_, rfl⟩
  | succ n ih =>
      obtain ⟨inside, more⟩ := within
      obtain ⟨v, cpu₁, read, reads⟩ := ready.readByteTwice sane inside
      have char : mem a.toNat = byteOf v 0 := by
        refine agrees 1 (by omega) (if v = 0 then some [] else none) cpu₁ ?_ _ _ inside reads.here
        rw [copyName_succ read]
        split <;> rfl
      rw [copyName_succ read, nameIn, char]
      by_cases nul : v = 0
      · rw [if_pos nul, if_pos (reads.isNul.mp nul)]
        exact ⟨cpu₁, rfl⟩
      · have some_ : byteOf v 0 ≠ 0 := fun nul' => nul (reads.isNul.mpr nul')
        have within' := more (char ▸ some_)
        rw [← reads.numPages] at within'
        obtain ⟨cpu₂, rest⟩ := ih reads.ready reads.sane (fun m le name cpu copied b x hb held => by
          refine agrees (m + 1) (by omega) (name.map (byteOf v 0 :: ·)) cpu ?_ b x
            (reads.numPages ▸ hb) held
          rw [copyName_succ read, if_neg nul, copied]
          rfl) within'
        refine ⟨cpu₂, ?_⟩
        rw [if_neg nul, if_neg some_, rest]
        rfl

end Loop

/-! ## Programs -/

section Programs

variable {c : Config} {core core' : Core} {e : OpenFile} {h : Int} {space : AddrSpace}
  {noffH : NoffHeader} {p : Process} {rest : Nat → Byte}

theorem byteAt_eq {j b : Nat} {name : Option (List Byte)} {cpu : Cpu Vm}
    (copied : copyName c j p.cpu (p.registers 4) = .ok (name, cpu)) :
    byteAt c p j b = vbyte cpu.memory b := by
  rw [byteAt, copied]

/-- Whatever has been loaded on the way is the memory. -/
theorem memoryOf_eq (ready : Ready c noffH p.cpu.memory) (sane : Sane p.registers) {j b : Nat}
    {name : Option (List Byte)} {cpu : Cpu Vm} {x : Byte}
    (copied : copyName c j p.cpu (p.registers 4) = .ok (name, cpu))
    (hb : b / pageSize < p.space.numPages) (held : vbyte cpu.memory b = some x) :
    memoryOf c p rest b = x := by
  have there : ∃ j, byteAt c p j b ≠ none := by
    refine ⟨j, ?_⟩
    rw [byteAt_eq copied, held]
    exact Option.some_ne_none x
  have here : byteAt c p j b ≠ none := by
    rw [byteAt_eq copied, held]
    exact Option.some_ne_none x
  have first := Nat.find_spec there
  rw [memoryOf, dif_pos there]
  cases early : copyName c (Nat.find there) p.cpu (p.registers 4) with
  | error e =>
      rw [byteAt, early] at first
      exact absurd rfl first
  | ok result =>
      obtain ⟨name', cpu'⟩ := result
      rw [byteAt_eq early] at first ⊢
      have same := ready.copyName_prefix sane (Nat.find_min' there here) early copied hb first
      rw [← same, held]
      rfl

/-- **In a process that can be paged in `Exec` reads the string.** -/
theorem Ready.execReads (ready : Ready c noffH p.cpu.memory) (sane : Sane p.registers) :
    ExecReads c p (memoryOf c p rest) := by
  have copies : Within (memoryOf c p rest) p.space.numPages 1024 (p.registers 4) →
      ∃ cpu, copyName c 1024 p.cpu (p.registers 4)
        = .ok (nameIn (memoryOf c p rest) 1024 (p.registers 4), cpu) :=
    ready.copyName_eq sane fun m _ name cpu copied b x hb held =>
      memoryOf_eq ready sane copied hb held
  refine ⟨?_, ?_⟩
  · intro k short inside some_ last env
    have within : Within (memoryOf c p rest) p.space.numPages 1024 (p.registers 4) := by
      refine within_of fun i _ before => inside i ?_
      by_contra past
      exact before k (Nat.lt_of_not_le past) last
    obtain ⟨cpu, copied⟩ := copies within
    rw [nameIn_of_end short some_ last] at copied
    refine ⟨cpu, copied, ?_⟩
    rw [sysExec, copied]
    rfl
  · intro inside env
    obtain ⟨cpu, copied⟩ := copies (within_of fun i lt _ => (inside i lt).1)
    rw [nameIn_of_none fun i lt => (inside i lt).2] at copied
    refine ⟨(p.resume cpu).writeRegister 2 0, ?_, ?_, rfl⟩
    · rw [sysExec, copied]
      rfl
    · exact Function.update_self 2 0 cpu.registers

/-- A process about to call `Exec` with this argument, before anything is loaded. -/
def atArgument (core : Core) (space : AddrSpace) (a : Word) : Process where
  registers := Registers.set (fun _ => 0) 4 a
  kernel :=
    { core
      threads := fun _ => none
      nextThread := 0
      threadlist := ⟨fun _ => none, 1023, 0, none⟩
      readyList := []
      currentThread := 0 }
  space

theorem atArgument_sane (core : Core) (space : AddrSpace) (a : Word) :
    Sane (atArgument core space a).registers := by
  refine ⟨rfl, ?_⟩
  show (0 : Word).toNat < numGPRegs
  decide

/-- To read a byte of a page that is not there is to have the page brought in. -/
theorem served_of_readByteTwice {s : Vm} {r : Registers} {a : Word} {x : Word × Cpu Vm}
    (sane : Sane r) (inside : a.toNat / pageSize < s.numPages)
    (invalid : (s.pageTable (a.toNat / pageSize)).valid = false)
    (read : readByteTwice c ⟨r, s⟩ a = .ok x) : ∃ s', pageFault c s a = .ok s' := by
  have paged : s.readMem c a 1 = .ok (.exception .pageFaultException) :=
    readMem_fault ⟨.inl rfl, Nat.mod_one _⟩ inside invalid
  obtain ⟨y, first, -⟩ := bind_eq_ok.mp read
  simp only [readByte, paged, ok_bind, handleFault] at first
  obtain ⟨cpu, handled, -⟩ := bind_eq_ok.mp first
  obtain ⟨s', fault, -⟩ := bind_eq_ok.mp handled
  have bad : ((trapRegisters r a).set pcReg (trapRegisters r a pcReg + 4)) badVAddrReg = a :=
    (Function.update_of_ne (by decide) _ _).trans (trapRegisters_badVAddr a sane.target)
  rw [bad] at fault
  exact ⟨s', fault⟩

/-- A string that begins on a page that was never loaded is read only if the page is served. -/
theorem ExecReads.served {a : Word}
    (reads : ExecReads c (atArgument core space a)
      (memoryOf c (atArgument core space a) fun _ => 0))
    (inside : a.toNat / pageSize < space.numPages)
    (invalid : (space.pageTable (a.toNat / pageSize)).valid = false)
    (unloaded : vbyte ⟨core, space⟩ a.toNat = none) :
    ∃ s', pageFault c ⟨core, space⟩ a = .ok s' := by
  have first : (atArgument core space a).character 0 = a.toNat :=
    congrArg BitVec.toNat (BitVec.add_zero a)
  have copied : ∃ j x, copyName c (j + 1) (atArgument core space a).cpu a = .ok x := by
    by_cases there : ∃ j, byteAt c (atArgument core space a) j a.toNat ≠ none
    · obtain ⟨j, loaded⟩ := there
      cases copied : copyName c j (atArgument core space a).cpu a with
      | error e =>
          have away : byteAt c (atArgument core space a) j a.toNat = none := by
            show (match copyName c j (atArgument core space a).cpu a with
              | .ok (_, cpu) => vbyte cpu.memory a.toNat
              | .error _ => none) = none
            rw [copied]
          exact absurd away loaded
      | ok x =>
          cases j with
          | zero =>
              cases copied
              exact absurd unloaded loaded
          | succ j => exact ⟨j, x, copied⟩
    · have nul : memoryOf c (atArgument core space a) (fun _ => 0)
          ((atArgument core space a).character 0) = 0 := by
        rw [first]
        exact dif_neg there
      obtain ⟨cpu, copied, -⟩ := reads.name 0 (by decide) (fun i le => by
        obtain rfl := Nat.le_zero.mp le
        rw [first]
        exact inside) (fun i lt => absurd lt (Nat.not_lt_zero i)) nul quiet
      exact ⟨1023, _, copied⟩
  obtain ⟨j, x, copied⟩ := copied
  obtain ⟨y, read, -⟩ := bind_eq_ok.mp copied
  exact served_of_readByteTwice (atArgument_sane core space a) inside invalid read

/-- **`Exec` reads the exact string for the programs the kernel can page in, and for no others.** -/
theorem exec_reads_iff (init : initializeSpace core e h = .ok (space, core'))
    (header : readHeader core.fileSystem e = .ok noffH)
    (manages : core.memmanage.Manages c.numPhysPages)
    (alone : ∀ f < c.numPhysPages, core.memmanage.allocated f = false) (hand : HandInside space) :
    (∀ p rest, Lives c ⟨core', space⟩ p.cpu.memory → Sane p.registers →
      ExecReads c p (memoryOf c p rest)) ↔ Pageable noffH space := by
  obtain ⟨noffH', starts⟩ := initializeSpace_starts init
  obtain rfl : noffH' = noffH := Except.ok.inj (starts.header.symm.trans header)
  constructor
  · intro reads
    refine starts.pageable manages alone hand fun a aligned inside => ?_
    have invalid : (space.pageTable (a.toNat / pageSize)).valid = false := by
      rw [starts.pageTable]
      rfl
    have unloaded : vbyte ⟨core', space⟩ a.toNat = none := by
      rw [vbyte, starts.content_none, Option.bind_none]
    exact (reads _ _ .start (atArgument_sane core' space a)).served inside invalid unloaded
  · intro pageable p rest lives sane
    have apart := pageable.apart
    rw [starts.storedExecutable] at apart
    have ready : Ready c noffH' ⟨core', space⟩ :=
      ⟨starts.runningAlone manages alone apart, hand, pageable.limit, pageable.loadable⟩
    exact (lives.ready ready).execReads sane

end Programs

/-- The stack program with its nine pages. -/
theorem exec_reads_iff_stack : Pageable sampleHeader smallSpace ∧
    ∀ p rest, Lives fourFrames ⟨smallCore, smallSpace⟩ p.cpu.memory → Sane p.registers →
      ExecReads fourFrames p (memoryOf fourFrames p rest) :=
  ⟨small_pageable,
    (exec_reads_iff small_init small_header ⟨rfl, rfl⟩ sample_booted.free
      ⟨by decide, by decide⟩).mpr
      small_pageable⟩

/-- The stack program with an image of more than `2 ^ 24` pages.  The byte at `2 ^ 31` is on one of
them, and the string there is empty; in the fault on it the handler leaves the table. -/
theorem string_out_of_reach :
    initializeSpace (stackCore 0x7fffffff) ⟨0⟩ 0 = .ok (hugeSpace, hugeCore) ∧
    (stackCore 0x7fffffff).memmanage.Manages fourFrames.numPhysPages ∧
    (∀ f < fourFrames.numPhysPages, (stackCore 0x7fffffff).memmanage.allocated f = false) ∧
    HandInside hugeSpace ∧
    Lives fourFrames ⟨hugeCore, hugeSpace⟩ (atArgument hugeCore hugeSpace 0x80000000).cpu.memory ∧
    Sane (atArgument hugeCore hugeSpace 0x80000000).registers ∧
    ¬ ExecReads fourFrames (atArgument hugeCore hugeSpace 0x80000000)
      (memoryOf fourFrames (atArgument hugeCore hugeSpace 0x80000000) fun _ => 0) := by
  refine ⟨rfl, ⟨rfl, rfl⟩, sample_booted.free, ⟨by decide, by decide⟩, .start,
    atArgument_sane _ _ _, ?_⟩
  intro reads
  obtain ⟨s', fault⟩ := reads.served (by decide) rfl rfl
  exact pageFault_negative s' fault

end Nachos.UserProg
