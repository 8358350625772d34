/-
# Nachos.UserProg.Pageable -- the programs the kernel can page in

`Coherence` follows the accesses of a process whose pages can be brought in.  Which programs
are these?  The handler divides the faulting address as an `int`, the first load of a page
seeks in the executable, and `Create` empties the file the pages go to: `Pageable` is what
a program needs so that none of this goes wrong, and `Starts.pageable_of_served` says that
it needs all of it.

* `accesses_coherent_iff`: for these programs every run of accesses is coherent, and for no
  others.
-/
import Nachos.UserProg.Transparent
import Nachos.UserProg.Image

namespace Nachos.UserProg

open Nachos.Lib.Bytes
open Nachos.Machine
open Nachos.FileSys (OpenFile)

set_option autoImplicit false

/-- The kernel can bring in every page of the program: its address is an `int`, its first load is
at a position the executable has, and the executable is not the file its pages go to. -/
structure Pageable (noffH : NoffHeader) (space : AddrSpace) : Prop where
  limit : space.numPages ≤ pageLimit
  loadable : ∀ i < space.numPages, Loadable noffH (pageAddr i)
  apart : space.storedExecutable.file ≠ space.backing.file.file

section Programs

variable {c : Config} {core core' : Core} {e : OpenFile} {h : Int} {space : AddrSpace}
  {noffH : NoffHeader}

/-- A program of more than `2 ^ 24` pages has addresses that are negative as an `int`. -/
theorem demandpage_negative {s : Vm} :
    ∀ r, demandpage c s ((0x80000000#32).toInt.tdiv pageSize) ≠ .ok r := by
  intro r served
  obtain ⟨i, found, -⟩ := bind_eq_ok.mp served
  have negative : ¬ 0 ≤ (0x80000000#32).toInt.tdiv pageSize := by decide
  rw [index, if_neg fun inside => negative inside.1] at found
  cases found

theorem pageFault_negative {s : Vm} : ∀ s', pageFault c s 0x80000000#32 ≠ .ok s' := by
  intro s' fault
  obtain ⟨r, served, -⟩ := bind_eq_ok.mp fault
  exact demandpage_negative r served

/-- **What the kernel needs to bring every page in.** -/
theorem Starts.pageable_of_served (starts : Starts core e h noffH space core')
    (manages : core.memmanage.Manages c.numPhysPages)
    (alone : ∀ f < c.numPhysPages, core.memmanage.allocated f = false) (hand : HandInside space)
    (serves : ∀ a : Word, a.toNat % 4 = 0 → a.toNat / pageSize < space.numPages →
      ∃ r, demandpage c ⟨core', space⟩ (a.toInt.tdiv pageSize) = .ok r) : Pageable noffH space := by
  have invalid : ∀ i, (space.pageTable i).valid = false := by
    intro i
    rw [starts.pageTable]
    rfl
  have unloaded : ∀ i, ¬ 0 ≤ (space.pageTable i).physicalPage := by
    intro i
    rw [starts.pageTable]
    exact (by decide : ¬ (0 : Int) ≤ -1)
  have some_ : 0 < space.numPages := by
    obtain ⟨low, high⟩ := hand
    omega
  have apart : e.file ≠ space.backing.file.file := by
    intro same
    -- `Create` has emptied the executable, and its header is gone
    obtain ⟨r, served⟩ := serves 0#32 rfl some_
    obtain ⟨i, -, rest⟩ := bind_eq_ok.mp served
    have first : ¬ 0 ≤ ((⟨core', space⟩ : Vm).pageTable i).physicalPage := unloaded i
    rw [if_neg first] at rest
    obtain ⟨noffH', header, -⟩ := bind_eq_ok.mp rest
    have empty : core'.fileSystem.data space.storedExecutable.file = [] := by
      rw [starts.storedExecutable, same]
      exact starts.empty
    obtain ⟨bytes, read, short⟩ := bind_eq_ok.mp header
    have none : bytes = [] := by
      have here := FileSys.FileSystem.readAt_natCast core'.fileSystem space.storedExecutable
        noffHeaderSize 0
      rw [empty] at here
      exact Except.ok.inj (read.symm.trans here)
    subst none
    cases short
  have limit : space.numPages ≤ pageLimit := by
    by_contra above
    have inside : (0x80000000#32).toNat / pageSize < space.numPages := Nat.lt_of_not_le above
    obtain ⟨r, served⟩ := serves 0x80000000#32 rfl inside
    exact demandpage_negative r served
  have running := starts.runningAlone manages alone apart
  refine ⟨limit, fun i hi => ?_, by rw [starts.storedExecutable]; exact apart⟩
  have small : i * pageSize < 2 ^ 31 := by
    simp only [pageLimit, pageSize] at limit ⊢
    omega
  have address : (pageAddr i).toNat = i * pageSize := pageAddr_toNat (by omega)
  have page : (pageAddr i).toNat / pageSize = i := by
    rw [address]
    exact Nat.mul_div_cancel _ (by decide)
  obtain ⟨⟨b, s₁⟩, served⟩ :=
    serves (pageAddr i) (by rw [address]; simp only [pageSize]; omega) (by rw [page]; exact hi)
  rw [tdiv_page (by rw [address]; exact small), page] at served
  obtain ⟨rfl, -⟩ := demandpage_cases running.owns hi (invalid i) served
  obtain ⟨-, loaded | ⟨noffH', header, loadable⟩⟩ :=
    (demandpage_returns running.owns running.pages.numbered hi (invalid i)).mp ⟨s₁, served⟩
  · exact absurd loaded (unloaded i)
  · obtain rfl : noffH = noffH' := Except.ok.inj (running.header.symm.trans header)
    exact loadable

theorem Starts.pageable (starts : Starts core e h noffH space core')
    (manages : core.memmanage.Manages c.numPhysPages)
    (alone : ∀ f < c.numPhysPages, core.memmanage.allocated f = false) (hand : HandInside space)
    (serves : ∀ a : Word, a.toNat % 4 = 0 → a.toNat / pageSize < space.numPages →
      ∃ s', pageFault c ⟨core', space⟩ a = .ok s') : Pageable noffH space := by
  -- a fault is counted first, which is no part of the address space
  have counted : Starts core e h noffH space (counted ⟨core', space⟩).toCore :=
    { starts with }
  refine counted.pageable_of_served manages alone hand fun a aligned inside => ?_
  obtain ⟨s', fault⟩ := serves a aligned inside
  obtain ⟨r, served, -⟩ := bind_eq_ok.mp fault
  exact ⟨r, served⟩

/-! ## Accesses -/

/-- Aligned and in range. -/
structure Op.Inside (op : Op) (numPages : Nat) : Prop where
  aligned : Aligned op.addr op.size
  high : op.addr.toNat + op.size ≤ numPages * pageSize

theorem Op.Inside.inRange {op : Op} {n : Nat} (inside : op.Inside n) (limit : n ≤ pageLimit) :
    op.InRange n := by
  have high := inside.high
  have some_ : 0 < op.size := by
    obtain ⟨one | two | four, -⟩ := inside.aligned <;> omega
  have low : op.addr.toNat < 2 ^ 31 := by
    simp only [pageLimit, pageSize] at limit high
    omega
  have nonneg : op.addr.toInt = op.addr.toNat := by
    rw [BitVec.toInt_eq_toNat_cond, if_pos (by omega)]
  refine ⟨inside.aligned, ?_, ?_⟩
  · rw [nonneg]
    exact Int.natCast_nonneg _
  · rw [nonneg]
    exact_mod_cast high

/-- The accesses complete, and every read returns, byte for byte, what was last written
there or what the first load of the page put there. -/
def Coheres (c : Config) (s : Vm) (ops : List Op) : Prop :=
  ∃ s' log, accesses c (s, []) ops = .ok (s', log) ∧ log.filterMap Event.op = ops.reverse ∧
    Coherent log

/-- An access to a page that is not there has the page brought in. -/
theorem Coheres.served {s : Vm} {a : Word} (coheres : Coheres c s [.read a 4])
    (aligned : a.toNat % 4 = 0) (inside : a.toNat / pageSize < s.numPages)
    (invalid : (s.pageTable (a.toNat / pageSize)).valid = false) :
    ∃ r, demandpage c s (a.toInt.tdiv pageSize) = .ok r := by
  obtain ⟨s', log, ran, -⟩ := coheres
  obtain ⟨after, done, -⟩ := bind_eq_ok.mp ran
  have fault : attempt c s (.read a 4) = .ok (.exception .pageFaultException) := by
    rw [attempt, readMem_fault ⟨Or.inr (Or.inr rfl), aligned⟩ inside invalid]
    rfl
  rw [access, fault, ok_bind] at done
  obtain ⟨r, served, -⟩ := bind_eq_ok.mp done
  exact ⟨r, served⟩

/-- **Demand paging is coherent exactly for the programs the kernel can page in.**  A fresh
address space with the machine to itself, under either policy and wherever the hand starts:
every sequence of aligned accesses in range completes with each read returning what was last
written there, or what the first load of the page put there, if and only if its addresses
are `int`s, every page has a place in the executable, and the executable is not the file of
its own backing store. -/
theorem accesses_coherent_iff (init : initializeSpace core e h = .ok (space, core'))
    (header : readHeader core.fileSystem e = .ok noffH)
    (manages : core.memmanage.Manages c.numPhysPages)
    (alone : ∀ f < c.numPhysPages, core.memmanage.allocated f = false) (hand : HandInside space) :
    (∀ ops, (∀ op ∈ ops, op.Inside space.numPages) → Coheres c ⟨core', space⟩ ops) ↔
      Pageable noffH space := by
  obtain ⟨noffH', starts⟩ := initializeSpace_starts init
  obtain rfl : noffH' = noffH := Except.ok.inj (starts.header.symm.trans header)
  constructor
  · intro coherent
    refine starts.pageable_of_served manages alone hand fun a aligned inside => ?_
    have reads : Coheres c ⟨core', space⟩ [.read a 4] := by
      refine coherent _ fun op member => ?_
      obtain rfl := List.mem_singleton.mp member
      refine ⟨⟨Or.inr (Or.inr rfl), aligned⟩, ?_⟩
      have high : a.toNat / pageSize + 1 ≤ space.numPages := inside
      simp only [Op.addr, Op.size, pageSize] at high ⊢
      omega
    refine reads.served aligned inside ?_
    show (space.pageTable _).valid = false
    rw [starts.pageTable]
    rfl
  · intro pageable ops inside
    have apart := pageable.apart
    rw [starts.storedExecutable] at apart
    have session : Session c noffH' ⟨core', space⟩ [] := starts.session manages alone hand apart
    have inRange : ∀ op ∈ ops, op.InRange space.numPages := fun op member =>
      (inside op member).inRange pageable.limit
    obtain ⟨s, log, ran, logged, final⟩ | ⟨-, op, member, bad⟩ :=
      accesses_session ops session inRange
    · refine ⟨s, log, ran, ?_, final.coherent⟩
      rw [logged]
      exact List.append_nil _
    · exact absurd (pageable.loadable _ (inRange op member).page_lt.1) bad

end Programs

/-! ## The sample programs -/

theorem sample_pageable : Pageable sampleHeader sampleSpace := by
  refine ⟨by decide, ?_, by decide⟩
  show ∀ i < 9, Loadable sampleHeader (pageAddr i)
  decide

theorem small_pageable : Pageable sampleHeader smallSpace := by
  refine ⟨by decide, ?_, by decide⟩
  show ∀ i < 9, Loadable sampleHeader (pageAddr i)
  decide

/-- On a single frame each of these accesses to another page than the last one evicts it, and
the pages that were written to come back from the backing file. -/
def sampleOps : List Op :=
  [.write 4 2 0xbeef, .write 200 4 7, .read 4 4, .read 200 4, .read 1148 4, .read 4 2]

theorem accesses_coherent_iff_sample :
    Pageable sampleHeader sampleSpace ∧
      Coheres oneFrame ⟨sampleStarted 1, sampleSpace⟩ sampleOps := by
  refine ⟨sample_pageable, (accesses_coherent_iff (sample_init 1) sample_header ⟨rfl, rfl⟩
    ?_ ?_).mpr sample_pageable sampleOps ?_⟩
  · show ∀ f < 1, (sampleCore 1).memmanage.allocated f = false
    decide
  · exact ⟨by decide, by decide⟩
  · intro op member
    simp only [sampleOps, List.mem_cons, List.not_mem_nil, or_false] at member
    rcases member with rfl | rfl | rfl | rfl | rfl | rfl <;>
      exact ⟨⟨by decide, by decide⟩, by decide⟩

/-- The stack program with an image of more than `2 ^ 24` pages: a read at `2 ^ 31` is in
range and aligned, and its fault has a negative page number. -/
theorem read_out_of_reach :
    initializeSpace (stackCore 0x7fffffff) ⟨0⟩ 0 = .ok (hugeSpace, hugeCore) ∧
    (stackCore 0x7fffffff).memmanage.Manages fourFrames.numPhysPages ∧
    (∀ f < fourFrames.numPhysPages, (stackCore 0x7fffffff).memmanage.allocated f = false) ∧
    HandInside hugeSpace ∧ (Op.read 0x80000000 4).Inside hugeSpace.numPages ∧
    ¬ Coheres fourFrames ⟨hugeCore, hugeSpace⟩ [.read 0x80000000 4] := by
  refine ⟨rfl, ⟨rfl, rfl⟩, sample_booted.free, ⟨by decide, by decide⟩,
    ⟨⟨Or.inr (Or.inr rfl), by decide⟩, by decide⟩, fun coheres => ?_⟩
  obtain ⟨r, served⟩ := coheres.served (by decide) (by decide) rfl
  exact demandpage_negative r served

end Nachos.UserProg
