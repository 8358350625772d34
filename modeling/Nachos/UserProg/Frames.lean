/-
# Nachos.UserProg.Frames -- who owns which frame

`Owns c others s` is the frame invariant as one process sees it: its valid entries
name frames of the machine, no two the same and none that belongs to `others`, and
the memory manager has allocated exactly the frames of `others` and those its own
valid entries name.  Every routine of paging keeps it, with `others` fixed: the
process never touches a frame it does not own.

`Evicts s v s'` is all that `ClearPage` does (page `v` goes out, `use` bits may be
cleared, nothing else moves).  `Secures c others s i g s'` is the state `demandpage`
reaches once entry `i` holds a frame `g` of its own; the two ways there are a free
frame (`secures_free`) and one eviction (`secures_evicted`), and `secure_cases` says
there is no third: with no free frame and no victim the handler does not return.
-/
import Nachos.UserProg.ClearPage

namespace Nachos.UserProg

open Nachos.Lib.Bytes
open Nachos.Machine
open Nachos.Lib.Cyclic

set_option autoImplicit false

/-- Entry `i` is valid and names frame `f`. -/
def Maps (space : AddrSpace) (i f : Nat) : Prop :=
  i < space.numPages ∧ (space.pageTable i).valid = true ∧ (space.pageTable i).physicalPage = f

/-- The frame invariant of one process, the frames of the other processes given. -/
structure Owns (c : Config) (others : Nat → Prop) (s : Vm) : Prop where
  manages : s.memmanage.Manages c.numPhysPages
  bounded : ∀ i < s.numPages, (s.pageTable i).valid = true →
    ∃ f < c.numPhysPages, (s.pageTable i).physicalPage = f
  unique : ∀ i j f, Maps s.toAddrSpace i f → Maps s.toAddrSpace j f → i = j
  apart : ∀ i f, Maps s.toAddrSpace i f → ¬ others f
  allocated : ∀ f < c.numPhysPages,
    s.memmanage.allocated f = true ↔ others f ∨ ∃ i, Maps s.toAddrSpace i f

/-- Some frame of the machine is free. -/
def FrameFree (c : Config) (core : Core) : Prop :=
  ∃ f < c.numPhysPages, core.memmanage.allocated f = false

/-- The process has a resident page. -/
def HasResident (space : AddrSpace) : Prop :=
  ∃ i < space.numPages, resident (space.pageTable i) = true

/-- The hand of the clock is in the table. -/
def HandInside (space : AddrSpace) : Prop :=
  0 ≤ space.clockHand ∧ space.clockHand < space.numPages

section Frame

variable {c : Config} {others : Nat → Prop} {s s' : Vm} {i v f g : Nat}

theorem Owns.resident_of_valid (owns : Owns c others s) (hi : i < s.numPages)
    (valid : (s.pageTable i).valid = true) : resident (s.pageTable i) = true := by
  obtain ⟨f, -, phys⟩ := owns.bounded i hi valid
  simp [resident, valid, phys]

theorem maps_of_valid (owns : Owns c others s) (hi : i < s.numPages)
    (valid : (s.pageTable i).valid = true) :
    ∃ f < c.numPhysPages, Maps s.toAddrSpace i f := by
  obtain ⟨f, lt, phys⟩ := owns.bounded i hi valid
  exact ⟨f, lt, hi, valid, phys⟩

theorem Maps.lt (owns : Owns c others s) (maps : Maps s.toAddrSpace i f) :
    f < c.numPhysPages := by
  obtain ⟨hi, valid, phys⟩ := maps
  obtain ⟨f', lt, phys'⟩ := owns.bounded i hi valid
  have : (f : Int) = f' := phys.symm.trans phys'
  omega

/-- `Owns` looks only at the allocator and at `valid` and `physicalPage`. -/
theorem Owns.congr (owns : Owns c others s) (mm : s'.memmanage = s.memmanage)
    (pages : s'.numPages = s.numPages)
    (valid : ∀ j < s.numPages, (s'.pageTable j).valid = (s.pageTable j).valid)
    (phys : ∀ j < s.numPages, (s.pageTable j).valid = true →
      (s'.pageTable j).physicalPage = (s.pageTable j).physicalPage) : Owns c others s' := by
  have maps : ∀ j f, Maps s'.toAddrSpace j f ↔ Maps s.toAddrSpace j f := by
    intro j f
    constructor
    · rintro ⟨hj, ok, at_⟩
      rw [pages] at hj
      rw [valid j hj] at ok
      exact ⟨hj, ok, (phys j hj ok).symm.trans at_⟩
    · rintro ⟨hj, ok, at_⟩
      exact ⟨pages ▸ hj, (valid j hj).trans ok, (phys j hj ok).trans at_⟩
  refine ⟨mm ▸ owns.manages, fun j hj ok => ?_, fun j k f m₁ m₂ => ?_, fun j f m => ?_,
    fun f lt => ?_⟩
  · rw [pages] at hj
    rw [valid j hj] at ok
    obtain ⟨f, lt, at_⟩ := owns.bounded j hj ok
    exact ⟨f, lt, (phys j hj ok).trans at_⟩
  · exact owns.unique j k f ((maps j f).mp m₁) ((maps k f).mp m₂)
  · exact owns.apart j f ((maps j f).mp m)
  · rw [mm, owns.allocated f lt]
    simp only [maps]

end Frame

/-! ## Eviction -/

/-- What `ClearPage` does when it exits: page `v` is paged out. -/
structure Evicts (s : Vm) (v : Nat) (s' : Vm) : Prop where
  page : v < s.numPages
  isResident : resident (s.pageTable v) = true
  mainMemory : s'.mainMemory = s.mainMemory
  numPages : s'.numPages = s.numPages
  backing : s'.backing = s.backing
  storedExecutable : s'.storedExecutable = s.storedExecutable
  clockHand : s'.clockHand = v
  table : ∀ j, ∃ u, s'.pageTable j =
    { s.pageTable j with use := u, valid := (s.pageTable j).valid && !decide (j = v) }
  fileSystem :
    if (s.pageTable v).dirty then
      s.fileSystem.writeAt s.backing.file
        (block s.mainMemory (frameAddr (s.pageTable v).physicalPage) pageSize)
        (pageOffset (s.pageTable v).virtualPage) = .ok s'.fileSystem
    else s'.fileSystem = s.fileSystem
  memmanage : s.memmanage.freePage (s.pageTable v).physicalPage = .ok s'.memmanage

section Eviction

variable {c : Config} {others : Nat → Prop} {s s' : Vm} {v h : Nat}

theorem writeBack_eq_ok {pte : TranslationEntry} (wrote : writeBack s pte = .ok s') :
    ∃ fs st, s' = { s with fileSystem := fs, stats := st } ∧
      if pte.dirty then
        s.fileSystem.writeAt s.backing.file
          (block s.mainMemory (frameAddr pte.physicalPage) pageSize)
          (pageOffset pte.virtualPage) = .ok fs
      else fs = s.fileSystem := by
  unfold writeBack at wrote
  cases dirty : pte.dirty with
  | true =>
      rw [dirty, if_pos rfl] at wrote
      obtain ⟨fs, write, rest⟩ := bind_eq_ok.mp wrote
      cases rest
      exact ⟨fs, _, rfl, by rw [if_pos rfl]; exact write⟩
  | false =>
      rw [dirty, if_neg Bool.false_ne_true] at wrote
      cases wrote
      exact ⟨s.fileSystem, s.stats, rfl, by rw [if_neg Bool.false_ne_true]⟩

theorem pageOut_evicts {k : Nat} (hv : v < s.numPages) (hslot : slot h s.numPages k = v)
    (res : resident (s.pageTable v) = true) (out : pageOut (swept s h k) v = .ok s') :
    Evicts s v s' := by
  have entry := swept_pageTable (s := s) (h := h) (k := k) v
  obtain ⟨s₁, wrote, freed⟩ := bind_eq_ok.mp out
  obtain ⟨mm, free, last⟩ := bind_eq_ok.mp freed
  obtain ⟨fs, st, rfl, written⟩ := writeBack_eq_ok wrote
  cases last
  rw [entry] at written free
  refine ⟨hv, res, rfl, rfl, rfl, rfl, ?_, fun j => ?_, written, free⟩
  · show (slot h s.numPages k : Int) = v
    rw [hslot]
  · refine ⟨(s.pageTable j).use && !decide (Passed h s.numPages k j), ?_⟩
    by_cases here : j = v
    · subst here
      simp [Vm.setEntry, entry]
    · simp [Vm.setEntry, swept_pageTable, here]

/-- When `ClearPage` returns it has evicted one resident page. -/
theorem clearPage_evicts (hand : HandInside s.toAddrSpace) (some_ : HasResident s.toAddrSpace)
    (cleared : clearPage c s = .ok s') : ∃ v, Evicts s v s' := by
  obtain ⟨h, hand⟩ : ∃ h : Nat, s.clockHand = h ∧ h < s.numPages := by
    obtain ⟨low, high⟩ := hand
    exact ⟨s.clockHand.toNat, by omega, by omega⟩
  obtain ⟨k, -, hit, -, run⟩ := clearPage_eq (c := c) hand.1 hand.2 some_
  rw [run] at cleared
  exact ⟨_, pageOut_evicts (slot_lt (by omega)) rfl (hit_resident hit) cleared⟩

/-- `ClearPage` returns only with the hand in the table and a page to find. -/
theorem clearPage_returned (cleared : clearPage c s = .ok s') :
    HandInside s.toAddrSpace ∧ HasResident s.toAddrSpace := by
  have hand : HandInside s.toAddrSpace := by
    by_contra outside
    rw [clearPage_outOfBounds outside] at cleared
    cases cleared
  refine ⟨hand, ?_⟩
  by_contra none_
  have empty : ∀ j < s.numPages, resident (s.pageTable j) = false := by
    intro j hj
    by_contra res
    exact none_ ⟨j, hj, by simpa using res⟩
  obtain ⟨nonneg, inside⟩ := hand
  rw [clearPage_loops (h := s.clockHand.toNat) (Int.toNat_of_nonneg nonneg).symm (by omega) empty]
    at cleared
  cases cleared

/-- No write-back can fail: a resident page is clean or its byte offset is not
negative. -/
def WritableBack (space : AddrSpace) : Prop :=
  ∀ j < space.numPages, resident (space.pageTable j) = true → (space.pageTable j).dirty = true →
    0 ≤ pageOffset (space.pageTable j).virtualPage

theorem pageOut_ok {k n : Nat} (res : resident (s.pageTable v) = true)
    (manages : s.memmanage.Manages n) (bound : (s.pageTable v).physicalPage < n)
    (writable : (s.pageTable v).dirty = true → 0 ≤ pageOffset (s.pageTable v).virtualPage) :
    ∃ s', pageOut (swept s h k) v = .ok s' := by
  have entry := swept_pageTable (s := s) (h := h) (k := k) v
  simp only [resident, Bool.and_eq_true, decide_eq_true_eq] at res
  obtain ⟨mm, freed, -⟩ := MemoryManager.freePage_natCast (f := (s.pageTable v).physicalPage.toNat)
    manages (by omega)
  rw [Int.toNat_of_nonneg res.2] at freed
  unfold pageOut writeBack
  rw [entry]
  by_cases dirty : (s.pageTable v).dirty = true
  · simp only [dirty, if_true]
    obtain ⟨pos, at_⟩ : ∃ pos : Nat, pageOffset (s.pageTable v).virtualPage = pos :=
      ⟨_, (Int.toNat_of_nonneg (writable dirty)).symm⟩
    simp only [at_, FileSys.FileSystem.writeAt_natCast, ok_bind, pure_eq_ok]
    simp only [Vm.setEntry, swept_toCore, freed, ok_bind]
    exact ⟨_, rfl⟩
  · simp only [dirty, Bool.false_eq_true, if_false, pure_eq_ok, ok_bind]
    simp only [Vm.setEntry, swept_toCore, freed, ok_bind]
    exact ⟨_, rfl⟩

/-- **`ClearPage` returns** when the hand is in the table, the process has a
resident page and its write-backs succeed. -/
theorem clearPage_ok (owns : Owns c others s) (hand : HandInside s.toAddrSpace)
    (some_ : HasResident s.toAddrSpace) (writable : WritableBack s.toAddrSpace) :
    ∃ s', clearPage c s = .ok s' := by
  obtain ⟨h, hand⟩ : ∃ h : Nat, s.clockHand = h ∧ h < s.numPages := by
    obtain ⟨low, high⟩ := hand
    exact ⟨s.clockHand.toNat, by omega, by omega⟩
  obtain ⟨k, -, hit, -, run⟩ := clearPage_eq (c := c) hand.1 hand.2 some_
  have hv : slot h s.numPages k < s.numPages := slot_lt (by omega)
  have res := hit_resident hit
  have valid : (s.pageTable (slot h s.numPages k)).valid = true := by
    simp only [resident, Bool.and_eq_true] at res
    exact res.1
  obtain ⟨f, lt, phys⟩ := owns.bounded _ hv valid
  rw [run]
  exact pageOut_ok res owns.manages (by rw [phys]; exact_mod_cast lt) (writable _ hv res)

/-- An eviction gives the victim's frame back. -/
theorem Evicts.frees (ev : Evicts s v s') (owns : Owns c others s) :
    ∃ g < c.numPhysPages, Maps s.toAddrSpace v g ∧ s'.memmanage.Manages c.numPhysPages ∧
      ∀ f, s'.memmanage.allocated f = (!decide (f = g) && s.memmanage.allocated f) := by
  have res := ev.isResident
  simp only [resident, Bool.and_eq_true, decide_eq_true_eq] at res
  obtain ⟨g, glt, phys⟩ := owns.bounded v ev.page res.1
  have freed := ev.memmanage
  rw [phys] at freed
  obtain ⟨mm, freed', manages, sets⟩ := MemoryManager.freePage_natCast owns.manages glt
  rw [freed] at freed'
  cases freed'
  exact ⟨g, glt, ⟨ev.page, res.1, phys⟩, manages, sets⟩

/-- It keeps the invariant. -/
theorem Evicts.owns (ev : Evicts s v s') (owns : Owns c others s) : Owns c others s' := by
  obtain ⟨g, glt, victim, manages, sets⟩ := ev.frees owns
  have maps : ∀ j f, Maps s'.toAddrSpace j f ↔ Maps s.toAddrSpace j f ∧ j ≠ v := by
    intro j f
    obtain ⟨u, entry⟩ := ev.table j
    simp only [Maps, ev.numPages, entry, Bool.and_eq_true, Bool.not_eq_true',
      decide_eq_false_iff_not]
    tauto
  refine ⟨manages, fun j hj ok => ?_, fun j k f m₁ m₂ => ?_, fun j f m => ?_, fun f lt => ?_⟩
  · obtain ⟨u, entry⟩ := ev.table j
    rw [entry] at ok ⊢
    simp only [Bool.and_eq_true] at ok
    exact owns.bounded j (ev.numPages ▸ hj) ok.1
  · exact owns.unique j k f ((maps j f).mp m₁).1 ((maps k f).mp m₂).1
  · exact owns.apart j f ((maps j f).mp m).1
  · rw [sets f]
    simp only [Bool.and_eq_true, Bool.not_eq_true', decide_eq_false_iff_not,
      owns.allocated f lt, maps]
    constructor
    · rintro ⟨ne, o | ⟨j, m⟩⟩
      · exact Or.inl o
      · refine Or.inr ⟨j, m, ?_⟩
        rintro rfl
        have : (g : Int) = f := victim.2.2.symm.trans m.2.2
        omega
    · rintro (o | ⟨j, m, ne⟩)
      · exact ⟨fun e => owns.apart v g victim (e ▸ o), Or.inl o⟩
      · refine ⟨?_, Or.inr ⟨j, m⟩⟩
        rintro rfl
        exact ne (owns.unique j v f m victim)

/-- After an eviction the victim's frame is free. -/
theorem Evicts.frameFree (ev : Evicts s v s') (owns : Owns c others s) :
    FrameFree c s'.toCore := by
  obtain ⟨g, glt, -, -, sets⟩ := ev.frees owns
  refine ⟨g, glt, ?_⟩
  rw [sets g]
  simp

end Eviction

/-! ## Securing a frame -/

/-- Entry `i` has come to hold frame `g` of its own, at the price of `victim`. -/
structure Secures (c : Config) (others : Nat → Prop) (s : Vm) (i g : Nat) (victim : Option Nat)
    (s' : Vm) : Prop where
  frame : g < c.numPhysPages
  fresh : ¬ others g
  owns : Owns c (fun f => others f ∨ f = g) s'
  mainMemory : s'.mainMemory = s.mainMemory
  numPages : s'.numPages = s.numPages
  backing : s'.backing = s.backing
  storedExecutable : s'.storedExecutable = s.storedExecutable
  entry : ∃ u, s'.pageTable i = { s.pageTable i with physicalPage := g, use := u }
  table : ∀ j, j ≠ i → ∃ u, s'.pageTable j =
    { s.pageTable j with
      use := u, valid := (s.pageTable j).valid && !decide (victim = some j) }
  isResident : ∀ v, victim = some v →
    v < s.numPages ∧ v ≠ i ∧ resident (s.pageTable v) = true
  fileSystem : ∀ v, victim = some v →
    if (s.pageTable v).dirty then
      s.fileSystem.writeAt s.backing.file
        (block s.mainMemory (frameAddr (s.pageTable v).physicalPage) pageSize)
        (pageOffset (s.pageTable v).virtualPage) = .ok s'.fileSystem
    else s'.fileSystem = s.fileSystem
  noVictim : victim = none → s'.fileSystem = s.fileSystem ∧ s'.clockHand = s.clockHand
  hand : ∀ v, victim = some v → s'.clockHand = v

section Securing

variable {c : Config} {others : Nat → Prop} {s s' : Vm} {i : Nat}

/-- The state in which the first try has failed. -/
def unbacked (s : Vm) (i : Nat) : Vm :=
  s.setEntry i { s.pageTable i with physicalPage := -1 }

theorem setEntry_self (s : Vm) (i : Nat) (e : TranslationEntry) :
    (s.setEntry i e).pageTable i = e := by
  simp [Vm.setEntry]

theorem setEntry_ne (s : Vm) {i j : Nat} (e : TranslationEntry) (ne : j ≠ i) :
    (s.setEntry i e).pageTable j = s.pageTable j := by
  simp [Vm.setEntry, ne]

/-- Nothing in the table is new but the number of one frame. -/
theorem unbacked_entry (s : Vm) (i j : Nat) : (unbacked s i).pageTable j =
    { s.pageTable j with physicalPage := if j = i then -1 else (s.pageTable j).physicalPage } := by
  by_cases here : j = i
  · rw [here, unbacked, setEntry_self, if_pos rfl]
  · rw [unbacked, setEntry_ne _ _ here, if_neg here]

theorem unbacked_physicalPage (s : Vm) (i : Nat) :
    ((unbacked s i).pageTable i).physicalPage = -1 := by
  rw [unbacked_entry, if_pos rfl]

theorem owns_unbacked (owns : Owns c others s) (invalid : (s.pageTable i).valid = false) :
    Owns c others (unbacked s i) := by
  refine owns.congr rfl rfl (fun j _ => ?_) (fun j _ ok => ?_)
  · rw [unbacked_entry]
  · have here : j ≠ i := fun e => by rw [e, invalid] at ok; cases ok
    rw [unbacked, setEntry_ne _ _ here]

theorem allocInto_full (owns : Owns c others s) (full : ¬ FrameFree c s.toCore) :
    allocInto s i = .ok (unbacked s i) := by
  have all : ∀ f < c.numPhysPages, s.memmanage.allocated f = true := by
    intro f lt
    by_contra free
    exact full ⟨f, lt, by simpa using free⟩
  rw [allocInto, MemoryManager.allocPage_full owns.manages all]
  rfl

/-- Taking a free frame `g` for the invalid entry `i`. -/
theorem allocInto_free (owns : Owns c others s) (invalid : (s.pageTable i).valid = false)
    (free : FrameFree c s.toCore) :
    ∃ (g : Nat) (s' : Vm), allocInto s i = .ok s' ∧ Secures c others s i g none s' := by
  obtain ⟨f, lt, unset⟩ := free
  obtain ⟨g, mm, alloc, glt, gfree, -, manages, sets⟩ :=
    MemoryManager.allocPage_free owns.manages lt unset
  refine ⟨g, { s with memmanage := mm }.setEntry i { s.pageTable i with physicalPage := g }, ?_, ?_⟩
  · rw [allocInto, alloc]
    rfl
  have own_free : ¬ (others g ∨ ∃ j, Maps s.toAddrSpace j g) := by
    rw [← owns.allocated g glt, gfree]
    exact Bool.false_ne_true
  have maps : ∀ j f, Maps ({ s with memmanage := mm }.setEntry i
      { s.pageTable i with physicalPage := g }).toAddrSpace j f ↔ Maps s.toAddrSpace j f := by
    intro j f
    by_cases here : j = i
    · subst here
      simp [Maps, Vm.setEntry, invalid]
    · simp [Maps, Vm.setEntry, here]
  refine
    { frame := glt
      fresh := fun o => own_free (Or.inl o)
      owns := ⟨manages, fun j hj ok => ?_, fun j k f m₁ m₂ => ?_, fun j f m => ?_, fun f lt => ?_⟩
      mainMemory := rfl, numPages := rfl, backing := rfl, storedExecutable := rfl
      entry := ⟨(s.pageTable i).use, by rw [setEntry_self]⟩
      table := fun j ne => ⟨(s.pageTable j).use, by rw [setEntry_ne _ _ ne]; simp⟩
      isResident := fun v h => by cases h
      fileSystem := fun v h => by cases h
      noVictim := fun _ => ⟨rfl, rfl⟩
      hand := fun v h => by cases h }
  · by_cases here : j = i
    · subst here
      rw [setEntry_self] at ok
      rw [invalid] at ok
      cases ok
    · rw [setEntry_ne _ _ here] at ok ⊢
      exact owns.bounded j hj ok
  · exact owns.unique j k f ((maps j f).mp m₁) ((maps k f).mp m₂)
  · have m' := (maps j f).mp m
    rintro (o | rfl)
    · exact owns.apart j f m' o
    · exact own_free (Or.inr ⟨j, m'⟩)
  · show mm.allocated f = true ↔ _
    rw [sets f]
    simp only [Bool.or_eq_true, decide_eq_true_eq, owns.allocated f lt, maps]
    tauto

/-- Securing a frame after an eviction. -/
theorem retryAlloc_evicted {v : Nat} {s₁ : Vm} (owns : Owns c others s)
    (invalid : (s.pageTable i).valid = false) (cleared : clearPage c (unbacked s i) = .ok s₁)
    (ev : Evicts (unbacked s i) v s₁) :
    ∃ (g : Nat) (s' : Vm), retryAlloc c (unbacked s i) i = .ok s' ∧
      Secures c others s i g (some v) s' := by
  have own₀ := owns_unbacked (i := i) owns invalid
  have own₁ := ev.owns own₀
  have vi : v ≠ i := by
    rintro rfl
    have res := ev.isResident
    rw [unbacked, setEntry_self] at res
    simp [resident, invalid] at res
  have invalid₁ : (s₁.pageTable i).valid = false := by
    obtain ⟨u, entry⟩ := ev.table i
    rw [entry, unbacked, setEntry_self]
    simp [invalid]
  obtain ⟨g, s', alloc, sec⟩ := allocInto_free own₁ invalid₁ (ev.frameFree own₀)
  refine ⟨g, s', by rw [retryAlloc, cleared, ok_bind, alloc], ?_⟩
  have victim : (unbacked s i).pageTable v = s.pageTable v := setEntry_ne _ _ vi
  obtain ⟨fs, unmoved⟩ := sec.noVictim rfl
  refine
    { frame := sec.frame, fresh := sec.fresh, owns := sec.owns
      mainMemory := sec.mainMemory.trans ev.mainMemory
      numPages := sec.numPages.trans ev.numPages
      backing := sec.backing.trans ev.backing
      storedExecutable := sec.storedExecutable.trans ev.storedExecutable
      entry := ?_, table := fun j ne => ?_, isResident := fun w h => ?_, fileSystem := fun w h => ?_
      noVictim := fun h => by cases h
      hand := fun w h => ?_ }
  · obtain ⟨u, entry⟩ := sec.entry
    obtain ⟨u₁, entry₁⟩ := ev.table i
    exact ⟨u, by rw [entry, entry₁, unbacked, setEntry_self]; simp [invalid]⟩
  · obtain ⟨u, entry⟩ := sec.table j ne
    obtain ⟨u₁, entry₁⟩ := ev.table j
    refine ⟨u, ?_⟩
    rw [entry, entry₁, unbacked, setEntry_ne _ _ ne]
    simp [eq_comm]
  · cases h
    exact ⟨ev.page, vi, victim ▸ ev.isResident⟩
  · cases h
    have files := ev.fileSystem
    rw [victim] at files
    rw [fs]
    exact files
  · cases h
    exact unmoved.trans ev.clockHand

/-- **How the handler comes by a frame.**  Both retry sequences of `demandpage` end
the same way: a free frame is taken; or one page is evicted, and the next try
succeeds; or `ClearPage` does not return and neither does the handler. -/
theorem secure_cases (owns : Owns c others s) (invalid : (s.pageTable i).valid = false) :
    (∃ (g : Nat) (victim : Option Nat) (s' : Vm), Secures c others s i g victim s' ∧
      (victim = none ∧ FrameFree c s.toCore ∨
        ∃ v s₁, victim = some v ∧ ¬ FrameFree c s.toCore ∧
          clearPage c (unbacked s i) = .ok s₁ ∧ Evicts (unbacked s i) v s₁ ∧
          allocInto s₁ i = .ok s') ∧
      secureForLoad c s i = .ok s' ∧ secureForReload c s i = .ok s') ∨
    (∃ e, ¬ FrameFree c s.toCore ∧ clearPage c (unbacked s i) = .error e ∧
      secureForLoad c s i = .error e ∧ secureForReload c s i = .error e) := by
  by_cases free : FrameFree c s.toCore
  · obtain ⟨g, s', alloc, sec⟩ := allocInto_free owns invalid free
    have phys : 0 ≤ (s'.pageTable i).physicalPage := by
      obtain ⟨u, entry⟩ := sec.entry
      rw [entry]
      exact Int.natCast_nonneg g
    refine Or.inl ⟨g, none, s', sec, Or.inl ⟨rfl, free⟩, ?_, ?_⟩
    · rw [secureForLoad, alloc, ok_bind, if_pos phys]
      rfl
    · rw [secureForReload, alloc, ok_bind, if_pos phys]
      rfl
  · have alloc := allocInto_full (i := i) owns free
    have low : ¬ 0 ≤ ((unbacked s i).pageTable i).physicalPage := by
      rw [unbacked_physicalPage]
      decide
    have load : secureForLoad c s i = retryAlloc c (unbacked s i) i := by
      rw [secureForLoad, alloc, ok_bind, if_neg low]
    cases cleared : clearPage c (unbacked s i) with
    | error e =>
        have failed : retryAlloc c (unbacked s i) i = .error e := by
          rw [retryAlloc, cleared, error_bind]
        refine Or.inr ⟨e, free, rfl, load.trans failed, ?_⟩
        rw [secureForReload, alloc, ok_bind, if_neg low, failed, error_bind]
    | ok s₁ =>
        obtain ⟨hand, some_⟩ := clearPage_returned cleared
        obtain ⟨v, ev⟩ := clearPage_evicts hand some_ cleared
        obtain ⟨g, s', retried, sec⟩ := retryAlloc_evicted owns invalid cleared ev
        have phys : 0 ≤ (s'.pageTable i).physicalPage := by
          obtain ⟨u, entry⟩ := sec.entry
          rw [entry]
          exact Int.natCast_nonneg g
        have second : allocInto s₁ i = .ok s' := by
          rw [retryAlloc, cleared, ok_bind] at retried
          exact retried
        refine Or.inl ⟨g, some v, s', sec, Or.inr ⟨v, s₁, rfl, free, rfl, ev, second⟩,
          load.trans retried, ?_⟩
        rw [secureForReload, alloc, ok_bind, if_neg low, retried, ok_bind, if_pos phys]
        rfl

end Securing

/-! ## The page-fault handler -/

/-- Entry `i` becomes valid, its frame overwritten with `bytes` from the start. -/
structure Fills (s : Vm) (i : Nat) (bytes : List Byte) (dirty : Bool) (s' : Vm) : Prop where
  mainMemory : s'.mainMemory = splice s.mainMemory (frameAddr (s.pageTable i).physicalPage) bytes
  memmanage : s'.memmanage = s.memmanage
  fileSystem : s'.fileSystem = s.fileSystem
  numPages : s'.numPages = s.numPages
  clockHand : s'.clockHand = s.clockHand
  backing : s'.backing = s.backing
  storedExecutable : s'.storedExecutable = s.storedExecutable
  entry : s'.pageTable i = { s.pageTable i with valid := true, dirty := dirty }
  table : ∀ j, j ≠ i → s'.pageTable j = s.pageTable j

/-- The bytes the first load of the page at `pageAddr` reads: a page of the code or
data segment as far as the file goes, or zeros. -/
def pageImage (fs : FileSys.FileSystem) (executable : FileSys.OpenFile) (noffH : NoffHeader)
    (pageAddr : Word) : Except Stop (List Byte) :=
  if noffH.code.holds pageAddr then fs.readAt executable pageSize (noffH.code.position pageAddr)
  else if noffH.initData.holds pageAddr then
    fs.readAt executable pageSize (noffH.initData.position pageAddr)
  else return List.replicate pageSize 0

/-- The address `page_num * PageSize`, as an `int`. -/
def pageAddr (i : Nat) : Word := BitVec.ofInt 32 (i * pageSize)

section Handler

variable {c : Config} {others : Nat → Prop} {s s' : Vm} {i : Nat}

theorem setEntry_same (s : Vm) (i : Nat) : s.setEntry i (s.pageTable i) = s := by
  unfold Vm.setEntry
  rw [Function.update_eq_self]

theorem loadSegment_eq_ok {seg : Segment} {pa : Word} (loaded : loadSegment s i seg pa = .ok s') :
    ∃ bytes st, s.fileSystem.readAt s.storedExecutable pageSize (seg.position pa) = .ok bytes ∧
      s' = { s with
        mainMemory := splice s.mainMemory (frameAddr (s.pageTable i).physicalPage) bytes
        stats := st } := by
  obtain ⟨bytes, read, rest⟩ := bind_eq_ok.mp loaded
  cases rest
  exact ⟨bytes, _, read, rfl⟩

theorem fillPage_eq_ok {noffH : NoffHeader} {pa : Word} (filled : fillPage s i noffH pa = .ok s') :
    ∃ bytes st, pageImage s.fileSystem s.storedExecutable noffH pa = .ok bytes ∧
      s' = { s with
        mainMemory := splice s.mainMemory (frameAddr (s.pageTable i).physicalPage) bytes
        stats := st } := by
  unfold fillPage at filled
  unfold pageImage
  split at filled
  · rename_i inCode
    rw [if_pos inCode]
    exact loadSegment_eq_ok filled
  · rename_i notCode
    rw [if_neg notCode]
    split at filled
    · rename_i inData
      rw [if_pos inData]
      exact loadSegment_eq_ok filled
    · rename_i notData
      rw [if_neg notData]
      cases filled
      exact ⟨_, s.stats, rfl, rfl⟩

theorem fillPage_ok {noffH : NoffHeader} {pa : Word} {bytes : List Byte}
    (image : pageImage s.fileSystem s.storedExecutable noffH pa = .ok bytes) :
    ∃ s', fillPage s i noffH pa = .ok s' := by
  unfold pageImage at image
  unfold fillPage loadSegment
  split
  · rename_i inCode
    rw [if_pos inCode] at image
    rw [image]
    exact ⟨_, rfl⟩
  · rename_i notCode
    rw [if_neg notCode] at image
    split
    · rename_i inData
      rw [if_pos inData] at image
      rw [image]
      exact ⟨_, rfl⟩
    · exact ⟨_, rfl⟩

/-- **Everything a returning `demandpage` does**: it secures a frame and fills it,
from the backing file when the page was loaded before, else from the executable. -/
theorem demandpage_cases {b : Bool} (owns : Owns c others s) (hi : i < s.numPages)
    (invalid : (s.pageTable i).valid = false) (ret : demandpage c s i = .ok (b, s')) :
    b = true ∧ ∃ g victim s₁ bytes dirty, Secures c others s i g victim s₁ ∧
      (secureForLoad c s i = .ok s₁ ∧ secureForReload c s i = .ok s₁) ∧
      Fills s₁ i bytes dirty s' ∧
      ((0 ≤ (s.pageTable i).physicalPage ∧ dirty = false ∧
          s₁.fileSystem.readAt s.backing.file pageSize (pageOffset (s.pageTable i).virtualPage) =
            .ok bytes) ∨
        ((s.pageTable i).physicalPage < 0 ∧ dirty = true ∧
          ∃ noffH, readHeader s.fileSystem s.storedExecutable = .ok noffH ∧
            pageImage s₁.fileSystem s.storedExecutable noffH (pageAddr i) = .ok bytes)) := by
  rw [demandpage, index_natCast hi, ok_bind] at ret
  by_cases before : 0 ≤ (s.pageTable i).physicalPage
  · rw [if_pos before] at ret
    obtain ⟨s₂, reloaded, last⟩ := bind_eq_ok.mp ret
    cases last
    have same : s.setEntry i { s.pageTable i with valid := false } = s := by
      rw [← invalid]
      exact setEntry_same s i
    rw [reloadPage, same] at reloaded
    obtain ⟨s₁, secured, paged⟩ := bind_eq_ok.mp reloaded
    obtain ⟨bytes, read, rest⟩ := bind_eq_ok.mp paged
    cases rest
    rcases secure_cases owns invalid with ⟨g, victim, s₁', sec, -, load, reload⟩ | ⟨e, -, -, -, bad⟩
    · rw [secured] at reload
      cases reload
      obtain ⟨u, entry⟩ := sec.entry
      have page : (s₁.pageTable i).virtualPage = (s.pageTable i).virtualPage := by rw [entry]
      refine ⟨rfl, g, victim, s₁, bytes, false, sec, ⟨load, secured⟩, ?_, Or.inl ⟨before, rfl, ?_⟩⟩
      · exact ⟨rfl, rfl, rfl, rfl, rfl, rfl, rfl, setEntry_self _ _ _,
          fun j ne => setEntry_ne _ _ ne⟩
      · rw [← page, ← sec.backing]
        exact read
    · rw [bad] at secured
      cases secured
  · rw [if_neg before] at ret
    obtain ⟨noffH, header, rest⟩ := bind_eq_ok.mp ret
    obtain ⟨s₁, secured, rest⟩ := bind_eq_ok.mp rest
    rcases secure_cases owns invalid with ⟨g, victim, s₁', sec, -, load, reload⟩ | ⟨e, -, -, bad, -⟩
    · rw [secured] at load
      cases load
      obtain ⟨u, entry⟩ := sec.entry
      have phys : ¬ (s₁.pageTable i).physicalPage < 0 := by
        rw [entry]
        exact not_lt.mpr (Int.natCast_nonneg g)
      rw [if_neg phys] at rest
      obtain ⟨s₂, filled, last⟩ := bind_eq_ok.mp rest
      cases last
      obtain ⟨bytes, st, image, rfl⟩ := fillPage_eq_ok filled
      refine ⟨rfl, g, victim, s₁, bytes, true, sec, ⟨secured, reload⟩, ?_,
        Or.inr ⟨not_le.mp before, rfl, noffH, header, ?_⟩⟩
      · exact ⟨rfl, rfl, rfl, rfl, rfl, rfl, rfl, setEntry_self _ _ _,
          fun j ne => setEntry_ne _ _ ne⟩
      · rw [← sec.storedExecutable]
        exact image
    · rw [bad] at secured
      cases secured

/-- A secured entry that is filled owns its frame. -/
theorem Fills.owns {g : Nat} {victim : Option Nat} {s₁ : Vm} {bytes : List Byte} {dirty : Bool}
    (fills : Fills s₁ i bytes dirty s') (sec : Secures c others s i g victim s₁)
    (hi : i < s.numPages) (invalid : (s.pageTable i).valid = false) : Owns c others s' := by
  obtain ⟨u, entry⟩ := sec.entry
  have owns := sec.owns
  have invalid₁ : (s₁.pageTable i).valid = false := by rw [entry]; exact invalid
  have maps : ∀ j f, Maps s'.toAddrSpace j f ↔ Maps s₁.toAddrSpace j f ∨ (j = i ∧ f = g) := by
    intro j f
    by_cases here : j = i
    · subst here
      simp only [Maps, fills.entry, fills.numPages, entry, sec.numPages, hi, invalid, true_and,
        Bool.false_eq_true, false_and, false_or]
      omega
    · simp only [Maps, fills.table j here, fills.numPages, here, false_and, or_false]
  refine ⟨fills.memmanage ▸ owns.manages, fun j hj ok => ?_, fun j k f m₁ m₂ => ?_,
    fun j f m => ?_, fun f lt => ?_⟩
  · by_cases here : j = i
    · subst here
      refine ⟨g, sec.frame, ?_⟩
      rw [fills.entry, entry]
    · rw [fills.table j here] at ok ⊢
      exact owns.bounded j (fills.numPages ▸ hj) ok
  · rcases (maps j f).mp m₁ with old₁ | ⟨rfl, rfl⟩ <;> rcases (maps k f).mp m₂ with old₂ | ⟨rfl, e⟩
    · exact owns.unique j k f old₁ old₂
    · exact absurd (Or.inr e) (owns.apart j f old₁)
    · exact absurd (Or.inr rfl) (owns.apart k f old₂)
    · rfl
  · rcases (maps j f).mp m with old | ⟨rfl, rfl⟩
    · exact fun o => owns.apart j f old (Or.inl o)
    · -- the frame was free or the victim's own, so it is not one of the others'
      exact sec.fresh
  · rw [fills.memmanage, owns.allocated f lt]
    simp only [maps]
    constructor
    · rintro ((o | rfl) | ⟨j, m⟩)
      · exact Or.inl o
      · exact Or.inr ⟨i, Or.inr ⟨rfl, rfl⟩⟩
      · exact Or.inr ⟨j, Or.inl m⟩
    · rintro (o | ⟨j, m | ⟨-, rfl⟩⟩)
      · exact Or.inl (Or.inl o)
      · exact Or.inr ⟨j, m⟩
      · exact Or.inl (Or.inr rfl)

/-- **`demandpage` keeps the frame invariant**, whatever the other processes own. -/
theorem demandpage_owns {b : Bool} (owns : Owns c others s) (hi : i < s.numPages)
    (invalid : (s.pageTable i).valid = false) (ret : demandpage c s i = .ok (b, s')) :
    Owns c others s' := by
  obtain ⟨-, g, victim, s₁, bytes, dirty, sec, -, fills, -⟩ := demandpage_cases owns hi invalid ret
  exact fills.owns sec hi invalid

end Handler

end Nachos.UserProg
