/-
# Nachos.UserProg.Clock -- `ClearPage` is the clock algorithm

`Takes c s h k` is the rule by itself: from `h` round the table the clock passes `k` pages over and
takes the next.  On the first round it takes a resident page that is `Unused`; when there is none it
takes the first resident page on the second round.

* `takes_iff`: the rule is what the loop tests, a `Hit` with none before.
* `Takes.clearPage_eq`: `ClearPage` pages out the page the rule takes, and nothing else.
* `clearPage_clock`: all of `ClearPage`, and what `demandpage` makes of it: with a page paged out
  the next `AllocPage` succeeds, so the third try, its `ASSERT` and `return false` are never
  reached.

Of the page table this assumes only that resident entries name frames of the machine.  The page
that is paged out needs a slot in the backing file when it is dirty: `virtualPage * PageSize` is
an `int`.  In a table whose pages came in through `demandpage` every page has one
(`AllNumbered.hasSlot`).
-/
import Nachos.UserProg.System

namespace Nachos.UserProg

open Nachos.Lib.Bytes
open Nachos.Machine
open Nachos.Lib.Cyclic

set_option autoImplicit false

/-! ## The rule -/

/-- Page `i` is resident and may be taken on the first round: not used, or the policy is FIFO. -/
def Unused (c : Config) (s : Vm) (i : Nat) : Prop :=
  resident (s.pageTable i) = true ∧ ((s.pageTable i).use = false ∨ c.useFifo = true)

/-- The clock passes `k` pages over from `h`, and takes the next one. -/
inductive Takes (c : Config) (s : Vm) (h : Nat) : Nat → Prop where
  | unused {k : Nat} : FirstAt h s.numPages (Unused c s) k → Takes c s h k
  | used {k : Nat} : (∀ i < s.numPages, ¬ Unused c s i) →
      FirstAt h s.numPages (fun i => resident (s.pageTable i) = true) k →
        Takes c s h (k + s.numPages)

/-- The entry has a slot in the backing file, at an offset that is an `int`. -/
def HasSlot (pte : TranslationEntry) : Prop := 0 ≤ pte.virtualPage ∧ pte.virtualPage < pageLimit

/-- Resident entries name frames of the machine. -/
structure Named (c : Config) (s : Vm) : Prop where
  manages : s.memmanage.Manages c.numPhysPages
  frames : ∀ i < s.numPages, resident (s.pageTable i) = true →
    ∃ f < c.numPhysPages, (s.pageTable i).physicalPage = f

/-- What `ClearPage` has done when it took the page after `k` moves from `h`. -/
structure Cleared (c : Config) (s : Vm) (h k : Nat) (s' : Vm) : Prop where
  /-- The page is no longer valid, and the entries passed over have lost their `use`. -/
  table : ∀ i, s'.pageTable i = { s.pageTable i with
    valid := (s.pageTable i).valid && !decide (i = slot h s.numPages k)
    use := (s.pageTable i).use && !decide (Passed h s.numPages k i) }
  clockHand : s'.clockHand = slot h s.numPages k
  written :
    let pte := s.pageTable (slot h s.numPages k)
    if pte.dirty then
      s.fileSystem.writeAt s.backing.file (block s.mainMemory (frameAddr pte.physicalPage) pageSize)
        (pte.virtualPage * pageSize) = .ok s'.fileSystem
    else s'.fileSystem = s.fileSystem
  /-- Its frame is free, and no other frame is freed or taken. -/
  freed : ∀ f : Nat, s'.memmanage.allocated f =
    (s.memmanage.allocated f && !decide ((s.pageTable (slot h s.numPages k)).physicalPage = f))
  alloc : ∃ (f : Nat) (mm : MemoryManager), f < c.numPhysPages ∧
    s'.memmanage.allocPage = .ok ((f : Int), mm)
  mainMemory : s'.mainMemory = s.mainMemory
  numPages : s'.numPages = s.numPages
  backing : s'.backing = s.backing
  storedExecutable : s'.storedExecutable = s.storedExecutable

/-- Entry `i` as the reload path of `demandpage` first leaves it. -/
def invalidated (s : Vm) (i : Nat) : Vm := s.setEntry i { s.pageTable i with valid := false }

/-- `ClearPage` from `h` is the clock algorithm, and `demandpage` never tries it twice. -/
structure Clock (c : Config) (s : Vm) (h : Nat) : Prop where
  returns : (∃ s', clearPage c s = .ok s') ↔ ∃ i < s.numPages, resident (s.pageTable i) = true
  loops : (∀ i < s.numPages, resident (s.pageTable i) = false) →
    ∀ turns, clearPageLoop c turns s = .error .loops
  takes : ∀ s', clearPage c s = .ok s' → ∃ k, Takes c s h k ∧ Cleared c s h k s'
  /-- The third try and `ASSERT(FALSE)` of the reload path are not reached. -/
  reload : ∀ i < s.numPages, secureForReload c (invalidated s i) i = secureForLoad c
    (invalidated s i) i
  /-- Neither is `return false`. -/
  served : ∀ i < s.numPages, ∀ b s', demandpage c s i = .ok (b, s') → b = true

section Rule

variable {c : Config} {s s' : Vm} {h i k : Nat}

theorem evictable_iff : evictable c (s.pageTable i) = true ↔ Unused c s i := by
  simp only [evictable, Unused, resident, Bool.and_eq_true, Bool.or_eq_true, Bool.not_eq_true']
  tauto

/-- Where the rule takes a page the loop has its first hit. -/
theorem Takes.hit (inside : h < s.numPages) (takes : Takes c s h k) :
    Hit c s h k ∧ ∀ j < k, ¬ Hit c s h j := by
  cases takes with
  | unused first =>
      refine ⟨(hit_first_round first.round).mpr (evictable_iff.mpr first.here), fun j lt hit => ?_⟩
      exact first.before j lt
        (evictable_iff.mp ((hit_first_round (Nat.lt_trans lt first.round)).mp hit))
  | @used k used first =>
      refine ⟨(hit_second_round inside (Nat.le_add_left _ _)).mpr ?_, fun j lt hit => ?_⟩
      · rw [slot_add_self]
        exact first.here
      · by_cases round : j < s.numPages
        · have lt : slot h s.numPages j < s.numPages := slot_lt (by omega)
          exact used _ lt (evictable_iff.mp ((hit_first_round round).mp hit))
        · -- on the second round the hand is where it was one round before
          obtain ⟨m, rfl⟩ := Nat.exists_eq_add_of_le' (Nat.not_lt.mp round)
          have resident := (hit_second_round inside (Nat.le_add_left _ _)).mp hit
          rw [slot_add_self] at resident
          exact first.before m (by omega) resident

theorem Takes.resident (inside : h < s.numPages) (takes : Takes c s h k) :
    resident (s.pageTable (slot h s.numPages k)) = true := hit_resident (takes.hit inside).1

/-- With a resident page the rule takes one. -/
theorem exists_takes (inside : h < s.numPages) (hi : i < s.numPages)
    (resident : resident (s.pageTable i) = true) : ∃ k, Takes c s h k := by
  by_cases some_ : ∃ j < s.numPages, Unused c s j
  · obtain ⟨j, hj, unused⟩ := some_
    obtain ⟨k, first⟩ := exists_firstAt inside hj unused
    exact ⟨k, .unused first⟩
  · obtain ⟨k, first⟩ := exists_firstAt (p := fun i => UserProg.resident (s.pageTable i) = true)
      inside hi resident
    exact ⟨k + s.numPages, .used (fun j hj unused => some_ ⟨j, hj, unused⟩) first⟩

/-- **The loop pages out the page the rule takes.** -/
theorem Takes.clearPage_eq (hand : s.clockHand = h) (inside : h < s.numPages)
    (takes : Takes c s h k) :
    clearPage c s = pageOut (swept s h k) (slot h s.numPages k) := by
  have lt : slot h s.numPages k < s.numPages := slot_lt (by omega)
  obtain ⟨k', -, hit', first', run⟩ := UserProg.clearPage_eq (c := c) hand inside
    ⟨_, lt, takes.resident inside⟩
  obtain ⟨hit, first⟩ := takes.hit inside
  obtain rfl : k = k' := by
    rcases Nat.lt_trichotomy k k' with early | same | late
    · exact absurd hit (first' k early)
    · exact same
    · exact absurd hit' (first k' late)
  exact run

end Rule

/-! ## What is done with the page -/

section Page

variable {c : Config} {s s' : Vm} {h i k v : Nat}

theorem HasSlot.offset {pte : TranslationEntry} (hasSlot : HasSlot pte) :
    pageOffset pte.virtualPage = pte.virtualPage * pageSize := by
  obtain ⟨nonneg, small⟩ := hasSlot
  obtain ⟨page, same⟩ : ∃ page : Nat, pte.virtualPage = page :=
    ⟨_, (Int.toNat_of_nonneg nonneg).symm⟩
  rw [same] at small ⊢
  rw [pageOffset_natCast (by omega), Nat.cast_mul]

/-- Every resident page of a table that the handler filled has a slot. -/
theorem AllNumbered.hasSlot (numbered : AllNumbered s.toAddrSpace) (hi : i < s.numPages)
    (resident : resident (s.pageTable i) = true) : HasSlot (s.pageTable i) := by
  simp only [UserProg.resident, Bool.and_eq_true, decide_eq_true_eq] at resident
  have small := (numbered i hi).small resident.2
  rw [HasSlot, (numbered i hi).virtualPage]
  omega

/-- When the frame of a page goes back, the next `AllocPage` succeeds. -/
theorem Named.alloc (named : Named c s) (hv : v < s.numPages)
    (resident : resident (s.pageTable v) = true)
    {mm : MemoryManager} (freed : s.memmanage.freePage (s.pageTable v).physicalPage = .ok mm) :
    mm.Manages c.numPhysPages ∧
      (∀ f : Nat,
        mm.allocated f = (s.memmanage.allocated f && !decide ((s.pageTable v).physicalPage = f))) ∧
      ∃ (f : Nat) (mm' : MemoryManager), f < c.numPhysPages ∧
        mm.allocPage = .ok ((f : Int), mm') := by
  obtain ⟨g, lt, phys⟩ := named.frames v hv resident
  rw [phys] at freed ⊢
  obtain ⟨mm', freed', manages, sets⟩ := MemoryManager.freePage_natCast named.manages lt
  obtain rfl : mm = mm' := Except.ok.inj (freed.symm.trans freed')
  have free : mm.allocated g = false := by simp [sets]
  obtain ⟨f, mm', alloc, bound, -⟩ := MemoryManager.allocPage_free manages lt free
  refine ⟨manages, fun f => ?_, f, mm', bound, alloc⟩
  rw [sets f, Bool.and_comm]
  simp [eq_comm]

/-- **A page that is paged out with a slot to go to is cleared as the clock says.** -/
theorem pageOut_cleared (named : Named c s) (inside : h < s.numPages)
    (resident : resident (s.pageTable (slot h s.numPages k)) = true)
    (hasSlot : (s.pageTable (slot h s.numPages k)).dirty = true →
      HasSlot (s.pageTable (slot h s.numPages k)))
    (out : pageOut (swept s h k) (slot h s.numPages k) = .ok s') : Cleared c s h k s' := by
  have hv : slot h s.numPages k < s.numPages := slot_lt (by omega)
  have entry := swept_pageTable (s := s) (h := h) (k := k) (slot h s.numPages k)
  obtain ⟨s₁, wrote, freed⟩ := bind_eq_ok.mp out
  obtain ⟨mm, free, last⟩ := bind_eq_ok.mp freed
  obtain ⟨fs, st, rfl, written⟩ := writeBack_eq_ok wrote
  cases last
  rw [entry] at written free
  obtain ⟨-, sets, alloc⟩ := named.alloc hv resident free
  refine ⟨fun i => ?_, rfl, ?_, sets, alloc, rfl, rfl, rfl, rfl⟩
  · by_cases here : i = slot h s.numPages k
    · subst here
      simp [Vm.setEntry, entry]
    · simp [Vm.setEntry, swept_pageTable, here]
  · by_cases dirty : (s.pageTable (slot h s.numPages k)).dirty = true
    · simp only [dirty, if_true] at written ⊢
      rw [← (hasSlot dirty).offset]
      exact written
    · rw [if_neg dirty] at written
      exact (if_neg dirty).mpr written

end Page

/-! ## The handler around it -/

section Handler

variable {c : Config} {s s' : Vm} {i : Nat}

theorem Named.setEntry (named : Named c s) {e : TranslationEntry} (other : resident e = false) :
    Named c (s.setEntry i e) := by
  refine ⟨named.manages, fun j hj res => ?_⟩
  by_cases here : j = i
  · rw [here, setEntry_self, other] at res
    cases res
  · rw [setEntry_ne _ _ here] at res ⊢
    exact named.frames j hj res

/-- A try at a frame gets one, or there is none and it has failed. -/
theorem allocInto_cases (named : Named c s) :
    (∃ s', allocInto s i = .ok s' ∧ 0 ≤ (s'.pageTable i).physicalPage) ∨
      allocInto s i = .ok (unbacked s i) := by
  by_cases free : FrameFree c s.toCore
  · obtain ⟨f, lt, unset⟩ := free
    obtain ⟨g, mm, alloc, -⟩ := MemoryManager.allocPage_free named.manages lt unset
    refine .inl ⟨{ s with memmanage := mm }.setEntry i { s.pageTable i with physicalPage := g }, ?_,
      ?_⟩
    · rw [allocInto, alloc]
      rfl
    · rw [setEntry_self]
      exact Int.natCast_nonneg g
  · have all : ∀ f < c.numPhysPages, s.memmanage.allocated f = true := by
      intro f lt
      by_contra unset
      exact free ⟨f, lt, by simpa using unset⟩
    rw [allocInto, MemoryManager.allocPage_full named.manages all]
    exact .inr rfl

/-- **After `ClearPage` the next try succeeds.** -/
theorem retryAlloc_secured (named : Named c s) (retried : retryAlloc c s i = .ok s') :
    0 ≤ (s'.pageTable i).physicalPage := by
  obtain ⟨s₁, cleared, alloc⟩ := bind_eq_ok.mp retried
  obtain ⟨hand, some_⟩ := clearPage_returned cleared
  obtain ⟨v, ev⟩ := clearPage_evicts hand some_ cleared
  obtain ⟨-, -, f, mm, -, allocated⟩ := named.alloc ev.page ev.isResident ev.memmanage
  rw [allocInto, allocated] at alloc
  cases alloc
  rw [setEntry_self]
  exact Int.natCast_nonneg f

theorem secureForLoad_secured (named : Named c s) (secured : secureForLoad c s i = .ok s') :
    0 ≤ (s'.pageTable i).physicalPage := by
  obtain ⟨s₁, alloc, rest⟩ := bind_eq_ok.mp secured
  split at rest
  · cases rest
    assumption
  · rename_i low
    obtain ⟨s₂, alloc', high⟩ | full := allocInto_cases (i := i) named
    · rw [alloc] at alloc'
      cases alloc'
      exact absurd high low
    · rw [alloc] at full
      cases full
      exact retryAlloc_secured (named.setEntry (by simp [resident])) rest

/-- **The reload path has no use for its third try.** -/
theorem secureForReload_eq (named : Named c s) : secureForReload c s i = secureForLoad c s i := by
  unfold secureForReload secureForLoad
  obtain ⟨s₁, alloc, high⟩ | full := allocInto_cases (i := i) named
  · rw [alloc, ok_bind, ok_bind, if_pos high, if_pos high]
  · rw [full, ok_bind, ok_bind]
    have low : ¬ 0 ≤ ((unbacked s i).pageTable i).physicalPage := by
      rw [unbacked_physicalPage]
      decide
    rw [if_neg low, if_neg low]
    cases retried : retryAlloc c (unbacked s i) i with
    | error e => rfl
    | ok s' =>
        have high := retryAlloc_secured (named.setEntry (by simp [resident])) retried
        rw [ok_bind, if_pos high]
        rfl

theorem demandpage_true (named : Named c s) (hi : i < s.numPages) {b : Bool}
    (served : demandpage c s i = .ok (b, s')) : b = true := by
  rw [demandpage, index_natCast hi, ok_bind] at served
  split at served
  · obtain ⟨s₁, -, last⟩ := bind_eq_ok.mp served
    cases last
    rfl
  · obtain ⟨noffH, -, rest⟩ := bind_eq_ok.mp served
    obtain ⟨s₁, secured, rest⟩ := bind_eq_ok.mp rest
    rw [if_neg (Int.not_lt.mpr (secureForLoad_secured named secured))] at rest
    obtain ⟨s₂, -, last⟩ := bind_eq_ok.mp rest
    cases last
    rfl

end Handler

/-! ## All of it -/

/-- **`ClearPage` is the clock algorithm**, for every page table that names frames of the machine,
every hand inside it and both policies, as long as the page the rule takes has a slot to go to when
it is dirty. -/
theorem clearPage_clock {c : Config} {s : Vm} {h : Nat} (named : Named c s) (hand : s.clockHand = h)
    (inside : h < s.numPages)
    (slots : ∀ k, Takes c s h k → (s.pageTable (slot h s.numPages k)).dirty = true →
      HasSlot (s.pageTable (slot h s.numPages k))) : Clock c s h := by
  refine ⟨⟨fun ⟨s', cleared⟩ => (clearPage_returned cleared).2, fun ⟨i, hi, res⟩ => ?_⟩,
    fun empty turns => loops_forever hand inside empty turns, fun s' cleared => ?_, fun i hi => ?_,
    fun i hi b s' served => demandpage_true named hi served⟩
  · obtain ⟨k, takes⟩ := exists_takes (c := c) inside hi res
    have hv : slot h s.numPages k < s.numPages := slot_lt (by omega)
    obtain ⟨f, lt, phys⟩ := named.frames _ hv (takes.resident inside)
    rw [takes.clearPage_eq hand inside]
    refine pageOut_ok (takes.resident inside) named.manages
      (by rw [phys]; exact_mod_cast lt) fun dirty => ?_
    rw [(slots k takes dirty).offset]
    exact Int.mul_nonneg (slots k takes dirty).1 (Int.natCast_nonneg _)
  · obtain ⟨-, i, hi, res⟩ := clearPage_returned cleared
    obtain ⟨k, takes⟩ := exists_takes (c := c) inside hi res
    rw [takes.clearPage_eq hand inside] at cleared
    exact ⟨k, takes, pageOut_cleared named inside (takes.resident inside) (slots k takes) cleared⟩
  · exact secureForReload_eq (named.setEntry (by simp [resident]))

/-- A table of `n` dirty pages of which one is resident, in frame 0, with the hand on it. -/
def onePage (n page : Nat) (use : Bool) : Vm :=
  { sampleCore 4 with
    memmanage := ⟨4, ⟨4, fun _ => 1#32⟩⟩
    pageTable := fun i => ⟨i, if i = page then 0 else -1, i = page, false, use, true⟩
    numPages := n
    clockHand := page
    backing := ⟨⟨1⟩, "bs"⟩
    storedExecutable := ⟨0⟩ }

theorem onePage_named (n page : Nat) (use : Bool) :
    Named fourFrames (onePage n page use) ∧
      ∀ i < n, ((onePage n page use).pageTable i).valid = true →
        ∃ f < fourFrames.numPhysPages, ((onePage n page use).pageTable i).physicalPage = f ∧
          (onePage n page use).memmanage.allocated f = true := by
  have valid : ∀ i < n, ((onePage n page use).pageTable i).valid = true →
      ∃ f < fourFrames.numPhysPages, ((onePage n page use).pageTable i).physicalPage = f ∧
        (onePage n page use).memmanage.allocated f = true := by
    intro i _ valid
    have here : i = page := by simpa [onePage] using valid
    have taken : (MemoryManager.mk 4 ⟨4, fun _ => 1#32⟩).allocated 0 = true := by decide
    exact ⟨0, by decide, by simp [onePage, here], taken⟩
  refine ⟨⟨⟨rfl, rfl⟩, fun i hi res => ?_⟩, valid⟩
  simp only [resident, Bool.and_eq_true] at res
  obtain ⟨f, lt, phys, -⟩ := valid i hi res.1
  exact ⟨f, lt, phys⟩

/-- The one resident page of three is used: the hand goes all the way round and takes it. -/
theorem clearPage_clock_used : Clock fourFrames (onePage 3 1 true) 1 := by
  refine clearPage_clock (onePage_named 3 1 true).1 rfl (by decide) fun k _ _ => ?_
  have lt : slot 1 3 k < pageLimit := Nat.lt_trans (slot_lt (by decide)) (by decide)
  exact ⟨Int.natCast_nonneg _, Int.ofNat_lt.mpr lt⟩

/-- Page `2 ^ 24` has no slot: `virtualPage * PageSize` is negative, and `Lseek` aborts. -/
theorem clearPage_no_slot :
    (∀ i < (onePage (2 ^ 24 + 1) (2 ^ 24) false).numPages,
      ((onePage (2 ^ 24 + 1) (2 ^ 24) false).pageTable i).valid = true →
        ∃ f < fourFrames.numPhysPages,
          ((onePage (2 ^ 24 + 1) (2 ^ 24) false).pageTable i).physicalPage = f ∧
          (onePage (2 ^ 24 + 1) (2 ^ 24) false).memmanage.allocated f = true) ∧
    HandInside (onePage (2 ^ 24 + 1) (2 ^ 24) false).toAddrSpace ∧
    resident ((onePage (2 ^ 24 + 1) (2 ^ 24) false).pageTable (2 ^ 24)) = true ∧
    clearPage fourFrames (onePage (2 ^ 24 + 1) (2 ^ 24) false) = .error .assertion ∧
    ¬ Clock fourFrames (onePage (2 ^ 24 + 1) (2 ^ 24) false) (2 ^ 24) := by
  have aborts : clearPage fourFrames (onePage (2 ^ 24 + 1) (2 ^ 24) false) =
      .error .assertion := rfl
  refine ⟨(onePage_named _ _ false).2, ⟨by decide, by decide⟩, rfl, aborts, fun clock => ?_⟩
  obtain ⟨s', cleared⟩ := clock.returns.mpr ⟨2 ^ 24, Nat.lt_succ_self _, rfl⟩
  rw [aborts] at cleared
  cases cleared

end Nachos.UserProg
