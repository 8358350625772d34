/-
# Nachos.UserProg.Replacement -- two pages are enough

An instruction needs at most two pages at once, the page it is fetched from and the
page of its data.  The kernel brings in one page for each fault and may evict the
other page for it, so it is not clear that both are ever there together.  This module
shows that with two frames they are, after at most four faults (`settles_in_four`), for
the clock and for FIFO.

`demandpage_evicts` says which page goes: the first `Hit` from the hand, the hand
staying on it.  The argument then follows the hand.  When the data page pushes the
fetched page `i` out, the clock has been all the way round (the fetch had set `use`),
so every page is up for eviction and the hand is on `i` (`Behind`).  When the fault on
`i` then pushes a page `v` out, no other resident page lies between `i` and `v`
(`Ahead`); so the next time round from `v` some other page comes before `i`, whatever
page the data is on by then.
-/
import Nachos.UserProg.System

namespace Nachos.UserProg

open Nachos.Lib.Bytes
open Nachos.Machine
open Nachos.Lib.Cyclic

set_option autoImplicit false

section Victim

variable {c : Config} {others : Nat → Prop} {s s' : Vm} {i h k : Nat}

theorem evictable_unbacked (invalid : (s.pageTable i).valid = false) (j : Nat) :
    evictable c ((swept (unbacked s i) h k).pageTable j) =
      evictable c ((swept s h k).pageTable j) := by
  rw [swept_pageTable, swept_pageTable]
  by_cases here : j = i
  · subst here
    rw [unbacked, setEntry_self]
    simp [evictable, invalid]
  · rw [unbacked, setEntry_ne _ _ here]
    rfl

theorem hit_unbacked (invalid : (s.pageTable i).valid = false) :
    Hit c (unbacked s i) h k ↔ Hit c s h k := by
  unfold Hit
  rw [evictable_unbacked invalid]
  rfl

/-- What a fault with no frame free does: the first hit goes, and the hand stays on it. -/
structure Replaces (c : Config) (s : Vm) (i h k : Nat) (s' : Vm) : Prop where
  hit : Hit c s h k
  first : ∀ j < k, ¬ Hit c s h j
  hand : s'.clockHand = slot h s.numPages k
  valid : ∀ j, (s'.pageTable j).valid = true ↔
    ((s.pageTable j).valid = true ∧ j ≠ slot h s.numPages k) ∨ j = i
  use : ∀ j, (s'.pageTable j).use = ((s.pageTable j).use && !decide (Passed h s.numPages k j))
  full : ¬ FrameFree c s'.toCore

/-- Paging a page out leaves the `use` bits alone. -/
theorem pageOut_use {v : Nat} (out : pageOut s v = .ok s') (j : Nat) :
    (s'.pageTable j).use = (s.pageTable j).use := by
  obtain ⟨s₁, wrote, freed⟩ := bind_eq_ok.mp out
  obtain ⟨mm, free, last⟩ := bind_eq_ok.mp freed
  obtain ⟨fs, st, rfl, -⟩ := writeBack_eq_ok wrote
  cases last
  by_cases here : j = v
  · subst here
    simp [Vm.setEntry]
  · simp [Vm.setEntry, here]

/-- A frame given back by `ClearPage` is the only free one, and is taken at once. -/
theorem allocInto_after {v : Nat} {s₀ s₁ s₂ : Vm} (owns : Owns c others s₀)
    (full : ¬ FrameFree c s₀.toCore) (ev : Evicts s₀ v s₁) (alloc : allocInto s₁ i = .ok s₂) :
    ¬ FrameFree c s₂.toCore ∧ s₂.clockHand = s₁.clockHand ∧
      (∀ j, (s₂.pageTable j).valid = (s₁.pageTable j).valid) ∧
      ∀ j, (s₂.pageTable j).use = (s₁.pageTable j).use := by
  obtain ⟨g, glt, -, manages, sets⟩ := ev.frees owns
  have only : ∀ f < c.numPhysPages, s₁.memmanage.allocated f = false → f = g := by
    intro f lt unset
    by_contra ne
    rw [sets f] at unset
    simp only [ne, decide_false, Bool.not_false, Bool.true_and] at unset
    exact full ⟨f, lt, unset⟩
  obtain ⟨g', mm', allocated, lt', unset', -, -, sets'⟩ :=
    MemoryManager.allocPage_free manages glt (by rw [sets g]; simp)
  rw [allocInto, allocated] at alloc
  cases alloc
  have same : g' = g := only g' lt' unset'
  refine ⟨?_, rfl, ?_, ?_⟩
  · rintro ⟨f, lt, unset⟩
    have unset := (sets' f).symm.trans unset
    simp only [Bool.or_eq_false_iff, decide_eq_false_iff_not] at unset
    exact unset.1 ((only f lt unset.2).trans same.symm)
  · intro j
    by_cases here : j = i
    · subst here
      rw [setEntry_self]
    · rw [setEntry_ne _ _ here]
  · intro j
    by_cases here : j = i
    · subst here
      rw [setEntry_self]
    · rw [setEntry_ne _ _ here]

/-- How a page fault that returns came by its frame. -/
theorem demandpage_frame {b : Bool} (owns : Owns c others s) (hi : i < s.numPages)
    (invalid : (s.pageTable i).valid = false) (ret : demandpage c s i = .ok (b, s')) :
    ∃ s₁, (∃ bytes dirty, Fills s₁ i bytes dirty s') ∧
      ((FrameFree c s.toCore ∧ ∃ g, Secures c others s i g none s₁) ∨
        ¬ FrameFree c s.toCore ∧ ∃ v s₂, clearPage c (unbacked s i) = .ok s₂ ∧
          Evicts (unbacked s i) v s₂ ∧ allocInto s₂ i = .ok s₁) := by
  obtain ⟨-, g, victim, s₁, bytes, dirty, sec, ⟨load, -⟩, fills, -⟩ :=
    demandpage_cases owns hi invalid ret
  refine ⟨s₁, ⟨bytes, dirty, fills⟩, ?_⟩
  rcases secure_cases owns invalid with ⟨g', victim', s₁', sec', how, load', -⟩ | ⟨e, -, -, bad, -⟩
  · rw [load] at load'
    cases load'
    rcases how with ⟨rfl, free⟩ | ⟨v, s₂, -, full, cleared, ev, alloc⟩
    · exact Or.inl ⟨free, g', sec'⟩
    · exact Or.inr ⟨full, v, s₂, cleared, ev, alloc⟩
  · rw [load] at bad
    cases bad

/-- **Which page a fault evicts.** -/
theorem demandpage_evicts {b : Bool} (owns : Owns c others s) (hi : i < s.numPages)
    (invalid : (s.pageTable i).valid = false) (hand : s.clockHand = h) (inside : h < s.numPages)
    (full : ¬ FrameFree c s.toCore) (ret : demandpage c s i = .ok (b, s')) :
    ∃ k < 2 * s.numPages, Replaces c s i h k s' := by
  obtain ⟨s₁, ⟨bytes, dirty, fills⟩, ⟨free, -⟩ | ⟨-, v, s₂, cleared, ev, alloc⟩⟩ :=
    demandpage_frame owns hi invalid ret
  · exact absurd free full
  obtain ⟨-, some_⟩ := clearPage_returned cleared
  obtain ⟨k, bound, hit, first, run⟩ :=
    clearPage_eq (c := c) (s := unbacked s i) (h := h) hand inside some_
  rw [run] at cleared
  have owns₀ := owns_unbacked (i := i) owns invalid
  obtain ⟨full', hand', valid', use'⟩ := allocInto_after owns₀ full ev alloc
  have ev' := pageOut_evicts (slot_lt (by omega)) rfl (hit_resident hit) cleared
  have victim : v = slot h s.numPages k := by
    have := ev.clockHand.symm.trans ev'.clockHand
    exact_mod_cast this
  have valid₀ : ∀ j, ((unbacked s i).pageTable j).valid = (s.pageTable j).valid := fun j => by
    rw [unbacked_entry]
  have use₀ : ∀ j, ((unbacked s i).pageTable j).use = (s.pageTable j).use := fun j => by
    rw [unbacked_entry]
  -- the `use` bits of the swept table survive the rest of the handler
  have use₂ : ∀ j, (s₂.pageTable j).use =
      ((s.pageTable j).use && !decide (Passed h s.numPages k j)) := by
    intro j
    rw [pageOut_use cleared j, swept_pageTable, ← use₀ j]
    rfl
  refine ⟨k, bound, ?_, ?_, ?_, ?_, ?_, ?_⟩
  · exact (hit_unbacked invalid).mp hit
  · intro j lt hit'
    exact first j lt ((hit_unbacked invalid).mpr hit')
  · rw [fills.clockHand, hand', ev'.clockHand]
    rfl
  · intro j
    by_cases here : j = i
    · subst here
      rw [fills.entry]
      exact iff_of_true rfl (Or.inr rfl)
    · obtain ⟨u, entry⟩ := ev'.table j
      have same : (s₂.pageTable j).valid =
          ((s.pageTable j).valid && !decide (j = slot h s.numPages k)) := by
        rw [entry, ← valid₀ j]
        rfl
      rw [fills.table j here, valid' j, same]
      simp [here]
  · intro j
    have kept : (s'.pageTable j).use = (s₁.pageTable j).use := by
      by_cases here : j = i
      · subst here
        rw [fills.entry]
      · rw [fills.table j here]
    rw [kept, use' j, use₂ j]
  · unfold FrameFree at full' ⊢
    rw [fills.memmanage]
    exact full'

/-- With a frame free nothing goes. -/
theorem demandpage_keeps {b : Bool} (owns : Owns c others s) (hi : i < s.numPages)
    (invalid : (s.pageTable i).valid = false) (free : FrameFree c s.toCore)
    (ret : demandpage c s i = .ok (b, s')) {j : Nat} (valid : (s.pageTable j).valid = true) :
    (s'.pageTable j).valid = true := by
  obtain ⟨s₁, ⟨bytes, dirty, fills⟩, ⟨-, g, sec⟩ | ⟨full, -⟩⟩ :=
    demandpage_frame owns hi invalid ret
  · have ne : j ≠ i := by
      rintro rfl
      rw [invalid] at valid
      cases valid
    obtain ⟨u, entry⟩ := sec.table j ne
    rw [fills.table j ne, entry, valid]
    rfl
  · exact absurd free full

end Victim

/-! ## Two pages at once -/

/-- The clock would take any resident page the hand comes to, `i` perhaps apart. -/
def Relaxed (c : Config) (s : Vm) : Prop :=
  c.useFifo = true ∨ ∀ j < s.numPages, (s.pageTable j).use = false

/-- After at most `n` faults pages `i` and `d` are both valid, when `i` is tried first
and every try that gets to `d` has gone through `i`. -/
def Settles (c : Config) (i d : Nat) : Nat → Vm → Prop
  | 0, s => (s.pageTable i).valid = true ∧ (s.pageTable d).valid = true
  | n + 1, s =>
      ((s.pageTable i).valid = false →
        ∀ b s', demandpage c (counted s) i = .ok (b, s') → Settles c i d n s') ∧
      ((s.pageTable i).valid = true → (s.pageTable d).valid = false →
        ∀ b s', demandpage c (counted (touched s i false)) d = .ok (b, s') → Settles c i d n s')

section Settling

variable {c : Config} {s s' : Vm} {i d h k : Nat}

theorem settles_of_valid (validI : (s.pageTable i).valid = true)
    (validD : (s.pageTable d).valid = true) (n : Nat) : Settles c i d n s := by
  cases n with
  | zero => exact ⟨validI, validD⟩
  | succ n =>
      refine ⟨fun invalid => ?_, fun _ invalid => ?_⟩
      · rw [validI] at invalid
        cases invalid
      · rw [validD] at invalid
        cases invalid

/-- On its first round the hand takes a resident page that was not used. -/
theorem hit_of_unused {others : Nat → Prop} (owns : Owns c others s) (hk : k < s.numPages)
    (valid : (s.pageTable (slot h s.numPages k)).valid = true)
    (unused : c.useFifo = true ∨ (s.pageTable (slot h s.numPages k)).use = false) :
    Hit c s h k := by
  rw [hit_first_round hk]
  have res := owns.resident_of_valid (slot_lt (by omega)) valid
  simp only [resident, Bool.and_eq_true, decide_eq_true_eq] at res
  rcases unused with fifo | use <;> simp [evictable, *]

/-- With two frames, all taken, a process that has the machine to itself has a
resident page besides `i`. -/
theorem exists_other (owns : Owns c (fun _ => False) s) (two : 2 ≤ c.numPhysPages)
    (full : ¬ FrameFree c s.toCore) (i : Nat) :
    ∃ x < s.numPages, x ≠ i ∧ (s.pageTable x).valid = true := by
  have mapped : ∀ f < c.numPhysPages, ∃ x, Maps s.toAddrSpace x f := by
    intro f lt
    have taken : s.memmanage.allocated f = true := by
      by_contra unset
      exact full ⟨f, lt, by simpa using unset⟩
    exact ((owns.allocated f lt).mp taken).resolve_left id
  obtain ⟨x, inside, valid, at_⟩ := mapped 0 (by omega)
  obtain ⟨y, inside', valid', at_'⟩ := mapped 1 (by omega)
  by_cases here : x = i
  · refine ⟨y, inside', ?_, valid'⟩
    rintro rfl
    rw [here, at_'] at at_
    cases at_
  · exact ⟨x, inside, here, valid⟩

/-- Everything the argument needs of a state between two faults. -/
structure Turning (c : Config) (i d : Nat) (s : Vm) : Prop where
  owns : Owns c (fun _ => False) s
  hand : HandInside s.toAddrSpace
  first : i < s.numPages
  second : d < s.numPages

theorem Turning.count (turning : Turning c i d s) : Turning c i d (counted s) :=
  ⟨counted_owns turning.owns, turning.hand, turning.first, turning.second⟩

theorem Turning.touch (turning : Turning c i d s) : Turning c i d (touched s i false) :=
  ⟨touched_owns turning.owns, turning.hand, turning.first, turning.second⟩

/-- A fault on page `j`: it comes in, and nothing goes or the first hit does. -/
theorem Turning.fault {j : Nat} {b : Bool} (turning : Turning c i d s) (hj : j < s.numPages)
    (invalid : (s.pageTable j).valid = false) (ret : demandpage c s j = .ok (b, s')) :
    Turning c i d s' ∧ s'.numPages = s.numPages ∧ (s'.pageTable j).valid = true ∧
      (FrameFree c s.toCore ∧ (∀ x, (s.pageTable x).valid = true → (s'.pageTable x).valid = true) ∨
        ∃ h k, s.clockHand = (h : Nat) ∧ h < s.numPages ∧ Replaces c s j h k s') := by
  have pages := (demandpage_confined turning.owns hj invalid ret).numPages
  refine ⟨⟨demandpage_owns turning.owns hj invalid ret,
    demandpage_hand turning.owns turning.hand hj invalid ret, ?_, ?_⟩, pages, ?_, ?_⟩
  · rw [pages]
    exact turning.first
  · rw [pages]
    exact turning.second
  · obtain ⟨-, g, victim, s₁, bytes, dirty, -, -, fills, -⟩ :=
      demandpage_cases turning.owns hj invalid ret
    rw [fills.entry]
  · by_cases free : FrameFree c s.toCore
    · exact Or.inl ⟨free, fun x valid => demandpage_keeps turning.owns hj invalid free ret valid⟩
    · obtain ⟨low, high⟩ := turning.hand
      have hand : s.clockHand = (s.clockHand.toNat : Nat) := (Int.toNat_of_nonneg low).symm
      have inside : s.clockHand.toNat < s.numPages := by omega
      obtain ⟨k, -, replaces⟩ := demandpage_evicts turning.owns hj invalid hand inside free ret
      exact Or.inr ⟨_, k, hand, inside, replaces⟩

/-- Page `i` is in, `v` was pushed out for it, and no other resident page lies between
the two: the hand is on `v`, `k` slots after `i`. -/
structure Ahead (c : Config) (i d v k : Nat) (s : Vm) : Prop where
  turning : Turning c i d s
  validI : (s.pageTable i).valid = true
  gone : (s.pageTable v).valid = false
  hand : s.clockHand = (v : Nat)
  round : k < s.numPages
  ahead : slot i s.numPages k = v
  lone : ∀ j < k, (s.pageTable (slot i s.numPages j)).valid = true → slot i s.numPages j = i
  relaxed : Relaxed c s
  full : ¬ FrameFree c s.toCore

/-- From there a fault on any page `d` pushes out a page that is not `i`. -/
theorem Ahead.settles {v : Nat} (ahead : Ahead c i d v k s) (two : 2 ≤ c.numPhysPages) :
    Settles c i d 1 s := by
  have hk := ahead.round
  refine ⟨fun bad => ?_, fun _ invalid b s' ret => ?_⟩
  · rw [ahead.validI] at bad
    cases bad
  obtain ⟨-, pages, validD, ⟨-, kept⟩ | ⟨h, k', hand, inside, replaces⟩⟩ :=
    ahead.turning.touch.count.fault ahead.turning.second
      (by rw [← invalid]; exact (touched_entries d).1) ret
  · exact settles_of_valid (kept i ((touched_entries i).1.trans ahead.validI)) validD 0
  have same : h = v := by
    have := hand.symm.trans ahead.hand
    exact_mod_cast this
  subst same
  -- some other page `x` is resident; from `i` it comes after `v`
  obtain ⟨x, hx, nex, validX⟩ := exists_other ahead.turning.owns two ahead.full i
  obtain ⟨j, hj, at_⟩ := exists_slot ahead.turning.first hx
  have after : k < j := by
    by_contra le
    rcases Nat.lt_or_eq_of_le (not_lt.mp le) with lt | rfl
    · rw [← at_] at validX nex
      exact nex (ahead.lone j lt validX)
    · rw [← at_, ahead.ahead, ahead.gone] at validX
      cases validX
  have there : slot h s.numPages (j - k) = x := by
    rw [← ahead.ahead, slot_slot, Nat.add_sub_cancel' (le_of_lt after), at_]
  -- so the hand, which is on `v`, takes `x` at the latest
  have hit : Hit c (counted (touched s i false)) h (j - k) := by
    refine hit_of_unused ahead.turning.touch.count.owns
      (show j - k < s.numPages by omega) ?_ ?_
    · show ((touched s i false).pageTable (slot h s.numPages (j - k))).valid = true
      rw [there, touched_ne s false nex]
      exact validX
    · rcases ahead.relaxed with fifo | unused
      · exact Or.inl fifo
      · refine Or.inr ?_
        show ((touched s i false).pageTable (slot h s.numPages (j - k))).use = false
        rw [there, touched_ne s false nex]
        exact unused x hx
  have early : k' ≤ j - k := by
    by_contra late
    exact replaces.first (j - k) (not_le.mp late) hit
  have victim : i ≠ slot h s.numPages k' := by
    intro gone
    rw [← ahead.ahead, slot_slot] at gone
    have := slot_injective (by omega) (by omega) ((slot_zero ahead.turning.first).trans gone)
    have at_v := ahead.ahead
    rw [show k = 0 by omega, slot_zero ahead.turning.first] at at_v
    have validI := ahead.validI
    rw [at_v, ahead.gone] at validI
    cases validI
  refine settles_of_valid ?_ validD 0
  rw [replaces.valid i]
  exact Or.inl ⟨(touched_entries i).1.trans ahead.validI, victim⟩

/-- Page `i` was pushed out, and the hand is on it. -/
structure Behind (c : Config) (i d : Nat) (s : Vm) : Prop where
  turning : Turning c i d s
  gone : (s.pageTable i).valid = false
  hand : s.clockHand = (i : Nat)
  relaxed : Relaxed c s
  full : ¬ FrameFree c s.toCore

theorem Behind.hit (behind : Behind c i d s) {j : Nat} (hj : j < s.numPages)
    (valid : (s.pageTable (slot i s.numPages j)).valid = true) : Hit c (counted s) i j := by
  have inside : slot i s.numPages j < s.numPages := slot_lt (by omega)
  exact hit_of_unused behind.turning.count.owns hj valid
    (behind.relaxed.imp id fun unused => unused _ inside)

/-- From there the fault on `i` gets `Ahead`, whatever page the data is on. -/
theorem Behind.settles (behind : Behind c i d s) (two : 2 ≤ c.numPhysPages) :
    Settles c i d 2 s := by
  refine ⟨fun invalid b s' ret => ?_, fun bad => ?_⟩
  swap
  · rw [behind.gone] at bad
    cases bad
  obtain ⟨turning, pages, validI, ⟨free, -⟩ | ⟨h, k, hand, inside, replaces⟩⟩ :=
    behind.turning.count.fault behind.turning.first invalid ret
  · exact absurd free behind.full
  have same : h = i := by
    have := hand.symm.trans behind.hand
    exact_mod_cast this
  subst same
  -- some page is resident, so the hand takes one on its first round
  obtain ⟨x, hx, -, validX⟩ := exists_other behind.turning.owns two behind.full h
  obtain ⟨j, hj, at_⟩ := exists_slot behind.turning.first hx
  have hk : k < s.numPages := by
    by_contra late
    exact replaces.first j (by omega) (behind.hit hj (by rw [at_]; exact validX))
  refine Ahead.settles (v := slot h s.numPages k) (k := k)
    ⟨turning, validI, ?_, replaces.hand, ?_, ?_, ?_, ?_, replaces.full⟩ two
  · by_contra still
    rcases (replaces.valid _).mp (by simpa using still) with ⟨-, ne⟩ | here
    · exact ne rfl
    · have res : resident (s.pageTable (slot h s.numPages k)) = true := hit_resident replaces.hit
      rw [here] at res
      simp [resident, behind.gone] at res
  · rw [pages]
    exact hk
  · rw [pages]
    rfl
  · intro j lt valid
    rw [pages] at valid ⊢
    rcases (replaces.valid _).mp valid with ⟨before, -⟩ | here
    · exact absurd (behind.hit (Nat.lt_trans lt hk) before) (replaces.first j lt)
    · exact here
  · refine behind.relaxed.imp id fun unused j hj => ?_
    rw [replaces.use j, show ((counted s).pageTable j).use = false from unused j (pages ▸ hj)]
    rfl

/-- Once `i` has been fetched, a fault on any page `j` leaves `i` in, or is `Behind`: the
fetch has set `use`, so the clock comes to `i` only when it is all the way round. -/
theorem Turning.fault_fetched {j : Nat} {b : Bool} (turning : Turning c i d s) (hj : j < s.numPages)
    (validI : (s.pageTable i).valid = true) (invalid : (s.pageTable j).valid = false)
    (ret : demandpage c (counted (touched s i false)) j = .ok (b, s')) :
    Turning c i d s' ∧ (s'.pageTable j).valid = true ∧
      ((s'.pageTable i).valid = true ∨ Behind c i d s') := by
  obtain ⟨turning', pages, validJ, ⟨-, kept⟩ | ⟨h, k, hand, inside, replaces⟩⟩ :=
    turning.touch.count.fault hj (by rw [← invalid]; exact (touched_entries j).1) ret
  · exact ⟨turning', validJ, Or.inl (kept i ((touched_entries i).1.trans validI))⟩
  refine ⟨turning', validJ, ?_⟩
  have ne : i ≠ j := by
    rintro rfl
    rw [validI] at invalid
    cases invalid
  have valid : (s'.pageTable i).valid = true ↔ i ≠ slot h s.numPages k := by
    rw [replaces.valid i]
    simp only [ne, or_false]
    exact and_iff_right ((touched_entries i).1.trans validI)
  by_cases victim : i = slot h s.numPages k
  · refine Or.inr ⟨turning', ?_, ?_, ?_, replaces.full⟩
    · simpa [victim] using valid
    · rw [replaces.hand]
      exact congrArg _ victim.symm
    · by_cases fifo : c.useFifo = true
      · exact Or.inl fifo
      have late : s.numPages ≤ k := by
        by_contra early
        have hit := (hit_first_round (show k < (counted (touched s i false)).numPages from
          not_le.mp early)).mp replaces.hit
        have used : (counted (touched s i false)).pageTable
            (slot h (counted (touched s i false)).numPages k) = (touched s i false).pageTable i :=
          congrArg (touched s i false).pageTable victim.symm
        rw [used, touched_self] at hit
        simp [evictable, fifo] at hit
      refine Or.inr fun x hx => ?_
      rw [pages] at hx
      rw [replaces.use x]
      simp [passed_of_le inside late hx]
  · exact Or.inl (valid.mpr victim)

/-- So the fault on `d` leaves both in, or is `Behind`. -/
theorem settles_fetched (turning : Turning c i d s) (two : 2 ≤ c.numPhysPages)
    (validI : (s.pageTable i).valid = true) : Settles c i d 3 s := by
  refine ⟨fun bad => ?_, fun _ invalid b s' ret => ?_⟩
  · rw [validI] at bad
    cases bad
  obtain ⟨-, validD, valid | behind⟩ := turning.fault_fetched turning.second validI invalid ret
  · exact settles_of_valid valid validD 2
  · exact behind.settles two

theorem Settles.succ {n : Nat} (settles : Settles c i d n s) : Settles c i d (n + 1) s := by
  induction n generalizing s with
  | zero => exact settles_of_valid settles.1 settles.2 1
  | succ n ih =>
      obtain ⟨first, second⟩ := settles
      exact ⟨fun invalid b s' ret => ih (first invalid b s' ret),
        fun valid invalid b s' ret => ih (second valid invalid b s' ret)⟩

/-- **Two frames are enough for two pages**, after at most four faults. -/
theorem settles_in_four (turning : Turning c i d s) (two : 2 ≤ c.numPhysPages) :
    Settles c i d 4 s := by
  cases valid : (s.pageTable i).valid with
  | true => exact (settles_fetched turning two valid).succ
  | false =>
      refine ⟨fun invalid b s' ret => ?_, fun bad => ?_⟩
      · obtain ⟨turning', -, validI, -⟩ := turning.count.fault turning.first invalid ret
        exact settles_fetched turning' two validI
      · rw [valid] at bad
        cases bad

end Settling

end Nachos.UserProg
