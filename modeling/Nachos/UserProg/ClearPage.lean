/-
# Nachos.UserProg.ClearPage -- what the clock does

`swept s h k` is the state after the hand, starting at `h`, has passed `k` entries
over: their `use` bits are clear and nothing else has changed.  The loop of
`ClearPage` runs through these states and pages out the entry under the hand the
first time `Hit` holds there: before the hand has gone round, an evictable entry,
and after that any resident one.

* `clearPage_eq`: with the hand in the table and a resident page, `ClearPage` pages
  out the first hit, within two rounds.
* `clearPage_loops`: with the hand in the table and no resident page, it does not
  exit; `loops_forever` says that no number of turns is enough.
* `clearPage_outOfBounds`: with the hand outside the table it indexes outside it.
-/
import Nachos.UserProg.AddrSpace
import Nachos.Lib.Cyclic
import Mathlib.Data.Nat.Find

namespace Nachos.UserProg

open Nachos.Machine
open Nachos.Lib.Cyclic

set_option autoImplicit false

/-- The entry names a frame: `valid` with a `physicalPage` that is not negative. -/
def resident (pte : TranslationEntry) : Bool := pte.valid && decide (0 ≤ pte.physicalPage)

/-- The state after the hand has passed `k` entries over from `h`. -/
def swept (s : Vm) (h k : Nat) : Vm :=
  { s with
    pageTable := fun i =>
      if Passed h s.numPages k i then { s.pageTable i with use := false } else s.pageTable i
    clockHand := slot h s.numPages k }

/-- The entry under the hand after `k` moves is the one `ClearPage` pages out. -/
def Hit (cfg : Config) (s : Vm) (h k : Nat) : Prop :=
  evictable cfg ((swept s h k).pageTable (slot h s.numPages k)) = true

instance (cfg : Config) (s : Vm) (h k : Nat) : Decidable (Hit cfg s h k) :=
  inferInstanceAs (Decidable (_ = true))

section Sweep

variable {c : Config} {s : Vm} {h k : Nat}

@[simp] theorem swept_numPages : (swept s h k).numPages = s.numPages := rfl

@[simp] theorem swept_toCore : (swept s h k).toCore = s.toCore := rfl

@[simp] theorem swept_backing : (swept s h k).backing = s.backing := rfl

@[simp] theorem swept_storedExecutable :
    (swept s h k).storedExecutable = s.storedExecutable := rfl

@[simp] theorem swept_clockHand : (swept s h k).clockHand = slot h s.numPages k := rfl

theorem swept_pageTable (i : Nat) :
    (swept s h k).pageTable i =
      { s.pageTable i with use := (s.pageTable i).use && !decide (Passed h s.numPages k i) } := by
  unfold swept
  by_cases passed : Passed h s.numPages k i <;> simp [passed]

theorem swept_zero (hand : s.clockHand = h) (inside : h < s.numPages) : swept s h 0 = s := by
  have table : (fun i => if Passed h s.numPages 0 i then { s.pageTable i with use := false }
      else s.pageTable i) = s.pageTable := by
    funext i
    rw [if_neg not_passed_zero]
  unfold swept
  rw [table, slot_zero inside, ← hand]

/-- Passing the entry under the hand over is one more move of the sweep. -/
theorem passOver_swept :
    passOver (swept s h k) (slot h s.numPages k) = swept s h (k + 1) := by
  unfold passOver Vm.setEntry
  have table : Function.update (swept s h k).pageTable (slot h s.numPages k)
      { (swept s h k).pageTable (slot h s.numPages k) with use := false } =
        (swept s h (k + 1)).pageTable := by
    funext i
    by_cases here : i = slot h s.numPages k
    · subst here
      rw [Function.update_self, swept_pageTable, swept_pageTable]
      have : Passed h s.numPages (k + 1) (slot h s.numPages k) := passed_succ.mpr (Or.inr rfl)
      simp [this]
    · rw [Function.update_of_ne here, swept_pageTable, swept_pageTable]
      have : Passed h s.numPages (k + 1) i ↔ Passed h s.numPages k i := by
        rw [passed_succ]
        exact or_iff_left fun at_ => here at_.symm
      simp [this]
  have hand : (((swept s h k).clockHand + 1) % ((swept s h k).numPages : Int)) =
      (slot h s.numPages (k + 1) : Int) := by
    rw [swept_clockHand, swept_numPages, slot_succ]
    push_cast
    rfl
  rw [table, hand]
  rfl

theorem index_natCast {i : Nat} (inside : i < s.numPages) : index s i = .ok i := by
  simp [index, inside]

/-- One turn of the loop, from a swept state. -/
theorem clearPageLoop_swept (pos : 0 < s.numPages) (m : Nat) :
    clearPageLoop c (m + 1) (swept s h k) =
      if Hit c s h k then pageOut (swept s h k) (slot h s.numPages k)
      else clearPageLoop c m (swept s h (k + 1)) := by
  have inside : slot h s.numPages k < (swept s h k).numPages := slot_lt pos
  rw [clearPageLoop, swept_clockHand, index_natCast inside, ok_bind, passOver_swept]
  rfl

/-- The loop pages out at the first hit it reaches. -/
theorem clearPageLoop_hit (pos : 0 < s.numPages) {j m : Nat} (le : j ≤ k) (enough : k - j < m)
    (hit : Hit c s h k) (first : ∀ i, j ≤ i → i < k → ¬ Hit c s h i) :
    clearPageLoop c m (swept s h j) = pageOut (swept s h k) (slot h s.numPages k) := by
  induction m generalizing j with
  | zero => omega
  | succ m ih =>
      rw [clearPageLoop_swept pos]
      by_cases here : j = k
      · subst here
        rw [if_pos hit]
      · rw [if_neg (first j (le_refl j) (by omega))]
        exact ih (by omega) (by omega) fun i low high => first i (by omega) high

/-- Without a hit the loop never exits. -/
theorem clearPageLoop_no_hit (pos : 0 < s.numPages) (none_ : ∀ i, ¬ Hit c s h i) (m j : Nat) :
    clearPageLoop c m (swept s h j) = .error .loops := by
  induction m generalizing j with
  | zero => rfl
  | succ m ih =>
      rw [clearPageLoop_swept pos, if_neg (none_ j)]
      exact ih (j + 1)

end Sweep

/-! ## Hits -/

section Hits

variable {c : Config} {s : Vm} {h k : Nat}

theorem evictable_resident {pte : TranslationEntry} (ev : evictable c pte = true) :
    resident pte = true := by
  simp only [evictable, resident, Bool.and_eq_true] at ev ⊢
  exact ⟨ev.1.1, ev.2⟩

/-- On the first round the hand sees the entries as they were. -/
theorem hit_first_round (hk : k < s.numPages) :
    Hit c s h k ↔ evictable c (s.pageTable (slot h s.numPages k)) = true := by
  unfold Hit
  rw [swept_pageTable]
  simp [not_passed_slot hk]

/-- On the second round every `use` bit is clear: any resident entry is a hit. -/
theorem hit_second_round (inside : h < s.numPages) (hk : s.numPages ≤ k) :
    Hit c s h k ↔ resident (s.pageTable (slot h s.numPages k)) = true := by
  have pos : 0 < s.numPages := by omega
  unfold Hit
  rw [swept_pageTable]
  simp [passed_of_le inside hk (slot_lt pos), evictable, resident]

theorem hit_resident (hit : Hit c s h k) :
    resident (s.pageTable (slot h s.numPages k)) = true := by
  have := evictable_resident hit
  rwa [swept_pageTable] at this

/-- A resident page is hit within two rounds. -/
theorem exists_hit {i : Nat} (inside : h < s.numPages) (hi : i < s.numPages)
    (res : resident (s.pageTable i) = true) : ∃ k < 2 * s.numPages, Hit c s h k := by
  obtain ⟨k, lt, at_⟩ := exists_slot inside hi
  refine ⟨k + s.numPages, by omega, ?_⟩
  rw [hit_second_round inside (by omega), slot_add_self, at_]
  exact res

theorem no_hit (pos : 0 < s.numPages)
    (empty : ∀ i < s.numPages, resident (s.pageTable i) = false) : ¬ Hit c s h k := by
  intro hit
  have res := hit_resident hit
  rw [empty _ (slot_lt pos)] at res
  cases res

end Hits

/-! ## `ClearPage` -/

section ClearPage

variable {c : Config} {s : Vm} {h : Nat}

/-- **`ClearPage` pages out the first hit**, within two rounds of the hand. -/
theorem clearPage_eq (hand : s.clockHand = h) (inside : h < s.numPages)
    (some_ : ∃ i < s.numPages, resident (s.pageTable i) = true) :
    ∃ k < 2 * s.numPages, Hit c s h k ∧ (∀ j < k, ¬ Hit c s h j) ∧
      clearPage c s = pageOut (swept s h k) (slot h s.numPages k) := by
  obtain ⟨i, hi, res⟩ := some_
  obtain ⟨k₀, bound, hit₀⟩ := exists_hit (c := c) inside hi res
  have found : ∃ k, Hit c s h k := ⟨k₀, hit₀⟩
  have least := Nat.find_min' found hit₀
  have first : ∀ j < Nat.find found, ¬ Hit c s h j := fun j lt => Nat.find_min found lt
  refine ⟨Nat.find found, by omega, Nat.find_spec found, first, ?_⟩
  have run := clearPageLoop_hit (c := c) (s := s) (h := h) (by omega) (Nat.zero_le _)
    (show Nat.find found - 0 < 2 * s.numPages + 1 by omega) (Nat.find_spec found)
    (fun j _ lt => first j lt)
  rw [swept_zero hand inside] at run
  exact run

/-- **With no resident page the loop of `ClearPage` never exits**: no number of
turns is enough. -/
theorem loops_forever (hand : s.clockHand = h) (inside : h < s.numPages)
    (empty : ∀ i < s.numPages, resident (s.pageTable i) = false) (m : Nat) :
    clearPageLoop c m s = .error .loops := by
  have pos : 0 < s.numPages := by omega
  have := clearPageLoop_no_hit (c := c) (s := s) (h := h) pos (fun i => no_hit pos empty) m 0
  rwa [swept_zero hand inside] at this

theorem clearPage_loops (hand : s.clockHand = h) (inside : h < s.numPages)
    (empty : ∀ i < s.numPages, resident (s.pageTable i) = false) :
    clearPage c s = .error .loops :=
  loops_forever hand inside empty _

theorem clearPage_outOfBounds (outside : ¬ (0 ≤ s.clockHand ∧ s.clockHand < s.numPages)) :
    clearPage c s = .error .outOfBounds := by
  rw [clearPage, clearPageLoop, index, if_neg outside]
  rfl

end ClearPage

end Nachos.UserProg
