/-
# Nachos.Lib.Slots -- a finite map in a table of slots

A table of `n` slots, each free or with a key and a value, `Tabulates` a finite map when its
slots have the entries of the map and no two of them have one key.  There is a free slot as
long as the map has fewer than `n` keys (`Tabulates.free_iff`), filling one inserts and
freeing one erases, in whatever order the slots come to be used.
-/
import Mathlib.Data.Finmap
import Mathlib.Data.Finset.Card

namespace Nachos.Lib.Slots

set_option autoImplicit false

universe u v

variable {K : Type u} {V : Type v} [DecidableEq K] {n i : Nat} {slots slots' : Nat → Option (K × V)}
  {m : Finmap fun _ : K => V} {k : K} {x : V}

structure Tabulates (n : Nat) (slots : Nat → Option (K × V)) (m : Finmap fun _ : K => V) :
    Prop where
  entries : ∀ k x, m.lookup k = some x ↔ ∃ i < n, slots i = some (k, x)
  unique : ∀ i < n, ∀ j < n, ∀ k x y, slots i = some (k, x) → slots j = some (k, y) → i = j

/-- The slots that are not free. -/
def used (n : Nat) (slots : Nat → Option (K × V)) : Finset Nat :=
  {i ∈ Finset.range n | (slots i).isSome}

theorem tabulates_empty (free : ∀ i < n, slots i = none) : Tabulates n slots ∅ := by
  refine ⟨?_, ?_⟩
  · intro k x
    rw [Finmap.lookup_empty]
    constructor
    · intro impossible
      cases impossible
    · rintro ⟨i, inside, here⟩
      rw [free i inside] at here
      cases here
  · intro i inside j _ k x y here
    rw [free i inside] at here
    cases here

namespace Tabulates

theorem congr (tabulates : Tabulates n slots m) (same : ∀ i < n, slots' i = slots i) :
    Tabulates n slots' m := by
  refine ⟨?_, ?_⟩
  · intro k x
    rw [tabulates.entries]
    constructor
    · rintro ⟨i, inside, here⟩
      exact ⟨i, inside, (same i inside).trans here⟩
    · rintro ⟨i, inside, here⟩
      exact ⟨i, inside, (same i inside).symm.trans here⟩
  · intro i inside j inside' k x y here there
    rw [same i inside] at here
    rw [same j inside'] at there
    exact tabulates.unique i inside j inside' k x y here there

theorem mem_iff (tabulates : Tabulates n slots m) :
    k ∈ m ↔ ∃ i < n, ∃ x, slots i = some (k, x) := by
  rw [Finmap.mem_iff]
  constructor
  · rintro ⟨x, found⟩
    obtain ⟨i, inside, here⟩ := (tabulates.entries k x).mp found
    exact ⟨i, inside, x, here⟩
  · rintro ⟨i, inside, x, here⟩
    exact ⟨x, (tabulates.entries k x).mpr ⟨i, inside, here⟩⟩

/-- The key in a slot is a key of the map, and there is one slot for each. -/
theorem image_used (tabulates : Tabulates n slots m) :
    (used n slots).image (fun i => (slots i).map Prod.fst) = m.keys.image some := by
  ext key
  rw [Finset.mem_image, Finset.mem_image]
  constructor
  · rintro ⟨i, isUsed, rfl⟩
    obtain ⟨inside, full⟩ := Finset.mem_filter.mp isUsed
    obtain ⟨⟨k, x⟩, here⟩ := Option.isSome_iff_exists.mp full
    refine ⟨k, ?_, by rw [here]; rfl⟩
    exact Finmap.mem_keys.mpr (tabulates.mem_iff.mpr ⟨i, Finset.mem_range.mp inside, x, here⟩)
  · rintro ⟨k, isKey, rfl⟩
    obtain ⟨i, inside, x, here⟩ := tabulates.mem_iff.mp (Finmap.mem_keys.mp isKey)
    refine ⟨i, ?_, by rw [here]; rfl⟩
    exact Finset.mem_filter.mpr
      ⟨Finset.mem_range.mpr inside, Option.isSome_iff_exists.mpr ⟨_, here⟩⟩

theorem injOn_used (tabulates : Tabulates n slots m) :
    Set.InjOn (fun i => (slots i).map Prod.fst) (used n slots : Set Nat) := by
  intro i isUsed j isUsed' same
  obtain ⟨inside, full⟩ := Finset.mem_filter.mp isUsed
  obtain ⟨inside', full'⟩ := Finset.mem_filter.mp isUsed'
  obtain ⟨⟨k, x⟩, here⟩ := Option.isSome_iff_exists.mp full
  obtain ⟨⟨k', y⟩, there⟩ := Option.isSome_iff_exists.mp full'
  simp only [here, there, Option.map_some, Option.some.injEq] at same
  subst same
  exact tabulates.unique i (Finset.mem_range.mp inside) j (Finset.mem_range.mp inside') k x y
    here there

/-- There are as many keys as slots in use. -/
theorem card_keys (tabulates : Tabulates n slots m) : m.keys.card = (used n slots).card := by
  calc m.keys.card = (m.keys.image some).card :=
        (Finset.card_image_of_injective _ (Option.some_injective K)).symm
    _ = ((used n slots).image fun i => (slots i).map Prod.fst).card := by
        rw [tabulates.image_used]
    _ = (used n slots).card := Finset.card_image_of_injOn tabulates.injOn_used

/-- There is a free slot exactly as long as the map has fewer keys than there are slots. -/
theorem free_iff (tabulates : Tabulates n slots m) :
    m.keys.card < n ↔ ∃ i < n, slots i = none := by
  rw [tabulates.card_keys]
  constructor
  · intro room
    by_contra full
    have all : used n slots = Finset.range n := by
      refine Finset.filter_true_of_mem fun i inside => ?_
      rw [← Option.not_isNone, Bool.not_eq_true', ← Bool.not_eq_true, Option.isNone_iff_eq_none]
      exact fun free => full ⟨i, Finset.mem_range.mp inside, free⟩
    rw [all, Finset.card_range] at room
    exact Nat.lt_irrefl n room
  · rintro ⟨i, inside, free⟩
    have fewer : used n slots ⊂ Finset.range n := by
      refine Finset.filter_ssubset.mpr ⟨i, Finset.mem_range.mpr inside, ?_⟩
      rw [free]
      exact Bool.false_ne_true
    exact (Finset.card_lt_card fewer).trans_eq (Finset.card_range n)

/-- A free slot is filled. -/
theorem insert (tabulates : Tabulates n slots m) (inside : i < n) (free : slots i = none)
    (absent : k ∉ m) (filled : slots' i = some (k, x)) (others : ∀ j, j ≠ i → slots' j = slots j) :
    Tabulates n slots' (m.insert k x) := by
  have old : ∀ j k' y, slots j = some (k', y) → slots' j = some (k', y) := by
    intro j k' y there
    by_cases same : j = i
    · rw [same, free] at there
      cases there
    · rw [others j same, there]
  have before : ∀ j k' y, k' ≠ k → slots' j = some (k', y) → slots j = some (k', y) := by
    intro j k' y differ there
    rw [← others j, there]
    rintro rfl
    rw [filled] at there
    exact differ (Prod.mk.inj (Option.some.inj there)).1.symm
  have other : ∀ j < n, ∀ y, slots' j = some (k, y) → j = i := by
    intro j inside' y there
    by_contra differ
    rw [others j differ] at there
    exact absent (tabulates.mem_iff.mpr ⟨j, inside', y, there⟩)
  refine ⟨?_, ?_⟩
  · intro k' y
    by_cases same : k' = k
    · subst same
      rw [Finmap.lookup_insert]
      constructor
      · rintro ⟨⟩
        exact ⟨i, inside, filled⟩
      · rintro ⟨j, inside', there⟩
        rw [other j inside' y there, filled] at there
        exact congrArg some (Prod.mk.inj (Option.some.inj there)).2
    · rw [Finmap.lookup_insert_of_ne _ same, tabulates.entries]
      constructor
      · rintro ⟨j, inside', there⟩
        exact ⟨j, inside', old j k' y there⟩
      · rintro ⟨j, inside', there⟩
        exact ⟨j, inside', before j k' y same there⟩
  · intro j inside' j' inside'' k' y y' here there
    by_cases same : k' = k
    · subst same
      rw [other j inside' y here, other j' inside'' y' there]
    · exact tabulates.unique j inside' j' inside'' k' y y' (before j k' y same here)
        (before j' k' y' same there)

/-- A slot is freed. -/
theorem erase (tabulates : Tabulates n slots m) (inside : i < n) (here : slots i = some (k, x))
    (freed : slots' i = none) (others : ∀ j, j ≠ i → slots' j = slots j) :
    Tabulates n slots' (m.erase k) := by
  have old : ∀ j k' y, slots' j = some (k', y) → j ≠ i ∧ slots j = some (k', y) := by
    intro j k' y there
    have differ : j ≠ i := by
      rintro rfl
      rw [freed] at there
      cases there
    exact ⟨differ, others j differ ▸ there⟩
  refine ⟨?_, ?_⟩
  · intro k' y
    by_cases same : k' = k
    · subst same
      rw [Finmap.lookup_erase]
      constructor
      · intro impossible
        cases impossible
      · rintro ⟨j, inside', there⟩
        obtain ⟨differ, before⟩ := old j k' y there
        exact absurd (tabulates.unique j inside' i inside k' y x before here) differ
    · rw [Finmap.lookup_erase_ne same, tabulates.entries]
      constructor
      · rintro ⟨j, inside', there⟩
        refine ⟨j, inside', (others j ?_).trans there⟩
        rintro rfl
        rw [here] at there
        exact same (Prod.mk.inj (Option.some.inj there)).1.symm
      · rintro ⟨j, inside', there⟩
        exact ⟨j, inside', (old j k' y there).2⟩
  · intro j inside' j' inside'' k' y y' first second
    exact tabulates.unique j inside' j' inside'' k' y y' (old j k' y first).2
      (old j' k' y' second).2

end Tabulates

end Nachos.Lib.Slots
