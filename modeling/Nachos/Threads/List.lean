/-
# Nachos.Threads.List -- `threads/list.cc`

The elements of a `List` from `first` to `last`, each with its key.  `SortedInsert` puts
an item before the first element with a larger key, so items of one key leave in the
order in which they came.
-/
import Mathlib.Data.List.Basic
import Mathlib.Tactic.Common

namespace Nachos.Threads

set_option autoImplicit false

/-- A `ListElement`, without its `next`. -/
structure ListElement (α : Type) where
  item : α
  key : Int
  deriving DecidableEq, Repr

section Elements

variable {α : Type}

/-- `List::Append`; the key is 0. -/
def append (l : List (ListElement α)) (item : α) : List (ListElement α) := l ++ [⟨item, 0⟩]

/-- `List::SortedInsert`. -/
def sortedInsert (item : α) (sortKey : Int) : List (ListElement α) → List (ListElement α)
  | [] => [⟨item, sortKey⟩]
  | e :: rest =>
      if sortKey < e.key then ⟨item, sortKey⟩ :: e :: rest
      else e :: sortedInsert item sortKey rest

/-- `List::Remove`: the item and the rest, `none` for `NULL`. -/
def remove : List (ListElement α) → Option (α × List (ListElement α))
  | [] => none
  | e :: rest => some (e.item, rest)

/-- The items, first to last. -/
def items (l : List (ListElement α)) : List α := l.map ListElement.item

variable {l : List (ListElement α)} {x y : α} {k : Int}

@[simp] theorem length_sortedInsert : (sortedInsert x k l).length = l.length + 1 := by
  induction l with
  | nil => rfl
  | cons e rest ih =>
      unfold sortedInsert
      split
      · rfl
      · simp [ih]

/-- An item goes between those with no larger key and the first with a larger one. -/
theorem sortedInsert_append {before after : List (ListElement α)}
    (notLess : ∀ e ∈ before, ¬ k < e.key) (less : ∀ e ∈ after.head?, k < e.key) :
    sortedInsert x k (before ++ after) = before ++ ⟨x, k⟩ :: after := by
  induction before with
  | nil =>
      cases after with
      | nil => rfl
      | cons e after => exact if_pos (less e rfl)
  | cons e before ih =>
      rw [List.cons_append, sortedInsert, if_neg (notLess e List.mem_cons_self),
        ih fun f there => notLess f (List.mem_cons_of_mem _ there)]
      rfl

/-- Inserting adds one item and loses none. -/
theorem sortedInsert_perm : (sortedInsert x k l).Perm (⟨x, k⟩ :: l) := by
  induction l with
  | nil => exact List.Perm.refl _
  | cons e rest ih =>
      unfold sortedInsert
      split
      · exact List.Perm.refl _
      · exact (ih.cons e).trans (List.Perm.swap _ e _)

theorem items_sortedInsert_perm : (items (sortedInsert x k l)).Perm (x :: items l) :=
  sortedInsert_perm.map ListElement.item

@[simp] theorem mem_items_sortedInsert : y ∈ items (sortedInsert x k l) ↔ y = x ∨ y ∈ items l := by
  rw [items_sortedInsert_perm.mem_iff, List.mem_cons]

/-- What is new in the list is the item that was inserted. -/
theorem filter_items_sortedInsert [DecidableEq α] (absent : x ∉ items l) :
    (items (sortedInsert x k l)).filter (· ∉ items l) = [x] := by
  rw [← List.perm_singleton]
  refine (items_sortedInsert_perm.filter _).trans (List.Perm.of_eq ?_)
  rw [List.filter_cons, if_pos (by simpa using absent)]
  exact congrArg _ (List.filter_eq_nil_iff.mpr fun y there => by simpa using there)

theorem remove_eq_none (removed : remove l = none) : l = [] := by
  cases l with
  | nil => rfl
  | cons e rest => cases removed

theorem remove_eq_some {rest : List (ListElement α)} (removed : remove l = some (x, rest)) :
    ∃ key, l = ⟨x, key⟩ :: rest := by
  cases l with
  | nil => cases removed
  | cons e rest' =>
      cases removed
      exact ⟨e.key, rfl⟩

end Elements

/-! ## The order in which items leave -/

section Order

variable {α : Type} {arrived l : List (ListElement α)} {x : α} {k : Int} {e : ListElement α}

/-- `l` has what has arrived, by key, and in the order of arrival within one key. -/
structure Arranged (arrived l : List (ListElement α)) : Prop where
  sorted : l.Pairwise fun e f => e.key ≤ f.key
  stable : ∀ k, l.filter (fun e => e.key = k) = arrived.filter fun e => e.key = k

/-- The first to arrive of those with the least key. -/
def firstLeast (arrived : List (ListElement α)) : Option (ListElement α) :=
  arrived.find? fun e => arrived.all fun f => e.key ≤ f.key

theorem arranged_nil : Arranged ([] : List (ListElement α)) [] := ⟨List.Pairwise.nil, fun _ => rfl⟩

theorem Arranged.mem (arranged : Arranged arrived l) : e ∈ l ↔ e ∈ arrived := by
  have here : ∀ l : List (ListElement α), e ∈ l ↔ e ∈ l.filter fun f => f.key = e.key := by simp
  rw [here l, arranged.stable, ← here arrived]

theorem Arranged.perm [DecidableEq α] (arranged : Arranged arrived l) : l.Perm arrived := by
  rw [List.perm_iff_count]
  intro e
  have here : ∀ l : List (ListElement α), l.count e = (l.filter fun f => f.key = e.key).count e :=
    fun l => (List.count_filter (by simp)).symm
  rw [here l, arranged.stable, ← here arrived]

theorem sorted_sortedInsert (sorted : l.Pairwise fun e f => e.key ≤ f.key) :
    (sortedInsert x k l).Pairwise fun e f => e.key ≤ f.key := by
  induction l with
  | nil => simp [sortedInsert]
  | cons e rest ih =>
      obtain ⟨least, sorted⟩ := List.pairwise_cons.mp sorted
      unfold sortedInsert
      split
      · rename_i less
        refine List.pairwise_cons.mpr ⟨fun f there => ?_, List.pairwise_cons.mpr ⟨least, sorted⟩⟩
        obtain rfl | there := List.mem_cons.mp there
        · exact Int.le_of_lt less
        · exact Int.le_trans (Int.le_of_lt less) (least f there)
      · rename_i more
        refine List.pairwise_cons.mpr ⟨fun f there => ?_, ih sorted⟩
        obtain rfl | there := List.mem_cons.mp (sortedInsert_perm.mem_iff.mp there)
        · exact Int.not_lt.mp more
        · exact least f there

/-- An item goes behind those that have its key. -/
theorem filter_sortedInsert (sorted : l.Pairwise fun e f => e.key ≤ f.key) (k' : Int) :
    (sortedInsert x k l).filter (fun e => e.key = k') =
      (l ++ [(⟨x, k⟩ : ListElement α)]).filter fun e => e.key = k' := by
  induction l with
  | nil => rfl
  | cons e rest ih =>
      obtain ⟨least, sorted⟩ := List.pairwise_cons.mp sorted
      unfold sortedInsert
      split
      · rename_i less
        -- nothing that follows has the key of the item
        have larger : k = k' → (e :: rest).filter (fun e => e.key = k') = [] := by
          rintro rfl
          refine List.filter_eq_nil_iff.mpr fun f there same => ?_
          have same : f.key = k := by simpa using same
          obtain rfl | there := List.mem_cons.mp there
          · omega
          · have := least f there
            omega
        rw [List.filter_append, List.filter_cons]
        by_cases same : k = k'
        · simp [same, larger same]
        · simp [same]
      · rw [List.filter_cons, ih sorted, List.cons_append, List.filter_cons]

theorem Arranged.insert (arranged : Arranged arrived l) (x : α) (k : Int) :
    Arranged (arrived ++ [⟨x, k⟩]) (sortedInsert x k l) := by
  refine ⟨sorted_sortedInsert arranged.sorted, fun k' => ?_⟩
  rw [filter_sortedInsert arranged.sorted, List.filter_append, List.filter_append, arranged.stable]

/-- What leaves first is the first to arrive of those with the least key. -/
theorem Arranged.first (arranged : Arranged arrived (e :: l)) : firstLeast arrived = some e := by
  obtain ⟨least, -⟩ := List.pairwise_cons.mp arranged.sorted
  have below : ∀ f ∈ arrived, e.key ≤ f.key := by
    intro f there
    obtain rfl | there := List.mem_cons.mp (arranged.mem.mpr there)
    · exact Int.le_refl _
    · exact least f there
  have here : e ∈ arrived := arranged.mem.mp List.mem_cons_self
  have same : ∀ f ∈ arrived, (arrived.all fun g => decide (f.key ≤ g.key)) =
      decide (f.key = e.key) := by
    intro f there
    rw [Bool.eq_iff_iff]
    simp only [List.all_eq_true, decide_eq_true_eq]
    constructor
    · intro all
      exact Int.le_antisymm (all e here) (below f there)
    · intro same g member
      rw [same]
      exact below g member
  rw [firstLeast, ← List.head?_filter, List.filter_congr same, ← arranged.stable e.key]
  simp

theorem Arranged.remove [DecidableEq α] (arranged : Arranged arrived (e :: l))
    (once : (items (e :: l)).Nodup) :
    Arranged (arrived.filter fun f => f.item ∈ items l) l := by
  obtain ⟨-, sorted⟩ := List.pairwise_cons.mp arranged.sorted
  refine ⟨sorted, fun k => ?_⟩
  have absent : e.item ∉ items l := (List.nodup_cons.mp once).1
  rw [List.filter_comm, ← arranged.stable k, List.filter_comm, List.filter_cons,
    if_neg (by simpa using absent)]
  refine congrArg _ (List.filter_eq_self.mpr fun f there => ?_).symm
  exact decide_eq_true (List.mem_map_of_mem there)

theorem Arranged.nil (arranged : Arranged arrived []) : arrived = [] :=
  List.eq_nil_iff_forall_not_mem.mpr fun _ there => List.not_mem_nil (arranged.mem.mpr there)

/-- The first has the least key, and all that came before it a larger one; it leaves the others
as they are arranged. -/
theorem Arranged.leave (arranged : Arranged arrived (e :: l)) :
    ∃ before after, arrived = before ++ e :: after ∧ (∀ f ∈ before, e.key < f.key) ∧
      (∀ f ∈ after, e.key ≤ f.key) ∧ Arranged (before ++ after) l := by
  obtain ⟨below, before, after, split, others⟩ := List.find?_eq_some_iff_append.mp arranged.first
  have below : ∀ f ∈ arrived, e.key ≤ f.key := fun f there =>
    of_decide_eq_true (List.all_eq_true.mp below f there)
  have larger : ∀ f ∈ before, e.key < f.key := by
    intro f there
    obtain ⟨g, member, less⟩ : ∃ g ∈ arrived, g.key < f.key := by simpa using others f there
    exact Int.lt_of_le_of_lt (below g member) less
  refine ⟨before, after, split, larger, fun f there => below f ?_,
    (List.pairwise_cons.mp arranged.sorted).2, fun k => ?_⟩
  · rw [split]
    exact List.mem_append_right _ (List.mem_cons_of_mem _ there)
  · have stable := arranged.stable k
    rw [split, List.filter_append, List.filter_cons, List.filter_cons] at stable
    rw [List.filter_append]
    by_cases its : e.key = k
    · -- nothing before it has its key
      have none_ : before.filter (fun f => f.key = k) = [] :=
        List.filter_eq_nil_iff.mpr fun f there same => by
          have same : f.key = k := of_decide_eq_true same
          have more := larger f there
          omega
      rw [if_pos (decide_eq_true its), if_pos (decide_eq_true its), none_] at stable
      rw [none_]
      exact (List.cons.inj stable).2
    · have other : ¬ decide (e.key = k) = true := by simpa using its
      rw [if_neg other, if_neg other] at stable
      exact stable

/-- Nothing has left. -/
theorem Arranged.filter_self [DecidableEq α] (arranged : Arranged arrived l) {s : List α}
    (there : ∀ x ∈ items l, x ∈ s) : arrived.filter (fun f => f.item ∈ s) = arrived := by
  refine List.filter_eq_self.mpr fun f member => ?_
  simpa using there f.item (List.mem_map_of_mem (arranged.mem.mpr member))

end Order

end Nachos.Threads
