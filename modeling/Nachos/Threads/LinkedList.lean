/-
# Nachos.Threads.LinkedList -- the cells of `threads/list.cc`

`class List` with its cells in the heap, each with its `next`, and with `first` and `last`.  What
the routines do to the cells is here; what they do to the elements is `Nachos.Threads.List`.

`LinkedList.Holds` ties the two: `first` begins a chain of cells whose values are the elements,
and `last` is the last of them.  Every call keeps it (`Holds.call`), wherever in the chain the new
cell goes, and so after any run the cells are a chain with the items that have come and not left
(`list_is_stable_queue`).  With `SortedInsert` alone to put items in, it is the queue of
`Queued`: the first to come of those with the least key leaves.
-/
import Nachos.Outcome
import Nachos.Lib.Chain
import Nachos.Threads.List
import Mathlib.Data.Finmap

namespace Nachos.Threads

open Nachos.Lib.Chain

set_option autoImplicit false

/-- A `ListElement` in the heap; a pointer is an address or `NULL`, `none`. -/
structure Cell (α : Type) extends ListElement α where
  next : Option Nat

/-- A `List`, and the heap with its cells and with those of others. -/
structure LinkedList (α : Type) where
  heap : Finmap fun _ : Nat => Cell α
  first : Option Nat
  last : Option Nat

namespace LinkedList

section Routines

variable {α : Type}

/-- The cell a pointer is to. -/
def deref (l : LinkedList α) : Option Nat → Except Stop (Nat × Cell α)
  | none => throw .hostFault
  | some a =>
      match l.heap.lookup a with
      | none => throw .dangling
      | some c => return (a, c)

def store (l : LinkedList α) (a : Nat) (c : Cell α) : LinkedList α :=
  { l with heap := l.heap.insert a c }

/-- `ptr->next = next`. -/
def setNext (l : LinkedList α) (ptr next : Option Nat) : Except Stop (LinkedList α) := do
  let (a, c) ← l.deref ptr
  return l.store a { c with next }

/-- `new ListElement(item, sortKey)`, at the address the allocator returns. -/
def new (l : LinkedList α) (element : Nat) (item : α) (sortKey : Int) : LinkedList α :=
  l.store element ⟨⟨item, sortKey⟩, none⟩

/-- `List::List`. -/
def create (heap : Finmap fun _ : Nat => Cell α) : LinkedList α := ⟨heap, none, none⟩

/-- `List::IsEmpty`. -/
def isEmpty (l : LinkedList α) : Bool := l.first == none

/-- `List::Append`. -/
def append (l : LinkedList α) (element : Nat) (item : α) : Except Stop (LinkedList α) := do
  let l := l.new element item 0
  if l.isEmpty then return { l with first := some element, last := some element }
  else
    let l ← l.setNext l.last (some element)
    return { l with last := some element }

/-- `List::Prepend`. -/
def prepend (l : LinkedList α) (element : Nat) (item : α) : Except Stop (LinkedList α) := do
  let l := l.new element item 0
  if l.isEmpty then return { l with first := some element, last := some element }
  else
    let l ← l.setNext (some element) l.first
    return { l with first := some element }

/-- The loop of `List::SortedInsert`, from `ptr` on; `none` if it runs to the end.  A walk through
more cells than there are never ends. -/
def insertFrom (l : LinkedList α) (element : Nat) (sortKey : Int) :
    Nat → Option Nat → Except Stop (Option (LinkedList α))
  | 0, _ => throw .loops
  | fuel + 1, ptr => do
      let (_, c) ← l.deref ptr
      if c.next = none then return none
      else
        let (_, d) ← l.deref c.next
        if sortKey < d.key then
          let l ← l.setNext (some element) c.next
          return some (← l.setNext ptr (some element))
        else insertFrom l element sortKey fuel c.next

/-- `List::SortedInsert`. -/
def sortedInsert (l : LinkedList α) (element : Nat) (item : α) (sortKey : Int) :
    Except Stop (LinkedList α) := do
  let l := l.new element item sortKey
  if l.isEmpty then return { l with first := some element, last := some element }
  else
    let (_, head) ← l.deref l.first
    if sortKey < head.key then
      let l ← l.setNext (some element) l.first
      return { l with first := some element }
    else
      match ← l.insertFrom element sortKey l.heap.keys.card l.first with
      | some l => return l
      | none =>
          let l ← l.setNext l.last (some element)
          return { l with last := some element }

/-- `List::SortedRemove`: the item and its key, `none` for `NULL`. -/
def sortedRemove (l : LinkedList α) : Except Stop (Option (α × Int) × LinkedList α) := do
  if l.isEmpty then return (none, l)
  else
    let (element, c) ← l.deref l.first
    let l :=
      if l.first = l.last then { l with first := none, last := none }
      else { l with first := c.next }
    return (some (c.item, c.key), { l with heap := l.heap.erase element })

/-- `List::Remove`. -/
def remove (l : LinkedList α) : Except Stop (Option α × LinkedList α) := do
  let (thing, l) ← l.sortedRemove
  return (thing.map Prod.fst, l)

/-- A call; one that makes a cell, with the address of the cell. -/
inductive Call (α : Type) where
  | append (element : Nat) (item : α)
  | prepend (element : Nat) (item : α)
  | sortedInsert (element : Nat) (item : α) (sortKey : Int)
  | remove
  | sortedRemove

inductive Response (α : Type) where
  | done
  | thing (item : Option α)
  | keyed (item : Option (α × Int))

def call (l : LinkedList α) : Call α → Except Stop (Response α × LinkedList α)
  | .append element item => do return (.done, ← l.append element item)
  | .prepend element item => do return (.done, ← l.prepend element item)
  | .sortedInsert element item sortKey => do return (.done, ← l.sortedInsert element item sortKey)
  | .remove => do
      let (item, l) ← l.remove
      return (.thing item, l)
  | .sortedRemove => do
      let (item, l) ← l.sortedRemove
      return (.keyed item, l)

/-- The address a call is given for its cell. -/
def Call.element : Call α → Option Nat
  | .append element _ | .prepend element _ | .sortedInsert element _ _ => some element
  | .remove | .sortedRemove => none

/-- The allocator returns an address that is not in use. -/
def Fresh (l : LinkedList α) (c : Call α) : Prop := ∀ a ∈ c.element, a ∉ l.heap

/-- The cells, as values and pointers. -/
def cells (l : LinkedList α) (a : Nat) : Option (ListElement α × Option Nat) :=
  (l.heap.lookup a).map fun c => (c.toListElement, c.next)

/-- The calls of a run from the constructor on, each with its answer, and the list after them.
Between the calls, others may use the rest of the heap. -/
inductive Ran : List (Call α × Response α) → LinkedList α → Prop where
  | create (heap : Finmap fun _ : Nat => Cell α) : Ran [] (create heap)
  | call {trace : List (Call α × Response α)} {l l' : LinkedList α} {c : Call α} {r : Response α}
      (ran : Ran trace l) (fresh : Fresh l c) (called : l.call c = .ok (r, l')) :
      Ran (trace ++ [(c, r)]) l'
  | others {trace : List (Call α × Response α)} {l : LinkedList α}
      {heap : Finmap fun _ : Nat => Cell α} (ran : Ran trace l)
      (apart : ∀ a, Reach l.cells l.first a → heap.lookup a = l.heap.lookup a) :
      Ran trace { l with heap }

end Routines

/-! ## The chain of the cells -/

section Chain

variable {α : Type} {l l' : LinkedList α} {chain before rest : List (Nat × ListElement α)}
  {e y : ListElement α} {item : α} {sortKey : Int} {m q : Option Nat} {a b : Nat}

/-- The elements of a chain, `first` to `last`. -/
def elements (chain : List (Nat × ListElement α)) : List (ListElement α) := chain.map Prod.snd

/-- `first` begins the chain, and `last` is its last cell. -/
structure Holds (l : LinkedList α) (chain : List (Nat × ListElement α)) : Prop where
  linked : Segment l.cells l.first chain none
  last : l.last = (addresses chain).getLast?

theorem lookup_of_cells (cell : l.cells a = some (e, m)) : l.heap.lookup a = some ⟨e, m⟩ := by
  obtain ⟨c, found, same⟩ := Option.map_eq_some_iff.mp cell
  cases same
  exact found

theorem deref_some (cell : l.cells a = some (e, m)) : l.deref (some a) = .ok (a, ⟨e, m⟩) := by
  rw [deref, lookup_of_cells cell]
  rfl

theorem setNext_some (cell : l.cells a = some (e, m)) :
    l.setNext (some a) q = .ok (l.store a ⟨e, q⟩) := bind_of_ok (deref_some cell)

@[simp] theorem cells_store (l : LinkedList α) (a : Nat) (c : Cell α) :
    (l.store a c).cells a = some (c.toListElement, c.next) := by
  rw [cells, store, Finmap.lookup_insert, Option.map_some]

theorem cells_store_of_ne (l : LinkedList α) (c : Cell α) (other : b ≠ a) :
    (l.store a c).cells b = l.cells b := by
  rw [cells, store, Finmap.lookup_insert_of_ne _ other, cells]

/-- `SortedRemove` of a list that is not empty. -/
theorem sortedRemove_first (first : l.first = some b) (linked : l.cells b = some (y, m)) :
    l.sortedRemove = .ok (some (y.item, y.key),
      if some b = l.last then ⟨l.heap.erase b, none, none⟩ else ⟨l.heap.erase b, m, l.last⟩) := by
  have some_ : ¬ l.isEmpty = true := by
    rw [isEmpty, first]
    exact Bool.false_ne_true
  rw [sortedRemove, if_neg some_, first, deref_some linked, ok_bind]
  by_cases one : some b = l.last
  · simp only [if_pos one]
    rfl
  · simp only [if_neg one]
    rfl

/-- Storing what is there. -/
theorem store_self (cell : l.cells a = some (e, m)) : l.store a ⟨e, m⟩ = l := by
  have heap : l.heap.insert a ⟨e, m⟩ = l.heap := by
    refine Finmap.ext_lookup fun b => ?_
    by_cases same : b = a
    · rw [same, Finmap.lookup_insert, lookup_of_cells cell]
    · exact Finmap.lookup_insert_of_ne _ same
  rw [store, heap]

namespace Holds

theorem mem_heap (holds : Holds l chain) (there : a ∈ addresses chain) : a ∈ l.heap := by
  obtain ⟨cell, member, rfl⟩ := List.mem_map.mp there
  obtain ⟨m, found⟩ := holds.linked.lookup member
  exact Finmap.mem_iff.mpr ⟨_, lookup_of_cells found⟩

/-- There are no more cells in the chain than in the heap. -/
theorem length_le (holds : Holds l chain) : chain.length ≤ l.heap.keys.card := by
  have distinct := holds.linked.nodup
  calc
    chain.length = (addresses chain).toFinset.card := by
      rw [List.toFinset_card_of_nodup distinct, addresses, List.length_map]
    _ ≤ l.heap.keys.card := by
      refine Finset.card_le_card fun a there => Finmap.mem_keys.mpr ?_
      exact holds.mem_heap (List.mem_toFinset.mp there)

theorem isEmpty_iff (holds : Holds l chain) : l.isEmpty = true ↔ chain = [] := by
  rw [isEmpty, beq_iff_eq, holds.linked.nil_iff]

/-- A new cell leaves the chain as it is. -/
theorem new (holds : Holds l chain) (fresh : a ∉ l.heap) (item : α) (sortKey : Int) :
    Holds (l.new a item sortKey) chain ∧ a ∉ addresses chain ∧
      (l.new a item sortKey).cells a = some (⟨item, sortKey⟩, none) := by
  refine ⟨⟨holds.linked.congr fun b there => ?_, holds.last⟩, fun there => ?_, cells_store l a _⟩
  · refine cells_store_of_ne l _ fun same => ?_
    exact fresh (same ▸ holds.mem_heap there)
  · exact fresh (holds.mem_heap there)

/-! ### Where a new cell can go -/

theorem only (new : l.cells a = some (e, none)) :
    Holds { l with first := some a, last := some a } [(a, e)] := by
  have linked : Segment l.cells none [] none := rfl
  exact ⟨linked.cons new fun _ _ => rfl, rfl⟩

theorem atFront (holds : Holds l chain) (absent : a ∉ addresses chain)
    (new : l.cells a = some (e, none)) (some_ : chain ≠ []) :
    ∃ l', l.setNext (some a) l.first = .ok l' ∧ Holds { l' with first := some a }
      ((a, e) :: chain) := by
  refine ⟨_, setNext_some new, holds.linked.cons (cells_store l a _) fun b there => ?_, ?_⟩
  · refine cells_store_of_ne l _ fun same => ?_
    exact absent (same ▸ there)
  · show l.last = _
    rw [holds.last, addresses, addresses, List.map_cons, List.getLast?_cons]
    cases chain with
    | nil => exact absurd rfl some_
    | cons cell chain => rfl

/-- Behind another cell, which `last` need not be. -/
theorem behind (holds : Holds l (before ++ (b, y) :: rest)) (linked : l.cells b = some (y, m))
    (absent : a ∉ addresses (before ++ (b, y) :: rest)) :
    Segment ((l.store a ⟨e, m⟩).store b ⟨y, some a⟩).cells l.first
      (before ++ (b, y) :: (a, e) :: rest) none := by
  have there : b ∈ addresses (before ++ (b, y) :: rest) :=
    mem_addresses (List.mem_append_right _ List.mem_cons_self)
  have other : ∀ c ∈ addresses (before ++ (b, y) :: rest), c ≠ a := fun c there same =>
    absent (same ▸ there)
  refine holds.linked.insertAfter linked ?_ (cells_store _ b _) fun c there notThis => ?_
  · rw [cells_store_of_ne _ _ (other b there).symm, cells_store]
  · rw [cells_store_of_ne _ _ notThis, cells_store_of_ne _ _ (other c there)]

theorem between (holds : Holds l (before ++ (b, y) :: rest)) (linked : l.cells b = some (y, m))
    (absent : a ∉ addresses (before ++ (b, y) :: rest)) (new : l.cells a = some (e, none))
    (some_ : rest ≠ []) :
    ∃ l₁ l₂, l.setNext (some a) m = .ok l₁ ∧ l₁.setNext (some b) (some a) = .ok l₂ ∧
      Holds l₂ (before ++ (b, y) :: (a, e) :: rest) := by
  have other : b ≠ a := fun same =>
    absent (same ▸ mem_addresses (List.mem_append_right _ List.mem_cons_self))
  refine ⟨_, _, setNext_some new, setNext_some ((cells_store_of_ne l _ other).trans linked),
    holds.behind linked absent, ?_⟩
  show l.last = _
  rw [holds.last]
  cases rest with
  | nil => exact absurd rfl some_
  | cons cell rest => simp [addresses, List.getLast?_append, List.getLast?_cons]

theorem atEnd (holds : Holds l chain) (absent : a ∉ addresses chain)
    (new : l.cells a = some (e, none)) (some_ : chain ≠ []) :
    ∃ l', l.setNext l.last (some a) = .ok l' ∧ Holds { l' with last := some a }
      (chain ++ [(a, e)]) := by
  obtain ⟨before, ⟨b, y⟩, rfl⟩ := (List.eq_nil_or_concat' chain).resolve_left some_
  have last : l.last = some b := by
    rw [holds.last, addresses, List.map_append]
    exact List.getLast?_concat
  obtain ⟨_, -, -, m, linked, ended⟩ := segment_append.mp holds.linked
  cases ended
  have segment := holds.behind (e := e) linked absent
  rw [store_self new] at segment
  rw [List.append_assoc]
  refine ⟨_, last ▸ setNext_some linked, segment, ?_⟩
  simp [addresses, List.getLast?_append, List.getLast?_cons]

/-! ### The routines -/

theorem append (holds : Holds l chain) (fresh : a ∉ l.heap) (item : α) :
    ∃ l', l.append a item = .ok l' ∧ Holds l' (chain ++ [(a, ⟨item, 0⟩)]) := by
  obtain ⟨holds₁, absent, new⟩ := holds.new fresh item 0
  by_cases empty : chain = []
  · subst empty
    refine ⟨_, ?_, only new⟩
    rw [LinkedList.append, holds₁.isEmpty_iff.mpr rfl]
    rfl
  · obtain ⟨l', ran, holds'⟩ := holds₁.atEnd absent new empty
    refine ⟨_, ?_, holds'⟩
    rw [LinkedList.append, if_neg (mt holds₁.isEmpty_iff.mp empty), ran]
    rfl

theorem prepend (holds : Holds l chain) (fresh : a ∉ l.heap) (item : α) :
    ∃ l', l.prepend a item = .ok l' ∧ Holds l' ((a, ⟨item, 0⟩) :: chain) := by
  obtain ⟨holds₁, absent, new⟩ := holds.new fresh item 0
  by_cases empty : chain = []
  · subst empty
    refine ⟨_, ?_, only new⟩
    rw [LinkedList.prepend, holds₁.isEmpty_iff.mpr rfl]
    rfl
  · obtain ⟨l', ran, holds'⟩ := holds₁.atFront absent new empty
    refine ⟨_, ?_, holds'⟩
    rw [LinkedList.prepend, if_neg (mt holds₁.isEmpty_iff.mp empty), ran]
    rfl

/-- The loop of `SortedInsert`, at a cell that the item does not go before. -/
theorem insertFrom (holds : Holds l (before ++ (b, y) :: rest))
    (absent : a ∉ addresses (before ++ (b, y) :: rest))
    (new : l.cells a = some (⟨item, sortKey⟩, none))
    (notLess : ∀ cell ∈ before ++ [(b, y)], ¬ sortKey < cell.2.key) {fuel : Nat}
    (enough : rest.length < fuel) :
    (l.insertFrom a sortKey fuel (some b) = .ok none ∧ ∀ cell ∈ rest, ¬ sortKey < cell.2.key) ∨
    ∃ l' chain' after, before ++ (b, y) :: rest = chain' ++ after ∧
      l.insertFrom a sortKey fuel (some b) = .ok (some l') ∧
      Holds l' (chain' ++ (a, ⟨item, sortKey⟩) :: after) ∧
      (∀ cell ∈ chain', ¬ sortKey < cell.2.key) ∧ ∀ cell ∈ after.head?, sortKey < cell.2.key := by
  -- on the cells still to come; nothing is changed before the place is found
  induction rest generalizing before b y fuel with
  | nil =>
      obtain ⟨_, -, -, m, linked, ended⟩ := segment_append.mp holds.linked
      cases ended
      obtain ⟨fuel, rfl⟩ := Nat.exists_eq_succ_of_ne_zero (Nat.ne_of_gt enough)
      refine .inl ⟨?_, fun cell there => absurd there List.not_mem_nil⟩
      rw [LinkedList.insertFrom, deref_some linked]
      rfl
  | cons cell rest ih =>
      obtain ⟨b', y'⟩ := cell
      obtain ⟨_, -, -, m, linked, rfl, m', linked', -⟩ := segment_append.mp holds.linked
      obtain ⟨fuel, rfl⟩ := Nat.exists_eq_succ_of_ne_zero (Nat.ne_of_gt (Nat.zero_lt_of_lt enough))
      rw [LinkedList.insertFrom, deref_some linked, ok_bind]
      simp only [deref_some linked', ok_bind, if_neg (Option.some_ne_none b')]
      by_cases less : sortKey < y'.key
      · obtain ⟨l₁, l₂, first, second, holds'⟩ :=
          holds.between linked absent new (List.cons_ne_nil _ _)
        refine .inr ⟨l₂, before ++ [(b, y)], (b', y') :: rest, by simp, ?_, by simpa using holds',
          notLess, fun cell there => ?_⟩
        · simp only [if_pos less, first, second, ok_bind]
          rfl
        · cases there
          exact less
      · simp only [if_neg less]
        have shift : before ++ (b, y) :: (b', y') :: rest =
            (before ++ [(b, y)]) ++ (b', y') :: rest := by simp
        rw [shift] at holds absent ⊢
        have notLess' : ∀ cell ∈ (before ++ [(b, y)]) ++ [(b', y')], ¬ sortKey < cell.2.key := by
          intro cell there
          obtain there | there := List.mem_append.mp there
          · exact notLess cell there
          · cases List.mem_singleton.mp there
            exact less
        obtain ⟨ended, all⟩ | found := ih holds absent notLess' (Nat.lt_of_succ_lt_succ enough)
        · refine .inl ⟨ended, fun cell there => ?_⟩
          obtain rfl | there := List.mem_cons.mp there
          · exact less
          · exact all cell there
        · exact .inr found

theorem elements_between (before after : List (Nat × ListElement α)) (a : Nat)
    (notLess : ∀ cell ∈ before, ¬ sortKey < cell.2.key)
    (less : ∀ cell ∈ after.head?, sortKey < cell.2.key) :
    elements (before ++ (a, ⟨item, sortKey⟩) :: after) =
      Threads.sortedInsert item sortKey (elements (before ++ after)) := by
  rw [elements, elements, List.map_append, List.map_append, List.map_cons]
  refine (sortedInsert_append ?_ ?_).symm
  · rw [List.forall_mem_map]
    exact notLess
  · intro e there
    rw [List.head?_map] at there
    obtain ⟨cell, first, rfl⟩ := Option.map_eq_some_iff.mp there
    exact less cell first

/-- `SortedInsert` puts the item where the list of the elements has it. -/
theorem sortedInsert (holds : Holds l chain) (fresh : a ∉ l.heap) (item : α) (sortKey : Int) :
    ∃ l' chain', l.sortedInsert a item sortKey = .ok l' ∧ Holds l' chain' ∧
      elements chain' = Threads.sortedInsert item sortKey (elements chain) := by
  obtain ⟨holds₁, absent, new⟩ := holds.new fresh item sortKey
  cases chain with
  | nil =>
      refine ⟨_, _, ?_, only new, rfl⟩
      rw [LinkedList.sortedInsert, holds₁.isEmpty_iff.mpr rfl]
      rfl
  | cons cell chain =>
      obtain ⟨b, y⟩ := cell
      have some_ := mt holds₁.isEmpty_iff.mp (List.cons_ne_nil _ _)
      obtain ⟨first, m, linked, -⟩ := holds₁.linked
      rw [LinkedList.sortedInsert, if_neg some_, first, deref_some linked, ok_bind]
      dsimp only
      by_cases less : sortKey < y.key
      · obtain ⟨l', ran, holds'⟩ := holds₁.atFront absent new (List.cons_ne_nil _ _)
        rw [first] at ran
        refine ⟨_, _, ?_, holds', (if_pos less).symm⟩
        rw [if_pos less, ran]
        rfl
      · have notLess : ∀ cell ∈ [] ++ [(b, y)], ¬ sortKey < cell.2.key := by
          intro cell there
          cases List.mem_singleton.mp there
          exact less
        rw [if_neg less]
        obtain ⟨ended, all⟩ | ⟨l', before, after, split, found, holds', notLess', less'⟩ :=
          holds₁.insertFrom absent new notLess holds₁.length_le
        · obtain ⟨l', ran, holds'⟩ := holds₁.atEnd absent new (List.cons_ne_nil _ _)
          refine ⟨_, _, ?_, holds', ?_⟩
          · rw [ended, ok_bind, ran]
            rfl
          · rw [elements_between _ [] a ?_ (fun cell there => by cases there), List.append_nil]
            intro cell there
            obtain rfl | there := List.mem_cons.mp there
            · exact less
            · exact all cell there
        · refine ⟨l', _, ?_, holds', ?_⟩
          · rw [found]
            rfl
          · rw [elements_between before after a notLess' less', ← split]
            rfl

/-- The routines that remove take the first cell and delete it. -/
theorem sortedRemove (holds : Holds l chain) :
    ∃ l', l.sortedRemove = .ok ((elements chain).head?.map fun e => (e.item, e.key), l') ∧
      Holds l' chain.tail := by
  cases chain with
  | nil =>
      refine ⟨l, ?_, holds⟩
      rw [LinkedList.sortedRemove, holds.isEmpty_iff.mpr rfl]
      rfl
  | cons cell chain =>
      obtain ⟨b, y⟩ := cell
      obtain ⟨first, m, linked, onward⟩ := holds.linked
      obtain ⟨absent, -⟩ := List.nodup_cons.mp holds.linked.nodup
      have removed := sortedRemove_first first linked
      by_cases one : some b = l.last
      · -- the last cell, and so the only one
        have empty : chain = [] := by
          rw [holds.last] at one
          cases chain with
          | nil => rfl
          | cons cell chain =>
              exact absurd (List.mem_of_getLast? (one.trans List.getLast?_cons_cons).symm) absent
        subst empty
        rw [if_pos one] at removed
        exact ⟨_, removed, rfl, rfl⟩
      · rw [if_neg one] at removed
        refine ⟨_, removed, onward.congr fun c there => ?_, ?_⟩
        · exact congrArg (Option.map _) (Finmap.lookup_erase_ne fun same => absent (same ▸ there))
        · rw [holds.last] at one ⊢
          cases chain with
          | nil => exact absurd rfl one
          | cons cell chain => rfl

end Holds

end Chain

/-! ## Runs -/

section Runs

variable {α : Type} {trace : List (Call α × Response α)} {l : LinkedList α}
  {chain : List (Nat × ListElement α)} {es : List (ListElement α)}

/-- What a call does to the elements, and its answer. -/
def Call.onElements (es : List (ListElement α)) : Call α → Response α × List (ListElement α)
  | .append _ item => (.done, Threads.append es item)
  | .prepend _ item => (.done, ⟨item, 0⟩ :: es)
  | .sortedInsert _ item sortKey => (.done, Threads.sortedInsert item sortKey es)
  | .remove => (.thing ((Threads.remove es).map Prod.fst), es.tail)
  | .sortedRemove => (.keyed (es.head?.map fun e => (e.item, e.key)), es.tail)

/-- The calls, answered as on the elements, which are `es` after them. -/
inductive Answered : List (Call α × Response α) → List (ListElement α) → Prop where
  | nil : Answered [] []
  | call {trace : List (Call α × Response α)} {es : List (ListElement α)} (c : Call α)
      (answered : Answered trace es) :
        Answered (trace ++ [(c, (c.onElements es).1)]) (c.onElements es).2

theorem remove_eq (es : List (ListElement α)) :
    (Threads.remove es).map Prod.fst = (es.head?.map fun e => (e.item, e.key)).map Prod.fst := by
  cases es <;> rfl

theorem elements_tail (chain : List (Nat × ListElement α)) :
    elements chain.tail = (elements chain).tail := by
  cases chain <;> rfl

/-- **One call** does to the cells what it does to the elements. -/
theorem Holds.call (holds : Holds l chain) {c : Call α} (fresh : Fresh l c) :
    ∃ l' chain', l.call c = .ok ((c.onElements (elements chain)).1, l') ∧ Holds l' chain' ∧
      elements chain' = (c.onElements (elements chain)).2 := by
  cases c with
  | append element item =>
      obtain ⟨l', ran, holds'⟩ := holds.append (fresh element rfl) item
      exact ⟨l', _, bind_of_ok ran, holds', List.map_append⟩
  | prepend element item =>
      obtain ⟨l', ran, holds'⟩ := holds.prepend (fresh element rfl) item
      exact ⟨l', _, bind_of_ok ran, holds', rfl⟩
  | sortedInsert element item sortKey =>
      obtain ⟨l', chain', ran, holds', same⟩ :=
        holds.sortedInsert (fresh element rfl) item sortKey
      exact ⟨l', chain', bind_of_ok ran, holds', same⟩
  | remove =>
      obtain ⟨l', ran, holds'⟩ := holds.sortedRemove
      refine ⟨l', _, ?_, holds', elements_tail chain⟩
      rw [LinkedList.call, LinkedList.remove, ran, Call.onElements, remove_eq]
      rfl
  | sortedRemove =>
      obtain ⟨l', ran, holds'⟩ := holds.sortedRemove
      exact ⟨l', _, bind_of_ok ran, holds', elements_tail chain⟩

theorem Holds.others (holds : Holds l chain) {heap : Finmap fun _ : Nat => Cell α}
    (apart : ∀ a, Reach l.cells l.first a → heap.lookup a = l.heap.lookup a) :
    Holds { l with heap } chain := by
  refine ⟨holds.linked.congr fun a there => ?_, holds.last⟩
  exact congrArg (Option.map _) (apart a (holds.linked.reach_iff.mpr there))

/-- **After a run** the cells are a chain of the elements, and the calls have been answered so. -/
theorem Ran.holds (ran : Ran trace l) :
    ∃ chain, Holds l chain ∧ Answered trace (elements chain) := by
  induction ran with
  | create heap => exact ⟨[], ⟨rfl, rfl⟩, .nil⟩
  | call _ fresh called ih =>
      obtain ⟨chain, holds, answered⟩ := ih
      obtain ⟨l', chain', ran, holds', same⟩ := holds.call fresh
      cases called.symm.trans ran
      exact ⟨chain', holds', same ▸ .call _ answered⟩
  | others _ apart ih =>
      obtain ⟨chain, holds, answered⟩ := ih
      exact ⟨chain, holds.others apart, answered⟩

/-! ### No item is lost or doubled -/

def Call.inserted : Call α → Option α
  | .append _ item | .prepend _ item | .sortedInsert _ item _ => some item
  | .remove | .sortedRemove => none

def Response.taken : Response α → Option α
  | .done => none
  | .thing item => item
  | .keyed item => item.map Prod.fst

/-- The items that have come, in order. -/
def inserted (trace : List (Call α × Response α)) : List α :=
  trace.filterMap fun entry => entry.1.inserted

/-- The items that have left, in order. -/
def taken (trace : List (Call α × Response α)) : List α := trace.filterMap fun entry =>
    entry.2.taken

theorem onElements_perm (c : Call α) (es : List (ListElement α)) :
    ((c.onElements es).1.taken.toList ++ items (c.onElements es).2).Perm
      (items es ++ c.inserted.toList) := by
  cases c with
  | append element item => exact List.Perm.of_eq List.map_append
  | prepend element item => exact (List.perm_append_singleton item (items es)).symm
  | sortedInsert element item sortKey =>
      exact items_sortedInsert_perm.trans (List.perm_append_singleton item (items es)).symm
  | remove =>
      cases es with
      | nil => exact List.Perm.refl _
      | cons e es => exact List.Perm.of_eq (List.append_nil _).symm
  | sortedRemove =>
      cases es with
      | nil => exact List.Perm.refl _
      | cons e es => exact List.Perm.of_eq (List.append_nil _).symm

theorem inserted_concat (c : Call α) (r : Response α) :
    inserted (trace ++ [(c, r)]) = inserted trace ++ c.inserted.toList := by
  rw [inserted, List.filterMap_append, List.filterMap_cons]
  cases c.inserted <;> rfl

theorem taken_concat (c : Call α) (r : Response α) :
    taken (trace ++ [(c, r)]) = taken trace ++ r.taken.toList := by
  rw [taken, List.filterMap_append, List.filterMap_cons]
  cases r.taken <;> rfl

theorem Answered.perm (answered : Answered trace es) :
    (taken trace ++ items es).Perm (inserted trace) := by
  induction answered with
  | nil => exact List.Perm.refl _
  | call c _ ih =>
      rw [taken_concat, inserted_concat, List.append_assoc]
      refine ((onElements_perm c _).append_left _).trans ?_
      rw [← List.append_assoc]
      exact ih.append_right _

/-! ### The queue -/

/-- Not `Append` and not `Prepend`. -/
def Call.KeepsOrder : Call α → Prop
  | .append _ _ | .prepend _ _ => False
  | .sortedInsert _ _ _ | .remove | .sortedRemove => True

/-- What a call that takes an element out answers; `Remove` leaves the key out. -/
inductive Takes : Call α → Option (ListElement α) → Response α → Prop where
  | remove (e : Option (ListElement α)) : Takes .remove e (.thing (e.map ListElement.item))
  | sortedRemove (e : Option (ListElement α)) :
      Takes .sortedRemove e (.keyed (e.map fun e => (e.item, e.key)))

/-- The calls, answered by a stable priority queue: those that wait are in the order in which they
came, and the one that leaves has the least key, those before it a larger one. -/
inductive Queued : List (Call α × Response α) → List (ListElement α) → Prop where
  | nil : Queued [] []
  | sortedInsert {trace : List (Call α × Response α)} {waiting : List (ListElement α)}
      (queued : Queued trace waiting) (element : Nat) (item : α) (sortKey : Int) :
      Queued (trace ++ [(.sortedInsert element item sortKey, .done)]) (waiting ++ [⟨item, sortKey⟩])
  | empty {trace : List (Call α × Response α)} {c : Call α} {r : Response α}
      (queued : Queued trace []) (takes : Takes c none r) : Queued (trace ++ [(c, r)]) []
  | leave {trace : List (Call α × Response α)} {before after : List (ListElement α)}
      {e : ListElement α} {c : Call α} {r : Response α}
        (queued : Queued trace (before ++ e :: after))
      (larger : ∀ f ∈ before, e.key < f.key) (least : ∀ f ∈ after, e.key ≤ f.key)
      (takes : Takes c (some e) r) : Queued (trace ++ [(c, r)]) (before ++ after)

theorem Queued.takes {waiting : List (ListElement α)} {c : Call α} {r : Response α}
    (queued : Queued trace waiting) (arranged : Arranged waiting es) (takes : Takes c es.head? r) :
    ∃ waiting', Queued (trace ++ [(c, r)]) waiting' ∧ Arranged waiting' es.tail := by
  cases es with
  | nil =>
      obtain rfl := arranged.nil
      exact ⟨[], queued.empty takes, arranged⟩
  | cons e es =>
      obtain ⟨before, after, rfl, larger, least, arranged'⟩ := arranged.leave
      exact ⟨before ++ after, queued.leave larger least takes, arranged'⟩

theorem Answered.queued (answered : Answered trace es)
    (keeps : ∀ entry ∈ trace, entry.1.KeepsOrder) :
    ∃ waiting, Queued trace waiting ∧ Arranged waiting es := by
  induction answered with
  | nil => exact ⟨[], .nil, arranged_nil⟩
  | call c _ ih =>
      obtain ⟨keeps, last⟩ := List.forall_mem_append.mp keeps
      have last : c.KeepsOrder := last _ List.mem_cons_self
      obtain ⟨waiting, queued, arranged⟩ := ih keeps
      cases c with
      | append element item => exact last.elim
      | prepend element item => exact last.elim
      | sortedInsert element item sortKey =>
          exact ⟨_, queued.sortedInsert element item sortKey, arranged.insert item sortKey⟩
      | remove =>
          refine queued.takes arranged ?_
          rw [Call.onElements, remove_eq, Option.map_map]
          exact .remove _
      | sortedRemove => exact queued.takes arranged (.sortedRemove _)

/-! ### The list -/

/-- The cells that `first` leads to are `chain`, which has no cycle and ends at `last`. -/
structure IsChain (l : LinkedList α) (chain : List (Nat × ListElement α)) : Prop where
  linked : Segment l.cells l.first chain none
  distinct : (addresses chain).Nodup
  reached : ∀ a, Reach l.cells l.first a ↔ a ∈ addresses chain
  last : l.last = (addresses chain).getLast?
  null : l.first = none ↔ l.last = none
  ends : ∀ a, l.last = some a → ∃ c, l.heap.lookup a = some c ∧ c.next = none

theorem Holds.isChain (holds : Holds l chain) : IsChain l chain where
  linked := holds.linked
  distinct := holds.linked.nodup
  reached _ := holds.linked.reach_iff
  last := holds.last
  null := by
    rw [holds.linked.nil_iff, holds.last, List.getLast?_eq_none_iff, addresses, List.map_eq_nil_iff]
  ends a here := by
    rw [holds.last, addresses, List.getLast?_map] at here
    obtain ⟨cell, last, rfl⟩ := Option.map_eq_some_iff.mp here
    obtain ⟨before, rfl⟩ := List.getLast?_eq_some_iff.mp last
    obtain ⟨_, -, -, m, found, rfl⟩ := segment_append.mp holds.linked
    exact ⟨_, lookup_of_cells found, rfl⟩

/-- **The list is a stable priority queue.**  After any run the cells form a chain from `first` to
`last` whose items are those that came and have not left, and every call returns.  Where only
`SortedInsert` has put items in, the keys do not decrease along the chain, and the calls have been
answered as by the queue. -/
theorem list_is_stable_queue (ran : Ran trace l) :
    ∃ chain, IsChain l chain ∧ (taken trace ++ items (elements chain)).Perm (inserted trace) ∧
      ((∀ entry ∈ trace, entry.1.KeepsOrder) →
        (elements chain).Pairwise (fun e f => e.key ≤ f.key) ∧
        ∃ waiting, Queued trace waiting ∧ Arranged waiting (elements chain)) ∧
      ∀ c, Fresh l c → ∃ r l', l.call c = .ok (r, l') := by
  obtain ⟨chain, holds, answered⟩ := ran.holds
  refine ⟨chain, holds.isChain, answered.perm, fun keeps => ?_, fun c fresh => ?_⟩
  · obtain ⟨waiting, queued, arranged⟩ := answered.queued keeps
    exact ⟨arranged.sorted, waiting, queued, arranged⟩
  · obtain ⟨l', -, called, -⟩ := holds.call fresh
    exact ⟨_, l', called⟩

end Runs

/-- Two items come with one key after another, and the one with the lesser key leaves. -/
theorem list_is_stable_queue_two :
    ∃ l chain waiting, IsChain l chain ∧ Arranged waiting (elements chain) ∧
      Queued [(.sortedInsert 1 false 2, .done), (.sortedInsert 2 true 1, .done),
        (.sortedRemove, .keyed (some (true, 1)))] waiting := by
  have one : Ran [(.sortedInsert 1 false 2, .done)] _ :=
    .call (.create ∅) (fun _ _ => Finmap.notMem_empty) rfl
  have two : Ran [(.sortedInsert 1 false 2, .done), (.sortedInsert 2 true 1, .done)] _ :=
    .call one (fun a here => by cases here; decide) rfl
  have three : Ran [(.sortedInsert 1 false 2, .done), (.sortedInsert 2 true 1, .done),
      (.sortedRemove, .keyed (some (true, 1)))] _ :=
    .call two (fun a here => by cases here) rfl
  obtain ⟨chain, isChain, -, ordered, -⟩ := list_is_stable_queue three
  obtain ⟨-, waiting, queued, arranged⟩ := ordered (by simp [Call.KeepsOrder])
  exact ⟨_, chain, waiting, isChain, arranged, queued⟩

end LinkedList

end Nachos.Threads
