/-
# Nachos.Lib.Chain -- cells linked by pointers

A heap has a value and a pointer at each address that is in use.  `Segment h p l q` says that
the pointers lead from `p` through the cells `l`, each with its address and its value, to `q`;
a chain is a segment that ends at the null pointer, `none`.

A chain is the only one from where it begins (`Segment.unique`), so it has no address twice
(`Segment.nodup`) and has all the addresses that the pointers reach (`Segment.reach_iff`).
Linking a new cell in at the front or behind another one leaves a chain (`Segment.cons`,
`Segment.insertAfter`); whatever is stored elsewhere does not matter (`Segment.congr`).
-/
import Mathlib.Data.List.Basic
import Mathlib.Tactic.Common

namespace Nachos.Lib.Chain

set_option autoImplicit false

universe u v

variable {ν : Type u} {β : Type v} {h h' : ν → Option (β × Option ν)} {p q m : Option ν} {a b : ν}
  {x y : β} {l l' : List (ν × β)}

def Segment (h : ν → Option (β × Option ν)) : Option ν → List (ν × β) → Option ν → Prop
  | p, [], q => p = q
  | p, (a, x) :: l, q => p = some a ∧ ∃ m, h a = some (x, m) ∧ Segment h m l q

/-- The addresses of the cells, in order. -/
def addresses (l : List (ν × β)) : List ν := l.map Prod.fst

/-- The pointers lead from `p` to the address `a`. -/
inductive Reach (h : ν → Option (β × Option ν)) : Option ν → ν → Prop where
  | here (a : ν) : Reach h (some a) a
  | next {a b : ν} {x : β} {m : Option ν} (cell : h a = some (x, m)) (rest : Reach h m b) :
      Reach h (some a) b

theorem mem_addresses (there : (a, x) ∈ l) : a ∈ addresses l := List.mem_map_of_mem there

theorem segment_append : Segment h p (l ++ l') q ↔ ∃ m, Segment h p l m ∧ Segment h m l' q := by
  induction l generalizing p with
  | nil =>
      constructor
      · intro rest
        exact ⟨p, rfl, rest⟩
      · rintro ⟨m, rfl, rest⟩
        exact rest
  | cons cell l ih =>
      constructor
      · rintro ⟨here, m, found, rest⟩
        obtain ⟨m', first, second⟩ := ih.mp rest
        exact ⟨m', ⟨here, m, found, first⟩, second⟩
      · rintro ⟨m', ⟨here, m, found, first⟩, second⟩
        exact ⟨here, m, found, ih.mpr ⟨m', first, second⟩⟩

namespace Segment

theorem congr (segment : Segment h p l q) (same : ∀ a ∈ addresses l, h' a = h a) :
    Segment h' p l q := by
  induction l generalizing p with
  | nil => exact segment
  | cons cell l ih =>
      obtain ⟨here, m, found, rest⟩ := segment
      have first : h' cell.1 = h cell.1 := same cell.1 List.mem_cons_self
      exact ⟨here, m, first.trans found, ih rest fun a there =>
        same a (List.mem_cons_of_mem _ there)⟩

theorem lookup (segment : Segment h p l q) (there : (a, x) ∈ l) : ∃ m, h a = some (x, m) := by
  induction l generalizing p with
  | nil => cases there
  | cons cell l ih =>
      obtain ⟨-, m, found, rest⟩ := segment
      obtain rfl | there := List.mem_cons.mp there
      · exact ⟨m, found⟩
      · exact ih rest there

theorem nil_iff (segment : Segment h p l none) : p = none ↔ l = [] := by
  cases l with
  | nil => exact ⟨fun _ => rfl, fun _ => segment⟩
  | cons cell l =>
      rw [segment.1]
      exact iff_of_false (Option.some_ne_none cell.1) (List.cons_ne_nil cell l)

/-- There is one chain from each pointer. -/
theorem unique (segment : Segment h p l none) (segment' : Segment h p l' none) : l = l' := by
  induction l generalizing p l' with
  | nil => exact (segment'.nil_iff.mp segment).symm
  | cons cell l ih =>
      obtain ⟨here, m, found, rest⟩ := segment
      cases l' with
      | nil => exact absurd (here.symm.trans segment') (Option.some_ne_none cell.1)
      | cons cell' l' =>
          obtain ⟨here', m', found', rest'⟩ := segment'
          have address : cell.1 = cell'.1 := Option.some.inj (here.symm.trans here')
          rw [← address, found] at found'
          have both := Prod.mk.inj (Option.some.inj found')
          rw [← both.2] at rest'
          rw [ih rest rest', Prod.ext address both.1]

/-- A chain goes on from each of its cells. -/
theorem after (segment : Segment h p l q) (there : a ∈ addresses l) :
    ∃ before x rest, l = before ++ (a, x) :: rest ∧ Segment h (some a) ((a, x) :: rest) q := by
  obtain ⟨cell, member, rfl⟩ := List.mem_map.mp there
  obtain ⟨before, rest, rfl⟩ := List.append_of_mem member
  obtain ⟨m, -, here, onward⟩ := segment_append.mp segment
  exact ⟨before, cell.2, rest, rfl, rfl, onward⟩

theorem nodup (segment : Segment h p l none) : (addresses l).Nodup := by
  induction l generalizing p with
  | nil => exact List.nodup_nil
  | cons cell l ih =>
      obtain ⟨here, m, found, rest⟩ := segment
      refine List.nodup_cons.mpr ⟨fun again => ?_, ih rest⟩
      -- the chain from the second time on would be the chain from the first
      obtain ⟨before, x, onward, rfl, segment⟩ := rest.after again
      have whole : Segment h (some cell.1) (cell :: (before ++ (cell.1, x) :: onward)) none :=
        ⟨rfl, m, found, rest⟩
      have lengths := congrArg List.length (whole.unique segment)
      simp only [List.length_cons, List.length_append] at lengths
      omega

theorem reach_iff (segment : Segment h p l none) : Reach h p a ↔ a ∈ addresses l := by
  constructor
  · intro reach
    induction reach generalizing l with
    | here a =>
        cases l with
        | nil => cases segment
        | cons cell l =>
            cases segment.1
            exact List.mem_cons_self
    | next found _ ih =>
        cases l with
        | nil => cases segment
        | cons cell l =>
            obtain ⟨here, m, found', rest⟩ := segment
            cases here
            cases found.symm.trans found'
            exact List.mem_cons_of_mem _ (ih rest)
  · intro there
    induction l generalizing p with
    | nil => cases there
    | cons cell l ih =>
        obtain ⟨rfl, m, found, rest⟩ := segment
        obtain rfl | there := List.mem_cons.mp there
        · exact .here cell.1
        · exact .next found (ih rest there)

/-- A cell linked in at the front. -/
theorem cons (segment : Segment h p l q) (new : h' a = some (x, p))
    (same : ∀ b ∈ addresses l, h' b = h b) : Segment h' (some a) ((a, x) :: l) q :=
  ⟨rfl, p, new, segment.congr same⟩

/-- A cell linked in behind another one: it takes over the pointer that was there. -/
theorem insertAfter {before rest : List (ν × β)}
    (segment : Segment h p (before ++ (b, y) :: rest) none) (linked : h b = some (y, m))
    (new : h' a = some (x, m)) (relinked : h' b = some (y, some a))
    (same : ∀ c ∈ addresses (before ++ (b, y) :: rest), c ≠ b → h' c = h c) :
    Segment h' p (before ++ (b, y) :: (a, x) :: rest) none := by
  have distinct := segment.nodup
  rw [addresses, List.map_append, List.map_cons, List.nodup_append, List.nodup_cons] at distinct
  obtain ⟨-, ⟨notAfter, -⟩, apart⟩ := distinct
  obtain ⟨_, first, rfl, m', found, onward⟩ := segment_append.mp segment
  cases linked.symm.trans found
  refine segment_append.mpr
    ⟨some b, first.congr fun c there => ?_, rfl, some a, relinked, rfl, m, new,
    onward.congr fun c there => ?_⟩
  · refine same c ?_ (apart c there b List.mem_cons_self)
    rw [addresses, List.map_append]
    exact List.mem_append_left _ there
  · refine same c ?_ fun same => notAfter (same ▸ there)
    rw [addresses, List.map_append, List.map_cons]
    exact List.mem_append_right _ (List.mem_cons_of_mem _ there)

end Segment

end Nachos.Lib.Chain
