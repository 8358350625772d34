/-
# Nachos.Threads.SynchList -- `SynchList::Append` and `SynchList::Remove`

A list behind a lock and a condition.  `Append` signals one waiter, and the waiter may find
that a `Remove` that came later has been there first; it tests again and sleeps again.  So
nobody is owed a particular item, and what has to hold is a count (`Covered`): while anybody
sleeps, there are at least as many removers under way as there are items.

The segments of the code end at a call of `Signal`, `Wait` or `Release`.
-/
import Nachos.Threads.Synch

namespace Nachos.Threads.SynchLists

open Nachos.Lib.Monitor
open Nachos.Lib.Run
open Nachos.Threads.Synch

set_option autoImplicit false

variable {α : Type}

structure SynchList (α : Type) where
  list : List (ListElement α)
  /-- The items appended to the list, in order. -/
  appended : List α
  /-- The items `Remove` has taken out and returns, in order. -/
  removed : List α

inductive Cond where
  | listEmpty
  deriving DecidableEq, Repr

inductive Point (α : Type) where
  | append (item : α)
  /-- After `listEmpty->Signal(lock)`. -/
  | appendEnd
  | remove
  /-- After `listEmpty->Wait(lock)`. -/
  | removeLoop
  deriving DecidableEq, Repr

/-- `SynchList::SynchList`. -/
def create : SynchList α := ⟨[], [], []⟩

/-- The loop of `Remove` and the removal; `none` when `ASSERT(item != NULL)` fails. -/
def removeLoop (l : SynchList α) : Option (SynchList α × Action (Point α) Cond) :=
  if l.list.isEmpty then some (l, .wait .listEmpty .removeLoop)
  else
    match Threads.remove l.list with
    | none => none
    | some (item, rest) => some ({ l with list := rest, removed := l.removed ++ [item] }, .release)

def code : Point α → SynchList α → Option (SynchList α × Action (Point α) Cond)
  | .append item, l =>
      some ({ l with list := Threads.append l.list item, appended := l.appended ++ [item] },
        .signal .listEmpty .appendEnd)
  | .appendEnd, l => some (l, .release)
  | .remove, l => removeLoop l
  | .removeLoop, l => removeLoop l

/-- A call begins at the `Acquire` of `Append` or of `Remove`. -/
def Point.entry : Point α → Bool
  | .append _ | .remove => true
  | _ => false

def program : Program (Point α) Cond (SynchList α) where
  entry := Point.entry
  code := code

/-! ## The count -/

/-- A `Remove` that has slept. -/
def Point.slept : Point α → Bool
  | .removeLoop => true
  | _ => false

/-- Where a thread can be without the lock. -/
def lawful : Status (Point α) Cond → Bool
  | .awake (.append _) | .awake .remove | .awake .removeLoop => true
  | .asleep .listEmpty .removeLoop => true
  | .done .appendEnd | .done .remove | .done .removeLoop => true
  | _ => false

theorem lawful_up (c : Cond) (pc : Point α) (asleep : lawful (.asleep c pc) = true) :
    lawful (.awake pc) = true := by
  cases c
  cases pc <;> first | rfl | cases asleep

/-- While anybody sleeps, every item is matched by a `Remove` that was woken and has not
returned. -/
structure Covered (a : System (Point α) Cond (SynchList α)) : Prop where
  lawful : Lawful lawful a.others
  order : a.shared.appended = a.shared.removed ++ items a.shared.list
  woken : 0 < a.sleeping Point.slept →
    a.shared.list.length + a.sleeping Point.slept + a.returned Point.slept ≤ a.count Point.slept

section Invariant

variable {a b : System (Point α) Cond (SynchList α)} {pc : Point α} {l l' : SynchList α}
  {action : Action (Point α) Cond}

theorem Covered.enters (covered : Covered a) (enters : Enters program a b) : Covered b := by
  obtain ⟨law, order, woken⟩ := covered
  have slept : b.count Point.slept = a.count Point.slept :=
    enters.count fun pc entry => by cases pc <;> first | rfl | cases entry
  obtain ⟨law', -⟩ := enters.lawful (fun pc entry => by cases pc <;> first | rfl | cases entry) law
  constructor
  · exact law'
  · rw [enters.shared, order]
  · rw [enters.shared, enters.sleeping, enters.returned, slept]
    exact woken

theorem removeLoop_cases (ran : removeLoop l = some (l', action)) :
    (l.list = [] ∧ l' = l ∧ action = .wait .listEmpty .removeLoop) ∨
      ∃ item key rest, l.list = ⟨item, key⟩ :: rest ∧
        l' = { l with list := rest, removed := l.removed ++ [item] } ∧ action = .release := by
  unfold removeLoop at ran
  split at ran
  · rename_i empty
    cases ran
    exact .inl ⟨List.isEmpty_iff.mp empty, rfl, rfl⟩
  · cases removed : Threads.remove l.list with
    | none => simp [removed] at ran
    | some pair =>
        obtain ⟨item, rest⟩ := pair
        obtain ⟨key, head⟩ := remove_eq_some removed
        simp only [removed, Option.some.injEq] at ran
        cases ran
        exact .inr ⟨item, key, rest, head, rfl, rfl⟩

attribute [local simp] Action.returns Action.next Action.holder Action.left lawful Point.slept
  append items

/-- Everybody who sleeps is in `Remove`. -/
theorem sleeps_in_remove (law : Lawful lawful a.others) (c : Cond) (pc : Point α)
    (there : .asleep c pc ∈ a.others) : pc = .removeLoop := by
  have ok := law _ there
  cases c
  cases pc <;> first | rfl | cases ok

/-- What a `Remove` does, at its first test or after it has slept. -/
theorem Covered.loop (covered : Covered a) (here : a.holder = some pc)
    (loop : pc = .remove ∨ pc = .removeLoop) (ran : removeLoop a.shared = some (b.shared, action))
    (there : b.holder = action.holder) (moves : action.Moves pc a.others b.others) : Covered b := by
  obtain ⟨law, order, woken⟩ := covered
  have slept := moves.count (p := Point.slept) here there
  have back := moves.returned (p := Point.slept) (a := a) (b := b)
  have room := returned_add_sleeping_le (p := Point.slept) (a := a)
  rw [here] at room
  obtain ⟨empty, same, rfl⟩ | ⟨item, key, rest, head, next, rfl⟩ := removeLoop_cases ran
  · have asleep := sleeping_cons (p := Point.slept) moves
    refine ⟨moves.lawful lawful_up (by simp) law, by rw [same, order], fun _ => ?_⟩
    rw [same, empty]
    obtain rfl | rfl := loop
    · simp [Status.sleeps] at slept back asleep room ⊢
      omega
    · simp [Status.sleeps] at slept back asleep room ⊢
      omega
  · have asleep := sleeping_cons (p := Point.slept) moves
    have shorter : b.shared.list.length + 1 = a.shared.list.length := by simp [next, head]
    refine ⟨moves.lawful lawful_up ?_ law, ?_, fun some => ?_⟩
    · obtain rfl | rfl := loop <;> simp
    · simp [next, order, head]
    · obtain rfl | rfl := loop
      · simp [Status.sleeps] at slept back asleep
        have := woken (by omega)
        omega
      · simp [Status.sleeps] at slept back asleep
        have := woken (by omega)
        omega

theorem Covered.runs (covered : Covered a) (runs : Runs program a b) : Covered b := by
  obtain ⟨pc, action, here, ran, there, moves⟩ := runs.cases'
  have slept := moves.count (p := Point.slept) here there
  have back := moves.returned (p := Point.slept) (a := a) (b := b)
  cases pc with
  | append item =>
      obtain ⟨law, order, woken⟩ := covered
      obtain ⟨shared, rfl⟩ := Prod.mk.inj (Option.some.inj ran)
      have asleep : b.sleeping Point.slept = a.sleeping Point.slept - 1 :=
        Wakes.sleeping moves fun c pc there => by simp [sleeps_in_remove law c pc there]
      refine ⟨moves.lawful lawful_up (by simp) law, ?_, fun some => ?_⟩
      · simp [← shared, order]
      · have := woken (by omega)
        simp [← shared] at slept back ⊢
        omega
  | appendEnd =>
      obtain ⟨law, order, woken⟩ := covered
      obtain ⟨shared, rfl⟩ := Prod.mk.inj (Option.some.inj ran)
      have asleep := sleeping_cons (p := Point.slept) moves
      refine ⟨moves.lawful lawful_up (by simp) law, by rw [← shared, order], fun some => ?_⟩
      simp [Status.sleeps] at slept back asleep
      have := woken (by omega)
      rw [← shared]
      omega
  | remove => exact covered.loop here (.inl rfl) ran there moves
  | removeLoop => exact covered.loop here (.inr rfl) ran there moves

/-- A `Remove` that goes on finds an item. -/
theorem code_defined (pc : Point α) (l : SynchList α) : (code pc l).isSome := by
  have loop : (removeLoop l).isSome := by
    unfold removeLoop
    cases l.list with
    | nil => rfl
    | cons e rest => rfl
  cases pc with
  | append | appendEnd => rfl
  | remove | removeLoop => exact loop

end Invariant

/-! ## Runs -/

section Fifo

variable {events : List (Event (Point α))} {st : Monitor (Point α) Cond (SynchList α)}

theorem run_covered (run : exec (step program) (init create) events = some st) :
    Sound st ∧ Covered st.view := by
  refine run_keeps (fun _ _ covered enters => covered.enters enters)
    (fun _ _ covered runs => covered.runs runs) ?_ run
  constructor
  · simp [Lawful]
  · simp [create, items]
  · simp

def Point.isRemove : Point α → Bool
  | .remove | .removeLoop => true
  | _ => false

/-- Items come out as they went in, `ASSERT(item != NULL)` holds, and nobody waits for an
item that is there. -/
structure Fifo (st : Monitor (Point α) Cond (SynchList α)) : Prop where
  ordered : st.shared.removed <+: st.shared.appended
  lossless : st.shared.appended = st.shared.removed ++ items st.shared.list
  defined : ∀ i pc, st.place i = some (.holds pc) → (code pc st.shared).isSome
  quiescent : Quiescent st → st.shared.list = [] ∨ ¬ Blocked st Point.isRemove

/-- **The synchronised list is a lossless queue**, in every interleaving of any number of
calls. -/
theorem synchList_fifo (events : List (Event (Point α))) (st : Monitor (Point α) Cond (SynchList α))
    (run : exec (step program) (init create) events = some st) : Fifo st := by
  obtain ⟨sound, covered⟩ := run_covered run
  obtain ⟨law, order, woken⟩ := covered
  refine ⟨⟨_, order.symm⟩, order, fun i pc _ => code_defined pc st.shared, fun quiescent => ?_⟩
  obtain ⟨free, nobody⟩ := sound.quiescent quiescent
  by_cases blocked : Blocked st Point.isRemove
  · left
    have asleep : 0 < st.view.sleeping Point.slept := by
      rw [← sleeping_congr (p := Point.isRemove)]
      · exact sound.blocked quiescent blocked
      · intro c pc there
        rw [sleeps_in_remove law c pc there]
        rfl
    have all := count_of_quiescent (p := Point.slept) free nobody
    have matched := woken asleep
    apply List.eq_nil_of_length_eq_zero
    have same : st.view.shared = st.shared := rfl
    rw [same] at matched
    omega
  · exact .inr blocked

/-- A `Remove` sleeps, an item comes, and a second `Remove` takes it first; the one that was
woken sleeps again. -/
theorem synchList_fifo_barging :
    ∃ st, exec (step program) (init (create : SynchList Nat))
        [.call .remove 0, .move 0, .move 0, .call (.append 7) 0, .move 1, .move 1,
          .call .remove 0, .move 1, .move 2, .move 2, .move 0, .move 0] = some st ∧
      st.shared.removed = [7] ∧ Quiescent st ∧ Fifo st := by
  refine ⟨_, rfl, rfl, by decide, ?_⟩
  exact synchList_fifo
    [.call .remove 0, .move 0, .move 0, .call (.append 7) 0, .move 1, .move 1,
      .call .remove 0, .move 1, .move 2, .move 2, .move 0, .move 0] _ rfl

end Fifo

/-! ## One call -/

section Calls

variable {st st' : Monitor (Point α) Cond (SynchList α)} {i : Nat}

/-- **What a thread in `Append` or `Remove` does to the list**: nothing, while it waits or has
appended; or it appends its item; or it takes the first one and returns. -/
theorem move_effect (moved : step program st (.move i) = some st') :
    ∃ pc, st.point i = some pc ∧
      ((st'.shared = st.shared ∧ ∃ p, st'.place i = some p ∧
          (p.pc = pc ∨ pc.isRemove = true ∧ p.pc.isRemove = true) ∧
          ∀ pc', p = .returned pc' → pc = .appendEnd) ∨
        (∃ item, pc = .append item ∧ st'.place i = some (.holds .appendEnd) ∧
          st'.shared = { st.shared with
            list := append st.shared.list item, appended := st.shared.appended ++ [item] }) ∨
        (pc.isRemove = true ∧ st'.place i = some (.returned pc) ∧
          ∃ item key rest, st.shared.list = ⟨item, key⟩ :: rest ∧
            st'.shared = { st.shared with
              list := rest
              removed := st.shared.removed ++ [item] })) := by
  obtain ⟨-, ⟨turn, next, here, kept, there⟩ | ⟨pc, action, here, ran, there⟩⟩ := move_cases moved
  · refine ⟨next, by rw [Monitor.point, here]; rfl, .inl ⟨kept, ?_⟩⟩
    rcases there with queued | holds
    · exact ⟨_, queued, .inl rfl, fun pc' bad => by cases bad⟩
    · exact ⟨_, holds, .inl rfl, fun pc' bad => by cases bad⟩
  · refine ⟨pc, by rw [Monitor.point, here]; rfl, ?_⟩
    have loop (remover : pc.isRemove = true)
        (ran : removeLoop st.shared = some (st'.shared, action)) :
        (st'.shared = st.shared ∧ ∃ p, st'.place i = some p ∧
          (p.pc = pc ∨ pc.isRemove = true ∧ p.pc.isRemove = true) ∧
          ∀ pc', p = .returned pc' → pc = .appendEnd) ∨
        (pc.isRemove = true ∧ st'.place i = some (.returned pc) ∧
          ∃ item key rest, st.shared.list = ⟨item, key⟩ :: rest ∧
            st'.shared = { st.shared with
              list := rest
              removed := st.shared.removed ++ [item] }) := by
      rcases removeLoop_cases ran with ⟨-, same, rfl⟩ | ⟨item, key, rest, head, next, rfl⟩
      · exact .inl ⟨same, _, there, .inr ⟨remover, rfl⟩, fun pc' bad => by cases bad⟩
      · exact .inr ⟨remover, there, item, key, rest, head, next⟩
    cases pc with
    | append item =>
        obtain ⟨shared, rfl⟩ := Prod.mk.inj (Option.some.inj ran)
        exact .inr (.inl ⟨item, rfl, there, shared.symm⟩)
    | appendEnd =>
        obtain ⟨shared, rfl⟩ := Prod.mk.inj (Option.some.inj ran)
        exact .inl ⟨shared.symm, _, there, .inl rfl, fun _ _ => rfl⟩
    | remove =>
        rcases loop rfl ran with waits | takes
        · exact .inl waits
        · exact .inr (.inr takes)
    | removeLoop =>
        rcases loop rfl ran with waits | takes
        · exact .inl waits
        · exact .inr (.inr takes)

end Calls

end Nachos.Threads.SynchLists
