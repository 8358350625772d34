/-
# Nachos.Machine.Simultaneous -- interrupts that are due at the same time

`SortedInsert` puts an interrupt behind those of the same time, so the list of pending
interrupts starts out in the order of the calls of `Schedule`.  `CheckIfDue` takes the
first one out and, when it is early, puts it back with the same `SortedInsert`: behind
the others of its time.  Every tick before they are due turns them round by one.

`Move` is all that can happen to the list and to what has fired: time passes, a request,
a firing, a putting back.  `calls` are the states in which the loops of `OneTick` and
`Idle` call `CheckIfDue(FALSE)`.  `simultaneous_in_order_iff` says that interrupts of one
time fire in order, and that an early call leaves the list alone, in the runs in which no
early call finds a second interrupt of the first one's time.  As in `Interrupt`, the runs are
those in which the clock does not overflow.
-/
import Nachos.Machine.Interrupt
import Mathlib.Logic.Relation

namespace Nachos.Machine.Interrupt

open Nachos.Lib.Run
open Nachos.Threads (ListElement sortedInsert items)
open Relation (ReflTransGen)

set_option autoImplicit false

/-! ## The calls of `CheckIfDue(FALSE)` -/

section Calls

variable (react : State → PendingInterrupt → List Request)

/-- The states in which `while (CheckIfDue(FALSE)) ;` calls it. -/
def loopCalls : Nat → State → List State
  | 0, _ => []
  | n + 1, st =>
      st :: match checkIfDue react false st with
        | .ok (true, st') => loopCalls n st'
        | _ => []

/-- `OneTick` up to its loop. -/
def ticked (st : State) : State :=
  changeLevel
    (if st.status = .systemMode then
      { st with
        totalTicks := st.totalTicks + SystemTick
        systemTicks := st.systemTicks + SystemTick }
    else
      { st with
        totalTicks := st.totalTicks + UserTick
        userTicks := st.userTicks + UserTick }) .intOff

def tickCalls (st : State) : List State :=
    loopCalls react ((ticked st).pending.length + 1) (ticked st)

/-- The states in which an event calls `CheckIfDue(FALSE)`. -/
def calls (st : State) : Event → List State
  | .oneTick => tickCalls react st
  | .setLevel now =>
      if st.inHandler = false ∧ now = .intOn ∧ st.level = .intOff then
        tickCalls react (changeLevel st now)
      else []
  | .idle =>
      match checkIfDue react true { st with status := .idleMode } with
      | .ok (true, st') => loopCalls react (st'.pending.length + 1) st'
      | _ => []
  | .schedule _ => []
  | .setStatus _ => []

end Calls

/-- The first interrupt is not due yet. -/
def Early (st : State) : Prop := ∃ e rest, st.pending = e :: rest ∧ st.totalTicks < e.key

/-- Another interrupt is pending for the time of the first. -/
def Tied (pending : List (ListElement PendingInterrupt)) : Prop :=
  ∃ e rest, pending = e :: rest ∧ ∃ f ∈ rest, f.key = e.key

/-- `CheckIfDue(FALSE)` leaves the list as it was. -/
def LeavesQueue (react : State → PendingInterrupt → List Request) (st : State) : Prop :=
  ∃ st', checkIfDue react false st = .ok (false, st') ∧ st'.pending = st.pending

/-- Of two interrupts of the same time, the one that was scheduled first fired first; and
none has fired before one that was scheduled earlier and still waits. -/
structure InOrder (st : State) : Prop where
  fired : st.log.Pairwise fun later earlier =>
    later.interrupt.when = earlier.interrupt.when → earlier.interrupt.number <
      later.interrupt.number
  waiting : ∀ f ∈ st.log, ∀ e ∈ st.pending,
    e.item.when = f.interrupt.when → f.interrupt.number < e.item.number

/-! ## What can happen -/

/-- The list, what was scheduled, what has fired, and the clock. -/
structure Agenda where
  pending : List (ListElement PendingInterrupt)
  scheduled : List PendingInterrupt
  log : List Firing
  now : Int

def State.agenda (st : State) : Agenda := ⟨st.pending, st.scheduled, st.log, st.totalTicks⟩

/-- One thing that happens to the agenda; only in the agendas of `put` is an interrupt
put back. -/
inductive Move (put : Agenda → Prop) : Agenda → Agenda → Prop where
  | wait {a : Agenda} (now : Int) (later : a.now ≤ now) : Move put a { a with now := now }
  | schedule {a : Agenda} (r : Request) (future : 0 < r.fromNow) :
      Move put a { a with
        pending := sortedInsert ⟨a.scheduled.length, a.now + r.fromNow, r.type⟩ (a.now + r.fromNow)
          a.pending
        scheduled := a.scheduled ++ [⟨a.scheduled.length, a.now + r.fromNow, r.type⟩] }
  | fire {a : Agenda} {e : ListElement PendingInterrupt}
      {rest : List (ListElement PendingInterrupt)}
      (first : a.pending = e :: rest) (due : e.key ≤ a.now) :
      Move put a { a with pending := rest, log := ⟨e.item, a.now⟩ :: a.log }
  | putBack {a : Agenda} {e : ListElement PendingInterrupt}
      {rest : List (ListElement PendingInterrupt)} (first : a.pending = e :: rest)
        (allowed : put a) :
      Move put a { a with pending := sortedInsert e.item e.key rest }

abbrev Moves (put : Agenda → Prop) : Agenda → Agenda → Prop := ReflTransGen (Move put)

section Operations

variable {react : State → PendingInterrupt → List Request} {put : Agenda → Prop}
  {st st' : State} {rs : List Request} {r : Request}

theorem schedule_moves (done : schedule st r = .ok st') :
    Move put st.agenda st'.agenda ∧ st'.level = st.level := by
  obtain ⟨_, asserted, rest⟩ := bind_eq_ok.mp done
  have future : 0 < r.fromNow := of_decide_eq_true (ASSERT_eq_ok.mp asserted)
  cases rest
  exact ⟨.schedule r future, rfl⟩

theorem scheduleAll_moves (done : scheduleAll rs st = .ok st') :
    Moves put st.agenda st'.agenda ∧ st'.level = st.level := by
  induction rs generalizing st with
  | nil =>
      cases done
      exact ⟨.refl, rfl⟩
  | cons r rs ih =>
      obtain ⟨mid, first, rest⟩ := bind_eq_ok.mp done
      obtain ⟨move, level⟩ := schedule_moves first
      obtain ⟨moves, level'⟩ := ih rest
      exact ⟨.head move moves, level'.trans level⟩

/-- The interrupt in the hand of `CheckIfDue` is fired. -/
theorem fire_moves {e : ListElement PendingInterrupt} {b : Bool} (due : e.key ≤ st.totalTicks)
    (done : fire react st e.item = .ok (b, st')) :
    Moves put { st.agenda with pending := e :: st.pending } st'.agenda ∧ st'.level = st.level := by
  obtain ⟨mid, called, rest⟩ := bind_eq_ok.mp done
  cases rest
  obtain ⟨moves, level⟩ := scheduleAll_moves called
  exact ⟨.head (.fire rfl due) moves, level⟩

/-- The interrupt is fired, or put back into an empty list. -/
theorem fireOrQuit_moves {e : ListElement PendingInterrupt} {b : Bool}
    (alone : ∀ a : Agenda, a.pending.length = 1 → put a) (due : e.key ≤ st.totalTicks)
    (done : fireOrQuit react st e.item e.key = .ok (b, st')) :
    Moves put { st.agenda with pending := e :: st.pending } st'.agenda ∧ st'.level = st.level := by
  unfold fireOrQuit at done
  split at done
  · rename_i quit
    cases done
    have empty : st.pending = [] := List.isEmpty_iff.mp quit.2.2
    exact ⟨.single (.putBack rfl (alone _ (by simp [empty]))), rfl⟩
  · exact fire_moves due done

theorem checkIfDue_moves {advanceClock b : Bool}
    (alone : ∀ a : Agenda, a.pending.length = 1 → put a)
    (early : advanceClock = false → Early st → put st.agenda)
    (done : checkIfDue react advanceClock st = .ok (b, st')) :
    Moves put st.agenda st'.agenda ∧ st.level = .intOff ∧ st'.level = .intOff := by
  obtain ⟨_, asserted, rest⟩ := bind_eq_ok.mp done
  have off : st.level = .intOff := of_decide_eq_true (ASSERT_eq_ok.mp asserted)
  suffices Moves put st.agenda st'.agenda ∧ st'.level = st.level from
    ⟨this.1, off, this.2.trans off⟩
  cases head : st.pending with
  | nil =>
      rw [head] at rest
      cases rest
      exact ⟨.refl, rfl⟩
  | cons e tail =>
      rw [head] at rest
      simp only [sortedRemove] at rest
      have whole : st.agenda = { st.agenda with pending := e :: tail } := by
        rw [← head]
        rfl
      split at rest
      · -- the clock goes on to the interrupt
        rename_i advances
        obtain ⟨moves, level⟩ := fireOrQuit_moves alone (Int.le_refl e.key) rest
        refine ⟨?_, level⟩
        rw [whole]
        exact .head (.wait e.key (Int.le_of_lt advances.2)) moves
      split at rest
      · rename_i notAdvancing before
        cases rest
        have waits : advanceClock = false := by
          rw [← Bool.not_eq_true]
          exact fun advance => notAdvancing ⟨advance, before⟩
        exact ⟨.single (.putBack head (early waits ⟨e, tail, head, before⟩)), rfl⟩
      · rename_i notBefore
        have due : e.key ≤ ({ st with pending := tail } : State).totalTicks :=
          Int.not_lt.mp notBefore
        obtain ⟨moves, level⟩ := fireOrQuit_moves alone due rest
        refine ⟨?_, level⟩
        rw [whole]
        exact moves

theorem loop_moves {n : Nat} (alone : ∀ a : Agenda, a.pending.length = 1 → put a)
    (early : ∀ call ∈ loopCalls react n st, Early call → put call.agenda)
    (done : checkAll react n st = .ok st') : Moves put st.agenda st'.agenda := by
  induction n generalizing st with
  | zero => cases done
  | succ n ih =>
      obtain ⟨⟨more, mid⟩, checked, rest⟩ := bind_eq_ok.mp done
      have here := early st (by simp [loopCalls])
      obtain ⟨moves, -, -⟩ := checkIfDue_moves alone (fun _ => here) checked
      cases more with
      | false =>
          cases rest
          exact moves
      | true =>
          refine moves.trans (ih (fun call member => early call ?_) rest)
          simp only [loopCalls, checked]
          exact List.mem_cons_of_mem _ member

theorem checkIfDue_unrestricted {advanceClock b : Bool}
    (done : checkIfDue react advanceClock st = .ok (b, st')) :
    Moves (fun _ => True) st.agenda st'.agenda ∧ st'.level = .intOff := by
  obtain ⟨moves, -, off⟩ := checkIfDue_moves (fun _ _ => trivial) (fun _ _ => trivial) done
  exact ⟨moves, off⟩

/-- The calls of a loop are reached from its start, with the interrupts off. -/
theorem loopCalls_moves {n : Nat} {call : State} (member : call ∈ loopCalls react n st)
    (off : st.level = .intOff) :
    Moves (fun _ => True) st.agenda call.agenda ∧ call.level = .intOff := by
  induction n generalizing st with
  | zero => cases member
  | succ n ih =>
      unfold loopCalls at member
      rcases List.mem_cons.mp member with rfl | member
      · exact ⟨.refl, off⟩
      · split at member
        · rename_i mid checked
          have moves := checkIfDue_unrestricted checked
          obtain ⟨moves', level⟩ := ih member moves.2
          exact ⟨moves.1.trans moves', level⟩
        · cases member

theorem ticked_moves (st : State) : Move put st.agenda (ticked st).agenda := by
  unfold ticked
  split
  · exact .wait (st.totalTicks + SystemTick) (by simp only [State.agenda, SystemTick]; omega)
  · exact .wait (st.totalTicks + UserTick) (by simp only [State.agenda, UserTick]; omega)

theorem oneTick_moves (alone : ∀ a : Agenda, a.pending.length = 1 → put a)
    (early : ∀ call ∈ tickCalls react st, Early call → put call.agenda)
    (done : oneTick react st = .ok st') : Moves put st.agenda st'.agenda := by
  obtain ⟨mid, ran, rest⟩ := bind_eq_ok.mp done
  cases rest
  have moves : Moves put (ticked st).agenda mid.agenda := loop_moves alone early ran
  exact .head (ticked_moves st) moves

theorem tickCalls_moves {call : State} (member : call ∈ tickCalls react st) :
    Moves (fun _ => True) st.agenda call.agenda ∧ call.level = .intOff := by
  obtain ⟨moves, off⟩ := loopCalls_moves member rfl
  exact ⟨.head (ticked_moves st) moves, off⟩

/-- **An event is a sequence of moves.** -/
theorem step_moves {event : Event} (alone : ∀ a : Agenda, a.pending.length = 1 → put a)
    (early : ∀ call ∈ calls react st event, Early call → put call.agenda)
    (done : step react st event = .ok st') : Moves put st.agenda st'.agenda := by
  cases event with
  | schedule r => exact .single (schedule_moves done).1
  | setLevel now =>
      obtain ⟨_, asserted, rest⟩ := bind_eq_ok.mp done
      split at rest
      · rename_i enabled
        have allowed : now = .intOff ∨ st.inHandler = false :=
          of_decide_eq_true (ASSERT_eq_ok.mp asserted)
        have outside : st.inHandler = false := by
          rcases allowed with off | outside
          · rw [enabled.1] at off
            cases off
          · exact outside
        have same : calls react st (.setLevel now) = tickCalls react (changeLevel st now) :=
          if_pos ⟨outside, enabled⟩
        rw [same] at early
        have moves : Moves put (changeLevel st now).agenda st'.agenda :=
          oneTick_moves alone early rest
        exact moves
      · cases rest
        exact .refl
  | oneTick => exact oneTick_moves alone early done
  | idle =>
      obtain ⟨⟨found, mid⟩, checked, rest⟩ := bind_eq_ok.mp done
      obtain ⟨moves, -, -⟩ := checkIfDue_moves alone (fun waits => by cases waits) checked
      cases found with
      | false => cases rest
      | true =>
          obtain ⟨last, ran, rest⟩ := bind_eq_ok.mp rest
          cases rest
          have looped : Moves put mid.agenda last.agenda := by
            refine loop_moves alone (fun call member => early call ?_) ran
            simp only [calls, checked]
            exact member
          exact moves.trans looped
  | setStatus user =>
      cases done
      exact .refl

theorem calls_moves {event : Event} {call : State} (member : call ∈ calls react st event) :
    Moves (fun _ => True) st.agenda call.agenda ∧ call.level = .intOff := by
  cases event with
  | schedule r => cases member
  | setLevel now =>
      by_cases enabled : st.inHandler = false ∧ now = .intOn ∧ st.level = .intOff
      · have same : calls react st (.setLevel now) = tickCalls react (changeLevel st now) :=
          if_pos enabled
        rw [same] at member
        have moves : Moves (fun _ => True) (changeLevel st now).agenda call.agenda ∧ _ :=
          tickCalls_moves member
        exact moves
      · have none_ : calls react st (.setLevel now) = [] := if_neg enabled
        rw [none_] at member
        cases member
  | oneTick => exact tickCalls_moves member
  | idle =>
      simp only [calls] at member
      split at member
      · rename_i mid checked
        have moves := checkIfDue_unrestricted checked
        obtain ⟨moves', level⟩ := loopCalls_moves member moves.2
        exact ⟨ReflTransGen.trans moves.1 moves', level⟩
      · cases member
  | setStatus user => cases member

end Operations

/-! ## The list -/

section Queue

variable {pending rest : List (ListElement PendingInterrupt)} {e f : ListElement PendingInterrupt}
  {x : PendingInterrupt}

/-- `e` is to fire before `f`. -/
def Before (e f : ListElement PendingInterrupt) : Prop :=
  e.key < f.key ∨ e.key = f.key ∧ e.item.number < f.item.number

/-- The newest request goes behind those of its time. -/
theorem before_sortedInsert {k : Int} (sorted : pending.Pairwise Before)
    (newest : ∀ e ∈ pending, e.item.number < x.number) :
    (sortedInsert x k pending).Pairwise Before := by
  induction pending with
  | nil => exact List.pairwise_singleton _ _
  | cons e rest ih =>
      obtain ⟨first, tail⟩ := List.pairwise_cons.mp sorted
      unfold sortedInsert
      split
      · rename_i smaller
        refine List.pairwise_cons.mpr ⟨fun f member => Or.inl ?_, sorted⟩
        rcases List.mem_cons.mp member with rfl | member
        · exact smaller
        · rcases first f member with less | ⟨same, -⟩
          · exact Int.lt_trans smaller less
          · rwa [← same]
      · rename_i notSmaller
        refine List.pairwise_cons.mpr ⟨fun f member => ?_, ih tail fun f member =>
          newest f (List.mem_cons_of_mem _ member)⟩
        rcases List.mem_cons.mp (Threads.sortedInsert_perm.mem_iff.mp member) with rfl | member
        · rcases Int.lt_or_eq_of_le (Int.not_lt.mp notSmaller) with less | same
          · exact Or.inl less
          · exact Or.inr ⟨same, newest e List.mem_cons_self⟩
        · exact first f member

/-- Where nothing else is due at its time, the first interrupt goes back to its place. -/
theorem sortedInsert_first (sorted : (e :: rest).Pairwise fun e f => e.key ≤ f.key)
    (untied : ¬ Tied (e :: rest)) : sortedInsert e.item e.key rest = e :: rest := by
  cases rest with
  | nil => rfl
  | cons f rest =>
      have le := (List.pairwise_cons.mp sorted).1 f List.mem_cons_self
      have ne : f.key ≠ e.key := fun same => untied ⟨e, f :: rest, rfl, f, List.mem_cons_self, same⟩
      exact if_pos (by omega)

/-- Otherwise another one comes to the front. -/
theorem sortedInsert_tied (sorted : (e :: rest).Pairwise fun e f => e.key ≤ f.key)
    (distinct : ((e :: rest).map fun e => e.item.number).Nodup) (tied : Tied (e :: rest)) :
    sortedInsert e.item e.key rest ≠ e :: rest := by
  obtain ⟨e', rest', whole, f, member, same⟩ := tied
  cases whole
  obtain ⟨first, tail⟩ := List.pairwise_cons.mp sorted
  cases rest with
  | nil => cases member
  | cons g rest =>
      have second : g.key ≤ e.key := by
        rcases List.mem_cons.mp member with rfl | member
        · exact Int.le_of_eq same
        · rw [← same]
          exact (List.pairwise_cons.mp tail).1 f member
      unfold sortedInsert
      rw [if_neg (Int.not_lt.mpr second)]
      intro back
      have here : g = e := (List.cons.inj back).1
      rw [here] at distinct
      exact (List.nodup_cons.mp distinct).1 List.mem_cons_self

end Queue

section Agendas

variable {put : Agenda → Prop} {a b : Agenda}

/-- What holds of the list in every run. -/
structure Lined (a : Agenda) : Prop where
  sorted : a.pending.Pairwise fun e f => e.key ≤ f.key
  distinct : (a.pending.map fun e => e.item.number).Nodup
  below : ∀ e ∈ a.pending, e.item.number < a.scheduled.length

/-- What holds of the list and of what has fired where no tie is broken. -/
structure Ordered (a : Agenda) : Prop where
  sorted : a.pending.Pairwise Before
  keyed : ∀ e ∈ a.pending, e.key = e.item.when
  below : ∀ e ∈ a.pending, e.item.number < a.scheduled.length
  past : ∀ f ∈ a.log, f.interrupt.when ≤ a.now
  fired : a.log.Pairwise fun later earlier =>
    later.interrupt.when = earlier.interrupt.when → earlier.interrupt.number <
      later.interrupt.number
  waiting : ∀ f ∈ a.log, ∀ e ∈ a.pending,
    e.item.when = f.interrupt.when → f.interrupt.number < e.item.number

theorem Ordered.weak (ordered : Ordered a) : a.pending.Pairwise fun e f => e.key ≤ f.key :=
  ordered.sorted.imp fun before => by
    rcases before with less | ⟨same, -⟩
    · exact Int.le_of_lt less
    · exact Int.le_of_eq same

theorem lined_move (lined : Lined a) (move : Move put a b) : Lined b := by
  obtain ⟨sorted, distinct, below⟩ := lined
  cases move with
  | wait now later => exact ⟨sorted, distinct, below⟩
  | schedule r future =>
      refine ⟨Threads.sorted_sortedInsert sorted, ?_, ?_⟩
      · rw [(Threads.sortedInsert_perm.map _).nodup_iff, List.map_cons, List.nodup_cons]
        refine ⟨fun member => ?_, distinct⟩
        obtain ⟨e, there, same⟩ := List.mem_map.mp member
        exact absurd same (Nat.ne_of_lt (below e there))
      · intro e member
        simp only [List.length_append, List.length_cons, List.length_nil]
        rcases List.mem_cons.mp (Threads.sortedInsert_perm.mem_iff.mp member) with rfl | member
        · exact Nat.lt_succ_self _
        · exact Nat.lt_succ_of_lt (below e member)
  | fire first due =>
      rw [first] at sorted distinct below
      exact ⟨(List.pairwise_cons.mp sorted).2, (List.nodup_cons.mp distinct).2,
        fun e member => below e (List.mem_cons_of_mem _ member)⟩
  | putBack first allowed =>
      rw [first] at sorted distinct below
      refine ⟨Threads.sorted_sortedInsert (List.pairwise_cons.mp sorted).2, ?_, fun e member => ?_⟩
      · rw [(Threads.sortedInsert_perm.map _).nodup_iff]
        exact distinct
      · exact below e (Threads.sortedInsert_perm.mem_iff.mp member)

theorem lined_moves (lined : Lined a) (moves : Moves put a b) : Lined b := by
  induction moves with
  | refl => exact lined
  | tail _ move ih => exact lined_move ih move

/-- **One move keeps the order**, as long as nothing is put back behind its equals. -/
theorem ordered_move (untied : ∀ a, put a → ¬ Tied a.pending) (ordered : Ordered a)
    (move : Move put a b) : Ordered b := by
  have weak := ordered.weak
  obtain ⟨sorted, keyed, below, past, fired, waiting⟩ := ordered
  cases move with
  | wait now later =>
      exact ⟨sorted, keyed, below, fun f member => Int.le_trans (past f member) later,
        fired, waiting⟩
  | schedule r future =>
      refine ⟨before_sortedInsert sorted below, fun e member => ?_, fun e member => ?_, past, fired,
        fun f fired e member same => ?_⟩
      · rcases List.mem_cons.mp (Threads.sortedInsert_perm.mem_iff.mp member) with rfl | member
        · rfl
        · exact keyed e member
      · simp only [List.length_append, List.length_cons, List.length_nil]
        rcases List.mem_cons.mp (Threads.sortedInsert_perm.mem_iff.mp member) with rfl | member
        · exact Nat.lt_succ_self _
        · exact Nat.lt_succ_of_lt (below e member)
      · rcases List.mem_cons.mp (Threads.sortedInsert_perm.mem_iff.mp member) with rfl | member
        · -- what has fired was due, and this is not
          have := past f fired
          simp only at same
          omega
        · exact waiting f fired e member same
  | @fire e rest first due =>
      rw [first] at sorted keyed below waiting
      obtain ⟨before, tail⟩ := List.pairwise_cons.mp sorted
      have when_ := keyed e List.mem_cons_self
      refine ⟨tail, fun e member => keyed e (List.mem_cons_of_mem _ member),
        fun e member => below e (List.mem_cons_of_mem _ member), fun f member => ?_,
        List.pairwise_cons.mpr ⟨fun f member same => ?_, fired⟩, fun f member g there same => ?_⟩
      · rcases List.mem_cons.mp member with rfl | member
        · exact when_ ▸ due
        · exact past f member
      · exact waiting f member e List.mem_cons_self same
      · rcases List.mem_cons.mp member with rfl | member
        · rcases before g there with less | ⟨-, number⟩
          · rw [when_, keyed g (List.mem_cons_of_mem _ there)] at less
            simp only at same
            omega
          · exact number
        · exact waiting f member g (List.mem_cons_of_mem _ there) same
  | @putBack e rest first allowed =>
      have free := untied a allowed
      rw [first] at free weak
      have same : sortedInsert e.item e.key rest = a.pending :=
        (sortedInsert_first weak free).trans first.symm
      rw [same]
      exact ⟨sorted, keyed, below, past, fired, waiting⟩

theorem ordered_moves (untied : ∀ a, put a → ¬ Tied a.pending) (ordered : Ordered a)
    (moves : Moves put a b) : Ordered b := by
  induction moves with
  | refl => exact ordered
  | tail _ move ih => exact ordered_move untied ih move

end Agendas

/-! ## Runs -/

section Runs

variable {react : State → PendingInterrupt → List Request} {st st' : State} {event : Event}

/-- An early call puts the first interrupt back. -/
theorem checkIfDue_early {e : ListElement PendingInterrupt}
    {rest : List (ListElement PendingInterrupt)} (off : st.level = .intOff)
    (first : st.pending = e :: rest) (early : st.totalTicks < e.key) :
    checkIfDue react false st =
      .ok (false, { st with pending := sortedInsert e.item e.key rest }) := by
  have asserted : ASSERT (st.level = .intOff) = .ok () := by simp [ASSERT, off]
  simp [checkIfDue, asserted, first, sortedRemove, early]

/-- **An early call leaves the list alone** unless a second interrupt is due with the
first. -/
theorem leavesQueue_iff (lined : Lined st.agenda) (off : st.level = .intOff) (early : Early st) :
    LeavesQueue react st ↔ ¬ Tied st.pending := by
  obtain ⟨e, rest, first, before⟩ := early
  have checked : checkIfDue react false st = _ := checkIfDue_early off first before
  obtain ⟨sorted, distinct, -⟩ := lined
  simp only [State.agenda, first] at sorted distinct
  rw [first]
  constructor
  · rintro ⟨st', again, same⟩ tied
    rw [checked] at again
    cases again
    exact sortedInsert_tied sorted distinct tied (same.trans first)
  · intro untied
    exact ⟨_, checked, (sortedInsert_first sorted untied).trans first.symm⟩

theorem step_of_next (moved : next react st event = some st') : step react st event = .ok st' := by
  cases result : step react st event with
  | ok st'' =>
      simp only [next, result, Except.toOption, Option.some.injEq] at moved
      rw [moved]
  | error why => simp [next, result, Except.toOption] at moved

theorem lined_next (lined : Lined st.agenda) (moved : next react st event = some st') :
    Lined st'.agenda :=
  lined_moves lined (step_moves (fun _ _ => trivial) (fun _ _ _ => trivial) (step_of_next moved) :
    Moves (fun _ => True) st.agenda st'.agenda)

theorem lined_create : Lined create.agenda := by
  refine ⟨List.Pairwise.nil, List.nodup_nil, ?_⟩
  rintro e ⟨⟩

theorem ordered_create : Ordered create.agenda := by
  refine ⟨List.Pairwise.nil, ?_, ?_, ?_, List.Pairwise.nil, ?_⟩ <;> rintro e ⟨⟩

/-- **When simultaneous interrupts keep their order.**  In a run of the interrupt unit,
every early call of `CheckIfDue(FALSE)` leaves the pending interrupts as they were and
interrupts of one time fire in the order in which they were scheduled, exactly where no
such call finds another interrupt pending for the time of the first. -/
theorem simultaneous_in_order_iff (react : State → PendingInterrupt → List Request)
    (events : List Event) :
    (AllSteps (next react) (fun st event => ∀ call ∈ calls react st event, Early call →
        LeavesQueue react call) create events ∧
      AllStates (next react) InOrder create events) ↔
    AllSteps (next react) (fun st event => ∀ call ∈ calls react st event, Early call →
      ¬ Tied call.pending) create events := by
  have here : ∀ {st event} {call : State}, Lined st.agenda → call ∈ calls react st event →
      Early call → (LeavesQueue react call ↔ ¬ Tied call.pending) := by
    intro st event call lined member early
    obtain ⟨moves, off⟩ := calls_moves member
    exact leavesQueue_iff (lined_moves lined moves) off early
  constructor
  · rintro ⟨leaves, -⟩
    refine allSteps_of_invariant (fun st event st' lined _ moved => lined_next lined moved) ?_
      lined_create leaves
    intro st event lined leaves call member early
    exact (here lined member early).mp (leaves call member early)
  · intro untied
    constructor
    · refine allSteps_of_invariant (fun st event st' lined _ moved => lined_next lined moved) ?_
        lined_create untied
      intro st event lined untied call member early
      exact (here lined member early).mpr (untied call member early)
    · have ordered : AllStates (next react) (fun st => Ordered st.agenda) create events := by
        refine allStates_of_invariant ?_ ordered_create untied
        intro st event st' ordered untied moved
        have alone : ∀ a : Agenda, a.pending.length = 1 → ¬ Tied a.pending := by
          rintro a one ⟨e, rest, first, f, member, -⟩
          rw [first] at one
          rw [List.length_eq_zero_iff.mp (Nat.succ.inj one)] at member
          cases member
        exact ordered_moves (fun _ => id) ordered (step_moves alone untied (step_of_next moved))
      exact ordered.mono fun st ordered => ⟨ordered.fired, ordered.waiting⟩

/-- Two requests for time 20.  The tick to 10 turns them round, and at 20 the later one
fires first. -/
theorem simultaneous_turned_round :
    (∃ st, exec (next fun _ _ => []) create
        [.schedule ⟨20, .diskInt⟩, .schedule ⟨20, .networkSendInt⟩, .oneTick, .oneTick] = some st ∧
      fired st.log = [⟨0, 20, .diskInt⟩, ⟨1, 20, .networkSendInt⟩] ∧ ¬ InOrder st) ∧
    ∃ st, exec (next fun _ _ => []) create
        [.schedule ⟨20, .diskInt⟩, .schedule ⟨20, .networkSendInt⟩] = some st ∧
      ∃ call ∈ calls (fun _ _ => []) st .oneTick, Early call ∧
        ¬ LeavesQueue (fun _ _ => []) call := by
  refine ⟨⟨_, rfl, rfl, fun order => ?_⟩, _, rfl, _, List.mem_cons_self, ⟨_, _, rfl, by decide⟩, ?_⟩
  · exact absurd (List.rel_of_pairwise_cons order.fired List.mem_cons_self rfl) (by decide)
  · rintro ⟨st', checked, same⟩
    cases checked
    exact absurd same (by decide)

end Runs

end Nachos.Machine.Interrupt
