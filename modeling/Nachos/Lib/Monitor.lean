/-
# Nachos.Lib.Monitor -- monitors with signal-and-continue conditions

A monitor is one lock, some conditions, and a program cut where its threads can be
preempted.  Threads have no names here: a state is who holds the lock (`holder`), the
shared data, and the multiset of where all other threads are.  A thread is `awake` at
the point where it goes on once it has the lock, `asleep` on a condition, or `done`.

Which awake thread gets the lock and which sleeper a signal wakes is left open, so that
every queueing discipline and every scheduler is an instance.
-/
import Mathlib.Data.Multiset.Count
import Mathlib.Tactic.Common

namespace Nachos.Lib.Monitor

set_option autoImplicit false

variable {P C σ : Type}

/-- How a segment of the program ends, and where the thread goes on. -/
inductive Action (P C : Type) where
  | signal (c : C) (next : P)
  | broadcast (c : C) (next : P)
  | wait (c : C) (next : P)
  | release
  /-- The lock is released, and taken again later. -/
  | again (next : P)

/-- What a thread does with the lock held, up to the next point where it can be
preempted; `none` where the program is undefined. -/
structure Program (P C σ : Type) where
  entry : P → Bool
  code : P → σ → Option (σ × Action P C)

inductive Status (P C : Type) where
  | awake (pc : P)
  | asleep (c : C) (pc : P)
  | done (pc : P)
  deriving DecidableEq

structure System (P C σ : Type) where
  holder : Option P
  others : Multiset (Status P C)
  shared : σ

/-- One sleeper wakes up, if there is one. -/
inductive Wakes (c : C) : Multiset (Status P C) → Multiset (Status P C) → Prop where
  | one (pc : P) (rest : Multiset (Status P C)) :
      Wakes c (.asleep c pc ::ₘ rest) (.awake pc ::ₘ rest)
  | none {s : Multiset (Status P C)} : (∀ pc, .asleep c pc ∉ s) → Wakes c s s

/-- All sleepers wake up. -/
inductive WakesAll (c : C) : Multiset (Status P C) → Multiset (Status P C) → Prop where
  | one {s : Multiset (Status P C)} (pc : P) (rest : Multiset (Status P C)) :
      WakesAll c (.awake pc ::ₘ rest) s → WakesAll c (.asleep c pc ::ₘ rest) s
  | none {s : Multiset (Status P C)} : (∀ pc, .asleep c pc ∉ s) → WakesAll c s s

/-- A new thread comes, or one that is awake takes the free lock. -/
inductive Enters (prog : Program P C σ) : System P C σ → System P C σ → Prop where
  | call {holder : Option P} {others : Multiset (Status P C)} {s : σ} (pc : P) :
      prog.entry pc = true → Enters prog ⟨holder, others, s⟩ ⟨holder, .awake pc ::ₘ others, s⟩
  | take {others : Multiset (Status P C)} {s : σ} (pc : P) :
      Enters prog ⟨none, .awake pc ::ₘ others, s⟩ ⟨some pc, others, s⟩

/-- The thread that holds the lock goes on. -/
inductive Runs (prog : Program P C σ) : System P C σ → System P C σ → Prop where
  | signal {others others' : Multiset (Status P C)} {s s' : σ} {pc next : P} {c : C} :
      prog.code pc s = some (s', .signal c next) → Wakes c others others' →
      Runs prog ⟨some pc, others, s⟩ ⟨some next, others', s'⟩
  | broadcast {others others' : Multiset (Status P C)} {s s' : σ} {pc next : P} {c : C} :
      prog.code pc s = some (s', .broadcast c next) → WakesAll c others others' →
      Runs prog ⟨some pc, others, s⟩ ⟨some next, others', s'⟩
  | wait {others : Multiset (Status P C)} {s s' : σ} {pc next : P} {c : C} :
      prog.code pc s = some (s', .wait c next) →
      Runs prog ⟨some pc, others, s⟩ ⟨none, .asleep c next ::ₘ others, s'⟩
  | release {others : Multiset (Status P C)} {s s' : σ} {pc : P} :
      prog.code pc s = some (s', .release) →
      Runs prog ⟨some pc, others, s⟩ ⟨none, .done pc ::ₘ others, s'⟩
  | again {others : Multiset (Status P C)} {s s' : σ} {pc next : P} :
      prog.code pc s = some (s', .again next) →
      Runs prog ⟨some pc, others, s⟩ ⟨none, .awake next ::ₘ others, s'⟩

theorem Wakes.all {c : C} {s t u : Multiset (Status P C)} (first : Wakes c s t)
    (rest : WakesAll c t u) : WakesAll c s u := by
  cases first with
  | one pc others => exact .one pc others rest
  | none => exact rest

/-- Who holds the lock after the action. -/
def Action.holder : Action P C → Option P
  | .signal _ next | .broadcast _ next => some next
  | .wait _ _ | .release | .again _ => none

/-- What the action of a thread at `pc` does to the others, itself among them when it
leaves the lock. -/
def Action.Moves (pc : P) (s t : Multiset (Status P C)) : Action P C → Prop
  | .signal c _ => Wakes c s t
  | .broadcast c _ => WakesAll c s t
  | .wait c next => t = .asleep c next ::ₘ s
  | .release => t = .done pc ::ₘ s
  | .again next => t = .awake next ::ₘ s

theorem Runs.cases' {prog : Program P C σ} {a b : System P C σ} (runs : Runs prog a b) :
    ∃ pc action, a.holder = some pc ∧ prog.code pc a.shared = some (b.shared, action) ∧
      b.holder = action.holder ∧ action.Moves pc a.others b.others := by
  cases runs with
  | signal code wakes => exact ⟨_, _, rfl, code, rfl, wakes⟩
  | broadcast code wakes => exact ⟨_, _, rfl, code, rfl, wakes⟩
  | wait code => exact ⟨_, _, rfl, code, rfl, rfl⟩
  | release code => exact ⟨_, _, rfl, code, rfl, rfl⟩
  | again code => exact ⟨_, _, rfl, code, rfl, rfl⟩

/-! ## Counting threads -/

/-- Where the thread goes on, or went out. -/
def Status.pc : Status P C → P
  | .awake pc | .asleep _ pc | .done pc => pc

def Status.returned (p : P → Bool) : Status P C → Bool
  | .done pc => p pc
  | _ => false

/-- The threads at the points `p`. -/
def System.count (p : P → Bool) (a : System P C σ) : Nat :=
  a.others.countP (fun x => p x.pc) + (a.holder.any p).toNat

/-- The threads that are done, and went out at the points `p`. -/
def System.returned (p : P → Bool) (a : System P C σ) : Nat :=
  a.others.countP fun x => x.returned p

@[simp] theorem count_start (p : P → Bool) (s : σ) :
    (⟨none, 0, s⟩ : System P C σ).count p = 0 := by
  simp [System.count]

@[simp] theorem returned_start (p : P → Bool) (s : σ) :
    (⟨none, 0, s⟩ : System P C σ).returned p = 0 := by
  simp [System.returned]

/-- Where the thread is after the action. -/
def Action.next (pc : P) : Action P C → P
  | .signal _ next | .broadcast _ next | .wait _ next | .again next => next
  | .release => pc

def Action.returns : Action P C → Bool
  | .release => true
  | _ => false

section Counting

variable {p : P → Bool} {f : Status P C → Bool} {c : C} {s t : Multiset (Status P C)}

theorem Wakes.countP (wakes : Wakes c s t) (same : ∀ pc, f (.awake pc) = f (.asleep c pc)) :
    t.countP (fun x => f x) = s.countP fun x => f x := by
  cases wakes with
  | one pc rest => simp [Multiset.countP_cons, same]
  | none => rfl

theorem WakesAll.countP (wakes : WakesAll c s t) (same : ∀ pc, f (.awake pc) = f (.asleep c pc)) :
    t.countP (fun x => f x) = s.countP fun x => f x := by
  induction wakes with
  | one pc rest _ ih =>
      rw [ih]
      simp [Multiset.countP_cons, same]
  | none => rfl

theorem countP_cons (x : Status P C) :
    (x ::ₘ s).countP (fun x => f x) = s.countP (fun x => f x) + (f x).toNat := by
  rw [Multiset.countP_cons]
  cases f x <;> rfl

variable {prog : Program P C σ} {a b : System P C σ} {pc : P} {action : Action P C}

/-- The running thread goes from one point to another, and no other thread does. -/
theorem Action.Moves.count (moves : action.Moves pc a.others b.others) (here : a.holder = some pc)
    (there : b.holder = action.holder) :
    b.count p + (p pc).toNat = a.count p + (p (action.next pc)).toNat := by
  simp only [System.count, here, there]
  cases action with
  | signal c next =>
      rw [Wakes.countP (f := fun x => p x.pc) moves fun _ => rfl]
      simp only [Action.holder, Action.next, Option.any_some]
      omega
  | broadcast c next =>
      rw [WakesAll.countP (f := fun x => p x.pc) moves fun _ => rfl]
      simp only [Action.holder, Action.next, Option.any_some]
      omega
  | wait c next =>
      rw [moves, countP_cons (f := fun x => p x.pc)]
      simp only [Action.holder, Action.next, Option.any_some, Option.any_none, Status.pc,
        Bool.toNat_false]
      omega
  | release =>
      rw [moves, countP_cons (f := fun x => p x.pc)]
      simp only [Action.holder, Action.next, Option.any_some, Option.any_none, Status.pc,
        Bool.toNat_false]
      omega
  | again next =>
      rw [moves, countP_cons (f := fun x => p x.pc)]
      simp only [Action.holder, Action.next, Option.any_some, Option.any_none, Status.pc,
        Bool.toNat_false]
      omega

theorem Action.Moves.returned (moves : action.Moves pc a.others b.others) :
    b.returned p = a.returned p + (action.returns && p pc).toNat := by
  simp only [System.returned]
  cases action with
  | signal c next => exact Wakes.countP moves fun _ => rfl
  | broadcast c next => exact WakesAll.countP moves fun _ => rfl
  | wait c next =>
      rw [moves, countP_cons]
      rfl
  | release =>
      rw [moves, countP_cons]
      rfl
  | again next =>
      rw [moves, countP_cons]
      rfl

/-- Entering is counted when the call is made. -/
theorem Enters.count (enters : Enters prog a b)
    (outside : ∀ pc, prog.entry pc = true → p pc = false) :
    b.count p = a.count p := by
  cases enters with
  | call pc entry =>
      simp only [System.count]
      rw [countP_cons (f := fun x => p x.pc)]
      simp [Status.pc, outside pc entry]
  | take pc =>
      simp only [System.count]
      rw [countP_cons (f := fun x => p x.pc)]
      simp [Status.pc]

theorem Enters.count_le (enters : Enters prog a b) : a.count p ≤ b.count p := by
  cases enters with
  | call pc entry =>
      simp only [System.count]
      rw [countP_cons (f := fun x => p x.pc)]
      omega
  | take pc =>
      simp only [System.count]
      rw [countP_cons (f := fun x => p x.pc)]
      simp [Status.pc]

theorem Enters.shared (enters : Enters prog a b) : b.shared = a.shared := by
  cases enters <;> rfl

theorem Enters.returned (enters : Enters prog a b) : b.returned p = a.returned p := by
  cases enters with
  | call pc entry =>
      simp only [System.returned]
      rw [countP_cons]
      rfl
  | take pc =>
      simp only [System.returned]
      rw [countP_cons]
      rfl

end Counting

/-! ## Where threads can be -/

/-- Every thread without the lock is in a place `ok`. -/
def Lawful (ok : Status P C → Bool) (s : Multiset (Status P C)) : Prop := ∀ x ∈ s, ok x = true

/-- Where the thread is when its action has left the lock. -/
def Action.left (pc : P) : Action P C → Option (Status P C)
  | .wait c next => some (.asleep c next)
  | .release => some (.done pc)
  | .again next => some (.awake next)
  | _ => none

section Lawfulness

variable {ok : Status P C → Bool} {c : C} {s t : Multiset (Status P C)} {prog : Program P C σ}
  {a b : System P C σ} {pc : P} {action : Action P C}

theorem lawful_cons {x : Status P C} : Lawful ok (x ::ₘ s) ↔ ok x = true ∧ Lawful ok s := by
  simp [Lawful]

theorem Wakes.lawful (wakes : Wakes c s t)
    (up : ∀ c pc, ok (.asleep c pc) = true → ok (.awake pc) = true)
    (lawful : Lawful ok s) : Lawful ok t := by
  cases wakes with
  | one pc rest =>
      obtain ⟨here, others⟩ := lawful_cons.mp lawful
      exact lawful_cons.mpr ⟨up c pc here, others⟩
  | none => exact lawful

theorem WakesAll.lawful (wakes : WakesAll c s t)
    (up : ∀ c pc, ok (.asleep c pc) = true → ok (.awake pc) = true) (lawful : Lawful ok s) :
    Lawful ok t := by
  induction wakes with
  | one pc rest _ ih => exact ih ((Wakes.one pc rest).lawful up lawful)
  | none => exact lawful

theorem Action.Moves.lawful (moves : action.Moves pc s t)
    (up : ∀ c pc, ok (.asleep c pc) = true → ok (.awake pc) = true)
    (leaves : ∀ x, action.left pc = some x → ok x = true) (lawful : Lawful ok s) : Lawful ok t := by
  cases action with
  | signal c next => exact Wakes.lawful moves up lawful
  | broadcast c next => exact WakesAll.lawful moves up lawful
  | wait c next =>
      cases moves
      exact lawful_cons.mpr ⟨leaves _ rfl, lawful⟩
  | release =>
      cases moves
      exact lawful_cons.mpr ⟨leaves _ rfl, lawful⟩
  | again next =>
      cases moves
      exact lawful_cons.mpr ⟨leaves _ rfl, lawful⟩

theorem Enters.lawful (enters : Enters prog a b)
    (start : ∀ pc, prog.entry pc = true → ok (.awake pc) = true) (lawful : Lawful ok a.others) :
    Lawful ok b.others ∧ (b.holder = a.holder ∨
      a.holder = none ∧ ∃ pc, b.holder = some pc ∧ ok (.awake pc) = true) := by
  cases enters with
  | call pc entry => exact ⟨lawful_cons.mpr ⟨start pc entry, lawful⟩, .inl rfl⟩
  | take pc =>
      obtain ⟨here, others⟩ := lawful_cons.mp lawful
      exact ⟨others, .inr ⟨rfl, pc, rfl, here⟩⟩

end Lawfulness

/-! ## Sleepers -/

def Status.sleeps (p : P → Bool) : Status P C → Bool
  | .asleep _ pc => p pc
  | _ => false

/-- The threads asleep at the points `p`. -/
def System.sleeping (p : P → Bool) (a : System P C σ) : Nat :=
  a.others.countP fun x => x.sleeps p

@[simp] theorem sleeping_start (p : P → Bool) (s : σ) :
    (⟨none, 0, s⟩ : System P C σ).sleeping p = 0 := by
  simp [System.sleeping]

section Sleeping

variable {p : P → Bool} {c : C} {s t : Multiset (Status P C)} {prog : Program P C σ}
  {a b : System P C σ} {pc : P} {action : Action P C}

/-- A signal to all who sleep at `p` leaves one less of them, if there is one. -/
theorem Wakes.sleeping (wakes : Wakes c s t)
    (theirs : ∀ c' pc, .asleep c' pc ∈ s → (p pc = true ↔ c' = c)) :
    t.countP (fun x => x.sleeps p) = s.countP (fun x => x.sleeps p) - 1 := by
  cases wakes with
  | one pc rest =>
      have here : p pc = true := (theirs c pc (by simp)).mpr rfl
      rw [countP_cons, countP_cons]
      simp [Status.sleeps, here]
  | none nobody =>
      have empty : s.countP (fun x => x.sleeps p) = 0 := by
        rw [Multiset.countP_eq_zero]
        intro x there sleeps
        cases x with
        | asleep c' pc =>
            obtain rfl := (theirs c' pc there).mp sleeps
            exact nobody pc there
        | awake | done => cases sleeps
      rw [empty]

/-- A signal to others does not wake them. -/
theorem Wakes.sleeping_other (wakes : Wakes c s t)
    (others : ∀ pc, .asleep c pc ∈ s → p pc = false) :
    t.countP (fun x => x.sleeps p) = s.countP (fun x => x.sleeps p) := by
  cases wakes with
  | one pc rest =>
      have here : p pc = false := others pc (by simp)
      rw [countP_cons, countP_cons]
      simp [Status.sleeps, here]
  | none => rfl

/-- A thread that leaves the lock sleeps, or does not. -/
theorem sleeping_cons {x : Status P C} (left : b.others = x ::ₘ a.others) :
    b.sleeping p = a.sleeping p + (x.sleeps p).toNat := by
  simp only [System.sleeping, left]
  exact countP_cons x

theorem Enters.sleeping (enters : Enters prog a b) : b.sleeping p = a.sleeping p := by
  cases enters with
  | call pc entry =>
      simp only [System.sleeping]
      rw [countP_cons]
      rfl
  | take pc =>
      simp only [System.sleeping]
      rw [countP_cons]
      rfl

/-- Those who are done, those who sleep and the one that holds the lock are different. -/
theorem returned_add_sleeping_le :
    a.returned p + a.sleeping p + (a.holder.any p).toNat ≤ a.count p := by
  have others : ∀ s : Multiset (Status P C), s.countP (fun x => x.returned p) +
      s.countP (fun x => x.sleeps p) ≤ s.countP fun x => p x.pc := by
    intro s
    induction s using Multiset.induction with
    | empty => simp
    | cons x s ih =>
        rw [countP_cons, countP_cons, countP_cons (f := fun x => p x.pc)]
        have one : (x.returned p).toNat + (x.sleeps p).toNat ≤ (p x.pc).toNat := by
          cases x <;> simp [Status.returned, Status.sleeps, Status.pc]
        omega
  have := others a.others
  simp only [System.returned, System.sleeping, System.count]
  omega

theorem countP_add {f g h : Status P C → Bool}
    (apart : ∀ x ∈ s, (f x).toNat = (g x).toNat + (h x).toNat) :
    s.countP (fun x => f x) = s.countP (fun x => g x) + s.countP fun x => h x := by
  induction s using Multiset.induction with
  | empty => simp
  | cons x s ih =>
      rw [countP_cons, countP_cons, countP_cons]
      have rest := ih fun y there => apart y (Multiset.mem_cons_of_mem there)
      have one := apart x (Multiset.mem_cons_self _ _)
      omega

/-- Counting adds up over points that are told apart. -/
theorem count_add {q r : P → Bool} (apart : ∀ pc, (p pc).toNat = (q pc).toNat + (r pc).toNat) :
    a.count p = a.count q + a.count r := by
  have holder : (a.holder.any p).toNat = (a.holder.any q).toNat + (a.holder.any r).toNat := by
    cases a.holder with
    | none => rfl
    | some pc => exact apart pc
  have others := countP_add (s := a.others) (f := fun x => p x.pc) (g := fun x => q x.pc)
    (h := fun x => r x.pc) fun x _ => apart x.pc
  simp only [System.count]
  omega

theorem returned_add {q r : P → Bool} (apart : ∀ pc, (p pc).toNat = (q pc).toNat + (r pc).toNat) :
    a.returned p = a.returned q + a.returned r := by
  refine countP_add fun x _ => ?_
  cases x with
  | done pc => exact apart pc
  | awake | asleep => rfl

theorem sleeping_add {q r : P → Bool}
    (apart : ∀ c pc, .asleep c pc ∈ a.others → (p pc).toNat = (q pc).toNat + (r pc).toNat) :
    a.sleeping p = a.sleeping q + a.sleeping r := by
  refine countP_add fun x there => ?_
  cases x with
  | asleep c pc => exact apart c pc there
  | awake | done => rfl

theorem returned_congr {q : P → Bool} (same : ∀ pc, .done pc ∈ a.others → p pc = q pc) :
    a.returned p = a.returned q := by
  refine Multiset.countP_congr rfl fun x there => ?_
  cases x with
  | done pc => simp [Status.returned, same pc there]
  | awake | asleep => rfl

theorem sleeping_congr {q : P → Bool} (same : ∀ c pc, .asleep c pc ∈ a.others → p pc = q pc) :
    a.sleeping p = a.sleeping q := by
  refine Multiset.countP_congr rfl fun x there => ?_
  cases x with
  | asleep c pc => simp [Status.sleeps, same c pc there]
  | awake | done => rfl

/-- Points that no thread tells apart are counted alike. -/
theorem System.congr {q : P → Bool} (free : a.holder = none)
    (same : ∀ x ∈ a.others, p x.pc = q x.pc) :
    a.count p = a.count q ∧ a.returned p = a.returned q ∧ a.sleeping p = a.sleeping q := by
  refine ⟨?_, returned_congr fun pc there => same _ there, sleeping_congr fun c pc there =>
    same _ there⟩
  simp only [System.count, free, Option.any_none]
  rw [Multiset.countP_congr rfl fun x there => by rw [same x there]]

theorem returned_le_count : a.returned p ≤ a.count p := by
  have room := returned_add_sleeping_le (p := p) (a := a)
  omega

@[simp] theorem returned_nowhere : a.returned (fun _ => false) = 0 := by
  rw [System.returned, Multiset.countP_eq_zero]
  intro x _
  cases x <;> simp [Status.returned]

@[simp] theorem sleeping_nowhere : a.sleeping (fun _ => false) = 0 := by
  rw [System.sleeping, Multiset.countP_eq_zero]
  intro x _
  cases x <;> simp [Status.sleeps]

/-- When nobody is awake all are done or asleep. -/
theorem count_of_quiescent (free : a.holder = none) (nobody : ∀ pc, .awake pc ∉ a.others) :
    a.count p = a.returned p + a.sleeping p := by
  have others : a.others.countP (fun x => p x.pc) =
      a.others.countP (fun x => x.returned p) + a.others.countP fun x => x.sleeps p := by
    refine countP_add (f := fun x => p x.pc) fun x there => ?_
    cases x with
    | awake pc => exact absurd there (nobody pc)
    | asleep c pc => simp [Status.returned, Status.sleeps, Status.pc]
    | done pc => simp [Status.returned, Status.sleeps, Status.pc]
  simp only [System.returned, System.sleeping, System.count, free]
  simpa using others

end Sleeping

end Nachos.Lib.Monitor
