/-
# Nachos.Threads.Rendezvous -- whether a `Send` of a mailbox meets a `Receive`

`numPendingRecs` counts receivers without saying whose they are.  A `Receive` that takes a
message leaves its count behind for the `Send` of that message, which is woken and finds it
later; a `Send` that comes in between can spend it on a message that nobody takes.

`owed` are the sends that are still inside although their message is gone.  By
`Numbered.left_behind` the messages left behind by their sends are too many exactly when
more sends are owed a receiver than are pending, and `Covered` says that they are not.
-/
import Nachos.Threads.Mailbox

namespace Nachos.Threads.Mailboxes

open Nachos.Lib.Monitor
open Nachos.Lib.Run
open Nachos.Threads.Synch

set_option autoImplicit false

/-- The `Send` that got the address `v` for its message. -/
def Point.owns (v : Nat) : Point → Bool
  | .sendLoop u | .sendEnd u => u = v
  | _ => false

/-- A `Send` whose message is one of the first `n`. -/
def Point.among (n : Nat) : Point → Bool
  | .sendLoop u | .sendEnd u => u < n
  | _ => false

/-- The messages in the buffer whose own `Send` has returned. -/
def leftBehind (st : Monitor Point Cond Mailbox) : Nat :=
  (items st.shared.buffer).countP fun message => st.returned (Point.owns message.v) ≠ 0

/-- The receives that have entered and not returned. -/
def receiving (st : Monitor Point Cond Mailbox) : Nat :=
  st.count Point.received - st.returned Point.received

/-- The sends that have not returned although their message was removed. -/
def owed (st : Monitor Point Cond Mailbox) : Nat :=
  st.count (Point.among st.shared.removed.length) - st.returned
    (Point.among st.shared.removed.length)

/-- At this point a `Send` passes its test with its message still in the buffer, or a
`Receive` that has slept takes the message of a `Send` that has not returned. -/
def outOfTurn (m : Mailbox) (returned : (Point → Bool) → Nat) : Point → Bool
  | .send _ => m.numPendingRecs ≠ 0
  | .sendLoop v => m.numPendingRecs ≠ 0 ∧ m.removed.length ≤ v
  | .receiveLoop => (items m.buffer).head?.any fun message => returned (Point.owns message.v) = 0
  | _ => false

/-- A thread takes a receiver, or a message, while all pending receivers are owed. -/
def Spends (st : Monitor Point Cond Mailbox) (e : Event Point) : Prop :=
  ∃ i, e = .move i ∧ st.shared.numPendingRecs ≤ owed st ∧
    ((st.place i).bind Place.held).any (outOfTurn st.shared st.returned) = true

instance (st : Monitor Point Cond Mailbox) (e : Event Point) : Decidable (Spends st e) :=
  decidableMove e

/-! ## Addresses -/

/-- The sends have the addresses of the messages, each one once; the buffer has the last of
them, in order. -/
structure Numbered (a : System Point Cond Mailbox) : Prop where
  among : ∀ n, a.count (Point.among n) = min n a.shared.appended.length
  sent : a.count Point.sent = a.shared.appended.length
  buffer : (items a.shared.buffer).map Message.v =
    List.range' a.shared.removed.length a.shared.buffer.length

section Addresses

variable {a b : System Point Cond Mailbox} {pc : Point} {m m' : Mailbox}
  {action : Action Point Cond}

attribute [local simp] Action.returns Action.next Action.holder Point.sent Point.among Point.owns
  append items

theorem Balanced.length (balanced : Balanced a) :
    a.shared.appended.length = a.shared.removed.length + a.shared.buffer.length := by
  rw [balanced.order]
  simp

theorem Numbered.enters (numbered : Numbered a) (enters : Enters program a b) : Numbered b := by
  have sent : b.count Point.sent = a.count Point.sent :=
    enters.count fun pc entry => by cases pc <;> first | rfl | cases entry
  constructor
  · intro n
    rw [enters.shared, ← numbered.among n]
    exact enters.count fun pc entry => by cases pc <;> first | rfl | cases entry
  · rw [enters.shared, sent, numbered.sent]
  · rw [enters.shared, numbered.buffer]

/-- A message is appended to the buffer. -/
theorem numbered_append {message : Int}
    (length : m.appended.length = m.removed.length + m.buffer.length)
    (buffer : (items m.buffer).map Message.v = List.range' m.removed.length m.buffer.length) :
    (items (append m.buffer ⟨m.appended.length, message⟩)).map Message.v =
      List.range' m.removed.length (append m.buffer ⟨m.appended.length, message⟩).length := by
  have last : List.range' m.removed.length (m.buffer.length + 1) =
      List.range' m.removed.length m.buffer.length ++ [m.appended.length] := by
    rw [List.range'_concat, length, one_mul]
  simp only [append, items] at buffer ⊢
  simp [last, buffer]

/-- A message is removed from the buffer. -/
theorem numbered_remove {message : Message} {key : Int} {rest : List (ListElement Message)}
    (head : m.buffer = ⟨message, key⟩ :: rest)
    (buffer : (items m.buffer).map Message.v = List.range' m.removed.length m.buffer.length) :
    message.v = m.removed.length ∧
      (items rest).map Message.v =
        List.range' (m.removed ++ [message.value]).length rest.length := by
  rw [head] at buffer
  simpa [List.range'_succ] using buffer

/-- What a segment of the code does to the addresses. -/
theorem code_numbered (length : m.appended.length = m.removed.length + m.buffer.length)
    (buffer : (items m.buffer).map Message.v = List.range' m.removed.length m.buffer.length)
    (ran : code pc m = some (m', action)) :
    (∀ n, min n m'.appended.length + (pc.among n).toNat =
      min n m.appended.length + ((action.next pc).among n).toNat) ∧
    m'.appended.length + pc.sent.toNat = m.appended.length + (action.next pc).sent.toNat ∧
    (items m'.buffer).map Message.v = List.range' m'.removed.length m'.buffer.length := by
  have more : ∀ n k : Nat, min n (k + 1) = min n k + (decide (k < n)).toNat := by
    intro n k
    by_cases less : k < n
    · simp [less]
      omega
    · simp [less]
      omega
  cases pc with
  | send message =>
      obtain ⟨-, rfl, rfl⟩ | ⟨-, rfl, rfl⟩ := sendLoop_cases (Option.some.inj ran)
      · exact ⟨fun n => by simp [more], by simp, numbered_append length buffer⟩
      · exact ⟨fun n => by simp [more], by simp, numbered_append length buffer⟩
  | sendLoop v =>
      obtain ⟨-, rfl, rfl⟩ | ⟨-, rfl, rfl⟩ := sendLoop_cases (Option.some.inj ran)
      · exact ⟨fun _ => rfl, rfl, buffer⟩
      · exact ⟨fun _ => rfl, rfl, buffer⟩
  | sendEnd v =>
      cases ran
      exact ⟨fun _ => rfl, rfl, buffer⟩
  | receive =>
      obtain ⟨-, rfl, rfl⟩ | ⟨message, key, rest, head, rfl, rfl⟩ := receiveLoop_cases ran
      · exact ⟨fun _ => rfl, rfl, buffer⟩
      · exact ⟨fun _ => rfl, rfl, (numbered_remove head buffer).2⟩
  | receiveLoop =>
      obtain ⟨-, rfl, rfl⟩ | ⟨message, key, rest, head, rfl, rfl⟩ := receiveLoop_cases ran
      · exact ⟨fun _ => rfl, rfl, buffer⟩
      · exact ⟨fun _ => rfl, rfl, (numbered_remove head buffer).2⟩
  | receiveEnd message =>
      cases ran
      exact ⟨fun _ => rfl, rfl, buffer⟩

theorem Numbered.runs (balanced : Balanced a) (numbered : Numbered a) (runs : Runs program a b) :
    Numbered b := by
  obtain ⟨pc, action, here, ran, there, moves⟩ := runs.cases'
  obtain ⟨among, sent, buffer⟩ := code_numbered balanced.length numbered.buffer ran
  constructor
  · intro n
    have counted := moves.count (p := Point.among n) here there
    have before := numbered.among n
    have step := among n
    omega
  · have counted := moves.count (p := Point.sent) here there
    have before := numbered.sent
    omega
  · exact buffer

/-- Among the first `n + 1` are the first `n` and the next. -/
theorem among_succ (n : Nat) (pc : Point) :
    (pc.among (n + 1)).toNat = (pc.among n).toNat + (pc.owns n).toNat := by
  have next : ∀ u : Nat, (decide (u < n + 1)).toNat =
      (decide (u < n)).toNat + (decide (u = n)).toNat := by
    intro u
    obtain less | rfl | more := Nat.lt_trichotomy u n
    · simp [less, Nat.ne_of_lt less, Nat.lt_succ_of_lt less]
    · simp
    · have differ : u ≠ n := Nat.ne_of_gt more
      have large : ¬ u < n + 1 := by omega
      simp [differ, large, Nat.lt_asymm more]
  cases pc with
  | sendLoop u => exact next u
  | sendEnd u => exact next u
  | send | receive | receiveLoop | receiveEnd => rfl

/-- Every message has one `Send`, which returns at most once. -/
theorem Numbered.returned_succ (numbered : Numbered a) (n : Nat) :
    a.returned (Point.among (n + 1)) =
      a.returned (Point.among n) + (decide (a.returned (Point.owns n) ≠ 0)).toNat := by
  have counted := count_add (a := a) (among_succ n)
  have back := returned_add (a := a) (among_succ n)
  have once := returned_le_count (a := a) (p := Point.owns n)
  have first := numbered.among n
  have next := numbered.among (n + 1)
  by_cases none : a.returned (Point.owns n) = 0
  · simp [back, none]
  · simp only [none, ne_eq, not_false_eq_true, decide_true, Bool.toNat_true]
    omega

/-- All sends have the address of a message. -/
theorem Numbered.returned_all (numbered : Numbered a) :
    a.returned Point.sent = a.returned (Point.among a.shared.appended.length) := by
  have apart : ∀ pc : Point, pc.sent.toNat = (pc.among a.shared.appended.length).toNat +
      (pc.sent && !pc.among a.shared.appended.length).toNat := by
    intro pc
    cases pc with
    | sendLoop u => by_cases less : u < a.shared.appended.length <;> simp [less]
    | sendEnd u => by_cases less : u < a.shared.appended.length <;> simp [less]
    | send | receive | receiveLoop | receiveEnd => rfl
  have counted := count_add (a := a) apart
  have back := returned_add (a := a) apart
  have less := returned_le_count (a := a)
    (p := fun pc => pc.sent && !pc.among a.shared.appended.length)
  have all := numbered.among a.shared.appended.length
  have sent := numbered.sent
  omega

/-- The sends that have returned are those whose message was removed and those who left it
behind. -/
theorem Numbered.left_behind (balanced : Balanced a) (numbered : Numbered a) :
    (items a.shared.buffer).countP (fun message => a.returned (Point.owns message.v) ≠ 0) +
      a.returned (Point.among a.shared.removed.length) = a.returned Point.sent := by
  have range : ∀ s n, (List.range' s n).countP (fun v => a.returned (Point.owns v) ≠ 0) +
      a.returned (Point.among s) = a.returned (Point.among (s + n)) := by
    intro s n
    induction n with
    | zero => simp
    | succ n ih =>
        rw [List.range'_concat, List.countP_append, ← Nat.add_assoc, numbered.returned_succ,
          ← ih, one_mul]
        by_cases none : a.returned (Point.owns (s + n)) = 0
        · simp [none]
        · simp [none]
          omega
  have all := range a.shared.removed.length a.shared.buffer.length
  rw [← numbered.buffer, List.countP_map, ← balanced.length, ← numbered.returned_all] at all
  exact all

end Addresses

/-! ## Receivers are left for the sends that are owed one -/

/-- The holder of the lock has found a receiver, and its message is still in the buffer. -/
def spending (removed : Nat) : Option Point → Int
  | some (.sendEnd v) => if removed ≤ v then 1 else 0
  | _ => 0

/-- The sends whose message is gone find a receiver, each its own. -/
def Covered (a : System Point Cond Mailbox) : Prop :=
  (a.shared.removed.length : Int) - a.returned (Point.among a.shared.removed.length) +
    spending a.shared.removed.length a.holder ≤ a.shared.numPendingRecs

section Covering

variable {a b : System Point Cond Mailbox} {st : Monitor Point Cond Mailbox}
  {events : List (Event Point)}

attribute [local simp] Action.returns Action.next Action.holder spending Point.among

theorem Covered.enters (balanced : Balanced a) (covered : Covered a) (enters : Enters program a b) :
    Covered b := by
  obtain ⟨-, holder⟩ := enters.lawful
    (fun pc entry => by cases pc <;> first | rfl | cases entry) balanced.lawful
  have same : ∀ n, spending n b.holder = spending n a.holder := by
    intro n
    obtain same | ⟨before, pc, after, resting⟩ := holder
    · rw [same]
    · rw [before, after]
      cases pc <;> first | rfl | cases resting
  unfold Covered
  rw [enters.shared, enters.returned, same]
  exact covered

theorem Covered.runs (balanced : Balanced a) (numbered : Numbered a) (covered : Covered a)
    (runs : Runs program a b)
    (inTurn : ∀ pc, a.holder = some pc → outOfTurn a.shared (fun p => a.returned p) pc = true →
      (a.shared.removed.length : Int) - a.returned (Point.among a.shared.removed.length) <
        a.shared.numPendingRecs) : Covered b := by
  obtain ⟨pc, action, here, ran, there, moves⟩ := runs.cases'
  have back : ∀ p, b.returned p = a.returned p + (action.returns && p pc).toNat := fun p =>
    moves.returned
  have length := balanced.length
  have inTurn := inTurn pc here
  unfold Covered at covered ⊢
  rw [here] at covered
  rw [there]
  cases pc with
  | send message =>
      obtain ⟨-, shared, rfl⟩ | ⟨receiver, shared, rfl⟩ := sendLoop_cases (Option.some.inj ran)
      · simpa [shared, back] using covered
      · have strict := inTurn (by simpa [outOfTurn] using receiver)
        simp [shared, back, length]
        omega
  | sendLoop v =>
      obtain ⟨-, shared, rfl⟩ | ⟨receiver, shared, rfl⟩ := sendLoop_cases (Option.some.inj ran)
      · simpa [shared, back] using covered
      · by_cases buffered : a.shared.removed.length ≤ v
        · have strict := inTurn (by simp [outOfTurn, receiver, buffered])
          simp [shared, back, buffered]
          omega
        · simpa [shared, back, buffered] using covered
  | sendEnd v =>
      obtain ⟨shared, rfl⟩ := Prod.mk.inj (Option.some.inj ran)
      simp only [← shared, back]
      by_cases buffered : a.shared.removed.length ≤ v
      · simp [buffered, Nat.not_lt.mpr buffered] at covered ⊢
        omega
      · simp [buffered, Nat.lt_of_not_le buffered] at covered ⊢
        omega
  | receive =>
      obtain ⟨-, shared, rfl⟩ | ⟨message, key, rest, head, shared, rfl⟩ := receiveLoop_cases ran
      · simp [shared, back] at covered ⊢
        omega
      · have next := numbered.returned_succ a.shared.removed.length
        simp [shared, back] at covered ⊢
        omega
  | receiveLoop =>
      obtain ⟨-, shared, rfl⟩ | ⟨message, key, rest, head, shared, rfl⟩ := receiveLoop_cases ran
      · simpa [shared, back] using covered
      · have next := numbered.returned_succ a.shared.removed.length
        obtain ⟨address, -⟩ := numbered_remove head numbered.buffer
        by_cases returned : a.returned (Point.owns a.shared.removed.length) = 0
        · have strict := inTurn (by simp [outOfTurn, head, items, address, returned])
          simp [shared, back] at covered ⊢
          omega
        · simp [returned] at next
          simp [shared, back] at covered ⊢
          omega
  | receiveEnd message =>
      obtain ⟨shared, rfl⟩ := Prod.mk.inj (Option.some.inj ran)
      simpa [← shared, back] using covered

/-- What every state has, of a run in which nobody spends what is owed. -/
def Kept (st : Monitor Point Cond Mailbox) : Prop :=
  Sound st ∧ Balanced st.view ∧ Numbered st.view ∧ Covered st.view

theorem init_kept : Kept (init Mailbox.create) := by
  refine ⟨init_sound _, create_balanced, ⟨fun n => ?_, ?_, ?_⟩, ?_⟩
  · exact (Nat.min_zero n).symm
  · rfl
  · rfl
  · exact le_refl _

theorem step_kept (st : Monitor Point Cond Mailbox) (e : Event Point)
    (st' : Monitor Point Cond Mailbox)
    (kept : Kept st) (spared : ¬ Spends st e) (stepped : step program st e = some st') :
    Kept st' := by
  refine step_keeps (I := fun a => Balanced a ∧ Numbered a ∧ Covered a)
    (A := fun st e => ¬ Spends st e) ?_ ?_ st e st' kept spared stepped
  · rintro a b ⟨balanced, numbered, covered⟩ enters
    exact ⟨balanced.enters enters, numbered.enters enters, covered.enters balanced enters⟩
  · rintro st i pc b sound there spared ⟨balanced, numbered, covered⟩ runs
    refine ⟨balanced.runs runs, numbered.runs balanced runs, covered.runs balanced numbered runs ?_⟩
    intro pc' here early
    obtain rfl : pc = pc' := Option.some.inj ((sound.holder there).2.2.symm.trans here)
    have some : ¬ st.shared.numPendingRecs ≤ owed st := by
      intro few
      refine spared ⟨i, rfl, few, ?_⟩
      have same : (fun p => st.view.returned p) = st.returned := funext fun _ => view_returned
      rw [same] at early
      rw [there]
      exact early
    have removed := numbered.among st.shared.removed.length
    have length : st.shared.appended.length = st.shared.removed.length + st.shared.buffer.length :=
      balanced.length
    have back := returned_le_count (a := st.view) (p := Point.among st.shared.removed.length)
    have shared : st.view.shared = st.shared := rfl
    rw [owed, ← sound.view_count, ← view_returned] at some
    rw [shared] at removed ⊢
    omega

/-- A `Send` leaves its message behind only for a receiver that is there to take it. -/
def Meets (st : Monitor Point Cond Mailbox) : Prop := leftBehind st ≤ receiving st

theorem Kept.meets (kept : Kept st) : Meets st := by
  obtain ⟨sound, balanced, numbered, covered⟩ := kept
  have behind := numbered.left_behind balanced
  have recs := balanced.recs
  have sends := balanced.sends
  have buffered := balanced.buffered
  have length := balanced.length
  have sent := numbered.sent
  have positive : 0 ≤ spending st.view.shared.removed.length st.view.holder := by
    unfold spending
    split
    · split <;> decide
    · decide
  have none : 0 ≤ taken st.view.holder := by
    unfold taken
    split <;> decide
  unfold Covered at covered
  have left : leftBehind st = (items st.view.shared.buffer).countP
      fun message => st.view.returned (Point.owns message.v) ≠ 0 := by
    simp only [leftBehind, view_returned]
    rfl
  rw [Meets, left, receiving, ← sound.view_count, ← view_returned]
  omega

/-- **A `Send` never returns with its message left to nobody, in every run in which no
thread takes a receiver that is owed to another.** -/
theorem send_meets_receive (events : List (Event Point))
    (spared : AllSteps (step program) (fun st e => ¬ Spends st e) (init Mailbox.create) events) :
    AllStates (step program) Meets (init Mailbox.create) events :=
  (allStates_of_invariant step_kept init_kept spared).mono fun _ kept => kept.meets

/-- A sender waits, and a receiver takes its message and wakes it; the sender goes home, and
the next pair meets the other way round. -/
theorem send_meets_receive_four :
    (∃ st, exec (step program) (init Mailbox.create)
        [.call (.send 1) 0, .move 0, .move 0, .call .receive 0, .move 1, .move 1, .move 1,
          .move 0, .move 0, .move 0, .call .receive 0, .move 2, .move 2,
          .call (.send 2) 0, .move 3, .move 3, .move 3] = some st ∧ leftBehind st = 1) ∧
      AllStates (step program) Meets (init Mailbox.create)
        [.call (.send 1) 0, .move 0, .move 0, .call .receive 0, .move 1, .move 1, .move 1,
          .move 0, .move 0, .move 0, .call .receive 0, .move 2, .move 2,
          .call (.send 2) 0, .move 3, .move 3, .move 3] :=
  ⟨⟨_, rfl, by decide⟩, send_meets_receive _ (by decide)⟩

/-- A sender waits and a receiver takes its message; before the sender runs another one
comes, finds the receiver that was counted for the first, and leaves. -/
theorem send_leaves_message :
    ∃ st, exec (step program) (init Mailbox.create)
        [.call (.send 1) 0, .move 0, .move 0, .call .receive 0, .move 1, .move 1, .move 1,
          .call (.send 2) 0, .move 2, .move 2, .move 2] = some st ∧
      leftBehind st = 1 ∧ st.count Point.isReceive = st.returned Point.isReceive ∧ ¬ Meets st :=
  ⟨_, rfl, by decide, by decide, by unfold Meets; decide⟩

end Covering

end Nachos.Threads.Mailboxes
