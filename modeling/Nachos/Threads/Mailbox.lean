/-
# Nachos.Threads.Mailbox -- `Mailbox::Send` and `Mailbox::Receive`

A `Send` counts itself in `numPendingSends`, appends its message and waits for a receiver
in `numPendingRecs`, from which it takes one; `Receive` does the same the other way round.
Neither counter is touched by the side that reads it, so that what a counter says is a
matter of both procedures (`Balanced`): entered receives less returned sends, and entered
sends less returned receives.  The buffer has as many messages as `numPendingSends` says,
but for the receiver that has taken its message and not counted it off.

The segments of the code end at a call of `Signal`, `Wait` or `Release`.
-/
import Nachos.Threads.Synch

namespace Nachos.Threads.Mailboxes

open Nachos.Lib.Monitor
open Nachos.Lib.Run
open Nachos.Threads.Synch

set_option autoImplicit false

/-- A message in the buffer: the address `Send` got for it, and the value there. -/
structure Message where
  v : Nat
  value : Int
  deriving DecidableEq, Repr

structure Mailbox where
  buffer : List (ListElement Message)
  numPendingSends : Int
  numPendingRecs : Int
  /-- The values appended to the buffer, in order. -/
  appended : List Int
  /-- The values removed from the buffer, in order. -/
  removed : List Int

inductive Cond where
  | mailSnd | mailRcv
  deriving DecidableEq, Repr

inductive Point where
  | send (message : Int)
  /-- Before the test of `numPendingRecs`. -/
  | sendLoop (v : Nat)
  /-- After `mailRcv->Signal(lock)`. -/
  | sendEnd (v : Nat)
  | receive
  /-- Before the test of `numPendingSends`. -/
  | receiveLoop
  /-- After `mailSnd->Signal(lock)`, with what is in `*message`. -/
  | receiveEnd (message : Int)
  deriving DecidableEq, Repr

/-- `Mailbox::Mailbox`. -/
def Mailbox.create : Mailbox := ⟨[], 0, 0, [], []⟩

/-- The loop of `Send`, and `mailRcv->Signal(lock)`. -/
def sendLoop (m : Mailbox) (v : Nat) : Mailbox × Action Point Cond :=
  if m.numPendingRecs = 0 then (m, .wait .mailSnd (.sendLoop v))
  else (m, .signal .mailRcv (.sendEnd v))

/-- The loop of `Receive`, the removal and `mailSnd->Signal(lock)`; `none` when
`buffer->Remove()` returns `NULL`, which is dereferenced. -/
def receiveLoop (m : Mailbox) : Option (Mailbox × Action Point Cond) :=
  if m.numPendingSends = 0 then some (m, .wait .mailRcv .receiveLoop)
  else
    match remove m.buffer with
    | none => none
    | some (message, rest) =>
        some ({ m with buffer := rest, removed := m.removed ++ [message.value] },
          .signal .mailSnd (.receiveEnd message.value))

def code : Point → Mailbox → Option (Mailbox × Action Point Cond)
  | .send message, m =>
      let v := m.appended.length
      some (sendLoop { m with
        numPendingSends := m.numPendingSends + 1
        buffer := append m.buffer ⟨v, message⟩
        appended := m.appended ++ [message] } v)
  | .sendLoop v, m => some (sendLoop m v)
  | .sendEnd _, m => some ({ m with numPendingRecs := m.numPendingRecs - 1 }, .release)
  | .receive, m => receiveLoop { m with numPendingRecs := m.numPendingRecs + 1 }
  | .receiveLoop, m => receiveLoop m
  | .receiveEnd _, m => some ({ m with numPendingSends := m.numPendingSends - 1 }, .release)

/-- A call begins at the `Acquire` of `Send` or of `Receive`. -/
def Point.entry : Point → Bool
  | .send _ | .receive => true
  | _ => false

def program : Program Point Cond Mailbox where
  entry := Point.entry
  code := code

/-! ## The books -/

/-- A `Send` that has entered: it is counted in `numPendingSends`. -/
def Point.sent : Point → Bool
  | .sendLoop _ | .sendEnd _ => true
  | _ => false

/-- A `Receive` that has entered. -/
def Point.received : Point → Bool
  | .receiveLoop | .receiveEnd _ => true
  | _ => false

/-- Where a thread can be without the lock. -/
def lawful : Status Point Cond → Bool
  | .awake (.send _) | .awake (.sendLoop _) | .awake .receive | .awake .receiveLoop => true
  | .asleep .mailSnd (.sendLoop _) | .asleep .mailRcv .receiveLoop => true
  | .done (.sendEnd _) | .done (.receiveEnd _) => true
  | _ => false

theorem lawful_up (c : Cond) (pc : Point) (asleep : lawful (.asleep c pc) = true) :
    lawful (.awake pc) = true := by
  cases c <;> cases pc <;> first | rfl | cases asleep

/-- The holder of the lock has removed a message and not counted it off yet. -/
def taken : Option Point → Int
  | some (.receiveEnd _) => 1
  | _ => 0

/-- The holder of the lock has found a receiver and not counted it off yet. -/
def found : Option Point → Int
  | some (.sendEnd _) => 1
  | _ => 0

structure Balanced (a : System Point Cond Mailbox) : Prop where
  lawful : Lawful lawful a.others
  recs : a.shared.numPendingRecs = a.count Point.received - a.returned Point.sent
  sends : a.shared.numPendingSends = a.count Point.sent - a.returned Point.received
  buffered : a.shared.numPendingSends = a.shared.buffer.length + taken a.holder
  receiver : found a.holder ≤ a.shared.numPendingRecs
  order : a.shared.appended = a.shared.removed ++ (items a.shared.buffer).map Message.value

section Invariant

variable {a b : System Point Cond Mailbox}

theorem Balanced.enters (balanced : Balanced a) (enters : Enters program a b) : Balanced b := by
  obtain ⟨law, recs, sends, buffered, receiver, order⟩ := balanced
  have received : b.count Point.received = a.count Point.received :=
    enters.count fun pc entry => by cases pc <;> first | rfl | cases entry
  have sent : b.count Point.sent = a.count Point.sent :=
    enters.count fun pc entry => by cases pc <;> first | rfl | cases entry
  obtain ⟨lawful', holder⟩ := enters.lawful
    (fun pc entry => by cases pc <;> first | rfl | cases entry) law
  have same : taken b.holder = taken a.holder ∧ found b.holder = found a.holder := by
    obtain same | ⟨before, pc, after, resting⟩ := holder
    · rw [same]
      exact ⟨rfl, rfl⟩
    · rw [before, after]
      cases pc <;> first | exact ⟨rfl, rfl⟩ | cases resting
  constructor
  · exact lawful'
  · rw [enters.shared, received, enters.returned, recs]
  · rw [enters.shared, sent, enters.returned, sends]
  · rw [enters.shared, same.1, buffered]
  · rw [enters.shared, same.2]
    exact receiver
  · rw [enters.shared, order]

/-- What a segment of the code does to the counters and the buffer. -/
structure Booked (pc : Point) (m m' : Mailbox) (action : Action Point Cond) : Prop where
  recs : m'.numPendingRecs + (action.returns && pc.sent).toNat + pc.received.toNat =
    m.numPendingRecs + (action.next pc).received.toNat
  sends : m'.numPendingSends + (action.returns && pc.received).toNat + pc.sent.toNat =
    m.numPendingSends + (action.next pc).sent.toNat
  buffered : m'.numPendingSends - m'.buffer.length - taken action.holder =
    m.numPendingSends - m.buffer.length - taken (some pc)
  receiver : found (some pc) ≤ m.numPendingRecs → found action.holder ≤ m'.numPendingRecs
  order : m.appended = m.removed ++ (items m.buffer).map Message.value →
    m'.appended = m'.removed ++ (items m'.buffer).map Message.value
  leaves : ∀ x, action.left pc = some x → lawful x = true

variable {pc : Point} {m m' : Mailbox} {action : Action Point Cond} {v : Nat}

theorem sendLoop_cases (ran : sendLoop m v = (m', action)) :
    (m.numPendingRecs = 0 ∧ m' = m ∧ action = .wait .mailSnd (.sendLoop v)) ∨
      (m.numPendingRecs ≠ 0 ∧ m' = m ∧ action = .signal .mailRcv (.sendEnd v)) := by
  unfold sendLoop at ran
  split at ran
  · rename_i nobody
    cases ran
    exact .inl ⟨nobody, rfl, rfl⟩
  · rename_i receiver
    cases ran
    exact .inr ⟨receiver, rfl, rfl⟩

theorem receiveLoop_cases (ran : receiveLoop m = some (m', action)) :
    (m.numPendingSends = 0 ∧ m' = m ∧ action = .wait .mailRcv .receiveLoop) ∨
      ∃ message key rest, m.buffer = ⟨message, key⟩ :: rest ∧
        m' = { m with buffer := rest, removed := m.removed ++ [message.value] } ∧
        action = .signal .mailSnd (.receiveEnd message.value) := by
  unfold receiveLoop at ran
  split at ran
  · rename_i nothing
    cases ran
    exact .inl ⟨nothing, rfl, rfl⟩
  · cases removed : remove m.buffer with
    | none => simp [removed] at ran
    | some pair =>
        obtain ⟨message, rest⟩ := pair
        obtain ⟨key, head⟩ := remove_eq_some removed
        simp only [removed, Option.some.injEq] at ran
        cases ran
        exact .inr ⟨message, key, rest, head, rfl, rfl⟩

attribute [local simp] Action.returns Action.next Action.holder Action.left taken found
  lawful Point.sent
  Point.received append items

theorem code_booked (ran : code pc m = some (m', action)) : Booked pc m m' action := by
  cases pc with
  | send message =>
      obtain ⟨-, rfl, rfl⟩ | ⟨receiver, rfl, rfl⟩ := sendLoop_cases (Option.some.inj ran)
      · constructor <;> simp
        intro order
        rw [order, List.append_assoc]
      · simp only at receiver
        constructor <;> simp
        · omega
        · intro order
          rw [order, List.append_assoc]
  | sendLoop v =>
      obtain ⟨-, rfl, rfl⟩ | ⟨receiver, rfl, rfl⟩ := sendLoop_cases (Option.some.inj ran)
      · constructor <;> simp
      · constructor <;> simp
        omega
  | sendEnd v =>
      cases ran
      constructor <;> simp
  | receive =>
      obtain ⟨-, rfl, rfl⟩ | ⟨message, key, rest, head, rfl, rfl⟩ := receiveLoop_cases ran
      · constructor <;> simp
        omega
      · simp only at head
        constructor <;> simp [head]
        · omega
        · omega
  | receiveLoop =>
      obtain ⟨-, rfl, rfl⟩ | ⟨message, key, rest, head, rfl, rfl⟩ := receiveLoop_cases ran
      · constructor <;> simp
      · constructor <;> simp [head]
        omega
  | receiveEnd message =>
      cases ran
      constructor <;> simp
      omega

theorem Balanced.runs (balanced : Balanced a) (runs : Runs program a b) : Balanced b := by
  obtain ⟨law, recs, sends, buffered, receiver, order⟩ := balanced
  obtain ⟨pc, action, here, ran, there, moves⟩ := runs.cases'
  have booked := code_booked ran
  have received := moves.count (p := Point.received) here there
  have sent := moves.count (p := Point.sent) here there
  have sendsBack := moves.returned (p := Point.sent) (a := a) (b := b)
  have receivesBack := moves.returned (p := Point.received) (a := a) (b := b)
  rw [here] at buffered receiver
  have recs' := booked.recs
  have sends' := booked.sends
  have buffered' := booked.buffered
  constructor
  · exact moves.lawful lawful_up booked.leaves law
  · omega
  · omega
  · rw [there]
    omega
  · rw [there]
    exact booked.receiver receiver
  · exact booked.order order

/-- Whoever sleeps has been outnumbered: a receiver sleeps only while more receives than
sends have entered, by as many as sleep, and the other way round. -/
structure Paired (a : System Point Cond Mailbox) : Prop where
  senders : 0 < a.sleeping Point.sent →
    a.count Point.received + a.sleeping Point.sent ≤ a.count Point.sent
  receivers : 0 < a.sleeping Point.received →
    a.count Point.sent + a.sleeping Point.received ≤ a.count Point.received

theorem Paired.enters (paired : Paired a) (enters : Enters program a b) : Paired b := by
  have received : b.count Point.received = a.count Point.received :=
    enters.count fun pc entry => by cases pc <;> first | rfl | cases entry
  have sent : b.count Point.sent = a.count Point.sent :=
    enters.count fun pc entry => by cases pc <;> first | rfl | cases entry
  constructor
  · rw [enters.sleeping, received, sent]
    exact paired.senders
  · rw [enters.sleeping, received, sent]
    exact paired.receivers

/-- Senders sleep on `mailSnd`, and receivers on `mailRcv`. -/
theorem sleeps_on (law : Lawful lawful a.others) (c : Cond) (pc : Point)
    (there : .asleep c pc ∈ a.others) :
    (pc.sent = true ↔ c = .mailSnd) ∧ (pc.received = true ↔ c = .mailRcv) := by
  have ok := law _ there
  cases c <;> cases pc <;> first | (simp; done) | cases ok

/-- `mailRcv->Signal(lock)` wakes a receiver, if one sleeps. -/
theorem signal_mailRcv {next : Point} (law : Lawful lawful a.others)
    (moves : (Action.signal Cond.mailRcv next).Moves pc a.others b.others) :
    b.sleeping Point.received = a.sleeping Point.received - 1 ∧
      b.sleeping Point.sent = a.sleeping Point.sent := by
  constructor
  · exact Wakes.sleeping moves fun c pc there => (sleeps_on law c pc there).2
  · refine Wakes.sleeping_other moves fun pc there => ?_
    have := (sleeps_on law _ pc there).1
    simpa using this

/-- `mailSnd->Signal(lock)` wakes a sender, if one sleeps. -/
theorem signal_mailSnd {next : Point} (law : Lawful lawful a.others)
    (moves : (Action.signal Cond.mailSnd next).Moves pc a.others b.others) :
    b.sleeping Point.sent = a.sleeping Point.sent - 1 ∧
      b.sleeping Point.received = a.sleeping Point.received := by
  constructor
  · exact Wakes.sleeping moves fun c pc there => (sleeps_on law c pc there).1
  · refine Wakes.sleeping_other moves fun pc there => ?_
    have := (sleeps_on law _ pc there).2
    simpa using this

theorem Paired.runs (balanced : Balanced a) (paired : Paired a) (runs : Runs program a b) :
    Paired b := by
  obtain ⟨law, recs, sends, -, -, -⟩ := balanced
  obtain ⟨senders, receivers⟩ := paired
  obtain ⟨pc, action, here, ran, there, moves⟩ := runs.cases'
  have received := moves.count (p := Point.received) here there
  have sent := moves.count (p := Point.sent) here there
  -- the one that holds the lock is neither done nor asleep
  have sendersRoom := returned_add_sleeping_le (p := Point.sent) (a := a)
  have receiversRoom := returned_add_sleeping_le (p := Point.received) (a := a)
  rw [here] at sendersRoom receiversRoom
  cases pc with
  | send message =>
      obtain ⟨nobody, -, rfl⟩ | ⟨receiver, -, rfl⟩ := sendLoop_cases (Option.some.inj ran)
      · have sleepers := sleeping_cons (p := Point.sent) moves
        have others := sleeping_cons (p := Point.received) moves
        simp only at nobody
        simp [Status.sleeps] at received sent sendersRoom receiversRoom sleepers others
        constructor <;> omega
      · obtain ⟨sleepers, others⟩ := signal_mailRcv law moves
        simp at received sent sendersRoom receiversRoom
        constructor <;> omega
  | sendLoop v =>
      obtain ⟨nobody, -, rfl⟩ | ⟨receiver, -, rfl⟩ := sendLoop_cases (Option.some.inj ran)
      · have sleepers := sleeping_cons (p := Point.sent) moves
        have others := sleeping_cons (p := Point.received) moves
        simp [Status.sleeps] at received sent sendersRoom receiversRoom sleepers others
        constructor <;> omega
      · obtain ⟨sleepers, others⟩ := signal_mailRcv law moves
        simp at received sent sendersRoom receiversRoom
        constructor <;> omega
  | sendEnd v =>
      obtain ⟨-, rfl⟩ := Prod.mk.inj (Option.some.inj ran)
      have sleepers := sleeping_cons (p := Point.sent) moves
      have others := sleeping_cons (p := Point.received) moves
      simp [Status.sleeps] at received sent sleepers others
      constructor <;> omega
  | receive =>
      obtain ⟨nothing, -, rfl⟩ | ⟨message, key, rest, -, -, rfl⟩ := receiveLoop_cases ran
      · have sleepers := sleeping_cons (p := Point.sent) moves
        have others := sleeping_cons (p := Point.received) moves
        simp only at nothing
        simp [Status.sleeps] at received sent sendersRoom receiversRoom sleepers others
        constructor <;> omega
      · obtain ⟨sleepers, others⟩ := signal_mailSnd law moves
        simp at received sent sendersRoom receiversRoom
        constructor <;> omega
  | receiveLoop =>
      obtain ⟨nothing, -, rfl⟩ | ⟨message, key, rest, -, -, rfl⟩ := receiveLoop_cases ran
      · have sleepers := sleeping_cons (p := Point.sent) moves
        have others := sleeping_cons (p := Point.received) moves
        simp [Status.sleeps] at received sent sendersRoom receiversRoom sleepers others
        constructor <;> omega
      · obtain ⟨sleepers, others⟩ := signal_mailSnd law moves
        simp at received sent sendersRoom receiversRoom
        constructor <;> omega
  | receiveEnd message =>
      obtain ⟨-, rfl⟩ := Prod.mk.inj (Option.some.inj ran)
      have sleepers := sleeping_cons (p := Point.sent) moves
      have others := sleeping_cons (p := Point.received) moves
      simp [Status.sleeps] at received sent sleepers others
      constructor <;> omega

end Invariant

theorem create_balanced : Balanced ⟨none, 0, Mailbox.create⟩ := by
  constructor
  · simp [Lawful]
  all_goals simp [Mailbox.create, taken, found, items]

section Delivery

variable {events : List (Event Point)} {st : Monitor Point Cond Mailbox}

/-- With the books in order the buffer has a message for every `Receive` that takes one. -/
theorem Balanced.defined {a : System Point Cond Mailbox} {pc : Point} (balanced : Balanced a)
    (here : a.holder = some pc) : (code pc a.shared).isSome := by
  have buffered := balanced.buffered
  rw [here] at buffered
  have loop : ∀ m : Mailbox, m.numPendingSends = m.buffer.length → (receiveLoop m).isSome := by
    intro m full
    unfold receiveLoop
    split
    · rfl
    · rename_i pending
      cases buffer : m.buffer with
      | nil =>
          rw [buffer] at full
          exact absurd full pending
      | cons e rest => rfl
  cases pc with
  | receive =>
      apply loop
      simpa [taken] using buffered
  | receiveLoop =>
      apply loop
      simpa [taken] using buffered
  | send | sendLoop | sendEnd | receiveEnd => rfl

def Point.isSend : Point → Bool
  | .send _ | .sendLoop _ | .sendEnd _ => true
  | _ => false

def Point.isReceive : Point → Bool
  | .receive | .receiveLoop | .receiveEnd _ => true
  | _ => false

theorem run_paired (run : exec (step program) (init Mailbox.create) events = some st) :
    Sound st ∧ Balanced st.view ∧ Paired st.view := by
  refine run_keeps (I := fun a => Balanced a ∧ Paired a) (fun a b kept enters => ?_)
    (fun a b kept runs => ?_) ?_ run
  · exact ⟨kept.1.enters enters, kept.2.enters enters⟩
  · exact ⟨kept.1.runs runs, kept.2.runs kept.1 runs⟩
  · exact ⟨create_balanced, by simp, by simp⟩

/-- In a lawful state a call whose thread is not awake has entered. -/
theorem entered_of_lawful {x : Status Point Cond} (ok : lawful x = true)
    (asleep : ∀ pc, x ≠ .awake pc) :
    x.pc.isSend = x.pc.sent ∧ x.pc.isReceive = x.pc.received := by
  match x with
  | .awake pc => exact absurd rfl (asleep pc)
  | .asleep c pc => cases c <;> cases pc <;> first | exact ⟨rfl, rfl⟩ | cases ok
  | .done pc => cases pc <;> first | exact ⟨rfl, rfl⟩ | cases ok

/-- **No quiescent state has a sender and a receiver blocked in it**, and in each as many
calls of either kind have returned as there were calls of the rarer kind. -/
theorem mailbox_strands_nobody (events : List (Event Point)) (st : Monitor Point Cond Mailbox)
    (run : exec (step program) (init Mailbox.create) events = some st) (quiescent : Quiescent st) :
    ¬ (Blocked st Point.isSend ∧ Blocked st Point.isReceive) ∧
      st.returned Point.isSend = min (st.count Point.isSend) (st.count Point.isReceive) ∧
      st.returned Point.isReceive = min (st.count Point.isSend) (st.count Point.isReceive) := by
  obtain ⟨sound, balanced, paired⟩ := run_paired run
  obtain ⟨free, nobody⟩ := sound.quiescent quiescent
  have entered : ∀ x ∈ st.view.others, x.pc.isSend = x.pc.sent ∧ x.pc.isReceive = x.pc.received :=
    fun x there => entered_of_lawful (balanced.lawful x there)
      fun pc awake => nobody pc (awake ▸ there)
  obtain ⟨sends, sendsBack, sendsAsleep⟩ := System.congr free fun x there => (entered x there).1
  obtain ⟨receives, receivesBack, receivesAsleep⟩ :=
    System.congr free fun x there => (entered x there).2
  have allSends := count_of_quiescent (p := Point.sent) free nobody
  have allReceives := count_of_quiescent (p := Point.received) free nobody
  have recs := balanced.recs
  have buffered := balanced.buffered
  have pending := balanced.sends
  have receiver := balanced.receiver
  rw [free] at buffered receiver
  simp only [taken, found] at buffered receiver
  obtain ⟨senders, receivers⟩ := paired
  rw [← view_returned, ← view_returned, ← sound.view_count, ← sound.view_count, sends, sendsBack,
    receives, receivesBack]
  refine ⟨?_, by omega, by omega⟩
  rintro ⟨sender, receiver⟩
  have sender := sound.blocked quiescent sender
  have receiver := sound.blocked quiescent receiver
  omega

/-- Two senders come, a receiver takes the first message, and one sender is left. -/
theorem mailbox_strands_nobody_three :
    ∃ st, exec (step program) (init Mailbox.create)
        [.call (.send 1) 0, .move 0, .move 0, .call (.send 2) 0, .move 1, .move 1,
          .call .receive 0, .move 2, .move 2, .move 2, .move 0, .move 0, .move 0] = some st ∧
      Quiescent st ∧ st.returned Point.isSend = min 2 1 := by
  refine ⟨_, rfl, by decide, ?_⟩
  exact (mailbox_strands_nobody
    [.call (.send 1) 0, .move 0, .move 0, .call (.send 2) 0, .move 1, .move 1,
      .call .receive 0, .move 2, .move 2, .move 2, .move 0, .move 0, .move 0] _ rfl (by decide)).2.1

end Delivery

end Nachos.Threads.Mailboxes
