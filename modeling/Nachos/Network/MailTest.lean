/-
# Nachos.Network.MailTest -- `network/nettest.cc`

The main thread of every machine that was started with `-o farAddr` runs `MailTest`: it sends a
message to box 0 of `farAddr`, waits for a message in its own box 0, acknowledges that to where
it came from, waits for an acknowledgement in box 1 and halts.  Packets may be lost, so that a
test need not end.

A machine that halts takes its socket away, and `SendToSocket` fails an `ASSERT` when there is no
socket of the name it is given.

`mailTest_answered` is about every state of every run of any number of such machines, in any
order of their threads, interrupts and losses: what was printed is right, a machine that has
halted has been answered by the machine it wrote to, no `ASSERT` of the post office or of the
network has failed, and that of `SendToSocket` only on a machine whose first message went to one
that was not there.  The machines are started before the first of them sends, which is what
`main` calls `Delay(2)` for.
-/
import Nachos.Network.Delivery

namespace Nachos.Network

open Nachos.Lib.Bytes
open Nachos.Lib.Run

set_option autoImplicit false

/-- The number of boxes in `Initialize`. -/
def nBoxes : Int := 10

/-- The characters of a literal, and the zero behind them. -/
def stringBytes (s : String) : List Byte := (s.toList.map fun c => BitVec.ofNat 8 c.toNat) ++ [0]

def hello : List Byte := stringBytes "Hello there!"

def gotIt : List Byte := stringBytes "Got it!"

/-- One line of `printf("Got \"%s\" from %d, box %d\n", ...)`: `%s` prints up to the zero. -/
structure Line where
  text : List Byte
  source : Word
  box : Word
  deriving DecidableEq, Repr

def Mail.line (m : Mail) : Line :=
  ⟨m.data.takeWhile (· ≠ 0), m.pktHdr.fromId, m.mailHdr.fromId⟩

/-- Where `MailTest` is, with the mail it has received: before the first call, in `Send` or
behind it, in `Receive(0)`, in the second `Send` or behind it, in `Receive(1)`, at the end. -/
inductive Phase where
  | start
  | sending
  | listening
  | replying (first : Mail)
  | waiting (first : Mail)
  | halted (first last : Mail)

/-- The message from another machine. -/
def Phase.first : Phase → Option Mail
  | .start | .sending | .listening => none
  | .replying first | .waiting first | .halted first _ => some first

def Phase.isHalted : Phase → Bool
  | .halted _ _ => true
  | _ => false

structure Tests where
  world : World
  phase : Word → Phase
  printed : Word → List Line
  /-- The `ASSERT` of `SendToSocket` has failed. -/
  failed : Word → Bool

def Tests.create (fresh : Word → Nat → Byte) (key : Word → Nat → Int) : Tests where
  world := Network.create fresh key
  phase _ := .start
  printed _ := []
  failed _ := false

inductive Event where
  /-- `MailTest` on machine `a` goes on to its next call, from the return of the last one.  What
  is in the headers on its stack before it fills them in is `garbage`. -/
  | call (a : Word) (garbage : PacketHeader) (fresh : Nat → Byte)
  /-- Anything but a call. -/
  | system (label : Label)

/-- The machine that takes the step. -/
def Label.machine : Label → Option Word
  | .send a .. | .receive a .. | .go a .. | .transmit a .. | .work a | .sendDone a | .poll a .. |
    .setPriority a .. => some a
  | .lose .. => none

def Label.isCall : Label → Bool
  | .send .. | .receive .. => true
  | _ => false

namespace Tests

/-- The machine was started, and its `nachos` has not ended: it has its socket. -/
def running (started : Word → Bool) (s : Tests) (a : Word) : Bool :=
  started a && !(s.phase a).isHalted && !s.failed a && decide ((s.world.machines a).aborted = none)

/-- The state after a call. -/
def enter (s : Tests) (a : Word) (phase : Phase) (lines : List Line) (world : World) : Tests where
  world := world
  phase := Function.update s.phase a phase
  printed := Function.update s.printed a (s.printed a ++ lines)
  failed := s.failed

/-- `MailTest(farAddr)` on machine `a`. -/
def mailTest (s : Tests) (a farAddr : Word) (garbage : PacketHeader) (fresh : Nat → Byte) :
    Option Tests :=
  let outPktHdr := { garbage with toId := farAddr }
  let outMailHdr : MailHeader := ⟨0, 1, BitVec.ofNat 32 hello.length⟩
  match s.phase a with
  | .start =>
      (s.world.step nBoxes (.send a 0 outPktHdr outMailHdr (fun k => hello.getD k 0) fresh)).map
        (s.enter a .sending [])
  | .sending => (s.world.step nBoxes (.receive a 0 0)).map (s.enter a .listening [])
  | .listening =>
      match (s.world.machines a).returned.getLast? with
      | none => none
      | some r =>
          let outPktHdr := { outPktHdr with toId := r.mail.pktHdr.fromId }
          let outMailHdr := { outMailHdr with
            toId := r.mail.mailHdr.fromId
            length := BitVec.ofNat 32 gotIt.length }
          (s.world.step nBoxes (.send a 0 outPktHdr outMailHdr (fun k => gotIt.getD k 0) fresh)).map
            (s.enter a (.replying r.mail) [r.mail.line])
  | .replying first => (s.world.step nBoxes (.receive a 0 1)).map (s.enter a (.waiting first) [])
  | .waiting first =>
      match (s.world.machines a).returned.getLast? with
      | none => none
      | some r => some (s.enter a (.halted first r.mail) [r.mail.line] s.world)
  | .halted _ _ => none

/-- Where a step calls `SendToSocket`, and the machine of the name that it gives. -/
def toSocket (s : Tests) : Label → Option (Word × Word)
  | .transmit a t false _ =>
      match (s.world.machines a).places t with
      | .send mail _ => some (a, mail.pktHdr.toId)
      | _ => none
  | _ => none

/-- A step that is no call.  `SendToSocket` comes after the `ASSERT` of `Network::Send`. -/
def system (started : Word → Bool) (s : Tests) (label : Label) : Option Tests :=
  (s.world.step nBoxes label).map fun world =>
    match s.toSocket label with
    | none => { s with world }
    | some (a, dest) =>
        if (world.machines a).aborted = none ∧ s.running started dest = false then
          { s with failed := Function.update s.failed a true }
        else { s with world }

/-- A call is made by a thread that is in no other, and only a machine that runs takes a step.
`far a` is the argument of `-o` on machine `a`, if it has one. -/
def step (far : Word → Option Word) (started : Word → Bool) (s : Tests) : Event → Option Tests
  | .call a garbage fresh =>
      match far a with
      | none => none
      | some farAddr =>
          if s.running started a = true ∧ s.world.idle a 0 = true then
            s.mailTest a farAddr garbage fresh
          else none
  | .system label =>
      if label.isCall = false ∧ label.machine.all (s.running started) = true then
        s.system started label
      else none

end Tests

/-! ## What is to hold -/

/-- The tests of all machines, as far as they have come. -/
structure Answered (far : Word → Option Word) (started : Word → Bool) (s : Tests) : Prop where
  /-- The first line shows the message of a machine that writes to this one, -/
  first : ∀ a m, (s.phase a).first = some m → ∃ b, far b = some a ∧
    (s.printed a)[0]? = some ⟨hello.dropLast, b, 1⟩ ∧ m.pktHdr.fromId = b
  /-- a machine that has halted wrote to one that had got its message, and printed the answer, -/
  last : ∀ a first last, s.phase a = .halted first last → ∃ b m, far a = some b ∧
    (s.phase b).first = some m ∧ m.pktHdr.fromId = a ∧
      s.printed a = [first.line, ⟨gotIt.dropLast, b, 1⟩]
  /-- no `ASSERT` of the post office, the network and the lock has failed, -/
  asserts : ∀ a, (s.world.machines a).aborted = none
  /-- and that of `SendToSocket` only for a first message, to a machine that does not run. -/
  sockets : ∀ a, s.failed a = true → s.phase a = .sending ∧
    ∃ b, far a = some b ∧ s.running started b = false

/-! ## One turn of the main thread -/

/-- What a step that is no call may do to the place of the main thread and to the list of returns.
-/
inductive Turn : Place → List Return → Place → List Return → Prop where
  | same (p : Place) (rs : List Return) : Turn p rs p rs
  | woken (p : Place) (rs : List Return) : Turn p rs p.woken rs
  | acquire (mail : Mail) (buffer : Nat → Byte) (asleep : Bool) (rs : List Return) :
      Turn (.lock mail buffer false) rs (.lock mail buffer asleep) rs
  | send (mail : Mail) (buffer : Nat → Byte) (rs : List Return) :
      Turn (.lock mail buffer false) rs (.send mail buffer) rs
  | transmit (mail : Mail) (buffer : Nat → Byte) (rs : List Return) :
      Turn (.send mail buffer) rs (.wait false) rs
  | wait (asleep : Bool) (rs : List Return) : Turn (.wait false) rs (.wait asleep) rs
  | done (rs : List Return) : Turn (.wait false) rs .release rs
  | leave (rs : List Return) : Turn .release rs .outside rs
  | got (b i since number : Nat) (mail : Mail) (rs : List Return) :
      Turn (.remove b i since) rs (.got b number since mail) rs
  | finish (b number since : Nat) (mail : Mail) (rs : List Return) :
      Turn (.got b number since mail) rs .outside (rs ++ [⟨0, b, number, since, mail⟩])

/-- Only the main thread makes calls. -/
def Alone (m : Machine) : Prop := ∀ t, t ≠ 0 → m.places t = .outside

/-- A step of a machine that is no call. -/
structure Calm (m m' : Machine) : Prop where
  alone : Alone m'
  turn : Turn (m.places 0) m.returned (m'.places 0) m'.returned
  aborted : m'.aborted = m.aborted ∨ ∃ x, m'.aborted = some x ∧ x ≠ .send ∧ x ≠ .receiveBox

section Calm

variable {m m' : Machine} {t : Nat}

theorem Calm.refl (alone : Alone m) : Calm m m := ⟨alone, .same _ _, .inl rfl⟩

/-- A step that leaves the places and the returns alone. -/
theorem Calm.of_same (alone : Alone m) (places : m'.places = m.places)
    (returned : m'.returned = m.returned)
    (aborted : m'.aborted = m.aborted ∨ ∃ x, m'.aborted = some x ∧ x ≠ .send ∧ x ≠ .receiveBox) :
    Calm m m' := by
  refine ⟨?_, ?_, aborted⟩
  · intro t other
    rw [places]
    exact alone t other
  · rw [places, returned]
    exact .same _ _

theorem Machine.put_places (m : Machine) (t : Nat) (p : Place) : (m.put t p).places t = p :=
  Function.update_self (f := m.places) ..

/-- Some thread is woken. -/
theorem Calm.of_woken (alone : Alone m) (j : Nat)
    (places : m'.places = Function.update m.places j (m.places j).woken)
    (returned : m'.returned = m.returned) (aborted : m'.aborted = m.aborted) : Calm m m' := by
  refine ⟨?_, ?_, .inl aborted⟩
  · intro t other
    rw [places]
    by_cases here : t = j
    · rw [here, Function.update_self, alone j (here ▸ other)]
      rfl
    · rw [Function.update_of_ne here]
      exact alone t other
  · rw [places, returned]
    by_cases here : 0 = j
    · rw [← here, Function.update_self]
      exact .woken _ _
    · rw [Function.update_of_ne here]
      exact .same _ _

theorem Alone.put (alone : Alone m) (p : Place) : Alone (m.put 0 p) := by
  intro t other
  show Function.update m.places 0 p t = _
  rw [Function.update_of_ne other]
  exact alone t other

/-- The main thread goes on. -/
theorem Machine.go_calm (alone : Alone m) (moved : m.go t = some m') : Calm m m' := by
  by_cases other : t ≠ 0
  · rw [Machine.go, alone t other] at moved
    cases moved
  obtain rfl : t = 0 := by omega
  have here (p : Place) : (m.put 0 p).places 0 = p := m.put_places 0 p
  unfold Machine.go at moved
  split at moved
  · rename_i mail buffer place
    cases moved
    unfold Machine.acquire
    split
    · refine ⟨alone.put _, ?_, .inl rfl⟩
      show Turn _ _ ((m.put 0 _).places 0) _
      rw [here, place]
      exact .acquire ..
    · refine ⟨alone.put _, ?_, .inl rfl⟩
      show Turn _ _ ((m.put 0 _).places 0) _
      rw [here, place]
      exact .send ..
  · rename_i place
    cases moved
    unfold Machine.pSent
    split
    · refine ⟨alone.put _, ?_, .inl rfl⟩
      show Turn _ _ ((m.put 0 _).places 0) _
      rw [here, place]
      exact .wait ..
    · refine ⟨alone.put _, ?_, .inl rfl⟩
      show Turn _ _ ((m.put 0 _).places 0) _
      rw [here, place]
      exact .done ..
  · rename_i place
    cases moved
    unfold Machine.release
    split
    · -- the thread that is woken is another one, or is this one, which is outside by then
      have left : Calm m (m.put 0 .outside) := by
        refine ⟨alone.put _, ?_, .inl rfl⟩
        rw [here, place]
        exact .leave _
      have woken : Alone (m.put 0 .outside).wakeLock ∧
          (m.put 0 .outside).wakeLock.places 0 = .outside ∧
          (m.put 0 .outside).wakeLock.returned = m.returned ∧
          (m.put 0 .outside).wakeLock.aborted = m.aborted := by
        unfold Machine.wakeLock
        split
        · exact ⟨left.alone, here _, rfl, rfl⟩
        · rename_i j rest taken
          have idle : ∀ t, (m.put 0 .outside).places t = .outside := by
            intro t
            by_cases main : t = 0
            · rw [main, here]
            · exact left.alone t main
          have after : ∀ t, Function.update (m.put 0 .outside).places j
              ((m.put 0 .outside).places j).woken t =
              .outside := by
            intro t
            by_cases this : t = j
            · rw [this, Function.update_self, idle]
              rfl
            · rw [Function.update_of_ne this, idle]
          exact ⟨fun t _ => after t, after 0, rfl, rfl⟩
      obtain ⟨others, outside, returned, aborted⟩ := woken
      refine ⟨others, ?_, .inl aborted⟩
      show Turn _ _ ((m.put 0 .outside).wakeLock.places 0) (m.put 0 .outside).wakeLock.returned
      rw [outside, returned, place]
      exact .leave _
    · exact Calm.of_same alone rfl rfl (.inr ⟨_, rfl, by decide, by decide⟩)
  · rename_i b i since place
    obtain ⟨box, -, last⟩ := Option.bind_eq_some_iff.mp moved
    obtain rfl := Option.some.inj last
    split
    · rename_i mail taken
      have alone' : Alone (m.putBox b box) := alone
      refine ⟨alone'.put _, ?_, .inl rfl⟩
      show Turn _ _ (((m.putBox b box).put 0 _).places 0) _
      rw [Machine.put_places, place]
      exact .got ..
    · exact Calm.of_same alone rfl rfl (.inl rfl)
  · rename_i b number since mail place
    cases moved
    unfold Machine.finish
    split
    · refine ⟨alone.put _, ?_, .inl rfl⟩
      show Turn _ _ ((m.put 0 .outside).places 0) _
      rw [here, place]
      exact .finish ..
    · exact Calm.of_same alone rfl rfl (.inr ⟨_, rfl, by decide, by decide⟩)
  · cases moved

/-- An interrupt wakes the main thread. -/
theorem Machine.sendDone_calm (alone : Alone m) : Calm m m.sendDone := by
  unfold Machine.sendDone
  cases first : Threads.remove m.sentQueue with
  | none => exact Calm.of_same alone rfl rfl (.inl rfl)
  | some taken =>
      obtain ⟨j, rest⟩ := taken
      exact Calm.of_woken alone j rfl rfl rfl

theorem Machine.work_calm {numBoxes : Int} (alone : Alone m) (moved : m.work numBoxes = some m') :
    Calm m m' := by
  unfold Machine.work at moved
  split at moved
  · cases moved
    unfold Machine.pAvailable
    split <;> exact Calm.of_same alone rfl rfl (.inl rfl)
  · cases moved
  · cases moved
    unfold Machine.postalDelivery
    simp only
    split
    · split
      · exact Calm.of_same alone rfl rfl (.inl rfl)
      · exact Calm.of_same alone rfl rfl (.inr ⟨_, rfl, by decide, by decide⟩)
    · exact Calm.of_same alone rfl rfl (.inr ⟨_, rfl, by decide, by decide⟩)
  · obtain ⟨box, -, last⟩ := Option.bind_eq_some_iff.mp moved
    obtain rfl := Option.some.inj last
    exact Calm.of_same alone rfl rfl (.inl rfl)

theorem Machine.checkPktAvail_calm {ident : Word} {packet : List Byte} (alone : Alone m) :
    Calm m (m.checkPktAvail ident packet) := by
  unfold Machine.checkPktAvail
  simp only
  split
  · unfold Machine.incomingPacket
    simp only
    split <;> exact Calm.of_same alone rfl rfl (.inl rfl)
  · exact Calm.of_same alone rfl rfl (.inr ⟨_, rfl, by decide, by decide⟩)

theorem Machine.setPriority_calm {priority : Int} (alone : Alone m) :
    Calm m (m.setPriority t priority) := by
  have box : (m.setBoxPriority t priority).places = m.places ∧
      (m.setBoxPriority t priority).returned = m.returned ∧
      (m.setBoxPriority t priority).aborted = m.aborted := by
    unfold Machine.setBoxPriority
    split <;> exact ⟨rfl, rfl, rfl⟩
  exact Calm.of_same alone box.1 box.2.1 (.inl box.2.2)

end Calm

/-- What a step of a machine that is no call does to every machine and to the log of what was
sent. -/
structure World.Calm (who : Option Word) (w w' : World) : Prop where
  machines : ∀ a, Network.Calm (w.machines a) (w'.machines a)
  others : ∀ a, who ≠ some a → w'.machines a = w.machines a
  sent : ∀ source dest, ∀ m ∈ w'.sent source dest, m ∈ w.sent source dest ∨
    ∃ buffer, (w.machines source).places 0 = .send m buffer ∧ m.pktHdr.toId = dest ∧
      (w'.machines source).places 0 = .wait false

section World

variable {w w' : World} {a : Word} {m : Machine}

/-- One machine takes a step. -/
theorem World.calm_of_update (alone : ∀ a, Alone (w.machines a))
    (calm : Network.Calm (w.machines a) m)
    (machines : w'.machines = Function.update w.machines a m) (sent : w'.sent = w.sent) :
    w.Calm (some a) w' := by
  refine ⟨fun b => ?_, fun b other => ?_, fun source dest m member => ?_⟩
  · rw [machines]
    by_cases here : b = a
    · rw [here, Function.update_self]
      exact calm
    · rw [Function.update_of_ne here]
      exact .refl (alone b)
  · have differ : b ≠ a := by
      rintro rfl
      exact other rfl
    rw [machines, Function.update_of_ne differ]
  · rw [sent] at member
    exact .inl member

theorem World.act_calm (alone : ∀ a, Alone (w.machines a)) {next : Option Machine}
    (acted : w.act a next = some w')
    (calm : ∀ m, next = some m → Network.Calm (w.machines a) m) : w.Calm (some a) w' := by
  cases next with
  | none =>
      unfold World.act at acted
      split at acted <;> cases acted
  | some m =>
      obtain rfl := World.act_eq_some acted
      exact World.calm_of_update alone (calm m rfl) rfl rfl

/-- `network->Send` of the main thread. -/
theorem World.transmit_calm (alone : ∀ a, Alone (w.machines a)) {t : Nat} {lost : Bool}
    {fresh : Nat → Byte} (moved : w.transmit a t lost fresh = some w') : w.Calm (some a) w' := by
  unfold World.transmit at moved
  simp only at moved
  split at moved
  · rename_i mail buffer place
    obtain rfl : t = 0 := by
      by_contra other
      rw [alone a t other] at place
      cases place
    split at moved
    · obtain ⟨w₁, acted, rfl⟩ := Option.map_eq_some_iff.mp moved
      obtain rfl := World.act_eq_some acted
      have sent : Network.Calm (w.machines a) ((w.machines a).put 0 (.wait false)) := by
        refine ⟨(alone a).put _, ?_, .inl rfl⟩
        rw [Machine.put_places, place]
        exact .transmit ..
      refine ⟨fun b => ?_, fun b other => ?_, fun source dest m member => ?_⟩
      · by_cases here : b = a
        · subst here
          show Network.Calm _ (Function.update w.machines b _ b)
          rw [Function.update_self]
          exact ⟨sent.alone, sent.turn, .inl rfl⟩
        · show Network.Calm _ (Function.update w.machines a _ b)
          rw [Function.update_of_ne here]
          exact .refl (alone b)
      · have differ : b ≠ a := by
          rintro rfl
          exact other rfl
        exact Function.update_of_ne differ ..
      · simp only [World.push, setQueue_apply] at member
        split at member
        · rename_i this
          rcases List.mem_append.mp member with old | new
          · exact .inl (by rw [this.1, this.2]; exact old)
          · obtain rfl := List.mem_singleton.mp new
            refine .inr ⟨buffer, by rw [this.1, place], this.2.symm, ?_⟩
            obtain rfl := this.1
            show (Function.update w.machines source _ source).places 0 = _
            rw [Function.update_self]
            exact (w.machines source).put_places 0 _
        · exact .inl member
    · exact World.act_calm alone moved fun m same => by
        cases same
        exact Calm.of_same (alone a) rfl rfl (.inr ⟨_, rfl, by decide, by decide⟩)
  · cases moved

/-- **A step that is no call.** -/
theorem World.step_calm (alone : ∀ a, Alone (w.machines a)) {numBoxes : Int} {label : Label}
    (quiet : label.isCall = false) (moved : w.step numBoxes label = some w') :
    w.Calm label.machine w' := by
  cases label with
  | send | receive => cases quiet
  | go a t => exact World.act_calm alone moved fun m same => Machine.go_calm (alone a) same
  | transmit a t lost fresh => exact World.transmit_calm alone moved
  | work a => exact World.act_calm alone moved fun m same => Machine.work_calm (alone a) same
  | sendDone a =>
      obtain ⟨-, acted⟩ := Option.ite_none_right_eq_some.mp moved
      refine World.act_calm alone acted fun m same => ?_
      cases same
      exact Machine.sendDone_calm (alone a)
  | poll a source =>
      have still : ∀ m, some (w.machines a) = some m → Network.Calm (w.machines a) m :=
        fun m same => by
        cases same
        exact .refl (alone a)
      rw [World.step, World.poll] at moved
      split at moved
      · exact World.act_calm alone moved still
      · split at moved
        · exact World.act_calm alone moved still
        · obtain ⟨w₁, acted, rfl⟩ := Option.map_eq_some_iff.mp moved
          obtain rfl := World.act_eq_some acted
          exact World.calm_of_update alone (Machine.checkPktAvail_calm (alone a)) rfl rfl
  | setPriority a t priority =>
      refine World.act_calm alone moved fun m same => ?_
      cases same
      exact Machine.setPriority_calm (alone a)
  | lose source dest k =>
      cases moved
      exact ⟨fun a => .refl (alone a), fun _ _ => rfl, fun _ _ _ member => .inl member⟩

end World

/-! ## What the main thread is in -/

/-- The main thread is in a call of `Send` with such a message, or behind it. -/
def Sends (message : Mail → Prop) : Place → Prop
  | .lock mail _ _ | .send mail _ => message mail
  | .wait _ | .release | .outside => True
  | _ => False

/-- The main thread is in a call of `Receive(box)`, or behind it. -/
def Receives (box : Nat) (before : List Return) : Place → List Return → Prop
  | .remove b _ _, rs | .got b _ _ _, rs => b = box ∧ rs = before
  | .outside, rs => ∃ r, rs = before ++ [r] ∧ r.box = box
  | _, _ => False

def IsHello (m : Mail) : Prop := m.mailHdr = ⟨0, 1, 13⟩ ∧ m.data = hello

def IsAck (m : Mail) : Prop := m.mailHdr = ⟨1, 1, 8⟩ ∧ m.data = gotIt

/-- The place of the main thread and what `Receive` has returned, in each phase. -/
def Fits (farAddr : Option Word) : Phase → Place → List Return → Prop
  | .start, p, rs => p = .outside ∧ rs = []
  | .sending, p, rs => Sends (fun m => IsHello m ∧ farAddr = some m.pktHdr.toId) p ∧ rs = []
  | .listening, p, rs => Receives 0 [] p rs
  | .replying first, p, rs =>
      Sends (fun m => IsAck m ∧ m.pktHdr.toId = first.pktHdr.fromId) p ∧ ∃ r, rs = [r] ∧ r.box = 0 ∧
        r.mail = first
  | .waiting first, p, rs => ∃ r, r.box = 0 ∧ r.mail = first ∧ Receives 1 [r] p rs
  | .halted first last, p, rs => p = .outside ∧
      ∃ r r', rs = [r, r'] ∧ r.box = 0 ∧ r.mail = first ∧ r'.box = 1 ∧ r'.mail = last

/-- The main thread is behind `network->Send` of its call of `Send`. -/
def Behind : Place → Prop
  | .wait _ | .release | .outside => True
  | _ => False

/-- What the network has been given by then. -/
def Given (m : Mail) : Phase → Place → Prop
  | .start, _ => False
  | .sending, p => Behind p
  | .listening, _ => IsHello m
  | .replying _, p => IsHello m ∨ Behind p
  | .waiting _, _ | .halted _ _, _ => True

section Turns

variable {message : Mail → Prop} {box : Nat} {before rs rs' : List Return} {p p' : Place}

theorem Sends.turn (sends : Sends message p) (turn : Turn p rs p' rs') :
    Sends message p' ∧ rs' = rs := by
  cases turn with
  | same => exact ⟨sends, rfl⟩
  | woken =>
      refine ⟨?_, rfl⟩
      cases p <;> exact sends
  | acquire | send => exact ⟨sends, rfl⟩
  | transmit | wait | done | leave => exact ⟨trivial, rfl⟩
  | got | finish => exact sends.elim

theorem Receives.turn (receives : Receives box before p rs) (turn : Turn p rs p' rs') :
    Receives box before p' rs' := by
  cases turn with
  | same => exact receives
  | woken => cases p <;> exact receives
  | got => exact receives
  | finish b number since mail =>
      obtain ⟨rfl, rfl⟩ := receives
      exact ⟨_, rfl, rfl⟩
  | acquire | send | transmit | wait | done | leave => exact receives.elim

theorem outside_turn (turn : Turn .outside rs p' rs') : p' = .outside ∧ rs' = rs := by
  cases turn with
  | same => exact ⟨rfl, rfl⟩
  | woken => exact ⟨rfl, rfl⟩

theorem Fits.turn {farAddr : Option Word} {phase : Phase} (fits : Fits farAddr phase p rs)
    (turn : Turn p rs p' rs') :
    Fits farAddr phase p' rs' := by
  cases phase with
  | start =>
      obtain ⟨rfl, rfl⟩ := fits
      exact outside_turn turn
  | sending =>
      obtain ⟨sends, same⟩ := fits.1.turn turn
      exact ⟨sends, same.trans fits.2⟩
  | listening => exact Receives.turn fits turn
  | replying first =>
      obtain ⟨sends, same⟩ := fits.1.turn turn
      exact ⟨sends, same ▸ fits.2⟩
  | waiting first =>
      obtain ⟨r, box, mail, receives⟩ := fits
      exact ⟨r, box, mail, receives.turn turn⟩
  | halted first last =>
      obtain ⟨rfl, returned⟩ := fits
      obtain ⟨outside, same⟩ := outside_turn turn
      exact ⟨outside, same ▸ returned⟩

/-- `network->Send` is called for the message and for the acknowledgement. -/
theorem Fits.send {farAddr : Option Word} {phase : Phase} {mail : Mail} {buffer : Nat → Byte}
    (fits : Fits farAddr phase (.send mail buffer) rs) :
    (phase = .sending ∧ IsHello mail ∧ farAddr = some mail.pktHdr.toId) ∨
      ∃ first, phase = .replying first ∧ IsAck mail ∧
        mail.pktHdr.toId = first.pktHdr.fromId := by
  cases phase with
  | sending => exact .inl ⟨rfl, fits.1⟩
  | replying first => exact .inr ⟨first, rfl, fits.1⟩
  | start => cases fits.1
  | listening => exact fits.elim
  | waiting first =>
      obtain ⟨_, -, -, receives⟩ := fits
      exact receives.elim
  | halted first last => cases fits.1

theorem Behind.turn (behind : Behind p) (turn : Turn p rs p' rs') : Behind p' := by
  cases turn with
  | same => exact behind
  | woken => cases p <;> exact behind
  | wait | done | leave => trivial
  | acquire | send | transmit | got | finish => exact behind.elim

theorem Given.turn {m : Mail} {phase : Phase} (given : Given m phase p) (turn : Turn p rs p' rs') :
    Given m phase p' := by
  cases phase with
  | start | listening | waiting | halted => exact given
  | sending => exact Behind.turn given turn
  | replying first => exact given.imp_right fun behind => behind.turn turn

end Turns

/-! ## The invariant -/

/-- The lines of a phase. -/
def Phase.lines : Phase → List Line
  | .start | .sending | .listening => []
  | .replying first | .waiting first => [first.line]
  | .halted first last => [first.line, last.line]

/-- What a test sends: its message to `farAddr`, and an acknowledgement to where it got one from. -/
def Genuine (far : Word → Option Word) (phase : Word → Phase) (source dest : Word)
    (m : Mail) : Prop :=
  (IsHello m ∧ far source = some dest) ∨
    IsAck m ∧ ∃ first, (phase source).first = some first ∧ first.pktHdr.fromId = dest

structure Tests.Inv (far : Word → Option Word) (started : Word → Bool) (s : Tests) : Prop where
  sound : s.world.Sound nBoxes
  alone : ∀ a, Alone (s.world.machines a)
  asserts : ∀ a, (s.world.machines a).aborted = none
  fits : ∀ a, Fits (far a) (s.phase a) ((s.world.machines a).places 0) (s.world.machines a).returned
  sent : ∀ source dest, ∀ m ∈ s.world.sent source dest, Genuine far s.phase source dest m
  given : ∀ source dest, ∀ m ∈ s.world.sent source dest,
    Given m (s.phase source) ((s.world.machines source).places 0)
  printed : ∀ a, s.printed a = (s.phase a).lines
  begun : ∀ a, started a = false → s.phase a = .start
  failed : ∀ a, s.failed a = true → s.phase a = .sending ∧
    (∃ mail buffer, (s.world.machines a).places 0 = .send mail buffer) ∧
      ∃ b, far a = some b ∧ s.running started b = false

section Inv

variable {far : Word → Option Word} {started : Word → Bool} {s s' : Tests} {a farAddr : Word}

theorem Tests.create_inv (fresh : Word → Nat → Byte) (key : Word → Nat → Int) :
    (create fresh key).Inv far started where
  sound := World.create_sound fresh key
  alone _ _ _ := rfl
  asserts _ := rfl
  fits _ := ⟨rfl, rfl⟩
  sent _ _ _ bad := by cases bad
  given _ _ _ bad := by cases bad
  printed _ := rfl
  begun _ _ := rfl
  failed _ bad := by cases bad

theorem Tests.Inv.running_eq (inv : s.Inv far started) (a : Word) :
    s.running started a = (started a && !(s.phase a).isHalted && !s.failed a) := by
  rw [running, inv.asserts a, decide_eq_true rfl, Bool.and_true]

/-- A message that a test has received in one of its boxes. -/
theorem Tests.Inv.received (inv : s.Inv far started) {r : Return}
    (member : r ∈ (s.world.machines a).returned) :
    r.mail.mailHdr.toId.toNat = r.box ∧ r.mail ∈ s.world.sent r.mail.pktHdr.fromId a := by
  have genuine := (inv.sound.delivered.genuine a r member).1
  obtain ⟨sent, box⟩ := List.mem_filter.mp genuine
  exact ⟨of_decide_eq_true box, sent⟩

/-- In box 0 there are messages, -/
theorem Tests.Inv.hello (inv : s.Inv far started) {r : Return}
    (member : r ∈ (s.world.machines a).returned)
    (box : r.box = 0) : IsHello r.mail ∧ far r.mail.pktHdr.fromId = some a := by
  obtain ⟨addressed, sent⟩ := inv.received member
  rcases inv.sent _ _ _ sent with genuine | ⟨ack, -⟩
  · exact genuine
  · rw [ack.1, box] at addressed
    cases addressed

/-- and in box 1 acknowledgements. -/
theorem Tests.Inv.ack (inv : s.Inv far started) {r : Return}
    (member : r ∈ (s.world.machines a).returned) (box : r.box = 1) : IsAck r.mail ∧
      ∃ first, (s.phase r.mail.pktHdr.fromId).first = some first ∧ first.pktHdr.fromId = a := by
  obtain ⟨addressed, sent⟩ := inv.received member
  rcases inv.sent _ _ _ sent with ⟨hello, -⟩ | genuine
  · rw [hello.1, box] at addressed
    cases addressed
  · exact genuine

/-- What a phase has received. -/
theorem Tests.Inv.first_received (inv : s.Inv far started) {m : Mail}
    (there : (s.phase a).first = some m) :
    ∃ r ∈ (s.world.machines a).returned, r.box = 0 ∧ r.mail = m := by
  have fits := inv.fits a
  cases phase : s.phase a with
  | start | sending | listening =>
      rw [phase] at there
      cases there
  | replying first =>
      rw [phase] at there fits
      obtain rfl := Option.some.inj there
      obtain ⟨-, r, returned, received⟩ := fits
      exact ⟨r, by rw [returned]; exact List.mem_singleton.mpr rfl, received⟩
  | waiting first =>
      rw [phase] at there fits
      obtain rfl := Option.some.inj there
      obtain ⟨r, box, mail, receives⟩ := fits
      refine ⟨r, ?_, box, mail⟩
      cases place : (s.world.machines a).places 0 with
      | outside =>
          rw [place] at receives
          obtain ⟨r', returned, -⟩ := receives
          simp [returned]
      | remove b i since | got b number since mail =>
          rw [place] at receives
          simp [receives.2]
      | lock | send | wait | release =>
          rw [place] at receives
          exact receives.elim
  | halted first last =>
      rw [phase] at there fits
      obtain rfl := Option.some.inj there
      obtain ⟨-, r, r', returned, box, mail, -⟩ := fits
      exact ⟨r, by simp [returned], box, mail⟩

/-- A machine that has halted got its answer from the machine that it wrote to. -/
theorem Tests.Inv.halted_answer (inv : s.Inv far started) {first last : Mail}
    (phase : s.phase a = .halted first last) :
    IsAck last ∧ far a = some last.pktHdr.fromId ∧ last ∈ s.world.sent last.pktHdr.fromId a ∧
      ∃ m, (s.phase last.pktHdr.fromId).first = some m ∧ m.pktHdr.fromId = a := by
  have fits := inv.fits a
  rw [phase] at fits
  obtain ⟨-, r, r', returned, -, -, box, rfl⟩ := fits
  have member : r' ∈ (s.world.machines a).returned := by simp [returned]
  obtain ⟨ack, m, there, back⟩ := inv.ack member box
  obtain ⟨r₀, member₀, box₀, rfl⟩ := inv.first_received there
  obtain ⟨-, told⟩ := inv.hello member₀ box₀
  rw [back] at told
  exact ⟨ack, told, (inv.received member).2, _, there, back⟩

/-- **The machine that is to be answered is there**: it was started, its first message did not
fail, and it waits for the answer. -/
theorem Tests.Inv.answer_running (inv : s.Inv far started) {first mail : Mail} {buffer : Nat → Byte}
    (phase : s.phase a = .replying first)
    (place : (s.world.machines a).places 0 = .send mail buffer) :
    s.running started first.pktHdr.fromId = true := by
  obtain ⟨r, member, box, rfl⟩ := inv.first_received (a := a) (by rw [phase]; rfl)
  obtain ⟨-, told⟩ := inv.hello member box
  have given := inv.given _ _ _ (inv.received member).2
  generalize r.mail.pktHdr.fromId = b at told given ⊢
  have running : started b = true ∧ (s.phase b).isHalted = false ∧ s.failed b = false := by
    refine ⟨?_, ?_, ?_⟩
    · by_contra absent
      rw [inv.begun b (Bool.eq_false_of_not_eq_true absent)] at given
      exact given
    · cases halted : s.phase b with
      | start | sending | listening | replying | waiting => rfl
      | halted first' last =>
          -- its answer would have come from this machine, which has not sent it
          obtain ⟨ack, far', sent, -⟩ := inv.halted_answer halted
          obtain rfl : a = last.pktHdr.fromId := Option.some.inj (told.symm.trans far')
          have early := inv.given _ _ _ sent
          rw [phase, place] at early
          obtain hello | behind := early
          · rw [IsHello, ack.1] at hello
            exact absurd hello.1 (by decide)
          · exact behind.elim
    · by_contra failed
      obtain ⟨sending, ⟨_, _, stuck⟩, -⟩ := inv.failed b (Bool.eq_true_of_not_eq_false failed)
      rw [sending, stuck] at given
      exact given
  rw [inv.running_eq, running.1, running.2.1, running.2.2]
  rfl

/-- **`SendToSocket` fails.**  It is the first message that does not arrive. -/
theorem Tests.Inv.fail (inv : s.Inv far started) {mail : Mail} {buffer : Nat → Byte}
    (place : (s.world.machines a).places 0 = .send mail buffer)
    (down : s.running started mail.pktHdr.toId = false) :
    Inv far started { s with failed := Function.update s.failed a true } := by
  have fits := inv.fits a
  rw [place] at fits
  have greets : s.phase a = .sending ∧ far a = some mail.pktHdr.toId := by
    rcases fits.send with ⟨sending, -, told⟩ | ⟨first, replying, -, dest⟩
    · exact ⟨sending, told⟩
    · rw [dest, inv.answer_running replying place] at down
      cases down
  have fewer : ∀ b, s.running started b = false →
      running started { s with failed := Function.update s.failed a true } b = false := by
    intro b absent
    rw [inv.running_eq] at absent
    show (started b && !(s.phase b).isHalted && !(Function.update s.failed a true b) && _) = false
    rw [Function.update_apply]
    split
    · rw [Bool.not_true, Bool.and_false, Bool.false_and]
    · rw [absent, Bool.false_and]
  refine ⟨inv.sound, inv.alone, inv.asserts, inv.fits, inv.sent, inv.given, inv.printed, inv.begun,
    fun x failed => ?_⟩
  by_cases here : x = a
  · rw [here]
    exact ⟨greets.1, ⟨mail, buffer, place⟩, _, greets.2, fewer _ down⟩
  · have before : s.failed x = true := by
      rw [← failed]
      exact (Function.update_of_ne here ..).symm
    obtain ⟨sending, stuck, b, told, absent⟩ := inv.failed x before
    exact ⟨sending, stuck, b, told, fewer b absent⟩

/-- A step that is no call, of a machine that runs. -/
theorem Tests.Inv.world (inv : s.Inv far started) {label : Label} {world : World}
    (quiet : label.isCall = false) (runs : ∀ a, label.machine = some a → s.running started a = true)
    (moved : s.world.step nBoxes label = some world) : Inv far started { s with world } := by
  have calm := World.step_calm inv.alone quiet moved
  have sound := inv.sound.step moved
  have asserts : ∀ a, (world.machines a).aborted = none := by
    intro a
    rcases (calm.machines a).aborted with same | ⟨x, failed, notSend, notReceive⟩
    · exact same.trans (inv.asserts a)
    · rcases (sound.machines a).asserts x failed with rfl | rfl
      · exact absurd rfl notSend
      · exact absurd rfl notReceive
  have fits : ∀ a, Fits (far a) (s.phase a) ((world.machines a).places 0)
      (world.machines a).returned :=
    fun a => (inv.fits a).turn (calm.machines a).turn
  refine ⟨sound, fun a => (calm.machines a).alone, asserts, fits, fun source dest m member => ?_,
    fun source dest m member => ?_, inv.printed, inv.begun, fun a failed => ?_⟩
  · rcases calm.sent source dest m member with old | ⟨buffer, place, dest, -⟩
    · exact inv.sent source _ m old
    · -- the main thread sends what its phase says
      have fits := inv.fits source
      show Genuine far s.phase source _ m
      rw [place] at fits
      rcases fits.send with ⟨-, hello, told⟩ | ⟨first, replying, ack, back⟩
      · exact .inl ⟨hello, dest ▸ told⟩
      · exact .inr ⟨ack, first, by rw [replying]; rfl, back.symm.trans dest⟩
  · rcases calm.sent source dest m member with old | ⟨buffer, place, -, after⟩
    · exact (inv.given source dest m old).turn (calm.machines source).turn
    · have fits := inv.fits source
      show Given m (s.phase source) ((world.machines source).places 0)
      rw [after]
      rw [place] at fits
      rcases fits.send with ⟨sending, -⟩ | ⟨first, replying, -⟩
      · rw [sending]
        trivial
      · rw [replying]
        exact .inr trivial
  · -- a machine that has failed is another one
    obtain ⟨sending, ⟨mail, buffer, stuck⟩, b, told, absent⟩ := inv.failed a failed
    have other : label.machine ≠ some a := by
      intro mine
      have running := runs a mine
      rw [inv.running_eq, failed, Bool.not_true, Bool.and_false] at running
      cases running
    refine ⟨sending, ⟨mail, buffer, ?_⟩, b, told, ?_⟩
    · show (world.machines a).places 0 = _
      rw [calm.others a other, stuck]
    · rw [inv.running_eq] at absent
      rw [running, absent, Bool.false_and]

/-- The step of a machine that runs. -/
theorem Tests.Inv.system (inv : s.Inv far started) {label : Label} (quiet : label.isCall = false)
    (runs : ∀ a, label.machine = some a → s.running started a = true)
    (moved : s.system started label = some s') : s'.Inv far started := by
  obtain ⟨world, went, rfl⟩ := Option.map_eq_some_iff.mp moved
  split
  · exact inv.world quiet runs went
  · rename_i a dest socket
    split
    · rename_i down
      unfold toSocket at socket
      split at socket
      · rename_i t _
        split at socket
        · rename_i mail buffer place
          rw [Option.some.injEq, Prod.mk.injEq] at socket
          obtain ⟨rfl, rfl⟩ := socket
          obtain rfl : t = 0 := by
            by_contra other
            rw [inv.alone _ t other] at place
            cases place
          exact inv.fail place down.2
        · cases socket
      · cases socket
    · exact inv.world quiet runs went

/-- A phase only adds to what was received. -/
theorem Genuine.enter {phase : Word → Phase} {next : Phase} {source dest : Word} {m : Mail}
    (genuine : Genuine far phase source dest m)
    (kept : ∀ first, (phase a).first = some first → next.first = some first) :
    Genuine far (Function.update phase a next) source dest m := by
  rcases genuine with message | ⟨ack, first, there, back⟩
  · exact .inl message
  · refine .inr ⟨ack, first, ?_, back⟩
    by_cases here : source = a
    · rw [here, Function.update_self]
      exact kept first (here ▸ there)
    · rw [Function.update_of_ne here]
      exact there

/-- The main thread of a machine enters a call. -/
theorem Tests.Inv.enter (inv : s.Inv far started) (runs : s.running started a = true) {m : Machine}
    {next : Phase} {lines : List Line} {world : World} (sound : world.Sound nBoxes)
    (acted : world = { s.world with machines := Function.update s.world.machines a m })
    (alone : Alone m) (asserts : m.aborted = none)
    (fits : Fits (far a) next (m.places 0) m.returned)
    (kept : ∀ first, (s.phase a).first = some first → next.first = some first)
    (given : ∀ dest, ∀ mail ∈ s.world.sent a dest, Given mail next (m.places 0))
    (printed : (s.phase a).lines ++ lines = next.lines) :
    (s.enter a next lines world).Inv far started := by
  subst acted
  have mine : started a = true ∧ s.failed a = false := by
    rw [inv.running_eq, Bool.and_eq_true, Bool.and_eq_true] at runs
    exact ⟨runs.1.1, (Bool.not_eq_true' _).mp runs.2⟩
  refine ⟨sound, fun b => ?_, fun b => ?_, fun b => ?_, fun source dest mail member => ?_,
    fun source dest mail member => ?_, fun b => ?_, fun b absent => ?_, fun b failed => ?_⟩
  · show Alone (Function.update s.world.machines a m b)
    rw [Function.update_apply]
    split
    · exact alone
    · exact inv.alone b
  · show (Function.update s.world.machines a m b).aborted = none
    rw [Function.update_apply]
    split
    · exact asserts
    · exact inv.asserts b
  · show Fits (far b) (Function.update s.phase a next b)
        ((Function.update s.world.machines a m b).places 0)
      (Function.update s.world.machines a m b).returned
    by_cases here : b = a
    · rw [here, Function.update_self, Function.update_self]
      exact fits
    · rw [Function.update_of_ne here, Function.update_of_ne here]
      exact inv.fits b
  · exact (inv.sent source dest mail member).enter kept
  · show Given mail (Function.update s.phase a next source)
      ((Function.update s.world.machines a m source).places 0)
    by_cases here : source = a
    · rw [here, Function.update_self, Function.update_self]
      exact given dest mail (here ▸ member)
    · rw [Function.update_of_ne here, Function.update_of_ne here]
      exact inv.given source dest mail member
  · show Function.update s.printed a (s.printed a ++ lines) b =
        (Function.update s.phase a next b).lines
    by_cases here : b = a
    · rw [here, Function.update_self, Function.update_self, inv.printed, printed]
    · rw [Function.update_of_ne here, Function.update_of_ne here]
      exact inv.printed b
  · have other : b ≠ a := by
      rintro rfl
      rw [mine.1] at absent
      cases absent
    exact (Function.update_of_ne other ..).trans (inv.begun b absent)
  · -- neither the machine that has failed nor the one that does not run is this one
    obtain ⟨sending, ⟨mail, buffer, stuck⟩, c, told, absent⟩ := inv.failed b failed
    have other : b ≠ a := by
      rintro rfl
      exact absurd failed (Bool.eq_false_iff.mp mine.2)
    have away : c ≠ a := by
      rintro rfl
      rw [runs] at absent
      cases absent
    refine ⟨(Function.update_of_ne other ..).trans sending, ⟨mail, buffer, ?_⟩, c, told, ?_⟩
    · show (Function.update s.world.machines a m b).places 0 = _
      rw [Function.update_of_ne other, stuck]
    · show (started c && !(Function.update s.phase a next c).isHalted && !s.failed c && _) = false
      rw [Function.update_of_ne away, ← inv.running_eq c, absent, Bool.false_and]

/-- The main thread calls `Send`. -/
theorem World.send_eq {w w' : World} {pktHdr : PacketHeader} {mailHdr : MailHeader}
    {data fresh : Nat → Byte}
    (short : mailHdr.length.toNat ≤ maxMailSize)
    (box : 0 ≤ mailHdr.toId.toInt ∧ mailHdr.toId.toInt < nBoxes)
    (moved : w.step nBoxes (.send a 0 pktHdr mailHdr data fresh) = some w') : ∃ mail buffer,
      w' = { w with machines :=
        Function.update w.machines a ((w.machines a).put 0 (.lock mail buffer false)) } ∧
      mail.mailHdr = mailHdr ∧ mail.pktHdr.toId = pktHdr.toId ∧
        mail.data = block data 0 mailHdr.length.toNat := by
  obtain ⟨-, acted⟩ := Option.ite_none_right_eq_some.mp moved
  rw [Machine.send, if_pos ⟨short, box⟩] at acted
  exact ⟨_, _, World.act_eq_some acted, rfl, rfl, rfl⟩

/-- The main thread calls `Receive`. -/
theorem World.receive_eq {w w' : World} {box : Int} (legal : 0 ≤ box ∧ box < nBoxes)
    (moved : w.step nBoxes (.receive a 0 box) = some w') : ∃ (m : Machine) (i : Nat),
      w' = { w with machines :=
        Function.update w.machines a (m.put 0 (.remove box.toNat i m.returned.length)) } ∧
      m.places = (w.machines a).places ∧ m.returned = (w.machines a).returned ∧
        m.aborted = (w.machines a).aborted := by
  obtain ⟨-, acted⟩ := Option.ite_none_right_eq_some.mp moved
  rw [Machine.receive, if_pos legal] at acted
  exact ⟨_, _, World.act_eq_some acted, rfl, rfl, rfl⟩

/-- The phase after a `Send`. -/
theorem Tests.Inv.enterSend (inv : s.Inv far started) (runs : s.running started a = true)
    {next : Phase} {lines : List Line} {pktHdr : PacketHeader}
    {mailHdr : MailHeader} {data fresh : Nat → Byte} (short : mailHdr.length.toNat ≤ maxMailSize)
    (box : 0 ≤ mailHdr.toId.toInt ∧ mailHdr.toId.toInt < nBoxes)
    (moved : (s.world.step nBoxes (.send a 0 pktHdr mailHdr data fresh)).map
      (s.enter a next lines) = some s')
    (fits : ∀ mail buffer, mail.mailHdr = mailHdr → mail.pktHdr.toId = pktHdr.toId →
      mail.data = block data 0 mailHdr.length.toNat →
        Fits (far a) next (.lock mail buffer false) (s.world.machines a).returned)
    (given : ∀ dest, ∀ mail ∈ s.world.sent a dest, ∀ p, Given mail next p)
    (kept : ∀ first, (s.phase a).first = some first → next.first = some first)
    (printed : (s.phase a).lines ++ lines = next.lines) : s'.Inv far started := by
  obtain ⟨world, called, rfl⟩ := Option.map_eq_some_iff.mp moved
  obtain ⟨mail, buffer, acted, header, dest, bytes⟩ := World.send_eq short box called
  refine inv.enter runs (inv.sound.step called) acted ((inv.alone a).put _) (inv.asserts a) ?_ kept
    (fun dest mail member => given dest mail member _) printed
  rw [Machine.put_places]
  exact fits mail buffer header dest bytes

/-- The phase after a `Receive`. -/
theorem Tests.Inv.enterReceive (inv : s.Inv far started) (runs : s.running started a = true)
    {next : Phase} {box : Int} (legal : 0 ≤ box ∧ box < nBoxes)
    (moved : (s.world.step nBoxes (.receive a 0 box)).map (s.enter a next []) = some s')
    (fits : ∀ i since, Fits (far a) next (.remove box.toNat i since) (s.world.machines a).returned)
    (given : ∀ dest, ∀ mail ∈ s.world.sent a dest, ∀ p, Given mail next p)
    (kept : ∀ first, (s.phase a).first = some first → next.first = some first)
    (printed : (s.phase a).lines = next.lines) : s'.Inv far started := by
  obtain ⟨world, called, rfl⟩ := Option.map_eq_some_iff.mp moved
  obtain ⟨m, i, acted, places, returned, aborted⟩ := World.receive_eq legal called
  have alone : Alone m := by
    intro t other
    rw [places]
    exact inv.alone a t other
  refine inv.enter runs (inv.sound.step called) acted (alone.put _)
    (aborted.trans (inv.asserts a)) ?_ kept
    (fun dest mail member => given dest mail member _) ((List.append_nil _).trans printed)
  rw [Machine.put_places]
  show Fits (far a) next (.remove box.toNat i m.returned.length) m.returned
  rw [returned]
  exact fits i _

/-- **A call of `MailTest`.** -/
theorem Tests.Inv.mailTest (inv : s.Inv far started) (runs : s.running started a = true)
    (told : far a = some farAddr)
    (idle : s.world.idle a 0 = true) {garbage : PacketHeader} {fresh : Nat → Byte}
    (moved : s.mailTest a farAddr garbage fresh = some s') : s'.Inv far started := by
  have outside := World.idle_eq idle
  have fits := inv.fits a
  have sent := inv.sent a
  have given := inv.given a
  rw [outside] at fits
  unfold Tests.mailTest at moved
  simp only at moved
  split at moved
  · rename_i phase
    rw [phase] at fits given
    refine inv.enterSend runs (by decide) (by decide) moved
      (fun mail buffer header dest bytes => ?_)
      (fun dest mail member => (given dest mail member).elim) (fun first there => ?_)
        (by rw [phase]; rfl)
    · exact ⟨⟨⟨header, bytes.trans (by decide)⟩, by rw [dest, told]⟩, fits.2⟩
    · rw [phase] at there
      cases there
  · rename_i phase
    rw [phase] at fits
    refine inv.enterReceive runs (by decide) moved (fun i since => ⟨rfl, fits.2⟩)
      (fun dest mail member _ => ?_)
      (fun first there => ?_) (by rw [phase]; rfl)
    · rcases sent dest mail member with ⟨hello, -⟩ | ⟨-, first, there, -⟩
      · exact hello
      · rw [phase] at there
        cases there
    · rw [phase] at there
      cases there
  · rename_i phase
    rw [phase] at fits given
    obtain ⟨r, returned, box⟩ := fits
    rw [List.nil_append] at returned
    have member : r ∈ (s.world.machines a).returned := by
      rw [returned]
      exact List.mem_singleton.mpr rfl
    obtain ⟨⟨header, -⟩, -⟩ := inv.hello member box
    rw [returned] at moved
    simp only [List.getLast?_singleton, header] at moved
    refine inv.enterSend runs (by decide) (by decide) moved
      (fun mail buffer header dest bytes => ?_)
      (fun dest mail member _ => .inl (given dest mail member)) (fun first there => ?_)
        (by rw [phase]; rfl)
    · exact ⟨⟨⟨header, bytes.trans (by decide)⟩, dest⟩, r, returned, box, rfl⟩
    · rw [phase] at there
      cases there
  · rename_i first phase
    rw [phase] at fits
    obtain ⟨-, r, returned, box, mail⟩ := fits
    refine inv.enterReceive runs (by decide) moved (fun i since => ⟨r, box, mail, rfl, returned⟩)
      (fun _ _ _ _ => trivial) (fun first there => ?_) (by rw [phase]; rfl)
    rw [phase] at there
    exact there
  · rename_i first phase
    rw [phase] at fits
    obtain ⟨r, box, mail, r', returned, box'⟩ := fits
    rw [returned] at moved
    simp only [List.singleton_append, List.getLast?_cons_cons, List.getLast?_singleton,
      Option.some.injEq] at moved
    subst moved
    have same : s.world =
        { s.world with machines := Function.update s.world.machines a (s.world.machines a) } := by
      rw [Function.update_eq_self]
    refine inv.enter runs inv.sound same (inv.alone a) (inv.asserts a) ?_ (fun first there => ?_)
      (fun _ _ _ => trivial) (by rw [phase]; rfl)
    · rw [outside]
      exact ⟨rfl, r, r', returned, box, mail, box', rfl⟩
    · rw [phase] at there
      exact there
  · cases moved

theorem Tests.Inv.step (inv : s.Inv far started) {e : Event}
    (moved : s.step far started e = some s') :
    s'.Inv far started := by
  cases e with
  | call a garbage fresh =>
      rw [Tests.step] at moved
      split at moved
      · cases moved
      · rename_i farAddr told
        obtain ⟨⟨runs, idle⟩, called⟩ := Option.ite_none_right_eq_some.mp moved
        exact inv.mailTest runs told idle called
  | system label =>
      obtain ⟨⟨quiet, runs⟩, moved⟩ := Option.ite_none_right_eq_some.mp moved
      exact inv.system quiet ((Option.all_eq_true _ _).mp runs) moved

theorem Tests.Inv.answered (inv : s.Inv far started) : Answered far started s := by
  have greeting (a : Word) (m : Mail) (there : (s.phase a).first = some m) :
      far m.pktHdr.fromId = some a ∧ m.line = ⟨Network.hello.dropLast, m.pktHdr.fromId, 1⟩ := by
    obtain ⟨r, member, box, rfl⟩ := inv.first_received there
    obtain ⟨⟨header, data⟩, told⟩ := inv.hello member box
    refine ⟨told, ?_⟩
    rw [Mail.line, header, data]
    congr 1
  refine ⟨?_, ?_, inv.asserts, fun a failed => ?_⟩
  · intro a m there
    obtain ⟨told, line⟩ := greeting a m there
    refine ⟨_, told, ?_, rfl⟩
    rw [inv.printed, ← line]
    cases phase : s.phase a with
    | start | sending | listening =>
        rw [phase] at there
        cases there
    | replying first | waiting first | halted first last =>
        rw [phase] at there
        obtain rfl := Option.some.inj there
        rfl
  · intro a first last phase
    obtain ⟨⟨header, data⟩, told, -, m, there, back⟩ := inv.halted_answer phase
    refine ⟨last.pktHdr.fromId, m, told, there, back, ?_⟩
    rw [inv.printed, phase, Phase.lines]
    have line : last.line = ⟨gotIt.dropLast, last.pktHdr.fromId, 1⟩ := by
      rw [Mail.line, header, data]
      congr 1
    rw [line]
  · obtain ⟨sending, -, absent⟩ := inv.failed a failed
    exact ⟨sending, absent⟩

end Inv

/-- **A machine that halts has been answered, and an answer does not fail**, in every state of
every run of the tests of any number of machines, whatever is lost. -/
theorem mailTest_answered (far : Word → Option Word) (started : Word → Bool)
    (fresh : Word → Nat → Byte) (key : Word → Nat → Int) (events : List Event) :
    AllStates (Tests.step far started) (Answered far started) (Tests.create fresh key) events := by
  have all : AllStates (Tests.step far started) (Tests.Inv far started)
      (Tests.create fresh key) events :=
    allStates_of_invariant (fun _ _ _ inv _ moved => Tests.Inv.step inv moved)
      (Tests.create_inv fresh key)
      (allSteps_true _ events)
  exact all.mono fun s inv => inv.answered

/-- Machine 0 writes to machine 1, which was not started. -/
example : (exec (Tests.step (fun a => if a = 0 then some 1 else none) (· = 0))
    (Tests.create (fun _ _ => 0) fun _ _ => 0)
    [.call 0 ⟨0, 0, 0⟩ fun _ => 0, .system (.go 0 0), .system (.transmit 0 0 false fun _ => 0)]).map
      (·.failed 0) =
      some true := by
  decide +kernel

end Nachos.Network
