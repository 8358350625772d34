/-
# Nachos.Network.Post -- `network/post.cc` over `machine/network.cc`

Any number of machines, each with a network device that sends one packet at a time and holds
one packet that came in.  `PostOffice::Send` makes sending synchronous with a lock and a
semaphore.  A packet that comes in is announced at another semaphore; the postal worker takes
it from the device and appends it to one of the mailboxes, which are `SynchList`s, and
`Receive` removes it from there.

The steps of all threads, the interrupts and the losses come in any order.  Between two
machines the sockets keep a queue; a poll reads the first packet that some other machine sent.
The socket of a receiver is taken to be there: what becomes of a sender whose receiver has ended
is in `MailTest`.
A machine where an `ASSERT` fails takes no further step.  `sent`, `returned` and the numbers
beside them keep what happened, and are no part of the code.
-/
import Nachos.Network.Packet
import Nachos.Threads.SynchList

namespace Nachos.Network

open Nachos.Lib.Bytes
open Nachos.Lib.Run
open Nachos.Threads (ListElement sortedInsert remove items)
open Nachos.Threads.Synch (Monitor init)
open Nachos.Threads.SynchLists (SynchList Point Cond)

set_option autoImplicit false

/-- A `MailBox`: the threads in `Append` and `Remove` of its list. -/
abbrev Box := Monitor (Point Mail) Cond (SynchList Mail)

/-- Where a thread is in its call. -/
inductive Place where
  | outside
  /-- In the loop of `sendLock->Acquire()`, with the message in the buffer. -/
  | lock (mail : Mail) (buffer : Nat → Byte) (asleep : Bool)
  /-- Before `network->Send(pktHdr, buffer)`. -/
  | send (mail : Mail) (buffer : Nat → Byte)
  /-- In the loop of `messageSent->P()`. -/
  | wait (asleep : Bool)
  /-- Before `sendLock->Release()`. -/
  | release
  /-- In `Remove`, as thread `i` of the box.  When the call was made, `since` calls of `Receive`
  had returned. -/
  | remove (box i since : Nat)
  /-- `Remove` has returned the mail, which was taken out of the box as number `number`. -/
  | got (box number since : Nat) (mail : Mail)

/-- Where the postal worker is. -/
inductive Worker where
  /-- In the loop of `messageAvailable->P()`. -/
  | wait (asleep : Bool)
  /-- Before `network->Receive(buffer)`. -/
  | receive
  /-- In `Append`, as thread `i` of the box. -/
  | put (box i : Nat)
  deriving DecidableEq

/-- `ReadyToRun` of a thread that sleeps. -/
def Place.woken : Place → Place
  | .lock mail buffer _ => .lock mail buffer false
  | .wait _ => .wait false
  | p => p

def Worker.woken : Worker → Worker
  | .wait _ => .wait false
  | p => p

/-- Where the worker is after a step in `Append`. -/
def afterAppend (box : Box) (b i : Nat) : Worker :=
  match box.place i with
  | some (.returned _) => .wait false
  | _ => .put b i

/-- The `ASSERT`s. -/
inductive Assertion where
  /-- Those of `PostOffice::Send`. -/
  | send
  | networkSend
  | checkPktAvail
  | postalDelivery
  /-- That of `Mail::Mail`. -/
  | mail
  /-- The first and the second of `PostOffice::Receive`. -/
  | receiveBox
  | receiveLength
  /-- That of `Lock::Release`. -/
  | release
  deriving DecidableEq, Repr

/-- A call of `Receive` that has returned. -/
structure Return where
  thread : Nat
  box : Nat
  number : Nat
  since : Nat
  mail : Mail

structure Machine where
  places : Nat → Place
  /-- The priorities of the threads. -/
  key : Nat → Int
  -- `sendLock`
  isLocked : Bool
  currThread : Option Nat
  lockQueue : List (ListElement Nat)
  -- `messageSent`
  sentValue : Int
  sentQueue : List (ListElement Nat)
  -- `messageAvailable`, where only the worker waits
  availableValue : Int
  availableQueue : List (ListElement Unit)
  -- the device
  sendBusy : Bool
  /-- How many calls of `NetworkSendDone` are scheduled. -/
  scheduled : Nat
  inHdr : PacketHeader
  inbox : Nat → Byte
  -- the post office
  worker : Worker
  buffer : Nat → Byte
  boxes : Nat → Box
  aborted : Option Assertion
  /-- The calls of `Receive` that have returned, in order. -/
  returned : List Return

/-- `PostOffice::PostOffice` and `Network::Network`, in memory that nobody has written. -/
def Machine.create (fresh : Nat → Byte) (key : Nat → Int) : Machine where
  places := fun _ => .outside
  key
  isLocked := false
  currThread := none
  lockQueue := []
  sentValue := 0
  sentQueue := []
  availableValue := 0
  availableQueue := []
  sendBusy := false
  scheduled := 0
  inHdr := { PacketHeader.read fresh with length := 0 }
  inbox := fresh
  worker := .wait false
  buffer := fresh
  boxes := fun _ => init Threads.SynchLists.create
  aborted := none
  returned := []

namespace Machine

def put (m : Machine) (t : Nat) (p : Place) : Machine :=
  { m with places := Function.update m.places t p }

def putBox (m : Machine) (b : Nat) (box : Box) : Machine :=
  { m with boxes := fun b' => if b' = b then box else m.boxes b' }

def abort (m : Machine) (a : Assertion) : Machine := { m with aborted := some a }

/-! ## Sending -/

/-- `PostOffice::Send` up to `sendLock->Acquire()`, on the machine `netAddr`. -/
def send (numBoxes : Int) (netAddr : Word) (m : Machine) (t : Nat) (pktHdr : PacketHeader)
    (mailHdr : MailHeader) (data fresh : Nat → Byte) : Machine :=
  if mailHdr.length.toNat ≤ maxMailSize ∧ 0 ≤ mailHdr.toId.toInt ∧
    mailHdr.toId.toInt < numBoxes then
    let pktHdr := { pktHdr with
      fromId := netAddr
      length := mailHdr.length + BitVec.ofNat 32 headerSize }
    let buffer := concatenate fresh mailHdr.bytes data mailHdr.length.toNat
    m.put t (.lock (.create pktHdr mailHdr data) buffer false)
  else m.abort .send

/-- A turn of the loop of `Lock::Acquire`. -/
def acquire (m : Machine) (t : Nat) (mail : Mail) (buffer : Nat → Byte) : Machine :=
  if m.isLocked then
    { m.put t (.lock mail buffer true) with lockQueue := sortedInsert t (m.key t) m.lockQueue }
  else { m.put t (.send mail buffer) with isLocked := true, currThread := some t }

/-- A turn of the loop of `messageSent->P()`, and the rest of it. -/
def pSent (m : Machine) (t : Nat) : Machine :=
  if m.sentValue = 0 then
    { m.put t (.wait true) with sentQueue := sortedInsert t (m.key t) m.sentQueue }
  else { m.put t .release with sentValue := m.sentValue - 1 }

/-- `queue->Remove()` and `ReadyToRun`, at the queue of the lock. -/
def wakeLock (m : Machine) : Machine :=
  match remove m.lockQueue with
  | none => m
  | some (j, rest) => { m.put j (m.places j).woken with lockQueue := rest }

/-- `Lock::Release`, and the return from `Send`. -/
def release (m : Machine) (t : Nat) : Machine :=
  if m.currThread = some t then
    { (m.put t .outside).wakeLock with isLocked := false, currThread := none }
  else m.abort .release

/-- `Network::SendDone`, which calls `PacketSent`, which calls `messageSent->V()`. -/
def sendDone (m : Machine) : Machine :=
  let woken := match remove m.sentQueue with
    | none => m
    | some (j, rest) => { m.put j (m.places j).woken with sentQueue := rest }
  { woken with sendBusy := false, scheduled := m.scheduled - 1, sentValue := m.sentValue + 1 }

/-! ## Receiving -/

/-- `IncomingPacket`, which calls `messageAvailable->V()`. -/
def incomingPacket (m : Machine) : Machine :=
  let woken := match remove m.availableQueue with
    | none => m
    | some (_, rest) => { m with worker := m.worker.woken, availableQueue := rest }
  { woken with availableValue := m.availableValue + 1 }

/-- `Network::CheckPktAvail` on the machine `ident`, with a packet that was read. -/
def checkPktAvail (ident : Word) (m : Machine) (packet : List Byte) : Machine :=
  let buffer := readFromSocket packet
  let inHdr := PacketHeader.read buffer
  if inHdr.toId = ident ∧ inHdr.length.toNat ≤ maxPacketSize then
    incomingPacket { m with inHdr, inbox := bcopy (payload buffer) m.inbox inHdr.length.toNat }
  else { m with inHdr }.abort .checkPktAvail

/-- A turn of the loop of `messageAvailable->P()`, and the rest of it. -/
def pAvailable (m : Machine) : Machine :=
  if m.availableValue = 0 then
    { m with worker := .wait true, availableQueue := sortedInsert () 0 m.availableQueue }
  else { m with worker := .receive, availableValue := m.availableValue - 1 }

/-- `Network::Receive`, into the buffer of the worker; the header is left in `inHdr` of the
machine before. -/
def receivePacket (m : Machine) : Machine :=
  { m with
    inHdr := { m.inHdr with length := 0 }
    buffer := if m.inHdr.length.toNat ≠ 0 then bcopy m.inbox m.buffer m.inHdr.length.toNat
      else m.buffer }

/-- The rest of the loop of `PostalDelivery`, up to `messages->Append`. -/
def postalDelivery (numBoxes : Int) (m : Machine) : Machine :=
  let pktHdr := m.inHdr
  let m := m.receivePacket
  let mailHdr := MailHeader.read m.buffer
  if 0 ≤ mailHdr.toId.toInt ∧ mailHdr.toId.toInt < numBoxes ∧
    mailHdr.length.toNat ≤ maxMailSize then
    if mailHdr.length.toNat ≤ maxMailSize then
      let mail := Mail.create pktHdr mailHdr (payload m.buffer)
      let b := mailHdr.toId.toNat
      { m.putBox b ((m.boxes b).call (.append mail) 0) with
        worker := .put b (m.boxes b).threads.length }
    else m.abort .mail
  else m.abort .postalDelivery

/-- The worker goes on in `Append`, and when that has returned from the top of its loop. -/
def append (m : Machine) (b i : Nat) : Option Machine := do
  let box ← Threads.Synch.step Threads.SynchLists.program (m.boxes b) (.move i)
  return { m.putBox b box with worker := afterAppend box b i }

/-- `PostOffice::Receive`, up to `messages->Remove()`. -/
def receive (numBoxes : Int) (m : Machine) (t : Nat) (box : Int) : Machine :=
  if 0 ≤ box ∧ box < numBoxes then
    let b := box.toNat
    (m.putBox b ((m.boxes b).call .remove (m.key t))).put t
      (.remove b (m.boxes b).threads.length m.returned.length)
  else m.abort .receiveBox

/-- A thread goes on in `Remove`. -/
def removeMail (m : Machine) (t b i since : Nat) : Option Machine := do
  let box ← Threads.Synch.step Threads.SynchLists.program (m.boxes b) (.move i)
  let number := (m.boxes b).shared.removed.length
  return match box.shared.removed[number]? with
    | some mail => (m.putBox b box).put t (.got b number since mail)
    | none => m.putBox b box

/-- The rest of `MailBox::Get` and of `Receive`. -/
def finish (m : Machine) (t b number since : Nat) (mail : Mail) : Machine :=
  if mail.mailHdr.length.toNat ≤ maxMailSize then
    { m.put t .outside with returned := m.returned ++ [⟨t, b, number, since, mail⟩] }
  else m.abort .receiveLength

/-! ## Threads -/

/-- Thread `t` goes on, if it is not before `network->Send`. -/
def go (m : Machine) (t : Nat) : Option Machine :=
  match m.places t with
  | .lock mail buffer false => some (m.acquire t mail buffer)
  | .wait false => some (m.pSent t)
  | .release => some (m.release t)
  | .remove b i since => m.removeMail t b i since
  | .got b number since mail => some (m.finish t b number since mail)
  | _ => none

/-- The worker goes on. -/
def work (numBoxes : Int) (m : Machine) : Option Machine :=
  match m.worker with
  | .wait false => some m.pAvailable
  | .wait true => none
  | .receive => some (m.postalDelivery numBoxes)
  | .put b i => m.append b i

/-- A box knows the priority of a thread that is in it. -/
def setBoxPriority (m : Machine) (t : Nat) (priority : Int) : Machine :=
  match m.places t with
  | .remove b i _ => m.putBox b ((m.boxes b).setPriority i priority)
  | _ => m

/-- `Thread::setPriority`. -/
def setPriority (m : Machine) (t : Nat) (priority : Int) : Machine :=
  { m.setBoxPriority t priority with key := Function.update m.key t priority }

end Machine

/-! ## All machines -/

structure World where
  machines : Word → Machine
  /-- The packets on their way from one machine to another. -/
  sockets : Word → Word → List (List Byte)
  /-- The messages that went to `network->Send` on one machine for another, in order. -/
  sent : Word → Word → List Mail

def create (fresh : Word → Nat → Byte) (key : Word → Nat → Int) : World where
  machines a := .create (fresh a) (key a)
  sockets := fun _ _ => []
  sent := fun _ _ => []

inductive Label where
  /-- Thread `t` of machine `a` calls `PostOffice::Send`. -/
  | send (a : Word) (t : Nat) (pktHdr : PacketHeader) (mailHdr : MailHeader)
      (data fresh : Nat → Byte)
  /-- Thread `t` of machine `a` calls `PostOffice::Receive`. -/
  | receive (a : Word) (t : Nat) (box : Int)
  | go (a : Word) (t : Nat)
  /-- `network->Send` of thread `t`; the packet is lost, or given to the socket. -/
  | transmit (a : Word) (t : Nat) (lost : Bool) (fresh : Nat → Byte)
  | work (a : Word)
  | sendDone (a : Word)
  /-- `NetworkReadPoll` on machine `a`; what it finds comes from `source`. -/
  | poll (a source : Word)
  | setPriority (a : Word) (t : Nat) (priority : Int)
  /-- The packet at position `k` is lost by the sockets. -/
  | lose (source dest : Word) (k : Nat)

namespace World

/-- A step of the machine `a`. -/
def act (w : World) (a : Word) (m : Option Machine) : Option World :=
  if (w.machines a).aborted = none then
    m.map fun m => { w with machines := Function.update w.machines a m }
  else none

/-- A thread that is in no call. -/
def idle (w : World) (a : Word) (t : Nat) : Bool :=
  match (w.machines a).places t with
  | .outside => true
  | _ => false

/-- One of the queues is changed. -/
def setQueue {α : Type} (queues : Word → Word → List α) (source dest : Word) (queue : List α) :
    Word → Word → List α :=
  Function.update queues source (Function.update (queues source) dest queue)

def push {α : Type} (queues : Word → Word → List α) (source dest : Word) (x : α) :
    Word → Word → List α :=
  setQueue queues source dest (queues source dest ++ [x])

/-- `Network::Send` on the machine `a`.  `SendToSocket` finds the socket of the receiver here. -/
def transmit (w : World) (a : Word) (t : Nat) (lost : Bool) (fresh : Nat → Byte) : Option World :=
  let m := w.machines a
  match m.places t with
  | .send mail buffer =>
      let hdr := mail.pktHdr
      if m.sendBusy = false ∧ 0 < hdr.length.toNat ∧ hdr.length.toNat ≤ maxPacketSize ∧
        hdr.fromId = a then
        (w.act a (some { m.put t (.wait false) with
          sendBusy := true
          scheduled := m.scheduled + 1 })).map fun w =>
            { w with
              sockets := if lost then w.sockets else push w.sockets a hdr.toId
                (packet fresh hdr buffer)
              sent := push w.sent a hdr.toId mail }
      else w.act a (some (m.abort .networkSend))
  | _ => none

/-- `Network::CheckPktAvail` on the machine `a`. -/
def poll (w : World) (a source : Word) : Option World :=
  if (w.machines a).inHdr.length.toNat ≠ 0 then w.act a (some (w.machines a))
  else match w.sockets source a with
    | [] => w.act a (some (w.machines a))
    | packet :: rest =>
        (w.act a (some ((w.machines a).checkPktAvail a packet))).map fun w =>
          { w with sockets := setQueue w.sockets source a rest }

def step (numBoxes : Int) (w : World) : Label → Option World
  | .send a t pktHdr mailHdr data fresh =>
      if w.idle a t then
        w.act a (some ((w.machines a).send numBoxes a t pktHdr mailHdr data fresh))
      else none
  | .receive a t box =>
      if w.idle a t then w.act a (some ((w.machines a).receive numBoxes t box)) else none
  | .go a t => w.act a ((w.machines a).go t)
  | .transmit a t lost fresh => w.transmit a t lost fresh
  | .work a => w.act a ((w.machines a).work numBoxes)
  | .sendDone a =>
      if 0 < (w.machines a).scheduled then w.act a (some (w.machines a).sendDone) else none
  | .poll a source => w.poll a source
  | .setPriority a t priority => w.act a (some ((w.machines a).setPriority t priority))
  | .lose source dest k =>
      some { w with
        sockets := setQueue w.sockets source dest ((w.sockets source dest).eraseIdx k) }

end World

end Nachos.Network
