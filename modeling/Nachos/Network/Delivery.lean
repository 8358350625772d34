/-
# Nachos.Network.Delivery -- what the post office delivers

A message is followed from `network->Send` to the return of `Receive`: through a socket, and
through the stock of the machine it goes to.  In none of these does one message overtake another
that goes to the same box from the same machine (`Ordered`).

`Receive` removes the mail under the lock of the box and returns it later, so that of two calls
that overlap the later one may return the earlier message (`receive_overtakes`).
-/
import Nachos.Network.Office
import Mathlib.Data.List.Perm.Subperm
import Mathlib.Data.List.Nodup

namespace Nachos.Network

open Nachos.Lib.Bytes
open Nachos.Lib.Run
open Nachos.Threads (remove)

set_option autoImplicit false

/-! ## What is to hold -/

namespace World

/-- What was taken out of a box, in order. -/
def taken (w : World) (a : Word) (b : Nat) : List Mail := ((w.machines a).boxes b).shared.removed

/-- What one machine sent to a box of another, in order. -/
def sentTo (w : World) (source a : Word) (b : Nat) : List Mail :=
  (w.sent source a).filter fun m => decide (m.mailHdr.toId.toNat = b)

/-- What `Receive(b)` has returned of the messages of one machine, in the order of the returns. -/
def returnedFrom (w : World) (source a : Word) (b : Nat) : List Mail :=
  (((w.machines a).returned.filter fun r => decide (r.box = b)).map Return.mail).filter
    fun m => decide (m.pktHdr.fromId = source)

end World

/-- The post office delivers. -/
structure Delivered (w : World) : Prop where
  /-- What `Receive` returns was sent to that machine and box. -/
  genuine : ∀ a, ∀ r ∈ (w.machines a).returned,
    r.mail ∈ w.sentTo r.mail.pktHdr.fromId a r.box ∧ r.mail.mailHdr.length.toNat ≤ maxMailSize
  /-- No message is returned twice. -/
  once : ∀ source a b, List.Subperm (w.returnedFrom source a b) (w.sentTo source a b)
  /-- Messages are taken out of a box in the order they were sent; -/
  order : ∀ source a b, List.Sublist
    ((w.taken a b).filter fun m => decide (m.pktHdr.fromId = source)) (w.sentTo source a b)
  /-- a call returns the message it took out, -/
  returns : ∀ a, ∀ r ∈ (w.machines a).returned, (w.taken a r.box)[r.number]? = some r.mail
  /-- and it took it out after those of all calls that had returned when it was made. -/
  turns : ∀ a (i j : Nat) (r r' : Return), (w.machines a).returned[i]? = some r →
    (w.machines a).returned[j]? = some r' → r.box = r'.box → i < r'.since → r.number < r'.number
  /-- No `ASSERT` fails but those about what a caller of `Send` and `Receive` asks for. -/
  asserts : ∀ a x, (w.machines a).aborted = some x → x = .send ∨ x = .receiveBox

/-! ## All machines -/

/-- A packet that one machine sent to another. -/
structure Wired (numBoxes : Int) (source dest : Word) (packet : List Byte) : Prop where
  legal : (contents packet).Legal numBoxes
  toId : (contents packet).pktHdr.toId = dest
  fromId : (contents packet).pktHdr.fromId = source

/-- No message overtakes another that goes the same way. -/
def Ordered (source : Word) (b : Nat) (stock : List Mail) (socket : List (List Byte))
    (sent : List Mail) :
    Prop :=
  List.Sublist ((stock ++ socket.map contents).filter (addressed source b))
    (sent.filter (addressed source b))

section Ordered

variable {source : Word} {b : Nat} {stock stock' sent : List Mail}
  {socket socket' : List (List Byte)} {packet : List Byte} {mail : Mail}

theorem Ordered.kept (order : Ordered source b stock socket sent)
    (same : stock'.filter (addressed source b) = stock.filter (addressed source b)) :
    Ordered source b stock' socket sent := by
  unfold Ordered at order ⊢
  rw [List.filter_append, same, ← List.filter_append]
  exact order

theorem Ordered.lose (order : Ordered source b stock socket sent)
    (fewer : List.Sublist socket' socket) :
    Ordered source b stock socket' sent := by
  refine List.Sublist.trans ?_ order
  apply List.Sublist.filter
  apply List.Sublist.append_left
  exact fewer.map contents

/-- A message is sent and lost. -/
theorem Ordered.waste (order : Ordered source b stock socket sent) (mail : Mail) :
    Ordered source b stock socket (sent ++ [mail]) := by
  unfold Ordered at order ⊢
  rw [List.filter_append (sent)]
  exact order.trans (List.sublist_append_left _ _)

/-- A message is sent. -/
theorem Ordered.push (order : Ordered source b stock socket sent)
    (carried : contents packet = mail) :
    Ordered source b stock (socket ++ [packet]) (sent ++ [mail]) := by
  unfold Ordered at order ⊢
  have last : stock ++ (socket ++ [packet]).map contents =
      stock ++ socket.map contents ++ [mail] := by
    rw [List.map_append, List.append_assoc, ← carried]
    rfl
  rw [last, List.filter_append, List.filter_append (sent)]
  exact order.append (List.Sublist.refl _)

/-- A packet is read. -/
theorem Ordered.read (order : Ordered source b stock (packet :: socket) sent) :
    Ordered source b (stock ++ [contents packet]) socket sent := by
  unfold Ordered at order ⊢
  rw [List.append_assoc]
  exact order

/-- A packet that comes another way is read. -/
theorem Ordered.other (order : Ordered source b stock socket sent)
    (other : addressed source b mail = false) : Ordered source b (stock ++ [mail]) socket sent := by
  apply order.kept
  rw [List.filter_append, List.filter_singleton, other, Bool.cond_false, List.append_nil]

end Ordered

structure World.Sound (numBoxes : Int) (w : World) : Prop where
  machines : ∀ a, (w.machines a).Sound numBoxes a
  wire : ∀ source dest, ∀ p ∈ w.sockets source dest, Wired numBoxes source dest p
  order : ∀ source dest b, Ordered source b ((w.machines dest).stock b) (w.sockets source dest)
    (w.sent source dest)

section World

variable {numBoxes : Int} {w w' : World} {a source dest : Word} {m : Machine} {t : Nat}

theorem World.create_sound (fresh : Word → Nat → Byte) (key : Word → Nat → Int) :
    (create fresh key).Sound numBoxes where
  machines a := Network.create_sound (fresh a) (key a)
  wire source dest p bad := by cases bad
  order source dest b := List.Sublist.refl _

/-- A machine that is told to go on does so. -/
theorem World.act_eq_some (acted : w.act a (some m) = some w') :
    w' = { w with machines := Function.update w.machines a m } := by
  unfold World.act at acted
  split at acted
  · exact (Option.some.inj acted).symm
  · cases acted

/-- A step of one machine that keeps its mail in order. -/
theorem World.Sound.update (sound : w.Sound numBoxes) (there : m.Sound numBoxes a)
    (kept : Kept (w.machines a).stock m.stock) :
    World.Sound numBoxes { w with machines := Function.update w.machines a m } where
  machines a' := by
    show (Function.update w.machines a m a').Sound numBoxes a'
    rw [Function.update_apply]
    split
    · rename_i same
      rw [same]
      exact there
    · exact sound.machines a'
  wire := sound.wire
  order source dest b := by
    show Ordered source b ((Function.update w.machines a m dest).stock b) _ _
    rw [Function.update_apply]
    split
    · rename_i same
      rw [same]
      exact (sound.order source a b).kept (kept source b)
    · exact sound.order source dest b

theorem World.Sound.act {m' : Option Machine} (sound : w.Sound numBoxes)
    (acted : w.act a m' = some w')
    (there : ∀ m, m' = some m → m.Sound numBoxes a ∧ Kept (w.machines a).stock m.stock) :
    w'.Sound numBoxes := by
  cases m' with
  | none =>
      unfold World.act at acted
      split at acted <;> cases acted
  | some m =>
      obtain ⟨there, kept⟩ := there m rfl
      rw [World.act_eq_some acted]
      exact sound.update there kept

theorem setQueue_apply {α : Type} (queues : Word → Word → List α) (source dest : Word)
    (queue : List α)
    (source' dest' : Word) : World.setQueue queues source dest queue source' dest' =
      if source' = source ∧ dest' = dest then queue else queues source' dest' := by
  by_cases one : source' = source
  · subst one
    by_cases two : dest' = dest
    · simp [World.setQueue, two]
    · simp [World.setQueue, two]
  · simp [World.setQueue, one]

theorem World.Sound.lose {k : Nat} (sound : w.Sound numBoxes) :
    World.Sound numBoxes { w with
      sockets := World.setQueue w.sockets source dest ((w.sockets source dest).eraseIdx k) } := by
  have fewer (source' dest' : Word) : List.Sublist (World.setQueue w.sockets source dest
      ((w.sockets source dest).eraseIdx k) source' dest') (w.sockets source' dest') := by
    rw [setQueue_apply]
    split
    · rename_i same
      rw [same.1, same.2]
      exact List.eraseIdx_sublist ..
    · exact List.Sublist.refl _
  refine ⟨sound.machines, ?_, ?_⟩
  · intro source' dest' p member
    exact sound.wire source' dest' p ((fewer source' dest').subset member)
  · intro source' dest' b
    exact (sound.order source' dest' b).lose (fewer source' dest')

/-- **`Network::Send` puts the message into the socket, or loses it**; its `ASSERT` holds. -/
theorem World.Sound.transmit {lost : Bool} {fresh : Nat → Byte} (sound : w.Sound numBoxes)
    (moved : w.transmit a t lost fresh = some w') : w'.Sound numBoxes := by
  obtain ⟨mail, buffer, here⟩ : ∃ mail buffer, (w.machines a).places t = .send mail buffer := by
    cases place : (w.machines a).places t with
    | send mail buffer => exact ⟨mail, buffer, rfl⟩
    | outside | lock | wait | release | remove | got => simp [World.transmit, place] at moved
  simp only [World.transmit, here] at moved
  have sending := (sound.machines a).sending
  have past : ¬ ((w.machines a).places t).Away := by
    rw [here]
    exact id
  have quiet : Quiet (w.machines a).sendBusy (w.machines a).scheduled (w.machines a).sentValue := by
    have tenant := sending.tenant t (sending.holds past)
    rw [here] at tenant
    exact tenant
  have ready := sending.ready t
  rw [here] at ready
  obtain ⟨inside, legal, mine⟩ := ready
  rw [if_pos ⟨quiet.sendBusy, legal.pos, legal.fits, mine⟩, Option.map_eq_some_iff] at moved
  obtain ⟨w₁, acted, rfl⟩ := moved
  rw [World.act_eq_some acted]
  -- the machine
  have sound' := sound.update (a := a) (m := { (w.machines a).put t (.wait false) with
      sendBusy := true
      scheduled := (w.machines a).scheduled + 1 }) ?_ (Kept.refl _)
  rotate_left
  · refine ⟨?_, (sound.machines a).receiving, (sound.machines a).returning.put_elsewhere rfl,
      (sound.machines a).asserts⟩
    apply sending.hold past
    · exact .inl ⟨rfl, by rw [quiet.scheduled], quiet.value⟩
    · trivial
  -- the message
  have carried : contents (packet fresh mail.pktHdr buffer) = mail := by
    rw [← inside] at legal
    rw [(contents_packet legal fresh).2.2, inside]
  refine ⟨sound'.machines, ?_, ?_⟩
  · intro source dest p member
    have old := sound.wire source dest p
    cases lost with
    | true => exact old member
    | false =>
        simp only [Bool.false_eq_true, if_false, World.push, setQueue_apply] at member
        split at member
        · rename_i same
          rcases List.mem_append.mp member with before | new
          · exact sound.wire source dest p (by rw [same.1, same.2]; exact before)
          · rw [List.mem_singleton.mp new]
            refine ⟨?_, ?_, ?_⟩
            · rw [carried]
              exact legal
            · rw [carried, same.2]
            · rw [carried, mine, same.1]
        · exact old member
  · intro source dest b
    have order := sound'.order source dest b
    simp only [World.push, setQueue_apply]
    by_cases this : source = a ∧ dest = mail.pktHdr.toId
    · rw [if_pos this, this.1, this.2]
      rw [this.1, this.2] at order
      cases lost with
      | true => exact order.waste mail
      | false =>
          simp only [Bool.false_eq_true, if_false, setQueue_apply, and_self, if_true]
          exact order.push carried
    · rw [if_neg this]
      cases lost with
      | true => exact order
      | false =>
          simp only [Bool.false_eq_true, if_false, setQueue_apply, if_neg this]
          exact order

/-- **A poll takes the packet out of the socket unaltered**; its `ASSERT` holds. -/
theorem World.Sound.poll (sound : w.Sound numBoxes) (moved : w.poll a source = some w') :
    w'.Sound numBoxes := by
  unfold World.poll at moved
  split at moved
  · exact sound.act moved fun m same => by
      cases same
      exact ⟨sound.machines a, Kept.refl _⟩
  rename_i empty
  have empty : (w.machines a).inHdr.length.toNat = 0 := Decidable.not_not.mp empty
  split at moved
  · exact sound.act moved fun m same => by
      cases same
      exact ⟨sound.machines a, Kept.refl _⟩
  rename_i packet rest queue
  obtain ⟨w₁, acted, rfl⟩ := Option.map_eq_some_iff.mp moved
  rw [World.act_eq_some acted]
  have wired := sound.wire source a packet (by rw [queue]; exact List.mem_cons_self ..)
  have toId : (PacketHeader.read (readFromSocket packet)).toId = a := wired.toId
  have fits : (PacketHeader.read (readFromSocket packet)).length.toNat ≤ maxPacketSize :=
    wired.legal.fits
  have inside : mailIn (.read (readFromSocket packet)) (bcopy (payload (readFromSocket packet))
      (w.machines a).inbox (PacketHeader.read (readFromSocket packet)).length.toNat) =
        contents packet := by
    have legal : (mailIn (.read (readFromSocket packet)) (payload (readFromSocket packet))).Legal
        numBoxes :=
      wired.legal
    apply legal.copied
    intro i early
    exact bcopy_apply early
  -- the machine
  have checked : ((w.machines a).checkPktAvail a packet).Sound numBoxes a ∧
      ∀ b, ((w.machines a).checkPktAvail a packet).stock b =
        (w.machines a).stock b ++ [contents packet] := by
    have there := sound.machines a
    have arrives (worker : Worker) (woken : worker = (w.machines a).worker ∨
        worker = (w.machines a).worker.woken) := there.receiving.arrive empty
      (inside.symm ▸ wired.legal) woken
    rw [inside] at arrives
    unfold Machine.checkPktAvail
    rw [if_pos ⟨toId, fits⟩]
    unfold Machine.incomingPacket
    cases first : remove (w.machines a).availableQueue with
    | none =>
        obtain ⟨receiving, stocks⟩ := arrives _ (.inl rfl)
        exact ⟨⟨there.sending, receiving, there.returning, there.asserts⟩, stocks⟩
    | some taken =>
        obtain ⟨receiving, stocks⟩ := arrives _ (.inr rfl)
        exact ⟨⟨there.sending, receiving, there.returning, there.asserts⟩, stocks⟩
  refine ⟨?_, ?_, ?_⟩
  · intro a'
    show (Function.update w.machines a _ a').Sound numBoxes a'
    rw [Function.update_apply]
    split
    · rename_i same
      rw [same]
      exact checked.1
    · exact sound.machines a'
  · intro source' dest p member
    simp only [setQueue_apply] at member
    split at member
    · rename_i same
      rw [same.1, same.2]
      exact sound.wire source a p (by rw [queue]; exact List.mem_cons_of_mem _ member)
    · exact sound.wire source' dest p member
  · intro source' dest b
    have order := sound.order source' dest b
    simp only [setQueue_apply, Function.update_apply]
    by_cases this : dest = a
    · subst this
      rw [if_pos rfl, checked.2]
      by_cases same : source' = source
      · subst same
        rw [queue] at order
        rw [if_pos ⟨rfl, rfl⟩]
        exact order.read
      · -- the packet that was read is from another machine
        have others : addressed source' b (contents packet) = false := by
          unfold addressed
          rw [wired.fromId]
          simp [Ne.symm same]
        rw [if_neg fun both => same both.1]
        exact order.other others
    · rw [if_neg this, if_neg fun both => this both.2]
      exact order

theorem World.idle_eq (idle : w.idle a t = true) : (w.machines a).places t = .outside := by
  unfold World.idle at idle
  split at idle
  · assumption
  · cases idle

/-- **Every step keeps the mail in order.** -/
theorem World.Sound.step {label : Label} (sound : w.Sound numBoxes)
    (moved : w.step numBoxes label = some w') :
    w'.Sound numBoxes := by
  cases label with
  | send a t pktHdr mailHdr data fresh =>
      obtain ⟨idle, acted⟩ := Option.ite_none_right_eq_some.mp moved
      refine sound.act acted fun m same => ?_
      cases same
      exact (sound.machines a).send (World.idle_eq idle)
  | receive a t box =>
      obtain ⟨idle, acted⟩ := Option.ite_none_right_eq_some.mp moved
      refine sound.act acted fun m same => ?_
      cases same
      exact (sound.machines a).receive (World.idle_eq idle)
  | go a t => exact sound.act moved fun m same => (sound.machines a).go same
  | transmit a t lost fresh => exact sound.transmit moved
  | work a => exact sound.act moved fun m same => (sound.machines a).work same
  | sendDone a =>
      obtain ⟨due, acted⟩ := Option.ite_none_right_eq_some.mp moved
      refine sound.act acted fun m same => ?_
      cases same
      exact (sound.machines a).sendDone due
  | poll a source => exact sound.poll moved
  | setPriority a t priority =>
      refine sound.act moved fun m same => ?_
      cases same
      exact (sound.machines a).setPriority
  | lose source dest k =>
      cases moved
      exact sound.lose

/-! ## What was returned -/

/-- What was taken out of a box was sent to it, in that order. -/
theorem World.Sound.taken_sublist (sound : w.Sound numBoxes) (source a : Word) (b : Nat) :
    List.Sublist ((w.taken a b).filter fun m => decide (m.pktHdr.fromId = source))
    (w.sentTo source a b) := by
  have receiving := (sound.machines a).receiving
  have stocked : List.Sublist (w.taken a b) ((w.machines a).stock b) := by
    have appended : List.Sublist (w.taken a b) ((w.machines a).boxes b).shared.appended := by
      rw [receiving.lossless b]
      exact List.sublist_append_left _ _
    rw [Machine.stock, stock, List.append_assoc]
    exact appended.trans (List.sublist_append_left _ _)
  have theirs : (w.taken a b).filter (fun m => decide (m.pktHdr.fromId = source)) =
      (w.taken a b).filter (addressed source b) := by
    apply List.filter_congr
    intro m member
    have appended : m ∈ ((w.machines a).boxes b).shared.appended := by
      rw [receiving.lossless b]
      exact List.mem_append_left _ member
    simp [addressed, (receiving.legal b m appended).2]
  have order := sound.order source a b
  rw [theirs]
  refine ((stocked.trans (List.sublist_append_left _ _)).filter _).trans (order.trans ?_)
  apply List.monotone_filter_right
  intro m there
  exact decide_eq_true (of_decide_eq_true there).2

/-- Different numbers in a list are different places of it. -/
theorem subperm_of_numbers {α : Type} {l : List α} {pairs : List (Nat × α)}
    (once : pairs.Pairwise fun p q => p.1 ≠ q.1) (found : ∀ p ∈ pairs, l[p.1]? = some p.2) :
    List.Subperm (pairs.map Prod.snd) l := by
  have distinct : (pairs.map Prod.fst).Nodup := List.pairwise_map.mpr once
  have inside : pairs.map Prod.fst ⊆ List.range l.length := by
    intro n member
    obtain ⟨p, there, rfl⟩ := List.mem_map.mp member
    exact List.mem_range.mpr (List.getElem?_eq_some_iff.mp (found p there)).1
  obtain ⟨numbers, perm, sub⟩ := List.subperm_of_subset distinct inside
  have left : (pairs.map Prod.fst).filterMap (fun n => l[n]?) = pairs.map Prod.snd := by
    rw [List.filterMap_map, ← List.filterMap_eq_map]
    exact List.filterMap_congr found
  have right : (List.range l.length).filterMap (fun n => l[n]?) = l := by
    have all : (List.range l.length).map (fun n => l[n]?) = l.map some := by
      apply List.ext_getElem?
      intro n
      by_cases early : n < l.length
      · simp [early]
      · simp [early]
    have unwrapped := congrArg (List.filterMap id) all
    simpa [List.filterMap_map, Function.comp_def] using unwrapped
  refine ⟨numbers.filterMap (fun n => l[n]?), ?_, ?_⟩
  · rw [← left]
    exact perm.filterMap _
  · conv_rhs => rw [← right]
    exact sub.filterMap _

/-- What was returned from a box was taken out of it, once each. -/
theorem World.Sound.returned_subperm (sound : w.Sound numBoxes) (a : Word) (b : Nat) :
    List.Subperm (((w.machines a).returned.filter fun r => decide (r.box = b)).map Return.mail)
      (w.taken a b) := by
  have returning := (sound.machines a).returning
  have numbered := @subperm_of_numbers Mail (w.taken a b)
    (((w.machines a).returned.filter fun r => decide (r.box = b)).map fun r => (r.number, r.mail))
      ?_ ?_
  · rw [List.map_map] at numbered
    exact numbered
  · rw [List.pairwise_map, List.pairwise_filter]
    refine returning.once.imp ?_
    intro r r' once here there
    exact once ((of_decide_eq_true here).trans (of_decide_eq_true there).symm)
  · intro p member
    obtain ⟨r, there, rfl⟩ := List.mem_map.mp member
    obtain ⟨among, box⟩ := List.mem_filter.mp there
    have mail := returning.mail r among
    rw [of_decide_eq_true box] at mail
    exact mail

theorem World.Sound.delivered (sound : w.Sound numBoxes) : Delivered w := by
  have taken (a : Word) (r : Return) (member : r ∈ (w.machines a).returned) :
      r.mail ∈ w.taken a r.box :=
    List.mem_of_getElem? ((sound.machines a).returning.mail r member)
  constructor
  · intro a r member
    have genuine : r.mail ∈ w.sentTo r.mail.pktHdr.fromId a r.box := by
      apply (sound.taken_sublist r.mail.pktHdr.fromId a r.box).subset
      exact List.mem_filter.mpr ⟨taken a r member, decide_eq_true rfl⟩
    refine ⟨genuine, ?_⟩
    have legal : r.mail.For numBoxes r.box := by
      apply (sound.machines a).receiving.legal r.box
      rw [(sound.machines a).receiving.lossless r.box]
      exact List.mem_append_left _ (taken a r member)
    exact legal.1.size
  · intro source a b
    exact ((sound.returned_subperm a b).filter _).trans (sound.taken_sublist source a b).subperm
  · exact sound.taken_sublist
  · intro a r member
    exact (sound.machines a).returning.mail r member
  · intro a
    exact (sound.machines a).returning.turns
  · intro a
    exact (sound.machines a).asserts

end World

/-- **The post office delivers**, in every state of every run of any number of machines: what
`Receive` returns was sent to that box, nothing is returned twice, and the messages of one
machine are taken out of a box in the order they were sent. -/
theorem postOffice_delivers (numBoxes : Int) (fresh : Word → Nat → Byte) (key : Word → Nat → Int)
    (labels : List Label) :
    AllStates (World.step numBoxes) Delivered (create fresh key) labels := by
  have all : AllStates (World.step numBoxes) (World.Sound numBoxes) (create fresh key) labels :=
    allStates_of_invariant (fun _ _ _ sound _ moved => World.Sound.step sound moved)
      (World.create_sound fresh key) (allSteps_true _ labels)
  exact all.mono fun w sound => sound.delivered

/-! ## Calls that overlap -/

/-- Machine 0 sends one byte to box 0 of machine 1. -/
def mailing (x : Byte) : List Label :=
  [.send 0 0 ⟨1, 0, 0⟩ ⟨0, 1, 1⟩ (fun _ => x) (fun _ => 0), .go 0 0,
    .transmit 0 0 false (fun _ => 0), .sendDone 0, .go 0 0, .go 0 0]

/-- The worker of machine 1 delivers a message. -/
def delivering : List Label := [.poll 1 0, .work 1, .work 1, .work 1, .work 1, .work 1]

/-- Thread 0 takes out the first message and is preempted; thread 1 takes out the second and
returns. -/
def overtaking : List Label :=
  [.receive 1 0 0, .go 1 0, .go 1 0, .receive 1 1 0, .go 1 1, .go 1 1, .go 1 1, .go 1 0]

/-- Two messages are returned in the order in which the calls come back, and a call for a box
that is not there does not get past the first `ASSERT` of `Receive`. -/
theorem receive_overtakes :
    (∃ w, exec (World.step 10) (create (fun _ _ => 0) fun _ _ => 0)
        (mailing 5 ++ mailing 6 ++ delivering ++ delivering ++ overtaking) = some w ∧
      ¬ List.Sublist (w.returnedFrom 0 1 0) (w.sentTo 0 1 0)) ∧
    ∃ w, exec (World.step 10) (create (fun _ _ => 0) fun _ _ => 0) [.receive 1 0 10] = some w ∧
      (w.machines 1).aborted = some .receiveBox := by
  constructor
  · have late : (exec (World.step 10) (create (fun _ _ => 0) fun _ _ => 0)
        (mailing 5 ++ mailing 6 ++ delivering ++ delivering ++ overtaking)).any
          (fun w => decide (¬ List.Sublist (w.returnedFrom 0 1 0) (w.sentTo 0 1 0))) = true := by
      decide +kernel
    obtain ⟨w, run, late⟩ := (Option.any_eq_true _ _).mp late
    exact ⟨w, run, of_decide_eq_true late⟩
  · exact ⟨_, rfl, rfl⟩

end Nachos.Network
