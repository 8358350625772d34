/-
# Nachos.Network.Office -- one machine: what its device, its worker and its boxes agree on

* `Sending`: the device is idle when `Network::Send` is called.
* `Receiving`: the semaphore `messageAvailable` counts the packet in the device, and what is on
  its way to a box is legal mail.
* `Returning`: a call of `Receive` returns what it took out of the box.

A message that has come in is in the buffer of the device (`held`), then in the hands of the
worker (`hand`), then in its box.  `stock` strings these together, and every step of the machine
leaves what one machine sent to one box in its order (`Kept`).

Each invariant speaks of the fields it needs only, so that a step that leaves these alone keeps
it as it is.
-/
import Nachos.Network.Post

namespace Nachos.Network

open Nachos.Lib.Bytes
open Nachos.Threads (ListElement sortedInsert remove items)
open Nachos.Threads.Synch (Monitor move_cases point_call point_call_new)
open Nachos.Threads.SynchLists (SynchList Point Cond move_effect)

set_option autoImplicit false

/-! ## Sending -/

section Sending

/-- The device is idle, and nobody waits for it. -/
structure Quiet (sendBusy : Bool) (scheduled : Nat) (value : Int) : Prop where
  sendBusy : sendBusy = false
  scheduled : scheduled = 0
  value : value = 0

/-- A packet is going out, or is out. -/
def Waited (sendBusy : Bool) (scheduled : Nat) (value : Int) : Prop :=
  (sendBusy = true ∧ scheduled = 1 ∧ value = 0) ∨ (sendBusy = false ∧ scheduled = 0 ∧ value = 1)

/-- What holds while a thread has the lock. -/
def Tenant (sendBusy : Bool) (scheduled : Nat) (value : Int) : Place → Prop
  | .send _ _ | .release => Quiet sendBusy scheduled value
  | .wait _ => Waited sendBusy scheduled value
  | _ => False

/-- The thread does not have the lock. -/
def Place.Away : Place → Prop
  | .send _ _ | .release | .wait _ => False
  | _ => True

/-- The message is in the buffer. -/
def Place.Ready (numBoxes : Int) (a : Word) : Place → Prop
  | .lock mail buffer _ | .send mail buffer =>
      mailIn mail.pktHdr buffer = mail ∧ mail.Legal numBoxes ∧ mail.pktHdr.fromId = a
  | _ => True

structure Sending (numBoxes : Int) (a : Word) (places : Nat → Place) (isLocked : Bool)
    (currThread : Option Nat) (sendBusy : Bool) (scheduled : Nat) (value : Int) : Prop where
  locked : isLocked = currThread.isSome
  others : ∀ t, currThread ≠ some t → (places t).Away
  free : currThread = none → Quiet sendBusy scheduled value
  tenant : ∀ t, currThread = some t → Tenant sendBusy scheduled value (places t)
  ready : ∀ t, (places t).Ready numBoxes a

variable {numBoxes : Int} {a : Word} {places : Nat → Place} {isLocked : Bool}
  {currThread : Option Nat} {sendBusy : Bool} {scheduled : Nat} {value : Int} {t : Nat} {p : Place}

theorem Place.woken_away (away : p.Away) : p.woken.Away := by
  cases p <;> exact away

theorem Place.woken_ready (ready : p.Ready numBoxes a) : p.woken.Ready numBoxes a := by
  cases p <;> exact ready

theorem Tenant.woken (tenant : Tenant sendBusy scheduled value p) :
    Tenant sendBusy scheduled value p.woken := by
  cases p <;> exact tenant

theorem Tenant.not_away (tenant : Tenant sendBusy scheduled value p) : ¬ p.Away := by
  cases p <;> first | exact tenant.elim | exact id

/-- To be woken changes nothing for the device. -/
theorem Sending.woken
    (sending : Sending numBoxes a places isLocked currThread sendBusy scheduled value)
    (j : Nat) : Sending numBoxes a (Function.update places j (places j).woken) isLocked currThread
      sendBusy scheduled value where
  locked := sending.locked
  others t apart := by
    rw [Function.update_apply]
    split
    · rename_i same
      exact Place.woken_away (same ▸ sending.others t apart)
    · exact sending.others t apart
  free := sending.free
  tenant t held := by
    rw [Function.update_apply]
    split
    · rename_i same
      exact (same ▸ sending.tenant t held : Tenant _ _ _ (places j)).woken
    · exact sending.tenant t held
  ready t := by
    rw [Function.update_apply]
    split
    · rename_i same
      exact Place.woken_ready (same ▸ sending.ready t)
    · exact sending.ready t

/-- A thread without the lock moves on without it. -/
theorem Sending.away
    (sending : Sending numBoxes a places isLocked currThread sendBusy scheduled value)
    (before : (places t).Away) (after : p.Away) (ready : p.Ready numBoxes a) :
    Sending numBoxes a (Function.update places t p) isLocked currThread sendBusy
      scheduled value where
  locked := sending.locked
  others u apart := by
    rw [Function.update_apply]
    split
    · exact after
    · exact sending.others u apart
  free := sending.free
  tenant u held := by
    have tenant := sending.tenant u held
    rw [Function.update_apply]
    split
    · rename_i same
      rw [same] at tenant
      exact absurd before tenant.not_away
    · exact tenant
  ready u := by
    rw [Function.update_apply]
    split
    · exact ready
    · exact sending.ready u

/-- A thread past `Acquire` has the lock. -/
theorem Sending.holds
    (sending : Sending numBoxes a places isLocked currThread sendBusy scheduled value)
    (past : ¬ (places t).Away) : currThread = some t := by
  by_contra free
  exact past (sending.others t free)

/-- The thread with the lock moves on. -/
theorem Sending.hold {sendBusy' : Bool} {scheduled' : Nat} {value' : Int}
    (sending : Sending numBoxes a places isLocked currThread sendBusy scheduled value)
    (past : ¬ (places t).Away) (tenant : Tenant sendBusy' scheduled' value' p)
    (ready : p.Ready numBoxes a) :
    Sending numBoxes a (Function.update places t p) isLocked currThread sendBusy' scheduled'
      value' := by
  have held := sending.holds past
  refine ⟨sending.locked, ?_, ?_, ?_, ?_⟩
  · intro u apart
    have other : u ≠ t := by
      rintro rfl
      exact apart held
    rw [Function.update_of_ne other]
    exact sending.others u apart
  · intro none
    rw [held] at none
    cases none
  · intro u held'
    obtain rfl : t = u := Option.some.inj (held.symm.trans held')
    rw [Function.update_self]
    exact tenant
  · intro u
    rw [Function.update_apply]
    split
    · exact ready
    · exact sending.ready u

/-- The lock is taken. -/
theorem Sending.take {mail : Mail} {buffer : Nat → Byte} {asleep : Bool}
    (sending : Sending numBoxes a places false currThread sendBusy scheduled value)
    (here : places t = .lock mail buffer asleep) :
    Sending numBoxes a (Function.update places t (.send mail buffer)) true
      (some t) sendBusy scheduled
      value := by
  have nobody : currThread = none := Option.not_isSome_iff_eq_none.mp (by simp [← sending.locked])
  refine ⟨rfl, ?_, ?_, ?_, ?_⟩
  · intro u apart
    have other : u ≠ t := by
      rintro rfl
      exact apart rfl
    rw [Function.update_of_ne other]
    exact sending.others u (by rw [nobody]; simp)
  · intro none
    cases none
  · intro u held
    obtain rfl : t = u := Option.some.inj held
    rw [Function.update_self]
    exact sending.free nobody
  · intro u
    rw [Function.update_apply]
    split
    · have ready := sending.ready t
      rw [here] at ready
      exact ready
    · exact sending.ready u

/-- The lock is given back. -/
theorem Sending.leave
    (sending : Sending numBoxes a places isLocked currThread sendBusy scheduled value)
    (here : places t = .release) :
    Sending numBoxes a (Function.update places t .outside) false none sendBusy scheduled value := by
  have held : currThread = some t := sending.holds (by rw [here]; exact id)
  refine ⟨rfl, ?_, ?_, ?_, ?_⟩
  · intro u _
    rw [Function.update_apply]
    split
    · trivial
    · apply sending.others u
      rw [held]
      exact fun same => ‹¬ u = t› (Option.some.inj same).symm
  · intro _
    have tenant := sending.tenant t held
    rw [here] at tenant
    exact tenant
  · intro u bad
    cases bad
  · intro u
    rw [Function.update_apply]
    split
    · trivial
    · exact sending.ready u

/-- The interrupt for a packet that went out. -/
theorem Sending.done
    (sending : Sending numBoxes a places isLocked currThread sendBusy scheduled value)
    (due : 0 < scheduled) :
    Sending numBoxes a places isLocked currThread false (scheduled - 1) (value + 1) := by
  have busy : sendBusy = true ∧ scheduled = 1 ∧ value = 0 ∧ ∃ t asleep, currThread = some t ∧
      places t = .wait asleep := by
    cases holder : currThread with
    | none =>
        have idle := (sending.free holder).scheduled
        omega
    | some t =>
        have tenant := sending.tenant t holder
        cases here : places t with
        | send mail buffer =>
            rw [here] at tenant
            have idle := Quiet.scheduled tenant
            omega
        | release =>
            rw [here] at tenant
            have idle := Quiet.scheduled tenant
            omega
        | wait asleep =>
            rw [here] at tenant
            rcases tenant with ⟨busy, one, zero⟩ | ⟨-, none, -⟩
            · exact ⟨busy, one, zero, t, asleep, rfl, here⟩
            · omega
        | outside | lock | remove | got =>
            rw [here] at tenant
            exact tenant.elim
  obtain ⟨rfl, rfl, rfl, t, asleep, held, here⟩ := busy
  have same : Function.update places t (.wait asleep) = places := by
    rw [← here, Function.update_eq_self]
  rw [← same]
  apply sending.hold
  · rw [here]
    exact id
  · exact .inr ⟨rfl, rfl, rfl⟩
  · trivial

end Sending

/-! ## Receiving -/

/-- The mail in the buffer of the device. -/
def held (inHdr : PacketHeader) (inbox : Nat → Byte) : List Mail :=
  if inHdr.length.toNat ≠ 0 then [mailIn inHdr inbox] else []

/-- The mail that a thread is about to append. -/
def carried : Point Mail → List Mail
  | .append mail => [mail]
  | _ => []

/-- The mail the worker is about to append. -/
def hand (boxes : Nat → Box) : Worker → List Mail
  | .put b i => ((boxes b).point i).elim [] carried
  | _ => []

/-- The semaphore counts the packet in the device, until the worker has come for it. -/
def Announced (value : Int) (worker : Worker) (inHdr : PacketHeader) : Prop :=
  (value = 0 ∧ worker ≠ .receive ∧ inHdr.length.toNat = 0) ∨
    (value = 1 ∧ worker ≠ .receive ∧ inHdr.length.toNat ≠ 0) ∨
    (value = 0 ∧ worker = .receive ∧ inHdr.length.toNat ≠ 0)

/-- A message for box `b`. -/
def Mail.For (numBoxes : Int) (b : Nat) (m : Mail) : Prop :=
  m.Legal numBoxes ∧ m.mailHdr.toId.toNat = b

structure Receiving (numBoxes : Int) (value : Int) (worker : Worker) (inHdr : PacketHeader)
    (inbox : Nat → Byte) (boxes : Nat → Box) : Prop where
  announced : Announced value worker inHdr
  inDevice : inHdr.length.toNat ≠ 0 → (mailIn inHdr inbox).Legal numBoxes
  /-- The worker is in `Append`, with a message for that box. -/
  inHand : ∀ b i, worker = .put b i → ∃ pc, (boxes b).point i = some pc ∧
    (pc = .appendEnd ∨ ∃ mail : Mail, pc = .append mail ∧ mail.For numBoxes b)
  lossless : ∀ b, (boxes b).shared.appended = (boxes b).shared.removed ++ items
    (boxes b).shared.list
  legal : ∀ b, ∀ m ∈ (boxes b).shared.appended, m.For numBoxes b

/-- A message of one machine for one box. -/
def addressed (source : Word) (b : Nat) (m : Mail) : Bool :=
  decide (m.pktHdr.fromId = source ∧ m.mailHdr.toId.toNat = b)

/-- What has come in for box `b`, in order, with what is still in the hands of the worker and
in the device. -/
def stock (worker : Worker) (inHdr : PacketHeader) (inbox : Nat → Byte)
    (boxes : Nat → Box) (b : Nat) :
    List Mail :=
  (boxes b).shared.appended ++ hand boxes worker ++ held inHdr inbox

section Receiving

variable {numBoxes : Int} {value : Int} {worker : Worker} {inHdr : PacketHeader}
  {inbox : Nat → Byte} {boxes : Nat → Box} {box : Box} {b i : Nat} {source : Word}

/-- A box is changed. -/
def withBox (boxes : Nat → Box) (b : Nat) (box : Box) : Nat → Box :=
  fun b' => if b' = b then box else boxes b'

@[simp] theorem withBox_self : withBox boxes b box b = box := if_pos rfl

theorem withBox_other {b' : Nat} (other : b' ≠ b) : withBox boxes b box b' = boxes b' :=
    if_neg other

theorem withBox_shared (same : box.shared = (boxes b).shared) (b' : Nat) :
    (withBox boxes b box b').shared = (boxes b').shared := by
  by_cases here : b' = b
  · rw [here, withBox_self, same]
  · rw [withBox_other here]

/-- A thread in `Remove` stays there, whoever moves. -/
theorem remover_kept {box' : Box} {j : Nat}
    (moved : Threads.Synch.step Threads.SynchLists.program box (.move i) = some box')
    (remover : ∃ pc, box.point j = some pc ∧ pc.isRemove = true) :
    ∃ pc, box'.point j = some pc ∧ pc.isRemove = true := by
  by_cases same : j = i
  · subst same
    obtain ⟨pc, here, isRemove⟩ := remover
    obtain ⟨pc', here', effect⟩ := move_effect moved
    obtain rfl : pc = pc' := Option.some.inj (here.symm.trans here')
    rcases effect with ⟨-, p, there, stays | ⟨-, loops⟩, -⟩ | ⟨item, append, -⟩ | ⟨-, there, -⟩
    · exact ⟨p.pc, by rw [Monitor.point, there]; rfl, by rw [stays]; exact isRemove⟩
    · exact ⟨p.pc, by rw [Monitor.point, there]; rfl, loops⟩
    · rw [append] at isRemove
      cases isRemove
    · exact ⟨pc, by rw [Monitor.point, there]; rfl, isRemove⟩
  · rw [(move_cases moved).1 j same]
    exact remover

/-- A box in which nothing is appended and the worker stays where it is. -/
theorem Receiving.quiet (receiving : Receiving numBoxes value worker inHdr inbox boxes)
    (appended : box.shared.appended = (boxes b).shared.appended)
    (lossless : box.shared.appended = box.shared.removed ++ items box.shared.list)
    (points : ∀ j pc, (boxes b).point j = some pc → pc.isRemove = false → box.point j = some pc) :
    Receiving numBoxes value worker inHdr inbox (withBox boxes b box) ∧
      ∀ b',
        stock worker inHdr inbox (withBox boxes b box) b' = stock worker inHdr inbox boxes b' := by
  have same (b' : Nat) : (withBox boxes b box b').shared.appended = (boxes b').shared.appended := by
    by_cases here : b' = b
    · rw [here, withBox_self, appended]
    · rw [withBox_other here]
  have stays : ∀ b' i, worker = .put b' i → (withBox boxes b box b').point i =
      (boxes b').point i := by
    intro b' i put
    by_cases here : b' = b
    · subst here
      obtain ⟨pc, at_pc, rest⟩ := receiving.inHand b' i put
      rw [withBox_self, at_pc]
      apply points i pc at_pc
      rcases rest with rfl | ⟨mail, rfl, -⟩
      · rfl
      · rfl
    · rw [withBox_other here]
  refine ⟨⟨receiving.announced, receiving.inDevice, ?_, ?_, ?_⟩, ?_⟩
  · intro b' i put
    rw [stays b' i put]
    exact receiving.inHand b' i put
  · intro b'
    by_cases here : b' = b
    · rw [here, withBox_self]
      exact lossless
    · rw [withBox_other here]
      exact receiving.lossless b'
  · intro b'
    rw [same]
    exact receiving.legal b'
  · intro b'
    have hands : hand (withBox boxes b box) worker = hand boxes worker := by
      cases worker with
      | wait | receive => rfl
      | put b' i =>
          simp only [hand, stays b' i rfl]
    rw [stock, stock, same, hands]

/-- Nothing is lost, added or overtaken between the device and the boxes. -/
def Kept (before after : Nat → List Mail) : Prop :=
  ∀ source b, (after b).filter (addressed source b) = (before b).filter (addressed source b)

theorem Kept.of_eq {before after : Nat → List Mail} (same : ∀ b, after b = before b) :
    Kept before after := by
  intro source b
  rw [same]

theorem Kept.refl (before : Nat → List Mail) : Kept before before := fun _ _ => rfl

/-- The worker waits for the semaphore. -/
theorem Receiving.wait (receiving : Receiving numBoxes value (.wait false) inHdr inbox boxes)
    (asleep : Bool) : Receiving numBoxes value (.wait asleep) inHdr inbox boxes := by
  refine ⟨?_, receiving.inDevice, ?_, receiving.lossless, receiving.legal⟩
  · rcases receiving.announced with ⟨zero, -, none⟩ | ⟨one, -, some⟩ | ⟨-, bad, -⟩
    · exact .inl ⟨zero, by simp, none⟩
    · exact .inr (.inl ⟨one, by simp, some⟩)
    · cases bad
  · intro b i put
    cases put

/-- The worker goes for the packet. -/
theorem Receiving.come (receiving : Receiving numBoxes value (.wait false) inHdr inbox boxes)
    (positive : value ≠ 0) : Receiving numBoxes (value - 1) .receive inHdr inbox boxes := by
  refine ⟨?_, receiving.inDevice, ?_, receiving.lossless, receiving.legal⟩
  · rcases receiving.announced with ⟨zero, -, -⟩ | ⟨rfl, -, some⟩ | ⟨-, bad, -⟩
    · exact absurd zero positive
    · exact .inr (.inr ⟨rfl, rfl, some⟩)
    · cases bad
  · intro b i put
    cases put

/-- The worker finds a packet. -/
theorem Receiving.full (receiving : Receiving numBoxes value .receive inHdr inbox boxes) :
    value = 0 ∧ inHdr.length.toNat ≠ 0 := by
  rcases receiving.announced with ⟨-, bad, -⟩ | ⟨-, bad, -⟩ | ⟨zero, -, some⟩
  · exact absurd rfl bad
  · exact absurd rfl bad
  · exact ⟨zero, some⟩

/-- A packet comes into the empty device. -/
theorem Receiving.arrive {inHdr' : PacketHeader} {inbox' : Nat → Byte} {worker' : Worker}
    (receiving : Receiving numBoxes value worker inHdr inbox boxes) (empty : inHdr.length.toNat = 0)
    (legal : (mailIn inHdr' inbox').Legal numBoxes)
    (woken : worker' = worker ∨ worker' = worker.woken) :
    Receiving numBoxes (value + 1) worker' inHdr' inbox' boxes ∧
      ∀ b, stock worker' inHdr' inbox' boxes b =
        stock worker inHdr inbox boxes b ++ [mailIn inHdr' inbox'] := by
  have full : inHdr'.length.toNat ≠ 0 := Nat.ne_of_gt legal.pos
  have idle : value = 0 ∧ worker ≠ .receive := by
    rcases receiving.announced with ⟨zero, other, -⟩ | ⟨-, -, some⟩ | ⟨-, -, some⟩
    · exact ⟨zero, other⟩
    · exact absurd empty some
    · exact absurd empty some
  have other : worker' ≠ .receive := by
    rcases woken with rfl | rfl
    · exact idle.2
    · cases worker <;> simp_all [Worker.woken]
  have hands : ∀ b i, worker' = .put b i → worker = .put b i := by
    rcases woken with rfl | rfl
    · exact fun _ _ put => put
    · intro b i put
      cases worker <;> simp_all [Worker.woken]
  have hand' : hand boxes worker' = hand boxes worker := by
    rcases woken with rfl | rfl
    · rfl
    · cases worker <;> rfl
  refine ⟨⟨?_, fun _ => legal, ?_, receiving.lossless, receiving.legal⟩, ?_⟩
  · refine .inr (.inl ⟨?_, other, full⟩)
    rw [idle.1]
    rfl
  · intro b i put
    exact receiving.inHand b i (hands b i put)
  · intro b
    have before : held inHdr inbox = [] := if_neg (fun some => some empty)
    have after : held inHdr' inbox' = [mailIn inHdr' inbox'] := if_pos full
    rw [stock, stock, hand', before, after, List.append_nil]

/-- The worker takes the mail out of the device and calls `Append`. -/
theorem Receiving.deliver {key : Int} {mail : Mail}
    (receiving : Receiving numBoxes value .receive inHdr inbox boxes)
    (inside : mailIn inHdr inbox = mail) (theirs : mail.mailHdr.toId.toNat = b) :
    Receiving numBoxes value (.put b (boxes b).threads.length) { inHdr with length := 0 } inbox
        (withBox boxes b ((boxes b).call (.append mail) key)) ∧
      Kept (stock .receive inHdr inbox boxes)
        (stock (.put b (boxes b).threads.length) { inHdr with length := 0 } inbox
          (withBox boxes b ((boxes b).call (.append mail) key))) := by
  obtain ⟨zero, full⟩ := receiving.full
  have legal : mail.Legal numBoxes := inside ▸ receiving.inDevice full
  have point : (withBox boxes b ((boxes b).call (.append mail) key) b).point
      (boxes b).threads.length =
      some (.append mail) := by
    rw [withBox_self]
    exact point_call_new _ _
  have same := @withBox_shared boxes ((boxes b).call (.append mail) key) b rfl
  refine ⟨⟨.inl ⟨zero, by simp, rfl⟩, fun some => absurd rfl some, ?_, ?_, ?_⟩, ?_⟩
  · rintro b' i ⟨⟩
    exact ⟨_, point, .inr ⟨mail, rfl, legal, theirs⟩⟩
  · intro b'
    rw [same]
    exact receiving.lossless b'
  · intro b'
    rw [same]
    exact receiving.legal b'
  · apply Kept.of_eq
    intro b'
    have before : held inHdr inbox = [mail] := by rw [held, if_pos full, inside]
    have after : held { inHdr with length := 0 } inbox = [] := rfl
    rw [stock, stock, same, before, after, hand, point]
    simp [hand, carried]

/-- What a worker in `Append` has in its hands. -/
theorem hand_put {pc : Point Mail} (here : (boxes b).point i = some pc) :
    hand boxes (.put b i) = carried pc := by
  rw [hand, here, Option.elim_some]

/-- The worker goes on in `Append`. -/
theorem Receiving.append {box' : Box}
    (receiving : Receiving numBoxes value (.put b i) inHdr inbox boxes)
    (moved : Threads.Synch.step Threads.SynchLists.program (boxes b) (.move i) = some box') :
    Receiving numBoxes value (afterAppend box' b i) inHdr inbox (withBox boxes b box') ∧
      Kept (stock (.put b i) inHdr inbox boxes)
        (stock (afterAppend box' b i) inHdr inbox (withBox boxes b box')) := by
  obtain ⟨pc, here, rest⟩ := receiving.inHand b i rfl
  have idle : Announced value (afterAppend box' b i) inHdr := by
    have other : afterAppend box' b i ≠ .receive := by
      unfold afterAppend
      split
      · simp
      · simp
    rcases receiving.announced with ⟨zero, -, none⟩ | ⟨one, -, some⟩ | ⟨-, bad, -⟩
    · exact .inl ⟨zero, other, none⟩
    · exact .inr (.inl ⟨one, other, some⟩)
    · cases bad
  obtain ⟨pc', here', effect⟩ := move_effect moved
  obtain rfl : pc = pc' := Option.some.inj (here.symm.trans here')
  rcases effect with ⟨shared, p, there, stays, returned⟩ | ⟨mail, rfl, there, shared⟩ | ⟨remover, -⟩
  · -- it waits for the lock of the box, or is done
    have same := @withBox_shared boxes box' b shared
    have pcs : p.pc = pc := by
      rcases stays with stays | ⟨remover, -⟩
      · exact stays
      · rcases rest with rfl | ⟨mail, rfl, -⟩
        · cases remover
        · cases remover
    have point : (withBox boxes b box' b).point i = some pc := by
      rw [withBox_self, Monitor.point, there, Option.map_some, pcs]
    have after : (∃ pc', p = .returned pc') ∧ afterAppend box' b i = .wait false ∨
        afterAppend box' b i = .put b i := by
      unfold afterAppend
      rw [there]
      cases p with
      | returned pc' => exact .inl ⟨⟨pc', rfl⟩, rfl⟩
      | acquire | queued | waiting | holds => exact .inr rfl
    have hands : hand (withBox boxes b box') (afterAppend box' b i) = hand boxes (.put b i) := by
      rcases after with ⟨⟨pc', gone⟩, after⟩ | after
      · rw [after, hand_put here, returned pc' gone]
        rfl
      · rw [after, hand_put here, hand_put point]
    refine ⟨⟨idle, receiving.inDevice, ?_, ?_, ?_⟩, ?_⟩
    · intro b' i' put
      rcases after with ⟨-, after⟩ | after
      · rw [after] at put
        cases put
      · rw [after] at put
        cases put
        exact ⟨pc, point, rest⟩
    · intro b'
      rw [same]
      exact receiving.lossless b'
    · intro b'
      rw [same]
      exact receiving.legal b'
    · apply Kept.of_eq
      intro b'
      rw [stock, stock, same, hands]
  · -- it appends the mail
    have after : afterAppend box' b i = .put b i := by
      unfold afterAppend
      rw [there]
    have point : (withBox boxes b box' b).point i = some .appendEnd := by
      rw [withBox_self, Monitor.point, there]
      rfl
    have theirs : mail.For numBoxes b := by
      rcases rest with bad | ⟨mail', same, theirs⟩
      · cases bad
      · cases same
        exact theirs
    rw [after]
    refine ⟨⟨after ▸ idle, receiving.inDevice, ?_, ?_, ?_⟩, ?_⟩
    · rintro b' i' ⟨⟩
      exact ⟨_, point, .inl rfl⟩
    · intro b'
      by_cases this : b' = b
      · rw [this, withBox_self, shared]
        simp [Threads.append, items, receiving.lossless b]
      · rw [withBox_other this]
        exact receiving.lossless b'
    · intro b' m member
      by_cases this : b' = b
      · subst this
        rw [withBox_self, shared] at member
        rcases List.mem_append.mp member with old | new
        · exact receiving.legal b' m old
        · rw [List.mem_singleton.mp new]
          exact theirs
      · rw [withBox_other this] at member
        exact receiving.legal b' m member
    · intro source b'
      rw [stock, stock, hand_put here, hand_put point]
      by_cases this : b' = b
      · rw [this, withBox_self, shared]
        simp [carried]
      · -- the mail is not for this box
        have others : addressed source b' mail = false := by
          unfold addressed
          rw [theirs.2]
          simp [Ne.symm this]
        rw [withBox_other this]
        simp [carried, others]
  · rcases rest with rfl | ⟨mail, rfl, -⟩
    · cases remover
    · cases remover

/-- A thread goes on in `Remove`. -/
theorem Receiving.removes {box' : Box}
    (receiving : Receiving numBoxes value worker inHdr inbox boxes)
    (remover : ∃ pc, (boxes b).point i = some pc ∧ pc.isRemove = true)
    (moved : Threads.Synch.step Threads.SynchLists.program (boxes b) (.move i) = some box') :
    Receiving numBoxes value worker inHdr inbox (withBox boxes b box') ∧
      (∀ b',
        stock worker inHdr inbox (withBox boxes b box') b' = stock worker inHdr inbox boxes b') ∧
      (box'.shared.removed = (boxes b).shared.removed ∨
        ∃ mail, box'.shared.removed = (boxes b).shared.removed ++ [mail]) := by
  obtain ⟨pc, here, isRemove⟩ := remover
  obtain ⟨pc', here', effect⟩ := move_effect moved
  obtain rfl : pc = pc' := Option.some.inj (here.symm.trans here')
  have points : ∀ j pc, (boxes b).point j = some pc → pc.isRemove = false →
      box'.point j = some pc := by
    intro j pc' there notRemove
    have other : j ≠ i := by
      rintro rfl
      obtain rfl : pc = pc' := Option.some.inj (here.symm.trans there)
      rw [isRemove] at notRemove
      cases notRemove
    rw [(move_cases moved).1 j other]
    exact there
  have lossless := receiving.lossless b
  rcases effect with ⟨shared, -⟩ | ⟨mail, rfl, -⟩ | ⟨-, -, item, key, rest, head, shared⟩
  · obtain ⟨receiving', same⟩ := @Receiving.quiet _ _ _ _ _ _ box' b receiving (by rw [shared])
      (by rw [shared]; exact lossless) points
    exact ⟨receiving', same, .inl (by rw [shared])⟩
  · cases isRemove
  · obtain ⟨receiving', same⟩ := @Receiving.quiet _ _ _ _ _ _ box' b receiving (by rw [shared])
      (by rw [shared, lossless, head]; simp [items]) points
    exact ⟨receiving', same, .inr ⟨item, by rw [shared]⟩⟩

end Receiving

/-! ## Returning -/

/-- The call took the mail out of the box as number `n`: later than all calls that had returned
when it was made, and no call that has returned took out that number. -/
structure Took (boxes : Nat → Box) (returned : List Return) (b n since : Nat)
    (mail : Mail) : Prop where
  mail : (boxes b).shared.removed[n]? = some mail
  early : since ≤ returned.length
  later : ∀ (k : Nat) (r : Return), returned[k]? = some r → r.box = b → k < since → r.number < n
  fresh : ∀ r ∈ returned, r.box = b → r.number ≠ n

/-- What holds of a thread in `Receive`. -/
def Place.Held (boxes : Nat → Box) (returned : List Return) : Place → Prop
  | .remove b i since =>
      (∃ pc, (boxes b).point i = some pc ∧ pc.isRemove = true) ∧ since ≤ returned.length
  | .got b n since mail => Took boxes returned b n since mail
  | _ => True

structure Returning (places : Nat → Place) (boxes : Nat → Box) (returned : List Return) : Prop where
  held : ∀ t, (places t).Held boxes returned
  apart : ∀ t u b n since since' mail mail', places t = .got b n since mail →
    places u = .got b n since' mail' → t = u
  mail : ∀ r ∈ returned, (boxes r.box).shared.removed[r.number]? = some r.mail
  turns : ∀ (i j : Nat) (r r' : Return), returned[i]? = some r → returned[j]? = some r' →
    r.box = r'.box → i < r'.since → r.number < r'.number
  once : returned.Pairwise fun r r' => r.box = r'.box → r.number ≠ r'.number
  made : ∀ (j : Nat) (r : Return), returned[j]? = some r → r.since ≤ j

section Returning

variable {places : Nat → Place} {boxes boxes' : Nat → Box} {returned : List Return}
  {t b i n since : Nat} {p : Place} {mail : Mail}

/-- Not in `Receive`. -/
def Place.elsewhere : Place → Bool
  | .remove _ _ _ | .got _ _ _ _ => false
  | _ => true

theorem getElem?_of_isPrefix {α : Type} {l l' : List α} {x : α} (grown : l <+: l')
    (found : l[n]? = some x) :
    l'[n]? = some x := by
  obtain ⟨rest, rfl⟩ := grown
  rw [List.getElem?_append_left (List.getElem?_eq_some_iff.mp found).1]
  exact found

theorem prefix_of_eq {α : Type} {l l' : List α} (same : l' = l) : l <+: l' :=
  same ▸ List.prefix_refl l

theorem Place.Held.grow (held : p.Held boxes returned)
    (grown : ∀ b, (boxes b).shared.removed <+: (boxes' b).shared.removed)
    (removers : ∀ b i, (∃ pc, (boxes b).point i = some pc ∧ pc.isRemove = true) →
      ∃ pc, (boxes' b).point i = some pc ∧ pc.isRemove = true) : p.Held boxes' returned := by
  cases p with
  | remove b i since => exact ⟨removers b i held.1, held.2⟩
  | got b n since mail =>
      exact ⟨getElem?_of_isPrefix (grown b) held.mail, held.early, held.later, held.fresh⟩
  | outside | lock | send | wait | release => trivial

/-- More is taken out of the boxes. -/
theorem Returning.grow (returning : Returning places boxes returned)
    (grown : ∀ b, (boxes b).shared.removed <+: (boxes' b).shared.removed)
    (removers : ∀ b i, (∃ pc, (boxes b).point i = some pc ∧ pc.isRemove = true) →
      ∃ pc, (boxes' b).point i = some pc ∧ pc.isRemove = true) :
        Returning places boxes' returned where
  held t := (returning.held t).grow grown removers
  apart := returning.apart
  mail r member := getElem?_of_isPrefix (grown r.box) (returning.mail r member)
  turns := returning.turns
  once := returning.once
  made := returning.made

/-- A thread goes from one place to another. -/
theorem Returning.put (returning : Returning places boxes returned) (held : p.Held boxes returned)
    (apart : ∀ b n since mail, p = .got b n since mail →
      ∀ u since' mail', places u ≠ .got b n since' mail') :
    Returning (Function.update places t p) boxes returned where
  held u := by
    rw [Function.update_apply]
    split
    · exact held
    · exact returning.held u
  apart u u' b n since since' mail mail' here there := by
    rw [Function.update_apply] at here there
    split at here
    · split at there
      · exact ‹u = t›.trans ‹u' = t›.symm
      · exact absurd there (apart b n since mail here u' since' mail')
    · split at there
      · exact absurd here (apart b n since' mail' there u since mail)
      · exact returning.apart u u' b n since since' mail mail' here there
  mail := returning.mail
  turns := returning.turns
  once := returning.once
  made := returning.made

theorem Returning.put_elsewhere (returning : Returning places boxes returned)
    (away : p.elsewhere = true) :
    Returning (Function.update places t p) boxes returned := by
  apply returning.put
  · cases p with
    | remove | got => cases away
    | outside | lock | send | wait | release => trivial
  · rintro b n since mail rfl
    cases away

theorem Place.woken_elsewhere (away : p.elsewhere = true) : p.woken.elsewhere = true := by
  cases p <;> first | rfl | cases away

/-- Nobody in `Receive` is woken from outside the box. -/
theorem Returning.woken (returning : Returning places boxes returned) (j : Nat) :
    Returning (Function.update places j (places j).woken) boxes returned := by
  cases away : (places j).elsewhere with
  | true => exact returning.put_elsewhere (Place.woken_elsewhere away)
  | false =>
      have same : (places j).woken = places j := by
        cases here : places j <;> first | rfl | (rw [here] at away; cases away)
      rw [same, Function.update_eq_self]
      exact returning

/-- A call takes the next mail out of its box. -/
theorem Returning.take (returning : Returning places boxes returned)
    (taken : (boxes' b).shared.removed = (boxes b).shared.removed ++ [mail])
    (others : ∀ b', b' ≠ b → (boxes' b').shared.removed = (boxes b').shared.removed)
    (removers : ∀ b i, (∃ pc, (boxes b).point i = some pc ∧ pc.isRemove = true) →
      ∃ pc, (boxes' b).point i = some pc ∧ pc.isRemove = true)
    (early : since ≤ returned.length) :
    Returning (Function.update places t (.got b (boxes b).shared.removed.length since mail)) boxes'
      returned := by
  have grown : ∀ b', (boxes b').shared.removed <+: (boxes' b').shared.removed := by
    intro b'
    by_cases this : b' = b
    · rw [this, taken]
      exact List.prefix_append _ _
    · exact prefix_of_eq (by rw [others b' this])
  -- every number before is that of a mail that was taken out
  have below : ∀ r ∈ returned, r.box = b → r.number < (boxes b).shared.removed.length := by
    rintro r member rfl
    exact (List.getElem?_eq_some_iff.mp (returning.mail r member)).1
  apply (returning.grow grown removers).put
  rotate_left
  · rintro b n since' mail' same u since mail there
    cases same
    have held := returning.held u
    rw [there] at held
    exact Nat.lt_irrefl _ (List.getElem?_eq_some_iff.mp held.mail).1
  refine ⟨?_, early, ?_, ?_⟩
  · rw [taken, List.getElem?_append_right (Nat.le_refl _), Nat.sub_self]
    rfl
  · intro k r found box _
    exact below r (List.mem_of_getElem? found) box
  · intro r member box
    exact Nat.ne_of_lt (below r member box)

/-- A call returns. -/
theorem Returning.finish (returning : Returning places boxes returned)
    (here : places t = .got b n since mail) :
    Returning (Function.update places t .outside) boxes (returned ++ [⟨t, b, n, since, mail⟩]) := by
  have took : Took boxes returned b n since mail := by
    have held := returning.held t
    rw [here] at held
    exact held
  have early {k : Nat} {r : Return} (inside : k < returned.length)
      (found : (returned ++ [⟨t, b, n, since, mail⟩])[k]? = some r) : returned[k]? = some r := by
    rw [List.getElem?_append_left inside] at found
    exact found
  have last {k : Nat} {r : Return} (outside : ¬ k < returned.length)
      (found : (returned ++ [⟨t, b, n, since, mail⟩])[k]? = some r) :
        r = ⟨t, b, n, since, mail⟩ := by
    rw [List.getElem?_append_right (Nat.le_of_not_lt outside)] at found
    exact List.mem_singleton.mp (List.mem_of_getElem? found)
  constructor
  · intro u
    rw [Function.update_apply]
    split
    · trivial
    · rename_i other
      have held := returning.held u
      cases there : places u with
      | remove b' i' since' =>
          rw [there] at held
          exact ⟨held.1, Nat.le_trans held.2 (by simp)⟩
      | got b' n' since' mail' =>
          rw [there] at held
          refine ⟨held.mail, Nat.le_trans held.early (by simp), ?_, ?_⟩
          · intro k r found box inside
            exact held.later k r (early (Nat.lt_of_lt_of_le inside held.early) found) box inside
          · intro r member box
            rcases List.mem_append.mp member with old | new
            · exact held.fresh r old box
            · obtain rfl := List.mem_singleton.mp new
              rintro rfl
              obtain rfl : b = b' := box
              exact other (returning.apart u t _ _ _ _ _ _ there here)
      | outside | lock | send | wait | release => trivial
  · intro u u' b' n' since' since'' mail' mail'' there there'
    rw [Function.update_apply] at there there'
    split at there
    · cases there
    · split at there'
      · cases there'
      · exact returning.apart u u' _ _ _ _ _ _ there there'
  · intro r member
    rcases List.mem_append.mp member with old | new
    · exact returning.mail r old
    · obtain rfl := List.mem_singleton.mp new
      exact took.mail
  · intro i j r r' found found' box inside
    by_cases later : j < returned.length
    · have second := early later found'
      have first : i < returned.length := by
        have made := returning.made j r' second
        omega
      exact returning.turns i j r r' (early first found) second box inside
    · obtain rfl := last later found'
      have first : i < returned.length := Nat.lt_of_lt_of_le inside took.early
      exact took.later i r (early first found) box inside
  · rw [List.pairwise_append]
    refine ⟨returning.once, List.pairwise_singleton _ _, ?_⟩
    intro r member r' new box
    obtain rfl := List.mem_singleton.mp new
    exact took.fresh r member box
  · intro j r found
    by_cases inside : j < returned.length
    · exact returning.made j r (early inside found)
    · obtain rfl := last inside found
      exact Nat.le_trans took.early (Nat.le_of_not_lt inside)

end Returning

/-! ## One machine -/

/-- What holds on the machine `a`. -/
structure Machine.Sound (numBoxes : Int) (a : Word) (m : Machine) : Prop where
  sending : Sending numBoxes a m.places m.isLocked m.currThread m.sendBusy m.scheduled m.sentValue
  receiving : Receiving numBoxes m.availableValue m.worker m.inHdr m.inbox m.boxes
  returning : Returning m.places m.boxes m.returned
  asserts : ∀ x, m.aborted = some x → x = .send ∨ x = .receiveBox

def Machine.stock (m : Machine) : Nat → List Mail := Network.stock m.worker m.inHdr m.inbox m.boxes

section Machine

variable {numBoxes : Int} {a : Word} {m m' : Machine} {t : Nat}

theorem create_sound (fresh : Nat → Byte) (key : Nat → Int) :
    (Machine.create fresh key).Sound numBoxes a where
  sending := by
    refine ⟨rfl, ?_, ?_, ?_, ?_⟩
    · intro t _
      trivial
    · intro _
      exact ⟨rfl, rfl, rfl⟩
    · intro t bad
      cases bad
    · intro t
      trivial
  receiving := by
    refine ⟨.inl ⟨rfl, nofun, rfl⟩, ?_, ?_, ?_, ?_⟩
    · intro bad
      exact absurd rfl bad
    · intro b i bad
      cases bad
    · intro b
      rfl
    · intro b m bad
      cases bad
  returning := by
    refine ⟨?_, ?_, ?_, ?_, List.Pairwise.nil, ?_⟩
    · intro t
      trivial
    · intro t u b n since since' mail mail' bad
      cases bad
    · intro r bad
      cases bad
    · intro i j r r' bad
      cases bad
    · intro j r bad
      cases bad
  asserts x bad := by cases bad

theorem Machine.Sound.abort {x : Assertion} (sound : m.Sound numBoxes a)
    (excused : x = .send ∨ x = .receiveBox) :
    (m.abort x).Sound numBoxes a where
  sending := sound.sending
  receiving := sound.receiving
  returning := sound.returning
  asserts y failed := by
    obtain rfl := Option.some.inj failed
    exact excused

/-- The header `Send` makes counts the mail header in. -/
theorem length_send {mailHdr : MailHeader} (short : mailHdr.length.toNat ≤ maxMailSize) :
    (mailHdr.length + BitVec.ofNat 32 headerSize).toNat = headerSize + mailHdr.length.toNat := by
  rw [BitVec.toNat_add, BitVec.toNat_ofNat]
  unfold maxMailSize maxPacketSize maxWireSize headerSize at *
  omega

theorem Machine.Sound.send {pktHdr : PacketHeader} {mailHdr : MailHeader} {data fresh : Nat → Byte}
    (sound : m.Sound numBoxes a) (idle : m.places t = .outside) :
    (m.send numBoxes a t pktHdr mailHdr data fresh).Sound numBoxes a ∧
      Kept m.stock (m.send numBoxes a t pktHdr mailHdr data fresh).stock := by
  unfold Machine.send
  split
  · rename_i checked
    refine ⟨⟨?_, sound.receiving, ?_, sound.asserts⟩, Kept.refl _⟩
    · apply sound.sending.away
      · rw [idle]
        trivial
      · trivial
      · exact ⟨mailIn_concatenate _ _ _ _,
          ⟨checked.1, checked.2.1, checked.2.2, length_send checked.1⟩, rfl⟩
    · exact sound.returning.put_elsewhere rfl
  · exact ⟨sound.abort (.inl rfl), Kept.refl _⟩

theorem Machine.Sound.acquire {mail : Mail} {buffer : Nat → Byte} (sound : m.Sound numBoxes a)
    (here : m.places t = .lock mail buffer false) : (m.acquire t mail buffer).Sound numBoxes a := by
  have ready := sound.sending.ready t
  rw [here] at ready
  unfold Machine.acquire
  split
  · refine ⟨?_, sound.receiving, sound.returning.put_elsewhere rfl, sound.asserts⟩
    apply sound.sending.away
    · rw [here]
      trivial
    · trivial
    · exact ready
  · rename_i unlocked
    refine ⟨?_, sound.receiving, sound.returning.put_elsewhere rfl, sound.asserts⟩
    have sending := sound.sending
    rw [Bool.eq_false_iff.mpr unlocked] at sending
    exact sending.take here

theorem Machine.Sound.pSent (sound : m.Sound numBoxes a) (here : m.places t = .wait false) :
    (m.pSent t).Sound numBoxes a := by
  have past : ¬ (m.places t).Away := by
    rw [here]
    exact id
  have waited : Waited m.sendBusy m.scheduled m.sentValue := by
    have tenant := sound.sending.tenant t (sound.sending.holds past)
    rw [here] at tenant
    exact tenant
  unfold Machine.pSent
  split
  · refine ⟨?_, sound.receiving, sound.returning.put_elsewhere rfl, sound.asserts⟩
    exact sound.sending.hold past waited trivial
  · rename_i positive
    refine ⟨?_, sound.receiving, sound.returning.put_elsewhere rfl, sound.asserts⟩
    apply sound.sending.hold past
    · rcases waited with ⟨-, -, zero⟩ | ⟨idle, none, one⟩
      · exact absurd zero positive
      · exact ⟨idle, none, by rw [one]; rfl⟩
    · trivial

theorem Machine.Sound.release (sound : m.Sound numBoxes a) (here : m.places t = .release) :
    (m.release t).Sound numBoxes a := by
  have held : m.currThread = some t := sound.sending.holds (by rw [here]; exact id)
  have left := sound.sending.leave here
  have returning : Returning (m.put t .outside).places m.boxes m.returned :=
    sound.returning.put_elsewhere rfl
  unfold Machine.release Machine.wakeLock
  rw [if_pos held]
  cases first : remove (m.put t .outside).lockQueue with
  | none => exact ⟨left, sound.receiving, returning, sound.asserts⟩
  | some taken => exact ⟨left.woken taken.1, sound.receiving, returning.woken taken.1,
      sound.asserts⟩

theorem Machine.Sound.sendDone (sound : m.Sound numBoxes a) (due : 0 < m.scheduled) :
    m.sendDone.Sound numBoxes a ∧ Kept m.stock m.sendDone.stock := by
  have done := sound.sending.done due
  unfold Machine.sendDone
  cases first : remove m.sentQueue with
  | none => exact ⟨⟨done, sound.receiving, sound.returning, sound.asserts⟩, Kept.refl _⟩
  | some taken =>
      exact ⟨⟨done.woken taken.1, sound.receiving, sound.returning.woken taken.1, sound.asserts⟩,
        Kept.refl _⟩

theorem Machine.Sound.pAvailable (sound : m.Sound numBoxes a) (here : m.worker = .wait false) :
    m.pAvailable.Sound numBoxes a ∧ Kept m.stock m.pAvailable.stock := by
  have receiving := sound.receiving
  rw [here] at receiving
  have hands (worker : Worker) (empty : hand m.boxes worker = []) :
      Kept m.stock (Network.stock worker m.inHdr m.inbox m.boxes) := by
    apply Kept.of_eq
    intro b
    rw [Machine.stock, Network.stock, Network.stock, empty, here]
    rfl
  unfold Machine.pAvailable
  split
  · exact ⟨⟨sound.sending, receiving.wait true, sound.returning, sound.asserts⟩, hands _ rfl⟩
  · rename_i positive
    exact ⟨⟨sound.sending, receiving.come positive, sound.returning, sound.asserts⟩, hands _ rfl⟩

/-- A call in a box leaves the other threads where they are. -/
theorem remover_call {box : Box} {pc : Point Mail} {key : Int} {j : Nat}
    (remover : ∃ pc, box.point j = some pc ∧ pc.isRemove = true) :
    ∃ pc', (box.call pc key).point j = some pc' ∧ pc'.isRemove = true := by
  obtain ⟨pc', here, isRemove⟩ := remover
  exact ⟨pc', by rw [point_call pc key (by rw [here]; simp), here], isRemove⟩

/-- What holds of the boxes when one of them changes. -/
theorem withBox_removers {boxes : Nat → Box} {box : Box} {b : Nat}
    (kept : ∀ i, (∃ pc, (boxes b).point i = some pc ∧ pc.isRemove = true) →
      ∃ pc, box.point i = some pc ∧ pc.isRemove = true) :
    ∀ b' i, (∃ pc, (boxes b').point i = some pc ∧ pc.isRemove = true) →
      ∃ pc, (withBox boxes b box b').point i = some pc ∧ pc.isRemove = true := by
  intro b' i remover
  by_cases this : b' = b
  · subst this
    rw [withBox_self]
    exact kept i remover
  · rw [withBox_other this]
    exact remover

theorem withBox_grown {boxes : Nat → Box} {box : Box} {b : Nat}
    (grown : (boxes b).shared.removed <+: box.shared.removed) (b' : Nat) :
    (boxes b').shared.removed <+: (withBox boxes b box b').shared.removed := by
  by_cases this : b' = b
  · rw [this, withBox_self]
    exact grown
  · exact prefix_of_eq (by rw [withBox_other this])

theorem Machine.Sound.postalDelivery (sound : m.Sound numBoxes a) (here : m.worker = .receive) :
    (m.postalDelivery numBoxes).Sound numBoxes a ∧
    Kept m.stock (m.postalDelivery numBoxes).stock := by
  have receiving := sound.receiving
  rw [here] at receiving
  obtain ⟨-, full⟩ := receiving.full
  have legal := receiving.inDevice full
  have buffer : m.receivePacket.buffer = bcopy m.inbox m.buffer m.inHdr.length.toNat := if_pos full
  -- the worker finds in its buffer what the device had
  have inside : mailIn m.inHdr m.receivePacket.buffer = mailIn m.inHdr m.inbox := by
    apply legal.copied
    intro i early
    rw [buffer]
    exact bcopy_apply early
  have header : MailHeader.read m.receivePacket.buffer = (mailIn m.inHdr m.inbox).mailHdr := by
    rw [← inside]
    rfl
  have created : Mail.create m.inHdr (mailIn m.inHdr m.inbox).mailHdr
      (payload m.receivePacket.buffer) =
      mailIn m.inHdr m.inbox := by
    rw [← header]
    exact inside
  unfold Machine.postalDelivery
  simp only [header, created]
  rw [if_pos ⟨legal.low, legal.high, legal.size⟩, if_pos legal.size]
  obtain ⟨receiving', kept⟩ := @Receiving.deliver numBoxes m.availableValue m.inHdr m.inbox m.boxes
    _ 0 _ receiving rfl rfl
  refine ⟨⟨sound.sending, receiving', ?_, sound.asserts⟩, ?_⟩
  · apply sound.returning.grow
    · exact withBox_grown (List.prefix_refl _)
    · apply withBox_removers
      intro i remover
      exact remover_call remover
  · rw [← here] at kept
    exact kept

theorem Machine.Sound.append {b i : Nat} (sound : m.Sound numBoxes a) (here : m.worker = .put b i)
    (moved : m.append b i = some m') : m'.Sound numBoxes a ∧ Kept m.stock m'.stock := by
  have receiving := sound.receiving
  rw [here] at receiving
  simp only [Machine.append, Option.bind_eq_bind, Option.bind_eq_some_iff] at moved
  obtain ⟨box, ran, same⟩ := moved
  cases same
  obtain ⟨receiving', kept⟩ := receiving.append ran
  have grown : (m.boxes b).shared.removed <+: box.shared.removed := by
    obtain ⟨pc, -, effect⟩ := move_effect ran
    rcases effect with ⟨shared, -⟩ | ⟨item, -, -, shared⟩ | ⟨-, -, item, key, rest, -, shared⟩
    · exact prefix_of_eq (by rw [shared])
    · exact prefix_of_eq (by rw [shared])
    · rw [shared]
      exact List.prefix_append _ _
  rw [← here] at kept
  refine ⟨⟨sound.sending, receiving', ?_, sound.asserts⟩, kept⟩
  apply sound.returning.grow
  · exact withBox_grown grown
  · apply withBox_removers
    intro j remover
    exact remover_kept ran remover

theorem Machine.Sound.receive {box : Int} (sound : m.Sound numBoxes a)
    (idle : m.places t = .outside) :
    (m.receive numBoxes t box).Sound numBoxes a ∧
    Kept m.stock (m.receive numBoxes t box).stock := by
  unfold Machine.receive
  split
  · obtain ⟨receiving', same⟩ := @Receiving.quiet _ _ _ _ _ _
      ((m.boxes box.toNat).call .remove (m.key t)) box.toNat sound.receiving rfl
      (sound.receiving.lossless box.toNat) (by
        intro j pc there _
        rw [point_call _ _ (by rw [there]; simp)]
        exact there)
    refine ⟨⟨?_, receiving', ?_, sound.asserts⟩, Kept.of_eq same⟩
    · apply sound.sending.away
      · rw [idle]
        trivial
      · trivial
      · trivial
    · have returning : Returning m.places
          (withBox m.boxes box.toNat ((m.boxes box.toNat).call .remove (m.key t))) m.returned := by
        apply sound.returning.grow
        · exact withBox_grown (List.prefix_refl _)
        · apply withBox_removers
          intro i remover
          exact remover_call remover
      apply returning.put
      · refine ⟨⟨.remove, ?_, rfl⟩, Nat.le_refl _⟩
        rw [withBox_self]
        exact point_call_new _ _
      · intro b n since mail bad
        cases bad
  · exact ⟨sound.abort (.inr rfl), Kept.refl _⟩

theorem Machine.Sound.removeMail {b i since : Nat} (sound : m.Sound numBoxes a)
    (here : m.places t = .remove b i since) (moved : m.removeMail t b i since = some m') :
    m'.Sound numBoxes a ∧ Kept m.stock m'.stock := by
  simp only [Machine.removeMail, Option.bind_eq_bind, Option.bind_eq_some_iff] at moved
  obtain ⟨box, ran, same⟩ := moved
  have held := sound.returning.held t
  rw [here] at held
  obtain ⟨remover, early⟩ := held
  obtain ⟨receiving', stocks, removed⟩ := sound.receiving.removes remover ran
  have removers := @withBox_removers m.boxes box b fun j remover => remover_kept ran remover
  rcases removed with waits | ⟨mail, takes⟩
  · rw [waits, List.getElem?_eq_none (Nat.le_refl _)] at same
    cases same
    refine ⟨⟨sound.sending, receiving', ?_, sound.asserts⟩, Kept.of_eq stocks⟩
    apply sound.returning.grow
    · exact withBox_grown (prefix_of_eq waits)
    · exact removers
  · have next : box.shared.removed[(m.boxes b).shared.removed.length]? = some mail := by
      rw [takes, List.getElem?_append_right (Nat.le_refl _), Nat.sub_self]
      rfl
    rw [next] at same
    cases same
    refine ⟨⟨?_, receiving', ?_, sound.asserts⟩, Kept.of_eq stocks⟩
    · apply sound.sending.away
      · rw [here]
        trivial
      · trivial
      · trivial
    · apply sound.returning.take
      · rw [← takes]
        exact congrArg (fun box : Box => box.shared.removed) withBox_self
      · intro b' other
        exact congrArg (fun box : Box => box.shared.removed) (withBox_other other)
      · exact removers
      · exact early

theorem Machine.Sound.finish {b n since : Nat} {mail : Mail} (sound : m.Sound numBoxes a)
    (here : m.places t = .got b n since mail) : (m.finish t b n since mail).Sound numBoxes a := by
  have took := sound.returning.held t
  rw [here] at took
  -- what was taken out of the box had been put in
  have legal : mail.For numBoxes b := by
    apply sound.receiving.legal b
    rw [sound.receiving.lossless b]
    exact List.mem_append_left _ (List.mem_of_getElem? took.mail)
  unfold Machine.finish
  rw [if_pos legal.1.size]
  refine ⟨?_, sound.receiving, sound.returning.finish here, sound.asserts⟩
  apply sound.sending.away
  · rw [here]
    trivial
  · trivial
  · trivial

theorem Machine.Sound.go (sound : m.Sound numBoxes a) (moved : m.go t = some m') :
    m'.Sound numBoxes a ∧ Kept m.stock m'.stock := by
  unfold Machine.go at moved
  split at moved
  · cases moved
    refine ⟨sound.acquire ‹_›, ?_⟩
    unfold Machine.acquire
    split
    · exact Kept.refl _
    · exact Kept.refl _
  · cases moved
    refine ⟨sound.pSent ‹_›, ?_⟩
    unfold Machine.pSent
    split
    · exact Kept.refl _
    · exact Kept.refl _
  · cases moved
    refine ⟨sound.release ‹_›, ?_⟩
    unfold Machine.release Machine.wakeLock
    split
    · split
      · exact Kept.refl _
      · exact Kept.refl _
    · exact Kept.refl _
  · exact sound.removeMail ‹_› moved
  · cases moved
    refine ⟨sound.finish ‹_›, ?_⟩
    unfold Machine.finish
    split
    · exact Kept.refl _
    · exact Kept.refl _
  · cases moved

theorem Machine.Sound.work (sound : m.Sound numBoxes a) (moved : m.work numBoxes = some m') :
    m'.Sound numBoxes a ∧ Kept m.stock m'.stock := by
  unfold Machine.work at moved
  split at moved
  · cases moved
    exact sound.pAvailable ‹_›
  · cases moved
  · cases moved
    exact sound.postalDelivery ‹_›
  · exact sound.append ‹_› moved

theorem Machine.Sound.setBoxPriority {priority : Int} (sound : m.Sound numBoxes a) :
    (m.setBoxPriority t priority).Sound numBoxes a ∧
    Kept m.stock (m.setBoxPriority t priority).stock := by
  unfold Machine.setBoxPriority
  split
  · rename_i b i since here
    have same (j : Nat) : ((m.boxes b).setPriority i priority).point j = (m.boxes b).point j := by
      rw [Monitor.point, Threads.Synch.place_setPriority, Monitor.point]
    obtain ⟨receiving', stocks⟩ := @Receiving.quiet _ _ _ _ _ _
      ((m.boxes b).setPriority i priority) b
      sound.receiving rfl (sound.receiving.lossless b) (by
        intro j pc there _
        rw [same]
        exact there)
    refine ⟨⟨sound.sending, receiving', ?_, sound.asserts⟩, Kept.of_eq stocks⟩
    apply sound.returning.grow
    · exact withBox_grown (List.prefix_refl _)
    · apply withBox_removers
      intro j remover
      rw [same]
      exact remover
  · exact ⟨sound, Kept.refl _⟩

theorem Machine.Sound.setPriority {priority : Int} (sound : m.Sound numBoxes a) :
    (m.setPriority t priority).Sound numBoxes a ∧
    Kept m.stock (m.setPriority t priority).stock := by
  obtain ⟨sound', kept⟩ := @Machine.Sound.setBoxPriority numBoxes a m t priority sound
  exact ⟨⟨sound'.sending, sound'.receiving, sound'.returning, sound'.asserts⟩, kept⟩

end Machine

end Nachos.Network
