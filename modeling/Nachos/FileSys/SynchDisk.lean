/-
# Nachos.FileSys.SynchDisk -- `filesys/synchdisk.cc` over `machine/disk.cc`

The disk takes one request at a time and interrupts when it is done.  `ReadSector` and
`WriteSector` make it synchronous: a lock lets one thread at a time make a request, and the
thread then waits at a semaphore that the interrupt handler raises.

A thread is followed through `Acquire`, the request, `P` and `Release`; each turn of a waiting
loop is one step, and the steps of the threads and the interrupts come in any order.  The disk
moves the bytes when the request is made.  `log` keeps what happened, newest first, with a
number for each request; it is no part of the code.
-/
import Nachos.FileSys.OpenFile
import Nachos.Lib.Run
import Nachos.Threads.List
import Mathlib.Data.List.Nodup

namespace Nachos.Disk.SynchDisk

open Nachos.Lib.Bytes
open Nachos.Lib.Run
open Nachos.Threads (ListElement sortedInsert remove items)

set_option autoImplicit false

/-! ## The code -/

inductive Request where
  | read (sectorNumber : Int)
  | write (sectorNumber : Int) (data : Nat → Byte)

def Request.sectorNumber : Request → Int
  | .read n => n
  | .write n _ => n

/-- The sector exists. -/
def Request.InRange (r : Request) : Prop := 0 ≤ r.sectorNumber ∧ r.sectorNumber < numSectors

instance (r : Request) : Decidable r.InRange := inferInstanceAs (Decidable (_ ∧ _))

/-- What `ReadRequest` and `WriteRequest` do to the disk and to the buffer of a reader. -/
def Request.carryOut (d : Disk) : Request → Except Stop (Option (Nat → Byte) × Disk)
  | .read n => do return (some (← readSector d n), d)
  | .write n data => do return (none, ← writeSector d n data)

/-- Where a thread is in its call. -/
inductive Place where
  | outside
  /-- In the loop of `Acquire`. -/
  | lock (r : Request) (asleep : Bool)
  /-- Before the request. -/
  | request (r : Request)
  /-- In the loop of `P`; the request has the number `id`. -/
  | wait (id : Nat) (buffer : Option (Nat → Byte)) (asleep : Bool)
  /-- Before `Release`. -/
  | release (id : Nat) (buffer : Option (Nat → Byte))

/-- `ReadyToRun` of a thread that sleeps. -/
def Place.woken : Place → Place
  | .lock r _ => .lock r false
  | .wait id buffer _ => .wait id buffer false
  | p => p

inductive Event where
  /-- Thread `t` makes request `id`; a reader has its bytes from now on. -/
  | issued (t id : Nat) (r : Request) (buffer : Option (Nat → Byte))
  /-- The interrupt for request `id`. -/
  | interrupted (id : Nat)
  /-- Thread `t` returns from the call that made request `id`. -/
  | returned (t id : Nat) (buffer : Option (Nat → Byte))

structure State where
  places : Nat → Place
  /-- The priorities of the threads. -/
  key : Nat → Int
  isLocked : Bool
  currThread : Option Nat
  lockQueue : List (ListElement Nat)
  value : Int
  semaphoreQueue : List (ListElement Nat)
  active : Bool
  disk : Disk
  /-- The requests whose interrupts are to come. -/
  pending : List Nat
  /-- The number of the next request. -/
  next : Nat
  log : List Event

/-- `SynchDisk::SynchDisk`, on a disk with these sectors. -/
def create (disk : Disk) (key : Nat → Int) : State where
  places := fun _ => .outside
  key
  isLocked := false
  currThread := none
  lockQueue := []
  value := 0
  semaphoreQueue := []
  active := false
  disk
  pending := []
  next := 0
  log := []

inductive Label where
  /-- Thread `t` calls `ReadSector` or `WriteSector`. -/
  | call (t : Nat) (r : Request)
  /-- Thread `t` goes on. -/
  | go (t : Nat)
  | interrupt (id : Nat)
  | setPriority (t : Nat) (priority : Int)

namespace State

def put (s : State) (t : Nat) (p : Place) : State :=
  { s with places := Function.update s.places t p }

/-- A turn of the loop of `Lock::Acquire`. -/
def acquire (s : State) (t : Nat) (r : Request) : State :=
  if s.isLocked then
    { s.put t (.lock r true) with lockQueue := sortedInsert t (s.key t) s.lockQueue }
  else { s.put t (.request r) with isLocked := true, currThread := some t }

/-- `Disk::ReadRequest` or `Disk::WriteRequest`; `none` where an `ASSERT` fails. -/
def request (s : State) (t : Nat) (r : Request) : Option State :=
  if s.active then none
  else match r.carryOut s.disk with
    | .error _ => none
    | .ok (buffer, disk) =>
        some { s.put t (.wait s.next buffer false) with
          active := true
          disk
          pending := s.pending ++ [s.next]
          next := s.next + 1
          log := .issued t s.next r buffer :: s.log }

/-- A turn of the loop of `Semaphore::P`, and the rest of it. -/
def p (s : State) (t id : Nat) (buffer : Option (Nat → Byte)) : State :=
  if s.value = 0 then
    { s.put t (.wait id buffer true) with
      semaphoreQueue := sortedInsert t (s.key t) s.semaphoreQueue }
  else { s.put t (.release id buffer) with value := s.value - 1 }

/-- `queue->Remove()` and `ReadyToRun`, at the queue of the lock. -/
def wakeLock (s : State) : State :=
  match remove s.lockQueue with
  | none => s
  | some (j, rest) => { s.put j (s.places j).woken with lockQueue := rest }

/-- `Lock::Release`, and the return; `none` where the `ASSERT` fails. -/
def release (s : State) (t id : Nat) (buffer : Option (Nat → Byte)) : Option State :=
  if s.currThread = some t then
    some { (s.put t .outside).wakeLock with
      isLocked := false
      currThread := none
      log := .returned t id buffer :: s.log }
  else none

/-- `Disk::HandleInterrupt`, which calls `RequestDone`, which calls `V`. -/
def handleInterrupt (s : State) (id : Nat) : State :=
  let s' := match remove s.semaphoreQueue with
    | none => s
    | some (j, rest) => { s.put j (s.places j).woken with semaphoreQueue := rest }
  { s' with
    active := false
    value := s.value + 1
    pending := s.pending.erase id
    log := .interrupted id :: s.log }

def step (s : State) : Label → Option State
  | .call t r =>
      match s.places t with
      | .outside => if r.InRange then some (s.put t (.lock r false)) else none
      | _ => none
  | .go t =>
      match s.places t with
      | .lock r false => some (s.acquire t r)
      | .request r => s.request t r
      | .wait id buffer false => some (s.p t id buffer)
      | .release id buffer => s.release t id buffer
      | _ => none
  | .interrupt id => if id ∈ s.pending then some (s.handleInterrupt id) else none
  | .setPriority t priority => some { s with key := Function.update s.key t priority }

end State

/-! ## What is to hold -/

/-- The sectors after the writes of the log. -/
def contents (initial : Disk) : List Event → Disk
  | [] => initial
  | .issued _ _ (.write n data) _ :: older => Function.update (contents initial older) n.toNat data
  | _ :: older => contents initial older

/-- The numbers of the requests of the log. -/
def issuedIds : List Event → List Nat
  | [] => []
  | .issued _ id _ _ :: older => id :: issuedIds older
  | _ :: older => issuedIds older

/-- The disk is serialised. -/
structure Serialised (initial : Disk) (s : State) : Prop where
  /-- No `ASSERT` of `ReadRequest` or `WriteRequest` fails. -/
  request : ∀ t r, s.places t = .request r → s.active = false ∧ r.InRange
  /-- Nor do those of the lock. -/
  acquire : ∀ t r, s.places t = .lock r false → s.currThread ≠ some t
  release : ∀ t id buffer, s.places t = .release id buffer → s.currThread = some t
  /-- The requests have numbers of their own, and a call returns with what its request brought,
  after the interrupt for that request. -/
  numbers : (issuedIds s.log).Nodup
  returns : ∀ newer older t id buffer, s.log = newer ++ .returned t id buffer :: older →
    .interrupted id ∈ older ∧ ∃ r, .issued t id r buffer ∈ older
  value : s.isLocked = false → s.value = 0
  /-- A reader gets what was last written to its sector before its request. -/
  reads : ∀ newer older t id n buffer, s.log = newer ++ .issued t id (.read n) buffer :: older →
    buffer = some (contents initial older n.toNat)

/-! ## The log -/

/-- Every entry of the log is in order with the entries before it. -/
def Logged (initial : Disk) : List Event → Prop
  | [] => True
  | .issued _ id r buffer :: older =>
      id = (issuedIds older).length ∧
        (∀ n, r = .read n → buffer = some (contents initial older n.toNat)) ∧ Logged initial older
  | .interrupted _ :: older => Logged initial older
  | .returned t id buffer :: older =>
      .interrupted id ∈ older ∧ (∃ r, .issued t id r buffer ∈ older) ∧ Logged initial older

section Log

variable {initial : Disk} {newer older : List Event}

theorem Logged.tail {e : Event} (logged : Logged initial (e :: older)) : Logged initial older := by
  cases e with
  | issued t id r buffer => exact logged.2.2
  | interrupted id => exact logged
  | returned t id buffer => exact logged.2.2

theorem Logged.suffix (logged : Logged initial (newer ++ older)) : Logged initial older := by
  induction newer with
  | nil => exact logged
  | cons e newer ih =>
      apply ih
      exact logged.tail

/-- The requests are numbered from 0 on. -/
theorem Logged.issuedIds_eq {log : List Event} (logged : Logged initial log) :
    issuedIds log = (List.range (issuedIds log).length).reverse := by
  induction log with
  | nil => rfl
  | cons e older ih =>
      have rest := ih logged.tail
      cases e with
      | issued t id r buffer =>
          have number := logged.1
          rw [issuedIds, List.length_cons, List.range_succ, List.reverse_append, ← rest, ← number]
          rfl
      | interrupted id => exact rest
      | returned t id buffer => exact rest

theorem Logged.nodup {log : List Event} (logged : Logged initial log) : (issuedIds log).Nodup := by
  rw [logged.issuedIds_eq]
  exact List.nodup_reverse.mpr List.nodup_range

end Log

/-! ## The invariant -/

/-- The disk is idle, and nobody waits for it. -/
structure Quiet (s : State) : Prop where
  active : s.active = false
  pending : s.pending = []
  value : s.value = 0
  semaphoreQueue : s.semaphoreQueue = []

/-- Request `id` of the thread `t` is under way; `t` sleeps or is about to. -/
structure Busy (s : State) (t id : Nat) (asleep : Bool) : Prop where
  active : s.active = true
  pending : s.pending = [id]
  value : s.value = 0
  semaphoreQueue : items s.semaphoreQueue = if asleep then [t] else []

/-- Request `id` is done, and the thread that waits for it was woken if it slept. -/
structure Done (s : State) (id : Nat) (asleep : Bool) : Prop where
  awake : asleep = false
  active : s.active = false
  pending : s.pending = []
  value : s.value = 1
  semaphoreQueue : s.semaphoreQueue = []
  interrupted : .interrupted id ∈ s.log

/-- What the state is like while the thread `t` has the lock. -/
def Tenant (s : State) (t : Nat) : Place → Prop
  | .request r => r.InRange ∧ Quiet s
  | .wait id buffer asleep =>
      (∃ r, .issued t id r buffer ∈ s.log) ∧ (Busy s t id asleep ∨ Done s id asleep)
  | .release id buffer =>
      (∃ r, .issued t id r buffer ∈ s.log) ∧ .interrupted id ∈ s.log ∧ Quiet s
  | _ => False

/-- The thread does not have the lock. -/
def Place.Away : Place → Prop
  | .outside => True
  | .lock r _ => r.InRange
  | _ => False

structure Sound (initial : Disk) (s : State) : Prop where
  locked : s.isLocked = s.currThread.isSome
  others : ∀ t, s.currThread ≠ some t → (s.places t).Away
  free : s.currThread = none → Quiet s
  tenant : ∀ t, s.currThread = some t → Tenant s t (s.places t)
  queued : ∀ t ∈ items s.lockQueue, ∃ r, s.places t = .lock r true
  once : (items s.lockQueue).Nodup
  disk : s.disk = contents initial s.log
  next : s.next = (issuedIds s.log).length
  logged : Logged initial s.log

section Invariant

variable {initial : Disk} {s s' : State} {t : Nat} {r : Request}

theorem create_sound (initial : Disk) (key : Nat → Int) : Sound initial (create initial key) where
  locked := rfl
  others _ _ := trivial
  free _ := ⟨rfl, rfl, rfl, rfl⟩
  tenant t held := by cases held
  queued t member := by cases member
  once := List.nodup_nil
  disk := rfl
  next := rfl
  logged := trivial

theorem Sound.serialised (sound : Sound initial s) : Serialised initial s := by
  -- a thread past `Acquire` has the lock
  have holds {t : Nat} (past : ¬ (s.places t).Away) : s.currThread = some t := by
    by_contra free
    exact past (sound.others t free)
  refine ⟨?_, ?_, ?_, sound.logged.nodup, ?_, ?_, ?_⟩
  · intro t r here
    have tenant := sound.tenant t (holds (by rw [here]; exact id))
    rw [here] at tenant
    exact ⟨tenant.2.active, tenant.1⟩
  · intro t r here held
    have tenant := sound.tenant t held
    rw [here] at tenant
    exact tenant
  · intro t id buffer here
    apply holds
    rw [here]
    exact fun away => away
  · intro newer older t id buffer log
    have logged := sound.logged
    rw [log] at logged
    exact ⟨logged.suffix.1, logged.suffix.2.1⟩
  · intro unlocked
    apply (sound.free ?_).value
    have locked := sound.locked
    rw [unlocked] at locked
    exact Option.not_isSome_iff_eq_none.mp (by simp [← locked])
  · intro newer older t id n buffer log
    have logged := sound.logged
    rw [log] at logged
    exact logged.suffix.2.1 n rfl

theorem put_places (s : State) (t : Nat) (p : Place) (u : Nat) :
    (s.put t p).places u = if u = t then p else s.places u := by
  simp [State.put, Function.update_apply]

/-- What holds of the tenant depends on the device and the log only. -/
theorem Tenant.congr {p : Place} (tenant : Tenant s t p) (active : s'.active = s.active)
    (pending : s'.pending = s.pending) (value : s'.value = s.value)
    (semaphoreQueue : s'.semaphoreQueue = s.semaphoreQueue) (log : s'.log = s.log) :
    Tenant s' t p := by
  have quiet (quiet : Quiet s) : Quiet s' :=
    ⟨active.trans quiet.active, pending.trans quiet.pending, value.trans quiet.value,
      semaphoreQueue.trans quiet.semaphoreQueue⟩
  cases p with
  | outside => exact tenant
  | lock r asleep => exact tenant
  | request r => exact ⟨tenant.1, quiet tenant.2⟩
  | wait id buffer asleep =>
      unfold Tenant at tenant ⊢
      rw [log]
      refine ⟨tenant.1, ?_⟩
      rcases tenant.2 with busy | done
      · left
        exact ⟨active.trans busy.active, pending.trans busy.pending, value.trans busy.value,
          semaphoreQueue ▸ busy.semaphoreQueue⟩
      · right
        exact ⟨done.awake, active.trans done.active, pending.trans done.pending,
          value.trans done.value, semaphoreQueue.trans done.semaphoreQueue, log ▸ done.interrupted⟩
  | release id buffer =>
      unfold Tenant at tenant ⊢
      rw [log]
      exact ⟨tenant.1, tenant.2.1, quiet tenant.2.2⟩

/-- A thread without the lock moves on without it. -/
theorem Sound.away {p : Place} {queue : List (ListElement Nat)} (sound : Sound initial s)
    (free : s.currThread ≠ some t) (away : p.Away)
    (queued : ∀ u ∈ items queue, ∃ r, (s.put t p).places u = .lock r true)
    (once : (items queue).Nodup) : Sound initial { s.put t p with lockQueue := queue } where
  locked := sound.locked
  others u apart := by
    show ((s.put t p).places u).Away
    rw [put_places]
    split
    · exact away
    · exact sound.others u apart
  free unlocked := by
    have quiet := sound.free unlocked
    exact ⟨quiet.active, quiet.pending, quiet.value, quiet.semaphoreQueue⟩
  tenant u held := by
    have other : u ≠ t := by
      rintro rfl
      exact free held
    show Tenant _ u ((s.put t p).places u)
    rw [put_places, if_neg other]
    exact (sound.tenant u held).congr rfl rfl rfl rfl rfl
  queued := queued
  once := once
  disk := sound.disk
  next := sound.next
  logged := sound.logged

/-- A thread in `Acquire` that is awake is in no queue. -/
theorem Sound.not_queued (sound : Sound initial s) (awake : ∀ r, s.places t ≠ .lock r true) :
    t ∉ items s.lockQueue := by
  intro member
  obtain ⟨r, here⟩ := sound.queued t member
  exact awake r here

theorem Sound.queued_put {p : Place} (sound : Sound initial s) (absent : t ∉ items s.lockQueue) :
    ∀ u ∈ items s.lockQueue, ∃ r, (s.put t p).places u = .lock r true := by
  intro u member
  have other : u ≠ t := by
    rintro rfl
    exact absent member
  rw [put_places, if_neg other]
  exact sound.queued u member

theorem Sound.not_tenant (sound : Sound initial s) (away : (s.places t).Away) :
    s.currThread ≠ some t := by
  intro held
  have tenant := sound.tenant t held
  cases here : s.places t <;> rw [here] at tenant away
  all_goals first | exact tenant | exact away

theorem Sound.call (sound : Sound initial s) (here : s.places t = .outside) (inRange : r.InRange) :
    Sound initial (s.put t (.lock r false)) := by
  have absent := sound.not_queued (t := t) (by rw [here]; simp)
  have free : s.currThread ≠ some t := sound.not_tenant (by rw [here]; trivial)
  exact sound.away free inRange (sound.queued_put absent) sound.once

theorem Sound.acquire (sound : Sound initial s) (here : s.places t = .lock r false) :
    Sound initial (s.acquire t r) := by
  have absent := sound.not_queued (t := t) (by rw [here]; simp)
  have free : s.currThread ≠ some t := by
    intro held
    have tenant := sound.tenant t held
    rw [here] at tenant
    exact tenant
  have inRange : r.InRange := by
    have away := sound.others t free
    rwa [here] at away
  unfold State.acquire
  split
  · -- the lock is held: into the queue
    apply sound.away free
    · exact inRange
    · intro u member
      rw [Threads.mem_items_sortedInsert] at member
      rcases member with rfl | member
      · exact ⟨r, by rw [put_places, if_pos rfl]⟩
      · exact sound.queued_put absent u member
    · rw [Threads.items_sortedInsert_perm.nodup_iff]
      exact List.nodup_cons.mpr ⟨absent, sound.once⟩
  · rename_i unlocked
    have nobody : s.currThread = none := by
      have locked := sound.locked
      exact Option.not_isSome_iff_eq_none.mp (by rw [← locked]; exact unlocked)
    have quiet := sound.free nobody
    refine ⟨rfl, ?_, fun none => (by cases none), ?_, sound.queued_put absent, sound.once,
      sound.disk, sound.next, sound.logged⟩
    · intro u apart
      have other : u ≠ t := fun same => apart (by rw [same])
      show ((s.put t (.request r)).places u).Away
      rw [put_places, if_neg other]
      exact sound.others u (by rw [nobody]; simp)
    · intro u held
      obtain rfl : t = u := Option.some.inj held
      show Tenant _ t ((s.put t (.request r)).places t)
      rw [put_places, if_pos rfl]
      exact ⟨inRange, quiet.active, quiet.pending, quiet.value, quiet.semaphoreQueue⟩

/-- The thread with the lock moves on. -/
theorem Sound.hold {p : Place} (sound : Sound initial s) (held : s.currThread = some t)
    (places : s'.places = (s.put t p).places) (currThread : s'.currThread = s.currThread)
    (isLocked : s'.isLocked = s.isLocked) (lockQueue : s'.lockQueue = s.lockQueue)
    (tenant : Tenant s' t p) (disk : s'.disk = contents initial s'.log)
    (next : s'.next = (issuedIds s'.log).length) (logged : Logged initial s'.log) :
    Sound initial s' := by
  have absent : t ∉ items s.lockQueue := by
    apply sound.not_queued
    intro r here
    have before := sound.tenant t held
    rw [here] at before
    exact before
  refine ⟨?_, ?_, ?_, ?_, ?_, ?_, disk, next, logged⟩
  · rw [isLocked, currThread]
    exact sound.locked
  · intro u apart
    rw [currThread] at apart
    have other : u ≠ t := by
      rintro rfl
      exact apart held
    rw [places, put_places, if_neg other]
    exact sound.others u apart
  · intro none
    rw [currThread, held] at none
    cases none
  · intro u held'
    rw [currThread, held] at held'
    obtain rfl : t = u := Option.some.inj held'
    rw [places, put_places, if_pos rfl]
    exact tenant
  · rw [lockQueue, places]
    exact sound.queued_put absent
  · rw [lockQueue]
    exact sound.once

/-- A request in range is carried out, and a reader gets the sector. -/
theorem carryOut_eq {d : Disk} (inRange : r.InRange) :
    ∃ buffer, r.carryOut d = .ok (buffer, match r with
      | .read _ => d
      | .write n data => Function.update d n.toNat data) ∧
      ∀ n, r = .read n → buffer = some (d n.toNat) := by
  have yes : decide (0 ≤ r.sectorNumber ∧ r.sectorNumber < numSectors) = true :=
    decide_eq_true inRange
  cases r with
  | read n =>
      have found : readSector d n = .ok (d n.toNat) := by
        rw [readSector, show decide (0 ≤ n ∧ n < numSectors) = true from yes, ASSERT_true, ok_bind]
        rfl
      refine ⟨some (d n.toNat), ?_, ?_⟩
      · rw [Request.carryOut, found, ok_bind]
        rfl
      · rintro m ⟨⟩
        rfl
  | write n data =>
      have stored : writeSector d n data = .ok (Function.update d n.toNat data) := by
        rw [writeSector, show decide (0 ≤ n ∧ n < numSectors) = true from yes, ASSERT_true, ok_bind]
        rfl
      refine ⟨none, ?_, ?_⟩
      · rw [Request.carryOut, stored, ok_bind]
        rfl
      · intro m read
        cases read

theorem Sound.request (sound : Sound initial s) (here : s.places t = .request r)
    (moved : s.request t r = some s') : Sound initial s' := by
  have held : s.currThread = some t := by
    by_contra free
    have away := sound.others t free
    rw [here] at away
    exact away
  have tenant := sound.tenant t held
  rw [here] at tenant
  obtain ⟨inRange, quiet⟩ := tenant
  obtain ⟨buffer, carried, reads⟩ := @carryOut_eq r s.disk inRange
  have idle : ¬ s.active = true := by
    rw [quiet.active]
    exact Bool.false_ne_true
  rw [State.request, if_neg idle, carried] at moved
  cases moved
  refine sound.hold held rfl rfl rfl rfl ?_ ?_ ?_ ?_
  · refine ⟨⟨r, List.mem_cons_self ..⟩, .inl ⟨rfl, ?_, quiet.value, ?_⟩⟩
    · show s.pending ++ [s.next] = [s.next]
      rw [quiet.pending]
      rfl
    · show items s.semaphoreQueue = _
      rw [quiet.semaphoreQueue]
      rfl
  · cases r with
    | read n => exact sound.disk
    | write n data =>
        show Function.update s.disk n.toNat data = Function.update
            (contents initial s.log) n.toNat data
        rw [← sound.disk]
  · show s.next + 1 = (s.next :: issuedIds s.log).length
    rw [List.length_cons, ← sound.next]
  · refine ⟨sound.next, ?_, sound.logged⟩
    rw [← sound.disk]
    exact reads

theorem Sound.p {id : Nat} {buffer : Option (Nat → Byte)} (sound : Sound initial s)
    (here : s.places t = .wait id buffer false) : Sound initial (s.p t id buffer) := by
  have held : s.currThread = some t := by
    by_contra free
    have away := sound.others t free
    rw [here] at away
    exact away
  have tenant := sound.tenant t held
  rw [here] at tenant
  obtain ⟨issued, stage⟩ := tenant
  unfold State.p
  split
  · rename_i zero
    refine sound.hold held rfl rfl rfl rfl ?_ sound.disk sound.next sound.logged
    rcases stage with busy | done
    · refine ⟨issued, .inl ⟨busy.active, busy.pending, busy.value, ?_⟩⟩
      have empty : s.semaphoreQueue = [] := List.map_eq_nil_iff.mp busy.semaphoreQueue
      show items (sortedInsert t (s.key t) s.semaphoreQueue) = [t]
      rw [empty]
      rfl
    · rw [done.value] at zero
      cases zero
  · rename_i positive
    refine sound.hold held rfl rfl rfl rfl ?_ sound.disk sound.next sound.logged
    rcases stage with busy | done
    · exact absurd busy.value positive
    · refine ⟨issued, done.interrupted, done.active, done.pending, ?_, done.semaphoreQueue⟩
      show s.value - 1 = 0
      rw [done.value]
      rfl

theorem Sound.handleInterrupt {id : Nat} (sound : Sound initial s) (due : id ∈ s.pending) :
    Sound initial (s.handleInterrupt id) := by
  -- the interrupt is that of the thread with the lock, which waits for it
  obtain ⟨t, held⟩ : ∃ t, s.currThread = some t := by
    cases holder : s.currThread with
    | none =>
        rw [(sound.free holder).pending] at due
        cases due
    | some t => exact ⟨t, rfl⟩
  have tenant := sound.tenant t held
  cases here : s.places t with
  | outside => rw [here] at tenant; exact tenant.elim
  | lock r asleep => rw [here] at tenant; exact tenant.elim
  | request r =>
      rw [here] at tenant
      rw [tenant.2.pending] at due
      cases due
  | release id' buffer =>
      rw [here] at tenant
      rw [tenant.2.2.pending] at due
      cases due
  | wait id' buffer asleep =>
      rw [here] at tenant
      obtain ⟨⟨r, issued⟩, busy | done⟩ := tenant
      · obtain rfl : id = id' := by
          rw [busy.pending] at due
          exact List.mem_singleton.mp due
        have finished (s' : State) (active : s'.active = false) (pending : s'.pending = [])
            (value : s'.value = 1) (queue : s'.semaphoreQueue = [])
            (log : s'.log = .interrupted id :: s.log) : Tenant s' t (.wait id buffer false) := by
          refine ⟨⟨r, ?_⟩, .inr ⟨rfl, active, pending, value, queue, ?_⟩⟩
          · rw [log]
            exact List.mem_cons_of_mem _ issued
          · rw [log]
            exact List.mem_cons_self ..
        have drained : s.pending.erase id = [] := by
          rw [busy.pending]
          simp
        have raised : s.value + 1 = 1 := by
          rw [busy.value]
          rfl
        unfold State.handleInterrupt
        cases asleep with
        | false =>
            have empty : s.semaphoreQueue = [] := List.map_eq_nil_iff.mp busy.semaphoreQueue
            rw [empty]
            refine sound.hold held ?_ rfl rfl rfl
              (finished _ rfl drained raised empty rfl) sound.disk
              sound.next sound.logged
            funext u
            show s.places u = (s.put t (.wait id buffer false)).places u
            rw [put_places]
            split
            · rename_i same
              rw [same]
              exact here
            · rfl
        | true =>
            obtain ⟨e, queue, item⟩ := List.map_eq_singleton_iff.mp busy.semaphoreQueue
            rw [queue]
            refine sound.hold held ?_ rfl rfl rfl (finished _ rfl drained raised rfl rfl) sound.disk
              sound.next sound.logged
            show (s.put e.item (s.places e.item).woken).places = _
            rw [item, here]
            rfl
      · rw [done.pending] at due
        cases due

theorem Sound.release {id : Nat} {buffer : Option (Nat → Byte)} (sound : Sound initial s)
    (here : s.places t = .release id buffer) (moved : s.release t id buffer = some s') :
    Sound initial s' := by
  unfold State.release at moved
  split at moved
  · rename_i held
    cases moved
    have tenant := sound.tenant t held
    rw [here] at tenant
    obtain ⟨issued, interrupted, quiet⟩ := tenant
    have absent := sound.not_queued (t := t) (by rw [here]; simp)
    have away (u : Nat) (other : u ≠ t) : (s.places u).Away := by
      apply sound.others u
      rw [held]
      exact fun same => other (Option.some.inj same).symm
    have logged : Logged initial (.returned t id buffer :: s.log) :=
      ⟨interrupted, issued, sound.logged⟩
    unfold State.wakeLock
    cases first : remove (s.put t .outside).lockQueue with
    | none =>
        refine ⟨rfl, ?_, fun _ => ⟨quiet.active, quiet.pending, quiet.value, quiet.semaphoreQueue⟩,
          ?_, sound.queued_put absent, sound.once, sound.disk, sound.next, logged⟩
        · intro u _
          show ((s.put t .outside).places u).Away
          rw [put_places]
          split
          · trivial
          · exact away u ‹_›
        · intro u bad
          cases bad
    | some taken =>
        obtain ⟨j, rest⟩ := taken
        obtain ⟨key, queue⟩ := Threads.remove_eq_some first
        have queue : s.lockQueue = ⟨j, key⟩ :: rest := queue
        have among : items s.lockQueue = j :: items rest := by
          rw [queue]
          rfl
        have once := sound.once
        rw [among] at once
        obtain ⟨fresh, once'⟩ := List.nodup_cons.mp once
        obtain ⟨r, asleep⟩ := sound.queued j (by rw [among]; exact List.mem_cons_self ..)
        have other : j ≠ t := by
          rintro rfl
          rw [here] at asleep
          cases asleep
        refine ⟨rfl, ?_, fun _ => ⟨quiet.active, quiet.pending, quiet.value, quiet.semaphoreQueue⟩,
          ?_, ?_, once', sound.disk, sound.next, logged⟩
        · intro u _
          show (((s.put t .outside).put j ((s.put t .outside).places j).woken).places u).Away
          rw [put_places, put_places, put_places]
          split
          · rw [asleep]
            have inRange := away j other
            rw [asleep] at inRange
            exact inRange
          · split
            · trivial
            · exact away u ‹_›
        · intro u bad
          cases bad
        · intro u member
          show ∃ r, ((s.put t .outside).put j ((s.put t .outside).places j).woken).places u =
              .lock r true
          have apart : u ≠ j := by
            rintro rfl
            exact fresh member
          rw [put_places, if_neg apart]
          exact sound.queued_put absent u (by rw [among]; exact List.mem_cons_of_mem _ member)
  · cases moved

/-- **Every step keeps the lock, the semaphore and the disk in step.** -/
theorem Sound.step {label : Label} (sound : Sound initial s) (moved : s.step label = some s') :
    Sound initial s' := by
  cases label with
  | call t r =>
      simp only [State.step] at moved
      split at moved
      · rename_i here
        split at moved
        · cases moved
          exact sound.call here ‹_›
        · cases moved
      · cases moved
  | go t =>
      simp only [State.step] at moved
      split at moved
      · cases moved
        exact sound.acquire ‹_›
      · exact sound.request ‹_› moved
      · cases moved
        exact sound.p ‹_›
      · exact sound.release ‹_› moved
      · cases moved
  | interrupt id =>
      obtain ⟨due, same⟩ := Option.ite_none_right_eq_some.mp moved
      cases same
      exact sound.handleInterrupt due
  | setPriority t priority =>
      cases moved
      refine ⟨sound.locked, sound.others, ?_, ?_, sound.queued, sound.once, sound.disk, sound.next,
        sound.logged⟩
      · intro free
        have quiet := sound.free free
        exact ⟨quiet.active, quiet.pending, quiet.value, quiet.semaphoreQueue⟩
      · intro u held
        exact (sound.tenant u held).congr rfl rfl rfl rfl rfl

end Invariant

/-- **`SynchDisk` serialises the disk**, in every state of every run: no request is made of a
busy disk, every call returns after the interrupt for its own request, the semaphore is down
when the lock is free, and a reader gets what was last written to its sector. -/
theorem synchDisk_serialises (initial : Disk) (key : Nat → Int) (labels : List Label) :
    AllStates State.step (Serialised initial) (create initial key) labels := by
  have all : AllStates State.step (Sound initial) (create initial key) labels :=
    allStates_of_invariant (fun _ _ _ sound _ moved => Sound.step sound moved)
      (create_sound initial key) (allSteps_true _ labels)
  exact all.mono fun s sound => sound.serialised

-- A reader comes while a writer waits for the disk, sleeps at the lock, and reads what was written.
example :
    (exec State.step (create (fun _ _ => 0) fun _ => 0)
      [.call 0 (.write 7 fun _ => 5), .go 0, .go 0, .call 1 (.read 7), .go 1, .go 0, .interrupt 0,
        .go 0, .go 0, .go 1, .go 1, .go 1, .interrupt 1, .go 1, .go 1]).map
      (fun s => s.log.filterMap fun
        | .returned t _ buffer => some (t, buffer.map fun data => data 3)
        | _ => none) =
    some [(1, some 5), (0, none)] := by
  rfl

end Nachos.Disk.SynchDisk
