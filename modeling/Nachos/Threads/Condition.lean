/-
# Nachos.Threads.Condition -- what a `Lock` and a `Condition` promise their users

For every program that is written with one lock and conditions on it, every number of
threads and every interleaving of them (`Threads.Synch`):

* `lock_safe`: one thread at most holds the lock, and no wake-up of `Release` is lost;
* `condition_serves`: `Wait` gives the lock away and joins the queue in one step, every
  `Signal` removes the one that is first by priority and arrival, and nobody comes back from
  `Wait` unless it was removed, once.

The order of arrival is not in the state of the kernel.  An observer (`Watch`) sees the
states before and after each step, and writes down who has come into the queue of the
condition and who has left it.
-/
import Nachos.Threads.Mailbox

namespace Nachos.Threads.Synch

open Nachos.Lib.Monitor
open Nachos.Lib.Run

set_option autoImplicit false

variable {P C σ : Type} [DecidableEq C] {prog : Program P C σ} {st st' : Monitor P C σ}

/-! ## Locks -/

/-- One thread at most is between `Acquire` and `Release`, the lock knows it, and threads
are queued only while the lock is taken or one that was queued is on its way to it. -/
structure LockSafe (st : Monitor P C σ) : Prop where
  one : ∀ i j pc pc', st.place i = some (.holds pc) → st.place j = some (.holds pc') → i = j
  holder : ∀ i, st.currThread = some i ↔ ∃ pc, st.place i = some (.holds pc)
  locked : st.isLocked = true ↔ ∃ i pc, st.currThread = some i ∧ st.place i = some (.holds pc)
  woken : st.lockQueue ≠ [] →
    st.isLocked = true ∨ ∃ i next, st.place i = some (.acquire .woken next)

omit [DecidableEq C] in
theorem Sound.lockSafe (sound : Sound st) : LockSafe st := by
  refine ⟨fun i j pc pc' first second => sound.holder_unique first second, sound.held, ?_,
    sound.woken⟩
  rw [sound.locked, Option.isSome_iff_exists]
  constructor
  · rintro ⟨i, current⟩
    obtain ⟨pc, there⟩ := (sound.held i).mp current
    exact ⟨i, pc, current, there⟩
  · rintro ⟨i, pc, current, -⟩
    exact ⟨i, current⟩

theorem run_sound {s : σ} {events : List (Event P)}
    (run : exec (step prog) (init s) events = some st) :
    Sound st :=
  (run_keeps (I := fun _ => True) (fun _ _ _ _ => trivial) (fun _ _ _ _ => trivial) trivial run).1

/-- **A lock is held by one thread at most and loses no wake-up**, whatever its users do. -/
theorem lock_safe (prog : Program P C σ) (s : σ) (events : List (Event P)) (st : Monitor P C σ)
    (run : exec (step prog) (init s) events = some st) : LockSafe st :=
  (run_sound run).lockSafe

/-- A sender has the lock, two more queue for it, and the release lets a newcomer in before
the one that was woken. -/
theorem lock_safe_four :
    ∃ st, exec (step Mailboxes.program) (init Mailboxes.Mailbox.create)
        [.call (.send 1) 0, .move 0, .call (.send 2) 0, .move 1, .call (.send 3) 0,
          .move 2, .move 0, .call .receive 0, .move 3] = some st ∧
      st.place 1 = some (.acquire .woken (.send 2)) ∧ st.currThread = some 3 ∧ LockSafe st :=
  ⟨_, rfl, rfl, rfl, lock_safe Mailboxes.program Mailboxes.Mailbox.create
    [.call (.send 1) 0, .move 0, .call (.send 2) 0, .move 1, .call (.send 3) 0, .move 2, .move 0,
      .call .receive 0, .move 3] _ rfl⟩

/-! ## What a step does to the queues and to the places -/

/-- What the holder of the lock does, once its code has come to `action`. -/
def Monitor.perform (st : Monitor P C σ) (i : Nat) (key : Int) (pc : P) : Action P C → Monitor P C σ
  | .signal c next => (st.signal c).put i (.holds next)
  | .broadcast c next => (Monitor.broadcast c (st.queue c).length st).put i (.holds next)
  | .wait c next => st.wait i key c next
  | .release => st.release.put i (.returned pc)
  | .again next => st.release.put i (.acquire .first next)

/-- The queues after it. -/
def Monitor.queueAfter (st : Monitor P C σ) (i : Nat) (key : Int) :
    Action P C → C → List (ListElement Nat)
  | .signal c _ => Function.update st.queue c (st.queue c).tail
  | .broadcast c _ => Function.update st.queue c []
  | .wait c _ => Function.update st.queue c (sortedInsert i key (st.queue c))
  | _ => st.queue

section Steps

variable {i : Nat} {key : Int} {pc : P} {e : Event P} {c : C}

theorem run_eq_some (ran : st.run prog i key pc = some st') :
    ∃ shared action, prog.code pc st.shared = some (shared, action) ∧
      st' = Monitor.perform { st with shared := shared } i key pc action := by
  obtain ⟨⟨shared, action⟩, code, ran⟩ := Option.bind_eq_some_iff.mp ran
  refine ⟨shared, action, code, ?_⟩
  dsimp only at ran
  split at ran
  · cases action <;> cases ran <;> rfl
  · cases ran

theorem signal_queue : (st.signal c).queue = Function.update st.queue c (st.queue c).tail := by
  unfold Monitor.signal
  cases removed : remove (st.queue c) with
  | none =>
      have empty := remove_eq_none removed
      rw [empty, List.tail_nil, ← empty, Function.update_eq_self]
  | some pair =>
      obtain ⟨j, rest⟩ := pair
      obtain ⟨key, head⟩ := remove_eq_some removed
      rw [head]
      rfl

theorem broadcast_queue {n : Nat} :
    (Monitor.broadcast c n st).queue = Function.update st.queue c ((st.queue c).drop n) := by
  induction n generalizing st with
  | zero =>
      rw [List.drop_zero, Function.update_eq_self]
      rfl
  | succ n ih =>
      rw [Monitor.broadcast, ih, signal_queue, Function.update_self, Function.update_idem]
      simp

omit [DecidableEq C] in
theorem wakeLock_queue : st.wakeLock.queue = st.queue := by
  unfold Monitor.wakeLock
  split <;> rfl

theorem perform_queue (action : Action P C) :
    (st.perform i key pc action).queue = st.queueAfter i key action := by
  cases action with
  | signal c next => exact signal_queue
  | broadcast c next =>
      have queue : (Monitor.broadcast c (st.queue c).length st).queue = _ := broadcast_queue
      rw [List.drop_length] at queue
      exact queue
  | wait c next =>
      show Function.update st.wakeLock.queue c (sortedInsert i key (st.wakeLock.queue c)) = _
      rw [wakeLock_queue]
      rfl
  | release => exact wakeLock_queue
  | again next => exact wakeLock_queue

/-- A step of the holder changes the queues as its code says; no other step does. -/
theorem step_queue (stepped : step prog st e = some st') :
    st'.queue = st.queue ∧ (∀ i pc, e = .move i → st.place i ≠ some (.holds pc)) ∨
      ∃ i t pc shared action, e = .move i ∧ st.threads[i]? = some t ∧ t.place = .holds pc ∧
        prog.code pc st.shared = some (shared, action) ∧
        st' = Monitor.perform { st with shared := shared } i t.key pc action ∧
        st'.queue = st.queueAfter i t.key action := by
  cases e with
  | call pc key =>
      refine .inl ⟨?_, by rintro _ _ ⟨⟩⟩
      simp only [step] at stepped
      split at stepped
      · cases stepped
        rfl
      · cases stepped
  | setPriority i key =>
      cases stepped
      exact .inl ⟨rfl, by rintro _ _ ⟨⟩⟩
  | move i =>
      obtain ⟨t, found, moved⟩ := Option.bind_eq_some_iff.mp stepped
      have there : st.place i = some t.place := by simp [Monitor.place, found]
      split at moved
      · rename_i turn next here
        refine .inl ⟨?_, ?_⟩
        · unfold Monitor.acquire at moved
          split at moved
          · cases moved
          split at moved
          · cases moved
            rfl
          · cases moved
            rfl
        · rintro _ pc ⟨⟩ held
          simp [there, here] at held
      · rename_i pc here
        obtain ⟨shared, action, code, rfl⟩ := run_eq_some moved
        exact .inr ⟨i, t, pc, shared, action, rfl, found, here, code, rfl, perform_queue action⟩
      · cases moved

/-- Where a thread can be after a step. -/
inductive Shift : Option (Place P C) → Option (Place P C) → Prop where
  | stay (p : Option (Place P C)) : Shift p p
  | call (pc : P) : Shift none (some (.acquire .first pc))
  /-- It finds the lock taken. -/
  | queue (turn : Turn) (next : P) : Shift (some (.acquire turn next)) (some (.queued next))
  /-- It finds the lock free. -/
  | take (turn : Turn) (next : P) : Shift (some (.acquire turn next)) (some (.holds next))
  /-- `Release` wakes it. -/
  | unlock (next : P) : Shift (some (.queued next)) (some (.acquire .woken next))
  /-- `Signal` or `Broadcast` wakes it. -/
  | remove (c : C) (next : P) : Shift (some (.waiting c next)) (some (.acquire .signalled next))
  /-- It held the lock. -/
  | goOn (pc : P) (p : Place P C) : Shift (some (.holds pc)) (some p)

omit [DecidableEq C] in
theorem Sound.wakeLock_shift (sound : Sound st) (k : Nat) :
    Shift (st.place k) (st.wakeLock.place k) := by
  unfold Monitor.wakeLock
  cases removed : remove st.lockQueue with
  | none => exact .stay _
  | some pair =>
      obtain ⟨j, rest⟩ := pair
      obtain ⟨key, head⟩ := remove_eq_some removed
      obtain ⟨next, there⟩ := (sound.inLock j).mp (by simp [head, items])
      have place := congrFun (place_update (f := Place.wake) there) k
      show Shift _ ((st.update j Place.wake).place k)
      rw [place]
      by_cases same : k = j
      · rw [same, Function.update_self, there]
        exact .unlock next
      · rw [Function.update_of_ne same]
        exact .stay _

/-- `Signal` wakes those it removes from the queue, and nobody else. -/
theorem Sound.signal_place (sound : Sound st) (c : C) (k : Nat) :
    (st.signal c).place k = st.place k ∨ ∃ next, st.place k = some (.waiting c next) ∧
      (st.signal c).place k = some (.acquire .signalled next) := by
  unfold Monitor.signal
  cases removed : remove (st.queue c) with
  | none => exact .inl rfl
  | some pair =>
      obtain ⟨j, rest⟩ := pair
      obtain ⟨key, head⟩ := remove_eq_some removed
      obtain ⟨next, there⟩ := (sound.inQueue c j).mp (by simp [head, items])
      have place := congrFun (place_update (f := Place.wake) there) k
      show (st.update j Place.wake).place k = _ ∨ ∃ next, _ ∧ (st.update j Place.wake).place k = _
      rw [place]
      by_cases same : k = j
      · subst same
        exact .inr ⟨next, there, by rw [Function.update_self]; rfl⟩
      · rw [Function.update_of_ne same]
        exact .inl rfl

theorem Sound.broadcast_place {n : Nat} (sound : Sound st) (c : C) (k : Nat) :
    (Monitor.broadcast c n st).place k = st.place k ∨ ∃ next, st.place k = some (.waiting c next) ∧
      (Monitor.broadcast c n st).place k = some (.acquire .signalled next) := by
  induction n generalizing st with
  | zero => exact .inl rfl
  | succ n ih =>
      rw [Monitor.broadcast]
      obtain rest | ⟨next, waiting, woken⟩ := ih (sound.signal c).1
      · rw [rest]
        exact sound.signal_place c k
      · obtain same | ⟨next', -, other⟩ := sound.signal_place c k
        · exact .inr ⟨next, same ▸ waiting, woken⟩
        · simp [other] at waiting

omit [DecidableEq C] in
/-- The holder of the lock goes elsewhere after what it has done to the others. -/
theorem shift_put {mid : Monitor P C σ} {p : Place P C} (there : st.place i = some (.holds pc))
    (kept : mid.place i = some (.holds pc)) (others : ∀ k, Shift (st.place k) (mid.place k))
    (k : Nat) :
    Shift (st.place k) ((mid.put i p).place k) := by
  rw [place_put kept]
  by_cases same : k = i
  · rw [same, Function.update_self, there]
    exact .goOn pc p
  · rw [Function.update_of_ne same]
    exact others k

theorem Sound.perform_shift (sound : Sound st) (there : st.place i = some (.holds pc))
    (action : Action P C) (k : Nat) :
    Shift (st.place k) ((st.perform i key pc action).place k) := by
  have released : st.release.place i = some (.holds pc) :=
    (sound.wakeLock (sound.holder there).2.1).2.2.1 i pc there
  cases action with
  | signal c next =>
      refine shift_put there ((sound.signal c).2.2 i pc there) (fun k => ?_) k
      obtain same | ⟨next, waiting, woken⟩ := sound.signal_place c k
      · rw [same]
        exact .stay _
      · rw [waiting, woken]
        exact .remove c next
  | broadcast c next =>
      refine shift_put there ((sound.broadcast rfl).2.2 i pc there) (fun k => ?_) k
      obtain same | ⟨next, waiting, woken⟩ := sound.broadcast_place (n := (st.queue c).length) c k
      · rw [same]
        exact .stay _
      · rw [waiting, woken]
        exact .remove c next
  | wait c next => exact shift_put there released sound.wakeLock_shift k
  | release => exact shift_put there released sound.wakeLock_shift k
  | again next => exact shift_put there released sound.wakeLock_shift k

theorem Sound.step_shift (sound : Sound st) (stepped : step prog st e = some st') (k : Nat) :
    Shift (st.place k) (st'.place k) := by
  cases e with
  | call pc key =>
      simp only [step] at stepped
      split at stepped
      · cases stepped
        rw [place_call]
        by_cases same : k = st.threads.length
        · have fresh : st.place st.threads.length = none := by simp [Monitor.place]
          rw [same, Function.update_self, fresh]
          exact .call pc
        · rw [Function.update_of_ne same]
          exact .stay _
      · cases stepped
  | setPriority i key =>
      cases stepped
      rw [place_setPriority]
      exact .stay _
  | move i =>
      obtain ⟨t, found, moved⟩ := Option.bind_eq_some_iff.mp stepped
      have there : st.place i = some t.place := by simp [Monitor.place, found]
      split at moved
      · rename_i turn next here
        rw [here] at there
        unfold Monitor.acquire at moved
        split at moved
        · cases moved
        split at moved
        · cases moved
          show Shift _ ((st.put i (.queued next)).place k)
          rw [place_put there]
          by_cases same : k = i
          · rw [same, Function.update_self, there]
            exact .queue turn next
          · rw [Function.update_of_ne same]
            exact .stay _
        · cases moved
          show Shift _ ((st.put i (.holds next)).place k)
          rw [place_put there]
          by_cases same : k = i
          · rw [same, Function.update_self, there]
            exact .take turn next
          · rw [Function.update_of_ne same]
            exact .stay _
      · rename_i pc here
        rw [here] at there
        obtain ⟨shared, action, -, rfl⟩ := run_eq_some moved
        have sound' : Sound { st with shared := shared } := sound
        exact sound'.perform_shift there action k
      · cases moved

end Steps

/-! ## An observer of one condition -/

/-- What an observer has seen of the queue of a condition. -/
structure Watch where
  /-- Those in the queue, in the order in which they came, with their priorities then. -/
  arrived : List (ListElement Nat)
  /-- The threads inside a call of `Wait` on the condition. -/
  inside : Nat → Bool
  /-- How often a thread was removed from the queue since it came into it. -/
  removals : Nat → Nat

def Watch.start : Watch := ⟨[], fun _ => false, fun _ => 0⟩

/-- The thread sleeps or is in `Acquire`. -/
def Place.away : Place P C → Bool
  | .acquire _ _ | .queued _ | .waiting _ _ => true
  | _ => false

def Monitor.keyOf (st : Monitor P C σ) (i : Nat) : Int := ((st.threads[i]?).map Caller.key).getD 0

/-- What the observer writes down when `st'` comes after `st`. -/
def Watch.observe (c : C) (st st' : Monitor P C σ) (w : Watch) : Watch where
  arrived := w.arrived.filter (fun e => e.item ∈ items (st'.queue c)) ++
    ((items (st'.queue c)).filter fun i => i ∉ items (st.queue c)).map fun i => ⟨i, st.keyOf i⟩
  inside i := i ∈ items (st'.queue c) ∨ w.inside i = true ∧ (st'.place i).any Place.away = true
  removals i :=
    if i ∈ items (st.queue c) then
      if i ∈ items (st'.queue c) then w.removals i else w.removals i + 1
    else if i ∈ items (st'.queue c) then 0 else w.removals i

structure Watched (P C σ : Type) where
  st : Monitor P C σ
  watch : Watch

def stepWatched (prog : Program P C σ) (c : C) (o : Watched P C σ) (e : Event P) :
    Option (Watched P C σ) :=
  (step prog o.st e).map fun st' => ⟨st', o.watch.observe c o.st st'⟩

/-- What the observer knows of the threads. -/
structure Known (c : C) (st : Monitor P C σ) (w : Watch) : Prop where
  arranged : Arranged w.arrived (st.queue c)
  waiting : ∀ i next, st.place i = some (.waiting c next) → w.removals i = 0
  inside : ∀ i, w.inside i = true → (∃ next, st.place i = some (.waiting c next)) ∨
    w.removals i = 1 ∧ ((∃ turn next, st.place i = some (.acquire turn next)) ∨
      ∃ next, st.place i = some (.queued next))

section Observer

variable {c : C} {w : Watch} {e : Event P}

omit [DecidableEq C] in
/-- Nobody has come or left. -/
theorem Known.arranged_same (known : Known c st w) (same : st'.queue c = st.queue c) :
    Arranged (w.observe c st st').arrived (st'.queue c) := by
  have nobody : ((items (st.queue c)).filter fun i => i ∉ items (st.queue c)) = [] :=
    List.filter_eq_nil_iff.mpr fun i there => by simpa using there
  simp only [Watch.observe, same, nobody, List.map_nil, List.append_nil]
  rw [known.arranged.filter_self fun x there => there]
  exact known.arranged

omit [DecidableEq C] in
/-- A thread has come. -/
theorem Known.arranged_insert (known : Known c st w) {i : Nat} (absent : i ∉ items (st.queue c))
    (queue : st'.queue c = sortedInsert i (st.keyOf i) (st.queue c)) :
    Arranged (w.observe c st st').arrived (st'.queue c) := by
  have joined : ((items (st'.queue c)).filter fun j => j ∉ items (st.queue c)) = [i] := by
    rw [queue]
    exact filter_items_sortedInsert absent
  simp only [Watch.observe, joined]
  rw [queue, known.arranged.filter_self fun x there => mem_items_sortedInsert.mpr (.inr there)]
  exact known.arranged.insert i _

omit [DecidableEq C] in
/-- The first thread has left. -/
theorem Known.arranged_tail (known : Known c st w) (sound : Sound st)
    (queue : st'.queue c = (st.queue c).tail) :
    Arranged (w.observe c st st').arrived (st'.queue c) := by
  cases full : st.queue c with
  | nil => exact known.arranged_same (by rw [queue, full, List.tail_nil])
  | cons e rest =>
      rw [full, List.tail_cons] at queue
      have arranged := known.arranged
      have once := sound.queueOnce c
      rw [full] at arranged once
      have nobody : ((items rest).filter fun i => i ∉ items (e :: rest)) = [] :=
        List.filter_eq_nil_iff.mpr
          fun i there => by simpa [items] using fun _ => List.mem_map.mp there
      simp only [Watch.observe, full, queue, nobody, List.map_nil, List.append_nil]
      exact arranged.remove once

omit [DecidableEq C] in
/-- All have left. -/
theorem Known.arranged_nil (queue : st'.queue c = []) :
    Arranged (w.observe c st st').arrived (st'.queue c) := by
  simpa [Watch.observe, queue, items] using Threads.arranged_nil

theorem Known.step (sound : Sound st) (sound' : Sound st') (known : Known c st w)
    (stepped : step prog st e = some st') : Known c st' (w.observe c st st') := by
  have inQueue := sound.inQueue c
  have inQueue' := sound'.inQueue c
  constructor
  · obtain ⟨same, -⟩ | ⟨i, t, pc, shared, action, -, found, here, -, -, queue⟩ := step_queue stepped
    · exact known.arranged_same (by rw [same])
    · have key : st.keyOf i = t.key := by simp [Monitor.keyOf, found]
      have elsewhere : ∀ c' l, c ≠ c' → st'.queue = Function.update st.queue c' l →
          Arranged (w.observe c st st').arrived (st'.queue c) := by
        intro c' l differ queue
        exact known.arranged_same (by rw [queue, Function.update_of_ne differ])
      cases action with
      | signal c' next =>
          by_cases same : c = c'
          · subst same
            exact known.arranged_tail sound (by rw [queue]; simp [Monitor.queueAfter])
          · exact elsewhere c' _ same queue
      | broadcast c' next =>
          by_cases same : c = c'
          · subst same
            exact Known.arranged_nil (by rw [queue]; simp [Monitor.queueAfter])
          · exact elsewhere c' _ same queue
      | wait c' next =>
          by_cases same : c = c'
          · subst same
            have absent : i ∉ items (st.queue c) := by
              rw [inQueue]
              simp [Monitor.place, found, here]
            exact known.arranged_insert absent (by rw [queue, key]; simp [Monitor.queueAfter])
          · exact elsewhere c' _ same queue
      | release => exact known.arranged_same (by rw [queue]; rfl)
      | again next => exact known.arranged_same (by rw [queue]; rfl)
  · intro i next there
    have queued := (inQueue' i).mpr ⟨next, there⟩
    by_cases before : i ∈ items (st.queue c)
    · obtain ⟨next', waiting⟩ := (inQueue i).mp before
      simpa [Watch.observe, queued, before] using known.waiting i next' waiting
    · simp [Watch.observe, queued, before]
  · intro i inside
    by_cases queued : i ∈ items (st'.queue c)
    · exact .inl ((inQueue' i).mp queued)
    · obtain ⟨stays, away⟩ : w.inside i = true ∧ (st'.place i).any Place.away = true := by
        simpa [Watch.observe, queued] using inside
      have shift := sound.step_shift stepped i
      refine .inr ?_
      obtain ⟨next, waiting⟩ | ⟨once, acquiring⟩ := known.inside i stays
      · have before := (inQueue i).mpr ⟨next, waiting⟩
        rw [waiting] at shift
        generalize after : st'.place i = p at shift
        cases shift with
        | stay => exact absurd ((inQueue' i).mpr ⟨next, after⟩) queued
        | remove =>
            refine ⟨?_, .inl ⟨_, _, rfl⟩⟩
            simp [Watch.observe, queued, before, known.waiting i next waiting]
      · have before : i ∉ items (st.queue c) := by
          rw [inQueue]
          rintro ⟨next, waiting⟩
          simp [waiting] at acquiring
        refine ⟨by simpa [Watch.observe, queued, before] using once, ?_⟩
        obtain ⟨turn, next, acquiring⟩ | ⟨next, acquiring⟩ := acquiring
        · rw [acquiring] at shift
          generalize after : st'.place i = p at shift away
          cases shift with
          | stay => exact .inl ⟨turn, next, rfl⟩
          | queue => exact .inr ⟨next, rfl⟩
          | take => simp [Place.away] at away
        · rw [acquiring] at shift
          generalize after : st'.place i = p at shift away
          cases shift with
          | stay => exact .inr ⟨next, rfl⟩
          | unlock => exact .inl ⟨_, next, rfl⟩

/-- The holder of the lock comes to this action with the next step. -/
def Performs (prog : Program P C σ) (st : Monitor P C σ) (e : Event P) (i : Nat)
    (action : Action P C) :
    Prop :=
  e = .move i ∧ ∃ pc shared, st.place i = some (.holds pc) ∧
    prog.code pc st.shared = some (shared, action)

/-- What a condition promises of a step from `st` to `st'`. -/
structure Serves (prog : Program P C σ) (c : C) (w : Watch) (st : Monitor P C σ) (e : Event P)
    (st' : Monitor P C σ) : Prop where
  /-- The observer has seen who is in the queue. -/
  arrived : (w.arrived.map ListElement.item).Perm (items (st.queue c))
  /-- `Wait` releases the lock and joins the queue in one step. -/
  wait : ∀ i next, Performs prog st e i (.wait c next) →
    st'.isLocked = false ∧ st'.currThread = none ∧ st'.place i = some (.waiting c next) ∧
      (items (st'.queue c)).Perm (i :: items (st.queue c))
  /-- `Signal` removes and wakes the first to have come of those with the smallest key, and
  nobody else. -/
  signal : ∀ i next, Performs prog st e i (.signal c next) →
    (∀ first, firstLeast w.arrived = some first →
      items (st.queue c) = first.item :: items (st'.queue c) ∧
        ∃ next, st'.place first.item = some (.acquire .signalled next)) ∧
      (firstLeast w.arrived = none → st.queue c = [] ∧ st'.queue c = [])
  /-- `Broadcast` removes and wakes all. -/
  broadcast : ∀ i next, Performs prog st e i (.broadcast c next) → st'.queue c = [] ∧
    ∀ j ∈ items (st.queue c), ∃ next, st'.place j = some (.acquire .signalled next)
  /-- Nothing else removes anybody. -/
  removed : ∀ j ∈ items (st.queue c), j ∉ items (st'.queue c) →
    ∃ i next, Performs prog st e i (.signal c next) ∨ Performs prog st e i (.broadcast c next)
  /-- Who comes back from `Wait` was removed once, and has the lock. -/
  returns : ∀ i, w.inside i = true → (st'.place i).any Place.away = false →
    w.removals i = 1 ∧ st'.currThread = some i ∧ st'.isLocked = true

/-- A thread that has left the queue was woken. -/
theorem Sound.woken_of_removed (sound : Sound st) (sound' : Sound st')
    (stepped : Synch.step prog st e = some st') {j : Nat} (before : j ∈ items (st.queue c))
    (after : j ∉ items (st'.queue c)) : ∃ next, st'.place j = some (.acquire .signalled next) := by
  obtain ⟨next, waiting⟩ := (sound.inQueue c j).mp before
  have shift := sound.step_shift stepped j
  rw [waiting] at shift
  generalize place : st'.place j = p at shift
  cases shift with
  | stay => exact absurd ((sound'.inQueue c j).mpr ⟨next, place⟩) after
  | remove => exact ⟨next, rfl⟩

/-- What a step that performs an action does. -/
theorem performs_queue (stepped : Synch.step prog st e = some st') {i : Nat} {action : Action P C}
    (performs : Performs prog st e i action) :
    ∃ pc shared, st.place i = some (.holds pc) ∧
      st' = Monitor.perform { st with shared := shared } i (st.keyOf i) pc action ∧
      st'.queue = st.queueAfter i (st.keyOf i) action := by
  obtain ⟨rfl, pc, shared, there, code⟩ := performs
  obtain ⟨-, other⟩ | ⟨j, t, pc', shared', action', same, found, here, code', next, queue⟩ :=
    step_queue stepped
  · exact absurd there (other i pc rfl)
  · cases same
    obtain rfl : pc = pc' := by simpa [Monitor.place, found, here] using there.symm
    obtain ⟨rfl, rfl⟩ : shared = shared' ∧ action = action' := by simpa [code] using code'
    have key : st.keyOf i = t.key := by simp [Monitor.keyOf, found]
    rw [key]
    exact ⟨pc, shared, there, next, queue⟩

theorem Known.serves (sound : Sound st) (sound' : Sound st') (known : Known c st w)
    (stepped : Synch.step prog st e = some st') : Serves prog c w st e st' := by
  constructor
  · exact (known.arranged.perm.map ListElement.item).symm
  · intro i next performs
    obtain ⟨pc, shared, there, rfl, queue⟩ := performs_queue stepped performs
    refine ⟨rfl, rfl, ?_, ?_⟩
    · have sound₁ : Sound { st with shared := shared } := sound
      have released : (Monitor.release { st with shared := shared }).place i = some (.holds pc) :=
        (sound₁.wakeLock (sound.holder there).2.1).2.2.1 i pc there
      exact (congrFun (place_put released) i).trans (Function.update_self _ _ _)
    · rw [queue, Monitor.queueAfter, Function.update_self]
      exact items_sortedInsert_perm
  · intro i next performs
    obtain ⟨pc, shared, -, -, queue⟩ := performs_queue stepped performs
    have tail : st'.queue c = (st.queue c).tail := by
      rw [queue, Monitor.queueAfter, Function.update_self]
    cases full : st.queue c with
    | nil =>
        have arranged := known.arranged
        rw [full] at arranged
        have empty : w.arrived = [] := List.eq_nil_iff_forall_not_mem.mpr fun e there =>
          absurd (arranged.mem.mpr there) (by simp)
        rw [full] at tail
        exact ⟨fun first found => by simp [firstLeast, empty] at found, fun _ => ⟨rfl, tail⟩⟩
    | cons e rest =>
        have arranged := known.arranged
        have once := sound.queueOnce c
        rw [full] at arranged once tail
        rw [arranged.first]
        refine ⟨fun first same => ?_, by rintro ⟨⟩⟩
        obtain rfl := Option.some.inj same
        refine ⟨by rw [tail]; rfl, sound.woken_of_removed sound' stepped (c := c) ?_ ?_⟩
        · simp [full, items]
        · rw [tail]
          exact (List.nodup_cons.mp once).1
  · intro i next performs
    obtain ⟨pc, shared, -, -, queue⟩ := performs_queue stepped performs
    have empty : st'.queue c = [] := by rw [queue, Monitor.queueAfter, Function.update_self]
    exact ⟨empty, fun j there => sound.woken_of_removed sound' stepped there
      (by simp [empty, items])⟩
  · intro j before after
    obtain ⟨same, -⟩ | ⟨i, t, pc, shared, action, rfl, found, here, code, -, queue⟩ :=
      step_queue stepped
    · exact absurd (same ▸ before) after
    · have there : st.place i = some (.holds pc) := by simp [Monitor.place, found, here]
      have elsewhere : ∀ c' l, st'.queue = Function.update st.queue c' l → c = c' := by
        intro c' l queue
        by_contra differ
        rw [queue, Function.update_of_ne differ] at after
        exact after before
      cases action with
      | signal c' next =>
          obtain rfl := elsewhere c' _ queue
          exact ⟨i, next, .inl ⟨rfl, pc, shared, there, code⟩⟩
      | broadcast c' next =>
          obtain rfl := elsewhere c' _ queue
          exact ⟨i, next, .inr ⟨rfl, pc, shared, there, code⟩⟩
      | wait c' next =>
          obtain rfl := elsewhere c' _ queue
          rw [queue, Monitor.queueAfter, Function.update_self] at after
          exact absurd (mem_items_sortedInsert.mpr (.inr before)) after
      | release => exact absurd (queue ▸ before) after
      | again next => exact absurd (queue ▸ before) after
  · intro i inside back
    have shift := sound.step_shift stepped i
    generalize after : st'.place i = p at shift back
    obtain ⟨next, waiting⟩ | ⟨once, ⟨turn, next, acquiring⟩ | ⟨next, acquiring⟩⟩ :=
      known.inside i inside
    · rw [waiting] at shift
      cases shift <;> simp [Place.away] at back
    · rw [acquiring] at shift
      cases shift with
      | stay | queue => simp [Place.away] at back
      | take =>
          obtain ⟨current, locked, -⟩ := sound'.holder after
          exact ⟨once, current, locked⟩
    · rw [acquiring] at shift
      cases shift <;> simp [Place.away] at back

/-- What the observer knows holds in every run. -/
theorem run_known {s : σ} {events : List (Event P)} {o : Watched P C σ}
    (run : exec (stepWatched prog c) ⟨init s, .start⟩ events = some o) :
    Sound o.st ∧ Known c o.st o.watch := by
  refine exec_invariant' (I := fun o : Watched P C σ => Sound o.st ∧ Known c o.st o.watch)
    ?_ ⟨init_sound s, arranged_nil, ?_, ?_⟩ run
  · rintro o e o' ⟨sound, known⟩ stepped
    obtain ⟨st', moved, rfl⟩ := Option.map_eq_some_iff.mp stepped
    obtain ⟨sound', -⟩ := step_simulates sound moved
    exact ⟨sound', known.step sound sound' moved⟩
  · intro i next waiting
    simp [init, Monitor.place] at waiting
  · intro i inside
    simp [Watch.start] at inside

/-- **A condition loses no signal and wakes nobody without one**, whatever its users do and
in whichever order. -/
theorem condition_serves (prog : Program P C σ) (c : C) (s : σ) (events : List (Event P))
    (o : Watched P C σ) (run : exec (stepWatched prog c) ⟨init s, .start⟩ events = some o)
    (e : Event P) (st' : Monitor P C σ) (stepped : step prog o.st e = some st') :
    Serves prog c o.watch o.st e st' := by
  obtain ⟨sound, known⟩ := run_known run
  obtain ⟨sound', -⟩ := step_simulates sound stepped
  exact known.serves sound sound' stepped

/-- Three receivers wait, of which the second and the third have the smallest key; the
signal of a sender removes the second. -/
theorem condition_serves_three :
    ∃ o st', exec (stepWatched Mailboxes.program .mailRcv) ⟨init Mailboxes.Mailbox.create, .start⟩
        [.call .receive 5, .move 0, .move 0, .call .receive 2, .move 1, .move 1,
          .call .receive 2, .move 2, .move 2, .call (.send 1) 0, .move 3] = some o ∧
      step Mailboxes.program o.st (.move 3) = some st' ∧
      o.watch.arrived = [⟨0, 5⟩, ⟨1, 2⟩, ⟨2, 2⟩] ∧ items (st'.queue .mailRcv) = [2, 0] ∧
      Serves Mailboxes.program .mailRcv o.watch o.st (.move 3) st' :=
  ⟨_, _, rfl, rfl, rfl, rfl, condition_serves Mailboxes.program .mailRcv Mailboxes.Mailbox.create
    [.call .receive 5, .move 0, .move 0, .call .receive 2, .move 1, .move 1,
      .call .receive 2, .move 2, .move 2, .call (.send 1) 0, .move 3] _ rfl (.move 3) _ rfl⟩

end Observer

end Nachos.Threads.Synch
