/-
# Nachos.Threads.Priority -- which ready thread `FindNextToRun` returns

`ReadyToRun` puts a thread into the ready list by the priority it has at that moment, and the list
keeps a copy of it; `setPriority` changes the thread and not the list.  So the first thread of the
list is one of least priority as long as nobody changes the priority of a thread that is in it.

`Moves` says what a piece of the kernel does to the ready list and to priorities: some threads
become ready, one after the other, and no priority changes.  It is put together for every event
(`step_effect`).  An observer (`Watch`) writes down the order in which the threads in the list
became ready, and whose priority has been changed there since.

* `Known.step`: the list goes by keys, and those of one key in the order of the observer.
* `equal_priorities_in_order`: among equal priorities that never changed, in every run.
* `current_priorities_honoured`: the least priority, in every run whose steps are `Steady`.
-/
import Nachos.Threads.Scheduler

namespace Nachos.Threads

open Nachos.Lib.Run

set_option autoImplicit false

/-- `Thread::getPriority`. -/
def State.getPriority (st : State) (t : Nat) : Int := ((st.threads t).map Thread.key).getD 0

namespace Priority

/-- What `FindNextToRun` returns in this event, if it is called and there is a thread. -/
def taken (st : State) : Event → Option Nat
  | .yield | .dispatch => (remove st.readyList).map Prod.fst
  | _ => none

/-- The ready list when it has returned. -/
def left (st : State) : Event → List (ListElement Nat)
  | .yield | .dispatch => st.readyList.tail
  | _ => st.readyList

/-- These threads are made ready, one after the other. -/
def enqueue (st : State) (made : List Nat) (l : List (ListElement Nat)) : List (ListElement Nat) :=
  made.foldl (fun l t => sortedInsert t (st.getPriority t) l) l

/-- It can make more than one thread ready. -/
def broadcasts : Event → Bool
  | .broadcast _ _ => true
  | _ => false

/-! ## What is made ready -/

/-- No priority changes, and these threads become ready. -/
structure Moves (st st' : State) (made : List Nat) : Prop where
  ready : st'.readyList = enqueue st made st.readyList
  keys : ∀ t th', st'.threads t = some th' → ∃ th, st.threads t = some th ∧ th.key = th'.key
  known : ∀ t ∈ made, ∃ th, st.threads t = some th

/-- At most one of them. -/
def Few (st st' : State) : Prop := ∃ made, made.length ≤ 1 ∧ Moves st st' made

section Made

variable {st st' st'' : State} {made more : List Nat} {t n : Nat} {th th' : Thread}
  {q : Queue} {p : Point} {s : Sem} {l : Nat}

theorem getPriority_eq (object : st.threads t = some th) : st.getPriority t = th.key := by
  rw [State.getPriority, object]
  rfl

theorem getPriority_congr (object : st'.threads t = st.threads t) :
    st'.getPriority t = st.getPriority t := by
  rw [State.getPriority, object, State.getPriority]

theorem Moves.still (ready : st'.readyList = st.readyList)
    (keys : ∀ t th', st'.threads t = some th' → ∃ th, st.threads t = some th ∧ th.key = th'.key) :
    Moves st st' [] :=
  ⟨ready, keys, nofun⟩

theorem Moves.congr (ready : st'.readyList = st.readyList) (threads : st'.threads = st.threads) :
    Moves st st' [] :=
  .still ready fun _ th' object => ⟨th', threads ▸ object, rfl⟩

theorem Moves.adjust (object : st.threads t = some th) (same : th'.key = th.key) :
    Moves st (st.setThread t th') [] := by
  refine .still rfl fun u th'' found => ?_
  by_cases here : u = t
  · subst here
    rw [State.setThread_threads_self, Option.some.injEq] at found
    exact ⟨th, object, by rw [← found, same]⟩
  · rw [State.setThread_threads_of_ne _ _ _ here] at found
    exact ⟨th'', found, rfl⟩

theorem Moves.getPriority (moves : Moves st st' made) (object : st'.threads t = some th') :
    st'.getPriority t = st.getPriority t := by
  obtain ⟨th, before, same⟩ := moves.keys t th' object
  rw [getPriority_eq object, getPriority_eq before, same]

theorem Moves.trans (first : Moves st st' made) (second : Moves st' st'' more) :
    Moves st st'' (made ++ more) := by
  refine ⟨?_, fun t th'' object => ?_, fun t member => ?_⟩
  · rw [second.ready, first.ready, enqueue, enqueue, enqueue, List.foldl_append]
    refine List.foldl_ext _ _ _ fun l t member => ?_
    obtain ⟨th, object⟩ := second.known t member
    rw [first.getPriority object]
  · obtain ⟨th', object, same'⟩ := second.keys t th'' object
    obtain ⟨th, object, same⟩ := first.keys t th' object
    exact ⟨th, object, same.trans same'⟩
  · obtain member | member := List.mem_append.mp member
    · exact first.known t member
    · obtain ⟨th', object⟩ := second.known t member
      obtain ⟨th, object, -⟩ := first.keys t th' object
      exact ⟨th, object⟩

theorem Moves.few (moves : Moves st st' []) : Few st st' := ⟨[], Nat.zero_le 1, moves⟩

theorem Few.then (few : Few st st') (moves : Moves st' st'' []) : Few st st'' := by
  obtain ⟨made, length, first⟩ := few
  exact ⟨made, length, by simpa using first.trans moves⟩

theorem Moves.then (moves : Moves st st' []) (few : Few st' st'') : Few st st'' := by
  obtain ⟨made, length, second⟩ := few
  exact ⟨made, length, by simpa using moves.trans second⟩

theorem Moves.goTo (moved : st.goTo p = some st') : Moves st st' [] := by
  obtain ⟨th, object, rest⟩ := Option.bind_eq_some_iff.mp moved
  cases rest
  exact .adjust object rfl

theorem Moves.readyToRun (woken : st.readyToRun t = some st') : Moves st st' [t] := by
  obtain ⟨th, object, rfl⟩ := readyToRun_eq_some woken
  have changed : Moves st (st.setThread t { th with status := .ready }) [] := .adjust object rfl
  refine ⟨?_, changed.keys, fun u member => ?_⟩
  · rw [enqueue, List.foldl_cons, List.foldl_nil, getPriority_eq object]
  · rw [List.mem_singleton.mp member]
    exact ⟨th, object⟩

/-- The first thread of a queue is made ready. -/
theorem Moves.wake (woken : st.wake q = some st') :
    Moves st st' ((items (st.queues q)).take 1) ∧ st'.queues q = (st.queues q).tail := by
  unfold State.wake at woken
  cases removed : remove (st.queues q) with
  | none =>
      rw [removed] at woken
      cases woken
      rw [remove_eq_none removed]
      exact ⟨.congr rfl rfl, rfl⟩
  | some pair =>
      obtain ⟨t, rest⟩ := pair
      rw [removed] at woken
      obtain ⟨key, head⟩ := remove_eq_some removed
      have cleared : Moves st (st.setQueue q rest) [] := .congr rfl rfl
      obtain ⟨th, -, same⟩ := readyToRun_eq_some woken
      refine ⟨?_, ?_⟩
      · rw [head]
        exact cleared.trans (.readyToRun woken)
      · rw [head, same]
        exact State.setQueue_queues_self ..

theorem Few.wake (woken : st.wake q = some st') : Few st st' :=
  ⟨_, List.length_take_le 1 _, (Moves.wake woken).1⟩

/-- The threads of a queue are made ready in its order. -/
theorem Moves.wakeAll (woken : State.wakeAll q n st = some st') :
    Moves st st' ((items (st.queues q)).take n) := by
  induction n generalizing st with
  | zero =>
      cases woken
      exact .congr rfl rfl
  | succ n ih =>
      obtain ⟨middle, first, rest⟩ := Option.bind_eq_some_iff.mp woken
      obtain ⟨moves, tail⟩ := Moves.wake first
      have later := moves.trans (ih rest)
      rw [tail] at later
      cases full : st.queues q with
      | nil => simpa [full, items] using later
      | cons e l => simpa [full, items] using later

theorem Moves.deleteThread (st : State) (t : Nat) : Moves st (st.deleteThread t) [] := by
  refine .still rfl fun u th' object => ⟨th', ?_, rfl⟩
  by_cases same : u = t
  · simp [State.deleteThread, same] at object
  · simpa [State.deleteThread, same] using object

theorem Moves.destroy (deleted : st.destroy = some st') : Moves st st' [] := by
  unfold State.destroy at deleted
  split at deleted
  · cases deleted
    exact .congr rfl rfl
  · rename_i t _
    obtain ⟨th, -, rest⟩ := Option.bind_eq_some_iff.mp deleted
    split at rest
    · cases rest
    · cases rest
      exact .still rfl (Moves.deleteThread st t).keys

theorem Moves.run (ran : st.run n = some st') : Moves st st' [] := by
  obtain ⟨old, current, rest⟩ := Option.bind_eq_some_iff.mp ran
  obtain ⟨th, next, rest⟩ := Option.bind_eq_some_iff.mp rest
  have first : Moves st (st.setThread st.currentThread { old with pcState := .run }) [] :=
    .adjust current rfl
  have started : Moves (st.setThread st.currentThread { old with pcState := .run })
      ((st.setThread st.currentThread { old with pcState := .run }).setThread n
        { th with status := .running }) [] :=
    .adjust next rfl
  have second := first.trans started
  split at rest
  · cases rest
    exact .still second.ready second.keys
  · have third : Moves st { (st.setThread st.currentThread { old with pcState := .run }).setThread n
        { th with status := .running } with
          currentThread := n
          mode := .thread
          log := .resume n :: st.log } [] := .still second.ready second.keys
    exact third.trans (.destroy rest)

theorem Moves.sleepIn (slept : st.sleepIn q p = some st') : Moves st st' [] := by
  obtain ⟨th, current, rest⟩ := Option.bind_eq_some_iff.mp slept
  cases rest
  have changed : Moves st (st.setThread st.currentThread { th with status := .blocked, point := p })
    [] :=
    .adjust current rfl
  exact .still changed.ready changed.keys

theorem Moves.semP {andThen : State → Option State}
    (goesOn : ∀ v st', andThen (st.setValue s v) = some st' →
    Moves (st.setValue s v) st' []) (passed : st.semP s p andThen = some st') :
    Moves st st' [] := by
  unfold State.semP at passed
  split at passed
  · exact .sleepIn passed
  · have same : Moves st (st.setValue s (st.value s - 1)) [] := .congr rfl rfl
    exact same.trans (goesOn _ _ passed)

theorem Few.semV (raised : st.semV s = some st') : Few st st' := by
  obtain ⟨middle, woken, rest⟩ := Option.bind_eq_some_iff.mp raised
  cases rest
  exact (Few.wake woken).then (.congr rfl rfl)

theorem Moves.lockAcquire (acquired : st.lockAcquire l = some st') : Moves st st' [] := by
  unfold State.lockAcquire at acquired
  split at acquired
  · exact .sleepIn acquired
  · have same : Moves st (st.setLock l true (some st.currentThread)) [] := .congr rfl rfl
    exact same.trans (.goTo acquired)

theorem Few.lockRelease (freed : st.lockRelease l = some st') : Few st st' := by
  unfold State.lockRelease at freed
  split at freed
  · obtain ⟨middle, woken, rest⟩ := Option.bind_eq_some_iff.mp freed
    cases rest
    exact (Few.wake woken).then (.congr rfl rfl)
  · cases freed

theorem Few.conditionWait {c : Nat} (waited : st.conditionWait c l = some st') : Few st st' := by
  unfold State.conditionWait at waited
  split at waited
  · obtain ⟨middle, freed, slept⟩ := Option.bind_eq_some_iff.mp waited
    exact (Few.lockRelease freed).then (.sleepIn slept)
  · cases waited

theorem Few.fork (forked : st.fork t = some st') : Few st st' := by
  obtain ⟨th, object, rest⟩ := Option.bind_eq_some_iff.mp forked
  have same : Moves st (st.setThread t { th with pcState := .threadRoot, point := .body }) [] :=
    .adjust object rfl
  exact same.then ⟨[t], Nat.le_refl 1, .readyToRun rest⟩

theorem Moves.die (died : st.die = some st') : Moves st st' [] := by
  obtain ⟨th, current, rest⟩ := Option.bind_eq_some_iff.mp died
  cases rest
  have changed : Moves st
      (st.setThread st.currentThread { th with status := .blocked, point := .finished }) [] :=
    .adjust current rfl
  exact .still changed.ready changed.keys

theorem Few.finish (finished : st.finish = some st') : Few st st' := by
  obtain ⟨th, current, rest⟩ := Option.bind_eq_some_iff.mp finished
  split at rest
  · obtain ⟨middle, raised, passed⟩ := Option.bind_eq_some_iff.mp rest
    exact (Few.semV raised).then (.semP (fun _ _ died => .die died) passed)
  · exact (Moves.die rest).few

theorem Few.join (joined : st.join t = some st') : Few st st' := by
  obtain ⟨th, object, rest⟩ := Option.bind_eq_some_iff.mp joined
  split at rest
  · exact (Moves.semP (fun _ _ moved => .goTo moved) rest).few
  · cases rest

theorem Few.joinRest (joined : st.joinRest t = some st') : Few st st' := by
  obtain ⟨th, object, rest⟩ := Option.bind_eq_some_iff.mp joined
  obtain ⟨self, current, raised⟩ := Option.bind_eq_some_iff.mp rest
  have same : Moves st
      (st.setThread st.currentThread { self with exitStatus := th.exitStatus, point := .body })
    [] :=
    .adjust current rfl
  exact same.then (.semV raised)

theorem Few.proceed (proceeded : st.proceed = some st') : Few st st' := by
  obtain ⟨th, current, rest⟩ := Option.bind_eq_some_iff.mp proceeded
  split at rest
  · exact (Moves.semP (fun _ _ moved => .goTo moved) rest).few
  · exact (Moves.lockAcquire rest).few
  · exact (Moves.lockAcquire rest).few
  · obtain ⟨joined, -, rest⟩ := Option.bind_eq_some_iff.mp rest
    split at rest
    · exact (Moves.semP (fun _ _ moved => .goTo moved) rest).few
    · cases rest
  · exact .joinRest rest
  · exact (Moves.semP (fun _ _ died => .die died) rest).few
  · cases rest

theorem Few.yield (yielded : st.yield = some st') :
    Few { st with readyList := st.readyList.tail } st' := by
  unfold State.yield at yielded
  cases removed : remove st.readyList with
  | none =>
      rw [removed] at yielded
      cases yielded
      have empty : st.readyList = st.readyList.tail := by rw [remove_eq_none removed, List.tail_nil]
      have moves : Moves { st with readyList := st.readyList.tail } st [] := .congr empty rfl
      exact moves.few
  | some pair =>
      obtain ⟨n, rest⟩ := pair
      obtain ⟨key, head⟩ := remove_eq_some removed
      rw [removed] at yielded
      obtain ⟨middle, woken, ran⟩ := Option.bind_eq_some_iff.mp yielded
      have first : Few { st with readyList := rest } middle :=
        ⟨[_], Nat.le_refl 1, .readyToRun woken⟩
      rw [head, List.tail_cons]
      exact first.then (.run ran)

theorem Few.dispatch (dispatched : st.dispatch = some st') :
    Few { st with readyList := st.readyList.tail } st' := by
  obtain ⟨⟨n, rest⟩, removed, ran⟩ := Option.bind_eq_some_iff.mp dispatched
  obtain ⟨key, head⟩ := remove_eq_some removed
  rw [head, List.tail_cons]
  exact (Moves.run ran).few

/-- What an event does to the ready list and to priorities. -/
inductive Effect (st : State) : Event → State → Prop
  | create (joining : Bool) : Effect st (.create joining) (st.create joining)
  | setPriority {t : Nat} {th : Thread} (priority : Int) (object : st.threads t = some th) :
      Effect st (.setPriority t priority) (st.setThread t { th with key := priority })
  | broadcast {c l : Nat} {st' : State} (moves : Moves st st' (items (st.queues (.condition c)))) :
      Effect st (.broadcast c l) st'
  | few {e : Event} {st' : State} (other : broadcasts e = false)
      (few : Few { st with readyList := left st e } st') : Effect st e st'

/-- Two events touch priorities and no list, and of the others only `Broadcast` makes more than one
thread ready. -/
theorem step_effect {e : Event} (stepped : st.step e = some st') : Effect st e st' := by
  have inBody {e : Event} (stepped : (if st.inBody then st.call e else none) = some st') :
      st.call e = some st' :=
    (Option.ite_none_right_eq_some.mp stepped).2
  cases e with
  | create joining =>
      cases inBody stepped
      exact .create joining
  | setPriority t priority =>
      obtain ⟨th, object, rest⟩ := Option.bind_eq_some_iff.mp (inBody stepped)
      cases rest
      exact .setPriority priority object
  | setExitStatus status =>
      obtain ⟨th, current, rest⟩ := Option.bind_eq_some_iff.mp (inBody stepped)
      cases rest
      have changed : Moves st (st.setThread st.currentThread { th with exitStatus := some status })
        [] :=
        .adjust current rfl
      exact .few rfl changed.few
  | fork t =>
      have forked := inBody stepped
      simp only [State.call] at forked
      split at forked
      · exact .few rfl (.fork forked)
      · cases forked
  | p i =>
      have passed : st.semP (.other i) (.p (.other i)) (State.goTo · .body) = some st' :=
        inBody stepped
      have moves : Moves st st' [] := .semP (fun _ _ moved => .goTo moved) passed
      exact .few rfl moves.few
  | v i => exact .few rfl (.semV (inBody stepped))
  | acquire l =>
      have acquired := inBody stepped
      simp only [State.call] at acquired
      split at acquired
      · cases acquired
      · exact .few rfl (Moves.lockAcquire acquired).few
  | release l => exact .few rfl (.lockRelease (inBody stepped))
  | wait c l => exact .few rfl (.conditionWait (inBody stepped))
  | signal c l =>
      have signalled := inBody stepped
      simp only [State.call] at signalled
      split at signalled
      · exact .few rfl (.wake signalled)
      · cases signalled
  | broadcast c l =>
      have woken := inBody stepped
      simp only [State.call] at woken
      split at woken
      · have moves := Moves.wakeAll woken
        rw [List.take_of_length_le (by simp [items])] at moves
        exact .broadcast moves
      · cases woken
  | join t => exact .few rfl (.join (inBody stepped))
  | finish => exact .few rfl (.finish (inBody stepped))
  | proceed =>
      simp only [State.step] at stepped
      split at stepped
      · exact .few rfl (.proceed stepped)
      · cases stepped
  | interrupt i =>
      simp only [State.step] at stepped
      split at stepped
      · exact .few rfl (.semV stepped)
      · cases stepped
  | idle =>
      simp only [State.step] at stepped
      split at stepped
      · cases stepped
        have moves : Moves st { st with mode := .idle } [] := .congr rfl rfl
        exact .few rfl moves.few
      · cases stepped
  | yield =>
      simp only [State.step] at stepped
      split at stepped
      · exact .few rfl (.yield stepped)
      · cases stepped
  | dispatch =>
      simp only [State.step] at stepped
      split at stepped
      · cases stepped
      · exact .few rfl (.dispatch stepped)

end Made

/-! ## The observer -/

/-- The threads that become ready, in the order of the calls of `ReadyToRun`: `Broadcast` goes
through its queue, and every other event makes at most one thread ready. -/
def becameReady (st : State) (e : Event) (st' : State) : List Nat :=
  match e with
  | .broadcast c _ => items (st.queues (.condition c))
  | _ => (items st'.readyList).filter (· ∉ items (left st e))

/-- The threads in the ready list in the order in which they became ready, and those of them whose
priority was not the same all the time since. -/
structure Watch where
  arrived : List Nat
  changed : Nat → Bool

/-- What the observer sees of an event. -/
def Watch.after (w : Watch) (st : State) (e : Event) (st' : State) : Watch where
  arrived := w.arrived.filter (· ∈ items (left st e)) ++ becameReady st e st'
  changed t := t ∈ items (left st e) && (w.changed t || st'.getPriority t ≠ st.getPriority t)

/-- A run, and who looks at it. -/
structure Watched where
  st : State
  watch : Watch

def Watched.step (s : Watched) (e : Event) : Option Watched :=
  (s.st.step e).map fun st' => ⟨st', s.watch.after s.st e st'⟩

def Watched.boot (initialValue : Nat → Int) : Watched := ⟨.boot initialValue, [], fun _ => false⟩

/-- What `FindNextToRun` returns has the least priority of all that are ready. -/
def Least (s : Watched) (e : Event) : Prop :=
  ∀ n, taken s.st e = some n → ∀ t ∈ items s.st.readyList, s.st.getPriority n ≤ s.st.getPriority t

/-- When its priority never changed in the list, it is the first to have become ready of the threads
that have its priority and never had another in the list. -/
def InOrder (s : Watched) (e : Event) : Prop :=
  ∀ n, taken s.st e = some n → s.watch.changed n = false →
    s.watch.arrived.find? (fun t => !s.watch.changed t && s.st.getPriority t = s.st.getPriority n) =
      some n

/-- A thread in the ready list is given no other priority. -/
def Steady (s : Watched) : Event → Prop
  | .setPriority t priority => t ∈ items s.st.readyList → priority = s.st.getPriority t
  | _ => True

instance (s : Watched) : (e : Event) → Decidable (Steady s e)
  | .setPriority t priority => inferInstanceAs
    (Decidable (t ∈ items s.st.readyList → priority = s.st.getPriority t))
  | .create _ | .setExitStatus _ | .fork _ | .yield | .p _ | .v _ | .acquire _ | .release _ | .wait
      _ _ | .signal _ _
  | .broadcast _ _ | .join _ | .finish | .proceed | .interrupt _ | .idle | .dispatch =>
      isTrue trivial

/-- The ready list goes by the keys, and a key is the priority unless that has changed. -/
structure Known (s : Watched) : Prop where
  kept : Kept s.st
  arranged : ∃ keyed, items keyed = s.watch.arrived ∧ Arranged keyed s.st.readyList
  keys : ∀ e ∈ s.st.readyList, s.watch.changed e.item = false → e.key = s.st.getPriority e.item

section Known

variable {s s' : Watched} {st st' : State} {w : Watch} {made : List Nat} {e : Event} {n t : Nat}

theorem arranged_enqueue {keyed l : List (ListElement Nat)} (arranged : Arranged keyed l) :
    Arranged (keyed ++ made.map fun t => ⟨t, st.getPriority t⟩) (enqueue st made l) := by
  induction made generalizing keyed l with
  | nil => simpa [enqueue] using arranged
  | cons t made ih => simpa [enqueue] using ih (arranged.insert t (st.getPriority t))

theorem mem_enqueue {l : List (ListElement Nat)} {e : ListElement Nat} :
    e ∈ enqueue st made l ↔ e ∈ l ∨ e.item ∈ made ∧ e.key = st.getPriority e.item := by
  induction made generalizing l with
  | nil => simp [enqueue]
  | cons t made ih =>
      have first : e ∈ enqueue st (t :: made) l ↔
          e ∈ enqueue st made (sortedInsert t (st.getPriority t) l) := Iff.rfl
      rw [first, ih, sortedInsert_perm.mem_iff, List.mem_cons, List.mem_cons]
      constructor
      · rintro ((rfl | there) | ⟨there, key⟩)
        · exact .inr ⟨.inl rfl, rfl⟩
        · exact .inl there
        · exact .inr ⟨.inr there, key⟩
      · rintro (there | ⟨here | there, key⟩)
        · exact .inl (.inr there)
        · obtain ⟨item, key'⟩ := e
          obtain rfl : item = t := here
          exact .inl (.inl (congrArg (ListElement.mk item) key))
        · exact .inr ⟨there, key⟩

theorem mem_items_enqueue {l : List (ListElement Nat)} :
    t ∈ items (enqueue st made l) ↔ t ∈ items l ∨ t ∈ made := by
  induction made generalizing l with
  | nil => simp [enqueue]
  | cons u made ih =>
      have first : t ∈ items (enqueue st (u :: made) l) ↔
          t ∈ items (enqueue st made (sortedInsert u (st.getPriority u) l)) := Iff.rfl
      rw [first, ih, mem_items_sortedInsert, List.mem_cons]
      tauto

theorem left_sublist : (left st e).Sublist st.readyList := by
  cases e with
  | yield | dispatch => exact List.tail_sublist _
  | _ => exact List.Sublist.refl _

/-- What is left of the ready list is arranged as before. -/
theorem Known.leaves (known : Known s) (e : Event) :
    ∃ keyed, items keyed = s.watch.arrived.filter (· ∈ items (left s.st e)) ∧
      Arranged keyed (left s.st e) := by
  obtain ⟨keyed, same, arranged⟩ := known.arranged
  have taken {l : List (ListElement Nat)}
      (arranged : Arranged (keyed.filter fun f => f.item ∈ items l) l) :
      ∃ keyed, items keyed = s.watch.arrived.filter (· ∈ items l) ∧ Arranged keyed l := by
    refine ⟨_, ?_, arranged⟩
    simp [← same, items, List.filter_map, Function.comp_def]
  have all : Arranged (keyed.filter fun f => f.item ∈ items s.st.readyList) s.st.readyList := by
    rw [arranged.filter_self fun _ there => there]
    exact arranged
  have tail : Arranged (keyed.filter fun f => f.item ∈ items s.st.readyList.tail)
      s.st.readyList.tail := by
    cases full : s.st.readyList with
    | nil =>
        rw [full] at all
        exact all
    | cons head rest =>
        have once := known.kept.placed.readyOnce
        rw [full] at arranged once
        exact arranged.remove once
  cases e <;> first | exact taken tail | exact taken all

/-- The one thread that was put into the list is the one that was not there. -/
theorem Moves.becameReady (moves : Moves { st with readyList := left st e } st' made)
    (placed : Placed st')
    (other : broadcasts e = false) (short : made.length ≤ 1) : becameReady st e st' = made := by
  have once := placed.readyOnce
  have ready := moves.ready
  have appeared : (items st'.readyList).filter (· ∉ items (left st e)) = made := by
    match made, short with
    | [], _ =>
        rw [ready, enqueue, List.foldl_nil]
        exact List.filter_eq_nil_iff.mpr fun t there => by simpa using there
    | [t], _ =>
        rw [ready] at once ⊢
        exact filter_items_sortedInsert
          (List.nodup_cons.mp (items_sortedInsert_perm.nodup_iff.mp once)).1
  cases e with
  | broadcast c l => cases other
  | _ => exact appeared

/-- Who is in the list afterwards has the priority that it had before. -/
theorem Moves.queued (moves : Moves st st' made) (placed : Placed st')
    (there : t ∈ items st'.readyList) :
    st'.getPriority t = st.getPriority t := by
  obtain ⟨th, object, -⟩ := placed.ready t there
  exact moves.getPriority object

/-- **What an event does to the list is what the observer writes down.** -/
theorem Known.moved (known : Known s) (kept : Kept st')
    (ready : st'.readyList = enqueue s.st made (left s.st e))
    (same : ∀ t ∈ made, st'.getPriority t = s.st.getPriority t)
    (seen : becameReady s.st e st' = made) :
    Known ⟨st', s.watch.after s.st e st'⟩ := by
  refine ⟨kept, ?_, fun f there steady => ?_⟩
  · obtain ⟨keyed, arrived, arranged⟩ := known.leaves e
    refine ⟨_, ?_, ready ▸ arranged_enqueue arranged⟩
    change _ = s.watch.arrived.filter _ ++ _
    rw [seen, ← arrived]
    simp [items, Function.comp_def]
  · change f ∈ st'.readyList at there
    rw [ready, mem_enqueue] at there
    obtain there | ⟨there, key⟩ := there
    · have member : f.item ∈ items (left s.st e) := List.mem_map_of_mem there
      have before : s.watch.changed f.item = false ∧
          st'.getPriority f.item = s.st.getPriority f.item := by
        simpa [Watch.after, member] using steady
      rw [before.2]
      exact known.keys f (left_sublist.subset there) before.1
    · rw [key]
      exact (same f.item there).symm

/-- An event that makes no thread ready and takes none. -/
theorem Known.unmoved (known : Known s) (kept : Kept st') (ready : st'.readyList = s.st.readyList)
    (all : left s.st e = s.st.readyList) (other : broadcasts e = false) :
    Known ⟨st', s.watch.after s.st e st'⟩ := by
  have same : st'.readyList = enqueue s.st [] (left s.st e) := by
    rw [ready, all]
    rfl
  refine known.moved kept same nofun ?_
  have none : (items st'.readyList).filter (· ∉ items (left s.st e)) = [] := by simp [ready, all]
  cases e with
  | broadcast c l => cases other
  | _ => exact none

theorem Known.step (known : Known s) (stepped : s.step e = some s') : Known s' := by
  obtain ⟨st', moved, rfl⟩ := Option.map_eq_some_iff.mp stepped
  have kept : Kept st' := known.kept.step moved
  -- what was made ready is in the list, so that it still exists
  have same {made : List Nat} (moves : Moves { s.st with readyList := left s.st e } st' made) :
      ∀ t ∈ made, st'.getPriority t = s.st.getPriority t := fun t member =>
    moves.queued kept.placed (moves.ready ▸ mem_items_enqueue.mpr (.inr member))
  cases step_effect moved with
  | create joining => exact known.unmoved kept rfl rfl rfl
  | setPriority priority object => exact known.unmoved kept rfl rfl rfl
  | broadcast moves => exact known.moved kept moves.ready (same moves) rfl
  | few other few =>
      obtain ⟨made, short, moves⟩ := few
      exact known.moved kept moves.ready (same moves) (moves.becameReady kept.placed other short)

theorem taken_eq_some (first : taken st e = some n) :
    ∃ key rest, st.readyList = ⟨n, key⟩ :: rest := by
  have head (first : (remove st.readyList).map Prod.fst = some n) : ∃ key rest,
      st.readyList = ⟨n, key⟩ :: rest := by
    obtain ⟨⟨t, rest⟩, removed, rfl⟩ := Option.map_eq_some_iff.mp first
    obtain ⟨key, full⟩ := remove_eq_some removed
    exact ⟨key, rest, full⟩
  cases e with
  | yield | dispatch => exact head first
  | _ => cases first

/-- **Of the threads whose priority did not change in the list and that have the one of the thread
returned, this thread became ready first.** -/
theorem Known.inOrder (known : Known s) (e : Event) : InOrder s e := by
  intro n first steady
  obtain ⟨key, rest, full⟩ := taken_eq_some first
  obtain ⟨keyed, arrived, arranged⟩ := known.arranged
  have key_eq : key = s.st.getPriority n := known.keys ⟨n, key⟩ (by simp [full]) steady
  let wanted (f : ListElement Nat) : Bool :=
    !s.watch.changed f.item && s.st.getPriority f.item = s.st.getPriority n
  -- those that are asked for have the key of the first element
  have narrow : ∀ f ∈ keyed, wanted f = true → f.key = key := by
    intro f there asked
    obtain ⟨steady, same⟩ : s.watch.changed f.item = false ∧ s.st.getPriority f.item =
        s.st.getPriority n := by
      simpa [wanted] using asked
    rw [known.keys f (arranged.mem.mpr there) steady, same, key_eq]
  have found : keyed.find? wanted = some ⟨n, key⟩ := by
    have group : keyed.filter (fun f => f.key = key) = ⟨n, key⟩ :: rest.filter fun f =>
        f.key = key := by
      rw [← arranged.stable, full, List.filter_cons, if_pos (by simp)]
    have here : wanted ⟨n, key⟩ = true := by simp [wanted, steady]
    have both : keyed.filter wanted = (keyed.filter fun f => f.key = key).filter wanted := by
      rw [List.filter_filter]
      refine List.filter_congr fun f there => ?_
      by_cases asked : wanted f = true
      · simp [asked, narrow f there asked]
      · simp [asked]
    rw [← List.head?_filter, both, group, List.filter_cons, if_pos here]
    rfl
  rw [← arrived, items, List.find?_map]
  exact congrArg (Option.map ListElement.item) found

/-- **When nobody's priority changed in the list, the thread returned has the least.** -/
theorem Known.least (known : Known s) (fresh : ∀ t, s.watch.changed t = false) (e : Event) :
    Least s e := by
  intro n first t there
  obtain ⟨key, rest, full⟩ := taken_eq_some first
  obtain ⟨keyed, -, arranged⟩ := known.arranged
  obtain ⟨f, member, rfl⟩ := List.mem_map.mp there
  have head : key = s.st.getPriority n := known.keys ⟨n, key⟩ (by simp [full]) (fresh n)
  have sorted := arranged.sorted
  rw [full] at member sorted
  rw [← head, ← known.keys f (full ▸ member) (fresh f.item)]
  obtain rfl | later := List.mem_cons.mp member
  · exact Int.le_refl key
  · exact (List.pairwise_cons.mp sorted).1 f later

theorem Known.start (initialValue : Nat → Int) : Known (.boot initialValue) :=
  ⟨boot_kept initialValue, ⟨[], rfl, arranged_nil⟩, nofun⟩

/-- A steady event changes the priority of no thread that stays in the list. -/
theorem Known.priority_kept (known : Known s) (steady : Steady s e) (moved : s.st.step e = some st')
    (there : t ∈ items (left s.st e)) : st'.getPriority t = s.st.getPriority t := by
  have placed := (known.kept.step moved).placed
  have same {made : List Nat} (moves : Moves { s.st with readyList := left s.st e } st' made) :
      st'.getPriority t = s.st.getPriority t :=
    moves.queued placed (moves.ready ▸ mem_items_enqueue.mpr (.inl there))
  cases step_effect moved with
  | create joining =>
      -- the thread made is not one that is in the list
      obtain ⟨th, object, -⟩ := known.kept.placed.ready t there
      have differ : t ≠ s.st.next := Nat.ne_of_lt (known.kept.placed.created t th object)
      exact getPriority_congr (State.setThread_threads_of_ne _ _ _ differ)
  | @setPriority u th priority object =>
      by_cases here : t = u
      · subst here
        rw [getPriority_eq (State.setThread_threads_self _ _ _)]
        exact steady there
      · exact getPriority_congr (State.setThread_threads_of_ne _ _ _ here)
  | broadcast moves => exact same moves
  | few other few =>
      obtain ⟨made, -, moves⟩ := few
      exact same moves

end Known

/-! ## Runs -/

/-- Nobody's priority has changed in the list. -/
structure Fresh (s : Watched) : Prop where
  known : Known s
  fresh : ∀ t, s.watch.changed t = false

theorem Fresh.step {s s' : Watched} {e : Event} (fresh : Fresh s) (steady : Steady s e)
    (stepped : s.step e = some s') :
    Fresh s' := by
  refine ⟨fresh.known.step stepped, fun t => ?_⟩
  obtain ⟨st', moved, rfl⟩ := Option.map_eq_some_iff.mp stepped
  by_cases there : t ∈ items (left s.st e)
  · simp [Watch.after, fresh.fresh t, fresh.known.priority_kept steady moved there]
  · simp [Watch.after, there]

/-- **The order of arrival decides among equal priorities, in every run.** -/
theorem equal_priorities_in_order (initialValue : Nat → Int) (events : List Event) :
    AllSteps Watched.step InOrder (.boot initialValue) events := by
  refine allSteps_of_invariant (I := Known) ?_ ?_ (Known.start initialValue)
    (allSteps_true _ events)
  · exact fun s e s' known _ stepped => known.step stepped
  · exact fun s e known _ => known.inOrder e

/-- What `FindNextToRun` is for, in one event. -/
structure Honoured (s : Watched) (e : Event) : Prop where
  least : Least s e
  inOrder : InOrder s e

/-- **The scheduler honours current priorities while queued threads keep theirs.**  In every run
in which a thread in the ready list is only ever given the priority it has, what `FindNextToRun`
returns has the least priority of all that are ready, and is the first to have become ready of
those that have it. -/
theorem current_priorities_honoured (initialValue : Nat → Int) (events : List Event)
    (steady : AllSteps Watched.step Steady (.boot initialValue) events) :
    AllSteps Watched.step Honoured (.boot initialValue) events := by
  have start : Fresh (.boot initialValue) := ⟨Known.start initialValue, fun _ => rfl⟩
  refine allSteps_of_invariant (I := Fresh) ?_ ?_ start steady
  · exact fun s e s' fresh steady stepped => fresh.step steady stepped
  · exact fun s e fresh _ => ⟨fresh.known.least fresh.fresh e, fresh.known.inOrder e⟩

/-- Two threads are forked with the priorities 5 and 3; then the main thread yields to the second.
-/
theorem current_priorities_honoured_two :
    AllSteps Watched.step Honoured (.boot fun _ => 0)
      [.create false, .setPriority 1 5, .fork 1, .create false, .setPriority 2 3,
        .fork 2, .yield] :=
  current_priorities_honoured (fun _ => 0)
    [.create false, .setPriority 1 5, .fork 1, .create false, .setPriority 2 3, .fork 2, .yield]
      (by decide)

/-- Then the main thread gives the first of them, which is in the ready list with key 5, the
priority 1 and yields.  It yields to the other one, whose priority is 3. -/
theorem stale_key_dispatched :
    ∃ s, exec Watched.step (.boot fun _ => 0)
        [.create false, .setPriority 1 5, .fork 1, .create false, .setPriority 2 3, .fork 2,
          .setPriority 1 1] = some s ∧
      taken s.st .yield = some 2 ∧ (s.step .yield).isSome ∧
      1 ∈ items s.st.readyList ∧ s.st.getPriority 1 = 1 ∧ s.st.getPriority 2 = 3 ∧
      ¬ Honoured s .yield := by
  refine ⟨_, rfl, rfl, rfl, by decide, rfl, rfl, fun honoured => ?_⟩
  exact absurd (honoured.least 2 rfl 1 (by decide)) (by decide)

end Priority

end Nachos.Threads
