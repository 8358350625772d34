/-
# Nachos.Threads.Scheduler -- who deletes a finished thread

`Finish` leaves its thread in `threadToBeDestroyed`, and the next thread that comes back
from `SWITCH` deletes it.  A thread that is dispatched for the first time starts in
`ThreadRoot` and never runs that code.  When it finishes before a resumed thread was
dispatched it overwrites the record, and the thread that stood there is never deleted.

`Placed` is the invariant of the lists: what is in the ready list is ready, what is in a
wait queue is blocked at that queue, and both hold a thread at most once.  So a finished
thread is never made ready again and finishes once (`Books`), and the log has the shape
`Logged`, in which reclaiming can be decided by looking at dispatches alone.
-/
import Nachos.Lib.Run
import Nachos.Threads.Thread
import Mathlib.Data.List.Count

namespace Nachos.Threads

open Nachos.Lib.Run

set_option autoImplicit false

/-! ## The log -/

/-- The last thread to finish since a thread was last resumed. -/
def recorded : List Record → Option Nat
  | [] => none
  | .finish t _ :: _ => some t
  | .resume _ :: _ => none
  | .delete _ :: _ => none
  | .first _ :: l => recorded l

/-- The logs the kernel writes: a resumed thread deletes what is recorded, and a thread
finishes once. -/
inductive Logged : List Record → Prop where
  | nil : Logged []
  | first {l : List Record} (t : Nat) : Logged l → Logged (.first t :: l)
  | resume {l : List Record} (t : Nat) : Logged l → recorded l = none → Logged (.resume t :: l)
  | delete {l : List Record} (t u : Nat) : Logged l → recorded l = some u →
      Logged (.delete u :: .resume t :: l)
  | finish {l : List Record} (t : Nat) : Logged l → (∀ found, .finish t found ∉ l) →
      Logged (.finish t (recorded l) :: l)

/-- Whenever `threadToBeDestroyed = currentThread` was executed, nothing stood there. -/
def Vacant (log : List Record) : Prop := ∀ t found, .finish t found ∈ log → found = none

/-- Between two threads that finish, one after the other, some thread is resumed: it is
dispatched and had run before. -/
def Spaced (log : List Record) : Prop :=
  ∀ (after between before : List Record) (t u : Nat) (found found' : Option Nat),
    log = after ++ .finish t found :: (between ++ .finish u found' :: before) →
    ∃ w, .resume w ∈ between

section Log

variable {l : List Record} {t u : Nat}

theorem Logged.recorded_finish (logged : Logged l) (last : recorded l = some u) :
    ∃ found, .finish u found ∈ l := by
  induction logged with
  | nil => cases last
  | first t _ ih =>
      obtain ⟨found, there⟩ := ih last
      exact ⟨found, List.mem_cons_of_mem _ there⟩
  | resume => cases last
  | delete => cases last
  | finish t _ _ _ =>
      cases last
      exact ⟨_, List.mem_cons_self⟩

theorem Logged.deleted_finish (logged : Logged l) (gone : .delete u ∈ l) :
    ∃ found, .finish u found ∈ l := by
  induction logged with
  | nil => cases gone
  | first t _ ih =>
      obtain ⟨found, there⟩ := ih (by simpa using gone)
      exact ⟨found, by simp [there]⟩
  | resume t _ _ ih =>
      obtain ⟨found, there⟩ := ih (by simpa using gone)
      exact ⟨found, by simp [there]⟩
  | delete t v logged last ih =>
      obtain same | earlier : u = v ∨ Record.delete u ∈ _ := by simpa using gone
      · obtain ⟨found, there⟩ := logged.recorded_finish last
        exact ⟨found, by simp [same, there]⟩
      · obtain ⟨found, there⟩ := ih earlier
        exact ⟨found, by simp [there]⟩
  | finish t _ _ ih =>
      obtain ⟨found, there⟩ := ih (by simpa using gone)
      exact ⟨found, by simp [there]⟩

/-- What is recorded is the thread that finished last, and none was resumed since. -/
theorem Logged.recorded_split (logged : Logged l) (last : recorded l = some u) :
    ∃ between before found, l = between ++ .finish u found :: before ∧
      ∀ w, .resume w ∉ between := by
  induction logged with
  | nil => cases last
  | first t _ ih =>
      obtain ⟨between, before, found, rfl, none⟩ := ih last
      exact ⟨.first t :: between, before, found, rfl, by simpa using none⟩
  | resume => cases last
  | delete => cases last
  | @finish l t _ _ _ =>
      cases last
      exact ⟨[], l, _, rfl, by simp⟩

/-- When nothing is recorded, some thread was resumed since the last one finished. -/
theorem Logged.recorded_none (logged : Logged l) (last : recorded l = none)
    {between before : List Record} {found : Option Nat}
    (split : l = between ++ .finish u found :: before) : ∃ w, .resume w ∈ between := by
  induction logged generalizing between with
  | nil => simp at split
  | first t _ ih =>
      cases between with
      | nil => cases split
      | cons r between =>
          obtain ⟨w, there⟩ := ih last (List.cons.inj split).2
          exact ⟨w, List.mem_cons_of_mem _ there⟩
  | resume t _ _ _ =>
      cases between with
      | nil => cases split
      | cons r between =>
          obtain ⟨rfl, -⟩ := List.cons.inj split
          exact ⟨t, List.mem_cons_self⟩
  | delete t v _ _ _ =>
      match between, split with
      | r :: s :: between, split =>
          obtain ⟨rfl, rfl, -⟩ : _ ∧ _ ∧ _ := by simpa using split
          exact ⟨t, by simp⟩
  | finish => cases last

theorem Spaced.tail {r : Record} (spaced : Spaced (r :: l)) : Spaced l := by
  intro after between before t u found found' split
  exact spaced (r :: after) between before t u found found' (by rw [split]; rfl)

/-- A newest entry that is no `finish` does not change whether the log is spaced. -/
theorem Spaced.cons {r : Record} (other : ∀ t found, r ≠ .finish t found) (spaced : Spaced l) :
    Spaced (r :: l) := by
  intro after between before t u found found' split
  cases after with
  | nil => exact absurd (List.cons.inj split).1 (other t found)
  | cons s after => exact spaced after between before t u found found' (List.cons.inj split).2

theorem vacant_cons {r : Record} (other : ∀ t found, r ≠ .finish t found) :
    Vacant (r :: l) ↔ Vacant l := by
  constructor
  · intro vacant t found there
    exact vacant t found (List.mem_cons_of_mem _ there)
  · intro vacant t found there
    obtain rfl | there := List.mem_cons.mp there
    · exact absurd rfl (other t found)
    · exact vacant t found there

/-- **Nothing is ever overwritten exactly when the finishing threads are spaced.** -/
theorem Logged.vacant_iff (logged : Logged l) : Vacant l ↔ Spaced l := by
  induction logged with
  | nil =>
      refine ⟨fun _ => ?_, fun _ t found there => by cases there⟩
      intro after between before t u found found' split
      simp at split
  | first t _ ih =>
      rw [vacant_cons (by simp), ih]
      exact ⟨Spaced.cons (by simp), Spaced.tail⟩
  | resume t _ _ ih =>
      rw [vacant_cons (by simp), ih]
      exact ⟨Spaced.cons (by simp), Spaced.tail⟩
  | delete t u _ _ ih =>
      rw [vacant_cons (by simp), vacant_cons (by simp), ih]
      exact ⟨fun spaced => Spaced.cons (by simp) (Spaced.cons (by simp) spaced),
        fun spaced => spaced.tail.tail⟩
  | @finish l t logged once ih =>
      constructor
      · intro vacant after between before v u found found' split
        cases after with
        | cons s after =>
            have earlier : Vacant l := fun v found there =>
              vacant v found (List.mem_cons_of_mem _ there)
            exact ih.mp earlier after between before v u found found' (List.cons.inj split).2
        | nil =>
            exact logged.recorded_none (vacant t _ List.mem_cons_self) (List.cons.inj split).2
      · intro spaced v found there
        obtain newest | earlier := List.mem_cons.mp there
        · cases newest
          cases last : recorded l with
          | none => rfl
          | some u =>
              obtain ⟨between, before, found', split, none⟩ := logged.recorded_split last
              obtain ⟨w, there⟩ := spaced [] between before t u _ found' (by rw [← split]; rfl)
              exact absurd there (none w)
        · exact ih.mpr spaced.tail v found earlier

/-- Where nothing is overwritten, a finished thread is recorded, or was deleted once. -/
theorem Logged.deleted_once (logged : Logged l) (vacant : Vacant l) {found : Option Nat}
    (finished : .finish t found ∈ l) :
    (l.count (.delete t) = 1 ∧ recorded l ≠ some t) ∨
      (l.count (.delete t) = 0 ∧ recorded l = some t) := by
  induction logged with
  | nil => cases finished
  | first u _ ih =>
      have := ih ((vacant_cons (by simp)).mp vacant) (by simpa using finished)
      simpa [recorded] using this
  | @resume l u _ last ih =>
      obtain ⟨once, -⟩ | ⟨-, still⟩ :=
        ih ((vacant_cons (by simp)).mp vacant) (by simpa using finished)
      · left
        simpa [recorded] using once
      · rw [last] at still
        cases still
  | @delete l u v logged last ih =>
      left
      obtain ⟨once, other⟩ | ⟨never, still⟩ :=
        ih ((vacant_cons (by simp)).mp ((vacant_cons (by simp)).mp vacant))
          (by simpa using finished)
      · have differ : v ≠ t := by
          rintro rfl
          exact other last
        simpa [recorded, List.count_cons, differ] using once
      · obtain rfl : v = t := Option.some.inj (last.symm.trans still)
        simpa [recorded, List.count_cons] using never
  | @finish l u logged once ih =>
      have empty : recorded l = none := vacant u _ List.mem_cons_self
      have earlier : Vacant l := fun v found there => vacant v found (List.mem_cons_of_mem _ there)
      obtain same | before := List.mem_cons.mp finished
      · right
        cases same
        have kept : .delete t ∉ l := fun gone =>
          let ⟨found, there⟩ := logged.deleted_finish gone
          once found there
        simp [recorded, List.count_eq_zero.mpr kept]
      · left
        have differ : u ≠ t := by
          rintro rfl
          exact once _ before
        obtain ⟨count, -⟩ | ⟨-, still⟩ := ih earlier before
        · simpa [recorded, List.count_cons, differ] using count
        · rw [empty] at still
          cases still

end Log

/-! ## Where threads are -/

/-- What the lists hold.  A finished thread is in none of them. -/
structure Placed (st : State) : Prop where
  ready : ∀ t, t ∈ items st.readyList → ∃ th, st.threads t = some th ∧ th.status = .ready
  readyOnce : (items st.readyList).Nodup
  queued : ∀ q t, t ∈ items (st.queues q) →
    ∃ th, st.threads t = some th ∧ th.status = .blocked ∧ th.point.queue t = some q
  queuedOnce : ∀ q, (items (st.queues q)).Nodup
  dead : ∀ t th, st.threads t = some th → th.point = .finished → th.status = .blocked
  created : ∀ t th, st.threads t = some th → t < st.next

/-- The current thread, when it is not asleep. -/
def Awake (st : State) : Prop :=
  st.mode = .thread → ∃ th, st.threads st.currentThread = some th ∧ th.status = .running

/-- The log tells what is recorded, and which threads have finished. -/
structure Books (st : State) : Prop where
  logged : Logged st.log
  record : st.threadToBeDestroyed = recorded st.log
  finished : ∀ t found, .finish t found ∈ st.log →
    t < st.next ∧ ∀ th, st.threads t = some th → th.point = .finished

structure Kept (st : State) : Prop where
  placed : Placed st
  awake : Awake st
  books : Books st

/-- The current thread is running. -/
structure Runs (st : State) (th : Thread) : Prop where
  kept : Kept st
  mode : st.mode = .thread
  current : st.threads st.currentThread = some th
  status : th.status = .running

section Placement

variable {st st' : State} {t n : Nat} {th th' : Thread} {q : Queue} {p : Point}

theorem Kept.runs (kept : Kept st) (mode : st.mode = .thread) : ∃ th, Runs st th := by
  obtain ⟨th, current, status⟩ := kept.awake mode
  exact ⟨th, kept, mode, current, status⟩

theorem Placed.notReady (placed : Placed st) (object : st.threads t = some th)
    (other : th.status ≠ .ready) : t ∉ items st.readyList := by
  intro there
  obtain ⟨th', found, status⟩ := placed.ready t there
  rw [object] at found
  cases found
  exact other status

theorem Placed.notQueued (placed : Placed st) (object : st.threads t = some th)
    (other : th.status ≠ .blocked ∨ th.point = .finished) : t ∉ items (st.queues q) := by
  intro there
  obtain ⟨th', found, status, point⟩ := placed.queued q t there
  rw [object] at found
  cases found
  obtain other | finished := other
  · exact other status
  · rw [finished] at point
    cases point

theorem Placed.notFinished (placed : Placed st) (object : st.threads t = some th)
    (other : th.status ≠ .blocked) : th.point ≠ .finished := by
  intro finished
  exact other (placed.dead t th object finished)

/-- The other fields of the state say nothing about places, or about the books. -/
theorem Placed.congr (placed : Placed st) (threads : st'.threads = st.threads)
    (next : st'.next = st.next) (readyList : st'.readyList = st.readyList)
    (queues : st'.queues = st.queues) : Placed st' := by
  constructor
  · rw [readyList, threads]
    exact placed.ready
  · rw [readyList]
    exact placed.readyOnce
  · rw [queues, threads]
    exact placed.queued
  · rw [queues]
    exact placed.queuedOnce
  · rw [threads]
    exact placed.dead
  · rw [threads, next]
    exact placed.created

theorem Books.congr (books : Books st) (threads : st'.threads = st.threads)
    (next : st'.next = st.next) (record : st'.threadToBeDestroyed = st.threadToBeDestroyed)
    (log : st'.log = st.log) : Books st' := by
  constructor
  · rw [log]
    exact books.logged
  · rw [record, log]
    exact books.record
  · rw [log, threads, next]
    exact books.finished

/-- A thread object may change as long as its lists say the same of it. -/
theorem Placed.setThread (placed : Placed st) (created : t < st.next)
    (ready : t ∈ items st.readyList → th'.status = .ready)
    (queued : ∀ q, t ∈ items (st.queues q) → th'.status = .blocked ∧ th'.point.queue t = some q)
    (dead : th'.point = .finished → th'.status = .blocked) : Placed (st.setThread t th') := by
  refine ⟨?_, placed.readyOnce, ?_, placed.queuedOnce, ?_, ?_⟩
  · intro u there
    by_cases same : u = t
    · subst same
      exact ⟨th', by simp, ready there⟩
    · obtain ⟨th, object, status⟩ := placed.ready u there
      exact ⟨th, by simpa [State.setThread_threads_of_ne, same] using object, status⟩
  · intro q u there
    by_cases same : u = t
    · subst same
      exact ⟨th', by simp, queued q there⟩
    · obtain ⟨th, object, rest⟩ := placed.queued q u there
      exact ⟨th, by simpa [State.setThread_threads_of_ne, same] using object, rest⟩
  · intro u th object finished
    by_cases same : u = t
    · subst same
      obtain rfl : th' = th := by simpa using object
      exact dead finished
    · exact placed.dead u th (by simpa [State.setThread_threads_of_ne, same] using object) finished
  · intro u th object
    by_cases same : u = t
    · exact same ▸ created
    · exact placed.created u th (by simpa [State.setThread_threads_of_ne, same] using object)

theorem Books.setThread (books : Books st) (object : st.threads t = some th)
    (finished : th.point = .finished → th'.point = .finished) : Books (st.setThread t th') := by
  refine ⟨books.logged, books.record, ?_⟩
  intro u found there
  obtain ⟨created, point⟩ := books.finished u found there
  refine ⟨created, fun th'' object' => ?_⟩
  by_cases same : u = t
  · subst same
    obtain rfl : th' = th'' := by simpa using object'
    exact finished (point th object)
  · exact point th'' (by simpa [State.setThread_threads_of_ne, same] using object')

/-- The other fields of a thread say nothing about its place. -/
theorem Placed.adjust (placed : Placed st) (object : st.threads t = some th)
    (status : th'.status = th.status) (point : th'.point = th.point) :
    Placed (st.setThread t th') := by
  refine placed.setThread (placed.created t th object) ?_ ?_ ?_
  · intro there
    obtain ⟨_, found, ready⟩ := placed.ready t there
    rw [object] at found
    cases found
    rw [status, ready]
  · intro q there
    obtain ⟨_, found, queued⟩ := placed.queued q t there
    rw [object] at found
    cases found
    rw [status, point]
    exact queued
  · rw [status, point]
    exact placed.dead t th object

theorem Kept.adjust (kept : Kept st) (object : st.threads t = some th)
    (status : th'.status = th.status) (point : th'.point = th.point) :
    Kept (st.setThread t th') := by
  refine ⟨kept.placed.adjust object status point, ?_,
    kept.books.setThread object (by rw [point]; exact id)⟩
  · intro mode
    obtain ⟨th'', current, running⟩ := kept.awake mode
    by_cases same : st.currentThread = t
    · rw [same, object] at current
      cases current
      exact ⟨th', by simp [same], by rw [status, running]⟩
    · exact ⟨th'', by simpa [State.setThread_threads_of_ne, same] using current, running⟩

theorem Runs.adjust (runs : Runs st th) (status : th'.status = .running)
    (live : th'.point ≠ .finished) :
    Runs (st.setThread st.currentThread th') th' := by
  have placed := runs.kept.placed
  have busy : th.status ≠ .ready ∧ th.status ≠ .blocked := by simp [runs.status]
  refine ⟨⟨?_, ?_, ?_⟩, runs.mode, by simp, status⟩
  · refine placed.setThread (placed.created _ th runs.current) ?_ ?_ (fun dead => absurd dead live)
    · exact fun there => absurd there (placed.notReady runs.current busy.1)
    · exact fun q there => absurd there (placed.notQueued runs.current (.inl busy.2))
  · exact fun _ => ⟨th', by simp, status⟩
  · exact runs.kept.books.setThread runs.current
      fun dead => absurd dead (placed.notFinished runs.current busy.2)

theorem Runs.goTo (runs : Runs st th) (live : p ≠ .finished) (moved : st.goTo p = some st') :
    ∃ th', Runs st' th' := by
  simp only [State.goTo, runs.current] at moved
  cases moved
  exact ⟨_, runs.adjust runs.status live⟩

theorem Kept.setValue (kept : Kept st) (s : Sem) (v : Int) : Kept (st.setValue s v) :=
  ⟨kept.placed.congr rfl rfl rfl rfl, kept.awake, kept.books.congr rfl rfl rfl rfl⟩

theorem Kept.setLock (kept : Kept st) (l : Nat) (held : Bool) (by' : Option Nat) :
    Kept (st.setLock l held by') :=
  ⟨kept.placed.congr rfl rfl rfl rfl, kept.awake, kept.books.congr rfl rfl rfl rfl⟩

theorem Runs.setValue (runs : Runs st th) (s : Sem) (v : Int) : Runs (st.setValue s v) th :=
  ⟨runs.kept.setValue s v, runs.mode, runs.current, runs.status⟩

theorem Runs.setLock (runs : Runs st th) (l : Nat) (held : Bool) (by' : Option Nat) :
    Runs (st.setLock l held by') th :=
  ⟨runs.kept.setLock l held by', runs.mode, runs.current, runs.status⟩

theorem readyToRun_eq_some (woken : st.readyToRun t = some st') :
    ∃ th, st.threads t = some th ∧ st' = { st.setThread t { th with status := .ready } with
      readyList := sortedInsert t th.key st.readyList } := by
  cases object : st.threads t with
  | none => simp [State.readyToRun, object] at woken
  | some th =>
      simp only [State.readyToRun, object] at woken
      exact ⟨th, rfl, (Option.some.inj woken).symm⟩

/-- A thread that is in no list can be made ready, unless it has finished. -/
theorem Placed.readyToRun (placed : Placed st) (object : st.threads t = some th)
    (absent : t ∉ items st.readyList) (unqueued : ∀ q, t ∉ items (st.queues q))
    (live : th.point ≠ .finished) (woken : st.readyToRun t = some st') : Placed st' := by
  obtain ⟨_, found, rfl⟩ := readyToRun_eq_some woken
  rw [object] at found
  cases found
  have changed : Placed (st.setThread t { th with status := .ready }) :=
    placed.setThread (placed.created t th object) (fun there => absurd there absent)
      (fun q there => absurd there (unqueued q)) (fun dead => absurd dead live)
  refine ⟨?_, ?_, changed.queued, changed.queuedOnce, changed.dead, changed.created⟩
  · intro u there
    obtain rfl | there := mem_items_sortedInsert.mp there
    · exact ⟨{ th with status := .ready }, by simp, rfl⟩
    · exact changed.ready u there
  · exact items_sortedInsert_perm.nodup_iff.mpr (List.nodup_cons.mpr ⟨absent, placed.readyOnce⟩)

theorem Books.readyToRun (books : Books st) (woken : st.readyToRun t = some st') : Books st' := by
  obtain ⟨th, object, rfl⟩ := readyToRun_eq_some woken
  have changed : Books (st.setThread t { th with status := .ready }) := books.setThread object id
  exact changed.congr rfl rfl rfl rfl

/-- A queue may lose its head. -/
theorem Placed.setQueue (placed : Placed st) {l : List (ListElement Nat)}
    (sub : (items l).Sublist (items (st.queues q))) : Placed (st.setQueue q l) := by
  refine ⟨placed.ready, placed.readyOnce, ?_, ?_, placed.dead, placed.created⟩
  · intro r u there
    by_cases same : r = q
    · subst same
      exact placed.queued r u (sub.subset (by simpa using there))
    · exact placed.queued r u (by simpa [State.setQueue_queues_of_ne, same] using there)
  · intro r
    by_cases same : r = q
    · subst same
      simpa using sub.nodup (placed.queuedOnce r)
    · simpa [State.setQueue_queues_of_ne, same] using placed.queuedOnce r

/-- What waking a queue does: nothing, or its first thread becomes ready. -/
theorem wake_cases (woken : st.wake q = some st') :
    st' = st ∨ ∃ t rest key, st.queues q = ⟨t, key⟩ :: rest ∧
      (st.setQueue q rest).readyToRun t = some st' := by
  unfold State.wake at woken
  cases removed : remove (st.queues q) with
  | none =>
      rw [removed] at woken
      exact .inl (Option.some.inj woken).symm
  | some pair =>
      obtain ⟨t, rest⟩ := pair
      rw [removed] at woken
      obtain ⟨key, head⟩ := remove_eq_some removed
      exact .inr ⟨t, rest, key, head, woken⟩

/-- What `V` does: it wakes a thread, if one waits, and counts. -/
theorem semV_eq_some {s : Sem} (raised : st.semV s = some st') :
    ∃ mid, st.wake (.semaphore s) = some mid ∧ st' = mid.setValue s (mid.value s + 1) := by
  obtain ⟨mid, woken, counted⟩ := Option.bind_eq_some_iff.mp raised
  exact ⟨mid, woken, (Option.some.inj counted).symm⟩

/-- What `Release` does: it wakes a thread, if one waits, and the lock is free. -/
theorem lockRelease_eq_some {l : Nat} (freed : st.lockRelease l = some st') :
    ∃ mid, st.wake (.lock l) = some mid ∧ st' = mid.setLock l false none := by
  unfold State.lockRelease at freed
  split at freed
  · obtain ⟨mid, woken, free⟩ := Option.bind_eq_some_iff.mp freed
    exact ⟨mid, woken, (Option.some.inj free).symm⟩
  · cases freed

theorem Kept.wake (kept : Kept st) (woken : st.wake q = some st') : Kept st' := by
  obtain rfl | ⟨t, rest, key, head, woken⟩ := wake_cases woken
  · exact kept
  · have member : t ∈ items (st.queues q) := by simp [head, items]
    have once : t ∉ items rest := by
      have := kept.placed.queuedOnce q
      rw [head] at this
      exact (List.nodup_cons.mp this).1
    obtain ⟨th, object, blocked, point⟩ := kept.placed.queued q t member
    have shorter : Placed (st.setQueue q rest) := by
      refine kept.placed.setQueue ?_
      rw [head]
      exact List.sublist_cons_self _ _
    refine ⟨shorter.readyToRun object ?_ ?_ ?_ woken, ?_, ?_⟩
    · exact kept.placed.notReady object (by simp [blocked])
    · intro r there
      by_cases same : r = q
      · subst same
        exact once (by simpa using there)
      · obtain ⟨_, found, -, elsewhere⟩ :=
          kept.placed.queued r t (by simpa [State.setQueue_queues_of_ne, same] using there)
        rw [object] at found
        cases found
        rw [point] at elsewhere
        exact same (Option.some.inj elsewhere).symm
    · intro dead
      rw [dead] at point
      cases point
    · intro mode
      obtain ⟨_, -, rfl⟩ := readyToRun_eq_some woken
      obtain ⟨th', current, running⟩ := kept.awake mode
      have other : st.currentThread ≠ t := by
        intro same
        rw [same, object] at current
        cases current
        rw [blocked] at running
        cases running
      exact ⟨th', by simpa [State.setThread_threads_of_ne, other] using current, running⟩
    · have books : Books (st.setQueue q rest) := kept.books.congr rfl rfl rfl rfl
      exact books.readyToRun woken

theorem wake_frame (woken : st.wake q = some st') :
    st'.mode = st.mode ∧ st'.currentThread = st.currentThread := by
  obtain rfl | ⟨t, rest, key, -, woken⟩ := wake_cases woken
  · exact ⟨rfl, rfl⟩
  · obtain ⟨_, -, rfl⟩ := readyToRun_eq_some woken
    exact ⟨rfl, rfl⟩

theorem Runs.wake (runs : Runs st th) (woken : st.wake q = some st') : ∃ th', Runs st' th' :=
  (runs.kept.wake woken).runs ((wake_frame woken).1.trans runs.mode)

theorem Kept.wakeAll {n : Nat} (kept : Kept st) (woken : State.wakeAll q n st = some st') :
    Kept st' := by
  induction n generalizing st with
  | zero =>
      cases woken
      exact kept
  | succ n ih =>
      obtain ⟨middle, first, rest⟩ := Option.bind_eq_some_iff.mp woken
      exact ih (kept.wake first) rest

/-- The current thread goes to sleep in the queue of its new point. -/
theorem Runs.sleepIn (runs : Runs st th) (waits : p.queue st.currentThread = some q)
    (slept : st.sleepIn q p = some st') : Kept st' := by
  simp only [State.sleepIn, runs.current] at slept
  cases slept
  have placed := runs.kept.placed
  have live : p ≠ .finished := by
    rintro rfl
    cases waits
  have unqueued : ∀ q, st.currentThread ∉ items (st.queues q) := fun q =>
    placed.notQueued runs.current (.inl (by simp [runs.status]))
  have changed : Placed
      (st.setThread st.currentThread { th with status := .blocked, point := p }) :=
    placed.setThread (placed.created _ th runs.current)
      (fun there => absurd there (placed.notReady runs.current (by simp [runs.status])))
      (fun q there => absurd there (unqueued q)) (fun dead => absurd dead live)
  have books : Books (st.setThread st.currentThread { th with status := .blocked, point := p }) :=
    runs.kept.books.setThread runs.current
      fun dead => absurd dead (placed.notFinished runs.current (by simp [runs.status]))
  refine ⟨⟨changed.ready, changed.readyOnce, ?_, ?_, changed.dead, changed.created⟩, nofun,
    books.congr rfl rfl rfl rfl⟩
  · intro r u there
    by_cases same : r = q
    · subst same
      obtain rfl | there : u = st.currentThread ∨ u ∈ items (st.queues r) := by
        simpa using there
      · exact ⟨{ th with status := .blocked, point := p }, by simp,
          rfl, waits⟩
      · exact changed.queued r u there
    · exact changed.queued r u (by simpa [State.setQueue_queues_of_ne, same] using there)
  · intro r
    by_cases same : r = q
    · subst same
      have once := List.nodup_cons.mpr ⟨unqueued r, placed.queuedOnce r⟩
      simpa using items_sortedInsert_perm.nodup_iff.mpr once
    · simpa [State.setQueue_queues_of_ne, same] using placed.queuedOnce r

theorem Runs.semP {s : Sem} {andThen : State → Option State} (runs : Runs st th)
    (waits : p.queue st.currentThread = some (.semaphore s))
    (goesOn : ∀ v st', andThen (st.setValue s v) = some st' → Kept st')
    (passed : st.semP s p andThen = some st') : Kept st' := by
  unfold State.semP at passed
  split at passed
  · exact runs.sleepIn waits passed
  · exact goesOn _ _ passed

theorem Kept.semV {s : Sem} (kept : Kept st) (raised : st.semV s = some st') : Kept st' := by
  obtain ⟨middle, woken, rfl⟩ := semV_eq_some raised
  exact (kept.wake woken).setValue _ _

theorem semV_frame {s : Sem} (raised : st.semV s = some st') :
    st'.mode = st.mode ∧ st'.currentThread = st.currentThread := by
  obtain ⟨middle, woken, rfl⟩ := semV_eq_some raised
  obtain ⟨mode, current⟩ := wake_frame woken
  exact ⟨mode, current⟩

theorem Runs.lockAcquire {l : Nat} (runs : Runs st th) (taken : st.lockAcquire l = some st') :
    Kept st' := by
  unfold State.lockAcquire at taken
  split at taken
  · exact runs.sleepIn rfl taken
  · obtain ⟨th', runs'⟩ := (runs.setLock l true (some st.currentThread)).goTo (by simp) taken
    exact runs'.kept

theorem Runs.lockRelease {l : Nat} (runs : Runs st th) (freed : st.lockRelease l = some st') :
    (∃ th', Runs st' th') ∧ st'.currentThread = st.currentThread := by
  obtain ⟨middle, woken, rfl⟩ := lockRelease_eq_some freed
  obtain ⟨th', runs'⟩ := runs.wake woken
  exact ⟨⟨th', runs'.setLock l false none⟩, (wake_frame woken).2⟩

theorem Runs.conditionWait {c l : Nat} (runs : Runs st th)
    (waited : st.conditionWait c l = some st') : Kept st' := by
  unfold State.conditionWait at waited
  split at waited
  · obtain ⟨middle, freed, slept⟩ := Option.bind_eq_some_iff.mp waited
    obtain ⟨⟨th', runs'⟩, -⟩ := runs.lockRelease freed
    exact runs'.sleepIn rfl slept
  · cases waited

/-- A finished thread is in no list, so that its object and its queues can go. -/
theorem Placed.deleteThread (placed : Placed st)
    (finished : ∀ th, st.threads t = some th → th.point = .finished) :
    Placed (st.deleteThread t) := by
  have emptied : Placed ((st.setQueue (.semaphore (.joinSignal t)) []).setQueue
      (.semaphore (.mayDie t)) []) :=
    (placed.setQueue (by simp [items])).setQueue (by simp [items])
  refine ⟨?_, emptied.readyOnce, ?_, emptied.queuedOnce, ?_, ?_⟩
  · intro u there
    obtain ⟨th, object, ready⟩ := emptied.ready u there
    have differ : u ≠ t := by
      rintro rfl
      have := placed.dead u th object (finished th object)
      rw [ready] at this
      cases this
    exact ⟨th, by simpa [State.deleteThread, differ] using object, ready⟩
  · intro r u there
    obtain ⟨th, object, blocked, point⟩ := emptied.queued r u there
    have differ : u ≠ t := by
      rintro rfl
      rw [finished th object] at point
      cases point
    exact ⟨th, by simpa [State.deleteThread, differ] using object, blocked, point⟩
  · intro u th object
    by_cases same : u = t
    · simp [State.deleteThread, same] at object
    · exact emptied.dead u th (by simpa [State.deleteThread, same] using object)
  · intro u th object
    by_cases same : u = t
    · simp [State.deleteThread, same] at object
    · exact emptied.created u th (by simpa [State.deleteThread, same] using object)

/-- What the thread that comes back from `SWITCH` does, after `log` was written up to `l`. -/
theorem destroy_kept {l : List Record} (deleted : st.destroy = some st') (placed : Placed st)
    (awake : Awake st) (log : st.log = .resume n :: l) (logged : Logged l)
    (record : st.threadToBeDestroyed = recorded l)
    (finished : ∀ t found, .finish t found ∈ l →
      t < st.next ∧ ∀ th, st.threads t = some th → th.point = .finished) : Kept st' := by
  unfold State.destroy at deleted
  cases stood : st.threadToBeDestroyed with
  | none =>
      rw [stood] at deleted record
      cases deleted
      refine ⟨placed, awake, ?_, ?_, ?_⟩
      · exact log ▸ .resume n logged record.symm
      · rw [stood, log]
        rfl
      · intro t found there
        exact finished t found (by simpa [log] using there)
  | some t =>
      rw [stood] at deleted record
      obtain ⟨th, object, rest⟩ := Option.bind_eq_some_iff.mp deleted
      split at rest
      · cases rest
      rename_i differ
      cases rest
      obtain ⟨found, there⟩ := logged.recorded_finish record.symm
      refine ⟨(placed.deleteThread (finished t found there).2).congr rfl rfl rfl rfl, ?_,
        ?_, rfl, ?_⟩
      · intro mode
        obtain ⟨th, current, running⟩ := awake mode
        refine ⟨th, ?_, running⟩
        simpa [State.deleteThread, Ne.symm differ] using current
      · exact log ▸ .delete n t logged record.symm
      · intro u found there
        obtain ⟨created, point⟩ := finished u found (by simpa [log] using there)
        refine ⟨created, fun th object => ?_⟩
        by_cases same : u = t
        · simp [State.deleteThread, same] at object
        · exact point th (by simpa [State.deleteThread, same] using object)

/-- `Run` of a thread that is ready and was taken out of the ready list. -/
theorem Placed.run (placed : Placed st) (books : Books st) (object : st.threads n = some th)
    (ready : th.status = .ready) (absent : n ∉ items st.readyList)
    (ran : st.run n = some st') : Kept st' := by
  unfold State.run at ran
  obtain ⟨old, current, ran⟩ := Option.bind_eq_some_iff.mp ran
  obtain ⟨th', object', ran⟩ := Option.bind_eq_some_iff.mp ran
  have ready' : th'.status = .ready := by
    by_cases same : n = st.currentThread
    · rw [same] at object object'
      rw [object] at current
      cases current
      cases object'.symm.trans (st.setThread_threads_self _ _)
      exact ready
    · rw [State.setThread_threads_of_ne _ _ _ same, object] at object'
      cases object'
      exact ready
  have saved : Placed (st.setThread st.currentThread { old with pcState := .run }) :=
    placed.adjust current rfl rfl
  have savedBooks : Books (st.setThread st.currentThread { old with pcState := .run }) :=
    books.setThread current id
  have live : th'.point ≠ .finished := saved.notFinished object' (by simp [ready'])
  have unqueued : ∀ q, n ∉ items (st.queues q) := fun q =>
    saved.notQueued object' (.inl (by simp [ready']))
  have switched : Placed ((st.setThread st.currentThread { old with pcState := .run }).setThread n
      { th' with status := .running }) :=
    saved.setThread (saved.created n th' object') (fun there => absurd there absent)
      (fun q there => absurd there (unqueued q)) (fun dead => absurd dead live)
  have switchedBooks : Books ((st.setThread st.currentThread
      { old with pcState := .run }).setThread n { th' with status := .running }) :=
    savedBooks.setThread object' id
  split at ran
  · cases ran
    refine ⟨switched.congr rfl rfl rfl rfl, ?_, ?_⟩
    · exact fun _ => ⟨_, State.setThread_threads_self _ _ _, rfl⟩
    · refine ⟨.first n switchedBooks.logged, switchedBooks.record, ?_⟩
      intro t found there
      exact switchedBooks.finished t found (by simpa using there)
  · exact destroy_kept ran (switched.congr rfl rfl rfl rfl)
      (fun _ => ⟨_, State.setThread_threads_self _ _ _, rfl⟩) rfl switchedBooks.logged
      switchedBooks.record switchedBooks.finished

/-- The thread that finishes has not finished before. -/
theorem Runs.die (runs : Runs st th) (died : st.die = some st') : Kept st' := by
  simp only [State.die, runs.current] at died
  cases died
  have placed := runs.kept.placed
  have books := runs.kept.books
  have changed : Placed (st.setThread st.currentThread
      { th with status := .blocked, point := .finished }) :=
    placed.setThread (placed.created _ th runs.current)
      (fun there => absurd there (placed.notReady runs.current (by simp [runs.status])))
      (fun q there => absurd there (placed.notQueued runs.current (.inl (by simp [runs.status]))))
      (fun _ => rfl)
  have first : ∀ found, .finish st.currentThread found ∉ st.log := fun found there =>
    placed.notFinished runs.current (by simp [runs.status])
      ((books.finished _ found there).2 th runs.current)
  refine ⟨changed.congr rfl rfl rfl rfl, nofun, ?_, rfl, ?_⟩
  · rw [books.record]
    exact .finish _ books.logged first
  · intro t found there
    obtain newest | earlier := List.mem_cons.mp there
    · cases newest
      refine ⟨placed.created _ th runs.current, fun th' object => ?_⟩
      rw [← Option.some.inj ((State.setThread_threads_self _ _ _).symm.trans object)]
    · have marked : Books (st.setThread st.currentThread
          { th with status := .blocked, point := .finished }) :=
        books.setThread runs.current fun _ => rfl
      exact marked.finished t found earlier

theorem Kept.create (kept : Kept st) (joining : Bool) : Kept (st.create joining) := by
  obtain ⟨placed, awake, books⟩ := kept
  have fresh : ∀ t th, st.threads t = some th → t ≠ st.next := by
    intro t th object
    exact Nat.ne_of_lt (placed.created t th object)
  refine ⟨⟨?_, placed.readyOnce, ?_, placed.queuedOnce, ?_, ?_⟩, ?_, books.logged, books.record, ?_⟩
  · intro t there
    obtain ⟨th, object, ready⟩ := placed.ready t there
    exact ⟨th, (State.setThread_threads_of_ne _ _ _ (fresh t th object)).trans object, ready⟩
  · intro q t there
    obtain ⟨th, object, queued⟩ := placed.queued q t there
    exact ⟨th, (State.setThread_threads_of_ne _ _ _ (fresh t th object)).trans object, queued⟩
  · intro t th object dead
    by_cases same : t = st.next
    · subst same
      cases (State.setThread_threads_self _ _ _).symm.trans object
      cases dead
    · exact placed.dead t th ((State.setThread_threads_of_ne _ _ _ same).symm.trans object) dead
  · intro t th object
    by_cases same : t = st.next
    · subst same
      exact Nat.lt_succ_self _
    · exact Nat.lt_succ_of_lt
        (placed.created t th ((State.setThread_threads_of_ne _ _ _ same).symm.trans object))
  · intro mode
    obtain ⟨th, current, running⟩ := awake mode
    exact ⟨th, (State.setThread_threads_of_ne _ _ _ (fresh _ th current)).trans current, running⟩
  · intro t found there
    obtain ⟨created, finished⟩ := books.finished t found there
    refine ⟨Nat.lt_succ_of_lt created, fun th object => ?_⟩
    exact finished th
      ((State.setThread_threads_of_ne _ _ _ (Nat.ne_of_lt created)).symm.trans object)

theorem statusOf_eq {status : ThreadStatus} :
    st.statusOf t = some status ↔ ∃ th, st.threads t = some th ∧ th.status = status := by
  simp [State.statusOf]

theorem Kept.fork (kept : Kept st) (new : st.statusOf t = some .justCreated)
    (forked : st.fork t = some st') : Kept st' := by
  obtain ⟨th, object, rest⟩ := Option.bind_eq_some_iff.mp forked
  obtain ⟨_, found, created⟩ := statusOf_eq.mp new
  rw [object] at found
  cases found
  have placed := kept.placed
  have other : th.status ≠ .ready ∧ th.status ≠ .blocked ∧ th.status ≠ .running := by
    simp [created]
  have absent := placed.notReady object other.1
  have unqueued : ∀ q, t ∉ items (st.queues q) := fun q => placed.notQueued object (.inl other.2.1)
  have changed : Placed (st.setThread t { th with pcState := .threadRoot, point := .body }) :=
    placed.setThread (placed.created t th object) (fun there => absurd there absent)
      (fun q there => absurd there (unqueued q)) nofun
  have books : Books (st.setThread t { th with pcState := .threadRoot, point := .body }) :=
    kept.books.setThread object fun dead => absurd dead (placed.notFinished object other.2.1)
  refine ⟨changed.readyToRun (State.setThread_threads_self _ _ _) absent unqueued nofun rest, ?_,
    books.readyToRun rest⟩
  intro mode
  obtain ⟨th', -, rfl⟩ := readyToRun_eq_some rest
  obtain ⟨th'', current, running⟩ := kept.awake mode
  have differ : st.currentThread ≠ t := by
    intro same
    rw [same, object] at current
    cases current
    exact other.2.2 running
  refine ⟨th'', (State.setThread_threads_of_ne _ _ _ differ).trans ?_, running⟩
  exact (State.setThread_threads_of_ne _ _ _ differ).trans current

/-- `FindNextToRun` finds a ready thread and takes it out of the list. -/
theorem Kept.findNextToRun {rest : List (ListElement Nat)} (kept : Kept st)
    (removed : remove st.readyList = some (n, rest)) :
    Placed { st with readyList := rest } ∧ n ∉ items rest ∧
      ∃ th, st.threads n = some th ∧ th.status = .ready := by
  obtain ⟨key, head⟩ := remove_eq_some removed
  have once := kept.placed.readyOnce
  rw [head] at once
  obtain ⟨absent, restOnce⟩ := List.nodup_cons.mp once
  refine ⟨⟨?_, restOnce, kept.placed.queued, kept.placed.queuedOnce, kept.placed.dead,
    kept.placed.created⟩, absent, kept.placed.ready n (by simp [head, items])⟩
  intro t there
  exact kept.placed.ready t (by rw [head]; exact List.mem_cons_of_mem _ there)

theorem Kept.dispatch (kept : Kept st) (dispatched : st.dispatch = some st') : Kept st' := by
  obtain ⟨⟨n, rest⟩, removed, ran⟩ := Option.bind_eq_some_iff.mp dispatched
  obtain ⟨placed, absent, th, object, ready⟩ := kept.findNextToRun removed
  exact placed.run (kept.books.congr rfl rfl rfl rfl) object ready absent ran

theorem Runs.yield (runs : Runs st th) (yielded : st.yield = some st') : Kept st' := by
  unfold State.yield at yielded
  cases removed : remove st.readyList with
  | none =>
      rw [removed] at yielded
      cases yielded
      exact runs.kept
  | some pair =>
      obtain ⟨n, rest⟩ := pair
      rw [removed] at yielded
      obtain ⟨middle, woken, ran⟩ := Option.bind_eq_some_iff.mp yielded
      obtain ⟨placed, absent, th', object, ready⟩ := runs.kept.findNextToRun removed
      have busy : th.status ≠ .ready ∧ th.status ≠ .blocked := by simp [runs.status]
      have placed' : Placed middle := placed.readyToRun runs.current
        (placed.notReady runs.current busy.1)
        (fun q => placed.notQueued runs.current (.inl busy.2))
        (placed.notFinished runs.current busy.2) woken
      have books : Books { st with readyList := rest } := runs.kept.books.congr rfl rfl rfl rfl
      have books' := books.readyToRun woken
      have differ : n ≠ st.currentThread := by
        rintro rfl
        cases object.symm.trans runs.current
        exact busy.1 ready
      obtain ⟨_, -, rfl⟩ := readyToRun_eq_some woken
      refine placed'.run books' ((State.setThread_threads_of_ne _ _ _ differ).trans object) ready
        ?_ ran
      simp [differ, absent]

theorem Runs.finish (runs : Runs st th) (finished : st.finish = some st') : Kept st' := by
  obtain ⟨th', current, rest⟩ := Option.bind_eq_some_iff.mp finished
  split at rest
  · obtain ⟨middle, raised, passed⟩ := Option.bind_eq_some_iff.mp rest
    obtain ⟨mode, same⟩ := semV_frame raised
    obtain ⟨th'', runs'⟩ := (runs.kept.semV raised).runs (mode.trans runs.mode)
    refine runs'.semP ?_ ?_ passed
    · rfl
    · exact fun v st' died => (runs'.setValue _ v).die died
  · exact runs.die rest

/-- A turn of `joinSignal->P()` in `Join`. -/
theorem Runs.joinTurn (runs : Runs st th)
    (passed : st.semP (.joinSignal t) (.join t) (State.goTo · (.joined t)) = some st') :
    Kept st' := by
  refine runs.semP rfl (fun v st' moved => ?_) passed
  obtain ⟨th', runs'⟩ := (runs.setValue _ v).goTo (by simp) moved
  exact runs'.kept

theorem Runs.join (runs : Runs st th) (joined : st.join t = some st') : Kept st' := by
  obtain ⟨th', object, rest⟩ := Option.bind_eq_some_iff.mp joined
  split at rest
  · exact runs.joinTurn rest
  · cases rest

theorem Runs.joinRest (runs : Runs st th) (joined : st.joinRest t = some st') : Kept st' := by
  obtain ⟨th', object, rest⟩ := Option.bind_eq_some_iff.mp joined
  obtain ⟨self, current, rest⟩ := Option.bind_eq_some_iff.mp rest
  rw [runs.current] at current
  cases current
  have changed : Runs (st.setThread st.currentThread
      { th with exitStatus := th'.exitStatus, point := .body }) _ :=
    runs.adjust runs.status (by simp)
  exact changed.kept.semV rest

theorem Runs.proceed (runs : Runs st th) (proceeded : st.proceed = some st') : Kept st' := by
  obtain ⟨_, current, rest⟩ := Option.bind_eq_some_iff.mp proceeded
  rw [runs.current] at current
  cases current
  split at rest
  · refine runs.semP rfl (fun v st' moved => ?_) rest
    obtain ⟨th', runs'⟩ := (runs.setValue _ v).goTo (by simp) moved
    exact runs'.kept
  · exact runs.lockAcquire rest
  · exact runs.lockAcquire rest
  · obtain ⟨_, -, rest⟩ := Option.bind_eq_some_iff.mp rest
    split at rest
    · exact runs.joinTurn rest
    · cases rest
  · exact runs.joinRest rest
  · exact runs.semP rfl (fun v st' died => (runs.setValue _ v).die died) rest
  · cases rest

theorem Runs.call {e : Event} (runs : Runs st th) (called : st.call e = some st') : Kept st' := by
  cases e with
  | create joining =>
      cases called
      exact runs.kept.create joining
  | setPriority t priority =>
      obtain ⟨th', object, rest⟩ := Option.bind_eq_some_iff.mp called
      cases rest
      exact runs.kept.adjust object rfl rfl
  | setExitStatus status =>
      obtain ⟨th', object, rest⟩ := Option.bind_eq_some_iff.mp called
      cases rest
      exact runs.kept.adjust object rfl rfl
  | fork t =>
      simp only [State.call] at called
      split at called
      · rename_i new
        exact runs.kept.fork new called
      · cases called
  | p i =>
      simp only [State.call] at called
      refine runs.semP rfl (fun v st' moved => ?_) called
      obtain ⟨th', runs'⟩ := (runs.setValue _ v).goTo (by simp) moved
      exact runs'.kept
  | v i => exact runs.kept.semV called
  | acquire l =>
      simp only [State.call] at called
      split at called
      · cases called
      · exact runs.lockAcquire called
  | release l =>
      obtain ⟨⟨th', runs'⟩, -⟩ := runs.lockRelease called
      exact runs'.kept
  | wait c l => exact runs.conditionWait called
  | signal c l =>
      simp only [State.call] at called
      split at called
      · exact runs.kept.wake called
      · cases called
  | broadcast c l =>
      simp only [State.call] at called
      split at called
      · exact runs.kept.wakeAll called
      · cases called
  | join t => exact runs.join called
  | finish => exact runs.finish called
  | yield => cases called
  | proceed => cases called
  | interrupt i => cases called
  | idle => cases called
  | dispatch => cases called

/-- **Every event keeps threads in their places and the books in order.** -/
theorem Kept.step {e : Event} (kept : Kept st) (stepped : st.step e = some st') : Kept st' := by
  have inBody : ∀ {e}, (if st.inBody then st.call e else none) = some st' → Kept st' := by
    intro e called
    split at called
    · rename_i body
      obtain ⟨th, runs⟩ :=
        kept.runs (by simp only [State.inBody, decide_eq_true_eq] at body; exact body.1)
      exact runs.call called
    · cases called
  cases e with
  | yield =>
      simp only [State.step] at stepped
      split at stepped
      · rename_i on
        obtain ⟨th, runs⟩ := kept.runs (by
          simp only [State.preemptible, decide_eq_true_eq] at on
          exact on.1)
        exact runs.yield stepped
      · cases stepped
  | proceed =>
      simp only [State.step] at stepped
      split at stepped
      · rename_i mode
        obtain ⟨th, runs⟩ := kept.runs mode
        exact runs.proceed stepped
      · cases stepped
  | interrupt i =>
      simp only [State.step] at stepped
      split at stepped
      · exact kept.semV stepped
      · cases stepped
  | idle =>
      simp only [State.step] at stepped
      split at stepped
      · cases stepped
        exact ⟨kept.placed.congr rfl rfl rfl rfl, nofun, kept.books.congr rfl rfl rfl rfl⟩
      · cases stepped
  | dispatch =>
      simp only [State.step] at stepped
      split at stepped
      · cases stepped
      · exact kept.dispatch stepped
  | create => exact inBody stepped
  | setPriority => exact inBody stepped
  | setExitStatus => exact inBody stepped
  | fork => exact inBody stepped
  | p => exact inBody stepped
  | v => exact inBody stepped
  | acquire => exact inBody stepped
  | release => exact inBody stepped
  | wait => exact inBody stepped
  | signal => exact inBody stepped
  | broadcast => exact inBody stepped
  | join => exact inBody stepped
  | finish => exact inBody stepped

/-- The main thread is the only one. -/
theorem boot_main {initialValue : Nat → Int}
    (object : (State.boot initialValue).threads t = some th) :
    t = 0 ∧ th.status = .running ∧ th.point = .body := by
  by_cases same : t = 0
  · subst same
    cases object
    exact ⟨rfl, rfl, rfl⟩
  · simp [State.boot, same] at object

theorem boot_kept (initialValue : Nat → Int) : Kept (State.boot initialValue) := by
  refine ⟨⟨?_, List.nodup_nil, ?_, fun _ => List.nodup_nil, ?_, ?_⟩, ?_, .nil, rfl, ?_⟩
  · intro t there
    cases there
  · intro q t there
    cases there
  · intro t th object dead
    rw [(boot_main object).2.2] at dead
    cases dead
  · intro t th object
    rw [(boot_main object).1]
    exact Nat.one_pos
  · exact fun _ => ⟨_, rfl, rfl⟩
  · intro t found there
    cases there

end Placement

/-! ## Reclaiming -/

/-- No finished thread is lost: whenever `Finish` records a thread nothing stands in
`threadToBeDestroyed`, and a thread that was recorded was deleted exactly once, or still
stands there and was not. -/
structure Reclaimed (st : State) : Prop where
  vacant : Vacant st.log
  once : ∀ t found, .finish t found ∈ st.log →
    (st.log.count (.delete t) = 1 ∧ st.threadToBeDestroyed ≠ some t) ∨
      (st.log.count (.delete t) = 0 ∧ st.threadToBeDestroyed = some t)

/-- **Finished threads are reclaimed exactly when they are spaced.**  In every state of
every run, no finished thread has been lost if and only if between any two threads that
finished some thread was dispatched that had run before. -/
theorem finished_reclaimed_iff (initialValue : Nat → Int) (events : List Event) (st : State)
    (run : exec State.step (State.boot initialValue) events = some st) :
    Reclaimed st ↔ Spaced st.log := by
  have kept : Kept st :=
    exec_invariant' (fun _ _ _ kept stepped => kept.step stepped) (boot_kept initialValue) run
  rw [← kept.books.logged.vacant_iff]
  constructor
  · exact Reclaimed.vacant
  · intro vacant
    refine ⟨vacant, fun t found there => ?_⟩
    rw [kept.books.record]
    exact kept.books.logged.deleted_once vacant there

/-- The main thread forks a thread and lets it run; it finishes, the main thread comes
back, deletes it, and finishes too. -/
theorem finished_reclaimed_iff_resumed :
    ∃ st, exec State.step (State.boot fun _ => 0)
        [.create false, .fork 1, .yield, .finish, .dispatch, .finish] = some st ∧
      st.log = [.finish 0 none, .delete 1, .resume 0, .finish 1 none, .first 1] ∧
      (Reclaimed st ↔ Spaced st.log) :=
  ⟨_, rfl, rfl, finished_reclaimed_iff (fun _ => 0)
    [.create false, .fork 1, .yield, .finish, .dispatch, .finish] _ rfl⟩

/-- The main thread forks a thread and finishes; the new thread starts in `ThreadRoot`,
finishes, and takes the place of the main thread, which is never deleted. -/
theorem main_thread_lost :
    ∃ st, exec State.step (State.boot fun _ => 0)
        [.create false, .fork 1, .finish, .dispatch, .finish] = some st ∧
      st.threadToBeDestroyed = some 1 ∧ (st.threads 0).isSome ∧ ¬ Reclaimed st := by
  refine ⟨_, rfl, rfl, rfl, ?_⟩
  intro reclaimed
  have overwritten : Record.finish 1
      (some 0) ∈ [Record.finish 1 (some 0), .first 1, .finish 0 none] := by
    decide
  cases reclaimed.vacant 1 (some 0) overwritten

end Nachos.Threads
