/-
# Nachos.Threads.Partition -- every thread is in exactly one place

While a thread runs with interrupts on it is in no list, a ready thread is in the ready
list once, and a blocked thread that has not finished is in one queue once.  `Placed` and
`Seated` hold in every state; what is left is that no queue disappears under the threads
that wait in it, and that follows from the protocol of `Join` when no thread is joined
twice.

So a thread is dispatched as often as it was made ready, less one if it still waits in the
ready list: `dispatched` counts the first and `wakeUps` the second.

The routines do not see to all of this themselves.  `Fork` makes any thread ready, also one
that is ready already, and `Sleep` leaves the thread on no list unless its caller has put it
on one.  `Call` are the calls with these two as they stand, and `Usual` says when the thread
system makes them.
-/
import Nachos.Threads.Handshake
import Mathlib.Data.List.Nodup

namespace Nachos.Threads

open Nachos.Lib.Run

set_option autoImplicit false

/-! ## Calls -/

/-- An event, or a call of `Sleep` outside of the synchronization routines. -/
inductive Call where
  | event (e : Event)
  | sleep
  deriving DecidableEq

namespace State

/-- `Thread::Sleep` up to its loop; the caller has turned interrupts off. -/
def sleep (st : State) : Option State := do
  let th ← st.threads st.currentThread
  return { st.setThread st.currentThread { th with status := .blocked } with mode := .sleep }

/-- One call, if it can be made.  `Fork` takes any thread. -/
def perform (st : State) : Call → Option State
  | .event (.fork t) => if st.inBody then st.fork t else none
  | .event e => st.step e
  | .sleep => if st.inBody then st.sleep else none

/-- `Fork` is called on a new thread, and `Sleep` by the synchronization routines only. -/
def Usual (st : State) : Call → Prop
  | .event (.fork t) => st.statusOf t = some .justCreated
  | .event _ => True
  | .sleep => False

instance (st : State) (c : Call) : Decidable (st.Usual c) :=
  match c with
  | .event e => by
      cases e with
      | fork t => exact inferInstanceAs (Decidable (_ = _))
      | _ => exact inferInstanceAs (Decidable True)
  | .sleep => inferInstanceAs (Decidable False)

end State

/-- A usual call is an event. -/
theorem perform_usual {st : State} {c : Call} (usual : st.Usual c) :
    ∃ e, c = .event e ∧ st.perform c = st.step e := by
  cases c with
  | sleep => cases usual
  | event e =>
      refine ⟨e, rfl, ?_⟩
      cases e with
      | fork t =>
          have new : st.statusOf t = some .justCreated := usual
          simp [State.perform, State.step, State.call, new]
      | _ => rfl

/-- How often `t` was given the processor. -/
def dispatched (t : Nat) (log : List Record) : Nat := log.count (.first t) + log.count (.resume t)

/-- How often `t` was made ready. -/
def wakeUps {ε : Type} (step : State → ε → Option State) (t : Nat) : State → List ε → Nat
  | _, [] => 0
  | st, e :: es =>
      match step st e with
      | none => 0
      | some st' =>
          (if st.statusOf t ≠ some .ready ∧ st'.statusOf t = some .ready then 1 else 0) +
            wakeUps step t st' es

/-- The threads are divided among the processor, the ready list and the queues. -/
structure OnePlace (st : State) : Prop where
  current : st.statusOf st.currentThread = some .running ∧
    st.currentThread ∉ items st.readyList ∧ ∀ q, st.currentThread ∉ items (st.queues q)
  ready : ∀ t, st.statusOf t = some .ready →
    (items st.readyList).count t = 1 ∧ ∀ q, t ∉ items (st.queues q)
  blocked : ∀ t, st.statusOf t = some .blocked → st.pointOf t ≠ some .finished →
    t ∉ items st.readyList ∧
      ∃ q, (items (st.queues q)).count t = 1 ∧ ∀ r, r ≠ q → t ∉ items (st.queues r)

section Places

variable {st st' : State} {t : Nat} {th : Thread} {a : Act} {o : Option Nat}

/-- A queue that went with its thread has nobody waiting at it. -/
theorem At.not_gone {g : Stage} {d : Nat} (stage : At d g st) (seated : Seated st)
    (object : st.threads t = some th) {q : Queue} (waits : th.point.queue t = some q)
    (about : q.about = some d) : st.threads d ≠ none := by
  intro gone
  cases point : th.point with
  | join u =>
      rw [point] at waits
      cases waits
      obtain rfl : u = d := Option.some.inj about
      have self := stage.self
      obtain rfl | rfl := (stage.joins t).mp (by simp [State.pointOf, object, point])
      · obtain ⟨x, there, -⟩ := self
        cases gone.symm.trans there
      · obtain ⟨x, there, -⟩ := self
        cases gone.symm.trans there
  | finish =>
      rw [point] at waits
      cases waits
      obtain rfl : t = d := Option.some.inj about
      cases gone.symm.trans object
  | p s =>
      rw [point] at waits
      cases waits
      rw [Queue.about, seated.plain_of object point] at about
      cases about
  | acquire =>
      rw [point] at waits
      cases waits
      cases about
  | wait =>
      rw [point] at waits
      cases waits
      cases about
  | body => rw [point] at waits; cases waits
  | joined => rw [point] at waits; cases waits
  | finished => rw [point] at waits; cases waits

theorem one_place (kept : Kept st) (seated : Seated st) (staged : ∀ t, ∃ g, At t g st)
    (on : st.preemptible = true) : OnePlace st := by
  have placed := kept.placed
  constructor
  · obtain ⟨th, runs, -⟩ := kept.preemptible on
    refine ⟨statusOf_eq.mpr ⟨th, runs.current, runs.status⟩, ?_, fun q => runs.not_queued⟩
    exact placed.notReady runs.current (by simp [runs.status])
  · intro t ready
    obtain ⟨th, object, status⟩ := statusOf_eq.mp ready
    refine ⟨?_, fun q => placed.notQueued object (.inl (by simp [status]))⟩
    exact List.count_eq_one_of_mem placed.readyOnce (seated.ready t th object status)
  · intro t blocked unfinished
    obtain ⟨th, object, status⟩ := statusOf_eq.mp blocked
    refine ⟨placed.notReady object (by simp [status]), ?_⟩
    have live : th.point ≠ .finished := by
      simpa [State.pointOf, object] using unfinished
    obtain ⟨q, waits, there⟩ := seated.blocked t th object status live
    have member : t ∈ items (st.queues q) := by
      obtain there | ⟨d, about, -, gone⟩ := there
      · exact there
      · obtain ⟨g, stage⟩ := staged d
        exact absurd gone (stage.not_gone seated object waits about)
    refine ⟨q, List.count_eq_one_of_mem (placed.queuedOnce q) member, fun r differ elsewhere => ?_⟩
    obtain ⟨_, found, -, waits'⟩ := placed.queued r t elsewhere
    rw [object] at found
    cases found
    exact differ (Option.some.inj (waits'.symm.trans waits))

end Places

/-! ## Wake-ups and dispatches -/

section Counting

variable {st mid st' : State} {t u : Nat} {th th' : Thread} {a : Act} {o : Option Nat}

/-- A thread that was ready still is, and none was dispatched. -/
structure Waits (t : Nat) (st st' : State) : Prop where
  log : dispatched t st'.log = dispatched t st.log
  ready : st.statusOf t = some .ready → st'.statusOf t = some .ready

theorem Waits.trans (first : Waits t st mid) (second : Waits t mid st') : Waits t st st' :=
  ⟨second.log.trans first.log, fun ready => second.ready (first.ready ready)⟩

/-- One thread object changes, and it is still ready if it was. -/
theorem waits_replace (log : dispatched t st'.log = dispatched t st.log)
    (threads : st'.threads = Function.update st.threads u (some th'))
    (object : st.threads u = some th) (ready : th.status = .ready → th'.status = .ready) :
    Waits t st st' := by
  refine ⟨log, fun waiting => ?_⟩
  by_cases same : t = u
  · subst same
    obtain ⟨_, found, status⟩ := statusOf_eq.mp waiting
    rw [object] at found
    cases found
    exact statusOf_eq.mpr ⟨th', by simp [threads], ready status⟩
  · simpa [State.statusOf, threads, same] using waiting

theorem Change.waits (change : Change st a st') (keeps : a.passes = false) : Waits t st st' := by
  cases change with
  | adjust object status => exact waits_replace rfl rfl object fun ready => status.trans ready
  | lock => exact ⟨rfl, id⟩
  | idle => exact ⟨rfl, id⟩
  | create joining fresh =>
      refine ⟨rfl, fun waiting => ?_⟩
      obtain ⟨th, object, status⟩ := statusOf_eq.mp waiting
      have differ : t ≠ st.next := by
        rintro rfl
        cases fresh.symm.trans object
      exact statusOf_eq.mpr ⟨th, (State.setThread_threads_of_ne _ _ _ differ).trans object, status⟩
  | shift mode current running => exact waits_replace rfl rfl current (by simp [running])
  | sleep current running => exact waits_replace rfl rfl current (by simp [running])
  | value => exact ⟨rfl, id⟩
  | wake head object => exact waits_replace rfl rfl object fun _ => rfl
  | die current running =>
      refine waits_replace ?_ rfl current (by simp [running])
      simp [dispatched]
  | ready object => exact waits_replace rfl rfl object fun _ => rfl
  | switch => cases keeps
  | delete => cases keeps

theorem Does.waits (does : Does o st st') : Waits t st st' := by
  obtain ⟨acts, chain, within⟩ := does
  refine chain.keeps (I := Waits t st) ?_ ⟨rfl, id⟩
  exact fun _ a _ waits there change => waits.trans (change.waits (within a there).1)

/-- `t` was ready, and has got the processor. -/
structure Dispatches (t : Nat) (st st' : State) : Prop where
  log : dispatched t st'.log = dispatched t st.log + 1
  ready : st.statusOf t = some .ready
  running : st'.statusOf t = some .running

/-- Passing the processor on dispatches one thread, and all others wait. -/
theorem switch_counted {n : Nat} (kept : Kept st) (switch : Change st (.switch n) st') :
    (t = n ∧ Dispatches t st st') ∨ (t ≠ n ∧ Waits t st st') := by
  cases switch with
  | @switch _ key rest list old old' th entry head current turn point joining object
      ready entries =>
      by_cases same : t = n
      · subst same
        refine .inl ⟨rfl, ?_, ?_, ?_⟩
        · obtain rfl | rfl := entries <;> simp [dispatched] <;> omega
        · obtain ⟨x, there, status⟩ := kept.placed.ready t (by simp [head, items])
          exact statusOf_eq.mpr ⟨x, there, status⟩
        · exact statusOf_eq.mpr ⟨_, State.setThread_threads_self _ _ _, rfl⟩
      · refine .inr ⟨same, ?_⟩
        have turned : Waits t st (st.setThread st.currentThread old') := by
          refine waits_replace rfl rfl current fun ready => ?_
          obtain ⟨-, status, -⟩ | ⟨-, running, -⟩ := turn
          · exact status.trans ready
          · rw [running] at ready
            cases ready
        have still : ∀ x, (st.setThread st.currentThread old').threads t = some x →
            ((st.setThread st.currentThread old').setThread n
              { th with status := .running }).threads t = some x := fun x there =>
          (State.setThread_threads_of_ne _ _ _ same).trans there
        refine ⟨?_, fun waiting => ?_⟩
        · obtain rfl | rfl := entries <;> simp [dispatched, Ne.symm same]
        · obtain ⟨x, there, status⟩ := statusOf_eq.mp (turned.ready waiting)
          exact statusOf_eq.mpr ⟨x, still x there, status⟩

theorem switch_pointOf {n : Nat} (switch : Change st (.switch n) st') (t : Nat) :
    st'.pointOf t = st.pointOf t := by
  cases switch with
  | @switch _ key rest list old old' th entry head current turn point joining object
      ready entries =>
      have saved : (st.setThread st.currentThread old').pointOf t = st.pointOf t := by
        by_cases same : t = st.currentThread
        · simp [State.pointOf, same, current, point]
        · simp [State.pointOf, State.setThread_threads_of_ne, same]
      rw [← saved]
      by_cases same : t = n
      · subst same
        simp [State.pointOf, object]
      · simp [State.pointOf, State.setThread_threads_of_ne, same]

theorem Switches.counted (kept : Kept st) (switches : Switches st st') :
    Dispatches t st st' ∨ Waits t st st' := by
  obtain ⟨n, mid, switch, rfl | ⟨d, delete⟩⟩ := switches
  · exact (switch_counted kept switch).imp And.right And.right
  · have finished : st.pointOf d = some .finished := by
      rw [← switch_pointOf switch]
      cases delete with
      | delete record created object finished differ => simp [State.pointOf, object, finished]
    -- the deleted thread was blocked before the switch, and is not the one dispatched
    have other : st.statusOf t = some .ready → t ≠ d := by
      rintro waiting rfl
      obtain ⟨x, there, status⟩ := statusOf_eq.mp waiting
      have dead := kept.placed.dead t x there (by simpa [State.pointOf, there] using finished)
      rw [dead] at status
      cases status
    have same : t ≠ d → st'.statusOf t = mid.statusOf t := by
      intro differ
      cases delete
      simp [State.statusOf, State.deleteThread, differ]
    have log : dispatched t st'.log = dispatched t mid.log := by
      cases delete
      simp [dispatched]
    obtain ⟨-, counted, ready, running⟩ | ⟨-, counted, waits⟩ := switch_counted (t := t) kept switch
    · exact .inl ⟨log.trans counted, ready, (same (other ready)).trans running⟩
    · exact .inr ⟨log.trans counted, fun waiting => (same (other waiting)).trans (waits waiting)⟩

/-- A step dispatches a thread that was ready, or leaves it ready. -/
theorem step_counted {e : Event} (kept : Kept st) (seated : Seated st)
    (stepped : st.step e = some st') : Dispatches t st st' ∨ Waits t st st' := by
  obtain does | switches := step_does kept seated.plain seated.fresh stepped
  · exact .inr does.waits
  · exact switches.counted kept

/-- **Every wake-up is answered by one dispatch**, or the thread still waits for it. -/
theorem wakeUps_eq {events : List Event} (kept : Kept st) (seated : Seated st)
    (run : exec State.step st events = some st') :
    wakeUps State.step t st events +
      (dispatched t st.log + if st.statusOf t = some .ready then 1 else 0) =
      dispatched t st'.log + if st'.statusOf t = some .ready then 1 else 0 := by
  induction events generalizing st with
  | nil =>
      cases run
      simp [wakeUps]
  | cons e es ih =>
      obtain ⟨mid, stepped, rest⟩ := exec_cons_eq_some.mp run
      rw [← ih (kept.step stepped) (seated.step kept stepped) rest]
      simp only [wakeUps, stepped]
      obtain ⟨log, ready, running⟩ | ⟨log, waits⟩ := step_counted (t := t) kept seated stepped
      · simp [log, ready, running]
      · by_cases before : st.statusOf t = some .ready
        · simp [log, before, waits before]
        · by_cases after : mid.statusOf t = some .ready
          · simp [log, before, after]
            omega
          · simp [log, before, after]

/-- A run of usual calls is a run of events. -/
theorem exists_events {calls : List Call} (usual : AllSteps State.perform State.Usual st calls)
    (run : exec State.perform st calls = some st') :
    ∃ events, calls = events.map Call.event ∧ exec State.step st events = some st' ∧
      ∀ t, wakeUps State.perform t st calls = wakeUps State.step t st events := by
  induction calls generalizing st with
  | nil =>
      cases run
      exact ⟨[], rfl, rfl, fun t => rfl⟩
  | cons c calls ih =>
      obtain ⟨mid, made, rest⟩ := exec_cons_eq_some.mp run
      obtain ⟨e, rfl, same⟩ := perform_usual usual.1
      obtain ⟨events, rfl, ran, counted⟩ := ih (usual.2 mid made) rest
      have stepped : st.step e = some mid := same.symm.trans made
      refine ⟨e :: events, rfl, exec_cons_eq_some.mpr ⟨mid, stepped, ran⟩, fun t => ?_⟩
      simp only [wakeUps, made, stepped, counted t]

/-- **Every thread is in exactly one place**, whenever interrupts are on, and it is given the
processor once for every time it is made ready. -/
theorem every_thread_in_one_place (initialValue : Nat → Int) (calls : List Call) (st : State)
    (run : exec State.perform (State.boot initialValue) calls = some st)
    (usual : AllSteps State.perform State.Usual (State.boot initialValue) calls)
    (once : ∀ t, calls.count (.event (.join t)) ≤ 1) :
    (st.preemptible = true → OnePlace st) ∧
      ∀ t, wakeUps State.perform t (State.boot initialValue) calls =
        dispatched t st.log + if st.statusOf t = some .ready then 1 else 0 := by
  obtain ⟨events, rfl, ran, counted⟩ := exists_events usual run
  have once' : ∀ t, events.count (.join t) ≤ 1 := by
    intro t
    rw [← List.count_map_of_injective events Call.event (fun _ _ => Call.event.inj)]
    exact once t
  obtain ⟨kept, seated, -⟩ := run_staged (t := 0) initialValue ran
  refine ⟨one_place kept seated fun t => ?_, fun t => ?_⟩
  · obtain ⟨g, stage, -⟩ := (run_staged (t := t) initialValue ran).2.2 (once' t)
    exact ⟨g, stage⟩
  · rw [counted t, ← wakeUps_eq (boot_kept initialValue) (boot_seated initialValue) ran]
    have none : (State.boot initialValue).statusOf t ≠ some .ready := by
      intro ready
      obtain ⟨th, object, status⟩ := statusOf_eq.mp ready
      have there := (boot_seated initialValue).ready t th object status
      cases there
    have empty : dispatched t (State.boot initialValue).log = 0 := rfl
    simp [none, empty]

/-- Two threads, a semaphore and a lock: one sleeps in `P` with the lock, the other waits
for the lock, an interrupt handler wakes the first, and it hands the lock over. -/
theorem every_thread_in_one_place_two :
    ∃ st, exec State.perform (State.boot fun _ => 0)
        ([.create false, .fork 1, .acquire 0, .p 0, .dispatch, .acquire 0, .idle, .interrupt 0,
          .dispatch, .proceed, .release 0].map .event) = some st ∧
      st.preemptible = true ∧ (st.preemptible = true → OnePlace st) ∧
      wakeUps State.perform 1 (State.boot fun _ => 0)
        ([.create false, .fork 1, .acquire 0, .p 0, .dispatch, .acquire 0, .idle, .interrupt 0,
          .dispatch, .proceed, .release 0].map .event) = 2 := by
  have placed := every_thread_in_one_place (fun _ => 0)
    ([.create false, .fork 1, .acquire 0, .p 0, .dispatch, .acquire 0, .idle, .interrupt 0,
      .dispatch, .proceed, .release 0].map .event) _ rfl (by decide) fun t => by simp
  exact ⟨_, rfl, rfl, placed.1, rfl⟩

/-- A thread that is forked twice is on the ready list twice, and one that calls `Sleep`
itself is blocked and on no list. -/
theorem forked_twice :
    (∃ st, exec State.perform (State.boot fun _ => 0)
        ([.create false, .fork 1, .fork 1].map .event) = some st ∧
      st.preemptible = true ∧ (items st.readyList).count 1 = 2 ∧ ¬ OnePlace st) ∧
    ∃ st, exec State.perform (State.boot fun _ => 0)
        [.event (.create false), .event (.fork 1), .sleep, .event .dispatch] = some st ∧
      st.preemptible = true ∧ st.statusOf 0 = some .blocked ∧ ¬ OnePlace st := by
  refine ⟨⟨_, rfl, rfl, rfl, fun placed => ?_⟩, ⟨_, rfl, rfl, rfl, fun placed => ?_⟩⟩
  · have once := (placed.ready 1 rfl).1
    exact absurd once (by decide)
  · obtain ⟨-, q, once, -⟩ := placed.blocked 0 rfl (by decide)
    cases once

end Counting

end Nachos.Threads
