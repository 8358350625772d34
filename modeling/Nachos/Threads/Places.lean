/-
# Nachos.Threads.Places -- what an event does, and where it leaves the threads

An event of `Nachos.Threads.Thread` is a chain of acts: a thread moves on in its program,
a semaphore changes its value, a queue wakes its first thread, the processor is switched.
`step_chain` says once which chains there are, and which acts concern the `joinSignal` and
the `mayDie` of a given thread; what follows about runs is proved act by act.

`Seated` is the converse of `Placed`: a ready thread is in the ready list, a running
thread is the current one, and a blocked thread that has not finished is in the queue of
its point, unless that queue went with the thread it belonged to.
-/
import Nachos.Threads.Scheduler

namespace Nachos.Threads

open Nachos.Lib.Run

set_option autoImplicit false

/-! ## Acts -/

/-- The thread a semaphore was made for. -/
def Sem.about : Sem → Option Nat
  | .joinSignal t | .mayDie t => some t
  | .other _ => none

def Queue.about : Queue → Option Nat
  | .semaphore s => s.about
  | _ => none

/-- The thread whose end a thread at this point has to do with. -/
def Point.about (self : Nat) : Point → Option Nat
  | .join t | .joined t => some t
  | .finish | .finished => some self
  | _ => none

inductive Act where
  /-- A thread object changes in its priority, its exit status or its program counter. -/
  | adjust
  | lock
  | idle
  | create (t : Nat)
  /-- The current thread goes from one point to another and keeps the processor. -/
  | shift (self : Nat) (p p' : Point)
  | sleep (self : Nat) (p p' : Point) (q : Queue)
  | value (s : Sem)
  | wake (q : Queue)
  | die (self : Nat) (p : Point)
  /-- `Fork` makes a new thread ready. -/
  | ready (t : Nat)
  | switch (n : Nat)
  | delete (d : Nat)
  deriving DecidableEq, Repr

/-- The act has to do with the end of `t`. -/
def Act.About (t : Nat) : Act → Prop
  | .create u => u = t
  | .shift self p p' => p.about self = some t ∨ p'.about self = some t
  | .sleep self p p' q => p.about self = some t ∨ p'.about self = some t ∨ q.about = some t
  | .value s => s.about = some t
  | .wake q => q.about = some t
  | .die self p => self = t ∨ p.about self = some t
  | .delete d => d = t
  | _ => False

/-- The act is part of passing the processor on. -/
def Act.passes : Act → Bool
  | .switch _ | .delete _ => true
  | _ => false

/-- How the processor passes from the current thread on: out of the loop of `Sleep`, or in
`Yield`, which puts the current thread back first. -/
def Turn (st : State) (old old' : Thread) (rest list : List (ListElement Nat)) : Prop :=
  (st.mode ≠ .thread ∧ old'.status = old.status ∧ list = rest) ∨
    (st.mode = .thread ∧ old.status = .running ∧ old'.status = .ready ∧
      list = sortedInsert st.currentThread old.key rest)

/-- What an act does. -/
inductive Change (st : State) : Act → State → Prop where
  | adjust {t : Nat} {th th' : Thread} (object : st.threads t = some th)
      (status : th'.status = th.status) (point : th'.point = th.point)
      (joining : th'.joining = th.joining) : Change st .adjust (st.setThread t th')
  | lock (l : Nat) (held : Bool) (by' : Option Nat) : Change st .lock (st.setLock l held by')
  | idle (asleep : st.mode ≠ .thread) : Change st .idle { st with mode := .idle }
  | create (joining : Bool) (fresh : st.threads st.next = none) :
      Change st (.create st.next) (st.create joining)
  | shift {th th' : Thread} (mode : st.mode = .thread)
      (current : st.threads st.currentThread = some th)
      (running : th.status = .running) (status : th'.status = .running)
      (joining : th'.joining = th.joining) (enabled : th'.point.enabled = true) :
      Change st (.shift st.currentThread th.point th'.point) (st.setThread st.currentThread th')
  | sleep {th : Thread} {p : Point} {q : Queue}
      (current : st.threads st.currentThread = some th) (running : th.status = .running)
      (waits : p.queue st.currentThread = some q) (plain : ∀ s, p = .p s → s.about = none) :
      Change st (.sleep st.currentThread th.point p q)
        { (st.setThread st.currentThread { th with status := .blocked, point := p }).setQueue q
            (sortedInsert st.currentThread th.key (st.queues q)) with mode := .sleep }
  | value (s : Sem) (v : Int) : Change st (.value s) (st.setValue s v)
  | wake {q : Queue} {t : Nat} {key : Int} {rest : List (ListElement Nat)} {th : Thread}
      (head : st.queues q = ⟨t, key⟩ :: rest) (object : st.threads t = some th)
      (blocked : th.status = .blocked) (waits : th.point.queue t = some q) :
      Change st (.wake q)
        { (st.setQueue q rest).setThread t { th with status := .ready } with
          readyList := sortedInsert t th.key st.readyList }
  | die {th : Thread} (current : st.threads st.currentThread = some th)
      (running : th.status = .running) :
      Change st (.die st.currentThread th.point)
        { st.setThread st.currentThread { th with status := .blocked, point := .finished } with
          mode := .sleep
          threadToBeDestroyed := some st.currentThread
          log := .finish st.currentThread st.threadToBeDestroyed :: st.log }
  | ready {t : Nat} {th : Thread} (object : st.threads t = some th)
      (created : th.status = .justCreated) :
      Change st (.ready t) { st.setThread t { th with status := .ready } with
        readyList := sortedInsert t th.key st.readyList }
  | switch {n : Nat} {key : Int} {rest list : List (ListElement Nat)} {old old' th : Thread}
      {entry : Record} (head : st.readyList = ⟨n, key⟩ :: rest)
      (current : st.threads st.currentThread = some old)
      (turn : Turn st old old' rest list)
      (point : old'.point = old.point) (joining : old'.joining = old.joining)
      (object : (st.setThread st.currentThread old').threads n = some th)
      (ready : th.status = .ready) (dispatched : entry = .first n ∨ entry = .resume n) :
      Change st (.switch n)
        { (st.setThread st.currentThread old').setThread n { th with status := .running } with
          readyList := list
          currentThread := n
          mode := .thread
          log := entry :: st.log }
  | delete {d : Nat} {th : Thread} (record : st.threadToBeDestroyed = some d)
      (created : d < st.next) (object : st.threads d = some th) (finished : th.point = .finished)
      (differ : d ≠ st.currentThread) :
      Change st (.delete d) { st.deleteThread d with
        threadToBeDestroyed := none
        log := .delete d :: st.log }

inductive Chain : State → List Act → State → Prop where
  | nil (st : State) : Chain st [] st
  | cons {st mid st' : State} {a : Act} {acts : List Act} (first : Change st a mid)
      (rest : Chain mid acts st') : Chain st (a :: acts) st'

section Chains

variable {st mid st' : State} {a : Act} {acts acts' : List Act}

theorem Chain.one (change : Change st a st') : Chain st [a] st' := .cons change (.nil _)

theorem Chain.append (first : Chain st acts mid) (second : Chain mid acts' st') :
    Chain st (acts ++ acts') st' := by
  induction first with
  | nil => exact second
  | cons change _ ih => exact .cons change (ih second)

/-- **What every act keeps, a chain keeps.** -/
theorem Chain.keeps {I : State → Prop} (chain : Chain st acts st')
    (keep : ∀ st a st', I st → a ∈ acts → Change st a st' → I st') (start : I st) : I st' := by
  induction chain with
  | nil => exact start
  | cons change _ ih =>
      apply ih
      · intro st a st' inv there
        exact keep st a st' inv (List.mem_cons_of_mem _ there)
      · exact keep _ _ _ start List.mem_cons_self change

end Chains

/-! ## The acts of an event -/

namespace State

def pointOf (st : State) (t : Nat) : Option Point := (st.threads t).map Thread.point

/-- The thread whose end the event has to do with. -/
def concerns (st : State) : Event → Option Nat
  | .create _ => some st.next
  | .join t => some t
  | .finish => some st.currentThread
  | .proceed => (st.pointOf st.currentThread).bind (Point.about st.currentThread)
  | _ => none

@[simp] theorem setThread_setThread (st : State) (t : Nat) (th th' : Thread) :
    (st.setThread t th).setThread t th' = st.setThread t th' := by
  simp [setThread]

end State

/-- The thread `a`, if there is one, is the thread `o`. -/
def Under (a o : Option Nat) : Prop := ∀ t, a = some t → o = some t

@[simp] theorem under_none (o : Option Nat) : Under none o := nofun

@[simp] theorem under_self (o : Option Nat) : Under o o := fun _ => id

/-- The current thread keeps the processor, and what is done is about the thread `o`. -/
def Within (o : Option Nat) (acts : List Act) : Prop :=
  ∀ a ∈ acts, a.passes = false ∧ ∀ t, a.About t → o = some t

def Does (o : Option Nat) (st st' : State) : Prop :=
  ∃ acts, Chain st acts st' ∧ Within o acts

/-- The processor passes to a thread, which deletes another one or not. -/
def Switches (st st' : State) : Prop :=
  ∃ n mid, Change st (.switch n) mid ∧ (st' = mid ∨ ∃ d, Change mid (.delete d) st')

section Acts

variable {st mid st' : State} {th th' : Thread} {o : Option Nat} {q : Queue} {p : Point} {s : Sem}
  {t n : Nat}

theorem Does.refl (st : State) : Does o st st := ⟨[], .nil st, by simp [Within]⟩

theorem Does.trans (first : Does o st mid) (second : Does o mid st') : Does o st st' := by
  obtain ⟨acts, chain, within⟩ := first
  obtain ⟨acts', chain', within'⟩ := second
  refine ⟨acts ++ acts', chain.append chain', ?_⟩
  intro a there
  obtain there | there := List.mem_append.mp there
  · exact within a there
  · exact within' a there

theorem Does.one {a : Act} (change : Change st a st') (keeps : a.passes = false)
    (within : ∀ t, a.About t → o = some t) : Does o st st' := by
  refine ⟨[a], .one change, ?_⟩
  simpa [Within] using ⟨keeps, within⟩

theorem does_wake (kept : Kept st) (woken : st.wake q = some st')
    (covers : Under q.about o) : Does o st st' := by
  obtain rfl | ⟨t, rest, key, head, woken⟩ := wake_cases woken
  · exact .refl _
  · obtain ⟨th, object, rfl⟩ := readyToRun_eq_some woken
    obtain ⟨_, found, blocked, waits⟩ := kept.placed.queued q t (by simp [head, items])
    obtain rfl : th = _ := Option.some.inj (object.symm.trans found)
    exact .one (.wake head object blocked waits) rfl covers

theorem does_wakeAll {n : Nat} (kept : Kept st) (woken : State.wakeAll q n st = some st')
    (covers : Under q.about o) : Does o st st' := by
  induction n generalizing st with
  | zero =>
      cases woken
      exact .refl _
  | succ n ih =>
      obtain ⟨mid, first, rest⟩ := Option.bind_eq_some_iff.mp woken
      exact (does_wake kept first covers).trans (ih (kept.wake first) rest)

theorem does_value (covers : Under s.about o) (v : Int) :
    Does o st (st.setValue s v) :=
  .one (.value s v) rfl covers

theorem does_semV (kept : Kept st) (raised : st.semV s = some st')
    (covers : Under s.about o) : Does o st st' := by
  obtain ⟨mid, woken, rfl⟩ := semV_eq_some raised
  exact (does_wake kept woken covers).trans (does_value covers _)

theorem does_sleepIn (runs : Runs st th) (slept : st.sleepIn q p = some st')
    (waits : p.queue st.currentThread = some q) (plain : ∀ s, p = .p s → s.about = none)
    (here : Under (th.point.about st.currentThread) o)
    (there : Under (p.about st.currentThread) o)
    (queue : Under q.about o) : Does o st st' := by
  simp only [State.sleepIn, runs.current] at slept
  cases slept
  refine .one (.sleep runs.current runs.status waits plain) rfl ?_
  rintro t (about | about | about)
  · exact here t about
  · exact there t about
  · exact queue t about

/-- The current thread goes on, and nobody else is concerned. -/
theorem does_shift (runs : Runs st th) (status : th'.status = .running)
    (joining : th'.joining = th.joining) (enabled : th'.point.enabled = true)
    (here : Under (th.point.about st.currentThread) o)
    (there : Under (th'.point.about st.currentThread) o) :
    Does o st (st.setThread st.currentThread th') := by
  refine .one (.shift runs.mode runs.current runs.status status joining enabled) rfl ?_
  rintro t (about | about)
  · exact here t about
  · exact there t about

theorem does_goTo (runs : Runs st th) (moved : st.goTo p = some st') (enabled : p.enabled = true)
    (here : Under (th.point.about st.currentThread) o)
    (there : Under (p.about st.currentThread) o) : Does o st st' := by
  simp only [State.goTo, runs.current] at moved
  cases moved
  exact does_shift runs runs.status rfl enabled here there

/-- A turn of `P`: the thread sleeps, or takes the semaphore and goes on. -/
theorem does_semP {andThen : State → Option State} (runs : Runs st th)
    (passed : st.semP s p andThen = some st')
    (waits : p.queue st.currentThread = some (.semaphore s))
    (plain : ∀ s, p = .p s → s.about = none)
    (here : Under (th.point.about st.currentThread) o)
    (there : Under (p.about st.currentThread) o) (covers : Under s.about o)
    (goesOn : ∀ v st', andThen (st.setValue s v) = some st' → Does o (st.setValue s v) st') :
    Does o st st' := by
  unfold State.semP at passed
  split at passed
  · exact does_sleepIn runs passed waits plain here there covers
  · exact (does_value covers _).trans (goesOn _ _ passed)

theorem does_lockAcquire {l : Nat} (runs : Runs st th)
    (here : Under (th.point.about st.currentThread) o)
    (taken : st.lockAcquire l = some st') : Does o st st' := by
  unfold State.lockAcquire at taken
  split at taken
  · exact does_sleepIn runs taken rfl nofun here (under_none o) (under_none o)
  · have locked := runs.setLock l true (some st.currentThread)
    refine Does.trans (.one (.lock l true (some st.currentThread)) rfl nofun) ?_
    exact does_goTo locked taken rfl here (under_none o)

theorem does_lockRelease {l : Nat} (kept : Kept st) (freed : st.lockRelease l = some st') :
    Does o st st' := by
  obtain ⟨mid, woken, rfl⟩ := lockRelease_eq_some freed
  exact (does_wake kept woken (under_none o)).trans (.one (.lock l false none) rfl nofun)

theorem wake_pointOf (woken : st.wake q = some st') (t : Nat) : st'.pointOf t = st.pointOf t := by
  obtain rfl | ⟨u, rest, key, -, woken⟩ := wake_cases woken
  · rfl
  · obtain ⟨th, object, rfl⟩ := readyToRun_eq_some woken
    by_cases same : t = u
    · subst same
      have object : st.threads t = some th := object
      simp [State.pointOf, object]
    · simp [State.pointOf, State.setThread_threads_of_ne, same]

theorem semV_pointOf (raised : st.semV s = some st') (t : Nat) : st'.pointOf t = st.pointOf t := by
  obtain ⟨mid, woken, rfl⟩ := semV_eq_some raised
  exact wake_pointOf woken t

theorem lockRelease_pointOf {l : Nat} (freed : st.lockRelease l = some st') (t : Nat) :
    st'.pointOf t = st.pointOf t := by
  obtain ⟨mid, woken, rfl⟩ := lockRelease_eq_some freed
  exact wake_pointOf woken t

theorem does_conditionWait {c l : Nat} (runs : Runs st th)
    (here : Under (th.point.about st.currentThread) o)
    (waited : st.conditionWait c l = some st') : Does o st st' := by
  unfold State.conditionWait at waited
  split at waited
  · obtain ⟨mid, freed, slept⟩ := Option.bind_eq_some_iff.mp waited
    obtain ⟨⟨th', runs'⟩, same⟩ := runs.lockRelease freed
    have point : th'.point = th.point := by
      have current := runs'.current
      rw [same] at current
      have moved := lockRelease_pointOf freed st.currentThread
      simpa [State.pointOf, current, runs.current] using moved
    refine (does_lockRelease runs.kept freed).trans ?_
    refine does_sleepIn runs' slept rfl nofun ?_ (under_none o) (under_none o)
    rw [point, same]
    exact here
  · cases waited

theorem does_die (runs : Runs st th) (here : Under (th.point.about st.currentThread) o)
    (self : o = some st.currentThread) (died : st.die = some st') : Does o st st' := by
  simp only [State.die, runs.current] at died
  cases died
  refine .one (.die runs.current runs.status) rfl ?_
  rintro t (rfl | about)
  · exact self
  · exact here t about

/-- The code after `SWITCH`. -/
theorem destroy_deletes (deleted : st.destroy = some st')
    (finished : ∀ d, st.threadToBeDestroyed = some d →
      d < st.next ∧ ∀ th, st.threads d = some th → th.point = .finished) :
    st' = st ∨ ∃ d, Change st (.delete d) st' := by
  unfold State.destroy at deleted
  cases record : st.threadToBeDestroyed with
  | none =>
      rw [record] at deleted
      exact .inl (Option.some.inj deleted).symm
  | some d =>
      rw [record] at deleted
      obtain ⟨th, object, rest⟩ := Option.bind_eq_some_iff.mp deleted
      split at rest
      · cases rest
      rename_i differ
      cases rest
      obtain ⟨created, dead⟩ := finished d record
      exact .inr ⟨d, .delete record created object (dead th object) differ⟩

/-- What stands in `threadToBeDestroyed` has finished. -/
theorem Kept.recorded_finished {d : Nat} (kept : Kept st)
    (record : st.threadToBeDestroyed = some d) :
    d < st.next ∧ ∀ th, st.threads d = some th → th.point = .finished := by
  obtain ⟨found, there⟩ :=
    kept.books.logged.recorded_finish (kept.books.record.symm.trans record)
  exact kept.books.finished d found there

/-- `Run`, from the state in which the current thread was put back or not. -/
theorem run_switches {base : State} {key : Int} {rest list : List (ListElement Nat)}
    {old now next : Thread} (kept : Kept st) (ran : base.run n = some st')
    (saved : ∀ x, base.setThread st.currentThread x =
      { st.setThread st.currentThread x with readyList := list })
    (same : base.currentThread = st.currentThread)
    (head : st.readyList = ⟨n, key⟩ :: rest)
    (current : st.threads st.currentThread = some old)
    (later : base.threads st.currentThread = some now)
    (turn : Turn st old now rest list)
    (point : now.point = old.point) (joining : now.joining = old.joining)
    (object : base.threads n = some next) (ready : next.status = .ready) : Switches st st' := by
  unfold State.run at ran
  rw [same] at ran
  obtain ⟨_, found, ran⟩ := Option.bind_eq_some_iff.mp ran
  obtain rfl : now = _ := Option.some.inj (later.symm.trans found)
  rw [saved] at ran
  obtain ⟨th, object', ran⟩ := Option.bind_eq_some_iff.mp ran
  have ready' : th.status = .ready := by
    by_cases self : n = st.currentThread
    · subst self
      cases object'.symm.trans (st.setThread_threads_self _ _)
      cases object.symm.trans later
      exact ready
    · have other : st.threads n = some th :=
        (State.setThread_threads_of_ne _ _ _ self).symm.trans object'
      have still := State.setThread_threads_of_ne base st.currentThread now self
      rw [saved, object] at still
      obtain rfl : th = next := by
        simpa [State.setThread_threads_of_ne, self, other] using still
      exact ready
  have turn' : Turn st old { now with pcState := .run } rest list := turn
  have switch : ∀ entry, entry = .first n ∨ entry = .resume n →
      Change st (.switch n)
        { (st.setThread st.currentThread { now with pcState := .run }).setThread n
          { th with status := .running } with
        readyList := list
        currentThread := n
        mode := .thread
        log := entry :: st.log } := fun entry dispatched =>
    .switch head current turn' point joining object' ready' dispatched
  split at ran
  · cases ran
    exact ⟨n, _, switch _ (.inl rfl), .inl rfl⟩
  · refine ⟨n, _, switch _ (.inr rfl), destroy_deletes ran ?_⟩
    intro d record
    obtain ⟨created, finished⟩ := kept.recorded_finished record
    refine ⟨created, fun thd gone => ?_⟩
    have gone : ((st.setThread st.currentThread { now with pcState := .run }).setThread n
      { th with status := .running }).threads d = some thd := gone
    have before : ∀ x, (st.setThread st.currentThread { now with pcState := .run }).threads d =
        some x → x.point = .finished := by
      intro x there
      by_cases self : d = st.currentThread
      · subst self
        cases there.symm.trans (st.setThread_threads_self _ _)
        exact point.trans (finished old current)
      · exact finished x ((State.setThread_threads_of_ne _ _ _ self).symm.trans there)
    by_cases self : d = n
    · subst self
      cases gone.symm.trans (State.setThread_threads_self _ _ _)
      exact before th object'
    · exact before thd ((State.setThread_threads_of_ne _ _ _ self).symm.trans gone)

theorem dispatch_switches (kept : Kept st) (asleep : st.mode ≠ .thread)
    (dispatched : st.dispatch = some st') : Switches st st' := by
  obtain ⟨⟨n, rest⟩, removed, ran⟩ := Option.bind_eq_some_iff.mp dispatched
  obtain ⟨key, head⟩ := remove_eq_some removed
  obtain ⟨-, -, th, object, ready⟩ := kept.findNextToRun removed
  obtain ⟨old, current, -⟩ := Option.bind_eq_some_iff.mp ran
  exact run_switches kept ran (fun _ => rfl) rfl head current current (.inl ⟨asleep, rfl, rfl⟩)
    rfl rfl object ready

theorem yield_switches (runs : Runs st th) (yielded : st.yield = some st') :
    st' = st ∨ Switches st st' := by
  unfold State.yield at yielded
  cases removed : remove st.readyList with
  | none =>
      rw [removed] at yielded
      exact .inl (Option.some.inj yielded).symm
  | some pair =>
      obtain ⟨n, rest⟩ := pair
      rw [removed] at yielded
      obtain ⟨mid, woken, ran⟩ := Option.bind_eq_some_iff.mp yielded
      obtain ⟨key, head⟩ := remove_eq_some removed
      obtain ⟨-, -, next, object, ready⟩ := runs.kept.findNextToRun removed
      have differ : n ≠ st.currentThread := by
        rintro rfl
        cases object.symm.trans runs.current
        rw [runs.status] at ready
        cases ready
      obtain ⟨_, found, rfl⟩ := readyToRun_eq_some woken
      obtain rfl : th = _ := Option.some.inj (runs.current.symm.trans found)
      right
      refine run_switches runs.kept ran ?_ rfl head runs.current
        (State.setThread_threads_self _ _ _) (.inr ⟨runs.mode, runs.status, rfl, rfl⟩) rfl rfl
        ((State.setThread_threads_of_ne _ _ _ differ).trans object) ready
      intro x
      simp [State.setThread]

theorem does_create (kept : Kept st) (joining : Bool) :
    Does (some st.next) st (st.create joining) := by
  have fresh : st.threads st.next = none := by
    cases object : st.threads st.next with
    | none => rfl
    | some th => exact absurd (kept.placed.created _ th object) (Nat.lt_irrefl _)
  refine .one (.create joining fresh) rfl ?_
  rintro t rfl
  rfl

/-- A new thread has not gone anywhere. -/
def Fresh (st : State) : Prop :=
  ∀ t th, st.threads t = some th → th.status = .justCreated → th.point = .body

theorem does_fork (fresh : Fresh st) (new : st.statusOf t = some .justCreated)
    (forked : st.fork t = some st') : Does o st st' := by
  obtain ⟨th, object, rest⟩ := Option.bind_eq_some_iff.mp forked
  obtain ⟨_, found, created⟩ := statusOf_eq.mp new
  rw [object] at found
  cases found
  obtain ⟨_, found, rfl⟩ := readyToRun_eq_some rest
  cases found.symm.trans (State.setThread_threads_self _ _ _)
  have adjusted :
      Change st .adjust (st.setThread t { th with pcState := .threadRoot, point := .body }) :=
    .adjust object rfl (fresh t th object created).symm rfl
  exact (Does.one adjusted rfl nofun).trans
    (.one (.ready (State.setThread_threads_self _ _ _) created) rfl nofun)

theorem does_finish (runs : Runs st th) (here : th.point = .body)
    (finished : st.finish = some st') : Does (some st.currentThread) st st' := by
  obtain ⟨_, current, rest⟩ := Option.bind_eq_some_iff.mp finished
  split at rest
  · obtain ⟨mid, raised, passed⟩ := Option.bind_eq_some_iff.mp rest
    obtain ⟨mode, same⟩ := semV_frame raised
    obtain ⟨th', runs'⟩ := (runs.kept.semV raised).runs (mode.trans runs.mode)
    have point : th'.point = .body := by
      have current' := runs'.current
      rw [same] at current'
      have moved := semV_pointOf raised st.currentThread
      simpa [State.pointOf, current', runs.current, here] using moved
    refine (does_semV runs.kept raised (under_self _)).trans ?_
    refine does_semP runs' passed (by simp [Point.queue, same]) nofun ?_ ?_ ?_ ?_
    · simp [point, Point.about]
    · simp [same, Point.about, Sem.about]
    · simp [same, Sem.about]
    · intro v st' died
      refine does_die (runs'.setValue _ v) ?_ (by simp [State.setValue, same, Sem.about]) died
      simp [point, Point.about]
  · exact does_die runs (by simp [here, Point.about]) rfl rest

/-- A turn of `joinSignal->P()` in `Join`. -/
theorem does_joinTurn (runs : Runs st th) (here : Under (th.point.about st.currentThread) (some t))
    (passed : st.semP (.joinSignal t) (.join t) (State.goTo · (.joined t)) = some st') :
    Does (some t) st st' := by
  refine does_semP runs passed rfl nofun here (under_self _) (under_self _) ?_
  intro v st' moved
  exact does_goTo (runs.setValue _ v) moved rfl here (under_self _)

theorem does_joinRest (runs : Runs st th) (here : th.point = .joined t)
    (joined : st.joinRest t = some st') : Does (some t) st st' := by
  obtain ⟨th', object, rest⟩ := Option.bind_eq_some_iff.mp joined
  obtain ⟨_, current, rest⟩ := Option.bind_eq_some_iff.mp rest
  rw [runs.current] at current
  cases current
  have changed : Runs (st.setThread st.currentThread
      { th with exitStatus := th'.exitStatus, point := .body }) _ :=
    runs.adjust runs.status (by simp)
  refine Does.trans (does_shift runs ?_ ?_ ?_ ?_ ?_) (does_semV changed.kept rest (under_self _))
  · exact runs.status
  · rfl
  · rfl
  · simp [here, Point.about]
  · exact under_none _

theorem does_proceed (runs : Runs st th) (plain : ∀ s, th.point = .p s → s.about = none)
    (proceeded : st.proceed = some st') :
    Does (th.point.about st.currentThread) st st' := by
  obtain ⟨_, current, rest⟩ := Option.bind_eq_some_iff.mp proceeded
  rw [runs.current] at current
  cases current
  cases here : th.point with
  | p s =>
      rw [here] at rest
      have other := plain s here
      refine does_semP runs rest rfl ?_ ?_ (under_none _) ?_ ?_
      · rintro _ ⟨⟩
        exact other
      · simp [here, Point.about]
      · simp [other]
      · intro v st' moved
        exact does_goTo (runs.setValue _ v) moved rfl (by simp [here, Point.about]) (under_none _)
  | acquire l =>
      rw [here] at rest
      exact does_lockAcquire runs (by simp [here, Point.about]) rest
  | wait c l =>
      rw [here] at rest
      exact does_lockAcquire runs (by simp [here, Point.about]) rest
  | join t =>
      rw [here] at rest
      obtain ⟨_, -, rest⟩ := Option.bind_eq_some_iff.mp rest
      split at rest
      · exact does_joinTurn runs (by simp [here, Point.about]) rest
      · cases rest
  | joined t =>
      rw [here] at rest
      exact does_joinRest runs here rest
  | finish =>
      rw [here] at rest
      refine does_semP runs rest rfl nofun ?_ (under_self _) (under_self _) ?_
      · simp [here, Point.about]
      · intro v st' died
        exact does_die (runs.setValue _ v) (by rw [here]; exact under_self _) rfl died
  | body =>
      rw [here] at rest
      cases rest
  | finished =>
      rw [here] at rest
      cases rest

theorem does_call {e : Event} (runs : Runs st th) (here : th.point = .body) (fresh : Fresh st)
    (called : st.call e = some st') : Does (st.concerns e) st st' := by
  have body : th.point.about st.currentThread = none := by rw [here]; rfl
  have under : ∀ o, Under (th.point.about st.currentThread) o := by simp [body]
  cases e with
  | create joining =>
      cases called
      exact does_create runs.kept joining
  | setPriority t priority =>
      obtain ⟨th', object, rest⟩ := Option.bind_eq_some_iff.mp called
      cases rest
      exact .one (.adjust object rfl rfl rfl) rfl nofun
  | setExitStatus status =>
      obtain ⟨th', object, rest⟩ := Option.bind_eq_some_iff.mp called
      cases rest
      exact .one (.adjust object rfl rfl rfl) rfl nofun
  | fork t =>
      simp only [State.call] at called
      split at called
      · rename_i new
        exact does_fork fresh new called
      · cases called
  | p i =>
      simp only [State.call] at called
      refine does_semP runs called rfl ?_ (under _) (under_none _) (under_none _) ?_
      · rintro _ ⟨⟩
        rfl
      · intro v st' moved
        exact does_goTo (runs.setValue _ v) moved rfl (under _) (under_none _)
  | v i => exact does_semV runs.kept called (under_none _)
  | acquire l =>
      simp only [State.call] at called
      split at called
      · cases called
      · exact does_lockAcquire runs (under _) called
  | release l => exact does_lockRelease runs.kept called
  | wait c l => exact does_conditionWait runs (under _) called
  | signal c l =>
      simp only [State.call] at called
      split at called
      · exact does_wake runs.kept called (under_none _)
      · cases called
  | broadcast c l =>
      simp only [State.call] at called
      split at called
      · exact does_wakeAll runs.kept called (under_none _)
      · cases called
  | join t =>
      obtain ⟨th', object, rest⟩ := Option.bind_eq_some_iff.mp called
      split at rest
      · exact does_joinTurn runs (under _) rest
      · cases rest
  | finish => exact does_finish runs here called
  | yield => cases called
  | proceed => cases called
  | interrupt i => cases called
  | idle => cases called
  | dispatch => cases called

/-- The current thread of a state in which calls can be made. -/
theorem Kept.inBody (kept : Kept st) (body : st.inBody = true) :
    ∃ th, Runs st th ∧ th.point = .body := by
  simp only [State.inBody, decide_eq_true_eq] at body
  obtain ⟨th, runs⟩ := kept.runs body.1
  exact ⟨th, runs, by simpa [runs.current] using body.2⟩

theorem Kept.preemptible (kept : Kept st) (on : st.preemptible = true) :
    ∃ th, Runs st th ∧ th.point.enabled = true := by
  simp only [State.preemptible, decide_eq_true_eq] at on
  obtain ⟨th, runs⟩ := kept.runs on.1
  exact ⟨th, runs, by simpa [runs.current] using on.2⟩

/-- **An event is a chain of acts**, and those that have to do with the end of a thread
have to do with the one the event concerns, or the event passes the processor on. -/
theorem step_does {e : Event} (kept : Kept st)
    (plain : ∀ t s, st.pointOf t = some (.p s) → s.about = none) (fresh : Fresh st)
    (stepped : st.step e = some st') : Does (st.concerns e) st st' ∨ Switches st st' := by
  have calls : ∀ {e}, (if st.inBody then st.call e else none) = some st' →
      Does (st.concerns e) st st' := by
    intro e called
    split at called
    · rename_i body
      obtain ⟨th, runs, here⟩ := kept.inBody body
      exact does_call runs here fresh called
    · cases called
  cases e with
  | yield =>
      simp only [State.step] at stepped
      split at stepped
      · rename_i on
        obtain ⟨th, runs, -⟩ := kept.preemptible on
        obtain rfl | switches := yield_switches runs stepped
        · exact .inl (.refl _)
        · exact .inr switches
      · cases stepped
  | proceed =>
      simp only [State.step] at stepped
      split at stepped
      · rename_i mode
        obtain ⟨th, runs⟩ := kept.runs mode
        have here : st.pointOf st.currentThread = some th.point := by
          simp [State.pointOf, runs.current]
        have moved := does_proceed runs
          (fun s at_p => plain _ s (here.trans (by rw [at_p]))) stepped
        exact .inl (by simpa [State.concerns, here] using moved)
      · cases stepped
  | interrupt i =>
      simp only [State.step] at stepped
      split at stepped
      · exact .inl (does_semV kept stepped (under_none _))
      · cases stepped
  | idle =>
      simp only [State.step] at stepped
      split at stepped
      · rename_i asleep
        cases stepped
        exact .inl (.one (.idle (by simp [asleep.1])) rfl (by rintro _ ⟨⟩))
      · cases stepped
  | dispatch =>
      simp only [State.step] at stepped
      split at stepped
      · cases stepped
      · rename_i asleep
        exact .inr (dispatch_switches kept asleep stepped)
  | create => exact .inl (calls stepped)
  | setPriority => exact .inl (calls stepped)
  | setExitStatus => exact .inl (calls stepped)
  | fork => exact .inl (calls stepped)
  | p => exact .inl (calls stepped)
  | v => exact .inl (calls stepped)
  | acquire => exact .inl (calls stepped)
  | release => exact .inl (calls stepped)
  | wait => exact .inl (calls stepped)
  | signal => exact .inl (calls stepped)
  | broadcast => exact .inl (calls stepped)
  | join => exact .inl (calls stepped)
  | finish => exact .inl (calls stepped)

end Acts

/-! ## Every thread has a place -/

/-- The thread the queue belonged to was deleted. -/
def State.Gone (st : State) (q : Queue) : Prop :=
  ∃ d, q.about = some d ∧ d < st.next ∧ st.threads d = none

/-- A thread that is not running and has not finished is in a list, if its queue is still
there. -/
structure Seated (st : State) : Prop where
  ready : ∀ t th, st.threads t = some th → th.status = .ready → t ∈ items st.readyList
  running : ∀ t th, st.threads t = some th → th.status = .running →
    st.mode = .thread ∧ t = st.currentThread
  blocked : ∀ t th, st.threads t = some th → th.status = .blocked → th.point ≠ .finished →
    ∃ q, th.point.queue t = some q ∧ (t ∈ items (st.queues q) ∨ st.Gone q)
  fresh : Fresh st
  plain : ∀ t s, st.pointOf t = some (.p s) → s.about = none

section Seating

variable {st st' : State} {a : Act} {t : Nat} {th th' : Thread}

/-- The fields that say where threads are. -/
theorem Seated.congr (seated : Seated st) (threads : st'.threads = st.threads)
    (readyList : st'.readyList = st.readyList) (queues : st'.queues = st.queues)
    (mode : st'.mode = st.mode) (current : st'.currentThread = st.currentThread)
    (next : st.next ≤ st'.next) : Seated st' := by
  have gone : ∀ q, st.Gone q → st'.Gone q := by
    rintro q ⟨d, about, created, none⟩
    exact ⟨d, about, by omega, by rw [threads, none]⟩
  constructor
  · rw [threads, readyList]
    exact seated.ready
  · rw [threads, mode, current]
    exact seated.running
  · intro t th object blocked live
    rw [threads] at object
    obtain ⟨q, waits, there⟩ := seated.blocked t th object blocked live
    exact ⟨q, waits, queues ▸ there.imp id (gone q)⟩
  · unfold Fresh
    rw [threads]
    exact seated.fresh
  · intro t s
    rw [State.pointOf, threads]
    exact seated.plain t s

/-- One thread object changes, and the lists follow. -/
theorem Seated.replace (seated : Seated st)
    (threads : st'.threads = Function.update st.threads t (some th'))
    (next : st.next ≤ st'.next) (here : t < st.next → st.threads t ≠ none)
    (lists : ∀ u, u ≠ t → u ∈ items st.readyList → u ∈ items st'.readyList)
    (queues : ∀ u q, u ≠ t → u ∈ items (st.queues q) → u ∈ items (st'.queues q))
    (others : ∀ u th, u ≠ t → st.threads u = some th → th.status = .running →
      st'.mode = .thread ∧ u = st'.currentThread)
    (ready : th'.status = .ready → t ∈ items st'.readyList)
    (running : th'.status = .running → st'.mode = .thread ∧ t = st'.currentThread)
    (blocked : th'.status = .blocked → th'.point ≠ .finished →
      ∃ q, th'.point.queue t = some q ∧ (t ∈ items (st'.queues q) ∨ st.Gone q))
    (fresh : th'.status = .justCreated → th'.point = .body)
    (plain : ∀ s, th'.point = .p s → s.about = none) : Seated st' := by
  have found : ∀ u x, st'.threads u = some x → (u = t ∧ x = th') ∨
      (u ≠ t ∧ st.threads u = some x) := by
    intro u x object
    by_cases same : u = t
    · subst same
      rw [threads, Function.update_self] at object
      exact .inl ⟨rfl, (Option.some.inj object).symm⟩
    · rw [threads, Function.update_of_ne same] at object
      exact .inr ⟨same, object⟩
  have gone : ∀ q, st.Gone q → st'.Gone q := by
    rintro q ⟨d, about, created, none⟩
    have differ : d ≠ t := by
      rintro rfl
      exact here created none
    exact ⟨d, about, by omega, by rw [threads, Function.update_of_ne differ, none]⟩
  constructor
  · intro u x object status
    obtain ⟨rfl, rfl⟩ | ⟨differ, object⟩ := found u x object
    · exact ready status
    · exact lists u differ (seated.ready u x object status)
  · intro u x object status
    obtain ⟨rfl, rfl⟩ | ⟨differ, object⟩ := found u x object
    · exact running status
    · exact others u x differ object status
  · intro u x object status live
    obtain ⟨rfl, rfl⟩ | ⟨differ, object⟩ := found u x object
    · obtain ⟨q, waits, there⟩ := blocked status live
      exact ⟨q, waits, there.imp id (gone q)⟩
    · obtain ⟨q, waits, there⟩ := seated.blocked u x object status live
      exact ⟨q, waits, there.imp (queues u q differ) (gone q)⟩
  · intro u x object status
    obtain ⟨rfl, rfl⟩ | ⟨differ, object⟩ := found u x object
    · exact fresh status
    · exact seated.fresh u x object status
  · intro u s at_p
    obtain ⟨x, object, point⟩ : ∃ x, st'.threads u = some x ∧ x.point = .p s := by
      simpa [State.pointOf] using at_p
    obtain ⟨rfl, rfl⟩ | ⟨differ, object⟩ := found u x object
    · exact plain s point
    · exact seated.plain u s (by simp [State.pointOf, object, point])

theorem Seated.plain_of (seated : Seated st) (object : st.threads t = some th) {s : Sem}
    (point : th.point = .p s) : s.about = none :=
  seated.plain t s (by simp [State.pointOf, object, point])

theorem Seated.adjust (seated : Seated st) (object : st.threads t = some th)
    (status : th'.status = th.status) (point : th'.point = th.point) :
    Seated (st.setThread t th') := by
  refine seated.replace rfl (Nat.le_refl _) (by simp [object]) (fun _ _ => id)
    (fun _ _ _ => id) ?_ ?_ ?_ ?_ ?_ ?_
  · exact fun u x _ => seated.running u x
  · exact fun now => seated.ready t th object (status ▸ now)
  · exact fun now => seated.running t th object (status ▸ now)
  · intro now live
    rw [point]
    exact seated.blocked t th object (status ▸ now) (point ▸ live)
  · exact fun now => point.trans (seated.fresh t th object (status ▸ now))
  · exact fun s at_p => seated.plain_of object (point ▸ at_p)

theorem Seated.sleep {p : Point} {q : Queue} (seated : Seated st)
    (current : st.threads st.currentThread = some th)
    (waits : p.queue st.currentThread = some q) (plain : ∀ s, p = .p s → s.about = none) :
    Seated { (st.setThread st.currentThread { th with status := .blocked, point := p }).setQueue q
      (sortedInsert st.currentThread th.key (st.queues q)) with mode := .sleep } := by
  refine seated.replace rfl (Nat.le_refl _) (by simp [current])
    (fun _ _ => id) ?_ ?_ nofun nofun ?_ nofun plain
  · intro u r differ there
    by_cases same : r = q
    · subst same
      simpa using .inr there
    · simpa [State.setQueue_queues_of_ne, same] using there
  · intro u x differ object running
    exact absurd (seated.running u x object running).2 differ
  · exact fun _ _ => ⟨q, waits, .inl (by simp)⟩

/-- The thread that is woken is in the ready list, and the others stay where they are. -/
theorem Seated.wake {q : Queue} {key : Int} {rest : List (ListElement Nat)} (seated : Seated st)
    (head : st.queues q = ⟨t, key⟩ :: rest) (object : st.threads t = some th) :
    Seated { (st.setQueue q rest).setThread t { th with status := .ready } with
      readyList := sortedInsert t th.key st.readyList } := by
  refine seated.replace rfl (Nat.le_refl _) (by simp [object]) ?_ ?_
    (fun u x _ => seated.running u x) ?_ nofun
    nofun nofun ?_
  · exact fun u _ there => mem_items_sortedInsert.mpr (.inr there)
  · intro u r differ there
    by_cases same : r = q
    · subst same
      rw [head] at there
      have there : u = t ∨ u ∈ items rest := by simpa [items] using there
      simpa using there.resolve_left differ
    · simpa [State.setQueue_queues_of_ne, same] using there
  · exact fun _ => mem_items_sortedInsert.mpr (.inl rfl)
  · exact fun s => seated.plain_of object

theorem Seated.readied (seated : Seated st) (object : st.threads t = some th) :
    Seated { st.setThread t { th with status := .ready } with
      readyList := sortedInsert t th.key st.readyList } := by
  refine seated.replace rfl (Nat.le_refl _) (by simp [object]) ?_ (fun _ _ _ => id)
    (fun u x _ => seated.running u x) ?_ nofun nofun nofun ?_
  · exact fun u _ there => mem_items_sortedInsert.mpr (.inr there)
  · exact fun _ => mem_items_sortedInsert.mpr (.inl rfl)
  · exact fun s => seated.plain_of object

theorem Seated.die (seated : Seated st) (current : st.threads st.currentThread = some th) :
    Seated { st.setThread st.currentThread { th with status := .blocked, point := .finished } with
      mode := .sleep
      threadToBeDestroyed := some st.currentThread
      log := .finish st.currentThread st.threadToBeDestroyed :: st.log } := by
  refine seated.replace rfl (Nat.le_refl _) (by simp [current]) (fun _ _ => id)
    (fun _ _ _ => id) ?_ nofun nofun
    ?_ nofun nofun
  · intro u x differ object running
    exact absurd (seated.running u x object running).2 differ
  · exact fun _ live => absurd rfl live

theorem Seated.create (seated : Seated st) (joining : Bool) : Seated (st.create joining) := by
  have made : Seated (st.setThread st.next
      { key := 0, joining, status := .justCreated, pcState := .threadRoot
        exitStatus := none, point := .body }) := by
    refine seated.replace rfl (Nat.le_refl _) (fun less => absurd less (Nat.lt_irrefl _))
      (fun _ _ => id)
      (fun _ _ _ => id) ?_ nofun nofun nofun (fun _ => rfl) nofun
    exact fun u x _ => seated.running u x
  exact made.congr rfl rfl rfl rfl rfl (Nat.le_succ _)

theorem Seated.switch {n : Nat} {key : Int} {rest list : List (ListElement Nat)}
    {old old' : Thread} {entry : Record} (seated : Seated st)
    (head : st.readyList = ⟨n, key⟩ :: rest) (current : st.threads st.currentThread = some old)
    (turn : Turn st old old' rest list) (point : old'.point = old.point)
    (object : (st.setThread st.currentThread old').threads n = some th) :
    Seated { (st.setThread st.currentThread old').setThread n { th with status := .running } with
      readyList := list
      currentThread := n
      mode := .thread
      log := entry :: st.log } := by
  -- while the processor is passed on nobody runs, and `n` is still first in the list
  have saved : Seated { st.setThread st.currentThread old' with
      readyList := ⟨n, key⟩ :: list
      mode := .sleep } := by
    have later : ∀ u, u ∈ items st.readyList → u ∈ items (⟨n, key⟩ :: list) := by
      intro u there
      rw [head] at there
      obtain ⟨-, -, rfl⟩ | ⟨-, -, -, rfl⟩ := turn
      · exact there
      · have there : u = n ∨ u ∈ items rest := by simpa [items] using there
        exact List.mem_cons.mpr (there.imp id fun there => mem_items_sortedInsert.mpr (.inr there))
    refine seated.replace rfl (Nat.le_refl _) (by simp [current]) (fun u _ => later u)
      (fun _ _ _ => id)
      ?_ ?_ ?_ ?_ ?_ ?_
    · intro u x differ object running
      exact absurd (seated.running u x object running).2 differ
    · intro ready
      obtain ⟨-, status, -⟩ | ⟨-, -, -, rfl⟩ := turn
      · exact later _ (seated.ready _ old current (status ▸ ready))
      · exact List.mem_cons_of_mem _ (mem_items_sortedInsert.mpr (.inl rfl))
    · intro running
      obtain ⟨asleep, status, -⟩ | ⟨-, -, status, -⟩ := turn
      · exact absurd (seated.running _ old current (status ▸ running)).1 asleep
      · rw [status] at running
        cases running
    · intro blocked live
      obtain ⟨-, status, -⟩ | ⟨-, -, status, -⟩ := turn
      · rw [point]
        exact seated.blocked _ old current (status ▸ blocked) (point ▸ live)
      · rw [status] at blocked
        cases blocked
    · intro created
      obtain ⟨-, status, -⟩ | ⟨-, -, status, -⟩ := turn
      · exact point.trans (seated.fresh _ old current (status ▸ created))
      · rw [status] at created
        cases created
    · exact fun s at_p => seated.plain_of current (point ▸ at_p)
  refine saved.replace rfl (Nat.le_refl _) (fun _ => ?_) ?_ (fun _ _ _ => id) ?_ nofun
    (fun _ => ⟨rfl, rfl⟩) nofun
    nofun ?_
  · exact fun none => by cases object.symm.trans none
  · intro u differ there
    have there : u = n ∨ u ∈ items list := by simpa [items] using there
    exact there.resolve_left differ
  · intro u x _ object running
    cases (saved.running u x object running).1
  · exact fun s => saved.plain_of object

/-- Who waits at a thread that is deleted stays blocked, and in no queue. -/
theorem Seated.delete {d : Nat} (seated : Seated st) (created : d < st.next) :
    Seated { st.deleteThread d with
      threadToBeDestroyed := none
      log := .delete d :: st.log } := by
  have remains : ∀ u x, (st.deleteThread d).threads u = some x → st.threads u = some x := by
    intro u x object
    by_cases same : u = d
    · simp [State.deleteThread, same] at object
    · simpa [State.deleteThread, same] using object
  have gone : ∀ q, st.Gone q → (st.deleteThread d).Gone q := by
    rintro q ⟨e, about, created, none⟩
    refine ⟨e, about, created, ?_⟩
    by_cases same : e = d
    · simp [State.deleteThread, same]
    · simpa [State.deleteThread, same] using none
  have taken : ∀ q, q.about = some d → (st.deleteThread d).Gone q := fun q about =>
    ⟨d, about, created, by simp [State.deleteThread]⟩
  constructor
  · exact fun u x object => seated.ready u x (remains u x object)
  · exact fun u x object => seated.running u x (remains u x object)
  · intro u x object blocked live
    obtain ⟨q, waits, there⟩ := seated.blocked u x (remains u x object) blocked live
    refine ⟨q, waits, ?_⟩
    by_cases about : q.about = some d
    · exact .inr (taken q about)
    · refine there.imp (fun there => ?_) (gone q)
      have death : q ≠ .semaphore (.mayDie d) := by
        rintro rfl
        exact about rfl
      have signal : q ≠ .semaphore (.joinSignal d) := by
        rintro rfl
        exact about rfl
      simpa [State.deleteThread, State.setQueue, death, signal] using there
  · exact fun u x object => seated.fresh u x (remains u x object)
  · intro u s at_p
    obtain ⟨x, object, point⟩ : ∃ x, (st.deleteThread d).threads u = some x ∧ x.point = .p s := by
      simpa [State.pointOf] using at_p
    exact seated.plain_of (remains u x object) point

/-- **Every act leaves the threads in their places.** -/
theorem Seated.change (seated : Seated st) (change : Change st a st') : Seated st' := by
  cases change with
  | adjust object status point _ => exact seated.adjust object status point
  | lock => exact seated.congr rfl rfl rfl rfl rfl (Nat.le_refl _)
  | idle asleep =>
      refine ⟨seated.ready, ?_, seated.blocked, seated.fresh, seated.plain⟩
      exact fun u x object running => absurd (seated.running u x object running).1 asleep
  | create joining => exact seated.create joining
  | shift mode current running status joining enabled =>
      refine seated.replace rfl (Nat.le_refl _) (by simp [current]) (fun _ _ => id)
        (fun _ _ _ => id) ?_ ?_
        (fun _ => ⟨mode, rfl⟩) ?_ ?_ ?_
      · exact fun u x _ => seated.running u x
      · simp [status]
      · simp [status]
      · simp [status]
      · intro s at_p
        rw [at_p] at enabled
        cases enabled
  | sleep current _ waits plain => exact seated.sleep current waits plain
  | value s v => exact seated.congr rfl rfl rfl rfl rfl (Nat.le_refl _)
  | wake head object _ _ => exact seated.wake head object
  | die current _ => exact seated.die current
  | ready object _ => exact seated.readied object
  | switch head current turn point _ object _ _ =>
      exact seated.switch head current turn point object
  | delete _ created _ _ _ => exact seated.delete created

theorem Seated.step {e : Event} (kept : Kept st) (seated : Seated st)
    (stepped : st.step e = some st') : Seated st' := by
  obtain ⟨acts, chain, -⟩ | ⟨n, mid, switch, rfl | ⟨d, delete⟩⟩ :=
    step_does kept seated.plain seated.fresh stepped
  · exact chain.keeps (fun _ _ _ seated _ change => seated.change change) seated
  · exact seated.change switch
  · exact (seated.change switch).change delete

theorem boot_seated (initialValue : Nat → Int) : Seated (State.boot initialValue) := by
  constructor
  · intro t th object ready
    simp [(boot_main object).2.1] at ready
  · exact fun t th object _ => ⟨rfl, (boot_main object).1⟩
  · intro t th object blocked
    simp [(boot_main object).2.1] at blocked
  · exact fun t th object _ => (boot_main object).2.2
  · intro t s at_p
    obtain ⟨th, object, point⟩ : ∃ th, (State.boot initialValue).threads t = some th ∧
        th.point = .p s := by
      simpa [State.pointOf] using at_p
    rw [(boot_main object).2.2] at point
    cases point

end Seating

end Nachos.Threads
