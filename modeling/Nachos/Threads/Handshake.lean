/-
# Nachos.Threads.Handshake -- the two semaphores around the end of a thread

`Join` waits at `joinSignal`, copies the exit status and raises `mayDie`; `Finish` raises
`joinSignal` and waits at `mayDie` before the thread is recorded to be destroyed.  `Stage`
is the protocol these two follow, seen from the thread that ends: who has come, who
waits, and what the semaphores are worth.  `At` ties a stage to a state.

An act that is not about the thread leaves its stage as it is (`At.change`), so that only
the five events of the protocol itself have to be looked at, and only one `Join` can move
the stage on.  The claims about the protocol are then read off the stages.
-/
import Nachos.Threads.Places

namespace Nachos.Threads

open Nachos.Lib.Run

set_option autoImplicit false

/-- How far the end of a thread has come. -/
inductive Stage where
  | unborn
  /-- The thread cannot be joined. -/
  | lone
  | alive
  /-- `u` sleeps in `joinSignal->P()`. -/
  | awaited (u : Nat)
  /-- The thread is in `Finish`, and nobody has called `Join`. -/
  | offered
  /-- The thread is in `Finish`, and `u` was woken in `joinSignal->P()`. -/
  | woken (u : Nat)
  /-- `u` has passed `joinSignal` and has not raised `mayDie`. -/
  | joined (u : Nat)
  /-- `Join` has returned, and the thread was woken in `mayDie->P()`. -/
  | released
  | ended
  deriving DecidableEq, Repr

namespace Stage

def joinSignal : Stage → Int
  | offered | woken _ => 1
  | _ => 0

def mayDie : Stage → Int
  | unborn | lone | released => 1
  | _ => 0

/-- Who is in the queue of `joinSignal`. -/
def signals : Stage → List Nat
  | awaited u => [u]
  | _ => []

/-- Who is in the queue of `mayDie`. -/
def deaths (t : Nat) : Stage → List Nat
  | offered | woken _ | joined _ => [t]
  | _ => []

/-- `Join` was called. -/
def issued : Stage → Bool
  | awaited _ | woken _ | joined _ | released | ended => true
  | _ => false

/-- `Finish` was called. -/
def finishing : Stage → Bool
  | offered | woken _ | joined _ | released | ended => true
  | _ => false

/-- What the thread itself is doing. -/
def Self (t : Nat) (st : State) : Stage → Prop
  | unborn => st.threads t = none ∧ st.next ≤ t
  | lone => t < st.next ∧ ∀ th, st.threads t = some th → th.joining = false ∧ th.point ≠ .finish
  | alive | awaited _ => ∃ th, st.threads t = some th ∧ th.joining = true ∧
      th.point ≠ .finish ∧ th.point ≠ .finished
  | offered | woken _ | joined _ | released =>
      ∃ th, st.threads t = some th ∧ th.joining = true ∧ th.point = .finish
  | ended => t < st.next ∧ ∀ th, st.threads t = some th → th.point = .finished

end Stage

/-- The end of `t` has come as far as `g`. -/
structure At (t : Nat) (g : Stage) (st : State) : Prop where
  signal : st.value (.joinSignal t) = g.joinSignal
  die : st.value (.mayDie t) = g.mayDie
  signals : items (st.queues (.semaphore (.joinSignal t))) = g.signals
  deaths : items (st.queues (.semaphore (.mayDie t))) = g.deaths t
  self : g.Self t st
  joins : ∀ v, st.pointOf v = some (.join t) ↔ g = .awaited v ∨ g = .woken v
  passed : ∀ v, st.pointOf v = some (.joined t) ↔ g = .joined v

section Frame

variable {st st' : State} {t u : Nat} {g : Stage} {th th' : Thread} {a : Act}

/-- What a stage says depends on the two semaphores of the thread, on who is at a point
that is about it, and on the thread's own `joining`. -/
theorem At.congr (stage : At t g st)
    (value : ∀ s, s.about = some t → st'.value s = st.value s)
    (queues : ∀ s, s.about = some t → st'.queues (.semaphore s) = st.queues (.semaphore s))
    (next : st'.next ≤ t ↔ st.next ≤ t)
    (joining : (st'.threads t).map Thread.joining = (st.threads t).map Thread.joining)
    (points : ∀ v p, p.about v = some t → (st'.pointOf v = some p ↔ st.pointOf v = some p)) :
    At t g st' := by
  have finish := points t .finish rfl
  have finished := points t .finished rfl
  have born : t < st'.next ↔ t < st.next := by simpa using next.not
  have self : g.Self t st' := by
    have self := stage.self
    cases object : st.threads t with
    | none =>
        have gone : st'.threads t = none := by simpa [object] using joining
        cases g <;> simp_all [Stage.Self]
    | some th =>
        obtain ⟨th', object', same⟩ : ∃ th', st'.threads t = some th' ∧
            th'.joining = th.joining := by
          simpa [object] using joining
        simp only [State.pointOf, object, object', Option.map_some,
          Option.some.injEq] at finish finished
        cases g <;> simp_all [Stage.Self]
  refine ⟨?_, ?_, ?_, ?_, self, ?_, ?_⟩
  · rw [value _ rfl, stage.signal]
  · rw [value _ rfl, stage.die]
  · rw [queues _ rfl, stage.signals]
  · rw [queues _ rfl, stage.deaths]
  · exact fun v => (points v _ rfl).trans (stage.joins v)
  · exact fun v => (points v _ rfl).trans (stage.passed v)

/-- One thread object changes, and not in what it has to do with `t`. -/
theorem points_replace (threads : st'.threads = Function.update st.threads u (some th'))
    (object : st.threads u = some th)
    (point : th'.point = th.point ∨ th.point.about u ≠ some t ∧ th'.point.about u ≠ some t)
    (v : Nat) (p : Point) (about : p.about v = some t) :
    st'.pointOf v = some p ↔ st.pointOf v = some p := by
  by_cases same : v = u
  · subst same
    simp only [State.pointOf, threads, object, Function.update_self, Option.map_some,
      Option.some.injEq]
    obtain same | ⟨before, after⟩ := point
    · rw [same]
    · constructor
      · rintro rfl
        exact absurd about after
      · rintro rfl
        exact absurd about before
  · simp [State.pointOf, threads, same]

theorem joining_replace (threads : st'.threads = Function.update st.threads u (some th'))
    (object : st.threads u = some th) (joining : th'.joining = th.joining) :
    (st'.threads t).map Thread.joining = (st.threads t).map Thread.joining := by
  by_cases same : t = u
  · subst same
    simp [threads, object, joining]
  · simp [threads, same]

theorem At.replace (stage : At t g st)
    (value : ∀ s, s.about = some t → st'.value s = st.value s)
    (queues : ∀ s, s.about = some t → st'.queues (.semaphore s) = st.queues (.semaphore s))
    (next : st'.next = st.next)
    (threads : st'.threads = Function.update st.threads u (some th'))
    (object : st.threads u = some th) (joining : th'.joining = th.joining)
    (point : th'.point = th.point ∨ th.point.about u ≠ some t ∧ th'.point.about u ≠ some t) :
    At t g st' :=
  stage.congr value queues (by rw [next]) (joining_replace threads object joining)
    (points_replace threads object point)

/-- **An act that is not about a thread leaves the end of the thread where it is.** -/
theorem At.change (stage : At t g st) (change : Change st a st') (other : ¬ a.About t) :
    At t g st' := by
  cases change with
  | adjust object _ point joining =>
      exact stage.replace (fun _ _ => rfl) (fun _ _ => rfl) rfl rfl object joining (.inl point)
  | lock =>
      exact stage.congr (fun _ _ => rfl) (fun _ _ => rfl) Iff.rfl rfl fun _ _ _ => Iff.rfl
  | idle =>
      exact stage.congr (fun _ _ => rfl) (fun _ _ => rfl) Iff.rfl rfl fun _ _ _ => Iff.rfl
  | create joining fresh =>
      have differ : t ≠ st.next := fun same => other same.symm
      refine stage.congr ?_ (fun _ _ => rfl) ?_ ?_ ?_
      · intro s about
        cases s with
        | joinSignal u =>
            obtain rfl : u = t := Option.some.inj about
            simp [State.create, State.setValue, State.setThread, differ]
        | mayDie u =>
            obtain rfl : u = t := Option.some.inj about
            simp [State.create, State.setValue, State.setThread, differ]
        | other i => cases about
      · show st.next + 1 ≤ t ↔ st.next ≤ t
        omega
      · simp [State.create, State.setValue, State.setThread, differ]
      · intro v p about
        by_cases same : v = st.next
        · subst same
          have here : (st.create joining).pointOf st.next = some .body := by
            simp [State.pointOf, State.create, State.setValue]
          rw [here]
          constructor
          · rintro ⟨⟩
            cases about
          · simp [State.pointOf, fresh]
        · simp [State.pointOf, State.create, State.setValue, State.setThread, same]
  | shift mode current running status joining enabled =>
      refine stage.replace (fun _ _ => rfl) (fun _ _ => rfl) rfl rfl current joining (.inr ?_)
      exact not_or.mp other
  | @sleep th p q current running waits plain =>
      obtain ⟨before, after, queue⟩ : _ ∧ _ ∧ _ := by simpa [Act.About] using other
      refine stage.replace (fun _ _ => rfl) ?_ rfl rfl current rfl (.inr ⟨before, after⟩)
      intro s about
      apply State.setQueue_queues_of_ne
      rintro rfl
      exact queue about
  | value s v =>
      refine stage.congr ?_ (fun _ _ => rfl) Iff.rfl rfl fun _ _ _ => Iff.rfl
      intro r about
      apply Function.update_of_ne
      rintro rfl
      exact other about
  | @wake q u key rest th head object blocked waits =>
      refine stage.replace (fun _ _ => rfl) ?_ rfl rfl object rfl (.inl rfl)
      intro s about
      apply State.setQueue_queues_of_ne st q rest
      rintro rfl
      exact other about
  | die current running =>
      obtain ⟨self, before⟩ := not_or.mp other
      refine stage.replace (fun _ _ => rfl) (fun _ _ => rfl) rfl rfl current rfl (.inr ⟨before, ?_⟩)
      simpa [Point.about] using self
  | ready object created =>
      exact stage.replace (fun _ _ => rfl) (fun _ _ => rfl) rfl rfl object rfl (.inl rfl)
  | @switch n key rest list old old' th entry head current turn point joining object ready _ =>
      have saved : At t g (st.setThread st.currentThread old') :=
        stage.replace (fun _ _ => rfl) (fun _ _ => rfl) rfl rfl current joining (.inl point)
      exact saved.replace (fun _ _ => rfl) (fun _ _ => rfl) rfl rfl object rfl (.inl rfl)
  | @delete d th record created object finished differ =>
      have differ : t ≠ d := fun same => other same.symm
      refine stage.congr (fun _ _ => rfl) ?_ Iff.rfl ?_ ?_
      · intro s about
        have signal : s ≠ .joinSignal d := by
          rintro rfl
          exact other (Option.some.inj about)
        have death : s ≠ .mayDie d := by
          rintro rfl
          exact other (Option.some.inj about)
        simp [State.deleteThread, State.setQueue, signal, death]
      · simp [State.deleteThread, differ]
      · intro v p about
        by_cases same : v = d
        · subst same
          have gone : p ≠ .finished := by
            rintro rfl
            exact other (Option.some.inj about)
          simp [State.pointOf, State.deleteThread, object, finished, gone.symm]
        · simp [State.pointOf, State.deleteThread, same]

theorem At.signals_nil (stage : At t g st) (none : g.signals = []) :
    st.queues (.semaphore (.joinSignal t)) = [] := by
  have empty := stage.signals
  rw [none] at empty
  exact List.map_eq_nil_iff.mp empty

theorem At.deaths_nil (stage : At t g st) (none : g.deaths t = []) :
    st.queues (.semaphore (.mayDie t)) = [] := by
  have empty := stage.deaths
  rw [none] at empty
  exact List.map_eq_nil_iff.mp empty

/-- A thread that has finished is past its protocol. -/
theorem At.finished (stage : At t g st) (object : st.threads t = some th)
    (finished : th.point = .finished) : g = .lone ∨ g = .ended := by
  have self := stage.self
  cases g <;> simp_all [Stage.Self]

/-- Nobody waits at the semaphores of a thread that is deleted. -/
theorem At.harmless (stage : At t g st) (object : st.threads t = some th)
    (finished : th.point = .finished) :
    st.queues (.semaphore (.joinSignal t)) = [] ∧ st.queues (.semaphore (.mayDie t)) = [] := by
  obtain rfl | rfl := stage.finished object finished
  · exact ⟨stage.signals_nil rfl, stage.deaths_nil rfl⟩
  · exact ⟨stage.signals_nil rfl, stage.deaths_nil rfl⟩

theorem At.delete (stage : At t g st) (object : st.threads t = some th)
    (finished : th.point = .finished) :
    At t g { st.deleteThread t with
      threadToBeDestroyed := none
      log := .delete t :: st.log } := by
  obtain ⟨signals, deaths⟩ := stage.harmless object finished
  have past := stage.finished object finished
  have points : ∀ v, (st.deleteThread t).pointOf v = if v = t then none else st.pointOf v := by
    intro v
    by_cases same : v = t
    · simp [State.pointOf, State.deleteThread, same]
    · simp [State.pointOf, State.deleteThread, same]
  have here : st.pointOf t = some .finished := by simp [State.pointOf, object, finished]
  have noJoin : ∀ v, (st.deleteThread t).pointOf v = some (.join t) ↔
      st.pointOf v = some (.join t) := by
    intro v
    by_cases same : v = t
    · simp [points, same, here]
    · simp [points, same]
  have notJoined : ∀ v, (st.deleteThread t).pointOf v = some (.joined t) ↔
      st.pointOf v = some (.joined t) := by
    intro v
    by_cases same : v = t
    · simp [points, same, here]
    · simp [points, same]
  refine ⟨stage.signal, stage.die, ?_, ?_, ?_, ?_, ?_⟩
  · rw [← stage.signals, signals]
    simp [State.deleteThread, State.setQueue]
  · rw [← stage.deaths, deaths]
    simp [State.deleteThread, State.setQueue]
  · have self := stage.self
    obtain rfl | rfl := past
    · exact ⟨self.1, by simp [State.deleteThread]⟩
    · exact ⟨self.1, by simp [State.deleteThread]⟩
  · exact fun v => (noJoin v).trans (stage.joins v)
  · exact fun v => (notJoined v).trans (stage.passed v)

/-- **What is done about other threads leaves the end of a thread where it is**, and so does
its deletion. -/
theorem At.does {o : Option Nat} (stage : At t g st) (other : o ≠ some t) (does : Does o st st') :
    At t g st' := by
  obtain ⟨acts, chain, within⟩ := does
  refine chain.keeps (fun st a st' stage there change => stage.change change ?_) stage
  exact fun about => other ((within a there).2 t about)

theorem At.switches (stage : At t g st) (switches : Switches st st') : At t g st' := by
  obtain ⟨n, mid, switch, deletes⟩ := switches
  have after : At t g mid := stage.change switch id
  obtain rfl | ⟨d, delete⟩ := deletes
  · exact after
  · by_cases about : d = t
    · subst about
      cases delete with
      | delete _ _ object finished _ => exact after.delete object finished
    · exact after.change delete about

end Frame

/-! ## The protocol -/

section Protocol

variable {st mid st' : State} {t u : Nat} {g g' : Stage} {th : Thread} {s : Sem} {q : Queue}

/-- What `V` does to the semaphores and to the threads. -/
structure Raised (s : Sem) (st st' : State) : Prop where
  value : st'.value = Function.update st.value s (st.value s + 1)
  queue : items (st'.queues (.semaphore s)) = (items (st.queues (.semaphore s))).tail
  queues : ∀ q, q ≠ .semaphore s → st'.queues q = st.queues q
  points : ∀ v, st'.pointOf v = st.pointOf v
  joining : ∀ v, (st'.threads v).map Thread.joining = (st.threads v).map Thread.joining
  next : st'.next = st.next

theorem semV_raised (raised : st.semV s = some st') : Raised s st st' := by
  have points := semV_pointOf raised
  obtain ⟨mid, woken, rfl⟩ := semV_eq_some raised
  unfold State.wake at woken
  cases removed : remove (st.queues (.semaphore s)) with
  | none =>
      rw [removed] at woken
      cases woken
      refine ⟨rfl, ?_, fun _ _ => rfl, points, fun _ => rfl, rfl⟩
      simp [State.setValue, remove_eq_none removed, items]
  | some pair =>
      obtain ⟨v, rest⟩ := pair
      rw [removed] at woken
      obtain ⟨key, head⟩ := remove_eq_some removed
      obtain ⟨th, object, rfl⟩ := readyToRun_eq_some woken
      refine ⟨rfl, ?_, ?_, points, ?_, rfl⟩
      · simp [State.setValue, head, items]
      · exact fun q differ => State.setQueue_queues_of_ne st _ rest differ
      · intro w
        have ready : ({ th with status := .ready } : Thread).joining = th.joining := rfl
        exact joining_replace rfl object ready

/-- A thread goes to another point, and the stage with it. -/
theorem At.move {p : Point} (stage : At t g st)
    (others : ∀ v, v ≠ u → st'.pointOf v = st.pointOf v) (here : st'.pointOf u = some p)
    (signal : st'.value (.joinSignal t) = g'.joinSignal) (die : st'.value (.mayDie t) = g'.mayDie)
    (signals : items (st'.queues (.semaphore (.joinSignal t))) = g'.signals)
    (deaths : items (st'.queues (.semaphore (.mayDie t))) = g'.deaths t) (self : g'.Self t st')
    (joins : ∀ v, v ≠ u → (g' = .awaited v ∨ g' = .woken v ↔ g = .awaited v ∨ g = .woken v))
    (join : p = .join t ↔ g' = .awaited u ∨ g' = .woken u)
    (passed : ∀ v, v ≠ u → (g' = .joined v ↔ g = .joined v))
    (pass : p = .joined t ↔ g' = .joined u) : At t g' st' := by
  refine ⟨signal, die, signals, deaths, self, ?_, ?_⟩
  · intro v
    by_cases same : v = u
    · subst same
      simpa [here] using join
    · rw [others v same, joins v same]
      exact stage.joins v
  · intro v
    by_cases same : v = u
    · subst same
      simpa [here] using pass
    · rw [others v same, passed v same]
      exact stage.passed v

theorem At.create (kept : Kept st) (stage : At st.next g st) (joining : Bool) :
    g = .unborn ∧ At st.next (if joining then .alive else .lone) (st.create joining) := by
  have fresh : ∀ th, st.threads st.next ≠ some th := fun th object =>
    absurd (kept.placed.created _ th object) (Nat.lt_irrefl _)
  have unborn : g = .unborn := by
    have self := stage.self
    cases g <;> simp_all [Stage.Self]
  subst unborn
  refine ⟨rfl, ?_⟩
  have object : (st.create joining).threads st.next = some
      { key := 0, joining, status := .justCreated, pcState := .threadRoot
        exitStatus := none, point := .body } := by
    simp [State.create, State.setValue]
  have here : (st.create joining).pointOf st.next = some .body := by simp [State.pointOf, object]
  have later : (st.create joining).next = st.next + 1 := rfl
  refine stage.move (u := st.next) ?_ here ?_ ?_ ?_ ?_ ?_ ?_ ?_ ?_ ?_
  · intro v differ
    simp [State.pointOf, State.create, State.setValue, State.setThread, differ]
  · cases joining <;> simp [State.create, State.setValue, Stage.joinSignal]
  · cases joining <;> simp [State.create, State.setValue, State.setThread, Stage.mayDie]
  · have empty := stage.signals
    cases joining <;> exact empty
  · have empty := stage.deaths
    cases joining <;> exact empty
  · cases joining <;> simp [Stage.Self, object, later]
  all_goals cases joining <;> simp

theorem At.join (runs : Runs st th) (stage : At t g st) (first : g.issued = false)
    (joined : st.join t = some st') :
    (g = .alive ∧ At t (.awaited st.currentThread) st') ∨
      (g = .offered ∧ At t (.joined st.currentThread) st') := by
  obtain ⟨th', object, rest⟩ := Option.bind_eq_some_iff.mp joined
  split at rest
  · rename_i may
    unfold State.semP at rest
    have self := stage.self
    have signal := stage.signal
    split at rest
    · rename_i zero
      left
      have alive : g = .alive := by
        cases g <;> simp_all [Stage.Self, Stage.issued, Stage.joinSignal]
      subst alive
      refine ⟨rfl, ?_⟩
      simp only [State.sleepIn, runs.current] at rest
      cases rest
      have self : ∃ th, st.threads t = some th ∧ _ := self
      refine stage.move (u := st.currentThread) (p := .join t) ?_ ?_ stage.signal stage.die ?_ ?_ ?_
        ?_ ?_ ?_ ?_
      · intro v differ
        simp [State.pointOf, State.setThread_threads_of_ne, differ]
      · simp [State.pointOf]
      · have empty := stage.signals_nil rfl
        simp [empty, Stage.signals, sortedInsert, items]
      · simpa [State.setQueue, State.setThread, Stage.deaths] using stage.deaths
      · obtain ⟨x, there, rest⟩ := self
        exact ⟨x, by simpa [State.setThread_threads_of_ne, may.2] using there, rest⟩
      all_goals simp +contextual [eq_comm]
    · rename_i positive
      right
      have offered : g = .offered := by
        cases g <;> simp_all [Stage.Self, Stage.issued, Stage.joinSignal]
      subst offered
      refine ⟨rfl, ?_⟩
      simp only [State.goTo, State.setValue, runs.current] at rest
      cases rest
      have self : ∃ th, st.threads t = some th ∧ _ := self
      refine stage.move (u := st.currentThread) (p := .joined t) ?_ ?_ ?_ ?_ ?_ ?_ ?_ ?_ ?_ ?_ ?_
      · intro v differ
        simp [State.pointOf, State.setThread, differ]
      · simp [State.pointOf]
      · simp [State.setThread, signal, Stage.joinSignal]
      · simpa [State.setThread, Stage.mayDie] using stage.die
      · simpa [State.setThread, Stage.signals] using stage.signals
      · simpa [State.setThread, Stage.deaths] using stage.deaths
      · obtain ⟨x, there, rest⟩ := self
        exact ⟨x, by simpa [State.setThread, may.2] using there, rest⟩
      all_goals simp +contextual [eq_comm]
  · cases rest

/-- A thread that runs is in no queue. -/
theorem Runs.not_queued (runs : Runs st th) : st.currentThread ∉ items (st.queues q) :=
  runs.kept.placed.notQueued runs.current (.inl (by simp [runs.status]))

/-- `joinSignal->V(); mayDie->P()` in `Finish`. -/
theorem At.offer (runs : Runs st th) (stage : At st.currentThread g st)
    (raised : st.semV (.joinSignal st.currentThread) = some mid)
    (passed : mid.semP (.mayDie mid.currentThread) .finish State.die = some st')
    (before : (g = .alive ∧ g' = .offered) ∨ ∃ u, g = .awaited u ∧ g' = .woken u) :
    At st.currentThread g' st' := by
  obtain ⟨mode, same⟩ := semV_frame raised
  obtain ⟨x, runs'⟩ := (runs.kept.semV raised).runs (mode.trans runs.mode)
  obtain ⟨value, queue, queues, points, joining, next⟩ := semV_raised raised
  have may : x.joining = th.joining := by
    have joining := joining st.currentThread
    rw [← same, runs'.current, same, runs.current] at joining
    simpa using joining
  have joinable : th.joining = true := by
    have self := stage.self
    obtain ⟨rfl, -⟩ | ⟨u, rfl, -⟩ := before
    · obtain ⟨y, there, joining, -⟩ := self
      rw [runs.current] at there
      cases there
      exact joining
    · obtain ⟨y, there, joining, -⟩ := self
      rw [runs.current] at there
      cases there
      exact joining
  obtain ⟨noDie, noSignal, noTail, noDeaths⟩ : g.mayDie = 0 ∧ g.joinSignal = 0 ∧
      g.signals.tail = [] ∧ g.deaths st.currentThread = [] := by
    obtain ⟨rfl, -⟩ | ⟨u, rfl, -⟩ := before <;> exact ⟨rfl, rfl, rfl, rfl⟩
  obtain ⟨die', signal', signals', deaths'⟩ : g'.mayDie = 0 ∧ g'.joinSignal = 1 ∧
      g'.signals = [] ∧ g'.deaths st.currentThread = [st.currentThread] := by
    obtain ⟨-, rfl⟩ | ⟨u, -, rfl⟩ := before <;> exact ⟨rfl, rfl, rfl, rfl⟩
  have zero : mid.value (.mayDie st.currentThread) = 0 := by
    simp [value, stage.die, noDie]
  have one : mid.value (.joinSignal st.currentThread) = 1 := by
    simp [value, stage.signal, noSignal]
  have nobody : items (mid.queues (.semaphore (.joinSignal st.currentThread))) = [] := by
    rw [queue, stage.signals, noTail]
  have empty : mid.queues (.semaphore (.mayDie st.currentThread)) = [] := by
    rw [queues _ (by simp)]
    exact stage.deaths_nil noDeaths
  have current := runs'.current
  rw [same] at current
  simp only [State.semP, zero, if_true, State.sleepIn, same, current] at passed
  cases passed
  refine stage.move (u := st.currentThread) (p := .finish) ?_ ?_ ?_ ?_ ?_ ?_ ?_ ?_ ?_ ?_ ?_
  · intro v differ
    rw [← points v]
    simp [State.pointOf, State.setThread_threads_of_ne, differ]
  · simp [State.pointOf]
  · exact one.trans signal'.symm
  · exact zero.trans die'.symm
  · rw [signals', ← nobody]
    simp [State.setQueue, State.setThread]
  · rw [deaths']
    simp [same, empty, sortedInsert, items]
  · have object := State.setThread_threads_self mid st.currentThread
      { x with status := .blocked, point := .finish }
    obtain ⟨-, rfl⟩ | ⟨u, -, rfl⟩ := before
    · exact ⟨_, object, may.trans joinable, rfl⟩
    · exact ⟨_, object, may.trans joinable, rfl⟩
  · obtain ⟨rfl, rfl⟩ | ⟨u, rfl, rfl⟩ := before <;> simp
  · obtain ⟨rfl, rfl⟩ | ⟨u, rfl, rfl⟩ := before
    · simp
    · have differ : u ≠ st.currentThread := by
        rintro rfl
        have there : st.currentThread ∈ items
            (st.queues (.semaphore (.joinSignal st.currentThread))) := by
          rw [stage.signals]
          exact List.mem_cons_self
        exact runs.not_queued there
      simp [differ]
  · obtain ⟨rfl, rfl⟩ | ⟨u, rfl, rfl⟩ := before <;> simp
  · obtain ⟨rfl, rfl⟩ | ⟨u, rfl, rfl⟩ := before <;> simp

theorem At.finish (runs : Runs st th) (here : th.point = .body)
    (stage : At st.currentThread g st) (finished : st.finish = some st') :
    (g = .lone ∧ At st.currentThread .lone st') ∨ (g = .alive ∧ At st.currentThread .offered st') ∨
      ∃ u, g = .awaited u ∧ At st.currentThread (.woken u) st' := by
  obtain ⟨_, current, rest⟩ := Option.bind_eq_some_iff.mp finished
  rw [runs.current] at current
  cases current
  have self := stage.self
  split at rest
  · rename_i may
    obtain ⟨mid, raised, passed⟩ := Option.bind_eq_some_iff.mp rest
    have before : g = .alive ∨ ∃ u, g = .awaited u := by
      have object := runs.current
      cases g <;> simp_all [Stage.Self]
    obtain rfl | ⟨u, rfl⟩ := before
    · exact .inr (.inl ⟨rfl, stage.offer runs raised passed (.inl ⟨rfl, rfl⟩)⟩)
    · exact .inr (.inr ⟨u, rfl, stage.offer runs raised passed (.inr ⟨u, rfl, rfl⟩)⟩)
  · rename_i cannot
    have lone : g = .lone := by
      have object := runs.current
      have created := runs.kept.placed.created _ th object
      cases g <;> simp_all [Stage.Self]
    subst lone
    refine .inl ⟨rfl, ?_⟩
    simp only [State.die, runs.current] at rest
    cases rest
    refine stage.move (u := st.currentThread) (p := .finished) ?_ ?_ stage.signal stage.die
      stage.signals stage.deaths ?_ ?_ ?_ ?_ ?_
    · intro v differ
      simp [State.pointOf, State.setThread_threads_of_ne, differ]
    · simp [State.pointOf]
    · refine ⟨self.1, fun x object => ?_⟩
      cases object.symm.trans (State.setThread_threads_self _ _ _)
      exact ⟨by simpa using cannot, by simp⟩
    all_goals simp

/-- A woken thread takes `joinSignal`. -/
theorem At.joinTurn (runs : Runs st th) (here : th.point = .join t) (stage : At t g st)
    (passed : st.semP (.joinSignal t) (.join t) (State.goTo · (.joined t)) = some st') :
    g = .woken st.currentThread ∧ At t (.joined st.currentThread) st' := by
  have point : st.pointOf st.currentThread = some (.join t) := by
    simp [State.pointOf, runs.current, here]
  have woken : g = .woken st.currentThread := by
    obtain rfl | woken := (stage.joins _).mp point
    · have there : st.currentThread ∈ items (st.queues (.semaphore (.joinSignal t))) := by
        rw [stage.signals]
        exact List.mem_cons_self
      exact absurd there runs.not_queued
    · exact woken
  subst woken
  refine ⟨rfl, ?_⟩
  have one : st.value (.joinSignal t) = 1 := stage.signal
  have differ : t ≠ st.currentThread := by
    rintro rfl
    obtain ⟨x, there, -, finish⟩ := stage.self
    rw [runs.current] at there
    cases there
    rw [here] at finish
    cases finish
  simp only [State.semP, one, if_neg Int.one_ne_zero, State.goTo, State.setValue,
    runs.current] at passed
  cases passed
  refine stage.move (u := st.currentThread) (p := .joined t) ?_ ?_ ?_ ?_ ?_ ?_ ?_ ?_ ?_ ?_ ?_
  · intro v differ
    simp [State.pointOf, State.setThread, differ]
  · simp [State.pointOf]
  · simp [State.setThread, Stage.joinSignal]
  · simpa [State.setThread, Stage.mayDie] using stage.die
  · simpa [State.setThread, Stage.signals] using stage.signals
  · simpa [State.setThread, Stage.deaths] using stage.deaths
  · obtain ⟨x, there, rest⟩ := stage.self
    exact ⟨x, by simpa [State.setThread, differ] using there, rest⟩
  all_goals simp +contextual [eq_comm]

/-- The rest of `Join` raises `mayDie`, and the thread that waits there is woken. -/
theorem At.joinRest (runs : Runs st th) (here : th.point = .joined t) (stage : At t g st)
    (joined : st.joinRest t = some st') :
    g = .joined st.currentThread ∧ At t .released st' := by
  have point : st.pointOf st.currentThread = some (.joined t) := by
    simp [State.pointOf, runs.current, here]
  obtain rfl := (stage.passed _).mp point
  refine ⟨rfl, ?_⟩
  obtain ⟨x, object, may, finish⟩ := stage.self
  have differ : t ≠ st.currentThread := by
    rintro rfl
    rw [runs.current] at object
    cases object
    rw [here] at finish
    cases finish
  obtain ⟨_, found, rest⟩ := Option.bind_eq_some_iff.mp joined
  obtain ⟨_, current, rest⟩ := Option.bind_eq_some_iff.mp rest
  rw [runs.current] at current
  cases current
  rw [object] at found
  cases found
  obtain ⟨value, queue, queues, points, joining, next⟩ := semV_raised rest
  have others : ∀ v, v ≠ st.currentThread → st'.pointOf v = st.pointOf v := by
    intro v differ
    rw [points v]
    simp [State.pointOf, State.setThread_threads_of_ne, differ]
  refine stage.move (u := st.currentThread) (p := .body) others ?_ ?_ ?_ ?_ ?_ ?_ ?_ ?_ ?_ ?_
  · rw [points]
    simp [State.pointOf]
  · rw [value]
    simpa [State.setThread, Stage.joinSignal] using stage.signal
  · rw [value]
    simp [State.setThread, stage.die, Stage.mayDie]
  · rw [queues _ (by simp)]
    exact stage.signals
  · rw [queue]
    simp [stage.deaths, Stage.deaths]
  · have still : st'.pointOf t = some .finish := by
      rw [others t differ]
      simp [State.pointOf, object, finish]
    have may' : (st'.threads t).map Thread.joining = some true := by
      rw [joining t]
      simp [State.setThread_threads_of_ne, differ, object, may]
    obtain ⟨y, there, finish⟩ : ∃ y, st'.threads t = some y ∧ y.point = .finish := by
      simpa [State.pointOf] using still
    exact ⟨y, there, by simpa [there] using may', finish⟩
  all_goals simp +contextual [eq_comm]

/-- A thread that was woken in `mayDie->P()` takes it and dies. -/
theorem At.finishTurn (runs : Runs st th) (here : th.point = .finish)
    (stage : At st.currentThread g st)
    (passed : st.semP (.mayDie st.currentThread) .finish State.die = some st') :
    g = .released ∧ At st.currentThread .ended st' := by
  have released : g = .released := by
    have nobody : g.deaths st.currentThread = [] := by
      rw [← stage.deaths]
      refine List.eq_nil_iff_forall_not_mem.mpr fun v there => ?_
      have mine : v = st.currentThread := by
        have deaths := stage.deaths
        cases g <;> simp_all [Stage.deaths]
      exact runs.not_queued (mine ▸ there)
    have self := stage.self
    have object := runs.current
    cases g <;> simp_all [Stage.Self, Stage.deaths]
  subst released
  refine ⟨rfl, ?_⟩
  have one : st.value (.mayDie st.currentThread) = 1 := stage.die
  simp only [State.semP, one, if_neg Int.one_ne_zero, State.die, State.setValue,
    runs.current] at passed
  cases passed
  have created := runs.kept.placed.created _ th runs.current
  refine stage.move (u := st.currentThread) (p := .finished) ?_ ?_ ?_ ?_ ?_ ?_ ?_ ?_ ?_ ?_ ?_
  · intro v differ
    simp [State.pointOf, State.setThread, differ]
  · simp [State.pointOf]
  · simpa [State.setThread, Stage.joinSignal] using stage.signal
  · simp [State.setThread, Stage.mayDie]
  · simpa [State.setThread, Stage.signals] using stage.signals
  · simpa [State.setThread, Stage.deaths] using stage.deaths
  · refine ⟨created, fun x object => ?_⟩
    cases object.symm.trans (State.setThread_threads_self _ _ _)
    rfl
  all_goals simp

/-- The event `Finish` of `t`. -/
def CallsFinish (t : Nat) (st : State) (e : Event) : Prop := e = .finish ∧ st.currentThread = t

/-- The event in which a `Join` of `t` copies the exit status, raises `mayDie` and returns. -/
def ReturnsJoin (t : Nat) (st : State) (e : Event) : Prop :=
  e = .proceed ∧ st.pointOf st.currentThread = some (.joined t)

/-- The event that creates `t`, to be joined. -/
def Creates (t : Nat) (st : State) (e : Event) : Prop := e = .create true ∧ st.next = t

/-- How an event moves the end of `t` on. -/
inductive Advances (t : Nat) (st : State) (e : Event) : Stage → Stage → Prop where
  | stay (g : Stage) (join : e ≠ .join t) (create : ¬ Creates t st e)
      (finish : CallsFinish t st e → g = .lone) : Advances t st e g g
  | create (joining : Bool) (made : e = .create joining) :
      Advances t st e .unborn (if joining then .alive else .lone)
  | await (u : Nat) (join : e = .join t) : Advances t st e .alive (.awaited u)
  | pass (u : Nat) (join : e = .join t) : Advances t st e .offered (.joined u)
  | offer (finish : CallsFinish t st e) : Advances t st e .alive .offered
  | wake (u : Nat) (finish : CallsFinish t st e) : Advances t st e (.awaited u) (.woken u)
  | take (u : Nat) (proceed : e = .proceed) : Advances t st e (.woken u) (.joined u)
  | release (u : Nat) (join : ReturnsJoin t st e) : Advances t st e (.joined u) .released
  | die (proceed : e = .proceed) : Advances t st e .released .ended

/-- A turn of a loop, or the rest of `Join`, that is about `t`. -/
theorem At.proceed (runs : Runs st th) (stage : At t g st)
    (about : th.point.about st.currentThread = some t) (proceeded : st.proceed = some st') :
    ∃ g', Advances t st .proceed g g' ∧ At t g' st' := by
  obtain ⟨_, current, rest⟩ := Option.bind_eq_some_iff.mp proceeded
  rw [runs.current] at current
  cases current
  cases here : th.point with
  | join u =>
      rw [here] at rest about
      obtain rfl : u = t := Option.some.inj about
      obtain ⟨_, -, rest⟩ := Option.bind_eq_some_iff.mp rest
      split at rest
      · obtain ⟨rfl, after⟩ := stage.joinTurn runs here rest
        exact ⟨_, .take _ rfl, after⟩
      · cases rest
  | joined u =>
      rw [here] at rest about
      obtain rfl : u = t := Option.some.inj about
      obtain ⟨rfl, after⟩ := stage.joinRest runs here rest
      exact ⟨_, .release _ ⟨rfl, by simp [State.pointOf, runs.current, here]⟩, after⟩
  | finish =>
      rw [here] at rest about
      obtain rfl : st.currentThread = t := Option.some.inj about
      obtain ⟨rfl, after⟩ := stage.finishTurn runs here rest
      exact ⟨_, .die rfl, after⟩
  | finished =>
      rw [here] at rest
      cases rest
  | body => rw [here] at about; cases about
  | p => rw [here] at about; cases about
  | acquire => rw [here] at about; cases about
  | wait => rw [here] at about; cases about

/-- **Every event moves the end of a thread along its protocol**, as long as nobody joins
it twice. -/
theorem At.step {e : Event} (kept : Kept st) (seated : Seated st) (stage : At t g st)
    (stepped : st.step e = some st') (once : e = .join t → g.issued = false) :
    ∃ g', Advances t st e g g' ∧ At t g' st' := by
  by_cases concerned : st.concerns e = some t
  · cases e with
    | create joining =>
        obtain rfl : st.next = t := Option.some.inj concerned
        simp only [State.step] at stepped
        split at stepped
        · cases stepped
          obtain ⟨rfl, after⟩ := At.create kept stage joining
          exact ⟨_, .create joining rfl, after⟩
        · cases stepped
    | join u =>
        obtain rfl : u = t := Option.some.inj concerned
        simp only [State.step] at stepped
        split at stepped
        · rename_i body
          obtain ⟨th, runs, here⟩ := kept.inBody body
          obtain ⟨rfl, after⟩ | ⟨rfl, after⟩ := stage.join runs (once rfl) stepped
          · exact ⟨_, .await _ rfl, after⟩
          · exact ⟨_, .pass _ rfl, after⟩
        · cases stepped
    | finish =>
        obtain rfl : st.currentThread = t := Option.some.inj concerned
        simp only [State.step] at stepped
        split at stepped
        · rename_i body
          obtain ⟨th, runs, here⟩ := kept.inBody body
          obtain ⟨rfl, after⟩ | ⟨rfl, after⟩ | ⟨u, rfl, after⟩ := stage.finish runs here stepped
          · exact ⟨_, .stay _ (by rintro ⟨⟩) (by simp [Creates]) (fun _ => rfl), after⟩
          · exact ⟨_, .offer ⟨rfl, rfl⟩, after⟩
          · exact ⟨_, .wake u ⟨rfl, rfl⟩, after⟩
        · cases stepped
    | proceed =>
        simp only [State.step] at stepped
        split at stepped
        · rename_i mode
          obtain ⟨th, runs⟩ := kept.runs mode
          refine stage.proceed runs ?_ stepped
          simpa [State.concerns, State.pointOf, runs.current] using concerned
        · cases stepped
    | _ => cases concerned
  · have after : At t g st' := by
      obtain does | switches := step_does kept seated.plain seated.fresh stepped
      · exact stage.does concerned does
      · exact stage.switches switches
    refine ⟨g, .stay g ?_ ?_ ?_, after⟩
    · rintro rfl
      exact concerned rfl
    · rintro ⟨rfl, rfl⟩
      exact concerned rfl
    · rintro ⟨rfl, rfl⟩
      exact absurd rfl concerned

end Protocol

/-! ## Runs -/

/-- What the stage tells about the events so far. -/
structure History (t : Nat) (start : State) (events : List Event) (g : Stage) : Prop where
  joins : g.issued = true ↔ .join t ∈ events
  finishes : g ≠ .lone → (g.finishing = true ↔ SomeStep State.step (CallsFinish t) start events)
  returns : g = .released ∨ g = .ended → SomeStep State.step (ReturnsJoin t) start events
  created : SomeStep State.step (Creates t) start events → g ≠ .unborn ∧ g ≠ .lone

section Histories

variable {start st st' : State} {events : List Event} {e : Event} {t : Nat} {g g' : Stage}

theorem Advances.issued (advances : Advances t st e g g') :
    g'.issued = true ↔ g.issued = true ∨ .join t = e := by
  cases advances with
  | stay g join => simp [join.symm]
  | create joining made => cases joining <;> simp [Stage.issued, made]
  | await u join => simp [Stage.issued, join]
  | pass u join => simp [Stage.issued, join]
  | offer finish => simp [Stage.issued, finish.1]
  | wake => simp [Stage.issued]
  | take => simp [Stage.issued]
  | release => simp [Stage.issued]
  | die => simp [Stage.issued]

theorem Advances.lone (advances : Advances t st e g g') (can : g' ≠ .lone) : g ≠ .lone := by
  cases advances with
  | stay => exact can
  | _ => simp

theorem Advances.finishing (advances : Advances t st e g g') (can : g' ≠ .lone) :
    g'.finishing = true ↔ g.finishing = true ∨ CallsFinish t st e := by
  cases advances with
  | stay g join create finish =>
      have other : ¬ CallsFinish t st e := fun calls => can (finish calls)
      simp [other]
  | create joining made => cases joining <;> simp [Stage.finishing, CallsFinish, made]
  | await u join => simp [Stage.finishing, CallsFinish, join]
  | pass u join => simp [Stage.finishing]
  | offer finish => simp [Stage.finishing, finish]
  | wake u finish => simp [Stage.finishing, finish]
  | take => simp [Stage.finishing]
  | release => simp [Stage.finishing]
  | die => simp [Stage.finishing]

theorem Advances.returned (advances : Advances t st e g g') (past : g' = .released ∨ g' = .ended) :
    (g = .released ∨ g = .ended) ∨ ReturnsJoin t st e := by
  cases advances with
  | stay => exact .inl past
  | create joining => cases joining <;> simp at past
  | release u join => exact .inr join
  | die => exact .inl (.inl rfl)
  | _ => simp at past

theorem Advances.created (advances : Advances t st e g g')
    (made : (g ≠ .unborn ∧ g ≠ .lone) ∨ Creates t st e) : g' ≠ .unborn ∧ g' ≠ .lone := by
  cases advances with
  | stay g join create => exact made.resolve_right create
  | create joining same =>
      obtain before | ⟨made, -⟩ := made
      · exact absurd rfl before.1
      · obtain rfl : joining = true := by simpa [same] using made
        simp
  | _ => simp

theorem History.concat (history : History t start events g)
    (run : exec State.step start events = some st) (advances : Advances t st e g g') :
    History t start (events ++ [e]) g' := by
  constructor
  · rw [advances.issued, history.joins]
    simp
  · intro can
    rw [advances.finishing can, history.finishes (advances.lone can), someStep_concat run]
  · intro past
    rw [someStep_concat run]
    exact (advances.returned past).imp history.returns id
  · intro made
    rw [someStep_concat run] at made
    exact advances.created (made.imp history.created id)

theorem boot_at (initialValue : Nat → Int) (t : Nat) :
    ∃ g, At t g (State.boot initialValue) ∧ (g = .unborn ∨ g = .lone) := by
  have points : ∀ v p, (State.boot initialValue).pointOf v = some p → p = .body := by
    intro v p point
    by_cases main : v = 0
    · subst main
      cases point
      rfl
    · simp [State.pointOf, State.boot, main] at point
  have nobody : ∀ v p, p ≠ .body → (State.boot initialValue).pointOf v ≠ some p :=
    fun v p other point => other (points v p point)
  by_cases main : t = 0
  · subst main
    refine ⟨.lone, ⟨rfl, rfl, rfl, rfl, ?_, ?_, ?_⟩, .inr rfl⟩
    · refine ⟨Nat.one_pos, fun th object => ?_⟩
      cases object
      exact ⟨rfl, by simp⟩
    · simp [nobody]
    · simp [nobody]
  · refine ⟨.unborn, ⟨rfl, rfl, rfl, rfl, ?_, ?_, ?_⟩, .inl rfl⟩
    · exact ⟨by simp [State.boot, main], Nat.one_le_iff_ne_zero.mpr main⟩
    · simp [nobody]
    · simp [nobody]

/-- Every thread is at some stage, as long as it is not joined twice. -/
theorem run_staged (initialValue : Nat → Int) {events : List Event} {st : State}
    (run : exec State.step (State.boot initialValue) events = some st) :
    Kept st ∧ Seated st ∧ (events.count (.join t) ≤ 1 →
      ∃ g, At t g st ∧ History t (State.boot initialValue) events g) := by
  refine exec_history (I := fun events st => Kept st ∧ Seated st ∧ (events.count (.join t) ≤ 1 →
    ∃ g, At t g st ∧ History t (State.boot initialValue) events g)) ?_ ?_ run
  · refine ⟨boot_kept initialValue, boot_seated initialValue, fun _ => ?_⟩
    obtain ⟨g, stage, first⟩ := boot_at initialValue t
    refine ⟨g, stage, ?_⟩
    obtain rfl | rfl := first <;> constructor <;> simp [Stage.issued, Stage.finishing, SomeStep]
  · rintro es e st st' run ⟨kept, seated, staged⟩ stepped
    refine ⟨kept.step stepped, seated.step kept stepped, fun once => ?_⟩
    have counted : es.count (.join t) + [e].count (.join t) ≤ 1 := by
      simpa [List.count_append] using once
    obtain ⟨g, stage, history⟩ := staged (by omega)
    obtain ⟨g', advances, stage'⟩ := stage.step kept seated stepped (by
      rintro rfl
      have none : .join t ∉ es := by
        simpa [List.count_eq_zero] using counted
      have fresh := history.joins.not.mpr none
      simpa using fresh)
    exact ⟨g', stage', history.concat run advances⟩

end Histories

/-! ## Joining is safe -/

/-- The event would use `joinSignal`, `mayDie` or `exitStatus` of `t`. -/
def State.Touches (st : State) (t : Nat) : Event → Prop
  | .setExitStatus _ => st.inBody = true ∧ st.currentThread = t
  | .join u => u = t
  | .finish => st.inBody = true ∧ st.currentThread = t
  | .proceed => st.mode = .thread ∧
      match st.pointOf st.currentThread with
      | some (.join u) => u = t
      -- `Join` writes the exit status of the thread that called it
      | some (.joined u) => u = t ∨ st.currentThread = t
      | some .finish => st.currentThread = t
      | _ => False
  | _ => False

/-- Nothing is left to run: the processor waits for an interrupt. -/
def State.Quiescent (st : State) : Prop := st.mode ≠ .thread ∧ st.readyList = []

/-- `t` did `threadToBeDestroyed = currentThread`. -/
def State.Recorded (st : State) (t : Nat) : Prop := ∃ found, .finish t found ∈ st.log

/-- What joining `t` keeps to, in a state that the events lead to. -/
structure JoinSafe (start : State) (events : List Event) (st : State) (t : Nat) : Prop where
  /-- Who is about to return from `Join` does so after `Finish` was called. -/
  returns : ∀ v, st.pointOf v = some (.joined t) → SomeStep State.step (CallsFinish t) start events
  recorded : st.Recorded t → SomeStep State.step (ReturnsJoin t) start events
  /-- Whatever is tried next, short of a second `Join`, leaves a recorded thread alone. -/
  untouched : st.Recorded t → ∀ e, (events ++ [e]).count (.join t) ≤ 1 → ¬ st.Touches t e
  quiescent : .join t ∈ events → SomeStep State.step (CallsFinish t) start events →
    st.Quiescent → st.pointOf t ≠ some .finish ∧ ∀ v, st.pointOf v ≠ some (.join t)

section Safety

variable {start st : State} {events : List Event} {t v : Nat} {g : Stage} {th : Thread}

theorem At.recorded (kept : Kept st) (stage : At t g st) (joinable : g ≠ .unborn ∧ g ≠ .lone)
    (recorded : st.Recorded t) : g = .ended := by
  obtain ⟨found, there⟩ := recorded
  obtain ⟨created, finished⟩ := kept.books.finished t found there
  have self := stage.self
  cases g with
  | unborn => exact absurd rfl joinable.1
  | lone => exact absurd rfl joinable.2
  | ended => rfl
  | alive =>
      obtain ⟨th, object, -, -, live⟩ := self
      exact absurd (finished th object) live
  | awaited u =>
      obtain ⟨th, object, -, -, live⟩ := self
      exact absurd (finished th object) live
  | _ =>
      obtain ⟨th, object, -, finish⟩ := self
      have dead := finished th object
      rw [finish] at dead
      cases dead

/-- A finished thread does not run. -/
theorem Runs.not_finished (runs : Runs st th) (stage : At t .ended st) : st.currentThread ≠ t := by
  rintro rfl
  have dead := runs.kept.placed.dead _ th runs.current (stage.self.2 th runs.current)
  rw [runs.status] at dead
  cases dead

theorem At.untouched (kept : Kept st) (stage : At t .ended st) {e : Event} (other : e ≠ .join t) :
    ¬ st.Touches t e := by
  intro touches
  have body : st.inBody = true → st.currentThread ≠ t := by
    intro body
    obtain ⟨th, runs, -⟩ := kept.inBody body
    exact runs.not_finished stage
  cases e with
  | setExitStatus => exact body touches.1 touches.2
  | join u => exact other (congrArg _ touches)
  | finish => exact body touches.1 touches.2
  | proceed =>
      obtain ⟨mode, touches⟩ := touches
      obtain ⟨th, runs⟩ := kept.runs mode
      have differ := runs.not_finished stage
      have join := (stage.joins st.currentThread).not.mpr (by simp)
      have joined := (stage.passed st.currentThread).not.mpr (by simp)
      cases point : st.pointOf st.currentThread with
      | none => simp [point] at touches
      | some p => cases p <;> simp_all
  | _ => exact touches

/-- In a quiescent state a thread that is in a call is blocked. -/
theorem Seated.asleep (seated : Seated st) (quiescent : st.Quiescent)
    (object : st.threads v = some th) (called : th.point ≠ .body) : th.status = .blocked := by
  cases status : th.status with
  | blocked => rfl
  | justCreated => exact absurd (seated.fresh v th object status) called
  | running => exact absurd (seated.running v th object status).1 quiescent.1
  | ready =>
      have there := seated.ready v th object status
      rw [quiescent.2] at there
      cases there

/-- No quiescent state lies between `Finish` and the end. -/
theorem At.quiescent (seated : Seated st) (quiescent : st.Quiescent) (stage : At t g st)
    (issued : g.issued = true) (finishing : g.finishing = true) : g = .ended := by
  -- who is awake in the protocol would be blocked, and in a queue that the stage says is empty
  have stuck : ∀ v s, s.about = some t →
      (∃ p, st.pointOf v = some p ∧ p.queue v = some (.semaphore s)) →
      st.threads t ≠ none → v ∈ items (st.queues (.semaphore s)) := by
    intro v s about ⟨p, point, queue⟩ alive
    obtain ⟨th, object, rfl⟩ : ∃ th, st.threads v = some th ∧ th.point = p := by
      simpa [State.pointOf] using point
    have called : th.point ≠ .body := by
      intro body
      rw [body] at queue
      cases queue
    have live : th.point ≠ .finished := by
      intro finished
      rw [finished] at queue
      cases queue
    obtain ⟨q, waits, there⟩ :=
      seated.blocked v th object (seated.asleep quiescent object called) live
    obtain rfl : _ = q := Option.some.inj (queue.symm.trans waits)
    obtain there | ⟨d, owner, -, none⟩ := there
    · exact there
    · obtain rfl : t = d := Option.some.inj (about.symm.trans owner)
      exact absurd none alive
  have self := stage.self
  cases g with
  | woken u =>
      obtain ⟨th, object, -⟩ := self
      have there := stuck u (.joinSignal t) rfl ⟨_, (stage.joins u).mpr (.inr rfl), rfl⟩
        (by simp [object])
      rw [stage.signals] at there
      cases there
  | joined u =>
      obtain ⟨x, object, point⟩ : ∃ x, st.threads u = some x ∧ x.point = .joined t := by
        simpa [State.pointOf] using (stage.passed u).mpr rfl
      obtain ⟨q, waits, -⟩ := seated.blocked u x object
        (seated.asleep quiescent object (by simp [point])) (by simp [point])
      rw [point] at waits
      cases waits
  | released =>
      obtain ⟨th, object, -, finish⟩ := self
      have there := stuck t (.mayDie t) rfl
        ⟨_, by simp [State.pointOf, object, finish]; rfl, rfl⟩ (by simp [object])
      rw [stage.deaths] at there
      cases there
  | ended => rfl
  | unborn => cases issued
  | lone => cases issued
  | alive => cases issued
  | offered => cases issued
  | awaited => cases finishing

/-- **Joining a thread is safe.**  Whatever the threads do, and wherever the processor is
taken from them, as long as `t` is created to be joined and is joined at most once. -/
theorem join_safe (initialValue : Nat → Int) (events : List Event) (st : State) (t : Nat)
    (run : exec State.step (State.boot initialValue) events = some st)
    (created : SomeStep State.step (Creates t) (State.boot initialValue) events)
    (once : events.count (.join t) ≤ 1) :
    JoinSafe (State.boot initialValue) events st t := by
  obtain ⟨kept, seated, staged⟩ := run_staged (t := t) initialValue run
  obtain ⟨g, stage, history⟩ := staged once
  have joinable := history.created created
  constructor
  · intro v passed
    obtain rfl := (stage.passed v).mp passed
    exact (history.finishes joinable.2).mp rfl
  · intro recorded
    exact history.returns (.inr (stage.recorded kept joinable recorded))
  · intro recorded e limit
    obtain rfl := stage.recorded kept joinable recorded
    refine stage.untouched kept ?_
    rintro rfl
    have before := List.count_pos_iff.mpr (history.joins.mp rfl)
    simp [List.count_append] at limit
    omega
  · intro joined finished quiescent
    obtain rfl := stage.quiescent seated quiescent (history.joins.mpr joined)
      ((history.finishes joinable.2).mpr finished)
    refine ⟨fun finish => ?_, fun v => (stage.joins v).not.mpr (by simp)⟩
    obtain ⟨th, object, point⟩ : ∃ th, st.threads t = some th ∧ th.point = .finish := by
      simpa [State.pointOf] using finish
    rw [stage.self.2 th object] at point
    cases point

/-- The main thread joins a thread before it has run; the thread finishes, is recorded, and
is deleted when the main thread comes back. -/
theorem join_safe_early :
    ∃ st, exec State.step (State.boot fun _ => 0)
        [.create true, .fork 1, .join 1, .dispatch, .setExitStatus 7, .finish, .dispatch, .proceed,
          .proceed, .yield, .proceed, .dispatch] = some st ∧
      (st.threads 0).map Thread.exitStatus = some (some 7) ∧ st.Recorded 1 ∧ st.threads 1 = none ∧
      JoinSafe (State.boot fun _ => 0) [.create true, .fork 1, .join 1, .dispatch, .setExitStatus 7,
        .finish, .dispatch, .proceed, .proceed, .yield, .proceed, .dispatch] st 1 := by
  refine ⟨_, rfl, rfl, ⟨none, ?_⟩, rfl, ?_⟩
  · decide
  · exact join_safe (fun _ => 0) _ _ 1 rfl (.inl ⟨rfl, rfl⟩) (by decide)

end Safety

end Nachos.Threads
