/-
# Nachos.Threads.Whale -- `Whale::Male`, `Whale::Female` and `Whale::Matchmaker`

`Male` and `Female` are one procedure with the sexes exchanged, and are written here with
the sex as an argument.  A whale waits until the other sex and a matchmaker are pending
and no whale of its own sex is complete; a matchmaker waits for both sexes, wakes one whale
of each, and leaves when it finds a complete whale.

What the counters say of the calls is `Tallied`, and holds whatever happens.  The second
loop of `Matchmaker` tests `numCompleteMale == 0 && numCompleteFemale == 0`, so that a
matchmaker also leaves with one complete whale (`Splits`); and a matchmaker that leaves
signals to nobody, so that whales which slept because another was complete stay asleep
(`Strands`).

The segments of the code end at a call of `Signal`, `Wait` or `Release`.
-/
import Nachos.Threads.Synch

namespace Nachos.Threads.Whales

open Nachos.Lib.Monitor
open Nachos.Lib.Run
open Nachos.Threads.Synch

set_option autoImplicit false

inductive Sex where
  | male | female
  deriving DecidableEq, Repr

def Sex.other : Sex → Sex
  | .male => .female
  | .female => .male

structure Whale where
  numPendingMale : Int
  numPendingFemale : Int
  numPendingMatch : Int
  numCompleteMale : Int
  numCompleteFemale : Int
  deriving DecidableEq, Repr

inductive Cond where
  | maleSnd | femaleSnd | matchSnd | matchWait
  deriving DecidableEq, Repr

inductive Point where
  | whale (s : Sex)
  /-- Before the test of a whale. -/
  | loop (s : Sex)
  /-- After `matchSnd->Signal(lock)`. -/
  | signalOther (s : Sex)
  /-- Before `matchWait->Signal(lock)`. -/
  | signalMatch (s : Sex)
  /-- Before `lock->Release()`. -/
  | leave (s : Sex)
  | matchmaker
  /-- Before the test of the first loop of `Matchmaker`. -/
  | matchLoop
  /-- Before `maleSnd->Signal(lock)`. -/
  | signalMale
  /-- Before the test of the second loop of `Matchmaker`. -/
  | waitLoop
  deriving DecidableEq, Repr

/-- `Whale::Whale`. -/
def Whale.create : Whale := ⟨0, 0, 0, 0, 0⟩

namespace Whale

def pending (w : Whale) : Sex → Int
  | .male => w.numPendingMale
  | .female => w.numPendingFemale

def complete (w : Whale) : Sex → Int
  | .male => w.numCompleteMale
  | .female => w.numCompleteFemale

def addPending (w : Whale) : Sex → Whale
  | .male => { w with numPendingMale := w.numPendingMale + 1 }
  | .female => { w with numPendingFemale := w.numPendingFemale + 1 }

def addComplete (w : Whale) : Sex → Whale
  | .male => { w with numCompleteMale := w.numCompleteMale + 1 }
  | .female => { w with numCompleteFemale := w.numCompleteFemale + 1 }

/-- The end of `Matchmaker`. -/
def dismiss (w : Whale) : Whale where
  numPendingMale := w.numPendingMale - 1
  numPendingFemale := w.numPendingFemale - 1
  numCompleteMale := w.numCompleteMale - 1
  numCompleteFemale := w.numCompleteFemale - 1
  numPendingMatch := w.numPendingMatch - 1

end Whale

/-- The condition a whale waits on. -/
def Sex.cond : Sex → Cond
  | .male => .maleSnd
  | .female => .femaleSnd

/-- The loop of `Male` and of `Female`, up to `matchSnd->Signal(lock)`. -/
def whaleLoop (s : Sex) (w : Whale) : Whale × Action Point Cond :=
  if (w.pending s.other = 0 ∨ w.numPendingMatch = 0) ∨ w.complete s ≠ 0 then
    (w, .wait s.cond (.loop s))
  else (w.addComplete s, .signal .matchSnd (.signalOther s))

/-- The first loop of `Matchmaker`, and `femaleSnd->Signal(lock)`. -/
def matchLoop (w : Whale) : Whale × Action Point Cond :=
  if w.numPendingFemale = 0 ∨ w.numPendingMale = 0 then (w, .wait .matchSnd .matchLoop)
  else (w, .signal .femaleSnd .signalMale)

/-- The second loop of `Matchmaker`, and the rest of it. -/
def waitLoop (w : Whale) : Whale × Action Point Cond :=
  if w.numCompleteMale = 0 ∧ w.numCompleteFemale = 0 then (w, .wait .matchWait .waitLoop)
  else (w.dismiss, .release)

def code : Point → Whale → Whale × Action Point Cond
  | .whale s, w => whaleLoop s (w.addPending s)
  | .loop s, w => whaleLoop s w
  | .signalOther s, w => (w, .signal s.other.cond (.signalMatch s))
  | .signalMatch s, w => (w, .signal .matchWait (.leave s))
  | .leave _, w => (w, .release)
  | .matchmaker, w => matchLoop { w with numPendingMatch := w.numPendingMatch + 1 }
  | .matchLoop, w => matchLoop w
  | .signalMale, w => (w, .signal .maleSnd .waitLoop)
  | .waitLoop, w => waitLoop w

/-- A call begins at the `Acquire` of `Male`, `Female` or `Matchmaker`. -/
def Point.entry : Point → Bool
  | .whale _ | .matchmaker => true
  | _ => false

def program : Program Point Cond Whale where
  entry := Point.entry
  code pc w := some (code pc w)

/-! ## What the counters count -/

/-- A whale that has entered its call. -/
def Point.entered (s : Sex) : Point → Bool
  | .loop t | .signalOther t | .signalMatch t | .leave t => t = s
  | _ => false

/-- A whale that has passed its loop. -/
def Point.passed (s : Sex) : Point → Bool
  | .signalOther t | .signalMatch t | .leave t => t = s
  | _ => false

/-- A matchmaker that has entered its call. -/
def Point.matching : Point → Bool
  | .matchLoop | .signalMale | .waitLoop => true
  | _ => false

/-- The counters are the calls that have entered, or have passed their loop, less the
matchmakers that have returned. -/
structure Tallied (a : System Point Cond Whale) : Prop where
  pending : ∀ s, a.shared.pending s = a.count (Point.entered s) - a.returned Point.matching
  complete : ∀ s, a.shared.complete s = a.count (Point.passed s) - a.returned Point.matching
  matching : a.shared.numPendingMatch = a.count Point.matching - a.returned Point.matching

section Tally

variable {a b : System Point Cond Whale} {pc : Point} {w w' : Whale} {action : Action Point Cond}

attribute [local simp] Point.entered Point.passed Point.matching Action.next Action.returns
  Whale.pending Whale.complete Whale.addPending Whale.addComplete Whale.dismiss

theorem whaleLoop_cases {s : Sex} (ran : whaleLoop s w = (w', action)) :
    (((w.pending s.other = 0 ∨ w.numPendingMatch = 0) ∨ w.complete s ≠ 0) ∧ w' = w ∧
        action = .wait s.cond (.loop s)) ∨
      (w.pending s.other ≠ 0 ∧ w.numPendingMatch ≠ 0 ∧ w.complete s = 0 ∧
        w' = w.addComplete s ∧ action = .signal .matchSnd (.signalOther s)) := by
  unfold whaleLoop at ran
  split at ran
  · rename_i waits
    cases ran
    exact .inl ⟨waits, rfl, rfl⟩
  · rename_i passes
    cases ran
    simp only [not_or, not_not] at passes
    exact .inr ⟨passes.1.1, passes.1.2, passes.2, rfl, rfl⟩

theorem matchLoop_cases (ran : matchLoop w = (w', action)) :
    ((w.numPendingFemale = 0 ∨ w.numPendingMale = 0) ∧ w' = w ∧
        action = .wait .matchSnd .matchLoop) ∨
      (w.numPendingFemale ≠ 0 ∧ w.numPendingMale ≠ 0 ∧ w' = w ∧
        action = .signal .femaleSnd .signalMale) := by
  unfold matchLoop at ran
  split at ran
  · rename_i waits
    cases ran
    exact .inl ⟨waits, rfl, rfl⟩
  · rename_i passes
    cases ran
    simp only [not_or] at passes
    exact .inr ⟨passes.1, passes.2, rfl, rfl⟩

theorem waitLoop_cases (ran : waitLoop w = (w', action)) :
    (w.numCompleteMale = 0 ∧ w.numCompleteFemale = 0 ∧ w' = w ∧
        action = .wait .matchWait .waitLoop) ∨
      (¬ (w.numCompleteMale = 0 ∧ w.numCompleteFemale = 0) ∧ w' = w.dismiss ∧
        action = .release) := by
  unfold waitLoop at ran
  split at ran
  · rename_i waits
    cases ran
    exact .inl ⟨waits.1, waits.2, rfl, rfl⟩
  · rename_i passes
    cases ran
    exact .inr ⟨passes, rfl, rfl⟩

/-- What a segment of the code does to the counters. -/
theorem code_tallied (ran : code pc w = (w', action)) :
    (∀ s, w'.pending s + (pc.entered s).toNat + (action.returns && pc.matching).toNat =
      w.pending s + ((action.next pc).entered s).toNat) ∧
    (∀ s, w'.complete s + (pc.passed s).toNat + (action.returns && pc.matching).toNat =
      w.complete s + ((action.next pc).passed s).toNat) ∧
    w'.numPendingMatch + pc.matching.toNat + (action.returns && pc.matching).toNat =
      w.numPendingMatch + (action.next pc).matching.toNat := by
  cases pc with
  | whale s =>
      obtain ⟨-, rfl, rfl⟩ | ⟨-, -, -, rfl, rfl⟩ := whaleLoop_cases ran
      · cases s <;> exact ⟨fun t => by cases t <;> simp, fun t => by cases t <;> simp, by simp⟩
      · cases s <;> exact ⟨fun t => by cases t <;> simp, fun t => by cases t <;> simp, by simp⟩
  | loop s =>
      obtain ⟨-, rfl, rfl⟩ | ⟨-, -, -, rfl, rfl⟩ := whaleLoop_cases ran
      · simp
      · cases s <;> exact ⟨fun t => by cases t <;> simp, fun t => by cases t <;> simp, by simp⟩
  | signalOther s =>
      cases ran
      simp
  | signalMatch s =>
      cases ran
      simp
  | leave s =>
      cases ran
      simp
  | matchmaker =>
      obtain ⟨-, rfl, rfl⟩ | ⟨-, -, rfl, rfl⟩ := matchLoop_cases ran
      · exact ⟨fun t => by cases t <;> simp, fun t => by cases t <;> simp, by simp⟩
      · exact ⟨fun t => by cases t <;> simp, fun t => by cases t <;> simp, by simp⟩
  | matchLoop =>
      obtain ⟨-, rfl, rfl⟩ | ⟨-, -, rfl, rfl⟩ := matchLoop_cases ran
      · simp
      · simp
  | signalMale =>
      cases ran
      simp
  | waitLoop =>
      obtain ⟨-, -, rfl, rfl⟩ | ⟨-, rfl, rfl⟩ := waitLoop_cases ran
      · simp
      · refine ⟨fun t => ?_, fun t => ?_, ?_⟩
        · cases t <;> simp
        · cases t <;> simp
        · simp

theorem Tallied.enters (tallied : Tallied a) (enters : Enters program a b) : Tallied b := by
  have start : ∀ pc, program.entry pc = true →
      (∀ s, pc.entered s = false ∧ pc.passed s = false) ∧ pc.matching = false := by
    intro pc entry
    cases pc <;> first | exact ⟨fun _ => ⟨rfl, rfl⟩, rfl⟩ | cases entry
  constructor
  · intro s
    rw [enters.shared, enters.returned, enters.count fun pc entry => ((start pc entry).1 s).1]
    exact tallied.pending s
  · intro s
    rw [enters.shared, enters.returned, enters.count fun pc entry => ((start pc entry).1 s).2]
    exact tallied.complete s
  · rw [enters.shared, enters.returned, enters.count fun pc entry => (start pc entry).2]
    exact tallied.matching

theorem Tallied.runs (tallied : Tallied a) (runs : Lib.Monitor.Runs program a b) : Tallied b := by
  obtain ⟨pc, action, here, ran, there, moves⟩ := runs.cases'
  obtain ⟨pending, complete, matching⟩ := code_tallied (Option.some.inj ran)
  have back := moves.returned (p := Point.matching) (a := a) (b := b)
  constructor
  · intro s
    have counted := moves.count (p := Point.entered s) here there
    have before := tallied.pending s
    have step := pending s
    omega
  · intro s
    have counted := moves.count (p := Point.passed s) here there
    have before := tallied.complete s
    have step := complete s
    omega
  · have counted := moves.count (p := Point.matching) here there
    have before := tallied.matching
    omega

theorem create_tallied : Tallied ⟨none, 0, Whale.create⟩ := by
  constructor
  · intro s
    cases s <;> simp [Whale.create]
  · intro s
    cases s <;> simp [Whale.create]
  · simp [Whale.create]

/-- At most one whale of each sex is complete, and no counter has gone below zero. -/
def OneComplete (w : Whale) : Prop := ∀ s, 0 ≤ w.complete s ∧ w.complete s ≤ 1

theorem code_oneComplete (one : OneComplete w) (ran : code pc w = (w', action))
    (both : pc = .waitLoop → (w.numCompleteMale = 0 ↔ w.numCompleteFemale = 0)) :
    OneComplete w' := by
  have passes : ∀ s u, OneComplete u → u.complete s = 0 → OneComplete (u.addComplete s) := by
    intro s u one empty t
    have := one t
    cases s <;> cases t <;> simp at this empty ⊢ <;> omega
  cases pc with
  | whale s =>
      have one' : OneComplete (w.addPending s) := by
        intro t
        have := one t
        cases s <;> cases t <;> simpa using this
      obtain ⟨-, rfl, -⟩ | ⟨-, -, empty, rfl, -⟩ := whaleLoop_cases ran
      · exact one'
      · exact passes s _ one' empty
  | loop s =>
      obtain ⟨-, rfl, -⟩ | ⟨-, -, empty, rfl, -⟩ := whaleLoop_cases ran
      · exact one
      · exact passes s _ one empty
  | signalOther s =>
      cases ran
      exact one
  | signalMatch s =>
      cases ran
      exact one
  | leave s =>
      cases ran
      exact one
  | matchmaker =>
      obtain ⟨-, rfl, -⟩ | ⟨-, -, rfl, -⟩ := matchLoop_cases ran
      · exact one
      · exact one
  | matchLoop =>
      obtain ⟨-, rfl, -⟩ | ⟨-, -, rfl, -⟩ := matchLoop_cases ran
      · exact one
      · exact one
  | signalMale =>
      cases ran
      exact one
  | waitLoop =>
      obtain ⟨-, -, rfl, -⟩ | ⟨some, rfl, -⟩ := waitLoop_cases ran
      · exact one
      · have both := both rfl
        have male := one .male
        have female := one .female
        intro t
        cases t <;> simp at male female ⊢ <;> omega

end Tally

/-! ## Matchmakers that leave too early -/

section Safety

variable {st : Monitor Point Cond Whale} {events : List (Synch.Event Point)}

/-- While the lock is free at most one whale of each sex is complete, no counter is
negative, and no more matchmakers have returned than whales of either sex have passed. -/
def Safe (st : Monitor Point Cond Whale) : Prop :=
  st.isLocked = false →
    (∀ s, st.shared.complete s = 0 ∨ st.shared.complete s = 1) ∧
    (∀ s, 0 ≤ st.shared.pending s) ∧ 0 ≤ st.shared.numPendingMatch ∧
    ∀ s, st.returned Point.matching ≤ st.count (Point.passed s)

/-- A matchmaker tests its second loop while exactly one sex is complete. -/
def Splits (st : Monitor Point Cond Whale) (e : Synch.Event Point) : Prop :=
  ∃ i, e = .move i ∧ st.place i = some (.holds .waitLoop) ∧
    ¬ (st.shared.numCompleteMale = 0 ↔ st.shared.numCompleteFemale = 0)

instance (st : Monitor Point Cond Whale) (e : Synch.Event Point) : Decidable (Splits st e) :=
  decidableMove e

/-- What every state of a run without a split has. -/
def Matched (st : Monitor Point Cond Whale) : Prop :=
  Sound st ∧ Tallied st.view ∧ OneComplete st.view.shared

theorem step_matched (st : Monitor Point Cond Whale) (e : Synch.Event Point)
    (st' : Monitor Point Cond Whale) (matched : Matched st) (whole : ¬ Splits st e)
    (stepped : step program st e = some st') : Matched st' := by
  refine step_keeps (I := fun a => Tallied a ∧ OneComplete a.shared)
    (A := fun st e => ¬ Splits st e) ?_ ?_ st e st' matched whole stepped
  · intro a b kept enters
    refine ⟨kept.1.enters enters, ?_⟩
    rw [enters.shared]
    exact kept.2
  · intro st i pc b sound there whole kept runs
    refine ⟨kept.1.runs runs, ?_⟩
    obtain ⟨pc', action, here, ran, -, -⟩ := runs.cases'
    obtain rfl : pc = pc' := Option.some.inj ((sound.holder there).2.2.symm.trans here)
    refine code_oneComplete kept.2 (Option.some.inj ran) ?_
    rintro rfl
    by_contra split
    exact whole ⟨i, rfl, there, split⟩

theorem Matched.safe (matched : Matched st) : Safe st := by
  obtain ⟨sound, tallied, one⟩ := matched
  intro _
  have complete : ∀ s, st.shared.complete s = st.count
      (Point.passed s) - st.returned Point.matching := by
    intro s
    rw [← sound.view_count, ← view_returned]
    exact tallied.complete s
  have pending : ∀ s, st.shared.pending s = st.count
      (Point.entered s) - st.returned Point.matching := by
    intro s
    rw [← sound.view_count, ← view_returned]
    exact tallied.pending s
  have matching : st.shared.numPendingMatch =
      st.count Point.matching - st.returned Point.matching := by
    rw [← sound.view_count, ← view_returned]
    exact tallied.matching
  have one : ∀ s, 0 ≤ st.shared.complete s ∧ st.shared.complete s ≤ 1 := one
  refine ⟨fun s => ?_, fun s => ?_, ?_, fun s => ?_⟩
  · have := one s
    omega
  · have more : st.count (Point.passed s) ≤ st.count (Point.entered s) := by
      refine List.countP_mono_left fun t _ passed => ?_
      cases at_pc : t.place.pc <;> simp_all [Point.passed, Point.entered]
    have := one s
    have := complete s
    have := pending s
    omega
  · have more : st.returned Point.matching ≤ st.count Point.matching := by
      refine List.countP_mono_left fun t _ returned => ?_
      cases place : t.place <;> simp_all [Place.returnedAt, Place.pc]
    omega
  · have := one s
    have := complete s
    omega

theorem init_matched : Matched (init Whale.create) := by
  refine ⟨init_sound _, create_tallied, ?_⟩
  intro s
  cases s <;> decide

/-- After a split one sex is complete less than zero times, and the lock is free. -/
theorem Matched.split_unsafe {e : Synch.Event Point} (matched : Matched st) (split : Splits st e) :
    ∃ st', step program st e = some st' ∧ ¬ Safe st' := by
  obtain ⟨i, rfl, there, one⟩ := split
  obtain ⟨sound, -, complete⟩ := matched
  obtain ⟨current, -, -⟩ := sound.holder there
  obtain ⟨t, found, here⟩ := Option.map_eq_some_iff.mp there
  have leaves : waitLoop st.shared = (st.shared.dismiss, .release) := by
    unfold waitLoop
    split
    · rename_i both
      exact absurd ⟨fun _ => both.2, fun _ => both.1⟩ one
    · rfl
  refine ⟨(Monitor.release { st with shared := st.shared.dismiss }).put i (.returned .waitLoop), ?_,
    ?_⟩
  · simp [step, found, here, Monitor.run, program, code, leaves, current]
  · intro safe
    have shared : ((Monitor.release { st with shared := st.shared.dismiss }).put i
        (.returned .waitLoop)).shared = st.shared.dismiss := wakeLock_shared
    obtain ⟨ones, -⟩ := safe rfl
    rw [shared] at ones
    have male := ones .male
    have female := ones .female
    have maleBefore : 0 ≤ st.shared.numCompleteMale ∧ st.shared.numCompleteMale ≤ 1 :=
      complete .male
    have femaleBefore : 0 ≤ st.shared.numCompleteFemale ∧ st.shared.numCompleteFemale ≤ 1 :=
      complete .female
    simp only [Whale.complete, Whale.dismiss] at male female
    omega

/-- **Matchmakers are safe exactly when none of them tests its second loop with one whale
complete.** -/
theorem matchmaker_safe_iff (events : List (Synch.Event Point)) :
    AllStates (step program) Safe (init Whale.create) events ↔
      AllSteps (step program) (fun st e => ¬ Splits st e) (init Whale.create) events := by
  constructor
  · have from_matched : ∀ st, Matched st → AllStates (step program) Safe st events →
        AllSteps (step program) (fun st e => ¬ Splits st e) st events := by
      induction events with
      | nil => exact fun _ _ _ => trivial
      | cons e es ih =>
          intro st matched safe
          have whole : ¬ Splits st e := by
            intro split
            obtain ⟨st', stepped, bad⟩ := matched.split_unsafe split
            exact bad (safe.2 st' stepped).first
          exact ⟨whole, fun st' stepped =>
            ih st' (step_matched st e st' matched whole stepped) (safe.2 st' stepped)⟩
    exact from_matched _ init_matched
  · intro whole
    exact (allStates_of_invariant step_matched init_matched whole).mono fun st matched =>
      matched.safe

/-- A male comes, a matchmaker, then a female, who passes and wakes both; the matchmaker is
first and leaves with her, and the male finds no matchmaker any more. -/
theorem matchmaker_leaves_early :
    ∃ st, exec (step program) (init Whale.create)
        [.call (.whale .male) 0, .move 0, .move 0, .call .matchmaker 0, .move 1, .move 1,
          .call (.whale .female) 0, .move 2, .move 2, .move 2, .move 2, .move 2,
          .move 1, .move 1, .move 1, .move 1] = some st ∧
      st.isLocked = false ∧ st.shared.numCompleteMale = -1 ∧ ¬ Safe st := by
  refine ⟨_, rfl, rfl, rfl, ?_⟩
  intro safe
  have male := (safe rfl).1 .male
  exact absurd male (by decide)

end Safety

/-! ## Who wakes whom -/

/-- The point at which threads sleep on a condition. -/
def Cond.bed : Cond → Point
  | .maleSnd => .loop .male
  | .femaleSnd => .loop .female
  | .matchSnd => .matchLoop
  | .matchWait => .waitLoop

/-- Where a thread can be without the lock. -/
def lawful : Status Point Cond → Bool
  | .awake (.whale _) | .awake (.loop _) | .awake .matchmaker | .awake .matchLoop
  | .awake .waitLoop => true
  | .asleep c pc => pc = c.bed
  | .done (.leave _) | .done .waitLoop => true
  | _ => false

def Point.is (q pc : Point) : Bool := pc = q

/-- What an action does to the number of threads asleep at `q`. -/
def slept (action : Action Point Cond) (q : Point) (n : Nat) : Nat :=
  match action with
  | .signal c _ => if q = c.bed then n - 1 else n
  | .wait c _ => if q = c.bed then n + 1 else n
  | _ => n

section Waking

variable {a b : System Point Cond Whale} {pc : Point} {w w' : Whale} {action : Action Point Cond}

theorem lawful_up (c : Cond) (pc : Point) (asleep : lawful (.asleep c pc) = true) :
    lawful (.awake pc) = true := by
  obtain rfl : pc = c.bed := by simpa [lawful] using asleep
  cases c <;> rfl

/-- What a segment of the code leaves behind. -/
theorem code_lawful (ran : code pc w = (w', action)) :
    (∀ x, action.left pc = some x → lawful x = true) ∧
      (∀ c next, action = .wait c next → next = c.bed) ∧
      ∀ c next, action ≠ .broadcast c next := by
  have signals : ∀ c next, action = .signal c next →
      (∀ x, action.left pc = some x → lawful x = true) ∧
        (∀ c next, action = .wait c next → next = c.bed) ∧
        ∀ c next, action ≠ .broadcast c next := by
    rintro c next rfl
    exact ⟨nofun, nofun, nofun⟩
  have sleeps : ∀ c, action = .wait c c.bed →
      (∀ x, action.left pc = some x → lawful x = true) ∧
        (∀ c next, action = .wait c next → next = c.bed) ∧
        ∀ c next, action ≠ .broadcast c next := by
    rintro c rfl
    refine ⟨?_, ?_, nofun⟩
    · rintro x left
      cases left
      simp [lawful]
    · rintro c' next same
      cases same
      rfl
  have leaves : lawful (.done pc) = true → action = .release →
      (∀ x, action.left pc = some x → lawful x = true) ∧
        (∀ c next, action = .wait c next → next = c.bed) ∧
        ∀ c next, action ≠ .broadcast c next := by
    rintro out rfl
    refine ⟨?_, nofun, nofun⟩
    rintro x left
    cases left
    exact out
  cases pc with
  | whale s =>
      obtain ⟨-, -, waits⟩ | ⟨-, -, -, -, signal⟩ := whaleLoop_cases ran
      · exact sleeps s.cond (by cases s <;> exact waits)
      · exact signals _ _ signal
  | loop s =>
      obtain ⟨-, -, waits⟩ | ⟨-, -, -, -, signal⟩ := whaleLoop_cases ran
      · exact sleeps s.cond (by cases s <;> exact waits)
      · exact signals _ _ signal
  | matchmaker =>
      obtain ⟨-, -, waits⟩ | ⟨-, -, -, signal⟩ := matchLoop_cases ran
      · exact sleeps .matchSnd waits
      · exact signals _ _ signal
  | matchLoop =>
      obtain ⟨-, -, waits⟩ | ⟨-, -, -, signal⟩ := matchLoop_cases ran
      · exact sleeps .matchSnd waits
      · exact signals _ _ signal
  | waitLoop =>
      obtain ⟨-, -, -, waits⟩ | ⟨-, -, release⟩ := waitLoop_cases ran
      · exact sleeps .matchWait waits
      · exact leaves rfl release
  | leave s => exact leaves rfl (Prod.mk.inj ran).2.symm
  | signalOther s => exact signals _ _ (Prod.mk.inj ran).2.symm
  | signalMatch s => exact signals _ _ (Prod.mk.inj ran).2.symm
  | signalMale => exact signals _ _ (Prod.mk.inj ran).2.symm

/-- A signal wakes one of those who sleep on the condition, if there is one. -/
theorem moves_slept (law : Lawful lawful a.others) (moves : action.Moves pc a.others b.others)
    (bed : ∀ c next, action = .wait c next → next = c.bed)
    (single : ∀ c next, action ≠ .broadcast c next) (q : Point) :
    b.sleeping (Point.is q) = slept action q (a.sleeping (Point.is q)) := by
  have inBed : ∀ c pc, .asleep c pc ∈ a.others → pc = c.bed := by
    intro c pc there
    simpa [lawful] using law _ there
  cases action with
  | signal c next =>
      simp only [slept]
      split
      · rename_i same
        subst same
        refine Wakes.sleeping moves fun c' pc there => ?_
        rw [inBed c' pc there]
        cases c <;> cases c' <;> simp [Point.is, Cond.bed]
      · rename_i differ
        refine Wakes.sleeping_other moves fun pc there => ?_
        simpa [Point.is, inBed c pc there] using Ne.symm differ
  | broadcast c next => exact absurd rfl (single c next)
  | wait c next =>
      obtain rfl := bed c next rfl
      rw [sleeping_cons moves]
      simp only [slept, Status.sleeps, Point.is]
      by_cases same : q = c.bed
      · simp [same]
      · simp [same, Ne.symm same]
  | release =>
      rw [sleeping_cons moves]
      rfl
  | again next =>
      rw [sleeping_cons moves]
      rfl

/-- The holder of the lock is a whale of this sex that has yet to signal to the other. -/
def calling (s : Sex) : Option Point → Nat
  | some (.signalOther t) => if t = s then 1 else 0
  | _ => 0

/-- The holder of the lock is a whale that has yet to signal to `matchWait`. -/
def announcing : Option Point → Nat
  | some (.signalOther _) | some (.signalMatch _) => 1
  | _ => 0

/-- The holder of the lock is a whale of this sex that has passed its loop. -/
def inside (s : Sex) : Option Point → Nat
  | some (.signalOther t) | some (.signalMatch t) | some (.leave t) => if t = s then 1 else 0
  | _ => 0

/-- Somebody will go on: a whale whose partner is complete, a matchmaker whose whales are,
and when nobody is complete and all three are pending, one that has not been matched yet. -/
structure Awaits (a : System Point Cond Whale) : Prop where
  law : Lawful lawful a.others
  inside : ∀ s, 0 < inside s a.holder → a.shared.complete s = 1
  partners : ∀ s, a.shared.complete s = 1 →
    0 < a.shared.pending s.other ∧ 0 < a.shared.numPendingMatch
  partner : ∀ s, a.shared.complete s = 1 → a.shared.complete s.other = 0 →
    a.sleeping (Point.is (.loop s.other)) <
      a.count (Point.is (.loop s.other)) + calling s a.holder
  matchmaker : a.shared.numCompleteMale = 1 → a.shared.numCompleteFemale = 1 →
    (a.sleeping (Point.is .matchLoop) + a.sleeping (Point.is .waitLoop) : Nat) <
        a.shared.numPendingMatch ∨
      0 < a.sleeping (Point.is .waitLoop) ∧ announcing a.holder = 1
  starter : a.shared.numCompleteMale = 0 → a.shared.numCompleteFemale = 0 →
    0 < a.count (Point.is (.loop .male)) → 0 < a.count (Point.is (.loop .female)) →
    0 < a.shared.numPendingMatch →
    a.sleeping (Point.is (.loop .male)) <
        a.count (Point.is (.loop .male)) + a.count (Point.is (.whale .male)) ∨
      a.sleeping (Point.is (.loop .female)) <
        a.count (Point.is (.loop .female)) + a.count (Point.is (.whale .female)) ∨
      a.sleeping (Point.is .matchLoop) < a.count (Point.is .matchmaker) +
        a.count (Point.is .matchLoop) + a.count (Point.is .signalMale)

theorem Awaits.enters (awaits : Awaits a) (enters : Enters program a b) : Awaits b := by
  have inner : ∀ q, q.entry = false → b.count (Point.is q) = a.count (Point.is q) := by
    intro q inner
    refine enters.count fun pc entry => ?_
    have differ : pc ≠ q := by
      rintro rfl
      exact absurd entry (by simp [program, inner])
    simp [Point.is, differ]
  have more : ∀ q, a.count (Point.is q) ≤ b.count (Point.is q) := fun q => enters.count_le
  obtain ⟨law, holder⟩ := enters.lawful
    (fun pc entry => by cases pc <;> first | rfl | cases entry) awaits.law
  have same : (∀ s, Whales.inside s b.holder = Whales.inside s a.holder ∧
      calling s b.holder = calling s a.holder) ∧ announcing b.holder = announcing a.holder := by
    obtain same | ⟨before, pc, after, resting⟩ := holder
    · rw [same]
      exact ⟨fun _ => ⟨rfl, rfl⟩, rfl⟩
    · rw [before, after]
      cases pc <;> first | exact ⟨fun _ => ⟨rfl, rfl⟩, rfl⟩ | cases resting
  constructor
  · exact law
  · intro s
    rw [(same.1 s).1, enters.shared]
    exact awaits.inside s
  · intro s
    rw [enters.shared]
    exact awaits.partners s
  · intro s
    rw [(same.1 s).2, enters.shared, enters.sleeping, inner _ rfl]
    exact awaits.partner s
  · rw [same.2, enters.shared, enters.sleeping, enters.sleeping]
    exact awaits.matchmaker
  · rw [enters.shared, enters.sleeping, enters.sleeping, enters.sleeping, inner (.loop .male) rfl,
      inner (.loop .female) rfl]
    intro male female males females matchmakers
    have starter := awaits.starter male female males females matchmakers
    have maleMore := more (.whale .male)
    have femaleMore := more (.whale .female)
    have matchMore := more .matchmaker
    have loopMore := more .matchLoop
    have signalMore := more .signalMale
    omega

/-- The pending whales of a sex are those at their loop and the one that is complete. -/
theorem Tallied.pending_eq (tallied : Tallied a) (s : Sex) :
    a.shared.pending s = a.count (Point.is (.loop s)) + a.shared.complete s := by
  have apart : a.count (Point.entered s) = a.count (Point.is (.loop s)) + a.count
      (Point.passed s) := by
    refine count_add fun pc => ?_
    cases pc <;> simp [Point.entered, Point.is, Point.passed]
  have pending := tallied.pending s
  have complete := tallied.complete s
  omega

/-- A matchmaker sleeps in one of its two loops. -/
theorem sleeping_matching (law : Lawful lawful a.others) :
    a.sleeping Point.matching =
      a.sleeping (Point.is .matchLoop) + a.sleeping (Point.is .waitLoop) := by
  refine sleeping_add fun c pc there => ?_
  have bed : pc = c.bed := of_decide_eq_true (law _ there)
  subst bed
  cases c <;> rfl

/-- The matchmakers asleep are pending; the one that holds the lock is, too. -/
theorem Tallied.sleeping_le (tallied : Tallied a) (law : Lawful lawful a.others) :
    (a.sleeping (Point.is .matchLoop) + a.sleeping (Point.is .waitLoop) +
      (a.holder.any Point.matching).toNat : Nat) ≤ a.shared.numPendingMatch := by
  have apart := sleeping_matching law
  have room := returned_add_sleeping_le (p := Point.matching) (a := a)
  have matching := tallied.matching
  omega

theorem sleeping_le_count (q : Point) :
    a.sleeping (Point.is q) + (a.holder.any (Point.is q)).toNat ≤ a.count (Point.is q) := by
  have room := returned_add_sleeping_le (p := Point.is q) (a := a)
  omega

attribute [local simp] Point.is Action.next Action.holder slept Cond.bed Sex.cond Sex.other
  calling announcing
  inside Whale.pending Whale.complete Whale.addPending Whale.addComplete Whale.dismiss
    Point.matching

theorem Sex.forall {p : Sex → Prop} : (∀ s, p s) ↔ p .male ∧ p .female := by
  constructor
  · exact fun all => ⟨all .male, all .female⟩
  · rintro ⟨male, female⟩ s
    cases s
    · exact male
    · exact female

/-- A step of the thread at `pc`: what the state before it has, and what the step does to
the figures of `Awaits`. -/
structure Stepped (pc : Point) (action : Action Point Cond) (a b : System Point Cond Whale) :
    Prop where
  pending : ∀ s, a.shared.pending s = a.count (Point.is (.loop s)) + a.shared.complete s
  asleep : (a.sleeping (Point.is .matchLoop) + a.sleeping (Point.is .waitLoop) +
    pc.matching.toNat : Nat) ≤ a.shared.numPendingMatch
  room : ∀ s, a.sleeping (Point.is (.loop s)) + (Point.is (.loop s) pc).toNat ≤
    a.count (Point.is (.loop s))
  one : ∀ s, 0 ≤ a.shared.complete s ∧ a.shared.complete s ≤ 1
  awaits : Awaits a
  here : a.holder = some pc
  there : b.holder = action.holder
  law : Lawful lawful b.others
  loops : ∀ s, b.count (Point.is (.loop s)) + (Point.is (.loop s) pc).toNat =
    a.count (Point.is (.loop s)) + (Point.is (.loop s) (action.next pc)).toNat
  calls : ∀ s, b.count (Point.is (.whale s)) + (Point.is (.whale s) pc).toNat =
    a.count (Point.is (.whale s)) + (Point.is (.whale s) (action.next pc)).toNat
  matchCalls : b.count (Point.is .matchmaker) + (Point.is .matchmaker pc).toNat =
    a.count (Point.is .matchmaker) + (Point.is .matchmaker (action.next pc)).toNat
  matchLoops : b.count (Point.is .matchLoop) + (Point.is .matchLoop pc).toNat =
    a.count (Point.is .matchLoop) + (Point.is .matchLoop (action.next pc)).toNat
  signals : b.count (Point.is .signalMale) + (Point.is .signalMale pc).toNat =
    a.count (Point.is .signalMale) + (Point.is .signalMale (action.next pc)).toNat
  sleepers : ∀ s, b.sleeping (Point.is (.loop s)) =
    slept action (.loop s) (a.sleeping (Point.is (.loop s)))
  sleepMatch : b.sleeping (Point.is .matchLoop) =
    slept action .matchLoop (a.sleeping (Point.is .matchLoop))
  sleepWait : b.sleeping (Point.is .waitLoop) =
    slept action .waitLoop (a.sleeping (Point.is .waitLoop))

attribute [local simp] Sex.forall

/-- A whale tests its loop. -/
theorem Stepped.loop {s : Sex} (stepped : Stepped (.loop s) action a b)
    (ran : whaleLoop s a.shared = (b.shared, action)) : Awaits b := by
  obtain ⟨pending, asleep, room, one, ⟨-, inside, partners, partner, matchmaker, starter⟩,
    here, there, law, loops, calls, matchCalls, matchLoops, signals, sleepers, sleepMatch,
      sleepWait⟩ := stepped
  obtain ⟨waits, shared, rfl⟩ | ⟨others, some, empty, shared, rfl⟩ := whaleLoop_cases ran
  · -- what holds before the step decides every clause after it
    cases s <;> simp [here] at *
    all_goals refine ⟨law, ?_, ?_, ?_, ?_, ?_⟩ <;> simp [shared, there] <;> omega
  · cases s <;> simp [here] at *
    all_goals refine ⟨law, ?_, ?_, ?_, ?_, ?_⟩ <;> simp [shared, there] <;> omega

/-- A whale enters and tests its loop. -/
theorem Stepped.whale {s : Sex} (stepped : Stepped (.whale s) action a b)
    (ran : whaleLoop s (a.shared.addPending s) = (b.shared, action)) : Awaits b := by
  obtain ⟨pending, asleep, room, one, ⟨-, inside, partners, partner, matchmaker, starter⟩,
    here, there, law, loops, calls, matchCalls, matchLoops, signals, sleepers, sleepMatch,
      sleepWait⟩ := stepped
  obtain ⟨waits, shared, rfl⟩ | ⟨others, some, empty, shared, rfl⟩ := whaleLoop_cases ran
  · cases s <;> simp [here] at *
    all_goals refine ⟨law, ?_, ?_, ?_, ?_, ?_⟩ <;> simp [shared, there] <;> omega
  · cases s <;> simp [here] at *
    all_goals refine ⟨law, ?_, ?_, ?_, ?_, ?_⟩ <;> simp [shared, there] <;> omega

/-- A whale that has passed its loop signals and leaves. -/
theorem Stepped.passed {s : Sex} (stepped : Stepped pc action a b) (passed : pc.passed s = true)
    (ran : code pc a.shared = (b.shared, action)) : Awaits b := by
  obtain ⟨pending, asleep, room, one, ⟨-, inside, partners, partner, matchmaker, starter⟩,
    here, there, law, loops, calls, matchCalls, matchLoops, signals, sleepers, sleepMatch,
      sleepWait⟩ := stepped
  cases pc with
  | signalOther t =>
      obtain ⟨shared, rfl⟩ := Prod.mk.inj ran
      cases t <;> simp [here] at *
      all_goals refine ⟨law, ?_, ?_, ?_, ?_, ?_⟩ <;> simp [← shared, there] <;> omega
  | signalMatch t =>
      obtain ⟨shared, rfl⟩ := Prod.mk.inj ran
      cases t <;> simp [here] at *
      all_goals refine ⟨law, ?_, ?_, ?_, ?_, ?_⟩ <;> simp [← shared, there] <;> omega
  | leave t =>
      obtain ⟨shared, rfl⟩ := Prod.mk.inj ran
      simp [here] at *
      refine ⟨law, ?_, ?_, ?_, ?_, ?_⟩ <;> simp [← shared, there] <;> omega
  | whale | loop | matchmaker | matchLoop | signalMale | waitLoop => cases passed

/-- A matchmaker tests its first loop. -/
theorem Stepped.matching (stepped : Stepped pc action a b)
    (first : pc = .matchmaker ∨ pc = .matchLoop ∨ pc = .signalMale)
    (ran : code pc a.shared = (b.shared, action)) : Awaits b := by
  obtain ⟨pending, asleep, room, one, ⟨-, inside, partners, partner, matchmaker, starter⟩,
    here, there, law, loops, calls, matchCalls, matchLoops, signals, sleepers, sleepMatch,
      sleepWait⟩ := stepped
  obtain rfl | rfl | rfl := first
  · obtain ⟨waits, shared, rfl⟩ | ⟨males, females, shared, rfl⟩ := matchLoop_cases ran
    · simp [here] at *
      refine ⟨law, ?_, ?_, ?_, ?_, ?_⟩ <;> simp [shared, there] <;> omega
    · simp [here] at *
      refine ⟨law, ?_, ?_, ?_, ?_, ?_⟩ <;> simp [shared, there] <;> omega
  · obtain ⟨waits, shared, rfl⟩ | ⟨males, females, shared, rfl⟩ := matchLoop_cases ran
    · simp [here] at *
      refine ⟨law, ?_, ?_, ?_, ?_, ?_⟩ <;> simp [shared, there] <;> omega
    · simp [here] at *
      refine ⟨law, ?_, ?_, ?_, ?_, ?_⟩ <;> simp [shared, there] <;> omega
  · obtain ⟨shared, rfl⟩ := Prod.mk.inj ran
    simp [here] at *
    refine ⟨law, ?_, ?_, ?_, ?_, ?_⟩ <;> simp [← shared, there] <;> omega

/-- With both sexes complete, and more of all three pending, one that is to be matched next
is awake. -/
def Heeded (a : System Point Cond Whale) : Prop :=
  a.shared.numCompleteMale = 1 → a.shared.numCompleteFemale = 1 →
    2 ≤ a.shared.numPendingMale → 2 ≤ a.shared.numPendingFemale → 2 ≤ a.shared.numPendingMatch →
    a.sleeping (Point.is (.loop .male)) <
        a.count (Point.is (.loop .male)) + a.count (Point.is (.whale .male)) ∨
      a.sleeping (Point.is (.loop .female)) <
        a.count (Point.is (.loop .female)) + a.count (Point.is (.whale .female)) ∨
      a.sleeping (Point.is .matchLoop) < a.count (Point.is .matchmaker) +
        a.count (Point.is .matchLoop) + a.count (Point.is .signalMale)

/-- A matchmaker tests its second loop. -/
theorem Stepped.waitLoop (stepped : Stepped .waitLoop action a b) (heeded : Heeded a)
    (whole : a.shared.numCompleteMale = 0 ↔ a.shared.numCompleteFemale = 0)
    (ran : Whales.waitLoop a.shared = (b.shared, action)) : Awaits b := by
  obtain ⟨pending, asleep, room, one, ⟨-, inside, partners, partner, matchmaker, starter⟩,
    here, there, law, loops, calls, matchCalls, matchLoops, signals, sleepers, sleepMatch,
      sleepWait⟩ := stepped
  unfold Heeded at heeded
  obtain ⟨male, female, shared, rfl⟩ | ⟨some, shared, rfl⟩ := waitLoop_cases ran
  · simp [here] at *
    refine ⟨law, ?_, ?_, ?_, ?_, ?_⟩ <;> simp [shared, there] <;> omega
  · simp [here] at *
    refine ⟨law, ?_, ?_, ?_, ?_, ?_⟩ <;> simp [shared, there] <;> omega

theorem Awaits.runs (tallied : Tallied a) (one : OneComplete a.shared) (awaits : Awaits a)
    (runs : Lib.Monitor.Runs program a b)
    (whole : a.holder = some .waitLoop →
      (a.shared.numCompleteMale = 0 ↔ a.shared.numCompleteFemale = 0) ∧ Heeded a) : Awaits b := by
  obtain ⟨pc, action, here, ran, there, moves⟩ := runs.cases'
  have ran : code pc a.shared = (b.shared, action) := Option.some.inj ran
  obtain ⟨left, bed, single⟩ := code_lawful ran
  have counts := fun q => moves.count (p := Point.is q) here there
  have sleeps := moves_slept awaits.law moves bed single
  have asleep := tallied.sleeping_le awaits.law
  have room := sleeping_le_count (a := a)
  rw [here] at asleep
  simp only [here] at room
  have stepped : Stepped pc action a b := ⟨tallied.pending_eq, asleep, fun s => room (.loop s), one,
    awaits, here, there, moves.lawful lawful_up left awaits.law, fun s => counts (.loop s),
    fun s => counts (.whale s), counts _, counts _, counts _, fun s => sleeps (.loop s),
      sleeps _, sleeps _⟩
  cases pc with
  | whale s => exact stepped.whale ran
  | loop s => exact stepped.loop ran
  | signalOther s | signalMatch s | leave s =>
      exact stepped.passed (s := s) (by simp [Point.passed]) ran
  | matchmaker | matchLoop | signalMale => exact stepped.matching (by simp) ran
  | waitLoop => exact stepped.waitLoop (whole here).2 (whole here).1 ran

/-- In a state where nobody is awake, whoever is at a point out of which nobody returns
sleeps there. -/
theorem Awaits.asleep (awaits : Awaits a) (free : a.holder = none)
    (nobody : ∀ pc, .awake pc ∉ a.others) {q : Point} (stays : lawful (.done q) = false) :
    a.count (Point.is q) = a.sleeping (Point.is q) := by
  have back : a.returned (Point.is q) = a.returned fun _ => false := by
    refine returned_congr fun pc there => ?_
    have differ : pc ≠ q := by
      rintro rfl
      exact absurd (awaits.law _ there) (by simp [stays])
    simp [differ]
  rw [count_of_quiescent free nobody, back]
  simp

theorem Awaits.nobody_at (awaits : Awaits a) (free : a.holder = none)
    (nobody : ∀ pc, .awake pc ∉ a.others) {q : Point} (stays : lawful (.done q) = false)
    (wakes : ∀ c, q ≠ Cond.bed c) : a.count (Point.is q) = 0 := by
  rw [awaits.asleep free nobody stays, ← sleeping_nowhere (a := a)]
  refine sleeping_congr fun c pc there => ?_
  have bed : pc = c.bed := of_decide_eq_true (awaits.law _ there)
  have differ : pc ≠ q := by
    rintro rfl
    exact wakes c bed
  simp only [Point.is, differ, decide_false]

end Waking

/-! ## Everybody is matched -/

def Point.isWhale (s : Sex) : Point → Bool
  | .whale t | .loop t | .signalOther t | .signalMatch t | .leave t => t = s
  | _ => false

def Point.isMatchmaker : Point → Bool
  | .matchmaker | .matchLoop | .signalMale | .waitLoop => true
  | _ => false

/-- A call that has yet to find its partners. -/
def Point.unmatched : Point → Bool
  | .whale _ | .loop _ | .matchmaker | .matchLoop | .signalMale => true
  | _ => false

section Completeness

variable {a : System Point Cond Whale} {st : Monitor Point Cond Whale}
  {events : List (Synch.Event Point)}

/-- A matchmaker leaves with two whales, more of all three kinds are pending, and all of them
sleep. -/
def Strands (st : Monitor Point Cond Whale) (e : Synch.Event Point) : Prop :=
  ∃ i, e = .move i ∧ st.place i = some (.holds .waitLoop) ∧
    st.shared.numCompleteMale ≠ 0 ∧ st.shared.numCompleteFemale ≠ 0 ∧
    2 ≤ st.shared.numPendingMale ∧ 2 ≤ st.shared.numPendingFemale ∧ 2 ≤ st.shared.numPendingMatch ∧
    ∀ t ∈ st.threads, t.place.pc.unmatched = true → t.place.waitingAt Point.unmatched = true

instance (st : Monitor Point Cond Whale) (e : Synch.Event Point) : Decidable (Strands st e) :=
  decidableMove e

theorem heeded_of_not_strands (sound : Sound st) {i : Nat}
    (there : st.place i = some (.holds .waitLoop))
    (heeds : ¬ Strands st (.move i)) : Heeded st.view := by
  intro male female males females matchmakers
  have male : st.shared.numCompleteMale ≠ 0 := by
    have : st.shared.numCompleteMale = 1 := male
    omega
  have female : st.shared.numCompleteFemale ≠ 0 := by
    have : st.shared.numCompleteFemale = 1 := female
    omega
  have someone : ∃ t ∈ st.threads, t.place.pc.unmatched = true ∧
      t.place.waitingAt Point.unmatched = false := by
    by_contra nobody
    refine heeds ⟨i, rfl, there, male, female, males, females, matchmakers,
      fun t member unmatched => ?_⟩
    by_contra awake
    exact nobody ⟨t, member, unmatched, by simpa using awake⟩
  obtain ⟨t, member, unmatched, awake⟩ := someone
  have more : st.view.sleeping (Point.is t.place.pc) < st.view.count (Point.is t.place.pc) := by
    rw [sound.view_count, view_sleeping]
    refine sleeping_lt_count member (by simp [Point.is]) ?_
    cases place : t.place with
    | waiting c next =>
        simp [place, Place.waitingAt, Place.pc] at awake unmatched
        simp [unmatched] at awake
    | acquire | queued | holds | returned => rfl
  have room := fun q => sleeping_le_count (a := st.view) q
  have maleRoom := room (.loop .male)
  have femaleRoom := room (.loop .female)
  have matchRoom := room .matchLoop
  cases at_pc : t.place.pc with
  | whale s =>
      rw [at_pc] at more
      cases s <;> omega
  | loop s =>
      rw [at_pc] at more
      cases s <;> omega
  | matchmaker | matchLoop | signalMale =>
      rw [at_pc] at more
      omega
  | signalOther | signalMatch | leave | waitLoop => simp [at_pc, Point.unmatched] at unmatched

/-- In a state where nobody is awake nobody is complete, and one of the three kinds is not
pending. -/
theorem Awaits.quiescent (tallied : Tallied a) (one : OneComplete a.shared) (awaits : Awaits a)
    (free : a.holder = none) (nobody : ∀ pc, .awake pc ∉ a.others) :
    (∀ s, a.shared.complete s = 0) ∧ (a.shared.numPendingMale = 0 ∨ a.shared.numPendingFemale = 0 ∨
      a.shared.numPendingMatch = 0) := by
  have loops := fun s => awaits.asleep free nobody (q := .loop s) rfl
  have matchLoops := awaits.asleep free nobody (q := .matchLoop) rfl
  have calls := fun s => awaits.nobody_at free nobody (q := .whale s) rfl
    (by intro c; cases c <;> nofun)
  have matchCalls := awaits.nobody_at free nobody (q := .matchmaker) rfl
    (by intro c; cases c <;> nofun)
  have signals := awaits.nobody_at free nobody (q := .signalMale) rfl
    (by intro c; cases c <;> nofun)
  have matchmakers := sleeping_matching awaits.law
  have all := count_of_quiescent (p := Point.matching) free nobody
  have matching := tallied.matching
  have males := tallied.pending_eq .male
  have females := tallied.pending_eq .female
  have oneMale : 0 ≤ a.shared.numCompleteMale ∧ a.shared.numCompleteMale ≤ 1 := one .male
  have oneFemale : 0 ≤ a.shared.numCompleteFemale ∧ a.shared.numCompleteFemale ≤ 1 := one .female
  obtain ⟨-, -, -, partner, matchmaker, starter⟩ := awaits
  have partnerMale := partner .male
  have partnerFemale := partner .female
  have loopMale := loops .male
  have loopFemale := loops .female
  have callMale := calls .male
  have callFemale := calls .female
  simp only [free, calling, announcing, Sex.other, Whale.complete, Whale.pending] at *
  have complete : a.shared.numCompleteMale = 0 ∧ a.shared.numCompleteFemale = 0 := by omega
  refine ⟨fun s => ?_, by omega⟩
  cases s
  · exact complete.1
  · exact complete.2

/-- What every state has, of a run in which nobody is split and nobody is stranded. -/
def Paired (st : Monitor Point Cond Whale) : Prop :=
  Sound st ∧ Tallied st.view ∧ OneComplete st.view.shared ∧ Awaits st.view

theorem init_paired : Paired (init Whale.create) := by
  refine ⟨init_sound _, create_tallied, ?_, ?_⟩
  · intro s
    cases s <;> decide
  · constructor
    · intro x there
      simp [init, Monitor.view, Monitor.others] at there
    · intro s inside
      cases inside
    · intro s complete
      cases s <;> cases complete
    · intro s complete
      cases s <;> cases complete
    · intro complete
      cases complete
    · intro _ _ males
      cases males

theorem step_paired (st : Monitor Point Cond Whale) (e : Synch.Event Point)
    (st' : Monitor Point Cond Whale) (paired : Paired st) (whole : ¬ Splits st e ∧ ¬ Strands st e)
    (stepped : step program st e = some st') : Paired st' := by
  refine step_keeps (I := fun a => Tallied a ∧ OneComplete a.shared ∧ Awaits a)
    (A := fun st e => ¬ Splits st e ∧ ¬ Strands st e) ?_ ?_ st e st' paired whole stepped
  · intro a b kept enters
    refine ⟨kept.1.enters enters, ?_, kept.2.2.enters enters⟩
    rw [enters.shared]
    exact kept.2.1
  · rintro st i pc b sound there ⟨whole, heeds⟩ ⟨tallied, one, awaits⟩ runs
    have here : st.view.holder = some pc := (sound.holder there).2.2
    have both : pc = .waitLoop → (st.view.shared.numCompleteMale = 0 ↔
        st.view.shared.numCompleteFemale = 0) := by
      rintro rfl
      by_contra split
      exact whole ⟨i, rfl, there, split⟩
    refine ⟨tallied.runs runs, ?_, awaits.runs tallied one runs fun last => ?_⟩
    · obtain ⟨pc', action, here', ran, -, -⟩ := runs.cases'
      obtain rfl : pc = pc' := Option.some.inj (here.symm.trans here')
      exact code_oneComplete one (Option.some.inj ran) both
    · obtain rfl : pc = .waitLoop := Option.some.inj (here.symm.trans last)
      exact ⟨both rfl, heeded_of_not_strands sound there heeds⟩

/-- **When no matchmaker splits or strands the others, every quiescent state has matched as
many as it can**, and not all three kinds are blocked in it. -/
theorem whales_all_matched (events : List (Synch.Event Point)) (st : Monitor Point Cond Whale)
    (run : exec (step program) (init Whale.create) events = some st)
    (whole : AllSteps (step program) (fun st e => ¬ Splits st e ∧ ¬ Strands st e)
      (init Whale.create) events) (quiescent : Quiescent st) :
    (∀ p ∈ [Point.isWhale .male, Point.isWhale .female, Point.isMatchmaker], st.returned p =
        min (min (st.count (Point.isWhale .male)) (st.count (Point.isWhale .female)))
          (st.count Point.isMatchmaker)) ∧
      ¬ (Blocked st (Point.isWhale .male) ∧ Blocked st (Point.isWhale .female) ∧
        Blocked st Point.isMatchmaker) := by
  obtain ⟨sound, tallied, one, awaits⟩ := exec_invariant step_paired init_paired whole run
  obtain ⟨free, nobody⟩ := sound.quiescent quiescent
  obtain ⟨empty, idle⟩ := awaits.quiescent tallied one free nobody
  have entered : ∀ x ∈ st.view.others, (∀ s, x.pc.isWhale s = x.pc.entered s) ∧
      x.pc.isMatchmaker = x.pc.matching := by
    intro x there
    have ok := awaits.law x there
    cases x with
    | awake pc => exact absurd there (nobody pc)
    | asleep c pc =>
        obtain rfl : pc = c.bed := of_decide_eq_true ok
        cases c <;> exact ⟨fun _ => rfl, rfl⟩
    | done pc => cases pc <;> first | exact ⟨fun _ => rfl, rfl⟩ | cases ok
  have whales := fun s => System.congr free fun x there => (entered x there).1 s
  obtain ⟨matchmakers, matchmakersBack, matchmakersAsleep⟩ :=
    System.congr free fun x there => (entered x there).2
  have asleep : ∀ s, st.view.sleeping (Point.entered s) = st.view.sleeping
      (Point.is (.loop s)) := by
    intro s
    refine sleeping_congr fun c pc there => ?_
    obtain rfl : pc = c.bed := of_decide_eq_true (awaits.law _ there)
    cases c <;> cases s <;> rfl
  have numbers : ∀ s, st.view.count (Point.entered s) =
      st.view.returned (Point.entered s) + st.view.sleeping (Point.is (.loop s)) ∧
      st.view.count (Point.is (.loop s)) = st.view.sleeping (Point.is (.loop s)) ∧
      st.view.shared.pending s = st.view.count (Point.is (.loop s)) ∧
      st.view.shared.pending s =
        st.view.count (Point.entered s) - st.view.returned Point.matching := by
    intro s
    refine ⟨?_, awaits.asleep free nobody rfl, ?_, tallied.pending s⟩
    · rw [← asleep]
      exact count_of_quiescent free nobody
    · rw [tallied.pending_eq s, empty s, add_zero]
  have males := numbers .male
  have females := numbers .female
  have all := count_of_quiescent (p := Point.matching) free nobody
  have matching := tallied.matching
  obtain ⟨maleCount, maleBack, maleAsleep⟩ := whales .male
  obtain ⟨femaleCount, femaleBack, femaleAsleep⟩ := whales .female
  have sleepers := asleep .male
  have sleepersFemale := asleep .female
  simp only [Whale.pending] at males females
  rw [← sound.view_count, ← sound.view_count, ← sound.view_count, maleCount, femaleCount,
    matchmakers]
  constructor
  · intro p kind
    rw [← view_returned]
    obtain rfl | rfl | rfl : p = Point.isWhale .male ∨ p = Point.isWhale .female ∨
        p = Point.isMatchmaker := by simpa using kind
    · omega
    · omega
    · omega
  · rintro ⟨male, female, matchmaker⟩
    have male := sound.blocked quiescent male
    have female := sound.blocked quiescent female
    have matchmaker := sound.blocked quiescent matchmaker
    omega

/-- Two males and a female wait, and a matchmaker wakes the first male and the female; a second
female and a second matchmaker come, and then a third male. -/
def twoRounds : List (Synch.Event Point) :=
  [.call (.whale .male) 0, .move 0, .move 0, .call (.whale .male) 0, .move 1, .move 1,
    .call (.whale .female) 0, .move 2, .move 2, .call .matchmaker 0, .move 3, .move 3,
      .move 3, .move 3,
    .move 0, .move 0, .move 0, .move 0, .move 0, .move 2, .move 2, .move 2, .move 2, .move 2,
      .move 3, .move 3,
    .call (.whale .female) 0, .move 4, .move 4, .call .matchmaker 0, .move 5, .move 5,
      .move 5, .move 5,
    .move 1, .move 1, .move 1, .move 1, .move 1, .move 4, .move 4, .move 4, .move 4, .move 4,
      .move 5, .move 5,
    .call (.whale .male) 0, .move 6, .move 6]

theorem whales_all_matched_two :
    ∃ st, exec (step program) (init Whale.create) twoRounds = some st ∧ Quiescent st ∧
      st.count (Point.isWhale .male) = 3 ∧ st.returned (Point.isWhale .male) = min (min 3 2) 2 ∧
      ¬ (Blocked st (Point.isWhale .male) ∧ Blocked st (Point.isWhale .female) ∧
        Blocked st Point.isMatchmaker) := by
  have quiescent : ∀ st, exec (step program) (init Whale.create) twoRounds = some st →
      Quiescent st := by
    decide +kernel
  obtain ⟨st, run⟩ : ∃ st, exec (step program) (init Whale.create) twoRounds = some st := ⟨_, rfl⟩
  obtain ⟨matched, free⟩ := whales_all_matched twoRounds st run (by decide +kernel)
    (quiescent st run)
  have counts : ∀ st, exec (step program) (init Whale.create) twoRounds = some st →
      st.count (Point.isWhale .male) = 3 ∧ st.count (Point.isWhale .female) = 2 ∧
        st.count Point.isMatchmaker = 2 := by
    decide +kernel
  obtain ⟨males, females, matchmakers⟩ := counts st run
  have males' := matched (Point.isWhale .male) (by simp)
  rw [males, females, matchmakers] at males'
  exact ⟨st, run, quiescent st run, males, males', free⟩

/-- Two whales of each sex wait and two matchmakers wake them all.  The second male and the
second female find the first ones complete and sleep again; the first matchmaker leaves
without a signal, and the second finds nobody complete. -/
theorem matchmaker_strands_three :
    ∃ st, exec (step program) (init Whale.create)
        [.call (.whale .male) 0, .move 0, .move 0, .call (.whale .male) 0, .move 1, .move 1,
          .call (.whale .female) 0, .move 2, .move 2, .call (.whale .female) 0, .move 3, .move 3,
          .call .matchmaker 0, .move 4, .move 4, .move 4, .move 4,
          .call .matchmaker 0, .move 5, .move 5, .move 5, .move 5,
          .move 0, .move 0, .move 0, .move 0, .move 0, .move 2, .move 2, .move 2, .move 2, .move 2,
          .move 1, .move 1, .move 3, .move 3, .move 4, .move 4, .move 5, .move 5] = some st ∧
      Quiescent st ∧ st.count (Point.isWhale .male) = 2 ∧ st.count (Point.isWhale .female) = 2 ∧
      st.count Point.isMatchmaker = 2 ∧ st.returned Point.isMatchmaker = 1 ∧
      Blocked st (Point.isWhale .male) ∧ Blocked st (Point.isWhale .female) ∧
      Blocked st Point.isMatchmaker := by
  refine ⟨_, rfl, by decide, rfl, rfl, rfl, rfl, ?_, ?_, ?_⟩
  · exact ⟨1, _, rfl, rfl, rfl⟩
  · exact ⟨3, _, rfl, rfl, rfl⟩
  · exact ⟨5, _, rfl, rfl, rfl⟩

end Completeness

end Nachos.Threads.Whales
