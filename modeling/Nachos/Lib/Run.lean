/-
# Nachos.Lib.Run -- runs of a labelled, partial transition function

A system is a function `step : σ → ε → Option σ`: the label resolves every choice
(who moves, what it asks for), and `none` means the label is not enabled.  `exec`
folds a list of labels; `AllStates` and `AllSteps` speak about every state a run
passes through and every step it takes.

The two rules the developments use are `exec_invariant` (a property every enabled
step keeps holds at the end of every run) and `allStates_of_invariant` (it holds
all along), both relative to a side condition on the steps of the run.
-/
import Mathlib.Logic.Basic
import Mathlib.Data.List.Induction
import Mathlib.Data.Option.Basic
import Mathlib.Tactic.Common

namespace Nachos.Lib.Run

set_option autoImplicit false

universe u v

variable {σ : Type u} {ε : Type v}

/-- The state a list of labels leads to, if every one of them is enabled in turn. -/
def exec (step : σ → ε → Option σ) : σ → List ε → Option σ
  | s, [] => some s
  | s, e :: es => (step s e).bind fun s' => exec step s' es

/-- `C` holds of every step the run takes, at the state before the step. -/
def AllSteps (step : σ → ε → Option σ) (C : σ → ε → Prop) : σ → List ε → Prop
  | _, [] => True
  | s, e :: es => C s e ∧ ∀ s', step s e = some s' → AllSteps step C s' es

instance decidableAllSteps (step : σ → ε → Option σ) (C : σ → ε → Prop)
    [∀ s e, Decidable (C s e)] : ∀ s es, Decidable (AllSteps step C s es)
  | _, [] => isTrue trivial
  | s, e :: es =>
      have : Decidable (∀ s', step s e = some s' → AllSteps step C s' es) :=
        match moved : step s e with
        | none => isTrue (by simp)
        | some s' =>
            have := decidableAllSteps step C s' es
            decidable_of_iff (AllSteps step C s' es) (by simp)
      inferInstanceAs (Decidable (C s e ∧ ∀ s', step s e = some s' → AllSteps step C s' es))

/-- `P` holds in every state the run passes through, its ends included. -/
def AllStates (step : σ → ε → Option σ) (P : σ → Prop) : σ → List ε → Prop
  | s, [] => P s
  | s, e :: es => P s ∧ ∀ s', step s e = some s' → AllStates step P s' es

/-- `C` holds of some step the run takes, at the state before the step. -/
def SomeStep (step : σ → ε → Option σ) (C : σ → ε → Prop) : σ → List ε → Prop
  | _, [] => False
  | s, e :: es => C s e ∨ ∃ s', step s e = some s' ∧ SomeStep step C s' es

section Rules

variable {step : σ → ε → Option σ}

@[simp] theorem exec_nil (s : σ) : exec step s [] = some s := rfl

theorem exec_cons (s : σ) (e : ε) (es : List ε) :
    exec step s (e :: es) = (step s e).bind fun s' => exec step s' es := rfl

theorem exec_cons_eq_some {s t : σ} {e : ε} {es : List ε} :
    exec step s (e :: es) = some t ↔ ∃ s', step s e = some s' ∧ exec step s' es = some t := by
  rw [exec_cons, Option.bind_eq_some_iff]

theorem exec_append {s : σ} {es fs : List ε} :
    exec step s (es ++ fs) = (exec step s es).bind fun t => exec step t fs := by
  induction es generalizing s with
  | nil => rfl
  | cons e es ih =>
      rw [List.cons_append, exec_cons, exec_cons]
      cases step s e with
      | none => rfl
      | some s' => exact ih

theorem exec_append_eq_some {s t : σ} {es fs : List ε} :
    exec step s (es ++ fs) = some t ↔
      ∃ m, exec step s es = some m ∧ exec step m fs = some t := by
  rw [exec_append, Option.bind_eq_some_iff]

/-- **The invariant rule.**  What every step meeting the side condition keeps
holds at the end of every run whose steps all meet it. -/
theorem exec_invariant {C : σ → ε → Prop} {I : σ → Prop}
    (keep : ∀ s e s', I s → C s e → step s e = some s' → I s')
    {s t : σ} {es : List ε} (start : I s) (steps : AllSteps step C s es)
    (run : exec step s es = some t) : I t := by
  induction es generalizing s with
  | nil => cases run; exact start
  | cons e es ih =>
      obtain ⟨s', moved, rest⟩ := exec_cons_eq_some.mp run
      exact ih (keep s e s' start steps.1 moved) (steps.2 s' moved) rest

theorem AllSteps.cons {C : σ → ε → Prop} {s s' : σ} {e : ε} {es : List ε} (here : C s e)
    (moved : step s e = some s') (rest : AllSteps step C s' es) : AllSteps step C s (e :: es) := by
  refine ⟨here, fun t moved' => ?_⟩
  obtain rfl : s' = t := Option.some.inj (moved.symm.trans moved')
  exact rest

/-- The steps of a run are those of its parts. -/
theorem AllSteps.append {C : σ → ε → Prop} {s t : σ} {es fs : List ε}
    (all : AllSteps step C s (es ++ fs)) (run : exec step s es = some t) :
    AllSteps step C s es ∧ AllSteps step C t fs := by
  induction es generalizing s with
  | nil =>
      cases run
      exact ⟨trivial, all⟩
  | cons e es ih =>
      obtain ⟨s', moved, rest⟩ := exec_cons_eq_some.mp run
      have later := ih (all.2 s' moved) rest
      exact ⟨AllSteps.cons all.1 moved later.1, later.2⟩

theorem allSteps_true (s : σ) (es : List ε) : AllSteps step (fun _ _ => True) s es := by
  induction es generalizing s with
  | nil => trivial
  | cons e es ih => exact ⟨trivial, fun s' _ => ih s'⟩

/-- The invariant rule without a side condition. -/
theorem exec_invariant' {I : σ → Prop}
    (keep : ∀ s e s', I s → step s e = some s' → I s')
    {s t : σ} {es : List ε} (start : I s) (run : exec step s es = some t) : I t :=
  exec_invariant (fun s e s' inv _ moved => keep s e s' inv moved) start (allSteps_true s es) run

theorem allStates_of_invariant {C : σ → ε → Prop} {I : σ → Prop}
    (keep : ∀ s e s', I s → C s e → step s e = some s' → I s')
    {s : σ} {es : List ε} (start : I s) (steps : AllSteps step C s es) :
    AllStates step I s es := by
  induction es generalizing s with
  | nil => exact start
  | cons e es ih =>
      exact ⟨start, fun s' moved => ih (keep s e s' start steps.1 moved) (steps.2 s' moved)⟩

/-- What follows from the invariant and the side condition holds of every step. -/
theorem allSteps_of_invariant {C D : σ → ε → Prop} {I : σ → Prop}
    (keep : ∀ s e s', I s → C s e → step s e = some s' → I s') (good : ∀ s e, I s → C s e → D s e)
    {s : σ} {es : List ε} (start : I s) (steps : AllSteps step C s es) : AllSteps step D s es := by
  induction es generalizing s with
  | nil => trivial
  | cons e es ih =>
      exact ⟨good s e start steps.1, fun s' moved => ih (keep s e s' start steps.1 moved)
        (steps.2 s' moved)⟩

/-- A step of a run is one of the steps of its first part, or the one after it. -/
theorem someStep_concat {C : σ → ε → Prop} {s t : σ} {es : List ε} {e : ε}
    (run : exec step s es = some t) :
    SomeStep step C s (es ++ [e]) ↔ SomeStep step C s es ∨ C t e := by
  induction es generalizing s with
  | nil =>
      cases run
      simp [SomeStep]
  | cons f es ih =>
      obtain ⟨s', moved, rest⟩ := exec_cons_eq_some.mp run
      simp [SomeStep, moved, ih rest, or_assoc]

/-- **The invariant rule with a history.**  What every step keeps, together with the steps
that led to it, holds at the end of every run. -/
theorem exec_history {I : List ε → σ → Prop} {s t : σ} {es : List ε}
    (start : I [] s)
    (keep : ∀ es e t t', exec step s es = some t → I es t → step t e = some t' → I (es ++ [e]) t')
    (run : exec step s es = some t) : I es t := by
  induction es using List.reverseRecOn generalizing t with
  | nil =>
      cases run
      exact start
  | append_singleton es e ih =>
      obtain ⟨m, before, last⟩ := exec_append_eq_some.mp run
      obtain ⟨t', moved, rfl⟩ : ∃ t', step m e = some t' ∧ t' = t := by
        simpa [exec_cons] using last
      exact keep es e m t' before (ih before) moved

theorem AllStates.mono {P Q : σ → Prop} (weaken : ∀ s, P s → Q s) {s : σ} {es : List ε}
    (all : AllStates step P s es) : AllStates step Q s es := by
  induction es generalizing s with
  | nil => exact weaken s all
  | cons e es ih => exact ⟨weaken s all.1, fun s' moved => ih (all.2 s' moved)⟩

theorem AllStates.first {P : σ → Prop} {s : σ} {es : List ε} (all : AllStates step P s es) :
    P s := by
  cases es with
  | nil => exact all
  | cons e es => exact all.1

theorem AllStates.last {P : σ → Prop} {s t : σ} {es : List ε} (all : AllStates step P s es)
    (run : exec step s es = some t) : P t := by
  induction es generalizing s with
  | nil => cases run; exact all
  | cons e es ih =>
      obtain ⟨s', moved, rest⟩ := exec_cons_eq_some.mp run
      exact ih (all.2 s' moved) rest

end Rules

end Nachos.Lib.Run
