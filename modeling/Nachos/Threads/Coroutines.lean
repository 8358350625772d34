/-
# Nachos.Threads.Coroutines -- threads as coroutines, over the assembler's context switch

The scheduler's model takes for granted that a thread goes on after its call of `SWITCH` as
if the call had returned.  This module proves it of the machine code, for whole runs: the C++
code of the running thread does anything that leaves the switched-out threads' objects and
stacks alone, threads are forked by `StackAllocate` and deleted, and `SWITCH` is its 27
instructions.

* `Conf.parked` remembers for each thread that is switched out the machine as it entered
  `SWITCH`.  That is the abstract coroutine; `Inv` says that the memory still holds it.
* `SWITCH_returns`: between a thread's call of `SWITCH` and the switch back to it nothing of
  what the thread can see has changed.
* `ThreadRoot_calls`: a forked thread calls `InterruptEnable`, its function with its argument
  and `ThreadFinish`, in this order and in one stack frame of its own array.
-/
import Nachos.Lib.Run
import Nachos.Threads.Switch

namespace Nachos.Threads.Switch

open Nachos.Lib.I386
open Nachos.Lib.Run

set_option autoImplicit false

/-! ## Thread::StackAllocate -/

/-- In words. -/
def StackSize : Nat := 4 * 1024

def STACK_FENCEPOST : Word := 0xdeadbeef

/-- The offset of `machineState[i]` in the `Thread` object. -/
def machineState (i : Word) : Word := 4 + 4 * i

def PCState : Word := PC / 4 - 1
def InitialPCState : Word := ESI / 4 - 1
def InitialArgState : Word := EDX / 4 - 1
def WhenDonePCState : Word := EDI / 4 - 1
def StartupPCState : Word := ECX / 4 - 1

/-- The offset of the member `stack`: after `machineState` come `joining`, `key`, `joinSignal`
and `mayDie`. -/
def stackMember : Word := 92

/-- The word `i` of an `int` array. -/
def word (array : Word) (i : Nat) : Word := array + 4 * BitVec.ofNat 32 i

/-- The stores of `StackAllocate` to `machineState`. -/
def initialState (k : Kernel) (func arg : Word) : List (Word × Word) :=
  [(machineState PCState, k.ThreadRoot), (machineState StartupPCState, k.InterruptEnable),
   (machineState InitialPCState, func), (machineState InitialArgState, arg),
   (machineState WhenDonePCState, k.ThreadFinish)]

/-- `StackAllocate` up to the fencepost: `stack`, `stackTop` twice, and the return address. -/
def allocated (k : Kernel) (this stack : Word) (m : Memory) : Memory :=
  let m := storeWord m (this + stackMember) stack
  let m := storeWord m (this + ESP) (word stack (StackSize - 4))
  let m := storeWord m (this + ESP) (word stack (StackSize - 5))
  let m := storeWord m (word stack (StackSize - 5)) k.ThreadRoot
  storeWord m stack STACK_FENCEPOST

/-- `Thread::StackAllocate(func, arg)` on the thread at `this`, where `AllocBoundedArray` gave
the array at `stack`. -/
def StackAllocate (k : Kernel) (this stack func arg : Word) (m : Memory) : Memory :=
  storeFields (allocated k this stack m) this (initialState k func arg)

/-- The bytes of an execution stack that `StackAllocate` allocates. -/
def array (stack : Word) : Set Word := {x | x - stack < 4 * BitVec.ofNat 32 StackSize}

theorem word_inside (stack : Word) {i : Nat} (inside : i < StackSize) :
    wordAt (word stack i) ⊆ array stack := by
  intro x member
  have small : i < 4096 := inside
  rw [mem_wordAt, word] at member
  show x - stack < 4 * BitVec.ofNat 32 4096
  bv_omega

theorem wordAt_subset_object (obj : Word) {o : Word} (small : o ≤ 92) :
    wordAt (obj + o) ⊆ object obj := by
  intro x member
  rw [mem_wordAt] at member
  show x - obj < 96
  bv_omega

theorem zero_inside (stack : Word) : wordAt stack ⊆ array stack := by
  have first := word_inside stack (i := 0) (by decide)
  simpa [word] using first

section Allocate

variable {k : Kernel} {this stack func arg : Word} {m : Memory}

theorem initialState_le {field : Word × Word} (member : field ∈ initialState k func arg) :
    field.1 ≤ 92 := by
  simp only [initialState, List.mem_cons, List.not_mem_nil, or_false] at member
  rcases member with rfl | rfl | rfl | rfl | rfl <;> simp only <;> decide

theorem initialState_apart :
    (initialState k func arg).Pairwise fun f g => 4 ≤ f.1 - g.1 ∧ 4 ≤ g.1 - f.1 := by
  have apart : [PC, ECX, ESI, EDX, EDI].Pairwise fun o p => 4 ≤ o - p ∧ 4 ≤ p - o := by decide
  have offsets : (initialState k func arg).map Prod.fst = [PC, ECX, ESI, EDX, EDI] := by
    simp only [initialState, List.map_cons, List.map_nil]
    decide
  rw [← offsets, List.pairwise_map] at apart
  exact apart

theorem allocated_agree {S : Set Word} (obj : Disjoint (object this) S)
    (own : Disjoint (array stack) S) : AgreeOn S (allocated k this stack m) m := by
  have member : Disjoint (wordAt (this + stackMember)) S :=
    obj.mono_left (wordAt_subset_object this (by decide))
  have stackTop : Disjoint (wordAt (this + ESP)) S :=
    obj.mono_left (wordAt_subset_object this (by decide))
  have root : Disjoint (wordAt (word stack (StackSize - 5))) S :=
    own.mono_left (word_inside stack (by decide))
  have fence : Disjoint (wordAt stack) S := own.mono_left (zero_inside stack)
  simp only [allocated]
  exact (AgreeOn.storeWord fence).trans ((AgreeOn.storeWord root).trans
    ((AgreeOn.storeWord stackTop).trans ((AgreeOn.storeWord stackTop).trans
      (AgreeOn.storeWord member))))

/-- `StackAllocate` writes nothing but the object and the array. -/
theorem StackAllocate_agree {S : Set Word} (obj : Disjoint (object this) S)
    (own : Disjoint (array stack) S) : AgreeOn S (StackAllocate k this stack func arg m) m := by
  have fields : AgreeOn S (StackAllocate k this stack func arg m) (allocated k this stack m) :=
    AgreeOn.storeFields fun field member =>
      obj.mono_left (wordAt_subset_object this (initialState_le member))
  exact fields.trans (allocated_agree obj own)

theorem StackAllocate_field {o v : Word} (member : (o, v) ∈ initialState k func arg) :
    loadWord (StackAllocate k this stack func arg m) (this + o) = v := by
  have stored : loadWord (StackAllocate k this stack func arg m) (this + (o, v).1) = (o, v).2 := by
    rw [StackAllocate]
    exact loadWord_storeFields member initialState_apart
  exact stored

/-- What `ThreadRoot` and `SWITCH` find in `machineState`. -/
theorem mem_initialState :
    (PC, k.ThreadRoot) ∈ initialState k func arg ∧
    (offset StartupPC, k.InterruptEnable) ∈ initialState k func arg ∧
    (offset InitialPC, func) ∈ initialState k func arg ∧
    (offset InitialArg, arg) ∈ initialState k func arg ∧
    (offset WhenDonePC, k.ThreadFinish) ∈ initialState k func arg := by
  have fields : initialState k func arg =
      [(PC, k.ThreadRoot), (offset StartupPC, k.InterruptEnable), (offset InitialPC, func),
        (offset InitialArg, arg), (offset WhenDonePC, k.ThreadFinish)] := by
    simp only [initialState, List.cons.injEq, Prod.mk.injEq, and_true]
    decide
  simp [fields]

/-- The stores to `machineState` are not to `stackTop`, nor to the array. -/
theorem initialState_disjoint_ESP {field : Word × Word} (member : field ∈ initialState k func arg) :
    Disjoint (wordAt (this + field.1)) (wordAt (this + ESP)) := by
  have apart : ∀ o ∈ [PC, ECX, ESI, EDX, EDI], 4 ≤ o - ESP ∧ 4 ≤ ESP - o := by
    simp only [List.forall_mem_cons, List.not_mem_nil, false_imp_iff, implies_true]
    decide
  have offsets : (initialState k func arg).map Prod.fst = [PC, ECX, ESI, EDX, EDI] := by
    simp only [initialState, List.map_cons, List.map_nil]
    decide
  have inList : field.1 ∈ [PC, ECX, ESI, EDX, EDI] := by
    rw [← offsets]
    exact List.mem_map_of_mem member
  exact disjoint_fields this (apart _ inList).1 (apart _ inList).2

variable (apart : Disjoint (object this) (array stack))

include apart in
theorem StackAllocate_stackTop :
    loadWord (StackAllocate k this stack func arg m) (this + ESP) = word stack (StackSize - 5) := by
  have inObj : wordAt (this + ESP) ⊆ object this := wordAt_subset_object this (by decide)
  have top := word_inside stack (i := StackSize - 5) (by decide)
  have kept : AgreeOn (wordAt (this + ESP)) (StackAllocate k this stack func arg m)
      (allocated k this stack m) :=
    AgreeOn.storeFields fun field member => initialState_disjoint_ESP member
  rw [kept.loadWord (Set.Subset.refl _), allocated,
    loadWord_storeWord_of_disjoint _ _ ((apart.mono_left inObj).symm.mono_left (zero_inside stack)),
    loadWord_storeWord_of_disjoint _ _ ((apart.mono_left inObj).symm.mono_left top),
    loadWord_storeWord]

include apart in
/-- The word `SWITCH` will return to. -/
theorem StackAllocate_root :
    loadWord (StackAllocate k this stack func arg m) (word stack (StackSize - 5)) =
      k.ThreadRoot := by
  have top := word_inside stack (i := StackSize - 5) (by decide)
  have kept : AgreeOn (wordAt (word stack (StackSize - 5))) (StackAllocate k this stack func arg m)
      (allocated k this stack m) :=
    AgreeOn.storeFields fun field member =>
      (apart.mono_left (wordAt_subset_object this (initialState_le member))).mono_right top
  have fence : Disjoint (wordAt stack) (wordAt (word stack (StackSize - 5))) := by
    have words := disjoint_fields stack (i := 0#32) (j := 4 * BitVec.ofNat 32 (StackSize - 5))
      (by decide) (by decide)
    simpa [word] using words
  rw [kept.loadWord (Set.Subset.refl _), allocated, loadWord_storeWord_of_disjoint _ _ fence,
    loadWord_storeWord]

end Allocate

/-! ## The system -/

/-- The machine, the thread that runs, and for a thread that is switched out the machine as it
was at its call of `SWITCH`. -/
structure Conf (T : Type) where
  machine : State
  running : T
  parked : T → Option State

inductive Event (T : Type) where
  /-- C++ code ran, up to this state of the machine. -/
  | burst (s : State)
  /-- `StackAllocate` on a new thread, with the array it got. -/
  | fork (t : T) (stack func arg : Word)
  | delete (t : T)
  /-- `SWITCH` to `t`. -/
  | switch (t : T)

section System

set_option linter.unusedSectionVars false

variable {k : Kernel} {T : Type} [DecidableEq T] (place : T → Thread k)

/-- The state a thread starts in, as its call of `SWITCH`. -/
def created (obj : Word) (m : Memory) : State where
  regs r := loadWord m (obj + offset r)
  pc := k.SWITCH
  mem := m

def sysStep (c : Conf T) : Event T → Option (Conf T)
  | .burst s => some { c with machine := s }
  | .fork t stack func arg =>
      let m := StackAllocate k (place t).obj stack func arg c.machine.mem
      some
        { c with
          machine := { c.machine with mem := m }
          parked := Function.update c.parked t (some (created (k := k) (place t).obj m)) }
  | .delete t => some { c with parked := Function.update c.parked t none }
  | .switch u =>
      (steps k.text 27 c.machine).map fun s =>
        { machine := s
          running := u
          parked :=
            Function.update (Function.update c.parked c.running (some c.machine)) u none }

/-- A thread that runs or is switched out. -/
def Live (c : Conf T) (t : T) : Prop := t = c.running ∨ c.parked t ≠ none

/-- What the kernel sees to: code of the running thread keeps away from the other threads'
saved registers and stacks, a new thread gets memory of its own, and `SWITCH` is called with
the running thread and one that is switched out. -/
def Admissible (c : Conf T) : Event T → Prop
  | .burst s => ∀ t, c.parked t ≠ none → AgreeOn (place t).kept s.mem c.machine.mem
  | .fork t stack _ _ =>
      ¬ Live c t ∧ (∀ u, Live c u → Disjoint (place t).memory (place u).memory) ∧
        (place t).stack = array stack ∧ stack.toNat + 4 * StackSize ≤ 2 ^ 32
  | .delete t => c.parked t ≠ none
  | .switch u => c.parked u ≠ none ∧ Calls (place c.running) (place u) c.machine

/-- Every thread that is switched out is as it was, and no two threads share memory. -/
structure Inv (c : Conf T) : Prop where
  running : c.parked c.running = none
  parked : ∀ t f, c.parked t = some f → Parked (place t) f c.machine.mem
  apart : ∀ t u, Live c t → Live c u → t ≠ u → Disjoint (place t).memory (place u).memory

variable {place}

theorem Live.of_parked {c : Conf T} {t : T} {f : State} (parked : c.parked t = some f) :
    Live c t := Or.inr (by simp [parked])

theorem created_esp {t : Thread k} {stack func arg : Word} {m : Memory}
    (own : t.stack = array stack) :
    (created (k := k) t.obj (StackAllocate k t.obj stack func arg m)).regs .esp =
      word stack (StackSize - 5) :=
  StackAllocate_stackTop (own ▸ t.obj_stack)

/-- A thread that `StackAllocate` set up is parked at its first instruction. -/
theorem parked_created (t : Thread k) {stack func arg : Word} (m : Memory)
    (own : t.stack = array stack) :
    Parked t (created (k := k) t.obj (StackAllocate k t.obj stack func arg m))
      (StackAllocate k t.obj stack func arg m) where
  saved r := rfl
  pc := by
    rw [created_esp own, StackAllocate_field mem_initialState.1]
    exact (StackAllocate_root (own ▸ t.obj_stack)).symm
  ret := by
    rw [created_esp own, own]
    exact word_inside stack (by decide)
  slot := by
    have next : word stack (StackSize - 5) + 4 = word stack (StackSize - 4) := by
      rw [word, word, BitVec.add_assoc]
      rfl
    rw [created_esp own, own, next]
    exact word_inside stack (by decide)
  stack := AgreeOn.refl _ _

/-- What an admissible switch does, with the frame `f` the new thread was parked in. -/
theorem switch_cases {c c' : Conf T} {u : T} (inv : Inv place c)
    (admitted : Admissible place c (.switch u)) (moved : sysStep place c (.switch u) = some c') :
    ∃ f, c.parked u = some f ∧ u ≠ c.running ∧ c'.running = u ∧
      c'.parked = Function.update (Function.update c.parked c.running (some c.machine)) u none ∧
      Parked (place c.running) c.machine c'.machine.mem ∧ Resumed (place u) f c'.machine ∧
      ∀ v, Live c v → v ≠ c.running → v ≠ u →
        AgreeOn (place v).kept c'.machine.mem c.machine.mem := by
  obtain ⟨waiting, calls⟩ := admitted
  obtain ⟨f, parked⟩ := Option.ne_none_iff_exists'.mp waiting
  have other : u ≠ c.running := by
    rintro rfl
    rw [inv.running] at parked
    cases parked
  have apart := inv.apart _ _ (Or.inl rfl) (Live.of_parked parked) other.symm
  obtain ⟨s, ran, out, back, frame⟩ := switch_spec calls apart (inv.parked u f parked)
  simp only [sysStep, ran, Option.map_some, Option.some.injEq] at moved
  subst moved
  refine ⟨f, parked, other, rfl, rfl, out, back, fun v live notRunning notU => ?_⟩
  exact frame (place v) (inv.apart _ _ live (Or.inl rfl) notRunning)
    (inv.apart _ _ live (Live.of_parked parked) notU)

theorem inv_switch {c c' : Conf T} {u : T} (inv : Inv place c)
    (admitted : Admissible place c (.switch u)) (moved : sysStep place c (.switch u) = some c') :
    Inv place c' := by
  obtain ⟨f, parked, other, runs, parks, out, -, frame⟩ := switch_cases inv admitted moved
  have old {v : T} (live : Live c' v) : Live c v := by
    rcases live with rfl | waits
    · exact runs ▸ Live.of_parked parked
    · rw [parks] at waits
      by_cases running : v = c.running
      · exact Or.inl running
      · refine Or.inr fun gone => waits ?_
        by_cases isU : v = u <;> simp [isU, Function.update_of_ne running, gone]
  refine ⟨?_, fun v g saved => ?_, fun t v live live' differ =>
    inv.apart t v (old live) (old live') differ⟩
  · rw [runs, parks, Function.update_self]
  · rw [parks] at saved
    have notU : v ≠ u := by
      rintro rfl
      simp at saved
    rw [Function.update_of_ne notU] at saved
    by_cases running : v = c.running
    · subst running
      rw [Function.update_self] at saved
      cases saved
      exact out
    · rw [Function.update_of_ne running] at saved
      exact (inv.parked v g saved).congr (frame v (Live.of_parked saved) running notU)

theorem inv_fork {c : Conf T} {t : T} {stack func arg : Word} (inv : Inv place c)
    (admitted : Admissible place c (.fork t stack func arg)) :
    ∃ c', sysStep place c (.fork t stack func arg) = some c' ∧ Inv place c' := by
  obtain ⟨unborn, fresh, own, -⟩ := admitted
  refine ⟨_, rfl, ?_⟩
  have notRunning : c.running ≠ t := fun same => unborn (Or.inl same.symm)
  refine ⟨?_, fun u f parked => ?_, ?_⟩
  · simpa [Function.update_of_ne notRunning] using inv.running
  · by_cases new : u = t
    · subst new
      simp only [Function.update_self, Option.some.injEq] at parked
      subst parked
      exact parked_created (place u) c.machine.mem own
    · simp only [Function.update_of_ne new] at parked
      have apart := fresh u (Live.of_parked parked)
      refine (inv.parked u f parked).congr (StackAllocate_agree ?_ ?_)
      · exact (apart.mono_left Set.subset_union_left).mono_right (place u).kept_subset
      · rw [← own]
        exact (apart.mono_left Set.subset_union_right).mono_right (place u).kept_subset
  · have old {u : T} (live : u = c.running ∨ Function.update c.parked t (some (created (k := k)
        (place t).obj (StackAllocate k (place t).obj stack func arg c.machine.mem))) u ≠ none)
        (notNew : u ≠ t) : Live c u := by
      rwa [Function.update_of_ne notNew] at live
    intro u v live live' differ
    by_cases uNew : u = t
    · subst uNew
      exact fresh v (old live' differ.symm)
    · by_cases vNew : v = t
      · subst vNew
        exact (fresh u (old live uNew)).symm
      · exact inv.apart u v (old live uNew) (old live' vNew) differ

/-- **The invariant of the system.** -/
theorem inv_step (c : Conf T) (e : Event T) (c' : Conf T) (inv : Inv place c)
    (admitted : Admissible place c e) (moved : sysStep place c e = some c') : Inv place c' := by
  cases e with
  | burst s =>
      cases moved
      exact ⟨inv.running, fun t f parked => (inv.parked t f parked).congr
        (admitted t (Option.ne_none_iff_exists'.mpr ⟨f, parked⟩)), inv.apart⟩
  | fork t stack func arg =>
      obtain ⟨c₁, made, kept⟩ := inv_fork inv admitted
      cases moved.symm.trans made
      exact kept
  | delete t =>
      cases moved
      have old {u : T} {f : State} (parked : Function.update c.parked t none u = some f) :
          c.parked u = some f := by
        by_cases gone : u = t
        · subst gone
          simp at parked
        · rwa [Function.update_of_ne gone] at parked
      have live {u : T} (now : u = c.running ∨ Function.update c.parked t none u ≠ none) :
          Live c u := by
        refine now.imp_right fun waits => ?_
        obtain ⟨f, parked⟩ := Option.ne_none_iff_exists'.mp waits
        simp [old parked]
      refine ⟨?_, fun u f parked => inv.parked u f (old parked), fun u v liveU liveV differ =>
        inv.apart u v (live liveU) (live liveV) differ⟩
      by_cases gone : c.running = t
      · simp [gone]
      · simpa [Function.update_of_ne gone] using inv.running
  | switch u => exact inv_switch inv admitted moved

/-- Before the first `Fork` only the main thread is there. -/
theorem inv_boot {c : Conf T} (boot : ∀ t, c.parked t = none) : Inv place c where
  running := boot _
  parked t f parked := by simp [boot t] at parked
  apart t u live live' differ := by
    obtain rfl : t = c.running := live.resolve_right (by simp [boot t])
    exact absurd (live'.resolve_right (by simp [boot u])).symm differ

/-- A thread that is switched out stays parked in its frame until it is switched to or
deleted. -/
theorem parked_step {c c' : Conf T} {e : Event T} {t : T} {f : State} (inv : Inv place c)
    (admitted : Admissible place c e) (moved : sysStep place c e = some c')
    (parked : c.parked t = some f) (away : e ≠ .switch t ∧ e ≠ .delete t) :
    c'.parked t = some f := by
  cases e with
  | burst s =>
      cases moved
      exact parked
  | fork u stack func arg =>
      have differ : t ≠ u := fun same => admitted.1 (same ▸ Live.of_parked parked)
      cases moved
      simpa [Function.update_of_ne differ] using parked
  | delete u =>
      have differ : t ≠ u := fun same => away.2 (by rw [same])
      cases moved
      simpa [Function.update_of_ne differ] using parked
  | switch u =>
      have notU : t ≠ u := fun same => away.1 (by rw [same])
      have notRunning : t ≠ c.running := by
        rintro rfl
        rw [inv.running] at parked
        cases parked
      obtain ⟨-, -, -, -, parks, -⟩ := switch_cases inv admitted moved
      rw [parks, Function.update_of_ne notU, Function.update_of_ne notRunning]
      exact parked

theorem parked_exec {c c' : Conf T} {es : List (Event T)} {t : T} {f : State} (inv : Inv place c)
    (admitted : AllSteps (sysStep place) (Admissible place) c es)
    (run : exec (sysStep place) c es = some c') (parked : c.parked t = some f)
    (away : ∀ e ∈ es, e ≠ .switch t ∧ e ≠ .delete t) : c'.parked t = some f := by
  induction es generalizing c with
  | nil =>
      cases run
      exact parked
  | cons e es ih =>
      obtain ⟨m, moved, rest⟩ := exec_cons_eq_some.mp run
      exact ih (inv_step c e m inv admitted.1 moved) (admitted.2 m moved) rest
        (parked_step inv admitted.1 moved parked (away e List.mem_cons_self))
        fun e' member => away e' (List.mem_cons_of_mem _ member)

/-- **A call of `SWITCH` returns.**  A thread calls `SWITCH`, any number of threads are forked,
run, switch and are deleted, and a thread switches back to it: the machine goes on after the
call with the registers of the call, and the thread's stack is as it was, but for the word of
the first argument. -/
theorem SWITCH_returns {c₀ c₁ c₂ c₃ c₄ : Conf T} {es fs : List (Event T)} {u : T}
    (boot : ∀ t, c₀.parked t = none)
    (before : exec (sysStep place) c₀ es = some c₁)
    (call : sysStep place c₁ (.switch u) = some c₂)
    (between : exec (sysStep place) c₂ fs = some c₃)
    (back : sysStep place c₃ (.switch c₁.running) = some c₄)
    (admitted : AllSteps (sysStep place) (Admissible place) c₀
      (es ++ .switch u :: (fs ++ [.switch c₁.running])))
    (away : ∀ e ∈ fs, e ≠ .switch c₁.running ∧ e ≠ .delete c₁.running) :
    Resumed (place c₁.running) c₁.machine c₄.machine := by
  obtain ⟨admitted₁, rest⟩ := admitted.append before
  have inv₁ : Inv place c₁ := exec_invariant inv_step (inv_boot boot) admitted₁ before
  have inv₂ := inv_step c₁ _ c₂ inv₁ rest.1 call
  obtain ⟨admitted₂, last⟩ := (rest.2 c₂ call).append between
  have inv₃ : Inv place c₃ := exec_invariant inv_step inv₂ admitted₂ between
  obtain ⟨g, -, differ, -, parks, -⟩ := switch_cases inv₁ rest.1 call
  have parked₂ : c₂.parked c₁.running = some c₁.machine := by
    rw [parks, Function.update_of_ne differ.symm, Function.update_self]
  have parked₃ := parked_exec inv₂ admitted₂ between parked₂ away
  obtain ⟨f, parked, -, -, -, -, resumed, -⟩ := switch_cases inv₃ last.1 back
  obtain rfl : c₁.machine = f := Option.some.inj (parked₃.symm.trans parked)
  exact resumed

/-! ## ThreadRoot -/

/-- A run of one thread's machine, with the states in which it enters the functions written in
C++: `callee s s'` if the function entered in `s` comes back in `s'`.  A function that was
entered last may still be running. -/
inductive Trace (text : Text) (callee : State → State → Prop) : State → List State → Prop where
  | stop (s : State) : Trace text callee s []
  | instr {s s' : State} {l : List State} (moved : step text s = some s')
      (rest : Trace text callee s' l) : Trace text callee s l
  | enter {s : State} (external : text s.pc = none) : Trace text callee s [s]
  | back {s s' : State} {l : List State} (external : text s.pc = none) (returns : callee s s')
      (rest : Trace text callee s' l) : Trace text callee s (s :: l)

/-- The calling convention, for the functions `ThreadRoot` calls with the given stack.
`InterruptEnable()` takes no argument, so that all above its return address belongs to its
caller, and `ThreadFinish()` does not come back. -/
structure Cdecl (k : Kernel) (callee : State → State → Prop) (stack : Set Word) : Prop where
  back : ∀ {s s'}, callee s s' → s'.pc = loadWord s.mem (s.regs .esp)
  esp : ∀ {s s'}, callee s s' → s'.regs .esp = s.regs .esp + 4
  saved : ∀ {s s'}, callee s s' → ∀ r ∈ [Reg.ebx, .ebp, .esi, .edi], s'.regs r = s.regs r
  enable : ∀ {s s'}, callee s s' → s.pc = k.InterruptEnable →
    ∀ x ∈ stack, s.regs .esp + 4 ≤ x → s'.mem x = s.mem x
  finish : ∀ {s s'}, callee s s' → s.pc ≠ k.ThreadFinish

section Trace

variable {text : Text} {callee : State → State → Prop} {s s' : State} {l : List State}

theorem Trace.of_step (moved : step text s = some s') (trace : Trace text callee s l) :
    l = [] ∨ Trace text callee s' l := by
  cases trace with
  | stop => exact Or.inl rfl
  | instr moved' rest =>
      cases moved.symm.trans moved'
      exact Or.inr rest
  | enter external => simp [step, external] at moved
  | back external _ _ => simp [step, external] at moved

theorem Trace.of_steps {n : Nat} (moved : steps text n s = some s')
    (trace : Trace text callee s l) : l = [] ∨ Trace text callee s' l := by
  induction n generalizing s with
  | zero =>
      cases moved
      exact Or.inr trace
  | succ n ih =>
      rw [steps] at moved
      obtain ⟨m, first, rest⟩ := Option.bind_eq_some_iff.mp moved
      exact (trace.of_step first).elim Or.inl (ih rest)

theorem Trace.of_external (external : text s.pc = none) (trace : Trace text callee s l) :
    l = [] ∨ l = [s] ∨ ∃ s' l', callee s s' ∧ Trace text callee s' l' ∧ l = s :: l' := by
  cases trace with
  | stop => exact Or.inl rfl
  | instr moved _ => simp [step, external] at moved
  | enter _ => exact Or.inr (Or.inl rfl)
  | back _ returns rest => exact Or.inr (Or.inr ⟨_, _, returns, rest, rfl⟩)

/-- `call *r` -/
theorem step_call {r : Reg} {next : Word} (fetched : text s.pc = some (.call r, next)) :
    step text s = some { s.push next with pc := s.regs r } := by
  simp only [step, fetched, Option.map_some, Instr.effect, Instr.target]

end Trace

/-- Inside a call of `ThreadRoot`: the return address is on top of the stack, and the registers
with the later functions are loaded. -/
structure RootFrame (k : Kernel) (e func ret : Word) (s : State) : Prop where
  esp : s.regs .esp = e
  ret : loadWord s.mem e = ret
  func : s.regs InitialPC = func
  finish : s.regs WhenDonePC = k.ThreadFinish

section Root

variable {callee : State → State → Prop} {stack : Set Word} {e func arg : Word} {l : List State}

theorem disjoint_next (e : Word) : Disjoint (wordAt e) (wordAt (e + 4)) := by
  simpa using disjoint_fields e (i := 0#32) (j := 4) (by decide) (by decide)

/-- `ThreadRoot` up to its first call. -/
theorem root_start {s : State} {next₁ next₂ next₃ next₄ : Word}
    (fetch₁ : k.text s.pc = some (.pushl .ebp, next₁))
    (fetch₂ : k.text next₁ = some (.movl (.reg .esp) (.reg .ebp), next₂))
    (fetch₃ : k.text next₂ = some (.pushl InitialArg, next₃))
    (fetch₄ : k.text next₃ = some (.call StartupPC, next₄))
    (esp : s.regs .esp = e + 12) (loaded : s.regs InitialPC = func)
    (finish : s.regs WhenDonePC = k.ThreadFinish) :
    ∃ s', steps k.text 4 s = some s' ∧ RootFrame k e func next₄ s' ∧
      s'.pc = s.regs StartupPC ∧ loadWord s'.mem (e + 4) = s.regs InitialArg := by
  have located : Located k.text s.pc
      [.pushl .ebp, .movl (.reg .esp) (.reg .ebp), .pushl InitialArg] next₃ :=
    ⟨next₁, fetch₁, next₂, fetch₂, next₃, fetch₃, rfl⟩
  -- the old `ebp` at `e + 8`, the argument at `e + 4`
  let pushed : State :=
    { regs := Function.update (Function.update s.regs .ebp (e + 8)) .esp (e + 4)
      pc := next₃
      mem := storeWord (storeWord s.mem (e + 8) (s.regs .ebp)) (e + 4) (s.regs InitialArg) }
  have ran : steps k.text 3 s = some pushed := by
    have eight : e + 12 - 4 = e + 8 := by bv_omega
    have four : e + 8 - 4 = e + 4 := by bv_omega
    rw [show 3 = [Instr.pushl .ebp, .movl (.reg .esp) (.reg .ebp),
      .pushl InitialArg].length from rfl, steps_straight (by decide) located]
    simp only [effects_cons, effects_nil, Instr.effect, State.push, State.read, State.write, esp,
      Function.update_apply, reduceCtorEq, if_true, if_false, InitialArg, eight, four]
    congr 2
    funext r
    cases r <;> rfl
  have top : pushed.regs .esp - 4 = e := by
    show e + 4 - 4 = e
    rw [BitVec.add_sub_cancel]
  have apart : Disjoint (wordAt e) (wordAt (e + 4)) := disjoint_next e
  refine ⟨{ pushed.push next₄ with pc := pushed.regs StartupPC }, ?_, ⟨?_, ?_, ?_, ?_⟩, ?_, ?_⟩
  · rw [show 4 = 3 + 1 from rfl, steps_add, ran, Option.bind_some, steps,
      step_call (s := pushed) fetch₄, Option.bind_some, steps]
  · exact (State.push_esp pushed next₄).trans top
  · show loadWord (storeWord pushed.mem (pushed.regs .esp - 4) next₄) e = next₄
    rw [top, loadWord_storeWord]
  · show (pushed.push next₄).regs .esi = func
    rw [State.push_regs _ _ (by decide)]
    exact loaded
  · show (pushed.push next₄).regs .edi = k.ThreadFinish
    rw [State.push_regs _ _ (by decide)]
    exact finish
  · rfl
  · show loadWord (storeWord pushed.mem (pushed.regs .esp - 4) next₄) (e + 4) = _
    rw [top, loadWord_storeWord_of_disjoint _ _ apart]
    exact loadWord_storeWord _ _ _

/-- `ThreadRoot` from the return of one function to the call of the next. -/
theorem root_next {s s' : State} {ret next : Word} {r : Reg} (abi : Cdecl k callee stack)
    (frame : RootFrame k e func ret s) (returns : callee s s')
    (fetched : k.text ret = some (.call r, next)) (callSaved : r = InitialPC ∨ r = WhenDonePC) :
    ∃ s'', step k.text s' = some s'' ∧ RootFrame k e func next s'' ∧ s''.pc = s.regs r ∧
      loadWord s''.mem (e + 4) = loadWord s'.mem (e + 4) := by
  have pc : s'.pc = ret := by rw [abi.back returns, frame.esp, frame.ret]
  have esp : s'.regs .esp - 4 = e := by
    rw [abi.esp returns, frame.esp, BitVec.add_sub_cancel]
  have kept : s'.regs InitialPC = s.regs InitialPC ∧ s'.regs WhenDonePC = s.regs WhenDonePC :=
    ⟨abi.saved returns _ (by decide), abi.saved returns _ (by decide)⟩
  refine ⟨_, step_call (pc ▸ fetched), ⟨?_, ?_, ?_, ?_⟩, ?_, ?_⟩
  · exact (State.push_esp s' next).trans esp
  · show loadWord (storeWord s'.mem (s'.regs .esp - 4) next) e = next
    rw [esp, loadWord_storeWord]
  · exact (State.push_regs s' next (by decide)).trans (kept.1.trans frame.func)
  · exact (State.push_regs s' next (by decide)).trans (kept.2.trans frame.finish)
  · rcases callSaved with rfl | rfl
    · exact kept.1
    · exact kept.2
  · show loadWord (storeWord s'.mem (s'.regs .esp - 4) next) (e + 4) = _
    rw [esp, loadWord_storeWord_of_disjoint _ _ (disjoint_next e)]

/-- The argument is still on the stack after `InterruptEnable`. -/
theorem root_arg {s s' : State} {stack ret : Word} (abi : Cdecl k callee (array stack))
    (frame : RootFrame k (word stack (StackSize - 7)) func ret s) (returns : callee s s')
    (pc : s.pc = k.InterruptEnable) (fits : stack.toNat + 4 * StackSize ≤ 2 ^ 32) :
    loadWord s'.mem (word stack (StackSize - 7) + 4) =
      loadWord s.mem (word stack (StackSize - 7) + 4) := by
  have fits' : stack.toNat + 16384 ≤ 4294967296 := fits
  refine AgreeOn.loadWord (fun x member => ?_) (Set.Subset.refl _)
  have inside : x - (word stack 4089 + 4) < 4 := member
  refine abi.enable returns pc x ?_ ?_
  · show x - stack < 4 * BitVec.ofNat 32 4096
    rw [word] at inside
    bv_omega
  · rw [frame.esp]
    show word stack 4089 + 4 ≤ x
    rw [word] at inside ⊢
    bv_omega

/-- A thread as it comes out of its first `SWITCH`. -/
structure RootEntry (k : Kernel) (stack func arg : Word) (s : State) : Prop where
  pc : s.pc = k.ThreadRoot
  esp : s.regs .esp = word stack (StackSize - 4)
  startup : s.regs StartupPC = k.InterruptEnable
  initial : s.regs InitialPC = func
  argument : s.regs InitialArg = arg
  done : s.regs WhenDonePC = k.ThreadFinish

theorem word_seven (stack : Word) :
    word stack (StackSize - 4) = word stack (StackSize - 7) + 12 := by
  rw [word, word, BitVec.add_assoc]
  rfl

/-- The calls of such a thread, as far as they come. -/
theorem root_trace {s : State} {stack : Word} (abi : Cdecl k callee (array stack))
    (external : k.text func = none) (fits : stack.toNat + 4 * StackSize ≤ 2 ^ 32)
    (entry : RootEntry k stack func arg s) (trace : Trace k.text callee s l) :
    l.map State.pc <+: [k.InterruptEnable, func, k.ThreadFinish] ∧
      (∀ s ∈ l, s.regs .esp = word stack (StackSize - 7)) ∧
      ∀ s, l[1]? = some s → loadWord s.mem (s.regs .esp + 4) = arg := by
  obtain ⟨_, a₁, f₁, a₂, f₂, a₃, f₃, a₄, f₄, a₅, f₅, a₆, f₆, -⟩ := k.root_located
  rw [← entry.pc] at f₁
  obtain ⟨s₁, ran, frame₁, pc₁, arg₁⟩ :=
    root_start f₁ f₂ f₃ f₄ (entry.esp.trans (word_seven stack)) entry.initial entry.done
  rw [entry.startup] at pc₁
  rw [entry.argument] at arg₁
  have external₁ : k.text s₁.pc = none := pc₁ ▸ k.enable_external
  rcases trace.of_steps ran with rfl | trace₁
  · simp
  rcases trace₁.of_external external₁ with rfl | rfl | ⟨t₁, l₁, back₁, trace₁', rfl⟩
  · simp
  · simp [pc₁, frame₁.esp]
  -- `InterruptEnable` came back
  obtain ⟨s₂, call₂, frame₂, pc₂, arg₂⟩ := root_next abi frame₁ back₁ f₅ (Or.inl rfl)
  rw [frame₁.func] at pc₂
  have argIn : loadWord s₂.mem (s₂.regs .esp + 4) = arg := by
    rw [frame₂.esp, arg₂, root_arg abi frame₁ back₁ pc₁ fits, arg₁]
  rcases trace₁'.of_step call₂ with rfl | trace₂
  · simp [pc₁, frame₁.esp]
  rcases trace₂.of_external (pc₂ ▸ external) with rfl | rfl | ⟨t₂, l₂, back₂, trace₂', rfl⟩
  · simp [pc₁, frame₁.esp]
  · simpa [pc₁, pc₂, frame₁.esp, frame₂.esp] using argIn
  -- and so did the thread's function
  obtain ⟨s₃, call₃, frame₃, pc₃, -⟩ := root_next abi frame₂ back₂ f₆ (Or.inr rfl)
  rw [frame₂.finish] at pc₃
  rcases trace₂'.of_step call₃ with rfl | trace₃
  · simpa [pc₁, pc₂, frame₁.esp, frame₂.esp] using argIn
  rcases trace₃.of_external (pc₃ ▸ k.finish_external) with rfl | rfl | ⟨t₃, l₃, back₃, -, -⟩
  · simpa [pc₁, pc₂, frame₁.esp, frame₂.esp] using argIn
  · simpa [pc₁, pc₂, pc₃, frame₁.esp, frame₂.esp, frame₃.esp] using argIn
  · exact absurd pc₃ (abi.finish back₃)

theorem Trace.after_steps {n : Nat} {s s' : State} (moved : steps k.text n s = some s')
    (trace : Trace k.text callee s' l) : Trace k.text callee s l := by
  induction n generalizing s with
  | zero =>
      cases moved
      exact trace
  | succ n ih =>
      rw [steps] at moved
      obtain ⟨m, first, rest⟩ := Option.bind_eq_some_iff.mp moved
      exact .instr first (ih rest)

/-- If the first two functions come back, all three are called. -/
theorem root_complete {s : State} {stack : Word} (abi : Cdecl k callee (array stack))
    (external : k.text func = none) (entry : RootEntry k stack func arg s)
    (comesBack : ∀ s, s.pc = k.InterruptEnable ∨ s.pc = func → ∃ s', callee s s') :
    ∃ l, Trace k.text callee s l ∧
      l.map State.pc = [k.InterruptEnable, func, k.ThreadFinish] := by
  obtain ⟨_, a₁, f₁, a₂, f₂, a₃, f₃, a₄, f₄, a₅, f₅, a₆, f₆, -⟩ := k.root_located
  rw [← entry.pc] at f₁
  obtain ⟨s₁, ran, frame₁, pc₁, -⟩ :=
    root_start f₁ f₂ f₃ f₄ (entry.esp.trans (word_seven stack)) entry.initial entry.done
  rw [entry.startup] at pc₁
  obtain ⟨t₁, back₁⟩ := comesBack s₁ (Or.inl pc₁)
  obtain ⟨s₂, call₂, frame₂, pc₂, -⟩ := root_next abi frame₁ back₁ f₅ (Or.inl rfl)
  rw [frame₁.func] at pc₂
  obtain ⟨t₂, back₂⟩ := comesBack s₂ (Or.inr pc₂)
  obtain ⟨s₃, call₃, -, pc₃, -⟩ := root_next abi frame₂ back₂ f₆ (Or.inr rfl)
  rw [frame₂.finish] at pc₃
  have last : Trace k.text callee s₃ [s₃] := .enter (pc₃ ▸ k.finish_external)
  have second : Trace k.text callee s₂ [s₂, s₃] :=
    .back (pc₂ ▸ external) back₂ (.instr call₃ last)
  have first : Trace k.text callee s₁ [s₁, s₂, s₃] :=
    .back (pc₁ ▸ k.enable_external) back₁ (.instr call₂ second)
  exact ⟨_, first.after_steps ran, by simp [pc₁, pc₂, pc₃]⟩

/-- A thread that was forked comes out of its first `SWITCH` so. -/
theorem root_entry {t : Thread k} {s : State} {stack : Word} {m : Memory}
    (own : t.stack = array stack)
    (resumed : Resumed t (created (k := k) t.obj (StackAllocate k t.obj stack func arg m)) s) :
    RootEntry k stack func arg s := by
  have esp : (created (k := k) t.obj (StackAllocate k t.obj stack func arg m)).regs .esp =
      word stack (StackSize - 5) := created_esp own
  have register (r : Reg) {v : Word} (other : r ≠ .esp)
      (member : (offset r, v) ∈ initialState k func arg) : s.regs r = v :=
    (resumed.regs r other).trans (StackAllocate_field member)
  refine ⟨?_, ?_, ?_, ?_, ?_, ?_⟩
  · rw [resumed.pc, esp]
    exact StackAllocate_root (own ▸ t.obj_stack)
  · rw [resumed.esp, esp, word, word, BitVec.add_assoc]
    rfl
  · exact register _ (by decide) mem_initialState.2.1
  · exact register _ (by decide) mem_initialState.2.2.1
  · exact register _ (by decide) mem_initialState.2.2.2.1
  · exact register _ (by decide) mem_initialState.2.2.2.2

end Root

/-- **What a forked thread does.**  From the first switch to it on, whatever happened since the
`Fork`, the thread calls `InterruptEnable`, its function and `ThreadFinish`, each after the
other came back, from the same place of its own array; when its function is entered the
argument of the `Fork` is where an argument is expected; and if the first two functions come
back all three are called. -/
theorem ThreadRoot_calls {c₀ c₁ c₂ c₃ c₄ : Conf T} {es fs : List (Event T)} {t : T}
    {stack func arg : Word} {callee : State → State → Prop}
    (boot : ∀ u, c₀.parked u = none)
    (before : exec (sysStep place) c₀ es = some c₁)
    (fork : sysStep place c₁ (.fork t stack func arg) = some c₂)
    (between : exec (sysStep place) c₂ fs = some c₃)
    (first : sysStep place c₃ (.switch t) = some c₄)
    (admitted : AllSteps (sysStep place) (Admissible place) c₀
      (es ++ .fork t stack func arg :: (fs ++ [.switch t])))
    (away : ∀ e ∈ fs, e ≠ .switch t ∧ e ≠ .delete t)
    (external : k.text func = none) (abi : Cdecl k callee (array stack)) :
    (∀ l, Trace k.text callee c₄.machine l →
      l.map State.pc <+: [k.InterruptEnable, func, k.ThreadFinish] ∧
        (∀ s ∈ l, s.regs .esp = word stack (StackSize - 7)) ∧
        ∀ s, l[1]? = some s → loadWord s.mem (s.regs .esp + 4) = arg) ∧
      ((∀ s, s.pc = k.InterruptEnable ∨ s.pc = func → ∃ s', callee s s') →
        ∃ l, Trace k.text callee c₄.machine l ∧
          l.map State.pc = [k.InterruptEnable, func, k.ThreadFinish]) := by
  obtain ⟨admitted₁, rest⟩ := admitted.append before
  have inv₁ : Inv place c₁ := exec_invariant inv_step (inv_boot boot) admitted₁ before
  have inv₂ := inv_step c₁ _ c₂ inv₁ rest.1 fork
  obtain ⟨admitted₂, last⟩ := (rest.2 c₂ fork).append between
  have inv₃ : Inv place c₃ := exec_invariant inv_step inv₂ admitted₂ between
  obtain ⟨-, -, own, fits⟩ := rest.1
  have parked₂ : c₂.parked t = some (created (k := k) (place t).obj
      (StackAllocate k (place t).obj stack func arg c₁.machine.mem)) := by
    cases fork
    exact Function.update_self ..
  have parked₃ := parked_exec inv₂ admitted₂ between parked₂ away
  obtain ⟨f, parked, -, -, -, -, resumed, -⟩ := switch_cases inv₃ last.1 first
  obtain rfl := Option.some.inj (parked₃.symm.trans parked)
  have entry := root_entry own resumed
  exact ⟨fun l trace => root_trace abi external fits entry trace,
    fun comesBack => root_complete abi external entry comesBack⟩

end System

/-! ## Two threads -/

theorem disjoint_range {a b n m : Word} (above : n ≤ b - a) (below : m ≤ a - b) :
    Disjoint {x : Word | x - a < n} {x : Word | x - b < m} := by
  rw [Set.disjoint_left]
  intro x first second
  rw [Set.mem_ofPred_eq] at first second
  bv_omega

/-- A kernel whose instructions are one byte long. -/
def twoKernel : Kernel where
  text a :=
    if a - 0x1000 < 27 then ((SWITCH 0x3000)[(a - 0x1000).toNat]?).map fun i => (i, a + 1)
    else (ThreadRoot[(a - 0x2000).toNat]?).map fun i => (i, a + 1)
  eaxSave := 0x3000
  SWITCH := 0x1000
  ThreadRoot := 0x2000
  InterruptEnable := 0x4000
  ThreadFinish := 0x4010
  switch_located := by
    refine ⟨0x101b, ?_⟩
    iterate 27 refine ⟨_, rfl, ?_⟩
    rfl
  root_located := by
    refine ⟨0x2009, ?_⟩
    iterate 9 refine ⟨_, rfl, ?_⟩
    rfl
  enable_external := by decide
  finish_external := by decide

/-- The main thread and a forked one. -/
def twoThreads : Bool → Thread twoKernel
  | false =>
      ⟨0x10000, array 0x20000, disjoint_range (by decide) (by decide),
        disjoint_range (by decide) (by decide), disjoint_range (by decide) (by decide)⟩
  | true =>
      ⟨0x11000, array 0x30000, disjoint_range (by decide) (by decide),
        disjoint_range (by decide) (by decide), disjoint_range (by decide) (by decide)⟩

theorem twoThreads_apart : Disjoint (twoThreads true).memory (twoThreads false).memory := by
  refine Set.disjoint_union_left.mpr ⟨Set.disjoint_union_right.mpr ⟨?_, ?_⟩,
    Set.disjoint_union_right.mpr ⟨?_, ?_⟩⟩ <;>
  exact disjoint_range (by decide) (by decide)

def espOf : Bool → Word
  | false => 0x20100
  | true => 0x30100

/-- The thread `t` at a call `SWITCH(t, u)`. -/
def calling (t u : Bool) (m : Memory) : State where
  regs := Function.update (fun _ => 5) .esp (espOf t)
  pc := 0x1000
  mem := storeWord (storeWord m (espOf t + 4) (twoThreads t).obj) (espOf t + 8) (twoThreads u).obj

theorem inside_stack (t : Bool) : wordAt (espOf t) ⊆ (twoThreads t).stack ∧
    wordAt (espOf t + 4) ⊆ (twoThreads t).stack ∧ wordAt (espOf t + 8) ⊆ (twoThreads t).stack := by
  have words (base : Word) (i : Nat) (inside : i < StackSize) := word_inside base inside
  cases t with
  | false => exact ⟨words 0x20000 64 (by decide), words 0x20000 65 (by decide),
      words 0x20000 66 (by decide)⟩
  | true => exact ⟨words 0x30000 64 (by decide), words 0x30000 65 (by decide),
      words 0x30000 66 (by decide)⟩

theorem calls_calling (t u : Bool) (m : Memory) :
    Calls (twoThreads t) (twoThreads u) (calling t u m) where
  pc := rfl
  oldThread := by
    show loadWord (storeWord _ (espOf t + 8) _) (espOf t + 4) = _
    rw [loadWord_storeWord_of_disjoint _ _ (disjoint_fields _ (by decide) (by decide)),
      loadWord_storeWord]
  newThread := loadWord_storeWord _ _ _
  ret := (inside_stack t).1
  arg₁ := (inside_stack t).2.1
  arg₂ := (inside_stack t).2.2

/-- The running thread gets to its call of `SWITCH` and switches. -/
theorem two_switch {c : Conf Bool} {u : Bool} {f : State} (inv : Inv twoThreads c)
    (parked : c.parked u = some f) :
    ∃ s c₁ c₂, s.regs .eax = 5 ∧ sysStep twoThreads c (.burst s) = some c₁ ∧
      Admissible twoThreads c (.burst s) ∧ c₁.running = c.running ∧ c₁.machine = s ∧
      sysStep twoThreads c₁ (.switch u) = some c₂ ∧ Admissible twoThreads c₁ (.switch u) ∧
      c₂.parked c₁.running = some s := by
  have admitted : Admissible twoThreads c (.burst (calling c.running u c.machine.mem)) := by
    intro t waits
    obtain ⟨g, parked'⟩ := Option.ne_none_iff_exists'.mp waits
    have other : t ≠ c.running := by
      rintro rfl
      exact waits inv.running
    have apart := inv.apart _ _ (Or.inl rfl) (Live.of_parked parked') other.symm
    have stack : Disjoint (twoThreads c.running).stack (twoThreads t).kept :=
      (apart.mono_left Set.subset_union_right).mono_right (Thread.kept_subset _)
    exact (AgreeOn.storeWord (stack.mono_left (inside_stack _).2.2)).trans
      (AgreeOn.storeWord (stack.mono_left (inside_stack _).2.1))
  have inv₁ : Inv twoThreads { c with machine := calling c.running u c.machine.mem } :=
    inv_step c _ _ inv admitted rfl
  have other : c.running ≠ u := by
    rintro rfl
    rw [inv.running] at parked
    cases parked
  have calls := calls_calling c.running u c.machine.mem
  have apart := inv.apart _ _ (Or.inl rfl) (Live.of_parked parked) other
  obtain ⟨s, ran, -⟩ := switch_spec calls apart (inv₁.parked u f parked)
  let c₂ : Conf Bool :=
    { machine := s
      running := u
      parked := Function.update (Function.update c.parked c.running
        (some (calling c.running u c.machine.mem))) u none }
  refine ⟨_, _, c₂, rfl, rfl, admitted, rfl, rfl, ?_, ⟨by simp [parked], calls⟩, ?_⟩
  · simp only [sysStep, ran, Option.map_some]
    rfl
  · simp [c₂, other]

/-- The main thread alone. -/
def twoStart : Conf Bool where
  machine := ⟨fun _ => 0, 0, fun _ => 0⟩
  running := false
  parked _ := none

theorem two_fork (func arg : Word) :
    Admissible twoThreads twoStart (.fork true 0x30000 func arg) := by
  refine ⟨?_, fun u live => ?_, rfl, by decide⟩
  · simp [Live, twoStart]
  · obtain rfl : u = false := by simpa [Live, twoStart] using live
    exact twoThreads_apart

theorem two_forked (func arg : Word) :
    ∃ c f, sysStep twoThreads twoStart (.fork true 0x30000 func arg) = some c ∧
      Inv twoThreads c ∧ c.running = false ∧ c.parked true = some f := by
  obtain ⟨c, made, inv⟩ := inv_fork (inv_boot fun _ => rfl) (two_fork func arg)
  cases made
  exact ⟨_, _, rfl, inv, rfl, rfl⟩

/-- The main thread forks a second one and switches to it, and that one switches back. -/
theorem SWITCH_returns_twoThreads : ∃ c₁ c₄ : Conf Bool, c₁.running = false ∧
    c₁.machine.regs .eax = 5 ∧ Resumed (twoThreads c₁.running) c₁.machine c₄.machine := by
  have forked := two_fork 0x4020 7
  obtain ⟨c, f, made, inv, running, parked⟩ := two_forked 0x4020 7
  obtain ⟨s, c₁, c₂, eax, run₁, adm₁, running₁, rfl, call, adm₂, parked₂⟩ := two_switch inv parked
  have inv₂ := inv_step c₁ _ c₂ (inv_step c _ c₁ inv adm₁ run₁) adm₂ call
  obtain ⟨s', c₃, c₄, -, run₃, adm₃, -, -, back, adm₄, -⟩ := two_switch inv₂ parked₂
  have before : exec (sysStep twoThreads) twoStart
      [.fork true 0x30000 0x4020 7, .burst c₁.machine] = some c₁ :=
    exec_cons_eq_some.mpr ⟨c, made, exec_cons_eq_some.mpr ⟨c₁, run₁, rfl⟩⟩
  have between : exec (sysStep twoThreads) c₂ [.burst s'] = some c₃ :=
    exec_cons_eq_some.mpr ⟨c₃, run₃, rfl⟩
  have resumed := SWITCH_returns (fun _ => rfl) before call between back
    (.cons forked made (.cons adm₁ run₁ (.cons adm₂ call (.cons adm₃ run₃ (.cons adm₄ back
      trivial))))) (by simp)
  exact ⟨c₁, c₄, running₁.trans running, eax, resumed⟩

/-- A function that comes back at once. -/
def returns (s s' : State) : Prop :=
  s.pc ≠ twoKernel.ThreadFinish ∧
    s' = { s with
      regs := Function.update s.regs .esp (s.regs .esp + 4)
      pc := loadWord s.mem (s.regs .esp) }

theorem cdecl_returns (stack : Set Word) : Cdecl twoKernel returns stack where
  back back := by rw [back.2]
  esp back := by rw [back.2]; rfl
  saved back r member := by
    rw [back.2]
    refine Function.update_of_ne ?_ _ _
    rintro rfl
    simp at member
  enable back _ x _ _ := by rw [back.2]
  finish back := back.1

/-- The forked thread's three calls. -/
theorem ThreadRoot_calls_twoThreads : ∃ (c : Conf Bool) (l : List State), c.running = true ∧
    Trace twoKernel.text returns c.machine l ∧ l.map State.pc = [0x4000, 0x4020, 0x4010] := by
  have forked := two_fork 0x4020 7
  obtain ⟨c, f, made, inv, running, parked⟩ := two_forked 0x4020 7
  obtain ⟨s, c₁, c₂, -, run₁, adm₁, -, rfl, first, adm₂, -⟩ := two_switch inv parked
  have between : exec (sysStep twoThreads) c [.burst c₁.machine] = some c₁ :=
    exec_cons_eq_some.mpr ⟨c₁, run₁, rfl⟩
  have start : exec (sysStep twoThreads) twoStart [] = some twoStart := rfl
  have calls := ThreadRoot_calls (fun _ => rfl) start made between first
    (.cons forked made (.cons adm₁ run₁ (.cons adm₂ first trivial))) (by simp) (by decide)
    (cdecl_returns (array 0x30000))
  obtain ⟨l, trace, pcs⟩ := calls.2 fun s entered =>
    ⟨_, by rcases entered with pc | pc <;> rw [pc] <;> decide, rfl⟩
  obtain ⟨-, -, -, now, -⟩ := switch_cases (inv_step c _ c₁ inv adm₁ run₁) adm₂ first
  exact ⟨c₂, l, now, trace, pcs⟩

end Nachos.Threads.Switch
