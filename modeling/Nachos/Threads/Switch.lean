/-
# Nachos.Threads.Switch -- the context switch of the Intel 386

`SWITCH` and `ThreadRoot` are the two routines of the threads package that are not C++: the
first saves the registers of the running thread in its `Thread` object and loads those of
another one, and the second is the bottom frame of a thread that was forked.
-/
import Nachos.Lib.I386

namespace Nachos.Threads.Switch

open Nachos.Lib.I386

set_option autoImplicit false

/-! ## The routines -/

/-- Offsets of the saved registers in the `Thread` object: `stackTop` and then
`machineState`. -/
def ESP : Word := 0
def EAX : Word := 4
def EBX : Word := 8
def ECX : Word := 12
def EDX : Word := 16
def EBP : Word := 20
def ESI : Word := 24
def EDI : Word := 28
def PC : Word := 32

/-- Where a register is saved. -/
def offset : Reg → Word
  | .eax => EAX
  | .ebx => EBX
  | .ecx => ECX
  | .edx => EDX
  | .esp => ESP
  | .ebp => EBP
  | .esi => ESI
  | .edi => EDI

def InitialPC : Reg := .esi
def InitialArg : Reg := .edx
def WhenDonePC : Reg := .edi
def StartupPC : Reg := .ecx

def ThreadRoot : List Instr :=
  [.pushl .ebp,
   .movl (.reg .esp) (.reg .ebp),
   .pushl InitialArg,
   .call StartupPC,
   .call InitialPC,
   .call WhenDonePC,
   -- not reached
   .movl (.reg .ebp) (.reg .esp),
   .popl .ebp,
   .ret]

/-- `SWITCH(t1, t2)`, with the address of the variable `_eax_save`. -/
def SWITCH (eaxSave : Word) : List Instr :=
  [.movl (.reg .eax) (.var eaxSave),
   .movl (.disp 4 .esp) (.reg .eax),
   .movl (.reg .ebx) (.disp EBX .eax),
   .movl (.reg .ecx) (.disp ECX .eax),
   .movl (.reg .edx) (.disp EDX .eax),
   .movl (.reg .esi) (.disp ESI .eax),
   .movl (.reg .edi) (.disp EDI .eax),
   .movl (.reg .ebp) (.disp EBP .eax),
   .movl (.reg .esp) (.disp ESP .eax),
   .movl (.var eaxSave) (.reg .ebx),
   .movl (.reg .ebx) (.disp EAX .eax),
   .movl (.disp 0 .esp) (.reg .ebx),
   .movl (.reg .ebx) (.disp PC .eax),
   .movl (.disp 8 .esp) (.reg .eax),
   .movl (.disp EAX .eax) (.reg .ebx),
   .movl (.reg .ebx) (.var eaxSave),
   .movl (.disp EBX .eax) (.reg .ebx),
   .movl (.disp ECX .eax) (.reg .ecx),
   .movl (.disp EDX .eax) (.reg .edx),
   .movl (.disp ESI .eax) (.reg .esi),
   .movl (.disp EDI .eax) (.reg .edi),
   .movl (.disp EBP .eax) (.reg .ebp),
   .movl (.disp ESP .eax) (.reg .esp),
   .movl (.disp PC .eax) (.reg .eax),
   .movl (.reg .eax) (.disp 4 .esp),
   .movl (.var eaxSave) (.reg .eax),
   .ret]

/-- `SWITCH` up to the load of `t2`. -/
def saving (eaxSave : Word) : List Instr := (SWITCH eaxSave).take 14

/-- `SWITCH` from there to its `ret`. -/
def loading (eaxSave : Word) : List Instr := ((SWITCH eaxSave).drop 14).take 12

theorem SWITCH_eq (eaxSave : Word) :
    SWITCH eaxSave = saving eaxSave ++ (loading eaxSave ++ [.ret]) := rfl

theorem straight_saving (eaxSave : Word) : ∀ i ∈ saving eaxSave, i.straight = true := by
  simp [saving, SWITCH, Instr.straight]

theorem straight_loading (eaxSave : Word) : ∀ i ∈ loading eaxSave, i.straight = true := by
  simp [loading, SWITCH, Instr.straight]

/-- The bytes of a `Thread` object that `SWITCH` uses. -/
def area (obj : Word) : Set Word := {x | x - obj < 36}

/-- What is stored in the object of the thread that is switched out, in the order of the
stores. -/
def savedFields (regs : Regs) (ret : Word) : List (Word × Word) :=
  [(EBX, regs .ebx), (ECX, regs .ecx), (EDX, regs .edx), (ESI, regs .esi), (EDI, regs .edi),
   (EBP, regs .ebp), (ESP, regs .esp), (EAX, regs .eax), (PC, ret)]

def savedMem (eaxSave obj : Word) (s : State) : Memory :=
  storeFields (storeWord s.mem eaxSave (s.regs .eax)) obj
    (savedFields s.regs (loadWord s.mem (s.regs .esp)))

theorem wordAt_subset_area (obj : Word) {o : Word} (small : o ≤ 32) :
    wordAt (obj + o) ⊆ area obj := by
  intro x member
  rw [mem_wordAt] at member
  show x - obj < 36
  bv_omega

section Halves

variable {eaxSave obj : Word} {s : State}

/-- The first half of `SWITCH`, from a call whose words are on a stack that is apart from the
object and from `_eax_save`. -/
theorem effects_saving {stack : Set Word} (first : loadWord s.mem (s.regs .esp + 4) = obj)
    (save_area : Disjoint (wordAt eaxSave) (area obj)) (area_stack : Disjoint (area obj) stack)
    (save_stack : Disjoint (wordAt eaxSave) stack) (ret : wordAt (s.regs .esp) ⊆ stack)
    (arg₁ : wordAt (s.regs .esp + 4) ⊆ stack) (arg₂ : wordAt (s.regs .esp + 8) ⊆ stack) :
    effects (saving eaxSave) s =
      { s with
        regs := Function.update (Function.update s.regs .eax (loadWord s.mem (s.regs .esp + 8)))
          .ebx (loadWord s.mem (s.regs .esp))
        mem := savedMem eaxSave obj s } := by
  have onStack {a : Word} (inside : wordAt a ⊆ stack) (o v : Word) (small : o ≤ 32) (m : Memory) :
      loadWord (storeWord m (obj + o) v) a = loadWord m a :=
    loadWord_storeWord_of_disjoint m v
      ((area_stack.mono_left (wordAt_subset_area obj small)).mono_right inside)
  have afterVar {a : Word} (inside : wordAt a ⊆ stack) (v : Word) (m : Memory) :
      loadWord (storeWord m eaxSave v) a = loadWord m a :=
    loadWord_storeWord_of_disjoint m v (save_stack.mono_right inside)
  have ofVar (o v : Word) (small : o ≤ 32) (m : Memory) :
      loadWord (storeWord m (obj + o) v) eaxSave = loadWord m eaxSave :=
    loadWord_storeWord_of_disjoint m v (save_area.mono_right (wordAt_subset_area obj small)).symm
  have esp : s.regs .esp + 0 = s.regs .esp := BitVec.add_zero _
  simp (disch := decide) only [saving, SWITCH, List.take_succ_cons, List.take_zero, effects_cons,
    effects_nil, Instr.effect, State.read, State.write, Function.update_apply, reduceCtorEq,
    if_true, if_false, first, onStack ret, onStack arg₂, afterVar ret, afterVar arg₁,
    afterVar arg₂, ofVar, savedMem, savedFields,
    storeFields_cons, storeFields_nil, loadWord_storeWord, esp]
  congr 1
  funext r
  cases r <;> rfl

/-- The second half, with `t2` in `eax` and the registers `regs` in its object. -/
theorem effects_loading {regs : Regs} {ret : Word} (eax : s.regs .eax = obj)
    (saved : ∀ r, loadWord s.mem (obj + offset r) = regs r)
    (pc : loadWord s.mem (obj + PC) = ret)
    (apart : Disjoint (wordAt eaxSave) (area obj))
    (slot : Disjoint (wordAt (regs .esp + 4)) (wordAt eaxSave)) :
    effects (loading eaxSave) s =
      { s with
        regs := regs
        mem := storeWord (storeWord s.mem eaxSave (regs .eax)) (regs .esp + 4) ret } := by
  have field (o v : Word) (small : o ≤ 32) (m : Memory) :
      loadWord (storeWord m eaxSave v) (obj + o) = loadWord m (obj + o) :=
    loadWord_storeWord_of_disjoint m v (apart.mono_right (wordAt_subset_area obj small))
  have ofVar (v : Word) (m : Memory) :
      loadWord (storeWord m (regs .esp + 4) v) eaxSave = loadWord m eaxSave :=
    loadWord_storeWord_of_disjoint m v slot
  have eaxField : loadWord s.mem (obj + EAX) = regs .eax := saved .eax
  have ebxField : loadWord s.mem (obj + EBX) = regs .ebx := saved .ebx
  have ecxField : loadWord s.mem (obj + ECX) = regs .ecx := saved .ecx
  have edxField : loadWord s.mem (obj + EDX) = regs .edx := saved .edx
  have espField : loadWord s.mem (obj + ESP) = regs .esp := saved .esp
  have ebpField : loadWord s.mem (obj + EBP) = regs .ebp := saved .ebp
  have esiField : loadWord s.mem (obj + ESI) = regs .esi := saved .esi
  have ediField : loadWord s.mem (obj + EDI) = regs .edi := saved .edi
  simp (disch := decide) only [loading, SWITCH, List.take_succ_cons, List.take_zero,
    List.drop_succ_cons, List.drop_zero, effects_cons,
    effects_nil, Instr.effect, State.read, State.write, Function.update_apply, reduceCtorEq,
    if_true, if_false, eax, field, pc, eaxField, ebxField, ecxField, edxField, espField, ebpField,
    esiField, ediField, ofVar, loadWord_storeWord]
  congr 1
  funext r
  cases r <;> rfl

end Halves

/-! ## The kernel's code and its threads -/

/-- The text of the kernel, as far as it is assembler: `SWITCH` and `ThreadRoot` stand at their
labels, and the functions written in C++ begin where there is no instruction of this module. -/
structure Kernel where
  text : Text
  eaxSave : Word
  SWITCH : Word
  ThreadRoot : Word
  InterruptEnable : Word
  ThreadFinish : Word
  switch_located : ∃ b, Located text SWITCH (Switch.SWITCH eaxSave) b
  root_located : ∃ b, Located text ThreadRoot Switch.ThreadRoot b
  enable_external : text InterruptEnable = none
  finish_external : text ThreadFinish = none

/-- The bytes of a `Thread` object up to its member `stack`. -/
def object (obj : Word) : Set Word := {x | x - obj < 96}

theorem area_subset_object (obj : Word) : area obj ⊆ object obj := by
  intro x member
  have small : x - obj < 36 := member
  show x - obj < 96
  bv_omega

/-- A thread: its object, and the bytes of its execution stack. -/
structure Thread (k : Kernel) where
  obj : Word
  stack : Set Word
  obj_stack : Disjoint (object obj) stack
  save_obj : Disjoint (wordAt k.eaxSave) (object obj)
  save_stack : Disjoint (wordAt k.eaxSave) stack

namespace Thread

variable {k : Kernel} (t : Thread k)

def memory : Set Word := object t.obj ∪ t.stack

/-- What must not change while the thread is switched out. -/
def kept : Set Word := area t.obj ∪ t.stack

theorem kept_subset : t.kept ⊆ t.memory :=
  Set.union_subset_union_left _ (area_subset_object t.obj)

theorem area_stack : Disjoint (area t.obj) t.stack :=
  t.obj_stack.mono_left (area_subset_object t.obj)

theorem save_area : Disjoint (wordAt k.eaxSave) (area t.obj) :=
  t.save_obj.mono_right (area_subset_object t.obj)

theorem save_kept : Disjoint (wordAt k.eaxSave) t.kept :=
  Set.disjoint_union_right.mpr ⟨t.save_area, t.save_stack⟩

end Thread

variable {k : Kernel}

/-- `t` called `SWITCH(t, u)` and the machine is at its first instruction. -/
structure Calls (t u : Thread k) (s : State) : Prop where
  pc : s.pc = k.SWITCH
  oldThread : loadWord s.mem (s.regs .esp + 4) = t.obj
  newThread : loadWord s.mem (s.regs .esp + 8) = u.obj
  ret : wordAt (s.regs .esp) ⊆ t.stack
  arg₁ : wordAt (s.regs .esp + 4) ⊆ t.stack
  arg₂ : wordAt (s.regs .esp + 8) ⊆ t.stack

/-- `t` is switched out, and `f` is the machine as it entered `SWITCH`. -/
structure Parked (t : Thread k) (f : State) (m : Memory) : Prop where
  saved : ∀ r, loadWord m (t.obj + offset r) = f.regs r
  pc : loadWord m (t.obj + PC) = loadWord f.mem (f.regs .esp)
  ret : wordAt (f.regs .esp) ⊆ t.stack
  slot : wordAt (f.regs .esp + 4) ⊆ t.stack
  stack : AgreeOn t.stack m f.mem

/-- The machine is back from the call of `SWITCH` it entered in state `f`: the registers and
the stack are as they were, and the callee used the slot of its first argument. -/
structure Resumed (t : Thread k) (f s : State) : Prop where
  pc : s.pc = loadWord f.mem (f.regs .esp)
  esp : s.regs .esp = f.regs .esp + 4
  regs : ∀ r, r ≠ .esp → s.regs r = f.regs r
  stack : ∀ x ∈ t.stack, x ∉ wordAt (f.regs .esp + 4) → s.mem x = f.mem x

theorem offset_le (r : Reg) : offset r ≤ 32 := by cases r <;> decide

theorem Parked.congr {t : Thread k} {f : State} {m m' : Memory} (parked : Parked t f m)
    (same : AgreeOn t.kept m' m) : Parked t f m' where
  saved r := by
    rw [← parked.saved r]
    exact same.loadWord ((wordAt_subset_area t.obj (offset_le r)).trans Set.subset_union_left)
  pc := by
    rw [← parked.pc]
    exact same.loadWord ((wordAt_subset_area t.obj (by decide)).trans Set.subset_union_left)
  ret := parked.ret
  slot := parked.slot
  stack := (same.mono Set.subset_union_right).trans parked.stack

/-- The offsets of `savedFields`, in the order of the stores. -/
def savedOffsets : List Word := [EBX, ECX, EDX, ESI, EDI, EBP, ESP, EAX, PC]

theorem map_savedFields (regs : Regs) (ret : Word) :
    (savedFields regs ret).map Prod.fst = savedOffsets := rfl

/-- The fields do not overlap. -/
theorem savedFields_apart (regs : Regs) (ret : Word) :
    (savedFields regs ret).Pairwise fun f g => 4 ≤ f.1 - g.1 ∧ 4 ≤ g.1 - f.1 := by
  have apart : savedOffsets.Pairwise fun o p => 4 ≤ o - p ∧ 4 ≤ p - o := by decide
  rw [← map_savedFields regs ret, List.pairwise_map] at apart
  exact apart

theorem savedFields_le {regs : Regs} {ret : Word} {field : Word × Word}
    (member : field ∈ savedFields regs ret) : field.1 ≤ 32 := by
  have small : ∀ o ∈ savedOffsets, o ≤ 32 := by
    simp only [savedOffsets, List.forall_mem_cons, List.not_mem_nil, false_imp_iff, implies_true]
    decide
  exact small field.1 (List.mem_map_of_mem member)

theorem mem_savedFields (regs : Regs) (ret : Word) (r : Reg) :
    (offset r, regs r) ∈ savedFields regs ret := by
  cases r <;> simp [savedFields, offset]

/-- `SWITCH` writes nothing but the object of the old thread, `_eax_save` and, in the second
half, a slot of the new thread's stack. -/
theorem savedMem_agree {t : Thread k} (s : State) {S : Set Word}
    (obj : Disjoint (area t.obj) S) (save : Disjoint (wordAt k.eaxSave) S) :
    AgreeOn S (savedMem k.eaxSave t.obj s) s.mem := by
  refine AgreeOn.trans (AgreeOn.storeFields fun field member => ?_) (AgreeOn.storeWord save)
  exact obj.mono_left (wordAt_subset_area t.obj (savedFields_le member))

theorem loadWord_savedMem (eaxSave obj : Word) (s : State) {field : Word × Word}
    (member : field ∈ savedFields s.regs (loadWord s.mem (s.regs .esp))) :
    loadWord (savedMem eaxSave obj s) (obj + field.1) = field.2 := by
  rw [savedMem]
  exact loadWord_storeFields member (savedFields_apart _ _)

/-- After the first half the old thread is parked. -/
theorem parked_savedMem {t u : Thread k} {s : State} (calls : Calls t u s) :
    Parked t s (savedMem k.eaxSave t.obj s) := by
  have saved (r : Reg) : loadWord (savedMem k.eaxSave t.obj s) (t.obj + offset r) = s.regs r := by
    have stored := loadWord_savedMem k.eaxSave t.obj s (mem_savedFields _ _ r)
    exact stored
  have pc : loadWord (savedMem k.eaxSave t.obj s) (t.obj + PC) = loadWord s.mem (s.regs .esp) := by
    have member : (PC, loadWord s.mem (s.regs .esp)) ∈
        savedFields s.regs (loadWord s.mem (s.regs .esp)) := by simp [savedFields]
    have stored := loadWord_savedMem k.eaxSave t.obj s member
    exact stored
  exact ⟨saved, pc, calls.ret, calls.arg₁, savedMem_agree s t.area_stack t.save_stack⟩

/-- The memory when `SWITCH` executes its `ret`: the new thread's `eax` went through
`_eax_save`, and its return address is written over the slot of the argument `t1`. -/
def switchedMem (k : Kernel) (t : Thread k) (f s : State) : Memory :=
  storeWord (storeWord (savedMem k.eaxSave t.obj s) k.eaxSave (f.regs .eax)) (f.regs .esp + 4)
    (loadWord f.mem (f.regs .esp))

theorem switchedMem_agree_saved {t : Thread k} {f s : State} {S : Set Word}
    (save : Disjoint (wordAt k.eaxSave) S) (slot : Disjoint (wordAt (f.regs .esp + 4)) S) :
    AgreeOn S (switchedMem k t f s) (savedMem k.eaxSave t.obj s) :=
  (AgreeOn.storeWord slot).trans (AgreeOn.storeWord save)

theorem switchedMem_agree {t : Thread k} {f s : State} {S : Set Word}
    (obj : Disjoint (area t.obj) S) (save : Disjoint (wordAt k.eaxSave) S)
    (slot : Disjoint (wordAt (f.regs .esp + 4)) S) : AgreeOn S (switchedMem k t f s) s.mem :=
  (switchedMem_agree_saved save slot).trans (savedMem_agree s obj save)

/-- `SWITCH` from its first instruction to the return into the new thread. -/
theorem steps_switch {t u : Thread k} {s f : State} (calls : Calls t u s)
    (apart : Disjoint t.memory u.memory) (parked : Parked u f s.mem) :
    steps k.text 27 s =
      some { regs := Function.update f.regs .esp (f.regs .esp + 4)
             pc := loadWord (switchedMem k t f s) (f.regs .esp)
             mem := switchedMem k t f s } := by
  obtain ⟨b, located⟩ := k.switch_located
  rw [← calls.pc, SWITCH_eq] at located
  obtain ⟨c, first, rest⟩ := located.append
  obtain ⟨d, second, ret⟩ := rest.append
  obtain ⟨next, fetched, -⟩ := ret
  -- the first half parks `t`, and leaves what is saved of `u`
  obtain ⟨regs, eax, saves⟩ : ∃ regs : Regs, regs .eax = u.obj ∧
      steps k.text (saving k.eaxSave).length s = some ⟨regs, c, savedMem k.eaxSave t.obj s⟩ := by
    rw [steps_straight (straight_saving k.eaxSave) first, effects_saving calls.oldThread t.save_area
      t.area_stack t.save_stack calls.ret calls.arg₁ calls.arg₂]
    exact ⟨_, calls.newThread, rfl⟩
  have still : Parked u f (savedMem k.eaxSave t.obj s) := by
    refine parked.congr (savedMem_agree s ?_ u.save_kept)
    exact (apart.mono_left (Set.subset_union_left.trans t.kept_subset)).mono_right u.kept_subset
  -- the second half loads them
  let half : State := ⟨regs, c, savedMem k.eaxSave t.obj s⟩
  have loads : steps k.text (loading k.eaxSave).length half =
      some ⟨f.regs, d, switchedMem k t f s⟩ := by
    have loaded := effects_loading (s := half) eax still.saved still.pc u.save_area
      (u.save_stack.mono_right parked.slot).symm
    rw [steps_straight (s := half) (straight_loading k.eaxSave) second, loaded, switchedMem]
  have returns : steps k.text 1 ⟨f.regs, d, switchedMem k t f s⟩ =
      some ⟨Function.update f.regs .esp (f.regs .esp + 4),
        loadWord (switchedMem k t f s) (f.regs .esp), switchedMem k t f s⟩ := by
    simp only [steps, step, fetched, Option.map_some, Instr.effect, Instr.target, Option.bind_some]
  have split : 27 = (saving k.eaxSave).length + ((loading k.eaxSave).length + 1) := rfl
  rw [split, steps_add, saves, Option.bind_some, steps_add, loads, Option.bind_some]
  exact returns

/-- What one call of `SWITCH` does: the old thread is parked where it called, the new thread is
resumed where it was parked, and no other thread is disturbed. -/
theorem switch_spec {t u : Thread k} {s f : State} (calls : Calls t u s)
    (apart : Disjoint t.memory u.memory) (parked : Parked u f s.mem) :
    ∃ s', steps k.text 27 s = some s' ∧ Parked t s s'.mem ∧ Resumed u f s' ∧
      ∀ v : Thread k, Disjoint v.memory t.memory → Disjoint v.memory u.memory →
        AgreeOn v.kept s'.mem s.mem := by
  refine ⟨_, steps_switch calls apart parked, ?_, ?_, ?_⟩
  · refine (parked_savedMem calls).congr (switchedMem_agree_saved t.save_kept ?_)
    have inU : wordAt (f.regs .esp + 4) ⊆ u.memory := parked.slot.trans Set.subset_union_right
    exact (apart.symm.mono_left inU).mono_right t.kept_subset
  · have objU : Disjoint (area t.obj) u.stack :=
      (apart.mono_left (Set.subset_union_left.trans t.kept_subset)).mono_right
        Set.subset_union_right
    have stack : ∀ x ∈ u.stack, x ∉ wordAt (f.regs .esp + 4) → switchedMem k t f s x = f.mem x := by
      intro x inside outside
      have same := switchedMem_agree (t := t) (f := f) (s := s) (S := {x})
        (objU.mono_right (by simpa using inside)) (u.save_stack.mono_right (by simpa using inside))
        (by simpa using outside)
      exact (same x rfl).trans (parked.stack x inside)
    have words : Disjoint (wordAt (f.regs .esp + 4)) (wordAt (f.regs .esp)) := by
      simpa using disjoint_fields (f.regs .esp) (i := 4) (j := 0#32) (by decide) (by decide)
    have top : loadWord (switchedMem k t f s) (f.regs .esp) = loadWord f.mem (f.regs .esp) :=
      AgreeOn.loadWord (S := wordAt (f.regs .esp)) (fun x member =>
        stack x (parked.ret member) (fun slot => Set.disjoint_left.mp words slot member))
        (Set.Subset.refl _)
    exact ⟨top, by simp, fun r other => by simp [other], stack⟩
  · intro v fromT fromU
    refine switchedMem_agree ?_ v.save_kept ?_
    · exact (fromT.symm.mono_left (Set.subset_union_left.trans t.kept_subset)).mono_right
        v.kept_subset
    · exact (fromU.symm.mono_left (parked.slot.trans Set.subset_union_right)).mono_right
        v.kept_subset

end Nachos.Threads.Switch
