/-
# Nachos.Machine.LoadDelay -- who writes last in a load's delay slot

The value of a load waits in `LoadReg` and `LoadValueReg` while the next instruction
runs; `DelayedLoad` then stores it, after that instruction's own assignment.  So the
register a load names is read with its old value in the delay slot, as the architecture
wants, but an assignment made there is overwritten by the older load.

`Loads` and `Assigns` say what the instruction at hand does to a register, and
`completed_spec` is all a completed instruction does.  `ProgramOrder` is what a program
may expect of two instructions in sequence; `program_order_iff` says when it holds.
-/
import Nachos.Machine.Exceptions

namespace Nachos.Machine

open Nachos.Lib.Bytes

set_option autoImplicit false

section LoadDelay

variable {μ : Type} {ops : MemoryOps μ} {cpu cpu' : Cpu μ} {n : Nat} {v : Word}

/-- The instruction at hand asks for `e`; `m` is the memory after its fetch. -/
def Asks (ops : MemoryOps μ) (cpu : Cpu μ) (e : Effect) (m : μ) : Prop :=
  ∃ raw, ops.readMem cpu.memory (cpu.registers pcReg) 4 = .ok (.value raw m) ∧
    execute (decode raw) cpu.registers = e

/-- It is a load into register `n`, and what it loads is `v`. -/
def Loads (ops : MemoryOps μ) (cpu : Cpu μ) (n : Nat) (v : Word) : Prop :=
  ∃ addr size value m w m', Asks ops cpu (.load addr size n value) m ∧
    ops.readMem m addr size = .ok (.value w m') ∧ v = value w

/-- It is not a load, and assigns `v` to register `n`. -/
def Assigns (ops : MemoryOps μ) (cpu : Cpu μ) (n : Nat) (v : Word) : Prop :=
  ∃ writes pcAfter m, Asks ops cpu (.complete writes pcAfter) m ∧
    n ∈ writes.map Prod.fst ∧ v = assignAll cpu.registers writes n

theorem Asks.unique {e e' : Effect} {m m' : μ} (asks : Asks ops cpu e m)
    (asks' : Asks ops cpu e' m') : e = e' ∧ m = m' := by
  obtain ⟨raw, fetched, rfl⟩ := asks
  obtain ⟨raw', fetched', rfl⟩ := asks'
  rw [fetched] at fetched'
  cases fetched'
  exact ⟨rfl, rfl⟩

theorem Asks.proper {e : Effect} {m : μ} (asks : Asks ops cpu e m) : e.Proper := by
  obtain ⟨raw, -, rfl⟩ := asks
  exact execute_proper (decode_fields raw) cpu.registers

/-! ## One instruction -/

/-- A completed instruction assigned `writes`, and left pending a load of `value` into
`target`; the target is register 0 where no load is pending. -/
structure Did (ops : MemoryOps μ) (cpu cpu' : Cpu μ) (writes : List (Nat × Word)) (target : Nat)
    (value : Word) : Prop where
  registers : ∃ pcAfter, cpu'.registers =
    advance (delayedLoad (assignAll cpu.registers writes) target value) pcAfter
  proper : ∀ w ∈ writes, w.1 < pcReg
  general : target < numGPRegs
  assigns : ∀ n v, Assigns ops cpu n v ↔
    n ∈ writes.map Prod.fst ∧ v = assignAll cpu.registers writes n
  loads : ∀ n v, n ≠ 0 → (Loads ops cpu n v ↔ n = target ∧ v = value)

theorem not_loads {e : Effect} {m : μ} (asks : Asks ops cpu e m)
    (other : ∀ addr size value, e ≠ .load addr size n value) : ¬ Loads ops cpu n v := by
  rintro ⟨addr, size, value, m', w, m'', asks', -⟩
  exact other addr size value (asks.unique asks').1

theorem not_assigns {e : Effect} {m : μ} (asks : Asks ops cpu e m)
    (other : ∀ writes pcAfter, e ≠ .complete writes pcAfter) : ¬ Assigns ops cpu n v := by
  rintro ⟨writes, pcAfter, m', asks', -⟩
  exact other writes pcAfter (asks.unique asks').1

/-- An instruction that neither assigns a register nor starts a load. -/
theorem did_nothing {e : Effect} {m : μ} (asks : Asks ops cpu e m)
    (noLoad : ∀ addr size n value, e ≠ .load addr size n value)
    (noAssign : ∀ writes pcAfter, e ≠ .complete writes pcAfter)
    (registers : cpu'.registers = advance (delayedLoad cpu.registers 0 0)
      (cpu.registers nextPCReg + 4)) :
    Did ops cpu cpu' [] 0 0 := by
  refine ⟨⟨_, registers⟩, by simp, by decide, fun n v => ?_, fun n v ne => ?_⟩
  · exact iff_of_false (not_assigns asks noAssign) (by simp)
  · exact iff_of_false (not_loads asks fun addr size value => noLoad addr size n value)
      fun zero => ne zero.1

/-- **All a completed instruction does.** -/
theorem completed_spec (done : oneInstruction ops cpu = .ok (.completed cpu')) :
    ∃ writes target value, Did ops cpu cpu' writes target value := by
  obtain ⟨result, fetched, rest⟩ := bind_eq_ok.mp done
  cases result with
  | exception which => cases rest
  | value raw m =>
      have asks : Asks ops cpu (execute (decode raw) cpu.registers) m := ⟨raw, fetched, rfl⟩
      have proper := asks.proper
      have ran : perform ops cpu.registers m (execute (decode raw) cpu.registers) =
          .ok (.completed cpu') := rest
      generalize execute (decode raw) cpu.registers = e at asks proper ran
      cases e with
      | complete writes pcAfter =>
          cases ran
          refine ⟨writes, 0, 0, ⟨pcAfter, rfl⟩, proper, by decide, fun n v => ⟨?_, ?_⟩,
            fun n v ne => ?_⟩
          · rintro ⟨writes', pcAfter', m', asks', member, value⟩
            obtain ⟨same, -⟩ := asks.unique asks'
            cases same
            exact ⟨member, value⟩
          · rintro ⟨member, value⟩
            exact ⟨writes, pcAfter, m, asks, member, value⟩
          · refine iff_of_false (not_loads asks fun addr size value same => ?_) fun zero =>
              ne zero.1
            cases same
      | load addr size rt f =>
          obtain ⟨result, read, ran⟩ := bind_eq_ok.mp ran
          cases result with
          | exception which => cases ran
          | value w m' =>
              cases ran
              refine ⟨[], rt, f w,
                ⟨_, rfl⟩, by simp, proper.2, fun n v => ?_, fun n v ne => ⟨?_, ?_⟩⟩
              · refine iff_of_false (not_assigns asks fun writes pcAfter same => ?_) (by simp)
                cases same
              · rintro ⟨addr', size', f', m'', w', m₃, asks', read', value⟩
                obtain ⟨same, rfl⟩ := asks.unique asks'
                cases same
                rw [read] at read'
                cases read'
                exact ⟨rfl, value⟩
              · rintro ⟨rfl, rfl⟩
                exact ⟨addr, size, f, m, w, m', asks, read, rfl⟩
      | store addr size value =>
          obtain ⟨result, -, ran⟩ := bind_eq_ok.mp ran
          cases result with
          | exception which => cases ran
          | value w m' =>
              cases ran
              refine ⟨[], 0, 0, did_nothing asks ?_ ?_ rfl⟩
              · rintro _ _ _ _ ⟨⟩
              · rintro _ _ ⟨⟩
      | modify addr value =>
          obtain ⟨result, -, ran⟩ := bind_eq_ok.mp ran
          cases result with
          | exception which => cases ran
          | value w m' =>
              obtain ⟨result', -, ran⟩ := bind_eq_ok.mp ran
              cases result' with
              | exception which => cases ran
              | value w m'' =>
                  cases ran
                  refine ⟨[], 0, 0, did_nothing asks ?_ ?_ rfl⟩
                  · rintro _ _ _ _ ⟨⟩
                  · rintro _ _ ⟨⟩
      | raise which badVAddr => cases ran
      | stop why => cases ran

namespace Did

variable {writes : List (Nat × Word)} {target : Nat} {value : Word}

/-- What is pending after the instruction. -/
theorem pending (did : Did ops cpu cpu' writes target value) :
    (cpu'.registers loadReg).toNat = target ∧ cpu'.registers loadValueReg = value := by
  obtain ⟨pcAfter, registers⟩ := did.registers
  have low := did.general
  simp only [numGPRegs] at low
  rw [registers, advance_apply _ _ (Or.inr (by decide)), advance_apply _ _ (Or.inr (by decide)),
    delayedLoad_apply, delayedLoad_apply]
  refine ⟨?_, rfl⟩
  show (BitVec.ofNat 32 target).toNat = target
  rw [BitVec.toNat_ofNat, Nat.mod_eq_of_lt (by omega)]

/-- **A general register after the instruction.** -/
theorem general_apply (did : Did ops cpu cpu' writes target value) (low : n < numGPRegs)
    (ne : n ≠ 0) :
    cpu'.registers n =
      if n = (cpu.registers loadReg).toNat then cpu.registers loadValueReg
      else assignAll cpu.registers writes n := by
  obtain ⟨pcAfter, registers⟩ := did.registers
  rw [registers, complete_apply did.proper _ _ _ (Nat.lt_of_lt_of_le low (by decide)), if_neg ne]

end Did

/-- The machine at the end of a turn, or at the call of the handler. -/
def Turn.after : Turn μ → Cpu μ
  | .completed cpu => cpu
  | .trapped _ cpu => cpu

/-- A general register the instruction does not assign, whether it completes or traps. -/
theorem unassigned_apply {turn : Turn μ} (done : oneInstruction ops cpu = .ok turn)
    (low : n < numGPRegs) (ne : n ≠ 0) (none_ : ∀ u, ¬ Assigns ops cpu n u) :
    turn.after.registers n =
      if n = (cpu.registers loadReg).toNat then cpu.registers loadValueReg
        else cpu.registers n := by
  cases turn with
  | completed cpu' =>
      obtain ⟨writes, target, value, did⟩ := completed_spec done
      have unwritten : n ∉ writes.map Prod.fst :=
        fun member => none_ _ ((did.assigns n _).mpr ⟨member, rfl⟩)
      calc cpu'.registers n
          = if n = (cpu.registers loadReg).toNat then cpu.registers loadValueReg
            else assignAll cpu.registers writes n := did.general_apply low ne
        _ = _ := by rw [assignAll_of_notMem unwritten]
  | trapped which cpu' =>
      obtain ⟨r', m', same, -⟩ | ⟨which', a, m', same⟩ := oneInstruction_registers done
      · cases same
      · cases same
        have below : n ≤ prevPCReg := Nat.le_of_lt (Nat.lt_of_lt_of_le low (by decide))
        exact (trapRegisters_apply cpu.registers a below).trans (if_neg ne)

/-! ## Two instructions -/

/-- `v` stays in register `n` through the instruction at `cpu`, unless that assigns it. -/
def Survives (ops : MemoryOps μ) (cpu : Cpu μ) (n : Nat) (v : Word) : Prop :=
  ∀ turn, oneInstruction ops cpu = .ok turn → (∀ u, ¬ Assigns ops cpu n u) →
    turn.after.registers n = v

/-- What a program expects where the instruction at `cpu` loads `v` into register `n` and
the one at `cpu₁` follows it. -/
structure ProgramOrder (ops : MemoryOps μ) (cpu cpu₁ cpu₂ : Cpu μ) (n : Nat) (v : Word) : Prop where
  /-- An assignment in the delay slot is the later write. -/
  assigned : ∀ u, Assigns ops cpu₁ n u → cpu₂.registers n = u ∧ Survives ops cpu₂ n u
  /-- So is a second load, once it is done. -/
  reloaded : ∀ u, Loads ops cpu₁ n u → Survives ops cpu₂ n u
  /-- Otherwise the load is done after the delay slot, which saw what was there before. -/
  loaded : (∀ u, ¬ Assigns ops cpu₁ n u) → (∀ u, ¬ Loads ops cpu₁ n u) →
    cpu₂.registers n = v ∧ cpu₁.registers n =
      if n = (cpu.registers loadReg).toNat then cpu.registers loadValueReg else cpu.registers n

variable {cpu₁ cpu₂ : Cpu μ}

/-- A load is pending in the next instruction. -/
theorem loads_pending (first : oneInstruction ops cpu = .ok (.completed cpu₁))
    (load : Loads ops cpu n v) (ne : n ≠ 0) :
    n < numGPRegs ∧ n = (cpu₁.registers loadReg).toNat ∧ cpu₁.registers loadValueReg = v := by
  obtain ⟨writes, target, value, did⟩ := completed_spec first
  obtain ⟨rfl, rfl⟩ := (did.loads n v ne).mp load
  exact ⟨did.general, did.pending.1.symm, did.pending.2⟩

/-- **The pending load is stored last**, whatever the instruction in its delay slot did. -/
theorem pending_wins (second : oneInstruction ops cpu₁ = .ok (.completed cpu₂))
    (low : n < numGPRegs) (ne : n ≠ 0) (pending : n = (cpu₁.registers loadReg).toNat) :
    cpu₂.registers n = cpu₁.registers loadValueReg := by
  obtain ⟨writes, target, value, did⟩ := completed_spec second
  rw [did.general_apply low ne, if_pos pending]

theorem Loads.not_assigns (load : Loads ops cpu n v) (u : Word) : ¬ Assigns ops cpu n u := by
  obtain ⟨addr, size, value, m, w, m', asks, -⟩ := load
  refine Machine.not_assigns asks fun writes pcAfter same => ?_
  cases same

/-- What an instruction leaves survives the next, unless a load of it is still pending. -/
theorem survives_of_not_loads (second : oneInstruction ops cpu₁ = .ok (.completed cpu₂))
    (low : n < numGPRegs) (ne : n ≠ 0) (noLoad : ∀ u, ¬ Loads ops cpu₁ n u) :
    Survives ops cpu₂ n (cpu₂.registers n) := by
  intro turn third none_
  obtain ⟨writes, target, value, did⟩ := completed_spec second
  rw [unassigned_apply third low ne none_, did.pending.1]
  exact if_neg fun same => noLoad value ((did.loads n value ne).mpr ⟨same, rfl⟩)

/-- **When writes keep their order across a load delay.**  Two completed instructions in
sequence, the first a load into a register: what a program expects holds unless the
second assigns that register a word other than the one that is pending. -/
theorem program_order_iff (first : oneInstruction ops cpu = .ok (.completed cpu₁))
    (second : oneInstruction ops cpu₁ = .ok (.completed cpu₂)) (load : Loads ops cpu n v)
    (ne : n ≠ 0) :
    ProgramOrder ops cpu cpu₁ cpu₂ n v ↔
      ∀ u, Assigns ops cpu₁ n u → u = cpu₁.registers loadValueReg := by
  obtain ⟨low, pending, value⟩ := loads_pending first load ne
  have last := pending_wins second low ne pending
  constructor
  · intro order u assigns
    rw [← (order.assigned u assigns).1, last]
  · intro same
    refine ⟨fun u assigns => ?_, fun u again => ?_, fun _ _ => ⟨last.trans value, ?_⟩⟩
    · have here : cpu₂.registers n = u := last.trans (same u assigns).symm
      refine ⟨here, here ▸ survives_of_not_loads second low ne fun w loads => ?_⟩
      exact loads.not_assigns u assigns
    · intro turn third none_
      obtain ⟨-, pending₂, value₂⟩ := loads_pending second again ne
      rw [unassigned_apply third low ne none_, if_pos pending₂, value₂]
    · exact unassigned_apply first low ne load.not_assigns

end LoadDelay

/-! ## A load and an addition -/

/-- `lw r1, 12(r0)`, then `second`; the word loaded is 42. -/
def loading (second : Word) : Cpu Vm := ⟨initRegisters 1, holding [0x8c01000c, second, 0, 42]⟩

/-- `addu r3, r2, r2` in the delay slot keeps out of the way. -/
theorem program_order_addu :
    ∃ cpu₁ cpu₂, oneInstruction (vmOps oneFrame) (loading 0x421821) = .ok (.completed cpu₁) ∧
      oneInstruction (vmOps oneFrame) cpu₁ = .ok (.completed cpu₂) ∧
      ProgramOrder (vmOps oneFrame) (loading 0x421821) cpu₁ cpu₂ 1 42 := by
  have loads : Loads (vmOps oneFrame) (loading 0x421821) 1 42 :=
    ⟨12, 4, fun value => value, _, 42, _, ⟨0x8c01000c, rfl, rfl⟩, rfl, rfl⟩
  refine ⟨_, _, rfl, rfl, (program_order_iff rfl rfl loads (by decide)).mpr ?_⟩
  rintro u ⟨writes, pcAfter, m, asks, member, -⟩
  have addu : writes = [(3, 0)] := by
    obtain ⟨raw, fetched, asked⟩ := asks
    cases fetched
    cases asked
    rfl
  rw [addu] at member
  exact absurd member (by decide)

/-- `addiu r1, r0, 5` in the delay slot: `r1` ends up with the 42 loaded before it. -/
theorem delay_slot_overwritten :
    ∃ cpu₁ cpu₂, oneInstruction (vmOps oneFrame) (loading 0x24010005) = .ok (.completed cpu₁) ∧
      oneInstruction (vmOps oneFrame) cpu₁ = .ok (.completed cpu₂) ∧
      Loads (vmOps oneFrame) (loading 0x24010005) 1 42 ∧ Assigns (vmOps oneFrame) cpu₁ 1 5 ∧
      cpu₂.registers 1 = 42 ∧
      ¬ ProgramOrder (vmOps oneFrame) (loading 0x24010005) cpu₁ cpu₂ 1 42 := by
  have loads : Loads (vmOps oneFrame) (loading 0x24010005) 1 42 :=
    ⟨12, 4, fun value => value, _, 42, _, ⟨0x8c01000c, rfl, rfl⟩, rfl, rfl⟩
  refine ⟨_, _, rfl, rfl, loads, ?_, rfl, ?_⟩
  · exact ⟨[(1, 5)], _, _, ⟨0x24010005, rfl, rfl⟩, by decide, rfl⟩
  · intro order
    have assigned := order.assigned 5 ⟨[(1, 5)], _, _, ⟨0x24010005, rfl, rfl⟩, by decide, rfl⟩
    exact absurd assigned.1 (by decide)

end Nachos.Machine
