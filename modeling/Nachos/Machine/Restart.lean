/-
# Nachos.Machine.Restart -- an instruction that faults can be taken again

`RaiseException` finishes the pending delayed load before it calls the handler, so
the second try at an instruction runs with the load done (`flush`), where the first
ran with it pending.  `Retried r r'` says that `r'` is `r`, perhaps flushed, and
perhaps with another `BadVAddrReg`.

An instruction that neither reads nor assigns the target of the pending load
(`DelayOk`) cannot tell the two apart: it asks for the same (`Retried.execute`) and
leaves the same registers (`Retried.complete`).  `reads` is the table of what each
opcode reads; what it assigns is read off its `Effect`.
-/
import Nachos.Machine.MipsSim

namespace Nachos.Machine

open Nachos.Lib.Bytes

set_option autoImplicit false

/-! ## What an instruction reads and assigns -/

/-- The registers the `case` of an opcode reads, the program counters apart. -/
def Instruction.reads (i : Instruction) : List Nat :=
  match i.opCode with
  | .add | .addu | .and | .beq | .bne | .div | .divu | .mult | .multu | .nor | .sb | .sh
  | .sllv | .slt | .sltu | .srav | .srlv | .sub | .subu | .sw | .swl | .swr | .xor
  | .lwl | .lwr => [i.rs, i.rt]
  | .addi | .addiu | .andi | .bgez | .bgezal | .bgtz | .blez | .bltz | .bltzal | .jalr | .jr
  | .lb | .lbu | .lh | .lhu | .lw | .mthi | .mtlo | .or | .ori | .slti | .sltiu | .xori => [i.rs]
  | .sll | .sra | .srl => [i.rt]
  | .mfhi => [hiReg]
  | .mflo => [loReg]
  | .j | .jal | .lui | .rfe | .syscall | .unimp | .res => []

/-- The registers an effect assigns at once.  The target of a load is not among
them: it is assigned one instruction later. -/
def Effect.writes : Effect → List Nat
  | .complete writes _ => writes.map Prod.fst
  | _ => []

/-- The access an effect makes to memory. -/
def Effect.access : Effect → Option (Word × Nat)
  | .load addr size _ _ => some (addr, size)
  | .store addr size _ => some (addr, size)
  | .modify addr _ => some (addr, 4)
  | _ => none

/-- No load is pending, or the instruction neither reads nor assigns its target. -/
def DelayOk (i : Instruction) (r : Registers) : Prop :=
  (r loadReg = 0 ∧ r loadValueReg = 0) ∨
    ((r loadReg).toNat ∉ i.reads ∧ (r loadReg).toNat ∉ (execute i r).writes)

/-- The fields of a decoded instruction name general registers. -/
structure Instruction.Fields (i : Instruction) : Prop where
  rs : i.rs < numGPRegs
  rt : i.rt < numGPRegs
  rd : i.rd < numGPRegs

theorem decode_fields (value : Word) : (decode value).Fields := by
  have small : ∀ x : Word, (x &&& 0x1f#32).toNat < numGPRegs := by
    intro x
    rw [BitVec.toNat_and]
    exact Nat.lt_of_le_of_lt Nat.and_le_right (by decide)
  exact ⟨small _, small _, small _⟩

/-- An effect assigns no register of the delayed load, its accesses have a size the
memory knows, and page faults come from the memory alone. -/
def Effect.Proper : Effect → Prop
  | .complete writes _ => ∀ w ∈ writes, w.1 < pcReg
  | .load _ size rt _ => (size = 1 ∨ size = 2 ∨ size = 4) ∧ rt < numGPRegs
  | .store _ size _ => size = 1 ∨ size = 2 ∨ size = 4
  | .raise which _ => which ≠ .pageFaultException
  | _ => True

theorem execute_proper {i : Instruction} (fields : i.Fields) (r : Registers) :
    (execute i r).Proper := by
  obtain ⟨rs, rt, rd⟩ := fields
  simp only [numGPRegs] at rs rt rd
  have rt' : i.rt < 34 := by omega
  have rd' : i.rd < 34 := by omega
  unfold execute
  cases i.opCode <;> simp only [] <;> (try split) <;> (try split) <;>
    simp [Effect.Proper, rt, rt', rd', hiReg, loReg, r31, pcReg, numGPRegs]

/-! ## Registers -/

section Registers

variable {r r' : Registers} {n : Nat}

/-- Finish the pending load. -/
def flush (r : Registers) : Registers := delayedLoad r 0 0

theorem delayedLoad_apply (nextReg : Nat) (nextValue : Word) (n : Nat) :
    delayedLoad r nextReg nextValue n =
      if n = 0 then 0
      else if n = loadValueReg then nextValue
      else if n = loadReg then BitVec.ofNat 32 nextReg
      else if n = (r loadReg).toNat then r loadValueReg
      else r n := by
  unfold delayedLoad Registers.set
  simp only [Function.update_apply]

/-- The registers agree, `BadVAddrReg` apart. -/
def Same (r r' : Registers) : Prop := ∀ n, n ≠ badVAddrReg → r' n = r n

/-- What holds of the registers between two instructions. -/
structure Sane (r : Registers) : Prop where
  zero : r 0 = 0
  target : (r loadReg).toNat < numGPRegs

theorem Same.refl (r : Registers) : Same r r := fun _ _ => rfl

theorem Same.trans {r'' : Registers} (first : Same r r') (second : Same r' r'') : Same r r'' :=
  fun n ne => (second n ne).trans (first n ne)

theorem Same.set (same : Same r r') (n : Nat) (value : Word) :
    Same (r.set n value) (r'.set n value) := by
  intro m ne
  unfold Registers.set
  simp only [Function.update_apply, same m ne]

/-- Assigning `BadVAddrReg` is not seen. -/
theorem same_badVAddr (r : Registers) (value : Word) : Same r (r.set badVAddrReg value) := by
  intro n ne
  exact Function.update_of_ne ne _ _

theorem Same.delayedLoad (same : Same r r') (nextReg : Nat) (nextValue : Word) :
    Same (delayedLoad r nextReg nextValue) (delayedLoad r' nextReg nextValue) := by
  intro n ne
  rw [delayedLoad_apply, delayedLoad_apply, same n ne, same loadReg (by decide),
    same loadValueReg (by decide)]

theorem Same.trap (same : Same r r') (badVAddr : Word) :
    Same (trapRegisters r badVAddr) (trapRegisters r' badVAddr) :=
  (same.set badVAddrReg badVAddr).delayedLoad 0 0

theorem Same.advance (same : Same r r') (pcAfter : Word) :
    Same (advance r pcAfter) (advance r' pcAfter) := by
  have pcs := same.set prevPCReg (r pcReg)
  unfold Machine.advance
  simp only [same pcReg (by decide)]
  have next := pcs nextPCReg (by decide)
  simp only [next]
  exact (pcs.set pcReg _).set nextPCReg pcAfter

theorem Same.assignAll (same : Same r r') (writes : List (Nat × Word)) :
    Same (assignAll r writes) (assignAll r' writes) := by
  induction writes generalizing r r' with
  | nil => exact same
  | cons w writes ih => exact ih (same.set w.1 w.2)

theorem assignAll_of_notMem {writes : List (Nat × Word)} (unassigned : n ∉ writes.map Prod.fst) :
    assignAll r writes n = r n := by
  induction writes generalizing r with
  | nil => rfl
  | cons w writes ih =>
      simp only [List.map_cons, List.mem_cons, not_or] at unassigned
      exact (ih unassigned.2).trans (Function.update_of_ne unassigned.1 _ _)

/-- An instruction does not assign the special registers. -/
theorem notMem_of_proper {writes : List (Nat × Word)} (proper : ∀ w ∈ writes, w.1 < pcReg)
    (high : pcReg ≤ n) : n ∉ writes.map Prod.fst := by
  intro member
  obtain ⟨w, mem, rfl⟩ := List.mem_map.mp member
  have := proper w mem
  omega

theorem assignAll_congr (writes : List (Nat × Word)) (here : r' n = r n) :
    assignAll r' writes n = assignAll r writes n := by
  induction writes generalizing r r' with
  | nil => exact here
  | cons w writes ih =>
      apply ih
      unfold Registers.set
      simp only [Function.update_apply, here]

/-! ## The pending load -/

theorem flush_of_none (sane : Sane r) (none_ : r loadReg = 0 ∧ r loadValueReg = 0) :
    flush r = r := by
  funext n
  rw [flush, delayedLoad_apply, none_.1, none_.2]
  split
  · rename_i here
    rw [here, sane.zero]
  · split
    · rename_i here
      rw [here, none_.2]
    · split
      · rename_i here
        rw [here, none_.1]
        rfl
      · rw [if_neg (by assumption)]

theorem flush_flush (r : Registers) : flush (flush r) = flush r := by
  funext n
  rw [flush, delayedLoad_apply]
  have load : flush r loadReg = 0 := delayedLoad_apply 0 0 loadReg
  have value : flush r loadValueReg = 0 := delayedLoad_apply 0 0 loadValueReg
  have zero : flush r 0 = 0 := delayedLoad_apply 0 0 0
  rw [load, value]
  split
  · rename_i here
    rw [here, zero]
  · split
    · rename_i here
      rw [here, value]
    · split
      · rename_i here
        rw [here, load]
        rfl
      · rw [if_neg (by assumption)]

/-- The flushed registers differ only where the pending load goes. -/
theorem flush_other (sane : Sane r) (low : n < loadReg) (ne : n ≠ (r loadReg).toNat) :
    flush r n = r n := by
  simp only [loadReg] at low
  have notLoad : n ≠ loadReg := by
    simp only [loadReg]
    omega
  have notValue : n ≠ loadValueReg := by
    simp only [loadValueReg]
    omega
  rw [flush, delayedLoad_apply]
  split
  · rename_i here
    rw [here, sane.zero]
  · rfl

/-- `r'` is `r` in the middle of an instruction that may have faulted before. -/
def Retried (r r' : Registers) : Prop := Same r r' ∨ Same (flush r) r'

theorem Retried.trap (retried : Retried r r') (badVAddr : Word) :
    Same (flush r) (trapRegisters r' badVAddr) := by
  have bad := same_badVAddr r' badVAddr
  rcases retried with same | same
  · exact (same.trans bad).delayedLoad 0 0
  · have := (same.trans bad).delayedLoad 0 0
    rwa [show delayedLoad (flush r) 0 0 = flush r from flush_flush r] at this

/-- The pending load has no part in a special register. -/
theorem Retried.special (retried : Retried r r') (sane : Sane r) (high : numGPRegs ≤ n)
    (low : n < loadReg) : r' n = r n := by
  have notBad : n ≠ badVAddrReg := by
    simp only [loadReg, badVAddrReg] at low ⊢
    omega
  have target := sane.target
  rcases retried with same | same
  · exact same n notBad
  · rw [same n notBad]
    exact flush_other sane low (by omega)

theorem Retried.target (retried : Retried r r') (sane : Sane r) :
    (r' loadReg).toNat < numGPRegs := by
  rcases retried with same | same
  · rw [same loadReg (by decide)]
    exact sane.target
  · rw [same loadReg (by decide), show flush r loadReg = 0 from delayedLoad_apply 0 0 loadReg]
    decide

theorem trapRegisters_badVAddr (a : Word) (low : (r' loadReg).toNat < numGPRegs) :
    trapRegisters r' a badVAddrReg = a := by
  have other : badVAddrReg ≠ ((r'.set badVAddrReg a) loadReg).toNat := by
    rw [same_badVAddr r' a loadReg (by decide)]
    simp only [badVAddrReg, numGPRegs] at low ⊢
    omega
  rw [trapRegisters, delayedLoad_apply, if_neg (by decide), if_neg (by decide), if_neg (by decide),
    if_neg other]
  exact Function.update_self _ _ _

/-- **An instruction that keeps out of the delay slot asks for the same again.** -/
theorem execute_congr {i : Instruction} (reads : ∀ n ∈ i.reads, r' n = r n)
    (next : r' nextPCReg = r nextPCReg)
    (pending : i.opCode = .lwl ∨ i.opCode = .lwr → pendingOr r' i.rt = pendingOr r i.rt) :
    execute i r' = execute i r := by
  have set : ∀ (m : Nat) (value : Word) (n : Nat), r' n = r n →
      r'.set m value n = r.set m value n := by
    intro m value n here
    unfold Registers.set
    simp only [Function.update_apply, here]
  obtain ⟨op, rs, rt, rd, extra⟩ := i
  cases op <;> simp only [Instruction.reads, List.mem_cons, List.not_mem_nil, or_false,
    forall_eq_or_imp, forall_eq] at reads <;> simp [execute, next, reads, set, pending]

theorem reads_lt {i : Instruction} (fields : i.Fields) (read : n ∈ i.reads) : n < pcReg := by
  obtain ⟨rs, rt, -⟩ := fields
  simp only [numGPRegs] at rs rt
  revert read
  unfold Instruction.reads
  cases i.opCode <;> simp only [List.mem_cons, List.not_mem_nil, or_false, false_implies, hiReg,
    loReg, pcReg] <;> omega

theorem Retried.execute {i : Instruction} (retried : Retried r r') (sane : Sane r)
    (fields : i.Fields) (delay : DelayOk i r) : execute i r' = execute i r := by
  -- registers that agree below the special ones are all an instruction looks at
  have unflushed : ∀ {r₁ : Registers}, Same r r₁ → Machine.execute i r₁ = Machine.execute i r := by
    intro r₁ same
    refine execute_congr ?_ (same nextPCReg (by decide)) fun _ => ?_
    · intro n read
      have := reads_lt fields read
      exact same n (by simp only [pcReg, badVAddrReg] at *; omega)
    · have rt := fields.rt
      unfold pendingOr
      rw [same loadReg (by decide), same loadValueReg (by decide),
        same i.rt (by simp only [numGPRegs, badVAddrReg] at *; omega)]
  rcases retried with same | same
  · exact unflushed same
  rcases delay with none_ | ⟨unread, -⟩
  · rw [flush_of_none sane none_] at same
    exact unflushed same
  have other : ∀ n ∈ i.reads, r' n = r n := by
    intro n read
    have low := reads_lt fields read
    rw [same n (by simp only [pcReg, badVAddrReg] at *; omega)]
    refine flush_other sane (by simp only [pcReg, loadReg] at *; omega) ?_
    rintro rfl
    exact unread read
  refine execute_congr other ?_ fun merges => ?_
  · exact Retried.special (Or.inr same) sane (by decide) (by decide)
  · have read : i.rt ∈ i.reads := by
      unfold Instruction.reads
      rcases merges with op | op <;> simp [op]
    have ne : (r loadReg).toNat ≠ i.rt := fun e => unread (e ▸ read)
    have load : r' loadReg = 0 := (same loadReg (by decide)).trans (delayedLoad_apply 0 0 loadReg)
    have value : r' loadValueReg = 0 :=
      (same loadValueReg (by decide)).trans (delayedLoad_apply 0 0 loadValueReg)
    unfold pendingOr
    rw [load, value, if_neg ne, other i.rt read]
    split
    · rename_i zero
      have zero : 0 = i.rt := zero
      rw [← zero, sane.zero]
    · rfl

/-- The load that was finished early is where it would be now. -/
theorem delayedLoad_flush {writes : List (Nat × Word)} (sane : Sane r)
    (proper : ∀ w ∈ writes, w.1 < pcReg)
    (delay : (r loadReg = 0 ∧ r loadValueReg = 0) ∨ (r loadReg).toNat ∉ writes.map Prod.fst)
    (nextReg : Nat) (nextValue : Word) :
    delayedLoad (assignAll (flush r) writes) nextReg nextValue =
      delayedLoad (assignAll r writes) nextReg nextValue := by
  rcases delay with none_ | unassigned
  · rw [flush_of_none sane none_]
  have load := notMem_of_proper proper (show pcReg ≤ loadReg by decide)
  have value := notMem_of_proper proper (show pcReg ≤ loadValueReg by decide)
  funext n
  rw [delayedLoad_apply, delayedLoad_apply, assignAll_of_notMem load, assignAll_of_notMem load,
    assignAll_of_notMem value, assignAll_of_notMem value,
    show flush r loadReg = 0 from delayedLoad_apply 0 0 loadReg,
    show flush r loadValueReg = 0 from delayedLoad_apply 0 0 loadValueReg]
  by_cases zero : n = 0
  · rw [if_pos zero, if_pos zero]
  rw [if_neg zero, if_neg zero]
  by_cases isValue : n = loadValueReg
  · rw [if_pos isValue, if_pos isValue]
  rw [if_neg isValue, if_neg isValue]
  by_cases isLoad : n = loadReg
  · rw [if_pos isLoad, if_pos isLoad]
  rw [if_neg isLoad, if_neg isLoad, if_neg (show n ≠ (0 : Word).toNat from zero)]
  by_cases target : n = (r loadReg).toNat
  · rw [if_pos target, assignAll_of_notMem (target ▸ unassigned), flush, delayedLoad_apply,
      if_neg zero, if_neg isValue, if_neg isLoad, if_pos target]
  · rw [if_neg target]
    apply assignAll_congr
    rw [flush, delayedLoad_apply, if_neg zero, if_neg isValue, if_neg isLoad, if_neg target]

/-- **It leaves the same registers**, whatever load it starts itself. -/
theorem Retried.complete {writes : List (Nat × Word)} (retried : Retried r r') (sane : Sane r)
    (proper : ∀ w ∈ writes, w.1 < pcReg)
    (delay : (r loadReg = 0 ∧ r loadValueReg = 0) ∨ (r loadReg).toNat ∉ writes.map Prod.fst)
    (nextReg : Nat) (nextValue pcAfter : Word) :
    Same (advance (delayedLoad (assignAll r writes) nextReg nextValue) pcAfter)
      (advance (delayedLoad (assignAll r' writes) nextReg nextValue) pcAfter) := by
  rcases retried with same | same
  · exact ((same.assignAll writes).delayedLoad _ _).advance _
  · rw [← delayedLoad_flush sane proper delay]
    exact ((same.assignAll writes).delayedLoad _ _).advance _

/-- Away from the program counters. -/
theorem advance_apply (r : Registers) (pcAfter : Word) (other : n < pcReg ∨ prevPCReg < n) :
    advance r pcAfter n = r n := by
  simp only [pcReg, prevPCReg] at other
  unfold advance Registers.set
  simp only [Function.update_apply]
  rw [if_neg (by simp only [nextPCReg]; omega), if_neg (by simp only [pcReg]; omega),
    if_neg (by simp only [prevPCReg]; omega)]

/-- **A register after an instruction that completes**: the load that was pending comes last. -/
theorem complete_apply {writes : List (Nat × Word)} (proper : ∀ w ∈ writes, w.1 < pcReg)
    (nextReg : Nat) (nextValue pcAfter : Word) (low : n < pcReg) :
    advance (delayedLoad (assignAll r writes) nextReg nextValue) pcAfter n =
      if n = 0 then 0
      else if n = (r loadReg).toNat then r loadValueReg
      else assignAll r writes n := by
  have load := notMem_of_proper proper (show pcReg ≤ loadReg by decide)
  have value := notMem_of_proper proper (show pcReg ≤ loadValueReg by decide)
  rw [advance_apply _ _ (Or.inl low), delayedLoad_apply, assignAll_of_notMem load,
    assignAll_of_notMem value]
  simp only [pcReg] at low
  rw [if_neg (show n ≠ loadValueReg by simp only [loadValueReg]; omega),
    if_neg (show n ≠ loadReg by simp only [loadReg]; omega)]

/-- A completed instruction leaves sane registers. -/
theorem sane_complete (nextReg : Nat) (low : nextReg < numGPRegs) (nextValue pcAfter : Word) :
    Sane (advance (delayedLoad r nextReg nextValue) pcAfter) := by
  refine ⟨?_, ?_⟩
  · rw [advance_apply _ _ (Or.inl (by decide))]
    exact delayedLoad_apply _ _ 0
  · rw [advance_apply _ _ (Or.inr (by decide)), delayedLoad_apply]
    show (BitVec.ofNat 32 nextReg).toNat < _
    rw [BitVec.toNat_ofNat]
    exact lt_of_le_of_lt (Nat.mod_le _ _) low

theorem initRegisters_sane (numPages : Nat) : Sane (initRegisters numPages) := by
  have idle : initRegisters numPages loadReg = 0 := rfl
  refine ⟨rfl, ?_⟩
  rw [idle]
  decide

end Registers

/-! ## The registers after `OneInstruction` -/

section OneInstruction

variable {μ : Type} {ops : MemoryOps μ} {cpu cpu' : Cpu μ} {r : Registers} {m : μ} {e : Effect}

/-- The registers a completed instruction leaves. -/
def Completes (r r' : Registers) : Prop :=
  ∃ writes nextReg nextValue pcAfter, (∀ w ∈ writes, w.1 < pcReg) ∧ nextReg < numGPRegs ∧
    r' = advance (delayedLoad (assignAll r writes) nextReg nextValue) pcAfter

theorem completes_idle (r : Registers) {nextReg : Nat} (low : nextReg < numGPRegs)
    (nextValue pcAfter : Word) :
    Completes r (advance (delayedLoad r nextReg nextValue) pcAfter) :=
  ⟨[], nextReg, nextValue, pcAfter, by simp, low, rfl⟩

/-- Doing what a proper effect asks for completes the instruction or raises. -/
theorem perform_registers {turn : Turn μ} (proper : e.Proper)
    (done : perform ops r m e = .ok turn) :
    (∃ r' m', turn = .completed ⟨r', m'⟩ ∧ Completes r r') ∨
      ∃ which a m', turn = .trapped which ⟨trapRegisters r a, m'⟩ := by
  cases e with
  | complete writes pcAfter =>
      cases done
      exact Or.inl ⟨_, _, rfl, writes, 0, 0, pcAfter, proper, by decide, rfl⟩
  | load addr size rt value =>
      obtain ⟨result, -, rest⟩ := bind_eq_ok.mp done
      cases result with
      | exception which =>
          cases rest
          exact Or.inr ⟨which, addr, m, rfl⟩
      | value v m' =>
          cases rest
          exact Or.inl ⟨_, _, rfl, completes_idle r proper.2 _ _⟩
  | store addr size value =>
      obtain ⟨result, -, rest⟩ := bind_eq_ok.mp done
      cases result with
      | exception which =>
          cases rest
          exact Or.inr ⟨which, addr, m, rfl⟩
      | value v m' =>
          cases rest
          exact Or.inl ⟨_, _, rfl, completes_idle r (by decide) _ _⟩
  | modify addr value =>
      obtain ⟨result, -, rest⟩ := bind_eq_ok.mp done
      cases result with
      | exception which =>
          cases rest
          exact Or.inr ⟨which, addr, m, rfl⟩
      | value v m' =>
          obtain ⟨result', -, rest⟩ := bind_eq_ok.mp rest
          cases result' with
          | exception which =>
              cases rest
              exact Or.inr ⟨which, addr, m', rfl⟩
          | value v m'' =>
              cases rest
              exact Or.inl ⟨_, _, rfl, completes_idle r (by decide) _ _⟩
  | raise which badVAddr =>
      cases done
      exact Or.inr ⟨which, badVAddr, m, rfl⟩
  | stop why => cases done

/-- **Everything `OneInstruction` can do to the registers.** -/
theorem oneInstruction_registers {turn : Turn μ} (done : oneInstruction ops cpu = .ok turn) :
    (∃ r' m', turn = .completed ⟨r', m'⟩ ∧ Completes cpu.registers r') ∨
      ∃ which a m', turn = .trapped which ⟨trapRegisters cpu.registers a, m'⟩ := by
  obtain ⟨result, -, rest⟩ := bind_eq_ok.mp done
  cases result with
  | exception which =>
      cases rest
      exact Or.inr ⟨which, _, _, rfl⟩
  | value raw m' => exact perform_registers (execute_proper (decode_fields raw) _) rest

/-- The step of the program counters: what was next is now. -/
theorem Completes.pc {r' : Registers} (completes : Completes r r')
    (target : (r loadReg).toNat < numGPRegs) : r' pcReg = r nextPCReg := by
  obtain ⟨writes, nextReg, nextValue, pcAfter, proper, -, rfl⟩ := completes
  have other : nextPCReg ≠ (assignAll r writes loadReg).toNat := by
    rw [assignAll_of_notMem (notMem_of_proper proper (by decide))]
    simp only [nextPCReg, numGPRegs] at target ⊢
    omega
  calc advance (delayedLoad (assignAll r writes) nextReg nextValue) pcAfter pcReg
      = delayedLoad (assignAll r writes) nextReg nextValue nextPCReg := rfl
    _ = assignAll r writes nextPCReg := by
        rw [delayedLoad_apply, if_neg (by decide), if_neg (by decide), if_neg (by decide),
          if_neg other]
    _ = r nextPCReg := assignAll_of_notMem (notMem_of_proper proper (by decide))

theorem Completes.sane {r' : Registers} (completes : Completes r r') : Sane r' := by
  obtain ⟨writes, nextReg, nextValue, pcAfter, -, low, rfl⟩ := completes
  exact sane_complete nextReg low nextValue pcAfter

end OneInstruction

end Nachos.Machine
