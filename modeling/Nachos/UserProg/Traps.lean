/-
# Nachos.UserProg.Traps -- instructions and exceptions that stop nothing

One instruction of one process on its own memory, and the exception it may raise.
`Fit` is what is known of the memory of a process between two instructions.  On such a
memory a load or a store never stops the machine: it completes, or it raises an address
error or a page fault (`readMem_total`, `writeMem_total`).

`Backed` and `Harmless` are the conditions under which the rest does not stop the kernel
either: a page fault has a frame and a page to bring in, and the instruction is none of
those at which the simulator gives up (`RFE`, an unaligned partial access, the division
whose quotient does not fit).
-/
import Nachos.UserProg.Processes

namespace Nachos.UserProg

open Nachos.Lib.Bytes
open Nachos.Machine

set_option autoImplicit false

/-! ## Conditions -/

/-- The memory of a process between two instructions. -/
structure Fit (c : Config) (others : Nat → Prop) (s : Vm) : Prop where
  owns : Owns c others s
  numbered : AllNumbered s.toAddrSpace
  small : s.numPages < 2 ^ 25

/-- A fault at this address can be served: its page is found by the handler, there is a
frame to be had, and the page can be brought in. -/
structure CanServe (c : Config) (s : Vm) (addr : Word) : Prop where
  nonneg : 0 ≤ addr.toInt
  frame : FrameFree c s.toCore ∨ HandInside s.toAddrSpace ∧ HasResident s.toAddrSpace
  page : Servable s (addr.toNat / pageSize)

/-- The access raises a page fault. -/
structure PageFaults (s : Vm) (addr : Word) (size : Nat) : Prop where
  aligned : Aligned addr size
  inside : addr.toNat / pageSize < s.numPages
  invalid : (s.pageTable (addr.toNat / pageSize)).valid = false

/-- If the access raises a page fault, it can be served. -/
def Backed (c : Config) (s : Vm) (addr : Word) (size : Nat) : Prop :=
  PageFaults s addr size → CanServe c s addr

/-- The address and the size of the access an instruction makes. -/
def accessOf (i : Instruction) (r : Registers) : Option (Word × Nat) :=
  let tmp := r i.rs + i.extra
  match i.opCode with
  | .lb => some (tmp, 1)
  | .lbu => some (tmp, 1)
  | .sb => some (tmp, 1)
  | .lh => some (tmp, 2)
  | .lhu => some (tmp, 2)
  | .sh => some (tmp, 2)
  | .lw => some (tmp, 4)
  | .lwl => some (tmp, 4)
  | .lwr => some (tmp, 4)
  | .sw => some (tmp, 4)
  | .swl => some (tmp &&& ~~~3#32, 4)
  | .swr => some (tmp &&& ~~~3#32, 4)
  | _ => none

/-- The instruction is not one the simulator stops at. -/
def Harmless (i : Instruction) (r : Registers) : Prop :=
  i.opCode ≠ .rfe ∧
    (i.opCode ∈ [.lwl, .lwr, .swl, .swr] → (r i.rs + i.extra) &&& 3#32 = 0#32) ∧
    (i.opCode = .div → ¬ ((r i.rs).toInt = -2 ^ 31 ∧ (r i.rt).toInt = -1))

/-- The instruction at `PCReg`, and the page faults it takes, give the kernel no trouble. -/
structure Tame (c : Config) (r : Registers) (s : Vm) : Prop where
  fetch : Backed c s (r pcReg) 4
  body : ∀ raw s', s.readMem c (r pcReg) 4 = .ok (.value raw s') → Harmless (decode raw) r ∧
    ∀ access, accessOf (decode raw) r = some access → Backed c s access.1 access.2

/-- The program is at a `SYSCALL`. -/
def AtSyscall (c : Config) (r : Registers) (s : Vm) : Prop :=
  ∃ raw s', s.readMem c (r pcReg) 4 = .ok (.value raw s') ∧ (decode raw).opCode = .syscall

/-- The exceptions of an access. -/
def Excepts (s : Vm) (addr : Word) (size : Nat) (which : ExceptionType) : Prop :=
  which = .addressErrorException ∨ which = .pageFaultException ∧ PageFaults s addr size

/-- An exception the handler gets through, system calls apart. -/
def Survivable (c : Config) (s : Vm) (addr : Word) : ExceptionType → Prop
  | .noException => False
  | .syscallException => False
  | .pageFaultException => addr.toNat / pageSize < s.numPages ∧
      (s.pageTable (addr.toNat / pageSize)).valid = false ∧ CanServe c s addr
  | _ => True

/-! ## The conditions are decidable -/

section Decidable

variable (c : Config) (s : Vm) (addr : Word) (size : Nat) (i : Instruction) (r : Registers)

instance decidableForallSome {α : Type} (o : Option α) (P : α → Prop) [∀ a, Decidable (P a)] :
    Decidable (∀ a, o = some a → P a) :=
  match o with
  | none => isTrue (by simp)
  | some a => decidable_of_iff (P a) (by simp)

/-- A condition on the header of an executable. -/
instance decidableExistsOk {α : Type} (x : Except Stop α) (P : α → Prop) [∀ a, Decidable (P a)] :
    Decidable (∃ a, x = .ok a ∧ P a) :=
  match x with
  | .error _ => isFalse (by simp)
  | .ok a => decidable_of_iff (P a) (by simp)

/-- A condition on the word an access reads. -/
instance decidableForallValue (x : Except Stop (Result Vm Word)) (P : Word → Prop)
    [∀ raw, Decidable (P raw)] :
    Decidable (∀ raw s', x = .ok (.value raw s') → P raw) :=
  match x with
  | .error _ => isTrue (by simp)
  | .ok (.exception _) => isTrue (by simp)
  | .ok (.value raw s') => decidable_of_iff (P raw) (by simp)

instance : Decidable (Aligned addr size) :=
  inferInstanceAs (Decidable ((size = 1 ∨ size = 2 ∨ size = 4) ∧ addr.toNat % size = 0))

instance : Decidable (FrameFree c s.toCore) :=
  inferInstanceAs (Decidable (∃ f, f < c.numPhysPages ∧ s.memmanage.allocated f = false))

instance : Decidable (HandInside s.toAddrSpace) :=
  inferInstanceAs (Decidable (0 ≤ s.clockHand ∧ s.clockHand < s.numPages))

instance : Decidable (HasResident s.toAddrSpace) :=
  inferInstanceAs (Decidable (∃ i, i < s.numPages ∧ resident (s.pageTable i) = true))

instance (page : Nat) : Decidable (Servable s page) :=
  inferInstanceAs (Decidable (0 ≤ (s.pageTable page).physicalPage ∨
    ∃ noffH, readHeader s.fileSystem s.storedExecutable = .ok noffH ∧
      Loadable noffH (pageAddr page)))

instance : Decidable (PageFaults s addr size) :=
  decidable_of_iff (Aligned addr size ∧ addr.toNat / pageSize < s.numPages ∧
      (s.pageTable (addr.toNat / pageSize)).valid = false)
    ⟨fun ⟨aligned, inside, invalid⟩ => ⟨aligned, inside, invalid⟩,
      fun fault => ⟨fault.aligned, fault.inside, fault.invalid⟩⟩

instance : Decidable (CanServe c s addr) :=
  decidable_of_iff (0 ≤ addr.toInt ∧
      (FrameFree c s.toCore ∨ HandInside s.toAddrSpace ∧ HasResident s.toAddrSpace) ∧
      Servable s (addr.toNat / pageSize))
    ⟨fun ⟨nonneg, frame, page⟩ => ⟨nonneg, frame, page⟩,
      fun can => ⟨can.nonneg, can.frame, can.page⟩⟩

instance : Decidable (Backed c s addr size) :=
  inferInstanceAs (Decidable (PageFaults s addr size → CanServe c s addr))

instance : Decidable (Harmless i r) :=
  inferInstanceAs (Decidable (i.opCode ≠ .rfe ∧
    (i.opCode ∈ [.lwl, .lwr, .swl, .swr] → (r i.rs + i.extra) &&& 3#32 = 0#32) ∧
    (i.opCode = .div → ¬ ((r i.rs).toInt = -2 ^ 31 ∧ (r i.rt).toInt = -1))))

instance : Decidable (Tame c r s) :=
  decidable_of_iff (Backed c s (r pcReg) 4 ∧
      ∀ raw s', s.readMem c (r pcReg) 4 = .ok (.value raw s') → Harmless (decode raw) r ∧
        ∀ access, accessOf (decode raw) r = some access → Backed c s access.1 access.2)
    ⟨fun ⟨fetch, body⟩ => ⟨fetch, body⟩, fun tame => ⟨tame.fetch, tame.body⟩⟩

instance : Decidable (AtSyscall c r s) :=
  match read : s.readMem c (r pcReg) 4 with
  | .error _ => isFalse (by simp [AtSyscall, read])
  | .ok (.exception _) => isFalse (by simp [AtSyscall, read])
  | .ok (.value raw s') => decidable_of_iff ((decode raw).opCode = .syscall)
      (by simp [AtSyscall, read])

end Decidable

/-! ## Accesses -/

section Accesses

variable {c : Config} {others : Nat → Prop} {s s' : Vm} {addr : Word} {size : Nat} {i : Nat}
  {w : Bool} {which : ExceptionType}

theorem Fit.touch (fit : Fit c others s) : Fit c others (touched s i w) :=
  ⟨touched_owns fit.owns, touched_numbered fit.numbered, fit.small⟩

theorem Fit.store (fit : Fit c others s) (pos : Nat) (bytes : List Byte) :
    Fit c others (stored s i pos bytes) :=
  ⟨(touched_owns fit.owns).congr rfl rfl (fun _ _ => rfl) (fun _ _ _ => rfl),
    touched_numbered fit.numbered, fit.small⟩

theorem CanServe.touch (can : CanServe c s addr) : CanServe c (touched s i w) addr := by
  have entries := fun j => touched_entries (s := s) (i := i) (w := w) j
  have same : ∀ j, resident ((touched s i w).pageTable j) = resident (s.pageTable j) := by
    intro j
    rw [resident, resident, (entries j).1, (entries j).2]
  refine ⟨can.nonneg, can.frame.imp_right ?_, can.page.imp_left ?_⟩
  · rintro ⟨hand, j, hj, res⟩
    exact ⟨hand, j, hj, (same j).trans res⟩
  · intro loaded
    rw [(entries _).2]
    exact loaded

theorem Backed.touch (backed : Backed c s addr size) : Backed c (touched s i w) addr size := by
  intro fault
  refine (backed ⟨fault.aligned, fault.inside, ?_⟩).touch
  exact (touched_entries _).1.symm.trans fault.invalid

theorem Excepts.survivable (excepts : Excepts s addr size which) (backed : Backed c s addr size) :
    Survivable c s addr which := by
  rcases excepts with rfl | ⟨rfl, fault⟩
  · trivial
  · exact ⟨fault.inside, fault.invalid, backed fault⟩

/-- An access that is not aligned, or outside of the space, is an address error. -/
theorem translate_denied (sizes : size = 1 ∨ size = 2 ∨ size = 4)
    (bad : ¬ (Aligned addr size ∧ addr.toNat / pageSize < s.numPages)) :
    s.translate c addr size w = .ok (.exception .addressErrorException) := by
  unfold Vm.translate
  split
  · rfl
  · rename_i passes
    have aligned := aligned_of_passes sizes passes
    have outside : s.numPages ≤ addr.toNat / pageSize := by
      by_contra inside
      exact bad ⟨aligned, not_le.mp inside⟩
    simp only [if_pos outside]
    rfl

/-- A load completes, or it raises an exception and nothing has changed. -/
theorem readMem_total (fit : Fit c others s) (addr : Word)
    (sizes : size = 1 ∨ size = 2 ∨ size = 4) :
    (Aligned addr size ∧ addr.toNat / pageSize < s.numPages ∧
        (s.pageTable (addr.toNat / pageSize)).valid = true ∧
        ∃ v, s.readMem c addr size = .ok (.value v (touched s (addr.toNat / pageSize) false))) ∨
      ∃ which, s.readMem c addr size = .ok (.exception which) ∧ Excepts s addr size which := by
  by_cases good : Aligned addr size ∧ addr.toNat / pageSize < s.numPages
  · obtain ⟨aligned, inside⟩ := good
    cases valid : (s.pageTable (addr.toNat / pageSize)).valid with
    | true =>
        obtain ⟨f, -, -, read⟩ :=
          readMem_valid fit.owns aligned inside (fit.numbered _ inside) valid
        exact Or.inl ⟨aligned, inside, rfl, _, read⟩
    | false =>
        exact Or.inr ⟨_, readMem_fault aligned inside valid, Or.inr ⟨rfl, aligned, inside, valid⟩⟩
  · refine Or.inr ⟨.addressErrorException, ?_, Or.inl rfl⟩
    rw [Vm.readMem, translate_denied sizes good]
    rfl

theorem writeMem_total (fit : Fit c others s) (addr : Word)
    (sizes : size = 1 ∨ size = 2 ∨ size = 4) (value : Word) :
    (∃ s', s.writeMem c addr size value = .ok (.value () s') ∧ Fit c others s') ∨
      ∃ which, s.writeMem c addr size value = .ok (.exception which) ∧
        Excepts s addr size which := by
  by_cases good : Aligned addr size ∧ addr.toNat / pageSize < s.numPages
  · obtain ⟨aligned, inside⟩ := good
    cases valid : (s.pageTable (addr.toNat / pageSize)).valid with
    | true =>
        obtain ⟨f, -, -, wrote⟩ :=
          writeMem_valid fit.owns aligned inside (fit.numbered _ inside) valid value
        exact Or.inl ⟨_, wrote, fit.store _ _⟩
    | false =>
        exact Or.inr ⟨_, writeMem_fault aligned inside valid value,
          Or.inr ⟨rfl, aligned, inside, valid⟩⟩
  · refine Or.inr ⟨.addressErrorException, ?_, Or.inl rfl⟩
    rw [Vm.writeMem, translate_denied sizes good]
    rfl

end Accesses

/-! ## The handler -/

section Handler

variable {c : Config} {others : Nat → Prop} {s s' : Vm} {addr : Word} {which : ExceptionType}
  {r : Registers}

/-- A page fault that can be served is served, and the page is there. -/
theorem pageFault_total (fit : Fit c others s) (inside : addr.toNat / pageSize < s.numPages)
    (invalid : (s.pageTable (addr.toNat / pageSize)).valid = false) (can : CanServe c s addr) :
    ∃ s', pageFault c s addr = .ok s' ∧ Fit c others s' ∧
      addr.toNat / pageSize < s'.numPages ∧
      (s'.pageTable (addr.toNat / pageSize)).valid = true := by
  have owns := counted_owns fit.owns
  obtain ⟨s', served⟩ := (demandpage_returns (s := counted s) (i := addr.toNat / pageSize) owns
    fit.numbered inside invalid).mpr ⟨can.frame, can.page⟩
  have returned : pageFault c s addr = .ok s' := by
    rw [pageFault, handler_page_of_nonneg can.nonneg, served]
    rfl
  obtain ⟨owns', numbered', small'⟩ :=
    pageFault_owns fit.owns fit.numbered inside fit.small invalid returned
  refine ⟨s', returned, ⟨owns', numbered', small'⟩, ?_, ?_⟩
  · rw [(demandpage_confined owns inside invalid served).numPages]
    exact inside
  · obtain ⟨-, g, victim, s₁, bytes, dirty, -, -, fills, -⟩ :=
      demandpage_cases owns inside invalid served
    rw [fills.entry]

/-- **The handler gets through** a survivable exception: the process goes on with the
page in memory, or it is destroyed. -/
theorem serve_total (fit : Fit c others s) (bad : r badVAddrReg = addr)
    (survivable : Survivable c s addr which) :
    serve c which ⟨r, s⟩ = .ok none ∨
      ∃ r' s', serve c which ⟨r, s⟩ = .ok (some ⟨r', s'⟩) ∧ Fit c others s' ∧
        addr.toNat / pageSize < s'.numPages ∧
        (s'.pageTable (addr.toNat / pageSize)).valid = true := by
  cases which with
  | noException => exact survivable.elim
  | syscallException => exact survivable.elim
  | pageFaultException =>
      obtain ⟨inside, invalid, can⟩ := survivable
      obtain ⟨s', served, fit', inside', valid'⟩ := pageFault_total fit inside invalid can
      have address : (r.set pcReg (r pcReg + 4)) badVAddrReg = addr :=
        (Function.update_of_ne (by decide) _ _).trans bad
      refine Or.inr ⟨(r.set pcReg (r pcReg + 4)).set pcReg (r pcReg + 4 - 4), s', ?_, fit', inside',
        valid'⟩
      simp only [serve, handlePageFault, address, served, ok_bind, pure_eq_ok]
  | readOnlyException => exact Or.inl rfl
  | busErrorException => exact Or.inl rfl
  | addressErrorException => exact Or.inl rfl
  | overflowException => exact Or.inl rfl
  | illegalInstrException => exact Or.inl rfl

end Handler

/-! ## Instructions -/

/-- What the instruction asks for is what its opcode says. -/
def Effect.Within (i : Instruction) (r : Registers) : Effect → Prop
  | .complete _ _ => True
  | .load addr size _ _ => accessOf i r = some (addr, size)
  | .store addr size _ => accessOf i r = some (addr, size)
  | .modify addr _ => accessOf i r = some (addr, 4)
  | .raise which a => (which = .syscallException ∧ i.opCode = .syscall ∧ a = 0) ∨
      which = .addressErrorException ∨ which = .overflowException ∨ which = .illegalInstrException
  | .stop _ => ¬ Harmless i r

/-- A turn the kernel can deal with: its memory is fit, and so is what it raises.  A system
call is raised only where `call` holds. -/
inductive Handled (c : Config) (others : Nat → Prop) (r : Registers) (call : Prop) : Turn Vm → Prop
  | completed {cpu : Cpu Vm} (fit : Fit c others cpu.memory) :
      Handled c others r call (.completed cpu)
  | called {s : Vm} (fit : Fit c others s) (calls : call) :
      Handled c others r call (.trapped .syscallException ⟨trapRegisters r 0, s⟩)
  | excepted {which : ExceptionType} {a : Word} {s : Vm} (fit : Fit c others s)
      (survivable : Survivable c s a which) :
      Handled c others r call (.trapped which ⟨trapRegisters r a, s⟩)

section Instructions

variable {c : Config} {others : Nat → Prop} {s : Vm} {r : Registers}

theorem execute_within (i : Instruction) (r : Registers) : Effect.Within i r (execute i r) := by
  unfold execute
  cases code : i.opCode <;> simp only [] <;> (try split) <;> (try split) <;>
    simp_all [Effect.Within, accessOf, Harmless]

theorem accessOf_size {i : Instruction} {addr : Word} {size : Nat}
    (accesses : accessOf i r = some (addr, size)) : size = 1 ∨ size = 2 ∨ size = 4 := by
  unfold accessOf at accesses
  cases code : i.opCode <;> simp_all

theorem handled_complete {call : Prop} (fit : Fit c others s) (writes : Registers) (nextReg : Nat)
    (nextValue pcAfter : Word) :
    Handled c others r call (complete writes s nextReg nextValue pcAfter) := .completed fit

theorem perform_total {i : Instruction} {e : Effect} (fit : Fit c others s)
    (within : Effect.Within i r e) (harmless : Harmless i r)
    (access : ∀ addr size, accessOf i r = some (addr, size) → Backed c s addr size) :
    ∃ turn, perform (vmOps c) r s e = .ok turn ∧ Handled c others r (i.opCode = .syscall) turn := by
  cases e with
  | complete writes pcAfter => exact ⟨_, rfl, handled_complete fit _ _ _ _⟩
  | load addr size rt value =>
      rcases readMem_total fit addr (accessOf_size within) with
        ⟨-, -, -, v, read⟩ | ⟨which, failed, excepts⟩
      · simp only [perform, vmOps, read, ok_bind]
        exact ⟨_, rfl, handled_complete fit.touch _ _ _ _⟩
      · simp only [perform, vmOps, failed, ok_bind]
        exact ⟨_, rfl, .excepted fit (excepts.survivable (access addr size within))⟩
  | store addr size value =>
      rcases writeMem_total fit addr (accessOf_size within) value with
        ⟨s', wrote, fit'⟩ | ⟨which, failed, excepts⟩
      · simp only [perform, vmOps, wrote, ok_bind]
        exact ⟨_, rfl, handled_complete fit' _ _ _ _⟩
      · simp only [perform, vmOps, failed, ok_bind]
        exact ⟨_, rfl, .excepted fit (excepts.survivable (access addr size within))⟩
  | modify addr value =>
      rcases readMem_total fit addr (accessOf_size within) with
        ⟨aligned, inside, valid, v, read⟩ | ⟨which, failed, excepts⟩
      · -- the page is there, so the write after the read completes
        have valid' : ((touched s (addr.toNat / pageSize) false).pageTable
            (addr.toNat / pageSize)).valid = true := (touched_entries _).1.trans valid
        obtain ⟨f, -, -, wrote⟩ := writeMem_valid (touched_owns fit.owns) aligned inside
          (touched_numbered fit.numbered _ inside) valid' (value v)
        simp only [perform, vmOps, read, wrote, ok_bind]
        exact ⟨_, rfl, handled_complete (fit.touch.store _ _) _ _ _ _⟩
      · simp only [perform, vmOps, failed, ok_bind]
        exact ⟨_, rfl, .excepted fit (excepts.survivable (access addr 4 within))⟩
  | raise which a =>
      refine ⟨_, rfl, ?_⟩
      rcases within with ⟨rfl, code, rfl⟩ | rfl | rfl | rfl
      · exact .called fit code
      · exact .excepted fit trivial
      · exact .excepted fit trivial
      · exact .excepted fit trivial
  | stop why => exact absurd harmless within

/-- **A tame instruction** stops nothing: it completes, or it raises an exception the
kernel can deal with. -/
theorem oneInstruction_total (fit : Fit c others s) (tame : Tame c r s) :
    ∃ turn, oneInstruction (vmOps c) ⟨r, s⟩ = .ok turn ∧
      Handled c others r (AtSyscall c r s) turn := by
  rcases readMem_total fit (r pcReg) (Or.inr (Or.inr rfl)) with
    ⟨-, -, -, raw, read⟩ | ⟨which, failed, excepts⟩
  · obtain ⟨turn, done, handled⟩ := perform_total (i := decode raw) fit.touch
      (execute_within (decode raw) r) (tame.body raw _ read).1
      fun addr size accesses => ((tame.body raw _ read).2 (addr, size) accesses).touch
    refine ⟨turn, ?_, ?_⟩
    · simp only [oneInstruction, vmOps, read, ok_bind]
      exact done
    · cases handled with
      | completed fit' => exact .completed fit'
      | called fit' code => exact .called fit' ⟨raw, _, read, code⟩
      | excepted fit' survivable => exact .excepted fit' survivable
  · simp only [oneInstruction, vmOps, failed, ok_bind]
    exact ⟨_, rfl, .excepted fit (excepts.survivable tame.fetch)⟩

end Instructions

end Nachos.UserProg
