/-
# Nachos.UserProg.Transparent -- a program does not see its page faults

`Flat` is the memory a program would run on with every page resident: the same
alignment and range checks, and no faults.  `flatRun` runs the simulator on it;
`pagedRun` runs it under demand paging, one call of `OneInstruction` for each turn,
with the exception handler when it faults.

The two runs are tied together by `Tied`: the flat memory is the virtual memory of the
process, with the byte the first load of its page will put there where the page has
not been loaded yet (`firstByte`), and the registers are the same up to a delayed
load that a fault has finished early (`Retried`).  A turn keeps the tie or, when
nothing faults, is one step of the flat machine (`turn_cases`); and `Settles` bounds
the turns an instruction takes.
-/
import Nachos.UserProg.Replacement
import Nachos.UserProg.Exception

namespace Nachos.UserProg

open Nachos.Lib.Bytes
open Nachos.Machine
open Nachos.FileSys (OpenFile)

set_option autoImplicit false

/-! ## The two machines -/

/-- A memory of `numPages` pages, all resident. -/
structure Flat where
  numPages : Nat
  bytes : Nat → Byte

namespace Flat

/-- The access raises `AddressErrorException`. -/
def Refuses (m : Flat) (addr : Word) (size : Nat) : Prop :=
  ((size = 4 ∧ addr &&& 3#32 ≠ 0#32) ∨ (size = 2 ∧ addr &&& 1#32 ≠ 0#32)) ∨
    m.numPages ≤ addr.toNat / pageSize

instance (m : Flat) (addr : Word) (size : Nat) : Decidable (m.Refuses addr size) :=
  inferInstanceAs (Decidable (_ ∨ _))

def readMem (m : Flat) (addr : Word) (size : Nat) : Except Stop (Result Flat Word) :=
  if m.Refuses addr size then return .exception .addressErrorException
  else return .value (load size fun k => m.bytes (addr.toNat + k)) m

def writeMem (m : Flat) (addr : Word) (size : Nat) (value : Word) :
    Except Stop (Result Flat Unit) :=
  if m.Refuses addr size then return .exception .addressErrorException
  else return .value () { m with bytes := splice m.bytes addr.toNat (bytesOf value size) }

end Flat

def flatOps : MemoryOps Flat := ⟨Flat.readMem, Flat.writeMem⟩

/-- The flat machine after `k` instructions; an exception ends the program. -/
def flatRun (start : Cpu Flat) : Nat → Except Stop (Turn Flat)
  | 0 => return .completed start
  | k + 1 => do
      match ← flatRun start k with
      | .completed cpu => oneInstruction flatOps cpu
      | .trapped which cpu => return .trapped which cpu

/-- A user program between two calls of `OneInstruction`. -/
inductive Status where
  /-- The last instruction has completed. -/
  | completed (cpu : Cpu Vm)
  /-- A page fault has been served, and the instruction is about to be tried again. -/
  | retrying (cpu : Cpu Vm)
  /-- Any other exception has ended the program. -/
  | ended (which : ExceptionType) (cpu : Cpu Vm)

def Status.cpu : Status → Cpu Vm
  | .completed cpu => cpu
  | .retrying cpu => cpu
  | .ended _ cpu => cpu

/-- One turn of the loop of `Machine::Run`. -/
def turn (c : Config) (cpu : Cpu Vm) : Except Stop Status := do
  match ← oneInstruction (vmOps c) cpu with
  | .completed cpu => return .completed cpu
  | .trapped .pageFaultException cpu => return .retrying (← handlePageFault c cpu)
  | .trapped which cpu => return .ended which cpu

/-- The status after a turn, and the number of completed instructions. -/
def count (k : Nat) : Status → Status × Nat
  | .completed cpu => (.completed cpu, k + 1)
  | .retrying cpu => (.retrying cpu, k)
  | .ended which cpu => (.ended which cpu, k)

/-- The paged machine after `n` turns. -/
def pagedRun (c : Config) (start : Cpu Vm) : Nat → Except Stop (Status × Nat)
  | 0 => return (.completed start, 0)
  | n + 1 => do
      match ← pagedRun c start n with
      | (.ended which cpu, k) => return (.ended which cpu, k)
      | (.completed cpu, k) => return count k (← turn c cpu)
      | (.retrying cpu, k) => return count k (← turn c cpu)

/-- The byte at virtual address `b` after `n` turns, if its page has been loaded. -/
def byteAfter (c : Config) (start : Cpu Vm) (b n : Nat) : Option Byte :=
  match pagedRun c start n with
  | .ok (status, _) => vbyte status.cpu.memory b
  | .error _ => none

open Classical in
/-- The byte the first `demandpage` load of its page puts at `b`. -/
noncomputable def firstByte (c : Config) (start : Cpu Vm) (b : Nat) : Byte :=
  if loaded : ∃ n, byteAfter c start b n ≠ none then (byteAfter c start b (Nat.find loaded)).getD 0
  else 0

/-! ## The tie -/

/-- `m` is the virtual memory of `s`, `image` where `s` has not loaded it. -/
structure Views (image : Nat → Byte) (s : Vm) (m : Flat) : Prop where
  numPages : m.numPages = s.numPages
  bytes : ∀ b, b / pageSize < s.numPages → m.bytes b = (vbyte s b).getD (image b)

/-- The paged machine is in the middle of the instruction the flat one is at. -/
structure Tied (c : Config) (noffH : NoffHeader) (image : Nat → Byte) (cpu : Cpu Vm)
    (ref : Cpu Flat) : Prop where
  running : Running c (fun _ => False) noffH cpu.memory
  hand : HandInside cpu.memory.toAddrSpace
  views : Views image cpu.memory ref.memory
  sane : Sane ref.registers
  retried : Retried ref.registers cpu.registers

section Accesses

variable {c : Config} {noffH : NoffHeader} {image : Nat → Byte} {s s' : Vm} {m : Flat}
  {a : Word} {size : Nat}

/-- An access the flat memory does not refuse is aligned and in range. -/
theorem Flat.aligned_of_accepts (isSize : size = 1 ∨ size = 2 ∨ size = 4)
    (accepts : ¬ m.Refuses a size) :
    Aligned a size ∧ a.toNat / pageSize < m.numPages := by
  unfold Flat.Refuses at accepts
  obtain ⟨passes, inside⟩ := not_or.mp accepts
  exact ⟨aligned_of_passes isSize passes, not_le.mp inside⟩

/-- What the flat memory refuses, so does `Translate`. -/
theorem translate_refused {w : Bool} (pages : m.numPages = s.numPages)
    (refuses : m.Refuses a size) :
    s.translate c a size w = .ok (.exception .addressErrorException) := by
  unfold Vm.translate
  rcases refuses with unaligned | outside
  · rw [if_pos unaligned]
    rfl
  · rw [pages] at outside
    split
    · rfl
    · rw [if_pos outside]
      rfl

theorem Views.touch (views : Views image s m) (i : Nat) : Views image (touched s i false) m := by
  refine ⟨views.numPages, fun b hb => ?_⟩
  rw [views.bytes b hb, vbyte_touched]

/-- **A read, on both machines.** -/
theorem Views.read (views : Views image s m) (running : Running c (fun _ => False) noffH s)
    (isSize : size = 1 ∨ size = 2 ∨ size = 4) :
    (m.Refuses a size ∧ s.readMem c a size = .ok (.exception .addressErrorException) ∧
      m.readMem a size = .ok (.exception .addressErrorException)) ∨
    (¬ m.Refuses a size ∧ ∃ v, m.readMem a size = .ok (.value v m) ∧
      (((s.pageTable (a.toNat / pageSize)).valid = false ∧
          s.readMem c a size = .ok (.exception .pageFaultException)) ∨
        ((s.pageTable (a.toNat / pageSize)).valid = true ∧
          s.readMem c a size = .ok (.value v (touched s (a.toNat / pageSize) false))))) := by
  by_cases refuses : m.Refuses a size
  · refine Or.inl ⟨refuses, ?_, ?_⟩
    · rw [Vm.readMem, translate_refused views.numPages refuses]
      rfl
    · rw [Flat.readMem, if_pos refuses]
      rfl
  · obtain ⟨aligned, inside⟩ := Flat.aligned_of_accepts isSize refuses
    rw [views.numPages] at inside
    refine Or.inr ⟨refuses, _, by rw [Flat.readMem, if_neg refuses]; rfl, ?_⟩
    cases valid : (s.pageTable (a.toNat / pageSize)).valid with
    | false => exact Or.inl ⟨rfl, readMem_fault aligned inside valid⟩
    | true =>
        obtain ⟨bytes, read, same⟩ := readMem_vbyte running.owns running.pages aligned inside valid
        refine Or.inr ⟨rfl, ?_⟩
        rw [read]
        congr 2
        apply load_congr isSize
        intro k hk
        obtain ⟨page, -⟩ := aligned.page hk
        rw [views.bytes _ (by rw [page]; exact inside), same k hk]
        rfl

/-- **A write, on both machines.** -/
theorem Views.write (views : Views image s m) (running : Running c (fun _ => False) noffH s)
    (isSize : size = 1 ∨ size = 2 ∨ size = 4) (value : Word) :
    (m.Refuses a size ∧ s.writeMem c a size value = .ok (.exception .addressErrorException) ∧
      m.writeMem a size value = .ok (.exception .addressErrorException)) ∨
    (¬ m.Refuses a size ∧ ∃ m', m.writeMem a size value = .ok (.value () m') ∧
      (((s.pageTable (a.toNat / pageSize)).valid = false ∧
          s.writeMem c a size value = .ok (.exception .pageFaultException)) ∨
        ((s.pageTable (a.toNat / pageSize)).valid = true ∧
          ∃ s', s.writeMem c a size value = .ok (.value () s') ∧
            Stores c (fun _ => False) s a size value s' ∧ Views image s' m'))) := by
  by_cases refuses : m.Refuses a size
  · refine Or.inl ⟨refuses, ?_, ?_⟩
    · rw [Vm.writeMem, translate_refused views.numPages refuses]
      rfl
    · rw [Flat.writeMem, if_pos refuses]
      rfl
  · obtain ⟨aligned, inside⟩ := Flat.aligned_of_accepts isSize refuses
    rw [views.numPages] at inside
    refine Or.inr ⟨refuses, _, by rw [Flat.writeMem, if_neg refuses]; rfl, ?_⟩
    cases valid : (s.pageTable (a.toNat / pageSize)).valid with
    | false => exact Or.inl ⟨rfl, writeMem_fault aligned inside valid value⟩
    | true =>
        obtain ⟨s', wrote, stores⟩ :=
          writeMem_vbyte running.owns running.pages aligned inside valid value
        refine Or.inr ⟨rfl, s', wrote, stores, views.numPages.trans stores.confined.numPages.symm,
          ?_⟩
        intro b hb
        rw [stores.confined.numPages] at hb
        rw [stores.vbyte b hb]
        show splice m.bytes a.toNat (bytesOf value size) b = _
        split
        · rename_i within
          have at_ : b = a.toNat + (b - a.toNat) := by omega
          rw [at_, splice_add _ _ _ (getElem?_bytesOf value (by omega)), ← at_]
          rfl
        · rename_i outside
          rw [splice_outside _ (by rw [length_bytesOf]; omega), views.bytes b hb]

theorem Stores.hand {addr value : Word} {size : Nat}
    (stores : Stores c (fun _ => False) s addr size value s') (hand : HandInside s.toAddrSpace) :
    HandInside s'.toAddrSpace := by
  unfold HandInside
  rw [stores.clockHand, stores.confined.numPages]
  exact hand

end Accesses

/-! ## One turn -/

/-- No loaded byte is unloaded. -/
def Grows (s s' : Vm) : Prop :=
  s'.numPages = s.numPages ∧
    ∀ b, b / pageSize < s.numPages → vbyte s b ≠ none → vbyte s' b ≠ none

/-- The paged machine, in state `s` before, has made the step the flat machine makes. -/
inductive Follows (c : Config) (noffH : NoffHeader) (image : Nat → Byte) (s : Vm) :
    Except Stop (Turn Vm) → Except Stop (Turn Flat) → Prop where
  | completed (cpu : Cpu Vm) (ref : Cpu Flat) (tied : Tied c noffH image cpu ref)
      (same : Same ref.registers cpu.registers) (grows : Grows s cpu.memory)
      (valid : ∀ j, (cpu.memory.pageTable j).valid = (s.pageTable j).valid) :
      Follows c noffH image s (.ok (.completed cpu)) (.ok (.completed ref))
  | trapped (which : ExceptionType) (cpu : Cpu Vm) (ref : Cpu Flat)
      (ne : which ≠ .pageFaultException) :
      Follows c noffH image s (.ok (.trapped which cpu)) (.ok (.trapped which ref))
  | stopped (e : Stop) : Follows c noffH image s (.error e) (.error e)

section Turns

variable {c : Config} {noffH : NoffHeader} {image : Nat → Byte} {s s' : Vm} {m : Flat}
  {r r' : Registers} {i : Instruction}

theorem Grows.refl (s : Vm) : Grows s s := ⟨rfl, fun _ _ loaded => loaded⟩

theorem Grows.touch (grows : Grows s s') (j : Nat) : Grows s (touched s' j false) := by
  refine ⟨grows.1, fun b hb loaded => ?_⟩
  rw [vbyte_touched]
  exact grows.2 b hb loaded

theorem Grows.store {addr value : Word} {size : Nat} (grows : Grows s s') {s'' : Vm}
    (stores : Stores c (fun _ => False) s' addr size value s'') : Grows s s'' := by
  refine ⟨stores.confined.numPages.trans grows.1, fun b hb loaded => ?_⟩
  rw [stores.vbyte b (by rw [grows.1]; exact hb)]
  split
  · exact Option.some_ne_none _
  · exact grows.2 b hb loaded

/-- The fetch loads and unloads nothing. -/
theorem Follows.fetched {j : Nat} {t : Except Stop (Turn Vm)} {u : Except Stop (Turn Flat)}
    (follows : Follows c noffH image (touched s j false) t u) : Follows c noffH image s t u := by
  cases follows with
  | completed cpu ref tied same grows valid =>
      refine .completed _ _ tied same ⟨grows.1, fun b hb loaded => grows.2 b hb ?_⟩
        fun k => (valid k).trans (touched_entries k).1
      rw [vbyte_touched]
      exact loaded
  | trapped which cpu ref ne => exact .trapped _ _ _ ne
  | stopped e => exact .stopped e

theorem Running.touch (running : Running c (fun _ => False) noffH s) (j : Nat) :
    Running c (fun _ => False) noffH (touched s j false) :=
  running.step (touched_confined _ _) (touched_owns running.owns) (touched_pagesOk running.pages)

theorem Running.count (running : Running c (fun _ => False) noffH s) :
    Running c (fun _ => False) noffH (counted s) := by
  refine running.step ⟨fun _ _ => rfl, fun _ _ => rfl, rfl, rfl, rfl, rfl, rfl⟩
    (counted_owns running.owns) fun j hj => ?_
  obtain ⟨numbered, swapped, clean⟩ := running.pages j hj
  exact ⟨numbered, swapped, clean⟩

/-- The flat machine and the paged one complete the instruction together. -/
theorem follows_complete (writes : List (Nat × Word)) {nextReg : Nat} {nextValue pcAfter : Word}
    {s₁ : Vm} (running : Running c (fun _ => False) noffH s₁) (hand : HandInside s₁.toAddrSpace)
    (views : Views image s₁ m) (grows : Grows s s₁)
    (valid : ∀ j, (s₁.pageTable j).valid = (s.pageTable j).valid) (sane : Sane r)
    (retried : Retried r r') (proper : ∀ w ∈ writes, w.1 < pcReg)
    (delay : (r loadReg = 0 ∧ r loadValueReg = 0) ∨ (r loadReg).toNat ∉ writes.map Prod.fst)
    (low : nextReg < numGPRegs) :
    Follows c noffH image s
      (.ok (complete (assignAll r' writes) s₁ nextReg nextValue pcAfter))
      (.ok (complete (assignAll r writes) m nextReg nextValue pcAfter)) := by
  have same := retried.complete sane proper delay nextReg nextValue pcAfter
  exact .completed _ _ ⟨running, hand, views, sane_complete _ low _ _, Or.inl same⟩ same grows valid

/-- **What an instruction asks for, done on both machines.**  The paged one faults on
the page of the data, with nothing changed, or follows. -/
theorem perform_cases (running : Running c (fun _ => False) noffH s)
    (hand : HandInside s.toAddrSpace) (views : Views image s m) (sane : Sane r)
    (retried : Retried r r') (fields : i.Fields) (delay : DelayOk i r) :
    (∃ a size, (execute i r).access = some (a, size) ∧ ¬ m.Refuses a size ∧
      a.toNat / pageSize < s.numPages ∧ (s.pageTable (a.toNat / pageSize)).valid = false ∧
      perform (vmOps c) r' s (execute i r') =
        .ok (.trapped .pageFaultException ⟨trapRegisters r' a, s⟩)) ∨
    Follows c noffH image s (perform (vmOps c) r' s (execute i r'))
      (perform flatOps r m (execute i r)) := by
  have next : r' nextPCReg = r nextPCReg := retried.special sane (by decide) (by decide)
  have proper := execute_proper fields r
  rw [retried.execute sane fields delay]
  have idle : (r loadReg = 0 ∧ r loadValueReg = 0) ∨ (r loadReg).toNat ∉ (execute i r).writes :=
    delay.imp id And.right
  have loads : (r loadReg = 0 ∧ r loadValueReg = 0) ∨
      (r loadReg).toNat ∉ ([] : List (Nat × Word)).map Prod.fst := Or.inr (by simp)
  have inside : ∀ {a : Word} {size : Nat}, size = 1 ∨ size = 2 ∨ size = 4 → ¬ m.Refuses a size →
      a.toNat / pageSize < s.numPages := by
    intro a size isSize accepts
    rw [← views.numPages]
    exact (Flat.aligned_of_accepts isSize accepts).2
  cases effect : execute i r with
  | complete writes pcAfter =>
      rw [effect] at proper idle
      exact Or.inr (follows_complete writes running hand views (Grows.refl s) (fun _ => rfl) sane
        retried proper idle (by decide))
  | load a size rt value =>
      rw [effect] at proper
      obtain ⟨isSize, low⟩ := proper
      rcases views.read (a := a) running isSize with
        ⟨-, paged, flat⟩ | ⟨accepts, v, flat, ⟨invalid, paged⟩ | ⟨valid, paged⟩⟩
      · refine Or.inr ?_
        simp only [perform, vmOps, flatOps, paged, flat, ok_bind]
        exact .trapped _ _ _ (by decide)
      · refine Or.inl ⟨a, size, rfl, accepts, inside isSize accepts, invalid, ?_⟩
        simp only [perform, vmOps, paged, ok_bind]
        rfl
      · refine Or.inr ?_
        simp only [perform, vmOps, flatOps, paged, flat, ok_bind, next]
        exact follows_complete [] (running.touch _) hand (views.touch _)
          ((Grows.refl s).touch _) (fun j => (touched_entries j).1) sane retried (by simp) loads low
  | store a size value =>
      rw [effect] at proper
      rcases views.write (a := a) running proper value with
        ⟨-, paged, flat⟩ | ⟨accepts, m', flat,
          ⟨invalid, paged⟩ | ⟨valid, s', paged, stores, views'⟩⟩
      · refine Or.inr ?_
        simp only [perform, vmOps, flatOps, paged, flat, ok_bind]
        exact .trapped _ _ _ (by decide)
      · refine Or.inl ⟨a, size, rfl, accepts, inside proper accepts, invalid, ?_⟩
        simp only [perform, vmOps, paged, ok_bind]
        rfl
      · refine Or.inr ?_
        simp only [perform, vmOps, flatOps, paged, flat, ok_bind, next]
        exact follows_complete []
          (running.step stores.confined stores.owns stores.pages) (stores.hand hand) views'
          ((Grows.refl s).store stores) (fun j => (stores.entries j).1) sane retried (by simp) loads
          (by decide)
  | modify a value =>
      have isSize : 4 = 1 ∨ 4 = 2 ∨ 4 = 4 := by decide
      rcases views.read (a := a) running isSize with
        ⟨-, paged, flat⟩ | ⟨accepts, v, flat, ⟨invalid, paged⟩ | ⟨valid, paged⟩⟩
      · refine Or.inr ?_
        simp only [perform, vmOps, flatOps, paged, flat, ok_bind]
        exact .trapped _ _ _ (by decide)
      · refine Or.inl ⟨a, 4, rfl, accepts, inside isSize accepts, invalid, ?_⟩
        simp only [perform, vmOps, paged, ok_bind]
        rfl
      · -- the page that was read is there to be written
        refine Or.inr ?_
        rcases (views.touch (a.toNat / pageSize)).write (a := a) (running.touch _) isSize
            (value v) with
          ⟨refused, -⟩ | ⟨-, m', flat', ⟨bad, -⟩ | ⟨-, s', paged', stores, views'⟩⟩
        · exact absurd refused accepts
        · rw [(touched_entries _).1, valid] at bad
          cases bad
        · simp only [perform, vmOps, flatOps, paged, flat, paged', flat', ok_bind, next]
          exact follows_complete []
            ((running.touch _).step stores.confined stores.owns stores.pages) (stores.hand hand)
            views' (((Grows.refl s).touch _).store stores)
            (fun j => (stores.entries j).1.trans (touched_entries j).1) sane retried (by simp) loads
            (by decide)
  | raise which badVAddr =>
      rw [effect] at proper
      exact Or.inr (.trapped _ _ _ proper)
  | stop why => exact Or.inr (.stopped why)

/-- Below `2^31` the handler finds the page that faulted. -/
theorem tdiv_page {a : Word} (low : a.toNat < 2 ^ 31) :
    a.toInt.tdiv pageSize = (a.toNat / pageSize : Nat) := by
  apply handler_page_of_nonneg
  rw [BitVec.toInt_eq_toNat_cond, if_pos (by omega)]
  exact Int.natCast_nonneg _

/-- **The page-fault handler serves the page**, and all the program can tell is that
its delayed load is done. -/
theorem handlePageFault_served {a : Word} (running : Running c (fun _ => False) noffH s)
    (hand : HandInside s.toAddrSpace) (sane : Sane r) (retried : Retried r r')
    (inside : a.toNat / pageSize < s.numPages)
    (invalid : (s.pageTable (a.toNat / pageSize)).valid = false) (low : a.toNat < 2 ^ 31)
    (loadable : Loadable noffH (pageAddr (a.toNat / pageSize))) :
    ∃ r'' s', handlePageFault c ⟨trapRegisters r' a, s⟩ = .ok ⟨r'', s'⟩ ∧
      demandpage c (counted s) (a.toNat / pageSize : Nat) = .ok (true, s') ∧ Same (flush r) r'' ∧
      Running c (fun _ => False) noffH s' ∧ HandInside s'.toAddrSpace ∧
      s'.numPages = s.numPages ∧
      ∀ b, b / pageSize < s.numPages → vbyte s b ≠ none → vbyte s' b = vbyte s b := by
  have running₁ := running.count
  have frame := (frame_of_alone running₁.owns).imp id fun res => And.intro hand res
  obtain ⟨s', served⟩ :=
    (demandpage_returns running₁.owns running₁.pages.numbered inside invalid).mpr
      ⟨frame, Or.inr ⟨noffH, running₁.header, loadable⟩⟩
  have small : a.toNat / pageSize < pageLimit := by
    simp only [pageLimit, pageSize]
    omega
  obtain ⟨-, others, self, -⟩ :=
    demandpage_content running₁.owns running₁.pages inside small invalid served
  refine ⟨((trapRegisters r' a).set pcReg (trapRegisters r' a pcReg + 4)).set pcReg
    (trapRegisters r' a pcReg + 4 - 4), s', ?_, served, ?_,
      running₁.demandpage inside small invalid served,
    demandpage_hand running₁.owns hand inside invalid served,
    (demandpage_confined running₁.owns inside invalid served).numPages, ?_⟩
  · have bad : ((trapRegisters r' a).set pcReg (trapRegisters r' a pcReg + 4)) badVAddrReg = a :=
      (Function.update_of_ne (by decide) _ _).trans
        (trapRegisters_badVAddr a (retried.target sane))
    rw [handlePageFault]
    simp only [bad, pageFault, tdiv_page low, served, ok_bind, pure_eq_ok]
  · refine (retried.trap a).trans ?_
    intro n _
    unfold Registers.set
    simp only [Function.update_apply]
    split
    · rename_i here
      rw [here]
      exact BitVec.add_sub_cancel _ _
    · rfl
  · intro b hb loaded
    apply vbyte_of_content
    by_cases here : b / pageSize = a.toNat / pageSize
    · rw [here]
      apply self
      by_contra unloaded
      apply loaded
      rw [vbyte, here, content_unloaded invalid (not_le.mp unloaded), Option.bind_none]
    · exact others _ hb here

/-- The instruction the flat machine is at. -/
def fetched (ref : Cpu Flat) : Option Instruction :=
  match ref.memory.readMem (ref.registers pcReg) 4 with
  | .ok (.value raw _) => some (decode raw)
  | _ => none

/-- An instruction in the delay slot of a load keeps off its target. -/
def KeepsDelay (ref : Cpu Flat) : Prop := ∀ i, fetched ref = some i → DelayOk i ref.registers

/-- An access is refused, or it is to an address below `2^31` and to a page that can be
loaded. -/
def Reachable (noffH : NoffHeader) (m : Flat) (a : Word) (size : Nat) : Prop :=
  ¬ m.Refuses a size → a.toNat < 2 ^ 31 ∧ Loadable noffH (pageAddr (a.toNat / pageSize))

/-- The next instruction makes only such accesses. -/
structure InReach (noffH : NoffHeader) (ref : Cpu Flat) : Prop where
  code : Reachable noffH ref.memory (ref.registers pcReg) 4
  data : ∀ i a size, fetched ref = some i → (execute i ref.registers).access = some (a, size) →
    Reachable noffH ref.memory a size

/-- The page of the next instruction. -/
def codePage (ref : Cpu Flat) : Nat := (ref.registers pcReg).toNat / pageSize

/-- The page of its data; the page it is on, if it touches no other. -/
def dataPage (ref : Cpu Flat) : Nat :=
  match (fetched ref).bind fun i => (execute i ref.registers).access with
  | some (a, size) => if ref.memory.Refuses a size then codePage ref else a.toNat / pageSize
  | none => codePage ref

/-- A fault of an instruction on page `i` with its data on page `d`. -/
def Faults (c : Config) (i d : Nat) (s s' : Vm) : Prop :=
  ((s.pageTable i).valid = false ∧ demandpage c (counted s) i = .ok (true, s')) ∨
    ((s.pageTable i).valid = true ∧ (s.pageTable d).valid = false ∧
      demandpage c (counted (touched s i false)) d = .ok (true, s'))

theorem Settles.fault {j d n : Nat} (settles : Settles c j d (n + 1) s)
    (faults : Faults c j d s s') :
    Settles c j d n s' := by
  rcases faults with ⟨invalid, served⟩ | ⟨valid, invalid, served⟩
  · exact settles.1 invalid _ _ served
  · exact settles.2 valid invalid _ _ served

theorem Settles.done {j d : Nat} (settles : Settles c j d 0 s) : ¬ Faults c j d s s' := by
  rintro (⟨invalid, -⟩ | ⟨-, invalid, -⟩)
  · rw [settles.1] at invalid
    cases invalid
  · rw [settles.2] at invalid
    cases invalid

/-- A turn that faulted: the page is there, and nothing else has changed. -/
structure Retries (c : Config) (noffH : NoffHeader) (ref : Cpu Flat) (s : Vm) (cpu : Cpu Vm) :
    Prop where
  retried : Retried ref.registers cpu.registers
  running : Running c (fun _ => False) noffH cpu.memory
  hand : HandInside cpu.memory.toAddrSpace
  numPages : cpu.memory.numPages = s.numPages
  kept : ∀ b, b / pageSize < s.numPages → vbyte s b ≠ none → vbyte cpu.memory b = vbyte s b
  faults : Faults c (codePage ref) (dataPage ref) s cpu.memory

/-- **One turn.**  `OneInstruction` faults and its page is served, or it does what the
flat machine does. -/
theorem turn_cases {cpu : Cpu Vm} {ref : Cpu Flat} (tied : Tied c noffH image cpu ref)
    (keeps : KeepsDelay ref) (reach : InReach noffH ref) :
    (∃ cpu', turn c cpu = .ok (.retrying cpu') ∧ Retries c noffH ref cpu.memory cpu') ∨
      Follows c noffH image cpu.memory (oneInstruction (vmOps c) cpu)
        (oneInstruction flatOps ref) := by
  obtain ⟨r', s⟩ := cpu
  obtain ⟨r, m⟩ := ref
  obtain ⟨running, hand, views, sane, retried⟩ := tied
  have pc : r' pcReg = r pcReg := retried.special sane (by decide) (by decide)
  have isSize : 4 = 1 ∨ 4 = 2 ∨ 4 = 4 := by decide
  rcases views.read (a := r pcReg) running isSize with
    ⟨-, paged, flat⟩ | ⟨accepts, raw, flat, ⟨invalid, paged⟩ | ⟨valid, paged⟩⟩
  · refine Or.inr ?_
    simp only [oneInstruction, vmOps, flatOps, pc, paged, flat, ok_bind]
    exact .trapped _ _ _ (by decide)
  · -- the fetch faults
    refine Or.inl ?_
    have inside : (r pcReg).toNat / pageSize < s.numPages := by
      rw [← views.numPages]
      exact (Flat.aligned_of_accepts isSize accepts).2
    obtain ⟨low, loadable⟩ := reach.code accepts
    obtain ⟨r'', s', handled, served, again, running', hand', pages, kept⟩ :=
      handlePageFault_served running hand sane retried inside invalid low loadable
    refine ⟨⟨r'', s'⟩, ?_, Or.inr again, running', hand', pages, kept, Or.inl ⟨invalid, served⟩⟩
    simp only [turn, oneInstruction, vmOps, pc, paged, ok_bind, pure_eq_ok, raiseException, handled]
  · have isFetched : fetched ⟨r, m⟩ = some (decode raw) := by
      simp only [fetched, flat]
    have delay : DelayOk (decode raw) r := keeps _ isFetched
    have flatStep : oneInstruction flatOps ⟨r, m⟩ = perform flatOps r m
        (execute (decode raw) r) := by
      simp only [oneInstruction, flatOps, flat, ok_bind]
    have pagedStep : oneInstruction (vmOps c) ⟨r', s⟩ =
        perform (vmOps c) r' (touched s ((r pcReg).toNat / pageSize) false)
          (execute (decode raw) r') := by
      simp only [oneInstruction, vmOps, pc, paged, ok_bind]
    rcases perform_cases (running.touch ((r pcReg).toNat / pageSize)) hand (views.touch _) sane
        retried (decode_fields raw) delay with
      ⟨a, size, data, accepts', inside, invalid, faulted⟩ | follows
    · -- the access to the data faults
      refine Or.inl ?_
      obtain ⟨low, loadable⟩ := reach.data _ a size isFetched data accepts'
      obtain ⟨r'', s', handled, served, again, running', hand', pages, kept⟩ :=
        handlePageFault_served (running.touch _) hand sane retried inside invalid low loadable
      have page : dataPage ⟨r, m⟩ = a.toNat / pageSize := by
        simp only [dataPage, isFetched, Option.bind_some, data, if_neg accepts']
      refine ⟨⟨r'', s'⟩, ?_, Or.inr again, running', hand', pages, ?_, Or.inr ⟨valid, ?_, ?_⟩⟩
      · simp only [turn, pagedStep, faulted, ok_bind, handled, pure_eq_ok]
      · intro b hb loaded
        exact (kept b hb (by rwa [vbyte_touched])).trans (vbyte_touched b)
      · rw [page, ← invalid]
        exact (touched_entries _).1.symm
      · rw [page]
        exact served
    · refine Or.inr ?_
      rw [pagedStep, flatStep]
      exact follows.fetched

/-- With every page resident no instruction faults. -/
theorem resident_follows {cpu : Cpu Vm} {ref : Cpu Flat} (tied : Tied c noffH image cpu ref)
    (keeps : KeepsDelay ref)
    (resident : ∀ j < cpu.memory.numPages, (cpu.memory.pageTable j).valid = true) :
    Follows c noffH image cpu.memory (oneInstruction (vmOps c) cpu)
      (oneInstruction flatOps ref) := by
  obtain ⟨r', s⟩ := cpu
  obtain ⟨r, m⟩ := ref
  obtain ⟨running, hand, views, sane, retried⟩ := tied
  have pc : r' pcReg = r pcReg := retried.special sane (by decide) (by decide)
  rcases views.read (a := r pcReg) running (Or.inr (Or.inr rfl)) with
    ⟨-, paged, flat⟩ | ⟨accepts, raw, flat, ⟨invalid, -⟩ | ⟨-, paged⟩⟩
  · simp only [oneInstruction, vmOps, flatOps, pc, paged, flat, ok_bind]
    exact .trapped _ _ _ (by decide)
  · have inside := (Flat.aligned_of_accepts (Or.inr (Or.inr rfl)) accepts).2
    rw [views.numPages] at inside
    rw [resident _ inside] at invalid
    cases invalid
  · have isFetched : fetched ⟨r, m⟩ = some (decode raw) := by
      simp only [fetched, flat]
    simp only [oneInstruction, vmOps, flatOps, pc, paged, flat, ok_bind]
    rcases perform_cases (running.touch ((r pcReg).toNat / pageSize)) hand (views.touch _) sane
        retried (decode_fields raw) (keeps _ isFetched) with
      ⟨a, size, -, -, inside, invalid, -⟩ | follows
    · rw [(touched_entries _).1, resident _ inside] at invalid
      cases invalid
    · exact follows.fetched

theorem turn_completed {cpu cpu' : Cpu Vm}
    (done : oneInstruction (vmOps c) cpu = .ok (.completed cpu')) :
    turn c cpu = .ok (.completed cpu') := by
  simp only [turn, done, ok_bind, pure_eq_ok]

theorem turn_trapped {cpu cpu' : Cpu Vm} {which : ExceptionType}
    (raised : oneInstruction (vmOps c) cpu = .ok (.trapped which cpu'))
    (ne : which ≠ .pageFaultException) : turn c cpu = .ok (.ended which cpu') := by
  rw [turn, raised, ok_bind]
  cases which <;> first | rfl | exact absurd rfl ne

end Turns

/-! ## Runs -/

/-- The program goes on. -/
def Status.live : Status → Bool
  | .completed _ => true
  | .retrying _ => true
  | .ended _ _ => false

section Runs

variable {c : Config} {noffH : NoffHeader} {start : Cpu Vm} {ref₀ : Cpu Flat}

theorem pagedRun_next {n k : Nat} {status : Status} (ran : pagedRun c start n = .ok (status, k))
    (live : status.live = true) :
    pagedRun c start (n + 1) = (turn c status.cpu).map (count k) := by
  rw [pagedRun, ran, ok_bind]
  cases status with
  | completed cpu => cases taken : turn c cpu <;> simp [Status.cpu, taken, Except.map]
  | retrying cpu => cases taken : turn c cpu <;> simp [Status.cpu, taken, Except.map]
  | ended which cpu => cases live

/-- A live status comes from a live one by a turn. -/
theorem pagedRun_previous {n k : Nat} {status : Status}
    (ran : pagedRun c start (n + 1) = .ok (status, k)) (live : status.live = true) :
    ∃ before j after, pagedRun c start n = .ok (before, j) ∧ before.live = true ∧
      turn c before.cpu = .ok after ∧ (status, k) = count j after := by
  cases previous : pagedRun c start n with
  | error e =>
      rw [pagedRun, previous] at ran
      cases ran
  | ok pair =>
      obtain ⟨before, j⟩ := pair
      cases alive : before.live with
      | false =>
          rw [pagedRun, previous] at ran
          cases before with
          | completed cpu => cases alive
          | retrying cpu => cases alive
          | ended which cpu =>
              cases ran
              cases live
      | true =>
          rw [pagedRun_next previous alive] at ran
          cases taken : turn c before.cpu with
          | error e =>
              rw [taken] at ran
              cases ran
          | ok after =>
              rw [taken] at ran
              exact ⟨before, j, after, rfl, alive, taken, (Except.ok.inj ran).symm⟩

theorem flatRun_next {k : Nat} {ref : Cpu Flat} (ran : flatRun ref₀ k = .ok (.completed ref)) :
    flatRun ref₀ (k + 1) = oneInstruction flatOps ref := by
  rw [flatRun, ran]
  rfl

theorem flatRun_previous {k : Nat} {ref : Cpu Flat}
    (ran : flatRun ref₀ (k + 1) = .ok (.completed ref)) :
    ∃ before, flatRun ref₀ k = .ok (.completed before) ∧
      oneInstruction flatOps before = .ok (.completed ref) := by
  obtain ⟨turn, previous, rest⟩ := bind_eq_ok.mp ran
  cases turn with
  | completed before => exact ⟨before, previous, rest⟩
  | trapped which before => cases rest

/-- The first load of a page decides its bytes. -/
theorem firstByte_eq {b n : Nat} {x : Byte} (before : ∀ m ≤ n, byteAfter c start b m = none)
    (here : byteAfter c start b (n + 1) = some x) : firstByte c start b = x := by
  have loaded : ∃ n, byteAfter c start b n ≠ none := ⟨n + 1, by simp [here]⟩
  have first : Nat.find loaded = n + 1 := by
    rw [Nat.find_eq_iff]
    refine ⟨by simp [here], fun m lt => ?_⟩
    simpa using before m (by omega)
  rw [firstByte, dif_pos loaded, first, here]
  rfl

/-- What `n` turns have come to: the flat machine is at the same instruction, and every
byte that was ever loaded is loaded now. -/
structure Joined (c : Config) (noffH : NoffHeader) (start : Cpu Vm) (ref₀ : Cpu Flat) (n : Nat)
    (status : Status) (k : Nat) (ref : Cpu Flat) : Prop where
  flat : flatRun ref₀ k = .ok (.completed ref)
  tied : Tied c noffH (firstByte c start) status.cpu ref
  same : ∀ cpu, status = .completed cpu → Same ref.registers cpu.registers
  history : ∀ m ≤ n, ∀ b, b / pageSize < status.cpu.memory.numPages →
    byteAfter c start b m ≠ none → vbyte status.cpu.memory b ≠ none

theorem byteAfter_eq {n k : Nat} {status : Status} (ran : pagedRun c start n = .ok (status, k))
    (b : Nat) : byteAfter c start b n = vbyte status.cpu.memory b := by
  rw [byteAfter, ran]

/-- The history of one turn more. -/
theorem Joined.later {n k k' : Nat} {status status' : Status} {ref : Cpu Flat}
    (joined : Joined c noffH start ref₀ n status k ref)
    (ran : pagedRun c start (n + 1) = .ok (status', k'))
    (grows : Grows status.cpu.memory status'.cpu.memory) :
    ∀ m ≤ n + 1, ∀ b, b / pageSize < status'.cpu.memory.numPages →
      byteAfter c start b m ≠ none → vbyte status'.cpu.memory b ≠ none := by
  intro m le b hb loaded
  by_cases last : m = n + 1
  · rw [last, byteAfter_eq ran] at loaded
    exact loaded
  · rw [grows.1] at hb
    exact grows.2 b hb (joined.history m (by omega) b hb loaded)

/-- **A page fault keeps the tie**: the bytes it loads for the first time are those the
flat memory has had from the start. -/
theorem Joined.retry {n k : Nat} {status : Status} {ref : Cpu Flat} {cpu : Cpu Vm}
    (joined : Joined c noffH start ref₀ n status k ref)
    (ran : pagedRun c start (n + 1) = .ok (.retrying cpu, k))
    (retries : Retries c noffH ref status.cpu.memory cpu) :
    Joined c noffH start ref₀ (n + 1) (.retrying cpu) k ref := by
  have grows : Grows status.cpu.memory cpu.memory := by
    refine ⟨retries.numPages, fun b hb loaded => ?_⟩
    rw [retries.kept b hb loaded]
    exact loaded
  have views := joined.tied.views
  refine ⟨joined.flat, ⟨retries.running, retries.hand, ⟨?_, fun b hb => ?_⟩, joined.tied.sane,
    retries.retried⟩, ?_, joined.later ran grows⟩
  · exact views.numPages.trans retries.numPages.symm
  · have hb : b / pageSize < status.cpu.memory.numPages := by
      rw [← retries.numPages]
      exact hb
    show ref.memory.bytes b = (vbyte cpu.memory b).getD _
    rw [views.bytes b hb]
    by_cases loaded : vbyte status.cpu.memory b = none
    · rw [loaded]
      cases now : vbyte cpu.memory b with
      | none => rfl
      | some x =>
          refine firstByte_eq (n := n) (fun m le => ?_) ?_
          · by_contra early
            exact joined.history m le b hb early loaded
          · exact (byteAfter_eq ran b).trans now
    · rw [retries.kept b hb loaded]
  · intro _ bad
    cases bad

theorem Joined.complete {n k : Nat} {status : Status} {ref ref' : Cpu Flat} {cpu : Cpu Vm}
    (joined : Joined c noffH start ref₀ n status k ref)
    (ran : pagedRun c start (n + 1) = .ok (.completed cpu, k + 1))
    (flat : oneInstruction flatOps ref = .ok (.completed ref'))
    (tied : Tied c noffH (firstByte c start) cpu ref') (same : Same ref'.registers cpu.registers)
    (grows : Grows status.cpu.memory cpu.memory) :
    Joined c noffH start ref₀ (n + 1) (.completed cpu) (k + 1) ref' := by
  refine ⟨(flatRun_next joined.flat).trans flat, tied, fun cpu' h => ?_, joined.later ran grows⟩
  cases h
  exact same

/-- **The tie holds along every run.** -/
theorem run_joined (begins : Tied c noffH (firstByte c start) start ref₀)
    (same : Same ref₀.registers start.registers)
    (keeps : ∀ k ref, flatRun ref₀ k = .ok (.completed ref) → KeepsDelay ref)
    (reach : ∀ k ref, flatRun ref₀ k = .ok (.completed ref) → InReach noffH ref)
    {n k : Nat} {status : Status} (ran : pagedRun c start n = .ok (status, k))
    (live : status.live = true) : ∃ ref, Joined c noffH start ref₀ n status k ref := by
  induction n generalizing status k with
  | zero =>
      cases ran
      refine ⟨ref₀, rfl, begins, fun cpu h => ?_, fun m le b _ loaded => ?_⟩
      · cases h
        exact same
      · rw [Nat.le_zero.mp le] at loaded
        exact loaded
  | succ n ih =>
      obtain ⟨before, j, after, previous, alive, taken, counted⟩ := pagedRun_previous ran live
      obtain ⟨ref, joined⟩ := ih previous alive
      rcases turn_cases joined.tied (keeps j ref joined.flat) (reach j ref joined.flat) with
        ⟨cpu, retried, retries⟩ | follows
      · rw [retried] at taken
        cases taken
        cases counted
        exact ⟨ref, joined.retry ran retries⟩
      · generalize paged : oneInstruction (vmOps c) before.cpu = p at follows
        generalize flat : oneInstruction flatOps ref = u at follows
        cases follows with
        | completed cpu ref' tied same grows valid =>
            rw [turn_completed paged] at taken
            cases taken
            cases counted
            exact ⟨ref', joined.complete ran flat tied same grows⟩
        | trapped which cpu ref' ne =>
            rw [turn_trapped paged ne] at taken
            cases taken
            cases counted
            cases live
        | stopped e =>
            rw [turn, paged] at taken
            cases taken

/-- An instruction that completes is on a page of the image, and so is its data. -/
theorem pages_of_completed {ref ref' : Cpu Flat}
    (done : oneInstruction flatOps ref = .ok (.completed ref')) :
    codePage ref < ref.memory.numPages ∧ dataPage ref < ref.memory.numPages := by
  have accepts : ¬ ref.memory.Refuses (ref.registers pcReg) 4 := by
    intro refuses
    have read : ref.memory.readMem (ref.registers pcReg) 4 =
        .ok (.exception .addressErrorException) := by
      rw [Flat.readMem, if_pos refuses]
      rfl
    simp only [oneInstruction, flatOps, read, ok_bind] at done
    cases done
  have code : codePage ref < ref.memory.numPages :=
    (Flat.aligned_of_accepts (by decide) accepts).2
  refine ⟨code, ?_⟩
  unfold dataPage
  split
  · split
    · exact code
    · rename_i access
      unfold Flat.Refuses at access
      omega
  · exact code

/-- An instruction the flat machine completes settles, and is then completed. -/
theorem completes
    (keeps : ∀ k ref, flatRun ref₀ k = .ok (.completed ref) → KeepsDelay ref)
    (reach : ∀ k ref, flatRun ref₀ k = .ok (.completed ref) → InReach noffH ref)
    {j n k : Nat} {status : Status} {ref ref' : Cpu Flat}
    (ran : pagedRun c start n = .ok (status, k)) (live : status.live = true)
    (joined : Joined c noffH start ref₀ n status k ref)
    (done : oneInstruction flatOps ref = .ok (.completed ref'))
    (settles : Settles c (codePage ref) (dataPage ref) j status.cpu.memory) :
    ∃ n cpu, pagedRun c start n = .ok (.completed cpu, k + 1) := by
  induction j generalizing n status with
  | zero =>
      rcases turn_cases joined.tied (keeps k ref joined.flat) (reach k ref joined.flat) with
        ⟨cpu, -, retries⟩ | follows
      · exact absurd retries.faults settles.done
      · rw [done] at follows
        generalize paged : oneInstruction (vmOps c) status.cpu = p at follows
        cases follows with
        | completed cpu _ tied same grows valid =>
            refine ⟨n + 1, cpu, ?_⟩
            rw [pagedRun_next ran live, turn_completed paged]
            rfl
  | succ j ih =>
      rcases turn_cases joined.tied (keeps k ref joined.flat) (reach k ref joined.flat) with
        ⟨cpu, retried, retries⟩ | follows
      · have ran' : pagedRun c start (n + 1) = .ok (.retrying cpu, k) := by
          rw [pagedRun_next ran live, retried]
          rfl
        exact ih ran' rfl (joined.retry ran' retries) (settles.fault retries.faults)
      · rw [done] at follows
        generalize paged : oneInstruction (vmOps c) status.cpu = p at follows
        cases follows with
        | completed cpu _ tied same grows valid =>
            refine ⟨n + 1, cpu, ?_⟩
            rw [pagedRun_next ran live, turn_completed paged]
            rfl

/-- **The paged machine gets as far as the flat one.** -/
theorem run_completes (two : 2 ≤ c.numPhysPages)
    (begins : Tied c noffH (firstByte c start) start ref₀)
    (same : Same ref₀.registers start.registers)
    (keeps : ∀ k ref, flatRun ref₀ k = .ok (.completed ref) → KeepsDelay ref)
    (reach : ∀ k ref, flatRun ref₀ k = .ok (.completed ref) → InReach noffH ref)
    {k : Nat} {ref : Cpu Flat} (ran : flatRun ref₀ k = .ok (.completed ref)) :
    ∃ n cpu, pagedRun c start n = .ok (.completed cpu, k) := by
  induction k generalizing ref with
  | zero => exact ⟨0, start, rfl⟩
  | succ k ih =>
      obtain ⟨before, previous, done⟩ := flatRun_previous ran
      obtain ⟨n, cpu, paged⟩ := ih previous
      obtain ⟨ref', joined⟩ := run_joined begins same keeps reach paged rfl
      have at_ : before = ref' := by
        have := previous.symm.trans joined.flat
        cases this
        rfl
      subst at_
      obtain ⟨code, data⟩ := pages_of_completed done
      rw [joined.tied.views.numPages] at code data
      have turning : Turning c (codePage before) (dataPage before) cpu.memory :=
        ⟨joined.tied.running.owns, joined.tied.hand, code, data⟩
      exact completes keeps reach paged rfl joined done (settles_in_four turning two)

/-- **The flat machine is the machine with every page resident**: there a run takes one
turn for each instruction, and its registers and memory are the flat ones. -/
theorem resident_run {image : Nat → Byte} (begins : Tied c noffH image start ref₀)
    (same : Same ref₀.registers start.registers)
    (resident : ∀ j < start.memory.numPages, (start.memory.pageTable j).valid = true)
    (keeps : ∀ k ref, flatRun ref₀ k = .ok (.completed ref) → KeepsDelay ref) {k : Nat}
    {ref : Cpu Flat} (ran : flatRun ref₀ k = .ok (.completed ref)) :
    ∃ cpu, pagedRun c start k = .ok (.completed cpu, k) ∧ Tied c noffH image cpu ref ∧
      Same ref.registers cpu.registers ∧
      ∀ j < cpu.memory.numPages, (cpu.memory.pageTable j).valid = true := by
  induction k generalizing ref with
  | zero =>
      cases ran
      exact ⟨start, rfl, begins, same, resident⟩
  | succ k ih =>
      obtain ⟨before, previous, done⟩ := flatRun_previous ran
      obtain ⟨cpu, paged, tied, -, resident⟩ := ih previous
      have follows := resident_follows tied (keeps k before previous) resident
      rw [done] at follows
      generalize step : oneInstruction (vmOps c) cpu = p at follows
      cases follows with
      | completed cpu' _ tied same grows valid =>
          refine ⟨cpu', ?_, tied, same, fun j hj => ?_⟩
          · rw [pagedRun_next paged rfl]
            exact congrArg (Except.map (count k)) (turn_completed step)
          · rw [valid j]
            exact resident j (by rw [← grows.1]; exact hj)

end Runs

/-! ## A program from its start -/

/-- `StartProcess` once the address space is there: the registers `InitRegisters` sets. -/
def startPaged (core : Core) (space : AddrSpace) : Cpu Vm :=
  ⟨initRegisters space.numPages, ⟨core, space⟩⟩

/-- The same program with every page resident, each as its first load leaves it. -/
noncomputable def startFlat (c : Config) (core : Core) (space : AddrSpace) : Cpu Flat :=
  ⟨initRegisters space.numPages, ⟨space.numPages, firstByte c (startPaged core space)⟩⟩

section Program

variable {c : Config} {core core' : Core} {e : OpenFile} {h : Int} {space : AddrSpace}
  {noffH : NoffHeader}

/-- **Page faults are transparent.**  A program alone on a machine of at least two
frames, under either replacement policy and wherever the hand starts: whenever it has
completed `k` instructions, its registers and its virtual memory are those of the flat
machine after `k` instructions; and it completes every instruction the flat machine
does.  The program keeps out of the delay slots of its loads, and every address it
touches is below `2^31` and on a page the kernel can load. -/
theorem page_faults_transparent (init : initializeSpace core e h = .ok (space, core'))
    (header : readHeader core.fileSystem e = .ok noffH)
    (manages : core.memmanage.Manages c.numPhysPages)
    (alone : ∀ f < c.numPhysPages, core.memmanage.allocated f = false)
    (two : 2 ≤ c.numPhysPages) (hand : HandInside space)
    (apart : e.file ≠ space.backing.file.file)
    (keeps : ∀ k ref, flatRun (startFlat c core' space) k = .ok (.completed ref) → KeepsDelay ref)
    (reach : ∀ k ref, flatRun (startFlat c core' space) k = .ok (.completed ref) →
      InReach noffH ref) :
    (∀ n cpu k, pagedRun c (startPaged core' space) n = .ok (.completed cpu, k) →
      ∃ ref, flatRun (startFlat c core' space) k = .ok (.completed ref) ∧
        Same ref.registers cpu.registers ∧
        Views (firstByte c (startPaged core' space)) cpu.memory ref.memory) ∧
    ∀ k ref, flatRun (startFlat c core' space) k = .ok (.completed ref) →
      ∃ n cpu, pagedRun c (startPaged core' space) n = .ok (.completed cpu, k) := by
  obtain ⟨noffH', starts⟩ := initializeSpace_starts init
  have same : noffH' = noffH := by
    have := starts.header.symm.trans header
    cases this
    rfl
  subst same
  have begins : Tied c noffH' (firstByte c (startPaged core' space)) (startPaged core' space)
      (startFlat c core' space) := by
    refine ⟨starts.runningAlone manages alone apart, hand, ⟨rfl, fun b _ => ?_⟩,
      initRegisters_sane _, Or.inl (Same.refl _)⟩
    show firstByte c (startPaged core' space) b = (vbyte ⟨core', space⟩ b).getD _
    rw [vbyte, starts.content_none, Option.bind_none]
    rfl
  refine ⟨fun n cpu k ran => ?_, fun k ref ran => ?_⟩
  · obtain ⟨ref, joined⟩ := run_joined begins (Same.refl _) keeps reach ran rfl
    exact ⟨ref, joined.flat, joined.same cpu rfl, joined.tied.views⟩
  · exact run_completes two begins (Same.refl _) keeps reach ran

end Program

/-- `lw r8, 0(r29)`, and then a word that is no instruction. -/
def stackCode : List Byte := [0, 0, 0xa8, 0x8f, 0, 0, 0, 0x50] ++ List.replicate 120 0

/-- A program that reads the top of its stack, with `uninit` bytes of uninitialised data. -/
def stackFile (uninit : Word) : List Byte :=
  [0xad, 0xdf, 0xba, 0, 0, 0, 0, 0, 40, 0, 0, 0, 128, 0, 0, 0, 0, 0, 0, 0, 0, 0, 0, 0, 0, 0, 0, 0,
    0, 0, 0, 0, 0, 0, 0, 0] ++ bytesOf uninit 4 ++ stackCode

def stackCore (uninit : Word) : Core :=
  { sampleCore 4 with fileSystem :=
      ⟨fun name => if name = "a.out" then some 0 else none, fun _ => stackFile uninit, 1⟩ }

def stackSpace (numPages : Nat) (fname : String) : AddrSpace :=
  ⟨freshEntry, numPages, 0, ⟨⟨1⟩, fname⟩, ⟨0⟩⟩

def stackStarted (uninit : Word) (fname : String) : Core :=
  { stackCore uninit with fileSystem := (stackCore uninit).fileSystem.create fname }

theorem stack_code {start : Cpu Vm} {b : Nat}
    (loads : byteAfter fourFrames start b 0 = none ∧
      byteAfter fourFrames start b 1 = some (stackCode.getD b 0)) :
    firstByte fourFrames start b = stackCode.getD b 0 := by
  refine firstByte_eq (n := 0) (fun m le => ?_) loads.2
  rw [Nat.le_zero.mp le]
  exact loads.1

/-- The program with every page resident: the load completes, and then there is no
instruction. -/
theorem stack_flat {numPages : Nat} {bytes : Nat → Byte}
    (code : ∀ b < 8, bytes b = stackCode.getD b 0) (some_ : 0 < numPages)
    (top : ¬ Flat.Refuses ⟨numPages, bytes⟩ (initRegisters numPages stackReg) 4) :
    fetched ⟨initRegisters numPages, ⟨numPages, bytes⟩⟩ = some (decode 0x8fa80000#32) ∧
    ∃ ref, flatRun ⟨initRegisters numPages, ⟨numPages, bytes⟩⟩ 1 = .ok (.completed ref) ∧
      ref.memory = ⟨numPages, bytes⟩ ∧ ref.registers pcReg = 4 ∧
      fetched ref = some (decode 0x50000000#32) ∧
      ∀ k, flatRun ⟨initRegisters numPages, ⟨numPages, bytes⟩⟩ (k + 2) =
        .ok (.trapped .illegalInstrException
          ⟨trapRegisters ref.registers 0, ⟨numPages, bytes⟩⟩) := by
  have accepts : ∀ a : Word, a = 0 ∨ a = 4 → ¬ Flat.Refuses ⟨numPages, bytes⟩ a 4 := by
    rintro a (rfl | rfl) (unaligned | outside)
    · exact absurd unaligned (by decide)
    · exact absurd outside (by show ¬ numPages ≤ 0; omega)
    · exact absurd unaligned (by decide)
    · exact absurd outside (by show ¬ numPages ≤ 0; omega)
  have word : ∀ p, p = 0 ∨ p = 4 →
      load 4 (fun k => bytes (p + k)) = load 4 (fun k => stackCode.getD (p + k) 0) := by
    intro p isPc
    exact load_congr (by decide) fun k hk => code _ (by omega)
  have first : Flat.readMem ⟨numPages, bytes⟩ 0 4 =
      .ok (.value 0x8fa80000#32 ⟨numPages, bytes⟩) := by
    rw [Flat.readMem, if_neg (accepts 0 (Or.inl rfl))]
    exact congrArg (fun v => Except.ok (Result.value v _)) (word 0 (Or.inl rfl))
  have second : Flat.readMem ⟨numPages, bytes⟩ 4 4 =
      .ok (.value 0x50000000#32 ⟨numPages, bytes⟩) := by
    rw [Flat.readMem, if_neg (accepts 4 (Or.inr rfl))]
    exact congrArg (fun v => Except.ok (Result.value v _)) (word 4 (Or.inr rfl))
  have isLw : decode 0x8fa80000#32 = ⟨.lw, stackReg, 8, 0, 0⟩ := by decide
  have isRes : (decode 0x50000000#32).opCode = .res := by decide
  have read : Flat.readMem ⟨numPages, bytes⟩ (initRegisters numPages stackReg) 4 = .ok (.value
      (load 4 fun k => bytes ((initRegisters numPages stackReg).toNat + k)) ⟨numPages, bytes⟩) := by
    rw [Flat.readMem, if_neg top]
    rfl
  have aligned : initRegisters numPages stackReg &&& 3#32 = 0#32 := by
    by_contra off
    exact top (Or.inl (Or.inl ⟨rfl, off⟩))
  have loads : execute (decode 0x8fa80000#32) (initRegisters numPages) =
      .load (initRegisters numPages stackReg) 4 8 fun value => value := by
    have top : initRegisters numPages stackReg + (0 : Word) = initRegisters numPages stackReg :=
      BitVec.add_zero _
    simp only [isLw, execute, top, aligned, ne_eq, not_true_eq_false, if_false]
  have pc : initRegisters numPages pcReg = 0 := rfl
  have done : flatRun ⟨initRegisters numPages, ⟨numPages, bytes⟩⟩ 1 = .ok (.completed
      ⟨advance (delayedLoad (initRegisters numPages) 8
        (load 4 fun k => bytes ((initRegisters numPages stackReg).toNat + k)))
        (initRegisters numPages nextPCReg + 4), ⟨numPages, bytes⟩⟩) := by
    simp only [flatRun, ok_bind, pure_eq_ok, oneInstruction, flatOps, pc, first, loads, perform,
      read]
    rfl
  generalize registers : advance (delayedLoad (initRegisters numPages) 8
    (load 4 fun k => bytes ((initRegisters numPages stackReg).toNat + k)))
    (initRegisters numPages nextPCReg + 4) = r at done
  have pc' : r pcReg = 4 := by
    rw [← registers]
    rfl
  have trapped : flatRun ⟨initRegisters numPages, ⟨numPages, bytes⟩⟩ 2 = .ok
      (.trapped .illegalInstrException ⟨trapRegisters r 0, ⟨numPages, bytes⟩⟩) := by
    rw [flatRun_next done]
    simp only [oneInstruction, flatOps, pc', second, ok_bind, execute, isRes, perform]
    rfl
  refine ⟨?_, ⟨r, ⟨numPages, bytes⟩⟩, done, rfl, pc', ?_, fun k => ?_⟩
  · simp only [fetched, pc, first]
  · simp only [fetched, pc', second]
  · induction k with
    | zero => exact trapped
    | succ k ih =>
        rw [flatRun, ih]
        rfl

section StackProgram

variable {numPages : Nat} {bytes : Nat → Byte}

/-- The states of that run. -/
theorem stack_states (code : ∀ b < 8, bytes b = stackCode.getD b 0) (some_ : 0 < numPages)
    (top : ¬ Flat.Refuses ⟨numPages, bytes⟩ (initRegisters numPages stackReg) 4) {k : Nat}
    {ref : Cpu Flat} (ran : flatRun ⟨initRegisters numPages, ⟨numPages, bytes⟩⟩ k =
      .ok (.completed ref)) :
    ref = ⟨initRegisters numPages, ⟨numPages, bytes⟩⟩ ∨
      (ref.memory = ⟨numPages, bytes⟩ ∧ ref.registers pcReg = 4 ∧
        fetched ref = some (decode 0x50000000#32)) := by
  obtain ⟨-, ref₁, done, memory, pc, res, trapped⟩ := stack_flat code some_ top
  match k with
  | 0 =>
      cases ran
      exact Or.inl rfl
  | 1 =>
      rw [done] at ran
      cases ran
      exact Or.inr ⟨memory, pc, res⟩
  | k + 2 =>
      rw [trapped k] at ran
      cases ran

theorem stack_keeps (code : ∀ b < 8, bytes b = stackCode.getD b 0) (some_ : 0 < numPages)
    (top : ¬ Flat.Refuses ⟨numPages, bytes⟩ (initRegisters numPages stackReg) 4) (k : Nat)
    (ref : Cpu Flat) (ran : flatRun ⟨initRegisters numPages, ⟨numPages, bytes⟩⟩ k =
      .ok (.completed ref)) : KeepsDelay ref := by
  intro i isFetched
  rcases stack_states code some_ top ran with rfl | ⟨-, -, res⟩
  · exact Or.inl ⟨rfl, rfl⟩
  · rw [res] at isFetched
    cases isFetched
    have op : (decode 0x50000000#32).opCode = .res := by decide
    exact Or.inr ⟨by simp [Instruction.reads, op], by simp [execute, op, Effect.writes]⟩

theorem stack_reach {noffH : NoffHeader} (code : ∀ b < 8, bytes b = stackCode.getD b 0)
    (some_ : 0 < numPages)
    (top : ¬ Flat.Refuses ⟨numPages, bytes⟩ (initRegisters numPages stackReg) 4)
    (low : (initRegisters numPages stackReg).toNat < 2 ^ 31) (first : Loadable noffH (pageAddr 0))
    (last : Loadable noffH (pageAddr ((initRegisters numPages stackReg).toNat / pageSize)))
    (k : Nat) (ref : Cpu Flat) (ran : flatRun ⟨initRegisters numPages, ⟨numPages, bytes⟩⟩ k =
      .ok (.completed ref)) : InReach noffH ref := by
  obtain ⟨lw, -⟩ := stack_flat code some_ top
  rcases stack_states code some_ top ran with rfl | ⟨-, pc, res⟩
  · have pc : initRegisters numPages pcReg = 0 := rfl
    refine ⟨fun _ => ?_, fun i a size isFetched data => ?_⟩
    · show (initRegisters numPages pcReg).toNat < _ ∧
        Loadable noffH (pageAddr ((initRegisters numPages pcReg).toNat / pageSize))
      rw [pc]
      exact ⟨by decide, first⟩
    rw [lw] at isFetched
    cases isFetched
    have isLw : decode 0x8fa80000#32 = ⟨.lw, stackReg, 8, 0, 0⟩ := by decide
    have address : initRegisters numPages stackReg + (0 : Word) = initRegisters numPages stackReg :=
      BitVec.add_zero _
    simp only [isLw, execute, address] at data
    split at data
    · cases data
    · cases data
      exact fun _ => ⟨low, last⟩
  · refine ⟨fun _ => ?_, fun i a size isFetched data => ?_⟩
    · rw [pc]
      exact ⟨by decide, first⟩
    · rw [res] at isFetched
      cases isFetched
      have op : (decode 0x50000000#32).opCode = .res := by decide
      simp [execute, op, Effect.access] at data

end StackProgram

theorem pagedRun_stopped {c : Config} {start : Cpu Vm} {n : Nat} {e : Stop}
    (stopped : pagedRun c start n = .error e) (m : Nat) : pagedRun c start (n + m) = .error e := by
  induction m with
  | zero => exact stopped
  | succ m ih =>
      rw [← Nat.add_assoc, pagedRun, ih, error_bind]

/-- The stack program with an image of more than `2^24` pages. -/
def hugeSpace : AddrSpace := stackSpace 16777225 "bs2147484800"

def hugeCore : Core := stackStarted 0x7fffffff "bs2147484800"

theorem huge_code : ∀ b < 8, byteAfter fourFrames (startPaged hugeCore hugeSpace) b 0 = none ∧
    byteAfter fourFrames (startPaged hugeCore hugeSpace) b 1 = some (stackCode.getD b 0) := by
  decide +kernel

theorem huge_stops : pagedRun fourFrames (startPaged hugeCore hugeSpace) 2 =
    .error .outOfBounds := by
  rfl

/-- With the image that large its stack lies above `2^31`.  The flat machine completes
the load; the paged one stops in the handler, whose index is negative. -/
theorem stack_out_of_reach :
    initializeSpace (stackCore 0x7fffffff) ⟨0⟩ 0 = .ok (hugeSpace, hugeCore) ∧
    (stackCore 0x7fffffff).memmanage.Manages fourFrames.numPhysPages ∧
    (∀ f < fourFrames.numPhysPages, (stackCore 0x7fffffff).memmanage.allocated f = false) ∧
    2 ≤ fourFrames.numPhysPages ∧ HandInside hugeSpace ∧
    (∀ k ref, flatRun (startFlat fourFrames hugeCore hugeSpace) k = .ok (.completed ref) →
      KeepsDelay ref) ∧
    (∀ k ref, flatRun (startFlat fourFrames hugeCore hugeSpace) k ≠
      .ok (.trapped .syscallException ref)) ∧
    (∃ ref, flatRun (startFlat fourFrames hugeCore hugeSpace) 1 = .ok (.completed ref)) ∧
    ∀ n cpu, pagedRun fourFrames (startPaged hugeCore hugeSpace) n ≠ .ok (.completed cpu, 1) := by
  have code : ∀ b < 8, firstByte fourFrames (startPaged hugeCore hugeSpace) b =
      stackCode.getD b 0 := fun b lt => stack_code (huge_code b lt)
  have top : ¬ Flat.Refuses ⟨16777225, firstByte fourFrames (startPaged hugeCore hugeSpace)⟩
      (initRegisters 16777225 stackReg) 4 := by
    unfold Flat.Refuses
    decide
  obtain ⟨-, ref, done, -, -, -, trapped⟩ := stack_flat code (by decide) top
  refine ⟨rfl, ⟨rfl, rfl⟩, sample_booted.free, by decide, ⟨by decide, by decide⟩,
    stack_keeps code (by decide) top, fun k ref' => ?_, ⟨ref, done⟩, fun n cpu ran => ?_⟩
  · match k with
    | 0 =>
        intro bad
        cases bad
    | 1 =>
        intro bad
        have := done.symm.trans bad
        cases this
    | k + 2 =>
        intro bad
        have := (trapped k).symm.trans bad
        cases this
  · match n with
    | 0 => cases ran
    | 1 => cases ran
    | n + 2 =>
        rw [Nat.add_comm, pagedRun_stopped huge_stops] at ran
        cases ran

/-- The stack program with its nine pages. -/
def smallSpace : AddrSpace := stackSpace 9 "bs1152"

def smallCore : Core := stackStarted 0 "bs1152"

theorem small_init : initializeSpace (stackCore 0) ⟨0⟩ 0 = .ok (smallSpace, smallCore) := by
  rfl

theorem small_header : readHeader (stackCore 0).fileSystem ⟨0⟩ = .ok sampleHeader := by
  rfl

theorem small_code : ∀ b < 8, byteAfter fourFrames (startPaged smallCore smallSpace) b 0 = none ∧
    byteAfter fourFrames (startPaged smallCore smallSpace) b 1 = some (stackCode.getD b 0) := by
  decide +kernel

theorem page_faults_transparent_stack :
    (∀ n cpu k, pagedRun fourFrames (startPaged smallCore smallSpace) n = .ok (.completed cpu, k) →
      ∃ ref, flatRun (startFlat fourFrames smallCore smallSpace) k = .ok (.completed ref) ∧
        Same ref.registers cpu.registers ∧
        Views (firstByte fourFrames (startPaged smallCore smallSpace)) cpu.memory ref.memory) ∧
    ∀ k ref, flatRun (startFlat fourFrames smallCore smallSpace) k = .ok (.completed ref) →
      ∃ n cpu,
        pagedRun fourFrames (startPaged smallCore smallSpace) n = .ok (.completed cpu, k) := by
  have code : ∀ b < 8, firstByte fourFrames (startPaged smallCore smallSpace) b =
      stackCode.getD b 0 := fun b lt => stack_code (small_code b lt)
  have top : ¬ Flat.Refuses ⟨9, firstByte fourFrames (startPaged smallCore smallSpace)⟩
      (initRegisters 9 stackReg) 4 := by
    unfold Flat.Refuses
    decide
  exact page_faults_transparent small_init small_header ⟨rfl, rfl⟩ sample_booted.free (by decide)
    ⟨by decide, by decide⟩ (by decide) (stack_keeps code (by decide) top)
    (stack_reach code (by decide) top (by decide) (by decide) (by decide))

end Nachos.UserProg
