/-
# Nachos.UserProg.Progress -- four page faults are enough for any instruction

`Progresses c n cpu`: the instruction `cpu` is at faults at most `n` times in a row, and every one
of these faults is served.  The states it is about are those a process can come to that has the
machine to itself (`Reaches`): between two turns its registers may be anything.

A fault finishes a pending load, so the instruction can ask for another page of data when it is
tried again: after the first fault it asks for the same pages (`Served.same_pages`), before it
perhaps not.  `Replacement` covers that: what it says of the fetched page holds whatever page the
data is on.

* `Ready.progresses`: at most four faults, from every state in order.
* `paging_progresses`: for which programs this holds in every state they reach.
-/
import Nachos.UserProg.Pageable

namespace Nachos.UserProg

open Nachos.Lib.Bytes
open Nachos.Machine
open Nachos.FileSys (OpenFile)

set_option autoImplicit false

/-- The instruction is through after at most `n` page faults more, and the handler returns from each
of them.  To be through is to complete, to raise another exception, or to stop the simulator. -/
def Progresses (c : Config) : Nat → Cpu Vm → Prop
  | 0, cpu => ∀ cpu', oneInstruction (vmOps c) cpu ≠ .ok (.trapped .pageFaultException cpu')
  | n + 1, cpu => ∀ cpu', oneInstruction (vmOps c) cpu = .ok (.trapped .pageFaultException cpu') →
      ∃ cpu'', handlePageFault c cpu' = .ok cpu'' ∧ Progresses c n cpu''

/-- The states of memory a process comes to: by turns of `Machine::Run`, with any registers, and by
the bytes the kernel reads for it. -/
inductive Reaches (c : Config) (start : Vm) : Vm → Prop where
  | start : Reaches c start start
  | turn {s : Vm} {r : Registers} {status : Status} : Reaches c start s → Sane r →
      UserProg.turn c ⟨r, s⟩ = .ok status → Reaches c start status.cpu.memory
  | readByte {s : Vm} {r : Registers} {a : Word} {v : Option Word} {cpu : Cpu Vm} :
      Reaches c start s → Sane r → UserProg.readByte c ⟨r, s⟩ a = .ok (v, cpu) →
        Reaches c start cpu.memory

/-- A process between two turns that has the machine to itself. -/
structure Ready (c : Config) (noffH : NoffHeader) (s : Vm) : Prop where
  running : Running c (fun _ => False) noffH s
  hand : HandInside s.toAddrSpace
  limit : s.numPages ≤ pageLimit
  loadable : ∀ i < s.numPages, Loadable noffH (pageAddr i)

/-- The virtual memory as the flat machine has it. -/
def view (s : Vm) : Flat := ⟨s.numPages, fun b => (vbyte s b).getD 0⟩

/-- An instruction that did not fault. -/
inductive Through (c : Config) (noffH : NoffHeader) : Except Stop (Turn Vm) → Prop where
  | completed (cpu : Cpu Vm) : Ready c noffH cpu.memory → Through c noffH (.ok (.completed cpu))
  | trapped (which : ExceptionType) (cpu : Cpu Vm) : which ≠ .pageFaultException →
      Ready c noffH cpu.memory → Through c noffH (.ok (.trapped which cpu))
  | stopped (e : Stop) : Through c noffH (.error e)

/-- A fault of the instruction that has been served: the page is there, the pending load is done,
and no byte has changed. -/
structure Served (c : Config) (noffH : NoffHeader) (r : Registers) (s : Vm) (cpu : Cpu Vm) :
    Prop where
  ready : Ready c noffH cpu.memory
  numPages : cpu.memory.numPages = s.numPages
  flushed : Same (flush r) cpu.registers
  kept : ∀ b, b / pageSize < s.numPages → vbyte s b ≠ none → vbyte cpu.memory b = vbyte s b
  accepts : ¬ (view s).Refuses (r pcReg) 4
  faults : Faults c (codePage ⟨r, view s⟩) (dataPage ⟨r, view s⟩) s cpu.memory

section Instructions

variable {c : Config} {noffH : NoffHeader} {s s' : Vm} {r r' : Registers} {a : Word} {size : Nat}

theorem view_views (s : Vm) : Views (fun _ => 0) s (view s) := ⟨rfl, fun _ _ => rfl⟩

theorem Ready.step (ready : Ready c noffH s) (running : Running c (fun _ => False) noffH s')
    (hand : HandInside s'.toAddrSpace) (pages : s'.numPages = s.numPages) : Ready c noffH s' := by
  refine ⟨running, hand, ?_, ?_⟩
  · rw [pages]
    exact ready.limit
  · rw [pages]
    exact ready.loadable

theorem Ready.touch (ready : Ready c noffH s) (i : Nat) : Ready c noffH (touched s i false) :=
  ready.step (ready.running.touch i) ready.hand rfl

theorem Ready.store {value : Word} (ready : Ready c noffH s)
    (stores : Stores c (fun _ => False) s a size value s') : Ready c noffH s' :=
  ready.step (ready.running.step stores.confined stores.owns stores.pages) (stores.hand ready.hand)
    stores.confined.numPages

theorem Ready.low (ready : Ready c noffH s) (inside : a.toNat / pageSize < s.numPages) :
    a.toNat < 2 ^ 31 := by
  have := ready.limit
  simp only [pageLimit, pageSize] at this inside
  omega

/-- A read faults with nothing changed, or not at all. -/
theorem Ready.read (ready : Ready c noffH s) (isSize : size = 1 ∨ size = 2 ∨ size = 4) :
    (¬ (view s).Refuses a size ∧ a.toNat / pageSize < s.numPages ∧
      (s.pageTable (a.toNat / pageSize)).valid = false ∧
      s.readMem c a size = .ok (.exception .pageFaultException)) ∨
    ((view s).Refuses a size ∧ s.readMem c a size = .ok (.exception .addressErrorException)) ∨
    (¬ (view s).Refuses a size ∧ (s.pageTable (a.toNat / pageSize)).valid = true ∧
      ∃ v, (view s).readMem a size = .ok (.value v (view s)) ∧
        s.readMem c a size = .ok (.value v (touched s (a.toNat / pageSize) false))) := by
  rcases (view_views s).read (a := a) ready.running isSize with
    ⟨refuses, paged, -⟩ | ⟨accepts, v, flat, ⟨invalid, paged⟩ | ⟨valid, paged⟩⟩
  · exact Or.inr (Or.inl ⟨refuses, paged⟩)
  · exact Or.inl ⟨accepts, (Flat.aligned_of_accepts isSize accepts).2, invalid, paged⟩
  · exact Or.inr (Or.inr ⟨accepts, valid, v, flat, paged⟩)

/-- **What an instruction asks for faults on the page of its data, or is done.** -/
theorem perform_through {effect : Effect} (ready : Ready c noffH s) (proper : effect.Proper) :
    (∃ a size, effect.access = some (a, size) ∧ ¬ (view s).Refuses a size ∧
      a.toNat / pageSize < s.numPages ∧ (s.pageTable (a.toNat / pageSize)).valid = false ∧
      perform (vmOps c) r s effect = .ok (.trapped .pageFaultException ⟨trapRegisters r a, s⟩)) ∨
    Through c noffH (perform (vmOps c) r s effect) := by
  cases effect with
  | complete writes pcAfter => exact Or.inr (.completed _ ready)
  | load a size rt value =>
      rcases ready.read (a := a) proper.1 with
        ⟨accepts, inside, invalid, paged⟩ | ⟨-, paged⟩ | ⟨-, -, v, -, paged⟩
      · exact Or.inl ⟨a, size, rfl, accepts, inside,
          invalid, by simp [perform, vmOps, paged, raiseException]⟩
      · refine Or.inr ?_
        simp only [perform, vmOps, paged, ok_bind]
        exact .trapped _ _ (by decide) ready
      · refine Or.inr ?_
        simp only [perform, vmOps, paged, ok_bind]
        exact .completed _ (ready.touch _)
  | store a size value =>
      rcases (view_views s).write (a := a) ready.running proper value with
        ⟨-, paged, -⟩ | ⟨accepts, m, -, ⟨invalid, paged⟩ | ⟨-, s', paged, stores, -⟩⟩
      · refine Or.inr ?_
        simp only [perform, vmOps, paged, ok_bind]
        exact .trapped _ _ (by decide) ready
      · exact Or.inl ⟨a, size, rfl, accepts, (Flat.aligned_of_accepts proper accepts).2, invalid,
          by simp [perform, vmOps, paged, raiseException]⟩
      · refine Or.inr ?_
        simp only [perform, vmOps, paged, ok_bind]
        exact .completed _ (ready.store stores)
  | modify a value =>
      have isSize : 4 = 1 ∨ 4 = 2 ∨ 4 = 4 := by decide
      rcases ready.read (a := a) isSize with
        ⟨accepts, inside, invalid, paged⟩ | ⟨-, paged⟩ | ⟨accepts, valid, v, -, paged⟩
      · exact Or.inl ⟨a, 4, rfl, accepts, inside,
          invalid, by simp [perform, vmOps, paged, raiseException]⟩
      · refine Or.inr ?_
        simp only [perform, vmOps, paged, ok_bind]
        exact .trapped _ _ (by decide) ready
      · -- the page that was read is there to be written
        refine Or.inr ?_
        have ready' := ready.touch (a.toNat / pageSize)
        rcases (view_views (touched s (a.toNat / pageSize) false)).write
          (a := a) ready'.running isSize (value v) with
          ⟨refused, -⟩ | ⟨-, m, -, ⟨bad, -⟩ | ⟨-, s', paged', stores, -⟩⟩
        · exact absurd refused accepts
        · rw [(touched_entries _).1, valid] at bad
          cases bad
        · simp only [perform, vmOps, paged, paged', ok_bind]
          exact .completed _ (ready'.store stores)
  | raise which badVAddr => exact Or.inr (.trapped _ _ proper ready)
  | stop why => exact Or.inr (.stopped why)

/-- **One attempt**: the instruction faults and its page is served, or it is through. -/
theorem Ready.attempt (ready : Ready c noffH s) (sane : Sane r) :
    (∃ cpu cpu', oneInstruction (vmOps c) ⟨r, s⟩ = .ok (.trapped .pageFaultException cpu) ∧
      handlePageFault c cpu = .ok cpu' ∧ Served c noffH r s cpu') ∨
    Through c noffH (oneInstruction (vmOps c) ⟨r, s⟩) := by
  have isSize : 4 = 1 ∨ 4 = 2 ∨ 4 = 4 := by decide
  rcases ready.read (a := r pcReg) isSize with
    ⟨accepts, inside, invalid, paged⟩ | ⟨-, paged⟩ | ⟨accepts, valid, raw, flat, paged⟩
  · -- the fetch faults
    obtain ⟨r', s', handled, served, flushed, running, hand, pages, kept⟩ :=
      handlePageFault_served ready.running ready.hand sane (Or.inl (Same.refl r)) inside invalid
        (ready.low inside) (ready.loadable _ inside)
    refine Or.inl ⟨_, ⟨r', s'⟩, ?_, handled, ready.step running hand pages, pages, flushed,
      kept, accepts, Or.inl ⟨invalid, served⟩⟩
    simp only [oneInstruction, vmOps, paged, ok_bind, pure_eq_ok, raiseException]
  · refine Or.inr ?_
    simp only [oneInstruction, vmOps, paged, ok_bind]
    exact .trapped _ _ (by decide) ready
  · have isFetched : fetched ⟨r, view s⟩ = some (decode raw) := by
      simp only [fetched, flat]
    have step : oneInstruction (vmOps c) ⟨r, s⟩ =
        perform (vmOps c) r (touched s ((r pcReg).toNat / pageSize) false)
          (execute (decode raw) r) := by
      simp only [oneInstruction, vmOps, paged, ok_bind]
    have ready' := ready.touch ((r pcReg).toNat / pageSize)
    rw [step]
    rcases perform_through ready' (r := r) (execute_proper (decode_fields raw) r) with
      ⟨a, size, data, accepts', inside, invalid, faulted⟩ | through
    · -- the access to the data faults
      obtain ⟨r', s', handled, served, flushed, running, hand, pages, kept⟩ :=
        handlePageFault_served ready'.running ready'.hand sane (Or.inl (Same.refl r)) inside invalid
          (ready'.low inside) (ready'.loadable _ inside)
      have page : dataPage ⟨r, view s⟩ = a.toNat / pageSize := by
        have accepts'' : ¬ (view s).Refuses a size := accepts'
        simp only [dataPage, isFetched, Option.bind_some, data, if_neg accepts'']
      refine Or.inl ⟨_, ⟨r', s'⟩, faulted, handled, ready'.step running hand pages, pages, flushed,
        ?_, accepts, Or.inr ⟨valid, ?_, ?_⟩⟩
      · intro b hb loaded
        exact (kept b hb (by rwa [vbyte_touched])).trans (vbyte_touched b)
      · rw [page, ← invalid]
        exact (touched_entries _).1.symm
      · rw [page]
        exact served
    · exact Or.inr through

/-! ## The pages an instruction asks for -/

/-- No load is pending. -/
def Idle (r : Registers) : Prop := r loadReg = 0 ∧ r loadValueReg = 0

/-- The bytes of the instruction have been loaded. -/
def CodeLoaded (r : Registers) (s : Vm) : Prop := ∀ k < 4, vbyte s ((r pcReg).toNat + k) ≠ none

theorem sane_of_flushed (flushed : Same (flush r) r') : Sane r' := by
  refine ⟨(flushed 0 (by decide)).trans (delayedLoad_apply 0 0 0), ?_⟩
  rw [flushed loadReg (by decide), show flush r loadReg = 0 from delayedLoad_apply 0 0 loadReg]
  decide

theorem Served.sane {cpu : Cpu Vm} (served : Served c noffH r s cpu) : Sane cpu.registers :=
  sane_of_flushed served.flushed

theorem Served.idle {cpu : Cpu Vm} (served : Served c noffH r s cpu) : Idle cpu.registers :=
  ⟨(served.flushed loadReg (by decide)).trans (delayedLoad_apply 0 0 loadReg),
    (served.flushed loadValueReg (by decide)).trans (delayedLoad_apply 0 0 loadValueReg)⟩

theorem Served.pc {cpu : Cpu Vm} (served : Served c noffH r s cpu) (sane : Sane r) :
    cpu.registers pcReg = r pcReg :=
  Retried.special (Or.inr served.flushed) sane (by decide) (by decide)

/-- The page of the code is in the table. -/
theorem Served.inside {cpu : Cpu Vm} (served : Served c noffH r s cpu) :
    codePage ⟨r, view s⟩ < s.numPages :=
  (Flat.aligned_of_accepts (by decide) served.accepts).2

theorem dataPage_lt (inside : codePage ⟨r, view s⟩ < s.numPages) :
    dataPage ⟨r, view s⟩ < s.numPages := by
  unfold dataPage
  split
  · split
    · exact inside
    · rename_i access
      unfold Flat.Refuses at access
      exact Nat.lt_of_not_le fun le => access (Or.inr le)
  · exact inside

/-- A page that is valid has its bytes. -/
theorem Ready.codeLoaded (ready : Ready c noffH s) (accepts : ¬ (view s).Refuses (r pcReg) 4)
    (valid : (s.pageTable (codePage ⟨r, view s⟩)).valid = true) : CodeLoaded r s := by
  intro k hk
  obtain ⟨aligned, inside⟩ := Flat.aligned_of_accepts (by decide) accepts
  obtain ⟨bytes, -, same⟩ := readMem_vbyte ready.running.owns ready.running.pages aligned
    inside valid
  rw [same k hk]
  exact Option.some_ne_none _

theorem Served.codeLoaded {cpu : Cpu Vm} (served : Served c noffH r s cpu) (sane : Sane r)
    (loaded : CodeLoaded r s) : CodeLoaded cpu.registers cpu.memory := by
  intro k hk
  obtain ⟨aligned, inside⟩ := Flat.aligned_of_accepts (by decide) served.accepts
  rw [served.pc sane, served.kept _ (by rw [(aligned.page hk).1]; exact inside) (loaded k hk)]
  exact loaded k hk

/-- **Once it is loaded, and no load is pending, an instruction asks for the same pages again.** -/
theorem Served.same_pages {cpu : Cpu Vm} (served : Served c noffH r s cpu) (sane : Sane r)
    (idle : Idle r) (loaded : CodeLoaded r s) :
    codePage ⟨cpu.registers, view cpu.memory⟩ = codePage ⟨r, view s⟩ ∧
      dataPage ⟨cpu.registers, view cpu.memory⟩ = dataPage ⟨r, view s⟩ := by
  have pc := served.pc sane
  have code : codePage ⟨cpu.registers, view cpu.memory⟩ = codePage ⟨r, view s⟩ := by
    unfold codePage
    rw [pc]
  refine ⟨code, ?_⟩
  have refuses : ∀ a size, (view cpu.memory).Refuses a size ↔ (view s).Refuses a size := by
    intro a size
    unfold Flat.Refuses
    rw [show (view cpu.memory).numPages = (view s).numPages from served.numPages]
  have word : (load 4 fun k => (view cpu.memory).bytes ((r pcReg).toNat + k)) =
      load 4 fun k => (view s).bytes ((r pcReg).toNat + k) := by
    refine load_congr (by decide) fun k hk => ?_
    obtain ⟨aligned, inside⟩ := Flat.aligned_of_accepts (by decide) served.accepts
    exact congrArg (Option.getD · 0)
      (served.kept _ (by rw [(aligned.page hk).1]; exact inside) (loaded k hk))
  have isFetched : fetched ⟨cpu.registers, view cpu.memory⟩ = fetched ⟨r, view s⟩ := by
    have accepts' : ¬ (view cpu.memory).Refuses (r pcReg) 4 := fun bad =>
      served.accepts ((refuses _ _).mp bad)
    simp only [fetched, pc, Flat.readMem, if_neg accepts', if_neg served.accepts, word, pure_eq_ok]
  have same : Same r cpu.registers := by
    have flushed := served.flushed
    rwa [flush_of_none sane idle] at flushed
  unfold dataPage
  rw [isFetched]
  cases found : fetched ⟨r, view s⟩ with
  | none => exact code
  | some i =>
      have fields : i.Fields := by
        unfold fetched at found
        split at found
        · cases found
          exact decode_fields _
        · cases found
      rw [Option.bind_some, Option.bind_some,
        Retried.execute (Or.inl same) sane fields (Or.inl idle)]
      cases (execute i r).access with
      | none => exact code
      | some access => simp only [refuses, code]

/-! ## At most four faults -/

theorem Through.not_faulted (through : Through c noffH (oneInstruction (vmOps c) ⟨r, s⟩))
    (cpu : Cpu Vm) :
    oneInstruction (vmOps c) ⟨r, s⟩ ≠ .ok (.trapped .pageFaultException cpu) := by
  intro faulted
  rw [faulted] at through
  cases through with
  | trapped which cpu ne => exact ne rfl

theorem Progresses.succ {n : Nat} {cpu : Cpu Vm} (progresses : Progresses c n cpu) :
    Progresses c (n + 1) cpu := by
  induction n generalizing cpu with
  | zero => exact fun cpu' faulted => absurd faulted (progresses cpu')
  | succ n ih =>
      intro cpu' faulted
      obtain ⟨cpu'', handled, rest⟩ := progresses cpu' faulted
      exact ⟨cpu'', handled, ih rest⟩

/-- What holds after a served fault is enough. -/
theorem Ready.progresses_succ {n : Nat} (ready : Ready c noffH s) (sane : Sane r)
    (after : ∀ cpu, Served c noffH r s cpu → Progresses c n cpu) : Progresses c (n + 1) ⟨r, s⟩ := by
  intro cpu faulted
  rcases ready.attempt sane with ⟨cpu₁, cpu', faulted', handled, served⟩ | through
  · rw [faulted] at faulted'
    cases faulted'
    exact ⟨cpu', handled, after cpu' served⟩
  · exact absurd faulted (through.not_faulted cpu)

/-- **When its two pages settle the instruction is through.** -/
theorem Ready.progresses_of_settles {n : Nat} (ready : Ready c noffH s) (sane : Sane r)
    (idle : Idle r) (loaded : CodeLoaded r s)
    (settles : Settles c (codePage ⟨r, view s⟩) (dataPage ⟨r, view s⟩) n s) :
    Progresses c n ⟨r, s⟩ := by
  induction n generalizing r s with
  | zero =>
      intro cpu faulted
      rcases ready.attempt sane with ⟨cpu₁, cpu', -, -, served⟩ | through
      · exact settles.done served.faults
      · exact through.not_faulted cpu faulted
  | succ n ih =>
      refine ready.progresses_succ sane fun cpu served => ?_
      have settles' := settles.fault served.faults
      obtain ⟨code, data⟩ := served.same_pages sane idle loaded
      rw [← code, ← data] at settles'
      exact ih served.ready served.sane served.idle (served.codeLoaded sane loaded) settles'

/-- **Any instruction progresses after four faults**, from any state in order and with any
registers.  The first fault may have been for data it does not ask for again. -/
theorem Ready.progresses (ready : Ready c noffH s) (sane : Sane r) (two : 2 ≤ c.numPhysPages) :
    Progresses c 4 ⟨r, s⟩ := by
  refine ready.progresses_succ sane fun cpu served => ?_
  have code : codePage ⟨cpu.registers, view cpu.memory⟩ = codePage ⟨r, view s⟩ := by
    unfold codePage
    rw [served.pc sane]
  have inside : codePage ⟨cpu.registers, view cpu.memory⟩ < cpu.memory.numPages := by
    rw [code, served.numPages]
    exact served.inside
  have accepts : ¬ (view cpu.memory).Refuses (cpu.registers pcReg) 4 := by
    rw [served.pc sane]
    unfold Flat.Refuses
    rw [show (view cpu.memory).numPages = (view s).numPages from served.numPages]
    exact served.accepts
  have turning : Turning c (codePage ⟨r, view s⟩)
      (dataPage ⟨cpu.registers, view cpu.memory⟩) s := by
    refine ⟨ready.running.owns, ready.hand, served.inside, ?_⟩
    rw [← served.numPages]
    exact dataPage_lt inside
  rcases served.faults with ⟨invalid, ret⟩ | ⟨valid, invalid, ret⟩
  · -- the fetch has faulted: from here on the page is in
    obtain ⟨turning', -, validI, -⟩ := turning.count.fault served.inside invalid ret
    rw [← code] at turning' validI
    exact served.ready.progresses_of_settles served.sane served.idle
      (served.ready.codeLoaded accepts validI) (settles_fetched turning' two validI)
  · have loaded := served.codeLoaded sane (ready.codeLoaded served.accepts valid)
    have hd := dataPage_lt served.inside
    obtain ⟨turning', -, validI | behind⟩ := turning.fault_fetched hd valid invalid ret
    · rw [← code] at turning' validI
      exact served.ready.progresses_of_settles served.sane served.idle loaded
        (settles_fetched turning' two validI)
    · rw [← code] at behind
      exact (served.ready.progresses_of_settles served.sane served.idle loaded
        (behind.settles two)).succ

end Instructions

/-! ## Reachable states -/

section Reachable

variable {c : Config} {noffH : NoffHeader} {s start : Vm} {r : Registers}

theorem Ready.turn {status : Status} (ready : Ready c noffH s) (sane : Sane r)
    (turned : UserProg.turn c ⟨r, s⟩ = .ok status) : Ready c noffH status.cpu.memory := by
  rcases ready.attempt sane with ⟨cpu, cpu', faulted, handled, served⟩ | through
  · simp only [UserProg.turn, faulted, ok_bind, handled, pure_eq_ok, Except.ok.injEq] at turned
    subst turned
    exact served.ready
  · generalize done : oneInstruction (vmOps c) ⟨r, s⟩ = t at through
    cases through with
    | completed cpu ready' =>
        rw [turn_completed done] at turned
        cases turned
        exact ready'
    | trapped which cpu ne ready' =>
        rw [turn_trapped done ne] at turned
        cases turned
        exact ready'
    | stopped e =>
        rw [UserProg.turn, done] at turned
        cases turned

theorem Ready.readByte {a : Word} {v : Option Word} {cpu : Cpu Vm} (ready : Ready c noffH s)
    (sane : Sane r)
    (read : UserProg.readByte c ⟨r, s⟩ a = .ok (v, cpu)) : Ready c noffH cpu.memory := by
  rcases ready.read (a := a) (Or.inl rfl) with
    ⟨-, inside, invalid, paged⟩ | ⟨-, paged⟩ | ⟨-, -, w, -, paged⟩
  · obtain ⟨r', s', handled, -, -, running, hand, pages, -⟩ :=
      handlePageFault_served ready.running ready.hand sane (Or.inl (Same.refl r)) inside invalid
        (ready.low inside) (ready.loadable _ inside)
    simp only [UserProg.readByte, paged, ok_bind, handleFault, handled, pure_eq_ok,
      Except.ok.injEq] at read
    cases read
    exact ready.step running hand pages
  · simp only [UserProg.readByte, paged, ok_bind, handleFault] at read
    obtain ⟨cpu', destroyed, -⟩ := bind_eq_ok.mp read
    obtain ⟨core, -, bad⟩ := bind_eq_ok.mp destroyed
    cases bad
  · simp only [UserProg.readByte, paged, ok_bind, pure_eq_ok, Except.ok.injEq] at read
    cases read
    exact ready.touch _

/-- **The states a process comes to are in order.** -/
theorem Reaches.ready (reaches : Reaches c start s) (ready : Ready c noffH start) :
    Ready c noffH s := by
  induction reaches with
  | start => exact ready
  | turn _ sane turned ih => exact ih.turn sane turned
  | readByte _ sane read ih => exact ih.readByte sane read

end Reachable

/-! ## Programs -/

section Programs

variable {c : Config} {core core' : Core} {e : OpenFile} {h : Int} {space : AddrSpace}
  {noffH : NoffHeader}

/-- Registers with which the instruction at `a` is next. -/
def atAddress (a : Word) : Registers := Registers.set (fun _ => 0) pcReg a

theorem atAddress_sane (a : Word) : Sane (atAddress a) := by
  refine ⟨rfl, ?_⟩
  show (0 : Word).toNat < numGPRegs
  decide

/-- To progress from a page that is not there is to have it brought in. -/
theorem Progresses.served {n : Nat} {s : Vm} {a : Word}
    (progresses : Progresses c (n + 1) ⟨atAddress a, s⟩)
    (aligned : a.toNat % 4 = 0) (inside : a.toNat / pageSize < s.numPages)
    (invalid : (s.pageTable (a.toNat / pageSize)).valid = false) :
    ∃ s', pageFault c s a = .ok s' := by
  have paged : s.readMem c a 4 = .ok (.exception .pageFaultException) :=
    readMem_fault ⟨Or.inr (Or.inr rfl), aligned⟩ inside invalid
  have pc : atAddress a pcReg = a := by simp [atAddress, Registers.set]
  obtain ⟨cpu, handled, -⟩ := progresses ⟨trapRegisters (atAddress a) a, s⟩ (by
    simp only [oneInstruction, vmOps, pc, paged, ok_bind, pure_eq_ok, raiseException])
  obtain ⟨s', fault, -⟩ := bind_eq_ok.mp handled
  have bad : ((trapRegisters (atAddress a) a).set pcReg (trapRegisters (atAddress a) a pcReg + 4))
      badVAddrReg = a :=
    (Function.update_of_ne (by decide) _ _).trans
      (trapRegisters_badVAddr a (atAddress_sane a).target)
  rw [bad] at fault
  exact ⟨s', fault⟩

/-- **Paging makes progress exactly for the programs the kernel can page in.**  A program alone on
a machine of at least two frames, under either policy and wherever the hand starts: in every state
it comes to, and with any registers, the next instruction is through after at most four page
faults in a row, if and only if its addresses are `int`s, every page has a place in the
executable, and the executable is not the file of its own backing store. -/
theorem paging_progresses (init : initializeSpace core e h = .ok (space, core'))
    (header : readHeader core.fileSystem e = .ok noffH)
    (manages : core.memmanage.Manages c.numPhysPages)
    (alone : ∀ f < c.numPhysPages, core.memmanage.allocated f = false) (two : 2 ≤ c.numPhysPages)
    (hand : HandInside space) :
    (∀ s, Reaches c ⟨core', space⟩ s → ∀ r, Sane r → Progresses c 4 ⟨r, s⟩) ↔
    Pageable noffH space := by
  obtain ⟨noffH', starts⟩ := initializeSpace_starts init
  obtain rfl : noffH' = noffH := Except.ok.inj (starts.header.symm.trans header)
  constructor
  · intro progresses
    refine starts.pageable manages alone hand fun a aligned inside => ?_
    refine (progresses _ .start (atAddress a) (atAddress_sane a)).served aligned inside ?_
    show (space.pageTable _).valid = false
    rw [starts.pageTable]
    rfl
  · intro pageable s reaches r sane
    have apart := pageable.apart
    rw [starts.storedExecutable] at apart
    have ready : Ready c noffH' ⟨core', space⟩ :=
      ⟨starts.runningAlone manages alone apart, hand, pageable.limit, pageable.loadable⟩
    exact (reaches.ready ready).progresses sane two

end Programs

/-- The stack program with its nine pages. -/
theorem paging_progresses_stack : Pageable sampleHeader smallSpace ∧
    ∀ s, Reaches fourFrames ⟨smallCore, smallSpace⟩ s → ∀ r, Sane r →
      Progresses fourFrames 4 ⟨r, s⟩ := by
  refine ⟨small_pageable,
    (paging_progresses small_init small_header ⟨rfl, rfl⟩ sample_booted.free (by decide) ?_).mpr
      small_pageable⟩
  exact ⟨by decide, by decide⟩

section Stuck

variable {c : Config} {n : Nat} {cpu cpu' : Cpu Vm}

theorem Progresses.retrying (progresses : Progresses c (n + 1) cpu)
    (turned : turn c cpu = .ok (.retrying cpu')) :
    Progresses c n cpu' := by
  obtain ⟨t, done, rest⟩ := bind_eq_ok.mp turned
  cases t with
  | completed cpu => cases rest
  | trapped which cpu₁ =>
      cases which with
      | pageFaultException =>
          obtain ⟨cpu₂, handled, last⟩ := bind_eq_ok.mp rest
          cases last
          obtain ⟨cpu₃, handled', rest⟩ := progresses cpu₁ done
          rw [handled] at handled'
          cases handled'
          exact rest
      | _ => cases rest

/-- A turn that fails has failed in the instruction, not in the handler. -/
theorem Progresses.stopped {e : Stop} (progresses : Progresses c (n + 1) cpu)
    (turned : turn c cpu = .error e) :
    oneInstruction (vmOps c) cpu = .error e := by
  cases done : oneInstruction (vmOps c) cpu with
  | error e' =>
      rw [turn, done, error_bind] at turned
      cases turned
      rfl
  | ok t =>
      exfalso
      cases t with
      | completed cpu =>
          rw [turn_completed done] at turned
          cases turned
      | trapped which cpu₁ =>
          by_cases fault : which = .pageFaultException
          · subst fault
            obtain ⟨cpu₂, handled, -⟩ := progresses cpu₁ done
            simp only [turn, done, ok_bind, handled, pure_eq_ok] at turned
            cases turned
          · rw [turn_trapped done fault] at turned
            cases turned

/-- The first fault is served, and the handler stops in the second. -/
def secondFaultFails (c : Config) (cpu : Cpu Vm) : Bool :=
  match turn c cpu with
  | .ok (.retrying cpu) => (oneInstruction (vmOps c) cpu).toBool && !(turn c cpu).toBool
  | _ => false

theorem not_progresses (fails : secondFaultFails c cpu = true) : ¬ Progresses c (n + 2) cpu := by
  intro progresses
  unfold secondFaultFails at fails
  split at fails
  · rename_i cpu' turned
    have progresses' := progresses.retrying turned
    rw [Bool.and_eq_true] at fails
    cases second : turn c cpu' with
    | ok status => simp [second, Except.toBool] at fails
    | error e => simp [progresses'.stopped second, Except.toBool] at fails
  · cases fails

end Stuck

/-- The stack program with an image of more than `2 ^ 24` pages.  Its first instruction loads from
its stack; the fetch faults and is served, and in the fault on the stack the handler leaves the
table. -/
theorem stack_not_served :
    initializeSpace (stackCore 0x7fffffff) ⟨0⟩ 0 = .ok (hugeSpace, hugeCore) ∧
    (stackCore 0x7fffffff).memmanage.Manages fourFrames.numPhysPages ∧
    (∀ f < fourFrames.numPhysPages, (stackCore 0x7fffffff).memmanage.allocated f = false) ∧
    2 ≤ fourFrames.numPhysPages ∧ HandInside hugeSpace ∧
    Sane (initRegisters hugeSpace.numPages) ∧
    ¬ Progresses fourFrames 4 (startPaged hugeCore hugeSpace) := by
  refine ⟨rfl, ⟨rfl, rfl⟩,
    sample_booted.free, by decide, ⟨by decide, by decide⟩, initRegisters_sane _, ?_⟩
  exact not_progresses rfl

end Nachos.UserProg
