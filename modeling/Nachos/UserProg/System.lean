/-
# Nachos.UserProg.System -- many processes on one machine

The kernel with any number of processes.  A move is a program started from a file
(`StartProcess` or `Exec`), a memory access of a live process with the exception it
may raise, an exit, or the destructor of a process that has exited.  A page fault
runs the handler to its end, for the handler never gives the processor away; moves of
different processes interleave in any order.

`Sound` is the frame invariant over all page tables and the one bitmap.  A process
sees it as `Owns` with `others` the frames of everybody else (`Sound.owns`), and a
step that keeps `Owns` keeps `Sound` (`Sound.resume`): what the routines of paging do
for one process is all that has to be known of them.

The handler computes the page as `input / PageSize` on a signed `int`, where
`Translate` divides as unsigned.  In an address space of exactly `2^25` pages the two
disagree without leaving the table: a fault on the last page is served as one on
page 0, and `frame_leaked` loses a frame that way.  Below that size
`frames_owned` holds in every run.
-/
import Nachos.UserProg.Coherence
import Nachos.Lib.Run

namespace Nachos.UserProg

open Nachos.Lib.Bytes
open Nachos.Lib.Run
open Nachos.Machine
open Nachos.FileSys (FileSystem OpenFile)

set_option autoImplicit false

structure System where
  core : Core
  /-- The address spaces of the processes that have not exited. -/
  live : Nat → Option AddrSpace
  /-- The address spaces of exited processes, until their threads are deleted. -/
  exited : Nat → Option AddrSpace
  /-- A history variable: what each process has done and read, newest first. -/
  seen : Nat → List Event

/-- The kernel before any process, with the frames as `MemoryManager::MemoryManager`
leaves them. -/
structure Booted (c : Config) (sys : System) : Prop where
  manages : sys.core.memmanage.Manages c.numPhysPages
  free : ∀ f < c.numPhysPages, sys.core.memmanage.allocated f = false
  live : ∀ p, sys.live p = none
  exited : ∀ p, sys.exited p = none

inductive Move where
  | exec (p : Nat) (name : String) (clockHand : Int)
  | access (p : Nat) (op : Op)
  | exit (p : Nat)
  | reap (p : Nat)
  deriving DecidableEq

/-- `stats->numPageFaults += 1`. -/
def counted (s : Vm) : Vm :=
  { s with stats := { s.stats with numPageFaults := s.stats.numPageFaults + 1 } }

/-- `ExceptionHandler(PageFaultException)` with the faulting address in `BadVAddrReg`. -/
def pageFault (c : Config) (s : Vm) (badVAddr : Word) : Except Stop Vm := do
  let (_, s) ← demandpage c (counted s) (badVAddr.toInt.tdiv pageSize)
  return s

namespace System

/-- Process `p` gives the processor back in state `s`. -/
def resume (sys : System) (p : Nat) (s : Vm) : System :=
  { sys with core := s.toCore, live := Function.update sys.live p (some s.toAddrSpace) }

def record (sys : System) (p : Nat) (event : Event) : System :=
  { sys with seen := Function.update sys.seen p (event :: sys.seen p) }

/-- `SC_Exec` and `StartProcess`, once the name is known. -/
def start (sys : System) (p : Nat) (name : String) (clockHand : Int) : Option System :=
  match sys.core.fileSystem.open name with
  | none => some sys
  | some executable =>
      match initializeSpace sys.core executable clockHand with
      | .error _ => none
      | .ok (space, core) => some
          { sys with
            core
            live := Function.update sys.live p (some space)
            seen := Function.update sys.seen p [] }

/-- `SC_Exit` and `Destroy`. -/
def finish (sys : System) (p : Nat) (space : AddrSpace) : Option System :=
  match clearState sys.core space with
  | .error _ => none
  | .ok core => some
      { sys with
        core
        live := Function.update sys.live p none
        exited := Function.update sys.exited p (some space) }

/-- An access of a live process, and the exception it may raise. -/
def touch (c : Config) (sys : System) (p : Nat) (space : AddrSpace) (op : Op) : Option System :=
  match attempt c ⟨sys.core, space⟩ op with
  | .error _ => none
  | .ok (.value event s) => some ((sys.resume p s).record p event)
  | .ok (.exception .pageFaultException) =>
      match pageFault c ⟨sys.core, space⟩ op.addr with
      | .error _ => none
      | .ok s => some (sys.resume p s)
  | .ok (.exception _) => sys.finish p space

/-- One move.  `none`: it is not possible here, or control does not come back. -/
def step (c : Config) (sys : System) : Move → Option System
  | .exec p name clockHand =>
      if sys.live p = none ∧ sys.exited p = none then sys.start p name clockHand else none
  | .access p op => (sys.live p).bind fun space => sys.touch c p space op
  | .exit p => (sys.live p).bind fun space => sys.finish p space
  | .reap p => (sys.exited p).map fun space =>
      { sys with
        core := { sys.core with
          fileSystem := BackingStore.destroy sys.core.fileSystem space.backing }
        exited := Function.update sys.exited p none }

end System

/-! ## The frame invariant -/

/-- A frame of a live process other than `p`. -/
def System.others (sys : System) (p f : Nat) : Prop :=
  ∃ q space i, q ≠ p ∧ sys.live q = some space ∧ Maps space i f

structure Sound (c : Config) (sys : System) : Prop where
  manages : sys.core.memmanage.Manages c.numPhysPages
  bounded : ∀ p space i, sys.live p = some space → i < space.numPages →
    (space.pageTable i).valid = true → ∃ f < c.numPhysPages, (space.pageTable i).physicalPage = f
  unique : ∀ p q space space' i j f, sys.live p = some space → sys.live q = some space' →
    Maps space i f → Maps space' j f → p = q ∧ i = j
  allocated : ∀ f < c.numPhysPages, sys.core.memmanage.allocated f = true ↔
    ∃ p space i, sys.live p = some space ∧ Maps space i f
  numbered : ∀ p space, sys.live p = some space → AllNumbered space
  small : ∀ p space, sys.live p = some space → space.numPages < 2 ^ 25

section Invariant

variable {c : Config} {sys sys' : System} {p : Nat} {space : AddrSpace} {s s' : Vm}

/-- The invariant as process `p` sees it. -/
theorem Sound.owns (sound : Sound c sys) (live : sys.live p = some space) :
    Owns c (sys.others p) ⟨sys.core, space⟩ := by
  refine ⟨sound.manages, fun i => sound.bounded p space i live, ?_, ?_, ?_⟩
  · intro i j f maps maps'
    exact (sound.unique p p space space i j f live live maps maps').2
  · rintro i f maps ⟨q, space', j, ne, live', maps'⟩
    exact ne (sound.unique q p space' space j i f live' live maps' maps).1
  · intro f lt
    show sys.core.memmanage.allocated f = true ↔ _
    rw [sound.allocated f lt]
    constructor
    · rintro ⟨q, space', i, live', maps⟩
      by_cases here : q = p
      · subst here
        rw [live] at live'
        cases live'
        exact Or.inr ⟨i, maps⟩
      · exact Or.inl ⟨q, space', i, here, live', maps⟩
    · rintro (⟨q, space', i, -, live', maps⟩ | ⟨i, maps⟩)
      · exact ⟨q, space', i, live', maps⟩
      · exact ⟨p, space, i, live, maps⟩

theorem resume_live (q : Nat) :
    (sys.resume p s).live q = if q = p then some s.toAddrSpace else sys.live q := by
  unfold System.resume
  by_cases here : q = p
  · subst here
    rw [if_pos rfl]
    exact Function.update_self _ _ _
  · rw [if_neg here]
    exact Function.update_of_ne here _ _

/-- **What a process does with frames of its own keeps everybody's frames.** -/
theorem Sound.resume (sound : Sound c sys) (owns : Owns c (sys.others p) s)
    (numbered : AllNumbered s.toAddrSpace) (small : s.numPages < 2 ^ 25) :
    Sound c (sys.resume p s) := by
  -- a live process of the new state is `p` itself, or somebody else as before
  have look : ∀ q space', (sys.resume p s).live q = some space' →
      (q = p ∧ space' = s.toAddrSpace) ∨ (q ≠ p ∧ sys.live q = some space') := by
    intro q space' live
    rw [resume_live] at live
    split at live
    · rename_i here
      cases live
      exact Or.inl ⟨here, rfl⟩
    · rename_i elsewhere
      exact Or.inr ⟨elsewhere, live⟩
  refine ⟨owns.manages, ?_, ?_, ?_, ?_, ?_⟩
  · intro q space' i live hi valid
    rcases look q space' live with ⟨-, rfl⟩ | ⟨-, old⟩
    · exact owns.bounded i hi valid
    · exact sound.bounded q space' i old hi valid
  · intro q r space' space'' i j f live live' maps maps'
    rcases look q space' live with ⟨rfl, rfl⟩ | ⟨ne, old⟩ <;>
      rcases look r space'' live' with ⟨rfl, rfl⟩ | ⟨ne', old'⟩
    · exact ⟨rfl, owns.unique i j f maps maps'⟩
    · exact absurd ⟨r, space'', j, ne', old', maps'⟩ (owns.apart i f maps)
    · exact absurd ⟨q, space', i, ne, old, maps⟩ (owns.apart j f maps')
    · exact sound.unique q r space' space'' i j f old old' maps maps'
  · intro f lt
    show s.memmanage.allocated f = true ↔ _
    rw [owns.allocated f lt]
    constructor
    · rintro (⟨q, space', i, ne, live, maps⟩ | ⟨i, maps⟩)
      · refine ⟨q, space', i, ?_, maps⟩
        rw [resume_live, if_neg ne]
        exact live
      · refine ⟨p, s.toAddrSpace, i, ?_, maps⟩
        rw [resume_live, if_pos rfl]
    · rintro ⟨q, space', i, live, maps⟩
      rcases look q space' live with ⟨-, rfl⟩ | ⟨ne, old⟩
      · exact Or.inr ⟨i, maps⟩
      · exact Or.inl ⟨q, space', i, ne, old, maps⟩
  · intro q space' live
    rcases look q space' live with ⟨-, rfl⟩ | ⟨-, old⟩
    · exact numbered
    · exact sound.numbered q space' old
  · intro q space' live
    rcases look q space' live with ⟨-, rfl⟩ | ⟨-, old⟩
    · exact small
    · exact sound.small q space' old

/-- The invariant does not look at files, at what was read, or at the exited. -/
theorem Sound.congr (sound : Sound c sys) (memmanage : sys'.core.memmanage = sys.core.memmanage)
    (live : sys'.live = sys.live) : Sound c sys' := by
  refine ⟨?_, ?_, ?_, ?_, ?_, ?_⟩
  · rw [memmanage]; exact sound.manages
  · rw [live]; exact sound.bounded
  · rw [live]; exact sound.unique
  · rw [live, memmanage]; exact sound.allocated
  · rw [live]; exact sound.numbered
  · rw [live]; exact sound.small

end Invariant

/-! ## What each move does to the frames -/

section Moves

variable {c : Config} {others : Nat → Prop} {sys sys' : System} {p : Nat} {space : AddrSpace}
  {s s' : Vm}

/-- An address that is not negative is on the page the handler computes. -/
theorem handler_page_of_nonneg {a : Word} (nonneg : 0 ≤ a.toInt) :
    a.toInt.tdiv pageSize = (a.toNat / pageSize : Nat) := by
  have value : a.toInt = a.toNat := by
    rw [BitVec.toInt_eq_toNat_cond] at nonneg ⊢
    split at nonneg <;> omega
  rw [value]
  rfl

/-- The faulting address and the page the handler serves. -/
theorem handler_page {a : Word} (inside : a.toNat / pageSize < s.numPages)
    (small : s.numPages < 2 ^ 25) {r : Bool × Vm}
    (ret : demandpage c s (a.toInt.tdiv pageSize) = .ok r) :
    0 ≤ a.toInt ∧ a.toNat / pageSize < pageLimit ∧
      a.toInt.tdiv pageSize = (a.toNat / pageSize : Nat) := by
  have bound := a.isLt
  have value := BitVec.toInt_eq_toNat_cond a
  by_cases low : a.toNat < 2 ^ 31
  · rw [if_pos (by omega)] at value
    have nonneg : 0 ≤ a.toInt := by omega
    refine ⟨nonneg, ?_, handler_page_of_nonneg nonneg⟩
    simp only [pageLimit, pageSize]
    omega
  · -- the index is negative, and the handler would have left the table
    exfalso
    rw [if_neg (by omega)] at value
    obtain ⟨i, found, -⟩ := bind_eq_ok.mp ret
    unfold index at found
    split at found
    · rename_i nonneg
      have page : a.toNat < (2 ^ 25 - 1) * 128 := by
        simp only [pageSize] at inside
        omega
      have negative : a.toInt.tdiv pageSize < 0 := by
        rw [value]
        simp only [pageSize]
        have : ((a.toNat : Int) - (2 ^ 32 : Nat)).tdiv (128 : Nat) ≤ -1 := by
          have := Int.tdiv_le_tdiv (a := (a.toNat : Int) - (2 ^ 32 : Nat)) (b := -128)
            (c := (128 : Nat)) (by omega) (by omega)
          exact this
        omega
      omega
    · cases found

theorem counted_owns (owns : Owns c others s) : Owns c others (counted s) :=
  owns.congr rfl rfl (fun _ _ => rfl) (fun _ _ _ => rfl)

/-- A page fault that returns serves the page that faulted. -/
theorem pageFault_cases {a : Word} (inside : a.toNat / pageSize < s.numPages)
    (small : s.numPages < 2 ^ 25) (ret : pageFault c s a = .ok s') :
    a.toNat / pageSize < pageLimit ∧
      ∃ b, demandpage c (counted s) (a.toNat / pageSize : Nat) = .ok (b, s') := by
  obtain ⟨⟨b, s₁⟩, served, last⟩ := bind_eq_ok.mp ret
  cases last
  obtain ⟨-, low, page⟩ := handler_page (s := counted s) inside small served
  rw [page] at served
  exact ⟨low, b, served⟩

theorem pageFault_owns {a : Word} (owns : Owns c others s) (numbered : AllNumbered s.toAddrSpace)
    (inside : a.toNat / pageSize < s.numPages) (small : s.numPages < 2 ^ 25)
    (invalid : (s.pageTable (a.toNat / pageSize)).valid = false)
    (ret : pageFault c s a = .ok s') :
    Owns c others s' ∧ AllNumbered s'.toAddrSpace ∧ s'.numPages < 2 ^ 25 := by
  obtain ⟨low, b, served⟩ := pageFault_cases inside small ret
  have owns' := counted_owns owns
  refine ⟨demandpage_owns owns' inside invalid served,
    demandpage_numbered owns' numbered inside low invalid served, ?_⟩
  rw [(demandpage_confined owns' inside invalid served).numPages]
  exact small

/-- The loop of `ClearState` frees the frames of the pages it has seen. -/
theorem clearStateBelow_frees {mm : MemoryManager} {n : Nat} (manages : mm.Manages c.numPhysPages)
    (bounded : ∀ i < n, (space.pageTable i).valid = true →
      ∃ f < c.numPhysPages, (space.pageTable i).physicalPage = f) :
    ∃ mm', clearStateBelow space mm n = .ok mm' ∧ mm'.Manages c.numPhysPages ∧
      ∀ f, mm'.allocated f = true ↔ mm.allocated f = true ∧
        ¬ ∃ i < n, (space.pageTable i).valid = true ∧ (space.pageTable i).physicalPage = f := by
  induction n with
  | zero =>
      refine ⟨mm, rfl, manages, fun f => (and_iff_left ?_).symm⟩
      rintro ⟨i, lt, -⟩
      omega
  | succ n ih =>
      obtain ⟨mm₁, cleared, manages₁, frees₁⟩ := ih fun i lt => bounded i (by omega)
      rw [clearStateBelow, cleared, ok_bind]
      cases valid : (space.pageTable n).valid with
      | false =>
          refine ⟨mm₁, by simp [valid], manages₁, fun f => ?_⟩
          rw [frees₁ f]
          refine and_congr_right fun _ => not_congr ⟨?_, ?_⟩
          · rintro ⟨i, lt, here⟩
            exact ⟨i, by omega, here⟩
          · rintro ⟨i, lt, here⟩
            have ne : i ≠ n := by
              rintro rfl
              rw [valid] at here
              cases here.1
            exact ⟨i, by omega, here⟩
      | true =>
          obtain ⟨g, glt, phys⟩ := bounded n (by omega) valid
          obtain ⟨mm₂, freed, manages₂, frees₂⟩ := MemoryManager.freePage_natCast manages₁ glt
          refine ⟨mm₂, ?_, manages₂, fun f => ?_⟩
          · simpa only [valid, phys, Int.natCast_nonneg, decide_true, Bool.and_self, if_true]
              using freed
          · rw [frees₂ f, Bool.and_eq_true, frees₁ f, Bool.not_eq_true', decide_eq_false_iff_not]
            constructor
            · rintro ⟨ne, old, none_⟩
              refine ⟨old, ?_⟩
              rintro ⟨i, lt, here⟩
              by_cases last : i = n
              · subst last
                have : (g : Int) = f := phys.symm.trans here.2
                omega
              · exact none_ ⟨i, by omega, here⟩
            · rintro ⟨old, none_⟩
              refine ⟨?_, old, ?_⟩
              · rintro rfl
                exact none_ ⟨n, by omega, valid, phys⟩
              · rintro ⟨i, lt, here⟩
                exact none_ ⟨i, by omega, here⟩

/-- A process that exits takes nothing with it. -/
theorem finish_sound (sound : Sound c sys) (live : sys.live p = some space)
    (done : sys.finish p space = some sys') : Sound c sys' := by
  obtain ⟨mm, cleared, manages, frees⟩ := clearStateBelow_frees (n := space.numPages)
    sound.manages fun i => sound.bounded p space i live
  unfold System.finish clearState at done
  rw [cleared] at done
  cases done
  have look : ∀ q space', Function.update sys.live p none q = some space' →
      q ≠ p ∧ sys.live q = some space' := by
    intro q space' found
    by_cases here : q = p
    · subst here
      rw [Function.update_self] at found
      cases found
    · rw [Function.update_of_ne here] at found
      exact ⟨here, found⟩
  refine ⟨manages, ?_, ?_, ?_, ?_, ?_⟩
  · intro q space' i found
    exact sound.bounded q space' i (look q space' found).2
  · intro q r space' space'' i j f found found'
    exact sound.unique q r space' space'' i j f (look q space' found).2 (look r space'' found').2
  · intro f lt
    show mm.allocated f = true ↔ _
    rw [frees f, sound.allocated f lt]
    constructor
    · rintro ⟨⟨q, space', i, found, maps⟩, none_⟩
      have ne : q ≠ p := by
        rintro rfl
        rw [live] at found
        cases found
        exact none_ ⟨i, maps⟩
      exact ⟨q, space', i, (Function.update_of_ne ne _ _).trans found, maps⟩
    · rintro ⟨q, space', i, found, maps⟩
      obtain ⟨ne, old⟩ := look q space' found
      refine ⟨⟨q, space', i, old, maps⟩, ?_⟩
      rintro ⟨j, here⟩
      exact ne (sound.unique q p space' space i j f old live maps here).1
  · intro q space' found
    exact sound.numbered q space' (look q space' found).2
  · intro q space' found
    exact sound.small q space' (look q space' found).2

theorem starts_numbered {core core' : Core} {e : OpenFile} {h : Int} {noffH : NoffHeader}
    (starts : Starts core e h noffH space core') : AllNumbered space := by
  intro i _
  rw [show Numbered space i ↔ Numbered { space with pageTable := freshEntry } i by
    rw [← starts.pageTable]]
  exact ⟨rfl, rfl, fun loaded => absurd loaded (show ¬ (0 : Int) ≤ -1 by decide)⟩

/-- The image of a program that is started has fewer than `2^25` pages. -/
def Fits (sys : System) : Move → Prop
  | .exec _ name _ => ∀ e noffH, sys.core.fileSystem.open name = some e →
      readHeader sys.core.fileSystem e = .ok noffH → imagePages noffH < 2 ^ 25
  | .access _ _ => True
  | .exit _ => True
  | .reap _ => True

instance (sys : System) (m : Move) : Decidable (Fits sys m) :=
  match m with
  | .exec _ name _ =>
      match opened : sys.core.fileSystem.open name with
      | none => isTrue fun e _ found => by
          rw [opened] at found
          cases found
      | some e =>
          match header : readHeader sys.core.fileSystem e with
          | .error _ => isTrue fun e' _ found read => by
              rw [opened] at found
              cases found
              rw [header] at read
              cases read
          | .ok noffH => decidable_of_iff (imagePages noffH < 2 ^ 25) <| by
              refine ⟨fun small e' noffH' found read => ?_, fun fits => fits e noffH opened header⟩
              rw [opened] at found
              cases found
              rw [header] at read
              cases read
              exact small
  | .access _ _ => isTrue trivial
  | .exit _ => isTrue trivial
  | .reap _ => isTrue trivial

/-- A new process maps nothing, so the invariant asks nothing new of the others. -/
theorem launch_sound {core : Core} {e : OpenFile} {h : Int} {noffH : NoffHeader}
    (sound : Sound c sys)
    (unused : sys.live p = none) (starts : Starts sys.core e h noffH space core)
    (small : imagePages noffH < 2 ^ 25) : Sound c (sys.resume p ⟨core, space⟩) := by
  have invalid : ∀ i f, ¬ Maps space i f := by
    rintro i f ⟨-, valid, -⟩
    rw [starts.pageTable] at valid
    cases valid
  have owns : Owns c (sys.others p) ⟨core, space⟩ := by
    refine ⟨starts.memmanage ▸ sound.manages, ?_, ?_, ?_, ?_⟩
    · intro i _ valid
      rw [show (⟨core, space⟩ : Vm).pageTable = freshEntry from starts.pageTable] at valid
      cases valid
    · intro i j f maps
      exact absurd maps (invalid i f)
    · intro i f maps
      exact absurd maps (invalid i f)
    · intro f lt
      show core.memmanage.allocated f = true ↔ _
      rw [starts.memmanage, sound.allocated f lt]
      constructor
      · rintro ⟨q, space', i, found, maps⟩
        refine Or.inl ⟨q, space', i, ?_, found, maps⟩
        rintro rfl
        rw [unused] at found
        cases found
      · rintro (⟨q, space', i, -, found, maps⟩ | ⟨i, maps⟩)
        · exact ⟨q, space', i, found, maps⟩
        · exact absurd maps (invalid i f)
  refine sound.resume owns (starts_numbered starts) ?_
  show space.numPages < 2 ^ 25
  rw [starts.numPages]
  exact small

theorem start_sound {name : String} {h : Int} (sound : Sound c sys) (unused : sys.live p = none)
    (fits : Fits sys (.exec p name h)) (started : sys.start p name h = some sys') :
    Sound c sys' := by
  unfold System.start at started
  split at started
  · cases started
    exact sound
  · rename_i e opened
    split at started
    · cases started
    · rename_i space core init
      cases started
      obtain ⟨noffH, starts⟩ := initializeSpace_starts init
      exact (launch_sound sound unused starts (fits e noffH opened starts.header)).congr rfl rfl

theorem touch_sound {op : Op} (sound : Sound c sys) (live : sys.live p = some space)
    (touched_ : sys.touch c p space op = some sys') : Sound c sys' := by
  have owns := sound.owns live
  have numbered := sound.numbered p space live
  have small := sound.small p space live
  unfold System.touch at touched_
  split at touched_
  · cases touched_
  · rename_i event s tried
    cases touched_
    rcases attempt_cases tried with ⟨event', w, m, same, -⟩ | ⟨which, bad, -⟩
    · cases same
      have owns' : Owns c (sys.others p)
          { touched ⟨sys.core, space⟩ op.page w with mainMemory := m } :=
        (touched_owns owns).congr rfl rfl (fun _ _ => rfl) (fun _ _ _ => rfl)
      exact (sound.resume owns' (touched_numbered numbered) small).congr rfl rfl
    · cases bad
  · rename_i tried
    rcases attempt_cases tried with ⟨event', w, m, same, -⟩ | ⟨which, same, fault⟩
    · cases same
    · cases same
      obtain ⟨inside, invalid⟩ := fault rfl
      split at touched_
      · cases touched_
      · rename_i s served
        cases touched_
        obtain ⟨owns', numbered', small'⟩ :=
          pageFault_owns owns numbered inside small invalid served
        exact sound.resume owns' numbered' small'
  · exact finish_sound sound live touched_

/-- **Every move keeps the frame invariant.** -/
theorem step_sound {m : Move} (sound : Sound c sys) (fits : Fits sys m)
    (moved : sys.step c m = some sys') : Sound c sys' := by
  cases m with
  | exec p name h =>
      simp only [System.step] at moved
      split at moved
      · rename_i unused
        exact start_sound sound unused.1 fits moved
      · cases moved
  | access p op =>
      obtain ⟨space, live, rest⟩ := Option.bind_eq_some_iff.mp moved
      exact touch_sound sound live rest
  | exit p =>
      obtain ⟨space, live, rest⟩ := Option.bind_eq_some_iff.mp moved
      exact finish_sound sound live rest
  | reap p =>
      obtain ⟨space, -, rfl⟩ := Option.map_eq_some_iff.mp moved
      exact sound.congr rfl rfl

theorem Booted.sound (booted : Booted c sys) : Sound c sys := by
  have nobody : ∀ p space, sys.live p ≠ some space := by
    intro p space found
    rw [booted.live p] at found
    cases found
  refine ⟨booted.manages, ?_, ?_, ?_, ?_, ?_⟩
  · intro p space _ found
    exact absurd found (nobody p space)
  · intro p q space _ _ _ _ found
    exact absurd found (nobody p space)
  · intro f lt
    rw [booted.free f lt]
    constructor
    · intro bad
      cases bad
    · rintro ⟨p, space, i, found, -⟩
      exact absurd found (nobody p space)
  · intro p space found
    exact absurd found (nobody p space)
  · intro p space found
    exact absurd found (nobody p space)

end Moves

/-! ## Moves of other processes -/

/-- The process that moves. -/
def Move.process : Move → Nat
  | .exec p _ _ => p
  | .access p _ => p
  | .exit p => p
  | .reap p => p

section Bystanders

variable {c : Config} {sys sys' : System} {q : Nat}

theorem finish_live {p : Nat} {space : AddrSpace} (done : sys.finish p space = some sys')
    (ne : q ≠ p) : sys'.live q = sys.live q := by
  unfold System.finish at done
  split at done
  · cases done
  · cases done
    exact Function.update_of_ne ne _ _

/-- A move changes the address space of no other process. -/
theorem step_live {m : Move} (moved : sys.step c m = some sys') (ne : q ≠ m.process) :
    sys'.live q = sys.live q := by
  cases m with
  | exec p name h =>
      simp only [System.step, System.start] at moved
      split at moved
      · split at moved
        · cases moved
          rfl
        · split at moved
          · cases moved
          · cases moved
            exact Function.update_of_ne ne _ _
      · cases moved
  | access p op =>
      obtain ⟨space, -, rest⟩ := Option.bind_eq_some_iff.mp moved
      unfold System.touch at rest
      split at rest
      · cases rest
      · cases rest
        exact Function.update_of_ne ne _ _
      · split at rest
        · cases rest
        · cases rest
          exact Function.update_of_ne ne _ _
      · exact finish_live rest ne
  | exit p =>
      obtain ⟨space, -, rest⟩ := Option.bind_eq_some_iff.mp moved
      exact finish_live rest ne
  | reap p =>
      obtain ⟨space, -, rfl⟩ := Option.map_eq_some_iff.mp moved
      rfl

theorem exec_live {es : List Move} (bystander : ∀ m ∈ es, q ≠ m.process)
    (run : exec (System.step c) sys es = some sys') : sys'.live q = sys.live q := by
  induction es generalizing sys with
  | nil =>
      cases run
      rfl
  | cons m es ih =>
      obtain ⟨sys₁, moved, rest⟩ := exec_cons_eq_some.mp run
      rw [ih (fun m' member => bystander m' (List.mem_cons_of_mem _ member)) rest,
        step_live moved (bystander m List.mem_cons_self)]

end Bystanders

/-! ## Frames are owned -/

/-- Every valid entry of a live process has a frame of the machine, no two the same,
and the memory manager reports exactly these frames allocated. -/
structure FramesOwned (c : Config) (sys : System) : Prop where
  inRange : ∀ p space i, sys.live p = some space → i < space.numPages →
    (space.pageTable i).valid = true →
    0 ≤ (space.pageTable i).physicalPage ∧ (space.pageTable i).physicalPage < c.numPhysPages
  exclusive : ∀ p q space space' i j, sys.live p = some space → sys.live q = some space' →
    i < space.numPages → j < space'.numPages →
    (space.pageTable i).valid = true → (space'.pageTable j).valid = true →
    (space.pageTable i).physicalPage = (space'.pageTable j).physicalPage → p = q ∧ i = j
  allocated : ∀ f < c.numPhysPages, sys.core.memmanage.pageIsAllocated f = .ok true ↔
    ∃! e : Nat × Nat, ∃ space, sys.live e.1 = some space ∧ Maps space e.2 f

section Ownership

variable {c : Config} {sys sys' : System}

theorem Sound.framesOwned (sound : Sound c sys) : FramesOwned c sys := by
  refine ⟨?_, ?_, ?_⟩
  · intro p space i live hi valid
    obtain ⟨f, lt, phys⟩ := sound.bounded p space i live hi valid
    rw [phys]
    exact ⟨Int.natCast_nonneg f, Int.ofNat_lt.mpr lt⟩
  · intro p q space space' i j live live' hi hj valid valid' same
    obtain ⟨f, -, phys⟩ := sound.bounded p space i live hi valid
    exact sound.unique p q space space' i j f live live' ⟨hi, valid, phys⟩
      ⟨hj, valid', same.symm.trans phys⟩
  · intro f lt
    rw [MemoryManager.pageIsAllocated_natCast sound.manages lt, Except.ok.injEq,
      sound.allocated f lt]
    constructor
    · rintro ⟨p, space, i, live, maps⟩
      refine ⟨(p, i), ⟨space, live, maps⟩, ?_⟩
      rintro ⟨q, j⟩ ⟨space', live', maps'⟩
      obtain ⟨rfl, rfl⟩ := sound.unique q p space' space j i f live' live maps' maps
      rfl
    · rintro ⟨⟨p, i⟩, ⟨space, live, maps⟩, -⟩
      exact ⟨p, space, i, live, maps⟩

/-- **Frames are owned in every run** that starts no program of `2^25` pages: however
page faults, accesses, starts and exits interleave, no frame is shared, lost or freed
twice. -/
theorem frames_owned {es : List Move} (booted : Booted c sys)
    (fits : AllSteps (System.step c) Fits sys es) :
    AllStates (System.step c) (FramesOwned c) sys es := by
  have keep : ∀ sys m sys', Sound c sys → Fits sys m → System.step c sys m = some sys' →
      Sound c sys' := fun _ _ _ sound fits moved => step_sound sound fits moved
  exact (allStates_of_invariant keep booted.sound fits).mono fun _ sound => sound.framesOwned

end Ownership

/-- The sample program on a machine of four frames. -/
def sampleSystem : System := ⟨sampleCore 4, fun _ => none, fun _ => none, fun _ => []⟩

/-- Four frames, as in `machine.h`. -/
def fourFrames : Config := ⟨4, false, by decide, by decide⟩

theorem sample_booted : Booted fourFrames sampleSystem := by
  refine ⟨⟨rfl, rfl⟩, ?_, fun _ => rfl, fun _ => rfl⟩
  show ∀ f < 4, (sampleCore 4).memmanage.allocated f = false
  decide

/-- Two processes of the sample program.  The first fills the memory and goes on to evict its
own pages, one of them dirty; the second takes a frame when the first exits. -/
def busyMoves : List Move :=
  [.exec 0 "a.out" 0, .exec 1 "a.out" 0, .access 0 (.write 4 4 7), .access 0 (.write 4 4 7),
    .access 0 (.read 128 4), .access 1 (.read 0 4), .access 0 (.read 256 4),
    .access 0 (.read 384 4), .access 0 (.read 512 4), .access 0 (.read 4 4), .exit 0,
    .access 1 (.write 128 4 9), .reap 0]

theorem frames_owned_sample :
    (exec (System.step fourFrames) sampleSystem busyMoves).isSome = true ∧
      AllStates (System.step fourFrames) (FramesOwned fourFrames) sampleSystem busyMoves :=
  ⟨by decide +kernel, frames_owned sample_booted (by decide +kernel)⟩

/-- A header whose segments and stack fill the 32-bit space: `2^25` pages. -/
def hugeFile : List Byte :=
  [0xad, 0xdf, 0xba, 0, 0, 0, 0, 0, 40, 0, 0, 0, 128, 0, 0, 0, 0, 0, 0, 0, 0, 0, 0, 0, 0, 0, 0, 0,
    0, 0, 0, 0, 0, 0, 0, 0, 0x7f, 0xfb, 0xff, 0xff] ++ List.replicate 128 1

def hugeSystem : System :=
  { sampleSystem with core := { sampleCore 4 with fileSystem :=
      ⟨fun name => if name = "a.out" then some 0 else none, fun _ => hugeFile, 1⟩ } }

/-- Page 0 is loaded; then the stack, at address -16, is touched and served as page 0. -/
def hugeMoves : List Move :=
  [.exec 0 "a.out" 0, .access 0 (.read 0 4), .access 0 (.read 0xfffffff0 4)]

/-- The page table after these moves, update by update: page 0 has moved to frame 1. -/
theorem huge_table :
    (exec (System.step fourFrames) hugeSystem hugeMoves).map
        (fun sys => (sys.core.memmanage.pageIsAllocated 0, (sys.live 0).map (·.pageTable))) =
      some (.ok true, some (Function.update (Function.update (Function.update (Function.update
        (Function.update freshEntry
          0 ⟨0, 0, false, false, false, false⟩)
          0 ⟨0, 0, true, false, false, true⟩)
          0 ⟨0, 0, false, false, false, true⟩)
          0 ⟨0, 1, false, false, false, true⟩)
          0 ⟨0, 1, true, false, false, false⟩)) := by
  rfl

/-- Frame 0 is allocated and no entry of any process maps it. -/
theorem frame_leaked : Booted fourFrames hugeSystem ∧
    ∃ sys, exec (System.step fourFrames) hugeSystem hugeMoves = some sys ∧
      ¬ FramesOwned fourFrames sys := by
  refine ⟨⟨⟨rfl, rfl⟩, sample_booted.free, fun _ => rfl, fun _ => rfl⟩, ?_⟩
  obtain ⟨sys, run, after⟩ := Option.map_eq_some_iff.mp huge_table
  obtain ⟨allocated, table⟩ := Prod.mk.inj after
  refine ⟨sys, run, ?_⟩
  intro owned
  obtain ⟨⟨q, i⟩, ⟨space, live, maps⟩, -⟩ := (owned.allocated 0 (by decide)).mp allocated
  have zero : q = 0 := by
    by_contra ne
    have nobody : sys.live q = none := by
      refine (exec_live (q := q) ?_ run).trans rfl
      intro m member
      simp only [hugeMoves, List.mem_cons, List.not_mem_nil, or_false] at member
      rcases member with rfl | rfl | rfl <;> exact ne
    rw [show sys.live q = _ from live] at nobody
    cases nobody
  subst zero
  rw [show sys.live 0 = _ from live] at table
  have entry := congrFun (Option.some.inj table) i
  obtain ⟨-, valid, phys⟩ := maps
  by_cases first : i = 0
  · subst first
    rw [show space.pageTable 0 = _ from entry, Function.update_self] at phys
    cases phys
  · rw [show space.pageTable i = freshEntry i by simpa [first] using entry] at valid
    cases valid

/-! ## When a page fault is served -/

section Served

variable {c : Config} {sys sys' : System} {p : Nat} {space : AddrSpace} {es : List Move} {a : Word}

/-- **When the page-fault handler finishes.**  In every state of every run that starts
no program of `2^25` pages, a fault of a live process at address `a` is served, with
every index in the table, exactly when the address is not negative as an `int`, a frame
can be had (one is free, or the hand is in the table and the process has a resident
page of its own) and the page can be brought in.  Otherwise `demandpage` does not
return `true`. -/
theorem demandpage_served (booted : Booted c sys) (fits : AllSteps (System.step c) Fits sys es)
    (run : exec (System.step c) sys es = some sys') (live : sys'.live p = some space)
    (inside : a.toNat / pageSize < space.numPages)
    (invalid : (space.pageTable (a.toNat / pageSize)).valid = false) :
    (∃ s, demandpage c ⟨sys'.core, space⟩ (a.toInt.tdiv pageSize) = .ok (true, s) ∧
      (s.pageTable (a.toNat / pageSize)).valid = true) ↔
    0 ≤ a.toInt ∧
      (FrameFree c sys'.core ∨ HandInside space ∧ HasResident space) ∧
      Servable ⟨sys'.core, space⟩ (a.toNat / pageSize) := by
  have keep : ∀ sys m sys', Sound c sys → Fits sys m → System.step c sys m = some sys' →
      Sound c sys' := fun _ _ _ sound fits moved => step_sound sound fits moved
  have sound : Sound c sys' := exec_invariant keep booted.sound fits run
  have owns := sound.owns live
  have numbered := sound.numbered p space live
  have returns := demandpage_returns (i := a.toNat / pageSize) owns numbered inside invalid
  constructor
  · rintro ⟨s, served, -⟩
    obtain ⟨nonneg, -, page⟩ :=
      handler_page (s := ⟨sys'.core, space⟩) inside (sound.small p space live) served
    rw [page] at served
    exact ⟨nonneg, returns.mp ⟨s, served⟩⟩
  · rintro ⟨nonneg, can⟩
    obtain ⟨s, served⟩ := returns.mpr can
    refine ⟨s, (handler_page_of_nonneg nonneg) ▸ served, ?_⟩
    obtain ⟨-, g, victim, s₁, bytes, dirty, -, -, fills, -⟩ :=
      demandpage_cases owns inside invalid served
    rw [fills.entry]

end Served

/-- The first process takes all four frames; the second has not run yet. -/
def crowdMoves : List Move :=
  [.exec 0 "a.out" 0, .exec 1 "a.out" 0, .access 0 (.read 0 4), .access 0 (.read 128 4),
    .access 0 (.read 256 4), .access 0 (.read 384 4)]

def loopsForever {α : Type} : Except Stop α → Bool
  | .error .loops => true
  | _ => false

theorem crowd_state :
    (exec (System.step fourFrames) sampleSystem crowdMoves).map
        (fun sys => (sys.live 1, loopsForever (demandpage fourFrames ⟨sys.core, sampleSpace⟩ 0))) =
      some (some sampleSpace, true) := by
  rfl

/-- The second process faults on its first page: no frame is free, it has no page to
give up, and no number of turns of `ClearPage` is enough. -/
theorem handler_stuck : Booted fourFrames sampleSystem ∧
    ∃ sys space, exec (System.step fourFrames) sampleSystem crowdMoves = some sys ∧
      sys.live 1 = some space ∧ HandInside space ∧ 0 < space.numPages ∧
      (space.pageTable 0).valid = false ∧
      demandpage fourFrames ⟨sys.core, space⟩ 0 = .error .loops ∧
      ∀ n, clearPageLoop fourFrames n (unbacked ⟨sys.core, space⟩ 0) = .error .loops := by
  obtain ⟨sys, run, after⟩ := Option.map_eq_some_iff.mp crowd_state
  obtain ⟨live, loops⟩ := Prod.mk.inj after
  refine ⟨sample_booted, sys, sampleSpace, run, live,
    ⟨by decide, by decide⟩, by decide, rfl, ?_, ?_⟩
  · unfold loopsForever at loops
    split at loops
    · assumption
    · cases loops
  · intro n
    refine loops_forever (h := 0) rfl (show 0 < 9 by decide) ?_ n
    intro i _
    by_cases first : i = 0
    · subst first
      rw [unbacked, setEntry_self]
      rfl
    · rw [unbacked, setEntry_ne _ _ first]
      rfl

/-- The first process, with all four frames, on its page 4. -/
theorem crowded_state :
    (exec (System.step fourFrames) sampleSystem crowdMoves).map (fun sys => (sys.live 0).map
        fun space => (space.numPages, space.clockHand, (space.pageTable 4).valid,
          resident (space.pageTable 0), space.storedExecutable, sys.core.fileSystem.data 0)) =
      some (some (9, 0, false, true, ⟨0⟩, sampleFile)) := by
  rfl

theorem demandpage_served_sample :
    ∃ sys space, exec (System.step fourFrames) sampleSystem crowdMoves = some sys ∧
      sys.live 0 = some space ∧
      ∃ s, demandpage fourFrames ⟨sys.core, space⟩ ((512#32).toInt.tdiv pageSize) = .ok (true, s) ∧
        (s.pageTable ((512#32).toNat / pageSize)).valid = true := by
  obtain ⟨sys, run, after⟩ := Option.map_eq_some_iff.mp crowded_state
  obtain ⟨space, live, facts⟩ := Option.map_eq_some_iff.mp after
  simp only [Prod.mk.injEq] at facts
  obtain ⟨pages, hand, invalid, there, exe, data⟩ := facts
  have fits : AllSteps (System.step fourFrames) Fits sampleSystem crowdMoves := by decide +kernel
  have header : readHeader sys.core.fileSystem space.storedExecutable = .ok sampleHeader := by
    have same : readHeader sys.core.fileSystem ⟨0⟩ = readHeader sampleFiles ⟨0⟩ :=
      readHeader_congr data
    rw [exe, same]
    exact sample_header
  refine ⟨sys, space, run, live, ?_⟩
  refine (demandpage_served (a := 512#32) sample_booted fits run live ?_ invalid).mpr
    ⟨by decide, .inr ⟨⟨?_, ?_⟩, 0, ?_, there⟩, .inr ⟨sampleHeader, header, by decide⟩⟩
  · rw [pages]
    decide
  · rw [hand]
  · rw [hand, pages]
    decide
  · rw [pages]
    decide

end Nachos.UserProg
