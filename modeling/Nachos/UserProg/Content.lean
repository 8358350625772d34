/-
# Nachos.UserProg.Content -- the virtual memory behind the page table

A loaded page is in one of two places: in its frame when its entry is valid, in the
backing file when it is not.  `content s i` reads it from where it is, and is `none`
before the first load; `vbyte s a` is the byte at virtual address `a`.  This flat,
partial memory is what paging is for.

`PageOk` is what keeps the two places in step: a swapped page is covered by the
file, and a valid page that is not dirty is in the file as it is in the frame.  It
also says what the code takes for granted of an entry (its own `virtualPage`, never
`readOnly`) and that loaded pages lie below `2^24`, where `virtualPage * PageSize`
does not overflow an `int`.

`demandpage_content`: a page fault changes no byte of a loaded page, and the first
load of a page defines its bytes.  `demandpage_returns` says when the handler
returns at all.
-/
import Nachos.UserProg.Frames

namespace Nachos.UserProg

open Nachos.Lib.Bytes
open Nachos.Machine
open Nachos.Lib.Cyclic

set_option autoImplicit false

/-- The bytes of the backing file. -/
def fileOf (s : Vm) : List Byte := s.fileSystem.data s.backing.file.file

/-- The bytes of page `i`, wherever they are; `none` before the first load. -/
def content (s : Vm) (i : Nat) : Option (List Byte) :=
  if (s.pageTable i).valid then
    some (block s.mainMemory (frameAddr (s.pageTable i).physicalPage) pageSize)
  else if 0 ≤ (s.pageTable i).physicalPage then
    some (Lib.Bytes.readAt (fileOf s) (i * pageSize) pageSize)
  else none

/-- The byte at virtual address `a`. -/
def vbyte (s : Vm) (a : Nat) : Option Byte := (content s (a / pageSize)).bind (·[a % pageSize]?)

/-- The bound below which `page * PageSize` is an `int`. -/
def pageLimit : Nat := 2 ^ 24

/-- What the code takes for granted of entry `i`. -/
structure Numbered (space : AddrSpace) (i : Nat) : Prop where
  virtualPage : (space.pageTable i).virtualPage = i
  writable : (space.pageTable i).readOnly = false
  small : 0 ≤ (space.pageTable i).physicalPage → i < pageLimit

structure PageOk (s : Vm) (i : Nat) : Prop where
  numbered : Numbered s.toAddrSpace i
  swapped : (s.pageTable i).valid = false → 0 ≤ (s.pageTable i).physicalPage →
    (i + 1) * pageSize ≤ (fileOf s).length
  clean : (s.pageTable i).valid = true → (s.pageTable i).dirty = false →
    (i + 1) * pageSize ≤ (fileOf s).length ∧
      Lib.Bytes.readAt (fileOf s) (i * pageSize) pageSize =
        block s.mainMemory (frameAddr (s.pageTable i).physicalPage) pageSize

/-- Every page of the table is in order. -/
def PagesOk (s : Vm) : Prop := ∀ i < s.numPages, PageOk s i

def AllNumbered (space : AddrSpace) : Prop := ∀ i < space.numPages, Numbered space i

section Offsets

variable {s : Vm} {i : Nat}

theorem pageOffset_natCast (small : i < pageLimit) :
    pageOffset i = ((i * pageSize : Nat) : Int) := by
  have bound : i * pageSize < 2 ^ 31 := by
    simp only [pageLimit, pageSize] at small ⊢
    omega
  unfold pageOffset
  rw [BitVec.toInt_ofInt, ← Nat.cast_mul]
  apply Int.bmod_eq_of_le <;> omega

theorem Numbered.offset (numbered : Numbered s.toAddrSpace i)
    (loaded : 0 ≤ (s.pageTable i).physicalPage) :
    pageOffset (s.pageTable i).virtualPage = ((i * pageSize : Nat) : Int) := by
  rw [numbered.virtualPage]
  exact pageOffset_natCast (numbered.small loaded)

theorem Numbered.congr {space space' : AddrSpace} (numbered : Numbered space i)
    (page : (space'.pageTable i).virtualPage = (space.pageTable i).virtualPage)
    (readOnly : (space'.pageTable i).readOnly = (space.pageTable i).readOnly)
    (phys : (space'.pageTable i).physicalPage = (space.pageTable i).physicalPage) :
    Numbered space' i := by
  refine ⟨page.trans numbered.virtualPage, readOnly.trans numbered.writable, ?_⟩
  rw [phys]
  exact numbered.small

theorem PagesOk.numbered (pages : PagesOk s) : AllNumbered s.toAddrSpace :=
  fun j hj => (pages j hj).numbered

theorem content_valid (valid : (s.pageTable i).valid = true) :
    content s i = some (block s.mainMemory (frameAddr (s.pageTable i).physicalPage) pageSize) := by
  unfold content
  rw [if_pos valid]

theorem content_swapped (invalid : (s.pageTable i).valid = false)
    (loaded : 0 ≤ (s.pageTable i).physicalPage) :
    content s i = some (Lib.Bytes.readAt (fileOf s) (i * pageSize) pageSize) := by
  unfold content
  rw [invalid, if_neg Bool.false_ne_true, if_pos loaded]

theorem content_unloaded (invalid : (s.pageTable i).valid = false)
    (unloaded : (s.pageTable i).physicalPage < 0) : content s i = none := by
  unfold content
  rw [invalid, if_neg Bool.false_ne_true, if_neg (not_le.mpr unloaded)]

/-- The slots of two pages in the backing file do not overlap. -/
theorem slots_apart {i j : Nat} (ne : i ≠ j) :
    i * pageSize + pageSize ≤ j * pageSize ∨ j * pageSize + pageSize ≤ i * pageSize := by
  simp only [pageSize]
  omega

end Offsets

/-! ## Page faults -/

section Faults

variable {c : Config} {others : Nat → Prop} {s s' s₁ : Vm} {i j g : Nat} {victim : Option Nat}
  {bytes : List Byte} {dirty : Bool}

/-- The backing file after a frame was secured. -/
theorem Secures.fileOf_some {v : Nat} (sec : Secures c others s i g (some v) s₁)
    (pages : PagesOk s) :
    fileOf s₁ =
      if (s.pageTable v).dirty then
        Lib.Bytes.writeAt (fileOf s) (v * pageSize)
          (block s.mainMemory (frameAddr (s.pageTable v).physicalPage) pageSize)
      else fileOf s := by
  obtain ⟨hv, -, res⟩ := sec.isResident v rfl
  simp only [resident, Bool.and_eq_true, decide_eq_true_eq] at res
  have files := sec.fileSystem v rfl
  unfold fileOf
  rw [sec.backing]
  cases isDirty : (s.pageTable v).dirty with
  | true =>
      rw [isDirty, if_pos rfl, (pages v hv).numbered.offset res.2,
        FileSys.FileSystem.writeAt_natCast] at files
      rw [if_pos rfl, ← Except.ok.inj files]
      exact Function.update_self ..
  | false =>
      rw [isDirty, if_neg Bool.false_ne_true] at files
      rw [if_neg Bool.false_ne_true, files]

/-- A swapped page that is not the victim is as it was in the file. -/
theorem Secures.file_slot (sec : Secures c others s i g victim s₁) (pages : PagesOk s)
    (notVictim : victim ≠ some j) (covered : (j + 1) * pageSize ≤ (fileOf s).length) :
    (j + 1) * pageSize ≤ (fileOf s₁).length ∧
      Lib.Bytes.readAt (fileOf s₁) (j * pageSize) pageSize =
        Lib.Bytes.readAt (fileOf s) (j * pageSize) pageSize := by
  cases victim with
  | none =>
      have same : fileOf s₁ = fileOf s := by
        unfold fileOf
        rw [sec.backing, (sec.noVictim rfl).1]
      rw [same]
      exact ⟨covered, rfl⟩
  | some v =>
      rw [sec.fileOf_some pages]
      split
      · have apart := slots_apart (i := j) (j := v) fun e => notVictim (by rw [e])
        have range : j * pageSize + pageSize ≤ (fileOf s).length := by
          rw [← Nat.succ_mul]; exact covered
        refine ⟨?_, readAt_writeAt_outside _ (by rw [length_block]; exact apart) range⟩
        rw [length_writeAt]
        exact le_trans covered (le_max_left _ _)
      · exact ⟨covered, rfl⟩

theorem Secures.numbered (sec : Secures c others s i g victim s₁) (ne : j ≠ i)
    (numbered : Numbered s.toAddrSpace j) : Numbered s₁.toAddrSpace j := by
  obtain ⟨u, entry⟩ := sec.table j ne
  apply numbered.congr <;> rw [entry]

/-- Securing a frame for entry `i` moves no other page's bytes. -/
theorem Secures.page (sec : Secures c others s i g victim s₁) (pages : PagesOk s)
    (hj : j < s.numPages) (ne : j ≠ i) : PageOk s₁ j ∧ content s₁ j = content s j := by
  have ok := pages j hj
  obtain ⟨u, entry⟩ := sec.table j ne
  by_cases out : victim = some j
  · -- the victim: its bytes go from its frame to its slot of the file
    subst out
    obtain ⟨-, -, res⟩ := sec.isResident j rfl
    simp only [resident, Bool.and_eq_true, decide_eq_true_eq] at res
    have entry' : s₁.pageTable j = { s.pageTable j with use := u, valid := false } := by
      rw [entry]; simp
    have file := sec.fileOf_some pages
    have slot : (j + 1) * pageSize ≤ (fileOf s₁).length ∧
        Lib.Bytes.readAt (fileOf s₁) (j * pageSize) pageSize =
          block s.mainMemory (frameAddr (s.pageTable j).physicalPage) pageSize := by
      cases isDirty : (s.pageTable j).dirty with
      | true =>
          rw [isDirty, if_pos rfl] at file
          rw [file]
          refine ⟨?_, ?_⟩
          · rw [length_writeAt, length_block, Nat.succ_mul]
            exact le_max_right _ _
          · have := readAt_writeAt_self (fileOf s) (j * pageSize)
              (block s.mainMemory (frameAddr (s.pageTable j).physicalPage) pageSize)
            rwa [length_block] at this
      | false =>
          rw [isDirty, if_neg Bool.false_ne_true] at file
          rw [file]
          exact ok.clean res.1 isDirty
    refine ⟨⟨sec.numbered ne ok.numbered, fun _ _ => slot.1, ?_⟩, ?_⟩
    · rw [entry']
      intro impossible
      cases impossible
    · rw [content_valid res.1, content_swapped (by rw [entry']) (by rw [entry']; exact res.2),
        slot.2]
  · have entry' : s₁.pageTable j = { s.pageTable j with use := u } := by
      rw [entry]; simp [out]
    refine ⟨⟨sec.numbered ne ok.numbered, ?_, ?_⟩, ?_⟩
    · rw [entry']
      exact fun invalid loaded => (sec.file_slot pages out (ok.swapped invalid loaded)).1
    · rw [entry', sec.mainMemory]
      intro valid isClean
      obtain ⟨covered, same⟩ := ok.clean valid isClean
      obtain ⟨covered', same'⟩ := sec.file_slot pages out covered
      exact ⟨covered', same'.trans same⟩
    · unfold content
      rw [entry', sec.mainMemory]
      cases valid : (s.pageTable j).valid with
      | true => rfl
      | false =>
          by_cases loaded : 0 ≤ (s.pageTable j).physicalPage
          · simp only [Bool.false_eq_true, if_false, loaded, if_true]
            rw [(sec.file_slot pages out (ok.swapped valid loaded)).2]
          · simp only [Bool.false_eq_true, if_false, loaded]

theorem frames_apart {f g : Nat} (ne : f ≠ g) :
    f * pageSize + pageSize ≤ g * pageSize ∨ g * pageSize + pageSize ≤ f * pageSize :=
  slots_apart ne

@[simp] theorem frameAddr_natCast (f : Nat) : frameAddr (f : Int) = f * pageSize := by
  simp [frameAddr]

/-- Filling frame `g` moves no page that does not live in it. -/
theorem Fills.page (fills : Fills s₁ i bytes dirty s')
    (frame : (s₁.pageTable i).physicalPage = g) (short : bytes.length ≤ pageSize)
    (owns : Owns c (fun f => others f ∨ f = g) s₁) (hj : j < s₁.numPages) (ne : j ≠ i)
    (ok : PageOk s₁ j) : PageOk s' j ∧ content s' j = content s₁ j := by
  have entry := fills.table j ne
  have file : fileOf s' = fileOf s₁ := by
    unfold fileOf
    rw [fills.fileSystem, fills.backing]
  have memory : (s₁.pageTable j).valid = true →
      block s'.mainMemory (frameAddr (s₁.pageTable j).physicalPage) pageSize =
        block s₁.mainMemory (frameAddr (s₁.pageTable j).physicalPage) pageSize := by
    intro valid
    obtain ⟨f, -, maps⟩ := maps_of_valid owns hj valid
    have fg : f ≠ g := fun e => owns.apart j f maps (Or.inr e)
    rw [fills.mainMemory, frame, maps.2.2, frameAddr_natCast, frameAddr_natCast]
    apply splice_block_outside
    have := frames_apart fg
    omega
  refine ⟨⟨?_, ?_, ?_⟩, ?_⟩
  · apply ok.numbered.congr <;> rw [entry]
  · rw [entry, file]; exact ok.swapped
  · rw [entry, file]
    intro valid isClean
    rw [memory valid]
    exact ok.clean valid isClean
  · unfold content
    rw [entry, file]
    cases valid : (s₁.pageTable j).valid with
    | true =>
        rw [if_pos rfl, if_pos rfl, memory valid]
    | false => rfl

theorem pageImage_length {fs : FileSys.FileSystem} {exe : FileSys.OpenFile} {noffH : NoffHeader}
    {pa : Word} (image : pageImage fs exe noffH pa = .ok bytes) : bytes.length ≤ pageSize := by
  have read : ∀ pos, fs.readAt exe pageSize pos = .ok bytes → bytes.length ≤ pageSize := by
    intro pos ok
    obtain ⟨-, -, rest⟩ := bind_eq_ok.mp ok
    cases rest
    exact List.length_take_le _ _
  unfold pageImage at image
  split at image
  · exact read _ image
  · split at image
    · exact read _ image
    · cases image
      exact le_of_eq List.length_replicate

/-- The numbering of the table survives a page fault. -/
theorem demandpage_numbered {b : Bool} (owns : Owns c others s)
    (numbered : AllNumbered s.toAddrSpace) (hi : i < s.numPages) (small : i < pageLimit)
    (invalid : (s.pageTable i).valid = false) (ret : demandpage c s i = .ok (b, s')) :
    AllNumbered s'.toAddrSpace := by
  obtain ⟨-, g, victim, s₁, bytes, dirty, sec, -, fills, -⟩ :=
    demandpage_cases owns hi invalid ret
  obtain ⟨u, entry⟩ := sec.entry
  intro j hj
  rw [fills.numPages, sec.numPages] at hj
  by_cases here : j = i
  · subst here
    refine ⟨?_, ?_, fun _ => small⟩
    · rw [fills.entry, entry]; exact (numbered j hi).virtualPage
    · rw [fills.entry, entry]; exact (numbered j hi).writable
  · apply (sec.numbered here (numbered j hj)).congr <;> rw [fills.table j here]

/-- **A page fault loses no byte.**  `demandpage` keeps every page in order, leaves
the bytes of every loaded page as they were, and leaves the faulting page valid. -/
theorem demandpage_content {b : Bool} (owns : Owns c others s) (pages : PagesOk s)
    (hi : i < s.numPages) (small : i < pageLimit) (invalid : (s.pageTable i).valid = false)
    (ret : demandpage c s i = .ok (b, s')) :
    PagesOk s' ∧ (∀ j < s.numPages, j ≠ i → content s' j = content s j) ∧
      (0 ≤ (s.pageTable i).physicalPage → content s' i = content s i) ∧
      (s'.pageTable i).valid = true := by
  obtain ⟨-, g, victim, s₁, bytes, dirty, sec, -, fills, how⟩ :=
    demandpage_cases owns hi invalid ret
  obtain ⟨u, entry⟩ := sec.entry
  have frame : (s₁.pageTable i).physicalPage = g := by rw [entry]
  have notVictim : victim ≠ some i := fun e => (sec.isResident i e).2.1 rfl
  have slot : 0 ≤ (s.pageTable i).physicalPage →
      (i + 1) * pageSize ≤ (fileOf s₁).length ∧
        Lib.Bytes.readAt (fileOf s₁) (i * pageSize) pageSize =
          Lib.Bytes.readAt (fileOf s) (i * pageSize) pageSize := fun loaded =>
    sec.file_slot pages notVictim ((pages i hi).swapped invalid loaded)
  have reloaded : 0 ≤ (s.pageTable i).physicalPage → dirty = false ∧
      bytes = Lib.Bytes.readAt (fileOf s₁) (i * pageSize) pageSize ∧ bytes.length = pageSize := by
    intro loaded
    rcases how with ⟨-, isClean, read⟩ | ⟨unloaded, -⟩
    · rw [(pages i hi).numbered.offset loaded, FileSys.FileSystem.readAt_natCast,
        ← sec.backing] at read
      have same := (Except.ok.inj read).symm
      refine ⟨isClean, same, ?_⟩
      rw [same]
      exact length_readAt _ (by rw [← Nat.succ_mul]; exact (slot loaded).1)
    · omega
  have short : bytes.length ≤ pageSize := by
    by_cases loaded : 0 ≤ (s.pageTable i).physicalPage
    · exact le_of_eq (reloaded loaded).2.2
    · rcases how with ⟨isLoaded, -⟩ | ⟨-, -, noffH, -, image⟩
      · exact absurd isLoaded loaded
      · exact pageImage_length image
  have other : ∀ j < s.numPages, j ≠ i → PageOk s' j ∧ content s' j = content s j := by
    intro j hj ne
    obtain ⟨ok₁, same₁⟩ := sec.page pages hj ne
    obtain ⟨ok, same⟩ := fills.page frame short sec.owns (sec.numPages ▸ hj) ne ok₁
    exact ⟨ok, same.trans same₁⟩
  have valid : (s'.pageTable i).valid = true := by rw [fills.entry]
  have file : fileOf s' = fileOf s₁ := by
    unfold fileOf
    rw [fills.fileSystem, fills.backing]
  -- the frame of a reloaded page holds exactly the page's slot of the file
  have inFrame : 0 ≤ (s.pageTable i).physicalPage →
      block s'.mainMemory (frameAddr (s'.pageTable i).physicalPage) pageSize =
        Lib.Bytes.readAt (fileOf s₁) (i * pageSize) pageSize := by
    intro loaded
    obtain ⟨-, read, full⟩ := reloaded loaded
    have at_ : (s'.pageTable i).physicalPage = (s₁.pageTable i).physicalPage := by rw [fills.entry]
    rw [← read, fills.mainMemory, at_, ← full]
    exact splice_block_self _ _ _
  refine ⟨fun j hj => ?_, fun j hj ne => (other j hj ne).2, fun loaded => ?_, valid⟩
  · rw [fills.numPages, sec.numPages] at hj
    by_cases here : j = i
    · subst here
      refine ⟨⟨?_, ?_, fun _ => small⟩, fun bad => ?_, fun _ isClean => ?_⟩
      · rw [fills.entry, entry]; exact (pages j hi).numbered.virtualPage
      · rw [fills.entry, entry]; exact (pages j hi).numbered.writable
      · rw [valid] at bad
        cases bad
      · have loaded : 0 ≤ (s.pageTable j).physicalPage := by
          rcases how with ⟨loaded, -⟩ | ⟨-, isDirty, -⟩
          · exact loaded
          · rw [fills.entry, isDirty] at isClean
            cases isClean
        rw [file, inFrame loaded]
        exact ⟨(slot loaded).1, rfl⟩
    · exact (other j hj here).1
  · rw [content_valid valid, inFrame loaded, (slot loaded).2, content_swapped invalid loaded]

end Faults

/-! ## When the handler returns -/

/-- The first load of the page at `pa` seeks to a position the file can have. -/
def Loadable (noffH : NoffHeader) (pa : Word) : Prop :=
  if noffH.code.holds pa then 0 ≤ noffH.code.position pa
  else if noffH.initData.holds pa then 0 ≤ noffH.initData.position pa
  else True

instance (noffH : NoffHeader) (pa : Word) : Decidable (Loadable noffH pa) :=
  inferInstanceAs (Decidable (if noffH.code.holds pa then 0 ≤ noffH.code.position pa
    else if noffH.initData.holds pa then 0 ≤ noffH.initData.position pa else True))

/-- Page `i` of the process can be brought in: it was loaded before, or the
executable has a header and a place for it. -/
def Servable (s : Vm) (i : Nat) : Prop :=
  0 ≤ (s.pageTable i).physicalPage ∨
    ∃ noffH, readHeader s.fileSystem s.storedExecutable = .ok noffH ∧ Loadable noffH (pageAddr i)

section Returns

variable {c : Config} {others : Nat → Prop} {s : Vm} {i : Nat}

theorem readAt_cases (fs : FileSys.FileSystem) (f : FileSys.OpenFile) (n : Nat) (pos : Int) :
    (0 ≤ pos ∧ ∃ bytes, fs.readAt f n pos = .ok bytes) ∨
      (¬ 0 ≤ pos ∧ fs.readAt f n pos = .error .assertion) := by
  by_cases nonneg : 0 ≤ pos
  · refine Or.inl ⟨nonneg, Lib.Bytes.readAt (fs.data f.file) pos.toNat n, ?_⟩
    rw [FileSys.FileSystem.readAt, decide_eq_true nonneg, ASSERT_true, ok_bind]
    rfl
  · refine Or.inr ⟨nonneg, ?_⟩
    rw [FileSys.FileSystem.readAt, decide_eq_false nonneg, ASSERT_false, error_bind]

theorem pageImage_cases (fs : FileSys.FileSystem) (exe : FileSys.OpenFile) (noffH : NoffHeader)
    (pa : Word) :
    (Loadable noffH pa ∧ ∃ bytes, pageImage fs exe noffH pa = .ok bytes) ∨
      (¬ Loadable noffH pa ∧ pageImage fs exe noffH pa = .error .assertion) := by
  unfold pageImage Loadable
  split
  · exact readAt_cases fs exe pageSize _
  · split
    · exact readAt_cases fs exe pageSize _
    · exact Or.inl ⟨trivial, _, rfl⟩

theorem fillPage_error {noffH : NoffHeader} {pa : Word} {e : Stop}
    (image : pageImage s.fileSystem s.storedExecutable noffH pa = .error e) :
    fillPage s i noffH pa = .error e := by
  unfold pageImage at image
  unfold fillPage loadSegment
  split
  · rename_i inCode
    rw [if_pos inCode] at image
    rw [image, error_bind]
  · rename_i notCode
    rw [if_neg notCode] at image
    split
    · rename_i inData
      rw [if_pos inData] at image
      rw [image, error_bind]
    · rename_i notData
      rw [if_neg notData] at image
      cases image

theorem AllNumbered.writableBack (numbered : AllNumbered s.toAddrSpace) :
    WritableBack s.toAddrSpace := by
  intro j hj res _
  simp only [resident, Bool.and_eq_true, decide_eq_true_eq] at res
  rw [(numbered j hj).offset res.2]
  exact Int.natCast_nonneg _

theorem hasResident_unbacked (invalid : (s.pageTable i).valid = false) :
    HasResident (unbacked s i).toAddrSpace ↔ HasResident s.toAddrSpace := by
  have entry : ∀ j, resident ((unbacked s i).pageTable j) = resident (s.pageTable j) := by
    intro j
    by_cases here : j = i
    · subst here
      rw [unbacked, setEntry_self]
      simp [resident, invalid]
    · rw [unbacked, setEntry_ne _ _ here]
  unfold HasResident
  simp only [entry]
  rfl

/-- `ClearPage` on behalf of page `i`, which has just been refused a frame. -/
theorem clearPage_unbacked (owns : Owns c others s) (numbered : AllNumbered s.toAddrSpace)
    (invalid : (s.pageTable i).valid = false) :
    (∃ s', clearPage c (unbacked s i) = .ok s') ↔
      HandInside s.toAddrSpace ∧ HasResident s.toAddrSpace := by
  rw [← hasResident_unbacked invalid]
  constructor
  · rintro ⟨s', cleared⟩
    exact clearPage_returned cleared
  · rintro ⟨hand, some_⟩
    refine clearPage_ok (owns_unbacked owns invalid) hand some_ ?_
    intro j hj res dirty
    by_cases here : j = i
    · subst here
      rw [unbacked, setEntry_self] at res
      simp [resident] at res
    · rw [unbacked, setEntry_ne _ _ here] at res dirty ⊢
      exact numbered.writableBack j hj res dirty

/-- **When the page-fault handler returns**: there is a frame to be had, a free one
or one of the process's own, and the page can be brought in. -/
theorem demandpage_returns (owns : Owns c others s) (numbered : AllNumbered s.toAddrSpace)
    (hi : i < s.numPages) (invalid : (s.pageTable i).valid = false) :
    (∃ s', demandpage c s i = .ok (true, s')) ↔
      (FrameFree c s.toCore ∨ HandInside s.toAddrSpace ∧ HasResident s.toAddrSpace) ∧
        Servable s i := by
  rw [← clearPage_unbacked (i := i) owns numbered invalid]
  constructor
  · rintro ⟨s', ret⟩
    obtain ⟨-, g, victim, s₁, bytes, dirty, -, ⟨load, -⟩, -, how⟩ :=
      demandpage_cases owns hi invalid ret
    refine ⟨?_, ?_⟩
    · rcases secure_cases owns invalid with
        ⟨_, _, _, -, ⟨-, free⟩ | ⟨_, s₂, -, -, cleared, -⟩, -⟩ | ⟨e, -, -, failed, -⟩
      · exact Or.inl free
      · exact Or.inr ⟨s₂, cleared⟩
      · rw [failed] at load
        cases load
    · rcases how with ⟨before, -⟩ | ⟨-, -, noffH, header, image⟩
      · exact Or.inl before
      · refine Or.inr ⟨noffH, header, ?_⟩
        rcases pageImage_cases s₁.fileSystem s.storedExecutable noffH (pageAddr i) with
          ⟨loadable, -⟩ | ⟨-, failed⟩
        · exact loadable
        · rw [failed] at image
          cases image
  · rintro ⟨frame, servable⟩
    rcases secure_cases owns invalid with ⟨g, victim, s₁, sec, -, load, reload⟩ | ⟨e, full, bad, -⟩
    · obtain ⟨u, entry⟩ := sec.entry
      rw [demandpage, index_natCast hi, ok_bind]
      by_cases before : 0 ≤ (s.pageTable i).physicalPage
      · have same : s.setEntry i { s.pageTable i with valid := false } = s := by
          rw [← invalid]
          exact setEntry_same s i
        have offset : pageOffset (s₁.pageTable i).virtualPage = ((i * pageSize : Nat) : Int) := by
          rw [entry]
          exact (numbered i hi).offset before
        rw [if_pos before, reloadPage, same, reload, ok_bind, pageIn, offset,
          FileSys.FileSystem.readAt_natCast]
        exact ⟨_, rfl⟩
      · obtain ⟨noffH, header, loadable⟩ := servable.resolve_left before
        have phys : ¬ (s₁.pageTable i).physicalPage < 0 := by
          rw [entry]
          exact not_lt.mpr (Int.natCast_nonneg g)
        rcases pageImage_cases s₁.fileSystem s₁.storedExecutable noffH (pageAddr i) with
          ⟨-, bytes, image⟩ | ⟨bad, -⟩
        · obtain ⟨s₂, filled⟩ := fillPage_ok (i := i) image
          rw [if_neg before, loadPage, header, ok_bind, load, ok_bind, if_neg phys]
          unfold pageAddr at filled
          rw [filled]
          exact ⟨_, rfl⟩
        · exact absurd loadable bad
    · rcases frame with free | ⟨s', cleared⟩
      · exact absurd free full
      · rw [cleared] at bad
        cases bad

/-- A page whose place in the executable has a negative position aborts the kernel. -/
theorem demandpage_assertion (owns : Owns c others s) (numbered : AllNumbered s.toAddrSpace)
    (hi : i < s.numPages) (invalid : (s.pageTable i).valid = false)
    (frame : FrameFree c s.toCore ∨ HandInside s.toAddrSpace ∧ HasResident s.toAddrSpace)
    (before : (s.pageTable i).physicalPage < 0) {noffH : NoffHeader}
    (header : readHeader s.fileSystem s.storedExecutable = .ok noffH)
    (bad : ¬ Loadable noffH (pageAddr i)) : demandpage c s i = .error .assertion := by
  rw [← clearPage_unbacked (i := i) owns numbered invalid] at frame
  rcases secure_cases owns invalid with ⟨g, victim, s₁, sec, -, load, -⟩ | ⟨e, full, failed, -⟩
  · obtain ⟨u, entry⟩ := sec.entry
    have phys : ¬ (s₁.pageTable i).physicalPage < 0 := by
      rw [entry]
      exact not_lt.mpr (Int.natCast_nonneg g)
    rcases pageImage_cases s₁.fileSystem s₁.storedExecutable noffH (pageAddr i) with
      ⟨good, -⟩ | ⟨-, image⟩
    · exact absurd good bad
    · have filled := fillPage_error (i := i) image
      rw [demandpage, index_natCast hi, ok_bind, if_neg (not_le.mpr before), loadPage, header,
        ok_bind, load, ok_bind, if_neg phys]
      unfold pageAddr at filled
      rw [filled, error_bind]
  · rcases frame with free | ⟨s', cleared⟩
    · exact absurd free full
    · rw [cleared] at failed
      cases failed

end Returns

end Nachos.UserProg
