/-
# Nachos.UserProg.Access -- memory accesses on the virtual memory

`ReadMem` and `WriteMem` of an aligned access either raise a page fault, and then
nothing has changed, or read and write the flat memory `vbyte` and nothing else:
`readMem_vbyte` and `writeMem_vbyte`.

`Confined others s s'` is what a step of one process may not do: it leaves the frames
of `others` as they were, and every file but its own backing file.  Memory accesses
and page faults are both confined (`writeMem_confined`, `demandpage_confined`).
-/
import Nachos.UserProg.Content

namespace Nachos.UserProg

open Nachos.Lib.Bytes
open Nachos.Machine

set_option autoImplicit false

/-- An access the machine completes on a valid page: 1, 2 or 4 bytes, aligned. -/
def Aligned (addr : Word) (size : Nat) : Prop :=
  (size = 1 ∨ size = 2 ∨ size = 4) ∧ addr.toNat % size = 0

/-- The entry of page `i` once an access went through it. -/
def touched (s : Vm) (i : Nat) (w : Bool) : Vm :=
  s.setEntry i { s.pageTable i with use := true, dirty := (s.pageTable i).dirty || w }

/-- The state once `bytes` were stored through the entry of page `i`. -/
def stored (s : Vm) (i pos : Nat) (bytes : List Byte) : Vm :=
  { touched s i true with mainMemory := splice s.mainMemory pos bytes }

/-! ## Translation -/

section Translation

variable {c : Config} {others : Nat → Prop} {s : Vm} {addr : Word} {size : Nat} {w : Bool}

theorem and_three_eq_zero (a : Word) : a &&& 3#32 = 0#32 ↔ a.toNat % 4 = 0 := by
  rw [← BitVec.toNat_inj, BitVec.toNat_and]
  show a.toNat &&& (2 ^ 2 - 1) = 0 ↔ _
  rw [Nat.and_two_pow_sub_one_eq_mod]

theorem and_one_eq_zero (a : Word) : a &&& 1#32 = 0#32 ↔ a.toNat % 2 = 0 := by
  rw [← BitVec.toNat_inj, BitVec.toNat_and]
  show a.toNat &&& (2 ^ 1 - 1) = 0 ↔ _
  rw [Nat.and_two_pow_sub_one_eq_mod]

theorem Aligned.passes (aligned : Aligned addr size) :
    ¬ ((size = 4 ∧ addr &&& 3#32 ≠ 0#32) ∨ (size = 2 ∧ addr &&& 1#32 ≠ 0#32)) := by
  obtain ⟨-, divides⟩ := aligned
  rintro (⟨rfl, off⟩ | ⟨rfl, off⟩)
  · exact off ((and_three_eq_zero addr).mpr divides)
  · exact off ((and_one_eq_zero addr).mpr divides)

/-- What passes the alignment test of `Translate` is aligned. -/
theorem aligned_of_passes (sizes : size = 1 ∨ size = 2 ∨ size = 4)
    (passes : ¬ ((size = 4 ∧ addr &&& 3#32 ≠ 0#32) ∨ (size = 2 ∧ addr &&& 1#32 ≠ 0#32))) :
    Aligned addr size := by
  simp only [not_or, not_and, not_not] at passes
  refine ⟨sizes, ?_⟩
  rcases sizes with rfl | rfl | rfl
  · exact Nat.mod_one _
  · exact (and_one_eq_zero addr).mp (passes.2 rfl)
  · exact (and_three_eq_zero addr).mp (passes.1 rfl)

/-- An aligned access stays inside one page. -/
theorem Aligned.fits (aligned : Aligned addr size) : addr.toNat % pageSize + size ≤ pageSize := by
  obtain ⟨rfl | rfl | rfl, divides⟩ := aligned <;> simp only [pageSize] <;> omega

theorem Aligned.isAccessSize (aligned : Aligned addr size) : Vm.isAccessSize size = true := by
  obtain ⟨rfl | rfl | rfl, -⟩ := aligned <;> rfl

theorem aligned_of_isAccessSize (isSize : Vm.isAccessSize size = true)
    (four : size = 4 → addr.toNat % 4 = 0) (two : size = 2 → addr.toNat % 2 = 0) :
    Aligned addr size := by
  simp only [Vm.isAccessSize, Bool.or_eq_true, beq_iff_eq] at isSize
  obtain (rfl | rfl) | rfl := isSize
  · exact ⟨.inl rfl, Nat.mod_one _⟩
  · exact ⟨.inr (.inl rfl), two rfl⟩
  · exact ⟨.inr (.inr rfl), four rfl⟩

theorem translate_fault (aligned : Aligned addr size) (inside : addr.toNat / pageSize < s.numPages)
    (invalid : (s.pageTable (addr.toNat / pageSize)).valid = false) :
    s.translate c addr size w = .ok (.exception .pageFaultException) := by
  rw [Vm.translate, if_neg aligned.passes]
  simp only [if_neg (not_le.mpr inside), invalid, Bool.not_false, if_true]
  rfl

theorem translate_valid (owns : Owns c others s) (aligned : Aligned addr size)
    (inside : addr.toNat / pageSize < s.numPages)
    (numbered : Numbered s.toAddrSpace (addr.toNat / pageSize))
    (valid : (s.pageTable (addr.toNat / pageSize)).valid = true) :
    ∃ f < c.numPhysPages, Maps s.toAddrSpace (addr.toNat / pageSize) f ∧
      s.translate c addr size w =
        .ok (.value (f * pageSize + addr.toNat % pageSize)
          (touched s (addr.toNat / pageSize) w)) := by
  obtain ⟨f, lt, maps⟩ := maps_of_valid owns inside valid
  refine ⟨f, lt, maps, ?_⟩
  have int := c.memory_int
  have small : f < 2 ^ 32 := by
    simp only [pageSize] at int
    omega
  have frame : (BitVec.ofInt 32 (s.pageTable (addr.toNat / pageSize)).physicalPage).toNat = f := by
    rw [maps.2.2, BitVec.ofInt_natCast, BitVec.toNat_ofNat, Nat.mod_eq_of_lt small]
  have room : f * pageSize + addr.toNat % pageSize + size ≤ c.memorySize := by
    have next : (f + 1) * pageSize ≤ c.memorySize := Nat.mul_le_mul_right pageSize lt
    have fits := aligned.fits
    rw [Nat.succ_mul] at next
    omega
  rw [Vm.translate, if_neg aligned.passes]
  simp only [if_neg (not_le.mpr inside), valid, Bool.not_true, Bool.false_eq_true, if_false,
    numbered.writable, Bool.false_and, frame, if_neg (not_le.mpr lt), room, decide_true,
    ASSERT_true, ok_bind, touched]
  rfl

/-- Everything a translation can come to. -/
theorem translate_cases {r : Result Vm Nat} (ret : s.translate c addr size w = .ok r) :
    (∃ pa, r = .value pa (touched s (addr.toNat / pageSize) w) ∧
      addr.toNat / pageSize < s.numPages ∧ (s.pageTable (addr.toNat / pageSize)).valid = true ∧
      (size = 4 → addr.toNat % 4 = 0) ∧ (size = 2 → addr.toNat % 2 = 0)) ∨
    ∃ which, r = .exception which ∧ (which = .pageFaultException →
      addr.toNat / pageSize < s.numPages ∧
        (s.pageTable (addr.toNat / pageSize)).valid = false) := by
  unfold Vm.translate at ret
  split at ret
  · cases ret
    exact Or.inr ⟨_, rfl, fun bad => by cases bad⟩
  · rename_i aligned
    simp only [] at ret
    split at ret
    · cases ret
      exact Or.inr ⟨_, rfl, fun bad => by cases bad⟩
    · rename_i inside
      split at ret
      · rename_i invalid
        cases ret
        exact Or.inr ⟨_, rfl, fun _ => ⟨not_le.mp inside, by simpa using invalid⟩⟩
      · rename_i valid
        split at ret
        · cases ret
          exact Or.inr ⟨_, rfl, fun bad => by cases bad⟩
        · split at ret
          · cases ret
            exact Or.inr ⟨_, rfl, fun bad => by cases bad⟩
          · obtain ⟨-, -, last⟩ := bind_eq_ok.mp ret
            cases last
            refine Or.inl ⟨_, rfl, not_le.mp inside, by simpa using valid, ?_, ?_⟩
            · intro four
              by_contra off
              exact aligned (Or.inl ⟨four, fun zero => off ((and_three_eq_zero addr).mp zero)⟩)
            · intro two
              by_contra off
              exact aligned (Or.inr ⟨two, fun zero => off ((and_one_eq_zero addr).mp zero)⟩)

theorem readMem_fault (aligned : Aligned addr size) (inside : addr.toNat / pageSize < s.numPages)
    (invalid : (s.pageTable (addr.toNat / pageSize)).valid = false) :
    s.readMem c addr size = .ok (.exception .pageFaultException) := by
  rw [Vm.readMem, translate_fault aligned inside invalid]
  rfl

theorem writeMem_fault (aligned : Aligned addr size) (inside : addr.toNat / pageSize < s.numPages)
    (invalid : (s.pageTable (addr.toNat / pageSize)).valid = false) (value : Word) :
    s.writeMem c addr size value = .ok (.exception .pageFaultException) := by
  rw [Vm.writeMem, translate_fault aligned inside invalid]
  rfl

theorem readMem_valid (owns : Owns c others s) (aligned : Aligned addr size)
    (inside : addr.toNat / pageSize < s.numPages)
    (numbered : Numbered s.toAddrSpace (addr.toNat / pageSize))
    (valid : (s.pageTable (addr.toNat / pageSize)).valid = true) :
    ∃ f < c.numPhysPages, Maps s.toAddrSpace (addr.toNat / pageSize) f ∧
      s.readMem c addr size =
        .ok (.value (load size fun k => s.mainMemory (f * pageSize + addr.toNat % pageSize + k))
          (touched s (addr.toNat / pageSize) false)) := by
  obtain ⟨f, lt, maps, translated⟩ :=
    translate_valid (w := false) owns aligned inside numbered valid
  refine ⟨f, lt, maps, ?_⟩
  rw [Vm.readMem, translated, ok_bind, aligned.isAccessSize]
  rfl

theorem writeMem_valid (owns : Owns c others s) (aligned : Aligned addr size)
    (inside : addr.toNat / pageSize < s.numPages)
    (numbered : Numbered s.toAddrSpace (addr.toNat / pageSize))
    (valid : (s.pageTable (addr.toNat / pageSize)).valid = true) (value : Word) :
    ∃ f < c.numPhysPages, Maps s.toAddrSpace (addr.toNat / pageSize) f ∧
      s.writeMem c addr size value =
        .ok (.value () (stored s (addr.toNat / pageSize) (f * pageSize + addr.toNat % pageSize)
          (bytesOf value size))) := by
  obtain ⟨f, lt, maps, translated⟩ := translate_valid (w := true) owns aligned inside numbered valid
  refine ⟨f, lt, maps, ?_⟩
  rw [Vm.writeMem, translated, ok_bind, aligned.isAccessSize]
  rfl

end Translation

/-! ## The flat memory under an access -/

section Flat

variable {c : Config} {others : Nat → Prop} {s : Vm} {i f : Nat} {w : Bool}

theorem vbyte_maps {a : Nat} (maps : Maps s.toAddrSpace (a / pageSize) f) :
    vbyte s a = some (s.mainMemory (f * pageSize + a % pageSize)) := by
  unfold vbyte
  rw [content_valid maps.2.1, maps.2.2, frameAddr_natCast, Option.bind_some,
    getElem?_block _ (Nat.mod_lt _ (by decide))]

theorem touched_self (s : Vm) (i : Nat) (w : Bool) :
    (touched s i w).pageTable i =
      { s.pageTable i with use := true, dirty := (s.pageTable i).dirty || w } :=
  setEntry_self _ _ _

theorem touched_ne (s : Vm) {i j : Nat} (w : Bool) (ne : j ≠ i) :
    (touched s i w).pageTable j = s.pageTable j :=
  setEntry_ne _ _ ne

theorem touched_entries (j : Nat) :
    ((touched s i w).pageTable j).valid = (s.pageTable j).valid ∧
      ((touched s i w).pageTable j).physicalPage = (s.pageTable j).physicalPage := by
  by_cases here : j = i
  · subst here
    rw [touched_self]
    exact ⟨rfl, rfl⟩
  · rw [touched_ne s w here]
    exact ⟨rfl, rfl⟩

theorem touched_maps (j g : Nat) :
    Maps (touched s i w).toAddrSpace j g ↔ Maps s.toAddrSpace j g := by
  obtain ⟨valid, phys⟩ := touched_entries (s := s) (i := i) (w := w) j
  unfold Maps
  rw [valid, phys]
  rfl

theorem touched_owns (owns : Owns c others s) : Owns c others (touched s i w) := by
  refine owns.congr rfl rfl ?_ ?_
  · intro j _
    exact (touched_entries j).1
  · intro j _ _
    exact (touched_entries j).2

theorem touched_content (j : Nat) : content (touched s i w) j = content s j := by
  obtain ⟨valid, phys⟩ := touched_entries (s := s) (i := i) (w := w) j
  unfold content
  rw [valid, phys]
  rfl

theorem touched_numbered (numbered : AllNumbered s.toAddrSpace) :
    AllNumbered (touched s i w).toAddrSpace := by
  intro j hj
  by_cases here : j = i
  · subst here
    apply (numbered j hj).congr <;> rw [touched_self]
  · apply (numbered j hj).congr <;> rw [touched_ne s w here]

theorem touched_pagesOk (pages : PagesOk s) : PagesOk (touched s i false) := by
  intro j hj
  have ok := pages j hj
  by_cases here : j = i
  · subst here
    refine ⟨touched_numbered pages.numbered j hj, ?_, ?_⟩ <;> rw [touched_self]
    · exact ok.swapped
    · rw [Bool.or_false]
      exact ok.clean
  · refine ⟨touched_numbered pages.numbered j hj, ?_, ?_⟩ <;> rw [touched_ne s false here]
    · exact ok.swapped
    · exact ok.clean

theorem stored_pageTable (i pos : Nat) (bytes : List Byte) :
    (stored s i pos bytes).pageTable = (touched s i true).pageTable := rfl

theorem stored_mainMemory (i pos : Nat) (bytes : List Byte) :
    (stored s i pos bytes).mainMemory = splice s.mainMemory pos bytes := rfl

/-- A store into the frame of page `i` leaves the frame of every other page alone. -/
theorem stored_block (owns : Owns c others s) (maps : Maps s.toAddrSpace i f) {j offset : Nat}
    {bytes : List Byte} (hj : j < s.numPages) (valid : (s.pageTable j).valid = true) (ne : j ≠ i)
    (fits : offset + bytes.length ≤ pageSize) :
    block (splice s.mainMemory (f * pageSize + offset) bytes)
        (frameAddr (s.pageTable j).physicalPage) pageSize =
      block s.mainMemory (frameAddr (s.pageTable j).physicalPage) pageSize := by
  obtain ⟨g, -, maps'⟩ := maps_of_valid owns hj valid
  have fg : g ≠ f := by
    intro same
    subst same
    exact ne (owns.unique j i g maps' maps)
  rw [maps'.2.2, frameAddr_natCast]
  apply splice_block_outside
  have := frames_apart fg
  omega

/-- The page written to is dirty, so nothing is asked of its copy in the file. -/
theorem stored_pagesOk (owns : Owns c others s) (pages : PagesOk s)
    (maps : Maps s.toAddrSpace i f) {offset : Nat} {bytes : List Byte}
    (fits : offset + bytes.length ≤ pageSize) :
    PagesOk (stored s i (f * pageSize + offset) bytes) := by
  intro j hj
  have ok := pages j hj
  by_cases here : j = i
  · subst here
    refine ⟨touched_numbered pages.numbered j hj, ?_, ?_⟩ <;> rw [stored_pageTable, touched_self]
    · exact ok.swapped
    · rw [Bool.or_true]
      intro _ isClean
      cases isClean
  · refine ⟨touched_numbered pages.numbered j hj, ?_, ?_⟩ <;>
      rw [stored_pageTable, touched_ne s true here]
    · exact ok.swapped
    · intro valid isClean
      rw [stored_mainMemory, stored_block owns maps hj valid here fits]
      exact ok.clean valid isClean

end Flat

/-! ## Steps that keep to their own process -/

/-- The frames of the `others`, and every file but the backing file, are as they were. -/
structure Confined (others : Nat → Prop) (s s' : Vm) : Prop where
  memory : ∀ g, others g →
    block s'.mainMemory (g * pageSize) pageSize = block s.mainMemory (g * pageSize) pageSize
  data : ∀ n, n ≠ s.backing.file.file → s'.fileSystem.data n = s.fileSystem.data n
  names : s'.fileSystem.names = s.fileSystem.names
  next : s'.fileSystem.next = s.fileSystem.next
  numPages : s'.numPages = s.numPages
  backing : s'.backing = s.backing
  storedExecutable : s'.storedExecutable = s.storedExecutable

section Confinement

variable {c : Config} {others : Nat → Prop} {s s' s₁ : Vm} {i g : Nat} {victim : Option Nat}
  {bytes : List Byte} {dirty : Bool}

theorem Confined.trans (first : Confined others s s₁) (second : Confined others s₁ s') :
    Confined others s s' where
  memory := fun g other => (second.memory g other).trans (first.memory g other)
  data := fun n ne => by
    rw [second.data n (by rw [first.backing]; exact ne), first.data n ne]
  names := second.names.trans first.names
  next := second.next.trans first.next
  numPages := second.numPages.trans first.numPages
  backing := second.backing.trans first.backing
  storedExecutable := second.storedExecutable.trans first.storedExecutable

theorem touched_confined (i : Nat) (w : Bool) : Confined others s (touched s i w) :=
  ⟨fun _ _ => rfl, fun _ _ => rfl, rfl, rfl, rfl, rfl, rfl⟩

theorem writeAt_elsewhere {fs fs' : FileSys.FileSystem} {f : FileSys.OpenFile} {pos : Int}
    (wrote : fs.writeAt f bytes pos = .ok fs') :
    (∀ n, n ≠ f.file → fs'.data n = fs.data n) ∧ fs'.names = fs.names ∧ fs'.next = fs.next := by
  obtain ⟨-, -, rest⟩ := bind_eq_ok.mp wrote
  cases rest
  refine ⟨?_, rfl, rfl⟩
  intro n ne
  exact Function.update_of_ne ne _ _

theorem Secures.confined (sec : Secures c others s i g victim s₁) : Confined others s s₁ := by
  have files : (∀ n, n ≠ s.backing.file.file → s₁.fileSystem.data n = s.fileSystem.data n) ∧
      s₁.fileSystem.names = s.fileSystem.names ∧ s₁.fileSystem.next = s.fileSystem.next := by
    cases victim with
    | none =>
        rw [(sec.noVictim rfl).1]
        exact ⟨fun _ _ => rfl, rfl, rfl⟩
    | some v =>
        have wrote := sec.fileSystem v rfl
        split at wrote
        · exact writeAt_elsewhere wrote
        · rw [wrote]
          exact ⟨fun _ _ => rfl, rfl, rfl⟩
  refine ⟨?_, files.1, files.2.1, files.2.2, sec.numPages, sec.backing, sec.storedExecutable⟩
  intro f _
  rw [sec.mainMemory]

theorem Fills.confined (fills : Fills s₁ i bytes dirty s')
    (frame : (s₁.pageTable i).physicalPage = g) (short : bytes.length ≤ pageSize)
    (fresh : ¬ others g) : Confined others s₁ s' := by
  refine ⟨?_, ?_, ?_, ?_, fills.numPages, fills.backing, fills.storedExecutable⟩
  · intro f other
    have fg : f ≠ g := by
      rintro rfl
      exact fresh other
    rw [fills.mainMemory, frame, frameAddr_natCast]
    apply splice_block_outside
    have := frames_apart fg
    omega
  · intro n _
    rw [fills.fileSystem]
  · rw [fills.fileSystem]
  · rw [fills.fileSystem]

/-- **A page fault is confined to its process.** -/
theorem demandpage_confined {b : Bool} (owns : Owns c others s) (hi : i < s.numPages)
    (invalid : (s.pageTable i).valid = false) (ret : demandpage c s i = .ok (b, s')) :
    Confined others s s' := by
  obtain ⟨-, g, victim, s₁, bytes, dirty, sec, -, fills, how⟩ :=
    demandpage_cases owns hi invalid ret
  obtain ⟨u, entry⟩ := sec.entry
  have frame : (s₁.pageTable i).physicalPage = g := by rw [entry]
  have short : bytes.length ≤ pageSize := by
    rcases how with ⟨-, -, read⟩ | ⟨-, -, noffH, -, image⟩
    · obtain ⟨-, -, rest⟩ := bind_eq_ok.mp read
      cases rest
      exact List.length_take_le _ _
    · exact pageImage_length image
  exact sec.confined.trans (fills.confined frame short sec.fresh)

end Confinement

/-! ## Reads and writes -/

section Accesses

variable {c : Config} {others : Nat → Prop} {s : Vm} {addr : Word} {size : Nat}

theorem Aligned.page (aligned : Aligned addr size) {k : Nat} (inside : k < size) :
    (addr.toNat + k) / pageSize = addr.toNat / pageSize ∧
      (addr.toNat + k) % pageSize = addr.toNat % pageSize + k := by
  have fits := aligned.fits
  simp only [pageSize] at fits ⊢
  omega

/-- **A read returns the bytes of the flat memory**, in little-endian order. -/
theorem readMem_vbyte (owns : Owns c others s) (pages : PagesOk s) (aligned : Aligned addr size)
    (inside : addr.toNat / pageSize < s.numPages)
    (valid : (s.pageTable (addr.toNat / pageSize)).valid = true) :
    ∃ bytes, s.readMem c addr size =
        .ok (.value (load size bytes) (touched s (addr.toNat / pageSize) false)) ∧
      ∀ k < size, vbyte s (addr.toNat + k) = some (bytes k) := by
  obtain ⟨f, -, maps, read⟩ := readMem_valid owns aligned inside (pages.numbered _ inside) valid
  refine ⟨_, read, ?_⟩
  intro k hk
  obtain ⟨page, offset⟩ := aligned.page hk
  rw [vbyte_maps (page.symm ▸ maps), offset, Nat.add_assoc]

/-- What a completed write leaves behind. -/
structure Stores (c : Config) (others : Nat → Prop) (s : Vm) (addr : Word) (size : Nat)
    (value : Word) (s' : Vm) : Prop where
  owns : Owns c others s'
  pages : PagesOk s'
  confined : Confined others s s'
  clockHand : s'.clockHand = s.clockHand
  entries : ∀ i, (s'.pageTable i).valid = (s.pageTable i).valid ∧
    (s'.pageTable i).physicalPage = (s.pageTable i).physicalPage
  vbyte : ∀ b, b / pageSize < s.numPages →
    vbyte s' b =
      if addr.toNat ≤ b ∧ b < addr.toNat + size then some (byteOf value (b - addr.toNat))
      else vbyte s b

/-- **A write changes the bytes it names and no others.** -/
theorem writeMem_vbyte (owns : Owns c others s) (pages : PagesOk s) (aligned : Aligned addr size)
    (inside : addr.toNat / pageSize < s.numPages)
    (valid : (s.pageTable (addr.toNat / pageSize)).valid = true) (value : Word) :
    ∃ s', s.writeMem c addr size value = .ok (.value () s') ∧
      Stores c others s addr size value s' := by
  obtain ⟨f, lt, maps, wrote⟩ := writeMem_valid owns aligned inside
    (pages.numbered _ inside) valid value
  have fits := aligned.fits
  have fits' : addr.toNat % pageSize + (bytesOf value size).length ≤ pageSize := by
    rw [length_bytesOf]
    exact fits
  refine ⟨_, wrote, ?_, ?_, ?_, rfl, touched_entries, ?_⟩
  · exact (touched_owns (i := addr.toNat / pageSize) (w := true) owns).congr rfl rfl
      (fun _ _ => rfl) (fun _ _ _ => rfl)
  · exact stored_pagesOk owns pages maps fits'
  · refine ⟨?_, fun _ _ => rfl, rfl, rfl, rfl, rfl, rfl⟩
    intro g other
    have fg : g ≠ f := by
      rintro rfl
      exact owns.apart _ g maps other
    apply splice_block_outside
    have := frames_apart fg
    omega
  · intro b hb
    by_cases samePage : b / pageSize = addr.toNat / pageSize
    · have maps_b : Maps s.toAddrSpace (b / pageSize) f := samePage ▸ maps
      have maps_b' := (touched_maps (i := addr.toNat / pageSize) (w := true) _ _).mpr maps_b
      rw [vbyte_maps (s := stored _ _ _ _) maps_b', vbyte_maps maps_b, stored_mainMemory]
      have split_a := Nat.div_add_mod addr.toNat pageSize
      have split_b := Nat.div_add_mod b pageSize
      rw [samePage] at split_b
      split
      · rename_i within
        have at_ : f * pageSize + b % pageSize =
            f * pageSize + addr.toNat % pageSize + (b - addr.toNat) := by omega
        rw [at_, splice_add _ _ _ (getElem?_bytesOf value (by omega))]
      · rename_i outside
        rw [splice_outside]
        rw [length_bytesOf]
        omega
    · have outside : ¬ (addr.toNat ≤ b ∧ b < addr.toNat + size) := by
        rintro ⟨low, high⟩
        obtain ⟨page, -⟩ := aligned.page (k := b - addr.toNat) (by omega)
        rw [Nat.add_sub_cancel' low] at page
        exact samePage page
      rw [if_neg outside]
      unfold UserProg.vbyte
      congr 1
      -- another page: its entry is untouched and its frame is another one
      unfold content
      rw [stored_pageTable, touched_ne s true samePage]
      cases ok : (s.pageTable (b / pageSize)).valid with
      | true =>
          rw [if_pos rfl, if_pos rfl]
          exact congrArg some (stored_block owns maps hb ok samePage fits')
      | false => rfl

end Accesses

end Nachos.UserProg
