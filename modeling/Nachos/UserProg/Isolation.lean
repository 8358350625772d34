/-
# Nachos.UserProg.Isolation -- what one process can do to another

`recalled image log b` is the memory of a process as it would be on a machine of its
own: the byte last written at `b`, and before that the byte of the program's image.
`Mirrors` says that a paged process reads and holds exactly this memory.  One process
keeps it by itself as long as no first load is short: a read past the end of the
executable leaves the old bytes of the frame in place, whoever wrote them.

Between processes three things have to stay apart: frames, which `Sound` sees to,
page tables, and files.  Files do not stay apart by themselves, for `BackingStore`
names its file by the size of the image: two live programs of the same size write one
file.  `Separate` is the condition on each move; under it `processes_isolated` holds in
every run, and `backing_file_shared` is a run that breaks it.
-/
import Nachos.UserProg.System

namespace Nachos.UserProg

open Nachos.Lib.Bytes
open Nachos.Lib.Run
open Nachos.Machine
open Nachos.FileSys (FileSystem OpenFile)

set_option autoImplicit false

/-! ## The memory a program is entitled to -/

/-- The bytes of page `i` of the image, if the executable holds them all. -/
def Whole (fs : FileSystem) (executable : OpenFile) (noffH : NoffHeader) (i : Nat)
    (bytes : List Byte) : Prop :=
  pageImage fs executable noffH (pageAddr i) = .ok bytes ∧ bytes.length = pageSize

/-- Byte `b` of the image. -/
def imageByte (fs : FileSystem) (executable : OpenFile) (noffH : NoffHeader) (b : Nat) : Byte :=
  match pageImage fs executable noffH (pageAddr (b / pageSize)) with
  | .ok bytes => bytes.getD (b % pageSize) 0
  | .error _ => 0

/-- The byte at `b` after the accesses of `log`, which is newest first. -/
def recalled (image : Nat → Byte) (log : List Event) (b : Nat) : Byte :=
  (lastWritten log b).getD (image b)

/-- Every read returned the bytes the program was entitled to. -/
def Faithful (image : Nat → Byte) : List Event → Prop
  | [] => True
  | .read addr size value :: older =>
      value = load size (fun k => recalled image older (addr.toNat + k)) ∧ Faithful image older
  | .paged _ _ :: older => Faithful image older
  | .wrote _ _ _ :: older => Faithful image older

/-- The event is an access, not a page fault. -/
def Event.completed : Event → Bool
  | .paged _ _ => false
  | .read _ _ _ => true
  | .wrote _ _ _ => true

theorem imageByte_whole {fs : FileSystem} {e : OpenFile} {noffH : NoffHeader} {b : Nat}
    {bytes : List Byte} (whole : Whole fs e noffH (b / pageSize) bytes) :
    bytes[b % pageSize]? = some (imageByte fs e noffH b) := by
  have offset : b % pageSize < bytes.length := by
    rw [whole.2]
    exact Nat.mod_lt _ (by decide)
  unfold imageByte
  rw [whole.1, List.getElem?_eq_getElem offset]
  simp [List.getD, List.getElem?_eq_getElem offset]

theorem imageByte_congr {fs fs' : FileSystem} {e : OpenFile} {noffH : NoffHeader}
    (same : fs'.data e.file = fs.data e.file) : imageByte fs' e noffH = imageByte fs e noffH := by
  funext b
  unfold imageByte
  rw [pageImage_congr same]

/-- The reads of a log are determined by its accesses. -/
theorem faithful_unique {image : Nat → Byte} {l l' : List Event}
    (completed : ∀ e ∈ l, e.completed = true) (completed' : ∀ e ∈ l', e.completed = true)
    (faithful : Faithful image l) (faithful' : Faithful image l')
    (same : l.filterMap Event.op = l'.filterMap Event.op) : l = l' := by
  induction l generalizing l' with
  | nil =>
      cases l' with
      | nil => rfl
      | cons e' l' =>
          have here' := completed' e' List.mem_cons_self
          cases e' with
          | paged page bytes => cases here'
          | read addr size value => exact absurd same (List.cons_ne_nil _ _).symm
          | wrote addr size value => exact absurd same (List.cons_ne_nil _ _).symm
  | cons e l ih =>
      cases l' with
      | nil =>
          have here := completed e List.mem_cons_self
          cases e with
          | paged page bytes => cases here
          | read addr size value => exact absurd same (List.cons_ne_nil _ _)
          | wrote addr size value => exact absurd same (List.cons_ne_nil _ _)
      | cons e' l' =>
          have here := completed e List.mem_cons_self
          have here' := completed' e' List.mem_cons_self
          have rest := fun a member => completed a (List.mem_cons_of_mem e member)
          have rest' := fun a member => completed' a (List.mem_cons_of_mem e' member)
          cases e with
          | paged page bytes => cases here
          | wrote addr size value =>
              cases e' with
              | paged page bytes => cases here'
              | read addr' size' value' => cases (List.cons.inj same).1
              | wrote addr' size' value' =>
                  obtain ⟨head, tail⟩ := List.cons.inj same
                  cases head
                  rw [ih rest rest' faithful faithful' tail]
          | read addr size value =>
              cases e' with
              | paged page bytes => cases here'
              | wrote addr' size' value' => cases (List.cons.inj same).1
              | read addr' size' value' =>
                  obtain ⟨head, tail⟩ := List.cons.inj same
                  cases head
                  obtain rfl := ih rest rest' faithful.2 faithful'.2 tail
                  rw [faithful.1, faithful'.1]

/-! ## One process -/

/-- The process holds and has read exactly the memory it is entitled to. -/
structure Mirrors (noffH : NoffHeader) (s : Vm) (log : List Event) : Prop where
  completed : ∀ e ∈ log, e.completed = true
  faithful : Faithful (imageByte s.fileSystem s.storedExecutable noffH) log
  holds : ∀ b, b / pageSize < s.numPages → content s (b / pageSize) ≠ none →
    vbyte s b = some (recalled (imageByte s.fileSystem s.storedExecutable noffH) log b)
  untouched : ∀ b, b / pageSize < s.numPages → content s (b / pageSize) = none →
    lastWritten log b = none
  accessed : ∀ op ∈ log.filterMap Event.op, op.InRange s.numPages ∧ content s op.page ≠ none
  /-- A loaded page was whole. -/
  images : ∀ i < s.numPages, content s i ≠ none →
    ∃ bytes, Whole s.fileSystem s.storedExecutable noffH i bytes

section Mirrors

variable {c : Config} {others : Nat → Prop} {noffH : NoffHeader} {s s' : Vm} {log : List Event}
  {i : Nat}

theorem content_ne_none_iff : content s i ≠ none ↔
    (s.pageTable i).valid = true ∨ 0 ≤ (s.pageTable i).physicalPage := by
  unfold content
  cases valid : (s.pageTable i).valid with
  | true => simp
  | false =>
      by_cases loaded : 0 ≤ (s.pageTable i).physicalPage
      · simp [loaded]
      · simp [loaded]

/-- What the first load of a page leaves in it. -/
theorem demandpage_first {b : Bool} (running : Running c others noffH s) (hi : i < s.numPages)
    (invalid : (s.pageTable i).valid = false) (first : (s.pageTable i).physicalPage < 0)
    (ret : demandpage c s i = .ok (b, s')) :
    ∃ bytes, pageImage s.fileSystem s.storedExecutable noffH (pageAddr i) = .ok bytes ∧
      (bytes.length = pageSize → content s' i = some bytes) := by
  obtain ⟨-, g, victim, s₁, bytes, dirty, sec, -, fills, how⟩ :=
    demandpage_cases running.owns hi invalid ret
  rcases how with ⟨before, -⟩ | ⟨-, -, noffH', header, image⟩
  · omega
  · rw [running.header] at header
    cases header
    refine ⟨bytes, ?_, ?_⟩
    · rw [← image]
      exact (pageImage_congr (sec.confined.data _ running.apart) _).symm
    · intro full
      have valid : (s'.pageTable i).valid = true := by rw [fills.entry]
      have at_ : (s'.pageTable i).physicalPage = (s₁.pageTable i).physicalPage := by
        rw [fills.entry]
      rw [content_valid valid, fills.mainMemory, at_, ← full, splice_block_self]

/-- A page fault keeps the mirror, if the first load of the page is not short. -/
theorem Mirrors.demandpage {b : Bool} (mirrors : Mirrors noffH s log)
    (running : Running c others noffH s) (hi : i < s.numPages) (small : i < pageLimit)
    (invalid : (s.pageTable i).valid = false)
    (full : (s.pageTable i).physicalPage < 0 → ∀ bytes,
      pageImage s.fileSystem s.storedExecutable noffH (pageAddr i) = .ok bytes →
        bytes.length = pageSize)
    (ret : demandpage c s i = .ok (b, s')) : Mirrors noffH s' log := by
  obtain ⟨-, elsewhere, self, valid⟩ :=
    demandpage_content running.owns running.pages hi small invalid ret
  have confined := demandpage_confined running.owns hi invalid ret
  have same := confined.executable running.apart
  have pages := confined.numPages
  have image : imageByte s'.fileSystem s'.storedExecutable noffH =
      imageByte s.fileSystem s.storedExecutable noffH := by
    rw [confined.storedExecutable]
    exact imageByte_congr same
  have wholes : ∀ j bytes, Whole s'.fileSystem s'.storedExecutable noffH j bytes ↔
      Whole s.fileSystem s.storedExecutable noffH j bytes := by
    intro j bytes
    unfold Whole
    rw [confined.storedExecutable, pageImage_congr same]
  -- a page that was loaded keeps its bytes; the faulting page may have been loaded now
  have keeps : ∀ j < s.numPages, content s j ≠ none → content s' j = content s j := by
    intro j hj loaded
    by_cases here : j = i
    · subst here
      apply self
      rcases content_ne_none_iff.mp loaded with bad | phys
      · rw [invalid] at bad
        cases bad
      · exact phys
    · exact elsewhere j hj here
  have fresh : ∀ j < s.numPages, content s' j ≠ none → content s j = none →
      j = i ∧ ∃ bytes, Whole s.fileSystem s.storedExecutable noffH i bytes ∧
        content s' i = some bytes := by
    intro j hj loaded unloaded
    have here : j = i := by
      by_contra ne
      exact loaded ((elsewhere j hj ne).trans unloaded)
    subst here
    have first : (s.pageTable j).physicalPage < 0 := by
      by_contra phys
      exact content_ne_none_iff.mpr (Or.inr (not_lt.mp phys)) unloaded
    obtain ⟨bytes, read, put⟩ := demandpage_first running hi invalid first ret
    have length := full first bytes read
    exact ⟨rfl, bytes, ⟨read, length⟩, put length⟩
  refine ⟨mirrors.completed, image ▸ mirrors.faithful, ?_, ?_, ?_, ?_⟩
  · intro a ha loaded
    rw [pages] at ha
    rw [image]
    by_cases before : content s (a / pageSize) = none
    · obtain ⟨here, bytes, whole, put⟩ := fresh _ ha loaded before
      rw [vbyte, here, put, Option.bind_some, imageByte_whole (here ▸ whole), recalled,
        mirrors.untouched a ha before, Option.getD_none]
    · rw [vbyte_of_content (keeps _ ha before)]
      exact mirrors.holds a ha before
  · intro a ha unloaded
    rw [pages] at ha
    apply mirrors.untouched a ha
    by_contra before
    exact before ((keeps _ ha before).symm.trans unloaded)
  · intro op member
    obtain ⟨inRange, loaded⟩ := mirrors.accessed op member
    refine ⟨pages ▸ inRange, ?_⟩
    rw [keeps _ inRange.page_lt.1 loaded]
    exact loaded
  · intro j hj loaded
    rw [pages] at hj
    by_cases before : content s j = none
    · obtain ⟨here, bytes, whole, -⟩ := fresh j hj loaded before
      exact ⟨bytes, (wholes _ _).mpr (here ▸ whole)⟩
    · obtain ⟨bytes, whole⟩ := mirrors.images j hj before
      exact ⟨bytes, (wholes _ _).mpr whole⟩

theorem recalled_cons {image : Nat → Byte} {event : Event} {m : Nat → Option Byte} {a : Nat}
    (known : m a = some (recalled image log a)) :
    event.apply m a = some (recalled image (event :: log) a) := by
  cases event with
  | paged page bytes => exact known
  | read addr size value => exact known
  | wrote addr size value =>
      simp only [Event.apply, recalled, lastWritten]
      split
      · rfl
      · exact known

/-- A completed access keeps the mirror. -/
theorem Mirrors.serves {op : Op} {event : Event} (mirrors : Mirrors noffH s log)
    (running : Running c others noffH s) (inRange : op.InRange s.numPages)
    (valid : (s.pageTable op.page).valid = true) (serves : Serves c others noffH s op event s') :
    Mirrors noffH s' (event :: log) := by
  have pages := serves.confined.numPages
  have same := serves.confined.executable running.apart
  have image : imageByte s'.fileSystem s'.storedExecutable noffH =
      imageByte s.fileSystem s.storedExecutable noffH := by
    rw [serves.confined.storedExecutable]
    exact imageByte_congr same
  have loads : ∀ j, content s' j ≠ none ↔ content s j ≠ none := by
    intro j
    rw [content_ne_none_iff, content_ne_none_iff, (serves.entries j).1, (serves.entries j).2]
  have touched_ : content s op.page ≠ none := content_ne_none_iff.mpr (Or.inl valid)
  have within : ∀ k < op.size, (op.addr.toNat + k) / pageSize = op.page := by
    intro k hk
    exact (inRange.aligned.page hk).1
  refine ⟨?_, ?_, ?_, ?_, ?_, ?_⟩
  · intro e member
    rcases List.mem_cons.mp member with rfl | old
    · have answers := serves.answers
      cases e with
      | paged page bytes => cases answers
      | read addr size value => rfl
      | wrote addr size value => rfl
    · exact mirrors.completed e old
  · rw [image]
    have reads := serves.reads
    have answers := serves.answers
    cases event with
    | paged page bytes => cases answers
    | wrote addr size value => exact mirrors.faithful
    | read addr size value =>
        cases answers
        refine ⟨?_, mirrors.faithful⟩
        obtain ⟨bytes, rfl, read⟩ := reads
        apply load_congr inRange.aligned.1
        intro k hk
        have page := within k hk
        have held := mirrors.holds (addr.toNat + k) (page.symm ▸ inRange.page_lt.1)
          (page.symm ▸ touched_)
        exact Option.some.inj ((read k hk).symm.trans held)
  · intro a ha loaded
    rw [pages] at ha
    rw [serves.vbyte a ha, image]
    exact recalled_cons (mirrors.holds a ha ((loads _).mp loaded))
  · intro a ha unloaded
    rw [pages] at ha
    have before : content s (a / pageSize) = none := by
      by_contra loaded
      exact (loads _).mpr loaded unloaded
    have old := mirrors.untouched a ha before
    have answers := serves.answers
    cases event with
    | paged page bytes => exact old
    | read addr size value => exact old
    | wrote addr size value =>
        cases answers
        have outside : ¬ (addr.toNat ≤ a ∧ a < addr.toNat + size) := by
          rintro ⟨low, high⟩
          have page := within (a - addr.toNat) (by simp only [Op.size]; omega)
          rw [show (Op.write addr size value).addr.toNat + (a - addr.toNat) = a from
            Nat.add_sub_cancel' low] at page
          exact touched_ (page ▸ before)
        simp only [lastWritten, if_neg outside]
        exact old
  · intro op' member
    rw [List.filterMap_cons_some serves.answers] at member
    rcases List.mem_cons.mp member with rfl | old
    · exact ⟨pages ▸ inRange, (loads _).mpr touched_⟩
    · obtain ⟨inRange', loaded⟩ := mirrors.accessed op' old
      exact ⟨pages ▸ inRange', (loads _).mpr loaded⟩
  · intro j hj loaded
    rw [pages] at hj
    obtain ⟨bytes, whole⟩ := mirrors.images j hj ((loads j).mp loaded)
    refine ⟨bytes, ?_, whole.2⟩
    rw [serves.confined.storedExecutable, pageImage_congr same]
    exact whole.1

end Mirrors

/-! ## A process alone -/

section Alone

variable {c : Config} {noffH : NoffHeader} {s : Vm} {log : List Event}

/-- The accesses of a log, oldest first. -/
def history (log : List Event) : List Op := (log.filterMap Event.op).reverse

theorem loadable_of_whole {fs : FileSystem} {e : OpenFile} {i : Nat} {bytes : List Byte}
    (whole : Whole fs e noffH i bytes) : Loadable noffH (pageAddr i) := by
  rcases pageImage_cases fs e noffH (pageAddr i) with ⟨loadable, -⟩ | ⟨-, failed⟩
  · exact loadable
  · rw [whole.1] at failed
    cases failed

/-- An access of a process that has the machine to itself, to a page that is whole in
the image, completes and keeps the mirror. -/
theorem access_alone {op : Op} (running : Running c (fun _ => False) noffH s)
    (hand : HandInside s.toAddrSpace) (mirrors : Mirrors noffH s (log.filter Event.completed))
    (inRange : op.InRange s.numPages)
    (whole : ∃ bytes, Whole s.fileSystem s.storedExecutable noffH op.page bytes) :
    ∃ s' log', access c 2 (s, log) op = .ok (s', log') ∧
      log'.filterMap Event.op = op :: log.filterMap Event.op ∧
      Running c (fun _ => False) noffH s' ∧ HandInside s'.toAddrSpace ∧
      Mirrors noffH s' (log'.filter Event.completed) ∧ Confined (fun _ => False) s s' := by
  obtain ⟨inside, small, page⟩ := inRange.page_lt
  have recorded : ∀ {event : Event}, event.op = some op → event.completed = true := by
    intro event answers
    cases event with
    | paged page bytes => cases answers
    | read addr size value => rfl
    | wrote addr size value => rfl
  cases valid : (s.pageTable op.page).valid with
  | true =>
      obtain ⟨event, s', tried, serves⟩ := attempt_valid running inRange valid
      refine ⟨s', event :: log, ?_, ?_, serves.running, serves.hand hand, ?_, serves.confined⟩
      · rw [access, tried]
        rfl
      · rw [List.filterMap_cons_some serves.answers]
      · rw [List.filter_cons_of_pos (recorded serves.answers)]
        exact mirrors.serves running inRange valid serves
  | false =>
      obtain ⟨bytes, whole⟩ := whole
      have frame : FrameFree c s.toCore ∨ HandInside s.toAddrSpace ∧ HasResident s.toAddrSpace :=
        (frame_of_alone running.owns).imp_right fun some_ => ⟨hand, some_⟩
      have servable : Servable s op.page :=
        Or.inr ⟨noffH, running.header, loadable_of_whole whole⟩
      obtain ⟨s₁, ret⟩ :=
        (demandpage_returns running.owns running.pages.numbered inside valid).mpr ⟨frame, servable⟩
      obtain ⟨-, -, -, now⟩ := demandpage_content running.owns running.pages inside small valid ret
      have confined := demandpage_confined running.owns inside valid ret
      have running₁ := running.demandpage inside small valid ret
      have full : (s.pageTable op.page).physicalPage < 0 → ∀ bytes,
          pageImage s.fileSystem s.storedExecutable noffH (pageAddr op.page) = .ok bytes →
            bytes.length = pageSize := by
        intro _ bytes' image
        rw [whole.1] at image
        cases image
        exact whole.2
      have mirrors₁ := mirrors.demandpage running inside small valid full ret
      have inRange₁ : op.InRange s₁.numPages := confined.numPages ▸ inRange
      obtain ⟨event, s', tried, serves⟩ := attempt_valid running₁ inRange₁ now
      refine ⟨s', event :: .paged op.page
          (block s₁.mainMemory (frameAddr (s₁.pageTable op.page).physicalPage) pageSize) :: log,
        ?_, ?_, serves.running,
        serves.hand (demandpage_hand running.owns hand inside valid ret), ?_,
        confined.trans serves.confined⟩
      · rw [access, attempt_fault inRange valid, ok_bind]
        simp only [page, ret, ok_bind, Int.toNat_natCast]
        rw [access, tried]
        rfl
      · rw [List.filterMap_cons_some serves.answers, List.filterMap_cons_none rfl]
      · rw [List.filter_cons_of_pos (recorded serves.answers),
          List.filter_cons_of_neg Bool.false_ne_true]
        exact mirrors₁.serves running₁ inRange₁ now serves

theorem accesses_alone (ops : List Op) (running : Running c (fun _ => False) noffH s)
    (hand : HandInside s.toAddrSpace) (mirrors : Mirrors noffH s (log.filter Event.completed))
    (good : ∀ op ∈ ops, op.InRange s.numPages ∧
      ∃ bytes, Whole s.fileSystem s.storedExecutable noffH op.page bytes) :
    ∃ s' log', accesses c (s, log) ops = .ok (s', log') ∧
      log'.filterMap Event.op = ops.reverse ++ log.filterMap Event.op ∧
      Mirrors noffH s' (log'.filter Event.completed) ∧
      s'.fileSystem.data s.storedExecutable.file = s.fileSystem.data s.storedExecutable.file ∧
      s'.storedExecutable = s.storedExecutable := by
  induction ops generalizing s log with
  | nil => exact ⟨s, log, rfl, rfl, mirrors, rfl, rfl⟩
  | cons op ops ih =>
      obtain ⟨inRange, whole⟩ := good op List.mem_cons_self
      obtain ⟨s₁, log₁, done, logged, running₁, hand₁, mirrors₁, confined⟩ :=
        access_alone running hand mirrors inRange whole
      have same := confined.executable running.apart
      have later : ∀ op ∈ ops, op.InRange s₁.numPages ∧
          ∃ bytes, Whole s₁.fileSystem s₁.storedExecutable noffH op.page bytes := by
        intro other member
        obtain ⟨inRange', bytes, whole'⟩ := good other (List.mem_cons_of_mem _ member)
        refine ⟨confined.numPages ▸ inRange', bytes, ?_, whole'.2⟩
        rw [confined.storedExecutable, pageImage_congr same]
        exact whole'.1
      obtain ⟨s', log', ran, logged', mirrors', same', exe'⟩ := ih running₁ hand₁ mirrors₁ later
      rw [confined.storedExecutable] at same' exe'
      refine ⟨s', log', ?_, ?_, mirrors', same'.trans same, exe'⟩
      · rw [accesses, done, ok_bind]
        exact ran
      · rw [logged', logged, List.reverse_cons, List.append_assoc]
        rfl

end Alone

/-! ## Bystanders -/

/-- What a process can see of the machine is the same in both states. -/
structure Agrees (space : AddrSpace) (core core' : Core) : Prop where
  memory : ∀ i f, Maps space i f →
    block core'.mainMemory (f * pageSize) pageSize = block core.mainMemory (f * pageSize) pageSize
  backing : core'.fileSystem.data space.backing.file.file =
    core.fileSystem.data space.backing.file.file
  executable : core'.fileSystem.data space.storedExecutable.file =
    core.fileSystem.data space.storedExecutable.file

section Bystanding

variable {c : Config} {others others' : Nat → Prop} {noffH : NoffHeader} {space : AddrSpace}
  {core core' : Core} {log : List Event}

theorem Agrees.fileOf (agrees : Agrees space core core') :
    fileOf ⟨core', space⟩ = fileOf ⟨core, space⟩ :=
  agrees.backing

theorem Agrees.frame (agrees : Agrees space core core') (owns : Owns c others ⟨core, space⟩)
    {i : Nat} (hi : i < space.numPages) (valid : (space.pageTable i).valid = true) :
    block core'.mainMemory (frameAddr (space.pageTable i).physicalPage) pageSize =
      block core.mainMemory (frameAddr (space.pageTable i).physicalPage) pageSize := by
  obtain ⟨f, -, maps⟩ := maps_of_valid owns hi valid
  have phys : (space.pageTable i).physicalPage = f := maps.2.2
  rw [phys, frameAddr_natCast]
  exact agrees.memory i f maps

theorem Agrees.content (agrees : Agrees space core core') (owns : Owns c others ⟨core, space⟩)
    {i : Nat} (hi : i < space.numPages) :
    content ⟨core', space⟩ i = content ⟨core, space⟩ i := by
  unfold UserProg.content
  rw [agrees.fileOf]
  cases valid : (space.pageTable i).valid with
  | true =>
      have frame := agrees.frame owns hi valid
      simp only [if_true, frame]
  | false => rfl

theorem Agrees.running (agrees : Agrees space core core')
    (running : Running c others noffH ⟨core, space⟩) (owns : Owns c others' ⟨core', space⟩) :
    Running c others' noffH ⟨core', space⟩ := by
  refine ⟨owns, ?_, ?_, running.apart⟩
  · intro i hi
    have ok := running.pages i hi
    refine ⟨ok.numbered, ?_, ?_⟩
    · rw [agrees.fileOf]
      exact ok.swapped
    · intro valid isClean
      have frame := agrees.frame running.owns hi valid
      rw [agrees.fileOf, frame]
      exact ok.clean valid isClean
  · exact (readHeader_congr agrees.executable).trans running.header

theorem Agrees.mirrors (agrees : Agrees space core core')
    (owns : Owns c others ⟨core, space⟩) (mirrors : Mirrors noffH ⟨core, space⟩ log) :
    Mirrors noffH ⟨core', space⟩ log := by
  have image : imageByte core'.fileSystem space.storedExecutable noffH =
      imageByte core.fileSystem space.storedExecutable noffH := imageByte_congr agrees.executable
  have same : ∀ i < space.numPages,
      UserProg.content ⟨core', space⟩ i = UserProg.content ⟨core, space⟩ i :=
    fun i hi => agrees.content owns hi
  refine ⟨mirrors.completed, ?_, ?_, ?_, ?_, ?_⟩
  · exact image ▸ mirrors.faithful
  · intro b hb loaded
    rw [same _ hb] at loaded
    rw [vbyte_of_content (same _ hb)]
    exact image ▸ mirrors.holds b hb loaded
  · intro b hb unloaded
    rw [same _ hb] at unloaded
    exact mirrors.untouched b hb unloaded
  · intro op member
    obtain ⟨inRange, loaded⟩ := mirrors.accessed op member
    refine ⟨inRange, ?_⟩
    rw [same _ inRange.page_lt.1]
    exact loaded
  · intro i hi loaded
    rw [same i hi] at loaded
    obtain ⟨bytes, whole⟩ := mirrors.images i hi loaded
    exact ⟨bytes, (pageImage_congr agrees.executable _).trans whole.1, whole.2⟩

end Bystanding

/-! ## Many processes -/

/-- The inode `BackingStore` gets for a program with this header. -/
def backingInode (fs : FileSystem) (noffH : NoffHeader) : Nat :=
  (fs.names (backingName (BitVec.ofNat 32 (imagePages noffH * pageSize)))).getD fs.next

/-- The condition on a move.  A program that is started has at most `2^24` pages; its
backing file is no live process's backing file or executable, nor its own executable;
and its executable is no live process's backing file.  A page is not loaded for the
first time by a read that runs past the end of the executable. -/
def Separate (sys : System) : Move → Prop
  | .exec _ name _ => ∀ e noffH, sys.core.fileSystem.open name = some e →
      readHeader sys.core.fileSystem e = .ok noffH →
      imagePages noffH ≤ pageLimit ∧
        e.file ≠ backingInode sys.core.fileSystem noffH ∧
        ∀ q space, sys.live q = some space →
          backingInode sys.core.fileSystem noffH ≠ space.backing.file.file ∧
          backingInode sys.core.fileSystem noffH ≠ space.storedExecutable.file ∧
          e.file ≠ space.backing.file.file
  | .access p op => ∀ space noffH bytes, sys.live p = some space →
      (space.pageTable op.page).physicalPage < 0 →
      readHeader sys.core.fileSystem space.storedExecutable = .ok noffH →
      pageImage sys.core.fileSystem space.storedExecutable noffH (pageAddr op.page) = .ok bytes →
      bytes.length = pageSize
  | .exit _ => True
  | .reap _ => True

/-- A live process as it would be alone, the frames of the others apart. -/
structure Kept (c : Config) (sys : System) (p : Nat) (space : AddrSpace) (noffH : NoffHeader) :
    Prop where
  running : Running c (sys.others p) noffH ⟨sys.core, space⟩
  mirrors : Mirrors noffH ⟨sys.core, space⟩ (sys.seen p)
  size : space.numPages = imagePages noffH
  small : space.numPages ≤ pageLimit

structure Isolated (c : Config) (sys : System) : Prop where
  sound : Sound c sys
  files : ∀ p q space space', p ≠ q → sys.live p = some space → sys.live q = some space' →
    space.backing.file.file ≠ space'.backing.file.file ∧
      space.backing.file.file ≠ space'.storedExecutable.file
  kept : ∀ p space, sys.live p = some space → ∃ noffH, Kept c sys p space noffH

section Isolation

variable {c : Config} {sys sys' : System} {p : Nat} {space : AddrSpace}

theorem fits_of_separate {m : Move} (separate : Separate sys m) : Fits sys m := by
  cases m with
  | exec p name h =>
      intro e noffH opened header
      have small := (separate e noffH opened header).1
      simp only [pageLimit] at small
      omega
  | access p op => trivial
  | exit p => trivial
  | reap p => trivial

theorem Kept.bystander {q : Nat} {noffH : NoffHeader} (kept : Kept c sys q space noffH)
    (agrees : Agrees space sys.core sys'.core) (sound : Sound c sys')
    (live : sys'.live q = some space) (seen : sys'.seen q = sys.seen q) :
    Kept c sys' q space noffH := by
  refine ⟨agrees.running kept.running (sound.owns live), ?_, kept.size, kept.small⟩
  rw [seen]
  exact agrees.mirrors kept.running.owns kept.mirrors

/-- A confined step of `p` is not seen by anybody else. -/
theorem Isolated.agrees {q : Nat} {space' : AddrSpace} {s : Vm} (isolated : Isolated c sys)
    (live : sys.live p = some space) (live' : sys.live q = some space') (ne : q ≠ p)
    (confined : Confined (sys.others p) ⟨sys.core, space⟩ s) : Agrees space' sys.core s.toCore := by
  obtain ⟨apart, apart'⟩ := isolated.files p q space space' ne.symm live live'
  refine ⟨?_, ?_, ?_⟩
  · intro i f maps
    exact confined.memory f ⟨q, space', i, ne, live', maps⟩
  · exact confined.data _ apart.symm
  · exact confined.data _ apart'.symm

/-- Files stay apart when a process goes on with the files it has. -/
theorem Isolated.files_resume {s : Vm} (isolated : Isolated c sys) (live : sys.live p = some space)
    (backing : s.backing = space.backing) (executable : s.storedExecutable = space.storedExecutable)
    (q r : Nat) (space₁ space₂ : AddrSpace) (ne : q ≠ r)
    (live₁ : (sys.resume p s).live q = some space₁)
    (live₂ : (sys.resume p s).live r = some space₂) :
    space₁.backing.file.file ≠ space₂.backing.file.file ∧
      space₁.backing.file.file ≠ space₂.storedExecutable.file := by
  have look : ∀ q space', (sys.resume p s).live q = some space' → ∃ old,
      sys.live q = some old ∧ space'.backing = old.backing ∧
        space'.storedExecutable = old.storedExecutable := by
    intro q space' found
    rw [resume_live] at found
    split at found
    · rename_i here
      cases found
      exact ⟨space, here ▸ live, backing, executable⟩
    · exact ⟨space', found, rfl, rfl⟩
  obtain ⟨old₁, was₁, same₁, -⟩ := look q space₁ live₁
  obtain ⟨old₂, was₂, same₂, same₂'⟩ := look r space₂ live₂
  rw [same₁, same₂, same₂']
  exact isolated.files q r old₁ old₂ ne was₁ was₂

/-- **One process moves**: the mover keeps its own mirror, and nobody else notices. -/
theorem Isolated.resume {s : Vm} {noffH : NoffHeader} {seen : Nat → List Event}
    (isolated : Isolated c sys) (live : sys.live p = some space)
    (confined : Confined (sys.others p) ⟨sys.core, space⟩ s)
    (sound : Sound c { sys.resume p s with seen }) (kept : Kept c sys p space noffH)
    (running : Running c (sys.others p) noffH s) (mirrors : Mirrors noffH s (seen p))
    (others : ∀ q, q ≠ p → seen q = sys.seen q) :
    Isolated c { sys.resume p s with seen } := by
  have mine : (sys.resume p s).live p = some s.toAddrSpace := by
    rw [resume_live, if_pos rfl]
  refine ⟨sound, isolated.files_resume live confined.backing confined.storedExecutable, ?_⟩
  intro q space' found
  by_cases here : q = p
  · subst here
    rw [show ({ sys.resume q s with seen } : System).live q = some s.toAddrSpace from mine] at found
    cases found
    refine ⟨noffH, ⟨sound.owns mine, running.pages, running.header, running.apart⟩, mirrors, ?_, ?_⟩
    · exact confined.numPages.trans kept.size
    · exact confined.numPages.trans_le kept.small
  · have was : sys.live q = some space' := by
      have := found
      rw [show ({ sys.resume p s with seen } : System).live q = _ from resume_live q,
        if_neg here] at this
      exact this
    obtain ⟨noffH', kept'⟩ := isolated.kept q space' was
    exact ⟨noffH', kept'.bystander (isolated.agrees live was here confined) sound found
      (others q here)⟩

theorem inRange_of_small {op : Op} {n : Nat} (aligned : Aligned op.addr op.size)
    (inside : op.page < n) (small : n ≤ pageLimit) : op.InRange n := by
  have fits := aligned.fits
  have split_ := Nat.div_add_mod op.addr.toNat pageSize
  have room : (op.page + 1) * pageSize ≤ n * pageSize := Nat.mul_le_mul_right _ inside
  have high : op.addr.toNat + op.size ≤ n * pageSize := by
    rw [Nat.succ_mul, Op.page, Nat.mul_comm] at room
    omega
  have bound : op.addr.toNat < 2 ^ 31 := by
    have : n * pageSize ≤ pageLimit * pageSize := Nat.mul_le_mul_right _ small
    have positive : 0 < op.size := by
      obtain ⟨size | size | size, -⟩ := aligned <;> omega
    simp only [pageLimit, pageSize] at this
    simp only [pageSize] at high
    omega
  have value : op.addr.toInt = op.addr.toNat := by
    rw [BitVec.toInt_eq_toNat_cond, if_pos (by omega)]
  refine ⟨aligned, ?_, ?_⟩
  · rw [value]
    exact Int.natCast_nonneg _
  · rw [value]
    exact_mod_cast high

theorem counted_confined {s : Vm} {others : Nat → Prop} : Confined others s (counted s) :=
  ⟨fun _ _ => rfl, fun _ _ => rfl, rfl, rfl, rfl, rfl, rfl⟩

theorem finish_isolated (isolated : Isolated c sys) (sound : Sound c sys')
    (live : sys.live p = some space) (done : sys.finish p space = some sys') :
    Isolated c sys' := by
  unfold System.finish at done
  split at done
  · cases done
  · rename_i core cleared
    cases done
    obtain ⟨mm, -, last⟩ := bind_eq_ok.mp cleared
    cases last
    have look : ∀ q space', Function.update sys.live p none q = some space' →
        sys.live q = some space' := by
      intro q space' found
      by_cases here : q = p
      · subst here
        rw [Function.update_self] at found
        cases found
      · rwa [Function.update_of_ne here] at found
    refine ⟨sound, ?_, ?_⟩
    · intro q r space₁ space₂ ne live₁ live₂
      exact isolated.files q r space₁ space₂ ne (look q _ live₁) (look r _ live₂)
    · intro q space' found
      obtain ⟨noffH, kept⟩ := isolated.kept q space' (look q space' found)
      exact ⟨noffH, kept.bystander ⟨fun _ _ _ => rfl, rfl, rfl⟩ sound found rfl⟩

theorem touch_isolated {op : Op} (isolated : Isolated c sys) (sound : Sound c sys')
    (separate : Separate sys (.access p op)) (live : sys.live p = some space)
    (moved : sys.touch c p space op = some sys') : Isolated c sys' := by
  obtain ⟨noffH, kept⟩ := isolated.kept p space live
  have running := kept.running
  unfold System.touch at moved
  split at moved
  · cases moved
  · rename_i event s tried
    cases moved
    rcases attempt_cases tried with ⟨event', w, m, -, inside, valid, aligned⟩ | ⟨which, bad, -⟩
    · have inRange := inRange_of_small aligned inside kept.small
      obtain ⟨event₂, s₂, tried₂, serves⟩ := attempt_valid running inRange valid
      rw [tried] at tried₂
      cases tried₂
      refine isolated.resume live serves.confined sound kept serves.running ?_ ?_
      · show Mirrors noffH s (Function.update sys.seen p (event :: sys.seen p) p)
        rw [Function.update_self]
        exact kept.mirrors.serves running inRange valid serves
      · intro q ne
        exact Function.update_of_ne ne _ _
    · cases bad
  · rename_i tried
    rcases attempt_cases tried with ⟨event', w, m, same, -⟩ | ⟨which, same, fault⟩
    · cases same
    · cases same
      obtain ⟨inside, invalid⟩ := fault rfl
      split at moved
      · cases moved
      · rename_i s served
        cases moved
        obtain ⟨low, b, ret⟩ := pageFault_cases (s := ⟨sys.core, space⟩) inside
          (isolated.sound.small p space live) served
        have agrees : Agrees space sys.core (counted ⟨sys.core, space⟩).toCore :=
          ⟨fun _ _ _ => rfl, rfl, rfl⟩
        have running' : Running c (sys.others p) noffH (counted ⟨sys.core, space⟩) :=
          agrees.running running (counted_owns running.owns)
        have confined := demandpage_confined running'.owns inside invalid ret
        have full : (space.pageTable op.page).physicalPage < 0 → ∀ bytes,
            pageImage sys.core.fileSystem space.storedExecutable noffH (pageAddr op.page) =
              .ok bytes → bytes.length = pageSize := by
          intro first bytes image
          exact separate space noffH bytes live first running.header image
        exact isolated.resume live (counted_confined.trans confined) sound kept
          (running'.demandpage inside low invalid ret)
          (Mirrors.demandpage (s := counted ⟨sys.core, space⟩)
            (agrees.mirrors running.owns kept.mirrors) running' inside low invalid full ret)
          (fun _ _ => rfl)
  · exact finish_isolated isolated sound live moved

theorem start_isolated {name : String} {h : Int} (isolated : Isolated c sys) (sound : Sound c sys')
    (separate : Separate sys (.exec p name h)) (unused : sys.live p = none)
    (started : sys.start p name h = some sys') : Isolated c sys' := by
  unfold System.start at started
  split at started
  · cases started
    exact isolated
  · rename_i e opened
    split at started
    · cases started
    · rename_i space core init
      cases started
      obtain ⟨noffH, starts⟩ := initializeSpace_starts init
      obtain ⟨small, own, others⟩ := separate e noffH opened starts.header
      have inode : space.backing.file.file = backingInode sys.core.fileSystem noffH := by
        rw [starts.file, starts.fname]
        rfl
      have look : ∀ q space', Function.update sys.live p (some space) q = some space' →
          (q = p ∧ space' = space) ∨ (q ≠ p ∧ sys.live q = some space') := by
        intro q space' found
        by_cases here : q = p
        · subst here
          rw [Function.update_self] at found
          cases found
          exact Or.inl ⟨rfl, rfl⟩
        · rw [Function.update_of_ne here] at found
          exact Or.inr ⟨here, found⟩
      refine ⟨sound, ?_, ?_⟩
      · intro q r space₁ space₂ ne live₁ live₂
        rcases look q space₁ live₁ with ⟨rfl, rfl⟩ | ⟨-, old₁⟩ <;>
          rcases look r space₂ live₂ with ⟨rfl, rfl⟩ | ⟨-, old₂⟩
        · exact absurd rfl ne
        · obtain ⟨backing, executable, -⟩ := others r space₂ old₂
          rw [inode]
          exact ⟨backing, executable⟩
        · obtain ⟨backing, -, executable⟩ := others q space₁ old₁
          rw [inode, starts.storedExecutable]
          exact ⟨backing.symm, executable.symm⟩
        · exact isolated.files q r space₁ space₂ ne old₁ old₂
      · intro q space' found
        rcases look q space' found with ⟨rfl, rfl⟩ | ⟨ne, old⟩
        · have owns := sound.owns found
          have running : Running c (fun f => sys.core.memmanage.allocated f = true) noffH
              ⟨core, space'⟩ :=
            starts.running isolated.sound.manages (fun _ _ => Iff.rfl) (inode.symm ▸ own)
          refine ⟨noffH, ⟨owns, running.pages, running.header, running.apart⟩, ?_, starts.numPages,
            starts.numPages ▸ small⟩
          show Mirrors noffH ⟨core, space'⟩ (Function.update sys.seen q [] q)
          rw [Function.update_self]
          refine ⟨?_, trivial, ?_, ?_, ?_, ?_⟩
          · intro event member
            cases member
          · intro b _ loaded
            exact absurd (starts.content_none _) loaded
          · intro b _ _
            rfl
          · intro op member
            cases member
          · intro i _ loaded
            exact absurd (starts.content_none i) loaded
        · obtain ⟨noffH', kept⟩ := isolated.kept q space' old
          obtain ⟨backing, executable, -⟩ := others q space' old
          refine ⟨noffH', kept.bystander ⟨?_, ?_, ?_⟩ sound found (Function.update_of_ne ne _ _)⟩
          · intro i f _
            show block core.mainMemory _ _ = _
            rw [starts.mainMemory]
          · exact starts.elsewhere _ (inode ▸ backing.symm)
          · exact starts.elsewhere _ (inode ▸ executable.symm)

theorem step_isolated {m : Move} (isolated : Isolated c sys) (separate : Separate sys m)
    (moved : sys.step c m = some sys') : Isolated c sys' := by
  have sound := step_sound isolated.sound (fits_of_separate separate) moved
  cases m with
  | exec p name h =>
      simp only [System.step] at moved
      split at moved
      · rename_i unused
        exact start_isolated isolated sound separate unused.1 moved
      · cases moved
  | access p op =>
      obtain ⟨space, live, rest⟩ := Option.bind_eq_some_iff.mp moved
      exact touch_isolated isolated sound separate live rest
  | exit p =>
      obtain ⟨space, live, rest⟩ := Option.bind_eq_some_iff.mp moved
      exact finish_isolated isolated sound live rest
  | reap p =>
      obtain ⟨space, -, rfl⟩ := Option.map_eq_some_iff.mp moved
      refine ⟨sound, isolated.files, ?_⟩
      intro q space' found
      obtain ⟨noffH, kept⟩ := isolated.kept q space' found
      exact ⟨noffH, kept.bystander ⟨fun _ _ _ => rfl, rfl, rfl⟩ sound found rfl⟩

end Isolation

/-! ## As if alone -/

/-- On a machine of its own, with the same executable, process `p` completes the same
accesses with the same results. -/
def AsIfAlone (c : Config) (sys : System) (p : Nat) (space : AddrSpace) : Prop :=
  ∀ core core' space' h, core.memmanage.Manages c.numPhysPages →
    (∀ f < c.numPhysPages, core.memmanage.allocated f = false) →
    core.fileSystem.data space.storedExecutable.file =
      sys.core.fileSystem.data space.storedExecutable.file →
    initializeSpace core space.storedExecutable h = .ok (space', core') → HandInside space' →
    space.storedExecutable.file ≠ space'.backing.file.file →
    ∃ s log, accesses c (⟨core', space'⟩, []) (history (sys.seen p)) = .ok (s, log) ∧
      log.filter Event.completed = sys.seen p

section AsIfAlone

variable {c : Config} {sys : System}

theorem Kept.asIfAlone {p : Nat} {space : AddrSpace} {noffH : NoffHeader}
    (kept : Kept c sys p space noffH) : AsIfAlone c sys p space := by
  intro core core' space' h manages free same init hand apart
  obtain ⟨noffH', starts⟩ := initializeSpace_starts init
  have header : noffH' = noffH := by
    have here := starts.header
    rw [readHeader_congr same, show readHeader sys.core.fileSystem _ = _ from kept.running.header]
      at here
    cases here
    rfl
  subst header
  have running := starts.runningAlone manages free apart
  have exe : space'.storedExecutable = space.storedExecutable := starts.storedExecutable
  have data : core'.fileSystem.data space.storedExecutable.file =
      sys.core.fileSystem.data space.storedExecutable.file :=
    (starts.elsewhere _ apart).trans same
  have image : imageByte core'.fileSystem space'.storedExecutable noffH' =
      imageByte sys.core.fileSystem space.storedExecutable noffH' := by
    rw [exe]
    exact imageByte_congr data
  have mirrors : Mirrors noffH' ⟨core', space'⟩ ([].filter Event.completed) := by
    refine ⟨?_, trivial, ?_, ?_, ?_, ?_⟩
    · intro event member
      cases member
    · intro b _ loaded
      exact absurd (starts.content_none _) loaded
    · intro b _ _
      rfl
    · intro op member
      cases member
    · intro i _ loaded
      exact absurd (starts.content_none i) loaded
  have good : ∀ op ∈ history (sys.seen p), op.InRange space'.numPages ∧
      ∃ bytes, Whole core'.fileSystem space'.storedExecutable noffH' op.page bytes := by
    intro op member
    obtain ⟨inRange, loaded⟩ := kept.mirrors.accessed op (List.mem_reverse.mp member)
    obtain ⟨bytes, whole⟩ := kept.mirrors.images op.page inRange.page_lt.1 loaded
    refine ⟨?_, bytes, ?_, whole.2⟩
    · rw [starts.numPages, ← kept.size]
      exact inRange
    · rw [exe, pageImage_congr data]
      exact whole.1
  obtain ⟨s, log, ran, logged, final, data', exe'⟩ :=
    accesses_alone (history (sys.seen p)) running hand mirrors good
  refine ⟨s, log, ran, ?_⟩
  have image' : imageByte s.fileSystem s.storedExecutable noffH' =
      imageByte sys.core.fileSystem space.storedExecutable noffH' := by
    rw [← image, exe']
    exact imageByte_congr data'
  refine faithful_unique final.completed kept.mirrors.completed (image' ▸ final.faithful)
    kept.mirrors.faithful ?_
  have ops : log.filterMap Event.op = (sys.seen p).filterMap Event.op := by
    rw [logged, history, List.reverse_reverse]
    exact List.append_nil _
  rw [← ops, List.filterMap_filter]
  congr 1
  funext event
  cases event <;> rfl

/-- **Memory isolation.**  In every run whose moves keep files apart and load whole
pages, and in every state of it, each live process has read exactly what it would have
read alone, whatever the others did in between. -/
theorem processes_isolated {es : List Move} (booted : Booted c sys)
    (separate : AllSteps (System.step c) Separate sys es) :
    AllStates (System.step c)
      (fun sys => ∀ p space, sys.live p = some space → AsIfAlone c sys p space) sys es := by
  have start : Isolated c sys := by
    refine ⟨booted.sound, ?_, ?_⟩
    · intro p q space space' _ found
      rw [booted.live p] at found
      cases found
    · intro p space found
      rw [booted.live p] at found
      cases found
  have keep : ∀ sys m sys', Isolated c sys → Separate sys m → System.step c sys m = some sys' →
      Isolated c sys' := fun _ _ _ isolated separate moved => step_isolated isolated separate moved
  refine (allStates_of_invariant keep start separate).mono ?_
  intro sys isolated p space live
  obtain ⟨noffH, kept⟩ := isolated.kept p space live
  exact kept.asIfAlone

end AsIfAlone

/-- Process `p` writes `value` into page 7 and makes the page go to the backing file. -/
def stash (p : Nat) (value : Word) : List Move :=
  [.access p (.write 896 4 value), .access p (.write 896 4 value), .access p (.read 1024 4)]

def evictStash (p : Nat) : List Move :=
  [.access p (.read 768 4), .access p (.read 640 4), .access p (.read 1024 4)]

/-- Two processes of one program, each with a number in its page 7; the first reads its
own back. -/
def sharedMoves : List Move :=
  [.exec 0 "a.out" 0, .exec 1 "a.out" 0] ++ stash 0 7 ++ stash 1 9 ++ evictStash 0 ++
    evictStash 1 ++ [.access 0 (.read 896 4), .access 0 (.read 896 4)]

theorem shared_state :
    (exec (System.step fourFrames) sampleSystem sharedMoves).map
        (fun sys => ((sys.live 0).map (·.storedExecutable), sys.core.fileSystem.data 0,
          sys.seen 0)) =
      some (some ⟨0⟩, sampleFile, [.read 896 4 9, .wrote 896 4 7]) := by
  decide +kernel

theorem alone_state :
    (match accesses fourFrames (⟨sampleStarted 4, sampleSpace⟩, [])
        (history [.read 896 4 9, .wrote 896 4 7]) with
      | .ok (_, log) => log.filter Event.completed
      | .error _ => []) = [.read 896 4 7, .wrote 896 4 7] := by
  decide +kernel

/-- The two programs have the same size, so they share the backing file `bs1152`: the
first process reads the number of the second. -/
theorem backing_file_shared : Booted fourFrames sampleSystem ∧
    ∃ sys space, exec (System.step fourFrames) sampleSystem sharedMoves = some sys ∧
      sys.live 0 = some space ∧ ¬ AsIfAlone fourFrames sys 0 space := by
  obtain ⟨sys, run, after⟩ := Option.map_eq_some_iff.mp shared_state
  obtain ⟨executable, rest⟩ := Prod.mk.inj after
  obtain ⟨data, seen⟩ := Prod.mk.inj rest
  obtain ⟨space, live, exe⟩ := Option.map_eq_some_iff.mp executable
  refine ⟨sample_booted, sys, space, run, live, ?_⟩
  intro alone
  unfold AsIfAlone at alone
  rw [exe, seen] at alone
  obtain ⟨s, log, ran, same⟩ := alone (sampleCore 4) (sampleStarted 4) sampleSpace 0 ⟨rfl, rfl⟩
    sample_booted.free data.symm (sample_init 4) ⟨by decide, by decide⟩ (by decide)
  have other := alone_state
  rw [ran] at other
  exact absurd (same.symm.trans other) (by decide)

/-! ## Two programs of different sizes -/

/-- `Separate`, where nobody lives but the processes `ps`. -/
def separateAmong (ps : List Nat) (sys : System) : Move → Bool
  | .exec _ name _ =>
      match sys.core.fileSystem.open name with
      | none => true
      | some e =>
          match readHeader sys.core.fileSystem e with
          | .error _ => true
          | .ok noffH =>
              let backing := backingInode sys.core.fileSystem noffH
              decide (imagePages noffH ≤ pageLimit) && e.file != backing &&
                ps.all fun q =>
                  match sys.live q with
                  | none => true
                  | some space => backing != space.backing.file.file &&
                      backing != space.storedExecutable.file && e.file != space.backing.file.file
  | .access p op =>
      match sys.live p with
      | none => true
      | some space =>
          decide (0 ≤ (space.pageTable op.page).physicalPage) ||
            match readHeader sys.core.fileSystem space.storedExecutable with
            | .error _ => true
            | .ok noffH =>
                match pageImage sys.core.fileSystem space.storedExecutable noffH
                    (pageAddr op.page) with
                | .error _ => true
                | .ok bytes => bytes.length == pageSize
  | .exit _ => true
  | .reap _ => true

/-- Every move of the run is separate. -/
def allSeparate (c : Config) (ps : List Nat) : System → List Move → Bool
  | _, [] => true
  | sys, m :: es => ps.contains m.process && separateAmong ps sys m &&
      match System.step c sys m with
      | none => true
      | some sys' => allSeparate c ps sys' es

section Checks

variable {c : Config} {ps : List Nat} {sys : System}

theorem separate_of_among {m : Move} (others : ∀ q, q ∉ ps → sys.live q = none)
    (checked : separateAmong ps sys m = true) : Separate sys m := by
  cases m with
  | exec p name h =>
      intro e noffH opened header
      simp only [separateAmong, opened, header, Bool.and_eq_true, decide_eq_true_eq, bne_iff_ne,
        List.all_eq_true] at checked
      obtain ⟨⟨small, own⟩, among⟩ := checked
      refine ⟨small, own, fun q space live => ?_⟩
      have member : q ∈ ps := by
        by_contra stranger
        rw [others q stranger] at live
        cases live
      have apart := among q member
      simp only [live, Bool.and_eq_true, bne_iff_ne] at apart
      exact ⟨apart.1.1, apart.1.2, apart.2⟩
  | access p op =>
      intro space noffH bytes live first header image
      simpa [separateAmong, live, Int.not_le.mpr first, header, image] using checked
  | exit p => trivial
  | reap p => trivial

/-- **What the check passes meets the condition.** -/
theorem allSteps_of_allSeparate {es : List Move} (others : ∀ q, q ∉ ps → sys.live q = none)
    (checked : allSeparate c ps sys es = true) : AllSteps (System.step c) Separate sys es := by
  induction es generalizing sys with
  | nil => trivial
  | cons m es ih =>
      simp only [allSeparate, Bool.and_eq_true, List.contains_iff_mem] at checked
      obtain ⟨⟨member, here⟩, rest⟩ := checked
      refine ⟨separate_of_among others here, fun sys' moved => ?_⟩
      rw [moved] at rest
      refine ih (fun q stranger => ?_) rest
      have ne : q ≠ m.process := by
        rintro rfl
        exact stranger member
      rw [step_live moved ne, others q stranger]

end Checks

/-- A NOFF file with two pages of code. -/
def longerFile : List Byte :=
  [0xad, 0xdf, 0xba, 0, 0, 0, 0, 0, 40, 0, 0, 0, 0, 1, 0, 0, 0, 0, 0, 0, 0, 0, 0, 0, 0, 0, 0, 0,
    0, 0, 0, 0, 0, 0, 0, 0, 0, 0, 0, 0] ++ List.replicate 256 2

/-- A machine of four frames, and two programs whose backing files have different names. -/
def pairSystem : System :=
  { sampleSystem with core := { sampleCore 4 with fileSystem :=
      { names := fun name =>
          if name = "a.out" then some 0 else if name = "b.out" then some 1 else none
        data := fun n => if n = 1 then longerFile else sampleFile
        next := 2 } } }

/-- As in `sharedMoves`, and both read their numbers back, the second after the first has
exited. -/
def pairMoves : List Move :=
  [.exec 0 "a.out" 0, .exec 1 "b.out" 0] ++ stash 0 7 ++ stash 1 9 ++ evictStash 0 ++
    evictStash 1 ++ [.access 0 (.read 896 4), .access 0 (.read 896 4), .access 1 (.read 128 1),
      .access 1 (.read 128 1), .exit 0, .access 1 (.read 896 4), .access 1 (.read 896 4), .reap 0]

theorem pair_state :
    (exec (System.step fourFrames) pairSystem pairMoves).map
        (fun sys => (sys.seen 0, sys.seen 1, (sys.live 1).isSome)) =
      some ([.read 896 4 7, .wrote 896 4 7],
        [.read 896 4 9, .read 128 1 2, .wrote 896 4 9], true) := by
  decide +kernel

theorem processes_isolated_pair :
    ∃ sys, exec (System.step fourFrames) pairSystem pairMoves = some sys ∧
      sys.seen 0 = [.read 896 4 7, .wrote 896 4 7] ∧
      sys.seen 1 = [.read 896 4 9, .read 128 1 2, .wrote 896 4 9] ∧ (sys.live 1).isSome = true ∧
      AllStates (System.step fourFrames)
        (fun sys => ∀ p space, sys.live p = some space → AsIfAlone fourFrames sys p space)
        pairSystem pairMoves := by
  obtain ⟨sys, run, after⟩ := Option.map_eq_some_iff.mp pair_state
  simp only [Prod.mk.injEq] at after
  have booted : Booted fourFrames pairSystem :=
    ⟨⟨rfl, rfl⟩, sample_booted.free, fun _ => rfl, fun _ => rfl⟩
  have checked : allSeparate fourFrames [0, 1] pairSystem pairMoves = true := by decide +kernel
  exact ⟨sys, run, after.1, after.2.1, after.2.2,
    processes_isolated booted (allSteps_of_allSeparate (fun _ _ => rfl) checked)⟩

end Nachos.UserProg
