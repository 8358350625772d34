/-
# Nachos.UserProg.Coherence -- demand paging is coherent

One process with the machine to itself.  `access` is an access as a user program
sees it: on a page fault the handler calls `demandpage` on the page of the faulting
address and the access is tried again.  A run logs what it does, newest first: the
accesses that completed, and every page that was brought in, with the bytes it then
held.

`expected log b` is the byte a program is entitled to at virtual address `b`: the
byte last written there, and before any write the byte the first load of the page
put there.  `accesses_session`: as long as the pages can be brought in, every read of
every run returns the expected bytes.
-/
import Nachos.UserProg.Access

namespace Nachos.UserProg

open Nachos.Lib.Bytes
open Nachos.Machine
open Nachos.FileSys (FileSystem OpenFile)

set_option autoImplicit false

/-! ## A running process -/

/-- What holds of a process between two of its steps: its frames are its own, its
pages are in order, and its executable still has the header `noffH` and is not the
backing file. -/
structure Running (c : Config) (others : Nat → Prop) (noffH : NoffHeader) (s : Vm) : Prop where
  owns : Owns c others s
  pages : PagesOk s
  header : readHeader s.fileSystem s.storedExecutable = .ok noffH
  apart : s.storedExecutable.file ≠ s.backing.file.file

section Running

variable {c : Config} {others : Nat → Prop} {noffH : NoffHeader} {s s' : Vm} {i : Nat}

theorem readHeader_congr {fs fs' : FileSystem} {f : OpenFile}
    (same : fs'.data f.file = fs.data f.file) : readHeader fs' f = readHeader fs f := by
  unfold readHeader FileSystem.readAt
  rw [same]

theorem pageImage_congr {fs fs' : FileSystem} {f : OpenFile}
    (same : fs'.data f.file = fs.data f.file) (pa : Word) :
    pageImage fs' f noffH pa = pageImage fs f noffH pa := by
  unfold pageImage FileSystem.readAt
  rw [same]

theorem Confined.executable (confined : Confined others s s')
    (apart : s.storedExecutable.file ≠ s.backing.file.file) :
    s'.fileSystem.data s.storedExecutable.file = s.fileSystem.data s.storedExecutable.file :=
  confined.data _ apart

theorem Running.step (running : Running c others noffH s) (confined : Confined others s s')
    (owns : Owns c others s') (pages : PagesOk s') : Running c others noffH s' := by
  refine ⟨owns, pages, ?_, ?_⟩
  · rw [confined.storedExecutable, readHeader_congr (confined.executable running.apart)]
    exact running.header
  · rw [confined.storedExecutable, confined.backing]
    exact running.apart

theorem demandpage_hand {b : Bool} (owns : Owns c others s) (hand : HandInside s.toAddrSpace)
    (hi : i < s.numPages) (invalid : (s.pageTable i).valid = false)
    (ret : demandpage c s i = .ok (b, s')) : HandInside s'.toAddrSpace := by
  obtain ⟨-, g, victim, s₁, bytes, dirty, sec, -, fills, -⟩ :=
    demandpage_cases owns hi invalid ret
  unfold HandInside
  rw [fills.clockHand, fills.numPages, sec.numPages]
  cases victim with
  | none =>
      rw [(sec.noVictim rfl).2]
      exact hand
  | some v =>
      have inside := (sec.isResident v rfl).1
      rw [sec.hand v rfl]
      exact ⟨Int.natCast_nonneg v, Int.ofNat_lt.mpr inside⟩

/-- A page fault keeps the process running. -/
theorem Running.demandpage {b : Bool} (running : Running c others noffH s) (hi : i < s.numPages)
    (small : i < pageLimit) (invalid : (s.pageTable i).valid = false)
    (ret : demandpage c s i = .ok (b, s')) : Running c others noffH s' := by
  obtain ⟨pages, -, -, -⟩ := demandpage_content running.owns running.pages hi small invalid ret
  exact running.step (demandpage_confined running.owns hi invalid ret)
    (demandpage_owns running.owns hi invalid ret) pages

/-- With the machine to itself a process always has a frame to take. -/
theorem frame_of_alone (owns : Owns c (fun _ => False) s) :
    FrameFree c s.toCore ∨ HasResident s.toAddrSpace := by
  by_cases free : FrameFree c s.toCore
  · exact Or.inl free
  · have taken : s.memmanage.allocated 0 = true := by
      by_contra unset
      exact free ⟨0, c.some_frame, by simpa using unset⟩
    obtain bad | ⟨i, maps⟩ := (owns.allocated 0 c.some_frame).mp taken
    · exact absurd bad id
    · exact Or.inr ⟨i, maps.1, owns.resident_of_valid maps.1 maps.2.1⟩

/-- A loaded page has a byte at each of its addresses. -/
theorem vbyte_loaded {b : Nat} (pages : PagesOk s) (hb : b / pageSize < s.numPages)
    (loaded : content s (b / pageSize) ≠ none) : ∃ x, vbyte s b = some x := by
  have offset : b % pageSize < pageSize := Nat.mod_lt _ (by decide)
  have full : ∃ bytes, content s (b / pageSize) = some bytes ∧ bytes.length = pageSize := by
    cases valid : (s.pageTable (b / pageSize)).valid with
    | true => exact ⟨_, content_valid valid, length_block _ _ _⟩
    | false =>
        by_cases phys : 0 ≤ (s.pageTable (b / pageSize)).physicalPage
        · refine ⟨_, content_swapped valid phys, length_readAt _ ?_⟩
          have covered := (pages _ hb).swapped valid phys
          rwa [Nat.succ_mul] at covered
        · exact absurd (content_unloaded valid (not_le.mp phys)) loaded
  obtain ⟨bytes, here, length⟩ := full
  refine ⟨bytes[b % pageSize], ?_⟩
  unfold vbyte
  rw [here, Option.bind_some, List.getElem?_eq_getElem]

end Running

/-! ## Accesses and their log -/

inductive Op where
  | read (addr : Word) (size : Nat)
  | write (addr : Word) (size : Nat) (value : Word)
  deriving DecidableEq

def Op.addr : Op → Word
  | .read addr _ => addr
  | .write addr _ _ => addr

def Op.size : Op → Nat
  | .read _ size => size
  | .write _ size _ => size

/-- The page of the address. -/
def Op.page (op : Op) : Nat := op.addr.toNat / pageSize

/-- Aligned and in range, at an address that is not negative as an `int`. -/
structure Op.InRange (op : Op) (numPages : Nat) : Prop where
  aligned : Aligned op.addr op.size
  low : 0 ≤ op.addr.toInt
  high : op.addr.toInt + op.size ≤ numPages * pageSize

inductive Event where
  /-- `demandpage` brought a page in, which then held these bytes. -/
  | paged (page : Nat) (bytes : List Byte)
  | read (addr : Word) (size : Nat) (value : Word)
  | wrote (addr : Word) (size : Nat) (value : Word)
  deriving DecidableEq

/-- The access an event completes. -/
def Event.op : Event → Option Op
  | .paged _ _ => none
  | .read addr size _ => some (.read addr size)
  | .wrote addr size value => some (.write addr size value)

/-- One try at an access: the event it logs, or the exception it raises. -/
def attempt (c : Config) (s : Vm) : Op → Except Stop (Result Vm Event)
  | .read addr size => do
      match ← s.readMem c addr size with
      | .exception which => return .exception which
      | .value v s => return .value (.read addr size v) s
  | .write addr size value => do
      match ← s.writeMem c addr size value with
      | .exception which => return .exception which
      | .value () s => return .value (.wrote addr size value) s

/-- An access with its page faults, tried `n` times at most.  The handler divides
the faulting address, an `int`, by `PageSize`; any other exception ends the process. -/
def access (c : Config) : Nat → Vm × List Event → Op → Except Stop (Vm × List Event)
  | 0, _, _ => .error .loops
  | n + 1, (s, log), op => do
      match ← attempt c s op with
      | .value event s => return (s, event :: log)
      | .exception .pageFaultException =>
          let page := op.addr.toInt.tdiv pageSize
          let (_, s) ← demandpage c s page
          let frame := frameAddr (s.pageTable page.toNat).physicalPage
          access c n (s, .paged page.toNat (block s.mainMemory frame pageSize) :: log) op
      | .exception _ => .error .finished

/-- A sequence of accesses.  Two tries are enough for each. -/
def accesses (c : Config) : Vm × List Event → List Op → Except Stop (Vm × List Event)
  | state, [] => return state
  | state, op :: ops => do accesses c (← access c 2 state op) ops

/-! ## What a program is entitled to read -/

/-- The byte last written at `b`; the log is newest first. -/
def lastWritten : List Event → Nat → Option Byte
  | [], _ => none
  | .wrote addr size value :: older, b =>
      if addr.toNat ≤ b ∧ b < addr.toNat + size then some (byteOf value (b - addr.toNat))
      else lastWritten older b
  | .paged _ _ :: older, b => lastWritten older b
  | .read _ _ _ :: older, b => lastWritten older b

/-- The byte the first load of its page put at `b`. -/
def firstLoaded : List Event → Nat → Option Byte
  | [], _ => none
  | .paged page bytes :: older, b =>
      (firstLoaded older b).or (if b / pageSize = page then bytes[b % pageSize]? else none)
  | .wrote _ _ _ :: older, b => firstLoaded older b
  | .read _ _ _ :: older, b => firstLoaded older b

def expected (log : List Event) (b : Nat) : Option Byte :=
  (lastWritten log b).or (firstLoaded log b)

/-- Every read of the log returned the expected bytes. -/
def Coherent : List Event → Prop
  | [] => True
  | .read addr size value :: older =>
      (∀ k < size, expected older (addr.toNat + k) = some (byteOf value k)) ∧ Coherent older
  | .paged _ _ :: older => Coherent older
  | .wrote _ _ _ :: older => Coherent older

/-- The log accounts for every byte of the virtual memory. -/
def Tracks (s : Vm) (log : List Event) : Prop :=
  ∀ b, b / pageSize < s.numPages → expected log b = vbyte s b

section Logs

variable {c : Config} {others : Nat → Prop} {noffH : NoffHeader} {s s' : Vm} {log : List Event}

theorem Op.InRange.page_lt {op : Op} {n : Nat} (inRange : op.InRange n) :
    op.page < n ∧ op.page < pageLimit ∧ op.addr.toInt.tdiv pageSize = op.page := by
  obtain ⟨⟨size, -⟩, low, high⟩ := inRange
  have nonneg : op.addr.toInt = op.addr.toNat := by
    rw [BitVec.toInt_eq_toNat_cond] at low ⊢
    split at low <;> omega
  have bound : op.addr.toNat < 2 ^ 31 := by
    have := BitVec.toInt_lt (x := op.addr)
    omega
  have room : op.addr.toNat + op.size ≤ n * pageSize := by
    rw [nonneg] at high
    exact_mod_cast high
  refine ⟨?_, ?_, ?_⟩
  · rw [Op.page, Nat.div_lt_iff_lt_mul (by decide)]
    omega
  · simp only [Op.page, pageLimit, pageSize]
    omega
  · rw [nonneg, Op.page]
    rfl

theorem expected_wrote (addr : Word) (size : Nat) (value : Word) (b : Nat) :
    expected (.wrote addr size value :: log) b =
      if addr.toNat ≤ b ∧ b < addr.toNat + size then some (byteOf value (b - addr.toNat))
      else expected log b := by
  simp only [expected, lastWritten, firstLoaded]
  split <;> rfl

theorem expected_paged_some {page : Nat} {bytes : List Byte} {b : Nat} {x : Byte}
    (known : expected log b = some x) : expected (.paged page bytes :: log) b = some x := by
  unfold expected at known ⊢
  unfold lastWritten firstLoaded
  cases written : lastWritten log b with
  | some y =>
      rw [written] at known
      exact known
  | none =>
      rw [written, Option.none_or] at known
      rw [known]
      rfl

theorem expected_paged_none {page : Nat} {bytes : List Byte} {b : Nat}
    (unknown : expected log b = none) :
    expected (.paged page bytes :: log) b =
      if b / pageSize = page then bytes[b % pageSize]? else none := by
  obtain ⟨unwritten, unloaded⟩ := Option.or_eq_none_iff.mp unknown
  unfold expected lastWritten firstLoaded
  rw [unwritten, unloaded, Option.none_or, Option.none_or]

theorem vbyte_of_content {b : Nat} (same : content s' (b / pageSize) = content s (b / pageSize)) :
    vbyte s' b = vbyte s b := by
  unfold vbyte
  rw [same]

theorem vbyte_touched {i : Nat} {w : Bool} (b : Nat) : vbyte (touched s i w) b = vbyte s b :=
  vbyte_of_content (touched_content _)

/-- A page fault is accounted for by its `paged` event. -/
theorem Tracks.demandpage {r : Bool} {i : Nat} (running : Running c others noffH s)
    (tracks : Tracks s log) (hi : i < s.numPages) (small : i < pageLimit)
    (invalid : (s.pageTable i).valid = false) (ret : demandpage c s i = .ok (r, s')) :
    Tracks s' (.paged i
      (block s'.mainMemory (frameAddr (s'.pageTable i).physicalPage) pageSize) :: log) := by
  obtain ⟨-, others', self, valid⟩ :=
    demandpage_content running.owns running.pages hi small invalid ret
  have pages : s'.numPages = s.numPages :=
    (demandpage_confined running.owns hi invalid ret).numPages
  intro b hb
  rw [pages] at hb
  have before := tracks b hb
  by_cases loaded : content s (b / pageSize) = none
  · -- a byte nobody has seen yet: it stays unknown, unless this is its first load
    have unknown : expected log b = none := by
      rw [before, vbyte, loaded, Option.bind_none]
    rw [expected_paged_none unknown]
    split
    · rename_i here
      rw [vbyte, here, content_valid valid, Option.bind_some]
    · rename_i elsewhere
      rw [vbyte, others' _ hb elsewhere, loaded, Option.bind_none]
  · obtain ⟨x, known⟩ := vbyte_loaded running.pages hb loaded
    have same : content s' (b / pageSize) = content s (b / pageSize) := by
      by_cases here : b / pageSize = i
      · rw [here] at loaded ⊢
        apply self
        by_contra unloaded
        exact loaded (content_unloaded invalid (not_le.mp unloaded))
      · exact others' _ hb here
    rw [vbyte_of_content same, known]
    exact expected_paged_some (before.trans known)

/-- The flat memory after an event. -/
def Event.apply (m : Nat → Option Byte) : Event → Nat → Option Byte
  | .wrote addr size value, b =>
      if addr.toNat ≤ b ∧ b < addr.toNat + size then some (byteOf value (b - addr.toNat)) else m b
  | .paged _ _, b => m b
  | .read _ _ _, b => m b

/-- A read event returned what the flat memory holds. -/
def Event.Reads (m : Nat → Option Byte) : Event → Prop
  | .read addr size value => ∃ bytes, value = load size bytes ∧
      ∀ k < size, m (addr.toNat + k) = some (bytes k)
  | .paged _ _ => True
  | .wrote _ _ _ => True

/-- What an access that completed did. -/
structure Serves (c : Config) (others : Nat → Prop) (noffH : NoffHeader) (s : Vm) (op : Op)
    (event : Event) (s' : Vm) : Prop where
  running : Running c others noffH s'
  confined : Confined others s s'
  answers : event.op = some op
  reads : event.Reads (vbyte s)
  vbyte : ∀ b, b / pageSize < s.numPages → vbyte s' b = event.apply (UserProg.vbyte s) b
  entries : ∀ i, (s'.pageTable i).valid = (s.pageTable i).valid ∧
    (s'.pageTable i).physicalPage = (s.pageTable i).physicalPage
  clockHand : s'.clockHand = s.clockHand

theorem Serves.hand {op : Op} {event : Event} (serves : Serves c others noffH s op event s')
    (hand : HandInside s.toAddrSpace) : HandInside s'.toAddrSpace := by
  unfold HandInside
  rw [serves.clockHand, serves.confined.numPages]
  exact hand

theorem attempt_fault {op : Op} (inRange : op.InRange s.numPages)
    (invalid : (s.pageTable op.page).valid = false) :
    attempt c s op = .ok (.exception .pageFaultException) := by
  cases op with
  | read addr size =>
      have inside : addr.toNat / pageSize < s.numPages := inRange.page_lt.1
      have aligned : Aligned addr size := inRange.aligned
      rw [attempt, readMem_fault aligned inside invalid]
      rfl
  | write addr size value =>
      have inside : addr.toNat / pageSize < s.numPages := inRange.page_lt.1
      have aligned : Aligned addr size := inRange.aligned
      rw [attempt, writeMem_fault aligned inside invalid]
      rfl

/-- Everything a try at an access can come to: it goes through a valid entry, and
changes no more of the process than that entry and the memory; or it raises. -/
theorem attempt_cases {op : Op} {r : Result Vm Event} (ret : attempt c s op = .ok r) :
    (∃ event w m, r = .value event { touched s op.page w with mainMemory := m } ∧
      op.page < s.numPages ∧ (s.pageTable op.page).valid = true ∧ Aligned op.addr op.size) ∨
    ∃ which, r = .exception which ∧ (which = .pageFaultException →
      op.page < s.numPages ∧ (s.pageTable op.page).valid = false) := by
  cases op with
  | read addr size =>
      obtain ⟨r₁, read, rest⟩ := bind_eq_ok.mp ret
      obtain ⟨r₂, translated, rest₂⟩ := bind_eq_ok.mp read
      rcases translate_cases translated with
        ⟨pa, rfl, inside, valid, four, two⟩ | ⟨which, rfl, fault⟩
      · obtain ⟨u, isSize, last⟩ := bind_eq_ok.mp rest₂
        cases last
        cases rest
        exact Or.inl ⟨_, false, s.mainMemory, rfl, inside, valid,
          aligned_of_isAccessSize (ASSERT_eq_ok.mp isSize) four two⟩
      · cases rest₂
        cases rest
        exact Or.inr ⟨which, rfl, fault⟩
  | write addr size value =>
      obtain ⟨r₁, wrote, rest⟩ := bind_eq_ok.mp ret
      obtain ⟨r₂, translated, rest₂⟩ := bind_eq_ok.mp wrote
      rcases translate_cases translated with
        ⟨pa, rfl, inside, valid, four, two⟩ | ⟨which, rfl, fault⟩
      · obtain ⟨u, isSize, last⟩ := bind_eq_ok.mp rest₂
        cases last
        cases rest
        exact Or.inl ⟨_, true, _, rfl, inside, valid,
          aligned_of_isAccessSize (ASSERT_eq_ok.mp isSize) four two⟩
      · cases rest₂
        cases rest
        exact Or.inr ⟨which, rfl, fault⟩

/-- **An access to a valid page completes**, on the flat memory. -/
theorem attempt_valid {op : Op} (running : Running c others noffH s)
    (inRange : op.InRange s.numPages) (valid : (s.pageTable op.page).valid = true) :
    ∃ event s', attempt c s op = .ok (.value event s') ∧ Serves c others noffH s op event s' := by
  cases op with
  | read addr size =>
      have inside : addr.toNat / pageSize < s.numPages := inRange.page_lt.1
      have aligned : Aligned addr size := inRange.aligned
      obtain ⟨b, read, same⟩ := readMem_vbyte running.owns running.pages aligned inside valid
      refine ⟨.read addr size (load size b), touched s (addr.toNat / pageSize) false, ?_, ?_,
        touched_confined _ _, rfl, ⟨b, rfl, same⟩, ?_, touched_entries, rfl⟩
      · rw [attempt, read]
        rfl
      · exact running.step (touched_confined _ _) (touched_owns running.owns)
          (touched_pagesOk running.pages)
      · intro b _
        exact vbyte_touched b
  | write addr size value =>
      have inside : addr.toNat / pageSize < s.numPages := inRange.page_lt.1
      have aligned : Aligned addr size := inRange.aligned
      obtain ⟨s', wrote, stores⟩ :=
        writeMem_vbyte running.owns running.pages aligned inside valid value
      refine ⟨.wrote addr size value, s', ?_, ?_, stores.confined, rfl, trivial, stores.vbyte,
        stores.entries, stores.clockHand⟩
      · rw [attempt, wrote]
        rfl
      · exact running.step stores.confined stores.owns stores.pages

end Logs

/-! ## Coherence -/

/-- A process with the machine to itself, and a log that accounts for its memory. -/
structure Session (c : Config) (noffH : NoffHeader) (s : Vm) (log : List Event) : Prop where
  running : Running c (fun _ => False) noffH s
  hand : HandInside s.toAddrSpace
  tracks : Tracks s log
  coherent : Coherent log

section Sessions

variable {c : Config} {noffH : NoffHeader} {s s' : Vm} {log : List Event} {op : Op} {n : Nat}

theorem coherent_cons {m : Nat → Option Byte} {event : Event} (reads : event.Reads m)
    (known : ∀ addr size value, event = .read addr size value → (size = 1 ∨ size = 2 ∨ size = 4) ∧
      ∀ k < size, expected log (addr.toNat + k) = m (addr.toNat + k))
    (coherent : Coherent log) : Coherent (event :: log) := by
  cases event with
  | paged page bytes => exact coherent
  | wrote addr size value => exact coherent
  | read addr size value =>
      refine ⟨?_, coherent⟩
      intro k hk
      obtain ⟨sizes, same⟩ := known addr size value rfl
      obtain ⟨bytes, rfl, read⟩ := reads
      rw [same k hk, byteOf_load sizes bytes hk]
      exact read k hk

/-- An access that completes at the first try. -/
theorem access_valid (session : Session c noffH s log) (inRange : op.InRange s.numPages)
    (valid : (s.pageTable op.page).valid = true) :
    ∃ event s', access c (n + 1) (s, log) op = .ok (s', event :: log) ∧
      event.op = some op ∧ s'.numPages = s.numPages ∧ Session c noffH s' (event :: log) := by
  obtain ⟨event, s', tried, serves⟩ := attempt_valid session.running inRange valid
  refine ⟨event, s', ?_, serves.answers, serves.confined.numPages, serves.running, ?_, ?_, ?_⟩
  · rw [access, tried]
    rfl
  · exact serves.hand session.hand
  · intro b hb
    rw [serves.confined.numPages] at hb
    rw [serves.vbyte b hb]
    have before := session.tracks b hb
    cases event with
    | paged page bytes => cases serves.answers
    | read addr size value => exact before
    | wrote addr size value =>
        rw [expected_wrote, before]
        rfl
  · refine coherent_cons serves.reads ?_ session.coherent
    rintro addr size value rfl
    cases serves.answers
    refine ⟨inRange.aligned.1, ?_⟩
    intro k hk
    apply session.tracks
    obtain ⟨page, -⟩ := inRange.aligned.page hk
    rw [show (addr.toNat + k) / pageSize = _ from page]
    exact inRange.page_lt.1

/-- **An access of a session** completes with the expected bytes, after one page
fault at most; or its page has no place in the executable. -/
theorem access_session (session : Session c noffH s log) (inRange : op.InRange s.numPages) :
    (∃ s' log', access c 2 (s, log) op = .ok (s', log') ∧
      log'.filterMap Event.op = op :: log.filterMap Event.op ∧
      s'.numPages = s.numPages ∧ Session c noffH s' log') ∨
    (¬ Loadable noffH (pageAddr op.page) ∧ access c 2 (s, log) op = .error .assertion) := by
  obtain ⟨inside, small, page⟩ := inRange.page_lt
  have running := session.running
  cases valid : (s.pageTable op.page).valid with
  | true =>
      obtain ⟨event, s', done, answers, pages, session'⟩ :=
        access_valid (n := 1) session inRange valid
      refine Or.inl ⟨s', event :: log, done, ?_, pages, session'⟩
      rw [List.filterMap_cons_some answers]
  | false =>
      have frame : FrameFree c s.toCore ∨ HandInside s.toAddrSpace ∧ HasResident s.toAddrSpace :=
        (frame_of_alone running.owns).imp_right fun some_ => ⟨session.hand, some_⟩
      have fault := attempt_fault (c := c) inRange valid
      by_cases served : Servable s op.page
      · obtain ⟨s₁, ret⟩ :=
          (demandpage_returns running.owns running.pages.numbered inside valid).mpr ⟨frame, served⟩
        obtain ⟨-, -, -, now⟩ :=
          demandpage_content running.owns running.pages inside small valid ret
        have pages := (demandpage_confined running.owns inside valid ret).numPages
        have session₁ : Session c noffH s₁ (.paged op.page
            (block s₁.mainMemory (frameAddr (s₁.pageTable op.page).physicalPage) pageSize) ::
              log) :=
          ⟨running.demandpage inside small valid ret,
            demandpage_hand running.owns session.hand inside valid ret,
            session.tracks.demandpage running inside small valid ret, session.coherent⟩
        obtain ⟨event, s', done, answers, pages', session'⟩ :=
          access_valid (n := 0) session₁ (pages ▸ inRange) now
        refine Or.inl ⟨s', _, ?_, ?_, pages'.trans pages, session'⟩
        · rw [access, fault, ok_bind]
          simp only [page, ret, ok_bind, Int.toNat_natCast]
          exact done
        · rw [List.filterMap_cons_some answers, List.filterMap_cons_none rfl]
      · have first : (s.pageTable op.page).physicalPage < 0 := by
          by_contra before
          exact served (Or.inl (not_lt.mp before))
        have bad : ¬ Loadable noffH (pageAddr op.page) := by
          intro loadable
          exact served (Or.inr ⟨noffH, running.header, loadable⟩)
        refine Or.inr ⟨bad, ?_⟩
        rw [access, fault, ok_bind]
        simp only [page]
        rw [demandpage_assertion running.owns running.pages.numbered inside valid frame
          first running.header
          bad, error_bind]

theorem accesses_session (ops : List Op) (session : Session c noffH s log)
    (inRange : ∀ op ∈ ops, op.InRange s.numPages) :
    (∃ s' log', accesses c (s, log) ops = .ok (s', log') ∧
      log'.filterMap Event.op = ops.reverse ++ log.filterMap Event.op ∧
      Session c noffH s' log') ∨
    (accesses c (s, log) ops = .error .assertion ∧
      ∃ op ∈ ops, ¬ Loadable noffH (pageAddr op.page)) := by
  induction ops generalizing s log with
  | nil => exact Or.inl ⟨s, log, rfl, rfl, session⟩
  | cons op ops ih =>
      have here := inRange op List.mem_cons_self
      rcases access_session session
        here with ⟨s₁, log₁, done, logged, pages, session₁⟩ | ⟨bad, failed⟩
      · rw [accesses, done, ok_bind]
        have later : ∀ op ∈ ops, op.InRange s₁.numPages := by
          intro other member
          rw [pages]
          exact inRange other (List.mem_cons_of_mem _ member)
        rcases ih session₁
          later with ⟨s', log', ran, logged', session'⟩ | ⟨failed, other, member, bad⟩
        · refine Or.inl ⟨s', log', ran, ?_, session'⟩
          rw [logged', logged, List.reverse_cons, List.append_assoc]
          rfl
        · exact Or.inr ⟨failed, other, List.mem_cons_of_mem _ member, bad⟩
      · refine Or.inr ⟨?_, op, List.mem_cons_self, bad⟩
        rw [accesses, failed, error_bind]

end Sessions

/-! ## A fresh address space -/

/-- What `Initialize` does when it returns. -/
structure Starts (core : Core) (executable : OpenFile) (clockHand : Int) (noffH : NoffHeader)
    (space : AddrSpace) (core' : Core) : Prop where
  header : readHeader core.fileSystem executable = .ok noffH
  pageTable : space.pageTable = freshEntry
  numPages : space.numPages = imagePages noffH
  clockHand : space.clockHand = clockHand
  storedExecutable : space.storedExecutable = executable
  fname : space.backing.fname = backingName (BitVec.ofNat 32 (imagePages noffH * pageSize))
  file : space.backing.file.file =
    (core.fileSystem.names space.backing.fname).getD core.fileSystem.next
  created : core'.fileSystem = core.fileSystem.create space.backing.fname
  mainMemory : core'.mainMemory = core.mainMemory
  memmanage : core'.memmanage = core.memmanage
  empty : core'.fileSystem.data space.backing.file.file = []
  elsewhere : ∀ n, n ≠ space.backing.file.file →
    core'.fileSystem.data n = core.fileSystem.data n

section Fresh

variable {c : Config} {others : Nat → Prop} {core core' : Core} {e : OpenFile} {h : Int}
  {noffH : NoffHeader} {space : AddrSpace}

theorem initializeSpace_starts (init : initializeSpace core e h = .ok (space, core')) :
    ∃ noffH, Starts core e h noffH space core' := by
  obtain ⟨noffH, header, rest⟩ := bind_eq_ok.mp init
  obtain ⟨⟨backing, fs⟩, created, last⟩ := bind_eq_ok.mp rest
  cases last
  obtain ⟨file, opened, empty, number, elsewhere⟩ := core.fileSystem.open_create
    (backingName (BitVec.ofNat 32 (imagePages noffH * pageSize)))
  simp only [BackingStore.create, opened] at created
  cases created
  exact ⟨noffH, header, rfl, rfl, rfl, rfl, rfl, number, rfl, rfl, rfl, empty, elsewhere⟩

theorem Starts.running (starts : Starts core e h noffH space core')
    (manages : core.memmanage.Manages c.numPhysPages)
    (allocated : ∀ f < c.numPhysPages, core.memmanage.allocated f = true ↔ others f)
    (apart : e.file ≠ space.backing.file.file) : Running c others noffH ⟨core', space⟩ := by
  have invalid : ∀ i, (space.pageTable i).valid = false := by
    intro i
    rw [starts.pageTable]
    rfl
  have unmapped : ∀ i f, ¬ Maps space i f := by
    rintro i f ⟨-, valid, -⟩
    rw [invalid i] at valid
    cases valid
  refine ⟨⟨?_, ?_, ?_, ?_, ?_⟩, ?_, ?_, ?_⟩
  · show core'.memmanage.Manages _
    rw [starts.memmanage]
    exact manages
  · intro i _ valid
    rw [show ((⟨core', space⟩ : Vm).pageTable i).valid = false from invalid i] at valid
    cases valid
  · intro i j f maps
    exact absurd maps (unmapped i f)
  · intro i f maps
    exact absurd maps (unmapped i f)
  · intro f lt
    show core'.memmanage.allocated f = true ↔ _
    rw [starts.memmanage, allocated f lt]
    exact (or_iff_left fun ⟨i, maps⟩ => unmapped i f maps).symm
  · intro i _
    have entry : (⟨core', space⟩ : Vm).pageTable i = freshEntry i := congrFun starts.pageTable i
    refine ⟨⟨?_, ?_, ?_⟩, ?_, ?_⟩ <;> rw [entry]
    · rfl
    · rfl
    · intro loaded
      exact absurd loaded (show ¬ (0 : Int) ≤ -1 by decide)
    · intro _ loaded
      exact absurd loaded (show ¬ (0 : Int) ≤ -1 by decide)
    · intro valid
      cases valid
  · show readHeader core'.fileSystem space.storedExecutable = _
    rw [starts.storedExecutable, readHeader_congr (starts.elsewhere _ apart)]
    exact starts.header
  · show space.storedExecutable.file ≠ _
    rw [starts.storedExecutable]
    exact apart

/-- With every frame free, the process has the machine to itself. -/
theorem Starts.runningAlone (starts : Starts core e h noffH space core')
    (manages : core.memmanage.Manages c.numPhysPages)
    (alone : ∀ f < c.numPhysPages, core.memmanage.allocated f = false)
    (apart : e.file ≠ space.backing.file.file) : Running c (fun _ => False) noffH
      ⟨core', space⟩ := by
  refine starts.running manages (fun f lt => ?_) apart
  rw [alone f lt]
  exact iff_of_false Bool.false_ne_true id

theorem Starts.content_none (starts : Starts core e h noffH space core') (i : Nat) :
    content ⟨core', space⟩ i = none := by
  have entry : (⟨core', space⟩ : Vm).pageTable i = freshEntry i := congrFun starts.pageTable i
  apply content_unloaded <;> rw [entry]
  · rfl
  · show (-1 : Int) < 0
    decide

end Fresh

section Coherence

variable {c : Config} {core core' : Core} {e : OpenFile} {h : Int} {space : AddrSpace}
  {noffH : NoffHeader}

/-- A fresh address space with the machine to itself. -/
theorem Starts.session (starts : Starts core e h noffH space core')
    (manages : core.memmanage.Manages c.numPhysPages)
    (alone : ∀ f < c.numPhysPages, core.memmanage.allocated f = false)
    (hand : HandInside space) (apart : e.file ≠ space.backing.file.file) :
    Session c noffH ⟨core', space⟩ [] := by
  refine ⟨starts.runningAlone manages alone apart, hand, ?_, trivial⟩
  intro b _
  rw [vbyte, starts.content_none, Option.bind_none]
  rfl

end Coherence

/-- A NOFF file with one page of code. -/
def sampleFile : List Byte :=
  [0xad, 0xdf, 0xba, 0, 0, 0, 0, 0, 40, 0, 0, 0, 128, 0, 0, 0, 0, 0, 0, 0, 0, 0, 0, 0, 0, 0, 0, 0,
    0, 0, 0, 0, 0, 0, 0, 0, 0, 0, 0, 0] ++ List.replicate 128 1

/-- A directory with the executable as inode 0. -/
def sampleFiles : FileSystem :=
  ⟨fun name => if name = "a.out" then some 0 else none, fun _ => sampleFile, 1⟩

/-- A machine of `n` free frames. -/
def sampleCore (n : Nat) : Core where
  mainMemory := fun _ => 0
  memmanage := ⟨n, ⟨n, fun _ => 0⟩⟩
  fileSystem := sampleFiles
  stats := ⟨0, 0, 0⟩

/-- The address space of the sample program: nine pages. -/
def sampleSpace : AddrSpace := ⟨freshEntry, 9, 0, ⟨⟨1⟩, "bs1152"⟩, ⟨0⟩⟩

def sampleStarted (n : Nat) : Core :=
  { sampleCore n with fileSystem := sampleFiles.create "bs1152" }

def sampleHeader : NoffHeader := ⟨noffMagic, ⟨0, 40, 128⟩, ⟨0, 0, 0⟩, ⟨0, 0, 0⟩⟩

set_option maxRecDepth 4000 in
theorem sample_header : readHeader sampleFiles ⟨0⟩ = .ok sampleHeader := by
  rfl

theorem sample_init (n : Nat) :
    initializeSpace (sampleCore n) ⟨0⟩ 0 = .ok (sampleSpace, sampleStarted n) := by
  have pages : imagePages sampleHeader = 9 := by decide
  have name : backingName (BitVec.ofNat 32 (9 * pageSize)) = "bs1152" := by decide
  rw [initializeSpace, show (sampleCore n).fileSystem = sampleFiles from rfl,
    sample_header, ok_bind]
  simp only [pages, BackingStore.create, name]
  rfl

end Nachos.UserProg
