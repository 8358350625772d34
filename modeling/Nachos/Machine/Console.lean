/-
# Nachos.Machine.Console -- the keyboard, and a thread that echoes it

`machine/console.cc` under `ConsoleTest` of `userprog/progtest.cc`.  A poll puts the next byte
of the keyboard into `incoming` and raises `readAvail`; the thread waits there, takes the
byte with `GetChar`, writes it and waits for the write.  Polls, the interrupt at the end of a
write and the steps of the thread come in any order.  `char` is signed.

`incoming` says with `EOF` that there is nothing in it, and as a `char` this is the byte
0xff.  A byte 0xff that has arrived is not in the way of the next poll, and what is read then
takes its place: the thread finds the later byte first, and `EOF` for it afterwards
(`overtakes`).  That goes unnoticed when the later byte is 0xff as well, and it is the only
thing that can go wrong: `delivered_iff`.
-/
import Nachos.Lib.Bytes
import Nachos.Lib.Run

namespace Nachos.Machine.Console

open Nachos.Lib.Bytes (Byte)
open Nachos.Lib.Run

set_option autoImplicit false

/-- The `EOF` of `stdio.h`. -/
def EOF : Int := -1

/-- `EOF` in a `char`. -/
def eof : Byte := BitVec.ofInt 8 EOF

/-- A semaphore of `ConsoleTest`; nobody else waits at it. -/
structure Semaphore where
  value : Int
  /-- The thread is in the queue. -/
  queue : Bool
  deriving DecidableEq, Repr

namespace Semaphore

/-- `Semaphore::V`. -/
def v (s : Semaphore) : Semaphore := ⟨s.value + 1, false⟩

/-- A turn of the loop of `Semaphore::P`, and the rest of it; whether `P` returns. -/
def p (s : Semaphore) : Semaphore × Bool :=
  if s.value = 0 then (⟨s.value, true⟩, false) else (⟨s.value - 1, s.queue⟩, true)

theorem p_cases (s : Semaphore) :
    (s.p = (⟨s.value, true⟩, false) ∧ s.value = 0) ∨
      (s.p = (⟨s.value - 1, s.queue⟩, true) ∧ s.value ≠ 0) := by
  by_cases none_ : s.value = 0
  · exact .inl ⟨if_pos none_, none_⟩
  · exact .inr ⟨if_neg none_, none_⟩

end Semaphore

/-- Where the thread is in the loop of `ConsoleTest`. -/
inductive Place where
  /-- In `readAvail->P()`. -/
  | wait
  | getChar
  | putChar (ch : Byte)
  /-- In `writeDone->P()`. -/
  | writing (ch : Byte)
  /-- Before the test for the last byte. -/
  | test (ch : Byte)
  | returned
  deriving DecidableEq, Repr

structure State where
  /-- The bytes of `readFileNo` that have not been read. -/
  input : List Byte
  /-- The bytes written to `writeFileNo`. -/
  output : List Byte
  incoming : Byte
  putBusy : Bool
  readAvail : Semaphore
  writeDone : Semaphore
  place : Place
  /-- What `GetChar` has returned so far; no part of the code. -/
  got : List Byte
  deriving DecidableEq, Repr

/-- At the top of the loop, with nothing under way. -/
def idle (input output got : List Byte) : State :=
  ⟨input, output, eof, false, ⟨0, false⟩, ⟨0, false⟩, .wait, got⟩

/-- `Console::Console` and the two semaphores. -/
def start (input : List Byte) : State := idle input [] []

inductive Label where
  /-- A read poll; what `PollFile` says, if it is asked. -/
  | poll (ready : Bool)
  /-- The interrupt at the end of a write. -/
  | written
  /-- A step of the thread. -/
  | thread
  deriving DecidableEq, Repr

namespace State

/-- `Console::CheckCharAvail`; `none` where the `ASSERT` in `Read` fails. -/
def checkCharAvail (s : State) (ready : Bool) : Option State :=
  if s.incoming.toInt ≠ EOF ∨ ready = false then some s
  else match s.input with
    | [] => none
    | c :: rest => some { s with input := rest, incoming := c, readAvail := s.readAvail.v }

/-- `Console::WriteDone`, once for each `PutChar`. -/
def writeDoneInterrupt (s : State) : Option State :=
  if s.putBusy then some { s with putBusy := false, writeDone := s.writeDone.v } else none

/-- `Console::GetChar`. -/
def getChar (s : State) : Byte × State := (s.incoming, { s with incoming := eof })

/-- `Console::PutChar`; `none` where the `ASSERT` fails. -/
def putChar (s : State) (ch : Byte) : Option State :=
  if s.putBusy then none else some { s with output := s.output ++ [ch], putBusy := true }

/-- The loop of `ConsoleTest`, which ends after a byte that `stops` it. -/
def thread (stops : Byte → Bool) (s : State) : Option State :=
  match s.place with
  | .wait =>
      if s.readAvail.queue then none
      else
        let (readAvail, passed) := s.readAvail.p
        some { s with readAvail, place := if passed then .getChar else .wait }
  | .getChar =>
      let (ch, s) := s.getChar
      some { s with place := .putChar ch, got := s.got ++ [ch] }
  | .putChar ch => (s.putChar ch).map fun s => { s with place := .writing ch }
  | .writing ch =>
      if s.writeDone.queue then none
      else
        let (writeDone, passed) := s.writeDone.p
        some { s with writeDone, place := if passed then .test ch else .writing ch }
  | .test ch => some { s with place := if stops ch then .returned else .wait }
  | .returned => none

end State

def step (stops : Byte → Bool) (s : State) : Label → Option State
  | .poll ready => s.checkCharAvail ready
  | .written => s.writeDoneInterrupt
  | .thread => s.thread stops

/-- `ConsoleTest` stops at a `'q'`. -/
def quits (ch : Byte) : Bool := ch == 113

/-! ## What goes right -/

section Delivery

variable {stops : Byte → Bool} {input rest waiting : List Byte} {c : Byte} {s s' : State}

/-- No byte 0xff that the thread gets to is followed by another byte. -/
def Legible (stops : Byte → Bool) (input : List Byte) : Prop :=
  ∀ before after, input = before ++ eof :: after → (∀ b ∈ before, stops b = false) →
    ∀ b ∈ after, b = eof

theorem legible_eof : Legible stops (eof :: rest) ↔ ∀ b ∈ rest, b = eof := by
  constructor
  · intro legible
    exact legible [] rest rfl (fun _ absent => absurd absent List.not_mem_nil)
  · rintro blank (_ | ⟨_, before⟩) after split going b isIn
    · cases split
      exact blank b isIn
    · cases split
      exact blank b (List.mem_append_right _ (List.mem_cons_of_mem _ isIn))

theorem legible_cons (other : c ≠ eof) :
    Legible stops (c :: rest) ↔ (stops c = false → Legible stops rest) := by
  constructor
  · rintro legible goes before after split going
    refine legible (c :: before) after (by rw [split, List.cons_append]) ?_
    rintro b (_ | ⟨_, isIn⟩)
    · exact goes
    · exact going b isIn
  · rintro legible (_ | ⟨_, before⟩) after split going
    · exact absurd (List.cons.inj split).1 other
    · cases split
      exact legible (going c List.mem_cons_self) before after rfl
        (fun b isIn => going b (List.mem_cons_of_mem _ isIn))

theorem toInt_eq_EOF (b : Byte) : b.toInt = EOF ↔ b = eof := by
  constructor
  · intro same
    exact BitVec.eq_of_toInt_eq same
  · rintro rfl
    rfl

/-- What the buffer holds when the bytes `waiting` have been read and not been returned. -/
inductive Buffered (stops : Byte → Bool) (s : State) : List Byte → Prop where
  | empty (incoming : s.incoming = eof) (legible : Legible stops s.input) : Buffered stops s []
  | full (other : s.incoming ≠ eof) (legible : stops s.incoming = false → Legible stops s.input) :
      Buffered stops s [s.incoming]
  /-- From the first 0xff on there is nothing else to be mistaken. -/
  | blank {waiting : List Byte} (incoming : s.incoming = eof) (read : ∀ b ∈ waiting, b = eof)
      (unread : ∀ b ∈ s.input, b = eof) : Buffered stops s waiting

/-- The thread will not call `GetChar` again. -/
def Place.last (stops : Byte → Bool) : Place → Bool
  | .wait | .getChar => false
  | .putChar ch | .writing ch | .test ch => stops ch
  | .returned => true

/-- `readAvail` has counted the bytes that wait; one count is taken before `GetChar`. -/
def Counted (s : State) (waiting : List Byte) : Prop :=
  0 ≤ s.readAvail.value ∧
    s.readAvail.value + (if s.place = .getChar then 1 else 0) = waiting.length

/-- The bytes that were read are those that were returned and those that wait. -/
inductive Sound (stops : Byte → Bool) (input : List Byte) (s : State) : Prop where
  | going (waiting : List Byte) (buffered : Buffered stops s waiting)
      (all : s.got ++ waiting ++ s.input = input) (counted : Counted s waiting)
  | ended (last : s.place.last stops = true) (delivered : s.got <+: input)

theorem Sound.delivered (sound : Sound stops input s) : s.got <+: input := by
  cases sound with
  | going waiting _ all _ =>
      rw [← all, List.append_assoc]
      exact List.prefix_append _ _
  | ended _ delivered => exact delivered

theorem sound_start (legible : Legible stops input) : Sound stops input (start input) :=
  .going [] (.empty rfl legible) rfl ⟨Int.le_refl 0, rfl⟩

/-- The byte that a poll puts into an empty buffer. -/
theorem Buffered.read (buffered : Buffered stops s waiting) (empty : s.incoming = eof)
    (unread : s.input = c :: rest) {readAvail : Semaphore} :
    Buffered stops { s with input := rest, incoming := c, readAvail } (waiting ++ [c]) := by
  cases buffered with
  | empty _ legible =>
      rw [unread] at legible
      by_cases same : c = eof
      · subst same
        exact .blank rfl (fun b isIn => List.mem_singleton.mp isIn) (legible_eof.mp legible)
      · exact @Buffered.full stops { s with input := rest, incoming := c, readAvail } same
          ((legible_cons same).mp legible)
  | full other => exact absurd empty other
  | blank _ read blank =>
      rw [unread] at blank
      have same : c = eof := blank c List.mem_cons_self
      refine .blank same ?_ (fun b isIn => blank b (List.mem_cons_of_mem _ isIn))
      intro b isIn
      rcases List.mem_append.mp isIn with old | new
      · exact read b old
      · exact (List.mem_singleton.mp new).trans same

theorem Sound.poll {ready : Bool} (sound : Sound stops input s)
    (moved : s.checkCharAvail ready = some s') : Sound stops input s' := by
  rw [State.checkCharAvail] at moved
  split at moved
  · cases moved
    exact sound
  next reads =>
    have empty : s.incoming = eof := by
      by_contra other
      exact reads (.inl fun same => other ((toInt_eq_EOF _).mp same))
    split at moved
    · cases moved
    next c rest unread =>
      cases moved
      cases sound with
      | going waiting buffered all counted =>
          refine .going (waiting ++ [c]) (buffered.read empty unread) ?_ ?_
          · show s.got ++ (waiting ++ [c]) ++ rest = input
            rw [← all, unread, ← List.append_assoc, List.append_assoc _ [c]]
            rfl
          · obtain ⟨nonneg, count⟩ := counted
            refine ⟨(by omega : 0 ≤ s.readAvail.value + 1), ?_⟩
            show s.readAvail.value + 1 + (if s.place = .getChar then 1 else 0)
              = ((waiting ++ [c]).length : Int)
            rw [List.length_append, List.length_singleton]
            omega
      | ended last delivered => exact .ended last delivered

/-- What `GetChar` returns is the first byte that waits. -/
theorem Buffered.getChar (buffered : Buffered stops s waiting) (some_ : waiting ≠ []) :
    ∃ others, waiting = s.incoming :: others ∧
      (stops s.incoming = false → ∀ place got,
        Buffered stops { s with incoming := eof, place, got } others) := by
  cases buffered with
  | empty => exact absurd rfl some_
  | full _ legible => exact ⟨[], rfl, fun goes _ _ => .empty rfl (legible goes)⟩
  | blank incoming read unread =>
      obtain ⟨b, others, rfl⟩ := List.exists_cons_of_ne_nil some_
      have first : b = s.incoming := (read b List.mem_cons_self).trans incoming.symm
      exact ⟨others, by rw [first], fun _ _ _ =>
        .blank rfl (fun x isIn => read x (List.mem_cons_of_mem _ isIn)) unread⟩

/-- The thread moves, and takes no byte. -/
theorem Sound.move (sound : Sound stops input s) (unread : s'.input = s.input)
    (incoming : s'.incoming = s.incoming) (got : s'.got = s.got)
    (count : ∀ waiting, Counted s waiting → Counted s' waiting)
    (stays : s.place.last stops = true → s'.place.last stops = true) : Sound stops input s' := by
  cases sound with
  | going waiting buffered all counted =>
      refine .going waiting ?_ (by rw [got, unread, all]) (count waiting counted)
      cases buffered with
      | empty empty legible => exact .empty (incoming.trans empty) (unread ▸ legible)
      | full other legible =>
          rw [← incoming] at other legible ⊢
          exact .full other (unread ▸ legible)
      | blank empty read blank => exact .blank (incoming.trans empty) read (unread ▸ blank)
  | ended last delivered => exact .ended (stays last) (got ▸ delivered)

theorem Sound.getChar (sound : Sound stops input s) (here : s.place = .getChar) :
    Sound stops input { s with
      incoming := eof, place := .putChar s.incoming, got := s.got ++ [s.incoming] } := by
  cases sound with
  | going waiting buffered all counted =>
      obtain ⟨nonneg, counted⟩ := counted
      rw [if_pos here] at counted
      have some_ : waiting ≠ [] := by
        rintro rfl
        rw [List.length_nil] at counted
        omega
      obtain ⟨others, rfl, stays⟩ := buffered.getChar some_
      have all' : s.got ++ [s.incoming] ++ others ++ s.input = input := by
        rw [← all, List.append_assoc s.got]
        rfl
      by_cases last : stops s.incoming = true
      · exact .ended last ⟨others ++ s.input, by rw [← all', List.append_assoc (s.got ++ _)]⟩
      · refine .going others (stays ((Bool.not_eq_true _).mp last) _ _) all' ⟨nonneg, ?_⟩
        rw [List.length_cons] at counted
        show s.readAvail.value + 0 = (others.length : Int)
        omega
  | ended last =>
      rw [here] at last
      cases last

/-- Before `GetChar` a count has been taken; nowhere else does the place count. -/
theorem Counted.put {place : Place} (counted : Counted s waiting) (here : s.place ≠ .getChar)
    (there : place ≠ .getChar) (same : s'.readAvail.value = s.readAvail.value)
    (at_ : s'.place = place) : Counted s' waiting := by
  obtain ⟨nonneg, counted⟩ := counted
  rw [if_neg here] at counted
  rw [Counted, same, at_, if_neg there]
  exact ⟨nonneg, counted⟩

theorem Sound.thread (sound : Sound stops input s) (moved : s.thread stops = some s') :
    Sound stops input s' := by
  rw [State.thread] at moved
  split at moved
  case h_1 here =>
    have outside : s.place ≠ .getChar := by rw [here]; exact Place.noConfusion
    split at moved
    · cases moved
    · rcases Semaphore.p_cases s.readAvail with ⟨out, -⟩ | ⟨out, positive⟩
      · rw [out] at moved
        cases moved
        exact sound.move rfl rfl rfl
          (fun _ counted => counted.put outside Place.noConfusion rfl rfl) (fun last => here ▸ last)
      · rw [out] at moved
        cases moved
        refine sound.move rfl rfl rfl ?_ (fun last => by rw [here] at last; cases last)
        rintro waiting ⟨nonneg, counted⟩
        rw [if_neg outside] at counted
        exact ⟨(by omega : 0 ≤ s.readAvail.value - 1),
          (by omega : s.readAvail.value - 1 + 1 = (waiting.length : Int))⟩
  case h_2 here =>
    cases moved
    exact sound.getChar here
  case h_3 ch here =>
    have outside : s.place ≠ .getChar := by rw [here]; exact Place.noConfusion
    obtain ⟨mid, put, rfl⟩ := Option.map_eq_some_iff.mp moved
    rw [State.putChar] at put
    split at put
    · cases put
    · cases put
      exact sound.move rfl rfl rfl
        (fun _ counted => counted.put outside Place.noConfusion rfl rfl) (fun last => here ▸ last)
  case h_4 ch here =>
    have outside : s.place ≠ .getChar := by rw [here]; exact Place.noConfusion
    split at moved
    · cases moved
    · cases moved
      refine sound.move rfl rfl rfl (fun _ counted => counted.put outside ?_ rfl rfl) ?_
      · split <;> exact Place.noConfusion
      · intro last
        rw [here] at last
        show Place.last stops (if _ then _ else _) = true
        split <;> exact last
  case h_5 ch here =>
    have outside : s.place ≠ .getChar := by rw [here]; exact Place.noConfusion
    cases moved
    refine sound.move rfl rfl rfl (fun _ counted => counted.put outside ?_ rfl rfl) ?_
    · split <;> exact Place.noConfusion
    · intro last
      rw [here] at last
      have stopped : stops ch = true := last
      rw [if_pos stopped]
      rfl
  case h_6 => cases moved

theorem Sound.step {l : Label} (sound : Sound stops input s) (moved : step stops s l = some s') :
    Sound stops input s' := by
  cases l with
  | poll ready => exact sound.poll moved
  | written =>
      have moved : s.writeDoneInterrupt = some s' := moved
      rw [State.writeDoneInterrupt] at moved
      split at moved
      · cases moved
        exact sound.move rfl rfl rfl (fun _ counted => counted) id
      · cases moved
  | thread => exact sound.thread moved

theorem delivered_of_legible {ls : List Label} (legible : Legible stops input)
    (run : exec (step stops) (start input) ls = some s) : s.got <+: input :=
  (exec_invariant' (fun _ _ _ sound moved => sound.step moved) (sound_start legible) run).delivered

end Delivery

/-! ## What goes wrong -/

section Overtaking

variable {stops : Byte → Bool} {input rest output got : List Byte} {c : Byte}

/-- The thread echoes a byte while nothing else happens. -/
theorem echoes (goes : stops c = false) :
    exec (step stops) (idle (c :: rest) output got)
      [.poll true, .thread, .thread, .thread, .written, .thread, .thread]
        = some (idle rest (output ++ [c]) (got ++ [c])) := by
  have turn : exec (step stops) (idle (c :: rest) output got)
      [.poll true, .thread, .thread, .thread, .written, .thread, .thread]
        = some { idle rest (output ++ [c]) (got ++ [c]) with
            place := if stops c then .returned else .wait } := rfl
  rw [turn, goes]
  rfl

/-- The thread waits, and bytes 0xff have been counted and not been kept. -/
def blanks (counted : Int) (input output got : List Byte) : State :=
  { idle input output got with readAvail := ⟨counted, false⟩ }

/-- Polls find bytes 0xff, and none of them fills the buffer. -/
theorem polls (n : Nat) (counted : Int) :
    exec (step stops) (blanks counted (List.replicate n eof ++ rest) output got)
      (List.replicate n (.poll true)) = some (blanks (counted + n) rest output got) := by
  induction n generalizing counted with
  | zero =>
      rw [Int.natCast_zero, Int.add_zero]
      rfl
  | succ n ih =>
      have first : step stops (blanks counted (List.replicate (n + 1) eof ++ rest) output got)
          (.poll true)
            = some (blanks (counted + 1) (List.replicate n eof ++ rest) output got) := rfl
      show exec (step stops) _ (.poll true :: List.replicate n (.poll true)) = _
      rw [exec_cons, first, Option.bind_some, ih]
      have total : counted + 1 + n = counted + (n + 1 : Nat) := by omega
      rw [total]

/-- The next byte fills it, and is the one that the thread gets. -/
theorem takes {counted : Int} (nonneg : 0 ≤ counted) :
    exec (step stops) (blanks counted (c :: rest) output got) [.poll true, .thread, .thread]
      = some { blanks (counted + 1 - 1) rest output (got ++ [c]) with place := .putChar c } := by
  have passes : Semaphore.p ⟨counted + 1, false⟩ = (⟨counted + 1 - 1, false⟩, true) :=
    if_neg (show ¬ counted + 1 = 0 by omega)
  have filled : step stops (blanks counted (c :: rest) output got) (.poll true)
      = some { blanks (counted + 1) rest output got with incoming := c } := rfl
  have passed : step stops { blanks (counted + 1) rest output got with incoming := c } .thread
      = some { blanks (counted + 1 - 1) rest output got with
        incoming := c
        place := .getChar } := by
    show some { idle rest output got with
      incoming := c
      readAvail := (Semaphore.p ⟨counted + 1, false⟩).1
      place := if (Semaphore.p ⟨counted + 1, false⟩).2 then .getChar else .wait } = _
    rw [passes]
    rfl
  rw [exec_cons, filled, Option.bind_some, exec_cons, passed]
  rfl

theorem exists_other (other : ¬ ∀ b ∈ rest, b = eof) :
    ∃ n c after, rest = List.replicate n eof ++ c :: after ∧ c ≠ eof := by
  induction rest with
  | nil => exact absurd (fun _ absent => absurd absent List.not_mem_nil) other
  | cons b rest ih =>
      by_cases same : b = eof
      · subst same
        rw [List.forall_mem_cons, not_and] at other
        obtain ⟨n, c, after, rfl, differs⟩ := ih (other rfl)
        exact ⟨n + 1, c, after, rfl, differs⟩
      · exact ⟨0, b, rest, rfl, same⟩

/-- A poll takes the place of a byte 0xff with a later byte, and the thread gets that one. -/
theorem overtakes (other : ¬ ∀ b ∈ rest, b = eof) :
    ∃ ls s c, exec (step stops) (idle (eof :: rest) output got) ls = some s ∧
      s.got = got ++ [c] ∧ c ≠ eof := by
  obtain ⟨n, c, after, rfl, differs⟩ := exists_other other
  have counted := @polls stops (c :: after) output got (n + 1) 0
  have gets := @takes stops after output got c (0 + (n + 1 : Nat)) (by omega)
  exact ⟨_, _, c, exec_append_eq_some.mpr ⟨_, counted, gets⟩, rfl, differs⟩

theorem exists_run_of_not_legible (illegible : ¬ Legible stops input) :
    ∃ ls s, exec (step stops) (idle input output got) ls = some s ∧ ¬ s.got <+: got ++ input := by
  induction input generalizing output got with
  | nil =>
      refine absurd ?_ illegible
      rintro (_ | _) after split
      · cases split
      · cases split
  | cons c rest ih =>
      by_cases same : c = eof
      · subst same
        rw [legible_eof] at illegible
        obtain ⟨ls, s, c, run, gets, differs⟩ := @overtakes stops rest output got illegible
        refine ⟨ls, s, run, ?_⟩
        rw [gets, List.prefix_append_right_inj, List.cons_prefix_cons]
        exact fun isFirst => differs isFirst.1
      · rw [legible_cons same] at illegible
        obtain ⟨goes, illegible⟩ := Classical.not_imp.mp illegible
        obtain ⟨ls, s, run, lost⟩ := @ih (output ++ [c]) (got ++ [c]) illegible
        rw [List.append_assoc] at lost
        exact ⟨_, s, exec_append_eq_some.mpr ⟨_, echoes goes, run⟩, lost⟩

end Overtaking

/-- In every run what `GetChar` returns is the beginning of the input, exactly if no byte 0xff
that the thread gets to is followed by another byte. -/
theorem delivered_iff (stops : Byte → Bool) (input : List Byte) :
    (∀ ls s, exec (step stops) (start input) ls = some s → s.got <+: input) ↔
      Legible stops input := by
  constructor
  · intro delivered
    by_contra illegible
    obtain ⟨ls, s, run, lost⟩ := @exists_run_of_not_legible stops input [] [] illegible
    exact lost (delivered ls s run)
  · intro legible ls s run
    exact delivered_of_legible legible run

/-- The bytes 0xff and `'a'`, two polls before the thread runs. -/
theorem overtaken : ¬ ∀ input ls s,
    exec (step quits) (start input) ls = some s → s.got <+: input := by
  intro delivered
  have lost := delivered [0xff, 97] [.poll true, .poll true, .thread, .thread] _ rfl
  revert lost
  decide

end Nachos.Machine.Console
