/-
# Nachos.Lib.I386 -- moves, pushes and calls of the Intel 386

The part of the architecture a context switch is written in: eight registers, a
byte-addressed memory of little-endian words, and the instructions that move words
between them.  Addresses wrap around at 2^32.

A program is a `Text`: the instruction at an address and the address of the next one, so
that nothing depends on the length of an encoding.  `Located` says that a list of
instructions stands at an address; `steps_straight` runs such a list in one piece, as the
composition of the effects of its instructions.
-/
import Mathlib.Data.BitVec
import Mathlib.Data.Set.Lattice
import Mathlib.Order.CompletePartialOrder
import Mathlib.Tactic.Common

namespace Nachos.Lib.I386

set_option autoImplicit false

abbrev Byte := BitVec 8
abbrev Word := BitVec 32
abbrev Memory := Word → Byte

/-! ## Words in memory -/

/-- The four bytes of the word at `a`. -/
def wordAt (a : Word) : Set Word := {x | x - a < 4}

theorem mem_wordAt {a x : Word} : x ∈ wordAt a ↔ x - a < 4 := Iff.rfl

def loadWord (m : Memory) (a : Word) : Word := m (a + 3) ++ m (a + 2) ++ m (a + 1) ++ m a

def storeWord (m : Memory) (a v : Word) : Memory := fun x =>
  if x - a < 4 then v.extractLsb' (8 * (x - a).toNat) 8 else m x

/-- Two memories hold the same bytes on a set. -/
def AgreeOn (S : Set Word) (m m' : Memory) : Prop := ∀ x ∈ S, m x = m' x

namespace AgreeOn

variable {S T : Set Word} {m m' m'' : Memory}

theorem refl (S : Set Word) (m : Memory) : AgreeOn S m m := fun _ _ => rfl

theorem symm (same : AgreeOn S m m') : AgreeOn S m' m := fun x member => (same x member).symm

theorem trans (same : AgreeOn S m m') (same' : AgreeOn S m' m'') : AgreeOn S m m'' :=
  fun x member => (same x member).trans (same' x member)

theorem mono (included : T ⊆ S) (same : AgreeOn S m m') : AgreeOn T m m' :=
  fun x member => same x (included member)

theorem loadWord {a : Word} (same : AgreeOn S m m') (inside : wordAt a ⊆ S) :
    loadWord m a = loadWord m' a := by
  have byte (i : Word) (below : i < 4) : m (a + i) = m' (a + i) := by
    refine same _ (inside ?_)
    rw [mem_wordAt, BitVec.add_comm, BitVec.add_sub_cancel]
    exact below
  have first : m a = m' a := by simpa using byte 0 (by decide)
  simp only [I386.loadWord, byte 1 (by decide), byte 2 (by decide), byte 3 (by decide), first]

/-- A word stored outside the set. -/
theorem storeWord {a v : Word} (outside : Disjoint (wordAt a) S) :
    AgreeOn S (storeWord m a v) m := by
  intro x member
  have notIn : ¬ x - a < 4 := fun isIn => (Set.disjoint_left.mp outside) isIn member
  simp only [I386.storeWord, if_neg notIn]

end AgreeOn

@[simp] theorem loadWord_storeWord (m : Memory) (a v : Word) :
    loadWord (storeWord m a v) a = v := by
  have byte (i : Word) (below : i < 4) :
      storeWord m a v (a + i) = v.extractLsb' (8 * i.toNat) 8 := by
    have offset : a + i - a = i := by rw [BitVec.add_comm, BitVec.add_sub_cancel]
    simp only [storeWord, offset, if_pos below]
  have first : storeWord m a v a = v.extractLsb' (8 * 0) 8 := by simpa using byte 0 (by decide)
  rw [loadWord, byte 1 (by decide), byte 2 (by decide), byte 3 (by decide), first]
  apply BitVec.eq_of_getElem_eq
  intro i small
  simp only [BitVec.getElem_append, BitVec.getElem_extractLsb']
  grind

/-- A word is not disturbed by a store to another one. -/
theorem loadWord_storeWord_of_disjoint (m : Memory) {a b : Word} (v : Word)
    (apart : Disjoint (wordAt b) (wordAt a)) :
    loadWord (storeWord m b v) a = loadWord m a :=
  (AgreeOn.storeWord apart).loadWord (Set.Subset.refl _)

/-- Two fields of one record. -/
theorem disjoint_fields (a : Word) {i j : Word} (below : 4 ≤ i - j) (above : 4 ≤ j - i) :
    Disjoint (wordAt (a + i)) (wordAt (a + j)) := by
  rw [Set.disjoint_left]
  intro x first second
  rw [mem_wordAt] at first second
  bv_omega

/-- Store a list of fields of the record at `base`, in order. -/
def storeFields (m : Memory) (base : Word) (fields : List (Word × Word)) : Memory :=
  fields.foldl (fun m field => storeWord m (base + field.1) field.2) m

@[simp] theorem storeFields_nil (m : Memory) (base : Word) : storeFields m base [] = m := rfl

@[simp] theorem storeFields_cons (m : Memory) (base : Word) (field : Word × Word)
    (fields : List (Word × Word)) :
    storeFields m base (field :: fields) =
      storeFields (storeWord m (base + field.1) field.2) base fields := rfl

theorem AgreeOn.storeFields {S : Set Word} {base : Word} :
    ∀ {fields : List (Word × Word)} {m : Memory},
      (∀ field ∈ fields, Disjoint (wordAt (base + field.1)) S) →
      AgreeOn S (storeFields m base fields) m
  | [], _, _ => AgreeOn.refl _ _
  | field :: fields, m, outside => by
      rw [storeFields_cons]
      have rest := AgreeOn.storeFields (m := I386.storeWord m (base + field.1) field.2)
        fun f member => outside f (List.mem_cons_of_mem _ member)
      exact rest.trans (AgreeOn.storeWord (outside field List.mem_cons_self))

/-- Fields that do not overlap are read back as they were stored. -/
theorem loadWord_storeFields {base : Word} :
    ∀ {fields : List (Word × Word)} {m : Memory} {field : Word × Word}, field ∈ fields →
      fields.Pairwise (fun f g => 4 ≤ f.1 - g.1 ∧ 4 ≤ g.1 - f.1) →
      loadWord (storeFields m base fields) (base + field.1) = field.2
  | first :: fields, m, field, member, apart => by
      rw [List.pairwise_cons] at apart
      rw [storeFields_cons]
      rcases List.mem_cons.mp member with rfl | inRest
      · have kept : AgreeOn (wordAt (base + field.1))
            (storeFields (storeWord m (base + field.1) field.2) base fields)
            (storeWord m (base + field.1) field.2) :=
          AgreeOn.storeFields fun f inFields =>
            disjoint_fields base (apart.1 f inFields).2 (apart.1 f inFields).1
        rw [kept.loadWord (Set.Subset.refl _), loadWord_storeWord]
      · exact loadWord_storeFields inRest apart.2

/-! ## The machine -/

inductive Reg where
  | eax | ebx | ecx | edx | esp | ebp | esi | edi
  deriving DecidableEq, Repr

abbrev Regs := Reg → Word

structure State where
  regs : Regs
  pc : Word
  mem : Memory

/-- A register, a word at a displacement from a register, or a variable. -/
inductive Operand where
  | reg (r : Reg)
  | disp (d : Word) (base : Reg)
  | var (a : Word)
  deriving DecidableEq, Repr

namespace State

def read (s : State) : Operand → Word
  | .reg r => s.regs r
  | .disp d base => loadWord s.mem (s.regs base + d)
  | .var a => loadWord s.mem a

def write (s : State) (v : Word) : Operand → State
  | .reg r => { s with regs := Function.update s.regs r v }
  | .disp d base => { s with mem := storeWord s.mem (s.regs base + d) v }
  | .var a => { s with mem := storeWord s.mem a v }

def push (s : State) (v : Word) : State :=
  { s with
    regs := Function.update s.regs .esp (s.regs .esp - 4)
    mem := storeWord s.mem (s.regs .esp - 4) v }

variable (s : State) (v : Word)

theorem push_esp : (s.push v).regs .esp = s.regs .esp - 4 := by
  simp only [push, Function.update_self]

theorem push_regs {r : Reg} (other : r ≠ .esp) : (s.push v).regs r = s.regs r := by
  simp only [push, Function.update_of_ne other]

end State

/-- The operands of `movl` are in the assembler's order: from, to. -/
inductive Instr where
  | movl (src dst : Operand)
  | pushl (src : Reg)
  | popl (dst : Reg)
  | call (target : Reg)
  | ret
  deriving DecidableEq, Repr

/-- The instruction leaves the program counter to the next one. -/
def Instr.straight : Instr → Bool
  | .movl _ _ | .pushl _ | .popl _ => true
  | .call _ | .ret => false

/-- What an instruction does to registers and memory; a `call` pushes the address `next`. -/
def Instr.effect (next : Word) : Instr → State → State
  | .movl src dst, s => s.write (s.read src) dst
  | .pushl src, s => s.push (s.regs src)
  | .popl dst, s =>
      { s with
        regs := Function.update (Function.update s.regs .esp (s.regs .esp + 4)) dst
          (loadWord s.mem (s.regs .esp)) }
  | .call _, s => s.push next
  | .ret, s => { s with regs := Function.update s.regs .esp (s.regs .esp + 4) }

/-- Where the machine goes on. -/
def Instr.target (next : Word) (s : State) : Instr → Word
  | .call r => s.regs r
  | .ret => loadWord s.mem (s.regs .esp)
  | _ => next

/-- The instruction at an address, and the address of the one after it. -/
abbrev Text := Word → Option (Instr × Word)

def step (text : Text) (s : State) : Option State :=
  (text s.pc).map fun fetched =>
    { fetched.1.effect fetched.2 s with pc := fetched.1.target fetched.2 s }

def steps (text : Text) : Nat → State → Option State
  | 0, s => some s
  | n + 1, s => (step text s).bind (steps text n)

theorem steps_add (text : Text) (n k : Nat) (s : State) :
    steps text (n + k) s = (steps text n s).bind (steps text k) := by
  induction n generalizing s with
  | zero => simp [steps]
  | succ n ih =>
      rw [Nat.add_right_comm, steps, steps, Option.bind_assoc]
      congr 1
      funext s'
      exact ih s'

/-- The instructions stand in the text from `a` on; `b` is the address after them. -/
def Located (text : Text) : Word → List Instr → Word → Prop
  | a, [], b => a = b
  | a, i :: is, b => ∃ next, text a = some (i, next) ∧ Located text next is b

theorem Located.append {text : Text} {is js : List Instr} {b : Word} :
    ∀ {a : Word}, Located text a (is ++ js) b →
      ∃ c, Located text a is c ∧ Located text c js b := by
  induction is with
  | nil => exact fun located => ⟨_, rfl, located⟩
  | cons i is ih =>
      intro a located
      obtain ⟨next, fetched, rest⟩ := located
      obtain ⟨c, first, second⟩ := ih rest
      exact ⟨c, ⟨next, fetched, first⟩, second⟩

/-- The effects of straight-line code, one after the other. -/
def effects (is : List Instr) (s : State) : State :=
  is.foldl (fun s i => i.effect 0 s) s

@[simp] theorem effects_nil (s : State) : effects [] s = s := rfl

@[simp] theorem effects_cons (i : Instr) (is : List Instr) (s : State) :
    effects (i :: is) s = effects is (i.effect 0 s) := rfl

/-- Straight-line code neither reads nor writes the program counter. -/
theorem Instr.effect_pc {i : Instr} (straight : i.straight) (next pc : Word) (s : State) :
    i.effect next { s with pc := pc } = { i.effect 0 s with pc := pc } := by
  cases i with
  | movl src dst => cases src <;> cases dst <;> rfl
  | pushl src => rfl
  | popl dst => rfl
  | call target => cases straight
  | ret => cases straight

theorem effects_pc {is : List Instr} (straight : ∀ i ∈ is, i.straight = true) (pc : Word) :
    ∀ s : State, effects is { s with pc := pc } = { effects is s with pc := pc } := by
  induction is with
  | nil => exact fun _ => rfl
  | cons i is ih =>
      intro s
      rw [effects_cons, effects_cons, Instr.effect_pc (straight i List.mem_cons_self),
        ih fun j member => straight j (List.mem_cons_of_mem _ member)]

/-- Straight-line code runs to its end. -/
theorem steps_straight {text : Text} {is : List Instr} {b : Word}
    (straight : ∀ i ∈ is, i.straight = true) :
    ∀ {s : State}, Located text s.pc is b →
      steps text is.length s = some { effects is s with pc := b } := by
  induction is with
  | nil =>
      intro s located
      obtain rfl : s.pc = b := located
      rfl
  | cons i is ih =>
      intro s located
      obtain ⟨next, fetched, rest⟩ := located
      have first : i.straight = true := straight i List.mem_cons_self
      have moved : step text s = some { i.effect 0 s with pc := next } := by
        have target : i.target next s = next := by cases i <;> first | rfl | cases first
        have effect : i.effect next s = i.effect 0 s := by cases i <;> first | rfl | cases first
        simp only [step, fetched, Option.map_some, target, effect]
      rw [List.length_cons, steps, moved, Option.bind_some,
        ih (fun j member => straight j (List.mem_cons_of_mem _ member)) rest, effects_cons,
        effects_pc fun j member => straight j (List.mem_cons_of_mem _ member)]

end Nachos.Lib.I386
