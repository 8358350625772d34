/-
# Nachos.Lib.Bytes -- byte arrays, byte files and little-endian words

Three views of storage meet in a machine simulator: a memory addressed by index
(`Nat → β`), a file (`List β`) and a machine word.  This module relates them.

* `splice m pos bs` overwrites a memory from `pos`; `block m pos n` reads it back.
* `writeAt f pos bs` is UNIX `lseek`+`write` on a file (a gap past the end fills
  with the default byte); `readAt f pos n` is `lseek`+`read` and returns the bytes
  that are there, possibly fewer than `n`.
* `byteOf v i` is byte `i` of a word, least significant first, and `load n b` is
  the word an `n`-byte little-endian read builds from the bytes `b 0, b 1, ...`;
  a one-byte read goes through a signed `char`.
-/
import Mathlib.Data.List.Basic
import Mathlib.Tactic.Common

namespace Nachos.Lib.Bytes

set_option autoImplicit false

abbrev Byte := BitVec 8

abbrev Word := BitVec 32

section Splice

variable {β : Type}

/-- Overwrite `m` with `bs` from index `pos` on. -/
def splice (m : Nat → β) (pos : Nat) (bs : List β) : Nat → β :=
  fun i => if pos ≤ i then (bs[i - pos]?).getD (m i) else m i

/-- The `n` entries of `m` from `pos` on. -/
def block (m : Nat → β) (pos n : Nat) : List β :=
  (List.range n).map fun i => m (pos + i)

@[simp] theorem length_block (m : Nat → β) (pos n : Nat) : (block m pos n).length = n := by
  simp [block]

theorem getElem?_block (m : Nat → β) {pos n i : Nat} (inside : i < n) :
    (block m pos n)[i]? = some (m (pos + i)) := by
  simp [block, inside]

theorem block_congr {m m' : Nat → β} {pos n : Nat} (same : ∀ i < n, m (pos + i) = m' (pos + i)) :
    block m pos n = block m' pos n := by
  unfold block
  exact List.map_congr_left fun i member => same i (List.mem_range.mp member)

theorem splice_outside (m : Nat → β) {pos i : Nat} {bs : List β}
    (outside : i < pos ∨ pos + bs.length ≤ i) : splice m pos bs i = m i := by
  unfold splice
  split
  · have : bs.length ≤ i - pos := by omega
    rw [List.getElem?_eq_none this, Option.getD_none]
  · rfl

theorem splice_add (m : Nat → β) (pos : Nat) (bs : List β) {j : Nat} {b : β}
    (found : bs[j]? = some b) : splice m pos bs (pos + j) = b := by
  unfold splice
  rw [if_pos (Nat.le_add_right pos j), Nat.add_sub_cancel_left, found, Option.getD_some]

theorem splice_block_outside (m : Nat → β) {pos q n : Nat} {bs : List β}
    (apart : q + n ≤ pos ∨ pos + bs.length ≤ q) :
    block (splice m pos bs) q n = block m q n :=
  block_congr fun i inside => splice_outside m (by omega)

theorem splice_block_self (m : Nat → β) (pos : Nat) (bs : List β) :
    block (splice m pos bs) pos bs.length = bs := by
  apply List.ext_getElem?
  intro i
  by_cases inside : i < bs.length
  · rw [getElem?_block _ inside, splice_add m pos bs (List.getElem?_eq_getElem inside),
      List.getElem?_eq_getElem inside]
  · rw [List.getElem?_eq_none (by simpa using inside), List.getElem?_eq_none (by omega)]

theorem block_add (m : Nat → β) (pos n k : Nat) :
    block m pos (n + k) = block m pos n ++ block m (pos + n) k := by
  simp only [block, List.range_add, List.map_append, List.map_map, Function.comp_def, Nat.add_assoc]

theorem drop_take_block (m : Nat → β) {pos n j k : Nat} (inside : j + k ≤ n) :
    ((block m pos n).drop j).take k = block m (pos + j) k := by
  obtain ⟨rest, rfl⟩ : ∃ rest, n = j + (k + rest) := ⟨n - j - k, by omega⟩
  rw [block_add, block_add, List.drop_left' (length_block m pos j),
    List.take_left' (length_block m (pos + j) k)]

theorem splice_block_at (m m' : Nat → β) {pos q n i : Nat} (low : pos ≤ i) (high : i < pos + n) :
    splice m pos (block m' q n) i = m' (q + (i - pos)) := by
  obtain ⟨j, rfl⟩ : ∃ j, i = pos + j := ⟨i - pos, by omega⟩
  rw [splice_add m pos _ (getElem?_block m' (by omega)), Nat.add_sub_cancel_left]

/-- Two splices, one behind the other, are one. -/
theorem splice_append (m : Nat → β) (pos : Nat) (xs ys : List β) :
    splice (splice m pos xs) (pos + xs.length) ys = splice m pos (xs ++ ys) := by
  funext i
  by_cases before : i < pos
  · rw [splice_outside _ (.inl (by omega)), splice_outside _ (.inl before),
      splice_outside _ (.inl before)]
  obtain ⟨j, rfl⟩ : ∃ j, i = pos + j := ⟨i - pos, by omega⟩
  by_cases first : j < xs.length
  · rw [splice_outside _ (.inl (by omega)), splice_add _ _ _ (List.getElem?_eq_getElem first),
      splice_add _ _ _ (by rw [List.getElem?_append_left first, List.getElem?_eq_getElem first])]
  · by_cases second : j < xs.length + ys.length
    · have found : ys[j - xs.length]? = some (ys[j - xs.length]) :=
        List.getElem?_eq_getElem (by omega)
      have place : pos + j = pos + xs.length + (j - xs.length) := by omega
      rw [splice_add _ _ (xs ++ ys) (by rw [List.getElem?_append_right (by omega), found]), place,
        splice_add _ _ _ found]
    · rw [splice_outside _ (.inr (by omega)), splice_outside _ (.inr (by omega)),
        splice_outside _ (.inr (by rw [List.length_append]; omega))]

/-- The part of a block from `j` on, as far as it goes. -/
theorem drop_take_block_min (m : Nat → β) (n j k : Nat) :
    ((block m 0 n).drop j).take k = block m j (min k (n - j)) := by
  by_cases inside : j ≤ n
  · have clipped : ((block m 0 n).drop j).take k = ((block m 0 n).drop j).take (min k (n - j)) := by
      rw [List.take_eq_take_min, List.length_drop, length_block]
    rw [clipped, drop_take_block m (by omega), Nat.zero_add]
  · have none : n - j = 0 := by omega
    rw [List.drop_eq_nil_of_le (by rw [length_block]; omega), none, Nat.min_zero, List.take_nil]
    rfl

/-- The block around a splice, as far as the splice lies in it. -/
theorem block_splice (m : Nat → β) {n p : Nat} {bs : List β}
    (inside : bs = [] ∨ p + bs.length ≤ n) :
    block (splice m p bs) 0 n =
      (block m 0 n).take p ++ bs ++ (block m 0 n).drop (p + bs.length) := by
  obtain rfl | inside := inside
  · have same : block (splice m p []) 0 n = block m 0 n :=
      block_congr fun i _ => splice_outside m (by simp; omega)
    rw [same, List.append_nil, List.length_nil, Nat.add_zero, List.take_append_drop]
  · obtain ⟨rest, rfl⟩ : ∃ rest, n = p + bs.length + rest := ⟨n - p - bs.length, by omega⟩
    rw [block_add, block_add, splice_block_outside m (.inl (by omega)), Nat.zero_add,
      splice_block_self,
      splice_block_outside m (.inr (by omega)), Nat.add_assoc, block_add,
        List.take_left' (length_block m 0 p),
      Nat.zero_add, block_add, ← List.append_assoc, List.drop_left' (by simp), Nat.zero_add]

end Splice

section Files

variable {β : Type} [Inhabited β]

/-- What `lseek` to `pos` and `read` of `n` bytes returns. -/
def readAt (f : List β) (pos n : Nat) : List β :=
  (f.drop pos).take n

/-- The file after `lseek` to `pos` and `write` of `bs`. -/
def writeAt (f : List β) (pos : Nat) (bs : List β) : List β :=
  f.take pos ++ List.replicate (pos - f.length) default ++ bs ++ f.drop (pos + bs.length)

theorem length_writeAt (f : List β) (pos : Nat) (bs : List β) :
    (writeAt f pos bs).length = max f.length (pos + bs.length) := by
  simp only [writeAt, List.length_append, List.length_take, List.length_replicate, List.length_drop]
  omega

theorem length_head (f : List β) (pos : Nat) :
    (f.take pos ++ List.replicate (pos - f.length) default).length = pos := by
  simp only [List.length_append, List.length_take, List.length_replicate]
  omega

omit [Inhabited β] in
theorem length_readAt (f : List β) {pos n : Nat} (covered : pos + n ≤ f.length) :
    (readAt f pos n).length = n := by
  simp only [readAt, List.length_take, List.length_drop]
  omega

omit [Inhabited β] in
theorem getElem?_readAt (f : List β) {pos n i : Nat} (inside : i < n) :
    (readAt f pos n)[i]? = f[pos + i]? := by
  rw [readAt, List.getElem?_take_of_lt inside, List.getElem?_drop]

theorem readAt_writeAt_self (f : List β) (pos : Nat) (bs : List β) :
    readAt (writeAt f pos bs) pos bs.length = bs := by
  rw [readAt, writeAt, List.append_assoc, List.drop_left' (length_head f pos),
    List.take_left' rfl]

theorem getElem?_writeAt_outside (f : List β) {pos i : Nat} {bs : List β}
    (outside : i < pos ∨ pos + bs.length ≤ i) (covered : i < f.length) :
    (writeAt f pos bs)[i]? = f[i]? := by
  have head := length_head f pos
  rcases outside with before | after
  · rw [writeAt, List.append_assoc, List.getElem?_append_left (by omega),
      List.getElem?_append_left (by simp only [List.length_take]; omega),
      List.getElem?_take_of_lt before]
  · rw [writeAt, List.getElem?_append_right (by simp only [List.length_append] at head ⊢; omega),
      List.getElem?_drop]
    congr 1
    simp only [List.length_append] at head ⊢
    omega

/-- A write leaves every covered range it does not overlap as it was. -/
theorem readAt_writeAt_outside (f : List β) {pos q n : Nat} {bs : List β}
    (apart : q + n ≤ pos ∨ pos + bs.length ≤ q) (covered : q + n ≤ f.length) :
    readAt (writeAt f pos bs) q n = readAt f q n := by
  apply List.ext_getElem?
  intro i
  by_cases inside : i < n
  · rw [getElem?_readAt _ inside, getElem?_readAt _ inside,
      getElem?_writeAt_outside f (by omega) (by omega)]
  · rw [List.getElem?_eq_none, List.getElem?_eq_none]
    · rw [length_readAt f covered]; omega
    · rw [length_readAt _ (by rw [length_writeAt]; omega)]; omega

end Files

section LittleEndian

/-- Byte `i` of a word, least significant first. -/
def byteOf (v : Word) (i : Nat) : Byte := v.extractLsb' (8 * i) 8

/-- The `n` low bytes of a word, in memory order. -/
def bytesOf (v : Word) (n : Nat) : List Byte :=
  (List.range n).map (byteOf v)

/-- The word an `n`-byte read builds from the bytes `b 0, b 1, ...`.  One byte is
read through a signed `char`, two through an `unsigned short`. -/
def load (n : Nat) (b : Nat → Byte) : Word :=
  match n with
  | 1 => (b 0).signExtend 32
  | 2 => (b 1 ++ b 0).setWidth 32
  | _ => b 3 ++ b 2 ++ b 1 ++ b 0

@[simp] theorem length_bytesOf (v : Word) (n : Nat) : (bytesOf v n).length = n := by
  simp [bytesOf]

theorem getElem?_bytesOf (v : Word) {n i : Nat} (inside : i < n) :
    (bytesOf v n)[i]? = some (byteOf v i) := by
  simp [bytesOf, inside]

theorem byteOf_load_one (b : Nat → Byte) : byteOf (load 1 b) 0 = b 0 := by
  apply BitVec.eq_of_getLsbD_eq
  intro k hk
  simp only [byteOf, load, BitVec.getLsbD_extractLsb', BitVec.getLsbD_signExtend]
  simp [hk]
  omega

theorem byteOf_load_two (b : Nat → Byte) {i : Nat} (inside : i < 2) :
    byteOf (load 2 b) i = b i := by
  apply BitVec.eq_of_getLsbD_eq
  intro k hk
  simp only [byteOf, load, BitVec.getLsbD_extractLsb', BitVec.getLsbD_setWidth,
    BitVec.getLsbD_append, hk, decide_true, Bool.true_and]
  obtain rfl | rfl : i = 0 ∨ i = 1 := by omega
  · simp [hk]; omega
  · have : ¬ 8 + k < 8 := by omega
    simp [this]; omega

theorem byteOf_load_four (b : Nat → Byte) {i : Nat} (inside : i < 4) :
    byteOf (load 4 b) i = b i := by
  apply BitVec.eq_of_getLsbD_eq
  intro k hk
  simp only [byteOf, load, BitVec.getLsbD_extractLsb', BitVec.getLsbD_append, hk, decide_true,
    Bool.true_and]
  obtain rfl | rfl | rfl | rfl : i = 0 ∨ i = 1 ∨ i = 2 ∨ i = 3 := by omega
  all_goals split_ifs <;> first | omega | (congr 1; omega)

/-- **A read returns the bytes it read**, for each of the three access sizes. -/
theorem byteOf_load {n : Nat} (size : n = 1 ∨ n = 2 ∨ n = 4) (b : Nat → Byte) {i : Nat}
    (inside : i < n) : byteOf (load n b) i = b i := by
  rcases size with rfl | rfl | rfl
  · obtain rfl : i = 0 := by omega
    exact byteOf_load_one b
  · exact byteOf_load_two b inside
  · exact byteOf_load_four b inside

theorem load_congr {n : Nat} (size : n = 1 ∨ n = 2 ∨ n = 4) {b c : Nat → Byte}
    (same : ∀ i < n, b i = c i) : load n b = load n c := by
  rcases size with rfl | rfl | rfl
  · simp only [load, same 0 (by omega)]
  · simp only [load, same 0 (by omega), same 1 (by omega)]
  · simp only [load, same 0 (by omega), same 1 (by omega), same 2 (by omega), same 3 (by omega)]

/-- A word is read back from its bytes. -/
theorem load_byteOf (v : Word) : load 4 (byteOf v) = v := by
  apply BitVec.eq_of_getLsbD_eq
  intro k hk
  simp only [load, byteOf, BitVec.getLsbD_append, BitVec.getLsbD_extractLsb']
  have within : ∀ i j, j < 8 → 8 * i + j = k → (decide (j < 8) && v.getLsbD (8 * i + j)) =
      v.getLsbD k := by
    intro i j small place
    rw [decide_eq_true small, Bool.true_and, place]
  split_ifs
  · exact within 0 k (by omega) (by omega)
  · exact within 1 (k - 8) (by omega) (by omega)
  · exact within 2 (k - 8 - 8) (by omega) (by omega)
  · exact within 3 (k - 8 - 8 - 8) (by omega) (by omega)

end LittleEndian

/-! ## Words in a memory of bytes -/

section Words

/-- The word at an address. -/
def wordAt (m : Nat → Byte) (pos : Nat) : Word := load 4 fun k => m (pos + k)

/-- An array of words, as it lies in memory. -/
def words (m : Nat → Byte) (j : Nat) : Word := wordAt m (4 * j)

/-- The memory of an array of words. -/
def bytesOfWords (w : Nat → Word) (i : Nat) : Byte := byteOf (w (i / 4)) (i % 4)

theorem wordAt_congr {m m' : Nat → Byte} {pos : Nat} (same : ∀ k < 4, m (pos + k) = m' (pos + k)) :
    wordAt m pos = wordAt m' pos :=
  load_congr (.inr (.inr rfl)) same

theorem wordAt_splice_self (m : Nat → Byte) (pos : Nat) (v : Word) :
    wordAt (splice m pos (bytesOf v 4)) pos = v := by
  conv_rhs => rw [← load_byteOf v]
  refine load_congr (.inr (.inr rfl)) fun k inside => ?_
  rw [splice_add m pos _ (getElem?_bytesOf v inside)]

theorem words_bytesOfWords (w : Nat → Word) (j : Nat) : words (bytesOfWords w) j = w j := by
  have same : load 4 (fun k => bytesOfWords w (4 * j + k)) = load 4 (byteOf (w j)) := by
    refine load_congr (.inr (.inr rfl)) fun k inside => ?_
    have word : (4 * j + k) / 4 = j := by omega
    have byte : (4 * j + k) % 4 = k := by omega
    rw [bytesOfWords, word, byte]
  exact same.trans (load_byteOf (w j))

/-- Words laid out one after the other are read back one by one. -/
theorem load_flatMap_bytesOf (ws : List Word) {k : Nat} {w : Word} (found : ws[k]? = some w) :
    load 4 (fun i => (ws.flatMap (bytesOf · 4)).getD (4 * k + i) 0) = w := by
  have byte : ∀ i < 4, (ws.flatMap (bytesOf · 4))[4 * k + i]? = some (byteOf w i) := by
    intro i inside
    induction ws generalizing k with
    | nil => cases found
    | cons v ws ih =>
        rw [List.flatMap_cons]
        cases k with
        | zero =>
            cases found
            rw [Nat.mul_zero, Nat.zero_add, List.getElem?_append_left
              (by rw [length_bytesOf]; exact inside)]
            exact getElem?_bytesOf _ inside
        | succ k =>
            have later : 4 * (k + 1) + i = 4 + (4 * k + i) := by omega
            rw [later, List.getElem?_append_right (by rw [length_bytesOf]; omega), length_bytesOf,
              Nat.add_sub_cancel_left]
            exact ih found
  rw [← load_byteOf w]
  refine load_congr (.inr (.inr rfl)) fun i inside => ?_
  rw [List.getD, byte i inside, Option.getD_some]

/-- Words written one after the other are read back one by one. -/
theorem wordAt_splice_flatMap (m : Nat → Byte) (pos : Nat) (ws : List Word) {k : Nat} {w : Word}
    (found : ws[k]? = some w) :
    wordAt (splice m pos (ws.flatMap (bytesOf · 4))) (pos + 4 * k) = w := by
  conv_rhs => rw [← load_flatMap_bytesOf ws found]
  refine load_congr (.inr (.inr rfl)) fun i inside => ?_
  have room : 4 * k + i < (ws.flatMap (bytesOf · 4)).length := by
    obtain ⟨among, -⟩ := List.getElem?_eq_some_iff.mp found
    have total : (ws.flatMap (bytesOf · 4)).length = ws.length * 4 := by simp
    omega
  have byte : (ws.flatMap (bytesOf · 4))[4 * k + i]? =
      some ((ws.flatMap (bytesOf · 4)).getD (4 * k + i) 0) := by
    rw [List.getD, List.getElem?_eq_getElem room, Option.getD_some]
  rw [Nat.add_assoc, splice_add m pos _ byte]

end Words

end Nachos.Lib.Bytes
