import Mathlib

/-! Byte strings as lists of eight-bit words: exclusive or of two strings, copying a
string over part of a buffer, and big-endian fields with their readers. -/
namespace Meshx.Lib

abbrev Byte := BitVec 8

/-- The byte-wise exclusive or of two strings, as long as the shorter one. -/
def xorBytes (xs ys : List Byte) : List Byte := List.zipWith (· ^^^ ·) xs ys

@[simp] theorem xorBytes_length (xs ys : List Byte) :
    (xorBytes xs ys).length = min xs.length ys.length := by
  simp [xorBytes]

theorem xorBytes_cancel {xs ys : List Byte} (h : xs.length ≤ ys.length) :
    xorBytes (xorBytes xs ys) ys = xs := by
  induction xs generalizing ys with
  | nil => simp [xorBytes]
  | cons x xs ih =>
    cases ys with
    | nil => simp at h
    | cons y ys =>
      have hx : x ^^^ y ^^^ y = x := by rw [BitVec.xor_assoc, BitVec.xor_self, BitVec.xor_zero]
      have ht := ih (by simpa using h)
      simp only [xorBytes, List.zipWith_cons_cons] at ht ⊢
      rw [hx, ht]

theorem eq_of_parts {α : Type*} {xs ys : List α} {m n : ℕ} (hfront : xs.take m = ys.take m)
    (hmid : (xs.drop m).take n = (ys.drop m).take n) (hrest : xs.drop (m + n) = ys.drop (m + n)) :
    xs = ys := by
  have hdrop : xs.drop m = ys.drop m := by
    rw [← List.take_append_drop n (xs.drop m), hmid, List.drop_drop, hrest, ← List.drop_drop,
      List.take_append_drop]
  rw [← List.take_append_drop m xs, hfront, hdrop, List.take_append_drop]

/-- The string `src` copied over the buffer from the offset on. -/
def splice {α : Type*} (buf : List α) (offset : ℕ) (src : List α) : List α :=
  buf.take offset ++ src ++ buf.drop (offset + src.length)

section Splice

variable {α : Type*} {buf src : List α} {offset : ℕ}

theorem splice_length (h : offset + src.length ≤ buf.length) :
    (splice buf offset src).length = buf.length := by
  simp only [splice, List.length_append, List.length_take, List.length_drop]
  omega

theorem splice_getElem?_inside (h : offset + src.length ≤ buf.length) {i : ℕ}
    (hi : i < src.length) : (splice buf offset src)[offset + i]? = src[i]? := by
  have ht : (buf.take offset).length = offset := by simp; omega
  rw [splice, List.append_assoc, List.getElem?_append_right (by omega), ht,
    Nat.add_sub_cancel_left, List.getElem?_append_left hi]

theorem splice_getElem?_outside (h : offset + src.length ≤ buf.length) {i : ℕ}
    (hi : i < offset ∨ offset + src.length ≤ i) : (splice buf offset src)[i]? = buf[i]? := by
  have ht : (buf.take offset).length = offset := by simp; omega
  rcases hi with hi | hi
  · rw [splice, List.append_assoc, List.getElem?_append_left (by omega),
      List.getElem?_take_of_lt hi]
  · rw [splice, List.getElem?_append_right (by simp; omega), List.getElem?_drop]
    congr 1
    simp only [List.length_append, ht]
    omega

theorem splice_zero : splice buf 0 src = src ++ buf.drop src.length := by
  simp [splice]

end Splice

/-- Big-endian fields of two, three and four bytes. -/
def be16 (x : BitVec 16) : List Byte := [x.extractLsb' 8 8, x.extractLsb' 0 8]

def be24 (x : BitVec 24) : List Byte :=
  [x.extractLsb' 16 8, x.extractLsb' 8 8, x.extractLsb' 0 8]

def be32 (x : BitVec 32) : List Byte :=
  [x.extractLsb' 24 8, x.extractLsb' 16 8, x.extractLsb' 8 8, x.extractLsb' 0 8]

@[simp] theorem be16_length (x : BitVec 16) : (be16 x).length = 2 := rfl

@[simp] theorem be24_length (x : BitVec 24) : (be24 x).length = 3 := rfl

@[simp] theorem be32_length (x : BitVec 32) : (be32 x).length = 4 := rfl

/-- The byte at a position, zero past the end. -/
def byteAt (xs : List Byte) (i : ℕ) : Byte := xs.getD i 0

def readBe16 (xs : List Byte) : BitVec 16 := byteAt xs 0 ++ byteAt xs 1

def readBe24 (xs : List Byte) : BitVec 24 := byteAt xs 0 ++ byteAt xs 1 ++ byteAt xs 2

def readBe32 (xs : List Byte) : BitVec 32 :=
  byteAt xs 0 ++ byteAt xs 1 ++ byteAt xs 2 ++ byteAt xs 3

theorem readBe16_be16 (x : BitVec 16) (xs : List Byte) : readBe16 (be16 x ++ xs) = x := by
  change x.extractLsb' 8 8 ++ x.extractLsb' 0 8 = x
  ext i hi
  simp only [BitVec.getElem_append, BitVec.getElem_extractLsb']
  split_ifs with h
  · simp [BitVec.getLsbD_eq_getElem hi]
  · rw [show 8 + (i - 8) = i by omega, BitVec.getLsbD_eq_getElem hi]

theorem readBe24_be24 (x : BitVec 24) (xs : List Byte) : readBe24 (be24 x ++ xs) = x := by
  change x.extractLsb' 16 8 ++ x.extractLsb' 8 8 ++ x.extractLsb' 0 8 = x
  ext i hi
  simp only [BitVec.getElem_append, BitVec.getElem_extractLsb']
  split_ifs with h h'
  · simp [BitVec.getLsbD_eq_getElem hi]
  · rw [show 8 + (i - 8) = i by omega, BitVec.getLsbD_eq_getElem hi]
  · rw [show 16 + (i - 8 - 8) = i by omega, BitVec.getLsbD_eq_getElem hi]

theorem readBe32_be32 (x : BitVec 32) (xs : List Byte) : readBe32 (be32 x ++ xs) = x := by
  change x.extractLsb' 24 8 ++ x.extractLsb' 16 8 ++ x.extractLsb' 8 8 ++ x.extractLsb' 0 8 = x
  ext i hi
  simp only [BitVec.getElem_append, BitVec.getElem_extractLsb']
  split_ifs with h h' h''
  · simp [BitVec.getLsbD_eq_getElem hi]
  · rw [show 8 + (i - 8) = i by omega, BitVec.getLsbD_eq_getElem hi]
  · rw [show 16 + (i - 8 - 8) = i by omega, BitVec.getLsbD_eq_getElem hi]
  · rw [show 24 + (i - 8 - 8 - 8) = i by omega, BitVec.getLsbD_eq_getElem hi]

theorem be16_readBe16 {xs : List Byte} (h : 2 ≤ xs.length) : be16 (readBe16 xs) = xs.take 2 := by
  match xs, h with
  | a :: b :: xs, _ =>
    change [(a ++ b).extractLsb' 8 8, (a ++ b).extractLsb' 0 8] = [a, b]
    rw [BitVec.extractLsb'_append_eq_left, BitVec.extractLsb'_append_eq_right]

end Meshx.Lib
