import Meshx.Lib.Bytes

/-! A text cut into pieces at given offsets and put together again in a buffer, in any order
and with repetitions. -/
namespace Meshx.Lib

variable {α : Type*} (text : List α) (offset : ℕ → ℕ)

/-- The piece from one offset to the next, or to the end of the text. -/
def piece (i : ℕ) : List α := (text.drop (offset i)).take (offset (i + 1) - offset i)

/-- The buffer holds the piece at its place. -/
def HoldsPiece (buf : List α) (i : ℕ) : Prop :=
  ∀ j, offset i ≤ j → j < offset (i + 1) → j < text.length → buf[j]? = text[j]?

variable {text offset} {buf : List α} {i k n : ℕ}

theorem piece_length (i : ℕ) :
    (piece text offset i).length = min (offset (i + 1) - offset i) (text.length - offset i) := by
  simp [piece]

theorem piece_getElem? {j : ℕ} (h : offset i ≤ j) (hj : j < offset (i + 1)) :
    (piece text offset i)[j - offset i]? = text[j]? := by
  rw [piece, List.getElem?_take_of_lt (by omega), List.getElem?_drop]
  congr 1
  omega

theorem holdsPiece_splice (h : offset i + (piece text offset i).length ≤ buf.length) :
    HoldsPiece text offset (splice buf (offset i) (piece text offset i)) i := by
  intro j hij hj hlen
  have hin : j - offset i < (piece text offset i).length := by
    rw [piece_length]
    omega
  have hcopied := splice_getElem?_inside h hin
  rw [piece_getElem? hij hj] at hcopied
  rwa [show offset i + (j - offset i) = j by omega] at hcopied

theorem HoldsPiece.splice (hmono : Monotone offset) (hne : i ≠ k)
    (h : offset i + (piece text offset i).length ≤ buf.length) (hk : HoldsPiece text offset buf k) :
    HoldsPiece text offset (splice buf (offset i) (piece text offset i)) k := by
  intro j hkj hj hlen
  rw [splice_getElem?_outside h]
  · exact hk j hkj hj hlen
  · have hsize := @piece_length _ text offset i
    rcases Nat.lt_or_gt_of_ne hne with hlt | hgt
    · have hle : offset (i + 1) ≤ offset k := hmono hlt
      omega
    · have hle : offset (k + 1) ≤ offset i := hmono hgt
      omega

theorem exists_piece (h0 : offset 0 = 0) {j : ℕ} (hj : j < offset n) :
    ∃ i < n, offset i ≤ j ∧ j < offset (i + 1) := by
  induction n with
  | zero => omega
  | succ n ih =>
    by_cases hn : j < offset n
    · obtain ⟨i, hi, hij⟩ := ih hn
      exact ⟨i, by omega, hij⟩
    · exact ⟨n, by omega, by omega, hj⟩

/-- The lengths of the pieces add up to that of the text. -/
theorem sum_piece_length (h0 : offset 0 = 0) (hmono : Monotone offset) (n : ℕ) :
    ∑ i ∈ Finset.range n, (piece text offset i).length = min (offset n) text.length := by
  induction n with
  | zero => simp [h0]
  | succ n ih =>
    have hle : offset n ≤ offset (n + 1) := hmono n.le_succ
    rw [Finset.sum_range_succ, ih, piece_length]
    omega

theorem take_eq_of_holdsPiece (h0 : offset 0 = 0) (hn : text.length ≤ offset n)
    (hall : ∀ i < n, HoldsPiece text offset buf i) : buf.take text.length = text := by
  refine List.ext_getElem? fun j => ?_
  by_cases hj : j < text.length
  · obtain ⟨i, hi, hij, hji⟩ := exists_piece h0 (Nat.lt_of_lt_of_le hj hn)
    rw [List.getElem?_take_of_lt hj]
    exact hall i hi j hij hji hj
  · rw [List.getElem?_eq_none (by simp; omega), List.getElem?_eq_none (by omega)]

end Meshx.Lib
