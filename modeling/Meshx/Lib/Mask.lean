import Mathlib

/-! Bit masks as sets of bit numbers: single bits, setting and clearing a bit, and the mask
of the lowest bits. -/
namespace Meshx.Lib

variable {w : ℕ}

/-- The mask with the one bit `i`. -/
def bit (w i : ℕ) : BitVec w := 1#w <<< i

/-- The mask with the bits below `n` set in addition, one after the other. -/
def setBits (m : BitVec w) : ℕ → BitVec w
  | 0 => m
  | n + 1 => setBits m n ||| bit w n

/-- The mask of the bits below `n`. -/
def lowBits (w n : ℕ) : BitVec w := setBits 0 n

theorem getLsbD_bit {i j : ℕ} (hj : j < w) : (bit w i).getLsbD j = decide (i = j) := by
  rw [bit, BitVec.getLsbD_shiftLeft]
  by_cases hij : i = j
  · subst hij
    simp [hj, Nat.lt_of_le_of_lt (Nat.zero_le _) hj]
  · by_cases hlt : j < i
    · simp [hlt, hij]
    · have hne : j - i ≠ 0 := by omega
      simp [hlt, hij, BitVec.getLsbD_one, hne]

theorem getLsbD_setBits (m : BitVec w) (n : ℕ) {j : ℕ} (hj : j < w) :
    (setBits m n).getLsbD j = (m.getLsbD j || decide (j < n)) := by
  induction n with
  | zero => simp [setBits]
  | succ n ih =>
    rw [setBits, BitVec.getLsbD_or, ih, getLsbD_bit hj, Bool.or_assoc]
    congr 1
    by_cases h : j < n
    · simp [h, Nat.lt_succ_of_lt h]
    · by_cases hn : n = j
      · simp [hn]
      · have : ¬ j < n + 1 := by omega
        simp [h, hn, this]

theorem getLsbD_lowBits (n : ℕ) {j : ℕ} (hj : j < w) :
    (lowBits w n).getLsbD j = decide (j < n) := by
  rw [lowBits, getLsbD_setBits _ _ hj]
  simp

theorem mask_ext {m m' : BitVec w} (h : ∀ j < w, m.getLsbD j = m'.getLsbD j) : m = m' :=
  BitVec.eq_of_getLsbD_eq h

/-- A bit of a mask as the C code tests it. -/
theorem and_bit_eq_zero (m : BitVec w) {i : ℕ} (hi : i < w) :
    m &&& bit w i = 0 ↔ m.getLsbD i = false := by
  constructor
  · intro h
    have hb := congrArg (·.getLsbD i) h
    simpa [getLsbD_bit hi] using hb
  · intro h
    refine mask_ext fun j hj => ?_
    rw [BitVec.getLsbD_and, getLsbD_bit hj]
    by_cases hij : i = j
    · subst hij; simp [h]
    · simp [hij]

theorem getLsbD_clear (m : BitVec w) (i : ℕ) {j : ℕ} (hj : j < w) :
    (m &&& ~~~bit w i).getLsbD j = (m.getLsbD j && decide (i ≠ j)) := by
  rw [BitVec.getLsbD_and, BitVec.getLsbD_not, getLsbD_bit hj]
  simp [hj]

theorem getLsbD_set (m : BitVec w) (i : ℕ) {j : ℕ} (hj : j < w) :
    (m ||| bit w i).getLsbD j = (m.getLsbD j || decide (i = j)) := by
  rw [BitVec.getLsbD_or, getLsbD_bit hj]

/-- A mask has the one bit `i` if it has this bit, and none when the bit is cleared. -/
theorem eq_bit_iff (m : BitVec w) {i : ℕ} (hi : i < w) :
    m = bit w i ↔ m.getLsbD i = true ∧ m &&& ~~~bit w i = 0 := by
  constructor
  · rintro rfl
    refine ⟨by rw [getLsbD_bit hi, decide_eq_true rfl], mask_ext fun j hj => ?_⟩
    rw [getLsbD_clear _ _ hj, getLsbD_bit hj, BitVec.ofNat_eq_ofNat, BitVec.getLsbD_zero]
    by_cases hij : i = j <;> simp [hij]
  · rintro ⟨hbit, hclear⟩
    refine mask_ext fun j hj => ?_
    rw [getLsbD_bit hj]
    by_cases hij : i = j
    · rw [← hij, hbit, decide_eq_true rfl]
    · have hj' := getLsbD_clear m i hj
      rw [hclear, BitVec.ofNat_eq_ofNat, BitVec.getLsbD_zero, decide_eq_true hij,
        Bool.and_true] at hj'
      rw [← hj', decide_eq_false hij]

end Meshx.Lib
