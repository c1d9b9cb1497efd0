import Mathlib

/-! Cyclic redundancy codes in a register of any width that takes in the bits of a message one
by one and shifts to the right. The register holds a polynomial over `ZMod 2` in reverse: its
lowest bit is the coefficient of the highest power. What it holds at the end is a remainder, and
so no change goes unseen that is as short as the register. -/
namespace Meshx.Lib.Crc

open Polynomial

variable {w : ℕ}

section Register

/-- The register takes in a bit. -/
def bitStep (poly c : BitVec w) (b : Bool) : BitVec w :=
  c >>> 1 ^^^ (if c.getLsbD 0 ^^ b then poly else 0)

/-- The register takes in the bits of a message. -/
def bitCrc (poly c : BitVec w) (bits : List Bool) : BitVec w := bits.foldl (bitStep poly) c

/-- The bits of a word, the lowest one first. -/
def wordBits {n : ℕ} (x : BitVec n) : List Bool := List.ofFn fun i : Fin n => x.getLsbD i

/-- The bits of a message of words, in the order in which the register takes them in. -/
def messageBits {n : ℕ} (words : List (BitVec n)) : List Bool := words.flatMap wordBits

/-- Two texts of one length that differ, and only within so many consecutive places. -/
def DifferWithin {α : Type*} (n : ℕ) (xs ys : List α) : Prop :=
  xs.length = ys.length ∧ xs ≠ ys ∧ ∃ k, ∀ i, xs[i]? ≠ ys[i]? → k ≤ i ∧ i < k + n

theorem length_wordBits {n : ℕ} (x : BitVec n) : (wordBits x).length = n := List.length_ofFn

theorem wordBits_injective {n : ℕ} : Function.Injective (@wordBits n) := by
  intro x y h
  exact BitVec.eq_of_getLsbD_eq fun i hi => congrFun (List.ofFn_injective h) ⟨i, hi⟩

theorem bitCrc_append (poly c : BitVec w) (xs ys : List Bool) :
    bitCrc poly c (xs ++ ys) = bitCrc poly (bitCrc poly c xs) ys := List.foldl_append

theorem messageBits_cons {n : ℕ} (x : BitVec n) (words : List (BitVec n)) :
    messageBits (x :: words) = wordBits x ++ messageBits words := List.flatMap_cons

theorem length_messageBits {n : ℕ} (words : List (BitVec n)) :
    (messageBits words).length = n * words.length := by
  induction words with
  | nil => rfl
  | cons x words ih =>
    rw [messageBits_cons, List.length_append, length_wordBits, ih, List.length_cons]
    ring

theorem messageBits_injective {n : ℕ} {xs ys : List (BitVec n)} (hlen : xs.length = ys.length)
    (h : messageBits xs = messageBits ys) : xs = ys := by
  induction xs generalizing ys with
  | nil => exact (List.length_eq_zero_iff.mp hlen.symm).symm
  | cons x xs ih =>
    cases ys with
    | nil => cases hlen
    | cons y ys =>
      rw [messageBits_cons, messageBits_cons] at h
      obtain ⟨hxy, hrest⟩ := List.append_inj h (by rw [length_wordBits, length_wordBits])
      rw [wordBits_injective hxy, ih (Nat.succ.inj hlen) hrest]

/-- Two texts that differ in few places are the same before and behind these. -/
theorem DifferWithin.split {α : Type*} {n : ℕ} {xs ys : List α} (h : DifferWithin n xs ys) :
    ∃ before a b behind, xs = before ++ (a ++ behind) ∧ ys = before ++ (b ++ behind) ∧
      a.length = b.length ∧ a.length ≤ n ∧ a ≠ b := by
  obtain ⟨hlen, hne, k, hk⟩ := h
  have hbefore : xs.take k = ys.take k := by
    refine List.ext_getElem? fun i => ?_
    rw [List.getElem?_take, List.getElem?_take]
    split_ifs with hi
    · by_contra hxy
      have := hk i hxy
      omega
    · rfl
  have hbehind : (xs.drop k).drop n = (ys.drop k).drop n := by
    refine List.ext_getElem? fun i => ?_
    simp only [List.getElem?_drop]
    by_contra hxy
    have := hk _ hxy
    omega
  have hx : xs = xs.take k ++ ((xs.drop k).take n ++ (xs.drop k).drop n) := by
    rw [List.take_append_drop, List.take_append_drop]
  have hy : ys = xs.take k ++ ((ys.drop k).take n ++ (xs.drop k).drop n) := by
    rw [hbefore, hbehind, List.take_append_drop, List.take_append_drop]
  refine ⟨_, _, _, _, hx, hy, by simp [hlen], List.length_take_le _ _, fun hab => hne ?_⟩
  rw [hx, hy, hab]

end Register

section Table

/-- The register takes in the first bits of a word: the same as when it already holds the word
and nothing comes in. -/
theorem bitCrc_take_wordBits (poly c b : BitVec w) (k : ℕ) (hk : k ≤ w) :
    bitCrc poly c ((wordBits b).take k) ^^^ b >>> k =
      bitCrc poly (c ^^^ b) (.replicate k false) := by
  induction k with
  | zero => simp [bitCrc]
  | succ k ih =>
    have hbit : (wordBits b)[k]? = some (b.getLsbD k) := by
      rw [wordBits, List.getElem?_ofFn, dif_pos (by omega : k < w)]
    rw [List.take_add_one, hbit, List.replicate_succ', bitCrc_append, bitCrc_append,
      ← ih (by omega)]
    change bitStep poly _ _ ^^^ _ = bitStep poly _ _
    rw [bitStep, bitStep, BitVec.ushiftRight_xor_distrib, ← BitVec.shiftRight_add,
      BitVec.getLsbD_xor, BitVec.getLsbD_ushiftRight, Bool.xor_false,
      BitVec.xor_assoc, BitVec.xor_assoc, BitVec.xor_comm (b >>> (k + 1))]
    rfl

/-- A word as wide as the register is taken in as a whole. -/
theorem bitCrc_wordBits (poly c b : BitVec w) :
    bitCrc poly c (wordBits b) = bitCrc poly (c ^^^ b) (.replicate w false) := by
  have h := bitCrc_take_wordBits poly c b w le_rfl
  rwa [List.take_of_length_le (length_wordBits b).le, BitVec.ushiftRight_eq_zero le_rfl,
    BitVec.xor_zero] at h

/-- A table of what becomes of each content of the register takes in a word at a time. -/
theorem foldl_table_eq_bitCrc {poly : BitVec w} {table : BitVec w → BitVec w}
    (htable : ∀ x, table x = bitCrc poly x (.replicate w false)) (c : BitVec w)
    (words : List (BitVec w)) :
    words.foldl (fun c b => table (c ^^^ b)) c = bitCrc poly c (messageBits words) := by
  induction words generalizing c with
  | nil => rfl
  | cons b words ih =>
    rw [List.foldl_cons, ih, htable, messageBits_cons, bitCrc_append, bitCrc_wordBits]

end Table

section Remainder

/-- The polynomial that a register holds. -/
noncomputable def toPoly (c : BitVec w) : (ZMod 2)[X] :=
  ofFn w fun i => ((c.getMsbD i).toNat : ZMod 2)

/-- The polynomial of a message: its first bit is the coefficient of the highest power. -/
noncomputable def bitsPoly (bits : List Bool) : (ZMod 2)[X] :=
  bits.foldl (fun p b => X * p + C (b.toNat : ZMod 2)) 0

/-- The polynomial that a register divides by. Its leading term is not in the register. -/
noncomputable def generator (poly : BitVec w) : (ZMod 2)[X] := X ^ w + toPoly poly

theorem toNat_xor (a b : Bool) : ((a ^^ b).toNat : ZMod 2) = a.toNat + b.toNat := by
  cases a <;> cases b <;> decide

theorem toNat_injective {a b : Bool} (h : (a.toNat : ZMod 2) = b.toNat) : a = b := by
  cases a <;> cases b <;> first | rfl | exact absurd h (by decide)

theorem coeff_toPoly (c : BitVec w) (i : ℕ) : (toPoly c).coeff i = (c.getMsbD i).toNat := by
  by_cases hi : i < w
  · exact ofFn_coeff_eq_val_of_lt _ hi
  · rw [toPoly, ofFn_coeff_eq_zero_of_ge _ (not_lt.mp hi), BitVec.getMsbD_of_ge _ _ (not_lt.mp hi)]
    rfl

theorem degree_toPoly_lt (c : BitVec w) : (toPoly c).degree < w := ofFn_degree_lt _

theorem toPoly_zero : toPoly (0 : BitVec w) = 0 := by
  ext i
  simp [coeff_toPoly]

theorem toPoly_xor (c d : BitVec w) : toPoly (c ^^^ d) = toPoly c + toPoly d := by
  ext i
  rw [coeff_add, coeff_toPoly, coeff_toPoly, coeff_toPoly, BitVec.getMsbD_xor, toNat_xor]

theorem toPoly_ite (poly : BitVec w) (b : Bool) :
    toPoly (if b then poly else 0) = C (b.toNat : ZMod 2) * toPoly poly := by
  cases b
  · rw [if_neg Bool.false_ne_true, toPoly_zero]
    simp
  · simp

/-- A shift to the right is a multiplication with `X`, less the term that leaves the register. -/
theorem toPoly_shift (c : BitVec w) (hw : 0 < w) :
    X * toPoly c = toPoly (c >>> 1) + C ((c.getLsbD 0).toNat : ZMod 2) * X ^ w := by
  ext i
  rw [coeff_add, coeff_C_mul, coeff_X_pow, coeff_toPoly, BitVec.getMsbD_ushiftRight,
    BitVec.getLsbD_eq_getMsbD]
  rcases i with _ | i
  · rw [coeff_X_mul_zero, if_neg (by omega : ¬ 0 = w)]
    simp
  · rw [coeff_X_mul, coeff_toPoly]
    rcases lt_trichotomy (i + 1) w with hi | rfl | hi
    · rw [if_neg (by omega : ¬ i + 1 = w)]
      simp [hi]
    · simp
    · rw [if_neg (by omega : ¬ i + 1 = w), BitVec.getMsbD_of_ge _ _ (by omega : w ≤ i)]
      simp [show ¬ i + 1 < w by omega]

theorem monic_generator (poly : BitVec w) : (generator poly).Monic :=
  monic_X_pow_add (degree_toPoly_lt poly)

theorem degree_generator (poly : BitVec w) : (generator poly).degree = w := by
  have hlt : (toPoly poly).degree < (X ^ w : (ZMod 2)[X]).degree := by
    rw [degree_X_pow]
    exact degree_toPoly_lt poly
  rw [generator, degree_add_eq_left_of_degree_lt hlt, degree_X_pow]

theorem toPoly_bitStep (poly c : BitVec w) (b : Bool) (hw : 0 < w) :
    X * toPoly c + X ^ w * C (b.toNat : ZMod 2) =
      toPoly (bitStep poly c b) +
        generator poly * C ((c.getLsbD 0 ^^ b).toNat : ZMod 2) := by
  rw [bitStep, toPoly_xor, toPoly_ite, toPoly_shift c hw, generator, toNat_xor, C_add]
  linear_combination (-(C ((c.getLsbD 0).toNat : ZMod 2) + C (b.toNat : ZMod 2)) * toPoly poly) *
    (CharTwo.two_eq_zero : (2 : (ZMod 2)[X]) = 0)

theorem bitsPoly_append_singleton (bits : List Bool) (b : Bool) :
    bitsPoly (bits ++ [b]) = X * bitsPoly bits + C (b.toNat : ZMod 2) := by
  rw [bitsPoly, List.foldl_append]
  rfl

theorem bitsPoly_append (xs ys : List Bool) :
    bitsPoly (xs ++ ys) = X ^ ys.length * bitsPoly xs + bitsPoly ys := by
  induction ys using List.reverseRecOn with
  | nil => simp [bitsPoly]
  | append_singleton ys b ih =>
    rw [← List.append_assoc, bitsPoly_append_singleton, ih, bitsPoly_append_singleton,
      List.length_append, List.length_singleton]
    ring

theorem degree_bitsPoly_lt (bits : List Bool) : (bitsPoly bits).degree < bits.length := by
  induction bits using List.reverseRecOn with
  | nil => simp [bitsPoly]
  | append_singleton bits b ih =>
    rw [bitsPoly_append_singleton, List.length_append, List.length_singleton,
      degree_lt_iff_coeff_zero]
    rw [degree_lt_iff_coeff_zero] at ih
    intro i hi
    obtain ⟨i, rfl⟩ : ∃ j, i = j + 1 := ⟨i - 1, by omega⟩
    rw [coeff_add, coeff_X_mul, coeff_C_succ, ih i (by omega), add_zero]

theorem bitsPoly_injective {xs ys : List Bool} (hlen : xs.length = ys.length)
    (h : bitsPoly xs = bitsPoly ys) : xs = ys := by
  induction xs using List.reverseRecOn generalizing ys with
  | nil => exact (List.length_eq_zero_iff.mp hlen.symm).symm
  | append_singleton xs a ih =>
    rcases List.eq_nil_or_concat ys with rfl | ⟨ys, b, rfl⟩
    · simp at hlen
    · rw [List.concat_eq_append] at h hlen ⊢
      rw [bitsPoly_append_singleton, bitsPoly_append_singleton] at h
      -- the last bit is the constant term, the others are the quotient by `X`
      have hlast : a = b := toNat_injective (by simpa using congrArg (coeff · 0) h)
      have hrest : bitsPoly xs = bitsPoly ys := by
        ext i
        simpa using congrArg (coeff · (i + 1)) h
      rw [hlast, ih (by simpa using hlen) hrest]

/-- The register holds what is left of the message, and of what it held before, when multiples
of the generator are taken away. -/
theorem generator_dvd (poly c : BitVec w) (bits : List Bool) (hw : 0 < w) :
    generator poly ∣
      X ^ bits.length * toPoly c + X ^ w * bitsPoly bits - toPoly (bitCrc poly c bits) := by
  induction bits using List.reverseRecOn with
  | nil => simp [bitsPoly, bitCrc]
  | append_singleton bits b ih =>
    obtain ⟨q, hq⟩ := ih
    refine ⟨X * q + C (((bitCrc poly c bits).getLsbD 0 ^^ b).toNat : ZMod 2), ?_⟩
    have hstep := toPoly_bitStep poly (bitCrc poly c bits) b hw
    rw [bitsPoly_append_singleton, bitCrc_append, List.length_append, List.length_singleton]
    change _ - toPoly (bitStep poly (bitCrc poly c bits) b) = _
    linear_combination X * hq + hstep

/-- The register holds the remainder of the message. -/
theorem toPoly_bitCrc (poly c : BitVec w) (bits : List Bool) (hw : 0 < w) :
    toPoly (bitCrc poly c bits) =
      (X ^ bits.length * toPoly c + X ^ w * bitsPoly bits) %ₘ generator poly := by
  rw [modByMonic_eq_of_dvd_sub (monic_generator poly) (generator_dvd poly c bits hw)]
  refine ((modByMonic_eq_self_iff (monic_generator poly)).mpr ?_).symm
  rw [degree_generator]
  exact degree_toPoly_lt _

theorem pos_of_msb {c : BitVec w} (h : c.msb = true) : 0 < w := by
  rcases Nat.eq_zero_or_pos w with rfl | hw
  · rw [Subsingleton.elim c 0] at h
    cases h
  · exact hw

/-- The generator has a constant term, hence no factor `X`. -/
theorem isCoprime_generator_X (poly : BitVec w) (hpoly : poly.msb = true) :
    IsCoprime (generator poly) X := by
  have hconst : (generator poly).coeff 0 = 1 := by
    rw [generator, coeff_add, coeff_X_pow, coeff_toPoly, ← BitVec.msb_eq_getMsbD_zero, hpoly,
      if_neg (pos_of_msb hpoly).ne]
    rfl
  refine ⟨1, -divX (generator poly), ?_⟩
  have hdiv := divX_mul_X_add (generator poly)
  rw [hconst, C_1] at hdiv
  linear_combination -hdiv

/-- Two messages that the register does not tell apart differ by a multiple of the generator. -/
theorem generator_dvd_of_bitCrc_eq (poly c : BitVec w) {xs ys : List Bool}
    (hpoly : poly.msb = true) (hlen : xs.length = ys.length)
    (h : bitCrc poly c xs = bitCrc poly c ys) :
    generator poly ∣ bitsPoly xs - bitsPoly ys := by
  have hx := generator_dvd poly c xs (pos_of_msb hpoly)
  have hy := generator_dvd poly c ys (pos_of_msb hpoly)
  rw [h, hlen] at hx
  have hdiff := dvd_sub hx hy
  have hmul : generator poly ∣ X ^ w * (bitsPoly xs - bitsPoly ys) := by
    convert hdiff using 1
    ring
  exact (isCoprime_generator_X poly hpoly).pow_right.dvd_of_dvd_mul_left hmul

/-- No change goes unseen that is as short as the register. -/
theorem bitCrc_ne_of_differWithin (poly c : BitVec w) {xs ys : List Bool}
    (hpoly : poly.msb = true) (h : DifferWithin w xs ys) :
    bitCrc poly c xs ≠ bitCrc poly c ys := by
  intro heq
  obtain ⟨before, a, b, behind, rfl, rfl, hlen, hshort, hne⟩ := h.split
  have hdvd := generator_dvd_of_bitCrc_eq poly c hpoly h.1 heq
  have hshift : bitsPoly (before ++ (a ++ behind)) - bitsPoly (before ++ (b ++ behind)) =
      X ^ behind.length * (bitsPoly a - bitsPoly b) := by
    rw [bitsPoly_append before, bitsPoly_append before, bitsPoly_append a, bitsPoly_append b,
      List.length_append, List.length_append, hlen]
    ring
  rw [hshift] at hdvd
  have hab := (isCoprime_generator_X poly hpoly).pow_right.dvd_of_dvd_mul_left hdvd
  refine hne (bitsPoly_injective hlen (sub_eq_zero.mp ?_))
  refine eq_zero_of_dvd_of_degree_lt hab ?_
  rw [degree_generator]
  refine (degree_sub_le _ _).trans_lt (max_lt ?_ ?_)
  · exact (degree_bitsPoly_lt a).trans_le (by exact_mod_cast hshort)
  · exact (degree_bitsPoly_lt b).trans_le (by exact_mod_cast hlen ▸ hshort)

end Remainder

end Meshx.Lib.Crc
