import Meshx.Security
import Meshx.Lib.Cbc
import Meshx.Lib.Crc

/-! AES-CMAC as a chain over the blocks of its message, with a last block that is masked by a
subkey. The subkeys are the encrypted zero block times `X` and times `X ^ 2`. -/
namespace Meshx.Security

open Lib AesCcm Crc Polynomial

/-- The last block of a message as it is added to the chain. -/
def lastBlock (subkeys : List Byte × List Byte) (last : List Byte) : List Byte :=
  if last.length = 16 then xorBytes last subkeys.1 else xorBytes (padding last) subkeys.2

def cmacBlocks (subkeys : List Byte × List Byte) (input : List Byte) : List (List Byte) :=
  let whole := 16 * ((input.length - 1) / 16)
  cut 16 (input.take whole) ++ [lastBlock subkeys (input.drop whole)]

variable {aes : Aes128} {key : Key} {x input pre b c post : List Byte}
  {subkeys : List Byte × List Byte}

section Lengths

theorem leftshiftOnebit_length (xs : List Byte) : (leftshiftOnebit xs).length = xs.length := by
  induction xs with
  | nil => rfl
  | cons b bs ih => simp [leftshiftOnebit, ih]

theorem double_length (h : x.length = 16) : (double x).length = 16 := by
  unfold double
  split_ifs
  · rw [xorBytes_length, leftshiftOnebit_length, h]
    rfl
  · rw [leftshiftOnebit_length, h]

theorem generateSubkey_length (aes : Aes128) (key : Key) :
    (generateSubkey aes key).1.length = 16 ∧ (generateSubkey aes key).2.length = 16 :=
  ⟨double_length (aes.encrypt_length _ _), double_length (double_length (aes.encrypt_length _ _))⟩

theorem padding_length (h : x.length < 16) : (padding x).length = 16 := by
  simp only [padding, List.length_append, List.length_replicate, List.length_singleton]
  omega

/-- The padding ends in a one bit and zeros, which tell where the block ends. -/
theorem padding_inj (hb : b.length < 16) (hc : c.length < 16) : padding b = padding c ↔ b = c := by
  refine ⟨fun h => ?_, fun h => h ▸ rfl⟩
  have hlen {xs ys : List Byte} (hlt : xs.length < ys.length) (hys : ys.length < 16) :
      padding xs ≠ padding ys := by
    intro h
    have hone := congrArg (·[ys.length]?) h
    simp only [padding] at hone
    rw [List.getElem?_append_right (by simp; omega), List.append_assoc,
      List.getElem?_append_right le_rfl] at hone
    simp only [List.length_append, List.length_singleton, Nat.sub_self, List.singleton_append,
      List.getElem?_cons_zero] at hone
    rw [List.getElem?_replicate_of_lt (by omega)] at hone
    exact absurd (Option.some.inj hone) (by decide)
  rcases lt_trichotomy b.length c.length with hlt | heq | hgt
  · exact absurd h (hlen hlt hc)
  · simp only [padding, List.append_assoc] at h
    exact List.append_inj_left h heq
  · exact absurd h.symm (hlen hgt hb)

theorem lastBlock_length (hk : subkeys.1.length = 16 ∧ subkeys.2.length = 16)
    (hle : x.length ≤ 16) : (lastBlock subkeys x).length = 16 := by
  unfold lastBlock
  split_ifs with h
  · rw [xorBytes_length, h, hk.1]
    rfl
  · rw [xorBytes_length, padding_length (by omega), hk.2]
    rfl

end Lengths

section Blocks

theorem cmacRounds_eq_cbc {n : ℕ} (h : 16 * n ≤ input.length) :
    cmacRounds aes key n x input = cbc (aes.encrypt key) x (cut 16 (input.take (16 * n))) := by
  induction n generalizing x input with
  | zero => simp [cmacRounds]
  | succ n ih =>
    have hne : input.take (16 * (n + 1)) ≠ [] := by
      intro hnil
      have hlen := congrArg List.length hnil
      rw [List.length_take, List.length_nil] at hlen
      omega
    rw [cmacRounds, ih (by rw [List.length_drop]; omega), cut_cons (by decide) hne, cbc_cons,
      List.take_take, List.drop_take, Nat.min_eq_left (by omega)]
    congr 4

theorem aesCmac_eq_cbc (aes : Aes128) (key : Key) (input : List Byte) :
    aesCmac aes key input = cbc (aes.encrypt key) (List.replicate 16 0)
      (cmacBlocks (generateSubkey aes key) input) := by
  have hn : max 1 ((input.length + 15) / 16) - 1 = (input.length - 1) / 16 := by omega
  have hlast : (0 < input.length ∧ input.length % 16 = 0) ↔
      (input.drop (16 * ((input.length - 1) / 16))).length = 16 := by
    rw [List.length_drop]
    omega
  simp only [aesCmac, hn, hlast]
  rw [cmacBlocks, cbc_append, cmacRounds_eq_cbc (by omega)]
  rfl

/-- Whole blocks before something else. -/
theorem cmacBlocks_append (hpre : 16 ∣ pre.length) (hpost : post ≠ []) :
    cmacBlocks subkeys (pre ++ post) = cut 16 pre ++ cmacBlocks subkeys post := by
  obtain ⟨k, hk⟩ := hpre
  have hpos : 0 < post.length := List.length_pos_iff.mpr hpost
  have hwhole : 16 * (((pre ++ post).length - 1) / 16) =
      pre.length + 16 * ((post.length - 1) / 16) := by
    rw [List.length_append]
    omega
  simp only [cmacBlocks]
  rw [hwhole, List.take_length_add_append, List.drop_length_add_append,
    cut_append (by decide) ⟨k, hk⟩, List.append_assoc]

theorem cmacBlocks_last (h : input.length ≤ 16) :
    cmacBlocks subkeys input = [lastBlock subkeys input] := by
  rw [cmacBlocks, show (input.length - 1) / 16 = 0 by omega]
  simp

theorem length_of_mem_cmacBlocks (hk : subkeys.1.length = 16 ∧ subkeys.2.length = 16) :
    ∀ b ∈ cmacBlocks subkeys input, b.length = 16 := by
  intro b hb
  rcases List.mem_append.mp hb with hb | hb
  · refine length_of_mem_cut (by decide) ?_ b hb
    rw [List.length_take, Nat.min_eq_left (by omega)]
    exact Nat.dvd_mul_right 16 _
  · rw [List.mem_singleton.mp hb]
    exact lastBlock_length hk (by rw [List.length_drop]; omega)

end Blocks

/-- One block in place of another: a whole one anywhere, or one that is not whole at the end. -/
def Replaces (b c post : List Byte) : Prop :=
  b.length = 16 ∧ c.length = 16 ∨
    post = [] ∧ (0 < b.length ∧ b.length < 16) ∧ 0 < c.length ∧ c.length < 16

/-- The chains of two messages that differ in one block. -/
theorem cmacBlocks_replaces (hk : subkeys.1.length = 16 ∧ subkeys.2.length = 16)
    (hpre : 16 ∣ pre.length) (hbc : Replaces b c post) :
    ∃ bs x y cs, cmacBlocks subkeys (pre ++ (b ++ post)) = bs ++ x :: cs ∧
      cmacBlocks subkeys (pre ++ (c ++ post)) = bs ++ y :: cs ∧ x.length = 16 ∧ y.length = 16 ∧
      (∀ z ∈ bs, z.length = 16) ∧ (∀ z ∈ cs, z.length = 16) ∧ (x = y ↔ b = c) := by
  have hbs := @length_of_mem_cut _ 16 pre (by decide) hpre
  have hne {d : List Byte} (hd : 0 < d.length) : d ++ post ≠ [] :=
    List.append_ne_nil_of_left_ne_nil (List.length_pos_iff.mp hd) post
  rcases hbc with ⟨hb, hc⟩ | ⟨rfl, ⟨hb, hb'⟩, hc, hc'⟩
  · rw [cmacBlocks_append hpre (hne (by omega)), cmacBlocks_append hpre (hne (by omega))]
    by_cases hpost : post = []
    · subst hpost
      refine ⟨cut 16 pre, lastBlock subkeys b, lastBlock subkeys c, [], ?_, ?_,
        lastBlock_length hk hb.le, lastBlock_length hk hc.le, hbs, by simp, ?_⟩
      · rw [List.append_nil, cmacBlocks_last hb.le]
      · rw [List.append_nil, cmacBlocks_last hc.le]
      · rw [lastBlock, lastBlock, if_pos hb, if_pos hc]
        exact xorBytes_inj (hb.trans hk.1.symm).le (hc.trans hk.1.symm).le
    · have hwhole {d : List Byte} (hd : d.length = 16) :
          cmacBlocks subkeys (d ++ post) = d :: cmacBlocks subkeys post := by
        have hdne : d ≠ [] := List.length_pos_iff.mp (by omega)
        rw [cmacBlocks_append (by rw [hd]) hpost, cut_singleton hdne hd.le, List.singleton_append]
      exact ⟨cut 16 pre, b, c, cmacBlocks subkeys post, by rw [hwhole hb], by rw [hwhole hc],
        hb, hc, hbs, length_of_mem_cmacBlocks hk, Iff.rfl⟩
  · rw [cmacBlocks_append hpre (hne hb), cmacBlocks_append hpre (hne hc), List.append_nil,
      List.append_nil, cmacBlocks_last hb'.le, cmacBlocks_last hc'.le]
    refine ⟨cut 16 pre, _, _, [], rfl, rfl, lastBlock_length hk hb'.le, lastBlock_length hk hc'.le,
      hbs, by simp, ?_⟩
    rw [lastBlock, lastBlock, if_neg hb'.ne, if_neg hc'.ne, xorBytes_inj, padding_inj hb' hc']
    · rw [padding_length hb', hk.2]
    · rw [padding_length hc', hk.2]

/-- A key under which the block function loses nothing. -/
def Lossless (aes : Aes128) (key : Key) : Prop :=
  Set.InjOn (aes.encrypt key) {block | block.length = 16}

/-- Messages that differ in one block have different codes. -/
theorem aesCmac_replaces (hinj : Lossless aes key) (hpre : 16 ∣ pre.length)
    (hbc : Replaces b c post) :
    aesCmac aes key (pre ++ (b ++ post)) = aesCmac aes key (pre ++ (c ++ post)) ↔ b = c := by
  obtain ⟨bs, x, y, cs, hb, hc, hx, hy, hbs, hcs, hiff⟩ :=
    @cmacBlocks_replaces pre b c post _ (generateSubkey_length aes key) hpre hbc
  rw [aesCmac_eq_cbc, aesCmac_eq_cbc, hb, hc, ← hiff]
  exact cbc_block_inj hinj (fun _ _ => aes.encrypt_length _ _) (List.length_replicate) hx hy hbs hcs

section Polynomials

/-- The bits of a byte from the most significant one on. -/
def msbBits (b : Byte) : List Bool := List.ofFn fun i : Fin 8 => b.getMsbD i

/-- A string as a polynomial, its first bit the coefficient of the highest power. -/
noncomputable def bytesPoly (xs : List Byte) : (ZMod 2)[X] := bitsPoly (xs.flatMap msbBits)

/-- The polynomial that blocks of `n` bits are multiplied modulo. -/
noncomputable def modulus (n : ℕ) : (ZMod 2)[X] := X ^ n + (X ^ 7 + X ^ 2 + X + 1)

theorem msbBits_shift : ∀ (b : Byte) (overflow : Bool),
    msbBits (b <<< 1 ||| BitVec.ofNat 8 overflow.toNat) = (msbBits b).tail ++ [overflow] := by
  decide

theorem msbBits_xor (b c : Byte) :
    msbBits (b ^^^ c) = List.zipWith (· ^^ ·) (msbBits b) (msbBits c) := by
  refine List.ext_getElem (by simp [msbBits]) fun i _ _ => ?_
  simp [msbBits]

theorem length_bits (xs : List Byte) : (xs.flatMap msbBits).length = 8 * xs.length := by
  induction xs with
  | nil => rfl
  | cons b xs ih =>
    rw [List.flatMap_cons, List.length_append, ih, List.length_cons, msbBits, List.length_ofFn]
    ring

theorem bits_xorBytes (xs ys : List Byte) : (xorBytes xs ys).flatMap msbBits =
    List.zipWith (· ^^ ·) (xs.flatMap msbBits) (ys.flatMap msbBits) := by
  induction xs generalizing ys with
  | nil => simp [xorBytes]
  | cons x xs ih =>
    cases ys with
    | nil => simp [xorBytes]
    | cons y ys =>
      have hxy : xorBytes (x :: xs) (y :: ys) = (x ^^^ y) :: xorBytes xs ys := rfl
      rw [hxy, List.flatMap_cons, ih, msbBits_xor, List.flatMap_cons, List.flatMap_cons,
        List.zipWith_append (by simp [msbBits])]

theorem bitsPoly_zipWith {xs ys : List Bool} (h : xs.length = ys.length) :
    bitsPoly (List.zipWith (· ^^ ·) xs ys) = bitsPoly xs + bitsPoly ys := by
  induction xs using List.reverseRecOn generalizing ys with
  | nil => simp [List.length_eq_zero_iff.mp h.symm, bitsPoly]
  | append_singleton xs a ih =>
    rcases List.eq_nil_or_concat ys with rfl | ⟨ys, b, rfl⟩
    · simp at h
    · rw [List.concat_eq_append] at h ⊢
      have hlen : xs.length = ys.length := by simpa using h
      rw [List.zipWith_append hlen, List.zipWith_cons_cons, List.zipWith_nil_left,
        bitsPoly_append_singleton, bitsPoly_append_singleton, bitsPoly_append_singleton, ih hlen,
        toNat_xor, C_add]
      ring

theorem bytesPoly_xorBytes {xs ys : List Byte} (h : xs.length = ys.length) :
    bytesPoly (xorBytes xs ys) = bytesPoly xs + bytesPoly ys := by
  rw [bytesPoly, bits_xorBytes, bitsPoly_zipWith (by rw [length_bits, length_bits, h])]
  rfl

/-- A shift by one bit, the lowest bit of which is zero. -/
theorem bits_leftshiftOnebit (xs : List Byte) :
    (leftshiftOnebit xs).flatMap msbBits = (xs.flatMap msbBits ++ [false]).drop 1 := by
  induction xs with
  | nil => rfl
  | cons b xs ih =>
    have hhead : (xs.headD 0).msb :: (xs.flatMap msbBits ++ [false]).drop 1 =
        xs.flatMap msbBits ++ [false] := by
      cases xs with
      | nil => rfl
      | cons c xs => simp [msbBits, List.ofFn_succ, BitVec.msb_eq_getMsbD_zero]
    have hdrop : (msbBits b ++ (xs.flatMap msbBits ++ [false])).drop 1 =
        (msbBits b).tail ++ (xs.flatMap msbBits ++ [false]) := by
      simp [msbBits, List.ofFn_succ]
    rw [leftshiftOnebit, List.flatMap_cons, msbBits_shift, ih, List.flatMap_cons, List.append_assoc,
      List.append_assoc, hdrop, List.singleton_append, hhead]

/-- The bit that leaves the block is the coefficient of `X ^ 128`. -/
theorem bytesPoly_leftshiftOnebit (h : x.length = 16) : X * bytesPoly x =
    bytesPoly (leftshiftOnebit x) + C ((x.headD 0).msb.toNat : ZMod 2) * X ^ 128 := by
  have hhead : x.flatMap msbBits = (x.headD 0).msb :: (x.flatMap msbBits).drop 1 := by
    cases x with
    | nil => cases h
    | cons b x => simp [msbBits, List.ofFn_succ, BitVec.msb_eq_getMsbD_zero]
  have hlen : ((x.flatMap msbBits).drop 1 ++ [false]).length = 128 := by
    rw [List.length_append, List.length_drop, length_bits, h]
    rfl
  have hshift : (leftshiftOnebit x).flatMap msbBits = (x.flatMap msbBits).drop 1 ++ [false] := by
    rw [bits_leftshiftOnebit, List.drop_append_of_le_length (by rw [length_bits]; omega)]
  have hbits : bitsPoly (x.flatMap msbBits ++ [false]) =
      X ^ 128 * C ((x.headD 0).msb.toNat : ZMod 2) + bytesPoly (leftshiftOnebit x) := by
    conv_lhs => rw [hhead]
    rw [← hlen, bytesPoly, hshift, List.cons_append, ← List.singleton_append, bitsPoly_append]
    simp [bitsPoly]
  rw [bitsPoly_append_singleton] at hbits
  have hzero : C ((false.toNat : ℕ) : ZMod 2) = 0 := by simp
  rw [hzero, add_zero] at hbits
  rw [bytesPoly, hbits]
  ring

theorem bitsPoly_replicate_false (n : ℕ) : bitsPoly (List.replicate n false) = 0 := by
  induction n with
  | zero => rfl
  | succ n ih => rw [List.replicate_succ', bitsPoly_append_singleton, ih]; simp

theorem bytesPoly_constRb : bytesPoly constRb = X ^ 7 + X ^ 2 + X + 1 := by
  have hbits : constRb.flatMap msbBits = List.replicate 120 false ++
      [true, false, false, false, false, true, true, true] := by decide
  rw [bytesPoly, hbits, bitsPoly_append, bitsPoly_replicate_false]
  simp only [bitsPoly, List.foldl_cons, List.foldl_nil, Bool.toNat_true, Bool.toNat_false,
    Nat.cast_one, Nat.cast_zero, C_1, C_0]
  ring

theorem degree_constRb :
    (X ^ 7 + X ^ 2 + X + 1 : (ZMod 2)[X]).degree < ((128 : ℕ) : WithBot ℕ) := by
  rw [← bytesPoly_constRb]
  exact degree_bitsPoly_lt (constRb.flatMap msbBits)

section Modulus

variable {n : ℕ} (h : (X ^ 7 + X ^ 2 + X + 1 : (ZMod 2)[X]).degree < n)

include h

theorem modulus_monic : (modulus n).Monic := monic_X_pow_add h

theorem degree_modulus : (modulus n).degree = (n : WithBot ℕ) := by
  have hlt : (X ^ 7 + X ^ 2 + X + 1 : (ZMod 2)[X]).degree < (X ^ n : (ZMod 2)[X]).degree := by
    rwa [degree_X_pow]
  rw [modulus, degree_add_eq_left_of_degree_lt hlt, degree_X_pow]

theorem modByMonic_unique {p r : (ZMod 2)[X]} (hdvd : modulus n ∣ p - r)
    (hr : r.degree < (n : WithBot ℕ)) : p %ₘ modulus n = r := by
  rw [modByMonic_eq_of_dvd_sub (modulus_monic h) hdvd,
    (modByMonic_eq_self_iff (modulus_monic h)).mpr (by rwa [degree_modulus h])]

end Modulus

theorem degree_bytesPoly (h : x.length = 16) : (bytesPoly x).degree < ((128 : ℕ) : WithBot ℕ) := by
  have hlt := degree_bitsPoly_lt (x.flatMap msbBits)
  rwa [length_bits, h] at hlt

/-- One doubling step takes the multiple of `X` to its remainder. -/
theorem modulus_dvd_double (h : x.length = 16) :
    modulus 128 ∣ X * bytesPoly x - bytesPoly (double x) := by
  rw [bytesPoly_leftshiftOnebit h, double]
  split_ifs with hmsb
  · rw [bytesPoly_xorBytes (by rw [leftshiftOnebit_length, h]; rfl), bytesPoly_constRb, hmsb]
    refine ⟨1, ?_⟩
    rw [modulus]
    simp only [Bool.toNat_true, Nat.cast_one, C_1]
    linear_combination (-(X ^ 7 + X ^ 2 + X + 1)) * (CharTwo.two_eq_zero : (2 : (ZMod 2)[X]) = 0)
  · rw [Bool.not_eq_true] at hmsb
    rw [hmsb]
    simp

/-- The subkeys are the encrypted zero block multiplied by `X` and by `X ^ 2`. -/
theorem generateSubkey_poly (aes : Aes128) (key : Key) :
    bytesPoly (generateSubkey aes key).1 =
        X * bytesPoly (aes.encrypt key (List.replicate 16 0)) %ₘ modulus 128 ∧
      bytesPoly (generateSubkey aes key).2 =
        X ^ 2 * bytesPoly (aes.encrypt key (List.replicate 16 0)) %ₘ modulus 128 := by
  have hlen := aes.encrypt_length key (List.replicate 16 0)
  obtain ⟨p, hp⟩ := modulus_dvd_double hlen
  obtain ⟨q, hq⟩ := modulus_dvd_double (double_length hlen)
  constructor
  · exact (modByMonic_unique degree_constRb ⟨p, hp⟩ (degree_bytesPoly (double_length hlen))).symm
  · refine (modByMonic_unique degree_constRb ⟨X * p + q, ?_⟩
      (degree_bytesPoly (double_length (double_length hlen)))).symm
    linear_combination X * hp + hq

end Polynomials

/-- The code of a message is a chain over its whole blocks and one last block, whole or padded,
that is masked by a multiple of the encrypted zero block: by `X` if it is whole, by `X ^ 2` if
it is padded. -/
theorem aesCmac_standard (aes : Aes128) (key : Key) (input : List Byte) :
    ∃ blocks last mask, input = blocks.flatten ++ last ∧ (∀ b ∈ blocks, b.length = 16) ∧
      last.length ≤ 16 ∧ (last = [] → input = []) ∧ mask.length = 16 ∧
      bytesPoly mask = (if last.length = 16 then X else X ^ 2) *
        bytesPoly (aes.encrypt key (List.replicate 16 0)) %ₘ modulus 128 ∧
      aesCmac aes key input = cbc (aes.encrypt key) (List.replicate 16 0)
        (blocks ++ [xorBytes (if last.length = 16 then last else padding last) mask]) := by
  have hkeys := generateSubkey_length aes key
  have hpoly := generateSubkey_poly aes key
  obtain ⟨whole, hwhole⟩ : ∃ n, n = 16 * ((input.length - 1) / 16) := ⟨_, rfl⟩
  have hmac := aesCmac_eq_cbc aes key input
  rw [cmacBlocks, ← hwhole] at hmac
  have hsplit : input = (cut 16 (input.take whole)).flatten ++ input.drop whole := by
    rw [flatten_cut (by decide), List.take_append_drop]
  have hcut : ∀ b ∈ cut 16 (input.take whole), b.length = 16 := by
    refine length_of_mem_cut (by decide) ?_
    rw [List.length_take, Nat.min_eq_left (by omega), hwhole]
    exact Nat.dvd_mul_right 16 _
  have hlast : (input.drop whole).length ≤ 16 := by
    rw [List.length_drop]
    omega
  have hempty (h : input.drop whole = []) : input = [] := by
    have hle := List.drop_eq_nil_iff.mp h
    exact List.length_eq_zero_iff.mp (by omega)
  by_cases h16 : (input.drop whole).length = 16
  · refine ⟨_, _, (generateSubkey aes key).1, hsplit, hcut, hlast, hempty, hkeys.1, ?_, ?_⟩
    · rw [if_pos h16, hpoly.1]
    · rw [if_pos h16, hmac, lastBlock, if_pos h16]
  · refine ⟨_, _, (generateSubkey aes key).2, hsplit, hcut, hlast, hempty, hkeys.2, ?_, ?_⟩
    · rw [if_neg h16, hpoly.2]
    · rw [if_neg h16, hmac, lastBlock, if_neg h16]

end Meshx.Security
