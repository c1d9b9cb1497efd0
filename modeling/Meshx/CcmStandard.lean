import Meshx.AesCcm
import Meshx.Lib.Cbc

/-! The vendored CCM code against the standard's text: which counter block masks which byte of
the text, and which blocks are chained into the tag. -/
namespace Meshx.AesCcm

open Lib

/-- The counter block of a number. -/
def counter (iv : List Byte) (i : ℕ) : List Byte :=
  BitVec.ofNat 8 (15 - iv.length - 1) :: iv ++ lengthBytes (15 - iv.length) i

/-- The additional data behind its length. -/
def addText (add : List Byte) : List Byte :=
  if 0 < add.length then be16 (BitVec.ofNat 16 add.length) ++ add else []

/-- The blocks that are chained into the tag. -/
def authBlocks (iv add plain : List Byte) (tagLen : ℕ) : List (List Byte) :=
  firstBlock iv add.length plain.length tagLen ::
    ((cut 16 (addText add)).map pad16 ++ (cut 16 plain).map pad16)

/-- The lengths that the code lets through. -/
structure Fits (iv add input : List Byte) (tagLen : ℕ) : Prop where
  tag : 4 ≤ tagLen ∧ tagLen ≤ 16 ∧ tagLen % 2 = 0
  nonce : 7 ≤ iv.length ∧ iv.length ≤ 13
  add : add.length ≤ 0xFF00
  size : input.length < 256 ^ (15 - iv.length)

variable {aes : Aes128} {key iv add input out tag src : List Byte} {tagLen q i n : ℕ} {mode : Mode}

section Counter

theorem lengthBytes_succ (q n : ℕ) :
    lengthBytes (q + 1) n = lengthBytes q (n / 256) ++ [BitVec.ofNat 8 n] := by
  rw [lengthBytes, List.range_succ_eq_map, List.map_cons, List.reverse_cons, List.map_map,
    lengthBytes]
  congr 1
  · congr 1
    refine List.map_congr_left fun i _ => ?_
    rw [Function.comp_apply, pow_succ', Nat.div_div_eq_div_mul]
  · simp

theorem lengthBytes_injective {m : ℕ} (hm : m < 256 ^ q) (hn : n < 256 ^ q)
    (h : lengthBytes q m = lengthBytes q n) : m = n := by
  induction q generalizing m n with
  | zero =>
    rw [pow_zero] at hm hn
    omega
  | succ q ih =>
    rw [lengthBytes_succ, lengthBytes_succ] at h
    obtain ⟨hhigh, hlow⟩ := List.append_inj' h rfl
    have hdiv : m / 256 = n / 256 :=
      ih (by rw [pow_succ] at hm; omega) (by rw [pow_succ] at hn; omega) hhigh
    have hmod : m % 256 = n % 256 := by
      have hval := congrArg BitVec.toNat (List.singleton_inj.mp hlow)
      rwa [BitVec.toNat_ofNat, BitVec.toNat_ofNat] at hval
    omega

/-- The carry loop adds one. -/
theorem carry_lengthBytes (q n : ℕ) :
    (carry (lengthBytes q n).reverse).reverse = lengthBytes q (n + 1) := by
  induction q generalizing n with
  | zero => rfl
  | succ q ih =>
    rw [lengthBytes_succ, lengthBytes_succ, List.reverse_append, List.reverse_singleton,
      List.singleton_append, carry]
    have hone : BitVec.ofNat 8 n + 1 = BitVec.ofNat 8 (n + 1) := by
      rw [BitVec.ofNat_add]
      rfl
    rw [hone]
    split_ifs with hcarry
    · have hdiv : (n + 1) / 256 = n / 256 := by
        have hne : (n + 1) % 256 ≠ 0 := by
          intro h0
          refine hcarry (BitVec.eq_of_toNat_eq ?_)
          rw [BitVec.toNat_ofNat]
          exact h0
        omega
      rw [List.reverse_cons, List.reverse_reverse, hdiv]
    · have h0 : BitVec.ofNat 8 (n + 1) = 0 := not_not.mp hcarry
      have hmod : (n + 1) % 256 = 0 := by
        have hval := congrArg BitVec.toNat h0
        rwa [BitVec.toNat_ofNat] at hval
      rw [List.reverse_cons, ih, h0]
      congr 2
      omega

theorem counterBlock_eq (hiv : iv.length ≤ 13) (hi : i < 256) :
    counterBlock iv (BitVec.ofNat 8 i) = counter iv i := by
  obtain ⟨q, hq⟩ : ∃ q, 15 - iv.length = q + 1 := ⟨14 - iv.length, by omega⟩
  have hzero (q : ℕ) : lengthBytes q 0 = List.replicate q 0 := by
    induction q with
    | zero => rfl
    | succ q ih =>
      rw [lengthBytes_succ, Nat.zero_div, ih, List.replicate_succ']
      rfl
  rw [counterBlock, counter, hq, lengthBytes_succ, Nat.div_eq_of_lt hi, hzero]
  simp

theorem incrementCounter_counter (hiv : iv.length ≤ 13) :
    incrementCounter (15 - iv.length) (counter iv i) = counter iv (i + 1) := by
  have hfront : (BitVec.ofNat 8 (15 - iv.length - 1) :: iv).length = 16 - (15 - iv.length) := by
    rw [List.length_cons]
    omega
  rw [incrementCounter, counter, List.take_left' hfront, List.drop_left' hfront, carry_lengthBytes,
    counter]

end Counter

section Loops

/-- The text masked with the encrypted counters from the number `i` on. -/
def masked (aes : Aes128) (key iv : List Byte) (i : ℕ) (src : List Byte) : List Byte :=
  (List.range src.length).map fun j =>
    byteAt src j ^^^ byteAt (aes.encrypt key (counter iv (i + j / 16))) (j % 16)

theorem macLoop_eq_cbc {fuel : ℕ} {y : List Byte} (h : src.length ≤ fuel) :
    macLoop aes key fuel y src = cbc (aes.encrypt key) y ((cut 16 src).map pad16) := by
  induction fuel generalizing y src with
  | zero =>
    obtain rfl := List.length_eq_zero_iff.mp (Nat.le_zero.mp h)
    simp [macLoop]
  | succ fuel ih =>
    by_cases hsrc : src = []
    · simp [hsrc, macLoop]
    · have hpos : 0 < src.length := List.length_pos_iff.mpr hsrc
      rw [macLoop, if_neg hsrc, ih (by rw [List.length_drop]; omega), cut_cons (by decide) hsrc,
        List.map_cons, cbc_cons]
      rfl

theorem masked_cons (hsrc : src ≠ []) : masked aes key iv i src =
    ctrCrypt aes key (counter iv i) (src.take 16) ++ masked aes key iv (i + 1) (src.drop 16) := by
  have hpos : 0 < src.length := List.length_pos_iff.mpr hsrc
  have hlen : (ctrCrypt aes key (counter iv i) (src.take 16)).length = min 16 src.length := by
    rw [ctrCrypt_length (by simp), List.length_take]
  refine List.ext_getElem? fun j => ?_
  by_cases hj : j < min 16 src.length
  · rw [List.getElem?_append_left (hlen ▸ hj)]
    have hjs : j < src.length := by omega
    simp only [masked, List.getElem?_map, List.getElem?_range hjs, Option.map_some, ctrCrypt,
      xorBytes, List.getElem?_zipWith, List.getElem?_take_of_lt (show j < 16 by omega)]
    have henc : j < (aes.encrypt key (counter iv i)).length := by
      rw [aes.encrypt_length]
      omega
    rw [Nat.div_eq_of_lt (by omega), Nat.mod_eq_of_lt (by omega), Nat.add_zero]
    simp [byteAt, List.getElem?_eq_getElem hjs, List.getElem?_eq_getElem henc]
  · rw [List.getElem?_append_right (by omega), hlen]
    by_cases hjs : j < src.length
    · have hrest : j - min 16 src.length < (src.drop 16).length := by
        rw [List.length_drop]
        omega
      simp only [masked, List.getElem?_map, List.getElem?_range hjs, List.getElem?_range hrest,
        Option.map_some]
      have hmin : min 16 src.length = 16 := by omega
      rw [hmin, show i + 1 + (j - 16) / 16 = i + j / 16 by omega,
        show (j - 16) % 16 = j % 16 by omega]
      simp [byteAt, show 16 + (j - 16) = j by omega]
    · rw [List.getElem?_eq_none (by simp [masked]; omega),
        List.getElem?_eq_none (by simp [masked]; omega)]

theorem cryptLoop_out {fuel : ℕ} {y : List Byte} (hiv : iv.length ≤ 13) (h : src.length ≤ fuel) :
    (cryptLoop aes key mode (15 - iv.length) fuel y (counter iv i) src).1 =
      masked aes key iv i src := by
  induction fuel generalizing y i src with
  | zero =>
    obtain rfl := List.length_eq_zero_iff.mp (Nat.le_zero.mp h)
    simp [cryptLoop, masked]
  | succ fuel ih =>
    by_cases hsrc : src = []
    · simp [hsrc, cryptLoop, masked]
    · have hpos : 0 < src.length := List.length_pos_iff.mpr hsrc
      rw [cryptLoop, if_neg hsrc, masked_cons hsrc, incrementCounter_counter hiv]
      dsimp only
      rw [ih (by rw [List.length_drop]; omega)]

theorem masked_length : (masked aes key iv i src).length = src.length := by
  simp [masked]

/-- The first block of the plain text of either mode. -/
theorem cut_plain (hsrc : src ≠ []) :
    cut 16 (mode.plain src (masked aes key iv i src)) =
      mode.plain (src.take 16) (ctrCrypt aes key (counter iv i) (src.take 16)) ::
        cut 16 (mode.plain (src.drop 16) (masked aes key iv (i + 1) (src.drop 16))) := by
  cases mode with
  | encrypt => exact cut_cons (by decide) hsrc
  | decrypt =>
    have hne : masked aes key iv i src ≠ [] := by
      rw [ne_eq, ← List.length_eq_zero_iff, masked_length, List.length_eq_zero_iff]
      exact hsrc
    obtain ⟨htake, hdrop⟩ :=
      split_block (@ctrCrypt_length aes key (counter iv i) (src.take 16) (by simp))
        (@masked_length aes key iv (src.drop 16) (i + 1))
    rw [Mode.plain, cut_cons (by decide) hne, masked_cons hsrc, htake, hdrop]
    rfl

theorem cryptLoop_mac {fuel : ℕ} {y : List Byte} (hiv : iv.length ≤ 13) (h : src.length ≤ fuel) :
    (cryptLoop aes key mode (15 - iv.length) fuel y (counter iv i) src).2 =
      cbc (aes.encrypt key) y
        ((cut 16 (mode.plain src (masked aes key iv i src))).map pad16) := by
  induction fuel generalizing y i src with
  | zero =>
    obtain rfl := List.length_eq_zero_iff.mp (Nat.le_zero.mp h)
    cases mode <;> simp [cryptLoop, masked, Mode.plain]
  | succ fuel ih =>
    by_cases hsrc : src = []
    · cases mode <;> simp [hsrc, cryptLoop, masked, Mode.plain]
    · have hpos : 0 < src.length := List.length_pos_iff.mpr hsrc
      rw [cryptLoop, if_neg hsrc, incrementCounter_counter hiv]
      dsimp only
      rw [ih (by rw [List.length_drop]; omega), cut_plain hsrc, List.map_cons, cbc_cons]
      rfl

theorem macStart_eq_cbc (size : ℕ) : macStart aes key iv add size tagLen =
    cbc (aes.encrypt key) (List.replicate 16 0)
      (firstBlock iv add.length size tagLen :: (cut 16 (addText add)).map pad16) := by
  rw [macStart, cbc_cons, addText]
  split_ifs with hadd
  · rw [macLoop_eq_cbc (by rw [List.length_append, be16_length]; omega)]
    rfl
  · rw [cut_nil]
    rfl

theorem size_fits (q size : ℕ) : ¬ 0 < size / 256 ^ q ↔ size < 256 ^ q := by
  rw [Nat.div_pos_iff]
  have hpos : 0 < 256 ^ q := by positivity
  omega

theorem ccmAuthCrypt_isSome :
    (ccmAuthCrypt aes key mode iv add input tagLen).isSome ↔ Fits iv add input tagLen := by
  have hsize := size_fits (15 - iv.length) input.length
  unfold ccmAuthCrypt
  split_ifs with htag hiv hadd hlen
  · exact iff_of_false (by simp) fun h => by have := h.tag; omega
  · exact iff_of_false (by simp) fun h => by have := h.nonce; omega
  · exact iff_of_false (by simp) fun h => by have := h.add; omega
  · exact iff_of_false (by simp) fun h => absurd h.size (by omega)
  · exact iff_of_true rfl ⟨by omega, by omega, by omega, hsize.mp hlen⟩

end Loops

/-- What a call computes. -/
theorem ccmAuthCrypt_eq_masked (h : Fits iv add input tagLen) :
    ccmAuthCrypt aes key mode iv add input tagLen =
      some (masked aes key iv 1 input,
        (xorBytes (cbc (aes.encrypt key) (List.replicate 16 0)
          (authBlocks iv add (mode.plain input (masked aes key iv 1 input)) tagLen))
          (aes.encrypt key (counter iv 0))).take tagLen) := by
  have hnonce := h.nonce
  have hplain : (mode.plain input (masked aes key iv 1 input)).length = input.length := by
    cases mode
    · rfl
    · exact masked_length
  have htag := h.tag
  have hadd := h.add
  have hone : counterBlock iv 1 = counter iv 1 := counterBlock_eq hnonce.2 (by decide)
  have hzero : counterBlock iv 0 = counter iv 0 := counterBlock_eq hnonce.2 (by decide)
  rw [ccmAuthCrypt, if_neg (by omega), if_neg (by omega), if_neg (by omega),
    if_neg ((size_fits _ _).mpr h.size)]
  dsimp only
  rw [hone, hzero, cryptLoop_out hnonce.2 le_rfl, cryptLoop_mac hnonce.2 le_rfl, macStart_eq_cbc,
    ← cbc_append, List.cons_append, authBlocks, hplain]
  rfl

theorem masked_eq_iff : out = masked aes key iv i input ↔ out.length = input.length ∧
    ∀ j < input.length, byteAt out j =
      byteAt input j ^^^ byteAt (aes.encrypt key (counter iv (i + j / 16))) (j % 16) := by
  constructor
  · rintro rfl
    refine ⟨masked_length, fun j hj => ?_⟩
    conv_lhs => rw [byteAt, List.getD_eq_getElem?_getD, masked, List.getElem?_map,
      List.getElem?_range hj, Option.map_some, Option.getD_some]
  · rintro ⟨hlen, hbytes⟩
    refine List.ext_getElem (hlen.trans masked_length.symm) fun j hj _ => ?_
    have hbyte := hbytes j (hlen ▸ hj)
    rw [byteAt, List.getD_eq_getElem?_getD, List.getElem?_eq_getElem hj, Option.getD_some] at hbyte
    rw [hbyte]
    simp [masked]

/-- The code computes CCM: the byte `j` is masked with the byte `j % 16` of the encrypted counter
`1 + j / 16`, and the tag is the chained value of the first block, the additional data and the
plain text, masked with the encrypted counter zero. It refuses every other length. The prefix of
the additional data has two octets also for the 0xFF00 bytes that the check lets through. -/
theorem ccmAuthCrypt_standard (aes : Aes128) (key : List Byte) (mode : Mode)
    (iv add input : List Byte) (tagLen : ℕ) (out tag : List Byte) :
    ccmAuthCrypt aes key mode iv add input tagLen = some (out, tag) ↔
      Fits iv add input tagLen ∧ out.length = input.length ∧
      (∀ j < input.length, byteAt out j =
        byteAt input j ^^^ byteAt (aes.encrypt key (counter iv (1 + j / 16))) (j % 16)) ∧
      tag = (xorBytes (cbc (aes.encrypt key) (List.replicate 16 0)
        (authBlocks iv add (mode.plain input out) tagLen))
        (aes.encrypt key (counter iv 0))).take tagLen := by
  rw [← and_assoc (a := _ = _), ← masked_eq_iff]
  constructor
  · intro hcrypt
    have h : Fits iv add input tagLen := by
      rw [← @ccmAuthCrypt_isSome aes key iv add input tagLen mode, hcrypt]
      rfl
    rw [ccmAuthCrypt_eq_masked h, Option.some_inj, Prod.mk.injEq] at hcrypt
    obtain ⟨rfl, rfl⟩ := hcrypt
    exact ⟨h, rfl, rfl⟩
  · rintro ⟨h, rfl, rfl⟩
    exact ccmAuthCrypt_eq_masked h

/-- A nonce, additional data and a plain text that the code takes, and the length of the tag. -/
@[ext] structure CcmInput where
  iv : List Byte
  add : List Byte
  plain : List Byte
  tagLen : ℕ
  fits : Fits iv add plain tagLen

namespace CcmInput

def blocks (a : CcmInput) : List (List Byte) := authBlocks a.iv a.add a.plain a.tagLen

/-- The counter blocks of the tag and of the text. -/
def counters (a : CcmInput) : List (List Byte) :=
  (List.range ((a.plain.length + 15) / 16 + 1)).map (counter a.iv)

variable {a b : CcmInput}

section Injective

theorem padded_injective {xs ys : List Byte} (hlen : xs.length = ys.length)
    (h : (cut 16 xs).map pad16 = (cut 16 ys).map pad16) : xs = ys := by
  induction hn : xs.length using Nat.strong_induction_on generalizing xs ys with
  | _ n ih =>
    by_cases hxs : xs = []
    · subst hxs
      exact (List.length_eq_zero_iff.mp hlen.symm).symm
    · have hpos : 0 < xs.length := List.length_pos_iff.mpr hxs
      have hys : ys ≠ [] := List.length_pos_iff.mp (hlen ▸ hpos)
      rw [cut_cons (by decide) hxs, cut_cons (by decide) hys, List.map_cons, List.map_cons] at h
      obtain ⟨hhead, hrest⟩ := List.cons.inj h
      have htake : xs.take 16 = ys.take 16 :=
        List.append_inj_left hhead (by rw [List.length_take, List.length_take, hlen])
      have hdrop : xs.drop 16 = ys.drop 16 :=
        ih _ (by rw [List.length_drop]; omega) (by rw [List.length_drop, List.length_drop, hlen])
          hrest rfl
      rw [← List.take_append_drop 16 xs, htake, hdrop, List.take_append_drop]

theorem length_cut (xs : List Byte) : (cut 16 xs).length = (xs.length + 15) / 16 := by
  simp [cut]

/-- The first byte of a first block is beyond every first byte of a counter block. -/
theorem flags_lt (a : CcmInput) :
    8 ≤ (if 0 < a.add.length then 64 else 0) + (a.tagLen - 2) / 2 * 8 + (15 - a.iv.length - 1) ∧
      (if 0 < a.add.length then 64 else 0) + (a.tagLen - 2) / 2 * 8 + (15 - a.iv.length - 1) <
        256 := by
  have htag := a.fits.tag
  have hiv := a.fits.nonce
  split_ifs <;> omega

theorem firstBlock_injective
    (h : firstBlock a.iv a.add.length a.plain.length a.tagLen =
      firstBlock b.iv b.add.length b.plain.length b.tagLen) :
    a.iv = b.iv ∧ (0 < a.add.length ↔ 0 < b.add.length) ∧ a.plain.length = b.plain.length ∧
      a.tagLen = b.tagLen := by
  obtain ⟨hflags, hrest⟩ := List.cons.inj h
  have hval := congrArg BitVec.toNat hflags
  rw [BitVec.toNat_ofNat, BitVec.toNat_ofNat, Nat.mod_eq_of_lt (flags_lt a).2,
    Nat.mod_eq_of_lt (flags_lt b).2] at hval
  have htag := a.fits.tag
  have htag' := b.fits.tag
  have hiv := a.fits.nonce
  have hiv' := b.fits.nonce
  have hparts : (0 < a.add.length ↔ 0 < b.add.length) ∧ a.tagLen = b.tagLen ∧
      a.iv.length = b.iv.length := by
    split_ifs at hval <;> omega
  obtain ⟨hadd, htags, hivs⟩ := hparts
  obtain ⟨hiveq, hsize⟩ := List.append_inj hrest hivs
  rw [hivs] at hsize
  exact ⟨hiveq, hadd, lengthBytes_injective (hivs ▸ a.fits.size) b.fits.size hsize, htags⟩

/-- The first two bytes of the additional data's blocks are its length. -/
theorem addText_length (hadd : 0 < a.add.length ↔ 0 < b.add.length) {xs ys : List (List Byte)}
    (h : (cut 16 (addText a.add)).map pad16 ++ xs <+: (cut 16 (addText b.add)).map pad16 ++ ys) :
    (addText a.add).length = (addText b.add).length := by
  by_cases hpos : 0 < a.add.length
  · have hpos' := hadd.mp hpos
    rw [addText, addText, if_pos hpos, if_pos hpos'] at h ⊢
    have hne (n : BitVec 16) (add : List Byte) : be16 n ++ add ≠ [] := by simp [be16]
    rw [cut_cons (by decide) (hne _ _), cut_cons (by decide) (hne _ _), List.map_cons,
      List.map_cons, List.cons_append, List.cons_append] at h
    have hhead := (List.cons_prefix_cons.mp h).1
    have htake (n : BitVec 16) (add : List Byte) :
        (pad16 ((be16 n ++ add).take 16)).take 2 = be16 n := rfl
    have hbe := congrArg (List.take 2) hhead
    rw [htake, htake] at hbe
    have hlen : BitVec.ofNat 16 a.add.length = BitVec.ofNat 16 b.add.length := by
      rw [← readBe16_be16 (BitVec.ofNat 16 a.add.length) [], hbe, readBe16_be16]
    have hval := congrArg BitVec.toNat hlen
    have hle := a.fits.add
    have hle' := b.fits.add
    rw [BitVec.toNat_ofNat, BitVec.toNat_ofNat, Nat.mod_eq_of_lt (by omega),
      Nat.mod_eq_of_lt (by omega)] at hval
    rw [List.length_append, List.length_append, be16_length, be16_length, hval]
  · rw [addText, addText, if_neg hpos, if_neg (hadd.not.mp hpos)]

theorem addText_injective (hlen : (addText a.add).length = (addText b.add).length)
    (h : addText a.add = addText b.add) : a.add = b.add := by
  unfold addText at h hlen
  split_ifs at h hlen with ha hb hb
  · rw [List.length_append, List.length_append, be16_length, be16_length] at hlen
    exact List.append_inj_right' h (by omega)
  · rw [List.length_append, be16_length, List.length_nil] at hlen
    omega
  · rw [List.length_append, be16_length, List.length_nil] at hlen
    omega
  · rw [List.length_eq_zero_iff.mp (by omega : a.add.length = 0),
      List.length_eq_zero_iff.mp (by omega : b.add.length = 0)]

end Injective

/-- No sequence of chained blocks goes on as another one. -/
theorem blocks_prefixFree (a b : CcmInput) : a.blocks <+: b.blocks ↔ a = b := by
  refine ⟨fun h => ?_, fun h => h ▸ List.prefix_rfl⟩
  obtain ⟨hfirst, hrest⟩ := List.cons_prefix_cons.mp h
  obtain ⟨hiv, hadd, hsize, htag⟩ := firstBlock_injective hfirst
  have hlen := addText_length hadd hrest
  obtain ⟨rest, hrest⟩ := hrest
  rw [List.append_assoc] at hrest
  obtain ⟨htexts, hplains⟩ := List.append_inj hrest (by
    rw [List.length_map, List.length_map]
    exact (length_cut _).trans ((congrArg (fun n => (n + 15) / 16) hlen).trans (length_cut _).symm))
  have hplain : a.plain = b.plain := by
    refine padded_injective hsize (List.IsPrefix.eq_of_length ⟨rest, hplains⟩ ?_)
    rw [List.length_map, List.length_map, length_cut, length_cut, hsize]
  exact CcmInput.ext hiv (addText_injective hlen (padded_injective hlen htexts)) hplain htag

section Counters

theorem counter_injective {i j : ℕ} (hi : i < 256 ^ (15 - a.iv.length))
    (hj : j < 256 ^ (15 - b.iv.length)) :
    counter a.iv i = counter b.iv j ↔ a.iv = b.iv ∧ i = j := by
  constructor
  · intro h
    obtain ⟨hflags, hrest⟩ := List.cons.inj h
    have hiv := a.fits.nonce
    have hiv' := b.fits.nonce
    have hval := congrArg BitVec.toNat hflags
    rw [BitVec.toNat_ofNat, BitVec.toNat_ofNat, Nat.mod_eq_of_lt (by omega),
      Nat.mod_eq_of_lt (by omega)] at hval
    have hlen : a.iv.length = b.iv.length := by omega
    obtain ⟨hivs, hcount⟩ := List.append_inj hrest hlen
    rw [hlen] at hcount hi
    exact ⟨hivs, lengthBytes_injective hi hj hcount⟩
  · rintro ⟨hiv, rfl⟩
    rw [hiv]

theorem count_lt (a : CcmInput) : (a.plain.length + 15) / 16 < 256 ^ (15 - a.iv.length) := by
  have hsize := a.fits.size
  have hpos : 0 < 256 ^ (15 - a.iv.length) := by positivity
  omega

theorem mem_counters {block : List Byte} :
    block ∈ a.counters ↔ ∃ i ≤ (a.plain.length + 15) / 16, counter a.iv i = block := by
  simp [counters]

theorem counters_nodup (a : CcmInput) : a.counters.Nodup := by
  refine List.Nodup.map_on (fun i hi j hj h => ?_) List.nodup_range
  have hcount := a.count_lt
  rw [List.mem_range] at hi hj
  exact ((@counter_injective a a i j (by omega) (by omega)).mp h).2

theorem counters_disjoint_of_ne (hiv : a.iv ≠ b.iv) : a.counters.Disjoint b.counters := by
  intro block ha hb
  obtain ⟨i, hi, rfl⟩ := mem_counters.mp ha
  obtain ⟨j, hj, heq⟩ := mem_counters.mp hb
  have hi' := hi.trans_lt a.count_lt
  exact hiv ((counter_injective hi' (hj.trans_lt b.count_lt)).mp heq.symm).1

end Counters

/-- No two counter blocks of a call are the same, those of two calls are apart exactly if the
nonces are different, and none is the first block of a tag. -/
theorem counters_disjoint (a b : CcmInput) : a.counters.Nodup ∧
    (a.counters.Disjoint b.counters ↔ a.iv ≠ b.iv) ∧ a.counters.Disjoint b.blocks.head?.toList := by
  refine ⟨a.counters_nodup, ⟨fun hdisjoint hiv => ?_, counters_disjoint_of_ne⟩, ?_⟩
  · have hzero : counter a.iv 0 ∈ a.counters := mem_counters.mpr ⟨0, Nat.zero_le _, rfl⟩
    exact hdisjoint hzero (mem_counters.mpr ⟨0, Nat.zero_le _, by rw [hiv]⟩)
  · intro block ha hb
    obtain ⟨i, -, rfl⟩ := mem_counters.mp ha
    have hfirst : counter a.iv i =
        firstBlock b.iv b.add.length b.plain.length b.tagLen := List.mem_singleton.mp hb
    have hval := congrArg BitVec.toNat (List.cons.inj hfirst).1
    have hiv := a.fits.nonce
    have hflags := b.flags_lt
    rw [BitVec.toNat_ofNat, BitVec.toNat_ofNat, Nat.mod_eq_of_lt (by omega),
      Nat.mod_eq_of_lt hflags.2] at hval
    omega

end CcmInput

end Meshx.AesCcm
