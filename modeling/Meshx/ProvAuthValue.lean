import Meshx.Prov

/-! The authentication value of a provisioning session: the loops of
`meshx_prov_set_auth_value` over its 16 bytes, and what the value is meant to be for each method
and action. -/
namespace Meshx.ProvAuthValue

open Lib Prov

/-- `auth_value` of a session. -/
abbrev AuthBytes := Fin 16 → Byte

inductive OobMethod
  | output
  | input
  deriving DecidableEq, Repr

/-- `meshx_prov_auth_value_oob_t`. The four bytes of the number are the first of the eight
characters. -/
structure OobValue where
  action : Byte
  alpha : Fin 8 → Byte
  alphaLen : Byte

/-- `auth_value_numeric`, on a little-endian machine. -/
def OobValue.numeric (v : OobValue) : BitVec 32 := v.alpha 3 ++ v.alpha 2 ++ v.alpha 1 ++ v.alpha 0

/-- `meshx_prov_auth_value_t`, by its method; from `MESHX_PROV_AUTH_METHOD_PROHIBITED` on the
methods are one. -/
inductive AuthValue
  | noOob
  | staticOob (value : AuthBytes)
  | oob (method : OobMethod) (value : OobValue)
  | prohibited

/-- The loop over a number, from byte `i` down to byte 1. -/
def numericLoop : (i : ℕ) → BitVec 32 → AuthBytes → AuthBytes
  | 0, _, auth => auth
  | i + 1, value, auth =>
    if value ≠ 0 then
      numericLoop i (value >>> 8) (Function.update auth (Fin.ofNat 16 (i + 1)) (value.setWidth 8))
    else numericLoop i value (Function.update auth (Fin.ofNat 16 (i + 1)) 0)

/-- The loop over a text, so many bytes from byte `i` on. -/
def alphaLoop (alpha : Fin 8 → Byte) : (rounds i : ℕ) → (alphaLen : Byte) → AuthBytes →
    Except Fault AuthBytes
  | 0, _, _, auth => .ok auth
  | rounds + 1, i, alphaLen, auth =>
    if 0 < alphaLen then
      if h : i < 8 then
        alphaLoop alpha rounds (i + 1) (alphaLen - 1)
          (Function.update auth (Fin.ofNat 16 i) (alpha ⟨i, h⟩))
      else .error .badRead
    else alphaLoop alpha rounds (i + 1) alphaLen (Function.update auth (Fin.ofNat 16 i) 0)

/-- `meshx_prov_set_auth_value`. The actions of both methods are compared with those of an
output. -/
def setAuthValue (auth : AuthBytes) : AuthValue → Except Fault AuthBytes
  | .noOob => .ok fun _ => 0
  | .staticOob value => .ok value
  | .oob _ v =>
    if v.action = 0x00 ∨ v.action = 0x01 ∨ v.action = 0x02 ∨ v.action = 0x03 then
      .ok (numericLoop 15 v.numeric auth)
    else alphaLoop v.alpha 16 0 v.alphaLen auth
  | .prohibited => .ok auth

section Loops

theorem write_apply {i : ℕ} (hi : i < 16) (auth : AuthBytes) (b : Byte) (j : Fin 16) :
    Function.update auth (Fin.ofNat 16 i) b j = if j.val = i then b else auth j := by
  have hval : (Fin.ofNat 16 i).val = i := Nat.mod_eq_of_lt hi
  by_cases h : j.val = i
  · rw [if_pos h, Fin.ext (h.trans hval.symm), Function.update_self]
  · rw [if_neg h, Function.update_of_ne (fun he => h (by rw [he, hval]))]

theorem numericLoop_apply (i : ℕ) (value : BitVec 32) (auth : AuthBytes) (hi : i < 16)
    (j : Fin 16) : numericLoop i value auth j =
      if j.val = 0 ∨ i < j.val then auth j else (value >>> (8 * (i - j.val))).setWidth 8 := by
  induction i generalizing value auth with
  | zero =>
    have hj : j.val = 0 ∨ 0 < j.val := by omega
    rw [if_pos hj, numericLoop]
  | succ i ih =>
    -- where nothing is left of the number, the byte written is 0 too
    have hstep : numericLoop (i + 1) value auth =
        numericLoop i (value >>> 8)
          (Function.update auth (Fin.ofNat 16 (i + 1)) (value.setWidth 8)) := by
      rw [numericLoop]
      split_ifs with h
      · rfl
      · rw [not_not.mp h]
        rfl
    rw [hstep, ih _ _ (by omega), write_apply hi]
    by_cases hlast : j.val = i + 1
    · rw [if_pos (by omega), if_pos hlast, if_neg (by omega), hlast, Nat.sub_self, Nat.mul_zero,
        BitVec.ushiftRight_zero]
    · by_cases hkept : j.val = 0 ∨ i < j.val
      · rw [if_pos hkept, if_neg hlast, if_pos (by omega)]
      · rw [if_neg hkept, if_neg (by omega), ← BitVec.shiftRight_add,
          show 8 + 8 * (i - j.val) = 8 * (i + 1 - j.val) by omega]

theorem alphaLoop_ok (alpha : Fin 8 → Byte) (rounds i : ℕ) (alphaLen : Byte) (auth : AuthBytes)
    (hrounds : i + rounds = 16) (hlen : i + alphaLen.toNat ≤ 8 ∨ alphaLen = 0) :
    alphaLoop alpha rounds i alphaLen auth = .ok fun j =>
      if j.val < i then auth j
      else if h : j.val < 8 ∧ j.val < i + alphaLen.toNat then alpha ⟨j, h.1⟩ else 0 := by
  induction rounds generalizing i alphaLen auth with
  | zero =>
    rw [alphaLoop]
    congr 1
    funext j
    rw [if_pos (by omega)]
  | succ rounds ih =>
    rw [alphaLoop]
    by_cases hpos : 0 < alphaLen
    · have hnat : 0 < alphaLen.toNat := hpos
      have hne : alphaLen ≠ 0 := fun h => absurd hpos (by rw [h]; decide)
      have hle := hlen.resolve_right hne
      have hsub : (alphaLen - 1).toNat = alphaLen.toNat - 1 := by bv_omega
      have hi : i < 8 := by omega
      rw [if_pos hpos, dif_pos hi, ih _ _ _ (by omega) (.inl (by omega)), hsub]
      congr 1
      funext j
      rw [write_apply (by omega)]
      by_cases hj : j.val = i
      · rw [if_pos (by omega), if_pos hj, if_neg (by omega), dif_pos (by omega)]
        congr 1
        exact Fin.ext hj.symm
      · by_cases hlt : j.val < i
        · rw [if_pos (by omega), if_neg hj, if_pos hlt]
        · rw [if_neg (by omega), if_neg hlt, show i + 1 + (alphaLen.toNat - 1) = i + alphaLen.toNat
            by omega]
    · obtain rfl : alphaLen = 0 := by bv_omega
      rw [if_neg hpos, ih _ _ _ (by omega) (.inr rfl)]
      congr 1
      funext j
      rw [write_apply (by omega)]
      have hzero : (0 : Byte).toNat = 0 := rfl
      by_cases hj : j.val = i
      · rw [if_pos (by omega), if_pos hj, if_neg (by omega), dif_neg (by omega)]
      · by_cases hlt : j.val < i
        · rw [if_pos (by omega), if_neg hj, if_pos hlt]
        · rw [if_neg (by omega), if_neg hlt, dif_neg (by omega), dif_neg (by omega)]

theorem alphaLoop_fault (alpha : Fin 8 → Byte) (rounds i : ℕ) (alphaLen : Byte) (auth : AuthBytes)
    (hrounds : i + rounds = 16) (hi : i ≤ 8) (hlen : 8 < i + alphaLen.toNat) :
    alphaLoop alpha rounds i alphaLen auth = .error .badRead := by
  induction rounds generalizing i alphaLen auth with
  | zero => omega
  | succ rounds ih =>
    have hpos : 0 < alphaLen := by bv_omega
    rw [alphaLoop, if_pos hpos]
    by_cases hlt : i < 8
    · have hsub : (alphaLen - 1).toNat = alphaLen.toNat - 1 := by bv_omega
      rw [dif_pos hlt, ih _ _ _ (by omega) hlt (by omega)]
    · rw [dif_neg hlt]

end Loops

/-- The actions of a method that name a number: blink, beep, vibrate and output numeric, or push,
twist and input numeric. -/
def isNumeric : OobMethod → Byte → Bool
  | .output, action => action ≤ 0x03
  | .input, action => action ≤ 0x02

/-- The action of a method that names a text. -/
def isAlpha : OobMethod → Byte → Bool
  | .output, action => action = 0x04
  | .input, action => action = 0x03

/-- A number in 16 bytes, the highest first. -/
def numberBytes (n : ℕ) : AuthBytes := fun j => BitVec.ofNat 8 (n / 256 ^ (15 - j.val))

/-- The characters supplied, and zeros behind them. -/
def OobValue.textBytes (v : OobValue) : AuthBytes := fun j =>
  if h : j.val < 8 ∧ j.val < v.alphaLen.toNat then v.alpha ⟨j, h.1⟩ else 0

/-- The bytes that two ends have to agree on, where the method and the action determine them. -/
def encoding : AuthValue → Option AuthBytes
  | .noOob => some fun _ => 0
  | .staticOob value => some value
  | .oob method v =>
    if isNumeric method v.action then some (numberBytes v.numeric.toNat)
    else if isAlpha method v.action then some v.textBytes
    else none
  | .prohibited => none

/-- The same action with the same characters, whatever stands behind those supplied. -/
structure OobValue.SameText (v w : OobValue) : Prop where
  action : w.action = v.action
  alphaLen : w.alphaLen = v.alphaLen
  alpha : ∀ i : Fin 8, i.val < v.alphaLen.toNat → w.alpha i = v.alpha i

/-- The two arguments supply the same. -/
def SameSupplied : AuthValue → AuthValue → Prop
  | .oob method v, other =>
    if isAlpha method v.action then ∃ w, other = .oob method w ∧ v.SameText w
    else other = .oob method v
  | value, other => other = value

/-- The session is left with the bytes of the argument, and nothing else has been read: neither
what stood in the session nor characters that are not supplied. -/
structure Encodes (auth : AuthBytes) (value : AuthValue) : Prop where
  bytes : ∀ bytes, encoding value = some bytes →
    ∀ other, SameSupplied value other → setAuthValue auth other = .ok bytes
  determined : encoding value = none → ∃ bytes, ∀ auth, setAuthValue auth value = .ok bytes

/-- The content of the session and the argument do not reach the first byte, the comparison with
the output actions or the end of the characters. -/
def Encodable (auth : AuthBytes) : AuthValue → Prop
  | .noOob | .staticOob _ => True
  | .oob method v =>
    if v.action ≤ 0x03 then
      auth 0 = 0 ∧ (isAlpha method v.action = true →
        4 ≤ v.alphaLen.toNat ∧ ∀ i : Fin 8, i.val < v.alphaLen.toNat → v.alpha i = 0)
    else v.alphaLen.toNat ≤ 8
  | .prohibited => False

section Oob

variable {auth : AuthBytes} {method : OobMethod} {v w : OobValue}

theorem setAuthValue_numeric (h : v.action ≤ 0x03) :
    setAuthValue auth (.oob method v) = .ok (numericLoop 15 v.numeric auth) := by
  have hcmp : v.action = 0x00 ∨ v.action = 0x01 ∨ v.action = 0x02 ∨ v.action = 0x03 := by bv_omega
  rw [setAuthValue, if_pos hcmp]

theorem setAuthValue_alpha (h : ¬ v.action ≤ 0x03) :
    setAuthValue auth (.oob method v) = alphaLoop v.alpha 16 0 v.alphaLen auth := by
  have hcmp : ¬ (v.action = 0x00 ∨ v.action = 0x01 ∨ v.action = 0x02 ∨ v.action = 0x03) := by
    bv_omega
  rw [setAuthValue, if_neg hcmp]

theorem alphaLoop_text (hlen : v.alphaLen.toNat ≤ 8) :
    alphaLoop v.alpha 16 0 v.alphaLen auth = .ok v.textBytes := by
  rw [alphaLoop_ok _ _ _ _ _ (by decide) (.inl (by omega))]
  congr 1
  funext j
  rw [if_neg (Nat.not_lt_zero _), OobValue.textBytes, Nat.zero_add]

/-- A number is right but for the first byte, which keeps what stood there. -/
theorem numericLoop_number (value : BitVec 32) (j : Fin 16) : numericLoop 15 value auth j =
    if j.val = 0 then auth 0 else numberBytes value.toNat j := by
  rw [numericLoop_apply _ _ _ (by decide)]
  by_cases hj : j.val = 0
  · rw [if_pos (.inl hj), if_pos hj, show j = 0 from Fin.ext hj]
  · rw [if_neg (by omega), if_neg hj, numberBytes]
    refine BitVec.eq_of_toNat_eq ?_
    rw [BitVec.toNat_setWidth, BitVec.toNat_ushiftRight, BitVec.toNat_ofNat,
      Nat.shiftRight_eq_div_pow, Nat.pow_mul]

theorem numberBytes_zero (n : BitVec 32) : numberBytes n.toNat 0 = 0 := by
  have hlt := n.isLt
  rw [numberBytes, Fin.val_zero, Nat.div_eq_of_lt (by omega)]
  rfl

theorem numericLoop_eq_iff (value : BitVec 32) :
    numericLoop 15 value auth = numberBytes value.toNat ↔ auth 0 = 0 := by
  constructor
  · intro h
    have hfirst := congrFun h 0
    rwa [numericLoop_number, if_pos (Fin.val_zero 16), numberBytes_zero] at hfirst
  · intro h
    funext j
    rw [numericLoop_number]
    by_cases hj : j.val = 0
    · rw [if_pos hj, show j = 0 from Fin.ext hj, numberBytes_zero, h]
    · rw [if_neg hj]

theorem append_eq_zero_iff {m n : ℕ} (x : BitVec m) (y : BitVec n) :
    x ++ y = 0 ↔ x = 0 ∧ y = 0 := by
  constructor
  · intro h
    refine ⟨?_, ?_⟩
    · rw [← @BitVec.extractLsb'_append_eq_left m n x y, h]
      exact BitVec.extractLsb'_zero
    · rw [← @BitVec.extractLsb'_append_eq_right m n x y, h]
      exact BitVec.extractLsb'_zero
  · rintro ⟨rfl, rfl⟩
    exact BitVec.zero_append_zero

theorem numeric_eq_zero_iff : v.numeric = 0 ↔
    v.alpha 0 = 0 ∧ v.alpha 1 = 0 ∧ v.alpha 2 = 0 ∧ v.alpha 3 = 0 := by
  rw [OobValue.numeric, append_eq_zero_iff, append_eq_zero_iff, append_eq_zero_iff]
  tauto

theorem eq_zero_of_numberBytes {n : BitVec 32}
    (h : ∀ j : Fin 16, 12 ≤ j.val → numberBytes n.toNat j = 0) : n = 0 := by
  have hbyte (j : Fin 16) (hj : 12 ≤ j.val) : n.toNat / 256 ^ (15 - j.val) % 256 = 0 := by
    have hz := congrArg BitVec.toNat (h j hj)
    rwa [numberBytes, BitVec.toNat_ofNat] at hz
  have h₀ := hbyte 15 (by decide)
  have h₁ := hbyte 14 (by decide)
  have h₂ := hbyte 13 (by decide)
  have h₃ := hbyte 12 (by decide)
  have hlt := n.isLt
  simp at h₀ h₁ h₂ h₃
  refine BitVec.eq_of_toNat_eq ?_
  rw [show (0 : BitVec 32).toNat = 0 from rfl]
  omega

/-- A text that is written as a number is right only if it consists of zeros and covers the four
bytes that are read. -/
theorem numericLoop_text_iff :
    (∀ w, v.SameText w → numericLoop 15 w.numeric auth = v.textBytes) ↔
      auth 0 = 0 ∧ 4 ≤ v.alphaLen.toNat ∧
        ∀ i : Fin 8, i.val < v.alphaLen.toNat → v.alpha i = 0 := by
  constructor
  · intro h
    have hzero (w : OobValue) (hw : v.SameText w) : w.numeric = 0 := by
      refine eq_zero_of_numberBytes fun j hj => ?_
      have hj' := congrFun (h w hw) j
      rwa [numericLoop_number, if_neg (by omega), OobValue.textBytes, dif_neg (by omega)] at hj'
    have hself : v.SameText v := ⟨rfl, rfl, fun _ _ => rfl⟩
    obtain ⟨h₀, h₁, h₂, h₃⟩ := numeric_eq_zero_iff.mp (hzero v hself)
    have halpha (i : Fin 8) (hi : i.val < v.alphaLen.toNat) : v.alpha i = 0 := by
      by_cases hfirst : i = 0
      · rw [hfirst, h₀]
      · have hi' := congrFun (h v hself) ⟨i.val, by omega⟩
        have hne : i.val ≠ 0 := fun he => hfirst (Fin.ext he)
        rw [numericLoop_number, if_neg hne, hzero v hself, OobValue.textBytes,
          dif_pos ⟨i.isLt, hi⟩] at hi'
        rw [← hi', numberBytes, show (0 : BitVec 32).toNat = 0 from rfl, Nat.zero_div]
        rfl
    refine ⟨?_, ?_, halpha⟩
    · have hfirst := congrFun (h v hself) 0
      rw [numericLoop_number, if_pos (Fin.val_zero 16), OobValue.textBytes] at hfirst
      rw [hfirst]
      split_ifs with hlen
      · exact h₀
      · rfl
    · by_contra hlen
      -- a character that is not supplied is read into the number
      have hw := hzero { v with alpha := Function.update v.alpha 3 1 } ⟨rfl, rfl, fun i hi => by
        refine Function.update_of_ne (fun he => hlen ?_) _ _
        rw [he] at hi
        exact hi⟩
      have h₃ := (numeric_eq_zero_iff.mp hw).2.2.2
      dsimp only at h₃
      rw [Function.update_self] at h₃
      exact absurd h₃ (by decide)
  · rintro ⟨hfirst, hlen, halpha⟩ w hw
    have hchar (i : Fin 8) (hi : i.val < 4) : w.alpha i = 0 := by
      rw [hw.alpha i (by omega), halpha i (by omega)]
    have hnumeric : w.numeric = 0 := numeric_eq_zero_iff.mpr
      ⟨hchar 0 (by decide), hchar 1 (by decide), hchar 2 (by decide), hchar 3 (by decide)⟩
    funext j
    rw [(numericLoop_eq_iff w.numeric).mpr hfirst, hnumeric, OobValue.textBytes, numberBytes,
      show (0 : BitVec 32).toNat = 0 from rfl, Nat.zero_div]
    split_ifs with hj
    · exact (halpha _ hj.2).symm
    · rfl

theorem encodes_iff {value : AuthValue} {bytes : AuthBytes} (h : encoding value = some bytes) :
    Encodes auth value ↔
      ∀ other, SameSupplied value other → setAuthValue auth other = .ok bytes := by
  constructor
  · intro henc
    exact henc.bytes bytes h
  · intro hall
    refine ⟨fun bytes' h' => ?_, fun hnone => ?_⟩
    · rw [← Option.some.inj (h.symm.trans h')]
      exact hall
    · rw [h] at hnone
      cases hnone

theorem not_isNumeric (h : isAlpha method v.action = true ∨ ¬ v.action ≤ 0x03) :
    isNumeric method v.action = false := by
  cases method <;> simp only [isAlpha, isNumeric, decide_eq_true_eq, decide_eq_false_iff_not] at h ⊢
  all_goals
    rcases h with h | h
    · rw [h]
      decide
    · bv_omega

/-- A number is right where the first byte is 0 before. -/
theorem encodes_number (hact : v.action ≤ 0x03) (halpha : isAlpha method v.action = false) :
    Encodes auth (.oob method v) ↔ auth 0 = 0 := by
  have hnum : isNumeric method v.action = true := by
    cases method <;> simp only [isAlpha, isNumeric, decide_eq_false_iff_not, decide_eq_true_eq]
      at halpha ⊢
    · exact hact
    · bv_omega
  have hbytes : encoding (.oob method v) = some (numberBytes v.numeric.toNat) := by
    rw [encoding, if_pos hnum]
  have hsame (other : AuthValue) : SameSupplied (.oob method v) other ↔ other = .oob method v := by
    rw [SameSupplied, if_neg (by rw [halpha]; exact Bool.false_ne_true)]
  rw [encodes_iff hbytes, ← numericLoop_eq_iff v.numeric]
  constructor
  · intro h
    have hset := h _ ((hsame _).mpr rfl)
    rw [setAuthValue_numeric hact] at hset
    exact Except.ok.inj hset
  · intro h other hother
    rw [(hsame other).mp hother, setAuthValue_numeric hact, h]

theorem sameSupplied_alpha (halpha : isAlpha method v.action = true) (other : AuthValue) :
    SameSupplied (.oob method v) other ↔ ∃ w, other = .oob method w ∧ v.SameText w := by
  rw [SameSupplied, if_pos halpha]

theorem encoding_alpha (halpha : isAlpha method v.action = true) :
    encoding (.oob method v) = some v.textBytes := by
  rw [encoding, if_neg (by rw [not_isNumeric (.inl halpha)]; exact Bool.false_ne_true),
    if_pos halpha]

/-- The text of an input is taken for a number. -/
theorem encodes_inputText (hact : v.action ≤ 0x03) (halpha : isAlpha method v.action = true) :
    Encodes auth (.oob method v) ↔ auth 0 = 0 ∧ 4 ≤ v.alphaLen.toNat ∧
      ∀ i : Fin 8, i.val < v.alphaLen.toNat → v.alpha i = 0 := by
  rw [encodes_iff (encoding_alpha halpha), ← numericLoop_text_iff]
  constructor
  · intro h w hw
    have hset := h _ ((sameSupplied_alpha halpha _).mpr ⟨w, rfl, hw⟩)
    rw [setAuthValue_numeric (hw.action ▸ hact)] at hset
    exact Except.ok.inj hset
  · intro h other hother
    obtain ⟨w, rfl, hw⟩ := (sameSupplied_alpha halpha other).mp hother
    rw [setAuthValue_numeric (hw.action ▸ hact), h w hw]

theorem OobValue.SameText.textBytes (h : v.SameText w) : w.textBytes = v.textBytes := by
  funext j
  have hlen := h.alphaLen
  by_cases hj : j.val < 8 ∧ j.val < v.alphaLen.toNat
  · rw [OobValue.textBytes, OobValue.textBytes, dif_pos (hlen ▸ hj), dif_pos hj]
    exact h.alpha _ hj.2
  · rw [OobValue.textBytes, OobValue.textBytes, dif_neg (hlen ▸ hj), dif_neg hj]

theorem setAuthValue_alpha_ok (hact : ¬ v.action ≤ 0x03) :
    (∃ bytes, setAuthValue auth (.oob method v) = .ok bytes) ↔ v.alphaLen.toNat ≤ 8 := by
  rw [setAuthValue_alpha hact]
  constructor
  · rintro ⟨bytes, h⟩
    by_contra hlen
    rw [alphaLoop_fault _ _ _ _ _ (by decide) (by decide) (by omega)] at h
    cases h
  · intro hlen
    exact ⟨_, alphaLoop_text hlen⟩

/-- A text is right where it is no longer than the field. -/
theorem encodes_text (hact : ¬ v.action ≤ 0x03) :
    Encodes auth (.oob method v) ↔ v.alphaLen.toNat ≤ 8 := by
  rw [← @setAuthValue_alpha_ok auth method v hact]
  cases halpha : isAlpha method v.action with
  | true =>
    rw [encodes_iff (encoding_alpha halpha)]
    constructor
    · intro h
      exact ⟨_, h _ ((sameSupplied_alpha halpha _).mpr ⟨v, rfl, rfl, rfl, fun _ _ => rfl⟩)⟩
    · intro h other hother
      obtain ⟨w, rfl, hw⟩ := (sameSupplied_alpha halpha other).mp hother
      have hlen := (setAuthValue_alpha_ok hact).mp h
      rw [setAuthValue_alpha (hw.action ▸ hact), alphaLoop_text (by rw [hw.alphaLen]; exact hlen),
        hw.textBytes]
  | false =>
    have hnone : encoding (.oob method v) = none := by
      rw [encoding, if_neg (by rw [not_isNumeric (.inr hact)]; exact Bool.false_ne_true),
        if_neg (by rw [halpha]; exact Bool.false_ne_true)]
    constructor
    · intro h
      obtain ⟨bytes, hbytes⟩ := h.determined hnone
      exact ⟨bytes, hbytes auth⟩
    · intro h
      have hlen := (setAuthValue_alpha_ok hact).mp h
      refine ⟨fun bytes hbytes => ?_, fun _ => ⟨v.textBytes, fun auth' => ?_⟩⟩
      · rw [hnone] at hbytes
        cases hbytes
      · rw [setAuthValue_alpha hact, alphaLoop_text hlen]

end Oob

/-- The value left in the session is the one of the argument exactly where the argument and the
content of the session stay clear of the three slips. -/
theorem encodes_iff_encodable (auth : AuthBytes) (value : AuthValue) :
    Encodes auth value ↔ Encodable auth value := by
  cases value with
  | noOob =>
    rw [encodes_iff (show encoding .noOob = some _ from rfl)]
    exact ⟨fun _ => trivial, fun _ other h => by rw [show other = .noOob from h]; rfl⟩
  | staticOob bytes =>
    rw [encodes_iff (show encoding (.staticOob bytes) = some _ from rfl)]
    exact ⟨fun _ => trivial, fun _ other h => by rw [show other = .staticOob bytes from h]; rfl⟩
  | oob method v =>
    by_cases hact : v.action ≤ 0x03
    · rw [Encodable, if_pos hact]
      cases halpha : isAlpha method v.action with
      | true =>
        rw [encodes_inputText hact halpha]
        exact ⟨fun h => ⟨h.1, fun _ => h.2⟩, fun h => ⟨h.1, h.2 rfl⟩⟩
      | false =>
        rw [encodes_number hact halpha]
        exact ⟨fun h => ⟨h, fun hf => by cases hf⟩, fun h => h.1⟩
    · rw [Encodable, if_neg hact, encodes_text hact]
  | prohibited =>
    refine ⟨fun h => ?_, False.elim⟩
    obtain ⟨bytes, hbytes⟩ := h.determined rfl
    have h₀ := Except.ok.inj (hbytes fun _ => 0)
    have h₁ := Except.ok.inj (hbytes fun _ => 1)
    exact absurd (congrFun (h₀.trans h₁.symm) 0) (by decide)

/-- The argument as the session model has it, whose two OOB methods are one. -/
def AuthValue.toProv : AuthValue → Prov.AuthValue
  | .noOob => .noOob
  | .staticOob value => .staticOob (List.ofFn value)
  | .oob _ v => .oob v.action (List.ofFn v.alpha) v.alphaLen
  | .prohibited => .other

theorem numeric_byte (v : OobValue) :
    (v.numeric >>> 0).setWidth 8 = v.alpha 0 ∧ (v.numeric >>> 8).setWidth 8 = v.alpha 1 ∧
      (v.numeric >>> 16).setWidth 8 = v.alpha 2 ∧ (v.numeric >>> 24).setWidth 8 = v.alpha 3 := by
  simp only [BitVec.setWidth_ushiftRight_eq_extractLsb, OobValue.numeric]
  refine ⟨BitVec.extractLsb'_append_eq_right, ?_, ?_, ?_⟩
  · rw [BitVec.extractLsb'_append_eq_of_le (by decide), BitVec.extractLsb'_append_eq_right]
  · rw [BitVec.extractLsb'_append_eq_of_le (by decide),
      BitVec.extractLsb'_append_eq_of_le (by decide), BitVec.extractLsb'_append_eq_right]
  · rw [BitVec.extractLsb'_append_eq_of_le (by decide),
      BitVec.extractLsb'_append_eq_of_le (by decide),
      BitVec.extractLsb'_append_eq_of_le (by decide)]
    exact BitVec.extractLsb'_eq_self

/-- The number as the bytes of its field, behind those of the loop that are 0. -/
theorem ofFn_numericLoop (v : OobValue) (auth : AuthBytes) :
    List.ofFn (numericLoop 15 v.numeric auth) =
      auth 0 :: (List.replicate 11 0 ++ [v.alpha 3, v.alpha 2, v.alpha 1, v.alpha 0]) := by
  obtain ⟨h₀, h₁, h₂, h₃⟩ := numeric_byte v
  have hhigh (n : ℕ) (hn : 32 ≤ n) : (v.numeric >>> n).setWidth 8 = (0 : Byte) := by
    rw [BitVec.ushiftRight_eq_zero hn]
    rfl
  refine List.ext_getElem (by simp) fun j hj _ => ?_
  rw [List.length_ofFn] at hj
  rw [List.getElem_ofFn, numericLoop_apply _ _ _ (by decide)]
  interval_cases j
  · rfl
  all_goals rw [if_neg (by dsimp only; omega)]
  all_goals first | exact hhigh _ (by dsimp only; omega) | assumption

theorem byteAt_ofFn {n : ℕ} (f : Fin n → Byte) {i : ℕ} (hi : i < n) :
    byteAt (List.ofFn f) i = f ⟨i, hi⟩ := by
  simp [byteAt, hi]

/-- The session model agrees with the loops wherever they stay inside the field. -/
theorem prov_setAuthValue (dev : ProvDev) {auth bytes : AuthBytes} {value : AuthValue}
    (hdev : dev.authValue = List.ofFn auth) (h : setAuthValue auth value = .ok bytes) :
    (Prov.setAuthValue dev value.toProv).authValue = List.ofFn bytes := by
  cases value with
  | noOob =>
    obtain rfl := Except.ok.inj h
    exact List.ofFn_const 16 0 |>.symm
  | staticOob value =>
    obtain rfl := Except.ok.inj h
    rfl
  | oob method v =>
    rw [AuthValue.toProv, Prov.setAuthValue]
    by_cases hact : v.action ≤ 0x03
    · rw [setAuthValue_numeric hact] at h
      obtain rfl := Except.ok.inj h
      rw [if_pos hact, hdev, ofFn_numericLoop, byteAt_ofFn _ (by decide)]
      rfl
    · have hlen := (setAuthValue_alpha_ok hact).mp ⟨bytes, h⟩
      rw [setAuthValue_alpha hact, alphaLoop_text hlen] at h
      obtain rfl := Except.ok.inj h
      rw [if_neg hact]
      refine List.ext_getElem (by simp) fun j hj _ => ?_
      rw [List.length_map, List.length_range] at hj
      rw [List.getElem_map, List.getElem_range, List.getElem_ofFn, OobValue.textBytes]
      by_cases hlt : j < v.alphaLen.toNat
      · rw [if_pos hlt, dif_pos ⟨by dsimp only; omega, hlt⟩, byteAt_ofFn _ (by omega)]
      · rw [if_neg hlt, dif_neg fun h => hlt h.2]
  | prohibited =>
    obtain rfl := Except.ok.inj h
    exact hdev

/-- After static bytes a number keeps the first of them, an input of letters becomes a number, and
a text of nine characters is read beyond the field. -/
theorem not_encodes :
    ¬ Encodes (fun _ => 1) (.oob .output ⟨0x03, fun _ => 0, 0⟩) ∧
      ¬ Encodes (fun _ => 0) (.oob .input ⟨0x03, fun _ => 0x41, 8⟩) ∧
      ¬ Encodes (fun _ => 0) (.oob .output ⟨0x04, fun _ => 0x41, 9⟩) := by
  refine ⟨fun h => ?_, fun h => ?_, fun h => ?_⟩
  · have hset := Except.ok.inj (h.bytes _ rfl _ rfl)
    exact absurd (congrFun hset 0) (by decide)
  · have hset := Except.ok.inj (h.bytes _ rfl (.oob .input ⟨0x03, fun _ => 0x41, 8⟩)
      ⟨_, rfl, rfl, rfl, fun _ _ => rfl⟩)
    exact absurd (congrFun hset 0) (by decide)
  · have hset := h.bytes _ rfl (.oob .output ⟨0x04, fun _ => 0x41, 9⟩)
      ⟨_, rfl, rfl, rfl, fun _ _ => rfl⟩
    cases hset

end Meshx.ProvAuthValue
