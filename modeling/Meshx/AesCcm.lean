import Meshx.Lib.Aead

/-! AES-CCM as the vendored cipher library computes it, over an AES-128 block function.
The block function itself is not part of the sources and stays a parameter. -/
namespace Meshx.AesCcm

open Lib

structure Aes128 where
  encrypt : (key input : List Byte) → List Byte
  encrypt_length : ∀ key input, (encrypt key input).length = 16

inductive Mode
  | encrypt
  | decrypt
  deriving DecidableEq, Repr

/-- The plain text of a block that the loop reads as `src` and writes as `dst`. -/
def Mode.plain : Mode → List Byte → List Byte → List Byte
  | .encrypt, src, _ => src
  | .decrypt, _, dst => dst

variable (aes : Aes128) (key : List Byte)

/-- `UPDATE_CBC_MAC`: add a block to the running authentication value. -/
def updateCbcMac (y b : List Byte) : List Byte := aes.encrypt key (xorBytes y b)

/-- `CTR_CRYPT`: mask up to one block with the encrypted counter. -/
def ctrCrypt (ctr src : List Byte) : List Byte := xorBytes src (aes.encrypt key ctr)

def pad16 (src : List Byte) : List Byte := src ++ List.replicate (16 - src.length) 0

/-- Add one to a little-endian counter, stopping at the first byte without a carry. -/
def carry : List Byte → List Byte
  | [] => []
  | b :: bs => if b + 1 ≠ 0 then (b + 1) :: bs else 0 :: carry bs

/-- Increment the big-endian counter in the last `q` bytes of the block. -/
def incrementCounter (q : ℕ) (ctr : List Byte) : List Byte :=
  ctr.take (16 - q) ++ (carry (ctr.drop (16 - q)).reverse).reverse

/-- Feed a string to the authentication value block by block. -/
def macLoop : ℕ → List Byte → List Byte → List Byte
  | 0, y, _ => y
  | fuel + 1, y, src =>
    if src = [] then y
    else macLoop fuel (updateCbcMac aes key y (pad16 (src.take 16))) (src.drop 16)

/-- The main loop: authenticate and mask the input block by block. The two modes differ
only in whether the block is authenticated before or after it is masked. -/
def cryptLoop (mode : Mode) (q : ℕ) :
    ℕ → List Byte → List Byte → List Byte → List Byte × List Byte
  | 0, y, _, _ => ([], y)
  | fuel + 1, y, ctr, src =>
    if src = [] then ([], y)
    else
      let block := src.take 16
      let dst := ctrCrypt aes key ctr block
      let rest := cryptLoop mode q fuel (updateCbcMac aes key y (pad16 (mode.plain block dst)))
        (incrementCounter q ctr) (src.drop 16)
      (dst ++ rest.1, rest.2)

/-- The last `q` bytes of the first block: the input length, big-endian. -/
def lengthBytes (q size : ℕ) : List Byte :=
  ((List.range q).map fun i => BitVec.ofNat 8 (size / 256 ^ i)).reverse

def firstBlock (iv : List Byte) (addLen size tagLen : ℕ) : List Byte :=
  let q := 15 - iv.length
  let flags := (if 0 < addLen then 64 else 0) + (tagLen - 2) / 2 * 8 + (q - 1)
  BitVec.ofNat 8 flags :: iv ++ lengthBytes q size

def macStart (iv add : List Byte) (size tagLen : ℕ) : List Byte :=
  let y := updateCbcMac aes key (List.replicate 16 0) (firstBlock iv add.length size tagLen)
  if 0 < add.length then
    macLoop aes key (add.length + 2) y (be16 (BitVec.ofNat 16 add.length) ++ add)
  else y

def counterBlock (iv : List Byte) (last : Byte) : List Byte :=
  let q := 15 - iv.length
  BitVec.ofNat 8 (q - 1) :: iv ++ List.replicate (q - 1) 0 ++ [last]

/-- `ccm_auth_crypt`: output and tag, or nothing when a length is refused. -/
def ccmAuthCrypt (mode : Mode) (iv add input : List Byte) (tagLen : ℕ) :
    Option (List Byte × List Byte) :=
  if tagLen < 4 ∨ 16 < tagLen ∨ tagLen % 2 ≠ 0 then none
  else if iv.length < 7 ∨ 13 < iv.length then none
  else if 0xFF00 < add.length then none
  else if 0 < input.length / 256 ^ (15 - iv.length) then none
  else
    let out := cryptLoop aes key mode (15 - iv.length) input.length
      (macStart aes key iv add input.length tagLen) (counterBlock iv 1) input
    some (out.1, (ctrCrypt aes key (counterBlock iv 0) out.2).take tagLen)

/-- `meshx_aes_ccm_encrypt` through `mbedtls_ccm_encrypt_and_tag`. -/
def aesCcmEncrypt (iv add input : List Byte) (tagLen : ℕ) : Option (List Byte × List Byte) :=
  ccmAuthCrypt aes key .encrypt iv add input tagLen

/-- `meshx_aes_ccm_decrypt` through `mbedtls_ccm_auth_decrypt`: whether the tag is right,
and what the output buffer then holds. -/
def aesCcmDecrypt (iv add input tag : List Byte) : Bool × List Byte :=
  match ccmAuthCrypt aes key .decrypt iv add input tag.length with
  | none => (false, input)
  | some (output, checkTag) => (decide (tag = checkTag), output)

/-- The lengths that `ccm_auth_crypt` lets through without additional data. -/
def Admits (ivLen size tagLen : ℕ) : Prop :=
  (4 ≤ tagLen ∧ tagLen ≤ 16 ∧ tagLen % 2 = 0) ∧ (7 ≤ ivLen ∧ ivLen ≤ 13) ∧
    size < 256 ^ (15 - ivLen)

instance (ivLen size tagLen : ℕ) : Decidable (Admits ivLen size tagLen) := by
  unfold Admits; infer_instance

variable {aes key}

theorem ctrCrypt_length {ctr src : List Byte} (h : src.length ≤ 16) :
    (ctrCrypt aes key ctr src).length = src.length := by
  simp [ctrCrypt, aes.encrypt_length, h]

theorem ctrCrypt_ctrCrypt {ctr src : List Byte} (h : src.length ≤ 16) :
    ctrCrypt aes key ctr (ctrCrypt aes key ctr src) = src :=
  xorBytes_cancel (by rw [aes.encrypt_length]; exact h)

theorem cryptLoop_length {mode : Mode} {q fuel : ℕ} {y ctr src : List Byte}
    (h : src.length ≤ fuel) : (cryptLoop aes key mode q fuel y ctr src).1.length = src.length := by
  induction fuel generalizing y ctr src with
  | zero =>
    have hs : src = [] := List.length_eq_zero_iff.mp (by omega)
    simp [hs, cryptLoop]
  | succ fuel ih =>
    by_cases hs : src = []
    · simp [hs, cryptLoop]
    · have hpos : 0 < src.length := List.length_pos_iff.mpr hs
      have hd : (src.drop 16).length ≤ fuel := by simp only [List.length_drop]; omega
      have ht : (ctrCrypt aes key ctr (src.take 16)).length = (src.take 16).length :=
        ctrCrypt_length (by simp)
      simp only [cryptLoop, if_neg hs, List.length_append, ih hd, ht, List.length_take,
        List.length_drop]
      omega

/-- The modes read one plain text when each reads what the other wrote. -/
theorem Mode.plain_swap {mode other : Mode} (hm : mode ≠ other) (src dst : List Byte) :
    other.plain dst src = mode.plain src dst := by
  cases mode <;> cases other <;> simp_all [Mode.plain]

theorem split_block {src dst rest : List Byte} (hd : dst.length = (src.take 16).length)
    (hr : rest.length = (src.drop 16).length) :
    (dst ++ rest).take 16 = dst ∧ (dst ++ rest).drop 16 = rest := by
  rw [List.length_take] at hd
  rw [List.length_drop] at hr
  by_cases h16 : 16 ≤ src.length
  · exact ⟨List.take_left' (by omega), List.drop_left' (by omega)⟩
  · have hnil : rest = [] := List.length_eq_zero_iff.mp (by omega)
    rw [hnil, List.append_nil, List.take_of_length_le (by omega),
      List.drop_of_length_le (by omega)]
    exact ⟨rfl, rfl⟩

/-- The other mode of the loop, with the same authentication value and counter, undoes
one mode and ends in the same authentication value. -/
theorem cryptLoop_cryptLoop {mode other : Mode} (hm : mode ≠ other) {q fuel : ℕ}
    {y ctr src : List Byte} (h : src.length ≤ fuel) :
    cryptLoop aes key other q fuel y ctr (cryptLoop aes key mode q fuel y ctr src).1 =
      (src, (cryptLoop aes key mode q fuel y ctr src).2) := by
  induction fuel generalizing y ctr src with
  | zero =>
    have hs : src = [] := List.length_eq_zero_iff.mp (by omega)
    simp [hs, cryptLoop]
  | succ fuel ih =>
    by_cases hs : src = []
    · simp [hs, cryptLoop]
    · have hpos : 0 < src.length := List.length_pos_iff.mpr hs
      have hfuel : (src.drop 16).length ≤ fuel := by simp only [List.length_drop]; omega
      have hblock : (src.take 16).length ≤ 16 := by simp
      have hlen := @ctrCrypt_length aes key ctr _ hblock
      have hback := @ctrCrypt_ctrCrypt aes key ctr _ hblock
      simp only [cryptLoop, if_neg hs]
      generalize ctrCrypt aes key ctr (src.take 16) = dst at hlen hback ⊢
      -- both modes feed the plain block, so they continue from the same value
      generalize hy : updateCbcMac aes key y (pad16 (mode.plain (src.take 16) dst)) = y'
      have hrest := @cryptLoop_length aes key mode q _ y' (incrementCounter q ctr) _ hfuel
      have ih' := @ih y' (incrementCounter q ctr) _ hfuel
      generalize cryptLoop aes key mode q fuel y' (incrementCounter q ctr) (src.drop 16) = rest
        at hrest ih' ⊢
      have hne : dst ++ rest.1 ≠ [] := by
        intro he
        have := congrArg List.length he
        simp only [List.length_append, List.length_nil, hlen, List.length_take] at this
        omega
      obtain ⟨htake, hdrop⟩ := split_block hlen hrest
      rw [if_neg hne, htake, hdrop, hback, Mode.plain_swap hm, hy, ih', List.take_append_drop]

theorem ccmAuthCrypt_eq {mode : Mode} {iv input : List Byte} {tagLen : ℕ}
    (h : Admits iv.length input.length tagLen) :
    ccmAuthCrypt aes key mode iv [] input tagLen =
      let out := cryptLoop aes key mode (15 - iv.length) input.length
        (macStart aes key iv [] input.length tagLen) (counterBlock iv 1) input
      some (out.1, (ctrCrypt aes key (counterBlock iv 0) out.2).take tagLen) := by
  obtain ⟨⟨h4, h16, h2⟩, ⟨h7, h13⟩, hq⟩ := h
  have hdiv : input.length / 256 ^ (15 - iv.length) = 0 := Nat.div_eq_of_lt hq
  rw [ccmAuthCrypt, if_neg (by omega), if_neg (by omega), if_neg (by simp), if_neg (by omega)]

theorem cryptLoop_mac_length {mode : Mode} {q fuel : ℕ} {y ctr src : List Byte}
    (hy : y.length = 16) : (cryptLoop aes key mode q fuel y ctr src).2.length = 16 := by
  induction fuel generalizing y ctr src with
  | zero => exact hy
  | succ fuel ih =>
    by_cases hs : src = []
    · simpa [hs, cryptLoop] using hy
    · simp only [cryptLoop, if_neg hs]
      exact ih (aes.encrypt_length _ _)

theorem macStart_length {iv : List Byte} {size tagLen : ℕ} :
    (macStart aes key iv [] size tagLen).length = 16 := by
  simp [macStart, updateCbcMac, aes.encrypt_length]

theorem ccmAuthCrypt_lengths {mode : Mode} {iv input : List Byte} {tagLen : ℕ}
    (h : Admits iv.length input.length tagLen) {out : List Byte × List Byte}
    (ho : ccmAuthCrypt aes key mode iv [] input tagLen = some out) :
    out.1.length = input.length ∧ out.2.length = tagLen := by
  rw [ccmAuthCrypt_eq h, Option.some_inj] at ho
  subst ho
  refine ⟨cryptLoop_length le_rfl, ?_⟩
  have hy := @cryptLoop_mac_length aes key mode (15 - iv.length) input.length _
    (counterBlock iv 1) input (@macStart_length aes key iv input.length tagLen)
  have ht := h.1
  rw [List.length_take, ctrCrypt_length (by omega), hy]
  omega

/-- One mode of the cipher undoes the other and computes the same tag. -/
theorem ccmAuthCrypt_ccmAuthCrypt {mode other : Mode} (hm : mode ≠ other)
    {iv input : List Byte} {tagLen : ℕ} (h : Admits iv.length input.length tagLen)
    {out : List Byte × List Byte}
    (ho : ccmAuthCrypt aes key mode iv [] input tagLen = some out) :
    ccmAuthCrypt aes key other iv [] out.1 tagLen = some (input, out.2) := by
  have hl := (ccmAuthCrypt_lengths h ho).1
  rw [ccmAuthCrypt_eq (by rw [hl]; exact h), hl]
  rw [ccmAuthCrypt_eq h, Option.some_inj] at ho
  subst ho
  simp only [cryptLoop_cryptLoop hm le_rfl]

/-- AES-CCM without additional data as an authenticated cipher. -/
def ccm (aes : Aes128) : Aead where
  admits := Admits
  encrypt key nonce input tagLen := (aesCcmEncrypt aes key nonce [] input tagLen).getD ([], [])
  decrypt key nonce input tag := aesCcmDecrypt aes key nonce [] input tag
  encrypt_length {key _ _ _} h := by
    rw [aesCcmEncrypt, ccmAuthCrypt_eq h]
    exact (ccmAuthCrypt_lengths h (ccmAuthCrypt_eq h)).1
  tag_length {key _ _ _} h := by
    rw [aesCcmEncrypt, ccmAuthCrypt_eq h]
    exact (ccmAuthCrypt_lengths h (ccmAuthCrypt_eq h)).2
  decrypt_length {key _ _ _} h := by
    rw [aesCcmDecrypt, ccmAuthCrypt_eq h]
    exact (ccmAuthCrypt_lengths h (ccmAuthCrypt_eq h)).1
  decrypt_encrypt {key nonce input tagLen} h := by
    cases ho : ccmAuthCrypt aes key .encrypt nonce [] input tagLen with
    | none => rw [ccmAuthCrypt_eq h] at ho; cases ho
    | some out =>
      have hl := (ccmAuthCrypt_lengths h ho).2
      rw [aesCcmEncrypt, ho, Option.getD_some, aesCcmDecrypt, hl,
        ccmAuthCrypt_ccmAuthCrypt (by decide) h ho]
      simp
  encrypt_decrypt {key nonce input tag} h hd := by
    cases ho : ccmAuthCrypt aes key .decrypt nonce [] input tag.length with
    | none => simp [aesCcmDecrypt, ho] at hd
    | some out =>
      rw [aesCcmDecrypt, ho] at hd ⊢
      have ht : tag = out.2 := by simpa using hd
      rw [aesCcmEncrypt, ccmAuthCrypt_ccmAuthCrypt (by decide) h ho, Option.getD_some, ← ht]

end Meshx.AesCcm
