import Meshx.Common

/-! The cryptographic toolbox: AES-CMAC with the derivation functions built on it, and the
ciphers the stack is run with. -/
namespace Meshx.Security

open Lib AesCcm

/-- What the stack encrypts with: the AES-128 block function and an authenticated cipher
for nonces of `MESHX_NONCE_SIZE` bytes and tags of four or eight. -/
structure Crypto where
  aes : Aes128
  aead : Aead
  admits : ∀ {size tagLen : ℕ}, size < 65536 → tagLen = 4 ∨ tagLen = 8 →
    aead.admits 13 size tagLen

/-- The build that uses the vendored CCM code. -/
def Crypto.ofAes (aes : Aes128) : Crypto where
  aes := aes
  aead := ccm aes
  admits {size tagLen} hs ht := by
    refine ⟨?_, by omega, by simpa using hs⟩
    rcases ht with rfl | rfl <;> omega

/-- `leftshift_onebit`, on the bytes from the most significant one on. -/
def leftshiftOnebit : List Byte → List Byte
  | [] => []
  | b :: bs =>
    let overflow := BitVec.ofNat 8 ((bs.headD 0).msb.toNat)
    (b <<< 1 ||| overflow) :: leftshiftOnebit bs

def constRb : List Byte := List.replicate 15 0 ++ [0x87]

/-- One doubling step of `generate_subkey`. -/
def double (xs : List Byte) : List Byte :=
  if (xs.headD 0).msb then xorBytes (leftshiftOnebit xs) constRb else leftshiftOnebit xs

def generateSubkey (aes : Aes128) (key : Key) : List Byte × List Byte :=
  let k1 := double (aes.encrypt key (List.replicate 16 0))
  (k1, double k1)

/-- `padding`: a partial last block, a one bit and zeros. -/
def padding (lastb : List Byte) : List Byte :=
  lastb ++ [0x80] ++ List.replicate (15 - lastb.length) 0

/-- The rounds of `AES_CMAC` before the last block. -/
def cmacRounds (aes : Aes128) (key : Key) : ℕ → List Byte → List Byte → List Byte
  | 0, x, _ => x
  | n + 1, x, input =>
    cmacRounds aes key n (aes.encrypt key (xorBytes x (input.take 16))) (input.drop 16)

def aesCmac (aes : Aes128) (key : Key) (input : List Byte) : List Byte :=
  let (k1, k2) := generateSubkey aes key
  let n := max 1 ((input.length + 15) / 16)
  let last := input.drop (16 * (n - 1))
  let mLast :=
    if 0 < input.length ∧ input.length % 16 = 0 then xorBytes last k1
    else xorBytes (padding last) k2
  aes.encrypt key (xorBytes (cmacRounds aes key (n - 1) (List.replicate 16 0) input) mLast)

def s1 (aes : Aes128) (data : List Byte) : List Byte :=
  aesCmac aes (List.replicate 16 0) data

def k1 (aes : Aes128) (n salt p : List Byte) : List Byte :=
  aesCmac aes (aesCmac aes salt n) p

/-- `meshx_k2`: NID, encryption key and privacy key. -/
def k2 (aes : Aes128) (n p : List Byte) : BitVec 7 × Key × Key :=
  let keyT := aesCmac aes (s1 aes [0x73, 0x6d, 0x6b, 0x32]) n
  let t1 := aesCmac aes keyT (p ++ [0x01])
  let t2 := aesCmac aes keyT (t1 ++ p ++ [0x02])
  let t3 := aesCmac aes keyT (t2 ++ p ++ [0x03])
  ((byteAt t1 15).extractLsb' 0 7, t2, t3)

def k3 (aes : Aes128) (n : List Byte) : List Byte :=
  let keyT := aesCmac aes (s1 aes [0x73, 0x6d, 0x6b, 0x33]) n
  (aesCmac aes keyT [0x69, 0x64, 0x36, 0x34, 0x01]).drop 8

def k4 (aes : Aes128) (n : List Byte) : BitVec 6 :=
  let keyT := aesCmac aes (s1 aes [0x73, 0x6d, 0x6b, 0x34]) n
  (byteAt (aesCmac aes keyT [0x69, 0x64, 0x36, 0x01]) 15).extractLsb' 0 6

/-- A block function that only masks the input with the key, to run the stack by hand. -/
def maskAes : Aes128 where
  encrypt key input := (List.range 16).map fun i => byteAt key i ^^^ byteAt input i
  encrypt_length key input := by simp

def maskCrypto : Crypto := .ofAes maskAes

theorem aesCmac_length (aes : Aes128) (key : Key) (input : List Byte) :
    (aesCmac aes key input).length = 16 := by
  simp only [aesCmac]
  exact aes.encrypt_length _ _

end Meshx.Security
