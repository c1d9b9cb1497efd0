import Meshx.Decimal

/-! Opcodes of access messages in one, two or three bytes. Definitions carry the names of
`meshx_access.c`. -/
namespace Meshx.AccessOpcode

open Lib
open Cmd (charAt)
open Decimal (put)

/-- `MESHX_ACCESS_OPCODE_SIZE` -/
def opcodeSize (opcode : BitVec 32) : ℕ :=
  if 0xC00000 ≤ opcode then 3 else if 0x8000 ≤ opcode then 2 else 1

/-- `MESHX_ACCESS_OPCODE_RFU` -/
def opcodeRfu : BitVec 32 := 0x7F

def opcodeToBuf (opcode : BitVec 32) : Option (List Byte) → Except Fault (Option (List Byte))
  | none => .ok none
  | some pdata =>
    if opcodeSize opcode = 1 then some <$> put pdata 0 (opcode.setWidth 8)
    else if opcodeSize opcode = 2 then do
      let pdata ← put pdata 0 ((opcode >>> 8 &&& 0xff).setWidth 8)
      some <$> put pdata 1 ((opcode &&& 0xff).setWidth 8)
    else do
      let pdata ← put pdata 0 ((opcode >>> 16 &&& 0xff).setWidth 8)
      let pdata ← put pdata 1 ((opcode >>> 8 &&& 0xff).setWidth 8)
      some <$> put pdata 2 ((opcode &&& 0xff).setWidth 8)

/-- One more byte behind those that have been read. -/
def shiftIn (opcode : BitVec 32) (c : Byte) : BitVec 32 := opcode <<< 8 ||| c.setWidth 32

def bufToOpcode : Option (List Byte) → Except Fault (BitVec 32)
  | none => .ok opcodeRfu
  | some pdata => do
    let c ← charAt pdata 0
    if c &&& 0x80 = 0 then return c.setWidth 32
    else if c &&& 0x40 = 0 then do
      let d ← charAt pdata 1
      return shiftIn (c.setWidth 32) d
    else do
      let d ← charAt pdata 1
      let f ← charAt pdata 2
      return shiftIn (shiftIn (c.setWidth 32) d) f

/-- The opcodes that the first byte tells the size of. -/
def Encodable (opcode : BitVec 32) : Prop :=
  opcode ≤ 0x7F ∨ 0x8000 ≤ opcode ∧ opcode ≤ 0xBFFF ∨ 0xC00000 ≤ opcode ∧ opcode ≤ 0xFFFFFF

instance (opcode : BitVec 32) : Decidable (Encodable opcode) :=
  inferInstanceAs (Decidable (_ ∨ _ ∧ _ ∨ _ ∧ _))

/-- The bytes that an opcode is written as. -/
def opcodeBytes (opcode : BitVec 32) : List Byte :=
  if opcodeSize opcode = 1 then [opcode.setWidth 8]
  else if opcodeSize opcode = 2 then
    [(opcode >>> 8 &&& 0xff).setWidth 8, (opcode &&& 0xff).setWidth 8]
  else
    [(opcode >>> 16 &&& 0xff).setWidth 8, (opcode >>> 8 &&& 0xff).setWidth 8,
      (opcode &&& 0xff).setWidth 8]

variable {opcode x : BitVec 32} {pdata front params : List Byte} {c d f : Byte} {i : ℕ}

theorem toNat_low (opcode : BitVec 32) :
    ((opcode &&& 0xff).setWidth 8).toNat = opcode.toNat % 256 := by
  have hmask : (0xff : BitVec 32).toNat = 2 ^ 8 - 1 := rfl
  rw [BitVec.toNat_setWidth, BitVec.toNat_and, hmask, Nat.and_two_pow_sub_one_eq_mod]
  omega

theorem toNat_byte (opcode : BitVec 32) (i : ℕ) :
    ((opcode >>> i &&& 0xff).setWidth 8).toNat = opcode.toNat / 2 ^ i % 256 := by
  have hmask : (0xff : BitVec 32).toNat = 2 ^ 8 - 1 := rfl
  rw [BitVec.toNat_setWidth, BitVec.toNat_and, BitVec.toNat_ushiftRight, hmask,
    Nat.and_two_pow_sub_one_eq_mod, Nat.shiftRight_eq_div_pow]
  omega

theorem toNat_shiftIn (h : x.toNat < 2 ^ 24) (c : Byte) :
    (shiftIn x c).toNat = x.toNat * 256 + c.toNat := by
  have hc := c.isLt
  have hshift : (x <<< 8).toNat = x.toNat <<< 8 := by
    rw [BitVec.toNat_shiftLeft, Nat.shiftLeft_eq]
    omega
  have hwidth : (c.setWidth 32).toNat = c.toNat := by
    rw [BitVec.toNat_setWidth]
    omega
  rw [shiftIn, BitVec.toNat_or, hshift, hwidth, ← Nat.shiftLeft_add_eq_or_of_lt hc,
    Nat.shiftLeft_eq]

theorem opcodeSize_cases (opcode : BitVec 32) :
    opcodeSize opcode = 1 ∧ opcode.toNat < 0x8000 ∨
      opcodeSize opcode = 2 ∧ 0x8000 ≤ opcode.toNat ∧ opcode.toNat < 0xC00000 ∨
      opcodeSize opcode = 3 ∧ 0xC00000 ≤ opcode.toNat := by
  have hthree : (0xC00000 : BitVec 32).toNat = 0xC00000 := rfl
  have htwo : (0x8000 : BitVec 32).toNat = 0x8000 := rfl
  unfold opcodeSize
  simp only [BitVec.le_def, hthree, htwo]
  split_ifs with h3 h2
  · exact .inr (.inr ⟨rfl, h3⟩)
  · exact .inr (.inl ⟨rfl, h2, not_le.mp h3⟩)
  · exact .inl ⟨rfl, not_le.mp h2⟩

theorem encodable_iff : Encodable opcode ↔ opcode.toNat ≤ 0x7F ∨
    0x8000 ≤ opcode.toNat ∧ opcode.toNat ≤ 0xBFFF ∨
    0xC00000 ≤ opcode.toNat ∧ opcode.toNat ≤ 0xFFFFFF := Iff.rfl

theorem one_iff (c : Byte) : c &&& 0x80 = 0 ↔ c.toNat < 128 := by
  revert c
  decide

theorem two_iff (c : Byte) : ¬ c &&& 0x80 = 0 → (c &&& 0x40 = 0 ↔ c.toNat < 192) := by
  revert c
  decide

theorem opcodeToBuf_eq (h : opcodeSize opcode ≤ pdata.length) :
    opcodeToBuf opcode (some pdata) =
      .ok (some (opcodeBytes opcode ++ pdata.drop (opcodeSize opcode))) := by
  rcases opcodeSize_cases opcode with ⟨hs, -⟩ | ⟨hs, -⟩ | ⟨hs, -⟩ <;> rw [hs] at h
  · obtain _ | ⟨c, pdata⟩ := pdata
    · simp at h
    · simp [opcodeToBuf, opcodeBytes, hs, put]
  · obtain _ | ⟨c, _ | ⟨d, pdata⟩⟩ := pdata
    · simp at h
    · simp at h
    · simp [opcodeToBuf, opcodeBytes, hs, put, ok_bind]
  · obtain _ | ⟨c, _ | ⟨d, _ | ⟨f, pdata⟩⟩⟩ := pdata
    · simp at h
    · simp at h
    · simp at h
    · simp [opcodeToBuf, opcodeBytes, hs, put, ok_bind]

theorem bufToOpcode_one (h : c.toNat < 128) :
    bufToOpcode (some (c :: pdata)) = .ok (c.setWidth 32) := by
  have hone := (one_iff c).mpr h
  simp only [bufToOpcode, charAt, List.getElem?_cons_zero, ok_bind]
  rw [if_pos hone]
  rfl

theorem bufToOpcode_two (h : 128 ≤ c.toNat) (h' : c.toNat < 192) :
    bufToOpcode (some (c :: d :: pdata)) = .ok (shiftIn (c.setWidth 32) d) := by
  have hone := mt (one_iff c).mp (not_lt.mpr h)
  have htwo := (two_iff c hone).mpr h'
  simp only [bufToOpcode, charAt, List.getElem?_cons_zero, List.getElem?_cons_succ, ok_bind]
  rw [if_neg hone, if_pos htwo]
  rfl

theorem bufToOpcode_three (h : 192 ≤ c.toNat) : bufToOpcode (some (c :: d :: f :: pdata)) =
    .ok (shiftIn (shiftIn (c.setWidth 32) d) f) := by
  have hone := mt (one_iff c).mp (by omega)
  have htwo := mt (two_iff c hone).mp (not_lt.mpr h)
  simp only [bufToOpcode, charAt, List.getElem?_cons_zero, List.getElem?_cons_succ, ok_bind]
  rw [if_neg hone, if_neg htwo]
  rfl

theorem toNat_first (c : Byte) : (c.setWidth 32 : BitVec 32).toNat = c.toNat := by
  have hc := c.isLt
  rw [BitVec.toNat_setWidth]
  omega

theorem toNat_two (c d : Byte) :
    (shiftIn (c.setWidth 32) d).toNat = c.toNat * 256 + d.toNat := by
  have hc := c.isLt
  rw [toNat_shiftIn (by rw [toNat_first]; omega), toNat_first]

theorem toNat_three (c d f : Byte) : (shiftIn (shiftIn (c.setWidth 32) d) f).toNat =
    (c.toNat * 256 + d.toNat) * 256 + f.toNat := by
  have hc := c.isLt
  have hd := d.isLt
  rw [toNat_shiftIn (by rw [toNat_two]; omega), toNat_two]

/-- What the first byte tells of an opcode that is read: its value and its bytes. -/
inductive Read (opcode : BitVec 32) : List Byte → Prop
  | one (c : Byte) (pdata : List Byte) (hc : c.toNat < 128) (h : opcode.toNat = c.toNat) :
      Read opcode (c :: pdata)
  | two (c d : Byte) (pdata : List Byte) (hc : 128 ≤ c.toNat) (hc' : c.toNat < 192)
      (h : opcode.toNat = c.toNat * 256 + d.toNat) : Read opcode (c :: d :: pdata)
  | three (c d f : Byte) (pdata : List Byte) (hc : 192 ≤ c.toNat)
      (h : opcode.toNat = (c.toNat * 256 + d.toNat) * 256 + f.toNat) :
      Read opcode (c :: d :: f :: pdata)

theorem bufToOpcode_iff : bufToOpcode (some pdata) = .ok opcode ↔ Read opcode pdata := by
  constructor
  · intro h
    obtain _ | ⟨c, pdata⟩ := pdata
    · cases h
    rcases lt_or_ge c.toNat 128 with hc | hc
    · rw [bufToOpcode_one hc] at h
      rw [← Except.ok.inj h]
      exact .one c pdata hc (toNat_first c)
    have hone := mt (one_iff c).mp (not_lt.mpr hc)
    obtain _ | ⟨d, pdata⟩ := pdata
    · simp only [bufToOpcode, charAt, List.getElem?_cons_zero, ok_bind] at h
      rw [if_neg hone] at h
      split_ifs at h <;> cases h
    rcases lt_or_ge c.toNat 192 with hc' | hc'
    · rw [bufToOpcode_two hc hc'] at h
      rw [← Except.ok.inj h]
      exact .two c d pdata hc hc' (toNat_two c d)
    have htwo := mt (two_iff c hone).mp (not_lt.mpr hc')
    obtain _ | ⟨f, pdata⟩ := pdata
    · simp only [bufToOpcode, charAt, List.getElem?_cons_zero, List.getElem?_cons_succ,
        ok_bind] at h
      rw [if_neg hone, if_neg htwo] at h
      cases h
    · rw [bufToOpcode_three hc'] at h
      rw [← Except.ok.inj h]
      exact .three c d f pdata hc' (toNat_three c d f)
  · intro h
    cases h with
    | one c pdata hc h =>
      rw [bufToOpcode_one hc]
      exact congrArg Except.ok (BitVec.eq_of_toNat_eq ((toNat_first c).trans h.symm))
    | two c d pdata hc hc' h =>
      rw [bufToOpcode_two hc hc']
      exact congrArg Except.ok (BitVec.eq_of_toNat_eq ((toNat_two c d).trans h.symm))
    | three c d f pdata hc h =>
      rw [bufToOpcode_three hc]
      exact congrArg Except.ok (BitVec.eq_of_toNat_eq ((toNat_three c d f).trans h.symm))

/-- An opcode that has been read is one that can be written, and its bytes stood in front. -/
theorem Read.bytes (h : Read opcode pdata) :
    Encodable opcode ∧ opcodeSize opcode ≤ pdata.length ∧
      opcodeBytes opcode ++ pdata.drop (opcodeSize opcode) = pdata := by
  rw [encodable_iff, opcodeBytes]
  cases h with
  | one c pdata hc h =>
    have hsize : opcodeSize opcode = 1 := by
      have hcases := opcodeSize_cases opcode
      omega
    have hbyte : opcode.setWidth 8 = c := by
      apply BitVec.eq_of_toNat_eq
      rw [BitVec.toNat_setWidth]
      omega
    rw [hsize, if_pos rfl, hbyte]
    exact ⟨by omega, by simp, rfl⟩
  | two c d pdata hc hc' h =>
    have hd := d.isLt
    have hsize : opcodeSize opcode = 2 := by
      have hcases := opcodeSize_cases opcode
      omega
    have hfirst : (opcode >>> 8 &&& 0xff).setWidth 8 = c := by
      apply BitVec.eq_of_toNat_eq
      rw [toNat_byte]
      omega
    have hsecond : (opcode &&& 0xff).setWidth 8 = d := by
      apply BitVec.eq_of_toNat_eq
      rw [toNat_low]
      omega
    rw [hsize, if_neg (by decide), if_pos rfl, hfirst, hsecond]
    exact ⟨by omega, by simp, rfl⟩
  | three c d f pdata hc h =>
    have hc' := c.isLt
    have hd := d.isLt
    have hf := f.isLt
    have hsize : opcodeSize opcode = 3 := by
      have hcases := opcodeSize_cases opcode
      omega
    have hfirst : (opcode >>> 16 &&& 0xff).setWidth 8 = c := by
      apply BitVec.eq_of_toNat_eq
      rw [toNat_byte]
      omega
    have hsecond : (opcode >>> 8 &&& 0xff).setWidth 8 = d := by
      apply BitVec.eq_of_toNat_eq
      rw [toNat_byte]
      omega
    have hthird : (opcode &&& 0xff).setWidth 8 = f := by
      apply BitVec.eq_of_toNat_eq
      rw [toNat_low]
      omega
    rw [hsize, if_neg (by decide), if_neg (by decide), hfirst, hsecond, hthird]
    exact ⟨by omega, by simp, rfl⟩

/-- The bytes of an opcode of one of the three ranges are read as the opcode. -/
theorem Encodable.read (h : Encodable opcode) (params : List Byte) :
    Read opcode (opcodeBytes opcode ++ params) := by
  rw [encodable_iff] at h
  rw [opcodeBytes]
  have hlow := toNat_low opcode
  have hmid := toNat_byte opcode 8
  have hhigh := toNat_byte opcode 16
  rcases opcodeSize_cases opcode with ⟨hs, hr⟩ | ⟨hs, hr⟩ | ⟨hs, hr⟩
  · have hbyte : (opcode.setWidth 8).toNat = opcode.toNat := by
      rw [BitVec.toNat_setWidth]
      omega
    rw [if_pos hs]
    exact .one _ params (by omega) hbyte.symm
  · rw [if_neg (by omega), if_pos hs]
    exact .two _ _ params (by omega) (by omega) (by omega)
  · rw [if_neg (by omega), if_neg (by omega)]
    exact .three _ _ _ params (by omega) (by omega)

/-- An opcode that is written is read back exactly if it lies in one of the three ranges. One that
is read and written again leaves the memory as it was. -/
theorem opcode_roundTrips (opcode : BitVec 32) (pdata : List Byte)
    (hroom : opcodeSize opcode ≤ pdata.length) :
    ((opcodeToBuf opcode (some pdata) >>= bufToOpcode) = .ok opcode ↔ Encodable opcode) ∧
      (bufToOpcode (some pdata) = .ok opcode →
        opcodeToBuf opcode (some pdata) = .ok (some pdata)) := by
  rw [opcodeToBuf_eq hroom, ok_bind, bufToOpcode_iff, bufToOpcode_iff]
  refine ⟨⟨fun h => h.bytes.1, fun h => h.read _⟩, fun h => ?_⟩
  rw [h.bytes.2.2]

theorem opcode_roundTrips_two :
    ((opcodeToBuf 0x8201 (some [0x82, 1, 7]) >>= bufToOpcode) = .ok 0x8201 ↔ Encodable 0x8201) ∧
      (bufToOpcode (some [0x82, 1, 7]) = .ok 0x8201 →
        opcodeToBuf 0x8201 (some [0x82, 1, 7]) = .ok (some [0x82, 1, 7])) :=
  opcode_roundTrips 0x8201 [0x82, 1, 7] (by decide)

end Meshx.AccessOpcode
