import Meshx.Common
import Meshx.Lib.Mask

/-! Segments of lower transport messages: sizes, the sequence number window and the header
that sender and receiver share. -/
namespace Meshx.Segment

open Lib

/-- `MESHX_LOWER_TRANS_SEG_CTL_MAX_PDU_SIZE` and its sibling for access messages. -/
def segSize (ctl : Bool) : ℕ := if ctl then 8 else 12

/-- `MESHX_LOWER_TRANS_UNSEG_CTL_MAX_PDU_SIZE` and its sibling for access messages. -/
def unsegSize (ctl : Bool) : ℕ := if ctl then 11 else 15

def maxSegSize : ℕ := 0x1F

/-- The segments of a message, counted in a `uint8_t`. -/
def segNum (ctl : Bool) (pduLen : ℕ) : ℕ := ((pduLen + segSize ctl - 1) / segSize ctl) % 256

def seqZero (seq : BitVec 24) : BitVec 13 := seq.setWidth 13

def isSeqAuthValid (seq seqAuth : BitVec 24) : Bool :=
  seqAuth ≤ seq && seq - seqAuth < 0x2000#24

/-- `MESHX_LOWER_TRANS_SEQ_AUTH`, as far as it fits into the 24 bits of `seq_auth`. -/
def seqAuthOf (zero : BitVec 13) (seq : BitVec 24) : BitVec 24 :=
  zero.setWidth 24 +
    ((seq &&& ~~~0x1FFF#24) - if (seq &&& 0x1FFF#24) < zero.setWidth 24 then 0x2000#24 else 0)

/-- The three header bytes behind the first one, as the number they are before the swap. -/
structure SegMisc where
  top : Bool
  seqZero : BitVec 13
  sego : BitVec 5
  segn : BitVec 5
  deriving DecidableEq, Repr

def SegMisc.pack (m : SegMisc) : BitVec 24 :=
  BitVec.ofBool m.top ++ m.seqZero ++ m.sego ++ m.segn

def SegMisc.unpack (x : BitVec 24) : SegMisc :=
  ⟨x.getLsbD 23, x.extractLsb' 10 13, x.extractLsb' 5 5, x.extractLsb' 0 5⟩

/-- `meshx_swap` on the first and the last of the three bytes. -/
def swap24 (x : BitVec 24) : BitVec 24 :=
  x.extractLsb' 0 8 ++ x.extractLsb' 8 8 ++ x.extractLsb' 16 8

/-- The first byte of an access PDU. -/
def accessHeader (seg akf : Bool) (aid : BitVec 6) : Byte :=
  BitVec.ofBool seg ++ BitVec.ofBool akf ++ aid

/-- The first byte of a control PDU; the opcode is cut to seven bits. -/
def ctlHeader (seg : Bool) (opcode : Byte) : Byte := BitVec.ofBool seg ++ opcode.extractLsb' 0 7

/-- The first byte of a PDU as `meshx_lower_trans_send` and its segments write it. -/
def header (seg : Bool) (ctx : MsgCtx) : Byte :=
  if ctx.ctl then ctlHeader seg ctx.opcode
  else accessHeader seg ctx.akf (if ctx.akf then ctx.aid else 0)

theorem SegMisc.unpack_pack (m : SegMisc) : SegMisc.unpack m.pack = m := by
  obtain ⟨top, zero, sego, segn⟩ := m
  simp only [SegMisc.unpack, SegMisc.pack, SegMisc.mk.injEq]
  refine ⟨?_, ?_, ?_, ?_⟩
  · simp only [BitVec.getLsbD_append]
    cases top <;> rfl
  · rw [BitVec.extractLsb'_append_eq_of_le (by decide),
      BitVec.extractLsb'_append_eq_of_le (by decide), BitVec.extractLsb'_append_eq_right]
  · rw [BitVec.extractLsb'_append_eq_of_le (by decide), BitVec.extractLsb'_append_eq_right]
  · exact BitVec.extractLsb'_append_eq_right

theorem segSize_pos (ctl : Bool) : 0 < segSize ctl := by cases ctl <;> decide

theorem isSeqAuthValid_iff (seq seqAuth : BitVec 24) : isSeqAuthValid seq seqAuth = true ↔
    seqAuth.toNat ≤ seq.toNat ∧ seq.toNat - seqAuth.toNat < 0x2000 := by
  have h₁ := seq.isLt
  have h₂ := seqAuth.isLt
  simp only [isSeqAuthValid, Bool.and_eq_true, decide_eq_true_eq, BitVec.le_def, BitVec.lt_def]
  constructor
  · rintro ⟨hle, hlt⟩
    rw [BitVec.toNat_sub_of_le (by rwa [BitVec.le_def])] at hlt
    exact ⟨hle, by simpa using hlt⟩
  · rintro ⟨hle, hlt⟩
    rw [BitVec.toNat_sub_of_le (by rwa [BitVec.le_def])]
    exact ⟨hle, by simpa using hlt⟩

section Masks

variable {w : ℕ}

theorem low_getLsbD {i : ℕ} (hi : i < w) : (0x1FFF#w).getLsbD i = decide (i < 13) := by
  rw [BitVec.getLsbD_ofNat, decide_eq_true hi, Bool.true_and]
  exact Nat.testBit_two_pow_sub_one 13 i

theorem and_low (h : 13 ≤ w) (x : BitVec w) : (x &&& 0x1FFF#w).toNat = x.toNat % 0x2000 := by
  have hpow : 2 ^ 13 ≤ 2 ^ w := Nat.pow_le_pow_right (by decide) h
  rw [BitVec.toNat_and, BitVec.toNat_ofNat, Nat.mod_eq_of_lt (by omega)]
  exact Nat.and_two_pow_sub_one_eq_mod x.toNat 13

theorem and_high (x : BitVec w) :
    (x &&& ~~~0x1FFF#w).toNat = x.toNat / 0x2000 * 0x2000 := by
  have h : x &&& ~~~0x1FFF#w = (x >>> 13) <<< 13 := by
    refine BitVec.eq_of_getLsbD_eq fun i hi => ?_
    rw [BitVec.getLsbD_and, BitVec.getLsbD_not, low_getLsbD hi]
    by_cases hlow : i < 13
    · simp [hlow]
    · simp [hlow, hi, show 13 + (i - 13) = i by omega]
  have hlt := x.isLt
  have hle : x.toNat / 0x2000 * 0x2000 ≤ x.toNat := Nat.div_mul_le_self _ _
  rw [h, BitVec.toNat_shiftLeft, BitVec.toNat_ushiftRight, Nat.shiftLeft_eq,
    Nat.shiftRight_eq_div_pow, Nat.mod_eq_of_lt (by omega)]

end Masks

theorem seqZero_toNat (x : BitVec 24) : ((seqZero x).setWidth 24).toNat = x.toNat % 0x2000 := by
  have hlt := x.isLt
  rw [BitVec.toNat_setWidth, seqZero, BitVec.toNat_setWidth]
  omega

/-- The receiver finds the SeqAuth of every segment sent in its window. -/
theorem seqAuthOf_seqZero {seq seqAuth : BitVec 24} (h : isSeqAuthValid seq seqAuth = true) :
    seqAuthOf (seqZero seqAuth) seq = seqAuth := by
  obtain ⟨hle, hlt⟩ := (isSeqAuthValid_iff _ _).mp h
  have h₁ := seq.isLt
  refine BitVec.eq_of_toNat_eq ?_
  rw [seqAuthOf, BitVec.toNat_add, BitVec.toNat_sub, seqZero_toNat, and_high]
  have hcond : (seq &&& 0x1FFF#24 < (seqZero seqAuth).setWidth 24) ↔
      seq.toNat % 0x2000 < seqAuth.toNat % 0x2000 := by
    rw [BitVec.lt_def, and_low (by decide), seqZero_toNat]
  by_cases hc : seq.toNat % 0x2000 < seqAuth.toNat % 0x2000
  · rw [if_pos (hcond.mpr hc), show (0x2000#24).toNat = 0x2000 from rfl]
    omega
  · rw [if_neg (fun h' => hc (hcond.mp h')), show (0 : BitVec 24).toNat = 0 from rfl]
    omega

/-- Whatever the segment carries, its SEQ lies in the window of the SeqAuth read from it,
counted round the 24 bits. -/
theorem sub_seqAuthOf (zero : BitVec 13) (seq : BitVec 24) :
    (seq - seqAuthOf zero seq).toNat < 0x2000 := by
  have h₁ := seq.isLt
  have hz := zero.isLt
  have hzero : (zero.setWidth 24).toNat = zero.toNat := by
    rw [BitVec.toNat_setWidth]; omega
  have hcond : (seq &&& 0x1FFF#24 < zero.setWidth 24) ↔ seq.toNat % 0x2000 < zero.toNat := by
    rw [BitVec.lt_def, and_low (by decide), hzero]
  rw [BitVec.toNat_sub, seqAuthOf, BitVec.toNat_add, BitVec.toNat_sub, and_high, hzero]
  by_cases hc : seq.toNat % 0x2000 < zero.toNat
  · rw [if_pos (hcond.mpr hc), show (0x2000#24).toNat = 0x2000 from rfl]
    omega
  · rw [if_neg (fun h' => hc (hcond.mp h')), show (0 : BitVec 24).toNat = 0 from rfl]
    omega

end Meshx.Segment
