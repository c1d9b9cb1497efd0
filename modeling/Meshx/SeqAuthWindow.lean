import Meshx.Segment
import Mathlib.Algebra.Order.ToIntervalMod

/-! The window of 8192 sequence numbers in which a SeqAuth is found again from its 13 low bits:
the two macros on the `int`s that C computes them with, against the representative of a residue
class in a half-open interval. -/
namespace Meshx.Segment

/-- `MESHX_LOWER_TRANS_SEQ_AUTH` on `int`, to which both bit-fields are promoted. -/
def seqAuthInt (seqZero seq : BitVec 32) : BitVec 32 :=
  seqZero + ((seq &&& ~~~0x1FFF#32) - if (seq &&& 0x1FFF#32).slt seqZero then 0x2000#32 else 0#32)

/-- `MESHX_LOWER_TRANS_SEQ_ZERO` on `int`. -/
def seqZeroInt (seq : BitVec 32) : BitVec 32 := seq &&& 0x1FFF#32

/-- `MESHX_LOWER_TRANS_IS_SEQ_AUTH_VALID` on `int`. -/
def isSeqAuthValidInt (seq seqAuth : BitVec 32) : Bool :=
  seqAuth.sle seq && (seq - seqAuth).slt 0x2000#32

section Widths

variable {n : ℕ}

theorem toInt_promote {x : BitVec n} (h : n < 32) : (x.setWidth 32).toInt = x.toNat := by
  have hlt : x.toNat < 2 ^ n := x.isLt
  have hpow : 2 ^ n ≤ 2 ^ 31 := Nat.pow_le_pow_right (by decide) (by omega)
  rw [BitVec.toInt_eq_toNat_of_lt, BitVec.toNat_setWidth, Nat.mod_eq_of_lt (by omega)]
  rw [BitVec.toNat_setWidth, Nat.mod_eq_of_lt (by omega)]
  omega

theorem toNat_promote {x : BitVec n} (h : n < 32) : (x.setWidth 32).toNat = x.toNat := by
  have hlt : x.toNat < 2 ^ n := x.isLt
  have hpow : 2 ^ n ≤ 2 ^ 31 := Nat.pow_le_pow_right (by decide) (by omega)
  rw [BitVec.toNat_setWidth, Nat.mod_eq_of_lt (by omega)]

end Widths

/-- The macro as a sum of integers. It is negative when the numbers below 0x2000 have no room
for the borrow. -/
theorem seqAuthInt_toInt (zero : BitVec 13) (seq : BitVec 24) :
    (seqAuthInt (zero.setWidth 32) (seq.setWidth 32)).toInt =
      zero.toNat + (seq.toNat / 0x2000 * 0x2000 : ℕ) -
        if seq.toNat % 0x2000 < zero.toNat then 0x2000 else 0 := by
  have hseq := seq.isLt
  have hzero := zero.isLt
  have hcond : ((seq.setWidth 32 &&& 0x1FFF#32).slt (zero.setWidth 32) = true) ↔
      seq.toNat % 0x2000 < zero.toNat := by
    rw [BitVec.slt_iff_toInt_lt, toInt_promote (by decide), BitVec.toInt_eq_toNat_of_lt,
      and_low (by decide), toNat_promote (by decide), Nat.cast_lt]
    rw [and_low (by decide)]
    omega
  have hhigh := and_high (seq.setWidth 32)
  rw [toNat_promote (by decide)] at hhigh
  have hz : (zero.setWidth 32).toNat = zero.toNat := toNat_promote (by decide)
  by_cases hc : seq.toNat % 0x2000 < zero.toNat
  · rw [seqAuthInt, if_pos (hcond.mpr hc), if_pos hc, BitVec.toInt_eq_toNat_bmod,
      BitVec.toNat_add, BitVec.toNat_sub, hhigh, hz, show (0x2000#32).toNat = 0x2000 from rfl,
      Int.bmod_def]
    split_ifs <;> omega
  · rw [seqAuthInt, if_neg (fun h => hc (hcond.mp h)), if_neg hc, BitVec.toInt_eq_toNat_bmod,
      BitVec.toNat_add, BitVec.toNat_sub, hhigh, hz, show (0#32).toNat = 0 from rfl,
      Int.bmod_def]
    split_ifs <;> omega

theorem seqZeroInt_promote (x : BitVec 24) :
    seqZeroInt (x.setWidth 32) = (seqZero x).setWidth 32 := by
  refine BitVec.eq_of_toNat_eq ?_
  rw [seqZeroInt, and_low (by decide), toNat_promote (by decide), toNat_promote (by decide),
    seqZero, BitVec.toNat_setWidth]

theorem isSeqAuthValidInt_iff (seq seqAuth : BitVec 24) :
    isSeqAuthValidInt (seq.setWidth 32) (seqAuth.setWidth 32) = true ↔
      seqAuth.toNat ≤ seq.toNat ∧ seq.toNat - seqAuth.toNat < 0x2000 := by
  have h₁ := seq.isLt
  have h₂ := seqAuth.isLt
  have hsub : seqAuth.toNat ≤ seq.toNat →
      (seq.setWidth 32 - seqAuth.setWidth 32).toInt = (seq.toNat - seqAuth.toNat : ℕ) := by
    intro hle
    have hnat : (seq.setWidth 32 - seqAuth.setWidth 32).toNat = seq.toNat - seqAuth.toNat := by
      rw [BitVec.toNat_sub, toNat_promote (by decide), toNat_promote (by decide)]
      omega
    rw [BitVec.toInt_eq_toNat_of_lt (by rw [hnat]; omega), hnat]
  rw [isSeqAuthValidInt, Bool.and_eq_true, BitVec.sle_iff_toInt_le, BitVec.slt_iff_toInt_lt,
    toInt_promote (by decide), toInt_promote (by decide), Nat.cast_le,
    show (0x2000#32).toInt = 0x2000 from rfl]
  constructor
  · rintro ⟨hle, hlt⟩
    rw [hsub hle] at hlt
    exact ⟨hle, by exact_mod_cast hlt⟩
  · rintro ⟨hle, hlt⟩
    rw [hsub hle]
    exact ⟨hle, by exact_mod_cast hlt⟩

/-- The check that is modelled on the 24 bits. -/
theorem isSeqAuthValidInt_promote (seq seqAuth : BitVec 24) :
    isSeqAuthValidInt (seq.setWidth 32) (seqAuth.setWidth 32) = isSeqAuthValid seq seqAuth := by
  rw [Bool.eq_iff_iff, isSeqAuthValidInt_iff, isSeqAuthValid_iff]

/-- What the 24 bits of `seq_auth` take of the macro. -/
theorem seqAuthInt_setWidth (zero : BitVec 13) (seq : BitVec 24) :
    (seqAuthInt (zero.setWidth 32) (seq.setWidth 32)).setWidth 24 = seqAuthOf zero seq := by
  have hz := zero.isLt
  have hs := seq.isLt
  have hint := seqAuthInt_toInt zero seq
  have hwidth : (zero.setWidth 24).toNat = zero.toNat := by
    rw [BitVec.toNat_setWidth]
    omega
  have hcond : (seq &&& 0x1FFF#24 < zero.setWidth 24) ↔ seq.toNat % 0x2000 < zero.toNat := by
    rw [BitVec.lt_def, and_low (by decide), hwidth]
  have hlt := (seqAuthInt (zero.setWidth 32) (seq.setWidth 32)).isLt
  refine BitVec.eq_of_toNat_eq ?_
  rw [BitVec.toInt_eq_toNat_bmod, Int.bmod_def] at hint
  rw [BitVec.toNat_setWidth, seqAuthOf, BitVec.toNat_add, BitVec.toNat_sub, and_high, hwidth]
  by_cases hc : seq.toNat % 0x2000 < zero.toNat
  · rw [if_pos hc] at hint
    rw [if_pos (hcond.mpr hc), show (0x2000#24).toNat = 0x2000 from rfl]
    split_ifs at hint <;> omega
  · rw [if_neg hc] at hint
    rw [if_neg (fun h => hc (hcond.mp h)), show (0 : BitVec 24).toNat = 0 from rfl]
    split_ifs at hint <;> omega

/-- The window ends at the sequence number. -/
def window (seq : BitVec 24) : Set ℤ :=
  Set.Ioc (seq.toNat - 0x2000 : ℤ) (seq.toNat - 0x2000 + 0x2000)

theorem mem_window {seq seqAuth : BitVec 24} : (seqAuth.toNat : ℤ) ∈ window seq ↔
    isSeqAuthValidInt (seq.setWidth 32) (seqAuth.setWidth 32) = true := by
  rw [isSeqAuthValidInt_iff, window, Set.mem_Ioc]
  omega

/-- The macro is the representative of its residue class in the window, also where the window
reaches below zero. -/
theorem seqAuthInt_eq_toIocMod (zero : BitVec 13) (seq : BitVec 24) :
    (seqAuthInt (zero.setWidth 32) (seq.setWidth 32)).toInt =
      toIocMod (show (0 : ℤ) < 0x2000 by decide) (seq.toNat - 0x2000 : ℤ) zero.toNat := by
  have hz := zero.isLt
  refine ((toIocMod_eq_iff _).mpr ⟨?_, ?_⟩).symm
  · rw [Set.mem_Ioc, seqAuthInt_toInt]
    split_ifs <;> omega
  · rw [seqAuthInt_toInt]
    by_cases hc : seq.toNat % 0x2000 < zero.toNat
    · refine ⟨1 - (seq.toNat / 0x2000 : ℕ), ?_⟩
      rw [if_pos hc, smul_eq_mul]
      push_cast
      ring
    · refine ⟨-(seq.toNat / 0x2000 : ℕ), ?_⟩
      rw [if_neg hc, smul_eq_mul]
      push_cast
      ring

/-- A SeqAuth of the window with the 13 bits is the one that the macro finds. -/
theorem window_iff {zero : BitVec 13} {seq seqAuth : BitVec 24}
    (hwin : (seqAuth.toNat : ℤ) ∈ window seq) : seqZero seqAuth = zero ↔
      seqAuthInt (zero.setWidth 32) (seq.setWidth 32) = seqAuth.setWidth 32 := by
  have hmod : seqAuthInt (zero.setWidth 32) (seq.setWidth 32) = seqAuth.setWidth 32 ↔
      (seqAuth.toNat : ℤ) ∈ window seq ∧
        ∃ k : ℤ, (zero.toNat : ℤ) = seqAuth.toNat + k • 0x2000 := by
    rw [← BitVec.toInt_inj, toInt_promote (by decide), seqAuthInt_eq_toIocMod, toIocMod_eq_iff]
    rfl
  have hz := zero.isLt
  rw [hmod, ← BitVec.toNat_inj, seqZero, BitVec.toNat_setWidth]
  constructor
  · intro h
    refine ⟨hwin, -(seqAuth.toNat / 0x2000 : ℕ), ?_⟩
    rw [smul_eq_mul]
    omega
  · rintro ⟨-, k, hk⟩
    rw [smul_eq_mul] at hk
    omega

theorem seqZeroInt_eq_iff {zero : BitVec 13} {seqAuth : BitVec 24} :
    seqZeroInt (seqAuth.setWidth 32) = zero.setWidth 32 ↔ seqZero seqAuth = zero := by
  rw [seqZeroInt_promote, ← BitVec.toNat_inj, toNat_promote (by decide), toNat_promote (by decide),
    BitVec.toNat_inj]

/-- Every SeqAuth is found again from its SeqZero and any sequence number of its window, and
where a sequence number has a SeqAuth with the SeqZero in its window, the one found is it. -/
theorem seqAuth_reconstruction :
    (∀ seqAuth seq : BitVec 24,
      isSeqAuthValidInt (seq.setWidth 32) (seqAuth.setWidth 32) = true →
        seqAuthInt (seqZeroInt (seqAuth.setWidth 32)) (seq.setWidth 32) = seqAuth.setWidth 32) ∧
    ∀ (zero : BitVec 13) (seq : BitVec 24),
      (∃ seqAuth : BitVec 24,
        isSeqAuthValidInt (seq.setWidth 32) (seqAuth.setWidth 32) = true ∧
          seqZeroInt (seqAuth.setWidth 32) = zero.setWidth 32) →
      ∀ seqAuth : BitVec 24,
        (isSeqAuthValidInt (seq.setWidth 32) (seqAuth.setWidth 32) = true ∧
          seqZeroInt (seqAuth.setWidth 32) = zero.setWidth 32) ↔
        seqAuthInt (zero.setWidth 32) (seq.setWidth 32) = seqAuth.setWidth 32 := by
  have hfound (zero : BitVec 13) (seq seqAuth : BitVec 24)
      (hvalid : isSeqAuthValidInt (seq.setWidth 32) (seqAuth.setWidth 32) = true)
      (hzero : seqZeroInt (seqAuth.setWidth 32) = zero.setWidth 32) :
      seqAuthInt (zero.setWidth 32) (seq.setWidth 32) = seqAuth.setWidth 32 :=
    (window_iff (mem_window.mpr hvalid)).mp (seqZeroInt_eq_iff.mp hzero)
  refine ⟨fun seqAuth seq hvalid => ?_, ?_⟩
  · rw [seqZeroInt_promote]
    exact hfound _ seq seqAuth hvalid (seqZeroInt_promote seqAuth)
  · rintro zero seq ⟨other, hvalid, hzero⟩ seqAuth
    have hother := hfound zero seq other hvalid hzero
    constructor
    · rintro ⟨hv, hz⟩
      exact hfound zero seq seqAuth hv hz
    · intro h
      -- both are what the macro finds
      obtain rfl : other = seqAuth := by
        rw [← BitVec.toNat_inj, ← toNat_promote (show 24 < 32 by decide), ← hother, h,
          toNat_promote (by decide)]
      exact ⟨hvalid, hzero⟩

/-- The edge of the window, across a multiple of 0x2000. -/
theorem seqAuth_reconstruction_edge :
    seqAuthInt (seqZeroInt 0x1FFE#32) 0x3FFD#32 = 0x1FFE#32 ∧
      seqAuthInt 0x1FFE#32 0x3FFD#32 = 0x1FFE#32 :=
  ⟨seqAuth_reconstruction.1 0x1FFE#24 0x3FFD#24 (by decide),
    (seqAuth_reconstruction.2 0x1FFE#13 0x3FFD#24 ⟨0x1FFE#24, by decide, by decide⟩ 0x1FFE#24).mp
      ⟨by decide, by decide⟩⟩

end Meshx.Segment
