import Meshx.PbAdvReceive
import Meshx.Lib.Crc

/-! The frame check sequence of a transaction, taken from a table, is the remainder that the
bits of the PDU leave modulo `X ^ 8 + X ^ 2 + X + 1`. -/
namespace Meshx.PbAdv

open Polynomial Lib Prov Lib.Crc

/-- `X ^ 8 + X ^ 2 + X + 1` without its leading term, in reverse: bit `7 - i` is the coefficient
of `X ^ i`. -/
def crcPoly : Byte := 0xe0

/-- The frame check sequence bit by bit: the register starts with ones in all places and its
complement is sent. Of each byte the lowest bit comes first. -/
def bitSerialCrc (data : List Byte) : Byte := ~~~ bitCrc crcPoly 0xff (messageBits data)

theorem generator_crcPoly : generator crcPoly = X ^ 8 + X ^ 2 + X + 1 := by
  have hcoeff : ∀ i < 8, (BitVec.getMsbD crcPoly i).toNat = if i < 3 then 1 else 0 := by decide
  have hpoly : toPoly crcPoly = X ^ 2 + X + 1 := by
    ext i
    rw [coeff_toPoly, coeff_add, coeff_add, coeff_X_pow, coeff_X, coeff_one]
    by_cases hi : i < 8
    · rw [hcoeff i hi]
      interval_cases i <;> simp
    · rw [BitVec.getMsbD_of_ge _ _ (not_lt.mp hi), if_neg (by omega), if_neg (by omega),
        if_neg (by omega)]
      rfl
  rw [generator, hpoly]
  ring

/-- Each entry of the table is what eight shifts make of its index. -/
theorem crc8Table_eq_bitCrc (x : Byte) :
    crc8Table.getD x.toNat 0 = bitCrc crcPoly x (.replicate 8 false) := by
  have hall : ∀ i : Fin 256,
      crc8Table.getD i 0 = bitCrc crcPoly (BitVec.ofFin i) (.replicate 8 false) := by
    decide +kernel
  exact hall x.toFin

theorem crc_eq_bitCrc (data : List Byte) : crc data = bitSerialCrc data := by
  have hcompl : ∀ x : Byte, 0xff - x = ~~~ x := fun x => (BitVec.allOnes_sub_eq_not x)
  rw [crc, foldl_table_eq_bitCrc crc8Table_eq_bitCrc, hcompl]
  rfl

/-- What is sent is the complement of a remainder. -/
theorem toPoly_compl_crc (data : List Byte) :
    toPoly (~~~ crc data) =
      (X ^ (8 * data.length) * toPoly (0xff : Byte) + X ^ 8 * bitsPoly (messageBits data)) %ₘ
        (X ^ 8 + X ^ 2 + X + 1) := by
  rw [crc_eq_bitCrc, bitSerialCrc, BitVec.not_not, toPoly_bitCrc _ _ _ (by decide),
    generator_crcPoly, length_messageBits]

theorem crc_ne_of_within {data data' : List Byte} (hlen : data.length = data'.length)
    (hne : data ≠ data')
    (hwithin : ∃ k, ∀ i, (messageBits data)[i]? ≠ (messageBits data')[i]? → k ≤ i ∧ i < k + 8) :
    crc data ≠ crc data' := by
  have hbits : DifferWithin 8 (messageBits data) (messageBits data') :=
    ⟨by rw [length_messageBits, length_messageBits, hlen],
      fun h => hne (messageBits_injective hlen h), hwithin⟩
  rw [crc_eq_bitCrc, crc_eq_bitCrc]
  exact fun heq =>
    bitCrc_ne_of_differWithin crcPoly 0xff (by decide) hbits (BitVec.not_inj.mp heq)

/-- The table computes the bit-serial code of `X ^ 8 + X ^ 2 + X + 1`, and tells apart any two
PDUs of one length that differ only in eight bits in a row. -/
theorem crc_bitSerial :
    generator crcPoly = X ^ 8 + X ^ 2 + X + 1 ∧ (∀ data, crc data = bitSerialCrc data) ∧
      ∀ data data' : List Byte, data.length = data'.length → data ≠ data' →
        (∃ k, ∀ i, (messageBits data)[i]? ≠ (messageBits data')[i]? → k ≤ i ∧ i < k + 8) →
        crc data ≠ crc data' := by
  exact ⟨generator_crcPoly, crc_eq_bitCrc, fun _ _ => crc_ne_of_within⟩

/-- Eight bits in a row across the border of two bytes. -/
theorem crc_bitSerial_border : crc [0x01, 0xf0, 0x0f, 0x7e] ≠ crc [0x01, 0x00, 0x00, 0x7e] := by
  refine crc_bitSerial.2.2 _ _ rfl (by decide) ⟨12, fun i hi => ?_⟩
  by_contra hout
  rcases lt_or_ge i 32 with hlt | hge
  · interval_cases i <;> first | omega | exact hi (by decide)
  · exact hi ((List.getElem?_eq_none (by simpa [length_messageBits] using hge)).trans
      (List.getElem?_eq_none (by simpa [length_messageBits] using hge)).symm)

/-- A transaction whose data arrived with such a change is thrown away and not handed on. -/
theorem recvProvPdu_changed (s : PbAdvDev) (sent : List Byte) (hfcs : s.fcs = crc sent)
    (hlen : (s.provRxPdu.take s.transDataLen).length = sent.length)
    (hne : s.provRxPdu.take s.transDataLen ≠ sent)
    (hwithin : ∃ k, ∀ i, (messageBits (s.provRxPdu.take s.transDataLen))[i]? ≠
      (messageBits sent)[i]? → k ≤ i ∧ i < k + 8) (hstate : s.dev.state ≠ .failed) :
    (recvProvPdu s).1 = { s with transDataLen := 0 } := by
  have hcrc := crc_ne_of_within hlen hne hwithin
  rw [recvProvPdu, if_neg hstate, if_pos (hfcs ▸ hcrc)]

end Meshx.PbAdv
