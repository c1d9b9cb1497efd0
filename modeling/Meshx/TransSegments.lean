import Meshx.PbAdvReceive
import Meshx.Lib.Pieces

/-! The segments of a transaction: which pieces of the PDU `pb_adv_send_trans` sends and how the
receiving side reads them. -/
namespace Meshx.PbAdv

open Lib Prov

/-- Where a segment starts in the PDU. -/
def segStart (i : ℕ) : ℕ := if i = 0 then 0 else transStartMax + transContinueMax * (i - 1)

theorem segStart_zero : segStart 0 = 0 := rfl

theorem segStart_succ (i : ℕ) : segStart (i + 1) = 20 + 23 * i := rfl

theorem segStart_mono : Monotone segStart := by
  refine monotone_nat_of_le_succ fun i => ?_
  cases i with
  | zero => exact Nat.zero_le _
  | succ i =>
    rw [segStart_succ, segStart_succ]
    omega

theorem calcSegNum_pos (len : ℕ) : 0 < calcSegNum len := by
  unfold calcSegNum
  split_ifs
  · exact Nat.one_pos
  · exact Nat.succ_pos _

/-- The last segment starts inside the PDU and the one after it would not. -/
theorem calcSegNum_spec {len : ℕ} (h : 0 < len) :
    segStart (calcSegNum len - 1) < len ∧ len ≤ segStart (calcSegNum len) := by
  unfold calcSegNum transStartMax transContinueMax
  split_ifs with hlen
  · exact ⟨h, hlen⟩
  · have hdiv : 0 < (len - 20 + 23 - 1) / 23 := Nat.div_pos (by omega) (by decide)
    obtain ⟨q, hq⟩ : ∃ q, (len - 20 + 23 - 1) / 23 = q + 1 := ⟨_, (Nat.sub_add_cancel hdiv).symm⟩
    rw [hq, Nat.add_sub_cancel, segStart_succ, segStart_succ]
    omega

/-- A PDU that fits into the buffer has at most three segments. -/
theorem calcSegNum_le {len : ℕ} (h : len ≤ provPduMax) : calcSegNum len ≤ 3 := by
  unfold provPduMax at h
  unfold calcSegNum transStartMax transContinueMax
  split_ifs <;> omega

section Packets

variable (linkId : BitVec 32) (transNum : Byte) (data : List Byte)

/-- The packet of one segment. -/
def segPkt (i : ℕ) : List Byte :=
  if i = 0 then
    transStartPkt linkId transNum (calcSegNum data.length - 1) data.length (crc data)
      (piece data segStart 0)
  else transContinuePkt linkId transNum i (piece data segStart i)

variable {linkId transNum data}

theorem take_firstLen :
    data.take (if calcSegNum data.length = 1 then data.length else transStartMax) =
    piece data segStart 0 := by
  have hpiece : piece data segStart 0 = data.take 20 := rfl
  rw [hpiece]
  split_ifs with h
  · have hlen : data.length ≤ 20 := by
      by_contra hgt
      have hspec := (calcSegNum_spec (Nat.zero_lt_of_lt (Nat.lt_of_not_le hgt))).2
      rw [h] at hspec
      exact hgt hspec
    rw [List.take_length, List.take_of_length_le hlen]
  · rfl

theorem segments_eq {left index offset : ℕ} (hleft : left + index = calcSegNum data.length)
    (hoffset : left = 0 ∨ offset = segStart index) :
    segments linkId transNum data left index offset =
      (List.range' index left).map (segPkt linkId transNum data) := by
  induction left generalizing index offset with
  | zero => rfl
  | succ left ih =>
    obtain rfl : offset = segStart index := by simpa using hoffset
    have hnext (m : ℕ) (hm : left = 0 ∨ segStart index + m = segStart (index + 1)) :
        segments linkId transNum data left (index + 1) (segStart index + m) =
          (List.range' (index + 1) left).map (segPkt linkId transNum data) := ih (by omega) hm
    rw [List.range'_succ, List.map_cons, segments]
    cases index with
    | zero =>
      simp only [if_true, take_firstLen]
      rw [hnext _ ?_]
      · rfl
      · by_cases hone : calcSegNum data.length = 1
        · left; omega
        · right
          rw [if_neg hone]
          rfl
    | succ i =>
      have hpos : 0 < data.length := by
        by_contra h0
        have h1 : calcSegNum data.length = 1 := by
          have hz : data.length = 0 := by omega
          rw [hz]
          rfl
        omega
      have hspec := (calcSegNum_spec hpos).2
      have hs := segStart_succ i
      have hs' := segStart_succ (i + 1)
      rw [if_neg (by omega)]
      split_ifs with hlast
      · dsimp only
        rw [hlast, hs'] at hspec
        have hpiece : (data.drop (segStart (i + 1))).take (data.length - segStart (i + 1)) =
            piece data segStart (i + 1) := by
          rw [piece, List.take_of_length_le (by simp), List.take_of_length_le]
          rw [List.length_drop, hs', hs]
          omega
        rw [hpiece, hnext _ (.inl (by omega))]
        rfl
      · dsimp only
        have hsize : segStart (i + 1) + transContinueMax = segStart (i + 2) := by
          rw [hs, hs', transContinueMax]
          ring
        have hpiece : (data.drop (segStart (i + 1))).take transContinueMax =
            piece data segStart (i + 1) := by
          rw [piece, ← hsize, Nat.add_sub_cancel_left]
        rw [hpiece, hnext _ (.inr hsize)]
        rfl

theorem transPkts_eq : transPkts linkId transNum data =
    (List.range (calcSegNum data.length)).map (segPkt linkId transNum data) := by
  have h := @segments_eq linkId transNum data (calcSegNum data.length) 0 0 rfl (.inr rfl)
  rw [transPkts, h, List.range_eq_range']

theorem mem_transPkts {pkt : List Byte} : pkt ∈ transPkts linkId transNum data ↔
    ∃ i < calcSegNum data.length, segPkt linkId transNum data i = pkt := by
  simp [transPkts_eq]

end Packets

section Parse

variable {linkId : BitVec 32} {transNum : Byte} {pdu : List Byte}

theorem gpc_format (format : BitVec 2) (content : BitVec 6) :
    (gpc format content).extractLsb' 0 2 = format := BitVec.extractLsb'_append_eq_right

theorem gpc_content (format : BitVec 2) (content : BitVec 6) :
    (gpc format content).extractLsb' 2 6 = content := BitVec.extractLsb'_append_eq_left

theorem parse_transStart {lastSegNum totalLen : ℕ} {fcs : Byte} (hlast : lastSegNum < 64)
    (htotal : totalLen < 65536) :
    parse (transStartPkt linkId transNum lastSegNum totalLen fcs pdu) =
      .ok (.transStart linkId transNum lastSegNum totalLen fcs pdu) := by
  have hid : readBe32 (transStartPkt linkId transNum lastSegNum totalLen fcs pdu) = linkId :=
    readBe32_be32 linkId _
  have hnum : byteAt (transStartPkt linkId transNum lastSegNum totalLen fcs pdu) 4 = transNum := rfl
  have hgpc : byteAt (transStartPkt linkId transNum lastSegNum totalLen fcs pdu) 5 =
      gpc 0 (BitVec.ofNat 6 lastSegNum) := rfl
  have htot : readBe16 ((transStartPkt linkId transNum lastSegNum totalLen fcs pdu).drop 6) =
      BitVec.ofNat 16 totalLen := readBe16_be16 _ _
  have hlen : ¬ (transStartPkt linkId transNum lastSegNum totalLen fcs pdu).length < 9 := by
    simp [transStartPkt, metadata]
    omega
  simp only [parse, hid, hnum, hgpc, gpc_format, gpc_content, htot]
  rw [if_neg hlen, BitVec.toNat_ofNat, BitVec.toNat_ofNat, Nat.mod_eq_of_lt hlast,
    Nat.mod_eq_of_lt htotal]
  rfl

theorem parse_transContinue {segIndex : ℕ} (h : segIndex < 64) :
    parse (transContinuePkt linkId transNum segIndex pdu) =
      .ok (.transContinue linkId transNum segIndex pdu) := by
  have hid : readBe32 (transContinuePkt linkId transNum segIndex pdu) = linkId :=
    readBe32_be32 linkId _
  have hnum : byteAt (transContinuePkt linkId transNum segIndex pdu) 4 = transNum := rfl
  have hgpc : byteAt (transContinuePkt linkId transNum segIndex pdu) 5 =
      gpc 2 (BitVec.ofNat 6 segIndex) := rfl
  have hlen : ¬ (transContinuePkt linkId transNum segIndex pdu).length < 6 := by
    simp [transContinuePkt, metadata]
    omega
  simp only [parse, hid, hnum, hgpc, gpc_format, gpc_content]
  rw [if_neg hlen, BitVec.toNat_ofNat, Nat.mod_eq_of_lt h]
  rfl

end Parse

end Meshx.PbAdv
