import Meshx.LowerTransRx
import Meshx.Lib.Pieces

/-! Segmented messages: the segments that `meshx_lower_trans_send_seg_msg` cuts a message into,
and what the receiving side reads from each of them. -/
namespace Meshx.LowerTransRx

open Lib Segment Receiver
open LowerTransTx (NetCall Sender TxConf sendSegMsg sendSegs sendSegs_cases segPdu segMisc segLen)

/-- A message that is sent in segments. Its context is the one of its task; the numbers of its
segments are drawn one by one. -/
structure SegMsg where
  ctx : MsgCtx
  data : List Byte
  src_valid : addressIsValid ctx.src = true
  dst_valid : addressIsValid ctx.dst = true
  nonempty : 0 < data.length
  length_le : data.length ≤ maxSegSize * segSize ctx.ctl

theorem segNum_spec {ctl : Bool} {n : ℕ} (h : 0 < n) (hle : n ≤ maxSegSize * segSize ctl) :
    0 < segNum ctl n ∧ segNum ctl n ≤ 31 ∧ (segNum ctl n - 1) * segSize ctl < n ∧
      n ≤ segNum ctl n * segSize ctl := by
  unfold segNum maxSegSize at *
  cases ctl <;> simp only [segSize, if_true, if_false, Bool.false_eq_true] at * <;> omega

namespace SegMsg

/-- Where a segment starts in the message. -/
def offset (m : SegMsg) (i : ℕ) : ℕ := i * segSize m.ctx.ctl

def num (m : SegMsg) : ℕ := segNum m.ctx.ctl m.data.length

/-- The data of a segment. -/
def part (m : SegMsg) (i : ℕ) : List Byte := piece m.data m.offset i

variable {m : SegMsg} {i : ℕ}

theorem offset_mono : Monotone m.offset := fun _ _ h => Nat.mul_le_mul_right _ h

theorem offset_zero : m.offset 0 = 0 := Nat.zero_mul _

theorem offset_succ : m.offset (i + 1) = m.offset i + segSize m.ctx.ctl := Nat.succ_mul _ _

variable (m) in
/-- The last segment starts inside the message and the one after it would not. -/
theorem num_spec : 0 < m.num ∧ m.num ≤ 31 ∧ m.offset (m.num - 1) < m.data.length ∧
    m.data.length ≤ m.offset m.num :=
  segNum_spec m.nonempty m.length_le

theorem part_length : (m.part i).length = min (segSize m.ctx.ctl) (m.data.length - m.offset i) := by
  rw [part, piece_length, offset_succ, Nat.add_sub_cancel_left]

theorem part_length_le : (m.part i).length ≤ segSize m.ctx.ctl := by
  rw [part_length]
  exact Nat.min_le_left _ _

theorem part_length_inner (h : i + 1 < m.num) : (m.part i).length = segSize m.ctx.ctl := by
  obtain ⟨-, -, hlast, -⟩ := num_spec m
  have hle : m.offset (i + 1) ≤ m.offset (m.num - 1) := offset_mono (by omega)
  rw [offset_succ] at hle
  rw [part_length]
  omega

end SegMsg

theorem segSize_lt (ctl : Bool) : segSize ctl < 13 := by cases ctl <;> decide

/-- A call that hands a segment of the message to the network layer. -/
structure SegMsg.Segment (m : SegMsg) (i : ℕ) (call : NetCall) : Prop where
  lt : i < m.num
  ctx : call.ctx = { m.ctx with seq := call.ctx.seq }
  valid : isSeqAuthValid call.ctx.seq m.ctx.seqAuth = true
  pdu : ∃ misc, call.pdu = segPdu m.ctx (segMisc m.ctx m.num i misc) (m.part i)

section Sending

variable {m : SegMsg} {conf : TxConf} {blockAck : BitVec 32} {s s' : Sender} {ret : Errno}
  {ctx ctx' : MsgCtx}

theorem SegMsg.take_segLen {i : ℕ} :
    (m.data.drop (m.offset i)).take (segLen m.ctx.ctl m.data.length m.num i (m.offset i)) =
      m.part i := by
  obtain ⟨-, -, hlast, hle⟩ := m.num_spec
  have hsize := segSize_lt m.ctx.ctl
  rw [segLen, SegMsg.part, piece, SegMsg.offset_succ, Nat.add_sub_cancel_left]
  split_ifs with hl
  · rw [hl, SegMsg.offset_succ] at hle
    rw [Nat.mod_eq_of_lt (by omega), List.take_of_length_le (by rw [List.length_drop]),
      List.take_of_length_le (by rw [List.length_drop]; omega)]
  · rfl

/-- The loop from a segment on hands over segments of the message, all of them if none is
acknowledged and no number leaves the window. -/
theorem sendSegs_segments {rounds i offset : ℕ} {misc : BitVec 24} (hrounds : i + rounds = m.num)
    (hoffset : rounds = 0 ∨ offset = m.offset i) (hctx : ctx = { m.ctx with seq := ctx.seq })
    (h : sendSegs conf (some m.data) m.data.length m.num blockAck rounds i offset misc ctx s =
      .ok (ret, ctx', s')) :
    ∃ calls, s'.sent = calls ++ s.sent ∧ (∀ call ∈ calls, ∃ j, m.Segment j call) ∧
      (blockAck = 0 → ret = .success → ∀ j, i ≤ j → j < m.num →
        ∃ call ∈ calls, m.Segment j call) := by
  induction rounds generalizing i offset misc ctx s with
  | zero =>
    cases h
    exact ⟨[], rfl, by simp, fun _ _ j hij hj => by omega⟩
  | succ rounds ih =>
    obtain rfl : offset = m.offset i := hoffset.resolve_left (Nat.succ_ne_zero _)
    have hi : i < m.num := by omega
    have hctl : ctx.ctl = m.ctx.ctl := by rw [hctx]
    have hnext : rounds = 0 ∨
        m.offset i + segLen ctx.ctl m.data.length m.num i (m.offset i) = m.offset (i + 1) := by
      by_cases hlast : m.num = i + 1
      · left; omega
      · right
        rw [SegMsg.offset_succ, segLen, if_neg hlast, hctl]
    rcases sendSegs_cases h with ⟨hacked, hrest⟩ | ⟨-, -, hout⟩ | ⟨data, -, hdata, hvalid, hrest⟩
    · obtain ⟨calls, hsent, hall, hevery⟩ := ih (by omega) hnext hctx hrest
      refine ⟨calls, hsent, hall, fun h0 => ?_⟩
      rw [h0] at hacked
      simp at hacked
    · cases hout
      exact ⟨[], rfl, by simp, fun _ hret => by cases hret⟩
    · obtain rfl := Option.some.inj hdata
      obtain ⟨calls, hsent, hall, hevery⟩ := ih (by omega) hnext (by rw [hctx]) hrest
      have hseg : m.Segment i ⟨{ ctx with seq := (s.draw conf ctx.src).1 },
          segPdu { ctx with seq := (s.draw conf ctx.src).1 }
            (segMisc { ctx with seq := (s.draw conf ctx.src).1 } m.num i misc)
            ((m.data.drop (m.offset i)).take
              (segLen ctx.ctl m.data.length m.num i (m.offset i)))⟩ := by
        refine ⟨hi, by rw [hctx], ?_, misc, ?_⟩
        · rw [hctx] at hvalid ⊢
          exact hvalid
        · rw [hctl, SegMsg.take_segLen, hctx]
          rfl
      refine ⟨calls ++ [_], by rw [hsent, List.append_assoc]; rfl, fun call hcall => ?_,
        fun h0 hret j hij hj => ?_⟩
      · rcases List.mem_append.mp hcall with hmem | hmem
        · exact hall call hmem
        · exact ⟨i, by rw [List.mem_singleton.mp hmem]; exact hseg⟩
      · by_cases hji : j = i
        · exact ⟨_, List.mem_append_right _ (List.mem_singleton_self _), hji ▸ hseg⟩
        · obtain ⟨call, hmem, hcall⟩ := hevery h0 hret j (by omega) hj
          exact ⟨call, List.mem_append_left _ hmem, hcall⟩

/-- The calls of one `meshx_lower_trans_send_seg_msg` on the message. -/
def SegMsg.SentBy (m : SegMsg) (blockAck : BitVec 32) (ret : Errno) (calls : List NetCall) : Prop :=
  ∃ (conf : TxConf) (stack seq : BitVec 24) (ctx' : MsgCtx) (s s' : Sender),
    sendSegMsg conf (some m.data) m.data.length blockAck stack { m.ctx with seq := seq } s =
      .ok (ret, ctx', s') ∧ s'.sent = calls ++ s.sent

theorem SegMsg.SentBy.segments {calls : List NetCall} (h : m.SentBy blockAck ret calls) :
    (∀ call ∈ calls, ∃ j, m.Segment j call) ∧
      (blockAck = 0 → ret = .success → ∀ j < m.num, ∃ call ∈ calls, m.Segment j call) := by
  obtain ⟨conf, stack, seq, ctx', s, s', hsend, hsent⟩ := h
  rw [sendSegMsg] at hsend
  obtain ⟨calls', hsent', hall, hevery⟩ :=
    sendSegs_segments (Nat.zero_add _) (.inr SegMsg.offset_zero.symm) rfl hsend
  obtain rfl : calls = calls' := List.append_cancel_right (hsent.symm.trans hsent')
  exact ⟨hall, fun h0 hret j hj => hevery h0 hret j (Nat.zero_le j) hj⟩

end Sending

/-- A PDU as the network layer hands it over. What comes after it in the memory is left open. -/
def Carries (call : NetCall) : RxEvent → Prop
  | .receive _ mem len ctx _ =>
    memBytes mem 0 len = call.pdu ∧ ctx.src = call.ctx.src ∧ ctx.dst = call.ctx.dst ∧
      ctx.ctl = call.ctx.ctl ∧ ctx.seq = call.ctx.seq
  | _ => False

/-- The bytes of a segment as the receiving side finds them. -/
structure SegMsg.Reading (m : SegMsg) (i : ℕ) (mem : ℕ → Byte) (len : ℕ) : Prop where
  lt : i < m.num
  first : mem 0 = header true m.ctx
  sego : (rxMisc mem).sego.toNat = i
  segn : (rxMisc mem).segn.toNat = m.num - 1
  seqZero : (rxMisc mem).seqZero = seqZero m.ctx.seqAuth
  szmic : m.ctx.ctl = false → (rxMisc mem).top = m.ctx.szmic
  length : len = 4 + (m.part i).length
  data : memBytes mem 4 (m.part i).length = m.part i

/-- What a context says of its message: the receiving side puts the bits of the first byte and
the SZMIC bit together. -/
structure SegMsg.Reads (m : SegMsg) (ctx : MsgCtx) : Prop where
  src : ctx.src = m.ctx.src
  ctl : ctx.ctl = m.ctx.ctl
  ivIndex : ctx.ivIndex = m.ctx.ivIndex
  seqAuth : ctx.seqAuth = m.ctx.seqAuth
  info : ctx.info =
    if m.ctx.ctl then ((header true m.ctx).extractLsb' 0 7).setWidth 8
    else MsgCtx.accessInfo ((header true m.ctx).getLsbD 6) m.ctx.szmic
      ((header true m.ctx).extractLsb' 0 6)

section Reading

variable {m : SegMsg} {i len : ℕ} {mem : ℕ → Byte} {call : NetCall} {ctx ctx' : MsgCtx}

theorem memBytes_getElem? {offset n j : ℕ} (hj : j < n) :
    (memBytes mem offset n)[j]? = some (mem (offset + j)) := by
  simp [memBytes, hj]

theorem rxMisc_be24 {x : BitVec 24} (h1 : mem 1 = x.extractLsb' 16 8)
    (h2 : mem 2 = x.extractLsb' 8 8) (h3 : mem 3 = x.extractLsb' 0 8) :
    rxMisc mem = .unpack x := by
  rw [rxMisc, h1, h2, h3]
  exact congrArg SegMisc.unpack (readBe24_be24 x [])

/-- The bytes of a segment in memory: the header gives back the fields that were packed. -/
theorem segPdu_reading {ctx : MsgCtx} {num i : ℕ} {misc : BitVec 24} {part : List Byte}
    (hmem : memBytes mem 0 len = segPdu ctx (segMisc ctx num i misc) part) :
    len = 4 + part.length ∧ mem 0 = header true ctx ∧ rxMisc mem = segMisc ctx num i misc ∧
      memBytes mem 4 part.length = part := by
  have hlen : len = 4 + part.length := by
    have hl := congrArg List.length hmem
    simp [memBytes, segPdu] at hl
    omega
  have hget (j : ℕ) (hj : j < len) :
      mem j = (segPdu ctx (segMisc ctx num i misc) part).getD j 0 := by
    rw [← hmem, List.getD_eq_getElem?_getD, memBytes_getElem? hj, Nat.zero_add, Option.getD_some]
  refine ⟨hlen, hget 0 (by omega), ?_, ?_⟩
  · rw [rxMisc_be24 (hget 1 (by omega)) (hget 2 (by omega)) (hget 3 (by omega)),
      SegMisc.unpack_pack]
  · refine List.ext_getElem? fun j => ?_
    by_cases hj : j < part.length
    · rw [memBytes_getElem? hj, hget (4 + j) (by omega), segPdu]
      simp [be24, hj, Nat.add_comm 4 j]
    · rw [List.getElem?_eq_none (by simp [memBytes]; omega), List.getElem?_eq_none (by omega)]

theorem SegMsg.Segment.reading (h : m.Segment i call) (hmem : memBytes mem 0 len = call.pdu) :
    m.Reading i mem len := by
  obtain ⟨misc, hpdu⟩ := h.pdu
  have hnum := m.num_spec
  have hlt := h.lt
  obtain ⟨hlen, hfirst, hmisc, hdata⟩ := segPdu_reading (hmem.trans hpdu)
  refine ⟨hlt, hfirst, ?_, ?_, ?_, ?_, hlen, hdata⟩
  · rw [hmisc, segMisc, BitVec.toNat_ofNat]
    omega
  · rw [hmisc, segMisc, BitVec.toNat_ofNat]
    omega
  · rw [hmisc, segMisc]
  · intro hctl
    rw [hmisc, segMisc, hctl]
    rfl

namespace SegMsg

theorem Reading.segLen (h : m.Reading i mem len) :
    rxSegLen mem len m.ctx.ctl = (m.part i).length := by
  have hlt := h.lt
  have hsize := segSize_lt m.ctx.ctl
  have hle := @part_length_le m i
  rw [rxSegLen, h.length]
  split_ifs with hlast
  · omega
  · have hne : i ≠ m.num - 1 := by
      rw [← h.sego, ← h.segn]
      exact fun he => hlast (BitVec.eq_of_toNat_eq he)
    rw [part_length_inner (by omega)]

theorem Reading.maxPduLen (h : m.Reading i mem len) :
    rxMaxPduLen mem m.ctx.ctl = m.offset m.num := by
  rw [rxMaxPduLen, h.segn, Nat.sub_add_cancel m.num_spec.1, offset]

theorem Reading.reads (h : m.Reading i mem len) (hsrc : ctx.src = m.ctx.src)
    (hctl : ctx.ctl = m.ctx.ctl) (hiv : ctx.ivIndex = m.ctx.ivIndex)
    (hseq : isSeqAuthValid ctx.seq m.ctx.seqAuth = true) : m.Reads (segCtx mem ctx) where
  src := hsrc
  ctl := hctl
  ivIndex := hiv
  seqAuth := by
    rw [segCtx, h.seqZero]
    exact seqAuthOf_seqZero hseq
  info := by
    rw [segCtx, hctl, h.first]
    cases hm : m.ctx.ctl with
    | false => rw [h.szmic hm]
    | true => rfl

theorem Reads.seqAuth_eq (h : m.Reads ctx) : lowerTransSeqAuth ctx = lowerTransSeqAuth m.ctx := by
  rw [lowerTransSeqAuth, lowerTransSeqAuth, h.ivIndex, h.seqAuth]

theorem Reads.agree (h : m.Reads ctx) (h' : m.Reads ctx') : mismatch ctx ctx' = false := by
  have hinfo : ctx.info = ctx'.info := h.info.trans h'.info.symm
  cases hctl : ctx'.ctl <;>
    simp [mismatch, hctl, MsgCtx.opcode, MsgCtx.akf, MsgCtx.aid, MsgCtx.szmic, hinfo]

end SegMsg

end Reading

end Meshx.LowerTransRx
