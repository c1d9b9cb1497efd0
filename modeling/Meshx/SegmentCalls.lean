import Meshx.SegMessages
import Meshx.MessageSizes

/-! One round of segments: which segments `meshx_lower_trans_send_seg_msg` hands to the network
layer, with which sequence numbers, and what the receiving side decodes from each of them. -/
namespace Meshx.SegmentCalls

open Lib Security Sequence AesCcm UpperTrans Segment LowerTransTx MessageSizes
open LowerTransRx (rxMisc segCtx memBytes segPdu_reading segSize_lt)

/-- The data of segment `i`. -/
def segData (ctl : Bool) (data : List Byte) (i : ℕ) : List Byte :=
  (data.drop (i * segSize ctl)).take (segSize ctl)

/-- The segments from `i` on that are not acknowledged, of so many. -/
def missing (blockAck : BitVec 32) (i rounds : ℕ) : List ℕ :=
  (List.range' i rounds).filter fun j => !blockAck.getLsbD j

/-- The message as the receiving side finds it in the memory that holds segment `i`: the fields
behind the first byte, the data, and with a context of the same kind what the first byte adds. -/
structure Decodes (ctx : MsgCtx) (data : List Byte) (i : ℕ) (mem : ℕ → Byte) : Prop where
  sego : (rxMisc mem).sego.toNat = i
  segn : (rxMisc mem).segn.toNat = segNeeded ctx.ctl data.length - 1
  seqZero : (rxMisc mem).seqZero = seqZero ctx.seqAuth
  opcode : ctx.ctl = true → ∀ rx : MsgCtx, rx.ctl = true →
    (segCtx mem rx).opcode.toNat = ctx.opcode.toNat % 128
  access : ctx.ctl = false → ∀ rx : MsgCtx, rx.ctl = false →
    (segCtx mem rx).szmic = ctx.szmic ∧ (segCtx mem rx).akf = ctx.akf ∧
      (segCtx mem rx).aid = if ctx.akf then ctx.aid else 0
  part : memBytes mem 4 (segData ctx.ctl data i).length = segData ctx.ctl data i

/-- A call of `meshx_net_send` with segment `i` of the message. -/
structure Hands (ctx : MsgCtx) (data : List Byte) (seg : ℕ × BitVec 24) (call : NetCall) :
    Prop where
  sent : call.ctx = { ctx with seq := seg.2 }
  length : call.pdu.length = 4 + (segData ctx.ctl data seg.1).length
  decodes : ∀ mem, memBytes mem 0 call.pdu.length = call.pdu → Decodes ctx data seg.1 mem

section Header

variable {ctx rx : MsgCtx} {mem : ℕ → Byte}

end Header

section Rounds

variable {conf : TxConf} {ctx : MsgCtx} {data : List Byte} {blockAck : BitVec 32}

/-- What the count and the offsets of a PDU of 1 to 32 segments are. -/
theorem segNeeded_spec {ctl : Bool} {n : ℕ} (hpos : 1 ≤ segNeeded ctl n)
    (hle : segNeeded ctl n ≤ 32) : segNum ctl n = segNeeded ctl n ∧
      (segNeeded ctl n - 1) * segSize ctl < n ∧ n ≤ segNeeded ctl n * segSize ctl := by
  refine ⟨Nat.mod_eq_of_lt (show segNeeded ctl n < 256 by omega), ?_, ?_⟩ <;>
    unfold segNeeded at * <;>
    cases ctl <;> simp only [segSize, if_true, if_false, Bool.false_eq_true] at * <;> omega

theorem take_segLen {ctl : Bool} {i : ℕ} (hi : i < segNeeded ctl data.length)
    (hle : segNeeded ctl data.length ≤ 32) :
    (data.drop (i * segSize ctl)).take
        (segLen ctl data.length (segNeeded ctl data.length) i (i * segSize ctl)) =
      segData ctl data i := by
  obtain ⟨-, -, hcover⟩ := segNeeded_spec (by omega) hle
  have hsize := segSize_lt ctl
  rw [segLen, segData]
  split_ifs with hl
  · rw [hl, Nat.succ_mul] at hcover
    rw [Nat.mod_eq_of_lt (by omega), List.take_of_length_le (by rw [List.length_drop]),
      List.take_of_length_le (by rw [List.length_drop]; omega)]
  · rfl

end Rounds

end Meshx.SegmentCalls
