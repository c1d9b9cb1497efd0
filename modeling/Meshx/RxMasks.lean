import Meshx.ReceiveCases

/-! The two masks of a reassembly task and the memory of its message: together the masks make up
the segments of the message, whatever segments are stored, unless the task was filled with
segments left from the message before. -/
namespace Meshx.LowerTransRx

open Lib Segment Receiver

variable {t : RxTask} {mem : ℕ → Byte} {len : ℕ} {ctx : MsgCtx} {buf : List Byte}

/-- The number of segments of the message, which is its SegN and one more. -/
def RxTask.segCount (t : RxTask) : ℕ := t.maxPduLen / segSize t.ctx.ctl

/-- The segments that have arrived and those that have not make up the message. -/
def RxTask.Masked (t : RxTask) : Prop :=
  t.notReceivedSeg &&& t.blockAck = 0 ∧ t.notReceivedSeg ||| t.blockAck = lowBits 32 t.segCount

/-- The message has the memory for all its segments. -/
structure RxTask.Allocated (t : RxTask) : Prop where
  buffer : ∃ buf, t.ppdu = some buf ∧ buf.length = t.maxPduLen
  segs : ∃ segn < 32, t.maxPduLen = (segn + 1) * segSize t.ctx.ctl

/-- No segment is both missing and acked, and every segment of the message is one of these. -/
structure RxTask.Covers (t : RxTask) : Prop where
  apart : ∀ j < 32, t.notReceivedSeg.getLsbD j = true → t.blockAck.getLsbD j = false
  covered : ∀ j < 32, j < t.segCount →
    t.notReceivedSeg.getLsbD j = true ∨ t.blockAck.getLsbD j = true
  acked : ∀ j < 32, t.blockAck.getLsbD j = true → j < t.segCount

/-- No segment is missing that the message does not have. -/
def RxTask.Tidy (t : RxTask) : Prop :=
  ∀ j < 32, t.notReceivedSeg.getLsbD j = true → j < t.segCount

instance (t : RxTask) : Decidable t.Tidy := inferInstanceAs (Decidable (∀ j < 32, _ → _))

theorem masked_iff : t.Masked ↔ t.Covers ∧ t.Tidy := by
  constructor
  · rintro ⟨hand, hor⟩
    have hboth (j : ℕ) (hj : j < 32) :
        (t.notReceivedSeg.getLsbD j || t.blockAck.getLsbD j) = decide (j < t.segCount) := by
      rw [← BitVec.getLsbD_or, hor, getLsbD_lowBits _ hj]
    have hneither (j : ℕ) : (t.notReceivedSeg.getLsbD j && t.blockAck.getLsbD j) = false := by
      rw [← BitVec.getLsbD_and, hand]
      exact BitVec.getLsbD_zero
    refine ⟨⟨fun j _ hmissing => ?_, fun j hj hlt => ?_, fun j hj hack => ?_⟩,
      fun j hj hmissing => ?_⟩
    · have h := hneither j
      rwa [hmissing, Bool.true_and] at h
    · have h := hboth j hj
      rw [decide_eq_true hlt, Bool.or_eq_true] at h
      exact h
    · have h := hboth j hj
      rw [hack, Bool.or_true] at h
      exact of_decide_eq_true h.symm
    · have h := hboth j hj
      rw [hmissing, Bool.true_or] at h
      exact of_decide_eq_true h.symm
  · rintro ⟨hcovers, htidy⟩
    refine ⟨mask_ext fun j hj => ?_, mask_ext fun j hj => ?_⟩
    · have hzero : (0 : BitVec 32).getLsbD j = false := BitVec.getLsbD_zero
      rw [BitVec.getLsbD_and, hzero]
      cases hmissing : t.notReceivedSeg.getLsbD j with
      | false => rfl
      | true => exact hcovers.apart j hj hmissing
    · rw [BitVec.getLsbD_or, getLsbD_lowBits _ hj]
      by_cases hlt : j < t.segCount
      · rw [decide_eq_true hlt, Bool.or_eq_true]
        exact hcovers.covered j hj hlt
      · rw [decide_eq_false hlt, Bool.or_eq_false_iff]
        constructor
        · exact Bool.eq_false_iff.mpr fun hmissing => hlt (htidy j hj hmissing)
        · exact Bool.eq_false_iff.mpr fun hack => hlt (hcovers.acked j hj hack)

/-- A task whose masks and memory are those of its message. -/
structure RxTask.Whole (t : RxTask) : Prop where
  masked : t.Masked
  allocated : t.Allocated

theorem segCount_eq {segn : ℕ} (h : t.maxPduLen = (segn + 1) * segSize t.ctx.ctl) :
    t.segCount = segn + 1 := by
  rw [RxTask.segCount, h, Nat.mul_div_cancel _ (segSize_pos _)]

theorem masked_single (h0 : t.notReceivedSeg = 0) (h1 : t.blockAck = 1) (h : t.segCount = 1) :
    t.Masked := by
  rw [RxTask.Masked, h0, h1, h]
  decide

/-- No segment is stale that the new message does not have. -/
def RxTask.Clean (t : RxTask) (segn : ℕ) : Prop :=
  ∀ j < 32, t.notReceivedSeg.getLsbD j = true → j ≤ segn

section Fill

variable {env : RxEnv}

theorem fillTask_segCount :
    (fillTask t env (rxMaxPduLen mem ctx.ctl) ctx).segCount = (rxMisc mem).segn.toNat + 1 :=
  segCount_eq rfl

theorem fillTask_allocated : (fillTask t env (rxMaxPduLen mem ctx.ctl) ctx).Allocated where
  buffer := ⟨_, rfl, by simp [memBytes, fillTask]⟩
  segs := ⟨(rxMisc mem).segn.toNat, (rxMisc mem).segn.isLt, rfl⟩

theorem fillTask_missing {j : ℕ} (hj : j < 32) :
    (fillTask t env (rxMaxPduLen mem ctx.ctl) ctx).notReceivedSeg.getLsbD j =
      (t.notReceivedSeg.getLsbD j || decide (j ≤ (rxMisc mem).segn.toNat)) := by
  have hcount : rxMaxPduLen mem ctx.ctl / segSize ctx.ctl = (rxMisc mem).segn.toNat + 1 :=
    @fillTask_segCount t mem ctx env
  rw [fillTask, hcount, getLsbD_setBits _ _ hj]
  simp only [Nat.lt_succ_iff]

theorem fillTask_covers : (fillTask t env (rxMaxPduLen mem ctx.ctl) ctx).Covers where
  apart j _ _ := BitVec.getLsbD_zero
  covered j hj hlt := by
    rw [fillTask_segCount] at hlt
    rw [fillTask_missing hj, decide_eq_true (by omega), Bool.or_true]
    exact .inl rfl
  acked j _ hack := by
    have hnone : (0 : BitVec 32).getLsbD j = true := hack
    simp at hnone

theorem fillTask_tidy :
    (fillTask t env (rxMaxPduLen mem ctx.ctl) ctx).Tidy ↔ t.Clean (rxMisc mem).segn.toNat := by
  unfold RxTask.Tidy RxTask.Clean
  refine forall_congr' fun j => imp_congr_right fun hj => ?_
  rw [fillTask_missing hj, fillTask_segCount, Bool.or_eq_true, decide_eq_true_eq, Nat.lt_succ_iff]
  exact ⟨fun h hs => h (.inl hs), fun h hs => hs.elim h id⟩

end Fill

/-- The data of a segment lies inside the memory of the task. -/
def Inside (t : RxTask) (mem : ℕ → Byte) (len : ℕ) (ctl : Bool) : Prop :=
  rxSegLen mem len ctl = 0 ∨
    (rxMisc mem).sego.toNat * segSize ctl + rxSegLen mem len ctl ≤ t.maxPduLen

theorem inside_iff {ctl : Bool} (hmax : t.maxPduLen = rxMaxPduLen mem ctl) :
    Inside t mem len ctl ↔ (rxMisc mem).sego.toNat ≤ (rxMisc mem).segn.toNat ∧
      ((rxMisc mem).sego = (rxMisc mem).segn → (len + 256 - 4) % 256 ≤ segSize ctl) := by
  have hpos := segSize_pos ctl
  rw [Inside, rxSegLen, hmax, rxMaxPduLen]
  by_cases hlast : (rxMisc mem).sego = (rxMisc mem).segn
  · rw [if_pos hlast, hlast, Nat.succ_mul]
    constructor
    · intro h
      exact ⟨le_rfl, fun _ => by omega⟩
    · rintro ⟨-, h⟩
      have hle := h rfl
      exact .inr (by omega)
  · rw [if_neg hlast, ← Nat.succ_mul, Nat.mul_le_mul_right_iff hpos]
    constructor
    · intro h
      exact ⟨by omega, fun he => absurd he hlast⟩
    · rintro ⟨h, -⟩
      exact .inr (by omega)

section Stored

variable {ctl : Bool}

theorem stored_missing {j : ℕ} (hj : j < 32) :
    (stored t buf mem len ctl).notReceivedSeg.getLsbD j =
      (t.notReceivedSeg.getLsbD j && decide ((rxMisc mem).sego.toNat ≠ j)) :=
  getLsbD_clear _ _ hj

theorem stored_acked {j : ℕ} (hj : j < 32) :
    (stored t buf mem len ctl).blockAck.getLsbD j =
      (t.blockAck.getLsbD j || decide ((rxMisc mem).sego.toNat = j)) :=
  getLsbD_set _ _ hj

theorem splice_length_of_inside {offset n : ℕ} (h : n = 0 ∨ offset + n ≤ buf.length) :
    (splice buf offset (memBytes mem 4 n)).length = buf.length := by
  rcases h with rfl | h
  · simp [splice, memBytes]
  · exact splice_length (by simpa [memBytes] using h)

theorem stored_allocated (h : t.Allocated) (hbuf : t.ppdu = some buf)
    (hinside : Inside t mem len ctl) : (stored t buf mem len ctl).Allocated where
  buffer := by
    obtain ⟨buf', hbuf', hlen⟩ := h.buffer
    obtain rfl := Option.some.inj (hbuf.symm.trans hbuf')
    exact ⟨_, rfl, (splice_length_of_inside (hlen ▸ hinside)).trans hlen⟩
  segs := h.segs

theorem stored_whole (h : t.Whole) (hbuf : t.ppdu = some buf) (hinside : Inside t mem len ctl)
    (hmissing : t.notReceivedSeg.getLsbD (rxMisc mem).sego.toNat = true) :
    (stored t buf mem len ctl).Whole := by
  obtain ⟨hcovers, htidy⟩ := masked_iff.mp h.masked
  refine ⟨masked_iff.mpr ⟨⟨fun j hj hm => ?_, fun j hj hlt => ?_, fun j hj hack => ?_⟩,
    fun j hj hm => ?_⟩, stored_allocated h.allocated hbuf hinside⟩
  · rw [stored_missing hj, Bool.and_eq_true, decide_eq_true_eq] at hm
    rw [stored_acked hj, hcovers.apart j hj hm.1, decide_eq_false hm.2]
    rfl
  · rw [stored_missing hj, stored_acked hj]
    by_cases hjs : (rxMisc mem).sego.toNat = j
    · exact .inr (by simp [hjs])
    · simpa [hjs] using hcovers.covered j hj hlt
  · rw [stored_acked hj, Bool.or_eq_true, decide_eq_true_eq] at hack
    rcases hack with hack | rfl
    · exact hcovers.acked j hj hack
    · exact htidy _ hj hmissing
  · rw [stored_missing hj, Bool.and_eq_true] at hm
    exact htidy j hj hm.1

/-- A stale segment that the message does not have stays. -/
theorem stored_untidy (h : ¬ t.Tidy) (hsego : (rxMisc mem).sego.toNat < t.segCount) :
    ¬ (stored t buf mem len ctl).Tidy := by
  intro htidy
  refine h fun j hj hm => by_contra fun hlt => ?_
  refine hlt (htidy j hj ?_)
  rw [stored_missing hj, hm, decide_eq_true (by omega)]
  rfl

end Stored

end Meshx.LowerTransRx
