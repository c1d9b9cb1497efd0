import Meshx.RxBounds
import Meshx.SegMessages

/-! A message in its task: which of its segments have been stored, whatever the task held
before, and what one more segment does to it. -/
namespace Meshx.LowerTransRx

open Lib Segment Replay Receiver

/-- The task has the message, of which the segments `got` are stored. From what it was before,
`t₀`, it has kept the flags of missing segments and the length. -/
structure RxTask.Collects (t : RxTask) (m : SegMsg) (t₀ : RxTask) (got : Finset ℕ) : Prop where
  reads : m.Reads t.ctx
  maxPduLen : t.maxPduLen = m.offset m.num
  got_lt : ∀ j ∈ got, j < m.num
  buffer : ∃ buf, t.ppdu = some buf ∧ buf.length = m.offset m.num ∧
    ∀ j ∈ got, HoldsPiece m.data m.offset buf j
  missing : ∀ j < 32, t.notReceivedSeg.getLsbD j =
    decide (j ∉ got ∧ (j < m.num ∨ t₀.notReceivedSeg.getLsbD j = true))
  pduLen : t.pduLen ≡ t₀.pduLen + ∑ j ∈ got, (m.part j).length [MOD 65536]
  timers : ∃ a b, t.ackTimer = .timer a ∧ t.incompleteTimer = .timer b

/-- The task has the message, all of whose segments have arrived. -/
structure RxTask.Finished (t : RxTask) (m : SegMsg) : Prop where
  reads : m.Reads t.ctx
  maxPduLen : t.maxPduLen = m.offset m.num
  missing : t.notReceivedSeg = 0

/-- The length that is handed up with the message. That of a message of several segments is
added to the one the task had. -/
def SegMsg.handedLen (m : SegMsg) (t₀ : RxTask) : ℕ :=
  if m.num = 1 then m.data.length else (t₀.pduLen + m.data.length) % 65536

variable {m : SegMsg} {t t₀ : RxTask} {got : Finset ℕ} {i len : ℕ} {mem : ℕ → Byte}
  {ctx : MsgCtx} {buf : List Byte}

theorem SegMsg.sum_parts (m : SegMsg) :
    ∑ j ∈ Finset.range m.num, (m.part j).length = m.data.length := by
  have hsum := @sum_piece_length _ m.data m.offset m.offset_zero m.offset_mono m.num
  rw [min_eq_right m.num_spec.2.2.2] at hsum
  exact hsum

theorem SegMsg.part_inside (hi : i < m.num) : m.offset i + (m.part i).length ≤ m.offset m.num := by
  have hle : m.offset (i + 1) ≤ m.offset m.num := SegMsg.offset_mono hi
  have hsize := @SegMsg.part_length_le m i
  rw [SegMsg.offset_succ] at hle
  omega

theorem fillTask_collects {env : RxEnv} (hr : m.Reading i mem len) (hreads : m.Reads ctx)
    (hmissing : t.notReceivedSeg = t₀.notReceivedSeg) (hlen : t.pduLen = t₀.pduLen) :
    (fillTask t env (rxMaxPduLen mem ctx.ctl) ctx).Collects m t₀ ∅ where
  reads := hreads
  maxPduLen := by
    change rxMaxPduLen mem ctx.ctl = _
    rw [hreads.ctl, hr.maxPduLen]
  got_lt := by simp
  buffer := ⟨_, rfl, by rw [← hr.maxPduLen, ← hreads.ctl]; simp [memBytes], by simp⟩
  missing j hj := by
    have hnum := m.num_spec.1
    rw [fillTask_missing hj, hr.segn, hmissing]
    by_cases hlt : j < m.num
    · simp [hlt, Nat.le_sub_one_of_lt hlt]
    · simp [hlt, show ¬ j ≤ m.num - 1 by omega]
  pduLen := by
    change t.pduLen ≡ _ [MOD 65536]
    simp [hlen, Nat.ModEq.refl]
  timers := ⟨_, _, rfl, rfl⟩

namespace RxTask.Collects

theorem stored (h : t.Collects m t₀ got) (hr : m.Reading i mem len) (hi : i ∉ got)
    (hbuf : t.ppdu = some buf) :
    (stored t buf mem len m.ctx.ctl).Collects m t₀ (insert i got) where
  reads := h.reads
  maxPduLen := h.maxPduLen
  got_lt j hj := (Finset.mem_insert.mp hj).elim (fun he => he ▸ hr.lt) (h.got_lt j)
  buffer := by
    obtain ⟨buf', hbuf', hlen, hholds⟩ := h.buffer
    obtain rfl := Option.some.inj (hbuf.symm.trans hbuf')
    have hin : m.offset i + (m.part i).length ≤ buf.length :=
      (SegMsg.part_inside hr.lt).trans hlen.ge
    have hcopied : (Receiver.stored t buf mem len m.ctx.ctl).ppdu =
        some (splice buf (m.offset i) (m.part i)) := by
      rw [Receiver.stored, hr.segLen, hr.sego, hr.data]
      rfl
    refine ⟨_, hcopied, (splice_length hin).trans hlen, fun j hj => ?_⟩
    by_cases hji : j = i
    · rw [hji]
      exact holdsPiece_splice hin
    · have hgot := (Finset.mem_insert.mp hj).resolve_left hji
      exact (hholds j hgot).splice SegMsg.offset_mono (Ne.symm hji) hin
  missing j hj := by
    rw [stored_missing hj, h.missing j hj, hr.sego]
    by_cases hji : i = j
    · simp [hji]
    · simp [hji, Ne.symm hji]
  pduLen := by
    change (t.pduLen + rxSegLen mem len m.ctx.ctl) % 65536 ≡ _ [MOD 65536]
    rw [hr.segLen, Finset.sum_insert hi, Nat.add_comm (m.part i).length, ← Nat.add_assoc]
    exact (Nat.mod_modEq _ _).trans (h.pduLen.add_right _)
  timers := h.timers

/-- Nothing is missing exactly if all segments are stored and the task was clean. -/
theorem missing_eq_zero (h : t.Collects m t₀ got) :
    t.notReceivedSeg = 0 ↔ got = Finset.range m.num ∧ t₀.Clean (m.num - 1) := by
  obtain ⟨hpos, hle, -, -⟩ := m.num_spec
  constructor
  · intro h0
    have hnone (j : ℕ) (hj : j < 32) :
        ¬ (j ∉ got ∧ (j < m.num ∨ t₀.notReceivedSeg.getLsbD j = true)) := by
      have hbit := h.missing j hj
      rw [h0] at hbit
      exact of_decide_eq_false (hbit.symm.trans BitVec.getLsbD_zero)
    refine ⟨Finset.ext fun j => ⟨fun hj => Finset.mem_range.mpr (h.got_lt j hj), fun hj => ?_⟩,
      fun j hj hstale => ?_⟩
    · have hlt := Finset.mem_range.mp hj
      by_contra hgot
      exact hnone j (by omega) ⟨hgot, .inl hlt⟩
    · by_contra hgt
      refine hnone j hj ⟨fun hgot => ?_, .inr hstale⟩
      have hlt := h.got_lt j hgot
      omega
  · rintro ⟨rfl, hclean⟩
    refine mask_ext fun j hj => ?_
    rw [h.missing j hj]
    refine (decide_eq_false ?_).trans BitVec.getLsbD_zero.symm
    rw [Finset.mem_range]
    rintro ⟨hgot, hlt | hstale⟩
    · exact hgot hlt
    · have hle' := hclean j hj hstale
      omega

theorem take_eq (h : t.Collects m t₀ (Finset.range m.num)) (hbuf : t.ppdu = some buf) :
    buf.take m.data.length = m.data := by
  obtain ⟨buf', hbuf', -, hholds⟩ := h.buffer
  obtain rfl := Option.some.inj (hbuf.symm.trans hbuf')
  exact take_eq_of_holdsPiece m.offset_zero m.num_spec.2.2.2
    fun j hj => hholds j (Finset.mem_range.mpr hj)

end RxTask.Collects

section Receive

variable {r : Receiver} {id : ℕ} {rpl : Rpl}

/-- A segment that is there already, of a message that misses others. -/
theorem receiveFor_again (h : (r.task id).Collects m t₀ got) (hr : m.Reading i mem len)
    (hreads : m.Reads ctx) (hi : i ∈ got) (hne : (r.task id).notReceivedSeg ≠ 0) :
    r.receiveFor id mem len ctx = .ok (.already, r, []) := by
  have hlt := (h.got_lt i hi).trans_le m.num_spec.2.1
  have hbit : (r.task id).notReceivedSeg &&& bit 32 (rxMisc mem).sego.toNat = 0 := by
    rw [and_bit_eq_zero _ (rxMisc mem).sego.isLt, hr.sego, h.missing i (by omega)]
    simp [hi]
  rw [receiveFor]
  dsimp only
  rw [h.reads.agree hreads, if_neg Bool.false_ne_true, hreads.ctl, hr.maxPduLen,
    if_neg (not_not.mpr h.maxPduLen), if_neg hne, if_pos hbit]

theorem RxTask.Collects.hasBit (h : t.Collects m t₀ got) (hr : m.Reading i mem len)
    (hi : i ∉ got) : t.notReceivedSeg.getLsbD (rxMisc mem).sego.toNat = true := by
  have hlt := hr.lt.trans_le m.num_spec.2.1
  rw [hr.sego, h.missing i (by omega)]
  simp [hi, hr.lt]

theorem complete_eq {a b : LowerTransTx.Timer} (hbuf : (r.task id).ppdu = some buf)
    (hack : (r.task id).ackTimer = .timer a) (hinc : (r.task id).incompleteTimer = .timer b) :
    r.complete id ctx = .ok (.success,
      r.setTask id { r.task id with
        ackTimer := .null, incompleteTimer := .timer { b with active := true } },
      [.segAck (r.task id).blockAck ctx,
        .upperReceive buf (r.task id).pduLen { ctx with seg := true }]) := by
  rw [complete]
  dsimp only
  rw [hack, hinc, hbuf]
  rfl

theorem await_eq {a b : LowerTransTx.Timer} (hack : (r.task id).ackTimer = .timer a)
    (hinc : (r.task id).incompleteTimer = .timer b) :
    r.await id = .ok (.success,
      r.setTask id { r.task id with
        ackTimer := .timer { a with active := true }
        incompleteTimer := .timer { b with active := true } }, []) := by
  rw [await]
  dsimp only
  rw [hack, hinc]
  rfl

theorem receiveSingle_eq {a b : LowerTransTx.Timer} {n : ℕ} (hn : (len + 65536 - 4) % 65536 = n)
    (hcheck : lowerTransRplCheck r.rpl (rplOf ctx) = .ok (true, rpl))
    (hbuf : (r.task id).ppdu = some buf) (hle : n ≤ buf.length)
    (hack : (r.task id).ackTimer = .timer a) (hinc : (r.task id).incompleteTimer = .timer b) :
    r.receiveSingle id mem len ctx = .ok (.success,
      ({ r with rpl := rpl } : Receiver).setTask id { r.task id with
        ppdu := some (splice buf 0 (memBytes mem 4 n)), notReceivedSeg := 0, blockAck := 1
        pduLen := n, ackTimer := .null, incompleteTimer := .timer { b with active := true } },
      [.segAck 1 ctx,
        .upperReceive (splice buf 0 (memBytes mem 4 n)) n { ctx with seg := true }]) := by
  rw [receiveSingle, hcheck, hn]
  change Receiver.writePdu { r with rpl := rpl } id 0 n mem >>= _ = _
  rw [@writePdu_of_ppdu { r with rpl := rpl } id mem buf 0 n hbuf, if_pos (.inr (by omega))]
  change Receiver.complete _ id ctx = _
  simp only [setTask_self, setTask_setTask]
  rw [@complete_eq ctx (splice buf 0 (memBytes mem 4 n)) _ id a b (by rw [setTask_self])
    (by rw [setTask_self]; exact hack) (by rw [setTask_self]; exact hinc)]
  simp only [setTask_self, setTask_setTask]

theorem SegMsg.part_of_single (hone : m.num = 1) : m.part 0 = m.data := by
  have hle := m.num_spec.2.2.2
  rw [hone, SegMsg.offset_succ, SegMsg.offset_zero] at hle
  rw [SegMsg.part, piece, SegMsg.offset_succ, SegMsg.offset_zero, List.drop_zero,
    List.take_of_length_le (by omega)]

/-- The only segment of a message completes it. -/
theorem receiveFor_single (h : (r.task id).Collects m t₀ got) (hr : m.Reading i mem len)
    (hreads : m.Reads ctx) (hi : i ∉ got) (hone : m.num = 1)
    (hcheck : lowerTransRplCheck r.rpl (rplOf ctx) = .ok (true, rpl)) :
    ∃ r' buf, r.receiveFor id mem len ctx = .ok (.success, r',
        [.segAck 1 ctx, .upperReceive buf m.data.length { ctx with seg := true }]) ∧
      r'.active = r.active ∧ (r'.task id).Finished m ∧ buf.take m.data.length = m.data := by
  obtain ⟨buf, hbuf, hlen, -⟩ := h.buffer
  obtain ⟨a, b, hack, hinc⟩ := h.timers
  have hlt := hr.lt
  obtain rfl : i = 0 := by omega
  have hzero : (rxMisc mem).segn = 0 := BitVec.eq_of_toNat_eq (by rw [hr.segn, hone]; rfl)
  have hpart := SegMsg.part_of_single hone
  have hsize := m.num_spec.2.2.2
  have hmem : memBytes mem 4 m.data.length = m.data := by
    have hdata := hr.data
    rwa [hpart] at hdata
  have hn : (len + 65536 - 4) % 65536 = m.data.length := by
    have hle := @SegMsg.part_length_le m 0
    have hsmall := segSize_lt m.ctx.ctl
    rw [hr.length]
    rw [hpart] at hle ⊢
    omega
  have hmax : (r.task id).maxPduLen = rxMaxPduLen mem ctx.ctl := by
    rw [h.maxPduLen, hreads.ctl, hr.maxPduLen]
  rw [receiveFor_missing (h.reads.agree hreads) hmax (h.hasBit hr hi), if_pos hzero,
    receiveSingle_eq hn hcheck hbuf (by omega) hack hinc]
  refine ⟨_, _, rfl, rfl, ?_, by rw [hmem, splice_zero, List.take_left]⟩
  rw [setTask_self]
  exact ⟨h.reads, h.maxPduLen, rfl⟩

/-- One more segment of a message of several is stored. If nothing is missing any more the
message is handed up. -/
theorem receiveFor_part (h : (r.task id).Collects m t₀ got) (hr : m.Reading i mem len)
    (hreads : m.Reads ctx) (hi : i ∉ got) (hmany : m.num ≠ 1)
    (hcheck : lowerTransRplCheck r.rpl (rplOf ctx) = .ok (true, rpl)) :
    (∃ r', r.receiveFor id mem len ctx = .ok (.success, r', []) ∧ r'.active = r.active ∧
        (r'.task id).Collects m t₀ (insert i got) ∧ (r'.task id).notReceivedSeg ≠ 0) ∨
      ∃ r' blockAck buf, r.receiveFor id mem len ctx = .ok (.success, r',
          [.segAck blockAck ctx,
            .upperReceive buf ((t₀.pduLen + m.data.length) % 65536) { ctx with seg := true }]) ∧
        r'.active = r.active ∧ (r'.task id).Finished m ∧ t₀.Clean (m.num - 1) ∧
        buf.take m.data.length = m.data := by
  obtain ⟨buf, hbuf, hlen, -⟩ := h.buffer
  obtain ⟨a, b, hack, hinc⟩ := h.timers
  have hlt := hr.lt
  have hone : (rxMisc mem).segn ≠ 0 := by
    intro h0
    have hsegn := hr.segn
    rw [h0] at hsegn
    have hz : (0 : BitVec 5).toNat = 0 := rfl
    omega
  have hin : rxSegLen mem len ctx.ctl = 0 ∨
      (rxMisc mem).sego.toNat * segSize ctx.ctl + rxSegLen mem len ctx.ctl ≤ buf.length := by
    rw [hreads.ctl, hr.segLen, hr.sego, hlen]
    exact .inr (SegMsg.part_inside hr.lt)
  have hmax : (r.task id).maxPduLen = rxMaxPduLen mem ctx.ctl := by
    rw [h.maxPduLen, hreads.ctl, hr.maxPduLen]
  have hstored := h.stored hr hi hbuf
  rw [← hreads.ctl] at hstored
  rw [receiveFor_missing (h.reads.agree hreads) hmax (h.hasBit hr hi), if_neg hone,
    receiveMulti_eq hbuf hin]
  dsimp only
  by_cases hdone : (stored (r.task id) buf mem len ctx.ctl).notReceivedSeg = 0
  · obtain ⟨hall, hclean⟩ := hstored.missing_eq_zero.mp hdone
    right
    obtain ⟨buf', hbuf', -, -⟩ := hstored.buffer
    have hpduLen : (stored (r.task id) buf mem len ctx.ctl).pduLen =
        (t₀.pduLen + m.data.length) % 65536 := by
      have hmod := hstored.pduLen
      rw [hall, m.sum_parts] at hmod
      exact (Nat.mod_mod _ _).symm.trans hmod
    have htake : buf'.take m.data.length = m.data := (hall ▸ hstored).take_eq hbuf'
    rw [if_pos hdone, checked, setTask_rpl, hcheck]
    change ∃ r' blockAck buf, Receiver.complete _ id ctx = _ ∧ _
    rw [@complete_eq ctx buf' _ id a b (by rw [setTask_self]; exact hbuf')
      (by rw [setTask_self]; exact hack) (by rw [setTask_self]; exact hinc)]
    simp only [setTask_self]
    rw [hpduLen]
    refine ⟨_, _, buf', rfl, rfl, ?_, hclean, htake⟩
    rw [setTask_self]
    exact ⟨hstored.reads, hstored.maxPduLen, hdone⟩
  · left
    rw [if_neg hdone, @await_eq _ id a b (by rw [setTask_self]; exact hack)
      (by rw [setTask_self]; exact hinc)]
    refine ⟨_, rfl, rfl, ?_, ?_⟩
    · rw [setTask_self, setTask_self]
      exact ⟨hstored.reads, hstored.maxPduLen, hstored.got_lt, hstored.buffer, hstored.missing,
        hstored.pduLen, _, _, rfl, rfl⟩
    · rw [setTask_self, setTask_self]
      exact hdone

end Receive

end Meshx.LowerTransRx
