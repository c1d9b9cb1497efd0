import Meshx.AckedSegments
import Meshx.TxAcks

/-! What the sending side has handed to the network layer: whatever the order of sends, acks and
timeouts, every segmented PDU is a segment of a message that it was asked to send. -/
namespace Meshx.LowerTransTx

open Lib Sequence Segment
open LowerTransRx (SegMsg sendSegs_segments)

/-- The message that `meshx_lower_trans_send` is asked to send in segments. -/
def SchedEvent.message? : SchedEvent → Option SegMsg
  | .send _ pdu ctx =>
    if h : addressIsValid ctx.src = true ∧ addressIsValid ctx.dst = true ∧ 0 < pdu.length ∧
        pdu.length ≤ maxSegSize * segSize ctx.ctl then
      if ctx.seg || unsegSize ctx.ctl < pdu.length then
        some ⟨{ ctx with seg := true }, pdu, h.1, h.2.1, h.2.2.1, h.2.2.2⟩
      else none
    else none
  | .ack .. | .timeout .. | .elsewhere .. => none

/-- The task holds the message. -/
structure TxTask.Holds (t : TxTask) (m : SegMsg) : Prop where
  ppdu : t.ppdu = some m.data
  ctx : t.ctx = { m.ctx with seq := t.ctx.seq }
  pduLen : t.pduLen = m.data.length
  segBits : t.segBits = m.allBits

/-- The first byte of the PDU has the segment bit set. -/
def NetCall.Segmented (call : NetCall) : Prop := ∀ b ∈ call.pdu.head?, b.msb = true

/-- Every task with a message has one that was asked for, and segments are of such messages. -/
structure Sender.Carrying (s : Sender) (asked : List SegMsg) : Prop where
  tasks : ∀ id, (s.task id).ppdu.isSome → ∃ m ∈ asked, (s.task id).Holds m
  sent : ∀ call ∈ s.sent, call.Segmented → ∃ m ∈ asked, ∃ j, m.Segment j call

variable {conf : TxConf} {env : TxEnv} {s s' t : Sender} {e : SchedEvent} {p : Stage} {ret : Errno}
  {id : ℕ} {asked : List SegMsg} {m : SegMsg} {pdu : List Byte} {ctx : MsgCtx}

theorem TxTask.Holds.congr {x y : TxTask} (h : x.Holds m) (hm : y.message = x.message) :
    y.Holds m where
  ppdu := (congrArg TxTask.ppdu hm).trans h.ppdu
  ctx := by
    have hctx := congrArg TxTask.ctx hm
    have hheld := h.ctx
    simp only [TxTask.message] at hctx
    generalize y.ctx = c at hctx ⊢
    generalize x.ctx = d at hctx hheld
    cases c
    cases d
    simp_all
  pduLen := (congrArg TxTask.pduLen hm).trans h.pduLen
  segBits := (congrArg TxTask.segBits hm).trans h.segBits

namespace Sender

section Stages

theorem Carrying.of_message (h : s.Carrying asked)
    (hm : ∀ j, (s'.task j).message = (s.task j).message) (hsent : s'.sent = s.sent) :
    s'.Carrying asked where
  tasks j hj := by
    have hppdu : (s'.task j).message.ppdu = (s.task j).message.ppdu := by rw [hm j]
    rw [show (s'.task j).ppdu = (s.task j).ppdu from hppdu] at hj
    obtain ⟨m, hmem, hholds⟩ := h.tasks j hj
    exact ⟨m, hmem, hholds.congr (hm j)⟩
  sent call hcall := h.sent call (hsent ▸ hcall)

theorem sendSegs_none {pduLen num rounds i offset : ℕ} {blockAck : BitVec 32} {misc : BitVec 24}
    {ctx' : MsgCtx}
    (hrun : sendSegs conf none pduLen num blockAck rounds i offset misc ctx s =
      .ok (ret, ctx', s')) : s'.sent = s.sent := by
  induction rounds generalizing i offset misc ctx s with
  | zero =>
    cases hrun
    rfl
  | succ rounds ih =>
    rcases sendSegs_cases hrun with ⟨-, hrest⟩ | ⟨-, -, hout⟩ | ⟨data, -, hdata, -⟩
    · exact ih hrest
    · cases hout
      rfl
    · cases hdata

/-- Sending the segments of a task. -/
theorem Carrying.sendTask (h : s.Carrying asked) (hrun : s.sendTask conf env id = .ok (ret, t)) :
    t.Carrying asked where
  tasks := ((h.of_message (touches_sendTask hrun).message_eq rfl :
    Carrying { t with sent := s.sent } asked)).tasks
  sent := by
    obtain ⟨⟨ret', ctx', u⟩, hseg, hrest⟩ := bind_ok hrun
    cases hrest
    change ∀ call ∈ u.sent, _
    cases hppdu : (s.task id).ppdu with
    | none =>
      rw [hppdu] at hseg
      rw [sendSegs_none hseg]
      exact h.sent
    | some data =>
      obtain ⟨m, hmem, hholds⟩ := h.tasks id (by rw [hppdu]; rfl)
      have hctl : (s.task id).ctx.ctl = m.ctx.ctl := by rw [hholds.ctx]
      rw [hholds.ppdu, hholds.pduLen, sendSegMsg, hctl] at hseg
      obtain ⟨calls, hsent, hall, -⟩ := sendSegs_segments (Nat.zero_add _)
        (.inr SegMsg.offset_zero.symm) hholds.ctx hseg
      intro call hcall
      rw [hsent, List.mem_append] at hcall
      rcases hcall with hnew | hold
      · exact fun _ => ⟨m, hmem, hall call hnew⟩
      · exact h.sent call hold

theorem Carrying.timerStart (h : s.Carrying asked) : (s.timerStart id).Carrying asked :=
  h.of_message touches_timerStart.message_eq rfl

theorem Carrying.afterRetryStage (h : s.Carrying asked) :
    (s.afterRetryStage id).state.Carrying asked := by
  unfold Sender.afterRetryStage
  split_ifs
  · exact h
  · exact h.timerStart

theorem Carrying.runStage (h : s.Carrying asked) (hrun : s.runStage conf env id = .ok p) :
    p.state.Carrying asked := by
  unfold Sender.runStage at hrun
  split_ifs at hrun
  · cases hrun
    exact h
  · obtain ⟨⟨ret, t⟩, ht, hrest⟩ := bind_ok hrun
    have hstart : (s.started id).Carrying asked := by
      refine h.of_message (fun j => ?_) rfl
      by_cases hj : j = id
      · simp [started, setTask, TxTask.message, hj]
      · simp [started, setTask, hj]
    have hsend := hstart.sendTask ht
    dsimp only at hrest
    split_ifs at hrest
    · cases hrest
      exact hsend
    · cases hrest
      exact hsend.timerStart

theorem Carrying.txTimeoutStage (h : s.Carrying asked)
    (hrun : s.txTimeoutStage conf env id = .ok p) : p.state.Carrying asked := by
  have hbump : (s.bumpRetry id).Carrying asked := h.of_message touches_bumpRetry.message_eq rfl
  unfold Sender.txTimeoutStage at hrun
  dsimp only at hrun
  split_ifs at hrun
  · cases hrun
    exact hbump
  · obtain ⟨⟨ret, t⟩, ht, hrest⟩ := bind_ok hrun
    cases hrest
    exact (hbump.sendTask ht).afterRetryStage

theorem Carrying.blockAckStage {zero : BitVec 13} {blockAck : BitVec 32} (h : s.Carrying asked)
    (hrun : s.blockAckStage conf env zero blockAck = .ok p) : p.state.Carrying asked := by
  unfold Sender.blockAckStage at hrun
  cases hfound : s.active.find? fun id => seqZero (s.task id).ctx.seqAuth = zero with
  | none =>
    rw [hfound] at hrun
    cases hrun
    exact h
  | some id =>
    rw [hfound] at hrun
    have hbump : (s.bumpRetry id).Carrying asked := h.of_message touches_bumpRetry.message_eq rfl
    dsimp only at hrun
    split_ifs at hrun
    · cases hrun
      exact h
    · cases hrun
      exact h
    · cases hrun
      exact hbump
    · obtain ⟨⟨ret, t⟩, ht, hrest⟩ := bind_ok hrun
      cases hrest
      have hset : ((s.bumpRetry id).setBlockAck id blockAck).Carrying asked :=
        hbump.of_message touches_setBlockAck.message_eq rfl
      exact (hset.sendTask ht).afterRetryStage

theorem Carrying.mono {asked' : List SegMsg} (h : s.Carrying asked)
    (hsub : ∀ m ∈ asked, m ∈ asked') : s.Carrying asked' where
  tasks id hid := by
    obtain ⟨m, hmem, hholds⟩ := h.tasks id hid
    exact ⟨m, hsub m hmem, hholds⟩
  sent call hcall hseg := by
    obtain ⟨m, hmem, hsegment⟩ := h.sent call hcall hseg
    exact ⟨m, hsub m hmem, hsegment⟩

/-- A message that is asked for is stored in a task. -/
theorem Carrying.store {idle : List ℕ} (h : s.Carrying asked) (hm : m ∈ asked) :
    (s.store id idle m.data m.ctx).Carrying asked where
  tasks j hj := by
    by_cases hji : j = id
    · refine ⟨m, hm, ?_⟩
      rw [hji, Sender.store, setTask]
      dsimp only
      rw [Function.update_self]
      exact ⟨rfl, rfl, rfl, rfl⟩
    · have hsame : (s.store id idle m.data m.ctx).task j = s.task j := Function.update_of_ne hji _ _
      rw [hsame] at hj ⊢
      exact h.tasks j hj
  sent := h.sent

theorem Carrying.tryStage (h : s.Carrying asked) (hrun : s.tryStage conf env id = .ok p) :
    p.state.Carrying asked := by
  unfold Sender.tryStage at hrun
  split_ifs at hrun
  · cases hrun
    exact ⟨h.tasks, h.sent⟩
  · exact h.runStage hrun

theorem Carrying.segMsgStage (h : s.Carrying asked) (hm : m ∈ asked)
    (hrun : s.segMsgStage conf env m.data m.ctx = .ok p) : p.state.Carrying asked := by
  rcases segMsgStage_cases hrun with rfl | ⟨id, idle, -, rfl⟩ | ⟨id, idle, q, -, -, hq, rfl⟩
  · exact h
  · exact ⟨h.tasks, h.sent⟩
  · have hq' := (h.store hm).tryStage hq
    exact hq'

theorem header_false_msb (ctx : MsgCtx) : (header false ctx).msb = false := by
  have hctl : ∀ opcode : BitVec 7, (BitVec.ofBool false ++ opcode).msb = false := by decide
  have haccess : ∀ (akf : Bool) (aid : BitVec 6), (accessHeader false akf aid).msb = false := by
    decide
  rw [header]
  split_ifs
  · exact hctl _
  all_goals exact haccess _ _

theorem not_segmented (ctx : MsgCtx) (pdu : List Byte) :
    ¬ NetCall.Segmented ⟨ctx, header false ctx :: pdu⟩ := by
  intro h
  have hmsb : (header false ctx).msb = true := h _ rfl
  rw [header_false_msb] at hmsb
  cases hmsb

theorem Carrying.sendStage (h : s.Carrying asked) (hsrc : addressIsValid ctx.src = true)
    (hfits : pdu.length ≤ maxSegSize * segSize ctx.ctl)
    (hrun : s.sendStage conf env pdu ctx = .ok p) :
    p.state.Carrying ((SchedEvent.send env pdu ctx).message?.toList ++ asked) := by
  have hmore : s.Carrying ((SchedEvent.send env pdu ctx).message?.toList ++ asked) :=
    h.mono fun m hm => List.mem_append_right _ hm
  unfold Sender.sendStage at hrun
  by_cases hempty : pdu.length = 0
  · rw [if_pos hempty] at hrun
    cases hrun
    exact hmore
  rw [if_neg hempty] at hrun
  by_cases hdst : (!addressIsValid ctx.dst) = true
  · rw [if_pos hdst] at hrun
    cases hrun
    exact hmore
  rw [if_neg hdst] at hrun
  by_cases hseg : (ctx.seg || unsegSize ctx.ctl < pdu.length) = true
  · rw [if_pos hseg] at hrun
    have hmsg : (SchedEvent.send env pdu ctx).message? =
        some ⟨{ ctx with seg := true }, pdu, hsrc, by simpa using hdst, by omega, hfits⟩ := by
      rw [SchedEvent.message?, dif_pos ⟨hsrc, by simpa using hdst, by omega, hfits⟩, if_pos hseg]
    rw [hmsg] at hmore ⊢
    exact hmore.segMsgStage (List.mem_append_left _ (List.mem_singleton_self _)) hrun
  · rw [if_neg hseg] at hrun
    cases hrun
    refine ⟨hmore.tasks, fun call hcall => ?_⟩
    rcases List.mem_cons.mp hcall with rfl | hold
    · exact fun hsegm => absurd hsegm (not_segmented _ _)
    · exact hmore.sent call hold

theorem Carrying.carryOut (h : s.Carrying asked) (hrun : s.carryOut id = .ok t) :
    t.Carrying asked where
  tasks j hj := by
    have hrel := carryOut_released hrun
    by_cases hji : j = id
    · rw [hji, hrel.task, Function.update_self] at hj
      cases hj
    · rw [hrel.task_of_ne hji] at hj ⊢
      exact h.tasks j hj
  sent := by
    obtain ⟨u, hu, hret⟩ := bind_ok hrun
    cases hret
    unfold release at hu
    split_ifs at hu
    cases hu
    exact h.sent

theorem Carrying.pending (h : s.Carrying asked) (ids : List ℕ) :
    Carrying { s with pending := ids } asked := ⟨h.tasks, h.sent⟩

theorem Carrying.finishes {log : List Entry} (h : s.Carrying asked)
    (hf : Finishes conf env s id log s') : s'.Carrying asked := by
  induction hf with
  | last release _ => exact h.carryOut release
  | next release found runs goes =>
    have ht := h.carryOut release
    exact (ht.pending _).runStage runs
  | again release found runs ends rest ih =>
    have ht := h.carryOut release
    exact ih ((ht.pending _).runStage runs)

end Stages

/-- Whatever happens on the sending side. -/
theorem Carrying.step (h : s.Carrying asked)
    (hsends : ∀ env pdu ctx, e = .send env pdu ctx → addressIsValid ctx.src = true ∧
      pdu.length ≤ maxSegSize * segSize ctx.ctl)
    (hrun : schedStep conf s e = .ok s') : s'.Carrying (e.message?.toList ++ asked) := by
  have hstage {p : Stage} (hp : schedStage conf s e = .ok p) :
      p.state.Carrying (e.message?.toList ++ asked) := by
    cases e with
    | send env pdu ctx =>
      obtain ⟨hsrc, hfits⟩ := hsends env pdu ctx rfl
      exact h.sendStage hsrc hfits hp
    | ack env src zero blockAck => exact h.blockAckStage hp
    | timeout env id => exact h.txTimeoutStage hp
    | elsewhere seqArray iv =>
      cases hp
      exact ⟨h.tasks, h.sent⟩
  obtain ⟨requested, started, hsteps⟩ := schedStep_steps hrun
  cases hsteps with
  | kept stage goes => exact hstage stage
  | finished stage ends finishes => exact (hstage stage).finishes finishes

theorem init_carrying (elementNum taskNum : ℕ) (ivIndex : BitVec 32) :
    (Sender.init elementNum taskNum ivIndex).Carrying [] where
  tasks id hid := by cases hid
  sent := by simp [Sender.init]

end Sender

end Meshx.LowerTransTx
