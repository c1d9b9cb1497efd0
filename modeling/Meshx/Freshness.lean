import Meshx.LowerTransTx

/-! Freshness of the network nonce: no two calls of `meshx_net_send` share source, IV index
and sequence number. -/
namespace Meshx.LowerTransTx

open Lib AesCcm Security Sequence IvIndex UpperTrans Segment

/-- What makes the network nonce of a call, beside constants. -/
def NetCall.key (n : NetCall) : BitVec 16 × BitVec 32 × BitVec 24 :=
  (n.ctx.src, n.ctx.ivIndex, n.ctx.seq)

namespace Sender

variable {conf : TxConf} {env : TxEnv} {s s' : Sender} {ctx : MsgCtx} {id : ℕ}

/-- The counter of the element has passed the sequence number of the context. -/
def Behind (conf : TxConf) (s : Sender) (ctx : MsgCtx) : Prop :=
  ∃ seq, s.seqArray[elementIndex conf.nodeAddr ctx.src]? = some seq ∧ ctx.seq.toNat < seq.toNat

/-- No message is or will be sent with the IV index any more. -/
def Past (s : Sender) (ivIndex : BitVec 32) : Prop :=
  ivIndex.toNat < s.iv.tx ∧
    ∀ id, (s.task id).ppdu.isSome → ivIndex.toNat < (s.task id).ctx.ivIndex.toNat

/-- A message may be sent with the IV index: it is the current one or that of a task. -/
def Admissible (s : Sender) (ivIndex : BitVec 32) : Prop :=
  ivIndex.toNat ≤ s.iv.tx ∧ ¬ s.Past ivIndex

/-- The calls made so far have different nonces, and none of the nonces can come again:
its number is behind the counter, or its IV index is past. -/
structure Fresh (conf : TxConf) (s : Sender) : Prop where
  wellFormed : s.iv.WellFormed
  nodup : (s.sent.map NetCall.key).Nodup
  used : ∀ n ∈ s.sent, s.Behind conf n.ctx ∨ s.Past n.ctx.ivIndex
  sent_le : ∀ n ∈ s.sent, n.ctx.ivIndex.toNat ≤ s.iv.tx
  task_le : ∀ id, (s.task id).ppdu.isSome → (s.task id).ctx.ivIndex.toNat ≤ s.iv.tx

/-- Freshness as long as no draw has found its counter at the end. -/
def Sound (conf : TxConf) (s : Sender) : Prop := s.exhausted = false → s.Fresh conf

/-- The context can be sent as it is. -/
structure Ready (conf : TxConf) (s : Sender) (ctx : MsgCtx) : Prop where
  unused : ∀ n ∈ s.sent, n.key ≠ (ctx.src, ctx.ivIndex, ctx.seq)
  behind : s.Behind conf ctx
  le : ctx.ivIndex.toNat ≤ s.iv.tx

theorem admissible_tx : s.Admissible (ivIndexTxGet s.iv) :=
  ⟨le_rfl, fun h => absurd h.1 (lt_irrefl _)⟩

theorem Fresh.admissible_task (h : s.Fresh conf) (hid : (s.task id).ppdu.isSome) :
    s.Admissible (s.task id).ctx.ivIndex :=
  ⟨h.task_le id hid, fun hp => absurd (hp.2 id hid) (lt_irrefl _)⟩

section Draw

/-- A draw that does not exhaust hands out the counter and moves it one further. -/
theorem draw_cases {src : BitVec 16} (h : (s.draw conf src).2.exhausted = false) :
    s.exhausted = false ∧ ∃ seq, s.seqArray[elementIndex conf.nodeAddr src]? = some seq ∧
      seq ≠ seqMax ∧ (s.draw conf src).1 = seq ∧
      (s.draw conf src).2.seqArray = s.seqArray.set (elementIndex conf.nodeAddr src) (seq + 1) := by
  simp only [draw, Bool.or_eq_false_iff, Bool.not_eq_false', drawable, Option.any_eq_true,
    decide_eq_true_eq] at h
  obtain ⟨hs, seq, hseq, hne⟩ := h
  refine ⟨hs, seq, hseq, hne, ?_, ?_⟩
  · simp only [draw, seqUse_advance hseq hne]
    ext i hi
    simp
  · simp only [draw, seqUse_advance hseq hne]

theorem Behind.draw {src : BitVec 16} (h : s.Behind conf ctx) :
    (s.draw conf src).2.Behind conf ctx := by
  obtain ⟨seq, hseq, hlt⟩ := h
  obtain ⟨seq', hseq', hle⟩ := seqUse_mono (i := elementIndex conf.nodeAddr src) hseq
  exact ⟨seq', hseq', by omega⟩

theorem Fresh.draw {src : BitVec 16} (h : s.Fresh conf) : (s.draw conf src).2.Fresh conf where
  wellFormed := h.wellFormed
  nodup := h.nodup
  used n hn := (h.used n hn).imp .draw fun hp => hp
  sent_le := h.sent_le
  task_le := h.task_le

theorem Sound.draw {src : BitVec 16} (h : s.Sound conf) : (s.draw conf src).2.Sound conf :=
  fun he => (h (draw_cases he).1).draw

theorem Sound.ready_draw (h : s.Sound conf) (ctx : MsgCtx) (hadm : s.Admissible ctx.ivIndex)
    (he : (s.draw conf ctx.src).2.exhausted = false)
    (hseq : ctx.seq = (s.draw conf ctx.src).1) : (s.draw conf ctx.src).2.Ready conf ctx := by
  obtain ⟨hs, seq, hget, hne, hdrawn, harray⟩ := draw_cases he
  have hlt := (List.getElem?_eq_some_iff.mp hget).1
  have hone := lt_add_one hne
  refine ⟨fun n hn hkey => ?_, ⟨seq + 1, ?_, ?_⟩, hadm.1⟩
  · simp only [NetCall.key, Prod.mk.injEq] at hkey
    obtain ⟨hsrc, hiv, hsq⟩ := hkey
    rcases (h hs).used n hn with ⟨seq', hget', hbehind⟩ | hpast
    · rw [hsrc, hget, Option.some_inj] at hget'
      rw [hsq, hseq, hdrawn, hget'] at hbehind
      exact lt_irrefl _ hbehind
    · exact hadm.2 (hiv ▸ hpast)
  · rw [harray, List.getElem?_set_self hlt]
  · rw [hseq, hdrawn]
    omega

theorem Fresh.netSend (h : s.Fresh conf) (hr : s.Ready conf ctx) (pdu : List Byte) :
    (s.netSend ctx pdu).Fresh conf where
  wellFormed := h.wellFormed
  nodup := by
    refine List.nodup_cons.mpr ⟨fun hmem => ?_, h.nodup⟩
    obtain ⟨n, hn, hkey⟩ := List.mem_map.mp hmem
    exact hr.unused n hn hkey
  used n hn := by
    rcases List.mem_cons.mp hn with rfl | hn
    · exact .inl hr.behind
    · exact h.used n hn
  sent_le n hn := by
    rcases List.mem_cons.mp hn with rfl | hn
    · exact hr.le
    · exact h.sent_le n hn
  task_le := h.task_le

end Draw

section Frame

theorem Sound.of_lists (h : s.Sound conf) (hseq : s'.seqArray = s.seqArray) (hiv : s'.iv = s.iv)
    (htask : s'.task = s.task) (hsent : s'.sent = s.sent)
    (he : s'.exhausted = s.exhausted) : s'.Sound conf := by
  obtain ⟨seqArray, iv, task, idle, active, pending, sent, exhausted⟩ := s
  obtain ⟨seqArray', iv', task', idle', active', pending', sent', exhausted'⟩ := s'
  obtain ⟨rfl, rfl, rfl, rfl, rfl⟩ : seqArray' = seqArray ∧ iv' = iv ∧ task' = task ∧
    sent' = sent ∧ exhausted' = exhausted := ⟨hseq, hiv, htask, hsent, he⟩
  exact fun hx => ⟨(h hx).wellFormed, (h hx).nodup, (h hx).used, (h hx).sent_le, (h hx).task_le⟩

theorem Sound.setTask (h : s.Sound conf) {t : TxTask} (ht : t.ppdu.isSome →
    (s.task id).ppdu.isSome ∧ t.ctx.ivIndex = (s.task id).ctx.ivIndex) :
    (s.setTask id t).Sound conf := by
  intro he
  have hf := h he
  have hold : ∀ j, ((s.setTask id t).task j).ppdu.isSome → (s.task j).ppdu.isSome ∧
      ((s.setTask id t).task j).ctx.ivIndex = (s.task j).ctx.ivIndex := by
    intro j hj
    by_cases hji : j = id
    · subst hji
      simp only [Sender.setTask, Function.update_self] at hj ⊢
      exact ht hj
    · simp only [Sender.setTask, Function.update_of_ne hji] at hj ⊢
      exact ⟨hj, trivial⟩
  refine ⟨hf.wellFormed, hf.nodup, fun n hn => (hf.used n hn).imp (fun hb => hb) fun hp => ?_,
    hf.sent_le, ?_⟩
  · exact ⟨hp.1, fun j hj => (hold j hj).2 ▸ hp.2 j (hold j hj).1⟩
  · intro j hj
    rw [(hold j hj).2]
    exact hf.task_le j (hold j hj).1

theorem Sound.advance (h : s.Sound conf) {iv : Iv}
    (hadv : s.iv.WellFormed → TxAdvance s.iv iv false) :
    Sender.Sound conf { s with iv := iv } := by
  intro he
  have hf := h he
  have ha := hadv hf.wellFormed
  exact ⟨ha.wellFormed, hf.nodup,
    fun n hn => (hf.used n hn).imp (fun hb => hb) fun hp => ⟨hp.1.trans_le ha.tx_le, hp.2⟩,
    fun n hn => (hf.sent_le n hn).trans ha.tx_le, fun j hj => (hf.task_le j hj).trans ha.tx_le⟩

end Frame

/-- Sending leaves the tasks, their lists and the IV index. -/
structure SameTasks (s s' : Sender) : Prop where
  task : s'.task = s.task
  iv : s'.iv = s.iv
  idle : s'.idle = s.idle
  active : s'.active = s.active
  pending : s'.pending = s.pending

theorem SameTasks.trans {s'' : Sender} (h₁ : SameTasks s s') (h₂ : SameTasks s' s'') :
    SameTasks s s'' :=
  ⟨h₂.task.trans h₁.task, h₂.iv.trans h₁.iv, h₂.idle.trans h₁.idle, h₂.active.trans h₁.active,
    h₂.pending.trans h₁.pending⟩

theorem SameTasks.admissible (h : SameTasks s s') {ivIndex : BitVec 32}
    (ha : s.Admissible ivIndex) : s'.Admissible ivIndex := by
  simpa only [Admissible, Past, h.task, h.iv] using ha

theorem sameTasks_draw (src : BitVec 16) : SameTasks s (s.draw conf src).2 :=
  ⟨rfl, rfl, rfl, rfl, rfl⟩

theorem sameTasks_netSend (ctx : MsgCtx) (pdu : List Byte) : SameTasks s (s.netSend ctx pdu) :=
  ⟨rfl, rfl, rfl, rfl, rfl⟩

/-- The loop over the segments: every segment sent carries a number of its own. -/
theorem sendSegs_sound {ppdu : Option (List Byte)} {pduLen num : ℕ} {blockAck : BitVec 32}
    {rounds i offset : ℕ} {misc : BitVec 24} {ret : Errno} {ctx' : MsgCtx}
    (hrun : sendSegs conf ppdu pduLen num blockAck rounds i offset misc ctx s = .ok (ret, ctx', s'))
    (h : s.Sound conf)
    (hadm : s.exhausted = false → ppdu.isSome → s.Admissible ctx.ivIndex) :
    s'.Sound conf ∧ SameTasks s s' ∧ ctx'.ivIndex = ctx.ivIndex := by
  induction rounds generalizing i offset misc ctx s with
  | zero =>
    cases hrun
    exact ⟨h, ⟨rfl, rfl, rfl, rfl, rfl⟩, rfl⟩
  | succ rounds ih =>
    rcases sendSegs_cases hrun with ⟨-, hrest⟩ | ⟨-, -, hout⟩ | ⟨data, -, hdata, -, hrest⟩
    · exact ih hrest h hadm
    · cases hout
      exact ⟨h.draw, sameTasks_draw _, rfl⟩
    · have hdraw : SameTasks s (s.draw conf ctx.src).2 := sameTasks_draw ctx.src
      obtain ⟨hsound, hsame, hiv⟩ := ih hrest
        (fun he => (h.draw he).netSend
          (h.ready_draw { ctx with seq := (s.draw conf ctx.src).1 }
            (hadm (draw_cases he).1 (by simp [hdata])) he rfl) _)
        (fun he hp => (hdraw.trans (sameTasks_netSend _ _)).admissible
          (hadm (draw_cases he).1 hp))
      exact ⟨hsound, (hdraw.trans (sameTasks_netSend _ _)).trans hsame, hiv⟩

theorem sendTask_sound {ret : Errno} (hrun : s.sendTask conf env id = .ok (ret, s'))
    (h : s.Sound conf) : s'.Sound conf := by
  simp only [sendTask, bind, Except.bind] at hrun
  cases hseg : sendSegMsg conf (s.task id).ppdu (s.task id).pduLen (s.task id).blockAck
      (env.stack id) (s.task id).ctx s with
  | error f => simp [hseg] at hrun
  | ok out =>
    obtain ⟨ret', ctx', t⟩ := out
    rw [hseg] at hrun
    cases hrun
    obtain ⟨hsound, hsame, hiv⟩ := sendSegs_sound hseg h fun he hp => (h he).admissible_task hp
    refine hsound.setTask fun hp => ?_
    rw [hsame.task]
    exact ⟨hp, hiv⟩

theorem release_sound (hrun : s.release id = .ok s') (h : s.Sound conf) : s'.Sound conf := by
  unfold release at hrun
  split_ifs at hrun
  cases hrun
  exact (h.setTask (t := { s.task id with retryTimer := none, ppdu := none })
    (by simp)).of_lists rfl rfl rfl rfl rfl

theorem bumpRetry_sound (h : s.Sound conf) : (s.bumpRetry id).Sound conf :=
  h.setTask fun hp => ⟨hp, rfl⟩

theorem setBlockAck_sound (h : s.Sound conf) (blockAck : BitVec 32) :
    (s.setBlockAck id blockAck).Sound conf :=
  h.setTask fun hp => ⟨hp, rfl⟩

theorem timerStart_sound (h : s.Sound conf) : (s.timerStart id).Sound conf :=
  h.setTask fun hp => ⟨hp, rfl⟩

theorem pendingNormal_sound (h : s.Sound conf) :
    Sender.Sound conf { s with iv := ivPendingNormal s.iv } :=
  h.advance ivPendingNormal_advance

theorem taskRun_sound {finish : Sender → ℕ → Except Fault Sender} {ret : Errno}
    (hfinish : ∀ s s' id, finish s id = .ok s' → s.Sound conf → s'.Sound conf)
    (hrun : s.taskRun conf env finish id = .ok (ret, s')) (h : s.Sound conf) : s'.Sound conf := by
  unfold taskRun at hrun
  split_ifs at hrun with hok
  · obtain ⟨t, ht, hret⟩ := bind_ok hrun
    cases hret
    exact hfinish _ _ _ ht h
  · obtain ⟨⟨ret', t⟩, ht, hrest⟩ := bind_ok hrun
    have hstart := h.setTask
      (t := { s.task id with retryTimer := some ⟨false, (s.task id).gen⟩ }) fun hp => ⟨hp, rfl⟩
    have hsent := sendTask_sound ht (hstart.of_lists rfl rfl rfl rfl rfl)
    dsimp only at hrest
    split_ifs at hrest with hret
    · obtain ⟨u, hu, hout⟩ := bind_ok hrest
      cases hout
      exact hfinish _ _ _ hu hsent
    · cases hrest
      exact timerStart_sound hsent

theorem taskFinishIn_sound {depth : ℕ} (hrun : s.taskFinishIn conf env depth id = .ok s')
    (h : s.Sound conf) : s'.Sound conf := by
  induction depth generalizing s s' id with
  | zero =>
    obtain ⟨t, ht, hret⟩ := bind_ok hrun
    cases hret
    exact pendingNormal_sound (release_sound ht h)
  | succ depth ih =>
    obtain ⟨t, ht, hrest⟩ := bind_ok hrun
    have hsound := pendingNormal_sound (release_sound ht h)
    dsimp only at hrest
    split at hrest
    · cases hrest
      exact hsound
    · obtain ⟨⟨ret, u⟩, hu, hout⟩ := bind_ok hrest
      cases hout
      exact taskRun_sound (fun _ _ _ hf hs => ih hf hs) hu (hsound.of_lists rfl rfl rfl rfl rfl)

theorem taskFinish_sound (hrun : s.taskFinish conf env id = .ok s') (h : s.Sound conf) :
    s'.Sound conf := taskFinishIn_sound hrun h

theorem afterRetry_sound (hrun : s.afterRetry conf env id = .ok s') (h : s.Sound conf) :
    s'.Sound conf := by
  unfold afterRetry at hrun
  split_ifs at hrun
  · exact taskFinish_sound hrun h
  · cases hrun
    exact timerStart_sound h

theorem handleTxTimeout_sound (hrun : s.handleTxTimeout conf env id = .ok s')
    (h : s.Sound conf) : s'.Sound conf := by
  unfold handleTxTimeout at hrun
  dsimp only at hrun
  split_ifs at hrun
  · exact taskFinish_sound hrun (bumpRetry_sound h)
  · obtain ⟨⟨ret, t⟩, ht, hrest⟩ := bind_ok hrun
    exact afterRetry_sound hrest (sendTask_sound ht (bumpRetry_sound h))

theorem recvBlockAck_sound {zero : BitVec 13} {blockAck : BitVec 32}
    (hrun : s.recvBlockAck conf env zero blockAck = .ok s') (h : s.Sound conf) :
    s'.Sound conf := by
  unfold recvBlockAck at hrun
  split at hrun
  · cases hrun
    exact h
  next id _ =>
    dsimp only at hrun
    split_ifs at hrun
    · exact taskFinish_sound hrun h
    · exact taskFinish_sound hrun h
    · exact taskFinish_sound hrun (bumpRetry_sound h)
    · obtain ⟨⟨ret, t⟩, ht, hrest⟩ := bind_ok hrun
      exact afterRetry_sound hrest
        (sendTask_sound ht (setBlockAck_sound (bumpRetry_sound h) blockAck))

theorem Sound.store (h : s.Sound conf) {t : TxTask} (ht : t.ctx.ivIndex = ivIndexTxGet s.iv) :
    (s.setTask id t).Sound conf := by
  intro he
  have hf := h he
  refine ⟨hf.wellFormed, hf.nodup, fun n hn => (hf.used n hn).imp (fun hb => hb) fun hp =>
    ⟨hp.1, fun j hj => ?_⟩, hf.sent_le, fun j hj => ?_⟩ <;>
    by_cases hji : j = id
  · subst hji
    simp only [Sender.setTask, Function.update_self, ht]
    exact hp.1
  · simp only [Sender.setTask, Function.update_of_ne hji] at hj ⊢
    exact hp.2 j hj
  · subst hji
    simp only [Sender.setTask, Function.update_self, ht]
    exact le_rfl
  · simp only [Sender.setTask, Function.update_of_ne hji] at hj ⊢
    exact hf.task_le j hj

theorem taskTry_sound {ret : Errno} (hrun : s.taskTry conf env id = .ok (ret, s'))
    (h : s.Sound conf) : s'.Sound conf := by
  unfold taskTry at hrun
  split_ifs at hrun
  · cases hrun
    exact h.of_lists rfl rfl rfl rfl rfl
  · exact taskRun_sound (fun _ _ _ hf hs => taskFinish_sound hf hs) hrun h

theorem processSegMsg_sound {pdu : List Byte} {ret : Errno}
    (hrun : s.processSegMsg conf env pdu ctx = .ok (ret, s')) (h : s.Sound conf)
    (hiv : ctx.ivIndex = ivIndexTxGet s.iv) : s'.Sound conf := by
  unfold processSegMsg at hrun
  dsimp only at hrun
  by_cases hnum : maxSegSize < segNum ctx.ctl pdu.length
  · rw [if_pos hnum] at hrun
    cases hrun
    exact h
  rw [if_neg hnum] at hrun
  split at hrun
  · cases hrun
    exact h
  split at hrun
  · cases hrun
    exact h
  · split at hrun
    · cases hrun
      exact h.of_lists rfl rfl rfl rfl rfl
    · refine taskTry_sound hrun (Sound.store ?_ hiv)
      exact h.of_lists rfl rfl rfl rfl rfl

/-- The message is sent without segmentation. -/
def Unsegmented (pdu : List Byte) (ctx : MsgCtx) : Prop :=
  ctx.seg = false ∧ pdu.length ≤ unsegSize ctx.ctl

theorem lowerTransSend_sound {pdu : List Byte} {ret : Errno}
    (hrun : s.lowerTransSend conf env pdu ctx = .ok (ret, s')) (h : s.Sound conf)
    (hiv : ctx.ivIndex = ivIndexTxGet s.iv)
    (hready : s.exhausted = false → Unsegmented pdu ctx → s.Ready conf ctx) : s'.Sound conf := by
  unfold lowerTransSend at hrun
  split_ifs at hrun with hlen hdst hseg
  · cases hrun
    exact h
  · cases hrun
    exact h
  · exact processSegMsg_sound hrun h hiv
  · cases hrun
    simp only [Bool.or_eq_true, decide_eq_true_eq, not_or, not_lt] at hseg
    exact fun he => (h he).netSend (hready he ⟨by simpa using hseg.1, hseg.2⟩) _

theorem segAck_sound {blockAck : BitVec 32} {rx : MsgCtx} {ret : Errno}
    (hrun : s.segAck conf env blockAck rx = .ok (ret, s')) (h : s.Sound conf) :
    s'.Sound conf :=
  lowerTransSend_sound hrun h.draw rfl fun he _ =>
    h.ready_draw { segAckCtx conf s rx with seq := (s.draw conf (segAckCtx conf s rx).src).1 }
      admissible_tx he rfl

/-- What `meshx_upper_trans_send` hands down: a control message as it is, an access message
with a sequence number drawn for it. -/
theorem upperTransSend_draws {c : Crypto} {nodeAddr : BitVec 16} {connected : ℕ → Bool}
    {mallocOk : Bool} {seq arr : SeqArray} {data : List Byte} {out : UpperSend}
    (hrun : upperTransSend c nodeAddr connected mallocOk seq data ctx = .ok (arr, out)) :
    (∃ err, out = .ret err ∧ arr = seq) ∨
    (ctx.ctl = true ∧ arr = seq ∧ out = .lower data ctx none) ∨
    ∃ pdu call, ctx.ctl = false ∧ arr = (seqUse seq (elementIndex nodeAddr ctx.src)).1 ∧
      out = .lower pdu { ctx with
        seq := (seqUse seq (elementIndex nodeAddr ctx.src)).2.setWidth 24
        seqAuth := (seqUse seq (elementIndex nodeAddr ctx.src)).2.setWidth 24 } call := by
  unfold upperTransSend at hrun
  split_ifs at hrun with hiface hctl hlen hmem
  · cases hrun; exact .inl ⟨_, rfl, rfl⟩
  · cases hrun; exact .inl ⟨_, rfl, rfl⟩
  · cases hrun; exact .inr (.inl ⟨hctl, rfl, rfl⟩)
  · cases hrun; exact .inl ⟨_, rfl, rfl⟩
  · obtain ⟨⟨pdu, mic, call⟩, -, hout⟩ := bind_ok hrun
    cases hout
    exact .inr (.inr ⟨_, _, by simpa using hctl, rfl, rfl⟩)

theorem upperSend_sound {c : Crypto} {data : List Byte} {ret : Errno}
    (hrun : s.upperSend c conf env data ctx = .ok (ret, s')) (h : s.Sound conf)
    (hctl : ctx.ctl = true → ¬ Unsegmented data ctx) : s'.Sound conf := by
  obtain ⟨⟨arr, out⟩, hup, hrest⟩ := bind_ok hrun
  rcases upperTransSend_draws hup with ⟨err, rfl, rfl⟩ | ⟨hc, rfl, rfl⟩ | ⟨pdu, call, hc, rfl, rfl⟩
  · cases hrest
    exact h.of_lists rfl rfl rfl rfl rfl
  · refine lowerTransSend_sound hrest (h.of_lists rfl rfl rfl rfl ?_) rfl fun _ hun =>
      absurd hun (hctl hc)
    simp [show ctx.ctl = true from hc]
  · have hdraw : { s with
        seqArray := (seqUse s.seqArray (elementIndex conf.nodeAddr ctx.src)).1
        exhausted := s.exhausted ||
          !(ctx.ctl || drawable s.seqArray (elementIndex conf.nodeAddr ctx.src)) } =
        (s.draw conf ctx.src).2 := by
      simp [draw, show ctx.ctl = false from hc]
    dsimp only at hrest
    rw [hdraw] at hrest
    exact lowerTransSend_sound hrest h.draw rfl fun he _ =>
      h.ready_draw { ctx with
        ivIndex := ivIndexTxGet s.iv
        seq := (seqUse s.seqArray (elementIndex conf.nodeAddr ctx.src)).2.setWidth 24
        seqAuth := (seqUse s.seqArray (elementIndex conf.nodeAddr ctx.src)).2.setWidth 24 }
        admissible_tx he rfl

section Layout

/-- Every task that holds a message, one perhaps excepted, is in a list. -/
def HeldBut (s : Sender) (x : ℕ) : Prop :=
  ∀ j, (s.task j).ppdu.isSome → j = x ∨ j ∈ s.active ∨ j ∈ s.pending

/-- Every task that holds a message is active or pending, and none is pending alone. -/
structure Layout (s : Sender) : Prop where
  held : ∀ j, (s.task j).ppdu.isSome → j ∈ s.active ∨ j ∈ s.pending
  busy : s.pending ≠ [] → s.active ≠ []

theorem Layout.heldBut (h : s.Layout) (x : ℕ) : s.HeldBut x := fun j hj => .inr (h.held j hj)

/-- Neither the lists nor which tasks hold a message change. -/
structure SameLists (s s' : Sender) : Prop where
  active : s'.active = s.active
  pending : s'.pending = s.pending
  ppdu : ∀ j, (s'.task j).ppdu = (s.task j).ppdu

theorem SameLists.heldBut (h : SameLists s s') {x : ℕ} (hs : s.HeldBut x) : s'.HeldBut x := by
  intro j hj
  rw [h.active, h.pending]
  exact hs j (h.ppdu j ▸ hj)

theorem SameLists.layout (h : SameLists s s') (hs : s.Layout) : s'.Layout where
  held j hj := by
    rw [h.active, h.pending]
    exact hs.held j (h.ppdu j ▸ hj)
  busy hp := by
    rw [h.active]
    exact hs.busy (h.pending ▸ hp)

theorem SameLists.trans {s'' : Sender} (h₁ : SameLists s s') (h₂ : SameLists s' s'') :
    SameLists s s'' :=
  ⟨h₂.active.trans h₁.active, h₂.pending.trans h₁.pending,
    fun j => (h₂.ppdu j).trans (h₁.ppdu j)⟩

theorem SameTasks.sameLists (h : SameTasks s s') : SameLists s s' :=
  ⟨h.active, h.pending, fun j => by rw [h.task]⟩

theorem sameLists_setTask {t : TxTask} (ht : t.ppdu = (s.task id).ppdu) :
    SameLists s (s.setTask id t) := by
  refine ⟨rfl, rfl, fun j => ?_⟩
  by_cases hj : j = id
  · subst hj
    simp only [Sender.setTask, Function.update_self, ht]
  · simp only [Sender.setTask, Function.update_of_ne hj]

theorem sameTasks_sendSegs {ppdu : Option (List Byte)} {pduLen num : ℕ} {blockAck : BitVec 32}
    {rounds i offset : ℕ} {misc : BitVec 24} {ret : Errno} {ctx' : MsgCtx}
    (hrun : sendSegs conf ppdu pduLen num blockAck rounds i offset misc ctx s =
      .ok (ret, ctx', s')) : SameTasks s s' := by
  induction rounds generalizing i offset misc ctx s with
  | zero =>
    cases hrun
    exact ⟨rfl, rfl, rfl, rfl, rfl⟩
  | succ rounds ih =>
    rcases sendSegs_cases hrun with ⟨-, hrest⟩ | ⟨-, -, hout⟩ | ⟨data, -, -, -, hrest⟩
    · exact ih hrest
    · cases hout
      exact sameTasks_draw _
    · exact ((sameTasks_draw _).trans (sameTasks_netSend _ _)).trans (ih hrest)

theorem sameLists_sendTask {ret : Errno} (hrun : s.sendTask conf env id = .ok (ret, s')) :
    SameLists s s' := by
  obtain ⟨⟨ret', ctx', t⟩, hseg, hrest⟩ := bind_ok hrun
  cases hrest
  have hsame := sameTasks_sendSegs hseg
  exact hsame.sameLists.trans (sameLists_setTask (by rw [hsame.task]))

theorem sameLists_bumpRetry (id : ℕ) : SameLists s (s.bumpRetry id) := sameLists_setTask rfl

theorem sameLists_setBlockAck (blockAck : BitVec 32) :
    SameLists s (s.setBlockAck id blockAck) := sameLists_setTask rfl

theorem sameLists_timerStart : SameLists s (s.timerStart id) := sameLists_setTask rfl

theorem release_held (hrun : s.release id = .ok s') (h : s.HeldBut id) :
    (∀ j, (s'.task j).ppdu.isSome → j ∈ s'.active ∨ j ∈ s'.pending) ∧
      s'.pending = s.pending.erase id := by
  unfold release at hrun
  split_ifs at hrun
  cases hrun
  refine ⟨fun j hj => ?_, rfl⟩
  by_cases hji : j = id
  · subst hji
    simp at hj
  · simp only [Function.update_of_ne hji] at hj
    rcases h j hj with he | ha | hp
    · exact absurd he hji
    · exact .inl ((List.mem_erase_of_ne hji).mpr ha)
    · exact .inr ((List.mem_erase_of_ne hji).mpr hp)

theorem runnable_none (h : s.runnable = none) (hp : s.pending ≠ []) : s.active ≠ [] := by
  intro ha
  rw [runnable, ha, List.find?_eq_none] at h
  obtain ⟨p, hmem⟩ := List.exists_mem_of_ne_nil _ hp
  exact h p hmem (by simp)

theorem taskRun_layout {finish : Sender → ℕ → Except Fault Sender} {ret : Errno} {n : ℕ}
    (hfinish : ∀ s s' id, finish s id = .ok s' → s.pending.length ≤ n → s.HeldBut id → s'.Layout)
    (hrun : s.taskRun conf env finish id = .ok (ret, s')) (hn : s.pending.length ≤ n)
    (h : s.HeldBut id) : s'.Layout := by
  unfold taskRun at hrun
  split_ifs at hrun with hok
  · obtain ⟨t, ht, hret⟩ := bind_ok hrun
    cases hret
    exact hfinish _ _ _ ht hn h
  · obtain ⟨⟨ret', t⟩, ht, hrest⟩ := bind_ok hrun
    have hsame := sameLists_sendTask ht
    have hset := sameLists_setTask (s := s)
      (t := { s.task id with retryTimer := some ⟨false, (s.task id).gen⟩ }) rfl
    -- from here on the task is active
    have hlayout : t.Layout := by
      refine hsame.layout ⟨fun j hj => ?_, fun _ => by simp⟩
      rcases hset.heldBut h j hj with rfl | ha | hp
      · exact .inl (List.mem_append_right _ (List.mem_singleton_self _))
      · exact .inl (List.mem_append_left _ ha)
      · exact .inr hp
    dsimp only at hrest
    split_ifs at hrest with hret
    · obtain ⟨u, hu, hout⟩ := bind_ok hrest
      cases hout
      exact hfinish _ _ _ hu (hsame.pending ▸ hn) (hlayout.heldBut id)
    · cases hrest
      exact sameLists_timerStart.layout hlayout

theorem taskFinishIn_layout {depth : ℕ} (hrun : s.taskFinishIn conf env depth id = .ok s')
    (hdepth : s.pending.length ≤ depth) (h : s.HeldBut id) : s'.Layout := by
  induction depth generalizing s s' id with
  | zero =>
    obtain ⟨t, ht, hret⟩ := bind_ok hrun
    cases hret
    obtain ⟨hheld, hpending⟩ := release_held ht h
    refine ⟨hheld, fun hp => absurd ?_ hp⟩
    dsimp only
    rw [hpending, List.length_eq_zero_iff.mp (Nat.le_zero.mp hdepth)]
    rfl
  | succ depth ih =>
    obtain ⟨t, ht, hrest⟩ := bind_ok hrun
    obtain ⟨hheld, hpending⟩ := release_held ht h
    dsimp only at hrest
    split at hrest
    next hnone =>
      cases hrest
      exact ⟨hheld, runnable_none hnone⟩
    next next hsome =>
      obtain ⟨⟨ret, u⟩, hu, hout⟩ := bind_ok hrest
      cases hout
      have hmem : next ∈ t.pending := List.mem_of_find?_eq_some hsome
      have hle : t.pending.length ≤ s.pending.length := by
        rw [hpending]; exact List.length_erase_le
      have hlt : (t.pending.erase next).length ≤ depth := by
        rw [List.length_erase_of_mem hmem]
        omega
      refine taskRun_layout (n := depth) (fun _ _ _ hf hn hs => ih hf hn hs) hu hlt fun j hj => ?_
      by_cases hjn : j = next
      · exact .inl hjn
      · exact .inr ((hheld j hj).imp (fun ha => ha) (List.mem_erase_of_ne hjn).mpr)

theorem taskFinish_layout (hrun : s.taskFinish conf env id = .ok s') (h : s.HeldBut id) :
    s'.Layout := taskFinishIn_layout hrun le_rfl h

theorem afterRetry_layout (hrun : s.afterRetry conf env id = .ok s') (h : s.Layout) :
    s'.Layout := by
  unfold afterRetry at hrun
  split_ifs at hrun
  · exact taskFinish_layout hrun (h.heldBut id)
  · cases hrun
    exact sameLists_timerStart.layout h

theorem handleTxTimeout_layout (hrun : s.handleTxTimeout conf env id = .ok s') (h : s.Layout) :
    s'.Layout := by
  unfold handleTxTimeout at hrun
  have hset := (sameLists_bumpRetry id).layout h
  dsimp only at hrun
  split_ifs at hrun
  · exact taskFinish_layout hrun (hset.heldBut id)
  · obtain ⟨⟨ret, t⟩, ht, hrest⟩ := bind_ok hrun
    exact afterRetry_layout hrest ((sameLists_sendTask ht).layout hset)

theorem recvBlockAck_layout {zero : BitVec 13} {blockAck : BitVec 32}
    (hrun : s.recvBlockAck conf env zero blockAck = .ok s') (h : s.Layout) : s'.Layout := by
  unfold recvBlockAck at hrun
  split at hrun
  · cases hrun
    exact h
  next id _ =>
    have hset := (sameLists_bumpRetry id).layout h
    dsimp only at hrun
    split_ifs at hrun
    · exact taskFinish_layout hrun (h.heldBut id)
    · exact taskFinish_layout hrun (h.heldBut id)
    · exact taskFinish_layout hrun (hset.heldBut id)
    · obtain ⟨⟨ret, t⟩, ht, hrest⟩ := bind_ok hrun
      exact afterRetry_layout hrest
        ((sameLists_sendTask ht).layout ((sameLists_setBlockAck blockAck).layout hset))

theorem taskTry_layout {ret : Errno} (hrun : s.taskTry conf env id = .ok (ret, s'))
    (h : s.HeldBut id) : s'.Layout := by
  unfold taskTry at hrun
  split_ifs at hrun with hany
  · cases hrun
    refine ⟨fun j hj => ?_, fun _ ha => ?_⟩
    · rcases h j hj with rfl | ha | hp
      · exact .inr (by simp)
      · exact .inl ha
      · exact .inr (List.mem_append_left _ hp)
    · simp only [show s.active = [] from ha, List.any_nil, Bool.false_eq_true] at hany
  · exact taskRun_layout (n := s.pending.length) (fun _ _ _ hf _ hs => taskFinish_layout hf hs)
      hrun le_rfl h

theorem processSegMsg_layout {pdu : List Byte} {ret : Errno}
    (hrun : s.processSegMsg conf env pdu ctx = .ok (ret, s')) (h : s.Layout) : s'.Layout := by
  unfold processSegMsg at hrun
  dsimp only at hrun
  by_cases hnum : maxSegSize < segNum ctx.ctl pdu.length
  · rw [if_pos hnum] at hrun
    cases hrun
    exact h
  rw [if_neg hnum] at hrun
  split at hrun
  · cases hrun
    exact h
  cases hidle : s.idle with
  | nil =>
    rw [hidle] at hrun
    cases hrun
    exact h
  | cons id idle =>
    rw [hidle] at hrun
    dsimp only at hrun
    split_ifs at hrun
    · cases hrun
      exact ⟨h.held, h.busy⟩
    · refine taskTry_layout hrun fun j hj => ?_
      by_cases hji : j = id
      · exact .inl hji
      · simp only [Sender.setTask, Function.update_of_ne hji] at hj
        exact .inr (h.held j hj)

theorem lowerTransSend_layout {pdu : List Byte} {ret : Errno}
    (hrun : s.lowerTransSend conf env pdu ctx = .ok (ret, s')) (h : s.Layout) : s'.Layout := by
  unfold lowerTransSend at hrun
  split_ifs at hrun
  · cases hrun
    exact h
  · cases hrun
    exact h
  · exact processSegMsg_layout hrun h
  · cases hrun
    exact ⟨h.held, h.busy⟩

theorem segAck_layout {blockAck : BitVec 32} {rx : MsgCtx} {ret : Errno}
    (hrun : s.segAck conf env blockAck rx = .ok (ret, s')) (h : s.Layout) : s'.Layout :=
  lowerTransSend_layout hrun ((sameTasks_draw _).sameLists.layout h)

theorem upperSend_layout {c : Crypto} {data : List Byte} {ret : Errno}
    (hrun : s.upperSend c conf env data ctx = .ok (ret, s')) (h : s.Layout) : s'.Layout := by
  obtain ⟨⟨arr, out⟩, -, hrest⟩ := bind_ok hrun
  cases out with
  | ret err =>
    cases hrest
    exact ⟨h.held, h.busy⟩
  | lower pdu ctx call => exact lowerTransSend_layout hrest ⟨h.held, h.busy⟩

end Layout

section IvIndex

variable {iv : Iv} {clear : Bool}

/-- A clear is fresh where it moves the IV index on and no task holds a message. -/
theorem ivMoved_sound (h : s.Sound conf) (hadv : s.iv.WellFormed → TxAdvance s.iv iv clear)
    (hclear : clear = true → ∀ j, (s.task j).ppdu = none) :
    (s.ivMoved iv clear).Sound conf := by
  intro he
  have hf := h he
  have ha := hadv hf.wellFormed
  cases clear with
  | false => exact h.advance hadv he
  | true =>
    have hnone : ∀ j, ¬ (s.task j).ppdu.isSome := fun j => by simp [hclear rfl j]
    exact ⟨ha.wellFormed, hf.nodup,
      fun n hn => .inr ⟨(hf.sent_le n hn).trans_lt (ha.tx_lt rfl), fun j hj => absurd hj (hnone j)⟩,
      fun n hn => (hf.sent_le n hn).trans ha.tx_le, fun j hj => absurd hj (hnone j)⟩

theorem ivMoved_layout (h : s.Layout) : (s.ivMoved iv clear).Layout := ⟨h.held, h.busy⟩

theorem Layout.idle (h : s.Layout) (hbusy : s.busy = false) (j : ℕ) : (s.task j).ppdu = none := by
  have hactive : s.active = [] := by simpa [Sender.busy] using hbusy
  have hpending : s.pending = [] := by
    by_contra hp
    exact h.busy hp hactive
  by_contra hne
  have := h.held j (Option.ne_none_iff_isSome.mp hne)
  simp [hactive, hpending] at this

end IvIndex

end Sender

variable {c : Crypto} {conf : TxConf} {s s' : Sender} {e : TxEvent}

/-- The steps a node has to keep to. A control message that needs no segments is not sent
through `meshx_upper_trans_send`, which draws no number for it; the IV index is not
recovered while a segmented message is under way. -/
def Ordinary (s : Sender) : TxEvent → Prop
  | .send _ data ctx => ctx.ctl = true → ¬ Sender.Unsegmented data ctx
  | .ivUpdate ivIndex state => IvRecovers s.iv ivIndex state → s.busy = false
  | _ => True

/-- What holds of a node between two events. -/
def Sender.Valid (conf : TxConf) (s : Sender) : Prop := s.Sound conf ∧ s.Layout

theorem init_valid (elementNum taskNum : ℕ) (ivIndex : BitVec 32) :
    (Sender.init elementNum taskNum ivIndex).Valid conf := by
  refine ⟨fun _ => ⟨?_, List.nodup_nil, ?_, ?_, ?_⟩, ?_, ?_⟩
  · exact fun h => by cases h
  all_goals simp [Sender.init, TxTask.zero]

theorem txStep_valid (h : s.Valid conf) (hord : Ordinary s e)
    (hrun : txStep c conf s e = .ok s') : s'.Valid conf := by
  obtain ⟨hsound, hlayout⟩ := h
  cases e with
  | send env data ctx =>
    obtain ⟨⟨ret, t⟩, ht, rfl⟩ := map_ok hrun
    exact ⟨Sender.upperSend_sound ht hsound hord, Sender.upperSend_layout ht hlayout⟩
  | timeout env id =>
    exact ⟨Sender.handleTxTimeout_sound hrun hsound, Sender.handleTxTimeout_layout hrun hlayout⟩
  | recvBlockAck env zero blockAck =>
    exact ⟨Sender.recvBlockAck_sound hrun hsound, Sender.recvBlockAck_layout hrun hlayout⟩
  | segAck env blockAck rx =>
    obtain ⟨⟨ret, t⟩, ht, rfl⟩ := map_ok hrun
    exact ⟨Sender.segAck_sound ht hsound, Sender.segAck_layout ht hlayout⟩
  | ivUpdate ivIndex state =>
    rcases hu : ivIndexUpdate s.iv ivIndex state s.busy with ⟨ret, iv, clear⟩
    simp only [txStep, hu] at hrun
    cases hrun
    refine ⟨Sender.ivMoved_sound hsound (fun hw => ivIndexUpdate_advance hw hu) fun hc => ?_,
      Sender.ivMoved_layout hlayout⟩
    subst hc
    exact hlayout.idle ((ivIndexUpdate_clear hu).elim (fun h => h) hord)
  | ivTick =>
    rcases hu : ivTick s.iv s.busy with ⟨iv, clear⟩
    simp only [txStep, hu] at hrun
    cases hrun
    refine ⟨Sender.ivMoved_sound hsound (fun hw => ivTick_advance hw hu) fun hc => ?_,
      Sender.ivMoved_layout hlayout⟩
    subst hc
    exact hlayout.idle (ivTick_clear hu)
  | ivTestMode flag =>
    cases hrun
    exact ⟨hsound.advance fun hw => .of_same hw rfl rfl, hlayout.held, hlayout.busy⟩
  | ivOperateTime time =>
    cases hrun
    exact ⟨hsound.advance fun hw => .of_same hw rfl rfl, hlayout.held, hlayout.busy⟩

/-- In a run of steps a node has to keep to, no nonce is used twice until a draw finds its
counter exhausted. -/
theorem nonce_fresh (c : Crypto) (conf : TxConf) (elementNum taskNum : ℕ) (ivIndex : BitVec 32)
    (es : List TxEvent) (s : Sender)
    (hall : RunAll (txStep c conf) Ordinary (Sender.init elementNum taskNum ivIndex) es)
    (hrun : run (txStep c conf) (Sender.init elementNum taskNum ivIndex) es = .ok s)
    (hexhausted : s.exhausted = false) : (s.sent.map NetCall.key).Nodup :=
  ((hall.invariant (fun _ _ _ hv hord hstep => txStep_valid hv hord hstep)
    (init_valid elementNum taskNum ivIndex) hrun).1 hexhausted).nodup

/-- A node with one element at address 1. -/
def plainConf : TxConf := ⟨1, 5, 3⟩

/-- A platform on which everything succeeds. -/
def plainEnv : TxEnv := ⟨true, true, fun _ => true, fun _ => true, .success, fun _ => 0⟩

/-- An access message of the node under a device key. -/
def plainMsg : MsgCtx := { MsgCtx.zero with src := 1, dst := 2, pkey := some (List.replicate 16 3) }

/-- Two access messages, the longer one repeated, and an ack. -/
def plainRun : List TxEvent :=
  [.send plainEnv [1, 2, 3] plainMsg, .send plainEnv (List.replicate 20 7) plainMsg,
    .timeout plainEnv 0, .segAck plainEnv 1 { plainMsg with src := 2, dst := 1 }]

theorem nonce_fresh_example : ∃ s,
    run (txStep maskCrypto plainConf) (Sender.init 1 1 5) plainRun = .ok s ∧
      s.sent.length = 6 ∧ (s.sent.map NetCall.key).Nodup := by
  obtain ⟨s, hs, hobs⟩ : ∃ s,
      run (txStep maskCrypto plainConf) (Sender.init 1 1 5) plainRun = .ok s ∧
        (s.exhausted, s.sent.length) = (false, 6) := observe (by decide +kernel)
  obtain ⟨hex, hlen⟩ := Prod.mk.inj hobs
  refine ⟨s, hs, hlen, nonce_fresh maskCrypto plainConf 1 1 5 plainRun s ?_ hs hex⟩
  have hctl : plainMsg.ctl = true → False := by decide
  exact ⟨fun h => (hctl h).elim, fun _ _ => ⟨fun h => (hctl h).elim, fun _ _ =>
    ⟨trivial, fun _ _ => ⟨trivial, fun _ _ => trivial⟩⟩⟩⟩

/-- Two control messages without segments leave with the number their caller put in. -/
theorem nonce_reused : ∃ s,
    run (txStep maskCrypto plainConf) (Sender.init 1 1 5)
      [.send plainEnv [1] { plainMsg with ctl := true },
        .send plainEnv [2] { plainMsg with ctl := true }] = .ok s ∧
      s.exhausted = false ∧ ¬ (s.sent.map NetCall.key).Nodup := by
  obtain ⟨s, hs, hobs⟩ : ∃ s, run (txStep maskCrypto plainConf) (Sender.init 1 1 5)
      [.send plainEnv [1] { plainMsg with ctl := true },
        .send plainEnv [2] { plainMsg with ctl := true }] = .ok s ∧
      (s.exhausted, s.sent.map NetCall.key) = (false, [(1, 5, 0), (1, 5, 0)]) :=
    observe (by decide +kernel)
  obtain ⟨hex, hkeys⟩ := Prod.mk.inj hobs
  exact ⟨s, hs, hex, by simp [hkeys]⟩

end Meshx.LowerTransTx
