import Meshx.Freshness

/-! What no event on the sending side of a node undoes. -/
namespace Meshx.LowerTransTx

open Lib Security Sequence Segment UpperTrans

/-- A later state of the sending side: what has been sent stays sent, and a counter that has run
out is not forgotten. -/
structure SentOn (s s' : Sender) : Prop where
  sent : s.sent <:+ s'.sent
  exhausted : s.exhausted = true → s'.exhausted = true

section SentOn

variable {c : Crypto} {conf : TxConf} {env : TxEnv} {s s' t : Sender} {id : ℕ} {ctx : MsgCtx}
  {ret : Errno} {e : TxEvent}

theorem SentOn.of_same (hsent : s'.sent = s.sent) (hex : s'.exhausted = s.exhausted) :
    SentOn s s' :=
  ⟨hsent ▸ List.suffix_rfl, fun h => hex.trans h⟩

theorem SentOn.trans (h : SentOn s t) (h' : SentOn t s') : SentOn s s' :=
  ⟨h.sent.trans h'.sent, fun he => h'.exhausted (h.exhausted he)⟩

/-- The first state may be replaced by one that has sent the same. -/
theorem SentOn.start (h : SentOn t s') (hsent : t.sent = s.sent)
    (hex : t.exhausted = s.exhausted) : SentOn s s' :=
  ⟨hsent ▸ h.sent, fun he => h.exhausted (hex.trans he)⟩

theorem sentOn_draw (src : BitVec 16) : SentOn s (s.draw conf src).2 where
  sent := List.suffix_rfl
  exhausted h := by simp [Sender.draw, h]

theorem sentOn_netSend (pdu : List Byte) : SentOn s (s.netSend ctx pdu) :=
  ⟨List.suffix_cons _ _, fun h => h⟩

theorem sentOn_sendSegs {ppdu : Option (List Byte)} {pduLen num rounds i offset : ℕ}
    {blockAck : BitVec 32} {misc : BitVec 24} {ctx' : MsgCtx}
    (hrun : sendSegs conf ppdu pduLen num blockAck rounds i offset misc ctx s =
      .ok (ret, ctx', s')) : SentOn s s' := by
  induction rounds generalizing i offset misc ctx s with
  | zero =>
    cases hrun
    exact .of_same rfl rfl
  | succ rounds ih =>
    rcases sendSegs_cases hrun with ⟨-, hrest⟩ | ⟨-, -, hout⟩ | ⟨data, -, -, -, hrest⟩
    · exact ih hrest
    · cases hout
      exact sentOn_draw _
    · exact ((sentOn_draw _).trans (sentOn_netSend _)).trans (ih hrest)

theorem sentOn_sendTask (hrun : s.sendTask conf env id = .ok (ret, s')) : SentOn s s' := by
  obtain ⟨⟨ret', ctx', t⟩, hseg, hrest⟩ := bind_ok hrun
  cases hrest
  exact (sentOn_sendSegs hseg).trans (.of_same rfl rfl)

theorem sentOn_release (hrun : s.release id = .ok s') : SentOn s s' := by
  unfold Sender.release at hrun
  split_ifs at hrun
  cases hrun
  exact .of_same rfl rfl

theorem sentOn_taskRun {finish : Sender → ℕ → Except Fault Sender}
    (hfinish : ∀ s s' id, finish s id = .ok s' → SentOn s s')
    (hrun : s.taskRun conf env finish id = .ok (ret, s')) : SentOn s s' := by
  unfold Sender.taskRun at hrun
  split_ifs at hrun with hok
  · obtain ⟨t, ht, hret⟩ := bind_ok hrun
    cases hret
    exact hfinish _ _ _ ht
  · obtain ⟨⟨ret', t⟩, ht, hrest⟩ := bind_ok hrun
    have hsent : SentOn s t := (sentOn_sendTask ht).start rfl rfl
    dsimp only at hrest
    split_ifs at hrest with hret
    · obtain ⟨u, hu, hout⟩ := bind_ok hrest
      cases hout
      exact hsent.trans (hfinish _ _ _ hu)
    · cases hrest
      exact hsent.trans (.of_same rfl rfl)

theorem sentOn_taskFinishIn {depth : ℕ} (hrun : s.taskFinishIn conf env depth id = .ok s') :
    SentOn s s' := by
  induction depth generalizing s s' id with
  | zero =>
    obtain ⟨t, ht, hret⟩ := bind_ok hrun
    cases hret
    exact (sentOn_release ht).trans (.of_same rfl rfl)
  | succ depth ih =>
    obtain ⟨t, ht, hrest⟩ := bind_ok hrun
    have hsent := sentOn_release ht
    dsimp only at hrest
    split at hrest
    · cases hrest
      exact hsent.trans (.of_same rfl rfl)
    · obtain ⟨⟨ret, u⟩, hu, hout⟩ := bind_ok hrest
      cases hout
      exact hsent.trans ((sentOn_taskRun (fun _ _ _ hf => ih hf) hu).start rfl rfl)

theorem sentOn_taskFinish (hrun : s.taskFinish conf env id = .ok s') : SentOn s s' :=
  sentOn_taskFinishIn hrun

theorem sentOn_afterRetry (hrun : s.afterRetry conf env id = .ok s') : SentOn s s' := by
  unfold Sender.afterRetry at hrun
  split_ifs at hrun
  · exact sentOn_taskFinish hrun
  · cases hrun
    exact .of_same rfl rfl

theorem sentOn_retry (hsend : s.sendTask conf env id = .ok (ret, t))
    (hrun : t.afterRetry conf env id = .ok s') : SentOn s s' :=
  (sentOn_sendTask hsend).trans (sentOn_afterRetry hrun)

theorem sentOn_handleTxTimeout (hrun : s.handleTxTimeout conf env id = .ok s') :
    SentOn s s' := by
  have hbump : SentOn s (s.bumpRetry id) := .of_same rfl rfl
  unfold Sender.handleTxTimeout at hrun
  dsimp only at hrun
  split_ifs at hrun
  · exact hbump.trans (sentOn_taskFinish hrun)
  · obtain ⟨⟨ret, t⟩, ht, hrest⟩ := bind_ok hrun
    exact hbump.trans (sentOn_retry ht hrest)

theorem sentOn_recvBlockAck {zero : BitVec 13} {blockAck : BitVec 32}
    (hrun : s.recvBlockAck conf env zero blockAck = .ok s') : SentOn s s' := by
  unfold Sender.recvBlockAck at hrun
  split at hrun
  · cases hrun
    exact .of_same rfl rfl
  next id _ =>
    have hbump : SentOn s (s.bumpRetry id) := .of_same rfl rfl
    have hset : SentOn s ((s.bumpRetry id).setBlockAck id blockAck) := .of_same rfl rfl
    dsimp only at hrun
    split_ifs at hrun
    · exact sentOn_taskFinish hrun
    · exact sentOn_taskFinish hrun
    · exact hbump.trans (sentOn_taskFinish hrun)
    · obtain ⟨⟨ret, t⟩, ht, hrest⟩ := bind_ok hrun
      exact hset.trans (sentOn_retry ht hrest)

theorem sentOn_taskTry (hrun : s.taskTry conf env id = .ok (ret, s')) : SentOn s s' := by
  unfold Sender.taskTry at hrun
  split_ifs at hrun
  · cases hrun
    exact .of_same rfl rfl
  · exact sentOn_taskRun (fun _ _ _ hf => sentOn_taskFinish hf) hrun

theorem sentOn_processSegMsg {pdu : List Byte}
    (hrun : s.processSegMsg conf env pdu ctx = .ok (ret, s')) : SentOn s s' := by
  unfold Sender.processSegMsg at hrun
  dsimp only at hrun
  by_cases hnum : maxSegSize < segNum ctx.ctl pdu.length
  · rw [if_pos hnum] at hrun
    cases hrun
    exact .of_same rfl rfl
  rw [if_neg hnum] at hrun
  split at hrun
  · cases hrun
    exact .of_same rfl rfl
  cases hidle : s.idle with
  | nil =>
    rw [hidle] at hrun
    cases hrun
    exact .of_same rfl rfl
  | cons id idle =>
    rw [hidle] at hrun
    dsimp only at hrun
    split_ifs at hrun
    · cases hrun
      exact .of_same rfl rfl
    · exact (sentOn_taskTry hrun).start rfl rfl

theorem sentOn_lowerTransSend {pdu : List Byte}
    (hrun : s.lowerTransSend conf env pdu ctx = .ok (ret, s')) : SentOn s s' := by
  unfold Sender.lowerTransSend at hrun
  split_ifs at hrun
  · cases hrun
    exact .of_same rfl rfl
  · cases hrun
    exact .of_same rfl rfl
  · exact sentOn_processSegMsg hrun
  · cases hrun
    exact sentOn_netSend _

theorem sentOn_upperSend {data : List Byte}
    (hrun : s.upperSend c conf env data ctx = .ok (ret, s')) : SentOn s s' := by
  obtain ⟨⟨arr, out⟩, -, hrest⟩ := bind_ok hrun
  cases out with
  | ret err =>
    cases hrest
    exact .of_same rfl rfl
  | lower pdu ctx call =>
    have hrest' := sentOn_lowerTransSend hrest
    exact ⟨hrest'.sent, fun h => hrest'.exhausted (by simp [h])⟩

theorem txStep_sentOn (hrun : txStep c conf s e = .ok s') : SentOn s s' := by
  cases e with
  | send env data ctx =>
    obtain ⟨⟨ret, t⟩, ht, rfl⟩ := map_ok hrun
    exact sentOn_upperSend ht
  | timeout env id => exact sentOn_handleTxTimeout hrun
  | recvBlockAck env zero blockAck => exact sentOn_recvBlockAck hrun
  | segAck env blockAck rx =>
    obtain ⟨⟨ret, t⟩, ht, rfl⟩ := map_ok hrun
    exact (sentOn_draw _).trans (sentOn_lowerTransSend ht)
  | ivUpdate ivIndex state | ivTick | ivTestMode flag | ivOperateTime time =>
    cases hrun
    exact .of_same rfl rfl

end SentOn

end Meshx.LowerTransTx
