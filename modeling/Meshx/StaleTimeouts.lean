import Meshx.AsyncMsg
import Meshx.ProxyBounds

/-! Timeouts of messages that are no longer there. A timeout is handled for the message whose timer
expired as long as no message ends of which one waits in the queue, and no timer expires that the
message before it left running. -/
namespace Meshx.Async

open Lib Segment Replay Sequence IvIndex
open LowerTransTx (Sender TxConf TxEnv Tidy Timer schedStep)
open LowerTransRx (Receiver RxEnv RxCall RxTimer RxTask Handle Orphan)
open Proxy (RxCtx findRxCtx rxCtxRelease)

section Tx

variable {conf : TxConf} {env : TxEnv} {s s' : Sender} {taskNum : ℕ}

/-- The sending tasks are in order, and so are their timers. -/
structure TxSound (taskNum : ℕ) (s : Sender) : Prop where
  tidy : Tidy taskNum s
  timed : s.Timed

theorem TxSound.step {e : LowerTransTx.SchedEvent} (h : TxSound taskNum s)
    (hrun : schedStep conf s e = .ok s') : TxSound taskNum s' ∧ s.ActiveBut s' (e.ends conf s) := by
  obtain ⟨hactive, htimed⟩ := h.tidy.timers hrun
  exact ⟨⟨h.tidy.step hrun, htimed h.timed⟩, hactive⟩

theorem TxSound.of_sameTasks (h : TxSound taskNum s) (hs : LowerTransTx.Sender.SameTasks s s') :
    TxSound taskNum s' := by
  obtain ⟨⟨⟨⟨hplaced, hapart, hserved⟩, hloaded⟩, hmasked⟩, htimed⟩ := h
  refine ⟨⟨⟨⟨?_, ?_, ?_⟩, ?_⟩, ?_⟩, ?_⟩
  · rw [hs.idle, hs.active, hs.pending]
    exact hplaced
  · rw [hs.active, hs.task]
    exact hapart
  · rw [hs.active, hs.pending, hs.task]
    exact hserved
  · rw [hs.active, hs.pending, hs.task]
    exact hloaded
  · unfold LowerTransTx.Sender.Masked
    rw [hs.task]
    exact hmasked
  · unfold LowerTransTx.Sender.Timed LowerTransTx.Sender.timerGen
    rw [hs.task, hs.active]
    exact htimed

/-- A timer that has expired is still one of its task. -/
theorem TxSound.expired {id gen : ℕ} (h : TxSound taskNum s)
    (htimer : (s.task id).retryTimer = some ⟨true, gen⟩) :
    TxSound taskNum (s.setTask id { s.task id with retryTimer := some ⟨false, gen⟩ }) := by
  have hset := @LowerTransTx.Sender.sameTimers_setTask s id
    { s.task id with retryTimer := some ⟨false, gen⟩ } rfl (by
      rw [LowerTransTx.Sender.timerGen, htimer]
      rfl)
  have htouches := @LowerTransTx.Sender.touches_setTask s id
    { s.task id with retryTimer := some ⟨false, gen⟩ } rfl
  exact ⟨⟨h.tidy.orderly.touches htouches, h.tidy.masked.of_outline htouches.outline_eq⟩,
    hset.timed h.timed⟩

theorem TxSound.segAck {blockAck : BitVec 32} {ctx : MsgCtx} (h : TxSound taskNum s)
    (hrun : txCall conf env s (.segAck blockAck ctx) = .ok s') :
    TxSound taskNum s' ∧ s.ActiveBut s' none := by
  have hdraw := @LowerTransTx.Sender.sameTasks_draw conf s
    (LowerTransTx.Sender.segAckCtx conf s ctx).src
  obtain ⟨hsound, hactive⟩ := (h.of_sameTasks hdraw).step
    (e := .send env _ { LowerTransTx.Sender.segAckCtx conf s ctx with seq := _ }) hrun
  refine ⟨hsound, fun j hj _ => ?_⟩
  have hkept := hactive j (hdraw.active ▸ hj) (by simp [LowerTransTx.SchedEvent.ends])
  rwa [hdraw.task] at hkept

theorem TxSound.txCalls {calls : List RxCall} (h : TxSound taskNum s)
    (hcalls : ∀ zero blockAck, .recvBlockAck zero blockAck ∉ calls)
    (hrun : txCalls conf env calls s = .ok s') : TxSound taskNum s' ∧ s.ActiveBut s' none := by
  induction calls generalizing s with
  | nil =>
    cases hrun
    exact ⟨h, fun j hj _ => ⟨hj, rfl⟩⟩
  | cons call calls ih =>
    obtain ⟨t, ht, hrest⟩ := bind_ok hrun
    have hcalls' : ∀ zero blockAck, .recvBlockAck zero blockAck ∉ calls :=
      fun zero blockAck hmem => hcalls zero blockAck (List.mem_cons_of_mem _ hmem)
    have hcall : TxSound taskNum t ∧ s.ActiveBut t none := by
      cases call with
      | segAck blockAck ctx => exact h.segAck ht
      | recvBlockAck zero blockAck => exact absurd List.mem_cons_self (hcalls zero blockAck)
      | upperReceive buf pduLen ctx =>
        cases ht
        exact ⟨h, fun j hj _ => ⟨hj, rfl⟩⟩
    obtain ⟨hsound, hactive⟩ := ih hcall.1 hcalls' hrest
    exact ⟨hsound, hcall.2.trans hactive⟩

end Tx

section Calls

open LowerTransRx.Receiver

variable {r r' : Receiver} {env : RxEnv} {id len : ℕ} {mem : ℕ → Byte} {ctx : MsgCtx}
  {ret : Errno} {calls : List RxCall} {zero : BitVec 13} {blockAck : BitVec 32}

theorem receiveFor_no_ack (hrun : r.receiveFor id mem len ctx = .ok (ret, r', calls)) :
    .recvBlockAck zero blockAck ∉ calls := by
  rcases receiveFor_cases hrun with ⟨-, -, rfl⟩ | ⟨-, -, hcases⟩
  · simp
  rcases hcases with ⟨-, err, rpl, -, -, rfl⟩ | ⟨-, -, -, rfl⟩ | ⟨-, hcases⟩
  · simp
  · simp
  rcases hcases with ⟨-, hs⟩ | ⟨-, hs⟩
  · rcases receiveSingle_cases hs with ⟨rpl, -, -, rfl⟩ | ⟨rpl, buf, handle, -, -, -, -, -, rfl⟩
    · simp
    · simp
  · obtain ⟨buf, -, -, hcases⟩ := receiveMulti_cases hs
    rcases hcases with ⟨-, rpl, -, -, rfl⟩ | ⟨-, rpl, handle, -, -, -, rfl⟩ |
      ⟨-, ack, handle, -, -, -, rfl⟩
    · simp
    · simp
    · simp

/-- An ack is handed on if and only if the replay list takes it, and then alone. -/
theorem receive_calls (hrun : r.receive env mem len ctx = .ok (ret, r', calls)) :
    (ctx.ctl && (mem 0).extractLsb' 0 7 == 0 && r.rplChecked ctx == some true) = true ∧
        calls = [LowerTransRx.Receiver.ackCall mem] ∨
      (ctx.ctl && (mem 0).extractLsb' 0 7 == 0 && r.rplChecked ctx == some true) = false ∧
        ∀ zero blockAck, .recvBlockAck zero blockAck ∉ calls := by
  rw [LowerTransRx.Receiver.receive] at hrun
  split_ifs at hrun with hack hseg
  · obtain ⟨ok, rpl, hcheck, -, rfl⟩ := receiveUnseg_cases hrun
    have hchecked : r.rplChecked ctx = some ok := by
      rw [rplChecked, hcheck]
      rfl
    rw [hack, hchecked]
    cases ok with
    | false => exact .inr ⟨rfl, fun _ _ => by simp⟩
    | true => exact .inl ⟨rfl, rfl⟩
  · rw [Bool.not_eq_true] at hack
    rw [hack]
    refine .inr ⟨rfl, ?_⟩
    rcases receiveSegMsg_cases hrun with ⟨-, rfl⟩ | ⟨s, id, -, hfor⟩
    · exact fun _ _ => by simp
    · exact fun _ _ => receiveFor_no_ack hfor
  · obtain ⟨ok, rpl, -, -, rfl⟩ := receiveUnseg_cases hrun
    rw [Bool.not_eq_true] at hack
    rw [hack]
    refine .inr ⟨rfl, fun _ _ => ?_⟩
    cases ok <;> simp [LowerTransRx.Receiver.unsegCall]

end Calls

section Contexts

open Proxy

variable {β : Type} {w : World} {ctxs : List (RxCtx β)} {bearer b : β} {c d : RxCtx β} {pdu : Data}
  {out : Out β}

theorem rxCtxCopy_bearer {data : List Byte} (hrun : rxCtxCopy c data = .ok d) :
    d.bearer = c.bearer := by
  unfold rxCtxCopy at hrun
  split_ifs at hrun
  cases hrun
  rfl

theorem makeRoom_bearer {len : ℕ} (hrun : makeRoom w c len = .ok (some d)) :
    d.bearer = c.bearer := by
  unfold makeRoom rxCtxExpand at hrun
  split_ifs at hrun <;> cases hrun <;> rfl

theorem makeRoom_none {len : ℕ} (hrun : makeRoom w c len = .ok none) :
    c.maxLen < c.dataLen + len ∧ w.mallocOk = false := by
  unfold makeRoom rxCtxExpand at hrun
  split_ifs at hrun with hfull hmalloc
  · cases hrun
  · exact ⟨hfull, by simpa using hmalloc⟩
  · cases hrun

variable [DecidableEq β]

theorem findRxCtx_isSome : (findRxCtx ctxs b).isSome ↔ b ∈ ctxs.map RxCtx.bearer := by
  rw [findRxCtx, List.find?_isSome, List.mem_map]
  simp

theorem mem_release (hb : b ≠ bearer) (hmem : b ∈ ctxs.map RxCtx.bearer) :
    b ∈ (rxCtxRelease ctxs bearer).map RxCtx.bearer := by
  obtain ⟨c, hc, rfl⟩ := List.mem_map.mp hmem
  exact List.mem_map_of_mem ((List.mem_eraseP_of_neg (by simpa using hb)).mpr hc)

theorem setRxCtx_bearers (hc : c.bearer = bearer) :
    (setRxCtx ctxs bearer c).map RxCtx.bearer = ctxs.map RxCtx.bearer := by
  induction ctxs with
  | nil => rfl
  | cons d ctxs ih =>
    unfold setRxCtx at ih ⊢
    by_cases hd : d.bearer = bearer
    · simp [List.replaceF, hd, hc]
    · simp only [List.replaceF, if_neg hd, List.map_cons, ih]

omit [DecidableEq β] in
theorem receiveFirst_bearers (hrun : receiveFirst w ctxs bearer pdu = .ok out)
    (hmem : b ∈ ctxs.map RxCtx.bearer) : b ∈ out.ctxs.map RxCtx.bearer := by
  unfold receiveFirst at hrun
  cases hreq : rxCtxRequest w bearer (pduMsgType pdu) pdu.bytes.length with
  | none =>
    rw [hreq] at hrun
    cases hrun
    exact hmem
  | some c =>
    rw [hreq] at hrun
    obtain ⟨d, -, rfl⟩ := map_ok hrun
    rw [List.map_append]
    exact List.mem_append_left _ hmem

/-- A further segment ends the context if there is no room for it, or if it is the last one. -/
theorem receiveNext_bearers (hrun : receiveNext w ctxs bearer c pdu = .ok out)
    (hbearer : c.bearer = bearer) (hmem : b ∈ ctxs.map RxCtx.bearer) :
    b ∈ out.ctxs.map RxCtx.bearer ∨ (out.ctxs = rxCtxRelease ctxs bearer ∧
      (pduSar pdu = .lastSeg ∨
        c.maxLen < c.dataLen + (pdu.bytes.length - 1) ∧ w.mallocOk = false)) := by
  have hdrop : (pdu.bytes.drop 1).length = pdu.bytes.length - 1 := List.length_drop
  unfold receiveNext at hrun
  rw [hdrop] at hrun
  cases hroom : makeRoom w c (pdu.bytes.length - 1) with
  | error f =>
    rw [hroom] at hrun
    cases hrun
  | ok room =>
    rw [hroom] at hrun
    cases room with
    | none =>
      cases hrun
      exact .inr ⟨rfl, .inr (makeRoom_none hroom)⟩
    | some d =>
      obtain ⟨d', hd', rfl⟩ := map_ok hrun
      have hd : d'.bearer = bearer :=
        (rxCtxCopy_bearer hd').trans ((makeRoom_bearer hroom).trans hbearer)
      unfold stored
      by_cases hlast : pduSar pdu = .lastSeg
      · rw [if_pos hlast]
        exact .inr ⟨rfl, .inl hlast⟩
      · rw [if_neg hlast]
        exact .inl ((setRxCtx_bearers hd).symm ▸ hmem)

/-- A PDU leaves the contexts but the one that it ends. -/
theorem receive_bearers (hrun : receive w ctxs bearer pdu = .ok out)
    (hmem : b ∈ ctxs.map RxCtx.bearer) (hends : b = bearer → ctxEnds w ctxs bearer pdu = false) :
    b ∈ out.ctxs.map RxCtx.bearer := by
  unfold receive at hrun
  by_cases hshort : pdu.bytes.length ≤ 1
  · rw [if_pos hshort] at hrun
    cases hrun
    exact hmem
  rw [if_neg hshort] at hrun
  cases hfind : findRxCtx ctxs bearer with
  | none =>
    rw [hfind] at hrun
    dsimp only at hrun
    split_ifs at hrun
    · exact receiveFirst_bearers hrun hmem
    · cases hrun
      exact hmem
  | some c =>
    rw [hfind] at hrun
    dsimp only at hrun
    have hbearer : c.bearer = bearer := by simpa using List.find?_some hfind
    -- where the context is released, the PDU ends it
    have hreleased : (b = bearer → ctxEnds w ctxs bearer pdu = true) →
        b ∈ (rxCtxRelease ctxs bearer).map RxCtx.bearer := by
      intro htrue
      refine mem_release (fun hb => ?_) hmem
      exact Bool.false_ne_true ((hends hb).symm.trans (htrue hb))
    have hctx : ctxEnds w ctxs bearer pdu = (begins pdu || c.msgType != pduMsgType pdu ||
        pduSar pdu == .lastSeg ||
          (c.maxLen < c.dataLen + (pdu.bytes.length - 1) && !w.mallocOk) : Bool) := by
      rw [ctxEnds, hfind, decide_eq_true (not_le.mp hshort)]
      rfl
    by_cases hbegins : begins pdu
    · rw [if_pos hbegins] at hrun
      cases hrun
      exact hreleased fun _ => by simp [hctx, hbegins]
    rw [if_neg hbegins] at hrun
    by_cases htype : c.msgType = pduMsgType pdu
    · rw [if_neg (not_not.mpr htype)] at hrun
      rcases receiveNext_bearers hrun hbearer hmem with hkept | ⟨hout, hlast | ⟨hfull, hmalloc⟩⟩
      · exact hkept
      · rw [hout]
        exact hreleased fun _ => by simp [hctx, hlast]
      · rw [hout]
        exact hreleased fun _ => by simp [hctx, hfull, hmalloc]
    · rw [if_pos htype] at hrun
      cases hrun
      exact hreleased fun _ => by simp [hctx, htype]

end Contexts

variable {β : Type} {conf : TxConf} {env : TxEnv} {n n' m : Node β} {e : Event β}
  {msg x : AsyncMsg β} {taskNum : ℕ}

/-- What is in the queue after a message is sent. -/
theorem mem_asyncMsgSend (hmem : msg ∈ (m.asyncMsgSend x).asyncActive) :
    msg ∈ m.asyncActive ∨ msg = x ∧ m.asyncIdle ≠ 0 := by
  unfold Node.asyncMsgSend at hmem
  split_ifs at hmem with hidle
  · exact .inl hmem
  · rcases List.mem_append.mp hmem with hmem | hmem
    · exact .inl hmem
    · exact .inr ⟨List.mem_singleton.mp hmem, hidle⟩

variable [DecidableEq β]

/-- The tasks of both sides are in order, with their timers. -/
structure Sound (taskNum : ℕ) (n : Node β) : Prop where
  tx : TxSound taskNum n.tx
  pool : n.rx.Pool
  dated : n.rx.Dated

/-- What an event does: the tasks stay in order, no message ends but those that the event is known
to end, and a timeout that is new in the queue is one of a message that is in use. -/
structure Next (taskNum : ℕ) (conf : TxConf) (n : Node β) (e : Event β) (n' : Node β) : Prop
    extends Sound taskNum n' where
  keepsTx : n.tx.ActiveBut n'.tx (n.txEnds conf e)
  keepsRx : n.rx.ActiveBut n'.rx (n.rxEnds e)
  keepsSar : ∀ bearer gen, n.sarEnds e ≠ some bearer → n.sarLive bearer gen = true →
    n'.sarLive bearer gen = true
  queue : ∀ msg ∈ n'.asyncActive, msg ∈ n.waiting e ∨ n'.Live msg

theorem Next.live (h : Next taskNum conf n e n') (hlive : n.Live msg) (hs : n.Spares conf e msg) :
    n'.Live msg := by
  cases msg with
  | lowerTransTx id gen =>
    obtain ⟨hactive, hgen⟩ := h.keepsTx id hlive.1 hs
    exact ⟨hactive, hgen.trans hlive.2⟩
  | lowerTransRxAck id gen | lowerTransRxIncomplete id gen =>
    obtain ⟨hactive, hgen⟩ := h.keepsRx id hlive.1 hs
    exact ⟨hactive, hgen.trans hlive.2⟩
  | proxySar bearer gen => exact h.keepsSar bearer gen hs hlive
  | other => trivial

section Send

theorem live_asyncMsgSend : (m.asyncMsgSend x).Live msg ↔ m.Live msg := by
  unfold Node.asyncMsgSend
  split_ifs <;> cases msg <;> exact Iff.rfl

/-- An event that changes nothing. -/
theorem Sound.same (h : Sound taskNum n) (he : n.waiting e = n.asyncActive) :
    Next taskNum conf n e n where
  toSound := h
  keepsTx _ hj _ := ⟨hj, rfl⟩
  keepsRx _ hj _ := ⟨hj, rfl⟩
  keepsSar _ _ _ hlive := hlive
  queue _ hmem := .inl (he ▸ hmem)

/-- An expiry sends a message, if there is memory for it. -/
theorem Next.asyncMsgSend (h : Next taskNum conf n e m) (hx : m.asyncIdle ≠ 0 → m.Live x) :
    Next taskNum conf n e (m.asyncMsgSend x) := by
  have htx : (m.asyncMsgSend x).tx = m.tx := by unfold Node.asyncMsgSend; split_ifs <;> rfl
  have hrx : (m.asyncMsgSend x).rx = m.rx := by unfold Node.asyncMsgSend; split_ifs <;> rfl
  refine ⟨⟨htx ▸ h.tx, hrx ▸ h.pool, hrx ▸ h.dated⟩, htx ▸ h.keepsTx, hrx ▸ h.keepsRx,
    fun bearer gen hne hlive => ?_, fun msg hmem => ?_⟩
  · have hkept : m.Live (.proxySar bearer gen) := h.keepsSar bearer gen hne hlive
    have hsent : (m.asyncMsgSend x).Live (.proxySar bearer gen) := live_asyncMsgSend.mpr hkept
    exact hsent
  · rcases mem_asyncMsgSend hmem with hmem | ⟨rfl, hidle⟩
    · exact (h.queue msg hmem).imp_right live_asyncMsgSend.mpr
    · exact .inr (live_asyncMsgSend.mpr (hx hidle))

end Send

section Expire

variable (h : Sound taskNum n)
include h

theorem Sound.txExpire (id : ℕ) : Next taskNum conf n (.txExpire id) (n.txExpire id) := by
  have hsame : Next taskNum conf n (.txExpire id) n := h.same rfl
  unfold Node.txExpire
  split
  · next gen htimer =>
    obtain ⟨hactive, hgen⟩ := h.tx.timed id gen (by
      rw [LowerTransTx.Sender.timerGen, htimer]
      rfl)
    have hset := @LowerTransTx.Sender.sameTimers_setTask n.tx id
      { n.tx.task id with retryTimer := some ⟨false, gen⟩ } rfl (by
        rw [LowerTransTx.Sender.timerGen, htimer]
        rfl)
    refine Next.asyncMsgSend ⟨⟨h.tx.expired htimer, h.pool, h.dated⟩, hset.activeBut _,
      hsame.keepsRx, hsame.keepsSar, fun _ hmem => .inl hmem⟩ fun _ => ⟨hactive, ?_⟩
    exact (hset.gen id).trans hgen.symm
  · exact hsame
  · exact hsame

theorem Sound.rxExpire (kind : RxTimer) (id : ℕ) (howned : n.Owned (.rxExpire kind id)) :
    Next taskNum conf n (.rxExpire kind id) (n.rxExpire kind id) := by
  have hsame : Next taskNum conf n (.rxExpire kind id) n := h.same rfl
  unfold Node.rxExpire
  split
  · next gen htimer =>
    have hctx : (setHandle (n.rx.task id) kind (.timer ⟨false, gen⟩)).ctx = (n.rx.task id).ctx := by
      cases kind <;> rfl
    have hgen : (setHandle (n.rx.task id) kind (.timer ⟨false, gen⟩)).gen = (n.rx.task id).gen := by
      cases kind <;> rfl
    have hkeeps : n.rx.ActiveBut (n.rx.setTask id
        (setHandle (n.rx.task id) kind (.timer ⟨false, gen⟩))) none := by
      intro j hj _
      refine ⟨hj, ?_⟩
      by_cases hji : j = id
      · rw [hji, LowerTransRx.Receiver.setTask_self, hgen]
      · rw [LowerTransRx.Receiver.setTask_of_ne hji]
    have hdated : (n.rx.setTask id
        (setHandle (n.rx.task id) kind (.timer ⟨false, gen⟩))).Dated := by
      refine h.dated.of_old (LowerTransRx.Receiver.old_setTask _) fun hid => ?_
      rw [LowerTransRx.Receiver.setTask_self]
      intro kind' gen' hgen'
      rw [hgen]
      by_cases hkind : kind' = kind
      · subst hkind
        obtain rfl : gen' = gen := by cases kind' <;> exact (Option.some.inj hgen').symm
        exact h.dated id hid kind' gen' (by rw [htimer]; rfl)
      · refine h.dated id hid kind' gen' ?_
        cases kind <;> cases kind' <;> first | exact hgen' | exact absurd rfl hkind
    refine Next.asyncMsgSend ⟨⟨h.tx, h.pool.setTask hctx, hdated⟩, hsame.keepsTx, hkeeps,
      hsame.keepsSar, fun _ hmem => .inl hmem⟩ fun hidle => ?_
    have hactive : id ∈ n.rx.active := howned (by rw [htimer]; rfl) hidle
    have hown := h.dated id hactive kind gen (by rw [htimer]; rfl)
    have hlive : id ∈ n.rx.active ∧ ((n.rx.setTask id
        (setHandle (n.rx.task id) kind (.timer ⟨false, gen⟩))).task id).gen = gen := by
      rw [LowerTransRx.Receiver.setTask_self, hgen, hown]
      exact ⟨hactive, rfl⟩
    cases kind <;> exact hlive
  · exact hsame
  · exact hsame
  · exact hsame

theorem Sound.orphanExpire (o : Orphan) (howned : n.Owned (.orphanExpire o)) :
    Next taskNum conf n (.orphanExpire o) (n.orphanExpire o) := by
  have hsame : Next taskNum conf n (.orphanExpire o) n := h.same rfl
  unfold Node.orphanExpire
  split_ifs with hruns
  · rw [Bool.and_eq_true] at hruns
    refine Next.asyncMsgSend ⟨⟨h.tx, ⟨h.pool.nodup, h.pool.src_inj⟩, h.dated⟩, hsame.keepsTx,
      fun j hj _ => ⟨hj, rfl⟩, hsame.keepsSar, fun _ hmem => .inl hmem⟩ fun hidle => ?_
    exact absurd (howned hruns.1 hruns.2) hidle
  · exact hsame

theorem Sound.sarExpire (bearer : β) :
    Next taskNum conf n (.sarExpire bearer) (n.sarExpire bearer) := by
  have hsame : Next taskNum conf n (.sarExpire bearer) n := h.same rfl
  have hgen : ∀ b, (Function.update n.sar bearer ⟨false, (n.sar bearer).gen⟩ b).gen =
      (n.sar b).gen := by
    intro b
    by_cases hb : b = bearer
    · rw [hb, Function.update_self]
    · rw [Function.update_of_ne hb]
  unfold Node.sarExpire
  split_ifs with hruns
  · rw [Bool.and_eq_true] at hruns
    refine Next.asyncMsgSend ⟨⟨h.tx, h.pool, h.dated⟩, hsame.keepsTx, hsame.keepsRx,
      fun b gen _ hlive => ?_, fun _ hmem => .inl hmem⟩ fun _ => ?_
    · unfold Node.sarLive at hlive ⊢
      rw [hgen]
      exact hlive
    · change Node.sarLive _ _ _ = true
      unfold Node.sarLive
      rw [hgen]
      simp [hruns.1]
  · exact hsame

end Expire

section Steps

variable (h : Sound taskNum n)
include h

theorem Sound.receive {rxEnv : RxEnv} {mem : ℕ → Byte} {len : ℕ} {ctx : MsgCtx}
    (hrun : n.receive conf rxEnv env mem len ctx = .ok n') :
    Next taskNum conf n (.receive rxEnv env mem len ctx) n' := by
  obtain ⟨⟨ret, rx, calls⟩, hrx, hrest⟩ := bind_ok hrun
  obtain ⟨tx, htx, hret⟩ := bind_ok hrest
  cases hret
  obtain ⟨hrxKeeps, hdated⟩ := h.pool.timers h.dated hrx
  have hpool := (h.pool.receive hrx).1
  have htxSound : TxSound taskNum tx ∧
      n.tx.ActiveBut tx (n.txEnds conf (.receive rxEnv env mem len ctx)) := by
    unfold Node.txEnds
    dsimp only
    rcases receive_calls hrx with ⟨hack, rfl⟩ | ⟨-, hcalls⟩
    · rw [if_pos hack]
      obtain ⟨t, ht, hlast⟩ := bind_ok htx
      cases hlast
      exact h.tx.step (e := .ack env 0 _ _) ht
    · obtain ⟨hsound, hkeeps⟩ := h.tx.txCalls hcalls htx
      exact ⟨hsound, fun j hj _ => hkeeps j hj (by simp)⟩
  exact ⟨⟨htxSound.1, hpool, hdated⟩, htxSound.2, hrxKeeps, fun _ _ _ hlive => hlive,
    fun _ hmem => .inl hmem⟩

theorem Sound.proxyReceive {w : Proxy.World} {bearer : β} {pdu : Proxy.Data}
    (hrun : n.proxyReceive w bearer pdu = .ok n') :
    Next taskNum conf n (.proxyReceive w bearer pdu) n' := by
  obtain ⟨out, hout, hret⟩ := bind_ok hrun
  cases hret
  refine ⟨⟨h.tx, h.pool, h.dated⟩, fun j hj _ => ⟨hj, rfl⟩, fun j hj _ => ⟨hj, rfl⟩,
    fun b gen hends hlive => ?_, fun _ hmem => .inl hmem⟩
  unfold Node.sarLive at hlive ⊢
  rw [Bool.and_eq_true, beq_iff_eq] at hlive
  rw [Bool.and_eq_true, beq_iff_eq]
  have hmem := receive_bearers hout (findRxCtx_isSome.mp hlive.1) fun hb => by
    rw [← Bool.not_eq_true]
    intro htrue
    refine hends ?_
    rw [Node.sarEnds, if_pos htrue, hb]
  refine ⟨findRxCtx_isSome.mpr hmem, ?_⟩
  by_cases hb : b = bearer
  · subst hb
    obtain ⟨c, hc⟩ := Option.isSome_iff_exists.mp hlive.1
    obtain ⟨d, hd⟩ := Option.isSome_iff_exists.mp (findRxCtx_isSome.mpr hmem)
    simp only [Function.update_self, hc, hd]
    exact hlive.2
  · simp only [Function.update_of_ne hb]
    exact hlive.2

theorem Sound.process (hrun : n.asyncMsgProcess conf env = .ok n') :
    Next taskNum conf n (.process env) n' := by
  unfold Node.asyncMsgProcess at hrun
  cases hq : n.asyncActive with
  | nil =>
    rw [hq] at hrun
    cases hrun
    exact h.same (by rw [Node.waiting, hq]; rfl)
  | cons msg rest =>
    rw [hq] at hrun
    have hqueue : ∀ x ∈ n.popped.asyncActive, x ∈ n.waiting (.process env) ∨ n'.Live x :=
      fun x hx => .inl hx
    cases msg with
    | lowerTransTx id gen =>
      obtain ⟨tx, htx, hret⟩ := bind_ok hrun
      cases hret
      obtain ⟨hsound, hkeeps⟩ := h.tx.step (e := .timeout env id) htx
      refine ⟨⟨hsound, h.pool, h.dated⟩, ?_, fun j hj _ => ⟨hj, rfl⟩, fun _ _ _ hlive => hlive,
        hqueue⟩
      rw [Node.txEnds, hq]
      exact hkeeps
    | lowerTransRxAck id gen =>
      obtain ⟨tx, htx, hret⟩ := bind_ok hrun
      cases hret
      obtain ⟨hsound, hkeeps⟩ := h.tx.segAck htx
      exact ⟨⟨hsound, h.pool, h.dated⟩, fun j hj _ => hkeeps j hj (by simp),
        fun j hj _ => ⟨hj, rfl⟩, fun _ _ _ hlive => hlive, hqueue⟩
    | lowerTransRxIncomplete id gen =>
      obtain ⟨rx, hrx, hret⟩ := bind_ok hrun
      cases hret
      obtain ⟨hmem, rfl⟩ := LowerTransRx.Receiver.release_ok hrx
      obtain ⟨hpool, hkept, hold⟩ := h.pool.released hmem
      have hdated : (n.rx.released id).Dated := by
        intro j hj
        obtain ⟨hj', htask⟩ := hold j hj (by simp)
        rw [htask]
        exact h.dated j hj'
      refine ⟨⟨h.tx, hpool, hdated⟩, fun j hj _ => ⟨hj, rfl⟩, ?_, fun _ _ _ hlive => hlive,
        hqueue⟩
      rw [Node.rxEnds, hq]
      exact hkept.activeBut
    | proxySar bearer gen =>
      have hsar : n.popped.handleSarTimeout bearer gen = .ok n' := hrun
      unfold Node.handleSarTimeout at hsar
      split_ifs at hsar
      cases hsar
      refine ⟨⟨h.tx, h.pool, h.dated⟩, fun j hj _ => ⟨hj, rfl⟩, fun j hj _ => ⟨hj, rfl⟩,
        fun b g hends hlive => ?_, hqueue⟩
      rw [Node.sarEnds, hq] at hends
      have hb : b ≠ bearer := fun heq => hends (congrArg some heq.symm)
      unfold Node.sarLive at hlive ⊢
      rw [Bool.and_eq_true] at hlive ⊢
      refine ⟨findRxCtx_isSome.mpr (mem_release hb (findRxCtx_isSome.mp hlive.1)), ?_⟩
      simp only [Function.update_of_ne hb]
      exact hlive.2
    | other =>
      obtain rfl := Except.ok.inj hrun
      exact ⟨⟨h.tx, h.pool, h.dated⟩, fun j hj _ => ⟨hj, rfl⟩, fun j hj _ => ⟨hj, rfl⟩,
        fun _ _ _ hlive => hlive, hqueue⟩

theorem Sound.step (howned : n.Owned e) (hrun : step conf n e = .ok n') :
    Next taskNum conf n e n' := by
  cases e with
  | send env pdu ctx =>
    obtain ⟨⟨ret, tx⟩, htx, hret⟩ := bind_ok hrun
    cases hret
    have hsched : schedStep conf n.tx (.send env pdu ctx) = .ok tx := by
      rw [schedStep, htx]
      rfl
    obtain ⟨hsound, hkeeps⟩ := h.tx.step hsched
    exact ⟨⟨hsound, h.pool, h.dated⟩, hkeeps, fun j hj _ => ⟨hj, rfl⟩, fun _ _ _ hlive => hlive,
      fun _ hmem => .inl hmem⟩
  | receive rxEnv txEnv mem len ctx => exact h.receive hrun
  | proxyReceive w bearer pdu => exact h.proxyReceive hrun
  | elsewhere seqArray iv =>
    cases hrun
    have hsched : schedStep conf n.tx (.elsewhere seqArray iv) =
        .ok { n.tx with seqArray := seqArray, iv := iv } := rfl
    obtain ⟨hsound, hkeeps⟩ := h.tx.step hsched
    exact ⟨⟨hsound, h.pool, h.dated⟩, hkeeps, fun j hj _ => ⟨hj, rfl⟩, fun _ _ _ hlive => hlive,
      fun _ hmem => .inl hmem⟩
  | rplClear =>
    cases hrun
    exact ⟨⟨h.tx, ⟨h.pool.nodup, h.pool.src_inj⟩, h.dated⟩, fun j hj _ => ⟨hj, rfl⟩,
      fun j hj _ => ⟨hj, rfl⟩, fun _ _ _ hlive => hlive, fun _ hmem => .inl hmem⟩
  | txExpire id =>
    cases hrun
    exact h.txExpire id
  | rxExpire kind id =>
    cases hrun
    exact h.rxExpire kind id howned
  | orphanExpire o =>
    cases hrun
    exact h.orphanExpire o howned
  | sarExpire bearer =>
    cases hrun
    exact h.sarExpire bearer
  | otherExpire =>
    cases hrun
    exact Next.asyncMsgSend (h.same rfl) fun _ => trivial
  | process env => exact h.process hrun

end Steps

/-- The tasks are in order, and every timeout in the queue is one of a message that is in use. -/
structure Current (taskNum : ℕ) (n : Node β) : Prop extends Sound taskNum n where
  live : ∀ msg ∈ n.asyncActive, n.Live msg

theorem Current.step (h : Current taskNum n) (he : Undisturbed conf n e)
    (hrun : Async.step conf n e = .ok n') : Current taskNum n' := by
  have hnext := h.toSound.step he.1 hrun
  refine ⟨hnext.toSound, fun msg hmem => ?_⟩
  rcases hnext.queue msg hmem with hwaits | hlive
  · have hqueued : msg ∈ n.asyncActive := by
      cases e with
      | process env => exact List.mem_of_mem_tail hwaits
      | _ => exact hwaits
    exact hnext.live (h.live msg hqueued) (he.2 msg hwaits)
  · exact hlive

theorem Current.harmless (h : Current taskNum n) (e : Event β) : Harmless conf n e := by
  cases e with
  | process env => exact fun msg hmem => .inl (h.live msg (List.mem_of_mem_head? hmem))
  | _ => trivial

theorem init_current (elementNum txTaskNum rplSize rxTaskNum msgMaxNum : ℕ)
    (ivIndex : BitVec 32) :
    Current txTaskNum (Node.init elementNum txTaskNum rplSize rxTaskNum msgMaxNum ivIndex :
      Node β) where
  tx := ⟨LowerTransTx.init_tidy elementNum txTaskNum ivIndex, fun _ _ hgen => by cases hgen⟩
  pool := ⟨by simpa [Node.init, Receiver.init] using List.nodup_range, by
    simp [Node.init, Receiver.init]⟩
  dated _ hid := by cases hid
  live _ hmem := by cases hmem

/-- In every run in which no timer of a superseded message expires and no message ends while a
timeout of it waits in the queue, every timeout that is handled is one of a message that is in
use, and the one whose timer expired. -/
theorem timeouts_harmless {elementNum txTaskNum rplSize rxTaskNum msgMaxNum : ℕ}
    {ivIndex : BitVec 32} {es : List (Event β)}
    (hall : RunAll (step conf) (Undisturbed conf)
      (.init elementNum txTaskNum rplSize rxTaskNum msgMaxNum ivIndex) es) :
    RunAll (step conf) (Harmless conf)
      (.init elementNum txTaskNum rplSize rxTaskNum msgMaxNum ivIndex) es :=
  hall.imp_of_invariant (fun _ _ _ h he hrun => h.step he hrun) (fun _ e h _ => h.harmless e)
    (init_current elementNum txTaskNum rplSize rxTaskNum msgMaxNum ivIndex)

/-- A platform on which receiving finds timers and memory. -/
def plainRxEnv : RxEnv := ⟨true, true, true, fun _ => 0⟩

/-- A PDU in memory. -/
def memOf (pdu : List Byte) (i : ℕ) : Byte := pdu.getD i 0

/-- A PDU of node 2. -/
def plainRxCtx (ctl : Bool) : MsgCtx :=
  { MsgCtx.zero with src := 2, dst := 1, ctl := ctl, seq := 1, ivIndex := 5 }

/-- A message to node 2 whose retry timer expires, and the ack of all its segments before the
timeout is handled. -/
def ackedRun : List (Event ℕ) :=
  [.send LowerTransTx.plainEnv (List.replicate 20 7) LowerTransTx.plainMsg, .txExpire 0,
    .receive plainRxEnv LowerTransTx.plainEnv (memOf [0, 0, 0, 0, 0, 0, 3]) 7 (plainRxCtx true)]

/-- The timeout is handled for the task that was released, which has no PDU any more. -/
theorem timeouts_harmful : ¬ RunAll (step LowerTransTx.plainConf) (Harmless LowerTransTx.plainConf)
    (.init 1 1 1 1 1 5) (ackedRun ++ [.process LowerTransTx.plainEnv]) := by
  intro h
  obtain ⟨n, hn, hobs⟩ : ∃ n, run (step LowerTransTx.plainConf) (Node.init 1 1 1 1 1 5) ackedRun =
      .ok n ∧ (n.asyncActive, n.tx.active) = ([.lowerTransTx 0 1], []) :=
    observe (by decide +kernel)
  obtain ⟨hqueue, hactive⟩ := Prod.mk.inj hobs
  have hfault : run (step LowerTransTx.plainConf) (Node.init 1 1 1 1 1 5)
      (ackedRun ++ [.process LowerTransTx.plainEnv]) = .error .nullDeref :=
    eq_of_faultOf (by decide +kernel)
  rw [run_append, hn] at hfault
  rcases h.last hn (.lowerTransTx 0 1) (by rw [hqueue]; rfl) with hlive | hsame
  · have hmem := hlive.1
    rw [hactive] at hmem
    cases hmem
  · simp [run, step, hsame, Except.bind] at hfault

/-- Timeouts of a message that is sent, of one that is received and of a context of the proxy
protocol. -/
def timelyRun : List (Event ℕ) :=
  [.send LowerTransTx.plainEnv (List.replicate 20 7) LowerTransTx.plainMsg, .txExpire 0,
    .receive plainRxEnv LowerTransTx.plainEnv
      (memOf (0x80 :: 0 :: 0 :: 1 :: List.replicate 12 9)) 16 (plainRxCtx false),
    .rxExpire .ack 0, .process LowerTransTx.plainEnv, .process LowerTransTx.plainEnv,
    .rxExpire .incomplete 0, .proxyReceive Proxy.plainMemory 7 (Proxy.plainPdu .firstSeg 2),
    .sarExpire 7, .process LowerTransTx.plainEnv, .process LowerTransTx.plainEnv]

theorem timeouts_harmless_example : ∃ n,
    run (step LowerTransTx.plainConf) (.init 1 1 1 1 2 5) timelyRun = .ok n ∧
      n.asyncActive = [] ∧ RunAll (step LowerTransTx.plainConf) (Harmless LowerTransTx.plainConf)
        (.init 1 1 1 1 2 5) timelyRun := by
  obtain ⟨n, hn, hqueue⟩ : ∃ n, run (step LowerTransTx.plainConf) (.init 1 1 1 1 2 5) timelyRun =
      .ok n ∧ n.asyncActive = [] := observe (by decide +kernel)
  exact ⟨n, hn, hqueue, timeouts_harmless (by decide +kernel)⟩

end Meshx.Async
