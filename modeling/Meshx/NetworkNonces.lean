import Meshx.Keystream

/-! Nodes that share network keys. As long as each sends from addresses of its own, no two of
them mask anything with the same block. -/
namespace Meshx.LowerTransTx

open Lib AesCcm Security Sequence Segment UpperTrans

namespace Sender

variable {c : Crypto} {conf : TxConf} {env : TxEnv} {own : BitVec 16 → Prop} {s s' t : Sender}
  {id : ℕ} {ctx : MsgCtx} {ret : Errno} {pdu : List Byte}

/-- All that has been sent and all that may still be sent in segments comes from own addresses. -/
structure From (own : BitVec 16 → Prop) (s : Sender) : Prop where
  sent : ∀ n ∈ s.sent, own n.ctx.src
  tasks : ∀ id, (s.task id).ppdu.isSome → own (s.task id).ctx.src

theorem From.congr (h : s.From own) (hsent : s'.sent = s.sent) (htask : s'.task = s.task) :
    s'.From own :=
  ⟨hsent ▸ h.sent, htask ▸ h.tasks⟩

theorem From.setTask (h : s.From own) {t : TxTask}
    (ht : t.ppdu.isSome → own t.ctx.src) : (s.setTask id t).From own where
  sent := h.sent
  tasks j := by
    by_cases hj : j = id
    · rw [hj, Sender.setTask]
      simpa using ht
    · rw [Sender.setTask]
      simpa [hj] using h.tasks j

theorem From.draw (h : s.From own) (src : BitVec 16) : (s.draw conf src).2.From own :=
  h.congr rfl rfl

theorem From.netSend (h : s.From own) (hctx : own ctx.src) (pdu : List Byte) :
    (s.netSend ctx pdu).From own where
  sent n hn := by
    rcases List.mem_cons.mp hn with rfl | hn
    · exact hctx
    · exact h.sent n hn
  tasks := h.tasks

theorem From.sendSegs {ppdu : Option (List Byte)} {pduLen num rounds i offset : ℕ}
    {blockAck : BitVec 32} {misc : BitVec 24} {ctx' : MsgCtx} (h : s.From own)
    (hctx : ppdu.isSome → own ctx.src)
    (hrun : sendSegs conf ppdu pduLen num blockAck rounds i offset misc ctx s =
      .ok (ret, ctx', s')) : s'.From own ∧ ctx'.src = ctx.src := by
  induction rounds generalizing i offset misc ctx s with
  | zero =>
    cases hrun
    exact ⟨h, rfl⟩
  | succ rounds ih =>
    rcases sendSegs_cases hrun with ⟨-, hrest⟩ | ⟨-, -, hout⟩ | ⟨data, -, hdata, -, hrest⟩
    · exact ih h hctx hrest
    · cases hout
      exact ⟨h.draw _, rfl⟩
    · have hsome : ppdu.isSome := by simp [hdata]
      have hdraw : (s.draw conf ctx.src).2.From own := h.draw ctx.src
      let next : MsgCtx := { ctx with seq := (s.draw conf ctx.src).1 }
      have hnext : own next.src := hctx hsome
      obtain ⟨hend, hsrc⟩ := ih (hdraw.netSend hnext _) (fun _ => hnext) hrest
      exact ⟨hend, hsrc⟩

theorem From.sendTask (h : s.From own) (hrun : s.sendTask conf env id = .ok (ret, s')) :
    s'.From own := by
  obtain ⟨⟨ret', ctx', t⟩, hseg, hrest⟩ := bind_ok hrun
  cases hrest
  obtain ⟨ht, hsrc⟩ := From.sendSegs h (h.tasks id) hseg
  apply ht.setTask
  intro hsome
  rw [hsrc]
  exact h.tasks id hsome

theorem From.release (h : s.From own) (hrun : s.release id = .ok s') : s'.From own := by
  unfold Sender.release at hrun
  split_ifs at hrun
  cases hrun
  have htask : (s.setTask id
      { s.task id with retryTimer := none, ppdu := none }).From own := by
    apply h.setTask
    exact nofun
  exact htask.congr rfl rfl

theorem From.timerStart (h : s.From own) : (s.timerStart id).From own :=
  h.setTask (h.tasks id)

theorem From.taskRun {finish : Sender → ℕ → Except Fault Sender}
    (hfinish : ∀ s s' id, s.From own → finish s id = .ok s' → s'.From own) (h : s.From own)
    (hrun : s.taskRun conf env finish id = .ok (ret, s')) : s'.From own := by
  unfold Sender.taskRun at hrun
  split_ifs at hrun with hok
  · obtain ⟨t, ht, hret⟩ := bind_ok hrun
    cases hret
    exact hfinish _ _ _ h ht
  · obtain ⟨⟨ret', t⟩, ht, hrest⟩ := bind_ok hrun
    have hstart : (s.setTask id
        { s.task id with retryTimer := some ⟨false, (s.task id).gen⟩ }).From own :=
      h.setTask (h.tasks id)
    have hsent : t.From own := by
      apply From.sendTask _ ht
      exact hstart.congr rfl rfl
    dsimp only at hrest
    split_ifs at hrest with hret
    · obtain ⟨u, hu, hout⟩ := bind_ok hrest
      cases hout
      exact hfinish _ _ _ hsent hu
    · cases hrest
      exact hsent.timerStart

theorem From.taskFinishIn {depth : ℕ} (h : s.From own)
    (hrun : s.taskFinishIn conf env depth id = .ok s') : s'.From own := by
  induction depth generalizing s s' id with
  | zero =>
    obtain ⟨t, ht, hret⟩ := bind_ok hrun
    cases hret
    exact (h.release ht).congr rfl rfl
  | succ depth ih =>
    obtain ⟨t, ht, hrest⟩ := bind_ok hrun
    have hsent : t.From own := h.release ht
    dsimp only at hrest
    split at hrest
    · cases hrest
      exact hsent.congr rfl rfl
    · obtain ⟨⟨ret, u⟩, hu, hout⟩ := bind_ok hrest
      cases hout
      apply From.taskRun (fun _ _ _ hs hf => ih hs hf) _ hu
      exact hsent.congr rfl rfl

theorem From.afterRetry (h : s.From own) (hrun : s.afterRetry conf env id = .ok s') :
    s'.From own := by
  unfold Sender.afterRetry at hrun
  split_ifs at hrun
  · exact From.taskFinishIn h hrun
  · cases hrun
    exact h.timerStart

theorem From.handleTxTimeout (h : s.From own)
    (hrun : s.handleTxTimeout conf env id = .ok s') : s'.From own := by
  have hbump : (s.bumpRetry id).From own := h.setTask (h.tasks id)
  unfold Sender.handleTxTimeout at hrun
  dsimp only at hrun
  split_ifs at hrun
  · exact From.taskFinishIn hbump hrun
  · obtain ⟨⟨ret, t⟩, ht, hrest⟩ := bind_ok hrun
    exact (hbump.sendTask ht).afterRetry hrest

theorem From.recvBlockAck {zero : BitVec 13} {blockAck : BitVec 32} (h : s.From own)
    (hrun : s.recvBlockAck conf env zero blockAck = .ok s') : s'.From own := by
  unfold Sender.recvBlockAck at hrun
  split at hrun
  · cases hrun
    exact h
  next id _ =>
    have hbump : (s.bumpRetry id).From own := h.setTask (h.tasks id)
    have hset : ((s.bumpRetry id).setBlockAck id blockAck).From own :=
      hbump.setTask (hbump.tasks id)
    dsimp only at hrun
    split_ifs at hrun
    · exact From.taskFinishIn h hrun
    · exact From.taskFinishIn h hrun
    · exact From.taskFinishIn hbump hrun
    · obtain ⟨⟨ret, t⟩, ht, hrest⟩ := bind_ok hrun
      exact (hset.sendTask ht).afterRetry hrest

theorem From.taskTry (h : s.From own) (hrun : s.taskTry conf env id = .ok (ret, s')) :
    s'.From own := by
  unfold Sender.taskTry at hrun
  split_ifs at hrun
  · cases hrun
    exact h.congr rfl rfl
  · exact From.taskRun (fun _ _ _ hs hf => From.taskFinishIn hs hf) h hrun

theorem From.processSegMsg (h : s.From own) (hctx : own ctx.src)
    (hrun : s.processSegMsg conf env pdu ctx = .ok (ret, s')) : s'.From own := by
  unfold Sender.processSegMsg at hrun
  dsimp only at hrun
  by_cases hnum : maxSegSize < segNum ctx.ctl pdu.length
  · rw [if_pos hnum] at hrun
    cases hrun
    exact h
  rw [if_neg hnum] at hrun
  split at hrun
  · cases hrun
    exact h
  cases hidle : s.idle with
  | nil =>
    rw [hidle] at hrun
    cases hrun
    exact h
  | cons id idle =>
    rw [hidle] at hrun
    dsimp only at hrun
    split_ifs at hrun
    · cases hrun
      exact h.congr rfl rfl
    · have htake : ({ s with idle := idle } : Sender).From own := h.congr rfl rfl
      apply From.taskTry _ hrun
      apply htake.setTask
      exact fun _ => hctx

theorem From.lowerTransSend (h : s.From own) (hctx : own ctx.src)
    (hrun : s.lowerTransSend conf env pdu ctx = .ok (ret, s')) : s'.From own := by
  unfold Sender.lowerTransSend at hrun
  split_ifs at hrun
  · cases hrun
    exact h
  · cases hrun
    exact h
  · have hseg : own ({ ctx with seg := true } : MsgCtx).src := hctx
    exact h.processSegMsg hseg hrun
  · cases hrun
    exact h.netSend hctx _

theorem From.upperSend {data : List Byte} (h : s.From own) (hctx : own ctx.src)
    (hrun : s.upperSend c conf env data ctx = .ok (ret, s')) : s'.From own := by
  obtain ⟨⟨arr, out⟩, hupper, hrest⟩ := bind_ok hrun
  have hstart : ∀ exhausted,
      ({ s with seqArray := arr, exhausted := exhausted } : Sender).From own :=
    fun _ => h.congr rfl rfl
  rcases upperTransSend_draws hupper with ⟨err, rfl, -⟩ | ⟨-, -, rfl⟩ | ⟨p, call, -, -, rfl⟩
  · cases hrest
    exact hstart _
  · dsimp only at hrest
    apply (hstart _).lowerTransSend _ hrest
    exact hctx
  · dsimp only at hrest
    apply (hstart _).lowerTransSend _ hrest
    exact hctx

end Sender

/-- The event makes the node send from own addresses only. -/
def SendsFrom (own : BitVec 16 → Prop) : TxEvent → Prop
  | .send _ _ ctx => own ctx.src
  | .segAck _ _ rx => own rx.dst
  | _ => True

section Step

variable {c : Crypto} {conf : TxConf} {own : BitVec 16 → Prop} {s s' : Sender} {e : TxEvent}

theorem txStep_from (h : s.From own) (he : SendsFrom own e)
    (hrun : txStep c conf s e = .ok s') : s'.From own := by
  cases e with
  | send env data ctx =>
    obtain ⟨⟨ret, t⟩, ht, rfl⟩ := map_ok hrun
    exact h.upperSend he ht
  | timeout env id => exact h.handleTxTimeout hrun
  | recvBlockAck env zero blockAck => exact h.recvBlockAck hrun
  | segAck env blockAck rx =>
    obtain ⟨⟨ret, t⟩, ht, rfl⟩ := map_ok hrun
    have hdraw : (s.draw conf rx.dst).2.From own := h.draw rx.dst
    apply hdraw.lowerTransSend _ ht
    exact he
  | ivUpdate ivIndex state | ivTick | ivTestMode flag | ivOperateTime time =>
    cases hrun
    exact h.congr rfl rfl

theorem init_from (elementNum taskNum : ℕ) (ivIndex : BitVec 32) :
    (Sender.init elementNum taskNum ivIndex).From own where
  sent := nofun
  tasks := nofun

end Step

/-- The addresses of the elements of a node. -/
def TxConf.Owns (conf : TxConf) (elementNum : ℕ) (src : BitVec 16) : Prop :=
  conf.nodeAddr.toNat ≤ src.toNat ∧ src.toNat < conf.nodeAddr.toNat + elementNum

/-- A node of a network with all that has happened to it. -/
structure Member (c : Crypto) where
  conf : TxConf
  elementNum : ℕ
  taskNum : ℕ
  ivIndex : BitVec 32
  events : List TxEvent
  sender : Sender
  ran : run (txStep c conf) (.init elementNum taskNum ivIndex) events = .ok sender
  keeps : RunAll (txStep c conf) (fun s e => Ordinary s e ∧ SendsFrom (conf.Owns elementNum) e)
    (.init elementNum taskNum ivIndex) events
  exhausted : sender.exhausted = false

namespace Member

variable {c : Crypto} {m m' : Member c}

/-- The calls of the cipher behind what the node has sent. -/
def inputs (m : Member c) : List CcmInput := m.sender.sent.filterMap NetCall.ccmInput

/-- The elements of the nodes have different addresses. -/
def Apart (m m' : Member c) : Prop :=
  m.conf.nodeAddr.toNat + m.elementNum ≤ m'.conf.nodeAddr.toNat ∨
    m'.conf.nodeAddr.toNat + m'.elementNum ≤ m.conf.nodeAddr.toNat

theorem valid (m : Member c) : m.sender.Valid m.conf := by
  have hstep : ∀ (s : Sender) (e : TxEvent) (s' : Sender), s.Valid m.conf →
      Ordinary s e ∧ SendsFrom (m.conf.Owns m.elementNum) e →
      txStep c m.conf s e = .ok s' → s'.Valid m.conf :=
    fun _ _ _ hv he hs => txStep_valid hv he.1 hs
  exact m.keeps.invariant hstep (init_valid _ _ _) m.ran

theorem sent_own (m : Member c) (n : NetCall) (hn : n ∈ m.sender.sent) :
    m.conf.Owns m.elementNum n.ctx.src := by
  have hstep : ∀ (s : Sender) (e : TxEvent) (s' : Sender),
      s.From (m.conf.Owns m.elementNum) →
      Ordinary s e ∧ SendsFrom (m.conf.Owns m.elementNum) e →
      txStep c m.conf s e = .ok s' → s'.From (m.conf.Owns m.elementNum) :=
    fun _ _ _ hf he hs => txStep_from hf he.2 hs
  exact (m.keeps.invariant hstep (init_from _ _ _) m.ran).sent n hn

/-- Nodes with different addresses use different nonces. -/
theorem Apart.keys (h : m.Apart m') (n : NetCall) (hn : n ∈ m.sender.sent) (n' : NetCall)
    (hn' : n' ∈ m'.sender.sent) : n.key ≠ n'.key := by
  intro hkey
  have hsrc : n.ctx.src = n'.ctx.src := (Prod.mk.inj hkey).1
  obtain ⟨hlow, hhigh⟩ := m.sent_own n hn
  obtain ⟨hlow', hhigh'⟩ := m'.sent_own n' hn'
  rw [← hsrc] at hlow' hhigh'
  rcases h with h | h
  · omega
  · omega

theorem Apart.disjoint (h : m.Apart m') :
    (m.inputs.flatMap CcmInput.counters).Disjoint (m'.inputs.flatMap CcmInput.counters) := by
  intro block hm hm'
  obtain ⟨a, ha, hblock⟩ := List.mem_flatMap.mp hm
  obtain ⟨a', ha', hblock'⟩ := List.mem_flatMap.mp hm'
  obtain ⟨n, hn, hna⟩ := List.mem_filterMap.mp ha
  obtain ⟨n', hn', hna'⟩ := List.mem_filterMap.mp ha'
  exact ccmInput_disjoint (h.keys n hn n' hn') a hna a' hna' hblock hblock'

end Member

/-- The nodes of a network may share their keys and send at the same time: as long as each
sends from addresses of its own, the counter blocks of all that they have encrypted differ. -/
theorem network_counters (c : Crypto) (nodes : List (Member c))
    (hapart : nodes.Pairwise Member.Apart) :
    (nodes.flatMap fun m => m.inputs.flatMap CcmInput.counters).Nodup := by
  apply List.nodup_flatMap.mpr
  constructor
  · intro m _
    exact m.valid.counters_nodup m.exhausted
  · exact hapart.imp fun h => h.disjoint

/-- Twenty bytes that a node of one element sends in two segments, and sends once more. -/
def repeatedFrom (addr dst : BitVec 16) : List TxEvent :=
  [.send plainEnv (List.replicate 20 7) { keyedMsg with src := addr, dst := dst },
    .timeout plainEnv 0]

theorem repeated_member (addr dst : BitVec 16)
    (hobs : (fun s : Sender => (s.exhausted, (s.sent.filterMap NetCall.ccmInput).length)) <$>
      run (txStep maskCrypto ⟨addr, 5, 3⟩) (.init 1 1 5) (repeatedFrom addr dst) =
        .ok (false, 4)) :
    ∃ m : Member maskCrypto, m.conf = ⟨addr, 5, 3⟩ ∧ m.elementNum = 1 ∧ m.inputs.length = 4 := by
  obtain ⟨s, hs, hobs⟩ := map_ok hobs
  obtain ⟨hexhausted, hlen⟩ := Prod.mk.inj hobs
  have hctl : keyedMsg.ctl = true → False := by decide
  have hown : TxConf.Owns ⟨addr, 5, 3⟩ 1 addr := ⟨le_rfl, Nat.lt_succ_self _⟩
  have hkeeps : RunAll (txStep maskCrypto ⟨addr, 5, 3⟩)
      (fun s e => Ordinary s e ∧ SendsFrom (TxConf.Owns ⟨addr, 5, 3⟩ 1) e) (.init 1 1 5)
      (repeatedFrom addr dst) :=
    ⟨⟨fun h => (hctl h).elim, hown⟩, fun _ _ => ⟨⟨trivial, trivial⟩, fun _ _ => trivial⟩⟩
  exact ⟨⟨_, 1, 1, 5, _, s, hs, hkeeps, hexhausted⟩, rfl, rfl, hlen⟩

theorem network_counters_pair : ∃ m m' : Member maskCrypto,
    m.inputs.length = 4 ∧ m'.inputs.length = 4 ∧
      ([m, m'].flatMap fun m => m.inputs.flatMap CcmInput.counters).Nodup := by
  obtain ⟨m, hconf, hnum, hlen⟩ := repeated_member 1 2 (by decide +kernel)
  obtain ⟨m', hconf', -, hlen'⟩ := repeated_member 2 1 (by decide +kernel)
  have hapart : m.Apart m' := by
    left
    rw [hconf, hconf', hnum]
    decide
  exact ⟨m, m', hlen, hlen', network_counters maskCrypto [m, m'] (List.pairwise_pair.mpr hapart)⟩

end Meshx.LowerTransTx
