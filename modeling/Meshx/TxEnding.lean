import Meshx.StaleTimeouts
import Meshx.TxTries

/-! The end of segmented transmissions: how many partial acks and timeouts a message lives
through, and the retry timer that keeps it going. -/
namespace Meshx.Async

open Lib Segment Replay Sequence IvIndex
open LowerTransTx (Sender TxConf TxEnv Tidy SchedEvent schedStep)
open LowerTransTx.Sender (Ticks counted)
open LowerTransRx (Receiver RxEnv RxCall)

section Tx

variable {conf : TxConf} {env : TxEnv} {s s' : Sender} {taskNum limit : ℕ} {tries : ℕ → ℕ → ℕ}
  {queued : ℕ → ℕ → Prop}

theorem ticks_of_sameTasks (h : Ticks tries limit queued none s)
    (hs : LowerTransTx.Sender.SameTasks s s') : Ticks tries limit queued none s' := by
  refine ⟨?_, ?_, ?_⟩
  · rw [hs.active, hs.pending, hs.task]
    exact h.tried
  · rw [hs.active, hs.task]
    exact h.beats
  · rw [hs.task]
    exact h.fresh

theorem ticks_segAck {blockAck : BitVec 32} {ctx : MsgCtx} (hlimit : conf.retryTimes.toNat < 255)
    (h : Ticks tries conf.retryTimes.toNat queued none s) (hs : TxSound taskNum s)
    (hrun : txCall conf env s (.segAck blockAck ctx) = .ok s') :
    Ticks tries conf.retryTimes.toNat queued none s' := by
  have hdraw := @LowerTransTx.Sender.sameTasks_draw conf s
    (LowerTransTx.Sender.segAckCtx conf s ctx).src
  have hsent : Ticks (counted tries _ none) conf.retryTimes.toNat queued none s' :=
    (ticks_of_sameTasks h hdraw).schedStep
      (e := .send env _ { LowerTransTx.Sender.segAckCtx conf s ctx with seq := _ })
      (hs.of_sameTasks hdraw).tidy hlimit (fun _ _ _ hq => hq) hrun
  rwa [LowerTransTx.Sender.counted_none] at hsent

theorem ticks_txCalls {calls : List RxCall} (hlimit : conf.retryTimes.toNat < 255)
    (h : Ticks tries conf.retryTimes.toNat queued none s) (hs : TxSound taskNum s)
    (hcalls : ∀ zero blockAck, .recvBlockAck zero blockAck ∉ calls)
    (hrun : txCalls conf env calls s = .ok s') :
    Ticks tries conf.retryTimes.toNat queued none s' := by
  induction calls generalizing s with
  | nil =>
    cases hrun
    exact h
  | cons call calls ih =>
    obtain ⟨t, ht, hrest⟩ := bind_ok hrun
    have hcalls' : ∀ zero blockAck, .recvBlockAck zero blockAck ∉ calls :=
      fun zero blockAck hmem => hcalls zero blockAck (List.mem_cons_of_mem _ hmem)
    cases call with
    | segAck blockAck ctx =>
      exact ih (ticks_segAck hlimit h hs ht) (hs.segAck ht).1 hcalls' hrest
    | recvBlockAck zero blockAck => exact absurd List.mem_cons_self (hcalls zero blockAck)
    | upperReceive ctx data len =>
      cases ht
      exact ih h hs hcalls' hrest

end Tx

variable {β : Type}

/-- The sending task whose message an event tries once more. -/
def Node.triedTask (n : Node β) : Event β → Option ℕ
  | .receive _ env mem _ ctx =>
    if ctx.ctl && (mem 0).extractLsb' 0 7 == 0 && n.rx.rplChecked ctx == some true then
      (SchedEvent.ack env 0 ((mem 1 ++ mem 2).extractLsb' 2 13)
        (mem 3 ++ mem 4 ++ mem 5 ++ mem 6)).tries n.tx
    else none
  | .process env =>
    match n.asyncActive with
    | .lowerTransTx id _ :: _ => (SchedEvent.timeout env id).tries n.tx
    | _ => none
  | _ => none

/-- A step together with the tries of every message, by its task and number. -/
def countStep [DecidableEq β] (conf : TxConf) (c : Node β × (ℕ → ℕ → ℕ)) (e : Event β) :
    Except Fault (Node β × (ℕ → ℕ → ℕ)) := do
  let n ← step conf c.1 e
  return (n, counted c.2 c.1.tx (c.1.triedTask e))

namespace Node

/-- A retry timer that expires finds room for its timeout in the queue. -/
def HasRoom (n : Node β) : Event β → Prop
  | .txExpire id =>
    (n.tx.task id).retryTimer.any LowerTransTx.Timer.active = true → n.asyncIdle ≠ 0
  | _ => True

instance (n : Node β) (e : Event β) : Decidable (n.HasRoom e) :=
  match e with
  | .txExpire _ => inferInstanceAs (Decidable (_ → _))
  | .send _ _ _ | .receive _ _ _ _ _ | .proxyReceive _ _ _ | .elsewhere _ _ | .rplClear
  | .rxExpire _ _ | .orphanExpire _ | .sarExpire _ | .otherExpire | .process _ => isTrue trivial

/-- A timeout of the task waits for its handling. -/
def queued (n : Node β) (id gen : ℕ) : Prop := .lowerTransTx id gen ∈ n.asyncActive

/-- A message that is being sent has been tried no more often than it may be, and its retry timer
is running or a timeout of it waits for its handling. -/
structure KeepsGoing (conf : TxConf) (c : Node β × (ℕ → ℕ → ℕ)) (id : ℕ) : Prop where
  tries : c.2 id (c.1.tx.task id).gen ≤ conf.retryTimes.toNat
  timer : (∃ gen, (c.1.tx.task id).retryTimer = some ⟨true, gen⟩) ∨
    c.1.queued id (c.1.tx.task id).gen

end Node

/-- The sending tasks are in order, and so are their tries and timers. -/
structure Ticking (taskNum : ℕ) (conf : TxConf) (c : Node β × (ℕ → ℕ → ℕ)) : Prop where
  sound : TxSound taskNum c.1.tx
  ticks : Ticks c.2 conf.retryTimes.toNat c.1.queued none c.1.tx

variable {conf : TxConf} {env : TxEnv} {n n' m : Node β} {e : Event β} {x : AsyncMsg β}
  {taskNum : ℕ} {tries : ℕ → ℕ → ℕ} {c c' : Node β × (ℕ → ℕ → ℕ)}

section Queue

theorem asyncMsgSend_tx : (m.asyncMsgSend x).tx = m.tx := by
  unfold Node.asyncMsgSend
  split_ifs <;> rfl

theorem queued_asyncMsgSend {id gen : ℕ} (h : m.queued id gen) :
    (m.asyncMsgSend x).queued id gen := by
  unfold Node.asyncMsgSend
  split_ifs
  · exact h
  · exact List.mem_append_left _ h

theorem Ticking.same (h : Ticking taskNum conf (n, tries)) (htx : m.tx = n.tx)
    (hqueue : m.asyncActive = n.asyncActive) : Ticking taskNum conf (m, tries) := by
  refine ⟨?_, ?_⟩
  · dsimp only
    rw [htx]
    exact h.sound
  · dsimp only
    rw [htx]
    exact h.ticks.mono fun id gen hq => by
      rw [Node.queued, hqueue]
      exact hq

/-- What waits stays in the queue until it is handled. -/
theorem Ticking.asyncMsgSend (h : Ticking taskNum conf (m, tries)) (x : AsyncMsg β) :
    Ticking taskNum conf (m.asyncMsgSend x, tries) := by
  refine ⟨?_, ?_⟩
  · dsimp only
    rw [asyncMsgSend_tx]
    exact h.sound
  · dsimp only
    rw [asyncMsgSend_tx]
    exact h.ticks.mono fun _ _ hq => queued_asyncMsgSend hq

end Queue

section Steps

variable (h : Ticking taskNum conf (n, tries))
include h

/-- A timer that expires leaves a timeout in the queue. -/
theorem Ticking.txExpire {id : ℕ} (hroom : n.HasRoom (.txExpire id)) :
    Ticking taskNum conf (n.txExpire id, tries) := by
  unfold Node.txExpire
  split
  · next gen htimer =>
    have hidle : n.asyncIdle ≠ 0 := hroom (by rw [htimer]; rfl)
    have htouches := @LowerTransTx.Sender.touches_setTask n.tx id
      { n.tx.task id with retryTimer := some ⟨false, gen⟩ } rfl
    have hself : (n.tx.setTask id { n.tx.task id with
        retryTimer := some ⟨false, gen⟩ }).task id =
          { n.tx.task id with retryTimer := some ⟨false, gen⟩ } := Function.update_self _ _ _
    rw [Node.asyncMsgSend, if_neg hidle]
    refine ⟨h.sound.expired htimer, ?_⟩
    refine h.ticks.touched htouches (.refl n.tx id tries)
      (fun j g _ hq => List.mem_append_left _ hq) (.inr ⟨fun hj => ?_, fun _ => ?_⟩)
    · rw [hself]
      exact ⟨(h.ticks.tried id hj (by simp)).counted, (h.ticks.tried id hj (by simp)).le⟩
    · rw [hself]
      exact ⟨_, rfl, .inr (List.mem_append_right _ (List.mem_singleton_self _))⟩
  · exact h
  · exact h

variable (hlimit : conf.retryTimes.toNat < 255)
include hlimit

theorem Ticking.receive {rxEnv : RxEnv} {mem : ℕ → Byte} {len : ℕ} {ctx : MsgCtx}
    (hrun : n.receive conf rxEnv env mem len ctx = .ok n') :
    Ticking taskNum conf
      (n', counted tries n.tx (n.triedTask (.receive rxEnv env mem len ctx))) := by
  obtain ⟨⟨ret, rx, calls⟩, hrx, hrest⟩ := bind_ok hrun
  obtain ⟨tx, htx, hret⟩ := bind_ok hrest
  cases hret
  unfold Node.triedTask
  dsimp only
  rcases receive_calls hrx with ⟨hack, rfl⟩ | ⟨hack, hcalls⟩
  · rw [if_pos hack]
    obtain ⟨t, ht, hlast⟩ := bind_ok htx
    cases hlast
    exact ⟨(h.sound.step (e := .ack env 0 _ _) ht).1,
      h.ticks.schedStep (e := .ack env 0 _ _) h.sound.tidy hlimit (fun _ _ _ hq => hq) ht⟩
  · rw [if_neg (by rw [hack]; exact Bool.false_ne_true), LowerTransTx.Sender.counted_none]
    exact ⟨(h.sound.txCalls hcalls htx).1, ticks_txCalls hlimit h.ticks h.sound hcalls htx⟩

variable [DecidableEq β]

theorem Ticking.process (hrun : n.asyncMsgProcess conf env = .ok n') :
    Ticking taskNum conf (n', counted tries n.tx (n.triedTask (.process env))) := by
  unfold Node.asyncMsgProcess at hrun
  cases hq : n.asyncActive with
  | nil =>
    rw [hq] at hrun
    cases hrun
    rw [Node.triedTask, hq, LowerTransTx.Sender.counted_none]
    exact h
  | cons msg rest =>
    rw [hq] at hrun
    have hrest (j gen : ℕ) (hne : .lowerTransTx j gen ≠ msg) (hj : n.queued j gen) :
        n.popped.queued j gen := by
      rw [Node.queued, hq] at hj
      rw [Node.queued, Node.popped, hq]
      exact (List.mem_cons.mp hj).resolve_left hne
    rw [Node.triedTask, hq]
    cases msg with
    | lowerTransTx id gen =>
      obtain ⟨tx, htx, hret⟩ := bind_ok hrun
      cases hret
      refine ⟨(h.sound.step (e := .timeout env id) htx).1,
        h.ticks.schedStep (e := .timeout env id) h.sound.tidy hlimit (fun j g hne hj => ?_) htx⟩
      exact hrest j g (fun heq => hne env (by cases heq; rfl)) hj
    | lowerTransRxAck id gen =>
      obtain ⟨tx, htx, hret⟩ := bind_ok hrun
      cases hret
      rw [LowerTransTx.Sender.counted_none]
      exact ⟨(h.sound.segAck htx).1, (ticks_segAck hlimit h.ticks h.sound htx).mono
        fun j g hj => hrest j g (by simp) hj⟩
    | lowerTransRxIncomplete id gen =>
      obtain ⟨rx, hrx, hret⟩ := bind_ok hrun
      cases hret
      rw [LowerTransTx.Sender.counted_none]
      exact ⟨h.sound, h.ticks.mono fun j g hj => hrest j g (by simp) hj⟩
    | proxySar bearer gen =>
      have hsar : n.popped.handleSarTimeout bearer gen = .ok n' := hrun
      unfold Node.handleSarTimeout at hsar
      split_ifs at hsar
      cases hsar
      rw [LowerTransTx.Sender.counted_none]
      exact ⟨h.sound, h.ticks.mono fun j g hj => hrest j g (by simp) hj⟩
    | other =>
      obtain rfl := Except.ok.inj hrun
      rw [LowerTransTx.Sender.counted_none]
      exact ⟨h.sound, h.ticks.mono fun j g hj => hrest j g (by simp) hj⟩

/-- A step in which no timeout is lost keeps the tries and the timers in order. -/
theorem Ticking.step (hroom : n.HasRoom e) (hrun : step conf n e = .ok n') :
    Ticking taskNum conf (n', counted tries n.tx (n.triedTask e)) := by
  have hsched {v : SchedEvent} {tx : Sender} (htries : v.tries n.tx = none)
      (htx : schedStep conf n.tx v = .ok tx) :
      TxSound taskNum tx ∧ Ticks tries conf.retryTimes.toNat n.queued none tx := by
    refine ⟨(h.sound.step htx).1, ?_⟩
    have hticks : Ticks (counted tries n.tx (v.tries n.tx)) conf.retryTimes.toNat n.queued none
        tx :=
      h.ticks.schedStep h.sound.tidy hlimit (fun _ _ _ hq => hq) htx
    rwa [htries, LowerTransTx.Sender.counted_none] at hticks
  have hnone : ∀ e' : Event β, n.triedTask e' = none →
      counted tries n.tx (n.triedTask e') = tries := by
    intro e' he'
    rw [he', LowerTransTx.Sender.counted_none]
  cases e with
  | send env pdu ctx =>
    obtain ⟨⟨ret, tx⟩, htx, hret⟩ := bind_ok hrun
    cases hret
    have hstep : schedStep conf n.tx (.send env pdu ctx) = .ok tx := by
      rw [schedStep, htx]
      rfl
    obtain ⟨hsound, hticks⟩ := hsched rfl hstep
    rw [hnone _ rfl]
    exact ⟨hsound, hticks⟩
  | receive rxEnv txEnv mem len ctx => exact h.receive hlimit hrun
  | proxyReceive w bearer pdu =>
    obtain ⟨out, -, hret⟩ := bind_ok hrun
    cases hret
    rw [hnone _ rfl]
    exact ⟨h.sound, h.ticks⟩
  | elsewhere seqArray iv =>
    cases hrun
    obtain ⟨hsound, hticks⟩ := hsched (v := .elsewhere seqArray iv) rfl rfl
    rw [hnone _ rfl]
    exact ⟨hsound, hticks⟩
  | rplClear =>
    cases hrun
    rw [hnone _ rfl]
    exact ⟨h.sound, h.ticks⟩
  | txExpire id =>
    cases hrun
    rw [hnone _ rfl]
    exact h.txExpire hroom
  | rxExpire kind id =>
    cases hrun
    rw [hnone _ rfl]
    unfold Node.rxExpire
    split
    · refine Ticking.asyncMsgSend ?_ _
      exact h.same rfl rfl
    all_goals exact h
  | orphanExpire o =>
    cases hrun
    rw [hnone _ rfl]
    unfold Node.orphanExpire
    split_ifs
    · refine Ticking.asyncMsgSend ?_ _
      exact h.same rfl rfl
    · exact h
  | sarExpire bearer =>
    cases hrun
    rw [hnone _ rfl]
    unfold Node.sarExpire
    split_ifs
    · refine Ticking.asyncMsgSend ?_ _
      exact h.same rfl rfl
    · exact h
  | otherExpire =>
    cases hrun
    rw [hnone _ rfl]
    exact h.asyncMsgSend _
  | process env => exact h.process hlimit hrun

end Steps

theorem init_ticking (conf : TxConf) (elementNum txTaskNum rplSize rxTaskNum msgMaxNum : ℕ)
    (ivIndex : BitVec 32) : Ticking txTaskNum conf
      ((.init elementNum txTaskNum rplSize rxTaskNum msgMaxNum ivIndex : Node β),
        fun _ _ => 0) where
  sound := ⟨LowerTransTx.init_tidy elementNum txTaskNum ivIndex, fun _ _ hgen => by cases hgen⟩
  ticks := {
    tried := fun j hj _ => by rcases hj with hj | hj <;> cases hj
    beats := fun j hj _ => by cases hj
    fresh := fun _ _ _ => rfl }

theorem Ticking.keepsGoing (h : Ticking taskNum conf c) {id : ℕ} (hid : id ∈ c.1.tx.active) :
    Node.KeepsGoing conf c id := by
  have htried := h.ticks.tried id (.inl hid) (by simp)
  obtain ⟨timer, htimer, hrun⟩ := h.ticks.beats id hid (by simp)
  have hgen : timer.gen = (c.1.tx.task id).gen :=
    (h.sound.timed id timer.gen (by rw [LowerTransTx.Sender.timerGen, htimer]; rfl)).2
  refine ⟨htried.counted.trans htried.le, ?_⟩
  rcases hrun with hactive | hqueued
  · refine .inl ⟨timer.gen, ?_⟩
    rw [htimer, ← hactive]
  · rw [hgen] at hqueued
    exact .inr hqueued

variable [DecidableEq β]

/-- Where the limit is below 255 and no timeout is lost, a message that is being sent has been
tried no more often than the limit, so that the next try ends it, and as long as it is being sent
its retry timer is running or has a timeout in the queue. -/
theorem transmissions_end {elementNum txTaskNum rplSize rxTaskNum msgMaxNum : ℕ}
    {ivIndex : BitVec 32} {es : List (Event β)} (hlimit : conf.retryTimes.toNat < 255)
    (hall : RunAll (countStep conf) (fun c e => c.1.HasRoom e)
      (.init elementNum txTaskNum rplSize rxTaskNum msgMaxNum ivIndex, fun _ _ => 0) es)
    (hrun : run (countStep conf)
      (.init elementNum txTaskNum rplSize rxTaskNum msgMaxNum ivIndex, fun _ _ => 0) es = .ok c) :
    ∀ id ∈ c.1.tx.active, Node.KeepsGoing conf c id := by
  have hticking : Ticking txTaskNum conf c := hall.invariant
    (fun a e a' h hroom hstep => by
      obtain ⟨n', hn, hret⟩ := bind_ok hstep
      cases hret
      exact h.step hlimit hroom hn)
    (init_ticking conf elementNum txTaskNum rplSize rxTaskNum msgMaxNum ivIndex) hrun
  exact fun id hid => hticking.keepsGoing hid

section Endless

open LowerTransTx (sendSegs segLen)

omit [DecidableEq β] in
theorem sendSegs_acked {ppdu : Option (List Byte)} {pduLen num rounds i offset : ℕ}
    {blockAck : BitVec 32} {misc : BitVec 24} {ctx : MsgCtx} {s : Sender}
    (h : ∀ j, i ≤ j → j < i + rounds → blockAck &&& bit 32 j ≠ 0) :
    sendSegs conf ppdu pduLen num blockAck rounds i offset misc ctx s = .ok (.success, ctx, s) := by
  induction rounds generalizing i offset with
  | zero => rfl
  | succ rounds ih =>
    rw [sendSegs]
    dsimp only
    rw [if_pos (h i le_rfl (by omega)), ih fun j hj hlt => h j (by omega) (by omega)]

/-- A task that waits for an ack of all its segments, and sends nothing any more. -/
@[mk_iff] structure Waits (s : Sender) (id : ℕ) : Prop where
  active : id ∈ s.active
  acked : (s.task id).blockAck = BitVec.allOnes 32
  count : segNum (s.task id).ctx.ctl (s.task id).pduLen ≤ 32
  valid : isSeqAuthValid (s.task id).ctx.seq (s.task id).ctx.seqAuth = true

theorem Waits.sendTask {s : Sender} {id : ℕ} (h : Waits s id) :
    s.sendTask conf env id = .ok (.success, s.setTask id (s.task id)) := by
  have hseg : LowerTransTx.sendSegMsg conf (s.task id).ppdu (s.task id).pduLen (s.task id).blockAck
      (env.stack id) (s.task id).ctx s = .ok (.success, (s.task id).ctx, s) := by
    refine sendSegs_acked fun j _ hj => ?_
    have hcount := h.count
    rw [h.acked, Ne, and_bit_eq_zero _ (by omega), BitVec.getLsbD_allOnes]
    simp
    omega
  rw [Sender.sendTask]
  dsimp only
  rw [hseg]
  rfl

/-- Where the limit is the largest number of its eight bits no count exceeds it. -/
theorem Waits.handleTxTimeout {s : Sender} {id : ℕ} (h : Waits s id)
    (hlimit : conf.retryTimes = 255) : ∃ s', s.handleTxTimeout conf env id = .ok s' ∧
      Waits s' id ∧ (s'.task id).gen = (s.task id).gen ∧ (s'.task id).retryTimer =
        (s.task id).retryTimer.map fun t => { t with active := true } := by
  have hbump : (s.bumpRetry id).task id =
      { s.task id with retryTimes := (s.task id).retryTimes + 1 } := Function.update_self _ _ _
  have hwaits : Waits (s.bumpRetry id) id := by
    refine ⟨h.active, ?_, ?_, ?_⟩ <;> rw [hbump]
    · exact h.acked
    · exact h.count
    · exact h.valid
  have hmax : ¬ conf.retryTimes < ((s.bumpRetry id).task id).retryTimes := by
    rw [hlimit]
    bv_omega
  obtain ⟨t, ht⟩ : ∃ t, t = (s.bumpRetry id).setTask id ((s.bumpRetry id).task id) := ⟨_, rfl⟩
  have htask : t.task id = { s.task id with retryTimes := (s.task id).retryTimes + 1 } := by
    rw [ht, ← hbump]
    exact Function.update_self _ _ _
  have hstart : (t.timerStart id).task id = { t.task id with
      retryTimer := (t.task id).retryTimer.map fun x => { x with active := true } } :=
    LowerTransTx.Sender.timerStart_self
  refine ⟨t.timerStart id, ?_, ⟨?_, ?_, ?_, ?_⟩, ?_, ?_⟩
  · have hvalid : ¬ (!isSeqAuthValid (t.task id).ctx.seq (t.task id).ctx.seqAuth) = true := by
      rw [htask]
      dsimp only
      rw [h.valid]
      decide
    rw [Sender.handleTxTimeout]
    dsimp only
    rw [if_neg hmax, hwaits.sendTask, ← ht]
    change t.afterRetry conf env id = _
    rw [Sender.afterRetry, if_neg hvalid]
  · rw [ht]
    exact h.active
  all_goals rw [hstart, htask]
  · exact h.acked
  · exact h.count
  · exact h.valid

end Endless

section Repetitions

/-- The first task waits with its timer running, and nothing waits in the queue. -/
@[mk_iff] structure Repeats (n : Node β) : Prop where
  waits : Waits n.tx 0
  timer : (n.tx.task 0).retryTimer = some ⟨true, (n.tx.task 0).gen⟩
  active : n.asyncActive = []
  room : n.asyncIdle ≠ 0

instance (s : Sender) (id : ℕ) : Decidable (Waits s id) :=
  decidable_of_iff' _ (waits_iff s id)

instance (n : Node β) : Decidable (Repeats n) :=
  decidable_of_iff' _ (repeats_iff n)

/-- Its timer expires and the timeout is handled. -/
def retryRound (env : TxEnv) : List (Event β) := [.txExpire 0, .process env]

/-- The message is tried once more, and everything is as before. -/
theorem Repeats.retryRound (h : Repeats n) (hlimit : conf.retryTimes = 255) :
    ∃ n' tries', run (countStep conf) (n, tries) (retryRound env) = .ok (n', tries') ∧ Repeats n' ∧
      tries' 0 (n'.tx.task 0).gen = tries 0 (n.tx.task 0).gen + 1 := by
  obtain ⟨tx, htx⟩ : ∃ tx, tx = n.tx.setTask 0
      { n.tx.task 0 with retryTimer := some ⟨false, (n.tx.task 0).gen⟩ } := ⟨_, rfl⟩
  have htask : tx.task 0 =
      { n.tx.task 0 with retryTimer := some ⟨false, (n.tx.task 0).gen⟩ } := by
    rw [htx]
    rfl
  have hwaits : Waits tx 0 := by
    refine ⟨by rw [htx]; exact h.waits.active, ?_, ?_, ?_⟩ <;> rw [htask]
    · exact h.waits.acked
    · exact h.waits.count
    · exact h.waits.valid
  obtain ⟨expired, hexpired⟩ : ∃ m : Node β, m = { n with
      tx := tx
      asyncActive := [.lowerTransTx 0 (n.tx.task 0).gen]
      asyncIdle := n.asyncIdle - 1 } := ⟨_, rfl⟩
  have hexpire : n.txExpire 0 = expired := by
    rw [Node.txExpire, h.timer]
    dsimp only
    rw [← htx, Node.asyncMsgSend, if_neg h.room, hexpired, h.active]
    rfl
  obtain ⟨tx', hhandle, hwaits', hgen, htimer⟩ := @Waits.handleTxTimeout conf env tx 0 hwaits hlimit
  have hprocess : expired.asyncMsgProcess conf env =
      .ok { n with tx := tx', asyncActive := [], asyncIdle := n.asyncIdle - 1 + 1 } := by
    rw [hexpired, Node.asyncMsgProcess]
    dsimp only
    rw [Node.handle, Node.popped, hhandle]
    rfl
  have htried : expired.triedTask (.process env) = some 0 := by
    rw [hexpired, Node.triedTask]
    exact if_pos hwaits.active
  have hgen' : (tx'.task 0).gen = (n.tx.task 0).gen := by rw [hgen, htask]
  refine ⟨{ n with tx := tx', asyncActive := [], asyncIdle := n.asyncIdle - 1 + 1 },
    counted tries tx (some 0), ?_, ⟨hwaits', ?_, rfl, Nat.succ_ne_zero _⟩, ?_⟩
  · have hfirst : countStep conf (n, tries) (.txExpire 0) = .ok (expired, tries) := by
      rw [countStep, ← hexpire]
      exact congrArg (fun x => Except.ok (n.txExpire 0, x)) LowerTransTx.Sender.counted_none
    have hsecond : countStep conf (expired, tries) (.process env) =
        .ok ({ n with tx := tx', asyncActive := [], asyncIdle := n.asyncIdle - 1 + 1 },
          counted tries tx (some 0)) := by
      rw [countStep, step]
      dsimp only
      rw [hprocess, htried, hexpired]
      rfl
    rw [Async.retryRound, run, hfirst]
    exact congrArg (· >>= Except.ok) hsecond
  · rw [htimer, hgen', htask]
    rfl
  · dsimp only
    rw [hgen', counted, if_pos ⟨rfl, by rw [htask]⟩]

/-- It goes on for as many rounds as one likes. -/
theorem Repeats.rounds (h : Repeats n) (hlimit : conf.retryTimes = 255) (k : ℕ) :
    ∃ n' tries', run (countStep conf) (n, tries) (List.replicate k (Async.retryRound env)).flatten =
      .ok (n', tries') ∧ 0 ∈ n'.tx.active ∧ k ≤ tries' 0 (n'.tx.task 0).gen := by
  suffices ∃ n' tries', run (countStep conf) (n, tries)
      (List.replicate k (Async.retryRound env)).flatten = .ok (n', tries') ∧ Repeats n' ∧
        k + tries 0 (n.tx.task 0).gen ≤ tries' 0 (n'.tx.task 0).gen by
    obtain ⟨n', tries', hrun, hn', hk⟩ := this
    exact ⟨n', tries', hrun, hn'.waits.active, by omega⟩
  induction k generalizing n tries with
  | zero => exact ⟨n, tries, rfl, h, by omega⟩
  | succ k ih =>
    obtain ⟨m, tries₁, hround, hm, hcount⟩ := @Repeats.retryRound _ conf env n tries _ h hlimit
    obtain ⟨n', tries', hrun, hn', hk⟩ := @ih m tries₁ hm
    refine ⟨n', tries', ?_, hn', by omega⟩
    rw [List.replicate_succ, List.flatten_cons, run_append, hround]
    exact hrun

end Repetitions

/-- A message whose retries are not limited by the eight bits that count them. -/
def endlessConf : TxConf := { LowerTransTx.plainConf with retryTimes := 255 }

/-- A message that is sent, and a block ack that names segments the message does not have. -/
def overAckedRun : List (Event ℕ) :=
  [.send LowerTransTx.plainEnv (List.replicate 20 7) LowerTransTx.plainMsg,
    .receive plainRxEnv LowerTransTx.plainEnv (memOf [0, 0, 0, 0xFF, 0xFF, 0xFF, 0xFF]) 7
      (plainRxCtx true)]

/-- A message whose retry timer expires while the queue is full. -/
def fullQueueRun : List (Event ℕ) :=
  [.send LowerTransTx.plainEnv (List.replicate 20 7) LowerTransTx.plainMsg, .otherExpire,
    .txExpire 0]

theorem overAckedRun_repeats : ∃ n tries, run (countStep endlessConf)
    (.init 1 1 1 1 1 5, fun _ _ => 0) overAckedRun = .ok (n, tries) ∧ Repeats n := by
  obtain ⟨⟨n, tries⟩, hrun, hrepeats⟩ : ∃ c, run (countStep endlessConf)
      (.init 1 1 1 1 1 5, fun _ _ => 0) overAckedRun = .ok c ∧ decide (Repeats c.1) = true :=
    observe (by decide +kernel)
  exact ⟨n, tries, hrun, of_decide_eq_true hrepeats⟩

/-- With 255 as the limit a message is sent on and on, and one whose timeout finds the queue full
waits for ever. -/
theorem transmissions_endless :
    (∀ k, ∃ c, run (countStep endlessConf) (.init 1 1 1 1 1 5, fun _ _ => 0)
        (overAckedRun ++ (List.replicate k (retryRound LowerTransTx.plainEnv)).flatten) = .ok c ∧
      0 ∈ c.1.tx.active ∧ k ≤ c.2 0 (c.1.tx.task 0).gen) ∧
    ∃ c, run (countStep LowerTransTx.plainConf) (.init 1 1 1 1 1 5, fun _ _ => 0) fullQueueRun =
        .ok c ∧ 0 ∈ c.1.tx.active ∧ ¬ Node.KeepsGoing LowerTransTx.plainConf c 0 := by
  constructor
  · intro k
    obtain ⟨n, tries, hopen, hn⟩ := overAckedRun_repeats
    obtain ⟨n', tries', hrun, hactive, hk⟩ :=
      @Repeats.rounds _ endlessConf LowerTransTx.plainEnv n tries _ hn rfl k
    refine ⟨(n', tries'), ?_, hactive, hk⟩
    rw [run_append, hopen]
    exact hrun
  · obtain ⟨c, hrun, hobs⟩ : ∃ c, run (countStep LowerTransTx.plainConf)
        (.init 1 1 1 1 1 5, fun _ _ => 0) fullQueueRun = .ok c ∧
          (c.1.tx.active, (c.1.tx.task 0).retryTimer, c.1.asyncActive) =
            ([0], some ⟨false, 1⟩, [.other]) := observe (by decide +kernel)
    simp only [Prod.mk.injEq] at hobs
    obtain ⟨hactive, htimer, hqueue⟩ := hobs
    refine ⟨c, hrun, by rw [hactive]; exact List.mem_singleton_self 0, fun h => ?_⟩
    rcases h.timer with ⟨gen, hrunning⟩ | hqueued
    · rw [htimer] at hrunning
      cases hrunning
    · rw [Node.queued, hqueue] at hqueued
      simp at hqueued

/-- A message, a timeout of it and a partial ack. -/
def retriedRun : List (Event ℕ) :=
  [.send LowerTransTx.plainEnv (List.replicate 20 7) LowerTransTx.plainMsg, .txExpire 0,
    .process LowerTransTx.plainEnv,
    .receive plainRxEnv LowerTransTx.plainEnv (memOf [0, 0, 0, 0, 0, 0, 1]) 7 (plainRxCtx true)]

theorem transmissions_end_example : ∃ c, run (countStep LowerTransTx.plainConf)
    (.init 1 1 1 1 1 5, fun _ _ => 0) retriedRun = .ok c ∧ c.1.tx.active = [0] ∧
      c.2 0 (c.1.tx.task 0).gen = 2 ∧
      ∀ id ∈ c.1.tx.active, Node.KeepsGoing LowerTransTx.plainConf c id := by
  obtain ⟨c, hrun, hobs⟩ : ∃ c, run (countStep LowerTransTx.plainConf)
      (.init 1 1 1 1 1 5, fun _ _ => 0) retriedRun = .ok c ∧
        (c.1.tx.active, c.2 0 (c.1.tx.task 0).gen) = ([0], 2) := observe (by decide +kernel)
  obtain ⟨hactive, htries⟩ := Prod.mk.inj hobs
  exact ⟨c, hrun, hactive, htries,
    transmissions_end (by decide +kernel) (by decide +kernel) hrun⟩

end Meshx.Async
