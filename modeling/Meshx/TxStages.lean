import Meshx.IvPending
import Meshx.MessageSizes

/-! The calls that send segmented messages, cut where they finish a task, and the calls of
`meshx_lower_trans_tx_task_finish` as a tree that need not be finite. -/
namespace Meshx.LowerTransTx

open Lib AesCcm Security Sequence IvIndex UpperTrans Segment

/-- A message that a task holds, told from those it held before. -/
structure Entry where
  dst : BitVec 16
  id : ℕ
  gen : ℕ
  deriving DecidableEq, Repr

/-- A call up to where it finishes a task: the state there, the messages it has taken in,
those it has made active, and the task to finish, if there is one. -/
structure Stage where
  state : Sender
  requested : List Entry
  started : List Entry
  finish : Option ℕ

/-- The rest of the call. -/
def Stage.complete (finish : Sender → ℕ → Except Fault Sender) (p : Stage) :
    Except Fault Sender :=
  match p.finish with
  | none => .ok p.state
  | some id => finish p.state id

/-- A call that has not taken in a message or made one active. -/
def Stage.plain (s : Sender) (finish : Option ℕ) : Stage := ⟨s, [], [], finish⟩

namespace Sender

def entry (s : Sender) (id : ℕ) : Entry := ⟨(s.task id).ctx.dst, id, (s.task id).gen⟩

/-- `meshx_lower_trans_tx_task_run` up to where it finishes the task. -/
def runStage (conf : TxConf) (env : TxEnv) (s : Sender) (id : ℕ) : Except Fault Stage :=
  if !env.timerOk id then .ok (.plain s (some id))
  else do
    let (ret, t) ← sendTask conf env (s.started id) id
    if ret ≠ .success then return ⟨t, [], [s.entry id], some id⟩
    else return ⟨t.timerStart id, [], [s.entry id], none⟩

def afterRetryStage (s : Sender) (id : ℕ) : Stage :=
  if !isSeqAuthValid (s.task id).ctx.seq (s.task id).ctx.seqAuth then .plain s (some id)
  else .plain (s.timerStart id) none

def txTimeoutStage (conf : TxConf) (env : TxEnv) (s : Sender) (id : ℕ) : Except Fault Stage :=
  let s := s.bumpRetry id
  if conf.retryTimes < (s.task id).retryTimes then .ok (.plain s (some id))
  else do
    let (_, s) ← sendTask conf env s id
    return s.afterRetryStage id

def blockAckStage (conf : TxConf) (env : TxEnv) (s : Sender) (zero : BitVec 13)
    (blockAck : BitVec 32) : Except Fault Stage :=
  match s.active.find? fun id => seqZero (s.task id).ctx.seqAuth = zero with
  | none => .ok (.plain s none)
  | some id =>
    if (s.task id).segBits = blockAck then .ok (.plain s (some id))
    else if blockAck = 0 then .ok (.plain s (some id))
    else
      let s := s.bumpRetry id
      if conf.retryTimes < (s.task id).retryTimes then .ok (.plain s (some id))
      else do
        let (_, s) ← sendTask conf env (s.setBlockAck id blockAck) id
        return s.afterRetryStage id

def tryStage (conf : TxConf) (env : TxEnv) (s : Sender) (id : ℕ) : Except Fault Stage :=
  if s.active.any fun a => (s.task a).ctx.dst == (s.task id).ctx.dst then
    .ok (.plain { s with pending := s.pending ++ [id] } none)
  else s.runStage conf env id

/-- `meshx_lower_trans_process_seg_msg` up to where it finishes the task it has taken. -/
def segMsgStage (conf : TxConf) (env : TxEnv) (s : Sender) (pdu : List Byte) (ctx : MsgCtx) :
    Except Fault Stage :=
  if maxSegSize < segNum ctx.ctl pdu.length then .ok (.plain s none)
  else if s.active.any fun a =>
      (s.task a).ctx.dst == ctx.dst && (s.task a).ctx.seqAuth == ctx.seqAuth then
    .ok (.plain s none)
  else match s.idle with
    | [] => .ok (.plain s none)
    | id :: idle =>
      if !env.taskMallocOk then .ok (.plain { s with idle := idle ++ [id] } none)
      else do
        let s := s.store id idle pdu ctx
        let p ← s.tryStage conf env id
        return { p with requested := [s.entry id] }

def sendStage (conf : TxConf) (env : TxEnv) (s : Sender) (pdu : List Byte) (ctx : MsgCtx) :
    Except Fault Stage :=
  if pdu.length = 0 then .ok (.plain s none)
  else if !addressIsValid ctx.dst then .ok (.plain s none)
  else if ctx.seg || unsegSize ctx.ctl < pdu.length then
    s.segMsgStage conf env pdu { ctx with seg := true }
  else .ok (.plain (s.netSend ctx (header false ctx :: pdu)) none)

/-- A call of `meshx_lower_trans_tx_task_finish` that returns, with the messages that are
made active from it on. -/
inductive Finishes (conf : TxConf) (env : TxEnv) : Sender → ℕ → List Entry → Sender → Prop
  | last {s t : Sender} {id : ℕ} (release : s.carryOut id = .ok t)
      (none_left : t.runnable = none) : Finishes conf env s id [] t
  | next {s t : Sender} {id next : ℕ} {p : Stage} (release : s.carryOut id = .ok t)
      (found : t.runnable = some next)
      (runs : runStage conf env { t with pending := t.pending.erase next } next = .ok p)
      (goes : p.finish = none) : Finishes conf env s id p.started p.state
  | again {s t s' : Sender} {id next next' : ℕ} {p : Stage} {log : List Entry}
      (release : s.carryOut id = .ok t) (found : t.runnable = some next)
      (runs : runStage conf env { t with pending := t.pending.erase next } next = .ok p)
      (ends : p.finish = some next') (rest : Finishes conf env p.state next' log s') :
      Finishes conf env s id (p.started ++ log) s'

variable {conf : TxConf} {env : TxEnv} {s s' : Sender} {id : ℕ}

theorem taskRun_started (finish : Sender → ℕ → Except Fault Sender) :
    s.taskRun conf env finish id =
      if !env.timerOk id then do
        let s ← finish s id
        return (.resource, s)
      else do
        let (ret, t) ← sendTask conf env (s.started id) id
        if ret ≠ .success then
          let t ← finish t id
          return (ret, t)
        else return (ret, t.timerStart id) := rfl

theorem taskRun_stage (finish : Sender → ℕ → Except Fault Sender) :
    (·.2) <$> s.taskRun conf env finish id = s.runStage conf env id >>= Stage.complete finish := by
  rw [taskRun_started]
  unfold runStage
  by_cases hok : (!env.timerOk id) = true
  · rw [if_pos hok, if_pos hok]
    change _ = finish s id
    cases finish s id <;> rfl
  · rw [if_neg hok, if_neg hok]
    cases sendTask conf env (s.started id) id with
    | error f => rfl
    | ok out =>
      obtain ⟨ret, t⟩ := out
      by_cases hret : ret ≠ .success
      · simp only [bind, Except.bind, if_pos hret]
        change _ = finish t id
        cases finish t id <;> rfl
      · simp only [bind, Except.bind, if_neg hret]
        rfl

theorem afterRetry_stage :
    s.afterRetry conf env id = (s.afterRetryStage id).complete (taskFinish conf env) := by
  unfold afterRetry afterRetryStage
  split_ifs <;> rfl

theorem handleTxTimeout_stage :
    s.handleTxTimeout conf env id =
      s.txTimeoutStage conf env id >>= Stage.complete (taskFinish conf env) := by
  unfold handleTxTimeout txTimeoutStage
  dsimp only
  split_ifs
  · rfl
  · cases sendTask conf env (s.bumpRetry id) id with
    | error f => rfl
    | ok out => exact afterRetry_stage

theorem recvBlockAck_stage {zero : BitVec 13} {blockAck : BitVec 32} :
    s.recvBlockAck conf env zero blockAck =
      s.blockAckStage conf env zero blockAck >>= Stage.complete (taskFinish conf env) := by
  unfold recvBlockAck blockAckStage
  cases s.active.find? fun id => seqZero (s.task id).ctx.seqAuth = zero with
  | none => rfl
  | some id =>
    dsimp only
    split_ifs
    · rfl
    · rfl
    · rfl
    · cases sendTask conf env ((s.bumpRetry id).setBlockAck id blockAck) id with
      | error f => rfl
      | ok out => exact afterRetry_stage

theorem taskTry_stage :
    (·.2) <$> s.taskTry conf env id =
      s.tryStage conf env id >>= Stage.complete (taskFinish conf env) := by
  unfold taskTry tryStage
  split_ifs
  · rfl
  · exact taskRun_stage _

theorem processSegMsg_stage {pdu : List Byte} {ctx : MsgCtx} :
    (·.2) <$> s.processSegMsg conf env pdu ctx =
      s.segMsgStage conf env pdu ctx >>= Stage.complete (taskFinish conf env) := by
  unfold processSegMsg segMsgStage
  dsimp only
  by_cases hnum : maxSegSize < segNum ctx.ctl pdu.length
  · rw [if_pos hnum, if_pos hnum]
    rfl
  rw [if_neg hnum, if_neg hnum]
  by_cases hexist : (s.active.any fun a =>
      (s.task a).ctx.dst == ctx.dst && (s.task a).ctx.seqAuth == ctx.seqAuth) = true
  · rw [if_pos hexist, if_pos hexist]
    rfl
  · rw [if_neg hexist, if_neg hexist]
    cases s.idle with
    | nil => rfl
    | cons id idle =>
      dsimp only
      by_cases hmalloc : (!env.taskMallocOk) = true
      · rw [if_pos hmalloc, if_pos hmalloc]
        rfl
      · rw [if_neg hmalloc, if_neg hmalloc]
        have htry := @taskTry_stage conf env (s.store id idle pdu ctx) id
        refine htry.trans ?_
        cases tryStage conf env (s.store id idle pdu ctx) id <;> rfl

theorem lowerTransSend_stage {pdu : List Byte} {ctx : MsgCtx} :
    (·.2) <$> s.lowerTransSend conf env pdu ctx =
      s.sendStage conf env pdu ctx >>= Stage.complete (taskFinish conf env) := by
  unfold lowerTransSend sendStage
  split_ifs
  · rfl
  · rfl
  · exact processSegMsg_stage
  · rfl

end Sender

/-- A task without what sending its message changes. -/
def TxTask.message (t : TxTask) : TxTask :=
  { t with ctx := { t.ctx with seq := 0 }, blockAck := 0, retryTimer := none, retryTimes := 0 }

namespace Sender

variable {conf : TxConf} {env : TxEnv} {s s' t : Sender} {id j : ℕ} {p : Stage}

/-- A message is refused, or its task is taken and given back, or it is stored and tried. -/
theorem segMsgStage_cases {pdu : List Byte} {ctx : MsgCtx}
    (hrun : s.segMsgStage conf env pdu ctx = .ok p) :
    p = .plain s none ∨
    (∃ id idle, s.idle = id :: idle ∧ p = .plain { s with idle := idle ++ [id] } none) ∨
    ∃ id idle q, s.idle = id :: idle ∧ segNum ctx.ctl pdu.length ≤ maxSegSize ∧
      (s.store id idle pdu ctx).tryStage conf env id = .ok q ∧
      p = { q with requested := [(s.store id idle pdu ctx).entry id] } := by
  unfold segMsgStage at hrun
  by_cases hnum : maxSegSize < segNum ctx.ctl pdu.length
  · rw [if_pos hnum] at hrun
    exact .inl (Except.ok.inj hrun).symm
  rw [if_neg hnum] at hrun
  by_cases hexist : (s.active.any fun a =>
      (s.task a).ctx.dst == ctx.dst && (s.task a).ctx.seqAuth == ctx.seqAuth) = true
  · rw [if_pos hexist] at hrun
    exact .inl (Except.ok.inj hrun).symm
  rw [if_neg hexist] at hrun
  cases hidle : s.idle with
  | nil =>
    rw [hidle] at hrun
    exact .inl (Except.ok.inj hrun).symm
  | cons id idle =>
    rw [hidle] at hrun
    dsimp only at hrun
    by_cases hmalloc : (!env.taskMallocOk) = true
    · rw [if_pos hmalloc] at hrun
      exact .inr (.inl ⟨id, idle, rfl, (Except.ok.inj hrun).symm⟩)
    · rw [if_neg hmalloc] at hrun
      obtain ⟨q, hq, hrest⟩ := bind_ok hrun
      exact .inr (.inr ⟨id, idle, q, rfl, not_lt.mp hnum, hq, (Except.ok.inj hrest).symm⟩)

/-- Nothing but one task has changed, and that task holds the same message. -/
structure Touches (s : Sender) (id : ℕ) (s' : Sender) : Prop extends Alike s s' where
  others : ∀ j, j ≠ id → s'.task j = s.task j
  message : (s'.task id).message = (s.task id).message

theorem Touches.trans (h₁ : Touches s id t) (h₂ : Touches t id s') : Touches s id s' where
  toAlike := h₁.toAlike.trans h₂.toAlike
  others j hj := (h₂.others j hj).trans (h₁.others j hj)
  message := h₂.message.trans h₁.message

theorem Touches.message_eq (h : Touches s id s') (j : ℕ) :
    (s'.task j).message = (s.task j).message := by
  by_cases hj : j = id
  · rw [hj, h.message]
  · rw [h.others j hj]

theorem touches_setTask {x : TxTask} (h : x.message = (s.task id).message) :
    Touches s id (s.setTask id x) where
  toAlike := alike_setTask x
  others j hj := Function.update_of_ne hj _ _
  message := by simpa [setTask] using h

theorem touches_bumpRetry : Touches s id (s.bumpRetry id) := touches_setTask rfl

theorem touches_setBlockAck {blockAck : BitVec 32} :
    Touches s id (s.setBlockAck id blockAck) := touches_setTask rfl

theorem touches_timerStart : Touches s id (s.timerStart id) := touches_setTask rfl

theorem sendSegs_ctx {ppdu : Option (List Byte)} {pduLen num : ℕ} {blockAck : BitVec 32}
    {rounds i offset : ℕ} {misc : BitVec 24} {ret : Errno} {ctx ctx' : MsgCtx}
    (hrun : sendSegs conf ppdu pduLen num blockAck rounds i offset misc ctx s =
      .ok (ret, ctx', s')) : ∃ seq, ctx' = { ctx with seq := seq } := by
  induction rounds generalizing i offset misc ctx s with
  | zero =>
    cases hrun
    exact ⟨_, rfl⟩
  | succ rounds ih =>
    rcases sendSegs_cases hrun with ⟨-, hrest⟩ | ⟨-, -, hout⟩ | ⟨data, -, -, -, hrest⟩
    · exact ih hrest
    · cases hout
      exact ⟨_, rfl⟩
    · obtain ⟨seq, rfl⟩ := ih hrest
      exact ⟨seq, rfl⟩

/-- Sending the segments of a task changes the number in its context. -/
theorem sendTask_task {ret : Errno} (hrun : s.sendTask conf env id = .ok (ret, s')) :
    ∃ seq, s'.task = Function.update s.task id
      { s.task id with ctx := { (s.task id).ctx with seq := seq } } := by
  obtain ⟨⟨ret', ctx', t⟩, hseg, hrest⟩ := bind_ok hrun
  cases hrest
  obtain ⟨seq, rfl⟩ := sendSegs_ctx hseg
  refine ⟨seq, ?_⟩
  dsimp only [setTask]
  rw [(sameTasks_sendSegs hseg).task]

theorem touches_sendTask {ret : Errno} (hrun : s.sendTask conf env id = .ok (ret, s')) :
    Touches s id s' := by
  obtain ⟨seq, htask⟩ := sendTask_task hrun
  refine ⟨alike_sendTask hrun, fun j hj => ?_, ?_⟩
  · rw [htask, Function.update_of_ne hj]
  · rw [htask, Function.update_self]
    rfl

theorem Touches.entry_eq (h : Touches s id s') (j : ℕ) : s'.entry j = s.entry j := by
  have hmsg := h.message_eq j
  have hdst := congrArg (·.ctx.dst) hmsg
  have hgen := congrArg TxTask.gen hmsg
  simp only [TxTask.message] at hdst hgen
  rw [entry, entry, hdst, hgen]

theorem Touches.ppdu_eq (h : Touches s id s') (j : ℕ) :
    (s'.task j).ppdu = (s.task j).ppdu := by
  simpa [TxTask.message] using congrArg TxTask.ppdu (h.message_eq j)

theorem touches_afterRetryStage : Touches s id (s.afterRetryStage id).state := by
  unfold afterRetryStage
  split_ifs
  · exact ⟨⟨rfl, rfl, rfl, rfl⟩, fun _ _ => rfl, rfl⟩
  · exact touches_timerStart

/-- A task that is run becomes active, and may then have to be finished. -/
structure Runs (s : Sender) (id : ℕ) (p : Stage) : Prop where
  state : Touches { s with active := s.active ++ [id] } id p.state
  requested : p.requested = []
  started : p.started = [s.entry id]
  finish : ∀ j, p.finish = some j → j = id

theorem runStage_runs (hrun : s.runStage conf env id = .ok p) (hok : env.timerOk id = true) :
    Runs s id p := by
  unfold runStage at hrun
  rw [if_neg (by simp [hok])] at hrun
  obtain ⟨⟨ret, t⟩, ht, hrest⟩ := bind_ok hrun
  have hstart : Touches { s with active := s.active ++ [id] } id (s.started id) :=
    touches_setTask (s := { s with active := s.active ++ [id] }) rfl
  have hsend := hstart.trans (touches_sendTask ht)
  dsimp only at hrest
  split_ifs at hrest
  · cases hrest
    exact ⟨hsend, rfl, rfl, fun j hj => (Option.some.inj hj).symm⟩
  · cases hrest
    exact ⟨hsend.trans touches_timerStart, rfl, rfl, fun j hj => by cases hj⟩

theorem runStage_noTimer (hrun : s.runStage conf env id = .ok p)
    (hok : env.timerOk id = false) : p = .plain s (some id) := by
  unfold runStage at hrun
  rw [if_pos (by simp [hok])] at hrun
  exact (Except.ok.inj hrun).symm

theorem runStage_pending (hrun : s.runStage conf env id = .ok p) :
    p.state.pending = s.pending := by
  cases hok : env.timerOk id with
  | false => rw [runStage_noTimer hrun hok, Stage.plain]
  | true => exact (runStage_runs hrun hok).state.pending

/-- What the start of `meshx_lower_trans_tx_task_finish` does to the tasks. -/
structure Released (s : Sender) (id : ℕ) (t : Sender) : Prop where
  idle : t.idle = s.idle.erase id ++ [id]
  active : t.active = s.active.erase id
  pending : t.pending = s.pending.erase id
  task : t.task = Function.update s.task id { s.task id with retryTimer := none, ppdu := none }

theorem carryOut_released (hrun : s.carryOut id = .ok t) : Released s id t := by
  obtain ⟨u, hu, hret⟩ := bind_ok hrun
  cases hret
  unfold release at hu
  split_ifs at hu
  cases hu
  exact ⟨rfl, rfl, rfl, rfl⟩

theorem carryOut_listed (hrun : s.carryOut id = .ok t) :
    id ∈ s.idle ∨ id ∈ s.active ∨ id ∈ s.pending := by
  obtain ⟨u, hu, -⟩ := bind_ok hrun
  unfold release at hu
  split_ifs at hu with hlisted
  exact hlisted

theorem Finishes.listed {log : List Entry} (hf : Finishes conf env s id log s') :
    id ∈ s.idle ∨ id ∈ s.active ∨ id ∈ s.pending := by
  cases hf with
  | last release _ => exact carryOut_listed release
  | next release _ _ _ => exact carryOut_listed release
  | again release _ _ _ _ => exact carryOut_listed release

theorem Released.task_of_ne (h : Released s id t) (hj : j ≠ id) : t.task j = s.task j := by
  rw [h.task, Function.update_of_ne hj]

theorem Released.entry_eq (h : Released s id t) (j : ℕ) : t.entry j = s.entry j := by
  rw [entry, entry, h.task]
  by_cases hj : j = id
  · rw [hj, Function.update_self]
  · rw [Function.update_of_ne hj]

theorem runNext_stage {depth next : ℕ} (hnext : s.runnable = some next) :
    s.runNext conf env depth =
      runStage conf env { s with pending := s.pending.erase next } next >>=
        Stage.complete (taskFinishIn conf env depth) := by
  rw [← taskRun_stage, runNext, hnext]
  rfl

theorem runnable_mem {next : ℕ} (hnext : s.runnable = some next) : next ∈ s.pending :=
  List.mem_of_find?_eq_some hnext

/-- The depth is enough for the calls to come to an end by themselves. -/
theorem taskFinishIn_finishes {depth : ℕ} (hrun : s.taskFinishIn conf env depth id = .ok s')
    (hdepth : s.pending.length ≤ depth) : ∃ log, Finishes conf env s id log s' := by
  induction depth generalizing s s' id with
  | zero =>
    have hcarry : s.carryOut id = .ok s' := hrun
    have hnil : s'.pending = [] := by
      have hempty : s.pending = [] := List.eq_nil_of_length_eq_zero (by omega)
      rw [(carryOut_released hcarry).pending, hempty]
      rfl
    exact ⟨[], .last hcarry (by rw [runnable, hnil, List.find?_nil])⟩
  | succ depth ih =>
    rw [taskFinishIn_succ] at hrun
    obtain ⟨t, ht, hrest⟩ := bind_ok hrun
    cases hnext : t.runnable with
    | none =>
      rw [runNext, hnext] at hrest
      cases hrest
      exact ⟨[], .last ht hnext⟩
    | some next =>
      rw [runNext_stage hnext] at hrest
      obtain ⟨p, hp, hcomplete⟩ := bind_ok hrest
      unfold Stage.complete at hcomplete
      cases hfinish : p.finish with
      | none =>
        rw [hfinish] at hcomplete
        cases hcomplete
        exact ⟨_, .next ht hnext hp hfinish⟩
      | some next' =>
        rw [hfinish] at hcomplete
        have hlen : p.state.pending.length ≤ depth := by
          rw [runStage_pending hp]
          have hmem := runnable_mem hnext
          have herase := List.length_erase_of_mem hmem
          have hle := (List.erase_sublist (l := s.pending) (a := id)).length_le
          rw [← (carryOut_released ht).pending] at hle
          dsimp only
          omega
        obtain ⟨log, hlog⟩ := ih hcomplete hlen
        exact ⟨_, .again ht hnext hp hfinish hlog⟩

theorem taskFinish_finishes (hrun : s.taskFinish conf env id = .ok s') :
    ∃ log, Finishes conf env s id log s' := taskFinishIn_finishes hrun le_rfl

end Sender

/-- What drives the sending of segmented messages. The source of an ack is not looked at.
Between the calls sequence numbers are drawn and the IV index moves elsewhere. -/
inductive SchedEvent
  | send (env : TxEnv) (pdu : List Byte) (ctx : MsgCtx)
  | ack (env : TxEnv) (src : BitVec 16) (zero : BitVec 13) (blockAck : BitVec 32)
  | timeout (env : TxEnv) (id : ℕ)
  | elsewhere (seqArray : SeqArray) (iv : Iv)

/-- The platform a call runs on. -/
def SchedEvent.env : SchedEvent → TxEnv
  | .send env _ _ => env
  | .ack env _ _ _ => env
  | .timeout env _ => env
  | .elsewhere _ _ => plainEnv

def schedStep (conf : TxConf) (s : Sender) : SchedEvent → Except Fault Sender
  | .send env pdu ctx => (·.2) <$> s.lowerTransSend conf env pdu ctx
  | .ack env _ zero blockAck => s.recvBlockAck conf env zero blockAck
  | .timeout env id => s.handleTxTimeout conf env id
  | .elsewhere seqArray iv => .ok { s with seqArray := seqArray, iv := iv }

def schedStage (conf : TxConf) (s : Sender) : SchedEvent → Except Fault Stage
  | .send env pdu ctx => s.sendStage conf env pdu ctx
  | .ack env _ zero blockAck => s.blockAckStage conf env zero blockAck
  | .timeout env id => s.txTimeoutStage conf env id
  | .elsewhere seqArray iv => .ok (.plain { s with seqArray := seqArray, iv := iv } none)

theorem schedStep_stage (conf : TxConf) (s : Sender) (e : SchedEvent) :
    schedStep conf s e =
      schedStage conf s e >>= Stage.complete (Sender.taskFinish conf e.env) := by
  cases e with
  | send env pdu ctx => exact Sender.lowerTransSend_stage
  | ack env src zero blockAck => exact Sender.recvBlockAck_stage
  | timeout env id => exact Sender.handleTxTimeout_stage
  | elsewhere seqArray iv => rfl

/-- A step with the messages that it takes in and those that it makes active, in order. -/
inductive Steps (conf : TxConf) (s : Sender) (e : SchedEvent) :
    (requested started : List Entry) → Sender → Prop
  | kept {p : Stage} (stage : schedStage conf s e = .ok p) (goes : p.finish = none) :
      Steps conf s e p.requested p.started p.state
  | finished {p : Stage} {id : ℕ} {log : List Entry} {s' : Sender}
      (stage : schedStage conf s e = .ok p) (ends : p.finish = some id)
      (finishes : Sender.Finishes conf e.env p.state id log s') :
      Steps conf s e p.requested (p.started ++ log) s'

/-- A run with the messages that it takes in and those that it makes active, in order. -/
inductive Traced (conf : TxConf) :
    Sender → List SchedEvent → (requested started : List Entry) → Sender → Prop
  | nil {s : Sender} : Traced conf s [] [] [] s
  | cons {s t s' : Sender} {e : SchedEvent} {es : List SchedEvent}
      {requested requested' started started' : List Entry}
      (step : Steps conf s e requested started t)
      (rest : Traced conf t es requested' started' s') :
      Traced conf s (e :: es) (requested ++ requested') (started ++ started') s'

/-- Every step that is made is one of these. -/
theorem schedStep_steps {conf : TxConf} {s s' : Sender} {e : SchedEvent}
    (hrun : schedStep conf s e = .ok s') :
    ∃ requested started, Steps conf s e requested started s' := by
  rw [schedStep_stage] at hrun
  obtain ⟨p, hp, hcomplete⟩ := bind_ok hrun
  unfold Stage.complete at hcomplete
  cases hfinish : p.finish with
  | none =>
    rw [hfinish] at hcomplete
    cases hcomplete
    exact ⟨_, _, .kept hp hfinish⟩
  | some id =>
    rw [hfinish] at hcomplete
    obtain ⟨log, hlog⟩ := Sender.taskFinish_finishes hcomplete
    exact ⟨_, _, .finished hp hfinish hlog⟩

end Meshx.LowerTransTx
