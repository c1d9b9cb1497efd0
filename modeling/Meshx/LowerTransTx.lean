import Meshx.Segment
import Meshx.IvIndex
import Meshx.UpperTrans
import Meshx.Lib.Run

/-! The sending side of the lower transport layer: unsegmented messages, the tasks that
send and repeat segments, segment acknowledgements, and what these share with the sequence
number and IV index modules. Definitions carry the names of `meshx_lower_trans.c`. -/
namespace Meshx.LowerTransTx

open Lib AesCcm Security Sequence IvIndex UpperTrans Segment

/-- A timer of the platform. `gen` is a ghost: it tells for which use of the task the timer
was created. -/
structure Timer where
  active : Bool
  gen : ℕ
  deriving DecidableEq, Repr

/-- `meshx_lower_trans_tx_task_t`. The ghost `gen` counts the messages the task has held. -/
structure TxTask where
  ctx : MsgCtx
  ppdu : Option (List Byte)
  pduLen : ℕ
  segBits : BitVec 32
  blockAck : BitVec 32
  retryTimer : Option Timer
  retryTimes : Byte
  gen : ℕ

/-- A task after `meshx_lower_trans_init`. -/
def TxTask.zero : TxTask := ⟨.zero, none, 0, 0, 0, none, 0, 0⟩

structure TxConf where
  nodeAddr : BitVec 16
  defaultTtl : BitVec 7
  retryTimes : Byte

/-- What the platform answers during one step: memory, timers by task, interfaces, the
return code of `meshx_net_send`, and what the buffer of a task's segments holds at first. -/
structure TxEnv where
  mallocOk : Bool
  taskMallocOk : Bool
  timerOk : ℕ → Bool
  connected : ℕ → Bool
  netRet : Errno
  stack : ℕ → BitVec 24

/-- A call of `meshx_net_send`. -/
structure NetCall where
  ctx : MsgCtx
  pdu : List Byte
  deriving DecidableEq, Repr

/-- What sending reads and writes. `sent` collects the calls of `meshx_net_send`, the last
one first; `exhausted` is set when a draw of a sequence number finds its counter at the
maximum, or no counter. -/
structure Sender where
  seqArray : SeqArray
  iv : Iv
  task : ℕ → TxTask
  idle : List ℕ
  active : List ℕ
  pending : List ℕ
  sent : List NetCall
  exhausted : Bool

def Sender.init (elementNum taskNum : ℕ) (ivIndex : BitVec 32) : Sender where
  seqArray := seqInit elementNum
  iv := .init ivIndex
  task _ := .zero
  idle := List.range taskNum
  active := []
  pending := []
  sent := []
  exhausted := false

/-- The draw hands out a number and moves its counter on. -/
def drawable (seqArray : SeqArray) (index : ℕ) : Bool :=
  seqArray[index]?.any fun seq => seq ≠ seqMax

namespace Sender

def setTask (s : Sender) (id : ℕ) (t : TxTask) : Sender :=
  { s with task := Function.update s.task id t }

def netSend (s : Sender) (ctx : MsgCtx) (pdu : List Byte) : Sender :=
  { s with sent := ⟨ctx, pdu⟩ :: s.sent }

/-- `meshx_seq_use` for the element of a source address; the 24 bits of `seq` take it. -/
def draw (conf : TxConf) (s : Sender) (src : BitVec 16) : BitVec 24 × Sender :=
  let index := elementIndex conf.nodeAddr src
  let (seqArray, seq) := seqUse s.seqArray index
  (seq.setWidth 24,
    { s with
      seqArray := seqArray
      exhausted := s.exhausted || !drawable s.seqArray index })

end Sender

/-- The length of segment `i`, in a `uint8_t`. -/
def segLen (ctl : Bool) (pduLen num i offset : ℕ) : ℕ :=
  if num = i + 1 then (pduLen - offset) % 256 else segSize ctl

/-- The header of segment `i`. Of what the three bytes hold in memory, a control segment
keeps the topmost bit. -/
def segMisc (ctx : MsgCtx) (num i : ℕ) (misc : BitVec 24) : SegMisc :=
  ⟨if ctx.ctl then misc.msb else ctx.szmic, seqZero ctx.seqAuth, BitVec.ofNat 5 i,
    BitVec.ofNat 5 (num - 1)⟩

def segPdu (ctx : MsgCtx) (misc : SegMisc) (payload : List Byte) : List Byte :=
  header true ctx :: (be24 misc.pack ++ payload)

/-- The loop of `meshx_lower_trans_send_seg_msg`: so many segments from `i` on, at this
offset. `misc` is what the three header bytes hold in memory. -/
def sendSegs (conf : TxConf) (ppdu : Option (List Byte)) (pduLen num : ℕ)
    (blockAck : BitVec 32) : (rounds i offset : ℕ) → (misc : BitVec 24) → MsgCtx → Sender →
    Except Fault (Errno × MsgCtx × Sender)
  | 0, _, _, _, ctx, s => .ok (.success, ctx, s)
  | rounds + 1, i, offset, misc, ctx, s =>
    let len := segLen ctx.ctl pduLen num i offset
    if blockAck &&& bit 32 i ≠ 0 then
      sendSegs conf ppdu pduLen num blockAck rounds (i + 1) (offset + len) misc ctx s
    else
      let (seq, s) := s.draw conf ctx.src
      let ctx := { ctx with seq := seq }
      if !isSeqAuthValid ctx.seq ctx.seqAuth then .ok (.inval, ctx, s)
      else match ppdu with
        | none => .error .nullDeref
        | some data =>
          if 16 < len then .error .badWrite
          else
            let v := segMisc ctx num i misc
            sendSegs conf ppdu pduLen num blockAck rounds (i + 1) (offset + len) (swap24 v.pack)
              ctx (s.netSend ctx (segPdu ctx v ((data.drop offset).take len)))

def sendSegMsg (conf : TxConf) (ppdu : Option (List Byte)) (pduLen : ℕ) (blockAck : BitVec 32)
    (stack : BitVec 24) (ctx : MsgCtx) (s : Sender) : Except Fault (Errno × MsgCtx × Sender) :=
  let num := segNum ctx.ctl pduLen
  sendSegs conf ppdu pduLen num blockAck num 0 0 stack ctx s

namespace Sender

/-- `meshx_lower_trans_send_seg_msg` on the message of a task, whose context it updates. -/
def sendTask (conf : TxConf) (env : TxEnv) (s : Sender) (id : ℕ) :
    Except Fault (Errno × Sender) := do
  let t := s.task id
  let (ret, ctx, s) ← sendSegMsg conf t.ppdu t.pduLen t.blockAck (env.stack id) t.ctx s
  return (ret, s.setTask id { t with ctx := ctx })

/-- `meshx_lower_trans_tx_task_release`. Removing a node from no list fails an assertion. -/
def release (s : Sender) (id : ℕ) : Except Fault Sender :=
  if id ∈ s.idle ∨ id ∈ s.active ∨ id ∈ s.pending then
    .ok { s with
      idle := s.idle.erase id ++ [id]
      active := s.active.erase id
      pending := s.pending.erase id
      task := Function.update s.task id { s.task id with retryTimer := none, ppdu := none } }
  else .error .assertFailed

def runnable (s : Sender) : Option ℕ :=
  s.pending.find? fun p => s.active.all fun a => (s.task p).ctx.dst != (s.task a).ctx.dst

/-- `meshx_lower_trans_tx_timer_start`; a task without a timer is left as it is. -/
def timerStart (s : Sender) (id : ℕ) : Sender :=
  s.setTask id { s.task id with
    retryTimer := (s.task id).retryTimer.map fun t => { t with active := true } }

/-- `meshx_lower_trans_tx_task_run`, over the function that finishes a task. -/
def taskRun (conf : TxConf) (env : TxEnv) (finish : Sender → ℕ → Except Fault Sender)
    (s : Sender) (id : ℕ) : Except Fault (Errno × Sender) :=
  if !env.timerOk id then do
    let s ← finish s id
    return (.resource, s)
  else do
    let s := s.setTask id { s.task id with retryTimer := some ⟨false, (s.task id).gen⟩ }
    let (ret, s) ← sendTask conf env { s with active := s.active ++ [id] } id
    if ret ≠ .success then
      let s ← finish s id
      return (ret, s)
    else return (ret, s.timerStart id)

/-- `meshx_lower_trans_tx_task_finish`. Every task it runs leaves the pending list, whose
length bounds the depth of the recursion. -/
def taskFinishIn (conf : TxConf) (env : TxEnv) : ℕ → Sender → ℕ → Except Fault Sender
  | 0, s, id => do
    let s ← s.release id
    return { s with iv := ivPendingNormal s.iv }
  | depth + 1, s, id => do
    let s ← s.release id
    let s := { s with iv := ivPendingNormal s.iv }
    match s.runnable with
    | none => return s
    | some next =>
      let (_, s) ← taskRun conf env (taskFinishIn conf env depth)
        { s with pending := s.pending.erase next } next
      return s

def taskFinish (conf : TxConf) (env : TxEnv) (s : Sender) (id : ℕ) : Except Fault Sender :=
  taskFinishIn conf env s.pending.length s id

def bumpRetry (s : Sender) (id : ℕ) : Sender :=
  s.setTask id { s.task id with retryTimes := (s.task id).retryTimes + 1 }

def setBlockAck (s : Sender) (id : ℕ) (blockAck : BitVec 32) : Sender :=
  s.setTask id { s.task id with blockAck := blockAck }

/-- What follows a repetition: a sequence number out of the window ends the task. -/
def afterRetry (conf : TxConf) (env : TxEnv) (s : Sender) (id : ℕ) : Except Fault Sender :=
  if !isSeqAuthValid (s.task id).ctx.seq (s.task id).ctx.seqAuth then taskFinish conf env s id
  else .ok (s.timerStart id)

def handleTxTimeout (conf : TxConf) (env : TxEnv) (s : Sender) (id : ℕ) : Except Fault Sender :=
  let s := s.bumpRetry id
  if conf.retryTimes < (s.task id).retryTimes then taskFinish conf env s id
  else do
    let (_, s) ← sendTask conf env s id
    afterRetry conf env s id

/-- `meshx_lower_trans_recv_block_ack`, after the bytes of the ack are put in order. -/
def recvBlockAck (conf : TxConf) (env : TxEnv) (s : Sender) (zero : BitVec 13)
    (blockAck : BitVec 32) : Except Fault Sender :=
  match s.active.find? fun id => seqZero (s.task id).ctx.seqAuth = zero with
  | none => .ok s
  | some id =>
    if (s.task id).segBits = blockAck then taskFinish conf env s id
    else if blockAck = 0 then taskFinish conf env s id
    else
      let s := s.bumpRetry id
      if conf.retryTimes < (s.task id).retryTimes then taskFinish conf env s id
      else do
        let (_, s) ← sendTask conf env (s.setBlockAck id blockAck) id
        afterRetry conf env s id

def taskTry (conf : TxConf) (env : TxEnv) (s : Sender) (id : ℕ) :
    Except Fault (Errno × Sender) :=
  if s.active.any fun a => (s.task a).ctx.dst == (s.task id).ctx.dst then
    .ok (.success, { s with pending := s.pending ++ [id] })
  else taskRun conf env (taskFinish conf env) s id

/-- `meshx_lower_trans_process_seg_msg`, with `meshx_lower_trans_tx_task_request`. -/
def processSegMsg (conf : TxConf) (env : TxEnv) (s : Sender) (pdu : List Byte) (ctx : MsgCtx) :
    Except Fault (Errno × Sender) :=
  let num := segNum ctx.ctl pdu.length
  if maxSegSize < num then .ok (.length, s)
  else if s.active.any fun a =>
      (s.task a).ctx.dst == ctx.dst && (s.task a).ctx.seqAuth == ctx.seqAuth then
    .ok (.already, s)
  else match s.idle with
    | [] => .ok (.busy, s)
    | id :: idle =>
      if !env.taskMallocOk then .ok (.busy, { s with idle := idle ++ [id] })
      else
        let t := s.task id
        let s := { s with idle := idle }.setTask id
          { t with
            ctx := ctx
            ppdu := some pdu
            pduLen := pdu.length
            segBits := setBits 0 num
            blockAck := 0
            retryTimes := 0
            gen := t.gen + 1 }
        taskTry conf env s id

def lowerTransSend (conf : TxConf) (env : TxEnv) (s : Sender) (pdu : List Byte) (ctx : MsgCtx) :
    Except Fault (Errno × Sender) :=
  if pdu.length = 0 then .ok (.length, s)
  else if !addressIsValid ctx.dst then .ok (.inval, s)
  else if ctx.seg || unsegSize ctx.ctl < pdu.length then
    processSegMsg conf env s pdu { ctx with seg := true }
  else .ok (env.netRet, s.netSend ctx (header false ctx :: pdu))

/-- The PDU of `meshx_lower_trans_seg_ack`. -/
def segAckPdu (zero : BitVec 13) (blockAck : BitVec 32) : List Byte :=
  be16 (0#1 ++ zero ++ 0#2) ++ be32 blockAck

def segAckCtx (conf : TxConf) (s : Sender) (rx : MsgCtx) : MsgCtx :=
  { MsgCtx.zero with
    src := rx.dst
    dst := rx.src
    ttl := conf.defaultTtl
    ctl := true
    ivIndex := ivIndexTxGet s.iv
    pnetKey := rx.pnetKey }

def segAck (conf : TxConf) (env : TxEnv) (s : Sender) (blockAck : BitVec 32) (rx : MsgCtx) :
    Except Fault (Errno × Sender) :=
  let ctx := segAckCtx conf s rx
  let (seq, s) := s.draw conf ctx.src
  lowerTransSend conf env s (segAckPdu (seqZero rx.seqAuth) blockAck) { ctx with seq := seq }

/-- `meshx_upper_trans_send` down to the lower transport layer, for a context whose IV
index was taken from `meshx_iv_index_tx_get`. -/
def upperSend (c : Crypto) (conf : TxConf) (env : TxEnv) (s : Sender) (data : List Byte)
    (ctx : MsgCtx) : Except Fault (Errno × Sender) := do
  let ctx := { ctx with ivIndex := ivIndexTxGet s.iv }
  let (seqArray, out) ←
    upperTransSend c conf.nodeAddr env.connected env.mallocOk s.seqArray data ctx
  match out with
  | .ret err => return (err, { s with seqArray := seqArray })
  | .lower pdu ctx _ =>
    let drawn := ctx.ctl || drawable s.seqArray (elementIndex conf.nodeAddr ctx.src)
    lowerTransSend conf env
      { s with seqArray := seqArray, exhausted := s.exhausted || !drawn } pdu ctx

def busy (s : Sender) : Bool := !s.active.isEmpty

def ivMoved (s : Sender) (iv : Iv) (clear : Bool) : Sender :=
  { s with iv := iv, seqArray := if clear then seqClear s.seqArray else s.seqArray }

end Sender

inductive TxEvent
  | send (env : TxEnv) (data : List Byte) (ctx : MsgCtx)
  | timeout (env : TxEnv) (id : ℕ)
  | recvBlockAck (env : TxEnv) (zero : BitVec 13) (blockAck : BitVec 32)
  | segAck (env : TxEnv) (blockAck : BitVec 32) (rx : MsgCtx)
  | ivUpdate (ivIndex : BitVec 32) (state : IvState)
  | ivTick
  | ivTestMode (flag : Bool)
  | ivOperateTime (time : BitVec 32)

def txStep (c : Crypto) (conf : TxConf) (s : Sender) : TxEvent → Except Fault Sender
  | .send env data ctx => (·.2) <$> s.upperSend c conf env data ctx
  | .timeout env id => s.handleTxTimeout conf env id
  | .recvBlockAck env zero blockAck => s.recvBlockAck conf env zero blockAck
  | .segAck env blockAck rx => (·.2) <$> s.segAck conf env blockAck rx
  | .ivUpdate ivIndex state =>
    let (_, iv, clear) := ivIndexUpdate s.iv ivIndex state s.busy
    .ok (s.ivMoved iv clear)
  | .ivTick =>
    let (iv, clear) := ivTick s.iv s.busy
    .ok (s.ivMoved iv clear)
  | .ivTestMode flag => .ok { s with iv := { s.iv with testMode := flag } }
  | .ivOperateTime time => .ok { s with iv := { s.iv with tickTime := time / 1200 } }

/-- One round of the loop over the segments: the segment is acknowledged, its number falls
out of the window, or it is sent. -/
theorem sendSegs_cases {conf : TxConf} {ppdu : Option (List Byte)} {pduLen num : ℕ}
    {blockAck : BitVec 32} {rounds i offset : ℕ} {misc : BitVec 24} {ctx : MsgCtx} {s : Sender}
    {out : Errno × MsgCtx × Sender}
    (h : sendSegs conf ppdu pduLen num blockAck (rounds + 1) i offset misc ctx s = .ok out) :
    let len := segLen ctx.ctl pduLen num i offset
    let next := { ctx with seq := (s.draw conf ctx.src).1 }
    (blockAck &&& bit 32 i ≠ 0 ∧
      sendSegs conf ppdu pduLen num blockAck rounds (i + 1) (offset + len) misc ctx s = .ok out) ∨
    (blockAck &&& bit 32 i = 0 ∧ isSeqAuthValid next.seq next.seqAuth = false ∧
      out = (.inval, next, (s.draw conf ctx.src).2)) ∨
    ∃ data, blockAck &&& bit 32 i = 0 ∧ ppdu = some data ∧
      isSeqAuthValid next.seq next.seqAuth = true ∧
      sendSegs conf ppdu pduLen num blockAck rounds (i + 1) (offset + len)
        (swap24 (segMisc next num i misc).pack) next
        ((s.draw conf ctx.src).2.netSend next
          (segPdu next (segMisc next num i misc) ((data.drop offset).take len))) = .ok out := by
  intro len next
  rw [sendSegs] at h
  dsimp only at h
  by_cases hacked : blockAck &&& bit 32 i ≠ 0
  · rw [if_pos hacked] at h
    exact .inl ⟨hacked, h⟩
  rw [if_neg hacked] at h
  rw [not_not] at hacked
  cases hvalid : isSeqAuthValid next.seq next.seqAuth with
  | false =>
    rw [if_pos (by simpa using hvalid)] at h
    exact .inr (.inl ⟨hacked, rfl, (Except.ok.inj h).symm⟩)
  | true =>
    rw [if_neg (by simpa using hvalid)] at h
    cases ppdu with
    | none => cases h
    | some data =>
      by_cases hlen : 16 < len
      · dsimp only at h
        rw [if_pos hlen] at h
        cases h
      · dsimp only at h
        rw [if_neg hlen] at h
        exact .inr (.inr ⟨data, hacked, rfl, rfl, h⟩)

end Meshx.LowerTransTx
