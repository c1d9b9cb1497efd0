import Meshx.LowerTransTx
import Meshx.Net
import Meshx.Rpl

/-! The receiving side of the lower transport layer: reassembly tasks with their timers,
segmented and unsegmented messages, and the replay list they are checked against. Definitions
carry the names of `meshx_lower_trans.c`. -/
namespace Meshx.LowerTransRx

open Lib Segment Replay IvIndex
open LowerTransTx (Timer)

/-- What a field of type `meshx_timer_t` holds; a timer that was deleted may still be in it. -/
inductive Handle
  | null
  | timer (t : Timer)
  | dangling
  deriving DecidableEq, Repr

def Handle.delete : Handle → Except Fault Unit
  | .dangling => .error .useAfterFree
  | .null | .timer _ => .ok ()

/-- `meshx_timer_start` and `meshx_timer_restart`. -/
def Handle.start : Handle → Except Fault Handle
  | .dangling => .error .useAfterFree
  | .null => .ok .null
  | .timer t => .ok (.timer { t with active := true })

inductive RxTimer
  | ack
  | incomplete
  deriving DecidableEq, Repr

/-- A timer whose only handle has been overwritten. It still names the task. -/
structure Orphan where
  kind : RxTimer
  id : ℕ
  timer : Timer
  deriving DecidableEq, Repr

/-- `meshx_lower_trans_rx_task_t`. The ghost `gen` counts the messages the task has held. -/
structure RxTask where
  ctx : MsgCtx
  ppdu : Option (List Byte)
  pduLen : ℕ
  maxPduLen : ℕ
  notReceivedSeg : BitVec 32
  blockAck : BitVec 32
  ackTimer : Handle
  incompleteTimer : Handle
  gen : ℕ

/-- A task after `meshx_lower_trans_init`. -/
def RxTask.zero : RxTask := ⟨.zero, none, 0, 0, 0, 0, .null, .null, 0⟩

structure Receiver where
  rpl : Rpl
  task : ℕ → RxTask
  idle : List ℕ
  active : List ℕ
  orphans : List Orphan

def Receiver.init (rplSize taskNum : ℕ) : Receiver where
  rpl := rplInit rplSize
  task _ := .zero
  idle := List.range taskNum
  active := []
  orphans := []

/-- What the platform answers during one receive, and what fresh memory holds. -/
structure RxEnv where
  ackTimerOk : Bool
  incompleteTimerOk : Bool
  mallocOk : Bool
  heap : ℕ → Byte

/-- The calls that receiving makes to the sending side and to the upper layer. The upper
layer gets a buffer and the length to read from it. -/
inductive RxCall
  | segAck (blockAck : BitVec 32) (ctx : MsgCtx)
  | recvBlockAck (zero : BitVec 13) (blockAck : BitVec 32)
  | upperReceive (buf : List Byte) (pduLen : ℕ) (ctx : MsgCtx)
  deriving DecidableEq

def memBytes (mem : ℕ → Byte) (offset n : ℕ) : List Byte :=
  (List.range n).map fun i => mem (offset + i)

/-- The header of a received segment, its first and last byte swapped. -/
def rxMisc (mem : ℕ → Byte) : SegMisc := .unpack (mem 1 ++ mem 2 ++ mem 3)

def segCtx (mem : ℕ → Byte) (ctx : MsgCtx) : MsgCtx :=
  { ctx with
    seqAuth := seqAuthOf (rxMisc mem).seqZero ctx.seq
    info :=
      if ctx.ctl then ((mem 0).extractLsb' 0 7).setWidth 8
      else MsgCtx.accessInfo ((mem 0).getLsbD 6) (rxMisc mem).top ((mem 0).extractLsb' 0 6) }

def rxMaxPduLen (mem : ℕ → Byte) (ctl : Bool) : ℕ := ((rxMisc mem).segn.toNat + 1) * segSize ctl

def lowerTransSeqAuth (ctx : MsgCtx) : ℕ := ctx.ivIndex.toNat * 2 ^ 24 + ctx.seqAuth.toNat

def rplOf (ctx : MsgCtx) : RplEntry := ⟨ctx.src, ctx.seq.setWidth 32, ctx.ivIndex⟩

def mismatch (stored ctx : MsgCtx) : Bool :=
  if ctx.ctl then stored.opcode != ctx.opcode
  else stored.akf != ctx.akf || stored.aid != ctx.aid || stored.szmic != ctx.szmic

namespace Receiver

def setTask (r : Receiver) (id : ℕ) (t : RxTask) : Receiver :=
  { r with task := Function.update r.task id t }

def findTask (r : Receiver) (src : BitVec 16) : Option ℕ :=
  r.active.find? fun id => (r.task id).ctx.src = src

/-- `meshx_timer_create` for a timer of a task: what the field held before is lost. -/
def leave (r : Receiver) (kind : RxTimer) (id : ℕ) (old : Handle) : Receiver :=
  match old with
  | .timer t => { r with orphans := ⟨kind, id, t⟩ :: r.orphans }
  | .null | .dangling => r

/-- The supersede path of `meshx_lower_trans_rx_task_request`. The timers stay. -/
def cancel (r : Receiver) (id : ℕ) : Receiver :=
  { r with
    idle := r.idle ++ [id]
    active := r.active.erase id
    task := Function.update r.task id { r.task id with ppdu := none } }

/-- The fields that a new message is given. The segment flags are added to those that the
task has from the message before. -/
def fillTask (t : RxTask) (env : RxEnv) (maxPduLen : ℕ) (ctx : MsgCtx) : RxTask :=
  { t with
    ctx := ctx
    ppdu := some (memBytes env.heap 0 maxPduLen)
    maxPduLen := maxPduLen
    notReceivedSeg := setBits t.notReceivedSeg (maxPduLen / segSize ctx.ctl)
    blockAck := 0
    ackTimer := .timer ⟨false, t.gen + 1⟩
    incompleteTimer := .timer ⟨false, t.gen + 1⟩
    gen := t.gen + 1 }

/-- `meshx_lower_trans_rx_task_request` from its label `NEW_SEG_MSG` on. -/
def newTask (r : Receiver) (env : RxEnv) (maxPduLen : ℕ) (ctx : MsgCtx) :
    Receiver × Option ℕ :=
  match r.idle with
  | [] => (r, none)
  | id :: idle =>
    let t := r.task id
    let back := { r with idle := idle ++ [id] }
    if !env.ackTimerOk then (back, none)
    else
      let back := back.leave .ack id t.ackTimer
      if !env.incompleteTimerOk then (back.setTask id { t with ackTimer := .dangling }, none)
      else
        let back := back.leave .incomplete id t.incompleteTimer
        if !env.mallocOk then
          (back.setTask id
            { t with ppdu := none, ackTimer := .dangling, incompleteTimer := .dangling }, none)
        else
          ({ back with idle := idle, active := r.active ++ [id] }.setTask id
            (fillTask t env maxPduLen ctx), some id)

def request (r : Receiver) (env : RxEnv) (maxPduLen : ℕ) (ctx : MsgCtx) : Receiver × Option ℕ :=
  match r.findTask ctx.src with
  | none => r.newTask env maxPduLen ctx
  | some id =>
    let stored := lowerTransSeqAuth (r.task id).ctx
    if stored < lowerTransSeqAuth ctx then (r.cancel id).newTask env maxPduLen ctx
    else if lowerTransSeqAuth ctx = stored then (r, some id)
    else (r, none)

def released (r : Receiver) (id : ℕ) : Receiver :=
  { r with
    idle := r.idle.erase id ++ [id]
    active := r.active.erase id
    task := Function.update r.task id
      { r.task id with ackTimer := .null, incompleteTimer := .null, ppdu := none } }

def release (r : Receiver) (id : ℕ) : Except Fault Receiver :=
  if id ∈ r.idle ∨ id ∈ r.active then do
    (r.task id).ackTimer.delete
    (r.task id).incompleteTimer.delete
    return r.released id
  else .error .assertFailed

abbrev Outcome := Except Fault (Errno × Receiver × List RxCall)

/-- The message can not be received: an ack of no segment, and the task is released. -/
def refuse (r : Receiver) (id : ℕ) (err : Errno) (ctx : MsgCtx) : Outcome := do
  let r ← r.release id
  return (err, r, [.segAck 0 ctx])

/-- The end of a message: its ack, its timers and the call of `meshx_upper_trans_receive`. -/
def complete (r : Receiver) (id : ℕ) (ctx : MsgCtx) : Outcome := do
  let t := r.task id
  t.ackTimer.delete
  let incomplete ← t.incompleteTimer.start
  let t := { t with ackTimer := .null, incompleteTimer := incomplete }
  let some buf := t.ppdu | .error .nullDeref
  return (.success, r.setTask id t,
    [.segAck t.blockAck ctx, .upperReceive buf t.pduLen { ctx with seg := true }])

def writePdu (r : Receiver) (id offset n : ℕ) (mem : ℕ → Byte) : Except Fault Receiver :=
  match (r.task id).ppdu with
  | none => .error .nullDeref
  | some buf =>
    if n ≠ 0 ∧ buf.length < offset + n then .error .badWrite
    else .ok (r.setTask id { r.task id with ppdu := some (splice buf offset (memBytes mem 4 n)) })

def checked (r : Receiver) (id : ℕ) (ctx : MsgCtx) : Outcome := do
  let (ok, rpl) ← lowerTransRplCheck r.rpl (rplOf ctx)
  let r := { r with rpl := rpl }
  if ok then r.complete id ctx else r.refuse id .fail ctx

/-- A message of one segment; its length has 16 bits. -/
def receiveSingle (r : Receiver) (id : ℕ) (mem : ℕ → Byte) (len : ℕ) (ctx : MsgCtx) : Outcome := do
  let (ok, rpl) ← lowerTransRplCheck r.rpl (rplOf ctx)
  let r := { r with rpl := rpl }
  if !ok then r.refuse id .fail ctx
  else
    let n := (len + 65536 - 4) % 65536
    let r ← r.writePdu id 0 n mem
    let r := r.setTask id { r.task id with notReceivedSeg := 0, blockAck := 1, pduLen := n }
    r.complete id ctx

/-- The length of the data in a segment of several, which has eight bits. -/
def rxSegLen (mem : ℕ → Byte) (len : ℕ) (ctl : Bool) : ℕ :=
  if (rxMisc mem).sego = (rxMisc mem).segn then (len + 256 - 4) % 256 else segSize ctl

def storeTask (t : RxTask) (sego segLen : ℕ) : RxTask :=
  { t with
    notReceivedSeg := t.notReceivedSeg &&& ~~~bit 32 sego
    blockAck := t.blockAck ||| bit 32 sego
    pduLen := (t.pduLen + segLen) % 65536 }

/-- More segments are to come: the ack timer runs, the other one runs anew. -/
def await (r : Receiver) (id : ℕ) : Outcome := do
  let t := r.task id
  let ack ← t.ackTimer.start
  let incomplete ← t.incompleteTimer.start
  return (.success, r.setTask id { t with ackTimer := ack, incompleteTimer := incomplete }, [])

def receiveMulti (r : Receiver) (id : ℕ) (mem : ℕ → Byte) (len : ℕ) (ctx : MsgCtx) : Outcome := do
  let sego := (rxMisc mem).sego.toNat
  let segLen := rxSegLen mem len ctx.ctl
  let r ← r.writePdu id (sego * segSize ctx.ctl) segLen mem
  let r := r.setTask id (storeTask (r.task id) sego segLen)
  if (r.task id).notReceivedSeg = 0 then r.checked id ctx else r.await id

def receiveFor (r : Receiver) (id : ℕ) (mem : ℕ → Byte) (len : ℕ) (ctx : MsgCtx) : Outcome :=
  let t := r.task id
  if mismatch t.ctx ctx then r.refuse id .inval ctx
  else if t.maxPduLen ≠ rxMaxPduLen mem ctx.ctl then r.refuse id .length ctx
  else if t.notReceivedSeg = 0 then do
    let (_, rpl) ← rplUpdate r.rpl (rplOf ctx)
    return (.already, { r with rpl := rpl }, [.segAck t.blockAck ctx])
  else if t.notReceivedSeg &&& bit 32 (rxMisc mem).sego.toNat = 0 then .ok (.already, r, [])
  else if (rxMisc mem).segn = 0 then r.receiveSingle id mem len ctx
  else r.receiveMulti id mem len ctx

def receiveSegMsg (r : Receiver) (env : RxEnv) (mem : ℕ → Byte) (len : ℕ) (ctx : MsgCtx) :
    Outcome :=
  let ctx := segCtx mem ctx
  match r.request env (rxMaxPduLen mem ctx.ctl) ctx with
  | (r, none) => .ok (.busy, r, [.segAck 0 ctx])
  | (r, some id) => r.receiveFor id mem len ctx

def receiveUnseg (r : Receiver) (call : RxCall) (ctx : MsgCtx) : Outcome := do
  let (ok, rpl) ← lowerTransRplCheck r.rpl (rplOf ctx)
  let r := { r with rpl := rpl }
  if ok then return (.success, r, [call]) else return (.fail, r, [])

/-- The call of `meshx_upper_trans_receive` for an unsegmented message. -/
def unsegCall (mem : ℕ → Byte) (len : ℕ) (ctx : MsgCtx) : RxCall :=
  let n := (len + 256 - 1) % 256
  .upperReceive (memBytes mem 1 n) n
    { ctx with
      seg := false
      seqAuth := ctx.seq
      info :=
        if ctx.ctl then ((mem 0).extractLsb' 0 7).setWidth 8
        else MsgCtx.accessInfo ((mem 0).getLsbD 6) false ((mem 0).extractLsb' 0 6) }

/-- The call for a segment ack, whose bytes it puts in order. -/
def ackCall (mem : ℕ → Byte) : RxCall :=
  .recvBlockAck ((mem 1 ++ mem 2).extractLsb' 2 13) (mem 3 ++ mem 4 ++ mem 5 ++ mem 6)

/-- `meshx_lower_trans_receive`. A control PDU with opcode zero is an ack, whether or not its
segment bit is set. -/
def receive (r : Receiver) (env : RxEnv) (mem : ℕ → Byte) (len : ℕ) (ctx : MsgCtx) : Outcome :=
  if ctx.ctl && (mem 0).extractLsb' 0 7 == 0 then r.receiveUnseg (ackCall mem) ctx
  else if (mem 0).msb then r.receiveSegMsg env mem len ctx
  else r.receiveUnseg (unsegCall mem len ctx) ctx

def handleRxAckTimeout (r : Receiver) (id : ℕ) : RxCall :=
  .segAck (r.task id).blockAck (r.task id).ctx

def handleRxIncompleteTimeout (r : Receiver) (id : ℕ) : Except Fault Receiver := r.release id

end Receiver

/-- The receiving side with the IV index, and the calls made so far, the last one first. -/
structure Rx where
  iv : Iv
  rx : Receiver
  calls : List RxCall

def Rx.init (rplSize taskNum : ℕ) (ivIndex : BitVec 32) : Rx :=
  ⟨.init ivIndex, .init rplSize taskNum, []⟩

/-- What happens on the receiving side. `receive` is a PDU that the network layer has
authenticated with the IV index that goes with its IVI bit. In the steps of the IV index,
`busy` is the state of the sending side. -/
inductive RxEvent
  | receive (env : RxEnv) (mem : ℕ → Byte) (len : ℕ) (ctx : MsgCtx) (ivi : Bool)
  | ackTimeout (id : ℕ)
  | incompleteTimeout (id : ℕ)
  | ivUpdate (ivIndex : BitVec 32) (state : IvState) (busy : Bool)
  | ivTick (busy : Bool)
  | ivTestMode (flag : Bool)
  | ivOperateTime (time : BitVec 32)
  | sendFinished

def netCtx (iv : Iv) (ctx : MsgCtx) (ivi : Bool) : MsgCtx :=
  { ctx with ivIndex := Net.rxIvIndex iv.ivIndex ivi }

def Rx.ivMoved (s : Rx) (iv : Iv) (clear : Bool) : Rx :=
  { s with iv := iv, rx := if clear then { s.rx with rpl := rplClear s.rx.rpl } else s.rx }

/-- One event on the receiving side. The network layer drops a PDU whose source or
destination is no valid address. -/
def rxStep (s : Rx) : RxEvent → Except Fault Rx
  | .receive env mem len ctx ivi =>
    if !addressIsValid ctx.src || !addressIsValid ctx.dst then .ok s
    else do
      let (_, rx, calls) ← s.rx.receive env mem len (netCtx s.iv ctx ivi)
      return { s with rx := rx, calls := calls.reverse ++ s.calls }
  | .ackTimeout id => .ok { s with calls := s.rx.handleRxAckTimeout id :: s.calls }
  | .incompleteTimeout id => do
    let rx ← s.rx.handleRxIncompleteTimeout id
    return { s with rx := rx }
  | .ivUpdate ivIndex state busy =>
    let (_, iv, clear) := ivIndexUpdate s.iv ivIndex state busy
    .ok (s.ivMoved iv clear)
  | .ivTick busy =>
    let (iv, clear) := ivTick s.iv busy
    .ok (s.ivMoved iv clear)
  | .ivTestMode flag => .ok { s with iv := { s.iv with testMode := flag } }
  | .ivOperateTime time => .ok { s with iv := { s.iv with tickTime := time / 1200 } }
  | .sendFinished => .ok { s with iv := ivPendingNormal s.iv }

end Meshx.LowerTransRx
