import Meshx.TxTimers
import Meshx.RxTimers
import Meshx.Proxy

/-! The queue of asynchronous messages between the expiry of a timer and the handling of the
timeout, for the tasks of the lower transport layer and the contexts of the proxy protocol. A
message of the queue is a pointer. Definitions carry the names of `meshx_async.c`. -/
namespace Meshx.Async

open Lib Segment Replay Sequence IvIndex
open LowerTransTx (Sender TxConf TxEnv)
open LowerTransRx (Receiver RxEnv RxCall RxTimer RxTask Handle Orphan)
open Proxy (RxCtx findRxCtx rxCtxRelease)

/-- `meshx_async_msg_t` with a timeout. The code has the pointer only; the ghost `gen` tells for
which of the messages that were held there the timer was created. -/
inductive AsyncMsg (β : Type)
  | lowerTransTx (id gen : ℕ)
  | lowerTransRxAck (id gen : ℕ)
  | lowerTransRxIncomplete (id gen : ℕ)
  | proxySar (bearer : β) (gen : ℕ)
  | other
  deriving DecidableEq, Repr

/-- The timer of the context that a bearer has. The ghost `gen` counts its contexts. -/
structure SarTimer where
  active : Bool
  gen : ℕ
  deriving DecidableEq, Repr

/-- A node with the two lists of the queue. Of the idle list only the length matters. -/
structure Node (β : Type) where
  tx : Sender
  rx : Receiver
  ctxs : List (RxCtx β)
  sar : β → SarTimer
  asyncActive : List (AsyncMsg β)
  asyncIdle : ℕ

/-- What happens on a node. An expiry comes from the thread of the timers. What other modules do
to the sequence numbers, the IV index and the replay list, and what is received in a message of
the proxy protocol, are events of their own. -/
inductive Event (β : Type)
  | send (env : TxEnv) (pdu : List Byte) (ctx : MsgCtx)
  | receive (rxEnv : RxEnv) (txEnv : TxEnv) (mem : ℕ → Byte) (len : ℕ) (ctx : MsgCtx)
  | proxyReceive (w : Proxy.World) (bearer : β) (pdu : Proxy.Data)
  | elsewhere (seqArray : SeqArray) (iv : Iv)
  | rplClear
  | txExpire (id : ℕ)
  | rxExpire (kind : RxTimer) (id : ℕ)
  | orphanExpire (orphan : Orphan)
  | sarExpire (bearer : β)
  | otherExpire
  | process (env : TxEnv)

def setHandle (t : RxTask) : RxTimer → Handle → RxTask
  | .ack, h => { t with ackTimer := h }
  | .incomplete, h => { t with incompleteTimer := h }

def rxMsg {β : Type} : RxTimer → (id gen : ℕ) → AsyncMsg β
  | .ack, id, gen => .lowerTransRxAck id gen
  | .incomplete, id, gen => .lowerTransRxIncomplete id gen

def txCall (conf : TxConf) (env : TxEnv) (tx : Sender) : RxCall → Except Fault Sender
  | .segAck blockAck ctx => (·.2) <$> tx.segAck conf env blockAck ctx
  | .recvBlockAck zero blockAck => tx.recvBlockAck conf env zero blockAck
  | .upperReceive _ _ _ => .ok tx

def txCalls (conf : TxConf) (env : TxEnv) : List RxCall → Sender → Except Fault Sender
  | [], tx => .ok tx
  | call :: calls, tx => txCall conf env tx call >>= txCalls conf env calls

def sarAfter {β : Type} (before after : Option (RxCtx β)) (t : SarTimer) : SarTimer :=
  match before, after with
  | none, some _ => ⟨true, t.gen + 1⟩
  | some _, none => ⟨false, t.gen⟩
  | none, none | some _, some _ => t

namespace Node

variable {β : Type}

def init (elementNum txTaskNum rplSize rxTaskNum msgMaxNum : ℕ) (ivIndex : BitVec 32) : Node β where
  tx := .init elementNum txTaskNum ivIndex
  rx := .init rplSize rxTaskNum
  ctxs := []
  sar _ := ⟨false, 0⟩
  asyncActive := []
  asyncIdle := msgMaxNum

/-- `meshx_async_msg_send`. The application is notified, and processes the message later. -/
def asyncMsgSend (n : Node β) (msg : AsyncMsg β) : Node β :=
  if n.asyncIdle = 0 then n
  else { n with asyncActive := n.asyncActive ++ [msg], asyncIdle := n.asyncIdle - 1 }

/-- The timer of a sending task expires, if it is running: it stops, and a message is sent. -/
def txExpire (n : Node β) (id : ℕ) : Node β :=
  match (n.tx.task id).retryTimer with
  | some ⟨true, gen⟩ =>
    asyncMsgSend
      { n with tx := n.tx.setTask id { n.tx.task id with retryTimer := some ⟨false, gen⟩ } }
      (.lowerTransTx id gen)
  | some ⟨false, _⟩ | none => n

def rxExpire (n : Node β) (kind : RxTimer) (id : ℕ) : Node β :=
  match (n.rx.task id).handle kind with
  | .timer ⟨true, gen⟩ =>
    asyncMsgSend
      { n with rx := n.rx.setTask id (setHandle (n.rx.task id) kind (.timer ⟨false, gen⟩)) }
      (rxMsg kind id gen)
  | .timer ⟨false, _⟩ | .null | .dangling => n

/-- A timer expires that no field holds any more. Nothing will start it again. -/
def orphanExpire (n : Node β) (o : Orphan) : Node β :=
  if n.rx.orphans.contains o && o.timer.active then
    asyncMsgSend { n with rx := { n.rx with orphans := n.rx.orphans.erase o } }
      (rxMsg o.kind o.id o.timer.gen)
  else n

variable [DecidableEq β]

def sarExpire (n : Node β) (bearer : β) : Node β :=
  if (findRxCtx n.ctxs bearer).isSome && (n.sar bearer).active then
    asyncMsgSend
      { n with sar := Function.update n.sar bearer ⟨false, (n.sar bearer).gen⟩ }
      (.proxySar bearer (n.sar bearer).gen)
  else n

/-- `meshx_proxy_receive`. -/
def proxyReceive (n : Node β) (w : Proxy.World) (bearer : β) (pdu : Proxy.Data) :
    Except Fault (Node β) := do
  let out ← Proxy.receive w n.ctxs bearer pdu
  return { n with
    ctxs := out.ctxs
    sar := Function.update n.sar bearer
      (sarAfter (findRxCtx n.ctxs bearer) (findRxCtx out.ctxs bearer) (n.sar bearer)) }

/-- The bearer has a context, and it is the one with this number. -/
def sarLive (n : Node β) (bearer : β) (gen : ℕ) : Bool :=
  (findRxCtx n.ctxs bearer).isSome && (n.sar bearer).gen == gen

/-- `meshx_proxy_async_handle_sar_timeout`; the memory of a context that was released is free. -/
def handleSarTimeout (n : Node β) (bearer : β) (gen : ℕ) : Except Fault (Node β) :=
  if n.sarLive bearer gen then
    .ok { n with
      ctxs := rxCtxRelease n.ctxs bearer
      sar := Function.update n.sar bearer ⟨false, gen⟩ }
  else .error .useAfterFree

/-- The handlers that `meshx_async_msg_process` calls. -/
def handle (conf : TxConf) (env : TxEnv) (n : Node β) : AsyncMsg β → Except Fault (Node β)
  | .lowerTransTx id _ => do
    let tx ← n.tx.handleTxTimeout conf env id
    return { n with tx := tx }
  | .lowerTransRxAck id _ => do
    let tx ← txCall conf env n.tx (n.rx.handleRxAckTimeout id)
    return { n with tx := tx }
  | .lowerTransRxIncomplete id _ => do
    let rx ← n.rx.handleRxIncompleteTimeout id
    return { n with rx := rx }
  | .proxySar bearer gen => n.handleSarTimeout bearer gen
  | .other => .ok n

def popped (n : Node β) : Node β :=
  { n with asyncActive := n.asyncActive.tail, asyncIdle := n.asyncIdle + 1 }

/-- `meshx_async_msg_process`. -/
def asyncMsgProcess (conf : TxConf) (env : TxEnv) (n : Node β) : Except Fault (Node β) :=
  match n.asyncActive with
  | [] => .ok n
  | msg :: _ => n.popped.handle conf env msg

/-- `meshx_lower_trans_receive`, with what it calls on the sending side. -/
def receive (conf : TxConf) (rxEnv : RxEnv) (txEnv : TxEnv) (n : Node β) (mem : ℕ → Byte)
    (len : ℕ) (ctx : MsgCtx) : Except Fault (Node β) := do
  let (_, rx, calls) ← n.rx.receive rxEnv mem len ctx
  let tx ← txCalls conf txEnv calls n.tx
  return { n with rx := rx, tx := tx }

end Node

variable {β : Type} [DecidableEq β]

def step (conf : TxConf) (n : Node β) : Event β → Except Fault (Node β)
  | .send env pdu ctx => do
    let (_, tx) ← n.tx.lowerTransSend conf env pdu ctx
    return { n with tx := tx }
  | .receive rxEnv txEnv mem len ctx => n.receive conf rxEnv txEnv mem len ctx
  | .proxyReceive w bearer pdu => n.proxyReceive w bearer pdu
  | .elsewhere seqArray iv => .ok { n with tx := { n.tx with seqArray := seqArray, iv := iv } }
  | .rplClear => .ok { n with rx := { n.rx with rpl := Replay.rplClear n.rx.rpl } }
  | .txExpire id => .ok (n.txExpire id)
  | .rxExpire kind id => .ok (n.rxExpire kind id)
  | .orphanExpire o => .ok (n.orphanExpire o)
  | .sarExpire bearer => .ok (n.sarExpire bearer)
  | .otherExpire => .ok (n.asyncMsgSend .other)
  | .process env => n.asyncMsgProcess conf env

/-- A PDU ends the context of its bearer: it can not go on with it, finds no memory for its data, or
is the last one. -/
def ctxEnds (w : Proxy.World) (ctxs : List (RxCtx β)) (bearer : β) (pdu : Proxy.Data) : Bool :=
  1 < pdu.bytes.length && (findRxCtx ctxs bearer).any fun c =>
    Proxy.begins pdu || c.msgType != Proxy.pduMsgType pdu || Proxy.pduSar pdu == .lastSeg ||
      (c.maxLen < c.dataLen + (pdu.bytes.length - 1) && !w.mallocOk)

namespace Node

/-- The task or context that a timeout names is in use, for the message whose timer expired. -/
def Live (n : Node β) : AsyncMsg β → Prop
  | .lowerTransTx id gen => id ∈ n.tx.active ∧ (n.tx.task id).gen = gen
  | .lowerTransRxAck id gen | .lowerTransRxIncomplete id gen =>
    id ∈ n.rx.active ∧ (n.rx.task id).gen = gen
  | .proxySar bearer gen => n.sarLive bearer gen = true
  | .other => True

def txEnds (conf : TxConf) (n : Node β) : Event β → Option ℕ
  | .receive _ env mem _ ctx =>
    if ctx.ctl && (mem 0).extractLsb' 0 7 == 0 && n.rx.rplChecked ctx == some true then
      n.tx.ackEnds conf env ((mem 1 ++ mem 2).extractLsb' 2 13) (mem 3 ++ mem 4 ++ mem 5 ++ mem 6)
    else none
  | .process env =>
    match n.asyncActive with
    | .lowerTransTx id _ :: _ => n.tx.timeoutEnds conf env id
    | _ => none
  | _ => none

def rxEnds (n : Node β) : Event β → Option ℕ
  | .receive _ _ mem _ ctx => n.rx.receiveEnds mem ctx
  | .process _ =>
    match n.asyncActive with
    | .lowerTransRxIncomplete id _ :: _ => some id
    | _ => none
  | _ => none

def sarEnds (n : Node β) : Event β → Option β
  | .proxyReceive w bearer pdu => if ctxEnds w n.ctxs bearer pdu then some bearer else none
  | .process _ =>
    match n.asyncActive with
    | .proxySar bearer _ :: _ => some bearer
    | _ => none
  | _ => none

def waiting (n : Node β) : Event β → List (AsyncMsg β)
  | .process _ => n.asyncActive.tail
  | _ => n.asyncActive

/-- An event ends no message of which a timeout waits for its handling. -/
def Spares (conf : TxConf) (n : Node β) (e : Event β) : AsyncMsg β → Prop
  | .lowerTransTx id _ => n.txEnds conf e ≠ some id
  | .lowerTransRxAck id _ | .lowerTransRxIncomplete id _ => n.rxEnds e ≠ some id
  | .proxySar bearer _ => n.sarEnds e ≠ some bearer
  | .other => True

instance (conf : TxConf) (n : Node β) (e : Event β) (msg : AsyncMsg β) :
    Decidable (n.Spares conf e msg) :=
  match msg with
  | .lowerTransTx _ _ => inferInstanceAs (Decidable (_ ≠ _))
  | .lowerTransRxAck _ _ => inferInstanceAs (Decidable (_ ≠ _))
  | .lowerTransRxIncomplete _ _ => inferInstanceAs (Decidable (_ ≠ _))
  | .proxySar _ _ => inferInstanceAs (Decidable (_ ≠ _))
  | .other => isTrue trivial

def running : Handle → Bool
  | .timer t => t.active
  | .null | .dangling => false

/-- A timer that sends a message when it expires is one of a message that is in use, not one that
was left running when its message was superseded. -/
def Owned (n : Node β) : Event β → Prop
  | .rxExpire kind id =>
    running ((n.rx.task id).handle kind) = true → n.asyncIdle ≠ 0 → id ∈ n.rx.active
  | .orphanExpire o => n.rx.orphans.contains o = true → o.timer.active = true → n.asyncIdle = 0
  | _ => True

instance (n : Node β) (e : Event β) : Decidable (n.Owned e) :=
  match e with
  | .rxExpire _ _ => inferInstanceAs (Decidable (_ → _))
  | .orphanExpire _ => inferInstanceAs (Decidable (_ → _))
  | .send _ _ _ | .receive _ _ _ _ _ | .proxyReceive _ _ _ | .elsewhere _ _ | .rplClear
  | .txExpire _ | .sarExpire _ | .otherExpire | .process _ => isTrue trivial

end Node

/-- No timer of a superseded message expires, and no event ends a message of which a timeout waits
for its handling. -/
def Undisturbed (conf : TxConf) (n : Node β) (e : Event β) : Prop :=
  n.Owned e ∧ ∀ msg ∈ n.waiting e, n.Spares conf e msg

instance (conf : TxConf) (n : Node β) (e : Event β) : Decidable (Undisturbed conf n e) :=
  inferInstanceAs (Decidable (_ ∧ _))

/-- A timeout that is handled is one of a message that is in use, or changes nothing. -/
def Harmless (conf : TxConf) (n : Node β) : Event β → Prop
  | .process env => ∀ msg ∈ n.asyncActive.head?, n.Live msg ∨
      n.asyncMsgProcess conf env = .ok n.popped
  | _ => True

end Meshx.Async
