import Meshx.LowerTransRx
import Meshx.NetIfaces

/-! The send and receive paths of the network layer through its interfaces. A message is filtered
before it is looked whether the interface has a bearer, and one that has never been connected has
no filter either. A PDU that is received is handed to the layers above, which may send messages
before the receive returns. -/
namespace Meshx.Iface

open Lib Security Net

/-- How a send or a receive fails: by the call of a filter that nobody set, in the rest of the
code, or because what is looped back leads to messages that are looped back, and so on. -/
inductive NetFault
  | unsetFilter (netIface : Ptr)
  | fault (f : Fault)
  | tooDeep
  deriving DecidableEq, Repr

def Filter.isSet {α : Type} : Filter α → Bool
  | .raw _ => false
  | .default | .given _ => true

def Filter.accepts {α : Type} (f : Filter α) (netIface : Ptr) (data : α) : Bool :=
  match f with
  | .raw _ => false
  | .default => true
  | .given f => f netIface data

def Filter.call {α : Type} (f : Filter α) (netIface : Ptr) (data : α) : Except NetFault Bool :=
  if f.isSet then .ok (f.accepts netIface data) else .error (.unsetFilter netIface)

def FilterInfo.countReceive (i : FilterInfo) (accepted : Bool) : FilterInfo :=
  { i with
    totalReceive := i.totalReceive + 1
    filteredReceive := if accepted then i.filteredReceive else i.filteredReceive + 1 }

def FilterInfo.countSend (i : FilterInfo) (accepted : Bool) : FilterInfo :=
  { i with
    totalSend := i.totalSend + 1
    filteredSend := if accepted then i.filteredSend else i.filteredSend + 1 }

/-- `meshx_net_iface_ifilter`, with the interface that it counts in. -/
def netIfaceIfilter (p : NetIfaceInfo) : Except NetFault (Bool × NetIfaceInfo) := do
  let accepted ← p.ifilter.call p.addr ()
  return (accepted, { p with filterInfo := p.filterInfo.countReceive accepted })

/-- `meshx_net_iface_ofilter`, with the interface that it counts in. -/
def netIfaceOfilter (p : NetIfaceInfo) (data : OfilterData) :
    Except NetFault (Bool × NetIfaceInfo) := do
  let accepted ← p.ofilter.call p.addr data
  return (accepted, { p with filterInfo := p.filterInfo.countSend accepted })

/-- The interface with its bearer and the answers of its filters instead of pointers to them. -/
def NetIfaceInfo.toNet (p : NetIfaceInfo) (bearerAdv : Bearer) : NetIface where
  id := p.addr
  type := p.type
  bearer :=
    if p.bearer = 0 then none else some (if bearerAdv.type = some .adv then .adv else .gatt)
  ifilter := p.ifilter.accepts p.addr ()
  ofilter src dst := p.ofilter.accepts p.addr ⟨src, dst⟩

@[simp] theorem toNet_type (p : NetIfaceInfo) (bearerAdv : Bearer) :
    (p.toNet bearerAdv).type = p.type := rfl

/-- What `meshx_net_send` is given, with what follows the packed PDU in memory. -/
structure Message where
  ctx : MsgCtx
  transPdu : List Byte
  misc : List Byte

/-- What the layers above do when a PDU is handed to them: they return, they fail, or they send a
message and go on with what came of it. A message that is looped back reaches them again before
they go on, so that their state is handed over with it and taken back. -/
inductive Answer (σ : Type)
  | done (upper : σ) (ret : Errno)
  | failed (f : Fault)
  | send (upper : σ) (msg : Message) (next : σ → Errno → Answer σ)

structure Traced (α : Type) where
  answers : List Message
  out : Except NetFault α

instance : Monad Traced where
  pure a := ⟨[], .ok a⟩
  bind x f :=
    match x.out with
    | .error e => ⟨x.answers, .error e⟩
    | .ok a => ⟨x.answers ++ (f a).answers, (f a).out⟩

def Traced.of {α : Type} (x : Except NetFault α) : Traced α := ⟨[], x⟩

/-- The message that leads to the result is one of the layers above. -/
def Traced.noted {α : Type} (msg : Message) (x : Traced α) : Traced α := ⟨msg :: x.answers, x.out⟩

structure Node (σ : Type) where
  net : NetState
  ifaces : IfaceState
  upper : σ

def Node.setIface {σ : Type} (n : Node σ) (p : NetIfaceInfo) : Node σ :=
  { n with ifaces := Iface.setIface n.ifaces p }

section Paths

variable {σ : Type} (c : Crypto) (bearerRet : NetTx → Errno)
  (upper : σ → MsgCtx → List Byte → Answer σ)

def handUp (send : Node σ → Message → Traced (Node σ × NetSent)) :
    Node σ → Answer σ → Traced (Node σ × Errno)
  | n, .done upper ret => pure ({ n with upper := upper }, ret)
  | _, .failed f => .of (.error (.fault f))
  | n, .send upper msg next => do
    let out ← (send { n with upper := upper } msg).noted msg
    handUp send out.1 (next out.1.upper out.2.ret)

/-- What `meshx_net_receive` comes to: a PDU for this node is handed to the layers above. -/
def handOver (send : Node σ → Message → Traced (Node σ × NetSent)) (n : Node σ) (r : NetResult) :
    Traced (Node σ × Errno × NetResult) :=
  match r with
  | .ret err => pure (n, err, r)
  | .relay _ _ => pure (n, .success, r)
  | .toLower pdu ctx => do
    let (n, ret) ← handUp send n (upper n.upper ctx pdu)
    return (n, ret, r)

/-- `meshx_net_receive` on an interface, over the function that sends. -/
def netReceiveIn (send : Node σ → Message → Traced (Node σ × NetSent)) (n : Node σ)
    (p : NetIfaceInfo) (pdata misc : List Byte) : Traced (Node σ × Errno × NetResult) := do
  let (accepted, p) ← .of (netIfaceIfilter p)
  let n := n.setIface p
  let iface := { p.toNet n.ifaces.bearerAdv with ifilter := accepted }
  let (net, r) ← .of ((Net.netReceive c n.net (some iface) pdata misc).mapError .fault)
  handOver upper send { n with net := net } r

def bearerTx (s : IfaceState) (bytes : List Byte) : NetTx :=
  ⟨if s.bearerAdv.type = some .adv then .adv else .gatt, bytes⟩

/-- `meshx_net_send_to_bearer`, with the interface that it counts in. -/
def netSendToBearer (s : IfaceState) (bytes : List Byte) (data : OfilterData) (p : NetIfaceInfo) :
    Except NetFault (NetSent × NetIfaceInfo) := do
  let (accepted, p) ← netIfaceOfilter p data
  if accepted = false then return (⟨.filter, [], none⟩, p)
  if p.bearer = 0 then return (⟨.connect, [], none⟩, p)
  if p.bearer ≠ bearerAdvPtr then .error (.fault .badRead)
  else return (⟨bearerRet (bearerTx s bytes), [bearerTx s bytes], none⟩, p)

/-- The loop of `meshx_net_send` over the interfaces: whether one was no loopback interface, what
was sent, and the interfaces with what they counted. -/
def netSendEach (s : IfaceState) (bytes : List Byte) (data : OfilterData) :
    List NetIfaceInfo → Except NetFault (Bool × List NetTx × List NetIfaceInfo)
  | [] => .ok (false, [], [])
  | p :: rest =>
    if p.type = .loopback then do
      let (valid, tx, rest) ← netSendEach s bytes data rest
      return (valid, tx, p :: rest)
    else do
      let (sent, p) ← netSendToBearer bearerRet s bytes data p
      let (_, tx, rest) ← netSendEach s bytes data rest
      return (true, sent.tx ++ tx, p :: rest)

section Over

variable (receive : Node σ → NetIfaceInfo → List Byte → List Byte →
  Traced (Node σ × Errno × NetResult))

/-- `meshx_net_loopback` on the first interface, or on what lies around the head of the list when
there is none, over the function that receives. -/
def netLoopback (n : Node σ) (bytes misc : List Byte) (data : OfilterData) :
    Traced (Node σ × NetSent) :=
  match n.ifaces.ifaces with
  | [] => .of (.error (.unsetFilter listHeadPtr))
  | p :: _ => do
    let (accepted, p) ← .of (netIfaceOfilter p data)
    let n := n.setIface p
    if accepted = false then return (n, ⟨.filter, [], none⟩)
    let (n, ret, r) ← receive n p bytes misc
    return (n, ⟨ret, [], some r⟩)

/-- `meshx_net_send` when the PDU is packed. -/
def netSendPacked (n : Node σ) (ctx : MsgCtx) (bytes misc : List Byte) :
    Traced (Node σ × NetSent) :=
  let data : OfilterData := ⟨ctx.src, ctx.dst⟩
  match ctx.netIface with
  | none =>
    if isMyAddress n.net ctx.dst then netLoopback receive n bytes misc data
    else do
      let (valid, tx, ifaces) ← .of (netSendEach bearerRet n.ifaces bytes data n.ifaces.ifaces)
      return ({ n with ifaces := { n.ifaces with ifaces := ifaces } },
        ⟨if valid then .success else .invalNetIface, tx, none⟩)
  | some netIface =>
    match n.ifaces.ifaces.find? (·.addr = netIface) with
    | none => .of (.error (.unsetFilter netIface))
    | some p =>
      if p.type = .loopback then netLoopback receive n bytes misc data
      else do
        let (sent, p) ← .of (netSendToBearer bearerRet n.ifaces bytes data p)
        return (n.setIface p, sent)

def netSendIn (n : Node σ) (msg : Message) : Traced (Node σ × NetSent) :=
  if !netLengthOk msg.transPdu.length msg.ctx.ctl then pure (n, ⟨.length, [], none⟩)
  else
    match msg.ctx.pnetKey with
    | none => .of (.error (.fault .nullDeref))
    | some kv => do
      let bytes ← .of ((netPack c kv msg.ctx msg.transPdu).mapError .fault)
      netSendPacked bearerRet receive n msg.ctx bytes msg.misc

end Over

/-- `meshx_net_receive`, with loopbacks nested to a depth. -/
def netReceive : ℕ → Node σ → NetIfaceInfo → List Byte → List Byte →
    Traced (Node σ × Errno × NetResult)
  | 0, _, _, _, _ => .of (.error .tooDeep)
  | depth + 1, n, p, pdata, misc =>
    netReceiveIn c upper (netSendIn c bearerRet (netReceive depth)) n p pdata misc

def netSend (depth : ℕ) (n : Node σ) (msg : Message) : Traced (Node σ × NetSent) :=
  netSendIn c bearerRet (netReceive c bearerRet upper depth) n msg

/-- `meshx_bearer_adv_receive` for a mesh message. -/
def bearerAdvReceive (depth : ℕ) (n : Node σ) (bearer : Ptr) (pdata misc : List Byte) :
    Traced (Node σ × Errno) := do
  if bearer = 0 then return (n, .inval)
  if bearer ≠ bearerAdvPtr then .of (.error (.fault .badRead))
  else if n.ifaces.bearerAdv.netIface = 0 then return (n, .connect)
  else
    match n.ifaces.ifaces.find? (·.addr = n.ifaces.bearerAdv.netIface) with
    | none => .of (.error (.unsetFilter n.ifaces.bearerAdv.netIface))
    | some p =>
      let (n, ret, _) ← netReceive c bearerRet upper (depth + 1) n p pdata misc
      return (n, ret)

end Paths

/-! The lower transport layer as the layer above. -/

section LowerTrans

open LowerTransTx LowerTransRx

structure LowerTrans where
  rx : Receiver
  tx : Sender

/-- What the lower transport layer meets besides its state: the parameters of the node, what the
platform answers, and the memory behind a PDU that is handed to it and behind one that it sends. -/
structure LowerEnv where
  conf : TxConf
  rxEnv : RxEnv
  txEnv : TxEnv
  rest : ℕ → Byte
  misc : List Byte

/-- The calls of `meshx_net_send` that one step of the sending side has made. -/
def newCalls (tx tx' : Sender) : List NetCall :=
  (tx'.sent.take (tx'.sent.length - tx.sent.length)).reverse

variable (env : LowerEnv)

/-- The messages are sent when the step that made them is done. -/
def sendCalls : List NetCall → LowerTrans → (LowerTrans → Answer LowerTrans) → Answer LowerTrans
  | [], low, next => next low
  | call :: rest, low, next =>
    .send low ⟨call.ctx, call.pdu, env.misc⟩ fun low _ => sendCalls rest low next

/-- A step of the sending side, and what it sends. -/
def sendStep (low : LowerTrans) (tx : Except Fault Sender)
    (next : LowerTrans → Answer LowerTrans) : Answer LowerTrans :=
  match tx with
  | .error f => .failed f
  | .ok tx => sendCalls env (newCalls low.tx tx) { low with tx := tx } next

/-- The calls of a receive one after the other. `meshx_upper_trans_receive` ends in
`meshx_access_receive`, which sends nothing. -/
def carryOut (ret : Errno) : List RxCall → LowerTrans → Answer LowerTrans
  | [], low => .done low ret
  | .segAck blockAck rx :: rest, low =>
    sendStep env low ((·.2) <$> low.tx.segAck env.conf env.txEnv blockAck rx) (carryOut ret rest)
  | .recvBlockAck zero blockAck :: rest, low =>
    sendStep env low (low.tx.recvBlockAck env.conf env.txEnv zero blockAck) (carryOut ret rest)
  | .upperReceive _ _ _ :: rest, low => carryOut ret rest low

/-- `meshx_lower_trans_receive` with what it sends. -/
def lowerTransReceive (low : LowerTrans) (ctx : MsgCtx) (pdu : List Byte) : Answer LowerTrans :=
  match low.rx.receive env.rxEnv (fun i => pdu.getD i (env.rest i)) pdu.length ctx with
  | .error f => .failed f
  | .ok (ret, rx, calls) => carryOut env ret calls { low with rx := rx }

end LowerTrans

end Meshx.Iface
