import Meshx.Lib.Bytes
import Meshx.Common

/-! The proxy protocol over GATT: segmentation of the messages that are sent, and the contexts in
which received segments are put together. Definitions carry the names of `meshx_proxy.c`. -/
namespace Meshx.Proxy

open Lib

/-- The codes that `meshx_proxy_receive` and `meshx_proxy_send` return. -/
inductive Ret
  | success
  | length
  | unexpected
  | mem
  deriving DecidableEq, Repr

inductive Sar
  | completeMsg
  | firstSeg
  | continueSeg
  | lastSeg
  deriving DecidableEq, Repr

def Sar.bits : Sar → BitVec 2
  | .completeMsg => 0
  | .firstSeg => 1
  | .continueSeg => 2
  | .lastSeg => 3

def Sar.ofBits : BitVec 2 → Sar
  | 0 => .completeMsg
  | 1 => .firstSeg
  | 2 => .continueSeg
  | _ => .lastSeg

/-- A buffer with its length, which has sixteen bits. -/
structure Data where
  bytes : List Byte
  lt : bytes.length < 65536

/-- So much of the bytes as a length of sixteen bits tells. -/
def Data.ofBytes (bytes : List Byte) : Data where
  bytes := bytes.take (bytes.length % 65536)
  lt := by
    rw [List.length_take]
    omega

def initPduLen : ℕ := 80

/-- The first byte of `meshx_proxy_pdu_t`. The message type has six bits. -/
def pduHeader (sar : Sar) (msgType : Byte) : Byte := sar.bits ++ msgType.extractLsb' 0 6

def pduSar (pdu : Data) : Sar := .ofBits ((byteAt pdu.bytes 0).extractLsb' 6 2)

def pduMsgType (pdu : Data) : Byte := ((byteAt pdu.bytes 0).extractLsb' 0 6).setWidth 8

section Receive

variable {β : Type}

/-- `meshx_proxy_rx_ctx_t`, with the memory allocated for its data. `dataSum` and `maxSum` are
ghosts: the two lengths as they are without the wrap-around of sixteen bits. -/
structure RxCtx (β : Type) where
  bearer : β
  msgType : Byte
  pdata : List Byte
  dataLen : ℕ
  maxLen : ℕ
  dataSum : ℕ
  maxSum : ℕ
  lt : maxLen < 65536

/-- What the platform answers in a step: whether the allocations, and the creation of the timer,
succeed, and what fresh memory holds. -/
structure World where
  mallocOk : Bool
  heap : ℕ → Byte

def World.malloc (w : World) (n : ℕ) : List Byte := (List.range n).map w.heap

/-- A call of `meshx_proxy_dispatch`. -/
structure Dispatch (β : Type) where
  bearer : β
  msgType : Byte
  pdata : List Byte
  len : ℕ
  deriving DecidableEq, Repr

/-- What a receive comes to. `held` is the context as the data has been copied into it, before
that of a complete message is released. -/
structure Out (β : Type) where
  ret : Ret
  ctxs : List (RxCtx β)
  dispatched : Option (Dispatch β)
  held : Option (RxCtx β)

/-- `meshx_proxy_rx_ctx_request`, and the fields that its caller sets next. -/
def rxCtxRequest (w : World) (bearer : β) (msgType : Byte) (len : ℕ) : Option (RxCtx β) :=
  if w.mallocOk then
    if initPduLen < len then
      some ⟨bearer, msgType, w.malloc (len + initPduLen), 0, (initPduLen + len) % 65536, 0,
        initPduLen + len, Nat.mod_lt _ (by decide)⟩
    else some ⟨bearer, msgType, w.malloc initPduLen, 0, initPduLen, 0, initPduLen, by decide⟩
  else none

/-- `meshx_proxy_rx_ctx_expand`: the data is copied to memory of its own length and more. -/
def rxCtxExpand (w : World) (c : RxCtx β) (len : ℕ) : Except Fault (Option (RxCtx β)) :=
  if w.mallocOk then
    if c.pdata.length < c.dataLen then .error .badRead
    else
      .ok (some { c with
        pdata := splice (w.malloc (c.dataLen + len + initPduLen)) 0 (c.pdata.take c.dataLen)
        maxLen := (c.maxLen + (len + initPduLen)) % 65536
        maxSum := c.maxSum + (len + initPduLen)
        lt := Nat.mod_lt _ (by decide) })
  else .ok none

/-- The data of a PDU is copied behind the data there is. -/
def rxCtxCopy (c : RxCtx β) (data : List Byte) : Except Fault (RxCtx β) :=
  if c.pdata.length < c.dataLen + data.length then .error .badWrite
  else
    .ok { c with
      pdata := splice c.pdata c.dataLen data
      dataLen := (c.dataLen + data.length) % 65536
      dataSum := c.dataSum + data.length }

variable [DecidableEq β] (w : World) (ctxs : List (RxCtx β)) (bearer : β)

def findRxCtx : Option (RxCtx β) := ctxs.find? (·.bearer = bearer)

def rxCtxRelease : List (RxCtx β) := ctxs.eraseP (·.bearer = bearer)

/-- The list with the context of the bearer changed. -/
def setRxCtx (c : RxCtx β) : List (RxCtx β) :=
  ctxs.replaceF fun d => if d.bearer = bearer then some c else none

/-- The call that a complete message leads to. -/
def dispatch (c : RxCtx β) : Dispatch β := ⟨bearer, c.msgType, c.pdata.take c.dataLen, c.dataLen⟩

/-- A PDU that begins a message. -/
def receiveFirst (pdu : Data) : Except Fault (Out β) :=
  match rxCtxRequest w bearer (pduMsgType pdu) pdu.bytes.length with
  | none => .ok ⟨.mem, ctxs, none, none⟩
  | some c => (rxCtxCopy c (pdu.bytes.drop 1)).map fun c => ⟨.success, ctxs ++ [c], none, some c⟩

/-- The context with room for so many bytes. -/
def makeRoom (c : RxCtx β) (len : ℕ) : Except Fault (Option (RxCtx β)) :=
  if c.maxLen < c.dataLen + len then rxCtxExpand w c len else .ok (some c)

/-- The context after another PDU. -/
def stored (pdu : Data) (c : RxCtx β) : Out β :=
  if pduSar pdu = .lastSeg then
    ⟨.success, rxCtxRelease ctxs bearer, some (dispatch bearer c), some c⟩
  else ⟨.success, setRxCtx ctxs bearer c, none, some c⟩

/-- A PDU that goes on with a message. -/
def receiveNext (c : RxCtx β) (pdu : Data) : Except Fault (Out β) :=
  match makeRoom w c (pdu.bytes.drop 1).length with
  | .error f => .error f
  | .ok none => .ok ⟨.mem, rxCtxRelease ctxs bearer, none, none⟩
  | .ok (some c) => (rxCtxCopy c (pdu.bytes.drop 1)).map (stored ctxs bearer pdu)

/-- A PDU that begins a message, or is all of it. -/
def begins (pdu : Data) : Prop := pduSar pdu = .completeMsg ∨ pduSar pdu = .firstSeg

instance (pdu : Data) : Decidable (begins pdu) := inferInstanceAs (Decidable (_ ∨ _))

def receive (pdu : Data) : Except Fault (Out β) :=
  if pdu.bytes.length ≤ 1 then .ok ⟨.length, ctxs, none, none⟩
  else
    match findRxCtx ctxs bearer with
    | none =>
      if begins pdu then receiveFirst w ctxs bearer pdu else .ok ⟨.unexpected, ctxs, none, none⟩
    | some c =>
      if begins pdu then .ok ⟨.unexpected, rxCtxRelease ctxs bearer, none, none⟩
      else if c.msgType ≠ pduMsgType pdu then
        .ok ⟨.unexpected, rxCtxRelease ctxs bearer, none, none⟩
      else receiveNext w ctxs bearer c pdu

end Receive

section Send

/-- What `meshx_bearer_gatt_mtu_get` returns: sixteen bits, and not zero. -/
structure Mtu where
  val : ℕ
  pos : 0 < val
  lt : val < 65536

/-- The characteristic that is notified. -/
inductive CharValueHandle
  | provDataOut
  | proxyDataOut
  deriving DecidableEq, Repr

/-- A call of `meshx_bearer_gatt_send`. -/
structure Notify where
  handle : CharValueHandle
  pdu : Data

def msgTypeProv : Byte := 3

def notify (msgType : Byte) (sar : Sar) (data : List Byte) : Notify where
  handle := if msgType = msgTypeProv then .provDataOut else .proxyDataOut
  pdu := .ofBytes (pduHeader sar msgType :: data)

variable (mtu : Mtu) (msgType : Byte) (data : Data)

def segNum : ℕ := (data.bytes.length / mtu.val + 1) % 65536

def segSar (i : ℕ) : Sar :=
  if i = 0 then .firstSeg else if i + 1 = segNum mtu data then .lastSeg else .continueSeg

/-- The loop of `meshx_proxy_send`: the segments from one on, given how many are left and how
much of the message was sent before. -/
def segments : ℕ → ℕ → ℕ → List Notify
  | 0, _, _ => []
  | left + 1, i, segOffset =>
    let segLen := if i + 1 = segNum mtu data then data.bytes.length - segOffset else mtu.val
    notify msgType (segSar mtu data i) ((data.bytes.drop segOffset).take segLen) ::
      segments left (i + 1) (segOffset + segLen)

def proxySend (mallocOk : Bool) : Ret × List Notify :=
  if mallocOk then
    if data.bytes.length < mtu.val then (.success, [notify msgType .completeMsg data.bytes])
    else (.success, segments mtu msgType data (segNum mtu data) 0 0)
  else (.mem, [])

end Send

end Meshx.Proxy
