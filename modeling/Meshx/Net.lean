import Meshx.Security

/-! The network layer: the PDU with its obfuscated header and encrypted body, the message
cache, trial decryption over the net keys, and the send and receive paths. The lower
transport layer is called last, so a receive ends in the arguments of that call. Definitions
carry the names of `meshx_net.c`. -/
namespace Meshx.Net

open Lib AesCcm Security

/-- `meshx_net_pdu_t`: the byte with IVI and NID, the six obfuscated bytes (ctl and ttl,
seq, src) and the 22 encrypted ones (dst and transport PDU with its MIC). -/
@[ext] structure NetPdu where
  head : Byte
  hidden : List Byte
  body : List Byte
  hidden_length : hidden.length = 6
  body_length : body.length = 22

namespace NetPdu

variable (p : NetPdu)

def nid : BitVec 7 := p.head.extractLsb' 0 7

def ivi : Bool := p.head.msb

def ttl : BitVec 7 := (byteAt p.hidden 0).extractLsb' 0 7

def ctl : Bool := (byteAt p.hidden 0).msb

def seq : BitVec 24 := readBe24 (p.hidden.drop 1)

def src : BitVec 16 := readBe16 (p.hidden.drop 4)

def dst : BitVec 16 := readBe16 p.body

/-- The transport PDU bytes after the destination. -/
def pdu : List Byte := p.body.drop 2

def bytes : List Byte := p.head :: p.hidden ++ p.body

/-- The copy `*(const meshx_net_pdu_t *)pdata` takes 29 bytes whatever the length of the
received data: past its end it takes what memory holds there, `misc`. -/
def copy (pdata misc : List Byte) : NetPdu :=
  let m := pdata ++ misc ++ List.replicate 29 0
  { head := m.headD 0
    hidden := (m.drop 1).take 6
    body := (m.drop 7).take 22
    hidden_length := by simp [m]; omega
    body_length := by simp [m]; omega }

end NetPdu

def micLen (ctl : Bool) : ℕ := if ctl then 8 else 4

/-- `meshx_net_nonce_t` as filled from the plain header. -/
def netNonce (p : NetPdu) (ivIndex : BitVec 32) : List Byte :=
  0 :: p.hidden ++ [0, 0] ++ be32 ivIndex

/-- The mask that `meshx_net_obfuscation` computes from the encrypted body. -/
def pecb (c : Crypto) (p : NetPdu) (ivIndex : BitVec 32) (kv : NetKeyValue) : List Byte :=
  c.aes.encrypt kv.privacyKey (List.replicate 5 0 ++ be32 ivIndex ++ p.body.take 7)

theorem pecb_length (c : Crypto) (p : NetPdu) (ivIndex : BitVec 32) (kv : NetKeyValue) :
    (pecb c p ivIndex kv).length = 16 := c.aes.encrypt_length _ _

/-- `meshx_net_obfuscation`: mask the six header bytes. -/
def netObfuscation (c : Crypto) (p : NetPdu) (ivIndex : BitVec 32) (kv : NetKeyValue) :
    NetPdu :=
  { p with
    hidden := xorBytes p.hidden (pecb c p ivIndex kv)
    hidden_length := by simp [p.hidden_length, pecb_length] }

def writeBody (p : NetPdu) (src : List Byte) : Except Fault NetPdu :=
  if h : src.length ≤ 22 then
    .ok { p with
      body := splice p.body 0 src
      body_length := by rw [splice_length (by rw [p.body_length]; omega), p.body_length] }
  else .error .badWrite

/-- `meshx_net_encrypt`: destination and transport PDU in place, the MIC behind them. -/
def netEncrypt (c : Crypto) (p : NetPdu) (transPduLen : ℕ) (ivIndex : BitVec 32)
    (kv : NetKeyValue) : Except Fault NetPdu :=
  let out := c.aead.encrypt kv.encryptionKey (netNonce p ivIndex)
    (p.body.take (2 + transPduLen)) (micLen p.ctl)
  writeBody p (out.1 ++ out.2)

/-- `meshx_net_decrypt`: whether the MIC is right, and the PDU with the body decrypted in
place. A wrong MIC leaves the decrypted bytes in place all the same. -/
def netDecrypt (c : Crypto) (p : NetPdu) (transPduLen : ℕ) (ivIndex : BitVec 32)
    (kv : NetKeyValue) : Except Fault (Bool × NetPdu) :=
  if 22 < 2 + transPduLen + micLen p.ctl then .error .badRead
  else do
    let out := c.aead.decrypt kv.encryptionKey (netNonce p ivIndex)
      (p.body.take (2 + transPduLen)) ((p.body.drop (2 + transPduLen)).take (micLen p.ctl))
    let p ← writeBody p out.2
    return (out.1, p)

/-- The copy after an attempt with one key value, and the length the attempt computed. -/
structure Decoded where
  keyValue : NetKeyValue
  pdu : NetPdu
  transPduLen : ℕ

/-- The body of the key loop for one key value whose NID matches: restore the header,
compute the length of the transport PDU from it and decrypt. The length is a `uint8_t`. -/
def tryKeyValue (c : Crypto) (len : ℕ) (ivIndex : BitVec 32) (kv : NetKeyValue) (p : NetPdu) :
    Except Fault (Bool × Decoded) := do
  let p := netObfuscation c p ivIndex kv
  let transPduLen := (len + 512 - 9 - micLen p.ctl) % 256
  let (ok, p) ← netDecrypt c p transPduLen ivIndex kv
  return (ok, ⟨kv, p, transPduLen⟩)

/-- The key values the loop of `meshx_net_receive` looks at for one key. -/
def usableValues (key : NetKey) : List NetKeyValue :=
  match key.keyState with
  | .normal => [key.keyValue0]
  | .phase1 | .phase2 => [key.keyValue0, key.keyValue1]

/-- The loop itself. Every value with the NID of the PDU works on the one local copy. -/
def tryKeyValues (c : Crypto) (len : ℕ) (ivIndex : BitVec 32) :
    List NetKeyValue → NetPdu → Except Fault (Option Decoded)
  | [], _ => .ok none
  | kv :: kvs, p =>
    if kv.nid = p.nid then do
      let (ok, d) ← tryKeyValue c len ivIndex kv p
      if ok then return some d else tryKeyValues c len ivIndex kvs d.pdu
    else tryKeyValues c len ivIndex kvs p

def netTrial (c : Crypto) (len : ℕ) (ivIndex : BitVec 32) (keys : List NetKey) (p : NetPdu) :
    Except Fault (Option Decoded) :=
  tryKeyValues c len ivIndex (keys.flatMap usableValues) p

/-- `meshx_nmc_t`. -/
structure NmcEntry where
  src : BitVec 16
  seq : BitVec 32
  deriving DecidableEq, Repr

/-- The network message cache; `nmc_size` is the length of the array. -/
structure Nmc where
  array : Option (List NmcEntry)
  index : ℕ
  circle : Bool
  deriving DecidableEq, Repr

/-- `meshx_nmc_check`. The loop leaves after its first entry, found or not. -/
def nmcCheck (nmc : Nmc) (entry : NmcEntry) : Bool :=
  match nmc.array with
  | none => false
  | some array =>
    let checkLength := if nmc.circle then array.length else nmc.index
    match array.take checkLength with
    | [] => true
    | first :: _ => decide (first ≠ entry)

def nmcAdd (nmc : Nmc) (entry : NmcEntry) : Except Fault Nmc :=
  match nmc.array with
  | none => .ok nmc
  | some array =>
    let nmc := if nmc.index = array.length then { nmc with index := 0, circle := true } else nmc
    if nmc.index < array.length then
      .ok { nmc with array := some (array.set nmc.index entry), index := nmc.index + 1 }
    else .error .badWrite

/-- The cache is set up: it has room, and the write index stays inside it. -/
def Nmc.Ready (nmc : Nmc) : Prop :=
  ∃ array, nmc.array = some array ∧ 0 < array.length ∧ nmc.index ≤ array.length

theorem nmcAdd_ready {nmc : Nmc} (h : nmc.Ready) (entry : NmcEntry) :
    ∃ nmc', nmcAdd nmc entry = .ok nmc' ∧ nmc'.Ready := by
  obtain ⟨array, ha, hpos, hle⟩ := h
  by_cases hi : nmc.index = array.length
  · refine ⟨⟨some (array.set 0 entry), 1, true⟩, ?_, _, rfl, ?_, ?_⟩
    · simp [nmcAdd, ha, hi, hpos]
    · rwa [List.length_set]
    · rwa [List.length_set]
  · refine ⟨⟨some (array.set nmc.index entry), nmc.index + 1, nmc.circle⟩, ?_, _, rfl, ?_, ?_⟩
    · simp [nmcAdd, ha, hi, show nmc.index < array.length by omega]
    · rwa [List.length_set]
    · simp only [List.length_set]; omega

inductive IfaceType
  | invalid
  | adv
  | gatt
  | loopback
  deriving DecidableEq, Repr

inductive BearerType
  | adv
  | gatt
  deriving DecidableEq, Repr

/-- `meshx_net_iface_info_t`. The input filter is given no data to look at. -/
structure NetIface where
  id : ℕ
  type : IfaceType
  bearer : Option BearerType
  ifilter : Bool
  ofilter : BitVec 16 → BitVec 16 → Bool

structure NetState where
  ivIndex : BitVec 32
  netKeys : List NetKey
  nmc : Nmc
  nodeAddr : BitVec 16
  ifaces : List NetIface

def isMyAddress (s : NetState) (addr : BitVec 16) : Bool := addr = s.nodeAddr

/-- How a receive ends: in a return code, in the call of `meshx_lower_trans_receive` with
these arguments, or in the branch that is to relay the PDU. -/
inductive NetResult
  | ret (err : Errno)
  | toLower (pdu : List Byte) (ctx : MsgCtx)
  | relay (pdu : List Byte) (ctx : MsgCtx)
  deriving DecidableEq, Repr

def rxCtx (iface : ℕ) (ivIndex : BitVec 32) (d : Decoded) : MsgCtx :=
  { MsgCtx.zero with
    ctl := d.pdu.ctl
    ttl := d.pdu.ttl
    src := d.pdu.src
    dst := d.pdu.dst
    ivIndex := ivIndex
    seq := d.pdu.seq
    pnetKey := some d.keyValue
    netIface := some iface }

/-- The IV index a received PDU is decrypted with, chosen by its IVI bit. -/
def rxIvIndex (ivIndex : BitVec 32) (ivi : Bool) : BitVec 32 :=
  if ivIndex.getLsbD 0 ≠ ivi then ivIndex - 1 else ivIndex

/-- `meshx_net_receive` from its label `FINISH` on: address check, cache, hand-over. -/
def netReceiveFinish (s : NetState) (iface : ℕ) (ivIndex : BitVec 32) :
    Option Decoded → Except Fault (NetState × NetResult)
  | none => .ok (s, .ret .key)
  | some d => do
    if !addressIsValid d.pdu.src || !addressIsValid d.pdu.dst then return (s, .ret .inval)
    let entry := ⟨d.pdu.src, d.pdu.seq.setWidth 32⟩
    if !nmcCheck s.nmc entry then return (s, .ret .fail)
    let nmc ← nmcAdd s.nmc entry
    let transPdu := d.pdu.pdu.take d.transPduLen
    let ctx := rxCtx iface ivIndex d
    return ({ s with nmc := nmc },
      if isMyAddress s d.pdu.dst then .toLower transPdu ctx else .relay transPdu ctx)

/-- `meshx_net_receive`; `misc` is what follows the received data in memory. -/
def netReceive (c : Crypto) (s : NetState) (iface : Option NetIface)
    (pdata misc : List Byte) : Except Fault (NetState × NetResult) := do
  let some iface := iface | return (s, .ret .inval)
  if !iface.ifilter then return (s, .ret .filter)
  let p := NetPdu.copy pdata misc
  let ivIndex := rxIvIndex s.ivIndex p.ivi
  let d ← netTrial c pdata.length ivIndex s.netKeys p
  netReceiveFinish s iface.id ivIndex d

def netTransPduMaxLen : ℕ := 20

/-- The checks of `meshx_net_send` on the length of the transport PDU. -/
def netLengthOk (transPduLen : ℕ) (ctl : Bool) : Bool :=
  transPduLen ≤ netTransPduMaxLen && transPduLen ≤ netTransPduMaxLen - micLen ctl

/-- The plain PDU that `meshx_net_send` fills in. -/
def plainPdu (kv : NetKeyValue) (ctx : MsgCtx) (transPdu : List Byte) : NetPdu where
  head := BitVec.ofBool (ctx.ivIndex.getLsbD 0) ++ kv.nid
  hidden := [BitVec.ofBool ctx.ctl ++ ctx.ttl] ++ be24 ctx.seq ++ be16 ctx.src
  body := (be16 ctx.dst ++ transPdu ++ List.replicate 20 0).take 22
  hidden_length := rfl
  body_length := by simp; omega

/-- The bytes that `meshx_net_send` hands to the interfaces. -/
def netPack (c : Crypto) (kv : NetKeyValue) (ctx : MsgCtx) (transPdu : List Byte) :
    Except Fault (List Byte) := do
  let p ← netEncrypt c (plainPdu kv ctx transPdu) transPdu.length ctx.ivIndex kv
  let p := netObfuscation c p ctx.ivIndex kv
  return p.bytes.take (9 + transPdu.length + micLen ctx.ctl)

/-- A PDU handed to a bearer: as an advertising packet or as a proxy message. -/
structure NetTx where
  bearer : BearerType
  bytes : List Byte
  deriving DecidableEq, Repr

/-- What a send leaves behind: its return code, the bearer transmissions, and for a message that
is looped back how the receive ended, which then stands for the return code. -/
structure NetSent where
  ret : Errno
  tx : List NetTx
  loopback : Option NetResult
  deriving DecidableEq, Repr

/-- `meshx_net_send_to_bearer`; `bearerRet` is what the bearer returns. -/
def netSendToBearer (bearerRet : NetTx → Errno) (bytes : List Byte) (ctx : MsgCtx)
    (iface : NetIface) : NetSent :=
  if !iface.ofilter ctx.src ctx.dst then ⟨.filter, [], none⟩
  else
    match iface.bearer with
    | none => ⟨.connect, [], none⟩
    | some bearer => ⟨bearerRet ⟨bearer, bytes⟩, [⟨bearer, bytes⟩], none⟩

/-- `meshx_net_loopback`: the loopback interface is the first of the list. -/
def netLoopback (c : Crypto) (s : NetState) (bytes misc : List Byte) (ctx : MsgCtx) :
    Except Fault (NetState × NetSent) :=
  match s.ifaces with
  | [] => .error .nullDeref
  | iface :: _ => do
    if !iface.ofilter ctx.src ctx.dst then return (s, ⟨.filter, [], none⟩)
    let (s, r) ← netReceive c s (some iface) bytes misc
    return (s, ⟨.success, [], some r⟩)

def netSend (c : Crypto) (bearerRet : NetTx → Errno) (s : NetState) (ctx : MsgCtx)
    (transPdu misc : List Byte) : Except Fault (NetState × NetSent) := do
  if !netLengthOk transPdu.length ctx.ctl then return (s, ⟨.length, [], none⟩)
  let some kv := ctx.pnetKey | .error .nullDeref
  let bytes ← netPack c kv ctx transPdu
  match ctx.netIface with
  | none =>
    if isMyAddress s ctx.dst then netLoopback c s bytes misc ctx
    else
      let outer := s.ifaces.filter (·.type ≠ .loopback)
      let sent := outer.map (netSendToBearer bearerRet bytes ctx)
      let ret := if outer.isEmpty then .invalNetIface else .success
      return (s, ⟨ret, sent.flatMap (·.tx), none⟩)
  | some id =>
    match s.ifaces.find? (·.id = id) with
    | none => .error .nullDeref
    | some iface =>
      if iface.type = .loopback then netLoopback c s bytes misc ctx
      else return (s, netSendToBearer bearerRet bytes ctx iface)

end Meshx.Net
