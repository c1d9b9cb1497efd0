import Meshx.PbAdv

/-! The received packets of PB-ADV: parsing, the link, the reassembly of transactions, and the
list of sessions with its lookups. -/
namespace Meshx.PbAdv

open Lib Prov

/-- A packet that has passed the tests on its length and its control fields. -/
inductive Pkt
  | transStart (linkId : BitVec 32) (transNum : Byte) (lastSegNum totalLen : ℕ) (fcs : Byte)
      (pdu : List Byte)
  | transAck (linkId : BitVec 32) (transNum : Byte)
  | transContinue (linkId : BitVec 32) (transNum : Byte) (segIndex : ℕ) (pdu : List Byte)
  | linkOpen (linkId : BitVec 32) (devUuid : List Byte)
  | linkAck (linkId : BitVec 32)
  | linkClose (linkId : BitVec 32) (reason : Byte)
  deriving DecidableEq, Repr

/-- The beginning of `meshx_pb_adv_recv_bearer_ctl` and of the handlers it calls. -/
def parseBearerCtl (pdata : List Byte) (linkId : BitVec 32) (transNum : Byte)
    (bearerOpcode : ℕ) : Except Errno Pkt :=
  if pdata.length < 6 then .error .length
  else if transNum ≠ 0 then .error .inval
  else match bearerOpcode with
    | 0 =>
      if pdata.length < 22 then .error .length
      else .ok (.linkOpen linkId ((pdata.drop 6).take 16))
    | 1 => .ok (.linkAck linkId)
    | 2 => if pdata.length < 7 then .error .length else .ok (.linkClose linkId (byteAt pdata 6))
    | _ => .error .inval

/-- The switch of `meshx_pb_adv_receive`, with the tests that its handlers begin with. -/
def parse (pdata : List Byte) : Except Errno Pkt :=
  let linkId := readBe32 pdata
  let transNum := byteAt pdata 4
  let content := ((byteAt pdata 5).extractLsb' 2 6).toNat
  match (byteAt pdata 5).extractLsb' 0 2 with
  | 0 =>
    if pdata.length < 9 then .error .length
    else .ok (.transStart linkId transNum content (readBe16 (pdata.drop 6)).toNat
      (byteAt pdata 8) (pdata.drop 9))
  | 1 => if pdata.length < 6 then .error .length else .ok (.transAck linkId transNum)
  | 2 =>
    if pdata.length < 6 then .error .length
    else .ok (.transContinue linkId transNum content (pdata.drop 6))
  | _ => parseBearerCtl pdata linkId transNum content

/-- What a handler returns: the session is deleted when there is none left. -/
structure Out where
  ret : Errno
  dev : Option PbAdvDev
  acts : List Act

section Session

variable (cfg : Config) (w : World) (s : PbAdvDev)

def refused (ret : Errno) : Except Fault Out := .ok ⟨ret, some s, []⟩

/-- `meshx_pb_adv_recv_link_open` from the point where it has the session. -/
def recvLinkOpen (linkId : BitVec 32) : Out :=
  let s := { s with dev := setupDevice cfg.prov s.dev .device w.keyPair w.random }
  if s.dev.state = .linkOpened ∧ s.linkId ≠ linkId then ⟨.diff, some s, []⟩
  else if s.dev.state = .linkOpened then
    ⟨.success, some s, send w.accepts (linkAckPkt s.linkId)⟩
  else if .linkOpened < s.dev.state then ⟨.already, some s, []⟩
  else
    let s := { s with
      dev := { s.dev with state := .linkOpening }
      linkId := linkId
      txTransNum := 0x7f
      ackedTransNum := 0xff
      transDataLen := 0 }
    let ack := send w.accepts (linkAckPkt linkId)
    if w.accepts (linkAckPkt linkId) then
      -- the application is notified before the timer is started
      let (s, acts) := calls cfg w.accepts { s with dev := { s.dev with state := .linkOpened } }
        w.onOpened
      ⟨.success, some (startTimer s .linkMonitor), ack ++ acts⟩
    else ⟨.fail, some s, ack⟩

def recvLinkAck : Out :=
  if .linkOpened < s.dev.state then ⟨.state, some s, []⟩
  else
    let s := { s with dev := { s.dev with state := .linkOpened }, retryTime := 0 }
    ⟨.success, some (startTimer s .linkMonitor), []⟩

/-- `meshx_pb_adv_recv_link_close`: the notification deletes the session. -/
def recvLinkClose : Out := ⟨.success, none, []⟩

def recvProvPdu : PbAdvDev × List Act :=
  let act := Act.recvProvPdu (s.provRxPdu.take s.transDataLen) s.transDataLen s.fcs
  if s.dev.state = .failed then (s, [act])
  else if crc (s.provRxPdu.take s.transDataLen) ≠ s.fcs then ({ s with transDataLen := 0 }, [act])
  else (transAck s, [act])

/-- The end of the two segment handlers: the data is copied, and processed when no segment is
missing. -/
def storeSeg (segIndex offset : ℕ) (pdu : List Byte) : Except Fault Out :=
  if provPduMax < offset + pdu.length then .error .badWrite
  else
    let s := { s with
      recvSeg := s.recvSeg &&& ~~~bit 64 segIndex
      provRxPdu := splice s.provRxPdu offset pdu }
    if s.recvSeg = 0 then
      let (s, acts) := recvProvPdu s
      .ok ⟨.success, some s, acts⟩
    else .ok ⟨.success, some s, []⟩

/-- The answer to a segment of a transaction that has been acked. -/
def ackAgain : Except Fault Out :=
  .ok ⟨.success, some s, send w.accepts (transAckPkt s.linkId s.ackedTransNum)⟩

/-- The missing segments when a start arrives: all of them if no transaction is going on. -/
def startSegs (lastSegNum : ℕ) : BitVec 64 :=
  if s.transDataLen = 0 then lowBits 64 (lastSegNum + 1) else s.recvSeg

def recvTransStart (transNum : Byte) (lastSegNum totalLen : ℕ) (fcs : Byte) (pdu : List Byte) :
    Except Fault Out :=
  if s.dev.state < .linkOpened then refused s .state
  else if s.ackedTransNum = transNum then ackAgain w s
  else if totalLen = 0 ∨ provPduMax < totalLen then refused s .length
  else if calcSegNum totalLen - 1 ≠ lastSegNum then refused s .length
  else
    let segs := startSegs s lastSegNum
    if segs.getLsbD 0 = false then refused { s with recvSeg := segs } .already
    else
      let s := { s with
        recvSeg := segs
        transDataLen := totalLen
        rxTransNum := transNum
        lastSegNum := lastSegNum
        fcs := fcs }
      let required := if lastSegNum = 0 then totalLen else transStartMax
      if pdu.length ≠ required then refused s .length
      else storeSeg s 0 0 pdu

def lastSegLen (totalLen lastSegNum : ℕ) : ℕ :=
  ((totalLen - transStartMax - transContinueMax * (lastSegNum - 1 : ℤ) : ℤ) % 256).toNat

/-- The offset of a continuing segment, in sixteen bits. -/
def segOffset (segIndex : ℕ) : ℕ :=
  ((transStartMax + transContinueMax * (segIndex - 1 : ℤ) : ℤ) % 65536).toNat

def recvTransContinue (transNum : Byte) (segIndex : ℕ) (pdu : List Byte) : Except Fault Out :=
  if s.dev.state < .linkOpened then refused s .state
  else if s.ackedTransNum = transNum then ackAgain w s
  else if s.rxTransNum ≠ transNum then refused s .diff
  else if s.transDataLen = 0 then refused s .timing
  else if s.lastSegNum < segIndex then refused s .inval
  else if s.recvSeg.getLsbD segIndex = false then refused s .already
  else
    let required := if segIndex < s.lastSegNum then transContinueMax
      else lastSegLen s.transDataLen s.lastSegNum
    if pdu.length ≠ required then refused s .length
    else storeSeg s segIndex (segOffset segIndex) pdu

def notifyTransAck : PbAdvDev × List Act :=
  if s.dev.state = .complete then (linkClose w.accepts s 0).2
  else if s.dev.state = .failed then (linkClose w.accepts s 2).2
  else (s, [])

def recvTransAck (transNum : Byte) : Out :=
  if s.txTransNum ≠ transNum then ⟨.diff, some s, []⟩
  else
    let (s, acts) := notifyTransAck w (startTimer { s with retryTime := 0 } .linkMonitor)
    ⟨.success, some s, acts⟩

/-- A packet at the session that it was found to be for. -/
def recvPkt : Pkt → Except Fault Out
  | .transStart _ transNum lastSegNum totalLen fcs pdu =>
    recvTransStart w s transNum lastSegNum totalLen fcs pdu
  | .transAck _ transNum => .ok (recvTransAck w s transNum)
  | .transContinue _ transNum segIndex pdu => recvTransContinue w s transNum segIndex pdu
  | .linkOpen linkId _ => .ok (recvLinkOpen cfg w s linkId)
  | .linkAck _ => .ok (recvLinkAck s)
  | .linkClose _ _ => .ok (recvLinkClose)

end Session

def Pkt.linkId : Pkt → BitVec 32
  | .transStart linkId .. => linkId
  | .transAck linkId _ => linkId
  | .transContinue linkId .. => linkId
  | .linkOpen linkId _ => linkId
  | .linkAck linkId => linkId
  | .linkClose linkId _ => linkId

inductive SessionEvent
  | recv (pdata : List Byte)
  | call (c : Call)
  | timeout

section SessionStep

variable (cfg : Config) (s : PbAdvDev)

/-- A link open packet reaches the session that has the identifier of the node. -/
def takesOpen (devUuid : List Byte) : Prop := devUuid = cfg.devUuid ∧ s.devUuid = cfg.devUuid

instance (devUuid : List Byte) : Decidable (takesOpen cfg s devUuid) :=
  inferInstanceAs (Decidable (_ ∧ _))

def recv (w : World) (pdata : List Byte) : Except Fault Out :=
  match parse pdata with
  | .error ret => refused s ret
  | .ok (.linkOpen linkId devUuid) =>
    if takesOpen cfg s devUuid then .ok (recvLinkOpen cfg w s linkId) else refused s .diff
  | .ok pkt => recvPkt cfg w s pkt

def sessionStep (w : World) : SessionEvent → Except Fault (Option PbAdvDev × List Act)
  | .recv pdata => (recv cfg s w pdata).map fun out => (out.dev, out.acts)
  | .call c => .ok (let (s, acts) := call cfg w.accepts s c; (some s, acts))
  | .timeout => handleTimeout cfg w s

end SessionStep

/-- The session as a system: nothing happens to it any more when it is deleted. -/
def sessionNext (cfg : Config) : Option PbAdvDev → SessionEvent × World →
    Except Fault (Option PbAdvDev)
  | none, _ => .ok none
  | some s, (e, w) => (sessionStep cfg s w e).map (·.1)

/-- The session that `meshx_pb_adv_create_device` allocates and clears. -/
def clearedSession (devUuid : List Byte) (role : Role) : PbAdvDev where
  dev := clearedDevice role
  devUuid := devUuid
  linkId := 0
  txTransNum := 0
  rxTransNum := 0
  ackedTransNum := 0
  retryTime := 0
  timerOn := false
  timerStarts := 0
  timerState := .delay
  timerDelayType := .transAck
  linkCloseReason := 0
  lastSegNum := 0
  fcs := 0
  recvSeg := 0
  transDataLen := 0
  provRxPdu := List.replicate provPduMax 0

/-- A session that `meshx_prov_create_device` has made. -/
def createSession (cfg : Config) (devUuid : List Byte) (role : Role)
    (keyPair : List Byte × List Byte) (random : List Byte) : PbAdvDev :=
  let s := clearedSession devUuid role
  { s with dev := setupDevice cfg.prov s.dev role keyPair random }

/-! The list of sessions. -/

/-- `meshx_find_prov_dev_by_link_id`: the loop leaves the last session it looked at. -/
def findByLinkId : (devs : List PbAdvDev) → BitVec 32 → Option (Fin devs.length)
  | [], _ => none
  | [_], _ => some 0
  | s :: t :: rest, linkId =>
    if s.linkId = linkId then some 0
    else (findByLinkId (t :: rest) linkId).map Fin.succ

def findDevice : (devs : List PbAdvDev) → List Byte → Option (Fin devs.length)
  | [], _ => none
  | s :: rest, devUuid =>
    if s.devUuid = devUuid then some 0 else (findDevice rest devUuid).map Fin.succ

/-- The list with the session at the place changed or taken out. -/
def setSession (devs : List PbAdvDev) (i : ℕ) : Option PbAdvDev → List PbAdvDev
  | some s => devs.set i s
  | none => devs.eraseIdx i

structure NodeOut where
  ret : Errno
  devs : List PbAdvDev
  acts : List Act

section Node

variable (cfg : Config) (w : World) (devs : List PbAdvDev)

def atSession (i : Fin devs.length) (f : PbAdvDev → Except Fault Out) : Except Fault NodeOut :=
  (f (devs.get i)).map fun out => ⟨out.ret, setSession devs i out.dev, out.acts⟩

/-- The code returned when there is no session at all. -/
def Pkt.missing : Pkt → Errno
  | .linkAck _ | .linkClose _ _ => .resource
  | _ => .inval

/-- `meshx_pb_adv_recv_link_open`, which makes the session if there is none. -/
def receiveLinkOpen (linkId : BitVec 32) (devUuid : List Byte) : Except Fault NodeOut :=
  if devUuid ≠ cfg.devUuid then .ok ⟨.diff, devs, []⟩
  else
    match findDevice devs cfg.devUuid with
    | some i => atSession devs i fun s => .ok (recvLinkOpen cfg w s linkId)
    | none =>
      if w.mallocOk then
        let out := recvLinkOpen cfg w (clearedSession cfg.devUuid .device) linkId
        .ok ⟨out.ret, devs ++ out.dev.toList, out.acts⟩
      else .ok ⟨.resource, devs, []⟩

def receive (pdata : List Byte) : Except Fault NodeOut :=
  match parse pdata with
  | .error ret => .ok ⟨ret, devs, []⟩
  | .ok (.linkOpen linkId devUuid) => receiveLinkOpen cfg w devs linkId devUuid
  | .ok pkt =>
    match findByLinkId devs pkt.linkId with
    | some i => atSession devs i fun s => recvPkt cfg w s pkt
    | none => .ok ⟨pkt.missing, devs, []⟩

def createDevice (devUuid : List Byte) (role : Role) : List PbAdvDev :=
  match findDevice devs devUuid with
  | some i =>
    let s := devs.get i
    devs.set i { s with dev := setupDevice cfg.prov s.dev role w.keyPair w.random }
  | none =>
    if w.mallocOk then devs ++ [createSession cfg devUuid role w.keyPair w.random] else devs

end Node

end Meshx.PbAdv
