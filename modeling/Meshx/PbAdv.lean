import Meshx.ProvPdu
import Meshx.Lib.Mask

/-! Provisioning over the advertising bearer: the session, the packets it sends, the calls of
the application and the timer. Definitions carry the names of the source functions. -/
namespace Meshx.PbAdv

open Lib Prov

def crc8Table : List Byte :=
  [0x00, 0x91, 0xe3, 0x72, 0x07, 0x96, 0xe4, 0x75, 0x0e, 0x9f, 0xed, 0x7c, 0x09, 0x98, 0xea, 0x7b,
   0x1c, 0x8d, 0xff, 0x6e, 0x1b, 0x8a, 0xf8, 0x69, 0x12, 0x83, 0xf1, 0x60, 0x15, 0x84, 0xf6, 0x67,
   0x38, 0xa9, 0xdb, 0x4a, 0x3f, 0xae, 0xdc, 0x4d, 0x36, 0xa7, 0xd5, 0x44, 0x31, 0xa0, 0xd2, 0x43,
   0x24, 0xb5, 0xc7, 0x56, 0x23, 0xb2, 0xc0, 0x51, 0x2a, 0xbb, 0xc9, 0x58, 0x2d, 0xbc, 0xce, 0x5f,
   0x70, 0xe1, 0x93, 0x02, 0x77, 0xe6, 0x94, 0x05, 0x7e, 0xef, 0x9d, 0x0c, 0x79, 0xe8, 0x9a, 0x0b,
   0x6c, 0xfd, 0x8f, 0x1e, 0x6b, 0xfa, 0x88, 0x19, 0x62, 0xf3, 0x81, 0x10, 0x65, 0xf4, 0x86, 0x17,
   0x48, 0xd9, 0xab, 0x3a, 0x4f, 0xde, 0xac, 0x3d, 0x46, 0xd7, 0xa5, 0x34, 0x41, 0xd0, 0xa2, 0x33,
   0x54, 0xc5, 0xb7, 0x26, 0x53, 0xc2, 0xb0, 0x21, 0x5a, 0xcb, 0xb9, 0x28, 0x5d, 0xcc, 0xbe, 0x2f,
   0xe0, 0x71, 0x03, 0x92, 0xe7, 0x76, 0x04, 0x95, 0xee, 0x7f, 0x0d, 0x9c, 0xe9, 0x78, 0x0a, 0x9b,
   0xfc, 0x6d, 0x1f, 0x8e, 0xfb, 0x6a, 0x18, 0x89, 0xf2, 0x63, 0x11, 0x80, 0xf5, 0x64, 0x16, 0x87,
   0xd8, 0x49, 0x3b, 0xaa, 0xdf, 0x4e, 0x3c, 0xad, 0xd6, 0x47, 0x35, 0xa4, 0xd1, 0x40, 0x32, 0xa3,
   0xc4, 0x55, 0x27, 0xb6, 0xc3, 0x52, 0x20, 0xb1, 0xca, 0x5b, 0x29, 0xb8, 0xcd, 0x5c, 0x2e, 0xbf,
   0x90, 0x01, 0x73, 0xe2, 0x97, 0x06, 0x74, 0xe5, 0x9e, 0x0f, 0x7d, 0xec, 0x99, 0x08, 0x7a, 0xeb,
   0x8c, 0x1d, 0x6f, 0xfe, 0x8b, 0x1a, 0x68, 0xf9, 0x82, 0x13, 0x61, 0xf0, 0x85, 0x14, 0x66, 0xf7,
   0xa8, 0x39, 0x4b, 0xda, 0xaf, 0x3e, 0x4c, 0xdd, 0xa6, 0x37, 0x45, 0xd4, 0xa1, 0x30, 0x42, 0xd3,
   0xb4, 0x25, 0x57, 0xc6, 0xb3, 0x22, 0x50, 0xc1, 0xba, 0x2b, 0x59, 0xc8, 0xbd, 0x2c, 0x5e, 0xcf]

def crc (data : List Byte) : Byte :=
  0xff - data.foldl (fun fcs b => crc8Table.getD (fcs ^^^ b).toNat 0) 0xff

def transStartMax : ℕ := 20

def transContinueMax : ℕ := 23

def provPduMax : ℕ := 65

/-- The two fields of the first control byte: the format and six bits of content. -/
def gpc (format : BitVec 2) (content : BitVec 6) : Byte := content ++ format

def metadata (linkId : BitVec 32) (transNum : Byte) : List Byte := be32 linkId ++ [transNum]

def linkOpenPkt (linkId : BitVec 32) (devUuid : List Byte) : List Byte :=
  metadata linkId 0 ++ [gpc 3 0] ++ devUuid

def linkAckPkt (linkId : BitVec 32) : List Byte := metadata linkId 0 ++ [gpc 3 1]

def linkClosePkt (linkId : BitVec 32) (reason : Byte) : List Byte :=
  metadata linkId 0 ++ [gpc 3 2, reason]

def transAckPkt (linkId : BitVec 32) (transNum : Byte) : List Byte :=
  metadata linkId transNum ++ [gpc 1 0]

def transStartPkt (linkId : BitVec 32) (transNum : Byte) (lastSegNum totalLen : ℕ) (fcs : Byte)
    (pdu : List Byte) : List Byte :=
  metadata linkId transNum ++ [gpc 0 (BitVec.ofNat 6 lastSegNum)] ++
    be16 (BitVec.ofNat 16 totalLen) ++ [fcs] ++ pdu

def transContinuePkt (linkId : BitVec 32) (transNum : Byte) (segIndex : ℕ) (pdu : List Byte) :
    List Byte :=
  metadata linkId transNum ++ [gpc 2 (BitVec.ofNat 6 segIndex)] ++ pdu

def calcSegNum (len : ℕ) : ℕ :=
  if len ≤ transStartMax then 1
  else ((len - transStartMax) + transContinueMax - 1) / transContinueMax + 1

/-- The loop of `pb_adv_send_trans`: the packets from a segment on, given how many are left
and how much of the data was sent before. -/
def segments (linkId : BitVec 32) (transNum : Byte) (data : List Byte) :
    ℕ → ℕ → ℕ → List (List Byte)
  | 0, _, _ => []
  | left + 1, index, offset =>
    let segNum := calcSegNum data.length
    if index = 0 then
      let segLen := if segNum = 1 then data.length else transStartMax
      transStartPkt linkId transNum (segNum - 1) data.length (crc data) (data.take segLen) ::
        segments linkId transNum data left (index + 1) (offset + segLen)
    else
      let segLen := if segNum = index + 1 then data.length - offset else transContinueMax
      transContinuePkt linkId transNum index ((data.drop offset).take segLen) ::
        segments linkId transNum data left (index + 1) (offset + segLen)

/-- The packets of a provisioning PDU. -/
def transPkts (linkId : BitVec 32) (transNum : Byte) (data : List Byte) : List (List Byte) :=
  segments linkId transNum data (calcSegNum data.length) 0 0

inductive TimerState
  | delay
  | linkMonitor
  | retry
  deriving DecidableEq, Repr

inductive TimerDelayType
  | transAck
  | provPdu
  deriving DecidableEq, Repr

/-- `meshx_pb_adv_dev_t`. `timerOn` says that the timer was started and not stopped since, and
`timerStarts` how often it was started: a running timer that is started again is set anew. -/
structure PbAdvDev where
  dev : ProvDev
  devUuid : List Byte
  linkId : BitVec 32
  txTransNum : Byte
  rxTransNum : Byte
  ackedTransNum : Byte
  retryTime : ℕ
  timerOn : Bool
  timerStarts : ℕ
  timerState : TimerState
  timerDelayType : TimerDelayType
  linkCloseReason : Byte
  lastSegNum : ℕ
  fcs : Byte
  recvSeg : BitVec 64
  transDataLen : ℕ
  provRxPdu : List Byte

/-- What a step does besides changing the session: a packet that the bearer took, a call of
`meshx_pb_adv_recv_prov_pdu` and a call of `meshx_prov_pdu_process`. -/
inductive Act
  | send (pkt : List Byte)
  | recvProvPdu (pdu : List Byte) (len : ℕ) (fcs : Byte)
  | pduProcess (transNum : Byte) (pdu : List Byte) (len : ℕ)
  deriving DecidableEq, Repr

/-- The calls that the application makes on a session. `setup` is
`meshx_prov_create_device` with the identifier of a session that exists. -/
inductive Call
  | setup (role : Role) (keyPair : List Byte × List Byte) (random : List Byte)
  | linkOpen (linkId : BitVec 32)
  | linkClose (reason : Byte)
  | makeKey (generated : List Byte × List Byte)
  | setRemotePublicKey (key : List Byte)
  | setAuthValue (value : AuthValue)
  | generateRandom (generated : List Byte)
  | generateConfirmation (random : List Byte) (mallocOk : Bool)
  | invite (value : Byte)
  | capabilites (cap : ProvCapabilites)
  | start (value : ProvStart)
  | publicKey (key : List Byte)
  | inputComplete
  | confirmation (value : List Byte)
  | random (value : List Byte)
  | data (value : ProvData)
  | complete
  | failed (errCode : Byte)

/-- What the session is built on besides the provisioning functions: the identifier of the
node itself. -/
structure Config where
  prov : ProvEnv
  devUuid : List Byte

/-- What a step meets outside the session: the packets that the bearer takes, whether there is
memory, the key pair and the random value generated, and the calls that the application makes
when it is notified of the opened link. -/
structure World where
  accepts : List Byte → Bool
  mallocOk : Bool
  keyPair : List Byte × List Byte
  random : List Byte
  onOpened : List Call

/-- A packet is handed to the bearer. -/
def send (accepts : List Byte → Bool) (pkt : List Byte) : List Act :=
  if accepts pkt then [.send pkt] else []

/-- `pb_adv_send_trans`: it stops at the first packet the bearer refuses. -/
def sendTrans (accepts : List Byte → Bool) (linkId : BitVec 32) (transNum : Byte)
    (data : List Byte) : List Act :=
  ((transPkts linkId transNum data).takeWhile accepts).map .send

section Session

variable (s : PbAdvDev)

def startTimer (state : TimerState) : PbAdvDev :=
  { s with timerOn := true, timerStarts := s.timerStarts + 1, timerState := state }

def stopTimer : PbAdvDev := { s with timerOn := false }

def provRequireTransNum : PbAdvDev :=
  { s with txTransNum := if 0x7f < s.txTransNum + 1 then 0 else s.txTransNum + 1 }

def devRequireTransNum : PbAdvDev :=
  { s with txTransNum := if s.txTransNum + 1 = 0 then 0x80 else s.txTransNum + 1 }

def requireTransNum : PbAdvDev :=
  match s.dev.role with
  | .device => devRequireTransNum s
  | .provisioner => provRequireTransNum s

def startDelay (type : TimerDelayType) : PbAdvDev :=
  { startTimer s .delay with timerDelayType := type }

def transAck : PbAdvDev := startDelay s .transAck

def pbAdvInvite : PbAdvDev := startDelay (provRequireTransNum s) .provPdu

def pbAdvCapabilites : PbAdvDev := startDelay (devRequireTransNum s) .provPdu

def pbAdvStart : PbAdvDev := startDelay (devRequireTransNum s) .provPdu

def pbAdvPublicKey : PbAdvDev := startDelay (requireTransNum s) .provPdu

def pbAdvInputComplete : PbAdvDev := startDelay (devRequireTransNum s) .provPdu

def pbAdvConfirmation : PbAdvDev := startDelay (requireTransNum s) .provPdu

def pbAdvRandom : PbAdvDev := startDelay (requireTransNum s) .provPdu

def pbAdvData : PbAdvDev := startDelay (devRequireTransNum s) .provPdu

def pbAdvComplete : PbAdvDev := startDelay (devRequireTransNum s) .provPdu

def pbAdvFailed : PbAdvDev := startDelay (devRequireTransNum s) .provPdu

/-- The call of the bearer that sends a PDU of the type. -/
def pbAdvSend : ProvType → PbAdvDev
  | .invite => pbAdvInvite s
  | .capabilites => pbAdvCapabilites s
  | .start => pbAdvStart s
  | .publicKey => pbAdvPublicKey s
  | .inputComplete => pbAdvInputComplete s
  | .confirmation => pbAdvConfirmation s
  | .random => pbAdvRandom s
  | .data => pbAdvData s
  | .complete => pbAdvComplete s
  | .failed => pbAdvFailed s

/-- A sending call of the provisioning layer, with the PDU it sends when it succeeds. -/
def sending (type : ProvType) (r : Errno × ProvDev) : PbAdvDev :=
  if r.1 = .success then pbAdvSend { s with dev := r.2 } type else { s with dev := r.2 }

end Session

section Calls

variable (cfg : Config) (accepts : List Byte → Bool) (s : PbAdvDev)

def linkOpen (linkId : BitVec 32) : Errno × PbAdvDev × List Act :=
  if s.devUuid = cfg.devUuid then (.inval, s, [])
  else if .idle < s.dev.state then (.busy, s, [])
  else
    let s := { s with
      dev := { s.dev with state := .linkOpening }
      linkId := linkId
      txTransNum := 0xff
      ackedTransNum := 0x00
      retryTime := 0 }
    (.success, startTimer s .retry, send accepts (linkOpenPkt linkId s.devUuid))

/-- The reason as it is sent: the loss of the link is a timeout. -/
def closeReason (reason : Byte) : Byte := if reason = 3 then 1 else reason

def linkClose (reason : Byte) : Errno × PbAdvDev × List Act :=
  if s.dev.state ≤ .linkOpening then (.busy, s, [])
  else
    let s := { s with
      dev := { s.dev with state := .linkClosing }
      linkCloseReason := reason
      retryTime := 0 }
    (.success, startTimer s .retry, send accepts (linkClosePkt s.linkId (closeReason reason)))

def call : Call → PbAdvDev × List Act
  | .setup role keyPair random =>
    ({ s with dev := setupDevice cfg.prov s.dev role keyPair random }, [])
  | .linkOpen linkId => (linkOpen cfg accepts s linkId).2
  | .linkClose reason => (linkClose accepts s reason).2
  | .makeKey generated => ({ s with dev := makeKey cfg.prov s.dev generated }, [])
  | .setRemotePublicKey key => ({ s with dev := (setRemotePublicKey cfg.prov s.dev key).2 }, [])
  | .setAuthValue value => ({ s with dev := setAuthValue s.dev value }, [])
  | .generateRandom generated => ({ s with dev := generateRandom cfg.prov s.dev generated }, [])
  | .generateConfirmation random mallocOk =>
    ({ s with dev := generateConfirmation cfg.prov s.dev random mallocOk }, [])
  | .invite value => (sending s .invite (invite s.dev value), [])
  | .capabilites cap => (sending s .capabilites (capabilites cfg.prov s.dev cap), [])
  | .start value => (sending s .start (start cfg.prov s.dev value), [])
  | .publicKey key => (sending s .publicKey (publicKey s.dev key), [])
  | .inputComplete => (sending s .inputComplete (inputComplete s.dev), [])
  | .confirmation value => (sending s .confirmation (confirmation s.dev value), [])
  | .random value => (sending s .random (random s.dev value), [])
  | .data value => (sending s .data (data cfg.prov s.dev value), [])
  | .complete => (sending s .complete (complete s.dev), [])
  | .failed errCode => (sending s .failed (failed s.dev errCode), [])

/-- Calls made one after the other. -/
def calls : PbAdvDev → List Call → PbAdvDev × List Act
  | s, [] => (s, [])
  | s, c :: cs =>
    let (s, acts) := call cfg accepts s c
    let (s, acts') := calls s cs
    (s, acts ++ acts')

end Calls

section Process

variable (env : ProvEnv) (dev : ProvDev)

/-- The PDU that `refuse` sends. -/
def refusal : Option ProvType :=
  if dev.state < .invite ∨ dev.state = .complete ∨ dev.state = .failed then none else some .failed

/-- The PDU that a processed PDU is answered with. -/
def reply : ProvType → Option ProvType
  | .confirmation =>
    match dev.role with
    | .device => some .confirmation
    | .provisioner => some .random
  | .random =>
    match dev.role with
    | .device => some .random
    | .provisioner => none
  | .data => some .complete
  | _ => none

/-- The PDU that `meshx_prov_pdu_process` sends before it returns. -/
def answer (pdata : List Byte) (len : Byte) (mallocOk : Bool) : Option ProvType :=
  match ProvType.ofByte (byteAt pdata 0) with
  | none => refusal dev
  | some .failed => none
  | some type =>
    if (pduProcess env dev pdata len mallocOk).1 = .success then reply dev type else refusal dev

end Process

section Timer

variable (cfg : Config) (w : World) (s : PbAdvDev)

/-- `meshx_prov_pdu_process` on the reassembled PDU. -/
def process (len : ℕ) : PbAdvDev :=
  let len := BitVec.ofNat 8 len
  let next := { s with dev := (pduProcess cfg.prov s.dev s.provRxPdu len w.mallocOk).2 }
  match answer cfg.prov s.dev s.provRxPdu len w.mallocOk with
  | some type => pbAdvSend next type
  | none => next

/-- Whether the peer of a session of the role may use the transaction number. -/
def peerTransNum (role : Role) (num : Byte) : Bool :=
  match role with
  | .device => num ≤ 0x7f
  | .provisioner => 0x80 ≤ num

/-- The session of `meshx_pb_adv_handle_delay` when the ack is out. -/
def acked : PbAdvDev :=
  let s := if w.accepts (transAckPkt s.linkId s.rxTransNum) then
    { s with ackedTransNum := s.rxTransNum } else s
  { startTimer s .linkMonitor with transDataLen := 0 }

/-- The case of a trans ack in `meshx_pb_adv_handle_delay`. -/
def handleTransAck : PbAdvDev × List Act :=
  let ack := send w.accepts (transAckPkt s.linkId s.rxTransNum)
  let next := acked w s
  if peerTransNum s.dev.role s.rxTransNum then
    (process cfg w next s.transDataLen,
      ack ++ [.pduProcess s.rxTransNum s.provRxPdu s.transDataLen])
  else (pbAdvFailed { next with dev := { next.dev with errCode := 0x07 } }, ack)

def handleDelay : Except Fault (PbAdvDev × List Act) :=
  match s.timerDelayType with
  | .transAck => .ok (handleTransAck cfg w s)
  | .provPdu =>
    match statePdu s.dev with
    | some pdu =>
      .ok (startTimer { s with retryTime := 0 } .retry,
        sendTrans w.accepts s.linkId s.txTransNum pdu)
    | none => .error .assertFailed

def handleLinkLoss : PbAdvDev × List Act := (linkClose w.accepts (stopTimer s) 3).2

/-- `meshx_pb_adv_handle_retry`. The session is deleted when the link did not open or when it
has been closed. -/
def handleRetry : Except Fault (Option PbAdvDev × List Act) :=
  if s.dev.state = .linkOpening then
    let next := { s with retryTime := s.retryTime + 200 }
    .ok (if 600000 < next.retryTime then none else some next,
      send w.accepts (linkOpenPkt s.linkId s.devUuid))
  else if s.dev.state = .linkClosing then
    let next := { s with retryTime := s.retryTime + 20 }
    .ok (if 90 < next.retryTime then none else some next,
      send w.accepts (linkClosePkt s.linkId (closeReason s.linkCloseReason)))
  else if .invite ≤ s.dev.state ∧ s.dev.state ≤ .complete then
    match statePdu s.dev with
    | some pdu =>
      let next := { s with retryTime := s.retryTime + 300 }
      let sent := sendTrans w.accepts s.linkId s.txTransNum pdu
      if 30000 < next.retryTime then
        let (_, next, acts) := linkClose w.accepts (stopTimer next) 1
        .ok (some next, sent ++ acts)
      else .ok (some next, sent)
    | none => .error .assertFailed
  else .ok (some s, [])

/-- `meshx_pb_adv_handle_timeout`, on a session whose timer has been started. -/
def handleTimeout : Except Fault (Option PbAdvDev × List Act) :=
  if s.timerOn then
    match s.timerState with
    | .delay => (handleDelay cfg w s).map fun (s, acts) => (some s, acts)
    | .retry => handleRetry w s
    | .linkMonitor => .ok (let (s, acts) := handleLinkLoss w s; (some s, acts))
  else .ok (some s, [])

end Timer

end Meshx.PbAdv
