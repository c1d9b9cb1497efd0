import Meshx.Security
import Meshx.Lib.Run

/-! The provisioning session: the fields of `meshx_prov_dev_t` that the protocol reads,
the calls of the application, the received provisioning PDUs and the link that carries
them. Definitions carry the names of the functions of `meshx_prov.c`, without the prefix. -/
namespace Meshx.Prov

open Lib AesCcm Security

/-- `meshx_prov_state_t`, in the order the comparisons use. -/
inductive ProvState
  | idle
  | linkOpening
  | linkOpened
  | invite
  | capabilites
  | start
  | publicKey
  | inputComplete
  | confirmation
  | random
  | data
  | complete
  | failed
  | linkClosing
  deriving DecidableEq, Repr

instance : LE ProvState := ⟨fun a b => a.ctorIdx ≤ b.ctorIdx⟩

instance : LT ProvState := ⟨fun a b => a.ctorIdx < b.ctorIdx⟩

instance (a b : ProvState) : Decidable (a ≤ b) := inferInstanceAs (Decidable (_ ≤ _))

instance (a b : ProvState) : Decidable (a < b) := inferInstanceAs (Decidable (_ < _))

/-- `MESHX_PROV_TYPE_*`. -/
inductive ProvType
  | invite
  | capabilites
  | start
  | publicKey
  | inputComplete
  | confirmation
  | random
  | data
  | complete
  | failed
  deriving DecidableEq, Repr

/-- The type in the low six bits of the first byte. -/
def ProvType.ofByte (b : Byte) : Option ProvType :=
  match (b.extractLsb' 0 6).toNat with
  | 0 => some .invite
  | 1 => some .capabilites
  | 2 => some .start
  | 3 => some .publicKey
  | 4 => some .inputComplete
  | 5 => some .confirmation
  | 6 => some .random
  | 7 => some .data
  | 8 => some .complete
  | 9 => some .failed
  | _ => none

/-- The bytes that follow the type in a PDU. -/
def ProvType.size : ProvType → ℕ
  | .invite => 1
  | .capabilites => 11
  | .start => 5
  | .publicKey => 64
  | .inputComplete => 0
  | .confirmation => 16
  | .random => 16
  | .data => 33
  | .complete => 0
  | .failed => 1

/-- `MESHX_PROV_FAILED_*`, as far as they are sent. -/
inductive ProvFailed
  | invalidPdu
  | invalidFormat
  | unexpectedPdu
  | confirmationFailed
  | outOfResource
  | decryptionFailed
  deriving DecidableEq, Repr

def ProvFailed.code : ProvFailed → Byte
  | .invalidPdu => 0x01
  | .invalidFormat => 0x02
  | .unexpectedPdu => 0x03
  | .confirmationFailed => 0x04
  | .outOfResource => 0x05
  | .decryptionFailed => 0x06

/-- `meshx_prov_capabilites_t`, the 16-bit fields in host order. -/
structure ProvCapabilites where
  elementNums : Byte
  algorithms : BitVec 16
  publicKeyType : Byte
  staticOobType : Byte
  outputOobSize : Byte
  outputOobAction : BitVec 16
  inputOobSize : Byte
  inputOobAction : BitVec 16
  deriving DecidableEq, Repr

def ProvCapabilites.bytes (c : ProvCapabilites) : List Byte :=
  [c.elementNums] ++ be16 c.algorithms ++ [c.publicKeyType, c.staticOobType, c.outputOobSize] ++
    be16 c.outputOobAction ++ [c.inputOobSize] ++ be16 c.inputOobAction

def ProvCapabilites.ofBytes (xs : List Byte) : ProvCapabilites :=
  ⟨byteAt xs 0, readBe16 (xs.drop 1), byteAt xs 3, byteAt xs 4, byteAt xs 5,
    readBe16 (xs.drop 6), byteAt xs 8, readBe16 (xs.drop 9)⟩

structure ProvStart where
  algorithm : Byte
  publicKey : Byte
  authMethod : Byte
  authAction : Byte
  authSize : Byte
  deriving DecidableEq, Repr

def ProvStart.bytes (s : ProvStart) : List Byte :=
  [s.algorithm, s.publicKey, s.authMethod, s.authAction, s.authSize]

def ProvStart.ofBytes (xs : List Byte) : ProvStart :=
  ⟨byteAt xs 0, byteAt xs 1, byteAt xs 2, byteAt xs 3, byteAt xs 4⟩

/-- `meshx_prov_data_t` without its MIC, as the application gives it. -/
structure ProvData where
  netKey : Key
  keyIndex : BitVec 16
  flags : Byte
  ivIndex : BitVec 32
  unicastAddress : BitVec 16
  deriving DecidableEq, Repr

def ProvData.bytes (d : ProvData) : List Byte :=
  d.netKey ++ be16 d.keyIndex ++ [d.flags] ++ be32 d.ivIndex ++ be16 d.unicastAddress

inductive Role
  | device
  | provisioner
  deriving DecidableEq, Repr

/-- `struct _meshx_prov_dev`. The provisioning data stands as on the wire, its MIC apart. -/
structure ProvDev where
  role : Role
  state : ProvState
  publicKey : List Byte
  privateKey : List Byte
  shareSecret : List Byte
  publicKeyRemote : List Byte
  confirmationSalt : List Byte
  sessionKey : Key
  sessionNonce : List Byte
  deviceKey : Key
  invite : Byte
  capabilites : ProvCapabilites
  start : ProvStart
  authValue : List Byte
  confirmationRemote : List Byte
  confirmation : List Byte
  random : List Byte
  randomRemote : List Byte
  data : List Byte
  mic : List Byte
  errCode : Byte

/-- The fixed values of a build with `MESHX_USE_SAMPLE_DATA`. -/
structure SampleData where
  keyPair : Role → List Byte × List Byte
  random : Role → List Byte
  capabilites : ProvCapabilites
  start : ProvStart
  data : ProvData

/-- What the session is built on: the ciphers, the elliptic curve functions and the sample
data. The shared secret may keep what stood in its buffer. -/
structure ProvEnv where
  crypto : Crypto
  validatePublicKey : List Byte → Bool
  sharedSecret : (publicKey privateKey old : List Byte) → List Byte
  sample : Option SampleData

/-- `meshx_prov_auth_value_t`. The number and the text of an OOB value are one union. -/
inductive AuthValue
  | noOob
  | staticOob (value : List Byte)
  | oob (action : Byte) (value : List Byte) (alphaLen : Byte)
  | other

section Device

variable (env : ProvEnv) (dev : ProvDev)

/-- `meshx_prov_make_key`; a build without sample data takes the generated key pair. -/
def makeKey (generated : List Byte × List Byte) : ProvDev :=
  let (publicKey, privateKey) := (env.sample.map (·.keyPair dev.role)).getD generated
  { dev with publicKey := publicKey, privateKey := privateKey }

def generateRandom (generated : List Byte) : ProvDev :=
  { dev with random := (env.sample.map (·.random dev.role)).getD generated }

/-- The device as `meshx_pb_adv_create_device` allocates and clears it. -/
def clearedDevice (role : Role) : ProvDev where
  role := role
  state := .idle
  publicKey := List.replicate 64 0
  privateKey := List.replicate 32 0
  shareSecret := List.replicate 32 0
  publicKeyRemote := List.replicate 64 0
  confirmationSalt := List.replicate 16 0
  sessionKey := List.replicate 16 0
  sessionNonce := List.replicate 16 0
  deviceKey := List.replicate 16 0
  invite := 0
  capabilites := ⟨0, 0, 0, 0, 0, 0, 0, 0⟩
  start := ⟨0, 0, 0, 0, 0⟩
  authValue := List.replicate 16 0
  confirmationRemote := List.replicate 16 0
  confirmation := List.replicate 16 0
  random := List.replicate 16 0
  randomRemote := List.replicate 16 0
  data := List.replicate 25 0
  mic := List.replicate 8 0
  errCode := 0

/-- What `meshx_prov_create_device` does to a device found or allocated. -/
def setupDevice (role : Role) (keyPair : List Byte × List Byte) (random : List Byte) : ProvDev :=
  generateRandom env (makeKey env { dev with role := role } keyPair) random

/-- `meshx_prov_create_device` where no device with the identifier exists. -/
def createDevice (role : Role) (keyPair : List Byte × List Byte) (random : List Byte) : ProvDev :=
  setupDevice env (clearedDevice role) role keyPair random

def setRemotePublicKey (key : List Byte) : Errno × ProvDev :=
  if env.validatePublicKey key then (.success, { dev with publicKeyRemote := key })
  else (.inval, dev)

/-- `meshx_prov_set_auth_value`. A number is written from the last byte on and never into
the first one. -/
def setAuthValue : AuthValue → ProvDev
  | .noOob => { dev with authValue := List.replicate 16 0 }
  | .staticOob value => { dev with authValue := value }
  | .oob action value alphaLen =>
    if action ≤ 0x03 then
      let numeric := (List.range 4).map (byteAt value)
      { dev with
        authValue := byteAt dev.authValue 0 :: (List.replicate 11 0 ++ numeric.reverse) }
    else
      { dev with
        authValue := (List.range 16).map fun i =>
          if i < alphaLen.toNat then byteAt value i else 0 }
  | .other => dev

def generateConfirmation (random : List Byte) (mallocOk : Bool) : ProvDev :=
  if mallocOk then
    let aes := env.crypto.aes
    let keys := match dev.role with
      | .device => dev.publicKeyRemote ++ dev.publicKey
      | .provisioner => dev.publicKey ++ dev.publicKeyRemote
    let salt := s1 aes ([dev.invite] ++ dev.capabilites.bytes ++ dev.start.bytes ++ keys)
    let cfmKey := k1 aes dev.shareSecret salt [0x70, 0x72, 0x63, 0x6b]
    { dev with
      confirmationSalt := salt
      confirmation := aesCmac aes cfmKey (random ++ dev.authValue) }
  else dev

/-- `meshx_prov_verify_confirmation`. Without memory the comparison is made with the
confirmation that stood there. -/
def verifyConfirmation (mallocOk : Bool) : Bool × ProvDev :=
  let dev := generateConfirmation env dev dev.randomRemote mallocOk
  (dev.confirmation = dev.confirmationRemote, dev)

def calculateSessionDeviceKey : ProvDev :=
  let aes := env.crypto.aes
  let randoms := match dev.role with
    | .device => dev.randomRemote ++ dev.random
    | .provisioner => dev.random ++ dev.randomRemote
  let provSalt := s1 aes (dev.confirmationSalt ++ randoms)
  { dev with
    sessionKey := k1 aes dev.shareSecret provSalt [0x70, 0x72, 0x73, 0x6b]
    sessionNonce := k1 aes dev.shareSecret provSalt [0x70, 0x72, 0x73, 0x6e]
    deviceKey := k1 aes dev.shareSecret provSalt [0x70, 0x72, 0x64, 0x6b] }

/-! The calls that send a PDU. Each is admitted between two states and moves the device to
the second of them. -/

/-- The state test of the sending calls. -/
def admitted (first last : ProvState) (act : ProvDev) : Errno × ProvDev :=
  if dev.state < first ∨ last < dev.state then (.state, dev) else (.success, act)

/-- The calls that also refuse to be made twice. -/
def admittedOnce (first last : ProvState) (act : ProvDev) : Errno × ProvDev :=
  if dev.state < first ∨ last < dev.state then (.state, dev)
  else if dev.state = last then (.already, dev)
  else (.success, act)

def invite (value : Byte) : Errno × ProvDev :=
  admittedOnce dev .linkOpened .invite { dev with state := .invite, invite := value }

def capabilites (cap : ProvCapabilites) : Errno × ProvDev :=
  admittedOnce dev .invite .capabilites
    { dev with
      state := .capabilites
      capabilites := (env.sample.map (·.capabilites)).getD cap }

def start (value : ProvStart) : Errno × ProvDev :=
  admittedOnce dev .capabilites .start
    { dev with state := .start, start := (env.sample.map (·.start)).getD value }

def publicKey (key : List Byte) : Errno × ProvDev :=
  admitted dev .start .publicKey { dev with state := .publicKey, publicKey := key }

def inputComplete : Errno × ProvDev :=
  admitted dev .publicKey .inputComplete { dev with state := .inputComplete }

def confirmation (value : List Byte) : Errno × ProvDev :=
  admitted dev .publicKey .confirmation
    { dev with state := .confirmation, confirmation := value }

def random (value : List Byte) : Errno × ProvDev :=
  admitted dev .confirmation .random { dev with state := .random, random := value }

def data (value : ProvData) : Errno × ProvDev :=
  let plain := ((env.sample.map (·.data)).getD value).bytes
  let (text, mic) := env.crypto.aead.encrypt dev.sessionKey (dev.sessionNonce.drop 3) plain 8
  admittedOnce dev .random .data { dev with state := .data, data := text, mic := mic }

def complete : Errno × ProvDev :=
  admittedOnce dev .data .complete { dev with state := .complete }

def failed (errCode : Byte) : Errno × ProvDev :=
  if dev.state < .invite then (.state, dev)
  else if dev.state = .complete ∨ dev.state = .failed then (.already, dev)
  else (.success, { dev with state := .failed, errCode := errCode })

/-! The link. -/

/-- `meshx_pb_adv_link_open`, for a device other than the node itself. -/
def linkOpen : Errno × ProvDev :=
  if .idle < dev.state then (.busy, dev) else (.success, { dev with state := .linkOpening })

def linkClose : Errno × ProvDev :=
  if dev.state ≤ .linkOpening then (.busy, dev)
  else (.success, { dev with state := .linkClosing })

/-- `meshx_pb_adv_recv_link_open` with the identifier of the node. The device is found
again by `meshx_prov_create_device`, which renews its key pair and random value; `ackOk`
says that the link ack could be sent. -/
def recvLinkOpen (sameLink ackOk : Bool) (keyPair : List Byte × List Byte) (random : List Byte) :
    Errno × ProvDev :=
  let dev := setupDevice env dev .device keyPair random
  if dev.state = .linkOpened then
    if sameLink then (.success, dev) else (.diff, dev)
  else if .linkOpened < dev.state then (.already, dev)
  else if ackOk then (.success, { dev with state := .linkOpened })
  else (.fail, { dev with state := .linkOpening })

def recvLinkAck : Errno × ProvDev :=
  if .linkOpened < dev.state then (.state, dev)
  else (.success, { dev with state := .linkOpened })

/-! The received PDUs. -/

def validateCapabilites (cap : ProvCapabilites) : Bool := cap.elementNums ≠ 0

def validateStart (s : ProvStart) : Bool :=
  s.algorithm ≤ 0x01 && s.publicKey ≤ 0x01 && s.authMethod < 0x04 &&
    !(s.authMethod == 0x02 && s.authAction ≥ 0x05) &&
    !(s.authMethod == 0x03 && s.authAction ≥ 0x04) &&
    !((s.authMethod == 0x02 || s.authMethod == 0x03) && (s.authSize < 0x01 || s.authSize > 0x08))

/-- The test of an OOB method against the size and the actions of the capabilities. -/
def oobSupported (s : ProvStart) (size : Byte) (action : BitVec 16) : Bool :=
  size != 0 && s.authSize ≤ size && (1#16 <<< s.authAction.toNat) &&& action != 0

def isStartSupported (s : ProvStart) : Bool :=
  let cap := dev.capabilites
  s.publicKey == cap.publicKeyType &&
    if s.authMethod = 0x01 then cap.staticOobType != 0
    else if s.authMethod = 0x02 then oobSupported s cap.outputOobSize cap.outputOobAction
    else if s.authMethod = 0x03 then oobSupported s cap.inputOobSize cap.inputOobAction
    else true

/-- A PDU is answered with a provisioning failed PDU. -/
def refuse (ret : Errno) (reason : ProvFailed) : Errno × ProvDev :=
  (ret, (failed dev reason.code).2)

/-- The length test and the state test every case begins with: the state is only bounded
from above. -/
def process (type : ProvType) (last : ProvState) (len : Byte) (act : Errno × ProvDev) :
    Errno × ProvDev :=
  if len.toNat < 1 + type.size then refuse dev .length .invalidFormat
  else if last < dev.state then refuse dev .state .unexpectedPdu
  else act

/-- The bytes behind the type. -/
def field (pdata : List Byte) (type : ProvType) : List Byte := (pdata.drop 1).take type.size

/-- The device in which `meshx_prov_verify_confirmation` is called on a RANDOM PDU. -/
def takeRandom (pdata : List Byte) : ProvDev :=
  { dev with randomRemote := field pdata .random }

/-- The case of a PUBLIC_KEY PDU. -/
def processPublicKey (pdata : List Byte) (len : Byte) : Errno × ProvDev :=
  let key := field pdata .publicKey
  process dev .publicKey .publicKey len <|
    if env.validatePublicKey key then
      (.success, { dev with
        shareSecret := env.sharedSecret key dev.privateKey dev.shareSecret
        state := .publicKey
        publicKeyRemote := key })
    else refuse dev .inval .invalidFormat

/-- The case of a CONFIRMATION PDU, which a device answers with its own confirmation and a
provisioner with its random value. -/
def processConfirmation (pdata : List Byte) (len : Byte) : Errno × ProvDev :=
  let dev' := { dev with
    state := .confirmation, confirmationRemote := field pdata .confirmation }
  process dev .confirmation .confirmation len <|
    match dev.role with
    | .device => (.success, (confirmation dev' dev'.confirmation).2)
    | .provisioner => (.success, (random dev' dev'.random).2)

/-- The case of a RANDOM PDU. -/
def processRandom (pdata : List Byte) (len : Byte) (mallocOk : Bool) : Errno × ProvDev :=
  process dev .random .random len <|
    match verifyConfirmation env (takeRandom dev pdata) mallocOk with
    | (true, dev') =>
      let dev' := { dev' with state := .random }
      let dev' := match dev.role with
        | .device => (random dev' dev'.random).2
        | .provisioner => dev'
      (.success, calculateSessionDeviceKey env dev')
    | (false, dev') => refuse dev' .fail .confirmationFailed

/-- The case of a DATA PDU. The data is decrypted into the device, authentic or not. -/
def processData (pdata : List Byte) (len : Byte) : Errno × ProvDev :=
  process dev .data .data len <|
    match env.crypto.aead.decrypt dev.sessionKey (dev.sessionNonce.drop 3)
        ((pdata.drop 1).take 25) ((pdata.drop 26).take 8) with
    | (true, text) => (.success, (complete { dev with data := text, state := .data }).2)
    | (false, text) => refuse { dev with data := text } .state .decryptionFailed

def pduProcess (pdata : List Byte) (len : Byte) (mallocOk : Bool) : Errno × ProvDev :=
  match ProvType.ofByte (byteAt pdata 0) with
  | some .invite =>
    process dev .invite .invite len
      (.success, { dev with state := .invite, invite := byteAt pdata 1 })
  | some .capabilites =>
    let cap := ProvCapabilites.ofBytes (field pdata .capabilites)
    process dev .capabilites .capabilites len <|
      if validateCapabilites cap then
        (.success, { dev with state := .capabilites, capabilites := cap })
      else refuse dev .inval .invalidFormat
  | some .start =>
    let value := ProvStart.ofBytes (field pdata .start)
    process dev .start .start len <|
      if !validateStart value then refuse dev .inval .invalidFormat
      else if !isStartSupported dev value then refuse dev .resource .outOfResource
      else (.success, { dev with state := .start, start := value })
  | some .publicKey => processPublicKey env dev pdata len
  | some .inputComplete =>
    process dev .inputComplete .inputComplete len (.success, { dev with state := .inputComplete })
  | some .confirmation => processConfirmation dev pdata len
  | some .random => processRandom env dev pdata len mallocOk
  | some .data => processData env dev pdata len
  | some .complete =>
    process dev .complete .complete len (.success, { dev with state := .complete })
  | some .failed =>
    if len.toNat < 1 + ProvType.failed.size then (.length, dev)
    else (.success, { dev with state := .failed })
  | none => (.success, (failed dev ProvFailed.invalidPdu.code).2)

end Device

/-- What happens to a session: a received PDU, a step of the link, or a call of the
application. -/
inductive ProvEvent
  | pdu (pdata : List Byte) (len : Byte) (mallocOk : Bool)
  | recvLinkOpen (sameLink ackOk : Bool) (keyPair : List Byte × List Byte) (random : List Byte)
  | recvLinkAck
  | linkOpen
  | linkClose
  | makeKey (generated : List Byte × List Byte)
  | setRemotePublicKey (key : List Byte)
  | setAuthValue (value : AuthValue)
  | generateRandom (generated : List Byte)
  | generateConfirmation (random : List Byte) (mallocOk : Bool)
  | invite (value : Byte)
  | capabilites (cap : ProvCapabilites)
  | start (value : ProvStart)
  | publicKey (key : List Byte)
  | inputComplete
  | confirmation (value : List Byte)
  | random (value : List Byte)
  | data (value : ProvData)
  | complete
  | failed (errCode : Byte)

/-- The device after the event. -/
def provNext (env : ProvEnv) (dev : ProvDev) : ProvEvent → ProvDev
  | .pdu pdata len mallocOk => (pduProcess env dev pdata len mallocOk).2
  | .recvLinkOpen sameLink ackOk keyPair rand =>
    (recvLinkOpen env dev sameLink ackOk keyPair rand).2
  | .recvLinkAck => (recvLinkAck dev).2
  | .linkOpen => (linkOpen dev).2
  | .linkClose => (linkClose dev).2
  | .makeKey generated => makeKey env dev generated
  | .setRemotePublicKey key => (setRemotePublicKey env dev key).2
  | .setAuthValue value => setAuthValue dev value
  | .generateRandom generated => generateRandom env dev generated
  | .generateConfirmation rand mallocOk => generateConfirmation env dev rand mallocOk
  | .invite value => (invite dev value).2
  | .capabilites cap => (capabilites env dev cap).2
  | .start value => (start env dev value).2
  | .publicKey key => (publicKey dev key).2
  | .inputComplete => (inputComplete dev).2
  | .confirmation value => (confirmation dev value).2
  | .random value => (random dev value).2
  | .data value => (data env dev value).2
  | .complete => (complete dev).2
  | .failed errCode => (failed dev errCode).2

/-- The session as a system: no event faults. -/
def provStep (env : ProvEnv) (dev : ProvDev) (e : ProvEvent) : Except Fault ProvDev :=
  .ok (provNext env dev e)

end Meshx.Prov
