import Meshx.ProvPdu
import Meshx.ProvAuth

/-! The exchange of a provisioner and a device: every call and every received PDU of it
succeeds, and both sides end with the same secrets. -/
namespace Meshx.Prov

open Lib AesCcm Security

/-- A call or a PDU has to be accepted for the exchange to go on. -/
def accept (r : Errno × ProvDev) : Except Errno ProvDev :=
  if r.1 = .success then .ok r.2 else .error r.1

/-- The PDU that the sender's state calls for reaches the other side. -/
def deliver (env : ProvEnv) (sender receiver : ProvDev) : Except Errno ProvDev :=
  match statePdu sender with
  | some pdu => accept (pduProcess env receiver pdu (BitVec.ofNat 8 pdu.length) true)
  | none => .error .state

/-- What the two applications put into the exchange. -/
structure ExchangeInput where
  invite : Byte
  capabilites : ProvCapabilites
  start : ProvStart
  provAuth : AuthValue
  devAuth : AuthValue
  data : ProvData

variable (env : ProvEnv) (x : ExchangeInput)

/-- INVITE, CAPABILITES and START. -/
def exchangeStart (prov dev : ProvDev) : Except Errno (ProvDev × ProvDev) := do
  let prov ← accept (invite prov x.invite)
  let dev ← deliver env prov dev
  let dev ← accept (capabilites env dev x.capabilites)
  let prov ← deliver env dev prov
  let prov ← accept (start env prov x.start)
  let dev ← deliver env prov dev
  return (prov, dev)

/-- Both PUBLIC_KEYs. The device sends its own and generates its confirmation when it is
notified of the provisioner's, the provisioner generates its own when it has the device's. -/
def exchangeKeys (prov dev : ProvDev) : Except Errno (ProvDev × ProvDev) := do
  let prov ← accept (publicKey prov prov.publicKey)
  let dev ← deliver env prov dev
  let dev ← accept (publicKey dev dev.publicKey)
  let prov ← deliver env dev prov
  let dev := setAuthValue dev x.devAuth
  let dev := generateConfirmation env dev dev.random true
  let prov := setAuthValue prov x.provAuth
  let prov := generateConfirmation env prov prov.random true
  return (prov, dev)

/-- What `meshx_prov_verify_confirmation` says when the sender's RANDOM is received. -/
def checked (sender receiver : ProvDev) : Bool :=
  (verifyConfirmation env (takeRandom receiver (randomPdu sender.random)) true).1

/-- Where an exchange ends, with the two confirmation checks. -/
structure Exchanged where
  prov : ProvDev
  dev : ProvDev
  devCheck : Bool
  provCheck : Bool

/-- Both CONFIRMATIONs and both RANDOMs, all but the first of them answers to PDUs. -/
def exchangeRandoms (prov dev : ProvDev) : Except Errno Exchanged := do
  let prov ← accept (confirmation prov prov.confirmation)
  let dev ← deliver env prov dev
  let prov ← deliver env dev prov
  let devCheck := checked env prov dev
  let dev ← deliver env prov dev
  let provCheck := checked env dev prov
  let prov ← deliver env dev prov
  return ⟨prov, dev, devCheck, provCheck⟩

def exchangeData (r : Exchanged) : Except Errno Exchanged := do
  let prov ← accept (data env r.prov x.data)
  let dev ← deliver env prov r.dev
  return { r with prov := prov, dev := dev }

/-- The exchange in protocol order, from an opened link on. -/
def provExchange (prov dev : ProvDev) : Except Errno Exchanged := do
  let (prov, dev) ← exchangeStart env x prov dev
  let (prov, dev) ← exchangeKeys env x prov dev
  let r ← exchangeRandoms env prov dev
  exchangeData env x r

variable {env x} {prov dev : ProvDev}

/-- A provisioner and a device that derive their secrets from the same values. -/
structure Agree (prov dev : ProvDev) : Prop where
  provRole : prov.role = .provisioner
  devRole : dev.role = .device
  invite : prov.invite = dev.invite
  capabilites : prov.capabilites = dev.capabilites
  start : prov.start = dev.start
  shareSecret : prov.shareSecret = dev.shareSecret
  authValue : prov.authValue = dev.authValue
  provRemote : prov.publicKeyRemote = dev.publicKey
  devRemote : dev.publicKeyRemote = prov.publicKey

theorem admitted_success {first last : ProvState} {act : ProvDev} (h₁ : ¬ dev.state < first)
    (h₂ : ¬ last < dev.state) : admitted dev first last act = (.success, act) := by
  rw [admitted, if_neg (not_or.mpr ⟨h₁, h₂⟩)]

theorem admittedOnce_success {first last : ProvState} {act : ProvDev}
    (h₁ : ¬ dev.state < first) (h₂ : ¬ last < dev.state) (h₃ : dev.state ≠ last) :
    admittedOnce dev first last act = (.success, act) := by
  rw [admittedOnce, if_neg (not_or.mpr ⟨h₁, h₂⟩), if_neg h₃]

/-- The answer of a device, which is in the state already. -/
theorem confirmation_again (hs : dev.state = .confirmation) (value : List Byte) :
    confirmation dev value =
      (.success, { dev with state := .confirmation, confirmation := value }) := by
  refine admitted_success ?_ ?_ <;> rw [hs] <;> decide

theorem random_success (hs : dev.state = .confirmation ∨ dev.state = .random)
    (value : List Byte) :
    random dev value = (.success, { dev with state := .random, random := value }) := by
  refine admitted_success ?_ ?_ <;> rcases hs with hs | hs <;> rw [hs] <;> decide

section Deliver

variable {d : ProvDev}

theorem deliver_eq {pdu : List Byte} (h : statePdu prov = some pdu) :
    deliver env prov dev = accept (pduProcess env dev pdu (BitVec.ofNat 8 pdu.length) true) := by
  simp only [deliver, h]

theorem pduProcess_invite (v : Byte) (hs : ¬ ProvState.invite < dev.state) :
    pduProcess env dev (invitePdu v) 2 true =
      (.success, { dev with state := .invite, invite := v }) := by
  have ht : ProvType.ofByte (byteAt (invitePdu v) 0) = some .invite := ofByte_code .invite
  simp only [pduProcess, ht]
  rw [process_fits (by decide) hs]
  rfl

theorem pduProcess_capabilites (cap : ProvCapabilites) (hcap : validateCapabilites cap = true)
    (hs : ¬ ProvState.capabilites < dev.state) :
    pduProcess env dev (capabilitesPdu cap) 12 true =
      (.success, { dev with state := .capabilites, capabilites := cap }) := by
  have ht : ProvType.ofByte (byteAt (capabilitesPdu cap) 0) = some .capabilites :=
    ofByte_code .capabilites
  have hfield : field (capabilitesPdu cap) .capabilites = cap.bytes := field_provPdu rfl
  simp only [pduProcess, ht, hfield, ProvCapabilites.ofBytes_bytes]
  rw [process_fits (by decide) hs, if_pos hcap]

theorem pduProcess_start (value : ProvStart) (hval : validateStart value = true)
    (hsup : isStartSupported dev value = true) (hs : ¬ ProvState.start < dev.state) :
    pduProcess env dev (startPdu value) 6 true =
      (.success, { dev with state := .start, start := value }) := by
  have ht : ProvType.ofByte (byteAt (startPdu value) 0) = some .start := ofByte_code .start
  have hfield : field (startPdu value) .start = value.bytes := field_provPdu rfl
  simp only [pduProcess, ht, hfield, ProvStart.ofBytes_bytes]
  rw [process_fits (by decide) hs, hval, hsup]
  rfl

theorem pduProcess_publicKey {key : List Byte} (hlen : key.length = 64)
    (hval : env.validatePublicKey key = true) (hs : ¬ ProvState.publicKey < dev.state) :
    pduProcess env dev (publicKeyPdu key) 65 true =
      (.success, { dev with
        shareSecret := env.sharedSecret key dev.privateKey dev.shareSecret
        state := .publicKey
        publicKeyRemote := key }) := by
  have ht : ProvType.ofByte (byteAt (publicKeyPdu key) 0) = some .publicKey :=
    ofByte_code .publicKey
  have hfield : field (publicKeyPdu key) .publicKey = key := field_provPdu hlen
  simp only [pduProcess, ht, processPublicKey, hfield]
  rw [process_fits (by decide) hs, if_pos hval]

/-- A device answers a CONFIRMATION with its own. -/
theorem pduProcess_confirmation_device {value : List Byte} (hlen : value.length = 16)
    (hrole : dev.role = .device) (hs : ¬ ProvState.confirmation < dev.state) :
    pduProcess env dev (confirmationPdu value) 17 true =
      (.success, { dev with state := .confirmation, confirmationRemote := value }) := by
  have ht : ProvType.ofByte (byteAt (confirmationPdu value) 0) = some .confirmation :=
    ofByte_code .confirmation
  have hfield : field (confirmationPdu value) .confirmation = value := field_provPdu hlen
  simp only [pduProcess, ht, processConfirmation, hfield, hrole]
  rw [process_fits (by decide) hs, confirmation_again rfl]

/-- A provisioner answers it with its random value. -/
theorem pduProcess_confirmation_provisioner {value : List Byte} (hlen : value.length = 16)
    (hrole : prov.role = .provisioner) (hs : ¬ ProvState.confirmation < prov.state) :
    pduProcess env prov (confirmationPdu value) 17 true =
      (.success, { prov with state := .random, confirmationRemote := value }) := by
  have ht : ProvType.ofByte (byteAt (confirmationPdu value) 0) = some .confirmation :=
    ofByte_code .confirmation
  have hfield : field (confirmationPdu value) .confirmation = value := field_provPdu hlen
  simp only [pduProcess, ht, processConfirmation, hfield, hrole]
  rw [process_fits (by decide) hs, random_success (.inl rfl)]

/-- The session in which the keys are calculated when a RANDOM is accepted. -/
def verified (env : ProvEnv) (dev : ProvDev) (value : List Byte) : ProvDev :=
  { generateConfirmation env { dev with randomRemote := value } value true with state := .random }

/-- A RANDOM whose confirmation is the received one is accepted. -/
theorem pduProcess_random {value : List Byte} (hlen : value.length = 16)
    (hcfm : (generateConfirmation env dev value true).confirmation = dev.confirmationRemote)
    (hs : ¬ ProvState.random < dev.state) :
    pduProcess env dev (randomPdu value) 17 true =
      (.success, calculateSessionDeviceKey env (verified env dev value)) := by
  have ht : ProvType.ofByte (byteAt (randomPdu value) 0) = some .random := ofByte_code .random
  have hfield : field (randomPdu value) .random = value := field_provPdu hlen
  obtain ⟨g, hg⟩ : ∃ g,
      generateConfirmation env { dev with randomRemote := value } value true = g := ⟨_, rfl⟩
  have hcfm' : g.confirmation = dev.confirmationRemote ∧
      g.confirmationRemote = dev.confirmationRemote := by
    rw [← hg]
    exact ⟨hcfm, rfl⟩
  have hcheck : verifyConfirmation env (takeRandom dev (randomPdu value)) true = (true, g) := by
    simp only [verifyConfirmation, takeRandom, hfield, hg, hcfm'.1, hcfm'.2, decide_true]
  simp only [pduProcess, ht, processRandom, hcheck, verified, hg]
  rw [process_fits (by decide) hs]
  cases dev.role with
  | provisioner => rfl
  | device =>
    dsimp only
    rw [random_success (.inr rfl)]

variable {s : ProvState}

theorem deliver_invite (hs : prov.state = .invite) (hd : dev.state = s)
    (hlt : ¬ ProvState.invite < s) :
    deliver env prov dev = .ok { dev with state := .invite, invite := prov.invite } := by
  rw [deliver_eq (by rw [statePdu, hs])]
  exact congrArg accept (pduProcess_invite _ (hd ▸ hlt))

theorem deliver_capabilites (hs : dev.state = .capabilites)
    (hcap : validateCapabilites dev.capabilites = true)
    (hp : prov.state = s) (hlt : ¬ ProvState.capabilites < s) :
    deliver env dev prov =
      .ok { prov with state := .capabilites, capabilites := dev.capabilites } := by
  rw [deliver_eq (by rw [statePdu, hs])]
  exact congrArg accept (pduProcess_capabilites _ hcap (hp ▸ hlt))

theorem deliver_start (hs : prov.state = .start) (hval : validateStart prov.start = true)
    (hsup : isStartSupported dev prov.start = true) (hd : dev.state = s)
    (hlt : ¬ ProvState.start < s) :
    deliver env prov dev = .ok { dev with state := .start, start := prov.start } := by
  rw [deliver_eq (by rw [statePdu, hs])]
  exact congrArg accept (pduProcess_start _ hval hsup (hd ▸ hlt))

theorem deliver_publicKey (hs : prov.state = .publicKey) (hlen : prov.publicKey.length = 64)
    (hval : env.validatePublicKey prov.publicKey = true)
    (hd : dev.state = s) (hlt : ¬ ProvState.publicKey < s) :
    deliver env prov dev = .ok { dev with
      shareSecret := env.sharedSecret prov.publicKey dev.privateKey dev.shareSecret
      state := .publicKey
      publicKeyRemote := prov.publicKey } := by
  have hsize : (publicKeyPdu prov.publicKey).length = 65 := by
    simp [publicKeyPdu, provPdu, hlen]
  rw [deliver_eq (by rw [statePdu, hs]), hsize]
  exact congrArg accept (pduProcess_publicKey hlen hval (hd ▸ hlt))

theorem deliver_confirmation_device (hs : prov.state = .confirmation)
    (hlen : prov.confirmation.length = 16) (hrole : dev.role = .device)
    (hd : dev.state = s) (hlt : ¬ ProvState.confirmation < s) :
    deliver env prov dev =
      .ok { dev with state := .confirmation, confirmationRemote := prov.confirmation } := by
  have hsize : (confirmationPdu prov.confirmation).length = 17 := by
    simp [confirmationPdu, provPdu, hlen]
  rw [deliver_eq (by rw [statePdu, hs]), hsize]
  exact congrArg accept (pduProcess_confirmation_device hlen hrole (hd ▸ hlt))

theorem deliver_confirmation_provisioner (hs : dev.state = .confirmation)
    (hlen : dev.confirmation.length = 16) (hrole : prov.role = .provisioner)
    (hp : prov.state = s) (hlt : ¬ ProvState.confirmation < s) :
    deliver env dev prov =
      .ok { prov with state := .random, confirmationRemote := dev.confirmation } := by
  have hsize : (confirmationPdu dev.confirmation).length = 17 := by
    simp [confirmationPdu, provPdu, hlen]
  rw [deliver_eq (by rw [statePdu, hs]), hsize]
  exact congrArg accept (pduProcess_confirmation_provisioner hlen hrole (hp ▸ hlt))

theorem deliver_random (hs : prov.state = .random) (hlen : prov.random.length = 16)
    (hcfm : (generateConfirmation env dev prov.random true).confirmation =
      dev.confirmationRemote)
    (hd : dev.state = s) (hlt : ¬ ProvState.random < s) :
    deliver env prov dev =
      .ok (calculateSessionDeviceKey env (verified env dev prov.random)) := by
  have hsize : (randomPdu prov.random).length = 17 := by
    simp [randomPdu, provPdu, hlen]
  rw [deliver_eq (by rw [statePdu, hs]), hsize]
  exact congrArg accept (pduProcess_random hlen hcfm (hd ▸ hlt))

end Deliver

theorem Agree.confirmation_eq (h : Agree prov dev) (value : List Byte) :
    (generateConfirmation env prov value true).confirmation =
      (generateConfirmation env dev value true).confirmation := by
  simp only [generateConfirmation, if_true, h.provRole, h.devRole, h.invite, h.capabilites, h.start,
    h.shareSecret, h.authValue, h.provRemote, h.devRemote]

theorem Agree.salt_eq (h : Agree prov dev) (value value' : List Byte) :
    (generateConfirmation env prov value true).confirmationSalt =
      (generateConfirmation env dev value' true).confirmationSalt := by
  simp only [generateConfirmation, if_true, h.provRole, h.devRole, h.invite, h.capabilites, h.start,
    h.provRemote, h.devRemote]

/-- The capabilities, the start value and the data that are really sent. -/
def sentCapabilites (env : ProvEnv) (x : ExchangeInput) : ProvCapabilites :=
  (env.sample.map (·.capabilites)).getD x.capabilites

def sentStart (env : ProvEnv) (x : ExchangeInput) : ProvStart :=
  (env.sample.map (·.start)).getD x.start

def sentData (env : ProvEnv) (x : ExchangeInput) : ProvData :=
  (env.sample.map (·.data)).getD x.data

theorem isStartSupported_congr {d d' : ProvDev} (h : d.capabilites = d'.capabilites)
    (value : ProvStart) : isStartSupported d value = isStartSupported d' value := by
  simp only [isStartSupported, h]

/-- The session after INVITE, CAPABILITES and START. -/
def started (env : ProvEnv) (x : ExchangeInput) (d : ProvDev) : ProvDev :=
  { d with
    state := .start
    invite := x.invite
    capabilites := sentCapabilites env x
    start := sentStart env x }

theorem exchangeStart_ok (hp : prov.state = .linkOpened) (hd : dev.state = .linkOpened)
    (hcap : validateCapabilites (sentCapabilites env x) = true)
    (hstart : validateStart (sentStart env x) = true)
    (hsup : isStartSupported { dev with capabilites := sentCapabilites env x }
      (sentStart env x) = true) :
    exchangeStart env x prov dev = .ok (started env x prov, started env x dev) := by
  have hinvite : accept (invite prov x.invite) =
      .ok { prov with state := .invite, invite := x.invite } := by
    refine congrArg accept (admittedOnce_success ?_ ?_ ?_) <;> rw [hp] <;> decide
  have hcapCall (d : ProvDev) (h : d.state = .invite) : accept (capabilites env d x.capabilites) =
      .ok { d with state := .capabilites, capabilites := sentCapabilites env x } := by
    refine congrArg accept (admittedOnce_success ?_ ?_ ?_) <;> rw [h] <;> decide
  have hstartCall (d : ProvDev) (h : d.state = .capabilites) : accept (start env d x.start) =
      .ok { d with state := .start, start := sentStart env x } := by
    refine congrArg accept (admittedOnce_success ?_ ?_ ?_) <;> rw [h] <;> decide
  have hinvitePdu (p : ProvDev) (h : p.state = .invite) :
      deliver env p dev = .ok { dev with state := .invite, invite := p.invite } :=
    deliver_invite h hd (by decide)
  have hcapPdu (p d : ProvDev) (hd : d.state = .capabilites) (hp : p.state = .invite)
      (hc : d.capabilites = sentCapabilites env x) :
      deliver env d p = .ok { p with state := .capabilites, capabilites := d.capabilites } :=
    deliver_capabilites hd (hc ▸ hcap) hp (by decide)
  have hstartPdu (p d : ProvDev) (hp : p.state = .start) (hd : d.state = .capabilites)
      (hs : p.start = sentStart env x) (hc : d.capabilites = sentCapabilites env x) :
      deliver env p d = .ok { d with state := .start, start := p.start } := by
    refine deliver_start hp (hs ▸ hstart) ?_ hd (by decide)
    rw [hs, ← hsup]
    exact isStartSupported_congr hc _
  simp only [exchangeStart, ok_bind, hinvite, hcapCall, hstartCall, hinvitePdu, hcapPdu, hstartPdu]
  rfl

/-- The session that holds the other side's public key and the authentication value. -/
def keyed (env : ProvEnv) (d : ProvDev) (remote : List Byte) (auth : AuthValue) : ProvDev :=
  setAuthValue { d with
    shareSecret := env.sharedSecret remote d.privateKey d.shareSecret
    state := .publicKey
    publicKeyRemote := remote } auth

theorem setAuthValue_eq (d : ProvDev) (auth : AuthValue) :
    setAuthValue d auth = { d with authValue := (setAuthValue d auth).authValue } := by
  cases auth <;> simp only [setAuthValue]
  split_ifs <;> rfl

@[simp] theorem setAuthValue_random (d : ProvDev) (auth : AuthValue) :
    (setAuthValue d auth).random = d.random := by
  rw [setAuthValue_eq]

theorem setAuthValue_congr {d d' : ProvDev} (h : d.authValue = d'.authValue) (auth : AuthValue) :
    (setAuthValue d auth).authValue = (setAuthValue d' auth).authValue := by
  cases auth <;> simp only [setAuthValue, h]
  split_ifs <;> rfl

theorem exchangeKeys_ok (hp : prov.state = .start) (hd : dev.state = .start)
    (hplen : prov.publicKey.length = 64) (hdlen : dev.publicKey.length = 64)
    (hpkey : env.validatePublicKey prov.publicKey = true)
    (hdkey : env.validatePublicKey dev.publicKey = true) :
    exchangeKeys env x prov dev =
      .ok (generateConfirmation env (keyed env prov dev.publicKey x.provAuth) prov.random true,
        generateConfirmation env (keyed env dev prov.publicKey x.devAuth) dev.random true) := by
  have hcall (d : ProvDev) (h : d.state = .start ∨ d.state = .publicKey) :
      accept (publicKey d d.publicKey) = .ok { d with state := .publicKey } := by
    refine congrArg accept (admitted_success ?_ ?_) <;> rcases h with h | h <;> rw [h] <;> decide
  have hdev : deliver env { prov with state := .publicKey } dev = .ok { dev with
      shareSecret := env.sharedSecret prov.publicKey dev.privateKey dev.shareSecret
      state := .publicKey
      publicKeyRemote := prov.publicKey } :=
    deliver_publicKey rfl hplen hpkey hd (by decide)
  have hprov (d : ProvDev) (hs : d.state = .publicKey) (hk : d.publicKey = dev.publicKey) :
      deliver env d { prov with state := .publicKey } = .ok { prov with
        shareSecret := env.sharedSecret dev.publicKey prov.privateKey prov.shareSecret
        state := .publicKey
        publicKeyRemote := dev.publicKey } := by
    rw [deliver_publicKey (s := .publicKey) hs (hk ▸ hdlen) (hk ▸ hdkey) rfl (by decide), hk]
  simp only [exchangeKeys, hcall prov (.inl hp), ok_bind, hdev, hcall, or_true, hprov,
    setAuthValue_random]
  rfl

/-- The provisioner's session when it processes the device's RANDOM, and the device's when it
processes the provisioner's. -/
def provAnswered (prov dev : ProvDev) : ProvDev :=
  { prov with state := .random, confirmationRemote := dev.confirmation }

def devAnswered (prov dev : ProvDev) : ProvDev :=
  { dev with state := .confirmation, confirmationRemote := prov.confirmation }

def provVerified (env : ProvEnv) (prov dev : ProvDev) : ProvDev :=
  calculateSessionDeviceKey env (verified env (provAnswered prov dev) dev.random)

def devVerified (env : ProvEnv) (prov dev : ProvDev) : ProvDev :=
  calculateSessionDeviceKey env (verified env (devAnswered prov dev) prov.random)

/-- Sessions with the same secrets, each with its own confirmation. -/
structure Confirmed (env : ProvEnv) (prov dev : ProvDev) : Prop extends Agree prov dev where
  provRandom : prov.random.length = 16
  devRandom : dev.random.length = 16
  provConfirmation :
    prov.confirmation = (generateConfirmation env prov prov.random true).confirmation
  devConfirmation : dev.confirmation = (generateConfirmation env dev dev.random true).confirmation

theorem generateConfirmation_length (d : ProvDev) (value : List Byte) :
    (generateConfirmation env d value true).confirmation.length = 16 :=
  aesCmac_length _ _ _

theorem checked_eq (hlen : prov.random.length = 16) :
    checked env prov dev = decide
      ((generateConfirmation env dev prov.random true).confirmation = dev.confirmationRemote) := by
  have hfield : field (randomPdu prov.random) .random = prov.random := field_provPdu hlen
  simp only [checked, verifyConfirmation, takeRandom, hfield]
  rfl

theorem exchangeRandoms_ok (h : Confirmed env prov dev) (hp : prov.state = .publicKey)
    (hd : dev.state = .publicKey) :
    exchangeRandoms env prov dev =
      .ok ⟨provVerified env prov dev, devVerified env prov dev, true, true⟩ := by
  have hcall : accept (confirmation prov prov.confirmation) =
      .ok { prov with state := .confirmation } := by
    refine congrArg accept (admitted_success ?_ ?_) <;> rw [hp] <;> decide
  have hplen : prov.confirmation.length = 16 := by
    rw [h.provConfirmation]
    exact generateConfirmation_length _ _
  have hdlen : dev.confirmation.length = 16 := by
    rw [h.devConfirmation]
    exact generateConfirmation_length _ _
  have hdev : deliver env { prov with state := .confirmation } dev = .ok (devAnswered prov dev) :=
    deliver_confirmation_device rfl hplen h.devRole hd (by decide)
  have hprov : deliver env (devAnswered prov dev) { prov with state := .confirmation } =
      .ok (provAnswered prov dev) :=
    deliver_confirmation_provisioner (s := .confirmation) rfl hdlen h.provRole rfl (by decide)
  -- each side recomputes the other's confirmation from the values they share
  have hdcfm : (generateConfirmation env (devAnswered prov dev) prov.random true).confirmation =
      prov.confirmation := by
    rw [h.provConfirmation, h.confirmation_eq]
    rfl
  have hpcfm : (generateConfirmation env (provAnswered prov dev) dev.random true).confirmation =
      dev.confirmation := by
    rw [h.devConfirmation, ← h.confirmation_eq]
    rfl
  have hdrandom : deliver env (provAnswered prov dev) (devAnswered prov dev) =
      .ok (devVerified env prov dev) :=
    deliver_random (s := .confirmation) rfl h.provRandom hdcfm rfl (by decide)
  have hprandom : deliver env (devVerified env prov dev) (provAnswered prov dev) =
      .ok (provVerified env prov dev) :=
    deliver_random (s := .random) rfl h.devRandom hpcfm rfl (by decide)
  have hdcheck : checked env (provAnswered prov dev) (devAnswered prov dev) = true :=
    (checked_eq h.provRandom).trans (decide_eq_true hdcfm)
  have hpcheck : checked env (devVerified env prov dev) (provAnswered prov dev) = true :=
    (checked_eq h.devRandom).trans (decide_eq_true hpcfm)
  rw [exchangeRandoms, hcall, ok_bind, hdev, ok_bind, hprov, ok_bind]
  dsimp only
  rw [hdrandom, ok_bind, hprandom, ok_bind, hdcheck, hpcheck]
  rfl

/-- Both sides calculate the same keys from the same salt and the same random values. -/
theorem sessionKeys_eq (h : Agree prov dev) (hsalt : prov.confirmationSalt = dev.confirmationSalt)
    (hp : prov.random = dev.randomRemote) (hd : prov.randomRemote = dev.random) :
    (calculateSessionDeviceKey env prov).sessionKey =
        (calculateSessionDeviceKey env dev).sessionKey ∧
      (calculateSessionDeviceKey env prov).sessionNonce =
        (calculateSessionDeviceKey env dev).sessionNonce ∧
      (calculateSessionDeviceKey env prov).deviceKey =
        (calculateSessionDeviceKey env dev).deviceKey := by
  simp only [calculateSessionDeviceKey, h.provRole, h.devRole, h.shareSecret, hsalt, hp, hd,
    and_self]

theorem Confirmed.secrets (h : Confirmed env prov dev) :
    (provVerified env prov dev).confirmationSalt = (devVerified env prov dev).confirmationSalt ∧
      (provVerified env prov dev).sessionKey = (devVerified env prov dev).sessionKey ∧
      (provVerified env prov dev).sessionNonce = (devVerified env prov dev).sessionNonce ∧
      (provVerified env prov dev).deviceKey = (devVerified env prov dev).deviceKey := by
  have hagree : Agree (verified env (provAnswered prov dev) dev.random)
      (verified env (devAnswered prov dev) prov.random) :=
    ⟨h.provRole, h.devRole, h.invite, h.capabilites, h.start, h.shareSecret, h.authValue,
      h.provRemote, h.devRemote⟩
  have hsalt : (verified env (provAnswered prov dev) dev.random).confirmationSalt =
      (verified env (devAnswered prov dev) prov.random).confirmationSalt :=
    h.salt_eq dev.random prov.random
  exact ⟨hsalt, sessionKeys_eq hagree hsalt rfl rfl⟩

/-- The ciphertext and the MIC of the DATA PDU. -/
def sealed (env : ProvEnv) (x : ExchangeInput) (d : ProvDev) : List Byte × List Byte :=
  env.crypto.aead.encrypt d.sessionKey (d.sessionNonce.drop 3) (sentData env x).bytes 8

theorem pduProcess_data {text mic plain : List Byte} (htext : text.length = 25)
    (hmic : mic.length = 8)
    (hplain : env.crypto.aead.decrypt dev.sessionKey (dev.sessionNonce.drop 3) text mic =
      (true, plain))
    (hs : ¬ ProvState.data < dev.state) :
    pduProcess env dev (provDataPdu text mic) 34 true =
      (.success, { dev with state := .complete, data := plain }) := by
  have ht : ProvType.ofByte (byteAt (provDataPdu text mic) 0) = some .data := ofByte_code .data
  have htake : ((provDataPdu text mic).drop 1).take 25 = text := by
    simp [provDataPdu, provPdu, ← htext]
  have hdrop : ((provDataPdu text mic).drop 26).take 8 = mic := by
    simp [provDataPdu, provPdu, ← htext, ← hmic]
  simp only [pduProcess, ht, processData, htake, hdrop, hplain]
  rw [process_fits (by decide) hs]
  rfl

theorem deliver_data {plain : List Byte} (hs : prov.state = .data) (htext : prov.data.length = 25)
    (hmic : prov.mic.length = 8)
    (hplain : env.crypto.aead.decrypt dev.sessionKey (dev.sessionNonce.drop 3) prov.data prov.mic =
      (true, plain))
    (hd : ¬ ProvState.data < dev.state) :
    deliver env prov dev = .ok { dev with state := .complete, data := plain } := by
  have hsize : (provDataPdu prov.data prov.mic).length = 34 := by
    simp [provDataPdu, provPdu, htext, hmic]
  rw [deliver_eq (by rw [statePdu, hs]), hsize]
  exact congrArg accept (pduProcess_data htext hmic hplain hd)

theorem exchangeData_ok {r : Exchanged} (hp : r.prov.state = .random) (hd : r.dev.state = .random)
    (hkey : r.prov.sessionKey = r.dev.sessionKey)
    (hnonce : r.prov.sessionNonce = r.dev.sessionNonce)
    (hlen : r.prov.sessionNonce.length = 16) (hdata : (sentData env x).netKey.length = 16) :
    exchangeData env x r = .ok { r with
      prov := { r.prov with
        state := .data, data := (sealed env x r.prov).1, mic := (sealed env x r.prov).2 }
      dev := { r.dev with state := .complete, data := (sentData env x).bytes } } := by
  have hadmits : env.crypto.aead.admits (r.prov.sessionNonce.drop 3).length
      (sentData env x).bytes.length 8 := by
    rw [List.length_drop, hlen, ProvData.bytes_length hdata]
    exact env.crypto.admits (by decide) (.inr rfl)
  have hcall : accept (data env r.prov x.data) = .ok { r.prov with
      state := .data, data := (sealed env x r.prov).1, mic := (sealed env x r.prov).2 } := by
    refine congrArg accept (admittedOnce_success ?_ ?_ ?_) <;> rw [hp] <;> decide
  have htext : (sealed env x r.prov).1.length = 25 := by
    rw [sealed, env.crypto.aead.encrypt_length hadmits, ProvData.bytes_length hdata]
  have hmic : (sealed env x r.prov).2.length = 8 := env.crypto.aead.tag_length hadmits
  have hplain : env.crypto.aead.decrypt r.dev.sessionKey (r.dev.sessionNonce.drop 3)
      (sealed env x r.prov).1 (sealed env x r.prov).2 = (true, (sentData env x).bytes) := by
    rw [← hkey, ← hnonce]
    exact env.crypto.aead.decrypt_encrypt hadmits
  have hstate : ¬ ProvState.data < r.dev.state := by rw [hd]; decide
  rw [exchangeData, hcall, ok_bind, deliver_data rfl htext hmic hplain hstate]
  rfl

theorem keyed_eq (d : ProvDev) (remote : List Byte) (auth : AuthValue) :
    keyed env d remote auth = { d with
      shareSecret := env.sharedSecret remote d.privateKey d.shareSecret
      state := .publicKey
      publicKeyRemote := remote
      authValue := (setAuthValue d auth).authValue } := by
  rw [keyed, setAuthValue_eq]
  congr 1
  exact setAuthValue_congr (by rfl) auth

/-- A provisioner and a device on an opened link: the sizes of their arrays, the values they
accept from each other, the symmetry of the shared secret and equal authentication values. -/
structure Paired (env : ProvEnv) (x : ExchangeInput) (prov dev : ProvDev) : Prop where
  provState : prov.state = .linkOpened
  devState : dev.state = .linkOpened
  provRole : prov.role = .provisioner
  devRole : dev.role = .device
  provKeyLength : prov.publicKey.length = 64
  devKeyLength : dev.publicKey.length = 64
  provRandom : prov.random.length = 16
  devRandom : dev.random.length = 16
  netKeyLength : (sentData env x).netKey.length = 16
  capabilites : validateCapabilites (sentCapabilites env x) = true
  start : validateStart (sentStart env x) = true
  supported : isStartSupported { dev with capabilites := sentCapabilites env x }
    (sentStart env x) = true
  provKey : env.validatePublicKey prov.publicKey = true
  devKey : env.validatePublicKey dev.publicKey = true
  sharedSecret : env.sharedSecret dev.publicKey prov.privateKey prov.shareSecret =
    env.sharedSecret prov.publicKey dev.privateKey dev.shareSecret
  authValue : (setAuthValue prov x.provAuth).authValue = (setAuthValue dev x.devAuth).authValue

/-- The sessions when both have generated their confirmations. -/
def provKeyed (env : ProvEnv) (x : ExchangeInput) (prov dev : ProvDev) : ProvDev :=
  generateConfirmation env (keyed env (started env x prov) dev.publicKey x.provAuth) prov.random
    true

def devKeyed (env : ProvEnv) (x : ExchangeInput) (prov dev : ProvDev) : ProvDev :=
  generateConfirmation env (keyed env (started env x dev) prov.publicKey x.devAuth) dev.random true

theorem Paired.agree (h : Paired env x prov dev) :
    Agree (keyed env (started env x prov) dev.publicKey x.provAuth)
      (keyed env (started env x dev) prov.publicKey x.devAuth) := by
  rw [keyed_eq, keyed_eq]
  have hauth : (setAuthValue (started env x prov) x.provAuth).authValue =
      (setAuthValue (started env x dev) x.devAuth).authValue :=
    calc (setAuthValue (started env x prov) x.provAuth).authValue
        = (setAuthValue prov x.provAuth).authValue := setAuthValue_congr (by rfl) _
      _ = (setAuthValue dev x.devAuth).authValue := h.authValue
      _ = (setAuthValue (started env x dev) x.devAuth).authValue := setAuthValue_congr (by rfl) _
  exact ⟨h.provRole, h.devRole, rfl, rfl, rfl, h.sharedSecret, hauth, rfl, rfl⟩

theorem Paired.confirmed (h : Paired env x prov dev) :
    Confirmed env (provKeyed env x prov dev) (devKeyed env x prov dev) := by
  have hagree := h.agree
  rw [keyed_eq, keyed_eq] at hagree
  rw [provKeyed, devKeyed, keyed_eq, keyed_eq]
  obtain ⟨hprole, hdrole, hinvite, hcap, hstart, hsecret, hauth, hpremote, hdremote⟩ := hagree
  exact ⟨⟨hprole, hdrole, hinvite, hcap, hstart, hsecret, hauth, hpremote, hdremote⟩,
    h.provRandom, h.devRandom, rfl, rfl⟩

/-- Both ends derive the same secrets: from an opened link on, whatever else the sessions held
before, the exchange succeeds with both confirmation checks passed, the secrets are equal and
the device has decrypted the data that the provisioner sent. -/
theorem provExchange_agree (h : Paired env x prov dev) :
    ∃ r, provExchange env x prov dev = .ok r ∧
      r.devCheck = true ∧ r.provCheck = true ∧
      r.prov.confirmationSalt = r.dev.confirmationSalt ∧
      r.prov.sessionKey = r.dev.sessionKey ∧
      r.prov.sessionNonce = r.dev.sessionNonce ∧
      r.prov.deviceKey = r.dev.deviceKey ∧
      r.dev.state = .complete ∧
      ProvData.ofBytes r.dev.data = sentData env x := by
  have hs := exchangeStart_ok h.provState h.devState h.capabilites h.start h.supported
  have hk : exchangeKeys env x (started env x prov) (started env x dev) =
      .ok (provKeyed env x prov dev, devKeyed env x prov dev) :=
    exchangeKeys_ok rfl rfl h.provKeyLength h.devKeyLength h.provKey h.devKey
  have hstate (d : ProvDev) (remote : List Byte) (auth : AuthValue) (value : List Byte) :
      (generateConfirmation env (keyed env d remote auth) value true).state = .publicKey := by
    rw [keyed_eq]
    rfl
  have hc := h.confirmed
  have hr := exchangeRandoms_ok hc (hstate _ _ _ _) (hstate _ _ _ _)
  obtain ⟨hsalt, hkey, hnonce, hdevice⟩ := hc.secrets
  have hrun : provExchange env x prov dev = exchangeData env x
      ⟨provVerified env (provKeyed env x prov dev) (devKeyed env x prov dev),
        devVerified env (provKeyed env x prov dev) (devKeyed env x prov dev), true, true⟩ := by
    rw [provExchange, hs, ok_bind]
    dsimp only
    rw [hk, ok_bind]
    dsimp only
    rw [hr, ok_bind]
  rw [exchangeData_ok rfl rfl hkey hnonce (aesCmac_length _ _ _) h.netKeyLength] at hrun
  have hdata := ProvData.ofBytes_bytes h.netKeyLength
  exact ⟨_, hrun, rfl, rfl, hsalt, hkey, hnonce, hdevice, rfl, hdata⟩

/-- A session on an opened link, its key pair made of one repeated byte. -/
def openedSession (role : Role) (b : Byte) : ProvDev :=
  { createDevice maskEnv role (List.replicate 64 b, List.replicate 32 b) (List.replicate 16 (b + 7))
    with state := .linkOpened }

def plainInput : ExchangeInput where
  invite := 5
  capabilites := ⟨1, 1, 0, 0, 0, 0, 0, 0⟩
  start := ⟨0, 0, 0, 0, 0⟩
  provAuth := .noOob
  devAuth := .noOob
  data := ⟨List.replicate 16 9, 0x567, 0, 0x01020304, 0x0b0c⟩

theorem provExchange_agree_example :
    ∃ r, provExchange maskEnv plainInput (openedSession .provisioner 1) (openedSession .device 2) =
        .ok r ∧
      r.devCheck = true ∧ r.provCheck = true ∧
      r.prov.confirmationSalt = r.dev.confirmationSalt ∧
      r.prov.sessionKey = r.dev.sessionKey ∧
      r.prov.sessionNonce = r.dev.sessionNonce ∧
      r.prov.deviceKey = r.dev.deviceKey ∧
      r.dev.state = .complete ∧
      ProvData.ofBytes r.dev.data = plainInput.data :=
  provExchange_agree
    { provState := rfl, devState := rfl, provRole := rfl, devRole := rfl, provKeyLength := rfl,
      devKeyLength := rfl, provRandom := rfl, devRandom := rfl, netKeyLength := rfl,
      capabilites := by decide, start := by decide, supported := by decide, provKey := rfl,
      devKey := rfl, sharedSecret := by decide, authValue := rfl }

end Meshx.Prov
