import Meshx.TransNumbers

/-! The PDUs of the two roles. `meshx_prov_pdu_process` takes every PDU in either role, up to the
state that its type leads to, so it keeps the roles apart only where the peer does. -/
namespace Meshx.Prov

open Lib

section Pdu

variable {env : ProvEnv} {dev : ProvDev} {pdata : List Byte} {len : Byte} {mallocOk : Bool}
  {type : ProvType}

/-- The state that has the name of the PDU. -/
def ProvType.state : ProvType → ProvState
  | .invite => .invite
  | .capabilites => .capabilites
  | .start => .start
  | .publicKey => .publicKey
  | .inputComplete => .inputComplete
  | .confirmation => .confirmation
  | .random => .random
  | .data => .data
  | .complete => .complete
  | .failed => .failed

/-- The state in which a PDU that is taken leaves the session, after its answer. -/
def takenState (role : Role) : ProvType → ProvState
  | .confirmation =>
    match role with
    | .device => .confirmation
    | .provisioner => .random
  | .data => .complete
  | type => type.state

/-- The content of the PDU passes the checks of its case. -/
def validContent (env : ProvEnv) (dev : ProvDev) (pdata : List Byte) (mallocOk : Bool) :
    ProvType → Bool
  | .capabilites => validateCapabilites (ProvCapabilites.ofBytes (field pdata .capabilites))
  | .start =>
    validateStart (ProvStart.ofBytes (field pdata .start)) &&
      isStartSupported dev (ProvStart.ofBytes (field pdata .start))
  | .publicKey => env.validatePublicKey (field pdata .publicKey)
  | .random => (verifyConfirmation env (takeRandom dev pdata) mallocOk).1
  | .data =>
    (env.crypto.aead.decrypt dev.sessionKey (dev.sessionNonce.drop 3) ((pdata.drop 1).take 25)
      ((pdata.drop 26).take 8)).1
  | _ => true

/-- The PDU passes the checks on its length, on the state and on its content. -/
def Taken (env : ProvEnv) (dev : ProvDev) (pdata : List Byte) (len : Byte) (mallocOk : Bool)
    (type : ProvType) : Prop :=
  1 + type.size ≤ len.toNat ∧ dev.state ≤ type.state ∧
    validContent env dev pdata mallocOk type = true

instance : Decidable (Taken env dev pdata len mallocOk type) := inferInstanceAs (Decidable (_ ∧ _))

/-- The session is where it was, or has failed. -/
def Refused (before after : ProvState) : Prop := after = before ∨ after = .failed

theorem refused_failed {d : ProvDev} (h : d.state = dev.state) (code : Byte) :
    Refused dev.state (failed d code).2.state := by
  rcases @failed_state d code with ⟨-, -, hs⟩ | ⟨-, -, hs⟩
  · exact .inr hs
  · rw [hs]
    exact .inl h

/-- What a PDU of the type makes of the state, when its case does `act` at last. -/
theorem process_state {act : Errno × ProvDev}
    (hvalid : validContent env dev pdata mallocOk type = true → dev.state ≤ type.state →
      act.2.state = takenState dev.role type)
    (hbad : validContent env dev pdata mallocOk type = false → Refused dev.state act.2.state) :
    if Taken env dev pdata len mallocOk type then
      (process dev type type.state len act).2.state = takenState dev.role type
    else Refused dev.state (process dev type type.state len act).2.state := by
  unfold process
  split_ifs with htaken hlen hstate hlen hstate
  · exact absurd htaken.1 (not_le.mpr hlen)
  · exact absurd htaken.2.1 (not_le.mpr hstate)
  · exact hvalid htaken.2.2 htaken.2.1
  · exact refused_failed rfl _
  · exact refused_failed rfl _
  · refine hbad ?_
    rw [← Bool.not_eq_true]
    exact fun hv => htaken ⟨not_lt.mp hlen, not_lt.mp hstate, hv⟩

/-- A case whose check is not passed answers with a failure. -/
theorem refused_refuse {d : ProvDev} (h : d.state = dev.state) (ret : Errno)
    (reason : ProvFailed) : Refused dev.state (refuse d ret reason).2.state :=
  refused_failed h _

theorem pduProcess_state (ht : ProvType.ofByte (byteAt pdata 0) = some type)
    (hf : type ≠ .failed) :
    if Taken env dev pdata len mallocOk type then
      (pduProcess env dev pdata len mallocOk).2.state = takenState dev.role type
    else Refused dev.state (pduProcess env dev pdata len mallocOk).2.state := by
  unfold pduProcess
  rw [ht]
  cases type with
  | failed => exact absurd rfl hf
  | invite | inputComplete | complete =>
    exact process_state (fun _ _ => rfl) fun h => absurd (show true = false from h) (by decide)
  | capabilites | publicKey =>
    refine process_state (fun hv _ => ?_) fun hv => ?_ <;> rw [validContent] at hv
    · rw [if_pos hv]
      rfl
    · rw [if_neg (Bool.eq_false_iff.mp hv)]
      exact refused_refuse rfl _ _
  | start =>
    refine process_state (fun hv _ => ?_) fun hv => ?_
    · obtain ⟨hvalid, hsup⟩ := Bool.and_eq_true_iff.mp hv
      rw [hvalid, hsup]
      rfl
    · split_ifs with hvalid hsup
      · exact refused_refuse rfl _ _
      · exact refused_refuse rfl _ _
      · simp only [Bool.not_eq_true', Bool.not_eq_false] at hvalid hsup
        rw [validContent, hvalid, hsup] at hv
        cases hv
  | confirmation =>
    refine process_state (fun _ _ => ?_) fun h => absurd (show true = false from h) (by decide)
    cases hrole : dev.role <;> rfl
  | random =>
    have hstate : (verifyConfirmation env (takeRandom dev pdata) mallocOk).2.state = dev.state :=
      (generateConfirmation_keeps env _ _ mallocOk).1
    refine process_state (fun hv _ => ?_) fun hv => ?_ <;> rw [validContent] at hv <;>
      generalize verifyConfirmation env (takeRandom dev pdata) mallocOk = out at hv hstate ⊢ <;>
      obtain ⟨ok, d⟩ := out
    · obtain rfl : ok = true := hv
      cases hrole : dev.role <;> rfl
    · obtain rfl : ok = false := hv
      exact refused_refuse hstate _ _
  | data =>
    refine process_state (fun hv _ => ?_) fun hv => ?_ <;> rw [validContent] at hv <;>
      generalize env.crypto.aead.decrypt dev.sessionKey (dev.sessionNonce.drop 3)
        ((pdata.drop 1).take 25) ((pdata.drop 26).take 8) = out at hv ⊢ <;>
      obtain ⟨ok, text⟩ := out
    · obtain rfl : ok = true := hv
      rfl
    · obtain rfl : ok = false := hv
      exact @refused_refuse dev { dev with data := text } rfl _ _

/-- A failure report and a PDU of no known type take the session nowhere else. -/
theorem pduProcess_refused (h : ∀ type ∈ ProvType.ofByte (byteAt pdata 0), type = .failed) :
    Refused dev.state (pduProcess env dev pdata len mallocOk).2.state := by
  unfold pduProcess
  cases ht : ProvType.ofByte (byteAt pdata 0) with
  | none => exact refused_failed rfl _
  | some type =>
    obtain rfl := h type ht
    dsimp only
    split_ifs
    · exact .inl rfl
    · exact .inr rfl

/-- No PDU leaves a session in DATA that was not there. -/
theorem pduProcess_state_data (h : (pduProcess env dev pdata len mallocOk).2.state = .data) :
    dev.state = .data := by
  have hrefused (hr : Refused dev.state (pduProcess env dev pdata len mallocOk).2.state) :
      dev.state = .data := by
    rcases hr with hs | hs
    · exact hs.symm.trans h
    · exact absurd (hs.symm.trans h) (by decide)
  by_cases hfailed : ∀ type ∈ ProvType.ofByte (byteAt pdata 0), type = .failed
  · exact hrefused (pduProcess_refused hfailed)
  · obtain ⟨type, ht, hf⟩ : ∃ type ∈ ProvType.ofByte (byteAt pdata 0), type ≠ .failed := by
      simpa using hfailed
    have hstate := @pduProcess_state env dev pdata len mallocOk type ht hf
    split_ifs at hstate with htaken
    · rw [h] at hstate
      cases type <;> cases hrole : dev.role <;> simp [takenState, ProvType.state, hrole] at hstate
    · exact hrefused hstate

end Pdu

end Meshx.Prov

namespace Meshx.PbAdv

open Lib Prov

section Data

variable {cfg : Config} {accepts : List Byte → Bool} {w : World} {s t : PbAdvDev} {c : Call}
  {e : SessionEvent × World}

/-- The call sends the encrypted data. -/
def sendsData (s : PbAdvDev) : Call → Bool
  | .data value => decide (Sends s.dev.state (.data value))
  | _ => false

def callsSendData (cfg : Config) (accepts : List Byte → Bool) : PbAdvDev → List Call → Bool
  | _, [] => false
  | s, c :: cs => sendsData s c || callsSendData cfg accepts (call cfg accepts s c).1 cs

/-- The application sends the encrypted data in the step. -/
def stepSendsData (cfg : Config) (s : PbAdvDev) : SessionEvent × World → Bool
  | (.call c, _) => sendsData s c
  | (.recv pdata, w) =>
    match notified cfg w s pdata with
    | some u => callsSendData cfg w.accepts u w.onOpened
    | none => false
  | (.timeout, _) => false

theorem sending_state (type : ProvType) (r : Errno × ProvDev) :
    (sending s type r).dev.state = r.2.state := by
  unfold sending
  split_ifs
  · obtain ⟨n, hn⟩ := pbAdvSend_eq s r.2 type
    rw [hn]
    rfl
  · rfl

/-- A call that sends a PDU leads to the state that has its name. -/
theorem call_state (h : Sends s.dev.state c) : ∃ type, c.pdu = some type ∧
    (call cfg accepts s c).1.dev.state = type.state := by
  have honce {type : ProvType} {first last : ProvState} {act : ProvDev} (hact : act.state = last)
      (h : first ≤ s.dev.state ∧ s.dev.state < last) :
      (sending s type (admittedOnce s.dev first last act)).dev.state = last := by
    rw [sending_state]
    rcases @admittedOnce_state s.dev first last act hact with ⟨-, -, -, hs⟩ | ⟨hno, -⟩
    · exact hs
    · exact absurd h hno
  have hadmitted {type : ProvType} {first last : ProvState} {act : ProvDev}
      (hact : act.state = last) (h : first ≤ s.dev.state ∧ s.dev.state ≤ last) :
      (sending s type (admitted s.dev first last act)).dev.state = last := by
    rw [sending_state]
    rcases @admitted_state s.dev first last act hact with ⟨-, -, -, hs⟩ | ⟨hno, -⟩
    · exact hs
    · exact absurd h hno
  cases c with
  | setup | linkOpen | linkClose | makeKey | setRemotePublicKey | setAuthValue | generateRandom
  | generateConfirmation => exact h.elim
  | invite | capabilites | start | data | complete => exact ⟨_, rfl, honce rfl h⟩
  | publicKey | inputComplete | confirmation | random => exact ⟨_, rfl, hadmitted rfl h⟩
  | failed errCode =>
    refine ⟨_, rfl, (sending_state _ _).trans ?_⟩
    rcases @failed_state s.dev errCode with ⟨-, -, hs⟩ | ⟨hno, -⟩
    · exact hs
    · exact absurd h hno

/-- Only `meshx_prov_data` brings a session to DATA. -/
theorem call_data (h : (call cfg accepts s c).1.dev.state = .data) :
    s.dev.state = .data ∨ sendsData s c = true := by
  by_cases hc : Sends s.dev.state c
  · obtain ⟨type, hpdu, hstate⟩ := @call_state cfg accepts s c hc
    rw [h] at hstate
    cases c with
    | data value => exact .inr (decide_eq_true hc)
    | setup | linkOpen | linkClose | makeKey | setRemotePublicKey | setAuthValue | generateRandom
    | generateConfirmation => exact hc.elim
    | _ =>
      cases hpdu
      cases hstate
  · have hcases := call_cases cfg accepts s c
    generalize (call cfg accepts s c).1 = t at hcases h
    cases hcases with
    | kept hc d hd => exact .inl (hd.symm.trans h)
    | opened => simp [opening, startTimer] at h
    | closed => simp [closing, startTimer] at h
    | sent hs => exact absurd hs hc

theorem sendsData_state (h : sendsData s c = true) :
    (call cfg accepts s c).1.dev.state = .data := by
  cases c with
  | data value =>
    obtain ⟨type, hpdu, hstate⟩ := @call_state cfg accepts s (.data value) (of_decide_eq_true h)
    cases hpdu
    exact hstate
  | _ => cases h

theorem Called.data_le (h : Called s c t) (hs : .data ≤ s.dev.state) : .data ≤ t.dev.state := by
  cases h with
  | kept hc d hd => exact hd ▸ hs
  | opened hc hidle => exact absurd (hidle ▸ hs) (by decide)
  | closed => exact le_linkClosing _
  | sent hc d n h₁ h₂ hlast hle =>
    rcases hle with hle | ⟨-, hd⟩
    · exact hs.trans hle
    · exact hd ▸ by decide

theorem calls_data_le (hs : .data ≤ s.dev.state) (accepts : List Byte → Bool) (cs : List Call) :
    .data ≤ (calls cfg accepts s cs).1.dev.state :=
  calls_invariant (P := fun s => .data ≤ s.dev.state) (fun _ _ _ hs h => h.data_le hs)
    accepts cs hs

theorem calls_data (cs : List Call) :
    ((calls cfg accepts s cs).1.dev.state = .data →
      s.dev.state = .data ∨ callsSendData cfg accepts s cs = true) ∧
    (callsSendData cfg accepts s cs = true → .data ≤ (calls cfg accepts s cs).1.dev.state) := by
  induction cs generalizing s with
  | nil => exact ⟨.inl, fun h => absurd h Bool.false_ne_true⟩
  | cons c cs ih =>
    obtain ⟨hdata, hsent⟩ := @ih (call cfg accepts s c).1
    rw [callsSendData, Bool.or_eq_true]
    constructor
    · intro h
      rcases hdata h with hcall | hcalls
      · exact (call_data hcall).imp id .inl
      · exact .inr (.inr hcalls)
    · rintro (hcall | hcalls)
      · exact calls_data_le (sendsData_state hcall).ge accepts cs
      · exact hsent hcalls

theorem TimedOut.data_le (h : TimedOut w s (some t)) (hs : .data ≤ s.dev.state) :
    .data ≤ t.dev.state := by
  cases h with
  | processed hon ht hd hnum s' hs' =>
    have hmoved {d : ProvDev} {answer : Option ProvType}
        (h : Processed (acked w s).dev.state d.state answer) : .data ≤ d.state := by
      rw [acked_dev] at h
      cases h with
      | kept hd => exact hd ▸ hs
      | moved hle' => exact hs.trans hle'
      | failed hd => exact hd ▸ by decide
      | refused hr hd => exact hd ▸ by decide
    cases hs' with
    | quiet d hd => exact hmoved hd
    | answered d n type hd => exact hmoved hd
  | badNum hon ht hd hbad d n hstate => exact hstate ▸ hs
  | lossClosed | expired => exact le_linkClosing _
  | _ => exact hs

/-- A session that has come to DATA does not go back before it. -/
theorem sessionNext_data_le (hnext : sessionNext cfg (some s) e = .ok (some t))
    (hs : .data ≤ s.dev.state) : .data ≤ t.dev.state := by
  obtain ⟨e, w⟩ := e
  cases stepped_of_ok hnext with
  | discarded => exact hs
  | received hp hreceived => exact hs.trans hreceived.forward
  | called hcalled => exact hcalled.data_le hs
  | timedOut hfree htimed => exact htimed.data_le hs

theorem timeout_data (hnext : sessionNext cfg (some s) (.timeout, w) = .ok (some t))
    (h : t.dev.state = .data) : s.dev.state = .data := by
  by_cases hdue : ProcessDue s
  · rw [timeout_processDue hdue] at hnext
    obtain rfl := Option.some.inj (Except.ok.inj hnext)
    rw [process_dev, acked_dev] at h
    exact pduProcess_state_data h
  · cases stepped_of_ok hnext with
    | timedOut hfree htimed =>
      cases htimed with
      | processed hon ht hd hnum => exact absurd ⟨hon, ht, hd, hnum⟩ hdue
      | badNum hon ht hd hbad d n hstate => exact hstate.symm.trans h
      | lossClosed | expired => simp [closing, startTimer] at h
      | _ => exact h

theorem notified_state {pdata : List Byte} {u : PbAdvDev} (h : notified cfg w s pdata = some u) :
    u.dev.state = .linkOpened := by
  unfold notified at h
  split at h
  · split_ifs at h
    obtain rfl := Option.some.inj h
    rfl
  · cases h

theorem recvLinkOpen_data {linkId : BitVec 32} {o : Option PbAdvDev}
    (hno : ¬ (s.dev.state ≤ .linkOpening ∧ w.accepts (linkAckPkt linkId) = true))
    (ho : (recvLinkOpen cfg w s linkId).dev = o) (ht : o = some t) (h : t.dev.state = .data) :
    s.dev.state = .data := by
  by_cases hle : s.dev.state ≤ .linkOpening
  · rw [(@recvLinkOpen_of_idle cfg w s linkId hle).2 fun hacc => hno ⟨hle, hacc⟩] at ho
    obtain rfl := Option.some.inj (ho.trans ht)
    cases h
  · rw [recvLinkOpen_dev_of_opened (not_le.mp hle)] at ho
    obtain rfl := Option.some.inj (ho.trans ht)
    exact h

/-- Where the application is not notified a packet does not bring the session to DATA. -/
theorem recv_data {pdata : List Byte} (hno : notified cfg w s pdata = none)
    (hnext : sessionNext cfg (some s) (.recv pdata, w) = .ok (some t))
    (h : t.dev.state = .data) : s.dev.state = .data := by
  obtain ⟨out, hout, hsome⟩ := map_ok hnext
  obtain ⟨out', hrecv, rfl⟩ := map_ok hout
  cases stepped_of_ok hnext with
  | discarded => exact h
  | received hp hreceived =>
    cases hreceived with
    | unacked linkId devUuid hle d hd => cases hd.symm.trans h
    | accepted linkId devUuid =>
      have hopen : ¬ (takesOpen cfg s devUuid ∧ s.dev.state ≤ .linkOpening ∧
          w.accepts (linkAckPkt linkId) = true) := fun hc => by
        simp only [notified, hp] at hno
        rw [if_pos hc] at hno
        cases hno
      simp only [recv, hp] at hrecv
      split_ifs at hrecv with htakes
      · obtain rfl := Except.ok.inj hrecv
        exact recvLinkOpen_data (fun hc => hopen ⟨htakes, hc⟩) rfl hsome h
      · obtain rfl := Except.ok.inj hrecv
        exact (Option.some.inj hsome) ▸ h
    | restored linkId devUuid ho d hd => exact hd.symm.trans h
    | established => cases h
    | ended => simp [closing, startTimer] at h
    | started linkId fcs pdu hstarts hlen hin t ht => exact ht.dev ▸ h
    | continued linkId pdu hcont hlen hin t ht => exact ht.dev ▸ h
    | _ => exact h

/-- DATA is reached in a step that sends the data, and such a step leads there or further. -/
theorem sessionNext_data (hnext : sessionNext cfg (some s) e = .ok (some t)) :
    (t.dev.state = .data → s.dev.state = .data ∨ stepSendsData cfg s e = true) ∧
    (stepSendsData cfg s e = true → .data ≤ t.dev.state) := by
  obtain ⟨e, w⟩ := e
  cases e with
  | call c =>
    obtain rfl : (call cfg w.accepts s c).1 = t := Option.some.inj (Except.ok.inj hnext)
    exact ⟨call_data, fun h => (sendsData_state h).ge⟩
  | timeout => exact ⟨fun h => .inl (timeout_data hnext h), fun h => absurd h Bool.false_ne_true⟩
  | recv pdata =>
    simp only [stepSendsData]
    cases hn : notified cfg w s pdata with
    | none => exact ⟨fun h => .inl (recv_data hn hnext h), fun h => absurd h Bool.false_ne_true⟩
    | some u =>
      rw [(notified_next hn).2] at hnext
      obtain rfl := Option.some.inj (Except.ok.inj hnext)
      obtain ⟨hdata, hsent⟩ := @calls_data cfg w.accepts u w.onOpened
      refine ⟨fun h => .inr ((hdata h).resolve_left ?_), hsent⟩
      rw [notified_state hn]
      decide

end Data

section Runs

variable {cfg : Config} {w : World} {s t : PbAdvDev}

/-- A session, and whether the application has sent the encrypted data on it. -/
structure DataSession where
  session : Option PbAdvDev
  sent : Bool

def DataSession.next (cfg : Config) (h : DataSession) (e : SessionEvent × World) :
    Except Fault DataSession :=
  match h.session with
  | none => .ok h
  | some s => (sessionNext cfg (some s) e).map fun o => ⟨o, h.sent || stepSendsData cfg s e⟩

/-- The PDUs that a provisioner sends. -/
def ofProvisioner (type : ProvType) : Prop := type = .invite ∨ type = .start ∨ type = .data

/-- The PDUs that a device sends. -/
def ofDevice (type : ProvType) : Prop := type = .capabilites ∨ type = .complete

/-- What the reassembled PDU has made of the session is for its role, and a provisioner has come
to COMPLETE only with its data sent. -/
structure Apart (s : PbAdvDev) (sent : Bool) (t : PbAdvDev) : Prop where
  complete : s.dev.role = .provisioner → s.dev.state ≠ .complete → t.dev.state = .complete →
    sent = true
  device : ∀ type ∈ ProvType.ofByte (byteAt s.provRxPdu 0), ofProvisioner type →
    t.dev.state ≠ s.dev.state → t.dev.state ≠ .failed → s.dev.role = .device
  provisioner : ∀ type ∈ ProvType.ofByte (byteAt s.provRxPdu 0), ofDevice type →
    t.dev.state ≠ s.dev.state → t.dev.state ≠ .failed → s.dev.role = .provisioner

/-- A PDU that is processed in the step keeps the roles apart. -/
def KeepsApart (cfg : Config) (h : DataSession) (e : SessionEvent × World) : Prop :=
  ∀ s t, h.session = some s → e.1 = .timeout → ProcessDue s →
    sessionNext cfg (some s) e = .ok (some t) → Apart s h.sent t

/-- A PDU that is taken is for the role, or does no more than repeat the one before; COMPLETE
comes to a provisioner that is in DATA. -/
def Suits (role : Role) (state : ProvState) : ProvType → Prop
  | .invite => role = .provisioner → state = .invite
  | .start => role = .provisioner → state = .start
  | .data => role = .device
  | .capabilites => role = .device → state = .capabilites
  | .complete => state = .complete ∨ role = .provisioner ∧ state = .data
  | _ => True

/-- The PDU that is processed, if it passes its checks, suits the session. -/
def PduSuits (cfg : Config) (h : DataSession) (e : SessionEvent × World) : Prop :=
  match h.session, e with
  | some s, (.timeout, w) => ProcessDue s → ∀ type ∈ ProvType.ofByte (byteAt s.provRxPdu 0),
    Taken cfg.prov s.dev s.provRxPdu (BitVec.ofNat 8 s.transDataLen) w.mallocOk type →
      Suits s.dev.role s.dev.state type
  | _, _ => True

/-- The data is sent by the time the session is in DATA, and it never goes back from there. -/
structure DataSession.Sound (h : DataSession) : Prop where
  sent : ∀ s, h.session = some s → s.dev.state = .data → h.sent = true
  data_le : ∀ s, h.session = some s → h.sent = true → .data ≤ s.dev.state

theorem DataSession.Sound.next {h h' : DataSession} {e : SessionEvent × World} (hs : h.Sound)
    (hnext : h.next cfg e = .ok h') : h'.Sound := by
  obtain ⟨o, sent⟩ := h
  cases o with
  | none =>
    cases hnext
    exact hs
  | some s =>
    obtain ⟨o, ho, rfl⟩ := map_ok hnext
    constructor
    · rintro t rfl hdata
      rw [Bool.or_eq_true]
      exact ((sessionNext_data ho).1 hdata).imp (hs.sent s rfl) id
    · rintro t rfl hsent
      rcases (Bool.or_eq_true _ _).mp hsent with hbefore | hnow
      · exact sessionNext_data_le ho (hs.data_le s rfl hbefore)
      · exact (sessionNext_data ho).2 hnow

variable {sent : Bool} {type : ProvType}

theorem apart_of_refused (h : Refused s.dev.state t.dev.state) : Apart s sent t where
  complete _ hne ht := by
    rcases h with hs | hs
    · exact absurd (hs.symm.trans ht) hne
    · exact absurd (hs.symm.trans ht) (by decide)
  device _ _ _ hne hf := (h.elim hne hf).elim
  provisioner _ _ _ hne hf := (h.elim hne hf).elim

theorem apart_iff (ht : ProvType.ofByte (byteAt s.provRxPdu 0) = some type) : Apart s sent t ↔
    (s.dev.role = .provisioner → s.dev.state ≠ .complete → t.dev.state = .complete →
      sent = true) ∧
    (ofProvisioner type → t.dev.state ≠ s.dev.state → t.dev.state ≠ .failed →
      s.dev.role = .device) ∧
    (ofDevice type → t.dev.state ≠ s.dev.state → t.dev.state ≠ .failed →
      s.dev.role = .provisioner) := by
  constructor
  · exact fun h => ⟨h.complete, h.device type ht, h.provisioner type ht⟩
  · rintro ⟨hc, hd, hp⟩
    refine ⟨hc, fun type' ht' => ?_, fun type' ht' => ?_⟩
    · obtain rfl := Option.some.inj (ht.symm.trans ht')
      exact hd
    · obtain rfl := Option.some.inj (ht.symm.trans ht')
      exact hp

/-- A PDU that is taken keeps the roles apart exactly if it suits the session. -/
theorem apart_iff_suits (ht : ProvType.ofByte (byteAt s.provRxPdu 0) = some type)
    (hle : s.dev.state ≤ type.state) (hafter : t.dev.state = takenState s.dev.role type)
    (hsent : s.dev.state = .data → sent = true) (hdata : sent = true → .data ≤ s.dev.state) :
    Apart s sent t ↔ Suits s.dev.role s.dev.state type := by
  rw [apart_iff ht, hafter]
  cases type with
  | data =>
    have hne : s.dev.state ≠ .complete := fun h => absurd (h ▸ hle) (by decide)
    cases hrole : s.dev.role <;>
      simp [takenState, Suits, ofProvisioner, ofDevice, hne.symm]
  | complete =>
    cases hrole : s.dev.role with
    | device => simp [takenState, ProvType.state, Suits, ofProvisioner, ofDevice, eq_comm]
    | provisioner =>
      simp only [takenState, ProvType.state, Suits, ofProvisioner, ofDevice]
      constructor
      · intro h
        by_cases hc : s.dev.state = .complete
        · exact .inl hc
        · have hlt : s.dev.state < .complete := lt_of_le_of_ne hle hc
          refine .inr ⟨trivial, le_antisymm ?_ (hdata (h.1 trivial hc trivial))⟩
          revert hlt
          cases s.dev.state <;> decide
      · intro h
        refine ⟨fun _ hc _ => hsent (h.resolve_left hc).2, fun h => ?_, fun _ _ _ => trivial⟩
        simp at h
  | _ =>
    cases hrole : s.dev.role <;>
      simp [takenState, ProvType.state, Suits, ofProvisioner, ofDevice, eq_comm]

theorem DataSession.Sound.keepsApart_iff {h : DataSession} (hs : h.Sound)
    (e : SessionEvent × World) : KeepsApart cfg h e ↔ PduSuits cfg h e := by
  obtain ⟨o, sent⟩ := h
  obtain ⟨e, w⟩ := e
  cases o with
  | none => exact iff_of_true (fun _ _ hs => by cases hs) trivial
  | some s =>
  cases e with
  | recv pdata => exact iff_of_true (fun _ _ _ he => by cases he) trivial
  | call c => exact iff_of_true (fun _ _ _ he => by cases he) trivial
  | timeout =>
    have hkeeps : KeepsApart cfg ⟨some s, sent⟩ (.timeout, w) ↔ (ProcessDue s →
        Apart s sent (process cfg w (acked w s) s.transDataLen)) := by
      constructor
      · exact fun h hdue => h s _ rfl rfl hdue (timeout_processDue hdue)
      · rintro h s' t hs' - hdue hnext
        obtain rfl := Option.some.inj hs'
        rw [timeout_processDue hdue] at hnext
        obtain rfl := Option.some.inj (Except.ok.inj hnext)
        exact h hdue
    have hsuits : PduSuits cfg ⟨some s, sent⟩ (.timeout, w) ↔ (ProcessDue s →
        ∀ type ∈ ProvType.ofByte (byteAt s.provRxPdu 0),
          Taken cfg.prov s.dev s.provRxPdu (BitVec.ofNat 8 s.transDataLen) w.mallocOk type →
            Suits s.dev.role s.dev.state type) := Iff.rfl
    rw [hkeeps, hsuits]
    refine imp_congr_right fun hdue => ?_
    have hstate : (process cfg w (acked w s) s.transDataLen).dev.state = (pduProcess cfg.prov s.dev
        s.provRxPdu (BitVec.ofNat 8 s.transDataLen) w.mallocOk).2.state := by
      rw [process_dev, acked_dev, acked_provRxPdu]
    by_cases hfailed : ∀ type ∈ ProvType.ofByte (byteAt s.provRxPdu 0), type = .failed
    · refine iff_of_true (apart_of_refused ?_) fun type ht _ => ?_
      · rw [hstate]
        exact pduProcess_refused hfailed
      · rw [hfailed type ht]
        trivial
    · obtain ⟨type, ht, hf⟩ : ∃ type ∈ ProvType.ofByte (byteAt s.provRxPdu 0),
          type ≠ .failed := by simpa using hfailed
      have hcase := @pduProcess_state cfg.prov s.dev s.provRxPdu (BitVec.ofNat 8 s.transDataLen)
        w.mallocOk type ht hf
      rw [← hstate] at hcase
      have hone : (∀ type' ∈ ProvType.ofByte (byteAt s.provRxPdu 0),
          Taken cfg.prov s.dev s.provRxPdu (BitVec.ofNat 8 s.transDataLen) w.mallocOk type' →
            Suits s.dev.role s.dev.state type') ↔
          (Taken cfg.prov s.dev s.provRxPdu (BitVec.ofNat 8 s.transDataLen) w.mallocOk type →
            Suits s.dev.role s.dev.state type) := by
        rw [Option.mem_def.mp ht]
        simp
      rw [hone]
      split_ifs at hcase with htaken
      · rw [apart_iff_suits ht htaken.2.1 hcase (hs.sent s rfl) (hs.data_le s rfl)]
        exact ⟨fun h _ => h, fun h => h htaken⟩
      · exact iff_of_true (apart_of_refused hcase) fun h => absurd h htaken

/-- A run keeps the roles apart exactly if every PDU in it that is taken suits the session. -/
theorem roles_apart (cfg : Config) (devUuid : List Byte) (role : Role)
    (es : List (SessionEvent × World)) :
    RunAll (DataSession.next cfg) (KeepsApart cfg) ⟨some (clearedSession devUuid role), false⟩ es ↔
      RunAll (DataSession.next cfg) (PduSuits cfg)
        ⟨some (clearedSession devUuid role), false⟩ es := by
  refine RunAll.iff_of_invariant (fun _ _ _ (hs : DataSession.Sound _) _ hnext => hs.next hnext)
    (fun _ e hs => hs.keepsApart_iff e) ⟨fun s hs hdata => ?_, fun _ _ h => ?_⟩
  · obtain rfl := Option.some.inj hs
    cases hdata
  · cases h

/-- A device answers the opened link with a COMPLETE PDU. -/
def earlyComplete : List (SessionEvent × World) :=
  [(.call (.linkOpen 7), plainWorld), (.recv (linkAckPkt 7), plainWorld),
    (.recv (transStartPkt 7 0x80 0 1 (crc [8]) [8]), plainWorld)]

/-- The provisioner then is in COMPLETE, with no data sent. -/
theorem roles_mixed : ¬ ∀ (cfg : Config) (devUuid : List Byte) (role : Role)
    (es : List (SessionEvent × World)), RunAll (DataSession.next cfg) (KeepsApart cfg)
      ⟨some (clearedSession devUuid role), false⟩ es := by
  intro h
  obtain ⟨n, hrun, hn⟩ : ∃ n,
      run (DataSession.next plainConfig)
        ⟨some (clearedSession (List.replicate 16 2) .provisioner), false⟩ earlyComplete = .ok n ∧
      n.session.map (fun s => (n.sent, decide (s.dev.role = .provisioner ∧ ProcessDue s),
        s.dev.state, (sessionNext plainConfig (some s) (.timeout, plainWorld)).toOption.map
          fun o => o.map (·.dev.state))) =
        some (false, true, .linkOpened, some (some .complete)) := observe (by decide +kernel)
  have hkeeps := (h plainConfig (List.replicate 16 2) .provisioner
    (earlyComplete ++ [(.timeout, plainWorld)])).last hrun
  obtain ⟨o, sent⟩ := n
  cases o with
  | none => simp at hn
  | some s =>
  obtain ⟨hsent, ⟨hrole, hdue⟩, hstate, hnext⟩ : sent = false ∧
      (s.dev.role = .provisioner ∧ ProcessDue s) ∧ s.dev.state = .linkOpened ∧
      (sessionNext plainConfig (some s) (.timeout, plainWorld)).toOption.map (fun o =>
        o.map (·.dev.state)) = some (some .complete) := by simpa using hn
  obtain ⟨o', ho', hcomplete⟩ := observe hnext
  obtain ⟨t, rfl, ht⟩ := Option.map_eq_some_iff.mp hcomplete
  have hapart := hkeeps s t rfl rfl hdue ho'
  exact absurd (hsent.symm.trans (hapart.complete hrole (by simp [hstate]) ht)) (by decide)

end Runs

end Meshx.PbAdv
