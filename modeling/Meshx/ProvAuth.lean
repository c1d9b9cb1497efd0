import Meshx.Prov

/-! Authentication before provisioning data: which PDUs a device session has processed,
in which order, when it is in a given state. -/
namespace Meshx.Prov

open Lib AesCcm Security

variable {env : ProvEnv} {dev dev' : ProvDev} {e : ProvEvent}

/-- `meshx_prov_pdu_process` processes the PDU, which is one of the type. -/
def Processes (env : ProvEnv) (dev : ProvDev) (type : ProvType) (pdata : List Byte) (len : Byte)
    (mallocOk : Bool) : Prop :=
  ProvType.ofByte (byteAt pdata 0) = some type ∧
    (pduProcess env dev pdata len mallocOk).1 = .success

/-- A PUBLIC_KEY PDU with a valid key is processed. -/
def ValidPublicKey (env : ProvEnv) (dev : ProvDev) (e : ProvEvent) : Prop :=
  ∃ pdata len mallocOk, e = .pdu pdata len mallocOk ∧
    Processes env dev .publicKey pdata len mallocOk ∧
    env.validatePublicKey (field pdata .publicKey) = true

/-- A CONFIRMATION PDU is processed. -/
def ConfirmationTaken (env : ProvEnv) (dev : ProvDev) (e : ProvEvent) : Prop :=
  ∃ pdata len mallocOk, e = .pdu pdata len mallocOk ∧
    Processes env dev .confirmation pdata len mallocOk

/-- A RANDOM PDU is processed, its confirmation verifies, and the session key and nonce are
the ones calculated there. -/
def RandomVerified (env : ProvEnv) (key : Key) (nonce : List Byte) (dev : ProvDev)
    (e : ProvEvent) : Prop :=
  ∃ pdata len mallocOk, e = .pdu pdata len mallocOk ∧
    Processes env dev .random pdata len mallocOk ∧
    (verifyConfirmation env (takeRandom dev pdata) mallocOk).1 = true ∧
    let session :=
      calculateSessionDeviceKey env (verifyConfirmation env (takeRandom dev pdata) mallocOk).2
    session.sessionKey = key ∧ session.sessionNonce = nonce

/-- What a device session has to have gone through to be in its state. -/
def milestones (env : ProvEnv) (dev : ProvDev) : List (ProvDev → ProvEvent → Prop) :=
  match dev.state with
  | .publicKey | .inputComplete => [ValidPublicKey env]
  | .confirmation => [ValidPublicKey env, ConfirmationTaken env]
  | .random | .data =>
    [ValidPublicKey env, ConfirmationTaken env,
      RandomVerified env dev.sessionKey dev.sessionNonce]
  | _ => []

/-- The state a PDU of the type has to find, which `meshx_prov_pdu_process` does not test. -/
def ProvType.after : ProvType → ProvState
  | .inputComplete | .confirmation => .publicKey
  | .random => .confirmation
  | .data => .random
  | _ => .idle

/-- The event does not run ahead of the exchange: no long enough PDU comes before its turn,
and the application does not send its key, confirmation or random value in place of the
device's answer to the PDU. -/
def InOrder (dev : ProvDev) : ProvEvent → Prop
  | .pdu pdata len _ => ∀ type ∈ ProvType.ofByte (byteAt pdata 0),
      1 + type.size ≤ len.toNat → type.after ≤ dev.state
  | .publicKey _ => dev.state ≠ .start
  | .confirmation _ => dev.state ≠ .publicKey ∧ dev.state ≠ .inputComplete
  | .random _ => dev.state ≠ .confirmation
  | _ => True

instance (dev : ProvDev) (e : ProvEvent) : Decidable (InOrder dev e) :=
  match e with
  | .pdu pdata len _ => inferInstanceAs (Decidable (∀ type ∈ ProvType.ofByte (byteAt pdata 0),
      1 + type.size ≤ len.toNat → type.after ≤ dev.state))
  | .publicKey _ => inferInstanceAs (Decidable (dev.state ≠ .start))
  | .confirmation _ =>
    inferInstanceAs (Decidable (dev.state ≠ .publicKey ∧ dev.state ≠ .inputComplete))
  | .random _ => inferInstanceAs (Decidable (dev.state ≠ .confirmation))
  | .recvLinkOpen .. | .recvLinkAck | .linkOpen | .linkClose | .makeKey _
  | .setRemotePublicKey _ | .setAuthValue _ | .generateRandom _ | .generateConfirmation ..
  | .invite _ | .capabilites _ | .start _ | .inputComplete | .data _ | .complete
  | .failed _ => isTrue trivial

theorem InOrder.after_le {pdata : List Byte} {len : Byte} {mallocOk : Bool} {type : ProvType}
    (h : InOrder dev (.pdu pdata len mallocOk)) (ht : ProvType.ofByte (byteAt pdata 0) = some type)
    (hlen : 1 + type.size ≤ len.toNat) : type.after ≤ dev.state :=
  h type ht hlen

/-- A step keeps some first milestones and adds at most itself. -/
def Progress (env : ProvEnv) (dev : ProvDev) (e : ProvEvent) (dev' : ProvDev) : Prop :=
  milestones env dev' <+: milestones env dev ∨
    ∃ ps p, milestones env dev' = ps ++ [p] ∧ ps <+: milestones env dev ∧ p dev e

section Progress

theorem progress_of_same (hs : dev'.state = dev.state) (hk : dev'.sessionKey = dev.sessionKey)
    (hn : dev'.sessionNonce = dev.sessionNonce) : Progress env dev e dev' := by
  refine .inl ?_
  simp only [milestones, hs, hk, hn]
  exact List.prefix_rfl

theorem progress_of_nil (h : milestones env dev' = []) : Progress env dev e dev' :=
  .inl (h ▸ List.nil_prefix)

theorem failed_progress {d : ProvDev} (hs : d.state = dev.state)
    (hk : d.sessionKey = dev.sessionKey) (hn : d.sessionNonce = dev.sessionNonce) (code : Byte) :
    Progress env dev e (failed d code).2 := by
  unfold failed
  split_ifs
  · exact progress_of_same hs hk hn
  · exact progress_of_same hs hk hn
  · exact progress_of_nil rfl

theorem process_progress {type : ProvType} {last : ProvState} {len : Byte}
    {act : Errno × ProvDev}
    (h : 1 + type.size ≤ len.toNat → ¬ last < dev.state → Progress env dev e act.2) :
    Progress env dev e (process dev type last len act).2 := by
  unfold process
  split_ifs with hlen hstate
  · exact failed_progress rfl rfl rfl _
  · exact failed_progress rfl rfl rfl _
  · exact h (by omega) hstate

theorem admitted_progress {first last : ProvState} {act : ProvDev}
    (h : ¬ dev.state < first → ¬ last < dev.state → Progress env dev e act) :
    Progress env dev e (admitted dev first last act).2 := by
  unfold admitted
  split_ifs with hstate
  · exact progress_of_same rfl rfl rfl
  · exact h (fun hc => hstate (.inl hc)) fun hc => hstate (.inr hc)

theorem admittedOnce_progress {first last : ProvState} {act : ProvDev}
    (h : ¬ dev.state < first → ¬ last < dev.state → dev.state ≠ last → Progress env dev e act) :
    Progress env dev e (admittedOnce dev first last act).2 := by
  unfold admittedOnce
  split_ifs with hstate hlast
  · exact progress_of_same rfl rfl rfl
  · exact progress_of_same rfl rfl rfl
  · exact h (fun hc => hstate (.inl hc)) (fun hc => hstate (.inr hc)) hlast

end Progress

theorem le_data {last s : ProvState} (h : ¬ last < s) (hlast : last ≤ .data) : s ≤ .data :=
  Nat.le_trans (Nat.le_of_not_lt h) hlast

/-- A later state has gone through what an earlier one has. -/
theorem milestones_le (first : ProvState) (h₁ : first ≤ dev.state)
    (h₂ : dev.state ≤ ProvState.data) :
    milestones env { dev with state := first } <+: milestones env dev := by
  unfold milestones
  cases hs : dev.state <;> rw [hs] at h₁ h₂ <;>
    first
      | exact absurd h₂ (by decide)
      | cases first <;>
          first
            | exact absurd h₁ (by decide)
            | simp

section Pdu

variable {pdata : List Byte} {len : Byte} {mallocOk : Bool}

theorem process_fits {type : ProvType} {last : ProvState} {act : Errno × ProvDev}
    (hlen : 1 + type.size ≤ len.toNat) (hstate : ¬ last < dev.state) :
    process dev type last len act = act := by
  rw [process, if_neg (Nat.not_lt.mpr hlen), if_neg hstate]

theorem publicKey_progress (ht : ProvType.ofByte (byteAt pdata 0) = some .publicKey) :
    Progress env dev (.pdu pdata len mallocOk) (processPublicKey env dev pdata len).2 := by
  refine process_progress fun hlen hstate => ?_
  by_cases hv : env.validatePublicKey (field pdata .publicKey)
  · rw [if_pos hv]
    refine .inr ⟨[], ValidPublicKey env, rfl, List.nil_prefix, pdata, len, mallocOk, rfl,
      ⟨ht, ?_⟩, hv⟩
    simp only [pduProcess, ht]
    rw [processPublicKey, process_fits hlen hstate, if_pos hv]
  · rw [if_neg hv]
    exact failed_progress rfl rfl rfl _

theorem confirmation_progress (hrole : dev.role = .device)
    (ht : ProvType.ofByte (byteAt pdata 0) = some .confirmation)
    (hin : InOrder dev (.pdu pdata len mallocOk)) :
    Progress env dev (.pdu pdata len mallocOk) (processConfirmation dev pdata len).2 := by
  simp only [processConfirmation, hrole]
  refine process_progress fun hlen hstate => ?_
  have hafter : ProvState.publicKey ≤ dev.state := hin.after_le ht hlen
  refine .inr ⟨[ValidPublicKey env], ConfirmationTaken env, rfl,
    milestones_le _ hafter (le_data hstate (by decide)),
    pdata, len, mallocOk, rfl, ht, ?_⟩
  simp only [pduProcess, ht, processConfirmation, hrole]
  rw [process_fits hlen hstate]

theorem generateConfirmation_keeps (env : ProvEnv) (d : ProvDev) (value : List Byte)
    (mallocOk : Bool) : (generateConfirmation env d value mallocOk).state = d.state ∧
      (generateConfirmation env d value mallocOk).sessionKey = d.sessionKey ∧
      (generateConfirmation env d value mallocOk).sessionNonce = d.sessionNonce := by
  unfold generateConfirmation
  split_ifs <;> exact ⟨rfl, rfl, rfl⟩

theorem random_progress (hrole : dev.role = .device)
    (ht : ProvType.ofByte (byteAt pdata 0) = some .random)
    (hin : InOrder dev (.pdu pdata len mallocOk)) :
    Progress env dev (.pdu pdata len mallocOk) (processRandom env dev pdata len mallocOk).2 := by
  refine process_progress fun hlen hstate => ?_
  have hafter : ProvState.confirmation ≤ dev.state := hin.after_le ht hlen
  cases hv : verifyConfirmation env (takeRandom dev pdata) mallocOk with
  | mk ok dev' =>
  cases ok with
  | true =>
    simp only [hrole]
    refine .inr ⟨[ValidPublicKey env, ConfirmationTaken env], RandomVerified env _ _, rfl,
      milestones_le _ hafter (le_data hstate (by decide)),
      pdata, len, mallocOk, rfl, ⟨ht, ?_⟩, ?_, ?_⟩
    · simp only [pduProcess, ht, processRandom]
      rw [process_fits hlen hstate, hv]
    · rw [hv]
    · rw [hv]
      exact ⟨rfl, rfl⟩
  | false =>
    obtain ⟨hs, hk, hn⟩ := generateConfirmation_keeps env (takeRandom dev pdata)
      (takeRandom dev pdata).randomRemote mallocOk
    have hdev : dev' = generateConfirmation env (takeRandom dev pdata)
        (takeRandom dev pdata).randomRemote mallocOk := (congrArg Prod.snd hv).symm
    rw [← hdev] at hs hk hn
    exact @failed_progress env dev _ _ hs hk hn _

theorem data_progress :
    Progress env dev (.pdu pdata len mallocOk) (processData env dev pdata len).2 := by
  refine process_progress fun hlen hstate => ?_
  cases env.crypto.aead.decrypt dev.sessionKey (dev.sessionNonce.drop 3)
      ((pdata.drop 1).take 25) ((pdata.drop 26).take 8) with
  | mk ok text =>
  cases ok with
  | true => exact progress_of_nil rfl
  | false =>
    exact @failed_progress env dev _ { dev with data := text } rfl rfl rfl _

theorem pdu_progress (hrole : dev.role = .device) (hin : InOrder dev (.pdu pdata len mallocOk)) :
    Progress env dev (.pdu pdata len mallocOk) (pduProcess env dev pdata len mallocOk).2 := by
  unfold pduProcess
  cases ht : ProvType.ofByte (byteAt pdata 0) with
  | none => exact failed_progress rfl rfl rfl _
  | some type =>
  cases type with
  | invite => exact process_progress fun _ _ => progress_of_nil rfl
  | capabilites =>
    refine process_progress fun _ _ => ?_
    split_ifs
    · exact progress_of_nil rfl
    · exact failed_progress rfl rfl rfl _
  | start =>
    refine process_progress fun _ _ => ?_
    split_ifs
    · exact failed_progress rfl rfl rfl _
    · exact failed_progress rfl rfl rfl _
    · exact progress_of_nil rfl
  | publicKey => exact publicKey_progress ht
  | inputComplete =>
    refine process_progress fun hlen hstate => .inl ?_
    have hafter : ProvState.publicKey ≤ dev.state := hin.after_le ht hlen
    exact milestones_le .publicKey hafter (le_data hstate (by decide))
  | confirmation => exact confirmation_progress hrole ht hin
  | random => exact random_progress hrole ht hin
  | data => exact data_progress
  | complete => exact process_progress fun _ _ => progress_of_nil rfl
  | failed =>
    dsimp only
    split_ifs
    · exact progress_of_same rfl rfl rfl
    · exact progress_of_nil rfl

end Pdu

section Role

@[simp] theorem failed_role (code : Byte) : (failed dev code).2.role = dev.role := by
  unfold failed
  split_ifs <;> rfl

@[simp] theorem admitted_role {first last : ProvState} {act : ProvDev}
    (h : act.role = dev.role) : (admitted dev first last act).2.role = dev.role := by
  unfold admitted
  split_ifs
  exacts [rfl, h]

@[simp] theorem admittedOnce_role {first last : ProvState} {act : ProvDev}
    (h : act.role = dev.role) : (admittedOnce dev first last act).2.role = dev.role := by
  unfold admittedOnce
  split_ifs
  exacts [rfl, rfl, h]

theorem process_role {type : ProvType} {last : ProvState} {len : Byte} {act : Errno × ProvDev}
    (h : act.2.role = dev.role) : (process dev type last len act).2.role = dev.role := by
  unfold process
  split_ifs
  · exact failed_role _
  · exact failed_role _
  · exact h

@[simp] theorem generateConfirmation_role (value : List Byte) (mallocOk : Bool) :
    (generateConfirmation env dev value mallocOk).role = dev.role := by
  unfold generateConfirmation
  split_ifs <;> rfl

theorem pduProcess_role (pdata : List Byte) (len : Byte) (mallocOk : Bool) :
    (pduProcess env dev pdata len mallocOk).2.role = dev.role := by
  unfold pduProcess
  split
  · exact process_role rfl
  · refine process_role ?_
    split_ifs
    exacts [rfl, failed_role _]
  · refine process_role ?_
    split_ifs
    exacts [failed_role _, failed_role _, rfl]
  · refine process_role ?_
    split_ifs
    exacts [rfl, failed_role _]
  · exact process_role rfl
  · refine process_role ?_
    cases dev.role <;> exact admitted_role rfl
  · refine process_role ?_
    have hv : (verifyConfirmation env (takeRandom dev pdata) mallocOk).2.role = dev.role :=
      generateConfirmation_role _ _
    generalize verifyConfirmation env (takeRandom dev pdata) mallocOk = out at hv
    obtain ⟨ok, dev'⟩ := out
    cases ok with
    | true =>
      cases hr : dev.role with
      | device => exact (admitted_role rfl).trans (hv.trans hr)
      | provisioner => exact hv.trans hr
    | false => exact (failed_role _).trans hv
  · refine process_role ?_
    split
    · exact admittedOnce_role rfl
    · exact failed_role _
  · exact process_role rfl
  · split_ifs <;> rfl
  · exact failed_role _

theorem provNext_role (h : dev.role = .device) : (provNext env dev e).role = .device := by
  rw [← h]
  cases e with
  | pdu pdata len mallocOk => exact pduProcess_role pdata len mallocOk
  | recvLinkOpen sameLink ackOk keyPair value =>
    simp only [provNext, recvLinkOpen, h]
    split_ifs <;> rfl
  | recvLinkAck => simp only [provNext, recvLinkAck]; split_ifs <;> rfl
  | linkOpen => simp only [provNext, linkOpen]; split_ifs <;> rfl
  | linkClose => simp only [provNext, linkClose]; split_ifs <;> rfl
  | makeKey generated => rfl
  | setRemotePublicKey key => simp only [provNext, setRemotePublicKey]; split_ifs <;> rfl
  | setAuthValue value =>
    cases value with
    | oob action value alphaLen => simp only [provNext, setAuthValue]; split_ifs <;> rfl
    | _ => rfl
  | generateRandom generated => rfl
  | generateConfirmation value mallocOk => exact generateConfirmation_role value mallocOk
  | failed errCode => exact failed_role errCode
  | invite value => exact admittedOnce_role rfl
  | capabilites cap => exact admittedOnce_role rfl
  | start value => exact admittedOnce_role rfl
  | publicKey key => exact admitted_role rfl
  | inputComplete => exact admitted_role rfl
  | confirmation value => exact admitted_role rfl
  | random value => exact admitted_role rfl
  | data value => exact admittedOnce_role rfl
  | complete => exact admittedOnce_role rfl

end Role

theorem ctorIdx_inj {a b : ProvState} (h : a.ctorIdx = b.ctorIdx) : a = b := by
  cases a <;> cases b <;> first | rfl | exact absurd h (by decide)

theorem not_lt_next {s first next : ProvState} (h : ¬ s < first) (hne : s ≠ first)
    (hnext : next.ctorIdx = first.ctorIdx + 1) : ¬ s < next := by
  have hidx : s.ctorIdx ≠ first.ctorIdx := mt ctorIdx_inj hne
  change ¬ s.ctorIdx < first.ctorIdx at h
  change ¬ s.ctorIdx < next.ctorIdx
  omega

theorem eq_of_not_lt {a b : ProvState} (h₁ : ¬ a < b) (h₂ : ¬ b < a) : a = b :=
  ctorIdx_inj (Nat.le_antisymm (Nat.le_of_not_lt h₂) (Nat.le_of_not_lt h₁))

/-- Every step in order of a device session makes progress. -/
theorem provNext_progress (hrole : dev.role = .device) (hin : InOrder dev e) :
    Progress env dev e (provNext env dev e) := by
  cases e with
  | pdu pdata len mallocOk => exact pdu_progress hrole hin
  | recvLinkOpen sameLink ackOk keyPair value =>
    simp only [provNext, recvLinkOpen]
    split_ifs
    · exact progress_of_same rfl rfl rfl
    · exact progress_of_same rfl rfl rfl
    · exact progress_of_same rfl rfl rfl
    · exact progress_of_nil rfl
    · exact progress_of_nil rfl
  | recvLinkAck =>
    simp only [provNext, recvLinkAck]
    split_ifs
    · exact progress_of_same rfl rfl rfl
    · exact progress_of_nil rfl
  | linkOpen =>
    simp only [provNext, linkOpen]
    split_ifs
    · exact progress_of_same rfl rfl rfl
    · exact progress_of_nil rfl
  | linkClose =>
    simp only [provNext, linkClose]
    split_ifs
    · exact progress_of_same rfl rfl rfl
    · exact progress_of_nil rfl
  | makeKey generated => exact progress_of_same rfl rfl rfl
  | setRemotePublicKey key =>
    simp only [provNext, setRemotePublicKey]
    split_ifs <;> exact progress_of_same rfl rfl rfl
  | setAuthValue value =>
    cases value with
    | oob action value alphaLen =>
      simp only [provNext, setAuthValue]
      split_ifs <;> exact progress_of_same rfl rfl rfl
    | _ => exact progress_of_same rfl rfl rfl
  | generateRandom generated => exact progress_of_same rfl rfl rfl
  | generateConfirmation value mallocOk =>
    obtain ⟨hs, hk, hn⟩ := generateConfirmation_keeps env dev value mallocOk
    exact progress_of_same hs hk hn
  | failed errCode => exact failed_progress rfl rfl rfl errCode
  | invite value => exact admittedOnce_progress fun _ _ _ => progress_of_nil rfl
  | capabilites cap => exact admittedOnce_progress fun _ _ _ => progress_of_nil rfl
  | start value => exact admittedOnce_progress fun _ _ _ => progress_of_nil rfl
  | publicKey key =>
    exact admitted_progress fun h₁ h₂ => progress_of_same
      (eq_of_not_lt h₂ (not_lt_next h₁ hin rfl)) rfl rfl
  | inputComplete =>
    exact admitted_progress fun h₁ h₂ =>
      .inl (milestones_le .publicKey (Nat.le_of_not_lt h₁) (le_data h₂ (by decide)))
  | confirmation value =>
    exact admitted_progress fun h₁ h₂ => progress_of_same
      (eq_of_not_lt h₂ (not_lt_next (not_lt_next h₁ hin.1 rfl) hin.2 rfl)) rfl rfl
  | random value =>
    exact admitted_progress fun h₁ h₂ => progress_of_same
      (eq_of_not_lt h₂ (not_lt_next h₁ hin rfl)) rfl rfl
  | data value =>
    refine admittedOnce_progress fun h₁ h₂ hne => .inl ?_
    have hs : dev.state = .random := by
      by_contra hr
      exact hne (eq_of_not_lt (not_lt_next h₁ hr rfl) h₂)
    simp [milestones, hs]
  | complete => exact admittedOnce_progress fun _ _ _ => progress_of_nil rfl

/-- A DATA PDU is processed in a state it is not refused in, and completes the session. -/
theorem data_completes {pdata : List Byte} {len : Byte} {mallocOk : Bool}
    (h : Processes env dev .data pdata len mallocOk) :
    1 + ProvType.data.size ≤ len.toNat ∧ dev.state ≤ .data ∧
      (pduProcess env dev pdata len mallocOk).2.state = .complete := by
  obtain ⟨ht, hret⟩ := h
  simp only [pduProcess, ht, processData] at hret ⊢
  by_cases hlen : len.toNat < 1 + ProvType.data.size
  · simp [process, if_pos hlen, refuse] at hret
  by_cases hstate : ProvState.data < dev.state
  · simp [process, if_neg hlen, if_pos hstate, refuse] at hret
  have hlen' : 1 + ProvType.data.size ≤ len.toNat := by omega
  rw [process_fits hlen' hstate] at hret ⊢
  refine ⟨hlen', Nat.le_of_not_lt hstate, ?_⟩
  generalize env.crypto.aead.decrypt dev.sessionKey (dev.sessionNonce.drop 3)
    ((pdata.drop 1).take 25) ((pdata.drop 26).take 8) = out at hret ⊢
  obtain ⟨ok, text⟩ := out
  cases ok with
  | true => rfl
  | false => simp [refuse] at hret

/-- In every run of a device session whose steps are in order, a DATA PDU that is processed
comes after a valid public key, a confirmation and a verified random value, in this order,
and is decrypted with the session key and nonce calculated at the random value. -/
theorem data_authenticated {keyPair : List Byte × List Byte} {value : List Byte}
    {es : List ProvEvent} {pdata : List Byte} {len : Byte} {mallocOk : Bool}
    (hall : RunAll (provStep env) InOrder (createDevice env .device keyPair value) es)
    (hrun : run (provStep env) (createDevice env .device keyPair value) es = .ok dev)
    (hin : InOrder dev (.pdu pdata len mallocOk))
    (hdata : Processes env dev .data pdata len mallocOk) :
    Occurs (provStep env)
      [ValidPublicKey env, ConfirmationTaken env,
        RandomVerified env dev.sessionKey dev.sessionNonce]
      (createDevice env .device keyPair value) es ∧
    (pduProcess env dev pdata len mallocOk).2.state = .complete := by
  obtain ⟨-, hocc⟩ := @RunAll.occurs _ _ _ _ _ (fun d => d.role = .device) _ _ _ _
    (fun d e d' hrole hin hs => by
      cases hs
      exact ⟨provNext_role hrole, provNext_progress hrole hin⟩) rfl rfl hall hrun
  obtain ⟨hlen, hstate, hcomplete⟩ := data_completes hdata
  have hafter : ProvState.random ≤ dev.state := hin.after_le hdata.1 hlen
  have hmile : milestones env dev = [ValidPublicKey env, ConfirmationTaken env,
      RandomVerified env dev.sessionKey dev.sessionNonce] := by
    unfold milestones
    cases hs : dev.state <;> rw [hs] at hafter hstate <;>
      first
        | rfl
        | exact absurd hafter (by decide)
        | exact absurd hstate (by decide)
  exact ⟨hmile ▸ hocc, hcomplete⟩

/-- The build with the masking ciphers, every key valid and no sample data. -/
def maskEnv : ProvEnv where
  crypto := maskCrypto
  validatePublicKey _ := true
  sharedSecret publicKey privateKey _ := xorBytes (publicKey.take 32) privateKey
  sample := none

/-- A PDU that carries the text encrypted under a session key and nonce. -/
def dataPdu (key : Key) (nonce text : List Byte) : List Byte :=
  let out := maskCrypto.aead.encrypt key (nonce.drop 3) text 8
  [0x07] ++ out.1 ++ out.2

/-- A device provisioned without any exchange: the session key of a new device is zero. -/
theorem data_unauthenticated : ∃ dev,
    run (provStep maskEnv)
      (createDevice maskEnv .device (List.replicate 64 1, List.replicate 32 2)
        (List.replicate 16 3))
      [.recvLinkOpen true true (List.replicate 64 1, List.replicate 32 2) (List.replicate 16 3)] =
        .ok dev ∧
    Processes maskEnv dev .data
      (dataPdu (List.replicate 16 0) (List.replicate 16 0) (List.replicate 25 5)) 34 true ∧
    (pduProcess maskEnv dev
      (dataPdu (List.replicate 16 0) (List.replicate 16 0) (List.replicate 25 5)) 34 true).2.state =
        .complete ∧
    ¬ Occurs (provStep maskEnv) [ValidPublicKey maskEnv]
      (createDevice maskEnv .device (List.replicate 64 1, List.replicate 32 2)
        (List.replicate 16 3))
      [.recvLinkOpen true true (List.replicate 64 1, List.replicate 32 2)
        (List.replicate 16 3)] := by
  refine ⟨_, rfl, ⟨by decide, by decide⟩, by decide, ?_⟩
  rintro ⟨_, -, ⟨⟨_, _, _, he, -⟩, -⟩ | h⟩
  · cases he
  · exact h

/-- The events of a device session up to the RANDOM PDU. -/
def exchange : List ProvEvent :=
  [.recvLinkOpen true true (List.replicate 64 1, List.replicate 32 2) (List.replicate 16 3),
    .pdu [0x00, 0x05] 2 true,
    .pdu (0x03 :: List.replicate 64 4) 65 true,
    .publicKey (List.replicate 64 1),
    .pdu ([0x05, 0xa8, 0xe2, 0xc0, 0xd1] ++ List.replicate 12 6) 17 true,
    .pdu (0x06 :: List.replicate 16 6) 17 true]

theorem data_authenticated_example : ∃ dev,
    run (provStep maskEnv)
      (createDevice maskEnv .device (List.replicate 64 1, List.replicate 32 2)
        (List.replicate 16 3))
      exchange = .ok dev ∧
    Occurs (provStep maskEnv)
      [ValidPublicKey maskEnv, ConfirmationTaken maskEnv,
        RandomVerified maskEnv dev.sessionKey dev.sessionNonce]
      (createDevice maskEnv .device (List.replicate 64 1, List.replicate 32 2)
        (List.replicate 16 3))
      exchange ∧
    (pduProcess maskEnv dev (dataPdu dev.sessionKey dev.sessionNonce (List.replicate 25 5))
      34 true).2.state = .complete := by
  refine ⟨_, rfl, data_authenticated ?_ rfl ?_ ⟨?_, ?_⟩⟩
  · refine ⟨trivial, fun _ h => ?_⟩; cases h
    refine ⟨by decide, fun _ h => ?_⟩; cases h
    refine ⟨by decide, fun _ h => ?_⟩; cases h
    refine ⟨by decide, fun _ h => ?_⟩; cases h
    refine ⟨by decide, fun _ h => ?_⟩; cases h
    exact ⟨by decide, fun _ _ => trivial⟩
  · decide +kernel
  · decide +kernel
  · decide +kernel

end Meshx.Prov
