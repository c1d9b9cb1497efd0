import Meshx.PbAdvReceive
import Meshx.ProvAuth

/-! What the calls, the processed PDUs, the timer and the packets can do to a session, one lemma
for each. The invariants are derived from these and never from the definitions. -/
namespace Meshx.Prov

open Lib

instance : LinearOrder ProvState where
  le_refl a := Nat.le_refl _
  le_trans _ _ _ h h' := Nat.le_trans h h'
  lt_iff_le_not_ge _ _ := @lt_iff_le_not_ge ℕ _ _ _
  le_antisymm _ _ h h' := ctorIdx_inj (Nat.le_antisymm h h')
  le_total _ _ := Nat.le_total _ _
  toDecidableLE := inferInstance

variable {env : ProvEnv} {dev : ProvDev} {first last : ProvState} {act : ProvDev}

theorem admitted_state (h : act.state = last) :
    (first ≤ dev.state ∧ dev.state ≤ last ∧ (admitted dev first last act).1 = .success ∧
      (admitted dev first last act).2.state = last) ∨
    (¬ (first ≤ dev.state ∧ dev.state ≤ last) ∧ (admitted dev first last act).1 ≠ .success ∧
      (admitted dev first last act).2 = dev) := by
  unfold admitted
  split_ifs with hstate
  · refine .inr ⟨fun hin => ?_, by simp, rfl⟩
    rcases hstate with hlt | hlt
    · exact absurd hin.1 (not_le.mpr hlt)
    · exact absurd hin.2 (not_le.mpr hlt)
  · rw [not_or, not_lt, not_lt] at hstate
    exact .inl ⟨hstate.1, hstate.2, rfl, h⟩

theorem admittedOnce_state (h : act.state = last) :
    (first ≤ dev.state ∧ dev.state < last ∧ (admittedOnce dev first last act).1 = .success ∧
      (admittedOnce dev first last act).2.state = last) ∨
    (¬ (first ≤ dev.state ∧ dev.state < last) ∧
      (admittedOnce dev first last act).1 ≠ .success ∧
      (admittedOnce dev first last act).2 = dev) := by
  unfold admittedOnce
  split_ifs with hstate hlast
  · refine .inr ⟨fun hin => ?_, by simp, rfl⟩
    rcases hstate with hlt | hlt
    · exact absurd hin.1 (not_le.mpr hlt)
    · exact absurd hin.2 (not_lt.mpr hlt.le)
  · exact .inr ⟨fun hin => hin.2.ne hlast, by simp, rfl⟩
  · rw [not_or, not_lt, not_lt] at hstate
    exact .inl ⟨hstate.1, lt_of_le_of_ne hstate.2 hlast, rfl, h⟩

/-- The states in which a failure is reported to the peer. -/
def Refuses (state : ProvState) : Prop :=
  .invite ≤ state ∧ state ≠ .complete ∧ state ≠ .failed

instance (state : ProvState) : Decidable (Refuses state) := inferInstanceAs (Decidable (_ ∧ _))

theorem failed_state (code : Byte) :
    (Refuses dev.state ∧ (failed dev code).1 = .success ∧ (failed dev code).2.state = .failed) ∨
    (¬ Refuses dev.state ∧ (failed dev code).1 ≠ .success ∧ (failed dev code).2 = dev) := by
  unfold failed
  split_ifs with hlt hend
  · exact .inr ⟨fun h => absurd h.1 (not_le.mpr hlt), by simp, rfl⟩
  · exact .inr ⟨fun h => hend.elim h.2.1 h.2.2, by simp, rfl⟩
  · exact .inl ⟨⟨not_lt.mp hlt, (not_or.mp hend).1, (not_or.mp hend).2⟩, rfl, rfl⟩

theorem lt_linkClosing {state : ProvState} : .failed < state ↔ state = .linkClosing := by
  cases state <;> decide

/-- A failure goes back in a session that is being closed only. -/
theorem le_failed_or_closing (state : ProvState) :
    state ≤ .failed ∨ state = .linkClosing ∧ ProvState.failed = .failed :=
  (le_or_gt state .failed).imp id fun h => ⟨lt_linkClosing.mp h, rfl⟩

/-- What processing a PDU makes of the state, and which PDU it is answered with. -/
inductive Processed (before after : ProvState) : Option ProvType → Prop
  | kept (h : after = before) : Processed before after none
  | moved (hle : before ≤ after) (h₁ : .invite ≤ after) (h₂ : after ≤ .complete)
      (answer : Option ProvType) : Processed before after answer
  | failed (h : after = .failed) : Processed before after none
  | refused (h : Refuses before) (hf : after = .failed) : Processed before after (some .failed)

/-- An answer leaves the session in a state whose PDU the timer can send. -/
theorem Processed.answered_state {before after : ProvState} {type : ProvType}
    (h : Processed before after (some type)) : .invite ≤ after ∧ after ≤ .failed := by
  cases h with
  | moved hle h₁ h₂ => exact ⟨h₁, h₂.trans (by decide)⟩
  | refused hr hf =>
    rw [hf]
    decide

end Meshx.Prov

namespace Meshx.PbAdv

open Lib Prov

section Process

variable {env : ProvEnv} {dev : ProvDev} {type : ProvType} {last : ProvState} {len : Byte}
  {act r : Errno × ProvDev} {pdata : List Byte} {mallocOk : Bool}

/-- A result of processing a PDU of the type, as far as state and answer go. -/
def Outcome (dev : ProvDev) (type : ProvType) (r : Errno × ProvDev) : Prop :=
  Processed dev.state r.2.state (if r.1 = .success then reply dev type else refusal dev)

theorem refusal_eq : refusal dev = if Refuses dev.state then some .failed else none := by
  unfold refusal
  by_cases hr : Refuses dev.state
  · rw [if_pos hr, if_neg]
    rintro (hlt | hc | hf)
    · exact absurd hr.1 (not_le.mpr hlt)
    · exact hr.2.1 hc
    · exact hr.2.2 hf
  · rw [if_neg hr, if_pos]
    by_contra hor
    rw [not_or, not_or, not_lt] at hor
    exact hr hor

theorem processed_failed {d : ProvDev} (hd : d.state = dev.state) (code : Byte) :
    Processed dev.state (failed d code).2.state (refusal dev) := by
  rw [refusal_eq]
  rcases @failed_state d code with ⟨hr, -, hs⟩ | ⟨hr, -, hs⟩
  · rw [hd] at hr
    rw [if_pos hr]
    exact .refused hr hs
  · rw [hd] at hr
    rw [if_neg hr, hs]
    exact .kept hd

theorem outcome_refuse {d : ProvDev} {ret : Errno} {reason : ProvFailed} (hret : ret ≠ .success)
    (hd : d.state = dev.state) : Outcome dev type (refuse d ret reason) := by
  unfold Outcome
  rw [if_neg (show (refuse d ret reason).1 ≠ .success from hret)]
  exact processed_failed hd _

theorem outcome_process (h : ¬ last < dev.state → Outcome dev type act) :
    Outcome dev type (Prov.process dev type last len act) := by
  unfold Prov.process
  split_ifs with hlen hstate
  · exact outcome_refuse (by decide) rfl
  · exact outcome_refuse (by decide) rfl
  · exact h hstate

theorem outcome_moved {d : ProvDev} {s : ProvState} (hs : d.state = s) (hle : last ≤ s)
    (h₁ : .invite ≤ s) (h₂ : s ≤ .complete) (h : ¬ last < dev.state) :
    Outcome dev type (.success, d) := by
  unfold Outcome
  rw [if_pos rfl]
  refine .moved ?_ ?_ ?_ _ <;> rw [hs]
  exacts [(not_lt.mp h).trans hle, h₁, h₂]

theorem outcome_confirmation : Outcome dev .confirmation (processConfirmation dev pdata len) := by
  refine outcome_process fun h => ?_
  obtain hrole | hrole : dev.role = .device ∨ dev.role = .provisioner := by
    cases dev.role <;> simp
  · simp only [hrole]
    exact outcome_moved (s := .confirmation) rfl (by decide) (by decide) (by decide) h
  · simp only [hrole]
    exact outcome_moved (s := .random) rfl (by decide) (by decide) (by decide) h

theorem outcome_random : Outcome dev .random (processRandom env dev pdata len mallocOk) := by
  refine outcome_process fun h => ?_
  have hstate : (verifyConfirmation env (takeRandom dev pdata) mallocOk).2.state = dev.state :=
    (generateConfirmation_keeps env _ _ mallocOk).1
  generalize verifyConfirmation env (takeRandom dev pdata) mallocOk = out at hstate ⊢
  obtain ⟨ok, d⟩ := out
  cases ok with
  | false => exact outcome_refuse (by decide) hstate
  | true =>
    refine outcome_moved (s := .random) ?_ (by decide) (by decide) (by decide) h
    cases dev.role <;> rfl

theorem outcome_data : Outcome dev .data (processData env dev pdata len) := by
  refine outcome_process fun h => ?_
  generalize env.crypto.aead.decrypt dev.sessionKey (dev.sessionNonce.drop 3)
    ((pdata.drop 1).take 25) ((pdata.drop 26).take 8) = out
  obtain ⟨ok, text⟩ := out
  cases ok with
  | false => exact outcome_refuse (by decide) rfl
  | true => exact outcome_moved (s := .complete) rfl (by decide) (by decide) (by decide) h

/-- What `meshx_prov_pdu_process` does to the state, with the PDU it sends. -/
theorem pduProcess_cases (env : ProvEnv) (dev : ProvDev) (pdata : List Byte) (len : Byte)
    (mallocOk : Bool) : Processed dev.state (pduProcess env dev pdata len mallocOk).2.state
      (answer env dev pdata len mallocOk) := by
  cases ht : ProvType.ofByte (byteAt pdata 0) with
  | none =>
    simp only [pduProcess, answer, ht]
    exact processed_failed rfl _
  | some type =>
  by_cases hf : type = .failed
  · subst hf
    simp only [pduProcess, answer, ht]
    split_ifs
    · exact .kept rfl
    · exact .failed rfl
  · have hout : Outcome dev type (pduProcess env dev pdata len mallocOk) := by
      unfold pduProcess
      rw [ht]
      cases type with
      | invite =>
        exact outcome_process fun h =>
          outcome_moved (s := .invite) rfl le_rfl (by decide) (by decide) h
      | capabilites =>
        refine outcome_process fun h => ?_
        split_ifs
        · exact outcome_moved (s := .capabilites) rfl le_rfl (by decide) (by decide) h
        · exact outcome_refuse (by decide) rfl
      | start =>
        refine outcome_process fun h => ?_
        split_ifs
        · exact outcome_refuse (by decide) rfl
        · exact outcome_refuse (by decide) rfl
        · exact outcome_moved (s := .start) rfl le_rfl (by decide) (by decide) h
      | publicKey =>
        refine outcome_process fun h => ?_
        split_ifs
        · exact outcome_moved (s := .publicKey) rfl le_rfl (by decide) (by decide) h
        · exact outcome_refuse (by decide) rfl
      | inputComplete =>
        exact outcome_process fun h =>
          outcome_moved (s := .inputComplete) rfl le_rfl (by decide) (by decide) h
      | confirmation => exact outcome_confirmation
      | random => exact outcome_random
      | data => exact outcome_data
      | complete =>
        exact outcome_process fun h =>
          outcome_moved (s := .complete) rfl le_rfl (by decide) (by decide) h
      | failed => exact absurd rfl hf
    have hans : answer env dev pdata len mallocOk =
        if (pduProcess env dev pdata len mallocOk).1 = .success then reply dev type
        else refusal dev := by
      unfold answer
      rw [ht]
      cases type <;> first | rfl | exact absurd rfl hf
    rw [hans]
    exact hout

end Process

section Calls

variable {cfg : Config} {accepts : List Byte → Bool} {s : PbAdvDev}

/-- The session when its link is being opened. -/
def opening (s : PbAdvDev) (linkId : BitVec 32) : PbAdvDev :=
  startTimer { s with
    dev := { s.dev with state := .linkOpening }
    linkId := linkId
    txTransNum := 0xff
    ackedTransNum := 0x00
    retryTime := 0 } .retry

/-- The session when its link is being closed. -/
def closing (s : PbAdvDev) (reason : Byte) : PbAdvDev :=
  startTimer { s with
    dev := { s.dev with state := .linkClosing }
    linkCloseReason := reason
    retryTime := 0 } .retry

/-- The session when a PDU waits to be sent. -/
def waiting (s : PbAdvDev) (d : ProvDev) (transNum : Byte) : PbAdvDev :=
  startDelay { s with dev := d, txTransNum := transNum } .provPdu

theorem pbAdvSend_eq (s : PbAdvDev) (d : ProvDev) (type : ProvType) :
    ∃ n, pbAdvSend { s with dev := d } type = waiting s d n := by
  have hrole : ∃ n, startDelay (requireTransNum { s with dev := d }) .provPdu = waiting s d n := by
    unfold requireTransNum
    dsimp only
    cases hr : d.role
    · exact ⟨_, rfl⟩
    · exact ⟨_, rfl⟩
  cases type with
  | publicKey => exact hrole
  | confirmation => exact hrole
  | random => exact hrole
  | _ => exact ⟨_, rfl⟩

theorem linkClose_cases (accepts : List Byte → Bool) (s : PbAdvDev) (reason : Byte) :
    (s.dev.state ≤ .linkOpening ∧ (linkClose accepts s reason).2.1 = s) ∨
    (.linkOpened ≤ s.dev.state ∧ (linkClose accepts s reason).2.1 = closing s reason) := by
  unfold linkClose
  split_ifs with h
  · exact .inl ⟨h, rfl⟩
  · exact .inr ⟨not_le.mp h, rfl⟩

/-- The calls that have a PDU sent, each in the states that admit it. -/
def Sends (state : ProvState) : Call → Prop
  | .invite _ => .linkOpened ≤ state ∧ state < .invite
  | .capabilites _ => .invite ≤ state ∧ state < .capabilites
  | .start _ => .capabilites ≤ state ∧ state < .start
  | .publicKey _ => .start ≤ state ∧ state ≤ .publicKey
  | .inputComplete => .publicKey ≤ state ∧ state ≤ .inputComplete
  | .confirmation _ => .publicKey ≤ state ∧ state ≤ .confirmation
  | .random _ => .confirmation ≤ state ∧ state ≤ .random
  | .data _ => .random ≤ state ∧ state < .data
  | .complete => .data ≤ state ∧ state < .complete
  | .failed _ => Refuses state
  | _ => False

instance (state : ProvState) (c : Call) : Decidable (Sends state c) :=
  match c with
  | .invite _ | .capabilites _ | .start _ | .data _ | .complete =>
    inferInstanceAs (Decidable (_ ≤ state ∧ state < _))
  | .publicKey _ | .inputComplete | .confirmation _ | .random _ =>
    inferInstanceAs (Decidable (_ ≤ state ∧ state ≤ _))
  | .failed _ => inferInstanceAs (Decidable (Refuses state))
  | .setup .. | .linkOpen _ | .linkClose _ | .makeKey _ | .setRemotePublicKey _ | .setAuthValue _
  | .generateRandom _ | .generateConfirmation .. => isFalse id

def Call.isFailed : Call → Bool
  | .failed _ => true
  | _ => false

/-- What a call can do. -/
inductive Called (s : PbAdvDev) (c : Call) : PbAdvDev → Prop
  | kept (hc : ¬ Sends s.dev.state c) (d : ProvDev) (h : d.state = s.dev.state) :
      Called s c { s with dev := d }
  | opened (hc : ¬ Sends s.dev.state c) (h : s.dev.state = .idle) (linkId : BitVec 32) :
      Called s c (opening s linkId)
  | closed (hc : ¬ Sends s.dev.state c) (h : .linkOpened ≤ s.dev.state) (reason : Byte) :
      Called s c (closing s reason)
  | sent (hc : Sends s.dev.state c) (d : ProvDev) (n : Byte) (h₁ : .invite ≤ d.state)
      (h₂ : d.state ≤ .failed) (hlast : d.state = .failed ↔ c.isFailed = true)
      (h : s.dev.state ≤ d.state ∨ s.dev.state = .linkClosing ∧ d.state = .failed) :
      Called s c (waiting s d n)

theorem called_sending {c : Call} {type : ProvType} {r : Errno × ProvDev} {last : ProvState}
    (h₁ : .invite ≤ last) (h₂ : last ≤ .complete) (hf : c.isFailed = false)
    (h : (Sends s.dev.state c ∧ s.dev.state ≤ last ∧ r.1 = .success ∧ r.2.state = last) ∨
      (¬ Sends s.dev.state c ∧ r.1 ≠ .success ∧ r.2 = s.dev)) :
    Called s c (sending s type r) := by
  unfold sending
  rcases h with ⟨hc, hle, hret, hs⟩ | ⟨hc, hret, hs⟩
  · rw [if_pos hret]
    obtain ⟨n, hn⟩ := pbAdvSend_eq s r.2 type
    rw [hn]
    refine .sent hc _ _ ?_ ?_ ?_ (.inl ?_) <;> rw [hs]
    · exact h₁
    · exact h₂.trans (by decide)
    · rw [hf]
      exact iff_of_false (fun he => absurd (he ▸ h₂) (by decide)) Bool.false_ne_true
    · exact hle
  · rw [if_neg hret]
    exact .kept hc _ (by rw [hs])

theorem called_admitted {c : Call} {type : ProvType} {first last : ProvState} {act : ProvDev}
    (h₁ : .invite ≤ last) (h₂ : last ≤ .complete) (hf : c.isFailed = false)
    (hact : act.state = last)
    (hc : Sends s.dev.state c ↔ first ≤ s.dev.state ∧ s.dev.state ≤ last) :
    Called s c (sending s type (admitted s.dev first last act)) := by
  refine called_sending h₁ h₂ hf ?_
  rcases @admitted_state s.dev first last act hact with ⟨hf, hl, hret, hs⟩ | ⟨hn, hret, hs⟩
  · exact .inl ⟨hc.mpr ⟨hf, hl⟩, hl, hret, hs⟩
  · exact .inr ⟨fun h => hn (hc.mp h), hret, hs⟩

theorem called_admittedOnce {c : Call} {type : ProvType} {first last : ProvState} {act : ProvDev}
    (h₁ : .invite ≤ last) (h₂ : last ≤ .complete) (hf : c.isFailed = false)
    (hact : act.state = last)
    (hc : Sends s.dev.state c ↔ first ≤ s.dev.state ∧ s.dev.state < last) :
    Called s c (sending s type (admittedOnce s.dev first last act)) := by
  refine called_sending h₁ h₂ hf ?_
  rcases @admittedOnce_state s.dev first last act hact with ⟨hf, hl, hret, hs⟩ | ⟨hn, hret, hs⟩
  · exact .inl ⟨hc.mpr ⟨hf, hl⟩, hl.le, hret, hs⟩
  · exact .inr ⟨fun h => hn (hc.mp h), hret, hs⟩

theorem setAuthValue_state (d : ProvDev) (value : AuthValue) :
    (setAuthValue d value).state = d.state := by
  cases value <;> simp only [setAuthValue]
  split_ifs <;> rfl

theorem setRemotePublicKey_state (env : ProvEnv) (d : ProvDev) (key : List Byte) :
    (setRemotePublicKey env d key).2.state = d.state := by
  unfold setRemotePublicKey
  split_ifs <;> rfl

theorem call_cases (cfg : Config) (accepts : List Byte → Bool) (s : PbAdvDev) (c : Call) :
    Called s c (call cfg accepts s c).1 := by
  cases c with
  | setup role keyPair random => exact .kept id _ rfl
  | linkOpen linkId =>
    simp only [call, linkOpen]
    split_ifs with hself hbusy
    · exact .kept id s.dev rfl
    · exact .kept id s.dev rfl
    · refine .opened id ?_ linkId
      exact le_antisymm (not_lt.mp hbusy) (Nat.zero_le _)
  | linkClose reason =>
    simp only [call]
    rcases linkClose_cases accepts s reason with ⟨-, hs⟩ | ⟨hle, hs⟩
    · rw [hs]
      exact .kept id s.dev rfl
    · rw [hs]
      exact .closed id hle reason
  | makeKey generated => exact .kept id _ rfl
  | setRemotePublicKey key => exact .kept id _ (setRemotePublicKey_state _ _ _)
  | setAuthValue value => exact .kept id _ (setAuthValue_state _ _)
  | generateRandom generated => exact .kept id _ rfl
  | generateConfirmation random mallocOk =>
    exact .kept id _ (generateConfirmation_keeps _ _ _ _).1
  | invite value => exact called_admittedOnce (by decide) (by decide) rfl rfl Iff.rfl
  | capabilites cap => exact called_admittedOnce (by decide) (by decide) rfl rfl Iff.rfl
  | start value => exact called_admittedOnce (by decide) (by decide) rfl rfl Iff.rfl
  | publicKey key => exact called_admitted (by decide) (by decide) rfl rfl Iff.rfl
  | inputComplete => exact called_admitted (by decide) (by decide) rfl rfl Iff.rfl
  | confirmation value => exact called_admitted (by decide) (by decide) rfl rfl Iff.rfl
  | random value => exact called_admitted (by decide) (by decide) rfl rfl Iff.rfl
  | data value => exact called_admittedOnce (by decide) (by decide) rfl rfl Iff.rfl
  | complete => exact called_admittedOnce (by decide) (by decide) rfl rfl Iff.rfl
  | failed errCode =>
    simp only [call, sending]
    rcases @failed_state s.dev errCode with ⟨hr, hret, hs⟩ | ⟨hr, hret, hs⟩
    · rw [if_pos hret]
      obtain ⟨n, hn⟩ := pbAdvSend_eq s (failed s.dev errCode).2 .failed
      rw [hn]
      have hc : Sends s.dev.state (.failed errCode) := hr
      refine .sent hc _ _ ?_ ?_ ?_ ?_ <;> rw [hs]
      · decide
      · exact iff_of_true rfl rfl
      · exact le_failed_or_closing _
    · have hc : ¬ Sends s.dev.state (.failed errCode) := hr
      rw [if_neg hret, hs]
      exact .kept hc _ rfl

end Calls

section Timer

variable {cfg : Config} {w : World} {s : PbAdvDev}

/-- What processing the reassembled PDU can do. -/
inductive Processes (s : PbAdvDev) : PbAdvDev → Prop
  | quiet (d : ProvDev) (h : Processed s.dev.state d.state none) : Processes s { s with dev := d }
  | answered (d : ProvDev) (n : Byte) (type : ProvType)
      (h : Processed s.dev.state d.state (some type)) : Processes s (waiting s d n)

theorem process_cases (cfg : Config) (w : World) (s : PbAdvDev) (len : ℕ) :
    Processes s (process cfg w s len) := by
  have hcases := pduProcess_cases cfg.prov s.dev s.provRxPdu (BitVec.ofNat 8 len) w.mallocOk
  unfold process
  dsimp only
  cases hans : answer cfg.prov s.dev s.provRxPdu (BitVec.ofNat 8 len) w.mallocOk with
  | none =>
    rw [hans] at hcases
    exact .quiet _ hcases
  | some type =>
    rw [hans] at hcases
    obtain ⟨n, hn⟩ := pbAdvSend_eq s
      (pduProcess cfg.prov s.dev s.provRxPdu (BitVec.ofNat 8 len) w.mallocOk).2 type
    dsimp only
    rw [hn]
    exact .answered _ n type hcases

/-- What an expiry of the timer can do. -/
inductive TimedOut (w : World) (s : PbAdvDev) : Option PbAdvDev → Prop
  | off (h : s.timerOn = false) : TimedOut w s (some s)
  | processed (hon : s.timerOn = true) (ht : s.timerState = .delay)
      (hd : s.timerDelayType = .transAck)
      (hnum : peerTransNum s.dev.role s.rxTransNum = true) (s' : PbAdvDev)
      (h : Processes (acked w s) s') : TimedOut w s (some s')
  | badNum (hon : s.timerOn = true) (ht : s.timerState = .delay)
      (hd : s.timerDelayType = .transAck)
      (hnum : peerTransNum s.dev.role s.rxTransNum = false) (d : ProvDev) (n : Byte)
      (h : d.state = s.dev.state) : TimedOut w s (some (waiting (acked w s) d n))
  | sent (hon : s.timerOn = true) (ht : s.timerState = .delay) (hd : s.timerDelayType = .provPdu) :
      TimedOut w s (some (startTimer { s with retryTime := 0 } .retry))
  | lost (hon : s.timerOn = true) (ht : s.timerState = .linkMonitor)
      (h : s.dev.state ≤ .linkOpening) : TimedOut w s (some (stopTimer s))
  | lossClosed (hon : s.timerOn = true) (ht : s.timerState = .linkMonitor)
      (h : .linkOpened ≤ s.dev.state) : TimedOut w s (some (closing (stopTimer s) 3))
  | retried (hon : s.timerOn = true) (ht : s.timerState = .retry) (t : ℕ) :
      TimedOut w s (some { s with retryTime := t })
  | deleted (hon : s.timerOn = true) (ht : s.timerState = .retry) : TimedOut w s none
  | expired (hon : s.timerOn = true) (ht : s.timerState = .retry) (h : .invite ≤ s.dev.state)
      (t : ℕ) : TimedOut w s (some (closing (stopTimer { s with retryTime := t }) 1))

/-- The timer has a PDU to send in a state that has none. -/
def Stuck (s : PbAdvDev) : Prop :=
  s.timerOn = true ∧ s.timerState = .delay ∧ s.timerDelayType = .provPdu ∧
    ¬ (.invite ≤ s.dev.state ∧ s.dev.state ≤ .failed)

instance (s : PbAdvDev) : Decidable (Stuck s) := inferInstanceAs (Decidable (_ ∧ _))

theorem handleRetry_cases (w : World) {s : PbAdvDev} (hon : s.timerOn = true)
    (ht : s.timerState = .retry) :
    ∃ o acts, handleRetry w s = .ok (o, acts) ∧ TimedOut w s o := by
  unfold handleRetry
  split_ifs with hopening hclosing hpdu
  · dsimp only
    split_ifs
    · exact ⟨_, _, rfl, .deleted hon ht⟩
    · exact ⟨_, _, rfl, .retried hon ht _⟩
  · dsimp only
    split_ifs
    · exact ⟨_, _, rfl, .deleted hon ht⟩
    · exact ⟨_, _, rfl, .retried hon ht _⟩
  · have hsome := (statePdu_isSome s.dev).mpr ⟨hpdu.1, hpdu.2.trans (by decide)⟩
    obtain ⟨pdu, hp⟩ := Option.isSome_iff_exists.mp hsome
    rw [hp]
    dsimp only
    split_ifs
    · rcases linkClose_cases w.accepts (stopTimer { s with retryTime := s.retryTime + 300 }) 1 with
        ⟨hle, -⟩ | ⟨-, hs⟩
      · exact absurd (hpdu.1.trans hle) (by decide)
      · refine ⟨_, _, rfl, ?_⟩
        rw [hs]
        exact .expired hon ht hpdu.1 _
    · exact ⟨_, _, rfl, .retried hon ht _⟩
  · exact ⟨_, _, rfl, .retried hon ht s.retryTime⟩

theorem handleDelay_cases (cfg : Config) (w : World) {s : PbAdvDev} (hon : s.timerOn = true)
    (ht : s.timerState = .delay) :
    (Stuck s ∧ handleDelay cfg w s = .error .assertFailed) ∨
    (¬ Stuck s ∧ ∃ s' acts, handleDelay cfg w s = .ok (s', acts) ∧ TimedOut w s (some s')) := by
  unfold handleDelay
  split
  case h_1 hd =>
    refine .inr ⟨fun h => by simp [Stuck, hd] at h, ?_⟩
    unfold handleTransAck
    dsimp only
    split_ifs with hnum
    · exact ⟨_, _, rfl, .processed hon ht hd hnum _ (process_cases _ _ _ _)⟩
    · obtain ⟨n, hn⟩ := pbAdvSend_eq (acked w s) { (acked w s).dev with errCode := 0x07 } .failed
      have hs : pbAdvFailed { acked w s with dev := { (acked w s).dev with errCode := 0x07 } } =
          waiting (acked w s) { (acked w s).dev with errCode := 0x07 } n := hn
      have hstate : (acked w s).dev.state = s.dev.state := by
        unfold acked
        dsimp only
        split_ifs <;> rfl
      rw [hs]
      exact ⟨_, _, rfl, .badNum hon ht hd (by simpa using hnum) _ n hstate⟩
  case h_2 hd =>
    by_cases hin : .invite ≤ s.dev.state ∧ s.dev.state ≤ .failed
    · obtain ⟨pdu, hp⟩ := Option.isSome_iff_exists.mp ((statePdu_isSome s.dev).mpr hin)
      rw [hp]
      exact .inr ⟨fun h => h.2.2.2 hin, _, _, rfl, .sent hon ht hd⟩
    · have hp : statePdu s.dev = none := by
        rw [← Option.not_isSome_iff_eq_none, statePdu_isSome]
        exact hin
      rw [hp]
      exact .inl ⟨⟨hon, ht, hd, hin⟩, rfl⟩

theorem handleLinkLoss_cases (w : World) {s : PbAdvDev} (hon : s.timerOn = true)
    (ht : s.timerState = .linkMonitor) : TimedOut w s (some (handleLinkLoss w s).1) := by
  unfold handleLinkLoss
  rcases linkClose_cases w.accepts (stopTimer s) 3 with ⟨hle, hs⟩ | ⟨hle, hs⟩
  · rw [hs]
    exact .lost hon ht hle
  · rw [hs]
    exact .lossClosed hon ht hle

/-- Every expiry does one of these, or meets the assertion of the delay. -/
theorem handleTimeout_cases (cfg : Config) (w : World) (s : PbAdvDev) :
    (Stuck s ∧ handleTimeout cfg w s = .error .assertFailed) ∨
    (¬ Stuck s ∧ ∃ o acts, handleTimeout cfg w s = .ok (o, acts) ∧ TimedOut w s o) := by
  unfold handleTimeout
  split_ifs with hon
  · split
    case h_1 ht =>
      rcases handleDelay_cases cfg w hon ht with ⟨hstuck, he⟩ | ⟨hfree, s', acts, he, hout⟩
      · rw [he]
        exact .inl ⟨hstuck, rfl⟩
      · rw [he]
        exact .inr ⟨hfree, _, _, rfl, hout⟩
    case h_2 ht =>
      exact .inr ⟨fun h => by simp [Stuck, ht] at h, handleRetry_cases w hon ht⟩
    case h_3 ht =>
      exact .inr ⟨fun h => by simp [Stuck, ht] at h, _, _, rfl, handleLinkLoss_cases w hon ht⟩
  · exact .inr ⟨fun h => hon h.1, _, _, rfl, .off (by simpa using hon)⟩

end Timer

end Meshx.PbAdv
