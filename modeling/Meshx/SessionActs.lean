import Meshx.PendingTransaction

/-! What the steps of a session send and hand on. What holds of the packets of the link, of the
segments that are sent and of the reassembled PDU holds of everything but the acks. -/
namespace Meshx.PbAdv

open Lib Prov

/-- The acts that need no transaction of the peer have the property. -/
structure OfLink (p : Act → Prop) : Prop where
  linkOpen : ∀ linkId devUuid, p (.send (linkOpenPkt linkId devUuid))
  linkAck : ∀ linkId, p (.send (linkAckPkt linkId))
  linkClose : ∀ linkId reason, p (.send (linkClosePkt linkId reason))
  recvProvPdu : ∀ pdu len fcs, p (.recvProvPdu pdu len fcs)

/-- The segments of the transaction of the session have the property. -/
def OfTrans (p : Act → Prop) (s : PbAdvDev) : Prop :=
  ∀ data, ∀ pkt ∈ transPkts s.linkId s.txTransNum data, p (.send pkt)

/-- The PDU of the session waits for the delay to end. -/
def Waiting (s : PbAdvDev) : Prop :=
  s.timerOn = true ∧ s.timerState = .delay ∧ s.timerDelayType = .provPdu

/-- The PDU has been sent, and is sent again until it is acked. -/
def Repeating (s : PbAdvDev) : Prop :=
  s.timerOn = true ∧ s.timerState = .retry ∧ .invite ≤ s.dev.state ∧ s.dev.state ≤ .complete

/-- The timer sends the PDU of the session when it expires. -/
def SendsPdu (s : PbAdvDev) : Prop := Waiting s ∨ Repeating s

instance (s : PbAdvDev) : Decidable (Waiting s) := inferInstanceAs (Decidable (_ ∧ _))

instance (s : PbAdvDev) : Decidable (Repeating s) := inferInstanceAs (Decidable (_ ∧ _))

instance (s : PbAdvDev) : Decidable (SendsPdu s) := inferInstanceAs (Decidable (_ ∨ _))

section Acts

variable {p : Act → Prop} {cfg : Config} {w : World} {accepts : List Byte → Bool} {s : PbAdvDev}
  {acts : List Act} {pkt : List Byte}

theorem all_nil : ∀ act ∈ ([] : List Act), p act := fun _ h => absurd h List.not_mem_nil

theorem all_send (h : p (.send pkt)) : ∀ act ∈ send accepts pkt, p act := by
  unfold send
  split_ifs
  · exact fun act hact => List.mem_singleton.mp hact ▸ h
  · exact all_nil

theorem all_sendTrans {data : List Byte} (h : OfTrans p s) :
    ∀ act ∈ sendTrans accepts s.linkId s.txTransNum data, p act := by
  intro act hact
  obtain ⟨pkt, hpkt, rfl⟩ := List.mem_map.mp hact
  exact h data pkt (List.takeWhile_subset _ hpkt)

variable (hp : OfLink p)

include hp

theorem all_linkClose (accepts : List Byte → Bool) (s : PbAdvDev) (reason : Byte) :
    ∀ act ∈ (linkClose accepts s reason).2.2, p act := by
  unfold linkClose
  split_ifs
  · exact all_nil
  · exact all_send (hp.linkClose _ _)

theorem all_call (cfg : Config) (accepts : List Byte → Bool) (s : PbAdvDev) (c : Call) :
    ∀ act ∈ (call cfg accepts s c).2, p act := by
  cases c with
  | linkOpen linkId =>
    simp only [call, linkOpen]
    split_ifs
    · exact all_nil
    · exact all_nil
    · exact all_send (hp.linkOpen _ _)
  | linkClose reason => exact all_linkClose hp accepts s reason
  | _ => exact all_nil

theorem all_calls (cfg : Config) (accepts : List Byte → Bool) (s : PbAdvDev) (cs : List Call) :
    ∀ act ∈ (calls cfg accepts s cs).2, p act := by
  induction cs generalizing s with
  | nil => exact all_nil
  | cons c cs ih => exact List.forall_mem_append.mpr ⟨all_call hp cfg accepts s c, ih _⟩

theorem all_handleRetry {o : Option PbAdvDev}
    (htrans : .invite ≤ s.dev.state ∧ s.dev.state ≤ .complete → OfTrans p s)
    (h : handleRetry w s = .ok (o, acts)) : ∀ act ∈ acts, p act := by
  unfold handleRetry at h
  split_ifs at h with hopening hclosing hpdu
  · cases h
    exact all_send (hp.linkOpen _ _)
  · cases h
    exact all_send (hp.linkClose _ _)
  · split at h
    case h_1 pdu hpdu' =>
      have hsent : ∀ act ∈ sendTrans w.accepts s.linkId s.txTransNum pdu, p act :=
        all_sendTrans (htrans hpdu)
      dsimp only at h
      split_ifs at h
      · cases h
        exact List.forall_mem_append.mpr ⟨hsent, all_linkClose hp _ _ _⟩
      · cases h
        exact hsent
    case h_2 => cases h
  · cases h
    exact all_nil

theorem all_handleTimeout {o : Option PbAdvDev} (htrans : SendsPdu s → OfTrans p s)
    (hdue : ¬ AckDue s) (h : handleTimeout cfg w s = .ok (o, acts)) : ∀ act ∈ acts, p act := by
  unfold handleTimeout at h
  split_ifs at h with hon
  · split at h
    case h_1 ht =>
      unfold handleDelay at h
      split at h
      case h_1 hd => exact absurd ⟨hon, ht, hd⟩ hdue
      case h_2 hd =>
        split at h
        case h_1 =>
          cases h
          exact all_sendTrans (htrans (.inl ⟨hon, ht, hd⟩))
        case h_2 => cases h
    case h_2 ht => exact all_handleRetry hp (fun hpdu => htrans (.inr ⟨hon, ht, hpdu⟩)) h
    case h_3 =>
      cases h
      exact all_linkClose hp w.accepts (stopTimer s) 3
  · cases h
    exact all_nil

theorem all_storeSeg {segIndex offset : ℕ} {pdu : List Byte} {out : Out}
    (h : storeSeg s segIndex offset pdu = .ok out) : ∀ act ∈ out.acts, p act := by
  have hrecv (s : PbAdvDev) : ∀ act ∈ (recvProvPdu s).2, p act := by
    unfold recvProvPdu
    dsimp only
    split_ifs <;> exact fun act hact => List.mem_singleton.mp hact ▸ hp.recvProvPdu _ _ _
  unfold storeSeg at h
  split_ifs at h
  dsimp only at h
  split_ifs at h
  · cases h
    exact hrecv _
  · cases h
    exact all_nil

theorem all_recvLinkOpen (cfg : Config) (w : World) (s : PbAdvDev) (linkId : BitVec 32) :
    ∀ act ∈ (recvLinkOpen cfg w s linkId).acts, p act := by
  unfold recvLinkOpen
  dsimp only
  split_ifs
  · exact all_nil
  · exact all_send (hp.linkAck _)
  · exact all_nil
  · exact List.forall_mem_append.mpr ⟨all_send (hp.linkAck _), all_calls hp _ _ _ _⟩
  · exact all_send (hp.linkAck _)

theorem all_recvTransAck (w : World) (s : PbAdvDev) (num : Byte) :
    ∀ act ∈ (recvTransAck w s num).acts, p act := by
  unfold recvTransAck
  split_ifs
  · exact all_nil
  · unfold notifyTransAck
    split_ifs
    · exact all_linkClose hp _ _ _
    · exact all_linkClose hp _ _ _
    · exact all_nil

/-- A packet is answered with an ack only if it is a segment of the acked transaction. -/
theorem recv_acts {pdata : List Byte} {out : Out} (h : recv cfg s w pdata = .ok out) :
    (∀ act ∈ out.acts, p act) ∨ .linkOpened ≤ s.dev.state ∧
      out = ⟨.success, some s, send w.accepts (transAckPkt s.linkId s.ackedTransNum)⟩ := by
  unfold recv at h
  split at h
  case h_1 =>
    cases h
    exact .inl all_nil
  case h_2 linkId devUuid hp' =>
    split_ifs at h
    · cases h
      exact .inl (all_recvLinkOpen hp _ _ _ _)
    · cases h
      exact .inl all_nil
  case h_3 pkt hne hp' =>
    cases pkt with
    | transStart linkId num lastSegNum totalLen fcs pdu =>
      have hcases := recvTransStart_cases w s num lastSegNum totalLen fcs pdu
      simp only [recvPkt] at h
      generalize recvTransStart w s num lastSegNum totalLen fcs pdu = r at hcases h
      cases hcases with
      | refused =>
        cases h
        exact .inl all_nil
      | again ho =>
        cases h
        exact .inr ⟨ho, rfl⟩
      | misfit =>
        cases h
        exact .inl all_nil
      | stored => exact .inl (all_storeSeg hp h)
    | transContinue linkId num segIndex pdu =>
      have hcases := recvTransContinue_cases w s num segIndex pdu
      simp only [recvPkt] at h
      generalize recvTransContinue w s num segIndex pdu = r at hcases h
      cases hcases with
      | refused =>
        cases h
        exact .inl all_nil
      | again ho =>
        cases h
        exact .inr ⟨ho, rfl⟩
      | stored => exact .inl (all_storeSeg hp h)
    | transAck linkId num =>
      cases h
      exact .inl (all_recvTransAck hp _ _ _)
    | linkOpen linkId devUuid =>
      cases h
      exact .inl (all_recvLinkOpen hp _ _ _ _)
    | linkAck linkId =>
      cases h
      unfold recvLinkAck
      split_ifs
      · exact .inl all_nil
      · exact .inl all_nil
    | linkClose linkId reason =>
      cases h
      exact .inl all_nil

end Acts

end Meshx.PbAdv
