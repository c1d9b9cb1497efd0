import Meshx.SessionActs

/-! A peer that sends one transaction at a time, as often as it likes, until it has got the ack.
The transaction is processed once, unless an ack is not taken by the bearer when it is due. -/
namespace Meshx.PbAdv

open Lib Prov

section Acts

/-- The peer reads the packet that was sent as the ack of the transaction. -/
def Act.acks (num : Byte) : Act → Bool
  | .send pkt =>
    match parse pkt with
    | .ok (.transAck _ n) => n = num
    | _ => false
  | _ => false

def Act.processes : Act → Bool
  | .pduProcess .. => true
  | _ => false

/-- No transaction is acked and none is processed. -/
def Quiet (acts : List Act) : Prop :=
  ∀ act ∈ acts, (∀ num, act.acks num = false) ∧ act.processes = false

variable {cfg : Config} {w : World} {s : PbAdvDev} {acts : List Act} {pkt : List Byte}

theorem parse_transAck (linkId : BitVec 32) (num : Byte) :
    parse (transAckPkt linkId num) = .ok (.transAck linkId num) := by
  have hid : readBe32 (transAckPkt linkId num) = linkId := readBe32_be32 linkId _
  have hnum : byteAt (transAckPkt linkId num) 4 = num := rfl
  have hgpc : byteAt (transAckPkt linkId num) 5 = gpc 1 0 := rfl
  have hlen : ¬ (transAckPkt linkId num).length < 6 := by simp [transAckPkt, metadata]
  simp only [parse, hid, hnum, hgpc, gpc_format]
  exact if_neg hlen

theorem parseBearerCtl_transAck {linkId linkId' : BitVec 32} {num num' : Byte} {content : ℕ} :
    parseBearerCtl pkt linkId num content ≠ .ok (.transAck linkId' num') := by
  intro h
  have hctl := guard_ok (guard_ok h)
  split at hctl
  case h_1 => cases guard_ok hctl
  case h_2 => cases hctl
  case h_3 => cases guard_ok hctl
  case h_4 => cases hctl

/-- Only a packet of the ack format is read as an ack. -/
theorem parse_transAck_format {linkId : BitVec 32} {num : Byte}
    (h : parse pkt = .ok (.transAck linkId num)) : (byteAt pkt 5).extractLsb' 0 2 = 1 := by
  unfold parse at h
  dsimp only at h
  split at h
  case h_1 => cases guard_ok h
  case h_2 hf => exact hf
  case h_3 => cases guard_ok h
  case h_4 => exact absurd h parseBearerCtl_transAck

theorem quiet_sent (h : (byteAt pkt 5).extractLsb' 0 2 ≠ 1) {act : Act} (hact : act = .send pkt) :
    (∀ num, act.acks num = false) ∧ act.processes = false := by
  subst hact
  refine ⟨fun num => ?_, rfl⟩
  unfold Act.acks
  dsimp only
  split
  case h_1 hp => exact absurd (parse_transAck_format hp) h
  case h_2 => rfl

theorem segPkt_format (linkId : BitVec 32) (num : Byte) (data : List Byte) (i : ℕ) :
    (byteAt (segPkt linkId num data i) 5).extractLsb' 0 2 ≠ 1 := by
  have hgpc (format : BitVec 2) (content : BitVec 6) (h : format ≠ 1) :
      (gpc format content).extractLsb' 0 2 ≠ 1 := by rwa [gpc_format]
  unfold segPkt
  split_ifs
  · exact hgpc 0 _ (by decide)
  · exact hgpc 2 _ (by decide)

theorem quiet_ofTrans : OfTrans (fun act => (∀ num, act.acks num = false) ∧
    act.processes = false) s := by
  intro data pkt hmem
  obtain ⟨i, -, rfl⟩ := mem_transPkts.mp hmem
  exact quiet_sent (segPkt_format _ _ data i) rfl

theorem quiet_ofLink : OfLink fun act => (∀ num, act.acks num = false) ∧
    act.processes = false where
  linkOpen linkId devUuid := @quiet_sent (linkOpenPkt linkId devUuid)
    (show (gpc 3 0).extractLsb' 0 2 ≠ 1 by decide) _ rfl
  linkAck linkId := @quiet_sent (linkAckPkt linkId)
    (show (gpc 3 1).extractLsb' 0 2 ≠ 1 by decide) _ rfl
  linkClose linkId reason := @quiet_sent (linkClosePkt linkId reason)
    (show (gpc 3 2).extractLsb' 0 2 ≠ 1 by decide) _ rfl
  recvProvPdu _ _ _ := ⟨fun _ => rfl, rfl⟩

/-- What a step of a session sends and processes, with the session it leaves. -/
inductive Emits (cfg : Config) (w : World) (s : PbAdvDev) (e : SessionEvent) :
    Option PbAdvDev → List Act → Prop
  | quiet (o : Option PbAdvDev) {acts : List Act} (h : Quiet acts)
      (hdue : ¬ (e = .timeout ∧ AckDue s)) : Emits cfg w s e o acts
  | again (ho : .linkOpened ≤ s.dev.state) :
      Emits cfg w s e (some s) (send w.accepts (transAckPkt s.linkId s.ackedTransNum))
  | acked (he : e = .timeout) (h : AckDue s) : Emits cfg w s e (some (handleTransAck cfg w s).1)
      (handleTransAck cfg w s).2

theorem sessionStep_emits {e : SessionEvent} {o : Option PbAdvDev}
    (h : sessionStep cfg s w e = .ok (o, acts)) : Emits cfg w s e o acts := by
  cases e with
  | recv pdata =>
    obtain ⟨out, hout, heq⟩ := map_ok h
    cases heq
    rcases recv_acts quiet_ofLink hout with hquiet | ⟨ho, rfl⟩
    · exact .quiet _ hquiet fun he => by cases he.1
    · exact .again ho
  | call c =>
    cases h
    exact .quiet _ (all_call quiet_ofLink cfg w.accepts s c) fun he => by cases he.1
  | timeout =>
    by_cases hdue : AckDue s
    · rw [timeout_ackDue hdue] at h
      cases h
      exact .acked rfl hdue
    · exact .quiet _ (all_handleTimeout quiet_ofLink (fun _ => quiet_ofTrans) hdue h) fun he =>
        hdue he.2

end Acts

section Peer

/-- What the peer knows of the transaction it sends, with how often it has been processed. -/
structure Peer where
  num : Byte
  acked : Bool
  processed : ℕ
  deriving DecidableEq

def Peer.sees (p : Peer) (acts : List Act) : Peer :=
  { p with
    acked := p.acked || acts.any (·.acks p.num)
    processed := p.processed + acts.countP (·.processes) }

/-- What happens to the session, and the peer going on to another transaction. -/
inductive PeerEvent
  | session (e : SessionEvent)
  | advance (num : Byte)

/-- The session together with the transaction of its peer. -/
def peerNext (cfg : Config) : Option PbAdvDev × Peer → PeerEvent × World →
    Except Fault (Option PbAdvDev × Peer)
  | (o, _), (.advance num, _) => .ok (o, ⟨num, false, 0⟩)
  | (none, p), (.session _, _) => .ok (none, p)
  | (some s, p), (.session e, w) =>
    (sessionStep cfg s w e).map fun (o, acts) => (o, p.sees acts)

/-- The packet is not a segment of another transaction. -/
def Pkt.Carries (num : Byte) : Pkt → Prop
  | .transStart _ transNum .. => transNum = num
  | .transContinue _ transNum .. => transNum = num
  | _ => True

instance (num : Byte) (pkt : Pkt) : Decidable (pkt.Carries num) :=
  match pkt with
  | .transStart .. | .transContinue .. => inferInstanceAs (Decidable (_ = _))
  | .transAck .. | .linkOpen .. | .linkAck _ | .linkClose .. => isTrue trivial

def Carries (num : Byte) (pdata : List Byte) : Prop :=
  match parse pdata with
  | .ok pkt => pkt.Carries num
  | .error _ => True

instance (num : Byte) (pdata : List Byte) : Decidable (Carries num pdata) :=
  match hp : parse pdata with
  | .ok pkt => decidable_of_iff (pkt.Carries num) (by rw [Carries, hp])
  | .error _ => isTrue (by rw [Carries, hp]; trivial)

/-- The peer sends segments of its transaction only and goes on after an ack. -/
def Disciplined : Option PbAdvDev × Peer → PeerEvent × World → Prop
  | (_, p), (.session (.recv pdata), _) => Carries p.num pdata
  | (_, p), (.advance _, _) => p.acked = true
  | _, _ => True

/-- The ack of a transaction that is going to be processed is taken by the bearer. -/
def AckTaken : Option PbAdvDev × Peer → PeerEvent × World → Prop
  | (some s, _), (.session .timeout, w) =>
    ProcessDue s → w.accepts (transAckPkt s.linkId s.rxTransNum) = true
  | _, _ => True

instance (σ : Option PbAdvDev × Peer) (e : PeerEvent × World) : Decidable (Disciplined σ e) :=
  match σ, e with
  | (_, _), (.session (.recv _), _) => inferInstanceAs (Decidable (Carries _ _))
  | (_, _), (.advance _, _) => inferInstanceAs (Decidable (_ = _))
  | (_, _), (.session (.call _), _) | (_, _), (.session .timeout, _) => isTrue trivial

instance (σ : Option PbAdvDev × Peer) (e : PeerEvent × World) : Decidable (AckTaken σ e) :=
  match σ, e with
  | (some _, _), (.session .timeout, _) => inferInstanceAs (Decidable (_ → _))
  | (some _, _), (.session (.recv _), _) | (some _, _), (.session (.call _), _)
  | (some _, _), (.advance _, _) | (none, _), _ => isTrue trivial

variable {cfg : Config} {w : World} {s t : PbAdvDev} {p : Peer} {e : SessionEvent}
  {acts : List Act}

theorem Quiet.sees (h : Quiet acts) : p.sees acts = p := by
  have hany : acts.any (·.acks p.num) = false :=
    List.any_eq_false.mpr fun act hact => Bool.not_eq_true _ ▸ (h act hact).1 p.num
  have hcount : acts.countP (·.processes) = 0 :=
    List.countP_eq_zero.mpr fun act hact => Bool.not_eq_true _ ▸ (h act hact).2
  rw [Peer.sees, hany, hcount, Bool.or_false, Nat.add_zero]

/-- The peer's transaction is the only one that the session puts together, and what has been
acked or processed of it is known to be acked. -/
structure Once (s : PbAdvDev) (p : Peer) : Prop where
  early : s.dev.state ≤ .linkOpening →
    s.transDataLen = 0 ∧ p.acked = false ∧ p.processed = 0
  going : s.transDataLen ≠ 0 → s.rxTransNum = p.num ∧ s.ackedTransNum ≠ p.num
  due : AckDue s → .linkOpened ≤ s.dev.state ∧ s.transDataLen ≠ 0 ∧ s.recvSeg = 0
  done : p.acked = true ∨ p.processed ≠ 0 → s.ackedTransNum = p.num
  once : p.processed ≤ 1

theorem clearedSession_once (devUuid : List Byte) (role : Role) (num : Byte) :
    Once (clearedSession devUuid role) ⟨num, false, 0⟩ where
  early _ := ⟨rfl, rfl, rfl⟩
  going h := absurd rfl h
  due h := absurd h.1 Bool.false_ne_true
  done h := by simp at h
  once := Nat.zero_le _

theorem Once.of_same (h : Once s p)
    (hearly : t.dev.state ≤ .linkOpening → s.dev.state ≤ .linkOpening)
    (hlen : t.transDataLen = s.transDataLen) (hrx : t.rxTransNum = s.rxTransNum)
    (hacked : t.ackedTransNum = s.ackedTransNum)
    (hdue : AckDue t → .linkOpened ≤ t.dev.state ∧ t.transDataLen ≠ 0 ∧ t.recvSeg = 0) :
    Once t p where
  early hle := hlen ▸ h.early (hearly hle)
  going hne := by
    rw [hrx, hacked]
    exact h.going (hlen ▸ hne)
  due := hdue
  done hd := hacked.trans (h.done hd)
  once := h.once

/-- Nothing is received and nothing has been processed while the link is not open. -/
theorem Once.of_unopened (h : Once s p) (hle : s.dev.state ≤ .linkOpening)
    (hlen : t.transDataLen = 0) (hdue : ¬ AckDue t) : Once t p where
  early _ := ⟨hlen, (h.early hle).2⟩
  going hne := absurd hlen hne
  due hd := absurd hd hdue
  done hd := by
    obtain ⟨-, hacked, hprocessed⟩ := h.early hle
    simp [hacked, hprocessed] at hd
  once := h.once

theorem Once.not_due (h : Once s p) (hle : s.dev.state ≤ .linkOpening) : ¬ AckDue s := by
  intro hdue
  have hlater : ¬ ProvState.linkOpened ≤ .linkOpening := by decide
  exact hlater ((h.due hdue).1.trans hle)

theorem not_ackDue_of_timer (h : t.timerState ≠ .delay) : ¬ AckDue t := fun hdue => h hdue.2.1

theorem not_ackDue_waiting (s : PbAdvDev) (d : ProvDev) (n : Byte) : ¬ AckDue (waiting s d n) := by
  intro hdue
  cases hdue.2.2

theorem closing_once (h : Once s p) (reason : Byte) : Once (closing s reason) p := by
  have hlater : ¬ ProvState.linkClosing ≤ .linkOpening := by decide
  have htimer : ¬ AckDue (closing s reason) := not_ackDue_of_timer (by simp [closing, startTimer])
  exact h.of_same (fun hle => absurd hle hlater) rfl rfl rfl fun hdue => absurd hdue htimer

theorem Called.once {c : Call} (h : Called s c t) (hs : Once s p) : Once t p := by
  cases h with
  | kept hc d hd =>
    refine hs.of_same (fun hle => hd ▸ hle) rfl rfl rfl fun hdue => ?_
    rw [hd]
    exact hs.due hdue
  | opened hc hidle linkId =>
    have hle : s.dev.state ≤ .linkOpening := hidle ▸ by decide
    exact hs.of_unopened hle (hs.early hle).1
      (not_ackDue_of_timer (by simp [opening, startTimer]))
  | closed hc ho reason => exact closing_once hs reason
  | sent hc d n h₁ h₂ hlast hle =>
    have hlater : ¬ d.state ≤ .linkOpening := fun hle => absurd (h₁.trans hle) (by decide)
    exact hs.of_same (fun hle => absurd hle hlater) rfl rfl rfl
      fun hdue => absurd hdue (not_ackDue_waiting s d n)

theorem Filled.once (h : Filled s t) (hs : Once s p) (ho : .linkOpened ≤ s.dev.state)
    (hlen : s.transDataLen ≠ 0) (hno : ¬ AckDue s) : Once t p := by
  have hearly : ¬ s.dev.state ≤ .linkOpening := fun hle => absurd (ho.trans hle) (by decide)
  cases h with
  | waits => exact hs
  | ignored => exact hs
  | dropped hseg hfailed hcrc =>
    exact {
      early := fun hle => absurd hle hearly
      going := fun hne => absurd rfl hne
      due := fun hdue => absurd hdue hno
      done := hs.done
      once := hs.once }
  | acking hseg hfailed hcrc =>
    exact hs.of_same id rfl rfl rfl fun _ => ⟨ho, hlen, hseg⟩

theorem Starts.not_due {transNum : Byte} {lastSegNum totalLen : ℕ}
    (hstarts : Starts s transNum lastSegNum totalLen) (hs : Once s p) : ¬ AckDue s := by
  intro hdue
  obtain ⟨-, hgoing, hseg⟩ := hs.due hdue
  have hmissing := hstarts.missing
  rw [startSegs, if_neg hgoing, hseg] at hmissing
  simp at hmissing

theorem Starts.once {transNum fcs : Byte} {lastSegNum totalLen : ℕ}
    (hstarts : Starts s transNum lastSegNum totalLen) (hs : Once s p) (hnum : transNum = p.num) :
    Once (begun s transNum lastSegNum totalLen fcs) p where
  early hle := absurd (hstarts.opened.trans hle) (by decide)
  going _ := ⟨hnum, hnum ▸ hstarts.fresh⟩
  due hdue := absurd hdue (hstarts.not_due hs)
  done hd := hs.done hd
  once := hs.once

theorem Continues.not_due {transNum : Byte} {segIndex : ℕ} (hcont : Continues s transNum segIndex)
    (hs : Once s p) : ¬ AckDue s := by
  intro hdue
  have hmissing := hcont.missing
  rw [(hs.due hdue).2.2] at hmissing
  simp at hmissing

theorem copied_once {segIndex offset : ℕ} {pdu : List Byte} (hs : Once s p) (hno : ¬ AckDue s) :
    Once (copied s segIndex offset pdu) p :=
  hs.of_same id rfl rfl rfl fun hdue => absurd hdue hno

theorem Received.once {pkt : Pkt} (h : Received cfg w s pkt (some t)) (hs : Once s p)
    (hnum : pkt.Carries p.num) : Once t p := by
  have hmonitor {u : PbAdvDev} (hu : u.timerState = .linkMonitor) : ¬ AckDue u :=
    not_ackDue_of_timer (by simp [hu])
  have hmonitored : Once (PbAdv.monitored s) p :=
    hs.of_same id rfl rfl rfl fun hdue => absurd hdue (hmonitor rfl)
  cases h with
  | kept => exact hs
  | restored linkId devUuid ho d hd =>
    refine hs.of_same (fun hle => hd ▸ hle) rfl rfl rfl fun hdue => ?_
    rw [hd]
    exact hs.due hdue
  | unacked linkId devUuid hle d hd => exact hs.of_unopened hle rfl (hs.not_due hle)
  | accepted linkId devUuid hle d hd =>
    have hstart : Once (accepting s d linkId) p := hs.of_unopened hle rfl (hs.not_due hle)
    have hcalls : Once (calls cfg w.accepts (accepting s d linkId) w.onOpened).1 p :=
      calls_invariant (P := fun u => Once u p) (fun _ _ _ hu hc => hc.once hu) w.accepts
        w.onOpened hstart
    exact hcalls.of_same id rfl rfl rfl fun hdue => absurd hdue (hmonitor rfl)
  | established linkId hle =>
    have hlater : ¬ ProvState.linkOpened ≤ .linkOpening := by decide
    exact {
      early := fun hle => absurd hle hlater
      going := hs.going
      due := fun hdue => absurd hdue (hmonitor rfl)
      done := hs.done
      once := hs.once }
  | monitored linkId transNum htx hcomplete hfailed => exact hmonitored
  | ended linkId transNum htx hend reason => exact closing_once hmonitored reason
  | begun linkId fcs pdu hstarts hlen => exact hstarts.once hs hnum
  | @started linkId transNum lastSegNum totalLen fcs pdu hstarts hlen hin t ht =>
    have hbegun : Once (PbAdv.begun s transNum lastSegNum totalLen fcs) p := hstarts.once hs hnum
    have hno : ¬ AckDue (PbAdv.begun s transNum lastSegNum totalLen fcs) := hstarts.not_due hs
    exact ht.once (copied_once hbegun hno) hstarts.opened hstarts.pos.ne' hno
  | continued linkId pdu hcont hlen hin t ht =>
    have hno := hcont.not_due hs
    exact ht.once (copied_once hs hno) hcont.opened hcont.going hno

theorem TimedOut.once (h : TimedOut w s (some t)) (hs : Once s p) (hno : ¬ AckDue s) :
    Once t p := by
  cases h with
  | off => exact hs
  | processed hon ht hd => exact absurd ⟨hon, ht, hd⟩ hno
  | badNum hon ht hd => exact absurd ⟨hon, ht, hd⟩ hno
  | sent hon ht hd =>
    exact hs.of_same id rfl rfl rfl
      fun hdue => absurd hdue (not_ackDue_of_timer (by simp [startTimer]))
  | lost hon ht hle =>
    exact hs.of_same id rfl rfl rfl fun hdue => absurd hdue.1 Bool.false_ne_true
  | lossClosed hon ht ho =>
    have hstop : Once (stopTimer s) p :=
      hs.of_same id rfl rfl rfl fun hdue => absurd hdue.1 Bool.false_ne_true
    exact closing_once hstop 3
  | retried hon ht time =>
    exact hs.of_same id rfl rfl rfl
      fun hdue => absurd hdue (not_ackDue_of_timer (by simp [ht]))
  | expired hon ht ho time =>
    have hstop : Once (stopTimer { s with retryTime := time }) p :=
      hs.of_same id rfl rfl rfl fun hdue => absurd hdue.1 Bool.false_ne_true
    exact closing_once hstop 1

/-- Nothing is going on in an open session once its transaction has been dealt with. -/
theorem once_of_open (ho : .linkOpened ≤ t.dev.state) (hlen : t.transDataLen = 0)
    (hno : ¬ AckDue t) (hdone : p.acked = true ∨ p.processed ≠ 0 → t.ackedTransNum = p.num)
    (honce : p.processed ≤ 1) : Once t p where
  early hle := absurd (ho.trans hle) (by decide)
  going hne := absurd hlen hne
  due hdue := absurd hdue hno
  done := hdone
  once := honce

theorem acks_transAck (linkId : BitVec 32) (num num' : Byte) :
    (Act.send (transAckPkt linkId num)).acks num' = decide (num = num') := by
  simp only [Act.acks, parse_transAck]

theorem sees_ack (p : Peer) (linkId : BitVec 32) (num : Byte) :
    p.sees (send w.accepts (transAckPkt linkId num)) = { p with
      acked := p.acked || (w.accepts (transAckPkt linkId num) && decide (num = p.num)) } := by
  unfold send
  by_cases htaken : w.accepts (transAckPkt linkId num) = true
  · rw [if_pos htaken]
    simp [Peer.sees, acks_transAck, htaken, Act.processes]
  · rw [if_neg htaken]
    simp [Peer.sees, htaken]

theorem acked_ackedTransNum (w : World) (s : PbAdvDev) : (acked w s).ackedTransNum =
    if w.accepts (transAckPkt s.linkId s.rxTransNum) then s.rxTransNum else s.ackedTransNum := by
  unfold acked
  dsimp only
  split_ifs <;> rfl

theorem processed_linkOpened_le {before after : ProvState} {answer : Option ProvType}
    (h : Processed before after answer) (ho : .linkOpened ≤ before) : .linkOpened ≤ after := by
  cases h with
  | kept hd => exact hd ▸ ho
  | moved hle => exact ho.trans hle
  | failed hd =>
    rw [hd]
    decide
  | refused hr hd =>
    rw [hd]
    decide

/-- The expiry that acks the transaction, and processes it if its number is one of the peer. -/
theorem handleTransAck_once (hs : Once s p) (hdue : AckDue s)
    (htaken : ProcessDue s → w.accepts (transAckPkt s.linkId s.rxTransNum) = true) :
    Once (handleTransAck cfg w s).1 (p.sees (handleTransAck cfg w s).2) := by
  obtain ⟨ho, hlen, hseg⟩ := hs.due hdue
  obtain ⟨hrx, hfresh⟩ := hs.going hlen
  have hnone : p.processed = 0 := by
    by_contra hne
    exact hfresh (hs.done (.inr hne))
  have hunacked : p.acked = false := by
    by_contra hne
    exact hfresh (hs.done (.inl (Bool.eq_true_of_not_eq_false hne)))
  have hclear : (acked w s).transDataLen = 0 :=
    congrArg Reassembly.transDataLen (acked_reassembly w s)
  have hopen : .linkOpened ≤ (acked w s).dev.state := acked_dev w s ▸ ho
  have hmonitor : ¬ AckDue (acked w s) :=
    not_ackDue_of_timer (by unfold acked; dsimp only; split_ifs <;> simp [startTimer])
  unfold handleTransAck
  dsimp only
  by_cases hnum : peerTransNum s.dev.role s.rxTransNum = true
  · rw [if_pos hnum]
    have hout : w.accepts (transAckPkt s.linkId s.rxTransNum) = true :=
      htaken ⟨hdue.1, hdue.2.1, hdue.2.2, hnum⟩
    have hack : (acked w s).ackedTransNum = p.num := by rw [acked_ackedTransNum, if_pos hout, hrx]
    have hp : (p.sees (send w.accepts (transAckPkt s.linkId s.rxTransNum) ++
        [.pduProcess s.rxTransNum s.provRxPdu s.transDataLen])) = ⟨p.num, true, 1⟩ := by
      rw [send, if_pos hout]
      simp [Peer.sees, acks_transAck, hrx, hnone, Act.processes]
    dsimp only
    rw [hp]
    have hprocess := process_cases cfg w (acked w s) s.transDataLen
    generalize process cfg w (acked w s) s.transDataLen = t at hprocess ⊢
    cases hprocess with
    | quiet d hd =>
      exact once_of_open (processed_linkOpened_le hd hopen) hclear hmonitor (fun _ => hack) le_rfl
    | answered d n type hd =>
      exact once_of_open (processed_linkOpened_le hd hopen) hclear (not_ackDue_waiting _ d n)
        (fun _ => hack) le_rfl
  · rw [if_neg hnum]
    obtain ⟨n, hn⟩ := pbAdvSend_eq (acked w s) { (acked w s).dev with errCode := 0x07 } .failed
    have hnext : pbAdvFailed { acked w s with dev := { (acked w s).dev with errCode := 0x07 } } =
        waiting (acked w s) { (acked w s).dev with errCode := 0x07 } n := hn
    dsimp only
    rw [hnext, sees_ack]
    refine once_of_open hopen hclear (not_ackDue_waiting _ _ n) (fun hd => ?_) (by simp [hnone])
    have hout : w.accepts (transAckPkt s.linkId s.rxTransNum) = true := by
      simpa [hunacked, hnone, hrx] using hd
    change (acked w s).ackedTransNum = p.num
    rw [acked_ackedTransNum, if_pos hout, hrx]

theorem sessionStep_once {o : Option PbAdvDev} (hs : Once s p)
    (hdisc : Disciplined (some s, p) (.session e, w)) (hack : AckTaken (some s, p) (.session e, w))
    (h : sessionStep cfg s w e = .ok (o, acts)) : OfSession (Once · (p.sees acts)) o := by
  have hnext : sessionNext cfg (some s) (e, w) = .ok o := by
    have hmap : sessionNext cfg (some s) (e, w) = (sessionStep cfg s w e).map (·.1) := rfl
    rw [hmap, h]
    rfl
  have hstep := stepped_of_ok hnext
  cases sessionStep_emits h with
  | quiet _ hquiet hno =>
    rw [hquiet.sees]
    cases hstep with
    | discarded => exact hs
    | received hp hreceived =>
      cases o with
      | none => trivial
      | some t =>
        rw [Disciplined, Carries, hp] at hdisc
        exact hreceived.once hs hdisc
    | called hcalled => exact hcalled.once hs
    | timedOut hfree htimed =>
      cases o with
      | none => trivial
      | some t => exact htimed.once hs fun hdue => hno ⟨rfl, hdue⟩
  | again ho =>
    rw [sees_ack]
    exact {
      early := fun hle => absurd (ho.trans hle) (by decide)
      going := hs.going
      due := hs.due
      done := fun hd => by
        rcases hd with hd | hd
        · rcases (Bool.or_eq_true _ _).mp hd with hd | hd
          · exact hs.done (.inl hd)
          · exact of_decide_eq_true ((Bool.and_eq_true _ _).mp hd).2
        · exact hs.done (.inr hd)
      once := hs.once }
  | acked he hdue =>
    subst he
    exact handleTransAck_once hs hdue hack

/-- What the pair of session and peer keeps, also after the session has been deleted. -/
def PeerOnce : Option PbAdvDev × Peer → Prop
  | (some s, p) => Once s p
  | (none, p) => p.processed ≤ 1

theorem peerNext_once (σ : Option PbAdvDev × Peer) (e : PeerEvent × World)
    (σ' : Option PbAdvDev × Peer) (h : PeerOnce σ) (hcond : Disciplined σ e ∧ AckTaken σ e)
    (hnext : peerNext cfg σ e = .ok σ') : PeerOnce σ' := by
  obtain ⟨o, p⟩ := σ
  obtain ⟨e, w⟩ := e
  cases e with
  | advance num =>
    cases hnext
    cases o with
    | none => exact Nat.zero_le _
    | some s =>
      have hs : Once s p := h
      have hacked : s.ackedTransNum = p.num := hs.done (.inl hcond.1)
      have hlen : s.transDataLen = 0 := by
        by_contra hne
        exact (hs.going hne).2 hacked
      exact {
        early := fun hle => ⟨hlen, rfl, rfl⟩
        going := fun hne => absurd hlen hne
        due := hs.due
        done := fun hd => by simp at hd
        once := Nat.zero_le _ }
  | session e =>
    cases o with
    | none =>
      cases hnext
      exact h
    | some s =>
      obtain ⟨⟨o, acts⟩, hstep, heq⟩ := map_ok hnext
      cases heq
      have hkeep := sessionStep_once h hcond.1 hcond.2 hstep
      cases o with
      | none =>
        cases sessionStep_emits hstep with
        | quiet _ hquiet =>
          change (p.sees acts).processed ≤ 1
          rw [hquiet.sees]
          exact Once.once h
      | some t => exact hkeep

theorem Once.pduProcess_num (hs : Once s p) {o : Option PbAdvDev}
    (h : sessionStep cfg s w e = .ok (o, acts)) {num : Byte} {pdu : List Byte} {len : ℕ}
    (hact : .pduProcess num pdu len ∈ acts) : num = p.num := by
  have hack {linkId : BitVec 32} {n : Byte} :
      .pduProcess num pdu len ∉ send w.accepts (transAckPkt linkId n) := by
    unfold send
    split_ifs <;> simp
  cases sessionStep_emits h with
  | quiet _ hquiet => exact absurd (hquiet _ hact).2 (by simp [Act.processes])
  | again => exact absurd hact hack
  | acked he hdue =>
    have hrx := (hs.going (hs.due hdue).2.1).1
    unfold handleTransAck at hact
    dsimp only at hact
    split_ifs at hact
    · rcases List.mem_append.mp hact with hact | hact
      · exact absurd hact hack
      · cases List.mem_singleton.mp hact
        exact hrx
    · exact absurd hact hack

end Peer

section Runs

/-- When the bearer takes the ack of every transaction that is processed, a peer that goes on
only after an ack has each of its transactions processed once at most. -/
theorem processed_once (cfg : Config) (devUuid : List Byte) (role : Role) (num : Byte)
    (es : List (PeerEvent × World)) (o : Option PbAdvDev) (p : Peer)
    (hpeer : RunAll (peerNext cfg) Disciplined
      (some (clearedSession devUuid role), ⟨num, false, 0⟩) es)
    (hack : RunAll (peerNext cfg) AckTaken
      (some (clearedSession devUuid role), ⟨num, false, 0⟩) es)
    (hrun : run (peerNext cfg) (some (clearedSession devUuid role), ⟨num, false, 0⟩) es =
      .ok (o, p)) :
    p.processed ≤ 1 ∧
    ∀ s e w o' acts, o = some s → sessionStep cfg s w e = .ok (o', acts) →
      ∀ num' pdu len, .pduProcess num' pdu len ∈ acts → num' = p.num := by
  have hstart : PeerOnce (some (clearedSession devUuid role), ⟨num, false, 0⟩) :=
    clearedSession_once devUuid role num
  have hkeep : PeerOnce (o, p) :=
    (hpeer.and hack).invariant peerNext_once hstart hrun
  refine ⟨?_, ?_⟩
  · cases o with
    | none => exact hkeep
    | some s => exact Once.once hkeep
  · rintro s e w o' acts rfl hstep num' pdu len hact
    exact Once.pduProcess_num hkeep hstep hact

/-- The device gets the invite, and once more when its ack was due. -/
def inviteTwice (w : World) : List (PeerEvent × World) :=
  [(.session (.recv (linkOpenPkt 7 (List.replicate 16 1))), plainWorld),
    (.session (.recv (segPkt 7 0 [0, 5] 0)), plainWorld), (.session .timeout, w),
    (.session (.recv (segPkt 7 0 [0, 5] 0)), plainWorld), (.session .timeout, plainWorld)]

/-- A bearer that takes no packet, as when its queue is full. -/
def fullBearer : World := { plainWorld with accepts := fun _ => false }

theorem inviteTwice_processedTwice :
    RunAll (peerNext plainConfig) Disciplined
      (some (clearedSession (List.replicate 16 1) .device), ⟨0, false, 0⟩)
      (inviteTwice fullBearer) ∧
    ∃ o p, run (peerNext plainConfig)
        (some (clearedSession (List.replicate 16 1) .device), ⟨0, false, 0⟩)
        (inviteTwice fullBearer) = .ok (o, p) ∧
      p.processed = 2 :=
  ⟨by decide +kernel, _, _, rfl, rfl⟩

theorem processed_once_inviteTwice : ∃ o p, run (peerNext plainConfig)
      (some (clearedSession (List.replicate 16 1) .device), ⟨0, false, 0⟩)
      (inviteTwice plainWorld) = .ok (o, p) ∧
    p = ⟨0, true, 1⟩ ∧ p.processed ≤ 1 :=
  ⟨_, _, rfl, rfl, (processed_once plainConfig (List.replicate 16 1) .device 0
    (inviteTwice plainWorld) _ _ (by decide +kernel) (by decide +kernel) rfl).1⟩

end Runs

end Meshx.PbAdv
