import Meshx.ProcessOnce
import Meshx.TransNumbers

/-! What is processed of a peer that sends one transaction after the other, going on when it has
got the ack: the PDUs of its transactions, in their order, each one exactly once. The packets of
a transaction are lost, repeated and delivered in any order, and those of the transaction before
may still arrive while the next one is not acked. -/
namespace Meshx.PbAdv

open Lib Prov

/-- A PDU that fits into the buffer, with the number of its transaction. -/
structure Transaction where
  num : Byte
  data : List Byte
  pos : 0 < data.length
  le : data.length ≤ provPduMax
  deriving DecidableEq

/-- The peer with the transactions that it has finished, and the log of what was processed. -/
structure Sender where
  cur : Transaction
  acked : Bool
  finished : List Transaction
  log : List (List Byte)
  deriving DecidableEq

/-- The PDUs that are processed. -/
def processedPdus (acts : List Act) : List (List Byte) :=
  acts.filterMap fun
    | .pduProcess _ pdu len => some (pdu.take len)
    | _ => none

section Sender

def Sender.sees (p : Sender) (acts : List Act) : Sender :=
  { p with
    acked := p.acked || acts.any (·.acks p.cur.num)
    log := p.log ++ processedPdus acts }

/-- The peer goes on to a transaction. -/
def Sender.advance (p : Sender) (t : Transaction) : Sender :=
  { p with cur := t, acked := false, finished := p.finished ++ [p.cur] }

/-- The PDUs whose acks the peer has got. -/
def Sender.delivered (p : Sender) : List (List Byte) :=
  (p.finished ++ if p.acked then [p.cur] else []).map (·.data)

/-- The peer without the data it sends. -/
def Sender.peer (p : Sender) : Peer := ⟨p.cur.num, p.acked, p.log.length - p.finished.length⟩

/-- What happens to the session, and the peer going on to another transaction. -/
inductive SenderEvent
  | session (e : SessionEvent)
  | advance (t : Transaction)

/-- The session together with its peer. -/
def senderNext (cfg : Config) : Option PbAdvDev × Sender → SenderEvent × World →
    Except Fault (Option PbAdvDev × Sender)
  | (o, p), (.advance t, _) => .ok (o, p.advance t)
  | (none, p), (.session _, _) => .ok (none, p)
  | (some s, p), (.session e, w) =>
    (sessionStep cfg s w e).map fun (o, acts) => (o, p.sees acts)

/-- A segment of the transaction, or one of the transaction before while the ack is missing. -/
def Sender.Sends (p : Sender) (pdata : List Byte) : Prop :=
  (∃ i < calcSegNum p.cur.data.length,
    pdata = segPkt (readBe32 pdata) p.cur.num p.cur.data i) ∨
  p.acked = false ∧ ∃ t ∈ p.finished.getLast?, Carries t.num pdata

instance (p : Sender) (pdata : List Byte) : Decidable (p.Sends pdata) :=
  inferInstanceAs (Decidable (_ ∨ _ ∧ _))

/-- The segments are those of the peer, and the link is opened with the role it numbers for. -/
def Pkt.FromSender (p : Sender) (pdata : List Byte) : Pkt → Prop
  | .transStart .. => p.Sends pdata
  | .transContinue .. => p.Sends pdata
  | .linkOpen .. => peerTransNum .device p.cur.num = true
  | .linkAck _ => peerTransNum .provisioner p.cur.num = true
  | _ => True

instance (p : Sender) (pdata : List Byte) (pkt : Pkt) : Decidable (pkt.FromSender p pdata) :=
  match pkt with
  | .transStart .. | .transContinue .. => inferInstanceAs (Decidable (p.Sends pdata))
  | .linkOpen .. | .linkAck _ => inferInstanceAs (Decidable (_ = _))
  | .transAck .. | .linkClose .. => isTrue trivial

def FromSender (p : Sender) (pdata : List Byte) : Prop :=
  match parse pdata with
  | .ok pkt => pkt.FromSender p pdata
  | .error _ => True

instance (p : Sender) (pdata : List Byte) : Decidable (FromSender p pdata) :=
  match hp : parse pdata with
  | .ok pkt => decidable_of_iff (pkt.FromSender p pdata) (by rw [FromSender, hp])
  | .error _ => isTrue (by rw [FromSender, hp]; trivial)

/-- The peer goes on after an ack only, and with another number. -/
def Orderly : Option PbAdvDev × Sender → SenderEvent × World → Prop
  | (_, p), (.session (.recv pdata), _) => FromSender p pdata
  | (_, p), (.advance t, _) => p.acked = true ∧ t.num ≠ p.cur.num
  | _, _ => True

/-- The ack that is due is for a number of the peer's range, and the bearer takes it. -/
def AckGoesOut : Option PbAdvDev × Sender → SenderEvent × World → Prop
  | (some s, _), (.session .timeout, w) => AckDue s →
    w.accepts (transAckPkt s.linkId s.rxTransNum) = true ∧
      peerTransNum s.dev.role s.rxTransNum = true
  | _, _ => True

instance (σ : Option PbAdvDev × Sender) (e : SenderEvent × World) : Decidable (Orderly σ e) :=
  match σ, e with
  | (_, _), (.session (.recv _), _) => inferInstanceAs (Decidable (FromSender _ _))
  | (_, _), (.advance _, _) => inferInstanceAs (Decidable (_ ∧ _))
  | (_, _), (.session (.call _), _) | (_, _), (.session .timeout, _) => isTrue trivial

instance (σ : Option PbAdvDev × Sender) (e : SenderEvent × World) : Decidable (AckGoesOut σ e) :=
  match σ, e with
  | (some _, _), (.session .timeout, _) => inferInstanceAs (Decidable (_ → _))
  | (some _, _), (.session (.recv _), _) | (some _, _), (.session (.call _), _)
  | (some _, _), (.advance _, _) | (none, _), _ => isTrue trivial

end Sender

section Segments

variable {cfg : Config} {w : World} {s t : PbAdvDev} {p : Sender} {linkId : BitVec 32}
  {num : Byte} {data : List Byte} {i : ℕ} {pkt : Pkt} {pdata : List Byte}

/-- The packets that carry a part of a transaction. -/
def Pkt.IsSegment : Pkt → Prop
  | .transStart .. => True
  | .transContinue .. => True
  | _ => False

theorem recv_segment (hp : parse pdata = .ok pkt) (hseg : pkt.IsSegment) :
    recv cfg s w pdata = recvPkt cfg w s pkt := by
  unfold recv
  rw [hp]
  cases pkt with
  | transStart | transContinue => rfl
  | transAck | linkOpen | linkAck | linkClose => exact hseg.elim

/-- A segment of the transaction that has been acked last. -/
theorem recv_again (hp : parse pdata = .ok pkt) (hseg : pkt.IsSegment)
    (hnum : Carries s.ackedTransNum pdata) (ho : .linkOpened ≤ s.dev.state) :
    recv cfg s w pdata = ackAgain w s := by
  rw [recv_segment hp hseg]
  rw [Carries, hp] at hnum
  cases pkt with
  | transStart linkId transNum =>
    have hacked : s.ackedTransNum = transNum := hnum.symm
    simp only [recvPkt, recvTransStart, if_neg (not_lt.mpr ho), if_pos hacked]
  | transContinue linkId transNum =>
    have hacked : s.ackedTransNum = transNum := hnum.symm
    simp only [recvPkt, recvTransContinue, if_neg (not_lt.mpr ho), if_pos hacked]
  | transAck | linkOpen | linkAck | linkClose => exact hseg.elim

theorem recv_unopened (hp : parse pdata = .ok pkt) (hseg : pkt.IsSegment)
    (ho : s.dev.state < .linkOpened) : recv cfg s w pdata = refused s .state := by
  rw [recv_segment hp hseg]
  cases pkt with
  | transStart | transContinue => exact if_pos ho
  | transAck | linkOpen | linkAck | linkClose => exact hseg.elim

theorem parse_segPkt (hle : data.length ≤ provPduMax) (hi : i < calcSegNum data.length) :
    ∃ pkt, parse (segPkt linkId num data i) = .ok pkt ∧ pkt.IsSegment ∧ pkt.Carries num := by
  have hlt := hi.trans (calcSegNum_lt hle)
  by_cases h0 : i = 0
  · have hlast : calcSegNum data.length - 1 < 64 := (Nat.sub_le _ _).trans_lt (calcSegNum_lt hle)
    have htotal : data.length < 65536 := hle.trans_lt (by decide)
    rw [segPkt, if_pos h0]
    exact ⟨_, parse_transStart hlast htotal, trivial, rfl⟩
  · rw [segPkt, if_neg h0]
    exact ⟨_, parse_transContinue hlt, trivial, rfl⟩

theorem Filled.ackedTransNum (h : Filled s t) : t.ackedTransNum = s.ackedTransNum := by
  cases h <;> rfl

/-- Segments leave the state of the session as it is, and what it has acked. -/
theorem Received.segment_keeps (h : Received cfg w s pkt (some t)) (hseg : pkt.IsSegment) :
    t.dev = s.dev ∧ t.ackedTransNum = s.ackedTransNum := by
  cases h with
  | kept | begun => exact ⟨rfl, rfl⟩
  | started linkId fcs pdu hstarts hlen hin t ht => exact ⟨ht.dev, ht.ackedTransNum⟩
  | continued linkId pdu hcont hlen hin t ht => exact ⟨ht.dev, ht.ackedTransNum⟩
  | restored | unacked | accepted | established | monitored | ended => exact hseg.elim

/-- A transaction of the peer is put together when one is going on at all. -/
def Assembles (s : PbAdvDev) (tr : Transaction) : Prop :=
  s.transDataLen ≠ 0 → ∃ got, 0 ∈ got ∧ Assembling tr.num tr.data got s

/-- A segment of the transaction, whatever has arrived of it. -/
theorem Assembles.recv {tr : Transaction} (h : Assembles s tr) (ho : .linkOpened ≤ s.dev.state)
    (hfresh : s.ackedTransNum ≠ tr.num) (hbuffer : s.provRxPdu.length = provPduMax)
    (hi : i < calcSegNum tr.data.length) {out : Out}
    (hout : recv cfg s w (segPkt linkId tr.num tr.data i) = .ok out) :
    OfSession (Assembles · tr) out.dev := by
  by_cases hidle : s.transDataLen = 0
  · by_cases h0 : i = 0
    · subst h0
      have hbegun := @assembling_begun s tr.num tr.data ho hidle hfresh hbuffer
      obtain ⟨t, acts, hstore, ht, -⟩ := hbegun.storeSeg tr.pos tr.le hi
      have hrecv := recv_start cfg linkId w ho hidle hfresh tr.pos tr.le
      rw [hrecv] at hout
      have heq := Except.ok.inj (hstore.symm.trans hout)
      rw [← heq]
      exact fun _ => ⟨_, List.mem_cons_self, ht⟩
    · obtain ⟨ret, he⟩ := recv_before_start cfg linkId w hidle hfresh tr.le hi h0
      cases Except.ok.inj (he.symm.trans hout)
      exact h
  · obtain ⟨got, hstarted, hgot⟩ := h hidle
    obtain ⟨ret, t, acts, he, ht, -⟩ :=
      @Assembling.step cfg w s linkId _ _ _ _ hgot hstarted tr.pos tr.le hi
    cases Except.ok.inj (he.symm.trans hout)
    exact fun _ => ⟨_, List.mem_cons_of_mem _ hstarted, ht⟩

end Segments

section Steps

variable {cfg : Config} {w : World} {s t : PbAdvDev} {p : Sender} {e : SessionEvent}
  {acts : List Act} {pkt : Pkt} {pdata : List Byte}

/-- What the session knows of its peer: before the link is opened nothing has been acked, and
later the last ack was that of the current transaction or of the one before. -/
structure Tracks (s : PbAdvDev) (p : Sender) : Prop where
  early : s.dev.state ≤ .linkOpening → p.finished = [] ∧
    (s.ackedTransNum = 0 ∨ s.ackedTransNum = 0xff ∧ peerTransNum .device p.cur.num = true)
  fresh : .linkOpened ≤ s.dev.state → p.acked = false → s.ackedTransNum ≠ p.cur.num ∧
    ∀ tr ∈ p.finished.getLast?, tr.num = s.ackedTransNum
  assembles : Assembles s p.cur

theorem Assembling.of_same {num : Byte} {data : List Byte} {got : List ℕ}
    (h : Assembling num data got s) (ho : .linkOpened ≤ t.dev.state)
    (hacked : t.ackedTransNum = s.ackedTransNum) (hre : t.reassembly = s.reassembly) :
    Assembling num data got t where
  opened := ho
  fresh := hacked ▸ h.fresh
  current := (congrArg Reassembly.rxTransNum hre).trans h.current
  total := (congrArg Reassembly.transDataLen hre).trans h.total
  last := (congrArg Reassembly.lastSegNum hre).trans h.last
  fcs := (congrArg Reassembly.fcs hre).trans h.fcs
  buffer := (congrArg (·.provRxPdu.length) hre).trans h.buffer
  missing j hj := (congrArg (·.recvSeg.getLsbD j) hre).trans (h.missing j hj)
  holds j hj := by
    have hbuf : t.provRxPdu = s.provRxPdu := congrArg Reassembly.provRxPdu hre
    rw [hbuf]
    exact h.holds j hj

theorem Assembles.of_same {tr : Transaction} (h : Assembles s tr)
    (ho : .linkOpened ≤ s.dev.state → .linkOpened ≤ t.dev.state)
    (hacked : t.ackedTransNum = s.ackedTransNum) (hre : t.reassembly = s.reassembly) :
    Assembles t tr := by
  intro hne
  have hlen : t.transDataLen = s.transDataLen := congrArg Reassembly.transDataLen hre
  obtain ⟨got, hstarted, hgot⟩ := h (hlen ▸ hne)
  exact ⟨got, hstarted, hgot.of_same (ho hgot.opened) hacked hre⟩

theorem peerTransNum_device {num : Byte} (h : peerTransNum .device num = true) :
    ¬ peerTransNum .provisioner num = true ∧ num ≠ 0xff := by
  simp only [peerTransNum, decide_eq_true_eq] at h ⊢
  constructor <;> bv_omega

theorem peerTransNum_provisioner {num : Byte} (h : peerTransNum .provisioner num = true) :
    num ≠ 0 := by
  simp only [peerTransNum, decide_eq_true_eq] at h
  bv_omega

theorem opened_or (state : ProvState) : state ≤ .linkOpening ∨ .linkOpened ≤ state := by
  cases state <;> decide

theorem not_opened_of_early {state : ProvState} (h : state ≤ .linkOpening) :
    ¬ .linkOpened ≤ state := fun ho => absurd (ho.trans h) (by decide)

theorem Tracks.of_same (h : Tracks s p)
    (hstate : .linkOpened ≤ s.dev.state ↔ .linkOpened ≤ t.dev.state)
    (hacked : t.ackedTransNum = s.ackedTransNum) (hre : t.reassembly = s.reassembly) :
    Tracks t p where
  early hle := by
    rw [hacked]
    refine h.early ((opened_or _).resolve_right fun ho => ?_)
    exact not_opened_of_early hle (hstate.mp ho)
  fresh ho := by
    rw [hacked]
    exact h.fresh (hstate.mpr ho)
  assembles := h.assembles.of_same hstate.mp hacked hre

theorem clearedSession_tracks (devUuid : List Byte) (role : Role) (tr : Transaction) :
    Tracks (clearedSession devUuid role) ⟨tr, false, [], []⟩ where
  early _ := ⟨rfl, .inl rfl⟩
  fresh ho := absurd ho (not_opened_of_early (by decide : ProvState.idle ≤ .linkOpening))
  assembles h := absurd rfl h

theorem Called.tracks {c : Call} (h : Called s c t) (hs : Tracks s p)
    (hlen : s.dev.state ≤ .linkOpening → s.transDataLen = 0) : Tracks t p := by
  cases h with
  | kept hc d hd =>
    have hstate : .linkOpened ≤ s.dev.state ↔ .linkOpened ≤ d.state := by rw [hd]
    exact hs.of_same hstate rfl rfl
  | opened hc hidle linkId =>
    have hle : s.dev.state ≤ .linkOpening := hidle ▸ by decide
    exact {
      early := fun _ => ⟨(hs.early hle).1, .inl rfl⟩
      fresh := fun ho => absurd ho (by decide : ¬ ProvState.linkOpened ≤ .linkOpening)
      assembles := fun hne => absurd (hlen hle) hne }
  | closed hc ho reason =>
    exact hs.of_same (iff_of_true ho (by decide : ProvState.linkOpened ≤ .linkClosing)) rfl rfl
  | sent hc d n h₁ h₂ hlast hle =>
    have hlater : .linkOpened ≤ d.state := (by decide : ProvState.linkOpened ≤ .invite).trans h₁
    exact hs.of_same (iff_of_true (sends_opened hc) hlater) rfl rfl

theorem TimedOut.tracks (h : TimedOut w s (some t)) (hs : Tracks s p) (hno : ¬ AckDue s) :
    Tracks t p := by
  have hclosing : ProvState.linkOpened ≤ .linkClosing := by decide
  cases h with
  | processed hon ht hd => exact absurd ⟨hon, ht, hd⟩ hno
  | badNum hon ht hd => exact absurd ⟨hon, ht, hd⟩ hno
  | off | sent | lost | retried => exact hs.of_same Iff.rfl rfl rfl
  | lossClosed hon ht ho => exact hs.of_same (iff_of_true ho hclosing) rfl rfl
  | expired hon ht ho =>
    have hlater : ProvState.linkOpened ≤ .invite := by decide
    exact hs.of_same (iff_of_true (hlater.trans ho) hclosing) rfl rfl

/-- The packets that open the link reset what has been acked, to no number of the peer. -/
theorem Received.tracks (h : Received cfg w s pkt (some t)) (hseg : ¬ pkt.IsSegment)
    (hs : Tracks s p) (hfrom : pkt.FromSender p pdata)
    (hlen : s.dev.state ≤ .linkOpening → s.transDataLen = 0) : Tracks t p := by
  have hclosing : ProvState.linkOpened ≤ .linkClosing := by decide
  cases h with
  | kept => exact hs
  | restored linkId devUuid ho d hd =>
    have hstate : .linkOpened ≤ s.dev.state ↔ .linkOpened ≤ d.state := by rw [hd]
    exact hs.of_same hstate rfl rfl
  | unacked linkId devUuid hle d hd =>
    exact {
      early := fun _ => ⟨(hs.early hle).1, .inr ⟨rfl, hfrom⟩⟩
      fresh := fun ho => absurd ho (not_opened_of_early hd.le)
      assembles := fun hne => absurd rfl hne }
  | accepted linkId devUuid hle d hd =>
    have hnum : 0xff ≠ p.cur.num := fun he => (peerTransNum_device hfrom).2 he.symm
    have hstart : Tracks (accepting s d linkId) p := {
      early := fun hle' => absurd hd.ge (not_opened_of_early hle')
      fresh := fun _ _ => ⟨hnum, by simp [(hs.early hle).1]⟩
      assembles := fun hne => absurd rfl hne }
    have hcalls : Tracks (calls cfg w.accepts (accepting s d linkId) w.onOpened).1 p ∧
        .linkOpened ≤ (calls cfg w.accepts (accepting s d linkId) w.onOpened).1.dev.state :=
      calls_invariant (P := fun u => Tracks u p ∧ .linkOpened ≤ u.dev.state)
        (fun u c v hu hc => ⟨hc.tracks hu.1 fun hle' => absurd hu.2 (not_opened_of_early hle'),
          hc.linkOpened_le hu.2⟩) w.accepts w.onOpened ⟨hstart, hd.ge⟩
    exact hcalls.1.of_same Iff.rfl rfl rfl
  | established linkId hle =>
    rcases opened_or s.dev.state with hearly | ho
    · obtain ⟨hnone, hacked⟩ := hs.early hearly
      have hzero : s.ackedTransNum = 0 := hacked.resolve_right fun hff =>
        (peerTransNum_device hff.2).1 hfrom
      exact {
        early := fun hle' => absurd hle' (by decide : ¬ ProvState.linkOpened ≤ .linkOpening)
        fresh := fun _ _ =>
          ⟨fun he => peerTransNum_provisioner hfrom (he.symm.trans hzero), by simp [hnone]⟩
        assembles := fun hne => absurd (hlen hearly) hne }
    · exact hs.of_same (iff_of_true ho le_rfl) rfl rfl
  | monitored => exact hs.of_same Iff.rfl rfl rfl
  | ended linkId transNum htx hend reason =>
    have ho : .linkOpened ≤ s.dev.state := by
      rcases hend with hend | hend <;> rw [hend] <;> decide
    exact hs.of_same (iff_of_true ho hclosing) rfl rfl
  | begun | started | continued => exact absurd trivial hseg

/-- A segment that the peer may send, whatever has arrived before. -/
theorem recv_tracks (hp : parse pdata = .ok pkt) (hseg : pkt.IsSegment) (hs : Tracks s p)
    (hbuffer : s.provRxPdu.length = provPduMax) (hsends : p.Sends pdata) {out : Out}
    (hout : recv cfg s w pdata = .ok out)
    (hreceived : Received cfg w s pkt out.dev) : OfSession (Tracks · p) out.dev := by
  by_cases ho : .linkOpened ≤ s.dev.state
  swap
  · rw [recv_unopened hp hseg (not_le.mp ho)] at hout
    cases hout
    exact hs
  by_cases hlast : Carries s.ackedTransNum pdata
  · rw [recv_again hp hseg hlast ho] at hout
    cases hout
    exact hs
  rcases hsends with ⟨i, hi, hpkt⟩ | ⟨hno, tr, htr, hcarries⟩
  swap
  · rw [(hs.fresh ho hno).2 tr htr] at hcarries
    exact absurd hcarries hlast
  have hfresh : s.ackedTransNum ≠ p.cur.num := by
    intro he
    obtain ⟨pkt', hp', -, hcarries⟩ := @parse_segPkt (readBe32 pdata) p.cur.num _ _ p.cur.le hi
    rw [he, hpkt, Carries, hp'] at hlast
    exact hlast hcarries
  rw [hpkt] at hout
  have hassembles := hs.assembles.recv ho hfresh hbuffer hi hout
  cases hdev : out.dev with
  | none => trivial
  | some t =>
    rw [hdev] at hassembles hreceived
    obtain ⟨hstate, hnum⟩ := hreceived.segment_keeps hseg
    exact {
      early := fun hle => absurd ho (not_opened_of_early (hstate ▸ hle))
      fresh := fun _ => hnum ▸ hs.fresh ho
      assembles := hassembles }

end Steps

section Log

variable {cfg : Config} {w : World} {s t : PbAdvDev} {p : Sender} {e : SessionEvent}
  {acts : List Act} {o : Option PbAdvDev}

/-- The log holds what the peer knows to be delivered. -/
def Sender.Logged (p : Sender) : Prop := p.log = p.delivered

theorem Sender.Logged.length (h : p.Logged) :
    p.log.length = p.finished.length + if p.acked then 1 else 0 := by
  rw [h, Sender.delivered]
  cases p.acked <;> simp

/-- What the session keeps with its peer. -/
structure InStep (s : PbAdvDev) (p : Sender) : Prop where
  once : Once s p.peer
  bounded : s.reassembly.Bounded
  tracks : Tracks s p

theorem processedPdus_quiet (h : Quiet acts) : processedPdus acts = [] := by
  refine List.filterMap_eq_nil_iff.mpr fun act hact => ?_
  have hprocesses := (h act hact).2
  cases act with
  | send | recvProvPdu => rfl
  | pduProcess => cases hprocesses

theorem Quiet.sender_sees (h : Quiet acts) : p.sees acts = p := by
  have hany : acts.any (·.acks p.cur.num) = false :=
    List.any_eq_false.mpr fun act hact => Bool.not_eq_true _ ▸ (h act hact).1 p.cur.num
  rw [Sender.sees, hany, processedPdus_quiet h, Bool.or_false, List.append_nil]

theorem processedPdus_send (accepts : List Byte → Bool) (pkt : List Byte) :
    processedPdus (send accepts pkt) = [] := by
  unfold send
  split_ifs <;> rfl

theorem countP_processes (acts : List Act) :
    acts.countP (·.processes) = (processedPdus acts).length := by
  induction acts with
  | nil => rfl
  | cons act acts ih =>
    cases act with
    | send | recvProvPdu => simpa [processedPdus, Act.processes] using ih
    | pduProcess => simpa [processedPdus, Act.processes] using ih

theorem Sender.peer_sees (h : p.Logged) (acts : List Act) :
    (p.sees acts).peer = p.peer.sees acts := by
  have hlen := h.length
  have hcount := countP_processes acts
  unfold Sender.peer Peer.sees Sender.sees
  simp only [List.length_append, hcount, Peer.mk.injEq, true_and]
  omega

theorem Tracks.sees_again (hs : Tracks s p) (ho : .linkOpened ≤ s.dev.state) :
    p.sees (send w.accepts (transAckPkt s.linkId s.ackedTransNum)) = p := by
  have hlog := processedPdus_send w.accepts (transAckPkt s.linkId s.ackedTransNum)
  have hack : (send w.accepts (transAckPkt s.linkId s.ackedTransNum)).any (·.acks p.cur.num) =
      (w.accepts (transAckPkt s.linkId s.ackedTransNum) &&
        decide (s.ackedTransNum = p.cur.num)) := by
    unfold send
    split_ifs with hout <;> simp [hout, acks_transAck]
  have hsame : (p.acked || (w.accepts (transAckPkt s.linkId s.ackedTransNum) &&
      decide (s.ackedTransNum = p.cur.num))) = p.acked := by
    cases hacked : p.acked with
    | true => rfl
    | false => simp [(hs.fresh ho hacked).1]
  rw [Sender.sees, hlog, hack, hsame, List.append_nil]

/-- The session and the log when the ack of the transaction is out and it is processed. -/
theorem InStep.handleTransAck (hs : InStep s p) (hlog : p.Logged) (hdue : AckDue s)
    (hout : w.accepts (transAckPkt s.linkId s.rxTransNum) = true)
    (hnum : peerTransNum s.dev.role s.rxTransNum = true) :
    Tracks (handleTransAck cfg w s).1 (p.sees (handleTransAck cfg w s).2) ∧
    (p.sees (handleTransAck cfg w s).2).Logged := by
  obtain ⟨ho, hlen, hseg⟩ := hs.once.due hdue
  obtain ⟨got, -, hgot⟩ := hs.tracks.assembles hlen
  have hall := (hgot.recvSeg_eq_zero p.cur.le).mp hseg
  have htake := hgot.take_eq p.cur.pos hall
  have hunacked : p.acked = false := by
    by_contra hne
    exact hgot.fresh (hs.once.done (.inl (Bool.eq_true_of_not_eq_false hne)))
  have hacts : (PbAdv.handleTransAck cfg w s).2 =
      [.send (transAckPkt s.linkId s.rxTransNum),
        .pduProcess s.rxTransNum s.provRxPdu s.transDataLen] := by
    simp [PbAdv.handleTransAck, hnum, send, hout]
  have hsees : p.sees (PbAdv.handleTransAck cfg w s).2 =
      { p with acked := true, log := p.log ++ [p.cur.data] } := by
    have hpdus : processedPdus [.send (transAckPkt s.linkId s.rxTransNum),
        .pduProcess s.rxTransNum s.provRxPdu s.transDataLen] = [p.cur.data] := by
      change [s.provRxPdu.take s.transDataLen] = [p.cur.data]
      rw [hgot.total, htake]
    rw [hacts, Sender.sees, hpdus]
    simp [acks_transAck, hgot.current]
  rw [hsees]
  constructor
  · have hnext : (PbAdv.handleTransAck cfg w s).1 = process cfg w (acked w s) s.transDataLen := by
      simp [PbAdv.handleTransAck, hnum]
    have hclear : (acked w s).transDataLen = 0 :=
      congrArg Reassembly.transDataLen (acked_reassembly w s)
    have hopen : .linkOpened ≤ (acked w s).dev.state := acked_dev w s ▸ ho
    rw [hnext]
    have hprocess := process_cases cfg w (acked w s) s.transDataLen
    generalize process cfg w (acked w s) s.transDataLen = t at hprocess ⊢
    have hlen : t.transDataLen = 0 :=
      (congrArg Reassembly.transDataLen hprocess.reassembly).trans hclear
    have hlater : .linkOpened ≤ t.dev.state := by
      cases hprocess with
      | quiet d hd => exact processed_linkOpened_le hd hopen
      | answered d n type hd => exact processed_linkOpened_le hd hopen
    exact {
      early := fun hle => absurd hlater (not_opened_of_early hle)
      fresh := fun _ hacked => absurd hacked.symm Bool.false_ne_true
      assembles := fun hne => absurd hlen hne }
  · have hp : p.log = p.delivered := hlog
    unfold Sender.Logged Sender.delivered
    simp [hp, Sender.delivered, hunacked]

/-- A segment either is one of the current transaction or changes nothing. -/
theorem Tracks.carries {pkt : Pkt} {pdata : List Byte} (hs : Tracks s p)
    (hp : parse pdata = .ok pkt) (hfrom : pkt.FromSender p pdata) {out : Out}
    (hout : recv cfg s w pdata = .ok out) : out.dev = some s ∨ pkt.Carries p.cur.num := by
  have hsegment (hseg : pkt.IsSegment) (hsends : p.Sends pdata) :
      out.dev = some s ∨ pkt.Carries p.cur.num := by
    by_cases ho : .linkOpened ≤ s.dev.state
    swap
    · rw [recv_unopened hp hseg (not_le.mp ho)] at hout
      cases hout
      exact .inl rfl
    rcases hsends with ⟨i, hi, hpkt⟩ | ⟨hno, tr, htr, hcarries⟩
    · obtain ⟨pkt', hp', -, hcarries⟩ := @parse_segPkt (readBe32 pdata) p.cur.num _ _ p.cur.le hi
      obtain rfl : pkt' = pkt := Except.ok.inj (hp'.symm.trans (hpkt ▸ hp))
      exact .inr hcarries
    · rw [(hs.fresh ho hno).2 tr htr] at hcarries
      rw [recv_again hp hseg hcarries ho] at hout
      cases hout
      exact .inl rfl
  cases pkt with
  | transStart | transContinue => exact hsegment trivial hfrom
  | transAck | linkOpen | linkAck | linkClose => exact .inr trivial

theorem InStep.tracks_received {pkt : Pkt} {pdata : List Byte} (hs : InStep s p)
    (hp : parse pdata = .ok pkt) (hfrom : pkt.FromSender p pdata) {out : Out}
    (hout : recv cfg s w pdata = .ok out) (hreceived : Received cfg w s pkt out.dev) :
    OfSession (Tracks · p) out.dev := by
  cases pkt with
  | transStart | transContinue =>
    exact recv_tracks hp trivial hs.tracks hs.bounded.buffer hfrom hout hreceived
  | transAck | linkOpen | linkAck | linkClose =>
    cases hdev : out.dev with
    | none => trivial
    | some t =>
      rw [hdev] at hreceived
      exact hreceived.tracks id hs.tracks hfrom fun hle => (hs.once.early hle).1

theorem InStep.recv {pdata : List Byte} (hs : InStep s p) (hfrom : FromSender p pdata) {out : Out}
    (hout : PbAdv.recv cfg s w pdata = .ok out) : OfSession (InStep · p) out.dev := by
  have hnext := sessionNext_recv hout
  have hstep := stepped_of_ok hnext
  cases hdev : out.dev with
  | none => trivial
  | some t =>
    rw [hdev] at hstep
    have hbounded := hstep.bounded hs.bounded
    cases hstep with
    | discarded => exact hs
    | received hp hreceived =>
      rw [FromSender, hp] at hfrom
      have htracks := InStep.tracks_received hs hp hfrom hout (hdev ▸ hreceived)
      rw [hdev] at htracks
      rcases hs.tracks.carries hp hfrom hout with hkept | hcarries
      · obtain rfl : s = t := Option.some.inj (hkept.symm.trans hdev)
        exact hs
      · exact ⟨hreceived.once hs.once hcarries, hbounded, htracks⟩

theorem InStep.step (hs : InStep s p) (hlog : p.Logged)
    (hord : Orderly (some s, p) (.session e, w)) (hack : AckGoesOut (some s, p) (.session e, w))
    (h : sessionStep cfg s w e = .ok (o, acts)) :
    (p.sees acts).Logged ∧ OfSession (InStep · (p.sees acts)) o := by
  have hnext : sessionNext cfg (some s) (e, w) = .ok o := by
    have hmap : sessionNext cfg (some s) (e, w) = (sessionStep cfg s w e).map (·.1) := rfl
    rw [hmap, h]
    rfl
  have hstep := stepped_of_ok hnext
  cases sessionStep_emits h with
  | again ho =>
    rw [hs.tracks.sees_again ho]
    exact ⟨hlog, hs⟩
  | quiet _ hquiet hno =>
    rw [hquiet.sender_sees]
    refine ⟨hlog, ?_⟩
    cases e with
    | recv pdata =>
      obtain ⟨out, hout, heq⟩ := map_ok h
      cases heq
      exact hs.recv hord hout
    | call c =>
      cases hstep with
      | called hcalled =>
        exact {
          once := hcalled.once hs.once
          bounded := hcalled.reassembly ▸ hs.bounded
          tracks := hcalled.tracks hs.tracks fun hle => (hs.once.early hle).1 }
    | timeout =>
      cases hstep with
      | timedOut hfree htimed =>
        cases o with
        | none => trivial
        | some t =>
          have hnone : ¬ AckDue s := fun hdue => hno ⟨rfl, hdue⟩
          exact {
            once := htimed.once hs.once hnone
            bounded := htimed.bounded hs.bounded
            tracks := htimed.tracks hs.tracks hnone }
  | acked he hdue =>
    subst he
    obtain ⟨hout, hnum⟩ := hack hdue
    obtain ⟨htracks, hlogged⟩ := @InStep.handleTransAck cfg w s p hs hlog hdue hout hnum
    have honce := @handleTransAck_once cfg w s p.peer hs.once hdue fun _ => hout
    rw [← Sender.peer_sees hlog] at honce
    exact ⟨hlogged, honce, hstep.bounded hs.bounded, htracks⟩

/-- What the pair of session and peer keeps, also after the session has been deleted. -/
def PairInStep : Option PbAdvDev × Sender → Prop
  | (o, p) => p.Logged ∧ OfSession (InStep · p) o

theorem Sender.Logged.advance (h : p.Logged) (hacked : p.acked = true) (tr : Transaction) :
    (p.advance tr).Logged := by
  have hp : p.log = p.delivered := h
  simp [Sender.Logged, Sender.advance, Sender.delivered, hp, hacked]

theorem InStep.advance (hs : InStep s p) (hlog : p.Logged) (hacked : p.acked = true)
    {tr : Transaction} (hnum : tr.num ≠ p.cur.num) : InStep s (p.advance tr) := by
  have hlast : s.ackedTransNum = p.cur.num := hs.once.done (.inl hacked)
  have hlen : s.transDataLen = 0 := by
    by_contra hne
    exact (hs.once.going hne).2 hlast
  have hopened : ¬ s.dev.state ≤ .linkOpening := fun hle =>
    Bool.false_ne_true ((hs.once.early hle).2.1.symm.trans hacked)
  have hcount : (p.advance tr).peer = ⟨tr.num, false, 0⟩ := by
    have hsize := hlog.length
    rw [if_pos hacked] at hsize
    simp [Sender.peer, Sender.advance, hsize]
  refine ⟨?_, hs.bounded, ?_⟩
  · rw [hcount]
    exact @peerNext_once plainConfig (some s, p.peer) (.advance tr.num, plainWorld) _ hs.once
      ⟨hacked, trivial⟩ rfl
  · exact {
      early := fun hle => absurd hle hopened
      fresh := fun _ _ => ⟨fun he => hnum (he.symm.trans hlast), fun t ht => by
        obtain rfl : p.cur = t := by simpa [Sender.advance] using ht
        exact hlast.symm⟩
      assembles := fun hne => absurd hlen hne }

theorem senderNext_inStep (σ : Option PbAdvDev × Sender) (e : SenderEvent × World)
    (σ' : Option PbAdvDev × Sender) (h : PairInStep σ) (hcond : Orderly σ e ∧ AckGoesOut σ e)
    (hnext : senderNext cfg σ e = .ok σ') : PairInStep σ' := by
  obtain ⟨o, p⟩ := σ
  obtain ⟨e, w⟩ := e
  obtain ⟨hlog, hs⟩ := h
  cases e with
  | advance tr =>
    cases hnext
    obtain ⟨hacked, hnum⟩ := hcond.1
    refine ⟨hlog.advance hacked tr, ?_⟩
    cases o with
    | none => trivial
    | some s => exact InStep.advance hs hlog hacked hnum
  | session e =>
    cases o with
    | none =>
      cases hnext
      exact ⟨hlog, trivial⟩
    | some s =>
      obtain ⟨⟨o, acts⟩, hstep, heq⟩ := map_ok hnext
      cases heq
      exact InStep.step hs hlog hcond.1 hcond.2 hstep

end Log

section Runs

/-- The PDUs that have been processed are those whose ack the peer has got, in the order in which
the peer sent them and each one once, whatever is lost, repeated or delivered out of order. -/
theorem processed_in_order (cfg : Config) (devUuid : List Byte) (role : Role) (tr : Transaction)
    (es : List (SenderEvent × World)) (o : Option PbAdvDev) (p : Sender)
    (horder : RunAll (senderNext cfg) Orderly
      (some (clearedSession devUuid role), ⟨tr, false, [], []⟩) es)
    (hack : RunAll (senderNext cfg) AckGoesOut
      (some (clearedSession devUuid role), ⟨tr, false, [], []⟩) es)
    (hrun : run (senderNext cfg) (some (clearedSession devUuid role), ⟨tr, false, [], []⟩) es =
      .ok (o, p)) :
    p.log = (p.finished ++ if p.acked then [p.cur] else []).map (·.data) := by
  have hstart : PairInStep (some (clearedSession devUuid role), ⟨tr, false, [], []⟩) :=
    ⟨rfl, clearedSession_once devUuid role tr.num, clearedSession_bounded devUuid role,
      clearedSession_tracks devUuid role tr⟩
  have hkeep : PairInStep (o, p) := (horder.and hack).invariant senderNext_inStep hstart hrun
  exact hkeep.1

def inviteTrans : Transaction := ⟨0, [0, 5], by decide, by decide⟩

def keyTrans : Transaction := ⟨1, 3 :: List.replicate 64 1, by decide, by decide⟩

/-- The device gets the invite twice, and then the three segments of a key out of order, with one
of the invite between them. -/
def inviteAndKey : List (SenderEvent × World) :=
  [.session (.recv (linkOpenPkt 7 (List.replicate 16 1))),
    .session (.recv (segPkt 7 0 inviteTrans.data 0)),
    .session (.recv (segPkt 7 0 inviteTrans.data 0)), .session .timeout, .advance keyTrans,
    .session (.recv (segPkt 7 1 keyTrans.data 2)), .session (.recv (segPkt 7 1 keyTrans.data 0)),
    .session (.recv (segPkt 7 0 inviteTrans.data 0)),
    .session (.recv (segPkt 7 1 keyTrans.data 2)), .session (.recv (segPkt 7 1 keyTrans.data 0)),
    .session (.recv (segPkt 7 1 keyTrans.data 1)), .session .timeout].map (·, plainWorld)

theorem processed_in_order_inviteAndKey : ∃ p : Sender, p.acked = true ∧
    p.finished = [inviteTrans] ∧
    p.log = (p.finished ++ if p.acked then [p.cur] else []).map (·.data) := by
  have hrun : ∃ σ, run (senderNext plainConfig)
      (some (clearedSession (List.replicate 16 1) .device), ⟨inviteTrans, false, [], []⟩)
      inviteAndKey = .ok σ ∧ (σ.2.acked, σ.2.finished) = (true, [inviteTrans]) :=
    observe (by decide +kernel)
  obtain ⟨⟨o, p⟩, hrun, hend⟩ := hrun
  obtain ⟨hacked, hfinished⟩ := Prod.mk.inj hend
  exact ⟨p, hacked, hfinished, processed_in_order plainConfig (List.replicate 16 1) .device
    inviteTrans inviteAndKey o p (by decide +kernel) (by decide +kernel) hrun⟩

end Runs

end Meshx.PbAdv
