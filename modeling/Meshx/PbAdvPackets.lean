import Meshx.PbAdvCases

/-! What a received packet can do to a session, first for the two segment handlers and then for
all packets at once. -/
namespace Meshx.PbAdv

open Lib Prov

/-- The part of the session in which a transaction is put together. -/
structure Reassembly where
  transDataLen : ℕ
  rxTransNum : Byte
  lastSegNum : ℕ
  fcs : Byte
  recvSeg : BitVec 64
  provRxPdu : List Byte
  deriving DecidableEq

def PbAdvDev.reassembly (s : PbAdvDev) : Reassembly where
  transDataLen := s.transDataLen
  rxTransNum := s.rxTransNum
  lastSegNum := s.lastSegNum
  fcs := s.fcs
  recvSeg := s.recvSeg
  provRxPdu := s.provRxPdu

section Segments

variable {w : World} {s t : PbAdvDev} {transNum fcs : Byte} {lastSegNum totalLen segIndex : ℕ}
  {pdu : List Byte} {offset : ℕ}

theorem Called.reassembly {c : Call} (h : Called s c t) : t.reassembly = s.reassembly := by
  cases h <;> rfl

theorem Processes.reassembly (h : Processes s t) : t.reassembly = s.reassembly := by
  cases h <;> rfl

/-- A start passes the checks that come before the session is written. -/
structure Starts (s : PbAdvDev) (transNum : Byte) (lastSegNum totalLen : ℕ) : Prop where
  opened : .linkOpened ≤ s.dev.state
  fresh : s.ackedTransNum ≠ transNum
  pos : 0 < totalLen
  le : totalLen ≤ provPduMax
  segNum : calcSegNum totalLen - 1 = lastSegNum
  missing : (startSegs s lastSegNum).getLsbD 0 = true

instance : Decidable (Starts s transNum lastSegNum totalLen) :=
  decidable_of_iff (.linkOpened ≤ s.dev.state ∧ s.ackedTransNum ≠ transNum ∧ 0 < totalLen ∧
      totalLen ≤ provPduMax ∧ calcSegNum totalLen - 1 = lastSegNum ∧
      (startSegs s lastSegNum).getLsbD 0 = true)
    ⟨fun ⟨h₁, h₂, h₃, h₄, h₅, h₆⟩ => ⟨h₁, h₂, h₃, h₄, h₅, h₆⟩,
      fun h => ⟨h.1, h.2, h.3, h.4, h.5, h.6⟩⟩

/-- The session after a start has passed them. -/
def begun (s : PbAdvDev) (transNum : Byte) (lastSegNum totalLen : ℕ) (fcs : Byte) : PbAdvDev :=
  { s with
    recvSeg := startSegs s lastSegNum
    transDataLen := totalLen
    rxTransNum := transNum
    lastSegNum := lastSegNum
    fcs := fcs }

/-- The payload that a start has to have. -/
def startLen (lastSegNum totalLen : ℕ) : ℕ := if lastSegNum = 0 then totalLen else transStartMax

/-- A continuing segment passes the checks that come before the one on its length. -/
structure Continues (s : PbAdvDev) (transNum : Byte) (segIndex : ℕ) : Prop where
  opened : .linkOpened ≤ s.dev.state
  fresh : s.ackedTransNum ≠ transNum
  current : s.rxTransNum = transNum
  going : s.transDataLen ≠ 0
  le : segIndex ≤ s.lastSegNum
  missing : s.recvSeg.getLsbD segIndex = true

instance : Decidable (Continues s transNum segIndex) :=
  decidable_of_iff (.linkOpened ≤ s.dev.state ∧ s.ackedTransNum ≠ transNum ∧
      s.rxTransNum = transNum ∧ s.transDataLen ≠ 0 ∧ segIndex ≤ s.lastSegNum ∧
      s.recvSeg.getLsbD segIndex = true)
    ⟨fun ⟨h₁, h₂, h₃, h₄, h₅, h₆⟩ => ⟨h₁, h₂, h₃, h₄, h₅, h₆⟩,
      fun h => ⟨h.1, h.2, h.3, h.4, h.5, h.6⟩⟩

/-- The payload that a continuing segment has to have. -/
def continueLen (s : PbAdvDev) (segIndex : ℕ) : ℕ :=
  if segIndex < s.lastSegNum then transContinueMax else lastSegLen s.transDataLen s.lastSegNum

/-- What the handler of a start does. -/
inductive Started (w : World) (s : PbAdvDev) (transNum : Byte) (lastSegNum totalLen : ℕ)
    (fcs : Byte) (pdu : List Byte) : Except Fault Out → Prop
  | refused (h : ¬ Starts s transNum lastSegNum totalLen) (ret : Errno) (hret : ret ≠ .success) :
      Started w s transNum lastSegNum totalLen fcs pdu (refused s ret)
  | again (ho : .linkOpened ≤ s.dev.state) (h : s.ackedTransNum = transNum) :
      Started w s transNum lastSegNum totalLen fcs pdu (ackAgain w s)
  | misfit (h : Starts s transNum lastSegNum totalLen)
      (hlen : pdu.length ≠ startLen lastSegNum totalLen) :
      Started w s transNum lastSegNum totalLen fcs pdu
        (PbAdv.refused (begun s transNum lastSegNum totalLen fcs) .length)
  | stored (h : Starts s transNum lastSegNum totalLen)
      (hlen : pdu.length = startLen lastSegNum totalLen) :
      Started w s transNum lastSegNum totalLen fcs pdu
        (storeSeg (begun s transNum lastSegNum totalLen fcs) 0 0 pdu)

/-- What the handler of a continuing segment does. -/
inductive Continued (w : World) (s : PbAdvDev) (transNum : Byte) (segIndex : ℕ)
    (pdu : List Byte) : Except Fault Out → Prop
  | refused (h : ¬ (Continues s transNum segIndex ∧ pdu.length = continueLen s segIndex))
      (ret : Errno) (hret : ret ≠ .success) :
      Continued w s transNum segIndex pdu (refused s ret)
  | again (ho : .linkOpened ≤ s.dev.state) (h : s.ackedTransNum = transNum) :
      Continued w s transNum segIndex pdu (ackAgain w s)
  | stored (h : Continues s transNum segIndex) (hlen : pdu.length = continueLen s segIndex) :
      Continued w s transNum segIndex pdu (storeSeg s segIndex (segOffset segIndex) pdu)

theorem startSegs_getLsbD_of_zero (h : s.transDataLen = 0) :
    (startSegs s lastSegNum).getLsbD 0 = true := by
  unfold startSegs
  rw [if_pos h, getLsbD_lowBits _ (by decide)]
  simp

/-- A start whose segment is not missing leaves the missing segments as they are. -/
theorem startSegs_of_not_missing (h : (startSegs s lastSegNum).getLsbD 0 = false) :
    { s with recvSeg := startSegs s lastSegNum } = s := by
  have hgoing : s.transDataLen ≠ 0 := fun h0 =>
    Bool.false_ne_true (h.symm.trans (startSegs_getLsbD_of_zero h0))
  unfold startSegs
  rw [if_neg hgoing]

theorem recvTransStart_cases (w : World) (s : PbAdvDev) (transNum : Byte)
    (lastSegNum totalLen : ℕ) (fcs : Byte) (pdu : List Byte) :
    Started w s transNum lastSegNum totalLen fcs pdu
      (recvTransStart w s transNum lastSegNum totalLen fcs pdu) := by
  unfold recvTransStart
  by_cases hlt : s.dev.state < .linkOpened
  · rw [if_pos hlt]
    exact .refused (fun h => absurd h.opened (not_le.mpr hlt)) _ (by decide)
  rw [if_neg hlt]
  by_cases hacked : s.ackedTransNum = transNum
  · rw [if_pos hacked]
    exact .again (not_lt.mp hlt) hacked
  rw [if_neg hacked]
  by_cases hlen : totalLen = 0 ∨ provPduMax < totalLen
  · rw [if_pos hlen]
    refine .refused (fun h => ?_) _ (by decide)
    exact hlen.elim h.pos.ne' (not_lt.mpr h.le)
  rw [if_neg hlen]
  rw [not_or, not_lt] at hlen
  by_cases hseg : calcSegNum totalLen - 1 ≠ lastSegNum
  · rw [if_pos hseg]
    exact .refused (fun h => hseg h.segNum) _ (by decide)
  rw [if_neg hseg]
  dsimp only
  by_cases hbit : (startSegs s lastSegNum).getLsbD 0 = false
  · rw [if_pos hbit, startSegs_of_not_missing hbit]
    exact .refused (fun h => Bool.false_ne_true (hbit.symm.trans h.missing)) _ (by decide)
  rw [if_neg hbit]
  have hstarts : Starts s transNum lastSegNum totalLen :=
    ⟨not_lt.mp hlt, hacked, Nat.pos_of_ne_zero hlen.1, hlen.2, not_not.mp hseg,
      Bool.eq_true_of_not_eq_false hbit⟩
  by_cases hfit : pdu.length ≠ if lastSegNum = 0 then totalLen else transStartMax
  · rw [if_pos hfit]
    exact .misfit hstarts hfit
  · rw [if_neg hfit]
    exact .stored hstarts (not_not.mp hfit)

theorem recvTransContinue_cases (w : World) (s : PbAdvDev) (transNum : Byte) (segIndex : ℕ)
    (pdu : List Byte) :
    Continued w s transNum segIndex pdu (recvTransContinue w s transNum segIndex pdu) := by
  unfold recvTransContinue
  by_cases hlt : s.dev.state < .linkOpened
  · rw [if_pos hlt]
    exact .refused (fun h => absurd h.1.opened (not_le.mpr hlt)) _ (by decide)
  rw [if_neg hlt]
  by_cases hacked : s.ackedTransNum = transNum
  · rw [if_pos hacked]
    exact .again (not_lt.mp hlt) hacked
  rw [if_neg hacked]
  by_cases hnum : s.rxTransNum ≠ transNum
  · rw [if_pos hnum]
    exact .refused (fun h => hnum h.1.current) _ (by decide)
  rw [if_neg hnum]
  by_cases hlen : s.transDataLen = 0
  · rw [if_pos hlen]
    exact .refused (fun h => h.1.going hlen) _ (by decide)
  rw [if_neg hlen]
  by_cases hlast : s.lastSegNum < segIndex
  · rw [if_pos hlast]
    exact .refused (fun h => absurd h.1.le (not_le.mpr hlast)) _ (by decide)
  rw [if_neg hlast]
  by_cases hbit : s.recvSeg.getLsbD segIndex = false
  · rw [if_pos hbit]
    exact .refused (fun h => Bool.false_ne_true (hbit.symm.trans h.1.missing)) _ (by decide)
  rw [if_neg hbit]
  have hcont : Continues s transNum segIndex :=
    ⟨not_lt.mp hlt, hacked, not_not.mp hnum, hlen, not_lt.mp hlast,
      Bool.eq_true_of_not_eq_false hbit⟩
  by_cases hfit : pdu.length ≠ if segIndex < s.lastSegNum then transContinueMax
      else lastSegLen s.transDataLen s.lastSegNum
  · rw [if_pos hfit]
    exact .refused (fun h => hfit h.2) _ (by decide)
  · rw [if_neg hfit]
    exact .stored hcont (not_not.mp hfit)

/-- The session with the data of a segment copied into the buffer. -/
def copied (s : PbAdvDev) (segIndex offset : ℕ) (pdu : List Byte) : PbAdvDev :=
  { s with
    recvSeg := s.recvSeg &&& ~~~bit 64 segIndex
    provRxPdu := splice s.provRxPdu offset pdu }

/-- What happens to the session when a segment has been copied. -/
inductive Filled (s : PbAdvDev) : PbAdvDev → Prop
  | waits (h : s.recvSeg ≠ 0) : Filled s s
  | ignored (h : s.recvSeg = 0) (hs : s.dev.state = .failed) : Filled s s
  | dropped (h : s.recvSeg = 0) (hs : s.dev.state ≠ .failed)
      (hcrc : crc (s.provRxPdu.take s.transDataLen) ≠ s.fcs) : Filled s { s with transDataLen := 0 }
  | acking (h : s.recvSeg = 0) (hs : s.dev.state ≠ .failed)
      (hcrc : crc (s.provRxPdu.take s.transDataLen) = s.fcs) : Filled s (transAck s)

theorem Filled.recvSeg (h : Filled s t) : t.recvSeg = s.recvSeg := by
  cases h <;> rfl

theorem recvProvPdu_cases (h : s.recvSeg = 0) : Filled s (recvProvPdu s).1 := by
  unfold recvProvPdu
  dsimp only
  split_ifs with hfailed hcrc
  · exact .ignored h hfailed
  · exact .dropped h hfailed hcrc
  · exact .acking h hfailed (not_not.mp hcrc)

theorem storeSeg_waits (hin : offset + pdu.length ≤ provPduMax)
    (h : (copied s segIndex offset pdu).recvSeg ≠ 0) :
    storeSeg s segIndex offset pdu =
      .ok ⟨.success, some (copied s segIndex offset pdu), []⟩ := by
  unfold storeSeg
  rw [if_neg (not_lt.mpr hin)]
  exact if_neg h

theorem storeSeg_full (hin : offset + pdu.length ≤ provPduMax)
    (h : (copied s segIndex offset pdu).recvSeg = 0) :
    storeSeg s segIndex offset pdu =
      .ok ⟨.success, some (recvProvPdu (copied s segIndex offset pdu)).1,
        (recvProvPdu (copied s segIndex offset pdu)).2⟩ := by
  unfold storeSeg
  rw [if_neg (not_lt.mpr hin)]
  exact if_pos h

theorem storeSeg_cases (s : PbAdvDev) (segIndex offset : ℕ) (pdu : List Byte) :
    (provPduMax < offset + pdu.length ∧ storeSeg s segIndex offset pdu = .error .badWrite) ∨
    (offset + pdu.length ≤ provPduMax ∧ ∃ t acts,
      storeSeg s segIndex offset pdu = .ok ⟨.success, some t, acts⟩ ∧
      Filled (copied s segIndex offset pdu) t) := by
  by_cases hout : provPduMax < offset + pdu.length
  · exact .inl ⟨hout, if_pos hout⟩
  · have hin := not_lt.mp hout
    refine .inr ⟨hin, ?_⟩
    by_cases hall : (copied s segIndex offset pdu).recvSeg = 0
    · exact ⟨_, _, storeSeg_full hin hall, recvProvPdu_cases hall⟩
    · exact ⟨_, _, storeSeg_waits hin hall, .waits hall⟩

end Segments

section Packets

variable {cfg : Config} {w : World} {s t : PbAdvDev}

/-- A device has taken the link open packet. -/
def accepting (s : PbAdvDev) (d : ProvDev) (linkId : BitVec 32) : PbAdvDev :=
  { s with
    dev := d
    linkId := linkId
    txTransNum := 0x7f
    ackedTransNum := 0xff
    transDataLen := 0 }

/-- A provisioner has got the link ack. -/
def established (s : PbAdvDev) : PbAdvDev :=
  startTimer { s with dev := { s.dev with state := .linkOpened }, retryTime := 0 } .linkMonitor

/-- The PDU of the session has been acked. -/
def monitored (s : PbAdvDev) : PbAdvDev := startTimer { s with retryTime := 0 } .linkMonitor

/-- What a packet can do to the session that it is for. -/
inductive Received (cfg : Config) (w : World) (s : PbAdvDev) : Pkt → Option PbAdvDev → Prop
  | kept (pkt : Pkt) : Received cfg w s pkt (some s)
  | restored (linkId : BitVec 32) (devUuid : List Byte) (h : .linkOpened ≤ s.dev.state)
      (d : ProvDev) (hd : d.state = s.dev.state) :
      Received cfg w s (.linkOpen linkId devUuid) (some { s with dev := d })
  | unacked (linkId : BitVec 32) (devUuid : List Byte) (h : s.dev.state ≤ .linkOpening)
      (d : ProvDev) (hd : d.state = .linkOpening) :
      Received cfg w s (.linkOpen linkId devUuid) (some (accepting s d linkId))
  | accepted (linkId : BitVec 32) (devUuid : List Byte) (h : s.dev.state ≤ .linkOpening)
      (d : ProvDev) (hd : d.state = .linkOpened) :
      Received cfg w s (.linkOpen linkId devUuid)
        (some (startTimer (calls cfg w.accepts (accepting s d linkId) w.onOpened).1 .linkMonitor))
  | established (linkId : BitVec 32) (h : s.dev.state ≤ .linkOpened) :
      Received cfg w s (.linkAck linkId) (some (established s))
  | closed (linkId : BitVec 32) (reason : Byte) : Received cfg w s (.linkClose linkId reason) none
  | monitored (linkId : BitVec 32) (transNum : Byte) (h : s.txTransNum = transNum)
      (hs : s.dev.state ≠ .complete) (hf : s.dev.state ≠ .failed) :
      Received cfg w s (.transAck linkId transNum) (some (monitored s))
  | ended (linkId : BitVec 32) (transNum : Byte) (h : s.txTransNum = transNum)
      (hs : s.dev.state = .complete ∨ s.dev.state = .failed) (reason : Byte) :
      Received cfg w s (.transAck linkId transNum) (some (closing (PbAdv.monitored s) reason))
  | begun (linkId : BitVec 32) {transNum : Byte} {lastSegNum totalLen : ℕ} (fcs : Byte)
      (pdu : List Byte) (h : Starts s transNum lastSegNum totalLen)
      (hlen : pdu.length ≠ startLen lastSegNum totalLen) :
      Received cfg w s (.transStart linkId transNum lastSegNum totalLen fcs pdu)
        (some (begun s transNum lastSegNum totalLen fcs))
  | started (linkId : BitVec 32) {transNum : Byte} {lastSegNum totalLen : ℕ} (fcs : Byte)
      (pdu : List Byte) (h : Starts s transNum lastSegNum totalLen)
      (hlen : pdu.length = startLen lastSegNum totalLen) (hin : 0 + pdu.length ≤ provPduMax)
      (t : PbAdvDev)
      (ht : Filled (copied (PbAdv.begun s transNum lastSegNum totalLen fcs) 0 0 pdu) t) :
      Received cfg w s (.transStart linkId transNum lastSegNum totalLen fcs pdu) (some t)
  | continued (linkId : BitVec 32) {transNum : Byte} {segIndex : ℕ} (pdu : List Byte)
      (h : Continues s transNum segIndex) (hlen : pdu.length = continueLen s segIndex)
      (hin : segOffset segIndex + pdu.length ≤ provPduMax) (t : PbAdvDev)
      (ht : Filled (copied s segIndex (segOffset segIndex) pdu) t) :
      Received cfg w s (.transContinue linkId transNum segIndex pdu) (some t)

theorem recvLinkOpen_cases (cfg : Config) (w : World) (s : PbAdvDev) (linkId : BitVec 32)
    (devUuid : List Byte) :
    Received cfg w s (.linkOpen linkId devUuid) (recvLinkOpen cfg w s linkId).dev := by
  have hstate : (setupDevice cfg.prov s.dev .device w.keyPair w.random).state = s.dev.state := rfl
  unfold recvLinkOpen
  dsimp only
  rw [hstate]
  split_ifs with hother hsame hlater hack
  · exact .restored _ _ hother.1.ge _ hstate
  · exact .restored _ _ hsame.ge _ hstate
  · exact .restored _ _ hlater.le _ hstate
  all_goals
    have hle : s.dev.state ≤ .linkOpening := by
      have hlt := lt_of_le_of_ne (not_lt.mp hlater) hsame
      revert hlt
      cases s.dev.state <;> decide
  · exact .accepted _ _ hle { setupDevice cfg.prov s.dev .device w.keyPair w.random with
      state := .linkOpened } rfl
  · exact .unacked _ _ hle { setupDevice cfg.prov s.dev .device w.keyPair w.random with
      state := .linkOpening } rfl

theorem recvTransAck_cases (cfg : Config) (w : World) (s : PbAdvDev) (linkId : BitVec 32)
    (transNum : Byte) :
    Received cfg w s (.transAck linkId transNum) (recvTransAck w s transNum).dev := by
  unfold recvTransAck
  split_ifs with hnum
  · exact .kept _
  have hclose (reason : Byte) (h : .complete ≤ s.dev.state) :
      (linkClose w.accepts (monitored s) reason).2.1 = closing (monitored s) reason := by
    rcases linkClose_cases w.accepts (monitored s) reason with ⟨hle, -⟩ | ⟨-, hs⟩
    · exact absurd (h.trans hle) (by decide)
    · exact hs
  rw [not_not] at hnum
  have hsame : (monitored s).dev.state = s.dev.state := rfl
  change Received cfg w s _ (some (notifyTransAck w (monitored s)).1)
  unfold notifyTransAck
  rw [hsame]
  split_ifs with hcomplete hfailed
  · rw [hclose 0 hcomplete.ge]
    exact .ended _ _ hnum (.inl hcomplete) 0
  · rw [hclose 2 (hfailed ▸ by decide)]
    exact .ended _ _ hnum (.inr hfailed) 2
  · exact .monitored _ _ hnum hcomplete hfailed

/-- Every packet does one of these, or writes outside the buffer. -/
theorem recvPkt_cases (cfg : Config) (w : World) (s : PbAdvDev) (pkt : Pkt) :
    recvPkt cfg w s pkt = .error .badWrite ∨
    ∃ out, recvPkt cfg w s pkt = .ok out ∧ Received cfg w s pkt out.dev := by
  cases pkt with
  | transStart linkId transNum lastSegNum totalLen fcs pdu =>
    have hcases := recvTransStart_cases w s transNum lastSegNum totalLen fcs pdu
    simp only [recvPkt]
    generalize recvTransStart w s transNum lastSegNum totalLen fcs pdu = r at hcases ⊢
    cases hcases with
    | refused h ret hret => exact .inr ⟨_, rfl, .kept _⟩
    | again ho h => exact .inr ⟨_, rfl, .kept _⟩
    | misfit h hlen => exact .inr ⟨_, rfl, .begun linkId fcs pdu h hlen⟩
    | stored h hlen =>
      rcases storeSeg_cases (begun s transNum lastSegNum totalLen fcs) 0 0 pdu with
        ⟨-, he⟩ | ⟨hin, t, acts, he, ht⟩
      · exact .inl he
      · exact .inr ⟨_, he, .started linkId fcs pdu h hlen hin t ht⟩
  | transAck linkId transNum => exact .inr ⟨_, rfl, recvTransAck_cases cfg w s linkId transNum⟩
  | transContinue linkId transNum segIndex pdu =>
    have hcases := recvTransContinue_cases w s transNum segIndex pdu
    simp only [recvPkt]
    generalize recvTransContinue w s transNum segIndex pdu = r at hcases ⊢
    cases hcases with
    | refused h ret hret => exact .inr ⟨_, rfl, .kept _⟩
    | again ho h => exact .inr ⟨_, rfl, .kept _⟩
    | stored h hlen =>
      rcases storeSeg_cases s segIndex (segOffset segIndex) pdu with
        ⟨-, he⟩ | ⟨hin, t, acts, he, ht⟩
      · exact .inl he
      · exact .inr ⟨_, he, .continued linkId pdu h hlen hin t ht⟩
  | linkOpen linkId devUuid => exact .inr ⟨_, rfl, recvLinkOpen_cases cfg w s linkId devUuid⟩
  | linkAck linkId =>
    simp only [recvPkt, recvLinkAck]
    split_ifs with h
    · exact .inr ⟨_, rfl, .kept _⟩
    · exact .inr ⟨_, rfl, .established linkId (not_lt.mp h)⟩
  | linkClose linkId reason => exact .inr ⟨_, rfl, .closed linkId reason⟩

/-- Every event does one of these to a session. -/
inductive Stepped (cfg : Config) (w : World) (s : PbAdvDev) :
    SessionEvent → Option PbAdvDev → Prop
  | discarded (pdata : List Byte) : Stepped cfg w s (.recv pdata) (some s)
  | received {pdata : List Byte} {pkt : Pkt} (hp : parse pdata = .ok pkt) {o : Option PbAdvDev}
      (h : Received cfg w s pkt o) : Stepped cfg w s (.recv pdata) o
  | called {c : Call} {t : PbAdvDev} (h : Called s c t) : Stepped cfg w s (.call c) (some t)
  | timedOut (hfree : ¬ Stuck s) {o : Option PbAdvDev} (h : TimedOut w s o) :
      Stepped cfg w s .timeout o

theorem recv_cases (cfg : Config) (w : World) (s : PbAdvDev) (pdata : List Byte) :
    recv cfg s w pdata = .error .badWrite ∨
    ∃ out, recv cfg s w pdata = .ok out ∧ Stepped cfg w s (.recv pdata) out.dev := by
  have hother (pkt : Pkt) (hp : parse pdata = .ok pkt) :
      recvPkt cfg w s pkt = .error .badWrite ∨
      ∃ out, recvPkt cfg w s pkt = .ok out ∧ Stepped cfg w s (.recv pdata) out.dev :=
    (recvPkt_cases cfg w s pkt).imp id fun ⟨out, he, h⟩ => ⟨out, he, .received hp h⟩
  unfold recv
  cases hp : parse pdata with
  | error ret => exact .inr ⟨_, rfl, .discarded _⟩
  | ok pkt =>
    cases pkt with
    | linkOpen linkId devUuid =>
      dsimp only
      split_ifs
      · exact .inr ⟨_, rfl, .received hp (recvLinkOpen_cases cfg w s linkId devUuid)⟩
      · exact .inr ⟨_, rfl, .discarded _⟩
    | _ => exact hother _ hp

/-- The step of a session in general: what it can do and how it can fail. -/
theorem sessionStep_cases (cfg : Config) (w : World) (s : PbAdvDev) (e : SessionEvent) :
    (sessionStep cfg s w e = .error .badWrite ∧
      ∃ pdata, e = .recv pdata ∧ recv cfg s w pdata = .error .badWrite) ∨
    (sessionStep cfg s w e = .error .assertFailed ∧ Stuck s ∧ e = .timeout) ∨
    ∃ o acts, sessionStep cfg s w e = .ok (o, acts) ∧ Stepped cfg w s e o := by
  cases e with
  | recv pdata =>
    rcases recv_cases cfg w s pdata with he | ⟨out, he, h⟩
    · exact .inl ⟨by rw [sessionStep, he]; rfl, pdata, rfl, he⟩
    · exact .inr (.inr ⟨_, _, by rw [sessionStep, he]; rfl, h⟩)
  | call c => exact .inr (.inr ⟨_, _, rfl, .called (call_cases cfg w.accepts s c)⟩)
  | timeout =>
    rcases handleTimeout_cases cfg w s with ⟨hstuck, he⟩ | ⟨hfree, o, acts, he, h⟩
    · exact .inr (.inl ⟨he, hstuck, rfl⟩)
    · exact .inr (.inr ⟨o, acts, he, .timedOut hfree h⟩)

theorem sessionNext_cases (cfg : Config) (w : World) (s : PbAdvDev) (e : SessionEvent) :
    (sessionNext cfg (some s) (e, w) = .error .badWrite ∧
      ∃ pdata, e = .recv pdata ∧ recv cfg s w pdata = .error .badWrite) ∨
    (sessionNext cfg (some s) (e, w) = .error .assertFailed ∧ Stuck s ∧ e = .timeout) ∨
    ∃ o, sessionNext cfg (some s) (e, w) = .ok o ∧ Stepped cfg w s e o := by
  have hnext : sessionNext cfg (some s) (e, w) = (sessionStep cfg s w e).map (·.1) := rfl
  rw [hnext]
  rcases sessionStep_cases cfg w s e with ⟨he, hrecv⟩ | ⟨he, hstuck⟩ | ⟨o, acts, he, hstep⟩
  · rw [he]
    exact .inl ⟨rfl, hrecv⟩
  · rw [he]
    exact .inr (.inl ⟨rfl, hstuck⟩)
  · rw [he]
    exact .inr (.inr ⟨o, rfl, hstep⟩)

theorem stepped_of_ok {e : SessionEvent} {o : Option PbAdvDev}
    (h : sessionNext cfg (some s) (e, w) = .ok o) : Stepped cfg w s e o := by
  rcases sessionNext_cases cfg w s e with ⟨he, -⟩ | ⟨he, -⟩ | ⟨o', he, hstep⟩
  · simp [he] at h
  · simp [he] at h
  · obtain rfl : o' = o := Except.ok.inj (he.symm.trans h)
    exact hstep

theorem sessionNext_recv {pdata : List Byte} {out : Out}
    (h : recv cfg s w pdata = .ok out) :
    sessionNext cfg (some s) (.recv pdata, w) = .ok out.dev := by
  have hnext : sessionNext cfg (some s) (.recv pdata, w) =
      ((recv cfg s w pdata).map fun out => (out.dev, out.acts)).map (·.1) := rfl
  rw [hnext, h]
  rfl

theorem stuck_timeout (h : Stuck s) :
    sessionNext cfg (some s) (.timeout, w) = .error .assertFailed := by
  rcases sessionNext_cases cfg w s .timeout with ⟨-, pdata, he, -⟩ | ⟨he, -⟩ | ⟨o, -, hstep⟩
  · cases he
  · exact he
  · cases hstep with
    | timedOut hfree => exact absurd h hfree

theorem calls_invariant {P : PbAdvDev → Prop} (hstep : ∀ s c t, P s → Called s c t → P t)
    (accepts : List Byte → Bool) (cs : List Call) (h : P s) : P (calls cfg accepts s cs).1 := by
  induction cs generalizing s with
  | nil => exact h
  | cons c cs ih => exact ih (hstep s c _ h (call_cases cfg accepts s c))

end Packets

end Meshx.PbAdv
