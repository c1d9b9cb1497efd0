import Meshx.TransReassembly

/-! Where the segments of a transaction are written. A continuing segment with index zero is the
only packet that is written outside the buffer, and only when its checks let it through. -/
namespace Meshx.PbAdv

open Lib Prov

/-- The buffer has its size, and a transaction that goes on fits into it. -/
structure Reassembly.Bounded (r : Reassembly) : Prop where
  buffer : r.provRxPdu.length = provPduMax
  total : r.transDataLen ≤ provPduMax
  segNum : r.transDataLen ≠ 0 → r.lastSegNum = calcSegNum r.transDataLen - 1

variable {cfg : Config} {w : World} {s t : PbAdvDev} {e : SessionEvent} {transNum : Byte}
  {lastSegNum totalLen segIndex offset : ℕ} {fcs : Byte} {pdu : List Byte}

theorem acked_reassembly (w : World) (s : PbAdvDev) :
    (acked w s).reassembly = { s.reassembly with transDataLen := 0 } := by
  unfold acked
  dsimp only
  split_ifs <;> rfl

theorem Reassembly.Bounded.cleared {r : Reassembly} (h : r.Bounded) :
    { r with transDataLen := 0 }.Bounded :=
  ⟨h.buffer, Nat.zero_le _, fun h0 => absurd rfl h0⟩

theorem Starts.bounded (hstarts : Starts s transNum lastSegNum totalLen)
    (h : s.reassembly.Bounded) : (begun s transNum lastSegNum totalLen fcs).reassembly.Bounded :=
  ⟨h.buffer, hstarts.le, fun _ => hstarts.segNum.symm⟩

theorem copied_bounded (h : s.reassembly.Bounded) (hin : offset + pdu.length ≤ provPduMax) :
    (copied s segIndex offset pdu).reassembly.Bounded :=
  ⟨(splice_length (hin.trans h.buffer.ge)).trans h.buffer, h.total, h.segNum⟩

theorem Filled.bounded (hfilled : Filled s t) (h : s.reassembly.Bounded) :
    t.reassembly.Bounded := by
  cases hfilled with
  | waits => exact h
  | ignored => exact h
  | dropped => exact h.cleared
  | acking => exact ⟨h.buffer, h.total, h.segNum⟩

theorem Received.bounded {pkt : Pkt} (hreceived : Received cfg w s pkt (some t))
    (h : s.reassembly.Bounded) : t.reassembly.Bounded := by
  cases hreceived with
  | kept => exact h
  | restored linkId devUuid ho d hd => exact ⟨h.buffer, h.total, h.segNum⟩
  | unacked linkId devUuid ho d hd => exact h.cleared
  | accepted linkId devUuid ho d hd =>
    have hcalls : (calls cfg w.accepts (accepting s d linkId) w.onOpened).1.reassembly.Bounded :=
      calls_invariant (P := fun s => s.reassembly.Bounded)
        (fun s c t hs hc => hc.reassembly ▸ hs) w.accepts w.onOpened h.cleared
    exact ⟨hcalls.buffer, hcalls.total, hcalls.segNum⟩
  | established => exact ⟨h.buffer, h.total, h.segNum⟩
  | monitored => exact ⟨h.buffer, h.total, h.segNum⟩
  | ended => exact ⟨h.buffer, h.total, h.segNum⟩
  | begun linkId fcs pdu hstarts hlen => exact hstarts.bounded h
  | started linkId fcs pdu hstarts hlen hin t ht =>
    exact ht.bounded (copied_bounded (hstarts.bounded h) hin)
  | continued linkId pdu hcont hlen hin t ht => exact ht.bounded (copied_bounded h hin)

theorem TimedOut.bounded (htimed : TimedOut w s (some t)) (h : s.reassembly.Bounded) :
    t.reassembly.Bounded := by
  have hacked : (acked w s).reassembly.Bounded := acked_reassembly w s ▸ h.cleared
  cases htimed with
  | off => exact h
  | processed hon ht hd hnum s' hs' => exact hs'.reassembly ▸ hacked
  | badNum => exact ⟨hacked.buffer, hacked.total, hacked.segNum⟩
  | _ => exact ⟨h.buffer, h.total, h.segNum⟩

theorem Stepped.bounded (hstep : Stepped cfg w s e (some t)) (h : s.reassembly.Bounded) :
    t.reassembly.Bounded := by
  cases hstep with
  | discarded => exact h
  | received hp hreceived => exact hreceived.bounded h
  | called hcalled => exact hcalled.reassembly ▸ h
  | timedOut hfree htimed => exact htimed.bounded h

/-- A property of the session, which holds of none. -/
def OfSession (P : PbAdvDev → Prop) : Option PbAdvDev → Prop
  | some s => P s
  | none => True

theorem sessionNext_invariant {P : PbAdvDev → Prop}
    (hstep : ∀ s e w t, P s → Stepped cfg w s e (some t) → P t) (o : Option PbAdvDev)
    (e : SessionEvent × World) (o' : Option PbAdvDev) (h : OfSession P o)
    (hnext : sessionNext cfg o e = .ok o') : OfSession P o' := by
  cases o with
  | none =>
    cases hnext
    trivial
  | some s =>
    cases o' with
    | none => trivial
    | some t => exact hstep s e.1 e.2 t h (stepped_of_ok hnext)

theorem clearedSession_bounded (devUuid : List Byte) (role : Role) :
    (clearedSession devUuid role).reassembly.Bounded :=
  ⟨List.length_replicate, Nat.zero_le _, fun h0 => absurd rfl h0⟩

theorem bounded_run {devUuid : List Byte} {role : Role} {es : List (SessionEvent × World)}
    (hrun : run (sessionNext cfg) (some (clearedSession devUuid role)) es = .ok (some s)) :
    s.reassembly.Bounded := by
  have hstart : OfSession (·.reassembly.Bounded) (some (clearedSession devUuid role)) :=
    clearedSession_bounded devUuid role
  have hkeep : OfSession (·.reassembly.Bounded) (some s) :=
    run_invariant (sessionNext_invariant fun _ _ _ _ h hstep => hstep.bounded h) hstart hrun
  exact hkeep

/-- A start is always written to the beginning of the buffer. -/
theorem recvTransStart_inBounds (w : World) (s : PbAdvDev) (transNum : Byte)
    (lastSegNum totalLen : ℕ) (fcs : Byte) (pdu : List Byte) :
    recvTransStart w s transNum lastSegNum totalLen fcs pdu ≠ .error .badWrite := by
  have hcases := recvTransStart_cases w s transNum lastSegNum totalLen fcs pdu
  generalize recvTransStart w s transNum lastSegNum totalLen fcs pdu = r at hcases ⊢
  cases hcases with
  | refused => simp [refused]
  | again => simp [ackAgain]
  | misfit => simp [refused]
  | stored hstarts hlen =>
    have hle : pdu.length ≤ provPduMax := by
      rw [hlen, startLen]
      split_ifs
      · exact hstarts.le
      · decide
    rcases storeSeg_cases (begun s transNum lastSegNum totalLen fcs) 0 0 pdu with
      ⟨hout, -⟩ | ⟨-, t, acts, he, -⟩
    · omega
    · simp [he]

/-- A continuing segment that is not the first one ends inside the transaction. -/
theorem Continues.inBounds (hcont : Continues s transNum segIndex) (h : s.reassembly.Bounded)
    (h0 : segIndex ≠ 0) : segOffset segIndex + continueLen s segIndex ≤ provPduMax := by
  have hnum : s.lastSegNum = calcSegNum s.transDataLen - 1 := h.segNum hcont.going
  have hpos : 0 < s.transDataLen := Nat.pos_of_ne_zero hcont.going
  have hle : s.transDataLen ≤ provPduMax := h.total
  have hspec := (calcSegNum_spec hpos).1
  have hthree := calcSegNum_le hle
  have hlast : s.lastSegNum ≠ 0 := fun hz => h0 (Nat.le_zero.mp (hz ▸ hcont.le))
  have hindex := hcont.le
  rw [← hnum] at hspec
  rw [segOffset_eq h0 (by omega)]
  unfold continueLen
  split_ifs with hinner
  · have hmono : segStart (segIndex + 1) ≤ segStart s.lastSegNum := segStart_mono hinner
    obtain ⟨k, rfl⟩ := Nat.exists_eq_succ_of_ne_zero h0
    rw [Nat.succ_eq_add_one, segStart_succ] at hmono ⊢
    rw [transContinueMax]
    omega
  · obtain rfl : segIndex = s.lastSegNum := by omega
    rw [lastSegLen_eq hlast hspec hle]
    omega

/-- A continuing segment with index zero is let through by the checks. -/
def ZeroContinues (s : PbAdvDev) : Pkt → Prop
  | .transContinue _ transNum segIndex pdu =>
    segIndex = 0 ∧ Continues s transNum 0 ∧ pdu.length = continueLen s 0
  | _ => False

instance (s : PbAdvDev) (pkt : Pkt) : Decidable (ZeroContinues s pkt) :=
  match pkt with
  | .transContinue .. => inferInstanceAs (Decidable (_ ∧ _))
  | .transStart .. | .transAck .. | .linkOpen .. | .linkAck _ | .linkClose .. => isFalse id

theorem recvTransContinue_badWrite_iff (h : s.reassembly.Bounded) :
    recvTransContinue w s transNum segIndex pdu = .error .badWrite ↔
      segIndex = 0 ∧ Continues s transNum 0 ∧ pdu.length = continueLen s 0 := by
  have hcases := recvTransContinue_cases w s transNum segIndex pdu
  generalize recvTransContinue w s transNum segIndex pdu = r at hcases ⊢
  cases hcases with
  | refused hno ret =>
    simp only [refused, reduceCtorEq, false_iff]
    rintro ⟨rfl, hcont⟩
    exact hno hcont
  | again ho hacked =>
    simp only [ackAgain, reduceCtorEq, false_iff]
    rintro ⟨rfl, hcont, -⟩
    exact hcont.fresh hacked
  | stored hcont hlen =>
    rcases storeSeg_cases s segIndex (segOffset segIndex) pdu with
      ⟨hout, he⟩ | ⟨hin, t, acts, he, -⟩
    · rw [he]
      refine iff_of_true rfl ?_
      by_cases h0 : segIndex = 0
      · subst h0
        exact ⟨rfl, hcont, hlen⟩
      · have hfits := hcont.inBounds h h0
        omega
    · rw [he]
      simp only [reduceCtorEq, false_iff]
      rintro ⟨rfl, -⟩
      -- the offset of index zero wraps around
      have hoffset : segOffset 0 = 65533 := rfl
      rw [hoffset, provPduMax] at hin
      omega

/-- The packet is a continuing segment with index zero that the checks let through. -/
def WritesOutside (s : PbAdvDev) (pdata : List Byte) : Prop :=
  match parse pdata with
  | .error _ => False
  | .ok pkt => ZeroContinues s pkt

instance (s : PbAdvDev) (pdata : List Byte) : Decidable (WritesOutside s pdata) :=
  match hp : parse pdata with
  | .error _ => isFalse (by rw [WritesOutside, hp]; exact id)
  | .ok pkt => decidable_of_iff (ZeroContinues s pkt) (by rw [WritesOutside, hp])

theorem recv_badWrite_iff (h : s.reassembly.Bounded) (pdata : List Byte) :
    recv cfg s w pdata = .error .badWrite ↔ WritesOutside s pdata := by
  unfold recv WritesOutside
  cases parse pdata with
  | error ret => simp [refused]
  | ok pkt =>
    cases pkt with
    | transStart linkId transNum lastSegNum totalLen fcs pdu =>
      exact iff_of_false (recvTransStart_inBounds w s transNum lastSegNum totalLen fcs pdu) id
    | transContinue linkId transNum segIndex pdu => exact recvTransContinue_badWrite_iff h
    | linkOpen linkId devUuid =>
      dsimp only
      split_ifs
      · simp [ZeroContinues]
      · simp [refused, ZeroContinues]
    | _ => simp [recvPkt, ZeroContinues]

/-- The event is not a packet that is written outside the buffer. -/
def StaysInside : Option PbAdvDev → SessionEvent × World → Prop
  | some s, (.recv pdata, _) => ¬ WritesOutside s pdata
  | _, _ => True

instance (o : Option PbAdvDev) (e : SessionEvent × World) : Decidable (StaysInside o e) :=
  match o, e with
  | some _, (.recv _, _) => inferInstanceAs (Decidable (¬ _))
  | some _, (.call _, _) | some _, (.timeout, _) | none, _ => isTrue trivial

/-- In every state that a session reaches, a received packet is written inside the buffer unless
it is such a continuing segment; a run without them writes inside the buffer. -/
theorem recv_inBounds (cfg : Config) (devUuid : List Byte) (role : Role)
    (es : List (SessionEvent × World)) :
    (∀ s w pdata,
      run (sessionNext cfg) (some (clearedSession devUuid role)) es = .ok (some s) →
      (recv cfg s w pdata = .error .badWrite ↔ WritesOutside s pdata)) ∧
    (RunAll (sessionNext cfg) StaysInside (some (clearedSession devUuid role)) es →
      run (sessionNext cfg) (some (clearedSession devUuid role)) es ≠ .error .badWrite) := by
  refine ⟨fun s w pdata hrun => recv_badWrite_iff (bounded_run hrun) pdata, fun hall => ?_⟩
  have hstart : OfSession (·.reassembly.Bounded) (some (clearedSession devUuid role)) :=
    clearedSession_bounded devUuid role
  refine hall.no_fault (fun o e o' h _ hnext => sessionNext_invariant
    (fun _ _ _ _ h hstep => hstep.bounded h) o e o' h hnext) (fun o e h hinside => ?_) hstart
  cases o with
  | none => simp [sessionNext]
  | some s =>
    obtain ⟨e, w⟩ := e
    rcases sessionNext_cases cfg w s e with ⟨-, pdata, rfl, hrecv⟩ | ⟨he, -⟩ | ⟨o', he, -⟩
    · exact absurd ((recv_badWrite_iff h pdata).mp hrecv) hinside
    · simp [he]
    · simp [he]

/-- A device gets a start with too little data and then a continuing segment with index zero. -/
theorem recv_outOfBounds : ∃ s,
    run (sessionNext plainConfig) (some (clearedSession (List.replicate 16 1) .device))
      [(.recv (linkOpenPkt 7 (List.replicate 16 1)), plainWorld),
        (.recv (transStartPkt 7 0 2 65 0 [1]), plainWorld)] = .ok (some s) ∧
    recv plainConfig s plainWorld (transContinuePkt 7 0 0 (List.replicate 23 2)) =
      .error .badWrite :=
  ⟨_, rfl, rfl⟩

/-- The link is opened and the first of two segments arrives. -/
def firstSegment : List (SessionEvent × World) :=
  [(.recv (linkOpenPkt 7 (List.replicate 16 1)), plainWorld),
    (.recv (transStartPkt 7 0 1 30 0 (List.replicate 20 1)), plainWorld)]

theorem recv_inBounds_firstSegment :
    (∃ s, run (sessionNext plainConfig) (some (clearedSession (List.replicate 16 1) .device))
        firstSegment = .ok (some s) ∧
      (recv plainConfig s plainWorld (transContinuePkt 7 0 1 (List.replicate 10 2)) =
        .error .badWrite ↔
        WritesOutside s (transContinuePkt 7 0 1 (List.replicate 10 2)))) ∧
    run (sessionNext plainConfig) (some (clearedSession (List.replicate 16 1) .device))
      firstSegment ≠ .error .badWrite := by
  have h := recv_inBounds plainConfig (List.replicate 16 1) .device firstSegment
  exact ⟨⟨_, rfl, h.1 _ plainWorld _ rfl⟩, h.2 (by decide +kernel)⟩

end Meshx.PbAdv
