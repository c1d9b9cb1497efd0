import Meshx.TransBounds

/-! Segments that their handler rejects. All but one kind leave the session as it is: a start
with a payload of the wrong length has its header written before the length is looked at. -/
namespace Meshx.PbAdv

open Lib Prov

variable {cfg : Config} {w : World} {s : PbAdvDev} {transNum fcs : Byte}
  {lastSegNum totalLen segIndex : ℕ} {pdu : List Byte}

/-- The packet is a Trans Start or a Trans Continue. -/
def IsSegment (pdata : List Byte) : Prop :=
  (byteAt pdata 5).extractLsb' 0 2 = 0 ∨ (byteAt pdata 5).extractLsb' 0 2 = 2

instance (pdata : List Byte) : Decidable (IsSegment pdata) := inferInstanceAs (Decidable (_ ∨ _))

/-- The header of the transaction that the session has. -/
def SameHeader (s : PbAdvDev) (transNum : Byte) (lastSegNum totalLen : ℕ) (fcs : Byte) : Prop :=
  s.transDataLen = totalLen ∧ s.rxTransNum = transNum ∧ s.lastSegNum = lastSegNum ∧ s.fcs = fcs

instance : Decidable (SameHeader s transNum lastSegNum totalLen fcs) :=
  inferInstanceAs (Decidable (_ ∧ _))

/-- A start passes all checks but the one on its payload, with another header. -/
def Overwrites (s : PbAdvDev) (pdata : List Byte) : Prop :=
  match parse pdata with
  | .ok (.transStart _ transNum lastSegNum totalLen fcs pdu) =>
    Starts s transNum lastSegNum totalLen ∧ pdu.length ≠ startLen lastSegNum totalLen ∧
      ¬ SameHeader s transNum lastSegNum totalLen fcs
  | _ => False

instance (s : PbAdvDev) (pdata : List Byte) : Decidable (Overwrites s pdata) :=
  match hp : parse pdata with
  | .ok (.transStart _ transNum lastSegNum totalLen fcs pdu) =>
    decidable_of_iff (Starts s transNum lastSegNum totalLen ∧
      pdu.length ≠ startLen lastSegNum totalLen ∧ ¬ SameHeader s transNum lastSegNum totalLen fcs)
      (by rw [Overwrites, hp])
  | .ok (.transAck ..) | .ok (.transContinue ..) | .ok (.linkOpen ..) | .ok (.linkAck _)
  | .ok (.linkClose ..) | .error _ => isFalse (by rw [Overwrites, hp]; exact id)

theorem begun_of_sameHeader (hstarts : Starts s transNum lastSegNum totalLen)
    (h : SameHeader s transNum lastSegNum totalLen fcs) :
    begun s transNum lastSegNum totalLen fcs = s := by
  obtain ⟨rfl, rfl, rfl, rfl⟩ := h
  have hsegs : startSegs s s.lastSegNum = s.recvSeg := by
    rw [startSegs, if_neg hstarts.pos.ne']
  rw [begun, hsegs]

theorem sameHeader_of_reassembly
    (h : (begun s transNum lastSegNum totalLen fcs).reassembly = s.reassembly) :
    SameHeader s transNum lastSegNum totalLen fcs :=
  ⟨(congrArg Reassembly.transDataLen h).symm, (congrArg Reassembly.rxTransNum h).symm,
    (congrArg Reassembly.lastSegNum h).symm, (congrArg Reassembly.fcs h).symm⟩

/-- A rejected segment leaves the session, or is such a start. -/
inductive Rejected (s : PbAdvDev) (pdata : List Byte) (out : Out) : Prop
  | kept (h : ¬ Overwrites s pdata) (hdev : out.dev = some s) (hacts : out.acts = [])
  | begun (h : Overwrites s pdata) (t : PbAdvDev) (hdev : out.dev = some t)
      (ht : t.reassembly ≠ s.reassembly)

theorem rejected_start {linkId : BitVec 32} {pdata : List Byte} {out : Out}
    (hp : parse pdata = .ok (.transStart linkId transNum lastSegNum totalLen fcs pdu))
    (he : recvTransStart w s transNum lastSegNum totalLen fcs pdu = .ok out)
    (hret : out.ret ≠ .success) : Rejected s pdata out := by
  have hover : Overwrites s pdata ↔ Starts s transNum lastSegNum totalLen ∧
      pdu.length ≠ startLen lastSegNum totalLen ∧
      ¬ SameHeader s transNum lastSegNum totalLen fcs := by
    unfold Overwrites
    rw [hp]
  have hcases := recvTransStart_cases w s transNum lastSegNum totalLen fcs pdu
  rw [he] at hcases
  generalize hr : (Except.ok out : Except Fault Out) = r at hcases
  cases hcases with
  | refused hno ret hne =>
    obtain rfl := Except.ok.inj hr
    exact .kept (fun h => hno (hover.mp h).1) rfl rfl
  | again ho hacked =>
    obtain rfl := Except.ok.inj hr
    exact absurd rfl hret
  | misfit hstarts hlen =>
    obtain rfl := Except.ok.inj hr
    by_cases hsame : SameHeader s transNum lastSegNum totalLen fcs
    · have hdev := congrArg some (begun_of_sameHeader hstarts hsame)
      exact .kept (fun h => (hover.mp h).2.2 hsame) hdev rfl
    · exact .begun (hover.mpr ⟨hstarts, hlen, hsame⟩) _ rfl
        fun h => hsame (sameHeader_of_reassembly h)
  | stored hstarts hlen =>
    rcases storeSeg_cases (PbAdv.begun s transNum lastSegNum totalLen fcs) 0 0 pdu with
      ⟨-, he'⟩ | ⟨-, t, acts, he', -⟩
    · simp [he'] at hr
    · rw [he'] at hr
      obtain rfl := Except.ok.inj hr
      exact absurd rfl hret

theorem rejected_continue {linkId : BitVec 32} {pdata : List Byte} {out : Out}
    (hp : parse pdata = .ok (.transContinue linkId transNum segIndex pdu))
    (he : recvTransContinue w s transNum segIndex pdu = .ok out) (hret : out.ret ≠ .success) :
    Rejected s pdata out := by
  have hover : ¬ Overwrites s pdata := by
    unfold Overwrites
    rw [hp]
    exact id
  have hcases := recvTransContinue_cases w s transNum segIndex pdu
  rw [he] at hcases
  generalize hr : (Except.ok out : Except Fault Out) = r at hcases
  cases hcases with
  | refused hno ret hne =>
    obtain rfl := Except.ok.inj hr
    exact .kept hover rfl rfl
  | again ho hacked =>
    obtain rfl := Except.ok.inj hr
    exact absurd rfl hret
  | stored hcont hlen =>
    rcases storeSeg_cases s segIndex (segOffset segIndex) pdu with ⟨-, he'⟩ | ⟨-, t, acts, he', -⟩
    · simp [he'] at hr
    · rw [he'] at hr
      obtain rfl := Except.ok.inj hr
      exact absurd rfl hret

theorem IsSegment.parse {pdata : List Byte} {pkt : Pkt} (h : IsSegment pdata)
    (hp : PbAdv.parse pdata = .ok pkt) :
    (∃ linkId transNum lastSegNum totalLen fcs pdu,
      pkt = .transStart linkId transNum lastSegNum totalLen fcs pdu) ∨
    ∃ linkId transNum segIndex pdu, pkt = .transContinue linkId transNum segIndex pdu := by
  unfold PbAdv.parse at hp
  rcases h with h0 | h2
  · by_cases hlen : pdata.length < 9
    · simp [h0, hlen] at hp
    · simp only [h0, hlen, if_false] at hp
      exact .inl ⟨_, _, _, _, _, _, (Except.ok.inj hp).symm⟩
  · by_cases hlen : pdata.length < 6
    · simp [h2, hlen] at hp
    · simp only [h2, hlen, if_false] at hp
      exact .inr ⟨_, _, _, _, (Except.ok.inj hp).symm⟩

/-- What a rejected segment does to the session that it is for. -/
theorem recv_rejected {pdata : List Byte} {out : Out} (hseg : IsSegment pdata)
    (he : recv cfg s w pdata = .ok out) (hret : out.ret ≠ .success) : Rejected s pdata out := by
  cases hp : parse pdata with
  | error ret =>
    have hover : ¬ Overwrites s pdata := by
      unfold Overwrites
      rw [hp]
      exact id
    rw [recv, hp] at he
    obtain rfl := Except.ok.inj he
    exact .kept hover rfl rfl
  | ok pkt =>
    rw [recv, hp] at he
    rcases hseg.parse hp with ⟨_, _, _, _, _, _, rfl⟩ | ⟨_, _, _, _, rfl⟩
    · exact rejected_start hp he hret
    · exact rejected_continue hp he hret

/-- The event is a segment that is rejected and not such a start. -/
def Harmless (cfg : Config) : Option PbAdvDev × List Act → SessionEvent × World → Prop
  | (some s, _), (.recv pdata, w) =>
    IsSegment pdata ∧ ¬ Overwrites s pdata ∧
      ∃ out, recv cfg s w pdata = .ok out ∧ out.ret ≠ .success
  | _, _ => False

theorem Harmless.next {x : Option PbAdvDev × List Act} {e : SessionEvent × World}
    (h : Harmless cfg x e) : tracedNext cfg x e = .ok x := by
  obtain ⟨o, acts⟩ := x
  obtain ⟨e, w⟩ := e
  cases o with
  | none => exact h.elim
  | some s =>
    cases e with
    | recv pdata =>
      obtain ⟨hseg, hover, out, he, hret⟩ := h
      cases recv_rejected hseg he hret with
      | kept _ hdev hacts =>
        simp only [tracedNext, sessionStep, he]
        change Except.ok (out.dev, acts ++ out.acts) = _
        rw [hdev, hacts, List.append_nil]
      | begun h => exact absurd h hover
    | call c => exact h.elim
    | timeout => exact h.elim

theorem harmless_run {x : Option PbAdvDev × List Act} {es : List (SessionEvent × World)}
    (hall : RunAll (tracedNext cfg) (Harmless cfg) x es) : run (tracedNext cfg) x es = .ok x := by
  induction es with
  | nil => rfl
  | cons e es ih =>
    have hnext := hall.1.next
    rw [run, hnext]
    exact ih (hall.2 x hnext)

/-- A rejected segment leaves the reassembly as it is unless it is a start that overwrites the
header. After any sequence of segments that leave it the session is what it was, and a
transaction that arrives in full is reassembled. -/
theorem rejected_segments (cfg : Config) :
    (∀ s w pdata out, IsSegment pdata → recv cfg s w pdata = .ok out → out.ret ≠ .success →
      (out.dev.map PbAdvDev.reassembly = some s.reassembly ↔ ¬ Overwrites s pdata)) ∧
    (∀ s acts es, RunAll (tracedNext cfg) (Harmless cfg) (some s, acts) es →
      run (tracedNext cfg) (some s, acts) es = .ok (some s, acts)) ∧
    ∀ (s : PbAdvDev) (linkId : BitVec 32) (transNum : Byte) (data : List Byte)
      (es : List (SessionEvent × World))
      (ds : List (Fin (transPkts linkId transNum data).length × World)),
      .linkOpened ≤ s.dev.state → s.transDataLen = 0 → s.ackedTransNum ≠ transNum →
      s.provRxPdu.length = provPduMax → 0 < data.length → data.length ≤ provPduMax →
      RunAll (tracedNext cfg) (Harmless cfg) (some s, []) es →
      (∀ i, i ∈ (ds.map (·.1)).dropWhile (fun i => i.val ≠ 0)) →
      ∃ o acts,
        run (tracedNext cfg) (some s, [])
          (es ++ deliveries (transPkts linkId transNum data) ds) = .ok (o, acts) ∧
        handed acts = [(data, data.length, crc data)] := by
  refine ⟨fun s w pdata out hseg he hret => ?_, fun s acts es hall => harmless_run hall, ?_⟩
  · cases recv_rejected hseg he hret with
    | kept hover hdev =>
      rw [hdev]
      exact iff_of_true rfl hover
    | begun hover t hdev ht =>
      rw [hdev]
      exact iff_of_false (fun h => ht (Option.some.inj h)) (not_not.mpr hover)
  · intro s linkId transNum data es ds hopened hidle hfresh hbuffer hpos hle hall hds
    obtain ⟨o, acts, hrun, hacts⟩ := deliveries_run cfg linkId hopened hidle
      hfresh hbuffer hpos hle ds
    refine ⟨o, acts, ?_, ?_⟩
    · rw [run_append, harmless_run hall]
      exact hrun
    · rw [hacts, handedOnce, if_pos hds]

/-- A start with one byte of sixty-five, on the same number as the transaction after it. -/
def shortStart : List Byte := transStartPkt 7 0 2 65 0 [1]

/-- The header is written, and the single segment that follows does not complete the transaction. -/
theorem shortStart_overwrites : ∃ t acts,
    recv plainConfig openedDevice plainWorld shortStart = .ok ⟨.length, some t, []⟩ ∧
    t.reassembly ≠ openedDevice.reassembly ∧
    run (tracedNext plainConfig) (some openedDevice, [])
      [(.recv shortStart, plainWorld), (.recv (segPkt 7 0 [1, 2, 3] 0), plainWorld)] =
      .ok acts ∧
    transPkts 7 0 [1, 2, 3] = [segPkt 7 0 [1, 2, 3] 0] ∧ handed acts.2 = [] := by
  refine ⟨_, _, rfl, ?_, rfl, by decide, by decide⟩
  exact fun h => absurd (congrArg Reassembly.transDataLen h) (by decide)

theorem rejected_segments_example :
    (∃ s, recv plainConfig openedDevice plainWorld (transContinuePkt 7 0 1 [1]) =
        .ok ⟨.timing, some s, []⟩ ∧
      (s.reassembly = openedDevice.reassembly ↔
        ¬ Overwrites openedDevice (transContinuePkt 7 0 1 [1]))) ∧
    ∃ o acts,
      run (tracedNext plainConfig) (some openedDevice, [])
        ([(.recv (transContinuePkt 7 0 1 [1]), plainWorld)] ++
          deliveries (transPkts 7 0 plainPdu) shuffled) = .ok (o, acts) ∧
      handed acts = [(plainPdu, plainPdu.length, crc plainPdu)] := by
  obtain ⟨hone, -, hall⟩ := rejected_segments plainConfig
  have hover : ¬ Overwrites openedDevice (transContinuePkt 7 0 1 [1]) := by decide +kernel
  refine ⟨⟨_, rfl, ?_⟩, hall openedDevice 7 0 plainPdu _ shuffled (by decide) rfl (by decide) rfl
    (by decide) (by decide) ⟨⟨by decide, hover, _, rfl, by decide⟩, fun _ _ => trivial⟩
    (by decide +kernel)⟩
  rw [← hone openedDevice plainWorld _ _ (by decide) rfl (by decide)]
  exact ⟨fun h => congrArg some h, fun h => Option.some.inj h⟩

end Meshx.PbAdv
