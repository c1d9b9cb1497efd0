import Meshx.PbAdvPackets
import Meshx.TransSegments
import Meshx.Lib.Run

/-! The round trip of a transaction: the segments that `pb_adv_send_trans` emits, delivered in
any order with losses and duplicates. -/
namespace Meshx.PbAdv

open Lib Prov

/-- A session together with what its steps have done so far. -/
def tracedNext (cfg : Config) : Option PbAdvDev × List Act → SessionEvent × World →
    Except Fault (Option PbAdvDev × List Act)
  | (none, acts), _ => .ok (none, acts)
  | (some s, acts), (e, w) => (sessionStep cfg s w e).map fun (o, new) => (o, acts ++ new)

/-- What `meshx_pb_adv_recv_prov_pdu` found each time it was called. -/
def handed (acts : List Act) : List (List Byte × ℕ × Byte) :=
  acts.filterMap fun
    | .recvProvPdu pdu len fcs => some (pdu, len, fcs)
    | _ => none

theorem handed_append (acts acts' : List Act) :
    handed (acts ++ acts') = handed acts ++ handed acts' :=
  List.filterMap_append

section Lengths

variable {data : List Byte} {i : ℕ}

theorem segOffset_eq (hi : i ≠ 0) (hle : i < 3) : segOffset i = segStart i := by
  obtain rfl | rfl : i = 1 ∨ i = 2 := by omega
  · rfl
  · rfl

theorem lastSegLen_eq {total last : ℕ} (hlast : last ≠ 0) (hlt : segStart last < total)
    (hle : total ≤ provPduMax) : lastSegLen total last = total - segStart last := by
  obtain ⟨k, rfl⟩ := Nat.exists_eq_succ_of_ne_zero hlast
  rw [Nat.succ_eq_add_one, segStart_succ] at *
  unfold provPduMax at hle
  unfold lastSegLen transStartMax transContinueMax
  omega

theorem piece_last_length (hpos : 0 < data.length) :
    (piece data segStart (calcSegNum data.length - 1)).length =
      data.length - segStart (calcSegNum data.length - 1) := by
  have hspec := calcSegNum_spec hpos
  rw [piece_length, Nat.sub_add_cancel (calcSegNum_pos _)]
  omega

theorem piece_inner_length (hpos : 0 < data.length) (hi : i < calcSegNum data.length - 1) :
    (piece data segStart i).length = segStart (i + 1) - segStart i := by
  have hspec := calcSegNum_spec hpos
  have hmono : segStart (i + 1) ≤ segStart (calcSegNum data.length - 1) := segStart_mono hi
  rw [piece_length]
  omega

theorem piece_fits (hi : i < calcSegNum data.length) (hpos : 0 < data.length) :
    segStart i + (piece data segStart i).length ≤ data.length := by
  have hspec := calcSegNum_spec hpos
  have hmono : segStart i ≤ segStart (calcSegNum data.length - 1) := segStart_mono (by omega)
  rw [piece_length]
  omega

theorem piece_zero_length (hpos : 0 < data.length) :
    (piece data segStart 0).length = startLen (calcSegNum data.length - 1) data.length := by
  unfold startLen
  split_ifs with hone
  · have hlast := piece_last_length hpos
    rw [hone] at hlast
    exact hlast
  · exact piece_inner_length hpos (Nat.pos_of_ne_zero hone)

end Lengths

/-- The segments of the PDU that have arrived since the start are in the buffer, the others are
missing. -/
structure Assembling (transNum : Byte) (data : List Byte) (got : List ℕ) (s : PbAdvDev) :
    Prop where
  opened : .linkOpened ≤ s.dev.state
  fresh : s.ackedTransNum ≠ transNum
  current : s.rxTransNum = transNum
  total : s.transDataLen = data.length
  last : s.lastSegNum = calcSegNum data.length - 1
  fcs : s.fcs = crc data
  buffer : s.provRxPdu.length = provPduMax
  missing : ∀ j < 64, s.recvSeg.getLsbD j = decide (j < calcSegNum data.length ∧ j ∉ got)
  holds : ∀ j ∈ got, HoldsPiece data segStart s.provRxPdu j

/-- What is handed over when the segments have arrived: the PDU, if there are all of them. -/
def handedOnce (data : List Byte) (all : Prop) [Decidable all] : List (List Byte × ℕ × Byte) :=
  if all then [(data, data.length, crc data)] else []

theorem handedOnce_append {data : List Byte} {p q r : Prop} [Decidable p] [Decidable q]
    [Decidable r] (hpq : p → ¬ q) (hr : r ↔ p ∨ q) :
    handedOnce data p ++ handedOnce data q = handedOnce data r := by
  unfold handedOnce
  by_cases hp : p
  · rw [if_pos hp, if_neg (hpq hp), if_pos (hr.mpr (.inl hp)), List.append_nil]
  · simp only [hr, hp, false_or, if_false, List.nil_append]

section Step

variable {cfg : Config} {w : World} {s : PbAdvDev} {linkId : BitVec 32} {transNum : Byte}
  {data : List Byte} {got : List ℕ} {i : ℕ}

theorem calcSegNum_lt (hle : data.length ≤ provPduMax) : calcSegNum data.length < 64 :=
  (calcSegNum_le hle).trans_lt (by decide)

theorem recv_segPkt_zero (hle : data.length ≤ provPduMax) :
    recv cfg s w (segPkt linkId transNum data 0) =
      recvTransStart w s transNum (calcSegNum data.length - 1) data.length (crc data)
        (piece data segStart 0) := by
  have hlast : calcSegNum data.length - 1 < 64 := (Nat.sub_le _ _).trans_lt (calcSegNum_lt hle)
  have htotal : data.length < 65536 := hle.trans_lt (by decide)
  have hparse :=
    @parse_transStart linkId transNum (piece data segStart 0) _ _ (crc data) hlast htotal
  rw [segPkt, if_pos rfl, recv, hparse]
  rfl

theorem recv_segPkt_succ (hle : data.length ≤ provPduMax) (hi : i < calcSegNum data.length)
    (h0 : i ≠ 0) :
    recv cfg s w (segPkt linkId transNum data i) =
      recvTransContinue w s transNum i (piece data segStart i) := by
  have hparse := @parse_transContinue linkId transNum (piece data segStart i) _
    (hi.trans (calcSegNum_lt hle))
  rw [segPkt, if_neg h0, recv, hparse]
  rfl

/-- A start that arrives while no transaction goes on. -/
theorem assembling_begun (hopened : .linkOpened ≤ s.dev.state) (hidle : s.transDataLen = 0)
    (hfresh : s.ackedTransNum ≠ transNum) (hbuffer : s.provRxPdu.length = provPduMax) :
    Assembling transNum data []
      (begun s transNum (calcSegNum data.length - 1) data.length (crc data)) where
  opened := hopened
  fresh := hfresh
  current := rfl
  total := rfl
  last := rfl
  fcs := rfl
  buffer := hbuffer
  missing j hj := by
    have hnum := Nat.sub_add_cancel (calcSegNum_pos data.length)
    simp only [begun, startSegs]
    rw [if_pos hidle, hnum, getLsbD_lowBits _ hj]
    simp
  holds j hj := absurd hj List.not_mem_nil

theorem Assembling.copied (h : Assembling transNum data got s) (hpos : 0 < data.length)
    (hle : data.length ≤ provPduMax) (hi : i < calcSegNum data.length) :
    Assembling transNum data (i :: got) (copied s i (segStart i) (piece data segStart i)) where
  opened := h.opened
  fresh := h.fresh
  current := h.current
  total := h.total
  last := h.last
  fcs := h.fcs
  buffer := by
    have hin := (piece_fits hi hpos).trans (hle.trans h.buffer.ge)
    rw [PbAdv.copied, splice_length hin]
    exact h.buffer
  missing j hj := by
    simp only [PbAdv.copied]
    rw [getLsbD_clear _ _ hj, h.missing j hj]
    by_cases hji : j = i
    · simp [hji]
    · simp [hji, Ne.symm hji]
  holds j hj := by
    have hin := (piece_fits hi hpos).trans (hle.trans h.buffer.ge)
    by_cases hji : j = i
    · rw [hji]
      exact holdsPiece_splice hin
    · rcases List.mem_cons.mp hj with rfl | hgot
      · exact absurd rfl hji
      · exact (h.holds j hgot).splice segStart_mono (Ne.symm hji) hin

/-- The missing segments are none exactly when all have arrived. -/
theorem Assembling.recvSeg_eq_zero (h : Assembling transNum data got s)
    (hle : data.length ≤ provPduMax) :
    s.recvSeg = 0 ↔ ∀ j < calcSegNum data.length, j ∈ got := by
  have hlt := calcSegNum_lt hle
  constructor
  · intro h0 j hj
    have hbit := h.missing j (hj.trans hlt)
    rw [h0] at hbit
    by_contra hgot
    simp [hj, hgot] at hbit
  · intro hall
    refine mask_ext fun j hj => ?_
    rw [h.missing j hj]
    by_cases hlen : j < calcSegNum data.length
    · simp [hall j hlen]
    · simp [hlen]

theorem Assembling.take_eq (h : Assembling transNum data got s) (hpos : 0 < data.length)
    (hall : ∀ j < calcSegNum data.length, j ∈ got) :
    s.provRxPdu.take data.length = data :=
  take_eq_of_holdsPiece segStart_zero (calcSegNum_spec hpos).2
    fun j hj => h.holds j (hall j hj)

/-- The segment is copied and the PDU handed over if it was the last one missing. -/
theorem Assembling.storeSeg (h : Assembling transNum data got s) (hpos : 0 < data.length)
    (hle : data.length ≤ provPduMax) (hi : i < calcSegNum data.length) :
    ∃ t acts, storeSeg s i (segStart i) (piece data segStart i) = .ok ⟨.success, some t, acts⟩ ∧
      Assembling transNum data (i :: got) t ∧
      handed acts = handedOnce data (∀ j < calcSegNum data.length, j ∈ i :: got) := by
  have hin := (piece_fits hi hpos).trans hle
  have hcopied := h.copied hpos hle hi
  have hzero := hcopied.recvSeg_eq_zero hle
  unfold handedOnce
  by_cases hall : ∀ j < calcSegNum data.length, j ∈ i :: got
  · have htake := hcopied.take_eq hpos hall
    rw [storeSeg_full hin (hzero.mpr hall), if_pos hall]
    refine ⟨_, _, rfl, ?_⟩
    generalize PbAdv.copied s i (segStart i) (piece data segStart i) = c at hcopied htake
    have hcrc : ¬ crc (c.provRxPdu.take c.transDataLen) ≠ c.fcs := by
      rw [hcopied.total, htake, hcopied.fcs]
      exact not_not.mpr rfl
    have hact : handed [.recvProvPdu (c.provRxPdu.take c.transDataLen) c.transDataLen c.fcs] =
        [(data, data.length, crc data)] := by
      rw [hcopied.total, htake, hcopied.fcs]
      rfl
    unfold recvProvPdu
    dsimp only
    by_cases hfailed : c.dev.state = .failed
    · rw [if_pos hfailed]
      exact ⟨hcopied, hact⟩
    · rw [if_neg hfailed, if_neg hcrc]
      refine ⟨?_, hact⟩
      exact ⟨hcopied.opened, hcopied.fresh, hcopied.current, hcopied.total, hcopied.last,
        hcopied.fcs, hcopied.buffer, hcopied.missing, hcopied.holds⟩
  · rw [storeSeg_waits hin fun h0 => hall (hzero.mp h0), if_neg hall]
    exact ⟨_, _, rfl, hcopied, rfl⟩

theorem Assembling.again (h : Assembling transNum data got s) (hpos : 0 < data.length)
    (hle : data.length ≤ provPduMax) (hi : i < calcSegNum data.length) (hgot : i ∈ got) :
    ∃ ret, recv cfg s w (segPkt linkId transNum data i) = .ok ⟨ret, some s, []⟩ := by
  have hlt := calcSegNum_lt hle
  have hbit : s.recvSeg.getLsbD i = false := by
    rw [h.missing i (hi.trans hlt)]
    simp [hgot]
  by_cases h0 : i = 0
  · subst h0
    rw [recv_segPkt_zero hle]
    have hno : ¬ Starts s transNum (calcSegNum data.length - 1) data.length := by
      intro hstarts
      have hmissing := hstarts.missing
      rw [startSegs, if_neg (h.total ▸ hpos.ne'), hbit] at hmissing
      exact Bool.false_ne_true hmissing
    have hcases := recvTransStart_cases w s transNum (calcSegNum data.length - 1) data.length
      (crc data) (piece data segStart 0)
    generalize recvTransStart w s transNum (calcSegNum data.length - 1) data.length (crc data)
      (piece data segStart 0) = r at hcases ⊢
    cases hcases with
    | refused hn ret hret => exact ⟨ret, rfl⟩
    | again ho hacked => exact absurd hacked h.fresh
    | misfit hstarts hlen => exact absurd hstarts hno
    | stored hstarts hlen => exact absurd hstarts hno
  · rw [recv_segPkt_succ hle hi h0]
    have hcases := recvTransContinue_cases w s transNum i (piece data segStart i)
    generalize recvTransContinue w s transNum i (piece data segStart i) = r at hcases ⊢
    cases hcases with
    | refused hn ret hret => exact ⟨ret, rfl⟩
    | again ho hacked => exact absurd hacked h.fresh
    | stored hcont hlen => exact absurd (hbit.symm.trans hcont.missing) Bool.false_ne_true

variable (cfg linkId) in
theorem recv_start (w : World) (hopened : .linkOpened ≤ s.dev.state) (hidle : s.transDataLen = 0)
    (hfresh : s.ackedTransNum ≠ transNum) (hpos : 0 < data.length)
    (hle : data.length ≤ provPduMax) :
    recv cfg s w (segPkt linkId transNum data 0) =
      storeSeg (begun s transNum (calcSegNum data.length - 1) data.length (crc data)) 0 0
        (piece data segStart 0) := by
  have hstarts : Starts s transNum (calcSegNum data.length - 1) data.length :=
    ⟨hopened, hfresh, hpos, hle, rfl, startSegs_getLsbD_of_zero hidle⟩
  have hcases := recvTransStart_cases w s transNum (calcSegNum data.length - 1) data.length
    (crc data) (piece data segStart 0)
  rw [recv_segPkt_zero hle]
  generalize recvTransStart w s transNum (calcSegNum data.length - 1) data.length (crc data)
    (piece data segStart 0) = r at hcases ⊢
  cases hcases with
  | refused hn ret hret => exact absurd hstarts hn
  | again ho hacked => exact absurd hacked hfresh
  | misfit h hlen => exact absurd (piece_zero_length hpos) hlen
  | stored h hlen => rfl

theorem Assembling.congr {got' : List ℕ} (h : Assembling transNum data got s)
    (hsame : ∀ j, j ∈ got' ↔ j ∈ got) : Assembling transNum data got' s where
  opened := h.opened
  fresh := h.fresh
  current := h.current
  total := h.total
  last := h.last
  fcs := h.fcs
  buffer := h.buffer
  missing j hj := by
    rw [h.missing j hj]
    simp only [hsame]
  holds j hj := h.holds j ((hsame j).mp hj)

/-- One more segment of a transaction that has been started. -/
theorem Assembling.step (h : Assembling transNum data got s) (hstarted : 0 ∈ got)
    (hpos : 0 < data.length) (hle : data.length ≤ provPduMax)
    (hi : i < calcSegNum data.length) :
    ∃ ret t acts, recv cfg s w (segPkt linkId transNum data i) = .ok ⟨ret, some t, acts⟩ ∧
      Assembling transNum data (i :: got) t ∧
      handed acts = handedOnce data (i ∉ got ∧ ∀ j < calcSegNum data.length, j ∈ i :: got) := by
  by_cases hgot : i ∈ got
  · obtain ⟨ret, he⟩ := @Assembling.again cfg w s linkId _ _ _ _ h hpos hle hi hgot
    refine ⟨ret, s, [], he, h.congr fun j => ?_, ?_⟩
    · rw [List.mem_cons, or_iff_right_of_imp]
      rintro rfl
      exact hgot
    · rw [handedOnce, if_neg fun hall => hall.1 hgot]
      rfl
  · have h0 : i ≠ 0 := fun h0 => hgot (h0 ▸ hstarted)
    have hlt := hi.trans_le (calcSegNum_le hle)
    have hbit : s.recvSeg.getLsbD i = true := by
      rw [h.missing i (hi.trans (calcSegNum_lt hle))]
      simp [hi, hgot]
    have hcont : Continues s transNum i :=
      ⟨h.opened, h.fresh, h.current, h.total ▸ hpos.ne', h.last ▸ Nat.le_sub_one_of_lt hi, hbit⟩
    have hlen : (piece data segStart i).length = continueLen s i := by
      unfold continueLen
      rw [h.last, h.total]
      split_ifs with hinner
      · obtain ⟨k, rfl⟩ := Nat.exists_eq_succ_of_ne_zero h0
        rw [piece_inner_length hpos hinner, Nat.succ_eq_add_one, segStart_succ, segStart_succ,
          transContinueMax]
        omega
      · obtain rfl : i = calcSegNum data.length - 1 := by omega
        rw [piece_last_length hpos, lastSegLen_eq h0 (calcSegNum_spec hpos).1 hle]
    have hcases := recvTransContinue_cases w s transNum i (piece data segStart i)
    rw [recv_segPkt_succ hle hi h0]
    generalize recvTransContinue w s transNum i (piece data segStart i) = r at hcases ⊢
    cases hcases with
    | refused hn ret hret => exact absurd ⟨hcont, hlen⟩ hn
    | again ho hacked => exact absurd hacked h.fresh
    | stored =>
      obtain ⟨t, acts, he, ht, hacts⟩ := h.storeSeg hpos hle hi
      rw [segOffset_eq h0 hlt]
      refine ⟨_, t, acts, he, ht, ?_⟩
      rw [hacts]
      simp only [handedOnce, hgot, not_false_eq_true, true_and]

end Step

section Run

variable {cfg : Config} {s : PbAdvDev} {linkId : BitVec 32} {transNum : Byte} {data : List Byte}
  {got : List ℕ} {acts : List Act}

/-- The segments with the given numbers are received one after the other. -/
def receiving (linkId : BitVec 32) (transNum : Byte) (data : List Byte) (es : List (ℕ × World)) :
    List (SessionEvent × World) :=
  es.map fun e => (.recv (segPkt linkId transNum data e.1), e.2)

theorem run_receiving_cons {i : ℕ} {w : World} {es : List (ℕ × World)} {ret : Errno}
    {o : Option PbAdvDev} {new : List Act}
    (h : recv cfg s w (segPkt linkId transNum data i) = .ok ⟨ret, o, new⟩) :
    run (tracedNext cfg) (some s, acts) (receiving linkId transNum data ((i, w) :: es)) =
      run (tracedNext cfg) (o, acts ++ new) (receiving linkId transNum data es) := by
  have hstep : tracedNext cfg (some s, acts) (.recv (segPkt linkId transNum data i), w) =
      .ok (o, acts ++ new) := by
    simp only [tracedNext, sessionStep, h]
    rfl
  rw [receiving, List.map_cons, run, hstep]
  rfl

variable (cfg linkId) in
/-- From the start on the PDU is handed over when the last missing segment arrives. -/
theorem Assembling.run (h : Assembling transNum data got s) (hstarted : 0 ∈ got)
    (hpos : 0 < data.length) (hle : data.length ≤ provPduMax) (es : List (ℕ × World))
    (hes : ∀ e ∈ es, e.1 < calcSegNum data.length) (acts : List Act) :
    ∃ o acts', run (tracedNext cfg) (some s, acts) (receiving linkId transNum data es) =
        .ok (o, acts') ∧
      handed acts' = handed acts ++ handedOnce data
        ((¬ ∀ j < calcSegNum data.length, j ∈ got) ∧
          ∀ j < calcSegNum data.length, j ∈ es.map (·.1) ∨ j ∈ got) := by
  induction es generalizing s got acts with
  | nil =>
    refine ⟨some s, acts, rfl, ?_⟩
    rw [handedOnce, if_neg fun hall => hall.1 fun j hj => (hall.2 j hj).resolve_left (by simp)]
    simp
  | cons e es ih =>
    obtain ⟨i, w⟩ := e
    have hi : i < calcSegNum data.length := hes _ List.mem_cons_self
    obtain ⟨ret, t, new, he, ht, hnew⟩ :=
      @Assembling.step cfg w s linkId _ _ _ _ h hstarted hpos hle hi
    obtain ⟨o, acts', hrun, hacts⟩ := ih ht (List.mem_cons_of_mem _ hstarted)
      (fun e he => hes e (List.mem_cons_of_mem _ he)) (acts ++ new)
    refine ⟨o, acts', (run_receiving_cons he).trans hrun, ?_⟩
    rw [hacts, handed_append, hnew, List.append_assoc]
    congr 1
    have hmem (j : ℕ) : (j ∈ ((i, w) :: es).map (·.1) ∨ j ∈ got) ↔
        (j ∈ es.map (·.1) ∨ j ∈ i :: got) := by
      rw [List.map_cons, List.mem_cons, List.mem_cons]
      tauto
    refine handedOnce_append (fun hp hq => hq.1 hp.2) ⟨?_, ?_⟩
    · rintro ⟨hbefore, hafter⟩
      by_cases hall : ∀ j < calcSegNum data.length, j ∈ i :: got
      · refine .inl ⟨fun hgot => hbefore fun j hj => ?_, hall⟩
        exact (List.mem_cons.mp (hall j hj)).elim (fun hji => hji ▸ hgot) fun hg => hg
      · exact .inr ⟨hall, fun j hj => (hmem j).mp (hafter j hj)⟩
    · rintro (⟨hgot, hall⟩ | ⟨hall, hafter⟩)
      · exact ⟨fun hb => hgot (hb i hi), fun j hj => (hmem j).mpr (.inr (hall j hj))⟩
      · exact ⟨fun hb => hall fun j hj => List.mem_cons_of_mem _ (hb j hj),
          fun j hj => (hmem j).mpr (hafter j hj)⟩

variable (cfg linkId) in
theorem recv_before_start {i : ℕ} (w : World) (hidle : s.transDataLen = 0)
    (hfresh : s.ackedTransNum ≠ transNum) (hle : data.length ≤ provPduMax)
    (hi : i < calcSegNum data.length) (h0 : i ≠ 0) :
    ∃ ret, recv cfg s w (segPkt linkId transNum data i) = .ok ⟨ret, some s, []⟩ := by
  have hcases := recvTransContinue_cases w s transNum i (piece data segStart i)
  rw [recv_segPkt_succ hle hi h0]
  generalize recvTransContinue w s transNum i (piece data segStart i) = r at hcases ⊢
  cases hcases with
  | refused hn ret hret => exact ⟨ret, rfl⟩
  | again ho hacked => exact absurd hacked hfresh
  | stored hcont hlen => exact absurd hidle hcont.going

variable (cfg linkId) in
/-- A whole sequence of segments at a session with no transaction going on. -/
theorem receiving_run (hopened : .linkOpened ≤ s.dev.state) (hidle : s.transDataLen = 0)
    (hfresh : s.ackedTransNum ≠ transNum) (hbuffer : s.provRxPdu.length = provPduMax)
    (hpos : 0 < data.length) (hle : data.length ≤ provPduMax) (es : List (ℕ × World))
    (hes : ∀ e ∈ es, e.1 < calcSegNum data.length) (acts : List Act) :
    ∃ o acts', run (tracedNext cfg) (some s, acts) (receiving linkId transNum data es) =
        .ok (o, acts') ∧
      handed acts' = handed acts ++ handedOnce data
        (∀ j < calcSegNum data.length, j ∈ (es.map (·.1)).dropWhile (· ≠ 0)) := by
  have hnum := calcSegNum_pos data.length
  induction es with
  | nil =>
    refine ⟨some s, acts, rfl, ?_⟩
    rw [handedOnce, if_neg fun hall => List.not_mem_nil (hall 0 hnum), List.append_nil]
  | cons e es ih =>
    obtain ⟨i, w⟩ := e
    have hrest : ∀ e ∈ es, e.1 < calcSegNum data.length :=
      fun e he => hes e (List.mem_cons_of_mem _ he)
    by_cases h0 : i = 0
    · subst h0
      have hbegun : Assembling transNum data [] (begun s transNum (calcSegNum data.length - 1)
          data.length (crc data)) := assembling_begun hopened hidle hfresh hbuffer
      obtain ⟨t, new, he, ht, hnew⟩ := hbegun.storeSeg hpos hle hnum
      rw [segStart_zero, ← recv_start cfg linkId w hopened hidle hfresh
        hpos hle] at he
      obtain ⟨o, acts', hrun, hacts⟩ := ht.run cfg linkId List.mem_cons_self
        hpos hle es hrest (acts ++ new)
      refine ⟨o, acts', (run_receiving_cons he).trans hrun, ?_⟩
      rw [hacts, handed_append, hnew, List.append_assoc]
      congr 1
      have hdrop : (((0, w) :: es).map (·.1)).dropWhile (fun i : ℕ => decide (i ≠ 0)) =
          0 :: es.map (·.1) := rfl
      have hmem (j : ℕ) : j ∈ 0 :: es.map (·.1) ↔ j ∈ es.map (·.1) ∨ j ∈ [0] := by
        rw [List.mem_cons, List.mem_singleton, or_comm]
      refine handedOnce_append (fun hp hq => hq.1 hp) ?_
      simp only [hdrop, hmem]
      refine ⟨fun hall => ?_, fun hall j hj => ?_⟩
      · by_cases hone : ∀ j < calcSegNum data.length, j ∈ [0]
        · exact .inl hone
        · exact .inr ⟨hone, hall⟩
      · exact hall.elim (fun hone => .inr (hone j hj)) fun hq => hq.2 j hj
    · obtain ⟨ret, he⟩ := recv_before_start cfg linkId w hidle hfresh hle
        (hes _ List.mem_cons_self) h0
      obtain ⟨o, acts', hrun, hacts⟩ := ih hrest
      refine ⟨o, acts', ?_, ?_⟩
      · rw [run_receiving_cons he, List.append_nil]
        exact hrun
      · have hdrop : (((i, w) :: es).map (·.1)).dropWhile (fun i : ℕ => decide (i ≠ 0)) =
            (es.map (·.1)).dropWhile (fun i : ℕ => decide (i ≠ 0)) := by
          rw [List.map_cons, List.dropWhile_cons_of_pos (by simpa using h0)]
        rw [hacts]
        simp only [hdrop]

/-- The packets with the given numbers are received one after the other. -/
def deliveries (pkts : List (List Byte)) (es : List (Fin pkts.length × World)) :
    List (SessionEvent × World) :=
  es.map fun e => (.recv (pkts.get e.1), e.2)

theorem transPkts_length : (transPkts linkId transNum data).length = calcSegNum data.length := by
  simp [transPkts_eq]

theorem deliveries_transPkts (es : List (Fin (transPkts linkId transNum data).length × World)) :
    deliveries (transPkts linkId transNum data) es =
      receiving linkId transNum data (es.map fun e => (e.1.val, e.2)) := by
  rw [deliveries, receiving, List.map_map]
  refine List.map_congr_left fun e _ => ?_
  simp only [List.get_eq_getElem, Function.comp_apply]
  congr 2
  simp [transPkts_eq]

variable (cfg linkId) in
theorem deliveries_run (hopened : .linkOpened ≤ s.dev.state) (hidle : s.transDataLen = 0)
    (hfresh : s.ackedTransNum ≠ transNum) (hbuffer : s.provRxPdu.length = provPduMax)
    (hpos : 0 < data.length) (hle : data.length ≤ provPduMax)
    (es : List (Fin (transPkts linkId transNum data).length × World)) :
    ∃ o acts,
      run (tracedNext cfg) (some s, []) (deliveries (transPkts linkId transNum data) es) =
        .ok (o, acts) ∧
      handed acts =
        handedOnce data (∀ i, i ∈ (es.map (·.1)).dropWhile (fun i => i.val ≠ 0)) := by
  obtain ⟨o, acts, hrun, hacts⟩ := receiving_run cfg linkId hopened hidle
    hfresh hbuffer hpos hle (es.map fun e => (e.1.val, e.2)) (by
      intro e he
      obtain ⟨d, -, rfl⟩ := List.mem_map.mp he
      exact transPkts_length ▸ d.1.isLt) []
  refine ⟨o, acts, ?_, ?_⟩
  · rw [deliveries_transPkts]
    exact hrun
  · have hdrop : ((es.map fun e => (e.1.val, e.2)).map (·.1)).dropWhile (· ≠ 0) =
        ((es.map (·.1)).dropWhile (fun i => i.val ≠ 0)).map Fin.val := by
      have hfst : (es.map fun e => (e.1.val, e.2)).map (·.1) = (es.map (·.1)).map Fin.val := by
        simp
      rw [hfst, List.dropWhile_map]
      rfl
    have hall : (∀ j < calcSegNum data.length, j ∈ ((es.map fun e => (e.1.val, e.2)).map
        (·.1)).dropWhile (· ≠ 0)) ↔ ∀ i, i ∈ (es.map (·.1)).dropWhile (fun i => i.val ≠ 0) := by
      rw [hdrop]
      constructor
      · intro h i
        obtain ⟨k, hk, hki⟩ := List.mem_map.mp (h i (transPkts_length ▸ i.isLt))
        exact Fin.ext hki ▸ hk
      · intro h j hj
        exact List.mem_map.mpr ⟨⟨j, transPkts_length.symm ▸ hj⟩, h _, rfl⟩
    rw [hacts]
    simp only [hall]
    rfl

/-- The segments of a PDU, in any order, with losses and duplicates: the PDU is handed over
when all of them have arrived since the start, once and as it was sent. -/
theorem transaction_roundTrip (cfg : Config) (s : PbAdvDev) (linkId : BitVec 32) (transNum : Byte)
    (data : List Byte) (hopened : .linkOpened ≤ s.dev.state) (hidle : s.transDataLen = 0)
    (hfresh : s.ackedTransNum ≠ transNum) (hbuffer : s.provRxPdu.length = provPduMax)
    (hpos : 0 < data.length) (hle : data.length ≤ provPduMax)
    (es : List (Fin (transPkts linkId transNum data).length × World)) :
    ∃ o acts,
      run (tracedNext cfg) (some s, []) (deliveries (transPkts linkId transNum data) es) =
        .ok (o, acts) ∧
      handed acts =
        if ∀ i, i ∈ (es.map (·.1)).dropWhile (fun i => i.val ≠ 0)
        then [(data, data.length, crc data)] else [] :=
  deliveries_run cfg linkId hopened hidle hfresh hbuffer hpos hle es

end Run

def plainConfig : Config := ⟨maskEnv, List.replicate 16 1⟩

/-- The bearer takes every packet and the application makes no calls by itself. -/
def plainWorld : World where
  accepts _ := true
  mallocOk := true
  keyPair := (List.replicate 64 1, List.replicate 32 2)
  random := List.replicate 16 3
  onOpened := []

/-- A device whose link has just been opened. -/
def openedDevice : PbAdvDev :=
  (startTimer (accepting (clearedSession (List.replicate 16 1) .device)
    { clearedDevice .device with state := .linkOpened } 7) .linkMonitor)

def plainPdu : List Byte := List.replicate 50 5

theorem plainPdu_segments : 3 = (transPkts 7 0 plainPdu).length := by decide +kernel

/-- Its three segments out of order, the first two with a copy too many. -/
def shuffled : List (Fin (transPkts 7 0 plainPdu).length × World) :=
  [2, 0, 1, 0, 1, 2].map fun i : Fin 3 => (i.cast plainPdu_segments, plainWorld)

theorem transaction_roundTrip_shuffled : ∃ o acts,
    run (tracedNext plainConfig) (some openedDevice, [])
        (deliveries (transPkts 7 0 plainPdu) shuffled) =
      .ok (o, acts) ∧
    handed acts = [(plainPdu, 50, crc plainPdu)] := by
  have hall : ∀ i, i ∈ (shuffled.map (·.1)).dropWhile (fun i => i.val ≠ 0) := by
    decide +kernel
  obtain ⟨o, acts, hrun, hacts⟩ := transaction_roundTrip plainConfig openedDevice 7 0 plainPdu
    (by decide) rfl (by decide) rfl (by decide) (by decide) shuffled
  rw [if_pos hall] at hacts
  exact ⟨o, acts, hrun, hacts⟩

end Meshx.PbAdv
