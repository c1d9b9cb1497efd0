import Meshx.ReceiveCases

/-! Delivery of received messages: no message reaches the upper layer twice, as long as the
replay list does what it is there for. -/
namespace Meshx.LowerTransRx

open Lib Segment Replay IvIndex

/-- What identifies a message: source, IV index and SeqAuth. -/
abbrev MsgId := BitVec 16 × BitVec 32 × BitVec 24

/-- The message that a call hands to the upper layer. -/
def RxCall.msgId : RxCall → Option MsgId
  | .upperReceive _ _ ctx => some (ctx.src, ctx.ivIndex, ctx.seqAuth)
  | .segAck _ _ | .recvBlockAck _ _ => none

/-- The messages handed to the upper layer, the last one first. -/
def Rx.delivered (s : Rx) : List MsgId := s.calls.filterMap RxCall.msgId

/-- The SeqAuth of the message a PDU belongs to. -/
def pduSeqAuth (mem : ℕ → Byte) (ctx : MsgCtx) : BitVec 24 :=
  if (mem 0).msb then seqAuthOf (rxMisc mem).seqZero ctx.seq else ctx.seq

/-- The PDU leaves no part of its message missing. -/
def lastPart (r : Receiver) (env : RxEnv) (mem : ℕ → Byte) (ctx : MsgCtx) : Bool :=
  if ctx.ctl && (mem 0).extractLsb' 0 7 == 0 then false
  else if (mem 0).msb then
    match r.request env (rxMaxPduLen mem ctx.ctl) (segCtx mem ctx) with
    | (_, none) => false
    | (s, some id) =>
      let missing := (s.task id).notReceivedSeg
      let sego := (rxMisc mem).sego.toNat
      missing &&& bit 32 sego != 0 &&
        ((rxMisc mem).segn == 0 || missing &&& ~~~bit 32 sego == 0)
  else true

/-- A sequence number that segments of the message with the SeqAuth may carry, counted round
the 24 bits. -/
def InWindow (seq : BitVec 32) (seqAuth : BitVec 24) : Prop :=
  (seq.setWidth 24 - seqAuth).toNat < 0x2000

/-- The replay list has an entry made for the message or for one in its window. -/
def Listed (rpl : Rpl) (id : MsgId) : Prop :=
  ∃ e ∈ rpl.entries, e.src = id.1 ∧ e.ivIndex = id.2.1 ∧ InWindow e.seq id.2.2

/-- All entries are of an IV index that is no longer received. -/
def Outdated (rpl : Rpl) (ivIndex : BitVec 32) : Prop :=
  ∀ e ∈ rpl.entries, e.ivIndex.toNat + 1 < ivIndex.toNat

/-- Steps in which the replay list does what it is there for. A PDU that completes its
message and passes `meshx_rpl_check` is of a message that is not listed, and the list is
cleared only when what it holds is out of date. -/
def Unreplayed (s : Rx) : RxEvent → Prop
  | .receive env mem _ ctx ivi =>
    let ctx := netCtx s.iv ctx ivi
    lastPart s.rx env mem ctx = true → rplCheck s.rx.rpl (rplOf ctx) = true →
      ¬ Listed s.rx.rpl (ctx.src, ctx.ivIndex, pduSeqAuth mem ctx)
  | .ivUpdate ivIndex state busy =>
    (ivIndexUpdate s.iv ivIndex state busy).2.2 = true → Outdated s.rx.rpl ivIndex
  | .ivTick busy => (ivTick s.iv busy).2 = true → Outdated s.rx.rpl s.iv.ivIndex
  | _ => True

instance (seq : BitVec 32) (seqAuth : BitVec 24) : Decidable (InWindow seq seqAuth) :=
  inferInstanceAs (Decidable (_ < _))

instance (rpl : Rpl) (id : MsgId) : Decidable (Listed rpl id) :=
  inferInstanceAs (Decidable (∃ e ∈ rpl.entries, _))

instance (rpl : Rpl) (ivIndex : BitVec 32) : Decidable (Outdated rpl ivIndex) :=
  inferInstanceAs (Decidable (∀ e ∈ rpl.entries, _))

instance (s : Rx) : (e : RxEvent) → Decidable (Unreplayed s e)
  | .receive .. => inferInstanceAs (Decidable (_ → _ → ¬ _))
  | .ivUpdate .. => inferInstanceAs (Decidable (_ → _))
  | .ivTick .. => inferInstanceAs (Decidable (_ → _))
  | .ackTimeout _ | .incompleteTimeout _ | .ivTestMode _ | .ivOperateTime _ | .sendFinished =>
    .isTrue trivial

section Receive

variable {r r' : Receiver} {rpl rpl' : Rpl} {entry : RplEntry} {env : RxEnv} {id len : ℕ}
  {mem : ℕ → Byte} {ctx : MsgCtx} {ret : Errno} {calls : List RxCall}

/-- The replay list after a step that hands nothing up. -/
def Kept (rpl rpl' : Rpl) (entry : RplEntry) : Prop :=
  rpl' = rpl ∨ ∃ err, rplUpdate rpl entry = .ok (err, rpl')

theorem rplCheck_true (h : lowerTransRplCheck rpl entry = .ok (true, rpl')) :
    rplCheck rpl entry = true ∧ rplUpdate rpl entry = .ok (.success, rpl') := by
  rw [lowerTransRplCheck] at h
  by_cases hc : rplCheck rpl entry = true
  · rw [if_pos hc] at h
    obtain ⟨⟨err, rpl''⟩, hu, h⟩ := bind_ok h
    obtain ⟨herr, rfl⟩ := Prod.mk.inj (Except.ok.inj h)
    obtain rfl : err = .success := by simpa using herr
    exact ⟨hc, hu⟩
  · rw [if_neg hc] at h
    cases h

theorem rplCheck_false (h : lowerTransRplCheck rpl entry = .ok (false, rpl')) :
    Kept rpl rpl' entry := by
  rw [lowerTransRplCheck] at h
  by_cases hc : rplCheck rpl entry = true
  · rw [if_pos hc] at h
    obtain ⟨⟨err, rpl''⟩, hu, h⟩ := bind_ok h
    obtain ⟨-, rfl⟩ := Prod.mk.inj (Except.ok.inj h)
    exact .inr ⟨err, hu⟩
  · rw [if_neg hc] at h
    cases h
    exact .inl rfl

theorem request_rpl {maxPduLen : ℕ} {out : Option ℕ}
    (h : r.request env maxPduLen ctx = (r', out)) : r'.rpl = r.rpl := by
  have hnew : ∀ {s : Receiver}, s.newTask env maxPduLen ctx = (r', out) → r'.rpl = s.rpl := by
    intro s hs
    rcases Receiver.newTask_cases hs with ⟨-, hrpl, -⟩ | ⟨_, _, -, -, -, -, -, hrpl, -⟩ <;>
      exact hrpl
  rcases Receiver.request_cases h with ⟨_, -, -, -, rfl⟩ | ⟨_, -, -, -, rfl⟩ | ⟨-, hn⟩ |
    ⟨_, -, -, hn⟩
  · rfl
  · rfl
  · exact hnew hn
  · have hrpl := hnew hn
    exact hrpl

/-- A segment hands nothing up, or it completes a message that has passed the check. -/
theorem receiveFor_delivers (h : r.receiveFor id mem len ctx = .ok (ret, r', calls)) :
    (calls.filterMap RxCall.msgId = [] ∧ Kept r.rpl r'.rpl (rplOf ctx)) ∨
    ((r.task id).notReceivedSeg &&& bit 32 (rxMisc mem).sego.toNat ≠ 0 ∧
      ((rxMisc mem).segn = 0 ∨
        (r.task id).notReceivedSeg &&& ~~~bit 32 (rxMisc mem).sego.toNat = 0) ∧
      lowerTransRplCheck r.rpl (rplOf ctx) = .ok (true, r'.rpl) ∧
      calls.filterMap RxCall.msgId = [(ctx.src, ctx.ivIndex, ctx.seqAuth)]) := by
  rcases Receiver.receiveFor_cases h with ⟨-, rfl, rfl⟩ | ⟨-, -, hcases⟩
  · exact .inl ⟨rfl, .inl rfl⟩
  rcases hcases with ⟨-, err, rpl, hu, rfl, rfl⟩ | ⟨-, -, rfl, rfl⟩ | ⟨hbit, hcases⟩
  · exact .inl ⟨rfl, .inr ⟨err, hu⟩⟩
  · exact .inl ⟨rfl, .inl rfl⟩
  rcases hcases with ⟨hone, hs⟩ | ⟨-, hs⟩
  · rcases Receiver.receiveSingle_cases hs with ⟨rpl, hcheck, rfl, rfl⟩ |
      ⟨rpl, _, _, hcheck, -, -, -, rfl, rfl⟩
    · exact .inl ⟨rfl, rplCheck_false hcheck⟩
    · exact .inr ⟨hbit, .inl hone, hcheck, rfl⟩
  · obtain ⟨buf, -, -, hcases⟩ := Receiver.receiveMulti_cases hs
    rcases hcases with ⟨-, rpl, hcheck, rfl, rfl⟩ | ⟨hdone, rpl, _, hcheck, -, rfl, rfl⟩ |
      ⟨-, _, _, -, -, rfl, rfl⟩
    · exact .inl ⟨rfl, rplCheck_false hcheck⟩
    · exact .inr ⟨hbit, .inr hdone, hcheck, rfl⟩
    · exact .inl ⟨rfl, .inl rfl⟩

/-- A PDU hands nothing up, or it is the last part of a message that has passed the check. -/
theorem receive_delivers (h : r.receive env mem len ctx = .ok (ret, r', calls)) :
    (calls.filterMap RxCall.msgId = [] ∧ Kept r.rpl r'.rpl (rplOf ctx)) ∨
    (lastPart r env mem ctx = true ∧
      lowerTransRplCheck r.rpl (rplOf ctx) = .ok (true, r'.rpl) ∧
      calls.filterMap RxCall.msgId = [(ctx.src, ctx.ivIndex, pduSeqAuth mem ctx)]) := by
  rw [Receiver.receive] at h
  by_cases hack : (ctx.ctl && (mem 0).extractLsb' 0 7 == 0) = true
  · rw [if_pos hack] at h
    obtain ⟨ok, rpl, hcheck, rfl, rfl⟩ := Receiver.receiveUnseg_cases h
    refine .inl ⟨by cases ok <;> rfl, ?_⟩
    cases ok with
    | false => exact rplCheck_false hcheck
    | true => exact .inr ⟨_, (rplCheck_true hcheck).2⟩
  rw [if_neg hack] at h
  by_cases hseg : (mem 0).msb = true
  · rw [if_pos hseg] at h
    rcases Receiver.receiveSegMsg_cases h with ⟨hreq, rfl⟩ | ⟨s, id, hreq, hfor⟩
    · exact .inl ⟨rfl, .inl (request_rpl hreq)⟩
    have hrpl := request_rpl hreq
    have hof : rplOf (segCtx mem ctx) = rplOf ctx := rfl
    rcases receiveFor_delivers hfor with ⟨hnone, hkept⟩ | ⟨hbit, hlast, hcheck, hsome⟩
    · exact .inl ⟨hnone, by rwa [hrpl] at hkept⟩
    · refine .inr ⟨?_, by rwa [hrpl] at hcheck, by rw [hsome, pduSeqAuth, if_pos hseg]; rfl⟩
      rw [lastPart, if_neg hack, if_pos hseg, hreq]
      simp only [Bool.and_eq_true, bne_iff_ne, Bool.or_eq_true, beq_iff_eq]
      exact ⟨hbit, hlast⟩
  · rw [if_neg hseg] at h
    obtain ⟨ok, rpl, hcheck, rfl, rfl⟩ := Receiver.receiveUnseg_cases h
    cases ok with
    | false => exact .inl ⟨rfl, rplCheck_false hcheck⟩
    | true =>
      refine .inr ⟨by rw [lastPart, if_neg hack, if_neg hseg], hcheck, ?_⟩
      rw [pduSeqAuth, if_neg hseg]
      rfl

theorem Kept.entries (h : Kept rpl rpl' entry) (hc : rpl.Cleared) (hsrc : entry.src ≠ 0) :
    rpl'.Cleared ∧ ∀ e ∈ rpl.entries, e ∈ rpl'.entries := by
  rcases h with rfl | ⟨err, hu⟩
  · exact ⟨hc, fun _ he => he⟩
  · obtain ⟨hc', hentries | ⟨-, rfl⟩⟩ := rplUpdate_entries hc hsrc hu
    · exact ⟨hc', fun e he => by rw [hentries]; exact List.mem_append_left _ he⟩
    · exact ⟨hc', fun _ he => he⟩

/-- Whatever a PDU carries, its own number is in the window of its message. -/
theorem inWindow_pdu (mem : ℕ → Byte) (ctx : MsgCtx) :
    InWindow (rplOf ctx).seq (pduSeqAuth mem ctx) := by
  have hseq : (rplOf ctx).seq.setWidth 24 = ctx.seq := by
    simp only [rplOf]
    ext i hi
    simp
  rw [InWindow, hseq, pduSeqAuth]
  split_ifs
  · exact sub_seqAuthOf _ _
  · simp

end Receive

/-- What holds between two events: the list has an entry for every message handed up whose
IV index is still received. -/
structure Guarded (s : Rx) : Prop where
  wellFormed : s.iv.WellFormed
  cleared : s.rx.rpl.Cleared
  seen : ∀ id ∈ s.delivered, Listed s.rx.rpl id ∨ id.2.1.toNat + 1 < s.iv.ivIndex.toNat
  nodup : s.delivered.Nodup

theorem init_guarded (rplSize taskNum : ℕ) (ivIndex : BitVec 32) :
    Guarded (Rx.init rplSize taskNum ivIndex) where
  wellFormed h := by cases h
  cleared := rplInit_cleared rplSize
  seen id hid := by simp [Rx.delivered, Rx.init] at hid
  nodup := List.nodup_nil

variable {s s' : Rx} {e : RxEvent}

/-- The IV index a PDU is received with is the current one or the one before. -/
theorem rxIvIndex_recent (iv : Iv) (ivi : Bool) :
    ¬ (Net.rxIvIndex iv.ivIndex ivi).toNat + 1 < iv.ivIndex.toNat := by
  have hlt := iv.ivIndex.isLt
  rw [Net.rxIvIndex]
  split_ifs
  · rw [BitVec.toNat_sub, show (1 : BitVec 32).toNat = 1 from rfl]
    omega
  · omega

theorem Guarded.ivMoved (h : Guarded s) {iv : Iv} {clear : Bool}
    (hadv : TxAdvance s.iv iv clear)
    (hclear : clear = true → Outdated s.rx.rpl iv.ivIndex) : Guarded (s.ivMoved iv clear) := by
  have hindex := hadv.index_le
  cases clear with
  | false =>
    refine ⟨hadv.wellFormed, h.cleared, fun id hid => (h.seen id hid).imp (fun hl => hl) ?_,
      h.nodup⟩
    intro hlt
    exact hlt.trans_le hindex
  | true =>
    refine ⟨hadv.wellFormed, rplInit_cleared _, fun id hid => .inr ?_, h.nodup⟩
    rcases h.seen id hid with ⟨en, hen, -, hiv, -⟩ | hlt
    · exact hiv ▸ hclear rfl en hen
    · exact hlt.trans_le hindex

theorem Guarded.receive (h : Guarded s) {env : RxEnv} {mem : ℕ → Byte} {len : ℕ} {ctx : MsgCtx}
    {ivi : Bool} {ret : Errno} {rx : Receiver} {calls : List RxCall}
    (hun : Unreplayed s (.receive env mem len ctx ivi)) (hsrc : ctx.src ≠ 0)
    (hrx : s.rx.receive env mem len (netCtx s.iv ctx ivi) = .ok (ret, rx, calls)) :
    Guarded { s with rx := rx, calls := calls.reverse ++ s.calls } := by
  set nctx := netCtx s.iv ctx ivi with hn
  have hdel : Rx.delivered { s with rx := rx, calls := calls.reverse ++ s.calls } =
      (calls.filterMap RxCall.msgId).reverse ++ s.delivered := by
    rw [Rx.delivered, Rx.delivered, List.filterMap_append, List.filterMap_reverse]
  rcases receive_delivers hrx with ⟨hnone, hkept⟩ | ⟨hlast, hcheck, hsome⟩
  · rw [hnone, List.reverse_nil, List.nil_append] at hdel
    obtain ⟨hc, hmem⟩ := hkept.entries h.cleared hsrc
    refine ⟨h.wellFormed, hc, fun id hid => ?_, hdel ▸ h.nodup⟩
    rw [hdel] at hid
    exact (h.seen id hid).imp (fun ⟨en, hen, hrest⟩ => ⟨en, hmem en hen, hrest⟩) fun hlt => hlt
  · obtain ⟨hpass, hupdate⟩ := rplCheck_true hcheck
    obtain ⟨hc, hentries | ⟨hne, -⟩⟩ := rplUpdate_entries h.cleared hsrc hupdate
    swap
    · exact absurd rfl hne
    rw [hsome, List.reverse_singleton, List.singleton_append] at hdel
    refine ⟨h.wellFormed, hc, fun id hid => ?_, ?_⟩
    · rw [hdel, List.mem_cons] at hid
      rcases hid with rfl | hid
      · refine .inl ⟨rplOf nctx, ?_, rfl, rfl, inWindow_pdu mem nctx⟩
        rw [hentries]
        exact List.mem_append_right _ (List.mem_singleton_self _)
      · refine (h.seen id hid).imp (fun ⟨en, hen, hrest⟩ => ⟨en, ?_, hrest⟩) fun hlt => hlt
        rw [hentries]
        exact List.mem_append_left _ hen
    · rw [hdel]
      refine List.nodup_cons.mpr ⟨fun hmem => ?_, h.nodup⟩
      rcases h.seen _ hmem with hlisted | hlt
      · exact hun hlast hpass hlisted
      · exact rxIvIndex_recent s.iv ivi hlt

theorem rxStep_guarded (h : Guarded s) (hun : Unreplayed s e) (hrun : rxStep s e = .ok s') :
    Guarded s' := by
  cases e with
  | receive env mem len ctx ivi =>
    rw [rxStep] at hrun
    by_cases hvalid : (!addressIsValid ctx.src || !addressIsValid ctx.dst) = true
    · rw [if_pos hvalid] at hrun
      cases hrun
      exact h
    · rw [if_neg hvalid] at hrun
      obtain ⟨⟨ret, rx, calls⟩, hrx, hrun⟩ := bind_ok hrun
      cases hrun
      refine h.receive hun (fun h0 => hvalid ?_) hrx
      simp [h0, addressIsValid]
  | ackTimeout id =>
    cases hrun
    exact ⟨h.wellFormed, h.cleared, h.seen, h.nodup⟩
  | incompleteTimeout id =>
    obtain ⟨rx, hrx, hrun⟩ := bind_ok hrun
    cases hrun
    obtain ⟨-, rfl⟩ := Receiver.release_ok hrx
    exact ⟨h.wellFormed, h.cleared, h.seen, h.nodup⟩
  | ivUpdate ivIndex state busy =>
    rcases hu : ivIndexUpdate s.iv ivIndex state busy with ⟨ret, iv, clear⟩
    simp only [rxStep, hu] at hrun
    cases hrun
    refine h.ivMoved (ivIndexUpdate_advance h.wellFormed hu) fun hc => ?_
    subst hc
    rw [(ivIndexUpdate_cleared hu).2.1]
    exact hun (by rw [hu])
  | ivTick busy =>
    rcases hu : ivTick s.iv busy with ⟨iv, clear⟩
    simp only [rxStep, hu] at hrun
    cases hrun
    refine h.ivMoved (ivTick_advance h.wellFormed hu) fun hc => ?_
    subst hc
    rw [ivTick_index hu]
    exact hun (by rw [hu])
  | ivTestMode flag =>
    cases hrun
    exact ⟨h.wellFormed, h.cleared, h.seen, h.nodup⟩
  | ivOperateTime time =>
    cases hrun
    exact ⟨h.wellFormed, h.cleared, h.seen, h.nodup⟩
  | sendFinished =>
    cases hrun
    exact h.ivMoved (ivPendingNormal_advance h.wellFormed) (by simp)

/-- In every run in which the replay list does what it is there for, no message is handed to
the upper layer twice. -/
theorem delivered_once (rplSize taskNum : ℕ) (ivIndex : BitVec 32) (es : List RxEvent) (s : Rx)
    (hall : RunAll rxStep Unreplayed (Rx.init rplSize taskNum ivIndex) es)
    (hrun : run rxStep (Rx.init rplSize taskNum ivIndex) es = .ok s) : s.delivered.Nodup :=
  (hall.invariant (fun _ _ _ h hun hstep => rxStep_guarded h hun hstep)
    (init_guarded rplSize taskNum ivIndex) hrun).nodup

/-- A platform on which everything succeeds. -/
def plainEnv : RxEnv := ⟨true, true, true, fun _ => 0⟩

/-- A PDU from the element 2 to the element 1. -/
def plainPdu (bytes : List Byte) (seq : BitVec 24) : RxEvent :=
  .receive plainEnv (byteAt bytes) bytes.length { MsgCtx.zero with src := 2, dst := 1, seq := seq }
    false

/-- An unsegmented message, its replay, and a message of two segments. -/
def plainRun : List RxEvent :=
  [plainPdu [0x00, 1, 2, 3, 4, 5] 1, plainPdu [0x00, 1, 2, 3, 4, 5] 1,
    plainPdu ([0x80, 0x00, 0x08, 0x21] ++ [7]) 3,
    plainPdu ([0x80, 0x00, 0x08, 0x01] ++ List.replicate 12 7) 4]

theorem delivered_once_example : ∃ s, run rxStep (Rx.init 8 1 0) plainRun = .ok s ∧
    s.delivered = [(2, 0, 2), (2, 0, 1)] ∧ s.delivered.Nodup := by
  obtain ⟨s, hs, hobs⟩ : ∃ s, run rxStep (Rx.init 8 1 0) plainRun = .ok s ∧
      s.delivered = [(2, 0, 2), (2, 0, 1)] := observe (by decide +kernel)
  exact ⟨s, hs, hobs, delivered_once 8 1 0 plainRun s (by decide +kernel) hs⟩

/-- An unsegmented message with SEQ 2 that comes twice after one with SEQ 1 is handed up
twice: `meshx_rpl_check` stops at the entry of the first one. -/
theorem delivered_twice : ∃ s, run rxStep (Rx.init 8 1 0)
    [plainPdu [0x00, 1, 2, 3, 4, 5] 1, plainPdu [0x00, 1, 2, 3, 4, 5] 2,
      plainPdu [0x00, 1, 2, 3, 4, 5] 2] = .ok s ∧ ¬ s.delivered.Nodup := by
  obtain ⟨s, hs, hobs⟩ : ∃ s, run rxStep (Rx.init 8 1 0)
      [plainPdu [0x00, 1, 2, 3, 4, 5] 1, plainPdu [0x00, 1, 2, 3, 4, 5] 2,
        plainPdu [0x00, 1, 2, 3, 4, 5] 2] = .ok s ∧
      s.delivered = [(2, 0, 2), (2, 0, 2), (2, 0, 1)] := observe (by decide +kernel)
  exact ⟨s, hs, by simp [hobs]⟩

end Meshx.LowerTransRx
