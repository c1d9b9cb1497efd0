import Meshx.RxCollect

/-! Segmentation and reassembly over whole runs: what is handed up when the segments of a
message are received in any order, with duplicates and among all that comes from others. -/
namespace Meshx.LowerTransRx

open Lib Segment Replay IvIndex Receiver
open LowerTransTx (NetCall)

/-- The bytes and the length that a call hands up, if the message is of the source. -/
def RxCall.handedFrom (src : BitVec 16) : RxCall → Option (List Byte × ℕ)
  | .upperReceive buf pduLen ctx => if ctx.src = src then some (buf.take pduLen, pduLen) else none
  | .segAck _ _ | .recvBlockAck _ _ => none

/-- What the upper layer has been handed from the source, the last one first. -/
def Rx.handed (s : Rx) (src : BitVec 16) : List (List Byte × ℕ) :=
  s.calls.filterMap (RxCall.handedFrom src)

namespace SegMsg

/-- A control message with opcode zero, which receiving takes for an ack. -/
def IsAck (m : SegMsg) : Prop := m.ctx.ctl = true ∧ m.ctx.opcode.extractLsb' 0 7 = 0

instance (m : SegMsg) : Decidable m.IsAck := inferInstanceAs (Decidable (_ ∧ _))

/-- The event brings the segment of the message. -/
def Brings (m : SegMsg) (i : ℕ) : RxEvent → Prop
  | .receive _ mem len ctx _ => ctx.src = m.ctx.src ∧ m.Reading i mem len
  | _ => False

/-- A segment of the message, sent for the first time or again. -/
def Sent (m : SegMsg) (call : NetCall) : Prop :=
  ∃ blockAck ret calls, m.SentBy blockAck ret calls ∧ call ∈ calls

/-- A segment is received with the IV index that it was sent with. As long as the message is
not complete, the replay list lets the segment through, and the first one finds timers and
memory for a task. -/
def Accepted (m : SegMsg) (s : Rx) : RxEvent → Prop
  | .receive env _ _ ctx ivi =>
    Net.rxIvIndex s.iv.ivIndex ivi = m.ctx.ivIndex ∧
      (s.rx.current m.ctx = none → env.Ready) ∧
      ((∀ id, s.rx.current m.ctx = some id → (s.rx.task id).notReceivedSeg ≠ 0) →
        ∃ rpl, lowerTransRplCheck s.rx.rpl (rplOf (netCtx s.iv ctx ivi)) = .ok (true, rpl))
  | _ => False

instance (m : SegMsg) (s : Rx) : (e : RxEvent) → Decidable (m.Accepted s e)
  | .receive env _ _ ctx ivi =>
    have : Decidable env.Ready := inferInstanceAs (Decidable (_ ∧ _ ∧ _))
    have : Decidable (∀ id, s.rx.current m.ctx = some id → (s.rx.task id).notReceivedSeg ≠ 0) :=
      decidable_of_iff (∀ id ∈ s.rx.current m.ctx, (s.rx.task id).notReceivedSeg ≠ 0) Iff.rfl
    have : Decidable (∃ rpl,
        lowerTransRplCheck s.rx.rpl (rplOf (netCtx s.iv ctx ivi)) = .ok (true, rpl)) :=
      match lowerTransRplCheck s.rx.rpl (rplOf (netCtx s.iv ctx ivi)) with
      | .ok (true, rpl) => .isTrue ⟨rpl, rfl⟩
      | .ok (false, _) => .isFalse (by simp)
      | .error _ => .isFalse (by simp)
    inferInstanceAs (Decidable (_ ∧ _ ∧ _))
  | .ackTimeout _ | .incompleteTimeout _ | .ivUpdate .. | .ivTick _ | .ivTestMode _
  | .ivOperateTime _ | .sendFinished => .isFalse id

/-- An event that is not about the message: a PDU of another source, or any other step except
the timeout of the task that holds the message. -/
def Other (m : SegMsg) (s : Rx) : RxEvent → Prop
  | .receive _ _ _ ctx _ => ctx.src ≠ m.ctx.src
  | .incompleteTimeout id => s.rx.findTask m.ctx.src ≠ some id
  | _ => True

/-- While the message is received, every event is one of its segments or is about others. -/
def Delivers (m : SegMsg) (s : Rx) (e : RxEvent) : Prop :=
  (∃ call, m.Sent call ∧ Carries call e ∧ m.Accepted s e) ∨
    m.Other s e ∧ ∃ s', rxStep s e = .ok s'

end SegMsg

variable {m : SegMsg} {s s' : Rx} {e : RxEvent} {es : List RxEvent} {r r' : Receiver}
  {t₀ : RxTask} {got : Finset ℕ} {id i len : ℕ} {env : RxEnv} {mem : ℕ → Byte} {ctx : MsgCtx}
  {ivi : Bool} {call : NetCall} {ret : Errno} {calls : List RxCall} {src : BitVec 16}

section Frame

theorem handed_append (r' : Receiver) (calls : List RxCall) (src : BitVec 16) :
    Rx.handed { s with rx := r', calls := calls.reverse ++ s.calls } src =
      (calls.filterMap (RxCall.handedFrom src)).reverse ++ s.handed src := by
  rw [Rx.handed, Rx.handed, List.filterMap_append, List.filterMap_reverse]

/-- A PDU hands nothing up from another source. -/
theorem receive_handed (h : r.receive env mem len ctx = .ok (ret, r', calls))
    (hsrc : ctx.src ≠ src) : calls.filterMap (RxCall.handedFrom src) = [] := by
  have hids : ∀ id ∈ calls.filterMap RxCall.msgId, id.1 = ctx.src := by
    rcases receive_delivers h with ⟨hnone, -⟩ | ⟨-, -, hsome⟩
    · simp [hnone]
    · simp [hsome]
  rw [List.filterMap_eq_nil_iff]
  intro call hcall
  cases call with
  | upperReceive buf n c =>
    have hc : c.src = ctx.src := hids (c.src, c.ivIndex, c.seqAuth)
      (List.mem_filterMap.mpr ⟨_, hcall, rfl⟩)
    rw [RxCall.handedFrom, if_neg (hc ▸ hsrc)]
  | segAck blockAck c => rfl
  | recvBlockAck zero blockAck => rfl

theorem receive_step (hs : rxStep s (.receive env mem len ctx ivi) = .ok s') :
    s' = s ∨ ∃ ret r' calls, s.rx.receive env mem len (netCtx s.iv ctx ivi) = .ok (ret, r', calls) ∧
      s' = { s with rx := r', calls := calls.reverse ++ s.calls } := by
  rw [rxStep] at hs
  cases hvalid : !addressIsValid ctx.src || !addressIsValid ctx.dst with
  | true =>
    rw [hvalid, if_pos rfl] at hs
    cases hs
    exact .inl rfl
  | false =>
    rw [hvalid, if_neg Bool.false_ne_true] at hs
    obtain ⟨⟨ret, r', calls⟩, hrx, hret⟩ := bind_ok hs
    cases hret
    exact .inr ⟨ret, r', calls, hrx, rfl⟩

theorem other_handed (ho : m.Other s e) (hs : rxStep s e = .ok s') :
    s'.handed m.ctx.src = s.handed m.ctx.src := by
  cases e with
  | receive env mem len ctx ivi =>
    rcases receive_step hs with rfl | ⟨ret, r', calls, hrx, rfl⟩
    · rfl
    · rw [handed_append, receive_handed hrx ho]
      rfl
  | ackTimeout id => cases hs; rfl
  | incompleteTimeout id =>
    obtain ⟨rx, -, hret⟩ := bind_ok hs
    cases hret
    rfl
  | ivUpdate ivIndex state busy => cases hs; rfl
  | ivTick busy => cases hs; rfl
  | ivTestMode flag => cases hs; rfl
  | ivOperateTime time => cases hs; rfl
  | sendFinished => cases hs; rfl

theorem Receiver.Pool.findTask_self (h : r.Pool) (hid : id ∈ r.active)
    (hsrc : (r.task id).ctx.src = src) : r.findTask src = some id := by
  cases hfind : r.findTask src with
  | none =>
    rw [findTask, List.find?_eq_none] at hfind
    exact absurd (by simpa using hsrc) (hfind id hid)
  | some j =>
    obtain ⟨hj, hsrc'⟩ := findTask_some hfind
    rw [h.src_inj j hj id hid (hsrc'.trans hsrc.symm)]

/-- What is about others leaves the task of the message alone. -/
theorem other_kept (hpool : s.rx.Pool) (hid : id ∈ s.rx.active)
    (hsrc : (s.rx.task id).ctx.src = m.ctx.src) (ho : m.Other s e) (hs : rxStep s e = .ok s') :
    s'.rx.Pool ∧ id ∈ s'.rx.active ∧ s'.rx.task id = s.rx.task id := by
  have hmoved (iv : Iv) (clear : Bool) : (s.ivMoved iv clear).rx.Pool ∧
      id ∈ (s.ivMoved iv clear).rx.active ∧ (s.ivMoved iv clear).rx.task id = s.rx.task id := by
    cases clear
    · exact ⟨hpool, hid, rfl⟩
    · exact ⟨⟨hpool.nodup, hpool.src_inj⟩, hid, rfl⟩
  cases e with
  | receive env mem len ctx ivi =>
    rcases receive_step hs with rfl | ⟨ret, r', calls, hrx, rfl⟩
    · exact ⟨hpool, hid, rfl⟩
    · obtain ⟨hpool', hkept⟩ := hpool.receive hrx
      refine ⟨hpool', hkept id hid fun hfind => ho ?_⟩
      rw [← hsrc, (findTask_some hfind).2]
      rfl
  | ackTimeout j =>
    cases hs
    exact ⟨hpool, hid, rfl⟩
  | incompleteTimeout j =>
    obtain ⟨rx, hrel, hret⟩ := bind_ok hs
    cases hret
    obtain ⟨hmem, rfl⟩ := release_ok hrel
    obtain ⟨hpool', hkept, -⟩ := hpool.released hmem
    refine ⟨hpool', hkept id hid fun hj => ho ?_⟩
    rw [hpool.findTask_self hid hsrc, hj]
  | ivUpdate ivIndex state busy =>
    cases hs
    exact hmoved _ _
  | ivTick busy =>
    cases hs
    exact hmoved _ _
  | ivTestMode flag =>
    cases hs
    exact ⟨hpool, hid, rfl⟩
  | ivOperateTime time =>
    cases hs
    exact ⟨hpool, hid, rfl⟩
  | sendFinished =>
    cases hs
    exact ⟨hpool, hid, rfl⟩

end Frame

section Segments

theorem accessHeader_msb : ∀ (akf : Bool) (aid : BitVec 6),
    (accessHeader true akf aid).msb = true := by decide

theorem ctlHeader_msb : ∀ opcode : BitVec 7, (BitVec.ofBool true ++ opcode).msb = true := by decide

theorem header_msb (ctx : MsgCtx) : (header true ctx).msb = true := by
  rw [header]
  split_ifs
  · exact ctlHeader_msb _
  all_goals exact accessHeader_msb _ _

theorem header_opcode (h : ctx.ctl = true) :
    (header true ctx).extractLsb' 0 7 = ctx.opcode.extractLsb' 0 7 := by
  rw [header, if_pos h]
  exact BitVec.extractLsb'_append_eq_right

theorem receive_segment (hr : m.Reading i mem len) (hctl : ctx.ctl = m.ctx.ctl) :
    r.receive env mem len ctx =
      if m.IsAck then r.receiveUnseg (ackCall mem) ctx else r.receiveSegMsg env mem len ctx := by
  have hack : (ctx.ctl && (mem 0).extractLsb' 0 7 == 0) = true ↔ m.IsAck := by
    rw [hctl, hr.first, Bool.and_eq_true, beq_iff_eq, SegMsg.IsAck]
    exact and_congr_right fun hc => by rw [header_opcode hc]
  rw [Receiver.receive, hr.first, header_msb, if_pos rfl, ← hr.first]
  exact if_congr hack rfl rfl

/-- An event that brings a segment of the message, read as it stands in the memory. -/
theorem delivered_segment (hsent : m.Sent call) (hcarries : Carries call e)
    (haccepted : m.Accepted s e) : ∃ env mem len ctx ivi i, e = .receive env mem len ctx ivi ∧
      m.Reading i mem len ∧ (netCtx s.iv ctx ivi).ctl = m.ctx.ctl ∧
      m.Reads (segCtx mem (netCtx s.iv ctx ivi)) ∧
      rxStep s e = (do
        let (_, rx, calls) ← s.rx.receive env mem len (netCtx s.iv ctx ivi)
        return { s with rx := rx, calls := calls.reverse ++ s.calls }) := by
  obtain ⟨blockAck, ret, calls, hsentBy, hcall⟩ := hsent
  obtain ⟨i, hseg⟩ := hsentBy.segments.1 call hcall
  cases e with
  | receive env mem len ctx ivi =>
    obtain ⟨hmem, hsrc, hdst, hctl, hseq⟩ := hcarries
    rw [hseg.ctx] at hsrc hdst hctl
    have hr := hseg.reading hmem
    refine ⟨env, mem, len, ctx, ivi, i, rfl, hr, hctl,
      hr.reads hsrc hctl haccepted.1 (by rw [netCtx]; exact hseq ▸ hseg.valid), ?_⟩
    have hvalid : (!addressIsValid ctx.src || !addressIsValid ctx.dst) = false := by
      rw [hsrc, hdst, m.src_valid, m.dst_valid]
      rfl
    rw [rxStep, hvalid, if_neg Bool.false_ne_true]
  | _ => exact hcarries.elim

end Segments

/-- The task has the message, of which segments are missing. A message of one segment is
complete with its first one. -/
structure Rx.Collecting (s : Rx) (m : SegMsg) (t₀ : RxTask) (got : Finset ℕ) (id : ℕ) : Prop where
  pool : s.rx.Pool
  active : id ∈ s.rx.active
  task : (s.rx.task id).Collects m t₀ got
  missing : (s.rx.task id).notReceivedSeg ≠ 0
  many : m.num ≠ 1

structure Rx.Done (s : Rx) (m : SegMsg) (id : ℕ) : Prop where
  pool : s.rx.Pool
  active : id ∈ s.rx.active
  task : (s.rx.task id).Finished m

/-- The task lets the message come to its end: it has one segment, or the task was clean. -/
def SegMsg.Completes (m : SegMsg) (t₀ : RxTask) : Prop := m.num = 1 ∨ t₀.Clean (m.num - 1)

/-- What a segment leads to: it is stored, or it completes the message, which is handed up. -/
def Rx.Stores (s s' : Rx) (m : SegMsg) (t₀ : RxTask) (got : Finset ℕ) (id : ℕ) : Prop :=
  (s'.Collecting m t₀ got id ∧ s'.handed m.ctx.src = s.handed m.ctx.src) ∨
    s'.Done m id ∧ m.Completes t₀ ∧ ∃ buf : List Byte, buf.take m.data.length = m.data ∧
      s'.handed m.ctx.src = (buf.take (m.handedLen t₀), m.handedLen t₀) :: s.handed m.ctx.src

section Step

theorem Receiver.Pool.current_self (h : r.Pool) (hid : id ∈ r.active)
    (hreads : m.Reads (r.task id).ctx) (hsrc : ctx.src = m.ctx.src)
    (hseq : lowerTransSeqAuth ctx = lowerTransSeqAuth m.ctx) : r.current ctx = some id := by
  rw [current, h.findTask_self hid (hreads.src.trans hsrc.symm)]
  simp [hreads.seqAuth_eq, hseq]

theorem handed_upper (hreads : m.Reads ctx) (blockAck : BitVec 32) (buf : List Byte) (n : ℕ) :
    [RxCall.segAck blockAck ctx, .upperReceive buf n { ctx with seg := true }].filterMap
      (RxCall.handedFrom m.ctx.src) = [(buf.take n, n)] := by
  have hsrc : RxCall.handedFrom m.ctx.src (.upperReceive buf n { ctx with seg := true }) =
      some (buf.take n, n) := if_pos hreads.src
  rw [List.filterMap_cons_none rfl, List.filterMap_cons_some hsrc, List.filterMap_nil]

/-- A segment that the task of its message receives while others are missing. -/
theorem receiveFor_stores (hpool : r.Pool) (hid : id ∈ r.active)
    (hc : (r.task id).Collects m t₀ got) (hne : (r.task id).notReceivedSeg ≠ 0)
    (hmany : i ∈ got → m.num ≠ 1) (hr : m.Reading i mem len) (hreads : m.Reads ctx) {rpl : Rpl}
    (hcheck : lowerTransRplCheck r.rpl (rplOf ctx) = .ok (true, rpl)) :
    ∃ ret r' calls, r.receiveFor id mem len ctx = .ok (ret, r', calls) ∧
      s.Stores { s with rx := r', calls := calls.reverse ++ s.calls } m t₀ (insert i got) id := by
  by_cases hi : i ∈ got
  · have hrun := receiveFor_again hc hr hreads hi hne
    refine ⟨_, _, _, hrun, .inl ⟨⟨hpool, hid, ?_, hne, hmany hi⟩, rfl⟩⟩
    rw [Finset.insert_eq_of_mem hi]
    exact hc
  by_cases hone : m.num = 1
  · obtain ⟨r', buf, hrun, hactive, hdone, htake⟩ := receiveFor_single hc hr hreads hi hone hcheck
    obtain ⟨hpool', -⟩ := receiveFor_task hpool hid hrun
    refine ⟨_, _, _, hrun, .inr ⟨⟨hpool', hactive ▸ hid, hdone⟩, .inl hone, buf, htake, ?_⟩⟩
    rw [handed_append, handed_upper hreads, SegMsg.handedLen, if_pos hone]
    rfl
  · rcases receiveFor_part hc hr hreads hi hone hcheck with
      ⟨r', hrun, hactive, hc', hne'⟩ | ⟨r', blockAck, buf, hrun, hactive, hdone, hclean, htake⟩
    · obtain ⟨hpool', -⟩ := receiveFor_task hpool hid hrun
      exact ⟨_, _, _, hrun, .inl ⟨⟨hpool', hactive ▸ hid, hc', hne', hone⟩, rfl⟩⟩
    · obtain ⟨hpool', -⟩ := receiveFor_task hpool hid hrun
      refine ⟨_, _, _, hrun, .inr ⟨⟨hpool', hactive ▸ hid, hdone⟩, .inr hclean, buf, htake, ?_⟩⟩
      rw [handed_append, handed_upper hreads, SegMsg.handedLen, if_neg hone]
      rfl

theorem segment_stores {r₁ : Receiver} (hack : ¬ m.IsAck) (hr : m.Reading i mem len)
    (hctl : ctx.ctl = m.ctx.ctl) (hreads : m.Reads (segCtx mem ctx))
    (hreq : s.rx.request env (rxMaxPduLen mem ctx.ctl) (segCtx mem ctx) = (r₁, some id))
    (hpool : r₁.Pool) (hid : id ∈ r₁.active) (hc : (r₁.task id).Collects m t₀ got)
    (hne : (r₁.task id).notReceivedSeg ≠ 0) (hmany : i ∈ got → m.num ≠ 1) {rpl : Rpl}
    (hcheck : lowerTransRplCheck r₁.rpl (rplOf ctx) = .ok (true, rpl)) :
    ∃ ret r' calls, s.rx.receive env mem len ctx = .ok (ret, r', calls) ∧
      s.Stores { s with rx := r', calls := calls.reverse ++ s.calls } m t₀ (insert i got) id := by
  rw [receive_segment hr hctl, if_neg hack, receiveSegMsg]
  have hctl' : (segCtx mem ctx).ctl = ctx.ctl := rfl
  simp only [hctl', hreq]
  exact receiveFor_stores hpool hid hc hne hmany hr hreads hcheck

theorem SegMsg.Reading.index_eq {j : ℕ} (h : m.Reading i mem len) (h' : m.Reading j mem len) :
    i = j := h.sego.symm.trans h'.sego

/-- A segment that comes while others are missing. -/
theorem collecting_step (h : s.Collecting m t₀ got id) (hack : ¬ m.IsAck) (hsent : m.Sent call)
    (hcarries : Carries call e) (haccepted : m.Accepted s e) :
    ∃ i s', m.Brings i e ∧ rxStep s e = .ok s' ∧ s.Stores s' m t₀ (insert i got) id := by
  obtain ⟨env, mem, len, ctx, ivi, i, rfl, hr, hctl, hreads, hstep⟩ :=
    delivered_segment hsent hcarries haccepted
  have hcur : s.rx.current (segCtx mem (netCtx s.iv ctx ivi)) = some id :=
    h.pool.current_self h.active h.task.reads hreads.src hreads.seqAuth_eq
  have hcur' : s.rx.current m.ctx = some id := h.pool.current_self h.active h.task.reads rfl rfl
  obtain ⟨rpl, hcheck⟩ := haccepted.2.2 fun j hj => by
    obtain rfl := Option.some.inj (hcur'.symm.trans hj)
    exact h.missing
  obtain ⟨ret, r', calls, hrun, hstores⟩ := segment_stores hack hr hctl hreads
    (request_of_current hcur) h.pool h.active h.task h.missing (fun _ => h.many) hcheck
  refine ⟨i, _, ⟨hreads.src, hr⟩, ?_, hstores⟩
  rw [hstep, hrun]
  rfl

/-- The first segment of a message fills the task that is free for it. -/
theorem fresh_step (hpool : s.rx.Pool) (hfree : s.rx.reused m.ctx = some id) (hack : ¬ m.IsAck)
    (hsent : m.Sent call) (hcarries : Carries call e) (haccepted : m.Accepted s e) :
    ∃ i s', m.Brings i e ∧ rxStep s e = .ok s' ∧ s.Stores s' m (s.rx.task id) {i} id := by
  obtain ⟨env, mem, len, ctx, ivi, i, rfl, hr, hctl, hreads, hstep⟩ :=
    delivered_segment hsent hcarries haccepted
  have hnone : s.rx.current m.ctx = none := by
    rw [Option.eq_none_iff_forall_ne_some]
    intro j hj
    rw [reused_of_current hj] at hfree
    cases hfree
  have henv := haccepted.2.1 hnone
  obtain ⟨rpl, hcheck⟩ := haccepted.2.2 fun j hj => by rw [hnone] at hj; cases hj
  have hfree' : s.rx.reused (segCtx mem (netCtx s.iv ctx ivi)) = some id := by
    rw [← hfree, reused, reused, hreads.src, hreads.seqAuth_eq]
  have hgranted :=
    @request_of_reused _ _ _ env (rxMaxPduLen mem (netCtx s.iv ctx ivi).ctl) henv hfree'
  rcases hreq : s.rx.request env (rxMaxPduLen mem (netCtx s.iv ctx ivi).ctl)
    (segCtx mem (netCtx s.iv ctx ivi)) with ⟨r₁, out⟩
  rw [hreq] at hgranted
  obtain rfl : out = some id := hgranted
  obtain ⟨⟨hpool₁, hid, -, hrpl⟩, hcase⟩ := hpool.granted hreq
  rcases hcase with ⟨hcur, -⟩ | ⟨-, -, t, hmissing, hlen, htask⟩
  · rw [reused_of_current hcur] at hfree'
    cases hfree'
  have hc : (r₁.task id).Collects m (s.rx.task id) ∅ := by
    rw [htask]
    exact fillTask_collects hr hreads hmissing hlen
  have hne : (r₁.task id).notReceivedSeg ≠ 0 := fun h0 => by
    have hall := (hc.missing_eq_zero.mp h0).1
    have hmem : 0 ∈ Finset.range m.num := Finset.mem_range.mpr m.num_spec.1
    rw [← hall] at hmem
    exact absurd hmem (Finset.notMem_empty 0)
  obtain ⟨ret, r', calls, hrun, hstores⟩ := segment_stores hack hr hctl hreads hreq hpool₁ hid hc
    hne (fun hi => absurd hi (Finset.notMem_empty i)) (hrpl ▸ hcheck)
  refine ⟨i, _, ⟨hreads.src, hr⟩, ?_, hstores⟩
  rw [hstep, hrun]
  rfl

theorem receiveFor_finished (hc : (r.task id).Finished m) (hr : m.Reading i mem len)
    (hreads : m.Reads ctx) (h : r.receiveFor id mem len ctx = .ok (ret, r', calls)) :
    ∃ rpl blockAck, r' = { r with rpl := rpl } ∧ calls = [.segAck blockAck ctx] := by
  rcases receiveFor_cases h with ⟨hm | hmax, -, -⟩ | ⟨-, -, hcases⟩
  · rw [hc.reads.agree hreads] at hm
    cases hm
  · rw [hc.maxPduLen, hreads.ctl, hr.maxPduLen] at hmax
    exact absurd rfl hmax
  rcases hcases with ⟨-, err, rpl, -, rfl, rfl⟩ | ⟨hne, -⟩ | ⟨hbit, -⟩
  · exact ⟨rpl, _, rfl, rfl⟩
  · exact absurd hc.missing hne
  · rw [hc.missing] at hbit
    exact absurd BitVec.zero_and hbit

/-- What comes after the message is complete hands nothing up from its source. -/
theorem done_step (h : s.Done m id) (hack : ¬ m.IsAck) (hd : m.Delivers s e)
    (hs : rxStep s e = .ok s') :
    s'.Done m id ∧ s'.handed m.ctx.src = s.handed m.ctx.src := by
  rcases hd with ⟨call, hsent, hcarries, haccepted⟩ | ⟨ho, -⟩
  · obtain ⟨env, mem, len, ctx, ivi, i, rfl, hr, hctl, hreads, hstep⟩ :=
      delivered_segment hsent hcarries haccepted
    have hcur : s.rx.current (segCtx mem (netCtx s.iv ctx ivi)) = some id :=
      h.pool.current_self h.active h.task.reads hreads.src hreads.seqAuth_eq
    rw [hstep] at hs
    obtain ⟨⟨ret, r', calls⟩, hrun, hret⟩ := bind_ok hs
    cases hret
    rw [receive_segment hr hctl, if_neg hack] at hrun
    rcases receiveSegMsg_cases hrun with ⟨hreq, -⟩ | ⟨r₁, j, hreq, hfor⟩
    · rw [request_of_current hcur] at hreq
      cases hreq
    · rw [request_of_current hcur] at hreq
      cases hreq
      obtain ⟨rpl, blockAck, rfl, rfl⟩ := receiveFor_finished h.task hr hreads hfor
      exact ⟨⟨⟨h.pool.nodup, h.pool.src_inj⟩, h.active, h.task⟩, rfl⟩
  · obtain ⟨hpool, hid, htask⟩ := other_kept h.pool h.active h.task.reads.src ho hs
    exact ⟨⟨hpool, hid, htask ▸ h.task⟩, other_handed ho hs⟩

end Step

section Runs

theorem done_run (h : s.Done m id) (hack : ¬ m.IsAck) (hall : RunAll rxStep m.Delivers s es) :
    (lastState rxStep s es).handed m.ctx.src = s.handed m.ctx.src := by
  induction es generalizing s with
  | nil => rfl
  | cons e es ih =>
    cases hs : rxStep s e with
    | error f => rw [lastState_of_error hs]
    | ok s' =>
      obtain ⟨h', hhanded⟩ := done_step h hack hall.1 hs
      rw [lastState_of_ok hs, ih h' (hall.2 s' hs), hhanded]

/-- A message comes to its end or not: between the two states it has been handed up once, or not
at all. -/
def SegMsg.Ends (m : SegMsg) (t₀ : RxTask) (s s' : Rx) : Prop :=
  (m.Completes t₀ ∧ ∃ buf : List Byte, buf.take m.data.length = m.data ∧
      s'.handed m.ctx.src = (buf.take (m.handedLen t₀), m.handedLen t₀) :: s.handed m.ctx.src) ∨
    ¬ m.Completes t₀ ∧ s'.handed m.ctx.src = s.handed m.ctx.src

theorem SegMsg.Ends.of_handed {s₁ : Rx} (h : m.Ends t₀ s₁ s')
    (hs : s₁.handed m.ctx.src = s.handed m.ctx.src) : m.Ends t₀ s s' := by
  rw [SegMsg.Ends, hs] at h
  exact h

theorem SegMsg.Segment.brings (h : m.Segment i call) (hcarries : Carries call e) :
    m.Brings i e := by
  cases e with
  | receive env mem len ctx ivi =>
    refine ⟨?_, h.reading hcarries.1⟩
    rw [hcarries.2.1, h.ctx]
  | _ => exact hcarries.elim

theorem brings_index {j : ℕ} (h : m.Brings i e) (h' : m.Brings j e) : i = j := by
  cases e with
  | receive env mem len ctx ivi => exact h.2.index_eq h'.2
  | _ => exact h.elim

theorem other_not_brings (h : m.Other s e) : ¬ m.Brings i e := by
  cases e with
  | receive env mem len ctx ivi => exact fun hb => h hb.1
  | _ => exact id

/-- A segment has been stored: what holds of the rest of the run if the message still misses
segments holds of the whole. -/
theorem stores_run (hs : rxStep s e = .ok s') (hbrings : m.Brings i e)
    (hstores : s.Stores s' m t₀ (insert i got) id) (hack : ¬ m.IsAck)
    (hall : RunAll rxStep m.Delivers s' es)
    (hevery : ∀ j < m.num, j ∈ got ∨ ∃ d ∈ e :: es, m.Brings j d)
    (hrest : s'.Collecting m t₀ (insert i got) id →
      (∀ j < m.num, j ∈ insert i got ∨ ∃ d ∈ es, m.Brings j d) →
      m.Ends t₀ s' (lastState rxStep s' es)) :
    m.Ends t₀ s (lastState rxStep s (e :: es)) := by
  rw [lastState_of_ok hs]
  rcases hstores with ⟨hc, hsame⟩ | ⟨hdone, hcomplete, buf, htake, hhanded⟩
  · refine (hrest hc fun j hj => ?_).of_handed hsame
    rcases hevery j hj with hgot | ⟨d, hd, hb⟩
    · exact .inl (Finset.mem_insert_of_mem hgot)
    · rcases List.mem_cons.mp hd with rfl | hd
      · exact .inl (Finset.mem_insert.mpr (.inl (brings_index hb hbrings)))
      · exact .inr ⟨d, hd, hb⟩
  · exact .inl ⟨hcomplete, buf, htake, (done_run hdone hack hall).trans hhanded⟩

/-- A message whose segments all arrive comes to its end if the task lets it. -/
theorem collecting_run (h : s.Collecting m t₀ got id) (hack : ¬ m.IsAck)
    (hall : RunAll rxStep m.Delivers s es)
    (hevery : ∀ i < m.num, i ∈ got ∨ ∃ d ∈ es, m.Brings i d) :
    m.Ends t₀ s (lastState rxStep s es) := by
  induction es generalizing s got with
  | nil =>
    refine .inr ⟨?_, rfl⟩
    rintro (hone | hclean)
    · exact h.many hone
    · refine h.missing (h.task.missing_eq_zero.mpr ⟨Finset.ext fun j => ?_, hclean⟩)
      rw [Finset.mem_range]
      exact ⟨h.task.got_lt j, fun hj => (hevery j hj).resolve_right (by simp)⟩
  | cons e es ih =>
    rcases hall.1 with ⟨call, hsent, hcarries, haccepted⟩ | ⟨ho, s', hs⟩
    · obtain ⟨i, s', hbrings, hs, hstores⟩ := collecting_step h hack hsent hcarries haccepted
      exact stores_run hs hbrings hstores hack (hall.2 s' hs) hevery fun hc => ih hc (hall.2 s' hs)
    · obtain ⟨hpool, hid, htask⟩ := other_kept h.pool h.active h.task.reads.src ho hs
      rw [lastState_of_ok hs]
      refine (ih ⟨hpool, hid, htask ▸ h.task, htask ▸ h.missing, h.many⟩ (hall.2 s' hs)
        fun j hj => (hevery j hj).imp_right ?_).of_handed (other_handed ho hs)
      rintro ⟨d, hd, hb⟩
      rcases List.mem_cons.mp hd with rfl | hd
      · exact absurd hb (other_not_brings ho)
      · exact ⟨d, hd, hb⟩

/-- A message that is taken for an ack is not handed up. -/
theorem ack_run (hack : m.IsAck) (hall : RunAll rxStep m.Delivers s es) :
    (lastState rxStep s es).handed m.ctx.src = s.handed m.ctx.src := by
  induction es generalizing s with
  | nil => rfl
  | cons e es ih =>
    cases hs : rxStep s e with
    | error f => rw [lastState_of_error hs]
    | ok s' =>
      rw [lastState_of_ok hs, ih (hall.2 s' hs)]
      rcases hall.1 with ⟨call, hsent, hcarries, haccepted⟩ | ⟨ho, -⟩
      · obtain ⟨env, mem, len, ctx, ivi, i, rfl, hr, hctl, -, hstep⟩ :=
          delivered_segment hsent hcarries haccepted
        rw [hstep] at hs
        obtain ⟨⟨ret, r', calls⟩, hrun, hret⟩ := bind_ok hs
        cases hret
        rw [receive_segment hr hctl, if_pos hack] at hrun
        obtain ⟨ok, rpl, -, -, rfl⟩ := receiveUnseg_cases hrun
        rw [handed_append]
        cases ok <;> rfl
      · exact other_handed ho hs

theorem rxStep_pool (h : s.rx.Pool) (hs : rxStep s e = .ok s') : s'.rx.Pool := by
  have hmoved (iv : Iv) (clear : Bool) : (s.ivMoved iv clear).rx.Pool := by
    cases clear
    · exact h
    · exact ⟨h.nodup, h.src_inj⟩
  cases e with
  | receive env mem len ctx ivi =>
    rcases receive_step hs with rfl | ⟨ret, r', calls, hrx, rfl⟩
    · exact h
    · exact (h.receive hrx).1
  | incompleteTimeout j =>
    obtain ⟨rx, hrel, hret⟩ := bind_ok hs
    cases hret
    obtain ⟨hmem, rfl⟩ := release_ok hrel
    exact (h.released hmem).1
  | ivUpdate ivIndex state busy =>
    cases hs
    exact hmoved _ _
  | ivTick busy =>
    cases hs
    exact hmoved _ _
  | _ =>
    cases hs
    exact h

end Runs

theorem SegMsg.handedLen_eq : m.handedLen t₀ = m.data.length ↔
    m.num = 1 ∨ t₀.pduLen % 65536 = 0 := by
  have hlt : m.data.length < 65536 := by
    have hle := m.length_le
    have hsize := segSize_lt m.ctx.ctl
    unfold maxSegSize at hle
    omega
  rw [SegMsg.handedLen]
  split_ifs with hone
  · simp [hone]
  · rw [or_iff_right hone]
    omega

/-- What the upper layer is handed when the message comes to its end is the message, exactly if
the task was fit for it. -/
theorem SegMsg.Ends.handed_iff (h : m.Ends t₀ s s') :
    s'.handed m.ctx.src = (m.data, m.data.length) :: s.handed m.ctx.src ↔
      m.num = 1 ∨ t₀.Clean (m.num - 1) ∧ t₀.pduLen % 65536 = 0 := by
  rw [or_and_left, ← SegMsg.handedLen_eq]
  rcases h with ⟨hcomplete, buf, htake, hhanded⟩ | ⟨hnot, hhanded⟩
  · change m.num = 1 ∨ t₀.Clean (m.num - 1) at hcomplete
    rw [hhanded, and_iff_right hcomplete, List.cons_eq_cons, and_iff_left rfl, Prod.mk.injEq]
    exact and_iff_right_of_imp fun hlen => by rw [hlen, htake]
  · rw [hhanded]
    exact iff_of_false (List.cons_ne_self _ _).symm fun hc => hnot hc.1

/-- After any run, a message for which a task is free and the segments of which are received in
any order, with duplicates and among whatever comes from others: the upper layer is handed its
bytes and its length, and nothing else from its source, exactly if the message has one segment
or the task has no length and no missing segment left from the message before, and receiving
does not take the message for an ack. -/
theorem reassembled_iff (rplSize taskNum : ℕ) (ivIndex : BitVec 32) (es₀ : List RxEvent) (s : Rx)
    (hrun : run rxStep (Rx.init rplSize taskNum ivIndex) es₀ = .ok s) (m : SegMsg)
    (calls : List NetCall) (hsent : m.SentBy 0 .success calls) (id : ℕ)
    (hfree : s.rx.reused m.ctx = some id) (e : RxEvent) (es : List RxEvent)
    (hfirst : ∃ call, m.Sent call ∧ Carries call e)
    (hevery : ∀ call ∈ calls, ∃ d ∈ e :: es, Carries call d)
    (hall : RunAll rxStep m.Delivers s (e :: es)) :
    (lastState rxStep s (e :: es)).handed m.ctx.src =
        (m.data, m.data.length) :: s.handed m.ctx.src ↔
      (m.num = 1 ∨ (s.rx.task id).Clean (m.num - 1) ∧ (s.rx.task id).pduLen % 65536 = 0) ∧
        ¬ m.IsAck := by
  have hpool : s.rx.Pool := @run_invariant _ _ _ rxStep (fun s => s.rx.Pool) _ _ es₀
    (fun _ _ _ h hs => rxStep_pool h hs) (init_allWhole rplSize taskNum ivIndex).pool hrun
  by_cases hack : m.IsAck
  · rw [ack_run hack hall]
    exact iff_of_false (List.cons_ne_self _ _).symm fun h => h.2 hack
  rw [and_iff_left hack]
  refine SegMsg.Ends.handed_iff ?_
  obtain ⟨hall₁, hrest⟩ := hall
  rcases hall₁ with ⟨call, hcall, hcarries, haccepted⟩ | ⟨ho, -⟩
  · obtain ⟨i, s', hbrings, hs, hstores⟩ := fresh_step hpool hfree hack hcall hcarries haccepted
    have hevery' : ∀ j < m.num, j ∈ (∅ : Finset ℕ) ∨ ∃ d ∈ e :: es, m.Brings j d := by
      intro j hj
      obtain ⟨c, hc, hseg⟩ := hsent.segments.2 rfl rfl j hj
      obtain ⟨d, hd, hcd⟩ := hevery c hc
      exact .inr ⟨d, hd, hseg.brings hcd⟩
    exact stores_run hs hbrings hstores hack (hrest s' hs) hevery' fun hc hleft =>
      collecting_run hc hack (hrest s' hs) hleft
  · obtain ⟨call, ⟨blockAck, ret, sent, hsentBy, hmem⟩, hcarries⟩ := hfirst
    obtain ⟨i, hseg⟩ := hsentBy.segments.1 call hmem
    exact absurd (hseg.brings hcarries) (other_not_brings ho)

/-- A run that brings segments of the message only. -/
theorem RunAll.delivers {blockAck : BitVec 32} {sent : List NetCall}
    (hsent : m.SentBy blockAck ret sent) (hcarried : ∀ d ∈ es, ∃ call ∈ sent, Carries call d)
    (h : RunAll rxStep m.Accepted s es) : RunAll rxStep m.Delivers s es := by
  refine h.imp_of_mem fun u d hd haccepted => ?_
  obtain ⟨call, hcall, hcarries⟩ := hcarried d hd
  exact .inl ⟨call, ⟨blockAck, ret, sent, hsent, hcall⟩, hcarries, haccepted⟩

/-- A message of two segments from the element 2 to the element 1. -/
def twoParts : SegMsg where
  ctx := { MsgCtx.zero with src := 2, dst := 1, seqAuth := 3 }
  data := List.replicate 13 5
  src_valid := rfl
  dst_valid := rfl
  nonempty := Nat.succ_pos 12
  length_le := Nat.le_of_ble_eq_true rfl

def partCall (i : ℕ) (seq : BitVec 24) : NetCall :=
  ⟨{ twoParts.ctx with seq := seq },
    LowerTransTx.segPdu twoParts.ctx (LowerTransTx.segMisc twoParts.ctx 2 i 0) (twoParts.part i)⟩

/-- Its segments as they are received: the last one first, and that one twice. -/
def shuffledParts : List RxEvent :=
  [plainPdu (partCall 1 4).pdu 4, plainPdu (partCall 1 4).pdu 4, plainPdu (partCall 0 3).pdu 3]

theorem twoParts_sentBy : twoParts.SentBy 0 .success [partCall 1 4, partCall 0 3] := by
  let s : LowerTransTx.Sender := { LowerTransTx.Sender.init 1 1 0 with seqArray := [3] }
  obtain ⟨⟨ret, ctx', s'⟩, hsend, hobs⟩ : ∃ out, LowerTransTx.sendSegMsg ⟨2, 5, 3⟩
      (some twoParts.data) 13 0 0 { twoParts.ctx with seq := 0 } s = .ok out ∧
      (out.1, out.2.2.sent) = (.success, [partCall 1 4, partCall 0 3]) :=
    observe (by decide +kernel)
  obtain ⟨rfl, hcalls⟩ := Prod.mk.inj hobs
  exact ⟨_, 0, 0, ctx', s, s', hsend, by rw [hcalls]; rfl⟩

theorem carries_last : Carries (partCall 1 4) (plainPdu (partCall 1 4).pdu 4) :=
  ⟨by decide +kernel, rfl, rfl, rfl, rfl⟩

theorem carries_first : Carries (partCall 0 3) (plainPdu (partCall 0 3).pdu 3) :=
  ⟨by decide +kernel, rfl, rfl, rfl, rfl⟩

theorem shuffled_carried : ∀ d ∈ shuffledParts, ∃ call ∈ [partCall 1 4, partCall 0 3],
    Carries call d := by
  have hlast : partCall 1 4 ∈ [partCall 1 4, partCall 0 3] := List.mem_cons_self
  have hfirst : partCall 0 3 ∈ [partCall 1 4, partCall 0 3] :=
    List.mem_cons_of_mem _ List.mem_cons_self
  intro d hd
  rcases List.mem_cons.mp hd with rfl | hd
  · exact ⟨_, hlast, carries_last⟩
  rcases List.mem_cons.mp hd with rfl | hd
  · exact ⟨_, hlast, carries_last⟩
  · obtain rfl := List.mem_singleton.mp hd
    exact ⟨_, hfirst, carries_first⟩

theorem parts_delivered : ∀ call ∈ [partCall 1 4, partCall 0 3], ∃ d ∈ shuffledParts,
    Carries call d := by
  intro call hcall
  rcases List.mem_cons.mp hcall with rfl | hcall
  · exact ⟨_, List.mem_cons_self, carries_last⟩
  · obtain rfl := List.mem_singleton.mp hcall
    exact ⟨_, List.mem_cons_of_mem _ (List.mem_cons_of_mem _ (List.mem_singleton_self _)),
      carries_first⟩

theorem reassembled_example : (lastState rxStep (Rx.init 8 1 0) shuffledParts).handed 2 =
    [(List.replicate 13 5, 13)] := by
  have hall : RunAll rxStep twoParts.Delivers (Rx.init 8 1 0) shuffledParts :=
    RunAll.delivers twoParts_sentBy shuffled_carried (by decide +kernel)
  have hclean : RxTask.zero.Clean 1 := fun j _ hstale => by simp [RxTask.zero] at hstale
  exact (reassembled_iff 8 1 0 [] (Rx.init 8 1 0) rfl twoParts _ twoParts_sentBy 0 rfl _ _
    ⟨_, ⟨_, _, _, twoParts_sentBy, List.mem_cons_self⟩, carries_last⟩ parts_delivered hall).mpr
    ⟨.inr ⟨hclean, rfl⟩, by decide⟩

/-- An older message of two segments from the same element. -/
def olderParts : List RxEvent :=
  [plainPdu ([0x80, 0x00, 0x04, 0x21] ++ [7]) 1,
    plainPdu ([0x80, 0x00, 0x04, 0x01] ++ List.replicate 12 7) 2]

/-- The task of a message that was complete is used again for the next one. Its length of 13
stays, and the next message is handed up with a length of 26, past the end of its memory. -/
theorem reassembled_longer : ∃ s, run rxStep (Rx.init 8 1 0) olderParts = .ok s ∧
    s.rx.reused twoParts.ctx = some 0 ∧ twoParts.SentBy 0 .success [partCall 1 4, partCall 0 3] ∧
    (∀ call ∈ [partCall 1 4, partCall 0 3], ∃ d ∈ shuffledParts, Carries call d) ∧
    RunAll rxStep twoParts.Delivers s shuffledParts ∧
    (lastState rxStep s shuffledParts).handed 2 ≠ (twoParts.data, 13) :: s.handed 2 := by
  obtain ⟨s, hrun, hobs⟩ : ∃ s, run rxStep (Rx.init 8 1 0) olderParts = .ok s ∧
      (s.rx.reused twoParts.ctx, decide (RunAll rxStep twoParts.Accepted s shuffledParts),
        (lastState rxStep s shuffledParts).handed 2) =
      (some 0, true,
        [(List.replicate 13 5 ++ List.replicate 11 0, 26), (List.replicate 13 7, 13)]) :=
    observe (by decide +kernel)
  obtain ⟨hfree, hrest⟩ := Prod.mk.inj hobs
  obtain ⟨hacc, hhanded⟩ := Prod.mk.inj hrest
  refine ⟨s, hrun, hfree, twoParts_sentBy, parts_delivered,
    RunAll.delivers twoParts_sentBy shuffled_carried (of_decide_eq_true hacc), ?_⟩
  rw [hhanded]
  intro h
  exact absurd (Prod.mk.inj (List.cons.inj h).1).2 (by decide)

end Meshx.LowerTransRx
