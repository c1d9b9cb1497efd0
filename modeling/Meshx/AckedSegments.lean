import Meshx.RxReassembly

/-! What a segment acknowledgement of the receiving side stands for: the segments that it names
are stored, and one that names every segment is sent only for a message that has been handed to
the upper layer. -/
namespace Meshx.LowerTransRx

open Lib Segment Replay IvIndex Receiver
open LowerTransTx (NetCall)

/-- The message of a context, by its source, IV index and SeqAuth. -/
def SegMsg.Names (m : SegMsg) (ctx : MsgCtx) : Prop :=
  ctx.src = m.ctx.src ∧ lowerTransSeqAuth ctx = lowerTransSeqAuth m.ctx

instance (m : SegMsg) (ctx : MsgCtx) : Decidable (m.Names ctx) :=
  inferInstanceAs (Decidable (_ ∧ _))

/-- The mask of an acknowledgement that leaves no segment out. -/
def SegMsg.allBits (m : SegMsg) : BitVec 32 := setBits 0 m.num

/-- The calls hand the bytes of the message to the upper layer. -/
def SegMsg.Hands (m : SegMsg) (calls : List RxCall) : Prop :=
  ∃ buf n ctx, .upperReceive buf n ctx ∈ calls ∧ m.Reads ctx ∧ buf.take m.data.length = m.data

def Rx.HandedUp (s : Rx) (m : SegMsg) : Prop := m.Hands s.calls

/-- The source sends nothing else under the number of the message, a task that is taken for the
message has no segment left that the message does not have, and an ack timer expires only for a
task that is in use. -/
def SegMsg.Fair (m : SegMsg) (s : Rx) : RxEvent → Prop
  | .receive env mem len ctx ivi =>
    (mem 0).msb = true → m.Names (segCtx mem (netCtx s.iv ctx ivi)) →
      Net.rxIvIndex s.iv.ivIndex ivi = m.ctx.ivIndex ∧
      (∃ i call, m.Segment i call ∧ Carries call (.receive env mem len ctx ivi)) ∧
      ∀ id, s.rx.reused m.ctx = some id → (s.rx.task id).Clean (m.num - 1)
  | .ackTimeout id => id ∈ s.rx.active
  | _ => True

/-- The task has the message and misses some of its segments. Those that are stored are the
ones of its mask. -/
structure RxTask.Receiving (t : RxTask) (m : SegMsg) : Prop where
  collects : ∃ t₀ got, t₀.Clean (m.num - 1) ∧ t.Collects m t₀ got ∧
    ∀ j < 32, t.blockAck.getLsbD j = decide (j ∈ got)
  missing : t.notReceivedSeg ≠ 0

/-- Every task of the message receives it or has it whole, and acknowledgements of all its
segments come after it has been handed up. -/
structure Rx.Sound (s : Rx) (m : SegMsg) : Prop where
  pool : s.rx.Pool
  task : ∀ id ∈ s.rx.active, m.Names (s.rx.task id).ctx →
    (s.rx.task id).Receiving m ∨ (s.rx.task id).Finished m ∧ s.HandedUp m
  acks : ∀ ctx, .segAck m.allBits ctx ∈ s.calls → m.Names ctx → s.HandedUp m

variable {m : SegMsg} {s s' : Rx} {e : RxEvent} {es : List RxEvent} {r r' : Receiver} {t : RxTask}
  {id i len : ℕ} {env : RxEnv} {mem : ℕ → Byte} {ctx : MsgCtx} {ivi : Bool} {ret : Errno}
  {calls : List RxCall} {blockAck : BitVec 32}

section Messages

theorem SegMsg.Reads.names (h : m.Reads ctx) : m.Names ctx := ⟨h.src, h.seqAuth_eq⟩

theorem SegMsg.Names.congr {ctx' : MsgCtx} (h : m.Names ctx) (hsrc : ctx'.src = ctx.src)
    (hseq : lowerTransSeqAuth ctx' = lowerTransSeqAuth ctx) : m.Names ctx' :=
  ⟨hsrc.trans h.1, hseq.trans h.2⟩

variable (m) in
theorem SegMsg.allBits_getLsbD {j : ℕ} (hj : j < 32) :
    m.allBits.getLsbD j = decide (j < m.num) := by
  rw [SegMsg.allBits, getLsbD_setBits _ _ hj]
  simp

variable (m) in
theorem SegMsg.allBits_ne_zero : m.allBits ≠ 0 := by
  intro h0
  have hbit := m.allBits_getLsbD (show 0 < 32 by decide)
  rw [h0, decide_eq_true m.num_spec.1] at hbit
  simp at hbit

theorem Rx.HandedUp.mono (h : s.HandedUp m) (hcalls : ∀ c ∈ s.calls, c ∈ s'.calls) :
    s'.HandedUp m := by
  obtain ⟨buf, n, ctx, hmem, hreads, htake⟩ := h
  exact ⟨buf, n, ctx, hcalls _ hmem, hreads, htake⟩

/-- A task that still misses a segment does not acknowledge all of them. -/
theorem RxTask.Receiving.not_all (h : t.Receiving m) : t.blockAck ≠ m.allBits := by
  obtain ⟨⟨t₀, got, hclean, hcollects, hbits⟩, hmissing⟩ := h
  intro hall
  refine hmissing (hcollects.missing_eq_zero.mpr ⟨Finset.ext fun j => ?_, hclean⟩)
  rw [Finset.mem_range]
  refine ⟨hcollects.got_lt j, fun hj => ?_⟩
  have hlt := hj.trans_le m.num_spec.2.1
  have hbit := hbits j (by omega)
  rw [hall, m.allBits_getLsbD (by omega), decide_eq_true hj] at hbit
  exact of_decide_eq_true hbit.symm

end Messages

section Calls

/-- Every acknowledgement that a call sends is for the context. -/
def AcksFor (ctx : MsgCtx) (calls : List RxCall) : Prop :=
  ∀ blockAck c, .segAck blockAck c ∈ calls → c = ctx

theorem Receiver.CallsFor.acksFor (h : CallsFor ctx calls) : AcksFor ctx calls := by
  intro blockAck c hmem
  cases h with
  | quiet => cases hmem
  | acked => exact (RxCall.segAck.inj (List.mem_singleton.mp hmem)).2
  | handed =>
    rcases List.mem_cons.mp hmem with hhead | htail
    · exact (RxCall.segAck.inj hhead).2
    · cases List.mem_singleton.mp htail

end Calls

section Segments

/-- One more segment in the task of the message. -/
theorem RxTask.Receiving.stored {buf : List Byte} {ack handle : Handle}
    (h : (r.task id).Receiving m) (hr : m.Reading i mem len)
    (hbit : (r.task id).notReceivedSeg &&& bit 32 (rxMisc mem).sego.toNat ≠ 0)
    (hbuf : (r.task id).ppdu = some buf) (hack : (r.task id).ackTimer.start = .ok ack)
    (hinc : (r.task id).incompleteTimer.start = .ok handle)
    (hne : (stored (r.task id) buf mem len m.ctx.ctl).notReceivedSeg ≠ 0) :
    RxTask.Receiving { Receiver.stored (r.task id) buf mem len m.ctx.ctl with
      ackTimer := ack, incompleteTimer := handle } m := by
  obtain ⟨⟨t₀, got, hclean, hcollects, hbits⟩, -⟩ := h
  have hlt := hr.lt.trans_le m.num_spec.2.1
  have hi : i ∉ got := fun hmem => hbit (by
    rw [and_bit_eq_zero _ (rxMisc mem).sego.isLt, hr.sego, hcollects.missing i (by omega)]
    simp [hmem])
  have hstored := hcollects.stored hr hi hbuf
  obtain ⟨a, b, ha, hb⟩ := hcollects.timers
  rw [ha] at hack
  rw [hb] at hinc
  cases hack
  cases hinc
  refine ⟨⟨t₀, insert i got, hclean, ⟨hstored.reads, hstored.maxPduLen, hstored.got_lt,
    hstored.buffer, hstored.missing, hstored.pduLen, _, _, rfl, rfl⟩, fun j hj => ?_⟩, hne⟩
  change (Receiver.stored (r.task id) buf mem len m.ctx.ctl).blockAck.getLsbD j = _
  rw [stored_acked hj, hbits j hj, hr.sego]
  by_cases hji : i = j
  · simp [hji]
  · simp [hji, Ne.symm hji]

/-- A segment for the task of its message: the task goes on, or it is given up without an
acknowledgement of all segments, or the message is handed up. -/
theorem RxTask.Receiving.receiveFor (h : (r.task id).Receiving m) (hpool : r.Pool)
    (hr : m.Reading i mem len) (hreads : m.Reads ctx)
    (hrun : r.receiveFor id mem len ctx = .ok (ret, r', calls)) :
    (id ∉ r'.active ∧ ∀ c, .segAck m.allBits c ∉ calls) ∨
      ((r'.task id).Receiving m ∧ calls = []) ∨ ((r'.task id).Finished m ∧ m.Hands calls) := by
  obtain ⟨⟨t₀, got, hclean, hcollects, hbits⟩, hmissing⟩ := h
  have hgiven (r₁ : Receiver) (hactive : r₁.active = r.active) (hcalls : calls = [.segAck 0 ctx])
      (hr' : r' = r₁.released id) :
      id ∉ r'.active ∧ ∀ c, .segAck m.allBits c ∉ calls := by
    subst hcalls hr'
    refine ⟨fun hmem => ?_, fun c hmem => ?_⟩
    · have hnodup : r₁.active.Nodup := hactive ▸ hpool.active_nodup
      exact absurd rfl (hnodup.mem_erase_iff.mp hmem).1
    · exact m.allBits_ne_zero (RxCall.segAck.inj (List.mem_singleton.mp hmem)).1
  rcases receiveFor_cases hrun with ⟨hm | hmax, -, -⟩ | ⟨-, -, hcases⟩
  · rw [hcollects.reads.agree hreads] at hm
    cases hm
  · rw [hcollects.maxPduLen, hreads.ctl, hr.maxPduLen] at hmax
    exact absurd rfl hmax
  rcases hcases with ⟨hzero, -⟩ | ⟨-, -, rfl, rfl⟩ | ⟨hbit, hcases⟩
  · exact absurd hzero hmissing
  · exact .inr (.inl ⟨⟨⟨t₀, got, hclean, hcollects, hbits⟩, hmissing⟩, rfl⟩)
  have hlt := hr.lt.trans_le m.num_spec.2.1
  have hi : i ∉ got := fun hmem => hbit (by
    rw [and_bit_eq_zero _ (rxMisc mem).sego.isLt, hr.sego, hcollects.missing i (by omega)]
    simp [hmem])
  have hsegn : (rxMisc mem).segn = 0 ↔ m.num = 1 := by
    have hpos := m.num_spec.1
    have hval := hr.segn
    have hz : (0 : BitVec 5).toNat = 0 := rfl
    rw [← BitVec.toNat_inj]
    omega
  rcases hcases with ⟨hone, hs⟩ | ⟨hmany, hs⟩
  · rcases receiveSingle_cases hs with ⟨rpl, -, hr', hcalls⟩ | ⟨rpl, buf, handle, hcheck, -⟩
    · exact .inl (hgiven { r with rpl := rpl } rfl hcalls hr')
    · obtain ⟨r₂, buf₂, hrun₂, -, hdone, htake⟩ :=
        receiveFor_single hcollects hr hreads hi (hsegn.mp hone) hcheck
      cases hrun₂.symm.trans hrun
      exact .inr (.inr ⟨hdone, buf₂, _, _, List.mem_cons_of_mem _ (List.mem_singleton_self _),
        ⟨hreads.src, hreads.ctl, hreads.ivIndex, hreads.seqAuth, hreads.info⟩, htake⟩)
  · obtain ⟨buf, hbuf, -, hcases⟩ := receiveMulti_cases hs
    rw [hreads.ctl] at hcases
    rcases hcases with ⟨-, rpl, -, hr', hcalls⟩ | ⟨hdone, rpl, handle, hcheck, -⟩ |
      ⟨hne, ack, handle, hack, hinc, rfl, rfl⟩
    · exact .inl (hgiven (Receiver.setTask { r with rpl := rpl } id _) rfl hcalls hr')
    · rcases receiveFor_part hcollects hr hreads hi (fun h1 => hmany (hsegn.mpr h1)) hcheck with
        ⟨r₂, hrun₂, -, hc₂, hne₂⟩ | ⟨r₂, b, buf₂, hrun₂, -, hfin, -, htake⟩
      · refine absurd ((hc₂.missing_eq_zero).mpr ⟨?_, hclean⟩) hne₂
        exact ((hcollects.stored hr hi hbuf).missing_eq_zero.mp hdone).1
      · cases hrun₂.symm.trans hrun
        exact .inr (.inr ⟨hfin, buf₂, _, _, List.mem_cons_of_mem _ (List.mem_singleton_self _),
          ⟨hreads.src, hreads.ctl, hreads.ivIndex, hreads.seqAuth, hreads.info⟩, htake⟩)
    · refine .inr (.inl ⟨?_, rfl⟩)
      rw [setTask_self]
      exact RxTask.Receiving.stored ⟨⟨t₀, got, hclean, hcollects, hbits⟩, hmissing⟩ hr hbit hbuf
        hack hinc hne

end Segments

section Steps

/-- A step that leaves every task of the message alone, or has it receive the message or hand it
up, and that acknowledges all segments only when it is handed up. -/
theorem Rx.Sound.next (h : s.Sound m) (new : List RxCall) (hpool : s'.rx.Pool)
    (hcalls : s'.calls = new ++ s.calls)
    (htask : ∀ id ∈ s'.rx.active, m.Names (s'.rx.task id).ctx →
      (id ∈ s.rx.active ∧ s'.rx.task id = s.rx.task id) ∨ (s'.rx.task id).Receiving m ∨
        (s'.rx.task id).Finished m ∧ s'.HandedUp m)
    (hacks : ∀ c, .segAck m.allBits c ∈ new → m.Names c → s'.HandedUp m) : s'.Sound m where
  pool := hpool
  task id hid hname := by
    have hmono (hup : s.HandedUp m) : s'.HandedUp m :=
      hup.mono fun c hc => hcalls ▸ List.mem_append_right new hc
    rcases htask id hid hname with ⟨hold, heq⟩ | hnow
    · rw [heq] at hname ⊢
      exact (h.task id hold hname).imp_right (And.imp_right hmono)
    · exact hnow
  acks ctx hmem hname := by
    rw [hcalls, List.mem_append] at hmem
    rcases hmem with hnew | hold
    · exact hacks ctx hnew hname
    · exact (h.acks ctx hold hname).mono fun c hc => hcalls ▸ List.mem_append_right new hc

/-- A PDU that brings a segment of the message, with the IV index that it was sent with. -/
theorem carried_segment {call : NetCall} (hseg : m.Segment i call)
    (hcarries : Carries call (.receive env mem len ctx ivi))
    (hiv : Net.rxIvIndex s.iv.ivIndex ivi = m.ctx.ivIndex) :
    m.Reading i mem len ∧ m.Reads (segCtx mem (netCtx s.iv ctx ivi)) := by
  obtain ⟨hmem, hsrc, hdst, hctl, hseq⟩ := hcarries
  rw [hseg.ctx] at hsrc hctl
  have hr := hseg.reading hmem
  exact ⟨hr, hr.reads hsrc hctl hiv (by rw [netCtx]; exact hseq ▸ hseg.valid)⟩

/-- The task that a segment of the message is given has the message. -/
theorem Rx.Sound.requested (h : s.Sound m) {r₁ : Receiver} (hr : m.Reading i mem len)
    (hreads : m.Reads (segCtx mem ctx))
    (hclean : ∀ id, s.rx.reused m.ctx = some id → (s.rx.task id).Clean (m.num - 1))
    (hreq : s.rx.request env (rxMaxPduLen mem ctx.ctl) (segCtx mem ctx) = (r₁, some id)) :
    (r₁.task id).Receiving m ∨ (r₁.task id).Finished m ∧ s.HandedUp m := by
  obtain ⟨-, -, -, -, hcase⟩ := h.pool.request hreq
  rcases hcase id rfl with ⟨hcur, rfl⟩ | ⟨hreused, t, hmissing, hlen, -, htask⟩
  · obtain ⟨hfind, hseq⟩ := current_some hcur
    obtain ⟨hid, hsrc⟩ := findTask_some hfind
    exact h.task id hid (hreads.names.congr hsrc hseq)
  · left
    have hfree : s.rx.reused m.ctx = some id := by
      rw [← hreused, Receiver.reused, Receiver.reused, hreads.src, hreads.seqAuth_eq]
    have hfill : (r₁.task id).Collects m (s.rx.task id) ∅ := by
      rw [htask]
      exact fillTask_collects hr hreads hmissing hlen
    refine ⟨⟨s.rx.task id, ∅, hclean id hfree, hfill, fun j hj => ?_⟩, fun h0 => ?_⟩
    · rw [htask]
      exact BitVec.getLsbD_zero
    · have hmem : 0 ∈ Finset.range m.num := Finset.mem_range.mpr m.num_spec.1
      rw [← (hfill.missing_eq_zero.mp h0).1] at hmem
      exact absurd hmem (Finset.notMem_empty 0)

/-- A segmented PDU: one of the message, or one that goes to a task of another message. -/
theorem Rx.Sound.receiveSegMsg (h : s.Sound m)
    (hgenuine : m.Names (segCtx mem ctx) →
      (∃ i, m.Reading i mem len ∧ m.Reads (segCtx mem ctx)) ∧
        ∀ id, s.rx.reused m.ctx = some id → (s.rx.task id).Clean (m.num - 1))
    (hrun : s.rx.receiveSegMsg env mem len ctx = .ok (ret, r', calls)) :
    Rx.Sound { s with rx := r', calls := calls.reverse ++ s.calls } m := by
  rcases receiveSegMsg_cases hrun with ⟨hreq, rfl⟩ | ⟨r₁, id, hreq, hfor⟩
  · obtain ⟨hpool, -, hold, -, -⟩ := h.pool.request hreq
    refine h.next _ hpool rfl (fun j hj _ => .inl (hold j hj (by simp))) fun c hmem _ => ?_
    rw [List.mem_reverse, List.mem_singleton] at hmem
    exact absurd (RxCall.segAck.inj hmem).1 m.allBits_ne_zero
  obtain ⟨hpool₁, -, hold₁, hout, hcase⟩ := h.pool.request hreq
  obtain ⟨hid, -⟩ := hout id rfl
  obtain ⟨hpool', -, hold', hafter⟩ := receiveFor_task hpool₁ hid hfor
  have hothers {j : ℕ} (hj : j ∈ r'.active) (hne : some id ≠ some j) :
      j ∈ s.rx.active ∧ r'.task j = s.rx.task j := by
    obtain ⟨hj₁, htask⟩ := hold' j hj hne
    obtain ⟨hj₀, htask₀⟩ := hold₁ j hj₁ hne
    exact ⟨hj₀, htask.trans htask₀⟩
  by_cases hname : m.Names (segCtx mem ctx)
  · obtain ⟨⟨i, hr, hreads⟩, hclean⟩ := hgenuine hname
    rcases h.requested hr hreads hclean hreq with hrec | ⟨hfin, hup⟩
    · rcases hrec.receiveFor hpool₁ hr hreads hfor with ⟨hgone, hno⟩ | ⟨hrec', rfl⟩ |
        ⟨hfin', buf, n, c, hmem, hreads', htake⟩
      · refine h.next _ hpool' rfl (fun j hj _ => .inl (hothers hj ?_)) fun c hmem => ?_
        · rintro ⟨⟩
          exact hgone hj
        · exact absurd (List.mem_reverse.mp hmem) (hno c)
      · refine h.next _ hpool' rfl (fun j hj _ => ?_) fun c hmem => by simp at hmem
        by_cases hji : id = j
        · exact .inr (.inl (hji ▸ hrec'))
        · exact .inl (hothers hj (by simpa using hji))
      · have hup' : Rx.HandedUp { s with rx := r', calls := calls.reverse ++ s.calls } m :=
          ⟨buf, n, c, List.mem_append_left _ (List.mem_reverse.mpr hmem), hreads', htake⟩
        refine h.next _ hpool' rfl (fun j hj _ => ?_) fun _ _ _ => hup'
        by_cases hji : id = j
        · exact .inr (.inr (hji ▸ ⟨hfin', hup'⟩))
        · exact .inl (hothers hj (by simpa using hji))
    · have hup' : Rx.HandedUp { s with rx := r', calls := calls.reverse ++ s.calls } m :=
        hup.mono fun c hc => List.mem_append_right _ hc
      obtain ⟨rpl, blockAck, rfl, -⟩ := receiveFor_finished hfin hr hreads hfor
      refine h.next _ hpool' rfl (fun j hj _ => ?_) fun _ _ _ => hup'
      by_cases hji : id = j
      · exact .inr (.inr (hji ▸ ⟨hfin, hup'⟩))
      · exact .inl (hothers hj (by simpa using hji))
  · -- the task has the message of the PDU, and so do the acknowledgements
    have hctx : (r₁.task id).ctx.src = (segCtx mem ctx).src ∧
        lowerTransSeqAuth (r₁.task id).ctx = lowerTransSeqAuth (segCtx mem ctx) := by
      rcases hcase id rfl with ⟨hcur, rfl⟩ | ⟨-, t, -, -, -, htask⟩
      · obtain ⟨hfind, hseq⟩ := current_some hcur
        exact ⟨(findTask_some hfind).2, hseq⟩
      · rw [htask]
        exact ⟨rfl, rfl⟩
    refine h.next _ hpool' rfl (fun j hj hnamej => ?_) fun c hmem hnamec => ?_
    · by_cases hji : id = j
      · subst hji
        obtain ⟨-, heq, -⟩ := hafter.resolve_left (not_not.mpr hj)
        rw [heq] at hnamej
        exact absurd (hnamej.congr hctx.1.symm hctx.2.symm) hname
      · exact .inl (hothers hj (by simpa using hji))
    · rw [(receiveFor_calls hfor).acksFor _ c (List.mem_reverse.mp hmem)] at hnamec
      exact absurd hnamec hname

theorem Rx.Sound.receive (h : s.Sound m) (hfair : m.Fair s (.receive env mem len ctx ivi))
    (hs : rxStep s (.receive env mem len ctx ivi) = .ok s') : s'.Sound m := by
  rcases receive_step hs with rfl | ⟨ret, r', calls, hrx, rfl⟩
  · exact h
  have hun (call : RxCall) (hcall : ∀ b c, call ≠ .segAck b c)
      (hc : s.rx.receiveUnseg call (netCtx s.iv ctx ivi) = .ok (ret, r', calls)) :
      Rx.Sound { s with rx := r', calls := calls.reverse ++ s.calls } m := by
    obtain ⟨ok, rpl, -, rfl, rfl⟩ := receiveUnseg_cases hc
    refine h.next _ ⟨h.pool.nodup, h.pool.src_inj⟩ rfl (fun j hj _ => .inl ⟨hj, rfl⟩) ?_
    intro c hmem
    rw [List.mem_reverse] at hmem
    cases ok
    · simp at hmem
    · exact absurd (List.mem_singleton.mp hmem).symm (hcall _ c)
  rw [Receiver.receive] at hrx
  split_ifs at hrx with hack hseg
  · exact hun (ackCall mem) (by simp [ackCall]) hrx
  · refine h.receiveSegMsg (fun hname => ?_) hrx
    obtain ⟨hiv, ⟨i, call, hsegment, hcarries⟩, hclean⟩ := hfair hseg hname
    exact ⟨⟨i, carried_segment hsegment hcarries hiv⟩, hclean⟩
  · exact hun (unsegCall mem len (netCtx s.iv ctx ivi)) (by simp [unsegCall]) hrx

theorem Rx.Sound.step (h : s.Sound m) (hfair : m.Fair s e) (hs : rxStep s e = .ok s') :
    s'.Sound m := by
  have hmoved (iv : Iv) (clear : Bool) : (s.ivMoved iv clear).Sound m := by
    cases clear
    · exact h.next [] h.pool rfl (fun j hj _ => .inl ⟨hj, rfl⟩) (by simp)
    · exact h.next [] ⟨h.pool.nodup, h.pool.src_inj⟩ rfl (fun j hj _ => .inl ⟨hj, rfl⟩)
        (by simp)
  cases e with
  | receive env mem len ctx ivi => exact h.receive hfair hs
  | ackTimeout id =>
    cases hs
    refine h.next [_] h.pool rfl (fun j hj _ => .inl ⟨hj, rfl⟩) fun c hmem hname => ?_
    obtain ⟨hall, rfl⟩ := RxCall.segAck.inj (List.mem_singleton.mp hmem)
    rcases h.task id hfair hname with hrec | ⟨-, hup⟩
    · exact absurd hall.symm hrec.not_all
    · exact hup.mono fun c hc => List.mem_cons_of_mem _ hc
  | incompleteTimeout id =>
    obtain ⟨rx, hrel, hret⟩ := bind_ok hs
    cases hret
    obtain ⟨hmem, rfl⟩ := release_ok hrel
    obtain ⟨hpool', -, hold⟩ := h.pool.released hmem
    exact h.next [] hpool' rfl (fun j hj _ => .inl (hold j hj (by simp))) (by simp)
  | ivUpdate ivIndex state busy =>
    cases hs
    exact hmoved _ _
  | ivTick busy =>
    cases hs
    exact hmoved _ _
  | ivTestMode flag =>
    cases hs
    exact h.next [] h.pool rfl (fun j hj _ => .inl ⟨hj, rfl⟩) (by simp)
  | ivOperateTime time =>
    cases hs
    exact h.next [] h.pool rfl (fun j hj _ => .inl ⟨hj, rfl⟩) (by simp)
  | sendFinished =>
    cases hs
    exact h.next [] h.pool rfl (fun j hj _ => .inl ⟨hj, rfl⟩) (by simp)

end Steps

/-- The contexts of the tasks in use and those of the acknowledgements. -/
structure Rx.Contexts (s : Rx) (known : MsgCtx → Prop) : Prop where
  task : ∀ id ∈ s.rx.active, known (s.rx.task id).ctx
  acks : ∀ blockAck ctx, .segAck blockAck ctx ∈ s.calls → known ctx

section Contexts

variable {known : MsgCtx → Prop}

theorem Rx.Contexts.next (h : s.Contexts known) (new : List RxCall)
    (hcalls : s'.calls = new ++ s.calls)
    (htask : ∀ id ∈ s'.rx.active, (id ∈ s.rx.active ∧ s'.rx.task id = s.rx.task id) ∨
      known (s'.rx.task id).ctx)
    (hacks : ∀ blockAck c, .segAck blockAck c ∈ new → known c) : s'.Contexts known where
  task id hid := by
    rcases htask id hid with ⟨hold, heq⟩ | hnow
    · rw [heq]
      exact h.task id hold
    · exact hnow
  acks blockAck c hmem := by
    rw [hcalls, List.mem_append] at hmem
    exact hmem.elim (hacks blockAck c) (h.acks blockAck c)

theorem Rx.Contexts.receive (h : s.Contexts known) (hpool : s.rx.Pool)
    (hknown : (mem 0).msb = true → known (segCtx mem (netCtx s.iv ctx ivi)))
    (hs : rxStep s (.receive env mem len ctx ivi) = .ok s') : s'.Contexts known := by
  rcases receive_step hs with rfl | ⟨ret, r', calls, hrx, rfl⟩
  · exact h
  have hun (call : RxCall) (hcall : ∀ b c, call ≠ .segAck b c)
      (hc : s.rx.receiveUnseg call (netCtx s.iv ctx ivi) = .ok (ret, r', calls)) :
      Rx.Contexts { s with rx := r', calls := calls.reverse ++ s.calls } known := by
    obtain ⟨ok, rpl, -, rfl, rfl⟩ := receiveUnseg_cases hc
    refine h.next _ rfl (fun j hj => .inl ⟨hj, rfl⟩) fun b c hmem => ?_
    rw [List.mem_reverse] at hmem
    cases ok
    · simp at hmem
    · exact absurd (List.mem_singleton.mp hmem).symm (hcall b c)
  rw [Receiver.receive] at hrx
  split_ifs at hrx with hack hseg
  · exact hun (ackCall mem) (by simp [ackCall]) hrx
  · have hsctx := hknown hseg
    rcases receiveSegMsg_cases hrx with ⟨hreq, rfl⟩ | ⟨r₁, id, hreq, hfor⟩
    · obtain ⟨-, -, hold, -, -⟩ := hpool.request hreq
      refine h.next _ rfl (fun j hj => .inl (hold j hj (by simp))) fun b c hmem => ?_
      rw [(CallsFor.acked _).acksFor b c (List.mem_reverse.mp hmem)]
      exact hsctx
    obtain ⟨hpool₁, -, hold₁, hout, hcase⟩ := hpool.request hreq
    obtain ⟨hid, -⟩ := hout id rfl
    obtain ⟨-, -, hold', hafter⟩ := receiveFor_task hpool₁ hid hfor
    refine h.next _ rfl (fun j hj => ?_) fun b c hmem => ?_
    · by_cases hji : id = j
      · subst hji
        obtain ⟨-, heq, -⟩ := hafter.resolve_left (not_not.mpr hj)
        right
        rw [heq]
        rcases hcase id rfl with ⟨hcur, rfl⟩ | ⟨-, t, -, -, -, htask⟩
        · exact h.task id hid
        · rw [htask]
          exact hsctx
      · obtain ⟨hj₁, htask⟩ := hold' j hj (by simpa using hji)
        obtain ⟨hj₀, htask₀⟩ := hold₁ j hj₁ (by simpa using hji)
        exact .inl ⟨hj₀, htask.trans htask₀⟩
    · rw [(receiveFor_calls hfor).acksFor b c (List.mem_reverse.mp hmem)]
      exact hsctx
  · exact hun (unsegCall mem len (netCtx s.iv ctx ivi)) (by simp [unsegCall]) hrx

theorem Rx.Contexts.step (h : s.Contexts known) (hpool : s.rx.Pool)
    (hknown : ∀ env mem len ctx ivi, e = .receive env mem len ctx ivi → (mem 0).msb = true →
      known (segCtx mem (netCtx s.iv ctx ivi)))
    (hlive : ∀ id, e = .ackTimeout id → id ∈ s.rx.active) (hs : rxStep s e = .ok s') :
    s'.Contexts known := by
  have hmoved (iv : Iv) (clear : Bool) : (s.ivMoved iv clear).Contexts known := by
    cases clear
    · exact ⟨h.task, h.acks⟩
    · exact ⟨h.task, h.acks⟩
  cases e with
  | receive env mem len ctx ivi => exact h.receive hpool (hknown env mem len ctx ivi rfl) hs
  | ackTimeout id =>
    cases hs
    refine h.next [_] rfl (fun j hj => .inl ⟨hj, rfl⟩) fun b c hmem => ?_
    obtain ⟨-, rfl⟩ := RxCall.segAck.inj (List.mem_singleton.mp hmem)
    exact h.task id (hlive id rfl)
  | incompleteTimeout id =>
    obtain ⟨rx, hrel, hret⟩ := bind_ok hs
    cases hret
    obtain ⟨hmem, rfl⟩ := release_ok hrel
    obtain ⟨-, -, hold⟩ := hpool.released hmem
    exact h.next [] rfl (fun j hj => .inl (hold j hj (by simp))) (by simp)
  | ivUpdate ivIndex state busy =>
    cases hs
    exact hmoved _ _
  | ivTick busy =>
    cases hs
    exact hmoved _ _
  | ivTestMode flag =>
    cases hs
    exact ⟨h.task, h.acks⟩
  | ivOperateTime time =>
    cases hs
    exact ⟨h.task, h.acks⟩
  | sendFinished =>
    cases hs
    exact ⟨h.task, h.acks⟩

end Contexts

end Meshx.LowerTransRx
