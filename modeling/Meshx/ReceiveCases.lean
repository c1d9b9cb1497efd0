import Meshx.LowerTransRx

/-! The steps of the receiving side read backwards: from a result to what was found and what
was changed. -/
namespace Meshx.LowerTransRx

open Lib Segment Replay IvIndex

namespace Receiver

variable {r r' : Receiver} {env : RxEnv} {id n offset len maxPduLen : ℕ} {mem : ℕ → Byte}
  {ctx : MsgCtx} {ret err : Errno} {calls : List RxCall} {out : Option ℕ}

@[simp] theorem setTask_self (t : RxTask) : (r.setTask id t).task id = t := by
  simp [setTask]

@[simp] theorem setTask_rpl (t : RxTask) : (r.setTask id t).rpl = r.rpl := rfl

@[simp] theorem setTask_setTask (t t' : RxTask) :
    (r.setTask id t).setTask id t' = r.setTask id t' := by
  simp [setTask]

theorem setTask_of_ne {j : ℕ} (h : j ≠ id) (t : RxTask) : (r.setTask id t).task j = r.task j := by
  simp [setTask, h]

theorem release_ok (h : r.release id = .ok r') :
    (id ∈ r.idle ∨ id ∈ r.active) ∧ r' = r.released id := by
  rw [release] at h
  by_cases hmem : id ∈ r.idle ∨ id ∈ r.active
  · rw [if_pos hmem] at h
    obtain ⟨-, -, h⟩ := bind_ok h
    obtain ⟨-, -, h⟩ := bind_ok h
    exact ⟨hmem, (Except.ok.inj h).symm⟩
  · rw [if_neg hmem] at h
    cases h

theorem refuse_ok (h : r.refuse id err ctx = .ok (ret, r', calls)) :
    r' = r.released id ∧ calls = [.segAck 0 ctx] := by
  obtain ⟨s, hs, h⟩ := bind_ok h
  cases h
  exact ⟨(release_ok hs).2, rfl⟩

theorem complete_ok (h : r.complete id ctx = .ok (ret, r', calls)) :
    ∃ buf handle, (r.task id).ppdu = some buf ∧ (r.task id).incompleteTimer.start = .ok handle ∧
      r' = r.setTask id { r.task id with ackTimer := .null, incompleteTimer := handle } ∧
      calls = [.segAck (r.task id).blockAck ctx,
        .upperReceive buf (r.task id).pduLen { ctx with seg := true }] := by
  obtain ⟨-, -, h⟩ := bind_ok h
  obtain ⟨handle, hstart, h⟩ := bind_ok h
  cases hbuf : (r.task id).ppdu with
  | none => simp only [hbuf] at h; cases h
  | some buf =>
    simp only [hbuf] at h
    cases h
    exact ⟨buf, handle, rfl, hstart, by simp [hbuf], rfl⟩

theorem await_ok (h : r.await id = .ok (ret, r', calls)) :
    ∃ ack handle, (r.task id).ackTimer.start = .ok ack ∧
      (r.task id).incompleteTimer.start = .ok handle ∧
      r' = r.setTask id { r.task id with ackTimer := ack, incompleteTimer := handle } ∧
      calls = [] := by
  obtain ⟨ack, hack, h⟩ := bind_ok h
  obtain ⟨handle, hstart, h⟩ := bind_ok h
  cases h
  exact ⟨ack, handle, hack, hstart, rfl, rfl⟩

theorem writePdu_ok (h : r.writePdu id offset n mem = .ok r') :
    ∃ buf, (r.task id).ppdu = some buf ∧ (n = 0 ∨ offset + n ≤ buf.length) ∧
      r' = r.setTask id
        { r.task id with ppdu := some (splice buf offset (memBytes mem 4 n)) } := by
  rw [writePdu] at h
  cases hbuf : (r.task id).ppdu with
  | none => rw [hbuf] at h; cases h
  | some buf =>
    rw [hbuf] at h
    dsimp only at h
    by_cases hlen : n ≠ 0 ∧ buf.length < offset + n
    · rw [if_pos hlen] at h
      cases h
    · rw [if_neg hlen] at h
      exact ⟨buf, rfl, by omega, (Except.ok.inj h).symm⟩

theorem receiveSingle_cases (h : r.receiveSingle id mem len ctx = .ok (ret, r', calls)) :
    (∃ rpl, lowerTransRplCheck r.rpl (rplOf ctx) = .ok (false, rpl) ∧
      r' = ({ r with rpl := rpl } : Receiver).released id ∧ calls = [.segAck 0 ctx]) ∨
    ∃ rpl buf handle, lowerTransRplCheck r.rpl (rplOf ctx) = .ok (true, rpl) ∧
      (r.task id).ppdu = some buf ∧ (r.task id).incompleteTimer.start = .ok handle ∧
      let n := (len + 65536 - 4) % 65536
      let buf' := splice buf 0 (memBytes mem 4 n)
      (n = 0 ∨ n ≤ buf.length) ∧
      r' = ({ r with rpl := rpl } : Receiver).setTask id { r.task id with
        ppdu := some buf', notReceivedSeg := 0, blockAck := 1, pduLen := n
        ackTimer := .null, incompleteTimer := handle } ∧
      calls = [.segAck 1 ctx, .upperReceive buf' n { ctx with seg := true }] := by
  obtain ⟨⟨ok, rpl⟩, hcheck, h⟩ := bind_ok h
  cases ok with
  | false => exact .inl ⟨rpl, hcheck, refuse_ok h⟩
  | true =>
    obtain ⟨s, hs, h⟩ := bind_ok h
    obtain ⟨buf, hbuf, hlen, rfl⟩ := writePdu_ok hs
    obtain ⟨buf', handle, hbuf', hstart, rfl, rfl⟩ := complete_ok h
    simp only [setTask_self, Option.some_inj] at hbuf' hstart
    subst hbuf'
    refine .inr ⟨rpl, buf, handle, hcheck, hbuf, hstart, by simpa using hlen, ?_, ?_⟩ <;>
      simp only [setTask_self, setTask_setTask]

/-- The task after a segment is stored in it. -/
def stored (t : RxTask) (buf : List Byte) (mem : ℕ → Byte) (len : ℕ) (ctl : Bool) : RxTask :=
  let sego := (rxMisc mem).sego.toNat
  let n := rxSegLen mem len ctl
  { storeTask t sego n with ppdu := some (splice buf (sego * segSize ctl) (memBytes mem 4 n)) }

theorem receiveMulti_cases (h : r.receiveMulti id mem len ctx = .ok (ret, r', calls)) :
    ∃ buf, (r.task id).ppdu = some buf ∧
      (rxSegLen mem len ctx.ctl = 0 ∨
        (rxMisc mem).sego.toNat * segSize ctx.ctl + rxSegLen mem len ctx.ctl ≤ buf.length) ∧
      let t := stored (r.task id) buf mem len ctx.ctl
      ((t.notReceivedSeg = 0 ∧ ∃ rpl, lowerTransRplCheck r.rpl (rplOf ctx) = .ok (false, rpl) ∧
          r' = (({ r with rpl := rpl } : Receiver).setTask id t).released id ∧
          calls = [.segAck 0 ctx]) ∨
        (t.notReceivedSeg = 0 ∧ ∃ rpl handle,
          lowerTransRplCheck r.rpl (rplOf ctx) = .ok (true, rpl) ∧
          (r.task id).incompleteTimer.start = .ok handle ∧
          r' = ({ r with rpl := rpl } : Receiver).setTask id
            { t with ackTimer := .null, incompleteTimer := handle } ∧
          calls = [.segAck t.blockAck ctx,
            .upperReceive (t.ppdu.getD []) t.pduLen { ctx with seg := true }]) ∨
        (t.notReceivedSeg ≠ 0 ∧ ∃ ack handle, (r.task id).ackTimer.start = .ok ack ∧
          (r.task id).incompleteTimer.start = .ok handle ∧
          r' = r.setTask id { t with ackTimer := ack, incompleteTimer := handle } ∧
          calls = [])) := by
  obtain ⟨s, hs, h⟩ := bind_ok h
  obtain ⟨buf, hbuf, hlen, rfl⟩ := writePdu_ok hs
  refine ⟨buf, hbuf, hlen, ?_⟩
  simp only [setTask_self, setTask_setTask] at h
  change (if (stored (r.task id) buf mem len ctx.ctl).notReceivedSeg = 0 then
    (r.setTask id (stored (r.task id) buf mem len ctx.ctl)).checked id ctx else
    (r.setTask id (stored (r.task id) buf mem len ctx.ctl)).await id) = _ at h
  by_cases hdone : (stored (r.task id) buf mem len ctx.ctl).notReceivedSeg = 0
  · rw [if_pos hdone] at h
    obtain ⟨⟨ok, rpl⟩, hcheck, h⟩ := bind_ok h
    cases ok with
    | false => exact .inl ⟨hdone, rpl, hcheck, refuse_ok h⟩
    | true =>
      obtain ⟨buf', handle, hbuf', hstart, rfl, rfl⟩ := complete_ok h
      refine .inr (.inl ⟨hdone, rpl, handle, hcheck, ?_, ?_, ?_⟩)
      · simpa [setTask, stored, storeTask] using hstart
      · simp [setTask]
      · simp [setTask] at hbuf' ⊢
        simp [hbuf']
  · rw [if_neg hdone] at h
    obtain ⟨ack, handle, hack, hstart, rfl, rfl⟩ := await_ok h
    refine .inr (.inr ⟨hdone, ack, handle, ?_, ?_, ?_, rfl⟩)
    · simpa [setTask, stored, storeTask] using hack
    · simpa [setTask, stored, storeTask] using hstart
    · simp [setTask]

theorem receiveFor_cases (h : r.receiveFor id mem len ctx = .ok (ret, r', calls)) :
    ((mismatch (r.task id).ctx ctx = true ∨
        (r.task id).maxPduLen ≠ rxMaxPduLen mem ctx.ctl) ∧
      r' = r.released id ∧ calls = [.segAck 0 ctx]) ∨
    (mismatch (r.task id).ctx ctx = false ∧ (r.task id).maxPduLen = rxMaxPduLen mem ctx.ctl ∧
      (((r.task id).notReceivedSeg = 0 ∧ ∃ err rpl,
          rplUpdate r.rpl (rplOf ctx) = .ok (err, rpl) ∧ r' = { r with rpl := rpl } ∧
          calls = [.segAck (r.task id).blockAck ctx]) ∨
        ((r.task id).notReceivedSeg ≠ 0 ∧
          (r.task id).notReceivedSeg &&& bit 32 (rxMisc mem).sego.toNat = 0 ∧
          r' = r ∧ calls = []) ∨
        ((r.task id).notReceivedSeg &&& bit 32 (rxMisc mem).sego.toNat ≠ 0 ∧
          ((rxMisc mem).segn = 0 ∧ r.receiveSingle id mem len ctx = .ok (ret, r', calls) ∨
            (rxMisc mem).segn ≠ 0 ∧ r.receiveMulti id mem len ctx = .ok (ret, r', calls))))) := by
  rw [receiveFor] at h
  dsimp only at h
  by_cases hm : mismatch (r.task id).ctx ctx
  · rw [if_pos hm] at h
    exact .inl ⟨.inl hm, refuse_ok h⟩
  rw [if_neg hm] at h
  by_cases hmax : (r.task id).maxPduLen ≠ rxMaxPduLen mem ctx.ctl
  · rw [if_pos hmax] at h
    exact .inl ⟨.inr hmax, refuse_ok h⟩
  rw [if_neg hmax] at h
  refine .inr ⟨by simpa using hm, by simpa using hmax, ?_⟩
  by_cases hall : (r.task id).notReceivedSeg = 0
  · rw [if_pos hall] at h
    obtain ⟨⟨err, rpl⟩, hrpl, h⟩ := bind_ok h
    cases h
    exact .inl ⟨hall, err, rpl, hrpl, rfl, rfl⟩
  rw [if_neg hall] at h
  by_cases hdup : (r.task id).notReceivedSeg &&& bit 32 (rxMisc mem).sego.toNat = 0
  · rw [if_pos hdup] at h
    cases h
    exact .inr (.inl ⟨hall, hdup, rfl, rfl⟩)
  rw [if_neg hdup] at h
  refine .inr (.inr ⟨hdup, ?_⟩)
  by_cases hone : (rxMisc mem).segn = 0
  · rw [if_pos hone] at h
    exact .inl ⟨hone, h⟩
  · rw [if_neg hone] at h
    exact .inr ⟨hone, h⟩

/-- What a segment leads to: nothing, an acknowledgement for its context, or one and the message
for the upper layer. -/
inductive CallsFor (ctx : MsgCtx) : List RxCall → Prop
  | quiet : CallsFor ctx []
  | acked (blockAck : BitVec 32) : CallsFor ctx [.segAck blockAck ctx]
  | handed (blockAck : BitVec 32) (buf : List Byte) (n : ℕ) (up : MsgCtx) :
      CallsFor ctx [.segAck blockAck ctx, .upperReceive buf n up]

theorem receiveFor_calls (h : r.receiveFor id mem len ctx = .ok (ret, r', calls)) :
    CallsFor ctx calls := by
  rcases receiveFor_cases h with ⟨-, -, rfl⟩ | ⟨-, -, hcases⟩
  · exact .acked 0
  rcases hcases with ⟨-, err, rpl, -, -, rfl⟩ | ⟨-, -, -, rfl⟩ | ⟨-, hcases⟩
  · exact .acked _
  · exact .quiet
  rcases hcases with ⟨-, hs⟩ | ⟨-, hs⟩
  · rcases receiveSingle_cases hs with ⟨rpl, -, -, rfl⟩ | ⟨rpl, buf, handle, -, -, -, -, -, rfl⟩
    · exact .acked 0
    · exact .handed _ _ _ _
  · obtain ⟨buf, -, -, hcases⟩ := receiveMulti_cases hs
    rcases hcases with ⟨-, rpl, -, -, rfl⟩ | ⟨-, rpl, handle, -, -, -, rfl⟩ |
      ⟨-, ack, handle, -, -, -, rfl⟩
    · exact .acked 0
    · exact .handed _ _ _ _
    · exact .quiet

/-- A request for a new task: none is there, or the first idle one is filled. -/
theorem newTask_cases (h : r.newTask env maxPduLen ctx = (r', out)) :
    (out = none ∧ r'.rpl = r.rpl ∧ r'.active = r.active ∧ r'.idle.Perm r.idle ∧
      ∀ j, j ∉ r.idle → r'.task j = r.task j) ∨
    ∃ id idle, r.idle = id :: idle ∧ env.ackTimerOk = true ∧ env.incompleteTimerOk = true ∧
      env.mallocOk = true ∧ out = some id ∧ r'.rpl = r.rpl ∧ r'.idle = idle ∧
      r'.active = r.active ++ [id] ∧
      r'.task = Function.update r.task id (fillTask (r.task id) env maxPduLen ctx) := by
  have hleave : ∀ (s : Receiver) kind j old, (s.leave kind j old).rpl = s.rpl ∧
      (s.leave kind j old).active = s.active ∧ (s.leave kind j old).idle = s.idle ∧
      (s.leave kind j old).task = s.task := by
    intro s kind j old
    cases old <;> simp [leave]
  rw [newTask] at h
  cases hidle : r.idle with
  | nil =>
    rw [hidle] at h
    cases h
    exact .inl ⟨rfl, rfl, rfl, by rw [hidle], fun _ _ => rfl⟩
  | cons id idle =>
    have hperm : (idle ++ [id]).Perm (id :: idle) := List.perm_append_singleton id idle
    have hne : ∀ {j}, j ∉ id :: idle → j ≠ id := fun hj he => hj (he ▸ List.mem_cons_self)
    rw [hidle] at h
    dsimp only at h
    cases hack : env.ackTimerOk with
    | false =>
      simp only [hack, Bool.not_false, if_true] at h
      cases h
      exact .inl ⟨rfl, rfl, rfl, hperm, fun _ _ => rfl⟩
    | true =>
      cases hinc : env.incompleteTimerOk with
      | false =>
        simp only [hack, hinc, Bool.not_true, Bool.not_false, Bool.false_eq_true, if_true,
          if_false] at h
        cases h
        obtain ⟨h₁, h₂, h₃, h₄⟩ :=
          hleave { r with idle := idle ++ [id] } .ack id (r.task id).ackTimer
        refine .inl ⟨rfl, h₁, h₂, (by rw [setTask]; exact h₃ ▸ hperm), fun j hj => ?_⟩
        rw [setTask_of_ne (hne hj), h₄]
      | true =>
        obtain ⟨h₁, h₂, h₃, h₄⟩ :=
          hleave { r with idle := idle ++ [id] } .ack id (r.task id).ackTimer
        obtain ⟨k₁, k₂, k₃, k₄⟩ := hleave
          (({ r with idle := idle ++ [id] } : Receiver).leave .ack id (r.task id).ackTimer)
          .incomplete id (r.task id).incompleteTimer
        cases hmalloc : env.mallocOk with
        | false =>
          simp only [hack, hinc, hmalloc, Bool.not_true, Bool.not_false, Bool.false_eq_true,
            if_true, if_false] at h
          cases h
          refine .inl ⟨rfl, k₁.trans h₁, k₂.trans h₂,
            (by rw [setTask]; exact (k₃.trans h₃) ▸ hperm), fun j hj => ?_⟩
          rw [setTask_of_ne (hne hj), k₄, h₄]
        | true =>
          simp only [hack, hinc, hmalloc, Bool.not_true, Bool.false_eq_true, if_false] at h
          cases h
          refine .inr ⟨id, idle, rfl, rfl, rfl, rfl, rfl, k₁.trans h₁, rfl, rfl, ?_⟩
          rw [setTask, k₄, h₄]

/-- A request finds the task of the message, drops an old message, or takes a new task,
perhaps after it has cancelled the message of an old one. -/
theorem request_cases (h : r.request env maxPduLen ctx = (r', out)) :
    (∃ id, r.findTask ctx.src = some id ∧
      lowerTransSeqAuth (r.task id).ctx = lowerTransSeqAuth ctx ∧ out = some id ∧ r' = r) ∨
    (∃ id, r.findTask ctx.src = some id ∧
      lowerTransSeqAuth ctx < lowerTransSeqAuth (r.task id).ctx ∧ out = none ∧ r' = r) ∨
    (r.findTask ctx.src = none ∧ r.newTask env maxPduLen ctx = (r', out)) ∨
    ∃ id, r.findTask ctx.src = some id ∧
      lowerTransSeqAuth (r.task id).ctx < lowerTransSeqAuth ctx ∧
      (r.cancel id).newTask env maxPduLen ctx = (r', out) := by
  rw [request] at h
  cases hfind : r.findTask ctx.src with
  | none =>
    rw [hfind] at h
    exact .inr (.inr (.inl ⟨rfl, h⟩))
  | some id =>
    rw [hfind] at h
    dsimp only at h
    by_cases hlt : lowerTransSeqAuth (r.task id).ctx < lowerTransSeqAuth ctx
    · rw [if_pos hlt] at h
      exact .inr (.inr (.inr ⟨id, rfl, hlt, h⟩))
    rw [if_neg hlt] at h
    by_cases heq : lowerTransSeqAuth ctx = lowerTransSeqAuth (r.task id).ctx
    · rw [if_pos heq] at h
      cases h
      exact .inl ⟨id, rfl, heq.symm, rfl, rfl⟩
    · rw [if_neg heq] at h
      cases h
      exact .inr (.inl ⟨id, rfl, by omega, rfl, rfl⟩)

theorem findTask_some {src : BitVec 16} (h : r.findTask src = some id) :
    id ∈ r.active ∧ (r.task id).ctx.src = src :=
  ⟨List.mem_of_find?_eq_some h, by simpa using List.find?_some h⟩

theorem receiveSegMsg_cases (h : r.receiveSegMsg env mem len ctx = .ok (ret, r', calls)) :
    let sctx := segCtx mem ctx
    (r.request env (rxMaxPduLen mem ctx.ctl) sctx = (r', none) ∧ calls = [.segAck 0 sctx]) ∨
    ∃ s id, r.request env (rxMaxPduLen mem ctx.ctl) sctx = (s, some id) ∧
      s.receiveFor id mem len sctx = .ok (ret, r', calls) := by
  rw [receiveSegMsg] at h
  dsimp only at h ⊢
  have hctl : (segCtx mem ctx).ctl = ctx.ctl := rfl
  rcases hreq : r.request env (rxMaxPduLen mem ctx.ctl) (segCtx mem ctx) with ⟨s, task⟩
  rw [hctl, hreq] at h
  cases task with
  | none => cases h; exact .inl ⟨rfl, rfl⟩
  | some id => exact .inr ⟨s, id, rfl, h⟩

theorem receiveUnseg_cases {call : RxCall}
    (h : r.receiveUnseg call ctx = .ok (ret, r', calls)) :
    ∃ ok rpl, lowerTransRplCheck r.rpl (rplOf ctx) = .ok (ok, rpl) ∧ r' = { r with rpl := rpl } ∧
      calls = if ok then [call] else [] := by
  obtain ⟨⟨ok, rpl⟩, hcheck, h⟩ := bind_ok h
  cases ok <;> cases h <;> exact ⟨_, _, hcheck, rfl, rfl⟩

/-- What a PDU leads to: the calls for a segment, or one call that sends no acknowledgement. -/
theorem receive_calls (h : r.receive env mem len ctx = .ok (ret, r', calls)) :
    CallsFor (segCtx mem ctx) calls ∨ calls = [ackCall mem] ∨ calls = [unsegCall mem len ctx] := by
  have hunseg (call : RxCall) (hs : r.receiveUnseg call ctx = .ok (ret, r', calls)) :
      CallsFor (segCtx mem ctx) calls ∨ calls = [call] := by
    obtain ⟨ok, rpl, -, -, rfl⟩ := receiveUnseg_cases hs
    cases ok with
    | false => exact .inl .quiet
    | true => exact .inr rfl
  rw [receive] at h
  split_ifs at h with hack hseg
  · exact (hunseg _ h).imp_right .inl
  · rcases receiveSegMsg_cases h with ⟨-, rfl⟩ | ⟨s, id, -, hs⟩
    · exact .inl (.acked 0)
    · exact .inl (receiveFor_calls hs)
  · exact (hunseg _ h).imp_right .inr

end Receiver

end Meshx.LowerTransRx
