import Meshx.Freshness
import Meshx.IvUpdates
import Meshx.Rpl

/-! Transitions of the IV update state that are put off while a segmented message is sent,
and made when a transmission ends. -/
namespace Meshx.LowerTransTx

open Lib Segment Security Sequence IvIndex UpperTrans Replay

namespace Sender

variable {conf : TxConf} {env : TxEnv} {s s' : Sender} {id : ℕ} {ctx : MsgCtx}

/-- The start of `meshx_lower_trans_tx_task_finish`: the task is released, and a transition
that was put off is made. -/
def carryOut (s : Sender) (id : ℕ) : Except Fault Sender := do
  let s ← s.release id
  return { s with iv := ivPendingNormal s.iv }

/-- The rest of it: the next pending task is run. -/
def runNext (conf : TxConf) (env : TxEnv) (depth : ℕ) (s : Sender) : Except Fault Sender :=
  match s.runnable with
  | none => return s
  | some next => do
    let (_, s) ← taskRun conf env (taskFinishIn conf env depth)
      { s with pending := s.pending.erase next } next
    return s

theorem taskFinishIn_succ (depth : ℕ) :
    s.taskFinishIn conf env (depth + 1) id = s.carryOut id >>= runNext conf env depth := by
  simp only [taskFinishIn, carryOut, bind_assoc, pure_bind]
  rfl

/-- No task is in two places. -/
def Distinct (s : Sender) : Prop :=
  ∀ j, s.idle.count j + s.active.count j + s.pending.count j ≤ 1

/-- The lists and the IV index are as before. -/
structure Alike (s s' : Sender) : Prop where
  iv : s'.iv = s.iv
  idle : s'.idle = s.idle
  active : s'.active = s.active
  pending : s'.pending = s.pending

theorem Alike.trans {s'' : Sender} (h₁ : Alike s s') (h₂ : Alike s' s'') : Alike s s'' :=
  ⟨h₂.iv.trans h₁.iv, h₂.idle.trans h₁.idle, h₂.active.trans h₁.active,
    h₂.pending.trans h₁.pending⟩

theorem Alike.distinct (h : Alike s s') (hd : s.Distinct) : s'.Distinct := by
  intro j
  rw [h.idle, h.active, h.pending]
  exact hd j

theorem alike_setTask (t : TxTask) : Alike s (s.setTask id t) := ⟨rfl, rfl, rfl, rfl⟩

theorem alike_sendTask {ret : Errno} (hrun : s.sendTask conf env id = .ok (ret, s')) :
    Alike s s' := by
  obtain ⟨⟨ret', ctx', t⟩, hseg, hrest⟩ := bind_ok hrun
  cases hrest
  have hsame := sameTasks_sendSegs hseg
  exact ⟨hsame.iv, hsame.idle, hsame.active, hsame.pending⟩

/-- The end of the transmission of a task. -/
structure Ended (s : Sender) (id : ℕ) (s' : Sender) : Prop where
  iv : s'.iv = ivPendingNormal s.iv
  kept : ∀ a ∈ s.active, a ≠ id → a ∈ s'.active
  active : ∀ a ∈ s'.active, a ≠ id ∧ (a ∈ s.active ∨ a ∈ s.pending)
  distinct : s'.Distinct

theorem Ended.of_alike {t : Sender} (h : Ended t id s') (ha : Alike s t) : Ended s id s' where
  iv := by rw [h.iv, ha.iv]
  kept a hmem := h.kept a (ha.active ▸ hmem)
  active a hmem := by rw [← ha.active, ← ha.pending]; exact h.active a hmem
  distinct := h.distinct

theorem ivPendingNormal_idem (iv : Iv) :
    ivPendingNormal (ivPendingNormal iv) = ivPendingNormal iv := by
  unfold ivPendingNormal
  split_ifs <;> rfl

theorem not_mem_erase_of_count {xs : List ℕ} (h : xs.count id ≤ 1) : id ∉ xs.erase id := by
  rw [← List.count_pos_iff, List.count_erase_self]
  omega

theorem carryOut_ended (hrun : s.carryOut id = .ok s') (hd : s.Distinct) :
    Ended s id s' ∧ s'.pending = s.pending.erase id := by
  obtain ⟨t, ht, hret⟩ := bind_ok hrun
  cases hret
  unfold release at ht
  split_ifs at ht
  cases ht
  have hid := hd id
  refine ⟨⟨rfl, fun a ha hne => (List.mem_erase_of_ne hne).mpr ha, fun a ha => ?_, fun j => ?_⟩,
    rfl⟩
  · refine ⟨?_, .inl (List.mem_of_mem_erase ha)⟩
    rintro rfl
    exact not_mem_erase_of_count (by omega) ha
  · have hj := hd j
    by_cases hji : j = id
    · subst hji
      simp only [List.count_append, List.count_erase_self, List.count_singleton_self]
      omega
    · simp only [List.count_append, List.count_erase_of_ne hji, List.count_singleton]
      rw [if_neg (by simpa using Ne.symm hji)]
      omega

def started (s : Sender) (id : ℕ) : Sender :=
  { s.setTask id { s.task id with retryTimer := some ⟨false, (s.task id).gen⟩ } with
    active := s.active ++ [id] }

/-- `meshx_lower_trans_tx_task_run` ends the transmission it was to start. -/
def runEnds (conf : TxConf) (env : TxEnv) (s : Sender) (id : ℕ) : Bool :=
  !env.timerOk id ||
    match sendTask conf env (s.started id) id with
    | .ok (ret, _) => ret ≠ .success
    | .error _ => false

theorem Distinct.append (hd : s.Distinct)
    (hfree : s.idle.count id + s.active.count id + s.pending.count id = 0) :
    Distinct { s with active := s.active ++ [id] } := by
  intro j
  have hj := hd j
  dsimp only
  rw [List.count_append]
  by_cases hji : j = id
  · subst hji
    rw [List.count_singleton_self]
    omega
  · have hnone : [id].count j = 0 := List.count_eq_zero.mpr (by simpa using hji)
    omega

theorem taskRun_cases {finish : Sender → ℕ → Except Fault Sender} {ret : Errno}
    (hfinish : ∀ s s' id, finish s id = .ok s' → s.Distinct → Ended s id s')
    (hrun : s.taskRun conf env finish id = .ok (ret, s')) (hd : s.Distinct)
    (hfree : s.idle.count id + s.active.count id + s.pending.count id = 0) :
    (s.runEnds conf env id = false ∧ Alike { s with active := s.active ++ [id] } s') ∨
      (s.runEnds conf env id = true ∧ Ended { s with active := s.active ++ [id] } id s') := by
  unfold taskRun at hrun
  split_ifs at hrun with hok
  · obtain ⟨t, ht, hret⟩ := bind_ok hrun
    cases hret
    have hend := hfinish _ _ _ ht hd
    refine .inr ⟨by simp [runEnds, hok], hend.iv, fun a ha hne => hend.kept a ?_ hne,
      fun a ha => ?_, hend.distinct⟩
    · exact (List.mem_append.mp ha).resolve_right fun hc => hne (List.mem_singleton.mp hc)
    · obtain ⟨hne, hmem⟩ := hend.active a ha
      exact ⟨hne, hmem.imp_left (List.mem_append_left _)⟩
  · obtain ⟨⟨ret', t⟩, ht, hrest⟩ := bind_ok hrun
    have hsend : sendTask conf env (s.started id) id = .ok (ret', t) := ht
    have hstart : Alike { s with active := s.active ++ [id] } (s.started id) :=
      ⟨rfl, rfl, rfl, rfl⟩
    have halike := hstart.trans (alike_sendTask hsend)
    have hdt : t.Distinct := halike.distinct (hd.append hfree)
    have hends : s.runEnds conf env id = decide (ret' ≠ .success) := by
      rw [runEnds, hsend]
      simp [hok]
    dsimp only at hrest
    split_ifs at hrest with hret
    · obtain ⟨u, hu, hout⟩ := bind_ok hrest
      cases hout
      exact .inr ⟨by simpa [hends] using hret, (hfinish _ _ _ hu hdt).of_alike halike⟩
    · cases hrest
      exact .inl ⟨by simpa [hends] using hret, halike.trans (alike_setTask _)⟩

/-- A pending task that is taken out is in no list. -/
theorem Distinct.erase_pending {next : ℕ} (hd : s.Distinct) (hmem : next ∈ s.pending) :
    Distinct { s with pending := s.pending.erase next } ∧
      s.idle.count next + s.active.count next + (s.pending.erase next).count next = 0 := by
  have hnext : 0 < s.pending.count next := List.count_pos_iff.mpr hmem
  constructor
  · intro j
    have hj := hd j
    have hle : (s.pending.erase next).count j ≤ s.pending.count j :=
      List.Sublist.count_le j List.erase_sublist
    dsimp only
    omega
  · have hone := hd next
    rw [List.count_erase_self]
    omega

section Next

variable {t : Sender} {next : ℕ} (hend : Ended s id t)
  (hpend : ∀ a ∈ t.pending, a ≠ id ∧ a ∈ s.pending) (hmem : next ∈ t.pending)
include hend hpend hmem

theorem Ended.next_started
    (h : Alike { t with
      pending := t.pending.erase next
      active := t.active ++ [next] } s') : Ended s id s' := by
  obtain ⟨hd, hfree⟩ := hend.distinct.erase_pending hmem
  refine ⟨h.iv.trans hend.iv, fun a ha hne => ?_, fun a ha => ?_, h.distinct (hd.append hfree)⟩
  · rw [h.active]
    exact List.mem_append_left _ (hend.kept a ha hne)
  · rw [h.active] at ha
    rcases List.mem_append.mp ha with ha | ha
    · exact hend.active a ha
    · obtain rfl := List.mem_singleton.mp ha
      exact (hpend _ hmem).imp_right .inr

theorem Ended.next_ended
    (h : Ended { t with
      pending := t.pending.erase next
      active := t.active ++ [next] } next s') : Ended s id s' := by
  have hne : ∀ a ∈ t.active, a ≠ next := by
    rintro a ha rfl
    have hone := hend.distinct a
    have hactive := List.count_pos_iff.mpr ha
    have hpending := List.count_pos_iff.mpr hmem
    omega
  refine ⟨?_, fun a ha hna => ?_, fun a ha => ?_, h.distinct⟩
  · rw [h.iv]
    dsimp only
    rw [hend.iv, ivPendingNormal_idem]
  · have hat := hend.kept a ha hna
    exact h.kept a (List.mem_append_left _ hat) (hne a hat)
  · obtain ⟨hna, ha⟩ := h.active a ha
    rcases ha with ha | ha
    · exact hend.active a
        ((List.mem_append.mp ha).resolve_right fun hc => hna (List.mem_singleton.mp hc))
    · exact (hpend a (List.mem_of_mem_erase ha)).imp_right .inr

end Next

/-- The end of a transmission makes a transition that was put off and leaves the other
active transmissions. What it starts comes from the pending tasks. -/
theorem taskFinishIn_ended {depth : ℕ} (hrun : s.taskFinishIn conf env depth id = .ok s')
    (hd : s.Distinct) : Ended s id s' := by
  induction depth generalizing s s' id with
  | zero => exact (carryOut_ended hrun hd).1
  | succ depth ih =>
    rw [taskFinishIn_succ] at hrun
    obtain ⟨t, ht, hrest⟩ := bind_ok hrun
    obtain ⟨hend, hpending⟩ := carryOut_ended ht hd
    have hid := hd id
    have hpend : ∀ a ∈ t.pending, a ≠ id ∧ a ∈ s.pending := by
      intro a ha
      rw [hpending] at ha
      refine ⟨?_, List.mem_of_mem_erase ha⟩
      rintro rfl
      exact not_mem_erase_of_count (by omega) ha
    unfold runNext at hrest
    generalize hnext : t.runnable = found at hrest
    cases found with
    | none =>
      cases hrest
      exact hend
    | some next =>
      obtain ⟨⟨ret, u⟩, hu, hout⟩ := bind_ok hrest
      cases hout
      have hmem : next ∈ t.pending := List.mem_of_find?_eq_some hnext
      obtain ⟨hd', hfree⟩ := hend.distinct.erase_pending hmem
      rcases taskRun_cases (fun _ _ _ hf hs => ih hf hs) hu hd' hfree with
        ⟨-, hcase⟩ | ⟨-, hcase⟩
      · exact hend.next_started hpend hmem hcase
      · exact hend.next_ended hpend hmem hcase

/-- What an event that is not one of the IV index module does to it: nothing, or the end of
a transmission. -/
inductive Outcome (s : Sender) : Option ℕ → Sender → Prop
  | going {s' : Sender} (iv : s'.iv = s.iv) (distinct : s'.Distinct) : Outcome s none s'
  | ended {id : ℕ} {s' : Sender} (iv : s'.iv = ivPendingNormal s.iv)
      (kept : ∀ a ∈ s.active, a ≠ id → a ∈ s'.active) (gone : id ∉ s'.active)
      (distinct : s'.Distinct) : Outcome s (some id) s'

theorem Ended.outcome (h : Ended s id s') : Outcome s (some id) s' :=
  .ended h.iv h.kept (fun hc => (h.active id hc).1 rfl) h.distinct

theorem Outcome.of_same {t : Sender} {r : Option ℕ} (h : Outcome t r s') (hiv : t.iv = s.iv)
    (hactive : t.active = s.active) : Outcome s r s' := by
  cases h with
  | going iv distinct => exact .going (iv.trans hiv) distinct
  | ended iv kept gone distinct =>
    exact .ended (by rw [iv, hiv]) (fun a hmem => kept a (hactive ▸ hmem)) gone distinct

theorem Outcome.of_alike {t : Sender} {r : Option ℕ} (h : Outcome t r s') (ha : Alike s t) :
    Outcome s r s' := h.of_same ha.iv ha.active

/-- Sending the segments of a task once more takes its numbers out of the window. -/
def resendEnds (conf : TxConf) (env : TxEnv) (s : Sender) (id : ℕ) : Bool :=
  match s.sendTask conf env id with
  | .ok (_, s') => !isSeqAuthValid (s'.task id).ctx.seq (s'.task id).ctx.seqAuth
  | .error _ => false

def timeoutEnds (conf : TxConf) (env : TxEnv) (s : Sender) (id : ℕ) : Option ℕ :=
  let s := s.bumpRetry id
  if conf.retryTimes < (s.task id).retryTimes ∨ s.resendEnds conf env id then some id else none

def ackEnds (conf : TxConf) (env : TxEnv) (s : Sender) (zero : BitVec 13)
    (blockAck : BitVec 32) : Option ℕ :=
  match s.active.find? fun id => seqZero (s.task id).ctx.seqAuth = zero with
  | none => none
  | some id =>
    let t := s.bumpRetry id
    if (s.task id).segBits = blockAck ∨ blockAck = 0 ∨ conf.retryTimes < (t.task id).retryTimes ∨
      (t.setBlockAck id blockAck).resendEnds conf env id then some id else none

def store (s : Sender) (id : ℕ) (idle : List ℕ) (pdu : List Byte) (ctx : MsgCtx) : Sender :=
  { s with idle := idle }.setTask id
    { s.task id with
      ctx := ctx
      ppdu := some pdu
      pduLen := pdu.length
      segBits := setBits 0 (segNum ctx.ctl pdu.length)
      blockAck := 0
      retryTimes := 0
      gen := (s.task id).gen + 1 }

/-- The task that `meshx_lower_trans_process_seg_msg` takes, runs and ends. -/
def segMsgEnds (conf : TxConf) (env : TxEnv) (s : Sender) (pdu : List Byte) (ctx : MsgCtx) :
    Option ℕ :=
  match s.idle with
  | [] => none
  | id :: idle =>
    let t := s.store id idle pdu ctx
    if segNum ctx.ctl pdu.length ≤ maxSegSize ∧
      ¬ (s.active.any fun a =>
        (s.task a).ctx.dst == ctx.dst && (s.task a).ctx.seqAuth == ctx.seqAuth) ∧
      env.taskMallocOk ∧ ¬ (t.active.any fun a => (t.task a).ctx.dst == (t.task id).ctx.dst) ∧
      t.runEnds conf env id then some id else none

/-- The task that `meshx_lower_trans_send` takes, runs and ends. -/
def sendEnds (conf : TxConf) (env : TxEnv) (s : Sender) (pdu : List Byte) (ctx : MsgCtx) :
    Option ℕ :=
  if pdu.length ≠ 0 ∧ addressIsValid ctx.dst ∧ (ctx.seg || unsegSize ctx.ctl < pdu.length) then
    s.segMsgEnds conf env pdu { ctx with seg := true }
  else none

theorem taskFinish_outcome (hrun : s.taskFinish conf env id = .ok s') (hd : s.Distinct) :
    Outcome s (some id) s' := (taskFinishIn_ended hrun hd).outcome

theorem afterRetry_outcome {t : Sender} {ret : Errno}
    (hsend : s.sendTask conf env id = .ok (ret, t)) (hrun : t.afterRetry conf env id = .ok s')
    (hd : s.Distinct) : Outcome s (if s.resendEnds conf env id then some id else none) s' := by
  have halike := alike_sendTask hsend
  have hends : s.resendEnds conf env id =
      !isSeqAuthValid (t.task id).ctx.seq (t.task id).ctx.seqAuth := by
    rw [resendEnds, hsend]
  rw [hends]
  unfold afterRetry at hrun
  split_ifs at hrun with hvalid
  · rw [if_pos hvalid]
    exact (taskFinish_outcome hrun (halike.distinct hd)).of_alike halike
  · cases hrun
    rw [if_neg hvalid]
    exact .going halike.iv (halike.distinct hd)

theorem handleTxTimeout_outcome (hrun : s.handleTxTimeout conf env id = .ok s')
    (hd : s.Distinct) : Outcome s (s.timeoutEnds conf env id) s' := by
  have halike : Alike s (s.bumpRetry id) := alike_setTask _
  unfold handleTxTimeout at hrun
  unfold timeoutEnds
  dsimp only at hrun ⊢
  split_ifs at hrun with hmax
  · rw [if_pos (.inl hmax)]
    exact (taskFinish_outcome hrun (halike.distinct hd)).of_alike halike
  · obtain ⟨⟨ret, t⟩, ht, hrest⟩ := bind_ok hrun
    have hout := afterRetry_outcome ht hrest (halike.distinct hd)
    simpa [hmax] using hout.of_alike halike

theorem recvBlockAck_outcome {zero : BitVec 13} {blockAck : BitVec 32}
    (hrun : s.recvBlockAck conf env zero blockAck = .ok s') (hd : s.Distinct) :
    Outcome s (s.ackEnds conf env zero blockAck) s' := by
  unfold recvBlockAck at hrun
  unfold ackEnds
  generalize s.active.find? (fun id => seqZero (s.task id).ctx.seqAuth = zero) = found
    at hrun ⊢
  cases found with
  | none =>
    cases hrun
    exact .going rfl hd
  | some id =>
    have halike : Alike s (s.bumpRetry id) := alike_setTask _
    dsimp only at hrun ⊢
    split_ifs at hrun with hall hzero hmax
    · rw [if_pos (.inl hall)]
      exact taskFinish_outcome hrun hd
    · rw [if_pos (.inr (.inl hzero))]
      exact taskFinish_outcome hrun hd
    · rw [if_pos (.inr (.inr (.inl hmax)))]
      exact (taskFinish_outcome hrun (halike.distinct hd)).of_alike halike
    · obtain ⟨⟨ret, t⟩, ht, hrest⟩ := bind_ok hrun
      have halike' : Alike s ((s.bumpRetry id).setBlockAck id blockAck) :=
        halike.trans (alike_setTask _)
      have hout := afterRetry_outcome ht hrest (halike'.distinct hd)
      simp only [hall, hzero, hmax, false_or]
      exact hout.of_alike halike'

/-- A task that was in no list waits, is active, or has ended at once. -/
theorem taskTry_outcome {ret : Errno} (hrun : s.taskTry conf env id = .ok (ret, s'))
    (hd : s.Distinct)
    (hfree : s.idle.count id + s.active.count id + s.pending.count id = 0) :
    Outcome s (if ¬ (s.active.any fun a => (s.task a).ctx.dst == (s.task id).ctx.dst) ∧
      s.runEnds conf env id then some id else none) s' := by
  unfold taskTry at hrun
  split_ifs at hrun with hany
  · cases hrun
    rw [if_neg (fun hc => hc.1 hany)]
    refine .going rfl fun j => ?_
    have hj := hd j
    dsimp only
    rw [List.count_append]
    by_cases hji : j = id
    · subst hji
      rw [List.count_singleton_self]
      omega
    · have hnone : [id].count j = 0 := List.count_eq_zero.mpr (by simpa using hji)
      omega
  · rcases taskRun_cases (fun _ _ _ hf hs => taskFinishIn_ended hf hs) hrun hd hfree with
      ⟨hends, hcase⟩ | ⟨hends, hcase⟩
    · rw [if_neg (fun hc => by simp [hends] at hc)]
      exact .going hcase.iv (hcase.distinct (hd.append hfree))
    · rw [if_pos ⟨hany, hends⟩]
      exact .ended hcase.iv (fun a ha hne => hcase.kept a (List.mem_append_left _ ha) hne)
        (fun hc => (hcase.active id hc).1 rfl) hcase.distinct

theorem processSegMsg_outcome {pdu : List Byte} {ret : Errno}
    (hrun : s.processSegMsg conf env pdu ctx = .ok (ret, s')) (hd : s.Distinct) :
    Outcome s (s.segMsgEnds conf env pdu ctx) s' := by
  unfold processSegMsg at hrun
  unfold segMsgEnds
  dsimp only at hrun
  cases hidle : s.idle with
  | nil =>
    rw [hidle] at hrun
    dsimp only at hrun ⊢
    split_ifs at hrun <;> cases hrun <;> exact .going rfl hd
  | cons id idle =>
    rw [hidle] at hrun
    dsimp only at hrun ⊢
    by_cases hnum : maxSegSize < segNum ctx.ctl pdu.length
    · rw [if_pos hnum] at hrun
      cases hrun
      rw [if_neg (fun hc => by omega)]
      exact .going rfl hd
    rw [if_neg hnum] at hrun
    split_ifs at hrun with halready hmalloc
    · cases hrun
      rw [if_neg (fun hc => hc.2.1 halready)]
      exact .going rfl hd
    · cases hrun
      rw [if_neg (fun hc => by simp [hc.2.2.1] at hmalloc)]
      refine .going rfl fun j => ?_
      have hj := hd j
      rw [hidle, List.count_cons] at hj
      dsimp only
      rw [List.count_append, List.count_singleton]
      omega
    · have hfree : idle.count id + s.active.count id + s.pending.count id = 0 := by
        have := hd id
        rw [hidle, List.count_cons_self] at this
        omega
      have hd' : (s.store id idle pdu ctx).Distinct := by
        intro j
        have hj := hd j
        rw [hidle, List.count_cons] at hj
        change idle.count j + s.active.count j + s.pending.count j ≤ 1
        omega
      have hout := taskTry_outcome (s := s.store id idle pdu ctx) hrun hd' hfree
      have hmallocOk : env.taskMallocOk = true := by simpa using hmalloc
      simp only [show segNum ctx.ctl pdu.length ≤ maxSegSize by omega, halready, hmallocOk,
        Bool.false_eq_true, not_false_eq_true, true_and]
      exact hout.of_same rfl rfl

theorem lowerTransSend_outcome {pdu : List Byte} {ret : Errno}
    (hrun : s.lowerTransSend conf env pdu ctx = .ok (ret, s')) (hd : s.Distinct) :
    Outcome s (s.sendEnds conf env pdu ctx) s' := by
  unfold lowerTransSend at hrun
  unfold sendEnds
  split_ifs at hrun with hempty hvalid hseg
  · cases hrun
    rw [if_neg (fun hc => hc.1 hempty)]
    exact .going rfl hd
  · cases hrun
    rw [if_neg (fun hc => by simp [hc.2.1] at hvalid)]
    exact .going rfl hd
  · rw [if_pos ⟨hempty, by simpa using hvalid, hseg⟩]
    exact processSegMsg_outcome hrun hd
  · cases hrun
    rw [if_neg (fun hc => hseg hc.2.2)]
    exact .going rfl hd

end Sender

variable {c : Crypto} {conf : TxConf} {s s' : Sender} {e : TxEvent}

/-- The segmented transmission that an event ends, before it starts others. -/
def ends (c : Crypto) (conf : TxConf) (s : Sender) : TxEvent → Option ℕ
  | .send env data ctx =>
    let ctx := { ctx with ivIndex := ivIndexTxGet s.iv }
    match upperTransSend c conf.nodeAddr env.connected env.mallocOk s.seqArray data ctx with
    | .ok (seqArray, .lower pdu ctx _) =>
      let drawn := ctx.ctl || drawable s.seqArray (elementIndex conf.nodeAddr ctx.src)
      Sender.sendEnds conf env
        { s with seqArray := seqArray, exhausted := s.exhausted || !drawn } pdu ctx
    | _ => none
  | .timeout env id => s.timeoutEnds conf env id
  | .recvBlockAck env zero blockAck => s.ackEnds conf env zero blockAck
  | .segAck env blockAck rx =>
    let ctx := Sender.segAckCtx conf s rx
    let (seq, s) := s.draw conf ctx.src
    s.sendEnds conf env (Sender.segAckPdu (seqZero rx.seqAuth) blockAck) { ctx with seq := seq }
  | .ivUpdate _ _ | .ivTick | .ivTestMode _ | .ivOperateTime _ => none

/-- A step of the IV index module that leaves the lists alone. -/
def OfIv (e : TxEvent) : Prop :=
  match e with
  | .ivUpdate _ _ | .ivTick | .ivTestMode _ | .ivOperateTime _ => True
  | _ => False

theorem txStep_outcome (he : ¬ OfIv e) (hrun : txStep c conf s e = .ok s') (hd : s.Distinct) :
    s.Outcome (ends c conf s e) s' := by
  cases e with
  | send env data ctx =>
    obtain ⟨⟨ret, t⟩, ht, rfl⟩ := map_ok hrun
    obtain ⟨⟨seqArray, out⟩, hout, hrest⟩ := bind_ok ht
    rw [ends, hout]
    cases out with
    | ret err =>
      cases hrest
      exact .going rfl hd
    | lower pdu ctx call =>
      exact (Sender.lowerTransSend_outcome hrest hd).of_same rfl rfl
  | timeout env id => exact Sender.handleTxTimeout_outcome hrun hd
  | recvBlockAck env zero blockAck => exact Sender.recvBlockAck_outcome hrun hd
  | segAck env blockAck rx =>
    obtain ⟨⟨ret, t⟩, ht, rfl⟩ := map_ok hrun
    exact (Sender.lowerTransSend_outcome ht hd).of_same rfl rfl
  | ivUpdate ivIndex state => exact absurd trivial he
  | ivTick => exact absurd trivial he
  | ivTestMode flag => exact absurd trivial he
  | ivOperateTime time => exact absurd trivial he

/-- Between an update in progress and the normal state at the same IV index no segmented
transmission is under way the whole time. -/
def KeepsIv (c : Crypto) (conf : TxConf) (s : Sender) (e : TxEvent) : Prop :=
  ∀ s', txStep c conf s e = .ok s' → (∃ a ∈ s.active, a ∈ s'.active) →
    ¬ (s.iv.state = .inProgress ∧ s'.iv.state = .normal ∧ s'.iv.ivIndex = s.iv.ivIndex)

/-- No transmission ends beside another one while a transition is put off. -/
def EndsAlone (c : Crypto) (conf : TxConf) (s : Sender) (e : TxEvent) : Prop :=
  s.iv.transitPending = true → s.iv.state = .inProgress →
    ∀ id, ends c conf s e = some id → ∀ a ∈ s.active, a = id

theorem txStep_ivUpdate (ivIndex : BitVec 32) (state : IvState) :
    txStep c conf s (.ivUpdate ivIndex state) =
      .ok (s.ivMoved (ivStep s.iv (.update ivIndex state s.busy)).1
        (ivStep s.iv (.update ivIndex state s.busy)).2) := rfl

theorem txStep_ivTick :
    txStep c conf s .ivTick =
      .ok (s.ivMoved (ivStep s.iv (.tick s.busy)).1 (ivStep s.iv (.tick s.busy)).2) := rfl

/-- With a segmented transmission under way neither a beacon nor a tick goes back to the
normal state at the same IV index. -/
theorem ofIv_keeps (he : OfIv e) (hrun : txStep c conf s e = .ok s') (ha : s.active ≠ [])
    (hp : s.iv.state = .inProgress) (hi : s'.iv.ivIndex = s.iv.ivIndex) :
    s'.iv.state = .inProgress := by
  have hbusy : s.busy = true := by simpa [Sender.busy] using ha
  cases e with
  | ivUpdate ivIndex state =>
    obtain rfl := Except.ok.inj (txStep_ivUpdate ivIndex state ▸ hrun)
    have hcase := ivIndexUpdate_cases s.iv ivIndex state s.busy
    rw [Sender.ivMoved, ivStep] at hi ⊢
    generalize (ivIndexUpdate s.iv ivIndex state s.busy).2 = out at hcase hi ⊢
    cases hcase with
    | refused err _ => exact hp
    | started _ _ _ => rfl
    | pending _ _ _ _ => exact hp
    | ended _ _ _ hb => simp [hbusy] at hb
    | recovered hr =>
      obtain rfl : ivIndex = s.iv.ivIndex := hi
      cases state with
      | inProgress => rfl
      | normal => exact absurd (by simp [ivDistance, hp, IvState.not]) hr.2
  | ivTick =>
    obtain rfl := Except.ok.inj (txStep_ivTick ▸ hrun)
    have hcase := ivTick_cases s.iv s.busy
    rw [Sender.ivMoved, ivStep]
    generalize ivTick s.iv s.busy = out at hcase ⊢
    cases hcase with
    | counted => exact hp
    | pending _ _ => exact hp
    | ended _ hb => simp [hbusy] at hb
  | ivTestMode flag =>
    cases hrun
    exact hp
  | ivOperateTime time =>
    cases hrun
    exact hp
  | send env data ctx => exact he.elim
  | timeout env id => exact he.elim
  | recvBlockAck env zero blockAck => exact he.elim
  | segAck env blockAck rx => exact he.elim

theorem init_distinct (elementNum taskNum : ℕ) (ivIndex : BitVec 32) :
    (Sender.init elementNum taskNum ivIndex).Distinct := by
  intro j
  simpa [Sender.init] using List.nodup_iff_count_le_one.mp List.nodup_range j

theorem txStep_distinct (hd : s.Distinct) (hrun : txStep c conf s e = .ok s') : s'.Distinct := by
  by_cases he : OfIv e
  · cases e <;> first | exact he.elim | (cases hrun; exact hd)
  · have hout := txStep_outcome he hrun hd
    generalize ends c conf s e = r at hout
    cases hout with
    | going _ distinct => exact distinct
    | ended _ _ _ distinct => exact distinct

theorem keepsIv_iff (hd : s.Distinct) (hrun : txStep c conf s e = .ok s') :
    KeepsIv c conf s e ↔ EndsAlone c conf s e := by
  have hkeeps : KeepsIv c conf s e ↔ ((∃ a ∈ s.active, a ∈ s'.active) →
      ¬ (s.iv.state = .inProgress ∧ s'.iv.state = .normal ∧ s'.iv.ivIndex = s.iv.ivIndex)) :=
    ⟨fun h => h s' hrun, fun h t ht => by rwa [← Except.ok.inj (hrun.symm.trans ht)]⟩
  rw [hkeeps]
  by_cases he : OfIv e
  · have hnone : ends c conf s e = none := by
      cases e <;> first | exact he.elim | rfl
    refine iff_of_true ?_ fun _ _ id hid => by simp [hnone] at hid
    rintro ⟨a, ha, -⟩ ⟨hp, hn, hi⟩
    have := ofIv_keeps he hrun (List.ne_nil_of_mem ha) hp hi
    simp [hn] at this
  have hout := txStep_outcome he hrun hd
  rw [EndsAlone]
  generalize ends c conf s e = r at hout
  cases hout with
  | going hiv _ =>
    refine iff_of_true ?_ fun _ _ id hid => by cases hid
    rintro - ⟨hp, hn, -⟩
    simp [hiv, hp] at hn
  | @ended id _ hiv kept gone _ =>
    constructor
    · intro h hpending hp id' hid a ha
      obtain rfl := Option.some.inj hid
      by_contra hne
      refine h ⟨a, ha, kept a ha hne⟩ ⟨hp, ?_, ?_⟩ <;> simp [hiv, ivPendingNormal, hpending]
    · rintro h ⟨a, ha, ha'⟩ ⟨hp, hn, -⟩
      have hpending : s.iv.transitPending = true := by
        by_contra hc
        simp [hiv, ivPendingNormal, hc, hp] at hn
      exact gone (h hpending hp id rfl a ha ▸ ha')

/-- In every run the update in progress outlasts the segmented transmissions under way
exactly if no transmission ends beside another one while a transition is put off. -/
theorem segmented_keepsIv_iff {elementNum taskNum : ℕ} {ivIndex : BitVec 32} {es : List TxEvent}
    (hrun : run (txStep c conf) (Sender.init elementNum taskNum ivIndex) es = .ok s) :
    RunAll (txStep c conf) (KeepsIv c conf) (Sender.init elementNum taskNum ivIndex) es ↔
      RunAll (txStep c conf) (EndsAlone c conf) (Sender.init elementNum taskNum ivIndex) es :=
  RunAll.iff_of_run (fun _ _ _ hd h => txStep_distinct hd h) (fun _ _ _ hd h => keepsIv_iff hd h)
    (init_distinct elementNum taskNum ivIndex) hrun

/-- An update in progress that a tick cannot end under two segmented messages to different
destinations. -/
def pendingRun : List TxEvent :=
  [.ivOperateTime 29030400, .ivUpdate 6 .inProgress, .send plainEnv (List.replicate 20 7) plainMsg,
    .send plainEnv (List.replicate 20 7) { plainMsg with dst := 3 }, .ivTick]

/-- The ack of the first message ends the update under the second one. -/
theorem segmented_switchesIv : ∃ s,
    run (txStep maskCrypto plainConf) (Sender.init 1 2 5)
      (pendingRun ++ [.recvBlockAck plainEnv 0 3]) = .ok s ∧
    ¬ RunAll (txStep maskCrypto plainConf) (KeepsIv maskCrypto plainConf) (Sender.init 1 2 5)
      (pendingRun ++ [.recvBlockAck plainEnv 0 3]) := by
  obtain ⟨s, hs, hobs⟩ : ∃ s,
      run (txStep maskCrypto plainConf) (Sender.init 1 2 5) pendingRun = .ok s ∧
      (s.active, s.iv) = ([0, 1], ⟨6, .inProgress, false, true, 24192⟩) :=
    observe (by decide +kernel)
  obtain ⟨s', hs', hobs'⟩ : ∃ s', run (txStep maskCrypto plainConf) (Sender.init 1 2 5)
        (pendingRun ++ [.recvBlockAck plainEnv 0 3]) = .ok s' ∧
      (s'.active, s'.iv) = ([1], ⟨6, .normal, false, true, 24192⟩) :=
    observe (by decide +kernel)
  refine ⟨s', hs', fun h => ?_⟩
  obtain ⟨hactive, hiv⟩ := Prod.mk.inj hobs
  obtain ⟨hactive', hiv'⟩ := Prod.mk.inj hobs'
  rw [run_append, hs] at hs'
  obtain ⟨t, ht, hlast⟩ := run_cons_ok hs'
  cases hlast
  refine h.last hs s' ht ⟨1, ?_, ?_⟩ ⟨?_, ?_, ?_⟩
  · simp [hactive]
  · simp [hactive']
  · rw [hiv]
  · rw [hiv']
  · rw [hiv, hiv']

theorem segmented_keepsIv_example : ∃ s,
    run (txStep maskCrypto plainConf) (Sender.init 1 2 5) pendingRun = .ok s ∧
    (RunAll (txStep maskCrypto plainConf) (KeepsIv maskCrypto plainConf) (Sender.init 1 2 5)
        pendingRun ↔
      RunAll (txStep maskCrypto plainConf) (EndsAlone maskCrypto plainConf) (Sender.init 1 2 5)
        pendingRun) := by
  obtain ⟨s, hs, -⟩ : ∃ s,
      run (txStep maskCrypto plainConf) (Sender.init 1 2 5) pendingRun = .ok s ∧
      s.iv.transitPending = true := observe (by decide +kernel)
  exact ⟨s, hs, segmented_keepsIv_iff hs⟩

end Meshx.LowerTransTx
