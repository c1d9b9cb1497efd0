import Meshx.TxScheduler

/-! Segment acknowledgements: which tasks they are for, and what they leave of the others. -/
namespace Meshx.LowerTransTx

open Lib AesCcm Security Sequence IvIndex UpperTrans Segment

/-- A task without what sending or finishing its message changes. -/
def TxTask.outline (t : TxTask) : TxTask := { t.message with ppdu := none }

namespace Sender

variable {conf : TxConf} {env : TxEnv} {s s' t : Sender} {id next j taskNum : ℕ} {p : Stage}
  {dst : BitVec 16} {log : List Entry}

/-- A task and the lists it is in are as before. -/
structure Unchanged (s s' : Sender) (id : ℕ) : Prop where
  task : s'.task id = s.task id
  idle : id ∈ s'.idle ↔ id ∈ s.idle
  active : id ∈ s'.active ↔ id ∈ s.active
  pending : id ∈ s'.pending ↔ id ∈ s.pending

/-- Every task keeps its message and the acknowledgements it has. -/
structure Retains (s s' : Sender) : Prop where
  outline : ∀ j, (s'.task j).outline = (s.task j).outline
  blockAck : ∀ j, (s'.task j).blockAck = (s.task j).blockAck

/-- Nothing happens to the tasks for other destinations. -/
structure Spares (dst : BitVec 16) (s s' : Sender) : Prop extends Retains s s' where
  others : ∀ j, (s.task j).ctx.dst ≠ dst → Unchanged s s' j

theorem Unchanged.trans (h₁ : Unchanged s t id) (h₂ : Unchanged t s' id) : Unchanged s s' id :=
  ⟨h₂.task.trans h₁.task, h₂.idle.trans h₁.idle, h₂.active.trans h₁.active,
    h₂.pending.trans h₁.pending⟩

theorem Retains.trans (h₁ : Retains s t) (h₂ : Retains t s') : Retains s s' :=
  ⟨fun j => (h₂.outline j).trans (h₁.outline j), fun j => (h₂.blockAck j).trans (h₁.blockAck j)⟩

theorem Retains.dst_eq (h : Retains s s') (j : ℕ) : (s'.task j).ctx.dst = (s.task j).ctx.dst := by
  simpa [TxTask.outline, TxTask.message] using congrArg (·.ctx.dst) (h.outline j)

theorem Spares.trans (h₁ : Spares dst s t) (h₂ : Spares dst t s') : Spares dst s s' where
  toRetains := h₁.toRetains.trans h₂.toRetains
  others j hj := (h₁.others j hj).trans (h₂.others j (h₁.dst_eq j ▸ hj))

/-- The mask of every task has a bit for each of its segments. -/
def Masked (s : Sender) : Prop :=
  ∀ j, segNum (s.task j).ctx.ctl (s.task j).pduLen ≤ maxSegSize ∧
    (s.task j).segBits = setBits 0 (segNum (s.task j).ctx.ctl (s.task j).pduLen)

theorem Masked.of_outline (h : s.Masked) (ho : ∀ j, (s'.task j).outline = (s.task j).outline) :
    s'.Masked := by
  intro j
  have hbits := congrArg TxTask.segBits (ho j)
  have hctl := congrArg (·.ctx.ctl) (ho j)
  have hlen := congrArg TxTask.pduLen (ho j)
  simp only [TxTask.outline, TxTask.message] at hbits hctl hlen
  rw [hbits, hctl, hlen]
  exact h j

theorem Touches.outline_eq (h : Touches s id s') (j : ℕ) :
    (s'.task j).outline = (s.task j).outline := by
  rw [TxTask.outline, TxTask.outline, h.message_eq j]

theorem Touches.unchanged (h : Touches s id s') (hj : j ≠ id) : Unchanged s s' j where
  task := h.others j hj
  idle := by rw [h.idle]
  active := by rw [h.active]
  pending := by rw [h.pending]

section Frame

theorem sendTask_blockAck {ret : Errno} (hrun : s.sendTask conf env id = .ok (ret, s')) (j : ℕ) :
    (s'.task j).blockAck = (s.task j).blockAck := by
  obtain ⟨seq, htask⟩ := sendTask_task hrun
  rw [htask]
  by_cases hj : j = id
  · rw [hj, Function.update_self]
  · rw [Function.update_of_ne hj]

theorem setTask_blockAck {x : TxTask} (h : x.blockAck = (s.task id).blockAck) (j : ℕ) :
    ((s.setTask id x).task j).blockAck = (s.task j).blockAck := by
  rw [setTask]
  dsimp only
  by_cases hj : j = id
  · rw [hj, Function.update_self, h]
  · rw [Function.update_of_ne hj]

theorem timerStart_blockAck (j : ℕ) :
    ((s.timerStart id).task j).blockAck = (s.task j).blockAck := by
  unfold timerStart
  exact @setTask_blockAck s id { s.task id with
    retryTimer := (s.task id).retryTimer.map fun t => { t with active := true } } rfl j

theorem started_blockAck (j : ℕ) : ((s.started id).task j).blockAck = (s.task j).blockAck := by
  unfold started
  exact @setTask_blockAck s id { s.task id with
    retryTimer := some ⟨false, (s.task id).gen⟩ } rfl j

theorem afterRetryStage_blockAck (j : ℕ) :
    ((s.afterRetryStage id).state.task j).blockAck = (s.task j).blockAck := by
  unfold afterRetryStage
  split_ifs
  · rfl
  · exact timerStart_blockAck j

theorem runStage_retains (hrun : s.runStage conf env id = .ok p) : Retains s p.state := by
  cases hok : env.timerOk id with
  | false =>
    rw [runStage_noTimer hrun hok]
    exact ⟨fun _ => rfl, fun _ => rfl⟩
  | true =>
    refine ⟨fun j => (runStage_runs hrun hok).state.outline_eq j, fun j => ?_⟩
    unfold runStage at hrun
    rw [if_neg (by simp [hok])] at hrun
    obtain ⟨⟨ret, t⟩, ht, hrest⟩ := bind_ok hrun
    have hsend := (sendTask_blockAck ht j).trans (started_blockAck j)
    dsimp only at hrest
    split_ifs at hrest
    · cases hrest
      exact hsend
    · cases hrest
      exact (timerStart_blockAck j).trans hsend

theorem Released.retains (h : Released s id t) : Retains s t := by
  constructor <;> intro j <;> rw [h.task] <;> by_cases hj : j = id
  · rw [hj, Function.update_self]
    rfl
  · rw [Function.update_of_ne hj]
  · rw [hj, Function.update_self]
  · rw [Function.update_of_ne hj]

theorem Released.unchanged (h : Released s id t) (hj : j ≠ id) : Unchanged s t j where
  task := h.task_of_ne hj
  idle := by
    rw [h.idle, List.mem_append, List.mem_erase_of_ne hj]
    simp [hj]
  active := by rw [h.active, List.mem_erase_of_ne hj]
  pending := by rw [h.pending, List.mem_erase_of_ne hj]

theorem Runs.unchanged (h : Runs { s with pending := s.pending.erase id } id p) (hj : j ≠ id) :
    Unchanged s p.state j where
  task := h.state.others j hj
  idle := by rw [h.state.idle]
  active := by
    rw [h.state.active, List.mem_append]
    simp [hj]
  pending := by rw [h.state.pending, List.mem_erase_of_ne hj]

end Frame

section Finish

variable (h : Orderly taskNum s)
include h

/-- The task that is run in the place of another one sends to the same destination. -/
theorem Orderly.next_dst (hid : id ∈ s.active) (ht : Released s id t)
    (found : t.runnable = some next) : (t.task next).ctx.dst = (s.task id).ctx.dst := by
  have hfirst : (s.line.leave (s.entry id)).first Entry.dst = some (t.entry next) := by
    rw [← ht.line_eq (h.not_pending hid), first_line, found]
    rfl
  exact h.fair.first_key hfirst

theorem Orderly.next_spares (hid : id ∈ s.active) (release : s.carryOut id = .ok t)
    (found : t.runnable = some next)
    (runs : runStage conf env { t with pending := t.pending.erase next } next = .ok p)
    (hok : env.timerOk next = true) :
    Spares (s.task id).ctx.dst s p.state ∧
      (p.state.task next).ctx.dst = (s.task id).ctx.dst := by
  have ht := carryOut_released release
  have hdst := h.next_dst hid ht found
  have hkeeps := ht.retains
  have hrun := runStage_retains runs
  refine ⟨⟨hkeeps.trans ⟨hrun.outline, hrun.blockAck⟩, fun j hj => ?_⟩,
    (hrun.dst_eq next).trans hdst⟩
  refine (ht.unchanged fun heq => hj (heq ▸ rfl)).trans
    ((runStage_runs runs hok).unchanged fun heq => hj ?_)
  rw [← hdst, ← heq, hkeeps.dst_eq]

theorem Finishes.spares (hf : Finishes conf env s id log s') (hid : id ∈ s.active) :
    Spares (s.task id).ctx.dst s s' := by
  induction hf with
  | last release none_left =>
    have ht := carryOut_released release
    exact ⟨ht.retains, fun j hj => ht.unchanged fun heq => hj (heq ▸ rfl)⟩
  | next release found runs goes =>
    have hok := h.timerOk_next hid release found runs fun j hj => by simp [goes] at hj
    exact (h.next_spares hid release found runs hok).1
  | again release found runs ends rest ih =>
    have hok := h.timerOk_next hid release found runs fun j hj => by
      obtain rfl := Option.some.inj (ends.symm.trans hj)
      exact rest.listed
    obtain ⟨hspares, hdst⟩ := h.next_spares hid release found runs hok
    obtain ⟨horderly, hmem, -⟩ := h.runNext hid release found runs hok
    obtain rfl := (runStage_runs runs hok).finish _ ends
    exact hspares.trans (hdst ▸ ih horderly hmem)

/-- The end of a task that is not active leaves no destination free. -/
theorem Orderly.runnable_none (hid : id ∉ s.active) (ht : Released s id t) :
    t.runnable = none := by
  refine List.find?_eq_none.mpr fun q hq => ?_
  rw [ht.pending] at hq
  obtain ⟨a, ha, hdst⟩ := h.served q (List.mem_of_mem_erase hq)
  have hkeeps := ht.retains
  rw [List.all_eq_true]
  push Not
  refine ⟨a, ?_, ?_⟩
  · rw [ht.active, List.erase_of_not_mem hid]
    exact ha
  · simp [hkeeps.dst_eq, hdst]

theorem Orderly.released_inactive (hid : id ∉ s.active) (ht : Released s id t)
    (hlisted : id ∈ s.idle ∨ id ∈ s.active ∨ id ∈ s.pending) : Orderly taskNum t := by
  have hactive : t.active = s.active := by rw [ht.active, List.erase_of_not_mem hid]
  have hkeeps := ht.retains
  refine ⟨⟨h.placed_released ht hlisted, ?_, fun q hq => ?_⟩, h.loaded_released ht⟩
  · rw [hactive, funext hkeeps.dst_eq]
    exact h.apart
  · rw [ht.pending] at hq
    obtain ⟨a, ha, hdst⟩ := h.served q (List.mem_of_mem_erase hq)
    exact ⟨a, hactive ▸ ha, by rw [hkeeps.dst_eq, hkeeps.dst_eq, hdst]⟩

/-- Whatever task a transmission is finished for, the tasks stay in order and keep their
messages and acknowledgements. -/
theorem Finishes.retains (hf : Finishes conf env s id log s') :
    Orderly taskNum s' ∧ Retains s s' := by
  by_cases hid : id ∈ s.active
  · exact ⟨(Finishes.orderly h hid hf).1, (Finishes.spares h hf hid).toRetains⟩
  cases hf with
  | last release _ =>
    have ht := carryOut_released release
    exact ⟨h.released_inactive hid ht (carryOut_listed release), ht.retains⟩
  | next release found _ _ =>
    simp [h.runnable_none hid (carryOut_released release)] at found
  | again release found _ _ _ =>
    simp [h.runnable_none hid (carryOut_released release)] at found

end Finish

section Stages

/-- The task that an ack is taken to be for. -/
def ackedTask (s : Sender) (zero : BitVec 13) : Option ℕ :=
  s.active.find? fun id => seqZero (s.task id).ctx.seqAuth = zero

/-- What an ack does to the task it is taken to be for, up to where that is finished. -/
structure Acked (s : Sender) (id : ℕ) (blockAck : BitVec 32) (p : Stage) : Prop where
  touches : Touches s id p.state
  blockAck : (p.state.task id).blockAck = (s.task id).blockAck ∨
    (p.state.task id).blockAck = blockAck
  finish : p.finish = some id ∨
    p.finish = none ∧ (p.state.task id).retryTimes = (s.task id).retryTimes + 1

theorem sendTask_retryTimes {ret : Errno} (hrun : s.sendTask conf env id = .ok (ret, s')) :
    (s'.task id).retryTimes = (s.task id).retryTimes := by
  obtain ⟨seq, htask⟩ := sendTask_task hrun
  rw [htask, Function.update_self]

theorem bumpRetry_retryTimes :
    ((s.bumpRetry id).task id).retryTimes = (s.task id).retryTimes + 1 := by
  simp [bumpRetry, setTask]

theorem setBlockAck_retryTimes {blockAck : BitVec 32} :
    ((s.setBlockAck id blockAck).task id).retryTimes = (s.task id).retryTimes := by
  simp [setBlockAck, setTask]

theorem setBlockAck_blockAck {blockAck : BitVec 32} :
    ((s.setBlockAck id blockAck).task id).blockAck = blockAck := by
  simp [setBlockAck, setTask]

theorem bumpRetry_blockAck (j : ℕ) :
    ((s.bumpRetry id).task j).blockAck = (s.task j).blockAck := by
  unfold bumpRetry
  exact @setTask_blockAck s id { s.task id with
    retryTimes := (s.task id).retryTimes + 1 } rfl j

/-- After a repetition the task is finished or goes on. -/
theorem afterRetryStage_finish :
    (s.afterRetryStage id).finish = some id ∨ (s.afterRetryStage id).finish = none ∧
      ((s.afterRetryStage id).state.task id).retryTimes = (s.task id).retryTimes := by
  unfold afterRetryStage
  split_ifs
  · exact .inl rfl
  · exact .inr ⟨rfl, by simp [Stage.plain, timerStart, setTask]⟩

theorem blockAckStage_none {zero : BitVec 13} {blockAck : BitVec 32}
    (hnone : s.ackedTask zero = none) :
    s.blockAckStage conf env zero blockAck = .ok (.plain s none) := by
  unfold ackedTask at hnone
  rw [blockAckStage, hnone]

theorem blockAckStage_acked {zero : BitVec 13} {blockAck : BitVec 32}
    (hfound : s.ackedTask zero = some id)
    (hrun : s.blockAckStage conf env zero blockAck = .ok p) : Acked s id blockAck p := by
  unfold ackedTask at hfound
  rw [blockAckStage, hfound] at hrun
  dsimp only at hrun
  split_ifs at hrun
  · cases hrun
    exact ⟨⟨⟨rfl, rfl, rfl, rfl⟩, fun _ _ => rfl, rfl⟩, .inl rfl, .inl rfl⟩
  · cases hrun
    exact ⟨⟨⟨rfl, rfl, rfl, rfl⟩, fun _ _ => rfl, rfl⟩, .inl rfl, .inl rfl⟩
  · cases hrun
    exact ⟨touches_bumpRetry, .inl (bumpRetry_blockAck id), .inl rfl⟩
  · obtain ⟨⟨ret, t⟩, ht, hrest⟩ := bind_ok hrun
    cases hrest
    refine ⟨((touches_bumpRetry.trans touches_setBlockAck).trans (touches_sendTask ht)).trans
      touches_afterRetryStage, .inr ?_, afterRetryStage_finish.imp_right fun hend => ⟨hend.1, ?_⟩⟩
    · rw [afterRetryStage_blockAck, sendTask_blockAck ht, setBlockAck_blockAck]
    · rw [hend.2, sendTask_retryTimes ht, setBlockAck_retryTimes, bumpRetry_retryTimes]

theorem txTimeoutStage_retains (hrun : s.txTimeoutStage conf env id = .ok p) :
    Touches s id p.state ∧ ∀ j, (p.state.task j).blockAck = (s.task j).blockAck := by
  unfold txTimeoutStage at hrun
  dsimp only at hrun
  split_ifs at hrun
  · cases hrun
    exact ⟨touches_bumpRetry, bumpRetry_blockAck⟩
  · obtain ⟨⟨ret, t⟩, ht, hrest⟩ := bind_ok hrun
    cases hrest
    refine ⟨(touches_bumpRetry.trans (touches_sendTask ht)).trans touches_afterRetryStage,
      fun j => ?_⟩
    rw [afterRetryStage_blockAck, sendTask_blockAck ht, bumpRetry_blockAck]

theorem tryStage_retains (hrun : s.tryStage conf env id = .ok p) : Retains s p.state := by
  unfold tryStage at hrun
  split_ifs at hrun
  · cases hrun
    exact ⟨fun _ => rfl, fun _ => rfl⟩
  · exact runStage_retains hrun

theorem store_masked {idle : List ℕ} {pdu : List Byte} {ctx : MsgCtx} (h : s.Masked)
    (hnum : segNum ctx.ctl pdu.length ≤ maxSegSize) : (s.store id idle pdu ctx).Masked := by
  intro j
  rw [Sender.store, setTask]
  dsimp only
  by_cases hj : j = id
  · rw [hj, Function.update_self]
    exact ⟨hnum, rfl⟩
  · rw [Function.update_of_ne hj]
    exact h j

theorem store_blockAck {idle : List ℕ} {pdu : List Byte} {ctx : MsgCtx} (j : ℕ) :
    ((s.store id idle pdu ctx).task j).blockAck = (s.task j).blockAck ∨
      ((s.store id idle pdu ctx).task j).blockAck = 0 := by
  rw [Sender.store, setTask]
  dsimp only
  by_cases hj : j = id
  · rw [hj, Function.update_self]
    exact .inr rfl
  · rw [Function.update_of_ne hj]
    exact .inl rfl

/-- A message that is sent has no acknowledgements, and the others keep theirs. -/
structure Clears (s s' : Sender) : Prop where
  masked : s'.Masked
  blockAck : ∀ j, (s'.task j).blockAck = (s.task j).blockAck ∨ (s'.task j).blockAck = 0

theorem Retains.clears (hr : Retains s s') (h : s.Masked) : Clears s s' :=
  ⟨h.of_outline hr.outline, fun j => .inl (hr.blockAck j)⟩

theorem segMsgStage_clears {pdu : List Byte} {ctx : MsgCtx} (h : s.Masked)
    (hrun : s.segMsgStage conf env pdu ctx = .ok p) : Clears s p.state := by
  have hsame : Clears s s := Retains.clears ⟨fun _ => rfl, fun _ => rfl⟩ h
  obtain rfl | ⟨id, idle, -, rfl⟩ | ⟨id, idle, q, -, hnum, hq, rfl⟩ := segMsgStage_cases hrun
  · exact hsame
  · exact ⟨h, fun _ => .inl rfl⟩
  · have hkeeps := tryStage_retains hq
    refine ⟨(store_masked h hnum).of_outline hkeeps.outline, fun j => ?_⟩
    dsimp only
    rw [hkeeps.blockAck]
    exact store_blockAck j

theorem sendStage_clears {pdu : List Byte} {ctx : MsgCtx} (h : s.Masked)
    (hrun : s.sendStage conf env pdu ctx = .ok p) : Clears s p.state := by
  have hsame : Clears s s := Retains.clears ⟨fun _ => rfl, fun _ => rfl⟩ h
  unfold sendStage at hrun
  split_ifs at hrun
  · cases hrun
    exact hsame
  · cases hrun
    exact hsame
  · exact segMsgStage_clears h hrun
  · cases hrun
    exact ⟨h, fun _ => .inl rfl⟩

end Stages

end Sender

variable {conf : TxConf} {s s' : Sender} {e : SchedEvent} {p : Stage} {taskNum : ℕ}

/-- The tasks stay in order up to where one of them is finished. -/
theorem schedStage_orderly (h : s.Orderly taskNum) (hp : schedStage conf s e = .ok p)
    (hgo : ∀ id, p.finish = some id →
      id ∈ p.state.idle ∨ id ∈ p.state.active ∨ id ∈ p.state.pending) :
    p.state.Orderly taskNum := by
  cases e with
  | send env pdu ctx =>
    obtain ⟨q, hq, hcase⟩ := @Sender.Orderly.sendStage conf env s taskNum pdu ctx h
    obtain rfl := Except.ok.inj (hq.symm.trans hp)
    rcases hcase with hsettles | ⟨id, -, hid, hno⟩
    · exact hsettles.state
    · exact absurd (hgo id hid) hno
  | ack env src zero blockAck =>
    obtain ⟨q, hq, hsettles⟩ := @Sender.Orderly.blockAckStage conf env s taskNum zero blockAck h
    obtain rfl := Except.ok.inj (hq.symm.trans hp)
    exact hsettles.state
  | timeout env id => exact h.touches (Sender.txTimeoutStage_retains hp).1
  | elsewhere seqArray iv =>
    cases hp
    exact ⟨⟨h.placed, h.apart, h.served⟩, h.loaded⟩

/-- Bits of `block_ack` come from the mask of an ack, for the task it is taken to be for. -/
theorem schedStage_blockAck (h : s.Masked) (hp : schedStage conf s e = .ok p) :
    p.state.Masked ∧ ∀ j, (p.state.task j).blockAck = (s.task j).blockAck ∨
      (p.state.task j).blockAck = 0 ∨ ∃ env src zero, e = .ack env src zero
        (p.state.task j).blockAck ∧ s.ackedTask zero = some j := by
  cases e with
  | send env pdu ctx =>
    have hclears := Sender.sendStage_clears h hp
    exact ⟨hclears.masked, fun j => (hclears.blockAck j).imp_right .inl⟩
  | ack env src zero blockAck =>
    cases hfound : s.ackedTask zero with
    | none =>
      obtain rfl := Except.ok.inj ((Sender.blockAckStage_none hfound).symm.trans hp)
      exact ⟨h, fun _ => .inl rfl⟩
    | some id =>
      have hacked := Sender.blockAckStage_acked hfound hp
      refine ⟨h.of_outline hacked.touches.outline_eq, fun j => ?_⟩
      by_cases hj : j = id
      · rw [hj]
        refine hacked.blockAck.imp_right fun hmask => .inr ⟨env, src, zero, ?_, hfound⟩
        rw [hmask]
      · rw [hacked.touches.others j hj]
        exact .inl rfl
  | timeout env id =>
    obtain ⟨htouches, hkeeps⟩ := Sender.txTimeoutStage_retains hp
    exact ⟨h.of_outline htouches.outline_eq, fun j => .inl (hkeeps j)⟩
  | elsewhere seqArray iv =>
    cases hp
    exact ⟨h, fun _ => .inl rfl⟩

/-- The tasks are in order, and their masks match their messages. -/
structure Tidy (taskNum : ℕ) (s : Sender) : Prop where
  orderly : s.Orderly taskNum
  masked : s.Masked

theorem Tidy.step (h : Tidy taskNum s) (hrun : schedStep conf s e = .ok s') :
    Tidy taskNum s' := by
  obtain ⟨requested, started, hsteps⟩ := schedStep_steps hrun
  cases hsteps with
  | kept stage goes =>
    exact ⟨schedStage_orderly h.orderly stage fun id hid => by simp [goes] at hid,
      (schedStage_blockAck h.masked stage).1⟩
  | finished stage ends finishes =>
    have horderly := schedStage_orderly h.orderly stage fun id hid => by
      obtain rfl := Option.some.inj (ends.symm.trans hid)
      exact finishes.listed
    obtain ⟨hend, hkeeps⟩ := Sender.Finishes.retains horderly finishes
    exact ⟨hend, (schedStage_blockAck h.masked stage).1.of_outline hkeeps.outline⟩

theorem init_tidy (elementNum taskNum : ℕ) (ivIndex : BitVec 32) :
    Tidy taskNum (.init elementNum taskNum ivIndex) where
  orderly := init_orderly elementNum taskNum ivIndex
  masked j := by
    change segNum TxTask.zero.ctx.ctl TxTask.zero.pduLen ≤ maxSegSize ∧
      TxTask.zero.segBits = setBits 0 (segNum TxTask.zero.ctx.ctl TxTask.zero.pduLen)
    decide

/-- The event is an acknowledgement of the message of a task from its destination. -/
def AckFor (s : Sender) (e : SchedEvent) (id : ℕ) (blockAck : BitVec 32) : Prop :=
  ∃ env, e = .ack env (s.task id).ctx.dst (seqZero (s.task id).ctx.seqAuth) blockAck

/-- A task finishes as one all of whose segments have arrived. -/
def FullyAcked (s : Sender) (e : SchedEvent) (id : ℕ) : Prop :=
  ∃ env src zero blockAck, e = .ack env src zero blockAck ∧ s.ackedTask zero = some id ∧
    (s.task id).segBits = blockAck

/-- Tasks gain acknowledgements from their destinations only, and an ack of another node
leaves them alone. -/
structure FromDst (s : Sender) (e : SchedEvent) (s' : Sender) : Prop where
  gains : ∀ id i, (s'.task id).blockAck.getLsbD i = true →
    (s.task id).blockAck.getLsbD i = false →
    ∃ blockAck, AckFor s e id blockAck ∧ blockAck.getLsbD i = true
  finished : ∀ id, FullyAcked s e id → ∃ blockAck, AckFor s e id blockAck ∧
    ∀ i < segNum (s.task id).ctx.ctl (s.task id).pduLen, blockAck.getLsbD i = true
  spared : ∀ env src zero blockAck, e = .ack env src zero blockAck →
    ∀ id, (s.task id).ctx.dst ≠ src → Sender.Unchanged s s' id

/-- What a step does with acknowledgements. -/
def CountsDst (conf : TxConf) (s : Sender) (e : SchedEvent) : Prop :=
  ∀ s', schedStep conf s e = .ok s' → FromDst s e s'

/-- The active task that an ack finds by its SeqZero sends to the source of the ack. -/
def FoundOwn (s : Sender) (e : SchedEvent) : Prop :=
  ∀ env src zero blockAck, e = .ack env src zero blockAck →
    ∀ id, s.ackedTask zero = some id → (s.task id).ctx.dst = src

theorem ackedTask_some {zero : BitVec 13} {id : ℕ} (hfound : s.ackedTask zero = some id) :
    id ∈ s.active ∧ seqZero (s.task id).ctx.seqAuth = zero :=
  ⟨List.mem_of_find?_eq_some hfound, by simpa using List.find?_some hfound⟩

/-- An ack never leaves the task it is taken to be for as it was. -/
theorem acked_changes (h : s.Orderly taskNum) {env : TxEnv} {src : BitVec 16}
    {zero : BitVec 13} {blockAck : BitVec 32} {id : ℕ} (hfound : s.ackedTask zero = some id)
    (hrun : schedStep conf s (.ack env src zero blockAck) = .ok s') :
    ¬ Sender.Unchanged s s' id := by
  intro hsame
  rw [schedStep_stage] at hrun
  obtain ⟨p, hp, hcomplete⟩ := bind_ok hrun
  have hacked := Sender.blockAckStage_acked hfound hp
  have hid := (ackedTask_some hfound).1
  unfold Stage.complete at hcomplete
  rcases hacked.finish with hfinish | ⟨hfinish, hretry⟩
  · rw [hfinish] at hcomplete
    have hend := Sender.taskFinishIn_ended hcomplete (h.touches hacked.touches).distinct
    exact (hend.active id (hsame.active.mpr hid)).1 rfl
  · rw [hfinish] at hcomplete
    cases hcomplete
    rw [hsame.task] at hretry
    have hne : ∀ b : Byte, b ≠ b + 1 := by decide
    exact hne _ hretry

/-- An ack for a task of its source leaves the tasks of the others alone. -/
theorem acked_spares (h : s.Orderly taskNum) {env : TxEnv} {src : BitVec 16}
    {zero : BitVec 13} {blockAck : BitVec 32} {requested started : List Entry}
    (hown : ∀ id, s.ackedTask zero = some id → (s.task id).ctx.dst = src)
    (hsteps : Steps conf s (.ack env src zero blockAck) requested started s') {j : ℕ}
    (hj : (s.task j).ctx.dst ≠ src) : Sender.Unchanged s s' j := by
  cases hfound : s.ackedTask zero with
  | none =>
    have hnone := @Sender.blockAckStage_none conf env s zero blockAck hfound
    cases hsteps with
    | kept stage goes =>
      obtain rfl := Except.ok.inj (hnone.symm.trans stage)
      exact ⟨rfl, Iff.rfl, Iff.rfl, Iff.rfl⟩
    | finished stage ends finishes =>
      obtain rfl := Except.ok.inj (hnone.symm.trans stage)
      cases ends
  | some id =>
    have hdst := hown id hfound
    have hne : j ≠ id := fun heq => hj (heq ▸ hdst)
    cases hsteps with
    | kept stage goes =>
      exact (Sender.blockAckStage_acked hfound stage).touches.unchanged hne
    | @finished p id' log s' stage ends finishes =>
      have hacked := Sender.blockAckStage_acked hfound stage
      have htouches := hacked.touches
      have hid : id ∈ p.state.active := by
        rw [htouches.active]
        exact (ackedTask_some hfound).1
      have hentry : ∀ k, (p.state.task k).ctx.dst = (s.task k).ctx.dst :=
        fun k => congrArg Entry.dst (htouches.entry_eq k)
      obtain rfl : id = id' := by
        rcases hacked.finish with hfinish | ⟨hfinish, -⟩
        · exact Option.some.inj (hfinish.symm.trans ends)
        · simp [hfinish] at ends
      have hspares := Sender.Finishes.spares (h.touches htouches) finishes hid
      refine (htouches.unchanged hne).trans (hspares.others j ?_)
      rw [hentry, hentry, hdst]
      exact hj

theorem countsDst_of_foundOwn (h : Tidy taskNum s) (hown : FoundOwn s e) :
    CountsDst conf s e := by
  intro s' hrun
  obtain ⟨requested, started, hsteps⟩ := schedStep_steps hrun
  refine ⟨fun id i hset hclear => ?_, ?_, ?_⟩
  · obtain ⟨p, hp, hkeeps⟩ : ∃ p, schedStage conf s e = .ok p ∧
        (s'.task id).blockAck = (p.state.task id).blockAck := by
      cases hsteps with
      | kept stage goes => exact ⟨_, stage, rfl⟩
      | finished stage ends finishes =>
        have horderly := schedStage_orderly h.orderly stage fun id hid => by
          obtain rfl := Option.some.inj (ends.symm.trans hid)
          exact finishes.listed
        exact ⟨_, stage, (Sender.Finishes.retains horderly finishes).2.blockAck id⟩
    rw [hkeeps] at hset
    rcases (schedStage_blockAck h.masked hp).2 id with hsame | hzero | ⟨env, src, zero, he, hfound⟩
    · rw [hsame, hclear] at hset
      cases hset
    · simp [hzero] at hset
    · refine ⟨_, ⟨env, ?_⟩, hset⟩
      rw [hown env src zero _ he id hfound, (ackedTask_some hfound).2]
      exact he
  · rintro id ⟨env, src, zero, blockAck, rfl, hfound, hall⟩
    obtain ⟨hle, hbits⟩ := h.masked id
    refine ⟨blockAck, ⟨env, ?_⟩, fun i hi => ?_⟩
    · rw [hown env src zero blockAck rfl id hfound, (ackedTask_some hfound).2]
    · rw [← hall, hbits, getLsbD_setBits 0 _ (by simp only [maxSegSize] at hle; omega)]
      simp [hi]
  · rintro env src zero blockAck rfl id hdst
    exact acked_spares h.orderly (hown env src zero blockAck rfl) hsteps hdst

/-- A step counts the acks of destinations only just if the task its ack finds sends to the
source of the ack. -/
theorem countsDst_iff (h : Tidy taskNum s) (hrun : schedStep conf s e = .ok s') :
    CountsDst conf s e ↔ FoundOwn s e := by
  refine ⟨fun hcounts => ?_, countsDst_of_foundOwn h⟩
  rintro env src zero blockAck rfl id hfound
  by_contra hdst
  exact acked_changes h.orderly hfound hrun ((hcounts s' hrun).spared env src zero _ rfl id hdst)

/-- In every run of sends, timeouts and acks of any nodes, tasks gain acknowledgements from
their destinations only in exactly the runs whose every ack finds no active task by its
SeqZero, or first one that sends to the source of the ack. -/
theorem acks_counted_iff {elementNum : ℕ} {ivIndex : BitVec 32} {es : List SchedEvent}
    (hrun : run (schedStep conf) (.init elementNum taskNum ivIndex) es = .ok s) :
    RunAll (schedStep conf) (CountsDst conf) (.init elementNum taskNum ivIndex) es ↔
      RunAll (schedStep conf) FoundOwn (.init elementNum taskNum ivIndex) es :=
  RunAll.iff_of_run (fun _ _ _ h hs => h.step hs) (fun _ _ _ h hs => countsDst_iff h hs)
    (init_tidy elementNum taskNum ivIndex) hrun

/-- A message of two segments to node 2. -/
def sentRun : List SchedEvent := [.send plainEnv (List.replicate 20 7) plainMsg]

/-- An ack of node 9 with the same SeqZero finishes the message to node 2. -/
theorem acks_counted_fails : ¬ RunAll (schedStep plainConf) (CountsDst plainConf) (.init 1 1 5)
    (sentRun ++ [.ack plainEnv 9 0 3]) := by
  intro h
  obtain ⟨s, hs, hobs⟩ : ∃ s, run (schedStep plainConf) (.init 1 1 5) sentRun = .ok s ∧
      (s.active, (s.task 0).ctx.dst) = ([0], 2) := observe (by decide +kernel)
  obtain ⟨s', hs', hactive'⟩ : ∃ s', run (schedStep plainConf) (.init 1 1 5)
      (sentRun ++ [.ack plainEnv 9 0 3]) = .ok s' ∧ s'.active = [] := observe (by decide +kernel)
  obtain ⟨hactive, hdst⟩ := Prod.mk.inj hobs
  rw [run_append, hs] at hs'
  obtain ⟨t, ht, hlast⟩ := run_cons_ok hs'
  cases hlast
  have hspared := (h.last hs s' ht).spared plainEnv 9 0 3 rfl 0 (by rw [hdst]; decide)
  simpa [hactive, hactive'] using hspared.active

theorem acks_counted_example : ∃ s,
    run (schedStep plainConf) (.init 1 1 5) (sentRun ++ [.ack plainEnv 2 0 1]) = .ok s ∧
    (RunAll (schedStep plainConf) (CountsDst plainConf) (.init 1 1 5)
        (sentRun ++ [.ack plainEnv 2 0 1]) ↔
      RunAll (schedStep plainConf) FoundOwn (.init 1 1 5) (sentRun ++ [.ack plainEnv 2 0 1])) := by
  obtain ⟨s, hs, -⟩ : ∃ s, run (schedStep plainConf) (.init 1 1 5)
      (sentRun ++ [.ack plainEnv 2 0 1]) = .ok s ∧ s.active = [0] := observe (by decide +kernel)
  exact ⟨s, hs, acks_counted_iff hs⟩

end Meshx.LowerTransTx
