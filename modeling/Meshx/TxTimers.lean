import Meshx.TxAcks

/-! The retry timers. Each is one of an active task, for the message that the task holds, and a
step ends the message of one active task at most. -/
namespace Meshx.LowerTransTx

open Lib AesCcm Security Sequence IvIndex UpperTrans Segment

namespace Sender

variable {conf : TxConf} {env : TxEnv} {s s' t : Sender} {id taskNum : ℕ} {p : Stage}
  {log : List Entry} {pdu : List Byte} {ctx : MsgCtx}

/-- The message for which a timer of the task was created, if there is a timer. -/
def timerGen (s : Sender) (id : ℕ) : Option ℕ := (s.task id).retryTimer.map Timer.gen

/-- The timers are those of active tasks, for the messages that these hold. -/
def Timed (s : Sender) : Prop :=
  ∀ id gen, s.timerGen id = some gen → id ∈ s.active ∧ gen = (s.task id).gen

/-- The same tasks are active, with the same messages and timers. -/
structure SameTimers (s s' : Sender) : Prop where
  active : s'.active = s.active
  gen : ∀ j, (s'.task j).gen = (s.task j).gen
  timer : ∀ j, s'.timerGen j = s.timerGen j

/-- Every active task, one perhaps excepted, stays active with its message. -/
def ActiveBut (s s' : Sender) (x : Option ℕ) : Prop :=
  ∀ j ∈ s.active, x ≠ some j → j ∈ s'.active ∧ (s'.task j).gen = (s.task j).gen

theorem SameTimers.refl (s : Sender) : SameTimers s s := ⟨rfl, fun _ => rfl, fun _ => rfl⟩

theorem SameTimers.trans (h₁ : SameTimers s t) (h₂ : SameTimers t s') : SameTimers s s' where
  active := h₂.active.trans h₁.active
  gen j := (h₂.gen j).trans (h₁.gen j)
  timer j := (h₂.timer j).trans (h₁.timer j)

theorem SameTimers.timed (h : SameTimers s s') (ht : s.Timed) : s'.Timed := by
  intro id gen hgen
  rw [h.timer] at hgen
  rw [h.active, h.gen]
  exact ht id gen hgen

theorem SameTimers.activeBut (h : SameTimers s s') (x : Option ℕ) : ActiveBut s s' x :=
  fun j hj _ => ⟨h.active ▸ hj, h.gen j⟩

theorem ActiveBut.trans {x : Option ℕ} (h₁ : ActiveBut s t none) (h₂ : ActiveBut t s' x) :
    ActiveBut s s' x := by
  intro j hj hx
  obtain ⟨ht, hgen⟩ := h₁ j hj (by simp)
  obtain ⟨hs', hgen'⟩ := h₂ j ht hx
  exact ⟨hs', hgen'.trans hgen⟩

section Same

theorem sameTimers_setTask {x : TxTask} (hgen : x.gen = (s.task id).gen)
    (htimer : x.retryTimer.map Timer.gen = s.timerGen id) : SameTimers s (s.setTask id x) where
  active := rfl
  gen j := by
    rw [setTask]
    dsimp only
    by_cases hj : j = id
    · rw [hj, Function.update_self, hgen]
    · rw [Function.update_of_ne hj]
  timer j := by
    rw [timerGen, setTask]
    dsimp only
    by_cases hj : j = id
    · rw [hj, Function.update_self, htimer]
    · rw [Function.update_of_ne hj, timerGen]

theorem sameTimers_bumpRetry : SameTimers s (s.bumpRetry id) := sameTimers_setTask rfl rfl

theorem sameTimers_setBlockAck {blockAck : BitVec 32} :
    SameTimers s (s.setBlockAck id blockAck) := sameTimers_setTask rfl rfl

theorem sameTimers_timerStart : SameTimers s (s.timerStart id) :=
  sameTimers_setTask rfl (by rw [timerGen, Option.map_map]; rfl)

theorem sameTimers_sendTask {ret : Errno} (hrun : s.sendTask conf env id = .ok (ret, s')) :
    SameTimers s s' := by
  obtain ⟨seq, htask⟩ := sendTask_task hrun
  have hset :=
    @sameTimers_setTask s id { s.task id with ctx := { (s.task id).ctx with seq := seq } } rfl rfl
  refine ⟨(alike_sendTask hrun).active, fun j => ?_, fun j => ?_⟩
  · rw [htask]
    exact hset.gen j
  · rw [timerGen, htask]
    exact hset.timer j

theorem sameTimers_afterRetryStage : SameTimers s (s.afterRetryStage id).state := by
  unfold afterRetryStage
  split_ifs
  · exact SameTimers.refl s
  · exact sameTimers_timerStart

theorem txTimeoutStage_sameTimers (hrun : s.txTimeoutStage conf env id = .ok p) :
    SameTimers s p.state := by
  unfold txTimeoutStage at hrun
  dsimp only at hrun
  split_ifs at hrun
  · cases hrun
    exact sameTimers_bumpRetry
  · obtain ⟨⟨ret, t⟩, ht, hrest⟩ := bind_ok hrun
    cases hrest
    exact (sameTimers_bumpRetry.trans (sameTimers_sendTask ht)).trans sameTimers_afterRetryStage

theorem blockAckStage_sameTimers {zero : BitVec 13} {blockAck : BitVec 32}
    (hrun : s.blockAckStage conf env zero blockAck = .ok p) : SameTimers s p.state := by
  unfold blockAckStage at hrun
  cases hfound : s.active.find? fun id => seqZero (s.task id).ctx.seqAuth = zero with
  | none =>
    rw [hfound] at hrun
    cases hrun
    exact SameTimers.refl s
  | some id =>
    rw [hfound] at hrun
    dsimp only at hrun
    split_ifs at hrun
    · cases hrun
      exact SameTimers.refl s
    · cases hrun
      exact SameTimers.refl s
    · cases hrun
      exact sameTimers_bumpRetry
    · obtain ⟨⟨ret, t⟩, ht, hrest⟩ := bind_ok hrun
      cases hrest
      exact ((sameTimers_bumpRetry.trans sameTimers_setBlockAck).trans
        (sameTimers_sendTask ht)).trans sameTimers_afterRetryStage

end Same

section Start

/-- A task that is started is active and has a timer for its message. -/
theorem Timed.started (h : s.Timed) : (s.started id).Timed := by
  intro j gen hgen
  rw [timerGen, Sender.started, setTask] at hgen
  rw [Sender.started, setTask]
  dsimp only at hgen ⊢
  by_cases hj : j = id
  · rw [hj, Function.update_self] at hgen ⊢
    obtain rfl := Option.some.inj hgen
    exact ⟨List.mem_append_right _ List.mem_cons_self, rfl⟩
  · rw [Function.update_of_ne hj] at hgen ⊢
    obtain ⟨hactive, heq⟩ := h j gen hgen
    exact ⟨List.mem_append_left _ hactive, heq⟩

theorem activeBut_started : ActiveBut s (s.started id) none := by
  intro j hj _
  refine ⟨List.mem_append_left _ hj, ?_⟩
  rw [started, setTask]
  dsimp only
  by_cases hji : j = id
  · rw [hji, Function.update_self]
  · rw [Function.update_of_ne hji]

theorem runStage_timers (hrun : s.runStage conf env id = .ok p) :
    ActiveBut s p.state none ∧ (s.Timed → p.state.Timed) ∧ ∀ j, p.finish = some j → j = id := by
  cases hok : env.timerOk id with
  | false =>
    rw [runStage_noTimer hrun hok]
    exact ⟨(SameTimers.refl s).activeBut none, fun ht => ht, fun j hj => (Option.some.inj hj).symm⟩
  | true =>
    have hfinish := (runStage_runs hrun hok).finish
    unfold runStage at hrun
    rw [if_neg (by simp [hok])] at hrun
    obtain ⟨⟨ret, t⟩, ht, hrest⟩ := bind_ok hrun
    have hsame := sameTimers_sendTask ht
    dsimp only at hrest
    split_ifs at hrest
    · cases hrest
      have hactive := activeBut_started.trans (hsame.activeBut none)
      exact ⟨hactive, fun h => hsame.timed h.started, hfinish⟩
    · cases hrest
      have hsame' := hsame.trans (@sameTimers_timerStart t id)
      exact ⟨activeBut_started.trans (hsame'.activeBut none), fun h => hsame'.timed h.started,
        hfinish⟩

theorem tryStage_timers (hrun : s.tryStage conf env id = .ok p) :
    ActiveBut s p.state none ∧ (s.Timed → p.state.Timed) ∧ ∀ j, p.finish = some j → j = id := by
  unfold tryStage at hrun
  split_ifs at hrun
  · cases hrun
    exact ⟨fun j hj _ => ⟨hj, rfl⟩, fun ht => ht, fun j hj => by cases hj⟩
  · exact runStage_timers hrun

/-- A task that is released has no timer. -/
theorem Released.timed (h : Released s id t) (ht : s.Timed) : t.Timed := by
  intro j gen hgen
  rw [timerGen, h.task] at hgen
  rw [h.active, h.task]
  by_cases hj : j = id
  · rw [hj, Function.update_self] at hgen
    cases hgen
  · rw [Function.update_of_ne hj] at hgen ⊢
    rw [List.mem_erase_of_ne hj]
    exact ht j gen hgen

theorem Finishes.timed (hf : Finishes conf env s id log s') (ht : s.Timed) : s'.Timed := by
  induction hf with
  | last release _ => exact (carryOut_released release).timed ht
  | next release _ runs _ =>
    exact (runStage_timers runs).2.1 ((carryOut_released release).timed ht)
  | again release _ runs _ _ ih =>
    exact ih ((runStage_timers runs).2.1 ((carryOut_released release).timed ht))

end Start

section Send

variable (h : Orderly taskNum s)
include h

/-- A task that is taken from the idle list has no timer. -/
theorem Orderly.store_timers {idle : List ℕ} (hidle : s.idle = id :: idle) :
    ActiveBut s (s.store id idle pdu ctx) none ∧ (s.Timed → (s.store id idle pdu ctx).Timed) ∧
      id ∉ s.active := by
  have hfree : id ∉ s.active := by
    intro hmem
    have hplaced := h.placed id
    have hpos := List.count_pos_iff.mpr hmem
    rw [hidle, List.count_cons_self] at hplaced
    split_ifs at hplaced <;> omega
  refine ⟨fun j hj _ => ⟨hj, ?_⟩, fun ht j gen hgen => ?_, hfree⟩
  · have hji : j ≠ id := fun heq => hfree (heq ▸ hj)
    rw [Sender.store, setTask]
    dsimp only
    rw [Function.update_of_ne hji]
  · rw [timerGen, Sender.store, setTask] at hgen
    rw [Sender.store, setTask]
    dsimp only at hgen ⊢
    by_cases hj : j = id
    · rw [hj, Function.update_self] at hgen
      exact absurd (ht id gen hgen).1 hfree
    · rw [Function.update_of_ne hj] at hgen ⊢
      exact ht j gen hgen

theorem Orderly.segMsgStage_timers (hrun : s.segMsgStage conf env pdu ctx = .ok p) :
    ActiveBut s p.state none ∧ (s.Timed → p.state.Timed) ∧
      ∀ j, p.finish = some j → j ∉ s.active := by
  have hsame : ActiveBut s s none ∧ (s.Timed → s.Timed) ∧
      ∀ j, none = some j → j ∉ s.active :=
    ⟨(SameTimers.refl s).activeBut none, fun ht => ht, fun j hj => by cases hj⟩
  obtain rfl | ⟨id, idle, -, rfl⟩ | ⟨id, idle, q, hidle, -, hq, rfl⟩ := segMsgStage_cases hrun
  · exact hsame
  · exact hsame
  · obtain ⟨hstore, htimed, hfree⟩ := @Orderly.store_timers s id taskNum pdu ctx h idle hidle
    obtain ⟨hactive, htimed', hfinish⟩ := tryStage_timers hq
    exact ⟨hstore.trans hactive, fun ht => htimed' (htimed ht),
      fun j hj => (hfinish j hj).symm ▸ hfree⟩

theorem Orderly.sendStage_timers (hrun : s.sendStage conf env pdu ctx = .ok p) :
    ActiveBut s p.state none ∧ (s.Timed → p.state.Timed) ∧
      ∀ j, p.finish = some j → j ∉ s.active := by
  have hsame : ActiveBut s s none ∧ (s.Timed → s.Timed) ∧
      ∀ j, none = some j → j ∉ s.active :=
    ⟨(SameTimers.refl s).activeBut none, fun ht => ht, fun j hj => by cases hj⟩
  unfold Sender.sendStage at hrun
  split_ifs at hrun
  · cases hrun
    exact hsame
  · cases hrun
    exact hsame
  · exact h.segMsgStage_timers hrun
  · cases hrun
    exact hsame

end Send

section Ends

theorem afterRetryStage_ends {ret : Errno} (hsend : s.sendTask conf env id = .ok (ret, t)) :
    (t.afterRetryStage id).finish = if s.resendEnds conf env id then some id else none := by
  rw [resendEnds, hsend]
  unfold afterRetryStage
  dsimp only
  split_ifs <;> rfl

/-- A timeout finishes the task if its tries are over, or its numbers fall out of the window. -/
theorem txTimeoutStage_finish (hrun : s.txTimeoutStage conf env id = .ok p) :
    p.finish = s.timeoutEnds conf env id := by
  unfold txTimeoutStage at hrun
  unfold timeoutEnds
  dsimp only at hrun ⊢
  split_ifs at hrun with hmax
  · cases hrun
    rw [if_pos (.inl hmax)]
    rfl
  · obtain ⟨⟨ret, t⟩, ht, hrest⟩ := bind_ok hrun
    cases hrest
    simp only [hmax, false_or]
    exact afterRetryStage_ends ht

theorem blockAckStage_finish {zero : BitVec 13} {blockAck : BitVec 32}
    (hrun : s.blockAckStage conf env zero blockAck = .ok p) :
    p.finish = s.ackEnds conf env zero blockAck := by
  unfold blockAckStage at hrun
  unfold ackEnds
  generalize s.active.find? (fun id => seqZero (s.task id).ctx.seqAuth = zero) = found
    at hrun ⊢
  cases found with
  | none =>
    cases hrun
    rfl
  | some id =>
    dsimp only at hrun ⊢
    split_ifs at hrun with hall hzero hmax
    · cases hrun
      rw [if_pos (.inl hall)]
      rfl
    · cases hrun
      rw [if_pos (.inr (.inl hzero))]
      rfl
    · cases hrun
      rw [if_pos (.inr (.inr (.inl hmax)))]
      rfl
    · obtain ⟨⟨ret, t⟩, ht, hrest⟩ := bind_ok hrun
      cases hrest
      simp only [hall, hzero, hmax, false_or]
      exact afterRetryStage_ends ht

end Ends

end Sender

variable {conf : TxConf} {s s' : Sender} {e : SchedEvent} {p : Stage} {taskNum : ℕ}

/-- The active task whose message a step ends. -/
def SchedEvent.ends (conf : TxConf) (s : Sender) : SchedEvent → Option ℕ
  | .ack env _ zero blockAck => s.ackEnds conf env zero blockAck
  | .timeout env id => s.timeoutEnds conf env id
  | .send _ _ _ | .elsewhere _ _ => none

theorem schedStage_timers (h : s.Orderly taskNum) (hp : schedStage conf s e = .ok p) :
    Sender.ActiveBut s p.state none ∧ (s.Timed → p.state.Timed) ∧
      ∀ j ∈ s.active, p.finish = some j → e.ends conf s = some j := by
  cases e with
  | send env pdu ctx =>
    obtain ⟨hactive, htimed, hfinish⟩ := h.sendStage_timers hp
    exact ⟨hactive, htimed, fun j hj hends => absurd hj (hfinish j hends)⟩
  | ack env src zero blockAck =>
    have hsame := Sender.blockAckStage_sameTimers hp
    exact ⟨hsame.activeBut none, hsame.timed, fun j _ hends =>
      (Sender.blockAckStage_finish hp).symm.trans hends⟩
  | timeout env id =>
    have hsame := Sender.txTimeoutStage_sameTimers hp
    exact ⟨hsame.activeBut none, hsame.timed, fun j _ hends =>
      (Sender.txTimeoutStage_finish hp).symm.trans hends⟩
  | elsewhere seqArray iv =>
    cases hp
    exact ⟨fun j hj _ => ⟨hj, rfl⟩, fun ht => ht, fun j _ hends => by cases hends⟩

/-- A step leaves the active tasks but the one whose message it ends, and the timers are those
of active tasks. -/
theorem Tidy.timers (h : Tidy taskNum s) (hrun : schedStep conf s e = .ok s') :
    Sender.ActiveBut s s' (e.ends conf s) ∧ (s.Timed → s'.Timed) := by
  rw [schedStep_stage] at hrun
  obtain ⟨p, hp, hcomplete⟩ := bind_ok hrun
  obtain ⟨hactive, htimed, hfinish⟩ := schedStage_timers h.orderly hp
  unfold Stage.complete at hcomplete
  cases hends : p.finish with
  | none =>
    rw [hends] at hcomplete
    cases hcomplete
    exact ⟨fun j hj _ => hactive j hj (by simp), htimed⟩
  | some id =>
    rw [hends] at hcomplete
    obtain ⟨log, hlog⟩ := Sender.taskFinish_finishes hcomplete
    have horderly := schedStage_orderly h.orderly hp fun j hj => by
      obtain rfl := Option.some.inj (hends.symm.trans hj)
      exact hlog.listed
    have hend := Sender.taskFinishIn_ended hcomplete horderly.distinct
    have hretains := (Sender.Finishes.retains horderly hlog).2
    refine ⟨fun j hj hne => ?_, fun ht => hlog.timed (htimed ht)⟩
    obtain ⟨hmem, hgen⟩ := hactive j hj (by simp)
    have hji : j ≠ id := fun heq => hne (hfinish j hj (heq ▸ hends))
    refine ⟨hend.kept j hmem hji, ?_⟩
    have houtline := congrArg TxTask.gen (hretains.outline j)
    simp only [TxTask.outline, TxTask.message] at houtline
    rw [houtline, hgen]

end Meshx.LowerTransTx
