import Meshx.TxTimers

/-! The tries of segmented messages: how often a message has been tried, against what its task
counts in eight bits, and the retry timers that run or have expired. -/
namespace Meshx.LowerTransTx

open Lib AesCcm Security Sequence IvIndex UpperTrans Segment

/-- The task has counted at least the tries of its message, and no more than the limit. -/
structure TxTask.Tried (tries : ℕ → ℕ) (limit : ℕ) (t : TxTask) : Prop where
  counted : tries t.gen ≤ t.retryTimes.toNat
  le : t.retryTimes.toNat ≤ limit

/-- The retry timer of the task is running, or a timeout of it waits. -/
def TxTask.Beats (queued : ℕ → Prop) (t : TxTask) : Prop :=
  ∃ x, t.retryTimer = some x ∧ (x.active = true ∨ queued x.gen)

namespace Sender

/-- Every task that is not idle is within the limit and every active one has its timer, but for a
task that is about to be finished. `tries` counts by task and message, `queued` tells of which
messages a timeout waits. -/
structure Ticks (tries : ℕ → ℕ → ℕ) (limit : ℕ) (queued : ℕ → ℕ → Prop) (x : Option ℕ)
    (s : Sender) : Prop where
  tried : ∀ j, j ∈ s.active ∨ j ∈ s.pending → x ≠ some j → (s.task j).Tried (tries j) limit
  beats : ∀ j ∈ s.active, x ≠ some j → (s.task j).Beats (queued j)
  fresh : ∀ j gen, (s.task j).gen < gen → tries j gen = 0

/-- The count after a step that may be a try of the message of one task. -/
structure Counts (s : Sender) (id : ℕ) (tries tries' : ℕ → ℕ → ℕ) : Prop where
  others : ∀ j gen, j ≠ id → tries' j gen = tries j gen
  own : tries' id (s.task id).gen ≤ tries id (s.task id).gen + 1
  later : ∀ gen, (s.task id).gen < gen → tries' id gen = tries id gen

variable {conf : TxConf} {env : TxEnv} {s s' t : Sender} {id next taskNum limit : ℕ} {p : Stage}
  {log : List Entry} {tries tries' : ℕ → ℕ → ℕ} {queued queued' : ℕ → ℕ → Prop} {x : Option ℕ}

theorem Counts.refl (s : Sender) (id : ℕ) (tries : ℕ → ℕ → ℕ) : Counts s id tries tries where
  others _ _ _ := rfl
  own := Nat.le_succ _
  later _ _ := rfl

theorem Ticks.weaken (h : Ticks tries limit queued none s) (x : Option ℕ) :
    Ticks tries limit queued x s where
  tried j hj _ := h.tried j hj (by simp)
  beats j hj _ := h.beats j hj (by simp)
  fresh := h.fresh

theorem Touches.gen_eq (h : Touches s id s') (j : ℕ) : (s'.task j).gen = (s.task j).gen := by
  simpa [TxTask.message] using congrArg TxTask.gen (h.message_eq j)

/-- A step that changes one task only: it is about to be finished, or is as it has to be. -/
theorem Ticks.touched (h : Ticks tries limit queued none s) (ht : Touches s id s')
    (hcount : Counts s id tries tries') (hqueued : ∀ j gen, j ≠ id → queued j gen → queued' j gen)
    (hx : x = some id ∨
      (id ∈ s.active ∨ id ∈ s.pending → (s'.task id).Tried (tries' id) limit) ∧
      (id ∈ s.active → (s'.task id).Beats (queued' id))) : Ticks tries' limit queued' x s' where
  tried j hj hne := by
    rw [ht.active, ht.pending] at hj
    by_cases hji : j = id
    · subst hji
      rcases hx with hx | ⟨htried, -⟩
      · exact absurd hx hne
      · exact htried hj
    · have hold := h.tried j hj (by simp)
      rw [ht.others j hji]
      exact ⟨by rw [hcount.others _ _ hji]; exact hold.counted, hold.le⟩
  beats j hj hne := by
    rw [ht.active] at hj
    by_cases hji : j = id
    · subst hji
      rcases hx with hx | ⟨-, hbeats⟩
      · exact absurd hx hne
      · exact hbeats hj
    · obtain ⟨timer, htimer, hrun⟩ := h.beats j hj (by simp)
      rw [ht.others j hji]
      exact ⟨timer, htimer, hrun.imp_right (hqueued j timer.gen hji)⟩
  fresh j gen hgen := by
    rw [ht.gen_eq] at hgen
    by_cases hji : j = id
    · subst hji
      rw [hcount.later gen hgen, h.fresh j gen hgen]
    · rw [hcount.others j gen hji, h.fresh j gen hgen]

section Finish

/-- The task that is finished leaves the lists. -/
theorem Ticks.released (h : Ticks tries limit queued (some id) s) (hr : Released s id t)
    (hd : s.Distinct) : Ticks tries limit queued none t := by
  have hone := hd id
  have hactive (j : ℕ) (hj : j ∈ t.active) : j ∈ s.active ∧ j ≠ id := by
    rw [hr.active] at hj
    refine ⟨List.mem_of_mem_erase hj, ?_⟩
    rintro rfl
    exact not_mem_erase_of_count (by omega) hj
  have hpending (j : ℕ) (hj : j ∈ t.pending) : j ∈ s.pending ∧ j ≠ id := by
    rw [hr.pending] at hj
    refine ⟨List.mem_of_mem_erase hj, ?_⟩
    rintro rfl
    exact not_mem_erase_of_count (by omega) hj
  refine ⟨fun j hj _ => ?_, fun j hj _ => ?_, fun j gen hgen => ?_⟩
  · have hold : (j ∈ s.active ∨ j ∈ s.pending) ∧ j ≠ id := by
      rcases hj with hj | hj
      · exact ⟨.inl (hactive j hj).1, (hactive j hj).2⟩
      · exact ⟨.inr (hpending j hj).1, (hpending j hj).2⟩
    rw [hr.task_of_ne hold.2]
    exact h.tried j hold.1 (fun he => hold.2 (Option.some.inj he).symm)
  · obtain ⟨hmem, hne⟩ := hactive j hj
    rw [hr.task_of_ne hne]
    exact h.beats j hmem (fun he => hne (Option.some.inj he).symm)
  · refine h.fresh j gen ?_
    rw [hr.task] at hgen
    by_cases hji : j = id
    · rw [hji, Function.update_self] at hgen
      rw [hji]
      exact hgen
    · rwa [Function.update_of_ne hji] at hgen

theorem timerStart_self : (s.timerStart id).task id = { s.task id with
    retryTimer := (s.task id).retryTimer.map fun t => { t with active := true } } :=
  Function.update_self _ _ _

/-- Where the start of a task succeeds its timer runs. -/
theorem runStage_started (hrun : s.runStage conf env id = .ok p) (hok : env.timerOk id = true) :
    (p.state.task id).gen = (s.task id).gen ∧
      (p.state.task id).retryTimes = (s.task id).retryTimes ∧
      (p.finish = none → ∃ gen, (p.state.task id).retryTimer = some ⟨true, gen⟩) := by
  unfold runStage at hrun
  rw [if_neg (by simp [hok])] at hrun
  obtain ⟨⟨ret, u⟩, hu, hrest⟩ := bind_ok hrun
  obtain ⟨seq, htask⟩ := sendTask_task hu
  have hid : u.task id = { s.task id with
      ctx := { (s.task id).ctx with seq := seq }
      retryTimer := some ⟨false, (s.task id).gen⟩ } := by
    rw [htask, Function.update_self, started, setTask]
    dsimp only
    rw [Function.update_self]
  dsimp only at hrest
  split_ifs at hrest
  · cases hrest
    exact ⟨by rw [hid], by rw [hid], fun hf => by cases hf⟩
  · cases hrest
    refine ⟨?_, ?_, fun _ => ⟨(s.task id).gen, ?_⟩⟩
    · exact (congrArg TxTask.gen timerStart_self).trans (by rw [hid])
    · exact (congrArg TxTask.retryTimes timerStart_self).trans (by rw [hid])
    · exact (congrArg TxTask.retryTimer timerStart_self).trans (by rw [hid]; rfl)

/-- A task that is started is within the limit, and has its timer unless its start fails. -/
theorem Ticks.runStage (h : Ticks tries limit queued none s)
    (hid : (s.task id).Tried (tries id) limit) (hrun : s.runStage conf env id = .ok p) :
    Ticks tries limit queued p.finish p.state := by
  cases hok : env.timerOk id with
  | false =>
    rw [runStage_noTimer hrun hok]
    exact h.weaken _
  | true =>
    have hstate := (runStage_runs hrun hok).state
    obtain ⟨hgen, htimes, htimer⟩ := runStage_started hrun hok
    have hfinish := (runStage_runs hrun hok).finish
    refine ⟨fun j hj hne => ?_, fun j hj hne => ?_, fun j gen hlt => ?_⟩
    · by_cases hji : j = id
      · rw [hji]
        exact ⟨by rw [hgen, htimes]; exact hid.counted, by rw [htimes]; exact hid.le⟩
      · rw [hstate.others j hji]
        refine h.tried j (hj.imp (fun hmem => ?_) fun hmem => hstate.pending ▸ hmem) (by simp)
        rw [hstate.active] at hmem
        exact (List.mem_append.mp hmem).resolve_right fun hc => hji (List.mem_singleton.mp hc)
    · by_cases hji : j = id
      · subst hji
        have hgoes : p.finish = none := by
          cases hf : p.finish with
          | none => rfl
          | some k => exact absurd (hf.trans (congrArg some (hfinish k hf))) hne
        obtain ⟨gen, hrunning⟩ := htimer hgoes
        exact ⟨_, hrunning, .inl rfl⟩
      · rw [hstate.others j hji]
        refine h.beats j ?_ (by simp)
        rw [hstate.active] at hj
        exact (List.mem_append.mp hj).resolve_right fun hc => hji (List.mem_singleton.mp hc)
    · refine h.fresh j gen ?_
      by_cases hji : j = id
      · rw [hji] at hlt ⊢
        rwa [hgen] at hlt
      · rwa [hstate.others j hji] at hlt

theorem runStage_distinct (hd : s.Distinct)
    (hfree : s.idle.count id + s.active.count id + s.pending.count id = 0)
    (hrun : s.runStage conf env id = .ok p) : p.state.Distinct := by
  cases hok : env.timerOk id with
  | false =>
    rw [runStage_noTimer hrun hok]
    exact hd
  | true => exact (runStage_runs hrun hok).state.toAlike.distinct (hd.append hfree)

/-- The next task to be run, once the task that is finished is released. -/
theorem Ticks.runNext (h : Ticks tries limit queued (some id) s) (hd : s.Distinct)
    (release : s.carryOut id = .ok t) (found : t.runnable = some next)
    (runs : Sender.runStage conf env { t with pending := t.pending.erase next } next = .ok p) :
    Ticks tries limit queued p.finish p.state ∧ p.state.Distinct := by
  have ht := h.released (carryOut_released release) hd
  have hmem : next ∈ t.pending := List.mem_of_find?_eq_some found
  obtain ⟨hdu, hfree⟩ := (carryOut_ended release hd).1.distinct.erase_pending hmem
  have hu : Ticks tries limit queued none { t with pending := t.pending.erase next } :=
    ⟨fun j hj hne => ht.tried j (hj.imp_right List.mem_of_mem_erase) hne, ht.beats, ht.fresh⟩
  exact ⟨hu.runStage (ht.tried next (.inr hmem) (by simp)) runs, runStage_distinct hdu hfree runs⟩

theorem Ticks.finishes (h : Ticks tries limit queued (some id) s) (hd : s.Distinct)
    (hf : Finishes conf env s id log s') : Ticks tries limit queued none s' := by
  induction hf with
  | last release _ => exact h.released (carryOut_released release) hd
  | next release found runs goes =>
    have hnext := (h.runNext hd release found runs).1
    rwa [goes] at hnext
  | again release found runs ends _ ih =>
    obtain ⟨hnext, hdp⟩ := h.runNext hd release found runs
    rw [ends] at hnext
    exact ih hnext hdp

end Finish

section Retry

/-- After a repetition the task is about to be finished, or its timer runs. -/
theorem afterRetryStage_task : (s.afterRetryStage id).finish = some id ∨
    (s.afterRetryStage id).state = s.timerStart id := by
  unfold afterRetryStage
  split_ifs
  · exact .inl rfl
  · exact .inr rfl

/-- A repetition that is within the limit, after the task has counted it. -/
theorem Ticks.retry {ret : Errno} (h : Ticks tries limit queued none s) (ht : Touches s id t)
    (hcount : Counts s id tries tries') (hqueued : ∀ j gen, j ≠ id → queued j gen → queued' j gen)
    (htimes : (t.task id).retryTimes = (s.task id).retryTimes + 1) (hlimit : limit < 255)
    (hle : (t.task id).retryTimes.toNat ≤ limit)
    (htimer : (t.task id).retryTimer = (s.task id).retryTimer)
    (hsend : t.sendTask conf env id = .ok (ret, s')) :
    Ticks tries' limit queued' (s'.afterRetryStage id).finish (s'.afterRetryStage id).state := by
  have hs' := ht.trans (touches_sendTask hsend)
  obtain ⟨seq, htask⟩ := sendTask_task hsend
  have hid : s'.task id = { t.task id with ctx := { (t.task id).ctx with seq := seq } } := by
    rw [htask, Function.update_self]
  refine h.touched (hs'.trans touches_afterRetryStage) hcount hqueued ?_
  refine (@afterRetryStage_task s' id).imp_right fun hstate => ?_
  rw [hstate, timerStart_self, hid]
  refine ⟨fun hj => ⟨?_, hle⟩, fun hj => ?_⟩
  · have hold := h.tried id hj (by simp)
    have hold_le := hold.le
    have hold_counted := hold.counted
    have hown := hcount.own
    have hbump : (t.task id).retryTimes.toNat = (s.task id).retryTimes.toNat + 1 := by
      rw [htimes]
      bv_omega
    have hgen : (t.task id).gen = (s.task id).gen := ht.gen_eq id
    dsimp only
    rw [hgen, hbump]
    omega
  · obtain ⟨timer, hsome, -⟩ := h.beats id hj (by simp)
    refine ⟨{ timer with active := true }, ?_, .inl rfl⟩
    dsimp only
    rw [htimer, hsome]
    rfl

end Retry

/-- What is counted after a step that is a try of the message of a task, or of none. -/
def counted (tries : ℕ → ℕ → ℕ) (s : Sender) (x : Option ℕ) : ℕ → ℕ → ℕ := fun j gen =>
  tries j gen + if x = some j ∧ gen = (s.task j).gen then 1 else 0

@[simp] theorem counted_none : counted tries s none = tries := by
  funext j gen
  simp [counted]

theorem counts_counted : Counts s id tries (counted tries s (some id)) where
  others j gen hj := by
    rw [counted, if_neg fun h => hj (Option.some.inj h.1).symm, Nat.add_zero]
  own := by
    rw [counted, if_pos ⟨rfl, rfl⟩]
  later gen hgen := by
    rw [counted, if_neg fun h => (Nat.ne_of_lt hgen) h.2.symm, Nat.add_zero]

theorem Ticks.mono (h : Ticks tries limit queued x s)
    (hqueued : ∀ j gen, queued j gen → queued' j gen) : Ticks tries limit queued' x s where
  tried := h.tried
  beats j hj hne := by
    obtain ⟨timer, htimer, hrun⟩ := h.beats j hj hne
    exact ⟨timer, htimer, hrun.imp_right (hqueued j timer.gen)⟩
  fresh := h.fresh

section Stages

variable (hlimit : conf.retryTimes.toNat < 255)
include hlimit

theorem Ticks.txTimeoutStage (h : Ticks tries conf.retryTimes.toNat queued none s)
    (hcount : Counts s id tries tries') (hqueued : ∀ j gen, j ≠ id → queued j gen → queued' j gen)
    (hrun : s.txTimeoutStage conf env id = .ok p) :
    Ticks tries' conf.retryTimes.toNat queued' p.finish p.state := by
  unfold Sender.txTimeoutStage at hrun
  dsimp only at hrun
  split_ifs at hrun with hmax
  · cases hrun
    exact h.touched touches_bumpRetry hcount hqueued (.inl rfl)
  · obtain ⟨⟨ret, t⟩, ht, hrest⟩ := bind_ok hrun
    cases hrest
    exact h.retry touches_bumpRetry hcount hqueued bumpRetry_retryTimes hlimit (not_lt.mp hmax)
      (by simp [bumpRetry, setTask]) ht

theorem Ticks.blockAckStage {zero : BitVec 13} {blockAck : BitVec 32}
    (h : Ticks tries conf.retryTimes.toNat queued none s)
    (hrun : s.blockAckStage conf env zero blockAck = .ok p) :
    Ticks (counted tries s ((s.ackedTask zero).filter fun id =>
      (s.task id).segBits != blockAck && blockAck != 0)) conf.retryTimes.toNat queued
        p.finish p.state := by
  cases hfound : s.ackedTask zero with
  | none =>
    rw [blockAckStage_none hfound] at hrun
    cases hrun
    rw [Option.filter_none, counted_none]
    exact h
  | some id =>
    rw [Option.filter_some]
    unfold ackedTask at hfound
    rw [Sender.blockAckStage, hfound] at hrun
    dsimp only at hrun
    by_cases hall : (s.task id).segBits = blockAck
    · rw [if_pos hall] at hrun
      cases hrun
      rw [if_neg (by simp [hall]), counted_none]
      exact h.weaken _
    rw [if_neg hall] at hrun
    by_cases hzero : blockAck = 0
    · rw [if_pos hzero] at hrun
      cases hrun
      rw [if_neg (by simp [hzero]), counted_none]
      exact h.weaken _
    rw [if_neg hzero] at hrun
    have hpartial : ((s.task id).segBits != blockAck && blockAck != 0) = true :=
      (Bool.and_eq_true _ _).mpr ⟨bne_iff_ne.mpr hall, bne_iff_ne.mpr hzero⟩
    rw [if_pos hpartial]
    by_cases hmax : conf.retryTimes < ((s.bumpRetry id).task id).retryTimes
    · rw [if_pos hmax] at hrun
      cases hrun
      exact h.touched touches_bumpRetry counts_counted (fun _ _ _ hq => hq) (.inl rfl)
    · rw [if_neg hmax] at hrun
      obtain ⟨⟨ret, t⟩, ht, hrest⟩ := bind_ok hrun
      cases hrest
      have htimes : (((s.bumpRetry id).setBlockAck id blockAck).task id).retryTimes =
          (s.task id).retryTimes + 1 := by
        rw [setBlockAck_retryTimes, bumpRetry_retryTimes]
      refine h.retry (touches_bumpRetry.trans touches_setBlockAck) counts_counted
        (fun _ _ _ hq => hq) htimes hlimit ?_ (by simp [setBlockAck, bumpRetry, setTask]) ht
      rw [setBlockAck_retryTimes]
      exact not_lt.mp hmax

end Stages

section Send

variable {pdu : List Byte} {ctx : MsgCtx}

/-- A message that is stored has not been tried. -/
theorem Ticks.store (h : Ticks tries limit queued none s) (hd : s.Distinct) {idle : List ℕ}
    (hidle : s.idle = id :: idle) : Ticks tries limit queued none (s.store id idle pdu ctx) ∧
      ((s.store id idle pdu ctx).task id).Tried (tries id) limit := by
  have hone := hd id
  rw [hidle, List.count_cons_self] at hone
  have hactive : id ∉ s.active := fun hmem => by
    have := List.count_pos_iff.mpr hmem
    omega
  have hpending : id ∉ s.pending := fun hmem => by
    have := List.count_pos_iff.mpr hmem
    omega
  have hother (j : ℕ) (hj : j ≠ id) : (s.store id idle pdu ctx).task j = s.task j :=
    Function.update_of_ne hj _ _
  have hself : (s.store id idle pdu ctx).task id =
      { s.task id with
        ctx := ctx
        ppdu := some pdu
        pduLen := pdu.length
        segBits := setBits 0 (segNum ctx.ctl pdu.length)
        blockAck := 0
        retryTimes := 0
        gen := (s.task id).gen + 1 } := Function.update_self _ _ _
  refine ⟨⟨fun j hj _ => ?_, fun j hj _ => ?_, fun j gen hgen => ?_⟩, ?_⟩
  · have hne : j ≠ id := by
      rintro rfl
      exact hj.elim hactive hpending
    rw [hother j hne]
    exact h.tried j hj (by simp)
  · have hne : j ≠ id := by
      rintro rfl
      exact hactive hj
    rw [hother j hne]
    exact h.beats j hj (by simp)
  · by_cases hj : j = id
    · subst hj
      rw [hself] at hgen
      exact h.fresh j gen (Nat.lt_of_succ_lt hgen)
    · rw [hother j hj] at hgen
      exact h.fresh j gen hgen
  · rw [hself]
    refine ⟨?_, Nat.zero_le _⟩
    dsimp only
    rw [h.fresh id _ (Nat.lt_succ_self _)]
    exact Nat.zero_le _

theorem Ticks.tryStage (h : Ticks tries limit queued none s)
    (hid : (s.task id).Tried (tries id) limit) (hrun : s.tryStage conf env id = .ok p) :
    Ticks tries limit queued p.finish p.state := by
  unfold Sender.tryStage at hrun
  split_ifs at hrun
  · cases hrun
    refine ⟨fun j hj hne => ?_, h.beats, h.fresh⟩
    rcases hj with hj | hj
    · exact h.tried j (.inl hj) hne
    · rcases List.mem_append.mp hj with hj | hj
      · exact h.tried j (.inr hj) hne
      · rw [List.mem_singleton.mp hj]
        exact hid
  · exact h.runStage hid hrun

theorem Ticks.sendStage (h : Ticks tries limit queued none s) (hd : s.Distinct)
    (hrun : s.sendStage conf env pdu ctx = .ok p) : Ticks tries limit queued p.finish p.state := by
  unfold Sender.sendStage at hrun
  split_ifs at hrun
  · cases hrun
    exact h
  · cases hrun
    exact h
  · obtain rfl | ⟨id, idle, -, rfl⟩ | ⟨id, idle, q, hidle, -, hq, rfl⟩ := segMsgStage_cases hrun
    · exact h
    · exact ⟨h.tried, h.beats, h.fresh⟩
    · obtain ⟨hstore, hid⟩ := h.store hd hidle
      have htry := hstore.tryStage hid hq
      exact ⟨htry.tried, htry.beats, htry.fresh⟩
  · cases hrun
    exact ⟨h.tried, h.beats, h.fresh⟩

end Send

end Sender

/-- The task whose message an event tries once more: a partial ack, or a timeout. -/
def SchedEvent.tries (s : Sender) : SchedEvent → Option ℕ
  | .ack _ _ zero blockAck => (s.ackedTask zero).filter fun id =>
      (s.task id).segBits != blockAck && blockAck != 0
  | .timeout _ id => if id ∈ s.active then some id else none
  | .send _ _ _ | .elsewhere _ _ => none

variable {conf : TxConf} {s s' : Sender} {e : SchedEvent} {taskNum : ℕ} {tries : ℕ → ℕ → ℕ}
  {queued queued' : ℕ → ℕ → Prop}

/-- A step keeps every active message within the limit, with its timer. The timeout that is
handled need not wait any more. -/
theorem Sender.Ticks.schedStep (h : Sender.Ticks tries conf.retryTimes.toNat queued none s)
    (htidy : Tidy taskNum s) (hlimit : conf.retryTimes.toNat < 255)
    (hqueued : ∀ j gen, (∀ env, e ≠ .timeout env j) → queued j gen → queued' j gen)
    (hrun : schedStep conf s e = .ok s') :
    Sender.Ticks (Sender.counted tries s (e.tries s)) conf.retryTimes.toNat queued' none s' := by
  have hd := htidy.orderly.distinct
  rw [schedStep_stage] at hrun
  obtain ⟨p, hp, hcomplete⟩ := bind_ok hrun
  have hstage : Sender.Ticks (Sender.counted tries s (e.tries s)) conf.retryTimes.toNat queued'
      p.finish p.state := by
    cases e with
    | send env pdu ctx =>
      have hq := (h.mono fun j gen => hqueued j gen (fun _ he => by cases he))
      rw [SchedEvent.tries, Sender.counted_none]
      exact hq.sendStage hd hp
    | ack env src zero blockAck =>
      exact (h.mono fun j gen => hqueued j gen (fun _ he => by cases he)).blockAckStage hlimit hp
    | timeout env id =>
      have hq (j gen : ℕ) (hj : j ≠ id) : queued j gen → queued' j gen :=
        hqueued j gen fun _ he => hj (by cases he; rfl)
      by_cases hid : id ∈ s.active
      · rw [SchedEvent.tries, if_pos hid]
        exact h.txTimeoutStage hlimit Sender.counts_counted hq hp
      · rw [SchedEvent.tries, if_neg hid, Sender.counted_none]
        exact h.txTimeoutStage hlimit (.refl s id tries) hq hp
    | elsewhere seqArray iv =>
      cases hp
      rw [SchedEvent.tries, Sender.counted_none]
      have hq := (h.mono fun j gen => hqueued j gen (fun _ he => by cases he))
      exact ⟨hq.tried, hq.beats, hq.fresh⟩
  unfold Stage.complete at hcomplete
  cases hends : p.finish with
  | none =>
    rw [hends] at hcomplete hstage
    cases hcomplete
    exact hstage
  | some id =>
    rw [hends] at hcomplete hstage
    obtain ⟨log, hlog⟩ := Sender.taskFinish_finishes hcomplete
    have horderly := schedStage_orderly htidy.orderly hp fun j hj => by
      obtain rfl := Option.some.inj (hends.symm.trans hj)
      exact hlog.listed
    exact hstage.finishes horderly.distinct hlog

end Meshx.LowerTransTx
