import Meshx.TxStages
import Meshx.Lib.Line

/-! The scheduling of segmented messages: one at a time to each destination, the others in
the order in which they were requested. -/
namespace Meshx.LowerTransTx

open Lib AesCcm Security Sequence IvIndex UpperTrans Segment

/-- Of the tasks each is in one of the lists, one active task sends to a destination, and
only tasks for such a destination wait. -/
structure Scheduled (taskNum : ℕ) (s : Sender) : Prop where
  placed : ∀ j, s.idle.count j + s.active.count j + s.pending.count j = if j < taskNum then 1 else 0
  apart : (s.active.map fun a => (s.task a).ctx.dst).Nodup
  served : ∀ p ∈ s.pending, ∃ a ∈ s.active, (s.task p).ctx.dst = (s.task a).ctx.dst

/-- The messages to a destination. -/
def toDst (dst : BitVec 16) (xs : List Entry) : List Entry := Line.ofKey Entry.dst dst xs

namespace Sender

variable {conf : TxConf} {env : TxEnv} {s s' t : Sender} {id next j taskNum : ℕ} {p : Stage}
  {dst : BitVec 16} {log : List Entry}

/-- The scheduler as a line, in which the messages to one destination stand in the way of
each other. -/
def line (s : Sender) : Line Entry := ⟨s.active.map s.entry, s.pending.map s.entry⟩

/-- The tasks that are not idle hold their messages. -/
structure Orderly (taskNum : ℕ) (s : Sender) : Prop extends Scheduled taskNum s where
  loaded : ∀ j, j ∈ s.active ∨ j ∈ s.pending → (s.task j).ppdu.isSome

theorem count_singleton_of_ne (hj : j ≠ id) : [id].count j = 0 :=
  List.count_eq_zero.mpr (by simpa using hj)

theorem entry_injective : Function.Injective s.entry :=
  fun _ _ h => congrArg Entry.id h

section Line

theorem fair_iff : s.line.Fair Entry.dst ↔
    (s.active.map fun a => (s.task a).ctx.dst).Nodup ∧
      ∀ p ∈ s.pending, ∃ a ∈ s.active, (s.task p).ctx.dst = (s.task a).ctx.dst := by
  constructor
  · intro h
    refine ⟨by simpa [line, Function.comp_def, entry] using h.apart, fun p hp => ?_⟩
    obtain ⟨x, hx, hpx⟩ := h.served (s.entry p) (List.mem_map_of_mem hp)
    obtain ⟨a, ha, rfl⟩ := List.mem_map.mp hx
    exact ⟨a, ha, hpx⟩
  · rintro ⟨hapart, hserved⟩
    refine ⟨by simpa [line, Function.comp_def, entry] using hapart, fun x hx => ?_⟩
    obtain ⟨p, hp, rfl⟩ := List.mem_map.mp hx
    obtain ⟨a, ha, hpa⟩ := hserved p hp
    exact ⟨s.entry a, List.mem_map_of_mem ha, hpa⟩

theorem Orderly.fair (h : Orderly taskNum s) : s.line.Fair Entry.dst :=
  fair_iff.mpr ⟨h.apart, h.served⟩

theorem first_line : s.line.first Entry.dst = s.runnable.map s.entry := by
  rw [Line.first, line, List.find?_map]
  congr 2
  funext p
  simp [Line.free, entry, Function.comp_def]

theorem free_line : s.line.free Entry.dst (s.entry id) =
    !s.active.any fun a => (s.task a).ctx.dst == (s.task id).ctx.dst := by
  rw [Line.free, line, List.all_map, List.not_any_eq_all_not]
  congr 1
  funext a
  rw [Function.comp_apply, bne, BEq.comm]
  rfl

theorem line_serve : line { s with
      active := s.active ++ [id]
      pending := s.pending.erase id } = s.line.serve (s.entry id) := by
  rw [line, Line.serve, line]
  congr 1
  · exact List.map_append
  · exact List.map_erase entry_injective _

theorem line_wait : line { s with pending := s.pending ++ [id] } = s.line.wait (s.entry id) := by
  rw [line, Line.wait, line]
  congr 1
  exact List.map_append

theorem Touches.line_eq (h : Touches s id s') : s'.line = s.line := by
  rw [line, line, h.active, h.pending, funext h.entry_eq]

theorem Released.line_eq (h : Released s id t) (hid : id ∉ s.pending) :
    t.line = s.line.leave (s.entry id) := by
  rw [line, Line.leave, line, h.active, h.pending, funext h.entry_eq, List.erase_of_not_mem hid]
  congr 1
  exact List.map_erase entry_injective _

end Line

section Total

/-- The loop over the segments of a message in memory copies no more than a segment holds. -/
theorem sendSegs_total {data : List Byte} {pduLen : ℕ} {blockAck : BitVec 32} {rounds i : ℕ}
    {misc : BitVec 24} {ctx : MsgCtx} (hrounds : i + rounds = segNum ctx.ctl pduLen) :
    ∃ out, sendSegs conf (some data) pduLen (segNum ctx.ctl pduLen) blockAck rounds i
      (i * segSize ctx.ctl) misc ctx s = .ok out := by
  induction rounds generalizing i misc ctx s with
  | zero => exact ⟨_, rfl⟩
  | succ rounds ih =>
    have hnext : ∀ (misc : BitVec 24) (seq : BitVec 24) (s : Sender), ∃ out,
        sendSegs conf (some data) pduLen (segNum ctx.ctl pduLen) blockAck rounds (i + 1)
          (i * segSize ctx.ctl + segLen ctx.ctl pduLen (segNum ctx.ctl pduLen) i
            (i * segSize ctx.ctl)) misc { ctx with seq := seq } s = .ok out := by
      intro misc seq s
      by_cases hlast : segNum ctx.ctl pduLen = i + 1
      · obtain rfl : rounds = 0 := by omega
        exact ⟨_, rfl⟩
      · rw [MessageSizes.segLen_inner hlast, ← Nat.succ_mul]
        exact @ih s (i + 1) misc { ctx with seq := seq } (by dsimp only; omega)
    have hlen := (@MessageSizes.segLen_le ctx.ctl pduLen i).trans (show segSize ctx.ctl ≤ 16 by
      cases ctx.ctl <;> decide)
    rw [sendSegs]
    dsimp only
    by_cases hacked : blockAck &&& bit 32 i ≠ 0
    · rw [if_pos hacked]
      exact hnext misc ctx.seq s
    rw [if_neg hacked]
    split_ifs with hvalid hlong
    · exact ⟨_, rfl⟩
    · omega
    · exact hnext _ _ _

theorem sendTask_total (hid : (s.task id).ppdu.isSome) :
    ∃ ret t, s.sendTask conf env id = .ok (ret, t) := by
  obtain ⟨data, hdata⟩ := Option.isSome_iff_exists.mp hid
  obtain ⟨⟨ret, ctx, t⟩, hout⟩ := @sendSegs_total conf s data (s.task id).pduLen
    (s.task id).blockAck (segNum (s.task id).ctx.ctl (s.task id).pduLen) 0 (env.stack id)
    (s.task id).ctx (Nat.zero_add _)
  rw [Nat.zero_mul] at hout
  refine ⟨ret, t.setTask id { s.task id with ctx := ctx }, ?_⟩
  have hseg : sendSegMsg conf (s.task id).ppdu (s.task id).pduLen (s.task id).blockAck
      (env.stack id) (s.task id).ctx s = .ok (ret, ctx, t) := by rw [hdata, sendSegMsg, hout]
  rw [sendTask]
  dsimp only
  rw [hseg]
  rfl

theorem runStage_total (hid : (s.task id).ppdu.isSome) :
    ∃ p, s.runStage conf env id = .ok p := by
  unfold runStage
  split_ifs with hok
  · exact ⟨_, rfl⟩
  · obtain ⟨ret, t, hrun⟩ := @sendTask_total conf env (s.started id) id (by
      simpa [started, setTask] using hid)
    rw [hrun]
    by_cases hret : ret ≠ .success
    · exact ⟨_, if_pos hret⟩
    · exact ⟨_, if_neg hret⟩

end Total

section Steps

variable (h : Orderly taskNum s)
include h

theorem Orderly.touches (ht : Touches s id s') : Orderly taskNum s' where
  placed j := by
    rw [ht.idle, ht.active, ht.pending]
    exact h.placed j
  apart := (fair_iff.mp (ht.line_eq ▸ h.fair)).1
  served := (fair_iff.mp (ht.line_eq ▸ h.fair)).2
  loaded j hj := by
    rw [ht.ppdu_eq]
    rw [ht.active, ht.pending] at hj
    exact h.loaded j hj

theorem Orderly.not_pending (hid : id ∈ s.active) : id ∉ s.pending := by
  intro hmem
  have hplaced := h.placed id
  have hactive := List.count_pos_iff.mpr hid
  have hpending := List.count_pos_iff.mpr hmem
  split_ifs at hplaced <;> omega

theorem Orderly.distinct : s.Distinct := by
  intro j
  rw [h.placed j]
  split_ifs
  · exact le_rfl
  · exact Nat.zero_le 1

theorem Orderly.placed_released (ht : Released s id t)
    (hid : id ∈ s.idle ∨ id ∈ s.active ∨ id ∈ s.pending) (j : ℕ) :
    t.idle.count j + t.active.count j + t.pending.count j = if j < taskNum then 1 else 0 := by
  rw [← h.placed j, ht.idle, ht.active, ht.pending, List.count_append]
  rw [← List.count_pos_iff, ← List.count_pos_iff, ← List.count_pos_iff] at hid
  by_cases hj : j = id
  · subst hj
    have hle := h.distinct j
    rw [List.count_erase_self, List.count_erase_self, List.count_erase_self,
      List.count_singleton_self]
    omega
  · rw [List.count_erase_of_ne hj, List.count_erase_of_ne hj, List.count_erase_of_ne hj,
      count_singleton_of_ne hj]
    rfl

/-- The tasks that are left when one has been released still hold their messages. -/
theorem Orderly.loaded_released (ht : Released s id t) (j : ℕ)
    (hj : j ∈ t.active ∨ j ∈ t.pending) : (t.task j).ppdu.isSome := by
  have hle := h.distinct id
  rw [ht.active, ht.pending] at hj
  have hne : j ≠ id := by
    rintro rfl
    exact hj.elim (not_mem_erase_of_count (by omega)) (not_mem_erase_of_count (by omega))
  rw [ht.task_of_ne hne]
  exact h.loaded j (hj.imp List.mem_of_mem_erase List.mem_of_mem_erase)

/-- A task is released, and no pending task can be run. -/
theorem Orderly.released (hid : id ∈ s.active) (ht : Released s id t)
    (hnone : t.runnable = none) : Orderly taskNum t := by
  have hline := ht.line_eq (h.not_pending hid)
  have hfair : t.line.Fair Entry.dst := by
    rw [hline]
    refine h.fair.leave_none ?_
    rw [← hline, first_line, hnone]
    rfl
  exact ⟨⟨h.placed_released ht (.inr (.inl hid)), (fair_iff.mp hfair).1, (fair_iff.mp hfair).2⟩,
    h.loaded_released ht⟩

/-- A task is released, and a pending task is run in its place. -/
theorem Orderly.replaced (hid : id ∈ s.active) (ht : Released s id t)
    (hnext : t.runnable = some next) :
    Orderly taskNum { t with
      active := t.active ++ [next]
      pending := t.pending.erase next } := by
  have hline := ht.line_eq (h.not_pending hid)
  have hfair : Line.Fair Entry.dst (line { t with
      active := t.active ++ [next]
      pending := t.pending.erase next }) := by
    rw [line_serve, hline]
    refine h.fair.leave_some ?_
    rw [← hline, first_line, hnext]
    rfl
  have hmem := runnable_mem hnext
  refine ⟨⟨fun j => ?_, (fair_iff.mp hfair).1, (fair_iff.mp hfair).2⟩, fun j hj => ?_⟩
  · rw [← h.placed_released ht (.inr (.inl hid)) j]
    dsimp only
    rw [List.count_append]
    have hpos := List.count_pos_iff.mpr hmem
    by_cases hj : j = next
    · subst hj
      rw [List.count_erase_self, List.count_singleton_self]
      omega
    · rw [List.count_erase_of_ne hj, count_singleton_of_ne hj]
      rfl
  · refine h.loaded_released ht j ?_
    rcases hj with hj | hj
    · rcases List.mem_append.mp hj with hj | hj
      · exact .inl hj
      · exact .inr (List.mem_singleton.mp hj ▸ hmem)
    · exact .inr (List.mem_of_mem_erase hj)

end Steps

section Finish

variable (h : Orderly taskNum s) (hid : id ∈ s.active)
include h hid

/-- A pending task whose timer cannot be created is in no list when it is to be finished. -/
theorem Orderly.timerOk_next (release : s.carryOut id = .ok t) (found : t.runnable = some next)
    (runs : runStage conf env { t with pending := t.pending.erase next } next = .ok p)
    (hgoes : ∀ j, p.finish = some j → j ∈ p.state.idle ∨ j ∈ p.state.active ∨ j ∈ p.state.pending) :
    env.timerOk next = true := by
  by_contra hok
  obtain rfl := runStage_noTimer runs (by simpa using hok)
  have hplaced := h.placed_released (carryOut_released release) (.inr (.inl hid)) next
  have hpos := List.count_pos_iff.mpr (runnable_mem found)
  have herase := List.count_erase_self (a := next) (l := t.pending)
  have hnone : t.idle.count next + t.active.count next + (t.pending.erase next).count next = 0 := by
    split_ifs at hplaced <;> omega
  rcases hgoes next rfl with hmem | hmem | hmem
  · have := List.count_pos_iff.mpr (show next ∈ t.idle from hmem)
    omega
  · have := List.count_pos_iff.mpr (show next ∈ t.active from hmem)
    omega
  · have := List.count_pos_iff.mpr (show next ∈ t.pending.erase next from hmem)
    omega

/-- The task that is run in the place of one that is released waited first of those to its
destination. -/
theorem Orderly.runNext (release : s.carryOut id = .ok t) (found : t.runnable = some next)
    (runs : runStage conf env { t with pending := t.pending.erase next } next = .ok p)
    (hok : env.timerOk next = true) :
    Orderly taskNum p.state ∧ next ∈ p.state.active ∧ ∀ dst,
      toDst dst s.line.waiting = toDst dst p.started ++ toDst dst p.state.line.waiting := by
  have ht := carryOut_released release
  have hruns := runStage_runs runs hok
  refine ⟨(h.replaced hid ht found).touches hruns.state, ?_, fun dst => ?_⟩
  · rw [hruns.state.active]
    exact List.mem_append_right _ List.mem_cons_self
  · have hfirst : t.line.first Entry.dst = some (t.entry next) := by
      rw [first_line, found]
      rfl
    have hwaiting : s.line.waiting = t.line.waiting := by
      rw [ht.line_eq (h.not_pending hid)]
      rfl
    have hserve : p.state.line.waiting = t.line.waiting.erase (t.entry next) := by
      rw [hruns.state.line_eq]
      exact congrArg Line.waiting (line_serve (s := t))
    rw [hwaiting, hserve, hruns.started]
    exact Line.ofKey_first hfirst

omit h in
theorem carryOut_total : ∃ t, s.carryOut id = .ok t := by
  have hrun : s.release id = .ok _ := if_pos (.inr (.inl hid))
  rw [carryOut, hrun]
  exact ⟨_, rfl⟩

/-- Whatever waits, the calls come to an end. -/
theorem Orderly.taskFinishIn_total {depth : ℕ} (hok : ∀ j, env.timerOk j = true)
    (hdepth : s.pending.length ≤ depth) : ∃ s', s.taskFinishIn conf env depth id = .ok s' := by
  induction depth generalizing s id with
  | zero => exact carryOut_total hid
  | succ depth ih =>
    obtain ⟨t, ht⟩ := carryOut_total hid
    rw [taskFinishIn_succ, ht]
    change ∃ s', Sender.runNext conf env depth t = .ok s'
    cases hnext : t.runnable with
    | none =>
      rw [Sender.runNext, hnext]
      exact ⟨t, rfl⟩
    | some next =>
      have hrel := carryOut_released ht
      obtain ⟨p, hp⟩ := @runStage_total conf env { t with pending := t.pending.erase next } next
        (h.loaded_released hrel next (.inr (runnable_mem hnext)))
      obtain ⟨horderly, hmem, -⟩ := h.runNext hid ht hnext hp (hok next)
      have hruns := runStage_runs hp (hok next)
      have hlen : p.state.pending.length ≤ depth := by
        rw [hruns.state.pending]
        have herase := List.length_erase_of_mem (runnable_mem hnext)
        have heq : t.pending = s.pending := by
          rw [hrel.pending, List.erase_of_not_mem (h.not_pending hid)]
        have hpos := List.length_pos_of_mem (runnable_mem hnext)
        rw [heq] at herase hpos
        dsimp only
        rw [heq]
        omega
      rw [runNext_stage hnext, hp]
      cases hfinish : p.finish with
      | none => exact ⟨p.state, by simp [bind, Except.bind, Stage.complete, hfinish]⟩
      | some next' =>
        obtain rfl := hruns.finish _ hfinish
        obtain ⟨s', hs'⟩ := ih horderly hmem hlen
        exact ⟨s', by simp [bind, Except.bind, Stage.complete, hfinish, hs']⟩

/-- The end of a transmission ends in order, and the messages to a destination that it makes
active are those that waited first. -/
theorem Finishes.orderly (hf : Finishes conf env s id log s') :
    Orderly taskNum s' ∧
      ∀ dst, toDst dst s.line.waiting = toDst dst log ++ toDst dst s'.line.waiting := by
  induction hf with
  | last release none_left =>
    have ht := carryOut_released release
    refine ⟨h.released hid ht none_left, fun dst => ?_⟩
    rw [ht.line_eq (h.not_pending hid)]
    rfl
  | next release found runs goes =>
    have hok := h.timerOk_next hid release found runs fun j hj => by simp [goes] at hj
    obtain ⟨horderly, -, horder⟩ := h.runNext hid release found runs hok
    exact ⟨horderly, horder⟩
  | again release found runs ends rest ih =>
    have hok := h.timerOk_next hid release found runs fun j hj => by
      obtain rfl := Option.some.inj (ends.symm.trans hj)
      exact rest.listed
    obtain ⟨horderly, hmem, horder⟩ := h.runNext hid release found runs hok
    obtain rfl := (runStage_runs runs hok).finish _ ends
    obtain ⟨hend, hrest⟩ := ih horderly hmem
    refine ⟨hend, fun dst => ?_⟩
    rw [horder dst, hrest dst]
    simp [toDst]

end Finish

section Stages

/-- A call leaves order up to where it finishes a task, which is an active one. The messages
to a destination that it makes active waited first, or nothing waited. -/
structure Settles (taskNum : ℕ) (s : Sender) (p : Stage) : Prop where
  state : Orderly taskNum p.state
  finish : ∀ id, p.finish = some id → id ∈ p.state.active
  order : ∀ dst, toDst dst s.line.waiting ++ toDst dst p.requested =
    toDst dst p.started ++ toDst dst p.state.line.waiting

theorem Orderly.settles_none (h : Orderly taskNum s') (hline : s'.line = s.line) :
    Settles taskNum s (.plain s' none) where
  state := h
  finish _ hid := by cases hid
  order dst := by simp [Stage.plain, toDst, hline]

theorem Orderly.settles_some (h : Orderly taskNum s') (hid : id ∈ s'.active)
    (hline : s'.line = s.line) : Settles taskNum s (.plain s' (some id)) where
  state := h
  finish _ hid' := Option.some.inj hid' ▸ hid
  order dst := by simp [Stage.plain, toDst, hline]

theorem Orderly.afterRetryStage (h : Orderly taskNum s') (hid : id ∈ s'.active)
    (hline : s'.line = s.line) : Settles taskNum s (s'.afterRetryStage id) := by
  unfold Sender.afterRetryStage
  split_ifs
  · exact h.settles_some hid hline
  · exact (h.touches touches_timerStart).settles_none (touches_timerStart.line_eq.trans hline)

/-- The segments of an active task are sent once more. -/
theorem Orderly.resend (h : Orderly taskNum t) (hid : id ∈ t.active) (hline : t.line = s.line) :
    ∃ p, (t.sendTask conf env id >>= fun r => return r.2.afterRetryStage id) = .ok p ∧
      Settles taskNum s p := by
  obtain ⟨ret, u, hu⟩ := @sendTask_total conf env t id (h.loaded id (.inl hid))
  have htouches := touches_sendTask hu
  rw [hu]
  refine ⟨_, rfl, (h.touches htouches).afterRetryStage ?_ (htouches.line_eq.trans hline)⟩
  rw [htouches.active]
  exact hid

theorem Orderly.txTimeoutStage (h : Orderly taskNum s) (hid : id ∈ s.active) :
    ∃ p, s.txTimeoutStage conf env id = .ok p ∧ Settles taskNum s p := by
  have hbump := h.touches (@touches_bumpRetry s id)
  have hline := (@touches_bumpRetry s id).line_eq
  unfold Sender.txTimeoutStage
  dsimp only
  split_ifs
  · exact ⟨_, rfl, hbump.settles_some hid hline⟩
  · exact hbump.resend hid hline

theorem Orderly.blockAckStage {zero : BitVec 13} {blockAck : BitVec 32}
    (h : Orderly taskNum s) :
    ∃ p, s.blockAckStage conf env zero blockAck = .ok p ∧ Settles taskNum s p := by
  unfold Sender.blockAckStage
  cases hfound : s.active.find? fun id => seqZero (s.task id).ctx.seqAuth = zero with
  | none => exact ⟨_, rfl, h.settles_none rfl⟩
  | some id =>
    have hid : id ∈ s.active := List.mem_of_find?_eq_some hfound
    have hbump := h.touches (@touches_bumpRetry s id)
    have hline := (@touches_bumpRetry s id).line_eq
    dsimp only
    split_ifs
    · exact ⟨_, rfl, h.settles_some hid rfl⟩
    · exact ⟨_, rfl, h.settles_some hid rfl⟩
    · exact ⟨_, rfl, hbump.settles_some hid hline⟩
    · exact (hbump.touches touches_setBlockAck).resend hid
        (touches_setBlockAck.line_eq.trans hline)

/-- A task that has just been taken from the idle list, and is in no list. -/
structure Entering (taskNum : ℕ) (s : Sender) (id : ℕ) : Prop where
  placed : ∀ j, s.idle.count j + s.active.count j + s.pending.count j + [id].count j =
    if j < taskNum then 1 else 0
  fair : s.line.Fair Entry.dst
  loaded : ∀ j, j = id ∨ j ∈ s.active ∨ j ∈ s.pending → (s.task j).ppdu.isSome

/-- A task whose timer cannot be created is to be finished while it is in no list. -/
def Stuck (env : TxEnv) (p : Stage) : Prop :=
  ∃ id, env.timerOk id = false ∧ p.finish = some id ∧
    ¬ (id ∈ p.state.idle ∨ id ∈ p.state.active ∨ id ∈ p.state.pending)

theorem Entering.wait (h : Entering taskNum s id)
    (hbusy : s.line.free Entry.dst (s.entry id) = false) :
    Orderly taskNum { s with pending := s.pending ++ [id] } := by
  have hfair := h.fair.wait hbusy
  rw [← line_wait] at hfair
  refine ⟨⟨fun j => ?_, (fair_iff.mp hfair).1, (fair_iff.mp hfair).2⟩, fun j hj => ?_⟩
  · rw [← h.placed j]
    dsimp only
    rw [List.count_append]
    omega
  · refine h.loaded j ?_
    rcases hj with hj | hj
    · exact .inr (.inl hj)
    · exact (List.mem_append.mp hj).elim (fun hc => .inr (.inr hc))
        fun hc => .inl (List.mem_singleton.mp hc)

theorem Entering.not_listed (h : Entering taskNum s id) :
    ¬ (id ∈ s.idle ∨ id ∈ s.active ∨ id ∈ s.pending) := by
  have hplaced := h.placed id
  rw [List.count_singleton_self] at hplaced
  have hnone : s.idle.count id + s.active.count id + s.pending.count id = 0 := by
    split_ifs at hplaced
    omega
  rw [← List.count_pos_iff, ← List.count_pos_iff, ← List.count_pos_iff]
  omega

theorem Entering.line_run (h : Entering taskNum s id) :
    line { s with active := s.active ++ [id] } = s.line.serve (s.entry id) := by
  rw [← line_serve, List.erase_of_not_mem fun hmem => h.not_listed (.inr (.inr hmem))]

theorem Entering.run (h : Entering taskNum s id)
    (hfree : s.line.free Entry.dst (s.entry id) = true) :
    Orderly taskNum { s with active := s.active ++ [id] } := by
  have hfair := h.fair.serve hfree
  rw [← h.line_run] at hfair
  refine ⟨⟨fun j => ?_, (fair_iff.mp hfair).1, (fair_iff.mp hfair).2⟩, fun j hj => ?_⟩
  · rw [← h.placed j]
    dsimp only
    rw [List.count_append]
    omega
  · refine h.loaded j ?_
    rcases hj with hj | hj
    · exact (List.mem_append.mp hj).elim (fun hc => .inr (.inl hc))
        fun hc => .inl (List.mem_singleton.mp hc)
    · exact .inr (.inr hj)

/-- A message that is requested waits behind the others to its destination, or is made
active when there are none. -/
theorem Entering.tryStage (h : Entering taskNum s id) :
    ∃ p, s.tryStage conf env id = .ok p ∧
      (Settles taskNum s { p with requested := [s.entry id] } ∨ Stuck env p) := by
  have hfree := @free_line s id
  unfold Sender.tryStage
  by_cases hany : (s.active.any fun a => (s.task a).ctx.dst == (s.task id).ctx.dst) = true
  · rw [if_pos hany]
    rw [hany] at hfree
    refine ⟨_, rfl, .inl ⟨h.wait hfree, fun _ hid => (by cases hid), fun dst => ?_⟩⟩
    dsimp only [Stage.plain]
    rw [line_wait]
    simp [toDst, Line.wait]
  rw [if_neg hany]
  rw [Bool.not_eq_true] at hany
  rw [hany] at hfree
  obtain ⟨p, hp⟩ := @runStage_total conf env s id (h.loaded id (.inl rfl))
  refine ⟨p, hp, ?_⟩
  cases hok : env.timerOk id with
  | false =>
    rw [runStage_noTimer hp hok]
    exact .inr ⟨id, hok, rfl, h.not_listed⟩
  | true =>
    have hruns := runStage_runs hp hok
    refine .inl ⟨(h.run hfree).touches hruns.state, fun j hj => ?_, fun dst => ?_⟩
    · rw [hruns.finish j hj]
      dsimp only
      rw [hruns.state.active]
      exact List.mem_append_right _ List.mem_cons_self
    · have hline := hruns.state.line_eq.trans h.line_run
      have hwaiting : p.state.line.waiting = s.line.waiting := by
        rw [hline, Line.serve]
        refine List.erase_of_not_mem fun hmem => ?_
        obtain ⟨j, hj, heq⟩ := List.mem_map.mp hmem
        exact h.not_listed (.inr (.inr (entry_injective heq ▸ hj)))
      dsimp only
      rw [hruns.started, hwaiting]
      exact h.fair.ofKey_free hfree

/-- A task is taken from the idle list for a message. -/
theorem Orderly.store {idle : List ℕ} {pdu : List Byte} {ctx : MsgCtx} (h : Orderly taskNum s)
    (hidle : s.idle = id :: idle) :
    Entering taskNum (s.store id idle pdu ctx) id ∧
      (s.store id idle pdu ctx).line = s.line := by
  have hplaced : ∀ j, idle.count j + s.active.count j + s.pending.count j + [id].count j =
      if j < taskNum then 1 else 0 := by
    intro j
    have hj := h.placed j
    rw [hidle, List.count_cons] at hj
    rw [← hj, List.count_singleton]
    omega
  have hfree : ∀ j, j ∈ s.active ∨ j ∈ s.pending → j ≠ id := by
    rintro j hj rfl
    have hone := hplaced j
    rw [List.count_singleton_self] at hone
    have hle : idle.count j + s.active.count j + s.pending.count j + 1 ≤ 1 := by
      rw [hone]
      split_ifs
      · exact le_rfl
      · exact Nat.zero_le 1
    rcases hj with hj | hj
    · have hpos := List.count_pos_iff.mpr hj
      omega
    · have hpos := List.count_pos_iff.mpr hj
      omega
  have hline : (s.store id idle pdu ctx).line = s.line := by
    have hentry : ∀ j, j ≠ id → (s.store id idle pdu ctx).entry j = s.entry j := by
      intro j hj
      rw [entry, entry, Sender.store, setTask]
      dsimp only
      rw [Function.update_of_ne hj]
    rw [line, line]
    congr 1
    · exact List.map_congr_left fun j hj => hentry j (hfree j (.inl hj))
    · exact List.map_congr_left fun j hj => hentry j (hfree j (.inr hj))
  refine ⟨⟨hplaced, hline ▸ h.fair, fun j hj => ?_⟩, hline⟩
  by_cases hji : j = id
  · rw [hji, Sender.store, setTask]
    dsimp only
    rw [Function.update_self]
    rfl
  · rw [Sender.store, setTask]
    dsimp only
    rw [Function.update_of_ne hji]
    exact h.loaded j (hj.resolve_left hji)

theorem Orderly.segMsgStage {pdu : List Byte} {ctx : MsgCtx} (h : Orderly taskNum s) :
    ∃ p, s.segMsgStage conf env pdu ctx = .ok p ∧ (Settles taskNum s p ∨ Stuck env p) := by
  unfold Sender.segMsgStage
  by_cases hnum : maxSegSize < segNum ctx.ctl pdu.length
  · exact ⟨_, if_pos hnum, .inl (h.settles_none rfl)⟩
  rw [if_neg hnum]
  by_cases hexist : (s.active.any fun a =>
      (s.task a).ctx.dst == ctx.dst && (s.task a).ctx.seqAuth == ctx.seqAuth) = true
  · exact ⟨_, if_pos hexist, .inl (h.settles_none rfl)⟩
  rw [if_neg hexist]
  cases hidle : s.idle with
  | nil => exact ⟨_, rfl, .inl (h.settles_none rfl)⟩
  | cons id idle =>
    dsimp only
    split_ifs with hmalloc
    · refine ⟨_, rfl, .inl (Orderly.settles_none ⟨⟨fun j => ?_, h.apart, h.served⟩, h.loaded⟩
        rfl)⟩
      have hj := h.placed j
      rw [hidle, List.count_cons] at hj
      dsimp only
      rw [← hj, List.count_append, List.count_singleton]
    · obtain ⟨hentering, hline⟩ := @Orderly.store s id taskNum idle pdu ctx h hidle
      obtain ⟨p, hp, hcase⟩ := @Entering.tryStage conf env _ _ _ hentering
      rw [hp]
      refine ⟨_, rfl, hcase.imp_left fun hsettles => ?_⟩
      refine ⟨hsettles.state, hsettles.finish, fun dst => ?_⟩
      rw [← hline]
      exact hsettles.order dst

theorem Orderly.sendStage {pdu : List Byte} {ctx : MsgCtx} (h : Orderly taskNum s) :
    ∃ p, s.sendStage conf env pdu ctx = .ok p ∧ (Settles taskNum s p ∨ Stuck env p) := by
  unfold Sender.sendStage
  split_ifs
  · exact ⟨_, rfl, .inl (h.settles_none rfl)⟩
  · exact ⟨_, rfl, .inl (h.settles_none rfl)⟩
  · exact h.segMsgStage
  · exact ⟨_, rfl,
      .inl (Orderly.settles_none ⟨⟨h.placed, h.apart, h.served⟩, h.loaded⟩ rfl)⟩

end Stages

end Sender

variable {conf : TxConf} {s s' : Sender} {e : SchedEvent} {taskNum : ℕ}

/-- Timers can be created, messages are for other nodes, and timeouts are those of active
tasks. -/
def Admitted (conf : TxConf) (s : Sender) : SchedEvent → Prop
  | .send env _ ctx => (∀ j, env.timerOk j = true) ∧ ctx.dst ≠ conf.nodeAddr
  | .ack env _ _ _ => ∀ j, env.timerOk j = true
  | .timeout env id => (∀ j, env.timerOk j = true) ∧ id ∈ s.active
  | .elsewhere _ _ => True

theorem Admitted.timerOk (h : Admitted conf s e) : ∀ j, e.env.timerOk j = true := by
  cases e with
  | send env pdu ctx => exact h.1
  | ack env src zero blockAck => exact h
  | timeout env id => exact h.1
  | elsewhere seqArray iv => exact fun _ => rfl

theorem schedStage_settles (h : s.Orderly taskNum) (he : Admitted conf s e) :
    ∃ p, schedStage conf s e = .ok p ∧ Sender.Settles taskNum s p := by
  cases e with
  | send env pdu ctx =>
    obtain ⟨p, hp, hsettles | ⟨id, hok, -⟩⟩ :=
      @Sender.Orderly.sendStage conf env s taskNum pdu ctx h
    · exact ⟨p, hp, hsettles⟩
    · simp [he.1 id] at hok
  | ack env src zero blockAck => exact h.blockAckStage
  | timeout env id => exact h.txTimeoutStage he.2
  | elsewhere seqArray iv =>
    exact ⟨_, rfl, Sender.Orderly.settles_none
      ⟨⟨h.placed, h.apart, h.served⟩, h.loaded⟩ rfl⟩

theorem init_orderly (elementNum taskNum : ℕ) (ivIndex : BitVec 32) :
    (Sender.init elementNum taskNum ivIndex).Orderly taskNum where
  placed j := by simp [Sender.init, List.count_range]
  apart := List.nodup_nil
  served _ hp := by cases hp
  loaded _ hj := by rcases hj with hj | hj <;> cases hj

/-- A step in order comes to its end. -/
theorem schedStep_total (h : s.Orderly taskNum) (he : Admitted conf s e) :
    ∃ s', schedStep conf s e = .ok s' := by
  obtain ⟨p, hp, hsettles⟩ := schedStage_settles h he
  rw [schedStep_stage, hp]
  cases hfinish : p.finish with
  | none => exact ⟨p.state, by simp [bind, Except.bind, Stage.complete, hfinish]⟩
  | some id =>
    obtain ⟨s', hs'⟩ := @Sender.Orderly.taskFinishIn_total conf _ _ _ _ hsettles.state
      (hsettles.finish id hfinish) _ he.timerOk le_rfl
    refine ⟨s', ?_⟩
    simp only [bind, Except.bind, Stage.complete, hfinish]
    exact hs'

/-- A step keeps the order. What it makes active for a destination, followed by what waits
for it, is what has waited for it and is requested, one after the other. -/
theorem Steps.orderly {requested started : List Entry} (h : s.Orderly taskNum)
    (he : Admitted conf s e) (hsteps : Steps conf s e requested started s') :
    s'.Orderly taskNum ∧ ∀ dst, toDst dst s.line.waiting ++ toDst dst requested =
      toDst dst started ++ toDst dst s'.line.waiting := by
  obtain ⟨q, hq, hsettles⟩ := schedStage_settles h he
  cases hsteps with
  | kept stage goes =>
    obtain rfl := Except.ok.inj (hq.symm.trans stage)
    exact ⟨hsettles.state, hsettles.order⟩
  | finished stage ends finishes =>
    obtain rfl := Except.ok.inj (hq.symm.trans stage)
    obtain ⟨horderly, horder⟩ := finishes.orderly hsettles.state (hsettles.finish _ ends)
    refine ⟨horderly, fun dst => ?_⟩
    rw [hsettles.order dst, horder dst]
    simp [toDst]

/-- A run in order comes to its end, and so it is over the whole run. -/
theorem traced_of_admitted {es : List SchedEvent} (h : s.Orderly taskNum)
    (hall : RunAll (schedStep conf) (Admitted conf) s es) :
    ∃ requested started s', run (schedStep conf) s es = .ok s' ∧
      Traced conf s es requested started s' ∧ s'.Orderly taskNum ∧
      ∀ dst, toDst dst s.line.waiting ++ toDst dst requested =
        toDst dst started ++ toDst dst s'.line.waiting := by
  induction es generalizing s with
  | nil => exact ⟨[], [], s, rfl, .nil, h, fun dst => by simp [toDst]⟩
  | cons e es ih =>
    obtain ⟨t, ht⟩ := schedStep_total h hall.1
    obtain ⟨requested, started, hsteps⟩ := schedStep_steps ht
    obtain ⟨horderly, hfirst⟩ := hsteps.orderly h hall.1
    obtain ⟨requested', started', s', hrun, htraced, horderly', hrest⟩ :=
      ih horderly (hall.2 t ht)
    refine ⟨requested ++ requested', started ++ started', s', ?_, .cons hsteps htraced,
      horderly', fun dst => ?_⟩
    · rw [run, ht]
      exact hrun
    · have happend : ∀ xs ys, toDst dst (xs ++ ys) = toDst dst xs ++ toDst dst ys :=
        Line.ofKey_append
      rw [happend, happend, ← List.append_assoc, hfirst dst, List.append_assoc, hrest dst,
        List.append_assoc]

/-- In every run of sends, acks and timeouts of active tasks the calls come to an end, every
task is in one list, one active task sends to a destination, only tasks for such a
destination wait, and tasks for a destination are made active in the order in which they
were requested. -/
theorem tasks_scheduled {elementNum : ℕ} {ivIndex : BitVec 32} {es : List SchedEvent}
    (hall : RunAll (schedStep conf) (Admitted conf) (.init elementNum taskNum ivIndex) es) :
    ∃ requested started s, run (schedStep conf) (.init elementNum taskNum ivIndex) es = .ok s ∧
      Traced conf (.init elementNum taskNum ivIndex) es requested started s ∧
      Scheduled taskNum s ∧
      ∀ dst, toDst dst requested = toDst dst started ++ toDst dst (s.pending.map s.entry) := by
  obtain ⟨requested, started, s, hrun, htraced, horderly, horder⟩ :=
    traced_of_admitted (init_orderly elementNum taskNum ivIndex) hall
  exact ⟨requested, started, s, hrun, htraced, horderly.toScheduled, horder⟩

/-- Two messages to one destination and one to another, of which the first is acknowledged
and another one repeated. -/
def queuedRun : List SchedEvent :=
  [.send plainEnv (List.replicate 20 7) plainMsg,
    .send plainEnv (List.replicate 20 7) { plainMsg with seqAuth := 1 },
    .send plainEnv (List.replicate 20 7) { plainMsg with dst := 3 },
    .ack plainEnv 2 0 3, .timeout plainEnv 2]

theorem queuedRun_admitted :
    RunAll (schedStep plainConf) (Admitted plainConf) (.init 1 3 5) queuedRun := by
  obtain ⟨s, hs, hactive⟩ : ∃ s,
      run (schedStep plainConf) (Sender.init 1 3 5) (queuedRun.take 4) = .ok s ∧
        s.active = [2, 1] := observe (by decide +kernel)
  refine ⟨⟨fun _ => rfl, by decide⟩, fun t₁ h₁ => ⟨⟨fun _ => rfl, by decide⟩, fun t₂ h₂ =>
    ⟨⟨fun _ => rfl, by decide⟩, fun t₃ h₃ => ⟨fun _ => rfl, fun t₄ h₄ =>
      ⟨⟨fun _ => rfl, ?_⟩, fun _ _ => trivial⟩⟩⟩⟩⟩
  have hrun : run (schedStep plainConf) (Sender.init 1 3 5) (queuedRun.take 4) = .ok t₄ := by
    simp only [queuedRun, List.take_succ_cons, List.take_zero, run, h₁, h₂, h₃, h₄, Except.bind]
  obtain rfl := Except.ok.inj (hs.symm.trans hrun)
  simp [hactive]

theorem tasks_scheduled_example : ∃ requested started s,
    run (schedStep plainConf) (.init 1 3 5) queuedRun = .ok s ∧
      Traced plainConf (.init 1 3 5) queuedRun requested started s ∧
      Scheduled 3 s ∧
      ∀ dst, toDst dst requested = toDst dst started ++ toDst dst (s.pending.map s.entry) :=
  tasks_scheduled queuedRun_admitted

end Meshx.LowerTransTx
