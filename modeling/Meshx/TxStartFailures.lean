import Meshx.TxStages

/-! Transmissions whose start fails for want of a timer. The task to be started is in no list
then, and the shared end of a transmission removes it from one. -/
namespace Meshx.LowerTransTx

open Lib AesCcm Security Sequence IvIndex UpperTrans Segment

namespace Sender

variable {conf : TxConf} {env : TxEnv} {s t : Sender} {id next fin depth : ℕ}

/-- The task is in no list. -/
def Detached (s : Sender) (id : ℕ) : Prop := id ∉ s.idle ∧ id ∉ s.active ∧ id ∉ s.pending

theorem Detached.release (h : s.Detached id) : s.release id = .error .assertFailed := by
  rw [Sender.release, if_neg]
  rintro (hmem | hmem | hmem)
  · exact h.1 hmem
  · exact h.2.1 hmem
  · exact h.2.2 hmem

theorem Detached.taskFinishIn (h : s.Detached id) :
    taskFinishIn conf env depth s id = .error .assertFailed := by
  cases depth <;> rw [Sender.taskFinishIn, h.release] <;> rfl

theorem taskRun_noTimer {finish : Sender → ℕ → Except Fault Sender} {fault : Fault}
    (hfinish : finish s id = .error fault) (htimer : env.timerOk id = false) :
    s.taskRun conf env finish id = .error fault := by
  rw [Sender.taskRun, if_pos (by rw [htimer]; rfl), hfinish]
  rfl

theorem detached_of_count (h : s.idle.count id + s.active.count id + s.pending.count id = 0) :
    s.Detached id := by
  refine ⟨?_, ?_, ?_⟩ <;>
    refine List.count_eq_zero.mp ?_ <;>
    omega

theorem Distinct.detached_store (hd : s.Distinct) {idle : List ℕ} (hidle : s.idle = id :: idle)
    (pdu : List Byte) (ctx : MsgCtx) : (s.store id idle pdu ctx).Detached id := by
  refine detached_of_count ?_
  have hone := hd id
  rw [hidle, List.count_cons_self] at hone
  dsimp only [store, setTask]
  omega

theorem Distinct.detached_next (hd : s.Distinct) (release : s.carryOut fin = .ok t)
    (found : t.runnable = some next) :
    Detached { t with pending := t.pending.erase next } next := by
  have hdt := (carryOut_ended release hd).1.distinct
  exact detached_of_count (hdt.erase_pending (List.mem_of_find?_eq_some found)).2

/-- A message comes as far as the start of its task, which is taken from the idle list. -/
structure Starts (s : Sender) (env : TxEnv) (pdu : List Byte) (ctx : MsgCtx) (id : ℕ)
    (idle : List ℕ) : Prop where
  length : segNum ctx.ctl pdu.length ≤ maxSegSize
  idle_eq : s.idle = id :: idle
  memory : env.taskMallocOk = true
  free : ∀ a ∈ s.active, (s.task a).ctx.dst ≠ ctx.dst

/-- A start is undone: the task is idle again and its buffer freed, and every other task is in
the list it was in, or a pending one has been started in its turn. -/
structure Undone (s : Sender) (id : ℕ) (s' : Sender) : Prop where
  idle : id ∈ s'.idle
  freed : (s'.task id).ppdu = none
  idle_kept : ∀ j ∈ s.idle, j ∈ s'.idle
  active_kept : ∀ j ∈ s.active, j ∈ s'.active
  pending_kept : ∀ j ∈ s.pending, j ∈ s'.pending ∨ j ∈ s'.active ∨ j ∈ s'.idle

theorem Starts.processSegMsg {pdu : List Byte} {ctx : MsgCtx} {idle : List ℕ}
    (h : s.Starts env pdu ctx id idle) (hd : s.Distinct) :
    s.processSegMsg conf env pdu ctx =
      (s.store id idle pdu ctx).taskRun conf env
        (Sender.taskFinish conf env) id := by
  have hexist : ¬ (s.active.any fun a =>
      (s.task a).ctx.dst == ctx.dst && (s.task a).ctx.seqAuth == ctx.seqAuth) = true := by
    rw [List.any_eq_true]
    rintro ⟨a, ha, heq⟩
    exact h.free a ha (beq_iff_eq.mp ((Bool.and_eq_true _ _).mp heq).1)
  have hother (a : ℕ) (ha : a ∈ s.active) : a ≠ id := by
    rintro rfl
    have hone := hd a
    rw [h.idle_eq, List.count_cons_self] at hone
    have := List.count_pos_iff.mpr ha
    omega
  have hdst : ¬ ((s.store id idle pdu ctx).active.any fun a =>
      ((s.store id idle pdu ctx).task a).ctx.dst ==
        ((s.store id idle pdu ctx).task id).ctx.dst) = true := by
    rw [List.any_eq_true]
    rintro ⟨a, ha, heq⟩
    dsimp only [store, setTask] at heq
    rw [Function.update_of_ne (hother a ha), Function.update_self] at heq
    exact h.free a ha (by simpa using heq)
  rw [Sender.processSegMsg]
  dsimp only
  rw [if_neg (not_lt.mpr h.length), if_neg hexist, h.idle_eq]
  dsimp only
  rw [if_neg (by simp [h.memory])]
  exact if_neg hdst

theorem taskFinish_next (release : s.carryOut fin = .ok t) (found : t.runnable = some next) :
    s.taskFinish conf env fin =
      (·.2) <$> taskRun conf env (taskFinishIn conf env (s.pending.length - 1))
        { t with pending := t.pending.erase next } next := by
  have hmem : next ∈ s.pending := by
    have ht : next ∈ t.pending := List.mem_of_find?_eq_some found
    rw [(carryOut_released release).pending] at ht
    exact List.mem_of_mem_erase ht
  have hlen : s.pending.length = s.pending.length - 1 + 1 := by
    have := List.length_pos_of_mem hmem
    omega
  rw [taskFinish, hlen, taskFinishIn_succ, release]
  change runNext conf env _ t = _
  rw [runNext, found, Nat.add_sub_cancel]
  dsimp only
  cases taskRun conf env (taskFinishIn conf env (s.pending.length - 1))
    { t with pending := t.pending.erase next } next <;> rfl

/-- A new message whose start fails for want of a timer ends in the assertion of
`meshx_list_remove`. -/
theorem Starts.asserts {pdu : List Byte} {ctx : MsgCtx} {idle : List ℕ}
    (h : s.Starts env pdu ctx id idle) (hd : s.Distinct) (htimer : env.timerOk id = false) :
    s.processSegMsg conf env pdu ctx = .error .assertFailed := by
  rw [h.processSegMsg hd]
  exact taskRun_noTimer (hd.detached_store h.idle_eq pdu ctx).taskFinishIn htimer

/-- So does a pending one, whatever is finished before it. -/
theorem Distinct.next_asserts (hd : s.Distinct) (release : s.carryOut fin = .ok t)
    (found : t.runnable = some next) (htimer : env.timerOk next = false) :
    s.taskFinish conf env fin = .error .assertFailed := by
  rw [taskFinish_next release found,
    taskRun_noTimer (hd.detached_next release found).taskFinishIn htimer]
  rfl

/-- A start that fails for want of a timer is never undone: neither that of a new message nor
that of a pending one in its turn. -/
theorem failed_start_not_undone (conf : TxConf) (env : TxEnv) (s : Sender) (hd : s.Distinct) :
    (∀ pdu ctx id idle, s.Starts env pdu ctx id idle → env.timerOk id = false →
      ¬ ∃ s', s.processSegMsg conf env pdu ctx = .ok (.resource, s') ∧
        Undone (s.store id idle pdu ctx) id s') ∧
    ∀ fin t next, s.carryOut fin = .ok t → t.runnable = some next → env.timerOk next = false →
      ¬ ∃ s', s.taskFinish conf env fin = .ok s' ∧
        Undone { t with pending := t.pending.erase next } next s' := by
  constructor
  · rintro pdu ctx id idle hstarts htimer ⟨s', hrun, -⟩
    rw [hstarts.asserts hd htimer] at hrun
    cases hrun
  · rintro fin t next release found htimer ⟨s', hrun, -⟩
    rw [hd.next_asserts release found htimer] at hrun
    cases hrun

end Sender

/-- The platform has no timer left. -/
def noTimer : TxEnv :=
  ⟨true, true, fun _ => false, fun _ => true, .success, fun _ => 0⟩

/-- The first segmented message of a node that has no timer. -/
theorem first_start_asserts :
    Sender.processSegMsg ⟨1, 0, 0⟩ noTimer (.init 1 1 0) (List.replicate 16 0)
      { MsgCtx.zero with src := 1, dst := 2 } = .error .assertFailed := rfl

/-- A node with one task that is active and one that waits. -/
def oneWaits : Sender := { Sender.init 1 2 0 with idle := [], active := [0], pending := [1] }

theorem failed_start_not_undone_both :
    (¬ ∃ s', Sender.processSegMsg ⟨1, 0, 0⟩ noTimer (.init 1 1 0) (List.replicate 16 0)
      { MsgCtx.zero with src := 1, dst := 2 } = .ok (.resource, s') ∧
        Sender.Undone (Sender.store (.init 1 1 0) 0 [] (List.replicate 16 0)
          { MsgCtx.zero with src := 1, dst := 2 }) 0 s') ∧
    ∃ t : Sender, ¬ ∃ s', oneWaits.taskFinish ⟨1, 0, 0⟩ noTimer 0 = .ok s' ∧
      Sender.Undone { t with pending := t.pending.erase 1 } 1 s' := by
  have hone (xs : List ℕ) (h : xs.Nodup) (j : ℕ) : xs.count j ≤ 1 :=
    List.nodup_iff_count_le_one.mp h j
  refine ⟨(Sender.failed_start_not_undone ⟨1, 0, 0⟩ noTimer (.init 1 1 0)
    (fun j => hone [0] (by decide) j)).1 (List.replicate 16 0)
      { MsgCtx.zero with src := 1, dst := 2 } 0 [] ⟨by decide, rfl, rfl, by simp [Sender.init]⟩ rfl,
    _, (Sender.failed_start_not_undone ⟨1, 0, 0⟩ noTimer oneWaits fun j => ?_).2 0 _ 1 rfl rfl rfl⟩
  have h := hone [0, 1] (by decide) j
  rw [List.count_cons, List.count_singleton] at h
  change 0 + List.count j [0] + List.count j [1] ≤ 1
  rw [List.count_singleton, List.count_singleton]
  omega

end Meshx.LowerTransTx
