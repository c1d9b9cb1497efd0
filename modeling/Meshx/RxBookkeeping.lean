import Meshx.StaleTimeouts

/-! The bookkeeping of the reassembly tasks: where a task is, which sources have one, and by what
message the one that a source has is replaced. -/
namespace Meshx.LowerTransRx

open Lib Segment Replay

/-- The IV index of a message, then its SeqAuth. -/
def msgOrder (ctx : MsgCtx) : ℕ ×ₗ ℕ := toLex (ctx.ivIndex.toNat, ctx.seqAuth.toNat)

theorem lowerTransSeqAuth_lt {a b : MsgCtx} :
    lowerTransSeqAuth a < lowerTransSeqAuth b ↔ msgOrder a < msgOrder b := by
  have ha := a.seqAuth.isLt
  have hb := b.seqAuth.isLt
  rw [msgOrder, msgOrder, Prod.Lex.toLex_lt_toLex, lowerTransSeqAuth, lowerTransSeqAuth]
  dsimp only
  omega

namespace Receiver

/-- Every task is in one of the two lists, once, and no two active ones have the same source. -/
structure Bookkept (taskNum : ℕ) (r : Receiver) : Prop where
  placed : ∀ id, r.idle.count id + r.active.count id = if id < taskNum then 1 else 0
  src_inj : ∀ i ∈ r.active, ∀ j ∈ r.active, (r.task i).ctx.src = (r.task j).ctx.src → i = j

/-- The source has an active task. -/
def Holds (r : Receiver) (src : BitVec 16) : Prop := ∃ i ∈ r.active, (r.task i).ctx.src = src

/-- An active task of the source goes on with its message, or one with a greater message has
taken its place. -/
def Replaces (src : BitVec 16) (r r' : Receiver) : Prop :=
  ∀ i ∈ r.active, ∀ j ∈ r'.active, (r.task i).ctx.src = src → (r'.task j).ctx.src = src →
    (j = i ∧ (r'.task j).ctx = (r.task i).ctx ∧ (r'.task j).gen = (r.task i).gen) ∨
      msgOrder (r.task i).ctx < msgOrder (r'.task j).ctx

/-- No task is lost, and none is replaced but by one with a greater message. -/
structure Kept (r r' : Receiver) : Prop where
  pool : r'.Pool
  perm : (r'.idle ++ r'.active).Perm (r.idle ++ r.active)
  replaces : ∀ src, Replaces src r r'

/-- An active task is one that was active, with its message. -/
def Remains (r r' : Receiver) : Prop :=
  ∀ j ∈ r'.active, j ∈ r.active ∧ (r'.task j).ctx = (r.task j).ctx ∧
    (r'.task j).gen = (r.task j).gen

variable {r s r' : Receiver} {env : RxEnv} {id len maxPduLen taskNum : ℕ} {mem : ℕ → Byte}
  {ctx : MsgCtx} {ret : Errno} {calls : List RxCall} {out : Option ℕ} {src : BitVec 16}

section Replaces

theorem Pool.same_of_src (h : r.Pool) {i j : ℕ} (hi : i ∈ r.active) (hj : j ∈ r.active)
    (hsi : (r.task i).ctx.src = src) (hsj : (r.task j).ctx.src = src) : j = i :=
  h.src_inj j hj i hi (hsj.trans hsi.symm)

theorem Remains.replaces (h : Remains r r') (hr : r.Pool) : Replaces src r r' := by
  intro i hi j hj hsi hsj
  obtain ⟨hmem, hctx, hgen⟩ := h j hj
  rw [hctx] at hsj
  obtain rfl := hr.same_of_src hi hmem hsi hsj
  exact .inl ⟨rfl, hctx, hgen⟩

theorem OldBut.remains (h : OldBut r r' none) : Remains r r' := fun j hj => by
  obtain ⟨hmem, htask⟩ := h j hj (by simp)
  exact ⟨hmem, by rw [htask], by rw [htask]⟩

theorem Replaces.remains (h : Replaces src r s) (hs : Remains s r') : Replaces src r r' := by
  intro i hi j hj hsi hsj
  obtain ⟨hmem, hctx, hgen⟩ := hs j hj
  rw [hctx] at hsj ⊢
  rw [hgen]
  exact h i hi j hmem hsi hsj

/-- As long as the source has an active task its messages get greater. -/
theorem Replaces.trans (h : Replaces src r s) (h' : Replaces src s r') (hs : s.Holds src) :
    Replaces src r r' := by
  intro i hi j hj hsi hsj
  obtain ⟨k, hk, hsk⟩ := hs
  rcases h i hi k hk hsi hsk with ⟨rfl, hctx, hgen⟩ | hlt
  · rcases h' k hk j hj hsk hsj with ⟨rfl, hctx', hgen'⟩ | hlt'
    · exact .inl ⟨rfl, hctx'.trans hctx, hgen'.trans hgen⟩
    · rw [hctx] at hlt'
      exact .inr hlt'
  · rcases h' k hk j hj hsk hsj with ⟨rfl, hctx', -⟩ | hlt'
    · rw [hctx']
      exact .inr hlt
    · exact .inr (hlt.trans hlt')

end Replaces

section Lists

theorem Pool.kept_remains (hr : r.Pool) (hr' : r'.Pool)
    (hperm : (r'.idle ++ r'.active).Perm (r.idle ++ r.active)) (h : Remains r r') : Kept r r' :=
  ⟨hr', hperm, fun _ => h.replaces hr⟩

theorem Pool.kept_refl (hr : r.Pool) : Kept r r :=
  hr.kept_remains hr (.refl _) fun _ hj => ⟨hj, rfl, rfl⟩

theorem Pool.kept_released (hr : r.Pool) (hid : id ∈ r.idle ∨ id ∈ r.active) :
    Kept r (r.released id) := by
  obtain ⟨hpool, -, hold⟩ := hr.released hid
  exact hr.kept_remains hpool (hr.perm_released hid) hold.remains

theorem Pool.kept_setTask (hr : r.Pool) {t : RxTask} (hctx : t.ctx = (r.task id).ctx)
    (hgen : t.gen = (r.task id).gen) : Kept r (r.setTask id t) := by
  refine hr.kept_remains (hr.setTask hctx) (.refl _) fun j hj => ⟨hj, ?_⟩
  by_cases hji : j = id
  · subst hji
    rw [setTask_self]
    exact ⟨hctx, hgen⟩
  · rw [setTask_of_ne hji]
    exact ⟨rfl, rfl⟩

theorem Pool.perm_cancel (hr : r.Pool) (hid : id ∈ r.active) :
    ((r.cancel id).idle ++ (r.cancel id).active).Perm (r.idle ++ r.active) := by
  have hperm := hr.perm_released (.inr hid)
  rwa [List.erase_of_not_mem (hr.not_idle hid)] at hperm

theorem perm_newTask (hnew : r.newTask env maxPduLen ctx = (r', out)) :
    (r'.idle ++ r'.active).Perm (r.idle ++ r.active) := by
  rcases newTask_cases hnew with ⟨-, -, hactive, hidle, -⟩ |
    ⟨id, idle, hidle, -, -, -, -, -, hidle', hactive, -⟩
  · rw [hactive]
    exact hidle.append_right _
  · rw [hidle', hactive, hidle, ← List.append_assoc]
    exact List.perm_append_singleton id (idle ++ r.active)

/-- A new task has its source for itself, and the message it is created for. -/
theorem Pool.replaces_newTask (hr : r.Pool) (hfind : r.findTask ctx.src = none)
    (hnew : r.newTask env maxPduLen ctx = (r', out)) {j : ℕ} (hj : j ∈ r'.active) :
    (j ∈ r.active ∧ r'.task j = r.task j) ∨ (r'.task j).ctx = ctx := by
  obtain ⟨-, -, hold, hout⟩ := hr.newTask hfind hnew
  by_cases hjo : out = some j
  · obtain ⟨-, -, htask⟩ := hout j hjo
    exact .inr (by rw [htask]; rfl)
  · exact .inl (hold j hj hjo)

/-- The four ways of a request: the task goes on, nothing happens, a source that has no task gets
one, and one that has an older message loses it before. -/
theorem Pool.kept_request (hr : r.Pool) (hreq : r.request env maxPduLen ctx = (r', out)) :
    Kept r r' := by
  obtain ⟨hpool, -⟩ := hr.request hreq
  rcases request_cases hreq with ⟨id, -, -, -, rfl⟩ | ⟨id, -, -, -, rfl⟩ | ⟨hfind, hnew⟩ |
    ⟨id, hfind, hlt, hnew⟩
  · exact hr.kept_refl
  · exact hr.kept_refl
  · refine ⟨hpool, perm_newTask hnew, fun src i hi j hj hsi hsj => ?_⟩
    rcases hr.replaces_newTask hfind hnew hj with ⟨hmem, htask⟩ | hctx
    · rw [htask] at hsj ⊢
      obtain rfl := hr.same_of_src hi hmem hsi hsj
      exact .inl ⟨rfl, rfl, rfl⟩
    · rw [hctx] at hsj
      have hnone := List.find?_eq_none.mp hfind i hi
      exact absurd (hsi.trans hsj.symm) (by simpa using hnone)
  · obtain ⟨hid, hsrc⟩ := findTask_some hfind
    obtain ⟨hcancel, -, hold⟩ := hr.cancel hid
    refine ⟨hpool, (perm_newTask hnew).trans (hr.perm_cancel hid), fun src i hi j hj hsi hsj => ?_⟩
    rcases hcancel.replaces_newTask (hr.find_cancel hfind) hnew hj with ⟨hmem, htask⟩ | hctx
    · obtain ⟨hmem', htask'⟩ := hold j hmem (by simp)
      rw [htask, htask'] at hsj ⊢
      obtain rfl := hr.same_of_src hi hmem' hsi hsj
      exact .inl ⟨rfl, rfl, rfl⟩
    · rw [hctx] at hsj
      obtain rfl := hr.same_of_src hi hid hsi (hsrc.trans hsj)
      rw [hctx]
      exact .inr (lowerTransSeqAuth_lt.mp hlt)

theorem receiveFor_lists (hrun : r.receiveFor id mem len ctx = .ok (ret, r', calls)) :
    (r'.idle = r.idle ∧ r'.active = r.active) ∨
      (r'.idle = r.idle.erase id ++ [id] ∧ r'.active = r.active.erase id) := by
  rcases receiveFor_cases hrun with ⟨-, rfl, -⟩ | ⟨-, -, hcases⟩
  · exact .inr ⟨rfl, rfl⟩
  rcases hcases with ⟨-, err, rpl, -, rfl, -⟩ | ⟨-, -, rfl, -⟩ | ⟨-, ⟨-, hs⟩ | ⟨-, hs⟩⟩
  · exact .inl ⟨rfl, rfl⟩
  · exact .inl ⟨rfl, rfl⟩
  · rcases receiveSingle_cases hs with ⟨rpl, -, rfl, -⟩ | ⟨rpl, buf, handle, -, -, -, -, rfl, -⟩
    · exact .inr ⟨rfl, rfl⟩
    · exact .inl ⟨rfl, rfl⟩
  · obtain ⟨buf, -, -, hcases⟩ := receiveMulti_cases hs
    rcases hcases with ⟨-, rpl, -, rfl, -⟩ | ⟨-, rpl, handle, -, -, rfl, -⟩ |
      ⟨-, ack, handle, -, -, rfl, -⟩
    · exact .inr ⟨rfl, rfl⟩
    · exact .inl ⟨rfl, rfl⟩
    · exact .inl ⟨rfl, rfl⟩

theorem Pool.perm_receiveFor (hr : r.Pool) (hid : id ∈ r.active)
    (hrun : r.receiveFor id mem len ctx = .ok (ret, r', calls)) :
    (r'.idle ++ r'.active).Perm (r.idle ++ r.active) := by
  rcases receiveFor_lists hrun with ⟨hidle, hactive⟩ | ⟨hidle, hactive⟩ <;> rw [hidle, hactive]
  exact hr.perm_released (.inr hid)

theorem Pool.remains_receiveFor (hr : r.Pool) (hid : id ∈ r.active)
    (hrun : r.receiveFor id mem len ctx = .ok (ret, r', calls)) : Remains r r' := by
  obtain ⟨-, -, hold, hself⟩ := receiveFor_task hr hid hrun
  intro j hj
  by_cases hji : j = id
  · subst hji
    rcases hself with hgone | ⟨-, hctx, hgen⟩
    · exact absurd hj hgone
    · exact ⟨hid, hctx, hgen⟩
  · obtain ⟨hmem, htask⟩ := hold j hj fun he => hji (Option.some.inj he).symm
    exact ⟨hmem, by rw [htask], by rw [htask]⟩

end Lists

theorem Pool.kept_receive (hr : r.Pool) (hrun : r.receive env mem len ctx = .ok (ret, r', calls)) :
    Kept r r' := by
  have hun {call : RxCall} (hc : r.receiveUnseg call ctx = .ok (ret, r', calls)) : Kept r r' := by
    obtain ⟨ok, rpl, -, rfl, -⟩ := receiveUnseg_cases hc
    exact hr.kept_remains ⟨hr.nodup, hr.src_inj⟩ (.refl _) fun _ hj => ⟨hj, rfl, rfl⟩
  rw [Receiver.receive] at hrun
  split_ifs at hrun
  · exact hun hrun
  · rcases receiveSegMsg_cases hrun with ⟨hreq, -⟩ | ⟨s, id, hreq, hfor⟩
    · exact hr.kept_request hreq
    · have hs := hr.kept_request hreq
      obtain ⟨-, -, -, hout, -⟩ := hr.request hreq
      obtain ⟨hid, -⟩ := hout id rfl
      exact ⟨(receiveFor_task hs.pool hid hfor).1, (hs.pool.perm_receiveFor hid hfor).trans hs.perm,
        fun src => (hs.replaces src).remains (hs.pool.remains_receiveFor hid hfor)⟩
  · exact hun hrun

/-- The tasks of the pool are those that were created. -/
structure Complete (taskNum : ℕ) (r : Receiver) : Prop where
  pool : r.Pool
  perm : (r.idle ++ r.active).Perm (List.range taskNum)

theorem Complete.bookkept (hr : r.Complete taskNum) : r.Bookkept taskNum where
  placed id := by
    rw [← List.count_append, hr.perm.count_eq, List.nodup_range.count]
    simp only [List.mem_range]
  src_inj := hr.pool.src_inj

end Receiver

end Meshx.LowerTransRx

namespace Meshx.Async

open Lib Segment Replay LowerTransRx
open LowerTransTx (TxConf TxEnv)

variable {β : Type} {conf : TxConf} {n n' : Node β} {e : Event β}

theorem asyncMsgSend_rx {x : AsyncMsg β} : (n.asyncMsgSend x).rx = n.rx := by
  unfold Node.asyncMsgSend
  split_ifs <;> rfl

theorem setHandle_message (t : RxTask) (kind : RxTimer) (h : Handle) :
    (setHandle t kind h).ctx = t.ctx ∧ (setHandle t kind h).gen = t.gen := by
  cases kind <;> exact ⟨rfl, rfl⟩

theorem kept_rxExpire (hr : n.rx.Pool) (kind : RxTimer) (id : ℕ) :
    Receiver.Kept n.rx (n.rxExpire kind id).rx := by
  unfold Node.rxExpire
  split
  · rw [asyncMsgSend_rx]
    exact hr.kept_setTask (setHandle_message _ _ _).1 (setHandle_message _ _ _).2
  all_goals exact hr.kept_refl

theorem kept_orphanExpire (hr : n.rx.Pool) (o : Orphan) :
    Receiver.Kept n.rx (n.orphanExpire o).rx := by
  unfold Node.orphanExpire
  split_ifs
  · rw [asyncMsgSend_rx]
    exact hr.kept_remains ⟨hr.nodup, hr.src_inj⟩ (.refl _) fun _ hj => ⟨hj, rfl, rfl⟩
  · exact hr.kept_refl

variable [DecidableEq β]

theorem kept_process {env : TxEnv} (hr : n.rx.Pool) (hrun : n.asyncMsgProcess conf env = .ok n') :
    Receiver.Kept n.rx n'.rx := by
  unfold Node.asyncMsgProcess at hrun
  cases hq : n.asyncActive with
  | nil =>
    rw [hq] at hrun
    cases hrun
    exact hr.kept_refl
  | cons msg rest =>
    rw [hq] at hrun
    cases msg with
    | lowerTransTx id gen =>
      obtain ⟨tx, -, hret⟩ := bind_ok hrun
      cases hret
      exact hr.kept_refl
    | lowerTransRxAck id gen =>
      obtain ⟨tx, -, hret⟩ := bind_ok hrun
      cases hret
      exact hr.kept_refl
    | lowerTransRxIncomplete id gen =>
      obtain ⟨rx, hrx, hret⟩ := bind_ok hrun
      cases hret
      obtain ⟨hid, rfl⟩ := Receiver.release_ok hrx
      exact hr.kept_released hid
    | proxySar bearer gen =>
      have hsar : n.popped.handleSarTimeout bearer gen = .ok n' := hrun
      unfold Node.handleSarTimeout at hsar
      split_ifs at hsar
      cases hsar
      exact hr.kept_refl
    | other =>
      obtain rfl := Except.ok.inj hrun
      exact hr.kept_refl

/-- No step loses a task or replaces one but by one with a greater message. -/
theorem kept_step (hr : n.rx.Pool) (hrun : step conf n e = .ok n') :
    Receiver.Kept n.rx n'.rx := by
  cases e with
  | send env pdu ctx =>
    obtain ⟨⟨ret, tx⟩, -, hret⟩ := bind_ok hrun
    cases hret
    exact hr.kept_refl
  | receive rxEnv txEnv mem len ctx =>
    obtain ⟨⟨ret, rx, calls⟩, hrx, hrest⟩ := bind_ok hrun
    obtain ⟨tx, -, hret⟩ := bind_ok hrest
    cases hret
    exact hr.kept_receive hrx
  | proxyReceive w bearer pdu =>
    obtain ⟨out, -, hret⟩ := bind_ok hrun
    cases hret
    exact hr.kept_refl
  | rxExpire kind id =>
    cases hrun
    exact kept_rxExpire hr kind id
  | orphanExpire o =>
    cases hrun
    exact kept_orphanExpire hr o
  | rplClear =>
    cases hrun
    exact hr.kept_remains ⟨hr.nodup, hr.src_inj⟩ (.refl _) fun _ hj => ⟨hj, rfl, rfl⟩
  | elsewhere seqArray iv =>
    cases hrun
    exact hr.kept_refl
  | txExpire id =>
    cases hrun
    unfold Node.txExpire
    split
    · rw [asyncMsgSend_rx]
      exact hr.kept_refl
    all_goals exact hr.kept_refl
  | sarExpire bearer =>
    cases hrun
    unfold Node.sarExpire
    split_ifs
    · rw [asyncMsgSend_rx]
      exact hr.kept_refl
    · exact hr.kept_refl
  | otherExpire =>
    cases hrun
    rw [asyncMsgSend_rx]
    exact hr.kept_refl
  | process env => exact kept_process hr hrun

section Runs

variable {elementNum txTaskNum rplSize rxTaskNum msgMaxNum : ℕ} {ivIndex : BitVec 32}
  {es es' : List (Event β)}

theorem init_complete (rplSize rxTaskNum : ℕ) :
    (Receiver.init rplSize rxTaskNum).Complete rxTaskNum := by
  have hall : (Receiver.init rplSize rxTaskNum).idle ++ (Receiver.init rplSize rxTaskNum).active =
      List.range rxTaskNum := List.append_nil _
  refine ⟨⟨?_, fun i hi => by cases hi⟩, ?_⟩ <;> rw [hall]
  exact List.nodup_range

theorem complete_run (hrun : run (step conf)
    (.init elementNum txTaskNum rplSize rxTaskNum msgMaxNum ivIndex) es = .ok n) :
    n.rx.Complete rxTaskNum := by
  have hstep (m : Node β) (e : Event β) (m' : Node β) (hm : m.rx.Complete rxTaskNum)
      (h : step conf m e = .ok m') : m'.rx.Complete rxTaskNum := by
    have hkept := kept_step hm.pool h
    exact ⟨hkept.pool, hkept.perm.trans hm.perm⟩
  exact @run_invariant _ _ _ (step conf) (fun m => m.rx.Complete rxTaskNum) _ _ _ hstep
    (init_complete rplSize rxTaskNum) hrun

/-- Over a run in which a source has an active task at every step. -/
theorem replaces_run {src : BitVec 16} (hr : n.rx.Pool)
    (hall : RunAll (step conf) (fun m _ => m.rx.Holds src) n es')
    (hrun : run (step conf) n es' = .ok n') : Receiver.Replaces src n.rx n'.rx := by
  induction es' generalizing n with
  | nil =>
    cases hrun
    exact hr.kept_refl.replaces src
  | cons e es' ih =>
    obtain ⟨m, hm, hrest⟩ := run_cons_ok hrun
    have hkept := kept_step hr hm
    have htail : RunAll (step conf) (fun m _ => m.rx.Holds src) m es' := hall.2 m hm
    have hlast := ih hkept.pool htail hrest
    cases es' with
    | nil =>
      cases hrest
      exact hkept.replaces src
    | cons e' es' => exact (hkept.replaces src).trans hlast htail.1

/-- In every state that a run reaches each task is in one of the lists and no two active ones have
the same source; and while a source has an active task it is replaced by greater messages only. -/
theorem rx_bookkeeping (hrun : run (step conf)
    (.init elementNum txTaskNum rplSize rxTaskNum msgMaxNum ivIndex) es = .ok n) :
    n.rx.Bookkept rxTaskNum ∧ ∀ src es' n',
      RunAll (step conf) (fun m _ => m.rx.Holds src) n es' → run (step conf) n es' = .ok n' →
        Receiver.Replaces src n.rx n'.rx := by
  have hn := complete_run hrun
  exact ⟨hn.bookkept, fun _ _ _ hall hrun' => replaces_run hn.pool hall hrun'⟩

end Runs

/-- The first segment of a message of two, which is numbered like the PDU. -/
def firstSegment (seq : BitVec 24) : Event ℕ :=
  .receive plainRxEnv LowerTransTx.plainEnv
    (memOf (0x80 :: 0 :: (seq.setWidth 6 ++ 0#2) :: 1 :: List.replicate 12 9)) 16
    { plainRxCtx false with seq := seq }

/-- A message is replaced by the next one of its source, which takes the other task. -/
theorem rx_bookkeeping_example : ∃ n n',
    run (step LowerTransTx.plainConf) (.init 1 1 1 2 1 5) [firstSegment 1] = .ok n ∧
      run (step LowerTransTx.plainConf) n [firstSegment 2] = .ok n' ∧
      n.rx.active = [0] ∧ n'.rx.active = [1] ∧ n.rx.Bookkept 2 ∧
      Receiver.Replaces 2 n.rx n'.rx := by
  obtain ⟨n, hn, hactive⟩ : ∃ n, run (step LowerTransTx.plainConf) (.init 1 1 1 2 1 5)
      [firstSegment 1] = .ok n ∧ (n.rx.active, (n.rx.task 0).ctx.src) = ([0], 2) :=
    observe (by decide +kernel)
  obtain ⟨n', hn', hactive'⟩ : ∃ n', run (step LowerTransTx.plainConf) (.init 1 1 1 2 1 5)
      [firstSegment 1, firstSegment 2] = .ok n' ∧ n'.rx.active = [1] := observe (by decide +kernel)
  have hlast : run (step LowerTransTx.plainConf) n [firstSegment 2] = .ok n' := by
    rw [show [firstSegment 1, firstSegment 2] = [firstSegment 1] ++ [firstSegment 2] from rfl,
      run_append, hn] at hn'
    exact hn'
  obtain ⟨hlist, hsrc⟩ := Prod.mk.inj hactive
  obtain ⟨hbook, hreplaces⟩ := rx_bookkeeping hn
  have hholds : n.rx.Holds 2 := ⟨0, by rw [hlist]; exact List.mem_singleton_self 0, hsrc⟩
  exact ⟨n, n', hn, hlast, hlist, hactive', hbook,
    hreplaces 2 [firstSegment 2] n' ⟨hholds, fun _ _ => trivial⟩ hlast⟩

end Meshx.Async
