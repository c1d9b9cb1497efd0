import Meshx.ReceiveCases

/-! The pool of reassembly tasks: no task is in two lists, no two active tasks hold messages
of one source, and a PDU leaves the tasks of all other sources alone. -/
namespace Meshx.LowerTransRx

open Lib Segment Replay

namespace Receiver

variable {r r' s : Receiver} {env : RxEnv} {id len maxPduLen : ℕ} {mem : ℕ → Byte} {ctx : MsgCtx}
  {ret : Errno} {calls : List RxCall} {out x : Option ℕ}

/-- No task is in two places, and no two active tasks hold messages of one source. -/
structure Pool (r : Receiver) : Prop where
  nodup : (r.idle ++ r.active).Nodup
  src_inj : ∀ i ∈ r.active, ∀ j ∈ r.active, (r.task i).ctx.src = (r.task j).ctx.src → i = j

/-- Every active task, one perhaps excepted, stays active and as it is. -/
def KeptBut (r r' : Receiver) (x : Option ℕ) : Prop :=
  ∀ j ∈ r.active, x ≠ some j → j ∈ r'.active ∧ r'.task j = r.task j

/-- Every task that is active afterwards, one perhaps excepted, was so before and is as it
was. -/
def OldBut (r r' : Receiver) (x : Option ℕ) : Prop :=
  ∀ j ∈ r'.active, x ≠ some j → j ∈ r.active ∧ r'.task j = r.task j

theorem KeptBut.trans {y : Option ℕ} (h : KeptBut r s x) (h' : KeptBut s r' y)
    (hxy : ∀ j ∈ r.active, x ≠ some j → y ≠ some j) : KeptBut r r' x := by
  intro j hj hx
  obtain ⟨hs, ht⟩ := h j hj hx
  obtain ⟨hr, ht'⟩ := h' j hs (hxy j hj hx)
  exact ⟨hr, ht'.trans ht⟩

theorem OldBut.trans {y : Option ℕ} (h : OldBut r s y) (h' : OldBut s r' x)
    (hxy : ∀ j, x ≠ some j → y ≠ some j) : OldBut r r' x := by
  intro j hj hx
  obtain ⟨hs, ht⟩ := h' j hj hx
  obtain ⟨hr, ht'⟩ := h j hs (hxy j hx)
  exact ⟨hr, ht.trans ht'⟩

theorem Pool.active_nodup (h : r.Pool) : r.active.Nodup := (List.nodup_append.mp h.nodup).2.1

theorem Pool.not_idle (h : r.Pool) {j : ℕ} (hj : j ∈ r.active) : j ∉ r.idle := fun hi =>
  (List.nodup_append.mp h.nodup).2.2 j hi j hj rfl

theorem Pool.mem_erase (h : r.Pool) {j : ℕ} : j ∈ r.active.erase id ↔ j ≠ id ∧ j ∈ r.active :=
  h.active_nodup.mem_erase_iff

theorem Pool.of_old (h : r.Pool) (hperm : (r'.idle ++ r'.active).Perm (r.idle ++ r.active))
    (hold : OldBut r r' none) : r'.Pool where
  nodup := hperm.nodup_iff.mpr h.nodup
  src_inj i hi j hj hsrc := by
    obtain ⟨hi', hti⟩ := hold i hi (by simp)
    obtain ⟨hj', htj⟩ := hold j hj (by simp)
    exact h.src_inj i hi' j hj' (by rw [← hti, ← htj, hsrc])

section Lists

theorem Pool.perm_released (h : r.Pool) (hid : id ∈ r.idle ∨ id ∈ r.active) :
    ((r.idle.erase id ++ [id]) ++ r.active.erase id).Perm (r.idle ++ r.active) := by
  rw [List.append_assoc, List.singleton_append]
  by_cases hactive : id ∈ r.active
  · rw [List.erase_of_not_mem (h.not_idle hactive)]
    exact (List.perm_cons_erase hactive).symm.append_left _
  · rw [List.erase_of_not_mem hactive]
    have hidle := (List.perm_cons_erase (hid.resolve_right hactive)).symm
    exact List.perm_middle.trans (hidle.append_right r.active)

theorem Pool.released (h : r.Pool) (hid : id ∈ r.idle ∨ id ∈ r.active) :
    (r.released id).Pool ∧ KeptBut r (r.released id) (some id) ∧
      OldBut r (r.released id) none := by
  have hold : OldBut r (r.released id) none := by
    intro j hj _
    obtain ⟨hne, hmem⟩ := h.mem_erase.mp hj
    exact ⟨hmem, by simp [Receiver.released, hne]⟩
  refine ⟨h.of_old (h.perm_released hid) hold, fun j hj hx => ?_, hold⟩
  have hne : j ≠ id := fun he => hx (by rw [he])
  exact ⟨h.mem_erase.mpr ⟨hne, hj⟩, by simp [Receiver.released, hne]⟩

theorem Pool.cancel (h : r.Pool) (hid : id ∈ r.active) :
    (r.cancel id).Pool ∧ KeptBut r (r.cancel id) (some id) ∧ OldBut r (r.cancel id) none := by
  have hold : OldBut r (r.cancel id) none := by
    intro j hj _
    obtain ⟨hne, hmem⟩ := h.mem_erase.mp hj
    exact ⟨hmem, by simp [Receiver.cancel, hne]⟩
  refine ⟨h.of_old ?_ hold, fun j hj hx => ?_, hold⟩
  · have hperm := h.perm_released (.inr hid)
    rwa [List.erase_of_not_mem (h.not_idle hid)] at hperm
  · have hne : j ≠ id := fun he => hx (by rw [he])
    exact ⟨h.mem_erase.mpr ⟨hne, hj⟩, by simp [Receiver.cancel, hne]⟩

theorem kept_setTask (t : RxTask) : KeptBut r (r.setTask id t) (some id) := fun j hj hx =>
  ⟨hj, setTask_of_ne (fun he => hx (by rw [he])) t⟩

theorem old_setTask (t : RxTask) : OldBut r (r.setTask id t) (some id) := fun j hj hx =>
  ⟨hj, setTask_of_ne (fun he => hx (by rw [he])) t⟩

theorem Pool.setTask (h : r.Pool) {t : RxTask} (ht : t.ctx = (r.task id).ctx) :
    (r.setTask id t).Pool := by
  have hctx : ∀ j, ((r.setTask id t).task j).ctx = (r.task j).ctx := by
    intro j
    by_cases hj : j = id
    · subst hj; rw [setTask_self, ht]
    · rw [setTask_of_ne hj]
  exact ⟨h.nodup, fun i hi j hj hsrc => h.src_inj i hi j hj (by rw [← hctx, ← hctx, hsrc])⟩

end Lists

/-- A new task leaves the active ones; the one it takes was idle. -/
theorem Pool.newTask (h : r.Pool) (hfind : r.findTask ctx.src = none)
    (hnew : r.newTask env maxPduLen ctx = (r', out)) :
    r'.Pool ∧ KeptBut r r' none ∧ OldBut r r' out ∧
      ∀ id ∈ out, id ∈ r.idle ∧ id ∈ r'.active ∧
        r'.task id = fillTask (r.task id) env maxPduLen ctx := by
  rcases newTask_cases hnew with ⟨rfl, -, hactive, hidle, htask⟩ |
    ⟨id, idle, hidle, -, -, -, rfl, -, hidle', hactive, htask⟩
  · have hsame : ∀ j ∈ r.active, r'.task j = r.task j := fun j hj => htask j (h.not_idle hj)
    have hold : OldBut r r' none := fun j hj _ => ⟨hactive ▸ hj, hsame j (hactive ▸ hj)⟩
    refine ⟨h.of_old (hactive ▸ hidle.append_right _) hold,
      fun j hj _ => ⟨hactive ▸ hj, hsame j hj⟩, hold, by simp⟩
  · have hmem : id ∈ r.idle := by rw [hidle]; exact List.mem_cons_self
    have hne : ∀ j ∈ r.active, j ≠ id := fun j hj he => h.not_idle hj (he ▸ hmem)
    have hsame : ∀ j ∈ r.active, r'.task j = r.task j := fun j hj => by
      rw [htask, Function.update_of_ne (hne j hj)]
    have hself : r'.task id = fillTask (r.task id) env maxPduLen ctx := by
      rw [htask, Function.update_self]
    have hsrc : ∀ j ∈ r.active, (r.task j).ctx.src ≠ ctx.src := by
      simpa [findTask] using hfind
    have hold : OldBut r r' (some id) := by
      intro j hj hx
      rw [hactive, List.mem_append, List.mem_singleton] at hj
      have hj' := hj.resolve_right fun he => hx (by rw [he])
      exact ⟨hj', hsame j hj'⟩
    refine ⟨⟨?_, fun i hi j hj hij => ?_⟩, fun j hj _ => ⟨?_, hsame j hj⟩, hold, ?_⟩
    · have hperm : (r'.idle ++ r'.active).Perm (r.idle ++ r.active) := by
        rw [hidle', hactive, hidle, ← List.append_assoc]
        exact List.perm_append_singleton id (idle ++ r.active)
      exact hperm.nodup_iff.mpr h.nodup
    · by_cases hii : i = id <;> by_cases hjj : j = id
      · rw [hii, hjj]
      · obtain ⟨hj', htj⟩ := hold j hj (by simpa using Ne.symm hjj)
        rw [hii, hself, htj] at hij
        exact absurd hij.symm (hsrc j hj')
      · obtain ⟨hi', hti⟩ := hold i hi (by simpa using Ne.symm hii)
        rw [hjj, hself, hti] at hij
        exact absurd hij (hsrc i hi')
      · obtain ⟨hi', hti⟩ := hold i hi (by simpa using Ne.symm hii)
        obtain ⟨hj', htj⟩ := hold j hj (by simpa using Ne.symm hjj)
        exact h.src_inj i hi' j hj' (by rw [← hti, ← htj, hij])
    · rw [hactive]
      exact List.mem_append_left _ hj
    · intro i hi
      cases hi
      exact ⟨hmem, by rw [hactive]; exact List.mem_append_right _ (List.mem_singleton_self _),
        hself⟩

theorem Pool.find_cancel (h : r.Pool) (hfind : r.findTask ctx.src = some id) :
    (r.cancel id).findTask ctx.src = none := by
  obtain ⟨hid, hsrc⟩ := findTask_some hfind
  obtain ⟨-, -, hold⟩ := h.cancel hid
  rw [findTask, List.find?_eq_none]
  intro j hj hsrcj
  obtain ⟨hj', htj⟩ := hold j hj (by simp)
  rw [htj] at hsrcj
  have hji : j = id := h.src_inj j hj' id hid (by rw [hsrc]; simpa using hsrcj)
  exact (h.mem_erase.mp hj).1 hji

/-- The idle task that a message of the context would be put in: there is none of its source
yet, or an older one that is cancelled first. -/
def reused (r : Receiver) (ctx : MsgCtx) : Option ℕ :=
  match r.findTask ctx.src with
  | none => r.idle.head?
  | some id =>
    if lowerTransSeqAuth (r.task id).ctx < lowerTransSeqAuth ctx then (r.idle ++ [id]).head?
    else none

/-- The active task that holds the message of the context. -/
def current (r : Receiver) (ctx : MsgCtx) : Option ℕ :=
  (r.findTask ctx.src).filter fun id => lowerTransSeqAuth (r.task id).ctx = lowerTransSeqAuth ctx

/-- A request gives the task that holds the message, or the reused one with new fields. -/
theorem Pool.request (h : r.Pool) (hreq : r.request env maxPduLen ctx = (r', out)) :
    r'.Pool ∧ KeptBut r r' (r.findTask ctx.src) ∧ OldBut r r' out ∧
      (∀ id ∈ out, id ∈ r'.active ∧ (r.findTask ctx.src = some id ∨ id ∈ r.idle)) ∧
      ∀ id ∈ out, (r.current ctx = some id ∧ r' = r) ∨
        (r.reused ctx = some id ∧ ∃ t, t.notReceivedSeg = (r.task id).notReceivedSeg ∧
          t.pduLen = (r.task id).pduLen ∧ t.gen = (r.task id).gen ∧
          r'.task id = fillTask t env maxPduLen ctx) := by
  rcases request_cases hreq with ⟨id, hfind, heq, rfl, rfl⟩ | ⟨id, hfind, hlt, rfl, rfl⟩ |
    ⟨hfind, hnew⟩ | ⟨f, hfind, hlt, hnew⟩
  · refine ⟨h, fun j hj _ => ⟨hj, rfl⟩, fun j hj _ => ⟨hj, rfl⟩, ?_, ?_⟩
    · intro j hj
      cases hj
      exact ⟨(findTask_some hfind).1, .inl hfind⟩
    · intro j hj
      cases hj
      exact .inl ⟨by simp [current, hfind, heq], rfl⟩
  · exact ⟨h, fun j hj _ => ⟨hj, rfl⟩, fun j hj _ => ⟨hj, rfl⟩, by simp, by simp⟩
  · obtain ⟨hpool, hkept, hold, hout⟩ := h.newTask hfind hnew
    refine ⟨hpool, hfind ▸ hkept, hold, fun id hid => ⟨(hout id hid).2.1, .inr (hout id hid).1⟩,
      fun id hid => .inr ⟨?_, r.task id, rfl, rfl, rfl, (hout id hid).2.2⟩⟩
    rcases newTask_cases hnew with ⟨rfl, -⟩ | ⟨i, idle, hidle, -, -, -, rfl, -⟩
    · cases hid
    · cases hid
      simp [reused, hfind, hidle]
  · obtain ⟨hf, -⟩ := findTask_some hfind
    obtain ⟨hcpool, hckept, hcold⟩ := h.cancel hf
    obtain ⟨hpool, hkept, hold, hout⟩ := hcpool.newTask (h.find_cancel hfind) hnew
    refine ⟨hpool, hfind ▸ hckept.trans hkept (by simp), hcold.trans hold (by simp),
      fun id hid => ⟨(hout id hid).2.1, ?_⟩, fun id hid => .inr ⟨?_, (r.cancel f).task id, ?_, ?_,
        ?_, (hout id hid).2.2⟩⟩
    · have hmem : id ∈ r.idle ++ [f] := (hout id hid).1
      rw [List.mem_append, List.mem_singleton] at hmem
      exact hmem.symm.imp (fun he => by rw [hfind, he]) fun hi => hi
    · rcases newTask_cases hnew with ⟨rfl, -⟩ | ⟨i, idle, hidle, -, -, -, rfl, -⟩
      · cases hid
      · cases hid
        have hidle' : r.idle ++ [f] = id :: idle := hidle
        simp [reused, hfind, hlt, hidle']
    all_goals
      by_cases hif : id = f
      · subst hif; simp [Receiver.cancel]
      · simp [Receiver.cancel, hif]

/-- What a segment does to the task it comes for: it is released, or it stays active with
its message, and its memory is written to within bounds. -/
theorem receiveFor_task (h : r.Pool) (hid : id ∈ r.active)
    (hrun : r.receiveFor id mem len ctx = .ok (ret, r', calls)) :
    r'.Pool ∧ KeptBut r r' (some id) ∧ OldBut r r' (some id) ∧
      (id ∉ r'.active ∨ id ∈ r'.active ∧ (r'.task id).ctx = (r.task id).ctx ∧
        (r'.task id).gen = (r.task id).gen) := by
  have hset : ∀ (rpl : Rpl) (t : RxTask), t.ctx = (r.task id).ctx → t.gen = (r.task id).gen →
      let r₁ := ({ r with rpl := rpl } : Receiver).setTask id t
      r₁.Pool ∧ KeptBut r r₁ (some id) ∧ OldBut r r₁ (some id) ∧
        (id ∉ r₁.active ∨ id ∈ r₁.active ∧ (r₁.task id).ctx = (r.task id).ctx ∧
          (r₁.task id).gen = (r.task id).gen) := by
    intro rpl t hctx hgen
    have hpool : ({ r with rpl := rpl } : Receiver).Pool := ⟨h.nodup, h.src_inj⟩
    exact ⟨hpool.setTask hctx, kept_setTask t, old_setTask t,
      .inr ⟨hid, by rw [setTask_self, hctx], by rw [setTask_self, hgen]⟩⟩
  -- a release may follow a change of the task
  have hrel : ∀ s : Receiver, s.Pool → s.active = r.active → KeptBut r s (some id) →
      OldBut r s (some id) →
      (s.released id).Pool ∧ KeptBut r (s.released id) (some id) ∧
        OldBut r (s.released id) (some id) ∧
        (id ∉ (s.released id).active ∨ id ∈ (s.released id).active ∧
          ((s.released id).task id).ctx = (r.task id).ctx ∧
          ((s.released id).task id).gen = (r.task id).gen) := by
    intro s hs hactive hkept hold
    obtain ⟨hpool, hkept', hold'⟩ := hs.released (.inr (hactive ▸ hid))
    refine ⟨hpool, hkept.trans hkept' fun _ _ hx => hx, fun j hj hx => ?_,
      .inl fun hmem => (hs.mem_erase.mp hmem).1 rfl⟩
    obtain ⟨hj', htj⟩ := hold' j hj (by simp)
    obtain ⟨hj'', htj'⟩ := hold j hj' hx
    exact ⟨hj'', htj.trans htj'⟩
  have hsame : KeptBut r r (some id) := fun j hj _ => ⟨hj, rfl⟩
  have hsame' : OldBut r r (some id) := fun j hj _ => ⟨hj, rfl⟩
  have hrpl : ∀ rpl : Rpl, ({ r with rpl := rpl } : Receiver).Pool := fun _ =>
    ⟨h.nodup, h.src_inj⟩
  rcases receiveFor_cases hrun with ⟨-, rfl, -⟩ | ⟨-, -, hcases⟩
  · exact hrel r h rfl hsame hsame'
  rcases hcases with ⟨-, err, rpl, -, rfl, -⟩ | ⟨-, -, rfl, -⟩ | ⟨-, hcases⟩
  · exact ⟨hrpl rpl, fun j hj _ => ⟨hj, rfl⟩, fun j hj _ => ⟨hj, rfl⟩, .inr ⟨hid, rfl, rfl⟩⟩
  · exact ⟨h, hsame, hsame', .inr ⟨hid, rfl, rfl⟩⟩
  rcases hcases with ⟨-, hs⟩ | ⟨-, hs⟩
  · rcases receiveSingle_cases hs with ⟨rpl, -, rfl, -⟩ | ⟨rpl, buf, handle, -, -, -, -, rfl, -⟩
    · exact hrel _ (hrpl rpl) rfl (fun j hj _ => ⟨hj, rfl⟩) fun j hj _ => ⟨hj, rfl⟩
    · exact hset rpl _ rfl rfl
  · obtain ⟨buf, -, -, hcases⟩ := receiveMulti_cases hs
    rcases hcases with ⟨-, rpl, -, rfl, -⟩ | ⟨-, rpl, handle, -, -, rfl, -⟩ |
      ⟨-, ack, handle, -, -, rfl, -⟩
    · obtain ⟨hpool, hkept, hold, -⟩ := hset rpl (stored (r.task id) buf mem len ctx.ctl) rfl rfl
      exact hrel _ hpool rfl hkept hold
    · exact hset rpl _ rfl rfl
    · exact hset r.rpl _ rfl rfl

theorem Pool.receive (h : r.Pool) (hrun : r.receive env mem len ctx = .ok (ret, r', calls)) :
    r'.Pool ∧ KeptBut r r' (r.findTask ctx.src) := by
  have hun : ∀ {call : RxCall}, r.receiveUnseg call ctx = .ok (ret, r', calls) →
      r'.Pool ∧ KeptBut r r' (r.findTask ctx.src) := by
    intro call hc
    obtain ⟨ok, rpl, -, rfl, -⟩ := receiveUnseg_cases hc
    exact ⟨⟨h.nodup, h.src_inj⟩, fun j hj _ => ⟨hj, rfl⟩⟩
  rw [Receiver.receive] at hrun
  split_ifs at hrun
  · exact hun hrun
  · rcases receiveSegMsg_cases hrun with ⟨hreq, -⟩ | ⟨s, id, hreq, hfor⟩
    · obtain ⟨hpool, hkept, -⟩ := h.request hreq
      exact ⟨hpool, hkept⟩
    · obtain ⟨hpool, hkept, -, hout, -⟩ := h.request hreq
      obtain ⟨hid, hfrom⟩ := hout id rfl
      obtain ⟨hpool', hkept', -, -⟩ := receiveFor_task hpool hid hfor
      refine ⟨hpool', hkept.trans hkept' fun j hj hx he => ?_⟩
      obtain rfl : id = j := Option.some_inj.mp he
      rcases hfrom with hf | hidle
      · exact hx hf
      · exact h.not_idle hj hidle
  · exact hun hrun

end Receiver

end Meshx.LowerTransRx
