import Meshx.RxPool

/-! The timers of the reassembly tasks, and the message that a received PDU ends. -/
namespace Meshx.LowerTransRx

open Lib Segment Replay
open LowerTransTx (Timer)

/-- The message for which the timer in the field was created, if there is one. -/
def Handle.gen : Handle → Option ℕ
  | .timer t => some t.gen
  | .null | .dangling => none

def RxTask.handle (t : RxTask) : RxTimer → Handle
  | .ack => t.ackTimer
  | .incomplete => t.incompleteTimer

theorem Handle.start_gen {h h' : Handle} (hstart : h.start = .ok h') : h'.gen = h.gen := by
  cases h <;> cases hstart <;> rfl

namespace Receiver

variable {r r' s : Receiver} {env : RxEnv} {id len maxPduLen : ℕ} {mem : ℕ → Byte} {ctx : MsgCtx}
  {ret : Errno} {calls : List RxCall} {out : Option ℕ}

/-- The timers that active tasks have are for the messages that these hold. -/
def Dated (r : Receiver) : Prop :=
  ∀ id ∈ r.active, ∀ kind gen, ((r.task id).handle kind).gen = some gen → gen = (r.task id).gen

def completes (t : RxTask) (mem : ℕ → Byte) : Bool :=
  let sego := (rxMisc mem).sego.toNat
  t.notReceivedSeg &&& bit 32 sego != 0 &&
    ((rxMisc mem).segn == 0 || t.notReceivedSeg &&& ~~~bit 32 sego == 0)

/-- What the check against the replay list comes to, if it comes to an end. -/
def rplChecked (r : Receiver) (ctx : MsgCtx) : Option Bool :=
  (lowerTransRplCheck r.rpl (rplOf ctx)).toOption.map Prod.fst

def refused (r : Receiver) (id : ℕ) (mem : ℕ → Byte) (ctx : MsgCtx) : Bool :=
  mismatch (r.task id).ctx ctx || (r.task id).maxPduLen != rxMaxPduLen mem ctx.ctl ||
    completes (r.task id) mem && r.rplChecked ctx == some false

/-- The active task whose message a segment ends: the segment is of a newer message of the
source, or it is refused. -/
def segEnds (r : Receiver) (mem : ℕ → Byte) (ctx : MsgCtx) : Option ℕ :=
  (r.findTask ctx.src).filter fun id =>
    lowerTransSeqAuth (r.task id).ctx < lowerTransSeqAuth ctx ||
      lowerTransSeqAuth (r.task id).ctx == lowerTransSeqAuth ctx && r.refused id mem ctx

/-- The active task whose message a PDU ends. -/
def receiveEnds (r : Receiver) (mem : ℕ → Byte) (ctx : MsgCtx) : Option ℕ :=
  if ctx.ctl && (mem 0).extractLsb' 0 7 == 0 then none
  else if (mem 0).msb then r.segEnds mem (segCtx mem ctx)
  else none

/-- Every active task, one perhaps excepted, stays active with its message. -/
def ActiveBut (r r' : Receiver) (x : Option ℕ) : Prop :=
  ∀ j ∈ r.active, x ≠ some j → j ∈ r'.active ∧ (r'.task j).gen = (r.task j).gen

theorem KeptBut.activeBut {x : Option ℕ} (h : KeptBut r r' x) : ActiveBut r r' x := by
  intro j hj hx
  obtain ⟨hactive, htask⟩ := h j hj hx
  exact ⟨hactive, congrArg RxTask.gen htask⟩

section Dated

/-- Every timer that the task has is for its message. -/
def OwnTimers (t : RxTask) : Prop := ∀ kind gen, (t.handle kind).gen = some gen → gen = t.gen

theorem fillTask_own {t : RxTask} : OwnTimers (fillTask t env maxPduLen ctx) := by
  intro kind gen hgen
  cases kind <;> exact (Option.some.inj hgen).symm

/-- The timers of a task after a step are those it had before, or there are none. -/
theorem own_of_gen {t t' : RxTask} (h : OwnTimers t) (hgen : t'.gen = t.gen)
    (hack : t'.ackTimer.gen = t.ackTimer.gen ∨ t'.ackTimer = .null)
    (hinc : t'.incompleteTimer.gen = t.incompleteTimer.gen) : OwnTimers t' := by
  intro kind gen hkind
  rw [hgen]
  cases kind with
  | ack =>
    rcases hack with hsame | hnull
    · exact h .ack gen (hsame.symm.trans hkind)
    · rw [RxTask.handle, hnull] at hkind
      cases hkind
  | incomplete => exact h .incomplete gen (hinc.symm.trans hkind)

theorem Dated.of_old (h : r.Dated) (hold : OldBut r r' (some id))
    (hid : id ∈ r'.active → OwnTimers (r'.task id)) : r'.Dated := by
  intro j hj
  by_cases hji : j = id
  · subst hji
    exact hid hj
  · obtain ⟨hj', htask⟩ := hold j hj (by simpa using Ne.symm hji)
    rw [htask]
    exact h j hj'

theorem Dated.request (h : r.Dated) (hpool : r.Pool)
    (hreq : r.request env maxPduLen ctx = (r', out)) : r'.Dated := by
  obtain ⟨-, -, hold, -, hout⟩ := hpool.request hreq
  cases out with
  | none =>
    intro j hj
    obtain ⟨hj', htask⟩ := hold j hj (by simp)
    rw [htask]
    exact h j hj'
  | some id =>
    refine h.of_old hold fun hid => ?_
    rcases hout id rfl with ⟨-, rfl⟩ | ⟨-, t, -, -, -, htask⟩
    · exact h id hid
    · rw [htask]
      exact fillTask_own

end Dated

section Segments

theorem receiveFor_timers (h : OwnTimers (r.task id)) (hpool : r.Pool) (hid : id ∈ r.active)
    (hrun : r.receiveFor id mem len ctx = .ok (ret, r', calls)) :
    (r.refused id mem ctx = false → r'.active = r.active) ∧
      (id ∈ r'.active → OwnTimers (r'.task id)) := by
  have hrel : ∀ s : Receiver, s.Pool → id ∉ (s.released id).active :=
    fun s hs hmem => (hs.mem_erase.mp hmem).1 rfl
  have hrpl : ∀ rpl : Rpl, ({ r with rpl := rpl } : Receiver).Pool := fun _ =>
    ⟨hpool.nodup, hpool.src_inj⟩
  rcases receiveFor_cases hrun with ⟨hrefuse, rfl, -⟩ | ⟨hmatch, hmax, hcases⟩
  · refine ⟨fun hok => ?_, fun hmem => absurd hmem (hrel r hpool)⟩
    rw [refused] at hok
    rcases hrefuse with hm | hm <;> simp [hm] at hok
  rcases hcases with ⟨-, err, rpl, -, rfl, -⟩ | ⟨-, -, rfl, -⟩ | ⟨hmissing, hcases⟩
  · exact ⟨fun _ => rfl, fun _ => h⟩
  · exact ⟨fun _ => rfl, fun _ => h⟩
  have hrefused : ∀ rpl, ((rxMisc mem).segn = 0 ∨
      (r.task id).notReceivedSeg &&& ~~~bit 32 (rxMisc mem).sego.toNat = 0) →
      lowerTransRplCheck r.rpl (rplOf ctx) = .ok (false, rpl) → r.refused id mem ctx = true := by
    intro rpl hlast hcheck
    have hcompletes : completes (r.task id) mem = true := by
      simp only [completes, Bool.and_eq_true, Bool.or_eq_true, bne_iff_ne, beq_iff_eq]
      exact ⟨hmissing, hlast⟩
    have hchecked : r.rplChecked ctx = some false := by rw [rplChecked, hcheck]; rfl
    rw [refused, hcompletes, hchecked]
    simp
  rcases hcases with ⟨hone, hs⟩ | ⟨hone, hs⟩
  · rcases receiveSingle_cases hs with ⟨rpl, hcheck, rfl, -⟩ |
      ⟨rpl, buf, handle, -, -, hstart, -, rfl, -⟩
    · exact ⟨fun hok => absurd (hrefused rpl (.inl hone) hcheck) (by simp [hok]),
        fun hmem => absurd hmem (hrel _ (hrpl rpl))⟩
    · refine ⟨fun _ => rfl, fun _ => ?_⟩
      rw [setTask_self]
      exact own_of_gen h rfl (.inr rfl) (Handle.start_gen hstart)
  · obtain ⟨buf, -, -, hcases⟩ := receiveMulti_cases hs
    rcases hcases with ⟨hdone, rpl, hcheck, rfl, -⟩ | ⟨-, rpl, handle, -, hstart, rfl, -⟩ |
      ⟨-, ack, handle, hack, hstart, rfl, -⟩
    · refine ⟨fun hok => absurd (hrefused rpl (.inr hdone) hcheck) (by simp [hok]),
        fun hmem => absurd hmem (hrel _ ?_)⟩
      exact (hrpl rpl).setTask rfl
    · refine ⟨fun _ => rfl, fun _ => ?_⟩
      rw [setTask_self]
      exact own_of_gen h rfl (.inr rfl) (Handle.start_gen hstart)
    · refine ⟨fun _ => rfl, fun _ => ?_⟩
      rw [setTask_self]
      exact own_of_gen h rfl (.inl (Handle.start_gen hack)) (Handle.start_gen hstart)

/-- A request leaves the active tasks but one with an older message of the source. -/
theorem request_active (hpool : r.Pool) (hreq : r.request env maxPduLen ctx = (r', out)) :
    ActiveBut r r' ((r.findTask ctx.src).filter fun id =>
      lowerTransSeqAuth (r.task id).ctx < lowerTransSeqAuth ctx) := by
  have hkept := (hpool.request hreq).2.1
  rcases request_cases hreq with ⟨id, -, -, -, rfl⟩ | ⟨id, -, -, -, rfl⟩ | ⟨hfind, -⟩ |
    ⟨id, hfind, hlt, -⟩
  · exact fun j hj _ => ⟨hj, rfl⟩
  · exact fun j hj _ => ⟨hj, rfl⟩
  · rw [hfind] at hkept ⊢
    exact hkept.activeBut
  · have hfilter : (r.findTask ctx.src).filter (fun id =>
        lowerTransSeqAuth (r.task id).ctx < lowerTransSeqAuth ctx) = r.findTask ctx.src := by
      rw [hfind]
      simp [hlt]
    rw [hfilter]
    exact hkept.activeBut

/-- A segment leaves the active tasks but the one whose message it ends. -/
theorem receiveSegMsg_timers (hpool : r.Pool) (h : r.Dated)
    (hrun : r.receiveSegMsg env mem len ctx = .ok (ret, r', calls)) :
    ActiveBut r r' (r.segEnds mem (segCtx mem ctx)) ∧ r'.Dated := by
  have hsuper : ∀ j, r.segEnds mem (segCtx mem ctx) ≠ some j →
      ((r.findTask ctx.src).filter fun id =>
        lowerTransSeqAuth (r.task id).ctx < lowerTransSeqAuth (segCtx mem ctx)) ≠ some j := by
    intro j hj hfilter
    refine hj ?_
    obtain ⟨hfind, hlt⟩ := Option.filter_eq_some_iff.mp hfilter
    have hsrc : (segCtx mem ctx).src = ctx.src := rfl
    rw [segEnds, hsrc, hfind]
    simp at hlt
    simp [hlt]
  rcases receiveSegMsg_cases hrun with ⟨hreq, -⟩ | ⟨s, id, hreq, hfor⟩
  · have hactive := request_active hpool hreq
    exact ⟨fun j hj hx => hactive j hj (hsuper j hx), h.request hpool hreq⟩
  · obtain ⟨hspool, -, -, hout, hfrom⟩ := hpool.request hreq
    have hsdated := h.request hpool hreq
    have hid := (hout id rfl).1
    obtain ⟨-, hkept, hold, htask⟩ := receiveFor_task hspool hid hfor
    obtain ⟨hgo, hown⟩ := receiveFor_timers (hsdated id hid) hspool hid hfor
    refine ⟨fun j hj hx => ?_, hsdated.of_old hold hown⟩
    obtain ⟨hjs, hgen⟩ := request_active hpool hreq j hj (hsuper j hx)
    by_cases hji : j = id
    · subst hji
      -- the task was active before, so the segment is of the message that it holds
      rcases hfrom j rfl with ⟨hcur, rfl⟩ | ⟨hre, t, -, -, hgen', hfill⟩
      · obtain ⟨hfind, heq⟩ := Option.filter_eq_some_iff.mp hcur
        have hok : s.refused j mem (segCtx mem ctx) = false := by
          rw [← Bool.not_eq_true]
          intro hbad
          refine hx ?_
          rw [segEnds, hfind]
          simp at heq
          simp [heq, hbad]
        have hmem : j ∈ r'.active := hgo hok ▸ hj
        rcases htask with hout' | ⟨-, -, hgen'⟩
        · exact absurd hmem hout'
        · exact ⟨hmem, hgen'⟩
      · rw [hfill] at hgen
        exact absurd hgen (by simp [fillTask, hgen'])
    · obtain ⟨hjr', htask'⟩ := hkept j hjs (by simpa using Ne.symm hji)
      exact ⟨hjr', (congrArg RxTask.gen htask').trans hgen⟩

end Segments

/-- A PDU leaves the active tasks but the one whose message it ends, and the timers are for the
messages of their tasks. -/
theorem Pool.timers (hpool : r.Pool) (h : r.Dated)
    (hrun : r.receive env mem len ctx = .ok (ret, r', calls)) :
    ActiveBut r r' (r.receiveEnds mem ctx) ∧ r'.Dated := by
  have hun : ∀ {call : RxCall}, r.receiveUnseg call ctx = .ok (ret, r', calls) →
      ActiveBut r r' none ∧ r'.Dated := by
    intro call hc
    obtain ⟨ok, rpl, -, rfl, -⟩ := receiveUnseg_cases hc
    exact ⟨fun j hj _ => ⟨hj, rfl⟩, h⟩
  rw [Receiver.receive] at hrun
  rw [receiveEnds]
  split_ifs at hrun ⊢
  · exact hun hrun
  · exact receiveSegMsg_timers hpool h hrun
  · exact hun hrun

end Receiver

end Meshx.LowerTransRx
