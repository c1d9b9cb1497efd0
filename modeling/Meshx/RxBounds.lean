import Meshx.AtMostOnce
import Meshx.RxPool
import Meshx.RxMasks

/-! Where received segments are written. All writes go into the memory of the messages, and the
masks of every task make up its message, exactly as long as a task that is used again has no
segments missing from the message before and the data of a segment has its place. -/
namespace Meshx.LowerTransRx

open Lib Segment Replay IvIndex Receiver

/-- The timers and the memory of a new message can be had. -/
def RxEnv.Ready (env : RxEnv) : Prop :=
  env.ackTimerOk = true ∧ env.incompleteTimerOk = true ∧ env.mallocOk = true

namespace Receiver

variable {r : Receiver} {id len : ℕ} {mem : ℕ → Byte} {ctx : MsgCtx} {buf : List Byte}

/-- The outcome of a receive for the task is no write outside its memory, and a task that stays
active is whole. -/
def Safe (id : ℕ) (x : Outcome) : Prop :=
  x ≠ .error .badWrite ∧ ∀ ret r' calls, x = .ok (ret, r', calls) → id ∈ r'.active →
    (r'.task id).Whole

section Faults

theorem delete_inBounds (h : Handle) : h.delete ≠ .error .badWrite := by
  cases h <;> simp [Handle.delete]

theorem start_inBounds (h : Handle) : h.start ≠ .error .badWrite := by
  cases h <;> simp [Handle.start]

theorem release_inBounds (id : ℕ) : r.release id ≠ .error .badWrite := by
  rw [release]
  split_ifs
  · refine bind_ne_error (delete_inBounds _) fun _ _ => bind_ne_error (delete_inBounds _) ?_
    simp [pure, Except.pure]
  · simp

theorem refuse_inBounds (err : Errno) : r.refuse id err ctx ≠ .error .badWrite :=
  bind_ne_error (release_inBounds id) fun _ _ => by simp [pure, Except.pure]

theorem complete_inBounds : r.complete id ctx ≠ .error .badWrite := by
  refine bind_ne_error (delete_inBounds _) fun _ _ => bind_ne_error (start_inBounds _) ?_
  intro handle _
  cases (r.task id).ppdu <;> simp [pure, Except.pure]

theorem await_inBounds : r.await id ≠ .error .badWrite :=
  bind_ne_error (start_inBounds _) fun _ _ => bind_ne_error (start_inBounds _) fun _ _ => by
    simp [pure, Except.pure]

theorem rplUpdate_inBounds (rpl : Rpl) (e : RplEntry) : rplUpdate rpl e ≠ .error .badWrite := by
  rw [rplUpdate]
  by_cases hempty : rpl.index = 0
  · simp [hempty]
  · rw [if_neg hempty]
    cases rpl.array[rpl.index]? with
    | none => simp
    | some e' =>
      dsimp only
      split_ifs <;> simp

theorem rplCheck_inBounds (rpl : Rpl) (e : RplEntry) :
    lowerTransRplCheck rpl e ≠ .error .badWrite := by
  rw [lowerTransRplCheck]
  split_ifs
  · exact bind_ne_error (rplUpdate_inBounds rpl e) fun _ _ => by simp [pure, Except.pure]
  · simp

theorem checked_inBounds : r.checked id ctx ≠ .error .badWrite := by
  refine bind_ne_error (rplCheck_inBounds _ _) fun out _ => ?_
  obtain ⟨ok, rpl⟩ := out
  cases ok
  · exact refuse_inBounds _
  · exact complete_inBounds

theorem writePdu_of_ppdu {offset n : ℕ} (hbuf : (r.task id).ppdu = some buf) :
    r.writePdu id offset n mem =
      if n = 0 ∨ offset + n ≤ buf.length then
        .ok (r.setTask id { r.task id with ppdu := some (splice buf offset (memBytes mem 4 n)) })
      else .error .badWrite := by
  rw [writePdu, hbuf]
  dsimp only
  by_cases hin : n = 0 ∨ offset + n ≤ buf.length
  · rw [if_pos hin, if_neg (by omega)]
  · rw [if_neg hin, if_pos (by omega)]

end Faults

theorem receiveSingle_badWrite_iff (hbuf : (r.task id).ppdu = some buf) :
    r.receiveSingle id mem len ctx = .error .badWrite ↔
      ∃ rpl, lowerTransRplCheck r.rpl (rplOf ctx) = .ok (true, rpl) ∧
        ¬ ((len + 65536 - 4) % 65536 = 0 ∨ (len + 65536 - 4) % 65536 ≤ buf.length) := by
  rw [receiveSingle]
  dsimp only
  generalize (len + 65536 - 4) % 65536 = n
  cases hcheck : lowerTransRplCheck r.rpl (rplOf ctx) with
  | error f =>
    have hf := hcheck ▸ rplCheck_inBounds r.rpl (rplOf ctx)
    exact iff_of_false (fun h => hf (congrArg Except.error (Except.error.inj h))) (by simp)
  | ok out =>
    obtain ⟨ok, rpl⟩ := out
    cases ok with
    | false => exact iff_of_false (refuse_inBounds _) (by simp)
    | true =>
      have hbuf' : (({ r with rpl := rpl } : Receiver).task id).ppdu = some buf := hbuf
      have hwrite := @writePdu_of_ppdu _ id mem buf 0 n hbuf'
      rw [Nat.zero_add] at hwrite
      change (Receiver.writePdu { r with rpl := rpl } id 0 n mem >>= _) = _ ↔ _
      rw [hwrite]
      by_cases hin : n = 0 ∨ n ≤ buf.length
      · rw [if_pos hin]
        refine iff_of_false complete_inBounds ?_
        rintro ⟨rpl', -, hout⟩
        exact hout hin
      · rw [if_neg hin]
        exact iff_of_true rfl ⟨rpl, rfl, hin⟩

theorem receiveMulti_badWrite_iff (halloc : (r.task id).Allocated) :
    r.receiveMulti id mem len ctx = .error .badWrite ↔
      ¬ Inside (r.task id) mem len ctx.ctl := by
  obtain ⟨buf, hbuf, hlen⟩ := halloc.buffer
  rw [receiveMulti, Inside, ← hlen]
  dsimp only
  rw [writePdu_of_ppdu hbuf]
  by_cases hin : rxSegLen mem len ctx.ctl = 0 ∨
      (rxMisc mem).sego.toNat * segSize ctx.ctl + rxSegLen mem len ctx.ctl ≤ buf.length
  · rw [if_pos hin]
    refine iff_of_false ?_ (not_not.mpr hin)
    simp only [bind, Except.bind]
    split_ifs
    · exact checked_inBounds
    · exact await_inBounds
  · rw [if_neg hin]
    exact iff_of_true rfl hin

theorem receiveMulti_eq (hbuf : (r.task id).ppdu = some buf)
    (hin : rxSegLen mem len ctx.ctl = 0 ∨
      (rxMisc mem).sego.toNat * segSize ctx.ctl + rxSegLen mem len ctx.ctl ≤ buf.length) :
    r.receiveMulti id mem len ctx =
      let s := r.setTask id (stored (r.task id) buf mem len ctx.ctl)
      if (stored (r.task id) buf mem len ctx.ctl).notReceivedSeg = 0 then s.checked id ctx
      else s.await id := by
  rw [receiveMulti]
  dsimp only
  rw [writePdu_of_ppdu hbuf, if_pos hin]
  simp only [bind, Except.bind, setTask_self, setTask_setTask]
  rfl

theorem segCount_single (halloc : (r.task id).Allocated) {ctl : Bool}
    (hmax : (r.task id).maxPduLen = segSize ctl) : (r.task id).segCount = 1 := by
  obtain ⟨segn, -, hsegs⟩ := halloc.segs
  have hzero : segn = 0 := by
    rw [hmax] at hsegs
    revert hsegs
    cases ctl <;> cases (r.task id).ctx.ctl <;> simp only [segSize, if_true, if_false,
      Bool.false_eq_true] <;> omega
  rw [segCount_eq hsegs, hzero]

section Branches

variable (hpool : r.Pool) (halloc : (r.task id).Allocated)
include hpool halloc

theorem receiveSingle_safe_iff (hmax : (r.task id).maxPduLen = segSize ctx.ctl) :
    Safe id (r.receiveSingle id mem len ctx) ↔
      ∀ rpl, lowerTransRplCheck r.rpl (rplOf ctx) = .ok (true, rpl) →
        (len + 65536 - 4) % 65536 ≤ segSize ctx.ctl := by
  obtain ⟨buf, hbuf, hlen⟩ := halloc.buffer
  have hsize : buf.length = segSize ctx.ctl := hlen.trans hmax
  constructor
  · intro h rpl hcheck
    by_contra hgt
    exact h.1 ((receiveSingle_badWrite_iff hbuf).mpr ⟨rpl, hcheck, by omega⟩)
  · intro h
    refine ⟨fun hbad => ?_, fun ret r' calls hrun hid => ?_⟩
    · obtain ⟨rpl, hcheck, hout⟩ := (receiveSingle_badWrite_iff hbuf).mp hbad
      exact hout (.inr (hsize ▸ h rpl hcheck))
    · rcases receiveSingle_cases hrun with ⟨rpl, -, rfl, -⟩ |
        ⟨rpl, buf', handle, -, hbuf', -, hin, rfl, -⟩
      · exact absurd rfl (hpool.mem_erase.mp hid).1
      · obtain rfl := Option.some.inj (hbuf.symm.trans hbuf')
        rw [setTask_self]
        refine ⟨masked_single rfl rfl (segCount_single halloc hmax), ⟨_, rfl, ?_⟩, halloc.segs⟩
        exact (splice_length_of_inside (by simpa using hin)).trans hlen

theorem receiveMulti_safe_iff (hmasked : (r.task id).Masked)
    (hmissing : (r.task id).notReceivedSeg.getLsbD (rxMisc mem).sego.toNat = true) :
    Safe id (r.receiveMulti id mem len ctx) ↔ Inside (r.task id) mem len ctx.ctl := by
  obtain ⟨buf, hbuf, hlen⟩ := halloc.buffer
  constructor
  · intro h
    by_contra hout
    exact h.1 ((receiveMulti_badWrite_iff halloc).mpr hout)
  · intro hin
    refine ⟨fun hbad => (receiveMulti_badWrite_iff halloc).mp hbad hin,
      fun ret r' calls hrun hid => ?_⟩
    obtain ⟨buf', hbuf', -, hcases⟩ := receiveMulti_cases hrun
    obtain rfl := Option.some.inj (hbuf.symm.trans hbuf')
    have hwhole := stored_whole ⟨hmasked, halloc⟩ hbuf hin hmissing
    rcases hcases with ⟨-, rpl, -, rfl, -⟩ | ⟨-, rpl, handle, -, -, rfl, -⟩ |
      ⟨-, ack, handle, -, -, rfl, -⟩
    · exact absurd rfl (hpool.mem_erase.mp hid).1
    all_goals
      rw [setTask_self]
      exact ⟨hwhole.masked, hwhole.allocated.buffer, hwhole.allocated.segs⟩

end Branches

/-- A new message in a task with a stale segment that it does not have is received outside the
memory, or waits for that segment. -/
theorem receiveMulti_unsafe (hid : id ∈ r.active) (halloc : (r.task id).Allocated)
    (huntidy : ¬ (r.task id).Tidy) {a b : LowerTransTx.Timer}
    (hack : (r.task id).ackTimer = .timer a) (hinc : (r.task id).incompleteTimer = .timer b)
    (hsego : Inside (r.task id) mem len ctx.ctl →
      (rxMisc mem).sego.toNat < (r.task id).segCount) :
    ¬ Safe id (r.receiveMulti id mem len ctx) := by
  intro h
  obtain ⟨buf, hbuf, hlen⟩ := halloc.buffer
  have hin : Inside (r.task id) mem len ctx.ctl :=
    by_contra fun hout => h.1 ((receiveMulti_badWrite_iff halloc).mpr hout)
  have huntidy' : ¬ (stored (r.task id) buf mem len ctx.ctl).Tidy :=
    stored_untidy huntidy (hsego hin)
  have hne : (stored (r.task id) buf mem len ctx.ctl).notReceivedSeg ≠ 0 := by
    intro h0
    refine huntidy' fun j _ hm => ?_
    rw [h0] at hm
    simp at hm
  rw [Inside, ← hlen] at hin
  have hrun := receiveMulti_eq hbuf hin
  dsimp only at hrun
  rw [if_neg hne, await] at hrun
  simp only [setTask_self, setTask_setTask] at hrun
  rw [show (stored (r.task id) buf mem len ctx.ctl).ackTimer = .timer a from hack,
    show (stored (r.task id) buf mem len ctx.ctl).incompleteTimer = .timer b from hinc] at hrun
  have hwhole := h.2 _ _ _ hrun hid
  rw [setTask_self] at hwhole
  exact huntidy' (masked_iff.mp hwhole.masked).2

/-- The data of a segment has its place in the message: a single segment that the replay list
lets through is not longer than a segment, the last of several neither, and no segment comes
after the last one. -/
def Fits (r : Receiver) (mem : ℕ → Byte) (len : ℕ) (ctx : MsgCtx) : Prop :=
  if (rxMisc mem).segn = 0 then
    ∀ rpl, lowerTransRplCheck r.rpl (rplOf ctx) = .ok (true, rpl) →
      (len + 65536 - 4) % 65536 ≤ segSize ctx.ctl
  else
    (rxMisc mem).sego.toNat ≤ (rxMisc mem).segn.toNat ∧
      ((rxMisc mem).sego = (rxMisc mem).segn → (len + 256 - 4) % 256 ≤ segSize ctx.ctl)

theorem receiveFor_missing (hm : mismatch (r.task id).ctx ctx = false)
    (hmax : (r.task id).maxPduLen = rxMaxPduLen mem ctx.ctl)
    (hmissing : (r.task id).notReceivedSeg.getLsbD (rxMisc mem).sego.toNat = true) :
    r.receiveFor id mem len ctx =
      if (rxMisc mem).segn = 0 then r.receiveSingle id mem len ctx
      else r.receiveMulti id mem len ctx := by
  have hbit : ¬ (r.task id).notReceivedSeg &&& bit 32 (rxMisc mem).sego.toNat = 0 := by
    rw [and_bit_eq_zero _ (rxMisc mem).sego.isLt, hmissing]
    decide
  have hne : (r.task id).notReceivedSeg ≠ 0 := by
    intro h0
    rw [h0] at hmissing
    simp at hmissing
  rw [receiveFor]
  dsimp only
  rw [hm, if_neg Bool.false_ne_true, if_neg (not_not.mpr hmax), if_neg hne, if_neg hbit]

theorem receiveFor_there (hm : mismatch (r.task id).ctx ctx = false)
    (hmax : (r.task id).maxPduLen = rxMaxPduLen mem ctx.ctl) (huntidy : ¬ (r.task id).Tidy)
    (hthere : ¬ (r.task id).notReceivedSeg.getLsbD (rxMisc mem).sego.toNat = true) :
    r.receiveFor id mem len ctx = .ok (.already, r, []) := by
  have hne : (r.task id).notReceivedSeg ≠ 0 := by
    intro h0
    refine huntidy fun j _ hm => ?_
    rw [h0] at hm
    simp at hm
  have hbit : (r.task id).notReceivedSeg &&& bit 32 (rxMisc mem).sego.toNat = 0 := by
    rw [and_bit_eq_zero _ (rxMisc mem).sego.isLt]
    simpa using hthere
  rw [receiveFor]
  dsimp only
  rw [hm, if_neg Bool.false_ne_true, if_neg (not_not.mpr hmax), if_neg hne, if_pos hbit]

theorem mismatch_self : mismatch ctx ctx = false := by
  cases hctl : ctx.ctl <;> simp [mismatch, hctl]

/-- A segment that is not for the message, or is there already, is not written. -/
theorem receiveFor_other (hall : ¬ (mismatch (r.task id).ctx ctx = false ∧
      (r.task id).maxPduLen = rxMaxPduLen mem ctx.ctl ∧
      (r.task id).notReceivedSeg.getLsbD (rxMisc mem).sego.toNat = true)) :
    r.receiveFor id mem len ctx ≠ .error .badWrite ∧
      ∀ ret r' calls, r.receiveFor id mem len ctx = .ok (ret, r', calls) →
        r' = r.released id ∨ ∃ rpl, r' = { r with rpl := rpl } := by
  constructor
  · rw [receiveFor]
    dsimp only
    split_ifs with hm hmax hdone hbit h0
    · exact refuse_inBounds _
    · exact refuse_inBounds _
    · exact bind_ne_error (rplUpdate_inBounds _ _) fun _ _ => by simp [pure, Except.pure]
    · simp
    all_goals
      rw [and_bit_eq_zero _ (rxMisc mem).sego.isLt, Bool.not_eq_false] at hbit
      exact absurd ⟨by simpa using hm, not_not.mp hmax, hbit⟩ hall
  · intro ret r' calls hrun
    rcases receiveFor_cases hrun with ⟨-, rfl, -⟩ | ⟨hm, hmax, hcases⟩
    · exact .inl rfl
    rcases hcases with ⟨-, err, rpl, -, rfl, -⟩ | ⟨-, -, rfl, -⟩ | ⟨hbit, -⟩
    · exact .inr ⟨rpl, rfl⟩
    · exact .inr ⟨_, rfl⟩
    · rw [Ne, and_bit_eq_zero _ (rxMisc mem).sego.isLt, Bool.not_eq_false] at hbit
      exact absurd ⟨hm, hmax, hbit⟩ hall

section For

variable (hpool : r.Pool) (halloc : (r.task id).Allocated)
include hpool halloc

theorem missing_safe_iff (hm : mismatch (r.task id).ctx ctx = false)
    (hmax : (r.task id).maxPduLen = rxMaxPduLen mem ctx.ctl)
    (hmissing : (r.task id).notReceivedSeg.getLsbD (rxMisc mem).sego.toNat = true)
    (hone : (r.task id).Masked ∨ (rxMisc mem).segn = 0) :
    Safe id (r.receiveFor id mem len ctx) ↔ Fits r mem len ctx := by
  rw [receiveFor_missing hm hmax hmissing, Fits]
  split_ifs with h0
  · have hsize : (r.task id).maxPduLen = segSize ctx.ctl := by
      rw [hmax, rxMaxPduLen, h0]
      simp
    exact receiveSingle_safe_iff hpool halloc hsize
  · rw [receiveMulti_safe_iff hpool halloc (hone.resolve_right h0) hmissing, inside_iff hmax]

/-- A segment for a whole task is received safely exactly if its data has its place, once it is
found to be for the message and not to be there yet. -/
theorem receiveFor_safe_iff (hmasked : (r.task id).Masked) :
    Safe id (r.receiveFor id mem len ctx) ↔ (mismatch (r.task id).ctx ctx = false →
      (r.task id).maxPduLen = rxMaxPduLen mem ctx.ctl →
      (r.task id).notReceivedSeg.getLsbD (rxMisc mem).sego.toNat = true → Fits r mem len ctx) := by
  by_cases hall : mismatch (r.task id).ctx ctx = false ∧
      (r.task id).maxPduLen = rxMaxPduLen mem ctx.ctl ∧
      (r.task id).notReceivedSeg.getLsbD (rxMisc mem).sego.toNat = true
  · obtain ⟨hm, hmax, hmissing⟩ := hall
    rw [missing_safe_iff hpool halloc hm hmax hmissing (.inl hmasked)]
    exact ⟨fun h _ _ _ => h, fun h => h hm hmax hmissing⟩
  · obtain ⟨hin, hkept⟩ := receiveFor_other hall
    refine iff_of_true ⟨hin, fun ret r' calls hrun hid => ?_⟩
      fun hm hmax hmissing => absurd ⟨hm, hmax, hmissing⟩ hall
    rcases hkept ret r' calls hrun with rfl | ⟨rpl, rfl⟩
    · exact absurd rfl (hpool.mem_erase.mp hid).1
    · exact ⟨hmasked, halloc⟩

/-- A segment for a task that was filled with its message just before. -/
theorem receiveFor_fresh_iff (hid : id ∈ r.active) (hcovers : (r.task id).Covers)
    (hctx : (r.task id).ctx = ctx) (hmax : (r.task id).maxPduLen = rxMaxPduLen mem ctx.ctl)
    {a b : LowerTransTx.Timer} (hack : (r.task id).ackTimer = .timer a)
    (hinc : (r.task id).incompleteTimer = .timer b) :
    Safe id (r.receiveFor id mem len ctx) ↔
      ((r.task id).Tidy ∨ (rxMisc mem).segn = 0 ∧
        (r.task id).notReceivedSeg.getLsbD (rxMisc mem).sego.toNat = true) ∧
      ((r.task id).notReceivedSeg.getLsbD (rxMisc mem).sego.toNat = true →
        Fits r mem len ctx) := by
  have hm : mismatch (r.task id).ctx ctx = false := by rw [hctx, mismatch_self]
  by_cases htidy : (r.task id).Tidy
  · rw [receiveFor_safe_iff hpool halloc (masked_iff.mpr ⟨hcovers, htidy⟩)]
    exact ⟨fun h => ⟨.inl htidy, h hm hmax⟩, fun h _ _ => h.2⟩
  by_cases hmissing : (r.task id).notReceivedSeg.getLsbD (rxMisc mem).sego.toNat = true
  · by_cases h0 : (rxMisc mem).segn = 0
    · rw [missing_safe_iff hpool halloc hm hmax hmissing (.inr h0)]
      exact ⟨fun h => ⟨.inr ⟨h0, hmissing⟩, fun _ => h⟩, fun h => h.2 hmissing⟩
    · have hcount : (r.task id).segCount = (rxMisc mem).segn.toNat + 1 :=
        segCount_eq (by rw [hmax, hctx]; rfl)
      have hsego : Inside (r.task id) mem len ctx.ctl →
          (rxMisc mem).sego.toNat < (r.task id).segCount := fun hin => by
        have hle := ((inside_iff hmax).mp hin).1
        omega
      have hunsafe : ¬ Safe id (r.receiveMulti id mem len ctx) :=
        receiveMulti_unsafe hid halloc htidy hack hinc hsego
      rw [receiveFor_missing hm hmax hmissing, if_neg h0]
      exact iff_of_false hunsafe fun h => h.1.elim htidy fun h => h0 h.1
  · refine iff_of_false (fun h => ?_) fun h => h.1.elim htidy fun h => hmissing h.2
    exact htidy (masked_iff.mp (h.2 _ _ _ (receiveFor_there hm hmax htidy hmissing) hid).masked).2

end For

section Request

variable {s : Receiver} {env : RxEnv} {maxPduLen : ℕ}

theorem current_some (h : r.current ctx = some id) :
    r.findTask ctx.src = some id ∧ lowerTransSeqAuth (r.task id).ctx = lowerTransSeqAuth ctx := by
  obtain ⟨hfind, hseq⟩ := Option.filter_eq_some_iff.mp h
  exact ⟨hfind, by simpa using hseq⟩

theorem reused_of_current (h : r.current ctx = some id) : r.reused ctx = none := by
  obtain ⟨hfind, hseq⟩ := current_some h
  simp [reused, hfind, hseq]

theorem request_of_current (h : r.current ctx = some id) :
    r.request env maxPduLen ctx = (r, some id) := by
  obtain ⟨hfind, hseq⟩ := current_some h
  simp [request, hfind, hseq]

theorem newTask_of_ready {idle : List ℕ} (henv : env.Ready) (hidle : r.idle = id :: idle) :
    (r.newTask env maxPduLen ctx).2 = some id := by
  obtain ⟨hack, hinc, hmalloc⟩ := henv
  simp [newTask, hidle, hack, hinc, hmalloc]

theorem request_of_reused (henv : env.Ready) (h : r.reused ctx = some id) :
    (r.request env maxPduLen ctx).2 = some id := by
  rw [reused] at h
  cases hfind : r.findTask ctx.src with
  | none =>
    rw [hfind] at h
    obtain ⟨idle, hidle⟩ := List.head?_eq_some_iff.mp h
    simp only [request, hfind]
    exact newTask_of_ready henv hidle
  | some f =>
    rw [hfind] at h
    dsimp only at h
    split_ifs at h with hlt
    obtain ⟨idle, hidle⟩ := List.head?_eq_some_iff.mp h
    simp only [request, hfind, hlt, if_true]
    exact newTask_of_ready henv hidle

/-- What is known of a request that is granted. -/
theorem Pool.granted (h : r.Pool) (hreq : r.request env maxPduLen ctx = (s, some id)) :
    (s.Pool ∧ id ∈ s.active ∧ OldBut r s (some id) ∧ s.rpl = r.rpl) ∧
      ((r.current ctx = some id ∧ s = r) ∨ (r.reused ctx = some id ∧ env.Ready ∧
        ∃ t, t.notReceivedSeg = (r.task id).notReceivedSeg ∧ t.pduLen = (r.task id).pduLen ∧
          s.task id = fillTask t env maxPduLen ctx)) := by
  obtain ⟨hpool, -, hold, hactive, hcase⟩ := h.request hreq
  have hnew : ∀ r₁ : Receiver, r₁.newTask env maxPduLen ctx = (s, some id) →
      s.rpl = r₁.rpl ∧ env.Ready := by
    intro r₁ hnew
    rcases newTask_cases hnew with ⟨hnone, -⟩ | ⟨i, idle, -, hack, hinc, hmalloc, -, hrpl, -⟩
    · cases hnone
    · exact ⟨hrpl, hack, hinc, hmalloc⟩
  refine ⟨⟨hpool, (hactive id rfl).1, hold, ?_⟩, ?_⟩
  · rcases request_cases hreq with ⟨i, -, -, -, rfl⟩ | ⟨i, -, -, -, rfl⟩ | ⟨-, hn⟩ | ⟨i, -, -, hn⟩
    · rfl
    · rfl
    · exact (hnew r hn).1
    · exact (hnew (r.cancel i) hn).1
  · rcases hcase id rfl with hcur | ⟨hre, t, hmissing, hlen, -, htask⟩
    · exact .inl hcur
    · refine .inr ⟨hre, ?_, t, hmissing, hlen, htask⟩
      rcases request_cases hreq with ⟨i, hfind, heq, -, -⟩ | ⟨i, -, -, hnone, -⟩ | ⟨-, hn⟩ |
        ⟨i, -, -, hn⟩
      · simp [reused, hfind, heq] at hre
      · cases hnone
      · exact (hnew r hn).2
      · exact (hnew (r.cancel i) hn).2

end Request

/-- The segment is missing in the task, once it has been filled with a message. -/
def Missing (t : RxTask) (mem : ℕ → Byte) : Prop :=
  t.notReceivedSeg.getLsbD (rxMisc mem).sego.toNat = true ∨
    (rxMisc mem).sego.toNat ≤ (rxMisc mem).segn.toNat

/-- Where the segment goes its data has its place, and a task that is used again is clean, or is
filled with a message of one segment that this one completes. -/
structure Placed (r : Receiver) (env : RxEnv) (mem : ℕ → Byte) (len : ℕ) (ctx : MsgCtx) :
    Prop where
  current : ∀ id, r.current ctx = some id → mismatch (r.task id).ctx ctx = false →
    (r.task id).maxPduLen = rxMaxPduLen mem ctx.ctl →
    (r.task id).notReceivedSeg.getLsbD (rxMisc mem).sego.toNat = true → Fits r mem len ctx
  clean : ∀ id, r.reused ctx = some id → env.Ready →
    (r.task id).Clean (rxMisc mem).segn.toNat ∨
      (rxMisc mem).segn = 0 ∧ Missing (r.task id) mem
  reused : ∀ id, r.reused ctx = some id → env.Ready → Missing (r.task id) mem →
    Fits r mem len ctx

/-- The tasks of all active messages are whole. -/
structure AllWhole (r : Receiver) : Prop where
  pool : r.Pool
  whole : ∀ id ∈ r.active, (r.task id).Whole

/-- The outcome of a receive is no write outside the memory of a task, and its active tasks are
whole. -/
def InBounds (x : Outcome) : Prop :=
  x ≠ .error .badWrite ∧ ∀ ret r' calls, x = .ok (ret, r', calls) → ∀ id ∈ r'.active,
    (r'.task id).Whole

theorem inBounds_receiveFor {s : Receiver} (h : r.AllWhole) (hpool : s.Pool) (hid : id ∈ s.active)
    (hold : OldBut r s (some id)) :
    InBounds (s.receiveFor id mem len ctx) ↔ Safe id (s.receiveFor id mem len ctx) := by
  refine and_congr_right fun _ => forall_congr' fun ret => forall_congr' fun r' =>
    forall_congr' fun calls => imp_congr_right fun hrun =>
      ⟨fun hall => hall id, fun hone j hj => ?_⟩
  obtain ⟨-, -, hold', -⟩ := receiveFor_task hpool hid hrun
  by_cases hji : j = id
  · subst hji
    exact hone hj
  · have hne : some id ≠ some j := by simpa using Ne.symm hji
    obtain ⟨hj', htj⟩ := hold' j hj hne
    obtain ⟨hj'', htj'⟩ := hold j hj' hne
    rw [htj, htj']
    exact h.whole j hj''

theorem fits_congr {s : Receiver} (h : s.rpl = r.rpl) :
    Fits s mem len ctx ↔ Fits r mem len ctx := by
  rw [Fits, Fits, h]

theorem receiveSegMsg_inBounds_iff {env : RxEnv} (h : r.AllWhole) :
    InBounds (r.receiveSegMsg env mem len ctx) ↔ Placed r env mem len (segCtx mem ctx) := by
  have hctl : (segCtx mem ctx).ctl = ctx.ctl := rfl
  rw [receiveSegMsg]
  generalize segCtx mem ctx = ctx at hctl ⊢
  rcases hreq : r.request env (rxMaxPduLen mem ctx.ctl) ctx with ⟨s, out⟩
  cases out with
  | none =>
    obtain ⟨-, -, hold, -⟩ := h.pool.request hreq
    refine iff_of_true ⟨by simp, fun ret r' calls hrun id hid => ?_⟩ ⟨?_, ?_, ?_⟩
    · cases hrun
      obtain ⟨hid', ht⟩ := hold id hid (by simp)
      rw [ht]
      exact h.whole id hid'
    · intro id hcur
      rw [request_of_current hcur] at hreq
      cases hreq
    · intro id hre henv
      have hsome := @request_of_reused _ _ _ env (rxMaxPduLen mem ctx.ctl) henv hre
      rw [hreq] at hsome
      cases hsome
    · intro id hre henv
      have hsome := @request_of_reused _ _ _ env (rxMaxPduLen mem ctx.ctl) henv hre
      rw [hreq] at hsome
      cases hsome
  | some id =>
    obtain ⟨⟨hpool, hid, hold, hrpl⟩, hcase⟩ := h.pool.granted hreq
    dsimp only
    rw [inBounds_receiveFor h hpool hid hold]
    rcases hcase with ⟨hcur, rfl⟩ | ⟨hre, henv, t, hmissing, -, htask⟩
    · have hwhole := h.whole id hid
      rw [receiveFor_safe_iff hpool hwhole.allocated hwhole.masked]
      have hnone := reused_of_current hcur
      constructor
      · intro hfits
        refine ⟨fun id' hcur' => ?_, by simp [hnone], by simp [hnone]⟩
        obtain rfl := Option.some.inj (hcur.symm.trans hcur')
        exact hfits
      · exact fun hplaced => hplaced.current id hcur
    · have hcurrent : ∀ id', r.current ctx ≠ some id' := fun id' hcur => by
        simp [reused_of_current hcur] at hre
      have hclean : (s.task id).Tidy ↔ (r.task id).Clean (rxMisc mem).segn.toNat := by
        rw [htask, fillTask_tidy, RxTask.Clean, hmissing, RxTask.Clean]
      have hbit : (s.task id).notReceivedSeg.getLsbD (rxMisc mem).sego.toNat = true ↔
          Missing (r.task id) mem := by
        rw [htask, fillTask_missing (rxMisc mem).sego.isLt, hmissing, Bool.or_eq_true,
          decide_eq_true_eq, Missing]
      have halloc : (s.task id).Allocated := htask ▸ fillTask_allocated
      have hcovers : (s.task id).Covers := htask ▸ fillTask_covers
      rw [receiveFor_fresh_iff hpool halloc hid hcovers (by rw [htask]; rfl) (by rw [htask]; rfl)
        (by rw [htask]; rfl) (by rw [htask]; rfl), hclean, hbit, fits_congr hrpl]
      constructor
      · rintro ⟨hstale, hfits⟩
        refine ⟨fun id' hcur => absurd hcur (hcurrent id'), fun id' hre' _ => ?_,
          fun id' hre' _ => ?_⟩
        · obtain rfl := Option.some.inj (hre.symm.trans hre')
          exact hstale
        · obtain rfl := Option.some.inj (hre.symm.trans hre')
          exact hfits
      · exact fun hplaced => ⟨hplaced.clean id hre henv, hplaced.reused id hre henv⟩

theorem receiveUnseg_inBounds (h : r.AllWhole) (call : RxCall) :
    InBounds (r.receiveUnseg call ctx) := by
  refine ⟨bind_ne_error (rplCheck_inBounds _ _) fun out _ => ?_, fun ret r' calls hrun => ?_⟩
  · obtain ⟨ok, rpl⟩ := out
    cases ok <;> simp [pure, Except.pure]
  · obtain ⟨ok, rpl, -, rfl, -⟩ := receiveUnseg_cases hrun
    exact h.whole

/-- The PDU is handled as a segment: a control PDU with opcode zero is an ack. -/
def Segmented (mem : ℕ → Byte) (ctx : MsgCtx) : Prop :=
  ¬ (ctx.ctl && (mem 0).extractLsb' 0 7 == 0) = true ∧ (mem 0).msb = true

theorem receive_inBounds_iff {env : RxEnv} (h : r.AllWhole) :
    InBounds (r.receive env mem len ctx) ↔
      (Segmented mem ctx → Placed r env mem len (segCtx mem ctx)) := by
  rw [receive, Segmented]
  by_cases hack : (ctx.ctl && (mem 0).extractLsb' 0 7 == 0) = true
  · rw [if_pos hack]
    exact iff_of_true (receiveUnseg_inBounds h _) fun hs => absurd hack hs.1
  rw [if_neg hack]
  by_cases hseg : (mem 0).msb = true
  · rw [if_pos hseg, receiveSegMsg_inBounds_iff h]
    exact ⟨fun hp _ => hp, fun hp => hp ⟨hack, hseg⟩⟩
  · rw [if_neg hseg]
    exact iff_of_true (receiveUnseg_inBounds h _) fun hs => absurd hs.2 hseg

end Receiver

/-- A step writes inside the memory of the messages and leaves every active task with masks that
make up its message. -/
def KeepsBounds (s : Rx) (e : RxEvent) : Prop :=
  rxStep s e ≠ .error .badWrite ∧
    ∀ s', rxStep s e = .ok s' → ∀ id ∈ s'.rx.active, (s'.rx.task id).Whole

/-- A received segment has its place. -/
def PlacedSegment (s : Rx) : RxEvent → Prop
  | .receive env mem len ctx ivi =>
    (!addressIsValid ctx.src || !addressIsValid ctx.dst) = false → Segmented mem ctx →
      Placed s.rx env mem len (segCtx mem (netCtx s.iv ctx ivi))
  | _ => True

variable {s s' : Rx} {e : RxEvent}

theorem keepsBounds_receive (h : s.rx.AllWhole) {env : RxEnv} {mem : ℕ → Byte} {len : ℕ}
    {ctx : MsgCtx} {ivi : Bool} :
    KeepsBounds s (.receive env mem len ctx ivi) ↔
      PlacedSegment s (.receive env mem len ctx ivi) := by
  rw [KeepsBounds, PlacedSegment, rxStep]
  cases hvalid : !addressIsValid ctx.src || !addressIsValid ctx.dst with
  | true =>
    refine iff_of_true ⟨by simp, fun s' hs => ?_⟩ fun hc => by cases hc
    cases hs
    exact h.whole
  | false =>
    have hiff : Receiver.InBounds (s.rx.receive env mem len (netCtx s.iv ctx ivi)) ↔
        (Segmented mem ctx → Placed s.rx env mem len (segCtx mem (netCtx s.iv ctx ivi))) :=
      receive_inBounds_iff h
    rw [if_neg Bool.false_ne_true, imp_iff_right rfl, ← hiff, Receiver.InBounds]
    cases s.rx.receive env mem len (netCtx s.iv ctx ivi) with
    | error f => simp [bind, Except.bind]
    | ok out =>
      obtain ⟨ret, rx, calls⟩ := out
      simp [bind, Except.bind, pure, Except.pure]

theorem Receiver.AllWhole.release {r r' : Receiver} (h : r.AllWhole) {id : ℕ}
    (hrel : r.release id = .ok r') : r'.AllWhole := by
  obtain ⟨hid, rfl⟩ := release_ok hrel
  obtain ⟨hpool, -, hold⟩ := h.pool.released hid
  refine ⟨hpool, fun j hj => ?_⟩
  obtain ⟨hj', ht⟩ := hold j hj (by simp)
  rw [ht]
  exact h.whole j hj'

theorem Receiver.AllWhole.ivMoved (h : s.rx.AllWhole) (iv : Iv) (clear : Bool) :
    (s.ivMoved iv clear).rx.AllWhole := by
  cases clear
  · exact h
  · exact ⟨⟨h.pool.nodup, h.pool.src_inj⟩, h.whole⟩

/-- No other event than a received PDU writes to the memory of a message. -/
theorem other_keeps (h : s.rx.AllWhole)
    (he : ∀ env mem len ctx ivi, e ≠ .receive env mem len ctx ivi) :
    rxStep s e ≠ .error .badWrite ∧ ∀ s', rxStep s e = .ok s' → s'.rx.AllWhole := by
  cases e with
  | receive env mem len ctx ivi => exact absurd rfl (he env mem len ctx ivi)
  | ackTimeout id =>
    refine ⟨by simp [rxStep], fun s' hs => ?_⟩
    cases hs
    exact h
  | incompleteTimeout id =>
    refine ⟨bind_ne_error (release_inBounds id) fun _ _ => by simp [pure, Except.pure],
      fun s' hs => ?_⟩
    obtain ⟨rx, hrx, hret⟩ := bind_ok hs
    cases hret
    exact h.release hrx
  | ivUpdate ivIndex state busy =>
    refine ⟨by simp [rxStep], fun s' hs => ?_⟩
    cases hs
    exact h.ivMoved _ _
  | ivTick busy =>
    refine ⟨by simp [rxStep], fun s' hs => ?_⟩
    cases hs
    exact h.ivMoved _ _
  | ivTestMode flag =>
    refine ⟨by simp [rxStep], fun s' hs => ?_⟩
    cases hs
    exact h
  | ivOperateTime time =>
    refine ⟨by simp [rxStep], fun s' hs => ?_⟩
    cases hs
    exact h
  | sendFinished =>
    refine ⟨by simp [rxStep], fun s' hs => ?_⟩
    cases hs
    exact h

theorem other_keepsBounds (h : s.rx.AllWhole)
    (he : ∀ env mem len ctx ivi, e ≠ .receive env mem len ctx ivi) : KeepsBounds s e := by
  obtain ⟨hin, hkept⟩ := other_keeps h he
  exact ⟨hin, fun s' hs => (hkept s' hs).whole⟩

theorem keepsBounds_iff (h : s.rx.AllWhole) : KeepsBounds s e ↔ PlacedSegment s e := by
  cases e with
  | receive env mem len ctx ivi => exact keepsBounds_receive h
  | _ => exact iff_of_true (other_keepsBounds h (by simp)) trivial

theorem rxStep_allWhole (h : s.rx.AllWhole) (hplaced : PlacedSegment s e)
    (hs : rxStep s e = .ok s') : s'.rx.AllWhole := by
  have hwhole := ((keepsBounds_iff h).mpr hplaced).2 s' hs
  cases e with
  | receive env mem len ctx ivi =>
    refine ⟨?_, hwhole⟩
    rw [rxStep] at hs
    cases hvalid : !addressIsValid ctx.src || !addressIsValid ctx.dst with
    | true =>
      rw [hvalid, if_pos rfl] at hs
      cases hs
      exact h.pool
    | false =>
      rw [hvalid, if_neg Bool.false_ne_true] at hs
      obtain ⟨⟨ret, rx, calls⟩, hrx, hret⟩ := bind_ok hs
      cases hret
      exact (h.pool.receive hrx).1
  | _ => exact (other_keeps h (by simp)).2 s' hs

theorem init_allWhole (rplSize taskNum : ℕ) (ivIndex : BitVec 32) :
    (Rx.init rplSize taskNum ivIndex).rx.AllWhole where
  pool :=
    ⟨by simpa [Rx.init, Receiver.init] using List.nodup_range, by simp [Rx.init, Receiver.init]⟩
  whole := by simp [Rx.init, Receiver.init]

/-- A run of the receiving side writes inside the memory of its messages, with masks that make
up each of them, exactly if every segment has its place. -/
theorem reassembly_inBounds_iff (rplSize taskNum : ℕ) (ivIndex : BitVec 32) (es : List RxEvent) :
    RunAll rxStep KeepsBounds (Rx.init rplSize taskNum ivIndex) es ↔
      RunAll rxStep PlacedSegment (Rx.init rplSize taskNum ivIndex) es :=
  RunAll.iff_of_invariant (fun s _ _ (h : s.rx.AllWhole) hp hs => rxStep_allWhole h hp hs)
    (fun _ _ h => keepsBounds_iff h) (init_allWhole rplSize taskNum ivIndex)

/-- The first one of four segments, and then segment 3 of a newer message of two. -/
def staleRun : List RxEvent :=
  [plainPdu ([0x80, 0x00, 0x04, 0x03] ++ List.replicate 12 7) 1,
    plainPdu ([0x80, 0x00, 0x08, 0x61] ++ List.replicate 12 7) 2]

/-- The second message takes over the missing segments of the first one, and its segment 3 is
written to the memory of two segments. -/
theorem reassembly_outOfBounds : run rxStep (Rx.init 8 1 0) staleRun = .error .badWrite ∧
    ¬ RunAll rxStep KeepsBounds (Rx.init 8 1 0) staleRun := by
  have hrun : run rxStep (Rx.init 8 1 0) staleRun = .error .badWrite :=
    eq_of_faultOf (by decide +kernel)
  refine ⟨hrun, fun h => ?_⟩
  exact h.no_fault (fun _ _ _ _ _ _ => trivial) (fun _ _ _ hkeeps => hkeeps.1) trivial hrun

end Meshx.LowerTransRx
