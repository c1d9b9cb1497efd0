import Meshx.IvIndex
import Meshx.Lib.Run

/-! Runs of the IV index module: updates from beacons, ticks and the ends of segmented
transmissions in any order. The IV index for sending never goes back; how long a state lasts
depends on the counter that the step into it leaves. -/
namespace Meshx.IvIndex

open Lib

/-- What moves the module. `busy` is what `meshx_is_lower_trans_busy` answers. -/
inductive IvEvent
  | update (ivIndex : BitVec 32) (state : IvState) (busy : Bool)
  | tick (busy : Bool)
  | finish
  deriving DecidableEq

/-- One event, and whether `meshx_seq_clear` and `meshx_rpl_clear` are called. -/
def ivStep (iv : Iv) : IvEvent → Iv × Bool
  | .update ivIndex state busy => (ivIndexUpdate iv ivIndex state busy).2
  | .tick busy => ivTick iv busy
  | .finish => (ivPendingNormal iv, false)

def ivNext (iv : Iv) (e : IvEvent) : Except Fault Iv := .ok (ivStep iv e).1

variable {iv iv' : Iv} {e : IvEvent} {es : List IvEvent} {ivIndex : BitVec 32} {state : IvState}
  {busy : Bool}

theorem ivStep_advance (hw : iv.WellFormed) (e : IvEvent) :
    TxAdvance iv (ivStep iv e).1 (ivStep iv e).2 := by
  cases e with
  | update ivIndex state busy => exact ivIndexUpdate_advance hw rfl
  | tick busy => exact ivTick_advance hw rfl
  | finish => exact ivPendingNormal_advance hw

theorem TxAdvance.trans {iv'' : Iv} {clear clear' : Bool} (h : TxAdvance iv iv' clear)
    (h' : TxAdvance iv' iv'' clear') : TxAdvance iv iv'' false where
  wellFormed := h'.wellFormed
  index_le := h.index_le.trans h'.index_le
  tx_le := h.tx_le.trans h'.tx_le
  tx_lt := by simp

theorem ivRun_advance (hw : iv.WellFormed) (hrun : run ivNext iv es = .ok iv') :
    TxAdvance iv iv' false := by
  induction es generalizing iv with
  | nil =>
    cases hrun
    exact .of_same hw rfl rfl
  | cons e es ih =>
    obtain ⟨next, hnext, hrest⟩ := run_cons_ok hrun
    cases hnext
    have hstep := ivStep_advance hw e
    exact hstep.trans (ih hstep.wellFormed hrest)

/-- Over every run that starts in the normal state neither the IV index nor the one for
sending decreases, an IV index that was left for good is not updated to again, and the
sequence numbers are cleared only where the IV index for sending moves on. -/
theorem ivIndex_monotone {iv₀ : Iv} {es' : List IvEvent} (h0 : iv₀.state = .normal)
    (hrun : run ivNext iv₀ es = .ok iv) (hrun' : run ivNext iv es' = .ok iv') :
    iv.ivIndex ≤ iv'.ivIndex ∧ ivIndexTxGet iv ≤ ivIndexTxGet iv' ∧
    (iv.state = .normal → iv'.state = .inProgress → iv'.ivIndex ≠ iv.ivIndex) ∧
    ∀ e, (ivStep iv e).2 = true → ivIndexTxGet iv < ivIndexTxGet (ivStep iv e).1 := by
  have hw₀ : iv₀.WellFormed := fun h => by simp [h0] at h
  have hw : iv.WellFormed := (ivRun_advance hw₀ hrun).wellFormed
  have hadv := ivRun_advance hw hrun'
  refine ⟨hadv.index_le, hadv.tx_le, fun hn hp heq => ?_, fun e hclear => ?_⟩
  · -- the normal state sends with the IV index, an update in progress with the one before
    have hle := hadv.tx_le
    have htx := tx_inProgress hadv.wellFormed hp
    rw [tx_normal hn, ← heq] at hle
    omega
  · exact (ivStep_advance hw e).tx_lt hclear

/-- A run of the module that goes once around: an update, its end by the tick, a recovery. -/
theorem ivIndex_monotone_example : ∃ iv iv', run ivNext { Iv.init 5 with tickTime := 1000 }
      [.update 6 .inProgress false] = .ok iv ∧
    run ivNext iv [.tick true, .finish, .update 8 .inProgress true] = .ok iv' ∧
    ivIndexTxGet iv ≤ ivIndexTxGet iv' :=
  ⟨_, _, rfl, rfl, (@ivIndex_monotone _ _ [.update 6 .inProgress false]
    { Iv.init 5 with tickTime := 1000 } [.tick true, .finish, .update 8 .inProgress true]
    rfl rfl rfl).2.1⟩

/-- A step of the normal update procedure or of the tick, from one state into the other. -/
def Switches (iv : Iv) (e : IvEvent) : Prop :=
  (match e with
    | .update ivIndex state _ => ¬ IvRecovers iv ivIndex state
    | .tick _ => True
    | .finish => False) ∧
  (ivStep iv e).1.state ≠ iv.state

/-- Updates and ticks; the IV index of an update is not 2^31 or more ahead, where the
difference does not fit an `int32_t`. -/
def Timed (iv : Iv) : IvEvent → Prop
  | .update ivIndex _ _ => ivIndex.toNat < iv.ivIndex.toNat + 2 ^ 31
  | .tick _ => True
  | .finish => False

def IvEvent.isTick : IvEvent → Bool
  | .tick _ => true
  | _ => false

/-- The ticks of 20 minutes in a run. -/
def ticks (es : List IvEvent) : ℕ := es.countP IvEvent.isTick

def Moves (iv : Iv) (e : IvEvent) : Prop :=
  ((ivStep iv e).1.ivIndex, (ivStep iv e).1.state) ≠ (iv.ivIndex, iv.state)

/-- From here 96 hours of ticks pass before a normal update changes the IV index or its
state. -/
def UpdateDwell (iv : Iv) : Prop :=
  ∀ es iv' ivIndex state busy, RunAll ivNext Timed iv es → run ivNext iv es = .ok iv' →
    ¬ IvRecovers iv' ivIndex state → Moves iv' (.update ivIndex state busy) → 288 ≤ ticks es

/-- An update in progress here is in progress for 144 hours of ticks before the tick ends it. -/
def TickDwell (iv : Iv) : Prop :=
  ∀ es iv' busy, iv.state = .inProgress →
    RunAll ivNext (fun iv e => Timed iv e ∧ (ivStep iv e).1.state = .inProgress) iv es →
    run ivNext iv es = .ok iv' → (ivStep iv' (.tick busy)).1.state = .normal →
    432 ≤ ticks (es ++ [.tick busy])

theorem ivRefused_none (h : ivRefused iv ivIndex state = none) :
    iv.ivIndex.toNat ≤ ivIndex.toNat ∧ (ivIndex - iv.ivIndex).toInt ≤ 42 ∧
      0 < (ivDistance iv ivIndex state).toInt ∧
      (iv.testMode = false → ivDistance iv ivIndex state * tick96H ≤ iv.tickTime) := by
  simp only [ivRefused] at h
  split_ifs at h with hlt hmax hpos htime
  refine ⟨?_, by omega, by omega, fun htest => ?_⟩
  · rw [BitVec.lt_def] at hlt
    omega
  · simpa [htest] using htime

/-- What an update can do. The counter is at least the required time unless the test mode
is on. -/
inductive UpdateCase (iv : Iv) (ivIndex : BitVec 32) (state : IvState) (busy : Bool) :
    Iv × Bool → Prop
  | refused (err : Errno) (h : ivRefused iv ivIndex state = some err) :
      UpdateCase iv ivIndex state busy (iv, false)
  | started (h : ivRefused iv ivIndex state = none) (hd : ivDistance iv ivIndex state = 1)
      (hs : state = .inProgress) :
      UpdateCase iv ivIndex state busy ({ iv with ivIndex := ivIndex, state := .inProgress }, false)
  | pending (h : ivRefused iv ivIndex state = none) (hd : ivDistance iv ivIndex state = 1)
      (hs : state = .normal) (hb : busy = true) :
      UpdateCase iv ivIndex state busy
        ({ iv with ivIndex := ivIndex, transitPending := true }, false)
  | ended (h : ivRefused iv ivIndex state = none) (hd : ivDistance iv ivIndex state = 1)
      (hs : state = .normal) (hb : busy = false) :
      UpdateCase iv ivIndex state busy
        ({ iv with ivIndex := ivIndex, state := .normal, tickTime := 0 }, true)
  | recovered (h : IvRecovers iv ivIndex state) :
      UpdateCase iv ivIndex state busy
        ({ iv with ivIndex := ivIndex, state := state, tickTime := tick96H }, true)

theorem ivIndexUpdate_cases (iv : Iv) (ivIndex : BitVec 32) (state : IvState) (busy : Bool) :
    UpdateCase iv ivIndex state busy (ivIndexUpdate iv ivIndex state busy).2 := by
  rw [ivIndexUpdate]
  cases hr : ivRefused iv ivIndex state with
  | some err => exact .refused err hr
  | none =>
    dsimp only
    by_cases hd : ivDistance iv ivIndex state = 1
    · rw [if_pos hd]
      cases state with
      | inProgress => exact .started hr hd rfl
      | normal =>
        cases busy with
        | true => exact .pending hr hd rfl rfl
        | false => exact .ended hr hd rfl rfl
    · rw [if_neg hd]
      exact .recovered ⟨hr, hd⟩

def Iv.count (iv : Iv) : Iv :=
  { iv with tickTime := if iv.tickTime < tick48W then iv.tickTime + 1 else iv.tickTime }

theorem count_tickTime_le : iv.count.tickTime.toNat ≤ iv.tickTime.toNat + 1 := by
  simp only [Iv.count]
  split_ifs
  · rw [BitVec.toNat_add]
    exact Nat.mod_le _ _
  · exact Nat.le_succ _

theorem ivTick_eq (iv : Iv) (busy : Bool) :
    ivTick iv busy =
      if tick144H ≤ iv.count.tickTime ∧ iv.state = .inProgress then backToNormal iv.count busy
      else (iv.count, false) := by
  have hcount : (if iv.tickTime < tick48W then { iv with tickTime := iv.tickTime + 1 } else iv) =
      iv.count := by
    simp only [Iv.count]
    split_ifs <;> rfl
  rw [ivTick, hcount]
  rfl

/-- What a tick can do: count, and with 144 hours on the counter end an update in progress. -/
inductive TickCase (iv : Iv) (busy : Bool) : Iv × Bool → Prop
  | counted : TickCase iv busy (iv.count, false)
  | pending (hs : iv.state = .inProgress) (hb : busy = true) :
      TickCase iv busy ({ iv.count with transitPending := true }, false)
  | ended (hs : iv.state = .inProgress) (hb : busy = false) :
      TickCase iv busy ({ iv with state := .normal, tickTime := 0 }, true)

theorem ivTick_cases (iv : Iv) (busy : Bool) : TickCase iv busy (ivTick iv busy) := by
  rw [ivTick_eq]
  by_cases hc : tick144H ≤ iv.count.tickTime ∧ iv.state = .inProgress
  · rw [if_pos hc]
    cases busy with
    | true => exact .pending hc.2 rfl
    | false => exact .ended hc.2 rfl
  · rw [if_neg hc]
    exact .counted

/-- The counter is not above the ticks counted, or these are 96 hours of ticks. -/
def Counted (n : ℕ) (iv : Iv) : Prop :=
  iv.testMode = false ∧ (iv.tickTime.toNat ≤ n ∨ 288 ≤ n)

theorem recovers_late (hoff : iv.testMode = false) (hr : IvRecovers iv ivIndex state)
    (hn : ivIndex.toNat < iv.ivIndex.toNat + 2 ^ 31) : 288 ≤ iv.tickTime.toNat := by
  obtain ⟨hnone, hne⟩ := hr
  obtain ⟨hle, hmax, hpos, htime⟩ := ivRefused_none hnone
  have htime := htime hoff
  have hdist := @ivDistance_toNat iv ivIndex state hle
  have hdiff : (ivIndex - iv.ivIndex).toNat = ivIndex.toNat - iv.ivIndex.toNat :=
    BitVec.toNat_sub_of_le hle
  rw [BitVec.toInt_eq_toNat_cond, if_pos (by omega), hdiff] at hmax
  have hne1 : (ivDistance iv ivIndex state).toNat ≠ 1 := fun hc =>
    hne (BitVec.eq_of_toNat_eq hc)
  have hrange : 2 ≤ (ivDistance iv ivIndex state).toNat ∧
      (ivDistance iv ivIndex state).toNat ≤ 85 := by
    rw [BitVec.toInt_eq_toNat_cond] at hpos
    cases hs : iv.state <;> cases state <;> simp only [hs, IvState.rank] at hdist <;>
      split_ifs at hpos <;> omega
  rw [BitVec.le_def, BitVec.toNat_mul, show tick96H.toNat = 288 from rfl,
    Nat.mod_eq_of_lt (by omega)] at htime
  omega

theorem Counted.update {n : ℕ} (h : Counted n iv) (ht : Timed iv (.update ivIndex state busy)) :
    Counted n (ivStep iv (.update ivIndex state busy)).1 := by
  obtain ⟨hoff, hcount⟩ := h
  have hcase := ivIndexUpdate_cases iv ivIndex state busy
  rw [ivStep]
  generalize (ivIndexUpdate iv ivIndex state busy).2 = out at hcase
  cases hcase with
  | refused err _ => exact ⟨hoff, hcount⟩
  | started _ _ _ => exact ⟨hoff, hcount⟩
  | pending _ _ _ _ => exact ⟨hoff, hcount⟩
  | ended _ _ _ _ => exact ⟨hoff, .inl (Nat.zero_le n)⟩
  | recovered hr =>
    have hlate := recovers_late hoff hr ht
    exact ⟨hoff, .inr (by omega)⟩

theorem Counted.tick {n : ℕ} (h : Counted n iv) : Counted (n + 1) (ivStep iv (.tick busy)).1 := by
  obtain ⟨hoff, hcount⟩ := h
  have hle := @count_tickTime_le iv
  have hcase := ivTick_cases iv busy
  rw [ivStep]
  generalize ivTick iv busy = out at hcase
  cases hcase with
  | counted => exact ⟨hoff, by dsimp only; omega⟩
  | pending _ _ => exact ⟨hoff, by dsimp only; omega⟩
  | ended _ _ => exact ⟨hoff, .inl (Nat.zero_le _)⟩

theorem Counted.run {n : ℕ} (h : Counted n iv) (hall : RunAll ivNext Timed iv es)
    (hrun : Lib.run ivNext iv es = .ok iv') : Counted (n + ticks es) iv' := by
  induction es generalizing iv n with
  | nil =>
    cases hrun
    exact h
  | cons e es ih =>
    obtain ⟨next, hnext, hrest⟩ := run_cons_ok hrun
    cases hnext
    cases e with
    | update ivIndex state busy => exact ih (h.update hall.1) (hall.2 _ rfl) hrest
    | tick busy =>
      have hcounted := ih h.tick (hall.2 _ rfl) hrest
      rwa [show n + 1 + ticks es = n + ticks (.tick busy :: es) by
        simp only [ticks, List.countP_cons, IvEvent.isTick, if_true]; omega] at hcounted
    | finish => exact hall.1.elim

theorem update_late {n : ℕ} (h : Counted n iv) (hr : ¬ IvRecovers iv ivIndex state)
    (hm : Moves iv (.update ivIndex state busy)) : 288 ≤ n := by
  obtain ⟨hoff, hcount⟩ := h
  have hdist : ivRefused iv ivIndex state = none ∧ ivDistance iv ivIndex state = 1 := by
    cases hn : ivRefused iv ivIndex state with
    | some err => exact absurd (by simp [ivStep, ivIndexUpdate, hn]) hm
    | none => exact ⟨rfl, by_contra fun hd => hr ⟨hn, hd⟩⟩
  obtain ⟨-, -, -, htime⟩ := ivRefused_none hdist.1
  have htime := htime hoff
  rw [hdist.2, BitVec.le_def, show (1 * tick96H).toNat = 288 from rfl] at htime
  omega

theorem switches_ended (hs : iv.state = .inProgress) (h : Switches iv e) :
    (ivStep iv e).1.tickTime = 0 ∧ (ivStep iv e).1.testMode = iv.testMode ∧
      (ivStep iv e).1.state = .normal := by
  obtain ⟨hnorm, hne⟩ := h
  rw [hs] at hne
  cases e with
  | update ivIndex state busy =>
    have hcase := ivIndexUpdate_cases iv ivIndex state busy
    rw [ivStep] at hne ⊢
    generalize (ivIndexUpdate iv ivIndex state busy).2 = out at hcase hne
    cases hcase with
    | refused err _ => exact absurd hs hne
    | started _ _ _ => exact absurd rfl hne
    | pending _ _ _ _ => exact absurd hs hne
    | ended _ _ _ _ => exact ⟨rfl, rfl, rfl⟩
    | recovered hr => exact absurd hr hnorm
  | tick busy =>
    have hcase := ivTick_cases iv busy
    rw [ivStep] at hne ⊢
    generalize ivTick iv busy = out at hcase hne
    cases hcase with
    | counted => exact absurd hs hne
    | pending _ _ => exact absurd hs hne
    | ended _ _ => exact ⟨rfl, rfl, rfl⟩
  | finish => exact hnorm.elim

/-- The step into an update in progress leaves the counter as it found it, at 96 hours. -/
theorem switches_started (hoff : iv.testMode = false) (hs : iv.state = .normal)
    (h : Switches iv e) : ∃ ivIndex : BitVec 32,
    (ivStep iv e).1 = { iv with ivIndex := ivIndex, state := .inProgress } ∧
      288 ≤ iv.tickTime.toNat := by
  obtain ⟨hnorm, hne⟩ := h
  rw [hs] at hne
  cases e with
  | update ivIndex state busy =>
    have hcase := ivIndexUpdate_cases iv ivIndex state busy
    rw [ivStep] at hne ⊢
    generalize (ivIndexUpdate iv ivIndex state busy).2 = out at hcase hne
    cases hcase with
    | refused err _ => exact absurd hs hne
    | started hn hd _ =>
      obtain ⟨-, -, -, htime⟩ := ivRefused_none hn
      have htime := htime hoff
      rw [hd, BitVec.le_def, show (1 * tick96H).toNat = 288 from rfl] at htime
      exact ⟨ivIndex, rfl, htime⟩
    | pending _ _ _ _ => exact absurd hs hne
    | ended _ _ _ _ => exact absurd rfl hne
    | recovered hr => exact absurd hr hnorm
  | tick busy =>
    have hcase := ivTick_cases iv busy
    rw [ivStep] at hne
    generalize ivTick iv busy = out at hcase hne
    cases hcase with
    | counted => exact absurd hs hne
    | pending hp _ => simp [hs] at hp
    | ended hp _ => simp [hs] at hp
  | finish => exact hnorm.elim

theorem ivStep_tick_early (h : iv.tickTime.toNat + 1 < 432) :
    (ivStep iv (.tick busy)).1 = { iv with tickTime := iv.tickTime + 1 } := by
  have hlt : iv.tickTime < tick48W := by
    rw [BitVec.lt_def, show tick48W.toNat = 24192 from rfl]
    omega
  have hcount : iv.count = { iv with tickTime := iv.tickTime + 1 } := by
    rw [Iv.count, if_pos hlt]
  have hsum : (iv.tickTime + 1).toNat = iv.tickTime.toNat + 1 := by
    rw [BitVec.toNat_add, show (1 : BitVec 32).toNat = 1 from rfl]
    omega
  have hnot : ¬ (tick144H ≤ iv.count.tickTime ∧ iv.state = .inProgress) := by
    rw [hcount, BitVec.le_def, show tick144H.toNat = 432 from rfl]
    dsimp only
    omega
  rw [ivStep, ivTick_eq, if_neg hnot, hcount]

theorem ticks_early (k : ℕ) (hs : iv.state = .inProgress) (h : iv.tickTime.toNat + k < 432) :
    ∃ iv', run ivNext iv (List.replicate k (.tick busy)) = .ok iv' ∧
      RunAll ivNext (fun iv e => Timed iv e ∧ (ivStep iv e).1.state = .inProgress) iv
        (List.replicate k (.tick busy)) ∧
      iv'.state = .inProgress ∧ iv'.tickTime.toNat = iv.tickTime.toNat + k := by
  induction k generalizing iv with
  | zero => exact ⟨iv, rfl, trivial, hs, rfl⟩
  | succ k ih =>
    have hstep := @ivStep_tick_early iv busy (by omega)
    have hsum : (iv.tickTime + 1).toNat = iv.tickTime.toNat + 1 := by
      rw [BitVec.toNat_add, show (1 : BitVec 32).toNat = 1 from rfl]
      omega
    obtain ⟨iv', hrun, hall, hs', htick⟩ :=
      @ih { iv with tickTime := iv.tickTime + 1 } hs (by dsimp only; omega)
    refine ⟨iv', ?_, ⟨⟨trivial, by rw [hstep]; exact hs⟩, ?_⟩, hs', ?_⟩
    · rw [List.replicate_succ, run, ivNext, hstep]
      exact hrun
    · intro next hnext
      cases hnext
      rw [hstep]
      exact hall
    · dsimp only at htick
      omega

/-- An update that starts with 96 hours on the counter is ended by the tick after less than
144 hours. -/
theorem not_tickDwell (hs : iv.state = .inProgress) (h : 288 ≤ iv.tickTime.toNat) :
    ¬ TickDwell iv := by
  intro hdwell
  obtain ⟨iv', hrun, hall, hs', htick⟩ :
      ∃ iv', run ivNext iv (List.replicate (431 - iv.tickTime.toNat) (.tick true)) = .ok iv' ∧
        RunAll ivNext (fun iv e => Timed iv e ∧ (ivStep iv e).1.state = .inProgress) iv
          (List.replicate (431 - iv.tickTime.toNat) (.tick true)) ∧
        iv'.state = .inProgress ∧ 431 ≤ iv'.tickTime.toNat := by
    by_cases hlt : iv.tickTime.toNat < 432
    · obtain ⟨iv', hrun, hall, hs', htick⟩ :=
        @ticks_early iv true (431 - iv.tickTime.toNat) hs (by omega)
      exact ⟨iv', hrun, hall, hs', by omega⟩
    · rw [Nat.sub_eq_zero_of_le (by omega)]
      exact ⟨iv, rfl, trivial, hs, by omega⟩
  have hcount : tick144H ≤ iv'.count.tickTime := by
    rw [BitVec.le_def, show tick144H.toNat = 432 from rfl, Iv.count]
    dsimp only
    split_ifs with hlt
    · rw [BitVec.lt_def, show tick48W.toNat = 24192 from rfl] at hlt
      rw [BitVec.toNat_add, show (1 : BitVec 32).toNat = 1 from rfl]
      omega
    · rw [BitVec.lt_def, show tick48W.toNat = 24192 from rfl] at hlt
      omega
  have hlate := hdwell _ iv' false hs hall hrun (by
    rw [ivStep, ivTick_eq, if_pos ⟨hcount, hs'⟩]
    rfl)
  simp only [ticks, List.countP_append, List.countP_replicate, IvEvent.isTick, if_true,
    List.countP_singleton] at hlate
  omega

/-- With 96 hours on the counter an update in progress can be ended at once. -/
theorem not_updateDwell (hs : iv.state = .inProgress) (h : 288 ≤ iv.tickTime.toNat) :
    ¬ UpdateDwell iv := by
  intro hdwell
  have hdist : ivDistance iv iv.ivIndex .normal = 1 := by
    simp [ivDistance, hs, IvState.not]
  have hnone : ivRefused iv iv.ivIndex .normal = none := by
    have htime : tick96H ≤ iv.tickTime := by
      rw [BitVec.le_def, show tick96H.toNat = 288 from rfl]
      exact h
    simp only [ivRefused, hdist, if_neg (BitVec.lt_irrefl iv.ivIndex)]
    simp [htime]
  have hlate := hdwell [] iv iv.ivIndex .normal false trivial rfl (fun hr => hr.2 hdist) (by
    simp [Moves, ivStep, ivIndexUpdate, hnone, hdist, backToNormal, hs])
  simp [ticks] at hlate

/-- After a step from one state into the other the next one keeps the times of 96 and 144
hours exactly if the step went back to the normal state: a step into an update in progress
does not start the counter. -/
theorem dwell_iff (hoff : iv.testMode = false) (h : Switches iv e) :
    (UpdateDwell (ivStep iv e).1 ↔ iv.state = .inProgress) ∧
      (TickDwell (ivStep iv e).1 ↔ iv.state = .inProgress) := by
  cases hs : iv.state with
  | normal =>
    obtain ⟨ivIndex, hnext, hlate⟩ := switches_started hoff hs h
    rw [hnext]
    exact ⟨iff_of_false (not_updateDwell rfl hlate) (by decide),
      iff_of_false (not_tickDwell rfl hlate) (by decide)⟩
  | inProgress =>
    obtain ⟨htick, htest, hnext⟩ := switches_ended hs h
    refine ⟨iff_of_true ?_ rfl, iff_of_true ?_ rfl⟩
    · intro es iv' ivIndex state busy hall hrun hr hm
      have hcounted : Counted 0 (ivStep iv e).1 := ⟨htest.trans hoff, .inl (by simp [htick])⟩
      simpa using update_late (hcounted.run hall hrun) hr hm
    · intro es iv' busy hp
      rw [hnext] at hp
      cases hp

theorem dwell_example :
    Switches { Iv.init 6 with state := .inProgress, tickTime := 500 } (.update 6 .normal false) ∧
      UpdateDwell (ivStep { Iv.init 6 with state := .inProgress, tickTime := 500 }
        (.update 6 .normal false)).1 := by
  have hs : Switches { Iv.init 6 with state := .inProgress, tickTime := 500 }
      (.update 6 .normal false) := ⟨by decide, by decide⟩
  exact ⟨hs, (dwell_iff rfl hs).1.mpr rfl⟩

/-- After `meshx_init` an update can start and end without a tick, and the first tick ends it
as well. -/
theorem dwell_fails :
    Switches { Iv.init 5 with tickTime := tick48W } (.update 6 .inProgress false) ∧
    let next := (ivStep { Iv.init 5 with tickTime := tick48W } (.update 6 .inProgress false)).1
    ¬ UpdateDwell next ∧ ¬ TickDwell next := by
  refine ⟨⟨by decide, by decide⟩, fun h => ?_, fun h => ?_⟩
  · exact absurd (h [] _ 6 .normal false trivial rfl (by decide) (by unfold Moves; decide))
      (by decide)
  · exact absurd (h [] _ false rfl trivial rfl rfl) (by decide)

end Meshx.IvIndex
