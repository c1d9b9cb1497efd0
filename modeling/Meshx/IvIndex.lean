import Meshx.Common

/-! The IV index of a node and the two states of an IV update. -/
namespace Meshx.IvIndex

/-- `meshx_iv_update_state_t`. -/
inductive IvState
  | normal
  | inProgress
  deriving DecidableEq, Repr

/-- The static variables of the module. -/
structure Iv where
  ivIndex : BitVec 32
  state : IvState
  testMode : Bool
  transitPending : Bool
  tickTime : BitVec 32
  deriving DecidableEq, Repr

/-- The module after its initialization, with an IV index set. -/
def Iv.init (ivIndex : BitVec 32) : Iv := ⟨ivIndex, .normal, false, false, 0⟩

/-- `MESHX_IV_OPERATE_TICK_96H`, `_144H` and `_48W`: ticks of 1200 seconds. -/
def tick96H : BitVec 32 := 288

def tick144H : BitVec 32 := 432

def tick48W : BitVec 32 := 24192

def ivIndexTxGet (iv : Iv) : BitVec 32 :=
  match iv.state with
  | .inProgress => iv.ivIndex - 1
  | .normal => iv.ivIndex

/-- The branches back to the normal state. A busy lower transport layer puts them off;
else the sequence numbers and the replay list are cleared, which the flag reports. -/
def backToNormal (iv : Iv) (busy : Bool) : Iv × Bool :=
  if busy then ({ iv with transitPending := true }, false)
  else ({ iv with state := .normal, tickTime := 0 }, true)

/-- `meshx_iv_index_async_handle_timeout`. -/
def ivTick (iv : Iv) (busy : Bool) : Iv × Bool :=
  let iv := if iv.tickTime < tick48W then { iv with tickTime := iv.tickTime + 1 } else iv
  if tick144H ≤ iv.tickTime ∧ iv.state = .inProgress then backToNormal iv busy
  else (iv, false)

/-- `!state`. -/
def IvState.not : IvState → BitVec 32
  | .normal => 1#32
  | .inProgress => 0#32

/-- The difference of the IV indexes, then the signed distance in states. -/
def ivDistance (iv : Iv) (ivIndex : BitVec 32) (state : IvState) : BitVec 32 :=
  ((ivIndex - iv.ivIndex) <<< 1) + state.not - iv.state.not

/-- Why `meshx_iv_index_update` returns before it changes anything. -/
def ivRefused (iv : Iv) (ivIndex : BitVec 32) (state : IvState) : Option Errno :=
  let distance := ivDistance iv ivIndex state
  if ivIndex < iv.ivIndex then some .inval
  else if 42 < (ivIndex - iv.ivIndex).toInt then some .max
  else if distance.toInt ≤ 0 then some .success
  else if !iv.testMode && iv.tickTime < distance * tick96H then some .timing
  else none

/-- `meshx_iv_index_update`: return code, the module, and whether it cleared the sequence
numbers and the replay list. -/
def ivIndexUpdate (iv : Iv) (ivIndex : BitVec 32) (state : IvState) (busy : Bool) :
    Errno × Iv × Bool :=
  match ivRefused iv ivIndex state with
  | some ret => (ret, iv, false)
  | none =>
    let next := { iv with ivIndex := ivIndex }
    if ivDistance iv ivIndex state = 1 then
      match state with
      | .normal => (.success, backToNormal next busy)
      | .inProgress => (.success, { next with state := .inProgress }, false)
    else (.success, { next with state := state, tickTime := tick96H }, true)

/-- The IV recovery procedure runs. -/
def IvRecovers (iv : Iv) (ivIndex : BitVec 32) (state : IvState) : Prop :=
  ivRefused iv ivIndex state = none ∧ ivDistance iv ivIndex state ≠ 1

instance (iv : Iv) (ivIndex : BitVec 32) (state : IvState) :
    Decidable (IvRecovers iv ivIndex state) := inferInstanceAs (Decidable (_ ∧ _))

/-- The end of a segmented transmission: a transition that was put off is made. -/
def ivPendingNormal (iv : Iv) : Iv :=
  if iv.transitPending then { iv with state := .normal } else iv

/-- An update in progress has an IV index to count from. -/
def Iv.WellFormed (iv : Iv) : Prop := iv.state = .inProgress → iv.ivIndex ≠ 0

/-- The IV index messages are sent with, as a number. -/
def Iv.tx (iv : Iv) : ℕ := (ivIndexTxGet iv).toNat

variable {iv iv' : Iv} {ivIndex : BitVec 32} {state : IvState} {busy clear : Bool}

theorem tx_inProgress (hw : iv.WellFormed) (h : iv.state = .inProgress) :
    iv.tx + 1 = iv.ivIndex.toNat := by
  have hne : iv.ivIndex.toNat ≠ 0 := fun h0 => hw h (BitVec.eq_of_toNat_eq h0)
  have hlt := iv.ivIndex.isLt
  simp only [Iv.tx, ivIndexTxGet, h]
  rw [BitVec.toNat_sub, show (1 : BitVec 32).toNat = 1 from rfl]
  omega

theorem tx_normal (h : iv.state = .normal) : iv.tx = iv.ivIndex.toNat := by
  simp [Iv.tx, ivIndexTxGet, h]

theorem tx_le (hw : iv.WellFormed) : iv.tx ≤ iv.ivIndex.toNat := by
  cases h : iv.state with
  | normal => exact (tx_normal h).le
  | inProgress => have := tx_inProgress hw h; omega

/-- How a step moves the IV index for sending: never back, and on when it clears. -/
structure TxAdvance (iv iv' : Iv) (clear : Bool) : Prop where
  wellFormed : iv'.WellFormed
  index_le : iv.ivIndex.toNat ≤ iv'.ivIndex.toNat
  tx_le : iv.tx ≤ iv'.tx
  tx_lt : clear = true → iv.tx < iv'.tx

theorem TxAdvance.of_same (hw : iv.WellFormed) (hi : iv'.ivIndex = iv.ivIndex)
    (hs : iv'.state = iv.state) : TxAdvance iv iv' false where
  wellFormed := by rw [Iv.WellFormed, hi, hs]; exact hw
  index_le := by rw [hi]
  tx_le := by simp only [Iv.tx, ivIndexTxGet, hi, hs]; exact le_rfl
  tx_lt := by simp

theorem TxAdvance.of_normal (hs : iv'.state = .normal)
    (hi : iv.ivIndex.toNat ≤ iv'.ivIndex.toNat) (ht : iv.tx ≤ iv'.ivIndex.toNat)
    (hc : clear = true → iv.tx < iv'.ivIndex.toNat) : TxAdvance iv iv' clear := by
  have htx := tx_normal hs
  exact ⟨fun h => by simp [hs] at h, hi, htx ▸ ht, fun h => htx ▸ hc h⟩

theorem TxAdvance.of_inProgress (hs : iv'.state = .inProgress)
    (hi : iv.ivIndex.toNat ≤ iv'.ivIndex.toNat) (ht : iv.tx < iv'.ivIndex.toNat)
    (hc : clear = true → iv.tx + 1 < iv'.ivIndex.toNat) : TxAdvance iv iv' clear := by
  have hw : iv'.WellFormed := fun _ h0 => by rw [h0] at ht; simp at ht
  have htx := tx_inProgress hw hs
  exact ⟨hw, hi, by omega, fun h => by have := hc h; omega⟩

/-- `!state` as a number. -/
def IvState.rank : IvState → ℕ
  | .normal => 1
  | .inProgress => 0

theorem ivDistance_toNat (h : iv.ivIndex.toNat ≤ ivIndex.toNat) :
    (ivDistance iv ivIndex state).toNat =
      (2 * (ivIndex.toNat - iv.ivIndex.toNat) + state.rank + 2 ^ 32 - iv.state.rank) % 2 ^ 32 := by
  have h₁ := ivIndex.isLt
  have h₂ := iv.ivIndex.isLt
  simp only [ivDistance]
  generalize iv.state = old
  cases state <;> cases old <;>
    simp only [IvState.not, IvState.rank, BitVec.toNat_sub, BitVec.toNat_add,
      BitVec.toNat_shiftLeft, Nat.shiftLeft_eq, BitVec.toNat_ofNat] <;> omega

theorem backToNormal_advance (hle : iv.ivIndex.toNat ≤ ivIndex.toNat)
    (hlt : iv.tx < ivIndex.toNat) (hs : iv.state = .inProgress)
    (h : backToNormal { iv with ivIndex := ivIndex } busy = (iv', clear)) :
    TxAdvance iv iv' clear := by
  cases busy with
  | true =>
    cases h
    exact .of_inProgress hs hle hlt (by simp)
  | false =>
    cases h
    exact .of_normal rfl hle hlt.le fun _ => hlt

/-- An update that is not refused takes the IV index and its state forward. -/
theorem ivIndexUpdate_advance {ret : Errno} (hw : iv.WellFormed)
    (h : ivIndexUpdate iv ivIndex state busy = (ret, iv', clear)) : TxAdvance iv iv' clear := by
  rw [ivIndexUpdate] at h
  cases hr : ivRefused iv ivIndex state with
  | some err =>
    rw [hr] at h
    cases h
    exact .of_same hw rfl rfl
  | none =>
    rw [hr] at h
    have hle : iv.ivIndex.toNat ≤ ivIndex.toNat := by
      by_contra hc
      have hlt : ivIndex < iv.ivIndex := by rw [BitVec.lt_def]; omega
      simp [ivRefused, hlt] at hr
    have hpos : 0 < (ivDistance iv ivIndex state).toInt := by
      by_contra hc
      have hle' : (ivDistance iv ivIndex state).toInt ≤ 0 := by omega
      simp only [ivRefused, hle', if_true] at hr
      split_ifs at hr
    have hdist := @ivDistance_toNat iv ivIndex state hle
    have hi := ivIndex.isLt
    have htx := tx_le hw
    dsimp only at h
    by_cases h1 : ivDistance iv ivIndex state = 1
    · rw [if_pos h1] at h
      rw [h1, show (1 : BitVec 32).toNat = 1 from rfl] at hdist
      cases state with
      | normal =>
        -- an odd distance to the normal state starts at an update in progress
        have hold : iv.state = .inProgress := by
          cases hs : iv.state with
          | normal => simp only [hs, IvState.rank] at hdist; omega
          | inProgress => rfl
        have htx' := tx_inProgress hw hold
        exact backToNormal_advance hle (by omega) hold (Prod.mk.inj h).2
      | inProgress =>
        cases h
        have hlt : iv.ivIndex.toNat < ivIndex.toNat := by
          cases hs : iv.state <;> simp only [hs, IvState.rank] at hdist <;> omega
        exact .of_inProgress rfl hle (by dsimp only; omega) (by simp)
    · rw [if_neg h1] at h
      cases h
      have hne1 : (ivDistance iv ivIndex state).toNat ≠ 1 := fun hc =>
        h1 (BitVec.eq_of_toNat_eq hc)
      have hne0 : (ivDistance iv ivIndex state).toNat ≠ 0 := fun hc => by
        have h0 : ivDistance iv ivIndex state = 0 := BitVec.eq_of_toNat_eq hc
        simp [h0] at hpos
      have hsmall : (ivDistance iv ivIndex state).toNat < 2 ^ 31 := by
        by_contra hc
        rw [BitVec.toInt_eq_toNat_cond, if_neg (by omega)] at hpos
        omega
      have hlt : iv.ivIndex.toNat < ivIndex.toNat := by
        cases hs : iv.state <;> cases state <;> simp only [hs, IvState.rank] at hdist <;> omega
      cases state with
      | normal => exact .of_normal rfl hle (by dsimp only; omega) fun _ => by dsimp only; omega
      | inProgress =>
        refine .of_inProgress rfl hle (by dsimp only; omega) fun _ => ?_
        dsimp only
        cases hs : iv.state with
        | normal => simp only [hs, IvState.rank] at hdist; omega
        | inProgress => have := tx_inProgress hw hs; omega

/-- A tick keeps the IV index; one that clears ends an update in progress. -/
theorem ivTick_advance (hw : iv.WellFormed) (h : ivTick iv busy = (iv', clear)) :
    TxAdvance iv iv' clear := by
  rw [ivTick] at h
  set next := if iv.tickTime < tick48W then { iv with tickTime := iv.tickTime + 1 } else iv with hn
  have hindex : next.ivIndex = iv.ivIndex := by rw [hn]; split_ifs <;> rfl
  have hstate : next.state = iv.state := by rw [hn]; split_ifs <;> rfl
  have hnext : TxAdvance iv next false := .of_same hw hindex hstate
  by_cases hc : tick144H ≤ next.tickTime ∧ next.state = .inProgress
  · rw [if_pos hc] at h
    have htx := tx_inProgress hnext.wellFormed hc.2
    have hadv : TxAdvance next iv' clear :=
      backToNormal_advance le_rfl (by omega) hc.2 h
    have heq : next.tx = iv.tx := by simp only [Iv.tx, ivIndexTxGet, hindex, hstate]
    exact ⟨hadv.wellFormed, hnext.index_le.trans hadv.index_le, heq ▸ hadv.tx_le,
      heq ▸ hadv.tx_lt⟩
  · rw [if_neg hc] at h
    obtain ⟨hiv, rfl⟩ := Prod.mk.inj h
    exact hiv ▸ hnext

/-- A step that clears has taken over the IV index it was given. -/
theorem ivIndexUpdate_cleared {ret : Errno}
    (h : ivIndexUpdate iv ivIndex state busy = (ret, iv', true)) :
    ivRefused iv ivIndex state = none ∧ iv'.ivIndex = ivIndex ∧
      (ivDistance iv ivIndex state = 1 → busy = false) := by
  rw [ivIndexUpdate] at h
  cases hr : ivRefused iv ivIndex state with
  | some err => simp [hr] at h
  | none =>
    by_cases h1 : ivDistance iv ivIndex state = 1
    · simp only [hr, if_pos h1] at h
      cases state with
      | normal =>
        cases busy <;> simp [backToNormal] at h
        exact ⟨rfl, by rw [← h.2], fun _ => rfl⟩
      | inProgress => simp at h
    · simp only [hr, if_neg h1, Prod.mk.injEq] at h
      exact ⟨rfl, by rw [← h.2.1], fun he => absurd he h1⟩

/-- A step that clears finds the lower transport layer idle, or recovers the IV index. -/
theorem ivIndexUpdate_clear {ret : Errno}
    (h : ivIndexUpdate iv ivIndex state busy = (ret, iv', true)) :
    busy = false ∨ IvRecovers iv ivIndex state := by
  obtain ⟨hr, -, hbusy⟩ := ivIndexUpdate_cleared h
  by_cases h1 : ivDistance iv ivIndex state = 1
  · exact .inl (hbusy h1)
  · exact .inr ⟨hr, h1⟩

theorem ivTick_clear (h : ivTick iv busy = (iv', true)) : busy = false := by
  cases busy with
  | false => rfl
  | true =>
    simp only [ivTick, backToNormal] at h
    split_ifs at h <;> simp at h

theorem ivTick_index (h : ivTick iv busy = (iv', clear)) : iv'.ivIndex = iv.ivIndex := by
  rw [ivTick] at h
  split_ifs at h <;> cases busy <;> cases h <;> rfl

theorem ivPendingNormal_advance (hw : iv.WellFormed) :
    TxAdvance iv (ivPendingNormal iv) false := by
  unfold ivPendingNormal
  split_ifs
  · exact .of_normal rfl le_rfl (tx_le hw) (by simp)
  · exact .of_same hw rfl rfl

end Meshx.IvIndex
