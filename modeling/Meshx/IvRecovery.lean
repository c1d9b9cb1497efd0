import Meshx.IvUpdates

/-! How far one update can move the IV index. The difference of the IV indexes is signed, so
one of 2 ^ 31 or more passes for a small one. -/
namespace Meshx.IvIndex

/-- `MESHX_IV_INDEX_MAX_DIFF`. -/
def ivIndexMaxDiff : ℕ := 42

/-- The update leaves the IV index where it was or takes it up by 42 at most, and an IV index
beyond that changes nothing. -/
structure Bounded (iv : Iv) (ivIndex : BitVec 32) (iv' : Iv) (clear : Bool) : Prop where
  lower : iv.ivIndex.toNat ≤ iv'.ivIndex.toNat
  upper : iv'.ivIndex.toNat ≤ iv.ivIndex.toNat + ivIndexMaxDiff
  unchanged : iv.ivIndex.toNat + ivIndexMaxDiff < ivIndex.toNat → iv' = iv ∧ clear = false

/-- The difference of the IV indexes is not negative as a signed one. -/
def WithinHalf (iv : Iv) (ivIndex : BitVec 32) : Prop := ivIndex.toNat < iv.ivIndex.toNat + 2 ^ 31

instance (iv : Iv) (ivIndex : BitVec 32) : Decidable (WithinHalf iv ivIndex) :=
  inferInstanceAs (Decidable (_ < _))

/-- Not enough time has passed for as many states as the distance counts. -/
def TooEarly (iv : Iv) (ivIndex : BitVec 32) (state : IvState) : Prop :=
  iv.testMode = false ∧ iv.tickTime < ivDistance iv ivIndex state * tick96H

variable {iv : Iv} {ivIndex : BitVec 32} {state : IvState} {busy : Bool}

theorem max_iff (h : iv.ivIndex.toNat ≤ ivIndex.toNat) :
    42 < (ivIndex - iv.ivIndex).toInt ↔
      iv.ivIndex.toNat + ivIndexMaxDiff < ivIndex.toNat ∧ WithinHalf iv ivIndex := by
  have hi := ivIndex.isLt
  have hdiff : (ivIndex - iv.ivIndex).toNat = ivIndex.toNat - iv.ivIndex.toNat := by
    rw [BitVec.toNat_sub]
    omega
  rw [BitVec.toInt_eq_toNat_cond, hdiff, ivIndexMaxDiff, WithinHalf]
  split_ifs <;> omega

/-- What becomes of a larger value: a difference below 2 ^ 31 is found out, any other one is
stopped only by its distance or by the time. -/
theorem ivRefused_larger (h : iv.ivIndex.toNat + ivIndexMaxDiff < ivIndex.toNat) :
    ivRefused iv ivIndex state =
      if WithinHalf iv ivIndex then some .max
      else if (ivDistance iv ivIndex state).toInt ≤ 0 then some .success
      else if !iv.testMode && iv.tickTime < ivDistance iv ivIndex state * tick96H then
        some .timing
      else none := by
  have hle : iv.ivIndex.toNat ≤ ivIndex.toNat := (Nat.le_add_right _ _).trans h.le
  have hlt : ¬ivIndex < iv.ivIndex := by
    rw [BitVec.lt_def]
    omega
  have hmax := @max_iff iv ivIndex hle
  rw [ivRefused, if_neg hlt]
  by_cases hhalf : WithinHalf iv ivIndex
  · rw [if_pos hhalf, if_pos (hmax.mpr ⟨h, hhalf⟩)]
  · rw [if_neg hhalf, if_neg fun hm => hhalf (hmax.mp hm).2]

theorem ivIndexUpdate_refused {ret : Errno} (h : ivRefused iv ivIndex state = some ret) :
    ivIndexUpdate iv ivIndex state busy = (ret, iv, false) := by
  rw [ivIndexUpdate, h]

theorem ivIndexUpdate_taken (h : ivRefused iv ivIndex state = none) :
    (ivIndexUpdate iv ivIndex state busy).2.1.ivIndex = ivIndex := by
  simp only [ivIndexUpdate, h]
  by_cases hd : ivDistance iv ivIndex state = 1
  · rw [if_pos hd]
    cases state with
    | normal => cases busy <;> rfl
    | inProgress => rfl
  · rw [if_neg hd]

theorem bounded_refl : Bounded iv ivIndex iv false :=
  ⟨le_rfl, Nat.le_add_right _ _, fun _ => ⟨rfl, rfl⟩⟩

theorem bounded_of_le (h : ivIndex.toNat ≤ iv.ivIndex.toNat + ivIndexMaxDiff) :
    Bounded iv ivIndex (ivIndexUpdate iv ivIndex state busy).2.1
      (ivIndexUpdate iv ivIndex state busy).2.2 := by
  cases hr : ivRefused iv ivIndex state with
  | some ret =>
    rw [ivIndexUpdate_refused hr]
    exact bounded_refl
  | none =>
    have hle := (ivRefused_none hr).1
    refine ⟨?_, ?_, fun hlarger => absurd h (not_le.mpr hlarger)⟩
    · rwa [ivIndexUpdate_taken hr]
    · rwa [ivIndexUpdate_taken hr]

/-- An update keeps the bound of 42 and refuses every larger value with an error exactly if the
value is less than 2 ^ 31 above the IV index, or the wrapped distance still counts states and
not enough time has passed for them. The bound alone is kept too if that distance counts none. -/
theorem ivIndexUpdate_bounded (iv : Iv) (ivIndex : BitVec 32) (state : IvState) (busy : Bool) :
    let r := ivIndexUpdate iv ivIndex state busy
    (Bounded iv ivIndex r.2.1 r.2.2 ∧
        (iv.ivIndex.toNat + ivIndexMaxDiff < ivIndex.toNat → r.1 ≠ .success) ↔
      WithinHalf iv ivIndex ∨ 0 < (ivDistance iv ivIndex state).toInt ∧ TooEarly iv ivIndex state) ∧
    (Bounded iv ivIndex r.2.1 r.2.2 ↔ WithinHalf iv ivIndex ∨
      (ivDistance iv ivIndex state).toInt ≤ 0 ∨ TooEarly iv ivIndex state) := by
  dsimp only
  by_cases hlarger : iv.ivIndex.toNat + ivIndexMaxDiff < ivIndex.toNat
  · have hcases := @ivRefused_larger iv ivIndex state hlarger
    by_cases hhalf : WithinHalf iv ivIndex
    · rw [if_pos hhalf] at hcases
      rw [ivIndexUpdate_refused hcases]
      simp [hhalf, bounded_refl]
    rw [if_neg hhalf] at hcases
    by_cases hdist : (ivDistance iv ivIndex state).toInt ≤ 0
    · rw [if_pos hdist] at hcases
      rw [ivIndexUpdate_refused hcases]
      simp [hlarger, hhalf, hdist, bounded_refl]
    rw [if_neg hdist] at hcases
    by_cases hearly : TooEarly iv ivIndex state
    · rw [if_pos (by simpa [TooEarly] using hearly)] at hcases
      rw [ivIndexUpdate_refused hcases]
      simp [hearly, not_le.mp hdist, bounded_refl]
    · rw [if_neg (by simpa [TooEarly] using hearly)] at hcases
      have hnot : ¬Bounded iv ivIndex (ivIndexUpdate iv ivIndex state busy).2.1
          (ivIndexUpdate iv ivIndex state busy).2.2 := by
        intro hb
        have hupper := hb.upper
        rw [ivIndexUpdate_taken hcases] at hupper
        omega
      simp [hnot, hhalf, hdist, hearly]
  · have hb := @bounded_of_le iv ivIndex state busy (not_lt.mp hlarger)
    have hhalf : WithinHalf iv ivIndex := by
      rw [ivIndexMaxDiff] at hlarger
      rw [WithinHalf]
      omega
    simp [hb, hhalf, hlarger]

/-- In test mode one beacon takes the IV index from zero beyond the middle. -/
theorem ivIndexUpdate_unbounded :
    ivIndexUpdate { Iv.init 0 with testMode := true } 0x80000001 .normal false =
      (.success, ⟨0x80000001, .normal, true, false, tick96H⟩, true) ∧
    ¬Bounded { Iv.init 0 with testMode := true } 0x80000001
      ⟨0x80000001, .normal, true, false, tick96H⟩ true :=
  ⟨by decide, fun h => absurd h.upper (by decide)⟩

end Meshx.IvIndex
