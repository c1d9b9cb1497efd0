import Meshx.Keys
import Meshx.Lib.Run

/-! Device keys by address: each is stored for the elements of one node, and a lookup takes the
first key whose range has the address. -/
namespace Meshx.DevKeys

open Lib Keys

/-- A call of `meshx_dev_key_add`, with what the platform answers it. -/
structure DevKeyAdd where
  mallocOk : Bool
  primaryAddr : BitVec 16
  elementNum : BitVec 8
  devKey : Key

/-- The last address of a range that begins at an address. -/
def lastAddr (primaryAddr : BitVec 16) (elementNum : BitVec 8) : ℕ :=
  primaryAddr.toNat + elementNum.toNat - 1

/-- The test of `meshx_dev_key_add` on one stored key. The end of the stored range has 16 bits,
that of the new one is an `int`. -/
def overlaps (d : DeviceKey) (primaryAddr : BitVec 16) (elementNum : BitVec 8) : Bool :=
  let addrStart := d.primaryAddr.toNat
  let addrEnd := (d.primaryAddr + d.elementNum.setWidth 16 - 1).toNat
  (addrStart ≤ primaryAddr.toNat && primaryAddr.toNat ≤ addrEnd) ||
    (addrStart ≤ lastAddr primaryAddr elementNum && lastAddr primaryAddr elementNum ≤ addrEnd)

/-- `meshx_dev_key_add`; `devKeyNum` is the configured number of keys. -/
def devKeyAdd (devKeyNum : ℕ) (devKeys : List DeviceKey) (e : DevKeyAdd) :
    Errno × List DeviceKey :=
  if e.primaryAddr = 0 ∨ e.elementNum = 0 then (.inval, devKeys)
  else if devKeyNum ≤ devKeys.length then (.resource, devKeys)
  else if devKeys.any fun d => overlaps d e.primaryAddr e.elementNum then (.already, devKeys)
  else if !e.mallocOk then (.mem, devKeys)
  else (.success, devKeys ++ [⟨e.primaryAddr, e.elementNum, e.devKey⟩])

def devKeyStep (devKeyNum : ℕ) (devKeys : List DeviceKey) (e : DevKeyAdd) :
    Except Fault (List DeviceKey) := .ok (devKeyAdd devKeyNum devKeys e).2

/-- The address is that of an element of the node with the key. -/
def Covers (d : DeviceKey) (addr : BitVec 16) : Prop :=
  d.primaryAddr.toNat ≤ addr.toNat ∧
    addr.toNat < d.primaryAddr.toNat + d.elementNum.toNat

/-- No address is in the ranges of two stored keys, so a lookup finds the one key for an
address, whatever the order of the keys. -/
structure Separated (devKeys : List DeviceKey) : Prop where
  disjoint : devKeys.Pairwise fun d d' => ∀ addr, ¬ (Covers d addr ∧ Covers d' addr)
  only : ∀ addr d, devKeyGet devKeys addr = some d ↔ d ∈ devKeys ∧ Covers d addr
  order : ∀ devKeys', devKeys'.Perm devKeys → ∀ addr,
    devKeyGet devKeys' addr = devKeyGet devKeys addr

/-- The keys are separated after the call. -/
def KeepsSeparated (devKeyNum : ℕ) (devKeys : List DeviceKey) (e : DevKeyAdd) : Prop :=
  ∀ devKeys', devKeyStep devKeyNum devKeys e = .ok devKeys' → Separated devKeys'

/-- The new range begins before the stored one and ends behind it. -/
def Surrounds (e : DevKeyAdd) (d : DeviceKey) : Prop :=
  e.primaryAddr.toNat < d.primaryAddr.toNat ∧
    lastAddr d.primaryAddr d.elementNum < lastAddr e.primaryAddr e.elementNum

/-- The stored range goes on behind the last address, and the new one reaches its beginning. -/
def ReachesWrapped (e : DevKeyAdd) (d : DeviceKey) : Prop :=
  0xFFFF < lastAddr d.primaryAddr d.elementNum ∧
    d.primaryAddr.toNat ≤ lastAddr e.primaryAddr e.elementNum

/-- A call that passes the checks names a range that neither surrounds a stored one nor
reaches one that wraps around. -/
def Tested (devKeyNum : ℕ) (devKeys : List DeviceKey) (e : DevKeyAdd) : Prop :=
  e.primaryAddr ≠ 0 → e.elementNum ≠ 0 → devKeys.length < devKeyNum → e.mallocOk = true →
    (∀ d ∈ devKeys, overlaps d e.primaryAddr e.elementNum = false) →
    ∀ d ∈ devKeys, ¬ Surrounds e d ∧ ¬ ReachesWrapped e d

variable {devKeyNum : ℕ} {devKeys devKeys' : List DeviceKey} {d d' : DeviceKey} {e : DevKeyAdd}

theorem elementNum_pos (h : d.elementNum ≠ 0) : 0 < d.elementNum.toNat :=
  Nat.pos_of_ne_zero fun hz => h (BitVec.eq_of_toNat_eq hz)

/-- A key is added when every check is passed. -/
theorem devKeyAdd_cases (devKeyNum : ℕ) (devKeys : List DeviceKey) (e : DevKeyAdd) :
    (devKeyAdd devKeyNum devKeys e).2 = devKeys ∨
    e.primaryAddr ≠ 0 ∧ e.elementNum ≠ 0 ∧ devKeys.length < devKeyNum ∧ e.mallocOk = true ∧
      (∀ d ∈ devKeys, overlaps d e.primaryAddr e.elementNum = false) ∧
      (devKeyAdd devKeyNum devKeys e).2 = devKeys ++ [⟨e.primaryAddr, e.elementNum, e.devKey⟩] := by
  unfold devKeyAdd
  split_ifs with hparam hfull hover hmalloc
  · exact .inl rfl
  · exact .inl rfl
  · exact .inl rfl
  · exact .inl rfl
  · rw [not_or] at hparam
    refine .inr ⟨hparam.1, hparam.2, not_le.mp hfull, by simpa using hmalloc, ?_, rfl⟩
    simpa using hover

theorem devKeyGet_some {addr : BitVec 16} (h : devKeyGet devKeys addr = some d) :
    d ∈ devKeys ∧ Covers d addr := by
  have hd := List.find?_some h
  simp only [decide_eq_true_eq] at hd
  exact ⟨List.mem_of_find?_eq_some h, hd⟩

/-- The ranges of two keys have an address in common, or one ends before the other begins. -/
theorem disjoint_iff (hd : d.elementNum ≠ 0) (hd' : d'.elementNum ≠ 0) :
    (∀ addr, ¬ (Covers d addr ∧ Covers d' addr)) ↔
      lastAddr d.primaryAddr d.elementNum < d'.primaryAddr.toNat ∨
        lastAddr d'.primaryAddr d'.elementNum < d.primaryAddr.toNat := by
  have hpos := elementNum_pos hd
  have hpos' := elementNum_pos hd'
  constructor
  · intro h
    by_contra hno
    -- the later one of the two first addresses is in both ranges
    rcases le_total d.primaryAddr.toNat d'.primaryAddr.toNat with hle | hle
    · refine h d'.primaryAddr ⟨⟨hle, ?_⟩, le_rfl, ?_⟩ <;> unfold lastAddr at hno <;> omega
    · refine h d.primaryAddr ⟨⟨le_rfl, ?_⟩, hle, ?_⟩ <;> unfold lastAddr at hno <;> omega
  · rintro h addr ⟨⟨h₁, h₂⟩, h₃, h₄⟩
    unfold lastAddr at h
    omega

/-- What the test does not find is a range that surrounds the stored one, or that reaches one
whose end has wrapped around. -/
theorem disjoint_iff_tested (hd : d.elementNum ≠ 0) (he : e.elementNum ≠ 0)
    (hover : overlaps d e.primaryAddr e.elementNum = false) :
    (lastAddr d.primaryAddr d.elementNum < e.primaryAddr.toNat ∨
        lastAddr e.primaryAddr e.elementNum < d.primaryAddr.toNat) ↔
      ¬ Surrounds e d ∧ ¬ ReachesWrapped e d := by
  have hpos := elementNum_pos hd
  have hpos' : 0 < e.elementNum.toNat := Nat.pos_of_ne_zero fun hz => he (BitVec.eq_of_toNat_eq hz)
  have hlt := d.primaryAddr.isLt
  have hlt' := e.primaryAddr.isLt
  have hnum := d.elementNum.isLt
  have hend : (d.primaryAddr + d.elementNum.setWidth 16 - 1).toNat =
      lastAddr d.primaryAddr d.elementNum % 65536 := by
    unfold lastAddr
    bv_omega
  simp only [overlaps, hend, Bool.or_eq_false_iff, Bool.and_eq_false_iff, decide_eq_false_iff_not]
    at hover
  unfold Surrounds ReachesWrapped
  unfold lastAddr at *
  omega

/-- No address is in the ranges of both keys. -/
def Apart (d d' : DeviceKey) : Prop := ∀ addr, ¬ (Covers d addr ∧ Covers d' addr)

instance : Std.Symm Apart := ⟨fun _ _ h addr hc => h addr hc.symm⟩

theorem devKeyGet_iff (h : devKeys.Pairwise Apart) (addr : BitVec 16) (d : DeviceKey) :
    devKeyGet devKeys addr = some d ↔ d ∈ devKeys ∧ Covers d addr := by
  refine ⟨devKeyGet_some, fun ⟨hmem, hcov⟩ => ?_⟩
  cases hget : devKeyGet devKeys addr with
  | none =>
    have hno := List.find?_eq_none.mp hget d hmem
    simp only [decide_eq_true_eq] at hno
    exact absurd hcov hno
  | some d' =>
    obtain ⟨hmem', hcov'⟩ := devKeyGet_some hget
    by_contra hne
    exact h.forall hmem hmem' (fun he => hne (congrArg some he.symm)) addr ⟨hcov, hcov'⟩

theorem separated_of_pairwise (h : devKeys.Pairwise Apart) : Separated devKeys where
  disjoint := h
  only := devKeyGet_iff h
  order devKeys' hperm addr := by
    have h' : devKeys'.Pairwise Apart := (hperm.pairwise_iff symm).mpr h
    ext d
    rw [devKeyGet_iff h', devKeyGet_iff h, hperm.mem_iff]

/-- What the stored keys are as long as every call is tested. -/
structure Stored (devKeys : List DeviceKey) : Prop where
  apart : devKeys.Pairwise Apart
  nonempty : ∀ d ∈ devKeys, d.elementNum ≠ 0

theorem stored_append (h : Stored devKeys) (he : e.elementNum ≠ 0)
    (hover : ∀ d ∈ devKeys, overlaps d e.primaryAddr e.elementNum = false) :
    List.Pairwise Apart (devKeys ++ [⟨e.primaryAddr, e.elementNum, e.devKey⟩]) ↔
      ∀ d ∈ devKeys, ¬ Surrounds e d ∧ ¬ ReachesWrapped e d := by
  rw [List.pairwise_append]
  constructor
  · intro hpair d hd
    have hapart : Apart d ⟨e.primaryAddr, e.elementNum, e.devKey⟩ :=
      hpair.2.2 d hd _ (List.mem_singleton_self _)
    exact (disjoint_iff_tested (h.nonempty d hd) he (hover d hd)).mp
      ((@disjoint_iff _ ⟨e.primaryAddr, e.elementNum, e.devKey⟩ (h.nonempty d hd) he).mp hapart)
  · intro htested
    refine ⟨h.apart, List.pairwise_singleton _ _, fun d hd d' hd' => ?_⟩
    rw [List.mem_singleton.mp hd']
    exact (disjoint_iff (h.nonempty d hd) he).mpr
      ((disjoint_iff_tested (h.nonempty d hd) he (hover d hd)).mpr (htested d hd))

theorem keepsSeparated_iff (h : Stored devKeys) :
    KeepsSeparated devKeyNum devKeys e ↔ Tested devKeyNum devKeys e := by
  constructor
  · intro hkeeps haddr hnum hroom hmalloc hover
    have hadd : (devKeyAdd devKeyNum devKeys e).2 =
        devKeys ++ [⟨e.primaryAddr, e.elementNum, e.devKey⟩] := by
      have hnone : ¬ (devKeys.any fun d => overlaps d e.primaryAddr e.elementNum) = true := by
        simpa using hover
      rw [devKeyAdd, if_neg (not_or.mpr ⟨haddr, hnum⟩), if_neg (not_le.mpr hroom),
        if_neg hnone, if_neg (by simp [hmalloc])]
    refine (stored_append h hnum hover).mp ?_
    rw [← hadd]
    exact (hkeeps _ rfl).disjoint
  · intro htested devKeys' hs
    obtain rfl := Except.ok.inj hs
    rcases devKeyAdd_cases devKeyNum devKeys e with
      hsame | ⟨haddr, hnum, hroom, hmalloc, hover, hadd⟩
    · rw [hsame]
      exact separated_of_pairwise h.apart
    · rw [hadd]
      exact separated_of_pairwise
        ((stored_append h hnum hover).mpr (htested haddr hnum hroom hmalloc hover))

theorem Stored.step (h : Stored devKeys) (htested : Tested devKeyNum devKeys e)
    (hs : devKeyStep devKeyNum devKeys e = .ok devKeys') : Stored devKeys' := by
  refine ⟨((keepsSeparated_iff h).mpr htested devKeys' hs).disjoint, fun d hd => ?_⟩
  obtain rfl := Except.ok.inj hs
  rcases devKeyAdd_cases devKeyNum devKeys e with hsame | ⟨-, hnum, -, -, -, hadd⟩
  · exact h.nonempty d (hsame ▸ hd)
  · rw [hadd] at hd
    rcases List.mem_append.mp hd with hd | hd
    · exact h.nonempty d hd
    · rw [List.mem_singleton.mp hd]
      exact hnum

/-- The ranges of the stored keys stay separate in exactly the runs whose every call that
passes the checks names a range that surrounds no stored one and reaches none that wraps
around. -/
theorem separated_iff (devKeyNum : ℕ) (es : List DevKeyAdd) :
    RunAll (devKeyStep devKeyNum) (KeepsSeparated devKeyNum) [] es ↔
      RunAll (devKeyStep devKeyNum) (Tested devKeyNum) [] es :=
  @RunAll.iff_of_invariant _ _ _ _ _ Stored _ _ _ (fun _ _ _ h htested hs => h.step htested hs)
    (fun _ _ h => keepsSeparated_iff h) ⟨.nil, by simp⟩

/-- A node with three elements is added around the address of another. -/
def surrounding : List DevKeyAdd :=
  [⟨true, 2, 1, List.replicate 16 1⟩, ⟨true, 1, 3, List.replicate 16 2⟩]

theorem separated_fails :
    ¬ RunAll (devKeyStep 2) (KeepsSeparated 2) [] surrounding := by
  intro h
  have hpair := ((h.2 _ rfl).1 _ rfl).disjoint
  exact (List.pairwise_cons.mp hpair).1 _ (List.mem_singleton_self _) 2
    ⟨⟨by decide, by decide⟩, by decide, by decide⟩

end Meshx.DevKeys
