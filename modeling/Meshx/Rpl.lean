import Meshx.Common

/-! The replay protection list: an array of entries filled from the front. -/
namespace Meshx.Replay

/-- `meshx_rpl_t`. -/
structure RplEntry where
  src : BitVec 16
  seq : BitVec 32
  ivIndex : BitVec 32
  deriving DecidableEq, Repr

/-- What `memset` leaves in an entry. -/
def RplEntry.zero : RplEntry := ⟨0, 0, 0⟩

/-- `rpl_array` and `rpl_index`; `rpl_size` is the length of the array. -/
structure Rpl where
  array : List RplEntry
  index : ℕ
  index_le : index ≤ array.length

def rplInit (size : ℕ) : Rpl := ⟨List.replicate size .zero, 0, Nat.zero_le _⟩

def rplClear (r : Rpl) : Rpl := rplInit r.array.length

/-- The entries in use. -/
def Rpl.entries (r : Rpl) : List RplEntry := r.array.take r.index

/-- `meshx_rpl_check`: only the first entry of the source is looked at. -/
def rplCheck (r : Rpl) (rpl : RplEntry) : Bool :=
  match r.entries.find? (·.src = rpl.src) with
  | none => true
  | some e => !(rpl.seq ≤ e.seq || rpl.ivIndex < e.ivIndex)

/-- The end of `meshx_rpl_update`, where no entry was found. -/
def rplAdd (r : Rpl) (rpl : RplEntry) : Errno × Rpl :=
  if h : r.index = r.array.length then (.resource, r)
  else (.success, ⟨r.array.set r.index rpl, r.index + 1, by
    rw [List.length_set]; exact Nat.lt_of_le_of_ne r.index_le h⟩)

/-- `meshx_rpl_update`. The search reads the entry at `rpl_index`, the first one not in
use, in every round; the round counter has eight bits. -/
def rplUpdate (r : Rpl) (rpl : RplEntry) : Except Fault (Errno × Rpl) :=
  if r.index = 0 then .ok (rplAdd r rpl)
  else match r.array[r.index]? with
    | none => .error .badRead
    | some e =>
      if e.src = rpl.src then
        .ok (.success, ⟨r.array.set r.index { rpl with src := e.src }, r.index, by
          rw [List.length_set]; exact r.index_le⟩)
      else if 255 < r.index then .error .hang
      else .ok (rplAdd r rpl)

def lowerTransRplCheck (r : Rpl) (rpl : RplEntry) : Except Fault (Bool × Rpl) :=
  if rplCheck r rpl then do
    let (ret, r) ← rplUpdate r rpl
    return (ret = .success, r)
  else .ok (false, r)

/-- The entries behind those in use are as `memset` left them. -/
def Rpl.Cleared (r : Rpl) : Prop := ∀ e ∈ r.array.drop r.index, e = .zero

variable {r r' : Rpl} {rpl : RplEntry} {ret : Errno}

theorem rplInit_cleared (size : ℕ) : (rplInit size).Cleared := by
  intro e he
  exact List.eq_of_mem_replicate (List.mem_of_mem_drop he)

@[simp] theorem rplInit_entries (size : ℕ) : (rplInit size).entries = [] := by
  simp [Rpl.entries, rplInit]

theorem rplAdd_entries (h : (rplAdd r rpl).1 = .success) :
    (rplAdd r rpl).2.entries = r.entries ++ [rpl] := by
  unfold rplAdd at h ⊢
  split_ifs at h ⊢ with hi
  · have hlt : r.index < r.array.length := Nat.lt_of_le_of_ne r.index_le hi
    simp only [Rpl.entries]
    rw [List.take_add_one, List.getElem?_set_self hlt, List.take_set_of_le le_rfl]
    rfl

theorem rplAdd_cleared (hc : r.Cleared) : (rplAdd r rpl).2.Cleared := by
  unfold rplAdd
  split_ifs with hi
  · exact hc
  · intro e he
    simp only [List.drop_set_of_lt (Nat.lt_succ_self r.index)] at he
    rw [Nat.succ_eq_add_one, ← List.drop_drop] at he
    exact hc e (List.mem_of_mem_drop he)

/-- For a source that is not zero an update appends the entry or finds the list full. -/
theorem rplUpdate_cases (hc : r.Cleared) (hsrc : rpl.src ≠ 0)
    (h : rplUpdate r rpl = .ok (ret, r')) : (ret, r') = rplAdd r rpl := by
  rw [rplUpdate] at h
  by_cases hi : r.index = 0
  · rw [if_pos hi] at h
    exact (Except.ok.inj h).symm
  · rw [if_neg hi] at h
    cases hget : r.array[r.index]? with
    | none => rw [hget] at h; cases h
    | some e =>
      have hzero : e = .zero := by
        refine hc e (List.mem_iff_getElem?.mpr ⟨0, ?_⟩)
        rw [List.getElem?_drop, Nat.add_zero, hget]
      rw [hget, hzero] at h
      dsimp only at h
      rw [if_neg (fun hs => hsrc hs.symm)] at h
      by_cases hl : 255 < r.index
      · rw [if_pos hl] at h; cases h
      · rw [if_neg hl] at h
        exact (Except.ok.inj h).symm

theorem rplUpdate_entries (hc : r.Cleared) (hsrc : rpl.src ≠ 0)
    (h : rplUpdate r rpl = .ok (ret, r')) : r'.Cleared ∧
      (r'.entries = r.entries ++ [rpl] ∨ ret ≠ .success ∧ r' = r) := by
  have hadd := rplUpdate_cases hc hsrc h
  obtain ⟨rfl, rfl⟩ : ret = (rplAdd r rpl).1 ∧ r' = (rplAdd r rpl).2 := by
    rw [← hadd]; exact ⟨rfl, rfl⟩
  refine ⟨rplAdd_cleared hc, ?_⟩
  by_cases hi : r.index = r.array.length
  · refine .inr ⟨?_, ?_⟩ <;> simp [rplAdd, hi]
  · exact .inl (rplAdd_entries (by simp [rplAdd, hi]))

end Meshx.Replay
