import Meshx.Common

/-! The sequence number counters of the elements of a node. -/
namespace Meshx.Sequence

/-- `seq_array` after initialization, one counter an element. A counter never exceeds
`MESHX_SEQ_MAX`, the largest value of 24 bits. -/
abbrev SeqArray := List (BitVec 24)

def seqMax : BitVec 24 := 0xFFFFFF

def seqInvalid : BitVec 32 := 0xFFFFFFFF

def seqInit (elementNum : ℕ) : SeqArray := List.replicate elementNum 0

/-- `meshx_seq_use`: the counter is handed out and advanced, but stays at the maximum. -/
def seqUse (s : SeqArray) (elementIndex : ℕ) : SeqArray × BitVec 32 :=
  match s[elementIndex]? with
  | none => (s, seqInvalid)
  | some seq =>
    if seq = seqMax then (s, seq.setWidth 32)
    else (s.set elementIndex (seq + 1), seq.setWidth 32)

def seqClear (s : SeqArray) : SeqArray := s.map fun _ => 0

theorem seqUse_advance {s : SeqArray} {i : ℕ} {seq : BitVec 24} (h : s[i]? = some seq)
    (hne : seq ≠ seqMax) : seqUse s i = (s.set i (seq + 1), seq.setWidth 32) := by
  simp [seqUse, h, hne]

theorem lt_add_one {seq : BitVec 24} (h : seq ≠ seqMax) : seq.toNat + 1 = (seq + 1).toNat := by
  have hne : seq.toNat ≠ 0xFFFFFF := fun he => h (BitVec.eq_of_toNat_eq he)
  have hlt := seq.isLt
  rw [BitVec.toNat_add, show (1 : BitVec 24).toNat = 1 from rfl]
  omega

theorem seqUse_mono {s : SeqArray} {i j : ℕ} {seq : BitVec 24} (h : s[j]? = some seq) :
    ∃ seq', (seqUse s i).1[j]? = some seq' ∧ seq.toNat ≤ seq'.toNat := by
  unfold seqUse
  cases hi : s[i]? with
  | none => exact ⟨seq, h, le_rfl⟩
  | some old =>
    by_cases hm : old = seqMax
    · simp only [if_pos hm]
      exact ⟨seq, h, le_rfl⟩
    · simp only [if_neg hm]
      by_cases hij : i = j
      · subst hij
        have hlt := (List.getElem?_eq_some_iff.mp h).1
        rw [h, Option.some_inj] at hi
        subst hi
        exact ⟨seq + 1, by rw [List.getElem?_set_self hlt], by have := lt_add_one hm; omega⟩
      · exact ⟨seq, by rw [List.getElem?_set_ne hij]; exact h, le_rfl⟩

end Meshx.Sequence
