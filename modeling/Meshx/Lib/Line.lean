import Mathlib

/-! Waiting in line by key: of the elements with one key at most one is served at a time,
the others wait, and when an element leaves, the first one that waits for a key that is not
served takes its turn. -/
namespace Meshx.Lib

structure Line (α : Type*) where
  active : List α
  waiting : List α

namespace Line

variable {α κ : Type*} [DecidableEq α] [DecidableEq κ] (key : α → κ)

/-- No element with this key is served. -/
def free (l : Line α) (x : α) : Bool := l.active.all fun a => key x != key a

/-- The element whose turn it is. -/
def first (l : Line α) : Option α := l.waiting.find? (l.free key)

def leave (l : Line α) (a : α) : Line α := { l with active := l.active.erase a }

def wait (l : Line α) (x : α) : Line α := { l with waiting := l.waiting ++ [x] }

/-- An element is served, whether it has waited or not. -/
def serve (l : Line α) (x : α) : Line α := ⟨l.active ++ [x], l.waiting.erase x⟩

/-- The elements of a list with one key. -/
def ofKey (k : κ) (xs : List α) : List α := xs.filter fun x => key x = k

structure Fair (l : Line α) : Prop where
  apart : (l.active.map key).Nodup
  served : ∀ x ∈ l.waiting, ∃ a ∈ l.active, key x = key a

variable {key} {l : Line α} {a x : α} {k : κ}

omit [DecidableEq α] in
theorem free_iff : l.free key x = true ↔ ∀ a ∈ l.active, key x ≠ key a := by
  simp [free]

omit [DecidableEq α] in
@[simp] theorem ofKey_nil : ofKey key k [] = [] := rfl

omit [DecidableEq α] in
@[simp] theorem ofKey_append (xs ys : List α) :
    ofKey key k (xs ++ ys) = ofKey key k xs ++ ofKey key k ys := List.filter_append ..

/-- The element whose turn it is waited before all others with its key. -/
theorem ofKey_first (h : l.first key = some x) :
    ofKey key k l.waiting = ofKey key k [x] ++ ofKey key k (l.waiting.erase x) := by
  obtain ⟨hfree, before, after, hwaiting, hbefore⟩ := List.find?_eq_some_iff_append.mp h
  have hother : ∀ y ∈ before, key y ≠ key x := by
    intro y hy heq
    have hbusy := hbefore y hy
    rw [free, heq, ← free, hfree] at hbusy
    cases hbusy
  have hnot : x ∉ before := fun hx => hother x hx rfl
  have herase : l.waiting.erase x = before ++ after := by
    rw [hwaiting, List.erase_append_right _ hnot, List.erase_cons_head]
  have hsplit : l.waiting = before ++ ([x] ++ after) := hwaiting
  rw [herase, hsplit]
  simp only [ofKey_append]
  by_cases hk : key x = k
  · have hnone : ofKey key k before = [] := by
      refine List.filter_eq_nil_iff.mpr fun y hy => ?_
      simpa [hk] using hother y hy
    rw [hnone, List.nil_append, List.nil_append]
  · have hnone : ofKey key k [x] = [] := by simp [ofKey, hk]
    rw [hnone, List.nil_append, List.nil_append]

namespace Fair

variable (h : l.Fair key)
include h

omit [DecidableEq α] in
/-- For a key that is not served nothing waits. -/
theorem ofKey_free (hx : l.free key x = true) :
    ofKey key k l.waiting ++ ofKey key k [x] = ofKey key k [x] ++ ofKey key k l.waiting := by
  by_cases hk : key x = k
  · have hnone : ofKey key k l.waiting = [] := by
      refine List.filter_eq_nil_iff.mpr fun y hy => ?_
      obtain ⟨a, ha, hya⟩ := h.served y hy
      have hne := free_iff.mp hx a ha
      rw [hya, ← hk, decide_eq_true_eq]
      exact hne.symm
    rw [hnone, List.nil_append, List.append_nil]
  · have hnone : ofKey key k [x] = [] := by simp [ofKey, hk]
    rw [hnone, List.nil_append, List.append_nil]

omit [DecidableEq α] in
theorem wait (hx : l.free key x = false) : (l.wait x).Fair key where
  apart := h.apart
  served y hy := by
    rcases List.mem_append.mp hy with hy | hy
    · exact h.served y hy
    · obtain rfl := List.mem_singleton.mp hy
      simpa [free, Line.wait] using hx

omit h in
theorem apart_serve (hapart : (l.active.map key).Nodup) (hx : l.free key x = true) :
    ((l.serve x).active.map key).Nodup := by
  simp only [serve, List.map_append, List.map_cons, List.map_nil]
  refine hapart.append (List.nodup_singleton _) ?_
  rw [List.disjoint_singleton, List.mem_map]
  rintro ⟨a, ha, hax⟩
  exact free_iff.mp hx a ha hax.symm

/-- An element that has not waited is served if its key is free. -/
theorem serve (hx : l.free key x = true) : (l.serve x).Fair key where
  apart := apart_serve h.apart hx
  served y hy := by
    obtain ⟨a, ha, hya⟩ := h.served y (List.mem_of_mem_erase hy)
    exact ⟨a, List.mem_append_left _ ha, hya⟩

omit [DecidableEq κ] h in
theorem apart_leave (hapart : (l.active.map key).Nodup) :
    ((l.leave a).active.map key).Nodup :=
  hapart.sublist (List.erase_sublist.map key)

omit [DecidableEq κ] in
/-- What waits for a key that is not that of the one who leaves goes on being served. -/
theorem served_leave {y : α} (hy : y ∈ l.waiting) :
    key y = key a ∨ ∃ b ∈ (l.leave a).active, key y = key b := by
  obtain ⟨b, hb, hyb⟩ := h.served y hy
  by_cases hba : b = a
  · exact .inl (hba ▸ hyb)
  · exact .inr ⟨b, (List.mem_erase_of_ne hba).mpr hb, hyb⟩

/-- One leaves, and nobody has been waiting for it. -/
theorem leave_none (hnone : (l.leave a).first key = none) : (l.leave a).Fair key where
  apart := apart_leave h.apart
  served y hy := by
    have hbusy := List.find?_eq_none.mp hnone y hy
    rw [free_iff] at hbusy
    push Not at hbusy
    exact hbusy

/-- One leaves, and the one whose turn it is has the same key. -/
theorem first_key (hfirst : (l.leave a).first key = some x) : key x = key a := by
  have hfree := free_iff.mp (List.find?_some hfirst)
  refine (h.served_leave (List.mem_of_find?_eq_some hfirst)).resolve_right ?_
  rintro ⟨b, hb, hxb⟩
  exact hfree b hb hxb

/-- One leaves, and the one whose turn it is comes in its place. -/
theorem leave_some (hfirst : (l.leave a).first key = some x) :
    ((l.leave a).serve x).Fair key where
  apart := apart_serve (apart_leave h.apart) (List.find?_some hfirst)
  served y hy := by
    rcases h.served_leave (a := a) (List.mem_of_mem_erase hy) with hya | ⟨b, hb, hyb⟩
    · exact ⟨x, List.mem_append_right _ List.mem_cons_self,
        hya.trans (h.first_key hfirst).symm⟩
    · exact ⟨b, List.mem_append_left _ hb, hyb⟩

end Fair

end Line

end Meshx.Lib
