import Mathlib

/-! The words of a text with their places: the longest runs without a separator. -/
namespace Meshx.Lib

variable {α : Type*} (sep : α → Bool)

/-- The words of a text that begins at a place, perhaps within a word. -/
def wordsFrom : ℕ → Bool → List α → List (ℕ × List α)
  | _, _, [] => []
  | p, inWord, c :: s =>
    if sep c then wordsFrom (p + 1) false s
    else if inWord then wordsFrom (p + 1) true s
    else (p, (c :: s).takeWhile (!sep ·)) :: wordsFrom (p + 1) true s

variable {sep} {p : ℕ} {xs w s : List α} {c : α}

theorem wordsFrom_seps (h : ∀ x ∈ xs, sep x = true) :
    wordsFrom sep p false (xs ++ s) = wordsFrom sep (p + xs.length) false s := by
  induction xs generalizing p with
  | nil => rfl
  | cons x xs ih =>
    rw [List.cons_append, wordsFrom, if_pos (h x List.mem_cons_self),
      ih fun y hy => h y (List.mem_cons_of_mem x hy), List.length_cons, Nat.add_assoc,
      Nat.add_comm 1]

theorem wordsFrom_inWord (h : ∀ x ∈ w, sep x = false) :
    wordsFrom sep p true (w ++ s) = wordsFrom sep (p + w.length) true s := by
  induction w generalizing p with
  | nil => rfl
  | cons x w ih =>
    rw [List.cons_append, wordsFrom, if_neg (by simp [h x List.mem_cons_self]), if_pos rfl,
      ih fun y hy => h y (List.mem_cons_of_mem x hy), List.length_cons, Nat.add_assoc,
      Nat.add_comm 1]

theorem takeWhile_word (h : ∀ x ∈ w, sep x = false) :
    (w ++ s).takeWhile (!sep ·) = w ++ s.takeWhile (!sep ·) :=
  List.takeWhile_append_of_pos fun x hx => by rw [h x hx, Bool.not_false]

/-- A word that a separator follows. -/
theorem wordsFrom_word (hw : w ≠ []) (h : ∀ x ∈ w, sep x = false) (hc : sep c = true) :
    wordsFrom sep p false (w ++ c :: s) = (p, w) :: wordsFrom sep (p + w.length + 1) false s := by
  have htake : (w ++ c :: s).takeWhile (!sep ·) = w := by
    rw [takeWhile_word h, List.takeWhile_cons_of_neg (by simp [hc]), List.append_nil]
  cases w with
  | nil => exact absurd rfl hw
  | cons x w =>
    rw [List.cons_append] at htake
    have hrest := wordsFrom_inWord (p := p + 1) (s := c :: s)
      fun y hy => h y (List.mem_cons_of_mem x hy)
    rw [List.cons_append, wordsFrom, htake, if_neg (by simp [h x List.mem_cons_self]),
      if_neg Bool.false_ne_true, hrest, wordsFrom, if_pos hc, List.length_cons, Nat.add_assoc p 1,
      Nat.add_comm 1]

/-- A word at the end of the text. -/
theorem wordsFrom_last (hw : w ≠ []) (h : ∀ x ∈ w, sep x = false) :
    wordsFrom sep p false w = [(p, w)] := by
  have htake : w.takeWhile (!sep ·) = w := by
    rw [← List.append_nil w, takeWhile_word h, List.takeWhile_nil]
  cases w with
  | nil => exact absurd rfl hw
  | cons x w =>
    have hrest := wordsFrom_inWord (p := p + 1) (s := [])
      fun y hy => h y (List.mem_cons_of_mem x hy)
    rw [List.append_nil] at hrest
    rw [wordsFrom, htake, if_neg (by simp [h x List.mem_cons_self]), if_neg Bool.false_ne_true,
      hrest, wordsFrom]

theorem wordsFrom_allSeps (h : ∀ x ∈ xs, sep x = true) : wordsFrom sep p false xs = [] := by
  rw [← List.append_nil xs, wordsFrom_seps h, wordsFrom]

/-- A text is separators only, or has a first word that ends it or that a separator follows. -/
theorem text_cases (sep : α → Bool) (s : List α) :
    (∀ x ∈ s, sep x = true) ∨
    ∃ xs w, (∀ x ∈ xs, sep x = true) ∧ w ≠ [] ∧ (∀ x ∈ w, sep x = false) ∧
      (s = xs ++ w ∨ ∃ c t, sep c = true ∧ s = xs ++ (w ++ c :: t)) := by
  obtain ⟨t, ht⟩ : ∃ t, t = s.dropWhile sep := ⟨_, rfl⟩
  have hs : s = s.takeWhile sep ++ t := by rw [ht, List.takeWhile_append_dropWhile]
  have hseps : ∀ x ∈ s.takeWhile sep, sep x = true := fun x hx => List.mem_takeWhile_imp hx
  have hword : ∀ x ∈ t.takeWhile (!sep ·), sep x = false := fun x hx => by
    simpa using List.mem_takeWhile_imp hx
  have htw : t = t.takeWhile (!sep ·) ++ t.dropWhile (!sep ·) :=
    List.takeWhile_append_dropWhile.symm
  cases t with
  | nil =>
    left
    rw [hs, List.append_nil]
    exact hseps
  | cons x t =>
    have hx : sep x = false := by
      have hne : s.dropWhile sep ≠ [] := by
        rw [← ht]
        exact List.cons_ne_nil x t
      have hhead := List.head_dropWhile_not sep hne
      simp only [← ht, List.head_cons] at hhead
      exact hhead
    refine .inr ⟨s.takeWhile sep, (x :: t).takeWhile (!sep ·), hseps, ?_, hword, ?_⟩
    · rw [List.takeWhile_cons_of_pos (by simp [hx])]
      exact List.cons_ne_nil _ _
    · cases hrest : (x :: t).dropWhile (!sep ·) with
      | nil =>
        left
        rw [hrest, List.append_nil] at htw
        rw [← htw]
        exact hs
      | cons c u =>
        right
        refine ⟨c, u, ?_, ?_⟩
        · have hne : (x :: t).dropWhile (!sep ·) ≠ [] := by
            rw [hrest]
            exact List.cons_ne_nil c u
          have hhead := List.head_dropWhile_not (!sep ·) hne
          simp only [hrest, List.head_cons] at hhead
          simpa using hhead
        · rw [← hrest, ← htw]
          exact hs

end Meshx.Lib
