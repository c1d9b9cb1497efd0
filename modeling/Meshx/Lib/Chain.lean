import Mathlib

/-! Chains of nodes, each with a link to the next one and the last with none, and the queues that
such chains stand for. -/
namespace Meshx.Lib

variable {α κ : Type*}

/-- From a pointer on, the links lead through the nodes of a list, and then there is none. -/
def Chain (next : α → Option α) : Option α → List α → Prop
  | p, [] => p = none
  | p, x :: xs => p = some x ∧ Chain next (next x) xs

namespace Chain

variable {f g : α → Option α} {p : Option α} {x : α} {xs ys : List α}

theorem congr (h : ∀ x ∈ xs, g x = f x) (hf : Chain f p xs) : Chain g p xs := by
  induction xs generalizing p with
  | nil => exact hf
  | cons x xs ih =>
    refine ⟨hf.1, ?_⟩
    rw [h x List.mem_cons_self]
    exact ih (fun y hy => h y (List.mem_cons_of_mem x hy)) hf.2

theorem head? (h : Chain f p xs) : p = xs.head? := by
  cases xs with
  | nil => exact h
  | cons x xs => exact h.1

variable [DecidableEq α]

/-- A node that is not on the chain may be linked anywhere. -/
theorem update (h : Chain f p xs) (hx : x ∉ xs) (q : Option α) :
    Chain (Function.update f x q) p xs := by
  apply h.congr
  intro y hy
  apply Function.update_of_ne
  rintro rfl
  exact hx hy

/-- The last node is linked to a new one. -/
theorem link {last new : α} (h : Chain f p (xs ++ [last])) (hnodup : (xs ++ [last]).Nodup)
    (hnew : f new = none) (hne : new ≠ last) :
    Chain (Function.update f last (some new)) p (xs ++ [last] ++ [new]) := by
  induction xs generalizing p with
  | nil =>
    refine ⟨h.1, ?_, ?_⟩
    · exact Function.update_self ..
    · rw [Function.update_of_ne hne]
      exact hnew
  | cons x xs ih =>
    have hx : x ≠ last := by
      rintro rfl
      simp at hnodup
    refine ⟨h.1, ?_⟩
    rw [Function.update_of_ne hx]
    exact ih h.2 hnodup.of_cons

end Chain

/-- What is done with queues, each of which has a name. -/
inductive QueueOp (κ α : Type*)
  | init (k : κ)
  | push (k : κ) (x : α)
  | pop (k : κ)
  | peek (k : κ)

variable [DecidableEq κ]

/-- First in, first out: what is returned, and what the queues hold then. -/
def fifo (q : κ → List α) : QueueOp κ α → Option α × (κ → List α)
  | .init k => (none, Function.update q k [])
  | .push k x => (none, Function.update q k (q k ++ [x]))
  | .pop k => ((q k).head?, Function.update q k (q k).tail)
  | .peek k => ((q k).head?, q)

/-- Nothing is pushed that is in some queue. -/
def Outside (q : κ → List α) : QueueOp κ α → Prop
  | .push _ x => ∀ k, x ∉ q k
  | _ => True

/-- No element is in two queues, or twice in one. -/
structure Apart (q : κ → List α) : Prop where
  nodup : ∀ k, (q k).Nodup
  disjoint : ∀ k l, k ≠ l → (q k).Disjoint (q l)

omit [DecidableEq κ] in
theorem Apart.mem_unique {q : κ → List α} (h : Apart q) {k l : κ} {x : α} (hk : x ∈ q k)
    (hl : x ∈ q l) : k = l := by
  by_contra hne
  exact h.disjoint k l hne hk hl

theorem Apart.shrink {q : κ → List α} (h : Apart q) {k : κ} {xs : List α}
    (hsub : xs.Sublist (q k)) : Apart (Function.update q k xs) where
  nodup l := by
    by_cases hl : l = k
    · rw [hl, Function.update_self]
      exact hsub.nodup (h.nodup k)
    · rw [Function.update_of_ne hl]
      exact h.nodup l
  disjoint l m hlm x hl hm := by
    have hmem : ∀ j, x ∈ Function.update q k xs j → x ∈ q j := by
      intro j hj
      by_cases hjk : j = k
      · rw [hjk, Function.update_self] at hj
        rw [hjk]
        exact hsub.subset hj
      · rwa [Function.update_of_ne hjk] at hj
    exact h.disjoint l m hlm (hmem l hl) (hmem m hm)

theorem Apart.push {q : κ → List α} (h : Apart q) {k : κ} {x : α} (hx : ∀ k, x ∉ q k) :
    Apart (Function.update q k (q k ++ [x])) where
  nodup l := by
    by_cases hl : l = k
    · rw [hl, Function.update_self]
      exact List.nodup_append'.mpr ⟨h.nodup k, List.nodup_singleton x, by simpa using hx k⟩
    · rw [Function.update_of_ne hl]
      exact h.nodup l
  disjoint l m hlm y hl hm := by
    have hmem : ∀ j, y ∈ Function.update q k (q k ++ [x]) j → y ∈ q j ∨ j = k ∧ y = x := by
      intro j hj
      by_cases hjk : j = k
      · rw [hjk, Function.update_self, List.mem_append, List.mem_singleton] at hj
        rcases hj with hj | hj
        · exact .inl (hjk ▸ hj)
        · exact .inr ⟨hjk, hj⟩
      · rw [Function.update_of_ne hjk] at hj
        exact .inl hj
    rcases hmem l hl with hl | ⟨hlk, hy⟩ <;> rcases hmem m hm with hm | ⟨hmk, hy'⟩
    · exact h.disjoint l m hlm hl hm
    · exact hx l (hy' ▸ hl)
    · exact hx m (hy ▸ hm)
    · exact hlm (hlk.trans hmk.symm)

/-- The queues stay apart. -/
theorem Apart.fifo {q : κ → List α} (h : Apart q) {op : QueueOp κ α} (hop : Outside q op) :
    Apart (Lib.fifo q op).2 := by
  cases op with
  | init k => exact h.shrink (List.nil_sublist _)
  | push k x => exact h.push hop
  | pop k => exact h.shrink (List.tail_sublist _)
  | peek k => exact h

end Meshx.Lib
