import Mathlib

/-! Rings of nodes: from a head, one link of each node leads through the nodes of a list and back
to the head, the other link leads through them the other way round. A node is put in between two
neighbours, or taken out, by changing the links of these three. -/
namespace Meshx.Lib

variable {α : Type*}

/-- From `u` on, the links lead through the nodes of a list to `v`. -/
def Path (f : α → Option α) : α → List α → α → Prop
  | u, [], v => f u = some v
  | u, x :: xs, v => f u = some x ∧ Path f x xs v

section Places

variable {head node : α} {ys zs : List α}

theorem getLastD_mem : ys.getLastD head ∈ head :: (ys ++ zs) := by
  rw [← List.cons_append]
  exact List.mem_append_left zs List.getLastD_mem_cons

theorem headD_mem : zs.headD head ∈ head :: (ys ++ zs) := by
  cases zs with
  | nil => exact List.mem_cons_self
  | cons z zs => exact List.mem_cons_of_mem head (List.mem_append_right ys List.mem_cons_self)

theorem getLastD_reverse : ys.reverse.getLastD head = ys.headD head := by
  cases ys <;> simp

theorem headD_reverse : ys.reverse.headD head = ys.getLastD head := by
  simp

theorem cons_middle_perm : (head :: (ys ++ node :: zs)).Perm (node :: head :: (ys ++ zs)) :=
  (List.perm_middle.cons head).trans (.swap node head _)

end Places

namespace Path

variable {f g : α → Option α} {u v node : α} {xs ys zs : List α}

theorem congr (h : ∀ x ∈ u :: xs, g x = f x) (hf : Path f u xs v) : Path g u xs v := by
  induction xs generalizing u with
  | nil => exact (h u List.mem_cons_self).trans hf
  | cons x xs ih =>
    exact ⟨(h u List.mem_cons_self).trans hf.1,
      ih (fun y hy => h y (List.mem_cons_of_mem u hy)) hf.2⟩

/-- The link from the node in front of a place to the one behind it. -/
theorem gap (hf : Path f u (ys ++ zs) v) : f (ys.getLastD u) = some (zs.headD v) := by
  induction ys generalizing u with
  | nil =>
    cases zs with
    | nil => exact hf
    | cons z zs => exact hf.1
  | cons y ys ih =>
    rw [List.getLastD_cons]
    exact ih hf.2

theorem link (hf : Path f u (ys ++ node :: zs) v) : f node = some (zs.headD v) := by
  rw [List.append_cons] at hf
  simpa only [List.getLastD_concat] using hf.gap

/-- The neighbours of a place, where a node is put in. -/
theorem insert (hf : Path f u (ys ++ zs) v) (hnodup : (u :: (ys ++ zs)).Nodup)
    (hbefore : g (ys.getLastD u) = some node) (hnode : g node = some (zs.headD v))
    (hg : ∀ x ∈ u :: (ys ++ zs), x ≠ ys.getLastD u → g x = f x) :
    Path g u (ys ++ node :: zs) v := by
  induction ys generalizing u with
  | nil =>
    refine ⟨hbefore, ?_⟩
    cases zs with
    | nil => exact hnode
    | cons z zs =>
      refine ⟨hnode, hf.2.congr fun x hx => hg x (List.mem_cons_of_mem u hx) ?_⟩
      exact fun h : x = u => (List.nodup_cons.mp hnodup).1 (h ▸ hx)
  | cons y ys ih =>
    rw [List.getLastD_cons] at hbefore hg
    obtain ⟨hu, hrest⟩ := List.nodup_cons.mp hnodup
    refine ⟨?_, ih hf.2 hrest hbefore fun x hx => hg x (List.mem_cons_of_mem u hx)⟩
    exact (hg u List.mem_cons_self fun h => hu (h ▸ getLastD_mem)).trans hf.1

/-- The neighbours of a node, which is taken out. -/
theorem remove (hf : Path f u (ys ++ node :: zs) v) (hnodup : (u :: (ys ++ node :: zs)).Nodup)
    (hbefore : g (ys.getLastD u) = some (zs.headD v))
    (hg : ∀ x ∈ u :: (ys ++ zs), x ≠ ys.getLastD u → g x = f x) :
    Path g u (ys ++ zs) v := by
  induction ys generalizing u with
  | nil =>
    cases zs with
    | nil => exact hbefore
    | cons z zs =>
      refine ⟨hbefore, hf.2.2.congr fun x hx => hg x (List.mem_cons_of_mem u hx) ?_⟩
      exact fun h : x = u => (List.nodup_cons.mp hnodup).1 (h ▸ List.mem_cons_of_mem node hx)
  | cons y ys ih =>
    rw [List.getLastD_cons] at hbefore hg
    obtain ⟨hu, hrest⟩ := List.nodup_cons.mp hnodup
    refine ⟨?_, ih hf.2 hrest hbefore fun x hx => hg x (List.mem_cons_of_mem u hx)⟩
    exact (hg u List.mem_cons_self fun h => hu (h ▸ getLastD_mem)).trans hf.1

end Path

/-- A ring of the head and the nodes of a list, each of them there once. -/
structure IsRing (next prev : α → Option α) (head : α) (xs : List α) : Prop where
  nodup : (head :: xs).Nodup
  next_path : Path next head xs head
  prev_path : Path prev head xs.reverse head

namespace IsRing

variable {next prev next' prev' : α → Option α} {head node : α} {xs ys zs : List α}

theorem congr (h : IsRing next prev head xs) (hnext : ∀ x ∈ head :: xs, next' x = next x)
    (hprev : ∀ x ∈ head :: xs, prev' x = prev x) : IsRing next' prev' head xs where
  nodup := h.nodup
  next_path := h.next_path.congr hnext
  prev_path := h.prev_path.congr fun x hx => hprev x (by simpa using hx)

theorem reverse (h : IsRing next prev head xs) : IsRing prev next head xs.reverse where
  nodup := ((List.reverse_perm xs).cons head).nodup_iff.mpr h.nodup
  next_path := h.prev_path
  prev_path := by
    rw [List.reverse_reverse]
    exact h.next_path

theorem not_mem (h : IsRing next prev head (ys ++ node :: zs)) : node ∉ head :: (ys ++ zs) :=
  (List.nodup_cons.mp (cons_middle_perm.nodup_iff.mp h.nodup)).1

theorem next_eq (h : IsRing next prev head (ys ++ zs)) :
    next (ys.getLastD head) = some (zs.headD head) := h.next_path.gap

theorem prev_eq (h : IsRing next prev head (ys ++ zs)) :
    prev (zs.headD head) = some (ys.getLastD head) := by
  have hrev := h.reverse
  rw [List.reverse_append] at hrev
  have := hrev.next_eq
  rwa [getLastD_reverse, headD_reverse] at this

theorem insert (h : IsRing next prev head (ys ++ zs)) (hnode : node ∉ head :: (ys ++ zs))
    (hbefore : next' (ys.getLastD head) = some node) (hnext : next' node = some (zs.headD head))
    (hbehind : prev' (zs.headD head) = some node) (hprev : prev' node = some (ys.getLastD head))
    (hnext' : ∀ x ∈ head :: (ys ++ zs), x ≠ ys.getLastD head → next' x = next x)
    (hprev' : ∀ x ∈ head :: (ys ++ zs), x ≠ zs.headD head → prev' x = prev x) :
    IsRing next' prev' head (ys ++ node :: zs) where
  nodup := cons_middle_perm.nodup_iff.mpr (List.nodup_cons.mpr ⟨hnode, h.nodup⟩)
  next_path := h.next_path.insert h.nodup hbefore hnext hnext'
  prev_path := by
    have hrev := h.reverse
    rw [List.reverse_append] at hrev
    rw [List.reverse_append, List.reverse_cons, List.append_assoc, List.singleton_append]
    refine hrev.next_path.insert hrev.nodup ?_ ?_ fun x hx hne => hprev' x ?_ ?_
    · rwa [getLastD_reverse]
    · rwa [headD_reverse]
    · simpa [or_comm] using hx
    · rwa [getLastD_reverse] at hne

theorem remove (h : IsRing next prev head (ys ++ node :: zs))
    (hbefore : next' (ys.getLastD head) = some (zs.headD head))
    (hbehind : prev' (zs.headD head) = some (ys.getLastD head))
    (hnext' : ∀ x ∈ head :: (ys ++ zs), x ≠ ys.getLastD head → next' x = next x)
    (hprev' : ∀ x ∈ head :: (ys ++ zs), x ≠ zs.headD head → prev' x = prev x) :
    IsRing next' prev' head (ys ++ zs) where
  nodup := (List.nodup_cons.mp (cons_middle_perm.nodup_iff.mp h.nodup)).2
  next_path := h.next_path.remove h.nodup hbefore hnext'
  prev_path := by
    have hrev := h.reverse
    rw [List.reverse_append, List.reverse_cons, List.append_assoc, List.singleton_append] at hrev
    rw [List.reverse_append]
    refine hrev.next_path.remove hrev.nodup ?_ fun x hx hne => hprev' x ?_ ?_
    · rwa [getLastD_reverse, headD_reverse]
    · simpa [or_comm] using hx
    · rwa [getLastD_reverse] at hne

end IsRing

end Meshx.Lib
