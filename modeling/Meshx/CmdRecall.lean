import Meshx.CmdEditor

/-! The lines that were entered last are recalled, and the command line as a whole is an editor. -/
namespace Meshx.Cmd

open Lib

variable {s : CmdInfo} {e : Editor}

namespace Editor

/-- So many lines back from the edited one. -/
structure Back (e : Editor) (j : ℕ) (e' : Editor) : Prop where
  history : e'.history = e.history
  past : e'.past = if j = 0 then none else some (j - 1, e.line)
  line : (e.line :: e.history)[j]? = some e'.line

variable {e' : Editor} {j k : ℕ}

theorem Back.start (hpast : e.past = none) : e.Back 0 e := ⟨rfl, hpast, rfl⟩

theorem Back.previous (h : e.Back j e') : e.Back (min (j + 1) e.history.length) e'.previous := by
  have hj : j ≤ e.history.length := Nat.le_of_lt_succ (List.getElem?_eq_some_iff.mp h.line).1
  have hindex : e'.past.elim 0 (·.1 + 1) = j := by
    rw [h.past]
    split_ifs with hzero
    · exact hzero.symm
    · exact Nat.succ_pred hzero
  have hsaved : e'.past.elim e'.line (·.2) = e.line := by
    rw [h.past]
    split_ifs with hzero
    · have hline := h.line
      rw [hzero] at hline
      exact (Option.some.inj hline).symm
    · rfl
  rw [Editor.previous, hindex, hsaved, h.history]
  rcases hj.lt_or_eq with hlt | rfl
  · rw [min_eq_left hlt, List.getElem?_eq_getElem hlt]
    exact ⟨h.history, rfl, List.getElem?_eq_getElem (Nat.succ_lt_succ hlt)⟩
  · rw [min_eq_right (Nat.le_succ _), List.getElem?_eq_none le_rfl]
    exact h

theorem Back.next (h : e.Back j e') : e.Back (j - 1) e'.next := by
  have hpast := h.past
  have hline := h.line
  cases j with
  | zero =>
    rw [if_pos rfl] at hpast
    rw [Editor.next, hpast]
    exact h
  | succ i =>
    rw [if_neg (Nat.succ_ne_zero i), Nat.succ_sub_one] at hpast
    rw [Nat.succ_sub_one]
    cases i with
    | zero =>
      rw [Editor.next, hpast]
      exact ⟨h.history, rfl, rfl⟩
    | succ i =>
      have hi : i < e.history.length := by
        have hlt := (List.getElem?_eq_some_iff.mp hline).1
        rw [List.length_cons] at hlt
        omega
      have hshown : e'.history[i]?.getD [] = e.history[i] := by
        rw [h.history, List.getElem?_eq_getElem hi, Option.getD_some]
      have hnext : e'.next = e'.showLine e.history[i] (some (i, e.line)) := by
        rw [Editor.next, hpast, ← hshown]
      rw [hnext]
      exact ⟨h.history, rfl, List.getElem?_eq_getElem (Nat.succ_lt_succ hi)⟩

theorem Back.previous_keys (h : e.Back j e') (k : ℕ) :
    e.Back (min (j + k) e.history.length) ((List.replicate k 44).foldl key e') := by
  have hj : j ≤ e.history.length := Nat.le_of_lt_succ (List.getElem?_eq_some_iff.mp h.line).1
  induction k generalizing j e' with
  | zero =>
    rw [Nat.add_zero, min_eq_left hj]
    exact h
  | succ k ih =>
    have hkey : e'.key 44 = e'.previous := rfl
    have hrest := ih h.previous (Nat.min_le_right _ _)
    have hcount : min (min (j + 1) e.history.length + k) e.history.length =
        min (j + (k + 1)) e.history.length := by omega
    rw [hcount] at hrest
    rw [List.replicate_succ, List.foldl_cons, hkey]
    exact hrest

theorem Back.next_keys (h : e.Back j e') (k : ℕ) :
    e.Back (j - k) ((List.replicate k 46).foldl key e') := by
  induction k generalizing j e' with
  | zero => exact h
  | succ k ih =>
    have hkey : e'.key 46 = e'.next := rfl
    have hrest := ih h.next
    rw [Nat.sub_sub, Nat.add_comm 1 k] at hrest
    rw [List.replicate_succ, List.foldl_cons, hkey]
    exact hrest

/-- No remembered line is shown before one is asked for. -/
theorem past_none {keys : List Byte} (hkeys : ∀ c ∈ keys, c ≠ 44 ∧ c ≠ 46) (h : e.past = none) :
    (keys.foldl key e).past = none := by
  induction keys generalizing e with
  | nil => exact h
  | cons c keys ih =>
    obtain ⟨hback, hforward⟩ := hkeys c List.mem_cons_self
    refine ih (fun d hd => hkeys d (List.mem_cons_of_mem c hd)) ?_
    rw [key, if_neg hback, if_neg hforward]
    split_ifs
    · rfl
    · rw [Editor.backspace]
      split_ifs <;> exact h
    · exact h
    · exact h
    · rw [Editor.insert]
      split_ifs <;> exact h

end Editor

/-- The command line has the line, its length and the cursor of the editor, within the bounds. -/
structure Shows (s : CmdInfo) (e : Editor) : Prop where
  line : s.cmd.take s.cmdLen = e.line
  len : s.cmdLen = e.line.length
  cursor : s.cursorPos = e.cursor
  cursor_le : s.cursorPos ≤ s.cmdLen
  len_le : s.cmdLen ≤ cmdMaxLen

/-- So many steps back show the line that was entered so many lines before, and as many steps
forward the line that was edited. -/
def Recalls (s : CmdInfo) (e : Editor) : Prop :=
  ∀ k, ∃ t u, cmdCollect s (.replicate k 44) = .ok t ∧ cmdCollect t (.replicate k 46) = .ok u ∧
    (0 < k → ∀ line, e.history[k - 1]? = some line → t.cmd.take t.cmdLen = line) ∧
    u.cmd.take u.cmdLen = e.line

/-- A line was entered, and no remembered one was asked for since. -/
def EnteredLast (keys : List Byte) : Prop :=
  ∃ before c after, keys = before ++ c :: after ∧ isEnter c = true ∧ ∀ x ∈ after, x ≠ 44 ∧ x ≠ 46

theorem Follows.shows (h : Follows s e) : Shows s e where
  line := by
    rw [h.len]
    exact (List.prefix_iff_eq_take.mp h.line).symm
  len := h.len
  cursor := h.cursor
  cursor_le := by
    rw [h.cursor, h.len]
    exact h.cursor_le
  len_le := by
    rw [h.len]
    exact h.short

theorem Follows.recalls (h : Follows s e) (hpast : e.past = none) : Recalls s e := by
  intro k
  have hkeys (c : Byte) (hc : isEnter c = false) : ∀ x ∈ List.replicate k c, isEnter x = false :=
    fun x hx => by rw [List.eq_of_mem_replicate hx, hc]
  obtain ⟨t, hback, ht⟩ := h.run (allowed_of_keys (hkeys 44 rfl) s)
  obtain ⟨u, hforward, hu⟩ := ht.run (allowed_of_keys (hkeys 46 rfl) t)
  have hfirst := (Editor.Back.start hpast).previous_keys k
  have hlast := hfirst.next_keys k
  refine ⟨t, u, hback, hforward, fun hk line hline => ?_, ?_⟩
  · have hlt : k - 1 < e.history.length := (List.getElem?_eq_some_iff.mp hline).1
    have hcount : min (0 + k) e.history.length = k - 1 + 1 := by omega
    have hshown := hfirst.line
    rw [hcount, List.getElem?_cons_succ, hline] at hshown
    exact ht.shows.line.trans (Option.some.inj hshown).symm
  · have hcount : min (0 + k) e.history.length - k = 0 := by omega
    have hshown := hlast.line
    rw [hcount] at hshown
    exact hu.shows.line.trans (Option.some.inj hshown).symm

theorem EnteredLast.past {keys : List Byte} (h : EnteredLast keys) :
    (Editor.edit keys).past = none := by
  obtain ⟨before, c, after, rfl, henter, hafter⟩ := h
  have hkey (e : Editor) : e.key c = e.enter := by rw [Editor.key, if_pos henter]
  rw [Editor.edit, List.foldl_append, List.foldl_cons, hkey]
  exact Editor.past_none hafter rfl

/-- Nothing is read or written out of bounds, the command line shows what the editor has, and the
lines that were entered last can be recalled. -/
def Edits (keys : List Byte) : Prop :=
  ∃ s, cmdCollect .init keys = .ok s ∧ Shows s (Editor.edit keys) ∧
    (EnteredLast keys → Recalls s (Editor.edit keys))

/-- The command line is an editor in every run of keys in which no empty line is entered while a
remembered one is shown, and no line with too many words. -/
theorem collect_edits {keys : List Byte} (hall : RunAll collectChar Allowed .init keys) :
    Edits keys := by
  obtain ⟨s, hrun, hfollows⟩ := init_follows.run hall
  exact ⟨s, hrun, hfollows.shows, fun hlast => hfollows.recalls hlast.past⟩

/-- Two lines are entered, and a third one is edited in the middle. -/
theorem collect_edits_example : Edits [97, 98, 13, 99, 13, 100, 101, 91, 102, 127] :=
  collect_edits (by decide +kernel)

/-- A remembered line is emptied and entered, and the line that was entered last is asked for. -/
def emptied : List Byte := [97, 13, 44, 127, 13, 44]

/-- The words of a line that has one too many. -/
def crowded : List Byte := (List.replicate 22 [97, space]).flatten ++ [13]

theorem collect_strays : ¬ Edits emptied ∧ ¬ Edits crowded := by
  constructor
  · rintro ⟨s, hrun, hshows, -⟩
    obtain ⟨t, ht, hempty⟩ : ∃ t, cmdCollect .init emptied = .ok t ∧ t.cmd.take t.cmdLen = [] :=
      observe (by decide +kernel)
    have hline : (Editor.edit emptied).line = [97] := by decide
    rw [hrun] at ht
    cases ht
    exact absurd (hline.symm.trans (hshows.line.symm.trans hempty)) (by decide)
  · rintro ⟨s, hrun, -⟩
    have hfault : cmdCollect .init crowded = .error .badWrite := eq_of_faultOf (by decide +kernel)
    rw [hfault] at hrun
    cases hrun

end Meshx.Cmd
