import Meshx.CmdCollect

/-! The command line against an editor: every key does what it does there, as long as no empty line
is entered while a remembered one is shown and every line has few enough words. -/
namespace Meshx.Cmd

open Lib

variable {buf before behind line m src dst : List Byte} {c x y : Byte} {p n i rounds len cursor : ℕ}
  {s s' : CmdInfo} {e : Editor}

section Buffers

theorem putChar_append : putChar (before ++ x :: behind) before.length c =
    .ok (before ++ c :: behind) := by
  rw [putChar, if_pos (by simp), List.set_append_right _ _ le_rfl, Nat.sub_self]
  rfl

/-- A line is copied to the start of a buffer. -/
theorem copyLine_eq (hsrc : line <+: src) (hdst : line.length ≤ dst.length) :
    ∃ buf, copyLine dst src line.length = .ok buf ∧ buf.length = dst.length ∧ line <+: buf := by
  have hle := hsrc.length_le
  refine ⟨line ++ dst.drop line.length, ?_, ?_, List.prefix_append _ _⟩
  · rw [copyLine, if_neg (by omega), if_neg (by omega), ← List.prefix_iff_eq_take.mp hsrc]
  · rw [List.length_append, List.length_drop]
    omega

/-- What is written behind a line leaves it. -/
theorem putChar_behind (hline : line <+: buf) (hroom : line.length < buf.length) :
    ∃ buf', putChar buf line.length c = .ok buf' ∧ buf'.length = buf.length ∧ line <+: buf' := by
  obtain ⟨post, rfl⟩ := hline
  cases post with
  | nil =>
    rw [List.append_nil] at hroom
    exact absurd hroom (Nat.lt_irrefl _)
  | cons x behind => exact ⟨_, putChar_append, by simp, List.prefix_append _ _⟩

theorem ttySend_ok (h : p + n ≤ buf.length) : ttySend buf p n = .ok () :=
  if_neg (Nat.not_lt.mpr h)

/-- The characters behind the cursor move one place forward, with the one behind the line. -/
theorem shiftForward_eq (hcursor : cursor + i = before.length + 1)
    (hrounds : rounds = m.length + 1) :
    shiftForward cursor rounds i (before ++ x :: (m ++ y :: behind)) =
      .ok (before ++ (m ++ y :: y :: behind)) := by
  induction m generalizing rounds i before x with
  | nil =>
    subst hrounds
    have hread : charAt ((before ++ [x]) ++ y :: behind) (before ++ [x]).length = .ok y :=
      charAt_append
    rw [List.append_assoc, List.length_append, List.length_singleton, ← hcursor] at hread
    rw [List.nil_append, List.length_nil, shiftForward]
    rw [show charAt (before ++ x :: y :: behind) (cursor + i) = .ok y from hread, ok_bind, hcursor,
      Nat.add_sub_cancel, putChar_append]
    rfl
  | cons z m ih =>
    subst hrounds
    have hread : charAt ((before ++ [x]) ++ z :: (m ++ y :: behind)) (before ++ [x]).length =
        .ok z := charAt_append
    rw [List.append_assoc, List.length_append, List.length_singleton, ← hcursor] at hread
    have hrest : shiftForward cursor (m.length + 1) (i + 1)
        ((before ++ [z]) ++ z :: (m ++ y :: behind)) =
          .ok ((before ++ [z]) ++ (m ++ y :: y :: behind)) :=
      ih (by rw [List.length_append, List.length_singleton]; omega) rfl
    rw [List.append_assoc, List.append_assoc] at hrest
    rw [List.cons_append, List.length_cons, shiftForward]
    rw [show charAt (before ++ x :: z :: (m ++ y :: behind)) (cursor + i) = .ok z from hread,
      ok_bind, hcursor, Nat.add_sub_cancel, putChar_append]
    exact hrest

/-- The characters behind the cursor move one place back. -/
theorem shiftBack_eq (hlen : len - i = before.length + m.length) (hrounds : rounds = m.length) :
    ∃ z, shiftBack len rounds i (before ++ (m ++ y :: behind)) =
      .ok (before ++ z :: (m ++ behind)) := by
  induction rounds generalizing m i y behind with
  | zero =>
    obtain rfl := List.length_eq_zero_iff.mp hrounds.symm
    exact ⟨y, rfl⟩
  | succ rounds ih =>
    obtain ⟨v, z, rfl⟩ : ∃ v z, m = v ++ [z] := by
      have hne : m ≠ [] := fun h => by rw [h] at hrounds; cases hrounds
      exact ⟨_, _, (List.dropLast_concat_getLast hne).symm⟩
    rw [List.length_append, List.length_singleton] at hlen hrounds
    have hread : charAt ((before ++ v) ++ z :: y :: behind) (before ++ v).length = .ok z :=
      charAt_append
    have hput : putChar ((before ++ (v ++ [z])) ++ y :: behind) (before ++ (v ++ [z])).length z =
        .ok ((before ++ (v ++ [z])) ++ z :: behind) := putChar_append
    have hfrom : len - i - 1 = (before ++ v).length := by
      rw [List.length_append]
      omega
    have hto : len - i = (before ++ (v ++ [z])).length := by
      simp only [List.length_append, List.length_singleton]
      omega
    have hstep : ∃ h, shiftBack len rounds (i + 1) (before ++ (v ++ z :: z :: behind)) =
        .ok (before ++ h :: (v ++ z :: behind)) := ih (by omega) (by omega)
    obtain ⟨h, hrest⟩ := hstep
    refine ⟨h, ?_⟩
    rw [shiftBack]
    have hsame : before ++ (v ++ [z] ++ y :: behind) = (before ++ v) ++ z :: y :: behind := by simp
    have hsame' : before ++ (v ++ [z] ++ y :: behind) = (before ++ (v ++ [z])) ++ y :: behind := by
      simp
    have hsame'' : (before ++ (v ++ [z])) ++ z :: behind = before ++ (v ++ z :: z :: behind) := by
      simp
    rw [hfrom, hsame, hread, ok_bind, ← hsame, hsame', hto, hput, hsame'']
    refine hrest.trans ?_
    simp

theorem putNul_length {buf' : List Byte} (h : putNul buf p = .ok buf') :
    buf'.length = buf.length := by
  rw [putNul] at h
  split_ifs at h with hp
  cases h
  exact List.length_set

theorem parseParams_length {fuel : ℕ} {d : ParsedData} {r : List Byte × ParsedData}
    (h : parseParams len fuel buf d p = .ok r) : r.1.length = buf.length := by
  induction fuel generalizing buf d p with
  | zero => cases h
  | succ fuel ih =>
    rw [parseParams] at h
    obtain ⟨found, -, h⟩ := bind_ok h
    cases found with
    | none =>
      cases h
      rfl
    | some start =>
      obtain ⟨q, -, h⟩ := bind_ok h
      obtain ⟨buf', hput, h⟩ := bind_ok h
      obtain ⟨d', -, h⟩ := bind_ok h
      rw [← putNul_length hput]
      split_ifs at h with hend
      · cases h
        rfl
      · exact ih h

theorem cmdParse_length {r : Bool × List Byte × ParsedData} (h : cmdParse buf len = .ok r) :
    r.2.1.length = buf.length := by
  rw [cmdParse] at h
  obtain ⟨found, -, h⟩ := bind_ok h
  cases found with
  | none =>
    cases h
    rfl
  | some start =>
    obtain ⟨q, -, h⟩ := bind_ok h
    obtain ⟨buf', hput, h⟩ := bind_ok h
    rw [← putNul_length hput]
    split_ifs at h with hend
    · cases h
      rfl
    · obtain ⟨params, hparams, h⟩ := bind_ok h
      cases h
      exact parseParams_length hparams

theorem historyAt_ok {i : ℕ} (h : i < 3) : historyAt i = .ok () := if_pos h

theorem strLen_ok {w u : List Byte} (h : (w ++ [0]) <+: u) : ∃ n, strLen u = .ok n := by
  obtain ⟨post, rfl⟩ := h
  induction w with
  | nil => exact ⟨0, rfl⟩
  | cons x w ih =>
    obtain ⟨n, hn⟩ := ih
    rw [List.cons_append, List.cons_append, strLen]
    split_ifs
    · exact ⟨0, rfl⟩
    · exact ⟨n + 1, by rw [hn]; rfl⟩

theorem cmdExecute_ok {d : ParsedData} {w : ℕ × List Byte} (hcmd : d.pcmd = some w.1)
    (hstring : StringAt buf w) : cmdExecute buf d = .ok () := by
  obtain ⟨n, hn⟩ := strLen_ok hstring
  rw [cmdExecute, hcmd]
  change discard (strLen (buf.drop w.1)) = _
  rw [hn]
  rfl

end Buffers

/-- The words of a line are no more than there is room for, the empty one that is found behind a
lone space among them. -/
def Fits (line : List Byte) : Prop :=
  (words line ++ trailing 0 line).length ≤ cmdMaxParameters + 1
  deriving Decidable

theorem cmdParse_fits (hne : line ≠ []) (hbehind : behind ≠ []) (hfits : Fits line) :
    ∃ ok buf d, cmdParse (line ++ 0 :: behind) line.length = .ok (ok, buf, d) ∧
      (ok = true → cmdExecute buf d = .ok ()) := by
  by_cases hspaces : ∀ c ∈ line, c = space
  · exact ⟨_, _, _, cmdParse_spaces hne hspaces, fun hf => by cases hf⟩
  · obtain ⟨cmd, params, hwords, hroom, -⟩ := cmdParse_words hbehind hspaces
    rw [Fits, hwords, List.cons_append, List.length_cons] at hfits
    obtain ⟨buf, d, hparse, hcmd, -, hstrings⟩ := hroom (Nat.le_of_succ_le_succ hfits)
    refine ⟨_, _, _, hparse, fun _ => cmdExecute_ok hcmd (hstrings cmd ?_).2⟩
    rw [hwords]
    exact List.mem_cons_self

/-- The place in the ring of the line that was entered so many lines before the last one. -/
def CmdInfo.slot (s : CmdInfo) (k : ℕ) : ℕ :=
  (s.historySaveIndex + cmdMaxHistorySize - k) % cmdMaxHistorySize

/-- The ring remembers the lines. -/
structure Ring (s : CmdInfo) (history : List (List Byte)) : Prop where
  buffers : ∀ i, (s.cmdHistory i).length = cmdBufSize
  short : ∀ line ∈ history, line.length ≤ cmdMaxLen
  held : ∀ k line, history[k]? = some line →
    s.cmdHistoryLen (s.slot k) = line.length ∧ line <+: s.cmdHistory (s.slot k)
  empty : s.historySaveIndex = cmdMaxHistorySize ↔ history = []
  index : history ≠ [] → s.historySaveIndex < cmdMaxHistorySize
  opened : s.historyLooped = false → history ≠ [] → history.length = s.historySaveIndex + 1
  closed : s.historyLooped = true → history.length = cmdMaxHistorySize

/-- The marks of the traversal: no remembered line is shown, or the one so many lines back. -/
def Traverses (s : CmdInfo) (history : List (List Byte)) : Option (ℕ × List Byte) → Prop
  | none => s.historyTraversing = false ∧ (history ≠ [] →
      s.historyTraverseIndex = s.historySaveIndex ∧ s.historyTraversedToHead = false ∧
        s.historyTraversedToTail = true)
  | some (k, saved) => s.historyTraversing = true ∧ s.historyTraversedToTail = false ∧
      k < history.length ∧ s.historyTraverseIndex = s.slot k ∧ saved <+: s.cmdTemp ∧
        s.cmdTempLen = saved.length ∧ saved.length ≤ cmdMaxLen ∧
          (s.historyTraversedToHead = true → k + 1 = history.length)

/-- The command line is as the editor has it. -/
structure Follows (s : CmdInfo) (e : Editor) : Prop where
  size : s.cmd.length = cmdBufSize
  len : s.cmdLen = e.line.length
  short : e.line.length ≤ cmdMaxLen
  line : e.line <+: s.cmd
  cursor : s.cursorPos = e.cursor
  cursor_le : e.cursor ≤ e.line.length
  temp : s.cmdTemp.length = cmdBufSize
  ring : Ring s e.history
  past : Traverses s e.history e.past

theorem Ring.same {history : List (List Byte)} (h : Ring s history)
    (hbuf : s'.cmdHistory = s.cmdHistory) (hlen : s'.cmdHistoryLen = s.cmdHistoryLen)
    (hsave : s'.historySaveIndex = s.historySaveIndex)
    (hlooped : s'.historyLooped = s.historyLooped) :
    Ring s' history := by
  have hslot (k : ℕ) : s'.slot k = s.slot k := by rw [CmdInfo.slot, CmdInfo.slot, hsave]
  refine ⟨?_, h.short, ?_, ?_, ?_, ?_, ?_⟩
  · rw [hbuf]
    exact h.buffers
  · intro k line hk
    rw [hslot, hlen, hbuf]
    exact h.held k line hk
  · rw [hsave]
    exact h.empty
  · rw [hsave]
    exact h.index
  · rw [hlooped, hsave]
    exact h.opened
  · rw [hlooped]
    exact h.closed

/-- What is changed in the line alone. -/
theorem Follows.edited (h : Follows s e) (line' : List Byte) (cursor' : ℕ)
    (hsize : buf.length = cmdBufSize) (hline : line' <+: buf) (hshort : line'.length ≤ cmdMaxLen)
    (hcursor : cursor' ≤ line'.length) :
    Follows { s with cmd := buf, cmdLen := line'.length, cursorPos := cursor' }
      { e with line := line', cursor := cursor' } where
  size := hsize
  len := rfl
  short := hshort
  line := hline
  cursor := rfl
  cursor_le := hcursor
  temp := h.temp
  ring := h.ring.same rfl rfl rfl rfl
  past := by
    have hpast := h.past
    cases hp : e.past with
    | none =>
      rw [hp] at hpast
      exact hpast
    | some x =>
      rw [hp] at hpast
      exact hpast

section Keys

variable (h : Follows s e)
include h

theorem Follows.left : ∃ s', s.left = .ok s' ∧ Follows s' { e with cursor := e.cursor - 1 } := by
  have hcursor := h.cursor
  have hle := h.cursor_le
  have hedit := h.edited e.line (e.cursor - 1) h.size h.line h.short (by omega)
  rw [← h.len] at hedit
  rw [CmdInfo.left]
  split_ifs with hpos
  · refine ⟨_, rfl, ?_⟩
    rw [hcursor]
    exact hedit
  · refine ⟨s, rfl, ?_⟩
    have hzero : e.cursor - 1 = s.cursorPos := by omega
    rw [hzero] at hedit ⊢
    exact hedit

theorem Follows.right : ∃ s', s.right = .ok s' ∧
    Follows s' { e with cursor := min (e.cursor + 1) e.line.length } := by
  have hcursor := h.cursor
  have hle := h.cursor_le
  have hlen := h.len
  have hshort := h.short
  have hsize : s.cmd.length = 162 := h.size
  have hedit := h.edited e.line (min (e.cursor + 1) e.line.length) h.size h.line h.short
    (Nat.min_le_right _ _)
  rw [← h.len] at hedit
  rw [CmdInfo.right]
  split_ifs with hlt
  · have hshort' : e.line.length ≤ 160 := hshort
    rw [ttySend_ok (by omega)]
    refine ⟨_, rfl, ?_⟩
    have hmin : min (e.cursor + 1) s.cmdLen = s.cursorPos + 1 := by omega
    rw [← h.len]
    rw [hmin] at hedit ⊢
    exact hedit
  · refine ⟨s, rfl, ?_⟩
    have hmin : min (e.cursor + 1) s.cmdLen = s.cursorPos := by omega
    rw [← h.len]
    rw [hmin] at hedit ⊢
    exact hedit

/-- Behind the line there is room for two more characters. -/
theorem Follows.room : ∃ y z behind, s.cmd = e.line ++ y :: z :: behind := by
  have hsize : s.cmd.length = 162 := h.size
  have hshort : e.line.length ≤ 160 := h.short
  obtain ⟨post, hpost⟩ := h.line
  rw [← hpost, List.length_append] at hsize
  cases post with
  | nil =>
    rw [List.length_nil] at hsize
    omega
  | cons y post =>
    cases post with
    | nil =>
      rw [List.length_singleton] at hsize
      omega
    | cons z behind => exact ⟨y, z, behind, hpost.symm⟩

theorem Follows.backspace : ∃ s', s.backspace = .ok s' ∧ Follows s' e.backspace := by
  have hcursor := h.cursor
  have hle := h.cursor_le
  have hlen := h.len
  have hsize : s.cmd.length = 162 := h.size
  have hshort : e.line.length ≤ 160 := h.short
  rw [CmdInfo.backspace, Editor.backspace]
  by_cases hzero : e.cursor = 0
  · rw [if_pos hzero, if_neg (by omega)]
    exact ⟨s, rfl, h⟩
  rw [if_neg hzero, if_pos (by omega)]
  obtain ⟨y, z, behind, hcmd⟩ := h.room
  obtain ⟨a, x, m, hline, ha⟩ : ∃ a x m, e.line = a ++ x :: m ∧ e.cursor = a.length + 1 := by
    have hlt : e.cursor - 1 < e.line.length := by omega
    refine ⟨e.line.take (e.cursor - 1), e.line[e.cursor - 1], e.line.drop (e.cursor - 1 + 1),
      ?_, ?_⟩
    · rw [List.getElem_cons_drop, List.take_append_drop]
    · rw [List.length_take]
      omega
  have hlenm : e.line.length = a.length + (m.length + 1) := by
    rw [hline, List.length_append, List.length_cons]
  have hbuf : s.cmd = a ++ x :: (m ++ y :: z :: behind) := by
    rw [hcmd, hline]
    simp
  have hshift : shiftForward s.cursorPos (s.cmdLen - s.cursorPos + 1) 0 s.cmd =
      .ok (a ++ (m ++ y :: y :: z :: behind)) := by
    rw [hbuf]
    exact shiftForward_eq (by omega) (by omega)
  have hput (u v : Byte) : putChar ((a ++ m) ++ u :: y :: z :: behind) (s.cmdLen - 1) v =
      .ok ((a ++ m) ++ v :: y :: z :: behind) := by
    have hat : s.cmdLen - 1 = (a ++ m).length := by
      rw [List.length_append]
      omega
    rw [hat, putChar_append]
  have hmove : s.moveForward = .ok { s with cmd := (a ++ m) ++ space :: y :: z :: behind } := by
    rw [CmdInfo.moveForward, hshift, ok_bind, ← List.append_assoc, hput]
    rfl
  have htty : ttySend ((a ++ m) ++ space :: y :: z :: behind) (s.cursorPos - 1)
      (s.cmdLen - (s.cursorPos - 1)) = .ok () := by
    refine ttySend_ok ?_
    simp only [List.length_append, List.length_cons]
    omega
  have herase : e.line.eraseIdx (e.cursor - 1) = a ++ m := by
    rw [hline, ha, Nat.add_sub_cancel, List.eraseIdx_append_of_length_le le_rfl, Nat.sub_self,
      List.eraseIdx_cons_zero]
  have hlen' : s.cmdLen - 1 = (a ++ m).length := by
    rw [List.length_append]
    omega
  have hsize' : ((a ++ m) ++ (0 : Byte) :: y :: z :: behind).length = 162 := by
    rw [hbuf] at hsize
    simp only [List.length_append, List.length_cons] at hsize ⊢
    omega
  have hfollows := h.edited (a ++ m) (e.cursor - 1) hsize' (List.prefix_append _ _)
    (by rw [← hlen']; exact (by omega : s.cmdLen - 1 ≤ 160)) (by omega)
  refine ⟨{ s with
    cmd := (a ++ m) ++ 0 :: y :: z :: behind
    cmdLen := s.cmdLen - 1
    cursorPos := s.cursorPos - 1 }, ?_, ?_⟩
  · rw [hmove, ok_bind]
    dsimp only
    rw [htty, ok_bind, hput]
    rfl
  · rw [herase]
    rw [← hlen'] at hfollows
    rw [← hcursor] at hfollows ⊢
    exact hfollows

theorem Follows.insert (c : Byte) : ∃ s', s.insert c = .ok s' ∧ Follows s' (e.insert c) := by
  have hcursor := h.cursor
  have hle := h.cursor_le
  have hlen := h.len
  have hsize : s.cmd.length = 162 := h.size
  rw [CmdInfo.insert, Editor.insert, hlen]
  by_cases hroom : e.line.length < cmdMaxLen
  · rw [if_pos hroom, if_pos hroom]
    have hroom' : e.line.length < 160 := hroom
    obtain ⟨y, z, behind, hcmd⟩ := h.room
    obtain ⟨a, m, ha, hm, hline⟩ : ∃ a m, a = e.line.take e.cursor ∧ m = e.line.drop e.cursor ∧
        e.line = a ++ m := ⟨_, _, rfl, rfl, (List.take_append_drop _ _).symm⟩
    have halen : a.length = e.cursor := by
      rw [ha, List.length_take]
      omega
    have hlenm : e.line.length = a.length + m.length := by rw [hline, List.length_append]
    have hbuf : s.cmd = a ++ (m ++ y :: z :: behind) := by
      rw [hcmd, hline, List.append_assoc]
    obtain ⟨v, hshift⟩ : ∃ v, shiftBack s.cmdLen (s.cmdLen - s.cursorPos) 0 s.cmd =
        .ok (a ++ v :: (m ++ z :: behind)) := by
      rw [hbuf]
      exact shiftBack_eq (by omega) (by omega)
    have hput : putChar (a ++ v :: (m ++ z :: behind)) s.cursorPos c =
        .ok (a ++ c :: (m ++ z :: behind)) := by
      rw [hcursor, ← halen, putChar_append]
    have hmove : s.moveBack = .ok { s with cmd := a ++ v :: (m ++ z :: behind) } := by
      rw [CmdInfo.moveBack, hshift]
      rfl
    have hsize' : (a ++ c :: (m ++ z :: behind)).length = 162 := by
      rw [hbuf] at hsize
      simp only [List.length_append, List.length_cons] at hsize ⊢
      omega
    have htty : ttySend (a ++ c :: (m ++ z :: behind)) (s.cursorPos + 1 - 1)
        (s.cmdLen + 1 - (s.cursorPos + 1) + 1) = .ok () := ttySend_ok (by omega)
    have hlen' : s.cmdLen + 1 = (a ++ c :: m).length := by
      simp only [List.length_append, List.length_cons]
      omega
    have hfollows := h.edited (a ++ c :: m) (e.cursor + 1) hsize'
      ⟨z :: behind, by simp⟩ (by rw [← hlen', hlen]; exact hroom) (by omega)
    refine ⟨{ s with
      cmd := a ++ c :: (m ++ z :: behind)
      cmdLen := s.cmdLen + 1
      cursorPos := s.cursorPos + 1 }, ?_, ?_⟩
    · rw [hmove, ok_bind]
      dsimp only
      rw [hput, ok_bind, htty]
      rfl
    · rw [← ha, ← hm]
      rw [← hlen'] at hfollows
      rw [← hcursor] at hfollows ⊢
      exact hfollows
  · rw [if_neg hroom, if_neg hroom]
    exact ⟨s, rfl, h⟩

end Keys

section History

variable {history : List (List Byte)} {k : ℕ} (h : Ring s history)
include h

theorem Ring.slot_zero (hne : history ≠ []) : s.slot 0 = s.historySaveIndex := by
  have hlt : s.historySaveIndex < 3 := h.index hne
  change (s.historySaveIndex + 3 - 0) % 3 = _
  omega

/-- One line further back, or the mark that there is none. -/
theorem Ring.traverseBack (hk : k < history.length) (hat : s.historyTraverseIndex = s.slot k) :
    (k + 1 = history.length ∧ s.traverseBack = { s with historyTraversedToHead := true }) ∨
      (k + 1 < history.length ∧ s.traverseBack = { s with historyTraverseIndex := s.slot (k + 1) })
    := by
  have hne : history ≠ [] := List.length_pos_iff.mp (by omega)
  have hlt : s.historySaveIndex < 3 := h.index hne
  have hat' : s.historyTraverseIndex = (s.historySaveIndex + 3 - k) % 3 := hat
  have hnext : s.slot (k + 1) = (s.historySaveIndex + 3 - (k + 1)) % 3 := rfl
  rw [CmdInfo.traverseBack]
  cases hlooped : s.historyLooped with
  | true =>
    have hfull : history.length = 3 := h.closed hlooped
    rw [if_pos rfl]
    by_cases hlast : k + 1 = history.length
    · have hhead : s.historyTraverseIndex = (s.historySaveIndex + 1) % 3 := by omega
      exact .inl ⟨hlast, if_pos hhead⟩
    · have hhead : ¬ s.historyTraverseIndex = (s.historySaveIndex + 1) % 3 := by omega
      refine .inr ⟨by omega, (if_neg hhead).trans ?_⟩
      split_ifs with hzero
      · have hslot : s.slot (k + 1) = 3 - 1 := by omega
        rw [hslot]
        rfl
      · have hslot : s.slot (k + 1) = s.historyTraverseIndex - 1 := by omega
        rw [hslot]
  | false =>
    have hopen := h.opened hlooped hne
    rw [if_neg Bool.false_ne_true]
    split_ifs with hzero
    · exact .inl ⟨by omega, rfl⟩
    · have hslot : s.slot (k + 1) = s.historyTraverseIndex - 1 := by omega
      rw [hslot]
      exact .inr ⟨by omega, rfl⟩

/-- One line further on, or the mark that there is none. -/
theorem Ring.traverseForward (hk : k < history.length) (hat : s.historyTraverseIndex = s.slot k) :
    (k = 0 ∧ s.traverseForward = { s with historyTraversedToTail := true }) ∨
      (∃ j, k = j + 1 ∧ s.traverseForward = { s with historyTraverseIndex := s.slot j }) := by
  have hne : history ≠ [] := List.length_pos_iff.mp (by omega)
  have hlt : s.historySaveIndex < 3 := h.index hne
  have hat' : s.historyTraverseIndex = (s.historySaveIndex + 3 - k) % 3 := hat
  have hshort : history.length ≤ 3 := by
    cases hlooped : s.historyLooped with
    | true => exact (h.closed hlooped).le
    | false =>
      have hopen := h.opened hlooped hne
      omega
  rw [CmdInfo.traverseForward]
  cases k with
  | zero =>
    have htail : s.historyTraverseIndex = s.historySaveIndex := by omega
    rw [if_pos htail, if_pos htail, ite_self]
    exact .inl ⟨rfl, rfl⟩
  | succ j =>
    have htail : ¬ s.historyTraverseIndex = s.historySaveIndex := by omega
    have hprev : s.slot j = (s.historySaveIndex + 3 - j) % 3 := rfl
    refine .inr ⟨j, rfl, ?_⟩
    rw [if_neg htail, if_neg htail]
    cases hlooped : s.historyLooped with
    | true =>
      have hslot : s.slot j = (s.historyTraverseIndex + 1) % 3 := by omega
      rw [if_pos rfl, hslot]
      rfl
    | false =>
      have hopen := h.opened hlooped hne
      have hslot : s.slot j = s.historyTraverseIndex + 1 := by omega
      rw [if_neg Bool.false_ne_true, hslot]

theorem Ring.showHistory (hk : history[k]? = some line) (hat : s.historyTraverseIndex = s.slot k)
    (hsize : s.cmd.length = cmdBufSize) : ∃ buf,
      s.showHistory = .ok { s with cmd := buf, cmdLen := line.length, cursorPos := line.length } ∧
        buf.length = cmdBufSize ∧ line <+: buf ∧ line.length ≤ cmdMaxLen := by
  obtain ⟨hlen, hprefix⟩ := h.held k line hk
  have hshort := h.short line (List.mem_of_getElem? hk)
  have hroom : line.length ≤ s.cmd.length := by
    rw [hsize]
    exact hshort.trans (by decide)
  obtain ⟨buf, hcopy, hbuf, hline⟩ := copyLine_eq hprefix hroom
  refine ⟨buf, ?_, hbuf.trans hsize, hline, hshort⟩
  have hslot : s.slot k < 3 := Nat.mod_lt _ (by decide)
  rw [CmdInfo.showHistory, hat, hlen, historyAt_ok hslot, ok_bind]
  dsimp only
  rw [hcopy]
  rfl

end History

section Traversal

variable (h : Follows s e)
include h

/-- A remembered line is shown, so many lines back. -/
theorem Follows.shown {k : ℕ} {saved : List Byte} (hk : e.history[k]? = some line)
    (hat : s.historyTraverseIndex = s.slot k) (hpast : Traverses s e.history (some (k, saved))) :
    ∃ s', s.showHistory = .ok s' ∧ Follows s' (e.showLine line (some (k, saved))) := by
  obtain ⟨buf, hshow, hsize, hprefix, hshort⟩ := h.ring.showHistory hk hat h.size
  refine ⟨_, hshow, ?_⟩
  exact
    { size := hsize
      len := rfl
      short := hshort
      line := hprefix
      cursor := rfl
      cursor_le := le_rfl
      temp := h.temp
      ring := h.ring.same rfl rfl rfl rfl
      past := hpast }

/-- The marks of the traversal are changed alone. -/
theorem Follows.marked {past : Option (ℕ × List Byte)} (hpast : Traverses s' e.history past)
    (hcmd : s'.cmd = s.cmd) (hlen : s'.cmdLen = s.cmdLen) (hcursor : s'.cursorPos = s.cursorPos)
    (hring : Ring s' e.history) (htemp : s'.cmdTemp.length = cmdBufSize) :
    Follows s' { e with past := past } where
  size := by
    rw [hcmd]
    exact h.size
  len := hlen.trans h.len
  short := h.short
  line := by
    rw [hcmd]
    exact h.line
  cursor := hcursor.trans h.cursor
  cursor_le := h.cursor_le
  temp := htemp
  ring := hring
  past := hpast

/-- The first step back keeps the edited line. -/
theorem Follows.previous_first (hp : e.past = none) (hne : e.history ≠ []) :
    ∃ s', s.previous = .ok s' ∧ Follows s' e.previous := by
  have hpast := h.past
  rw [hp] at hpast
  obtain ⟨htraversing, hmarks⟩ := hpast
  obtain ⟨hindex, hhead, -⟩ := hmarks hne
  have hsave : s.historySaveIndex ≠ cmdMaxHistorySize := fun hs => hne (h.ring.empty.mp hs)
  have hslot : s.historyTraverseIndex = s.slot 0 := hindex.trans (h.ring.slot_zero hne).symm
  obtain ⟨line, hline⟩ : ∃ line, e.history[0]? = some line :=
    ⟨_, List.getElem?_eq_getElem (List.length_pos_iff.mpr hne)⟩
  have htemp : e.line.length ≤ s.cmdTemp.length := by
    rw [h.temp]
    exact h.short.trans (by decide)
  obtain ⟨temp, hcopy, hsize, hprefix⟩ := copyLine_eq h.line htemp
  have hmarks' : Traverses { s with
      historyTraversedToTail := false
      historyTraversing := true
      cmdTemp := temp
      cmdTempLen := s.cmdLen } e.history (some (0, e.line)) :=
    ⟨rfl, rfl, List.length_pos_iff.mpr hne, hslot, hprefix, h.len, h.short,
      fun hh => absurd (hhead.symm.trans hh) Bool.false_ne_true⟩
  have hmarked := h.marked hmarks' rfl rfl rfl (h.ring.same rfl rfl rfl rfl) (hsize.trans h.temp)
  obtain ⟨s', hshow, hfollows⟩ := hmarked.shown hline hslot hmarks'
  refine ⟨s', ?_, ?_⟩
  · have hgo : ¬ s.historyTraversedToHead = true := by simp [hhead]
    have hfirst : ¬ s.historyTraversing = true := by simp [htraversing]
    have hstart : CmdInfo.startTraverse { s with historyTraversedToTail := false } = .ok { s with
        historyTraversedToTail := false
        historyTraversing := true
        cmdTemp := temp
        cmdTempLen := s.cmdLen } := by
      rw [← h.len] at hcopy
      rw [CmdInfo.startTraverse]
      dsimp only
      rw [hcopy]
      rfl
    rw [CmdInfo.previous, if_pos ⟨hsave, hhead⟩, if_neg hfirst, hstart]
    exact (if_neg hgo).trans hshow
  · rw [Editor.previous, hp]
    simp only [Option.elim_none, hline]
    exact hfollows

theorem Follows.previous_again {k : ℕ} {saved : List Byte} (hp : e.past = some (k, saved)) :
    ∃ s', s.previous = .ok s' ∧ Follows s' e.previous := by
  have hpast := h.past
  rw [hp] at hpast
  obtain ⟨htraversing, htail, hk, hindex, hsaved, htemp, hshort, hhead⟩ := hpast
  have hne : e.history ≠ [] := List.length_pos_iff.mp (by omega)
  have hsave : s.historySaveIndex ≠ cmdMaxHistorySize := fun hs => hne (h.ring.empty.mp hs)
  have hring : Ring { s with historyTraversedToTail := false } e.history :=
    h.ring.same rfl rfl rfl rfl
  have hlast (hk : k + 1 = e.history.length) : e.previous = e := by
    rw [Editor.previous, hp]
    simp only [Option.elim_some, List.getElem?_eq_none hk.ge]
  cases hs : s.historyTraversedToHead with
  | true =>
    rw [hlast (hhead hs), CmdInfo.previous, if_neg (by rw [hs]; simp)]
    exact ⟨s, rfl, h⟩
  | false =>
    rw [CmdInfo.previous, if_pos ⟨hsave, hs⟩, if_pos htraversing]
    rcases hring.traverseBack hk hindex with ⟨hk', hback⟩ | ⟨hk', hback⟩
    · have hmarks : Traverses { s with
          historyTraversedToTail := false
          historyTraversedToHead := true } e.history (some (k, saved)) :=
        ⟨htraversing, rfl, hk, hindex, hsaved, htemp, hshort, fun _ => hk'⟩
      have hmarked := h.marked hmarks rfl rfl rfl (h.ring.same rfl rfl rfl rfl) h.temp
      rw [← hp] at hmarked
      rw [hlast hk', hback]
      exact ⟨_, rfl, hmarked⟩
    · have hmarks : Traverses { s with
          historyTraversedToTail := false
          historyTraverseIndex := s.slot (k + 1) } e.history (some (k + 1, saved)) :=
        ⟨htraversing, rfl, hk', rfl, hsaved, htemp, hshort,
          fun hh => absurd (hs.symm.trans hh) Bool.false_ne_true⟩
      have hmarked := h.marked hmarks rfl rfl rfl (h.ring.same rfl rfl rfl rfl) h.temp
      have hline : e.history[k + 1]? = some e.history[k + 1] := List.getElem?_eq_getElem hk'
      obtain ⟨s', hshow, hfollows⟩ := hmarked.shown hline rfl hmarks
      refine ⟨s', ?_, ?_⟩
      · rw [hback]
        have hgo : ¬ s.historyTraversedToHead = true := by simp [hs]
        exact (if_neg hgo).trans hshow
      · rw [Editor.previous, hp]
        simp only [Option.elim_some, hline]
        exact hfollows

theorem Follows.previous : ∃ s', s.previous = .ok s' ∧ Follows s' e.previous := by
  by_cases hne : e.history = []
  · have hsame : e.previous = e := by
      rw [Editor.previous, hne, List.getElem?_nil]
    rw [hsame, CmdInfo.previous, if_neg (fun hopen => hopen.1 (h.ring.empty.mpr hne))]
    exact ⟨s, rfl, h⟩
  cases hp : e.past with
  | none => exact h.previous_first hp hne
  | some x => exact h.previous_again hp

theorem Follows.next_again {k : ℕ} {saved : List Byte} (hp : e.past = some (k, saved)) :
    ∃ s', s.next = .ok s' ∧ Follows s' e.next := by
  have hpast := h.past
  rw [hp] at hpast
  obtain ⟨htraversing, htail, hk, hindex, hsaved, htemp, hshort, -⟩ := hpast
  have hne : e.history ≠ [] := List.length_pos_iff.mp (by omega)
  have hsave : s.historySaveIndex ≠ cmdMaxHistorySize := fun hs => hne (h.ring.empty.mp hs)
  have hring : Ring { s with historyTraversedToHead := false } e.history :=
    h.ring.same rfl rfl rfl rfl
  rw [CmdInfo.next, if_pos ⟨hsave, htail⟩]
  rcases hring.traverseForward hk hindex with ⟨rfl, hforward⟩ | ⟨j, rfl, hforward⟩
  · have hroom : saved.length ≤ s.cmd.length := by
      rw [h.size]
      exact hshort.trans (by decide)
    obtain ⟨buf, hcopy, hsize, hprefix⟩ := copyLine_eq hsaved hroom
    have hslot : s.historyTraverseIndex = s.historySaveIndex :=
      hindex.trans (h.ring.slot_zero hne)
    refine ⟨{ s with
      cmd := buf
      cmdLen := saved.length
      cursorPos := saved.length
      historyTraversing := false
      historyTraversedToHead := false
      historyTraversedToTail := true }, ?_, ?_⟩
    · rw [hforward, if_pos rfl, htemp]
      dsimp only
      rw [hcopy]
      rfl
    · have hnext : e.next = e.showLine saved none := by rw [Editor.next, hp]
      rw [hnext]
      exact
        { size := hsize.trans h.size
          len := rfl
          short := hshort
          line := hprefix
          cursor := rfl
          cursor_le := le_rfl
          temp := h.temp
          ring := h.ring.same rfl rfl rfl rfl
          past := ⟨rfl, fun _ => ⟨hslot, rfl, rfl⟩⟩ }
  · have hj : j < e.history.length := by omega
    have hmarks : Traverses { s with
        historyTraversedToHead := false
        historyTraverseIndex := s.slot j } e.history (some (j, saved)) :=
      ⟨htraversing, htail, hj, rfl, hsaved, htemp, hshort,
        fun hh => absurd hh Bool.false_ne_true⟩
    have hmarked := h.marked hmarks rfl rfl rfl (h.ring.same rfl rfl rfl rfl) h.temp
    have hline : e.history[j]? = some e.history[j] := List.getElem?_eq_getElem hj
    obtain ⟨s', hshow, hfollows⟩ := hmarked.shown hline rfl hmarks
    refine ⟨s', ?_, ?_⟩
    · rw [hforward]
      have hgo : ¬ s.historyTraversedToTail = true := by simp [htail]
      exact (if_neg hgo).trans hshow
    · have hnext : e.next = e.showLine e.history[j] (some (j, saved)) := by
        rw [Editor.next, hp]
        simp only [hline, Option.getD_some]
      rw [hnext]
      exact hfollows

theorem Follows.next : ∃ s', s.next = .ok s' ∧ Follows s' e.next := by
  cases hp : e.past with
  | some x => exact h.next_again hp
  | none =>
    have hpast := h.past
    rw [hp] at hpast
    have hclosed : ¬ (s.historySaveIndex ≠ cmdMaxHistorySize ∧
        s.historyTraversedToTail = false) := by
      rintro ⟨hsave, htail⟩
      have hne : e.history ≠ [] := fun hnil => hsave (h.ring.empty.mpr hnil)
      exact absurd (htail.symm.trans (hpast.2 hne).2.2) Bool.false_ne_true
    have hsame : e.next = e := by rw [Editor.next, hp]
    rw [CmdInfo.next, if_neg hclosed, hsame]
    exact ⟨s, rfl, h⟩

end Traversal

theorem Ring.nextSave {history : List (List Byte)} (h : Ring s history) :
    s.nextSave.1 < 3 ∧ (history ≠ [] → s.nextSave.1 = (s.historySaveIndex + 1) % 3) ∧
      (s.nextSave.2 = false → history.length = s.nextSave.1) ∧
        (s.nextSave.2 = true → 2 ≤ history.length) := by
  by_cases hne : history = []
  · have hempty : s.historySaveIndex = cmdMaxHistorySize := h.empty.mpr hne
    have hlooped : s.historyLooped = false := by
      rw [Bool.eq_false_iff]
      intro hlooped
      have hfull := h.closed hlooped
      rw [hne] at hfull
      cases hfull
    rw [CmdInfo.nextSave, if_pos hempty, hlooped, hne]
    exact ⟨by decide, fun hnil => absurd rfl hnil, fun _ => rfl, fun hf => by cases hf⟩
  · have hlt : s.historySaveIndex < 3 := h.index hne
    have hlen (hl : s.historyLooped = false) : history.length = s.historySaveIndex + 1 :=
      h.opened hl hne
    have hfull (hl : s.historyLooped = true) : history.length = 3 := h.closed hl
    have hsome : ¬ s.historySaveIndex = cmdMaxHistorySize := hlt.ne
    rw [CmdInfo.nextSave, if_neg hsome]
    split_ifs with hlast
    · have hlast' : s.historySaveIndex + 1 = 3 := hlast
      refine ⟨by decide, fun _ => by rw [hlast'], fun hf => (by cases hf), fun _ => ?_⟩
      cases hl : s.historyLooped with
      | true => exact (hfull hl).ge.trans' (by decide)
      | false =>
        have hopen := hlen hl
        omega
    · have hlast' : ¬ s.historySaveIndex + 1 = 3 := hlast
      refine ⟨?_, fun _ => ?_, hlen, fun hl => (hfull hl).ge.trans' (by decide)⟩
      · change s.historySaveIndex + 1 < 3
        omega
      · change s.historySaveIndex + 1 = _
        omega

/-- A line is remembered in front of the others. -/
theorem Ring.saved {history : List (List Byte)} (h : Ring s history)
    (hshort : line.length ≤ cmdMaxLen) (hsize : buf.length = cmdBufSize) (hline : line <+: buf)
    (hcmd : s'.historySaveIndex = s.nextSave.1) (hlooped : s'.historyLooped = s.nextSave.2)
    (hbuf : s'.cmdHistory = Function.update s.cmdHistory s.nextSave.1 buf)
    (hlen : s'.cmdHistoryLen = Function.update s.cmdHistoryLen s.nextSave.1 line.length) :
    Ring s' ((line :: history).take cmdMaxHistorySize) := by
  obtain ⟨hlt, hnext, hopened, hclosed⟩ := h.nextSave
  have hcons : (line :: history).take cmdMaxHistorySize ≠ [] := by
    rw [cmdMaxHistorySize, List.take_succ_cons]
    exact List.cons_ne_nil _ _
  have hcount : ((line :: history).take cmdMaxHistorySize).length = min 3 (history.length + 1) := by
    rw [List.length_take, List.length_cons]
    rfl
  have hslot (k : ℕ) : s'.slot k = (s.nextSave.1 + 3 - k) % 3 := by
    rw [CmdInfo.slot, hcmd]
    rfl
  refine ⟨fun i => ?_, fun u hu => ?_, fun k u hk => ?_, ?_, fun _ => ?_, fun hl _ => ?_,
    fun hl => ?_⟩
  · rw [hbuf, Function.update_apply]
    split_ifs
    · exact hsize
    · exact h.buffers i
  · rcases List.mem_cons.mp (List.mem_of_mem_take hu) with rfl | hu
    · exact hshort
    · exact h.short u hu
  · have hk3 : k < 3 := by
      have hk' := (List.getElem?_eq_some_iff.mp hk).1
      omega
    rw [List.getElem?_take_of_lt (show k < cmdMaxHistorySize from hk3)] at hk
    rw [hlen, hbuf]
    cases k with
    | zero =>
      have hzero : s'.slot 0 = s.nextSave.1 := by
        rw [hslot]
        omega
      cases hk
      rw [hzero, Function.update_self, Function.update_self]
      exact ⟨rfl, hline⟩
    | succ j =>
      rw [List.getElem?_cons_succ] at hk
      have hne : history ≠ [] := by
        rintro rfl
        cases hk
      have hsave : s.historySaveIndex < 3 := h.index hne
      have hnext' := hnext hne
      have hprev : s'.slot (j + 1) = s.slot j := by
        rw [hslot]
        change _ = (s.historySaveIndex + 3 - j) % 3
        omega
      have hother : s.slot j ≠ s.nextSave.1 := by
        change (s.historySaveIndex + 3 - j) % 3 ≠ _
        omega
      rw [hprev, Function.update_of_ne hother, Function.update_of_ne hother]
      exact h.held j u hk
  · rw [hcmd]
    exact iff_of_false hlt.ne hcons
  · rw [hcmd]
    exact hlt
  · have hopen := hopened (hlooped.symm.trans hl)
    rw [hcount, hcmd]
    omega
  · have hfull := hclosed (hlooped.symm.trans hl)
    rw [hcount]
    exact min_eq_left (Nat.succ_le_succ hfull)

/-- An empty line that is entered changes nothing. -/
theorem Follows.enter_empty (h : Follows s e) (hempty : s.cmdLen = 0 → s.historyTraversing = false)
    (hnil : e.line = []) : s.enter = .ok s ∧ e.enter = e := by
  have hzero : s.cmdLen = 0 := by rw [h.len, hnil, List.length_nil]
  have hcursor : e.cursor = 0 := by
    have hle := h.cursor_le
    rw [hnil] at hle
    exact Nat.le_zero.mp hle
  have hnone : e.past = none := by
    have hpast := h.past
    cases hp : e.past with
    | none => rfl
    | some x =>
      rw [hp] at hpast
      exact absurd (hpast.1.symm.trans (hempty hzero)) (by decide)
  constructor
  · exact if_neg (by omega)
  · rw [Editor.enter, if_pos hnil, ← hnil, ← hcursor, ← hnone]

/-- The line that is entered is remembered. -/
theorem Follows.save (h : Follows s e) : ∃ kept, s.save = .ok { s with
      historySaveIndex := s.nextSave.1
      historyLooped := s.nextSave.2
      cmdHistory := Function.update s.cmdHistory s.nextSave.1 kept
      cmdHistoryLen := Function.update s.cmdHistoryLen s.nextSave.1 e.line.length } ∧
    kept.length = cmdBufSize ∧ e.line <+: kept := by
  have hshort : e.line.length < cmdBufSize := h.short.trans_lt (by decide)
  have hbuffers := h.ring.buffers s.nextSave.1
  obtain ⟨copied, hcopy, hcopied, hprefix⟩ :=
    copyLine_eq h.line (hshort.le.trans_eq hbuffers.symm)
  obtain ⟨kept, hput, hkept, hprefix'⟩ := @putChar_behind copied e.line 0 hprefix
    (hshort.trans_eq (hcopied.trans hbuffers).symm)
  refine ⟨kept, ?_, hkept.trans (hcopied.trans hbuffers), hprefix'⟩
  rw [CmdInfo.save, h.len, historyAt_ok h.ring.nextSave.1, ok_bind, hcopy, ok_bind, hput]
  rfl

theorem Follows.enter (h : Follows s e) (hempty : s.cmdLen = 0 → s.historyTraversing = false)
    (hfits : s.cmdLen ≠ 0 → Fits (s.cmd.take s.cmdLen)) :
    ∃ s', s.enter = .ok s' ∧ Follows s' e.enter := by
  have hlen := h.len
  by_cases hnil : e.line = []
  · obtain ⟨henter, hsame⟩ := h.enter_empty hempty hnil
    exact ⟨s, henter, hsame.symm ▸ h⟩
  · have hpos : 0 < s.cmdLen := by
      rw [hlen]
      exact List.length_pos_iff.mpr hnil
    have hfits' : Fits e.line := by
      have htake := hfits hpos.ne'
      rwa [hlen, ← List.prefix_iff_eq_take.mp h.line] at htake
    obtain ⟨y, z, behind, hcmd⟩ := h.room
    obtain ⟨kept, hsave, hkept, hprefix⟩ := h.save
    have hend : putChar s.cmd s.cmdLen 0 = .ok (e.line ++ 0 :: (z :: behind)) := by
      rw [hcmd, hlen, putChar_append]
    obtain ⟨ok, parsed, d, hparse, hexecute⟩ :=
      cmdParse_fits hnil (List.cons_ne_nil z behind) hfits'
    have hsize : parsed.length = cmdBufSize := by
      rw [show parsed.length = _ from cmdParse_length hparse, ← h.size, hcmd, List.length_append,
        List.length_append]
      rfl
    refine ⟨{ s with
      cmd := parsed
      cmdLen := 0
      cursorPos := 0
      cmdHistory := Function.update s.cmdHistory s.nextSave.1 kept
      cmdHistoryLen := Function.update s.cmdHistoryLen s.nextSave.1 e.line.length
      historySaveIndex := s.nextSave.1
      historyTraverseIndex := s.nextSave.1
      historyLooped := s.nextSave.2
      historyTraversing := false
      historyTraversedToHead := false
      historyTraversedToTail := true }, ?_, ?_⟩
    · rw [CmdInfo.enter, if_pos hpos, hsave, ok_bind]
      dsimp only
      rw [hend, ok_bind, hlen, hparse, ok_bind]
      cases ok with
      | false => rfl
      | true =>
        change (cmdExecute parsed d).bind _ = _
        rw [hexecute rfl]
        rfl
    · rw [Editor.enter, if_neg hnil]
      exact
        { size := hsize
          len := rfl
          short := Nat.zero_le _
          line := List.nil_prefix
          cursor := rfl
          cursor_le := le_rfl
          temp := h.temp
          ring := h.ring.saved h.short hkept hprefix rfl rfl rfl rfl
          past := ⟨rfl, fun _ => ⟨rfl, rfl, rfl⟩⟩ }

/-- No empty line is entered while a remembered one is shown, and no line with too many words. -/
def Allowed (s : CmdInfo) (c : Byte) : Prop :=
  isEnter c = true → (s.cmdLen = 0 → s.historyTraversing = false) ∧
    (s.cmdLen ≠ 0 → Fits (s.cmd.take s.cmdLen))
  deriving Decidable

/-- Every key does what it does in the editor. -/
theorem Follows.key (h : Follows s e) (hc : Allowed s c) :
    ∃ s', collectChar s c = .ok s' ∧ Follows s' (e.key c) := by
  rw [collectChar, Editor.key]
  split_ifs with henter
  · exact h.enter (hc henter).1 (hc henter).2
  · exact h.backspace
  · exact h.left
  · exact h.right
  · exact h.previous
  · exact h.next
  · exact h.insert c

theorem init_follows : Follows .init .init where
  size := List.length_replicate
  len := rfl
  short := Nat.zero_le _
  line := List.nil_prefix
  cursor := rfl
  cursor_le := le_rfl
  temp := List.length_replicate
  ring :=
    { buffers := fun _ => List.length_replicate
      short := fun _ hline => absurd hline List.not_mem_nil
      held := fun _ _ hk => by cases hk
      empty := iff_of_true rfl rfl
      index := fun hne => absurd rfl hne
      opened := fun _ hne => absurd rfl hne
      closed := fun hf => absurd hf Bool.false_ne_true }
  past := ⟨rfl, fun hne => absurd rfl hne⟩

theorem Follows.run {keys : List Byte} (h : Follows s e)
    (hall : RunAll collectChar Allowed s keys) :
    ∃ s', cmdCollect s keys = .ok s' ∧ Follows s' (keys.foldl Editor.key e) := by
  induction keys generalizing s e with
  | nil => exact ⟨s, rfl, h⟩
  | cons c keys ih =>
    obtain ⟨t, hkey, hfollows⟩ := h.key hall.1
    obtain ⟨s', hrun, hend⟩ := ih hfollows (hall.2 t hkey)
    refine ⟨s', ?_, hend⟩
    rw [cmdCollect, Lib.run, hkey]
    exact hrun

/-- Keys that enter nothing need no condition. -/
theorem allowed_of_keys {keys : List Byte} (hkeys : ∀ c ∈ keys, isEnter c = false) (s : CmdInfo) :
    RunAll collectChar Allowed s keys := by
  induction keys generalizing s with
  | nil => trivial
  | cons c keys ih =>
    refine ⟨fun henter => ?_, fun t _ => ih (fun d hd => hkeys d (List.mem_cons_of_mem c hd)) t⟩
    exact absurd (henter.symm.trans (hkeys c List.mem_cons_self)) (by decide)

end Meshx.Cmd
