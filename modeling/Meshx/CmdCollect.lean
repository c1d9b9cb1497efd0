import Meshx.CmdParse

/-! The editing of a command line, with the lines remembered in a ring. Definitions carry the
names of `meshx_cmd.c`. -/
namespace Meshx.Cmd

open Lib

def cmdMaxHistorySize : ℕ := 3

/-- The size of a buffer that holds a line. -/
def cmdBufSize : ℕ := cmdMaxLen + 2

/-- `meshx_user_cmd_info_t`. -/
structure CmdInfo where
  cmd : List Byte
  cmdLen : ℕ
  cursorPos : ℕ
  cmdTemp : List Byte
  cmdTempLen : ℕ
  cmdHistory : ℕ → List Byte
  cmdHistoryLen : ℕ → ℕ
  historySaveIndex : ℕ
  historyTraverseIndex : ℕ
  historyLooped : Bool
  historyTraversing : Bool
  historyTraversedToHead : Bool
  historyTraversedToTail : Bool

/-- The state after `meshx_cmd_init`. -/
def CmdInfo.init : CmdInfo where
  cmd := .replicate cmdBufSize 0
  cmdLen := 0
  cursorPos := 0
  cmdTemp := .replicate cmdBufSize 0
  cmdTempLen := 0
  cmdHistory _ := .replicate cmdBufSize 0
  cmdHistoryLen _ := 0
  historySaveIndex := cmdMaxHistorySize
  historyTraverseIndex := 0
  historyLooped := false
  historyTraversing := false
  historyTraversedToHead := false
  historyTraversedToTail := false

def putChar (buf : List Byte) (p : ℕ) (c : Byte) : Except Fault (List Byte) :=
  if p < buf.length then .ok (buf.set p c) else .error .badWrite

/-- `memcpy` from the start of a buffer to the start of another one. -/
def copyLine (dst src : List Byte) (n : ℕ) : Except Fault (List Byte) :=
  if src.length < n then .error .badRead
  else if dst.length < n then .error .badWrite
  else .ok (src.take n ++ dst.drop n)

/-- `meshx_tty_send`, of which only what it reads matters. -/
def ttySend (buf : List Byte) (offset n : ℕ) : Except Fault Unit :=
  if buf.length < offset + n then .error .badRead else .ok ()

/-- An index of the remembered lines. -/
def historyAt (i : ℕ) : Except Fault Unit :=
  if i < cmdMaxHistorySize then .ok () else .error .badRead

/-- `strlen`, of the memory from an address on. -/
def strLen : List Byte → Except Fault ℕ
  | [] => .error .badRead
  | c :: s => if c = 0 then .ok 0 else (· + 1) <$> strLen s

/-- `meshx_cmd_execute` and the answer, of which only what they read of the line matters. -/
def cmdExecute (buf : List Byte) (d : ParsedData) : Except Fault Unit :=
  match d.pcmd with
  | none => .error .badRead
  | some p => discard (strLen (buf.drop p))

/-- The loop of `meshx_cmd_move_forward`, from its round `i` on. -/
def shiftForward (cursor : ℕ) : ℕ → ℕ → List Byte → Except Fault (List Byte)
  | 0, _, buf => .ok buf
  | rounds + 1, i, buf => do
    let c ← charAt buf (cursor + i)
    let buf ← putChar buf (cursor + i - 1) c
    shiftForward cursor rounds (i + 1) buf

/-- The loop of `meshx_cmd_move_back`, from its round `i` on. -/
def shiftBack (len : ℕ) : ℕ → ℕ → List Byte → Except Fault (List Byte)
  | 0, _, buf => .ok buf
  | rounds + 1, i, buf => do
    let c ← charAt buf (len - i - 1)
    let buf ← putChar buf (len - i) c
    shiftBack len rounds (i + 1) buf

def isEnter (c : Byte) : Bool := c == 13 || c == 10

def isBackspace (c : Byte) : Bool := c == 127 || c == 8

namespace CmdInfo

def moveForward (s : CmdInfo) : Except Fault CmdInfo := do
  let buf ← shiftForward s.cursorPos (s.cmdLen - s.cursorPos + 1) 0 s.cmd
  let buf ← putChar buf (s.cmdLen - 1) space
  return { s with cmd := buf }

def moveBack (s : CmdInfo) : Except Fault CmdInfo := do
  let buf ← shiftBack s.cmdLen (s.cmdLen - s.cursorPos) 0 s.cmd
  return { s with cmd := buf }

/-- The next index of the ring, and whether the ring has been closed. -/
def nextSave (s : CmdInfo) : ℕ × Bool :=
  if s.historySaveIndex = cmdMaxHistorySize then (0, s.historyLooped)
  else if s.historySaveIndex + 1 = cmdMaxHistorySize then (0, true)
  else (s.historySaveIndex + 1, s.historyLooped)

/-- The line is remembered. -/
def save (s : CmdInfo) : Except Fault CmdInfo := do
  let next := s.nextSave
  historyAt next.1
  let buf ← copyLine (s.cmdHistory next.1) s.cmd s.cmdLen
  let buf ← putChar buf s.cmdLen 0
  return { s with
    historySaveIndex := next.1
    historyLooped := next.2
    cmdHistory := Function.update s.cmdHistory next.1 buf
    cmdHistoryLen := Function.update s.cmdHistoryLen next.1 s.cmdLen }

/-- A finished line. What is executed does not touch the state. -/
def enter (s : CmdInfo) : Except Fault CmdInfo :=
  if 0 < s.cmdLen then do
    let s ← s.save
    let buf ← putChar s.cmd s.cmdLen 0
    let parsed ← cmdParse buf s.cmdLen
    if parsed.1 then cmdExecute parsed.2.1 parsed.2.2
    return { s with
      cmd := parsed.2.1
      cmdLen := 0
      cursorPos := 0
      historyTraverseIndex := s.historySaveIndex
      historyTraversedToHead := false
      historyTraversedToTail := true
      historyTraversing := false }
  else .ok s

def backspace (s : CmdInfo) : Except Fault CmdInfo :=
  if 0 < s.cursorPos ∧ 0 < s.cmdLen then do
    let s ← s.moveForward
    let s := { s with cursorPos := s.cursorPos - 1 }
    ttySend s.cmd s.cursorPos (s.cmdLen - s.cursorPos)
    let buf ← putChar s.cmd (s.cmdLen - 1) 0
    return { s with cmd := buf, cmdLen := s.cmdLen - 1 }
  else .ok s

def left (s : CmdInfo) : Except Fault CmdInfo :=
  if 0 < s.cursorPos then .ok { s with cursorPos := s.cursorPos - 1 } else .ok s

def right (s : CmdInfo) : Except Fault CmdInfo :=
  if s.cursorPos < s.cmdLen then do
    ttySend s.cmd s.cursorPos 1
    return { s with cursorPos := s.cursorPos + 1 }
  else .ok s

/-- The line that is remembered at the traverse index is shown. -/
def showHistory (s : CmdInfo) : Except Fault CmdInfo := do
  historyAt s.historyTraverseIndex
  let n := s.cmdHistoryLen s.historyTraverseIndex
  let buf ← copyLine s.cmd (s.cmdHistory s.historyTraverseIndex) n
  return { s with cmd := buf, cmdLen := n, cursorPos := n }

/-- The next older index, or the mark that there is none. -/
def traverseBack (s : CmdInfo) : CmdInfo :=
  if s.historyLooped then
    if s.historyTraverseIndex = (s.historySaveIndex + 1) % cmdMaxHistorySize then
      { s with historyTraversedToHead := true }
    else if s.historyTraverseIndex = 0 then
      { s with historyTraverseIndex := cmdMaxHistorySize - 1 }
    else { s with historyTraverseIndex := s.historyTraverseIndex - 1 }
  else if s.historyTraverseIndex = 0 then { s with historyTraversedToHead := true }
  else { s with historyTraverseIndex := s.historyTraverseIndex - 1 }

/-- The edited line is kept. -/
def startTraverse (s : CmdInfo) : Except Fault CmdInfo := do
  let buf ← copyLine s.cmdTemp s.cmd s.cmdLen
  return { s with historyTraversing := true, cmdTemp := buf, cmdTempLen := s.cmdLen }

/-- History previous command. -/
def previous (s : CmdInfo) : Except Fault CmdInfo :=
  if s.historySaveIndex ≠ cmdMaxHistorySize ∧ s.historyTraversedToHead = false then do
    let s := { s with historyTraversedToTail := false }
    let s ← if s.historyTraversing then .ok s.traverseBack else s.startTraverse
    if s.historyTraversedToHead then return s else s.showHistory
  else .ok s

/-- The next younger index, or the mark that there is none. -/
def traverseForward (s : CmdInfo) : CmdInfo :=
  if s.historyLooped then
    if s.historyTraverseIndex = s.historySaveIndex then { s with historyTraversedToTail := true }
    else { s with historyTraverseIndex := (s.historyTraverseIndex + 1) % cmdMaxHistorySize }
  else if s.historyTraverseIndex = s.historySaveIndex then
    { s with historyTraversedToTail := true }
  else { s with historyTraverseIndex := s.historyTraverseIndex + 1 }

/-- History next command. -/
def next (s : CmdInfo) : Except Fault CmdInfo :=
  if s.historySaveIndex ≠ cmdMaxHistorySize ∧ s.historyTraversedToTail = false then do
    let s := { s with historyTraversedToHead := false }.traverseForward
    if s.historyTraversedToTail then do
      let buf ← copyLine s.cmd s.cmdTemp s.cmdTempLen
      return { s with
        cmd := buf
        cmdLen := s.cmdTempLen
        cursorPos := s.cmdTempLen
        historyTraversing := false }
    else s.showHistory
  else .ok s

def insert (s : CmdInfo) (c : Byte) : Except Fault CmdInfo :=
  if s.cmdLen < cmdMaxLen then do
    let s ← s.moveBack
    let buf ← putChar s.cmd s.cursorPos c
    let s := { s with cmd := buf, cmdLen := s.cmdLen + 1, cursorPos := s.cursorPos + 1 }
    ttySend s.cmd (s.cursorPos - 1) (s.cmdLen - s.cursorPos + 1)
    return s
  else .ok s

end CmdInfo

/-- `meshx_cmd_collect`, for one character. -/
def collectChar (s : CmdInfo) (c : Byte) : Except Fault CmdInfo :=
  if isEnter c then s.enter
  else if isBackspace c then s.backspace
  else if c = 91 then s.left
  else if c = 93 then s.right
  else if c = 44 then s.previous
  else if c = 46 then s.next
  else s.insert c

/-- `meshx_cmd_collect`. -/
def cmdCollect (s : CmdInfo) (data : List Byte) : Except Fault CmdInfo := run collectChar s data

/-- What the editor is for: a line with a cursor, the lines that were entered, the last one first,
and which of them is shown in place of which line. -/
structure Editor where
  line : List Byte
  cursor : ℕ
  history : List (List Byte)
  past : Option (ℕ × List Byte)
  deriving DecidableEq

namespace Editor

def init : Editor := ⟨[], 0, [], none⟩

def enter (e : Editor) : Editor :=
  ⟨[], 0, if e.line = [] then e.history else (e.line :: e.history).take cmdMaxHistorySize, none⟩

def backspace (e : Editor) : Editor :=
  if e.cursor = 0 then e
  else { e with line := e.line.eraseIdx (e.cursor - 1), cursor := e.cursor - 1 }

def insert (e : Editor) (c : Byte) : Editor :=
  if e.line.length < cmdMaxLen then
    { e with line := e.line.take e.cursor ++ c :: e.line.drop e.cursor, cursor := e.cursor + 1 }
  else e

def showLine (e : Editor) (line : List Byte) (past : Option (ℕ × List Byte)) : Editor :=
  { e with line := line, cursor := line.length, past := past }

/-- The next older line, if there is one. -/
def previous (e : Editor) : Editor :=
  let k := e.past.elim 0 (·.1 + 1)
  let saved := e.past.elim e.line (·.2)
  match e.history[k]? with
  | some line => e.showLine line (some (k, saved))
  | none => e

/-- The next younger line, at last the one that was edited. -/
def next (e : Editor) : Editor :=
  match e.past with
  | none => e
  | some (0, saved) => e.showLine saved none
  | some (k + 1, saved) => e.showLine (e.history[k]?.getD []) (some (k, saved))

def key (e : Editor) (c : Byte) : Editor :=
  if isEnter c then e.enter
  else if isBackspace c then e.backspace
  else if c = 91 then { e with cursor := e.cursor - 1 }
  else if c = 93 then { e with cursor := min (e.cursor + 1) e.line.length }
  else if c = 44 then e.previous
  else if c = 46 then e.next
  else e.insert c

/-- The editor after some keys. -/
def edit (keys : List Byte) : Editor := keys.foldl key init

end Editor

end Meshx.Cmd
