import Meshx.Common
import Meshx.Lib.Run
import Meshx.Lib.Words

/-! The words of a command line, as they are cut out of the buffer it was edited in. Definitions
carry the names of `meshx_cmd.c` and `meshx_lib.c`. -/
namespace Meshx.Cmd

open Lib

def space : Byte := 32

/-- The number of characters of the longest line. -/
def cmdMaxLen : ℕ := 160

def cmdMaxParameters : ℕ := 20

def charAt (buf : List Byte) (p : ℕ) : Except Fault Byte :=
  match buf[p]? with
  | some c => .ok c
  | none => .error .badRead

def putNul (buf : List Byte) (p : ℕ) : Except Fault (List Byte) :=
  if p < buf.length then .ok (buf.set p 0) else .error .badWrite

section Atoi

/-- The spaces in front of a number; nothing else may follow them. -/
def atoiSkip : List Byte → Except Fault (Option (List Byte))
  | [] => .error .badRead
  | c :: s =>
    if c = space then
      match s with
      | [] => .error .badRead
      | d :: _ => if d = 0 then .ok none else atoiSkip s
    else .ok (some (c :: s))

def isDigit (c : Byte) : Bool := 48 ≤ c && c ≤ 57

def atoiDigits : List Byte → BitVec 32 → Except Fault (BitVec 32)
  | [], _ => .error .badRead
  | c :: s, val =>
    if isDigit c then atoiDigits s (val * 10 + c.setWidth 32 - 48) else .ok val

/-- `meshx_atoi`, of the memory from an address on. -/
def atoi (s : List Byte) : Except Fault (BitVec 32) := do
  match ← atoiSkip s with
  | none => return 0
  | some [] => .error .badRead
  | some (c :: s) =>
    if c = 45 then
      let val ← atoiDigits s 0
      return -val
    else atoiDigits (c :: s) 0

/-- The number that the digits at the start of a text are. -/
def digitsValue (w : List Byte) : ℕ :=
  (w.takeWhile isDigit).foldl (fun val c => val * 10 + (c.toNat - 48)) 0

/-- The number at the start of a word. -/
def wordValue : List Byte → ℤ
  | [] => 0
  | c :: w => if c = 45 then -(digitsValue w : ℤ) else digitsValue (c :: w)

end Atoi

/-- `meshx_cmd_parsed_data_t`; a pointer is an index of the buffer. -/
structure ParsedData where
  pcmd : Option ℕ
  paramCnt : Byte
  paramVal : List (BitVec 32)
  paramPtr : List (Option ℕ)
  deriving DecidableEq, Repr

def ParsedData.zero : ParsedData :=
  ⟨none, 0, .replicate cmdMaxParameters 0, .replicate cmdMaxParameters none⟩

/-- The next entry of the two arrays. -/
def ParsedData.addParam (d : ParsedData) (buf : List Byte) (p : ℕ) : Except Fault ParsedData :=
  if cmdMaxParameters ≤ d.paramCnt.toNat then .error .badWrite
  else do
    let val ← atoi (buf.drop p)
    return { d with
      paramPtr := d.paramPtr.set d.paramCnt.toNat (some p)
      paramVal := d.paramVal.set d.paramCnt.toNat val
      paramCnt := d.paramCnt + 1 }

/-- The first address with no space, if there is one before the tail. -/
def skipSpace (buf : List Byte) (tail : ℕ) : ℕ → ℕ → Except Fault (Option ℕ)
  | 0, _ => .error .hang
  | fuel + 1, p => do
    let c ← charAt buf p
    if c = space then
      if tail ≤ p + 1 then return none else skipSpace buf tail fuel (p + 1)
    else return some p

/-- The end of a word, and whether the tail was reached. -/
def wordEnd (buf : List Byte) (tail : ℕ) : ℕ → ℕ → Except Fault (ℕ × Bool)
  | 0, _ => .error .hang
  | fuel + 1, q => do
    let c ← charAt buf q
    if c = space then return (q, false)
    else if tail ≤ q + 1 then return (q + 1, true) else wordEnd buf tail fuel (q + 1)

/-- The loop over the parameters. -/
def parseParams (tail : ℕ) : ℕ → List Byte → ParsedData → ℕ →
    Except Fault (List Byte × ParsedData)
  | 0, _, _, _ => .error .hang
  | fuel + 1, buf, d, p => do
    match ← skipSpace buf tail (fuel + 2) p with
    | none => return (buf, d)
    | some p =>
      let q ← wordEnd buf tail (fuel + 2) p
      let buf ← putNul buf q.1
      let d ← d.addParam buf p
      if q.2 then return (buf, d) else parseParams tail fuel buf d (q.1 + 1)

/-- `meshx_cmd_parse`. It leaves the end of each word in the buffer. -/
def cmdParse (buf : List Byte) (len : ℕ) : Except Fault (Bool × List Byte × ParsedData) := do
  match ← skipSpace buf len (len + 1) 0 with
  | none => return (false, buf, .zero)
  | some p =>
    let q ← wordEnd buf len (len + 1) p
    let buf ← putNul buf q.1
    let d := { ParsedData.zero with pcmd := some p }
    if q.2 then return (true, buf, d)
    else do
      let (buf, d) ← parseParams len (len + 1) buf d (q.1 + 1)
      return (true, buf, d)

/-- A line in its buffer: a zero behind it, and no other in it. -/
structure CmdLine where
  line : List Byte
  behind : List Byte
  line_ne : line ≠ []
  noNul : 0 ∉ line
  size : line.length + 1 + behind.length = cmdMaxLen + 2
  short : line.length ≤ cmdMaxLen

def CmdLine.buf (l : CmdLine) : List Byte := l.line ++ 0 :: l.behind

/-- The words of a line, with their places. -/
def words (line : List Byte) : List (ℕ × List Byte) := wordsFrom (· == space) 0 false line

example : words [space, 97, 98, space, space, 99] = [(1, [97, 98]), (5, [99])] := by decide

/-- There is a string at the address. -/
def StringAt (buf : List Byte) (w : ℕ × List Byte) : Prop := (w.2 ++ [0]) <+: buf.drop w.1

/-- The arrays hold these parameters and are unused behind them. -/
structure ParsedData.Holds (d : ParsedData) (params : List (ℕ × List Byte)) : Prop where
  cnt : d.paramCnt.toNat = params.length
  ptr : d.paramPtr = params.map (fun w => some w.1) ++
    .replicate (cmdMaxParameters - params.length) none
  val : d.paramVal = params.map (fun w => BitVec.ofInt 32 (wordValue w.2)) ++
    .replicate (cmdMaxParameters - params.length) 0
  le : params.length ≤ cmdMaxParameters

/-- What was found is the first word and then the others, all of them strings within the line. -/
structure Parsed (line buf : List Byte) (d : ParsedData) : Prop where
  words : ∃ cmd params, words line = cmd :: params ∧ d.pcmd = some cmd.1 ∧ d.Holds params
  strings : ∀ w ∈ Cmd.words line, w.1 < line.length ∧ StringAt buf w

/-- The line is parsed without a fault, and as it should be. -/
def ParsesRight (l : CmdLine) : Prop :=
  ∃ ok buf d, cmdParse l.buf l.line.length = .ok (ok, buf, d) ∧
    (ok = false ↔ ∀ c ∈ l.line, c = space) ∧ (ok = true → Parsed l.line buf d)

/-- One space alone stands at the end of the line. -/
def LoneSpace (line : List Byte) : Prop := ∃ s c, c ≠ space ∧ line = s ++ [c, space]

variable {buf before behind w xs s : List Byte} {tail fuel p : ℕ} {c : Byte} {d : ParsedData}
  {params : List (ℕ × List Byte)}

section Scan

theorem charAt_append : charAt (before ++ c :: behind) before.length = .ok c := by
  rw [charAt, List.getElem?_append_right le_rfl, Nat.sub_self]
  rfl

theorem putNul_append :
    putNul (before ++ c :: behind) before.length = .ok (before ++ 0 :: behind) := by
  rw [putNul, if_pos (by simp), List.set_append_right _ _ le_rfl, Nat.sub_self]
  rfl

theorem skipSpace_succ : skipSpace (before ++ c :: behind) tail (fuel + 1) before.length =
    if c = space then
      if tail ≤ before.length + 1 then .ok none
      else skipSpace (before ++ c :: behind) tail fuel (before.length + 1)
    else .ok (some before.length) := by
  rw [skipSpace, charAt_append]
  rfl

theorem wordEnd_succ : wordEnd (before ++ c :: behind) tail (fuel + 1) before.length =
    if c = space then .ok (before.length, false)
    else if tail ≤ before.length + 1 then .ok (before.length + 1, true)
    else wordEnd (before ++ c :: behind) tail fuel (before.length + 1) := by
  rw [wordEnd, charAt_append]
  rfl

theorem skipSpace_stop (hxs : ∀ x ∈ xs, x = space) (hc : c ≠ space)
    (htail : xs = [] ∨ before.length + xs.length < tail) (hfuel : xs.length < fuel) :
    skipSpace (before ++ (xs ++ c :: behind)) tail fuel before.length =
      .ok (some (before.length + xs.length)) := by
  induction xs generalizing before fuel with
  | nil =>
    obtain ⟨fuel, rfl⟩ : ∃ k, fuel = k + 1 := ⟨fuel - 1, by simp at hfuel; omega⟩
    rw [List.nil_append, skipSpace_succ, if_neg hc]
    rfl
  | cons x xs ih =>
    obtain ⟨fuel, rfl⟩ : ∃ k, fuel = k + 1 := ⟨fuel - 1, by omega⟩
    obtain rfl := hxs x List.mem_cons_self
    have hlt : before.length + (xs.length + 1) < tail := htail.resolve_left (List.cons_ne_nil _ _)
    have hrest : skipSpace ((before ++ [space]) ++ (xs ++ c :: behind)) tail fuel
        (before ++ [space]).length = .ok (some ((before ++ [space]).length + xs.length)) :=
      ih (fun y hy => hxs y (List.mem_cons_of_mem _ hy)) (.inr (by simp; omega))
        (Nat.lt_of_succ_lt_succ hfuel)
    rw [List.append_assoc, List.length_append, List.length_singleton] at hrest
    rw [List.cons_append, skipSpace_succ, if_pos rfl, if_neg (by omega)]
    refine hrest.trans ?_
    rw [List.length_cons, Nat.add_assoc, Nat.add_comm 1]

theorem skipSpace_all (hxs : ∀ x ∈ xs, x = space) (hne : xs ≠ [])
    (htail : tail = before.length + xs.length) (hfuel : xs.length ≤ fuel) :
    skipSpace (before ++ (xs ++ behind)) tail fuel before.length = .ok none := by
  induction xs generalizing before fuel with
  | nil => exact absurd rfl hne
  | cons x xs ih =>
    obtain ⟨fuel, rfl⟩ : ∃ k, fuel = k + 1 := ⟨fuel - 1, by simp at hfuel; omega⟩
    obtain rfl := hxs x List.mem_cons_self
    rw [List.cons_append, skipSpace_succ, if_pos rfl]
    cases xs with
    | nil => exact if_pos (by simp [htail])
    | cons y xs =>
      have hrest : skipSpace ((before ++ [space]) ++ (y :: xs ++ behind)) tail fuel
          (before ++ [space]).length = .ok none :=
        ih (fun z hz => hxs z (List.mem_cons_of_mem _ hz)) (List.cons_ne_nil y xs)
          (by simp [htail]; omega) (Nat.le_of_succ_le_succ hfuel)
      rw [List.append_assoc, List.length_append, List.length_singleton] at hrest
      rw [if_neg (by simp [htail])]
      exact hrest

theorem wordEnd_stop (hw : ∀ x ∈ w, x ≠ space) (htail : before.length + w.length < tail)
    (hfuel : w.length < fuel) :
    wordEnd (before ++ (w ++ space :: behind)) tail fuel before.length =
      .ok (before.length + w.length, false) := by
  induction w generalizing before fuel with
  | nil =>
    obtain ⟨fuel, rfl⟩ : ∃ k, fuel = k + 1 := ⟨fuel - 1, by simp at hfuel; omega⟩
    rw [List.nil_append, wordEnd_succ, if_pos rfl]
    rfl
  | cons x w ih =>
    obtain ⟨fuel, rfl⟩ : ∃ k, fuel = k + 1 := ⟨fuel - 1, by omega⟩
    rw [List.length_cons] at htail hfuel
    have hrest : wordEnd ((before ++ [x]) ++ (w ++ space :: behind)) tail fuel
        (before ++ [x]).length = .ok ((before ++ [x]).length + w.length, false) :=
      ih (fun y hy => hw y (List.mem_cons_of_mem _ hy)) (by simp; omega)
        (Nat.lt_of_succ_lt_succ hfuel)
    rw [List.append_assoc, List.length_append, List.length_singleton] at hrest
    rw [List.cons_append, wordEnd_succ, if_neg (hw x List.mem_cons_self), if_neg (by omega)]
    refine hrest.trans ?_
    rw [List.length_cons, Nat.add_assoc, Nat.add_comm 1]

theorem wordEnd_tail (hw : ∀ x ∈ w, x ≠ space) (hne : w ≠ [])
    (htail : tail = before.length + w.length) (hfuel : w.length ≤ fuel) :
    wordEnd (before ++ (w ++ behind)) tail fuel before.length = .ok (tail, true) := by
  induction w generalizing before fuel with
  | nil => exact absurd rfl hne
  | cons x w ih =>
    obtain ⟨fuel, rfl⟩ : ∃ k, fuel = k + 1 := ⟨fuel - 1, by simp at hfuel; omega⟩
    rw [List.cons_append, wordEnd_succ, if_neg (hw x List.mem_cons_self)]
    cases w with
    | nil =>
      rw [if_pos (by simp [htail]), htail]
      rfl
    | cons y w =>
      simp only [List.length_cons] at htail hfuel
      have hrest : wordEnd ((before ++ [x]) ++ (y :: w ++ behind)) tail fuel
          (before ++ [x]).length = .ok (tail, true) :=
        ih (fun z hz => hw z (List.mem_cons_of_mem _ hz)) (List.cons_ne_nil y w)
          (by simp [htail]; omega) (Nat.le_of_succ_le_succ hfuel)
      rw [List.append_assoc, List.length_append, List.length_singleton] at hrest
      rw [if_neg (by omega)]
      exact hrest

/-- The last word of a line is found, and there is a zero behind it already. -/
theorem word_last (hbuf : buf = before ++ (xs ++ (w ++ 0 :: behind))) (hxs : ∀ x ∈ xs, x = space)
    (hne : w ≠ []) (hw : ∀ x ∈ w, x ≠ space)
    (htail : tail = before.length + (xs.length + w.length))
    (hfuel : xs.length + w.length < fuel) :
    skipSpace buf tail fuel before.length = .ok (some (before.length + xs.length)) ∧
      wordEnd buf tail fuel (before.length + xs.length) = .ok (tail, true) ∧
      putNul buf tail = .ok buf := by
  obtain ⟨c, v, hcv⟩ := List.exists_cons_of_ne_nil hne
  have hc : c ≠ space := hw c (by rw [hcv]; exact List.mem_cons_self)
  have hpos : 0 < w.length := List.length_pos_iff.mpr hne
  rw [hbuf]
  refine ⟨?_, ?_, ?_⟩
  · rw [hcv]
    exact skipSpace_stop hxs hc (.inr (by omega)) (by omega)
  · have hend : wordEnd ((before ++ xs) ++ (w ++ 0 :: behind)) tail fuel
        (before ++ xs).length = .ok (tail, true) :=
      wordEnd_tail hw hne (by rw [List.length_append]; omega) (by omega)
    rwa [List.append_assoc, List.length_append] at hend
  · have hput : putNul ((before ++ (xs ++ w)) ++ 0 :: behind) (before ++ (xs ++ w)).length =
        .ok ((before ++ (xs ++ w)) ++ 0 :: behind) := putNul_append
    rwa [List.append_assoc, List.append_assoc, List.length_append, List.length_append,
      ← htail] at hput

/-- A word with a space behind it is found, and the space is overwritten. -/
theorem word_next (hbuf : buf = before ++ (xs ++ (w ++ space :: behind)))
    (hxs : ∀ x ∈ xs, x = space) (hne : w ≠ []) (hw : ∀ x ∈ w, x ≠ space)
    (htail : before.length + (xs.length + w.length) < tail)
    (hfuel : xs.length + w.length < fuel) :
    skipSpace buf tail fuel before.length = .ok (some (before.length + xs.length)) ∧
      wordEnd buf tail fuel (before.length + xs.length) =
        .ok (before.length + xs.length + w.length, false) ∧
      putNul buf (before.length + xs.length + w.length) =
        .ok (before ++ (xs ++ (w ++ 0 :: behind))) := by
  obtain ⟨c, v, hcv⟩ := List.exists_cons_of_ne_nil hne
  have hc : c ≠ space := hw c (by rw [hcv]; exact List.mem_cons_self)
  rw [hbuf]
  refine ⟨?_, ?_, ?_⟩
  · rw [hcv]
    exact skipSpace_stop hxs hc (.inr (by omega)) (by omega)
  · have hend : wordEnd ((before ++ xs) ++ (w ++ space :: behind)) tail fuel
        (before ++ xs).length = .ok ((before ++ xs).length + w.length, false) :=
      wordEnd_stop hw (by rw [List.length_append]; omega) (by omega)
    rwa [List.append_assoc, List.length_append] at hend
  · have hput : putNul ((before ++ (xs ++ w)) ++ space :: behind) (before ++ (xs ++ w)).length =
        .ok ((before ++ (xs ++ w)) ++ 0 :: behind) := putNul_append
    rwa [List.append_assoc, List.append_assoc, List.append_assoc, List.append_assoc,
      List.length_append, List.length_append, ← Nat.add_assoc] at hput

end Scan

section Atoi

theorem atoiDigits_eq (n : ℕ) : atoiDigits (w ++ 0 :: behind) (BitVec.ofNat 32 n) =
    .ok (BitVec.ofNat 32
      ((w.takeWhile isDigit).foldl (fun val c => val * 10 + (c.toNat - 48)) n)) := by
  induction w generalizing n with
  | nil => rfl
  | cons c w ih =>
    rw [List.cons_append, atoiDigits]
    by_cases hc : isDigit c = true
    · have hle : 48 ≤ c.toNat := by
        simp only [isDigit, Bool.and_eq_true, decide_eq_true_eq, BitVec.le_def] at hc
        exact hc.1
      have hval : BitVec.ofNat 32 n * 10 + c.setWidth 32 - 48 =
          BitVec.ofNat 32 (n * 10 + (c.toNat - 48)) := by
        have hlt := c.isLt
        have hten : (10 : BitVec 32).toNat = 10 := rfl
        have hzero : (48 : BitVec 32).toNat = 48 := rfl
        apply BitVec.eq_of_toNat_eq
        simp only [BitVec.toNat_sub, BitVec.toNat_add, BitVec.toNat_mul, BitVec.toNat_ofNat,
          BitVec.toNat_setWidth, hten, hzero]
        omega
      rw [if_pos hc, hval, ih, List.takeWhile_cons_of_pos hc, List.foldl_cons]
    · rw [if_neg hc, List.takeWhile_cons_of_neg hc, List.foldl_nil]

theorem atoiSkip_cons (hc : c ≠ space) : atoiSkip (c :: s) = .ok (some (c :: s)) := by
  rw [atoiSkip.eq_def]
  exact if_neg hc

/-- The value of a word that ends with a zero. -/
theorem atoi_eq (hw : ∀ x ∈ w, x ≠ space) :
    atoi (w ++ 0 :: behind) = .ok (BitVec.ofInt 32 (wordValue w)) := by
  cases w with
  | nil => rfl
  | cons c w =>
    rw [atoi, List.cons_append, atoiSkip_cons (hw c List.mem_cons_self)]
    have hdigits (v : List Byte) : atoiDigits (v ++ 0 :: behind) 0 =
        .ok (BitVec.ofNat 32 (digitsValue v)) := atoiDigits_eq 0
    change (if c = 45 then _ else _) = _
    rw [wordValue]
    split_ifs with hc
    · rw [hdigits]
      change Except.ok _ = _
      rw [BitVec.ofInt_neg, BitVec.ofInt_natCast]
    · rw [← List.cons_append, hdigits, BitVec.ofInt_natCast]

end Atoi

section Params

theorem addParam_eq (hd : d.Holds params) (hroom : params.length < cmdMaxParameters)
    (hbuf : buf.drop p = w ++ 0 :: behind) (hw : ∀ x ∈ w, x ≠ space) :
    ∃ d', d.addParam buf p = .ok d' ∧ d'.pcmd = d.pcmd ∧ d'.Holds (params ++ [(p, w)]) := by
  have hcnt := hd.cnt
  have hroom' : params.length < 20 := hroom
  have hset {α : Type} (f : ℕ × List Byte → α) (x : α) :
      (params.map f ++ List.replicate (cmdMaxParameters - params.length) x).set
        params.length (f (p, w)) = (params ++ [(p, w)]).map f ++
          List.replicate (cmdMaxParameters - (params ++ [(p, w)]).length) x := by
    obtain ⟨k, hk⟩ : ∃ k, cmdMaxParameters - params.length = k + 1 :=
      ⟨cmdMaxParameters - params.length - 1, by omega⟩
    have hk' : cmdMaxParameters - (params ++ [(p, w)]).length = k := by simp; omega
    rw [hk, hk', List.set_append_right _ _ (by simp), List.length_map, Nat.sub_self,
      List.replicate_succ, List.set_cons_zero, List.map_append, List.append_assoc]
    rfl
  refine ⟨{ d with
    paramPtr := d.paramPtr.set d.paramCnt.toNat (some p)
    paramVal := d.paramVal.set d.paramCnt.toNat (BitVec.ofInt 32 (wordValue w))
    paramCnt := d.paramCnt + 1 }, ?_, rfl, ?_⟩
  · rw [ParsedData.addParam, if_neg (by rw [hcnt]; exact Nat.not_le.mpr hroom), hbuf, atoi_eq hw]
    rfl
  · refine ⟨?_, ?_, ?_, ?_⟩
    · have : d.paramCnt.toNat < 20 := by omega
      simp only [List.length_append, List.length_singleton]
      bv_omega
    · dsimp only
      rw [hcnt, hd.ptr]
      exact hset (fun w => some w.1) none
    · dsimp only
      rw [hcnt, hd.val]
      exact hset (fun w => BitVec.ofInt 32 (wordValue w.2)) 0
    · simpa using hroom

theorem addParam_full (hd : d.Holds params) (hfull : params.length = cmdMaxParameters) :
    d.addParam buf p = .error .badWrite := by
  rw [ParsedData.addParam, if_pos (by rw [hd.cnt, hfull])]

/-- The text ends right behind the separator of a word, which may stand before the text. -/
def endsOpen (s : List Byte) : Bool :=
  match s.reverse with
  | [] => true
  | [_] => false
  | c :: x :: _ => c == space && x != space

/-- The empty word that is found behind a lone space. -/
def trailing (p : ℕ) (s : List Byte) : List (ℕ × List Byte) :=
  if endsOpen s then [(p + s.length, [])] else []

theorem endsOpen_iff (hs : s ≠ []) : endsOpen s = true ↔ LoneSpace s := by
  obtain ⟨r, hr⟩ : ∃ r, r = s.reverse := ⟨_, rfl⟩
  have hrs : s = r.reverse := by rw [hr, List.reverse_reverse]
  subst hrs
  rw [endsOpen, List.reverse_reverse, LoneSpace]
  match r with
  | [] => exact absurd rfl hs
  | [c] =>
    refine ⟨fun h => (by cases h), ?_⟩
    rintro ⟨t, x, -, ht⟩
    have := congrArg List.length ht
    simp at this
  | c :: x :: r =>
    simp only [Bool.and_eq_true, beq_iff_eq, bne_iff_ne, List.reverse_cons, List.append_assoc]
    refine ⟨fun ⟨hc, hx⟩ => ⟨r.reverse, x, hx, by rw [hc]; rfl⟩, ?_⟩
    rintro ⟨t, y, hy, ht⟩
    obtain ⟨-, hlast⟩ := List.append_inj' ht rfl
    simp only [List.cons_append, List.nil_append, List.cons.injEq, and_true] at hlast
    exact ⟨hlast.2, hlast.1 ▸ hy⟩

theorem endsOpen_word (hne : w ≠ []) (hw : ∀ x ∈ w, x ≠ space) : endsOpen (xs ++ w) = false := by
  obtain ⟨v, c, rfl⟩ : ∃ v c, w = v ++ [c] := ⟨_, _, (List.dropLast_concat_getLast hne).symm⟩
  have hc : c ≠ space := hw c (by simp)
  rw [endsOpen, ← List.append_assoc, List.reverse_append, List.reverse_singleton,
    List.singleton_append]
  cases (xs ++ v).reverse with
  | nil => rfl
  | cons x r => simp [hc]

theorem endsOpen_seps (hne : xs ≠ []) (hxs : ∀ x ∈ xs, x = space) : endsOpen xs = false := by
  rw [endsOpen]
  match hr : xs.reverse with
  | [] => exact absurd (List.reverse_eq_nil_iff.mp hr) hne
  | [_] => rfl
  | c :: x :: r =>
    have hx : x = space := hxs x (List.mem_reverse.mp (by rw [hr]; simp))
    simp [hx]

/-- What follows the separator of a word decides. -/
theorem endsOpen_append (hne : w ≠ []) (hw : ∀ x ∈ w, x ≠ space) :
    endsOpen (xs ++ (w ++ space :: s)) = endsOpen s := by
  obtain ⟨v, c, rfl⟩ : ∃ v c, w = v ++ [c] := ⟨_, _, (List.dropLast_concat_getLast hne).symm⟩
  have hc : c ≠ space := hw c (by simp)
  rw [endsOpen, endsOpen]
  simp only [List.reverse_append, List.reverse_cons, List.append_assoc, List.nil_append,
    List.cons_append]
  match s.reverse with
  | [] => simp [hc]
  | [x] => simp
  | x :: y :: r => rfl

theorem trailing_append (p : ℕ) (hne : w ≠ []) (hw : ∀ x ∈ w, x ≠ space) :
    trailing p (xs ++ (w ++ space :: s)) = trailing (p + xs.length + w.length + 1) s := by
  rw [trailing, trailing, endsOpen_append hne hw]
  simp only [List.length_append, List.length_cons]
  rw [show p + (xs.length + (w.length + (s.length + 1))) =
    p + xs.length + w.length + 1 + s.length by omega]

theorem words_allSpaces (hxs : ∀ x ∈ xs, x = space) : wordsFrom (· == space) p false xs = [] :=
  wordsFrom_allSeps fun x hx => beq_iff_eq.mpr (hxs x hx)

theorem words_last (hxs : ∀ x ∈ xs, x = space) (hne : w ≠ []) (hw : ∀ x ∈ w, x ≠ space) :
    wordsFrom (· == space) p false (xs ++ w) = [(p + xs.length, w)] := by
  rw [wordsFrom_seps fun x hx => beq_iff_eq.mpr (hxs x hx),
    wordsFrom_last hne fun x hx => beq_eq_false_iff_ne.mpr (hw x hx)]

theorem words_next (hxs : ∀ x ∈ xs, x = space) (hne : w ≠ []) (hw : ∀ x ∈ w, x ≠ space) :
    wordsFrom (· == space) p false (xs ++ (w ++ space :: s)) = (p + xs.length, w) ::
      wordsFrom (· == space) (p + xs.length + w.length + 1) false s := by
  rw [wordsFrom_seps fun x hx => beq_iff_eq.mpr (hxs x hx),
    wordsFrom_word hne (fun x hx => beq_eq_false_iff_ne.mpr (hw x hx)) (beq_iff_eq.mpr rfl)]

/-- The three forms of what is left of a line. -/
theorem line_cases (s : List Byte) : (∀ x ∈ s, x = space) ∨
    ∃ xs w, (∀ x ∈ xs, x = space) ∧ w ≠ [] ∧ (∀ x ∈ w, x ≠ space) ∧
      (s = xs ++ w ∨ ∃ t, s = xs ++ (w ++ space :: t)) := by
  rcases text_cases (· == space) s with h | ⟨xs, w, hxs, hne, hw, hs⟩
  · exact .inl fun x hx => beq_iff_eq.mp (h x hx)
  · refine .inr ⟨xs, w, fun x hx => beq_iff_eq.mp (hxs x hx), hne,
      fun x hx => beq_eq_false_iff_ne.mp (hw x hx), hs.imp_right ?_⟩
    rintro ⟨c, t, hc, rfl⟩
    exact ⟨t, by rw [beq_iff_eq.mp hc]⟩

/-- What the loop comes to: the words of the rest of the line, and the empty one behind a lone
space, are added, or there is no room for them. -/
structure Params (tail : ℕ) (before : List Byte) (d : ParsedData)
    (params new found : List (ℕ × List Byte)) (result : Except Fault (List Byte × ParsedData)) :
    Prop where
  room : (params ++ new).length ≤ cmdMaxParameters → ∃ buf' d', result = .ok (buf', d') ∧
    d'.pcmd = d.pcmd ∧ d'.Holds (params ++ new) ∧ before <+: buf' ∧
      ∀ w ∈ found, w.1 < tail ∧ StringAt buf' w
  full : cmdMaxParameters < (params ++ new).length → result = .error .badWrite

theorem stringAt_of_prefix (h : (before ++ (w ++ [0])) <+: buf) :
    StringAt buf (before.length, w) := by
  obtain ⟨behind, rfl⟩ := h
  rw [StringAt, List.append_assoc, List.drop_left]
  exact List.prefix_append (w ++ [0]) behind

theorem parseParams_none (hxs : ∀ x ∈ xs, x = space) (hne : xs ≠ [])
    (htail : tail = before.length + xs.length) (hfuel : xs.length ≤ fuel + 1) :
    parseParams tail (fuel + 1) (before ++ (xs ++ behind)) d before.length =
      .ok (before ++ (xs ++ behind), d) := by
  rw [parseParams, skipSpace_all hxs hne htail (hfuel.trans (Nat.le_succ _))]
  rfl

theorem parseParams_word {q : ℕ × Bool} {buf' : List Byte}
    (hskip : skipSpace buf tail (fuel + 2) before.length = .ok (some p))
    (hend : wordEnd buf tail (fuel + 2) p = .ok q) (hput : putNul buf q.1 = .ok buf') :
    parseParams tail (fuel + 1) buf d before.length = (d.addParam buf' p).bind fun d =>
      if q.2 then .ok (buf', d) else parseParams tail fuel buf' d (q.1 + 1) := by
  rw [parseParams, hskip, ok_bind]
  dsimp only
  rw [hend, ok_bind, hput, ok_bind]
  rfl

/-- The last word. -/
theorem Params.last (hd : d.Holds params) (hbuf : buf = before ++ (xs ++ (w ++ 0 :: behind)))
    (hw : ∀ x ∈ w, x ≠ space) (hp : p = before.length + xs.length)
    {found : List (ℕ × List Byte)} (hfound : ∀ v ∈ found, v = (p, w) ∧ p < tail) :
    Params tail before d params [(p, w)] found
      ((d.addParam buf p).bind fun d => .ok (buf, d)) := by
  have hdrop : buf.drop p = w ++ 0 :: behind := by
    rw [hbuf, hp, ← List.append_assoc, ← List.length_append, List.drop_left]
  refine ⟨fun hroom => ?_, fun hfull => ?_⟩
  · obtain ⟨d', hadd, hpcmd, hholds⟩ := addParam_eq hd (by simpa using hroom) hdrop hw
    refine ⟨buf, d', by rw [hadd]; rfl, hpcmd, hholds, ⟨_, hbuf.symm⟩, fun v hv => ?_⟩
    obtain ⟨rfl, hlt⟩ := hfound v hv
    refine ⟨hlt, behind, ?_⟩
    rw [hdrop, List.append_assoc]
    rfl
  · have hle := hd.le
    have hlen : params.length = cmdMaxParameters := by
      rw [List.length_append, List.length_singleton] at hfull
      omega
    rw [addParam_full hd hlen]
    rfl

/-- A word, and then the rest. -/
theorem Params.cons {new found : List (ℕ × List Byte)} {after : ParsedData →
      Except Fault (List Byte × ParsedData)}
    (hd : d.Holds params) (hbuf : buf = before ++ (xs ++ (w ++ 0 :: behind)))
    (hw : ∀ x ∈ w, x ≠ space) (hp : p = before.length + xs.length) (hlt : p < tail)
    (hrest : ∀ d', d'.Holds (params ++ [(p, w)]) →
      Params tail (before ++ (xs ++ (w ++ [0]))) d' (params ++ [(p, w)]) new found (after d')) :
    Params tail before d params ((p, w) :: new) ((p, w) :: found)
      ((d.addParam buf p).bind after) := by
  have hdrop : buf.drop p = w ++ 0 :: behind := by
    rw [hbuf, hp, ← List.append_assoc, ← List.length_append, List.drop_left]
  have hsplit : params ++ (p, w) :: new = params ++ [(p, w)] ++ new := by
    rw [List.append_assoc]
    rfl
  rcases Nat.lt_or_ge params.length cmdMaxParameters with hroom | hfull
  · obtain ⟨d', hadd, hpcmd, hholds⟩ := addParam_eq hd hroom hdrop hw
    have hafter := hrest d' hholds
    rw [hadd]
    refine ⟨fun hle => ?_, fun hlt => ?_⟩
    · rw [hsplit] at hle ⊢
      obtain ⟨buf', d'', hrun, hpcmd', hholds', hprefix, hfound⟩ := hafter.room hle
      refine ⟨buf', d'', hrun, hpcmd'.trans hpcmd, hholds', (List.prefix_append _ _).trans hprefix,
        fun v hv => ?_⟩
      rcases List.mem_cons.mp hv with rfl | hv
      · refine ⟨hlt, ?_⟩
        rw [hp, ← List.length_append]
        refine stringAt_of_prefix ?_
        rwa [List.append_assoc]
      · exact hfound v hv
    · rw [hsplit] at hlt
      exact hafter.full hlt
  · have hlen : params.length = cmdMaxParameters := le_antisymm hd.le hfull
    rw [addParam_full hd hlen]
    refine ⟨fun hle => ?_, fun _ => rfl⟩
    rw [List.length_append, List.length_cons] at hle
    omega

/-- Right behind the separator of the last word, the zero is taken for a word. -/
theorem parseParams_empty (hd : d.Holds params) (hbehind : behind ≠ [])
    (htail : tail = before.length) :
    Params tail before d params [(before.length, [])] []
      (parseParams tail (fuel + 1) (before ++ 0 :: behind) d before.length) := by
  obtain ⟨b, rest, rfl⟩ := List.exists_cons_of_ne_nil hbehind
  have hskip : skipSpace (before ++ 0 :: b :: rest) tail (fuel + 2) before.length =
      .ok (some before.length) := skipSpace_succ.trans (if_neg (by decide))
  have hend : wordEnd (before ++ 0 :: b :: rest) tail (fuel + 2) before.length =
      .ok (before.length + 1, true) := by
    rw [wordEnd_succ, if_neg (by decide), if_pos (by omega)]
  have hput : putNul (before ++ 0 :: b :: rest) (before.length + 1) =
      .ok (before ++ 0 :: 0 :: rest) := by
    have hput' : putNul ((before ++ [0]) ++ b :: rest) (before ++ [(0 : Byte)]).length =
        .ok ((before ++ [0]) ++ 0 :: rest) := putNul_append
    rwa [List.append_assoc, List.append_assoc, List.length_append,
      List.length_singleton] at hput'
  rw [parseParams_word hskip hend hput]
  have hbuf : before ++ 0 :: 0 :: rest = before ++ ([] ++ ([] ++ 0 :: 0 :: rest)) := rfl
  exact Params.last hd hbuf (by simp) rfl (by simp)

theorem Params.none {buf : List Byte} (hd : d.Holds params) (hbuf : before <+: buf) :
    Params tail before d params [] [] (.ok (buf, d)) := by
  refine ⟨fun _ => ⟨buf, d, rfl, rfl, ?_, hbuf, by simp⟩, fun hlt => ?_⟩
  · rwa [List.append_nil]
  · rw [List.append_nil] at hlt
    exact absurd hd.le (Nat.not_le.mpr hlt)

/-- One word is added, at the end of the line or before the rest of it. -/
theorem parseParams_spec (hfuel : s.length < fuel) (hd : d.Holds params)
    (hbehind : behind ≠ []) (htail : tail = before.length + s.length) :
    Params tail before d params
      (wordsFrom (· == space) before.length false s ++ trailing before.length s)
      (wordsFrom (· == space) before.length false s)
      (parseParams tail fuel (before ++ (s ++ 0 :: behind)) d before.length) := by
  induction fuel generalizing s before d params with
  | zero => cases hfuel
  | succ fuel ih =>
    rcases line_cases s with hspaces | ⟨xs, w, hxs, hne, hw, rfl | ⟨t, rfl⟩⟩
    · rw [words_allSpaces hspaces, List.nil_append]
      cases hempty : s with
      | nil =>
        rw [hempty] at htail
        exact parseParams_empty hd hbehind htail
      | cons x xs =>
        rw [hempty] at hspaces htail hfuel
        have hopen : endsOpen (x :: xs) = false :=
          endsOpen_seps (List.cons_ne_nil x xs) hspaces
        rw [trailing, hopen, if_neg Bool.false_ne_true,
          parseParams_none hspaces (List.cons_ne_nil x xs) htail (by omega)]
        exact Params.none hd (List.prefix_append _ _)
    · have hpos : 0 < w.length := List.length_pos_iff.mpr hne
      rw [List.length_append] at htail hfuel
      rw [List.append_assoc]
      have hfound : skipSpace (before ++ (xs ++ (w ++ 0 :: behind))) tail (fuel + 2)
          before.length = _ ∧ _ ∧ _ := word_last rfl hxs hne hw htail (by omega)
      obtain ⟨hskip, hend, hput⟩ := hfound
      have hopen : endsOpen (xs ++ w) = false := endsOpen_word hne hw
      rw [words_last hxs hne hw, trailing, hopen, if_neg Bool.false_ne_true, List.append_nil,
        parseParams_word hskip hend hput]
      refine Params.last hd rfl hw rfl fun u hu => ?_
      exact ⟨List.mem_singleton.mp hu, by omega⟩
    · have hpos : 0 < w.length := List.length_pos_iff.mpr hne
      simp only [List.length_append, List.length_cons] at htail hfuel
      rw [List.append_assoc, List.append_assoc, List.cons_append]
      have hfound : skipSpace (before ++ (xs ++ (w ++ space :: (t ++ 0 :: behind)))) tail
          (fuel + 2) before.length = _ ∧ _ ∧ _ := word_next rfl hxs hne hw (by omega) (by omega)
      obtain ⟨hskip, hend, hput⟩ := hfound
      rw [words_next hxs hne hw, trailing_append _ hne hw, parseParams_word hskip hend hput]
      have hnew : (before ++ (xs ++ (w ++ [0]))).length =
          before.length + xs.length + w.length + 1 := by
        simp only [List.length_append, List.length_singleton]
        omega
      refine Params.cons hd rfl hw rfl (by omega) fun d' hd' => ?_
      have hrest := @ih (before ++ (xs ++ (w ++ [0]))) t d'
        (params ++ [(before.length + xs.length, w)]) (by omega) hd' (by omega)
      rw [hnew] at hrest
      have hsame : before ++ (xs ++ (w ++ 0 :: (t ++ 0 :: behind))) =
          before ++ (xs ++ (w ++ [0])) ++ (t ++ 0 :: behind) := by simp
      rw [hsame]
      exact hrest

end Params

section Line

theorem zero_holds : ParsedData.zero.Holds [] := by
  refine ⟨rfl, rfl, rfl, Nat.zero_le _⟩

theorem holds_congr (hd : d.Holds params) (x : Option ℕ) :
    ({ d with pcmd := x } : ParsedData).Holds params := ⟨hd.cnt, hd.ptr, hd.val, hd.le⟩

/-- A line of spaces has no command. -/
theorem cmdParse_spaces {line : List Byte} (hne : line ≠ []) (h : ∀ c ∈ line, c = space) :
    cmdParse (line ++ 0 :: behind) line.length = .ok (false, line ++ 0 :: behind, .zero) := by
  have hskip : skipSpace ([] ++ (line ++ 0 :: behind)) line.length (line.length + 1)
      ([] : List Byte).length = .ok none := skipSpace_all h hne (by simp) (Nat.le_succ _)
  rw [List.nil_append, List.length_nil] at hskip
  rw [cmdParse, hskip]
  rfl

theorem cmdParse_found {len : ℕ} {q : ℕ × Bool} {buf' : List Byte}
    (hskip : skipSpace buf len (len + 1) 0 = .ok (some p))
    (hend : wordEnd buf len (len + 1) p = .ok q) (hput : putNul buf q.1 = .ok buf') :
    cmdParse buf len = if q.2 then .ok (true, buf', { ParsedData.zero with pcmd := some p })
      else (fun r => (true, r.1, r.2)) <$>
        parseParams len (len + 1) buf' { ParsedData.zero with pcmd := some p } (q.1 + 1) := by
  rw [cmdParse, hskip, ok_bind]
  dsimp only
  rw [hend, ok_bind, hput, ok_bind]
  rfl

/-- What a line with a word comes to: its words are found, and the empty one behind a lone space,
or there is no room for them. -/
theorem cmdParse_words {line : List Byte} (hbehind : behind ≠ []) (h : ¬ ∀ c ∈ line, c = space) :
    ∃ cmd params, words line = cmd :: params ∧
      ((params ++ trailing 0 line).length ≤ cmdMaxParameters → ∃ buf d,
        cmdParse (line ++ 0 :: behind) line.length = .ok (true, buf, d) ∧ d.pcmd = some cmd.1 ∧
          d.Holds (params ++ trailing 0 line) ∧
          ∀ w ∈ words line, w.1 < line.length ∧ StringAt buf w) ∧
      (cmdMaxParameters < (params ++ trailing 0 line).length →
        cmdParse (line ++ 0 :: behind) line.length = .error .badWrite) := by
  obtain ⟨xs, w, hxs, hne, hw, hform⟩ := (line_cases line).resolve_left h
  have hpos : 0 < w.length := List.length_pos_iff.mpr hne
  rcases hform with hline | ⟨t, hline⟩
  · have hlen : line.length = xs.length + w.length := by rw [hline, List.length_append]
    have hbuf : line ++ 0 :: behind = [] ++ (xs ++ (w ++ 0 :: behind)) := by
      rw [hline, List.append_assoc, List.nil_append]
    have hfound : skipSpace _ line.length (line.length + 1) ([] : List Byte).length = _ ∧ _ ∧ _ :=
      word_last hbuf hxs hne hw (by simpa using hlen) (by omega)
    obtain ⟨hskip, hend, hput⟩ := hfound
    rw [List.length_nil, Nat.zero_add] at hskip hend
    have htrail : trailing 0 line = [] := by
      rw [trailing, hline, endsOpen_word hne hw]
      rfl
    have hwords : words line = [(xs.length, w)] := by
      rw [words, hline, words_last hxs hne hw, Nat.zero_add]
    have hrun := cmdParse_found hskip hend hput
    refine ⟨(xs.length, w), [], hwords, fun _ => ?_, fun hlt => ?_⟩
    · refine ⟨_, _, hrun, rfl, ?_, fun u hu => ?_⟩
      · rw [htrail]
        exact holds_congr zero_holds _
      · rw [hwords] at hu
        obtain rfl := List.mem_singleton.mp hu
        refine ⟨by omega, stringAt_of_prefix ⟨behind, ?_⟩⟩
        rw [hbuf]
        simp
    · rw [htrail] at hlt
      exact absurd hlt (by decide)
  · have hlen : line.length = xs.length + (w.length + (t.length + 1)) := by
      rw [hline, List.length_append, List.length_append, List.length_cons]
    have hbuf : line ++ 0 :: behind = [] ++ (xs ++ (w ++ space :: (t ++ 0 :: behind))) := by
      rw [hline]
      simp
    have hfound : skipSpace _ line.length (line.length + 1) ([] : List Byte).length = _ ∧ _ ∧ _ :=
      word_next hbuf hxs hne hw (by simp; omega) (by omega)
    obtain ⟨hskip, hend, hput⟩ := hfound
    rw [List.length_nil, Nat.zero_add] at hskip hend hput
    have hspec := @parseParams_spec (xs ++ (w ++ [0])) behind t line.length (line.length + 1)
      { ParsedData.zero with pcmd := some xs.length } [] (by omega) (holds_congr zero_holds _)
      hbehind (by simp; omega)
    have hnew : (xs ++ (w ++ [0])).length = xs.length + w.length + 1 := by
      simp only [List.length_append, List.length_singleton]
      omega
    have hwords : words line = (xs.length, w) ::
        wordsFrom (· == space) (xs.length + w.length + 1) false t := by
      rw [words, hline, words_next hxs hne hw, Nat.zero_add]
    have htrail : trailing 0 line = trailing (xs.length + w.length + 1) t := by
      rw [hline, trailing_append 0 hne hw, Nat.zero_add]
    have hsame : xs ++ (w ++ [0]) ++ (t ++ 0 :: behind) =
        [] ++ (xs ++ (w ++ 0 :: (t ++ 0 :: behind))) := by simp
    have hrun := cmdParse_found hskip hend hput
    rw [if_neg Bool.false_ne_true] at hrun
    rw [hnew, hsame] at hspec
    refine ⟨(xs.length, w), _, hwords, fun hroom => ?_, fun hlt => ?_⟩
    · rw [htrail] at hroom ⊢
      obtain ⟨buf', d', hparams, hpcmd, hholds, hprefix, hfound⟩ := hspec.room hroom
      refine ⟨buf', d', ?_, hpcmd, hholds, fun u hu => ?_⟩
      · rw [hrun, hparams]
        rfl
      · rw [hwords] at hu
        rcases List.mem_cons.mp hu with rfl | hu
        · exact ⟨by omega, stringAt_of_prefix hprefix⟩
        · exact hfound u hu
    · rw [htrail] at hlt
      rw [hrun, hspec.full hlt]
      rfl

theorem not_loneSpace {line : List Byte} (h : ∀ c ∈ line, c = space) : ¬ LoneSpace line := by
  rintro ⟨s, c, hc, hline⟩
  exact hc (h c (by rw [hline]; simp))

theorem trailing_eq_nil {line : List Byte} (hne : line ≠ []) :
    trailing 0 line = [] ↔ ¬ LoneSpace line := by
  rw [← endsOpen_iff hne, trailing]
  split_ifs with hopen <;> simp [hopen]

theorem CmdLine.behind_ne (l : CmdLine) : l.behind ≠ [] := by
  have hsize := l.size
  have hshort := l.short
  intro h
  rw [h, List.length_nil] at hsize
  omega

end Line

/-- A line is parsed as it should be if and only if no lone space ends it and it has no more words
than the command and the parameters that the arrays have room for. -/
theorem parsesRight_iff (l : CmdLine) : ParsesRight l ↔
    ¬ LoneSpace l.line ∧ (words l.line).length ≤ cmdMaxParameters + 1 := by
  by_cases hspaces : ∀ c ∈ l.line, c = space
  · refine ⟨fun _ => ⟨not_loneSpace hspaces, ?_⟩, fun _ => ?_⟩
    · rw [words, words_allSpaces hspaces]
      exact Nat.zero_le _
    · exact ⟨false, l.buf, .zero, cmdParse_spaces l.line_ne hspaces, by simpa using hspaces,
        by simp⟩
  · obtain ⟨cmd, params, hwords, hroom, hfull⟩ := cmdParse_words l.behind_ne hspaces
    rw [← trailing_eq_nil l.line_ne, hwords, List.length_cons, Nat.add_le_add_iff_right]
    constructor
    · rintro ⟨ok, buf, d, hrun, hok, hparsed⟩
      rw [CmdLine.buf] at hrun
      have htrue : ok = true := by
        cases ok with
        | true => rfl
        | false => exact absurd (hok.mp rfl) hspaces
      rcases Nat.lt_or_ge cmdMaxParameters (params ++ trailing 0 l.line).length with hlt | hle
      · rw [hfull hlt] at hrun
        cases hrun
      · obtain ⟨buf', d', hrun', -, hholds, -⟩ := hroom hle
        rw [hrun'] at hrun
        cases hrun
        obtain ⟨⟨cmd', params', hwords', -, hholds'⟩, -⟩ := hparsed rfl
        obtain ⟨-, rfl⟩ := List.cons.inj (hwords.symm.trans hwords')
        have hcnt := hholds.cnt.symm.trans hholds'.cnt
        rw [List.length_append] at hcnt
        exact ⟨List.length_eq_zero_iff.mp (by omega), hholds'.le⟩
    · rintro ⟨htrail, hle⟩
      rw [htrail, List.append_nil] at hroom
      obtain ⟨buf, d, hrun, hpcmd, hholds, hstrings⟩ := hroom hle
      exact ⟨true, buf, d, hrun, by simpa using hspaces,
        fun _ => ⟨⟨cmd, params, hwords, hpcmd, hholds⟩, hstrings⟩⟩

/-- A letter and a space, and the buffer behind it. -/
def loneLine : CmdLine :=
  ⟨[97, space], .replicate 159 0, List.cons_ne_nil _ _, by decide, by simp [cmdMaxLen], by decide⟩

/-- Twenty-two letters with spaces between them. -/
def longLine : CmdLine :=
  ⟨97 :: (List.replicate 21 [space, 97]).flatten, .replicate 118 0, List.cons_ne_nil _ _,
    by decide +kernel, by decide +kernel, by decide +kernel⟩

/-- An empty word is found behind the lone space, and the arrays have no room for the last word. -/
theorem parse_wrong : ¬ ParsesRight loneLine ∧ ¬ ParsesRight longLine := by
  constructor
  · rintro ⟨ok, buf, d, hrun, -, hparsed⟩
    have hcnt : (cmdParse loneLine.buf loneLine.line.length).toOption.map
        (fun r => (r.1, r.2.2.paramCnt)) = some (true, 1) := by decide +kernel
    rw [hrun] at hcnt
    obtain ⟨rfl, hone⟩ := Prod.mk.inj (Option.some.inj hcnt)
    obtain ⟨⟨cmd, params, hwords, -, hholds⟩, -⟩ := hparsed rfl
    have hnone : words loneLine.line = [(0, [97])] := by decide
    obtain ⟨-, rfl⟩ := List.cons.inj (hwords.symm.trans hnone)
    have hzero := hholds.cnt
    rw [hone] at hzero
    cases hzero
  · rintro ⟨ok, buf, d, hrun, -⟩
    have hfault : faultOf (cmdParse longLine.buf longLine.line.length) = some .badWrite := by
      decide +kernel
    rw [hrun] at hfault
    cases hfault

end Meshx.Cmd
