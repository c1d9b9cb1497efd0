import Meshx.Decimal
import Meshx.Lib.Radix

/-! Formatted output. A format is read character by character and interpreted on the way; what it
stands for is said apart from that, piece by piece. Definitions carry the names of
`meshx_io.c`. -/
namespace Meshx.Io

open Lib
open Cmd (isDigit)

/-- What `va_arg` comes to: the bytes of a string up to its NUL, no string, or an `int`. -/
inductive Arg
  | str (bytes : List Byte)
  | null
  | int (num : BitVec 32)
  deriving DecidableEq, Repr

def hexMaxLen : ℕ := 8

def decMaxLen : ℕ := 10

/-- The calls of `pwrite`, in their order, with the bytes they are given. -/
abbrev Calls := List (List Byte)

/-- The loop of `output_numner`, from the highest place that is written down to the lowest. -/
def outputFrom (zeropad spacepad : Bool) (data : List Byte) : ℕ → Calls
  | 0 => []
  | i + 1 =>
    (if byteAt data i = 0 then
      if zeropad then [[48]] else if spacepad then [[32]] else []
    else [[byteAt data i]]) ++ outputFrom zeropad spacepad data i

/-- `output_numner`; `len` and `width` are of eight bits. -/
def outputNumner (len width maxLen : ℕ) (zeropad spacepad : Bool) (data : List Byte) : Calls :=
  let len :=
    if width ≠ 0 then
      if width < len then width
      else if maxLen < width then maxLen else width
    else len
  outputFrom zeropad spacepad data len

/-- The digits of a number, the lowest first, in an array that has so many places left. -/
def hexDigits (lowerCase : Byte) : ℕ → BitVec 32 → Except Fault (List Byte)
  | 0, num => if num = 0 then .ok [] else .error .badWrite
  | room + 1, num =>
    if num = 0 then .ok []
    else do
      let digit := byteAt [48, 49, 50, 51, 52, 53, 54, 55, 56, 57, 65, 66, 67, 68, 69, 70]
        (num &&& 0xF).toNat
      let hex ← hexDigits lowerCase room (num >>> 4)
      return (digit ||| lowerCase) :: hex

def decDigits : ℕ → BitVec 32 → Except Fault (List Byte)
  | 0, _ => .error .badWrite
  | room + 1, num => do
    let digit : Byte := (num.srem 10 + 48).setWidth 8
    if (0 : BitVec 32).slt (num.sdiv 10) then
      let dec ← decDigits room (num.sdiv 10)
      return digit :: dec
    else return [digit]

/-- The array for the digits, which is cleared first. -/
def digitArray (maxLen : ℕ) (digits : List Byte) : List Byte :=
  digits ++ List.replicate (maxLen - digits.length) 0

/-- The digits of any number. Zero has one. -/
def hexText (lowerCase : Byte) (num : BitVec 32) : Except Fault (List Byte) :=
  if num = 0 then .ok [48] else hexDigits lowerCase hexMaxLen num

def hexCalls (width : ℕ) (zeropad : Bool) (lowerCase : Byte) (num : BitVec 32) :
    Except Fault Calls := do
  let hex ← hexText lowerCase num
  return outputNumner hex.length (width % 256) hexMaxLen zeropad (width ≠ 0 && !zeropad)
    (digitArray hexMaxLen hex)

def decCalls (width : ℕ) (zeropad : Bool) (num : BitVec 32) : Except Fault Calls := do
  let sign := if num.slt 0 then [[45]] else []
  let dec ← decDigits decMaxLen (if num.slt 0 then ~~~num + 1 else num)
  return sign ++ outputNumner dec.length (width % 256) decMaxLen zeropad (width ≠ 0 && !zeropad)
    (digitArray decMaxLen dec)

/-- An empty string is shown as if it were none. -/
def strCalls (width : ℕ) (bytes : List Byte) : Calls :=
  let data := if bytes = [] then [60, 78, 85, 76, 76, 62] else bytes
  [if 0 < width then data.take width else data]

def chrCalls (width : ℕ) (num : BitVec 32) : Calls :=
  List.replicate (width - 1) [32] ++ [[num.setWidth 8]]

/-- `va_arg` for an `int`. -/
def vaInt : List Arg → Except Fault (BitVec 32 × List Arg)
  | .int num :: args => .ok (num, args)
  | _ => .error .badRead

/-- `va_arg` for a string, whose first byte is read at once. -/
def vaStr : List Arg → Except Fault (List Byte × List Arg)
  | .str bytes :: args => .ok (bytes, args)
  | .null :: _ => .error .nullDeref
  | _ => .error .badRead

def caseStr (width : ℕ) (args : List Arg) : Except Fault (Calls × List Arg) := do
  let (bytes, args) ← vaStr args
  return (strCalls width bytes, args)

def caseHex (c : Byte) (width : ℕ) (zeropad : Bool) (args : List Arg) :
    Except Fault (Calls × List Arg) := do
  let (num, args) ← vaInt args
  let calls ← hexCalls width zeropad (c &&& 0x20) num
  return (calls, args)

def caseChr (width : ℕ) (args : List Arg) : Except Fault (Calls × List Arg) := do
  let (num, args) ← vaInt args
  return (chrCalls width num, args)

def caseDec (width : ℕ) (zeropad : Bool) (args : List Arg) : Except Fault (Calls × List Arg) := do
  let (num, args) ← vaInt args
  let calls ← decCalls width zeropad num
  return (calls, args)

/-- The `switch` on the character behind the width. -/
def directive (c : Byte) (width : ℕ) (zeropad : Bool) (args : List Arg) :
    Except Fault (Calls × List Arg) :=
  if c = 115 then caseStr width args
  else if c = 120 ∨ c = 88 then caseHex c width zeropad args
  else if c = 99 then caseChr width args
  else if c = 100 then caseDec width zeropad args
  else .ok ([[c]], args)

/-- The loop over the width, an `int` that no width of a format exceeds. -/
def readWidth : List Byte → ℕ → Except Fault (ℕ × List Byte)
  | [], _ => .error .badRead
  | c :: fmt, width =>
    if isDigit c then readWidth fmt (width * 10 + (c.toNat - 48)) else .ok (width, c :: fmt)

/-- One round of the loop for a directive, from behind the percent sign on. -/
def readDirective (fmt : List Byte) (args : List Arg) :
    Except Fault (Calls × List Byte × List Arg) := do
  let zeropad : Bool := fmt.head? = some 48
  match ← readWidth fmt 0 with
  | (_, []) => .error .badRead
  | (width, c :: fmt) => do
    let (calls, args) ← directive c width zeropad args
    return (calls, fmt, args)

/-- The loop of `meshx_vsprintf` over the memory from `fmt` on. -/
def vsprintfIn : ℕ → List Byte → List Arg → Except Fault Calls
  | 0, _, _ => .error .hang
  | _ + 1, [], _ => .error .badRead
  | fuel + 1, c :: fmt, args =>
    if c = 0 then .ok []
    else if c ≠ 37 then ([c] :: ·) <$> vsprintfIn fuel fmt args
    else do
      let (calls, fmt, args) ← readDirective fmt args
      (calls ++ ·) <$> vsprintfIn fuel fmt args

/-- `meshx_vsprintf`. Every round moves on in the format. -/
def vsprintf (fmt : List Byte) (args : List Arg) : Except Fault Calls :=
  vsprintfIn (fmt.length + 1) fmt args

/-- What it returns, if `pwrite` returns this for its calls. -/
def writeCount (pwrite : List Byte → ℤ) (calls : Calls) : ℤ :=
  ((calls.map pwrite).filter (0 < ·)).sum

/-- What a directive does with its argument. -/
inductive Conv
  | str
  | hex (lowerCase : Bool)
  | chr
  | dec
  | plain (c : Byte)

def Conv.ofByte (c : Byte) : Conv :=
  if c = 115 then .str
  else if c = 120 then .hex true
  else if c = 88 then .hex false
  else if c = 99 then .chr
  else if c = 100 then .dec
  else .plain c

def hexChar (lowerCase : Bool) (d : ℕ) : Byte :=
  .ofNat 8 (if d < 10 then 48 + d else if lowerCase then 87 + d else 55 + d)

/-- The digits of an `int` without its sign, the lowest first. The least one has no positive
counterpart. -/
def decChars (num : BitVec 32) : List Byte :=
  if num = .intMin 32 then [40] else Decimal.lowDigits num.toInt.natAbs

/-- A number in its field, of whose width eight bits count. -/
def numText (width : ℕ) (zeropad : Bool) (max : ℕ) (low : List Byte) : List Byte :=
  (fitted (width % 256) max (if zeropad then 48 else 32) low).reverse

def strText (width : ℕ) (bytes : List Byte) : List Byte :=
  let data := if bytes = [] then [60, 78, 85, 76, 76, 62] else bytes
  if 0 < width then data.take width else data

def hexNum (width : ℕ) (zeropad lowerCase : Bool) (num : BitVec 32) : List Byte :=
  numText width zeropad hexMaxLen (lowChars 16 (hexChar lowerCase) num.toNat)

/-- The sign comes before the field. -/
def decNum (width : ℕ) (zeropad : Bool) (num : BitVec 32) : List Byte :=
  (if num.toInt < 0 then [45] else []) ++ numText width zeropad decMaxLen (decChars num)

/-- The text of a directive for the next argument. -/
def Conv.text (width : ℕ) (zeropad : Bool) (args : List Arg) :
    Conv → Except Fault (List Byte × List Arg)
  | .str => (fun a => (strText width a.1, a.2)) <$> vaStr args
  | .hex lowerCase => (fun a => (hexNum width zeropad lowerCase a.1, a.2)) <$> vaInt args
  | .chr => (fun a => (List.replicate (width - 1) 32 ++ [a.1.setWidth 8], a.2)) <$> vaInt args
  | .dec => (fun a => (decNum width zeropad a.1, a.2)) <$> vaInt args
  | .plain c => .ok ([c], args)

section Numbers

variable {zeropad spacepad : Bool} {data digits : List Byte} {i len width max : ℕ}
  {num : BitVec 32}

/-- A place as it is shown. -/
def shown (zeropad : Bool) (c : Byte) : Byte :=
  if c = 0 then if zeropad then 48 else 32 else c

theorem flatten_outputFrom (hi : i ≤ data.length)
    (hpad : 0 ∈ data.take i → zeropad = true ∨ spacepad = true) :
    (outputFrom zeropad spacepad data i).flatten = ((data.take i).map (shown zeropad)).reverse := by
  induction i with
  | zero => rfl
  | succ i ih =>
    have hget : data[i]? = some (byteAt data i) := by
      rw [byteAt, List.getD_eq_getElem?_getD, List.getElem?_eq_getElem (by omega), Option.getD_some]
    have htake : data.take (i + 1) = data.take i ++ [byteAt data i] := by
      rw [List.take_add_one, hget]
      rfl
    rw [htake] at hpad ⊢
    rw [outputFrom, List.flatten_append, List.map_append, List.reverse_append,
      ih (by omega) fun h => hpad (List.mem_append_left _ h)]
    congr 1
    unfold shown
    by_cases h0 : byteAt data i = 0
    · rcases hpad (List.mem_append_right _ (by simp [h0])) with h | h
      · simp [h0, h]
      · cases zeropad <;> simp [h0, h]
    · rw [if_neg h0, List.map_singleton, if_neg h0]
      rfl

theorem length_digitArray (h : digits.length ≤ max) : (digitArray max digits).length = max := by
  rw [digitArray, List.length_append, List.length_replicate]
  omega

theorem map_shown (hdigits : 0 ∉ digits) : digits.map (shown zeropad) = digits := by
  have hsame : ∀ c ∈ digits, shown zeropad c = id c := by
    intro c hc
    refine if_neg ?_
    rintro rfl
    exact hdigits hc
  rw [List.map_congr_left hsame, List.map_id]

/-- What `output_numner` writes of digits that fit into the array. -/
theorem flatten_outputNumner (hmax : digits.length ≤ max) (hdigits : 0 ∉ digits) :
    (outputNumner digits.length (width % 256) max zeropad (width ≠ 0 && !zeropad)
      (digitArray max digits)).flatten = numText width zeropad max digits := by
  have harray := length_digitArray hmax
  have hfront : ∀ n ≤ digits.length, (digitArray max digits).take n = digits.take n := fun n hn =>
    List.take_append_of_le_length hn
  have hplain : ∀ n, 0 ∉ digits.take n := fun n h0 => hdigits (List.mem_of_mem_take h0)
  unfold outputNumner numText fitted
  by_cases hwidth : width % 256 = 0
  · have htake := hfront digits.length le_rfl
    rw [if_pos hwidth, if_neg (not_not.mpr hwidth)]
    dsimp only
    rw [flatten_outputFrom (by omega) (by rw [htake]; exact fun h0 => absurd h0 (hplain _)), htake,
      map_shown (hplain _), List.take_length]
  rw [if_neg hwidth, if_pos hwidth]
  by_cases hlong : width % 256 < digits.length
  · have htake := hfront (width % 256) hlong.le
    rw [if_pos hlong, if_pos hlong]
    dsimp only
    rw [flatten_outputFrom (by omega) (by rw [htake]; exact fun h0 => absurd h0 (hplain _)), htake,
      map_shown (hplain _)]
  · have hplaces : (if max < width % 256 then max else width % 256) = min (width % 256) max := by
      split_ifs <;> omega
    have htake : (digitArray max digits).take (min (width % 256) max) =
        digits ++ List.replicate (min (width % 256) max - digits.length) 0 := by
      rw [digitArray, List.take_append, List.take_of_length_le (by omega), List.take_replicate]
      congr 2
      omega
    have hpad : zeropad = true ∨ (width ≠ 0 && !zeropad) = true := by
      have hne : width ≠ 0 := by
        rintro rfl
        exact hwidth rfl
      cases zeropad <;> simp [hne]
    rw [if_neg hlong, if_neg hlong]
    dsimp only
    rw [hplaces, flatten_outputFrom (by omega) (fun _ => hpad), htake, List.map_append,
      map_shown hdigits, List.map_replicate]
    rfl

theorem hexChar_eq {lowerCase : Bool} {d : ℕ} (h : d < 16) :
    byteAt [48, 49, 50, 51, 52, 53, 54, 55, 56, 57, 65, 66, 67, 68, 69, 70] d |||
      (if lowerCase then 0x20 else 0) = hexChar lowerCase d := by
  revert lowerCase d
  decide

theorem hexDigits_zero (lowerCase : Byte) (room : ℕ) : hexDigits lowerCase room 0 = .ok [] := by
  cases room <;> rfl

/-- The digits of a number that has no more than the array has places. -/
theorem hexDigits_eq {lowerCase : Bool} {room : ℕ} (hpos : num ≠ 0)
    (hroom : num.toNat < 16 ^ room) :
    hexDigits (if lowerCase then 0x20 else 0) room num =
      .ok (lowChars 16 (hexChar lowerCase) num.toNat) := by
  induction room generalizing num with
  | zero =>
    have hzero : num.toNat = 0 := by
      rw [Nat.pow_zero] at hroom
      omega
    exact absurd (BitVec.eq_of_toNat_eq hzero) hpos
  | succ room ih =>
    have hdigit : (num &&& 0xF).toNat = num.toNat % 16 := by
      rw [BitVec.toNat_and]
      exact Nat.and_two_pow_sub_one_eq_mod num.toNat 4
    have hshift : (num >>> 4).toNat = num.toNat / 16 := by
      rw [BitVec.toNat_ushiftRight, Nat.shiftRight_eq_div_pow]
    rw [hexDigits, if_neg hpos, hdigit]
    by_cases hsmall : num.toNat < 16
    · have hrest : num >>> 4 = 0 := by
        apply BitVec.eq_of_toNat_eq
        rw [hshift, Nat.div_eq_of_lt hsmall]
        rfl
      rw [hrest, hexDigits_zero, lowChars_of_lt hsmall, Nat.mod_eq_of_lt hsmall]
      exact congrArg (fun c => Except.ok [c]) (hexChar_eq hsmall)
    · have hrest : num >>> 4 ≠ 0 := by
        intro h0
        rw [h0] at hshift
        have hdiv : 0 < num.toNat / 16 := Nat.div_pos (not_lt.mp hsmall) (by decide)
        rw [← hshift] at hdiv
        exact absurd hdiv (lt_irrefl 0)
      have hroom' : (num >>> 4).toNat < 16 ^ room := by
        rw [hshift]
        rw [Nat.pow_succ] at hroom
        omega
      rw [ih hrest hroom', hshift, lowChars_of_ge (by decide) (not_lt.mp hsmall)]
      exact congrArg (fun c => Except.ok (c :: _)) (hexChar_eq (Nat.mod_lt _ (by decide)))

theorem hexChar_ne_zero {lowerCase : Bool} {d : ℕ} (h : d < 16) : hexChar lowerCase d ≠ 0 := by
  revert lowerCase d
  decide

theorem hexText_eq (lowerCase : Bool) (num : BitVec 32) :
    hexText (if lowerCase then 0x20 else 0) num =
      .ok (lowChars 16 (hexChar lowerCase) num.toNat) := by
  rw [hexText]
  by_cases h0 : num = 0
  · rw [if_pos h0, h0]
    cases lowerCase <;> rfl
  · have hlt : num.toNat < 16 ^ hexMaxLen := num.isLt
    rw [if_neg h0]
    exact hexDigits_eq h0 hlt

theorem hexCalls_eq (lowerCase : Bool) (num : BitVec 32) :
    ∃ calls, hexCalls width zeropad (if lowerCase then 0x20 else 0) num = .ok calls ∧
      calls.flatten = hexNum width zeropad lowerCase num := by
  have hlt : num.toNat < 16 ^ hexMaxLen := num.isLt
  have hzero : 0 ∉ lowChars 16 (hexChar lowerCase) num.toNat := by
    intro h0
    obtain ⟨d, hd, hchar⟩ := mem_lowChars (by decide) h0
    exact hexChar_ne_zero hd hchar
  rw [hexCalls, hexText_eq, ok_bind]
  exact ⟨_, rfl, flatten_outputNumner (length_lowChars_le (by decide) hlt (by decide)) hzero⟩

theorem decDigits_eq {room n : ℕ} (hn : n < 2 ^ 31)
    (hroom : (Decimal.lowDigits n).length ≤ room) :
    decDigits room (.ofNat 32 n) = .ok (Decimal.lowDigits n) := by
  induction room generalizing n with
  | zero =>
    exact absurd (List.eq_nil_of_length_eq_zero (Nat.le_zero.mp hroom))
      (Decimal.lowDigits_ne_nil n)
  | succ room ih =>
    obtain ⟨hdigit, hrest⟩ := Decimal.srem_sdiv_ten hn
    rw [decDigits, hdigit, hrest, Decimal.slt_ofNat (by omega)]
    rcases lt_or_ge n 10 with hlt | hge
    · rw [Decimal.lowDigits_of_lt hlt, Nat.div_eq_of_lt hlt, Nat.mod_eq_of_lt hlt]
      rfl
    · rw [Decimal.lowDigits_of_ge hge] at hroom ⊢
      rw [if_pos (decide_eq_true (by omega)), ih (by omega) (by simpa using hroom)]
      rfl

theorem slt_zero_iff (num : BitVec 32) : num.slt 0 = true ↔ num.toInt < 0 := by
  have hzero : (0 : BitVec 32).toInt = 0 := rfl
  rw [BitVec.slt_iff_toInt_lt, hzero]

/-- Without its sign every `int` but the least is a number of its own. -/
theorem abs_eq (hmin : num ≠ .intMin 32) : num.toInt.natAbs < 2 ^ 31 ∧
    (if num.slt 0 then ~~~num + 1 else num) = .ofNat 32 num.toInt.natAbs := by
  have hne : num.toNat ≠ 2 ^ 31 := fun h => hmin (BitVec.eq_of_toNat_eq h)
  have hlt := num.isLt
  by_cases hneg : num.toInt < 0
  · have hminus : ~~~num + 1 = -num := (BitVec.neg_eq_not_add num).symm
    rw [if_pos ((slt_zero_iff num).mpr hneg), hminus]
    rw [BitVec.toInt_eq_toNat_cond] at hneg ⊢
    split_ifs at hneg ⊢ with hsmall
    · omega
    · refine ⟨by omega, BitVec.eq_of_toNat_eq ?_⟩
      rw [BitVec.toNat_neg, BitVec.toNat_ofNat]
      omega
  · rw [if_neg (mt (slt_zero_iff num).mp hneg)]
    rw [BitVec.toInt_eq_toNat_cond] at hneg ⊢
    split_ifs at hneg ⊢ with hsmall
    · refine ⟨by omega, BitVec.eq_of_toNat_eq ?_⟩
      rw [BitVec.toNat_ofNat]
      omega
    · omega

theorem decDigits_abs (num : BitVec 32) :
    decDigits decMaxLen (if num.slt 0 then ~~~num + 1 else num) = .ok (decChars num) := by
  by_cases hmin : num = .intMin 32
  · rw [hmin]
    rfl
  · obtain ⟨hlt, habs⟩ := abs_eq hmin
    rw [habs, decChars, if_neg hmin]
    exact decDigits_eq hlt (Decimal.length_lowDigits_le hlt)

theorem length_decChars (num : BitVec 32) : (decChars num).length ≤ decMaxLen := by
  rw [decChars]
  split_ifs with hmin
  · decide
  · exact Decimal.length_lowDigits_le (abs_eq hmin).1

theorem zero_not_mem_decChars (num : BitVec 32) : 0 ∉ decChars num := by
  rw [decChars]
  split_ifs with hmin
  · decide
  · intro h0
    have hdigit := Decimal.isDigit_of_mem h0
    revert hdigit
    decide

theorem decCalls_eq (num : BitVec 32) :
    ∃ calls, decCalls width zeropad num = .ok calls ∧
      calls.flatten = decNum width zeropad num := by
  rw [decCalls, decDigits_abs, ok_bind]
  refine ⟨_, rfl, ?_⟩
  rw [decNum, List.flatten_append,
    flatten_outputNumner (length_decChars num) (zero_not_mem_decChars num)]
  congr 1
  by_cases hneg : num.toInt < 0
  · rw [if_pos ((slt_zero_iff num).mpr hneg), if_pos hneg]
    rfl
  · rw [if_neg (mt (slt_zero_iff num).mp hneg), if_neg hneg]
    rfl

/-- What is written, and the arguments that are left. -/
def written (out : Calls × List Arg) : List Byte × List Arg := (out.1.flatten, out.2)

theorem written_hex (lowerCase : Bool) (args : List Arg) :
    written <$> caseHex (if lowerCase then 120 else 88) width zeropad args =
      (Conv.hex lowerCase).text width zeropad args := by
  have hcase : (if lowerCase then 120 else 88 : Byte) &&& 0x20 = if lowerCase then 0x20 else 0 := by
    cases lowerCase <;> rfl
  rw [caseHex, hcase]
  cases hva : vaInt args with
  | error f =>
    rw [Conv.text, hva]
    rfl
  | ok a =>
    obtain ⟨calls, hcalls, htext⟩ := @hexCalls_eq zeropad width lowerCase a.1
    rw [Conv.text, hva, ok_bind]
    dsimp only
    rw [hcalls]
    exact congrArg (fun text => Except.ok (text, a.2)) htext

theorem written_dec (args : List Arg) :
    written <$> caseDec width zeropad args = Conv.dec.text width zeropad args := by
  rw [caseDec]
  cases hva : vaInt args with
  | error f =>
    rw [Conv.text, hva]
    rfl
  | ok a =>
    obtain ⟨calls, hcalls, htext⟩ := @decCalls_eq zeropad width a.1
    rw [Conv.text, hva, ok_bind]
    dsimp only
    rw [hcalls]
    exact congrArg (fun text => Except.ok (text, a.2)) htext

theorem written_str (args : List Arg) :
    written <$> caseStr width args = Conv.str.text width zeropad args := by
  rw [caseStr, Conv.text]
  cases vaStr args with
  | error f => rfl
  | ok a => exact congrArg (fun text => Except.ok (text, a.2)) (List.append_nil _)

theorem written_chr (args : List Arg) :
    written <$> caseChr width args = Conv.chr.text width zeropad args := by
  rw [caseChr, Conv.text]
  cases vaInt args with
  | error f => rfl
  | ok a =>
    have htext : (chrCalls width a.1).flatten =
        List.replicate (width - 1) 32 ++ [a.1.setWidth 8] := by
      rw [chrCalls, List.flatten_append, List.flatten_replicate_singleton]
      rfl
    exact congrArg (fun text => Except.ok (text, a.2)) htext

/-- The `switch` writes the text of the directive. -/
theorem written_directive (c : Byte) (width : ℕ) (zeropad : Bool) (args : List Arg) :
    written <$> directive c width zeropad args = (Conv.ofByte c).text width zeropad args := by
  unfold directive Conv.ofByte
  by_cases hs : c = 115
  · rw [if_pos hs, if_pos hs]
    exact written_str args
  rw [if_neg hs, if_neg hs]
  by_cases hx : c = 120
  · rw [if_pos (.inl hx), if_pos hx, hx]
    exact written_hex true args
  rw [if_neg hx]
  by_cases hX : c = 88
  · rw [if_pos (.inr hX), if_pos hX, hX]
    exact written_hex false args
  rw [if_neg (not_or.mpr ⟨hx, hX⟩), if_neg hX]
  by_cases hc : c = 99
  · rw [if_pos hc, if_pos hc]
    exact written_chr args
  rw [if_neg hc, if_neg hc]
  by_cases hd : c = 100
  · rw [if_pos hd, if_pos hd]
    exact written_dec args
  rw [if_neg hd, if_neg hd]
  rfl

end Numbers

def widthValue (width : List Byte) : ℕ := width.foldl (fun w d => w * 10 + (d.toNat - 48)) 0

/-- A directive of a format: a width that an `int` holds, and the character behind it. -/
structure Directive where
  width : List Byte
  conv : Byte
  width_digit : ∀ d ∈ width, isDigit d = true
  width_int : widthValue width < 2 ^ 31
  conv_digit : isDigit conv = false
  conv_ne : conv ≠ 0

/-- A width that starts with a zero fills up with zeros. -/
def Directive.zeropad (d : Directive) : Bool := d.width.head? = some 48

/-- The width of a number's field, of eight bits. -/
def Directive.field (d : Directive) : ℕ := widthValue d.width % 256

/-- A piece of a format: a character that stands for itself, or a directive. -/
inductive Piece
  | plain (c : Byte) (nul : c ≠ 0) (percent : c ≠ 37)
  | directive (d : Directive)

def Piece.source : Piece → List Byte
  | .plain c _ _ => [c]
  | .directive d => 37 :: (d.width ++ [d.conv])

def source (ps : List Piece) : List Byte := ps.flatMap Piece.source

def Piece.text (args : List Arg) : Piece → Except Fault (List Byte × List Arg)
  | .plain c _ _ => .ok ([c], args)
  | .directive d =>
    (Conv.ofByte d.conv).text (widthValue d.width) d.zeropad args

/-- What a format stands for: the texts of its pieces, each of which takes its arguments. -/
def formatText : List Piece → List Arg → Except Fault (List Byte × List Arg)
  | [], args => .ok ([], args)
  | p :: ps, args => do
    let (text, args) ← p.text args
    let (texts, args) ← formatText ps args
    return (text ++ texts, args)

/-- The text that `meshx_vsprintf` hands to `pwrite`, call by call. -/
def output (fmt : List Byte) (args : List Arg) : Except Fault (List Byte) :=
  List.flatten <$> vsprintf fmt args

section Formats

variable {fmt rest width : List Byte} {args : List Arg} {c : Byte} {n m w : ℕ}

theorem readWidth_length {out : ℕ × List Byte} (h : readWidth fmt w = .ok out) :
    out.2.length ≤ fmt.length := by
  induction fmt generalizing w with
  | nil => cases h
  | cons c fmt ih =>
    rw [readWidth] at h
    split_ifs at h
    · exact (ih h).trans (Nat.le_succ _)
    · obtain rfl := Except.ok.inj h
      exact le_rfl

theorem readDirective_length {out : Calls × List Byte × List Arg}
    (h : readDirective fmt args = .ok out) : out.2.1.length < fmt.length := by
  obtain ⟨⟨w, left⟩, hwidth, h⟩ := bind_ok h
  have hle := readWidth_length hwidth
  cases left with
  | nil => cases h
  | cons c left =>
    obtain ⟨⟨calls, args'⟩, -, h⟩ := bind_ok h
    obtain rfl := Except.ok.inj h
    exact Nat.lt_of_succ_le hle

/-- Fuel for every character is enough. -/
theorem vsprintfIn_fuel (hn : fmt.length < n) (hm : fmt.length < m) :
    vsprintfIn n fmt args = vsprintfIn m fmt args := by
  induction n generalizing fmt args m with
  | zero => exact absurd hn (Nat.not_lt_zero _)
  | succ n ih =>
    cases m with
    | zero => exact absurd hm (Nat.not_lt_zero _)
    | succ m =>
      cases fmt with
      | nil => rfl
      | cons c fmt =>
        rw [List.length_cons] at hn hm
        rw [vsprintfIn, vsprintfIn]
        by_cases hnul : c = 0
        · rw [if_pos hnul, if_pos hnul]
        rw [if_neg hnul, if_neg hnul]
        by_cases hpercent : c ≠ 37
        · rw [if_pos hpercent, if_pos hpercent, @ih fmt args m (by omega) (by omega)]
        rw [if_neg hpercent, if_neg hpercent]
        cases hread : readDirective fmt args with
        | error f => rfl
        | ok out =>
          have hlt := readDirective_length hread
          rw [ok_bind, ok_bind]
          dsimp only
          rw [@ih out.2.1 out.2.2 m (by omega) (by omega)]

theorem vsprintf_plain (hnul : c ≠ 0) (hpercent : c ≠ 37) :
    vsprintf (c :: fmt) args = ([c] :: ·) <$> vsprintf fmt args := by
  rw [vsprintf, List.length_cons, vsprintfIn, if_neg hnul, if_pos hpercent]
  rfl

/-- A round of the loop at a percent sign. -/
theorem vsprintf_percent : vsprintf (37 :: fmt) args =
    readDirective fmt args >>= fun out => (out.1 ++ ·) <$> vsprintf out.2.1 out.2.2 := by
  have hnul : (37 : Byte) ≠ 0 := by decide
  rw [vsprintf, List.length_cons, vsprintfIn, if_neg hnul, if_neg (not_not.mpr rfl)]
  cases hread : readDirective fmt args with
  | error f => rfl
  | ok out =>
    have hlt := readDirective_length hread
    rw [ok_bind, ok_bind]
    dsimp only
    exact congrArg _ (vsprintfIn_fuel (Nat.lt_succ_of_lt hlt) (Nat.lt_succ_self _))

theorem readWidth_append (hwidth : ∀ d ∈ width, isDigit d = true) (hc : isDigit c = false) (w : ℕ) :
    readWidth (width ++ c :: rest) w =
      .ok (width.foldl (fun w d => w * 10 + (d.toNat - 48)) w, c :: rest) := by
  induction width generalizing w with
  | nil => rw [List.nil_append, readWidth, hc, if_neg Bool.false_ne_true, List.foldl_nil]
  | cons d width ih =>
    rw [List.cons_append, readWidth, hwidth d List.mem_cons_self, if_pos rfl,
      ih fun x hx => hwidth x (List.mem_cons_of_mem _ hx), List.foldl_cons]

theorem head_append (hc : isDigit c = false) :
    ((width ++ c :: rest).head? = some 48) ↔ width.head? = some 48 := by
  cases width with
  | nil =>
    have hne : c ≠ 48 := by
      rintro rfl
      cases hc
    exact iff_of_false (fun h => hne (Option.some.inj h)) (Option.some_ne_none _).symm
  | cons d width => rfl

/-- A directive with its width. -/
theorem readDirective_append (hwidth : ∀ d ∈ width, isDigit d = true) (hc : isDigit c = false) :
    readDirective (width ++ c :: rest) args = (fun out => (out.1, rest, out.2)) <$>
      directive c (widthValue width) (width.head? = some 48) args := by
  rw [readDirective, readWidth_append hwidth hc, ok_bind]
  dsimp only
  rw [decide_eq_decide.mpr (head_append hc)]
  change _ = (fun out => (out.1, rest, out.2)) <$>
    directive c (width.foldl (fun w d => w * 10 + (d.toNat - 48)) 0) (width.head? = some 48) args
  cases directive c (width.foldl (fun w d => w * 10 + (d.toNat - 48)) 0)
    (width.head? = some 48) args with
  | error f => rfl
  | ok out => rfl

theorem output_nul : output (0 :: rest) args = .ok [] := rfl

theorem output_plain (hnul : c ≠ 0) (hpercent : c ≠ 37) :
    output (c :: fmt) args = ([c] ++ ·) <$> output fmt args := by
  rw [output, vsprintf_plain hnul hpercent, output]
  cases vsprintf fmt args with
  | error f => rfl
  | ok calls => rfl

theorem output_percent : output (37 :: fmt) args =
    readDirective fmt args >>= fun out => (out.1.flatten ++ ·) <$> output out.2.1 out.2.2 := by
  rw [output, vsprintf_percent]
  cases readDirective fmt args with
  | error f => rfl
  | ok out =>
    rw [ok_bind, ok_bind, output]
    cases vsprintf out.2.1 out.2.2 with
    | error f => rfl
    | ok calls => exact congrArg Except.ok List.flatten_append

/-- A directive gives its text, and the rest of the format follows. -/
theorem output_directive (hwidth : ∀ d ∈ width, isDigit d = true) (hc : isDigit c = false) :
    output (37 :: (width ++ c :: rest)) args =
      (Conv.ofByte c).text (widthValue width) (width.head? = some 48) args >>=
        fun out => (out.1 ++ ·) <$> output rest out.2 := by
  rw [output_percent, readDirective_append hwidth hc, ← written_directive]
  cases directive c (widthValue width) (width.head? = some 48) args with
  | error f => rfl
  | ok out => rfl

theorem output_piece (p : Piece) : output (p.source ++ rest) args =
    p.text args >>= fun out => (out.1 ++ ·) <$> output rest out.2 := by
  cases p with
  | plain c hnul hpercent => exact output_plain hnul hpercent
  | directive d =>
    have hsource : (Piece.directive d).source ++ rest = 37 :: (d.width ++ d.conv :: rest) := by
      simp [Piece.source]
    rw [hsource]
    exact output_directive d.width_digit d.conv_digit

theorem output_source (ps : List Piece) : output (source ps ++ rest) args =
    formatText ps args >>= fun out => (out.1 ++ ·) <$> output rest out.2 := by
  induction ps generalizing args with
  | nil =>
    rw [formatText, ok_bind]
    change output rest args = _
    cases output rest args with
    | error f => rfl
    | ok text => rfl
  | cons p ps ih =>
    have hsource : source (p :: ps) ++ rest = p.source ++ (source ps ++ rest) := by
      simp [source]
    rw [hsource, output_piece, formatText]
    cases p.text args with
    | error f => rfl
    | ok out =>
      rw [ok_bind, ih, ok_bind]
      dsimp only
      cases formatText ps out.2 with
      | error f => rfl
      | ok outs =>
        rw [ok_bind, ok_bind]
        change (out.1 ++ ·) <$> (outs.1 ++ ·) <$> output rest outs.2 =
          ((out.1 ++ outs.1) ++ ·) <$> output rest outs.2
        cases output rest outs.2 with
        | error f => rfl
        | ok text => exact congrArg Except.ok (List.append_assoc _ _ _).symm

/-- What is written for a format is what its pieces stand for, whatever lies behind it. -/
theorem output_format (ps : List Piece) (args : List Arg) (rest : List Byte) :
    output (source ps ++ 0 :: rest) args = Prod.fst <$> formatText ps args := by
  rw [output_source]
  cases formatText ps args with
  | error f => rfl
  | ok out => exact congrArg Except.ok (List.append_nil _)

/-- A format that ends within a directive is read on behind its end, and the NUL is written. -/
theorem output_open (ps : List Piece) (hwidth : ∀ d ∈ width, isDigit d = true) :
    output (source ps ++ 37 :: (width ++ 0 :: rest)) args =
      formatText ps args >>= fun out => (out.1 ++ 0 :: ·) <$> output rest out.2 := by
  rw [output_source]
  cases formatText ps args with
  | error f => rfl
  | ok out =>
    rw [ok_bind, ok_bind, output_directive hwidth rfl]
    change (out.1 ++ ·) <$> ([0] ++ ·) <$> output rest out.2 = _
    cases output rest out.2 with
    | error f => rfl
    | ok text => rfl

/-- With a `pwrite` that takes every byte it returns the length of the text. -/
theorem writeCount_length (calls : Calls) :
    writeCount (fun bytes => bytes.length) calls = calls.flatten.length := by
  induction calls with
  | nil => rfl
  | cons bytes calls ih =>
    rw [writeCount] at ih ⊢
    rw [List.map_cons, List.filter_cons, List.flatten_cons, List.length_append]
    split_ifs with hpos
    · rw [List.sum_cons, ih]
      omega
    · rw [ih]
      have hzero : bytes.length = 0 := by simpa using hpos
      omega

end Formats

section Reading

variable {c : Byte} {digits : List Byte} {num : BitVec 32}

/-- The value of a digit of either case. A blank of a field counts as nothing. -/
def hexValue (c : Byte) : ℕ :=
  if 97 ≤ c.toNat then c.toNat - 87
  else if 65 ≤ c.toNat then c.toNat - 55
  else c.toNat - 48

theorem hexValue_hexChar {lowerCase : Bool} {d : ℕ} (h : d < 16) :
    hexValue (hexChar lowerCase d) = d := by
  revert lowerCase d
  decide

def decValue (c : Byte) : ℕ := c.toNat - 48

theorem decValue_digitChar {d : ℕ} (h : d < 10) : decValue (Decimal.digitChar d) = d := by
  rw [decValue, Decimal.toNat_digitChar h, Nat.add_sub_cancel_left]

theorem output_directive_end (d : Directive) (args : List Arg) (rest : List Byte) :
    output ((Piece.directive d).source ++ 0 :: rest) args =
      Prod.fst <$> (Conv.ofByte d.conv).text (widthValue d.width) d.zeropad args := by
  have h := output_format [.directive d] args rest
  rw [source, List.flatMap_singleton, formatText] at h
  rw [h, Piece.text]
  cases (Conv.ofByte d.conv).text (widthValue d.width) d.zeropad args with
  | error f => rfl
  | ok out => exact congrArg Except.ok (List.append_nil _)

/-- The hexadecimal text of a number holds the number, up to the digits that the field cuts off. -/
theorem output_hex (d : Directive) (hconv : d.conv = 120 ∨ d.conv = 88) (num : BitVec 32)
    (args : List Arg) (rest : List Byte) :
    ∃ text, output ((Piece.directive d).source ++ 0 :: rest) (.int num :: args) = .ok text ∧
      (d.field ≠ 0 → text.length = min d.field 8) ∧
      Nat.ofDigits 16 (text.reverse.map hexValue) =
        if d.field = 0 then num.toNat else num.toNat % 16 ^ d.field := by
  obtain ⟨lowerCase, hhex⟩ : ∃ lowerCase, Conv.ofByte d.conv = .hex lowerCase := by
    rcases hconv with h | h
    · exact ⟨true, by rw [h]; rfl⟩
    · exact ⟨false, by rw [h]; rfl⟩
  have hshort : (lowChars 16 (hexChar lowerCase) num.toNat).length ≤ 8 :=
    length_lowChars_le (by decide) num.isLt (by decide)
  refine ⟨hexNum (widthValue d.width) d.zeropad lowerCase num, ?_, ?_, ?_⟩
  · rw [output_directive_end, hhex]
    rfl
  · intro hfield
    rw [hexNum, numText, List.length_reverse]
    exact length_fitted hfield hshort
  · have hfill : hexValue (if d.zeropad then 48 else 32) = 0 := by
      cases d.zeropad <;> rfl
    rw [hexNum, numText, List.reverse_reverse]
    exact ofDigits_fitted (by decide) (fun _ h => hexValue_hexChar h) hfill

/-- `%03X` -/
def hex03 : Directive where
  width := [48, 51]
  conv := 88
  width_digit := by decide
  width_int := by decide
  conv_digit := by decide
  conv_ne := by decide

theorem output_hex_hex03 :
    ∃ text, output ([37, 48, 51, 88] ++ 0 :: []) [.int 0x12345] = .ok text ∧
      (3 ≠ 0 → text.length = min 3 8) ∧
      Nat.ofDigits 16 (text.reverse.map hexValue) = if 3 = 0 then 0x12345 else 0x12345 % 16 ^ 3 :=
  output_hex hex03 (.inr rfl) 0x12345 [] []

theorem digitsValue_reverse (h : ∀ c ∈ digits, isDigit c = true) :
    Cmd.digitsValue digits.reverse = Nat.ofDigits 10 (digits.map decValue) := by
  have hall : digits.reverse.takeWhile isDigit = digits.reverse :=
    List.takeWhile_eq_self_iff.mpr fun c hc => h c (List.mem_reverse.mp hc)
  rw [Cmd.digitsValue, hall, List.foldl_reverse]
  induction digits with
  | nil => rfl
  | cons c digits ih =>
    have hrest : ∀ c ∈ digits, isDigit c = true := fun x hx => h x (List.mem_cons_of_mem _ hx)
    rw [List.foldr_cons, List.map_cons, Nat.ofDigits_cons,
      ih hrest (List.takeWhile_eq_self_iff.mpr fun c hc => hrest c (List.mem_reverse.mp hc)),
      decValue]
    omega

theorem isDigit_fitted {w max : ℕ} {n : ℕ} (h : c ∈ fitted w max 48 (Decimal.lowDigits n)) :
    isDigit c = true := by
  rw [fitted] at h
  split_ifs at h with hw hlong
  · exact Decimal.isDigit_of_mem h
  · exact Decimal.isDigit_of_mem (List.mem_of_mem_take h)
  · rcases List.mem_append.mp h with h | h
    · exact Decimal.isDigit_of_mem h
    · rw [List.eq_of_mem_replicate h]
      rfl

/-- The value of a field of decimal digits that is filled up with zeros. -/
theorem digitsValue_fitted (w max n : ℕ) :
    Cmd.digitsValue (fitted w max 48 (Decimal.lowDigits n)).reverse =
      if w = 0 then n else n % 10 ^ w := by
  rw [digitsValue_reverse fun c => isDigit_fitted]
  exact ofDigits_fitted (by decide) (fun _ h => decValue_digitChar h) rfl

theorem decNum_zeropad {width : ℕ} {zeropad : Bool} (h : zeropad = true ∨ width % 256 = 0)
    (hmin : num ≠ .intMin 32) : decNum width zeropad num =
      (if num.toInt < 0 then [45] else []) ++
        (fitted (width % 256) 10 48 (Decimal.lowDigits num.toInt.natAbs)).reverse := by
  rw [decNum, numText, decChars, if_neg hmin]
  rcases h with h | h
  · rw [h, if_pos rfl]
    rfl
  · rw [h]
    rfl

/-- The least `int` is shown as a minus and a bracket, in which no digit but a zero is found. -/
theorem digitsValue_intMin (w : ℕ) : Cmd.digitsValue (fitted w 10 48 [40]).reverse = 0 := by
  have hzeros : ∀ k < 10, Cmd.digitsValue (List.replicate k 48 ++ [40]) = 0 := by decide
  rw [fitted]
  split_ifs with hw hlong
  · rfl
  · rw [List.length_singleton] at hlong
    omega
  · rw [List.reverse_append, List.reverse_replicate]
    refine hzeros _ ?_
    rw [List.length_singleton]
    omega

theorem ofInt_eq_iff {x : ℤ} (hlow : -2 ^ 31 ≤ x) (hhigh : x < 2 ^ 31) :
    BitVec.ofInt 32 x = num ↔ x = num.toInt := by
  have hx : (BitVec.ofInt 32 x).toInt = x := by
    rw [BitVec.toInt_ofInt]
    exact Int.bmod_eq_of_le (by omega) (by omega)
  rw [← BitVec.toInt_inj, hx]

theorem signed_ne_space {neg : Prop} [Decidable neg] (h : ∀ c ∈ digits, isDigit c = true) :
    ∀ x ∈ (if neg then [45] else []) ++ digits.reverse, x ≠ Cmd.space := by
  intro x hx
  rcases List.mem_append.mp hx with hx | hx
  · split_ifs at hx
    · rw [List.mem_singleton.mp hx]
      decide
    · cases hx
  · exact Decimal.ne_of_isDigit (h x (List.mem_reverse.mp hx)) rfl

theorem wordValue_signed {neg : Prop} [Decidable neg] (h : ∀ c ∈ digits, isDigit c = true) :
    Cmd.wordValue ((if neg then [45] else []) ++ digits.reverse) =
      if neg then -(Cmd.digitsValue digits.reverse : ℤ) else Cmd.digitsValue digits.reverse := by
  by_cases hneg : neg
  · rw [if_pos hneg, if_pos hneg]
    rfl
  · rw [if_neg hneg, if_neg hneg, List.nil_append]
    exact Decimal.wordValue_of_digits fun c hc => h c (List.mem_reverse.mp hc)

theorem decNum_intMin_read (d : Directive) (h : d.zeropad = true ∨ d.field = 0)
    (behind : List Byte) :
    Cmd.atoi (decNum (widthValue d.width) d.zeropad (.intMin 32) ++ 0 :: behind) = .ok 0 := by
  have htext : decNum (widthValue d.width) d.zeropad (.intMin 32) =
      45 :: (fitted d.field 10 48 [40]).reverse := by
    rcases h with h | h
    · rw [h]
      rfl
    · rw [decNum, numText, ← Directive.field, h]
      rfl
  have hspace : ∀ x ∈ 45 :: (fitted d.field 10 48 [40]).reverse, x ≠ Cmd.space := by
    intro x hx
    rcases List.mem_cons.mp hx with rfl | hx
    · decide
    · have hchar : x = 40 ∨ x = 48 := by
        rw [List.mem_reverse, fitted] at hx
        split_ifs at hx
        · exact .inl (List.mem_singleton.mp hx)
        · exact .inl (List.mem_singleton.mp (List.mem_of_mem_take hx))
        · rcases List.mem_append.mp hx with hx | hx
          · exact .inl (List.mem_singleton.mp hx)
          · exact .inr (List.eq_of_mem_replicate hx)
      rcases hchar with rfl | rfl <;> decide
  rw [htext, Cmd.atoi_eq hspace, Cmd.wordValue, if_pos rfl, digitsValue_intMin]
  rfl

/-- A number that is shown in decimal without blanks is read back by `meshx_atoi`, unless it is
the least one or the field cuts digits off. -/
theorem output_dec (d : Directive) (hconv : d.conv = 100) (hfill : d.zeropad = true ∨ d.field = 0)
    (num : BitVec 32) (args : List Arg) (rest behind : List Byte) :
    ∃ text, output ((Piece.directive d).source ++ 0 :: rest) (.int num :: args) = .ok text ∧
      (Cmd.atoi (text ++ 0 :: behind) = .ok num ↔
        num ≠ .intMin 32 ∧ (d.field = 0 ∨ num.toInt.natAbs < 10 ^ d.field)) := by
  refine ⟨decNum (widthValue d.width) d.zeropad num, ?_, ?_⟩
  · rw [output_directive_end, hconv]
    rfl
  by_cases hmin : num = .intMin 32
  · have hzero : (0 : BitVec 32) ≠ .intMin 32 := by decide
    rw [hmin, decNum_intMin_read d hfill]
    exact iff_of_false (fun h => hzero (Except.ok.inj h)) fun h => h.1 rfl
  have hlt := (abs_eq hmin).1
  rw [decNum_zeropad hfill hmin, Cmd.atoi_eq (signed_ne_space fun c => isDigit_fitted),
    wordValue_signed fun c => isDigit_fitted, digitsValue_fitted, ← Directive.field]
  have hvalue : (if d.field = 0 then num.toInt.natAbs else num.toInt.natAbs % 10 ^ d.field) ≤
      num.toInt.natAbs := by
    split_ifs
    · exact le_rfl
    · exact Nat.mod_le _ _
  have hsame : (if d.field = 0 then num.toInt.natAbs else num.toInt.natAbs % 10 ^ d.field) =
      num.toInt.natAbs ↔ d.field = 0 ∨ num.toInt.natAbs < 10 ^ d.field := by
    split_ifs with hfield
    · simp [hfield]
    · rw [Nat.mod_eq_iff_lt (Nat.pow_pos (by decide)).ne']
      simp [hfield]
  generalize (if d.field = 0 then num.toInt.natAbs else num.toInt.natAbs % 10 ^ d.field) = v
    at hvalue hsame
  rw [Except.ok.injEq, ← hsame]
  split_ifs with hneg
  · rw [ofInt_eq_iff (by omega) (by omega)]
    constructor
    · intro h
      exact ⟨hmin, by omega⟩
    · intro h
      omega
  · rw [ofInt_eq_iff (by omega) (by omega)]
    constructor
    · intro h
      exact ⟨hmin, by omega⟩
    · intro h
      omega

/-- `%03d` -/
def dec03 : Directive where
  width := [48, 51]
  conv := 100
  width_digit := by decide
  width_int := by decide
  conv_digit := by decide
  conv_ne := by decide

theorem output_dec_dec03 :
    ∃ text, output ([37, 48, 51, 100] ++ 0 :: []) [.int (-12)] = .ok text ∧
      (Cmd.atoi (text ++ 0 :: []) = .ok (-12) ↔
        (-12 : BitVec 32) ≠ .intMin 32 ∧ (3 = 0 ∨ (-12 : BitVec 32).toInt.natAbs < 10 ^ 3)) :=
  output_dec dec03 rfl (.inl rfl) (-12) [] [] []

end Reading

end Meshx.Io
