import Meshx.Printf

/-! Bytes written as hexadecimal text, and the reader that commands take them with. Definitions
carry the names of `meshx_lib.c`, which calls the text `bin` and the bytes `hex`. -/
namespace Meshx.HexText

open Lib
open Cmd (charAt)
open Decimal (put)
open Io (Arg Directive Piece hexChar hexNum output formatText source)

/-- The value of a digit of either case. -/
def nibble (c : Byte) : Option Byte :=
  if 97 ≤ c ∧ c ≤ 102 then some (c - 97 + 10)
  else if 65 ≤ c ∧ c ≤ 70 then some (c - 65 + 10)
  else if 48 ≤ c ∧ c ≤ 57 then some (c - 48)
  else none

/-- The write of one digit; the first of a byte goes to its high half. -/
def putNibble (hex : List Byte) (i : ℕ) (d : Byte) : Except Fault (List Byte) := do
  let c ← charAt hex (i / 2)
  put hex (i / 2) (if i % 2 = 0 then (c ||| d) <<< 4 else c ||| d)

def bin2hexFrom (bin : List Byte) : (rounds i : ℕ) → List Byte → Except Fault (List Byte)
  | 0, _, hex => .ok hex
  | rounds + 1, i, hex => do
    let c ← charAt bin i
    match nibble c with
    | none => return hex
    | some d => do
      let hex ← putNibble hex i d
      bin2hexFrom bin rounds (i + 1) hex

/-- `meshx_bin2hex`, from one memory to the other. -/
def bin2hex (bin hex : List Byte) (len : Byte) : Except Fault (List Byte) :=
  if len.toNat / 2 ≤ hex.length then
    bin2hexFrom bin len.toNat 0
      (List.replicate (len.toNat / 2) 0 ++ hex.drop (len.toNat / 2))
  else .error .badWrite

/-- The bytes of the digits that a text starts with. -/
def hexBytes : List Byte → List Byte
  | a :: b :: text =>
    match nibble a, nibble b with
    | some x, some y => (x <<< 4 ||| y) :: hexBytes text
    | some x, none => [x <<< 4]
    | none, _ => []
  | _ => []

/-- The bytes that a text is read as, with zeros from where its digits end. -/
def padded (n : ℕ) (bytes : List Byte) : List Byte := (bytes ++ List.replicate n 0).take n

/-- The text is long enough for `n` bytes, or something in it ends the digits. -/
def Suffices (n : ℕ) (text : List Byte) : Prop :=
  2 * n ≤ text.length ∨ ∃ c ∈ text, nibble c = none

section Reading

variable {front text before tail : List Byte} {a b c d x y : Byte} {i n : ℕ}

theorem putNibble_append (h : i / 2 = before.length) : putNibble (before ++ c :: tail) i d =
    .ok (before ++ (if i % 2 = 0 then (c ||| d) <<< 4 else c ||| d) :: tail) := by
  rw [putNibble, h, Decimal.charAt_append, ok_bind, Decimal.put_append]

theorem bin2hexFrom_none (hi : i = front.length) (hc : nibble c = none) (rounds : ℕ)
    (hex : List Byte) : bin2hexFrom (front ++ c :: text) (rounds + 1) i hex = .ok hex := by
  rw [bin2hexFrom, hi, Decimal.charAt_append, ok_bind, hc]
  rfl

theorem bin2hexFrom_some (hi : i = front.length) (hhalf : i / 2 = before.length)
    (hc : nibble c = some d) (rounds : ℕ) :
    bin2hexFrom (front ++ c :: text) (rounds + 1) i (before ++ x :: tail) =
      bin2hexFrom (front ++ c :: text) rounds (i + 1)
        (before ++ (if i % 2 = 0 then (x ||| d) <<< 4 else x ||| d) :: tail) := by
  subst hi
  rw [bin2hexFrom, Decimal.charAt_append, ok_bind, hc]
  dsimp only
  rw [putNibble_append hhalf, ok_bind]

theorem padded_nil : padded n [] = List.replicate n 0 := by
  simp [padded]

theorem padded_cons (c : Byte) (bytes : List Byte) :
    padded (n + 1) (c :: bytes) = c :: padded n bytes := by
  rw [padded, padded, List.cons_append, List.take_succ_cons, List.replicate_succ']
  congr 1
  rw [← List.append_assoc, List.take_append_of_le_length]
  simp

/-- Two rounds of the loop take one byte, and the induction is on the bytes. -/
theorem bin2hexFrom_eq (hfront : front.length = 2 * before.length) (h : Suffices n text) :
    bin2hexFrom (front ++ text) (2 * n) (2 * before.length)
      (before ++ List.replicate n 0 ++ tail) =
        .ok (before ++ padded n (hexBytes text) ++ tail) := by
  induction n generalizing front text before with
  | zero => simp [bin2hexFrom, padded]
  | succ n ih =>
    have hrounds : 2 * (n + 1) = 2 * n + 1 + 1 := by omega
    have hbyte : before ++ List.replicate (n + 1) 0 ++ tail =
        before ++ 0 :: (List.replicate n 0 ++ tail) := by
      simp [List.replicate_succ]
    have hzero : before ++ padded (n + 1) [] ++ tail =
        before ++ 0 :: (List.replicate n 0 ++ tail) := by
      rw [padded_nil, hbyte]
    rw [hrounds, hbyte]
    cases text with
    | nil =>
      rcases h with h | ⟨c, hc, -⟩
      · simp at h
      · cases hc
    | cons a text =>
      cases ha : nibble a with
      | none =>
        have hbytes : hexBytes (a :: text) = [] := by
          cases text with
          | nil => rfl
          | cons b text => simp [hexBytes, ha]
        rw [bin2hexFrom_none hfront.symm ha, hbytes, hzero]
      | some x =>
        rw [bin2hexFrom_some hfront.symm (by omega) ha, if_pos (by omega)]
        cases text with
        | nil =>
          rcases h with h | ⟨c, hc, hnone⟩
          · rw [List.length_singleton] at h
            omega
          · rw [List.mem_singleton.mp hc, ha] at hnone
            cases hnone
        | cons b text =>
          have hsplit : front ++ a :: b :: text = (front ++ [a]) ++ b :: text := by simp
          have hnext : 2 * before.length + 1 = (front ++ [a]).length := by simp [hfront]
          rw [hsplit]
          cases hb : nibble b with
          | none =>
            have hbytes : hexBytes (a :: b :: text) = [x <<< 4] := by
              simp [hexBytes, ha, hb]
            rw [bin2hexFrom_none hnext hb, hbytes, padded_cons, padded_nil]
            simp
          | some y =>
            have hbytes : hexBytes (a :: b :: text) = (x <<< 4 ||| y) :: hexBytes text := by
              simp [hexBytes, ha, hb]
            have hrest : Suffices n text := by
              rcases h with h | ⟨c, hc, hnone⟩
              · refine .inl ?_
                simp only [List.length_cons] at h
                omega
              · refine .inr ⟨c, ?_, hnone⟩
                simp only [List.mem_cons] at hc
                rcases hc with rfl | rfl | hc
                · simp [ha] at hnone
                · simp [hb] at hnone
                · exact hc
            have hlen : (front ++ [a, b]).length = 2 * (before ++ [x <<< 4 ||| y]).length := by
              simp [hfront]
              omega
            have hih := ih hlen hrest
            rw [bin2hexFrom_some hnext (by omega) hb, if_neg (by omega), hbytes, padded_cons]
            simpa [Nat.mul_add] using hih

/-- With an even length the digits at the start of the text are read, the bytes that they do not
fill are cleared, and the memory behind is left alone. -/
theorem bin2hex_even {hex : List Byte} (hn : n < 128) (hroom : n ≤ hex.length)
    (h : Suffices n text) :
    bin2hex text hex (.ofNat 8 (2 * n)) = .ok (padded n (hexBytes text) ++ hex.drop n) := by
  have hlen : (BitVec.ofNat 8 (2 * n)).toNat = 2 * n := by
    rw [BitVec.toNat_ofNat]
    omega
  have hhalf : 2 * n / 2 = n := by omega
  have hread := @bin2hexFrom_eq [] text [] (hex.drop n) n rfl h
  rw [bin2hex, hlen, hhalf, if_pos hroom]
  exact hread

end Reading

section Printing

variable {lowerCase : Bool} {d : ℕ} {b : Byte} {bs : List (Bool × Byte)}

/-- `%02x` or `%02X` -/
def hex02 (lowerCase : Bool) : Directive where
  width := [48, 50]
  conv := if lowerCase then 120 else 88
  width_digit := by decide
  width_int := by decide
  conv_digit := by cases lowerCase <;> rfl
  conv_ne := by cases lowerCase <;> decide

/-- The text of a byte, of two digits. -/
def hexPair (lowerCase : Bool) (b : Byte) : List Byte :=
  [hexChar lowerCase (b.toNat / 16), hexChar lowerCase (b.toNat % 16)]

theorem nibble_hexChar (h : d < 16) : nibble (hexChar lowerCase d) = some (.ofNat 8 d) := by
  revert lowerCase d
  decide

theorem halves (b : Byte) :
    (BitVec.ofNat 8 (b.toNat / 16) <<< 4 ||| BitVec.ofNat 8 (b.toNat % 16) : Byte) = b := by
  revert b
  decide

/-- A field of two places, filled with zeros, holds any byte. -/
theorem hexNum_byte (lowerCase : Bool) (b : Byte) :
    hexNum 2 true lowerCase (b.setWidth 32) = hexPair lowerCase b := by
  have hlt := b.isLt
  have hnum : (b.setWidth 32).toNat = b.toNat := by
    rw [BitVec.toNat_setWidth]
    omega
  have hzero : hexChar lowerCase 0 = 48 := by cases lowerCase <;> rfl
  rw [hexNum, hnum, hexPair]
  rcases lt_or_ge b.toNat 16 with hsmall | hlarge
  · rw [lowChars_of_lt hsmall, Nat.div_eq_of_lt hsmall, Nat.mod_eq_of_lt hsmall, hzero]
    rfl
  · have hhigh : b.toNat / 16 < 16 := by omega
    rw [lowChars_of_ge (by decide) hlarge, lowChars_of_lt hhigh]
    rfl

theorem text_hex02 (lowerCase : Bool) (b : Byte) (args : List Arg) :
    (Piece.directive (hex02 lowerCase)).text (.int (b.setWidth 32) :: args) =
      .ok (hexPair lowerCase b, args) := by
  rw [← hexNum_byte]
  cases lowerCase <;> rfl

theorem formatText_bytes (bs : List (Bool × Byte)) :
    formatText (bs.map fun b => .directive (hex02 b.1)) (bs.map fun b => .int (b.2.setWidth 32)) =
      .ok (bs.flatMap fun b => hexPair b.1 b.2, []) := by
  induction bs with
  | nil => rfl
  | cons b bs ih =>
    simp only [List.map_cons, formatText, text_hex02, ok_bind, ih, List.flatMap_cons]
    rfl

theorem hexBytes_pairs (bs : List (Bool × Byte)) (behind : List Byte) :
    hexBytes ((bs.flatMap fun b => hexPair b.1 b.2) ++ behind) =
      bs.map (·.2) ++ hexBytes behind := by
  induction bs with
  | nil => rfl
  | cons b bs ih =>
    have hlt := b.2.isLt
    have hhigh : b.2.toNat / 16 < 16 := by omega
    have hlow : b.2.toNat % 16 < 16 := Nat.mod_lt _ (by decide)
    have hsplit : ((b :: bs).flatMap fun b => hexPair b.1 b.2) ++ behind =
        hexChar b.1 (b.2.toNat / 16) :: hexChar b.1 (b.2.toNat % 16) ::
          ((bs.flatMap fun b => hexPair b.1 b.2) ++ behind) := rfl
    rw [hsplit, hexBytes, nibble_hexChar hhigh, nibble_hexChar hlow]
    dsimp only
    rw [halves, ih]
    rfl

theorem length_pairs (bs : List (Bool × Byte)) :
    (bs.flatMap fun b => hexPair b.1 b.2).length = 2 * bs.length := by
  induction bs with
  | nil => rfl
  | cons b bs ih =>
    rw [List.flatMap_cons, List.length_append, ih]
    simp [hexPair]
    omega

theorem padded_append (bytes behind : List Byte) :
    padded bytes.length (bytes ++ behind) = bytes := by
  rw [padded, List.append_assoc, List.take_left']
  rfl

/-- Bytes that are printed with two digits each, of either case, are read back as they were,
whatever follows the text. -/
theorem bin2hex_printed (bs : List (Bool × Byte)) (rest behind hex : List Byte)
    (hlen : bs.length < 128) (hroom : bs.length ≤ hex.length) :
    ∃ text, output (source (bs.map fun b => .directive (hex02 b.1)) ++ 0 :: rest)
        (bs.map fun b => .int (b.2.setWidth 32)) = .ok text ∧
      bin2hex (text ++ behind) hex (.ofNat 8 (2 * bs.length)) =
        .ok (bs.map (·.2) ++ hex.drop bs.length) := by
  refine ⟨bs.flatMap fun b => hexPair b.1 b.2, ?_, ?_⟩
  · rw [Io.output_source, formatText_bytes, ok_bind, Io.output_nul]
    exact congrArg Except.ok (List.append_nil _)
  · have hsuffices : Suffices bs.length ((bs.flatMap fun b => hexPair b.1 b.2) ++ behind) := by
      apply Or.inl
      rw [List.length_append, length_pairs]
      exact Nat.le_add_right _ _
    rw [bin2hex_even hlen hroom hsuffices, hexBytes_pairs]
    have hpadded := padded_append (bs.map (·.2)) (hexBytes behind)
    rw [List.length_map] at hpadded
    rw [hpadded]

theorem bin2hex_printed_two :
    ∃ text, output (source ([(false, 0xAB), (true, 0x0C)].map fun b => .directive (hex02 b.1)) ++
        0 :: []) [.int 0xAB, .int 0x0C] = .ok text ∧
      bin2hex (text ++ [32]) [1, 2, 3] 4 = .ok [0xAB, 0x0C, 3] :=
  bin2hex_printed [(false, 0xAB), (true, 0x0C)] [] [32] [1, 2, 3] (by decide) (by decide)

end Printing

end Meshx.HexText
