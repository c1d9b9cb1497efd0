import Meshx.CmdParse

/-! Numbers and their decimal texts, in both directions. Definitions carry the names of
`meshx_lib.c`. -/
namespace Meshx.Decimal

open Lib
open Cmd (charAt atoiSkip isDigit digitsValue wordValue)

section Model

def put (buf : List Byte) (p : ℕ) (c : Byte) : Except Fault (List Byte) :=
  if p < buf.length then .ok (buf.set p c) else .error .badWrite

/-- The loop that writes the digits, the least significant one first. It ends with the address
behind them and with what is left of the number. -/
def itoaDigits : ℕ → List Byte → ℕ → BitVec 32 → Except Fault (List Byte × ℕ × BitVec 32)
  | 0, _, _, _ => .error .hang
  | fuel + 1, buf, p, val => do
    let buf ← put buf p ((val.srem 10 + 48).setWidth 8)
    if (0 : BitVec 32).slt (val.sdiv 10) then itoaDigits fuel buf (p + 1) (val.sdiv 10)
    else return (buf, p + 1, val.sdiv 10)

/-- The loop that swaps the digits, from the round `i` on. -/
def itoaSwap (p count : ℕ) : (rounds i : ℕ) → List Byte → Except Fault (List Byte)
  | 0, _, buf => .ok buf
  | rounds + 1, i, buf => do
    let temp ← charAt buf (p + i)
    let c ← charAt buf (p + (count * 2 - 1 - i))
    let buf ← put buf (p + i) c
    let buf ← put buf (p + (count * 2 - 1 - i)) temp
    itoaSwap p count rounds (i + 1) buf

/-- `meshx_itoa` from the digits on. When the sign is asked for again, `val` is what the loop has
left of the number. -/
def itoaFrom (buf : List Byte) (p : ℕ) (val : BitVec 32) : Except Fault (List Byte) := do
  let (buf, p, val) ← itoaDigits (buf.length + 1) buf p val
  let buf ← put buf p 0
  let count : Byte := .ofNat 8 ((if val.slt 0 then p - 1 else p) / 2)
  itoaSwap (if val.slt 0 then 1 else 0) count.toNat count.toNat 0 buf

/-- `meshx_itoa`, to the memory from an address on. -/
def itoa (val : BitVec 32) (buf : List Byte) : Except Fault (List Byte) :=
  if val.slt 0 then do
    let buf ← put buf 0 45
    itoaFrom buf 1 (-val)
  else itoaFrom buf 0 val

def atoiDigits : List Byte → BitVec 32 → Bool → Except Fault (BitVec 32 × Bool)
  | [], _, _ => .error .badRead
  | c :: s, val, valid =>
    if c = 0 then .ok (val, valid)
    else if isDigit c then atoiDigits s (val * 10 + c.setWidth 32 - 48) true
    else .ok (val, valid)

/-- `meshx_atoi` with what it leaves at `pvalid`. -/
def atoi (s : List Byte) : Except Fault (BitVec 32 × Bool) := do
  match ← atoiSkip s with
  | none => return (0, false)
  | some [] => .error .badRead
  | some (c :: s) =>
    if c = 45 then
      let r ← atoiDigits s 0 false
      return (-r.1, r.2)
    else atoiDigits (c :: s) 0 false

end Model

section Canonical

def digitChar (d : ℕ) : Byte := .ofNat 8 d + 48

/-- The decimal digits of a number, the least significant one first. Zero has one. -/
def lowDigits (n : ℕ) : List Byte :=
  if n = 0 then [digitChar 0] else (Nat.digits 10 n).map digitChar

/-- The canonical decimal text of a value. -/
def decimal (v : BitVec 32) : List Byte :=
  (if v.toInt < 0 then [45] else []) ++ (lowDigits v.toInt.natAbs).reverse

/-- The text at an address, up to the zero. -/
def cstring (buf : List Byte) : List Byte := buf.takeWhile (· ≠ 0)

/-- The value is written in its canonical form, and read back from there. -/
def RoundTrips (v : BitVec 32) (buf : List Byte) : Prop :=
  ∃ out, itoa v buf = .ok out ∧ cstring out = decimal v ∧ atoi out = .ok (v, true)

/-- The digits of the value come out in the right order: it is not negative, and their number is
even or they are all the same. -/
def EvenOrSame (v : BitVec 32) : Prop :=
  0 ≤ v.toInt ∧ (Even (lowDigits v.toInt.natAbs).length ∨
    ∀ c ∈ lowDigits v.toInt.natAbs, ∀ d ∈ lowDigits v.toInt.natAbs, c = d)

end Canonical


section Digits

theorem lowDigits_of_lt {n : ℕ} (h : n < 10) : lowDigits n = [digitChar n] := by
  rw [lowDigits]
  split_ifs with hn
  · rw [hn]
  · rw [Nat.digits_of_lt 10 n hn h]
    rfl

theorem lowDigits_of_ge {n : ℕ} (h : 10 ≤ n) :
    lowDigits n = digitChar (n % 10) :: lowDigits (n / 10) := by
  rw [lowDigits, if_neg (by omega), lowDigits, if_neg (by omega),
    Nat.digits_def' (by decide) (by omega)]
  rfl

theorem lowDigits_ne_nil (n : ℕ) : lowDigits n ≠ [] := by
  rcases lt_or_ge n 10 with h | h
  · simp [lowDigits_of_lt h]
  · simp [lowDigits_of_ge h]

theorem toNat_digitChar {d : ℕ} (h : d < 10) : (digitChar d).toNat = 48 + d := by
  have hzero : (48 : Byte).toNat = 48 := rfl
  rw [digitChar, BitVec.toNat_add, BitVec.toNat_ofNat, hzero]
  omega

theorem mem_lowDigits {n : ℕ} {c : Byte} (h : c ∈ lowDigits n) : ∃ d < 10, c = digitChar d := by
  induction n using Nat.strong_induction_on with
  | _ n ih =>
    rcases lt_or_ge n 10 with hn | hn
    · rw [lowDigits_of_lt hn, List.mem_singleton] at h
      exact ⟨n, hn, h⟩
    · rw [lowDigits_of_ge hn, List.mem_cons] at h
      rcases h with rfl | h
      · exact ⟨n % 10, Nat.mod_lt _ (by decide), rfl⟩
      · exact ih (n / 10) (by omega) h

theorem isDigit_of_mem {n : ℕ} {c : Byte} (h : c ∈ lowDigits n) : isDigit c = true := by
  obtain ⟨d, hd, rfl⟩ := mem_lowDigits h
  interval_cases d <;> decide

theorem length_lowDigits_le {n : ℕ} (h : n < 2 ^ 31) : (lowDigits n).length ≤ 10 := by
  rw [lowDigits]
  split_ifs with hn
  · decide
  · rw [List.length_map, Nat.digits_length_le_iff (by decide)]
    omega

/-- What is read from the digits of a number is the number. -/
theorem digitsValue_reverse_lowDigits (n : ℕ) : digitsValue (lowDigits n).reverse = n := by
  have hall : (lowDigits n).reverse.takeWhile isDigit = (lowDigits n).reverse :=
    List.takeWhile_eq_self_iff.mpr fun c hc => isDigit_of_mem (List.mem_reverse.mp hc)
  rw [digitsValue, hall, List.foldl_reverse]
  induction n using Nat.strong_induction_on with
  | _ n ih =>
    rcases lt_or_ge n 10 with hn | hn
    · rw [lowDigits_of_lt hn, List.foldr_cons, toNat_digitChar hn]
      simp
    · have hrest := ih (n / 10) (by omega)
        (List.takeWhile_eq_self_iff.mpr fun c hc => isDigit_of_mem (List.mem_reverse.mp hc))
      rw [lowDigits_of_ge hn, List.foldr_cons, hrest, toNat_digitChar (Nat.mod_lt _ (by decide))]
      omega

end Digits

section Loops

variable {before behind : List Byte} {c x : Byte}

theorem put_append : put (before ++ x :: behind) before.length c = .ok (before ++ c :: behind) := by
  rw [put, if_pos (by simp), List.set_append_right _ _ le_rfl, Nat.sub_self]
  rfl

theorem charAt_append : charAt (before ++ x :: behind) before.length = .ok x := by
  rw [charAt, List.getElem?_append_right le_rfl, Nat.sub_self]
  rfl

/-- A step of the loop over the digits. -/
theorem srem_sdiv_ten {n : ℕ} (h : n < 2 ^ 31) :
    ((BitVec.ofNat 32 n).srem 10 + 48).setWidth 8 = digitChar (n % 10) ∧
      (BitVec.ofNat 32 n).sdiv 10 = .ofNat 32 (n / 10) := by
  have hmsb : (BitVec.ofNat 32 n).msb = false := by
    rw [BitVec.msb_eq_false_iff_two_mul_lt, BitVec.toNat_ofNat]
    omega
  have hten : (10 : BitVec 32).msb = false := rfl
  have hval : (BitVec.ofNat 32 n).toNat = n := by
    rw [BitVec.toNat_ofNat]
    omega
  constructor
  · rw [BitVec.srem_eq, hmsb, hten]
    apply BitVec.eq_of_toNat_eq
    simp [digitChar, hval]
  · rw [BitVec.sdiv_eq, hmsb, hten]
    apply BitVec.eq_of_toNat_eq
    rw [BitVec.toNat_ofNat]
    simp only [BitVec.udiv_eq, BitVec.toNat_udiv, hval, BitVec.reduceToNat]
    omega

theorem slt_ofNat {n : ℕ} (h : n < 2 ^ 31) :
    (0 : BitVec 32).slt (.ofNat 32 n) = decide (0 < n) := by
  have hval : (BitVec.ofNat 32 n).toInt = n := by
    rw [BitVec.toInt_eq_toNat_of_lt] <;> rw [BitVec.toNat_ofNat] <;> omega
  rw [BitVec.slt, hval]
  simp

/-- The loop writes the digits of a number that is not negative, and nothing is left of it. -/
theorem itoaDigits_eq {fuel n : ℕ} {mid : List Byte} (hn : n < 2 ^ 31)
    (hfuel : (lowDigits n).length ≤ fuel) (hmid : (lowDigits n).length ≤ mid.length) :
    itoaDigits fuel (before ++ mid) before.length (.ofNat 32 n) =
      .ok (before ++ lowDigits n ++ mid.drop (lowDigits n).length,
        before.length + (lowDigits n).length, 0) := by
  induction fuel generalizing n before mid with
  | zero => exact absurd (List.length_eq_zero_iff.mp (by omega)) (lowDigits_ne_nil n)
  | succ fuel ih =>
    obtain ⟨hchar, hdiv⟩ := srem_sdiv_ten hn
    cases mid with
    | nil => exact absurd (List.length_eq_zero_iff.mp (by simpa using hmid)) (lowDigits_ne_nil n)
    | cons x mid =>
      rw [itoaDigits, hchar, hdiv, put_append, ok_bind, slt_ofNat (by omega)]
      rcases lt_or_ge n 10 with hlt | hge
      · rw [lowDigits_of_lt hlt, Nat.div_eq_of_lt hlt, Nat.mod_eq_of_lt hlt]
        simp [pure, Except.pure]
      · rw [lowDigits_of_ge hge] at hfuel hmid ⊢
        rw [if_pos (by simp; omega)]
        have hrest : itoaDigits fuel (before ++ [digitChar (n % 10)] ++ mid)
            (before ++ [digitChar (n % 10)]).length (.ofNat 32 (n / 10)) = _ :=
          ih (by omega) (by simpa using hfuel) (by simpa using hmid)
        simp only [List.append_assoc, List.singleton_append, List.length_append,
          List.length_singleton] at hrest
        rw [hrest]
        simp [Nat.add_assoc, Nat.add_comm 1]

/-- The loop turns round the text that it goes over. -/
theorem itoaSwap_eq {p count rounds i : ℕ} {w : List Byte} (hcount : i + rounds = count)
    (hbefore : before.length = p + i) (hw : w.length = rounds * 2) :
    itoaSwap p count rounds i (before ++ (w ++ behind)) =
      .ok (before ++ (w.reverse ++ behind)) := by
  induction rounds generalizing i before behind w with
  | zero =>
    rw [List.length_eq_zero_iff.mp (by omega : w.length = 0)]
    rfl
  | succ rounds ih =>
    obtain ⟨a, w, rfl⟩ := List.exists_cons_of_length_pos (by omega : 0 < w.length)
    obtain ⟨m, b, rfl⟩ : ∃ m b, w = m ++ [b] := by
      rcases List.eq_nil_or_concat w with rfl | ⟨m, b, rfl⟩
      · rw [List.length_singleton] at hw
        omega
      · exact ⟨m, b, List.concat_eq_append⟩
    have hm : m.length = rounds * 2 := by
      simp only [List.length_cons, List.length_append, List.length_nil] at hw
      omega
    have hlast : p + (count * 2 - 1 - i) = (before ++ a :: m).length := by
      simp only [List.length_append, List.length_cons]
      omega
    have hlast' : p + (count * 2 - 1 - i) = (before ++ b :: m).length := by
      rw [hlast]
      simp
    have hfirst : before ++ (a :: (m ++ [b]) ++ behind) = before ++ a :: (m ++ b :: behind) := by
      simp
    have hend (d : Byte) :
        before ++ d :: (m ++ b :: behind) = (before ++ d :: m) ++ b :: behind := by
      simp
    rw [itoaSwap, hfirst, ← hbefore, charAt_append, ok_bind, hend, hlast, charAt_append, ok_bind,
      ← hend, put_append, ok_bind, ← hlast, hend, hlast', put_append, ok_bind]
    have hrest : itoaSwap p count rounds (i + 1) (before ++ [b] ++ (m ++ a :: behind)) = _ :=
      ih (by omega) (by simp [hbefore, Nat.add_assoc]) hm
    simpa using hrest

end Loops

section Texts

/-- What the loop that swaps makes of a text: it turns round an even number of characters. -/
def turned (w : List Byte) : List Byte :=
  (w.take (w.length / 2 * 2)).reverse ++ w.drop (w.length / 2 * 2)

theorem turned_of_even {w : List Byte} (h : Even w.length) : turned w = w.reverse := by
  have hlen : w.length / 2 * 2 = w.length := Nat.div_mul_cancel h.two_dvd
  rw [turned, hlen, List.take_length, List.drop_length, List.append_nil]

/-- The last character of a text of odd length stays where it is. -/
theorem turned_of_odd {w : List Byte} {c : Byte} (h : Even w.length) :
    turned (w ++ [c]) = w.reverse ++ [c] := by
  have hlen : (w ++ [c]).length / 2 * 2 = w.length := by
    obtain ⟨k, hk⟩ := h
    rw [List.length_append, List.length_singleton]
    omega
  rw [turned, hlen, List.take_left, List.drop_left]

theorem itoaSwap_eq_turned (w behind : List Byte) :
    itoaSwap 0 (w.length / 2) (w.length / 2) 0 (w ++ behind) = .ok (turned w ++ behind) := by
  have hlen := List.length_take_of_le (Nat.div_mul_le_self w.length 2)
  have hswap : itoaSwap 0 (w.length / 2) (w.length / 2) 0
      ([] ++ (w.take (w.length / 2 * 2) ++ (w.drop (w.length / 2 * 2) ++ behind))) = _ :=
    itoaSwap_eq (Nat.zero_add _) rfl hlen
  rw [List.nil_append, ← List.append_assoc, List.take_append_drop] at hswap
  rw [hswap, turned, List.nil_append, List.append_assoc]

theorem itoaFrom_eq {before mid : List Byte} {n : ℕ} (hn : n < 2 ^ 31) (hbefore : before.length ≤ 1)
    (hmid : (lowDigits n).length < mid.length) :
    itoaFrom (before ++ mid) before.length (.ofNat 32 n) =
      .ok (turned (before ++ lowDigits n) ++ 0 :: mid.drop ((lowDigits n).length + 1)) := by
  have hfuel : (lowDigits n).length ≤ (before ++ mid).length + 1 := by
    rw [List.length_append]
    omega
  have hdigits : itoaDigits _ (before ++ mid) _ _ = _ := itoaDigits_eq hn hfuel hmid.le
  obtain ⟨x, hx⟩ : ∃ x, mid.drop (lowDigits n).length =
      x :: mid.drop ((lowDigits n).length + 1) :=
    ⟨mid[(lowDigits n).length], List.drop_eq_getElem_cons hmid⟩
  have hzero : (0 : BitVec 32).slt 0 = false := rfl
  have hshort := length_lowDigits_le hn
  rw [itoaFrom, hdigits, ok_bind]
  dsimp only
  rw [hx, ← List.length_append, put_append, ok_bind, hzero, if_neg Bool.false_ne_true,
    if_neg Bool.false_ne_true]
  have hcount : (BitVec.ofNat 8 ((before ++ lowDigits n).length / 2)).toNat =
      (before ++ lowDigits n).length / 2 := by
    rw [BitVec.toNat_ofNat, List.length_append]
    omega
  rw [hcount]
  exact itoaSwap_eq_turned _ _

section Values

variable {v : BitVec 32} {buf : List Byte}

theorem decimal_of_nonneg (hv : 0 ≤ v.toInt) : decimal v = (lowDigits v.toInt.natAbs).reverse := by
  rw [decimal, if_neg (not_lt.mpr hv), List.nil_append]

theorem decimal_of_neg (hv : v.toInt < 0) :
    decimal v = 45 :: (lowDigits v.toInt.natAbs).reverse := by
  rw [decimal, if_pos hv, List.singleton_append]

/-- A value that is not negative is written as its digits, turned as the loop does it. -/
theorem itoa_of_nonneg (hv : 0 ≤ v.toInt) (hroom : (decimal v).length < buf.length) :
    itoa v buf = .ok (turned (lowDigits v.toInt.natAbs) ++
      0 :: buf.drop ((lowDigits v.toInt.natAbs).length + 1)) := by
  have hlt : v.toInt < 2 ^ 31 := BitVec.toInt_lt
  have hval : v = .ofNat 32 v.toInt.natAbs := by
    rw [← BitVec.ofInt_natCast, Int.natAbs_of_nonneg hv, BitVec.ofInt_toInt]
  have hslt : v.slt 0 = false := by
    rw [BitVec.slt]
    simpa using hv
  rw [decimal_of_nonneg hv, List.length_reverse] at hroom
  rw [itoa, hslt, if_neg Bool.false_ne_true]
  have hfrom : itoaFrom ([] ++ buf) 0 (.ofNat 32 v.toInt.natAbs) = _ :=
    itoaFrom_eq (by omega) (by decide) hroom
  rwa [← hval] at hfrom

/-- The sign of a negative value is turned with the digits. -/
theorem itoa_of_neg (hv : v.toInt < 0) (hmin : v ≠ .intMin 32)
    (hroom : (decimal v).length < buf.length) :
    itoa v buf = .ok (turned (45 :: lowDigits v.toInt.natAbs) ++
      0 :: buf.drop ((lowDigits v.toInt.natAbs).length + 2)) := by
  have hge : -2 ^ 31 ≤ v.toInt := BitVec.le_toInt v
  have hne : v.toInt ≠ -2 ^ 31 := fun h => hmin <| by
    rw [← BitVec.ofInt_toInt (x := v), h]
    rfl
  have hval : -v = .ofNat 32 v.toInt.natAbs := by
    rw [← BitVec.ofInt_natCast, Int.ofNat_natAbs_of_nonpos hv.le, BitVec.ofInt_neg,
      BitVec.ofInt_toInt]
  have hslt : v.slt 0 = true := by
    rw [BitVec.slt]
    simpa using hv
  rw [decimal_of_neg hv, List.length_cons, List.length_reverse] at hroom
  cases buf with
  | nil => exact absurd hroom (Nat.not_lt_zero _)
  | cons x mid =>
    have hput : put ([] ++ x :: mid) 0 45 = .ok ([] ++ 45 :: mid) := put_append
    have hfrom : itoaFrom ([45] ++ mid) 1 (.ofNat 32 v.toInt.natAbs) = _ :=
      itoaFrom_eq (by omega) le_rfl (by simpa using hroom)
    rw [itoa, if_pos hslt, ← List.nil_append (x :: mid), hput, ok_bind, hval]
    exact hfrom

/-- Of the least value there is one character, which is no digit. -/
theorem itoa_intMin (hroom : 3 ≤ buf.length) :
    itoa (.intMin 32) buf = .ok ([45, 40] ++ 0 :: buf.drop 3) := by
  rcases buf with _ | ⟨a, _ | ⟨b, _ | ⟨c, rest⟩⟩⟩
  · simp at hroom
  · simp at hroom
  · simp at hroom
  · rfl

end Values

end Texts

section Reading

theorem atoiDigits_fst (s : List Byte) (val : BitVec 32) (valid : Bool) :
    (·.1) <$> atoiDigits s val valid = Cmd.atoiDigits s val := by
  induction s generalizing val valid with
  | nil => rfl
  | cons c s ih =>
    rw [atoiDigits, Cmd.atoiDigits]
    split_ifs with hzero hdigit hdigit
    · rw [hzero] at hdigit
      exact absurd hdigit (by decide)
    · rfl
    · exact ih _ _
    · rfl

/-- Whether the text is valid is asked for or not: the value is the same. -/
theorem atoi_fst (s : List Byte) : (·.1) <$> atoi s = Cmd.atoi s := by
  rw [atoi, Cmd.atoi]
  rcases atoiSkip s with f | _ | _ | ⟨c, s⟩
  · rfl
  · rfl
  · rfl
  · rw [ok_bind, ok_bind]
    dsimp only
    split_ifs with hc
    · rw [← atoiDigits_fst s 0 false]
      cases atoiDigits s 0 false <;> rfl
    · exact atoiDigits_fst _ _ _

/-- Once a digit has been read the text is valid. -/
theorem atoiDigits_valid {s : List Byte} {val : BitVec 32} {r : BitVec 32 × Bool}
    (h : atoiDigits s val true = .ok r) : r.2 = true := by
  induction s generalizing val with
  | nil => cases h
  | cons c s ih =>
    rw [atoiDigits] at h
    split_ifs at h with hzero hdigit
    · exact congrArg Prod.snd (Except.ok.inj h).symm
    · exact ih h
    · exact congrArg Prod.snd (Except.ok.inj h).symm

theorem ne_of_isDigit {c d : Byte} (hc : isDigit c = true) (hd : isDigit d = false) : c ≠ d := by
  rintro rfl
  rw [hd] at hc
  cases hc

theorem wordValue_of_digits {w : List Byte} (h : ∀ c ∈ w, isDigit c = true) :
    wordValue w = digitsValue w := by
  cases w with
  | nil => rfl
  | cons c w => rw [wordValue, if_neg (ne_of_isDigit (h c List.mem_cons_self) rfl)]

/-- A text that starts with a digit is read from there, with the first digit taken. -/
theorem atoi_of_isDigit {c : Byte} {s : List Byte} (hc : isDigit c = true) :
    atoi (c :: s) = atoiDigits s (0 * 10 + c.setWidth 32 - 48) true := by
  rw [atoi, Cmd.atoiSkip_cons (ne_of_isDigit hc rfl), ok_bind]
  dsimp only
  rw [if_neg (ne_of_isDigit hc rfl), atoiDigits, if_neg (ne_of_isDigit hc rfl), if_pos hc]

/-- The canonical text of a value that is not negative is read as the value. -/
theorem atoi_decimal {v : BitVec 32} (hv : 0 ≤ v.toInt) (behind : List Byte) :
    atoi (decimal v ++ 0 :: behind) = .ok (v, true) := by
  have hdigit : ∀ c ∈ decimal v, isDigit c = true := fun c hc =>
    isDigit_of_mem (List.mem_reverse.mp (decimal_of_nonneg hv ▸ hc))
  have hvalue : wordValue (decimal v) = v.toInt := by
    rw [wordValue_of_digits hdigit, decimal_of_nonneg hv, digitsValue_reverse_lowDigits]
    exact Int.natAbs_of_nonneg hv
  have hfst : (·.1) <$> atoi (decimal v ++ 0 :: behind) = .ok v := by
    rw [atoi_fst, Cmd.atoi_eq fun c hc => ne_of_isDigit (hdigit c hc) rfl, hvalue,
      BitVec.ofInt_toInt]
  obtain ⟨r, hr, hval⟩ := map_ok hfst
  have hvalid : r.2 = true := by
    obtain ⟨c, w, hw⟩ : ∃ c w, decimal v = c :: w := by
      refine List.exists_cons_of_ne_nil fun h => lowDigits_ne_nil v.toInt.natAbs ?_
      rwa [decimal_of_nonneg hv, List.reverse_eq_nil_iff] at h
    have hc := hdigit c (hw ▸ List.mem_cons_self)
    rw [hw, List.cons_append, atoi_of_isDigit hc] at hr
    exact atoiDigits_valid hr
  rw [hr, ← hval, ← hvalid]

end Reading

section RoundTrip

theorem append_singleton_eq_cons {α : Type*} {a : α} {l : List α} :
    l ++ [a] = a :: l ↔ ∀ x ∈ l, x = a := by
  induction l with
  | nil => simp
  | cons x l ih =>
    rw [List.cons_append, List.cons.injEq, List.forall_mem_cons]
    refine and_congr_right fun hx => ?_
    rw [hx]
    exact ih

theorem turned_perm (w : List Byte) : (turned w).Perm w :=
  ((List.reverse_perm _).append_right _).trans (.of_eq (List.take_append_drop _ _))

theorem cstring_append {w behind : List Byte} (h : ∀ c ∈ w, c ≠ 0) :
    cstring (w ++ 0 :: behind) = w := by
  rw [cstring, List.takeWhile_append_of_pos (by simpa using h)]
  simp

/-- The characters come in the canonical order if and only if their number is even, or they are
all the same. -/
theorem turned_eq_reverse_iff {w : List Byte} :
    turned w = w.reverse ↔ Even w.length ∨ ∀ c ∈ w, ∀ d ∈ w, c = d := by
  rcases List.eq_nil_or_concat w with rfl | ⟨w, a, rfl⟩
  · simp [turned]
  rw [List.concat_eq_append]
  rcases Nat.even_or_odd (w ++ [a]).length with heven | hodd
  · exact iff_of_true (turned_of_even heven) (.inl heven)
  · have hw : Even w.length := by
      simpa [Nat.odd_add_one] using hodd
    rw [turned_of_odd hw, List.reverse_append, List.reverse_singleton, List.singleton_append,
      append_singleton_eq_cons, or_iff_right (Nat.not_even_iff_odd.mpr hodd)]
    constructor
    · intro h
      have hall : ∀ x ∈ w ++ [a], x = a := by
        intro x hx
        rcases List.mem_append.mp hx with hx | hx
        · exact h x (List.mem_reverse.mpr hx)
        · exact List.mem_singleton.mp hx
      exact fun c hc d hd => (hall c hc).trans (hall d hd).symm
    · exact fun h x hx => h x (by simpa using .inl (List.mem_reverse.mp hx)) a (by simp)

/-- The sign does not come first again. -/
theorem turned_cons_ne {low rest : List Byte} (hlow : low ≠ []) (h : ∀ c ∈ low, c ≠ 45) :
    turned (45 :: low) ≠ 45 :: rest := by
  obtain ⟨k, hk⟩ : ∃ k, (45 :: low).length / 2 * 2 = k + 1 + 1 := by
    have := List.length_pos_of_ne_nil hlow
    refine ⟨(45 :: low).length / 2 * 2 - 2, ?_⟩
    rw [List.length_cons]
    omega
  obtain ⟨b, t, hb⟩ : ∃ b t, (low.take (k + 1)).reverse = b :: t := by
    refine List.exists_cons_of_ne_nil fun hnil => hlow ?_
    simpa using hnil
  have hmem : b ∈ low := by
    refine List.mem_of_mem_take (i := k + 1) (List.mem_reverse.mp ?_)
    rw [hb]
    exact List.mem_cons_self
  rw [turned, hk, List.take_succ_cons, List.reverse_cons, hb]
  exact fun heq => h b hmem (List.cons.inj heq).1

theorem not_roundTrips_of_neg {v : BitVec 32} {buf : List Byte} (hv : v.toInt < 0)
    (hroom : (decimal v).length < buf.length) : ¬ RoundTrips v buf := by
  rintro ⟨out, hout, htext, -⟩
  by_cases hmin : v = .intMin 32
  · subst hmin
    rw [itoa_intMin (by
      have hlen : (decimal (.intMin 32)).length = 11 := by decide
      omega)] at hout
    rw [← Except.ok.inj hout, cstring_append (by decide)] at htext
    exact absurd htext (by decide)
  · have hne : ∀ d : Byte, isDigit d = false → ∀ c ∈ lowDigits v.toInt.natAbs, c ≠ d :=
      fun d hd c hc => ne_of_isDigit (isDigit_of_mem hc) hd
    rw [itoa_of_neg hv hmin hroom] at hout
    rw [← Except.ok.inj hout, cstring_append, decimal_of_neg hv] at htext
    · exact turned_cons_ne (lowDigits_ne_nil _) (hne 45 rfl) htext
    · intro c hc
      rcases List.mem_cons.mp ((turned_perm _).mem_iff.mp hc) with rfl | hc
      · decide
      · exact hne 0 rfl c hc

/-- A value makes the round trip if and only if it is not negative and the number of its digits is
even or they are all the same. -/
theorem decimal_roundTrips_iff (v : BitVec 32) (buf : List Byte)
    (hroom : (decimal v).length < buf.length) : RoundTrips v buf ↔ EvenOrSame v := by
  rcases lt_or_ge v.toInt 0 with hv | hv
  · exact iff_of_false (not_roundTrips_of_neg hv hroom) fun h => absurd h.1 (not_le.mpr hv)
  have htext : cstring (turned (lowDigits v.toInt.natAbs) ++
      0 :: buf.drop ((lowDigits v.toInt.natAbs).length + 1)) = _ :=
    cstring_append fun c hc => ne_of_isDigit (isDigit_of_mem ((turned_perm _).mem_iff.mp hc)) rfl
  rw [EvenOrSame, and_iff_right hv, ← turned_eq_reverse_iff, ← decimal_of_nonneg hv]
  constructor
  · rintro ⟨out, hout, hdecimal, -⟩
    rw [itoa_of_nonneg hv hroom] at hout
    rwa [← Except.ok.inj hout, htext] at hdecimal
  · intro hturned
    refine ⟨_, itoa_of_nonneg hv hroom, htext.trans hturned, ?_⟩
    rw [hturned]
    exact atoi_decimal hv _

/-- The digits of a number of two digits come out in the right order. -/
theorem decimal_roundTrips_iff_twelve : RoundTrips 12 (.replicate 12 0) :=
  (decimal_roundTrips_iff 12 (.replicate 12 0) (by decide)).mpr (by
    refine ⟨by decide, .inl ?_⟩
    decide)

/-- The text of 123 is 231, and that of -1 has the sign behind the digit. -/
theorem itoa_scrambles :
    (cstring <$> itoa 123 (.replicate 12 0) = .ok [50, 51, 49] ∧
      decimal 123 = [49, 50, 51] ∧ ¬ RoundTrips 123 (.replicate 12 0)) ∧
    cstring <$> itoa (-1) (.replicate 12 0) = .ok [49, 45] ∧
      decimal (-1) = [45, 49] ∧ ¬ RoundTrips (-1) (.replicate 12 0) := by
  have hodd : itoa 123 (.replicate 12 0) = .ok ([50, 51, 49] ++ 0 :: .replicate 8 0) := by
    decide +kernel
  have hneg : itoa (-1) (.replicate 12 0) = .ok ([49, 45] ++ 0 :: .replicate 9 0) := by
    decide +kernel
  have hdecimal : decimal 123 = [49, 50, 51] ∧ decimal (-1) = [45, 49] := by decide
  refine ⟨⟨?_, hdecimal.1, ?_⟩, ?_, hdecimal.2, ?_⟩
  · rw [hodd]
    rfl
  · rintro ⟨out, hout, htext, -⟩
    rw [← Except.ok.inj (hodd.symm.trans hout), hdecimal.1] at htext
    exact absurd htext (by decide)
  · rw [hneg]
    rfl
  · rintro ⟨out, hout, htext, -⟩
    rw [← Except.ok.inj (hneg.symm.trans hout), hdecimal.2] at htext
    exact absurd htext (by decide)

end RoundTrip

end Meshx.Decimal
