import Mathlib

/-! Texts of numbers in a base, their lowest digit first, and their fit into a field of a given
width: a text that is too long loses its high digits, a short one is filled up. -/
namespace Meshx.Lib

variable {α : Type*}

/-- The characters of a number. Zero has one. -/
def lowChars (base : ℕ) (char : ℕ → α) (n : ℕ) : List α :=
  if n = 0 then [char 0] else (Nat.digits base n).map char

/-- A text in a field of a width, which is filled up to `max` characters at most. Width zero
stands for no field. -/
def fitted (width max : ℕ) (fill : α) (text : List α) : List α :=
  if width = 0 then text
  else if width < text.length then text.take width
  else text ++ List.replicate (min width max - text.length) fill

section Radix

variable {base width max n : ℕ} {char : ℕ → α} {fill : α} {text : List α} {value : α → ℕ}

theorem lowChars_of_lt (h : n < base) : lowChars base char n = [char n] := by
  rw [lowChars]
  split_ifs with h0
  · rw [h0]
  · rw [Nat.digits_of_lt base n h0 h]
    rfl

theorem lowChars_of_ge (hbase : 1 < base) (h : base ≤ n) :
    lowChars base char n = char (n % base) :: lowChars base char (n / base) := by
  have hdiv : n / base ≠ 0 := (Nat.div_pos h (by omega)).ne'
  rw [lowChars, if_neg (by omega), lowChars, if_neg hdiv, Nat.digits_def' hbase (by omega)]
  rfl

theorem mem_lowChars {c : α} (hbase : 1 < base) (h : c ∈ lowChars base char n) :
    ∃ d < base, char d = c := by
  rw [lowChars] at h
  split_ifs at h with h0
  · exact ⟨0, by omega, (List.mem_singleton.mp h).symm⟩
  · obtain ⟨d, hd, hc⟩ := List.mem_map.mp h
    exact ⟨d, Nat.digits_lt_base hbase hd, hc⟩

theorem length_lowChars_le (hbase : 1 < base) (h : n < base ^ width) (hwidth : 0 < width) :
    (lowChars base char n).length ≤ width := by
  rw [lowChars]
  split_ifs with h0
  · exact hwidth
  · rw [List.length_map]
    exact (Nat.digits_length_le_iff hbase n).mpr h

theorem lt_pow_length_lowChars (hbase : 1 < base) :
    n < base ^ (lowChars base char n).length := by
  rw [lowChars]
  split_ifs with h0
  · rw [h0]
    exact Nat.pow_pos (by omega)
  · rw [List.length_map]
    exact Nat.lt_base_pow_length_digits hbase

theorem map_lowChars (hbase : 1 < base) (hvalue : ∀ d < base, value (char d) = d) :
    (lowChars base char n).map value = if n = 0 then [0] else Nat.digits base n := by
  rw [lowChars]
  split_ifs with h0
  · rw [List.map_singleton, hvalue 0 (by omega)]
  · rw [List.map_map]
    have hdigit : ∀ d ∈ Nat.digits base n, (value ∘ char) d = id d :=
      fun d hd => hvalue d (Nat.digits_lt_base hbase hd)
    rw [List.map_congr_left hdigit, List.map_id]

theorem ofDigits_lowChars (hbase : 1 < base) (hvalue : ∀ d < base, value (char d) = d) :
    Nat.ofDigits base ((lowChars base char n).map value) = n := by
  rw [map_lowChars hbase hvalue]
  split_ifs with h0
  · rw [Nat.ofDigits_singleton, h0]
  · exact Nat.ofDigits_digits base n

theorem length_fitted (hwidth : width ≠ 0) (hmax : text.length ≤ max) :
    (fitted width max fill text).length = min width max := by
  rw [fitted, if_neg hwidth]
  split_ifs with hlong
  · rw [List.length_take]
    omega
  · rw [List.length_append, List.length_replicate]
    omega

/-- What a field holds is read back as the number modulo the values that fit into it. -/
theorem ofDigits_fitted (hbase : 1 < base) (hvalue : ∀ d < base, value (char d) = d)
    (hfill : value fill = 0) :
    Nat.ofDigits base ((fitted width max fill (lowChars base char n)).map value) =
      if width = 0 then n else n % base ^ width := by
  have hall := @ofDigits_lowChars α base n char value hbase hvalue
  rw [fitted]
  split_ifs with hwidth hlong
  · exact hall
  · have hzero : n ≠ 0 := by
      rintro rfl
      rw [lowChars, if_pos rfl, List.length_singleton] at hlong
      omega
    rw [List.map_take, map_lowChars hbase hvalue, if_neg hzero,
      Nat.self_mod_pow_eq_ofDigits_take width n hbase]
  · have hlt : n < base ^ width :=
      (lt_pow_length_lowChars hbase).trans_le (Nat.pow_le_pow_right (by omega) (not_lt.mp hlong))
    rw [List.map_append, List.map_replicate, hfill, Nat.ofDigits_append, hall,
      Nat.ofDigits_replicate_zero, Nat.mul_zero, Nat.add_zero, Nat.mod_eq_of_lt hlt]

end Radix

end Meshx.Lib
