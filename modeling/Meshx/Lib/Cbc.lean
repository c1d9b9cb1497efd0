import Meshx.Lib.Bytes

/-! Cipher block chaining over a block function, and texts cut into blocks. -/
namespace Meshx.Lib

/-- The text in pieces of `n`, the last one perhaps shorter. -/
def cut {α : Type*} (n : ℕ) (xs : List α) : List (List α) :=
  (List.range ((xs.length + (n - 1)) / n)).map fun i => (xs.drop (n * i)).take n

/-- Each block is added to the value before it is put through the block function. -/
def cbc (f : List Byte → List Byte) (y : List Byte) (blocks : List (List Byte)) : List Byte :=
  blocks.foldl (fun y b => f (xorBytes y b)) y

section Cut

variable {α : Type*} {n : ℕ} {xs ys : List α}

@[simp] theorem cut_nil : cut n ([] : List α) = [] := by
  rcases Nat.eq_zero_or_pos n with rfl | hn
  · simp [cut]
  · rw [cut, List.length_nil, Nat.div_eq_of_lt (by omega)]
    rfl

theorem cut_cons (hn : 0 < n) (hxs : xs ≠ []) : cut n xs = xs.take n :: cut n (xs.drop n) := by
  have hpos : 0 < xs.length := List.length_pos_iff.mpr hxs
  have hcount : (xs.length + (n - 1)) / n = ((xs.drop n).length + (n - 1)) / n + 1 := by
    rw [List.length_drop]
    by_cases hle : n ≤ xs.length
    · rw [← Nat.add_div_right _ hn]
      congr 1
      omega
    · rw [show xs.length - n = 0 by omega, Nat.zero_add, Nat.div_eq_of_lt (by omega : n - 1 < n)]
      rw [Nat.div_eq_iff hn]
      omega
  rw [cut, hcount, List.range_succ_eq_map, List.map_cons, List.map_map]
  congr 1
  refine List.map_congr_left fun i _ => ?_
  rw [Function.comp_apply, List.drop_drop, Nat.mul_succ, Nat.add_comm n]

theorem cut_singleton (hxs : xs ≠ []) (hle : xs.length ≤ n) : cut n xs = [xs] := by
  have hpos : 0 < xs.length := List.length_pos_iff.mpr hxs
  rw [cut_cons (by omega) hxs, List.take_of_length_le hle, List.drop_of_length_le hle, cut_nil]

/-- A cut at a multiple of the size. -/
theorem cut_append (hn : 0 < n) (hdvd : n ∣ xs.length) :
    cut n (xs ++ ys) = cut n xs ++ cut n ys := by
  obtain ⟨k, hk⟩ := hdvd
  induction k generalizing xs with
  | zero =>
    obtain rfl := List.length_eq_zero_iff.mp hk
    simp
  | succ k ih =>
    rw [Nat.mul_succ] at hk
    have hxs : xs ≠ [] := List.length_pos_iff.mp (by omega)
    rw [cut_cons hn (List.append_ne_nil_of_left_ne_nil hxs ys), cut_cons hn hxs,
      List.take_append_of_le_length (by omega), List.drop_append_of_le_length (by omega),
      ih (by rw [List.length_drop]; omega), List.cons_append]

theorem flatten_cut (hn : 0 < n) (xs : List α) : (cut n xs).flatten = xs := by
  induction hlen : xs.length using Nat.strong_induction_on generalizing xs with
  | _ k ih =>
    subst hlen
    by_cases hxs : xs = []
    · simp [hxs]
    · have hpos : 0 < xs.length := List.length_pos_iff.mpr hxs
      rw [cut_cons hn hxs, List.flatten_cons, ih _ (by rw [List.length_drop]; omega) _ rfl,
        List.take_append_drop]

theorem length_of_mem_cut (hn : 0 < n) (hdvd : n ∣ xs.length) : ∀ b ∈ cut n xs, b.length = n := by
  obtain ⟨k, hk⟩ := hdvd
  induction k generalizing xs with
  | zero =>
    obtain rfl := List.length_eq_zero_iff.mp hk
    simp
  | succ k ih =>
    rw [Nat.mul_succ] at hk
    intro b hb
    rw [cut_cons hn (List.length_pos_iff.mp (by omega))] at hb
    rcases List.mem_cons.mp hb with rfl | hb
    · rw [List.length_take]
      omega
    · exact ih (by rw [List.length_drop]; omega) b hb

end Cut

section Cbc

variable {f : List Byte → List Byte} {n : ℕ} {y z b c : List Byte} {bs cs : List (List Byte)}

@[simp] theorem cbc_nil : cbc f y [] = y := rfl

@[simp] theorem cbc_cons : cbc f y (b :: bs) = cbc f (f (xorBytes y b)) bs := rfl

theorem cbc_append : cbc f y (bs ++ cs) = cbc f (cbc f y bs) cs := List.foldl_append

theorem xorBytes_comm (xs ys : List Byte) : xorBytes xs ys = xorBytes ys xs := by
  rw [xorBytes, xorBytes, List.zipWith_comm]
  simp only [BitVec.xor_comm]

theorem xorBytes_inj {k : List Byte} (hb : b.length ≤ k.length) (hc : c.length ≤ k.length) :
    xorBytes b k = xorBytes c k ↔ b = c := by
  refine ⟨fun h => ?_, fun h => h ▸ rfl⟩
  rw [← xorBytes_cancel hb, h, xorBytes_cancel hc]

theorem cbc_length (hlen : ∀ b, b.length = n → (f b).length = n) (hy : y.length = n)
    (hbs : ∀ b ∈ bs, b.length = n) : (cbc f y bs).length = n := by
  induction bs generalizing y with
  | nil => exact hy
  | cons b bs ih =>
    have hb := hbs b List.mem_cons_self
    refine ih (hlen _ ?_) fun c hc => hbs c (List.mem_cons_of_mem b hc)
    rw [xorBytes_length, hy, hb, Nat.min_self]

/-- A chain over one sequence of blocks does not bring two values together. -/
theorem cbc_inj (hf : Set.InjOn f {b | b.length = n}) (hlen : ∀ b, b.length = n → (f b).length = n)
    (hy : y.length = n) (hz : z.length = n) (hbs : ∀ b ∈ bs, b.length = n) :
    cbc f y bs = cbc f z bs ↔ y = z := by
  induction bs generalizing y z with
  | nil => rfl
  | cons b bs ih =>
    have hb := hbs b List.mem_cons_self
    have hyb : (xorBytes y b).length = n := by rw [xorBytes_length, hy, hb, Nat.min_self]
    have hzb : (xorBytes z b).length = n := by rw [xorBytes_length, hz, hb, Nat.min_self]
    have hrest (c : List Byte) (hc : c ∈ bs) : c.length = n := hbs c (List.mem_cons_of_mem b hc)
    rw [cbc_cons, cbc_cons, ih (hlen _ hyb) (hlen _ hzb) hrest, hf.eq_iff hyb hzb,
      xorBytes_inj (by omega) (by omega)]

/-- Sequences that differ in one block come to different values. -/
theorem cbc_block_inj (hf : Set.InjOn f {b | b.length = n})
    (hlen : ∀ b, b.length = n → (f b).length = n) (hy : y.length = n) (hb : b.length = n)
    (hc : c.length = n) (hbs : ∀ b ∈ bs, b.length = n) (hcs : ∀ b ∈ cs, b.length = n) :
    cbc f y (bs ++ b :: cs) = cbc f y (bs ++ c :: cs) ↔ b = c := by
  have hmid := cbc_length hlen hy hbs
  have hyb : (xorBytes b (cbc f y bs)).length = n := by rw [xorBytes_length, hmid, hb, Nat.min_self]
  have hyc : (xorBytes c (cbc f y bs)).length = n := by rw [xorBytes_length, hmid, hc, Nat.min_self]
  rw [cbc_append, cbc_append, cbc_cons, cbc_cons, xorBytes_comm _ b, xorBytes_comm _ c,
    cbc_inj hf hlen (hlen _ hyb) (hlen _ hyc) hcs, hf.eq_iff hyb hyc,
    xorBytes_inj (by omega) (by omega)]

end Cbc

end Meshx.Lib
