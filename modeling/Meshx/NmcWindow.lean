import Meshx.Net
import Meshx.Lib.Run

/-! The network message cache over its whole life. The ring always holds the last entries that
were added, but the check looks at its first slot only. -/
namespace Meshx.Net

open Lib

/-- `meshx_nmc_init` with the memory it asks for. -/
def nmcInit (size : ℕ) : Nmc := ⟨some (List.replicate size ⟨0, 0⟩), 0, false⟩

def nmcClear (nmc : Nmc) : Nmc :=
  ⟨nmc.array.map fun array => List.replicate array.length ⟨0, 0⟩, 0, false⟩

inductive NmcEvent
  | add (entry : NmcEntry)
  | clear
  deriving DecidableEq, Repr

def nmcStep (nmc : Nmc) : NmcEvent → Except Fault Nmc
  | .add entry => nmcAdd nmc entry
  | .clear => .ok (nmcClear nmc)

/-- The entries added since the last clear, oldest first, after those there are already. -/
def nmcAdded : List NmcEntry → List NmcEvent → List NmcEntry
  | added, [] => added
  | added, .add entry :: es => nmcAdded (added ++ [entry]) es
  | _, .clear :: es => nmcAdded [] es

/-- The slots that `meshx_nmc_check` is to look at. -/
def Nmc.filled (nmc : Nmc) (array : List NmcEntry) : List NmcEntry :=
  array.take (if nmc.circle then array.length else nmc.index)

/-- The ring after these entries were added: each of the last ones stands in its slot. -/
structure Nmc.Holds (nmc : Nmc) (array added : List NmcEntry) : Prop where
  array_eq : nmc.array = some array
  pos : 0 < array.length
  index_le : nmc.index ≤ array.length
  index_mod : nmc.index % array.length = added.length % array.length
  index_eq : added.length ≤ array.length → nmc.index = added.length
  circle_eq : nmc.circle = decide (array.length < added.length)
  slots : ∀ j < added.length, added.length ≤ j + array.length →
    array[j % array.length]? = added[j]?

section Ring

variable {nmc : Nmc} {array added : List NmcEntry} {query : NmcEntry} {n i j k : ℕ}

theorem nmcInit_holds (hn : 0 < n) : (nmcInit n).Holds (List.replicate n ⟨0, 0⟩) [] := by
  refine ⟨rfl, by simpa using hn, Nat.zero_le _, by simp [nmcInit], fun _ => rfl, ?_, ?_⟩
  · simp [nmcInit]
  · intro j hj
    simp at hj

theorem Nmc.Holds.clear (h : nmc.Holds array added) :
    (nmcClear nmc).Holds (List.replicate array.length ⟨0, 0⟩) [] := by
  have hclear : nmcClear nmc = nmcInit array.length := by rw [nmcClear, h.array_eq]; rfl
  rw [hclear]
  exact nmcInit_holds h.pos

/-- The place of the next write. -/
theorem Nmc.Holds.place (h : nmc.Holds array added) :
    (if nmc.index = array.length then 0 else nmc.index) = added.length % array.length := by
  rw [← h.index_mod]
  by_cases hi : nmc.index = array.length
  · rw [if_pos hi, hi, Nat.mod_self]
  · rw [if_neg hi, Nat.mod_eq_of_lt (lt_of_le_of_ne h.index_le hi)]

/-- The last of k entries that went into slot i of a ring of size n. -/
theorem last_in_slot (hn : 0 < n) (hi : i < n) (hik : i < k) :
    i + (k - 1 - i) / n * n < k ∧ k ≤ i + (k - 1 - i) / n * n + n ∧
      (i + (k - 1 - i) / n * n) % n = i := by
  have hle := Nat.div_mul_le_self (k - 1 - i) n
  have hlt : k - 1 - i < (k - 1 - i) / n * n + n := Nat.lt_div_mul_add hn
  refine ⟨by omega, by omega, ?_⟩
  rw [Nat.add_mul_mod_self_right, Nat.mod_eq_of_lt hi]

theorem last_in_first_slot (hn : 0 < n) (hk : 0 < k) :
    (k - 1) / n * n < k ∧ k ≤ (k - 1) / n * n + n ∧ (k - 1) / n * n % n = 0 := by
  simpa using last_in_slot hn hn hk

theorem mod_ne_of_recent (hjk : j < k) (hk : k + 1 ≤ j + n) : j % n ≠ k % n := by
  intro hmod
  have hdvd : n ∣ k - j := (Nat.modEq_iff_dvd' hjk.le).mp hmod
  have hle := Nat.le_of_dvd (by omega) hdvd
  omega

theorem Nmc.Holds.add (h : nmc.Holds array added) (entry : NmcEntry) :
    ∃ nmc', nmcAdd nmc entry = .ok nmc' ∧
      nmc'.Holds (array.set (added.length % array.length) entry) (added ++ [entry]) := by
  have hlt : added.length % array.length < array.length := Nat.mod_lt _ h.pos
  refine ⟨⟨some (array.set (added.length % array.length) entry), added.length % array.length + 1,
    decide (array.length < added.length + 1)⟩, ?_, ?_⟩
  · have hplace := h.place
    have hcircle := h.circle_eq
    by_cases hi : nmc.index = array.length
    · rw [if_pos hi] at hplace
      have hfull : array.length < added.length + 1 := by
        by_contra hshort
        have := h.index_eq (by omega)
        omega
      simp [nmcAdd, h.array_eq, hi, h.pos, ← hplace, hfull]
    · rw [if_neg hi] at hplace
      have hne : added.length ≠ array.length := fun he => hi ((h.index_eq he.le).trans he)
      have hsame : decide (array.length < added.length) =
          decide (array.length < added.length + 1) := by
        rw [decide_eq_decide]
        omega
      simp only [nmcAdd, h.array_eq, if_neg hi]
      rw [hplace, if_pos hlt, hcircle, hsame]
  · refine ⟨rfl, by simpa using h.pos, by simpa using hlt, ?_, ?_, by simp, ?_⟩
    · simp [Nat.add_mod]
    · intro hle
      simp only [List.length_append, List.length_singleton, List.length_set] at hle ⊢
      rw [Nat.mod_eq_of_lt (by omega)]
    · intro j hj hrecent
      simp only [List.length_append, List.length_singleton, List.length_set] at hj hrecent ⊢
      by_cases hlast : j = added.length
      · subst hlast
        rw [List.getElem?_set_self hlt, List.getElem?_concat_length]
      · have hjk : j < added.length := by omega
        rw [List.getElem?_set_ne (mod_ne_of_recent hjk hrecent).symm,
          List.getElem?_append_left hjk]
        exact h.slots j hjk (by omega)

theorem Nmc.Holds.filled_eq (h : nmc.Holds array added) :
    nmc.filled array = array.take (min added.length array.length) := by
  rw [Nmc.filled, h.circle_eq]
  by_cases hfull : array.length < added.length
  · rw [if_pos (by simpa using hfull), min_eq_right hfull.le]
  · rw [if_neg (by simpa using hfull), h.index_eq (by omega), min_eq_left (by omega)]

theorem mem_rtake_iff : query ∈ added.rtake n ↔
    ∃ j < added.length, added.length ≤ j + n ∧ added[j]? = some query := by
  rw [List.rtake, List.mem_iff_getElem?]
  constructor
  · rintro ⟨i, hi⟩
    rw [List.getElem?_drop] at hi
    obtain ⟨hlt, -⟩ := List.getElem?_eq_some_iff.mp hi
    exact ⟨_, hlt, by omega, hi⟩
  · rintro ⟨j, hlt, hrecent, hj⟩
    refine ⟨j - (added.length - n), ?_⟩
    rwa [List.getElem?_drop, Nat.add_sub_cancel' (by omega)]

/-- An entry of the ring is one of the last that were added, and the other way round. -/
theorem Nmc.Holds.mem_filled_iff (h : nmc.Holds array added) :
    query ∈ nmc.filled array ↔ query ∈ added.rtake array.length := by
  rw [h.filled_eq, mem_rtake_iff, List.mem_iff_getElem?]
  constructor
  · rintro ⟨i, hi⟩
    obtain ⟨hlt, -⟩ := List.getElem?_eq_some_iff.mp hi
    rw [List.length_take] at hlt
    rw [List.getElem?_take_of_lt (by omega)] at hi
    obtain ⟨hj, hrecent, hmod⟩ :=
      last_in_slot (i := i) (k := added.length) h.pos (by omega) (by omega)
    refine ⟨_, hj, hrecent, ?_⟩
    rw [← h.slots _ hj hrecent, hmod, hi]
  · rintro ⟨j, hj, hrecent, hquery⟩
    refine ⟨j % array.length, ?_⟩
    have hplace : j % array.length < min added.length array.length :=
      lt_min ((Nat.mod_le _ _).trans_lt hj) (Nat.mod_lt _ h.pos)
    rw [List.getElem?_take_of_lt hplace, h.slots j hj hrecent, hquery]

theorem nmcCheck_eq (h : nmc.array = some array) :
    nmcCheck nmc query = true ↔ (nmc.filled array)[0]? ≠ some query := by
  have hfilled : array.take (if nmc.circle then array.length else nmc.index) =
      nmc.filled array := rfl
  simp only [nmcCheck, h, hfilled]
  cases nmc.filled array <;> simp

/-- The check knows the entry in the first slot only. -/
theorem Nmc.Holds.nmcCheck_iff (h : nmc.Holds array added) : nmcCheck nmc query = false ↔
    added[(added.length - 1) / array.length * array.length]? = some query := by
  rw [← Bool.not_eq_true, nmcCheck_eq h.array_eq, not_not, h.filled_eq]
  by_cases hk : added.length = 0
  · simp [List.length_eq_zero_iff.mp hk]
  · obtain ⟨hj, hrecent, hmod⟩ := last_in_first_slot h.pos (Nat.pos_of_ne_zero hk)
    have hslot := h.slots _ hj hrecent
    rw [hmod] at hslot
    rw [List.getElem?_take_of_lt (lt_min (Nat.pos_of_ne_zero hk) h.pos), hslot]

theorem nmc_run (h : nmc.Holds array added) (es : List NmcEvent) : ∃ nmc' array',
    run nmcStep nmc es = .ok nmc' ∧ array'.length = array.length ∧
      nmc'.Holds array' (nmcAdded added es) := by
  induction es generalizing nmc array added with
  | nil => exact ⟨nmc, array, rfl, rfl, h⟩
  | cons e es ih =>
    cases e with
    | add entry =>
      obtain ⟨nmc', hadd, h'⟩ := h.add entry
      obtain ⟨nmc'', array'', hrun, hlen, h''⟩ := ih h'
      rw [List.length_set] at hlen
      exact ⟨nmc'', array'', by simpa [run, nmcStep, hadd, Except.bind] using hrun, hlen, h''⟩
    | clear =>
      obtain ⟨nmc'', array'', hrun, hlen, h''⟩ := ih h.clear
      rw [List.length_replicate] at hlen
      exact ⟨nmc'', array'', by simpa [run, nmcStep, Except.bind] using hrun, hlen, h''⟩

end Ring

/-- Of the last n entries that were added, the check reports the one in the first slot as seen
already, and no other. -/
theorem nmc_window (n : ℕ) (hn : 1 ≤ n) (es : List NmcEvent) : ∃ nmc,
    run nmcStep (nmcInit n) es = .ok nmc ∧ ∀ query,
      ((nmcCheck nmc query = false ↔ query ∈ (nmcAdded [] es).rtake n) ↔
        (query ∈ (nmcAdded [] es).rtake n →
          (nmcAdded [] es)[((nmcAdded [] es).length - 1) / n * n]? = some query)) := by
  obtain ⟨nmc, array, hrun, hlen, h⟩ := nmc_run (nmcInit_holds hn) es
  rw [List.length_replicate] at hlen
  subst hlen
  refine ⟨nmc, hrun, fun query => ?_⟩
  rw [h.nmcCheck_iff]
  refine ⟨fun hseen => hseen.mpr, fun hfirst => ⟨fun hslot => ?_, hfirst⟩⟩
  obtain ⟨hlt, -⟩ := List.getElem?_eq_some_iff.mp hslot
  obtain ⟨hj, hrecent, -⟩ := last_in_first_slot hn (Nat.zero_lt_of_lt hlt)
  exact mem_rtake_iff.mpr ⟨_, hj, hrecent, hslot⟩

theorem nmc_window_example : ∃ nmc,
    run nmcStep (nmcInit 4) [.add ⟨1, 5⟩, .clear, .add ⟨1, 7⟩, .add ⟨2, 9⟩] = .ok nmc ∧
      ∀ query, ((nmcCheck nmc query = false ↔ query ∈ ([⟨1, 7⟩, ⟨2, 9⟩] : List NmcEntry).rtake 4) ↔
        (query ∈ ([⟨1, 7⟩, ⟨2, 9⟩] : List NmcEntry).rtake 4 → some ⟨1, 7⟩ = some query)) :=
  nmc_window 4 (by decide) [.add ⟨1, 5⟩, .clear, .add ⟨1, 7⟩, .add ⟨2, 9⟩]

/-- A copy of the second message is not known. -/
theorem nmc_window_missed : ∃ nmc,
    run nmcStep (nmcInit 4) [.add ⟨1, 7⟩, .add ⟨2, 9⟩] = .ok nmc ∧
      ⟨2, 9⟩ ∈ (nmcAdded [] [.add ⟨1, 7⟩, .add ⟨2, 9⟩]).rtake 4 ∧ nmcCheck nmc ⟨2, 9⟩ = true :=
  ⟨⟨some [⟨1, 7⟩, ⟨2, 9⟩, ⟨0, 0⟩, ⟨0, 0⟩], 2, false⟩, by decide +kernel, by decide, by decide⟩

end Meshx.Net
