import Meshx.Rpl
import Meshx.Lib.Run

/-! The replay protection list as a map from sources to entries: which updates keep it one. -/
namespace Meshx.Replay

open Lib

/-- The sources that have an entry. -/
def Rpl.sources (r : Rpl) : List (BitVec 16) := r.entries.map (·.src)

/-- The step of a run of updates. -/
def rplStep (r : Rpl) (rpl : RplEntry) : Except Fault Rpl := (·.2) <$> rplUpdate r rpl

/-- What an update is to do to a map of bounded size. -/
structure MapUpdated (r : Rpl) (rpl : RplEntry) (ret : Errno) (r' : Rpl) : Prop where
  distinct : r'.sources.Nodup
  known : rpl.src ∈ r.sources → ret = .success ∧
    r'.entries = r.entries.map fun e => if e.src = rpl.src then rpl else e
  added : rpl.src ∉ r.sources → r.sources.length < r.array.length → ret = .success ∧
    r'.entries = r.entries ++ [rpl]
  full : rpl.src ∉ r.sources → r.array.length ≤ r.sources.length → ret ≠ .success ∧ r' = r

/-- The update comes to an end inside the array, as that of a map. -/
def KeepsMap (r : Rpl) (rpl : RplEntry) : Prop :=
  ∃ ret r', rplUpdate r rpl = .ok (ret, r') ∧ MapUpdated r rpl ret r'

/-- The list is empty; or it has room and the source is new and not zero, with 255 entries
at most before it; or it has room and the entry of source zero is there already. -/
def Appends (r : Rpl) (rpl : RplEntry) : Prop :=
  r.sources = [] ∨ r.sources.length < r.array.length ∧
    (rpl.src ≠ 0 ∧ rpl.src ∉ r.sources ∧ r.sources.length ≤ 255 ∨ rpl.src = 0 ∧ rpl ∈ r.entries)

instance (r : Rpl) (rpl : RplEntry) : Decidable (Appends r rpl) :=
  inferInstanceAs (Decidable (_ ∨ _ ∧ _))

/-- The entries behind the last one have the source that `memset` leaves. -/
def Spare (r : Rpl) : Prop := ∀ e ∈ r.array.drop r.index, e.src = 0

structure Mapped (r : Rpl) : Prop where
  distinct : r.sources.Nodup
  rest : Spare r

variable {r r' : Rpl} {rpl : RplEntry}

theorem sources_length (r : Rpl) : r.sources.length = r.index := by
  simp [Rpl.sources, Rpl.entries, r.index_le]

theorem mem_sources {e : RplEntry} (h : e ∈ r.entries) : e.src ∈ r.sources :=
  List.mem_map_of_mem h

theorem rplInit_spare (size : ℕ) : Spare (rplInit size) := by
  intro e he
  rw [rplInit_cleared size e he]
  rfl

theorem rplInit_mapped (size : ℕ) : Mapped (rplInit size) where
  distinct := by simp [Rpl.sources]
  rest := rplInit_spare size

theorem rplAdd_spare (h : Spare r) : Spare (rplAdd r rpl).2 := by
  unfold rplAdd
  split_ifs with hi
  · exact h
  · intro e he
    simp only [List.drop_set_of_lt (Nat.lt_succ_self r.index)] at he
    rw [Nat.succ_eq_add_one, ← List.drop_drop] at he
    exact h e (List.mem_of_mem_drop he)

/-- A new source behind the entries there are. -/
theorem rplAdd_updated (h : Mapped r) (hnew : rpl.src ∉ r.sources) :
    MapUpdated r rpl (rplAdd r rpl).1 (rplAdd r rpl).2 ∧ Mapped (rplAdd r rpl).2 := by
  have hlen := sources_length r
  by_cases hi : r.index = r.array.length
  · have hadd : rplAdd r rpl = (.resource, r) := by rw [rplAdd, dif_pos hi]
    rw [hadd]
    exact ⟨⟨h.distinct, fun hk => absurd hk hnew, fun _ hroom => by omega,
      fun _ _ => ⟨by simp, rfl⟩⟩, h⟩
  · have hret : (rplAdd r rpl).1 = .success := by rw [rplAdd, dif_neg hi]
    have hentries := rplAdd_entries hret
    have hle := r.index_le
    have hdistinct : (rplAdd r rpl).2.sources.Nodup := by
      rw [Rpl.sources, hentries, List.map_append]
      exact List.nodup_append'.mpr ⟨h.distinct, List.nodup_singleton _,
        List.disjoint_singleton.mpr hnew⟩
    exact ⟨⟨hdistinct, fun hk => absurd hk hnew, fun _ _ => ⟨hret, hentries⟩,
      fun _ hfull => by omega⟩, hdistinct, rplAdd_spare h.rest⟩

/-- In a list with entries and room the source that is looked at is zero. -/
theorem Spare.looked (h : Spare r) (hroom : r.index < r.array.length) :
    ∃ e, r.array[r.index]? = some e ∧ e.src = 0 := by
  have hget : r.array[r.index]? = some r.array[r.index] := List.getElem?_eq_getElem hroom
  refine ⟨_, hget, h _ (List.mem_iff_getElem?.mpr ⟨0, ?_⟩)⟩
  rw [List.getElem?_drop, Nat.add_zero, hget]

theorem rplUpdate_of_ne (h : Spare r) (hpos : r.index ≠ 0) (hroom : r.index < r.array.length)
    (hsrc : rpl.src ≠ 0) :
    rplUpdate r rpl = if 255 < r.index then .error .hang else .ok (rplAdd r rpl) := by
  obtain ⟨e, hget, hzero⟩ := h.looked hroom
  rw [rplUpdate, if_neg hpos, hget]
  dsimp only
  rw [if_neg fun he => hsrc (he.symm.trans hzero)]

/-- An update with source zero in a list with entries and room writes behind the entries. -/
theorem rplUpdate_zero (h : Spare r) (hpos : r.index ≠ 0) (hroom : r.index < r.array.length)
    (hsrc : rpl.src = 0) : ∃ r', rplUpdate r rpl = .ok (.success, r') ∧
      r'.entries = r.entries ∧ Spare r' := by
  obtain ⟨e, hget, hzero⟩ := h.looked hroom
  have hentries (x : RplEntry) : (r.array.set r.index x).take r.index = r.entries := by
    rw [List.take_set_of_le le_rfl]
    rfl
  rw [rplUpdate, if_neg hpos, hget]
  dsimp only
  rw [if_pos (hzero.trans hsrc.symm)]
  refine ⟨_, rfl, hentries _, fun x hx => ?_⟩
  obtain ⟨i, hi⟩ := List.mem_iff_getElem?.mp hx
  rw [List.getElem?_drop] at hi
  dsimp only at hi
  by_cases h0 : i = 0
  · rw [h0, Nat.add_zero, List.getElem?_set_self hroom] at hi
    rw [← Option.some.inj hi]
    exact hzero
  · rw [List.getElem?_set_ne (by omega), ← List.getElem?_drop] at hi
    exact h x (List.mem_iff_getElem?.mpr ⟨i, hi⟩)

/-- Replacing the entry of a source leaves the list as it is exactly if it is the entry. -/
theorem replaced_eq_iff (h : r.sources.Nodup) (hknown : rpl.src ∈ r.sources) :
    r.entries = (r.entries.map fun e => if e.src = rpl.src then rpl else e) ↔
      rpl ∈ r.entries := by
  constructor
  · intro heq
    obtain ⟨e, he, hsrc⟩ := List.mem_map.mp hknown
    rw [heq]
    exact List.mem_map.mpr ⟨e, he, if_pos hsrc⟩
  · intro hmem
    refine (List.map_id _).symm.trans (List.map_congr_left fun e he => ?_)
    by_cases hsrc : e.src = rpl.src
    · rw [if_pos hsrc]
      exact List.inj_on_of_nodup_map h he hmem hsrc
    · rw [if_neg hsrc]
      rfl

theorem appends_updated (h : Mapped r) (ha : Appends r rpl) :
    ∃ ret r', rplUpdate r rpl = .ok (ret, r') ∧ MapUpdated r rpl ret r' ∧ Mapped r' := by
  have hlen := sources_length r
  have hadd (hnew : rpl.src ∉ r.sources) (hu : rplUpdate r rpl = .ok (rplAdd r rpl)) :
      ∃ ret r', rplUpdate r rpl = .ok (ret, r') ∧ MapUpdated r rpl ret r' ∧ Mapped r' :=
    ⟨_, _, hu, rplAdd_updated h hnew⟩
  by_cases hpos : r.index = 0
  · refine hadd ?_ (by rw [rplUpdate, if_pos hpos])
    rw [List.eq_nil_of_length_eq_zero (hlen.trans hpos)]
    exact List.not_mem_nil
  obtain ⟨hroom, hcase⟩ := ha.resolve_left fun hnil => hpos (by rw [← hlen, hnil, List.length_nil])
  rw [hlen] at hroom hcase
  rcases hcase with ⟨hsrc, hnew, hfew⟩ | ⟨hsrc, hmem⟩
  · refine hadd hnew ?_
    rw [rplUpdate_of_ne h.rest hpos hroom hsrc, if_neg (not_lt.mpr hfew)]
  · obtain ⟨r', hu, hentries, hspare⟩ := rplUpdate_zero h.rest hpos hroom hsrc
    have hknown := mem_sources hmem
    have hmapped : Mapped r' := ⟨by rw [Rpl.sources, hentries]; exact h.distinct, hspare⟩
    refine ⟨_, r', hu, ⟨hmapped.distinct, fun _ => ⟨rfl, ?_⟩, fun hnew => absurd hknown hnew,
      fun hnew => absurd hknown hnew⟩, hmapped⟩
    rw [hentries]
    exact (replaced_eq_iff h.distinct hknown).mpr hmem

theorem appends_of_keepsMap (h : Mapped r) (hk : KeepsMap r rpl) : Appends r rpl := by
  obtain ⟨ret, t, hu, hmap⟩ := hk
  have hlen := sources_length r
  by_cases hpos : r.index = 0
  · exact .inl (List.eq_nil_of_length_eq_zero (hlen.trans hpos))
  by_cases hroom : r.index < r.array.length
  · refine .inr ⟨hlen ▸ hroom, ?_⟩
    by_cases hsrc : rpl.src = 0
    · obtain ⟨r', hu', hentries, -⟩ := rplUpdate_zero h.rest hpos hroom hsrc
      obtain ⟨rfl, rfl⟩ := Prod.mk.inj (Except.ok.inj (hu.symm.trans hu'))
      refine .inr ⟨hsrc, ?_⟩
      by_cases hknown : rpl.src ∈ r.sources
      · refine (replaced_eq_iff h.distinct hknown).mp ?_
        exact hentries.symm.trans (hmap.known hknown).2
      · have hadded := (hmap.added hknown (hlen ▸ hroom)).2
        simp [hentries] at hadded
    · rw [rplUpdate_of_ne h.rest hpos hroom hsrc] at hu
      by_cases hmany : 255 < r.index
      · rw [if_pos hmany] at hu
        cases hu
      · rw [if_neg hmany] at hu
        refine .inl ⟨hsrc, fun hknown => ?_, hlen ▸ not_lt.mp hmany⟩
        -- the entry is put behind the one of its source
        obtain rfl : (rplAdd r rpl).2 = t := congrArg Prod.snd (Except.ok.inj hu)
        have hadd := @rplAdd_entries r rpl (by simp [rplAdd, hroom.ne])
        have hlonger := congrArg List.length (hadd.symm.trans (hmap.known hknown).2)
        simp at hlonger
  · rw [rplUpdate, if_neg hpos, List.getElem?_eq_none (not_lt.mp hroom)] at hu
    cases hu

theorem keepsMap_iff (h : Mapped r) : KeepsMap r rpl ↔ Appends r rpl := by
  refine ⟨appends_of_keepsMap h, fun ha => ?_⟩
  obtain ⟨ret, r', hu, hmap, -⟩ := appends_updated h ha
  exact ⟨ret, r', hu, hmap⟩

theorem Mapped.step (h : Mapped r) (ha : Appends r rpl) (hs : rplStep r rpl = .ok r') :
    Mapped r' := by
  obtain ⟨ret, t, hu, -, hmapped⟩ := appends_updated h ha
  rw [rplStep, hu] at hs
  obtain rfl := Except.ok.inj hs
  exact hmapped

/-- The list stays a map, for every size of it, in exactly the runs of updates since it was
cleared that find it empty or with room, and bring a new source each time. -/
theorem rplMap_iff (r : Rpl) (es : List RplEntry) :
    RunAll rplStep KeepsMap (rplClear r) es ↔ RunAll rplStep Appends (rplClear r) es :=
  RunAll.iff_of_invariant (fun _ _ _ h ha hs => Mapped.step h ha hs) (fun _ _ h => keepsMap_iff h)
    (rplInit_mapped r.array.length)

/-- The second update of a source adds a second entry for it. -/
theorem rplMap_fails : ¬ RunAll rplStep KeepsMap (rplClear (rplInit 4)) [⟨1, 1, 0⟩, ⟨1, 2, 0⟩] := by
  intro h
  obtain ⟨ret, r', hu, hmap⟩ := (h.2 _ rfl).1
  obtain ⟨rfl, rfl⟩ := Prod.mk.inj (Except.ok.inj hu)
  exact absurd (hmap.known (by decide)).2 (by decide)

end Meshx.Replay
