import Meshx.RplMap

/-! The replay check against the history of the list: what it is to say goes by the pair that
was recorded last for the source, what it says by the first one. -/
namespace Meshx.Replay

open Lib

/-- The list, with everything that was recorded in it since it was cleared, oldest first. -/
structure RplLog where
  rpl : Rpl
  log : List RplEntry

inductive RplEvent
  | update (rpl : RplEntry)
  | clear
  deriving DecidableEq, Repr

def rplLogStep (s : RplLog) : RplEvent → Except Fault RplLog
  | .update rpl => do
    let (ret, r) ← rplUpdate s.rpl rpl
    return ⟨r, if ret = .success then s.log ++ [rpl] else s.log⟩
  | .clear => .ok ⟨rplClear s.rpl, []⟩

/-- The pair of the entry is above that of another one: first the IV index counts, then the
sequence number. -/
def Above (rpl e : RplEntry) : Prop := toLex (e.ivIndex, e.seq) < toLex (rpl.ivIndex, rpl.seq)

/-- What was recorded last for the source. -/
def lastOf (log : List RplEntry) (src : BitVec 16) : Option RplEntry :=
  log.reverse.find? (·.src = src)

/-- What the list keeps of all that was recorded: everything, but source zero in the first
place only. -/
def kept : List RplEntry → List RplEntry
  | [] => []
  | first :: rest => first :: rest.filter (·.src ≠ 0)

/-- The first entry that was kept for the source. -/
def firstOf (log : List RplEntry) (src : BitVec 16) : Option RplEntry :=
  (kept log).find? (·.src = src)

/-- Nothing was recorded for the source, or something less. -/
def Fresh (log : List RplEntry) (rpl : RplEntry) : Prop :=
  ∀ e ∈ lastOf log rpl.src, Above rpl e

/-- Nothing was kept for the source, or the first that was kept has a smaller sequence number
and no greater IV index. -/
def Ahead (log : List RplEntry) (rpl : RplEntry) : Prop :=
  ∀ e ∈ firstOf log rpl.src, e.seq < rpl.seq ∧ e.ivIndex ≤ rpl.ivIndex

/-- The sequence numbers have started again since the entry: the IV index is greater, but the
sequence number is not. -/
def Restarted (rpl e : RplEntry) : Prop := e.ivIndex < rpl.ivIndex ∧ rpl.seq ≤ e.seq

/-- The pair is above one of two entries and not above the other. -/
def Between (rpl e e' : RplEntry) : Prop :=
  Above rpl e ∧ ¬Above rpl e' ∨ Above rpl e' ∧ ¬Above rpl e

/-- The pairs that the check is wrong about. -/
inductive Misjudged (log : List RplEntry) (rpl : RplEntry) : Prop
  /-- It is above the last pair, but its sequence number is not above that of the first. -/
  | restarted (first last : RplEntry) (hfirst : firstOf log rpl.src = some first)
      (hlast : lastOf log rpl.src = some last) (hseq : Restarted rpl first)
      (habove : Above rpl last)
  /-- A later update has not found the entry of the source, and the pair lies between the one
  that is kept and the one that was recorded. -/
  | stale (first last : RplEntry) (hfirst : firstOf log rpl.src = some first)
      (hlast : lastOf log rpl.src = some last) (hseq : ¬Restarted rpl first)
      (hbetween : Between rpl first last)
  /-- What was recorded for source zero stands behind the entries. -/
  | unkept (last : RplEntry) (hfirst : firstOf log rpl.src = none)
      (hlast : lastOf log rpl.src = some last) (habove : ¬Above rpl last)

structure RplLog.Kept (s : RplLog) : Prop where
  spare : Spare s.rpl
  entries : s.rpl.entries = kept s.log

variable {s s' : RplLog} {rpl : RplEntry} {log : List RplEntry} {size : ℕ}

theorem above_iff {e : RplEntry} : Above rpl e ↔
    e.ivIndex < rpl.ivIndex ∨ e.ivIndex = rpl.ivIndex ∧ e.seq < rpl.seq :=
  Prod.Lex.toLex_lt_toLex

theorem kept_append (hlog : log ≠ []) :
    kept (log ++ [rpl]) = if rpl.src = 0 then kept log else kept log ++ [rpl] := by
  cases log with
  | nil => exact absurd rfl hlog
  | cons first rest =>
    by_cases hsrc : rpl.src = 0#16 <;> simp [kept, hsrc]

theorem kept_eq_nil_iff : kept log = [] ↔ log = [] := by
  cases log <;> simp [kept]

theorem rplInit_kept (size : ℕ) : RplLog.Kept ⟨rplInit size, []⟩ :=
  ⟨rplInit_spare size, rplInit_entries size⟩

theorem RplLog.Kept.add (h : s.Kept) (hadd : kept (s.log ++ [rpl]) = kept s.log ++ [rpl])
    {ret : Errno} {r : Rpl} (hr : rplAdd s.rpl rpl = (ret, r)) :
    RplLog.Kept ⟨r, if ret = .success then s.log ++ [rpl] else s.log⟩ := by
  obtain rfl : (rplAdd s.rpl rpl).1 = ret := congrArg Prod.fst hr
  obtain rfl : (rplAdd s.rpl rpl).2 = r := congrArg Prod.snd hr
  refine ⟨rplAdd_spare h.spare, ?_⟩
  by_cases hret : (rplAdd s.rpl rpl).1 = .success
  · rw [if_pos hret]
    exact (rplAdd_entries hret).trans (by rw [h.entries, hadd])
  · rw [if_neg hret]
    have hsame : (rplAdd s.rpl rpl).2 = s.rpl := by
      unfold rplAdd at hret ⊢
      split_ifs at hret ⊢
      · rfl
      · exact absurd rfl hret
    rw [hsame, h.entries]

theorem RplLog.Kept.update (h : s.Kept) {ret : Errno} {r : Rpl}
    (hu : rplUpdate s.rpl rpl = .ok (ret, r)) :
    RplLog.Kept ⟨r, if ret = .success then s.log ++ [rpl] else s.log⟩ := by
  have hlog : s.rpl.index = 0 ↔ s.log = [] := by
    rw [← kept_eq_nil_iff, ← h.entries, ← List.length_eq_zero_iff, ← sources_length, Rpl.sources,
      List.length_map]
  by_cases hpos : s.rpl.index = 0
  · rw [rplUpdate, if_pos hpos] at hu
    exact h.add (by rw [hlog.mp hpos]; rfl) (Except.ok.inj hu)
  have hadd := @kept_append rpl s.log (mt hlog.mpr hpos)
  by_cases hroom : s.rpl.index < s.rpl.array.length
  · by_cases hsrc : rpl.src = 0
    · obtain ⟨r', hu', hentries, hspare⟩ := rplUpdate_zero h.spare hpos hroom hsrc
      obtain ⟨rfl, rfl⟩ := Prod.mk.inj (Except.ok.inj (hu.symm.trans hu'))
      rw [if_pos hsrc] at hadd
      exact ⟨hspare, by rw [if_pos rfl, hadd, hentries, h.entries]⟩
    · rw [rplUpdate_of_ne h.spare hpos hroom hsrc] at hu
      exact h.add (by rw [hadd, if_neg hsrc]) (Except.ok.inj (guard_ok hu))
  · rw [rplUpdate, if_neg hpos, List.getElem?_eq_none (not_lt.mp hroom)] at hu
    cases hu

theorem RplLog.Kept.step (h : s.Kept) {e : RplEvent} (hs : rplLogStep s e = .ok s') : s'.Kept := by
  cases e with
  | update rpl =>
    obtain ⟨⟨ret, r⟩, hu, hret⟩ := bind_ok hs
    obtain rfl := Except.ok.inj hret
    exact h.update hu
  | clear =>
    obtain rfl := Except.ok.inj hs
    exact rplInit_kept _

theorem RplLog.Kept.check_iff (h : s.Kept) : rplCheck s.rpl rpl = true ↔ Ahead s.log rpl := by
  rw [rplCheck, h.entries, Ahead, firstOf]
  cases (kept s.log).find? (·.src = rpl.src) with
  | none => simp
  | some e => simp

theorem mem_of_kept {e : RplEntry} (h : e ∈ kept log) : e ∈ log := by
  cases log with
  | nil => cases h
  | cons first rest =>
    rcases List.mem_cons.mp h with rfl | h
    · exact List.mem_cons_self
    · exact List.mem_cons_of_mem first (List.mem_of_mem_filter h)

/-- What was kept for a source was recorded for it. -/
theorem lastOf_of_firstOf {src : BitVec 16} {first : RplEntry}
    (hfirst : firstOf log src = some first) : ∃ last, lastOf log src = some last := by
  have hmem := mem_of_kept (List.mem_of_find?_eq_some hfirst)
  have hsrc := List.find?_some hfirst
  have hsome : (log.reverse.find? (·.src = src)).isSome :=
    List.find?_isSome.mpr ⟨first, List.mem_reverse.mpr hmem, hsrc⟩
  exact Option.isSome_iff_exists.mp hsome

/-- A pair that does not start again is ahead of an entry if it is above it, one that starts
again never. -/
theorem ahead_iff {e : RplEntry} :
    e.seq < rpl.seq ∧ e.ivIndex ≤ rpl.ivIndex ↔ Above rpl e ∧ ¬Restarted rpl e := by
  simp only [above_iff, Restarted]
  bv_omega

theorem misjudged_kept {first last : RplEntry} (hfirst : firstOf log rpl.src = some first)
    (hlast : lastOf log rpl.src = some last) : Misjudged log rpl ↔
      Restarted rpl first ∧ Above rpl last ∨ ¬Restarted rpl first ∧ Between rpl first last := by
  constructor
  · intro h
    cases h with
    | restarted first' last' hfirst' hlast' hseq habove =>
      rw [hfirst] at hfirst'
      rw [hlast] at hlast'
      cases hfirst'
      cases hlast'
      exact .inl ⟨hseq, habove⟩
    | stale first' last' hfirst' hlast' hseq hbetween =>
      rw [hfirst] at hfirst'
      rw [hlast] at hlast'
      cases hfirst'
      cases hlast'
      exact .inr ⟨hseq, hbetween⟩
    | unkept last' hfirst' =>
      rw [hfirst] at hfirst'
      cases hfirst'
  · rintro (⟨hseq, habove⟩ | ⟨hseq, hbetween⟩)
    · exact .restarted first last hfirst hlast hseq habove
    · exact .stale first last hfirst hlast hseq hbetween

theorem misjudged_unkept {last : RplEntry} (hfirst : firstOf log rpl.src = none)
    (hlast : lastOf log rpl.src = some last) : Misjudged log rpl ↔ ¬Above rpl last := by
  constructor
  · intro h
    cases h with
    | restarted first last' hfirst' | stale first last' hfirst' =>
      rw [hfirst] at hfirst'
      cases hfirst'
    | unkept last' hfirst' hlast' habove =>
      rw [hlast] at hlast'
      cases hlast'
      exact habove
  · exact .unkept last hfirst hlast

theorem not_misjudged (hlast : lastOf log rpl.src = none) : ¬Misjudged log rpl := by
  intro h
  cases h with
  | restarted first last hfirst hlast' | stale first last hfirst hlast' =>
    rw [hlast] at hlast'
    cases hlast'
  | unkept last hfirst hlast' =>
    rw [hlast] at hlast'
    cases hlast'

/-- For a source that was recorded once the check is wrong about the pairs with a greater IV
index whose sequence numbers have started again. -/
theorem misjudged_once {e : RplEntry} (hlast : lastOf log rpl.src = some e)
    (hfirst : firstOf log rpl.src = some e) : Misjudged log rpl ↔ Restarted rpl e := by
  have habove : Restarted rpl e → Above rpl e := fun h => above_iff.mpr (.inl h.1)
  rw [misjudged_kept hfirst hlast, Between]
  tauto

/-- The check is wrong about just the pairs that are described. -/
theorem ahead_iff_fresh : (Ahead log rpl ↔ Fresh log rpl) ↔ ¬Misjudged log rpl := by
  cases hfirst : firstOf log rpl.src with
  | none =>
    have hahead : Ahead log rpl := by simp [Ahead, hfirst]
    cases hlast : lastOf log rpl.src with
    | none =>
      have hfresh : Fresh log rpl := by simp [Fresh, hlast]
      exact iff_of_true (iff_of_true hahead hfresh) (not_misjudged hlast)
    | some last =>
      have hfresh : Fresh log rpl ↔ Above rpl last := by simp [Fresh, hlast]
      rw [misjudged_unkept hfirst hlast, hfresh, not_not]
      exact iff_true_left hahead
  | some first =>
    obtain ⟨last, hlast⟩ := lastOf_of_firstOf hfirst
    have hahead : Ahead log rpl ↔ Above rpl first ∧ ¬Restarted rpl first := by
      rw [← ahead_iff]
      simp [Ahead, hfirst]
    have hfresh : Fresh log rpl ↔ Above rpl last := by simp [Fresh, hlast]
    rw [misjudged_kept hfirst hlast, hahead, hfresh, Between]
    tauto

/-- In every list that updates and clears lead to, the check is right about an entry, true for
a pair above the one recorded last and for a source without one, false for the others, unless
the pair starts again above the first one that was kept, lies between this and the last one, or
is for source zero behind the entries. -/
theorem rplCheck_judges (size : ℕ) (es : List RplEvent) (s : RplLog)
    (hrun : run rplLogStep ⟨rplInit size, []⟩ es = .ok s) (rpl : RplEntry) :
    (rplCheck s.rpl rpl = true ↔ Fresh s.log rpl) ↔ ¬Misjudged s.log rpl := by
  have hkept : s.Kept := run_invariant (fun _ _ _ h hs => h.step hs) (rplInit_kept size) hrun
  rw [hkept.check_iff]
  exact ahead_iff_fresh

theorem rplCheck_misjudges : ∃ s,
    run rplLogStep ⟨rplInit 4, []⟩ [.update ⟨1, 5, 0⟩] = .ok s ∧ lastOf s.log 1 = some ⟨1, 5, 0⟩ ∧
      Above ⟨1, 3, 1⟩ ⟨1, 5, 0⟩ ∧ rplCheck s.rpl ⟨1, 3, 1⟩ = false :=
  ⟨_, rfl, by decide, above_iff.mpr (by decide), by decide⟩

theorem rplCheck_judges_example :
    (rplCheck (rplAdd (rplInit 4) ⟨1, 5, 0⟩).2 ⟨1, 6, 0⟩ = true ↔ Fresh [⟨1, 5, 0⟩] ⟨1, 6, 0⟩) ↔
      ¬Misjudged [⟨1, 5, 0⟩] ⟨1, 6, 0⟩ :=
  rplCheck_judges 4 [.update ⟨1, 5, 0⟩] ⟨(rplAdd (rplInit 4) ⟨1, 5, 0⟩).2, [⟨1, 5, 0⟩]⟩ rfl
    ⟨1, 6, 0⟩

end Meshx.Replay
