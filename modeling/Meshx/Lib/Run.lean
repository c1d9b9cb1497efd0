import Mathlib

/-! Runs of a deterministic system whose steps may fault: events are taken one after the
other, a fault ends the run. Invariants are proved for one step and carried over runs, in
general or over the runs all of whose steps meet a condition. -/
namespace Meshx.Lib

variable {σ ε φ : Type*} (step : σ → ε → Except φ σ)

theorem ok_bind {φ : Type*} {α β : Type} (a : α) (f : α → Except φ β) :
    Except.ok a >>= f = f a := rfl

theorem bind_ok {φ : Type*} {α β : Type} {x : Except φ α} {f : α → Except φ β} {b : β}
    (h : x >>= f = .ok b) : ∃ a, x = .ok a ∧ f a = .ok b := by
  cases x with
  | error e => cases h
  | ok a => exact ⟨a, rfl, h⟩

/-- Two steps neither of which fails with an error. -/
theorem bind_ne_error {φ : Type*} {α β : Type} {x : Except φ α} {f : α → Except φ β} {e : φ}
    (hx : x ≠ .error e) (hf : ∀ a, x = .ok a → f a ≠ .error e) : x >>= f ≠ .error e := by
  cases x with
  | error d => exact fun h => hx (congrArg Except.error (Except.error.inj h))
  | ok a => exact hf a rfl

theorem map_ok {φ : Type*} {α β : Type} {x : Except φ α} {f : α → β} {b : β}
    (h : f <$> x = .ok b) : ∃ a, x = .ok a ∧ f a = b := by
  cases x with
  | error e => cases h
  | ok a => exact ⟨a, rfl, Except.ok.inj h⟩

theorem guard_ok {φ : Type*} {α : Type} {c : Prop} [Decidable c] {f : φ} {x : Except φ α} {a : α}
    (h : (if c then .error f else x) = .ok a) : x = .ok a := by
  split_ifs at h
  exact h

/-- What is seen of the result of a computation is seen of a result. -/
theorem observe {φ : Type*} {α β : Type} {x : Except φ α} {f : α → β} {b : β}
    (h : x.toOption.map f = some b) : ∃ a, x = .ok a ∧ f a = b := by
  cases x with
  | error e => simp [Except.toOption] at h
  | ok a => exact ⟨a, rfl, by simpa [Except.toOption] using h⟩

/-- The fault of a computation, if it has one. -/
def faultOf {φ : Type*} {α : Type*} : Except φ α → Option φ
  | .error f => some f
  | .ok _ => none

theorem eq_of_faultOf {φ : Type*} {α : Type*} {x : Except φ α} {f : φ} (h : faultOf x = some f) :
    x = .error f := by
  cases x with
  | error e => exact congrArg Except.error (Option.some.inj h)
  | ok a => cases h

/-- The state after the events, or the fault that ended the run. -/
def run : σ → List ε → Except φ σ
  | s, [] => .ok s
  | s, e :: es => (step s e).bind fun s' => run s' es

/-- The last state of a run: the one after all its events, or the one in which it faults. -/
def lastState : σ → List ε → σ
  | s, [] => s
  | s, e :: es =>
    match step s e with
    | .error _ => s
    | .ok s' => lastState s' es

/-- Every event of the run meets the condition in the state it happens in. -/
def RunAll (cond : σ → ε → Prop) : σ → List ε → Prop
  | _, [] => True
  | s, e :: es => cond s e ∧ ∀ s', step s e = .ok s' → RunAll cond s' es

variable {step} {cond : σ → ε → Prop} {Inv : σ → Prop} {s s' : σ} {es : List ε}

theorem run_cons_ok {e : ε} (h : run step s (e :: es) = .ok s') :
    ∃ t, step s e = .ok t ∧ run step t es = .ok s' := by
  cases hs : step s e with
  | error f => simp [run, hs, Except.bind] at h
  | ok t => exact ⟨t, rfl, by simpa [run, hs, Except.bind] using h⟩

theorem lastState_of_ok {e : ε} (h : step s e = .ok s') :
    lastState step s (e :: es) = lastState step s' es := by
  rw [lastState, h]

theorem lastState_of_error {e : ε} {f : φ} (h : step s e = .error f) :
    lastState step s (e :: es) = s := by
  rw [lastState, h]

theorem run_append {es' : List ε} :
    run step s (es ++ es') = (run step s es).bind fun t => run step t es' := by
  induction es generalizing s with
  | nil => rfl
  | cons e es ih =>
    simp only [List.cons_append, run]
    cases step s e with
    | error f => rfl
    | ok t => exact ih

theorem RunAll.of_append {es' : List ε} (h : RunAll step cond s (es ++ es')) :
    RunAll step cond s es := by
  induction es generalizing s with
  | nil => trivial
  | cons e es ih => exact ⟨h.1, fun t ht => ih (h.2 t ht)⟩

theorem RunAll.after {es' : List ε} {t : σ} (h : RunAll step cond s (es ++ es'))
    (hrun : run step s es = .ok t) : RunAll step cond t es' := by
  induction es generalizing s with
  | nil =>
    cases hrun
    exact h
  | cons e es ih =>
    obtain ⟨u, hu, hrest⟩ := run_cons_ok hrun
    exact ih (h.2 u hu) hrest

theorem RunAll.congr {cond' : σ → ε → Prop} (h : ∀ s e, cond s e ↔ cond' s e) :
    RunAll step cond s es ↔ RunAll step cond' s es := by
  induction es generalizing s with
  | nil => exact Iff.rfl
  | cons e es ih =>
    exact and_congr (h s e) (forall_congr' fun t => imp_congr_right fun _ => ih)

theorem RunAll.and {cond' : σ → ε → Prop} (h : RunAll step cond s es)
    (h' : RunAll step cond' s es) : RunAll step (fun s e => cond s e ∧ cond' s e) s es := by
  induction es generalizing s with
  | nil => trivial
  | cons e es ih => exact ⟨⟨h.1, h'.1⟩, fun t ht => ih (h.2 t ht) (h'.2 t ht)⟩

theorem RunAll.imp_of_mem {cond' : σ → ε → Prop} (h : RunAll step cond s es)
    (himp : ∀ s, ∀ e ∈ es, cond s e → cond' s e) : RunAll step cond' s es := by
  induction es generalizing s with
  | nil => trivial
  | cons e es ih =>
    exact ⟨himp s e List.mem_cons_self h.1, fun t ht =>
      ih (h.2 t ht) fun u d hd => himp u d (List.mem_cons_of_mem e hd)⟩

/-- Whether a condition that can be decided holds in a run is found by running it. -/
instance RunAll.decidable [∀ s e, Decidable (cond s e)] :
    ∀ (s : σ) (es : List ε), Decidable (RunAll step cond s es)
  | _, [] => .isTrue trivial
  | s, e :: es =>
    match hs : step s e with
    | .error _ => decidable_of_iff (cond s e) ⟨fun h => ⟨h, fun _ ht => by simp [hs] at ht⟩, (·.1)⟩
    | .ok t =>
      have := RunAll.decidable t es
      decidable_of_iff (cond s e ∧ RunAll step cond t es)
        ⟨fun h => ⟨h.1, fun _ ht => Except.ok.inj (hs.symm.trans ht) ▸ h.2⟩,
          fun h => ⟨h.1, h.2 t hs⟩⟩

theorem RunAll.last {e : ε} {t : σ} (h : RunAll step cond s (es ++ [e]))
    (hrun : run step s es = .ok t) : cond t e := by
  induction es generalizing s with
  | nil =>
    cases hrun
    exact h.1
  | cons d es ih =>
    obtain ⟨u, hu, hrest⟩ := run_cons_ok hrun
    exact ih (h.2 u hu) hrest

/-- What every step that meets the condition preserves holds after every such run. -/
theorem RunAll.invariant
    (hstep : ∀ s e s', Inv s → cond s e → step s e = .ok s' → Inv s')
    (hs : Inv s) (hall : RunAll step cond s es) (hrun : run step s es = .ok s') : Inv s' := by
  induction es generalizing s with
  | nil => cases hrun; exact hs
  | cons e es ih =>
    obtain ⟨t, ht, hrest⟩ := run_cons_ok hrun
    exact ih (hstep s e t hs hall.1 ht) (hall.2 t ht) hrest

theorem run_invariant (hstep : ∀ s e s', Inv s → step s e = .ok s' → Inv s')
    (hs : Inv s) (hrun : run step s es = .ok s') : Inv s' := by
  induction es generalizing s with
  | nil => cases hrun; exact hs
  | cons e es ih =>
    obtain ⟨t, ht, hrest⟩ := run_cons_ok hrun
    exact ih (hstep s e t hs ht) hrest

/-- Two conditions that agree under the invariant hold of the same runs. -/
theorem RunAll.iff_of_invariant {cond' : σ → ε → Prop}
    (hstep : ∀ s e s', Inv s → cond s e → step s e = .ok s' → Inv s')
    (hiff : ∀ s e, Inv s → (cond' s e ↔ cond s e)) (hs : Inv s) :
    RunAll step cond' s es ↔ RunAll step cond s es := by
  induction es generalizing s with
  | nil => exact Iff.rfl
  | cons e es ih =>
    rw [RunAll, RunAll, hiff s e hs]
    refine and_congr_right fun hcond => forall_congr' fun t => imp_congr_right fun ht => ?_
    exact ih (hstep s e t hs hcond ht)

/-- A condition that follows from another one under the invariant holds of the same runs. -/
theorem RunAll.imp_of_invariant {cond' : σ → ε → Prop}
    (hstep : ∀ s e s', Inv s → cond s e → step s e = .ok s' → Inv s')
    (himp : ∀ s e, Inv s → cond s e → cond' s e) (hs : Inv s) (hall : RunAll step cond s es) :
    RunAll step cond' s es := by
  induction es generalizing s with
  | nil => trivial
  | cons e es ih =>
    exact ⟨himp s e hs hall.1, fun t ht => ih (hstep s e t hs hall.1 ht) (hall.2 t ht)⟩

/-- Two conditions that agree on every step that is made hold of the same runs. -/
theorem RunAll.iff_of_run {cond' : σ → ε → Prop}
    (hstep : ∀ s e s', Inv s → step s e = .ok s' → Inv s')
    (hiff : ∀ s e s', Inv s → step s e = .ok s' → (cond' s e ↔ cond s e)) (hs : Inv s)
    (hrun : run step s es = .ok s') : RunAll step cond' s es ↔ RunAll step cond s es := by
  induction es generalizing s with
  | nil => exact Iff.rfl
  | cons e es ih =>
    obtain ⟨t, ht, hrest⟩ := run_cons_ok hrun
    rw [RunAll, RunAll, hiff s e t hs ht]
    refine and_congr_right fun _ => forall_congr' fun u => imp_congr_right fun hu => ?_
    obtain rfl : t = u := Except.ok.inj (ht.symm.trans hu)
    exact ih (hstep s e t hs ht) hrest

/-- A fault that no step can end in under the invariant ends no run. -/
theorem RunAll.no_fault {f : φ}
    (hstep : ∀ s e s', Inv s → cond s e → step s e = .ok s' → Inv s')
    (hno : ∀ s e, Inv s → cond s e → step s e ≠ .error f)
    (hs : Inv s) (hall : RunAll step cond s es) : run step s es ≠ .error f := by
  induction es generalizing s with
  | nil => simp [run]
  | cons e es ih =>
    cases ht : step s e with
    | error g =>
      have hne := hno s e hs hall.1
      rw [ht] at hne
      simpa [run, ht, Except.bind] using hne
    | ok t =>
      simpa [run, ht, Except.bind] using ih (hstep s e t hs hall.1 ht) (hall.2 t ht)

variable (step) in
/-- Steps of the run meet the conditions, one after the other in this order. -/
def Occurs : List (σ → ε → Prop) → σ → List ε → Prop
  | [], _, _ => True
  | _ :: _, _, [] => False
  | p :: ps, s, e :: es =>
    ∃ s', step s e = .ok s' ∧ (p s e ∧ Occurs ps s' es ∨ Occurs (p :: ps) s' es)

variable {ps qs : List (σ → ε → Prop)} {p : σ → ε → Prop} {e : ε} {t : σ}

@[simp] theorem occurs_nil : Occurs step [] s es := by
  cases es <;> trivial

theorem Occurs.of_prefix (h : Occurs step ps s es) (hp : qs <+: ps) : Occurs step qs s es := by
  induction es generalizing s ps qs with
  | nil =>
    cases ps with
    | nil => simp [List.prefix_nil.mp hp]
    | cons p ps => exact h.elim
  | cons e es ih =>
    cases qs with
    | nil => exact occurs_nil
    | cons q qs =>
      cases ps with
      | nil => simp at hp
      | cons p ps =>
        obtain ⟨rfl, hps⟩ := List.cons_prefix_cons.mp hp
        obtain ⟨s', hs', hocc⟩ := h
        refine ⟨s', hs', hocc.imp (fun hc => ⟨hc.1, ih hc.2 hps⟩) fun hc => ih hc hp⟩

/-- What occurred in a run has occurred in every longer one. -/
theorem Occurs.snoc_run (h : Occurs step ps s es) (hrun : run step s es = .ok s') :
    Occurs step ps s (es ++ [e]) := by
  induction es generalizing s ps with
  | nil =>
    cases ps with
    | nil => exact occurs_nil
    | cons p ps => exact h.elim
  | cons d es ih =>
    cases ps with
    | nil => exact occurs_nil
    | cons p ps =>
      obtain ⟨u, hu, hrest⟩ := run_cons_ok hrun
      obtain ⟨u', hu', hocc⟩ := h
      obtain rfl : u = u' := by simpa [hu] using hu'
      exact ⟨u, hu, hocc.imp (fun hc => ⟨hc.1, ih hc.2 hrest⟩) fun hc => ih hc hrest⟩

theorem Occurs.snoc (h : Occurs step ps s es) (hrun : run step s es = .ok s')
    (hs : step s' e = .ok t) (hp : p s' e) : Occurs step (ps ++ [p]) s (es ++ [e]) := by
  induction es generalizing s ps with
  | nil =>
    cases ps with
    | nil =>
      cases hrun
      exact ⟨t, hs, .inl ⟨hp, trivial⟩⟩
    | cons q ps => exact h.elim
  | cons d es ih =>
    obtain ⟨u, hu, hrest⟩ := run_cons_ok hrun
    cases ps with
    | nil => exact ⟨u, hu, .inr (ih occurs_nil hrest)⟩
    | cons q ps =>
      obtain ⟨u', hu', hocc⟩ := h
      obtain rfl : u = u' := by simpa [hu] using hu'
      exact ⟨u, hu, hocc.imp (fun hc => ⟨hc.1, ih hc.2 hrest⟩) fun hc => ih hc hrest⟩

/-- If after every step the milestones of the new state are among the first ones of the old
state, with the step itself as one more at most, then in every run the milestones of its
last state have occurred. -/
theorem RunAll.occurs {milestones : σ → List (σ → ε → Prop)}
    (hstep : ∀ s e s', Inv s → cond s e → step s e = .ok s' → Inv s' ∧
      (milestones s' <+: milestones s ∨
        ∃ ps p, milestones s' = ps ++ [p] ∧ ps <+: milestones s ∧ p s e))
    (hs : Inv s) (h0 : milestones s = []) (hall : RunAll step cond s es)
    (hrun : run step s es = .ok s') : Inv s' ∧ Occurs step (milestones s') s es := by
  induction es using List.reverseRecOn generalizing s' with
  | nil =>
    cases hrun
    exact ⟨hs, by simp [h0]⟩
  | append_singleton es e ih =>
    rw [run_append] at hrun
    cases hes : run step s es with
    | error f => simp [hes, Except.bind] at hrun
    | ok t =>
      have hlast : step t e = .ok s' := by
        rw [hes] at hrun
        obtain ⟨u, hu, hur⟩ := run_cons_ok hrun
        cases hur
        exact hu
      obtain ⟨hinv, hocc⟩ := ih hall.of_append hes
      obtain ⟨hinv', hmile⟩ := hstep t e s' hinv (hall.last hes) hlast
      refine ⟨hinv', ?_⟩
      rcases hmile with hpre | ⟨ps, p, hm, hpre, hp⟩
      · exact (hocc.of_prefix hpre).snoc_run hes
      · rw [hm]
        exact (hocc.of_prefix hpre).snoc hes hlast hp

end Meshx.Lib
