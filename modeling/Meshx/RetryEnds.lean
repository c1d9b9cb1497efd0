import Meshx.TransBounds

/-! A PDU that nobody answers is sent again until the retries have taken long enough; then the link
is closed and the session deleted, unless the PDU reports a failure. -/
namespace Meshx.PbAdv

open Lib Prov

variable {cfg : Config} {s t : PbAdvDev}

def linkLossTime : ℕ := 600000

def linkOpenRetryPeriod : ℕ := 200

def linkCloseTime : ℕ := 90

def linkCloseRetryPeriod : ℕ := 20

def transLossTime : ℕ := 30000

def transRetryPeriod : ℕ := 300

/-- The packets of what has been sent and not answered. -/
def repeated (accepts : List Byte → Bool) (s : PbAdvDev) : List Act :=
  match s.dev.state with
  | .linkOpening => send accepts (linkOpenPkt s.linkId s.devUuid)
  | .linkClosing => send accepts (linkClosePkt s.linkId (closeReason s.linkCloseReason))
  | _ => (statePdu s.dev).elim [] (sendTrans accepts s.linkId s.txTransNum)

/-- How it goes on: the next retry, the closing of the link, or the end of the session. -/
inductive Proceeds (s : PbAdvDev) : Option PbAdvDev → Prop
  | again (retryTime : ℕ) (h : s.retryTime < retryTime) :
      Proceeds s (some { s with retryTime := retryTime })
  | closes (h : .invite ≤ s.dev.state) (hne : s.dev.state ≠ .linkClosing) (reason : Byte) :
      Proceeds s (some (closing s reason))
  | deleted (h : s.dev.state = .linkOpening ∨ s.dev.state = .linkClosing) : Proceeds s none

/-- An expiry sends the packets again, and it goes on. -/
def Expires (cfg : Config) (w : World) (s : PbAdvDev) : Prop :=
  ∃ o rest, sessionStep cfg s w .timeout = .ok (o, repeated w.accepts s ++ rest) ∧ Proceeds s o

/-- So many expiries are left at most. -/
def expiriesLeft (s : PbAdvDev) : ℕ :=
  match s.dev.state with
  | .linkOpening => (linkLossTime - s.retryTime) / linkOpenRetryPeriod + 1
  | .linkClosing => (linkCloseTime - s.retryTime) / linkCloseRetryPeriod + 1
  | _ => (transLossTime - s.retryTime) / transRetryPeriod + 1 +
      (linkCloseTime / linkCloseRetryPeriod + 1)

/-- Nothing but the timer. -/
def timeouts (w : ℕ → World) : ℕ → List (SessionEvent × World)
  | 0 => []
  | n + 1 => (.timeout, w 0) :: timeouts (fun i => w (i + 1)) n

/-- With nothing but the timer, the session is deleted after so many expiries at most, each of
which sends the packets again and goes on. -/
def Ends (cfg : Config) (s : PbAdvDev) : Prop :=
  ∀ w : ℕ → World, ∃ n ≤ expiriesLeft s, run (sessionNext cfg) (some s) (timeouts w n) = .ok none ∧
    ∀ k < n, ∃ t, run (sessionNext cfg) (some s) (timeouts w k) = .ok (some t) ∧ Expires cfg (w k) t

/-- Retries are made with the timer on, and in a state that has something to send. -/
def Retrying (s : PbAdvDev) : Prop :=
  s.timerState = .retry → s.timerOn = true ∧ s.dev.state ≠ .idle ∧ s.dev.state ≠ .linkOpened

section Reachable

variable {w : World}

theorem Retrying.of_delay (h : t.timerState = .delay) : Retrying t := fun ht =>
  absurd (h.symm.trans ht) (by decide)

theorem Retrying.of_monitor (h : t.timerState = .linkMonitor) : Retrying t := fun ht =>
  absurd (h.symm.trans ht) (by decide)

theorem Retrying.of_dev {state : ProvState} (hdev : t.dev.state = state) (hon : t.timerOn = true)
    (h : state ≠ .idle ∧ state ≠ .linkOpened) : Retrying t := by
  subst hdev
  exact fun _ => ⟨hon, h⟩

theorem Retrying.of_same (h : Retrying s) (hon : t.timerOn = s.timerOn)
    (hstate : t.timerState = s.timerState) (hdev : t.dev.state = s.dev.state) : Retrying t := by
  intro ht
  rw [hon, hdev]
  exact h (hstate.symm.trans ht)

theorem closing_retrying (s : PbAdvDev) (reason : Byte) : Retrying (closing s reason) :=
  .of_dev (show _ = ProvState.linkClosing from rfl) rfl (by decide)

theorem Called.retrying {c : Call} (h : Called s c t) (hs : Retrying s) : Retrying t := by
  cases h with
  | kept hc d hd => exact hs.of_same rfl rfl hd
  | opened => exact .of_dev (show _ = ProvState.linkOpening from rfl) rfl (by decide)
  | closed => exact closing_retrying _ _
  | sent => exact .of_delay rfl

theorem Filled.retrying (h : Filled s t) (hs : Retrying s) : Retrying t := by
  cases h with
  | waits | ignored => exact hs
  | dropped => exact hs.of_same rfl rfl rfl
  | acking => exact .of_delay rfl

theorem Received.retrying {pkt : Pkt} (h : Received cfg w s pkt (some t)) (hs : Retrying s) :
    Retrying t := by
  cases h with
  | kept => exact hs
  | restored linkId devUuid ho d hd => exact hs.of_same rfl rfl hd
  | unacked linkId devUuid hle d hd =>
    intro ht
    refine ⟨(hs ht).1, ?_, ?_⟩
    · exact fun hidle => absurd (hd.symm.trans hidle) (by decide)
    · exact fun hopened => absurd (hd.symm.trans hopened) (by decide)
  | accepted | established | monitored => exact .of_monitor rfl
  | ended => exact closing_retrying _ _
  | begun => exact hs.of_same rfl rfl rfl
  | started linkId fcs pdu hstarts hlen hin t ht => exact ht.retrying (hs.of_same rfl rfl rfl)
  | continued linkId pdu hcont hlen hin t ht => exact ht.retrying (hs.of_same rfl rfl rfl)

theorem TimedOut.retrying (h : TimedOut w s (some t)) (hfree : ¬ Stuck s) (hs : Retrying s) :
    Retrying t := by
  cases h with
  | off => exact hs
  | processed hon ht hd hnum s' hs' =>
    cases hs' with
    | quiet => exact .of_monitor rfl
    | answered => exact .of_delay rfl
  | badNum => exact .of_delay rfl
  | sent hon ht hd =>
    have hin : .invite ≤ s.dev.state ∧ s.dev.state ≤ .failed := by
      by_contra hout
      exact hfree ⟨hon, ht, hd, hout⟩
    refine fun _ => ⟨rfl, ?_, ?_⟩
    · exact fun hidle => absurd (hin.1.trans_eq hidle) (by decide)
    · exact fun hopened => absurd (hin.1.trans_eq hopened) (by decide)
  | lost hon ht => exact .of_monitor ht
  | lossClosed => exact closing_retrying _ _
  | retried => exact hs.of_same rfl rfl rfl
  | expired => exact closing_retrying _ _

theorem Stepped.retrying {e : SessionEvent} (h : Stepped cfg w s e (some t)) (hs : Retrying s) :
    Retrying t := by
  cases h with
  | discarded => exact hs
  | received hp h => exact h.retrying hs
  | called h => exact h.retrying hs
  | timedOut hfree h => exact h.retrying hfree hs

theorem retrying_run {devUuid : List Byte} {role : Role} {es : List (SessionEvent × World)}
    (hrun : run (sessionNext cfg) (some (clearedSession devUuid role)) es = .ok (some s)) :
    Retrying s := by
  have hstart : OfSession Retrying (some (clearedSession devUuid role)) := Retrying.of_delay rfl
  have hkeep : OfSession Retrying (some s) :=
    run_invariant (sessionNext_invariant fun _ _ _ _ h hstep => hstep.retrying h) hstart hrun
  exact hkeep

end Reachable

section Expiry

variable (w : World)

/-- The session is in a state with something to send again. -/
structure Resends (s : PbAdvDev) : Prop where
  on : s.timerOn = true
  retry : s.timerState = .retry
  idle : s.dev.state ≠ .idle
  opened : s.dev.state ≠ .linkOpened
  failed : s.dev.state ≠ .failed

theorem handleRetry_opening (h : s.dev.state = .linkOpening) :
    ∃ o, handleRetry w s = .ok (o, repeated w.accepts s) ∧
      ((o = none ∧ linkLossTime < s.retryTime + linkOpenRetryPeriod) ∨
        (o = some { s with retryTime := s.retryTime + linkOpenRetryPeriod } ∧
          s.retryTime + linkOpenRetryPeriod ≤ linkLossTime)) := by
  rw [handleRetry, if_pos h, repeated, h]
  by_cases hend : linkLossTime < s.retryTime + linkOpenRetryPeriod
  · exact ⟨none, congrArg (fun o => Except.ok (o, _)) (if_pos hend), .inl ⟨rfl, hend⟩⟩
  · exact ⟨_, congrArg (fun o => Except.ok (o, _)) (if_neg hend), .inr ⟨rfl, not_lt.mp hend⟩⟩

theorem handleRetry_closing (h : s.dev.state = .linkClosing) :
    ∃ o, handleRetry w s = .ok (o, repeated w.accepts s) ∧
      ((o = none ∧ linkCloseTime < s.retryTime + linkCloseRetryPeriod) ∨
        (o = some { s with retryTime := s.retryTime + linkCloseRetryPeriod } ∧
          s.retryTime + linkCloseRetryPeriod ≤ linkCloseTime)) := by
  rw [handleRetry, if_neg (by rw [h]; decide), if_pos h, repeated, h]
  by_cases hend : linkCloseTime < s.retryTime + linkCloseRetryPeriod
  · exact ⟨none, congrArg (fun o => Except.ok (o, _)) (if_pos hend), .inl ⟨rfl, hend⟩⟩
  · exact ⟨_, congrArg (fun o => Except.ok (o, _)) (if_neg hend), .inr ⟨rfl, not_lt.mp hend⟩⟩

theorem handleRetry_pdu (h₁ : .invite ≤ s.dev.state) (h₂ : s.dev.state ≤ .complete) :
    ∃ o rest, handleRetry w s = .ok (o, repeated w.accepts s ++ rest) ∧
      ((o = some (closing s 1) ∧ transLossTime < s.retryTime + transRetryPeriod) ∨
        (o = some { s with retryTime := s.retryTime + transRetryPeriod } ∧
          s.retryTime + transRetryPeriod ≤ transLossTime)) := by
  have hopening : s.dev.state ≠ .linkOpening := fun h => absurd (h₁.trans_eq h) (by decide)
  have hclosing : s.dev.state ≠ .linkClosing := fun h => absurd (h.symm.trans_le h₂) (by decide)
  have hsome := (statePdu_isSome s.dev).mpr ⟨h₁, h₂.trans (by decide)⟩
  obtain ⟨pdu, hp⟩ := Option.isSome_iff_exists.mp hsome
  have hrepeated : repeated w.accepts s = sendTrans w.accepts s.linkId s.txTransNum pdu := by
    rw [repeated, hp]
    cases hs : s.dev.state with
    | linkOpening => exact absurd hs hopening
    | linkClosing => exact absurd hs hclosing
    | _ => rfl
  rw [handleRetry, if_neg hopening, if_neg hclosing, if_pos ⟨h₁, h₂⟩, hp, hrepeated]
  by_cases hend : transLossTime < s.retryTime + transRetryPeriod
  · obtain ⟨closed, hclosed⟩ : ∃ closed,
        linkClose w.accepts (stopTimer { s with retryTime := s.retryTime + 300 }) 1 = closed :=
      ⟨_, rfl⟩
    have hnext : closed.2.1 = closing s 1 := by
      rw [← hclosed]
      rcases linkClose_cases w.accepts (stopTimer { s with retryTime := s.retryTime + 300 }) 1 with
        ⟨hle, -⟩ | ⟨-, hs⟩
      · exact absurd (h₁.trans hle) (by decide)
      · exact hs
    have hend' : 30000 < s.retryTime + 300 := hend
    refine ⟨some closed.2.1, closed.2.2, ?_, .inl ⟨congrArg some hnext, hend⟩⟩
    dsimp only
    rw [if_pos hend', hclosed]
  · have hend' : ¬ 30000 < s.retryTime + 300 := hend
    refine ⟨_, [], ?_, .inr ⟨rfl, not_lt.mp hend⟩⟩
    dsimp only
    rw [List.append_nil, if_neg hend', transRetryPeriod]

theorem expiriesLeft_pdu (h₁ : .invite ≤ s.dev.state) (h₂ : s.dev.state ≤ .complete) :
    expiriesLeft s = (transLossTime - s.retryTime) / transRetryPeriod + 1 +
      (linkCloseTime / linkCloseRetryPeriod + 1) := by
  rw [expiriesLeft]
  cases hs : s.dev.state with
  | linkOpening => exact absurd (h₁.trans_eq hs) (by decide)
  | linkClosing => exact absurd (hs.symm.trans_le h₂) (by decide)
  | _ => rfl

theorem expiriesLeft_pos (s : PbAdvDev) : 0 < expiriesLeft s := by
  rw [expiriesLeft]
  cases s.dev.state with
  | linkOpening | linkClosing => exact Nat.add_pos_right _ Nat.one_pos
  | _ => exact Nat.add_pos_right _ (Nat.add_pos_right _ Nat.one_pos)

theorem Resends.again (h : Resends s) (retryTime : ℕ) :
    Resends { s with retryTime := retryTime } := ⟨h.on, h.retry, h.idle, h.opened, h.failed⟩

theorem closing_resends (s : PbAdvDev) (reason : Byte) : Resends (closing s reason) :=
  ⟨rfl, rfl, nofun, nofun, nofun⟩

/-- Every expiry sends the packets again, and brings the end nearer. -/
theorem Resends.step (h : Resends s) : ∃ o rest,
    sessionStep cfg s w .timeout = .ok (o, repeated w.accepts s ++ rest) ∧ Proceeds s o ∧
      ∀ t, o = some t → Resends t ∧ expiriesLeft t < expiriesLeft s := by
  have htimeout : sessionStep cfg s w .timeout = handleRetry w s := by
    change handleTimeout cfg w s = _
    rw [handleTimeout, if_pos h.on, h.retry]
  rw [htimeout]
  by_cases hopening : s.dev.state = .linkOpening
  · obtain ⟨o, hrun, hout⟩ := handleRetry_opening w hopening
    refine ⟨o, [], by rw [List.append_nil, hrun], ?_⟩
    rcases hout with ⟨rfl, -⟩ | ⟨rfl, hle⟩
    · refine ⟨.deleted (.inl hopening), fun t ht => ?_⟩
      cases ht
    · refine ⟨.again _ (Nat.lt_add_of_pos_right (by decide)), fun t ht => ?_⟩
      cases ht
      refine ⟨h.again _, ?_⟩
      have hle' : s.retryTime + 200 ≤ 600000 := hle
      simp only [expiriesLeft, hopening]
      change (600000 - (s.retryTime + 200)) / 200 + 1 < (600000 - s.retryTime) / 200 + 1
      omega
  by_cases hclosing : s.dev.state = .linkClosing
  · obtain ⟨o, hrun, hout⟩ := handleRetry_closing w hclosing
    refine ⟨o, [], by rw [List.append_nil, hrun], ?_⟩
    rcases hout with ⟨rfl, -⟩ | ⟨rfl, hle⟩
    · refine ⟨.deleted (.inr hclosing), fun t ht => ?_⟩
      cases ht
    · refine ⟨.again _ (Nat.lt_add_of_pos_right (by decide)), fun t ht => ?_⟩
      cases ht
      refine ⟨h.again _, ?_⟩
      have hle' : s.retryTime + 20 ≤ 90 := hle
      simp only [expiriesLeft, hclosing]
      change (90 - (s.retryTime + 20)) / 20 + 1 < (90 - s.retryTime) / 20 + 1
      omega
  obtain ⟨h₁, h₂⟩ : .invite ≤ s.dev.state ∧ s.dev.state ≤ .complete := by
    have hidle := h.idle
    have hopened := h.opened
    have hfailed := h.failed
    revert hopening hclosing hidle hopened hfailed
    cases s.dev.state <;> decide
  obtain ⟨o, rest, hrun, hout⟩ := handleRetry_pdu w h₁ h₂
  refine ⟨o, rest, hrun, ?_⟩
  rw [expiriesLeft_pdu h₁ h₂]
  rcases hout with ⟨rfl, -⟩ | ⟨rfl, hle⟩
  · refine ⟨.closes h₁ hclosing 1, fun t ht => ?_⟩
    cases ht
    refine ⟨closing_resends s 1, ?_⟩
    change 90 / 20 + 1 < (30000 - s.retryTime) / 300 + 1 + (90 / 20 + 1)
    omega
  · refine ⟨.again _ (Nat.lt_add_of_pos_right (by decide)), fun t ht => ?_⟩
    cases ht
    refine ⟨h.again _, ?_⟩
    have hle' : s.retryTime + 300 ≤ 30000 := hle
    rw [@expiriesLeft_pdu { s with retryTime := s.retryTime + transRetryPeriod } h₁ h₂]
    change (30000 - (s.retryTime + 300)) / 300 + 1 + 5 < (30000 - s.retryTime) / 300 + 1 + 5
    omega

end Expiry

theorem sessionNext_timeout {o : Option PbAdvDev} {acts : List Act} {w : World}
    (h : sessionStep cfg s w .timeout = .ok (o, acts)) :
    sessionNext cfg (some s) (.timeout, w) = .ok o := by
  change (sessionStep cfg s w .timeout).map _ = _
  rw [h]
  rfl

theorem run_timeouts_succ {o : Option PbAdvDev} {acts : List Act} {w : ℕ → World} (n : ℕ)
    (h : sessionStep cfg s (w 0) .timeout = .ok (o, acts)) :
    run (sessionNext cfg) (some s) (timeouts w (n + 1)) =
      run (sessionNext cfg) o (timeouts (fun i => w (i + 1)) n) := by
  rw [timeouts, run]
  rw [sessionNext_timeout h]
  rfl

theorem Resends.ends (h : Resends s) : Ends cfg s := by
  induction hm : expiriesLeft s using Nat.strong_induction_on generalizing s with
  | _ m ih =>
    subst hm
    intro w
    obtain ⟨o, rest, hstep, hproceeds, hnext⟩ := @Resends.step cfg s (w 0) h
    have hexpires : Expires cfg (w 0) s := ⟨o, rest, hstep, hproceeds⟩
    cases o with
    | none =>
      refine ⟨1, ?_, (run_timeouts_succ 0 hstep).trans rfl, fun k hk => ?_⟩
      · exact expiriesLeft_pos s
      · obtain rfl := Nat.lt_one_iff.mp hk
        exact ⟨s, rfl, hexpires⟩
    | some t =>
      obtain ⟨ht, hlt⟩ := hnext t rfl
      obtain ⟨n, hn, hrun, hall⟩ := ih _ hlt ht rfl fun i => w (i + 1)
      refine ⟨n + 1, hn.trans_lt hlt, (run_timeouts_succ n hstep).trans hrun, fun k hk => ?_⟩
      cases k with
      | zero => exact ⟨s, rfl, hexpires⟩
      | succ k =>
        obtain ⟨u, hu, hexpires'⟩ := hall k (Nat.lt_of_succ_lt_succ hk)
        exact ⟨u, (run_timeouts_succ k hstep).trans hu, hexpires'⟩

theorem failed_timeout (ht : s.timerState = .retry) (hf : s.dev.state = .failed) (w : World) :
    sessionStep cfg s w .timeout = .ok (some s, []) := by
  change handleTimeout cfg w s = _
  rw [handleTimeout, ht]
  split_ifs
  · change handleRetry w s = _
    rw [handleRetry, hf]
    rfl
  · rfl

/-- The answer to a failure is waited for without an end. -/
theorem failed_stays (ht : s.timerState = .retry) (hf : s.dev.state = .failed) (w : ℕ → World)
    (n : ℕ) : run (sessionNext cfg) (some s) (timeouts w n) = .ok (some s) := by
  induction n generalizing w with
  | zero => rfl
  | succ n ih =>
    rw [run_timeouts_succ n (failed_timeout ht hf (w 0))]
    exact ih _

theorem failed_not_ends (ht : s.timerState = .retry) (hf : s.dev.state = .failed) :
    ¬ Ends cfg s := by
  intro hends
  obtain ⟨n, -, hdeleted, -⟩ := hends fun _ => plainWorld
  rw [failed_stays ht hf] at hdeleted
  cases hdeleted

/-- A session in the retries ends if and only if its PDU does not report a failure. -/
theorem retry_ends_iff {devUuid : List Byte} {role : Role} {es : List (SessionEvent × World)}
    (hrun : run (sessionNext cfg) (some (clearedSession devUuid role)) es = .ok (some s))
    (ht : s.timerState = .retry) : Ends cfg s ↔ s.dev.state ≠ .failed := by
  obtain ⟨hon, hidle, hopened⟩ := retrying_run hrun ht
  exact ⟨fun hends hf => failed_not_ends ht hf hends,
    fun hf => Resends.ends ⟨hon, ht, hidle, hopened, hf⟩⟩

/-- The device has answered the invite, and nobody acks its answer. -/
def capabilitesSent : List (SessionEvent × World) :=
  [(.recv (linkOpenPkt 7 (List.replicate 16 1)), plainWorld),
    (.recv (segPkt 7 0 [0, 5] 0), plainWorld), (.timeout, plainWorld),
    (.call (.capabilites ⟨1, 1, 0, 0, 0, 0, 0, 0⟩), plainWorld), (.timeout, plainWorld)]

theorem retry_ends_capabilites : ∃ s,
    run (sessionNext plainConfig) (some (clearedSession (List.replicate 16 1) .device))
      capabilitesSent = .ok (some s) ∧ Ends plainConfig s := by
  obtain ⟨o, hrun, ho⟩ : ∃ o,
      run (sessionNext plainConfig) (some (clearedSession (List.replicate 16 1) .device))
        capabilitesSent = .ok o ∧
      o.map (fun s => (s.timerState, s.dev.state)) = some (.retry, .capabilites) :=
    observe (by decide +kernel)
  obtain ⟨s, rfl, hs⟩ := Option.map_eq_some_iff.mp ho
  have hstate : s.dev.state = .capabilites := congrArg Prod.snd hs
  exact ⟨s, hrun, (retry_ends_iff hrun (congrArg Prod.fst hs)).mpr (by rw [hstate]; decide)⟩

/-- The device has answered the invite with a failure, and nobody acks it. -/
def failureSent : List (SessionEvent × World) :=
  [(.recv (linkOpenPkt 7 (List.replicate 16 1)), plainWorld),
    (.recv (segPkt 7 0 [0, 5] 0), plainWorld), (.timeout, plainWorld),
    (.call (.failed 7), plainWorld), (.timeout, plainWorld)]

/-- The session stays, however often the timer expires, and its PDU is not sent again. -/
theorem failureSent_endless : ∃ s,
    run (sessionNext plainConfig) (some (clearedSession (List.replicate 16 1) .device))
      failureSent = .ok (some s) ∧ s.timerState = .retry ∧
    (∀ w n, run (sessionNext plainConfig) (some s) (timeouts w n) = .ok (some s)) ∧
    repeated plainWorld.accepts s ≠ [] ∧ ¬ Expires plainConfig plainWorld s ∧
    ¬ Ends plainConfig s := by
  obtain ⟨o, hrun, ho⟩ : ∃ o,
      run (sessionNext plainConfig) (some (clearedSession (List.replicate 16 1) .device))
        failureSent = .ok o ∧
      o.map (fun s => (s.timerState, s.dev.state, decide (repeated plainWorld.accepts s = []))) =
        some (.retry, .failed, false) :=
    observe (by decide +kernel)
  obtain ⟨s, rfl, hs⟩ := Option.map_eq_some_iff.mp ho
  have ht : s.timerState = .retry := congrArg Prod.fst hs
  have hf : s.dev.state = .failed := congrArg (·.2.1) hs
  have hrepeated : repeated plainWorld.accepts s ≠ [] := of_decide_eq_false (congrArg (·.2.2) hs)
  refine ⟨s, hrun, ht, failed_stays ht hf, hrepeated, ?_, failed_not_ends ht hf⟩
  rintro ⟨o, rest, hstep, -⟩
  rw [failed_timeout ht hf] at hstep
  have hnil := congrArg Prod.snd (Except.ok.inj hstep)
  exact hrepeated (List.append_eq_nil_iff.mp hnil.symm).1

end Meshx.PbAdv
