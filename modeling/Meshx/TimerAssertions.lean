import Meshx.TransBounds

/-! The assertions of the timer: the PDU that the timer sends is one of the state, unless a
transaction with a number of the wrong side is answered in a state that sends none. -/
namespace Meshx.PbAdv

open Lib Prov

variable {cfg : Config} {w : World} {s t : PbAdvDev} {e : SessionEvent}

/-- The delay is over for the ack of a transaction whose number the peer may not use. -/
def BadNumDue (s : PbAdvDev) : Prop :=
  s.timerOn = true ∧ s.timerState = .delay ∧ s.timerDelayType = .transAck ∧
    peerTransNum s.dev.role s.rxTransNum = false

instance (s : PbAdvDev) : Decidable (BadNumDue s) := inferInstanceAs (Decidable (_ ∧ _))

/-- An expiry that answers such a transaction happens in a state that has a PDU. -/
def NumberAnswered : Option PbAdvDev → SessionEvent × World → Prop
  | some s, (.timeout, _) => BadNumDue s → .invite ≤ s.dev.state ∧ s.dev.state ≤ .failed
  | _, _ => True

instance (o : Option PbAdvDev) (e : SessionEvent × World) : Decidable (NumberAnswered o e) :=
  match o, e with
  | some _, (.timeout, _) => inferInstanceAs (Decidable (_ → _))
  | some _, (.call _, _) | some _, (.recv _, _) | none, _ => isTrue trivial

theorem not_stuck_of_state (h : t.timerState ≠ .delay) : ¬ Stuck t := fun hs => h hs.2.1

theorem not_stuck_of_type (h : t.timerDelayType ≠ .provPdu) : ¬ Stuck t := fun hs => h hs.2.2.1

theorem not_stuck_of_pdu (h₁ : .invite ≤ t.dev.state) (h₂ : t.dev.state ≤ .failed) : ¬ Stuck t :=
  fun hs => hs.2.2.2 ⟨h₁, h₂⟩

theorem not_stuck_of_same (hs : ¬ Stuck s) (hon : t.timerOn = s.timerOn)
    (hstate : t.timerState = s.timerState) (htype : t.timerDelayType = s.timerDelayType)
    (hdev : t.dev.state = s.dev.state) : ¬ Stuck t := by
  unfold Stuck at hs ⊢
  rw [hon, hstate, htype, hdev]
  exact hs

theorem Called.not_stuck {c : Call} (h : Called s c t) (hs : ¬ Stuck s) : ¬ Stuck t := by
  cases h with
  | kept hc d hd => exact not_stuck_of_same hs rfl rfl rfl hd
  | opened => exact not_stuck_of_state (by simp [opening, startTimer])
  | closed => exact not_stuck_of_state (by simp [closing, startTimer])
  | sent hc d n h₁ h₂ hlast h => exact not_stuck_of_pdu h₁ h₂

theorem Filled.not_stuck (h : Filled s t) (hs : ¬ Stuck s) : ¬ Stuck t := by
  cases h with
  | waits | ignored => exact hs
  | dropped => exact not_stuck_of_same hs rfl rfl rfl rfl
  | acking => exact not_stuck_of_type (by simp [transAck, startDelay])

theorem Received.not_stuck {pkt : Pkt} (h : Received cfg w s pkt (some t)) (hs : ¬ Stuck s) :
    ¬ Stuck t := by
  cases h with
  | kept => exact hs
  | restored linkId devUuid ho d hd => exact not_stuck_of_same hs rfl rfl rfl hd
  | unacked linkId devUuid hle d hd =>
    -- the timer is not touched, but it had no PDU to send before either
    rintro ⟨hon, hstate, htype, -⟩
    refine hs ⟨hon, hstate, htype, fun hin => ?_⟩
    exact absurd (hin.1.trans hle) (by decide)
  | accepted => exact not_stuck_of_state (by simp [startTimer])
  | established => exact not_stuck_of_state (by simp [PbAdv.established, startTimer])
  | monitored => exact not_stuck_of_state (by simp [PbAdv.monitored, startTimer])
  | ended => exact not_stuck_of_state (by simp [closing, startTimer])
  | begun => exact not_stuck_of_same hs rfl rfl rfl rfl
  | started linkId fcs pdu hstarts hlen hin t ht =>
    exact ht.not_stuck (not_stuck_of_same hs rfl rfl rfl rfl)
  | continued linkId pdu hcont hlen hin t ht =>
    exact ht.not_stuck (not_stuck_of_same hs rfl rfl rfl rfl)

theorem TimedOut.not_stuck (h : TimedOut w s (some t)) (hs : ¬ Stuck s)
    (hnum : BadNumDue s → .invite ≤ s.dev.state ∧ s.dev.state ≤ .failed) : ¬ Stuck t := by
  have hacked : (acked w s).timerState ≠ .delay := by simp [acked, startTimer]
  cases h with
  | off => exact hs
  | processed hon ht hd hpeer s' hs' =>
    cases hs' with
    | quiet d hd => exact not_stuck_of_state hacked
    | answered d n type hd => exact not_stuck_of_pdu hd.answered_state.1 hd.answered_state.2
  | badNum hon ht hd hbad d n hstate =>
    have hin := hnum ⟨hon, ht, hd, hbad⟩
    rw [← hstate] at hin
    exact not_stuck_of_pdu hin.1 hin.2
  | sent => exact not_stuck_of_state (by simp [startTimer])
  | lost => exact fun hstuck => Bool.false_ne_true hstuck.1
  | lossClosed => exact not_stuck_of_state (by simp [closing, startTimer])
  | retried hon ht => exact not_stuck_of_state (by simp [ht])
  | expired => exact not_stuck_of_state (by simp [closing, startTimer])

theorem TimedOut.of_badNumDue {o : Option PbAdvDev} (h : TimedOut w s o) (hdue : BadNumDue s) :
    ∃ d n, d.state = s.dev.state ∧ o = some (waiting (acked w s) d n) := by
  obtain ⟨hon, hstate, htype, hnum⟩ := hdue
  cases h with
  | badNum _ _ _ _ d n hd => exact ⟨d, n, hd, rfl⟩
  | off h => simp [h] at hon
  | processed _ _ _ h => simp [h] at hnum
  | sent _ _ h => simp [h] at htype
  | lost _ h | lossClosed _ h | retried _ h | deleted _ h | expired _ h => simp [h] at hstate

theorem Stepped.not_stuck (h : Stepped cfg w s e (some t)) (hs : ¬ Stuck s)
    (hcond : NumberAnswered (some s) (e, w)) : ¬ Stuck t := by
  cases h with
  | discarded => exact hs
  | received hp h => exact h.not_stuck hs
  | called h => exact h.not_stuck hs
  | timedOut hfree h => exact h.not_stuck hs hcond

theorem NumberAnswered.not_stuck (o : Option PbAdvDev) (e : SessionEvent × World)
    (o' : Option PbAdvDev) (h : OfSession (¬ Stuck ·) o) (hcond : NumberAnswered o e)
    (hnext : sessionNext cfg o e = .ok o') : OfSession (¬ Stuck ·) o' := by
  cases o with
  | none =>
    cases hnext
    trivial
  | some s =>
    cases o' with
    | none => trivial
    | some t => exact (stepped_of_ok hnext).not_stuck h hcond

theorem not_assertFailed (o : Option PbAdvDev) (e : SessionEvent × World)
    (h : OfSession (¬ Stuck ·) o) : sessionNext cfg o e ≠ .error .assertFailed := by
  cases o with
  | none => simp [sessionNext]
  | some s =>
    obtain ⟨e, w⟩ := e
    rcases sessionNext_cases cfg w s e with ⟨he, -⟩ | ⟨-, hstuck, -⟩ | ⟨o', he, -⟩
    · simp [he]
    · exact absurd hstuck h
    · simp [he]

/-- A run whose expiries meet the condition meets no assertion, and an expiry that does not meet
it makes the next one meet it. -/
theorem timer_assertions (cfg : Config) (devUuid : List Byte) (role : Role) :
    (∀ es, RunAll (sessionNext cfg) NumberAnswered (some (clearedSession devUuid role)) es →
      run (sessionNext cfg) (some (clearedSession devUuid role)) es ≠ .error .assertFailed) ∧
    ∀ s w, ¬ NumberAnswered (some s) (.timeout, w) →
      ∃ t, sessionNext cfg (some s) (.timeout, w) = .ok (some t) ∧
        ∀ w', sessionNext cfg (some t) (.timeout, w') = .error .assertFailed := by
  refine ⟨fun es hall => ?_, fun s w hcond => ?_⟩
  · have hstart : OfSession (¬ Stuck ·) (some (clearedSession devUuid role)) :=
      fun hstuck => Bool.false_ne_true hstuck.1
    exact hall.no_fault NumberAnswered.not_stuck (fun o e h _ => not_assertFailed o e h) hstart
  · unfold NumberAnswered at hcond
    rw [Classical.not_imp] at hcond
    obtain ⟨hdue, hout⟩ := hcond
    have hfree : ¬ Stuck s := not_stuck_of_type (by simp [hdue.2.2.1])
    rcases sessionNext_cases cfg w s .timeout with ⟨-, pdata, he, -⟩ | ⟨-, hstuck, -⟩ | ⟨o, he, h⟩
    · cases he
    · exact absurd hstuck hfree
    · obtain ⟨d, n, hstate, rfl⟩ : ∃ d n, d.state = s.dev.state ∧
          o = some (waiting (acked w s) d n) := by
        cases h with
        | timedOut _ h => exact h.of_badNumDue hdue
      refine ⟨_, he, fun w' => stuck_timeout ⟨rfl, rfl, rfl, fun hin => hout ?_⟩⟩
      rw [← hstate]
      exact hin

/-- A start with number 0x80, which is for packets of the device itself. -/
def badNumber : List (SessionEvent × World) :=
  [(.recv (linkOpenPkt 7 (List.replicate 16 1)), plainWorld),
    (.recv (segPkt 7 0x80 [0] 0), plainWorld), (.timeout, plainWorld)]

/-- The first expiry answers it and the second one meets the assertion. -/
theorem badNumber_asserts :
    run (sessionNext plainConfig) (some (clearedSession (List.replicate 16 1) .device))
      (badNumber ++ [(.timeout, plainWorld)]) = .error .assertFailed := rfl

theorem timer_assertions_example :
    run (sessionNext plainConfig) (some (clearedSession (List.replicate 16 1) .device))
      [(.recv (linkOpenPkt 7 (List.replicate 16 1)), plainWorld),
        (.recv (segPkt 7 0 [0, 5] 0), plainWorld), (.timeout, plainWorld),
        (.call (.capabilites ⟨1, 1, 0, 0, 0, 0, 0, 0⟩), plainWorld), (.timeout, plainWorld)] ≠
      .error .assertFailed :=
  (timer_assertions plainConfig (List.replicate 16 1) .device).1 _ (by decide +kernel)

end Meshx.PbAdv
