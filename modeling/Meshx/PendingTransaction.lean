import Meshx.SessionStates

/-! A transaction that has been received completely and not been processed yet keeps the timer
waiting for its ack, unless something else is given to the one timer of the session. -/
namespace Meshx.PbAdv

open Lib Prov

section Steps

variable {cfg : Config} {w : World} {s t : PbAdvDev} {e : SessionEvent}

/-- All segments of a transaction have arrived and it has not been processed. -/
def Pending (s : PbAdvDev) : Prop :=
  .linkOpened ≤ s.dev.state ∧ s.dev.state < .failed ∧ 0 < s.transDataLen ∧ s.recvSeg = 0

instance (s : PbAdvDev) : Decidable (Pending s) := inferInstanceAs (Decidable (_ ∧ _))

/-- The next expiry acks and processes the transaction. -/
def AckDue (s : PbAdvDev) : Prop :=
  s.timerOn = true ∧ s.timerState = .delay ∧ s.timerDelayType = .transAck

instance (s : PbAdvDev) : Decidable (AckDue s) := inferInstanceAs (Decidable (_ ∧ _))

/-- The packet gives the timer to the monitoring of the link. -/
def MonitorsLink (s : PbAdvDev) : Pkt → Prop
  | .linkAck _ => s.dev.state = .linkOpened
  | .transAck _ transNum => s.txTransNum = transNum ∧ s.dev.state ≠ .complete
  | _ => False

instance (s : PbAdvDev) (pkt : Pkt) : Decidable (MonitorsLink s pkt) :=
  match pkt with
  | .linkAck _ => inferInstanceAs (Decidable (_ = _))
  | .transAck _ _ => inferInstanceAs (Decidable (_ ∧ _))
  | .transStart .. | .transContinue .. | .linkOpen .. | .linkClose .. => isFalse id

/-- The event gives the timer to something else. -/
def Disturbs (s : PbAdvDev) : SessionEvent → Prop
  | .recv pdata => ∃ pkt, parse pdata = .ok pkt ∧ MonitorsLink s pkt
  | .call c => Sends s.dev.state c ∧ c.isFailed = false
  | .timeout => False

instance (s : PbAdvDev) (e : SessionEvent) : Decidable (Disturbs s e) :=
  match e with
  | .recv pdata =>
    match hp : parse pdata with
    | .ok pkt => decidable_of_iff (MonitorsLink s pkt)
        ⟨fun h => ⟨pkt, hp, h⟩, fun ⟨_, hp', h⟩ => Except.ok.inj (hp.symm.trans hp') ▸ h⟩
    | .error _ => isFalse fun ⟨_, hp', _⟩ => by simp [hp] at hp'
  | .call _ => inferInstanceAs (Decidable (_ ∧ _))
  | .timeout => isFalse id

/-- No transaction is received before the link is opened, and a pending one has the timer. -/
structure Timed (s : PbAdvDev) : Prop where
  early : s.dev.state ≤ .linkOpening → s.transDataLen = 0
  due : Pending s → AckDue s

theorem clearedSession_timed (devUuid : List Byte) (role : Role) :
    Timed (clearedSession devUuid role) where
  early _ := rfl
  due h := absurd h.2.2.1 (Nat.lt_irrefl 0)

theorem Timed.of_same (h : Timed s) (hdev : t.dev.state = s.dev.state)
    (hlen : t.transDataLen = s.transDataLen) (hseg : t.recvSeg = s.recvSeg)
    (hdue : AckDue s → Pending t → AckDue t) : Timed t where
  early hle := hlen.trans (h.early (hdev ▸ hle))
  due hp := by
    have hs : Pending s := by
      unfold Pending at hp ⊢
      rwa [hdev, hlen, hseg] at hp
    exact hdue (h.due hs) hp

theorem Timed.of_closing (h : t.dev.state = .linkClosing) : Timed t where
  early hle := absurd (h ▸ hle) (by decide)
  due hp := absurd (h ▸ hp.2.1) (by decide)

theorem Timed.of_cleared (h : t.transDataLen = 0) : Timed t where
  early _ := h
  due hp := absurd hp.2.2.1 (h ▸ Nat.lt_irrefl 0)

theorem range_le {first last state : ProvState} (h : first ≤ state ∧ state ≤ last)
    (h₁ : .linkOpened ≤ first) (h₂ : last < .failed) : .linkOpened ≤ state ∧ state < .failed :=
  ⟨h₁.trans h.1, h.2.trans_lt h₂⟩

theorem range_lt {first last state : ProvState} (h : first ≤ state ∧ state < last)
    (h₁ : .linkOpened ≤ first) (h₂ : last < .failed) : .linkOpened ≤ state ∧ state < .failed :=
  range_le ⟨h.1, h.2.le⟩ h₁ h₂

theorem sends_range {state : ProvState} {c : Call} (h : Sends state c)
    (hf : c.isFailed = false) : .linkOpened ≤ state ∧ state < .failed := by
  cases c with
  | failed code => cases hf
  | setup | linkOpen | linkClose | makeKey | setRemotePublicKey | setAuthValue | generateRandom
  | generateConfirmation => exact h.elim
  | invite | capabilites | start | data | complete => exact range_lt h (by decide) (by decide)
  | publicKey | inputComplete | confirmation | random => exact range_le h (by decide) (by decide)

theorem Called.timed {c : Call} (h : Called s c t) (hs : Timed s)
    (hcond : Pending s → ¬ Disturbs s (.call c)) : Timed t := by
  cases h with
  | kept hc d hd => exact hs.of_same hd rfl rfl fun hdue _ => hdue
  | opened hc hidle =>
    exact .of_cleared (hs.early (hidle ▸ by decide))
  | closed => exact .of_closing rfl
  | sent hc d n h₁ h₂ hlast hle =>
    refine ⟨fun hle => absurd (h₁.trans hle) (by decide), fun hp => ?_⟩
    have hf : c.isFailed = false := by
      by_contra hne
      have hfailed := hlast.mpr (Bool.eq_true_of_not_eq_false hne)
      exact absurd hfailed hp.2.1.ne
    have hrange := sends_range hc hf
    exact absurd ⟨hc, hf⟩ (hcond ⟨hrange.1, hrange.2, hp.2.2.1, hp.2.2.2⟩)

theorem Filled.timed (h : Filled s t) (ho : .linkOpened ≤ s.dev.state) : Timed t := by
  have hearly : t.dev.state ≤ .linkOpening → t.transDataLen = 0 := fun hle =>
    absurd ((h.dev ▸ ho).trans hle) (by decide)
  refine ⟨hearly, fun hp => ?_⟩
  cases h with
  | waits hseg => exact absurd hp.2.2.2 hseg
  | ignored hseg hfailed => exact absurd hfailed hp.2.1.ne
  | dropped => exact absurd hp.2.2.1 (Nat.lt_irrefl 0)
  | acking => exact ⟨rfl, rfl, rfl⟩

theorem Received.timed {pkt : Pkt} {pdata : List Byte} (hp : parse pdata = .ok pkt)
    (h : Received cfg w s pkt (some t)) (hs : Timed s)
    (hcond : Pending s → ¬ Disturbs s (.recv pdata)) : Timed t := by
  have hno (hpending : Pending s) : ¬ MonitorsLink s pkt :=
    fun h => hcond hpending ⟨pkt, hp, h⟩
  cases h with
  | kept => exact hs
  | restored linkId devUuid ho d hd => exact hs.of_same hd rfl rfl fun hdue _ => hdue
  | unacked => exact .of_cleared rfl
  | accepted linkId devUuid hle d hd =>
    have hcalls : (calls cfg w.accepts (accepting s d linkId) w.onOpened).1.reassembly =
        (accepting s d linkId).reassembly :=
      calls_invariant (P := fun u => u.reassembly = (accepting s d linkId).reassembly)
        (fun _ _ _ hu hc => hc.reassembly.trans hu) w.accepts w.onOpened rfl
    exact .of_cleared (congrArg Reassembly.transDataLen hcalls)
  | established linkId hle =>
    have hlater : ¬ ProvState.linkOpened ≤ .linkOpening := by decide
    refine ⟨fun hle => absurd hle hlater, fun hp => ?_⟩
    have ho : s.dev.state = .linkOpened := by
      by_contra hne
      have hlt : s.dev.state ≤ .linkOpening := by
        have hlt := lt_of_le_of_ne hle hne
        revert hlt
        cases s.dev.state <;> decide
      exact absurd hp.2.2.1 (hs.early hlt ▸ Nat.lt_irrefl 0)
    exact absurd ho (hno ⟨ho.ge, ho ▸ by decide, hp.2.2⟩)
  | monitored linkId transNum hnum hcomplete hfailed =>
    exact hs.of_same rfl rfl rfl fun hdue hp => absurd ⟨hnum, hcomplete⟩ (hno hp)
  | ended => exact .of_closing rfl
  | begun linkId fcs pdu hstarts hlen =>
    refine ⟨fun hle => absurd (hstarts.opened.trans hle) (by decide), fun hp => ?_⟩
    have hmissing := hstarts.missing
    have hzero : startSegs s _ = 0 := hp.2.2.2
    rw [hzero] at hmissing
    simp at hmissing
  | started linkId fcs pdu hstarts hlen hin t ht => exact ht.timed hstarts.opened
  | continued linkId pdu hcont hlen hin t ht => exact ht.timed hcont.opened

theorem TimedOut.timed (h : TimedOut w s (some t)) (hs : Timed s) : Timed t := by
  have hacked : (acked w s).transDataLen = 0 :=
    congrArg Reassembly.transDataLen (acked_reassembly w s)
  cases h with
  | off => exact hs
  | processed hon ht hd hnum s' hs' =>
    exact .of_cleared ((congrArg Reassembly.transDataLen hs'.reassembly).trans hacked)
  | badNum => exact .of_cleared hacked
  | sent hon ht hd =>
    exact hs.of_same rfl rfl rfl fun hdue _ => absurd (hd.symm.trans hdue.2.2) (by decide)
  | lost hon ht hle => exact .of_cleared (hs.early hle)
  | lossClosed => exact .of_closing rfl
  | retried hon ht =>
    exact hs.of_same rfl rfl rfl fun hdue _ => absurd (ht.symm.trans hdue.2.1) (by decide)
  | expired => exact .of_closing rfl

theorem Stepped.timed (h : Stepped cfg w s e (some t)) (hs : Timed s)
    (hcond : Pending s → ¬ Disturbs s e) : Timed t := by
  cases h with
  | discarded => exact hs
  | received hp h => exact h.timed hp hs hcond
  | called h => exact h.timed hs hcond
  | timedOut hfree h => exact h.timed hs

theorem recvTransAck_monitored {transNum : Byte} (hnum : s.txTransNum = transNum)
    (hcomplete : s.dev.state ≠ .complete) (hfailed : s.dev.state ≠ .failed) :
    (recvTransAck w s transNum).dev = some (monitored s) := by
  have hnotify : notifyTransAck w (monitored s) = (monitored s, []) := by
    have hstate : (monitored s).dev.state = s.dev.state := rfl
    rw [notifyTransAck, hstate, if_neg hcomplete, if_neg hfailed]
  unfold recvTransAck
  rw [if_neg (not_not.mpr hnum)]
  exact congrArg (fun r => some r.1) hnotify

/-- A pending transaction that is disturbed has lost the timer. -/
theorem Disturbs.next (h : Disturbs s e) (hp : Pending s) : ∃ t,
    sessionNext cfg (some s) (e, w) = .ok (some t) ∧ Pending t ∧ ¬ AckDue t := by
  cases e with
  | recv pdata =>
    obtain ⟨pkt, hparse, hpkt⟩ := h
    have hmonitor {t : PbAdvDev} (ht : t.timerState = .linkMonitor) : ¬ AckDue t :=
      fun hdue => absurd (ht.symm.trans hdue.2.1) (by decide)
    cases pkt with
    | linkAck linkId =>
      have ho : s.dev.state = .linkOpened := hpkt
      have hrecv : recv cfg s w pdata = .ok (recvLinkAck s) := by
        rw [recv, hparse]
        rfl
      have hdev : (recvLinkAck s).dev = some (established s) := by
        rw [recvLinkAck, if_neg ho.le.not_gt]
        rfl
      refine ⟨established s, (sessionNext_recv hrecv).trans (congrArg _ hdev), ?_, hmonitor rfl⟩
      have hlater : ProvState.linkOpened < .failed := by decide
      exact ⟨le_rfl, hlater, hp.2.2⟩
    | transAck linkId transNum =>
      obtain ⟨hnum, hcomplete⟩ := hpkt
      have hrecv : recv cfg s w pdata = .ok (recvTransAck w s transNum) := by
        rw [recv, hparse]
        rfl
      have hdev := recvTransAck_monitored (w := w) hnum hcomplete hp.2.1.ne
      exact ⟨monitored s, (sessionNext_recv hrecv).trans (congrArg _ hdev), hp, hmonitor rfl⟩
    | _ => exact hpkt.elim
  | call c =>
    obtain ⟨hsends, hf⟩ := h
    have hcalled := call_cases cfg w.accepts s c
    refine ⟨(call cfg w.accepts s c).1, rfl, ?_⟩
    generalize (call cfg w.accepts s c).1 = t at hcalled ⊢
    cases hcalled with
    | kept hc | opened hc | closed hc => exact absurd hsends hc
    | sent hc d n h₁ h₂ hlast hle =>
      have hne : d.state ≠ .failed := fun he => by simp [hlast.mp he] at hf
      refine ⟨⟨h₁.trans' (by decide), lt_of_le_of_ne h₂ hne, hp.2.2⟩, fun hdue => ?_⟩
      exact absurd hdue.2.2 (by simp [waiting, startDelay])
  | timeout => exact h.elim

/-- The expiry for which the ack is due acks and processes the transaction. -/
theorem timeout_ackDue (h : AckDue s) : sessionStep cfg s w .timeout =
    .ok (some (handleTransAck cfg w s).1, (handleTransAck cfg w s).2) := by
  obtain ⟨hon, hstate, htype⟩ := h
  simp only [sessionStep, handleTimeout, hon, hstate, if_true, handleDelay, htype]
  rfl

end Steps

section Runs

variable {cfg : Config}

/-- In the state that the step leads to a pending transaction has the timer. -/
def KeepsTimer (cfg : Config) (o : Option PbAdvDev) (e : SessionEvent × World) : Prop :=
  ∀ o', sessionNext cfg o e = .ok o' → OfSession (fun s => Pending s → AckDue s) o'

/-- The event does not disturb a pending transaction. -/
def Undisturbed : Option PbAdvDev → SessionEvent × World → Prop
  | some s, (e, _) => Pending s → ¬ Disturbs s e
  | none, _ => True

instance (o : Option PbAdvDev) (e : SessionEvent × World) : Decidable (Undisturbed o e) :=
  match o with
  | some _ => inferInstanceAs (Decidable (_ → _))
  | none => isTrue trivial

theorem Undisturbed.timed (o : Option PbAdvDev) (e : SessionEvent × World)
    (o' : Option PbAdvDev) (h : OfSession Timed o) (hcond : Undisturbed o e)
    (hnext : sessionNext cfg o e = .ok o') : OfSession Timed o' := by
  cases o with
  | none =>
    cases hnext
    trivial
  | some s =>
    cases o' with
    | none => trivial
    | some t => exact (stepped_of_ok hnext).timed h hcond

theorem keepsTimer_iff (o : Option PbAdvDev) (e : SessionEvent × World) (h : OfSession Timed o) :
    KeepsTimer cfg o e ↔ Undisturbed o e := by
  constructor
  · intro hkeeps
    cases o with
    | none => trivial
    | some s =>
      intro hp hdisturbs
      obtain ⟨t, ht, hpt, hdue⟩ := @Disturbs.next cfg e.2 s e.1 hdisturbs hp
      exact hdue (hkeeps (some t) ht hpt)
  · intro hcond o' hnext
    have htimed := hcond.timed o e o' h hnext
    cases o' with
    | none => trivial
    | some t => exact htimed.due

/-- A completely received transaction keeps the timer in every state of a run exactly when no
step disturbs it, and then the next expiry acks and processes it. -/
theorem pending_timed (cfg : Config) (devUuid : List Byte) (role : Role) :
    (∀ es, RunAll (sessionNext cfg) (KeepsTimer cfg) (some (clearedSession devUuid role)) es ↔
      RunAll (sessionNext cfg) Undisturbed (some (clearedSession devUuid role)) es) ∧
    ∀ es s, RunAll (sessionNext cfg) Undisturbed (some (clearedSession devUuid role)) es →
      run (sessionNext cfg) (some (clearedSession devUuid role)) es = .ok (some s) →
      Pending s → AckDue s ∧ ∀ w, sessionStep cfg s w .timeout =
        .ok (some (handleTransAck cfg w s).1, (handleTransAck cfg w s).2) := by
  have hstart : OfSession Timed (some (clearedSession devUuid role)) :=
    clearedSession_timed devUuid role
  refine ⟨fun es => RunAll.iff_of_invariant Undisturbed.timed keepsTimer_iff hstart,
    fun es s hall hrun hp => ?_⟩
  have htimed : OfSession Timed (some s) := hall.invariant Undisturbed.timed hstart hrun
  have hdue := Timed.due htimed hp
  exact ⟨hdue, fun w => timeout_ackDue hdue⟩

/-- The device has answered the invite, its answer has been acked, and it gets the start. -/
def startReceived : List (SessionEvent × World) :=
  [(.recv (linkOpenPkt 7 (List.replicate 16 1)), plainWorld),
    (.recv (segPkt 7 0 [0, 5] 0), plainWorld), (.timeout, plainWorld),
    (.call (.capabilites ⟨1, 1, 0, 0, 0, 0, 0, 0⟩), plainWorld), (.timeout, plainWorld),
    (.recv (transAckPkt 7 0x80), plainWorld), (.recv (segPkt 7 1 [2, 0, 0, 0, 0, 0] 0), plainWorld)]

/-- The same ack once more. -/
theorem startReceived_disturbed : ∃ s t,
    run (sessionNext plainConfig) (some (clearedSession (List.replicate 16 1) .device))
      startReceived = .ok (some s) ∧
    AckDue s ∧
    sessionNext plainConfig (some s) (.recv (transAckPkt 7 0x80), plainWorld) = .ok (some t) ∧
    Pending t ∧ t.timerState = .linkMonitor :=
  ⟨_, _, rfl, by decide +kernel, rfl, by decide +kernel, rfl⟩

theorem pending_timed_startReceived :
    RunAll (sessionNext plainConfig) (KeepsTimer plainConfig)
      (some (clearedSession (List.replicate 16 1) .device)) startReceived ∧
    ∃ s, run (sessionNext plainConfig) (some (clearedSession (List.replicate 16 1) .device))
        startReceived = .ok (some s) ∧ AckDue s := by
  obtain ⟨hiff, hdue⟩ := pending_timed plainConfig (List.replicate 16 1) .device
  have hall : RunAll (sessionNext plainConfig) Undisturbed
      (some (clearedSession (List.replicate 16 1) .device)) startReceived := by decide +kernel
  have hended := hdue startReceived _ hall rfl (by decide +kernel)
  exact ⟨(hiff startReceived).mpr hall, _, rfl, hended.1⟩

end Runs

end Meshx.PbAdv
