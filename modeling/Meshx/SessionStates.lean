import Meshx.TransBounds

/-! The order of the states: a session goes back only when it is being closed and reports a
failure. -/
namespace Meshx.Prov

open Lib

variable {env : ProvEnv} {dev : ProvDev} {type : ProvType} {last : ProvState} {len : Byte}
  {act : Errno × ProvDev} {pdata : List Byte} {mallocOk : Bool}

theorem failed_closing (h : dev.state = .linkClosing) (code : Byte) :
    (failed dev code).2.state = .failed := by
  rcases @failed_state dev code with ⟨-, -, hs⟩ | ⟨hr, -⟩
  · exact hs
  · exact absurd (h ▸ ⟨by decide, by decide, by decide⟩) hr

theorem process_closing (h : dev.state = .linkClosing) (hlast : last < .linkClosing) :
    (process dev type last len act).2.state = .failed := by
  unfold process
  split_ifs with hlen hstate
  · exact failed_closing h _
  · exact failed_closing h _
  · exact absurd (h ▸ hlast) hstate

/-- Every PDU fails a session that is being closed, but for a failure report too short. -/
theorem pduProcess_closing (h : dev.state = .linkClosing)
    (hpdu : ¬ (ProvType.ofByte (byteAt pdata 0) = some .failed ∧ len.toNat < 2)) :
    (pduProcess env dev pdata len mallocOk).2.state = .failed := by
  unfold pduProcess
  cases ht : ProvType.ofByte (byteAt pdata 0) with
  | none => exact failed_closing h _
  | some type =>
    cases type with
    | failed =>
      have hlen : ¬ len.toNat < 1 + ProvType.failed.size := fun hlt => hpdu ⟨ht, hlt⟩
      dsimp only
      rw [if_neg hlen]
    | _ =>
      refine process_closing h ?_
      decide

theorem pduProcess_short
    (hpdu : ProvType.ofByte (byteAt pdata 0) = some .failed ∧ len.toNat < 2) :
    (pduProcess env dev pdata len mallocOk).2 = dev := by
  unfold pduProcess
  rw [hpdu.1]
  exact congrArg Prod.snd (if_pos hpdu.2)

theorem le_linkClosing (state : ProvState) : state ≤ .linkClosing := by
  cases state <;> decide

end Meshx.Prov

namespace Meshx.PbAdv

open Lib Prov

section Steps

variable {cfg : Config} {w : World} {s t : PbAdvDev} {e : SessionEvent}

/-- The delay is over for the ack of a transaction that is processed. -/
def ProcessDue (s : PbAdvDev) : Prop :=
  s.timerOn = true ∧ s.timerState = .delay ∧ s.timerDelayType = .transAck ∧
    peerTransNum s.dev.role s.rxTransNum = true

instance (s : PbAdvDev) : Decidable (ProcessDue s) := inferInstanceAs (Decidable (_ ∧ _))

/-- The reassembled PDU is a failure report that is too short. -/
def ShortFailed (s : PbAdvDev) : Prop :=
  ProvType.ofByte (byteAt s.provRxPdu 0) = some .failed ∧
    (BitVec.ofNat 8 s.transDataLen).toNat < 2

instance (s : PbAdvDev) : Decidable (ShortFailed s) := inferInstanceAs (Decidable (_ ∧ _))

/-- The event has a session that is being closed report a failure. -/
def Reopens (s : PbAdvDev) : SessionEvent → Prop
  | .call c => s.dev.state = .linkClosing ∧ c.isFailed = true
  | .timeout => s.dev.state = .linkClosing ∧ ProcessDue s ∧ ¬ ShortFailed s
  | .recv _ => False

instance (s : PbAdvDev) (e : SessionEvent) : Decidable (Reopens s e) :=
  match e with
  | .call _ | .timeout => inferInstanceAs (Decidable (_ ∧ _))
  | .recv _ => isFalse id

/-- The expiry that processes the reassembled PDU. -/
theorem timeout_processDue (h : ProcessDue s) :
    sessionNext cfg (some s) (.timeout, w) =
      .ok (some (process cfg w (acked w s) s.transDataLen)) := by
  obtain ⟨hon, hstate, htype, hnum⟩ := h
  have hack : handleTransAck cfg w s = (process cfg w (acked w s) s.transDataLen,
      send w.accepts (transAckPkt s.linkId s.rxTransNum) ++
        [.pduProcess s.rxTransNum s.provRxPdu s.transDataLen]) := if_pos hnum
  simp only [sessionNext, sessionStep, handleTimeout, hon, hstate, if_true, handleDelay, htype,
    hack]
  rfl

theorem process_dev (len : ℕ) : (process cfg w s len).dev =
    (pduProcess cfg.prov s.dev s.provRxPdu (BitVec.ofNat 8 len) w.mallocOk).2 := by
  unfold process
  dsimp only
  cases answer cfg.prov s.dev s.provRxPdu (BitVec.ofNat 8 len) w.mallocOk with
  | none => rfl
  | some type =>
    obtain ⟨n, hn⟩ := pbAdvSend_eq s
      (pduProcess cfg.prov s.dev s.provRxPdu (BitVec.ofNat 8 len) w.mallocOk).2 type
    dsimp only
    rw [hn]
    rfl

theorem acked_dev (w : World) (s : PbAdvDev) : (acked w s).dev = s.dev := by
  unfold acked
  dsimp only
  split_ifs <;> rfl

theorem acked_provRxPdu (w : World) (s : PbAdvDev) : (acked w s).provRxPdu = s.provRxPdu :=
  congrArg Reassembly.provRxPdu (acked_reassembly w s)

theorem Reopens.call {c : Call} (h : Reopens s (.call c)) (accepts : List Byte → Bool) :
    (call cfg accepts s c).1.dev.state < s.dev.state := by
  obtain ⟨hclosing, hfailed⟩ := h
  have hsends : Sends s.dev.state c := by
    cases c with
    | failed code => exact hclosing ▸ ⟨by decide, by decide, by decide⟩
    | _ => cases hfailed
  have hcalled := call_cases cfg accepts s c
  generalize (PbAdv.call cfg accepts s c).1 = t at hcalled ⊢
  cases hcalled with
  | kept hc | opened hc | closed hc => exact absurd hsends hc
  | sent hc d n h₁ h₂ hlast hle =>
    rw [hclosing]
    exact h₂.trans_lt (by decide)

theorem Reopens.next (h : Reopens s e) : ∃ t,
    sessionNext cfg (some s) (e, w) = .ok (some t) ∧ t.dev.state < s.dev.state := by
  cases e with
  | recv pdata => exact h.elim
  | call c => exact ⟨_, rfl, h.call w.accepts⟩
  | timeout =>
    obtain ⟨hclosing, hdue, hpdu⟩ := h
    refine ⟨_, timeout_processDue hdue, ?_⟩
    rw [process_dev, acked_dev, acked_provRxPdu, pduProcess_closing hclosing hpdu, hclosing]
    decide

theorem sends_closing {c : Call} (h : Sends .linkClosing c) : c.isFailed = true := by
  cases c with
  | failed code => rfl
  | setup | linkOpen | linkClose | makeKey | setRemotePublicKey | setAuthValue | generateRandom
  | generateConfirmation => exact h.elim
  | _ => exact absurd h.2 (by decide)

theorem Called.forward {c : Call} (h : Called s c t) (hno : ¬ Reopens s (.call c)) :
    s.dev.state ≤ t.dev.state := by
  cases h with
  | kept hc d hd => exact hd.ge
  | opened hc hidle => exact hidle ▸ Nat.zero_le _
  | closed => exact le_linkClosing _
  | sent hc d n h₁ h₂ hlast hle =>
    rcases hle with hle | ⟨hclosing, -⟩
    · exact hle
    · exact absurd ⟨hclosing, sends_closing (hclosing ▸ hc)⟩ hno

/-- In an opened link the calls of the application leave the link opened. -/
theorem Called.linkOpened_le {c : Call} (h : Called s c t) (ho : .linkOpened ≤ s.dev.state) :
    .linkOpened ≤ t.dev.state := by
  cases h with
  | kept hc d hd => exact hd ▸ ho
  | opened hc hidle => exact absurd (hidle ▸ ho) (by decide)
  | closed => exact le_linkClosing _
  | sent hc d n h₁ h₂ hlast hle => exact h₁.trans' (by decide)

theorem calls_linkOpened_le (ho : .linkOpened ≤ s.dev.state) (accepts : List Byte → Bool)
    (cs : List Call) : .linkOpened ≤ (calls cfg accepts s cs).1.dev.state :=
  calls_invariant (P := fun s => .linkOpened ≤ s.dev.state) (fun _ _ _ ho h => h.linkOpened_le ho)
    accepts cs ho

theorem Filled.dev (h : Filled s t) : t.dev = s.dev := by
  cases h <;> rfl

theorem Received.forward {pkt : Pkt} (h : Received cfg w s pkt (some t)) :
    s.dev.state ≤ t.dev.state := by
  cases h with
  | restored linkId devUuid ho d hd => exact hd.ge
  | unacked linkId devUuid hle d hd => exact hle.trans hd.ge
  | accepted linkId devUuid hle d hd =>
    have ho : .linkOpened ≤ (accepting s d linkId).dev.state := hd.ge
    exact (hle.trans (by decide)).trans (calls_linkOpened_le ho w.accepts w.onOpened)
  | established linkId hle => exact hle
  | ended => exact le_linkClosing _
  | started linkId fcs pdu hstarts hlen hin t ht => exact ht.dev ▸ le_rfl
  | continued linkId pdu hcont hlen hin t ht => exact ht.dev ▸ le_rfl
  | _ => exact le_rfl

theorem TimedOut.forward (h : TimedOut w s (some t))
    (hno : s.dev.state = .linkClosing → ¬ ProcessDue s) : s.dev.state ≤ t.dev.state := by
  cases h with
  | processed hon ht hd hnum s' hs' =>
    have hle : s.dev.state ≤ .failed := by
      by_contra hlt
      exact hno (lt_linkClosing.mp (not_le.mp hlt)) ⟨hon, ht, hd, hnum⟩
    have hmoved {d : ProvDev} {answer : Option ProvType}
        (h : Processed (acked w s).dev.state d.state answer) : s.dev.state ≤ d.state := by
      rw [acked_dev] at h
      cases h with
      | kept hd => exact hd.ge
      | moved hle' => exact hle'
      | failed hd => exact hle.trans hd.ge
      | refused hr hd => exact hle.trans hd.ge
    cases hs' with
    | quiet d hd => exact hmoved hd
    | answered d n type hd => exact hmoved hd
  | badNum hon ht hd hbad d n hstate => exact hstate.ge
  | lossClosed | expired => exact le_linkClosing _
  | _ => exact le_rfl

/-- The step does not go back unless it reopens the session. -/
theorem sessionNext_forward (h : sessionNext cfg (some s) (e, w) = .ok (some t))
    (hno : ¬ Reopens s e) : s.dev.state ≤ t.dev.state := by
  cases stepped_of_ok h with
  | discarded => exact le_rfl
  | received hp hreceived => exact hreceived.forward
  | called hcalled => exact hcalled.forward hno
  | timedOut hfree htimed =>
    by_cases hshort : ProcessDue s ∧ ShortFailed s
    · obtain rfl : process cfg w (acked w s) s.transDataLen = t :=
        Option.some.inj (Except.ok.inj ((timeout_processDue hshort.1).symm.trans h))
      rw [process_dev, acked_dev, acked_provRxPdu, pduProcess_short hshort.2]
    · exact htimed.forward fun hclosing hdue =>
        hno ⟨hclosing, hdue, fun hs => hshort ⟨hdue, hs⟩⟩

end Steps

section Runs

variable {cfg : Config} {w : World} {s t : PbAdvDev} {accepts : List Byte → Bool}

/-- The session in which the application is notified that a device has opened its link. -/
def notified (cfg : Config) (w : World) (s : PbAdvDev) (pdata : List Byte) : Option PbAdvDev :=
  match parse pdata with
  | .ok (.linkOpen linkId devUuid) =>
    if takesOpen cfg s devUuid ∧ s.dev.state ≤ .linkOpening ∧
        w.accepts (linkAckPkt linkId) = true then
      some (accepting s { setupDevice cfg.prov s.dev .device w.keyPair w.random with
        state := .linkOpened } linkId)
    else none
  | _ => none

/-- The states that a sequence of calls goes through. -/
def callStates (cfg : Config) (accepts : List Byte → Bool) : PbAdvDev → List Call → List ProvState
  | s, [] => [s.dev.state]
  | s, c :: cs => s.dev.state :: callStates cfg accepts (call cfg accepts s c).1 cs

/-- The state that the session ends the step in, if it has one. -/
def endState (cfg : Config) (s : PbAdvDev) (e : SessionEvent × World) : List ProvState :=
  match sessionNext cfg (some s) e with
  | .ok (some t) => [t.dev.state]
  | _ => []

/-- The states that the session goes through in a step, with those of the calls that the
application makes when it is notified. -/
def stepStates (cfg : Config) (s : PbAdvDev) : SessionEvent × World → List ProvState
  | (.recv pdata, w) =>
    match notified cfg w s pdata with
    | some u =>
      s.dev.state :: callStates cfg w.accepts u w.onOpened ++ endState cfg s (.recv pdata, w)
    | none => s.dev.state :: endState cfg s (.recv pdata, w)
  | e => s.dev.state :: endState cfg s e

/-- The states of the step do not decrease. -/
def InOrder (cfg : Config) : Option PbAdvDev → SessionEvent × World → Prop
  | some s, e => (stepStates cfg s e).IsChain (· ≤ ·)
  | none, _ => True

/-- None of the calls reopens the session. -/
def CallsForward (cfg : Config) (accepts : List Byte → Bool) : PbAdvDev → List Call → Prop
  | _, [] => True
  | s, c :: cs => ¬ Reopens s (.call c) ∧ CallsForward cfg accepts (call cfg accepts s c).1 cs

def NotifiedForward (cfg : Config) (w : World) : Option PbAdvDev → Prop
  | some u => CallsForward cfg w.accepts u w.onOpened
  | none => True

/-- Neither the event reopens the session nor a call of the notification. -/
def StaysClosing (cfg : Config) : Option PbAdvDev → SessionEvent × World → Prop
  | some s, (.recv pdata, w) => NotifiedForward cfg w (notified cfg w s pdata)
  | some s, (e, _) => ¬ Reopens s e
  | none, _ => True

instance CallsForward.decidable (cfg : Config) (accepts : List Byte → Bool) :
    ∀ (s : PbAdvDev) (cs : List Call), Decidable (CallsForward cfg accepts s cs)
  | _, [] => isTrue trivial
  | s, c :: cs =>
    have := CallsForward.decidable cfg accepts (call cfg accepts s c).1 cs
    inferInstanceAs (Decidable (_ ∧ _))

instance (o : Option PbAdvDev) : Decidable (NotifiedForward cfg w o) :=
  match o with
  | some u => inferInstanceAs (Decidable (CallsForward cfg w.accepts u w.onOpened))
  | none => isTrue trivial

instance (o : Option PbAdvDev) (e : SessionEvent × World) : Decidable (StaysClosing cfg o e) :=
  match o, e with
  | some s, (.recv pdata, w) =>
    inferInstanceAs (Decidable (NotifiedForward cfg w (notified cfg w s pdata)))
  | some _, (.call _, _) | some _, (.timeout, _) => inferInstanceAs (Decidable (¬ _))
  | none, _ => isTrue trivial

theorem recvLinkOpen_accepted {linkId : BitVec 32} (hle : s.dev.state ≤ .linkOpening)
    (hack : w.accepts (linkAckPkt linkId) = true) :
    (recvLinkOpen cfg w s linkId).dev = some (startTimer (calls cfg w.accepts
      (accepting s { setupDevice cfg.prov s.dev .device w.keyPair w.random with
        state := .linkOpened } linkId) w.onOpened).1 .linkMonitor) := by
  have hstate : (setupDevice cfg.prov s.dev .device w.keyPair w.random).state = s.dev.state := rfl
  have hlt : s.dev.state < .linkOpened := hle.trans_lt (by decide)
  unfold recvLinkOpen
  dsimp only
  rw [hstate, if_neg fun h => hlt.ne h.1, if_neg hlt.ne, if_neg hlt.le.not_gt, if_pos hack]
  rfl

theorem notified_next {pdata : List Byte} {u : PbAdvDev} (h : notified cfg w s pdata = some u) :
    s.dev.state ≤ u.dev.state ∧ sessionNext cfg (some s) (.recv pdata, w) =
      .ok (some (startTimer (calls cfg w.accepts u w.onOpened).1 .linkMonitor)) := by
  unfold notified at h
  cases hp : parse pdata with
  | error ret => simp [hp] at h
  | ok pkt =>
    rw [hp] at h
    cases pkt with
    | linkOpen linkId devUuid =>
      dsimp only at h
      by_cases hopen : takesOpen cfg s devUuid ∧ s.dev.state ≤ .linkOpening ∧
          w.accepts (linkAckPkt linkId) = true
      · obtain ⟨htakes, hle, hack⟩ := hopen
        rw [if_pos ⟨htakes, hle, hack⟩] at h
        obtain rfl := Option.some.inj h
        have hopened : ProvState.linkOpening ≤ .linkOpened := by decide
        refine ⟨hle.trans hopened, ?_⟩
        have hrecv : recv cfg s w pdata = .ok (recvLinkOpen cfg w s linkId) := by
          rw [recv, hp]
          exact if_pos htakes
        have hnext : sessionNext cfg (some s) (.recv pdata, w) =
            ((recv cfg s w pdata).map fun out => (out.dev, out.acts)).map (·.1) := rfl
        rw [hnext, hrecv]
        exact congrArg Except.ok (recvLinkOpen_accepted hle hack)
      · rw [if_neg hopen] at h
        cases h
    | _ => cases h

theorem callStates_head (s : PbAdvDev) (cs : List Call) :
    (callStates cfg accepts s cs).head? = some s.dev.state := by
  cases cs <;> rfl

theorem callStates_getLast (s : PbAdvDev) (cs : List Call) :
    (callStates cfg accepts s cs).getLast? = some (calls cfg accepts s cs).1.dev.state := by
  induction cs generalizing s with
  | nil => rfl
  | cons c cs ih =>
    rw [callStates, List.getLast?_cons, ih]
    rfl

theorem callStates_chain (s : PbAdvDev) (cs : List Call) :
    (callStates cfg accepts s cs).IsChain (· ≤ ·) ↔ CallsForward cfg accepts s cs := by
  induction cs generalizing s with
  | nil => simp [callStates, CallsForward]
  | cons c cs ih =>
    rw [callStates, CallsForward, List.isChain_cons, callStates_head, ih]
    refine and_congr_left fun _ => ?_
    simp only [Option.mem_def, Option.some.injEq, forall_eq']
    constructor
    · exact fun hle h => absurd (h.call accepts) (not_lt.mpr hle)
    · exact (call_cases cfg accepts s c).forward

theorem endState_chain (s : PbAdvDev) (e : SessionEvent) (w : World) :
    (s.dev.state :: endState cfg s (e, w)).IsChain (· ≤ ·) ↔ ¬ Reopens s e := by
  unfold endState
  constructor
  · intro hchain h
    obtain ⟨t, ht, hlt⟩ := @Reopens.next cfg w s e h
    rw [ht] at hchain
    have hle : s.dev.state ≤ t.dev.state := by simpa using hchain
    exact absurd hlt (not_lt.mpr hle)
  · intro hno
    split
    case h_1 t ht =>
      have hle := sessionNext_forward ht hno
      simpa using hle
    case h_2 => simp

theorem inOrder_iff (o : Option PbAdvDev) (e : SessionEvent × World) :
    InOrder cfg o e ↔ StaysClosing cfg o e := by
  cases o with
  | none => exact Iff.rfl
  | some s =>
    obtain ⟨e, w⟩ := e
    cases e with
    | call c => exact endState_chain s (.call c) w
    | timeout => exact endState_chain s .timeout w
    | recv pdata =>
      have hrecv := @endState_chain cfg s (.recv pdata) w
      simp only [InOrder, stepStates, StaysClosing]
      cases hn : notified cfg w s pdata with
      | none => exact hrecv.trans ⟨fun _ => trivial, fun _ => id⟩
      | some u =>
        obtain ⟨hle, hnext⟩ := notified_next hn
        have hend : endState cfg s (.recv pdata, w) =
            [(calls cfg w.accepts u w.onOpened).1.dev.state] := by
          rw [endState, hnext]
          rfl
        dsimp only
        rw [List.cons_append, List.isChain_cons, List.isChain_append, callStates_chain, hend,
          callStates_getLast]
        constructor
        · exact fun h => h.2.1
        · intro h
          refine ⟨fun y hy => ?_, h, List.isChain_singleton _, fun x hx y hy => ?_⟩
          · rw [List.head?_append, callStates_head] at hy
            obtain rfl := Option.some.inj hy
            exact hle
          · obtain rfl := Option.some.inj hx
            obtain rfl := Option.some.inj hy
            exact le_rfl

/-- The states of a session never decrease exactly when nothing makes a session that is being
closed report a failure; a session that is being closed then stays so until it is deleted. -/
theorem session_order (cfg : Config) (devUuid : List Byte) (role : Role) :
    (∀ es, RunAll (sessionNext cfg) (InOrder cfg) (some (clearedSession devUuid role)) es ↔
      RunAll (sessionNext cfg) (StaysClosing cfg) (some (clearedSession devUuid role)) es) ∧
    ∀ es es' s t,
      RunAll (sessionNext cfg) (StaysClosing cfg) (some (clearedSession devUuid role))
        (es ++ es') →
      run (sessionNext cfg) (some (clearedSession devUuid role)) es = .ok (some s) →
      run (sessionNext cfg) (some s) es' = .ok (some t) →
      s.dev.state ≤ t.dev.state ∧ (s.dev.state = .linkClosing → t.dev.state = .linkClosing) := by
  refine ⟨fun es => RunAll.congr inOrder_iff, fun es es' s t hall hrun hrun' => ?_⟩
  have hle : OfSession (fun t => s.dev.state ≤ t.dev.state) (some t) := by
    refine (hall.after hrun).invariant (fun o e o' h hcond hnext => ?_) le_rfl hrun'
    cases o with
    | none =>
      cases hnext
      trivial
    | some u =>
      cases o' with
      | none => trivial
      | some v =>
        refine le_trans h (sessionNext_forward (e := e.1) (w := e.2) hnext fun hreopens => ?_)
        obtain ⟨e, w⟩ := e
        cases e with
        | recv pdata => exact hreopens
        | call c => exact hcond hreopens
        | timeout => exact hcond hreopens
  exact ⟨hle, fun hclosing => le_antisymm (le_linkClosing _) (hclosing ▸ hle)⟩

/-- The application closes a link and reports a failure. -/
def closedFailed : List (SessionEvent × World) :=
  [(.recv (linkOpenPkt 7 (List.replicate 16 1)), plainWorld), (.call (.linkClose 0), plainWorld)]

theorem closedFailed_reopens : ∃ s t,
    run (sessionNext plainConfig) (some (clearedSession (List.replicate 16 1) .device))
      closedFailed = .ok (some s) ∧
    s.dev.state = .linkClosing ∧
    sessionNext plainConfig (some s) (.call (.failed 3), plainWorld) = .ok (some t) ∧
    t.dev.state = .failed :=
  ⟨_, _, rfl, rfl, rfl, rfl⟩

theorem session_order_closedFailed :
    RunAll (sessionNext plainConfig) (InOrder plainConfig)
      (some (clearedSession (List.replicate 16 1) .device)) closedFailed ∧
    ∃ s t,
      run (sessionNext plainConfig) (some (clearedSession (List.replicate 16 1) .device))
        closedFailed = .ok (some s) ∧
      run (sessionNext plainConfig) (some s) [(.timeout, plainWorld)] = .ok (some t) ∧
      s.dev.state ≤ t.dev.state ∧ (s.dev.state = .linkClosing → t.dev.state = .linkClosing) := by
  obtain ⟨hiff, horder⟩ := session_order plainConfig (List.replicate 16 1) .device
  exact ⟨(hiff closedFailed).mpr (by decide +kernel),
    _, _, rfl, rfl, horder closedFailed [(.timeout, plainWorld)] _ _ (by decide +kernel) rfl rfl⟩

end Runs

end Meshx.PbAdv
