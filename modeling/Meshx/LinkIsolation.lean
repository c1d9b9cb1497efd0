import Meshx.RejectedSegments

/-! The node with its list of sessions: every step is a step of one session, and which session
a packet of a link reaches. -/
namespace Meshx.PbAdv

open Lib Prov

section Lists

variable {devs : List PbAdvDev} {linkId : BitVec 32} {p : PbAdvDev → Bool}

theorem setSession_eq_iff (i : Fin devs.length) (o : Option PbAdvDev) :
    setSession devs i o = devs ↔ o = some (devs.get i) := by
  cases o with
  | none =>
    have hlen : (devs.eraseIdx i).length ≠ devs.length := by
      rw [List.length_eraseIdx_of_lt i.isLt]
      have := i.isLt
      omega
    simp only [setSession, reduceCtorEq, iff_false]
    exact fun h => hlen (congrArg List.length h)
  | some s =>
    simp only [setSession, Option.some.injEq]
    constructor
    · intro h
      have hget : (devs.set i s)[i.val]? = devs[i.val]? := by rw [h]
      simpa using hget
    · rintro rfl
      exact List.set_getElem_self i.isLt

end Lists

section Node

variable {cfg : Config} {w : World} {devs devs' : List PbAdvDev}

/-- What happens to a node. Calls and expiries are for the session at a place of the list. -/
inductive NodeEvent
  | receive (pdata : List Byte)
  | createDevice (devUuid : List Byte) (role : Role)
  | call (i : ℕ) (c : Call)
  | timeout (i : ℕ)

/-- A step of the session at a place of the list. -/
def sessionAt (cfg : Config) (w : World) (devs : List PbAdvDev) (i : ℕ) (e : SessionEvent) :
    Except Fault (List PbAdvDev) :=
  match devs[i]? with
  | some s => (sessionStep cfg s w e).map fun (o, _) => setSession devs i o
  | none => .ok devs

def nodeNext (cfg : Config) (devs : List PbAdvDev) : NodeEvent × World →
    Except Fault (List PbAdvDev)
  | (.receive pdata, w) => (receive cfg w devs pdata).map (·.devs)
  | (.createDevice devUuid role, w) => .ok (createDevice cfg w devs devUuid role)
  | (.call i c, w) => sessionAt cfg w devs i (.call c)
  | (.timeout i, w) => sessionAt cfg w devs i .timeout

/-- A session steps, or a cleared session is set up and steps, and takes its place in the list. -/
inductive NodeStepped (cfg : Config) (w : World) (devs : List PbAdvDev) : List PbAdvDev → Prop
  | kept : NodeStepped cfg w devs devs
  | stepped (i : Fin devs.length) (e : SessionEvent) (o : Option PbAdvDev)
      (h : sessionNext cfg (some (devs.get i)) (e, w) = .ok o) :
      NodeStepped cfg w devs (setSession devs i o)
  | created (devUuid : List Byte) (role : Role) (e : SessionEvent) (o : Option PbAdvDev)
      (h : sessionNext cfg (some (clearedSession devUuid role)) (e, w) = .ok o) :
      NodeStepped cfg w devs (devs ++ o.toList)

theorem sessionAt_stepped {i : ℕ} {e : SessionEvent}
    (h : sessionAt cfg w devs i e = .ok devs') : NodeStepped cfg w devs devs' := by
  unfold sessionAt at h
  by_cases hi : i < devs.length
  · rw [List.getElem?_eq_getElem hi] at h
    dsimp only at h
    cases hs : sessionStep cfg devs[i] w e with
    | error f => simp [hs, Except.map] at h
    | ok r =>
      obtain rfl : setSession devs i r.1 = devs' := by simpa [hs, Except.map] using h
      refine .stepped ⟨i, hi⟩ e r.1 ?_
      have hnext : sessionNext cfg (some (devs.get ⟨i, hi⟩)) (e, w) =
          (sessionStep cfg devs[i] w e).map (·.1) := rfl
      rw [hnext, hs]
      rfl
  · rw [List.getElem?_eq_none (not_lt.mp hi)] at h
    cases h
    exact .kept

theorem atSession_ok {i : Fin devs.length} {f : PbAdvDev → Except Fault Out} {out : NodeOut}
    (h : atSession devs i f = .ok out) :
    ∃ o, f (devs.get i) = .ok o ∧ out.devs = setSession devs i o.dev := by
  unfold atSession at h
  cases hf : f (devs.get i) with
  | error e =>
    rw [hf] at h
    cases h
  | ok o =>
    rw [hf] at h
    obtain rfl := Except.ok.inj h
    exact ⟨o, rfl, rfl⟩

theorem recv_of_parse {s : PbAdvDev} {pdata : List Byte} {pkt : Pkt} (hp : parse pdata = .ok pkt)
    (hkind : ∀ linkId devUuid, pkt ≠ .linkOpen linkId devUuid) :
    recv cfg s w pdata = recvPkt cfg w s pkt := by
  rw [recv, hp]
  cases pkt with
  | linkOpen linkId devUuid => exact absurd rfl (hkind linkId devUuid)
  | _ => rfl

theorem receive_of_parse {pdata : List Byte} {pkt : Pkt} (hp : parse pdata = .ok pkt)
    (hkind : ∀ linkId devUuid, pkt ≠ .linkOpen linkId devUuid) :
    receive cfg w devs pdata =
      match findByLinkId devs pkt.linkId with
      | some i => atSession devs i fun s => recvPkt cfg w s pkt
      | none => .ok ⟨pkt.missing, devs, []⟩ := by
  rw [receive, hp]
  cases pkt with
  | linkOpen linkId devUuid => exact absurd rfl (hkind linkId devUuid)
  | _ => rfl

theorem findDevice_some {devUuid : List Byte} {i : Fin devs.length}
    (h : findDevice devs devUuid = some i) : (devs.get i).devUuid = devUuid := by
  induction devs with
  | nil => simp [findDevice] at h
  | cons s rest ih =>
    rw [findDevice] at h
    split_ifs at h with hs
    · obtain rfl := Option.some.inj h
      exact hs
    · obtain ⟨j, hj, rfl⟩ := Option.map_eq_some_iff.mp h
      exact ih hj

theorem findDevice_none {devUuid : List Byte} (h : findDevice devs devUuid = none) :
    ∀ s ∈ devs, s.devUuid ≠ devUuid := by
  induction devs with
  | nil => simp
  | cons s rest ih =>
    rw [findDevice] at h
    by_cases hs : s.devUuid = devUuid
    · rw [if_pos hs] at h
      cases h
    · rw [if_neg hs, Option.map_eq_none_iff] at h
      exact List.forall_mem_cons.mpr ⟨hs, ih h⟩

/-- The sessions after a packet: it is taken by the session of its link, or of the node itself,
which is made if there is none. -/
inductive NodeTakes (cfg : Config) (w : World) (devs : List PbAdvDev) (pdata : List Byte) :
    List PbAdvDev → Prop
  | kept : NodeTakes cfg w devs pdata devs
  | found {pkt : Pkt} (hp : parse pdata = .ok pkt) (i : Fin devs.length)
      (hi : findByLinkId devs pkt.linkId = some i)
      (hkind : ∀ linkId devUuid, pkt ≠ .linkOpen linkId devUuid) (o : Out)
      (h : recvPkt cfg w (devs.get i) pkt = .ok o) :
      NodeTakes cfg w devs pdata (setSession devs i o.dev)
  | opened {linkId : BitVec 32} (hp : parse pdata = .ok (.linkOpen linkId cfg.devUuid))
      (i : Fin devs.length) (huuid : (devs.get i).devUuid = cfg.devUuid) :
      NodeTakes cfg w devs pdata
        (setSession devs i (recvLinkOpen cfg w (devs.get i) linkId).dev)
  | created {linkId : BitVec 32} (hp : parse pdata = .ok (.linkOpen linkId cfg.devUuid))
      (hnew : ∀ s ∈ devs, s.devUuid ≠ cfg.devUuid) :
      NodeTakes cfg w devs pdata
        (devs ++ (recvLinkOpen cfg w (clearedSession cfg.devUuid .device) linkId).dev.toList)

theorem receiveLinkOpen_takes {pdata devUuid : List Byte} {linkId : BitVec 32} {out : NodeOut}
    (hp : parse pdata = .ok (.linkOpen linkId devUuid))
    (h : receiveLinkOpen cfg w devs linkId devUuid = .ok out) :
    NodeTakes cfg w devs pdata out.devs := by
  unfold receiveLinkOpen at h
  by_cases hself : devUuid = cfg.devUuid
  · subst hself
    rw [if_neg (not_not.mpr rfl)] at h
    cases hf : findDevice devs cfg.devUuid with
    | some i =>
      rw [hf] at h
      obtain ⟨o, ho, hdevs⟩ := atSession_ok h
      obtain rfl := Except.ok.inj ho
      rw [hdevs]
      exact .opened hp i (findDevice_some hf)
    | none =>
      rw [hf] at h
      dsimp only at h
      by_cases hmalloc : w.mallocOk = true
      · rw [if_pos hmalloc] at h
        obtain rfl := Except.ok.inj h
        exact .created hp (findDevice_none hf)
      · rw [if_neg hmalloc] at h
        obtain rfl := Except.ok.inj h
        exact .kept
  · rw [if_pos hself] at h
    obtain rfl := Except.ok.inj h
    exact .kept

theorem receive_takes {pdata : List Byte} {out : NodeOut}
    (h : receive cfg w devs pdata = .ok out) : NodeTakes cfg w devs pdata out.devs := by
  cases hp : parse pdata with
  | error ret =>
    rw [receive, hp] at h
    obtain rfl := Except.ok.inj h
    exact .kept
  | ok pkt =>
    by_cases hopen : ∃ linkId devUuid, pkt = .linkOpen linkId devUuid
    · obtain ⟨linkId, devUuid, rfl⟩ := hopen
      rw [receive, hp] at h
      exact receiveLinkOpen_takes hp h
    · have hkind : ∀ linkId devUuid, pkt ≠ .linkOpen linkId devUuid :=
        fun linkId devUuid he => hopen ⟨linkId, devUuid, he⟩
      rw [receive_of_parse hp hkind] at h
      cases hf : findByLinkId devs pkt.linkId with
      | some i =>
        rw [hf] at h
        obtain ⟨o, ho, hdevs⟩ := atSession_ok h
        rw [hdevs]
        exact .found hp i hf hkind o ho
      | none =>
        rw [hf] at h
        obtain rfl := Except.ok.inj h
        exact .kept

theorem recv_linkOpen {s : PbAdvDev} {pdata : List Byte} {linkId : BitVec 32}
    (hp : parse pdata = .ok (.linkOpen linkId cfg.devUuid)) (hs : s.devUuid = cfg.devUuid) :
    recv cfg s w pdata = .ok (recvLinkOpen cfg w s linkId) := by
  rw [recv, hp]
  exact if_pos ⟨rfl, hs⟩

theorem NodeTakes.stepped {pdata : List Byte} (h : NodeTakes cfg w devs pdata devs') :
    NodeStepped cfg w devs devs' := by
  cases h with
  | kept => exact .kept
  | found hp i _ hkind o ho =>
    exact .stepped i (.recv pdata) _ (sessionNext_recv ((recv_of_parse hp hkind).trans ho))
  | opened hp i huuid =>
    exact .stepped i (.recv pdata) _ (sessionNext_recv (recv_linkOpen hp huuid))
  | created hp _ =>
    exact .created cfg.devUuid .device (.recv pdata) _ (sessionNext_recv (recv_linkOpen hp rfl))

theorem createDevice_stepped (devUuid : List Byte) (role : Role) :
    NodeStepped cfg w devs (createDevice cfg w devs devUuid role) := by
  unfold createDevice
  cases hf : findDevice devs devUuid with
  | some i => exact .stepped i (.call (.setup role w.keyPair w.random)) _ rfl
  | none =>
    dsimp only
    split_ifs with hmalloc
    · exact .created devUuid role (.call (.setup role w.keyPair w.random)) _ rfl
    · exact .kept

theorem nodeNext_stepped {e : NodeEvent} (h : nodeNext cfg devs (e, w) = .ok devs') :
    NodeStepped cfg w devs devs' := by
  cases e with
  | receive pdata =>
    simp only [nodeNext] at h
    cases hr : receive cfg w devs pdata with
    | error f =>
      rw [hr] at h
      cases h
    | ok out =>
      rw [hr] at h
      obtain rfl := Except.ok.inj h
      exact (receive_takes hr).stepped
  | createDevice devUuid role =>
    obtain rfl := Except.ok.inj h
    exact createDevice_stepped devUuid role
  | call i c => exact sessionAt_stepped h
  | timeout i => exact sessionAt_stepped h

/-- A run of the session, from a cleared one, that ends in this state. -/
def SessionReached (cfg : Config) (s : PbAdvDev) : Prop :=
  ∃ devUuid role es,
    run (sessionNext cfg) (some (clearedSession devUuid role)) es = .ok (some s)

theorem SessionReached.snoc {s t : PbAdvDev} {e : SessionEvent × World}
    (hs : SessionReached cfg s) (h : sessionNext cfg (some s) e = .ok (some t)) :
    SessionReached cfg t := by
  obtain ⟨devUuid, role, es, hrun⟩ := hs
  refine ⟨devUuid, role, es ++ [e], ?_⟩
  rw [run_append, hrun]
  simp [Except.bind, run, h]

theorem NodeStepped.reached (h : NodeStepped cfg w devs devs')
    (hall : ∀ s ∈ devs, SessionReached cfg s) : ∀ t ∈ devs', SessionReached cfg t := by
  intro t ht
  cases h with
  | kept => exact hall t ht
  | stepped i e o hnext =>
    cases o with
    | none => exact hall t (List.mem_of_mem_eraseIdx ht)
    | some s =>
      rcases List.mem_or_eq_of_mem_set ht with hmem | rfl
      · exact hall t hmem
      · exact (hall _ (List.get_mem devs i)).snoc hnext
  | created devUuid role e o hnext =>
    rcases List.mem_append.mp ht with hmem | hmem
    · exact hall t hmem
    · obtain rfl : o = some t := by simpa using hmem
      exact SessionReached.snoc ⟨devUuid, role, [], rfl⟩ hnext

/-- Every session of a node has been reached by a run of its own: what holds of the sessions
holds of the node. -/
theorem nodeNext_sessions {es : List (NodeEvent × World)}
    (hrun : run (nodeNext cfg) [] es = .ok devs) : ∀ s ∈ devs, SessionReached cfg s :=
  run_invariant
    (fun _ _ _ hall h => (nodeNext_stepped h).reached hall) (by simp) hrun

end Node

section Isolation

variable {cfg : Config} {w : World} {devs : List PbAdvDev} {s : PbAdvDev} {linkId : BitVec 32}
  {transNum fcs : Byte} {lastSegNum totalLen segIndex : ℕ} {pdu : List Byte}

/-- A start of a single segment that failed its check has been received before. -/
def Repeats (s : PbAdvDev) (transNum : Byte) (lastSegNum : ℕ) (fcs : Byte) (pdu : List Byte) :
    Prop :=
  s.transDataLen = 0 ∧ lastSegNum = 0 ∧ s.dev.state ≠ .failed ∧ crc pdu ≠ fcs ∧
    s.recvSeg = 0 ∧ s.rxTransNum = transNum ∧ s.lastSegNum = 0 ∧ s.fcs = fcs ∧
    splice s.provRxPdu 0 pdu = s.provRxPdu

instance (s : PbAdvDev) (transNum : Byte) (lastSegNum : ℕ) (fcs : Byte) (pdu : List Byte) :
    Decidable (Repeats s transNum lastSegNum fcs pdu) := inferInstanceAs (Decidable (_ ∧ _))

/-- The packet does not change the session that it reaches. -/
def Ignores (s : PbAdvDev) : Pkt → Prop
  | .transStart _ transNum lastSegNum totalLen fcs pdu =>
    ¬ Starts s transNum lastSegNum totalLen ∨
      pdu.length ≠ startLen lastSegNum totalLen ∧ SameHeader s transNum lastSegNum totalLen fcs ∨
      pdu.length = startLen lastSegNum totalLen ∧ Repeats s transNum lastSegNum fcs pdu
  | .transAck _ transNum => s.txTransNum ≠ transNum
  | .transContinue _ transNum segIndex pdu =>
    ¬ (Continues s transNum segIndex ∧ pdu.length = continueLen s segIndex)
  | .linkAck _ => .linkOpened < s.dev.state
  | .linkOpen _ _ | .linkClose _ _ => False

instance (s : PbAdvDev) (pkt : Pkt) : Decidable (Ignores s pkt) :=
  match pkt with
  | .transStart .. => inferInstanceAs (Decidable (_ ∨ _))
  | .transAck .. => inferInstanceAs (Decidable (_ ≠ _))
  | .transContinue .. => inferInstanceAs (Decidable (¬ _))
  | .linkAck _ => inferInstanceAs (Decidable (_ < _))
  | .linkOpen .. | .linkClose .. => isFalse id

/-- The session after a packet that leaves it. -/
def Kept (s : PbAdvDev) (r : Except Fault Out) : Prop := ∃ out, r = .ok out ∧ out.dev = some s

/-- The packet does not change the last session of the list. -/
def Spares (devs : List PbAdvDev) (pdata : List Byte) : Prop :=
  match parse pdata, devs.getLast? with
  | .ok pkt, some s => Ignores s pkt
  | _, _ => True

end Isolation

end Meshx.PbAdv
