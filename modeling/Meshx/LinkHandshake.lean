import Meshx.LinkIsolation
import Meshx.SessionStates

/-! How a link is opened: the runs of a node in which every session is opened by a handshake of
its own. -/
namespace Meshx.PbAdv

open Lib Prov

section Node

variable {cfg : Config} {w : World} {devs devs' : List PbAdvDev} {s t : PbAdvDev}
  {linkId : BitVec 32}

/-- A node, with what its sessions have sent so far. -/
structure Links where
  devs : List PbAdvDev
  acts : List Act

def sessionActs (cfg : Config) (w : World) (devs : List PbAdvDev) (i : ℕ) (e : SessionEvent) :
    List Act :=
  match devs[i]? with
  | some s =>
    match sessionStep cfg s w e with
    | .ok out => out.2
    | .error _ => []
  | none => []

/-- What is sent in a step. -/
def nodeActs (cfg : Config) (devs : List PbAdvDev) : NodeEvent × World → List Act
  | (.receive pdata, w) =>
    match receive cfg w devs pdata with
    | .ok out => out.acts
    | .error _ => []
  | (.createDevice _ _, _) => []
  | (.call i c, w) => sessionActs cfg w devs i (.call c)
  | (.timeout i, w) => sessionActs cfg w devs i .timeout

def linkStep (cfg : Config) (n : Links) (e : NodeEvent × World) : Except Fault Links :=
  (fun devs => ⟨devs, n.acts ++ nodeActs cfg n.devs e⟩) <$> nodeNext cfg n.devs e

/-- The ways in which a session may come to be opened. A provisioner has sent the Link Open
that is acked. A device is told its own identifier; the application learns of the session
when it has been opened. -/
inductive Handshake (cfg : Config) (n : Links) (t : PbAdvDev) : NodeEvent × World → Prop
  | provisioner {pdata : List Byte} {w : World} (s : PbAdvDev) (hs : s ∈ n.devs)
      (huuid : s.devUuid = t.devUuid) (hrole : s.dev.role = .provisioner)
      (hstate : s.dev.state = .linkOpening) (hack : parse pdata = .ok (.linkAck s.linkId))
      (hsent : .send (linkOpenPkt s.linkId s.devUuid) ∈ n.acts) :
      Handshake cfg n t (.receive pdata, w)
  | device {pdata : List Byte} {w : World} (s u : PbAdvDev) (linkId : BitVec 32)
      (hopen : parse pdata = .ok (.linkOpen linkId t.devUuid)) (huuid : t.devUuid = cfg.devUuid)
      (hu : notified cfg w s pdata = some u) (hrole : u.dev.role = .device) :
      Handshake cfg n t (.receive pdata, w)

/-- A session that is opened by the step is opened by a handshake, and a Link Ack leaves the idle
sessions. Sessions are told apart by their identifiers. -/
structure RightlyOpened (cfg : Config) (n : Links) (e : NodeEvent × World)
    (devs' : List PbAdvDev) : Prop where
  opened : ∀ t ∈ devs', t.dev.state = .linkOpened →
    (∀ s ∈ n.devs, s.devUuid = t.devUuid → s.dev.state ≠ .linkOpened) → Handshake cfg n t e
  idle : ∀ pdata linkId, e.1 = .receive pdata → parse pdata = .ok (.linkAck linkId) →
    ∀ s ∈ n.devs, s.dev.state = .idle → s ∈ devs'

def OpensByHandshake (cfg : Config) (n : Links) (e : NodeEvent × World) : Prop :=
  ∀ n', linkStep cfg n e = .ok n' → RightlyOpened cfg n e n'.devs

/-- The session is opened already, or is the one of a provisioner that has sent its Link Open with
this link id and waits for the ack. -/
def Awaits (acts : List Act) (linkId : BitVec 32) (s : PbAdvDev) : Prop :=
  .linkOpened ≤ s.dev.state ∨
    s.dev.role = .provisioner ∧ s.dev.state = .linkOpening ∧ s.linkId = linkId ∧
      .send (linkOpenPkt linkId s.devUuid) ∈ acts

instance (acts : List Act) (linkId : BitVec 32) (s : PbAdvDev) : Decidable (Awaits acts linkId s) :=
  inferInstanceAs (Decidable (_ ∨ _))

/-- A Link Ack is taken by a session that awaits it. -/
def AckAwaited (n : Links) : NodeEvent × World → Prop
  | (.receive pdata, _) => ∀ linkId, parse pdata = .ok (.linkAck linkId) →
    ∀ i, findByLinkId n.devs linkId = some i → Awaits n.acts linkId (n.devs.get i)
  | _ => True

theorem Called.devUuid {c : Call} (h : Called s c t) : t.devUuid = s.devUuid := by
  cases h <;> rfl

theorem calls_devUuid (accepts : List Byte → Bool) (s : PbAdvDev) (cs : List Call) :
    (calls cfg accepts s cs).1.devUuid = s.devUuid :=
  calls_invariant (P := fun t => t.devUuid = s.devUuid) (fun _ _ _ hs h => h.devUuid.trans hs)
    accepts cs rfl

theorem Filled.devUuid (h : Filled s t) : t.devUuid = s.devUuid := by
  cases h <;> rfl

theorem Received.devUuid {pkt : Pkt} (h : Received cfg w s pkt (some t)) :
    t.devUuid = s.devUuid := by
  cases h with
  | accepted linkId devUuid hle d hd =>
    exact calls_devUuid w.accepts (accepting s d linkId) w.onOpened
  | started _ _ _ _ _ _ _ ht =>
    have huuid := ht.devUuid
    exact huuid
  | continued _ _ _ _ _ _ ht =>
    have huuid := ht.devUuid
    exact huuid
  | _ => rfl

theorem acked_devUuid (w : World) (s : PbAdvDev) : (acked w s).devUuid = s.devUuid := by
  unfold acked
  dsimp only
  split_ifs <;> rfl

theorem TimedOut.devUuid (h : TimedOut w s (some t)) : t.devUuid = s.devUuid := by
  cases h with
  | processed hon ht hd hnum s' hs' => cases hs' <;> exact acked_devUuid w s
  | badNum hon ht hd hnum d n hstate => exact acked_devUuid w s
  | _ => rfl

theorem Stepped.devUuid {e : SessionEvent} (h : Stepped cfg w s e (some t)) :
    t.devUuid = s.devUuid := by
  cases h with
  | discarded pdata => rfl
  | received hp h => exact h.devUuid
  | called h => exact h.devUuid
  | timedOut hfree h => exact h.devUuid

/-! What opens a session. -/

theorem Called.not_opened {c : Call} (h : Called s c t) (hs : s.dev.state ≠ .linkOpened) :
    t.dev.state ≠ .linkOpened := by
  cases h with
  | kept hc d hd => exact fun ho => hs (hd.symm.trans ho)
  | opened hc hidle linkId => exact fun ho => by cases ho
  | closed hc hle reason => exact fun ho => by cases ho
  | sent hc d n h₁ h₂ hlast hle => exact fun ho => absurd (ho ▸ h₁) (by decide)

theorem Processed.not_opened {before after : ProvState} {type : Option ProvType}
    (h : Processed before after type) (hs : before ≠ .linkOpened) : after ≠ .linkOpened := by
  cases h with
  | kept h => exact h ▸ hs
  | moved hle h₁ h₂ => exact fun ho => absurd (ho ▸ h₁) (by decide)
  | failed h => exact fun ho => by cases h.symm.trans ho
  | refused hr h => exact fun ho => by cases h.symm.trans ho

theorem TimedOut.not_opened (h : TimedOut w s (some t)) (hs : s.dev.state ≠ .linkOpened) :
    t.dev.state ≠ .linkOpened := by
  have hacked : (acked w s).dev.state ≠ .linkOpened := acked_dev w s ▸ hs
  cases h with
  | processed hon ht hd hnum s' hs' =>
    cases hs' with
    | quiet d h => exact Processed.not_opened h hacked
    | answered d n type h => exact Processed.not_opened h hacked
  | badNum hon ht hd hnum d n hstate => exact fun ho => hs (hstate.symm.trans ho)
  | lossClosed hon ht hle => exact fun ho => by cases ho
  | expired hon ht hle n => exact fun ho => by cases ho
  | _ => exact hs

/-- A packet that opens a session is a Link Ack or a Link Open. -/
theorem Received.opened {pkt : Pkt} (h : Received cfg w s pkt (some t))
    (hs : s.dev.state ≠ .linkOpened) (ho : t.dev.state = .linkOpened) :
    (∃ linkId, pkt = .linkAck linkId ∧ s.dev.state ≤ .linkOpened) ∨
      ∃ linkId devUuid, pkt = .linkOpen linkId devUuid := by
  cases h with
  | restored linkId devUuid | unacked linkId devUuid | accepted linkId devUuid =>
    exact .inr ⟨_, _, rfl⟩
  | established linkId hle => exact .inl ⟨_, rfl, hle⟩
  | started _ _ _ _ _ _ _ ht => exact absurd (ht.dev ▸ ho) hs
  | continued _ _ _ _ _ _ ht => exact absurd (ht.dev ▸ ho) hs
  | ended linkId transNum hnum hend reason => cases ho
  | _ => exact absurd ho hs

theorem recvLinkOpen_opened (h : (recvLinkOpen cfg w s linkId).dev = some t)
    (hs : s.dev.state ≠ .linkOpened) (ho : t.dev.state = .linkOpened) :
    s.dev.state ≤ .linkOpening ∧ w.accepts (linkAckPkt linkId) = true := by
  have hstate : (setupDevice cfg.prov s.dev .device w.keyPair w.random).state = s.dev.state := rfl
  unfold recvLinkOpen at h
  dsimp only at h
  rw [hstate, if_neg fun hc => hs hc.1, if_neg hs] at h
  by_cases hlater : .linkOpened < s.dev.state
  · rw [if_pos hlater] at h
    obtain rfl := Option.some.inj h
    exact absurd (hstate.symm.trans ho) hs
  · rw [if_neg hlater] at h
    have hlt : s.dev.state < .linkOpened := lt_of_le_of_ne (not_lt.mp hlater) hs
    refine ⟨by revert hlt; cases s.dev.state <;> decide, ?_⟩
    by_contra hack
    rw [if_neg hack] at h
    obtain rfl := Option.some.inj h
    cases ho

theorem recvLinkOpen_devUuid (h : (recvLinkOpen cfg w s linkId).dev = some t) :
    t.devUuid = s.devUuid :=
  Received.devUuid (h ▸ recvLinkOpen_cases cfg w s linkId [])

theorem recvLinkOpen_notified {pdata : List Byte}
    (hp : parse pdata = .ok (.linkOpen linkId cfg.devUuid)) (huuid : s.devUuid = cfg.devUuid)
    (h : (recvLinkOpen cfg w s linkId).dev = some t) (hs : s.dev.state ≠ .linkOpened)
    (ho : t.dev.state = .linkOpened) :
    ∃ u, notified cfg w s pdata = some u ∧ u.dev.role = .device := by
  obtain ⟨hle, hack⟩ := recvLinkOpen_opened h hs ho
  refine ⟨accepting s { setupDevice cfg.prov s.dev .device w.keyPair w.random with
    state := .linkOpened } linkId, ?_, rfl⟩
  unfold notified
  rw [hp]
  exact if_pos ⟨⟨rfl, huuid⟩, hle, hack⟩

/-! The list of sessions. -/

/-- No two sessions have the same identifier. -/
def Distinct (devs : List PbAdvDev) : Prop := (devs.map (·.devUuid)).Nodup

theorem Distinct.eq (h : Distinct devs) (hs : s ∈ devs) (ht : t ∈ devs)
    (huuid : s.devUuid = t.devUuid) : s = t :=
  List.inj_on_of_nodup_map h hs ht huuid

theorem Distinct.append (h : Distinct devs) (hnew : ∀ s ∈ devs, s.devUuid ≠ t.devUuid) :
    Distinct (devs ++ [t]) := by
  rw [Distinct, List.map_append]
  refine List.nodup_append'.mpr ⟨h, List.nodup_singleton _, List.disjoint_singleton.mpr ?_⟩
  simpa using hnew

theorem Distinct.setSession (h : Distinct devs) (i : Fin devs.length) {o : Option PbAdvDev}
    (ho : ∀ t, o = some t → t.devUuid = (devs.get i).devUuid) :
    Distinct (setSession devs i o) := by
  cases o with
  | none => exact h.sublist ((List.eraseIdx_sublist devs i).map _)
  | some t =>
    have hmap : (devs.set i t).map (·.devUuid) = devs.map (·.devUuid) := by
      refine List.ext_getElem (by simp) fun j h₁ h₂ => ?_
      by_cases hij : i.val = j
      · subst hij
        simpa using ho t rfl
      · simp [List.getElem_set_of_ne hij]
    rw [Distinct, PbAdv.setSession, hmap]
    exact h

theorem mem_setSession {i : ℕ} {o : Option PbAdvDev} (h : t ∈ setSession devs i o) :
    t ∈ devs ∨ o = some t := by
  cases o with
  | none => exact .inl (List.mem_of_mem_eraseIdx h)
  | some s => exact (List.mem_or_eq_of_mem_set h).imp id fun he => congrArg some he.symm

theorem mem_setSession_of_ne {i : Fin devs.length} {o : Option PbAdvDev} (hs : s ∈ devs)
    (hne : s ≠ devs.get i) : s ∈ setSession devs i o := by
  obtain ⟨j, rfl⟩ := List.mem_iff_get.mp hs
  have hij : j.val ≠ i.val := fun he => hne (congrArg devs.get (Fin.ext he))
  cases o with
  | none => exact List.mem_eraseIdx_iff_getElem.mpr ⟨j, j.isLt, hij, rfl⟩
  | some t =>
    refine List.mem_iff_getElem.mpr ⟨j, by simp [PbAdv.setSession], ?_⟩
    exact List.getElem_set_of_ne hij.symm ..

/-! The step of the node. -/

theorem sessionNext_devUuid {e : SessionEvent}
    (h : sessionNext cfg (some s) (e, w) = .ok (some t)) : t.devUuid = s.devUuid :=
  (stepped_of_ok h).devUuid

theorem sessionAt_ok {i : ℕ} {e : SessionEvent} (h : sessionAt cfg w devs i e = .ok devs') :
    devs' = devs ∨ ∃ (j : Fin devs.length) (o : Option PbAdvDev),
      sessionNext cfg (some (devs.get j)) (e, w) = .ok o ∧ devs' = setSession devs j o := by
  unfold sessionAt at h
  by_cases hi : i < devs.length
  · rw [List.getElem?_eq_getElem hi] at h
    obtain ⟨out, hs, rfl⟩ := map_ok h
    refine .inr ⟨⟨i, hi⟩, out.1, ?_, rfl⟩
    have hnext : sessionNext cfg (some devs[i]) (e, w) = (sessionStep cfg devs[i] w e).map (·.1) :=
      rfl
    exact hnext.trans (by rw [hs]; rfl)
  · rw [List.getElem?_eq_none (not_lt.mp hi)] at h
    exact .inl (Except.ok.inj h).symm

theorem Distinct.sessionAt (hd : Distinct devs) {i : ℕ} {e : SessionEvent}
    (h : sessionAt cfg w devs i e = .ok devs') : Distinct devs' := by
  obtain rfl | ⟨j, o, hnext, rfl⟩ := sessionAt_ok h
  · exact hd
  · exact hd.setSession j fun t ho => sessionNext_devUuid (ho ▸ hnext)

/-- What a packet does to the node: it reaches the session of its link, or of the node itself,
which is made if there is none. -/
inductive NodeReceived (cfg : Config) (w : World) (devs : List PbAdvDev) (pdata : List Byte) :
    List PbAdvDev → Prop
  | kept : NodeReceived cfg w devs pdata devs
  | found {pkt : Pkt} (hp : parse pdata = .ok pkt) (i : Fin devs.length)
      (hi : findByLinkId devs pkt.linkId = some i)
      (hkind : ∀ linkId devUuid, pkt ≠ .linkOpen linkId devUuid) (o : Option PbAdvDev)
      (h : Received cfg w (devs.get i) pkt o) :
      NodeReceived cfg w devs pdata (setSession devs i o)
  | opened {linkId : BitVec 32} (hp : parse pdata = .ok (.linkOpen linkId cfg.devUuid))
      (i : Fin devs.length) (huuid : (devs.get i).devUuid = cfg.devUuid) :
      NodeReceived cfg w devs pdata
        (setSession devs i (recvLinkOpen cfg w (devs.get i) linkId).dev)
  | created {linkId : BitVec 32} (hp : parse pdata = .ok (.linkOpen linkId cfg.devUuid))
      (hnew : ∀ s ∈ devs, s.devUuid ≠ cfg.devUuid) :
      NodeReceived cfg w devs pdata
        (devs ++ (recvLinkOpen cfg w (clearedSession cfg.devUuid .device) linkId).dev.toList)

theorem receive_received {pdata : List Byte} {out : NodeOut}
    (h : receive cfg w devs pdata = .ok out) : NodeReceived cfg w devs pdata out.devs := by
  have htakes := receive_takes h
  generalize out.devs = devs' at htakes ⊢
  cases htakes with
  | kept => exact .kept
  | @found pkt hp i hi hkind o ho =>
    rcases recvPkt_cases cfg w (devs.get i) pkt with he | ⟨o', he, hreceived⟩
    · cases he.symm.trans ho
    · obtain rfl := Except.ok.inj (he.symm.trans ho)
      exact .found hp i hi hkind _ hreceived
  | opened hp i huuid => exact .opened hp i huuid
  | created hp hnew => exact .created hp hnew

theorem NodeReceived.distinct {pdata : List Byte} (h : NodeReceived cfg w devs pdata devs')
    (hd : Distinct devs) : Distinct devs' := by
  cases h with
  | kept => exact hd
  | found hp i hi hkind o h => exact hd.setSession i fun t ht => Received.devUuid (ht ▸ h)
  | opened hp i huuid => exact hd.setSession i fun t ht => recvLinkOpen_devUuid ht
  | @created linkId hp hnew =>
    cases ht : (recvLinkOpen cfg w (clearedSession cfg.devUuid .device) linkId).dev with
    | none => simpa [ht] using hd
    | some t =>
      have huuid : t.devUuid = cfg.devUuid := recvLinkOpen_devUuid ht
      exact hd.append (huuid ▸ hnew)

theorem Distinct.createDevice (hd : Distinct devs) (devUuid : List Byte) (role : Role) :
    Distinct (createDevice cfg w devs devUuid role) := by
  unfold PbAdv.createDevice
  cases hf : findDevice devs devUuid with
  | some i =>
    refine hd.setSession i (o := some _) fun t ht => ?_
    obtain rfl := Option.some.inj ht
    rfl
  | none =>
    dsimp only
    by_cases hmalloc : w.mallocOk = true
    · rw [if_pos hmalloc]
      exact hd.append (findDevice_none hf)
    · rw [if_neg hmalloc]
      exact hd

theorem Distinct.nodeNext (hd : Distinct devs) {e : NodeEvent}
    (h : nodeNext cfg devs (e, w) = .ok devs') : Distinct devs' := by
  cases e with
  | receive pdata =>
    obtain ⟨out, hr, rfl⟩ := map_ok h
    exact (receive_received hr).distinct hd
  | createDevice devUuid role =>
    obtain rfl := Except.ok.inj h
    exact hd.createDevice devUuid role
  | call i c => exact hd.sessionAt h
  | timeout i => exact hd.sessionAt h

/-- A call, an expiry and a new device open no session. -/
theorem sessionAt_not_opened {i : ℕ} {e : SessionEvent} (he : ∀ pdata, e ≠ .recv pdata)
    (h : sessionAt cfg w devs i e = .ok devs') (ht : t ∈ devs') (ho : t.dev.state = .linkOpened) :
    ∃ s ∈ devs, s.devUuid = t.devUuid ∧ s.dev.state = .linkOpened := by
  obtain rfl | ⟨j, o, hnext, rfl⟩ := sessionAt_ok h
  · exact ⟨t, ht, rfl, ho⟩
  · rcases mem_setSession ht with hmem | rfl
    · exact ⟨t, hmem, rfl, ho⟩
    · have hstep := stepped_of_ok hnext
      refine ⟨_, List.get_mem devs j, hstep.devUuid.symm, ?_⟩
      by_contra hs
      cases hstep with
      | discarded pdata => exact he _ rfl
      | received hp h => exact he _ rfl
      | called h => exact h.not_opened hs ho
      | timedOut hfree h => exact h.not_opened hs ho

theorem createDevice_not_opened {devUuid : List Byte} {role : Role}
    (ht : t ∈ createDevice cfg w devs devUuid role) (ho : t.dev.state = .linkOpened) :
    ∃ s ∈ devs, s.devUuid = t.devUuid ∧ s.dev.state = .linkOpened := by
  unfold createDevice at ht
  cases hf : findDevice devs devUuid with
  | some i =>
    rw [hf] at ht
    rcases List.mem_or_eq_of_mem_set ht with hmem | rfl
    · exact ⟨t, hmem, rfl, ho⟩
    · exact ⟨_, List.get_mem devs i, rfl, ho⟩
  | none =>
    rw [hf] at ht
    dsimp only at ht
    by_cases hmalloc : w.mallocOk = true
    · rw [if_pos hmalloc] at ht
      rcases List.mem_append.mp ht with hmem | hmem
      · exact ⟨t, hmem, rfl, ho⟩
      · obtain rfl := List.mem_singleton.mp hmem
        cases ho
    · rw [if_neg hmalloc] at ht
      exact ⟨t, ht, rfl, ho⟩

variable {n n' : Links} {pdata : List Byte} {e : NodeEvent × World}

theorem handshake_device {s : PbAdvDev} (hp : parse pdata = .ok (.linkOpen linkId cfg.devUuid))
    (huuid : s.devUuid = cfg.devUuid) (h : (recvLinkOpen cfg w s linkId).dev = some t)
    (hs : s.dev.state ≠ .linkOpened) (ho : t.dev.state = .linkOpened) :
    Handshake cfg n t (.receive pdata, w) := by
  obtain ⟨u, hu, hrole⟩ := recvLinkOpen_notified hp huuid h hs ho
  have hself : t.devUuid = cfg.devUuid := (recvLinkOpen_devUuid h).trans huuid
  exact .device s u linkId (hself ▸ hp) hself hu hrole

/-- A packet that opens a session is a Link Open of its handshake, or a Link Ack that finds it. -/
theorem NodeReceived.opened_cases (h : NodeReceived cfg w n.devs pdata devs') (ht : t ∈ devs')
    (ho : t.dev.state = .linkOpened)
    (hnot : ∀ s ∈ n.devs, s.devUuid = t.devUuid → s.dev.state ≠ .linkOpened) :
    Handshake cfg n t (.receive pdata, w) ∨ ∃ linkId i, parse pdata = .ok (.linkAck linkId) ∧
      findByLinkId n.devs linkId = some i ∧ (n.devs.get i).devUuid = t.devUuid ∧
      (n.devs.get i).dev.state ≤ .linkOpened := by
  cases h with
  | kept => exact absurd ho (hnot t ht rfl)
  | @found pkt hp i hi hkind o h =>
    rcases mem_setSession ht with hmem | rfl
    · exact absurd ho (hnot t hmem rfl)
    · have huuid := h.devUuid
      rcases h.opened (hnot _ (List.get_mem _ i) huuid.symm) ho with
        ⟨linkId, rfl, hle⟩ | ⟨linkId, devUuid, rfl⟩
      · exact .inr ⟨linkId, i, hp, hi, huuid.symm, hle⟩
      · exact absurd rfl (hkind linkId devUuid)
  | @opened linkId hp i huuid =>
    rcases mem_setSession ht with hmem | hdev
    · exact absurd ho (hnot t hmem rfl)
    · have hsame := recvLinkOpen_devUuid hdev
      exact .inl (handshake_device hp huuid hdev (hnot _ (List.get_mem _ i) hsame.symm) ho)
  | @created linkId hp hnew =>
    rcases List.mem_append.mp ht with hmem | hmem
    · exact absurd ho (hnot t hmem rfl)
    · have hdev := Option.mem_toList.mp hmem
      exact .inl (handshake_device hp rfl hdev (fun hc => by cases hc) ho)

theorem NodeReceived.rightlyOpened (h : NodeReceived cfg w n.devs pdata devs')
    (hawaited : AckAwaited n (.receive pdata, w)) :
    RightlyOpened cfg n (.receive pdata, w) devs' where
  opened t ht ho hnot := by
    rcases h.opened_cases ht ho hnot with hshake | ⟨linkId, i, hp, hi, huuid, hle⟩
    · exact hshake
    · rcases hawaited linkId hp i hi with hopened | ⟨hrole, hstate, hlink, hsent⟩
      · exact absurd (le_antisymm hle hopened) (hnot _ (List.get_mem _ i) huuid)
      · rw [← hlink] at hp hsent
        exact .provisioner _ (List.get_mem _ i) huuid hrole hstate hp hsent
  idle pdata' linkId he hp s hs hidle := by
    obtain rfl := NodeEvent.receive.inj he
    cases h with
    | kept => exact hs
    | found hp' i hi hkind o h =>
      obtain rfl := Except.ok.inj (hp'.symm.trans hp)
      refine mem_setSession_of_ne hs fun hget => ?_
      rcases hawaited linkId hp i hi with hopened | ⟨-, hstate, -⟩
      · rw [← hget, hidle] at hopened
        exact absurd hopened (by decide)
      · rw [← hget, hidle] at hstate
        cases hstate
    | opened hp' | created hp' => cases hp'.symm.trans hp

theorem linkStep_ok (h : linkStep cfg n e = .ok n') : nodeNext cfg n.devs e = .ok n'.devs := by
  obtain ⟨devs', hnext, rfl⟩ := map_ok h
  exact hnext

theorem opensByHandshake (hawaited : AckAwaited n e) : OpensByHandshake cfg n e := by
  intro n' h
  have hnext := linkStep_ok h
  have hother (hno : ∀ pdata, e.1 ≠ .receive pdata) (hold : ∀ t ∈ n'.devs,
      t.dev.state = .linkOpened → ∃ s ∈ n.devs, s.devUuid = t.devUuid ∧ s.dev.state = .linkOpened) :
      RightlyOpened cfg n e n'.devs := by
    refine ⟨fun t ht ho hnot => ?_, fun pdata linkId he => absurd he (hno pdata)⟩
    obtain ⟨s, hs, huuid, hstate⟩ := hold t ht ho
    exact absurd hstate (hnot s hs huuid)
  obtain ⟨e, w⟩ := e
  cases e with
  | receive pdata =>
    obtain ⟨out, hr, hdevs⟩ := map_ok hnext
    exact hdevs ▸ (receive_received hr).rightlyOpened hawaited
  | createDevice devUuid role =>
    obtain hdevs := Except.ok.inj hnext
    exact hother (fun pdata he => by cases he) fun t ht => createDevice_not_opened (hdevs ▸ ht)
  | call i c =>
    exact hother (fun pdata he => by cases he) fun t ht =>
      sessionAt_not_opened (fun pdata he => by cases he) hnext ht
  | timeout i =>
    exact hother (fun pdata he => by cases he) fun t ht =>
      sessionAt_not_opened (fun pdata he => by cases he) hnext ht

/-- A Link Ack opens the session that it finds. -/
theorem receive_linkAck {i : Fin devs.length} (hp : parse pdata = .ok (.linkAck linkId))
    (hi : findByLinkId devs linkId = some i) (hlt : (devs.get i).dev.state < .linkOpened) :
    receive cfg w devs pdata =
      .ok ⟨.success, setSession devs i (some (established (devs.get i))), []⟩ := by
  rw [receive_of_parse hp fun linkId devUuid he => by cases he]
  have hack : recvLinkAck (devs.get i) = ⟨.success, some (established (devs.get i)), []⟩ :=
    if_neg hlt.le.not_gt
  have hpkt : recvPkt cfg w (devs.get i) (.linkAck linkId) = .ok (recvLinkAck (devs.get i)) := rfl
  simp only [Pkt.linkId, hi]
  rw [atSession, hpkt, hack]
  rfl

theorem ackAwaited (hd : Distinct n.devs) (h : OpensByHandshake cfg n e) : AckAwaited n e := by
  obtain ⟨e, w⟩ := e
  cases e with
  | receive pdata =>
    intro linkId hp i hi
    by_cases hopened : .linkOpened ≤ (n.devs.get i).dev.state
    · exact .inl hopened
    · have hlt := not_le.mp hopened
      have hstep : linkStep cfg n (.receive pdata, w) =
          .ok ⟨setSession n.devs i (some (established (n.devs.get i))), n.acts ++ []⟩ := by
        rw [linkStep, nodeActs, nodeNext, receive_linkAck hp hi hlt]
        rfl
      have hmem := List.mem_set i.isLt (established (n.devs.get i))
      have hshake := (h _ hstep).opened _ hmem rfl fun s hs huuid ho => by
        obtain rfl := hd.eq hs (List.get_mem n.devs i) huuid
        exact hlt.ne ho
      cases hshake with
      | provisioner s hs huuid hrole hstate hack hsent =>
        obtain rfl := hd.eq hs (List.get_mem n.devs i) huuid
        obtain rfl := Pkt.linkAck.inj (Except.ok.inj (hp.symm.trans hack))
        exact .inr ⟨hrole, hstate, rfl, hsent⟩
      | device s u linkId hopen => cases hp.symm.trans hopen
  | _ => trivial

/-- Sessions are opened by their own handshakes only in exactly the runs whose every Link Ack
finds a session that is opened, or a provisioner's that has sent its Link Open and waits. -/
theorem handshake_iff (cfg : Config) (es : List (NodeEvent × World)) :
    RunAll (linkStep cfg) (OpensByHandshake cfg) ⟨[], []⟩ es ↔
      RunAll (linkStep cfg) AckAwaited ⟨[], []⟩ es :=
  @RunAll.iff_of_invariant _ _ _ _ _ (fun n => Distinct n.devs) _ _ _
    (fun _ _ _ hd _ hs => hd.nodeNext (linkStep_ok hs))
    (fun _ _ hd => ⟨ackAwaited hd, opensByHandshake⟩) (show Distinct [] from List.nodup_nil)

/-- An idle session has link id zero, and a Link Ack of that link opens it. -/
theorem handshake_fails : ¬ RunAll (linkStep plainConfig) (OpensByHandshake plainConfig) ⟨[], []⟩
    [(.createDevice (List.replicate 16 2) .provisioner, plainWorld),
      (.receive (linkAckPkt 0), plainWorld)] := by
  intro h
  have hidle := ((h.2 _ rfl).1 _ rfl).idle _ 0 rfl rfl _ (List.mem_singleton_self _) rfl
  have hstate := congrArg (·.dev.state) (List.mem_singleton.mp hidle)
  cases hstate

end Node

end Meshx.PbAdv
