import Meshx.LinkIsolation

/-! A Link Open that is refused. `meshx_prov_create_device` sets the session of the node up
again before the handler looks at its state, so the refusal comes too late. -/
namespace Meshx.PbAdv

open Lib Prov

/-- The sessions with the random `id` that each was given. -/
structure Sessions where
  devs : List PbAdvDev
  ids : List Byte
  length_eq : ids.length = devs.length

section Handler

variable (cfg : Config) (w : World)

/-- `meshx_pb_adv_recv_link_open` with the test of the length. -/
def recvLinkOpenPdu (devs : List PbAdvDev) (pdata : List Byte) : Except Fault NodeOut :=
  if pdata.length < 22 then .ok ⟨.length, devs, []⟩
  else receiveLinkOpen cfg w devs (readBe32 pdata) ((pdata.drop 6).take 16)

/-- What `meshx_prov_create_device` makes of the `id`s when the handler calls it. -/
def linkOpenIds (n : Sessions) (id : Byte) (pdata : List Byte) : List Byte :=
  if pdata.length < 22 ∨ (pdata.drop 6).take 16 ≠ cfg.devUuid then n.ids
  else match findDevice n.devs cfg.devUuid with
    | some i => n.ids.set i id
    | none => if w.mallocOk then n.ids ++ [id] else n.ids

/-- An error of the handler leaves every session that there was the same. -/
def Untouched (n : Sessions) (id : Byte) (pdata : List Byte) : Prop :=
  ∀ out, recvLinkOpenPdu cfg w n.devs pdata = .ok out → out.ret ≠ .success →
    out.devs.take n.devs.length = n.devs ∧
      (linkOpenIds cfg w n id pdata).take n.devs.length = n.ids

/-- The session is one of a device already, with the key pair and the random value that it is
set up with. -/
def SetUp (s : PbAdvDev) : Prop :=
  s.dev.role = .device ∧
    (s.dev.publicKey, s.dev.privateKey) =
      (cfg.prov.sample.map (·.keyPair .device)).getD w.keyPair ∧
    s.dev.random = (cfg.prov.sample.map (·.random .device)).getD w.random

/-- The same link is being opened, and nothing has been received on it. -/
def Reopening (s : PbAdvDev) (linkId : BitVec 32) : Prop :=
  s.dev.state = .linkOpening ∧ s.linkId = linkId ∧ s.txTransNum = 0x7f ∧
    s.ackedTransNum = 0xff ∧ s.transDataLen = 0

/-- The Link Open opens the link of the session, or is of the link that is open, or finds in the
session what it would write there. -/
def Accords (s : PbAdvDev) (sameId : Prop) (linkId : BitVec 32) : Prop :=
  s.dev.state ≤ .linkOpening ∧ w.accepts (linkAckPkt linkId) = true ∨
    s.dev.state = .linkOpened ∧ s.linkId = linkId ∨
    sameId ∧ SetUp cfg w s ∧ (.linkOpened ≤ s.dev.state ∨ Reopening s linkId)

/-- The Link Open is too short or for another node, or there is no session with the identifier of
this node, or it accords with that session. -/
def OpensSafely (n : Sessions) (id : Byte) (pdata : List Byte) : Prop :=
  22 ≤ pdata.length → (pdata.drop 6).take 16 = cfg.devUuid →
    ∀ i, findDevice n.devs cfg.devUuid = some i →
      Accords cfg w (n.devs.get i) (n.ids[i.val]? = some id) (readBe32 pdata)

end Handler

section Refusal

variable {cfg : Config} {w : World} {s : PbAdvDev} {linkId : BitVec 32}

theorem setupDevice_eq_iff :
    setupDevice cfg.prov s.dev .device w.keyPair w.random = s.dev ↔ SetUp cfg w s := by
  constructor
  · intro h
    have hrole : Role.device = s.dev.role := congrArg ProvDev.role h
    refine ⟨hrole.symm, ?_, (congrArg ProvDev.random h).symm⟩
    rw [← congrArg ProvDev.publicKey h, ← congrArg ProvDev.privateKey h]
    rfl
  · rintro ⟨hrole, hkeys, hrandom⟩
    simp only [setupDevice, generateRandom, makeKey]
    rw [← hrandom, ← hkeys, ← hrole]

theorem setupDevice_state :
    (setupDevice cfg.prov s.dev .device w.keyPair w.random).state = s.dev.state := rfl

/-- The handler reports success, or leaves the session as it was. -/
def Tolerates (cfg : Config) (w : World) (s : PbAdvDev) (sameId : Prop) (linkId : BitVec 32) :
    Prop :=
  (recvLinkOpen cfg w s linkId).ret ≠ .success →
    (recvLinkOpen cfg w s linkId).dev = some s ∧ sameId

/-- The session that is set up again and no further. -/
def again (cfg : Config) (w : World) (s : PbAdvDev) : PbAdvDev :=
  { s with dev := setupDevice cfg.prov s.dev .device w.keyPair w.random }

/-- The session whose link is being opened. -/
def accepted (cfg : Config) (w : World) (s : PbAdvDev) (linkId : BitVec 32) : PbAdvDev :=
  { s with
    dev := { setupDevice cfg.prov s.dev .device w.keyPair w.random with state := .linkOpening }
    linkId := linkId
    txTransNum := 0x7f
    ackedTransNum := 0xff
    transDataLen := 0 }

theorem again_eq_iff : again cfg w s = s ↔ SetUp cfg w s := by
  rw [← setupDevice_eq_iff]
  constructor
  · exact congrArg PbAdvDev.dev
  · intro h
    rw [again, h]

theorem accepted_eq_iff : accepted cfg w s linkId = s ↔ SetUp cfg w s ∧ Reopening s linkId := by
  constructor
  · intro h
    have hdev : { setupDevice cfg.prov s.dev .device w.keyPair w.random with
        state := .linkOpening } = s.dev := congrArg PbAdvDev.dev h
    have hstate : ProvState.linkOpening = s.dev.state := congrArg ProvDev.state hdev
    rw [hstate] at hdev
    exact ⟨setupDevice_eq_iff.mp hdev, hstate.symm, (congrArg PbAdvDev.linkId h).symm,
      (congrArg PbAdvDev.txTransNum h).symm, (congrArg PbAdvDev.ackedTransNum h).symm,
      (congrArg PbAdvDev.transDataLen h).symm⟩
  · rintro ⟨hsetup, hstate, hlink, htx, hacked, hlen⟩
    rw [accepted, setupDevice_eq_iff.mpr hsetup, ← hstate, ← hlink, ← htx, ← hacked, ← hlen]

theorem parseBearerCtl_linkOpen {pdata devUuid : List Byte} {link : BitVec 32} {transNum : Byte}
    {content : ℕ}
    (h : parseBearerCtl pdata link transNum content = .ok (.linkOpen linkId devUuid)) :
    22 ≤ pdata.length ∧ link = linkId ∧ (pdata.drop 6).take 16 = devUuid := by
  have hrest := guard_ok (guard_ok h)
  match content, hrest with
  | 0, hrest =>
    have hlen : ¬pdata.length < 22 := fun hlt => by
      rw [if_pos hlt] at hrest
      cases hrest
    rw [if_neg hlen] at hrest
    obtain ⟨hlink, huuid⟩ := Pkt.linkOpen.inj (Except.ok.inj hrest)
    exact ⟨not_lt.mp hlen, hlink, huuid⟩
  | 1, hrest => cases Except.ok.inj hrest
  | 2, hrest => cases Except.ok.inj (guard_ok hrest)
  | n + 3, hrest => cases hrest

/-- A packet that is parsed as a Link Open comes to the handler. -/
theorem receive_linkOpen {devs : List PbAdvDev} {pdata devUuid : List Byte}
    (hp : parse pdata = .ok (.linkOpen linkId devUuid)) :
    receive cfg w devs pdata = recvLinkOpenPdu cfg w devs pdata := by
  rw [receive, hp]
  unfold parse at hp
  dsimp only at hp
  split at hp
  · cases Except.ok.inj (guard_ok hp)
  · cases Except.ok.inj (guard_ok hp)
  · cases Except.ok.inj (guard_ok hp)
  · obtain ⟨hlen, rfl, rfl⟩ := parseBearerCtl_linkOpen hp
    rw [recvLinkOpenPdu, if_neg (not_lt.mpr hlen)]

theorem linkOpened_le {state : ProvState} (h : ¬state ≤ .linkOpening) : .linkOpened ≤ state := by
  revert h
  cases state <;> decide

/-! The handler by the state of the session. -/

theorem recvLinkOpen_of_opened (h : s.dev.state = .linkOpened) (hlink : s.linkId ≠ linkId) :
    recvLinkOpen cfg w s linkId = ⟨.diff, some (again cfg w s), []⟩ :=
  if_pos ⟨h, hlink⟩

theorem recvLinkOpen_of_same (h : s.dev.state = .linkOpened) (hlink : s.linkId = linkId) :
    (recvLinkOpen cfg w s linkId).ret = .success := by
  unfold recvLinkOpen
  dsimp only
  rw [if_neg fun hc => hc.2 hlink, setupDevice_state, if_pos h]

theorem recvLinkOpen_of_later (h : .linkOpened < s.dev.state) :
    recvLinkOpen cfg w s linkId = ⟨.already, some (again cfg w s), []⟩ := by
  have hne : s.dev.state ≠ .linkOpened := fun he => absurd (he ▸ h) (by decide)
  unfold recvLinkOpen
  dsimp only
  rw [setupDevice_state, if_neg fun hc => hne hc.1, if_neg hne, if_pos h]
  rfl

theorem recvLinkOpen_of_idle (h : s.dev.state ≤ .linkOpening) :
    (w.accepts (linkAckPkt linkId) = true → (recvLinkOpen cfg w s linkId).ret = .success) ∧
      (¬w.accepts (linkAckPkt linkId) = true → recvLinkOpen cfg w s linkId =
        ⟨.fail, some (accepted cfg w s linkId), send w.accepts (linkAckPkt linkId)⟩) := by
  have hne : s.dev.state ≠ .linkOpened := fun he => absurd (he ▸ h) (by decide)
  have hlt : ¬.linkOpened < s.dev.state := fun hc => absurd (lt_of_lt_of_le hc h) (by decide)
  unfold recvLinkOpen
  dsimp only
  rw [setupDevice_state, if_neg fun hc => hne hc.1, if_neg hne, if_neg hlt]
  exact ⟨fun hacc => by rw [if_pos hacc], fun hacc => if_neg hacc⟩

/-- An error that comes with the session `t`. -/
theorem error_iff {ret : Errno} {t : PbAdvDev} {acts : List Act} {sameId c : Prop}
    (hret : ret ≠ .success) (ht : t = s ↔ SetUp cfg w s ∧ c) :
    (ret ≠ .success → (⟨ret, some t, acts⟩ : Out).dev = some s ∧ sameId) ↔
      sameId ∧ SetUp cfg w s ∧ c := by
  rw [← ht]
  simp [hret, and_comm]

theorem tolerates_iff (sameId : Prop) :
    Tolerates cfg w s sameId linkId ↔ Accords cfg w s sameId linkId := by
  rw [Tolerates, Accords]
  by_cases hidle : s.dev.state ≤ .linkOpening
  · have hopened : ¬.linkOpened ≤ s.dev.state := fun h => absurd (h.trans hidle) (by decide)
    have hne : s.dev.state ≠ .linkOpened := fun he => hopened he.ge
    obtain ⟨hacc, href⟩ := @recvLinkOpen_of_idle cfg w s linkId hidle
    by_cases haccepts : w.accepts (linkAckPkt linkId) = true
    · exact iff_of_true (fun h => absurd (hacc haccepts) h) (.inl ⟨hidle, haccepts⟩)
    · rw [href haccepts, error_iff (show Errno.fail ≠ .success by decide) accepted_eq_iff]
      simp [haccepts, hne, hopened]
  · have hle : .linkOpened ≤ s.dev.state := linkOpened_le hidle
    by_cases hsame : s.dev.state = .linkOpened ∧ s.linkId = linkId
    · exact iff_of_true (fun h => absurd (recvLinkOpen_of_same hsame.1 hsame.2) h)
        (.inr (.inl hsame))
    · have href : ∃ ret, ret ≠ .success ∧
          recvLinkOpen cfg w s linkId = ⟨ret, some (again cfg w s), []⟩ := by
        rcases hle.eq_or_lt with heq | hlt
        · exact ⟨.diff, by decide, recvLinkOpen_of_opened heq.symm fun h => hsame ⟨heq.symm, h⟩⟩
        · exact ⟨.already, by decide, recvLinkOpen_of_later hlt⟩
      obtain ⟨ret, hret, href⟩ := href
      rw [href, error_iff hret (again_eq_iff.trans (and_true _).to_iff.symm)]
      simp [hidle, hsame, hle]

theorem set_eq_self_iff {α : Type*} {xs : List α} {i : ℕ} {x : α} (hi : i < xs.length) :
    xs.set i x = xs ↔ xs[i]? = some x := by
  constructor
  · intro h
    rw [← h, List.getElem?_set_self hi]
  · intro h
    obtain ⟨hlt, rfl⟩ := List.getElem?_eq_some_iff.mp h
    exact List.set_getElem_self hlt

theorem length_setSession_le (devs : List PbAdvDev) (i : ℕ) (o : Option PbAdvDev) :
    (setSession devs i o).length ≤ devs.length := by
  cases o with
  | none => exact List.length_eraseIdx_le devs i
  | some s => exact (List.length_set ..).le

/-- The handler on the session of this node. -/
theorem untouched_found {n : Sessions} {id : Byte} {pdata : List Byte} (hlen : 22 ≤ pdata.length)
    (huuid : (pdata.drop 6).take 16 = cfg.devUuid) {i : Fin n.devs.length}
    (hi : findDevice n.devs cfg.devUuid = some i) :
    Untouched cfg w n id pdata ↔
      Tolerates cfg w (n.devs.get i) (n.ids[i.val]? = some id) (readBe32 pdata) := by
  have hhandler : recvLinkOpenPdu cfg w n.devs pdata =
      let r := recvLinkOpen cfg w (n.devs.get i) (readBe32 pdata)
      .ok ⟨r.ret, setSession n.devs i r.dev, r.acts⟩ := by
    rw [recvLinkOpenPdu, if_neg (not_lt.mpr hlen), receiveLinkOpen, if_neg (not_not.mpr huuid), hi]
    rfl
  have hids : linkOpenIds cfg w n id pdata = n.ids.set i id := by
    rw [linkOpenIds, if_neg (by simp [huuid, hlen]), hi]
  have hid : (n.ids.set i id).take n.devs.length = n.ids ↔ n.ids[i.val]? = some id := by
    have hilt : i.val < n.ids.length := by
      rw [n.length_eq]
      exact i.isLt
    rw [List.take_of_length_le (by simp [n.length_eq]), set_eq_self_iff hilt]
  rw [Untouched, hhandler, hids, hid, Tolerates]
  generalize recvLinkOpen cfg w (n.devs.get i) (readBe32 pdata) = r
  have hdevs : (setSession n.devs i r.dev).take n.devs.length = n.devs ↔
      r.dev = some (n.devs.get i) := by
    rw [← setSession_eq_iff, List.take_of_length_le (length_setSession_le _ _ _)]
  rw [← hdevs]
  constructor
  · exact fun h => h ⟨r.ret, setSession n.devs i r.dev, r.acts⟩ rfl
  · rintro h out hout hret
    obtain rfl := Except.ok.inj hout
    exact h hret

/-- No session of this node: one is appended, or nothing happens. -/
theorem untouched_none {n : Sessions} {id : Byte} {pdata : List Byte} (hlen : 22 ≤ pdata.length)
    (huuid : (pdata.drop 6).take 16 = cfg.devUuid) (hnone : findDevice n.devs cfg.devUuid = none) :
    Untouched cfg w n id pdata := by
  intro out hout _
  rw [recvLinkOpenPdu, if_neg (not_lt.mpr hlen), receiveLinkOpen, if_neg (not_not.mpr huuid),
    hnone] at hout
  rw [linkOpenIds, if_neg (by simp [huuid, hlen]), hnone]
  dsimp only at hout ⊢
  by_cases hmalloc : w.mallocOk = true
  · rw [if_pos hmalloc] at hout ⊢
    obtain rfl := Except.ok.inj hout
    exact ⟨List.take_left, List.take_left' n.length_eq⟩
  · rw [if_neg hmalloc] at hout ⊢
    obtain rfl := Except.ok.inj hout
    exact ⟨List.take_length, List.take_of_length_le n.length_eq.le⟩

/-- The PDU is turned away before a session is looked for. -/
theorem untouched_dismissed {n : Sessions} {id : Byte} {pdata : List Byte}
    (h : ¬(22 ≤ pdata.length ∧ (pdata.drop 6).take 16 = cfg.devUuid)) :
    Untouched cfg w n id pdata := by
  intro out hout _
  have hids : linkOpenIds cfg w n id pdata = n.ids :=
    if_pos (by rwa [← not_le, ← not_and_or])
  have hdevs : out.devs = n.devs := by
    unfold recvLinkOpenPdu receiveLinkOpen at hout
    by_cases hlen : pdata.length < 22
    · rw [if_pos hlen] at hout
      rw [← Except.ok.inj hout]
    · rw [if_neg hlen, if_pos fun huuid => h ⟨not_lt.mp hlen, huuid⟩] at hout
      rw [← Except.ok.inj hout]
  rw [hids, hdevs]
  exact ⟨List.take_length, List.take_of_length_le n.length_eq.le⟩

/-- An error on a Link Open leaves every session as it was exactly if the PDU is too short or for
another node, this node has no session yet, or the PDU accords with its session. -/
theorem linkOpen_untouched_iff (cfg : Config) (w : World) (n : Sessions) (id : Byte)
    (pdata : List Byte) : Untouched cfg w n id pdata ↔ OpensSafely cfg w n id pdata := by
  by_cases hpdu : 22 ≤ pdata.length ∧ (pdata.drop 6).take 16 = cfg.devUuid
  · obtain ⟨hlen, huuid⟩ := hpdu
    cases hi : findDevice n.devs cfg.devUuid with
    | some i =>
      rw [untouched_found hlen huuid hi, tolerates_iff, OpensSafely]
      simp [hlen, huuid, hi]
    | none =>
      refine iff_of_true (untouched_none hlen huuid hi) fun _ _ i h => ?_
      rw [hi] at h
      cases h
  · exact iff_of_true (untouched_dismissed hpdu) fun hlen huuid => absurd ⟨hlen, huuid⟩ hpdu

end Refusal

/-- A link is open; the Link Open of another one is refused, and renews the keys of the session. -/
theorem linkOpen_touches : ∃ devs devs',
    run (nodeNext plainConfig) []
      [(.receive (linkOpenPkt 7 (List.replicate 16 1)), plainWorld)] = .ok devs ∧
    recvLinkOpenPdu plainConfig { plainWorld with random := List.replicate 16 4 } devs
      (linkOpenPkt 9 (List.replicate 16 1)) = .ok ⟨.diff, devs', []⟩ ∧
    devs.map (·.dev.random) = [List.replicate 16 3] ∧
    devs'.map (·.dev.random) = [List.replicate 16 4] :=
  ⟨_, _, rfl, rfl, rfl, rfl⟩

end Meshx.PbAdv
