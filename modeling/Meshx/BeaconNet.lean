import Meshx.BeaconFrame
import Meshx.BeaconPhases
import Meshx.IvRecovery
import Meshx.KeyBindings

/-! Stations that hear each other's secure network beacons: late, in any order, more than once or
not at all. What spreads over such a network, and what never does. -/
namespace Meshx.BeaconNet

open Lib AesCcm Security IvIndex Keys Beacon Replay Sequence KeyPhases KeyBindings

variable {aes : Aes128} {ι : Type}

inductive StationEvent
  | sendSnb
  | receive (pdata : List Byte) (busy : Bool)
  | tick (busy : Bool)
  | txTaskFinish
  | traffic (seqArray : SeqArray) (rpl : Rpl)
  | netKeyAdd (env : KeyEnv) (index : BitVec 16) (key : Key)
  | netKeyUpdate (index : BitVec 16) (key : Key)
  | netKeyDelete (index : BitVec 16)

/-- What an event makes of the station it happens at. The tick clears as an update does, and
messages use up sequence numbers and fill the replay list. -/
def stationStep (conf : KeyConf) (s : Station aes) : StationEvent → Station aes
  | .sendSnb => s
  | .receive pdata busy => (s.receive pdata busy).2
  | .tick busy =>
    let out := ivTick s.iv busy
    { s with
      iv := out.1
      seqArray := if out.2 then seqClear s.seqArray else s.seqArray
      rpl := if out.2 then rplClear s.rpl else s.rpl }
  | .txTaskFinish => { s with iv := ivPendingNormal s.iv }
  | .traffic seqArray rpl => { s with seqArray := seqArray, rpl := rpl }
  | .netKeyAdd env index key =>
    { s with store := (netKeyAdd s.store conf.netKeyNum env.mallocOk env.netMisc index key).2 }
  | .netKeyUpdate index key => { s with store := (netKeyUpdate s.store index key).2 }
  | .netKeyDelete index => { s with store := (netKeyDelete s.store index).2 }

/-- Stations, and what the beacons were made of that have been sent so far. -/
structure Network (ι : Type) (aes : Aes128) where
  station : ι → Station aes
  sent : List (NetKeyValue × Iv)

/-- A network in which nothing has been sent. -/
def Network.start (station : ι → Station aes) : Network ι aes := ⟨station, []⟩

def sentBy (s : Station aes) : StationEvent → List (NetKeyValue × Iv)
  | .sendSnb => s.store.netKeys.map fun k => (snbValue k, s.iv)
  | _ => []

def step [DecidableEq ι] (conf : KeyConf) (net : Network ι aes) (e : ι × StationEvent) :
    Except Fault (Network ι aes) :=
  .ok
    { station := Function.update net.station e.1 (stationStep conf (net.station e.1) e.2)
      sent := net.sent ++ sentBy (net.station e.1) e.2 }

/-- A beacon that is authentic under a key value of the station that hears it has been sent
under this value: what its authentication value covers was made up by no one else. -/
def Genuine (net : Network ι aes) : ι × StationEvent → Prop
  | (i, .receive pdata _) => ∀ k ∈ (net.station i).store.netKeys, ∀ value ∈ Net.usableValues k,
      Authenticates aes pdata value →
        ∃ iv, (value, iv) ∈ net.sent ∧ (pdata.drop 1).take 13 = snbAuthenticated iv value
  | _ => True

variable {conf : KeyConf} {net net' : Network ι aes} {s : Station aes} {i : ι} {iv iv' : Iv}
  {value : NetKeyValue} {pdata : List Byte} {busy : Bool} {e : ι × StationEvent}

/-- The record stands for the frames of `meshx_beacon_send_snb`. -/
theorem sentBy_sendSnb (s : Station aes) :
    (sentBy s .sendSnb).map (fun p => snbMemory aes p.2 p.1) = beaconSendSnb s.store s.iv := by
  rw [sentBy, List.map_map]
  rfl

section Frames

theorem netId_length (hauth : Authenticates aes pdata value)
    (hbytes : (pdata.drop 1).take 13 = snbAuthenticated iv value) : value.netId.length = 8 := by
  have hid := congrArg List.length hauth.1
  have hall := congrArg List.length hbytes
  simp only [snbAuthenticated, be32, List.length_take, List.length_drop, List.length_cons,
    List.length_append, List.length_reverse, List.length_nil] at hid hall
  omega

/-- A beacon whose authenticated bytes have been sent says what the sender said. -/
theorem ofMemory_sent (hid : value.netId.length = 8)
    (hbytes : (pdata.drop 1).take 13 = snbAuthenticated iv value) :
    (Snb.ofMemory pdata).keyRefresh = false ∧
      (Snb.ofMemory pdata).ivUpdate = decide (iv.state = .inProgress) ∧
      (Snb.ofMemory pdata).ivIndex = iv.ivIndex := by
  cases pdata with
  | nil => simp [snbAuthenticated] at hbytes
  | cons c pdata =>
    have hsplit : pdata = snbAuthenticated iv value ++ pdata.drop 13 := by
      rw [← hbytes]
      exact (List.take_append_drop 13 pdata).symm
    rw [hsplit]
    generalize pdata.drop 13 = rest
    obtain ⟨a, b, d, f, g, h, j, k, hvalue⟩ := KeyPhases.exists_of_length_eight hid
    have hflags : ∀ flag : Bool,
        (0#6 ++ BitVec.ofBool flag ++ 0#1 : Byte).getLsbD 0 = false ∧
          (0#6 ++ BitVec.ofBool flag ++ 0#1 : Byte).getLsbD 1 = flag := by decide
    obtain ⟨hrefresh, hupdate⟩ := hflags (iv.state = .inProgress)
    refine ⟨hrefresh, hupdate, ?_⟩
    rw [← readBe32_be32 iv.ivIndex []]
    simp [Snb.ofMemory, snbAuthenticated, hvalue, readBe32, byteAt, be32]

/-- What a station makes of a beacon that it hears: nothing, or the IV index and the state of one
that has been sent, and with the new value of a key under refresh the end of the refresh. -/
inductive Heard (s : Station aes) (sent : List (NetKeyValue × Iv)) (busy : Bool) :
    Station aes → Prop
  | nothing : Heard s sent busy s
  | inUse (value : NetKeyValue) (iv : Iv) (hsent : (value, iv) ∈ sent) :
      Heard s sent busy (s.ivUpdate iv.ivIndex iv.state busy)
  | newKey (k : NetKey) (iv : Iv) (hget : netKeyGet s.store k.keyIndex = some k)
      (hstate : k.keyState ≠ .normal) (hsent : (k.keyValue1, iv) ∈ sent) :
      Heard s sent busy ({ s with store := revokeOld s.store k.keyIndex }.ivUpdate
        iv.ivIndex iv.state busy)

theorem ofFlag (state : IvState) :
    (if decide (state = .inProgress) = true then .inProgress else .normal) = state := by
  cases state <;> rfl

theorem firstMatch_authenticates {store : KeyStore aes} {found : NetKey × NetKeyValue × Bool}
    (h : firstMatch store pdata = some found) : Authenticates aes pdata found.2.1 := by
  rw [firstMatch] at h
  have hmatch := List.find?_some h
  exact snbMatches_iff.mp hmatch

theorem receive_heard (hgenuine : Genuine net (i, .receive pdata busy)) :
    Heard (net.station i) net.sent busy ((net.station i).receive pdata busy).2 := by
  rw [Station.receive]
  split_ifs with hsnb
  · rw [beaconReceive_eq]
    cases hfirst : firstMatch (net.station i).store pdata with
    | none => exact .nothing
    | some found =>
      obtain ⟨k, value, second⟩ := found
      have hmem := List.mem_of_find?_eq_some hfirst
      obtain ⟨hget, hstate⟩ := mem_snbSlots hmem
      have hauth := firstMatch_authenticates hfirst
      obtain ⟨k', hk', hslot⟩ := List.mem_flatMap.mp hmem
      have husable : value ∈ Net.usableValues k' := by
        rw [← snbSlots_values]
        exact List.mem_map.mpr ⟨_, hslot, rfl⟩
      obtain ⟨iv, hsent, hbytes⟩ := hgenuine k' hk' value husable hauth
      obtain ⟨hrefresh, hupdate, hindex⟩ := ofMemory_sent (netId_length hauth hbytes) hbytes
      dsimp only
      rw [hrefresh, hupdate, hindex, if_neg Bool.false_ne_true]
      cases second with
      | false =>
        rw [if_neg Bool.false_ne_true]
        dsimp only
        rw [ofFlag]
        exact .inUse value iv hsent
      | true =>
        have hvalue := slot1_value hmem
        rw [if_pos rfl]
        dsimp only
        rw [ofFlag]
        exact .newKey k iv hget (hstate rfl) (hvalue ▸ hsent)
  · exact .nothing

end Frames

section IvOrigin

variable {start : ι → Station aes}

/-- The IV index is one that some station started with, and an update that is in progress was in
progress at some station. -/
structure Origin (start : ι → Station aes) (iv : Iv) : Prop where
  index : ∃ j, (start j).iv.ivIndex = iv.ivIndex
  inProgress : iv.state = .inProgress →
    ∃ j, (start j).iv.ivIndex = iv.ivIndex ∧ (start j).iv.state = .inProgress

/-- The IV indexes lie less than 2 ^ 31 apart. -/
def Close (start : ι → Station aes) : Prop :=
  ∀ i j, WithinHalf (start i).iv (start j).iv.ivIndex

theorem Origin.of_index (h : Origin start iv) (hindex : iv'.ivIndex = iv.ivIndex)
    (hstate : iv'.state = .inProgress → iv.state = .inProgress) : Origin start iv' := by
  refine ⟨hindex ▸ h.index, fun hs => ?_⟩
  rw [hindex]
  exact h.inProgress (hstate hs)

theorem Origin.ended (h : Origin start iv) (hindex : iv'.ivIndex = iv.ivIndex)
    (hstate : iv'.state = .normal) : Origin start iv' := by
  refine h.of_index hindex fun hs => ?_
  rw [hstate] at hs
  cases hs

theorem Origin.withinHalf (hclose : Close start) (h : Origin start iv) (h' : Origin start iv') :
    WithinHalf iv iv'.ivIndex := by
  obtain ⟨i, hi⟩ := h.index
  obtain ⟨j, hj⟩ := h'.index
  have hij := hclose i j
  rw [WithinHalf, hi, hj] at hij
  exact hij

/-- An update that is put off was in progress at the IV index that is heard. -/
theorem pending_index {ivIndex : BitVec 32} (hnone : ivRefused iv ivIndex .normal = none)
    (hdist : ivDistance iv ivIndex .normal = 1) (hhalf : WithinHalf iv ivIndex)
    (hstate : iv.state = .inProgress) : ivIndex = iv.ivIndex := by
  have hle := (ivRefused_none hnone).1
  have hnat := @ivDistance_toNat iv ivIndex .normal hle
  rw [hdist, hstate] at hnat
  have hone : (1 : BitVec 32).toNat = 1 := rfl
  simp only [hone, IvState.rank] at hnat
  unfold WithinHalf at hhalf
  apply BitVec.eq_of_toNat_eq
  omega

/-- A step that keeps the origin of an IV index and does not take it back. -/
structure Onward (start : ι → Station aes) (iv iv' : Iv) : Prop where
  origin : Origin start iv'
  index_le : iv.ivIndex.toNat ≤ iv'.ivIndex.toNat

theorem Origin.same (h : Origin start iv) (hindex : iv'.ivIndex = iv.ivIndex)
    (hstate : iv'.state = .inProgress → iv.state = .inProgress) : Onward start iv iv' :=
  ⟨h.of_index hindex hstate, by rw [hindex]⟩

theorem Origin.update (hclose : Close start) (h : Origin start iv) (h' : Origin start iv') :
    Onward start iv (ivIndexUpdate iv iv'.ivIndex iv'.state busy).2.1 := by
  have hhalf := h.withinHalf hclose h'
  have hcases := ivIndexUpdate_cases iv iv'.ivIndex iv'.state busy
  generalize (ivIndexUpdate iv iv'.ivIndex iv'.state busy).2 = out at hcases ⊢
  cases hcases with
  | refused err hr => exact h.same rfl id
  | started hnone hdist hs =>
    exact ⟨h'.of_index rfl fun _ => hs, (ivRefused_none hnone).1⟩
  | pending hnone hdist hs hb =>
    refine ⟨⟨h'.index, fun hprogress => ?_⟩, (ivRefused_none hnone).1⟩
    rw [hs] at hnone hdist
    have hsame := pending_index hnone hdist hhalf hprogress
    obtain ⟨j, hj⟩ := h.inProgress hprogress
    exact ⟨j, hj.1.trans hsame.symm, hj.2⟩
  | ended hnone hdist hs hb => exact ⟨h'.ended rfl rfl, (ivRefused_none hnone).1⟩
  | recovered hrec => exact ⟨h'.of_index rfl id, (ivRefused_none hrec.1).1⟩

theorem Origin.tick (h : Origin start iv) : Onward start iv (ivTick iv busy).1 := by
  have hcases := ivTick_cases iv busy
  generalize ivTick iv busy = out at hcases ⊢
  cases hcases with
  | counted => exact h.same rfl id
  | pending hs hb => exact h.same rfl id
  | ended hs hb => exact ⟨h.ended rfl rfl, le_rfl⟩

theorem Origin.pendingNormal (h : Origin start iv) : Onward start iv (ivPendingNormal iv) := by
  rw [ivPendingNormal]
  split_ifs
  · exact ⟨h.ended rfl rfl, le_rfl⟩
  · exact h.same rfl id

/-- What holds of every station and of everything that has been sent. -/
structure Founded (start : ι → Station aes) (net : Network ι aes) : Prop where
  station : ∀ i, Onward start (start i).iv (net.station i).iv
  sent : ∀ p ∈ net.sent, Origin start p.2

theorem Founded.stationStep (hclose : Close start) (h : Founded start net)
    {e : ι × StationEvent} (hgenuine : Genuine net e) :
    Onward start (net.station e.1).iv (stationStep conf (net.station e.1) e.2).iv := by
  obtain ⟨i, e⟩ := e
  have horigin := (h.station i).origin
  cases e with
  | receive pdata busy =>
    have hheard := receive_heard hgenuine
    rw [BeaconNet.stationStep]
    generalize ((net.station i).receive pdata busy).2 = s' at hheard ⊢
    cases hheard with
    | nothing => exact horigin.same rfl id
    | inUse value iv hsent => exact horigin.update hclose (h.sent _ hsent)
    | newKey k iv hget hstate hsent => exact horigin.update hclose (h.sent _ hsent)
  | tick busy => exact horigin.tick
  | txTaskFinish => exact horigin.pendingNormal
  | _ => exact horigin.same rfl id

theorem Founded.step [DecidableEq ι] (hclose : Close start) (h : Founded start net)
    (hgenuine : Genuine net e) (hs : BeaconNet.step conf net e = .ok net') :
    Founded start net' := by
  have hmoved : Onward start (net.station e.1).iv
      (BeaconNet.stationStep conf (net.station e.1) e.2).iv := h.stationStep hclose hgenuine
  obtain rfl := Except.ok.inj hs
  refine ⟨fun j => ?_, fun p hp => ?_⟩
  · dsimp only
    by_cases hj : j = e.1
    · rw [hj, Function.update_self]
      exact ⟨hmoved.origin, (h.station e.1).index_le.trans hmoved.index_le⟩
    · rw [Function.update_of_ne hj]
      exact h.station j
  · rcases List.mem_append.mp hp with hp | hp
    · exact h.sent p hp
    · unfold sentBy at hp
      split at hp
      · obtain ⟨k, -, rfl⟩ := List.mem_map.mp hp
        exact (h.station e.1).origin
      · cases hp

theorem Founded.step_le [DecidableEq ι] (hclose : Close start) (h : Founded start net)
    (hgenuine : Genuine net e) (hs : BeaconNet.step conf net e = .ok net') (i : ι) :
    (net.station i).iv.ivIndex.toNat ≤ (net'.station i).iv.ivIndex.toNat := by
  have hmoved : Onward start (net.station e.1).iv
      (BeaconNet.stationStep conf (net.station e.1) e.2).iv := h.stationStep hclose hgenuine
  obtain rfl := Except.ok.inj hs
  dsimp only
  by_cases hi : i = e.1
  · rw [hi, Function.update_self]
    exact hmoved.index_le
  · rw [Function.update_of_ne hi]

/-- From a moment on, the origins are kept and no IV index goes back. -/
theorem Founded.run [DecidableEq ι] (hclose : Close start) (h : Founded start net)
    {es : List (ι × StationEvent)} (hall : RunAll (BeaconNet.step conf) Genuine net es)
    (hrun : Lib.run (BeaconNet.step conf) net es = .ok net') :
    Founded start net' ∧
      ∀ i, (net.station i).iv.ivIndex.toNat ≤ (net'.station i).iv.ivIndex.toNat := by
  have hstep : ∀ (s : Network ι aes) (e : ι × StationEvent) (s' : Network ι aes),
      (Founded start s ∧
        ∀ i, (net.station i).iv.ivIndex.toNat ≤ (s.station i).iv.ivIndex.toNat) →
      Genuine s e → BeaconNet.step conf s e = .ok s' →
      Founded start s' ∧
        ∀ i, (net.station i).iv.ivIndex.toNat ≤ (s'.station i).iv.ivIndex.toNat :=
    fun s e s' hs hgenuine hstep => ⟨hs.1.step hclose hgenuine hstep, fun i =>
      (hs.2 i).trans (hs.1.step_le hclose hgenuine hstep i)⟩
  have hend := hall.invariant hstep ⟨h, fun _ => le_rfl⟩ hrun
  exact hend

theorem founded_start (start : ι → Station aes) : Founded start (.start start) where
  station i := ⟨⟨⟨i, rfl⟩, fun hs => ⟨i, rfl, hs⟩⟩, le_rfl⟩
  sent p hp := by cases hp

/-- Between any two moments no station of a network goes back to an IV index, and at any moment
none has one that no station started with, or is in an update that none was in: nothing in the
program begins one. -/
theorem ivIndex_origin [DecidableEq ι] (conf : KeyConf) (start : ι → Station aes)
    (hclose : Close start) (es es' : List (ι × StationEvent)) (net net' : Network ι aes)
    (hall : RunAll (step conf) Genuine (.start start) (es ++ es'))
    (hrun : run (step conf) (.start start) es = .ok net)
    (hrun' : run (step conf) net es' = .ok net') (i : ι) :
    (net.station i).iv.ivIndex.toNat ≤ (net'.station i).iv.ivIndex.toNat ∧
      (∃ j, (start j).iv.ivIndex = (net'.station i).iv.ivIndex) ∧
      ((net'.station i).iv.state = .inProgress →
        ∃ j, (start j).iv.ivIndex = (net'.station i).iv.ivIndex ∧
          (start j).iv.state = .inProgress) := by
  have hfounded : Founded start net := ((founded_start start).run hclose hall.of_append hrun).1
  obtain ⟨hfounded', hle⟩ := hfounded.run hclose (hall.after hrun) hrun'
  have h := hfounded'.station i
  exact ⟨hle i, h.origin.index, h.origin.inProgress⟩

/-- A key in use, of sixteen zeros. -/
def zeroValue : NetKeyValue := netKeyDerive maskAes (.replicate 16 0)

def zeroStore : KeyStore maskAes where
  netKeys := [⟨.normal, 0, zeroValue, zeroValue⟩]
  appKeys := []
  devKeys := []
  netNodup := List.nodup_singleton _
  appNodup := List.nodup_nil
  derived := List.forall_mem_nil _

/-- A station that has begun an update, and one that has been waiting for 96 hours. -/
def updater : Bool → Station maskAes
  | true => ⟨zeroStore, ⟨1, .inProgress, false, false, 0⟩, seqInit 1, rplInit 1⟩
  | false => ⟨zeroStore, ⟨0, .normal, false, false, 288⟩, seqInit 1, rplInit 1⟩

def updaterRun : List (Bool × StationEvent) :=
  [(true, .sendSnb), (false, .receive (snbMemory maskAes (updater true).iv zeroValue) false)]

theorem zero_usable {k : NetKey} {value : NetKeyValue} (hk : k ∈ zeroStore.netKeys)
    (hvalue : value ∈ Net.usableValues k) : value = zeroValue := by
  rw [List.mem_singleton.mp hk] at hvalue
  exact List.mem_singleton.mp hvalue

theorem ivIndex_origin_updater :
    ∃ net, run (step ⟨1, 1⟩) (.start updater) updaterRun = .ok net ∧
      (updater false).iv.ivIndex.toNat ≤ (net.station false).iv.ivIndex.toNat ∧
      (net.station false).iv.ivIndex = 1 ∧
      ∃ j, (updater j).iv.ivIndex = (net.station false).iv.ivIndex ∧
        (updater j).iv.state = .inProgress := by
  have hclose : Close updater := by
    have hall : ∀ i j, WithinHalf (updater i).iv (updater j).iv.ivIndex := by decide
    exact hall
  have hall : RunAll (step ⟨1, 1⟩) Genuine (.start updater) updaterRun := by
    refine ⟨trivial, fun net hnet => ⟨?_, fun _ _ => trivial⟩⟩
    obtain rfl := Except.ok.inj hnet
    intro k hk value hvalue hauth
    rw [zero_usable hk hvalue]
    exact ⟨(updater true).iv, List.mem_singleton.mpr rfl, rfl⟩
  obtain ⟨net, hrun, hiv⟩ := observe (f := fun net => (net.station false).iv)
    (x := run (step ⟨1, 1⟩) (.start updater) updaterRun)
    (b := ⟨1, .inProgress, false, false, 288⟩) (by decide +kernel)
  have horigin := ivIndex_origin ⟨1, 1⟩ updater hclose [] updaterRun (.start updater) net hall rfl
    hrun false
  exact ⟨net, hrun, horigin.1, by rw [hiv], horigin.2.2 (by rw [hiv])⟩

end IvOrigin

section Refresh

variable {start : ι → Station aes} {index : BitVec 16}

/-- The value is the new one of a key under refresh at some station. -/
def Pending (net : Network ι aes) (value : NetKeyValue) : Prop :=
  ∃ i index k, netKeyGet (net.station i).store index = some k ∧ k.keyState = .phase1 ∧
    k.keyValue1 = value

/-- No station has the value in use, and nothing has been sent under it. -/
structure Unused (net : Network ι aes) (value : NetKeyValue) : Prop where
  slot0 : ∀ i index k, netKeyGet (net.station i).store index = some k → k.keyValue0 ≠ value
  sent : ∀ p ∈ net.sent, p.1 ≠ value

/-- Key refreshes may have begun, but no station is in phase 2 or uses a new value. -/
structure Waiting (net : Network ι aes) : Prop where
  state : ∀ i index k, netKeyGet (net.station i).store index = some k → k.keyState ≠ .phase2
  unused : ∀ value, Pending net value → Unused net value

/-- A new value is one that no station uses, and no station is given as its own a value that is
pending as a new one. -/
def FreshKeys (net : Network ι aes) : ι × StationEvent → Prop
  | (_, .netKeyUpdate _ key) => Unused net (netKeyDerive aes key)
  | (_, .netKeyAdd _ _ key) => ¬ Pending net (netKeyDerive aes key)
  | _ => True

/-- What may become of the key at an index of one station's store. -/
inductive KeyCase (net : Network ι aes) : StationEvent → KeyStore aes → KeyStore aes → Prop
  | same {e : StationEvent} {s : KeyStore aes} : KeyCase net e s s
  | added {env : KeyEnv} {index : BitVec 16} {key : Key} {s s' : KeyStore aes}
      (hpending : ¬ Pending net (netKeyDerive aes key)) (hfree : netKeyGet s index = none)
      (hget : ∀ i, netKeyGet s' i =
        if i = index then some (addedNetKey aes env index key) else netKeyGet s i) :
      KeyCase net (.netKeyAdd env index key) s s'
  | updated {index : BitVec 16} {key : Key} {s : KeyStore aes} {k : NetKey}
      (hunused : Unused net (netKeyDerive aes key)) (hk : netKeyGet s index = some k)
      (hstate : k.keyState = .normal) :
      KeyCase net (.netKeyUpdate index key) s (beginNetUpdate s index key)
  | deleted {index : BitVec 16} {s : KeyStore aes} :
      KeyCase net (.netKeyDelete index) s (removeNet s index)

/-- While no new value is used, no beacon that is heard moves a key. -/
theorem Waiting.keyCase (h : Waiting net) {e : ι × StationEvent} (hgenuine : Genuine net e)
    (hfresh : FreshKeys net e) : KeyCase net e.2 (net.station e.1).store
      (stationStep conf (net.station e.1) e.2).store := by
  obtain ⟨i, e⟩ := e
  cases e with
  | receive pdata busy =>
    have hheard := receive_heard hgenuine
    rw [stationStep]
    generalize ((net.station i).receive pdata busy).2 = s' at hheard ⊢
    cases hheard with
    | nothing => exact .same
    | inUse value iv hsent => exact .same
    | newKey k iv hget hstate hsent =>
      have hphase1 : k.keyState = .phase1 := by
        have hne := h.state i _ k hget
        cases hs : k.keyState with
        | normal => exact absurd hs hstate
        | phase1 => rfl
        | phase2 => exact absurd hs hne
      have hunused := h.unused k.keyValue1 ⟨i, _, k, hget, hphase1, rfl⟩
      exact absurd rfl (hunused.sent _ hsent)
  | netKeyAdd env index key =>
    have hcase := @netKeyAdd_case aes conf (net.station i).store env index key
    rw [stationStep]
    generalize (netKeyAdd (net.station i).store conf.netKeyNum env.mallocOk env.netMisc index
      key).2 = s' at hcase ⊢
    cases hcase with
    | same => exact .same
    | netAdded hfree hnet happ => exact .added hfresh hfree hnet
  | netKeyUpdate index key =>
    rw [stationStep, netKeyUpdate_store]
    dsimp only
    split_ifs with hnormal
    · obtain ⟨k, hk, hstate⟩ := Option.map_eq_some_iff.mp hnormal
      exact .updated hfresh hk hstate
    · exact .same
  | netKeyDelete index =>
    rw [stationStep, netKeyDelete]
    dsimp only
    cases netKeyGet (net.station i).store index with
    | none => exact .same
    | some k => exact .deleted
  | _ => exact .same

/-- Where a key of a store comes from. -/
inductive KeyFrom (net : Network ι aes) (e : StationEvent) (before : Option NetKey) :
    NetKey → Prop
  | kept (k : NetKey) (h : before = some k) : KeyFrom net e before k
  | begun (old : NetKey) (index : BitVec 16) (key : Key) (h : before = some old)
      (hunused : Unused net (netKeyDerive aes key)) (he : e = .netKeyUpdate index key) :
      KeyFrom net e before { old with keyState := .phase1, keyValue1 := netKeyDerive aes key }
  | added (env : KeyEnv) (index : BitVec 16) (key : Key)
      (hpending : ¬ Pending net (netKeyDerive aes key)) (he : e = .netKeyAdd env index key) :
      KeyFrom net e before (addedNetKey aes env index key)

theorem KeyCase.before {e : StationEvent} {s s' : KeyStore aes} {k : NetKey}
    (h : KeyCase net e s s') (hk : netKeyGet s' index = some k) :
    KeyFrom net e (netKeyGet s index) k := by
  cases h with
  | same => exact .kept k hk
  | added hpending hfree hget =>
    rw [hget] at hk
    split_ifs at hk with hi
    · obtain rfl := Option.some.inj hk
      exact .added _ _ _ hpending rfl
    · exact .kept k hk
  | updated hunused hold hstate =>
    rw [netKeyGet_beginNetUpdate, Option.map_eq_some_iff] at hk
    obtain ⟨old, hget, rfl⟩ := hk
    split_ifs
    · exact .begun old _ _ hget hunused rfl
    · exact .kept old hget
  | deleted =>
    rw [netKeyGet_removeNet] at hk
    split_ifs at hk
    exact .kept k hk

/-- The value that a station sends with stays unless its key is deleted. -/
theorem KeyCase.netKeyTxGet {e : StationEvent} {s s' : KeyStore aes} {value : NetKeyValue}
    (h : KeyCase net e s s') (hstate : ∀ k, netKeyGet s index = some k → k.keyState ≠ .phase2)
    (hdelete : e ≠ .netKeyDelete index) (htx : Keys.netKeyTxGet s index = some value) :
    Keys.netKeyTxGet s' index = some value := by
  obtain ⟨k, hk, hvalue⟩ := Option.map_eq_some_iff.mp htx
  rw [if_neg (hstate k hk)] at hvalue
  have hkept : ∀ k', netKeyGet s' index = some k' → k'.keyState ≠ .phase2 →
      k'.keyValue0 = k.keyValue0 → Keys.netKeyTxGet s' index = some value := by
    intro k' hk' hstate' hsame
    rw [Keys.netKeyTxGet, hk', Option.map_some, if_neg hstate', hsame, hvalue]
  cases h with
  | same => exact htx
  | @added env new key _ _ hpending hfree hget =>
    refine hkept k ?_ (hstate k hk) rfl
    have hne : index ≠ new := by
      rintro rfl
      rw [hk] at hfree
      cases hfree
    rw [hget, if_neg hne, hk]
  | @updated under key _ old hunused hold hnormal =>
    by_cases hi : index = under
    · refine hkept { k with keyState := .phase1, keyValue1 := netKeyDerive aes key } ?_
        (fun hc => by cases hc) rfl
      rw [netKeyGet_beginNetUpdate, hk, Option.map_some, if_pos hi]
    · refine hkept k ?_ (hstate k hk) rfl
      rw [netKeyGet_beginNetUpdate, hk, Option.map_some, if_neg hi]
  | @deleted gone =>
    have hne : index ≠ gone := by
      rintro rfl
      exact hdelete rfl
    refine hkept k ?_ (hstate k hk) rfl
    rw [netKeyGet_removeNet, if_neg hne, hk]

theorem snbValue_slot0 {k : NetKey} (h : k.keyState ≠ .phase2) : snbValue k = k.keyValue0 :=
  if_neg h

/-- The step of one station as one of the network. -/
theorem step_before [DecidableEq ι] {j : ι} {k : NetKey}
    (hcase : KeyCase net e.2 (net.station e.1).store (stationStep conf (net.station e.1) e.2).store)
    (hs : step conf net e = .ok net') (hk : netKeyGet (net'.station j).store index = some k) :
    KeyFrom net e.2 (netKeyGet (net.station j).store index) k := by
  obtain rfl := Except.ok.inj hs
  dsimp only at hk
  by_cases hj : j = e.1
  · rw [hj, Function.update_self] at hk
    rw [hj]
    exact hcase.before hk
  · rw [Function.update_of_ne hj] at hk
    exact .kept k hk

/-- A value that is pending was pending before, or has been brought by the event. -/
theorem pending_before [DecidableEq ι] (hwait : Waiting net)
    (hcase : KeyCase net e.2 (net.station e.1).store (stationStep conf (net.station e.1) e.2).store)
    (hs : step conf net e = .ok net') (hpending : Pending net' value) :
    Unused net value ∧ (Pending net value ∨ ∃ index key, e.2 = .netKeyUpdate index key) := by
  obtain ⟨j, index, k, hk, hstate, hvalue⟩ := hpending
  have hfrom := step_before hcase hs hk
  cases hfrom with
  | kept k h =>
    have hbefore : Pending net value := ⟨j, index, k, h, hstate, hvalue⟩
    exact ⟨hwait.unused value hbefore, .inl hbefore⟩
  | begun old index key h hunused he => exact ⟨hvalue ▸ hunused, .inr ⟨index, key, he⟩⟩
  | added env index key hnot he => cases hstate

theorem Waiting.step [DecidableEq ι] (h : Waiting net) (hgenuine : Genuine net e)
    (hfresh : FreshKeys net e) (hs : BeaconNet.step conf net e = .ok net') : Waiting net' := by
  have hcase : KeyCase net e.2 (net.station e.1).store
      (stationStep conf (net.station e.1) e.2).store := h.keyCase hgenuine hfresh
  refine ⟨fun j index k hk => ?_, fun value hpending => ?_⟩
  · have hfrom := step_before hcase hs hk
    cases hfrom with
    | kept k hget => exact h.state j index k hget
    | begun old index key hget hunused he => exact fun hc => by cases hc
    | added env index key hnot he => exact fun hc => by cases hc
  · obtain ⟨hunused, hbefore⟩ := pending_before h hcase hs hpending
    refine ⟨fun j index k hk => ?_, fun p hp => ?_⟩
    · have hfrom := step_before hcase hs hk
      cases hfrom with
      | kept k hget => exact hunused.slot0 j index k hget
      | begun old index key hget hnew he => exact hunused.slot0 j _ old hget
      | added env index key hnot he =>
        rintro rfl
        rcases hbefore with hbefore | ⟨index', key', he'⟩
        · exact hnot hbefore
        · rw [he] at he'
          cases he'
    · obtain rfl := Except.ok.inj hs
      rcases List.mem_append.mp hp with hp | hp
      · exact hunused.sent p hp
      · unfold sentBy at hp
        split at hp
        · obtain ⟨k, hk, rfl⟩ := List.mem_map.mp hp
          have hget := netKeyGet_of_mem hk
          rw [snbValue_slot0 (h.state e.1 _ k hget)]
          exact hunused.slot0 e.1 _ k hget
        · cases hp

theorem Waiting.step_tx [DecidableEq ι] (h : Waiting net) (hgenuine : Genuine net e)
    (hfresh : FreshKeys net e) (hdelete : e ≠ (i, .netKeyDelete index))
    (hs : BeaconNet.step conf net e = .ok net')
    (htx : netKeyTxGet (net.station i).store index = some value) :
    netKeyTxGet (net'.station i).store index = some value := by
  have hcase : KeyCase net e.2 (net.station e.1).store
      (stationStep conf (net.station e.1) e.2).store := h.keyCase hgenuine hfresh
  obtain rfl := Except.ok.inj hs
  dsimp only
  by_cases hi : i = e.1
  · subst hi
    rw [Function.update_self]
    exact hcase.netKeyTxGet (h.state e.1 index) (fun hc => hdelete (Prod.ext rfl hc)) htx
  · rwa [Function.update_of_ne hi]

/-- A key refresh never takes effect. As long as each new key is unused by others, whatever the
stations hear of each other, none enters phase 2, and a station that does not delete a key goes
on sending with the value it started with. -/
theorem refresh_waits [DecidableEq ι] (conf : KeyConf) (start : ι → Station aes)
    (hstart : Waiting (.start start)) (es : List (ι × StationEvent)) (net : Network ι aes)
    (hall : RunAll (step conf) (fun net e => Genuine net e ∧ FreshKeys net e) (.start start) es)
    (hrun : run (step conf) (.start start) es = .ok net) :
    (∀ i index k, netKeyGet (net.station i).store index = some k → k.keyState ≠ .phase2) ∧
      ∀ i index value, (i, .netKeyDelete index) ∉ es →
        netKeyTxGet (start i).store index = some value →
        netKeyTxGet (net.station i).store index = some value := by
  have hwait : Waiting net := hall.invariant
    (fun s e s' hs hcond hstep => hs.step hcond.1 hcond.2 hstep) hstart hrun
  refine ⟨hwait.state, fun i index value hdelete htx => ?_⟩
  have hkept : RunAll (step conf) (fun net e =>
      (Genuine net e ∧ FreshKeys net e) ∧ e ≠ (i, .netKeyDelete index)) (.start start) es :=
    hall.imp_of_mem fun s e he hcond => ⟨hcond, fun hc => hdelete (hc ▸ he)⟩
  have hstep : ∀ (s : Network ι aes) (e : ι × StationEvent) (s' : Network ι aes),
      Waiting s ∧ netKeyTxGet (s.station i).store index = some value →
      (Genuine s e ∧ FreshKeys s e) ∧ e ≠ (i, .netKeyDelete index) →
      step conf s e = .ok s' →
      Waiting s' ∧ netKeyTxGet (s'.station i).store index = some value :=
    fun s e s' hs hcond hstep => ⟨hs.1.step hcond.1.1 hcond.1.2 hstep,
      hs.1.step_tx hcond.1.1 hcond.1.2 hcond.2 hstep hs.2⟩
  have hboth := hkept.invariant hstep ⟨hstart, htx⟩ hrun
  exact hboth.2

/-- Two stations with the key of zeros. -/
def keyed (_ : Bool) : Station maskAes := ⟨zeroStore, .init 0, seqInit 1, rplInit 1⟩

/-- One of them gets a new key, and the other one hears its beacon. -/
def keyedRun : List (Bool × StationEvent) :=
  [(true, .netKeyUpdate 0 (.replicate 16 1)), (true, .sendSnb),
    (false, .receive (snbMemory maskAes (.init 0) zeroValue) false)]

theorem zero_get {index : BitVec 16} {k : NetKey} (h : netKeyGet zeroStore index = some k) :
    k = ⟨.normal, 0, zeroValue, zeroValue⟩ :=
  List.mem_singleton.mp (List.mem_of_find?_eq_some h)

theorem refresh_waits_keyed :
    ∃ net, run (step ⟨1, 1⟩) (.start keyed) keyedRun = .ok net ∧
      (netKeyGet (net.station true).store 0).map (·.keyState) = some .phase1 ∧
      netKeyTxGet (net.station true).store 0 = some zeroValue := by
  have hstart : Waiting (.start keyed) := by
    refine ⟨fun i index k hk => ?_, fun value hpending => ?_⟩
    · rw [zero_get hk]
      decide
    · obtain ⟨i, index, k, hk, hstate, -⟩ := hpending
      rw [zero_get hk] at hstate
      cases hstate
  have hall : RunAll (step ⟨1, 1⟩) (fun net e => Genuine net e ∧ FreshKeys net e)
      (.start keyed) keyedRun := by
    refine ⟨⟨trivial, fun i index k hk => ?_, fun p hp => by cases hp⟩, fun net hnet => ?_⟩
    · rw [zero_get hk]
      intro hc
      exact absurd (congrArg NetKeyValue.netKey hc) (by decide)
    obtain rfl := Except.ok.inj hnet
    refine ⟨⟨trivial, trivial⟩, fun net hnet => ⟨⟨?_, trivial⟩, fun _ _ => trivial⟩⟩
    obtain rfl := Except.ok.inj hnet
    intro k hk value hvalue hauth
    rw [zero_usable hk hvalue]
    exact ⟨.init 0, List.mem_singleton.mpr rfl, rfl⟩
  obtain ⟨net, hrun, hphase⟩ := observe
    (f := fun net => (netKeyGet (net.station true).store 0).map (·.keyState))
    (x := run (step ⟨1, 1⟩) (.start keyed) keyedRun) (b := some .phase1) (by decide +kernel)
  have hwaits := refresh_waits ⟨1, 1⟩ keyed hstart keyedRun net hall hrun
  exact ⟨net, hrun, hphase, hwaits.2 true 0 zeroValue (by simp [keyedRun]) rfl⟩

end Refresh

end Meshx.BeaconNet
