import Meshx.Beacon
import Meshx.Net
import Meshx.Rpl
import Meshx.Sequence

/-! What a received beacon can change on a node: nothing that is not authenticated by a key
value in use, and among the keys only what belongs to the first key it is authentic under. -/
namespace Meshx.Beacon

open Lib AesCcm Security Keys IvIndex Replay Sequence

/-- The state of a node that beacons are about. -/
structure Station (aes : Aes128) where
  store : KeyStore aes
  iv : Iv
  seqArray : SeqArray
  rpl : Rpl

variable {aes : Aes128}

/-- `meshx_iv_index_update` with the clearing of the sequence numbers and the replay list. -/
def Station.ivUpdate (s : Station aes) (ivIndex : BitVec 32) (state : IvState) (busy : Bool) :
    Station aes :=
  let out := ivIndexUpdate s.iv ivIndex state busy
  { s with
    iv := out.2.1
    seqArray := if out.2.2 then seqClear s.seqArray else s.seqArray
    rpl := if out.2.2 then rplClear s.rpl else s.rpl }

/-- `meshx_beacon_receive`. An unprovisioned device beacon is only passed on to the
application; `busy` is what the lower transport layer says of itself. -/
def Station.receive (s : Station aes) (pdata : List Byte) (busy : Bool) : Errno × Station aes :=
  if byteAt pdata 0 = 1 then
    let out := beaconReceive s.store pdata
    let s' := { s with store := out.store }
    match out.ivUpdate with
    | none => (out.ret, s')
    | some (ivIndex, inProgress) =>
      (out.ret, s'.ivUpdate ivIndex (if inProgress then .inProgress else .normal) busy)
  else (.success, s)

/-- The value has the network id of the beacon, and its beacon key gives the authentication
value over the flags, the network id and the IV index. -/
def Authenticates (aes : Aes128) (pdata : List Byte) (value : NetKeyValue) : Prop :=
  value.netId = (pdata.drop 2).take 8 ∧
    (aesCmac aes value.beaconKey ((pdata.drop 1).take 13)).take 8 = (pdata.drop 14).take 8

/-- One of the values of the key that are in use authenticates the beacon. -/
def Authentic (aes : Aes128) (pdata : List Byte) (k : NetKey) : Prop :=
  ∃ value ∈ Net.usableValues k, Authenticates aes pdata value

/-- Only the state and the slots of a network key, and the states of the application keys
bound to it, differ. -/
structure OnlyKey (s s' : KeyStore aes) (before : List NetKey) (k : NetKey)
    (after : List NetKey) : Prop where
  netKeys : ∃ k', k'.keyIndex = k.keyIndex ∧ s'.netKeys = before ++ k' :: after
  appKeys : ∃ state : AppKey → KeyState, s'.appKeys = s.appKeys.map fun a =>
    if a.netKeyBind = k.keyIndex then { a with keyState := state a } else a
  devKeys : s'.devKeys = s.devKeys

variable {s : KeyStore aes} {pdata : List Byte} {before after : List NetKey} {k : NetKey}

theorem snbMatches_iff {value : NetKeyValue} :
    snbMatches aes (Snb.ofMemory pdata) value = true ↔ Authenticates aes pdata value := by
  simp [snbMatches, Snb.ofMemory, Authenticates]

theorem snbSlots_values (k : NetKey) : (snbSlots k).map (·.2.1) = Net.usableValues k := by
  unfold snbSlots Net.usableValues
  cases k.keyState <;> rfl

theorem snbSlots_key {c : NetKey × NetKeyValue × Bool} (h : c ∈ snbSlots k) : c.1 = k := by
  unfold snbSlots at h
  cases hs : k.keyState <;> simp only [hs, List.mem_cons, List.not_mem_nil, or_false] at h
  · rw [h]
  all_goals rcases h with rfl | rfl <;> rfl

/-- The loop finds something exactly among the values of authentic keys. -/
theorem find_slots_eq_none :
    (snbSlots k).find? (fun c => snbMatches aes (Snb.ofMemory pdata) c.2.1) = none ↔
      ¬Authentic aes pdata k := by
  rw [List.find?_eq_none, Authentic, ← snbSlots_values]
  simp only [List.mem_map, snbMatches_iff]
  constructor
  · rintro h ⟨_, ⟨c, hc, rfl⟩, ha⟩
    exact h c hc ha
  · exact fun h c hc ha => h ⟨_, ⟨c, hc, rfl⟩, ha⟩

theorem find_slots_of_not (h : ∀ k ∈ before, ¬Authentic aes pdata k) :
    (before.flatMap snbSlots).find? (fun c => snbMatches aes (Snb.ofMemory pdata) c.2.1) =
      none := by
  rw [List.find?_flatMap, List.findSome?_eq_none_iff]
  exact fun k hk => find_slots_eq_none.mpr (h k hk)

theorem find_slots_first (hkeys : s.netKeys = before ++ k :: after)
    (hbefore : ∀ k' ∈ before, ¬Authentic aes pdata k') (hk : Authentic aes pdata k) :
    ∃ value second, (s.netKeys.flatMap snbSlots).find?
      (fun c => snbMatches aes (Snb.ofMemory pdata) c.2.1) = some (k, value, second) := by
  obtain ⟨c, hc⟩ := Option.ne_none_iff_exists'.mp (mt find_slots_eq_none.mp (not_not.mpr hk))
  have hfst : c.1 = k := snbSlots_key (List.mem_of_find?_eq_some hc)
  refine ⟨c.2.1, c.2.2, ?_⟩
  rw [hkeys, List.flatMap_append, List.find?_append, find_slots_of_not hbefore, Option.none_or,
    List.flatMap_cons, List.find?_append, hc, Option.some_or, ← hfst]

theorem onlyKey_refl (hkeys : s.netKeys = before ++ k :: after) :
    OnlyKey s s before k after := by
  refine ⟨⟨k, rfl, hkeys⟩, ⟨(·.keyState), ?_⟩, rfl⟩
  simp

/-- A write to the key and a transition of the keys bound to it. -/
theorem onlyKey_transit (hkeys : s.netKeys = before ++ k :: after) (f : NetKey → NetKey)
    (hf : ∀ k, (f k).keyIndex = k.keyIndex) (state : KeyState) :
    OnlyKey s (appKeyStateTransit (s.modifyNet k.keyIndex f hf) k.keyIndex state) before k
      after := by
  refine ⟨⟨f k, hf k, ?_⟩, ⟨fun a => if a.keyState ≠ .normal then state else a.keyState, ?_⟩, rfl⟩
  · have hnodup := s.netNodup
    rw [hkeys, List.map_append, List.map_cons, List.nodup_middle, List.nodup_cons,
      ← List.map_append] at hnodup
    have hother : ∀ k' ∈ before ++ after, k'.keyIndex ≠ k.keyIndex :=
      fun k' hk' he => hnodup.1 (he ▸ List.mem_map_of_mem hk')
    have hsame (ks : List NetKey) (hks : ∀ k' ∈ ks, k' ∈ before ++ after) :
        ks.map (fun k' => if k'.keyIndex = k.keyIndex then f k' else k') = ks :=
      (List.map_congr_left fun k' hk' => if_neg (hother k' (hks k' hk'))).trans (List.map_id _)
    change s.netKeys.map (fun k' => if k'.keyIndex = k.keyIndex then f k' else k') = _
    rw [hkeys, List.map_append, List.map_cons, if_pos rfl,
      hsame before fun _ h => List.mem_append_left _ h,
      hsame after fun _ h => List.mem_append_right _ h]
  · refine List.map_congr_left fun a _ => ?_
    by_cases hbind : a.netKeyBind = k.keyIndex
    · by_cases hs : a.keyState = .normal
      · simp only [hbind, hs, ne_eq, not_true, and_false, decide_false, if_true, if_false,
          Bool.false_eq_true]
        rw [← hs, ← hbind]
      · simp [hbind, hs]
    · simp [hbind]

theorem beaconReceive_unknown (h : ∀ k ∈ s.netKeys, ¬Authentic aes pdata k) :
    beaconReceive s pdata = ⟨.key, s, none⟩ := by
  rw [beaconReceive]
  dsimp only
  rw [find_slots_of_not h]

theorem beaconReceive_onlyKey (hkeys : s.netKeys = before ++ k :: after)
    (hbefore : ∀ k' ∈ before, ¬Authentic aes pdata k') (hk : Authentic aes pdata k) :
    OnlyKey s (beaconReceive s pdata).store before k after := by
  obtain ⟨value, second, hfind⟩ := find_slots_first hkeys hbefore hk
  rw [beaconReceive]
  dsimp only
  rw [hfind]
  dsimp only
  split_ifs
  · exact onlyKey_refl hkeys
  · exact onlyKey_transit hkeys _ _ _
  · exact onlyKey_transit hkeys _ _ _
  · exact onlyKey_refl hkeys

theorem receive_store (s : Station aes) (busy : Bool) (hsnb : byteAt pdata 0 = 1) :
    (s.receive pdata busy).2.store = (beaconReceive s.store pdata).store := by
  rw [Station.receive, if_pos hsnb]
  dsimp only
  cases (beaconReceive s.store pdata).ivUpdate <;> rfl

/-- A beacon that no key value in use authenticates changes nothing. One that is authentic
under some key changes among the keys only the first such key and the states of the application
keys bound to it. -/
theorem receive_authenticated (s : Station aes) (pdata : List Byte) (busy : Bool) :
    ((∀ k ∈ s.store.netKeys, ¬Authentic aes pdata k) → (s.receive pdata busy).2 = s) ∧
    ∀ before k after, s.store.netKeys = before ++ k :: after →
      (∀ k' ∈ before, ¬Authentic aes pdata k') → Authentic aes pdata k →
      OnlyKey s.store (s.receive pdata busy).2.store before k after := by
  by_cases hsnb : byteAt pdata 0 = 1
  · refine ⟨fun h => ?_, fun before k after hkeys hbefore hk => ?_⟩
    · rw [Station.receive, if_pos hsnb, beaconReceive_unknown h]
    · rw [receive_store s busy hsnb]
      exact beaconReceive_onlyKey hkeys hbefore hk
  · rw [Station.receive, if_neg hsnb]
    exact ⟨fun _ => rfl, fun before k after hkeys _ _ => onlyKey_refl hkeys⟩

end Meshx.Beacon
