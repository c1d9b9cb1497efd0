import Meshx.Keys
import Meshx.IvIndex

/-! Secure network beacons: authentication against the key store, the key refresh steps
they trigger, and the IV index they carry. -/
namespace Meshx.Beacon

open Lib AesCcm Security Keys IvIndex

/-- The fields of `meshx_snb_t`, read from the memory at the received data. -/
structure Snb where
  keyRefresh : Bool
  ivUpdate : Bool
  netId : List Byte
  ivIndex : BitVec 32
  authValue : List Byte
  authenticated : List Byte

/-- The IV index is read in host order, least significant byte first. -/
def Snb.ofMemory (mem : List Byte) : Snb where
  keyRefresh := (byteAt mem 1).getLsbD 0
  ivUpdate := (byteAt mem 1).getLsbD 1
  netId := (mem.drop 2).take 8
  ivIndex := byteAt mem 13 ++ byteAt mem 12 ++ byteAt mem 11 ++ byteAt mem 10
  authValue := (mem.drop 14).take 8
  authenticated := (mem.drop 1).take 13

variable {aes : Aes128}

/-- The bytes of a beacon that are authenticated: flags, network id and IV index. The key
refresh flag is always clear. -/
def snbAuthenticated (iv : Iv) (value : NetKeyValue) : List Byte :=
  (0#6 ++ BitVec.ofBool (iv.state = .inProgress) ++ 0#1 : Byte) ::
    (value.netId ++ (be32 iv.ivIndex).reverse)

/-- The memory of the beacon that `meshx_beacon_send_snb` fills in for a key value. -/
def snbMemory (aes : Aes128) (iv : Iv) (value : NetKeyValue) : List Byte :=
  1 :: (snbAuthenticated iv value ++
    (aesCmac aes value.beaconKey (snbAuthenticated iv value)).take 8)

/-- The key value `meshx_beacon_send_snb` takes of a key. -/
def snbValue (k : NetKey) : NetKeyValue :=
  if k.keyState = .phase2 then k.keyValue1 else k.keyValue0

/-- `meshx_beacon_send_snb`: a beacon for each network key. -/
def beaconSendSnb (s : KeyStore aes) (iv : Iv) : List (List Byte) :=
  s.netKeys.map fun k => snbMemory aes iv (snbValue k)

/-- The key values the loop of `meshx_beacon_receive` compares, with their slots. -/
def snbSlots (k : NetKey) : List (NetKey × NetKeyValue × Bool) :=
  match k.keyState with
  | .normal => [(k, k.keyValue0, false)]
  | .phase1 | .phase2 => [(k, k.keyValue0, false), (k, k.keyValue1, true)]

/-- The beacon is authentic under the key value. -/
def snbMatches (aes : Aes128) (snb : Snb) (value : NetKeyValue) : Bool :=
  value.netId = snb.netId &&
    (aesCmac aes value.beaconKey snb.authenticated).take 8 = snb.authValue

/-- What a received beacon leads to: a return code, the key store, and the arguments of
the call of `meshx_iv_index_update` (the flag says that an update is in progress). -/
structure BeaconOut (aes : Aes128) where
  ret : Errno
  store : KeyStore aes
  ivUpdate : Option (BitVec 32 × Bool)

/-- The step into phase 2 on both layers. -/
def enterPhase2 (s : KeyStore aes) (index : BitVec 16) : KeyStore aes :=
  appKeyStateTransit
    (s.modifyNet index (fun k => { k with keyState := .phase2 }) fun _ => rfl) index .phase2

/-- The step back to the normal state. The network key moves its new value into slot 0,
the bound application keys only change their state. -/
def revokeOld (s : KeyStore aes) (index : BitVec 16) : KeyStore aes :=
  appKeyStateTransit
    (s.modifyNet index (fun k => { k with keyState := .normal, keyValue0 := k.keyValue1 })
      fun _ => rfl) index .normal

/-- `meshx_beacon_receive` for a secure network beacon. -/
def beaconReceive (s : KeyStore aes) (mem : List Byte) : BeaconOut aes :=
  let snb := Snb.ofMemory mem
  match (s.netKeys.flatMap snbSlots).find? fun c => snbMatches aes snb c.2.1 with
  | none => ⟨.key, s, none⟩
  | some (k, _, second) =>
    let ivUpdate := some (snb.ivIndex, snb.ivUpdate)
    if snb.keyRefresh then
      if k.keyState = .normal then ⟨.state, s, none⟩
      else ⟨.success, enterPhase2 s k.keyIndex, ivUpdate⟩
    else if second then ⟨.success, revokeOld s k.keyIndex, ivUpdate⟩
    else ⟨.success, s, ivUpdate⟩

theorem mem_snbSlots {s : KeyStore aes} {k : NetKey} {value : NetKeyValue} {second : Bool}
    (h : (k, value, second) ∈ s.netKeys.flatMap snbSlots) :
    netKeyGet s k.keyIndex = some k ∧ (second = true → k.keyState ≠ .normal) := by
  obtain ⟨k', hk', hmem⟩ := List.mem_flatMap.mp h
  have hfst : k = k' ∧ (second = true → k'.keyState ≠ .normal) := by
    unfold snbSlots at hmem
    cases hstate : k'.keyState <;> simp [hstate] at hmem
    · exact ⟨hmem.1, by simp [hmem.2.2]⟩
    all_goals rcases hmem with hmem | hmem <;> exact ⟨hmem.1, fun _ => by decide⟩
  obtain ⟨rfl, hsecond⟩ := hfst
  exact ⟨netKeyGet_of_mem hk', hsecond⟩

/-- What a beacon can do to the key store: nothing, or one of the two refresh steps on a
key that is under refresh. -/
theorem beaconReceive_cases (s : KeyStore aes) (mem : List Byte) :
    (beaconReceive s mem).store = s ∨
      ∃ k, netKeyGet s k.keyIndex = some k ∧ k.keyState ≠ .normal ∧
        ((beaconReceive s mem).store = enterPhase2 s k.keyIndex ∨
          (beaconReceive s mem).store = revokeOld s k.keyIndex) := by
  unfold beaconReceive
  dsimp only
  cases hf : (s.netKeys.flatMap snbSlots).find?
      fun c => snbMatches aes (Snb.ofMemory mem) c.2.1 with
  | none => exact .inl rfl
  | some found =>
    obtain ⟨k, value, second⟩ := found
    obtain ⟨hget, hsecond⟩ := mem_snbSlots (List.mem_of_find?_eq_some hf)
    dsimp only
    split_ifs with hrefresh hnormal hs
    · exact .inl rfl
    · exact .inr ⟨k, hget, hnormal, .inl rfl⟩
    · exact .inr ⟨k, hget, hsecond hs, .inr rfl⟩
    · exact .inl rfl

theorem netKeyGet_enterPhase2 {s : KeyStore aes} {index i : BitVec 16} :
    netKeyGet (enterPhase2 s index) i = (netKeyGet s i).map fun k =>
      if i = index then { k with keyState := .phase2 } else k := by
  rw [enterPhase2, appKeyStateTransit, netKeyGet_modifyApp, netKeyGet_modifyNet]

theorem netKeyGet_revokeOld {s : KeyStore aes} {index i : BitVec 16} :
    netKeyGet (revokeOld s index) i = (netKeyGet s i).map fun k =>
      if i = index then { k with keyState := .normal, keyValue0 := k.keyValue1 } else k := by
  rw [revokeOld, appKeyStateTransit, netKeyGet_modifyApp, netKeyGet_modifyNet]

theorem appKeyGet_transit {s : KeyStore aes} {index i : BitVec 16} {state : KeyState} :
    appKeyGet (appKeyStateTransit s index state) i = (appKeyGet s i).map fun a =>
      if a.netKeyBind = index ∧ a.keyState ≠ .normal then { a with keyState := state } else a := by
  rw [appKeyStateTransit, appKeyGet_modifyApp]
  simp only [decide_eq_true_eq]

theorem appKeyGet_enterPhase2 {s : KeyStore aes} {index i : BitVec 16} :
    appKeyGet (enterPhase2 s index) i = (appKeyGet s i).map fun a =>
      if a.netKeyBind = index ∧ a.keyState ≠ .normal then { a with keyState := .phase2 }
      else a := by
  rw [enterPhase2, appKeyGet_transit, appKeyGet_modifyNet]

theorem appKeyGet_revokeOld {s : KeyStore aes} {index i : BitVec 16} :
    appKeyGet (revokeOld s index) i = (appKeyGet s i).map fun a =>
      if a.netKeyBind = index ∧ a.keyState ≠ .normal then { a with keyState := .normal }
      else a := by
  rw [revokeOld, appKeyGet_transit, appKeyGet_modifyNet]

end Meshx.Beacon
