import Meshx.Security

/-! The key store: network, application and device keys, and the updates of a key refresh.
Both slots of a key are kept: slot 0 with the key in use, slot 1 with the new one. Definitions
carry the names of `meshx_key.c`. -/
namespace Meshx.Keys

open Lib AesCcm Security

structure AppKeyValue where
  appKey : Key
  aid : BitVec 6
  deriving DecidableEq, Repr

/-- `meshx_app_key_t`. Network keys have distinct indices, so the bound one is given by
its index instead of a pointer. -/
structure AppKey where
  keyState : KeyState
  keyIndex : BitVec 16
  keyValue0 : AppKeyValue
  keyValue1 : AppKeyValue
  netKeyBind : BitVec 16
  deriving DecidableEq, Repr

structure DeviceKey where
  primaryAddr : BitVec 16
  elementNum : BitVec 8
  devKey : Key
  deriving DecidableEq, Repr

def netKeyDerive (aes : Aes128) (netKey : Key) : NetKeyValue :=
  let p : List Byte := [0x69, 0x64, 0x31, 0x32, 0x38, 0x01]
  let (nid, encryptionKey, privacyKey) := k2 aes netKey [0x00]
  { netKey := netKey
    identityKey := k1 aes netKey (s1 aes [0x6e, 0x6b, 0x69, 0x6b]) p
    beaconKey := k1 aes netKey (s1 aes [0x6e, 0x6b, 0x62, 0x6b]) p
    nid := nid
    encryptionKey := encryptionKey
    privacyKey := privacyKey
    netId := k3 aes netKey }

def appKeyDerive (aes : Aes128) (appKey : Key) : AppKeyValue :=
  ⟨appKey, k4 aes appKey⟩

/-- The three key lists. Indices are distinct and slot 0 of an application key is derived
from its key, as the functions that add keys see to. -/
structure KeyStore (aes : Aes128) where
  netKeys : List NetKey
  appKeys : List AppKey
  devKeys : List DeviceKey
  netNodup : (netKeys.map (·.keyIndex)).Nodup
  appNodup : (appKeys.map (·.keyIndex)).Nodup
  derived : ∀ a ∈ appKeys, a.keyValue0 = appKeyDerive aes a.keyValue0.appKey

variable {aes : Aes128}

namespace KeyStore

def empty (aes : Aes128) : KeyStore aes := ⟨[], [], [], by simp, by simp, by simp⟩

/-- Write to the network key with the index. -/
def modifyNet (s : KeyStore aes) (index : BitVec 16) (f : NetKey → NetKey)
    (hf : ∀ k, (f k).keyIndex = k.keyIndex) : KeyStore aes :=
  { s with
    netKeys := s.netKeys.map fun k => if k.keyIndex = index then f k else k
    netNodup := by
      have he : (fun k : NetKey => (if k.keyIndex = index then f k else k).keyIndex) =
          fun k => k.keyIndex := by funext k; split_ifs <;> simp [hf]
      simpa [Function.comp_def, he] using s.netNodup }

/-- Write to the application keys a condition selects. -/
def modifyApp (s : KeyStore aes) (p : AppKey → Bool) (f : AppKey → AppKey)
    (hi : ∀ a, (f a).keyIndex = a.keyIndex)
    (hd : ∀ a, a.keyValue0 = appKeyDerive aes a.keyValue0.appKey →
      (f a).keyValue0 = appKeyDerive aes (f a).keyValue0.appKey) : KeyStore aes :=
  { s with
    appKeys := s.appKeys.map fun a => if p a then f a else a
    appNodup := by
      have he : (fun a : AppKey => (if p a then f a else a).keyIndex) = fun a => a.keyIndex := by
        funext a; split_ifs <;> simp [hi]
      simpa [Function.comp_def, he] using s.appNodup
    derived := by
      intro b hb
      obtain ⟨a, ha, rfl⟩ := List.mem_map.mp hb
      split_ifs
      · exact hd a (s.derived a ha)
      · exact s.derived a ha }

end KeyStore

def netKeyGet (s : KeyStore aes) (netKeyIndex : BitVec 16) : Option NetKey :=
  s.netKeys.find? (·.keyIndex = netKeyIndex)

def appKeyGet (s : KeyStore aes) (appKeyIndex : BitVec 16) : Option AppKey :=
  s.appKeys.find? (·.keyIndex = appKeyIndex)

def netKeyTxGet (s : KeyStore aes) (netKeyIndex : BitVec 16) : Option NetKeyValue :=
  (netKeyGet s netKeyIndex).map fun k =>
    if k.keyState = .phase2 then k.keyValue1 else k.keyValue0

def appKeyTxGet (s : KeyStore aes) (appKeyIndex : BitVec 16) : Option AppKeyValue :=
  (appKeyGet s appKeyIndex).map fun a =>
    if a.keyState = .phase2 then a.keyValue1 else a.keyValue0

/-- `meshx_dev_key_get`. The end of the range is computed without wrapping around. -/
def devKeyGet (devKeys : List DeviceKey) (addr : BitVec 16) : Option DeviceKey :=
  devKeys.find? fun d => d.primaryAddr.toNat ≤ addr.toNat ∧
    addr.toNat + 1 ≤ d.primaryAddr.toNat + d.elementNum.toNat

/-- The slots that reception tries for one application key. -/
def usableAppValues (a : AppKey) : List AppKeyValue :=
  match a.keyState with
  | .normal => [a.keyValue0]
  | .phase1 | .phase2 => [a.keyValue0, a.keyValue1]

/-- The write of `meshx_net_key_update`: phase 1 with the new value in slot 1. -/
def beginNetUpdate (s : KeyStore aes) (netKeyIndex : BitVec 16) (netKey : Key) : KeyStore aes :=
  s.modifyNet netKeyIndex
    (fun k => { k with keyState := .phase1, keyValue1 := netKeyDerive aes netKey }) fun _ => rfl

def netKeyUpdate (s : KeyStore aes) (netKeyIndex : BitVec 16) (netKey : Key) :
    Errno × KeyStore aes :=
  match netKeyGet s netKeyIndex with
  | none => (.notFound, s)
  | some k =>
    match k.keyState with
    | .phase2 => (.state, s)
    | .phase1 => (if k.keyValue1.netKey ≠ netKey then .inval else .success, s)
    | .normal => (.success, beginNetUpdate s netKeyIndex netKey)

/-- An application key as `meshx_app_key_update` leaves it: phase 1 with the new key in
slot 1. The AID is derived for slot 0. -/
def AppKey.beginUpdate (aes : Aes128) (appKey : Key) (a : AppKey) : AppKey :=
  { a with
    keyState := .phase1
    keyValue1 := ⟨appKey, a.keyValue1.aid⟩
    keyValue0 := appKeyDerive aes a.keyValue0.appKey }

def beginAppUpdate (s : KeyStore aes) (appKeyIndex : BitVec 16) (appKey : Key) : KeyStore aes :=
  s.modifyApp (·.keyIndex = appKeyIndex) (AppKey.beginUpdate aes appKey)
    (fun _ => rfl) (fun _ _ => rfl)

def appKeyUpdate (s : KeyStore aes) (appKeyIndex : BitVec 16) (appKey : Key) :
    Except Fault (Errno × KeyStore aes) :=
  match appKeyGet s appKeyIndex with
  | none => .ok (.notFound, s)
  | some a =>
    match netKeyGet s a.netKeyBind with
    | none => .error .nullDeref
    | some k =>
      if k.keyState = .phase1 then
        if a.keyState = .phase1 then
          .ok (if a.keyValue1.appKey ≠ appKey then .inval else .success, s)
        else .ok (.success, beginAppUpdate s appKeyIndex appKey)
      else .ok (.state, s)

/-- `meshx_app_key_state_transit`: only the state of the bound keys moves. -/
def appKeyStateTransit (s : KeyStore aes) (netKeyIndex : BitVec 16) (keyState : KeyState) :
    KeyStore aes :=
  s.modifyApp (fun a => a.netKeyBind = netKeyIndex ∧ a.keyState ≠ .normal)
    (fun a => { a with keyState := keyState }) (fun _ => rfl) (fun _ h => h)

/-- `meshx_find_net_key`: the last key of the list where none has the index. -/
def findNetKey (s : KeyStore aes) (netKeyIndex : BitVec 16) : Option NetKey :=
  (netKeyGet s netKeyIndex).or s.netKeys.getLast?

/-- `meshx_net_key_add`. Slot 1 is what the allocated memory holds, `misc`. -/
def netKeyAdd (s : KeyStore aes) (netKeyNum : ℕ) (mallocOk : Bool) (misc : NetKeyValue)
    (netKeyIndex : BitVec 16) (netKey : Key) : Errno × KeyStore aes :=
  if h : netKeyIndex ∈ s.netKeys.map (·.keyIndex) then (.already, s)
  else if netKeyNum ≤ s.netKeys.length then (.resource, s)
  else if !mallocOk then (.mem, s)
  else (.success, { s with
    netKeys := s.netKeys ++ [⟨.normal, netKeyIndex, netKeyDerive aes netKey, misc⟩]
    netNodup := by
      rw [List.map_append]
      exact List.nodup_append'.mpr ⟨s.netNodup, List.nodup_singleton _, by simpa using h⟩ })

def appKeyAdd (s : KeyStore aes) (appKeyNum : ℕ) (mallocOk : Bool) (misc : AppKeyValue)
    (netKeyIndex appKeyIndex : BitVec 16) (appKey : Key) : Errno × KeyStore aes :=
  if h : appKeyIndex ∈ s.appKeys.map (·.keyIndex) then (.already, s)
  else if appKeyNum ≤ s.appKeys.length then (.resource, s)
  else match findNetKey s netKeyIndex with
    | none => (.notFound, s)
    | some k =>
      if !mallocOk then (.mem, s)
      else (.success, { s with
        appKeys := s.appKeys ++
          [⟨.normal, appKeyIndex, appKeyDerive aes appKey, misc, k.keyIndex⟩]
        appNodup := by
          rw [List.map_append]
          exact List.nodup_append'.mpr ⟨s.appNodup, List.nodup_singleton _, by simpa using h⟩
        derived := by
          intro a ha
          rcases List.mem_append.mp ha with ha | ha
          · exact s.derived a ha
          · rw [List.mem_singleton.mp ha]
            rfl })

/-- Looking an index up in a rewritten list is rewriting what the list had under it. -/
theorem find?_map_of_index {α : Type*} {index : α → BitVec 16} {g : α → α}
    (hg : ∀ x, index (g x) = index x) (xs : List α) (i : BitVec 16) :
    (xs.map g).find? (index · = i) = (xs.find? (index · = i)).map g := by
  rw [List.find?_map]
  congr 2
  funext x
  simp [hg]

theorem find?_of_nodup {α : Type*} {index : α → BitVec 16} {xs : List α} {x : α}
    (hn : (xs.map index).Nodup) (hx : x ∈ xs) : xs.find? (index · = index x) = some x := by
  induction xs with
  | nil => cases hx
  | cons y ys ih =>
    simp only [List.map_cons, List.nodup_cons] at hn
    rcases List.mem_cons.mp hx with rfl | hx
    · simp
    · have hne : index y ≠ index x := fun he => hn.1 (he ▸ List.mem_map_of_mem hx)
      rw [List.find?_cons_of_neg (by simpa using hne)]
      exact ih hn.2 hx

theorem netKeyGet_of_mem {s : KeyStore aes} {k : NetKey} (h : k ∈ s.netKeys) :
    netKeyGet s k.keyIndex = some k := find?_of_nodup s.netNodup h

theorem netKeyGet_modifyNet {s : KeyStore aes} {index i : BitVec 16} {f : NetKey → NetKey}
    {hf : ∀ k, (f k).keyIndex = k.keyIndex} :
    netKeyGet (s.modifyNet index f hf) i =
      (netKeyGet s i).map fun k => if i = index then f k else k := by
  have hg : ∀ k : NetKey, (if k.keyIndex = index then f k else k).keyIndex = k.keyIndex := by
    intro k; split_ifs <;> simp [hf]
  refine (find?_map_of_index hg s.netKeys i).trans ?_
  rw [netKeyGet]
  cases hk : s.netKeys.find? (·.keyIndex = i) with
  | none => rfl
  | some k =>
    have hi : k.keyIndex = i := by simpa using List.find?_some hk
    simp [hi]

theorem appKeyGet_modifyApp {s : KeyStore aes} {p : AppKey → Bool} {f : AppKey → AppKey}
    {hi : ∀ a, (f a).keyIndex = a.keyIndex} {hd} {i : BitVec 16} :
    appKeyGet (s.modifyApp p f hi hd) i =
      (appKeyGet s i).map fun a => if p a then f a else a := by
  have hg : ∀ a : AppKey, (if p a then f a else a).keyIndex = a.keyIndex := by
    intro a; split_ifs <;> simp [hi]
  exact find?_map_of_index hg s.appKeys i

@[simp] theorem netKeyGet_modifyApp {s : KeyStore aes} {p : AppKey → Bool}
    {f : AppKey → AppKey} {hi hd} {i : BitVec 16} :
    netKeyGet (s.modifyApp p f hi hd) i = netKeyGet s i := rfl

@[simp] theorem appKeyGet_modifyNet {s : KeyStore aes} {index i : BitVec 16}
    {f : NetKey → NetKey} {hf} : appKeyGet (s.modifyNet index f hf) i = appKeyGet s i := rfl

theorem netKeyGet_beginNetUpdate {s : KeyStore aes} {index i : BitVec 16} {key : Key} :
    netKeyGet (beginNetUpdate s index key) i = (netKeyGet s i).map fun k =>
      if i = index then { k with keyState := .phase1, keyValue1 := netKeyDerive aes key }
      else k := netKeyGet_modifyNet

theorem appKeyGet_keyIndex {s : KeyStore aes} {i : BitVec 16} {a : AppKey}
    (h : appKeyGet s i = some a) : a.keyIndex = i := by
  simpa using List.find?_some h

theorem appKeyGet_beginAppUpdate {s : KeyStore aes} {index i : BitVec 16} {key : Key} :
    appKeyGet (beginAppUpdate s index key) i = (appKeyGet s i).map fun a =>
      if i = index then a.beginUpdate aes key else a := by
  refine appKeyGet_modifyApp.trans ?_
  cases ha : appKeyGet s i with
  | none => rfl
  | some a => simp [appKeyGet_keyIndex ha]

/-- An update of a network key takes effect from the normal state only. -/
theorem netKeyUpdate_store (s : KeyStore aes) (i : BitVec 16) (key : Key) :
    (netKeyUpdate s i key).2 =
      if (netKeyGet s i).map (·.keyState) = some .normal then beginNetUpdate s i key else s := by
  unfold netKeyUpdate
  cases hk : netKeyGet s i with
  | none => rfl
  | some k => cases hs : k.keyState <;> simp [hs]

/-- An accepted update of an application key leaves the new key in slot 1 in phase 1, with
its network key in phase 1; any other update changes nothing. -/
theorem appKeyUpdate_cases {s s' : KeyStore aes} {i : BitVec 16} {key : Key} {ret : Errno}
    (h : appKeyUpdate s i key = .ok (ret, s')) :
    (ret ≠ .success ∧ s' = s) ∨
    ∃ a k, appKeyGet s i = some a ∧ netKeyGet s a.netKeyBind = some k ∧ k.keyState = .phase1 ∧
      ret = .success ∧
      ((a.keyState = .phase1 ∧ a.keyValue1.appKey = key ∧ s' = s) ∨
        (a.keyState ≠ .phase1 ∧ s' = beginAppUpdate s i key)) := by
  unfold appKeyUpdate at h
  cases ha : appKeyGet s i with
  | none =>
    simp only [ha] at h
    cases h
    exact .inl ⟨by decide, rfl⟩
  | some a =>
    simp only [ha] at h
    cases hk : netKeyGet s a.netKeyBind with
    | none => simp [hk] at h
    | some k =>
      simp only [hk] at h
      split_ifs at h with hk1 ha1 hkey
      · cases h
        exact .inl ⟨by decide, rfl⟩
      · cases h
        exact .inr ⟨a, k, rfl, hk, hk1, rfl, .inl ⟨ha1, not_not.mp hkey, rfl⟩⟩
      · cases h
        exact .inr ⟨a, k, rfl, hk, hk1, rfl, .inr ⟨ha1, rfl⟩⟩
      · cases h
        exact .inl ⟨by decide, rfl⟩

end Meshx.Keys
