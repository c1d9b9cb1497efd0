import Meshx.Beacon
import Meshx.Net
import Meshx.Lib.Run

/-! The key store over whole runs: keys are added and updated, and beacons move the key
refresh phases. -/
namespace Meshx.KeyPhases

open Lib AesCcm Security Keys Beacon

/-- `net_key_num` and `app_key_num` of `meshx_node_params.config`. -/
structure KeyConf where
  netKeyNum : ℕ
  appKeyNum : ℕ

/-- What the platform answers an addition, and what fresh memory holds in slot 1. -/
structure KeyEnv where
  mallocOk : Bool
  netMisc : NetKeyValue
  appMisc : AppKeyValue

inductive StoreEvent
  | netKeyAdd (env : KeyEnv) (index : BitVec 16) (key : Key)
  | netKeyUpdate (index : BitVec 16) (key : Key)
  | appKeyAdd (env : KeyEnv) (netIndex index : BitVec 16) (key : Key)
  | appKeyUpdate (index : BitVec 16) (key : Key)
  | beacon (mem : List Byte)

variable {aes : Aes128}

def storeStep (conf : KeyConf) (s : KeyStore aes) : StoreEvent → Except Fault (KeyStore aes)
  | .netKeyAdd env index key =>
    .ok (netKeyAdd s conf.netKeyNum env.mallocOk env.netMisc index key).2
  | .netKeyUpdate index key => .ok (netKeyUpdate s index key).2
  | .appKeyAdd env netIndex index key =>
    .ok (appKeyAdd s conf.appKeyNum env.mallocOk env.appMisc netIndex index key).2
  | .appKeyUpdate index key => (·.2) <$> appKeyUpdate s index key
  | .beacon mem => .ok (beaconReceive s mem).store

def addedNetKey (aes : Aes128) (env : KeyEnv) (index : BitVec 16) (key : Key) : NetKey :=
  ⟨.normal, index, netKeyDerive aes key, env.netMisc⟩

def addedAppKey (aes : Aes128) (env : KeyEnv) (netIndex index : BitVec 16) (key : Key) : AppKey :=
  ⟨.normal, index, appKeyDerive aes key, env.appMisc, netIndex⟩

/-- What one event does to the key store. -/
inductive StoreCase (s : KeyStore aes) : StoreEvent → KeyStore aes → Prop
  | same {e : StoreEvent} : StoreCase s e s
  | netAdded {env : KeyEnv} {index : BitVec 16} {key : Key} {s' : KeyStore aes}
      (hfree : netKeyGet s index = none)
      (hnet : ∀ i, netKeyGet s' i =
        if i = index then some (addedNetKey aes env index key) else netKeyGet s i)
      (happ : ∀ i, appKeyGet s' i = appKeyGet s i) : StoreCase s (.netKeyAdd env index key) s'
  | netUpdated {index : BitVec 16} {key : Key} {k : NetKey} (hk : netKeyGet s index = some k)
      (hstate : k.keyState = .normal) :
      StoreCase s (.netKeyUpdate index key) (beginNetUpdate s index key)
  | appAdded {env : KeyEnv} {netIndex index : BitVec 16} {key : Key} {s' : KeyStore aes}
      {k : NetKey}
      (hk : netKeyGet s k.keyIndex = some k)
      (hnet : ∀ i, netKeyGet s' i = netKeyGet s i)
      (happ : ∀ i, appKeyGet s' i =
        if i = index then some (addedAppKey aes env k.keyIndex index key) else appKeyGet s i) :
      StoreCase s (.appKeyAdd env netIndex index key) s'
  | appUpdated {index : BitVec 16} {key : Key} {a : AppKey} {k : NetKey}
      (ha : appKeyGet s index = some a) (hk : netKeyGet s a.netKeyBind = some k)
      (hk1 : k.keyState = .phase1) (ha1 : a.keyState ≠ .phase1) :
      StoreCase s (.appKeyUpdate index key) (beginAppUpdate s index key)
  | entered {mem : List Byte} {k : NetKey} (hk : netKeyGet s k.keyIndex = some k)
      (hstate : k.keyState ≠ .normal) : StoreCase s (.beacon mem) (enterPhase2 s k.keyIndex)
  | revoked {mem : List Byte} {k : NetKey} (hk : netKeyGet s k.keyIndex = some k)
      (hstate : k.keyState ≠ .normal) : StoreCase s (.beacon mem) (revokeOld s k.keyIndex)

variable {conf : KeyConf} {s s' : KeyStore aes} {e : StoreEvent}

theorem find?_append_of_index {α : Type*} {index : α → BitVec 16} {xs : List α} {x : α}
    (hx : index x ∉ xs.map index) (i : BitVec 16) :
    (xs ++ [x]).find? (index · = i) =
      if i = index x then some x else xs.find? (index · = i) := by
  rw [List.find?_append]
  by_cases hi : i = index x
  · subst hi
    have hnone : xs.find? (index · = index x) = none := by
      rw [List.find?_eq_none]
      intro y hy hc
      exact hx (List.mem_map.mpr ⟨y, hy, by simpa using hc⟩)
    rw [hnone, if_pos rfl]
    simp
  · rw [if_neg hi, List.find?_cons_of_neg (by simpa using Ne.symm hi), List.find?_nil,
      Option.or_none]

theorem netKeyAdd_case {env : KeyEnv} {index : BitVec 16} {key : Key} :
    StoreCase s (.netKeyAdd env index key)
      (netKeyAdd s conf.netKeyNum env.mallocOk env.netMisc index key).2 := by
  unfold netKeyAdd
  split_ifs with hused hfull hmalloc
  · exact .same
  · exact .same
  · exact .same
  · have hfree : netKeyGet s index = none := by
      rw [netKeyGet, List.find?_eq_none]
      intro k hk hc
      exact hused (List.mem_map.mpr ⟨k, hk, by simpa using hc⟩)
    exact .netAdded hfree (fun i => find?_append_of_index hused i) fun _ => rfl

theorem findNetKey_get {i : BitVec 16} {k : NetKey} (h : findNetKey s i = some k) :
    netKeyGet s k.keyIndex = some k := by
  have hmem : k ∈ s.netKeys := by
    rcases Option.or_eq_some_iff.mp h with hget | ⟨-, hlast⟩
    · exact List.mem_of_find?_eq_some hget
    · exact List.mem_of_getLast? hlast
  exact netKeyGet_of_mem hmem

theorem appKeyAdd_case {env : KeyEnv} {netIndex index : BitVec 16} {key : Key} :
    StoreCase s (.appKeyAdd env netIndex index key)
      (appKeyAdd s conf.appKeyNum env.mallocOk env.appMisc netIndex index key).2 := by
  unfold appKeyAdd
  by_cases hused : index ∈ s.appKeys.map (·.keyIndex)
  · rw [dif_pos hused]
    exact .same
  rw [dif_neg hused]
  by_cases hfull : conf.appKeyNum ≤ s.appKeys.length
  · rw [if_pos hfull]
    exact .same
  rw [if_neg hfull]
  cases hf : findNetKey s netIndex with
  | none => exact .same
  | some k =>
    dsimp only
    split_ifs with hmalloc
    · exact .same
    · exact .appAdded (findNetKey_get hf) (fun _ => rfl) fun i => find?_append_of_index hused i

theorem storeStep_cases (h : storeStep conf s e = .ok s') : StoreCase s e s' := by
  cases e with
  | netKeyAdd env index key =>
    obtain rfl := Except.ok.inj h
    exact netKeyAdd_case
  | netKeyUpdate index key =>
    obtain rfl := Except.ok.inj h
    rw [netKeyUpdate_store]
    split_ifs with hn
    · obtain ⟨k, hk, hstate⟩ := Option.map_eq_some_iff.mp hn
      exact .netUpdated hk hstate
    · exact .same
  | appKeyAdd env netIndex index key =>
    obtain rfl := Except.ok.inj h
    exact appKeyAdd_case
  | appKeyUpdate index key =>
    obtain ⟨⟨ret, t⟩, ht, rfl⟩ := map_ok h
    rcases appKeyUpdate_cases ht with ⟨-, rfl⟩ | ⟨a, k, ha, hk, hk1, -, ⟨-, -, rfl⟩ | ⟨ha1, rfl⟩⟩
    · exact .same
    · exact .same
    · exact .appUpdated ha hk hk1 ha1
  | beacon mem =>
    obtain rfl := Except.ok.inj h
    rcases beaconReceive_cases s mem with he | ⟨k, hk, hstate, he | he⟩ <;> rw [he]
    · exact .same
    · exact .entered hk hstate
    · exact .revoked hk hstate

/-- `key_state` of an application key is the normal state or that of its network key. -/
def Follows (s : KeyStore aes) : Prop :=
  ∀ i a, appKeyGet s i = some a → ∃ k, netKeyGet s a.netKeyBind = some k ∧
    (a.keyState = .normal ∨ a.keyState = k.keyState)

/-- An update of the network key from the normal state finds its application keys there. -/
theorem Follows.netUpdated (h : Follows s) {index : BitVec 16} {key : Key} {k : NetKey}
    (hk : netKeyGet s index = some k) (hstate : k.keyState = .normal) :
    Follows (beginNetUpdate s index key) := by
  intro i a ha
  obtain ⟨b, hb, hfollow⟩ := h i a ha
  rw [netKeyGet_beginNetUpdate, hb]
  refine ⟨_, rfl, ?_⟩
  dsimp only
  by_cases hbind : a.netKeyBind = index
  · rw [hbind, hk, Option.some_inj] at hb
    subst hb
    exact .inl (hfollow.elim (fun hn => hn) fun hs => hs.trans hstate)
  · rw [if_neg hbind]
    exact hfollow

theorem Follows.appUpdated (h : Follows s) {index : BitVec 16} {key : Key} {a : AppKey} {k : NetKey}
    (ha : appKeyGet s index = some a) (hk : netKeyGet s a.netKeyBind = some k)
    (hk1 : k.keyState = .phase1) : Follows (beginAppUpdate s index key) := by
  intro i b hb
  rw [appKeyGet_beginAppUpdate, Option.map_eq_some_iff] at hb
  obtain ⟨b, hb, rfl⟩ := hb
  by_cases hi : i = index
  · rw [hi, ha, Option.some_inj] at hb
    subst hb
    rw [if_pos hi]
    exact ⟨k, hk, .inr hk1.symm⟩
  · rw [if_neg hi]
    exact h i b hb

/-- A phase change reaches every bound application key that is not in the normal state. -/
theorem Follows.transit (h : Follows s) {index : BitVec 16} {state : KeyState} {f : NetKey → NetKey}
    {hf : ∀ k, (f k).keyIndex = k.keyIndex} (hstate : ∀ k, (f k).keyState = state) :
    Follows (appKeyStateTransit (s.modifyNet index f hf) index state) := by
  intro i a ha
  rw [appKeyGet_transit, appKeyGet_modifyNet, Option.map_eq_some_iff] at ha
  obtain ⟨b, hb, rfl⟩ := ha
  obtain ⟨k, hk, hfollow⟩ := h i b hb
  rw [appKeyStateTransit, netKeyGet_modifyApp, netKeyGet_modifyNet]
  by_cases hmove : b.netKeyBind = index ∧ b.keyState ≠ .normal
  · rw [if_pos hmove, hk]
    refine ⟨_, rfl, .inr ?_⟩
    dsimp only
    rw [if_pos hmove.1, hstate]
  · rw [if_neg hmove, hk]
    refine ⟨_, rfl, ?_⟩
    dsimp only
    by_cases hbind : b.netKeyBind = index
    · exact .inl (not_not.mp fun hn => hmove ⟨hbind, hn⟩)
    · rw [if_neg hbind]
      exact hfollow

theorem Follows.step (h : Follows s) (hs : storeStep conf s e = .ok s') : Follows s' := by
  cases storeStep_cases hs with
  | same => exact h
  | netAdded hfree hnet happ =>
    intro i a ha
    obtain ⟨k, hk, hfollow⟩ := h i a (happ i ▸ ha)
    refine ⟨k, ?_, hfollow⟩
    rw [hnet, if_neg ?_, hk]
    rintro hi
    simp [← hi, hk] at hfree
  | netUpdated hk hstate => exact h.netUpdated hk hstate
  | appAdded hk hnet happ =>
    intro i a ha
    rw [happ] at ha
    split_ifs at ha with hi
    · obtain rfl := Option.some.inj ha
      exact ⟨_, (hnet _).trans hk, .inl rfl⟩
    · obtain ⟨k, hk, hfollow⟩ := h i a ha
      exact ⟨k, (hnet _).trans hk, hfollow⟩
  | appUpdated ha hk hk1 _ => exact h.appUpdated ha hk hk1
  | entered _ _ => exact h.transit fun _ => rfl
  | revoked _ _ => exact h.transit fun _ => rfl

theorem appKeyGet_of_mem {a : AppKey} (h : a ∈ s.appKeys) : appKeyGet s a.keyIndex = some a :=
  find?_of_nodup s.appNodup h

theorem netKeys_forall {p : NetKey → Prop} :
    (∀ k ∈ s.netKeys, p k) ↔ ∀ i k, netKeyGet s i = some k → p k :=
  ⟨fun h _ k hk => h k (List.mem_of_find?_eq_some hk), fun h k hk => h _ k (netKeyGet_of_mem hk)⟩

theorem appKeys_forall {p : AppKey → Prop} :
    (∀ a ∈ s.appKeys, p a) ↔ ∀ i a, appKeyGet s i = some a → p a :=
  ⟨fun h _ a ha => h a (List.mem_of_find?_eq_some ha), fun h a ha => h _ a (appKeyGet_of_mem ha)⟩

/-- An update of an application key from another state than phase 1 is accepted in phase 1 of
its network key. -/
theorem storeStep_appKeyUpdate {index : BitVec 16} {key : Key} {a : AppKey} {k : NetKey}
    (ha : appKeyGet s index = some a) (hk : netKeyGet s a.netKeyBind = some k)
    (hk1 : k.keyState = .phase1) (ha1 : a.keyState ≠ .phase1) :
    storeStep conf s (.appKeyUpdate index key) = .ok (beginAppUpdate s index key) := by
  simp [storeStep, appKeyUpdate, ha, hk, hk1, ha1, Functor.map, Except.map]

/-- No event reaches past the bound network keys. -/
theorem Follows.step_ok (h : Follows s) : ∃ s', storeStep conf s e = .ok s' := by
  cases e with
  | appKeyUpdate index key =>
    simp only [storeStep, appKeyUpdate]
    cases ha : appKeyGet s index with
    | none => exact ⟨s, rfl⟩
    | some a =>
      obtain ⟨k, hk, -⟩ := h index a ha
      dsimp only
      rw [hk]
      dsimp only
      split_ifs <;> exact ⟨_, rfl⟩
  | netKeyAdd env index key => exact ⟨_, rfl⟩
  | netKeyUpdate index key => exact ⟨_, rfl⟩
  | appKeyAdd env netIndex index key => exact ⟨_, rfl⟩
  | beacon mem => exact ⟨_, rfl⟩

theorem Follows.run_ok (h : Follows s) (es : List StoreEvent) :
    ∃ s', run (storeStep conf) s es = .ok s' ∧ Follows s' := by
  induction es generalizing s with
  | nil => exact ⟨s, rfl, h⟩
  | cons e es ih =>
    obtain ⟨t, ht⟩ := @Follows.step_ok aes conf s e h
    obtain ⟨s', hs', hfollows⟩ := ih (h.step ht)
    exact ⟨s', by rw [run, ht]; exact hs', hfollows⟩

theorem empty_follows : Follows (KeyStore.empty aes) := fun i a ha => by cases ha

/-- Every run from the empty store leaves each application key in the normal state or in the
phase of the network key it is bound to. -/
theorem appKeys_follow (conf : KeyConf) (es : List StoreEvent) :
    ∃ s, run (storeStep conf) (KeyStore.empty aes) es = .ok s ∧
      ∀ a ∈ s.appKeys, ∃ k ∈ s.netKeys, k.keyIndex = a.netKeyBind ∧
        (a.keyState = .normal ∨ a.keyState = k.keyState) := by
  obtain ⟨s, hs, hfollows⟩ := @Follows.run_ok aes conf _ empty_follows es
  refine ⟨s, hs, appKeys_forall.mpr fun i a ha => ?_⟩
  obtain ⟨k, hk, hfollow⟩ := hfollows i a ha
  exact ⟨k, List.mem_of_find?_eq_some hk, by simpa using List.find?_some hk, hfollow⟩

/-- The derived parts of a network key: slot 0 always, slot 1 under a refresh. -/
def NetInStep (aes : Aes128) (k : NetKey) : Prop :=
  k.keyValue0 = netKeyDerive aes k.keyValue0.netKey ∧
    (k.keyState ≠ .normal → k.keyValue1 = netKeyDerive aes k.keyValue1.netKey)

def AppInStep (aes : Aes128) (a : AppKey) : Prop :=
  a.keyValue0.aid = k4 aes a.keyValue0.appKey ∧
    (a.keyState ≠ .normal → a.keyValue1.aid = k4 aes a.keyValue1.appKey)

/-- What is derived from the usable key values is in step with them. -/
def InStep (s : KeyStore aes) : Prop :=
  (∀ k ∈ s.netKeys, NetInStep aes k) ∧ ∀ a ∈ s.appKeys, AppInStep aes a

def KeepsInStep (conf : KeyConf) (s : KeyStore aes) (e : StoreEvent) : Prop :=
  ∀ s', storeStep conf s e = .ok s' → InStep s'

/-- Where an update of an application key takes effect, slot 1 holds the AID of the new key
already. -/
def RightAid (s : KeyStore aes) : StoreEvent → Prop
  | .appKeyUpdate index key => ∀ a k, appKeyGet s index = some a →
      netKeyGet s a.netKeyBind = some k → k.keyState = .phase1 → a.keyState ≠ .phase1 →
      a.keyValue1.aid = k4 aes key
  | _ => True

theorem inStep_iff_get : InStep s ↔
    (∀ i k, netKeyGet s i = some k → NetInStep aes k) ∧
      ∀ i a, appKeyGet s i = some a → AppInStep aes a :=
  and_congr netKeys_forall appKeys_forall

/-- The phase changes of a beacon keep both slots in step. -/
theorem InStep.transit (h : InStep s) {index : BitVec 16} {state : KeyState} {f : NetKey → NetKey}
    {hf : ∀ k, (f k).keyIndex = k.keyIndex} {k : NetKey} (hk : netKeyGet s index = some k)
    (hnew : NetInStep aes (f k)) :
    InStep (appKeyStateTransit (s.modifyNet index f hf) index state) := by
  rw [inStep_iff_get] at h ⊢
  obtain ⟨hnet, happ⟩ := h
  refine ⟨fun i k' hk' => ?_, fun i a ha => ?_⟩
  · rw [appKeyStateTransit, netKeyGet_modifyApp, netKeyGet_modifyNet, Option.map_eq_some_iff] at hk'
    obtain ⟨old, hold, rfl⟩ := hk'
    split_ifs with hi
    · rw [hi, hk, Option.some_inj] at hold
      exact hold ▸ hnew
    · exact hnet i old hold
  · rw [appKeyGet_transit, appKeyGet_modifyNet, Option.map_eq_some_iff] at ha
    obtain ⟨b, hb, rfl⟩ := ha
    have hstep := happ i b hb
    split_ifs with hmove
    · exact ⟨hstep.1, fun _ => hstep.2 hmove.2⟩
    · exact hstep

theorem InStep.step (h : InStep s) (hc : StoreCase s e s') (haid : RightAid s e) : InStep s' := by
  have hget := inStep_iff_get.mp h
  cases hc with
  | same => exact h
  | netAdded hfree hnet happ =>
    refine inStep_iff_get.mpr ⟨fun i k hk => ?_, fun i a ha => hget.2 i a (happ i ▸ ha)⟩
    rw [hnet] at hk
    split_ifs at hk
    · obtain rfl := Option.some.inj hk
      exact ⟨rfl, fun hn => absurd rfl hn⟩
    · exact hget.1 i k hk
  | @netUpdated index key k hk hstate =>
    refine inStep_iff_get.mpr ⟨fun i k' hk' => ?_, hget.2⟩
    rw [netKeyGet_beginNetUpdate, Option.map_eq_some_iff] at hk'
    obtain ⟨old, hold, rfl⟩ := hk'
    split_ifs
    · exact ⟨(hget.1 i old hold).1, fun _ => rfl⟩
    · exact hget.1 i old hold
  | appAdded hk hnet happ =>
    refine inStep_iff_get.mpr ⟨fun i k' hk' => hget.1 i k' (hnet i ▸ hk'), fun i a ha => ?_⟩
    rw [happ] at ha
    split_ifs at ha
    · obtain rfl := Option.some.inj ha
      exact ⟨rfl, fun hn => absurd rfl hn⟩
    · exact hget.2 i a ha
  | @appUpdated index key a k ha hk hk1 ha1 =>
    refine inStep_iff_get.mpr ⟨hget.1, fun i b hb => ?_⟩
    rw [appKeyGet_beginAppUpdate, Option.map_eq_some_iff] at hb
    obtain ⟨old, hold, rfl⟩ := hb
    split_ifs with hi
    · rw [hi, ha, Option.some_inj] at hold
      subst hold
      exact ⟨rfl, fun _ => haid a k ha hk hk1 ha1⟩
    · exact hget.2 i old hold
  | @entered mem k hk hstate =>
    have hstep := hget.1 _ k hk
    exact h.transit hk ⟨hstep.1, fun _ => hstep.2 hstate⟩
  | @revoked mem k hk hstate =>
    have hstep := hget.1 _ k hk
    exact h.transit hk ⟨hstep.2 hstate, fun hn => absurd rfl hn⟩

theorem keepsInStep_iff (h : InStep s) : KeepsInStep conf s e ↔ RightAid s e := by
  refine ⟨fun hkeeps => ?_, fun haid s' hs => h.step (storeStep_cases hs) haid⟩
  cases e with
  | appKeyUpdate index key =>
    intro a k ha hk hk1 ha1
    have hnext := inStep_iff_get.mp (hkeeps _ (storeStep_appKeyUpdate ha hk hk1 ha1))
    have hnew : appKeyGet (beginAppUpdate s index key) index = some (a.beginUpdate aes key) := by
      rw [appKeyGet_beginAppUpdate, ha, Option.map_some, if_pos rfl]
    exact (hnext.2 index _ hnew).2 (by simp [AppKey.beginUpdate])
  | netKeyAdd env index key => trivial
  | netKeyUpdate index key => trivial
  | appKeyAdd env netIndex index key => trivial
  | beacon mem => trivial

theorem empty_inStep : InStep (KeyStore.empty aes) :=
  ⟨by simp [KeyStore.empty], by simp [KeyStore.empty]⟩

/-- In every run from the empty store what is derived stays in step with the usable keys
exactly if every effective update of an application key finds the AID of the new key in
slot 1: the update derives that of slot 0. -/
theorem inStep_iff (aes : Aes128) (conf : KeyConf) (es : List StoreEvent) :
    RunAll (storeStep conf) (KeepsInStep conf) (KeyStore.empty aes) es ↔
      RunAll (storeStep conf) RightAid (KeyStore.empty aes) es :=
  RunAll.iff_of_invariant (fun s _ _ (h : InStep s) haid hs => h.step (storeStep_cases hs) haid)
    (fun _ _ h => keepsInStep_iff h) empty_inStep

def plainKeyConf : KeyConf := ⟨2, 2⟩

/-- Fresh memory that holds zeros. -/
def zeroMemory : KeyEnv := ⟨true, ⟨[], [], [], 0, [], [], []⟩, ⟨[], 0⟩⟩

/-- The new key of a refresh is in slot 1 with the AID the memory held there. -/
theorem aid_out_of_step : ¬ RunAll (storeStep plainKeyConf) (KeepsInStep plainKeyConf)
    (KeyStore.empty maskAes)
    [.netKeyAdd zeroMemory 0 (List.replicate 16 1), .appKeyAdd zeroMemory 0 0 (List.replicate 16 3),
      .netKeyUpdate 0 (List.replicate 16 2), .appKeyUpdate 0 (List.replicate 16 5)] := by
  intro h
  have hstep := (h.2 _ rfl).2 _ rfl |>.2 _ rfl |>.1 _ rfl
  exact absurd ((hstep.2 _ (List.mem_singleton_self _)).2 (by decide)) (by decide)

end Meshx.KeyPhases
