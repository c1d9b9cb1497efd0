import Meshx.KeyPhases

/-! Application keys are bound to network keys by a pointer into the list of network keys, from
which keys can be deleted. What of the bindings holds over runs of the calls that add, update
and delete keys. -/
namespace Meshx.KeyBindings

open Lib AesCcm Security Keys KeyPhases

variable {aes : Aes128}

/-- The list of network keys without one. -/
def removeNet (s : KeyStore aes) (netKeyIndex : BitVec 16) : KeyStore aes :=
  { s with
    netKeys := s.netKeys.eraseP (·.keyIndex = netKeyIndex)
    netNodup := s.netNodup.sublist (List.eraseP_sublist.map _) }

/-- `meshx_net_key_delete`. -/
def netKeyDelete (s : KeyStore aes) (netKeyIndex : BitVec 16) : Errno × KeyStore aes :=
  match netKeyGet s netKeyIndex with
  | none => (.notFound, s)
  | some _ => (.success, removeNet s netKeyIndex)

/-- The key store with the bindings as they are in memory: `freed` are the application keys
whose network key has been freed. The ghost `given` has the network key index that each
application key was added with. -/
structure Bindings (aes : Aes128) where
  store : KeyStore aes
  freed : List (BitVec 16)
  given : BitVec 16 → BitVec 16

def Bindings.empty (aes : Aes128) : Bindings aes := ⟨.empty aes, [], fun _ => 0⟩

/-- The application keys bound to a network key. -/
def boundKeys (s : KeyStore aes) (netKeyIndex : BitVec 16) : List (BitVec 16) :=
  (s.appKeys.filter (·.netKeyBind = netKeyIndex)).map (·.keyIndex)

inductive BindEvent
  | netKeyAdd (env : KeyEnv) (index : BitVec 16) (key : Key)
  | netKeyUpdate (index : BitVec 16) (key : Key)
  | netKeyDelete (index : BitVec 16)
  | appKeyAdd (env : KeyEnv) (netIndex index : BitVec 16) (key : Key)
  | appKeyUpdate (netIndex index : BitVec 16) (key : Key)

/-- One call, with its return code. `meshx_app_key_update` reads through the binding of the
key and does not look at its parameter `net_key_index`. -/
def bindCall (conf : KeyConf) (b : Bindings aes) : BindEvent → Except Fault (Errno × Bindings aes)
  | .netKeyAdd env index key =>
    let out := netKeyAdd b.store conf.netKeyNum env.mallocOk env.netMisc index key
    .ok (out.1, { b with store := out.2 })
  | .netKeyUpdate index key =>
    let out := netKeyUpdate b.store index key
    .ok (out.1, { b with store := out.2 })
  | .netKeyDelete index =>
    let out := netKeyDelete b.store index
    let freed := if out.1 = .success then boundKeys b.store index else []
    .ok (out.1, { b with store := out.2, freed := b.freed ++ freed })
  | .appKeyAdd env netIndex index key =>
    let out := appKeyAdd b.store conf.appKeyNum env.mallocOk env.appMisc netIndex index key
    let given := if out.1 = .success then Function.update b.given index netIndex else b.given
    .ok (out.1, { b with store := out.2, given := given })
  | .appKeyUpdate _ index key =>
    if (appKeyGet b.store index).isSome ∧ b.freed.contains index then .error .useAfterFree
    else do
      let out ← appKeyUpdate b.store index key
      return (out.1, { b with store := out.2 })

def bindStep (conf : KeyConf) (b : Bindings aes) (e : BindEvent) : Except Fault (Bindings aes) :=
  (·.2) <$> bindCall conf b e

/-- Every application key is bound to a network key of the list, the one it was added for. -/
def Intact (b : Bindings aes) : Prop :=
  ∀ i a, appKeyGet b.store i = some a →
    i ∉ b.freed ∧ a.netKeyBind = b.given i ∧ ∃ k, netKeyGet b.store a.netKeyBind = some k

/-- What a call that returns `ret` is to keep to: no key is added for a network key that does
not exist, and an update that names another network key is refused without effect. -/
def Honoured (b : Bindings aes) (ret : Errno) (b' : Bindings aes) : BindEvent → Prop
  | .appKeyAdd _ netIndex _ _ => ret = .success → ∃ k, netKeyGet b.store netIndex = some k
  | .appKeyUpdate netIndex index _ =>
    ∀ a, appKeyGet b.store index = some a → a.netKeyBind ≠ netIndex → ret ≠ .success ∧ b' = b
  | _ => True

/-- The call is made, keeps to this and leaves the bindings intact. -/
def KeepsBindings (conf : KeyConf) (b : Bindings aes) (e : BindEvent) : Prop :=
  ∃ ret b', bindCall conf b e = .ok (ret, b') ∧ Honoured b ret b' e ∧ Intact b'

/-- The checks of `meshx_app_key_add` that do not look for the network key. -/
def Admits (conf : KeyConf) (s : KeyStore aes) (env : KeyEnv) (index : BitVec 16) : Prop :=
  appKeyGet s index = none ∧ s.appKeys.length < conf.appKeyNum ∧ env.mallocOk = true

/-- A network key is deleted only when no application key is bound to it; an addition that
the other checks let through names a network key of the list, unless the list is empty; an
update that would be accepted names the network key that the application key is bound to. -/
def Proper (conf : KeyConf) (b : Bindings aes) : BindEvent → Prop
  | .netKeyAdd .. | .netKeyUpdate .. => True
  | .netKeyDelete index => ∀ i a, appKeyGet b.store i = some a → a.netKeyBind ≠ index
  | .appKeyAdd env netIndex index _ =>
    Admits conf b.store env index → b.store.netKeys ≠ [] →
      ∃ k, netKeyGet b.store netIndex = some k
  | .appKeyUpdate netIndex index key =>
    ∀ a k, appKeyGet b.store index = some a → netKeyGet b.store a.netKeyBind = some k →
      k.keyState = .phase1 → (a.keyState = .phase1 → a.keyValue1.appKey = key) →
      a.netKeyBind = netIndex

variable {conf : KeyConf} {b b' : Bindings aes} {s : KeyStore aes} {e : BindEvent}

theorem find?_eraseP_of_nodup {α : Type*} {index : α → BitVec 16} {xs : List α}
    (hn : (xs.map index).Nodup) (i j : BitVec 16) :
    (xs.eraseP (index · = j)).find? (index · = i) =
      if i = j then none else xs.find? (index · = i) := by
  induction xs with
  | nil => simp
  | cons x xs ih =>
    rw [List.map_cons, List.nodup_cons] at hn
    by_cases hx : index x = j
    · rw [List.eraseP_cons_of_pos (by simpa using hx)]
      by_cases hi : i = j
      · rw [if_pos hi, List.find?_eq_none]
        intro y hy hc
        have hyj : index y = index x := (by simpa using hc : index y = i).trans (hi.trans hx.symm)
        exact hn.1 (hyj ▸ List.mem_map_of_mem hy)
      · rw [if_neg hi, List.find?_cons_of_neg (by simpa [hx] using Ne.symm hi)]
    · rw [List.eraseP_cons_of_neg (by simpa using hx)]
      by_cases hxi : index x = i
      · rw [List.find?_cons_of_pos (by simpa using hxi),
          List.find?_cons_of_pos (by simpa using hxi), if_neg (hxi ▸ hx)]
      · rw [List.find?_cons_of_neg (by simpa using hxi),
          List.find?_cons_of_neg (by simpa using hxi), ih hn.2]

theorem netKeyGet_removeNet (index i : BitVec 16) :
    netKeyGet (removeNet s index) i = if i = index then none else netKeyGet s i :=
  find?_eraseP_of_nodup s.netNodup i index

theorem mem_boundKeys {index i : BitVec 16} {a : AppKey} (ha : appKeyGet s i = some a) :
    i ∈ boundKeys s index ↔ a.netKeyBind = index := by
  rw [boundKeys, List.mem_map]
  constructor
  · rintro ⟨d, hd, rfl⟩
    obtain ⟨hmem, hbind⟩ := List.mem_filter.mp hd
    have hget : appKeyGet s d.keyIndex = some d := find?_of_nodup s.appNodup hmem
    obtain rfl := Option.some.inj (hget.symm.trans ha)
    simpa using hbind
  · rintro rfl
    refine ⟨a, List.mem_filter.mpr ⟨List.mem_of_find?_eq_some ha, by simp⟩, appKeyGet_keyIndex ha⟩

theorem appKeyGet_none {index : BitVec 16} :
    appKeyGet s index = none ↔ index ∉ s.appKeys.map (·.keyIndex) := by
  rw [appKeyGet, List.find?_eq_none, List.mem_map]
  constructor
  · rintro h ⟨a, ha, hi⟩
    exact h a ha (by simpa using hi)
  · exact fun h a ha hc => h ⟨a, ha, by simpa using hc⟩

/-- An addition is refused without effect, or binds the key to what `meshx_find_net_key`
returns. -/
theorem appKeyAdd_outcome (conf : KeyConf) (s : KeyStore aes) (env : KeyEnv)
    (netIndex index : BitVec 16) (key : Key) :
    let out := appKeyAdd s conf.appKeyNum env.mallocOk env.appMisc netIndex index key
    (¬ (Admits conf s env index ∧ findNetKey s netIndex ≠ none) ∧ out.1 ≠ .success ∧ out.2 = s) ∨
    ∃ k, Admits conf s env index ∧ findNetKey s netIndex = some k ∧ out.1 = .success ∧
      (∀ i, netKeyGet out.2 i = netKeyGet s i) ∧
      ∀ i, appKeyGet out.2 i =
        if i = index then some (addedAppKey aes env k.keyIndex index key) else appKeyGet s i := by
  intro out
  have hout : out = appKeyAdd s conf.appKeyNum env.mallocOk env.appMisc netIndex index key := rfl
  unfold appKeyAdd at hout
  by_cases hused : index ∈ s.appKeys.map (·.keyIndex)
  · rw [dif_pos hused] at hout
    exact .inl ⟨fun hc => appKeyGet_none.mp hc.1.1 hused, by simp [hout]⟩
  rw [dif_neg hused] at hout
  by_cases hfull : conf.appKeyNum ≤ s.appKeys.length
  · rw [if_pos hfull] at hout
    exact .inl ⟨fun hc => absurd hc.1.2.1 (not_lt.mpr hfull), by simp [hout]⟩
  rw [if_neg hfull] at hout
  cases hf : findNetKey s netIndex with
  | none =>
    simp only [hf] at hout
    exact .inl ⟨fun hc => hc.2 rfl, by simp [hout]⟩
  | some k =>
    simp only [hf] at hout
    by_cases hmalloc : env.mallocOk = true
    · rw [if_neg (by simp [hmalloc])] at hout
      refine .inr ⟨k, ⟨appKeyGet_none.mpr hused, not_le.mp hfull, hmalloc⟩, rfl, ?_, ?_, ?_⟩
      · rw [hout]
      · rw [hout]
        exact fun _ => rfl
      · rw [hout]
        exact fun i => find?_append_of_index hused i
    · rw [if_pos (by simpa using hmalloc)] at hout
      exact .inl ⟨fun hc => hmalloc hc.1.2.2, by simp [hout]⟩

/-- The search ends at the last key of the list when none has the index. -/
theorem findNetKey_some {i : BitVec 16} {k : NetKey} (h : findNetKey s i = some k) :
    netKeyGet s i = some k ∨ netKeyGet s i = none ∧ k.keyIndex ≠ i := by
  rcases Option.or_eq_some_iff.mp h with hget | ⟨hnone, hlast⟩
  · exact .inl hget
  · refine .inr ⟨hnone, fun hi => ?_⟩
    have hno := List.find?_eq_none.mp hnone k (List.mem_of_getLast? hlast)
    exact hno (by simpa using hi)

theorem findNetKey_none {i : BitVec 16} : findNetKey s i = none ↔ s.netKeys = [] := by
  rw [findNetKey, Option.or_eq_none_iff, List.getLast?_eq_none_iff]
  refine ⟨fun h => h.2, fun h => ⟨?_, h⟩⟩
  rw [netKeyGet, h]
  rfl

theorem Intact.of_frame (h : Intact b) {store : KeyStore aes}
    (happ : ∀ i a, appKeyGet store i = some a →
      ∃ d, appKeyGet b.store i = some d ∧ a.netKeyBind = d.netKeyBind)
    (hnet : ∀ i k, netKeyGet b.store i = some k → ∃ k', netKeyGet store i = some k') :
    Intact { b with store := store } := by
  intro i a ha
  obtain ⟨d, hd, hbind⟩ := happ i a ha
  obtain ⟨hlive, hgiven, k, hk⟩ := h i d hd
  rw [← hbind] at hgiven hk
  exact ⟨hlive, hgiven, hnet _ k hk⟩

theorem keepsBindings_of_call {ret : Errno} (hc : bindCall conf b e = .ok (ret, b')) :
    KeepsBindings conf b e ↔ Honoured b ret b' e ∧ Intact b' := by
  refine ⟨fun ⟨ret', c, hc', hkeeps⟩ => ?_, fun hkeeps => ⟨ret, b', hc, hkeeps⟩⟩
  obtain ⟨rfl, rfl⟩ := Prod.mk.inj (Except.ok.inj (hc'.symm.trans hc))
  exact hkeeps

theorem Intact.netKeyAdd (h : Intact b) {env : KeyEnv} {index : BitVec 16} {key : Key} :
    Intact { b with
      store := (netKeyAdd b.store conf.netKeyNum env.mallocOk env.netMisc index key).2 } := by
  have hcase := @netKeyAdd_case _ conf b.store env index key
  generalize (Keys.netKeyAdd b.store conf.netKeyNum env.mallocOk env.netMisc index key).2 = store
    at hcase ⊢
  cases hcase with
  | same => exact h
  | netAdded hfree hnet happ =>
    refine h.of_frame (fun i a ha => ⟨a, (happ i).symm.trans ha, rfl⟩) fun i k hk => ?_
    rw [hnet]
    split_ifs
    · exact ⟨_, rfl⟩
    · exact ⟨k, hk⟩

theorem Intact.netKeyUpdate (h : Intact b) {index : BitVec 16} {key : Key} :
    Intact { b with store := (netKeyUpdate b.store index key).2 } := by
  rw [netKeyUpdate_store]
  split_ifs
  · refine h.of_frame (fun i a ha => ⟨a, ha, rfl⟩) fun i k hk => ?_
    rw [netKeyGet_beginNetUpdate, hk]
    exact ⟨_, rfl⟩
  · exact h

theorem Intact.netKeyDelete_iff (h : Intact b) {index : BitVec 16} :
    KeepsBindings conf b (.netKeyDelete index) ↔ Proper conf b (.netKeyDelete index) := by
  cases hk : netKeyGet b.store index with
  | none =>
    have hdel : netKeyDelete b.store index = (.notFound, b.store) := by rw [netKeyDelete, hk]
    have hcall : bindCall conf b (.netKeyDelete index) = .ok (.notFound, b) := by
      simp [bindCall, hdel]
    rw [keepsBindings_of_call hcall]
    refine iff_of_true ⟨trivial, h⟩ fun i a ha hbind => ?_
    obtain ⟨-, -, k, hk'⟩ := h i a ha
    rw [hbind, hk] at hk'
    cases hk'
  | some k =>
    have hdel : netKeyDelete b.store index = (.success, removeNet b.store index) := by
      rw [netKeyDelete, hk]
    have hcall : bindCall conf b (.netKeyDelete index) = .ok (.success, { b with
        store := removeNet b.store index
        freed := b.freed ++ boundKeys b.store index }) := by
      simp [bindCall, hdel]
    rw [keepsBindings_of_call hcall]
    constructor
    · intro hkeeps i a ha hbind
      exact (hkeeps.2 i a ha).1 (List.mem_append_right _ ((mem_boundKeys ha).mpr hbind))
    · intro hfree
      refine ⟨trivial, fun i a ha => ?_⟩
      obtain ⟨hlive, hgiven, k', hk'⟩ := h i a ha
      refine ⟨fun hmem => ?_, hgiven, k', ?_⟩
      · exact (List.mem_append.mp hmem).elim hlive fun hb => hfree i a ha ((mem_boundKeys ha).mp hb)
      · rw [netKeyGet_removeNet, if_neg (hfree i a ha)]
        exact hk'

theorem Intact.appKeyAdd_iff (h : Intact b) (hfreed : b.freed = []) {env : KeyEnv}
    {netIndex index : BitVec 16} {key : Key} :
    KeepsBindings conf b (.appKeyAdd env netIndex index key) ↔
      Proper conf b (.appKeyAdd env netIndex index key) := by
  have hout := appKeyAdd_outcome conf b.store env netIndex index key
  have hcall : bindCall conf b (.appKeyAdd env netIndex index key) = .ok (_, _) := rfl
  rw [keepsBindings_of_call hcall]
  generalize Keys.appKeyAdd b.store conf.appKeyNum env.mallocOk env.appMisc netIndex index key = out
    at hout ⊢
  obtain ⟨ret, store⟩ := out
  dsimp only at hout ⊢
  rcases hout with ⟨hno, hret, rfl⟩ | ⟨k, hadm, hk, rfl, hnet, happ⟩
  · rw [if_neg hret]
    refine iff_of_true ⟨fun hs => absurd hs hret, h⟩ fun hadm hne => ?_
    exact absurd ⟨hadm, fun hf => hne (findNetKey_none.mp hf)⟩ hno
  · have hne : b.store.netKeys ≠ [] := fun he => by
      rw [findNetKey_none.mpr he] at hk
      cases hk
    rw [if_pos rfl]
    constructor
    · exact fun hkeeps _ _ => hkeeps.1 rfl
    · intro hproper
      have hget : netKeyGet b.store netIndex = some k := by
        refine (findNetKey_some hk).resolve_right fun hmiss => ?_
        obtain ⟨k', hk'⟩ := hproper hadm hne
        rw [hmiss.1] at hk'
        cases hk'
      have hki : k.keyIndex = netIndex := by simpa using List.find?_some hget
      refine ⟨fun _ => ⟨k, hget⟩, fun i a ha => ?_⟩
      dsimp only at ha ⊢
      rw [happ] at ha
      simp only [hnet]
      by_cases hi : i = index
      · rw [if_pos hi] at ha
        obtain rfl := Option.some.inj ha
        rw [hi, Function.update_self, hfreed]
        exact ⟨List.not_mem_nil, hki, k, hki ▸ hget⟩
      · rw [if_neg hi] at ha
        rw [Function.update_of_ne hi]
        exact h i a ha

/-- An update is accepted in phase 1 of the bound network key, the second time with the same
key only. -/
def Accepts (a : AppKey) (k : NetKey) (key : Key) : Prop :=
  k.keyState = .phase1 ∧ (a.keyState = .phase1 → a.keyValue1.appKey = key)

theorem appKeyUpdate_outcome {index : BitVec 16} {key : Key} {a : AppKey} {k : NetKey}
    (ha : appKeyGet s index = some a) (hk : netKeyGet s a.netKeyBind = some k) :
    ∃ ret store, appKeyUpdate s index key = .ok (ret, store) ∧
      (ret = .success ∧ Accepts a k key ∧ (store = s ∨ store = beginAppUpdate s index key) ∨
        ret ≠ .success ∧ ¬ Accepts a k key ∧ store = s) := by
  simp only [appKeyUpdate, ha, hk]
  by_cases hk1 : k.keyState = .phase1
  · rw [if_pos hk1]
    by_cases ha1 : a.keyState = .phase1
    · rw [if_pos ha1]
      by_cases hkey : a.keyValue1.appKey = key
      · rw [if_neg (not_not.mpr hkey)]
        exact ⟨_, _, rfl, .inl ⟨rfl, ⟨hk1, fun _ => hkey⟩, .inl rfl⟩⟩
      · rw [if_pos hkey]
        exact ⟨_, _, rfl, .inr ⟨by decide, fun h => hkey (h.2 ha1), rfl⟩⟩
    · rw [if_neg ha1]
      exact ⟨_, _, rfl, .inl ⟨rfl, ⟨hk1, fun h => absurd h ha1⟩, .inr rfl⟩⟩
  · rw [if_neg hk1]
    exact ⟨_, _, rfl, .inr ⟨by decide, fun h => hk1 h.1, rfl⟩⟩

theorem Intact.beginAppUpdate (h : Intact b) {index : BitVec 16} {key : Key} :
    Intact { b with store := beginAppUpdate b.store index key } := by
  refine h.of_frame (fun i a ha => ?_) fun i k hk => ⟨k, hk⟩
  rw [appKeyGet_beginAppUpdate, Option.map_eq_some_iff] at ha
  obtain ⟨d, hd, rfl⟩ := ha
  refine ⟨d, hd, ?_⟩
  split_ifs <;> rfl

theorem Intact.appKeyUpdate_iff (h : Intact b) {netIndex index : BitVec 16} {key : Key} :
    KeepsBindings conf b (.appKeyUpdate netIndex index key) ↔
      Proper conf b (.appKeyUpdate netIndex index key) := by
  cases ha : appKeyGet b.store index with
  | none =>
    have hcall : bindCall conf b (.appKeyUpdate netIndex index key) = .ok (.notFound, b) := by
      simp [bindCall, appKeyUpdate, ha, bind, Except.bind, pure, Except.pure]
    rw [keepsBindings_of_call hcall]
    exact iff_of_true ⟨fun a ha' => by simp [ha] at ha', h⟩ fun a k ha' => by simp [ha] at ha'
  | some a =>
    obtain ⟨hlive, hgiven, k, hk⟩ := h index a ha
    obtain ⟨ret, store, hupdate, hcase⟩ := @appKeyUpdate_outcome _ b.store index key a k ha hk
    have hcall : bindCall conf b (.appKeyUpdate netIndex index key) =
        .ok (ret, { b with store := store }) := by
      rw [bindCall, if_neg fun hc => hlive (List.contains_iff_mem.mp hc.2), hupdate]
      rfl
    rw [keepsBindings_of_call hcall]
    have hhonoured : Honoured b ret { b with store := store } (.appKeyUpdate netIndex index key) ↔
        (a.netKeyBind ≠ netIndex →
          ret ≠ .success ∧ ({ b with store := store } : Bindings aes) = b) := by
      simp only [Honoured, ha, Option.some.injEq, forall_eq']
    have hproper : Proper conf b (.appKeyUpdate netIndex index key) ↔
        (Accepts a k key → a.netKeyBind = netIndex) := by
      constructor
      · exact fun hp hacc => hp a k ha hk hacc.1 hacc.2
      · intro hp a' k' ha' hk' h₁ h₂
        obtain rfl := Option.some.inj (ha.symm.trans ha')
        obtain rfl := Option.some.inj (hk.symm.trans hk')
        exact hp ⟨h₁, h₂⟩
    rw [hhonoured, hproper]
    rcases hcase with ⟨rfl, hacc, hstore⟩ | ⟨hret, hno, rfl⟩
    · have hint : Intact { b with store := store } := by
        rcases hstore with rfl | rfl
        · exact h
        · exact h.beginAppUpdate
      constructor
      · intro hkeeps _
        by_contra hne
        exact (hkeeps.1 hne).1 rfl
      · exact fun hp => ⟨fun hne => absurd (hp hacc) hne, hint⟩
    · exact iff_of_true ⟨fun _ => ⟨hret, rfl⟩, h⟩ fun hacc => absurd hacc hno

theorem keepsBindings_iff (h : Intact b ∧ b.freed = []) :
    KeepsBindings conf b e ↔ Proper conf b e := by
  cases e with
  | netKeyAdd env index key =>
    rw [keepsBindings_of_call rfl]
    exact iff_of_true ⟨trivial, h.1.netKeyAdd⟩ trivial
  | netKeyUpdate index key =>
    rw [keepsBindings_of_call rfl]
    exact iff_of_true ⟨trivial, h.1.netKeyUpdate⟩ trivial
  | netKeyDelete index => exact h.1.netKeyDelete_iff
  | appKeyAdd env netIndex index key => exact h.1.appKeyAdd_iff h.2
  | appKeyUpdate netIndex index key => exact h.1.appKeyUpdate_iff

theorem boundKeys_nil {index : BitVec 16}
    (h : ∀ i a, appKeyGet s i = some a → a.netKeyBind ≠ index) : boundKeys s index = [] := by
  rw [boundKeys, List.map_eq_nil_iff, List.filter_eq_nil_iff]
  intro a ha hbind
  exact h a.keyIndex a (find?_of_nodup s.appNodup ha) (by simpa using hbind)

/-- A proper call leaves no binding to a network key that was freed. -/
theorem bindStep_freed (h : Intact b ∧ b.freed = []) (hp : Proper conf b e)
    (hs : bindStep conf b e = .ok b') : Intact b' ∧ b'.freed = [] := by
  obtain ⟨⟨ret, c⟩, hcall, rfl⟩ := map_ok hs
  refine ⟨((keepsBindings_of_call hcall).mp ((keepsBindings_iff h).mpr hp)).2, ?_⟩
  cases e with
  | netKeyDelete index =>
    obtain ⟨rfl, rfl⟩ := Prod.mk.inj (Except.ok.inj hcall)
    simp [h.2, boundKeys_nil hp]
  | appKeyUpdate netIndex index key =>
    rw [bindCall] at hcall
    obtain ⟨out, -, hout⟩ := bind_ok (guard_ok hcall)
    obtain ⟨rfl, rfl⟩ := Prod.mk.inj (Except.ok.inj hout)
    exact h.2
  | _ =>
    obtain ⟨rfl, rfl⟩ := Prod.mk.inj (Except.ok.inj hcall)
    exact h.2

/-- The bindings stay intact, and every call keeps to them, in exactly the runs that delete no
network key with keys bound to it, add no application key for a network key that is not there
while others are, and update none under a network key it is not bound to. -/
theorem bindings_iff (aes : Aes128) (conf : KeyConf) (es : List BindEvent) :
    RunAll (bindStep conf) (KeepsBindings conf) (Bindings.empty aes) es ↔
      RunAll (bindStep conf) (Proper conf) (Bindings.empty aes) es :=
  @RunAll.iff_of_invariant _ _ _ _ _ (fun b => Intact b ∧ b.freed = []) _ _ _
    (fun _ _ _ h hp hs => bindStep_freed h hp hs) (fun _ _ h => keepsBindings_iff h)
    ⟨fun i a ha => by simp [Bindings.empty, KeyStore.empty, appKeyGet] at ha, rfl⟩

/-- An application key added for a network key that does not exist is bound to the last one of
the list. -/
theorem binding_wrong : ¬ RunAll (bindStep ⟨1, 1⟩) (KeepsBindings ⟨1, 1⟩)
    (Bindings.empty maskAes)
    [.netKeyAdd ⟨true, netKeyDerive maskAes [], ⟨[], 0⟩⟩ 0 (List.replicate 16 1),
      .appKeyAdd ⟨true, netKeyDerive maskAes [], ⟨[], 0⟩⟩ 5 0 (List.replicate 16 3)] := by
  intro h
  obtain ⟨ret, b', hcall, hadd, -⟩ := (h.2 _ rfl).1
  obtain ⟨rfl, -⟩ := Prod.mk.inj (Except.ok.inj hcall)
  obtain ⟨k, hk⟩ := hadd rfl
  cases hk

end Meshx.KeyBindings
