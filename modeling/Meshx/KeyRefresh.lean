import Meshx.Beacon
import Meshx.Net
import Meshx.Lib.Run

/-! Key refresh as a run: updates of network and application keys and beacons in any order.
Beside the key store the run keeps which new keys were accepted since the refresh of one
network key began. -/
namespace Meshx.KeyRefresh

open Lib AesCcm Security Keys Beacon

inductive KeyEvent
  | netKeyUpdate (index : BitVec 16) (key : Key)
  | appKeyUpdate (index : BitVec 16) (key : Key)
  | beacon (mem : List Byte)

/-- The key store, and the keys that the refresh of one network key brought. -/
structure Refresh (aes : Aes128) where
  store : KeyStore aes
  newNet : Option Key
  newApps : List (BitVec 16 × Key)

variable {aes : Aes128}

/-- `key_state` of the network key with the index. -/
def netState (s : KeyStore aes) (n : BitVec 16) : Option KeyState :=
  (netKeyGet s n).map (·.keyState)

/-- The application key is bound to the network key. -/
def boundTo (s : KeyStore aes) (n i : BitVec 16) : Bool :=
  (appKeyGet s i).any (·.netKeyBind = n)

/-- One event. An accepted update of network key `n` from its normal state begins a new
record; accepted updates of application keys bound to it are added to the record. -/
def refreshStep (n : BitVec 16) (g : Refresh aes) : KeyEvent → Except Fault (Refresh aes)
  | .netKeyUpdate i key =>
    let store := (netKeyUpdate g.store i key).2
    if i = n ∧ netState g.store n = some .normal then .ok ⟨store, some key, []⟩
    else .ok { g with store := store }
  | .appKeyUpdate i key => do
    let (ret, store) ← appKeyUpdate g.store i key
    if ret = .success ∧ boundTo g.store n i then
      return { g with store := store, newApps := (i, key) :: g.newApps }
    else return { g with store := store }
  | .beacon mem => .ok { g with store := (beaconReceive g.store mem).store }

/-- The new keys are in place: the network key and every recorded application key are sent
with the new value and received with no other. -/
def Refreshed (n : BitVec 16) (g : Refresh aes) (s : KeyStore aes) : Prop :=
  (∃ key, g.newNet = some key ∧ netKeyTxGet s n = some (netKeyDerive aes key) ∧
    ∃ k, netKeyGet s n = some k ∧ Net.usableValues k = [netKeyDerive aes key]) ∧
  ∀ u ∈ g.newApps, appKeyTxGet s u.1 = some (appKeyDerive aes u.2) ∧
    ∃ a, appKeyGet s u.1 = some a ∧ usableAppValues a = [appKeyDerive aes u.2]

/-- While network key `n` is under refresh, its new value and those of the recorded
application keys stand in slot 1, and an application key is not ahead of its network key. -/
def UnderRefresh (n : BitVec 16) (g : Refresh aes) : Prop :=
  ∀ k, netKeyGet g.store n = some k → k.keyState ≠ .normal →
    (∃ key, g.newNet = some key ∧ k.keyValue1 = netKeyDerive aes key) ∧
    ∀ u ∈ g.newApps, ∃ a, appKeyGet g.store u.1 = some a ∧ a.netKeyBind = n ∧
      a.keyValue1.appKey = u.2 ∧ a.keyState ≠ .normal ∧
      (k.keyState = .phase1 → a.keyState = .phase1)

variable {n : BitVec 16} {g g' : Refresh aes}

theorem UnderRefresh.of_frame (h : UnderRefresh n g) {s : KeyStore aes}
    (hnet : netKeyGet s n = netKeyGet g.store n)
    (happ : ∀ i a, appKeyGet g.store i = some a → a.netKeyBind = n → appKeyGet s i = some a) :
    UnderRefresh n { g with store := s } := by
  intro k hk hstate
  obtain ⟨hnew, hall⟩ := h k (hnet ▸ hk) hstate
  refine ⟨hnew, fun u hu => ?_⟩
  obtain ⟨a, ha, hbind, hrest⟩ := hall u hu
  exact ⟨a, happ _ a ha hbind, hbind, hrest⟩

theorem UnderRefresh.netKeyUpdate (h : UnderRefresh n g) {i : BitVec 16} {key : Key}
    (hs : refreshStep n g (.netKeyUpdate i key) = .ok g') : UnderRefresh n g' := by
  simp only [refreshStep, netKeyUpdate_store, netState] at hs
  by_cases hn : (netKeyGet g.store i).map (·.keyState) = some .normal
  · rw [if_pos hn] at hs
    by_cases hi : i = n
    · subst hi
      rw [if_pos ⟨rfl, hn⟩] at hs
      cases hs
      -- the record starts anew with the value just written
      intro k hk _
      rw [netKeyGet_beginNetUpdate, Option.map_eq_some_iff] at hk
      obtain ⟨old, -, rfl⟩ := hk
      exact ⟨⟨key, rfl, by simp⟩, by simp⟩
    · rw [if_neg (fun hc => hi hc.1)] at hs
      cases hs
      refine h.of_frame ?_ (fun j a ha _ => ha)
      rw [netKeyGet_beginNetUpdate]
      cases netKeyGet g.store n <;> simp [Ne.symm hi]
  · rw [if_neg hn] at hs
    split_ifs at hs with hc
    · exact absurd (hc.1 ▸ hc.2) hn
    · cases hs
      exact h

theorem UnderRefresh.appKeyUpdate (h : UnderRefresh n g) {i : BitVec 16} {key : Key}
    (hs : refreshStep n g (.appKeyUpdate i key) = .ok g') : UnderRefresh n g' := by
  simp only [refreshStep, bind, Except.bind] at hs
  cases hu : Keys.appKeyUpdate g.store i key with
  | error f => simp [hu] at hs
  | ok out =>
    obtain ⟨ret, store⟩ := out
    simp only [hu, pure, Except.pure] at hs
    rcases appKeyUpdate_cases hu with ⟨hret, rfl⟩ | ⟨a, k, ha, hk, hk1, rfl, hcase⟩
    · rw [if_neg (fun hc => hret hc.1)] at hs
      cases hs
      exact h
    have hbound : boundTo g.store n i = decide (a.netKeyBind = n) := by simp [boundTo, ha]
    by_cases hbind : a.netKeyBind = n
    · rw [if_pos ⟨rfl, by simpa [hbound] using hbind⟩] at hs
      cases hs
      rw [hbind] at hk
      intro k' hk' hstate
      have hnet : netKeyGet store n = netKeyGet g.store n := by
        rcases hcase with ⟨-, -, rfl⟩ | ⟨-, rfl⟩ <;> rfl
      rw [hnet, hk, Option.some_inj] at hk'
      subst hk'
      obtain ⟨hnew, hall⟩ := h k hk hstate
      refine ⟨hnew, fun u hu => ?_⟩
      rcases hcase with ⟨ha1, hkey, rfl⟩ | ⟨ha1, rfl⟩
      · rcases List.mem_cons.mp hu with rfl | hu
        · exact ⟨a, ha, hbind, hkey, by simp [ha1], fun _ => ha1⟩
        · exact hall u hu
      · rcases List.mem_cons.mp hu with rfl | hu
        · refine ⟨a.beginUpdate aes key, ?_, hbind, rfl, by simp [AppKey.beginUpdate], fun _ => rfl⟩
          rw [appKeyGet_beginAppUpdate, ha]
          simp
        · obtain ⟨b, hb, hbb, hb1, hbs, hbp⟩ := hall u hu
          -- a recorded key is in phase 1 here, so it is not the one written to
          have hne : u.1 ≠ i := by
            intro he
            rw [he, ha, Option.some_inj] at hb
            exact ha1 (hb ▸ hbp hk1)
          refine ⟨b, ?_, hbb, hb1, hbs, hbp⟩
          rw [appKeyGet_beginAppUpdate, hb]
          simp [hne]
    · rw [if_neg (by simp [hbound, hbind])] at hs
      cases hs
      refine h.of_frame ?_ ?_
      · rcases hcase with ⟨-, -, rfl⟩ | ⟨-, rfl⟩ <;> rfl
      · intro j b hb hbn
        rcases hcase with ⟨-, -, rfl⟩ | ⟨-, rfl⟩
        · exact hb
        · have hj : j ≠ i := by
            rintro rfl
            rw [ha, Option.some_inj] at hb
            exact hbind (hb ▸ hbn)
          rw [appKeyGet_beginAppUpdate, hb]
          simp [hj]

theorem UnderRefresh.enterPhase2 (h : UnderRefresh n g) {k : NetKey} {i : BitVec 16}
    (hk : netKeyGet g.store i = some k) (hstate : k.keyState ≠ .normal) :
    UnderRefresh n { g with store := enterPhase2 g.store i } := by
  by_cases hi : i = n
  · subst hi
    intro k' hk' _
    rw [netKeyGet_enterPhase2, hk, Option.map_some, if_pos rfl, Option.some_inj] at hk'
    subst hk'
    obtain ⟨hnew, hall⟩ := h k hk hstate
    refine ⟨hnew, fun u hu => ?_⟩
    obtain ⟨a, ha, hbind, hvalue, hsa, -⟩ := hall u hu
    refine ⟨{ a with keyState := .phase2 }, ?_, hbind, hvalue, by simp, by simp⟩
    rw [appKeyGet_enterPhase2, ha, Option.map_some, if_pos ⟨hbind, hsa⟩]
  · refine h.of_frame ?_ ?_
    · rw [netKeyGet_enterPhase2]
      cases netKeyGet g.store n <;> simp [Ne.symm hi]
    · intro j b hb hbn
      rw [appKeyGet_enterPhase2, hb, Option.map_some, if_neg (fun hc => hi (hc.1.symm.trans hbn))]

theorem UnderRefresh.revokeOld (h : UnderRefresh n g) {i : BitVec 16} :
    UnderRefresh n { g with store := revokeOld g.store i } := by
  by_cases hi : i = n
  · subst hi
    intro k hk hstate
    rw [netKeyGet_revokeOld, Option.map_eq_some_iff] at hk
    obtain ⟨old, -, rfl⟩ := hk
    simp at hstate
  · refine h.of_frame ?_ ?_
    · rw [netKeyGet_revokeOld]
      cases netKeyGet g.store n <;> simp [Ne.symm hi]
    · intro j b hb hbn
      rw [appKeyGet_revokeOld, hb, Option.map_some, if_neg (fun hc => hi (hc.1.symm.trans hbn))]

theorem UnderRefresh.beacon (h : UnderRefresh n g) {mem : List Byte}
    (hs : refreshStep n g (.beacon mem) = .ok g') : UnderRefresh n g' := by
  cases hs
  rcases beaconReceive_cases g.store mem with he | ⟨k, hk, hstate, he | he⟩ <;> rw [he]
  · exact h
  · exact h.enterPhase2 hk hstate
  · exact h.revokeOld

theorem UnderRefresh.step (h : UnderRefresh n g) {e : KeyEvent}
    (hs : refreshStep n g e = .ok g') : UnderRefresh n g' := by
  cases e with
  | netKeyUpdate i key => exact h.netKeyUpdate hs
  | appKeyUpdate i key => exact h.appKeyUpdate hs
  | beacon mem => exact h.beacon hs

/-- The record is right after every run from a store whose network key is not under
refresh. -/
theorem underRefresh_run {s : KeyStore aes} (h0 : netState s n = some .normal)
    {es : List KeyEvent} (hr : run (refreshStep n) ⟨s, none, []⟩ es = .ok g) :
    UnderRefresh n g := by
  refine run_invariant (fun _ _ _ h hs => h.step hs) ?_ hr
  intro k hk hstate
  rw [netState, hk] at h0
  exact absurd (Option.some.inj h0) hstate

/-- A beacon that takes the network key back to its normal state revokes its old value. -/
theorem beacon_completes {mem : List Byte} (hpre : netState g.store n ≠ some .normal)
    (hpost : netState (beaconReceive g.store mem).store n = some .normal) :
    (beaconReceive g.store mem).store = revokeOld g.store n := by
  rcases beaconReceive_cases g.store mem with he | ⟨k, hk, hstate, he | he⟩ <;>
    rw [he] at hpost ⊢
  · exact absurd hpost hpre
  · rw [netState, netKeyGet_enterPhase2, Option.map_map, Option.map_eq_some_iff] at hpost
    obtain ⟨old, hold, hs⟩ := hpost
    by_cases hi : n = k.keyIndex <;> simp [hi] at hs
    exact absurd (by rw [netState, hold, Option.map_some, hs]) hpre
  · by_cases hi : n = k.keyIndex
    · rw [hi]
    · rw [netState, netKeyGet_revokeOld, Option.map_map, Option.map_eq_some_iff] at hpost
      obtain ⟨old, hold, hs⟩ := hpost
      simp [hi] at hs
      exact absurd (by rw [netState, hold, Option.map_some, hs]) hpre

/-- When a beacon completes a refresh, in whatever run, the new keys are in place on both
layers exactly if every recorded application key was updated to the key it already had:
an application key goes back to slot 0 as it was. -/
theorem keyRefresh_iff {s : KeyStore aes} (h0 : netState s n = some .normal)
    {es : List KeyEvent} (hr : run (refreshStep n) ⟨s, none, []⟩ es = .ok g) {mem : List Byte}
    (hb : refreshStep n g (.beacon mem) = .ok g') (hpre : netState g.store n ≠ some .normal)
    (hpost : netState g'.store n = some .normal) :
    Refreshed n g g'.store ↔
      ∀ u ∈ g.newApps, ∃ a, appKeyGet g.store u.1 = some a ∧ a.keyValue0.appKey = u.2 := by
  have hinv := underRefresh_run h0 hr
  cases hb
  have hstore := beacon_completes hpre hpost
  dsimp only at hpost ⊢
  rw [hstore] at hpost ⊢
  cases hk : netKeyGet g.store n with
  | none => simp [netState, netKeyGet_revokeOld, hk] at hpost
  | some k =>
    have hstate : k.keyState ≠ .normal := fun hs => hpre (by rw [netState, hk, Option.map_some, hs])
    obtain ⟨⟨key, hnew, hvalue⟩, hall⟩ := hinv k hk hstate
    have hnet : netKeyGet (revokeOld g.store n) n =
        some { k with keyState := .normal, keyValue0 := k.keyValue1 } := by
      rw [netKeyGet_revokeOld, hk]; simp
    have happ : ∀ u ∈ g.newApps, ∃ a, appKeyGet g.store u.1 = some a ∧
        appKeyGet (revokeOld g.store n) u.1 = some { a with keyState := .normal } := by
      intro u hu
      obtain ⟨a, ha, hbind, -, hsa, -⟩ := hall u hu
      exact ⟨a, ha, by rw [appKeyGet_revokeOld, ha, Option.map_some, if_pos ⟨hbind, hsa⟩]⟩
    have hderived : ∀ i a, appKeyGet g.store i = some a →
        a.keyValue0 = appKeyDerive aes a.keyValue0.appKey := fun i a ha =>
      g.store.derived a (List.mem_of_find?_eq_some ha)
    constructor
    · intro h u hu
      obtain ⟨a, ha, ha'⟩ := happ u hu
      obtain ⟨htx, -⟩ := h.2 u hu
      refine ⟨a, ha, ?_⟩
      rw [appKeyTxGet, ha'] at htx
      have := Option.some.inj htx
      simp only [reduceCtorEq, if_false] at this
      rw [this]
      rfl
    · intro h
      refine ⟨⟨key, hnew, ?_, _, hnet, ?_⟩, fun u hu => ?_⟩
      · rw [netKeyTxGet, hnet]
        simp [hvalue]
      · simp [Net.usableValues, hvalue]
      · obtain ⟨a, ha, ha'⟩ := happ u hu
        obtain ⟨b, hb, hold⟩ := h u hu
        rw [ha, Option.some_inj] at hb
        subst hb
        have hd := hderived u.1 a ha
        rw [hold] at hd
        refine ⟨?_, _, ha', ?_⟩
        · rw [appKeyTxGet, ha']
          simp [hd]
        · simp [usableAppValues, hd]

/-- A store with one network key and one application key bound to it. -/
def singleStore : KeyStore maskAes where
  netKeys := [⟨.normal, 0, netKeyDerive maskAes (List.replicate 16 1), netKeyDerive maskAes []⟩]
  appKeys := [⟨.normal, 0, appKeyDerive maskAes (List.replicate 16 3), ⟨[], 0⟩, 0⟩]
  devKeys := []
  netNodup := by simp
  appNodup := by simp
  derived := by simp [appKeyDerive]

/-- A secure network beacon without flags, authentic under a key value. -/
def plainSnb (value : NetKeyValue) : List Byte :=
  let authenticated := [0] ++ value.netId ++ [0, 0, 0, 0]
  [1] ++ authenticated ++ (aesCmac maskAes value.beaconKey authenticated).take 8

/-- An application key updated to another key during a refresh is lost when the refresh
completes: the old key is used again. -/
theorem keyRefresh_fails : ∃ g g', run (refreshStep 0) ⟨singleStore, none, []⟩
      [.netKeyUpdate 0 (List.replicate 16 2), .appKeyUpdate 0 (List.replicate 16 4)] = .ok g ∧
    refreshStep 0 g (.beacon (plainSnb (netKeyDerive maskAes (List.replicate 16 2)))) = .ok g' ∧
    netState g.store 0 ≠ some .normal ∧ netState g'.store 0 = some .normal ∧
    ¬ Refreshed 0 g g'.store := by
  refine ⟨_, _, rfl, rfl, by decide, by decide, fun h => ?_⟩
  have hu := (h.2 (0, List.replicate 16 4) (by decide)).1
  exact absurd hu (by decide)

theorem keyRefresh_example : ∃ g g', run (refreshStep 0) ⟨singleStore, none, []⟩
      [.netKeyUpdate 0 (List.replicate 16 2), .appKeyUpdate 0 (List.replicate 16 3)] = .ok g ∧
    refreshStep 0 g (.beacon (plainSnb (netKeyDerive maskAes (List.replicate 16 2)))) = .ok g' ∧
    Refreshed 0 g g'.store := by
  refine ⟨_, _, rfl, rfl, ?_⟩
  refine (@keyRefresh_iff _ 0 _ _ singleStore (by decide)
    [.netKeyUpdate 0 (List.replicate 16 2), .appKeyUpdate 0 (List.replicate 16 3)] rfl _ rfl
    (by decide) (by decide)).mpr fun u hu => ?_
  obtain rfl : u = (0, List.replicate 16 3) := List.mem_singleton.mp hu
  exact ⟨_, rfl, rfl⟩

end Meshx.KeyRefresh
