import Meshx.KeyPhases

/-! The stages of the refresh of one network key, and what nodes at neighbouring stages send
and receive with. -/
namespace Meshx.KeyPhases

open Lib AesCcm Security Keys Beacon

/-- The stages in their order: the normal state with the old key, phase 1, phase 2, and the
normal state with the new key. -/
inductive Stage
  | oldNormal
  | phase1
  | phase2
  | newNormal
  deriving DecidableEq

namespace Stage

def rank : Stage → ℕ
  | .oldNormal => 0
  | .phase1 => 1
  | .phase2 => 2
  | .newNormal => 3

def Near (i j : Stage) : Prop := i.rank ≤ j.rank + 1 ∧ j.rank ≤ i.rank + 1

instance (i j : Stage) : Decidable (i.Near j) := inferInstanceAs (Decidable (_ ∧ _))

/-- The slots of a network key at the stage. -/
def At (aes : Aes128) (old new : Key) (k : NetKey) : Stage → Prop
  | .oldNormal => k.keyState = .normal ∧ k.keyValue0 = netKeyDerive aes old
  | .phase1 => k.keyState = .phase1 ∧ k.keyValue0 = netKeyDerive aes old ∧
      k.keyValue1 = netKeyDerive aes new
  | .phase2 => k.keyState = .phase2 ∧ k.keyValue0 = netKeyDerive aes old ∧
      k.keyValue1 = netKeyDerive aes new
  | .newNormal => k.keyState = .normal ∧ k.keyValue0 = netKeyDerive aes new

/-- The key value a node at the stage sends with. -/
def txKey (old new : Key) : Stage → Key
  | .oldNormal | .phase1 => old
  | .phase2 | .newNormal => new

/-- The keys a node at the stage receives with. -/
def rxKeys (old new : Key) : Stage → List Key
  | .oldNormal => [old]
  | .phase1 | .phase2 => [old, new]
  | .newNormal => [new]

end Stage

/-- The stage of a network key in the refresh to the new key. -/
def stageOf (new : Key) (k : NetKey) : Stage :=
  match k.keyState with
  | .normal => if k.keyValue0.netKey = new then .newNormal else .oldNormal
  | .phase1 => .phase1
  | .phase2 => .phase2

variable {aes : Aes128} {conf : KeyConf} {s s' : KeyStore aes} {e : StoreEvent}
  {index : BitVec 16} {old new : Key}

/-- One refresh of the network key with the index: it is added with the old key and updated to
the new one, and not again after that. -/
def OneRefresh (index : BitVec 16) (old new : Key) (s : KeyStore aes) : StoreEvent → Prop
  | .netKeyAdd _ i key => i = index → key = old
  | .netKeyUpdate i key => i = index → key = new ∧
      ∀ k, netKeyGet s index = some k → stageOf new k ≠ .newNormal
  | _ => True

def Staged (index : BitVec 16) (old new : Key) (s : KeyStore aes) : Prop :=
  ∀ k, netKeyGet s index = some k → (stageOf new k).At aes old new k

theorem stageOf_old (hne : old ≠ new) {k : NetKey} (hs : k.keyState = .normal)
    (h0 : k.keyValue0 = netKeyDerive aes old) : stageOf new k = .oldNormal := by
  have hkey : k.keyValue0.netKey = old := congrArg NetKeyValue.netKey h0
  simp [stageOf, hs, hkey, hne]

theorem stageOf_new {k : NetKey} (hs : k.keyState = .normal)
    (h0 : k.keyValue0 = netKeyDerive aes new) : stageOf new k = .newNormal := by
  have hkey : k.keyValue0.netKey = new := congrArg NetKeyValue.netKey h0
  simp [stageOf, hs, hkey]

theorem Staged.slots (h : Staged index old new s) {k : NetKey} (hk : netKeyGet s index = some k)
    (hs : k.keyState ≠ .normal) :
    k.keyValue0 = netKeyDerive aes old ∧ k.keyValue1 = netKeyDerive aes new := by
  have hat := h k hk
  cases hstate : k.keyState with
  | normal => exact absurd hstate hs
  | phase1 =>
    simp only [stageOf, hstate] at hat
    exact hat.2
  | phase2 =>
    simp only [stageOf, hstate] at hat
    exact hat.2

theorem Staged.step (h : Staged index old new s) (hne : old ≠ new)
    (hone : OneRefresh index old new s e) (hs : storeStep conf s e = .ok s') :
    Staged index old new s' := by
  intro k hk
  cases storeStep_cases hs with
  | same => exact h k hk
  | @netAdded env i key _ hfree hnet happ =>
    rw [hnet] at hk
    split_ifs at hk with hi
    · obtain rfl := Option.some.inj hk
      obtain rfl : key = old := hone hi.symm
      rw [stageOf_old hne rfl rfl]
      exact ⟨rfl, rfl⟩
    · exact h k hk
  | @netUpdated i key k' hk' hstate =>
    rw [netKeyGet_beginNetUpdate, Option.map_eq_some_iff] at hk
    obtain ⟨b, hb, rfl⟩ := hk
    split_ifs with hi
    · subst hi
      obtain ⟨rfl, hstage⟩ := hone rfl
      obtain rfl := Option.some.inj (hb.symm.trans hk')
      have hat := h b hb
      have hold : stageOf key b = .oldNormal := by
        have := hstage b hb
        simp only [stageOf, hstate] at this ⊢
        split_ifs at this ⊢
        · exact absurd rfl this
        · rfl
      rw [hold] at hat
      exact ⟨rfl, hat.2, rfl⟩
    · exact h b hb
  | appAdded hk' hnet happ => exact h k (hnet index ▸ hk)
  | appUpdated ha hk' hk1 ha1 => exact h k hk
  | @entered mem b hb hstate =>
    rw [netKeyGet_enterPhase2, Option.map_eq_some_iff] at hk
    obtain ⟨d, hd, rfl⟩ := hk
    split_ifs with hi
    · subst hi
      obtain rfl := Option.some.inj (hb.symm.trans hd)
      have hslots := h.slots hb hstate
      exact ⟨rfl, hslots⟩
    · exact h d hd
  | @revoked mem b hb hstate =>
    rw [netKeyGet_revokeOld, Option.map_eq_some_iff] at hk
    obtain ⟨d, hd, rfl⟩ := hk
    split_ifs with hi
    · subst hi
      obtain rfl := Option.some.inj (hb.symm.trans hd)
      have hnew := (h.slots hb hstate).2
      rw [stageOf_new rfl hnew]
      exact ⟨rfl, hnew⟩
    · exact h d hd

theorem staged_run (hne : old ≠ new) {es : List StoreEvent}
    (hall : RunAll (storeStep conf) (OneRefresh index old new) (KeyStore.empty aes) es)
    (hrun : run (storeStep conf) (KeyStore.empty aes) es = .ok s) : Staged index old new s :=
  hall.invariant (fun _ _ _ h hone hs => Staged.step h hne hone hs) (fun k hk => by cases hk) hrun

theorem tx_at {k : NetKey} (hk : netKeyGet s index = some k) {i : Stage} (h : i.At aes old new k) :
    netKeyTxGet s index = some (netKeyDerive aes (i.txKey old new)) := by
  rw [netKeyTxGet, hk, Option.map_some]
  cases i with
  | oldNormal => simp [h.1, h.2, Stage.txKey]
  | phase1 => simp [h.1, h.2.1, Stage.txKey]
  | phase2 => simp [h.1, h.2.2, Stage.txKey]
  | newNormal => simp [h.1, h.2, Stage.txKey]

theorem usable_at {k : NetKey} {i : Stage} (h : i.At aes old new k) :
    Net.usableValues k = (i.rxKeys old new).map (netKeyDerive aes) := by
  cases i with
  | oldNormal => simp [Net.usableValues, h.1, h.2, Stage.rxKeys]
  | phase1 => simp [Net.usableValues, h.1, h.2.1, h.2.2, Stage.rxKeys]
  | phase2 => simp [Net.usableValues, h.1, h.2.1, h.2.2, Stage.rxKeys]
  | newNormal => simp [Net.usableValues, h.1, h.2, Stage.rxKeys]

theorem txKey_mem_rxKeys (old new : Key) {i j : Stage} (h : i.Near j) :
    i.txKey old new ∈ j.rxKeys old new := by
  cases i <;> cases j <;> first | exact absurd h (by decide) | simp [Stage.txKey, Stage.rxKeys]

/-- The key values `meshx_net_receive` tries on a PDU with the NID. -/
def triedValues (s : KeyStore aes) (nid : BitVec 7) : List NetKeyValue :=
  (s.netKeys.flatMap Net.usableValues).filter (·.nid = nid)

/-- Nodes at equal or adjacent stages of one refresh understand each other: the key value one
of them sends with is among those the other one tries. -/
theorem txValue_tried (hnid : (netKeyDerive aes old).nid ≠ (netKeyDerive aes new).nid)
    {confA confB : KeyConf} {esA esB : List StoreEvent} {a b : KeyStore aes} {ka kb : NetKey}
    (hallA : RunAll (storeStep confA) (OneRefresh index old new) (KeyStore.empty aes) esA)
    (hrunA : run (storeStep confA) (KeyStore.empty aes) esA = .ok a)
    (hallB : RunAll (storeStep confB) (OneRefresh index old new) (KeyStore.empty aes) esB)
    (hrunB : run (storeStep confB) (KeyStore.empty aes) esB = .ok b)
    (hka : netKeyGet a index = some ka) (hkb : netKeyGet b index = some kb)
    (hnear : (stageOf new ka).Near (stageOf new kb)) :
    ∃ value, netKeyTxGet a index = some value ∧ value ∈ triedValues b value.nid := by
  have hne : old ≠ new := fun h => hnid (by rw [h])
  have hatA := staged_run hne hallA hrunA ka hka
  have hatB := staged_run hne hallB hrunB kb hkb
  refine ⟨_, tx_at hka hatA, List.mem_filter.mpr ⟨List.mem_flatMap.mpr ⟨kb, ?_, ?_⟩, by simp⟩⟩
  · exact List.mem_of_find?_eq_some hkb
  · rw [usable_at hatB]
    exact List.mem_map_of_mem (txKey_mem_rxKeys old new hnear)

/-- A node that has the old key only sends to one in phase 1. -/
theorem txValue_tried_example : ∃ a b : KeyStore maskAes,
    run (storeStep plainKeyConf) (KeyStore.empty maskAes)
      [.netKeyAdd zeroMemory 0 (List.replicate 16 1)] = .ok a ∧
    run (storeStep plainKeyConf) (KeyStore.empty maskAes)
      [.netKeyAdd zeroMemory 0 (List.replicate 16 1), .netKeyUpdate 0 (List.replicate 16 2)] =
        .ok b ∧
    ∃ value, netKeyTxGet a 0 = some value ∧ value ∈ triedValues b value.nid := by
  have hadd : RunAll (storeStep plainKeyConf)
      (OneRefresh 0 (List.replicate 16 1) (List.replicate 16 2)) (KeyStore.empty maskAes)
      [.netKeyAdd zeroMemory 0 (List.replicate 16 1)] := ⟨fun _ => rfl, fun _ _ => trivial⟩
  have hupdate : RunAll (storeStep plainKeyConf)
      (OneRefresh 0 (List.replicate 16 1) (List.replicate 16 2)) (KeyStore.empty maskAes)
      [.netKeyAdd zeroMemory 0 (List.replicate 16 1),
        .netKeyUpdate 0 (List.replicate 16 2)] := by
    refine ⟨fun _ => rfl, fun s hs => ⟨fun _ => ⟨rfl, fun k hk => ?_⟩, fun _ _ => trivial⟩⟩
    cases hs
    cases hk
    decide
  exact ⟨_, _, rfl, rfl, txValue_tried (by decide) hadd rfl hupdate rfl rfl rfl (by decide)⟩

end Meshx.KeyPhases
