import Meshx.RefreshStages

/-! What a secure network beacon says of its sender, and which of them move a key refresh. -/
namespace Meshx.KeyPhases

open Lib AesCcm Security IvIndex Keys Beacon

variable {aes : Aes128} {s : KeyStore aes} {iv : Iv} {value : NetKeyValue} {mem rest : List Byte}
  {old new : Key} {i j : Stage} {k k' : NetKey}

theorem exists_of_length_eight {α : Type*} {xs : List α} (h : xs.length = 8) :
    ∃ a b c d e f g h, xs = [a, b, c, d, e, f, g, h] := by
  match xs, h with
  | [a, b, c, d, e, f, g, h], _ => exact ⟨a, b, c, d, e, f, g, h, rfl⟩

theorem ofMemory_snbMemory (hid : value.netId.length = 8) :
    Snb.ofMemory (snbMemory aes iv value ++ rest) =
      { keyRefresh := false
        ivUpdate := iv.state = .inProgress
        netId := value.netId
        ivIndex := iv.ivIndex
        authValue := (aesCmac aes value.beaconKey (snbAuthenticated iv value)).take 8
        authenticated := snbAuthenticated iv value } := by
  obtain ⟨a, b, c, d, e, f, g, h, hvalue⟩ := exists_of_length_eight hid
  have hflags : ∀ flag : Bool,
      (0#6 ++ BitVec.ofBool flag ++ 0#1 : Byte).getLsbD 0 = false ∧
        (0#6 ++ BitVec.ofBool flag ++ 0#1 : Byte).getLsbD 1 = flag := by decide
  obtain ⟨hrefresh, hupdate⟩ := hflags (iv.state = .inProgress)
  have hauth : (snbAuthenticated iv value).length = 13 := by
    simp [snbAuthenticated, hid]
  have hmac : ((aesCmac aes value.beaconKey (snbAuthenticated iv value)).take 8).length = 8 := by
    simp [aesCmac_length]
  have hmem : snbMemory aes iv value ++ rest = 1 :: (snbAuthenticated iv value ++
      ((aesCmac aes value.beaconKey (snbAuthenticated iv value)).take 8 ++ rest)) := by
    simp [snbMemory]
  rw [hmem, Snb.ofMemory]
  generalize (aesCmac aes value.beaconKey (snbAuthenticated iv value)).take 8 = mac at hmac ⊢
  rw [Snb.mk.injEq]
  refine ⟨hrefresh, hupdate, ?_, ?_, ?_, ?_⟩
  · simp [snbAuthenticated, hvalue]
  · rw [← readBe32_be32 iv.ivIndex []]
    simp [snbAuthenticated, hvalue, readBe32, byteAt, be32]
  · rw [List.drop_succ_cons, List.drop_left' hauth, List.take_left' hmac]
  · rw [List.drop_succ_cons, List.drop_zero, List.take_left' hauth]

/-- The key value under which a received beacon is found authentic first: its key, and whether
it is in slot 1. -/
def firstMatch (s : KeyStore aes) (mem : List Byte) : Option (NetKey × NetKeyValue × Bool) :=
  (s.netKeys.flatMap snbSlots).find? fun c => snbMatches aes (Snb.ofMemory mem) c.2.1

theorem beaconReceive_eq (s : KeyStore aes) (mem : List Byte) :
    beaconReceive s mem =
      match firstMatch s mem with
      | none => ⟨.key, s, none⟩
      | some (k, _, second) =>
        let ivUpdate := some ((Snb.ofMemory mem).ivIndex, (Snb.ofMemory mem).ivUpdate)
        if (Snb.ofMemory mem).keyRefresh then
          if k.keyState = .normal then ⟨.state, s, none⟩
          else ⟨.success, enterPhase2 s k.keyIndex, ivUpdate⟩
        else if second then ⟨.success, revokeOld s k.keyIndex, ivUpdate⟩
        else ⟨.success, s, ivUpdate⟩ := rfl

/-- Slot 1 of a key comes first only where slot 0 is not authentic. -/
theorem firstMatch_second (h : firstMatch s mem = some (k, value, true)) :
    netKeyGet s k.keyIndex = some k ∧ k.keyState ≠ .normal ∧
      snbMatches aes (Snb.ofMemory mem) k.keyValue0 = false := by
  obtain ⟨hget, hstate⟩ := mem_snbSlots (List.mem_of_find?_eq_some h)
  refine ⟨hget, hstate rfl, ?_⟩
  rw [firstMatch, List.find?_flatMap] at h
  obtain ⟨b, -, hb⟩ := List.exists_of_findSome?_eq_some h
  by_contra hmatch
  rw [Bool.not_eq_false] at hmatch
  have hslots : ∃ tail, snbSlots b = (b, b.keyValue0, false) :: tail := by
    unfold snbSlots
    cases b.keyState <;> exact ⟨_, rfl⟩
  obtain ⟨tail, htail⟩ := hslots
  have hkb : k = b := by
    have hmem := List.mem_of_find?_eq_some hb
    unfold snbSlots at hmem
    cases hbs : b.keyState <;> simp [hbs] at hmem
    all_goals exact hmem.1
  subst hkb
  rw [htail, List.find?_cons_of_pos (by simpa using hmatch)] at hb
  simp at hb

theorem slot1_value (h : (k, value, true) ∈ s.netKeys.flatMap snbSlots) : value = k.keyValue1 := by
  obtain ⟨b, -, hmem⟩ := List.mem_flatMap.mp h
  unfold snbSlots at hmem
  cases hb : b.keyState <;> simp [hb] at hmem
  all_goals exact hmem.1 ▸ hmem.2

theorem snbMatches_self (hid : value.netId.length = 8) :
    snbMatches aes (Snb.ofMemory (snbMemory aes iv value ++ rest)) value = true := by
  rw [ofMemory_snbMemory hid]
  simp [snbMatches]

theorem netKeyDerive_netId_length (key : Key) : (netKeyDerive aes key).netId.length = 8 := by
  simp [netKeyDerive, k3, aesCmac_length]

theorem snbValue_at (h : i.At aes old new k) : snbValue k = netKeyDerive aes (i.txKey old new) := by
  cases i with
  | oldNormal => simp [snbValue, h.1, h.2, Stage.txKey]
  | phase1 => simp [snbValue, h.1, h.2.1, Stage.txKey]
  | phase2 => simp [snbValue, h.1, h.2.2, Stage.txKey]
  | newNormal => simp [snbValue, h.1, h.2, Stage.txKey]

/-- The stage of a key that was at stage `j` and is now in the key state. -/
def Stage.after (j : Stage) : KeyState → Stage
  | .normal => if j = .oldNormal then .oldNormal else .newNormal
  | .phase1 => .phase1
  | .phase2 => .phase2

/-- What a beacon of a sender at stage `i` leads to on a receiver at stage `j`: the sender's IV
index and state, no later stage than the sender's, and phase 2 from phase 1. -/
structure Carries (iv : Iv) (i j : Stage) (index : BitVec 16) (out : BeaconOut aes) : Prop where
  ivUpdate : out.ivUpdate = some (iv.ivIndex, decide (iv.state = .inProgress))
  phase : ∀ k, netKeyGet out.store index = some k → (j.after k.keyState).rank ≤ i.rank
  enter : i = .phase2 → j = .phase1 → ∀ k, netKeyGet out.store index = some k →
    k.keyState = .phase2

/-- A receiver at the sender's stage or the one before tries the value of the beacon. -/
theorem firstMatch_isSome {receiver : KeyStore aes} (hi : i.At aes old new k)
    (hk' : k' ∈ receiver.netKeys) (hj : j.At aes old new k') (hnear : i.Near j) :
    ∃ found, firstMatch receiver (snbMemory aes iv (snbValue k) ++ rest) = some found := by
  rw [snbValue_at hi]
  have hmem : netKeyDerive aes (i.txKey old new) ∈ Net.usableValues k' := by
    rw [usable_at hj]
    exact List.mem_map_of_mem (txKey_mem_rxKeys old new hnear)
  have hslot : ∃ second, (k', netKeyDerive aes (i.txKey old new), second) ∈ snbSlots k' := by
    unfold Net.usableValues at hmem
    unfold snbSlots
    cases hs : k'.keyState <;> simp only [hs, List.mem_cons, List.not_mem_nil, or_false] at hmem ⊢
    · exact ⟨false, by rw [hmem]⟩
    all_goals
      rcases hmem with hmem | hmem
      · exact ⟨false, .inl (by rw [hmem])⟩
      · exact ⟨true, .inr (by rw [hmem])⟩
  obtain ⟨second, hslot⟩ := hslot
  rw [← Option.isSome_iff_exists, firstMatch, List.find?_isSome]
  exact ⟨_, List.mem_flatMap.mpr ⟨k', hk', hslot⟩,
    snbMatches_self (netKeyDerive_netId_length _)⟩

/-- The beacon is authentic under a value that the receiver tries before slot 1 of the key. -/
def Shadowed (s : KeyStore aes) (k : NetKey) (mem : List Byte) : Prop :=
  ∀ before behind, s.netKeys.flatMap snbSlots = before ++ (k, k.keyValue1, true) :: behind →
    ∃ c ∈ before, snbMatches aes (Snb.ofMemory mem) c.2.1 = true

theorem firstMatch_slot1 (hmatch : snbMatches aes (Snb.ofMemory mem) k.keyValue1 = true) :
    firstMatch s mem = some (k, k.keyValue1, true) ↔ ¬ Shadowed s k mem := by
  rw [firstMatch, List.find?_eq_some_iff_append]
  constructor
  · rintro ⟨-, before, behind, hslots, hnone⟩ h
    obtain ⟨c, hc, hmatches⟩ := h before behind hslots
    simpa [hmatches] using hnone c hc
  · intro h
    unfold Shadowed at h
    push Not at h
    obtain ⟨before, behind, hslots, hnone⟩ := h
    exact ⟨hmatch, before, behind, hslots, fun c hc => by simpa using hnone c hc⟩

/-- Receiving a beacon of a sender whose value is tried: the flag is clear, so that only slot 1
of some key completes a refresh. -/
theorem beaconReceive_snb {found : NetKey × NetKeyValue × Bool} (hid : value.netId.length = 8)
    (hfound : firstMatch s (snbMemory aes iv value ++ rest) = some found) :
    beaconReceive s (snbMemory aes iv value ++ rest) =
      ⟨.success, if found.2.2 then revokeOld s found.1.keyIndex else s,
        some (iv.ivIndex, decide (iv.state = .inProgress))⟩ := by
  rw [beaconReceive_eq, hfound, ofMemory_snbMemory hid]
  obtain ⟨k, w, second⟩ := found
  cases second <;> rfl

theorem netKeyGet_beaconReceive {found : NetKey × NetKeyValue × Bool}
    (hid : value.netId.length = 8) (hk : k ∈ s.netKeys)
    (hfound : firstMatch s (snbMemory aes iv value ++ rest) = some found) :
    netKeyGet (beaconReceive s (snbMemory aes iv value ++ rest)).store k.keyIndex =
      some (if found = (k, k.keyValue1, true) then
        { k with keyState := .normal, keyValue0 := k.keyValue1 } else k) := by
  have hget := netKeyGet_of_mem hk
  rw [beaconReceive_snb hid hfound]
  obtain ⟨k', w, second⟩ := found
  cases second with
  | false => simp [hget]
  | true =>
    have hmem := List.mem_of_find?_eq_some hfound
    obtain ⟨hget', -⟩ := mem_snbSlots hmem
    dsimp only
    rw [if_pos rfl, netKeyGet_revokeOld, hget, Option.map_some]
    by_cases hkk : k.keyIndex = k'.keyIndex
    · have hkey : k' = k := Option.some.inj (hget'.symm.trans (hkk ▸ hget))
      subst hkey
      rw [if_pos rfl, if_pos (by rw [slot1_value hmem])]
    · rw [if_neg hkk, if_neg (fun h => hkk (congrArg (·.1.keyIndex) h).symm)]

theorem Stage.after_at (h : j.At aes old new k) : j.after k.keyState = j := by
  cases j with
  | oldNormal => simp [Stage.after, h.1]
  | phase1 => simp [Stage.after, h.1]
  | phase2 => simp [Stage.after, h.1]
  | newNormal => simp [Stage.after, h.1]

theorem Stage.normal_of_at (h : j.At aes old new k) :
    k.keyState = .normal ↔ j = .oldNormal ∨ j = .newNormal := by
  cases j <;> simp [h.1]

/-- A key that stays as it is carries the phase of the beacon unless it has to enter phase 2. -/
theorem carries_kept {index : BitVec 16} {out : BeaconOut aes} (hj : j.At aes old new k)
    (hphase : i.rank = j.rank ∨ i.rank = j.rank + 1)
    (hiv : out.ivUpdate = some (iv.ivIndex, decide (iv.state = .inProgress)))
    (hget : netKeyGet out.store index = some k) :
    Carries iv i j index out ↔ ¬ (i = .phase2 ∧ j = .phase1) := by
  constructor
  · rintro h ⟨rfl, rfl⟩
    have henter := h.enter rfl rfl k hget
    exact absurd (hj.1.symm.trans henter) (by decide)
  · intro h
    refine ⟨hiv, fun k' hk' => ?_, fun hi hj' => absurd ⟨hi, hj'⟩ h⟩
    obtain rfl := Option.some.inj (hget.symm.trans hk')
    rw [Stage.after_at hj]
    omega

/-- A key that the beacon takes back to normal carries the phase of a sender that is there. -/
theorem carries_completed {index : BitVec 16} {out : BeaconOut aes} (hj : j.At aes old new k)
    (hstate : k.keyState ≠ .normal)
    (hiv : out.ivUpdate = some (iv.ivIndex, decide (iv.state = .inProgress)))
    (hget : netKeyGet out.store index =
      some { k with keyState := .normal, keyValue0 := k.keyValue1 }) :
    Carries iv i j index out ↔ i = .newNormal := by
  have hrefresh : ¬ (j = .oldNormal ∨ j = .newNormal) :=
    fun h => hstate ((Stage.normal_of_at hj).mpr h)
  have hafter : j.after .normal = .newNormal := if_neg fun h => hrefresh (.inl h)
  constructor
  · intro h
    have hrank := h.phase _ hget
    rw [hafter] at hrank
    cases i <;> first | rfl | exact absurd hrank (by decide)
  · rintro rfl
    refine ⟨hiv, fun k' hk' => ?_, fun hi => absurd hi (by decide)⟩
    obtain rfl := Option.some.inj (hget.symm.trans hk')
    rw [hafter]

/-- Slot 1 is authentic first only for a sender in phase 2 or after it: before, the sender's
value is that of slot 0. -/
theorem sender_of_slot1 (hj : j.At aes old new k) (hphase : i.rank = j.rank ∨ i.rank = j.rank + 1)
    (hself : snbMatches aes (Snb.ofMemory mem) (netKeyDerive aes (i.txKey old new)) = true)
    (h : firstMatch s mem = some (k, value, true)) : i = .phase2 ∨ i = .newNormal := by
  obtain ⟨-, hstate, hfirst⟩ := firstMatch_second h
  rw [ne_eq, Stage.normal_of_at hj, not_or] at hstate
  cases j with
  | oldNormal => exact absurd rfl hstate.1
  | phase1 =>
    cases i with
    | oldNormal => simp [Stage.rank] at hphase
    | phase1 =>
      rw [hj.2.1] at hfirst
      exact Bool.noConfusion (hself.symm.trans hfirst)
    | phase2 => exact .inl rfl
    | newNormal => exact .inr rfl
  | phase2 =>
    cases i with
    | oldNormal | phase1 => simp [Stage.rank] at hphase
    | phase2 => exact .inl rfl
    | newNormal => exact .inr rfl
  | newNormal => exact absurd rfl hstate.2

/-- A receiver in phase 2 that a beacon of phase 2 leaves there found another value first. -/
theorem shadowed_of_kept {found : NetKey × NetKeyValue × Bool} (hj : Stage.phase2.At aes old new k)
    (hself : snbMatches aes (Snb.ofMemory mem) (netKeyDerive aes new) = true)
    (hfound : firstMatch s mem = some found) (hkept : found ≠ (k, k.keyValue1, true)) :
    Shadowed s k mem := by
  rw [← hj.2.2] at hself
  by_contra h
  have hfirst := (firstMatch_slot1 hself).mpr h
  exact hkept (Option.some.inj (hfound.symm.trans hfirst))

/-- A beacon carries the IV index and state in any case, and the phase unless the sender is in
phase 2: the receiver then takes the clear flag as the end of the refresh. -/
theorem snb_carries_iff {sender receiver : KeyStore aes} {n : ℕ} {ks kr : NetKey}
    (hks : sender.netKeys[n]? = some ks) (hi : i.At aes old new ks)
    (hmem : (beaconSendSnb sender iv)[n]? = some mem)
    (hkr : kr ∈ receiver.netKeys) (hj : j.At aes old new kr)
    (hphase : i.rank = j.rank ∨ i.rank = j.rank + 1) :
    Carries iv i j kr.keyIndex (beaconReceive receiver (mem ++ rest)) ↔
      i ≠ .phase2 ∨ j = .phase2 ∧ Shadowed receiver kr (mem ++ rest) := by
  rw [beaconSendSnb, List.getElem?_map, hks, Option.map_some, Option.some_inj] at hmem
  subst hmem
  have hnear : i.Near j := by
    unfold Stage.Near
    omega
  obtain ⟨found, hfound⟩ : ∃ found,
      firstMatch receiver (snbMemory aes iv (snbValue ks) ++ rest) = some found :=
    firstMatch_isSome hi hkr hj hnear
  have hid : (snbValue ks).netId.length = 8 := by
    rw [snbValue_at hi]
    exact netKeyDerive_netId_length _
  have hiv := congrArg BeaconOut.ivUpdate (beaconReceive_snb hid hfound)
  have hget := netKeyGet_beaconReceive hid hkr hfound
  have hself : snbMatches aes (Snb.ofMemory (snbMemory aes iv (snbValue ks) ++ rest))
      (snbValue ks) = true := snbMatches_self hid
  generalize snbMemory aes iv (snbValue ks) ++ rest = mem at hfound hiv hget hself ⊢
  rw [snbValue_at hi] at hself
  by_cases hc : found = (kr, kr.keyValue1, true)
  · rw [if_pos hc] at hget
    subst hc
    have hslot1 := List.find?_some hfound
    have hshadow := (firstMatch_slot1 hslot1).mp hfound
    rw [carries_completed hj (firstMatch_second hfound).2.1 hiv hget]
    rcases sender_of_slot1 hj hphase hself hfound with rfl | rfl <;> simp [hshadow]
  · rw [if_neg hc] at hget
    rw [carries_kept hj hphase hiv hget]
    by_cases hi2 : i = .phase2
    · subst hi2
      cases j with
      | oldNormal | newNormal => simp [Stage.rank] at hphase
      | phase1 => simp
      | phase2 => simp [shadowed_of_kept hj hself hfound hc]
    · simp [hi2]

/-- A store with one network key and one application key, both in the middle of a refresh. -/
def refreshStore (net app : KeyState) : KeyStore maskAes where
  netKeys := [⟨net, 0, netKeyDerive maskAes (List.replicate 16 1),
    netKeyDerive maskAes (List.replicate 16 2)⟩]
  appKeys := [⟨app, 0, appKeyDerive maskAes (List.replicate 16 3),
    appKeyDerive maskAes (List.replicate 16 4), 0⟩]
  devKeys := []
  netNodup := by simp
  appNodup := by simp
  derived := by simp [appKeyDerive]

/-- The beacon of a sender in phase 2 ends the refresh of a receiver in phase 1. -/
theorem snb_skips_phase2 : ∃ mem, beaconSendSnb (refreshStore .phase2 .phase2) (Iv.init 0) = [mem] ∧
    ¬ Carries (Iv.init 0) .phase2 .phase1 0
      (beaconReceive (refreshStore .phase1 .phase1) mem) := by
  refine ⟨_, rfl, fun h => ?_⟩
  exact absurd (h.enter rfl rfl _ rfl) (by decide)

theorem snb_carries_example : ∃ mem,
    (beaconSendSnb (refreshStore .phase1 .phase1) (Iv.init 0))[0]? = some mem ∧
    Carries (Iv.init 0) .phase1 .phase1 0
      (beaconReceive (refreshStore .phase1 .phase1) (mem ++ [])) := by
  have hat : Stage.phase1.At maskAes (List.replicate 16 1) (List.replicate 16 2)
      ⟨.phase1, 0, netKeyDerive maskAes (List.replicate 16 1),
        netKeyDerive maskAes (List.replicate 16 2)⟩ := ⟨rfl, rfl, rfl⟩
  have hkey : (refreshStore .phase1 .phase1).netKeys[0]? = some _ := rfl
  have hmem : (beaconSendSnb (refreshStore .phase1 .phase1) (Iv.init 0))[0]? = some _ := rfl
  refine ⟨_, hmem, ?_⟩
  exact (snb_carries_iff hkey hat hmem (List.mem_singleton.mpr rfl) hat (.inl rfl)).mpr
    (.inl (by decide))

def netPhase (s : KeyStore aes) (i : BitVec 16) : Option KeyState :=
  (netKeyGet s i).map (·.keyState)

def appPhase (s : KeyStore aes) (i : BitVec 16) : Option KeyState :=
  (appKeyGet s i).map (·.keyState)

/-- Only a beacon that was authentic under slot 1 moves a network key, and one that was
authentic under slot 0 moves no key. -/
structure OnlyNew (s : KeyStore aes) (mem : List Byte) : Prop where
  moved : ∀ i, netPhase (beaconReceive s mem).store i ≠ netPhase s i →
    ∃ k w, firstMatch s mem = some (k, w, true) ∧ k.keyIndex = i
  kept : ∀ k w, firstMatch s mem = some (k, w, false) → ∀ i,
    netPhase (beaconReceive s mem).store i = netPhase s i ∧
      appPhase (beaconReceive s mem).store i = appPhase s i

theorem netPhase_enterPhase2 {n i : BitVec 16} (h : i ≠ n) :
    netPhase (enterPhase2 s n) i = netPhase s i := by
  simp [netPhase, netKeyGet_enterPhase2, h]

theorem netPhase_revokeOld {n i : BitVec 16} (h : i ≠ n) :
    netPhase (revokeOld s n) i = netPhase s i := by
  simp [netPhase, netKeyGet_revokeOld, h]

/-- The step into phase 2 moves no key exactly where it was made before. -/
theorem enterPhase2_kept (hget : netKeyGet s k.keyIndex = some k) :
    (∀ i, netPhase (enterPhase2 s k.keyIndex) i = netPhase s i ∧
      appPhase (enterPhase2 s k.keyIndex) i = appPhase s i) ↔
    k.keyState = .phase2 ∧ ∀ i a, appKeyGet s i = some a → a.netKeyBind = k.keyIndex →
      a.keyState ≠ .phase1 := by
  constructor
  · intro h
    refine ⟨?_, fun i a ha hbind hstate => ?_⟩
    · have hnet := (h k.keyIndex).1
      rw [netPhase, netPhase, netKeyGet_enterPhase2, hget] at hnet
      simpa using hnet.symm
    · have happ := (h i).2
      rw [appPhase, appPhase, appKeyGet_enterPhase2, ha] at happ
      simp [hbind, hstate] at happ
  · rintro ⟨hstate, hbound⟩ i
    constructor
    · by_cases hi : i = k.keyIndex
      · subst hi
        simp [netPhase, netKeyGet_enterPhase2, hget, hstate]
      · exact netPhase_enterPhase2 hi
    · rw [appPhase, appPhase, appKeyGet_enterPhase2]
      cases ha : appKeyGet s i with
      | none => rfl
      | some a =>
        have hne := hbound i a ha
        rw [Option.map_some, Option.map_some, Option.map_some]
        split_ifs with hc
        · have hphase1 := hne hc.1
          cases hs : a.keyState <;> simp_all
        · rfl

/-- A beacon that is authentic under slot 0 first moves keys through its flag alone. -/
theorem beaconReceive_slot0 (h : firstMatch s mem = some (k, value, false)) :
    (beaconReceive s mem).store =
      if (Snb.ofMemory mem).keyRefresh = true ∧ k.keyState ≠ .normal
      then enterPhase2 s k.keyIndex else s := by
  rw [beaconReceive_eq, h]
  by_cases hrefresh : (Snb.ofMemory mem).keyRefresh <;>
    by_cases hstate : k.keyState = .normal <;> simp [hrefresh, hstate]

theorem netPhase_beaconReceive {second : Bool} (h : firstMatch s mem = some (k, value, second))
    {i : BitVec 16} (hi : i ≠ k.keyIndex) :
    netPhase (beaconReceive s mem).store i = netPhase s i := by
  rw [beaconReceive_eq, h]
  dsimp only
  split_ifs
  · rfl
  · exact netPhase_enterPhase2 hi
  · exact netPhase_revokeOld hi
  · rfl

/-- Only the new key advances a refresh exactly if no beacon with the flag, authentic under
slot 0, meets a key in phase 1: the flag is not checked against the slot. -/
theorem onlyNew_iff (s : KeyStore aes) (mem : List Byte) :
    OnlyNew s mem ↔
      ∀ k w, firstMatch s mem = some (k, w, false) → (Snb.ofMemory mem).keyRefresh = true →
        k.keyState ≠ .phase1 ∧ (k.keyState = .phase2 → ∀ i a, appKeyGet s i = some a →
          a.netKeyBind = k.keyIndex → a.keyState ≠ .phase1) := by
  constructor
  · intro h k w hfirst hrefresh
    obtain ⟨hget, -⟩ := mem_snbSlots (List.mem_of_find?_eq_some hfirst)
    have hkept := h.kept k w hfirst
    rw [beaconReceive_slot0 hfirst] at hkept
    by_cases hstate : k.keyState = .normal
    · rw [hstate]
      exact ⟨by decide, fun h => absurd h (by decide)⟩
    · rw [if_pos ⟨hrefresh, hstate⟩, enterPhase2_kept hget] at hkept
      rw [hkept.1]
      exact ⟨by decide, fun _ => hkept.2⟩
  · intro h
    have hkept : ∀ k w, firstMatch s mem = some (k, w, false) → ∀ i,
        netPhase (beaconReceive s mem).store i = netPhase s i ∧
          appPhase (beaconReceive s mem).store i = appPhase s i := by
      intro k w hfirst
      obtain ⟨hget, -⟩ := mem_snbSlots (List.mem_of_find?_eq_some hfirst)
      rw [beaconReceive_slot0 hfirst]
      split_ifs with hc
      · obtain ⟨hphase1, hphase2⟩ := h k w hfirst hc.1
        have hstate : k.keyState = .phase2 := by
          cases hs : k.keyState <;> simp_all
        exact (enterPhase2_kept hget).mpr ⟨hstate, hphase2 hstate⟩
      · exact fun _ => ⟨rfl, rfl⟩
    refine ⟨fun i hmoved => ?_, hkept⟩
    cases hfirst : firstMatch s mem with
    | none =>
      rw [beaconReceive_eq, hfirst] at hmoved
      exact absurd rfl hmoved
    | some found =>
      obtain ⟨k, w, second⟩ := found
      cases second with
      | false => exact absurd (hkept k w hfirst i).1 hmoved
      | true =>
        by_contra hne
        have hi : i ≠ k.keyIndex := fun h => hne ⟨k, w, rfl, h.symm⟩
        exact hmoved (netPhase_beaconReceive hfirst hi)

/-- A beacon with the key refresh flag, authentic under a key value. -/
def refreshSnb (value : NetKeyValue) : List Byte :=
  let authenticated := [1] ++ value.netId ++ [0, 0, 0, 0]
  [1] ++ authenticated ++ (aesCmac maskAes value.beaconKey authenticated).take 8

/-- The holder of the old key moves a network key and its application key into phase 2. -/
theorem onlyNew_fails : ¬ OnlyNew (refreshStore .phase1 .phase1)
    (refreshSnb (netKeyDerive maskAes (List.replicate 16 1))) := by
  intro h
  have hkept := h.kept _ _ rfl 0
  exact absurd hkept.1 (by decide)

end Meshx.KeyPhases
