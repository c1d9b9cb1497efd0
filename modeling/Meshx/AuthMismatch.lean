import Meshx.ProvExchange
import Meshx.Cmac

/-! Authentication by the confirmation values: an exchange that succeeds with one
authentication value is refused with any other one. -/
namespace Meshx.Prov

open Lib AesCcm Security

variable {env : ProvEnv} {x : ExchangeInput} {prov dev : ProvDev} {auth : AuthValue}

section Refused

/-- A confirmation is that of one authentication value. -/
theorem generateConfirmation_auth_inj {value : List Byte}
    (hloss : ∀ key, Lossless env.crypto.aes key) (hvalue : value.length = 16)
    (hprov : prov.authValue.length = 16) (hdev : dev.authValue.length = 16)
    (hagree : Agree { prov with authValue := dev.authValue } dev) :
    (generateConfirmation env prov value true).confirmation =
      (generateConfirmation env dev value true).confirmation ↔ prov.authValue = dev.authValue := by
  rw [← hagree.confirmation_eq value]
  simp only [generateConfirmation, if_true]
  have hreplaces : Replaces prov.authValue dev.authValue [] := .inl ⟨hprov, hdev⟩
  have h16 : 16 ∣ value.length := by rw [hvalue]
  have hiff (key : Key) := aesCmac_replaces (hloss key) h16 hreplaces
  simp only [List.append_nil] at hiff
  exact hiff _

/-- A RANDOM whose confirmation is not the received one is refused. -/
theorem pduProcess_random_refused {value : List Byte} (hlen : value.length = 16)
    (hcfm : (generateConfirmation env dev value true).confirmation ≠ dev.confirmationRemote)
    (hs : ¬ ProvState.random < dev.state) :
    (pduProcess env dev (randomPdu value) 17 true).1 = .fail := by
  have ht : ProvType.ofByte (byteAt (randomPdu value) 0) = some .random := ofByte_code .random
  have hfield : field (randomPdu value) .random = value := field_provPdu hlen
  obtain ⟨g, hg⟩ : ∃ g,
      generateConfirmation env { dev with randomRemote := value } value true = g := ⟨_, rfl⟩
  have hcfm' : g.confirmation ≠ dev.confirmationRemote ∧
      g.confirmationRemote = dev.confirmationRemote := by
    rw [← hg]
    exact ⟨hcfm, rfl⟩
  have hcheck : verifyConfirmation env (takeRandom dev (randomPdu value)) true = (false, g) := by
    simp only [verifyConfirmation, takeRandom, hfield, hg, hcfm'.1, hcfm'.2, decide_false]
  simp only [pduProcess, ht, processRandom, hcheck]
  rw [process_fits (by decide) hs]
  rfl

theorem deliver_random_refused (hs : prov.state = .random) (hlen : prov.random.length = 16)
    (hcfm : (generateConfirmation env dev prov.random true).confirmation ≠ dev.confirmationRemote)
    (hlt : ¬ ProvState.random < dev.state) : deliver env prov dev = .error .fail := by
  have hsize : (randomPdu prov.random).length = 17 := by
    simp [randomPdu, provPdu, hlen]
  have hret : (pduProcess env dev (randomPdu prov.random) (BitVec.ofNat 8 17) true).1 = .fail :=
    pduProcess_random_refused hlen hcfm hlt
  rw [deliver_eq (by rw [statePdu, hs]), hsize, accept]
  rw [if_neg (by rw [hret]; decide), hret]

end Refused

/-- Sessions that agree but for the authentication value, each with its own confirmation. -/
structure Mismatched (env : ProvEnv) (prov dev : ProvDev) : Prop where
  agree : Agree { prov with authValue := dev.authValue } dev
  provRandom : prov.random.length = 16
  devRandom : dev.random.length = 16
  provAuth : prov.authValue.length = 16
  devAuth : dev.authValue.length = 16
  differ : prov.authValue ≠ dev.authValue
  provConfirmation :
    prov.confirmation = (generateConfirmation env prov prov.random true).confirmation
  devConfirmation : dev.confirmation = (generateConfirmation env dev dev.random true).confirmation

theorem Mismatched.devConfirmation_ne (h : Mismatched env prov dev)
    (hloss : ∀ key, Lossless env.crypto.aes key) :
    (generateConfirmation env (devAnswered prov dev) prov.random true).confirmation ≠
      prov.confirmation := by
  intro heq
  rw [h.provConfirmation] at heq
  exact h.differ ((generateConfirmation_auth_inj hloss h.provRandom h.provAuth h.devAuth
    h.agree).mp heq.symm)

theorem Mismatched.provConfirmation_ne (h : Mismatched env prov dev)
    (hloss : ∀ key, Lossless env.crypto.aes key) :
    (generateConfirmation env (provAnswered prov dev) dev.random true).confirmation ≠
      dev.confirmation := by
  intro heq
  rw [h.devConfirmation] at heq
  exact h.differ ((generateConfirmation_auth_inj hloss h.devRandom h.provAuth h.devAuth
    h.agree).mp heq)

/-- The device refuses the provisioner's RANDOM. -/
theorem Mismatched.refused (h : Mismatched env prov dev)
    (hloss : ∀ key, Lossless env.crypto.aes key) (hp : prov.state = .publicKey)
    (hd : dev.state = .publicKey) : exchangeRandoms env prov dev = .error .fail := by
  have hcall : accept (confirmation prov prov.confirmation) =
      .ok { prov with state := .confirmation } := by
    refine congrArg accept (admitted_success ?_ ?_) <;> rw [hp] <;> decide
  have hplen : prov.confirmation.length = 16 := by
    rw [h.provConfirmation]
    exact generateConfirmation_length _ _
  have hdlen : dev.confirmation.length = 16 := by
    rw [h.devConfirmation]
    exact generateConfirmation_length _ _
  have hdev : deliver env { prov with state := .confirmation } dev = .ok (devAnswered prov dev) :=
    deliver_confirmation_device rfl hplen h.agree.devRole hd (by decide)
  have hprov : deliver env (devAnswered prov dev) { prov with state := .confirmation } =
      .ok (provAnswered prov dev) :=
    deliver_confirmation_provisioner (s := .confirmation) rfl hdlen h.agree.provRole rfl
      (by decide)
  have hrandom : deliver env (provAnswered prov dev) (devAnswered prov dev) = .error .fail :=
    deliver_random_refused rfl h.provRandom (h.devConfirmation_ne hloss)
      (by decide : ¬ ProvState.random < .confirmation)
  rw [exchangeRandoms, hcall, ok_bind, hdev, ok_bind, hprov, ok_bind]
  dsimp only
  rw [hrandom]
  rfl

section Exchange

/-- The sessions of an exchange in which the device is given another authentication value. -/
theorem Paired.mismatched (h : Paired env x prov dev)
    (hprov : (setAuthValue prov x.provAuth).authValue.length = 16)
    (hdev : (setAuthValue dev auth).authValue.length = 16)
    (hne : (setAuthValue dev auth).authValue ≠ (setAuthValue dev x.devAuth).authValue) :
    Mismatched env (provKeyed env { x with devAuth := auth } prov dev)
      (devKeyed env { x with devAuth := auth } prov dev) := by
  have hp : (setAuthValue (started env x prov) x.provAuth).authValue =
      (setAuthValue prov x.provAuth).authValue := setAuthValue_congr (by rfl) _
  have hd : (setAuthValue (started env x dev) auth).authValue =
      (setAuthValue dev auth).authValue := setAuthValue_congr (by rfl) _
  rw [← hp] at hprov
  rw [← hd] at hdev
  have hdiffer : (setAuthValue (started env x prov) x.provAuth).authValue ≠
      (setAuthValue (started env x dev) auth).authValue := by
    rw [hp, hd, h.authValue]
    exact hne.symm
  rw [provKeyed, devKeyed, keyed_eq, keyed_eq]
  exact ⟨⟨h.provRole, h.devRole, rfl, rfl, rfl, h.sharedSecret, rfl, rfl, rfl⟩, h.provRandom,
    h.devRandom, hprov, hdev, hdiffer, rfl, rfl⟩

/-- In an exchange that succeeds, the device is given any other authentication value. Neither
side's check passes, and the device refuses the provisioner. -/
theorem provExchange_other_auth (h : Paired env x prov dev)
    (hloss : ∀ key, Lossless env.crypto.aes key)
    (hprov : (setAuthValue prov x.provAuth).authValue.length = 16)
    (hdev : (setAuthValue dev auth).authValue.length = 16)
    (hne : (setAuthValue dev auth).authValue ≠ (setAuthValue dev x.devAuth).authValue) :
    ∃ p d, exchangeKeys env { x with devAuth := auth } (started env x prov) (started env x dev) =
        .ok (p, d) ∧
      checked env p (devAnswered p d) = false ∧ checked env d (provAnswered p d) = false ∧
      provExchange env { x with devAuth := auth } prov dev = .error .fail := by
  have hm := h.mismatched hprov hdev hne
  have hs : exchangeStart env { x with devAuth := auth } prov dev =
      .ok (started env x prov, started env x dev) :=
    exchangeStart_ok h.provState h.devState h.capabilites h.start h.supported
  have hk : exchangeKeys env { x with devAuth := auth } (started env x prov) (started env x dev) =
      .ok (provKeyed env { x with devAuth := auth } prov dev,
        devKeyed env { x with devAuth := auth } prov dev) :=
    exchangeKeys_ok rfl rfl h.provKeyLength h.devKeyLength h.provKey h.devKey
  have hstate (d : ProvDev) (remote : List Byte) (auth : AuthValue) (value : List Byte) :
      (generateConfirmation env (keyed env d remote auth) value true).state = .publicKey := by
    rw [keyed_eq]
    rfl
  refine ⟨_, _, hk,
    (checked_eq hm.provRandom).trans (decide_eq_false (hm.devConfirmation_ne hloss)),
    (checked_eq hm.devRandom).trans (decide_eq_false (hm.provConfirmation_ne hloss)), ?_⟩
  rw [provExchange, hs, ok_bind]
  dsimp only
  rw [hk, ok_bind]
  dsimp only
  rw [hm.refused hloss (hstate _ _ _ _) (hstate _ _ _ _)]
  rfl

end Exchange

/-- A mask can be taken off again. -/
theorem maskAes_lossless (key : Key) : Lossless maskAes key := by
  intro b hb c hc h
  have hb16 : b.length = 16 := hb
  have hc16 : c.length = 16 := hc
  refine List.ext_getElem (hb16.trans hc16.symm) fun i hi hi' => ?_
  have hbyte := congrArg (fun xs => byteAt xs i) h
  simp only [maskAes, byteAt, List.getD_eq_getElem?_getD, List.getElem?_map,
    List.getElem?_range (hb16 ▸ hi), List.getElem?_eq_getElem hi, List.getElem?_eq_getElem hi',
    Option.map_some, Option.getD_some] at hbyte
  exact BitVec.xor_right_inj _ |>.mp hbyte

theorem provExchange_other_auth_example : ∃ p d,
    exchangeKeys maskEnv { plainInput with devAuth := .staticOob (List.replicate 16 9) }
        (started maskEnv plainInput (openedSession .provisioner 1))
        (started maskEnv plainInput (openedSession .device 2)) = .ok (p, d) ∧
      checked maskEnv p (devAnswered p d) = false ∧ checked maskEnv d (provAnswered p d) = false ∧
      provExchange maskEnv { plainInput with devAuth := .staticOob (List.replicate 16 9) }
        (openedSession .provisioner 1) (openedSession .device 2) = .error .fail :=
  provExchange_other_auth
    { provState := rfl, devState := rfl, provRole := rfl, devRole := rfl, provKeyLength := rfl,
      devKeyLength := rfl, provRandom := rfl, devRandom := rfl, netKeyLength := rfl,
      capabilites := by decide, start := by decide, supported := by decide, provKey := rfl,
      devKey := rfl, sharedSecret := by decide, authValue := rfl }
    maskAes_lossless rfl rfl (by decide)

end Meshx.Prov
