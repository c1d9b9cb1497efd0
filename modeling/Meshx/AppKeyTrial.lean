import Meshx.UpperTrans

/-! Trial decryption of access messages and the order of the application keys. Every attempt
decrypts the one reassembly buffer in place. -/
namespace Meshx.UpperTrans

open Lib AesCcm Security Keys

variable {c : Crypto} {r : Receiver} {ctx : MsgCtx} {pdu mic : List Byte}

def Authenticates (c : Crypto) (ctx : MsgCtx) (pdu mic : List Byte) (v : AppKeyValue) : Prop :=
  v.aid = ctx.aid ∧ (c.aead.decrypt v.appKey (accessNonce ctx) pdu mic).1 = true

/-- The receiver with this one application key value. -/
def onlyAppKey (r : Receiver) (v : AppKeyValue) : Receiver :=
  { r with appKeys := [⟨.normal, 0, v, v, 0⟩] }

/-- If some usable value with the AID authenticates the PDU, decryption succeeds with such a
value, as if it were the only one. -/
def OrderFree (c : Crypto) (r : Receiver) (ctx : MsgCtx) (pdu mic : List Byte) : Prop :=
  let Genuine := fun v => v ∈ r.appKeys.flatMap usableAppValues ∧ Authenticates c ctx pdu mic v
  (∃ v, Genuine v) → ∃ v, Genuine v ∧
    (upperTransDecrypt c r pdu mic ctx).1 = .success ∧
    upperTransDecrypt c r pdu mic ctx = upperTransDecrypt c (onlyAppKey r v) pdu mic ctx

/-- The loop comes to a value that authenticates the PDU with the buffer as received. -/
def ReachedIntact (c : Crypto) (r : Receiver) (ctx : MsgCtx) (pdu mic : List Byte) : Prop :=
  ∃ v rest, AppTried c (accessNonce ctx) mic ctx.aid (r.appKeys.flatMap usableAppValues) pdu
    (v :: rest) pdu ∧ Authenticates c ctx pdu mic v

theorem AppTried.mem {nonce buf buf' : List Byte} {aid : BitVec 6} {vs rest : List AppKeyValue}
    (h : AppTried c nonce mic aid vs buf rest buf') : ∀ v ∈ rest, v ∈ vs := by
  induction h with
  | zero => exact fun v hv => hv
  | skip _ _ ih => exact fun v hv => List.mem_cons_of_mem _ (ih v hv)
  | fail _ _ _ ih => exact fun v hv => List.mem_cons_of_mem _ (ih v hv)

theorem upperTransDecrypt_onlyAppKey {v : AppKeyValue} (hakf : ctx.akf = true)
    (hv : Authenticates c ctx pdu mic v) :
    upperTransDecrypt c (onlyAppKey r v) pdu mic ctx =
      (.success, (c.aead.decrypt v.appKey (accessNonce ctx) pdu mic).2,
        { ctx with pkey := some v.appKey }) := by
  have hvalues : (onlyAppKey r v).appKeys.flatMap usableAppValues = [v] := rfl
  obtain ⟨haid, hok⟩ := hv
  simp only [upperTransDecrypt, hakf, if_true, hvalues, tryAppValues, if_pos haid, hok]

/-- The order of the keys does not matter exactly when an authenticating value, if there is
one, is reached before an attempt has changed the buffer. -/
theorem appOrderFree_iff (c : Crypto) (r : Receiver) (ctx : MsgCtx) (pdu mic : List Byte)
    (hakf : ctx.akf = true) (hlen : pdu.length < 65536)
    (hmic : mic.length = 4 ∨ mic.length = 8) :
    OrderFree c r ctx pdu mic ↔
      ((∃ v ∈ r.appKeys.flatMap usableAppValues, Authenticates c ctx pdu mic v) →
        ReachedIntact c r ctx pdu mic) := by
  have hadm : c.aead.admits (accessNonce ctx).length pdu.length mic.length := by
    rw [accessNonce_length]
    exact c.admits hlen hmic
  constructor
  · intro h hex
    obtain ⟨v, ⟨-, hv⟩, -, heq⟩ := h hex
    rw [upperTransDecrypt_onlyAppKey hakf hv] at heq
    simp only [upperTransDecrypt, hakf, if_true] at heq
    cases ht : tryAppValues c (accessNonce ctx) mic ctx.aid
        (r.appKeys.flatMap usableAppValues) pdu with
    | mk found text =>
      rw [ht] at heq
      cases found with
      | none => cases heq
      | some w =>
        simp only [Prod.mk.injEq, true_and, MsgCtx.mk.injEq, Option.some_inj] at heq
        obtain ⟨htext, hkey⟩ := heq
        obtain ⟨rest, buf, htried, haid, hw⟩ := tryAppValues_some ht
        have hl := htried.length hadm
        rw [hkey] at hw
        -- the same text under the same key and nonce comes from the same ciphertext
        have hbuf := (c.aead.decrypt_inj (by rw [hl]; exact hadm) hadm rfl (by rw [hw]) hv.2
          (by rw [hw, htext])).1
        subst hbuf
        exact ⟨w, rest, htried, haid, by rw [hkey, hw]⟩
  · intro h hex
    obtain ⟨v, rest, htried, hv⟩ := h hex
    have hrun := htried.run
    rw [tryAppValues, if_pos hv.1] at hrun
    simp only [hv.2, if_true] at hrun
    have hdec : upperTransDecrypt c r pdu mic ctx = (.success,
        (c.aead.decrypt v.appKey (accessNonce ctx) pdu mic).2,
        { ctx with pkey := some v.appKey }) := by
      simp only [upperTransDecrypt, hakf, if_true, hrun]
    refine ⟨v, ⟨htried.mem v (by simp), hv⟩, by rw [hdec], ?_⟩
    rw [hdec, upperTransDecrypt_onlyAppKey hakf hv]

/-- An application message from element address 1, and two values with its AID. -/
def appMsg : MsgCtx :=
  { MsgCtx.zero with src := 1, dst := 2, info := MsgCtx.accessInfo true false 5 }

def appValue (b : Byte) : AppKeyValue := ⟨List.replicate 16 b, 5⟩

/-- A receiver whose key is in phase 1, the given values in its slots. -/
def appReceiver (v w : AppKeyValue) : Receiver := ⟨[⟨.phase1, 0, v, w, 0⟩], [], 2⟩

theorem appOrderFree_example :
    OrderFree maskCrypto (appReceiver (appValue 3) (appValue 9)) appMsg
      (maskCrypto.aead.encrypt (List.replicate 16 3) (accessNonce appMsg) [1, 2, 3] 4).1
      (maskCrypto.aead.encrypt (List.replicate 16 3) (accessNonce appMsg) [1, 2, 3] 4).2 :=
  (appOrderFree_iff _ _ _ _ _ (by decide) (by decide) (by decide)).mpr fun _ =>
    ⟨appValue 3, [appValue 9], .zero _ _, by decide, by decide⟩

/-- A message under the new value of a key in phase 1 whose old value has the same AID: the
attempt with the old value garbles the buffer and the message is lost. -/
theorem appOrderFree_fails :
    ¬ OrderFree maskCrypto (appReceiver (appValue 9) (appValue 3)) appMsg
      (maskCrypto.aead.encrypt (List.replicate 16 3) (accessNonce appMsg) [1, 2, 3] 4).1
      (maskCrypto.aead.encrypt (List.replicate 16 3) (accessNonce appMsg) [1, 2, 3] 4).2 := by
  intro h
  obtain ⟨v, -, hok, -⟩ := h ⟨appValue 3, by decide, by decide, by decide⟩
  exact absurd hok (by decide)

end Meshx.UpperTrans
