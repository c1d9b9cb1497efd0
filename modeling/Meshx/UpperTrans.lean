import Meshx.Keys
import Meshx.Sequence

/-! The upper transport and access layers: access messages are encrypted under an
application or device key on the way down and decrypted by trial on the way up. The lengths
travel through parameters of eight and sixteen bits. Definitions carry the source names. -/
namespace Meshx.UpperTrans

open Lib AesCcm Security Keys Sequence

/-- `meshx_app_nonce_t` and `meshx_device_nonce_t`, which differ in their type only. -/
def accessNonce (ctx : MsgCtx) : List Byte :=
  (if ctx.akf then 0x01 else 0x02) :: (if ctx.szmic then 0x80 else 0x00) ::
    (be24 ctx.seqAuth ++ be16 ctx.src ++ be16 ctx.dst ++ be32 ctx.ivIndex)

structure CipherCall where
  key : Key
  nonce : List Byte
  input : List Byte
  tagLen : ℕ
  deriving DecidableEq, Repr

/-- `meshx_upper_trans_encrypt`: the access PDU in place and its TransMIC. The length of
the PDU arrives in a `uint8_t`. -/
def upperTransEncrypt (c : Crypto) (accessPdu : List Byte) (transMicLen : ℕ) (ctx : MsgCtx) :
    Except Fault (List Byte × List Byte × CipherCall) :=
  match ctx.pkey with
  | none => .error .nullDeref
  | some key =>
    let pduLen := accessPdu.length % 256
    let call := ⟨key, accessNonce ctx, accessPdu.take pduLen, transMicLen⟩
    let out := c.aead.encrypt call.key call.nonce call.input call.tagLen
    .ok (splice accessPdu 0 out.1, out.2, call)

/-- How a send ends: in a return code, or in the call of `meshx_lower_trans_send` with
these arguments after this call of the cipher. -/
inductive UpperSend
  | ret (err : Errno)
  | lower (pdu : List Byte) (ctx : MsgCtx) (call : Option CipherCall)
  deriving DecidableEq, Repr

def maxCtlPduSize : ℕ := 256

/-- The element whose counter a message from `src` draws from, in a `uint8_t`. -/
def elementIndex (nodeAddr src : BitVec 16) : ℕ := ((src - nodeAddr).setWidth 8).toNat

/-- `meshx_upper_trans_send`; `connected` answers `meshx_net_iface_is_connect`, `mallocOk`
says whether the buffer could be allocated. -/
def upperTransSend (c : Crypto) (nodeAddr : BitVec 16) (connected : ℕ → Bool) (mallocOk : Bool)
    (seq : SeqArray) (data : List Byte) (ctx : MsgCtx) : Except Fault (SeqArray × UpperSend) :=
  if ctx.netIface.any fun id => !connected id then .ok (seq, .ret .connect)
  else if ctx.ctl then
    if maxCtlPduSize < data.length then .ok (seq, .ret .length)
    else .ok (seq, .lower data ctx none)
  else if !mallocOk then .ok (seq, .ret .mem)
  else do
    let (seq, drawn) := seqUse seq (elementIndex nodeAddr ctx.src)
    let ctx := { ctx with seq := drawn.setWidth 24, seqAuth := drawn.setWidth 24 }
    let (pdu, mic, call) ← upperTransEncrypt c data (if ctx.szmic then 8 else 4) ctx
    return (seq, .lower (pdu ++ mic) ctx (some call))

/-- The key loop of `meshx_upper_trans_decrypt`: every value with the AID of the message
is tried on the one buffer, in place. -/
def tryAppValues (c : Crypto) (nonce mic : List Byte) (aid : BitVec 6) :
    List AppKeyValue → List Byte → Option AppKeyValue × List Byte
  | [], buf => (none, buf)
  | v :: vs, buf =>
    if v.aid = aid then
      let out := c.aead.decrypt v.appKey nonce buf mic
      if out.1 then (some v, out.2) else tryAppValues c nonce mic aid vs out.2
    else tryAppValues c nonce mic aid vs buf

structure Receiver where
  appKeys : List AppKey
  devKeys : List DeviceKey
  nodeAddr : BitVec 16

/-- `meshx_upper_trans_decrypt`: return code, buffer and the context with its key set. -/
def upperTransDecrypt (c : Crypto) (r : Receiver) (accessPdu mic : List Byte) (ctx : MsgCtx) :
    Errno × List Byte × MsgCtx :=
  if ctx.akf then
    match tryAppValues c (accessNonce ctx) mic ctx.aid (r.appKeys.flatMap usableAppValues)
        accessPdu with
    | (none, buf) => (.key, buf, ctx)
    | (some v, buf) => (.success, buf, { ctx with pkey := some v.appKey })
  else
    match devKeyGet r.devKeys r.nodeAddr with
    | none => (.key, accessPdu, ctx)
    | some d =>
      let out := c.aead.decrypt d.devKey (accessNonce ctx) accessPdu mic
      (if out.1 then .success else .fail, out.2, { ctx with pkey := some d.devKey })

/-- How a receive ends: in a return code, or in the call of `meshx_access_receive`, whose
length is a `uint8_t`. -/
inductive UpperReceive
  | ret (err : Errno)
  | access (pdu : List Byte) (ctx : MsgCtx)
  deriving DecidableEq, Repr

/-- `meshx_upper_trans_receive`. Control messages are not handled further. -/
def upperTransReceive (c : Crypto) (r : Receiver) (data : List Byte) (ctx : MsgCtx) :
    Except Fault UpperReceive :=
  if ctx.ctl then .ok (.ret .success)
  else
    let transMicLen := if ctx.seg && ctx.szmic then 8 else 4
    if data.length < transMicLen then .error .badRead
    else
      let len := data.length - transMicLen
      let pduLen := len % 256
      match upperTransDecrypt c r (data.take pduLen) (data.drop len) ctx with
      | (.success, buf, ctx) => .ok (.access ((splice data 0 buf).take (len % 256)) ctx)
      | (err, _, _) => .ok (.ret err)

/-- The checks of `meshx_access_send`, in their order; `none` lets the message through. -/
def accessSendCheck (len : ℕ) (ctx : MsgCtx) : Option Errno :=
  if !addressIsValid ctx.src || !addressIsValid ctx.dst then some .inval
  else if ctx.pnetKey.isNone || ctx.pkey.isNone then some .key
  else if (ctx.akf && ctx.aid == 0) || (!ctx.akf && ctx.aid != 0) then some .inval
  else if len ≤ 11 && !ctx.seg && ctx.szmic then some .inval
  else if ctx.szmic && 376 < len then some .length
  else if !ctx.szmic && 380 < len then some .length
  else none

def accessSend (c : Crypto) (nodeAddr : BitVec 16) (connected : ℕ → Bool) (mallocOk : Bool)
    (seq : SeqArray) (data : List Byte) (ctx : MsgCtx) : Except Fault (SeqArray × UpperSend) :=
  match accessSendCheck data.length ctx with
  | some err => .ok (seq, .ret err)
  | none => upperTransSend c nodeAddr connected mallocOk seq data ctx

section RoundTrip

variable {c : Crypto}

theorem accessNonce_length (ctx : MsgCtx) : (accessNonce ctx).length = 13 := by
  simp [accessNonce]

/-- From the values `vs` and the buffer `buf`, failed attempts bring the key loop to the
values `rest` and the buffer `buf'`. -/
inductive AppTried (c : Crypto) (nonce mic : List Byte) (aid : BitVec 6) :
    List AppKeyValue → List Byte → List AppKeyValue → List Byte → Prop
  | zero (vs buf) : AppTried c nonce mic aid vs buf vs buf
  | skip {v vs buf rest buf'} : v.aid ≠ aid → AppTried c nonce mic aid vs buf rest buf' →
      AppTried c nonce mic aid (v :: vs) buf rest buf'
  | fail {v vs buf rest buf'} : v.aid = aid → (c.aead.decrypt v.appKey nonce buf mic).1 = false →
      AppTried c nonce mic aid vs (c.aead.decrypt v.appKey nonce buf mic).2 rest buf' →
      AppTried c nonce mic aid (v :: vs) buf rest buf'

theorem AppTried.run {nonce mic buf buf' : List Byte} {aid : BitVec 6}
    {vs rest : List AppKeyValue} (h : AppTried c nonce mic aid vs buf rest buf') :
    tryAppValues c nonce mic aid vs buf = tryAppValues c nonce mic aid rest buf' := by
  induction h with
  | zero => rfl
  | skip hn _ ih => rw [tryAppValues, if_neg hn, ih]
  | fail hn hd _ ih =>
    rw [tryAppValues, if_pos hn, ← ih]
    simp only [hd, Bool.false_eq_true, if_false]

theorem AppTried.length {nonce mic buf buf' : List Byte} {aid : BitVec 6}
    {vs rest : List AppKeyValue} (hadm : c.aead.admits nonce.length buf.length mic.length)
    (h : AppTried c nonce mic aid vs buf rest buf') : buf'.length = buf.length := by
  induction h with
  | zero => rfl
  | skip _ _ ih => exact ih hadm
  | @fail v vs buf rest buf' _ _ _ ih =>
    have hl := c.aead.decrypt_length (k := v.appKey) hadm
    rw [ih (by rw [hl]; exact hadm), hl]

/-- A successful key loop stopped at a value it reached by failed attempts. -/
theorem tryAppValues_some {nonce mic buf text : List Byte} {aid : BitVec 6} {v : AppKeyValue}
    {vs : List AppKeyValue} (h : tryAppValues c nonce mic aid vs buf = (some v, text)) :
    ∃ rest buf', AppTried c nonce mic aid vs buf (v :: rest) buf' ∧ v.aid = aid ∧
      c.aead.decrypt v.appKey nonce buf' mic = (true, text) := by
  induction vs generalizing buf with
  | nil => simp [tryAppValues] at h
  | cons w vs ih =>
    by_cases hw : w.aid = aid
    · rw [tryAppValues, if_pos hw] at h
      cases hd : (c.aead.decrypt w.appKey nonce buf mic).1 with
      | true =>
        simp only [hd, if_true, Prod.mk.injEq, Option.some_inj] at h
        obtain ⟨rfl, ht⟩ := h
        exact ⟨vs, buf, .zero _ _, hw, Prod.ext hd ht⟩
      | false =>
        simp only [hd, Bool.false_eq_true, if_false] at h
        obtain ⟨rest, buf', ht, hv⟩ := ih h
        exact ⟨rest, buf', .fail hw hd ht, hv⟩
    · rw [tryAppValues, if_neg hw] at h
      obtain ⟨rest, buf', ht, hv⟩ := ih h
      exact ⟨rest, buf', .skip hw ht, hv⟩

/-- The receiver comes to the sender's key with the buffer it was handed: among the
application keys no earlier attempt may have changed the buffer. -/
def Reaches (c : Crypto) (r : Receiver) (ctx : MsgCtx) (key : Key) (buf mic : List Byte) : Prop :=
  if ctx.akf then
    ∃ v rest, AppTried c (accessNonce ctx) mic ctx.aid (r.appKeys.flatMap usableAppValues) buf
      (v :: rest) buf ∧ v.aid = ctx.aid ∧ v.appKey = key
  else ∃ d, devKeyGet r.devKeys r.nodeAddr = some d ∧ d.devKey = key

/-- On an encrypted text the receiver recovers text and key exactly when it reaches the key. -/
theorem upperTransDecrypt_iff {r : Receiver} {ctx : MsgCtx} {key : Key} {text : List Byte}
    {micLen : ℕ} (hlen : text.length < 65536) (hmic : micLen = 4 ∨ micLen = 8) :
    let out := c.aead.encrypt key (accessNonce ctx) text micLen
    upperTransDecrypt c r out.1 out.2 ctx = (.success, text, { ctx with pkey := some key }) ↔
      Reaches c r ctx key out.1 out.2 := by
  intro out
  have hadm : c.aead.admits (accessNonce ctx).length text.length micLen := by
    rw [accessNonce_length]; exact c.admits hlen hmic
  have hct : out.1.length = text.length := c.aead.encrypt_length hadm
  have htag : out.2.length = micLen := c.aead.tag_length hadm
  have hdec : c.aead.decrypt key (accessNonce ctx) out.1 out.2 = (true, text) :=
    c.aead.decrypt_encrypt hadm
  have hadm' : c.aead.admits (accessNonce ctx).length out.1.length out.2.length := by
    rw [hct, htag]; exact hadm
  by_cases hakf : ctx.akf = true
  · simp only [upperTransDecrypt, Reaches, hakf, if_true]
    constructor
    · intro h
      cases ht : tryAppValues c (accessNonce ctx) out.2 ctx.aid
          (r.appKeys.flatMap usableAppValues) out.1 with
      | mk found buf =>
        rw [ht] at h
        cases found with
        | none => cases h
        | some v =>
          simp only [Prod.mk.injEq, MsgCtx.mk.injEq, true_and, Option.some_inj] at h
          obtain ⟨rfl, hkey⟩ := h
          obtain ⟨rest, buf', htried, haid, hv⟩ := tryAppValues_some ht
          have hl := htried.length hadm'
          rw [hkey] at hv
          have heq := (c.aead.decrypt_inj (a := buf')
            (b := out.1) (s := out.2) (t := out.2) (by rw [hl]; exact hadm') hadm' rfl
            (by rw [hv]) (by rw [hdec]) (by rw [hv, hdec])).1
          subst heq
          exact ⟨v, rest, htried, haid, hkey⟩
    · rintro ⟨v, rest, htried, haid, rfl⟩
      rw [htried.run, tryAppValues, if_pos haid, hdec]
      rfl
  · simp only [upperTransDecrypt, Reaches, hakf, Bool.false_eq_true, if_false]
    constructor
    · intro h
      cases hd : devKeyGet r.devKeys r.nodeAddr with
      | none => rw [hd] at h; cases h
      | some d =>
        rw [hd] at h
        simp only [Prod.mk.injEq, MsgCtx.mk.injEq, true_and, Option.some_inj] at h
        exact ⟨d, rfl, h.2.2⟩
    · rintro ⟨d, hd, rfl⟩
      rw [hd]
      simp only [hdec]
      rfl

theorem upperTransDecrypt_length {r : Receiver} {ctx ctx' : MsgCtx} {pdu mic buf : List Byte}
    (hadm : c.aead.admits (accessNonce ctx).length pdu.length mic.length)
    (h : upperTransDecrypt c r pdu mic ctx = (.success, buf, ctx')) : buf.length = pdu.length := by
  by_cases hakf : ctx.akf = true
  · simp only [upperTransDecrypt, hakf, if_true] at h
    cases ht : tryAppValues c (accessNonce ctx) mic ctx.aid
        (r.appKeys.flatMap usableAppValues) pdu with
    | mk found text =>
      rw [ht] at h
      cases found with
      | none => cases h
      | some v =>
        simp only [Prod.mk.injEq, true_and] at h
        obtain ⟨rest, buf', htried, -, hv⟩ := tryAppValues_some ht
        have hl := htried.length hadm
        have hd := c.aead.decrypt_length (k := v.appKey) (n := accessNonce ctx)
          (x := buf') (t := mic) (by rw [hl]; exact hadm)
        rw [hv] at hd
        rw [← h.1, hd, hl]
  · simp only [upperTransDecrypt, hakf, Bool.false_eq_true, if_false] at h
    cases hd : devKeyGet r.devKeys r.nodeAddr with
    | none => rw [hd] at h; cases h
    | some d =>
      rw [hd] at h
      simp only [Prod.mk.injEq] at h
      rw [← h.2.1]
      exact c.aead.decrypt_length hadm

/-- What a send does to an access message that it passes on. -/
theorem upperTransSend_lower {nodeAddr : BitVec 16} {connected : ℕ → Bool} {mallocOk : Bool}
    {seq seq' : SeqArray} {data pdu : List Byte} {ctx sent : MsgCtx} {call : CipherCall}
    (h : upperTransSend c nodeAddr connected mallocOk seq data ctx =
      .ok (seq', .lower pdu sent (some call))) :
    ∃ key, sent.pkey = some key ∧ call = ⟨key, accessNonce sent, data.take (data.length % 256),
        if sent.szmic then 8 else 4⟩ ∧
      pdu = splice data 0 (c.aead.encrypt call.key call.nonce call.input call.tagLen).1 ++
        (c.aead.encrypt call.key call.nonce call.input call.tagLen).2 := by
  unfold upperTransSend at h
  split_ifs at h with hconn hctl hlen hmalloc
  · cases h
  · cases h
  · cases h
  · cases h
  cases hkey : ctx.pkey with
  | none => simp [upperTransEncrypt, hkey, bind, Except.bind] at h
  | some key =>
    simp only [upperTransEncrypt, hkey, bind, Except.bind, pure, Except.pure, Except.ok.injEq,
      Prod.mk.injEq, UpperSend.lower.injEq, Option.some_inj] at h
    obtain ⟨-, hpdu, hsent, hcall⟩ := h
    subst hcall
    subst hsent
    exact ⟨key, rfl, rfl, hpdu.symm⟩

/-- The receiver's context carries what the sender put into the nonce, and a message with a
long TransMIC has come in segments, the only way it is sent. -/
structure SameNonce (sent rctx : MsgCtx) : Prop where
  ctl : rctx.ctl = false
  src : rctx.src = sent.src
  dst : rctx.dst = sent.dst
  seqAuth : rctx.seqAuth = sent.seqAuth
  ivIndex : rctx.ivIndex = sent.ivIndex
  info : rctx.info = sent.info
  seg : rctx.szmic = true → rctx.seg = true

theorem SameNonce.nonce {sent rctx : MsgCtx} (h : SameNonce sent rctx) :
    accessNonce rctx = accessNonce sent := by
  have hakf : rctx.akf = sent.akf := by rw [MsgCtx.akf, h.info, MsgCtx.akf]
  have hszmic : rctx.szmic = sent.szmic := by rw [MsgCtx.szmic, h.info, MsgCtx.szmic]
  rw [accessNonce, accessNonce, hakf, hszmic, h.seqAuth, h.src, h.dst, h.ivIndex]

theorem SameNonce.micLen {sent rctx : MsgCtx} (h : SameNonce sent rctx) :
    (if rctx.seg && rctx.szmic then 8 else 4) = if sent.szmic then 8 else 4 := by
  have hs : rctx.szmic = sent.szmic := by rw [MsgCtx.szmic, h.info, MsgCtx.szmic]
  cases hz : sent.szmic with
  | false => simp [hs, hz]
  | true => simp [hs, hz, h.seg (hs.trans hz)]

theorem micLen_or (szmic : Bool) :
    (if szmic then 8 else 4) = 4 ∨ (if szmic then 8 else 4) = 8 := by
  cases szmic <;> simp

/-- A receive splits text and tag again and hands up what the key loop decrypts. -/
theorem upperTransReceive_iff {r : Receiver} {rctx : MsgCtx} {text tag payload : List Byte}
    {key : Key} (hctl : rctx.ctl = false)
    (htag : (if rctx.seg && rctx.szmic then 8 else 4) = tag.length) (hlen : text.length < 256)
    (hadm : c.aead.admits (accessNonce rctx).length text.length tag.length) :
    upperTransReceive c r (text ++ tag) rctx =
        .ok (.access payload { rctx with pkey := some key }) ↔
      upperTransDecrypt c r text tag rctx =
        (.success, payload, { rctx with pkey := some key }) := by
  have hsub : (text ++ tag).length - tag.length = text.length := by
    rw [List.length_append, Nat.add_sub_cancel]
  have hmod : text.length % 256 = text.length := Nat.mod_eq_of_lt hlen
  simp only [upperTransReceive, hctl, Bool.false_eq_true, if_false, htag]
  rw [if_neg (by simp), hsub, hmod, List.take_left, List.drop_left]
  cases hd : upperTransDecrypt c r text tag rctx with
  | mk err rest =>
    obtain ⟨buf, ctx⟩ := rest
    cases err with
    | success =>
      have hbuf : buf.length = text.length := upperTransDecrypt_length hadm hd
      simp [splice_zero, ← hbuf]
    | _ => simp

/-- A payload that an application hands to the access layer goes through the cipher as a
whole and comes back as it was, exactly when it is shorter than 256 bytes and the receiver
reaches the sender's key. -/
theorem upperTrans_roundTrip_iff {nodeAddr : BitVec 16} {connected : ℕ → Bool}
    {mallocOk : Bool} {seq seq' : SeqArray} {payload pdu : List Byte} {ctx sent rctx : MsgCtx}
    {call : CipherCall} {r : Receiver}
    (hs : accessSend c nodeAddr connected mallocOk seq payload ctx =
      .ok (seq', .lower pdu sent (some call)))
    (hn : SameNonce sent rctx) :
    (call.input = payload ∧
      upperTransReceive c r pdu rctx = .ok (.access payload { rctx with pkey := sent.pkey })) ↔
    payload.length < 256 ∧ ∃ key, sent.pkey = some key ∧
      let out := c.aead.encrypt key (accessNonce sent) payload (if sent.szmic then 8 else 4)
      Reaches c r rctx key out.1 out.2 := by
  have hsend : upperTransSend c nodeAddr connected mallocOk seq payload ctx =
      .ok (seq', .lower pdu sent (some call)) := by
    unfold accessSend at hs
    cases hc : accessSendCheck payload.length ctx with
    | some err => rw [hc] at hs; cases hs
    | none => rwa [hc] at hs
  obtain ⟨key, hkey, hcall, hpdu⟩ := upperTransSend_lower hsend
  have hmic := micLen_or sent.szmic
  by_cases hlen : payload.length < 256
  · have htake : payload.take (payload.length % 256) = payload := by
      rw [Nat.mod_eq_of_lt hlen, List.take_length]
    have hrecv := hn.micLen
    rw [htake] at hcall
    subst hcall
    generalize (if sent.szmic = true then 8 else 4) = micLen at *
    have hadm : c.aead.admits (accessNonce sent).length payload.length micLen := by
      rw [accessNonce_length]; exact c.admits (by omega) hmic
    have hct := c.aead.encrypt_length (k := key) hadm
    have htag := c.aead.tag_length (k := key) hadm
    have hiff := @upperTransDecrypt_iff c r rctx key payload _ (by omega) hmic
    simp only [hn.nonce] at hiff
    have hkeys : ∀ P : Key → Prop, (∃ k, sent.pkey = some k ∧ P k) ↔ P key := fun P =>
      ⟨fun ⟨k, hk, h⟩ => by rw [hkey, Option.some_inj] at hk; rwa [hk], fun h => ⟨key, hkey, h⟩⟩
    simp only [hkeys, hlen, true_and]
    rw [← hiff]
    dsimp only at hpdu ⊢
    generalize c.aead.encrypt key (accessNonce sent) payload micLen = out
      at hpdu hct htag ⊢
    have hout : pdu = out.1 ++ out.2 := by
      rw [hpdu, splice_zero, hct, List.drop_length, List.append_nil]
    have hadm' : c.aead.admits (accessNonce rctx).length out.1.length out.2.length := by
      rw [hn.nonce, hct, htag]; exact hadm
    rw [hout, hkey]
    exact upperTransReceive_iff hn.ctl (hrecv.trans htag.symm) (by omega) hadm'
  · refine ⟨fun h => ?_, fun h => absurd h.1 hlen⟩
    have hl := congrArg List.length h.1
    rw [hcall, List.length_take] at hl
    have := Nat.mod_lt payload.length (show 0 < 256 by omega)
    omega

def deviceMsg : MsgCtx :=
  { MsgCtx.zero with
    src := 1
    dst := 2
    pnetKey := some ⟨[], [], [], 0, [], [], []⟩
    pkey := some (List.replicate 16 3) }

theorem upperTrans_roundTrip_example :
    let sent := { deviceMsg with seq := 0, seqAuth := 0 }
    let out := maskCrypto.aead.encrypt (List.replicate 16 3) (accessNonce sent) [1, 2, 3] 4
    upperTransReceive maskCrypto ⟨[], [⟨2, 1, List.replicate 16 3⟩], 2⟩ (out.1 ++ out.2) sent =
      .ok (.access [1, 2, 3] sent) := by
  exact ((@upperTrans_roundTrip_iff maskCrypto 1 (fun _ => true) true [0] _ _ _ deviceMsg _
    { deviceMsg with seq := 0, seqAuth := 0 } _ ⟨[], [⟨2, 1, List.replicate 16 3⟩], 2⟩ rfl
    ⟨rfl, rfl, rfl, rfl, rfl, rfl, by decide⟩).mpr
    ⟨by decide, _, rfl, _, rfl, rfl⟩).2

/-- Of a payload of 256 bytes nothing is given to the cipher: it leaves in the clear. -/
theorem accessSend_unprotected : ∃ seq pdu sent call,
    accessSend maskCrypto 1 (fun _ => true) true [0] (List.replicate 256 7) deviceMsg =
      .ok (seq, .lower pdu sent (some call)) ∧
    ¬ (call.input = List.replicate 256 7 ∧ ∀ r rctx, SameNonce sent rctx →
      upperTransReceive maskCrypto r pdu rctx =
        .ok (.access (List.replicate 256 7) { rctx with pkey := sent.pkey })) := by
  have hcheck : accessSendCheck (List.replicate 256 (7 : Byte)).length deviceMsg = none := by
    rw [List.length_replicate]; decide
  have hsend : ∃ seq pdu sent call,
      upperTransSend maskCrypto 1 (fun _ => true) true [0] (List.replicate 256 7) deviceMsg =
        .ok (seq, .lower pdu sent (some call)) := ⟨_, _, _, _, rfl⟩
  obtain ⟨seq, pdu, sent, call, hs⟩ := hsend
  refine ⟨seq, pdu, sent, call, by simp only [accessSend, hcheck, hs], fun h => ?_⟩
  obtain ⟨key, -, hcall, -⟩ := upperTransSend_lower hs
  have hnone : call.input.length = 0 := by
    simp only [hcall, List.length_take, List.length_replicate]
    omega
  rw [h.1, List.length_replicate] at hnone
  omega

end RoundTrip

end Meshx.UpperTrans
