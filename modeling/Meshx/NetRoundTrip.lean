import Meshx.Net

/-! What `meshx_net_send` packs, `meshx_net_receive` unpacks: the obfuscation undoes itself
because both sides compute its mask from the encrypted body, and the cipher is given the
same nonce on both sides because the header is plain again before decryption. -/
namespace Meshx.Net

open Lib AesCcm Security

variable {c : Crypto} {kv : NetKeyValue} {ctx : MsgCtx} {transPdu : List Byte}
  {ivIndex : BitVec 32}

theorem head_nid (ivi : Bool) (nid : BitVec 7) :
    (BitVec.ofBool ivi ++ nid : BitVec 8).extractLsb' 0 7 = nid := by
  revert ivi nid; decide

theorem head_ivi (ivi : Bool) (nid : BitVec 7) :
    (BitVec.ofBool ivi ++ nid : BitVec 8).msb = ivi := by
  revert ivi nid; decide

@[simp] theorem plainPdu_ttl : (plainPdu kv ctx transPdu).ttl = ctx.ttl := head_nid _ _

@[simp] theorem plainPdu_ctl : (plainPdu kv ctx transPdu).ctl = ctx.ctl := head_ivi _ _

@[simp] theorem plainPdu_seq : (plainPdu kv ctx transPdu).seq = ctx.seq :=
  readBe24_be24 ctx.seq (be16 ctx.src)

@[simp] theorem plainPdu_src : (plainPdu kv ctx transPdu).src = ctx.src := by
  simpa [NetPdu.src, plainPdu, be24] using readBe16_be16 ctx.src []

theorem plainPdu_body (h : transPdu.length ≤ 20) :
    (plainPdu kv ctx transPdu).body.take (2 + transPdu.length) = be16 ctx.dst ++ transPdu := by
  have hlen : (be16 ctx.dst ++ transPdu).length = 2 + transPdu.length := by simp
  rw [plainPdu, List.take_take, min_eq_left (by omega), ← hlen, List.take_left]

theorem netNonce_length (p : NetPdu) (ivIndex : BitVec 32) :
    (netNonce p ivIndex).length = 13 := by
  simp [netNonce, p.hidden_length]

theorem micLen_cases (ctl : Bool) : micLen ctl = 4 ∨ micLen ctl = 8 := by
  cases ctl <;> simp [micLen]

theorem netAdmits (p : NetPdu) {size : ℕ} (h : size < 65536) (ctl : Bool) :
    c.aead.admits (netNonce p ivIndex).length size (micLen ctl) := by
  rw [netNonce_length]
  exact c.admits h (micLen_cases ctl)

/-- Only the header and the first seven encrypted bytes enter the obfuscation. -/
theorem pecb_congr {p q : NetPdu} (h : p.body.take 7 = q.body.take 7) :
    pecb c p ivIndex kv = pecb c q ivIndex kv := by
  rw [pecb, pecb, h]

/-- Obfuscating twice gives the header back, as long as the body keeps its first bytes. -/
theorem netObfuscation_hidden {p q : NetPdu}
    (hh : q.hidden = (netObfuscation c p ivIndex kv).hidden)
    (hb : q.body.take 7 = p.body.take 7) :
    (netObfuscation c q ivIndex kv).hidden = p.hidden := by
  have hlen : p.hidden.length ≤ (pecb c p ivIndex kv).length := by
    rw [p.hidden_length, pecb_length]; omega
  change xorBytes q.hidden (pecb c q ivIndex kv) = p.hidden
  rw [hh, pecb_congr hb]
  exact xorBytes_cancel hlen

theorem writeBody_ok {p : NetPdu} {x : List Byte} (h : x.length ≤ 22) :
    ∃ q, writeBody p x = .ok q ∧ q.head = p.head ∧ q.hidden = p.hidden ∧
      q.body = x ++ p.body.drop x.length := by
  refine ⟨_, dif_pos h, rfl, rfl, ?_⟩
  simp only [splice_zero]

theorem netEncrypt_ok {p : NetPdu} {transPduLen : ℕ}
    (h : 2 + transPduLen + micLen p.ctl ≤ 22) :
    ∃ e, netEncrypt c p transPduLen ivIndex kv = .ok e ∧ e.head = p.head ∧
      e.hidden = p.hidden ∧
      e.body.take (2 + transPduLen + micLen p.ctl) =
        (c.aead.encrypt kv.encryptionKey (netNonce p ivIndex)
          (p.body.take (2 + transPduLen)) (micLen p.ctl)).1 ++
        (c.aead.encrypt kv.encryptionKey (netNonce p ivIndex)
          (p.body.take (2 + transPduLen)) (micLen p.ctl)).2 := by
  have hpt : (p.body.take (2 + transPduLen)).length = 2 + transPduLen := by
    rw [List.length_take, p.body_length]; omega
  have hadm : c.aead.admits (netNonce p ivIndex).length
      (p.body.take (2 + transPduLen)).length (micLen p.ctl) := netAdmits p (by omega) p.ctl
  have hct := c.aead.encrypt_length (k := kv.encryptionKey) hadm
  have htag := c.aead.tag_length (k := kv.encryptionKey) hadm
  rw [netEncrypt]
  generalize c.aead.encrypt kv.encryptionKey (netNonce p ivIndex)
    (p.body.take (2 + transPduLen)) (micLen p.ctl) = out at hct htag ⊢
  have hlen : (out.1 ++ out.2).length = 2 + transPduLen + micLen p.ctl := by
    rw [List.length_append, hct, htag, hpt]
  obtain ⟨e, he, hhead, hhidden, hbody⟩ := writeBody_ok (p := p) (x := out.1 ++ out.2) (by omega)
  exact ⟨e, he, hhead, hhidden, by rw [hbody, ← hlen, List.take_left]⟩

/-- Decrypting a body that starts with a ciphertext and its MIC writes the text over it. -/
theorem netDecrypt_ok {p : NetPdu} {transPduLen : ℕ} {text : List Byte}
    (h : 2 + transPduLen + micLen p.ctl ≤ 22) (ht : text.length = 2 + transPduLen)
    (hb : p.body.take (2 + transPduLen + micLen p.ctl) =
      (c.aead.encrypt kv.encryptionKey (netNonce p ivIndex) text (micLen p.ctl)).1 ++
      (c.aead.encrypt kv.encryptionKey (netNonce p ivIndex) text (micLen p.ctl)).2) :
    ∃ d, netDecrypt c p transPduLen ivIndex kv = .ok (true, d) ∧ d.head = p.head ∧
      d.hidden = p.hidden ∧ d.body.take (2 + transPduLen) = text := by
  have hadm : c.aead.admits (netNonce p ivIndex).length text.length (micLen p.ctl) :=
    netAdmits p (by omega) p.ctl
  have hct := c.aead.encrypt_length (k := kv.encryptionKey) hadm
  have hdec := c.aead.decrypt_encrypt (k := kv.encryptionKey) hadm
  generalize c.aead.encrypt kv.encryptionKey (netNonce p ivIndex) text (micLen p.ctl) = out
    at hct hdec hb
  have hfst : p.body.take (2 + transPduLen) = out.1 := by
    have := congrArg (List.take (2 + transPduLen)) hb
    rwa [List.take_take, min_eq_left (by omega), List.take_left' (by omega)] at this
  have hsnd : (p.body.drop (2 + transPduLen)).take (micLen p.ctl) = out.2 := by
    have := congrArg (List.drop (2 + transPduLen)) hb
    rwa [List.drop_take, Nat.add_sub_cancel_left, List.drop_left' (by omega)] at this
  obtain ⟨d, hd, hhead, hhidden, hbody⟩ := writeBody_ok (p := p) (x := text) (by omega)
  refine ⟨d, ?_, hhead, hhidden, by rw [hbody, ← ht, List.take_left]⟩
  rw [netDecrypt, if_neg (by omega), hfst, hsnd, hdec]
  simp only [hd]
  rfl

/-- The local copy agrees with the PDU it was sent from on the bytes received. -/
theorem copy_take {p : NetPdu} {n : ℕ} (h7 : 7 ≤ n) (h29 : n ≤ 29) (misc : List Byte) :
    (NetPdu.copy (p.bytes.take n) misc).head = p.head ∧
      (NetPdu.copy (p.bytes.take n) misc).hidden = p.hidden ∧
      (NetPdu.copy (p.bytes.take n) misc).body.take (n - 7) = p.body.take (n - 7) := by
  have hsplit : p.bytes.take n = p.head :: (p.hidden ++ p.body.take (n - 7)) := by
    obtain ⟨m, rfl⟩ := Nat.exists_eq_add_of_le' h7
    have hl := p.hidden_length
    rw [NetPdu.bytes, List.cons_append, List.take_succ_cons, List.take_append,
      List.take_of_length_le (by omega), hl]
    congr 3
  have hb : (p.body.take (n - 7)).length = n - 7 := by
    rw [List.length_take, p.body_length]; omega
  refine ⟨by simp [NetPdu.copy, hsplit], ?_, ?_⟩
  · simp [NetPdu.copy, hsplit, List.append_assoc, ← p.hidden_length]
  · have hd : (p.hidden ++ p.body.take (n - 7) ++ misc ++ List.replicate 29 0).drop 6 =
        p.body.take (n - 7) ++ (misc ++ List.replicate 29 0) := by
      simp [List.append_assoc, ← p.hidden_length]
    simp only [NetPdu.copy, hsplit, List.cons_append, List.drop_succ_cons, hd]
    rw [List.take_take, min_eq_left (by omega)]
    exact List.take_left' hb

theorem netLengthOk_le {transPduLen : ℕ} {ctl : Bool} (h : netLengthOk transPduLen ctl) :
    2 + transPduLen + micLen ctl ≤ 22 := by
  simp only [netLengthOk, Bool.and_eq_true, decide_eq_true_eq] at h
  have hmax : netTransPduMaxLen = 20 := rfl
  rcases micLen_cases ctl with hm | hm <;> omega

/-- What the receiver of a packed PDU knows once it has tried the right key value on it. -/
structure Unpacked (kv : NetKeyValue) (ctx : MsgCtx) (transPdu : List Byte) (d : Decoded) :
    Prop where
  keyValue : d.keyValue = kv
  ctl : d.pdu.ctl = ctx.ctl
  ttl : d.pdu.ttl = ctx.ttl
  seq : d.pdu.seq = ctx.seq
  src : d.pdu.src = ctx.src
  dst : d.pdu.dst = ctx.dst
  transPdu : d.pdu.pdu.take d.transPduLen = transPdu

theorem Unpacked.of_plain {d : Decoded} (hkv : d.keyValue = kv)
    (hh : d.pdu.hidden = (plainPdu kv ctx transPdu).hidden)
    (hlen : d.transPduLen = transPdu.length)
    (hb : d.pdu.body.take (2 + transPdu.length) = be16 ctx.dst ++ transPdu) :
    Unpacked kv ctx transPdu d := by
  have hdst : d.pdu.body = be16 ctx.dst ++ (transPdu ++ d.pdu.body.drop (2 + transPdu.length)) := by
    rw [← List.append_assoc, ← hb, List.take_append_drop]
  refine ⟨hkv, ?_, ?_, ?_, ?_, ?_, ?_⟩
  · rw [← plainPdu_ctl, NetPdu.ctl, hh, NetPdu.ctl]
  · rw [← plainPdu_ttl, NetPdu.ttl, hh, NetPdu.ttl]
  · rw [← plainPdu_seq, NetPdu.seq, hh, NetPdu.seq]
  · rw [← plainPdu_src, NetPdu.src, hh, NetPdu.src]
  · rw [NetPdu.dst, hdst, readBe16_be16]
  · rw [NetPdu.pdu, hdst, hlen, List.drop_left' (by simp), List.take_left]

/-- The sender's key value, tried on any copy of the packed bytes, unpacks them. -/
theorem tryKeyValue_netPack (hpos : 1 ≤ transPdu.length)
    (hok : netLengthOk transPdu.length ctx.ctl) :
    ∃ bytes, netPack c kv ctx transPdu = .ok bytes ∧ ∀ misc,
      (NetPdu.copy bytes misc).nid = kv.nid ∧
      (NetPdu.copy bytes misc).ivi = ctx.ivIndex.getLsbD 0 ∧
      ∃ d, tryKeyValue c bytes.length ctx.ivIndex kv (NetPdu.copy bytes misc) = .ok (true, d) ∧
        Unpacked kv ctx transPdu d := by
  have hle := netLengthOk_le hok
  have hmic := micLen_cases ctx.ctl
  obtain ⟨e, he, hhead, hhidden, hbody⟩ := @netEncrypt_ok c kv ctx.ivIndex
    (plainPdu kv ctx transPdu) transPdu.length (by rw [plainPdu_ctl]; omega)
  rw [plainPdu_ctl, plainPdu_body (by omega)] at hbody
  let q := netObfuscation c e ctx.ivIndex kv
  have hn : (q.bytes.take (9 + transPdu.length + micLen ctx.ctl)).length =
      9 + transPdu.length + micLen ctx.ctl := by
    have := q.hidden_length
    have := q.body_length
    rw [List.length_take, NetPdu.bytes, List.cons_append, List.length_cons, List.length_append]
    omega
  refine ⟨q.bytes.take (9 + transPdu.length + micLen ctx.ctl), by simp only [netPack, he]; rfl,
    fun misc => ?_⟩
  rw [hn]
  obtain ⟨hrhead, hrhidden, hrbody⟩ := copy_take (p := q)
    (n := 9 + transPdu.length + micLen ctx.ctl) (by omega) (by omega) misc
  generalize NetPdu.copy (q.bytes.take (9 + transPdu.length + micLen ctx.ctl)) misc = r
    at hrhead hrhidden hrbody ⊢
  have hrhead' : r.head = (plainPdu kv ctx transPdu).head := hrhead.trans hhead
  have hcut : 9 + transPdu.length + micLen ctx.ctl - 7 =
      2 + transPdu.length + micLen ctx.ctl := by omega
  rw [hcut] at hrbody
  have h7 : r.body.take 7 = e.body.take 7 := by
    have := congrArg (List.take 7) hrbody
    rwa [List.take_take, List.take_take, min_eq_left (by omega)] at this
  have hplain := netObfuscation_hidden hrhidden h7
  have hctl : (netObfuscation c r ctx.ivIndex kv).ctl = ctx.ctl := by
    rw [← plainPdu_ctl, NetPdu.ctl, hplain, hhidden, NetPdu.ctl]
  have hnonce : netNonce (netObfuscation c r ctx.ivIndex kv) ctx.ivIndex =
      netNonce (plainPdu kv ctx transPdu) ctx.ivIndex := by
    rw [netNonce, hplain, hhidden, netNonce]
  obtain ⟨d, hd, -, hdhidden, hdbody⟩ := @netDecrypt_ok c kv ctx.ivIndex
    (netObfuscation c r ctx.ivIndex kv) transPdu.length (be16 ctx.dst ++ transPdu)
    (by rw [hctl]; omega) (by simp) (by rw [hctl, hnonce, ← hbody]; exact hrbody)
  have hlen : (9 + transPdu.length + micLen ctx.ctl + 512 - 9 -
      micLen (netObfuscation c r ctx.ivIndex kv).ctl) % 256 = transPdu.length := by
    rw [hctl]; omega
  refine ⟨?_, ?_, ⟨kv, d, transPdu.length⟩, ?_, ?_⟩
  · rw [NetPdu.nid, hrhead']; exact head_nid _ _
  · rw [NetPdu.ivi, hrhead']; exact head_ivi _ _
  · simp only [tryKeyValue, hlen, hd]; rfl
  · exact Unpacked.of_plain rfl (hdhidden.trans (hplain.trans hhidden)) rfl hdbody

/-- When one usable value has the NID of the PDU, the loop comes down to that value. -/
theorem tryKeyValues_unique {len : ℕ} {kvs : List NetKeyValue} {p : NetPdu} {d : Decoded}
    (hmem : kv ∈ kvs) (hnid : kv.nid = p.nid) (huniq : ∀ v ∈ kvs, v.nid = p.nid → v = kv)
    (hd : tryKeyValue c len ivIndex kv p = .ok (true, d)) :
    tryKeyValues c len ivIndex kvs p = .ok (some d) := by
  induction kvs with
  | nil => cases hmem
  | cons v kvs ih =>
    by_cases hv : v.nid = p.nid
    · have hkv := huniq v (by simp) hv
      subst hkv
      simp only [tryKeyValues, if_pos hv, hd]
      rfl
    · have hne : kv ≠ v := by rintro rfl; exact hv hnid
      rw [tryKeyValues, if_neg hv]
      exact ih ((List.mem_cons.mp hmem).resolve_left hne)
        fun w hw => huniq w (List.mem_cons_of_mem _ hw)

theorem rxIvIndex_of_near {n m : BitVec 32} (h : m = n ∨ m = n + 1) :
    rxIvIndex m (n.getLsbD 0) = n := by
  rcases h with rfl | rfl
  · simp [rxIvIndex]
  · have hbit : (n + 1).getLsbD 0 ≠ n.getLsbD 0 := by
      have h0 : (n + 1).toNat % 2 ≠ n.toNat % 2 := by
        rw [BitVec.toNat_add, show (1 : BitVec 32).toNat = 1 from rfl]
        omega
      rw [BitVec.getLsbD, BitVec.getLsbD, Nat.testBit_zero, Nat.testBit_zero, ne_eq,
        decide_eq_decide]
      omega
    rw [rxIvIndex, if_pos hbit, BitVec.add_sub_cancel]

/-- The context a receiver builds for the PDU that was sent under `ctx`. -/
def receivedCtx (ctx : MsgCtx) (kv : NetKeyValue) (iface : ℕ) : MsgCtx :=
  { MsgCtx.zero with
    ctl := ctx.ctl
    ttl := ctx.ttl
    src := ctx.src
    dst := ctx.dst
    ivIndex := ctx.ivIndex
    seq := ctx.seq
    pnetKey := some kv
    netIface := some iface }

theorem Unpacked.rxCtx_eq {d : Decoded} (h : Unpacked kv ctx transPdu d) (iface : ℕ) :
    rxCtx iface ctx.ivIndex d = receivedCtx ctx kv iface := by
  rw [rxCtx, receivedCtx, h.keyValue, h.ctl, h.ttl, h.src, h.dst, h.seq]

/-- The result of a receive that gets past the address and cache checks. -/
def delivered (s : NetState) (pdu : List Byte) (ctx : MsgCtx) : NetResult :=
  if isMyAddress s ctx.dst then .toLower pdu ctx else .relay pdu ctx

theorem netReceive_of_trial {s : NetState} {iface : NetIface} {pdata misc : List Byte}
    {d : Decoded} (hf : iface.ifilter = true)
    (hiv : rxIvIndex s.ivIndex (NetPdu.copy pdata misc).ivi = ctx.ivIndex)
    (hd : netTrial c pdata.length ctx.ivIndex s.netKeys (NetPdu.copy pdata misc) =
      .ok (some d))
    (hu : Unpacked kv ctx transPdu d) (hsrc : addressIsValid ctx.src = true)
    (hdst : addressIsValid ctx.dst = true) (hready : s.nmc.Ready)
    (hnmc : nmcCheck s.nmc ⟨ctx.src, ctx.seq.setWidth 32⟩ = true) :
    ∃ nmc, nmc.Ready ∧ netReceive c s (some iface) pdata misc =
      .ok ({ s with nmc := nmc }, delivered s transPdu (receivedCtx ctx kv iface.id)) := by
  obtain ⟨nmc, hadd, hready'⟩ := nmcAdd_ready hready ⟨ctx.src, ctx.seq.setWidth 32⟩
  refine ⟨nmc, hready', ?_⟩
  simp only [netReceive, netReceiveFinish, hf, hiv, hd, hu.src, hu.dst, hu.seq, hsrc, hdst, hnmc,
    hadd, hu.transPdu, hu.rxCtx_eq, delivered, Bool.not_true, Bool.or_self, Bool.false_eq_true,
    if_false, bind, Except.bind, pure, Except.pure]
  rfl

/-- A message that `meshx_net_send` loops back: to the node itself, or on a loopback interface. -/
def LoopsBack (s : NetState) (ctx : MsgCtx) : Prop :=
  match ctx.netIface with
  | none => isMyAddress s ctx.dst = true
  | some id => ∃ iface, s.ifaces.find? (·.id = id) = some iface ∧ iface.type = .loopback

/-- The interface that a context names, if it names one, exists. -/
def Named (s : NetState) (ctx : MsgCtx) : Prop :=
  ∀ id, ctx.netIface = some id → ∃ iface, s.ifaces.find? (·.id = id) = some iface

/-- The interfaces that a message is for when it is not looped back. -/
def targets (s : NetState) (ctx : MsgCtx) : List NetIface :=
  match ctx.netIface with
  | none => s.ifaces.filter (·.type ≠ .loopback)
  | some id => (s.ifaces.find? (·.id = id)).toList

/-- What interfaces pass on to their bearers: the bytes, once for each that lets the message
through and is connected. -/
def passedOn (bytes : List Byte) (ctx : MsgCtx) (ifaces : List NetIface) : List NetTx :=
  ifaces.filterMap fun iface =>
    if iface.ofilter ctx.src ctx.dst then iface.bearer.map fun bearer => ⟨bearer, bytes⟩ else none

/-- How a send of the bytes ends, over all nodes and contexts. -/
structure Conveys (c : Crypto) (s : NetState) (ctx : MsgCtx) (bytes misc : List Byte)
    (out : Except Fault (NetState × NetSent)) : Prop where
  direct : ¬LoopsBack s ctx → Named s ctx →
    ∃ ret, out = .ok (s, ⟨ret, passedOn bytes ctx (targets s ctx), none⟩)
  looped : LoopsBack s ctx → ∀ lo rest, s.ifaces = lo :: rest →
    lo.ofilter ctx.src ctx.dst = true →
    out = (netReceive c s (some lo) bytes misc).map fun x => (x.1, ⟨.success, [], some x.2⟩)
  filtered : LoopsBack s ctx → ∀ lo rest, s.ifaces = lo :: rest →
    lo.ofilter ctx.src ctx.dst = false → out = .ok (s, ⟨.filter, [], none⟩)
  lost : ¬Named s ctx ∨ LoopsBack s ctx ∧ s.ifaces = [] → out = .error .nullDeref

section Send

variable {s : NetState} {bytes misc : List Byte} {bearerRet : NetTx → Errno}
  {out : Except Fault (NetState × NetSent)}

theorem netSendToBearer_sent (iface : NetIface) :
    ∃ ret, netSendToBearer bearerRet bytes ctx iface = ⟨ret, passedOn bytes ctx [iface], none⟩ := by
  unfold netSendToBearer
  cases hfilter : iface.ofilter ctx.src ctx.dst with
  | false => exact ⟨.filter, by simp [passedOn, hfilter]⟩
  | true =>
    cases hbearer : iface.bearer with
    | none => exact ⟨.connect, by simp [passedOn, hfilter, hbearer]⟩
    | some bearer => exact ⟨bearerRet ⟨bearer, bytes⟩, by simp [passedOn, hfilter, hbearer]⟩

theorem passedOn_cons (iface : NetIface) (ifaces : List NetIface) :
    passedOn bytes ctx (iface :: ifaces) =
      passedOn bytes ctx [iface] ++ passedOn bytes ctx ifaces :=
  @List.filterMap_append _ _ [iface] ifaces _

theorem sent_passedOn (ifaces : List NetIface) :
    (ifaces.map (netSendToBearer bearerRet bytes ctx)).flatMap (·.tx) =
      passedOn bytes ctx ifaces := by
  induction ifaces with
  | nil => rfl
  | cons iface ifaces ih =>
    obtain ⟨ret, hsent⟩ := @netSendToBearer_sent ctx bytes bearerRet iface
    rw [List.map_cons, List.flatMap_cons, ih, hsent]
    exact (passedOn_cons iface ifaces).symm

theorem conveys_loopback (hnamed : Named s ctx) (hloop : LoopsBack s ctx)
    (hout : out = netLoopback c s bytes misc ctx) : Conveys c s ctx bytes misc out := by
  subst hout
  refine ⟨fun h => absurd hloop h, ?_, ?_, ?_⟩
  · intro _ lo rest hifaces hfilter
    simp only [netLoopback, hifaces, hfilter, Bool.not_true, Bool.false_eq_true, if_false]
    cases netReceive c s (some lo) bytes misc with
    | error fault => rfl
    | ok x => rfl
  · intro _ lo rest hifaces hfilter
    simp only [netLoopback, hifaces, hfilter, Bool.not_false, if_true]
    rfl
  · rintro (hlost | ⟨-, hnil⟩)
    · exact absurd hnamed hlost
    · rw [netLoopback, hnil]

theorem conveys_direct (hnamed : Named s ctx) (hloop : ¬LoopsBack s ctx)
    (hout : ∃ ret, out = .ok (s, ⟨ret, passedOn bytes ctx (targets s ctx), none⟩)) :
    Conveys c s ctx bytes misc out where
  direct _ _ := hout
  looped h := absurd h hloop
  filtered h := absurd h hloop
  lost h := h.elim (fun hlost => absurd hnamed hlost) fun hlost => absurd hlost.1 hloop

/-- A send whose length is right does what the interfaces say. -/
theorem netSend_conveys (hkv : ctx.pnetKey = some kv)
    (hlen : netLengthOk transPdu.length ctx.ctl = true)
    (hbytes : netPack c kv ctx transPdu = .ok bytes) :
    Conveys c s ctx bytes misc (netSend c bearerRet s ctx transPdu misc) := by
  simp only [netSend, hlen, hkv, hbytes, Bool.not_true, Bool.false_eq_true, if_false, bind,
    Except.bind, pure, Except.pure]
  cases hid : ctx.netIface with
  | none =>
    have hnamed : Named s ctx := by
      intro id h
      rw [hid] at h
      cases h
    dsimp only
    by_cases hmy : isMyAddress s ctx.dst = true
    · rw [if_pos hmy]
      apply conveys_loopback hnamed _ rfl
      rw [LoopsBack, hid]
      exact hmy
    · rw [if_neg hmy]
      apply conveys_direct hnamed
      · rw [LoopsBack, hid]
        exact hmy
      · rw [sent_passedOn, targets, hid]
        exact ⟨_, rfl⟩
  | some id =>
    dsimp only
    cases hfind : s.ifaces.find? (·.id = id) with
    | none =>
      have hlost : ¬Named s ctx := by
        intro h
        obtain ⟨iface, hiface⟩ := h id hid
        rw [hfind] at hiface
        cases hiface
      have hloop : ¬LoopsBack s ctx := by
        rw [LoopsBack, hid]
        rintro ⟨iface, hiface, -⟩
        rw [hfind] at hiface
        cases hiface
      exact ⟨fun _ h => absurd h hlost, fun h => absurd h hloop, fun h => absurd h hloop,
        fun _ => rfl⟩
    | some iface =>
      have hnamed : Named s ctx := by
        intro id' h
        rw [← Option.some.inj (hid.symm.trans h)]
        exact ⟨iface, hfind⟩
      dsimp only
      by_cases htype : iface.type = .loopback
      · rw [if_pos htype]
        apply conveys_loopback hnamed _ rfl
        rw [LoopsBack, hid]
        exact ⟨iface, hfind, htype⟩
      · rw [if_neg htype]
        apply conveys_direct hnamed
        · rw [LoopsBack, hid]
          rintro ⟨iface', hiface, hback⟩
          rw [hfind] at hiface
          cases hiface
          exact htype hback
        · obtain ⟨ret, hsent⟩ := @netSendToBearer_sent ctx bytes bearerRet iface
          rw [hsent, targets, hid]
          dsimp only
          rw [hfind]
          exact ⟨ret, rfl⟩

end Send

/-- What a node sends, each connected interface that lets it through or the loopback is given;
and a node whose only key value with that NID is the sender's, and whose IV index is the sender's
or one ahead, receives it with the context and the transport PDU it was sent with. -/
theorem netReceive_netSend (hkv : ctx.pnetKey = some kv) (hpos : 1 ≤ transPdu.length)
    (hmax : transPdu.length ≤ if ctx.ctl then 12 else 16)
    (hsrc : addressIsValid ctx.src = true) (hdst : addressIsValid ctx.dst = true)
    {r : NetState} {iface : NetIface} (hf : iface.ifilter = true)
    (hiv : r.ivIndex = ctx.ivIndex ∨ r.ivIndex = ctx.ivIndex + 1)
    (hmem : kv ∈ r.netKeys.flatMap usableValues)
    (huniq : ∀ v ∈ r.netKeys.flatMap usableValues, v.nid = kv.nid → v = kv)
    (hready : r.nmc.Ready) (hnmc : nmcCheck r.nmc ⟨ctx.src, ctx.seq.setWidth 32⟩ = true) :
    ∃ bytes, netPack c kv ctx transPdu = .ok bytes ∧
      (∀ bearerRet s misc,
        Conveys c s ctx bytes misc (netSend c bearerRet s ctx transPdu misc)) ∧
      ∀ misc, ∃ nmc, nmc.Ready ∧ netReceive c r (some iface) bytes misc =
        .ok ({ r with nmc := nmc }, delivered r transPdu (receivedCtx ctx kv iface.id)) := by
  have hok : netLengthOk transPdu.length ctx.ctl = true := by
    have hm : netTransPduMaxLen = 20 := rfl
    simp only [netLengthOk, Bool.and_eq_true, decide_eq_true_eq]
    cases hctl : ctx.ctl <;> simp only [hctl, micLen] at hmax ⊢ <;> simp at hmax ⊢ <;> omega
  obtain ⟨bytes, hbytes, hcopy⟩ := tryKeyValue_netPack (c := c) hpos hok
  refine ⟨bytes, hbytes, fun _ _ _ => netSend_conveys hkv hok hbytes, fun misc => ?_⟩
  obtain ⟨hnid, hivi, d, hd, hu⟩ := hcopy misc
  have hrx : rxIvIndex r.ivIndex (NetPdu.copy bytes misc).ivi = ctx.ivIndex := by
    rw [hivi]; exact rxIvIndex_of_near hiv
  have htrial := tryKeyValues_unique hmem hnid.symm
    (fun v hv hvn => huniq v hv (hvn.trans hnid)) hd
  exact netReceive_of_trial hf hrx htrial hu hsrc hdst hready hnmc

/-- A key value with one key in every place, to write concrete key lists. -/
def keyValueOf (nid : BitVec 7) (key : Key) : NetKeyValue :=
  ⟨key, key, key, nid, key, key, []⟩

/-- A receiver with the given keys, an empty cache of two entries and address 2. -/
def receiver (ivIndex : BitVec 32) (netKeys : List NetKey) : NetState :=
  ⟨ivIndex, netKeys, ⟨some (List.replicate 2 ⟨0, 0⟩), 0, false⟩, 2, []⟩

/-- A node that is connected twice, once behind a filter, with an interface left unconnected. -/
def sender (ivIndex : BitVec 32) : NetState :=
  ⟨ivIndex, [], ⟨none, 0, false⟩, 1, [⟨0, .loopback, none, true, fun _ _ => true⟩,
    ⟨1, .adv, some .adv, true, fun _ _ => true⟩, ⟨2, .gatt, some .gatt, true, fun _ _ => false⟩,
    ⟨3, .adv, none, true, fun _ _ => true⟩]⟩

theorem netReceive_netSend_example :
    let kv := keyValueOf 5 (List.replicate 16 3)
    let ctx := { MsgCtx.zero with src := 1, dst := 2, seq := 7, ivIndex := 9, pnetKey := some kv }
    let r := receiver 10 [⟨.normal, 0, kv, kv⟩]
    let iface : NetIface := ⟨1, .adv, some .adv, true, fun _ _ => true⟩
    ∃ bytes, netPack maskCrypto kv ctx [0x10, 0x20] = .ok bytes ∧
      (∀ misc, ∃ ret, netSend maskCrypto (fun _ => .success) (sender 9) ctx [0x10, 0x20] misc =
        .ok (sender 9, ⟨ret, [⟨.adv, bytes⟩], none⟩)) ∧
      ∀ misc, ∃ nmc, nmc.Ready ∧ netReceive maskCrypto r (some iface) bytes misc =
        .ok ({ r with nmc := nmc }, .toLower [0x10, 0x20] (receivedCtx ctx kv 1)) := by
  intro kv ctx r iface
  obtain ⟨bytes, hb, hs, hr⟩ := @netReceive_netSend maskCrypto kv ctx [0x10, 0x20] rfl
    (by decide) (by decide) (by decide) (by decide) r iface rfl (by decide) (by decide) (by decide)
    ⟨_, rfl, by decide, by decide⟩ (by decide)
  have hdirect : ¬LoopsBack (sender 9) ctx := by
    change ¬(isMyAddress (sender 9) 2 = true)
    decide
  exact ⟨bytes, hb, fun misc => (hs (fun _ => .success) (sender 9) misc).direct hdirect nofun, hr⟩

end Meshx.Net
