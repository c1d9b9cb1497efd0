import Meshx.NetRoundTrip

/-! Trial decryption and the order of the keys. Every attempt works in place on the one
local copy of the PDU, so an attempt that fails hands a changed copy to the next one. -/
namespace Meshx.Net

open Lib AesCcm Security

variable {c : Crypto} {len : ℕ} {ivIndex : BitVec 32}

/-- The value authenticates the PDU as it was received. -/
def Authenticates (c : Crypto) (len : ℕ) (ivIndex : BitVec 32) (p : NetPdu)
    (kv : NetKeyValue) : Prop :=
  kv.nid = p.nid ∧ ∃ d, tryKeyValue c len ivIndex kv p = .ok (true, d)

/-- From the values `kvs` and the copy `p`, failed attempts bring the loop to the values
`rest` and the copy `q`. -/
inductive Tried (c : Crypto) (len : ℕ) (ivIndex : BitVec 32) :
    List NetKeyValue → NetPdu → List NetKeyValue → NetPdu → Prop
  | zero (kvs p) : Tried c len ivIndex kvs p kvs p
  | skip {kv kvs p rest q} : kv.nid ≠ p.nid → Tried c len ivIndex kvs p rest q →
      Tried c len ivIndex (kv :: kvs) p rest q
  | fail {kv kvs p d rest q} : kv.nid = p.nid →
      tryKeyValue c len ivIndex kv p = .ok (false, d) →
      Tried c len ivIndex kvs d.pdu rest q → Tried c len ivIndex (kv :: kvs) p rest q

/-- The loop comes to a value that authenticates the PDU with the copy as received: the
attempts before it, if there were any, put every byte back. -/
def ReachedIntact (c : Crypto) (len : ℕ) (ivIndex : BitVec 32) (kvs : List NetKeyValue)
    (p : NetPdu) : Prop :=
  ∃ kv rest, Tried c len ivIndex kvs p (kv :: rest) p ∧ Authenticates c len ivIndex p kv

/-- The list in which a key value is the only one. -/
def onlyKey (kv : NetKeyValue) : List NetKey := [⟨.normal, 0, kv, kv⟩]

/-- What the rest of the receive path reads from a decoded PDU: the key value, the header
and the transport PDU. -/
def Decoded.content (d : Decoded) : NetKeyValue × List Byte × BitVec 16 × List Byte :=
  (d.keyValue, d.pdu.hidden, d.pdu.dst, d.pdu.pdu.take d.transPduLen)

theorem Tried.run {kvs rest : List NetKeyValue} {p q : NetPdu}
    (h : Tried c len ivIndex kvs p rest q) :
    tryKeyValues c len ivIndex kvs p = tryKeyValues c len ivIndex rest q := by
  induction h with
  | zero => rfl
  | skip hn _ ih => rw [tryKeyValues, if_neg hn, ih]
  | fail hn hd _ ih =>
    rw [tryKeyValues, if_pos hn, hd, ← ih]
    rfl

theorem tryKeyValues_some {kvs : List NetKeyValue} {p : NetPdu} {d : Decoded}
    (h : tryKeyValues c len ivIndex kvs p = .ok (some d)) :
    ∃ kv rest q, Tried c len ivIndex kvs p (kv :: rest) q ∧ kv.nid = q.nid ∧
      tryKeyValue c len ivIndex kv q = .ok (true, d) := by
  induction kvs generalizing p with
  | nil => cases h
  | cons kv kvs ih =>
    by_cases hn : kv.nid = p.nid
    · rw [tryKeyValues, if_pos hn] at h
      cases hd : tryKeyValue c len ivIndex kv p with
      | error f => rw [hd] at h; cases h
      | ok out =>
        obtain ⟨ok, d'⟩ := out
        rw [hd] at h
        cases ok with
        | true =>
          cases h
          exact ⟨kv, kvs, p, .zero _ _, hn, hd⟩
        | false =>
          obtain ⟨v, rest, q, ht, hv⟩ := ih h
          exact ⟨v, rest, q, .fail hn hd ht, hv⟩
    · rw [tryKeyValues, if_neg hn] at h
      obtain ⟨v, rest, q, ht, hv⟩ := ih h
      exact ⟨v, rest, q, .skip hn ht, hv⟩

theorem Tried.mem {kvs rest : List NetKeyValue} {p q : NetPdu}
    (h : Tried c len ivIndex kvs p rest q) : ∀ kv ∈ rest, kv ∈ kvs := by
  induction h with
  | zero => exact fun _ hk => hk
  | skip _ _ ih => exact fun kv hk => List.mem_cons_of_mem _ (ih kv hk)
  | fail _ _ _ ih => exact fun kv hk => List.mem_cons_of_mem _ (ih kv hk)

/-- One attempt: the header it restored, the length it computed, and the range of the body
it wrote. A length that wraps around leaves the copy and is not an attempt. -/
theorem tryKeyValue_cases {kv : NetKeyValue} {p : NetPdu} {ok : Bool} {d : Decoded}
    (h : tryKeyValue c len ivIndex kv p = .ok (ok, d)) :
    d.keyValue = kv ∧ d.pdu.head = p.head ∧
      d.pdu.hidden = (netObfuscation c p ivIndex kv).hidden ∧
      2 + d.transPduLen + micLen d.pdu.ctl = len % 256 - 7 ∧ len % 256 ≤ 29 ∧
      (c.aead.decrypt kv.encryptionKey (netNonce d.pdu ivIndex)
          (p.body.take (2 + d.transPduLen))
          ((p.body.drop (2 + d.transPduLen)).take (micLen d.pdu.ctl))) =
        (ok, d.pdu.body.take (2 + d.transPduLen)) ∧
      d.pdu.body.drop (2 + d.transPduLen) = p.body.drop (2 + d.transPduLen) := by
  simp only [tryKeyValue, netDecrypt] at h
  generalize hr : netObfuscation c p ivIndex kv = r at h ⊢
  have hhead : r.head = p.head := by rw [← hr]; rfl
  have hbody : r.body = p.body := by rw [← hr]; rfl
  generalize ht : (len + 512 - 9 - micLen r.ctl) % 256 = transPduLen at h
  by_cases hlen : 22 < 2 + transPduLen + micLen r.ctl
  · rw [if_pos hlen] at h; cases h
  rw [if_neg hlen] at h
  have hmic := micLen_cases r.ctl
  have hp := p.body_length
  have hct : (r.body.take (2 + transPduLen)).length = 2 + transPduLen := by
    rw [hbody, List.length_take]; omega
  have htag : ((r.body.drop (2 + transPduLen)).take (micLen r.ctl)).length = micLen r.ctl := by
    rw [hbody, List.length_take, List.length_drop]; omega
  have hadm : c.aead.admits (netNonce r ivIndex).length
      (r.body.take (2 + transPduLen)).length (micLen r.ctl) := netAdmits r (by omega) r.ctl
  rw [← htag] at hadm
  have htext := c.aead.decrypt_length (k := kv.encryptionKey) hadm
  rw [hct] at htext
  generalize hout : c.aead.decrypt kv.encryptionKey (netNonce r ivIndex)
    (r.body.take (2 + transPduLen)) ((r.body.drop (2 + transPduLen)).take (micLen r.ctl)) = out
    at h htext
  obtain ⟨q, hq, hqhead, hqhidden, hqbody⟩ := writeBody_ok (p := r) (x := out.2) (by omega)
  rw [hq] at h
  cases h
  have hctl : q.ctl = r.ctl := by rw [NetPdu.ctl, hqhidden, NetPdu.ctl]
  have hnonce : netNonce q ivIndex = netNonce r ivIndex := by rw [netNonce, hqhidden, netNonce]
  refine ⟨rfl, hqhead.trans hhead, hqhidden, ?_, ?_, ?_, ?_⟩
  · rw [hctl]; dsimp only; omega
  · omega
  · rw [hctl, hnonce, ← hbody, hout, hqbody, List.take_left' htext]
  · rw [hqbody, List.drop_left' htext, htext, hbody]

/-- Failed attempts leave the IVI and NID byte and the last bytes of the PDU alone. -/
theorem Tried.frame {kvs rest : List NetKeyValue} {p q : NetPdu}
    (h : Tried c len ivIndex kvs p rest q) :
    q.head = p.head ∧ q.body.drop (len % 256 - 11) = p.body.drop (len % 256 - 11) := by
  induction h with
  | zero => exact ⟨rfl, rfl⟩
  | skip _ _ ih => exact ih
  | @fail kv kvs p d rest q _ hd _ ih =>
    obtain ⟨-, hhead, -, hlen, -, -, hdrop⟩ := tryKeyValue_cases hd
    have hmic := micLen_cases d.pdu.ctl
    refine ⟨ih.1.trans hhead, ih.2.trans ?_⟩
    have hsplit : len % 256 - 11 = 2 + d.transPduLen + (micLen d.pdu.ctl - 4) := by omega
    have := congrArg (List.drop (micLen d.pdu.ctl - 4)) hdrop
    rwa [List.drop_drop, List.drop_drop, ← hsplit] at this

theorem netObfuscation_inj {kv : NetKeyValue} {p q : NetPdu} (hb : q.body = p.body)
    (h : (netObfuscation c q ivIndex kv).hidden = (netObfuscation c p ivIndex kv).hidden) :
    q.hidden = p.hidden := by
  have hp := netObfuscation_hidden (c := c) (p := p)
    (q := netObfuscation c p ivIndex kv) rfl rfl
  rw [← hp]
  exact (netObfuscation_hidden (p := q) h.symm (by rw [hb]; rfl)).symm

/-- Two copies on which one value succeeds with one content are one copy, if they agree on
what failed attempts leave alone. -/
theorem tryKeyValue_inj {kv : NetKeyValue} {p q : NetPdu} {d e : Decoded}
    (hp : tryKeyValue c len ivIndex kv p = .ok (true, d))
    (hq : tryKeyValue c len ivIndex kv q = .ok (true, e)) (he : e.content = d.content)
    (hhead : q.head = p.head)
    (hdrop : q.body.drop (len % 256 - 11) = p.body.drop (len % 256 - 11)) : q = p := by
  obtain ⟨-, -, hdh, hdl, h29, hdd, -⟩ := tryKeyValue_cases hp
  obtain ⟨-, -, heh, hel, -, hed, -⟩ := tryKeyValue_cases hq
  simp only [Decoded.content, Prod.mk.injEq] at he
  obtain ⟨-, hhidden, hdst, hpdu⟩ := he
  have hctl : e.pdu.ctl = d.pdu.ctl := by rw [NetPdu.ctl, hhidden, NetPdu.ctl]
  have hlen : e.transPduLen = d.transPduLen := by rw [hctl] at hel; omega
  have hnonce : netNonce e.pdu ivIndex = netNonce d.pdu ivIndex := by
    rw [netNonce, hhidden, netNonce]
  have htext : e.pdu.body.take (2 + d.transPduLen) = d.pdu.body.take (2 + d.transPduLen) := by
    have hd2 := be16_readBe16 (by rw [d.pdu.body_length]; omega)
    have he2 := be16_readBe16 (by rw [e.pdu.body_length]; omega)
    rw [hlen] at hpdu
    rw [List.take_add, List.take_add, ← hd2, ← he2]
    exact congrArg₂ (· ++ ·) (congrArg be16 hdst) hpdu
  rw [hctl, hnonce, hlen, htext] at hed
  have hmic := micLen_cases d.pdu.ctl
  have hpl := p.body_length
  have hql := q.body_length
  obtain ⟨hct, htag⟩ := c.aead.decrypt_inj
    (n := netNonce d.pdu ivIndex)
    (a := q.body.take (2 + d.transPduLen))
    (s := (q.body.drop (2 + d.transPduLen)).take (micLen d.pdu.ctl))
    (b := p.body.take (2 + d.transPduLen))
    (t := (p.body.drop (2 + d.transPduLen)).take (micLen d.pdu.ctl))
    (by rw [netNonce_length]
        exact c.admits (by simp; omega) (by simp only [List.length_take, List.length_drop]; omega))
    (by rw [netNonce_length]
        exact c.admits (by simp; omega) (by simp only [List.length_take, List.length_drop]; omega))
    (by simp [hpl, hql]) (by rw [hed]) (by rw [hdd]) (by rw [hed, hdd])
  have hbody : q.body = p.body := by
    have hrest : q.body.drop (2 + d.transPduLen + micLen d.pdu.ctl) =
        p.body.drop (2 + d.transPduLen + micLen d.pdu.ctl) := by
      have := congrArg (List.drop 4) hdrop
      rwa [List.drop_drop, List.drop_drop,
        show len % 256 - 11 + 4 = 2 + d.transPduLen + micLen d.pdu.ctl by omega] at this
    exact eq_of_parts hct htag hrest
  exact NetPdu.ext hhead (netObfuscation_inj hbody (by rw [← heh, ← hdh, hhidden])) hbody

/-- What a receive does after the loop is determined by the content of the decoded PDU. -/
theorem netReceiveFinish_congr {s : NetState} {keys : List NetKey} {iface : ℕ}
    {d e : Option Decoded} (h : d.map Decoded.content = e.map Decoded.content) :
    (netReceiveFinish s iface ivIndex d).map Prod.snd =
      (netReceiveFinish { s with netKeys := keys } iface ivIndex e).map Prod.snd := by
  cases d with
  | none =>
    cases e with
    | none => rfl
    | some e => cases h
  | some d =>
    cases e with
    | none => cases h
    | some e =>
      simp only [Option.map_some, Option.some_inj, Decoded.content, Prod.mk.injEq] at h
      obtain ⟨hkv, hhidden, hdst, hpdu⟩ := h
      have hsrc : d.pdu.src = e.pdu.src := by rw [NetPdu.src, hhidden, NetPdu.src]
      have hseq : d.pdu.seq = e.pdu.seq := by rw [NetPdu.seq, hhidden, NetPdu.seq]
      have hctx : rxCtx iface ivIndex d = rxCtx iface ivIndex e := by
        rw [rxCtx, rxCtx, hkv, hdst, hsrc, hseq, NetPdu.ctl, NetPdu.ttl, hhidden, NetPdu.ctl,
          NetPdu.ttl]
      simp only [netReceiveFinish, hsrc, hdst, hseq, hpdu, hctx]
      by_cases haddr : (!addressIsValid e.pdu.src || !addressIsValid e.pdu.dst) = true
      · rw [if_pos haddr, if_pos haddr]; rfl
      rw [if_neg haddr, if_neg haddr]
      by_cases hnmc : (!nmcCheck s.nmc ⟨e.pdu.src, e.pdu.seq.setWidth 32⟩) = true
      · rw [if_pos hnmc, if_pos hnmc]; rfl
      rw [if_neg hnmc, if_neg hnmc]
      cases nmcAdd s.nmc ⟨e.pdu.src, e.pdu.seq.setWidth 32⟩ <;> rfl

/-- What the trial decryption inside a receive of `pdata` yields for a key list. -/
def received (c : Crypto) (s : NetState) (pdata misc : List Byte) (keys : List NetKey) :
    Except Fault (Option Decoded) :=
  netTrial c pdata.length (rxIvIndex s.ivIndex (NetPdu.copy pdata misc).ivi) keys
    (NetPdu.copy pdata misc)

/-- A receive depends on the key list only through the content of the decoded PDU. -/
theorem netReceive_congr {s : NetState} {keys : List NetKey} {iface : Option NetIface}
    {pdata misc : List Byte}
    (h : (received c s pdata misc s.netKeys).map (Option.map Decoded.content) =
      (received c s pdata misc keys).map (Option.map Decoded.content)) :
    (netReceive c s iface pdata misc).map Prod.snd =
      (netReceive c { s with netKeys := keys } iface pdata misc).map Prod.snd := by
  cases iface with
  | none => rfl
  | some iface =>
    simp only [netReceive]
    split_ifs
    · rfl
    simp only [received] at h
    cases hd : netTrial c pdata.length (rxIvIndex s.ivIndex (NetPdu.copy pdata misc).ivi)
        s.netKeys (NetPdu.copy pdata misc) with
    | error f =>
      cases he : netTrial c pdata.length (rxIvIndex s.ivIndex (NetPdu.copy pdata misc).ivi)
          keys (NetPdu.copy pdata misc) with
      | error g => rw [hd, he] at h; cases h; rfl
      | ok e => rw [hd, he] at h; cases h
    | ok d =>
      cases he : netTrial c pdata.length (rxIvIndex s.ivIndex (NetPdu.copy pdata misc).ivi)
          keys (NetPdu.copy pdata misc) with
      | error g => rw [hd, he] at h; cases h
      | ok e =>
        rw [hd, he] at h
        exact netReceiveFinish_congr (Except.ok.inj h)

/-- If some usable value with the NID of the PDU authenticates it, the PDU is decrypted
under such a value, to the header and transport PDU and with the outcome of the receive
that a list with this one value gives. -/
def OrderFree (c : Crypto) (s : NetState) (iface : Option NetIface) (pdata misc : List Byte) :
    Prop :=
  let p := NetPdu.copy pdata misc
  let Genuine := fun kv => kv ∈ s.netKeys.flatMap usableValues ∧
    Authenticates c pdata.length (rxIvIndex s.ivIndex p.ivi) p kv
  (∃ kv, Genuine kv) → ∃ kv, Genuine kv ∧
    (received c s pdata misc s.netKeys).map (Option.map Decoded.content) =
      (received c s pdata misc (onlyKey kv)).map (Option.map Decoded.content) ∧
    (netReceive c s iface pdata misc).map Prod.snd =
      (netReceive c { s with netKeys := onlyKey kv } iface pdata misc).map Prod.snd

theorem netTrial_onlyKey {kv : NetKeyValue} {p : NetPdu} {d : Decoded} (hn : kv.nid = p.nid)
    (hd : tryKeyValue c len ivIndex kv p = .ok (true, d)) :
    netTrial c len ivIndex (onlyKey kv) p = .ok (some d) := by
  change tryKeyValues c len ivIndex [kv] p = .ok (some d)
  rw [tryKeyValues, if_pos hn, hd]
  rfl

theorem tryKeyValue_of_map {kv : NetKeyValue} {p : NetPdu} {ok : Bool}
    (h : (tryKeyValue c len ivIndex kv p).map Prod.fst = .ok ok) :
    ∃ d, tryKeyValue c len ivIndex kv p = .ok (ok, d) := by
  cases ht : tryKeyValue c len ivIndex kv p with
  | error f => rw [ht] at h; cases h
  | ok out =>
    rw [ht] at h
    cases h
    exact ⟨out.2, rfl⟩

/-- A PDU sent under the value in slot 1 of a key in phase 1, while slot 0 has the same
NID: the attempt with slot 0 garbles the copy and the PDU is lost. -/
theorem orderFree_fails :
    ¬ OrderFree maskCrypto
      (receiver 0 [⟨.phase1, 0, keyValueOf 5 (List.replicate 16 9),
        keyValueOf 5 (List.replicate 16 3)⟩])
      (some ⟨1, .adv, some .adv, true, fun _ _ => true⟩)
      [5, 7, 3, 3, 4, 3, 2, 2, 1, 23, 35, 51, 11, 1, 19, 35] [] := by
  intro h
  obtain ⟨kv, ⟨-, hn, d, hd⟩, hcontent, -⟩ := h ⟨keyValueOf 5 (List.replicate 16 3), by decide,
    by decide, tryKeyValue_of_map (by decide)⟩
  have hnone : (received maskCrypto
      (receiver 0 [⟨.phase1, 0, keyValueOf 5 (List.replicate 16 9),
        keyValueOf 5 (List.replicate 16 3)⟩])
      [5, 7, 3, 3, 4, 3, 2, 2, 1, 23, 35, 51, 11, 1, 19, 35] []
      [⟨.phase1, 0, keyValueOf 5 (List.replicate 16 9), keyValueOf 5 (List.replicate 16 3)⟩]).map
      Option.isSome = .ok false := by decide
  rw [received.eq_1 _ _ _ _ (onlyKey kv), netTrial_onlyKey hn hd] at hcontent
  change (received maskCrypto _ _ _
    [⟨.phase1, 0, keyValueOf 5 (List.replicate 16 9), keyValueOf 5 (List.replicate 16 3)⟩]).map
      (Option.map Decoded.content) = _ at hcontent
  generalize received _ _ _ _ _ = out at hnone hcontent
  rcases out with f | _ | e
  · cases hcontent
  · cases hcontent
  · cases hnone

/-- The first usable value with the NID of the PDU reaches it before any other attempt. -/
theorem reachedIntact_of_first {kvs : List NetKeyValue} {p : NetPdu} {kv : NetKeyValue}
    {rest : List NetKeyValue} (hfirst : kvs.dropWhile (·.nid ≠ p.nid) = kv :: rest)
    (ha : Authenticates c len ivIndex p kv) : ReachedIntact c len ivIndex kvs p := by
  refine ⟨kv, rest, ?_, ha⟩
  rw [← hfirst]
  clear hfirst
  induction kvs with
  | nil => exact .zero _ _
  | cons v kvs ih =>
    by_cases hv : v.nid = p.nid
    · rw [List.dropWhile_cons_of_neg (by simpa using hv)]
      exact .zero _ _
    · rw [List.dropWhile_cons_of_pos (by simpa using hv)]
      exact .skip hv ih

/-- Trial decryption finds the PDU exactly when the loop comes to an authenticating value
with the copy intact, which is so in particular when the first value with the NID does. -/
theorem orderFree_iff (c : Crypto) (s : NetState) (iface : Option NetIface)
    (pdata misc : List Byte) :
    OrderFree c s iface pdata misc ↔
      ((∃ kv ∈ s.netKeys.flatMap usableValues, Authenticates c pdata.length
          (rxIvIndex s.ivIndex (NetPdu.copy pdata misc).ivi) (NetPdu.copy pdata misc) kv) →
        ReachedIntact c pdata.length (rxIvIndex s.ivIndex (NetPdu.copy pdata misc).ivi)
          (s.netKeys.flatMap usableValues) (NetPdu.copy pdata misc)) := by
  constructor
  · intro h hex
    obtain ⟨kv, ⟨hmem, hn, d, hd⟩, hcontent, -⟩ := h hex
    rw [received, received, netTrial_onlyKey hn hd] at hcontent
    cases ht : netTrial c pdata.length (rxIvIndex s.ivIndex (NetPdu.copy pdata misc).ivi)
        s.netKeys (NetPdu.copy pdata misc) with
    | error f => rw [ht] at hcontent; cases hcontent
    | ok e =>
      cases e with
      | none => rw [ht] at hcontent; cases hcontent
      | some e =>
        rw [ht] at hcontent
        have he : e.content = d.content := Option.some.inj (Except.ok.inj hcontent)
        obtain ⟨v, rest, q, htried, hvn, hv⟩ := tryKeyValues_some ht
        obtain ⟨hhead, hdrop⟩ := htried.frame
        have hvkv : v = kv := by
          rw [← (tryKeyValue_cases hv).1, ← (tryKeyValue_cases hd).1]
          exact congrArg Prod.fst he
        subst hvkv
        have hq := tryKeyValue_inj hd hv he hhead hdrop
        subst hq
        exact ⟨v, rest, htried, hn, d, hd⟩
  · intro h hex
    obtain ⟨kv, rest, htried, hn, d, hd⟩ := h hex
    have hall : received c s pdata misc s.netKeys = received c s pdata misc (onlyKey kv) := by
      rw [received, received, netTrial_onlyKey hn hd, netTrial, htried.run, tryKeyValues,
        if_pos hn, hd]
      rfl
    exact ⟨kv, ⟨htried.mem kv (by simp), hn, d, hd⟩, by rw [hall], netReceive_congr (by rw [hall])⟩

end Meshx.Net
