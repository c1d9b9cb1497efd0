import Meshx.CcmStandard
import Meshx.Freshness
import Meshx.NetRoundTrip

/-! The key stream of the network layer. All that a node sends is masked with blocks that are
computed from different counter blocks, whatever the messages are and however often their
segments are repeated. -/
namespace Meshx.LowerTransTx

open Lib AesCcm Security Sequence IvIndex UpperTrans Segment Net

section Input

variable {c : Crypto} {kv kv' : NetKeyValue} {n m : NetCall}

theorem netInput_fits (kv : NetKeyValue) (n : NetCall)
    (h : netLengthOk n.pdu.length n.ctx.ctl = true) :
    Fits (netNonce (plainPdu kv n.ctx n.pdu) n.ctx.ivIndex) []
      ((plainPdu kv n.ctx n.pdu).body.take (2 + n.pdu.length))
      (micLen (plainPdu kv n.ctx n.pdu).ctl) where
  tag := by
    rcases micLen_cases (plainPdu kv n.ctx n.pdu).ctl with hm | hm
    · rw [hm]
      decide
    · rw [hm]
      decide
  nonce := by simp [netNonce, (plainPdu kv n.ctx n.pdu).hidden_length]
  add := Nat.zero_le _
  size := by
    have hle := netLengthOk_le h
    simp only [netNonce, List.length_take, List.length_append, List.length_cons,
      (plainPdu kv n.ctx n.pdu).hidden_length, be32_length, List.length_nil]
    omega

/-- What `meshx_net_encrypt` hands to the cipher for a PDU of a length that is let through. -/
def netInput (kv : NetKeyValue) (n : NetCall) (h : netLengthOk n.pdu.length n.ctx.ctl = true) :
    CcmInput where
  iv := netNonce (plainPdu kv n.ctx n.pdu) n.ctx.ivIndex
  add := []
  plain := (plainPdu kv n.ctx n.pdu).body.take (2 + n.pdu.length)
  tagLen := micLen (plainPdu kv n.ctx n.pdu).ctl
  fits := netInput_fits kv n h

/-- The call of the cipher that a call of `meshx_net_send` comes to, if it has a key. -/
def NetCall.ccmInput (n : NetCall) : Option CcmInput :=
  match n.ctx.pnetKey with
  | none => none
  | some kv =>
    if h : netLengthOk n.pdu.length n.ctx.ctl = true then some (netInput kv n h) else none

theorem ccmInput_some {a : CcmInput} (h : n.ccmInput = some a) :
    ∃ kv, n.ctx.pnetKey = some kv ∧ ∃ hlen, a = netInput kv n hlen := by
  unfold NetCall.ccmInput at h
  cases hkey : n.ctx.pnetKey with
  | none =>
    rw [hkey] at h
    cases h
  | some kv =>
    rw [hkey] at h
    dsimp only at h
    split_ifs at h with hlen
    exact ⟨kv, rfl, hlen, (Option.some.inj h).symm⟩

/-- Source, IV index and sequence number can be read off the nonce. -/
theorem netNonce_key (h : netNonce (plainPdu kv n.ctx n.pdu) n.ctx.ivIndex =
    netNonce (plainPdu kv' m.ctx m.pdu) m.ctx.ivIndex) : n.key = m.key := by
  obtain ⟨hhead, hiv⟩ := List.append_inj' h (by simp)
  have hhidden : (plainPdu kv n.ctx n.pdu).hidden = (plainPdu kv' m.ctx m.pdu).hidden :=
    List.append_cancel_right (List.cons.inj hhead).2
  have hsrc : n.ctx.src = m.ctx.src := by
    rw [← @plainPdu_src kv n.ctx n.pdu, NetPdu.src, hhidden, ← @plainPdu_src kv' m.ctx m.pdu,
      NetPdu.src]
  have hseq : n.ctx.seq = m.ctx.seq := by
    rw [← @plainPdu_seq kv n.ctx n.pdu, NetPdu.seq, hhidden, ← @plainPdu_seq kv' m.ctx m.pdu,
      NetPdu.seq]
  have hindex : n.ctx.ivIndex = m.ctx.ivIndex := by
    rw [← readBe32_be32 n.ctx.ivIndex [], hiv, readBe32_be32]
  rw [NetCall.key, NetCall.key, hsrc, hseq, hindex]

theorem ccmInput_disjoint (hkey : n.key ≠ m.key) (a : CcmInput) (ha : n.ccmInput = some a)
    (b : CcmInput) (hb : m.ccmInput = some b) : a.counters.Disjoint b.counters := by
  obtain ⟨kv, -, hlen, rfl⟩ := ccmInput_some ha
  obtain ⟨kv', -, hlen', rfl⟩ := ccmInput_some hb
  exact CcmInput.counters_disjoint_of_ne fun hiv => hkey (netNonce_key hiv)

theorem ccmInput_encrypts {a : CcmInput} (ha : n.ccmInput = some a) :
    ∃ kv, n.ctx.pnetKey = some kv ∧
      netEncrypt c (plainPdu kv n.ctx n.pdu) n.pdu.length n.ctx.ivIndex kv =
        writeBody (plainPdu kv n.ctx n.pdu)
          ((c.aead.encrypt kv.encryptionKey a.iv a.plain a.tagLen).1 ++
            (c.aead.encrypt kv.encryptionKey a.iv a.plain a.tagLen).2) := by
  obtain ⟨kv, hkey, hlen, rfl⟩ := ccmInput_some ha
  exact ⟨kv, hkey, rfl⟩

end Input

/-- As long as no counter is exhausted, the counter blocks of all calls of the cipher differ. -/
theorem Sender.Valid.counters_nodup {conf : TxConf} {s : Sender} (h : s.Valid conf)
    (hexhausted : s.exhausted = false) :
    ((s.sent.filterMap NetCall.ccmInput).flatMap CcmInput.counters).Nodup := by
  have hkeys : s.sent.Pairwise fun n m => n.key ≠ m.key :=
    List.pairwise_map.mp (h.1 hexhausted).nodup
  have hdisjoint : (s.sent.filterMap NetCall.ccmInput).Pairwise
      (Function.onFun List.Disjoint CcmInput.counters) :=
    hkeys.filterMap NetCall.ccmInput fun n m hkey a ha b hb => ccmInput_disjoint hkey a ha b hb
  exact List.nodup_flatMap.mpr ⟨fun a _ => a.counters_nodup, hdisjoint⟩

/-- In a run of steps a node has to keep to, the counter blocks of all the PDUs that it has
encrypted are different, until a draw finds its counter exhausted. -/
theorem counters_once (c : Crypto) (conf : TxConf) (elementNum taskNum : ℕ) (ivIndex : BitVec 32)
    (es : List TxEvent) (s : Sender)
    (hall : RunAll (txStep c conf) Ordinary (Sender.init elementNum taskNum ivIndex) es)
    (hrun : run (txStep c conf) (Sender.init elementNum taskNum ivIndex) es = .ok s)
    (hexhausted : s.exhausted = false) :
    ((s.sent.filterMap NetCall.ccmInput).flatMap CcmInput.counters).Nodup ∧
    ∀ n ∈ s.sent, ∀ a, n.ccmInput = some a → ∃ kv, n.ctx.pnetKey = some kv ∧
      netEncrypt c (plainPdu kv n.ctx n.pdu) n.pdu.length n.ctx.ivIndex kv =
        writeBody (plainPdu kv n.ctx n.pdu)
          ((c.aead.encrypt kv.encryptionKey a.iv a.plain a.tagLen).1 ++
            (c.aead.encrypt kv.encryptionKey a.iv a.plain a.tagLen).2) := by
  have hvalid : s.Valid conf :=
    hall.invariant (fun _ _ _ hv hord hstep => txStep_valid hv hord hstep)
      (init_valid elementNum taskNum ivIndex) hrun
  exact ⟨hvalid.counters_nodup hexhausted, fun n _ a ha => ccmInput_encrypts ha⟩

/-- The message under a network key. -/
def keyedMsg : MsgCtx :=
  { plainMsg with pnetKey := some (keyValueOf 5 (List.replicate 16 1)) }

/-- Twenty bytes and their MIC leave in two segments, which are then sent once more. -/
def repeatedRun : List TxEvent :=
  [.send plainEnv (List.replicate 20 7) keyedMsg, .timeout plainEnv 0]

theorem counters_once_repeatedRun : ∃ s,
    run (txStep maskCrypto plainConf) (Sender.init 1 1 5) repeatedRun = .ok s ∧
      (s.sent.filterMap NetCall.ccmInput).length = 4 ∧
      ((s.sent.filterMap NetCall.ccmInput).flatMap CcmInput.counters).Nodup := by
  obtain ⟨s, hs, hobs⟩ : ∃ s,
      run (txStep maskCrypto plainConf) (Sender.init 1 1 5) repeatedRun = .ok s ∧
        (s.exhausted, (s.sent.filterMap NetCall.ccmInput).length) = (false, 4) :=
    observe (by decide +kernel)
  obtain ⟨hexhausted, hlen⟩ := Prod.mk.inj hobs
  have hctl : keyedMsg.ctl = true → False := by decide
  have hord : RunAll (txStep maskCrypto plainConf) Ordinary (Sender.init 1 1 5) repeatedRun :=
    ⟨fun h => (hctl h).elim, fun _ _ => ⟨trivial, fun _ _ => trivial⟩⟩
  exact ⟨s, hs, hlen, (counters_once maskCrypto plainConf 1 1 5 repeatedRun s hord hs
    hexhausted).1⟩

end Meshx.LowerTransTx
