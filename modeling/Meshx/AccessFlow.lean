import Meshx.AdvBearer
import Meshx.NetRoundTrip
import Meshx.SentOn

/-! A flow of short access messages from one node to another: what the sending node makes of
each of them, from the access layer down to the frame on the air, whatever else it sends in
between. -/
namespace Meshx.AccessFlow

open Lib AesCcm Security Net Sequence IvIndex Segment AdvBearer LowerTransTx
open UpperTrans (accessNonce accessSendCheck upperTransSend upperTransSend_lower elementIndex)

/-- What the two ends of a flow have agreed on: the addresses, the keys, and the IV index that
the messages are sent with. An application key is one with an AID. -/
structure Flow where
  src : BitVec 16
  dst : BitVec 16
  netKey : NetKeyValue
  key : Key
  aid : BitVec 6
  ivIndex : BitVec 32
  src_valid : addressIsValid src = true
  dst_valid : addressIsValid dst = true

/-- The length up to which an access message leaves in one PDU. -/
def unsegAccessMaxPduSize : ℕ := 11

namespace Flow

variable (c : Crypto) (f : Flow)

def akf : Bool := f.aid != 0

/-- The context that a message is handed to `meshx_access_send` with. -/
def ctx (ttl : BitVec 7) : MsgCtx :=
  { MsgCtx.zero with
    src := f.src
    dst := f.dst
    ttl := ttl
    pnetKey := some f.netKey
    info := MsgCtx.accessInfo f.akf false f.aid
    pkey := some f.key }

/-- The context that it reaches the network layer with. -/
def sentCtx (ttl : BitVec 7) (seq : BitVec 24) : MsgCtx :=
  { f.ctx ttl with
    ivIndex := f.ivIndex
    seq := seq
    seqAuth := seq }

/-- Text and TransMIC of a message. -/
def sealed (ctx : MsgCtx) (payload : List Byte) : List Byte × List Byte :=
  c.aead.encrypt f.key (accessNonce ctx) payload 4

/-- The call of `meshx_net_send` for a message. -/
def call (ttl : BitVec 7) (seq : BitVec 24) (payload : List Byte) : NetCall :=
  ⟨f.sentCtx ttl seq, header false (f.sentCtx ttl seq) ::
    ((f.sealed c (f.sentCtx ttl seq) payload).1 ++ (f.sealed c (f.sentCtx ttl seq) payload).2)⟩

/-- The message is one of the flow. -/
def carries (payload : List Byte) (ctx : MsgCtx) : Bool :=
  ctx = f.ctx ctx.ttl && payload.length ≤ unsegAccessMaxPduSize

end Flow

/-- A message of a flow that has been sent. -/
structure Sent where
  payload : List Byte
  ttl : BitVec 7
  seq : BitVec 24
  deriving DecidableEq, Repr

def Sent.call (c : Crypto) (f : Flow) (m : Sent) : NetCall := f.call c m.ttl m.seq m.payload

/-- The frame in which the advertising bearer airs a PDU. -/
def airFrame (c : Crypto) (n : NetCall) : Except Fault (List Byte) :=
  match n.ctx.pnetKey with
  | none => .error .nullDeref
  | some kv => advPkt .meshMsg <$> netPack c kv n.ctx n.pdu

/-- The sending node with the messages of the flow that it has sent, oldest first. -/
structure Outbox where
  sender : Sender
  sent : List Sent

namespace Outbox

def init (elementNum taskNum : ℕ) (ivIndex : BitVec 32) : Outbox :=
  ⟨.init elementNum taskNum ivIndex, []⟩

/-- What an event adds to the flow: the calls of `meshx_net_send` that a message of it led to. -/
def added (f : Flow) (s s' : Sender) : TxEvent → List Sent
  | .send _ data ctx =>
    if f.carries data ctx then
      (s'.sent.take (s'.sent.length - s.sent.length)).map fun n => ⟨data, ctx.ttl, n.ctx.seq⟩
    else []
  | _ => []

def step (c : Crypto) (conf : TxConf) (f : Flow) (o : Outbox) (e : TxEvent) :
    Except Fault Outbox := do
  let s ← txStep c conf o.sender e
  return ⟨s, o.sent ++ added f o.sender s e⟩

/-- The node keeps to the steps it has to keep to, and a message of the flow is sent with the
IV index of the flow. -/
def Steady (f : Flow) (o : Outbox) (e : TxEvent) : Prop :=
  Ordinary o.sender e ∧
    ∀ env data ctx, e = .send env data ctx → f.carries data ctx = true →
      ivIndexTxGet o.sender.iv = f.ivIndex

end Outbox

section Flow

variable {c : Crypto} {conf : TxConf} {env : TxEnv} {f : Flow} {s s' : Sender} {ttl : BitVec 7}
  {seq : BitVec 24} {payload : List Byte} {ret : Errno}

theorem accessInfo_fields (akf : Bool) (aid : BitVec 6) :
    (MsgCtx.accessInfo akf false aid).getLsbD 0 = akf ∧
      (MsgCtx.accessInfo akf false aid).getLsbD 1 = false ∧
      (MsgCtx.accessInfo akf false aid).extractLsb' 2 6 = aid := by
  revert akf aid
  decide

@[simp] theorem ctx_akf : (f.ctx ttl).akf = f.akf := (accessInfo_fields _ _).1

@[simp] theorem ctx_szmic : (f.ctx ttl).szmic = false := (accessInfo_fields f.akf f.aid).2.1

@[simp] theorem ctx_aid : (f.ctx ttl).aid = f.aid := (accessInfo_fields _ _).2.2

@[simp] theorem sentCtx_akf : (f.sentCtx ttl seq).akf = f.akf := (accessInfo_fields _ _).1

@[simp] theorem sentCtx_aid : (f.sentCtx ttl seq).aid = f.aid := (accessInfo_fields _ _).2.2

/-- The access layer lets every message of the flow through. -/
theorem accessSendCheck_ctx (h : payload.length ≤ unsegAccessMaxPduSize) :
    accessSendCheck payload.length (f.ctx ttl) = none := by
  have hlen : ¬ 380 < payload.length := by
    unfold unsegAccessMaxPduSize at h
    omega
  have haid : ((f.akf && f.aid == 0) || (!f.akf && f.aid != 0)) = false := by
    rw [Flow.akf, bne]
    cases f.aid == 0 <;> rfl
  have haddr : (!addressIsValid (f.ctx ttl).src || !addressIsValid (f.ctx ttl).dst) = false := by
    simp [Flow.ctx, f.src_valid, f.dst_valid]
  have hkeys : ((f.ctx ttl).pnetKey.isNone || (f.ctx ttl).pkey.isNone) = false := rfl
  rw [accessSendCheck, haddr, hkeys, ctx_akf, ctx_aid, haid, ctx_szmic]
  simp [hlen]

theorem sealed_length (h : payload.length ≤ unsegAccessMaxPduSize) (ctx : MsgCtx) :
    (f.sealed c ctx payload).1.length = payload.length ∧ (f.sealed c ctx payload).2.length = 4 := by
  have hadm : c.aead.admits (accessNonce ctx).length payload.length 4 := by
    rw [UpperTrans.accessNonce_length]
    exact c.admits (by unfold unsegAccessMaxPduSize at h; omega) (.inl rfl)
  exact ⟨c.aead.encrypt_length hadm, c.aead.tag_length hadm⟩

theorem call_pdu_length (h : payload.length ≤ unsegAccessMaxPduSize) :
    (f.call c ttl seq payload).pdu.length = payload.length + 5 := by
  obtain ⟨htext, htag⟩ := @sealed_length c f payload h (f.sentCtx ttl seq)
  rw [Flow.call, List.length_cons, List.length_append, htext, htag]

/-- The number that the next message of the flow draws. -/
def nextSeq (conf : TxConf) (f : Flow) (s : Sender) : BitVec 24 := (s.draw conf f.src).1

theorem upperTransEncrypt_sent (h : payload.length ≤ unsegAccessMaxPduSize) :
    ∃ call, UpperTrans.upperTransEncrypt c payload 4 (f.sentCtx ttl seq) =
      .ok ((f.sealed c (f.sentCtx ttl seq) payload).1,
        (f.sealed c (f.sentCtx ttl seq) payload).2, call) := by
  have htake : payload.take (payload.length % 256) = payload := by
    rw [Nat.mod_eq_of_lt (by unfold unsegAccessMaxPduSize at h; omega), List.take_length]
  refine ⟨⟨f.key, accessNonce (f.sentCtx ttl seq), payload, 4⟩, ?_⟩
  have hsplice : splice payload 0 (f.sealed c (f.sentCtx ttl seq) payload).1 =
      (f.sealed c (f.sentCtx ttl seq) payload).1 := by
    rw [splice_zero, (sealed_length h _).1, List.drop_length, List.append_nil]
  rw [UpperTrans.upperTransEncrypt]
  change Except.ok (splice payload 0 (c.aead.encrypt f.key (accessNonce (f.sentCtx ttl seq))
    (payload.take (payload.length % 256)) 4).1, _, _) = _
  rw [htake]
  exact congrArg (fun x => Except.ok (x, _, _)) hsplice

/-- A PDU of the flow is sent without segmentation. -/
theorem lowerTransSend_sent {pdu : List Byte} (hpos : 0 < pdu.length) (hlen : pdu.length ≤ 15) :
    s.lowerTransSend conf env pdu (f.sentCtx ttl seq) =
      .ok (env.netRet,
        s.netSend (f.sentCtx ttl seq) (header false (f.sentCtx ttl seq) :: pdu)) := by
  have hdst : (!addressIsValid (f.sentCtx ttl seq).dst) = false := by
    rw [Flow.sentCtx, Flow.ctx, f.dst_valid]
    rfl
  have hunseg : ¬ ((f.sentCtx ttl seq).seg || unsegSize (f.sentCtx ttl seq).ctl < pdu.length) := by
    change ¬ ((false || decide (15 < pdu.length)) = true)
    simpa using hlen
  rw [Sender.lowerTransSend, if_neg (by omega), hdst, if_neg Bool.false_ne_true, if_neg hunseg]

theorem upperTransSend_sent (h : payload.length ≤ unsegAccessMaxPduSize) :
    ∃ call, upperTransSend c conf.nodeAddr env.connected true s.seqArray payload
        { f.ctx ttl with ivIndex := f.ivIndex } =
      .ok ((s.draw conf f.src).2.seqArray,
        .lower ((f.sealed c (f.sentCtx ttl (nextSeq conf f s)) payload).1 ++
          (f.sealed c (f.sentCtx ttl (nextSeq conf f s)) payload).2)
          (f.sentCtx ttl (nextSeq conf f s)) (some call)) := by
  obtain ⟨call, hcall⟩ := @upperTransEncrypt_sent c f ttl (nextSeq conf f s) payload h
  have hszmic : MsgCtx.szmic { f.ctx ttl with ivIndex := f.ivIndex } = false := @ctx_szmic f ttl
  refine ⟨call, ?_⟩
  change (UpperTrans.upperTransEncrypt c payload
      (if MsgCtx.szmic { f.ctx ttl with ivIndex := f.ivIndex } then 8 else 4)
      (f.sentCtx ttl (nextSeq conf f s)) >>= fun x => _) = _
  rw [hszmic, if_neg Bool.false_ne_true, hcall]
  rfl

/-- A message of the flow comes to nothing for want of memory, or it draws a number and becomes
one call of `meshx_net_send` with it. -/
theorem upperSend_cases (h : payload.length ≤ unsegAccessMaxPduSize)
    (hiv : ivIndexTxGet s.iv = f.ivIndex)
    (hrun : s.upperSend c conf env payload (f.ctx ttl) = .ok (ret, s')) :
    s'.sent = s.sent ∨ s'.exhausted = (s.draw conf f.src).2.exhausted ∧
      s'.sent = f.call c ttl (nextSeq conf f s) payload :: s.sent := by
  obtain ⟨call, hcall⟩ := @upperTransSend_sent c conf env f s ttl payload h
  obtain ⟨htext, htag⟩ := @sealed_length c f payload h (f.sentCtx ttl (nextSeq conf f s))
  unfold Sender.upperSend at hrun
  obtain ⟨⟨arr, out⟩, hup, hrest⟩ := bind_ok hrun
  rw [hiv] at hup
  cases hmalloc : env.mallocOk with
  | false =>
    rw [hmalloc] at hup
    cases hup
    cases hrest
    exact .inl rfl
  | true =>
    rw [hmalloc] at hup
    obtain ⟨rfl, rfl⟩ := Prod.mk.inj (Except.ok.inj (hcall.symm.trans hup))
    dsimp only at hrest
    have hlen : (f.sealed c (f.sentCtx ttl (nextSeq conf f s)) payload).1.length +
        (f.sealed c (f.sentCtx ttl (nextSeq conf f s)) payload).2.length ≤ 15 := by
      unfold unsegAccessMaxPduSize at h
      omega
    rw [lowerTransSend_sent (by rw [List.length_append]; omega)
      (by rwa [List.length_append])] at hrest
    obtain ⟨-, rfl⟩ := Prod.mk.inj (Except.ok.inj hrest)
    exact .inr ⟨rfl, rfl⟩

end Flow

section Sending

variable {c : Crypto} {conf : TxConf} {f : Flow} {o o' : Outbox} {e : TxEvent}

/-- The messages of the flow were sent as calls of `meshx_net_send`, with ever greater numbers. -/
structure Outbox.Kept (c : Crypto) (conf : TxConf) (f : Flow) (o : Outbox) : Prop where
  valid : o.sender.Valid conf
  short : ∀ m ∈ o.sent, m.payload.length ≤ unsegAccessMaxPduSize
  calls : ∀ m ∈ o.sent, m.call c f ∈ o.sender.sent
  rising : o.sender.exhausted = false → o.sent.Pairwise fun m m' => m.seq < m'.seq

theorem Outbox.init_kept (elementNum taskNum : ℕ) (ivIndex : BitVec 32) :
    (Outbox.init elementNum taskNum ivIndex).Kept c conf f where
  valid := init_valid elementNum taskNum ivIndex
  short _ hm := absurd hm List.not_mem_nil
  calls _ hm := absurd hm List.not_mem_nil
  rising _ := .nil

/-- A message that has been sent has a smaller number than the next one. -/
theorem Outbox.Kept.lt_nextSeq (h : o.Kept c conf f) (hiv : ivIndexTxGet o.sender.iv = f.ivIndex)
    (hex : (o.sender.draw conf f.src).2.exhausted = false) {m : Sent} (hm : m ∈ o.sent) :
    m.seq < nextSeq conf f o.sender := by
  obtain ⟨hs, seq, hget, -, hseq, -⟩ := Sender.draw_cases hex
  rcases (h.valid.1 hs).used _ (h.calls m hm) with ⟨seq', hget', hlt⟩ | ⟨hpast, -⟩
  · obtain rfl := Option.some.inj (hget.symm.trans hget')
    rw [nextSeq, hseq]
    exact hlt
  · have heq : (m.call c f).ctx.ivIndex = f.ivIndex := rfl
    rw [heq, Iv.tx, hiv] at hpast
    exact absurd hpast (lt_irrefl _)

/-- The step sends the message with the number that is next. -/
structure SendsNext (c : Crypto) (conf : TxConf) (f : Flow) (s s' : Sender) (m : Sent) : Prop where
  short : m.payload.length ≤ unsegAccessMaxPduSize
  ivIndex : ivIndexTxGet s.iv = f.ivIndex
  seq : m.seq = nextSeq conf f s
  sent : s'.sent = m.call c f :: s.sent
  exhausted : s'.exhausted = (s.draw conf f.src).2.exhausted

theorem added_cases {s s' : Sender} (hrun : txStep c conf s e = .ok s')
    (hiv : ∀ env data ctx, e = .send env data ctx → f.carries data ctx = true →
      ivIndexTxGet s.iv = f.ivIndex) :
    Outbox.added f s s' e = [] ∨
      ∃ m, Outbox.added f s s' e = [m] ∧ SendsNext c conf f s s' m := by
  cases e with
  | send env data ctx =>
    rw [Outbox.added]
    cases hcarries : f.carries data ctx with
    | false => exact .inl rfl
    | true =>
      obtain ⟨hctx, hlen⟩ := (Bool.and_eq_true _ _).mp hcarries
      rw [decide_eq_true_eq] at hctx hlen
      obtain ⟨⟨ret, t⟩, ht, rfl⟩ := map_ok hrun
      have hindex := hiv _ _ _ rfl hcarries
      rw [if_pos rfl]
      rw [hctx] at ht
      rcases upperSend_cases hlen hindex ht with hsent | ⟨hex, hsent⟩
      · exact .inl (by rw [hsent, Nat.sub_self]; rfl)
      · refine .inr ⟨⟨data, ctx.ttl, nextSeq conf f s⟩, ?_, hlen, hindex, rfl, hsent, hex⟩
        rw [hsent, List.length_cons, Nat.add_sub_cancel_left]
        rfl
  | timeout | recvBlockAck | segAck | ivUpdate | ivTick | ivTestMode | ivOperateTime =>
    exact .inl rfl

theorem Outbox.Kept.step (h : o.Kept c conf f) (hs : o.Steady f e)
    (hrun : o.step c conf f e = .ok o') : o'.Kept c conf f := by
  obtain ⟨s', hstep, hrest⟩ := bind_ok hrun
  obtain rfl := Except.ok.inj hrest
  have hon := txStep_sentOn hstep
  have hvalid := txStep_valid h.valid hs.1 hstep
  have hcalls : ∀ m ∈ o.sent, m.call c f ∈ s'.sent := fun m hm => hon.sent.subset (h.calls m hm)
  rcases added_cases hstep hs.2 with hnone | ⟨m, hone, hnext⟩
  · rw [hnone, List.append_nil]
    exact ⟨hvalid, h.short, hcalls, fun he => h.rising (Bool.eq_false_iff.mpr fun ht =>
      Bool.eq_false_iff.mp he (hon.exhausted ht))⟩
  · rw [hone]
    refine ⟨hvalid, ?_, ?_, fun he => ?_⟩
    · intro m' hm'
      rcases List.mem_append.mp hm' with hm' | hm'
      · exact h.short m' hm'
      · rw [List.mem_singleton.mp hm']
        exact hnext.short
    · intro m' hm'
      rcases List.mem_append.mp hm' with hm' | hm'
      · exact hcalls m' hm'
      · rw [List.mem_singleton.mp hm', hnext.sent]
        exact List.mem_cons_self
    · have hdraw := hnext.exhausted.symm.trans he
      refine List.pairwise_append.mpr ⟨h.rising (Sender.draw_cases hdraw).1,
        List.pairwise_singleton _ _, fun a ha b hb => ?_⟩
      rw [List.mem_singleton.mp hb, hnext.seq]
      exact h.lt_nextSeq hnext.ivIndex hdraw ha

/-- What a run has sent of the flow are short messages with ever greater numbers. -/
theorem sent_rising {elementNum taskNum : ℕ} {ivIndex : BitVec 32} {es : List TxEvent}
    (hall : RunAll (Outbox.step c conf f) (Outbox.Steady f) (.init elementNum taskNum ivIndex) es)
    (hrun : run (Outbox.step c conf f) (.init elementNum taskNum ivIndex) es = .ok o)
    (hex : o.sender.exhausted = false) :
    (∀ m ∈ o.sent, m.payload.length ≤ unsegAccessMaxPduSize) ∧
      o.sent.Pairwise fun m m' => m.seq < m'.seq := by
  have hkept : o.Kept c conf f :=
    hall.invariant (fun _ _ _ h hs hstep => h.step hs hstep)
      (Outbox.init_kept elementNum taskNum ivIndex) hrun
  exact ⟨hkept.short, hkept.rising hex⟩

end Sending

end Meshx.AccessFlow
