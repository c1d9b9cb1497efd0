import Meshx.AccessFlow
import Meshx.NmcWindow
import Meshx.ReceiveCases
import Meshx.RplMap

/-! A flow of access messages at the node that receives it: from the report of the controller
through the bearer, the network and the transport layers up to the access layer. -/
namespace Meshx.AccessFlow

open Lib AesCcm Security Net IvIndex Segment Replay AdvBearer Keys
open LowerTransTx (NetCall TxEvent TxConf plainConf plainEnv plainMsg)
open LowerTransRx (RxEnv RxCall rplOf)
open UpperTrans (accessNonce upperTransReceive upperTransDecrypt_iff upperTransReceive_iff AppTried
  Reaches)

/-- A node as it receives, with what has come to `meshx_access_receive`, oldest first. -/
structure Node where
  bearer : Option Bearer
  net : NetState
  lower : LowerTransRx.Receiver
  upper : UpperTrans.Receiver
  heard : List (List Byte × MsgCtx)

/-- What a report finds in memory behind the report and behind the transport PDU, and what the
platform answers. -/
structure ReportEnv where
  misc : List Byte
  past : ℕ → Byte
  rx : RxEnv

namespace Node

/-- A call of the lower transport layer. Those that go to the sending side do nothing here. -/
def call (c : Crypto) (n : Node) : RxCall → Except Fault Node
  | .upperReceive buf len ctx => do
    match ← upperTransReceive c n.upper (buf.take len) ctx with
    | .ret _ => return n
    | .access pdu ctx => return { n with heard := n.heard ++ [(pdu, ctx)] }
  | .segAck _ _ | .recvBlockAck _ _ => .ok n

/-- The call of `meshx_lower_trans_receive`, if there is one. A PDU for others is to be relayed,
for which there is no code yet. -/
def lowerReceive (c : Crypto) (n : Node) (env : ReportEnv) : NetResult → Except Fault Node
  | .ret _ | .relay _ _ => .ok n
  | .toLower pdu ctx => do
    let mem := fun i => pdu[i]?.getD (env.past i)
    let (_, lower, calls) ← n.lower.receive env.rx mem pdu.length ctx
    calls.foldlM (call c) { n with lower := lower }

def netReceive (c : Crypto) (n : Node) (env : ReportEnv) (iface : ℕ) (pdata : List Byte) :
    Except Fault Node := do
  let (net, out) ← Net.netReceive c n.net (n.net.ifaces.find? (·.id = iface)) pdata env.misc
  lowerReceive c { n with net := net } env out

/-- A report of the controller. What the provisioning and the beacon module do with theirs is
left out. -/
def report (c : Crypto) (n : Node) (env : ReportEnv) (data : List Byte) : Except Fault Node :=
  match handleAdvReport n.bearer data with
  | .net iface pdata => n.netReceive c env iface pdata
  | .prov _ | .beacon _ | .ret _ | .invalAdtype => .ok n

end Node

/-- The receiver has the key of the flow, and no other one under its AID. -/
def KnowsKey (f : Flow) (r : UpperTrans.Receiver) : Prop :=
  if f.akf then
    ∃ v ∈ r.appKeys.flatMap usableAppValues, v.aid = f.aid ∧ v.appKey = f.key ∧
      ∀ w ∈ r.appKeys.flatMap usableAppValues, w.aid = f.aid → w = v
  else ∃ d, devKeyGet r.devKeys r.nodeAddr = some d ∧ d.devKey = f.key

/-- The node is the receiving end of the flow: it has the address and the keys, no other network
key with its NID, and the IV index of the flow or the one after it. -/
structure Linked (f : Flow) (n : Node) (iface : NetIface) : Prop where
  bearer : n.bearer = some ⟨some iface.id⟩
  found : n.net.ifaces.find? (·.id = iface.id) = some iface
  filter : iface.ifilter = true
  address : n.net.nodeAddr = f.dst
  ivIndex : n.net.ivIndex = f.ivIndex ∨ n.net.ivIndex = f.ivIndex + 1
  netKey : f.netKey ∈ n.net.netKeys.flatMap usableValues
  unique : ∀ v ∈ n.net.netKeys.flatMap usableValues, v.nid = f.netKey.nid → v = f.netKey
  key : KnowsKey f n.upper

/-- The context that a message is heard with: the one it was sent with, and the interface. -/
def Flow.heardCtx (f : Flow) (iface : NetIface) (m : Sent) : MsgCtx :=
  { f.sentCtx m.ttl m.seq with netIface := some iface.id }

def Sent.rplEntry (f : Flow) (m : Sent) : RplEntry := ⟨f.src, m.seq.setWidth 32, f.ivIndex⟩

def Sent.nmcEntry (f : Flow) (m : Sent) : NmcEntry := ⟨f.src, m.seq.setWidth 32⟩

section Upper

variable {c : Crypto} {f : Flow} {r : UpperTrans.Receiver} {m : Sent} {iface : NetIface}

theorem appTried_unique {nonce mic buf : List Byte} {aid : BitVec 6} {v : AppKeyValue}
    {vs : List AppKeyValue} (hv : v ∈ vs) (haid : v.aid = aid)
    (hunique : ∀ w ∈ vs, w.aid = aid → w = v) :
    ∃ rest, AppTried c nonce mic aid vs buf (v :: rest) buf := by
  induction vs with
  | nil => cases hv
  | cons w vs ih =>
    by_cases hw : w.aid = aid
    · obtain rfl := hunique w List.mem_cons_self hw
      exact ⟨vs, .zero _ _⟩
    · have hmem : v ∈ vs := by
        rcases List.mem_cons.mp hv with rfl | hmem
        · exact absurd haid hw
        · exact hmem
      obtain ⟨rest, htried⟩ := ih hmem fun x hx => hunique x (List.mem_cons_of_mem _ hx)
      exact ⟨rest, .skip hw htried⟩

theorem KnowsKey.reaches (h : KnowsKey f r) {ctx : MsgCtx} (hakf : ctx.akf = f.akf)
    (haid : ctx.aid = f.aid) (buf mic : List Byte) : Reaches c r ctx f.key buf mic := by
  unfold KnowsKey at h
  unfold Reaches
  rw [hakf, haid]
  split_ifs at h ⊢
  · obtain ⟨v, hv, hvaid, hkey, hunique⟩ := h
    obtain ⟨rest, htried⟩ := appTried_unique hv hvaid hunique
    exact ⟨v, rest, htried, hvaid, hkey⟩
  · exact h

/-- The upper transport layer opens what was sealed. -/
theorem upperTransReceive_sealed (h : KnowsKey f r)
    (hlen : m.payload.length ≤ unsegAccessMaxPduSize) :
    upperTransReceive c r ((f.sealed c (f.sentCtx m.ttl m.seq) m.payload).1 ++
        (f.sealed c (f.sentCtx m.ttl m.seq) m.payload).2)
        { f.heardCtx iface m with pkey := none } =
      .ok (.access m.payload (f.heardCtx iface m)) := by
  obtain ⟨htext, htag⟩ := @sealed_length c f m.payload hlen (f.sentCtx m.ttl m.seq)
  have hshort : m.payload.length < 256 := by
    unfold unsegAccessMaxPduSize at hlen
    omega
  have hadm : c.aead.admits (accessNonce { f.heardCtx iface m with pkey := none }).length
      (f.sealed c (f.sentCtx m.ttl m.seq) m.payload).1.length
      (f.sealed c (f.sentCtx m.ttl m.seq) m.payload).2.length := by
    rw [UpperTrans.accessNonce_length, htext, htag]
    exact c.admits (by omega) (.inl rfl)
  have hakf : MsgCtx.akf { f.heardCtx iface m with pkey := none } = f.akf :=
    @sentCtx_akf f m.ttl m.seq
  have haid : MsgCtx.aid { f.heardCtx iface m with pkey := none } = f.aid :=
    @sentCtx_aid f m.ttl m.seq
  have hopen := (@upperTransDecrypt_iff c r { f.heardCtx iface m with pkey := none } f.key
    m.payload 4 (by omega) (.inl rfl)).mpr (h.reaches hakf haid _ _)
  exact (@upperTransReceive_iff c r { f.heardCtx iface m with pkey := none } _ _ m.payload f.key
    rfl htag.symm (by omega) hadm).mpr hopen

end Upper

section Lower

variable {c : Crypto} {f : Flow} {r : LowerTransRx.Receiver} {rpl : Rpl} {entry : RplEntry}
  {m : Sent} {iface : NetIface}

/-- With room in the replay list, an entry with a number above those there are is added. -/
theorem lowerTransRplCheck_rising (hspare : Spare rpl) (hroom : rpl.index < rpl.array.length)
    (hround : rpl.index ≤ 255) (hsrc : entry.src ≠ 0)
    (habove : ∀ e ∈ rpl.entries, e.seq < entry.seq ∧ e.ivIndex ≤ entry.ivIndex) :
    ∃ rpl', lowerTransRplCheck rpl entry = .ok (true, rpl') ∧ Spare rpl' ∧
      rpl'.entries = rpl.entries ++ [entry] ∧ rpl'.array.length = rpl.array.length := by
  have hcheck : rplCheck rpl entry = true := by
    unfold rplCheck
    cases hfind : rpl.entries.find? (·.src = entry.src) with
    | none => rfl
    | some e =>
      obtain ⟨hseq, hiv⟩ := habove e (List.mem_of_find?_eq_some hfind)
      simpa using ⟨hseq, hiv⟩
  have hupdate : rplUpdate rpl entry = .ok (rplAdd rpl entry) := by
    by_cases hpos : rpl.index = 0
    · rw [rplUpdate, if_pos hpos]
    · rw [rplUpdate_of_ne hspare hpos hroom hsrc, if_neg (by omega)]
  have hadd : (rplAdd rpl entry).1 = .success := by rw [rplAdd, dif_neg hroom.ne]
  refine ⟨(rplAdd rpl entry).2, ?_, rplAdd_spare hspare, rplAdd_entries hadd, ?_⟩
  · rw [lowerTransRplCheck, if_pos hcheck, hupdate]
    change Except.ok (decide ((rplAdd rpl entry).1 = .success), _) = _
    rw [hadd]
    rfl
  · rw [rplAdd, dif_neg hroom.ne]
    exact List.length_set

theorem memBytes_getD {xs : List Byte} {past : ℕ → Byte} (offset n : ℕ)
    (h : offset + n ≤ xs.length) :
    LowerTransRx.memBytes (fun i => xs[i]?.getD (past i)) offset n = (xs.drop offset).take n := by
  refine List.ext_getElem? fun i => ?_
  by_cases hi : i < n
  · rw [LowerTransRx.memBytes, List.getElem?_map, List.getElem?_range hi,
      List.getElem?_take_of_lt hi, List.getElem?_drop, List.getElem?_eq_getElem (by omega),
      Option.map_some, List.getElem?_eq_getElem (by omega), Option.getD_some]
  · rw [List.getElem?_eq_none (by simpa [LowerTransRx.memBytes] using hi),
      List.getElem?_eq_none (by rw [List.length_take]; omega)]

theorem header_fields (f : Flow) (ttl : BitVec 7) (seq : BitVec 24) :
    (header false (f.sentCtx ttl seq)).msb = false ∧
      MsgCtx.accessInfo ((header false (f.sentCtx ttl seq)).getLsbD 6) false
        ((header false (f.sentCtx ttl seq)).extractLsb' 0 6) = (f.sentCtx ttl seq).info := by
  have hctl : (f.sentCtx ttl seq).ctl = false := rfl
  have hinfo : (f.sentCtx ttl seq).info = MsgCtx.accessInfo f.akf false f.aid := rfl
  have haid : (if f.akf then f.aid else 0) = f.aid := by
    rw [Flow.akf, bne]
    cases h0 : f.aid == 0 with
    | false => rfl
    | true => exact (beq_iff_eq.mp h0).symm
  rw [header, hctl, if_neg Bool.false_ne_true, sentCtx_akf, sentCtx_aid, haid, hinfo]
  generalize f.akf = akf
  generalize f.aid = aid
  revert akf aid
  decide

/-- The lower transport layer takes a message of the flow off the replay list check and hands
its text and TransMIC on. -/
theorem receive_call {env : RxEnv} {past : ℕ → Byte}
    (hlen : m.payload.length ≤ unsegAccessMaxPduSize) {rpl' : Rpl}
    (hcheck : lowerTransRplCheck r.rpl (m.rplEntry f) = .ok (true, rpl')) :
    r.receive env (fun i => (m.call c f).pdu[i]?.getD (past i)) (m.call c f).pdu.length
        (receivedCtx (f.sentCtx m.ttl m.seq) f.netKey iface.id) =
      .ok (.success, { r with rpl := rpl' },
        [.upperReceive ((f.sealed c (f.sentCtx m.ttl m.seq) m.payload).1 ++
            (f.sealed c (f.sentCtx m.ttl m.seq) m.payload).2) (m.payload.length + 4)
          { f.heardCtx iface m with pkey := none }]) := by
  obtain ⟨hmsb, hinfo⟩ := header_fields f m.ttl m.seq
  obtain ⟨htext, htag⟩ := @sealed_length c f m.payload hlen (f.sentCtx m.ttl m.seq)
  have hsize : (m.call c f).pdu.length = m.payload.length + 5 := call_pdu_length hlen
  have hn : (m.payload.length + 5 + 256 - 1) % 256 = m.payload.length + 4 := by
    unfold unsegAccessMaxPduSize at hlen
    omega
  have hbody : ((m.call c f).pdu.drop 1).take (m.payload.length + 4) =
      (f.sealed c (f.sentCtx m.ttl m.seq) m.payload).1 ++
        (f.sealed c (f.sentCtx m.ttl m.seq) m.payload).2 :=
    List.take_of_length_le (by rw [List.length_drop]; omega)
  have hfirst : (m.call c f).pdu[0]?.getD (past 0) = header false (f.sentCtx m.ttl m.seq) := rfl
  have hctl : (receivedCtx (f.sentCtx m.ttl m.seq) f.netKey iface.id).ctl = false := rfl
  have hcall : LowerTransRx.Receiver.unsegCall (fun i => (m.call c f).pdu[i]?.getD (past i))
      (m.call c f).pdu.length (receivedCtx (f.sentCtx m.ttl m.seq) f.netKey iface.id) =
      .upperReceive ((f.sealed c (f.sentCtx m.ttl m.seq) m.payload).1 ++
        (f.sealed c (f.sentCtx m.ttl m.seq) m.payload).2) (m.payload.length + 4)
        { f.heardCtx iface m with pkey := none } := by
    rw [LowerTransRx.Receiver.unsegCall, hsize, hn, memBytes_getD 1 _ (by omega), hbody, hfirst,
      hctl, if_neg Bool.false_ne_true, hinfo]
    rfl
  rw [LowerTransRx.Receiver.receive, hcall, hctl, Bool.false_and, if_neg Bool.false_ne_true,
    hfirst, hmsb, if_neg Bool.false_ne_true, LowerTransRx.Receiver.receiveUnseg]
  change (lowerTransRplCheck r.rpl (m.rplEntry f) >>= _) = _
  rw [hcheck]
  rfl

end Lower

section Network

variable {c : Crypto} {f : Flow} {m : Sent} {n : Node} {iface : NetIface} {nmc : Nmc}
  {array added : List NmcEntry} {entry : NmcEntry}

/-- The frame of a message, whose bytes a receiver with its network key unpacks. -/
theorem airFrame_sent (hlen : m.payload.length ≤ unsegAccessMaxPduSize) :
    ∃ bytes, airFrame c (m.call c f) = .ok (advPkt .meshMsg bytes) ∧ bytes.length ≤ 29 ∧
      ∀ misc, (NetPdu.copy bytes misc).nid = f.netKey.nid ∧
        (NetPdu.copy bytes misc).ivi = f.ivIndex.getLsbD 0 ∧
        ∃ d, tryKeyValue c bytes.length f.ivIndex f.netKey (NetPdu.copy bytes misc) =
            .ok (true, d) ∧
          Unpacked f.netKey (f.sentCtx m.ttl m.seq) (m.call c f).pdu d := by
  have hsize : (m.call c f).pdu.length = m.payload.length + 5 := call_pdu_length hlen
  have hok : netLengthOk (m.call c f).pdu.length (f.sentCtx m.ttl m.seq).ctl = true := by
    rw [hsize, show (f.sentCtx m.ttl m.seq).ctl = false from rfl]
    unfold unsegAccessMaxPduSize at hlen
    simp [netLengthOk, netTransPduMaxLen, micLen]
    omega
  obtain ⟨bytes, hbytes, hcopy⟩ := @tryKeyValue_netPack c f.netKey (f.sentCtx m.ttl m.seq)
    (m.call c f).pdu (by omega) hok
  refine ⟨bytes, ?_, ?_, hcopy⟩
  · change advPkt .meshMsg <$> netPack c f.netKey (f.sentCtx m.ttl m.seq) (m.call c f).pdu = _
    rw [hbytes]
    rfl
  · obtain ⟨p, -, hp⟩ := bind_ok hbytes
    obtain rfl := Except.ok.inj hp
    rw [List.length_take, NetPdu.bytes, List.cons_append, List.length_cons, List.length_append,
      NetPdu.hidden_length, NetPdu.body_length]
    omega

/-- A PDU that was not added before gets past the message cache. -/
theorem nmcCheck_new (h : nmc.Holds array added) (hnew : entry ∉ added) :
    nmcCheck nmc entry = true := by
  rw [nmcCheck, h.array_eq]
  cases hfilled : nmc.filled array with
  | nil =>
    rw [Nmc.filled] at hfilled
    dsimp only
    rw [hfilled]
  | cons first rest =>
    have hmem : first ∈ added := by
      have hin : first ∈ nmc.filled array := hfilled ▸ List.mem_cons_self
      exact List.mem_of_mem_drop (h.mem_filled_iff.mp hin)
    rw [Nmc.filled] at hfilled
    dsimp only
    rw [hfilled]
    exact decide_eq_true fun he => hnew (he ▸ hmem)

theorem netReceive_sent {s : NetState} {misc : List Byte} {d : Decoded} {pdata : List Byte}
    (hfilter : iface.ifilter = true)
    (hiv : rxIvIndex s.ivIndex (NetPdu.copy pdata misc).ivi = f.ivIndex)
    (hd : netTrial c pdata.length f.ivIndex s.netKeys (NetPdu.copy pdata misc) = .ok (some d))
    (hu : Unpacked f.netKey (f.sentCtx m.ttl m.seq) (m.call c f).pdu d)
    (haddress : s.nodeAddr = f.dst) (hnmc : nmcCheck s.nmc (m.nmcEntry f) = true)
    (hadd : nmcAdd s.nmc (m.nmcEntry f) = .ok nmc) :
    Net.netReceive c s (some iface) pdata misc = .ok ({ s with nmc := nmc },
      .toLower (m.call c f).pdu (receivedCtx (f.sentCtx m.ttl m.seq) f.netKey iface.id)) := by
  have hsrc : addressIsValid (f.sentCtx m.ttl m.seq).src = true := f.src_valid
  have hdst : addressIsValid (f.sentCtx m.ttl m.seq).dst = true := f.dst_valid
  have hmy : isMyAddress s (f.sentCtx m.ttl m.seq).dst = true := decide_eq_true haddress.symm
  have hrx := hu.rxCtx_eq iface.id
  have hindex : (f.sentCtx m.ttl m.seq).ivIndex = f.ivIndex := rfl
  rw [hindex] at hrx
  have hentry : (⟨(f.sentCtx m.ttl m.seq).src, (f.sentCtx m.ttl m.seq).seq.setWidth 32⟩ :
      NmcEntry) = m.nmcEntry f := rfl
  simp only [Net.netReceive, netReceiveFinish, hfilter, hiv, hd, hu.src, hu.dst, hu.seq, hsrc,
    hdst, hentry, hnmc, hadd, hu.transPdu, hrx, hmy, Bool.not_true, Bool.or_self,
    Bool.false_eq_true, if_false, if_true, bind, Except.bind, pure, Except.pure]

end Network

/-- The node after these messages, the only ones that it has heard. -/
structure Heard (f : Flow) (iface : NetIface) (first n : Node) (ms : List Sent) : Prop where
  bearer : n.bearer = first.bearer
  upper : n.upper = first.upper
  net : n.net = { first.net with nmc := n.net.nmc }
  nmc : ∃ array, n.net.nmc.Holds array (ms.map (Sent.nmcEntry f))
  spare : Spare n.lower.rpl
  entries : n.lower.rpl.entries = ms.map (Sent.rplEntry f)
  room : n.lower.rpl.array.length = first.lower.rpl.array.length
  heard : n.heard = ms.map fun m => (m.payload, f.heardCtx iface m)

section Reports

variable {c : Crypto} {f : Flow} {m : Sent} {ms : List Sent} {first n : Node} {iface : NetIface}
  {env : ReportEnv} {data : List Byte}

theorem Flow.src_ne_zero (f : Flow) : f.src ≠ 0 := by
  intro h0
  have hvalid := f.src_valid
  rw [h0] at hvalid
  cases hvalid

theorem setWidth_lt {a b : BitVec 24} (h : a < b) : a.setWidth 32 < b.setWidth 32 := by
  rw [BitVec.lt_def] at h ⊢
  rw [BitVec.toNat_setWidth, BitVec.toNat_setWidth, Nat.mod_eq_of_lt (by omega),
    Nat.mod_eq_of_lt (by omega)]
  exact h

/-- The frame of the next message that arrives is heard. -/
theorem Heard.report (h : Heard f iface first n ms) (hlinked : Linked f first iface)
    (hlen : m.payload.length ≤ unsegAccessMaxPduSize) (habove : ∀ m' ∈ ms, m'.seq < m.seq)
    (hroom : ms.length < first.lower.rpl.array.length) (hround : ms.length ≤ 255)
    (hframe : airFrame c (m.call c f) = .ok data) :
    ∃ n', n.report c env data = .ok n' ∧ Heard f iface first n' (ms ++ [m]) := by
  obtain ⟨bytes, hbytes, hmax, hcopy⟩ := @airFrame_sent c f m hlen
  obtain rfl := Except.ok.inj (hframe.symm.trans hbytes)
  obtain ⟨hnid, hivi, d, hd, hu⟩ := hcopy env.misc
  -- the network layer
  have hiv : rxIvIndex n.net.ivIndex (NetPdu.copy bytes env.misc).ivi = f.ivIndex := by
    rw [hivi, h.net]
    exact rxIvIndex_of_near hlinked.ivIndex
  have htrial : netTrial c bytes.length f.ivIndex n.net.netKeys (NetPdu.copy bytes env.misc) =
      .ok (some d) := by
    rw [h.net]
    exact tryKeyValues_unique hlinked.netKey hnid.symm
      (fun v hv hvn => hlinked.unique v hv (hvn.trans hnid)) hd
  obtain ⟨array, hholds⟩ := h.nmc
  have hnew : m.nmcEntry f ∉ ms.map (Sent.nmcEntry f) := by
    intro hmem
    obtain ⟨m', hm', he⟩ := List.mem_map.mp hmem
    have hseq : m'.seq.setWidth 32 = m.seq.setWidth 32 := congrArg NmcEntry.seq he
    exact absurd hseq (BitVec.ne_of_lt (setWidth_lt (habove m' hm')))
  obtain ⟨nmc, hadd, hholds'⟩ := hholds.add (m.nmcEntry f)
  have haddress : n.net.nodeAddr = f.dst := by
    rw [h.net]
    exact hlinked.address
  have hnet := netReceive_sent hlinked.filter hiv htrial hu haddress (nmcCheck_new hholds hnew) hadd
  -- the replay list
  have hindex : n.lower.rpl.index = ms.length := by
    rw [← sources_length, Rpl.sources, h.entries, List.length_map, List.length_map]
  have hrising : ∀ e ∈ n.lower.rpl.entries,
      e.seq < (m.rplEntry f).seq ∧ e.ivIndex ≤ (m.rplEntry f).ivIndex := by
    intro e he
    rw [h.entries] at he
    obtain ⟨m', hm', rfl⟩ := List.mem_map.mp he
    exact ⟨setWidth_lt (habove m' hm'), BitVec.le_refl _⟩
  obtain ⟨rpl, hcheck, hspare, hentries, hsize⟩ := lowerTransRplCheck_rising h.spare
    (by rw [hindex, h.room]; exact hroom) (by rwa [hindex]) f.src_ne_zero hrising
  -- the transport layers
  have hlower := @receive_call c f n.lower m iface env.rx env.past hlen rpl hcheck
  have hupper : upperTransReceive c n.upper ((f.sealed c (f.sentCtx m.ttl m.seq) m.payload).1 ++
      (f.sealed c (f.sentCtx m.ttl m.seq) m.payload).2) { f.heardCtx iface m with pkey := none } =
      .ok (.access m.payload (f.heardCtx iface m)) :=
    upperTransReceive_sealed (h.upper ▸ hlinked.key) hlen
  have htake : ((f.sealed c (f.sentCtx m.ttl m.seq) m.payload).1 ++
      (f.sealed c (f.sentCtx m.ttl m.seq) m.payload).2).take (m.payload.length + 4) =
      (f.sealed c (f.sentCtx m.ttl m.seq) m.payload).1 ++
        (f.sealed c (f.sentCtx m.ttl m.seq) m.payload).2 := by
    obtain ⟨htext, htag⟩ := @sealed_length c f m.payload hlen (f.sentCtx m.ttl m.seq)
    exact List.take_of_length_le (by rw [List.length_append]; omega)
  have hdispatch : handleAdvReport n.bearer (advPkt .meshMsg bytes) = .net iface.id bytes := by
    rw [handleAdvReport_advPkt hmax, h.bearer, hlinked.bearer]
    exact bearerAdvReceive_dispatch .meshMsg iface.id bytes
  have hfound : n.net.ifaces.find? (·.id = iface.id) = some iface := by
    rw [h.net]
    exact hlinked.found
  refine ⟨{ n with
    net := { n.net with nmc := nmc }
    lower := { n.lower with rpl := rpl }
    heard := n.heard ++ [(m.payload, f.heardCtx iface m)] }, ?_, ?_⟩
  · rw [Node.report, hdispatch]
    dsimp only
    rw [Node.netReceive, hfound, hnet, ok_bind]
    dsimp only
    rw [Node.lowerReceive, hlower, ok_bind]
    dsimp only
    rw [List.foldlM_cons, Node.call]
    dsimp only
    rw [htake, hupper]
    rfl
  · exact {
      bearer := h.bearer
      upper := h.upper
      net := by rw [h.net]
      nmc := ⟨_, by rw [List.map_append]; exact hholds'⟩
      spare := hspare
      entries := by rw [hentries, h.entries, List.map_append]; rfl
      room := hsize.trans h.room
      heard := by rw [h.heard, List.map_append]; rfl }

/-- Nothing of the node looks at the report: it is no advertising of the mesh, or a PDU that no
network key opens. -/
def Node.Ignores (c : Crypto) (n : Node) (env : ReportEnv) (data : List Byte) : Prop :=
  match handleAdvReport n.bearer data with
  | .net _ pdata =>
    netTrial c pdata.length (rxIvIndex n.net.ivIndex (NetPdu.copy pdata env.misc).ivi)
      n.net.netKeys (NetPdu.copy pdata env.misc) = .ok none
  | .prov _ | .beacon _ => False
  | .ret _ | .invalAdtype => True

theorem Heard.ignores (h : Heard f iface first n ms) (hi : first.Ignores c env data) :
    n.Ignores c env data := by
  unfold Node.Ignores at hi ⊢
  rw [h.bearer, h.net]
  exact hi

theorem Node.Ignores.report (h : n.Ignores c env data) : n.report c env data = .ok n := by
  unfold Node.Ignores at h
  unfold Node.report
  cases hdispatch : handleAdvReport n.bearer data with
  | net id pdata =>
    rw [hdispatch] at h
    dsimp only at h ⊢
    unfold Node.netReceive
    cases hfound : n.net.ifaces.find? (·.id = id) with
    | none => rfl
    | some iface =>
      cases hfilter : iface.ifilter with
      | false =>
        have hnet : Net.netReceive c n.net (some iface) pdata env.misc =
            .ok (n.net, .ret .filter) := by
          simp [Net.netReceive, hfilter, pure, Except.pure]
        rw [hnet]
        rfl
      | true =>
        have hnet : Net.netReceive c n.net (some iface) pdata env.misc =
            .ok (n.net, .ret .key) := by
          simp [Net.netReceive, netReceiveFinish, hfilter, h, bind, Except.bind]
        rw [hnet]
        rfl
  | prov pdata =>
    rw [hdispatch] at h
  | beacon pdata =>
    rw [hdispatch] at h
  | ret err | invalAdtype => rfl

/-- The reports bring the frames of these messages in their order, and between them others that
the node ignores. -/
inductive Brings (c : Crypto) (f : Flow) (n : Node) : List (ReportEnv × List Byte) →
    List Sent → Prop
  | nil : Brings c f n [] []
  | frame {env data rs m ms} : airFrame c (m.call c f) = .ok data → Brings c f n rs ms →
      Brings c f n ((env, data) :: rs) (m :: ms)
  | other {env data rs ms} : n.Ignores c env data → Brings c f n rs ms →
      Brings c f n ((env, data) :: rs) ms

theorem Heard.run {rs : List (ReportEnv × List Byte)} {new : List Sent}
    (h : Heard f iface first n ms) (hlinked : Linked f first iface)
    (hbrings : Brings c f first rs new)
    (hshort : ∀ m ∈ new, m.payload.length ≤ unsegAccessMaxPduSize)
    (hrising : (ms ++ new).Pairwise fun m m' => m.seq < m'.seq)
    (hroom : (ms ++ new).length ≤ first.lower.rpl.array.length)
    (hround : (ms ++ new).length ≤ 256) :
    ∃ n', run (fun n r => n.report c r.1 r.2) n rs = .ok n' ∧
      Heard f iface first n' (ms ++ new) := by
  induction hbrings generalizing n ms with
  | nil => exact ⟨n, rfl, by rwa [List.append_nil]⟩
  | @frame env data rs m new hframe _ ih =>
    have hsplit : ms ++ m :: new = ms ++ [m] ++ new := List.append_cons ms m new
    rw [List.length_append, List.length_cons] at hroom hround
    obtain ⟨n₁, hreport, h₁⟩ := @Heard.report c f m ms first n iface env data h hlinked
      (hshort m List.mem_cons_self)
      (fun m' hm' => (List.pairwise_append.mp hrising).2.2 m' hm' m List.mem_cons_self)
      (by omega) (by omega) hframe
    rw [hsplit] at hrising ⊢
    obtain ⟨n₂, hrun, h₂⟩ := ih h₁ (fun m' hm' => hshort m' (List.mem_cons_of_mem _ hm')) hrising
      (by rw [List.length_append, List.length_append, List.length_singleton]; omega)
      (by rw [List.length_append, List.length_append, List.length_singleton]; omega)
    refine ⟨n₂, ?_, h₂⟩
    rw [Lib.run, hreport]
    exact hrun
  | @other env data rs new hignores _ ih =>
    obtain ⟨n', hrun, h'⟩ := ih h hshort hrising hroom hround
    refine ⟨n', ?_, h'⟩
    rw [Lib.run, (h.ignores hignores).report]
    exact hrun

end Reports

/-- A node that has just been set up. -/
def Node.init (bearer : Option Bearer) (net : NetState) (upper : UpperTrans.Receiver)
    (nmcSize rplSize taskNum : ℕ) : Node where
  bearer := bearer
  net := { net with nmc := nmcInit nmcSize }
  lower := .init rplSize taskNum
  upper := upper
  heard := []

theorem Node.init_heard (f : Flow) (iface : NetIface) (bearer : Option Bearer) (net : NetState)
    (upper : UpperTrans.Receiver) {nmcSize : ℕ} (hnmc : 0 < nmcSize) (rplSize taskNum : ℕ) :
    Heard f iface (Node.init bearer net upper nmcSize rplSize taskNum)
      (Node.init bearer net upper nmcSize rplSize taskNum) [] where
  bearer := rfl
  upper := rfl
  net := rfl
  nmc := ⟨_, nmcInit_holds hnmc⟩
  spare := rplInit_spare rplSize
  entries := rplInit_entries rplSize
  room := rfl
  heard := rfl

/-- Whatever a node sends besides, and whatever other advertising is on the air: of the short
access messages of a flow, those whose frames arrive, in their order and as many as the replay
list of the receiver has room for, come to its access layer, each once, with the bytes and in
the context they were sent with; and the access layer of the sender lets all of them through. -/
theorem flow_heard (c : Crypto) (conf : TxConf) (f : Flow) (elementNum txTaskNum : ℕ)
    (ivIndex : BitVec 32) (es : List TxEvent) (o : Outbox)
    (hall : RunAll (Outbox.step c conf f) (Outbox.Steady f) (.init elementNum txTaskNum ivIndex) es)
    (hrun : run (Outbox.step c conf f) (.init elementNum txTaskNum ivIndex) es = .ok o)
    (hexhausted : o.sender.exhausted = false) (bearer : Option Bearer) (net : NetState)
    (upper : UpperTrans.Receiver) (nmcSize rplSize taskNum : ℕ) (iface : NetIface)
    (hnmc : 0 < nmcSize)
    (hlinked : Linked f (Node.init bearer net upper nmcSize rplSize taskNum) iface)
    (ms : List Sent) (harrived : ms.Sublist o.sent) (hroom : ms.length ≤ min rplSize 256)
    (rs : List (ReportEnv × List Byte))
    (hbrings : Brings c f (Node.init bearer net upper nmcSize rplSize taskNum) rs ms) :
    (∃ n, run (fun n r => n.report c r.1 r.2)
        (Node.init bearer net upper nmcSize rplSize taskNum) rs = .ok n ∧
      n.heard = ms.map fun m => (m.payload, f.heardCtx iface m)) ∧
    ∀ m ∈ o.sent, UpperTrans.accessSendCheck m.payload.length (f.ctx m.ttl) = none := by
  obtain ⟨hshort, hrising⟩ := sent_rising hall hrun hexhausted
  obtain ⟨hsize, hround⟩ := le_min_iff.mp hroom
  have hlist : (Node.init bearer net upper nmcSize rplSize taskNum).lower.rpl.array.length =
      rplSize := List.length_replicate
  obtain ⟨n, hn, hheard⟩ := (Node.init_heard f iface bearer net upper hnmc rplSize taskNum).run
    hlinked hbrings (fun m hm => hshort m (harrived.subset hm)) (hrising.sublist harrived)
    (by rwa [hlist]) hround
  exact ⟨⟨n, hn, hheard.heard⟩, fun m hm => accessSendCheck_ctx (hshort m hm)⟩

/-- A flow from address 1 to address 2 under a device key. -/
def deviceFlow : Flow :=
  ⟨1, 2, keyValueOf 5 (List.replicate 16 1), List.replicate 16 3, 0, 5, by decide, by decide⟩

/-- Two messages of the flow and an ack between them. -/
def deviceRun : List TxEvent :=
  [.send plainEnv [1, 2, 3] (deviceFlow.ctx 4),
    .segAck plainEnv 1 { plainMsg with src := 2, dst := 1 },
    .send plainEnv [4, 5] (deviceFlow.ctx 4)]

def deviceIface : NetIface := ⟨1, .adv, some .adv, true, fun _ _ => true⟩

/-- The network layer of the other end, whose IV index is one ahead. -/
def deviceNet : NetState :=
  { receiver 6 [⟨.normal, 0, deviceFlow.netKey, deviceFlow.netKey⟩] with ifaces := [deviceIface] }

def deviceUpper : UpperTrans.Receiver := ⟨[], [⟨2, 1, List.replicate 16 3⟩], 2⟩

def deviceEnv : ReportEnv := ⟨[], fun _ => 0, ⟨true, true, true, fun _ => 0⟩⟩

/-- The first message is lost, the second one comes after an empty report. -/
theorem flow_heard_second : ∃ o frame n,
    run (Outbox.step maskCrypto plainConf deviceFlow) (.init 1 1 5) deviceRun = .ok o ∧
      o.sent = [⟨[1, 2, 3], 4, 0⟩, ⟨[4, 5], 4, 2⟩] ∧
      run (fun n r => n.report maskCrypto r.1 r.2)
        (Node.init (some ⟨some 1⟩) deviceNet deviceUpper 2 1 0)
        [(deviceEnv, []), (deviceEnv, frame)] = .ok n ∧
      n.heard = [([4, 5], deviceFlow.heardCtx deviceIface ⟨[4, 5], 4, 2⟩)] := by
  obtain ⟨o, ho, hobs⟩ : ∃ o,
      run (Outbox.step maskCrypto plainConf deviceFlow) (.init 1 1 5) deviceRun = .ok o ∧
        (o.sender.exhausted, o.sent) = (false, [⟨[1, 2, 3], 4, 0⟩, ⟨[4, 5], 4, 2⟩]) :=
    observe (by decide +kernel)
  obtain ⟨hexhausted, hsent⟩ := Prod.mk.inj hobs
  obtain ⟨bytes, hframe, -, -⟩ := @airFrame_sent maskCrypto deviceFlow ⟨[4, 5], 4, 2⟩ (by decide)
  have hctl : (deviceFlow.ctx 4).ctl = true → False := by decide
  have hall : RunAll (Outbox.step maskCrypto plainConf deviceFlow) (Outbox.Steady deviceFlow)
      (.init 1 1 5) deviceRun := by
    refine ⟨⟨fun h => (hctl h).elim, fun _ _ _ _ _ => rfl⟩, fun t ht =>
      ⟨⟨trivial, fun _ _ _ he => by cases he⟩, fun u hu =>
        ⟨⟨fun h => (hctl h).elim, fun _ _ _ _ _ => ?_⟩, fun _ _ => trivial⟩⟩⟩
    obtain ⟨u', hu', hiv⟩ : ∃ u',
        run (Outbox.step maskCrypto plainConf deviceFlow) (.init 1 1 5) (deviceRun.take 2) =
          .ok u' ∧ ivIndexTxGet u'.sender.iv = 5 := observe (by decide +kernel)
    obtain ⟨t', ht', hrest⟩ := run_cons_ok hu'
    obtain rfl := Except.ok.inj (ht.symm.trans ht')
    obtain ⟨u'', hu'', hnil⟩ := run_cons_ok hrest
    obtain rfl := Except.ok.inj (hu.symm.trans hu'')
    obtain rfl := Except.ok.inj hnil
    exact hiv
  have hlinked : Linked deviceFlow (Node.init (some ⟨some 1⟩) deviceNet deviceUpper 2 1 0)
      deviceIface := by
    refine ⟨rfl, rfl, rfl, rfl, .inr rfl, by decide, by decide, ?_⟩
    exact ⟨⟨2, 1, List.replicate 16 3⟩, rfl, rfl⟩
  have hbrings : Brings maskCrypto deviceFlow
      (Node.init (some ⟨some 1⟩) deviceNet deviceUpper 2 1 0)
      [(deviceEnv, []), (deviceEnv, advPkt .meshMsg bytes)] [⟨[4, 5], 4, 2⟩] :=
    .other trivial (.frame hframe .nil)
  obtain ⟨⟨n, hn, hheard⟩, -⟩ := flow_heard maskCrypto plainConf deviceFlow 1 1 5 deviceRun o
    hall ho hexhausted (some ⟨some 1⟩) deviceNet deviceUpper 2 1 0 deviceIface (by decide) hlinked
    [⟨[4, 5], 4, 2⟩] (by rw [hsent]; exact .cons _ (List.Sublist.refl _)) (by decide) _ hbrings
  exact ⟨o, _, n, ho, hsent, hn, hheard⟩

end Meshx.AccessFlow
