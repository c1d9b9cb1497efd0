import Meshx.NetTrial
import Meshx.RxCollect
import Meshx.UpperTrans

/-! The lengths on the way of a received PDU from the bearer to the upper transport layer. They
are all in order, and all reads inside the bytes received, exactly as long as every PDU that a
key takes has full length and no task counts bytes of the message before. -/
namespace Meshx.ReceiveSizes

open Lib AesCcm Security Net Segment Replay LowerTransRx
open LowerTransRx.Receiver
open UpperTrans (upperTransReceive)

/-- A PDU that a bearer hands to `meshx_net_receive`, with the network layer it comes to, what
follows the PDU and its transport PDU in memory, and what the platform answers meanwhile. -/
structure Arrival where
  net : NetState
  iface : Option NetIface
  pdata : List Byte
  misc : List Byte
  beyond : ℕ → Byte
  env : RxEnv
  pdata_length : pdata.length < 256

namespace Arrival

variable (c : Crypto) (a : Arrival)

/-- Trial decryption of the local copy. -/
def trial : Except Fault (Option Decoded) :=
  let p := NetPdu.copy a.pdata a.misc
  netTrial c a.pdata.length (rxIvIndex a.net.ivIndex p.ivi) a.net.netKeys p

/-- The PDU comes in on an interface that lets it pass, and it is not refused for want of a
key. -/
def Taken : Prop :=
  (∃ iface, a.iface = some iface ∧ iface.ifilter = true) ∧ a.trial c ≠ .ok none

/-- The network layer calls `meshx_lower_trans_receive` with these arguments. -/
def Delivers (pdu : List Byte) (ctx : MsgCtx) : Prop :=
  ∃ net, netReceive c a.net a.iface a.pdata a.misc = .ok (net, .toLower pdu ctx)

/-- The memory at the transport PDU. -/
def mem (pdu : List Byte) (i : ℕ) : Byte := pdu.getD i (a.beyond i)

end Arrival

/-- What happens to the lower transport layer on reception. -/
inductive ReceiveEvent
  | pdu (a : Arrival)
  | incompleteTimeout (id : ℕ)
  | rplClear

def receiveStep (c : Crypto) (r : Receiver) : ReceiveEvent → Except Fault Receiver
  | .pdu a => do
    let (_, result) ← netReceive c a.net a.iface a.pdata a.misc
    match result with
    | .toLower pdu ctx =>
      let (_, r, _) ← r.receive a.env (a.mem pdu) pdu.length ctx
      return r
    | .ret _ | .relay _ _ => return r
  | .incompleteTimeout id => r.handleRxIncompleteTimeout id
  | .rplClear => .ok { r with rpl := rplClear r.rpl }

/-- What the lower transport layer reads of a transport PDU of `len` bytes is in it: the first
byte, the fields of a segment ack, or the header of a segment and the data it takes for its own. -/
def LowerSized (mem : ℕ → Byte) (len : ℕ) (ctx : MsgCtx) : Prop :=
  1 ≤ len ∧
    if ctx.ctl && (mem 0).extractLsb' 0 7 == 0 then 7 ≤ len
    else if (mem 0).msb then
      4 + (if (rxMisc mem).segn = 0 then (len + 65536 - 4) % 65536
        else rxSegLen mem len ctx.ctl) ≤ len
    else True

/-- The upper transport layer is handed no more bytes than are there, and with any keys it finds
the TransMIC among them. -/
def UpperSized (c : Crypto) : RxCall → Prop
  | .upperReceive buf n ctx =>
    n ≤ buf.length ∧ ∀ keys, ∃ result, upperTransReceive c keys (buf.take n) ctx = .ok result
  | .segAck _ _ | .recvBlockAck _ _ => True

/-- All lengths on the way of the PDU are in order, and all reads inside what was received. -/
structure Arrival.Sized (c : Crypto) (r : Receiver) (a : Arrival) : Prop where
  copied : 29 ≤ a.pdata.length
  header : ∀ ctl, 9 + micLen ctl ≤ a.pdata.length
  decrypted : ∃ d, a.trial c = .ok d
  lower : ∀ pdu ctx, a.Delivers c pdu ctx → LowerSized (a.mem pdu) pdu.length ctx
  upper : ∀ pdu ctx ret r' calls, a.Delivers c pdu ctx →
    r.receive a.env (a.mem pdu) pdu.length ctx = .ok (ret, r', calls) →
    ∀ call ∈ calls, UpperSized c call

/-- A PDU that a key takes is received with all lengths in order. -/
def SizedStep (c : Crypto) (r : Receiver) : ReceiveEvent → Prop
  | .pdu a => a.Taken c → a.Sized c r
  | .incompleteTimeout _ | .rplClear => True

/-- The length of the TransMIC that `meshx_upper_trans_receive` goes by. -/
def transMicLen (ctx : MsgCtx) : ℕ := if ctx.seg && ctx.szmic then 8 else 4

/-- The segment is the last one that the task misses of a message of several. -/
structure LastMissing (r : Receiver) (mem : ℕ → Byte) (ctx : MsgCtx) (id : ℕ) : Prop where
  several : (rxMisc mem).segn ≠ 0
  agrees : mismatch (r.task id).ctx ctx = false
  maxPduLen : (r.task id).maxPduLen = rxMaxPduLen mem ctx.ctl
  missing : (r.task id).notReceivedSeg = bit 32 (rxMisc mem).sego.toNat
  inside : (rxMisc mem).sego.toNat ≤ (rxMisc mem).segn.toNat
  fresh : ∃ rpl, lowerTransRplCheck r.rpl (rplOf ctx) = .ok (true, rpl)

/-- The PDU brings the last segment to the active task that has its message. -/
structure Completes (r : Receiver) (mem : ℕ → Byte) (ctx : MsgCtx) (id : ℕ) : Prop where
  segmented : Segmented mem ctx
  current : r.current (segCtx mem ctx) = some id
  last : LastMissing r mem (segCtx mem ctx) id

/-- The bytes counted before the last segment are at most those of the other segments, or so many
that the count starts anew with the last one and still covers the TransMIC. -/
def CountFits (ctx : MsgCtx) (segn pduLen : ℕ) : Prop :=
  pduLen ≤ segn * segSize ctx.ctl ∨
    65536 + (if ctx.ctl then 0 else transMicLen ctx) ≤ pduLen + segSize ctx.ctl

/-- A PDU that a key takes has 29 bytes, and a task whose message it completes has counted the
bytes of this message only, as far as it matters. -/
def FullStep (c : Crypto) (r : Receiver) : ReceiveEvent → Prop
  | .pdu a => a.Taken c → a.pdata.length = 29 ∧ ∀ pdu ctx, a.Delivers c pdu ctx → ∀ id,
      Completes r (a.mem pdu) ctx id → CountFits { segCtx (a.mem pdu) ctx with seg := true }
        (rxMisc (a.mem pdu)).segn.toNat (r.task id).pduLen
  | .incompleteTimeout _ | .rplClear => True

section Network

variable {c : Crypto} {a : Arrival} {ivIndex : BitVec 32}

/-- Decryption inside the local copy does not fail. -/
theorem netDecrypt_inside {p : NetPdu} {transPduLen : ℕ} (kv : NetKeyValue)
    (h : 2 + transPduLen + micLen p.ctl ≤ 22) :
    ∃ out, netDecrypt c p transPduLen ivIndex kv = .ok out := by
  have hct : (p.body.take (2 + transPduLen)).length = 2 + transPduLen := by
    rw [List.length_take, p.body_length]
    omega
  have htag : ((p.body.drop (2 + transPduLen)).take (micLen p.ctl)).length = micLen p.ctl := by
    rw [List.length_take, List.length_drop, p.body_length]
    omega
  have hadm : c.aead.admits (netNonce p ivIndex).length (p.body.take (2 + transPduLen)).length
      ((p.body.drop (2 + transPduLen)).take (micLen p.ctl)).length := by
    rw [htag]
    exact netAdmits p (by omega) p.ctl
  have htext := c.aead.decrypt_length (k := kv.encryptionKey) hadm
  rw [hct] at htext
  rw [netDecrypt, if_neg (by omega)]
  obtain ⟨q, hq, -⟩ := writeBody_ok (p := p) (x := (c.aead.decrypt kv.encryptionKey
    (netNonce p ivIndex) (p.body.take (2 + transPduLen))
    ((p.body.drop (2 + transPduLen)).take (micLen p.ctl))).2) (by omega)
  simp only [hq, bind, Except.bind, pure, Except.pure]
  exact ⟨_, rfl⟩

/-- An attempt on a PDU of 29 bytes stays inside its copy. -/
theorem tryKeyValue_full (kv : NetKeyValue) (p : NetPdu) :
    ∃ out, tryKeyValue c 29 ivIndex kv p = .ok out := by
  rw [tryKeyValue]
  have hmic := micLen_cases (netObfuscation c p ivIndex kv).ctl
  obtain ⟨out, hout⟩ := @netDecrypt_inside c ivIndex (netObfuscation c p ivIndex kv)
    ((29 + 512 - 9 - micLen (netObfuscation c p ivIndex kv).ctl) % 256) kv (by omega)
  simp only [hout, bind, Except.bind, pure, Except.pure]
  exact ⟨_, rfl⟩

theorem tryKeyValues_full (kvs : List NetKeyValue) (p : NetPdu) :
    ∃ d, tryKeyValues c 29 ivIndex kvs p = .ok d := by
  induction kvs generalizing p with
  | nil => exact ⟨none, rfl⟩
  | cons kv kvs ih =>
    rw [tryKeyValues]
    by_cases hn : kv.nid = p.nid
    · obtain ⟨⟨ok, d⟩, hd⟩ := @tryKeyValue_full c ivIndex kv p
      rw [if_pos hn, hd]
      cases ok with
      | true => exact ⟨some d, rfl⟩
      | false => exact ih d.pdu
    · rw [if_neg hn]
      exact ih p

theorem trial_full (h : a.pdata.length = 29) : ∃ d, a.trial c = .ok d := by
  rw [Arrival.trial, h]
  exact tryKeyValues_full _ _

/-- A PDU that a key authenticates fits into the local copy. -/
theorem trial_length {d : Decoded} (h : a.trial c = .ok (some d)) :
    a.pdata.length ≤ 29 ∧ 2 + d.transPduLen + micLen d.pdu.ctl = a.pdata.length - 7 := by
  obtain ⟨kv, rest, q, -, -, hd⟩ := tryKeyValues_some h
  obtain ⟨-, -, -, hlen, hle, -⟩ := tryKeyValue_cases hd
  have hmod := Nat.mod_eq_of_lt a.pdata_length
  rw [hmod] at hlen hle
  exact ⟨hle, hlen⟩

theorem finish_toLower {s s' : NetState} {iface : ℕ} {d : Decoded} {pdu : List Byte} {ctx : MsgCtx}
    (h : netReceiveFinish s iface ivIndex (some d) = .ok (s', .toLower pdu ctx)) :
    pdu = d.pdu.pdu.take d.transPduLen ∧ ctx = rxCtx iface ivIndex d := by
  simp only [netReceiveFinish] at h
  by_cases haddr : (!addressIsValid d.pdu.src || !addressIsValid d.pdu.dst) = true
  · rw [if_pos haddr] at h
    cases h
  rw [if_neg haddr] at h
  by_cases hnmc : (!nmcCheck s.nmc ⟨d.pdu.src, d.pdu.seq.setWidth 32⟩) = true
  · rw [if_pos hnmc] at h
    cases h
  rw [if_neg hnmc] at h
  obtain ⟨nmc, -, h⟩ := bind_ok h
  by_cases hmine : isMyAddress s d.pdu.dst = true
  · rw [if_pos hmine] at h
    cases h
    exact ⟨rfl, rfl⟩
  · rw [if_neg hmine] at h
    cases h

theorem delivers_trial {pdu : List Byte} {ctx : MsgCtx} (h : a.Delivers c pdu ctx) :
    a.Taken c ∧ ∃ d, a.trial c = .ok (some d) ∧ pdu = d.pdu.pdu.take d.transPduLen ∧
      ctx.ctl = d.pdu.ctl := by
  obtain ⟨net, h⟩ := h
  simp only [netReceive] at h
  cases hiface : a.iface with
  | none =>
    rw [hiface] at h
    cases h
  | some iface =>
    rw [hiface] at h
    cases hf : iface.ifilter with
    | false =>
      simp only [hf, Bool.not_false, if_true] at h
      cases h
    | true =>
      simp only [hf, Bool.not_true, Bool.false_eq_true, if_false] at h
      obtain ⟨found, htrial, h⟩ := bind_ok h
      cases found with
      | none => cases h
      | some d =>
        refine ⟨⟨⟨iface, hiface, hf⟩, ?_⟩, d, htrial, ?_⟩
        · rw [Arrival.trial, htrial]
          simp
        · obtain ⟨hpdu, hctx⟩ := finish_toLower h
          exact ⟨hpdu, by rw [hctx]; rfl⟩

/-- The length of a transport PDU that comes in full. -/
theorem delivers_length {pdu : List Byte} {ctx : MsgCtx} (hfull : a.pdata.length = 29)
    (h : a.Delivers c pdu ctx) : pdu.length = 4 + segSize ctx.ctl := by
  obtain ⟨-, d, hd, rfl, hctl⟩ := delivers_trial h
  obtain ⟨-, hlen⟩ := trial_length hd
  have hbody := d.pdu.body_length
  rw [List.length_take, NetPdu.pdu, List.length_drop, hctl]
  cases hc : d.pdu.ctl <;>
    simp only [hc, micLen, segSize, if_true, Bool.false_eq_true, if_false] at hlen ⊢ <;> omega

end Network

section Lower

variable {mem : ℕ → Byte} {len : ℕ} {ctx : MsgCtx}

theorem rxSegLen_full (h : len = 4 + segSize ctx.ctl) :
    rxSegLen mem len ctx.ctl = segSize ctx.ctl := by
  rw [rxSegLen, h]
  cases ctx.ctl <;> simp [segSize]

theorem lowerSized_full (h : len = 4 + segSize ctx.ctl) : LowerSized mem len ctx := by
  rw [LowerSized, rxSegLen_full h]
  have hsize : segSize ctx.ctl = 8 ∨ segSize ctx.ctl = 12 := by
    cases ctx.ctl <;> simp [segSize]
  refine ⟨by omega, ?_⟩
  split_ifs
  · omega
  · omega
  · omega

end Lower

section Upper

variable {c : Crypto} {buf : List Byte} {n : ℕ} {ctx : MsgCtx}

theorem upperTransReceive_ok_iff (keys : UpperTrans.Receiver) (data : List Byte) :
    (∃ result, upperTransReceive c keys data ctx = .ok result) ↔
      (if ctx.ctl then 0 else transMicLen ctx) ≤ data.length := by
  rw [upperTransReceive, transMicLen]
  cases ctx.ctl with
  | true => simp
  | false =>
    simp only [Bool.false_eq_true, if_false]
    by_cases hlen : data.length < if ctx.seg && ctx.szmic then 8 else 4
    · rw [if_pos hlen]
      exact iff_of_false (by simp) (by omega)
    · rw [if_neg hlen]
      refine iff_of_true ?_ (by omega)
      rcases UpperTrans.upperTransDecrypt c keys _ _ ctx with ⟨err, out, ctx'⟩
      cases err <;> exact ⟨_, rfl⟩

theorem upperSized_iff : UpperSized c (.upperReceive buf n ctx) ↔
    n ≤ buf.length ∧ (if ctx.ctl then 0 else transMicLen ctx) ≤ n := by
  rw [UpperSized]
  simp only [upperTransReceive_ok_iff]
  refine and_congr_right fun hle => ?_
  rw [List.length_take, min_eq_left hle]
  exact ⟨fun h => h ⟨[], [], 0⟩, fun h _ => h⟩

end Upper

/-- An active task has the memory for its message, and its timers while it misses segments. -/
structure Waits (t : RxTask) : Prop where
  allocated : t.Allocated
  timers : t.notReceivedSeg ≠ 0 → ∃ a b, t.ackTimer = .timer a ∧ t.incompleteTimer = .timer b

/-- The tasks of a receiver as its steps leave them. -/
structure Counting (r : Receiver) : Prop where
  pool : r.Pool
  waits : ∀ id ∈ r.active, Waits (r.task id)
  pduLen : ∀ id, (r.task id).pduLen < 65536

section Tasks

variable {r r' s : Receiver} {env : RxEnv} {mem : ℕ → Byte} {len id maxPduLen : ℕ} {ctx : MsgCtx}
  {ret : Errno} {calls : List RxCall} {out : Option ℕ}

theorem init_counting (rplSize taskNum : ℕ) : Counting (.init rplSize taskNum) where
  pool := ⟨by simpa [Receiver.init] using List.nodup_range, by simp [Receiver.init]⟩
  waits := by simp [Receiver.init]
  pduLen := by simp [Receiver.init, RxTask.zero]

theorem Counting.withRpl (h : Counting r) (rpl : Rpl) : Counting { r with rpl := rpl } :=
  ⟨⟨h.pool.nodup, h.pool.src_inj⟩, h.waits, h.pduLen⟩

theorem Counting.released (h : Counting r) (hid : id ∈ r.idle ∨ id ∈ r.active) :
    Counting (r.released id) := by
  obtain ⟨hpool, -, hold⟩ := h.pool.released hid
  refine ⟨hpool, fun j hj => ?_, fun j => ?_⟩
  · obtain ⟨hj', ht⟩ := hold j hj (by simp)
    rw [ht]
    exact h.waits j hj'
  · by_cases hji : j = id
    · subst hji
      simpa [Receiver.released] using h.pduLen j
    · simpa [Receiver.released, hji] using h.pduLen j

theorem Counting.setTask (h : Counting r) {t : RxTask} (hctx : t.ctx = (r.task id).ctx)
    (hwaits : Waits t) (hlen : t.pduLen < 65536) : Counting (r.setTask id t) := by
  refine ⟨h.pool.setTask hctx, fun j hj => ?_, fun j => ?_⟩ <;> by_cases hji : j = id
  · subst hji
    rwa [setTask_self]
  · rw [setTask_of_ne hji]
    exact h.waits j hj
  · subst hji
    rwa [setTask_self]
  · rw [setTask_of_ne hji]
    exact h.pduLen j

theorem leave_task (r : Receiver) (kind : RxTimer) (j : ℕ) (old : Handle) :
    (r.leave kind j old).task = r.task := by
  cases old <;> rfl

/-- No request changes a count. -/
theorem newTask_pduLen (j : ℕ) :
    ((r.newTask env maxPduLen ctx).1.task j).pduLen = (r.task j).pduLen := by
  have hset : ∀ (s : Receiver) (i : ℕ) (t : RxTask), s.task = r.task →
      t.pduLen = (r.task i).pduLen → ((s.setTask i t).task j).pduLen = (r.task j).pduLen := by
    intro s i t hs ht
    by_cases hji : j = i
    · subst hji
      rw [setTask_self, ht]
    · rw [setTask_of_ne hji, hs]
  rw [newTask]
  cases r.idle with
  | nil => rfl
  | cons id idle =>
    dsimp only
    by_cases hack : (!env.ackTimerOk) = true
    · rw [if_pos hack]
    rw [if_neg hack]
    by_cases hinc : (!env.incompleteTimerOk) = true
    · rw [if_pos hinc]
      exact hset _ id _ (leave_task _ _ _ _) rfl
    rw [if_neg hinc]
    by_cases hmalloc : (!env.mallocOk) = true
    · rw [if_pos hmalloc]
      refine hset _ id _ ?_ rfl
      rw [leave_task, leave_task]
    · rw [if_neg hmalloc]
      refine hset _ id _ ?_ rfl
      dsimp only
      rw [leave_task, leave_task]

theorem request_pduLen (hreq : r.request env maxPduLen ctx = (s, out)) (j : ℕ) :
    (s.task j).pduLen = (r.task j).pduLen := by
  rcases request_cases hreq with ⟨i, -, -, -, rfl⟩ | ⟨i, -, -, -, rfl⟩ | ⟨-, hnew⟩ | ⟨i, -, -, hnew⟩
  · rfl
  · rfl
  · have hkept := @newTask_pduLen r env maxPduLen ctx j
    rwa [hnew] at hkept
  · have hkept := @newTask_pduLen (r.cancel i) env maxPduLen ctx j
    rw [hnew] at hkept
    refine hkept.trans ?_
    by_cases hji : j = i
    · subst hji
      simp [Receiver.cancel]
    · simp [Receiver.cancel, hji]

theorem fillTask_waits (t : RxTask) : Waits (fillTask t env (rxMaxPduLen mem ctx.ctl) ctx) :=
  ⟨fillTask_allocated, fun _ => ⟨_, _, rfl, rfl⟩⟩

theorem Counting.request (h : Counting r)
    (hreq : r.request env (rxMaxPduLen mem ctx.ctl) ctx = (s, out)) : Counting s := by
  obtain ⟨hpool, -, hold, -, hout⟩ := h.pool.request hreq
  refine ⟨hpool, fun j hj => ?_, fun j => request_pduLen hreq j ▸ h.pduLen j⟩
  by_cases hjo : out = some j
  · rcases hout j hjo with ⟨-, rfl⟩ | ⟨-, t, -, -, -, htask⟩
    · exact h.waits j hj
    · rw [htask]
      exact fillTask_waits t
  · obtain ⟨hj', ht⟩ := hold j hj hjo
    rw [ht]
    exact h.waits j hj'

theorem start_timer {a : LowerTransTx.Timer} {h h' : Handle} (ht : h = .timer a)
    (hs : h.start = .ok h') : ∃ b, h' = .timer b := by
  subst ht
  exact ⟨_, (Except.ok.inj hs).symm⟩

theorem Counting.receiveFor (h : Counting r) (hid : id ∈ r.active)
    (hrun : r.receiveFor id mem len ctx = .ok (ret, r', calls)) : Counting r' := by
  obtain ⟨halloc, htimers⟩ := h.waits id hid
  rcases receiveFor_cases hrun with ⟨-, rfl, -⟩ | ⟨-, -, hcases⟩
  · exact h.released (.inr hid)
  rcases hcases with ⟨-, err, rpl, -, rfl, -⟩ | ⟨-, -, rfl, -⟩ | ⟨hbit, hcases⟩
  · exact h.withRpl rpl
  · exact h
  have hne : (r.task id).notReceivedSeg ≠ 0 := fun h0 => hbit (by
    rw [h0]
    exact BitVec.zero_and)
  obtain ⟨a, b, hack, hinc⟩ := htimers hne
  rcases hcases with ⟨-, hs⟩ | ⟨-, hs⟩
  · rcases receiveSingle_cases hs with ⟨rpl, -, rfl, -⟩ |
      ⟨rpl, buf, handle, -, hbuf, -, hin, rfl, -⟩
    · exact (h.withRpl rpl).released (.inr hid)
    · refine (h.withRpl rpl).setTask rfl ⟨⟨?_, halloc.segs⟩, fun hne' => absurd rfl hne'⟩
        (Nat.mod_lt _ (by decide))
      obtain ⟨buf', hbuf', hlen⟩ := halloc.buffer
      obtain rfl := Option.some.inj (hbuf.symm.trans hbuf')
      exact ⟨_, rfl, (splice_length_of_inside (by simpa using hin)).trans hlen⟩
  · obtain ⟨buf, hbuf, hin, hcases⟩ := receiveMulti_cases hs
    obtain ⟨buf', hbuf', hlen⟩ := halloc.buffer
    obtain rfl := Option.some.inj (hbuf.symm.trans hbuf')
    have hinside : Inside (r.task id) mem len ctx.ctl := by
      rw [Inside, ← hlen]
      exact hin
    have hstored := stored_allocated halloc hbuf hinside
    have hmod : (stored (r.task id) buf mem len ctx.ctl).pduLen < 65536 :=
      Nat.mod_lt _ (by decide)
    rcases hcases with ⟨h0, rpl, -, rfl, -⟩ | ⟨h0, rpl, handle, -, -, rfl, -⟩ |
      ⟨-, ack, handle, hstart, hstart', rfl, -⟩
    · have hset : Counting (({ r with rpl := rpl } : Receiver).setTask id
          (stored (r.task id) buf mem len ctx.ctl)) :=
        (h.withRpl rpl).setTask rfl ⟨hstored, fun hne' => absurd h0 hne'⟩ hmod
      exact hset.released (.inr hid)
    · exact (h.withRpl rpl).setTask rfl ⟨⟨hstored.buffer, hstored.segs⟩,
        fun hne' => absurd h0 hne'⟩ hmod
    · obtain ⟨a', ha'⟩ := start_timer hack hstart
      obtain ⟨b', hb'⟩ := start_timer hinc hstart'
      exact h.setTask rfl ⟨⟨hstored.buffer, hstored.segs⟩, fun _ => ⟨a', b', ha', hb'⟩⟩ hmod

theorem Counting.receive (h : Counting r)
    (hrun : r.receive env mem len ctx = .ok (ret, r', calls)) : Counting r' := by
  have hunseg : ∀ {call : RxCall}, r.receiveUnseg call ctx = .ok (ret, r', calls) →
      Counting r' := by
    intro call hc
    obtain ⟨ok, rpl, -, rfl, -⟩ := receiveUnseg_cases hc
    exact h.withRpl rpl
  rw [Receiver.receive] at hrun
  split_ifs at hrun
  · exact hunseg hrun
  · rcases receiveSegMsg_cases hrun with ⟨hreq, -⟩ | ⟨s, id, hreq, hfor⟩
    · exact h.request hreq
    · obtain ⟨⟨-, hid, -⟩, -⟩ := h.pool.granted hreq
      exact (h.request hreq).receiveFor hid hfor
  · exact hunseg hrun

theorem receiveStep_counting {c : Crypto} {e : ReceiveEvent} (h : Counting r)
    (hs : receiveStep c r e = .ok r') : Counting r' := by
  cases e with
  | pdu a =>
    obtain ⟨⟨net, result⟩, -, hs⟩ := bind_ok hs
    cases result with
    | toLower pdu ctx =>
      obtain ⟨⟨ret, t, calls⟩, ht, hs⟩ := bind_ok hs
      cases hs
      exact h.receive ht
    | ret err =>
      cases hs
      exact h
    | relay pdu ctx =>
      cases hs
      exact h
  | incompleteTimeout id =>
    obtain ⟨hid, rfl⟩ := release_ok hs
    exact h.released hid
  | rplClear =>
    cases hs
    exact h.withRpl _

end Tasks

section Messages

variable {c : Crypto} {r r' s : Receiver} {env : RxEnv} {mem : ℕ → Byte} {len id : ℕ}
  {ctx : MsgCtx} {ret : Errno} {calls : List RxCall}

theorem transMicLen_cases (ctx : MsgCtx) : transMicLen ctx = 4 ∨ transMicLen ctx = 8 := by
  rw [transMicLen]
  split_ifs <;> simp

theorem transMicLen_unseg (h : ctx.seg = false) : transMicLen ctx = 4 := by
  simp [transMicLen, h]

/-- The data of one segment covers the TransMIC. -/
theorem transMicLen_le_segSize (ctx : MsgCtx) :
    (if ctx.ctl then 0 else transMicLen ctx) ≤ segSize ctx.ctl := by
  have hmic := transMicLen_cases ctx
  cases ctx.ctl <;> simp only [segSize, if_true, Bool.false_eq_true, if_false] <;> omega

theorem countFits_iff {segn pduLen : ℕ} (hlen : pduLen < 65536) (hsegn : segn < 32) :
    CountFits ctx segn pduLen ↔
      (pduLen + segSize ctx.ctl) % 65536 ≤ (segn + 1) * segSize ctx.ctl ∧
        (if ctx.ctl then 0 else transMicLen ctx) ≤ (pduLen + segSize ctx.ctl) % 65536 := by
  have hmic := transMicLen_cases ctx
  rw [CountFits]
  cases ctx.ctl <;> simp only [segSize, if_true, Bool.false_eq_true, if_false] <;> omega

/-- Of a message of several segments the first that arrives is not the last. -/
theorem fillTask_not_last {t : RxTask} (hsegn : (rxMisc mem).segn ≠ 0) :
    (fillTask t env (rxMaxPduLen mem ctx.ctl) ctx).notReceivedSeg ≠
      bit 32 (rxMisc mem).sego.toNat := by
  intro hlast
  have hpos : 0 < (rxMisc mem).segn.toNat := by
    rw [Nat.pos_iff_ne_zero]
    exact fun hz => hsegn (BitVec.eq_of_toNat_eq hz)
  have honly (j : ℕ) (hj : j ≤ 1) : (rxMisc mem).sego.toNat = j := by
    have hbit := @fillTask_missing t mem ctx env j (by omega)
    rw [hlast, getLsbD_bit (by omega), decide_eq_true (show j ≤ _ by omega), Bool.or_true] at hbit
    exact of_decide_eq_true hbit
  have hzero := honly 0 (by omega)
  have hone := honly 1 (by omega)
  omega

/-- The last segment of a message has the buffer and the count handed up. -/
theorem Completes.upper (hc : Completes r mem ctx id) (h : Counting r)
    (hlen : len = 4 + segSize ctx.ctl) : ∃ r' blockAck buf,
    r.receive env mem len ctx = .ok (.success, r', [.segAck blockAck (segCtx mem ctx),
      .upperReceive buf (((r.task id).pduLen + segSize ctx.ctl) % 65536)
        { segCtx mem ctx with seg := true }]) ∧
      buf.length = ((rxMisc mem).segn.toNat + 1) * segSize ctx.ctl := by
  obtain ⟨hfind, -⟩ := current_some hc.current
  obtain ⟨halloc, htimers⟩ := h.waits id (findTask_some hfind).1
  have hsego : (rxMisc mem).sego.toNat < 32 := (rxMisc mem).sego.isLt
  obtain ⟨hmissing, hclear⟩ := (eq_bit_iff _ hsego).mp hc.last.missing
  obtain ⟨a, b, hack, hinc⟩ := htimers fun h0 => by simp [h0] at hmissing
  obtain ⟨buf, hbuf, hsize⟩ := halloc.buffer
  rw [hc.last.maxPduLen, rxMaxPduLen] at hsize
  have hctl : (segCtx mem ctx).ctl = ctx.ctl := rfl
  have hsegLen : rxSegLen mem len (segCtx mem ctx).ctl = segSize ctx.ctl := rxSegLen_full hlen
  have hin : rxSegLen mem len (segCtx mem ctx).ctl = 0 ∨ (rxMisc mem).sego.toNat *
      segSize (segCtx mem ctx).ctl + rxSegLen mem len (segCtx mem ctx).ctl ≤ buf.length := by
    rw [hsegLen, hctl, hsize, ← Nat.succ_mul]
    exact .inr (Nat.mul_le_mul_right _ (Nat.succ_le_succ hc.last.inside))
  obtain ⟨rpl, hrpl⟩ := hc.last.fresh
  have hcheck : lowerTransRplCheck r.rpl (rplOf (segCtx mem ctx)) = .ok (true, rpl) := hrpl
  rw [Receiver.receive, if_neg hc.segmented.1, if_pos hc.segmented.2, receiveSegMsg]
  dsimp only
  rw [request_of_current hc.current]
  dsimp only
  rw [receiveFor_missing hc.last.agrees hc.last.maxPduLen hmissing, if_neg hc.last.several,
    receiveMulti_eq hbuf hin]
  have hdone : (stored (r.task id) buf mem len (segCtx mem ctx).ctl).notReceivedSeg = 0 := hclear
  have hcount : (stored (r.task id) buf mem len (segCtx mem ctx).ctl).pduLen =
      ((r.task id).pduLen + segSize ctx.ctl) % 65536 := by
    rw [stored, storeTask, hsegLen]
  dsimp only
  rw [if_pos hdone, checked, setTask_rpl, hcheck]
  change ∃ r' blockAck buf, Receiver.complete _ id _ = _ ∧ _
  rw [@complete_eq _ _ _ id a b (by rw [setTask_self]; rfl) (by rw [setTask_self]; exact hack)
    (by rw [setTask_self]; exact hinc)]
  simp only [setTask_self, hcount]
  refine ⟨_, _, _, rfl, ?_⟩
  rw [splice_length_of_inside hin, hsize, hctl]

theorem receiveUnseg_upper {call : RxCall} (hcall : UpperSized c call)
    (hrun : r.receiveUnseg call ctx = .ok (ret, r', calls)) : ∀ x ∈ calls, UpperSized c x := by
  obtain ⟨ok, rpl, -, -, rfl⟩ := receiveUnseg_cases hrun
  cases ok with
  | true =>
    intro x hx
    rw [List.mem_singleton.mp hx]
    exact hcall
  | false => exact fun x hx => absurd hx List.not_mem_nil

theorem unsegCall_sized (hlen : len = 4 + segSize ctx.ctl) :
    UpperSized c (unsegCall mem len ctx) := by
  have hsize : segSize ctx.ctl = 8 ∨ segSize ctx.ctl = 12 := by
    cases ctx.ctl <;> simp [segSize]
  refine upperSized_iff.mpr ⟨by simp [memBytes], ?_⟩
  rw [transMicLen_unseg rfl]
  split_ifs <;> omega

/-- What goes up from a segment that comes for a task, if the count fits of one that it
completes. -/
theorem receiveFor_upper (halloc : (r.task id).Allocated) (hlen : len = 4 + segSize ctx.ctl)
    (hpduLen : (r.task id).pduLen < 65536)
    (hrun : r.receiveFor id mem len ctx = .ok (ret, r', calls))
    (hfits : LastMissing r mem ctx id →
      CountFits { ctx with seg := true } (rxMisc mem).segn.toNat (r.task id).pduLen) :
    ∀ call ∈ calls, UpperSized c call := by
  have hack (blockAck : BitVec 32) : ∀ call ∈ [RxCall.segAck blockAck ctx], UpperSized c call := by
    intro call hcall
    rw [List.mem_singleton.mp hcall]
    trivial
  have hack_cons (blockAck : BitVec 32) {x : RxCall} (hx : UpperSized c x) :
      ∀ call ∈ [RxCall.segAck blockAck ctx, x], UpperSized c call := by
    intro call hcall
    rcases List.mem_cons.mp hcall with rfl | hcall
    · trivial
    · rwa [List.mem_singleton.mp hcall]
  obtain ⟨buf, hbuf, hsize⟩ := halloc.buffer
  rcases receiveFor_cases hrun with ⟨-, -, rfl⟩ | ⟨hm, hmax, hcases⟩
  · exact hack 0
  rw [hmax, rxMaxPduLen] at hsize
  rcases hcases with ⟨-, err, rpl, -, -, rfl⟩ | ⟨-, -, -, rfl⟩ | ⟨hbit, hcases⟩
  · exact hack _
  · exact fun x hx => absurd hx List.not_mem_nil
  rcases hcases with ⟨hone, hs⟩ | ⟨hmany, hs⟩
  · rcases receiveSingle_cases hs with ⟨rpl, -, -, rfl⟩ |
      ⟨rpl, buf', handle, -, hbuf', -, hin, -, rfl⟩
    · exact hack 0
    · obtain rfl := Option.some.inj (hbuf.symm.trans hbuf')
      have hlt := segSize_lt ctx.ctl
      have hn : (len + 65536 - 4) % 65536 = segSize ctx.ctl := by omega
      have hone' : buf.length = segSize ctx.ctl := by
        rw [hsize, hone]
        exact Nat.one_mul _
      refine hack_cons 1 (upperSized_iff.mpr ⟨?_, ?_⟩)
      · rw [splice_length_of_inside (by simpa using hin), hn, hone']
      · rw [hn]
        exact transMicLen_le_segSize { ctx with seg := true }
  · obtain ⟨buf', hbuf', hin, hcases⟩ := receiveMulti_cases hs
    obtain rfl := Option.some.inj (hbuf.symm.trans hbuf')
    rcases hcases with ⟨-, rpl, -, -, rfl⟩ | ⟨h0, rpl, handle, hcheck, -, -, rfl⟩ |
      ⟨-, ack, handle, -, -, -, rfl⟩
    · exact hack 0
    · refine hack_cons _ (upperSized_iff.mpr ?_)
      have hcount : (stored (r.task id) buf mem len ctx.ctl).pduLen =
          ((r.task id).pduLen + segSize ctx.ctl) % 65536 := by
        rw [stored, storeTask, rxSegLen_full hlen]
      rw [rxSegLen_full hlen] at hin
      have hinside : (rxMisc mem).sego.toNat ≤ (rxMisc mem).segn.toNat := by
        have hpos := segSize_pos ctx.ctl
        rw [hsize, ← Nat.succ_mul, Nat.mul_le_mul_right_iff hpos] at hin
        omega
      have hsego : (rxMisc mem).sego.toNat < 32 := (rxMisc mem).sego.isLt
      rw [Ne, and_bit_eq_zero _ hsego, Bool.not_eq_false] at hbit
      have hcounts := (countFits_iff hpduLen (rxMisc mem).segn.isLt).mp (hfits
        ⟨hmany, hm, hmax, (eq_bit_iff _ hsego).mpr ⟨hbit, h0⟩, hinside, rpl, hcheck⟩)
      have hout : ((stored (r.task id) buf mem len ctx.ctl).ppdu.getD []).length =
          ((rxMisc mem).segn.toNat + 1) * segSize ctx.ctl := by
        rw [← hsize]
        exact splice_length_of_inside (by rwa [rxSegLen_full hlen])
      rw [hcount, hout]
      exact hcounts
    · exact fun x hx => absurd hx List.not_mem_nil

/-- A full PDU is received with all lengths of the upper transport layer in order, exactly if the
task that it completes has a count that fits. -/
theorem receive_upper_iff (h : Counting r) (hlen : len = 4 + segSize ctx.ctl) :
    (∀ ret r' calls, r.receive env mem len ctx = .ok (ret, r', calls) →
        ∀ call ∈ calls, UpperSized c call) ↔
      ∀ id, Completes r mem ctx id → CountFits { segCtx mem ctx with seg := true }
        (rxMisc mem).segn.toNat (r.task id).pduLen := by
  constructor
  · intro hsized id hc
    obtain ⟨r', blockAck, buf, hrun, hbuf⟩ := hc.upper h hlen
    have hupper := upperSized_iff.mp (hsized _ _ _ hrun _
      (List.mem_cons_of_mem _ (List.mem_singleton_self _)))
    rw [hbuf] at hupper
    exact (countFits_iff (h.pduLen id) (rxMisc mem).segn.isLt).mpr hupper
  · intro hfits ret r' calls hrun
    rw [Receiver.receive] at hrun
    by_cases hack : (ctx.ctl && (mem 0).extractLsb' 0 7 == 0) = true
    · rw [if_pos hack] at hrun
      exact @receiveUnseg_upper c r r' ctx ret calls (ackCall mem) trivial hrun
    rw [if_neg hack] at hrun
    by_cases hseg : (mem 0).msb = true
    · rw [if_pos hseg] at hrun
      rcases receiveSegMsg_cases hrun with ⟨-, rfl⟩ | ⟨s, id, hreq, hfor⟩
      · intro call hcall
        rw [List.mem_singleton.mp hcall]
        trivial
      · have hs := h.request hreq
        obtain ⟨⟨-, hid, -⟩, hcase⟩ := h.pool.granted hreq
        have hlen' : len = 4 + segSize (segCtx mem ctx).ctl := hlen
        refine receiveFor_upper (hs.waits id hid).allocated hlen' (hs.pduLen id) hfor
          fun hlast => ?_
        rcases hcase with ⟨hcur, rfl⟩ | ⟨-, -, t, -, -, htask⟩
        · exact hfits id ⟨⟨hack, hseg⟩, hcur, hlast⟩
        · have hmissing := hlast.missing
          rw [htask] at hmissing
          exact absurd hmissing (fillTask_not_last hlast.several)
    · rw [if_neg hseg] at hrun
      exact receiveUnseg_upper (unsegCall_sized hlen) hrun

end Messages

section Runs

variable {c : Crypto} {r r' : Receiver} {a : Arrival} {e : ReceiveEvent}

/-- A PDU that is decrypted without a fault, and inside what was received, is full. -/
theorem Arrival.Sized.full (h : a.Sized c r) (htaken : a.Taken c) : a.pdata.length = 29 := by
  obtain ⟨d, hd⟩ := h.decrypted
  cases d with
  | none => exact absurd hd htaken.2
  | some d =>
    obtain ⟨hle, -⟩ := trial_length hd
    exact le_antisymm hle h.copied

theorem sized_of_full (hfull : a.pdata.length = 29) : a.Sized c r ↔
    ∀ pdu ctx ret r' calls, a.Delivers c pdu ctx →
      r.receive a.env (a.mem pdu) pdu.length ctx = .ok (ret, r', calls) →
      ∀ call ∈ calls, UpperSized c call := by
  refine ⟨fun h => h.upper, fun h => ⟨hfull.ge, fun ctl => ?_, trial_full hfull, ?_, h⟩⟩
  · have hmic := micLen_cases ctl
    omega
  · exact fun pdu ctx hd => lowerSized_full (delivers_length hfull hd)

theorem sizedStep_iff (h : Counting r) : SizedStep c r e ↔ FullStep c r e := by
  cases e with
  | pdu a =>
    refine imp_congr_right fun htaken => ?_
    constructor
    · intro hsized
      have hfull := hsized.full htaken
      refine ⟨hfull, fun pdu ctx hd => ?_⟩
      have hiff := @receive_upper_iff c r a.env (a.mem pdu) _ ctx h (delivers_length hfull hd)
      exact hiff.mp fun ret r' calls hrun => hsized.upper pdu ctx ret r' calls hd hrun
    · rintro ⟨hfull, hfits⟩
      refine (sized_of_full hfull).mpr fun pdu ctx ret r' calls hd hrun => ?_
      have hlen := delivers_length hfull hd
      exact (receive_upper_iff h hlen).mpr (hfits pdu ctx hd) ret r' calls hrun
  | incompleteTimeout id => exact Iff.rfl
  | rplClear => exact Iff.rfl

/-- On reception every length is in order and every read inside the bytes received, in every run
in which each PDU that a key takes is full and the tasks count the bytes of their own message,
and in no other. -/
theorem receive_sizes_iff (c : Crypto) (rplSize taskNum : ℕ) (es : List ReceiveEvent) :
    RunAll (receiveStep c) (SizedStep c) (.init rplSize taskNum) es ↔
      RunAll (receiveStep c) (FullStep c) (.init rplSize taskNum) es :=
  RunAll.iff_of_invariant (fun _ _ _ h _ hs => receiveStep_counting h hs)
    (fun _ _ h => sizedStep_iff h) (init_counting rplSize taskNum)

end Runs

/-- The only key of the node, and the context its neighbour sends with. -/
def shortKey : NetKeyValue := keyValueOf 5 (List.replicate 16 3)

def shortCtx : MsgCtx :=
  { MsgCtx.zero with src := 1, dst := 2, seq := 7, ivIndex := 9, pnetKey := some shortKey }

/-- An access message of which there is the first byte only, as `meshx_net_send` packs it. -/
def shortPdu : List Byte := [133, 3, 3, 3, 4, 3, 2, 2, 1, 3, 11, 1, 3, 3]

def shortArrival : Arrival where
  net := receiver 10 [⟨.normal, 0, shortKey, shortKey⟩]
  iface := some ⟨1, .adv, some .adv, true, fun _ _ => true⟩
  pdata := shortPdu
  misc := []
  beyond _ := 0
  env := ⟨true, true, true, fun _ => 0⟩
  pdata_length := by decide

/-- The PDU is authentic, and its message of no bytes goes up to be rid of a TransMIC. -/
theorem shortArrival_delivers :
    netPack maskCrypto shortKey shortCtx [0] = .ok shortPdu ∧
      shortArrival.Delivers maskCrypto [0] (receivedCtx shortCtx shortKey 1) ∧
      ∃ r', (Receiver.init 8 1).receive shortArrival.env (shortArrival.mem [0]) 1
          (receivedCtx shortCtx shortKey 1) = .ok (.success, r', [.upperReceive [] 0
            { receivedCtx shortCtx shortKey 1 with seqAuth := 7 }]) := by
  refine ⟨rfl, ?_, ?_⟩
  · obtain ⟨⟨net, result⟩, hnet, hresult⟩ := observe (f := Prod.snd)
      (x := netReceive maskCrypto shortArrival.net shortArrival.iface shortArrival.pdata
        shortArrival.misc) (b := .toLower [0] (receivedCtx shortCtx shortKey 1))
      (by decide +kernel)
    exact ⟨net, by rw [hnet, ← hresult]⟩
  · obtain ⟨⟨ret, r', calls⟩, hrun, hresult⟩ := observe (f := fun o => (o.1, o.2.2))
      (x := (Receiver.init 8 1).receive shortArrival.env (shortArrival.mem [0]) 1
        (receivedCtx shortCtx shortKey 1)) (b := (.success, [.upperReceive [] 0
          { receivedCtx shortCtx shortKey 1 with seqAuth := 7 }])) (by decide +kernel)
    cases hresult
    exact ⟨r', hrun⟩

/-- Four bytes are subtracted from a length of zero. -/
theorem receive_sizes_short :
    ¬ RunAll (receiveStep maskCrypto) (SizedStep maskCrypto) (.init 8 1) [.pdu shortArrival] := by
  intro h
  obtain ⟨-, hdelivers, r', hrun⟩ := shortArrival_delivers
  obtain ⟨htaken, -⟩ := delivers_trial hdelivers
  have hupper := (h.1 htaken).upper _ _ _ _ _ hdelivers hrun _ (List.mem_singleton_self _)
  have hmic := (upperSized_iff.mp hupper).2
  revert hmic
  decide

end Meshx.ReceiveSizes
