import Meshx.SentSegments

/-! The sending side of one node and the receiving side of another, over a network that loses,
repeats, delays and reorders what it carries: a message that the sender finishes as acknowledged
has been handed to the upper layer of the receiver. -/
namespace Meshx.AckedDelivery

open Lib IvIndex Segment Sequence LowerTransTx LowerTransRx
open Receiver (ackCall)

/-- A sender, a receiver, and the messages that the sender was asked to send in segments. -/
structure Hop where
  sender : Sender
  rx : Rx
  asked : List SegMsg

/-- What happens on either side. A segment ack of the receiver comes to the sender as the bytes
of its PDU, for the context that the receiver made it for. -/
inductive HopEvent
  | sender (e : SchedEvent)
  | rx (e : RxEvent)
  | ack (env : TxEnv) (mem : ℕ → Byte) (blockAck : BitVec 32) (ctx : MsgCtx)

def Hop.init (elementNum txTaskNum rplSize rxTaskNum : ℕ) (ivIndex : BitVec 32) : Hop :=
  ⟨.init elementNum txTaskNum ivIndex, .init rplSize rxTaskNum ivIndex, []⟩

def Hop.act (conf : TxConf) (h : Hop) (e : SchedEvent) : Except Fault Hop := do
  let sender ← schedStep conf h.sender e
  return { h with sender := sender, asked := e.message?.toList ++ h.asked }

/-- A call that the receiving side of the sender's node makes for a PDU from `src`. -/
def Hop.call (conf : TxConf) (h : Hop) (env : TxEnv) (src : BitVec 16) :
    RxCall → Except Fault Hop
  | .recvBlockAck zero blockAck => h.act conf (.ack env src zero blockAck)
  | .segAck .. | .upperReceive .. => .ok h

def hopStep (conf : TxConf) (h : Hop) : HopEvent → Except Fault Hop
  | .sender e => h.act conf e
  | .rx e => do
    let rx ← rxStep h.rx e
    return { h with rx := rx }
  | .ack env mem _ ctx => h.call conf env ctx.dst (ackCall mem)

/-- A message has a valid source and at most 31 segments. -/
def Fits : SchedEvent → Prop
  | .send _ pdu ctx => addressIsValid ctx.src = true ∧ pdu.length ≤ maxSegSize * segSize ctx.ctl
  | .ack .. | .timeout .. | .elsewhere .. => True

/-- The source sends messages of lengths that fit, each under a number of its own. -/
def SendsNew (own : BitVec 16 → Prop) (h : Hop) (e : SchedEvent) : Prop :=
  Fits e ∧ ∀ m ∈ e.message?, own m.ctx.src ∧ ∀ m' ∈ h.asked, ¬ m'.Names m.ctx

/-- A segment from an address of the sender is one that it has sent, and a task that is taken
over for it has no segment left that its message does not have. -/
def CarriesSent (own : BitVec 16 → Prop) (h : Hop) : RxEvent → Prop
  | .receive env mem len ctx ivi => (mem 0).msb = true → own ctx.src →
    (∃ call ∈ h.sender.sent, Carries call (.receive env mem len ctx ivi) ∧
      Net.rxIvIndex h.rx.iv.ivIndex ivi = call.ctx.ivIndex) ∧
    ∀ id ∈ h.rx.rx.reused (segCtx mem (netCtx h.rx.iv ctx ivi)),
      (h.rx.rx.task id).Clean (rxMisc mem).segn.toNat
  | .ackTimeout id => id ∈ h.rx.rx.active
  | .incompleteTimeout _ | .ivUpdate .. | .ivTick _ | .ivTestMode _ | .ivOperateTime _
  | .sendFinished => True

/-- The bytes of an ack that the receiver has sent, which comes while no task of another
message has its SeqZero. -/
structure CarriesAck (own : BitVec 16 → Prop) (h : Hop) (mem : ℕ → Byte) (blockAck : BitVec 32)
    (ctx : MsgCtx) : Prop where
  own : own ctx.src
  made : .segAck blockAck ctx ∈ h.rx.calls
  bytes : memBytes mem 1 6 = Sender.segAckPdu (seqZero ctx.seqAuth) blockAck
  alone : ∀ id ∈ h.sender.active, seqZero (h.sender.task id).ctx.seqAuth = seqZero ctx.seqAuth →
    (h.sender.task id).ctx.src = ctx.src ∧
      lowerTransSeqAuth (h.sender.task id).ctx = lowerTransSeqAuth ctx

/-- The network makes no PDU up, and no ack timer is left of a task that has been released. -/
def Genuine (own : BitVec 16 → Prop) (h : Hop) : HopEvent → Prop
  | .sender e => SendsNew own h e
  | .rx e => CarriesSent own h e
  | .ack _ mem blockAck ctx => CarriesAck own h mem blockAck ctx

section Decidable

variable (own : BitVec 16 → Prop) [DecidablePred own] (h : Hop)

instance : (e : SchedEvent) → Decidable (Fits e)
  | .send _ _ _ => inferInstanceAs (Decidable (_ ∧ _))
  | .ack .. | .timeout .. | .elsewhere .. => isTrue trivial

instance (e : SchedEvent) : Decidable (SendsNew own h e) := inferInstanceAs (Decidable (_ ∧ _))

instance (t : RxTask) (segn : ℕ) : Decidable (t.Clean segn) :=
  inferInstanceAs (Decidable (∀ j < 32, _ → _))

instance (call : NetCall) (env : RxEnv) (mem : ℕ → Byte) (len : ℕ) (ctx : MsgCtx) (ivi : Bool) :
    Decidable (Carries call (.receive env mem len ctx ivi)) :=
  inferInstanceAs (Decidable (_ ∧ _ ∧ _ ∧ _ ∧ _))

instance : (e : RxEvent) → Decidable (CarriesSent own h e)
  | .receive _ _ _ _ _ => inferInstanceAs (Decidable (_ → _ → _ ∧ _))
  | .ackTimeout _ => inferInstanceAs (Decidable (_ ∈ h.rx.rx.active))
  | .incompleteTimeout _ | .ivUpdate .. | .ivTick _ | .ivTestMode _ | .ivOperateTime _
  | .sendFinished => isTrue trivial

instance (mem : ℕ → Byte) (blockAck : BitVec 32) (ctx : MsgCtx) :
    Decidable (CarriesAck own h mem blockAck ctx) :=
  decidable_of_iff (own ctx.src ∧ _ ∧ _ ∧ _)
    ⟨fun ⟨hown, made, bytes, alone⟩ => ⟨hown, made, bytes, alone⟩,
      fun hc => ⟨hc.own, hc.made, hc.bytes, hc.alone⟩⟩

instance : (e : HopEvent) → Decidable (Genuine own h e)
  | .sender e => inferInstanceAs (Decidable (SendsNew own h e))
  | .rx e => inferInstanceAs (Decidable (CarriesSent own h e))
  | .ack _ mem blockAck ctx => inferInstanceAs (Decidable (CarriesAck own h mem blockAck ctx))

end Decidable

/-- A message that an ack finishes has been handed up by the receiver. -/
def FinishesHandedUp (h : Hop) (e : HopEvent) : Prop :=
  ∀ env mem b ctx, e = .ack env mem b ctx → ∀ zero blockAck,
    ackCall mem = .recvBlockAck zero blockAck →
    ∀ id, FullyAcked h.sender (.ack env ctx.dst zero blockAck) id →
    ∃ m ∈ h.asked, (h.sender.task id).Holds m ∧ h.rx.HandedUp m

/-- The context is one of a message that was asked for, if it is from the sender. -/
def Hop.Known (own : BitVec 16 → Prop) (h : Hop) (ctx : MsgCtx) : Prop :=
  own ctx.src → ∃ m ∈ h.asked, m.Names ctx

/-- The sender sends segments of what it was asked for, and the receiver acknowledges what it
has. -/
structure Hop.Honest (own : BitVec 16 → Prop) (txTaskNum : ℕ) (h : Hop) : Prop where
  tidy : Tidy txTaskNum h.sender
  carrying : h.sender.Carrying h.asked
  asked_own : ∀ m ∈ h.asked, own m.ctx.src
  asked_inj : ∀ m ∈ h.asked, ∀ m' ∈ h.asked, m'.Names m.ctx → m' = m
  pool : h.rx.rx.Pool
  sound : ∀ m ∈ h.asked, h.rx.Sound m
  contexts : h.rx.Contexts (h.Known own)

variable {own : BitVec 16 → Prop} {txTaskNum : ℕ} {conf : TxConf} {h h' : Hop} {e : HopEvent}
  {s : SchedEvent} {mem : ℕ → Byte} {m m' : SegMsg} {ctx : MsgCtx} {zero : BitVec 13}
  {blockAck : BitVec 32}

section Bytes

/-- The ack comes out of its bytes. -/
theorem ackCall_segAckPdu (hbytes : memBytes mem 1 6 = Sender.segAckPdu zero blockAck) :
    ackCall mem = .recvBlockAck zero blockAck := by
  have hzero : (mem 1 ++ mem 2 : BitVec 16) = 0#1 ++ zero ++ 0#2 := by
    rw [← readBe16_be16 (0#1 ++ zero ++ 0#2) (be32 blockAck)]
    change _ = readBe16 (Sender.segAckPdu zero blockAck)
    rw [← hbytes]
    rfl
  have hblock : (mem 3 ++ mem 4 ++ mem 5 ++ mem 6 : BitVec 32) = blockAck := by
    rw [← readBe32_be32 blockAck []]
    change _ = readBe32 ((Sender.segAckPdu zero blockAck).drop 2 ++ [])
    rw [← hbytes]
    rfl
  rw [ackCall, hzero, hblock]
  congr 1
  ext i hi
  simp only [BitVec.getElem_extractLsb', BitVec.getLsbD_append]
  grind

end Bytes

section Messages

theorem names_symm (h : m'.Names m.ctx) : m.Names m'.ctx := ⟨h.1.symm, h.2.symm⟩

theorem names_trans {m₁ : SegMsg} (h : m.Names ctx) (h₁ : m₁.Names ctx) : m.Names m₁.ctx :=
  h.congr h₁.1.symm h₁.2.symm

/-- The task of a message has the number of the message. -/
theorem holds_names {t : TxTask} (h : t.Holds m) : m.Names t.ctx := by
  rw [h.ctx]
  exact ⟨rfl, rfl⟩

theorem Hop.Known.mono (hk : h.Known own ctx) (hasked : ∀ m ∈ h.asked, m ∈ h'.asked) :
    h'.Known own ctx := by
  intro hown
  obtain ⟨m, hm, hname⟩ := hk hown
  exact ⟨m, hasked m hm, hname⟩

/-- No task and no ack of the receiver is of a message that is asked for under a new number. -/
theorem Hop.Honest.sound_new (hh : h.Honest own txTaskNum) (hown : own m.ctx.src)
    (hnew : ∀ m' ∈ h.asked, ¬ m'.Names m.ctx) : h.rx.Sound m := by
  have hunknown (ctx : MsgCtx) (hknown : h.Known own ctx) : ¬ m.Names ctx := by
    intro hname
    obtain ⟨m', hm', hname'⟩ := hknown (hname.1 ▸ hown)
    exact hnew m' hm' (names_trans hname' hname)
  exact ⟨hh.pool, fun id hid hname => absurd hname (hunknown _ (hh.contexts.task id hid)),
    fun ctx hack hname => absurd hname (hunknown _ (hh.contexts.acks _ ctx hack))⟩

end Messages

section Steps

theorem Hop.Honest.act (hh : h.Honest own txTaskNum) (hnew : SendsNew own h s)
    (hs : h.act conf s = .ok h') : h'.Honest own txTaskNum := by
  obtain ⟨sender, hrun, hret⟩ := bind_ok hs
  cases hret
  have hmem {m : SegMsg} (hm : m ∈ s.message?.toList ++ h.asked) :
      m ∈ s.message? ∨ m ∈ h.asked := by
    simpa using hm
  constructor
  case tidy => exact hh.tidy.step hrun
  case carrying =>
    refine hh.carrying.step ?_ hrun
    rintro env pdu ctx rfl
    exact hnew.1
  case pool => exact hh.pool
  case asked_own => exact fun m hm => (hmem hm).elim (fun hm => (hnew.2 m hm).1) (hh.asked_own m)
  case asked_inj =>
    intro m hm m' hm' hname
    rcases hmem hm with hm | hm <;> rcases hmem hm' with hm' | hm'
    · exact Option.mem_unique hm' hm
    · exact absurd hname ((hnew.2 m hm).2 m' hm')
    · exact absurd (names_symm hname) ((hnew.2 m' hm').2 m hm)
    · exact hh.asked_inj m hm m' hm' hname
  case sound =>
    intro m hm
    rcases hmem hm with hm | hm
    · exact hh.sound_new (hnew.2 m hm).1 (hnew.2 m hm).2
    · exact hh.sound m hm
  case contexts =>
    have hold (ctx : MsgCtx) (hk : h.Known own ctx) :
        Hop.Known own { h with sender := sender, asked := s.message?.toList ++ h.asked } ctx :=
      hk.mono fun m hm => List.mem_append_right _ hm
    exact ⟨fun id hid => hold _ (hh.contexts.task id hid),
      fun b ctx hack => hold ctx (hh.contexts.acks b ctx hack)⟩

theorem Hop.Honest.call {env : TxEnv} {src : BitVec 16} {call : RxCall}
    (hh : h.Honest own txTaskNum) (hs : h.call conf env src call = .ok h') :
    h'.Honest own txTaskNum := by
  cases call with
  | recvBlockAck zero blockAck =>
    have hnone : (SchedEvent.ack env src zero blockAck).message? = none := rfl
    have hnew : SendsNew own h (.ack env src zero blockAck) := ⟨trivial, by simp [hnone]⟩
    exact hh.act hnew hs
  | segAck blockAck ctx =>
    cases hs
    exact hh
  | upperReceive buf pduLen ctx =>
    cases hs
    exact hh

/-- A segment that comes from the sender is of a message that it was asked for, and it says so. -/
theorem Hop.Honest.brought {env : RxEnv} {len : ℕ} {ivi : Bool} (hh : h.Honest own txTaskNum)
    (hsent : CarriesSent own h (.receive env mem len ctx ivi)) (hseg : (mem 0).msb = true)
    (hown : own ctx.src) : ∃ m ∈ h.asked, ∃ i call, m.Segment i call ∧
      Carries call (.receive env mem len ctx ivi) ∧
      Net.rxIvIndex h.rx.iv.ivIndex ivi = m.ctx.ivIndex ∧
      m.Reading i mem len ∧ m.Reads (segCtx mem (netCtx h.rx.iv ctx ivi)) := by
  obtain ⟨⟨call, hcall, hcarries, hiv⟩, -⟩ := hsent hseg hown
  have hpdu : call.Segmented := by
    intro b hb
    rw [← hcarries.1] at hb
    cases len with
    | zero => cases hb
    | succ len =>
      rw [memBytes, List.range_succ_eq_map] at hb
      cases hb
      exact hseg
  obtain ⟨m, hm, i, hsegment⟩ := hh.carrying.sent call hcall hpdu
  have hivm : Net.rxIvIndex h.rx.iv.ivIndex ivi = m.ctx.ivIndex := by
    rw [hiv, hsegment.ctx]
  obtain ⟨hr, hreads⟩ := carried_segment hsegment hcarries hivm
  exact ⟨m, hm, i, call, hsegment, hcarries, hivm, hr, hreads⟩

/-- What the network brings is fair to every message that was asked for. -/
theorem Hop.Honest.fair {e : RxEvent} (hh : h.Honest own txTaskNum) (hsent : CarriesSent own h e)
    (hm : m ∈ h.asked) : m.Fair h.rx e := by
  cases e with
  | receive env mem len ctx ivi =>
    intro hseg hname
    have hown : own ctx.src := by
      have hsrc : ctx.src = m.ctx.src := hname.1
      rw [hsrc]
      exact hh.asked_own m hm
    obtain ⟨m', hm', i, call, hsegment, hcarries, hiv, hr, hreads⟩ := hh.brought hsent hseg hown
    obtain rfl := hh.asked_inj m hm m' hm' (names_trans hreads.names hname)
    refine ⟨hiv, ⟨i, call, hsegment, hcarries⟩, fun id hid => ?_⟩
    have hclean := (hsent hseg hown).2 id (by
      rw [Option.mem_def, ← hid, Receiver.reused, Receiver.reused, hreads.src, hreads.seqAuth_eq])
    rwa [hr.segn] at hclean
  | ackTimeout id => exact hsent
  | incompleteTimeout _ | ivUpdate _ _ _ | ivTick _ | ivTestMode _ | ivOperateTime _
  | sendFinished => trivial

theorem Hop.Honest.rxStep {e : RxEvent} {rx : Rx} (hh : h.Honest own txTaskNum)
    (hsent : CarriesSent own h e) (hs : rxStep h.rx e = .ok rx) :
    Hop.Honest own txTaskNum { h with rx := rx } where
  tidy := hh.tidy
  carrying := hh.carrying
  asked_own := hh.asked_own
  asked_inj := hh.asked_inj
  pool := rxStep_pool hh.pool hs
  sound m hm := (hh.sound m hm).step (hh.fair hsent hm) hs
  contexts := by
    refine hh.contexts.step hh.pool ?_ ?_ hs
    · rintro env mem len ctx ivi rfl hseg hown
      obtain ⟨m, hm, -, -, -, -, -, -, hreads⟩ := hh.brought hsent hseg hown
      exact ⟨m, hm, hreads.names⟩
    · rintro id rfl
      exact hsent

theorem Hop.Honest.step (hh : h.Honest own txTaskNum) (hgen : Genuine own h e)
    (hs : hopStep conf h e = .ok h') : h'.Honest own txTaskNum := by
  cases e with
  | sender e => exact hh.act hgen hs
  | rx e =>
    obtain ⟨rx, hrun, hret⟩ := bind_ok hs
    cases hret
    exact hh.rxStep hgen hrun
  | ack env mem blockAck ctx =>
    have hcall : h.call conf env ctx.dst (ackCall mem) = .ok h' := hs
    exact hh.call hcall

theorem init_honest (own : BitVec 16 → Prop) (elementNum txTaskNum rplSize rxTaskNum : ℕ)
    (ivIndex : BitVec 32) : Hop.Honest own txTaskNum
      (.init elementNum txTaskNum rplSize rxTaskNum ivIndex) where
  tidy := init_tidy elementNum txTaskNum ivIndex
  carrying := Sender.init_carrying elementNum txTaskNum ivIndex
  asked_own := by simp [Hop.init]
  asked_inj := by simp [Hop.init]
  pool := (init_allWhole rplSize rxTaskNum ivIndex).pool
  sound := by simp [Hop.init]
  contexts := ⟨by simp [Hop.init, Rx.init, Receiver.init], by simp [Hop.init, Rx.init]⟩

end Steps

/-- The ack that finishes a task is of the message of the task. -/
theorem Hop.Honest.finishesHandedUp (hh : h.Honest own txTaskNum) (hgen : Genuine own h e) :
    FinishesHandedUp h e := by
  rintro env mem b ctx rfl zero blockAck hcall id ⟨env', src, zero', ack, hevent, hfound, hall⟩
  cases hevent
  cases hcall.symm.trans (ackCall_segAckPdu hgen.bytes)
  obtain ⟨hid, hzero⟩ := ackedTask_some hfound
  obtain ⟨m, hm, hholds⟩ := hh.carrying.tasks id (hh.tidy.orderly.loaded id (.inl hid))
  obtain ⟨hsrc, hseq⟩ := hgen.alone id hid hzero
  have hname := (holds_names hholds).congr hsrc.symm hseq.symm
  refine ⟨m, hm, hholds, (hh.sound m hm).acks ctx ?_ hname⟩
  rw [← hholds.segBits, hall]
  exact hgen.made

/-- A message that the sender finishes as acknowledged has been handed up by the receiver: in every
run in which the source is a valid address and sends messages of at most 31 segments, each under
a number of its own, its segments are those it has sent, a task taken over for one has no segment
left that its message does not have, an ack timeout names an active task, and an ack comes while
no task of another message has its SeqZero. -/
theorem finished_handed_up (own : BitVec 16 → Prop) (conf : TxConf)
    (elementNum txTaskNum rplSize rxTaskNum : ℕ) (ivIndex : BitVec 32) (es : List HopEvent)
    (hgen : RunAll (hopStep conf) (Genuine own)
      (.init elementNum txTaskNum rplSize rxTaskNum ivIndex) es) :
    RunAll (hopStep conf) FinishesHandedUp
      (.init elementNum txTaskNum rplSize rxTaskNum ivIndex) es :=
  RunAll.imp_of_invariant (fun _ _ _ hh hg hs => Hop.Honest.step hh hg hs)
    (fun _ _ hh hg => hh.finishesHandedUp hg)
    (init_honest own elementNum txTaskNum rplSize rxTaskNum ivIndex) hgen

/-- A message of two segments from the element 2 to the element 1. Its second segment comes
first, and its first segment twice. -/
def twoSegments : List HopEvent :=
  [.sender (.send ⟨true, true, fun _ => true, fun _ => true, .success, fun _ => 0⟩
      (List.replicate 13 5) { MsgCtx.zero with src := 2, dst := 1, seg := true }),
    .rx (plainPdu [0x80, 0x00, 0x00, 0x21, 5] 1),
    .rx (plainPdu ([0x80, 0x00, 0x00, 0x01] ++ List.replicate 12 5) 0),
    .rx (plainPdu ([0x80, 0x00, 0x00, 0x01] ++ List.replicate 12 5) 0)]

def fullAck : HopEvent :=
  .ack ⟨true, true, fun _ => true, fun _ => true, .success, fun _ => 0⟩
    (byteAt (0x00 :: Sender.segAckPdu 0 3)) 3 { MsgCtx.zero with src := 2, dst := 1 }

theorem twoSegments_handed_up : ∃ h, run (hopStep ⟨2, 5, 3⟩) (.init 1 1 8 1 0) twoSegments = .ok h ∧
    ∃ m ∈ h.asked, (h.sender.task 0).Holds m ∧ h.rx.HandedUp m := by
  have hall := finished_handed_up (· = 2) ⟨2, 5, 3⟩ 1 1 8 1 0 (twoSegments ++ [fullAck])
    (by decide +kernel)
  obtain ⟨h, hrun, hobs⟩ : ∃ h, run (hopStep ⟨2, 5, 3⟩) (.init 1 1 8 1 0) twoSegments = .ok h ∧
      (h.sender.ackedTask 0, (h.sender.task 0).segBits) = (some 0, 3) := observe (by decide +kernel)
  obtain ⟨hfound, hbits⟩ := Prod.mk.inj hobs
  exact ⟨h, hrun, hall.last hrun _ _ _ _ rfl 0 3 rfl 0 ⟨_, _, _, _, rfl, hfound, hbits⟩⟩

end Meshx.AckedDelivery
