import Meshx.IvPending

/-! A transition back to the normal state that is put off and made at the end of a segmented
transmission, against the same transition made at once. -/
namespace Meshx.IvDeferred

open Lib Security Sequence IvIndex Replay LowerTransTx

structure Node where
  sender : Sender
  rpl : Rpl

/-- The events of the sending side, and a received message checked against the replay list. -/
inductive NodeEvent
  | tx (e : TxEvent)
  | replay (entry : RplEntry)

def clears (s : Sender) : TxEvent → Bool
  | .ivUpdate ivIndex state => (ivStep s.iv (.update ivIndex state s.busy)).2
  | .ivTick => (ivStep s.iv (.tick s.busy)).2
  | _ => false

def nodeStep (c : Crypto) (conf : TxConf) (n : Node) : NodeEvent → Except Fault Node
  | .tx e => do
    let s ← txStep c conf n.sender e
    return ⟨s, if clears n.sender e then rplClear n.rpl else n.rpl⟩
  | .replay entry => do
    let (_, rpl) ← lowerTransRplCheck n.rpl entry
    return { n with rpl := rpl }

/-- A beacon or a tick that goes back to the normal state and is put off by a segmented
transmission. -/
def Deferred (s : Sender) : TxEvent → Prop
  | .ivUpdate ivIndex state => s.busy = true ∧ ivRefused s.iv ivIndex state = none ∧
      ivDistance s.iv ivIndex state = 1 ∧ state = .normal
  | .ivTick => s.busy = true ∧ tick144H ≤ s.iv.count.tickTime ∧ s.iv.state = .inProgress
  | _ => False

namespace Node

def carryOut (n : Node) (id : ℕ) : Except Fault Node := do
  let s ← n.sender.carryOut id
  return { n with sender := s }

/-- The transition made at once at the same moment, in a node whose pending flag is as given. -/
def immediate (n : Node) (pending : Bool) (id : ℕ) : Except Fault Node := do
  let s ← n.sender.release id
  let (iv, clear) := backToNormal { s.iv with transitPending := pending } false
  return ⟨s.ivMoved iv clear, if clear then rplClear n.rpl else n.rpl⟩

end Node

/-- The two transitions leave the same, and no later run can tell them apart by the IV index
module. -/
structure Agree (c : Crypto) (conf : TxConf) (d i : Node) : Prop where
  state : d.sender.iv.state = i.sender.iv.state
  tickTime : d.sender.iv.tickTime = i.sender.iv.tickTime
  seqArray : d.sender.seqArray = i.sender.seqArray
  rpl : d.rpl = i.rpl
  pending : d.sender.iv.transitPending = i.sender.iv.transitPending
  later : ∀ es d', run (nodeStep c conf) d es = .ok d' →
    ∃ i', run (nodeStep c conf) i es = .ok i' ∧ i'.sender.iv = d'.sender.iv

variable {c : Crypto} {conf : TxConf} {n m d i : Node} {e : TxEvent} {es : List NodeEvent} {id : ℕ}

theorem release_frame {s s' : Sender} (h : s.release id = .ok s') :
    s'.iv = s.iv ∧ s'.seqArray = s.seqArray := by
  unfold Sender.release at h
  split_ifs at h
  cases h
  exact ⟨rfl, rfl⟩

theorem made_cases {pending : Bool} (hd : m.carryOut id = .ok d)
    (hi : m.immediate pending id = .ok i) : ∃ s, m.sender.release id = .ok s ∧
      d = ⟨{ s with iv := ivPendingNormal m.sender.iv }, m.rpl⟩ ∧
      i = ⟨{ s with
        iv := { m.sender.iv with transitPending := pending, state := .normal, tickTime := 0 }
        seqArray := seqClear m.sender.seqArray }, rplClear m.rpl⟩ := by
  obtain ⟨u, hu, hret⟩ := bind_ok hd
  cases hret
  obtain ⟨s, hs, hret⟩ := bind_ok hu
  cases hret
  obtain ⟨t, ht, hret⟩ := bind_ok hi
  cases hret
  obtain rfl : s = t := Except.ok.inj (hs.symm.trans ht)
  obtain ⟨hiv, hseq⟩ := release_frame hs
  refine ⟨s, hs, by rw [hiv], ?_⟩
  rw [← hiv, ← hseq]
  rfl

/-- A run in which an event at node `n` puts the transition off and the end of a transmission
at node `m` makes it. -/
structure Carried (c : Crypto) (conf : TxConf) (n m d : Node) (id : ℕ) : Prop where
  run : ∃ e es, Deferred n.sender e ∧ run (nodeStep c conf) n (.tx e :: es) = .ok m
  progress : m.sender.iv.state = .inProgress
  carryOut : m.carryOut id = .ok d
  normal : d.sender.iv.state = .normal

/-- A transition that was put off and is made by the end of a transmission agrees with the
one made at once exactly if the pending flag was set before already, the counter is at zero,
and the sequence numbers and the replay list are clear: it only changes the state. -/
theorem deferred_agree_iff (h : Carried c conf n m d id)
    (hi : m.immediate n.sender.iv.transitPending id = .ok i) :
    Agree c conf d i ↔ n.sender.iv.transitPending = true ∧ m.sender.iv.tickTime = 0 ∧
      m.sender.seqArray = seqClear m.sender.seqArray ∧ m.rpl = rplClear m.rpl := by
  obtain ⟨-, hprogress, hd, hnormal⟩ := h
  obtain ⟨s, hs, rfl, rfl⟩ := made_cases hd hi
  obtain ⟨-, hseq⟩ := release_frame hs
  have hpending : m.sender.iv.transitPending = true := by
    by_contra hc
    simp [ivPendingNormal, hc, hprogress] at hnormal
  have hmade : ivPendingNormal m.sender.iv = { m.sender.iv with state := .normal } :=
    if_pos hpending
  rw [hmade]
  constructor
  · rintro ⟨-, htick, hclear, hrpl, hflag, -⟩
    exact ⟨hflag.symm.trans hpending, htick, hseq ▸ hclear, hrpl⟩
  · rintro ⟨hflag, htick, hclear, hrpl⟩
    have hiv : { m.sender.iv with state := IvState.normal } = { m.sender.iv with
        transitPending := n.sender.iv.transitPending, state := .normal, tickTime := 0 } := by
      rw [hflag, ← hpending, ← htick]
    rw [hiv, ← hrpl]
    refine ⟨rfl, rfl, hseq.trans hclear, rfl, rfl, fun es d' hrun => ⟨d', ?_, rfl⟩⟩
    rwa [hseq.trans hclear] at hrun

/-- A node left over from an earlier transition, in test mode and with nothing to clear. -/
def staleNode : Node :=
  ⟨{ Sender.init 1 2 6 with iv := ⟨6, .inProgress, true, true, 0⟩, idle := [1], active := [0] },
    rplInit 4⟩

theorem deferred_agree_example : ∃ m d i, Carried maskCrypto plainConf staleNode m d 0 ∧
    m.immediate staleNode.sender.iv.transitPending 0 = .ok i ∧ Agree maskCrypto plainConf d i := by
  have hc : Carried maskCrypto plainConf staleNode staleNode
      ⟨{ staleNode.sender with
        iv := ⟨6, .normal, true, true, 0⟩
        idle := [1, 0]
        active := []
        task := Function.update staleNode.sender.task 0 .zero }, rplInit 4⟩ 0 :=
    ⟨⟨.ivUpdate 6 .normal, [], ⟨rfl, rfl, rfl, rfl⟩, rfl⟩, rfl, rfl, rfl⟩
  exact ⟨_, _, _, hc, rfl, (deferred_agree_iff hc rfl).mpr ⟨rfl, rfl, rfl, rfl⟩⟩

/-- A node in an update in progress with a segmented message under way. -/
def sendingRun : List NodeEvent :=
  [.tx (.ivOperateTime 29030400), .tx (.ivUpdate 6 .inProgress),
    .tx (.send plainEnv (List.replicate 20 7) plainMsg)]

/-- A transition that a tick has put off and the only transmission makes leaves the counter,
the sequence numbers and the pending flag. -/
theorem deferred_disagrees : ∃ n m d i,
    run (nodeStep maskCrypto plainConf) ⟨Sender.init 1 2 5, rplInit 4⟩ sendingRun = .ok n ∧
    Carried maskCrypto plainConf n m d 0 ∧
    m.immediate n.sender.iv.transitPending 0 = .ok i ∧
    ¬ Agree maskCrypto plainConf d i := by
  obtain ⟨n, hn, hobs⟩ : ∃ n,
      run (nodeStep maskCrypto plainConf) ⟨Sender.init 1 2 5, rplInit 4⟩ sendingRun = .ok n ∧
        (n.sender.active, n.sender.iv) = ([0], ⟨6, .inProgress, false, false, 24192⟩) :=
    observe (by decide +kernel)
  obtain ⟨hactive, hiv⟩ := Prod.mk.inj hobs
  have hbusy : n.sender.busy = true := by simp [Sender.busy, hactive]
  obtain ⟨m, hm⟩ : ∃ m, nodeStep maskCrypto plainConf n (.tx .ivTick) = .ok m := ⟨_, rfl⟩
  have hmactive : m.sender.active = [0] := by
    cases hm
    exact hactive
  have hmiv : m.sender.iv = ⟨6, .inProgress, false, true, 24192⟩ := by
    cases hm
    change (ivStep n.sender.iv (.tick n.sender.busy)).1 = _
    rw [hiv, hbusy]
    decide
  obtain ⟨s, hs⟩ : ∃ s, m.sender.release 0 = .ok s :=
    ⟨_, by rw [Sender.release, if_pos (.inr (.inl (by simp [hmactive])))]⟩
  obtain ⟨hsiv, -⟩ := release_frame hs
  obtain ⟨d, hd, hdiv⟩ : ∃ d, m.carryOut 0 = .ok d ∧ d.sender.iv = ivPendingNormal m.sender.iv :=
    ⟨⟨{ s with iv := ivPendingNormal s.iv }, m.rpl⟩,
      by simp [Node.carryOut, Sender.carryOut, hs, bind, Except.bind, pure, Except.pure],
      by rw [← hsiv]⟩
  obtain ⟨i, hi, hitick⟩ : ∃ i, m.immediate n.sender.iv.transitPending 0 = .ok i ∧
      i.sender.iv.tickTime = 0 :=
    ⟨_, by rw [Node.immediate, hs]; rfl, rfl⟩
  refine ⟨n, m, d, i, hn, ⟨⟨.ivTick, [], ⟨hbusy, ?_, ?_⟩, ?_⟩, ?_, hd, ?_⟩, hi, fun h => ?_⟩
  · rw [hiv]; decide
  · rw [hiv]
  · rw [run, hm]; rfl
  · rw [hmiv]
  · rw [hdiv, hmiv]; rfl
  · have htick := h.tickTime
    rw [hdiv, hmiv, hitick] at htick
    exact absurd htick (by decide)

end Meshx.IvDeferred
