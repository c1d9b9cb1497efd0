import Meshx.GapQueue

/-! The advertising bearer on top of the queue of actions: what the bearer of one node is given to
send is framed, queued and aired, and what another node receives of it is taken apart again.
Definitions carry the names of `meshx_bearer_adv.c` and `meshx_gap.c`. -/
namespace Meshx.AdvBearer

open Lib GapQueue

/-- The packet types that `meshx_bearer_adv_send` is asserted to be called with. -/
inductive PktType
  | pbAdv
  | meshMsg
  | beacon
  deriving DecidableEq, Repr

def PktType.adType : PktType → Byte
  | .pbAdv => 0x29
  | .meshMsg => 0x2A
  | .beacon => 0x2B

def advDataMaxLen : ℕ := 31

/-- The buffer of `meshx_bearer_adv_pkt_t` as far as it is written. -/
def advPkt (type : PktType) (pdata : List Byte) : List Byte :=
  BitVec.ofNat 8 (pdata.length + 1) :: type.adType :: pdata

/-- The action for a packet. Behind the packet it has what its memory held, `misc`. -/
def advData (type : PktType) (pdata : List Byte) (misc : Vector Byte 31) : AdvData where
  advType := .nonconnInd
  data := .ofFn fun i => (advPkt type pdata).getD i (misc.get i)
  dataLen := BitVec.ofNat 8 (pdata.length + 2)

/-- `meshx_bearer_adv_send`; `isAdv` says whether the bearer is of the type. -/
def bearerAdvSend (g : Gap) (isAdv : Bool) (type : PktType) (pdata : List Byte)
    (misc : Vector Byte 31) : Errno × Gap × List GapCall :=
  if !isAdv then (.inval, g, [])
  else if advDataMaxLen - 2 < pdata.length then (.length, g, [])
  else g.addAction (.adv (advData type pdata misc))

/-- What is on the air of an advertisement. -/
def airBytes (d : AdvData) : List Byte := d.data.toList.take d.dataLen.toNat

/-- The bearer as it receives, with the interface it is connected to. -/
structure Bearer where
  netIface : Option ℕ
  deriving DecidableEq, Repr

/-- How a report ends: in a call of the network, the provisioning or the beacon module, or in a
return code. The last is the one for an AD type that is not of the mesh. -/
inductive Dispatch
  | net (iface : ℕ) (pdata : List Byte)
  | prov (pdata : List Byte)
  | beacon (pdata : List Byte)
  | ret (err : Errno)
  | invalAdtype
  deriving DecidableEq, Repr

def bearerAdvReceive (bearer : Option Bearer) (advType : Byte) (pdata : List Byte) : Dispatch :=
  match bearer with
  | none => .ret .inval
  | some bearer =>
    if advType = 0x2A then
      match bearer.netIface with
      | none => .ret .connect
      | some iface => .net iface pdata
    else if advType = 0x29 then .prov pdata
    else if advType = 0x2B then .beacon pdata
    else .invalAdtype

/-- `meshx_gap_handle_adv_report`. -/
def handleAdvReport (bearer : Option Bearer) (pdata : List Byte) : Dispatch :=
  if advDataMaxLen < pdata.length ∨ pdata.length < 2 then .ret .length
  else if (byteAt pdata 0).toNat ≠ pdata.length - 1 then .ret .length
  else bearerAdvReceive bearer (byteAt pdata 1)
    ((pdata.drop 2).take ((byteAt pdata 0).toNat - 1))

section Frame

variable {type : PktType} {pdata : List Byte} {misc : Vector Byte 31} {bearer : Option Bearer}

/-- What a packet leads to at a node whose bearer is connected. -/
def PktType.dispatch (type : PktType) (iface : ℕ) (pdata : List Byte) : Dispatch :=
  match type with
  | .pbAdv => .prov pdata
  | .meshMsg => .net iface pdata
  | .beacon => .beacon pdata

theorem airBytes_advData (h : pdata.length ≤ 29) :
    airBytes (advData type pdata misc) = advPkt type pdata := by
  have hlen : (advPkt type pdata).length = pdata.length + 2 := rfl
  have hsize : (BitVec.ofNat 8 (pdata.length + 2)).toNat = pdata.length + 2 := by
    rw [BitVec.toNat_ofNat]
    omega
  refine List.ext_getElem ?_ fun i hi hi' => ?_
  · simp only [airBytes, advData, List.length_take, Vector.length_toList, hsize, hlen]
    omega
  · simp only [airBytes, advData, List.getElem_take, Vector.getElem_toList, Vector.getElem_ofFn]
    exact List.getD_eq_getElem _ _ hi'

theorem handleAdvReport_advPkt (h : pdata.length ≤ 29) :
    handleAdvReport bearer (advPkt type pdata) = bearerAdvReceive bearer type.adType pdata := by
  have hlen : (advPkt type pdata).length = pdata.length + 2 := rfl
  have hfirst : (byteAt (advPkt type pdata) 0).toNat = pdata.length + 1 := by
    change (BitVec.ofNat 8 (pdata.length + 1)).toNat = _
    rw [BitVec.toNat_ofNat]
    omega
  have hmax : ¬ (advDataMaxLen < pdata.length + 2 ∨ pdata.length + 2 < 2) := by
    unfold advDataMaxLen
    omega
  rw [handleAdvReport, hlen, if_neg hmax, hfirst, if_neg (by omega)]
  change bearerAdvReceive bearer type.adType (pdata.take (pdata.length + 1 - 1)) = _
  rw [Nat.add_sub_cancel, List.take_length]

theorem bearerAdvReceive_dispatch (type : PktType) (iface : ℕ) (pdata : List Byte) :
    bearerAdvReceive (some ⟨some iface⟩) type.adType pdata = type.dispatch iface pdata := by
  cases type with
  | pbAdv | meshMsg | beacon => rfl

theorem bearerAdvReceive_inj {adType : Byte} {iface : ℕ} {rest : List Byte}
    (h : bearerAdvReceive (some ⟨some iface⟩) adType rest = type.dispatch iface pdata) :
    adType = type.adType ∧ rest = pdata := by
  unfold bearerAdvReceive at h
  dsimp only at h
  split_ifs at h with hmsg hprov hbeacon
  · cases type <;> simp_all [PktType.dispatch, PktType.adType]
  · cases type <;> simp_all [PktType.dispatch, PktType.adType]
  · cases type <;> simp_all [PktType.dispatch, PktType.adType]
  · cases type <;> simp_all [PktType.dispatch]

/-- A report is handed on exactly if it is the frame of a packet that the bearer would send. -/
theorem handleAdvReport_iff (iface : ℕ) (report : List Byte) (type : PktType) (pdata : List Byte) :
    handleAdvReport (some ⟨some iface⟩) report = type.dispatch iface pdata ↔
      pdata.length ≤ 29 ∧ report = advPkt type pdata := by
  constructor
  · intro h
    have hret (err : Errno) : .ret err ≠ type.dispatch iface pdata := by
      cases type <;> simp [PktType.dispatch]
    unfold handleAdvReport at h
    split_ifs at h with hsize hfirst
    · exact absurd h (hret _)
    · exact absurd h (hret _)
    rw [not_or, not_lt, not_lt] at hsize
    rw [not_not] at hfirst
    cases report with
    | nil => exact absurd hsize.2 (by decide)
    | cons first tail =>
    cases tail with
    | nil => exact absurd hsize.2 (Nat.not_le.mpr Nat.one_lt_two)
    | cons adType rest =>
    have hlen : first.toNat = rest.length + 1 := hfirst
    have hmax : rest.length + 2 ≤ 31 := hsize.1
    have hrest : rest.take (first.toNat - 1) = rest := List.take_of_length_le (by omega)
    change bearerAdvReceive (some ⟨some iface⟩) adType (rest.take (first.toNat - 1)) = _ at h
    rw [hrest] at h
    have hbyte : first = BitVec.ofNat 8 (rest.length + 1) := by
      rw [← hlen, BitVec.ofNat_toNat, BitVec.setWidth_eq]
    obtain ⟨rfl, rfl⟩ := bearerAdvReceive_inj h
    exact ⟨by omega, by rw [advPkt, ← hbyte]⟩
  · rintro ⟨hlen, rfl⟩
    rw [handleAdvReport_advPkt hlen, bearerAdvReceive_dispatch]

end Frame

section Runs

/-- What happens to the queue: a packet for the bearer, or anything else. -/
inductive BearerEvent
  | send (isAdv : Bool) (type : PktType) (pdata : List Byte) (misc : Vector Byte 31)
  | scan (param : ScanParam)
  | start
  | stop
  | btStatus (status : BtStatus)

/-- The queue with the packets that were accepted since the last start, in order. -/
structure BearerLog where
  history : History
  sent : List (PktType × List Byte)

namespace BearerLog

def init (taskNum : ℕ) : BearerLog := ⟨.init taskNum, []⟩

/-- A start begins the log anew. -/
def next (l : BearerLog) (history : History) : BearerLog :=
  ⟨history, if !l.history.gap.enabled && history.gap.enabled then [] else l.sent⟩

def step (taskNum : ℕ) (l : BearerLog) : BearerEvent → BearerLog
  | .send isAdv type pdata misc =>
    let out := bearerAdvSend l.history.gap isAdv type pdata misc
    let history := l.history.moved out.2
    if out.1 = .success then
      ⟨{ history with accepted := history.accepted ++ [.adv (advData type pdata misc)] },
        l.sent ++ [(type, pdata)]⟩
    else ⟨history, l.sent⟩
  | .scan param => l.next (l.history.step taskNum (.addAction (.scan param)))
  | .start => l.next (l.history.step taskNum .start)
  | .stop => l.next (l.history.step taskNum .stop)
  | .btStatus status => l.next (l.history.step taskNum (.btStatus status))

def after (taskNum : ℕ) (es : List BearerEvent) : BearerLog :=
  es.foldl (step taskNum) (init taskNum)

/-- The log fits the queue, whose advertisements are the frames of the packets. -/
structure Fits (taskNum : ℕ) (l : BearerLog) : Prop where
  sound : l.history.Sound taskNum
  aired : ∃ waiting, l.history.accepted.filterMap Action.adv? = l.history.platform.aired ++ waiting
  frames : (l.history.accepted.filterMap Action.adv?).map (fun d => (d.advType, airBytes d)) =
    l.sent.map fun x => (.nonconnInd, advPkt x.1 x.2)
  short : ∀ x ∈ l.sent, x.2.length ≤ 29

variable {taskNum : ℕ} {l : BearerLog} {h : History} {e : GapEvent} {out : Gap × List GapCall}

theorem moved_gap : (h.moved out).gap = out.1 := by
  unfold History.moved
  split_ifs <;> rfl

theorem moved_accepted : (h.moved out).accepted =
    if !h.gap.enabled && (h.moved out).gap.enabled then [] else h.accepted := by
  rw [moved_gap, History.moved]
  split_ifs <;> rfl

/-- A status that is reported to a stopped queue starts it or does nothing. -/
theorem handleBtStatus_stopped {g : Gap} {status : BtStatus} (hoff : g.enabled = false)
    (hactive : g.active = []) (hstill : (g.handleBtStatus status).1.enabled = false) :
    (g.handleBtStatus status).2 = [] := by
  cases status with
  | stackState state =>
    rw [Gap.handleBtStatus] at hstill ⊢
    split_ifs at hstill ⊢ with hstate
    · simp [Gap.gapStart, hoff] at hstill
    · rfl
  | advState state =>
    rw [Gap.handleBtStatus]
    split_ifs
    · simp [Gap.runActions, hactive]
    · rfl
  | scanState | connState | other => rfl

theorem handleBtStatus_running {g : Gap} {status : BtStatus} (hon : g.enabled = true) :
    (g.handleBtStatus status).1.enabled = true := by
  cases status with
  | stackState state =>
    rw [Gap.handleBtStatus]
    split_ifs
    · simp [Gap.gapStart, hon]
    · exact hon
  | advState state =>
    rw [Gap.handleBtStatus]
    split_ifs
    · exact runActions_enabled.trans hon
    · exact hon
  | scanState | connState | other => exact hon

theorem addAction_gap {a : Action} : (h.step taskNum (.addAction a)).gap.enabled = h.gap.enabled ∧
    (h.step taskNum (.addAction a)).accepted =
      if (h.gap.addAction a).1 = .success then h.accepted ++ [a] else h.accepted := by
  rw [History.step, History.moved_same addAction_enabled]
  split_ifs
  · exact ⟨addAction_enabled, rfl⟩
  · exact ⟨addAction_enabled, rfl⟩

/-- A step that leaves the queue stopped airs nothing. -/
theorem step_aired (hs : h.Sound taskNum) (hoff : (h.step taskNum e).gap.enabled = false) :
    (h.step taskNum e).platform.aired = h.platform.aired := by
  cases e with
  | start =>
    have hon : h.gap.gapStart.2.1.enabled = true := by
      unfold Gap.gapStart
      split_ifs with henabled
      · exact henabled
      · rfl
    rw [History.step, moved_gap, hon] at hoff
    cases hoff
  | stop =>
    rw [History.step, Gap.gapStop]
    split_ifs
    · rw [History.moved, if_neg (by simp)]
      rfl
    · rw [History.moved_same rfl]
      rfl
  | addAction a =>
    have hrefused := addAction_disabled (a := a) (addAction_gap.1.symm.trans hoff)
    have hstate : Errno.state ≠ .success := by decide
    rw [History.step, hrefused, if_neg hstate, History.moved_same rfl]
    rfl
  | btStatus status =>
    rw [History.step, moved_gap] at hoff
    cases henabled : h.gap.enabled with
    | true =>
      rw [handleBtStatus_running henabled] at hoff
      cases hoff
    | false =>
      have hcalls := handleBtStatus_stopped henabled (hs.stopped henabled) hoff
      have hmoved := History.moved_same (h := h) (hoff.trans henabled.symm)
      rw [History.step, hmoved, hcalls]
      rfl

theorem step_accepted (hno : ∀ a, e ≠ .addAction a) : (h.step taskNum e).accepted =
    if !h.gap.enabled && (h.step taskNum e).gap.enabled then [] else h.accepted := by
  cases e with
  | start => exact moved_accepted
  | stop => exact moved_accepted
  | addAction a => exact absurd rfl (hno a)
  | btStatus status => exact moved_accepted

/-- What has been aired stays in front of what was accepted. -/
theorem aired_of_sound (hs : (h.step taskNum e).Sound taskNum) (hbefore : h.Sound taskNum)
    (hno : (h.step taskNum e).gap.enabled = false →
      ∃ new, (h.step taskNum e).accepted = h.accepted ++ new)
    (ha : ∃ waiting, h.accepted.filterMap Action.adv? = h.platform.aired ++ waiting) :
    ∃ waiting, (h.step taskNum e).accepted.filterMap Action.adv? =
      (h.step taskNum e).platform.aired ++ waiting := by
  cases hon : (h.step taskNum e).gap.enabled with
  | true =>
    obtain ⟨advs, scans, hqueue⟩ := hs.queue hon
    exact ⟨advs, hqueue.advs⟩
  | false =>
    obtain ⟨waiting, hwaiting⟩ := ha
    obtain ⟨new, hnew⟩ := hno hon
    rw [step_aired hbefore hon, hnew, List.filterMap_append, hwaiting]
    exact ⟨_, List.append_assoc _ _ _⟩

theorem Fits.next (hl : l.Fits taskNum) (hno : ∀ a, e ≠ .addAction a) :
    (l.next (l.history.step taskNum e)).Fits taskNum := by
  have hs := hl.sound.step e
  have haccepted := @step_accepted taskNum l.history e hno
  refine ⟨hs, aired_of_sound hs hl.sound (fun hoff => ⟨[], ?_⟩) hl.aired, ?_, ?_⟩
  · rw [haccepted, hoff, Bool.and_false, List.append_nil]
    rfl
  · unfold BearerLog.next
    dsimp only
    rw [haccepted]
    split_ifs
    · rfl
    · exact hl.frames
  · unfold BearerLog.next
    dsimp only
    split_ifs
    · exact fun x hx => absurd hx List.not_mem_nil
    · exact hl.short

theorem Fits.addAction (hl : l.Fits taskNum) {a : Action} {new : List (PktType × List Byte)}
    (hframes : (a.adv?.toList).map (fun d => (d.advType, airBytes d)) =
      new.map fun x => (.nonconnInd, advPkt x.1 x.2)) (hshort : ∀ x ∈ new, x.2.length ≤ 29) :
    Fits taskNum ⟨l.history.step taskNum (.addAction a),
      if (l.history.gap.addAction a).1 = .success then l.sent ++ new else l.sent⟩ := by
  have hs := hl.sound.step (.addAction a)
  have haccepted := (@addAction_gap taskNum l.history a).2
  refine ⟨hs, aired_of_sound hs hl.sound (fun _ => ?_) hl.aired, ?_, ?_⟩
  · rw [haccepted]
    split_ifs
    · exact ⟨[a], rfl⟩
    · exact ⟨[], (List.append_nil _).symm⟩
  · dsimp only
    rw [haccepted]
    split_ifs
    · rw [List.filterMap_append, List.map_append, List.map_append, hl.frames]
      cases ha : a.adv? with
      | none => simpa [ha] using hframes
      | some d => simpa [ha] using hframes
    · exact hl.frames
  · dsimp only
    split_ifs
    · exact fun x hx => (List.mem_append.mp hx).elim (hl.short x) (hshort x)
    · exact hl.short

theorem Fits.send (hl : l.Fits taskNum) (isAdv : Bool) (type : PktType) (pdata : List Byte)
    (misc : Vector Byte 31) : (l.step taskNum (.send isAdv type pdata misc)).Fits taskNum := by
  have hrefused (err : Errno) (herr : err ≠ .success)
      (hout : bearerAdvSend l.history.gap isAdv type pdata misc = (err, l.history.gap, [])) :
      l.step taskNum (.send isAdv type pdata misc) = l := by
    rw [step, hout, if_neg herr, History.moved_same rfl]
    rfl
  cases isAdv with
  | false => exact (hrefused .inval (by decide) rfl).symm ▸ hl
  | true =>
    by_cases hlen : 29 < pdata.length
    · exact (hrefused .length (by decide) (if_pos hlen)).symm ▸ hl
    · have hsend : bearerAdvSend l.history.gap true type pdata misc =
          l.history.gap.addAction (.adv (advData type pdata misc)) := if_neg hlen
      have hle : pdata.length ≤ 29 := not_lt.mp hlen
      have hframe : ((advData type pdata misc).advType, airBytes (advData type pdata misc)) =
          (.nonconnInd, advPkt type pdata) := by
        rw [airBytes_advData hle]
        rfl
      have hnew := @Fits.addAction taskNum l hl (.adv (advData type pdata misc)) [(type, pdata)]
        (congrArg (fun x => [x]) hframe) (by simpa using hle)
      rw [step, hsend]
      rw [History.step] at hnew
      split_ifs with hok
      · rw [if_pos hok, if_pos hok] at hnew
        exact hnew
      · rw [if_neg hok, if_neg hok] at hnew
        exact hnew

theorem Fits.scan (hl : l.Fits taskNum) (param : ScanParam) :
    (l.step taskNum (.scan param)).Fits taskNum := by
  have hnew := @Fits.addAction taskNum l hl (.scan param) [] rfl (by simp)
  have hgap := (@addAction_gap taskNum l.history (.scan param)).1
  rw [step, BearerLog.next, hgap, Bool.not_and_self, if_neg Bool.false_ne_true]
  rwa [List.append_nil, ite_self] at hnew

theorem Fits.step (hl : l.Fits taskNum) (e : BearerEvent) : (l.step taskNum e).Fits taskNum := by
  cases e with
  | send isAdv type pdata misc => exact hl.send isAdv type pdata misc
  | scan param => exact hl.scan param
  | start => exact hl.next (by simp)
  | stop => exact hl.next (by simp)
  | btStatus status => exact hl.next (by simp)

theorem init_fits (taskNum : ℕ) : (init taskNum).Fits taskNum :=
  ⟨History.init_sound taskNum, ⟨[], rfl⟩, rfl, by simp [init]⟩

theorem after_fits (taskNum : ℕ) (es : List BearerEvent) : (after taskNum es).Fits taskNum :=
  List.foldlRecOn es (BearerLog.step taskNum) (init_fits taskNum) fun _ hl e _ => hl.step e

/-- While the queue is enabled, what is not on the air yet waits in it. -/
theorem Fits.queued (hl : l.Fits taskNum) (hon : l.history.gap.enabled = true) :
    l.history.accepted.filterMap Action.adv? = l.history.platform.aired ++
      (l.history.gap.active.map l.history.gap.action).filterMap Action.adv? := by
  obtain ⟨advs, scans, hqueue⟩ := hl.sound.queue hon
  have hadv : (advs.map Action.adv).filterMap Action.adv? = advs := by
    rw [List.filterMap_map]
    exact List.filterMap_some
  have hscan : (scans.map Action.scan).filterMap Action.adv? = [] := by
    rw [List.filterMap_map]
    exact List.filterMap_eq_nil_iff.mpr fun _ _ => rfl
  rw [hqueue.advs, hqueue.active, List.filterMap_append, hadv, hscan, List.append_nil]

/-- What a connected node takes out of all that was accepted, on the air or not. -/
theorem Fits.taken (hl : l.Fits taskNum) (iface : ℕ) :
    (l.history.accepted.filterMap Action.adv?).map
        (fun d => (d.advType, handleAdvReport (some ⟨some iface⟩) (airBytes d))) =
      l.sent.map fun x => (.nonconnInd, x.1.dispatch iface x.2) := by
  have hread := congrArg
    (List.map fun x => (x.1, handleAdvReport (some ⟨some iface⟩) x.2)) hl.frames
  rw [List.map_map, List.map_map] at hread
  refine hread.trans (List.map_congr_left fun x hx => ?_)
  rw [Function.comp_apply, handleAdvReport_advPkt (hl.short x hx), bearerAdvReceive_dispatch]

end BearerLog

/-- Whatever is sent, scanned, started, stopped and reported: a node that is connected takes out
of what is on the air just the packets that were accepted, in their order, with their types and
bytes, as undirected advertisements; and as long as the queue is enabled, what waits in it are
the packets that were accepted and are not on the air yet. -/
theorem aired_received (taskNum : ℕ) (es : List BearerEvent) (iface : ℕ) :
    (BearerLog.after taskNum es).history.platform.aired.map
        (fun d => (d.advType, handleAdvReport (some ⟨some iface⟩) (airBytes d))) =
      ((BearerLog.after taskNum es).sent.take
        (BearerLog.after taskNum es).history.platform.aired.length).map
        (fun x => (.nonconnInd, x.1.dispatch iface x.2)) ∧
    ((BearerLog.after taskNum es).history.gap.enabled = true →
      (((BearerLog.after taskNum es).history.gap.active.map
          (BearerLog.after taskNum es).history.gap.action).filterMap Action.adv?).map
          (fun d => (d.advType, handleAdvReport (some ⟨some iface⟩) (airBytes d))) =
        ((BearerLog.after taskNum es).sent.drop
          (BearerLog.after taskNum es).history.platform.aired.length).map
          (fun x => (.nonconnInd, x.1.dispatch iface x.2))) := by
  have hfits := BearerLog.after_fits taskNum es
  generalize BearerLog.after taskNum es = l at hfits ⊢
  have htaken := hfits.taken iface
  constructor
  · obtain ⟨waiting, hwaiting⟩ := hfits.aired
    rw [hwaiting, List.map_append] at htaken
    rw [List.map_take, ← htaken, List.take_left' (List.length_map _)]
  · intro hon
    rw [hfits.queued hon, List.map_append] at htaken
    rw [List.map_drop, ← htaken, List.drop_left' (List.length_map _)]

end Runs

end Meshx.AdvBearer
