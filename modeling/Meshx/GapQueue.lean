import Meshx.Common

/-! The queue of advertising and scan actions, and what it starts on the platform. Definitions
carry the names of `meshx_gap.c`. -/
namespace Meshx.GapQueue

open Lib

inductive AdvType
  | ind
  | directInd
  | scanInd
  | nonconnInd
  | directedInd
  deriving DecidableEq, Repr

inductive ScanType
  | passive
  | active
  deriving DecidableEq, Repr

structure AdvParam where
  advIntervalMin : BitVec 16
  advIntervalMax : BitVec 16
  advType : AdvType
  channel : Byte
  deriving DecidableEq, Repr

structure ScanParam where
  scanType : ScanType
  scanWindow : BitVec 16
  scanInterval : BitVec 16
  deriving DecidableEq, Repr

/-- `meshx_gap_action_data_adv_t`. -/
structure AdvData where
  advType : AdvType
  data : Vector Byte 31
  dataLen : Byte
  deriving DecidableEq, Repr

/-- `meshx_gap_action_t`. The last is an action whose type is a number above those of the two. -/
inductive Action
  | scan (data : ScanParam)
  | adv (data : AdvData)
  | other (n : ℕ)
  deriving DecidableEq, Repr

def Action.type : Action → ℕ
  | .scan _ => 0
  | .adv _ => 1
  | .other n => n + 2

def Action.scan? : Action → Option ScanParam
  | .scan d => some d
  | .adv _ | .other _ => none

def Action.adv? : Action → Option AdvData
  | .adv d => some d
  | .scan _ | .other _ => none

/-- The calls to the platform. -/
inductive GapCall
  | scanSetParam (param : ScanParam)
  | scanStart
  | scanStop
  | advSetParam (param : AdvParam)
  | advSetData (data : Vector Byte 31) (len : Byte)
  | advStart
  | advStop
  deriving DecidableEq, Repr

/-- The actions with the two lists, by their index, and `gap_state`. -/
structure Gap where
  action : ℕ → Action
  idle : List ℕ
  active : List ℕ
  enabled : Bool
  advState : Byte
  scanState : Byte

/-- `meshx_gap_bt_status_t`. -/
inductive BtStatus
  | stackState (state : Byte)
  | scanState (state : Byte)
  | advState (state : Byte)
  | connState
  | other
  deriving DecidableEq, Repr

/-- `gap_adv_param`, which sets the smaller interval twice and leaves out the greater one. -/
def gapAdvParam : AdvParam := ⟨0x20, 0, .nonconnInd, 7⟩

/-- What `meshx_gap_start` scans with. -/
def startScanParam : ScanParam := ⟨.passive, 160, 160⟩

def gapInit (taskNum : ℕ) : Gap where
  action _ := .scan ⟨.passive, 0, 0⟩
  idle := List.range taskNum
  active := []
  enabled := false
  advState := 0
  scanState := 0

/-- The first action is to stand before the second one. -/
def Action.Before (insert list : Action) : Prop := list.type < insert.type

instance : DecidableRel Action.Before := fun insert list =>
  inferInstanceAs (Decidable (list.type < insert.type))

/-- `meshx_action_cmp`. -/
def actionCmp (action : ℕ → Action) (insert list : ℕ) : Prop :=
  (action insert).Before (action list)

instance (action : ℕ → Action) : DecidableRel (actionCmp action) := fun insert list =>
  inferInstanceAs (Decidable ((action insert).Before (action list)))

/-- `meshx_list_sort_insert`: before the first node for which the comparison holds. -/
def sortInsert (cmp : ℕ → ℕ → Prop) [DecidableRel cmp] (nodes : List ℕ) (node : ℕ) : List ℕ :=
  nodes.orderedInsert cmp node

namespace Gap

def clearAllActions (taskNum : ℕ) (g : Gap) : Gap :=
  { g with idle := List.range taskNum, active := [] }

def gapStart (g : Gap) : Errno × Gap × List GapCall :=
  if g.enabled then (.already, g, [])
  else (.success, { g with enabled := true }, [.scanSetParam startScanParam, .scanStart])

def gapStop (taskNum : ℕ) (g : Gap) : Gap × List GapCall :=
  if g.enabled then
    ({ g.clearAllActions taskNum with enabled := false }, [.scanStop, .advStop])
  else (g, [])

/-- An action is done: its node goes to the idle ones. -/
def actionDone (g : Gap) (id : ℕ) : Gap :=
  { g with idle := g.idle ++ [id], active := g.active.erase id }

/-- `meshx_run_actions`, for the first action that waits. -/
def runActions (g : Gap) : Gap × List GapCall :=
  match g.active with
  | [] => (g, [])
  | id :: _ =>
    match g.action id with
    | .scan data =>
      if g.scanState = 0 then (g.actionDone id, [.scanSetParam data, .scanStart]) else (g, [])
    | .adv data =>
      if g.advState = 0 then
        (g.actionDone id, [.advSetParam { gapAdvParam with advType := data.advType },
          .advSetData data.data data.dataLen, .advStart])
      else (g, [])
    | .other _ => (g, [])

def handleBtStatus (g : Gap) : BtStatus → Gap × List GapCall
  | .stackState state => if state = 1 then g.gapStart.2 else (g, [])
  | .advState state =>
    let g := { g with advState := state }
    if state = 0 then g.runActions else (g, [])
  | .scanState state => ({ g with scanState := state }, [])
  | .connState | .other => (g, [])

/-- `meshx_sort_insert_action`. -/
def sortInsertAction (g : Gap) (a : Action) : Errno × Gap :=
  match g.idle with
  | [] => (.busy, g)
  | id :: idle =>
    let action := Function.update g.action id a
    (.success, { g with
      action := action
      idle := idle
      active := sortInsert (actionCmp action) g.active id })

/-- `meshx_append_action`. -/
def appendAction (g : Gap) (a : Action) : Errno × Gap :=
  match g.idle with
  | [] => (.busy, g)
  | id :: idle => (.success, { g with
      action := Function.update g.action id a
      idle := idle
      active := g.active ++ [id] })

/-- The part of `meshx_gap_add_action` that depends on the type. -/
def queueAction (g : Gap) (a : Action) : Errno × Gap :=
  match a with
  | .scan _ => g.appendAction a
  | .adv _ => g.sortInsertAction a
  | .other _ => (.inval, g)

def addAction (g : Gap) (a : Action) : Errno × Gap × List GapCall :=
  if g.enabled then
    let queued := g.queueAction a
    if queued.1 = .success then (.success, queued.2.runActions) else (queued.1, queued.2, [])
  else (.state, g, [])

end Gap

/-- What the platform holds, and what it has scanned with and advertised, in order. -/
structure Platform where
  scanParam : ScanParam
  advParam : AdvParam
  data : Vector Byte 31
  dataLen : Byte
  scanned : List ScanParam
  aired : List AdvData

def Platform.init : Platform := ⟨⟨.passive, 0, 0⟩, gapAdvParam, .replicate 31 0, 0, [], []⟩

def Platform.call (p : Platform) : GapCall → Platform
  | .scanSetParam param => { p with scanParam := param }
  | .scanStart => { p with scanned := p.scanned ++ [p.scanParam] }
  | .advSetParam param => { p with advParam := param }
  | .advSetData data len => { p with data := data, dataLen := len }
  | .advStart => { p with aired := p.aired ++ [⟨p.advParam.advType, p.data, p.dataLen⟩] }
  | .scanStop | .advStop => p

/-- The queue with what was accepted and started since the last start, in order. -/
structure History where
  gap : Gap
  platform : Platform
  accepted : List Action

inductive GapEvent
  | start
  | stop
  | addAction (action : Action)
  | btStatus (status : BtStatus)

namespace History

def init (taskNum : ℕ) : History := ⟨gapInit taskNum, .init, []⟩

/-- A start begins the history anew. -/
def moved (h : History) (out : Gap × List GapCall) : History :=
  if !h.gap.enabled && out.1.enabled then
    ⟨out.1, out.2.foldl Platform.call { h.platform with scanned := [], aired := [] }, []⟩
  else ⟨out.1, out.2.foldl Platform.call h.platform, h.accepted⟩

def step (taskNum : ℕ) (h : History) : GapEvent → History
  | .start => h.moved h.gap.gapStart.2
  | .stop => h.moved (h.gap.gapStop taskNum)
  | .addAction a =>
    let h' := h.moved (h.gap.addAction a).2
    if (h.gap.addAction a).1 = .success then { h' with accepted := h'.accepted ++ [a] } else h'
  | .btStatus status => h.moved (h.gap.handleBtStatus status)

end History

/-- The actions that wait: the advertising ones, then the scans, each kind in the order of its
acceptance after those that were started. A start scans by itself. -/
structure Queue (g : Gap) (p : Platform) (accepted : List Action) (advs : List AdvData)
    (scans : List ScanParam) : Prop where
  active : g.active.map g.action = advs.map .adv ++ scans.map .scan
  advs : accepted.filterMap Action.adv? = p.aired ++ advs
  scans : startScanParam :: accepted.filterMap Action.scan? = p.scanned ++ scans

variable {g : Gap} {p : Platform} {accepted : List Action} {advs : List AdvData}
  {scans : List ScanParam} {a : Action} {id : ℕ} {ids idle : List ℕ} {taskNum : ℕ}

section Run

theorem Queue.same (h : Queue g p accepted advs scans) {g' : Gap} (hactive : g'.active = g.active)
    (haction : g'.action = g.action) : Queue g' p accepted advs scans :=
  ⟨by rw [hactive, haction]; exact h.active, h.advs, h.scans⟩

/-- The first action is started and leaves the queue, or nothing changes. -/
theorem Queue.runActions (h : Queue g p accepted advs scans) :
    ∃ advs' scans', Queue g.runActions.1 (g.runActions.2.foldl Platform.call p) accepted advs'
      scans' := by
  have hsame : Queue g p accepted advs scans := h
  have hactive := h.active
  unfold Gap.runActions
  cases hids : g.active with
  | nil => exact ⟨advs, scans, hsame⟩
  | cons id ids =>
    rw [hids, List.map_cons] at hactive
    have herase : (g.actionDone id).active = ids := by
      rw [Gap.actionDone, hids]
      exact List.erase_cons_head id ids
    cases advs with
    | cons d advs =>
      obtain ⟨hid, hrest⟩ := List.cons.inj hactive
      dsimp only
      rw [hid]
      dsimp only
      split_ifs
      · refine ⟨advs, scans, ?_, ?_, h.scans⟩
        · rw [herase]
          exact hrest
        · exact h.advs.trans (List.append_cons p.aired d advs)
      · exact ⟨d :: advs, scans, hsame⟩
    | nil =>
      cases scans with
      | nil => cases hactive
      | cons d scans =>
        obtain ⟨hid, hrest⟩ := List.cons.inj hactive
        dsimp only
        rw [hid]
        dsimp only
        split_ifs
        · refine ⟨[], scans, ?_, h.advs, ?_⟩
          · rw [herase]
            exact hrest
          · exact h.scans.trans (List.append_cons p.scanned d scans)
        · exact ⟨[], d :: scans, hsame⟩

theorem runActions_cases : g.runActions = (g, []) ∨ ∃ id ids calls, g.active = id :: ids ∧
    g.runActions = (g.actionDone id, calls) := by
  unfold Gap.runActions
  cases hids : g.active with
  | nil => exact .inl rfl
  | cons id ids =>
    dsimp only
    cases g.action id with
    | scan d =>
      dsimp only
      split_ifs
      · exact .inr ⟨id, ids, _, rfl, rfl⟩
      · exact .inl rfl
    | adv d =>
      dsimp only
      split_ifs
      · exact .inr ⟨id, ids, _, rfl, rfl⟩
      · exact .inl rfl
    | other n => exact .inl rfl

theorem perm_runActions :
    (g.runActions.1.idle ++ g.runActions.1.active).Perm (g.idle ++ g.active) := by
  rcases runActions_cases (g := g) with h | ⟨id, ids, calls, hids, h⟩ <;> rw [h]
  rw [Gap.actionDone, hids]
  dsimp only
  rw [List.erase_cons_head, List.append_assoc, List.singleton_append]

theorem runActions_enabled : g.runActions.1.enabled = g.enabled := by
  rcases runActions_cases (g := g) with h | ⟨id, ids, calls, hids, h⟩ <;> rw [h]
  rfl

end Run

section Add

/-- An advertising action goes behind those of its kind, and before the scans. -/
theorem orderedInsert_adv (d : AdvData) :
    (advs.map Action.adv ++ scans.map Action.scan).orderedInsert Action.Before (.adv d) =
      (advs ++ [d]).map Action.adv ++ scans.map Action.scan := by
  induction advs with
  | nil =>
    cases scans with
    | nil => rfl
    | cons x scans =>
      have hbefore : Action.Before (.adv d) (.scan x) := Nat.zero_lt_one
      exact List.orderedInsert_cons_of_le Action.Before _ hbefore
  | cons x advs ih =>
    have hbehind : ¬ Action.Before (.adv d) (.adv x) := Nat.lt_irrefl 1
    rw [List.map_cons, List.cons_append, List.orderedInsert_of_not_le Action.Before _ hbehind, ih]
    rfl

theorem map_update_of_notMem (hid : id ∉ ids) :
    ids.map (Function.update g.action id a) = ids.map g.action :=
  List.map_congr_left fun x hx => by
    rw [Function.update_of_ne]
    rintro rfl
    exact hid hx

/-- An accepted action waits behind those of its kind. -/
theorem Queue.queueAction (h : Queue g p accepted advs scans) (hnodup : (g.idle ++ g.active).Nodup)
    (hok : (g.queueAction a).1 = .success) :
    ∃ advs' scans', Queue (g.queueAction a).2 p (accepted ++ [a]) advs' scans' := by
  cases hidle : g.idle with
  | nil => cases a <;> simp [Gap.queueAction, Gap.appendAction, Gap.sortInsertAction, hidle] at hok
  | cons id idle =>
    have hid : id ∉ g.active := by
      rw [hidle, List.cons_append, List.nodup_cons] at hnodup
      exact fun hmem => hnodup.1 (List.mem_append_right idle hmem)
    cases a with
    | other n => cases hok
    | scan d =>
      refine ⟨advs, scans ++ [d], ?_, ?_, ?_⟩
      · rw [Gap.queueAction, Gap.appendAction, hidle]
        dsimp only
        rw [List.map_append, map_update_of_notMem hid, h.active, List.map_singleton,
          Function.update_self, List.map_append, List.append_assoc]
        rfl
      · rw [List.filterMap_append, h.advs]
        exact List.append_nil _
      · rw [List.filterMap_append, ← List.cons_append, h.scans, List.append_assoc]
        rfl
    | adv d =>
      refine ⟨advs ++ [d], scans, ?_, ?_, ?_⟩
      · rw [Gap.queueAction, Gap.sortInsertAction, hidle]
        dsimp only
        rw [sortInsert, List.map_orderedInsert (actionCmp _) Action.Before _ _ _
            (fun _ _ => Iff.rfl) fun _ _ => Iff.rfl,
          map_update_of_notMem hid, h.active, Function.update_self]
        exact orderedInsert_adv d
      · rw [List.filterMap_append, h.advs, List.append_assoc]
        rfl
      · rw [List.filterMap_append]
        exact (congrArg _ (List.append_nil _)).trans h.scans

theorem perm_queueAction :
    ((g.queueAction a).2.idle ++ (g.queueAction a).2.active).Perm (g.idle ++ g.active) := by
  cases hidle : g.idle with
  | nil =>
    cases a <;> simp [Gap.queueAction, Gap.appendAction, Gap.sortInsertAction, hidle]
  | cons id idle =>
    cases a with
    | other n =>
      rw [← hidle]
      exact .refl _
    | scan d =>
      rw [Gap.queueAction, Gap.appendAction, hidle]
      dsimp only
      rw [← List.append_assoc]
      exact List.perm_append_singleton id (idle ++ g.active)
    | adv d =>
      rw [Gap.queueAction, Gap.sortInsertAction, hidle]
      dsimp only
      refine ((List.perm_orderedInsert _ id g.active).append_left idle).trans ?_
      exact List.perm_middle

theorem queueAction_refused : (g.queueAction a).1 ≠ .success ↔ g.idle = [] ∨ 1 < a.type := by
  cases a with
  | other n => exact ⟨fun _ => .inr (Nat.lt_add_left n Nat.one_lt_two), fun _ h => by cases h⟩
  | scan d =>
    cases hidle : g.idle <;> simp [Gap.queueAction, Gap.appendAction, hidle, Action.type]
  | adv d =>
    cases hidle : g.idle <;> simp [Gap.queueAction, Gap.sortInsertAction, hidle, Action.type]

theorem queueAction_refused_same (h : (g.queueAction a).1 ≠ .success) :
    (g.queueAction a).2 = g := by
  cases a with
  | other n => rfl
  | scan d =>
    cases hidle : g.idle with
    | nil => rw [Gap.queueAction, Gap.appendAction, hidle]
    | cons id idle => simp [Gap.queueAction, Gap.appendAction, hidle] at h
  | adv d =>
    cases hidle : g.idle with
    | nil => rw [Gap.queueAction, Gap.sortInsertAction, hidle]
    | cons id idle => simp [Gap.queueAction, Gap.sortInsertAction, hidle] at h

theorem queueAction_enabled : (g.queueAction a).2.enabled = g.enabled := by
  cases a <;> cases hidle : g.idle <;>
    simp [Gap.queueAction, Gap.appendAction, Gap.sortInsertAction, hidle]

theorem addAction_queued (henabled : g.enabled = true) (hok : (g.queueAction a).1 = .success) :
    g.addAction a = (.success, (g.queueAction a).2.runActions) := by
  rw [Gap.addAction, if_pos henabled]
  exact if_pos hok

theorem addAction_unqueued (henabled : g.enabled = true) (hno : (g.queueAction a).1 ≠ .success) :
    g.addAction a = ((g.queueAction a).1, g, []) := by
  rw [Gap.addAction, if_pos henabled]
  refine (if_neg hno).trans ?_
  rw [queueAction_refused_same hno]

theorem addAction_disabled (henabled : g.enabled = false) : g.addAction a = (.state, g, []) := by
  rw [Gap.addAction, if_neg (by simp [henabled])]

theorem addAction_success :
    (g.addAction a).1 = .success ↔ g.enabled = true ∧ (g.queueAction a).1 = .success := by
  cases henabled : g.enabled with
  | false => simp [addAction_disabled henabled]
  | true =>
    by_cases hok : (g.queueAction a).1 = .success
    · simp [addAction_queued henabled hok, hok]
    · simp [addAction_unqueued henabled hok, hok]

/-- A refused action changes nothing and starts nothing. -/
theorem addAction_refused (h : (g.addAction a).1 ≠ .success) : (g.addAction a).2 = (g, []) := by
  rw [Ne, addAction_success] at h
  cases henabled : g.enabled with
  | false => rw [addAction_disabled henabled]
  | true => rw [addAction_unqueued henabled fun hok => h ⟨henabled, hok⟩]

theorem addAction_enabled : (g.addAction a).2.1.enabled = g.enabled := by
  by_cases hok : (g.addAction a).1 = .success
  · obtain ⟨henabled, hqueued⟩ := addAction_success.mp hok
    rw [addAction_queued henabled hqueued]
    exact runActions_enabled.trans queueAction_enabled
  · rw [addAction_refused hok]

end Add

namespace History

variable {h : History} {out : Gap × List GapCall} {e : GapEvent}

/-- Every node is in one list, and a queue that is not enabled is empty. -/
structure Sound (taskNum : ℕ) (h : History) : Prop where
  perm : (h.gap.idle ++ h.gap.active).Perm (List.range taskNum)
  stopped : h.gap.enabled = false → h.gap.active = []
  queue : h.gap.enabled = true → ∃ advs scans, Queue h.gap h.platform h.accepted advs scans

theorem moved_same (henabled : out.1.enabled = h.gap.enabled) :
    h.moved out = ⟨out.1, out.2.foldl Platform.call h.platform, h.accepted⟩ := by
  rw [moved, henabled, Bool.not_and_self]
  rfl

theorem Sound.nodup (hs : h.Sound taskNum) : (h.gap.idle ++ h.gap.active).Nodup :=
  hs.perm.nodup_iff.mpr List.nodup_range

theorem Sound.start (hs : h.Sound taskNum) : (h.moved h.gap.gapStart.2).Sound taskNum := by
  cases henabled : h.gap.enabled with
  | true =>
    rw [Gap.gapStart, if_pos henabled, moved_same rfl]
    exact hs
  | false =>
    have hactive := hs.stopped henabled
    rw [Gap.gapStart, if_neg (by simp [henabled]), moved, if_pos (by simp [henabled])]
    refine ⟨hs.perm, fun hf => (by cases hf), fun _ => ⟨[], [], ?_, rfl, rfl⟩⟩
    change h.gap.active.map h.gap.action = []
    rw [hactive, List.map_nil]

theorem Sound.stop (hs : h.Sound taskNum) : (h.moved (h.gap.gapStop taskNum)).Sound taskNum := by
  cases henabled : h.gap.enabled with
  | true =>
    rw [Gap.gapStop, if_pos henabled, moved, if_neg (by simp)]
    refine ⟨?_, fun _ => rfl, fun hf => by cases hf⟩
    change (List.range taskNum ++ []).Perm (List.range taskNum)
    rw [List.append_nil]
  | false =>
    rw [Gap.gapStop, if_neg (by simp [henabled]), moved_same rfl]
    exact hs

/-- The queue runs, after a change that leaves it as it is. -/
theorem Sound.runActions (hs : h.Sound taskNum) :
    (⟨h.gap.runActions.1, h.gap.runActions.2.foldl Platform.call h.platform, h.accepted⟩ :
      History).Sound taskNum where
  perm := perm_runActions.trans hs.perm
  stopped hf := by
    rw [runActions_enabled] at hf
    have hactive := hs.stopped hf
    dsimp only
    rw [Gap.runActions, hactive]
    exact hactive
  queue ht := by
    rw [runActions_enabled] at ht
    obtain ⟨advs, scans, hqueue⟩ := hs.queue ht
    exact hqueue.runActions

theorem Sound.btStatus (hs : h.Sound taskNum) (status : BtStatus) :
    (h.moved (h.gap.handleBtStatus status)).Sound taskNum := by
  cases status with
  | stackState state =>
    rw [Gap.handleBtStatus]
    split_ifs
    · exact hs.start
    · rw [moved_same rfl]
      exact hs
  | advState state =>
    have hset : (⟨{ h.gap with advState := state }, h.platform, h.accepted⟩ :
        History).Sound taskNum :=
      ⟨hs.perm, hs.stopped, fun ht => by
        obtain ⟨advs, scans, hqueue⟩ := hs.queue ht
        exact ⟨advs, scans, hqueue.same rfl rfl⟩⟩
    rw [Gap.handleBtStatus]
    split_ifs
    · have henabled : ({ h.gap with advState := state } : Gap).runActions.1.enabled =
          h.gap.enabled := runActions_enabled
      rw [moved_same henabled]
      exact hset.runActions
    · rw [moved_same rfl]
      exact hset
  | scanState state =>
    rw [Gap.handleBtStatus, moved_same rfl]
    refine ⟨hs.perm, hs.stopped, fun ht => ?_⟩
    obtain ⟨advs, scans, hqueue⟩ := hs.queue ht
    exact ⟨advs, scans, hqueue.same rfl rfl⟩
  | connState =>
    rw [Gap.handleBtStatus, moved_same rfl]
    exact hs
  | other =>
    rw [Gap.handleBtStatus, moved_same rfl]
    exact hs

theorem Sound.addAction (hs : h.Sound taskNum) (a : Action) :
    (h.step taskNum (.addAction a)).Sound taskNum := by
  rw [step]
  rw [moved_same addAction_enabled]
  by_cases hok : (h.gap.addAction a).1 = .success
  · rw [if_pos hok]
    obtain ⟨henabled, hqueued⟩ := addAction_success.mp hok
    rw [addAction_queued henabled hqueued]
    obtain ⟨advs, scans, hqueue⟩ := hs.queue henabled
    have hnew : (⟨(h.gap.queueAction a).2, h.platform, h.accepted ++ [a]⟩ :
        History).Sound taskNum := by
      refine ⟨perm_queueAction.trans hs.perm, fun hf => ?_,
        fun _ => hqueue.queueAction hs.nodup hqueued⟩
      rw [queueAction_enabled, henabled] at hf
      cases hf
    exact hnew.runActions
  · rw [if_neg hok, addAction_refused hok]
    exact hs

theorem Sound.step (hs : h.Sound taskNum) (e : GapEvent) : (h.step taskNum e).Sound taskNum := by
  cases e with
  | start => exact hs.start
  | stop => exact hs.stop
  | addAction a => exact hs.addAction a
  | btStatus status => exact hs.btStatus status

theorem init_sound (taskNum : ℕ) : (init taskNum).Sound taskNum := by
  refine ⟨?_, fun _ => rfl, fun hf => by cases hf⟩
  change (List.range taskNum ++ []).Perm (List.range taskNum)
  rw [List.append_nil]

/-- The history after some events. -/
def after (taskNum : ℕ) (es : List GapEvent) : History := es.foldl (step taskNum) (init taskNum)

theorem after_sound (taskNum : ℕ) (es : List GapEvent) : (after taskNum es).Sound taskNum :=
  List.foldlRecOn es (step taskNum) (init_sound taskNum) fun _ hs e _ => hs.step e

/-- Every node is in one of the lists, once; and while the queue is enabled the actions that wait
are in order, and an action is refused if no node is idle or it is of no known type. -/
structure Serves (taskNum : ℕ) (h : History) : Prop where
  placed : ∀ id, h.gap.idle.count id + h.gap.active.count id = if id < taskNum then 1 else 0
  queue : h.gap.enabled = true → ∃ advs scans, Queue h.gap h.platform h.accepted advs scans
  refused : h.gap.enabled = true → ∀ a,
    ((h.gap.addAction a).1 ≠ .success ↔ h.gap.idle = [] ∨ 1 < a.type) ∧
      ((h.gap.addAction a).1 ≠ .success → (h.gap.addAction a).2 = (h.gap, []))

theorem Sound.serves (hs : h.Sound taskNum) : h.Serves taskNum where
  placed id := by
    rw [← List.count_append, hs.perm.count_eq, List.nodup_range.count]
    simp only [List.mem_range]
  queue := hs.queue
  refused henabled a := by
    refine ⟨?_, addAction_refused⟩
    rw [← queueAction_refused, Ne, addAction_success, henabled]
    simp

end History

/-- Whatever is started, stopped, added and reported, the queue serves the actions in order. -/
theorem queue_serves (taskNum : ℕ) (es : List GapEvent) :
    (History.after taskNum es).Serves taskNum :=
  (History.after_sound taskNum es).serves

example : (History.after 3 [.start, .btStatus (.advState 1), .btStatus (.scanState 1),
    .addAction (.scan startScanParam), .addAction (.adv ⟨.ind, .replicate 31 7, 3⟩),
    .addAction (.adv ⟨.ind, .replicate 31 8, 3⟩)]).gap.active = [1, 2, 0] := by decide

/-- An action of an unknown type is refused though a node is idle. -/
theorem unknown_refused : (History.after 1 [.start]).gap.enabled = true ∧
    (History.after 1 [.start]).gap.idle = [0] ∧
    ((History.after 1 [.start]).gap.addAction (.other 0)).1 = .inval := by
  decide

end Meshx.GapQueue
