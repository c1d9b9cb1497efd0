import Meshx.AsyncQueue
import Meshx.ListSequences

/-! The two lists of the queue of asynchronous messages on the heap: the list calls that a step
makes are legal, and what they leave on the heap stands for the two sequences of the queue. -/
namespace Meshx.AsyncQueue

open Lib LinkList

variable {ι β : Type}

section Model

/-- Where the heads of the two lists and the nodes are. -/
inductive Addr
  | idleHead
  | activeHead
  | node (i : ℕ)
  deriving DecidableEq, Repr

def queueLists (idle active : List ℕ) : Sequences Addr
  | .idleHead => some (idle.map .node)
  | .activeHead => some (active.map .node)
  | .node _ => none

namespace State

variable (s : State ι β)

def lists : Sequences Addr := queueLists s.asyncIdle s.asyncActive

/-- The list calls of `meshx_async_msg_process`. -/
def processCalls : List (ListOp Addr) :=
  match s.asyncActive with
  | [] => [.pop .activeHead]
  | node :: _ =>
    match handlerOf (s.msg node).type with
    | some _ => [.pop .activeHead]
    | none => [.pop .activeHead, .append .idleHead (.node node)]

def notifyCalls : List (ListOp Addr) :=
  match s.notify with
  | .default => s.processCalls
  | .user => []

/-- The list calls of `meshx_async_msg_send`. -/
def sendCalls (msg : AsyncMsg β) : List (ListOp Addr) :=
  match s.asyncIdle with
  | [] => [.pop .idleHead]
  | node :: rest =>
    .pop .idleHead :: .append .activeHead (.node node) ::
      (s.enqueue node rest msg).notifyCalls

def leaveCalls [DecidableEq ι] (thread : ι) : List (ListOp Addr) :=
  match popFrame thread s.frames with
  | none => []
  | some (.notifying, _) => []
  | some (.handling node, _) => [.append .idleHead (.node node)]

def stepCalls [DecidableEq ι] : Event ι β → List (ListOp Addr)
  | .send _ msg => s.sendCalls msg
  | .process _ => s.processCalls
  | .leave thread => s.leaveCalls thread

/-- The list calls of `meshx_async_msg_init`, when the heads are initialised. -/
def initCalls (nodes : List ℕ) : List (ListOp Addr) :=
  nodes.map fun i => .append .idleHead (.node i)

/-- The list calls of a run. -/
def eventCalls [DecidableEq ι] : State ι β → List (Event ι β) → List (ListOp Addr)
  | _, [] => []
  | s, e :: es => s.stepCalls e ++ eventCalls (s.step e).1 es

end State

end Model

section Sequences

variable {idle active : List ℕ} {i : ℕ}

theorem free_of_not_mem (hidle : i ∉ idle) (hactive : i ∉ active) :
    Free (queueLists idle active) (.node i) := by
  intro head xs hxs
  have hmap {l : List ℕ} (hl : i ∉ l) : Addr.node i ∉ l.map Addr.node := fun hmem => by
    obtain ⟨j, hj, heq⟩ := List.mem_map.mp hmem
    cases heq
    exact hl hj
  cases head with
  | idleHead =>
    cases hxs
    exact List.not_mem_cons_of_ne_of_not_mem Addr.noConfusion (hmap hidle)
  | activeHead =>
    cases hxs
    exact List.not_mem_cons_of_ne_of_not_mem Addr.noConfusion (hmap hactive)
  | node j => cases hxs

theorem map_append_node (l : List ℕ) (i : ℕ) :
    l.map Addr.node ++ [.node i] = (l ++ [i]).map Addr.node := by
  rw [List.map_append, List.map_singleton]

theorem after_pop_idle : (ListOp.pop .idleHead).after (queueLists idle active) =
    queueLists idle.tail active := by
  funext a
  cases a
  · exact congrArg some List.map_tail.symm
  · rfl
  · rfl

theorem after_pop_active : (ListOp.pop .activeHead).after (queueLists idle active) =
    queueLists idle active.tail := by
  funext a
  cases a
  · rfl
  · exact congrArg some List.map_tail.symm
  · rfl

theorem after_append_idle : (ListOp.append .idleHead (.node i)).after (queueLists idle active) =
    queueLists (idle ++ [i]) active := by
  funext a
  cases a
  · exact congrArg some (map_append_node _ _)
  · rfl
  · rfl

theorem after_append_active :
    (ListOp.append .activeHead (.node i)).after (queueLists idle active) =
      queueLists idle (active ++ [i]) := by
  funext a
  cases a
  · rfl
  · exact congrArg some (map_append_node _ _)
  · rfl

end Sequences

section Steps

variable {s : State ι β} {n : ℕ}

/-- What calls are legal, and which sequences they leave. -/
def Turns (S : Sequences Addr) (ops : List (ListOp Addr)) (S' : Sequences Addr) : Prop :=
  LegalRun S ops ∧ afterAll S ops = S'

theorem Turns.append {S S' S'' : Sequences Addr} {ops ops' : List (ListOp Addr)}
    (h : Turns S ops S') (h' : Turns S' ops' S'') : Turns S (ops ++ ops') S'' := by
  induction ops generalizing S with
  | nil =>
    obtain ⟨-, rfl⟩ := h
    exact h'
  | cons op ops ih =>
    obtain ⟨⟨hop, hops⟩, hafter⟩ := h
    obtain ⟨hrest, hafter'⟩ := ih ⟨hops, hafter⟩
    exact ⟨⟨hop, hrest⟩, hafter'⟩

theorem turns_pop_active {idle active : List ℕ} :
    Turns (queueLists idle active) [.pop .activeHead] (queueLists idle active.tail) :=
  ⟨⟨⟨_, rfl⟩, trivial⟩, after_pop_active⟩

theorem turns_pop_idle {idle active : List ℕ} :
    Turns (queueLists idle active) [.pop .idleHead] (queueLists idle.tail active) :=
  ⟨⟨⟨_, rfl⟩, trivial⟩, after_pop_idle⟩

theorem turns_append_idle {idle active : List ℕ} {i : ℕ} (hidle : i ∉ idle)
    (hactive : i ∉ active) : Turns (queueLists idle active) [.append .idleHead (.node i)]
      (queueLists (idle ++ [i]) active) :=
  ⟨⟨⟨⟨_, rfl⟩, free_of_not_mem hidle hactive⟩, trivial⟩, after_append_idle⟩

theorem turns_append_active {idle active : List ℕ} {i : ℕ} (hidle : i ∉ idle)
    (hactive : i ∉ active) : Turns (queueLists idle active) [.append .activeHead (.node i)]
      (queueLists idle (active ++ [i])) :=
  ⟨⟨⟨⟨_, rfl⟩, free_of_not_mem hidle hactive⟩, trivial⟩, after_append_active⟩

theorem initCalls_turns {idle nodes : List ℕ} (h : (idle ++ nodes).Nodup) :
    Turns (queueLists idle []) (State.initCalls nodes) (queueLists (idle ++ nodes) []) := by
  induction nodes generalizing idle with
  | nil =>
    rw [List.append_nil]
    exact ⟨trivial, rfl⟩
  | cons i nodes ih =>
    have hi : i ∉ idle := fun hmem =>
      (List.nodup_append.mp h).2.2 i hmem i List.mem_cons_self rfl
    rw [List.append_cons] at h ⊢
    exact (turns_append_idle hi List.not_mem_nil).append (ih h)

/-- Two heads that are initialised have the empty lists. -/
theorem init_heads (h : Heap Addr) :
    ∃ h₁ h₂, listInitHead h (some .activeHead) = .ok h₁ ∧
      listInitHead h₁ (some .idleHead) = .ok h₂ ∧ Represents h₂ (queueLists [] []) := by
  have hnone : Represents h fun _ => none := ⟨nofun, nofun⟩
  have hfirst : Free (fun _ => none) Addr.activeHead := nofun
  obtain ⟨h₁, hactive, hrep₁⟩ := listInitHead_represents hnone hfirst
  have hfree : Free (Function.update (fun _ => none) Addr.activeHead (some [])) .idleHead := by
    intro head xs hxs
    cases head with
    | activeHead =>
      cases hxs
      decide
    | idleHead => cases hxs
    | node i => cases hxs
  obtain ⟨h₂, hidle, hrep₂⟩ := listInitHead_represents hrep₁ hfree
  refine ⟨h₁, h₂, hactive, hidle, ?_⟩
  convert hrep₂ using 1
  funext a
  cases a <;> rfl

theorem processCalls_turns (thread : ι) (hs : s.Conserved n) :
    Turns s.lists s.processCalls (s.asyncMsgProcess thread).1.lists := by
  rw [State.processCalls, State.asyncMsgProcess, State.lists]
  cases hactive : s.asyncActive with
  | nil =>
    rw [State.lists, hactive]
    exact turns_pop_active
  | cons node rest =>
    dsimp only
    cases hhandler : handlerOf (s.msg node).type with
    | some handler => exact turns_pop_active
    | none =>
      have hnodup : (s.asyncIdle ++ (node :: rest ++ s.processing)).Nodup := by
        rw [State.Conserved, hactive] at hs
        exact hs.nodup_iff.mpr List.nodup_range
      obtain ⟨-, hrest, hdisjoint⟩ := List.nodup_append.mp hnodup
      refine turns_pop_active.append (turns_append_idle (i := node) (fun hmem => ?_) fun hmem => ?_)
      · exact hdisjoint node hmem node List.mem_cons_self rfl
      · exact (List.nodup_cons.mp hrest).1 (List.mem_append_left _ hmem)

theorem notifyCalls_turns (thread : ι) (hs : s.Conserved n) :
    Turns s.lists s.notifyCalls (s.asyncMsgNotify thread).1.lists := by
  rw [State.notifyCalls, State.asyncMsgNotify]
  cases s.notify with
  | default => exact processCalls_turns thread hs
  | user => exact ⟨trivial, rfl⟩

theorem sendCalls_turns (thread : ι) (msg : AsyncMsg β) (hs : s.Conserved n) :
    Turns s.lists (s.sendCalls msg) (s.asyncMsgSend thread msg).1.lists := by
  rw [State.sendCalls, State.asyncMsgSend, State.lists]
  cases hidle : s.asyncIdle with
  | nil =>
    rw [State.lists, hidle]
    exact turns_pop_idle
  | cons node rest =>
    obtain ⟨hrest, hactive, -⟩ := idle_not_mem hs hidle
    have hlists : Turns (queueLists (node :: rest) s.asyncActive)
        [.pop .idleHead, .append .activeHead (.node node)] (s.enqueue node rest msg).lists :=
      turns_pop_idle.append (turns_append_active hrest hactive)
    exact hlists.append (notifyCalls_turns thread (enqueue_conserved msg hs hidle))

variable [DecidableEq ι]

theorem leaveCalls_turns (thread : ι) (hs : s.Conserved n) :
    Turns s.lists (s.leaveCalls thread) (s.leave thread).lists := by
  rw [State.leaveCalls, State.leave]
  rcases hpop : State.popFrame thread s.frames with _ | ⟨_ | node, fs⟩
  · exact ⟨trivial, rfl⟩
  · exact ⟨trivial, rfl⟩
  · have hmem : node ∈ s.processing := by
      have hheld := (popFrame_perm hpop).filterMap (·.2.held)
      exact hheld.mem_iff.mpr List.mem_cons_self
    have hnodup : (s.asyncIdle ++ (s.asyncActive ++ s.processing)).Nodup :=
      hs.nodup_iff.mpr List.nodup_range
    obtain ⟨-, hrest, hdisjoint⟩ := List.nodup_append.mp hnodup
    refine turns_append_idle (fun hidle => ?_) fun hactive => ?_
    · exact hdisjoint node hidle node (List.mem_append_right _ hmem) rfl
    · exact (List.nodup_append.mp hrest).2.2 node hactive node hmem rfl

theorem eventCalls_turns (hs : s.Conserved n) (es : List (Event ι β)) :
    Turns s.lists (s.eventCalls es) (s.runEvents es).1.lists := by
  induction es generalizing s with
  | nil => exact ⟨trivial, rfl⟩
  | cons e es ih =>
    refine Turns.append ?_ (ih (step_moves hs e).conserved)
    cases e with
    | send thread msg => exact sendCalls_turns thread msg hs
    | process thread => exact processCalls_turns thread hs
    | leave thread => exact leaveCalls_turns thread hs

/-- In every run from the start on, the two lists on the heap stand for the sequences of the
queue. -/
theorem eventCalls_represents (msgMaxNum : BitVec 32) (handler : Bool) (mem : ℕ → AsyncMsg β)
    (h : Heap Addr) (es : List (Event ι β)) :
    ∃ h₁ h₂ h', listInitHead h (some .activeHead) = .ok h₁ ∧
      listInitHead h₁ (some .idleHead) = .ok h₂ ∧
      Yields (runCalls · h₂ (State.initCalls (List.range msgMaxNum.toNat) ++
        (asyncMsgInit msgMaxNum handler true mem).2.eventCalls es)) h' ∧
      Represents h' ((asyncMsgInit msgMaxNum handler true mem).2.runEvents es).1.lists := by
  obtain ⟨h₁, h₂, hactive, hidle, hrep⟩ := init_heads h
  have hinit : Turns (queueLists [] []) _ _ :=
    initCalls_turns (List.nodup_range : (List.range msgMaxNum.toNat).Nodup)
  obtain ⟨hlegal, hafter⟩ := hinit.append
    (eventCalls_turns (asyncMsgInit_conserved msgMaxNum handler true mem) es)
  obtain ⟨h', hrun, hrep'⟩ := runCalls_represents hrep hlegal
  exact ⟨h₁, h₂, h', hactive, hidle, hrun, hafter ▸ hrep'⟩

end Steps

end Meshx.AsyncQueue
