import Meshx.Common
import Meshx.Lib.Run

/-! The queue of asynchronous messages with the calls that run inside one another: a notifier or
a handler may send and process messages before it returns, and so may other threads meanwhile.
What a call does up to the notifier or the handler is one step. The two lists are sequences of
nodes. Definitions carry the names of `meshx_async.c`. -/
namespace Meshx.AsyncQueue

open Lib

variable {ι β : Type}

section Model

/-- `meshx_async_msg_t`. -/
structure AsyncMsg (β : Type) where
  type : Byte
  data : β
  dataLen : Byte
  deriving DecidableEq, Repr

/-- The functions that a message is dispatched to. -/
inductive Handler
  | pbAdvTimeout
  | beaconTimeout
  | lowerTransTxTimeout
  | lowerTransRxAckTimeout
  | lowerTransRxIncompleteTimeout
  | ivIndexTimeout
  | proxySarTimeout
  deriving DecidableEq, Repr

/-- The cases of the message's type. Any other type is unknown. -/
def handlerOf (type : Byte) : Option Handler :=
  if type = 0 then some .pbAdvTimeout
  else if type = 1 then some .beaconTimeout
  else if type = 2 then some .lowerTransTxTimeout
  else if type = 3 then some .lowerTransRxAckTimeout
  else if type = 4 then some .lowerTransRxIncompleteTimeout
  else if type = 5 then some .ivIndexTimeout
  else if type = 6 then some .proxySarTimeout
  else none

/-- `meshx_async_msg_notify`: the default one processes a message, and one of the application does
what it likes. -/
inductive Notifier
  | default
  | user
  deriving DecidableEq, Repr

/-- Code that is called and has not returned: the application's notifier, or the handler of the
message in a node. -/
inductive Frame
  | notifying
  | handling (node : ℕ)
  deriving DecidableEq, Repr

/-- The node whose message a frame handles. -/
def Frame.held : Frame → Option ℕ
  | notifying => none
  | handling node => some node

/-- The queue, and the calls that have not returned, each with its thread, the last one first. -/
structure State (ι β : Type) where
  notify : Notifier
  msg : ℕ → AsyncMsg β
  asyncIdle : List ℕ
  asyncActive : List ℕ
  frames : List (ι × Frame)

/-- What a call does that is seen outside of the queue. A message of an unknown type is dispatched
to no handler. -/
inductive Act (β : Type)
  | accepted (msg : AsyncMsg β)
  | refused (err : Errno)
  | dispatched (handler : Option Handler) (msg : AsyncMsg β)
  deriving DecidableEq, Repr

/-- What a thread does next: it calls one of the two functions, or returns from the innermost
notifier or handler that it is in. -/
inductive Event (ι β : Type)
  | send (thread : ι) (msg : AsyncMsg β)
  | process (thread : ι)
  | leave (thread : ι)

/-- `meshx_async_msg_init`, with a notifier of the application or without one. The nodes are the
elements of the array that is allocated. -/
def asyncMsgInit (msgMaxNum : BitVec 32) (handler allocated : Bool) (mem : ℕ → AsyncMsg β) :
    Errno × State ι β :=
  let s : State ι β := ⟨if handler then .user else .default, mem, [], [], []⟩
  if allocated then (.success, { s with asyncIdle := List.range msgMaxNum.toNat })
  else (.mem, s)

namespace State

variable (s : State ι β)

/-- `meshx_async_msg_release`. -/
def asyncMsgRelease (node : ℕ) : State ι β := { s with asyncIdle := s.asyncIdle ++ [node] }

/-- `meshx_async_msg_process` up to the handler, and to the end if there is none. -/
def asyncMsgProcess (thread : ι) : State ι β × List (Act β) :=
  match s.asyncActive with
  | [] => (s, [])
  | node :: rest =>
    let s := { s with asyncActive := rest }
    match handlerOf (s.msg node).type with
    | some handler =>
      ({ s with frames := (thread, .handling node) :: s.frames },
        [.dispatched (some handler) (s.msg node)])
    | none => (s.asyncMsgRelease node, [.dispatched none (s.msg node)])

/-- `meshx_async_msg_notify`. -/
def asyncMsgNotify (thread : ι) : State ι β × List (Act β) :=
  match s.notify with
  | .default => s.asyncMsgProcess thread
  | .user => ({ s with frames := (thread, .notifying) :: s.frames }, [])

/-- The first idle node, in front of the others, gets the message and goes to the active list. -/
def enqueue (node : ℕ) (rest : List ℕ) (msg : AsyncMsg β) : State ι β :=
  { s with
    asyncIdle := rest
    msg := Function.update s.msg node msg
    asyncActive := s.asyncActive ++ [node] }

/-- `meshx_async_msg_send` up to what is called by the notifier. -/
def asyncMsgSend (thread : ι) (msg : AsyncMsg β) : State ι β × List (Act β) :=
  match s.asyncIdle with
  | [] => (s, [.refused .resource])
  | node :: rest =>
    let r := (s.enqueue node rest msg).asyncMsgNotify thread
    (r.1, .accepted msg :: r.2)

/-- The innermost call that a thread is in, and the others. -/
def popFrame [DecidableEq ι] (thread : ι) : List (ι × Frame) → Option (Frame × List (ι × Frame))
  | [] => none
  | f :: fs =>
    if f.1 = thread then some (f.2, fs)
    else (popFrame thread fs).map fun r => (r.1, f :: r.2)

/-- The notifier or the handler returns. Behind the notifier there is nothing left to do, behind
the handler the node is released. -/
def leave [DecidableEq ι] (thread : ι) : State ι β :=
  match popFrame thread s.frames with
  | none => s
  | some (.notifying, fs) => { s with frames := fs }
  | some (.handling node, fs) => { s with frames := fs }.asyncMsgRelease node

def step [DecidableEq ι] : Event ι β → State ι β × List (Act β)
  | .send thread msg => s.asyncMsgSend thread msg
  | .process thread => s.asyncMsgProcess thread
  | .leave thread => (s.leave thread, [])

/-- The state after the events, and all that has been seen. -/
def runEvents [DecidableEq ι] : State ι β → List (Event ι β) → State ι β × List (Act β)
  | s, [] => (s, [])
  | s, e :: es => ((runEvents (s.step e).1 es).1, (s.step e).2 ++ (runEvents (s.step e).1 es).2)

/-- The nodes whose message is being processed. -/
def processing : List ℕ := s.frames.filterMap (·.2.held)

/-- The messages that wait, the oldest one first. -/
def waiting : List (AsyncMsg β) := s.asyncActive.map s.msg

end State

def Act.acceptedMsg : Act β → Option (AsyncMsg β)
  | accepted msg => some msg
  | refused _ | dispatched _ _ => none

def Act.dispatchedMsg : Act β → Option (AsyncMsg β)
  | dispatched _ msg => some msg
  | accepted _ | refused _ => none

/-- The messages that were accepted. -/
def acceptedIn (acts : List (Act β)) : List (AsyncMsg β) := acts.filterMap Act.acceptedMsg

/-- The messages that were dispatched. -/
def dispatchedIn (acts : List (Act β)) : List (AsyncMsg β) := acts.filterMap Act.dispatchedMsg

end Model

theorem acceptedIn_append (acts acts' : List (Act β)) :
    acceptedIn (acts ++ acts') = acceptedIn acts ++ acceptedIn acts' := List.filterMap_append

theorem dispatchedIn_append (acts acts' : List (Act β)) :
    dispatchedIn (acts ++ acts') = dispatchedIn acts ++ dispatchedIn acts' := List.filterMap_append

/-- Each node is idle, or its message waits or is being processed. -/
def State.Conserved (s : State ι β) (n : ℕ) : Prop :=
  (s.asyncIdle ++ (s.asyncActive ++ s.processing)).Perm (List.range n)

/-- What a step does to the messages: those that waited before it and the accepted ones are the
dispatched ones, the oldest, and those that wait after it. -/
structure Moves (s s' : State ι β) (acts : List (Act β)) (n : ℕ) : Prop where
  conserved : s'.Conserved n
  order : s.waiting ++ acceptedIn acts = dispatchedIn acts ++ s'.waiting
  handler : ∀ h msg, .dispatched h msg ∈ acts → h = handlerOf msg.type

section Steps

variable {s : State ι β} {n node : ℕ} {rest : List ℕ} {thread : ι} {msg : AsyncMsg β}

theorem asyncMsgProcess_nil (h : s.asyncActive = []) : s.asyncMsgProcess thread = (s, []) := by
  rw [State.asyncMsgProcess, h]

/-- The oldest message is dispatched, and its node is taken out of the queue. -/
theorem asyncMsgProcess_cons (thread : ι) (h : s.asyncActive = node :: rest) :
    ∃ s' : State ι β, s.asyncMsgProcess thread =
        (s', [.dispatched (handlerOf (s.msg node).type) (s.msg node)]) ∧
      s'.notify = s.notify ∧ s'.msg = s.msg ∧ s'.asyncActive = rest ∧
      (s'.asyncIdle ++ s'.processing).Perm (node :: (s.asyncIdle ++ s.processing)) := by
  cases hhandler : handlerOf (s.msg node).type with
  | some handler =>
    refine ⟨{ s with
      asyncActive := rest
      frames := (thread, .handling node) :: s.frames }, ?_, rfl, rfl, rfl, List.perm_middle⟩
    rw [State.asyncMsgProcess, h]
    dsimp only
    rw [hhandler]
  | none =>
    refine ⟨{ s with
      asyncActive := rest
      asyncIdle := s.asyncIdle ++ [node] }, ?_, rfl, rfl, rfl, ?_⟩
    · rw [State.asyncMsgProcess, h]
      dsimp only
      rw [hhandler]
      rfl
    · exact (List.perm_append_singleton node s.asyncIdle).append_right s.processing

theorem asyncMsgProcess_moves (hs : s.Conserved n) :
    Moves s (s.asyncMsgProcess thread).1 (s.asyncMsgProcess thread).2 n := by
  cases hactive : s.asyncActive with
  | nil =>
    rw [asyncMsgProcess_nil hactive]
    exact ⟨hs, List.append_nil _, nofun⟩
  | cons node rest =>
    obtain ⟨s', hprocess, -, hmsg, hrest, hnodes⟩ := asyncMsgProcess_cons thread hactive
    rw [hprocess]
    refine ⟨?_, ?_, ?_⟩
    · rw [State.Conserved, hrest]
      rw [State.Conserved, hactive] at hs
      refine List.Perm.trans ?_ hs
      calc s'.asyncIdle ++ (rest ++ s'.processing)
        _ |>.Perm (rest ++ (s'.asyncIdle ++ s'.processing)) := List.perm_append_comm_assoc _ _ _
        _ |>.Perm (rest ++ node :: (s.asyncIdle ++ s.processing)) := hnodes.append_left rest
        _ |>.Perm (node :: rest ++ (s.asyncIdle ++ s.processing)) := List.perm_middle
        _ |>.Perm (s.asyncIdle ++ (node :: rest ++ s.processing)) :=
          List.perm_append_comm_assoc _ _ _
    · rw [State.waiting, State.waiting, hmsg, hrest, hactive]
      simp [acceptedIn, dispatchedIn, Act.acceptedMsg, Act.dispatchedMsg]
    · intro h msg hmem
      cases List.mem_singleton.mp hmem
      rfl

theorem asyncMsgNotify_moves (thread : ι) (hs : s.Conserved n) :
    Moves s (s.asyncMsgNotify thread).1 (s.asyncMsgNotify thread).2 n := by
  rw [State.asyncMsgNotify]
  cases s.notify with
  | default => exact asyncMsgProcess_moves hs
  | user => exact ⟨hs, List.append_nil _, nofun⟩

theorem asyncMsgNotify_acts {a : Act β} (ha : a ∈ (s.asyncMsgNotify thread).2) :
    ∃ h m, a = .dispatched h m := by
  rw [State.asyncMsgNotify] at ha
  cases hnotify : s.notify with
  | user =>
    rw [hnotify] at ha
    cases ha
  | default =>
    rw [hnotify] at ha
    cases hactive : s.asyncActive with
    | nil =>
      rw [asyncMsgProcess_nil hactive] at ha
      cases ha
    | cons node rest =>
      obtain ⟨s', hprocess, -⟩ := asyncMsgProcess_cons thread hactive
      rw [hprocess] at ha
      exact ⟨_, _, List.mem_singleton.mp ha⟩

theorem asyncMsgSend_nil (h : s.asyncIdle = []) :
    s.asyncMsgSend thread msg = (s, [.refused .resource]) := by
  rw [State.asyncMsgSend, h]

theorem asyncMsgSend_cons (thread : ι) (msg : AsyncMsg β) (h : s.asyncIdle = node :: rest) :
    s.asyncMsgSend thread msg =
      (((s.enqueue node rest msg).asyncMsgNotify thread).1,
        .accepted msg :: ((s.enqueue node rest msg).asyncMsgNotify thread).2) := by
  rw [State.asyncMsgSend, h]

theorem enqueue_conserved (msg : AsyncMsg β) (hs : s.Conserved n)
    (h : s.asyncIdle = node :: rest) : (s.enqueue node rest msg).Conserved n := by
  rw [State.Conserved, h] at hs
  refine List.Perm.trans ?_ hs
  have hmiddle : (s.asyncActive ++ [node] ++ s.processing).Perm
      (node :: (s.asyncActive ++ s.processing)) :=
    (List.perm_append_singleton node s.asyncActive).append_right s.processing
  exact (hmiddle.append_left rest).trans List.perm_middle

/-- A node is in one place only. -/
theorem idle_not_mem (hs : s.Conserved n) (h : s.asyncIdle = node :: rest) :
    node ∉ rest ∧ node ∉ s.asyncActive ∧ node ∉ s.processing := by
  rw [State.Conserved, h] at hs
  have hnode : node ∉ rest ++ (s.asyncActive ++ s.processing) :=
    (List.nodup_cons.mp (hs.nodup_iff.mpr List.nodup_range)).1
  rwa [List.mem_append, List.mem_append, not_or, not_or] at hnode

/-- The message waits behind the others. -/
theorem enqueue_waiting (msg : AsyncMsg β) (hs : s.Conserved n) (h : s.asyncIdle = node :: rest) :
    (s.enqueue node rest msg).waiting = s.waiting ++ [msg] := by
  have hold : s.asyncActive.map (Function.update s.msg node msg) = s.asyncActive.map s.msg :=
    List.map_congr_left fun x hx =>
      Function.update_of_ne (fun heq : x = node => (idle_not_mem hs h).2.1 (heq ▸ hx)) _ _
  change (s.asyncActive ++ [node]).map (Function.update s.msg node msg) = _
  rw [List.map_append, hold, List.map_singleton, Function.update_self, State.waiting]

theorem asyncMsgSend_moves (hs : s.Conserved n) (msg : AsyncMsg β) :
    Moves s (s.asyncMsgSend thread msg).1 (s.asyncMsgSend thread msg).2 n := by
  cases hidle : s.asyncIdle with
  | nil =>
    rw [asyncMsgSend_nil hidle]
    exact ⟨hs, List.append_nil _, by simp⟩
  | cons node rest =>
    obtain ⟨hconserved, horder, hhandler⟩ :=
      asyncMsgNotify_moves thread (enqueue_conserved msg hs hidle)
    rw [asyncMsgSend_cons thread msg hidle]
    refine ⟨hconserved, ?_, ?_⟩
    · rw [enqueue_waiting msg hs hidle, List.append_assoc] at horder
      exact horder
    · intro h msg hmem
      rcases List.mem_cons.mp hmem with heq | hmem
      · cases heq
      · exact hhandler h msg hmem

theorem asyncMsgInit_conserved (msgMaxNum : BitVec 32) (handler allocated : Bool)
    (mem : ℕ → AsyncMsg β) :
    (asyncMsgInit msgMaxNum handler allocated mem : Errno × State ι β).2.Conserved
      (if allocated then msgMaxNum.toNat else 0) := by
  rw [State.Conserved, asyncMsgInit]
  cases allocated
  · exact List.Perm.refl []
  · rw [if_pos rfl, if_pos rfl]
    exact List.Perm.of_eq (List.append_nil _)

end Steps

section Runs

variable [DecidableEq ι] {s s' : State ι β} {n : ℕ} {thread : ι} {fs fs' : List (ι × Frame)}
  {f : Frame}

theorem popFrame_perm (h : State.popFrame thread fs = some (f, fs')) :
    fs.Perm ((thread, f) :: fs') := by
  induction fs generalizing fs' with
  | nil => cases h
  | cons g fs ih =>
    rw [State.popFrame] at h
    split_ifs at h with hg
    · cases h
      rw [← hg]
    · obtain ⟨⟨f₁, fs₁⟩, hrest, heq⟩ := Option.map_eq_some_iff.mp h
      cases heq
      exact ((ih hrest).cons g).trans (.swap _ _ _)

theorem leave_moves (hs : s.Conserved n) : Moves s (s.leave thread) [] n := by
  rw [State.leave]
  rcases hpop : State.popFrame thread s.frames with _ | ⟨f, fs⟩
  · exact ⟨hs, List.append_nil _, nofun⟩
  have hheld := (popFrame_perm hpop).filterMap (·.2.held)
  cases f with
  | notifying =>
    exact ⟨((hheld.symm.append_left _).append_left _).trans hs, List.append_nil _, nofun⟩
  | handling node =>
    refine ⟨List.Perm.trans ?_ hs, List.append_nil _, nofun⟩
    change (s.asyncIdle ++ [node] ++ (s.asyncActive ++ fs.filterMap (·.2.held))).Perm _
    have hnode : (node :: fs.filterMap (·.2.held)).Perm s.processing := hheld.symm
    rw [List.append_assoc]
    exact (List.perm_middle.symm.trans (hnode.append_left s.asyncActive)).append_left s.asyncIdle

theorem step_moves (hs : s.Conserved n) (e : Event ι β) :
    Moves s (s.step e).1 (s.step e).2 n := by
  cases e with
  | send thread msg => exact asyncMsgSend_moves hs msg
  | process thread => exact asyncMsgProcess_moves hs
  | leave thread => exact leave_moves hs

theorem runEvents_moves (hs : s.Conserved n) (es : List (Event ι β)) :
    Moves s (s.runEvents es).1 (s.runEvents es).2 n := by
  induction es generalizing s with
  | nil => exact ⟨hs, List.append_nil _, nofun⟩
  | cons e es ih =>
    have hstep := step_moves hs e
    have hrest := ih hstep.conserved
    refine ⟨hrest.conserved, ?_, ?_⟩
    · rw [State.runEvents, acceptedIn_append, dispatchedIn_append, ← List.append_assoc,
        hstep.order, List.append_assoc, hrest.order, List.append_assoc]
    · intro h msg hmem
      rcases List.mem_append.mp hmem with hmem | hmem
      · exact hstep.handler h msg hmem
      · exact hrest.handler h msg hmem

/-- Each node is in the queue or its message is being processed if and only if a send is
refused. -/
theorem refused_iff (hs : s.Conserved n) (thread : ι) (msg : AsyncMsg β) :
    .refused .resource ∈ (s.step (.send thread msg)).2 ↔
      ∀ node < n, node ∈ s.asyncActive ∨ node ∈ s.processing := by
  cases hidle : s.asyncIdle with
  | nil =>
    refine iff_of_true ?_ fun node hnode => ?_
    · rw [State.step, asyncMsgSend_nil hidle]
      exact List.mem_singleton_self _
    · rw [State.Conserved, hidle] at hs
      exact List.mem_append.mp (hs.mem_iff.mpr (List.mem_range.mpr hnode))
  | cons node rest =>
    refine iff_of_false ?_ fun hall => ?_
    · rw [State.step, asyncMsgSend_cons thread msg hidle, List.mem_cons]
      rintro (heq | hmem)
      · cases heq
      · obtain ⟨h, m, heq⟩ := asyncMsgNotify_acts hmem
        cases heq
    · have hnode : node < n := by
        rw [State.Conserved, hidle] at hs
        exact List.mem_range.mp (hs.mem_iff.mp List.mem_cons_self)
      obtain ⟨-, hactive, hprocessing⟩ := idle_not_mem hs hidle
      exact (hall node hnode).elim hactive hprocessing

theorem accepted_of_not_refused (thread : ι) (msg : AsyncMsg β)
    (h : .refused .resource ∉ (s.step (.send thread msg)).2) :
    acceptedIn (s.step (.send thread msg)).2 = [msg] := by
  rw [State.step] at h ⊢
  cases hidle : s.asyncIdle with
  | nil =>
    rw [asyncMsgSend_nil hidle] at h
    exact absurd (List.mem_singleton_self _) h
  | cons node rest =>
    have hnone : acceptedIn ((s.enqueue node rest msg).asyncMsgNotify thread).2 = [] := by
      refine List.filterMap_eq_nil_iff.mpr fun a ha => ?_
      obtain ⟨h, m, rfl⟩ := asyncMsgNotify_acts ha
      rfl
    rw [asyncMsgSend_cons thread msg hidle]
    exact congrArg (msg :: ·) hnone

/-- A process call dispatches the oldest message that waits. -/
theorem dispatchedIn_process (thread : ι) :
    dispatchedIn (s.step (.process thread)).2 = s.waiting.take 1 := by
  rw [State.step, State.waiting]
  cases hactive : s.asyncActive with
  | nil =>
    rw [asyncMsgProcess_nil hactive]
    rfl
  | cons node rest =>
    obtain ⟨s', hprocess, -⟩ := asyncMsgProcess_cons thread hactive
    rw [hprocess]
    rfl

/-- As many process calls as messages wait dispatch them all. -/
theorem dispatchedIn_drain (thread : ι) : dispatchedIn
    (s.runEvents (.replicate s.asyncActive.length (.process thread))).2 = s.waiting := by
  generalize hactive : s.asyncActive = nodes
  induction nodes generalizing s with
  | nil =>
    rw [State.waiting, hactive]
    rfl
  | cons node rest ih =>
    obtain ⟨s', hprocess, -, hmsg, hrest, -⟩ := asyncMsgProcess_cons thread hactive
    have hstep : s.step (.process thread) = _ := hprocess
    rw [List.length_cons, List.replicate_succ, State.runEvents, hstep, dispatchedIn_append,
      ih hrest, State.waiting, State.waiting, hmsg, hrest, hactive]
    rfl

/-- What is to be shown of the queue after any run. -/
structure Delivered (n : ℕ) (s : State ι β) (acts : List (Act β)) : Prop where
  order : acceptedIn acts = dispatchedIn acts ++ s.waiting
  handler : ∀ h msg, .dispatched h msg ∈ acts → h = handlerOf msg.type
  conserved : (s.asyncIdle ++ (s.asyncActive ++ s.processing)).Perm (List.range n)
  refused : ∀ thread msg, .refused .resource ∈ (s.step (.send thread msg)).2 ↔
    ∀ node < n, node ∈ s.asyncActive ∨ node ∈ s.processing
  accepted : ∀ thread msg, .refused .resource ∉ (s.step (.send thread msg)).2 →
    acceptedIn (s.step (.send thread msg)).2 = [msg]
  oldest : ∀ thread, dispatchedIn (s.step (.process thread)).2 = s.waiting.take 1
  drained : ∀ thread, acceptedIn acts = dispatchedIn (acts ++
    (s.runEvents (.replicate s.asyncActive.length (.process thread))).2)

theorem delivered (hs : s.Conserved n) (hempty : s.asyncActive = []) (es : List (Event ι β)) :
    Delivered n (s.runEvents es).1 (s.runEvents es).2 := by
  obtain ⟨hconserved, horder, hhandler⟩ := runEvents_moves hs es
  have horder' : acceptedIn (s.runEvents es).2 =
      dispatchedIn (s.runEvents es).2 ++ (s.runEvents es).1.waiting := by
    rwa [State.waiting, hempty, List.map_nil, List.nil_append] at horder
  refine ⟨horder', hhandler, hconserved, refused_iff hconserved, accepted_of_not_refused,
    dispatchedIn_process, fun thread => ?_⟩
  rw [dispatchedIn_append, dispatchedIn_drain, horder']

end Runs

end Meshx.AsyncQueue
