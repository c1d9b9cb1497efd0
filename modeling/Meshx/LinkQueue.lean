import Meshx.LinkList
import Meshx.Lib.Chain

/-! The singly linked queues of the stack: the links of their elements and the two ends of each
queue, and the lists that they stand for. Definitions carry the names of `meshx_queue.c`. -/
namespace Meshx.LinkQueue

open Lib
open LinkList (assertNonNull deref)

variable {α κ : Type}

/-- `meshx_queue_t` -/
structure Queue (α : Type) where
  pfront : Option α
  pback : Option α
  deriving DecidableEq, Repr

/-- The queues, by their names, and the links of the elements that may be put into them. -/
structure State (κ α : Type) where
  queue : κ → Queue α
  pnext : α → Option α

variable [DecidableEq α] [DecidableEq κ]

def queueInit (s : State κ α) (pqueue : Option κ) : Except Fault (State κ α) := do
  let k ← assertNonNull pqueue
  return { s with queue := Function.update s.queue k ⟨none, none⟩ }

def queuePush (s : State κ α) (pqueue : Option κ) (pelem : Option α) :
    Except Fault (State κ α) := do
  let k ← assertNonNull pqueue
  let elem ← assertNonNull pelem
  let pnext := Function.update s.pnext elem none
  if (s.queue k).pfront = none then
    return ⟨Function.update s.queue k ⟨some elem, some elem⟩, pnext⟩
  else do
    let back ← deref (s.queue k).pback
    return ⟨Function.update s.queue k ⟨(s.queue k).pfront, some elem⟩,
      Function.update pnext back (some elem)⟩

/-- The element that is popped keeps its link. -/
def queuePop (s : State κ α) (pqueue : Option κ) : Except Fault (Option α × State κ α) := do
  let k ← assertNonNull pqueue
  let pelem := (s.queue k).pfront
  let pfront := pelem.bind s.pnext
  let pback := if pfront = none then none else (s.queue k).pback
  return (pelem, { s with queue := Function.update s.queue k ⟨pfront, pback⟩ })

omit [DecidableEq α] [DecidableEq κ] in
def queuePeek (s : State κ α) (pqueue : Option κ) : Except Fault (Option α) := do
  let k ← deref pqueue
  return (s.queue k).pfront

/-- A call for a queue, with what it returns. -/
def call (s : State κ α) : QueueOp κ α → Except Fault (Option α × State κ α)
  | .init k => (none, ·) <$> queueInit s (some k)
  | .push k x => (none, ·) <$> queuePush s (some k) (some x)
  | .pop k => queuePop s (some k)
  | .peek k => (·, s) <$> queuePeek s (some k)

/-- A call in a run, which collects what is returned. -/
def callStep (s : State κ α × List (Option α)) (op : QueueOp κ α) :
    Except Fault (State κ α × List (Option α)) :=
  (fun out => (out.2, s.2 ++ [out.1])) <$> call s.1 op

def fifoStep (q : (κ → List α) × List (Option α)) (op : QueueOp κ α) :
    Except Fault ((κ → List α) × List (Option α)) :=
  .ok ((fifo q.1 op).2, q.2 ++ [(fifo q.1 op).1])

/-- Each queue stands for the list that its links lead through, and its back is the last one. -/
structure Represents (s : State κ α) (q : κ → List α) : Prop where
  chain : ∀ k, Chain s.pnext (s.queue k).pfront (q k)
  back : ∀ k, (s.queue k).pback = (q k).getLast?

variable {s : State κ α} {q : κ → List α} {k : κ} {x : α}

theorem call_init (h : Represents s q) : ∃ s', call s (.init k) = .ok (none, s') ∧
    Represents s' (Function.update q k []) := by
  refine ⟨_, rfl, fun l => ?_, fun l => ?_⟩ <;> dsimp only <;> by_cases hl : l = k
  · rw [hl, Function.update_self, Function.update_self]
    rfl
  · rw [Function.update_of_ne hl, Function.update_of_ne hl]
    exact h.chain l
  · rw [hl, Function.update_self, Function.update_self]
    rfl
  · rw [Function.update_of_ne hl, Function.update_of_ne hl]
    exact h.back l

theorem call_peek (h : Represents s q) : call s (.peek k) = .ok ((q k).head?, s) := by
  rw [← (h.chain k).head?]
  rfl

theorem call_pop (h : Represents s q) : ∃ s', call s (.pop k) = .ok ((q k).head?, s') ∧
    Represents s' (Function.update q k (q k).tail) := by
  have hk := h.chain k
  have hback := h.back k
  have htail : Chain s.pnext ((s.queue k).pfront.bind s.pnext) (q k).tail := by
    cases hq : q k with
    | nil =>
      rw [hq] at hk
      rw [hk]
      rfl
    | cons x xs =>
      rw [hq] at hk
      rw [hk.1]
      exact hk.2
  refine ⟨_, by rw [← hk.head?]; rfl, fun l => ?_, fun l => ?_⟩ <;> dsimp only <;>
    by_cases hl : l = k
  · rw [hl, Function.update_self, Function.update_self]
    exact htail
  · rw [Function.update_of_ne hl, Function.update_of_ne hl]
    exact h.chain l
  · rw [hl, Function.update_self, Function.update_self]
    dsimp only
    rw [htail.head?, hback]
    rcases q k with _ | ⟨x, _ | ⟨y, xs⟩⟩ <;> simp
  · rw [Function.update_of_ne hl, Function.update_of_ne hl]
    exact h.back l

/-- The other queues are left alone by a push, as neither of the elements it links is in them. -/
theorem call_push (h : Represents s q) (hapart : Apart q) (hx : ∀ k, x ∉ q k) :
    ∃ s', call s (.push k x) = .ok (none, s') ∧
      Represents s' (Function.update q k (q k ++ [x])) := by
  have hcleared : ∀ l, Chain (Function.update s.pnext x none) (s.queue l).pfront (q l) :=
    fun l => (h.chain l).update (hx l) none
  have hfront := (h.chain k).head?
  have hback := h.back k
  rcases List.eq_nil_or_concat (q k) with hq | ⟨xs, last, hq⟩
  · have hnone : (s.queue k).pfront = none := by rw [hfront, hq]; rfl
    refine ⟨⟨Function.update s.queue k ⟨some x, some x⟩, Function.update s.pnext x none⟩, ?_,
      fun l => ?_, fun l => ?_⟩
    · simp only [call, queuePush, assertNonNull, ok_bind]
      rw [if_pos hnone]
      rfl
    all_goals dsimp only; by_cases hl : l = k
    · rw [hl, Function.update_self, Function.update_self, hq]
      exact ⟨rfl, Function.update_self ..⟩
    · rw [Function.update_of_ne hl, Function.update_of_ne hl]
      exact hcleared l
    · rw [hl, Function.update_self, Function.update_self, List.getLast?_concat]
    · rw [Function.update_of_ne hl, Function.update_of_ne hl]
      exact h.back l
  · rw [List.concat_eq_append] at hq
    have hsome : ¬ (s.queue k).pfront = none := by
      rw [hfront, hq]
      simp
    have hlast : (s.queue k).pback = some last := by
      rw [hback, hq, List.getLast?_concat]
    have hne : x ≠ last := by
      rintro rfl
      exact hx k (by simp [hq])
    have hmem : last ∈ q k := by simp [hq]
    refine ⟨⟨Function.update s.queue k ⟨(s.queue k).pfront, some x⟩,
      Function.update (Function.update s.pnext x none) last (some x)⟩, ?_, fun l => ?_,
      fun l => ?_⟩
    · simp only [call, queuePush, assertNonNull, ok_bind]
      rw [if_neg hsome, hlast]
      rfl
    all_goals dsimp only; by_cases hl : l = k
    · have hk := hcleared k
      have hnodup := hapart.nodup k
      rw [hq] at hk hnodup
      rw [hl, Function.update_self, Function.update_self, hq]
      exact hk.link hnodup (Function.update_self ..) hne
    · rw [Function.update_of_ne hl, Function.update_of_ne hl]
      exact (hcleared l).update (fun hin => hl (hapart.mem_unique hin hmem)) _
    · rw [hl, Function.update_self, Function.update_self, List.getLast?_concat]
    · rw [Function.update_of_ne hl, Function.update_of_ne hl]
      exact h.back l

theorem call_fifo (h : Represents s q) (hapart : Apart q) {op : QueueOp κ α}
    (hop : Outside q op) :
    ∃ s', call s op = .ok ((fifo q op).1, s') ∧ Represents s' (fifo q op).2 := by
  cases op with
  | init k => exact call_init h
  | push k x => exact call_push h hapart hop
  | pop k => exact call_pop h
  | peek k => exact ⟨s, call_peek h, h⟩

/-- The induction is on the calls, and what the queues represent carries it. -/
theorem run_fifo {ops : List (QueueOp κ α)} {outs : List (Option α)} (h : Represents s q)
    (hapart : Apart q) (hall : RunAll fifoStep (fun q op => Outside q.1 op) (q, outs) ops) :
    ∃ s' q' outs', run callStep (s, outs) ops = .ok (s', outs') ∧
      run fifoStep (q, outs) ops = .ok (q', outs') ∧ Represents s' q' := by
  induction ops generalizing s q outs with
  | nil => exact ⟨s, q, outs, rfl, rfl, h⟩
  | cons op ops ih =>
    obtain ⟨s₁, hcall, h₁⟩ := call_fifo h hapart hall.1
    obtain ⟨s', q', outs', hrun, hfifo, h'⟩ := ih h₁ (hapart.fifo hall.1) (hall.2 _ rfl)
    refine ⟨s', q', outs', ?_, ?_, h'⟩
    · rw [run, callStep, hcall]
      exact hrun
    · rw [run, fifoStep]
      exact hfifo

/-- Queues that are empty at first are lists, first in and first out, for all that is seen of
them: nothing that is called for any of them faults or shows in another one. -/
theorem queues_fifo (pnext : α → Option α) (ops : List (QueueOp κ α))
    (hall : RunAll fifoStep (fun q op => Outside q.1 op) (fun _ => [], []) ops) :
    ∃ s q outs, run callStep (⟨fun _ : κ => ⟨none, none⟩, pnext⟩, []) ops = .ok (s, outs) ∧
      run fifoStep (fun _ => [], []) ops = .ok (q, outs) ∧ Represents s q := by
  apply run_fifo
  · exact ⟨fun _ => rfl, fun _ => rfl⟩
  · exact ⟨fun _ => List.nodup_nil, fun _ _ _ => List.disjoint_nil_left _⟩
  · exact hall

/-- An element leaves one of two queues and enters the other. -/
def movedOps : List (QueueOp Bool ℕ) := [.push true 1, .pop true, .push false 1, .peek true]

theorem queues_fifo_moved :
    ∃ s q outs, run callStep (⟨fun _ => ⟨none, none⟩, fun _ => none⟩, []) movedOps =
        .ok (s, outs) ∧
      run fifoStep (fun _ => [], []) movedOps = .ok (q, outs) ∧ Represents s q := by
  have hall : RunAll fifoStep (fun q op => Outside q.1 op) (fun _ => [], []) movedOps := by
    refine ⟨fun k => List.not_mem_nil, fun t ht => ?_⟩
    obtain rfl := Except.ok.inj ht
    refine ⟨trivial, fun t ht => ?_⟩
    obtain rfl := Except.ok.inj ht
    refine ⟨?_, fun _ _ => ⟨trivial, fun _ _ => trivial⟩⟩
    have houtside : ∀ k : Bool, 1 ∉ Function.update (Function.update (fun _ => []) true [1])
        true [] k := by decide
    exact houtside
  exact queues_fifo (fun _ => none) movedOps hall

end Meshx.LinkQueue
