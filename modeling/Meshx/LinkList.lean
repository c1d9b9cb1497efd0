import Meshx.Common
import Meshx.Lib.Ring
import Meshx.Lib.Run

/-! The doubly linked lists of the stack, as links of nodes on a heap, and the sequences that they
stand for. Definitions carry the names of `meshx_list.c`. -/
namespace Meshx.LinkList

open Lib

variable {α : Type}

section Model

/-- `meshx_list_t`, of a node or of a head. -/
structure Links (α : Type) where
  pprev : Option α
  pnext : Option α
  deriving DecidableEq, Repr

abbrev Heap (α : Type) := α → Links α

/-- The pointer is read through. -/
def deref (p : Option α) : Except Fault α :=
  match p with
  | some a => .ok a
  | none => .error .nullDeref

/-- `MESHX_ASSERT(NULL != p)`. -/
def assertNonNull (p : Option α) : Except Fault α :=
  match p with
  | some a => .ok a
  | none => .error .assertFailed

variable [DecidableEq α]

def setPrev (h : Heap α) (a : α) (p : Option α) : Heap α :=
  Function.update h a { h a with pprev := p }

def setNext (h : Heap α) (a : α) (p : Option α) : Heap α :=
  Function.update h a { h a with pnext := p }

def listInitHead (h : Heap α) (phead : Option α) : Except Fault (Heap α) := do
  let head ← assertNonNull phead
  return setNext (setPrev h head (some head)) head (some head)

def listPrepend (h : Heap α) (phead pnode : Option α) : Except Fault (Heap α) := do
  let head ← assertNonNull phead
  let node ← assertNonNull pnode
  let first ← deref (h head).pnext
  let h := setPrev h first (some node)
  let h := setNext h node (h head).pnext
  let h := setNext h head (some node)
  return setPrev h node (some head)

def listAppend (h : Heap α) (phead pnode : Option α) : Except Fault (Heap α) := do
  let head ← assertNonNull phead
  let node ← assertNonNull pnode
  let last ← deref (h head).pprev
  let h := setNext h last (some node)
  let h := setPrev h node (h head).pprev
  let h := setPrev h head (some node)
  return setNext h node (some head)

/-- `meshx_list_foreach`: the body may end the loop with a result, and at the head it ends by
itself. -/
def listForeach {σ ρ : Type} (h : Heap α) (head : α) (body : α → σ → ρ ⊕ σ) (atHead : σ → ρ) :
    ℕ → Option α → σ → Except Fault ρ
  | 0, _, _ => .error .hang
  | fuel + 1, ptemp, s =>
    if ptemp = some head then .ok (atHead s)
    else do
      let temp ← deref ptemp
      match body temp s with
      | .inl r => return r
      | .inr s => listForeach h head body atHead fuel (h temp).pnext s

/-- The loop that looks for the first node in front of which the new one goes. -/
def findPlace (h : Heap α) (head node : α) (nodeCmp : α → α → Bool) (fuel : ℕ) : Except Fault α :=
  listForeach h head (fun temp _ => if nodeCmp node temp then .inl temp else .inr ())
    (fun _ => head) fuel (h head).pnext ()

def listSortInsert (fuel : ℕ) (h : Heap α) (phead pnode : Option α) (nodeCmp : α → α → Bool) :
    Except Fault (Heap α) := do
  let head ← deref phead
  let node ← deref pnode
  let temp ← findPlace h head node nodeCmp fuel
  let before ← deref (h temp).pprev
  let h := setNext h before (some node)
  let h := setPrev h node (h temp).pprev
  let h := setPrev h temp (some node)
  return setNext h node (some temp)

/-- The end of `meshx_list_pop` and of `meshx_list_remove`: the node is taken out. -/
def unlink (h : Heap α) (node : α) : Except Fault (Heap α) := do
  let before ← deref (h node).pprev
  let h := setNext h before (h node).pnext
  let behind ← deref (h node).pnext
  let h := setPrev h behind (h node).pprev
  let h := setNext h node none
  return setPrev h node none

def listPop (h : Heap α) (phead : Option α) : Except Fault (Heap α × Option α) := do
  let head ← assertNonNull phead
  if (h head).pnext = some head then return (h, none)
  else do
    let node ← deref (h head).pnext
    let h ← unlink h node
    return (h, some node)

def listRemove (h : Heap α) (pnode : Option α) : Except Fault (Heap α) := do
  let node ← deref pnode
  let _ ← assertNonNull (h node).pprev
  let _ ← assertNonNull (h node).pnext
  unlink h node

def listIndex (fuel : ℕ) (h : Heap α) (phead pnode : Option α) : Except Fault (BitVec 32) := do
  let head ← assertNonNull phead
  let node ← assertNonNull pnode
  listForeach h head (fun temp index => if temp = node then .inl index else .inr (index + 1))
    (fun _ => -1) fuel (h head).pnext 0

def listExists (fuel : ℕ) (h : Heap α) (phead pnode : Option α) : Except Fault Bool := do
  let head ← assertNonNull phead
  let node ← assertNonNull pnode
  listForeach h head (fun temp _ => if temp = node then .inl true else .inr ()) (fun _ => false)
    fuel (h head).pnext ()

def listPeek (h : Heap α) (phead : Option α) : Except Fault (Option α) := do
  let head ← deref phead
  if (h head).pnext = some head then return none else return (h head).pnext

def listLength (fuel : ℕ) (h : Heap α) (phead : Option α) : Except Fault (BitVec 32) := do
  let head ← assertNonNull phead
  listForeach h head (fun _ length => .inr (length + 1)) (fun length => length) fuel
    (h head).pnext 0

end Model

/-- A well-formed list: its nodes in the order of `pnext`, and the other way round in the order of
`pprev`. -/
def IsList (h : Heap α) (head : α) (xs : List α) : Prop :=
  IsRing (fun a => (h a).pnext) (fun a => (h a).pprev) head xs

@[simp] theorem deref_some (a : α) : deref (some a) = .ok a := rfl

@[simp] theorem assertNonNull_some (a : α) : assertNonNull (some a) = .ok a := rfl

theorem heap_ext {h h' : Heap α} (hprev : ∀ x, (h x).pprev = (h' x).pprev)
    (hnext : ∀ x, (h x).pnext = (h' x).pnext) : h = h' := by
  funext x
  exact congrArg₂ Links.mk (hprev x) (hnext x)

section Loops

/-- A loop over the nodes of a sequence. -/
def seqForeach {σ ρ : Type} (body : α → σ → ρ ⊕ σ) (atHead : σ → ρ) : List α → σ → ρ
  | [], s => atHead s
  | x :: xs, s =>
    match body x s with
    | .inl r => r
    | .inr s => seqForeach body atHead xs s

variable {h : Heap α} {head u x node : α} {xs : List α} {fuel : ℕ}

/-- The links of a node on the way through a list. -/
theorem pnext_eq (hpath : Path (fun a => (h a).pnext) u (x :: xs) head) :
    (h u).pnext = some x := hpath.1

theorem pnext_eq_head (hpath : Path (fun a => (h a).pnext) u [] head) :
    (h u).pnext = some head := hpath

theorem add_ofNat_succ (n : BitVec 32) (k : ℕ) :
    n + 1 + .ofNat 32 k = n + .ofNat 32 (k + 1) := by
  rw [BitVec.ofNat_add, BitVec.add_assoc, BitVec.add_comm 1]
  rfl

theorem seqForeach_place (p : α → Bool) :
    seqForeach (fun x _ => if p x then .inl x else .inr ()) (fun _ => head) xs () =
      (xs.dropWhile fun x => !p x).headD head := by
  induction xs with
  | nil => rfl
  | cons x xs ih =>
    rw [seqForeach]
    cases hp : p x with
    | true => simp [hp]
    | false => simpa [hp] using ih

theorem seqForeach_length (n : BitVec 32) :
    seqForeach (fun (_ : α) length => .inr (length + 1)) (fun length => length) xs n =
      n + .ofNat 32 xs.length := by
  induction xs generalizing n with
  | nil => exact (add_zero n).symm
  | cons x xs ih => exact (ih (n + 1)).trans (add_ofNat_succ n xs.length)

variable [DecidableEq α]

/-- The loop goes through the nodes of the list, and ends. -/
theorem listForeach_eq {σ ρ : Type} {body : α → σ → ρ ⊕ σ} {atHead : σ → ρ} {s : σ}
    (hpath : Path (fun a => (h a).pnext) u xs head) (hhead : head ∉ xs) (hfuel : xs.length < fuel) :
    listForeach h head body atHead fuel (h u).pnext s = .ok (seqForeach body atHead xs s) := by
  induction xs generalizing u fuel s with
  | nil =>
    obtain ⟨fuel, rfl⟩ := Nat.exists_eq_succ_of_ne_zero (Nat.ne_zero_of_lt hfuel)
    rw [listForeach, if_pos (pnext_eq_head hpath), seqForeach]
  | cons x xs ih =>
    obtain ⟨fuel, rfl⟩ := Nat.exists_eq_succ_of_ne_zero (Nat.ne_zero_of_lt hfuel)
    obtain ⟨hx, hxs⟩ := not_or.mp (mt List.mem_cons.mpr hhead)
    rw [listForeach, pnext_eq hpath, if_neg fun heq => hx (Option.some.inj heq).symm, deref_some,
      ok_bind, seqForeach]
    cases body x s with
    | inl r => rfl
    | inr s => exact ih hpath.2 hxs (Nat.lt_of_succ_lt_succ hfuel)

theorem seqForeach_index (n : BitVec 32) :
    seqForeach (fun x index => if x = node then .inl index else .inr (index + 1)) (fun _ => -1)
      xs n = if node ∈ xs then n + .ofNat 32 (xs.idxOf node) else -1 := by
  induction xs generalizing n with
  | nil => rfl
  | cons x xs ih =>
    rw [seqForeach]
    by_cases hx : x = node
    · simp [hx]
    · rw [if_neg hx, List.idxOf_cons_ne _ hx, ← add_ofNat_succ]
      simpa [Ne.symm hx] using ih (n + 1)

theorem seqForeach_exists :
    seqForeach (fun x _ => if x = node then .inl true else .inr ()) (fun _ => false) xs () =
      decide (node ∈ xs) := by
  induction xs with
  | nil => rfl
  | cons x xs ih =>
    rw [seqForeach]
    by_cases hx : x = node
    · simp [hx]
    · simpa [hx, Ne.symm hx] using ih

end Loops


section Links

variable [DecidableEq α] (h : Heap α)

/-- The node stands between its new neighbours. -/
def linked (before node behind : α) : Heap α := fun x =>
  ⟨if x = behind then some node else if x = node then some before else (h x).pprev,
    if x = before then some node else if x = node then some behind else (h x).pnext⟩

/-- The node is taken out from between its neighbours. -/
def unlinked (before node behind : α) : Heap α := fun x =>
  ⟨if x = node then none else if x = behind then some before else (h x).pprev,
    if x = node then none else if x = before then some behind else (h x).pnext⟩

variable {h} {before node behind head x : α} {p : Option α} {xs ys zs : List α}

theorem setPrev_pprev : (setPrev h node p x).pprev = if x = node then p else (h x).pprev := by
  rw [setPrev, Function.update_apply]
  split_ifs <;> rfl

theorem setPrev_pnext : (setPrev h node p x).pnext = (h x).pnext := by
  rw [setPrev, Function.update_apply]
  split_ifs with hx
  · rw [hx]
  · rfl

theorem setNext_pprev : (setNext h node p x).pprev = (h x).pprev := by
  rw [setNext, Function.update_apply]
  split_ifs with hx
  · rw [hx]
  · rfl

theorem setNext_pnext : (setNext h node p x).pnext = if x = node then p else (h x).pnext := by
  rw [setNext, Function.update_apply]
  split_ifs <;> rfl

theorem listPrepend_eq (hnext : (h head).pnext = some behind) (hbehind : node ≠ behind) :
    listPrepend h (some head) (some node) = .ok (linked h head node behind) := by
  simp only [listPrepend, assertNonNull_some, deref_some, ok_bind, hnext, setPrev_pnext]
  refine congrArg Except.ok (heap_ext (fun x => ?_) fun x => ?_)
  · simp only [setPrev_pprev, setNext_pprev, linked]
    split_ifs <;> simp_all
  · simp only [setPrev_pnext, setNext_pnext, linked]

/-- The node goes in front of the one that the first pointer stands for: at the end of the list,
if that is the head. -/
theorem listAppend_eq (hprev : (h behind).pprev = some before) (hbefore : node ≠ before) :
    listAppend h (some behind) (some node) = .ok (linked h before node behind) := by
  simp only [listAppend, assertNonNull_some, deref_some, ok_bind, hprev, setNext_pprev]
  refine congrArg Except.ok (heap_ext (fun x => ?_) fun x => ?_)
  · simp only [setPrev_pprev, setNext_pprev, linked]
  · simp only [setPrev_pnext, setNext_pnext, linked]
    split_ifs <;> simp_all

theorem listSortInsert_eq {fuel : ℕ} {nodeCmp : α → α → Bool}
    (hfind : findPlace h head node nodeCmp fuel = .ok behind) :
    listSortInsert fuel h (some head) (some node) nodeCmp =
      listAppend h (some behind) (some node) := by
  simp only [listSortInsert, listAppend, assertNonNull_some, deref_some, ok_bind, hfind]

theorem unlink_eq (hprev : (h node).pprev = some before) (hnext : (h node).pnext = some behind)
    (hbefore : node ≠ before) : unlink h node = .ok (unlinked h before node behind) := by
  simp only [unlink, deref_some, ok_bind, setNext_pnext, setNext_pprev, if_neg hbefore, hnext,
    hprev]
  refine congrArg Except.ok (heap_ext (fun x => ?_) fun x => ?_)
  · simp only [setPrev_pprev, setNext_pprev, unlinked]
  · simp only [setPrev_pnext, setNext_pnext, unlinked]

theorem IsList.link (hlist : IsList h head (ys ++ zs)) (hnode : node ∉ head :: (ys ++ zs)) :
    IsList (linked h (ys.getLastD head) node (zs.headD head)) head (ys ++ node :: zs) := by
  have hbefore : node ≠ ys.getLastD head := fun heq => hnode (heq ▸ getLastD_mem)
  have hbehind : node ≠ zs.headD head := fun heq => hnode (heq ▸ headD_mem)
  have hother {x : α} (hx : x ∈ head :: (ys ++ zs)) : x ≠ node := fun heq => hnode (heq ▸ hx)
  refine hlist.insert hnode ?_ ?_ ?_ ?_ (fun x hx hne => ?_) fun x hx hne => ?_
  · exact if_pos rfl
  · exact (if_neg hbefore).trans (if_pos rfl)
  · exact if_pos rfl
  · exact (if_neg hbehind).trans (if_pos rfl)
  · exact (if_neg hne).trans (if_neg (hother hx))
  · exact (if_neg hne).trans (if_neg (hother hx))

theorem IsList.unlink (hlist : IsList h head (ys ++ node :: zs)) :
    IsList (unlinked h (ys.getLastD head) node (zs.headD head)) head (ys ++ zs) := by
  have hother {x : α} (hx : x ∈ head :: (ys ++ zs)) : x ≠ node := fun heq =>
    IsRing.not_mem hlist (heq ▸ hx)
  refine hlist.remove ?_ ?_ (fun x hx hne => ?_) fun x hx hne => ?_
  · exact (if_neg (hother getLastD_mem)).trans (if_pos rfl)
  · exact (if_neg (hother headD_mem)).trans (if_pos rfl)
  · exact (if_neg (hother hx)).trans (if_neg hne)
  · exact (if_neg (hother hx)).trans (if_neg hne)

end Links

section OneList

/-- What an operation does to the list of a head: what it holds, and that nothing else on the heap
changes. -/
structure Effect (h h' : Heap α) (head : α) (xs xs' : List α) : Prop where
  isList : IsList h' head xs'
  elsewhere : ∀ x, x ∉ head :: xs → x ∉ xs' → h' x = h x
  removed : ∀ x ∈ xs, x ∉ xs' → h' x = ⟨none, none⟩

variable [DecidableEq α] {h h' : Heap α} {head node u : α} {xs ys zs : List α} {fuel : ℕ}
  {nodeCmp : α → α → Bool}

theorem Effect.link (hlist : IsList h head (ys ++ zs)) (hnode : node ∉ head :: (ys ++ zs)) :
    Effect h (linked h (ys.getLastD head) node (zs.headD head)) head (ys ++ zs)
      (ys ++ node :: zs) where
  isList := hlist.link hnode
  elsewhere x hx hx' := by
    have hbefore : x ≠ ys.getLastD head := fun heq => hx (heq ▸ getLastD_mem)
    have hbehind : x ≠ zs.headD head := fun heq => hx (heq ▸ headD_mem)
    have hself : x ≠ node := fun heq => hx' (by simp [heq])
    rw [linked, if_neg hbehind, if_neg hself, if_neg hbefore, if_neg hself]
  removed x hx hx' := by
    refine absurd ?_ hx'
    simp only [List.mem_append, List.mem_cons] at hx ⊢
    tauto

theorem Effect.unlink (hlist : IsList h head (ys ++ node :: zs)) :
    Effect h (unlinked h (ys.getLastD head) node (zs.headD head)) head (ys ++ node :: zs)
      (ys ++ zs) where
  isList := hlist.unlink
  elsewhere x hx _ := by
    have hbefore : x ≠ ys.getLastD head := fun heq => hx (heq ▸ getLastD_mem)
    have hbehind : x ≠ zs.headD head := by
      intro heq
      have hmem : zs.headD head ∈ head :: (ys ++ [node] ++ zs) := headD_mem
      exact hx (by simpa [heq] using hmem)
    have hself : x ≠ node := fun heq => hx (by simp [heq])
    rw [unlinked, if_neg hself, if_neg hbehind, if_neg hself, if_neg hbefore]
  removed x hx hx' := by
    have hself : x = node := by
      simp only [List.mem_append, List.mem_cons] at hx hx'
      tauto
    rw [unlinked, if_pos hself, if_pos hself]

theorem listPrepend_effect (hlist : IsList h head xs) (hnode : node ∉ head :: xs) :
    ∃ h', listPrepend h (some head) (some node) = .ok h' ∧ Effect h h' head xs (node :: xs) := by
  have hlist' : IsList h head ([] ++ xs) := hlist
  refine ⟨_, listPrepend_eq hlist'.next_eq fun heq => hnode ?_, Effect.link hlist' hnode⟩
  exact heq ▸ @headD_mem α head [] xs

/-- A node that goes in front of another one, or of the head. -/
theorem listAppend_effect (hlist : IsList h head (ys ++ zs)) (hnode : node ∉ head :: (ys ++ zs)) :
    ∃ h', listAppend h (some (zs.headD head)) (some node) = .ok h' ∧
      Effect h h' head (ys ++ zs) (ys ++ node :: zs) :=
  ⟨_, listAppend_eq hlist.prev_eq fun heq => hnode (heq ▸ getLastD_mem), Effect.link hlist hnode⟩

theorem unlink_effect (hlist : IsList h head (ys ++ node :: zs)) :
    ∃ h', unlink h node = .ok h' ∧ Effect h h' head (ys ++ node :: zs) (ys ++ zs) := by
  have hnext : (h node).pnext = some (zs.headD head) := hlist.next_path.link
  have hprev : (h node).pprev = some (ys.getLastD head) := hlist.prev_eq
  refine ⟨_, unlink_eq hprev hnext fun heq => ?_, Effect.unlink hlist⟩
  exact IsRing.not_mem hlist (heq ▸ getLastD_mem)

theorem listSortInsert_effect (hlist : IsList h head xs) (hnode : node ∉ head :: xs) :
    ∃ h', (∀ fuel, xs.length < fuel →
        listSortInsert fuel h (some head) (some node) nodeCmp = .ok h') ∧
      Effect h h' head xs (xs.takeWhile (fun x => !nodeCmp node x) ++
        node :: xs.dropWhile fun x => !nodeCmp node x) := by
  have hparts : xs.takeWhile (fun x => !nodeCmp node x) ++
      xs.dropWhile (fun x => !nodeCmp node x) = xs := List.takeWhile_append_dropWhile
  obtain ⟨h', happend, heffect⟩ := listAppend_effect (hparts.symm ▸ hlist) (hparts.symm ▸ hnode)
  rw [hparts] at heffect
  refine ⟨h', fun fuel hfuel => ?_, heffect⟩
  have hfind : findPlace h head node nodeCmp fuel = _ :=
    listForeach_eq hlist.next_path (List.nodup_cons.mp hlist.nodup).1 hfuel
  rw [seqForeach_place (nodeCmp node)] at hfind
  rw [listSortInsert_eq hfind, happend]

end OneList

end Meshx.LinkList
