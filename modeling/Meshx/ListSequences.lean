import Meshx.LinkList

/-! Any number of lists on one heap. The calls of `meshx_list.c` do to a list what the operations
of the same names do to a sequence, in every run, and leave the other lists alone. -/
namespace Meshx.LinkList

open Lib

variable {α : Type}

section Sequences

/-- The heads of the lists, each with the sequence that its list stands for. -/
abbrev Sequences (α : Type) := α → Option (List α)

/-- The node is in no list, and is no head. -/
def Free (S : Sequences α) (node : α) : Prop := ∀ head, ∀ xs ∈ S head, node ∉ head :: xs

inductive ListOp (α : Type)
  | prepend (head node : α)
  | append (head node : α)
  | sortInsert (head node : α) (nodeCmp : α → α → Bool)
  | pop (head : α)
  | remove (node : α)

variable [DecidableEq α]

namespace ListOp

/-- What becomes of a sequence. -/
def onSeq : ListOp α → List α → List α
  | prepend _ node, xs => node :: xs
  | append _ node, xs => xs ++ [node]
  | sortInsert _ node nodeCmp, xs =>
    xs.takeWhile (fun x => !nodeCmp node x) ++ node :: xs.dropWhile fun x => !nodeCmp node x
  | pop _, xs => xs.tail
  | remove node, xs => xs.erase node

/-- Whether it is the list of the head that the operation is about. -/
def about (S : Sequences α) : ListOp α → α → Bool
  | prepend head _, head' | append head _, head' | sortInsert head _ _, head' | pop head, head' =>
    decide (head' = head)
  | remove node, head' => (S head').elim false fun xs => decide (node ∈ xs)

/-- All sequences after an operation. -/
def after (S : Sequences α) (op : ListOp α) : Sequences α := fun head =>
  if op.about S head then (S head).map op.onSeq else S head

/-- What is returned. -/
def result (S : Sequences α) : ListOp α → Option α
  | pop head => (S head).bind List.head?
  | prepend _ _ | append _ _ | sortInsert _ _ _ | remove _ => none

/-- A node that is inserted is free, and one that is removed is in a list. -/
def Legal (S : Sequences α) : ListOp α → Prop
  | prepend head node | append head node | sortInsert head node _ =>
    (∃ xs, S head = some xs) ∧ Free S node
  | pop head => ∃ xs, S head = some xs
  | remove node => ∃ head xs, S head = some xs ∧ node ∈ xs

/-- The call of the function. -/
def call (fuel : ℕ) (h : Heap α) : ListOp α → Except Fault (Heap α × Option α)
  | prepend head node => (·, none) <$> listPrepend h (some head) (some node)
  | append head node => (·, none) <$> listAppend h (some head) (some node)
  | sortInsert head node nodeCmp =>
    (·, none) <$> listSortInsert fuel h (some head) (some node) nodeCmp
  | pop head => listPop h (some head)
  | remove node => (·, none) <$> listRemove h (some node)

end ListOp

def afterAll (S : Sequences α) (ops : List (ListOp α)) : Sequences α := ops.foldl ListOp.after S

/-- Each operation is legal when its turn comes. -/
def LegalRun : Sequences α → List (ListOp α) → Prop
  | _, [] => True
  | S, op :: ops => op.Legal S ∧ LegalRun (op.after S) ops

/-- The calls, one after the other. -/
def runCalls (fuel : ℕ) (h : Heap α) (ops : List (ListOp α)) : Except Fault (Heap α) :=
  run (fun h op => (·.1) <$> op.call fuel h) h ops

end Sequences

/-- The loops end: with all the fuel from some point on, this comes out. -/
def Yields {β : Type} (f : ℕ → Except Fault β) (b : β) : Prop :=
  ∃ n, ∀ fuel, n < fuel → f fuel = .ok b

theorem Yields.of_eq {β : Type} {f : ℕ → Except Fault β} {b : β} (hf : ∀ fuel, f fuel = .ok b) :
    Yields f b := ⟨0, fun fuel _ => hf fuel⟩

/-- Each list on the heap is well formed, and no two of them share a node. -/
structure Represents (h : Heap α) (S : Sequences α) : Prop where
  isList : ∀ {head xs}, S head = some xs → IsList h head xs
  apart : ∀ {head head' xs xs'}, S head = some xs → S head' = some xs' → head ≠ head' →
    (head :: xs).Disjoint (head' :: xs')

theorem head_not_mem {h : Heap α} {S : Sequences α} {head : α} {xs : List α} (hrep : Represents h S)
    (hS : S head = some xs) : head ∉ xs :=
  (List.nodup_cons.mp (hrep.isList hS).nodup).1

theorem Effect.refl {h : Heap α} {head : α} {xs : List α} (hlist : IsList h head xs) :
    Effect h h head xs xs :=
  ⟨hlist, fun _ _ _ => rfl, fun _ hx hx' => absurd hx hx'⟩

section Calls

variable [DecidableEq α] {h h' : Heap α} {S : Sequences α} {op : ListOp α} {head node : α}
  {xs : List α}

/-- What an operation does to the lists on the heap. -/
structure Refined (S : Sequences α) (h : Heap α) (op : ListOp α) (h' : Heap α) : Prop where
  represents : Represents h' (op.after S)
  removed : ∀ {head xs xs'}, S head = some xs → op.after S head = some xs' →
    ∀ x ∈ xs, x ∉ xs' → h' x = ⟨none, none⟩
  others : ∀ {head xs}, S head = some xs → op.about S head = false →
    op.after S head = some xs ∧ ∀ x ∈ head :: xs, h' x = h x
  elsewhere : ∀ x, Free S x → Free (op.after S) x → h' x = h x

/-- The queries about the lists on the heap have the answers that the sequences give. -/
structure Queries (h : Heap α) (S : Sequences α) : Prop where
  length : ∀ {head xs}, S head = some xs →
    Yields (listLength · h (some head)) (.ofNat 32 xs.length)
  index : ∀ {head xs}, S head = some xs → ∀ node,
    Yields (listIndex · h (some head) (some node))
      (if node ∈ xs then .ofNat 32 (xs.idxOf node) else -1)
  exist : ∀ {head xs}, S head = some xs → ∀ node,
    Yields (listExists · h (some head) (some node)) (decide (node ∈ xs))
  peek : ∀ {head xs}, S head = some xs → listPeek h (some head) = .ok xs.head?

theorem listPeek_eq (hlist : IsList h head xs) : listPeek h (some head) = .ok xs.head? := by
  rw [listPeek, deref_some, ok_bind]
  cases xs with
  | nil => exact if_pos (pnext_eq_head hlist.next_path)
  | cons x xs =>
    rw [pnext_eq hlist.next_path, if_neg]
    · rfl
    · exact fun heq => (List.nodup_cons.mp hlist.nodup).1 (Option.some.inj heq ▸ List.mem_cons_self)

theorem queries (hrep : Represents h S) : Queries h S where
  length {head xs} hS := ⟨xs.length, fun fuel hfuel => by
    change listLength fuel h (some head) = _
    rw [listLength, assertNonNull_some, ok_bind,
      listForeach_eq (hrep.isList hS).next_path (head_not_mem hrep hS) hfuel, seqForeach_length,
      zero_add]⟩
  index {head xs} hS node := ⟨xs.length, fun fuel hfuel => by
    change listIndex fuel h (some head) (some node) = _
    rw [listIndex, assertNonNull_some, assertNonNull_some, ok_bind, ok_bind,
      listForeach_eq (hrep.isList hS).next_path (head_not_mem hrep hS) hfuel, seqForeach_index,
      zero_add]⟩
  exist {head xs} hS node := ⟨xs.length, fun fuel hfuel => by
    change listExists fuel h (some head) (some node) = _
    rw [listExists, assertNonNull_some, assertNonNull_some, ok_bind, ok_bind,
      listForeach_eq (hrep.isList hS).next_path (head_not_mem hrep hS) hfuel, seqForeach_exists]⟩
  peek hS := listPeek_eq (hrep.isList hS)

theorem listPop_effect (hlist : IsList h head xs) :
    ∃ h', listPop h (some head) = .ok (h', xs.head?) ∧ Effect h h' head xs xs.tail := by
  rw [listPop, assertNonNull_some, ok_bind]
  cases xs with
  | nil => exact ⟨h, if_pos (pnext_eq_head hlist.next_path), .refl hlist⟩
  | cons x xs =>
    have hx : head ≠ x := fun heq => (List.nodup_cons.mp hlist.nodup).1 (heq ▸ List.mem_cons_self)
    have hlist' : IsList h head ([] ++ x :: xs) := hlist
    obtain ⟨h', hunlink, heffect⟩ := unlink_effect hlist'
    refine ⟨h', ?_, heffect⟩
    rw [pnext_eq hlist.next_path, if_neg fun heq => hx (Option.some.inj heq).symm, deref_some,
      ok_bind, hunlink]
    rfl

theorem listRemove_effect (hlist : IsList h head xs) (hnode : node ∈ xs) :
    ∃ h', listRemove h (some node) = .ok h' ∧ Effect h h' head xs (xs.erase node) := by
  obtain ⟨ys, zs, -, rfl, herase⟩ := List.exists_erase_eq hnode
  obtain ⟨h', hunlink, heffect⟩ := unlink_effect hlist
  have hnext : (h node).pnext = some (zs.headD head) := hlist.next_path.link
  have hprev : (h node).pprev = some (ys.getLastD head) := hlist.prev_eq
  refine ⟨h', ?_, herase ▸ heffect⟩
  rw [listRemove, deref_some, ok_bind, hprev, assertNonNull_some, ok_bind, hnext,
    assertNonNull_some, ok_bind, hunlink]

/-- In one list only. -/
theorem about_remove (hrep : Represents h S) (hS : S head = some xs) (hnode : node ∈ xs)
    (head' : α) : (ListOp.remove node).about S head' = true ↔ head' = head := by
  constructor
  · intro habout
    by_contra hne
    cases hS' : S head' with
    | none => simp [ListOp.about, hS'] at habout
    | some xs' =>
      have hnode' : node ∈ xs' := by simpa [ListOp.about, hS'] using habout
      exact hrep.apart hS' hS hne (List.mem_cons_of_mem _ hnode') (List.mem_cons_of_mem _ hnode)
  · rintro rfl
    simpa [ListOp.about, hS] using hnode

/-- A call has its effect on the list of one head, where it puts free nodes only. -/
structure CallOn (S : Sequences α) (h : Heap α) (op : ListOp α) (h' : Heap α) (head : α)
    (xs : List α) : Prop where
  seq : S head = some xs
  about : ∀ head', op.about S head' = true ↔ head' = head
  effect : Effect h h' head xs (op.onSeq xs)
  fresh : ∀ x ∈ op.onSeq xs, x ∈ xs ∨ Free S x

theorem call_effect (hrep : Represents h S) (hlegal : op.Legal S) :
    ∃ h' head xs, Yields (op.call · h) (h', op.result S) ∧ CallOn S h op h' head xs := by
  cases op with
  | prepend head node =>
    obtain ⟨⟨xs, hS⟩, hfree⟩ := hlegal
    obtain ⟨h', hcall, heffect⟩ := listPrepend_effect (hrep.isList hS) (hfree head xs hS)
    refine ⟨h', head, xs, .of_eq fun _ => congrArg ((·, none) <$> ·) hcall, hS,
      fun _ => decide_eq_true_iff, heffect, fun x hx => ?_⟩
    rcases List.mem_cons.mp hx with rfl | hx
    · exact .inr hfree
    · exact .inl hx
  | append head node =>
    obtain ⟨⟨xs, hS⟩, hfree⟩ := hlegal
    have hlist : IsList h head (xs ++ []) := (List.append_nil xs).symm ▸ hrep.isList hS
    have hnode : node ∉ head :: (xs ++ []) := (List.append_nil xs).symm ▸ hfree head xs hS
    obtain ⟨h', hcall, heffect⟩ := listAppend_effect hlist hnode
    rw [List.append_nil] at heffect
    refine ⟨h', head, xs, .of_eq fun _ => congrArg ((·, none) <$> ·) hcall, hS,
      fun _ => decide_eq_true_iff, heffect, fun x hx => ?_⟩
    rcases List.mem_append.mp hx with hx | hx
    · exact .inl hx
    · exact .inr (List.mem_singleton.mp hx ▸ hfree)
  | sortInsert head node nodeCmp =>
    obtain ⟨⟨xs, hS⟩, hfree⟩ := hlegal
    obtain ⟨h', hcall, heffect⟩ := listSortInsert_effect (hrep.isList hS) (hfree head xs hS)
    refine ⟨h', head, xs,
      ⟨xs.length, fun fuel hfuel => congrArg ((·, none) <$> ·) (hcall fuel hfuel)⟩, hS,
      fun _ => decide_eq_true_iff, heffect, fun x hx => ?_⟩
    rcases List.mem_append.mp hx with hx | hx
    · exact .inl ((List.takeWhile_sublist _).subset hx)
    · rcases List.mem_cons.mp hx with rfl | hx
      · exact .inr hfree
      · exact .inl ((List.dropWhile_sublist _).subset hx)
  | pop head =>
    obtain ⟨xs, hS⟩ := hlegal
    obtain ⟨h', hcall, heffect⟩ := listPop_effect (hrep.isList hS)
    refine ⟨h', head, xs, .of_eq fun _ => ?_, hS, fun _ => decide_eq_true_iff, heffect,
      fun x hx => .inl (List.mem_of_mem_tail hx)⟩
    rw [ListOp.result, hS]
    exact hcall
  | remove node =>
    obtain ⟨head, xs, hS, hnode⟩ := hlegal
    obtain ⟨h', hcall, heffect⟩ := listRemove_effect (hrep.isList hS) hnode
    exact ⟨h', head, xs, .of_eq fun _ => congrArg ((·, none) <$> ·) hcall, hS,
      about_remove hrep hS hnode, heffect, fun x hx => .inl (List.mem_of_mem_erase hx)⟩

namespace CallOn

variable {head' x : α} {xs' : List α}

theorem after_self (hcall : CallOn S h op h' head xs) : op.after S head = some (op.onSeq xs) := by
  rw [ListOp.after, if_pos ((hcall.about head).mpr rfl), hcall.seq]
  rfl

theorem after_other (hcall : CallOn S h op h' head xs) (hne : head' ≠ head) :
    op.after S head' = S head' :=
  if_neg fun habout => hne ((hcall.about head').mp habout)

/-- The other lists have no node of the list, neither before nor after the call. -/
theorem not_mem_other (hcall : CallOn S h op h' head xs) (hrep : Represents h S)
    (hne : head' ≠ head) (hS : S head' = some xs') (hx : x ∈ head' :: xs') :
    x ∉ head :: xs ∧ x ∉ head :: op.onSeq xs := by
  have hbefore : x ∉ head :: xs := hrep.apart hS hcall.seq hne hx
  refine ⟨hbefore, fun hmem => ?_⟩
  rcases List.mem_cons.mp hmem with hhead | hmem
  · exact hbefore (hhead ▸ List.mem_cons_self)
  · rcases hcall.fresh x hmem with hold | hnew
    · exact hbefore (List.mem_cons_of_mem head hold)
    · exact hnew head' xs' hS hx

/-- The links of the other lists are as before. -/
theorem links_other (hcall : CallOn S h op h' head xs) (hrep : Represents h S)
    (hne : head' ≠ head) (hS : S head' = some xs') (hx : x ∈ head' :: xs') : h' x = h x := by
  obtain ⟨hbefore, hafter⟩ := hcall.not_mem_other hrep hne hS hx
  exact hcall.effect.elsewhere x hbefore fun hmem => hafter (List.mem_cons_of_mem head hmem)

theorem represents (hcall : CallOn S h op h' head xs) (hrep : Represents h S) :
    Represents h' (op.after S) where
  isList {head' xs'} hS := by
    by_cases hne : head' = head
    · rw [hne] at hS ⊢
      exact Option.some.inj (hcall.after_self.symm.trans hS) ▸ hcall.effect.isList
    · rw [hcall.after_other hne] at hS
      refine (hrep.isList hS).congr (fun x hx => ?_) fun x hx => ?_
      · rw [hcall.links_other hrep hne hS hx]
      · rw [hcall.links_other hrep hne hS hx]
  apart {head₁ head₂ xs₁ xs₂} hS₁ hS₂ hne := by
    intro x hx₁ hx₂
    by_cases hne₁ : head₁ = head
    · rw [hcall.after_other fun heq => hne (hne₁.trans heq.symm)] at hS₂
      rw [hne₁] at hS₁ hx₁ hne
      obtain rfl := Option.some.inj (hcall.after_self.symm.trans hS₁)
      exact (hcall.not_mem_other hrep (Ne.symm hne) hS₂ hx₂).2 hx₁
    · rw [hcall.after_other hne₁] at hS₁
      by_cases hne₂ : head₂ = head
      · rw [hne₂] at hS₂ hx₂
        obtain rfl := Option.some.inj (hcall.after_self.symm.trans hS₂)
        exact (hcall.not_mem_other hrep hne₁ hS₁ hx₁).2 hx₂
      · rw [hcall.after_other hne₂] at hS₂
        exact hrep.apart hS₁ hS₂ hne hx₁ hx₂

theorem refined (hcall : CallOn S h op h' head xs) (hrep : Represents h S) :
    Refined S h op h' where
  represents := hcall.represents hrep
  removed {head' xs₁ xs₂} hS hS' x hx hx' := by
    by_cases hne : head' = head
    · rw [hne] at hS hS'
      obtain rfl := Option.some.inj (hcall.seq.symm.trans hS)
      obtain rfl := Option.some.inj (hcall.after_self.symm.trans hS')
      exact hcall.effect.removed x hx hx'
    · rw [hcall.after_other hne, hS] at hS'
      exact absurd (Option.some.inj hS' ▸ hx) hx'
  others {head' xs'} hS habout := by
    have hne : head' ≠ head := fun heq =>
      Bool.false_ne_true (habout.symm.trans ((hcall.about head').mpr heq))
    exact ⟨(hcall.after_other hne).trans hS, fun x hx => hcall.links_other hrep hne hS hx⟩
  elsewhere x hx hx' := hcall.effect.elsewhere x (hx head xs hcall.seq) fun hmem =>
    hx' head _ hcall.after_self (List.mem_cons_of_mem head hmem)

end CallOn

theorem call_refined (hrep : Represents h S) (hlegal : op.Legal S) :
    ∃ h', Yields (op.call · h) (h', op.result S) ∧ Refined S h op h' := by
  obtain ⟨h', head, xs, hyields, hcall⟩ := call_effect hrep hlegal
  exact ⟨h', hyields, hcall.refined hrep⟩

/-- A head that is initialised gets an empty list. -/
theorem listInitHead_represents (hrep : Represents h S) (hfree : Free S head) :
    ∃ h', listInitHead h (some head) = .ok h' ∧
      Represents h' (Function.update S head (some [])) := by
  have hlists {head' : α} {xs : List α} (hS : Function.update S head (some []) head' = some xs) :
      (head' = head ∧ xs = []) ∨ (S head' = some xs ∧ ∀ x ∈ head' :: xs, x ≠ head) := by
    by_cases hhead : head' = head
    · rw [hhead, Function.update_self] at hS
      exact .inl ⟨hhead, (Option.some.inj hS).symm⟩
    · rw [Function.update_of_ne hhead] at hS
      exact .inr ⟨hS, fun x hx heq => hfree head' xs hS (heq ▸ hx)⟩
  refine ⟨_, rfl, fun hS => ?_, fun hS₁ hS₂ hne x hx₁ hx₂ => ?_⟩
  · rcases hlists hS with ⟨rfl, rfl⟩ | ⟨hold, hout⟩
    · refine ⟨List.nodup_singleton _, ?_, ?_⟩
      · exact setNext_pnext.trans (if_pos rfl)
      · exact setNext_pprev.trans (setPrev_pprev.trans (if_pos rfl))
    · refine (hrep.isList hold).congr (fun x hx => ?_) fun x hx => ?_
      · rw [setNext_pnext, if_neg (hout x hx), setPrev_pnext]
      · rw [setNext_pprev, setPrev_pprev, if_neg (hout x hx)]
  · rcases hlists hS₁ with ⟨rfl, rfl⟩ | ⟨hold₁, hout₁⟩
    · rcases hlists hS₂ with ⟨rfl, -⟩ | ⟨-, hout₂⟩
      · exact hne rfl
      · exact hout₂ x hx₂ (List.mem_singleton.mp hx₁)
    · rcases hlists hS₂ with ⟨rfl, rfl⟩ | ⟨hold₂, -⟩
      · exact hout₁ x hx₁ (List.mem_singleton.mp hx₂)
      · exact hrep.apart hold₁ hold₂ hne hx₁ hx₂

/-- A run of calls keeps all lists. -/
theorem runCalls_represents {ops : List (ListOp α)} (hrep : Represents h S)
    (hlegal : LegalRun S ops) :
    ∃ h', Yields (runCalls · h ops) h' ∧ Represents h' (afterAll S ops) := by
  induction ops generalizing h S with
  | nil => exact ⟨h, .of_eq fun _ => rfl, hrep⟩
  | cons op ops ih =>
    obtain ⟨h₁, ⟨n, hcall⟩, hrefined⟩ := call_refined hrep hlegal.1
    obtain ⟨h₂, ⟨m, hrun⟩, hrep₂⟩ := ih hrefined.represents hlegal.2
    refine ⟨h₂, ⟨max n m, fun fuel hfuel => ?_⟩, hrep₂⟩
    obtain ⟨hn, hm⟩ := max_lt_iff.mp hfuel
    change run _ h (op :: ops) = _
    rw [run, show op.call fuel h = _ from hcall fuel hn]
    exact hrun fuel hm

/-- The lists on the heap are the sequences, after every run of calls: they are well formed and
apart, the queries agree with the sequences, and the next call does to its list what the operation
does to the sequence, clears the links of what it takes out, and changes no other list. -/
theorem lists_refine (ops : List (ListOp α)) (hrep : Represents h S) (hlegal : LegalRun S ops) :
    ∃ h', Yields (runCalls · h ops) h' ∧ Represents h' (afterAll S ops) ∧
      Queries h' (afterAll S ops) ∧
      ∀ op, op.Legal (afterAll S ops) → ∃ h'',
        Yields (op.call · h') (h'', op.result (afterAll S ops)) ∧
          Refined (afterAll S ops) h' op h'' := by
  obtain ⟨h', hrun, hrep'⟩ := runCalls_represents hrep hlegal
  exact ⟨h', hrun, hrep', queries hrep', fun op hop => call_refined hrep' hop⟩

/-- Two empty lists, and a node that goes from the first to the second. -/
theorem lists_refine_two : ∃ h', Yields
    (runCalls · (fun a : Fin 5 => ⟨some a, some a⟩)
      [.append 0 2, .prepend 0 3, .sortInsert 0 4 fun _ x => x = 2, .remove 4, .append 1 4, .pop 0])
    h' ∧ IsList h' 0 [2] ∧ IsList h' 1 [4] := by
  have hempty {head : Fin 5} {xs : List (Fin 5)}
      (hS : (if head < 2 then some [] else none) = some xs) : xs = [] := by
    split_ifs at hS
    exact (Option.some.inj hS).symm
  have hrep : Represents (fun a : Fin 5 => ⟨some a, some a⟩)
      fun a => if a < 2 then some [] else none := by
    refine ⟨fun hS => ?_, fun hS₁ hS₂ hne x hx₁ hx₂ => ?_⟩
    · rw [hempty hS]
      exact ⟨List.nodup_singleton _, rfl, rfl⟩
    · rw [hempty hS₁] at hx₁
      rw [hempty hS₂] at hx₂
      exact hne ((List.mem_singleton.mp hx₁).symm.trans (List.mem_singleton.mp hx₂))
  obtain ⟨h', hrun, hrep', -⟩ := lists_refine
    [.append 0 2, .prepend 0 3, .sortInsert 0 4 fun _ x => x = 2, .remove 4, .append 1 4, .pop 0]
    hrep (by
      refine ⟨⟨⟨_, rfl⟩, ?_⟩, ⟨⟨_, rfl⟩, ?_⟩, ⟨⟨_, rfl⟩, ?_⟩, ⟨0, _, rfl, by decide⟩,
        ⟨⟨_, rfl⟩, ?_⟩, ⟨_, rfl⟩, trivial⟩
      all_goals
        unfold Free
        decide)
  exact ⟨h', hrun, hrep'.isList rfl, hrep'.isList rfl⟩

end Calls

end Meshx.LinkList
