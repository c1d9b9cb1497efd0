import Meshx.Proxy
import Meshx.Lib.Run

/-! The bounds of the reassembly contexts: which PDUs keep the recorded capacity within the memory
that is allocated. -/
namespace Meshx.Proxy

open Lib

section Bounds

variable {β : Type} {w : World} {c d : RxCtx β} {data : List Byte} {len : ℕ}

/-- The data is within the capacity, this within the memory, and neither length has wrapped
around. -/
structure Bounded (c : RxCtx β) : Prop where
  capacity : c.maxLen ≤ c.pdata.length
  used : c.dataLen ≤ c.maxLen
  maxExact : c.maxLen = c.maxSum
  dataExact : c.dataLen = c.dataSum

@[simp] theorem malloc_length (w : World) (n : ℕ) : (w.malloc n).length = n := by
  simp [World.malloc]

/-- A context after the copy. -/
def copied (c : RxCtx β) (data : List Byte) : RxCtx β :=
  { c with
    pdata := splice c.pdata c.dataLen data
    dataLen := (c.dataLen + data.length) % 65536
    dataSum := c.dataSum + data.length }

theorem rxCtxCopy_of_le (h : c.dataLen + data.length ≤ c.pdata.length) :
    rxCtxCopy c data = .ok (copied c data) :=
  if_neg (not_lt.mpr h)

/-- A context in which the data fits stays within its bounds. -/
theorem Bounded.copied (h : Bounded c) (hfit : c.dataLen + data.length ≤ c.maxLen) :
    Bounded (copied c data) where
  capacity := by
    have hcap := h.capacity
    have hlen : (splice c.pdata c.dataLen data).length = c.pdata.length :=
      splice_length (hfit.trans hcap)
    exact hcap.trans hlen.ge
  used := (Nat.mod_le _ _).trans hfit
  maxExact := h.maxExact
  dataExact := by
    have hmod : (c.dataLen + data.length) % 65536 = c.dataLen + data.length :=
      Nat.mod_eq_of_lt (hfit.trans_lt c.lt)
    exact hmod.trans (congrArg (· + data.length) h.dataExact)

theorem expanded_lt (c : RxCtx β) (len : ℕ) :
    (c.maxLen + (len + initPduLen)) % 65536 < 65536 := Nat.mod_lt _ (by decide)

/-- A context as it is expanded. -/
def expanded (w : World) (c : RxCtx β) (len : ℕ) : RxCtx β :=
  { c with
    pdata := splice (w.malloc (c.dataLen + len + initPduLen)) 0 (c.pdata.take c.dataLen)
    maxLen := (c.maxLen + (len + initPduLen)) % 65536
    maxSum := c.maxSum + (len + initPduLen)
    lt := expanded_lt c len }

theorem rxCtxExpand_of_le (h : c.dataLen ≤ c.pdata.length) : rxCtxExpand w c len =
    .ok (if w.mallocOk then some (expanded w c len) else none) := by
  unfold rxCtxExpand
  by_cases hmalloc : w.mallocOk = true
  · rw [if_pos hmalloc, if_pos hmalloc, if_neg (not_lt.mpr h)]
    rfl
  · rw [if_neg hmalloc, if_neg hmalloc]

theorem expanded_length : (expanded w c len).pdata.length = c.dataLen + len + initPduLen := by
  have hfit : 0 + (c.pdata.take c.dataLen).length ≤
      (w.malloc (c.dataLen + len + initPduLen)).length := by
    simp
    omega
  exact (splice_length hfit).trans (malloc_length w _)

/-- The expanded context is within its bounds just if it was full and its capacity can be told in
sixteen bits. -/
theorem expanded_iff (h : Bounded c) (hdata : data.length = len) :
    Bounded (copied (expanded w c len) data) ↔
      c.dataLen = c.maxLen ∧ c.maxLen + len + initPduLen < 65536 := by
  subst hdata
  have hused := h.used
  have halloc := @expanded_length β w c data.length
  have hlen : (copied (expanded w c data.length) data).pdata.length =
      c.dataLen + data.length + initPduLen := by
    refine Eq.trans (splice_length ?_) halloc
    rw [halloc]
    exact Nat.le_add_right _ _
  constructor
  · intro hb
    have hmax : (c.maxLen + (data.length + initPduLen)) % 65536 =
        c.maxSum + (data.length + initPduLen) := hb.maxExact
    rw [← h.maxExact] at hmax
    have hcap : (c.maxLen + (data.length + initPduLen)) % 65536 ≤ _ := hb.capacity
    rw [hlen] at hcap
    omega
  · rintro ⟨hfull, hmax⟩
    have hexact : (c.maxLen + (data.length + initPduLen)) % 65536 =
        c.maxLen + (data.length + initPduLen) := Nat.mod_eq_of_lt (by omega)
    have hdata : (c.dataLen + data.length) % 65536 = c.dataLen + data.length :=
      Nat.mod_eq_of_lt (by omega)
    refine ⟨?_, ?_, ?_, ?_⟩
    · refine le_trans (hexact.le) ?_
      rw [hlen]
      omega
    · refine le_trans hdata.le (le_trans ?_ hexact.ge)
      omega
    · exact hexact.trans (congrArg (· + (data.length + initPduLen)) h.maxExact)
    · exact hdata.trans (congrArg (· + data.length) h.dataExact)

/-- A context as it is requested. -/
theorem rxCtxRequest_eq (bearer : β) (msgType : Byte) (hmalloc : w.mallocOk = true) :
    ∃ c, rxCtxRequest w bearer msgType len = some c ∧ c.bearer = bearer ∧
      c.msgType = msgType ∧ c.dataLen = 0 ∧ c.dataSum = 0 ∧
      (len ≤ initPduLen ∧ c.pdata.length = initPduLen ∧ c.maxLen = initPduLen ∧
          c.maxSum = initPduLen ∨
        initPduLen < len ∧ c.pdata.length = len + initPduLen ∧
          c.maxLen = (initPduLen + len) % 65536 ∧ c.maxSum = initPduLen + len) := by
  unfold rxCtxRequest
  rw [if_pos hmalloc]
  by_cases hlong : initPduLen < len
  · rw [if_pos hlong]
    exact ⟨_, rfl, rfl, rfl, rfl, rfl, .inr ⟨hlong, malloc_length w _, rfl, rfl⟩⟩
  · rw [if_neg hlong]
    exact ⟨_, rfl, rfl, rfl, rfl, rfl, .inl ⟨not_lt.mp hlong, malloc_length w _, rfl, rfl⟩⟩

/-- No copy leaves its buffer, and all contexts are within their bounds, the one of a complete
message included. -/
def Safe (r : Except Fault (Out β)) : Prop :=
  ∃ out, r = .ok out ∧ (∀ c ∈ out.ctxs, Bounded c) ∧ ∀ c ∈ out.held, Bounded c

/-- A step that copies nothing is safe. -/
theorem safe_of_subset {ctxs : List (RxCtx β)} {out : Out β} (hall : ∀ c ∈ ctxs, Bounded c)
    (hsub : out.ctxs ⊆ ctxs) (hheld : out.held = none) : Safe (.ok out) :=
  ⟨out, rfl, fun c hc => hall c (hsub hc), fun c hc => by simp [hheld] at hc⟩

theorem receiveFirst_safe {ctxs : List (RxCtx β)} {bearer : β} {pdu : Data}
    (hall : ∀ c ∈ ctxs, Bounded c) (hlen : 1 < pdu.bytes.length) :
    Safe (receiveFirst w ctxs bearer pdu) ↔
      (w.mallocOk = true → pdu.bytes.length ≤ 65455) := by
  have hlt := pdu.lt
  unfold receiveFirst
  by_cases hmalloc : w.mallocOk = true
  · obtain ⟨c, hc, -, -, hdata, hsum, hsize⟩ :=
      @rxCtxRequest_eq _ _ pdu.bytes.length bearer (pduMsgType pdu) hmalloc
    have hdrop : (pdu.bytes.drop 1).length = pdu.bytes.length - 1 := List.length_drop
    have hfit : c.dataLen + (pdu.bytes.drop 1).length ≤ c.pdata.length := by
      simp only [initPduLen] at hsize
      omega
    rw [hc]
    dsimp only
    rw [rxCtxCopy_of_le hfit]
    have hcopied : Bounded (copied c (pdu.bytes.drop 1)) ↔ pdu.bytes.length ≤ 65455 := by
      have hlength := splice_length hfit
      simp only [initPduLen] at hsize
      constructor
      · intro hb
        have hexact : c.maxLen = c.maxSum := hb.maxExact
        omega
      · intro hle
        refine ⟨?_, ?_, ?_, ?_⟩
        · refine le_trans ?_ hlength.ge
          show c.maxLen ≤ c.pdata.length
          omega
        · refine le_trans (Nat.mod_le _ _) ?_
          show c.dataLen + (pdu.bytes.drop 1).length ≤ c.maxLen
          omega
        · show c.maxLen = c.maxSum
          omega
        · show (c.dataLen + _) % 65536 = c.dataSum + _
          omega
    constructor
    · rintro ⟨out, hout, -, hheld⟩ -
      obtain rfl := Except.ok.inj hout
      exact hcopied.mp (hheld _ rfl)
    · intro hle
      refine ⟨_, rfl, fun d hd => ?_, fun d hd => ?_⟩
      · rcases List.mem_append.mp hd with hmem | hmem
        · exact hall d hmem
        · exact List.mem_singleton.mp hmem ▸ hcopied.mpr (hle hmalloc)
      · exact Option.some.inj hd ▸ hcopied.mpr (hle hmalloc)
  · have hnone : rxCtxRequest w bearer (pduMsgType pdu) pdu.bytes.length = none := if_neg hmalloc
    rw [hnone]
    exact iff_of_true (safe_of_subset hall (List.Subset.refl _) rfl) fun h => absurd h hmalloc

end Bounds

section Receive

variable {β : Type} [DecidableEq β] {w : World} {ctxs : List (RxCtx β)} {bearer : β}
  {c d : RxCtx β} {pdu : Data}

/-- The arrival of a PDU. -/
structure Arrival (β : Type) where
  w : World
  bearer : β
  pdu : Data

def receiveStep (ctxs : List (RxCtx β)) (a : Arrival β) : Except Fault (List (RxCtx β)) :=
  (·.ctxs) <$> receive a.w ctxs a.bearer a.pdu

def KeepsBounds (ctxs : List (RxCtx β)) (a : Arrival β) : Prop :=
  Safe (receive a.w ctxs a.bearer a.pdu)

/-- A PDU that begins a context has 65455 bytes at most. One that goes on with a context fits in
its capacity, or finds it full, with a capacity that can be expanded within sixteen bits. -/
def Roomy (ctxs : List (RxCtx β)) (a : Arrival β) : Prop :=
  1 < a.pdu.bytes.length →
    match findRxCtx ctxs a.bearer with
    | none => begins a.pdu → a.w.mallocOk = true → a.pdu.bytes.length ≤ 65455
    | some c => ¬ begins a.pdu → c.msgType = pduMsgType a.pdu →
      c.dataLen + (a.pdu.bytes.length - 1) ≤ c.maxLen ∨ a.w.mallocOk = false ∨
        c.dataLen = c.maxLen ∧ c.maxLen + (a.pdu.bytes.length - 1) + initPduLen < 65536

theorem mem_setRxCtx (h : d ∈ setRxCtx ctxs bearer c) : d ∈ ctxs ∨ d = c := by
  rcases List.exists_or_eq_self_of_replaceF
    (fun d => if d.bearer = bearer then some c else none) ctxs with he | ⟨a, b, l, r, -, hb, hl, hr⟩
  · exact .inl (he ▸ h)
  · obtain rfl : c = b := by
      split_ifs at hb
      exact Option.some.inj hb
    rw [setRxCtx, hr] at h
    rw [hl]
    simp only [List.mem_append, List.mem_cons] at h ⊢
    tauto

theorem mem_rxCtxRelease (h : d ∈ rxCtxRelease ctxs bearer) : d ∈ ctxs := List.mem_of_mem_eraseP h

theorem stored_safe (hall : ∀ c ∈ ctxs, Bounded c) :
    Safe (.ok (stored ctxs bearer pdu c)) ↔ Bounded c := by
  constructor
  · rintro ⟨out, hout, -, hheld⟩
    obtain rfl := Except.ok.inj hout
    refine hheld c ?_
    unfold stored
    split_ifs <;> rfl
  · intro hc
    unfold stored
    split_ifs
    · exact ⟨_, rfl, fun d hd => hall d (mem_rxCtxRelease hd),
        fun d hd => Option.some.inj hd ▸ hc⟩
    · refine ⟨_, rfl, fun d hd => ?_, fun d hd => Option.some.inj hd ▸ hc⟩
      rcases mem_setRxCtx hd with hmem | rfl
      · exact hall d hmem
      · exact hc

theorem receiveNext_safe (hall : ∀ c ∈ ctxs, Bounded c) (hc : Bounded c) :
    Safe (receiveNext w ctxs bearer c pdu) ↔
      c.dataLen + (pdu.bytes.length - 1) ≤ c.maxLen ∨ w.mallocOk = false ∨
        c.dataLen = c.maxLen ∧ c.maxLen + (pdu.bytes.length - 1) + initPduLen < 65536 := by
  have hdrop : (pdu.bytes.drop 1).length = pdu.bytes.length - 1 := List.length_drop
  unfold receiveNext makeRoom
  rw [hdrop]
  by_cases hfit : c.dataLen + (pdu.bytes.length - 1) ≤ c.maxLen
  · rw [if_neg (not_lt.mpr hfit)]
    dsimp only
    rw [rxCtxCopy_of_le (by rw [hdrop]; exact hfit.trans hc.capacity)]
    exact iff_of_true ((stored_safe hall).mpr (hc.copied (by rw [hdrop]; exact hfit))) (.inl hfit)
  · rw [if_pos (not_le.mp hfit), rxCtxExpand_of_le (hc.used.trans hc.capacity)]
    by_cases hmalloc : w.mallocOk = true
    · rw [if_pos hmalloc]
      dsimp only
      have hroom : (expanded w c (pdu.bytes.length - 1)).dataLen + (pdu.bytes.drop 1).length ≤
          (expanded w c (pdu.bytes.length - 1)).pdata.length := by
        rw [expanded_length, hdrop]
        exact Nat.le_add_right _ _
      rw [rxCtxCopy_of_le hroom, Except.map, stored_safe hall, expanded_iff hc hdrop]
      simp [hfit, hmalloc]
    · rw [if_neg hmalloc]
      exact iff_of_true
        (safe_of_subset hall (fun d hd => mem_rxCtxRelease hd) rfl)
        (.inr (.inl (by simpa using hmalloc)))

theorem keepsBounds_iff {a : Arrival β} (hall : ∀ c ∈ ctxs, Bounded c) :
    KeepsBounds ctxs a ↔ Roomy ctxs a := by
  unfold KeepsBounds Roomy receive
  by_cases hshort : a.pdu.bytes.length ≤ 1
  · rw [if_pos hshort]
    exact iff_of_true (safe_of_subset hall (List.Subset.refl _) rfl)
      fun hlen => absurd hlen (not_lt.mpr hshort)
  rw [if_neg hshort]
  have hlen := not_le.mp hshort
  have hreleased : Safe (.ok ⟨.unexpected, rxCtxRelease ctxs a.bearer, none, none⟩) :=
    safe_of_subset hall (fun d hd => mem_rxCtxRelease hd) rfl
  cases hf : findRxCtx ctxs a.bearer with
  | none =>
    dsimp only
    by_cases hbegins : begins a.pdu
    · rw [if_pos hbegins, receiveFirst_safe hall hlen]
      exact ⟨fun h _ _ => h, fun h => h hlen hbegins⟩
    · rw [if_neg hbegins]
      exact iff_of_true (safe_of_subset hall (List.Subset.refl _) rfl) fun _ h => absurd h hbegins
  | some c =>
    have hc := hall c (List.mem_of_find?_eq_some hf)
    dsimp only
    by_cases hbegins : begins a.pdu
    · rw [if_pos hbegins]
      exact iff_of_true hreleased fun _ h => absurd hbegins h
    rw [if_neg hbegins]
    by_cases htype : c.msgType = pduMsgType a.pdu
    · rw [if_neg (not_not.mpr htype), receiveNext_safe hall hc]
      exact ⟨fun h _ _ _ => h, fun h => h hlen hbegins htype⟩
    · rw [if_pos htype]
      exact iff_of_true hreleased fun _ _ h => absurd h htype

/-- The contexts stay within their bounds in exactly the runs in which every PDU that begins a
message is short enough and every further one fits, or meets a context that is full. -/
theorem bounds_iff (as : List (Arrival β)) :
    RunAll receiveStep KeepsBounds [] as ↔ RunAll receiveStep Roomy [] as := by
  refine @RunAll.iff_of_invariant _ _ _ _ _ (fun ctxs => ∀ c ∈ ctxs, Bounded c) _ _ _ ?_
    (fun _ _ hall => keepsBounds_iff hall) (by simp)
  intro ctxs a ctxs' hall hroomy hs
  obtain ⟨out, hout, hall', -⟩ := (keepsBounds_iff hall).mpr hroomy
  rw [receiveStep, hout] at hs
  exact Except.ok.inj hs ▸ hall'

def plainMemory : World := ⟨true, fun _ => 0⟩

/-- Data of so many bytes in a PDU with the field. -/
def plainPdu (sar : Sar) (len : ℕ) : Data := .ofBytes (pduHeader sar 0 :: List.replicate len 0)

set_option maxRecDepth 8000 in
/-- Two segments leave one byte of the 80, and the third records one more than is allocated. -/
theorem bounds_fail : ¬ RunAll receiveStep KeepsBounds ([] : List (RxCtx ℕ))
    [⟨plainMemory, 0, plainPdu .firstSeg 40⟩, ⟨plainMemory, 0, plainPdu .continueSeg 39⟩,
      ⟨plainMemory, 0, plainPdu .continueSeg 2⟩] := by
  intro h
  obtain ⟨out, hout, -, hheld⟩ := ((h.2 _ rfl).2 _ rfl).1
  obtain rfl := Except.ok.inj hout
  exact absurd (hheld _ rfl).capacity (by decide +kernel)

end Receive

end Meshx.Proxy
