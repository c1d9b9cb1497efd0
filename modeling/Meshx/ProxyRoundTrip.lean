import Meshx.ProxyBounds

/-! A message through the proxy protocol: which messages are dispatched once and as they were sent
when the receiver gets the PDUs that the sender makes of them. -/
namespace Meshx.Proxy

open Lib

section Transfer

variable {β : Type} [DecidableEq β]

/-- What the receiver makes of some PDUs. -/
structure Transfer (β : Type) where
  rets : List Ret
  dispatched : List (Dispatch β)
  ctxs : List (RxCtx β)

def receiveAll (w : World) (bearer : β) : List (RxCtx β) → List Data → Except Fault (Transfer β)
  | ctxs, [] => .ok ⟨[], [], ctxs⟩
  | ctxs, pdu :: pdus =>
    (receive w ctxs bearer pdu).bind fun out =>
      (receiveAll w bearer out.ctxs pdus).map fun t =>
        ⟨out.ret :: t.rets, out.dispatched.toList ++ t.dispatched, t.ctxs⟩

/-- A message with the memory that its sender and its receiver meet. -/
structure Message where
  mtu : Mtu
  msgType : Byte
  data : Data
  mallocOk : Bool
  w : World

/-- The PDUs that the sender emits for the message. -/
def Message.pdus (m : Message) : List Data :=
  (proxySend m.mtu m.msgType m.data m.mallocOk).2.map (·.pdu)

def transferStep (bearer : β) (ctxs : List (RxCtx β)) (m : Message) :
    Except Fault (List (RxCtx β)) :=
  (·.ctxs) <$> receiveAll m.w bearer ctxs m.pdus

/-- All PDUs of the message are accepted, it is dispatched once and as it was sent, and no context
is left. -/
def RoundTrip (bearer : β) (ctxs : List (RxCtx β)) (m : Message) : Prop :=
  ∃ t, receiveAll m.w bearer ctxs m.pdus = .ok t ∧ (∀ ret ∈ t.rets, ret = .success) ∧
    t.dispatched = [⟨bearer, m.msgType, m.data.bytes, m.data.bytes.length⟩] ∧
    findRxCtx t.ctxs bearer = none

/-- The memory allocated for a first segment of the length of the MTU. -/
def firstAlloc (mtu : ℕ) : ℕ := if initPduLen < mtu + 1 then mtu + 1 + initPduLen else initPduLen

/-- Where the segment that begins after so many bytes ends. -/
def segStop (mtu len used : ℕ) : ℕ := min (used + mtu) len

/-- So many further segments stay within the memory, given what is allocated, the capacity that is
recorded and what is used: a segment that fits in the capacity ends within the memory, another
one grows both, the memory from what is used and the capacity from what it was. -/
def Contained (mtu len : ℕ) : (left alloc max used : ℕ) → Prop
  | 0, _, _, _ => True
  | left + 1, alloc, max, used =>
    if max < segStop mtu len used then
      Contained mtu len left (segStop mtu len used + initPduLen)
        ((max + (segStop mtu len used - used + initPduLen)) % 65536) (segStop mtu len used)
    else
      segStop mtu len used ≤ alloc ∧ Contained mtu len left alloc max (segStop mtu len used)

instance Contained.decidable (mtu len : ℕ) :
    ∀ left alloc max used, Decidable (Contained mtu len left alloc max used)
  | 0, _, _, _ => isTrue trivial
  | left + 1, alloc, max, used =>
    have := Contained.decidable mtu len left
    inferInstanceAs (Decidable (if max < segStop mtu len used then
      Contained mtu len left (segStop mtu len used + initPduLen)
        ((max + (segStop mtu len used - used + initPduLen)) % 65536) (segStop mtu len used)
    else segStop mtu len used ≤ alloc ∧ Contained mtu len left alloc max (segStop mtu len used)))

/-- The sender and the receiver find memory, the type has six bits, the message has a full segment
and a rest that is not empty, and the segments are contained. -/
structure Transferable (m : Message) : Prop where
  sent : m.mallocOk = true
  received : m.w.mallocOk = true
  type : m.msgType < 64
  full : m.mtu.val ≤ m.data.bytes.length
  rest : ¬ m.mtu.val ∣ m.data.bytes.length
  contained : Contained m.mtu.val m.data.bytes.length (m.data.bytes.length / m.mtu.val)
    (firstAlloc m.mtu.val) (firstAlloc m.mtu.val % 65536) m.mtu.val

end Transfer

section Pdu

variable {sar : Sar} {msgType : Byte} {data : List Byte}

/-- The type as it is sent. -/
def sixBits (msgType : Byte) : Byte := (msgType.extractLsb' 0 6).setWidth 8

theorem sixBits_eq : sixBits msgType = msgType ↔ msgType < 64 := by
  revert msgType
  decide

theorem notify_bytes (h : data.length < 65535) :
    (notify msgType sar data).pdu.bytes = pduHeader sar msgType :: data := by
  have hlen : (pduHeader sar msgType :: data).length < 65536 := Nat.succ_lt_succ h
  show List.take _ _ = _
  rw [Nat.mod_eq_of_lt hlen, List.take_length]

theorem pduSar_notify (h : data.length < 65535) : pduSar (notify msgType sar data).pdu = sar := by
  rw [pduSar, notify_bytes h]
  have hbits : (pduHeader sar msgType).extractLsb' 6 2 = sar.bits := by
    unfold pduHeader
    revert msgType
    cases sar <;> decide
  show Sar.ofBits ((pduHeader sar msgType).extractLsb' 6 2) = sar
  rw [hbits]
  cases sar <;> rfl

theorem pduMsgType_notify (h : data.length < 65535) :
    pduMsgType (notify msgType sar data).pdu = sixBits msgType := by
  rw [pduMsgType, notify_bytes h]
  show ((pduHeader sar msgType).extractLsb' 0 6).setWidth 8 = sixBits msgType
  unfold pduHeader
  revert msgType
  cases sar <;> decide

end Pdu

section Holds

variable {β : Type} {c : RxCtx β} {bearer : β} {msgType : Byte} {text data : List Byte}
  {alloc max used : ℕ}

/-- The context has got so much of a text, in memory and with a capacity of these sizes. -/
structure Holds (c : RxCtx β) (bearer : β) (msgType : Byte) (text : List Byte)
    (alloc max used : ℕ) : Prop where
  bearer : c.bearer = bearer
  msgType : c.msgType = msgType
  length : c.pdata.length = alloc
  maxLen : c.maxLen = max
  dataLen : c.dataLen = used
  le : used ≤ alloc
  content : c.pdata.take used = text.take used

theorem Holds.copied (h : Holds c bearer msgType text alloc max used)
    (hdata : data = (text.drop used).take data.length) (hfit : used + data.length ≤ alloc)
    (hlt : used + data.length < 65536) :
    Holds (copied c data) bearer msgType text alloc max (used + data.length) where
  bearer := h.bearer
  msgType := h.msgType
  length := by
    refine Eq.trans (splice_length ?_) h.length
    rw [h.dataLen, h.length]
    exact hfit
  maxLen := h.maxLen
  dataLen := by
    show (c.dataLen + data.length) % 65536 = _
    rw [h.dataLen]
    exact Nat.mod_eq_of_lt hlt
  le := hfit
  content := by
    have htake : (c.pdata.take used ++ data).length = used + data.length := by
      rw [List.length_append, List.length_take, h.length, min_eq_left h.le]
    show (splice c.pdata c.dataLen data).take _ = _
    rw [h.dataLen, splice, List.take_left' htake, h.content, List.take_add, ← hdata]

theorem Holds.expanded (h : Holds c bearer msgType text alloc max used) (w : World) (n : ℕ) :
    Holds (expanded w c n) bearer msgType text (used + n + initPduLen)
      ((max + (n + initPduLen)) % 65536) used where
  bearer := h.bearer
  msgType := h.msgType
  length := by
    rw [expanded_length, h.dataLen]
  maxLen := by
    show (c.maxLen + (n + initPduLen)) % 65536 = _
    rw [h.maxLen]
  dataLen := h.dataLen
  le := by omega
  content := by
    have htake : (c.pdata.take c.dataLen).length = used := by
      rw [List.length_take, h.length, h.dataLen, min_eq_left h.le]
    show (splice (w.malloc _) 0 (c.pdata.take c.dataLen)).take used = _
    rw [splice_zero, List.take_left' htake, h.dataLen, h.content]

/-- The first PDU of a message dispatches nothing and needs memory. -/
theorem receiveFirst_ok {w : World} {ctxs : List (RxCtx β)} {pdu : Data} {out : Out β}
    (h : receiveFirst w ctxs bearer pdu = .ok out) :
    out.dispatched = none ∧ (out.ret = .success → w.mallocOk = true) := by
  unfold receiveFirst at h
  by_cases hmalloc : w.mallocOk = true
  · obtain ⟨c, hc, -⟩ :=
      @rxCtxRequest_eq _ _ pdu.bytes.length bearer (pduMsgType pdu) hmalloc
    rw [hc] at h
    obtain ⟨c', -, rfl⟩ := map_ok h
    exact ⟨rfl, fun _ => hmalloc⟩
  · have hnone : rxCtxRequest w bearer (pduMsgType pdu) pdu.bytes.length = none := if_neg hmalloc
    rw [hnone] at h
    obtain rfl := Except.ok.inj h
    exact ⟨rfl, fun hret => by cases hret⟩

end Holds

section Receive

variable {β : Type} [DecidableEq β] {w : World} {others : List (RxCtx β)} {bearer : β}
  {c : RxCtx β} {pdu : Data}

theorem findRxCtx_append (hothers : findRxCtx others bearer = none) (hc : c.bearer = bearer) :
    findRxCtx (others ++ [c]) bearer = some c := by
  unfold findRxCtx at hothers ⊢
  rw [List.find?_append, hothers]
  simp [hc]

theorem bearer_ne (hothers : findRxCtx others bearer = none) :
    ∀ d ∈ others, d.bearer ≠ bearer := fun d hd => by
  simpa using List.find?_eq_none.mp hothers d hd

theorem rxCtxRelease_append (hothers : findRxCtx others bearer = none) (hc : c.bearer = bearer) :
    rxCtxRelease (others ++ [c]) bearer = others := by
  unfold rxCtxRelease
  rw [List.eraseP_append_right _ fun d hd => by simpa using bearer_ne hothers d hd]
  simp [hc]

theorem setRxCtx_append {d : RxCtx β} (hothers : findRxCtx others bearer = none)
    (hc : c.bearer = bearer) : setRxCtx (others ++ [c]) bearer d = others ++ [d] := by
  have hne := bearer_ne hothers
  clear hothers
  unfold setRxCtx
  induction others with
  | nil => exact List.replaceF_cons_of_some _ (if_pos hc)
  | cons o others ih =>
    obtain ⟨ho, hrest⟩ := List.forall_mem_cons.mp hne
    have hskip : (if o.bearer = bearer then some d else none) = none := if_neg ho
    rw [List.cons_append, List.replaceF_cons_of_none _ hskip, ih hrest]
    rfl

/-- A first segment begins a context behind the others. -/
theorem receive_first (hothers : findRxCtx others bearer = none) (hlen : 1 < pdu.bytes.length)
    (hsar : pduSar pdu = .firstSeg) (hmalloc : w.mallocOk = true) :
    ∃ c, receive w others bearer pdu = .ok ⟨.success, others ++ [c], none, some c⟩ ∧
      c.bearer = bearer ∧ c.msgType = pduMsgType pdu ∧
      c.pdata.length = firstAlloc (pdu.bytes.length - 1) ∧
      c.maxLen = firstAlloc (pdu.bytes.length - 1) % 65536 ∧
      c.dataLen = pdu.bytes.length - 1 ∧
      c.pdata.take (pdu.bytes.length - 1) = pdu.bytes.drop 1 := by
  have hlt := pdu.lt
  have hdrop : (pdu.bytes.drop 1).length = pdu.bytes.length - 1 := List.length_drop
  have hbegins : begins pdu := .inr hsar
  unfold receive
  rw [if_neg (not_le.mpr hlen), hothers]
  dsimp only
  rw [if_pos hbegins]
  unfold receiveFirst
  obtain ⟨c, hc, hbearer, htype, hdata, -, hsize⟩ :=
    @rxCtxRequest_eq _ _ pdu.bytes.length bearer (pduMsgType pdu) hmalloc
  have hsize' : c.pdata.length = firstAlloc (pdu.bytes.length - 1) ∧
      c.maxLen = firstAlloc (pdu.bytes.length - 1) % 65536 := by
    have hlen' : pdu.bytes.length - 1 + 1 = pdu.bytes.length := by omega
    unfold firstAlloc
    rw [hlen']
    rcases hsize with ⟨hle, halloc, hmax, -⟩ | ⟨hgt, halloc, hmax, -⟩
    · rw [if_neg (not_lt.mpr hle)]
      exact ⟨halloc, hmax⟩
    · rw [if_pos hgt]
      exact ⟨halloc, by rw [hmax, Nat.add_comm]⟩
  have hfit : c.dataLen + (pdu.bytes.drop 1).length ≤ c.pdata.length := by
    simp only [initPduLen] at hsize
    omega
  rw [hc]
  dsimp only
  rw [rxCtxCopy_of_le hfit]
  refine ⟨_, rfl, hbearer, htype, (splice_length hfit).trans hsize'.1, hsize'.2, ?_, ?_⟩
  · show (c.dataLen + (pdu.bytes.drop 1).length) % 65536 = pdu.bytes.length - 1
    omega
  · show (splice c.pdata c.dataLen (pdu.bytes.drop 1)).take (pdu.bytes.length - 1) = _
    rw [hdata, splice_zero, ← hdrop, List.take_left']
    rfl

variable {msgType : Byte} {text data : List Byte} {alloc max used : ℕ}

/-- What a further segment of the text comes to. -/
theorem receive_next (hothers : findRxCtx others bearer = none)
    (h : Holds c bearer msgType text alloc max used) (hbegins : ¬ begins pdu)
    (htype : pduMsgType pdu = msgType) (hdata : pdu.bytes.drop 1 = data) (hpos : data ≠ [])
    (hmalloc : w.mallocOk = true) :
    receive w (others ++ [c]) bearer pdu =
      if max < used + data.length then
        .ok (stored (others ++ [c]) bearer pdu (copied (expanded w c data.length) data))
      else if used + data.length ≤ alloc then
        .ok (stored (others ++ [c]) bearer pdu (copied c data))
      else .error .badWrite := by
  have hlen : ¬ pdu.bytes.length ≤ 1 := fun hle => by
    rw [List.drop_eq_nil_of_le hle] at hdata
    exact hpos hdata.symm
  unfold receive
  rw [if_neg hlen, findRxCtx_append hothers h.bearer]
  dsimp only
  rw [if_neg hbegins, if_neg (not_not.mpr (h.msgType.trans htype.symm))]
  unfold receiveNext makeRoom
  rw [hdata, h.maxLen, h.dataLen]
  by_cases hmax : max < used + data.length
  · have hused : c.dataLen ≤ c.pdata.length := by
      rw [h.dataLen, h.length]
      exact h.le
    rw [if_pos hmax, if_pos hmax, rxCtxExpand_of_le hused, if_pos hmalloc]
    dsimp only
    have hexp := h.expanded w data.length
    have hfit : (expanded w c data.length).dataLen + data.length ≤
        (expanded w c data.length).pdata.length := by
      rw [hexp.dataLen, hexp.length]
      exact Nat.le_add_right _ _
    rw [rxCtxCopy_of_le hfit]
    rfl
  · rw [if_neg hmax, if_neg hmax]
    dsimp only
    by_cases hfit : used + data.length ≤ alloc
    · rw [if_pos hfit, rxCtxCopy_of_le (by rw [h.dataLen, h.length]; exact hfit)]
      rfl
    · have hover : c.pdata.length < c.dataLen + data.length := by
        rw [h.dataLen, h.length]
        exact not_le.mp hfit
      rw [if_neg hfit, rxCtxCopy, if_pos hover]
      rfl

theorem stored_more (hothers : findRxCtx others bearer = none) (hc : c.bearer = bearer)
    {d : RxCtx β} (hsar : pduSar pdu ≠ .lastSeg) :
    stored (others ++ [c]) bearer pdu d = ⟨.success, others ++ [d], none, some d⟩ := by
  rw [stored, if_neg hsar, setRxCtx_append hothers hc]

theorem stored_last (hothers : findRxCtx others bearer = none) (hc : c.bearer = bearer)
    {d : RxCtx β} (hsar : pduSar pdu = .lastSeg)
    (hd : Holds d bearer msgType text alloc max text.length) :
    stored (others ++ [c]) bearer pdu d =
      ⟨.success, others, some ⟨bearer, msgType, text, text.length⟩, some d⟩ := by
  rw [stored, if_pos hsar, rxCtxRelease_append hothers hc, dispatch, hd.msgType, hd.dataLen,
    hd.content, List.take_length]

end Receive

section Segments

variable {β : Type} [DecidableEq β] {w : World} {others : List (RxCtx β)} {bearer : β}
  {c : RxCtx β} {mtu : Mtu} {msgType : Byte} {data : Data} {left i alloc max : ℕ}

/-- The segment of the message at a place. -/
def segData (mtu : Mtu) (data : Data) (i : ℕ) : List Byte :=
  (data.bytes.drop (i * mtu.val)).take
    (if i + 1 = segNum mtu data then data.bytes.length - i * mtu.val else mtu.val)

/-- The MTU does not divide the length of the message, which has more than one segment. -/
structure Divided (mtu : Mtu) (data : Data) : Prop where
  full : mtu.val ≤ data.bytes.length
  rest : ¬ mtu.val ∣ data.bytes.length

theorem Divided.segNum (h : Divided mtu data) :
    segNum mtu data = data.bytes.length / mtu.val + 1 := by
  have hlt := data.lt
  have hone : mtu.val ≠ 1 := fun he => h.rest (he ▸ one_dvd _)
  have htwo : 2 ≤ mtu.val := by
    have := mtu.pos
    omega
  have hhalf : data.bytes.length / mtu.val ≤ data.bytes.length / 2 :=
    Nat.div_le_div_left htwo (by decide)
  refine Nat.mod_eq_of_lt ?_
  omega

theorem Divided.lt (h : Divided mtu data) : mtu.val < 65535 := by
  have hlt := data.lt
  have hne : mtu.val ≠ data.bytes.length := fun he => h.rest (he ▸ dvd_rfl)
  have hle := h.full
  omega

/-- Where a segment lies in the message. -/
theorem Divided.segData (h : Divided mtu data) (hi : i < Proxy.segNum mtu data) :
    i * mtu.val + (segData mtu data i).length = segStop mtu.val data.bytes.length (i * mtu.val) ∧
      segData mtu data i ≠ [] ∧ (segData mtu data i).length ≤ mtu.val ∧
      (i + 1 < Proxy.segNum mtu data →
        segStop mtu.val data.bytes.length (i * mtu.val) = (i + 1) * mtu.val) ∧
      (i + 1 = Proxy.segNum mtu data →
        segStop mtu.val data.bytes.length (i * mtu.val) = data.bytes.length) := by
  have hnum := h.segNum
  have hsplit : data.bytes.length / mtu.val * mtu.val + data.bytes.length % mtu.val =
      data.bytes.length := Nat.div_add_mod' _ _
  have hrest : 0 < data.bytes.length % mtu.val :=
    Nat.pos_of_ne_zero fun he => h.rest (Nat.dvd_of_mod_eq_zero he)
  have hlast := Nat.mod_lt data.bytes.length mtu.pos
  have hlength : (Proxy.segData mtu data i).length =
      min (if i + 1 = Proxy.segNum mtu data then data.bytes.length - i * mtu.val else mtu.val)
        (data.bytes.length - i * mtu.val) := by
    rw [Proxy.segData, List.length_take, List.length_drop]
  rw [← List.length_pos_iff_ne_nil, hlength, segStop]
  by_cases hend : i + 1 = Proxy.segNum mtu data
  · obtain rfl : i = data.bytes.length / mtu.val := by omega
    rw [if_pos hend]
    refine ⟨?_, ?_, ?_, fun hlt => absurd hend hlt.ne, fun _ => ?_⟩ <;> omega
  · have hfit : (i + 1) * mtu.val ≤ data.bytes.length / mtu.val * mtu.val :=
      Nat.mul_le_mul_right _ (by omega)
    rw [Nat.succ_mul] at hfit
    rw [if_neg hend]
    refine ⟨?_, ?_, ?_, fun _ => ?_, fun he => absurd he hend⟩
    · omega
    · omega
    · omega
    · rw [Nat.succ_mul]
      omega

theorem segments_cons (h : i + 1 = segNum mtu data → left = 0) :
    segments mtu msgType data (left + 1) i (i * mtu.val) =
      notify msgType (segSar mtu data i) (segData mtu data i) ::
        segments mtu msgType data left (i + 1) ((i + 1) * mtu.val) := by
  rw [segments]
  by_cases hend : i + 1 = segNum mtu data
  · obtain rfl := h hend
    rfl
  · rw [segData, if_neg hend, Nat.succ_mul]

/-- A further segment of the message is taken, or written past the memory. -/
theorem receive_segment (hd : Divided mtu data) (hmalloc : w.mallocOk = true)
    (hothers : findRxCtx others bearer = none) (hpos : 0 < i) (hi : i < segNum mtu data)
    (h : Holds c bearer (sixBits msgType) data.bytes alloc max (i * mtu.val)) :
    (∃ c' alloc' max',
      receive w (others ++ [c]) bearer
          (notify msgType (segSar mtu data i) (segData mtu data i)).pdu =
        .ok (stored (others ++ [c]) bearer
          (notify msgType (segSar mtu data i) (segData mtu data i)).pdu c') ∧
      Holds c' bearer (sixBits msgType) data.bytes alloc' max'
        (segStop mtu.val data.bytes.length (i * mtu.val)) ∧
      ∀ left, Contained mtu.val data.bytes.length (left + 1) alloc max (i * mtu.val) ↔
        Contained mtu.val data.bytes.length left alloc' max'
          (segStop mtu.val data.bytes.length (i * mtu.val))) ∨
    receive w (others ++ [c]) bearer
        (notify msgType (segSar mtu data i) (segData mtu data i)).pdu = .error .badWrite ∧
      ∀ left, ¬ Contained mtu.val data.bytes.length (left + 1) alloc max (i * mtu.val) := by
  obtain ⟨hstop, hne, hle, -, -⟩ := hd.segData hi
  have hlt : (segData mtu data i).length < 65535 := hle.trans_lt hd.lt
  have hbegins : ¬ begins (notify msgType (segSar mtu data i) (segData mtu data i)).pdu := by
    rw [begins, pduSar_notify hlt, segSar, if_neg hpos.ne']
    split_ifs <;> decide
  have hdrop : (notify msgType (segSar mtu data i) (segData mtu data i)).pdu.bytes.drop 1 =
      segData mtu data i := by
    rw [notify_bytes hlt]
    rfl
  have htext : segData mtu data i =
      (data.bytes.drop (i * mtu.val)).take (segData mtu data i).length := by
    rw [segData, List.length_take, List.take_eq_take_min]
  have hend : i * mtu.val + (segData mtu data i).length < 65536 := by
    have hmin : segStop mtu.val data.bytes.length (i * mtu.val) ≤ data.bytes.length :=
      min_le_right _ _
    have hdata := data.lt
    omega
  rw [receive_next hothers h hbegins (pduMsgType_notify hlt) hdrop hne hmalloc, hstop]
  by_cases hmax : max < segStop mtu.val data.bytes.length (i * mtu.val)
  · rw [if_pos hmax]
    have hexp := (h.expanded w (segData mtu data i).length).copied htext (by omega) hend
    rw [hstop] at hexp
    refine .inl ⟨_, _, _, rfl, hexp, fun left => ?_⟩
    have hlen : segStop mtu.val data.bytes.length (i * mtu.val) - i * mtu.val =
        (segData mtu data i).length := by omega
    rw [Contained, if_pos hmax, hlen]
  · rw [if_neg hmax]
    by_cases hfit : segStop mtu.val data.bytes.length (i * mtu.val) ≤ alloc
    · rw [if_pos hfit]
      have hcopied := h.copied htext (by rwa [hstop]) hend
      rw [hstop] at hcopied
      refine .inl ⟨_, _, _, rfl, hcopied, fun left => ?_⟩
      rw [Contained, if_neg hmax, and_iff_right hfit]
    · rw [if_neg hfit]
      refine .inr ⟨rfl, fun left hc => ?_⟩
      rw [Contained, if_neg hmax] at hc
      exact hfit hc.1

/-- The segments behind the first one: all of them are taken and the message is dispatched, if they
stay within the memory. -/
theorem receiveAll_segments (hd : Divided mtu data) (hmalloc : w.mallocOk = true)
    (hothers : findRxCtx others bearer = none) (hpos : 0 < i)
    (hleft : i + (left + 1) = segNum mtu data)
    (h : Holds c bearer (sixBits msgType) data.bytes alloc max (i * mtu.val)) :
    receiveAll w bearer (others ++ [c])
        ((segments mtu msgType data (left + 1) i (i * mtu.val)).map (·.pdu)) =
      if Contained mtu.val data.bytes.length (left + 1) alloc max (i * mtu.val) then
        .ok ⟨List.replicate (left + 1) .success,
          [⟨bearer, sixBits msgType, data.bytes, data.bytes.length⟩], others⟩
      else .error .badWrite := by
  induction left generalizing i c alloc max with
  | zero =>
    rw [segments_cons fun _ => rfl, List.map_cons, receiveAll]
    obtain ⟨-, -, hle, -, hend⟩ := hd.segData (i := i) (by omega)
    rcases receive_segment hd hmalloc hothers hpos (by omega) h with
      ⟨c', alloc', max', hrecv, hc', hiff⟩ | ⟨hrecv, hno⟩
    · have hlast : segSar mtu data i = .lastSeg := by rw [segSar, if_neg hpos.ne', if_pos hleft]
      have hsar : pduSar (notify msgType (segSar mtu data i) (segData mtu data i)).pdu = .lastSeg :=
        (pduSar_notify (hle.trans_lt hd.lt)).trans hlast
      rw [hend hleft] at hc'
      rw [hrecv, if_pos ((hiff 0).mpr trivial), stored_last hothers h.bearer hsar hc']
      rfl
    · rw [hrecv, if_neg (hno 0)]
      rfl
  | succ left ih =>
    have hi : i + 1 < segNum mtu data := by omega
    rw [segments_cons fun he => absurd he hi.ne, List.map_cons, receiveAll]
    obtain ⟨-, -, hle, hnext, -⟩ := hd.segData (i := i) (by omega)
    rcases receive_segment hd hmalloc hothers hpos (by omega) h with
      ⟨c', alloc', max', hrecv, hc', hiff⟩ | ⟨hrecv, hno⟩
    · have hmore : segSar mtu data i = .continueSeg := by
        rw [segSar, if_neg hpos.ne', if_neg hi.ne]
      have hsar : pduSar (notify msgType (segSar mtu data i) (segData mtu data i)).pdu ≠
          .lastSeg := by
        rw [pduSar_notify (hle.trans_lt hd.lt), hmore]
        decide
      have hrest := hiff (left + 1)
      rw [hnext hi] at hc' hrest
      have hind := ih (i := i + 1) (by omega) (by omega) hc'
      rw [hrecv, stored_more hothers h.bearer hsar]
      show (receiveAll w bearer (others ++ [c']) _).map _ = _
      rw [hind]
      by_cases hcontained : Contained mtu.val data.bytes.length (left + 1) alloc' max'
          ((i + 1) * mtu.val)
      · rw [if_pos hcontained, if_pos (hrest.mpr hcontained)]
        rfl
      · rw [if_neg hcontained, if_neg fun hc => hcontained (hrest.mp hc)]
        rfl
    · rw [hrecv, if_neg (hno _)]
      rfl

/-- What the receiver makes of the segments of a message. -/
theorem receiveAll_divided (hd : Divided mtu data) (hmalloc : w.mallocOk = true)
    (hothers : findRxCtx others bearer = none) :
    receiveAll w bearer others ((proxySend mtu msgType data true).2.map (·.pdu)) =
      if Contained mtu.val data.bytes.length (data.bytes.length / mtu.val) (firstAlloc mtu.val)
          (firstAlloc mtu.val % 65536) mtu.val then
        .ok ⟨List.replicate (segNum mtu data) .success,
          [⟨bearer, sixBits msgType, data.bytes, data.bytes.length⟩], others⟩
      else .error .badWrite := by
  obtain ⟨q, hq⟩ : ∃ q, data.bytes.length / mtu.val = q + 1 :=
    Nat.exists_eq_succ_of_ne_zero (Nat.div_pos hd.full mtu.pos).ne'
  have hnum : segNum mtu data = q + 2 := by rw [hd.segNum, hq]
  have hsend : (proxySend mtu msgType data true).2 =
      segments mtu msgType data (segNum mtu data) 0 (0 * mtu.val) := by
    rw [proxySend, if_pos rfl, if_neg (not_lt.mpr hd.full), Nat.zero_mul]
  obtain ⟨hstop, hne, hle, hnext, -⟩ := hd.segData (i := 0) (by omega)
  have hlength : (segData mtu data 0).length = mtu.val := by
    have hone := hnext (by omega)
    omega
  have hlt : (segData mtu data 0).length < 65535 := hle.trans_lt hd.lt
  have hbytes := @notify_bytes (segSar mtu data 0) msgType _ hlt
  have hlen : (notify msgType (segSar mtu data 0) (segData mtu data 0)).pdu.bytes.length =
      mtu.val + 1 := by rw [hbytes, List.length_cons, hlength]
  have hpos := mtu.pos
  obtain ⟨c, hrecv, hbearer, htype, halloc, hmax, hused, hcontent⟩ := @receive_first β _ w others
    bearer _ hothers (by omega) (@pduSar_notify (segSar mtu data 0) msgType _ hlt)
    hmalloc
  rw [hlen, Nat.add_sub_cancel] at halloc hmax hused hcontent
  have hholds : Holds c bearer (sixBits msgType) data.bytes (firstAlloc mtu.val)
      (firstAlloc mtu.val % 65536) (1 * mtu.val) := by
    rw [Nat.one_mul]
    refine ⟨hbearer, htype.trans (pduMsgType_notify hlt), halloc, hmax, hused, ?_, ?_⟩
    · unfold firstAlloc initPduLen
      split_ifs <;> omega
    · rw [hcontent, hbytes, List.drop_one, List.tail_cons, segData, Nat.zero_mul, List.drop_zero,
        if_neg (by omega)]
  rw [hsend, hnum, segments_cons fun he => by omega, List.map_cons, receiveAll, hrecv]
  show (receiveAll w bearer (others ++ [c]) _).map _ = _
  rw [receiveAll_segments hd hmalloc hothers Nat.zero_lt_one (by omega) hholds, hq, Nat.one_mul]
  by_cases hcontained : Contained mtu.val data.bytes.length (q + 1) (firstAlloc mtu.val)
      (firstAlloc mtu.val % 65536) mtu.val
  · rw [if_pos hcontained, if_pos hcontained]
    rfl
  · rw [if_neg hcontained, if_neg hcontained]
    rfl

theorem receiveAll_cons {ctxs : List (RxCtx β)} {pdu : Data} {pdus : List Data} {t : Transfer β}
    (h : receiveAll w bearer ctxs (pdu :: pdus) = .ok t) : ∃ out t',
      receive w ctxs bearer pdu = .ok out ∧ receiveAll w bearer out.ctxs pdus = .ok t' ∧
      t = ⟨out.ret :: t'.rets, out.dispatched.toList ++ t'.dispatched, t'.ctxs⟩ := by
  obtain ⟨out, hout, hrest⟩ := bind_ok h
  obtain ⟨t', ht', rfl⟩ := map_ok hrest
  exact ⟨out, t', hout, ht', rfl⟩

/-- A PDU without data is refused. -/
theorem receiveAll_short {ctxs : List (RxCtx β)} {pdu : Data} {pdus : List Data} {t : Transfer β}
    (h : receiveAll w bearer ctxs pdus = .ok t) (hp : pdu ∈ pdus) (hshort : pdu.bytes.length ≤ 1) :
    .length ∈ t.rets := by
  induction pdus generalizing ctxs t with
  | nil => simp at hp
  | cons p pdus ih =>
    obtain ⟨out, t', hout, ht', rfl⟩ := receiveAll_cons h
    rcases List.mem_cons.mp hp with rfl | hmem
    · have hrefused : receive w ctxs bearer pdu = .ok ⟨.length, ctxs, none, none⟩ := if_pos hshort
      obtain rfl := Except.ok.inj (hrefused.symm.trans hout)
      exact List.mem_cons_self
    · exact List.mem_cons_of_mem _ (ih ht' hmem)

/-- The last segment of a message that the MTU divides is empty. -/
theorem segments_empty (hdvd : mtu.val ∣ data.bytes.length)
    (hnum : segNum mtu data = data.bytes.length / mtu.val + 1)
    (hleft : i + (left + 1) = segNum mtu data) :
    ∃ sar, notify msgType sar [] ∈ segments mtu msgType data (left + 1) i (i * mtu.val) := by
  induction left generalizing i with
  | zero =>
    have hend : i * mtu.val = data.bytes.length := by
      rw [show i = data.bytes.length / mtu.val by omega, Nat.div_mul_cancel hdvd]
    have hempty : segData mtu data i = [] := by
      rw [segData, if_pos hleft, hend, Nat.sub_self, List.take_zero]
    rw [segments_cons fun _ => rfl, hempty]
    exact ⟨_, List.mem_cons_self⟩
  | succ left ih =>
    obtain ⟨sar, hsar⟩ := ih (i := i + 1) (by omega)
    rw [segments_cons fun he => by omega]
    exact ⟨sar, List.mem_cons_of_mem _ hsar⟩

theorem receive_begins (hothers : findRxCtx others bearer = none) {pdu : Data}
    (hbegins : begins pdu) : pdu.bytes.length ≤ 1 ∨
      receive w others bearer pdu = receiveFirst w others bearer pdu := by
  by_cases hlen : pdu.bytes.length ≤ 1
  · exact .inl hlen
  · refine .inr ?_
    rw [receive, if_neg hlen, hothers]
    exact if_pos hbegins

variable {m : Message} {ctxs : List (RxCtx β)}

/-- A message that makes the round trip is sent in segments, of which none is empty. -/
theorem RoundTrip.divided (hno : findRxCtx ctxs bearer = none) (h : RoundTrip bearer ctxs m) :
    m.mallocOk = true ∧ Divided m.mtu m.data := by
  obtain ⟨t, ht, hrets, hdisp, -⟩ := h
  have hnonempty : m.pdus ≠ [] := fun he => by
    rw [he] at ht
    obtain rfl := Except.ok.inj ht
    cases hdisp
  have hlong : ∀ pdu ∈ m.pdus, 1 < pdu.bytes.length := fun pdu hp => by
    by_contra hshort
    cases hrets _ (receiveAll_short ht hp (not_lt.mp hshort))
  have hmalloc : m.mallocOk = true := by
    by_contra hm
    refine hnonempty ?_
    rw [Message.pdus, proxySend, if_neg hm]
    rfl
  have hfull : m.mtu.val ≤ m.data.bytes.length := by
    by_contra hlt
    have hpdus : m.pdus = [(notify m.msgType .completeMsg m.data.bytes).pdu] := by
      rw [Message.pdus, proxySend, if_pos hmalloc, if_pos (not_le.mp hlt)]
      rfl
    have hshort : m.data.bytes.length < 65535 := by
      have := m.mtu.lt
      omega
    rw [hpdus] at ht hlong
    obtain ⟨out, t', hout, ht', rfl⟩ := receiveAll_cons ht
    obtain rfl := Except.ok.inj ht'
    have hbegins : begins (notify m.msgType .completeMsg m.data.bytes).pdu :=
      .inl (pduSar_notify hshort)
    rcases @receive_begins β _ m.w ctxs bearer hno _ hbegins with hempty | hfirst
    · exact absurd (hlong _ (List.mem_singleton_self _)) (not_lt.mpr hempty)
    have hnone := (receiveFirst_ok (hfirst.symm.trans hout)).1
    rw [hnone] at hdisp
    cases hdisp
  refine ⟨hmalloc, hfull, fun hdvd => ?_⟩
  have hpdus : m.pdus = (segments m.mtu m.msgType m.data (segNum m.mtu m.data) 0
      (0 * m.mtu.val)).map (·.pdu) := by
    rw [Message.pdus, proxySend, if_pos hmalloc, if_neg (not_lt.mpr hfull), Nat.zero_mul]
  obtain ⟨q, hq⟩ : ∃ q, segNum m.mtu m.data = q + 1 := by
    refine Nat.exists_eq_succ_of_ne_zero fun hzero => hnonempty ?_
    rw [hpdus, hzero]
    rfl
  have hnum : segNum m.mtu m.data = m.data.bytes.length / m.mtu.val + 1 := by
    have hle : m.data.bytes.length / m.mtu.val ≤ m.data.bytes.length := Nat.div_le_self _ _
    have hlt := m.data.lt
    unfold segNum at hq ⊢
    generalize m.data.bytes.length / m.mtu.val = k at *
    omega
  obtain ⟨sar, hsar⟩ := @segments_empty _ m.msgType _ q 0 hdvd hnum (by omega)
  rw [hq] at hpdus
  have hmem : (notify m.msgType sar []).pdu ∈ m.pdus := hpdus ▸ List.mem_map_of_mem hsar
  have hone := hlong _ hmem
  rw [notify_bytes (by simp)] at hone
  simp at hone

theorem Divided.pdus (hd : Divided m.mtu m.data) (hsend : m.mallocOk = true) :
    ∃ p ps, m.pdus = p :: ps ∧ 1 < p.bytes.length ∧ begins p := by
  have hnum := hd.segNum
  have hdiv := Nat.div_pos hd.full m.mtu.pos
  obtain ⟨-, hne, hle, -, -⟩ := hd.segData (i := 0) (by omega)
  have hlt : (Proxy.segData m.mtu m.data 0).length < 65535 := hle.trans_lt hd.lt
  have hpdus : m.pdus = (segments m.mtu m.msgType m.data (Proxy.segNum m.mtu m.data) 0
      (0 * m.mtu.val)).map (·.pdu) := by
    rw [Message.pdus, proxySend, if_pos hsend, if_neg (not_lt.mpr hd.full), Nat.zero_mul]
  rw [hnum, segments_cons fun he => by omega, List.map_cons] at hpdus
  refine ⟨_, _, hpdus, ?_, .inr (pduSar_notify hlt)⟩
  rw [notify_bytes hlt, List.length_cons]
  exact Nat.succ_lt_succ (List.length_pos_iff_ne_nil.mpr hne)

theorem roundTrip_iff (hno : findRxCtx ctxs bearer = none) :
    RoundTrip bearer ctxs m ↔ Transferable m := by
  constructor
  · intro h
    obtain ⟨hsend, hd⟩ := h.divided hno
    obtain ⟨t, ht, hrets, hdisp, -⟩ := h
    have hrecv : m.w.mallocOk = true := by
      obtain ⟨p, ps, hpdus, hlong, hbegins⟩ := hd.pdus hsend
      rw [hpdus] at ht
      obtain ⟨out, t', hout, -, rfl⟩ := receiveAll_cons ht
      rcases @receive_begins β _ m.w ctxs bearer hno _ hbegins with hempty | hfirst
      · exact absurd hlong (not_lt.mpr hempty)
      exact (receiveFirst_ok (hfirst.symm.trans hout)).2 (hrets _ List.mem_cons_self)
    have hall := @receiveAll_divided _ _ _ _ _ _ m.msgType _ hd hrecv hno
    rw [← hsend] at hall
    by_cases hcontained : Contained m.mtu.val m.data.bytes.length
        (m.data.bytes.length / m.mtu.val) (firstAlloc m.mtu.val) (firstAlloc m.mtu.val % 65536)
        m.mtu.val
    · rw [if_pos hcontained] at hall
      obtain rfl := Except.ok.inj (hall.symm.trans ht)
      have htype := congrArg (·.map (·.msgType)) hdisp
      exact ⟨hsend, hrecv, sixBits_eq.mp (List.singleton_inj.mp htype), hd.full, hd.rest,
        hcontained⟩
    · rw [if_neg hcontained] at hall
      cases hall.symm.trans ht
  · intro h
    have hall := @receiveAll_divided _ _ _ _ _ _ m.msgType _ ⟨h.full, h.rest⟩
      h.received hno
    rw [if_pos h.contained, ← h.sent, sixBits_eq.mpr h.type] at hall
    exact ⟨_, hall, fun ret hret => List.eq_of_mem_replicate hret, rfl, hno⟩

/-- On a bearer without a context, every message of a sequence makes the round trip just if each of
them has segments, the last of which is not empty, and these are contained in the memory that the
receiver allocates. -/
theorem roundTrips_iff (hno : findRxCtx ctxs bearer = none) (ms : List Message) :
    RunAll (transferStep bearer) (RoundTrip bearer) ctxs ms ↔ ∀ m ∈ ms, Transferable m := by
  induction ms generalizing ctxs with
  | nil => simp [RunAll]
  | cons m ms ih =>
    rw [RunAll, List.forall_mem_cons, roundTrip_iff hno]
    refine and_congr_right fun hm => ?_
    obtain ⟨t, ht, -, -, hleft⟩ := (roundTrip_iff hno).mpr hm
    have hstep : transferStep bearer ctxs m = .ok t.ctxs := by rw [transferStep, ht]; rfl
    rw [← ih hleft]
    constructor
    · exact fun h => h _ hstep
    · intro h ctxs' hs
      exact Except.ok.inj (hstep.symm.trans hs) ▸ h

/-- A message of zeros for an MTU. -/
def plainMessage (mtu : Mtu) (len : ℕ) : Message :=
  ⟨mtu, 0, .ofBytes (List.replicate len 0), true, plainMemory⟩

/-- A message shorter than the MTU is sent as a complete one, which is never dispatched. -/
theorem roundTrip_fails : ¬ RunAll (transferStep 0) (RoundTrip 0) ([] : List (RxCtx ℕ))
    [plainMessage ⟨2, by decide, by decide⟩ 1] := fun h =>
  absurd ((roundTrip_iff rfl).mp h.1).full (by decide)

theorem roundTrips_plain : RunAll (transferStep 0) (RoundTrip 0) ([] : List (RxCtx ℕ))
    [plainMessage ⟨2, by decide, by decide⟩ 3, plainMessage ⟨4, by decide, by decide⟩ 6] := by
  refine (roundTrips_iff rfl _).mpr ?_
  simp only [List.forall_mem_cons, List.not_mem_nil, false_implies, implies_true, and_true]
  exact ⟨⟨rfl, rfl, by decide, by decide, by decide, by decide⟩,
    ⟨rfl, rfl, by decide, by decide, by decide, by decide⟩⟩

end Segments

end Meshx.Proxy
