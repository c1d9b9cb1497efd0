import Meshx.LowerTransTx

/-! The sizes of messages from the access layer down to the segments: which lengths a layer
passes on, which the next one takes, and how many segments of which sizes they become. -/
namespace Meshx.MessageSizes

open Lib AesCcm Security Sequence Segment UpperTrans LowerTransTx

/-- The segments a PDU of the length needs. -/
def segNeeded (ctl : Bool) (pduLen : ℕ) : ℕ := (pduLen + segSize ctl - 1) / segSize ctl

/-- A PDU of the length is handed to `meshx_lower_trans_send`, from `meshx_access_send` or as a
control message. -/
def HandedDown (c : Crypto) (ctl : Bool) (pduLen : ℕ) : Prop :=
  ∃ nodeAddr connected mallocOk seq data ctx seq' pdu sent call,
    (accessSend c nodeAddr connected mallocOk seq data ctx = .ok (seq', .lower pdu sent call) ∨
      ctx.ctl = true ∧
        upperTransSend c nodeAddr connected mallocOk seq data ctx =
          .ok (seq', .lower pdu sent call)) ∧
    sent.ctl = ctl ∧ pdu.length = pduLen

/-- `meshx_lower_trans_process_seg_msg` does not refuse a PDU for its length. -/
def Accepts (ctl : Bool) (pduLen : ℕ) : Prop :=
  ∀ conf env s pdu ctx s', ctx.ctl = ctl → pdu.length = pduLen →
    Sender.processSegMsg conf env s pdu ctx ≠ .ok (.length, s')

/-- The data of the segments that `meshx_lower_trans_send_seg_msg` goes through, so many from
segment `i` on. -/
def segParts (ctl : Bool) (data : List Byte) (num : ℕ) : (rounds i offset : ℕ) → List (List Byte)
  | 0, _, _ => []
  | rounds + 1, i, offset =>
    let len := segLen ctl data.length num i offset
    (data.drop offset).take len :: segParts ctl data num rounds (i + 1) (offset + len)

/-- The data of all segments. -/
def allParts (ctl : Bool) (data : List Byte) : List (List Byte) :=
  segParts ctl data (segNum ctl data.length) (segNum ctl data.length) 0 0

/-- The layers agree on a length: what the layers above admit is accepted, and an accepted
PDU becomes 1 to 32 segments that have its bytes between them. -/
structure LayersAgree (c : Crypto) (ctl : Bool) (pduLen : ℕ) : Prop where
  accepts : HandedDown c ctl pduLen → Accepts ctl pduLen
  count : Accepts ctl pduLen → 1 ≤ segNum ctl pduLen ∧ segNum ctl pduLen ≤ 32
  covers : Accepts ctl pduLen →
    ∀ data : List Byte, data.length = pduLen → (allParts ctl data).flatten = data

section Sending

variable {conf : TxConf} {env : TxEnv} {s s' : Sender} {ctx ctx' : MsgCtx} {ret : Errno}

theorem sendSegs_ret {ppdu : Option (List Byte)} {pduLen num rounds i offset : ℕ}
    {blockAck : BitVec 32} {misc : BitVec 24}
    (h : sendSegs conf ppdu pduLen num blockAck rounds i offset misc ctx s = .ok (ret, ctx', s')) :
    ret = .success ∨ ret = .inval := by
  induction rounds generalizing i offset misc ctx s with
  | zero =>
    cases h
    exact .inl rfl
  | succ rounds ih =>
    rcases sendSegs_cases h with ⟨-, hrest⟩ | ⟨-, -, hout⟩ | ⟨data, -, -, -, hrest⟩
    · exact ih hrest
    · exact .inr (Prod.mk.inj hout).1
    · exact ih hrest

theorem taskRun_ret {finish : Sender → ℕ → Except Fault Sender} {id : ℕ}
    (h : s.taskRun conf env finish id = .ok (ret, s')) : ret ≠ .length := by
  unfold Sender.taskRun at h
  split_ifs at h with ht
  · obtain ⟨t, -, hret⟩ := bind_ok h
    cases hret
    decide
  · obtain ⟨⟨r, t⟩, hsend, h⟩ := bind_ok h
    obtain ⟨⟨r', c, u⟩, hseg, hret⟩ := bind_ok hsend
    obtain rfl : r' = r := congrArg Prod.fst (Except.ok.inj hret)
    have hr : r' ≠ .length := by rcases sendSegs_ret hseg with rfl | rfl <;> decide
    dsimp only at h
    split_ifs at h with hs
    · obtain ⟨v, -, hret⟩ := bind_ok h
      cases hret
      exact hr
    · cases h
      exact hr

theorem taskTry_ret {id : ℕ} (h : s.taskTry conf env id = .ok (ret, s')) : ret ≠ .length := by
  unfold Sender.taskTry at h
  split_ifs at h
  · cases h
    decide
  · exact taskRun_ret h

end Sending

theorem accepts_iff {ctl : Bool} {pduLen : ℕ} :
    Accepts ctl pduLen ↔ segNum ctl pduLen ≤ maxSegSize := by
  constructor
  · intro h
    by_contra hlt
    refine h ⟨0, 0, 0⟩ ⟨true, true, fun _ => true, fun _ => true, .success, fun _ => 0⟩
      (.init 0 0 0) (List.replicate pduLen 0) { MsgCtx.zero with ctl := ctl } (.init 0 0 0) rfl
      (by simp) ?_
    simp only [Sender.processSegMsg, List.length_replicate]
    rw [if_pos (not_le.mp hlt)]
  · rintro h conf env s pdu ctx s' rfl rfl hp
    unfold Sender.processSegMsg at hp
    dsimp only at hp
    rw [if_neg (not_lt.mpr h)] at hp
    by_cases hsame : (s.active.any fun a =>
        (s.task a).ctx.dst == ctx.dst && (s.task a).ctx.seqAuth == ctx.seqAuth) = true
    · rw [if_pos hsame] at hp
      cases hp
    rw [if_neg hsame] at hp
    cases hidle : s.idle with
    | nil =>
      rw [hidle] at hp
      cases hp
    | cons id idle =>
      rw [hidle] at hp
      dsimp only at hp
      by_cases hmalloc : env.taskMallocOk = true
      · rw [if_neg (by simp [hmalloc])] at hp
        exact taskTry_ret hp rfl
      · rw [if_pos (by simpa using hmalloc)] at hp
        cases hp

theorem accessSendCheck_none {len : ℕ} {ctx : MsgCtx} (h : accessSendCheck len ctx = none) :
    len + (if ctx.szmic then 8 else 4) ≤ 384 := by
  unfold accessSendCheck at h
  split_ifs at h with _ _ _ _ hlong hshort
  cases hz : ctx.szmic <;> simp [hz] at hlong hshort ⊢ <;> omega

section Upper

variable {c : Crypto} {nodeAddr : BitVec 16} {connected : ℕ → Bool} {mallocOk : Bool}
  {seq seq' : SeqArray} {data pdu : List Byte} {ctx sent : MsgCtx} {call : Option CipherCall}

/-- The TransMIC is what the upper layer adds to an access payload. -/
theorem upperTransEncrypt_length {transMicLen : ℕ} {out mic : List Byte} {cipherCall : CipherCall}
    (hmic : transMicLen = 4 ∨ transMicLen = 8)
    (h : upperTransEncrypt c data transMicLen ctx = .ok (out, mic, cipherCall)) :
    (out ++ mic).length = data.length + transMicLen := by
  unfold upperTransEncrypt at h
  cases hkey : ctx.pkey with
  | none =>
    rw [hkey] at h
    cases h
  | some key =>
    rw [hkey] at h
    simp only [Except.ok.injEq, Prod.mk.injEq] at h
    obtain ⟨rfl, rfl, -⟩ := h
    have hmod := Nat.mod_lt data.length (show 0 < 256 by decide)
    have hle := Nat.mod_le data.length 256
    have hadm : c.aead.admits (accessNonce ctx).length (data.take (data.length % 256)).length
        transMicLen := by
      rw [accessNonce_length]
      exact c.admits (by rw [List.length_take]; omega) hmic
    have htext := c.aead.encrypt_length (k := key) hadm
    rw [List.length_append, splice_length, c.aead.tag_length hadm]
    rw [htext, List.length_take]
    omega

theorem upperTransSend_length (h : upperTransSend c nodeAddr connected mallocOk seq data ctx =
      .ok (seq', .lower pdu sent call)) : sent.ctl = ctx.ctl ∧
    pdu.length = data.length + (if ctx.ctl then 0 else if ctx.szmic then 8 else 4) ∧
      (ctx.ctl = true → data.length ≤ 256) := by
  unfold upperTransSend at h
  split_ifs at h with hconn hctl hlen hmalloc
  · cases h
  · cases h
  · cases h
    exact ⟨rfl, by rw [if_pos hctl]; rfl, fun _ => not_lt.mp hlen⟩
  · cases h
  · dsimp only at h
    obtain ⟨⟨out, mic, cipherCall⟩, henc, h⟩ := bind_ok h
    have hlength := upperTransEncrypt_length (micLen_or ctx.szmic) henc
    obtain ⟨-, h⟩ := Prod.mk.inj (Except.ok.inj h)
    injection h with hpdu hsent
    rw [← hpdu, ← hsent, hlength, if_neg hctl]
    exact ⟨rfl, rfl, fun hc => absurd hc hctl⟩

theorem handedDown_le {ctl : Bool} {pduLen : ℕ} (h : HandedDown c ctl pduLen) :
    pduLen ≤ 32 * segSize ctl := by
  obtain ⟨nodeAddr, connected, mallocOk, seq, data, ctx, seq', pdu, sent, call, hsend, rfl, rfl⟩ :=
    h
  have hupper : upperTransSend c nodeAddr connected mallocOk seq data ctx =
      .ok (seq', .lower pdu sent call) ∧
        (ctx.ctl = false → data.length + (if ctx.szmic then 8 else 4) ≤ 384) := by
    rcases hsend with hsend | ⟨hctl, hsend⟩
    · unfold accessSend at hsend
      cases hcheck : accessSendCheck data.length ctx with
      | some err =>
        rw [hcheck] at hsend
        cases hsend
      | none =>
        rw [hcheck] at hsend
        exact ⟨hsend, fun _ => accessSendCheck_none hcheck⟩
    · exact ⟨hsend, fun hc => by simp [hctl] at hc⟩
  obtain ⟨hctl, hlen, hmax⟩ := upperTransSend_length hupper.1
  rw [hctl]
  cases hc : ctx.ctl with
  | true =>
    have := hmax hc
    simp only [hc, if_true, Nat.add_zero] at hlen
    simp only [segSize, if_true]
    omega
  | false =>
    have := hupper.2 hc
    simp only [hc, Bool.false_eq_true, if_false] at hlen
    simp only [segSize, Bool.false_eq_true, if_false]
    omega

/-- A control message of up to 256 bytes is handed down. -/
theorem handedDown_control {pduLen : ℕ} (h : pduLen ≤ 256) : HandedDown c true pduLen := by
  refine ⟨0, fun _ => true, true, [], List.replicate pduLen 0, { MsgCtx.zero with ctl := true },
    [], List.replicate pduLen 0, { MsgCtx.zero with ctl := true }, none, .inr ⟨rfl, ?_⟩, rfl,
    List.length_replicate⟩
  have hlen : ¬ maxCtlPduSize < (List.replicate pduLen (0 : Byte)).length := by
    rw [List.length_replicate]
    exact not_lt.mpr h
  rw [upperTransSend, if_neg (by simp [MsgCtx.zero]), if_pos rfl, if_neg hlen]

/-- An access payload of up to 380 bytes is handed down with its TransMIC. -/
theorem handedDown_access {len : ℕ} (h : len ≤ 380) : HandedDown c false (len + 4) := by
  have hcheck : accessSendCheck (List.replicate len (0 : Byte)).length deviceMsg = none := by
    rw [List.length_replicate, accessSendCheck]
    have hszmic : deviceMsg.szmic = false := by decide
    rw [if_neg (by decide), if_neg (by decide), if_neg (by decide), if_neg (by simp [hszmic]),
      if_neg (by simp [hszmic]), if_neg (by simpa [hszmic] using h)]
  obtain ⟨seq, pdu, sent, call, hsend⟩ : ∃ seq pdu sent call,
      upperTransSend c 1 (fun _ => true) true [0] (List.replicate len 0) deviceMsg =
        .ok (seq, .lower pdu sent call) := ⟨_, _, _, _, rfl⟩
  obtain ⟨hctl, hlen, -⟩ := upperTransSend_length hsend
  refine ⟨1, fun _ => true, true, [0], List.replicate len 0, deviceMsg, seq, pdu, sent, call,
    .inl ?_, hctl, ?_⟩
  · rw [accessSend, hcheck, hsend]
  · rw [hlen, List.length_replicate]
    rfl

/-- Every PDU length of 32 segments is handed down. -/
theorem handedDown_of_needed {ctl : Bool} {pduLen : ℕ} (h : segNeeded ctl pduLen = 32) :
    HandedDown c ctl pduLen := by
  cases ctl with
  | true =>
    simp only [segNeeded, segSize, if_true] at h
    exact handedDown_control (by omega)
  | false =>
    simp only [segNeeded, segSize, Bool.false_eq_true, if_false] at h
    obtain ⟨len, rfl⟩ : ∃ len, pduLen = len + 4 := ⟨pduLen - 4, by omega⟩
    exact handedDown_access (by omega)

end Upper

section Parts

variable {ctl : Bool} {data : List Byte}

theorem segNum_eq (ctl : Bool) (pduLen : ℕ) : segNum ctl pduLen = segNeeded ctl pduLen % 256 := rfl

/-- Even where the count has wrapped around, the last segment is no longer than the others. -/
theorem segLen_le {pduLen i : ℕ} :
    segLen ctl pduLen (segNum ctl pduLen) i (i * segSize ctl) ≤ segSize ctl := by
  unfold segLen segNum
  split_ifs with hlast
  · cases ctl <;> simp only [segSize, if_true, Bool.false_eq_true, if_false] at hlast ⊢ <;> omega
  · exact le_rfl

theorem segLen_inner {pduLen num i offset : ℕ} (h : num ≠ i + 1) :
    segLen ctl pduLen num i offset = segSize ctl := if_neg h

theorem segParts_length {rounds i : ℕ} (hrounds : i + rounds = segNum ctl data.length) :
    (segParts ctl data (segNum ctl data.length) rounds i (i * segSize ctl)).flatten.length ≤
      rounds * segSize ctl := by
  induction rounds generalizing i with
  | zero => simp [segParts]
  | succ rounds ih =>
    rw [segParts, List.flatten_cons, List.length_append, Nat.succ_mul]
    have hlen := @segLen_le ctl data.length i
    have hpart := List.length_take_le
      (segLen ctl data.length (segNum ctl data.length) i (i * segSize ctl))
      (data.drop (i * segSize ctl))
    by_cases hlast : segNum ctl data.length = i + 1
    · obtain rfl : rounds = 0 := by omega
      rw [segParts, List.flatten_nil, List.length_nil]
      omega
    · have hrest := @ih (i + 1) (by omega)
      rw [Nat.succ_mul] at hrest
      rw [segLen_inner hlast] at *
      omega

/-- Where the count has not wrapped around, the segments from one on are the rest of the PDU. -/
theorem segParts_flatten {rounds i : ℕ} (hrounds : i + rounds = segNum ctl data.length)
    (hsize : segNeeded ctl data.length < 256) :
    (segParts ctl data (segNum ctl data.length) rounds i (i * segSize ctl)).flatten =
      data.drop (i * segSize ctl) := by
  have hnum : segNum ctl data.length = segNeeded ctl data.length := Nat.mod_eq_of_lt hsize
  have hall : data.length ≤ segNum ctl data.length * segSize ctl := by
    rw [hnum]
    unfold segNeeded
    cases ctl <;> simp only [segSize, if_true, Bool.false_eq_true, if_false] <;> omega
  induction rounds generalizing i with
  | zero =>
    obtain rfl : i = segNum ctl data.length := hrounds
    rw [segParts, List.flatten_nil, List.drop_eq_nil_of_le hall]
  | succ rounds ih =>
    rw [segParts, List.flatten_cons]
    by_cases hlast : segNum ctl data.length = i + 1
    · obtain rfl : rounds = 0 := by omega
      have hrest : data.length - i * segSize ctl < 256 := by
        rw [hlast, Nat.succ_mul] at hall
        have hsize : segSize ctl ≤ 12 := by cases ctl <;> decide
        omega
      rw [segParts, List.flatten_nil, List.append_nil, segLen, if_pos hlast,
        Nat.mod_eq_of_lt hrest, List.take_of_length_le (by rw [List.length_drop])]
    · have hrest := @ih (i + 1) (by omega)
      rw [Nat.succ_mul] at hrest
      rw [segLen_inner hlast, hrest, ← List.drop_drop, List.take_append_drop]

theorem allParts_flatten (hsize : segNeeded ctl data.length < 256) :
    (allParts ctl data).flatten = data := by
  have h := @segParts_flatten ctl data _ 0 (Nat.zero_add _) hsize
  rwa [Nat.zero_mul, List.drop_zero] at h

theorem allParts_length : (allParts ctl data).flatten.length ≤
    segNum ctl data.length * segSize ctl := by
  have h := @segParts_length ctl data _ 0 (Nat.zero_add _)
  rwa [Nat.zero_mul] at h

end Parts

/-- The segments that are sent when none is acknowledged have the parts of the PDU. -/
theorem sendSegs_parts {conf : TxConf} {s s' : Sender} {ctx ctx' : MsgCtx} {data : List Byte}
    {num rounds i offset : ℕ} {misc : BitVec 24}
    (h : sendSegs conf (some data) data.length num 0 rounds i offset misc ctx s =
      .ok (.success, ctx', s')) :
    ∃ calls : List NetCall, s'.sent = calls ++ s.sent ∧
      calls.reverse.map (·.pdu.drop 4) = segParts ctx.ctl data num rounds i offset := by
  induction rounds generalizing i offset misc ctx s with
  | zero =>
    cases h
    exact ⟨[], rfl, rfl⟩
  | succ rounds ih =>
    rcases sendSegs_cases h with ⟨hacked, -⟩ | ⟨-, -, hout⟩ | ⟨data', -, hdata, -, hrest⟩
    · simp at hacked
    · cases hout
    · obtain rfl := Option.some.inj hdata
      obtain ⟨calls, hsent, hparts⟩ := ih hrest
      refine ⟨calls ++ [_], by rw [hsent, List.append_assoc]; rfl, ?_⟩
      rw [List.reverse_append, List.map_append, hparts]
      rfl

/-- The layers agree on exactly the lengths of 1 to 31 segments, and on those above 32 whose
count is more than 31 in eight bits. -/
theorem layersAgree_iff (c : Crypto) (ctl : Bool) (pduLen : ℕ) :
    LayersAgree c ctl pduLen ↔
      1 ≤ segNeeded ctl pduLen ∧ segNeeded ctl pduLen ≤ 31 ∨
        32 < segNeeded ctl pduLen ∧ 31 < segNeeded ctl pduLen % 256 := by
  constructor
  · intro h
    by_contra hno
    have hcount : Accepts ctl pduLen ↔ segNeeded ctl pduLen % 256 ≤ 31 := accepts_iff
    rcases Nat.lt_trichotomy (segNeeded ctl pduLen) 32 with hlt | heq | hgt
    · have hnum := (h.count (hcount.mpr (by omega))).1
      rw [segNum_eq] at hnum
      omega
    · have hle := hcount.mp (h.accepts (handedDown_of_needed heq))
      omega
    · -- the count has wrapped around
      have hcovers := h.covers (hcount.mpr (by omega)) (List.replicate pduLen 0)
        List.length_replicate
      have hlen := @allParts_length ctl (List.replicate pduLen 0)
      rw [hcovers, List.length_replicate, segNum_eq] at hlen
      have hle : segNeeded ctl pduLen % 256 * segSize ctl ≤ 31 * segSize ctl :=
        Nat.mul_le_mul_right _ (by omega)
      unfold segNeeded at hgt
      cases ctl <;> simp only [segSize, if_true, Bool.false_eq_true, if_false] at hlen hle hgt <;>
        omega
  · rintro (⟨hpos, hle⟩ | ⟨hlong, hcount⟩)
    · have hnum : segNum ctl pduLen = segNeeded ctl pduLen :=
        Nat.mod_eq_of_lt (show segNeeded ctl pduLen < 256 by omega)
      refine ⟨fun _ => accepts_iff.mpr (by rw [hnum]; exact hle), fun _ => by omega, ?_⟩
      rintro - data rfl
      exact allParts_flatten (by omega)
    · have hno : ¬ Accepts ctl pduLen := by
        rw [accepts_iff, segNum_eq]
        exact not_le.mpr hcount
      have hhanded : ¬ HandedDown c ctl pduLen := fun hh => by
        have hle := handedDown_le hh
        unfold segNeeded at hlong
        cases ctl <;> simp only [segSize, if_true, Bool.false_eq_true, if_false] at hle hlong <;>
          omega
      exact ⟨fun hh => absurd hh hhanded, fun ha => absurd ha hno, fun ha => absurd ha hno⟩

/-- An access payload of 380 bytes is admitted, and its 32 segments are one too many. -/
theorem layersAgree_fails : ¬ LayersAgree maskCrypto false 384 := fun h =>
  absurd (accepts_iff.mp (h.accepts (@handedDown_access _ 380 le_rfl))) (by decide)

end Meshx.MessageSizes
