import Meshx.NetAnswers
import Meshx.NetRoundTrip

/-! The interfaces that valid calls lead to: which of them have their filters and a bearer, and
which filters a message calls on its way to them. -/
namespace Meshx.Iface

open Lib Security Net

section Settings

/-- An interface has its filters, and a bearer if any, as long as it is of a valid type. -/
structure WellSet (p : NetIfaceInfo) : Prop where
  ifilter : p.ifilter.isSet ↔ p.type ≠ .invalid
  ofilter : p.ofilter.isSet ↔ p.type ≠ .invalid
  bearer : p.type ≠ .invalid → p.bearer = 0 ∨ p.bearer = bearerAdvPtr

/-- What holds of the interfaces after any valid calls: the bearer is connected only to an
interface that was connected. -/
structure Settled (s : IfaceState) : Prop where
  nodup : (s.ifaces.map (·.addr)).Nodup
  iface : ∀ p ∈ s.ifaces, WellSet p
  owner : s.bearerAdv.netIface ≠ 0 → ∃ p ∈ s.ifaces, p.addr = s.bearerAdv.netIface ∧
    p.type ≠ .invalid ∧ p.bearer = bearerAdvPtr

variable {s s' : IfaceState} {p q : NetIfaceInfo} {e : IfaceCall}

theorem ifaceAt_ok {netIface : Ptr} (h : ifaceAt s netIface = .ok p) :
    p ∈ s.ifaces ∧ p.addr = netIface := by
  unfold ifaceAt at h
  cases hf : s.ifaces.find? (·.addr = netIface) with
  | none =>
    rw [hf] at h
    cases h
  | some q =>
    rw [hf] at h
    cases h
    exact ⟨List.mem_of_find?_eq_some hf, by simpa using List.find?_some hf⟩

theorem leaveBearer_ok {bearer : Ptr} (h : leaveBearer s bearer = .ok s') :
    s'.ifaces = s.ifaces ∧
      (bearer = 0 ∧ s'.bearerAdv = s.bearerAdv ∨ s'.bearerAdv.netIface = 0) := by
  unfold leaveBearer setBearerIface at h
  by_cases hb : bearer = 0
  · rw [if_pos hb] at h
    cases h
    exact ⟨rfl, .inl ⟨hb, rfl⟩⟩
  · rw [if_neg hb] at h
    by_cases hadv : bearer = bearerAdvPtr
    · rw [if_pos hadv] at h
      cases h
      exact ⟨rfl, .inr rfl⟩
    · rw [if_neg hadv] at h
      cases h

/-- An interface leaves its bearer; the other interfaces are kept. -/
theorem Settled.leave (h : Settled s) (hp : p ∈ s.ifaces) {ifaces : List NetIfaceInfo}
    (hnodup : (ifaces.map (·.addr)).Nodup) (hset : ∀ q ∈ ifaces, WellSet q)
    (hrest : ∀ q ∈ s.ifaces, q.addr ≠ p.addr → q ∈ ifaces)
    (hs : leaveBearer { s with ifaces := ifaces } p.bearer = .ok s') : Settled s' := by
  obtain ⟨hifaces, hbearer⟩ := leaveBearer_ok hs
  refine ⟨hifaces ▸ hnodup, hifaces ▸ hset, fun hne => ?_⟩
  rcases hbearer with ⟨hnull, hkept⟩ | hcleared
  · rw [hkept] at hne ⊢
    obtain ⟨q, hq, haddr, htype, hadv⟩ := h.owner hne
    have hother : q.addr ≠ p.addr := by
      intro he
      rw [List.inj_on_of_nodup_map h.nodup hq hp he, hnull] at hadv
      exact absurd hadv (by decide)
    exact ⟨q, hifaces ▸ hrest q hq hother, haddr, htype, hadv⟩
  · exact absurd hcleared hne

theorem connectedIface_type_ne (s : IfaceState) (p : NetIfaceInfo) (bearer : Ptr)
    (inFilter : Option (Ptr → Unit → Bool)) (outFilter : Option (Ptr → OfilterData → Bool)) :
    (connectedIface s p bearer inFilter outFilter).type ≠ .invalid := by
  unfold connectedIface
  by_cases hb : s.bearerAdv.type = some .adv <;> simp [hb]

theorem wellSet_unset {addr bearer ifilter ofilter : Ptr} {filterInfo : FilterInfo} :
    WellSet ⟨addr, .invalid, bearer, .raw ifilter, .raw ofilter, filterInfo⟩ :=
  ⟨by simp [Filter.isSet], by simp [Filter.isSet], fun hne => absurd rfl hne⟩

theorem wellSet_connectedIface (s : IfaceState) (p : NetIfaceInfo)
    (inFilter : Option (Ptr → Unit → Bool)) (outFilter : Option (Ptr → OfilterData → Bool)) :
    WellSet (connectedIface s p bearerAdvPtr inFilter outFilter) := by
  have htype := connectedIface_type_ne s p bearerAdvPtr inFilter outFilter
  refine ⟨⟨fun _ => htype, fun _ => ?_⟩, ⟨fun _ => htype, fun _ => ?_⟩, fun _ => .inr rfl⟩
  · cases inFilter <;> rfl
  · cases outFilter <;> rfl

theorem Settled.step (h : Settled s) (hv : ValidCall s e) (hs : ifaceStep s e = .ok s') :
    Settled s' := by
  cases e with
  | create mem =>
    cases hreq : requestNetIface s mem with
    | none =>
      rw [ifaceStep, netIfaceCreate_none hreq] at hs
      cases hs
      exact h
    | some m =>
      rw [ifaceStep, netIfaceCreate_some hreq] at hs
      cases hs
      refine ⟨nodup_created h.nodup (hv m (requestNetIface_some hreq)), fun p hp => ?_,
        fun hne => ?_⟩
      · rcases List.mem_append.mp hp with hp | hp
        · exact h.iface p hp
        · cases List.mem_singleton.mp hp
          exact wellSet_unset
      · obtain ⟨p, hp, howner⟩ := h.owner hne
        exact ⟨p, List.mem_append_left _ hp, howner⟩
  | delete netIface =>
    by_cases hnull : netIface = 0
    · rw [ifaceStep, netIfaceDelete, if_pos hnull] at hs
      cases hs
      exact h
    · rw [ifaceStep, netIfaceDelete, if_neg hnull] at hs
      obtain ⟨p, hat, hleft⟩ := bind_ok hs
      obtain ⟨hp, rfl⟩ := ifaceAt_ok hat
      exact h.leave hp (h.nodup.sublist (List.filter_sublist.map _))
        (fun q hq => h.iface q (List.mem_of_mem_filter hq))
        (fun q hq hne => List.mem_filter.mpr ⟨hq, by simpa using hne⟩) hleft
  | connect netIface bearer inFilter outFilter =>
    by_cases hc : Connectable s netIface bearer
    · obtain ⟨p, hp, rfl, rfl, hmade⟩ := connect_made h.nodup hv hc
      cases hmade.symm.trans hs
      refine ⟨by rw [map_addr_setIface]; exact h.nodup, fun q hq => ?_, fun _ => ?_⟩
      · rcases mem_setIface hq with rfl | ⟨hq, -⟩
        · exact wellSet_connectedIface s p inFilter outFilter
        · exact h.iface q hq
      · exact ⟨_, mem_setIface_self hp rfl, rfl, connectedIface_type_ne s p _ inFilter outFilter,
          rfl⟩
    · cases (connect_refused h.nodup hv hc).symm.trans hs
      exact h
  | disconnect netIface =>
    by_cases hnull : netIface = 0
    · rw [ifaceStep, netIfaceDisconnect, if_pos hnull] at hs
      cases hs
      exact h
    · rw [ifaceStep, netIfaceDisconnect, if_neg hnull] at hs
      obtain ⟨p, hat, hleft⟩ := bind_ok hs
      obtain ⟨hp, rfl⟩ := ifaceAt_ok hat
      refine h.leave hp ((map_addr_setIface s _).symm ▸ h.nodup) (fun q hq => ?_)
        (fun q hq hne => ?_) hleft
      · rcases mem_setIface hq with rfl | ⟨hq, -⟩
        · exact wellSet_unset
        · exact h.iface q hq
      · exact List.mem_map.mpr ⟨q, hq, if_neg hne⟩
  | bearerCreate =>
    rw [ifaceStep, bearerAdvCreate] at hs
    by_cases hadv : s.bearerAdv.type = some .adv
    · rw [if_pos hadv] at hs
      cases hs
      exact h
    · rw [if_neg hadv] at hs
      cases hs
      exact ⟨h.nodup, h.iface, fun hne => absurd rfl hne⟩
  | bearerDelete bearer =>
    rcases hv with rfl | rfl
    · cases hs
    · cases hs
      exact ⟨h.nodup, h.iface, fun hne => absurd rfl hne⟩

theorem settled_init {m : Block} (hinit : netIfaceInit (some m) = some s) : Settled s := by
  cases hinit
  refine ⟨List.nodup_singleton _, fun p hp => ?_, fun hne => absurd rfl hne⟩
  cases List.mem_singleton.mp hp
  exact ⟨by simp [loopbackIface, Filter.isSet], by simp [loopbackIface, Filter.isSet],
    fun _ => .inl rfl⟩

end Settings

section Bearers

variable {c : Crypto} {bearerRet : NetTx → Errno} {net : NetState} {s s' : IfaceState}
  {p : NetIfaceInfo} {ifaces : List NetIfaceInfo} {bytes pdata misc : List Byte}
  {data : OfilterData} {ctx : MsgCtx} {α : Type}

/-- No filter is called that is not set. -/
def FiltersHeld (out : Except NetFault α) : Prop :=
  ∀ netIface, out ≠ .error (.unsetFilter netIface)

/-- The interface is connected and lets the message pass. -/
def Passes (data : OfilterData) (p : NetIfaceInfo) : Bool :=
  p.bearer ≠ 0 && p.ofilter.accepts p.addr data

/-- What is sent on all interfaces. -/
def connectedTx (s : IfaceState) (bytes : List Byte) (data : OfilterData)
    (ifaces : List NetIfaceInfo) : List NetTx :=
  (ifaces.filter fun p => p.type ≠ .loopback && Passes data p).map fun _ => bearerTx s bytes

theorem connectedTx_loopback (h : p.type = .loopback) :
    connectedTx s bytes data (p :: ifaces) = connectedTx s bytes data ifaces := by
  rw [connectedTx, List.filter_cons_of_neg (by simp [h])]
  rfl

theorem connectedTx_cons (h : p.type ≠ .loopback) : connectedTx s bytes data (p :: ifaces) =
    (if Passes data p then [bearerTx s bytes] else []) ++ connectedTx s bytes data ifaces := by
  unfold connectedTx
  by_cases hpass : Passes data p
  · rw [List.filter_cons_of_pos (by simp [h, hpass]), if_pos hpass]
    rfl
  · rw [List.filter_cons_of_neg (by simp [hpass]), if_neg hpass]
    rfl

/-- An interface without what it has counted. -/
def NetIfaceInfo.settings (p : NetIfaceInfo) : NetIfaceInfo := { p with filterInfo := .zero }

@[simp] theorem settings_addr (p : NetIfaceInfo) : p.settings.addr = p.addr := rfl

@[simp] theorem settings_type (p : NetIfaceInfo) : p.settings.type = p.type := rfl

theorem filtersHeld_ok (a : α) : FiltersHeld (.ok a) := fun _ h => by cases h

theorem filtersHeld_unset (netIface : Ptr) :
    ¬FiltersHeld (.error (.unsetFilter netIface) : Except NetFault α) := fun h => h netIface rfl

theorem netIfaceIfilter_set (h : p.ifilter.isSet) : netIfaceIfilter p =
    .ok (p.ifilter.accepts p.addr (),
      { p with filterInfo := p.filterInfo.countReceive (p.ifilter.accepts p.addr ()) }) := by
  rw [netIfaceIfilter, Filter.call, if_pos h]
  rfl

theorem netIfaceOfilter_set (h : p.ofilter.isSet) : netIfaceOfilter p data =
    .ok (p.ofilter.accepts p.addr data,
      { p with filterInfo := p.filterInfo.countSend (p.ofilter.accepts p.addr data) }) := by
  rw [netIfaceOfilter, Filter.call, if_pos h]
  rfl

theorem netIfaceOfilter_unset (h : ¬p.ofilter.isSet) :
    netIfaceOfilter p data = .error (.unsetFilter p.addr) := by
  rw [netIfaceOfilter, Filter.call, if_neg h]
  rfl

theorem netSendToBearer_tx : (Net.netSendToBearer bearerRet bytes ctx (p.toNet s.bearerAdv)).tx =
    if Passes ⟨ctx.src, ctx.dst⟩ p then [bearerTx s bytes] else [] := by
  unfold Net.netSendToBearer NetIfaceInfo.toNet Passes
  cases ha : p.ofilter.accepts p.addr ⟨ctx.src, ctx.dst⟩ with
  | false => simp [ha]
  | true =>
    by_cases hb : p.bearer = 0
    · simp [ha, hb]
    · simp [ha, hb, bearerTx]

theorem netSendToBearer_ok (bearerRet : NetTx → Errno) (s : IfaceState) (bytes : List Byte)
    (ctx : MsgCtx) (h : WellSet p) (htype : p.type ≠ .invalid) :
    ∃ p', netSendToBearer bearerRet s bytes ⟨ctx.src, ctx.dst⟩ p =
      .ok (Net.netSendToBearer bearerRet bytes ctx (p.toNet s.bearerAdv), p') ∧
        p'.settings = p.settings := by
  unfold netSendToBearer
  rw [netIfaceOfilter_set (h.ofilter.mpr htype)]
  refine ⟨{ p with filterInfo :=
    p.filterInfo.countSend (p.ofilter.accepts p.addr ⟨ctx.src, ctx.dst⟩) }, ?_, rfl⟩
  cases ha : p.ofilter.accepts p.addr ⟨ctx.src, ctx.dst⟩ with
  | false =>
    simp [Net.netSendToBearer, NetIfaceInfo.toNet, ha, bind, Except.bind, pure, Except.pure]
  | true =>
    rcases h.bearer htype with hb | hb <;>
      simp [Net.netSendToBearer, NetIfaceInfo.toNet, ha, bind, Except.bind, pure, Except.pure, hb,
        bearerAdvPtr, bearerTx]

theorem netSendToBearer_unset (h : WellSet p) (htype : p.type = .invalid) :
    netSendToBearer bearerRet s bytes data p = .error (.unsetFilter p.addr) := by
  rw [netSendToBearer, netIfaceOfilter_unset fun hset => h.ofilter.mp hset htype]
  rfl

theorem netSendEach_ok (h : ∀ p ∈ ifaces, WellSet p ∧ p.type ≠ .invalid) :
    ∃ ifaces', netSendEach bearerRet s bytes ⟨ctx.src, ctx.dst⟩ ifaces =
      .ok (ifaces.any (·.type ≠ .loopback), connectedTx s bytes ⟨ctx.src, ctx.dst⟩ ifaces,
        ifaces') ∧ ifaces'.map (·.settings) = ifaces.map (·.settings) := by
  induction ifaces with
  | nil => exact ⟨_, rfl, rfl⟩
  | cons p rest ih =>
    obtain ⟨rest', hrest, hsame⟩ := ih fun q hq => h q (List.mem_cons_of_mem p hq)
    obtain ⟨hset, htype⟩ := h p List.mem_cons_self
    by_cases hloop : p.type = .loopback
    · refine ⟨p :: rest', ?_, by rw [List.map_cons, hsame, List.map_cons]⟩
      rw [netSendEach, if_pos hloop, hrest, connectedTx_loopback hloop, List.any_cons,
        decide_eq_false (not_not.mpr hloop), Bool.false_or]
      rfl
    · obtain ⟨p', hsent, hkept⟩ := netSendToBearer_ok bearerRet s bytes ctx hset htype
      refine ⟨p' :: rest', ?_, by rw [List.map_cons, hsame, hkept, List.map_cons]⟩
      rw [netSendEach, if_neg hloop, hsent, hrest, connectedTx_cons hloop, ← netSendToBearer_tx,
        List.any_cons, decide_eq_true hloop, Bool.true_or]
      rfl

/-- An interface that was not connected, at any place of the list, ends the loop. -/
theorem netSendEach_unset (h : ∀ p ∈ ifaces, WellSet p) (hex : ∃ p ∈ ifaces, p.type = .invalid) :
    ∃ netIface, netSendEach bearerRet s bytes ⟨ctx.src, ctx.dst⟩ ifaces =
      .error (.unsetFilter netIface) := by
  induction ifaces with
  | nil =>
    obtain ⟨p, hp, -⟩ := hex
    cases hp
  | cons p rest ih =>
    have hset := h p List.mem_cons_self
    by_cases htype : p.type = .invalid
    · refine ⟨p.addr, ?_⟩
      rw [netSendEach, if_neg (by simp [htype]), netSendToBearer_unset hset htype]
      rfl
    · obtain ⟨q, hq, hinvalid⟩ := hex
      have hq : q ∈ rest := (List.mem_cons.mp hq).resolve_left fun he => htype (he ▸ hinvalid)
      obtain ⟨netIface, hrest⟩ :=
        ih (fun q hq => h q (List.mem_cons_of_mem p hq)) ⟨q, hq, hinvalid⟩
      refine ⟨netIface, ?_⟩
      by_cases hloop : p.type = .loopback
      · rw [netSendEach, if_pos hloop, hrest]
        rfl
      · obtain ⟨p', hsent, -⟩ := netSendToBearer_ok bearerRet s bytes ctx hset htype
        rw [netSendEach, if_neg hloop, hsent, hrest]
        rfl

/-- There is a first interface, and it was connected or is the loopback interface. -/
def FirstSet (s : IfaceState) : Prop := ∃ p, s.ifaces.head? = some p ∧ p.type ≠ .invalid

/-- The interfaces that the message goes to, the loopback interface among them, are of a valid
type. -/
def TargetsSet (net : NetState) (s : IfaceState) (ctx : MsgCtx) : Prop :=
  match ctx.netIface with
  | none =>
    if isMyAddress net ctx.dst then FirstSet s else ∀ p ∈ s.ifaces, p.type ≠ .invalid
  | some netIface => ∃ p ∈ s.ifaces, p.addr = netIface ∧
    if p.type = .loopback then FirstSet s else p.type ≠ .invalid

theorem netPack_ok {kv : NetKeyValue} {transPdu : List Byte}
    (hok : netLengthOk transPdu.length ctx.ctl) :
    ∃ bytes, netPack c kv ctx transPdu = .ok bytes := by
  have hle := netLengthOk_le hok
  obtain ⟨p, hp, -⟩ := @netEncrypt_ok c kv ctx.ivIndex (plainPdu kv ctx transPdu) transPdu.length
    (by rw [plainPdu_ctl]; omega)
  exact ⟨_, by rw [netPack, hp]; rfl⟩

end Bearers

end Meshx.Iface
