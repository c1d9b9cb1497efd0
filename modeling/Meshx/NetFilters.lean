import Meshx.NetSettings
import Meshx.ReceiveCases

/-! Which filters are called on the send and receive paths, also by what is sent in answer to what
is received: only those of interfaces that are set, exactly if all messages go to such. -/
namespace Meshx.Iface

open Lib Security Net

section Answers

variable {σ α β : Type} {c : Crypto} {bearerRet : NetTx → Errno}
  {upper : σ → MsgCtx → List Byte → Answer σ} {n n' : Node σ} {p q : NetIfaceInfo}
  {s : IfaceState} {net : NetState} {ctx : MsgCtx} {msg : Message} {P : Prop}

theorem traced_bind_ok {x : Traced α} {a : α} (h : x.out = .ok a) (f : α → Traced β) :
    x >>= f = ⟨x.answers ++ (f a).answers, (f a).out⟩ := by
  simp only [bind, h]

theorem traced_bind_error {x : Traced α} {e : NetFault} (h : x.out = .error e)
    (f : α → Traced β) : x >>= f = ⟨x.answers, .error e⟩ := by
  simp only [bind, h]

theorem out_bind_pure (x : Traced α) (g : α → β) :
    (x >>= fun a => pure (g a)).out = x.out.map g := by
  cases hout : x.out with
  | error e =>
    rw [traced_bind_error hout]
    rfl
  | ok a =>
    rw [traced_bind_ok hout]
    rfl

theorem of_ok_bind (a : α) (f : α → Traced β) : Traced.of (.ok a) >>= f = f a := rfl

theorem of_error_bind (e : NetFault) (f : α → Traced β) :
    Traced.of (.error e) >>= f = .of (.error e) := rfl

theorem wellSet_settings : WellSet p.settings ↔ WellSet p :=
  ⟨fun h => ⟨h.ifilter, h.ofilter, h.bearer⟩, fun h => ⟨h.ifilter, h.ofilter, h.bearer⟩⟩

theorem settled_settings :
    Settled ⟨s.ifaces.map (·.settings), s.bearerAdv⟩ ↔ Settled s := by
  have haddr : (s.ifaces.map (·.settings)).map (·.addr) = s.ifaces.map (·.addr) := by
    simp [Function.comp_def]
  constructor
  · intro h
    refine ⟨haddr ▸ h.nodup, fun p hp => ?_, fun hne => ?_⟩
    · exact wellSet_settings.mp (h.iface p.settings (List.mem_map_of_mem hp))
    · obtain ⟨_, hmem, howner⟩ := h.owner hne
      obtain ⟨p, hp, rfl⟩ := List.mem_map.mp hmem
      exact ⟨p, hp, howner⟩
  · intro h
    refine ⟨haddr.symm ▸ h.nodup, fun _ hmem => ?_, fun hne => ?_⟩
    · obtain ⟨p, hp, rfl⟩ := List.mem_map.mp hmem
      exact wellSet_settings.mpr (h.iface p hp)
    · obtain ⟨p, hp, howner⟩ := h.owner hne
      exact ⟨p.settings, List.mem_map_of_mem hp, howner⟩

theorem firstSet_settings :
    FirstSet ⟨s.ifaces.map (·.settings), s.bearerAdv⟩ ↔ FirstSet s := by
  simp [FirstSet]

theorem targetsSet_settings :
    TargetsSet net ⟨s.ifaces.map (·.settings), s.bearerAdv⟩ ctx ↔ TargetsSet net s ctx := by
  unfold TargetsSet
  cases ctx.netIface with
  | none => simp only [firstSet_settings, List.forall_mem_map, settings_type]
  | some netIface =>
    simp only [firstSet_settings, List.mem_map, exists_exists_and_eq_and, settings_type,
      settings_addr]
    exact Iff.rfl

/-- Sending and receiving leave the address of the node and everything of the interfaces but what
they count. -/
structure Kept (n n' : Node σ) : Prop where
  nodeAddr : n'.net.nodeAddr = n.net.nodeAddr
  bearerAdv : n'.ifaces.bearerAdv = n.ifaces.bearerAdv
  ifaces : n'.ifaces.ifaces.map (·.settings) = n.ifaces.ifaces.map (·.settings)

theorem Kept.rfl : Kept n n := ⟨Eq.refl _, Eq.refl _, Eq.refl _⟩

theorem Kept.trans {n'' : Node σ} (h : Kept n n') (h' : Kept n' n'') : Kept n n'' :=
  ⟨h'.nodeAddr.trans h.nodeAddr, h'.bearerAdv.trans h.bearerAdv, h'.ifaces.trans h.ifaces⟩

theorem Kept.settled (h : Kept n n') (hs : Settled n.ifaces) : Settled n'.ifaces := by
  apply settled_settings.mp
  rw [h.ifaces, h.bearerAdv]
  exact settled_settings.mpr hs

theorem Kept.targetsSet (h : Kept n n') :
    TargetsSet n'.net n'.ifaces ctx ↔ TargetsSet n.net n.ifaces ctx := by
  have hmy : isMyAddress n'.net ctx.dst = isMyAddress n.net ctx.dst := by
    simp [isMyAddress, h.nodeAddr]
  rw [← targetsSet_settings, h.ifaces, h.bearerAdv, ← @targetsSet_settings n.ifaces]
  unfold TargetsSet
  rw [hmy]

/-- The message is refused, or goes to interfaces that are of a valid type. -/
def GoesRight (n : Node σ) (msg : Message) : Prop :=
  netLengthOk msg.transPdu.length msg.ctx.ctl → msg.ctx.pnetKey ≠ none →
    TargetsSet n.net n.ifaces msg.ctx

theorem Kept.goesRight (h : Kept n n') : GoesRight n' msg ↔ GoesRight n msg := by
  unfold GoesRight
  rw [h.targetsSet]

/-- An interface that has counted is put back. -/
theorem kept_setIface (h : Settled n.ifaces) (hp : p ∈ n.ifaces.ifaces)
    (hq : q.settings = p.settings) : Kept n (n.setIface q) := by
  refine ⟨rfl, rfl, ?_⟩
  have haddr : q.addr = p.addr := (congrArg (·.addr) hq :)
  simp only [Node.setIface, setIface, List.map_map]
  refine List.map_congr_left fun r hr => ?_
  by_cases hsame : r.addr = q.addr
  · cases List.inj_on_of_nodup_map h.nodup hr hp (hsame.trans haddr)
    simp [hsame, hq]
  · simp [hsame]

/-- Filters that are not set stay uncalled exactly if the condition holds and every message of the
layers above goes right. -/
structure Exact (n : Node σ) (P : Prop) (x : Traced (Node σ × α)) : Prop where
  held : FiltersHeld x.out ↔ P ∧ ∀ m ∈ x.answers, GoesRight n m
  kept : ∀ n' a, x.out = .ok (n', a) → Kept n n'

theorem exact_pure (h : Kept n n') (a : α) : Exact n True (pure (n', a) : Traced (Node σ × α)) where
  held := iff_of_true (filtersHeld_ok _) ⟨trivial, fun _ hm => by cases hm⟩
  kept _ _ he := by
    cases he
    exact h

theorem exact_unset (hP : ¬P) (netIface : Ptr) :
    Exact n P (.of (.error (.unsetFilter netIface)) : Traced (Node σ × α)) where
  held := iff_of_false (filtersHeld_unset netIface) fun h => hP h.1
  kept _ _ he := by cases he

theorem exact_error {e : NetFault} (he : ∀ netIface, e ≠ .unsetFilter netIface) :
    Exact n True (.of (.error e) : Traced (Node σ × α)) where
  held := iff_of_true (fun netIface h => he netIface (Except.error.inj h))
    ⟨trivial, fun _ hm => by cases hm⟩
  kept _ _ he := by cases he

theorem Exact.of_kept {x : Traced (Node σ × α)} (h : Exact n' P x) (hk : Kept n n') :
    Exact n P x where
  held := by
    rw [h.held]
    simp only [hk.goesRight]
  kept n'' a he := hk.trans (h.kept n'' a he)

theorem Exact.congr {x : Traced (Node σ × α)} {Q : Prop} (h : Exact n P x) (hPQ : P ↔ Q) :
    Exact n Q x := by
  rwa [← propext hPQ]

/-- What a computation goes on with finds the interfaces as they were. -/
theorem Exact.bind {x : Traced (Node σ × α)} {f : Node σ × α → Traced (Node σ × β)}
    (hx : Exact n P x) (hf : ∀ n' a, x.out = .ok (n', a) → Exact n' True (f (n', a))) :
    Exact n P (x >>= f) := by
  cases hout : x.out with
  | error e =>
    have herror : FiltersHeld (.error e : Except NetFault (Node σ × α)) ↔
        FiltersHeld (.error e : Except NetFault (Node σ × β)) := by
      simp [FiltersHeld]
    rw [traced_bind_error hout]
    refine ⟨?_, fun _ _ he => by cases he⟩
    rw [← hx.held, hout, herror]
  | ok r =>
    obtain ⟨n', a⟩ := r
    have hk := hx.kept n' a hout
    have hright := hx.held.mp (hout ▸ filtersHeld_ok _)
    have hrest := (hf n' a hout).of_kept hk
    rw [traced_bind_ok hout]
    refine ⟨?_, hrest.kept⟩
    rw [hrest.held, List.forall_mem_append]
    exact ⟨fun h => ⟨hright.1, hright.2, h.2⟩, fun h => ⟨trivial, h.2.2⟩⟩

/-- A message of the layers above, and what comes of it. -/
theorem Exact.noted {x : Traced (Node σ × α)} (h : Exact n (GoesRight n msg) x) :
    Exact n True (x.noted msg) where
  held := by
    rw [Traced.noted, h.held, List.forall_mem_cons]
    exact (true_and _ ▸ Iff.rfl)
  kept := h.kept

/-- A function that sends or receives as the network layer does. -/
def ExactSend (send : Node σ → Message → Traced (Node σ × NetSent)) : Prop :=
  ∀ n msg, Settled n.ifaces → Exact n (GoesRight n msg) (send n msg)

def ExactReceive (receive : Node σ → NetIfaceInfo → List Byte → List Byte →
    Traced (Node σ × Errno × NetResult)) : Prop :=
  ∀ n p pdata misc, Settled n.ifaces → p ∈ n.ifaces.ifaces → p.type ≠ .invalid →
    Exact n True (receive n p pdata misc)

theorem handUp_exact {send : Node σ → Message → Traced (Node σ × NetSent)} (hsend : ExactSend send)
    (a : Answer σ) (hs : Settled n.ifaces) : Exact n True (handUp send n a) := by
  induction a generalizing n with
  | done upper ret =>
    have hk : Kept n { n with upper := upper } := ⟨rfl, rfl, rfl⟩
    exact exact_pure hk ret
  | failed f => exact exact_error fun _ h => by cases h
  | send upper msg next ih =>
    have hk : Kept n { n with upper := upper } := ⟨rfl, rfl, rfl⟩
    refine Exact.of_kept ?_ hk
    have hsent := (hsend { n with upper := upper } msg hs).noted
    refine hsent.bind fun n' sent hout => ?_
    exact ih _ _ ((hsent.kept n' sent hout).settled hs)

theorem netReceiveFinish_ok {id : ℕ} {ivIndex : BitVec 32} {d : Option Decoded} {net' : NetState}
    {r : NetResult} (h : netReceiveFinish net id ivIndex d = .ok (net', r)) :
    net'.nodeAddr = net.nodeAddr ∧ ∀ pdu ctx, r = .toLower pdu ctx →
      addressIsValid ctx.src = true ∧ ctx.pnetKey ≠ none := by
  cases d with
  | none =>
    cases h
    exact ⟨rfl, fun _ _ hr => by cases hr⟩
  | some d =>
    simp only [netReceiveFinish] at h
    by_cases haddr : (!addressIsValid d.pdu.src || !addressIsValid d.pdu.dst) = true
    · rw [if_pos haddr] at h
      cases h
      exact ⟨rfl, fun _ _ hr => by cases hr⟩
    rw [if_neg haddr] at h
    by_cases hnew : (!nmcCheck net.nmc ⟨d.pdu.src, d.pdu.seq.setWidth 32⟩) = true
    · rw [if_pos hnew] at h
      cases h
      exact ⟨rfl, fun _ _ hr => by cases hr⟩
    rw [if_neg hnew] at h
    obtain ⟨nmc, -, h⟩ := bind_ok h
    obtain ⟨rfl, rfl⟩ := Prod.mk.inj (Except.ok.inj h)
    refine ⟨rfl, fun pdu ctx hr => ?_⟩
    by_cases hmy : isMyAddress net d.pdu.dst = true
    · rw [if_pos hmy] at hr
      cases hr
      simp only [Bool.or_eq_true, Bool.not_eq_true', not_or, Bool.not_eq_false] at haddr
      exact ⟨haddr.1, by simp [rxCtx]⟩
    · rw [if_neg hmy] at hr
      cases hr

theorem netReceive_ok {iface : NetIface} {pdata misc : List Byte} {net' : NetState}
    {r : NetResult} (h : Net.netReceive c net (some iface) pdata misc = .ok (net', r)) :
    net'.nodeAddr = net.nodeAddr ∧ ∀ pdu ctx, r = .toLower pdu ctx →
      addressIsValid ctx.src = true ∧ ctx.pnetKey ≠ none := by
  simp only [Net.netReceive] at h
  by_cases hfilter : (!iface.ifilter) = true
  · rw [if_pos hfilter] at h
    cases h
    exact ⟨rfl, fun _ _ hr => by cases hr⟩
  · rw [if_neg hfilter] at h
    obtain ⟨d, -, h⟩ := bind_ok h
    exact netReceiveFinish_ok h

theorem netReceiveIn_set {send : Node σ → Message → Traced (Node σ × NetSent)}
    {pdata misc : List Byte} (hset : p.ifilter.isSet) : ∃ q, q.settings = p.settings ∧
      netReceiveIn c upper send n p pdata misc =
        Traced.of ((Net.netReceive c n.net (some (p.toNet n.ifaces.bearerAdv)) pdata misc).mapError
          .fault) >>= fun out => handOver upper send { n.setIface q with net := out.1 } out.2 := by
  refine ⟨{ p with filterInfo := p.filterInfo.countReceive (p.ifilter.accepts p.addr ()) }, rfl, ?_⟩
  rw [netReceiveIn, netIfaceIfilter_set hset]
  rfl

theorem handOver_exact {send : Node σ → Message → Traced (Node σ × NetSent)}
    (hsend : ExactSend send) (hs : Settled n.ifaces) (r : NetResult) :
    Exact n True (handOver upper send n r) := by
  cases r with
  | ret err => exact exact_pure .rfl _
  | relay pdu ctx => exact exact_pure .rfl _
  | toLower pdu ctx =>
    exact (handUp_exact hsend _ hs).bind fun n' ret _ => exact_pure .rfl _

theorem netReceiveIn_exact {send : Node σ → Message → Traced (Node σ × NetSent)}
    (hsend : ExactSend send) : ExactReceive (netReceiveIn c upper send) := by
  intro n p pdata misc hs hp htype
  obtain ⟨q, hq, hreceive⟩ := @netReceiveIn_set σ c upper n p send pdata misc
    ((hs.iface p hp).ifilter.mpr htype)
  rw [hreceive]
  cases hr : Net.netReceive c n.net (some (p.toNet n.ifaces.bearerAdv)) pdata misc with
  | error f => exact exact_error fun _ h => by cases h
  | ok out =>
    have hset := kept_setIface hs hp hq
    have hk : Kept n { n.setIface q with net := out.1 } :=
      ⟨(netReceive_ok hr).1, hset.bearerAdv, hset.ifaces⟩
    exact (handOver_exact hsend (hk.settled hs) out.2).of_kept hk

section Over

variable {receive : Node σ → NetIfaceInfo → List Byte → List Byte →
  Traced (Node σ × Errno × NetResult)} (hreceive : ExactReceive receive)

include hreceive

theorem netLoopback_exact (hs : Settled n.ifaces) (bytes misc : List Byte) (data : OfilterData) :
    Exact n (FirstSet n.ifaces) (netLoopback receive n bytes misc data) := by
  unfold netLoopback FirstSet
  cases hifaces : n.ifaces.ifaces with
  | nil => exact exact_unset (by simp) listHeadPtr
  | cons p rest =>
    have hp : p ∈ n.ifaces.ifaces := hifaces ▸ List.mem_cons_self
    have hset := hs.iface p hp
    by_cases htype : p.type = .invalid
    · simp only [netIfaceOfilter_unset fun hyes => hset.ofilter.mp hyes htype, of_error_bind]
      exact exact_unset (by simp [htype]) p.addr
    · have hfirst : ∃ q, (p :: rest).head? = some q ∧ q.type ≠ .invalid := ⟨p, rfl, htype⟩
      refine Exact.congr ?_ (iff_of_true trivial hfirst)
      simp only [netIfaceOfilter_set (hset.ofilter.mpr htype), of_ok_bind]
      generalize hq : ({ p with
        filterInfo := p.filterInfo.countSend (p.ofilter.accepts p.addr data) } : NetIfaceInfo) = q
      have hsame : q.settings = p.settings := by rw [← hq]; rfl
      have hk : Kept n (n.setIface q) := kept_setIface hs hp hsame
      by_cases hpass : p.ofilter.accepts p.addr data = false
      · rw [if_pos hpass]
        exact exact_pure hk _
      · rw [if_neg hpass]
        refine Exact.of_kept ?_ hk
        have hmem : q ∈ (n.setIface q).ifaces.ifaces :=
          mem_setIface_self hp (congrArg (·.addr) hsame :)
        have hqtype : q.type ≠ .invalid := (congrArg (·.type) hsame :) ▸ htype
        exact (hreceive _ q bytes misc (hk.settled hs) hmem hqtype).bind fun n' out _ =>
          exact_pure .rfl _

theorem netSendPacked_exact (hs : Settled n.ifaces) (ctx : MsgCtx) (bytes misc : List Byte) :
    Exact n (TargetsSet n.net n.ifaces ctx)
      (netSendPacked bearerRet receive n ctx bytes misc) := by
  unfold netSendPacked TargetsSet
  cases ctx.netIface with
  | none =>
    by_cases hmy : isMyAddress n.net ctx.dst = true
    · simp only [if_pos hmy]
      exact netLoopback_exact hreceive hs bytes misc _
    · simp only [if_neg hmy]
      by_cases hall : ∀ p ∈ n.ifaces.ifaces, p.type ≠ .invalid
      · obtain ⟨ifaces', hsent, hsame⟩ :=
          @netSendEach_ok bearerRet n.ifaces n.ifaces.ifaces bytes ctx
            fun p hp => ⟨hs.iface p hp, hall p hp⟩
        have hk : Kept n { n with ifaces := { n.ifaces with ifaces := ifaces' } } :=
          ⟨rfl, rfl, hsame⟩
        rw [hsent, of_ok_bind]
        exact (exact_pure hk _).congr (iff_of_true trivial hall)
      · have hex : ∃ p ∈ n.ifaces.ifaces, p.type = .invalid := by simpa using hall
        obtain ⟨netIface, hunset⟩ := @netSendEach_unset bearerRet n.ifaces n.ifaces.ifaces bytes ctx
          hs.iface hex
        rw [hunset, of_error_bind]
        exact exact_unset hall netIface
  | some netIface =>
    cases hf : n.ifaces.ifaces.find? (·.addr = netIface) with
    | none =>
      simp only [hf]
      refine exact_unset ?_ netIface
      rintro ⟨p, hp, haddr, -⟩
      exact absurd haddr (by simpa using List.find?_eq_none.mp hf p hp)
    | some p =>
      have hp := List.mem_of_find?_eq_some hf
      have haddr : p.addr = netIface := by simpa using List.find?_some hf
      have hsome : (∃ q ∈ n.ifaces.ifaces, q.addr = netIface ∧
          if q.type = .loopback then FirstSet n.ifaces else q.type ≠ .invalid) ↔
          if p.type = .loopback then FirstSet n.ifaces else p.type ≠ .invalid := by
        refine ⟨fun ⟨q, hq, he, hset⟩ => ?_, fun hset => ⟨p, hp, haddr, hset⟩⟩
        cases List.inj_on_of_nodup_map hs.nodup hq hp (he.trans haddr.symm)
        exact hset
      simp only [hf, hsome]
      by_cases hloop : p.type = .loopback
      · simp only [if_pos hloop]
        exact netLoopback_exact hreceive hs bytes misc _
      simp only [if_neg hloop]
      by_cases htype : p.type = .invalid
      · rw [netSendToBearer_unset (hs.iface p hp) htype, of_error_bind]
        exact exact_unset (not_not.mpr htype) p.addr
      · obtain ⟨q, hsent, hsame⟩ :=
          netSendToBearer_ok bearerRet n.ifaces bytes ctx (hs.iface p hp) htype
        rw [hsent, of_ok_bind]
        exact (exact_pure (kept_setIface hs hp hsame) _).congr (iff_of_true trivial htype)

theorem netSendIn_exact : ExactSend (netSendIn c bearerRet receive) := by
  intro n msg hs
  unfold netSendIn
  by_cases hlen : netLengthOk msg.transPdu.length msg.ctx.ctl = true
  · rw [if_neg (by simpa using hlen)]
    cases hkv : msg.ctx.pnetKey with
    | none =>
      have hright : GoesRight n msg := fun _ hne => absurd hkv hne
      exact (exact_error fun _ he => by cases he).congr (iff_of_true trivial hright)
    | some kv =>
      obtain ⟨bytes, hb⟩ := @netPack_ok c msg.ctx kv msg.transPdu hlen
      have hright : TargetsSet n.net n.ifaces msg.ctx ↔ GoesRight n msg :=
        ⟨fun ht _ _ => ht, fun h => h hlen (by simp [hkv])⟩
      simp only [hb, Except.mapError, of_ok_bind]
      exact (netSendPacked_exact hreceive hs msg.ctx bytes msg.misc).congr hright
  · rw [if_pos (by simpa using hlen)]
    have hright : GoesRight n msg := fun hok _ => absurd hok hlen
    exact (exact_pure .rfl _).congr (iff_of_true trivial hright)

end Over

/-- However deep the loopbacks nest. -/
theorem netReceive_exact (depth : ℕ) : ExactReceive (netReceive c bearerRet upper depth) := by
  induction depth with
  | zero => exact fun _ _ _ _ _ _ _ => exact_error fun _ h => by cases h
  | succ depth ih => exact netReceiveIn_exact (netSendIn_exact ih)

theorem netSend_exact (depth : ℕ) : ExactSend (netSend c bearerRet upper depth) :=
  netSendIn_exact (netReceive_exact depth)

theorem bearerAdvReceive_exact (hs : Settled n.ifaces) (depth : ℕ) (bearer : Ptr)
    (pdata misc : List Byte) :
    Exact n True (bearerAdvReceive c bearerRet upper depth n bearer pdata misc) := by
  unfold bearerAdvReceive
  by_cases hnull : bearer = 0
  · rw [if_pos hnull]
    exact exact_pure .rfl _
  rw [if_neg hnull]
  by_cases hadv : bearer ≠ bearerAdvPtr
  · simp only [if_pos hadv]
    exact exact_error fun _ he => by cases he
  simp only [if_neg hadv]
  by_cases hnone : n.ifaces.bearerAdv.netIface = 0
  · rw [if_pos hnone]
    exact exact_pure .rfl _
  rw [if_neg hnone]
  obtain ⟨p, hp, haddr, htype, -⟩ := hs.owner hnone
  rw [← haddr, find_addr hs.nodup hp]
  exact (netReceive_exact _ n p pdata misc hs hp htype).bind fun n' _ _ => exact_pure .rfl _

end Answers

section Sending

variable {σ : Type} {c : Crypto} {bearerRet : NetTx → Errno}
  {upper : σ → MsgCtx → List Byte → Answer σ} {depth : ℕ} {n : Node σ} {p : NetIfaceInfo}
  {s : IfaceState} {ifaces : List NetIfaceInfo} {ctx : MsgCtx} {msg : Message}
  {bytes pdata misc : List Byte}

/-- What is wanted of a message: it reaches no filter that is not set, and one for all interfaces
is sent on every interface that is connected and lets it pass. -/
structure SendsRight (c : Crypto) (bearerRet : NetTx → Errno)
    (upper : σ → MsgCtx → List Byte → Answer σ) (depth : ℕ) (n : Node σ) (msg : Message) :
    Prop where
  held : FiltersHeld (netSend c bearerRet upper depth n msg).out
  sent : msg.ctx.netIface = none → isMyAddress n.net msg.ctx.dst = false →
    netLengthOk msg.transPdu.length msg.ctx.ctl → ∀ kv, msg.ctx.pnetKey = some kv →
      ∃ bytes sent s', netPack c kv msg.ctx msg.transPdu = .ok bytes ∧
        (netSend c bearerRet upper depth n msg).out = .ok ({ n with ifaces := s' }, sent) ∧
        sent.tx = connectedTx n.ifaces bytes ⟨msg.ctx.src, msg.ctx.dst⟩ n.ifaces.ifaces

theorem netSend_packed {kv : NetKeyValue} (hlen : netLengthOk msg.transPdu.length msg.ctx.ctl)
    (hkv : msg.ctx.pnetKey = some kv) (hb : netPack c kv msg.ctx msg.transPdu = .ok bytes) :
    netSend c bearerRet upper depth n msg =
      netSendPacked bearerRet (netReceive c bearerRet upper depth) n msg.ctx bytes msg.misc := by
  simp only [netSend, netSendIn, hlen, hkv, hb, Bool.not_true, Bool.false_eq_true, if_false]
  rfl

theorem TargetsSet.sent_all (hs : Settled n.ifaces) (ht : TargetsSet n.net n.ifaces ctx)
    (hall : ctx.netIface = none) (hother : isMyAddress n.net ctx.dst = false) :
    ∃ sent s', (netSendPacked bearerRet (netReceive c bearerRet upper depth) n ctx bytes misc).out =
        .ok ({ n with ifaces := s' }, sent) ∧
      sent.tx = connectedTx n.ifaces bytes ⟨ctx.src, ctx.dst⟩ n.ifaces.ifaces := by
  have htypes : ∀ p ∈ n.ifaces.ifaces, p.type ≠ .invalid := by
    simpa only [TargetsSet, hall, hother, Bool.false_eq_true, if_false] using ht
  obtain ⟨ifaces', hsent, -⟩ := @netSendEach_ok bearerRet n.ifaces n.ifaces.ifaces bytes ctx
    fun p hp => ⟨hs.iface p hp, htypes p hp⟩
  refine ⟨⟨if n.ifaces.ifaces.any (·.type ≠ .loopback) then .success else .invalNetIface, _, none⟩,
    { n.ifaces with ifaces := ifaces' }, ?_, rfl⟩
  simp only [netSendPacked, hall, hother, hsent, Bool.false_eq_true, if_false]
  rfl

theorem sendsRight_iff (hs : Settled n.ifaces) : SendsRight c bearerRet upper depth n msg ↔
    GoesRight n msg ∧ ∀ m ∈ (netSend c bearerRet upper depth n msg).answers, GoesRight n m := by
  have hexact := @netSend_exact σ c bearerRet upper depth n msg hs
  refine ⟨fun h => hexact.held.mp h.held, fun h => ⟨hexact.held.mpr h, ?_⟩⟩
  intro hall hother hlen kv hkv
  obtain ⟨bytes, hb⟩ := @netPack_ok c msg.ctx kv msg.transPdu hlen
  obtain ⟨sent, s', hout, htx⟩ :=
    @TargetsSet.sent_all σ c bearerRet upper depth n msg.ctx bytes msg.misc hs
      (h.1 hlen (by simp [hkv])) hall hother
  refine ⟨bytes, sent, s', hb, ?_, htx⟩
  rw [netSend_packed hlen hkv hb]
  exact hout

theorem connectedTx_toNet : (((ifaces.map (·.toNet s.bearerAdv)).filter (·.type ≠ .loopback)).map
    (Net.netSendToBearer bearerRet bytes ctx)).flatMap (·.tx) =
      connectedTx s bytes ⟨ctx.src, ctx.dst⟩ ifaces := by
  induction ifaces with
  | nil => rfl
  | cons p rest ih =>
    rw [List.map_cons]
    by_cases hloop : p.type = .loopback
    · rw [connectedTx_loopback hloop, List.filter_cons_of_neg (by simp [hloop]), ih]
    · rw [connectedTx_cons hloop, List.filter_cons_of_pos (by simp [hloop]), List.map_cons,
        List.flatMap_cons, ih, netSendToBearer_tx]

/-- The layers above send nothing when a PDU is handed to them. -/
def Quiet (upper : σ → MsgCtx → List Byte → Answer σ) : Prop :=
  ∀ st ctx pdu, ∃ st' ret, upper st ctx pdu = .done st' ret

/-- What is left of a send or a receive when the interfaces and the layers above are put aside. -/
def netPart (x : Node σ × NetSent) : NetState × List NetTx × Option NetResult :=
  (x.1.net, x.2.tx, x.2.loopback)

theorem netReceive_toNet (hquiet : Quiet upper) (hset : p.ifilter.isSet) :
    (netReceive c bearerRet upper (depth + 1) n p pdata misc).out.map
        (fun x => (x.1.net, x.2.2)) =
      (Net.netReceive c n.net (some (p.toNet n.ifaces.bearerAdv)) pdata misc).mapError .fault := by
  obtain ⟨q, -, hreceive⟩ := @netReceiveIn_set σ c upper n p
    (netSendIn c bearerRet (netReceive c bearerRet upper depth)) pdata misc hset
  rw [netReceive, hreceive]
  cases Net.netReceive c n.net (some (p.toNet n.ifaces.bearerAdv)) pdata misc with
  | error f => rfl
  | ok out =>
    obtain ⟨net, r⟩ := out
    cases r with
    | ret err => rfl
    | relay pdu ctx => rfl
    | toLower pdu ctx =>
      obtain ⟨st', ret, hdone⟩ := hquiet n.upper ctx pdu
      have hover : handOver upper (netSendIn c bearerRet (netReceive c bearerRet upper depth))
          { n.setIface q with net := net } (.toLower pdu ctx) =
            pure ({ n.setIface q with net := net, upper := st' }, ret, .toLower pdu ctx) := by
        have hdone' : upper (n.setIface q).upper ctx pdu = .done st' ret := hdone
        simp only [handOver, hdone']
        rfl
      simp only [Except.mapError, of_ok_bind, hover]
      rfl

theorem netLoopback_toNet (hquiet : Quiet upper) (hs : Settled n.ifaces)
    (hfirst : FirstSet n.ifaces)
    (hnet : n.net.ifaces = n.ifaces.ifaces.map (·.toNet n.ifaces.bearerAdv)) :
    (netLoopback (netReceive c bearerRet upper (depth + 1)) n bytes misc
        ⟨ctx.src, ctx.dst⟩).out.map netPart =
      ((Net.netLoopback c n.net bytes misc ctx).mapError .fault).map
        fun x => (x.1, x.2.tx, x.2.loopback) := by
  obtain ⟨p, hp, htype⟩ := hfirst
  obtain ⟨rest, hifaces⟩ := List.head?_eq_some_iff.mp hp
  have hset := hs.iface p (hifaces ▸ List.mem_cons_self)
  rw [hifaces, List.map_cons] at hnet
  unfold netLoopback Net.netLoopback
  simp only [hifaces, hnet, netIfaceOfilter_set (hset.ofilter.mpr htype), of_ok_bind]
  cases ha : p.ofilter.accepts p.addr ⟨ctx.src, ctx.dst⟩ with
  | false =>
    simp only [NetIfaceInfo.toNet, ha]
    rfl
  | true =>
    generalize hq : ({ p with filterInfo := p.filterInfo.countSend true } : NetIfaceInfo) = q
    have hqset : q.ifilter.isSet := by
      rw [← hq]
      exact hset.ifilter.mpr htype
    have hr := @netReceive_toNet σ c bearerRet upper depth (n.setIface q) q bytes misc hquiet hqset
    have hqnet : Net.netReceive c (n.setIface q).net
        (some (q.toNet (n.setIface q).ifaces.bearerAdv)) bytes misc =
          Net.netReceive c n.net (some (p.toNet n.ifaces.bearerAdv)) bytes misc := by
      rw [← hq]
      rfl
    rw [hqnet] at hr
    have hpass : (!(p.toNet n.ifaces.bearerAdv).ofilter ctx.src ctx.dst) = false := by
      simp [NetIfaceInfo.toNet, ha]
    rw [if_neg (by simp), hpass, out_bind_pure]
    generalize (netReceive c bearerRet upper (depth + 1) (n.setIface q) q bytes misc).out = out
      at hr ⊢
    calc (out.map _).map netPart
      _ = (out.map fun x => (x.1.net, x.2.2)).map fun y => (y.1, [], some y.2) := by
        cases out <;> rfl
      _ = _ := by
        rw [hr]
        cases Net.netReceive c n.net (some (p.toNet n.ifaces.bearerAdv)) bytes misc <;> rfl

/-- What a node sends does not depend on what its interfaces have counted: with its filters set
and layers above that send nothing it is what `Net.netSend` sends. -/
theorem netSend_toNet (hquiet : Quiet upper) (hs : Settled n.ifaces)
    (ht : TargetsSet n.net n.ifaces msg.ctx)
    (hnet : n.net.ifaces = n.ifaces.ifaces.map (·.toNet n.ifaces.bearerAdv))
    (hlen : netLengthOk msg.transPdu.length msg.ctx.ctl) {kv : NetKeyValue}
    (hkv : msg.ctx.pnetKey = some kv) :
    (netSend c bearerRet upper (depth + 1) n msg).out.map netPart =
      ((Net.netSend c bearerRet n.net msg.ctx msg.transPdu msg.misc).mapError .fault).map
        fun x => (x.1, x.2.tx, x.2.loopback) := by
  obtain ⟨bytes, hb⟩ := @netPack_ok c msg.ctx kv msg.transPdu hlen
  rw [netSend_packed hlen hkv hb]
  simp only [Net.netSend, hlen, hkv, hb, Bool.not_true, Bool.false_eq_true, if_false, bind,
    Except.bind, netSendPacked]
  unfold TargetsSet at ht
  cases hiface : msg.ctx.netIface with
  | none =>
    rw [hiface] at ht
    by_cases hmy : isMyAddress n.net msg.ctx.dst = true
    · simp only [if_pos hmy] at ht ⊢
      exact netLoopback_toNet hquiet hs ht hnet
    · simp only [if_neg hmy] at ht ⊢
      obtain ⟨ifaces', hsent, -⟩ := @netSendEach_ok bearerRet n.ifaces n.ifaces.ifaces bytes msg.ctx
        fun p hp => ⟨hs.iface p hp, ht p hp⟩
      simp only [hsent, hnet, connectedTx_toNet]
      rfl
  | some netIface =>
    rw [hiface] at ht
    obtain ⟨p, hp, rfl, ht⟩ := ht
    have hfind : (n.ifaces.ifaces.map (·.toNet n.ifaces.bearerAdv)).find? (·.id = p.addr) =
        some (p.toNet n.ifaces.bearerAdv) := by
      rw [List.find?_map]
      exact congrArg (Option.map _) (find_addr hs.nodup hp)
    simp only [hnet, hfind, find_addr hs.nodup hp]
    by_cases hloop : p.type = .loopback
    · have hloop' : (p.toNet n.ifaces.bearerAdv).type = .loopback := hloop
      rw [if_pos hloop] at ht
      simp only [if_pos hloop, if_pos hloop']
      exact netLoopback_toNet hquiet hs ht hnet
    · have hloop' : (p.toNet n.ifaces.bearerAdv).type ≠ .loopback := hloop
      rw [if_neg hloop] at ht
      obtain ⟨p', hsent, -⟩ :=
        netSendToBearer_ok bearerRet n.ifaces bytes msg.ctx (hs.iface p hp) ht
      simp only [if_neg hloop, if_neg hloop', hsent]
      rfl

end Sending

section Acks

open Segment LowerTransTx LowerTransRx LowerTransRx.Receiver

variable {σ α β : Type} {c : Crypto} {bearerRet : NetTx → Errno} {env : LowerEnv} {depth : ℕ}
  {m n : Node σ} {low : LowerTrans} {msg : Message} {pdata misc : List Byte} {ctx rx : MsgCtx}
  {calls : List RxCall} {blockAck : BitVec 32}

theorem answers_bind_pure (x : Traced α) (g : α → β) :
    (x >>= fun a => pure (g a)).answers = x.answers := by
  cases hout : x.out with
  | error e => rw [traced_bind_error hout]
  | ok a =>
    rw [traced_bind_ok hout]
    exact List.append_nil _

/-- Nothing is handed up while a message is sent that is not looped back. -/
theorem netSend_answers {receive : Node σ → NetIfaceInfo → List Byte → List Byte →
    Traced (Node σ × Errno × NetResult)} (hall : msg.ctx.netIface = none)
    (hother : isMyAddress n.net msg.ctx.dst = false) :
    (netSendIn c bearerRet receive n msg).answers = [] := by
  unfold netSendIn
  by_cases hlen : (!netLengthOk msg.transPdu.length msg.ctx.ctl) = true
  · rw [if_pos hlen]
    rfl
  rw [if_neg hlen]
  cases msg.ctx.pnetKey with
  | none => rfl
  | some kv =>
    cases hb : netPack c kv msg.ctx msg.transPdu with
    | error f =>
      simp only [hb]
      rfl
    | ok bytes =>
      simp only [hb, Except.mapError, of_ok_bind, netSendPacked, hall, hother, Bool.false_eq_true,
        if_false]
      exact answers_bind_pure (.of (netSendEach bearerRet n.ifaces bytes _ _)) _

theorem handUp_send {send : Node σ → Message → Traced (Node σ × NetSent)} {up : σ} {ret : Errno} :
    (handUp send n (.send up msg fun st _ => .done st ret)).answers =
      msg :: (send { n with upper := up } msg).answers := by
  exact answers_bind_pure ((send { n with upper := up } msg).noted msg) _

/-- The message that the lower transport layer sends as an acknowledgement. -/
def ackMessage (env : LowerEnv) (low : LowerTrans) (blockAck : BitVec 32) (rx : MsgCtx) :
    Message :=
  let ctx := Sender.segAckCtx env.conf low.tx rx
  let ctx := { ctx with seq := (low.tx.draw env.conf ctx.src).1 }
  ⟨ctx, header false ctx :: Sender.segAckPdu (seqZero rx.seqAuth) blockAck, env.misc⟩

theorem segAckPdu_length (zero : BitVec 13) : (Sender.segAckPdu zero blockAck).length = 6 := by
  simp [Sender.segAckPdu]

theorem sendStep_segAck (hsrc : addressIsValid rx.src = true)
    (next : LowerTrans → Answer LowerTrans) : ∃ tx,
    sendStep env low ((·.2) <$> low.tx.segAck env.conf env.txEnv blockAck rx) next =
      .send { low with tx := tx } (ackMessage env low blockAck rx) fun low _ => next low := by
  generalize hctx : (ackMessage env low blockAck rx).ctx = ctx
  generalize hpdu : Sender.segAckPdu (seqZero rx.seqAuth) blockAck = pdu
  have hlen : pdu.length = 6 := hpdu ▸ segAckPdu_length _
  have hack : low.tx.segAck env.conf env.txEnv blockAck rx =
      Sender.lowerTransSend env.conf env.txEnv (low.tx.draw env.conf rx.dst).2 pdu ctx := by
    rw [← hctx, ← hpdu]
    rfl
  have hdst : addressIsValid ctx.dst = true := by rw [← hctx]; exact hsrc
  have hseg : ctx.seg = false := by rw [← hctx]; rfl
  have hctl : ctx.ctl = true := by rw [← hctx]; rfl
  have hmsg : ackMessage env low blockAck rx = ⟨ctx, header false ctx :: pdu, env.misc⟩ := by
    rw [← hctx, ← hpdu]
    rfl
  refine ⟨(low.tx.draw env.conf rx.dst).2.netSend ctx (header false ctx :: pdu), ?_⟩
  have hsent : (low.tx.draw env.conf rx.dst).2.sent = low.tx.sent := rfl
  rw [hack, Sender.lowerTransSend, if_neg (by omega), if_neg (by simp [hdst]),
    if_neg (by simp [hseg, hctl, hlen, unsegSize]), hmsg]
  simp [sendStep, newCalls, Sender.netSend, hsent, sendCalls, Functor.map, Except.map]

/-- What a PDU leads to that is no acknowledgement: nothing is sent, or one acknowledgement. -/
theorem carryOut_calls {r r' : Receiver} {rxEnv : RxEnv} {mem : ℕ → Byte} {len : ℕ}
    {ret err : Errno} (h : r.receive rxEnv mem len ctx = .ok (err, r', calls))
    (hno : ∀ zero blockAck, RxCall.recvBlockAck zero blockAck ∉ calls)
    (hsrc : addressIsValid ctx.src = true) :
    ((∀ blockAck rx, RxCall.segAck blockAck rx ∉ calls) ∧
        carryOut env ret calls low = .done low ret) ∨
      ∃ blockAck tx, RxCall.segAck blockAck (segCtx mem ctx) ∈ calls ∧ carryOut env ret calls low =
        .send { low with tx := tx } (ackMessage env low blockAck (segCtx mem ctx))
          fun low _ => .done low ret := by
  rcases receive_calls h with hcalls | rfl | rfl
  · cases hcalls with
    | quiet => exact .inl ⟨by simp, rfl⟩
    | acked blockAck =>
      obtain ⟨tx, hstep⟩ :=
        @sendStep_segAck env low (segCtx mem ctx) blockAck hsrc (carryOut env ret [])
      exact .inr ⟨blockAck, tx, List.mem_cons_self, hstep⟩
    | handed blockAck buf n up =>
      obtain ⟨tx, hstep⟩ := @sendStep_segAck env low (segCtx mem ctx) blockAck hsrc
        (carryOut env ret [.upperReceive buf n up])
      exact .inr ⟨blockAck, tx, List.mem_cons_self, hstep⟩
  · exact absurd List.mem_cons_self (hno _ _)
  · exact .inl ⟨by simp [unsegCall], rfl⟩

theorem ackMessage_goesRight (hkey : rx.pnetKey ≠ none) (hpeer : isMyAddress n.net rx.src = false) :
    GoesRight n (ackMessage env low blockAck rx) ↔ ∀ p ∈ n.ifaces.ifaces, p.type ≠ .invalid := by
  have hlen : netLengthOk (ackMessage env low blockAck rx).transPdu.length
      (ackMessage env low blockAck rx).ctx.ctl = true := by
    have hctl : (ackMessage env low blockAck rx).ctx.ctl = true := rfl
    have hseven : (ackMessage env low blockAck rx).transPdu.length = 7 :=
      congrArg (· + 1) (segAckPdu_length _)
    rw [hctl, hseven]
    rfl
  have htargets : TargetsSet n.net n.ifaces (ackMessage env low blockAck rx).ctx ↔
      ∀ p ∈ n.ifaces.ifaces, p.type ≠ .invalid := by
    have hnone : (ackMessage env low blockAck rx).ctx.netIface = none := rfl
    have hdst : (ackMessage env low blockAck rx).ctx.dst = rx.src := rfl
    simp only [TargetsSet, hnone, hdst, hpeer, Bool.false_eq_true, if_false]
  exact ⟨fun h => htargets.mp (h hlen hkey), fun h _ _ => htargets.mpr h⟩

/-- A PDU that the bearer receives is for the lower transport layer, which makes these calls. -/
def Handed (c : Crypto) (env : LowerEnv) (n : Node LowerTrans) (pdata misc : List Byte)
    (ctx : MsgCtx) (calls : List RxCall) : Prop :=
  ∃ p ∈ n.ifaces.ifaces, p.addr = n.ifaces.bearerAdv.netIface ∧ p.addr ≠ 0 ∧ ∃ net pdu,
    Net.netReceive c n.net (some (p.toNet n.ifaces.bearerAdv)) pdata misc =
      .ok (net, .toLower pdu ctx) ∧
    ∃ ret rx, n.upper.rx.receive env.rxEnv (fun i => pdu.getD i (env.rest i)) pdu.length ctx =
      .ok (ret, rx, calls)

theorem bearerAdvReceive_answers {upper : σ → MsgCtx → List Byte → Answer σ} {p : NetIfaceInfo}
    {net : NetState} {pdu : List Byte} (hs : Settled n.ifaces) (hp : p ∈ n.ifaces.ifaces)
    (howner : p.addr = n.ifaces.bearerAdv.netIface) (hne : p.addr ≠ 0) (hset : p.ifilter.isSet)
    (hnet : Net.netReceive c n.net (some (p.toNet n.ifaces.bearerAdv)) pdata misc =
      .ok (net, .toLower pdu ctx)) : ∃ q,
    (bearerAdvReceive c bearerRet upper depth n bearerAdvPtr pdata misc).answers =
      (handUp (netSendIn c bearerRet (netReceive c bearerRet upper depth))
        { n.setIface q with net := net } (upper n.upper ctx pdu)).answers := by
  obtain ⟨q, -, hreceive⟩ := @netReceiveIn_set σ c upper n p
    (netSendIn c bearerRet (netReceive c bearerRet upper depth)) pdata misc hset
  refine ⟨q, ?_⟩
  unfold bearerAdvReceive
  rw [if_neg (by decide), if_neg (by simp), if_neg (howner ▸ hne), ← howner, find_addr hs.nodup hp]
  refine (answers_bind_pure _ _).trans ?_
  rw [netReceive, hreceive, hnet]
  exact answers_bind_pure _ _

/-- A PDU of another node that is no acknowledgement reaches only filters that are set exactly if
it is not acknowledged or all interfaces are of a valid type. -/
theorem acked_held_iff {n : Node LowerTrans} (hs : Settled n.ifaces)
    (hh : Handed c env n pdata misc ctx calls) (hpeer : isMyAddress n.net ctx.src = false)
    (hno : ∀ zero blockAck, RxCall.recvBlockAck zero blockAck ∉ calls) :
    FiltersHeld (bearerAdvReceive c bearerRet (lowerTransReceive env) depth n bearerAdvPtr pdata
        misc).out ↔
      ((∃ blockAck rx, RxCall.segAck blockAck rx ∈ calls) →
        ∀ p ∈ n.ifaces.ifaces, p.type ≠ .invalid) := by
  obtain ⟨p, hp, howner, hne, net, pdu, hnet, ret, rx, hrx⟩ := hh
  obtain ⟨q, hq, hqaddr, htype, -⟩ := hs.owner (howner ▸ hne)
  cases List.inj_on_of_nodup_map hs.nodup hq hp (hqaddr.trans howner.symm)
  obtain ⟨hkept, hlower⟩ := netReceive_ok hnet
  obtain ⟨hsrc, hkey⟩ := hlower pdu ctx rfl
  obtain ⟨q, hanswers⟩ := @bearerAdvReceive_answers LowerTrans c bearerRet depth n pdata misc ctx
    (lowerTransReceive env) p net pdu hs hp howner hne ((hs.iface p hp).ifilter.mpr htype) hnet
  have hrun : lowerTransReceive env n.upper ctx pdu =
      carryOut env ret calls { n.upper with rx := rx } := by
    rw [lowerTransReceive, hrx]
  rw [(bearerAdvReceive_exact hs depth bearerAdvPtr pdata misc).held, hanswers, hrun, true_and]
  rcases carryOut_calls hrx hno hsrc with ⟨hquiet, hdone⟩ | ⟨blockAck, tx, hmem, hsend⟩
  · rw [hdone]
    refine iff_of_true (fun _ hm => by cases hm) ?_
    rintro ⟨blockAck, rx, hmem⟩
    exact absurd hmem (hquiet blockAck rx)
  · have hother : isMyAddress net ctx.src = false := by
      simpa [isMyAddress, hkept] using hpeer
    rw [hsend, handUp_send, netSend_answers rfl hother, List.forall_mem_singleton]
    exact (ackMessage_goesRight hkey hpeer).trans
      ⟨fun h _ => h, fun h => h ⟨blockAck, _, hmem⟩⟩

/-- Whatever interfaces have been created, connected, disconnected and deleted, and whatever the
layers above do: a message reaches only filters that are set, and every connected interface,
exactly if it goes to interfaces of a valid type, and so do the messages that are sent in answer to
it where it is looped back. What is received reaches only filters that are set exactly if the
messages sent in answer to it go to interfaces of a valid type: a PDU that the lower transport
layer acknowledges, if all interfaces are. -/
theorem filters_set_iff {m : Block} {s₀ s : IfaceState} {es : List IfaceCall}
    (hinit : netIfaceInit (some m) = some s₀) (hv : RunAll ifaceStep ValidCall s₀ es)
    (hrun : run ifaceStep s₀ es = .ok s) (c : Crypto) (bearerRet : NetTx → Errno) (net : NetState)
    (depth : ℕ) :
    (∀ (σ : Type) (upper : σ → MsgCtx → List Byte → Answer σ) (st : σ),
      (∀ msg, SendsRight c bearerRet upper depth ⟨net, s, st⟩ msg ↔
        GoesRight (⟨net, s, st⟩ : Node σ) msg ∧
          ∀ a ∈ (netSend c bearerRet upper depth ⟨net, s, st⟩ msg).answers,
            GoesRight (⟨net, s, st⟩ : Node σ) a) ∧
      ∀ bearer pdata misc,
        FiltersHeld (bearerAdvReceive c bearerRet upper depth ⟨net, s, st⟩ bearer pdata misc).out ↔
          ∀ a ∈ (bearerAdvReceive c bearerRet upper depth ⟨net, s, st⟩ bearer pdata misc).answers,
            GoesRight (⟨net, s, st⟩ : Node σ) a) ∧
    ∀ env low pdata misc ctx calls, Handed c env ⟨net, s, low⟩ pdata misc ctx calls →
      isMyAddress net ctx.src = false →
      (∀ zero blockAck, LowerTransRx.RxCall.recvBlockAck zero blockAck ∉ calls) →
      (FiltersHeld (bearerAdvReceive c bearerRet (lowerTransReceive env) depth ⟨net, s, low⟩
          bearerAdvPtr pdata misc).out ↔
        ((∃ blockAck rx, LowerTransRx.RxCall.segAck blockAck rx ∈ calls) →
          ∀ p ∈ s.ifaces, p.type ≠ .invalid)) := by
  have hs : Settled s :=
    hv.invariant (fun _ _ _ hs hc hnext => hs.step hc hnext) (settled_init hinit) hrun
  refine ⟨fun σ upper st => ⟨fun msg => sendsRight_iff hs, fun bearer pdata misc => ?_⟩,
    fun env low pdata misc ctx calls hh hpeer hno => acked_held_iff hs hh hpeer hno⟩
  have hexact := @bearerAdvReceive_exact σ c bearerRet upper ⟨net, s, st⟩ hs depth bearer pdata misc
  rw [hexact.held, true_and]

/-- The interfaces after one is created and not connected, and one created and connected. -/
def oneConnected : IfaceState where
  ifaces := [loopbackIface 16, clearedIface ⟨32, 0, 0, 0, .zero⟩,
    ⟨48, .adv, bearerAdvPtr, .default, .default, .zero⟩]
  bearerAdv := ⟨some .adv, 48⟩

def connectOne : List IfaceCall :=
  [.create (some ⟨32, 0, 0, 0, .zero⟩), .create (some ⟨48, 0, 0, 0, .zero⟩), .bearerCreate,
    .connect 48 bearerAdvPtr none none]

def groupCtx : MsgCtx :=
  { MsgCtx.zero with src := 1, dst := 0xc000, pnetKey := some (keyValueOf 5 (List.replicate 16 3)) }

/-- A node with one network key, and its lower transport layer after its initialization. -/
def keyedNet : NetState :=
  receiver 10 [⟨.normal, 0, keyValueOf 5 (List.replicate 16 3), keyValueOf 5 (List.replicate 16 3)⟩]

def lowerEnv : LowerEnv where
  conf := ⟨2, 5, 3⟩
  rxEnv := ⟨true, true, true, fun _ => 0⟩
  txEnv := ⟨true, true, fun _ => true, fun _ => true, .success, fun _ => 0⟩
  rest _ := 0
  misc := []

def freshNode : Node LowerTrans := ⟨keyedNet, oneConnected, .init 4 1, .init 1 1 10⟩

/-- A message of one segment from node 1 to node 2, as it arrives. -/
def segmentPdu : List Byte := [5, 3, 3, 3, 4, 3, 2, 2, 1, 131, 3, 3, 4, 86, 11, 1, 131, 3]

/-- The context of that message when it is handed over. -/
def segmentCtx : MsgCtx :=
  { MsgCtx.zero with
    src := 1
    dst := 2
    ivIndex := 10
    seq := 7
    pnetKey := some (keyValueOf 5 (List.replicate 16 3))
    netIface := some 48 }

/-- It is acknowledged and handed to the upper layer. -/
def segmentCalls : List RxCall :=
  let ctx := segCtx (fun i => [0x80, 0, 0, 0, 0x55].getD i 0) segmentCtx
  [.segAck 1 ctx, .upperReceive (0x55 :: List.replicate 11 0) 1 { ctx with seg := true }]

theorem freshNode_handed :
    Handed maskCrypto lowerEnv freshNode segmentPdu [] segmentCtx segmentCalls := by
  obtain ⟨⟨net, r⟩, hnet, rfl⟩ := @observe _ _ _ (Net.netReceive maskCrypto keyedNet
    (some (NetIfaceInfo.toNet ⟨48, .adv, bearerAdvPtr, .default, .default, .zero⟩ ⟨some .adv, 48⟩))
    segmentPdu []) Prod.snd (.toLower [0x80, 0, 0, 0, 0x55] segmentCtx) (by decide +kernel)
  obtain ⟨⟨ret, rx, calls⟩, hrx, hcalls⟩ := @observe _ _ _ ((Receiver.init 4 1).receive
    lowerEnv.rxEnv (fun i => [0x80, 0, 0, 0, 0x55].getD i 0) 5 segmentCtx) (fun out => out.2.2)
    segmentCalls (by decide +kernel)
  cases hcalls
  exact ⟨_, by simp [freshNode, oneConnected], rfl, by decide, net, _, hnet, ret, rx, hrx⟩

theorem filters_set_iff_one :
    ¬SendsRight maskCrypto (fun _ => .success) (lowerTransReceive lowerEnv) 0 freshNode
        ⟨groupCtx, [1, 2], []⟩ ∧
      ¬FiltersHeld (bearerAdvReceive maskCrypto (fun _ => .success) (lowerTransReceive lowerEnv) 0
        freshNode bearerAdvPtr segmentPdu []).out := by
  obtain ⟨hall, hacked⟩ := @filters_set_iff ⟨16, 0, 0, 0, .zero⟩ _ oneConnected connectOne rfl
    (by decide +kernel) rfl maskCrypto (fun _ => .success) keyedNet 0
  have hunset : ¬∀ p ∈ oneConnected.ifaces, p.type ≠ .invalid := fun h =>
    h (clearedIface ⟨32, 0, 0, 0, .zero⟩) (by simp [oneConnected]) rfl
  constructor
  · intro hright
    have hgoes := (((hall LowerTrans (lowerTransReceive lowerEnv) ⟨.init 4 1, .init 1 1 10⟩).1 _).mp
      hright).1
    exact hunset (hgoes rfl nofun)
  · have hiff := hacked lowerEnv ⟨.init 4 1, .init 1 1 10⟩ segmentPdu [] segmentCtx segmentCalls
      freshNode_handed rfl (by simp [segmentCalls])
    exact fun hheld => hunset (hiff.mp hheld ⟨1, _, List.mem_cons_self⟩)

/-- The message for all interfaces calls what stands where the one that is not connected has its
filter, and so does the acknowledgement of a segment that the connected one has received. -/
theorem filters_unset :
    netIfaceInit (some ⟨16, 0, 0, 0, .zero⟩) = some ⟨[loopbackIface 16], ⟨none, 0⟩⟩ ∧
    RunAll ifaceStep ValidCall ⟨[loopbackIface 16], ⟨none, 0⟩⟩ connectOne ∧
    run ifaceStep ⟨[loopbackIface 16], ⟨none, 0⟩⟩ connectOne = .ok oneConnected ∧
    (netSend maskCrypto (fun _ => .success) (lowerTransReceive lowerEnv) 0 freshNode
      ⟨groupCtx, [1, 2], []⟩).out = .error (.unsetFilter 32) ∧
    (bearerAdvReceive maskCrypto (fun _ => .success) (lowerTransReceive lowerEnv) 0 freshNode
      bearerAdvPtr segmentPdu []).out = .error (.unsetFilter 32) :=
  ⟨rfl, by decide +kernel, rfl, eq_of_faultOf (by decide +kernel),
    eq_of_faultOf (by decide +kernel)⟩

end Acks

end Meshx.Iface
