import Meshx.Lib.Run
import Meshx.Net

/-! The network interfaces and the advertising bearer, each with a pointer to the other. The
memory of a new interface is cleared over the size of a pointer only, so that what stood in it
before is read as its bearer and its filters. -/
namespace Meshx.Iface

open Lib Net

/-- An address, with 0 for NULL. -/
abbrev Ptr := ℕ

/-- The address of `bearer_adv`, the one bearer there can be. -/
def bearerAdvPtr : Ptr := 1

/-- What `MESHX_CONTAINER_OF` makes of the head of the list. -/
def listHeadPtr : Ptr := 2

def netIfaceMaxNum : ℕ := 9

/-- `meshx_net_iface_ofilter_data_t`. -/
structure OfilterData where
  srcAddr : BitVec 16
  dstAddr : BitVec 16

/-- What stands where a filter is kept: bytes that nobody set as a filter, the default filter, or
one that the application gave. -/
inductive Filter (α : Type)
  | raw (value : Ptr)
  | default
  | given (f : Ptr → α → Bool)

/-- `meshx_net_iface_filter_info_t`. -/
structure FilterInfo where
  totalReceive : BitVec 32
  filteredReceive : BitVec 32
  totalSend : BitVec 32
  filteredSend : BitVec 32

def FilterInfo.zero : FilterInfo := ⟨0, 0, 0, 0⟩

/-- `meshx_net_iface_info_t` at its address. -/
structure NetIfaceInfo where
  addr : Ptr
  type : IfaceType
  bearer : Ptr
  ifilter : Filter Unit
  ofilter : Filter OfilterData
  filterInfo : FilterInfo

/-- A block of memory that `meshx_malloc` returns, with what stands in it where the fields of an
interface lie behind its type. -/
structure Block where
  addr : Ptr
  bearer : Ptr
  ifilter : Ptr
  ofilter : Ptr
  filterInfo : FilterInfo

/-- `struct _meshx_bearer`; a bearer of no type does not exist. -/
structure Bearer where
  type : Option BearerType
  netIface : Ptr

/-- `meshx_net_iface_list` and `bearer_adv`. -/
structure IfaceState where
  ifaces : List NetIfaceInfo
  bearerAdv : Bearer

section Operations

variable (s : IfaceState)

/-- The interface at the address; there is none where one has been deleted. -/
def ifaceAt (netIface : Ptr) : Except Fault NetIfaceInfo :=
  match s.ifaces.find? (·.addr = netIface) with
  | some p => .ok p
  | none => .error .useAfterFree

def setIface (p : NetIfaceInfo) : IfaceState :=
  { s with ifaces := s.ifaces.map fun q => if q.addr = p.addr then p else q }

/-- The assignment to `net_iface` through a pointer to a bearer. -/
def setBearerIface (bearer netIface : Ptr) : Except Fault IfaceState :=
  if bearer = bearerAdvPtr then
    .ok { s with bearerAdv := { s.bearerAdv with netIface := netIface } }
  else .error .badWrite

/-- `piface->bearer->net_iface = NULL`, where there is a bearer. -/
def leaveBearer (bearer : Ptr) : Except Fault IfaceState :=
  if bearer = 0 then .ok s else setBearerIface s bearer 0

/-- `meshx_request_net_iface`. -/
def requestNetIface (mem : Option Block) : Option Block :=
  if netIfaceMaxNum ≤ s.ifaces.length then none else mem

/-- The memory of an interface when as many bytes are cleared as a pointer has: the type. -/
def clearedIface (m : Block) : NetIfaceInfo where
  addr := m.addr
  type := .invalid
  bearer := m.bearer
  ifilter := .raw m.ifilter
  ofilter := .raw m.ofilter
  filterInfo := m.filterInfo

def loopbackIface (addr : Ptr) : NetIfaceInfo where
  addr := addr
  type := .loopback
  bearer := 0
  ifilter := .default
  ofilter := .default
  filterInfo := .zero

/-- `meshx_net_iface_init`, with the bearer as the program starts. -/
def netIfaceInit (mem : Option Block) : Option IfaceState :=
  mem.map fun m => ⟨[loopbackIface m.addr], ⟨none, 0⟩⟩

/-- `meshx_net_iface_create`, with the interface that it returns. -/
def netIfaceCreate (mem : Option Block) : Ptr × IfaceState :=
  match requestNetIface s mem with
  | none => (0, s)
  | some m => (m.addr, { s with ifaces := s.ifaces ++ [clearedIface m] })

def netIfaceDelete (netIface : Ptr) : Except Fault IfaceState :=
  if netIface = 0 then .ok s
  else do
    let p ← ifaceAt s netIface
    leaveBearer { s with ifaces := s.ifaces.filter (·.addr ≠ netIface) } p.bearer

/-- The interface of `meshx_net_iface_connect` when the bearer is set. -/
def connectedIface (p : NetIfaceInfo) (bearer : Ptr) (inFilter : Option (Ptr → Unit → Bool))
    (outFilter : Option (Ptr → OfilterData → Bool)) : NetIfaceInfo :=
  { p with
    type := if s.bearerAdv.type = some .adv then .adv else .gatt
    bearer := bearer
    ifilter := inFilter.elim .default .given
    ofilter := outFilter.elim .default .given }

def netIfaceConnect (netIface bearer : Ptr) (inFilter : Option (Ptr → Unit → Bool))
    (outFilter : Option (Ptr → OfilterData → Bool)) : Except Fault (Errno × IfaceState) :=
  if netIface = 0 ∨ bearer = 0 then .ok (.inval, s)
  else do
    let p ← ifaceAt s netIface
    if p.bearer ≠ 0 then return (.already, s)
    if bearer ≠ bearerAdvPtr then .error .badRead
    else if s.bearerAdv.netIface ≠ 0 then return (.already, s)
    else
      let s := setIface s (connectedIface s p bearer inFilter outFilter)
      let s ← setBearerIface s bearer netIface
      return (.success, s)

/-- The interface of `meshx_net_iface_disconnect` at its end. -/
def disconnectedIface (p : NetIfaceInfo) : NetIfaceInfo :=
  { p with
    type := .invalid
    bearer := 0
    ifilter := .raw 0
    ofilter := .raw 0
    filterInfo := .zero }

def netIfaceDisconnect (netIface : Ptr) : Except Fault IfaceState :=
  if netIface = 0 then .ok s
  else do
    let p ← ifaceAt s netIface
    leaveBearer (setIface s (disconnectedIface p)) p.bearer

def netIfaceIsConnect (netIface : Ptr) : Except Fault Bool :=
  if netIface = 0 then .ok false
  else do
    let p ← ifaceAt s netIface
    return match p.type with
      | .invalid => false
      | .loopback => true
      | .adv | .gatt => p.bearer ≠ 0

/-- `meshx_net_iface_get`; the first interface is taken to be the loopback interface. -/
def netIfaceGet (bearer : Ptr) : Except Fault Ptr :=
  if bearer = 0 then .ok ((s.ifaces.head?.map (·.addr)).getD listHeadPtr)
  else if bearer = bearerAdvPtr then .ok s.bearerAdv.netIface
  else .error .badRead

/-- `meshx_bearer_adv_create`, with the bearer that it returns. -/
def bearerAdvCreate : Ptr × IfaceState :=
  if s.bearerAdv.type = some .adv then (0, s)
  else (bearerAdvPtr, { s with bearerAdv := ⟨some .adv, 0⟩ })

def bearerAdvDelete (bearer : Ptr) : Except Fault IfaceState :=
  if bearer = 0 then .error .assertFailed
  else if bearer = bearerAdvPtr then .ok { s with bearerAdv := ⟨none, 0⟩ }
  else .error .badWrite

end Operations

/-- The calls of the application on interfaces and bearers. -/
inductive IfaceCall
  | create (mem : Option Block)
  | delete (netIface : Ptr)
  | connect (netIface bearer : Ptr) (inFilter : Option (Ptr → Unit → Bool))
      (outFilter : Option (Ptr → OfilterData → Bool))
  | disconnect (netIface : Ptr)
  | bearerCreate
  | bearerDelete (bearer : Ptr)

def ifaceStep (s : IfaceState) : IfaceCall → Except Fault IfaceState
  | .create mem => .ok (netIfaceCreate s mem).2
  | .delete netIface => netIfaceDelete s netIface
  | .connect netIface bearer inFilter outFilter =>
    (·.2) <$> netIfaceConnect s netIface bearer inFilter outFilter
  | .disconnect netIface => netIfaceDisconnect s netIface
  | .bearerCreate => .ok (bearerAdvCreate s).2
  | .bearerDelete bearer => bearerAdvDelete s bearer

section Links

/-- The bearer exists and is connected to the interface. -/
def Joined (s : IfaceState) (p : NetIfaceInfo) (bearer : Ptr) : Prop :=
  bearer = bearerAdvPtr ∧ s.bearerAdv.type ≠ none ∧ s.bearerAdv.netIface = p.addr

/-- Interfaces and bearers point at each other, and the first interface is the loopback one. -/
structure Linked (loopback : Ptr) (s : IfaceState) : Prop where
  link : ∀ p ∈ s.ifaces, ∀ bearer ≠ 0, p.bearer = bearer ↔ Joined s p bearer
  loopback : (∃ p, s.ifaces.head? = some p ∧ p.addr = loopback ∧ p.type = .loopback) ∧
    netIfaceGet s 0 = .ok loopback

/-- The interface that is created is not connected. -/
def CreatesDisconnected (s : IfaceState) : IfaceCall → Prop
  | .create mem => (netIfaceCreate s mem).1 ≠ 0 →
    netIfaceIsConnect (netIfaceCreate s mem).2 (netIfaceCreate s mem).1 = .ok false ∧
      ∀ p ∈ (netIfaceCreate s mem).2.ifaces, p.addr = (netIfaceCreate s mem).1 → p.bearer = 0
  | _ => True

/-- What the call leaves is linked. -/
def KeepsLinked (loopback : Ptr) (s : IfaceState) (e : IfaceCall) : Prop :=
  CreatesDisconnected s e ∧ ∀ s', ifaceStep s e = .ok s' → Linked loopback s'

/-- The pointer is NULL or to an interface that has not been deleted. -/
def IsIface (s : IfaceState) (netIface : Ptr) : Prop :=
  netIface = 0 ∨ netIface ∈ s.ifaces.map (·.addr)

/-- The memory is not in use. -/
def IsFree (s : IfaceState) (addr : Ptr) : Prop :=
  addr ∉ [0, bearerAdvPtr, listHeadPtr] ∧ addr ∉ s.ifaces.map (·.addr)

/-- The pointers of the call are NULL or point to what they are said to, and memory that is
allocated was free. -/
def ValidCall (s : IfaceState) : IfaceCall → Prop
  | .create mem => ∀ m ∈ mem, IsFree s m.addr
  | .delete netIface => IsIface s netIface
  | .connect netIface bearer _ _ => IsIface s netIface ∧ (bearer = 0 ∨ bearer = bearerAdvPtr)
  | .disconnect netIface => IsIface s netIface
  | .bearerCreate => True
  | .bearerDelete bearer => bearer = 0 ∨ bearer = bearerAdvPtr

instance IsFree.decidable (s : IfaceState) (addr : Ptr) : Decidable (IsFree s addr) :=
  inferInstanceAs (Decidable (_ ∧ _))

instance ValidCall.decidable (s : IfaceState) : ∀ e, Decidable (ValidCall s e)
  | .create mem => inferInstanceAs (Decidable (∀ m ∈ mem, _))
  | .delete _ => inferInstanceAs (Decidable (_ ∨ _))
  | .connect _ _ _ _ => inferInstanceAs (Decidable ((_ ∨ _) ∧ (_ ∨ _)))
  | .disconnect _ => inferInstanceAs (Decidable (_ ∨ _))
  | .bearerCreate => .isTrue trivial
  | .bearerDelete _ => inferInstanceAs (Decidable (_ ∨ _))

/-- Both sides are free to be connected. -/
def Connectable (s : IfaceState) (netIface bearer : Ptr) : Prop :=
  netIface ≠ 0 ∧ bearer ≠ 0 ∧ s.bearerAdv.netIface = 0 ∧
    ∀ p ∈ s.ifaces, p.addr = netIface → p.bearer = 0

/-- A new interface gets memory with NULL for its bearer, the loopback interface is not touched,
the bearer that is connected exists, and the one that is deleted is not connected. -/
def SafeCall (loopback : Ptr) (s : IfaceState) : IfaceCall → Prop
  | .create mem => ∀ m ∈ requestNetIface s mem, m.bearer = 0
  | .delete netIface => netIface ≠ loopback
  | .connect netIface bearer _ _ =>
    Connectable s netIface bearer → netIface ≠ loopback ∧ s.bearerAdv.type ≠ none
  | .disconnect netIface => netIface ≠ loopback
  | .bearerCreate => True
  | .bearerDelete bearer => bearer ≠ 0 → ∀ p ∈ s.ifaces, p.bearer ≠ bearer

/-- What holds of the interfaces and the bearer in a run of valid calls that is linked: the
interfaces lie at addresses of their own, and the bearer is connected to none that was deleted. -/
structure Sound (loopback : Ptr) (s : IfaceState) : Prop where
  head : ∃ p rest, s.ifaces = p :: rest ∧ p.addr = loopback ∧ p.type = .loopback
  nodup : (s.ifaces.map (·.addr)).Nodup
  apart : ∀ p ∈ s.ifaces, p.addr ∉ [0, bearerAdvPtr, listHeadPtr]
  type : s.bearerAdv.type = none ∨ s.bearerAdv.type = some .adv
  owned : s.bearerAdv.netIface ≠ 0 →
    s.bearerAdv.type ≠ none ∧ s.bearerAdv.netIface ∈ s.ifaces.map (·.addr)
  bearer : ∀ p ∈ s.ifaces, p.bearer = 0 ∧ s.bearerAdv.netIface ≠ p.addr ∨
    p.bearer = bearerAdvPtr ∧ s.bearerAdv.netIface = p.addr

variable {loopback netIface bearer : Ptr} {s s' : IfaceState} {p q : NetIfaceInfo}

theorem Sound.addr_ne_zero (h : Sound loopback s) (hp : p ∈ s.ifaces) : p.addr ≠ 0 :=
  fun h0 => h.apart p hp (by simp [h0])

theorem Sound.linked (h : Sound loopback s) : Linked loopback s := by
  refine ⟨fun p hp bearer hne => ?_, ?_⟩
  · rcases h.bearer p hp with ⟨hb, hno⟩ | ⟨hb, hyes⟩
    · exact ⟨fun he => absurd (he.symm.trans hb) hne, fun hj => absurd hj.2.2 hno⟩
    · have hexists := (h.owned (hyes ▸ h.addr_ne_zero hp)).1
      exact ⟨fun he => ⟨he.symm.trans hb, hexists, hyes⟩, fun hj => hb.trans hj.1.symm⟩
  · obtain ⟨p, rest, hifaces, haddr, htype⟩ := h.head
    refine ⟨⟨p, by rw [hifaces]; rfl, haddr, htype⟩, ?_⟩
    rw [netIfaceGet, if_pos rfl, hifaces, ← haddr]
    rfl

theorem Sound.loopback_ne_zero (h : Sound loopback s) : loopback ≠ 0 := by
  obtain ⟨p, rest, hifaces, haddr, -⟩ := h.head
  exact haddr ▸ h.addr_ne_zero (hifaces ▸ List.mem_cons_self)

theorem find_addr (h : (s.ifaces.map (·.addr)).Nodup) (hp : p ∈ s.ifaces) :
    s.ifaces.find? (·.addr = p.addr) = some p := by
  cases hf : s.ifaces.find? (·.addr = p.addr) with
  | none => exact absurd (List.find?_eq_none.mp hf p hp) (by simp)
  | some q =>
    have hq : q.addr = p.addr := by simpa using List.find?_some hf
    exact congrArg some (List.inj_on_of_nodup_map h (List.mem_of_find?_eq_some hf) hp hq)

theorem ifaceAt_addr (h : (s.ifaces.map (·.addr)).Nodup) (hp : p ∈ s.ifaces) :
    ifaceAt s p.addr = .ok p := by
  rw [ifaceAt, find_addr h hp]

theorem map_addr_setIface (s : IfaceState) (p : NetIfaceInfo) :
    (setIface s p).ifaces.map (·.addr) = s.ifaces.map (·.addr) := by
  simp only [setIface, List.map_map]
  refine List.map_congr_left fun q _ => ?_
  by_cases hq : q.addr = p.addr
  · simp [hq]
  · simp [hq]

theorem mem_setIface (hq : q ∈ (setIface s p).ifaces) : q = p ∨ q ∈ s.ifaces ∧ q.addr ≠ p.addr := by
  obtain ⟨r, hr, rfl⟩ := List.mem_map.mp hq
  split_ifs with haddr
  · exact .inl rfl
  · exact .inr ⟨hr, haddr⟩

theorem mem_setIface_self (hp : p ∈ s.ifaces) (haddr : q.addr = p.addr) :
    q ∈ (setIface s q).ifaces :=
  List.mem_map.mpr ⟨p, hp, if_pos haddr.symm⟩

/-- The bearer when the interface has left it. -/
def leftBearer (b : Bearer) (addr : Ptr) : Bearer :=
  { b with netIface := if b.netIface = addr then 0 else b.netIface }

theorem Sound.leaveBearer (h : Sound loopback s) (hp : p ∈ s.ifaces) (ifaces : List NetIfaceInfo) :
    leaveBearer { s with ifaces := ifaces } p.bearer =
      .ok ⟨ifaces, leftBearer s.bearerAdv p.addr⟩ := by
  unfold Iface.leaveBearer
  rcases h.bearer p hp with ⟨hb, hno⟩ | ⟨hb, hyes⟩
  · rw [if_pos hb, leftBearer, if_neg hno]
  · rw [hb, if_neg (by decide), setBearerIface, if_pos rfl, leftBearer, if_pos hyes]

theorem Sound.delete (h : Sound loopback s) (hp : p ∈ s.ifaces) : netIfaceDelete s p.addr =
    .ok ⟨s.ifaces.filter (·.addr ≠ p.addr), leftBearer s.bearerAdv p.addr⟩ := by
  rw [netIfaceDelete, if_neg (h.addr_ne_zero hp), ifaceAt_addr h.nodup hp]
  exact h.leaveBearer hp _

theorem Sound.disconnect (h : Sound loopback s) (hp : p ∈ s.ifaces) :
    netIfaceDisconnect s p.addr =
      .ok ⟨(setIface s (disconnectedIface p)).ifaces, leftBearer s.bearerAdv p.addr⟩ := by
  rw [netIfaceDisconnect, if_neg (h.addr_ne_zero hp), ifaceAt_addr h.nodup hp]
  exact h.leaveBearer hp _

theorem Sound.head_setIface (h : Sound loopback s) (hne : p.addr ≠ loopback) :
    ∃ q rest, (setIface s p).ifaces = q :: rest ∧ q.addr = loopback ∧ q.type = .loopback := by
  obtain ⟨q, rest, hifaces, haddr, htype⟩ := h.head
  have hq : q.addr ≠ p.addr := fun he => hne (he.symm.trans haddr)
  refine ⟨q, rest.map fun r => if r.addr = p.addr then p else r, ?_, haddr, htype⟩
  rw [setIface, hifaces, List.map_cons, if_neg hq]

theorem Sound.head_filter (h : Sound loopback s) {addr : Ptr} (hne : addr ≠ loopback) :
    ∃ q rest, s.ifaces.filter (·.addr ≠ addr) = q :: rest ∧ q.addr = loopback ∧
      q.type = .loopback := by
  obtain ⟨q, rest, hifaces, haddr, htype⟩ := h.head
  have hq : q.addr ≠ addr := fun he => hne (he.symm.trans haddr)
  refine ⟨q, rest.filter (·.addr ≠ addr), ?_, haddr, htype⟩
  rw [hifaces, List.filter_cons_of_pos (by simpa using hq)]

theorem addr_of_mem_setIface {r : NetIfaceInfo} (hr : r ∈ (setIface s q).ifaces)
    (hp : p ∈ s.ifaces) (haddr : q.addr = p.addr) : ∃ r' ∈ s.ifaces, r'.addr = r.addr := by
  rcases mem_setIface hr with rfl | ⟨hr, -⟩
  · exact ⟨p, hp, haddr.symm⟩
  · exact ⟨r, hr, rfl⟩

theorem leftBearer_netIface {b : Bearer} {addr : Ptr} (h : (leftBearer b addr).netIface ≠ 0) :
    (leftBearer b addr).netIface = b.netIface ∧ b.netIface ≠ addr := by
  unfold leftBearer at h ⊢
  by_cases he : b.netIface = addr
  · exact absurd (if_pos he) h
  · exact ⟨if_neg he, he⟩

theorem Sound.bearer_left (h : Sound loopback s) (hq : q ∈ s.ifaces) (hne : q.addr ≠ p.addr) :
    q.bearer = 0 ∧ (leftBearer s.bearerAdv p.addr).netIface ≠ q.addr ∨
      q.bearer = bearerAdvPtr ∧ (leftBearer s.bearerAdv p.addr).netIface = q.addr := by
  rcases h.bearer q hq with ⟨hb, hno⟩ | ⟨hb, hyes⟩
  · refine .inl ⟨hb, fun he => hno ?_⟩
    exact (leftBearer_netIface (he ▸ h.addr_ne_zero hq)).1.symm.trans he
  · have hother : s.bearerAdv.netIface ≠ p.addr := fun he => hne (hyes.symm.trans he)
    exact .inr ⟨hb, by rw [leftBearer, if_neg hother, hyes]⟩

theorem Sound.deleted (h : Sound loopback s) (hne : p.addr ≠ loopback) :
    Sound loopback ⟨s.ifaces.filter (·.addr ≠ p.addr), leftBearer s.bearerAdv p.addr⟩ where
  head := h.head_filter hne
  nodup := h.nodup.sublist (List.filter_sublist.map _)
  apart q hq := h.apart q (List.mem_of_mem_filter hq)
  type := h.type
  owned hleft := by
    obtain ⟨hsame, hother⟩ := leftBearer_netIface hleft
    obtain ⟨hexists, hmem⟩ := h.owned (hsame ▸ hleft)
    obtain ⟨q, hq, haddr⟩ := List.mem_map.mp hmem
    refine ⟨hexists, List.mem_map.mpr ⟨q, ?_, haddr.trans hsame.symm⟩⟩
    exact List.mem_filter.mpr ⟨hq, by simpa using fun he => hother (haddr.symm.trans he)⟩
  bearer q hq := h.bearer_left (List.mem_of_mem_filter hq) (by simpa using List.of_mem_filter hq)

theorem Sound.disconnected (h : Sound loopback s) (hp : p ∈ s.ifaces) (hne : p.addr ≠ loopback) :
    Sound loopback
      ⟨(setIface s (disconnectedIface p)).ifaces, leftBearer s.bearerAdv p.addr⟩ where
  head := h.head_setIface hne
  nodup := (map_addr_setIface s _).symm ▸ h.nodup
  apart q hq := by
    obtain ⟨r, hr, haddr⟩ := addr_of_mem_setIface hq hp rfl
    exact haddr ▸ h.apart r hr
  type := h.type
  owned hleft := by
    obtain ⟨hsame, -⟩ := leftBearer_netIface hleft
    rw [hsame, map_addr_setIface]
    exact h.owned (hsame ▸ hleft)
  bearer q hq := by
    rcases mem_setIface hq with rfl | ⟨hq, hother⟩
    · refine .inl ⟨rfl, fun he => ?_⟩
      obtain ⟨hsame, hother⟩ := leftBearer_netIface (he ▸ h.addr_ne_zero hp)
      exact hother (hsame.symm.trans he)
    · exact h.bearer_left hq hother

theorem Sound.connected (h : Sound loopback s) (hp : p ∈ s.ifaces) (hne : p.addr ≠ loopback)
    (hexists : s.bearerAdv.type ≠ none) (hadv : s.bearerAdv.netIface = 0)
    (haddr : q.addr = p.addr) (hbearer : q.bearer = bearerAdvPtr) :
    Sound loopback ⟨(setIface s q).ifaces, ⟨s.bearerAdv.type, p.addr⟩⟩ where
  head := h.head_setIface (haddr ▸ hne)
  nodup := (map_addr_setIface s q).symm ▸ h.nodup
  apart r hr := by
    obtain ⟨r', hr', he⟩ := addr_of_mem_setIface hr hp haddr
    exact he ▸ h.apart r' hr'
  type := h.type
  owned _ := ⟨hexists, by rw [map_addr_setIface]; exact List.mem_map_of_mem hp⟩
  bearer r hr := by
    rcases mem_setIface hr with rfl | ⟨hr, hother⟩
    · exact .inr ⟨hbearer, haddr.symm⟩
    · rcases h.bearer r hr with ⟨hb, -⟩ | ⟨-, hyes⟩
      · exact .inl ⟨hb, fun he => hother (he.symm.trans haddr.symm)⟩
      · exact absurd (hyes.symm.trans hadv) (h.addr_ne_zero hr)

theorem nodup_created (h : (s.ifaces.map (·.addr)).Nodup) {m : Block} (hfree : IsFree s m.addr) :
    ((s.ifaces ++ [clearedIface m]).map (·.addr)).Nodup := by
  rw [List.map_append, List.nodup_append]
  refine ⟨h, List.nodup_singleton _, fun a ha b hb he => hfree.2 ?_⟩
  have hm : b = m.addr := List.mem_singleton.mp hb
  exact hm ▸ he ▸ ha

theorem Sound.created (h : Sound loopback s) {m : Block} (hfree : IsFree s m.addr)
    (hnull : m.bearer = 0) : Sound loopback { s with ifaces := s.ifaces ++ [clearedIface m] } where
  head := by
    obtain ⟨p, rest, hifaces, haddr, htype⟩ := h.head
    exact ⟨p, rest ++ [clearedIface m], by rw [hifaces, List.cons_append], haddr, htype⟩
  nodup := nodup_created h.nodup hfree
  apart p hp := by
    rcases List.mem_append.mp hp with hp | hp
    · exact h.apart p hp
    · exact List.mem_singleton.mp hp ▸ hfree.1
  type := h.type
  owned hne := by
    refine ⟨(h.owned hne).1, ?_⟩
    rw [List.map_append]
    exact List.mem_append_left _ (h.owned hne).2
  bearer p hp := by
    rcases List.mem_append.mp hp with hp | hp
    · exact h.bearer p hp
    · cases List.mem_singleton.mp hp
      refine .inl ⟨hnull, fun (he : s.bearerAdv.netIface = m.addr) => ?_⟩
      have hne : m.addr ≠ 0 := fun h0 => hfree.1 (by simp [h0])
      exact hfree.2 (he ▸ (h.owned (he ▸ hne)).2)

theorem Sound.bearerCreated (h : Sound loopback s) (hnone : s.bearerAdv.type = none) :
    Sound loopback { s with bearerAdv := ⟨some .adv, 0⟩ } where
  head := h.head
  nodup := h.nodup
  apart := h.apart
  type := .inr rfl
  owned hne := absurd rfl hne
  bearer p hp := by
    rcases h.bearer p hp with ⟨hb, -⟩ | ⟨-, hyes⟩
    · exact .inl ⟨hb, (h.addr_ne_zero hp).symm⟩
    · exact absurd hnone (h.owned (hyes ▸ h.addr_ne_zero hp)).1

theorem Sound.bearerDeleted (h : Sound loopback s)
    (hleft : ∀ p ∈ s.ifaces, p.bearer ≠ bearerAdvPtr) :
    Sound loopback { s with bearerAdv := ⟨none, 0⟩ } where
  head := h.head
  nodup := h.nodup
  apart := h.apart
  type := .inl rfl
  owned hne := absurd rfl hne
  bearer p hp := by
    rcases h.bearer p hp with ⟨hb, -⟩ | ⟨hb, -⟩
    · exact .inl ⟨hb, (h.addr_ne_zero hp).symm⟩
    · exact absurd hb (hleft p hp)

section Connect

variable {inFilter : Option (Ptr → Unit → Bool)} {outFilter : Option (Ptr → OfilterData → Bool)}
  (hnodup : (s.ifaces.map (·.addr)).Nodup)
  (hv : ValidCall s (.connect netIface bearer inFilter outFilter))

include hnodup hv

theorem connect_made (hc : Connectable s netIface bearer) :
    ∃ p ∈ s.ifaces, p.addr = netIface ∧ bearer = bearerAdvPtr ∧
      ifaceStep s (.connect netIface bearer inFilter outFilter) =
        .ok ⟨(setIface s (connectedIface s p bearerAdvPtr inFilter outFilter)).ifaces,
          ⟨s.bearerAdv.type, p.addr⟩⟩ := by
  obtain ⟨hne, hbne, hadv, hfree⟩ := hc
  obtain ⟨p, hp, rfl⟩ := List.mem_map.mp (hv.1.resolve_left hne)
  cases hv.2.resolve_left hbne
  refine ⟨p, hp, rfl, rfl, ?_⟩
  rw [ifaceStep, netIfaceConnect, if_neg (not_or.mpr ⟨hne, hbne⟩), ifaceAt_addr hnodup hp]
  simp [bind, Except.bind, hfree p hp rfl, hadv, setBearerIface, pure, Except.pure, setIface,
    Functor.map, Except.map]

theorem connect_refused (hno : ¬Connectable s netIface bearer) :
    ifaceStep s (.connect netIface bearer inFilter outFilter) = .ok s := by
  by_cases hnull : netIface = 0 ∨ bearer = 0
  · rw [ifaceStep, netIfaceConnect, if_pos hnull]
    rfl
  obtain ⟨hne, hbne⟩ := not_or.mp hnull
  obtain ⟨p, hp, rfl⟩ := List.mem_map.mp (hv.1.resolve_left hne)
  cases hv.2.resolve_left hbne
  rw [ifaceStep, netIfaceConnect, if_neg hnull, ifaceAt_addr hnodup hp]
  by_cases hb : p.bearer = 0
  · have hadv : s.bearerAdv.netIface ≠ 0 := by
      refine fun hadv => hno ⟨hne, hbne, hadv, fun q hq he => ?_⟩
      rw [List.inj_on_of_nodup_map hnodup hq hp he, hb]
    simp [bind, Except.bind, hb, hadv, pure, Except.pure, Functor.map, Except.map]
  · simp [bind, Except.bind, hb, pure, Except.pure, Functor.map, Except.map]

end Connect

theorem requestNetIface_some {mem : Option Block} {m : Block}
    (h : requestNetIface s mem = some m) : mem = some m := by
  unfold requestNetIface at h
  by_cases hfull : netIfaceMaxNum ≤ s.ifaces.length
  · rw [if_pos hfull] at h
    cases h
  · rwa [if_neg hfull] at h

theorem netIfaceCreate_none {mem : Option Block} (h : requestNetIface s mem = none) :
    netIfaceCreate s mem = (0, s) := by
  rw [netIfaceCreate, h]

theorem netIfaceCreate_some {mem : Option Block} {m : Block} (h : requestNetIface s mem = some m) :
    netIfaceCreate s mem = (m.addr, { s with ifaces := s.ifaces ++ [clearedIface m] }) := by
  rw [netIfaceCreate, h]

variable {e : IfaceCall}

/-- A safe call leaves the interfaces and the bearer sound. -/
theorem Sound.step (h : Sound loopback s) (hv : ValidCall s e) (hsafe : SafeCall loopback s e)
    (hs : ifaceStep s e = .ok s') : Sound loopback s' := by
  cases e with
  | create mem =>
    cases hreq : requestNetIface s mem with
    | none =>
      rw [ifaceStep, netIfaceCreate_none hreq] at hs
      cases hs
      exact h
    | some m =>
      rw [ifaceStep, netIfaceCreate_some hreq] at hs
      cases hs
      exact h.created (hv m (requestNetIface_some hreq)) (hsafe m hreq)
  | delete netIface =>
    rcases hv with rfl | hmem
    · cases hs
      exact h
    · obtain ⟨p, hp, rfl⟩ := List.mem_map.mp hmem
      cases (h.delete hp).symm.trans hs
      exact h.deleted hsafe
  | connect netIface bearer inFilter outFilter =>
    by_cases hc : Connectable s netIface bearer
    · obtain ⟨p, hp, rfl, rfl, hmade⟩ := connect_made h.nodup hv hc
      cases hmade.symm.trans hs
      exact h.connected hp (hsafe hc).1 (hsafe hc).2 hc.2.2.1 rfl rfl
    · cases (connect_refused h.nodup hv hc).symm.trans hs
      exact h
  | disconnect netIface =>
    rcases hv with rfl | hmem
    · cases hs
      exact h
    · obtain ⟨p, hp, rfl⟩ := List.mem_map.mp hmem
      cases (h.disconnect hp).symm.trans hs
      exact h.disconnected hp hsafe
  | bearerCreate =>
    rw [ifaceStep, bearerAdvCreate] at hs
    by_cases hadv : s.bearerAdv.type = some .adv
    · rw [if_pos hadv] at hs
      cases hs
      exact h
    · rw [if_neg hadv] at hs
      cases hs
      exact h.bearerCreated (h.type.resolve_right hadv)
  | bearerDelete bearer =>
    rcases hv with rfl | rfl
    · cases hs
    · cases hs
      exact h.bearerDeleted (hsafe (by decide))

theorem Sound.createsDisconnected (h : Sound loopback s) (hv : ValidCall s e)
    (hsafe : SafeCall loopback s e) : CreatesDisconnected s e := by
  cases e with
  | create mem =>
    cases hreq : requestNetIface s mem with
    | none => simp [CreatesDisconnected, netIfaceCreate_none hreq]
    | some m =>
      simp only [CreatesDisconnected, netIfaceCreate_some hreq]
      have hfree := hv m (requestNetIface_some hreq)
      have hmem : clearedIface m ∈ s.ifaces ++ [clearedIface m] := by simp
      refine fun hne => ⟨?_, fun p hp haddr => ?_⟩
      · have hsound := h.created hfree (hsafe m hreq)
        have hat : ifaceAt { s with ifaces := s.ifaces ++ [clearedIface m] } m.addr =
            .ok (clearedIface m) := ifaceAt_addr hsound.nodup hmem
        rw [netIfaceIsConnect, if_neg hne, hat]
        rfl
      · rcases List.mem_append.mp hp with hp | hp
        · exact absurd (List.mem_map.mpr ⟨p, hp, haddr⟩) hfree.2
        · exact List.mem_singleton.mp hp ▸ hsafe m hreq
  | _ => trivial

theorem Linked.loopback_mem (h : Linked loopback s) :
    ∃ p ∈ s.ifaces, p.addr = loopback ∧ p.type = .loopback := by
  obtain ⟨p, hhead, hp⟩ := h.loopback.1
  exact ⟨p, List.mem_of_mem_head? hhead, hp⟩

/-- A call that is not safe leaves an interface or a bearer that points at what does not point
back, or no loopback interface. -/
theorem KeepsLinked.safe (hk : KeepsLinked loopback s e) (h : Sound loopback s)
    (hv : ValidCall s e) : SafeCall loopback s e := by
  obtain ⟨hnew, hlinked⟩ := hk
  cases e with
  | create mem =>
    intro m hreq
    have hne : m.addr ≠ 0 := fun h0 => (hv m (requestNetIface_some hreq)).1 (by simp [h0])
    simp only [CreatesDisconnected, netIfaceCreate_some hreq] at hnew
    exact (hnew hne).2 (clearedIface m) (by simp) rfl
  | delete netIface =>
    intro hloop
    have hmem := hv.resolve_left (hloop ▸ h.loopback_ne_zero)
    obtain ⟨p, hp, rfl⟩ := List.mem_map.mp hmem
    obtain ⟨q, hq, haddr, -⟩ := (hlinked _ (h.delete hp)).loopback_mem
    exact absurd (haddr.trans hloop.symm) (by simpa using List.of_mem_filter hq)
  | connect netIface bearer inFilter outFilter =>
    intro hc
    obtain ⟨p, hp, rfl, rfl, hmade⟩ := connect_made h.nodup hv hc
    have hl := hlinked _ hmade
    refine ⟨fun hloop => ?_, ?_⟩
    · obtain ⟨q, hq, haddr, htype⟩ := hl.loopback_mem
      rcases mem_setIface hq with rfl | ⟨-, hother⟩
      · unfold connectedIface at htype
        by_cases hb : s.bearerAdv.type = some .adv <;> simp [hb] at htype
      · exact hother (haddr.trans hloop.symm)
    · exact ((hl.link _ (mem_setIface_self hp rfl) bearerAdvPtr hc.2.1).mp rfl).2.1
  | disconnect netIface =>
    intro hloop
    have hmem := hv.resolve_left (hloop ▸ h.loopback_ne_zero)
    obtain ⟨p, hp, rfl⟩ := List.mem_map.mp hmem
    obtain ⟨q, hq, haddr, htype⟩ := (hlinked _ (h.disconnect hp)).loopback_mem
    rcases mem_setIface hq with rfl | ⟨-, hother⟩
    · cases htype
    · exact hother (haddr.trans hloop.symm)
  | bearerCreate => trivial
  | bearerDelete bearer =>
    intro hne p hp hb
    cases hv.resolve_left hne
    exact absurd rfl (((hlinked _ rfl).link p hp bearerAdvPtr hne).mp hb).2.1

theorem Sound.keepsLinked_iff (h : Sound loopback s) (hv : ValidCall s e) :
    KeepsLinked loopback s e ↔ SafeCall loopback s e :=
  ⟨fun hk => hk.safe h hv, fun hsafe =>
    ⟨h.createsDisconnected hv hsafe, fun _ hs => (h.step hv hsafe hs).linked⟩⟩

theorem sound_init {m : Block} (hfree : m.addr ∉ [0, bearerAdvPtr, listHeadPtr])
    (hinit : netIfaceInit (some m) = some s) : Sound m.addr s := by
  cases hinit
  exact
    { head := ⟨_, [], rfl, rfl, rfl⟩
      nodup := List.nodup_singleton _
      apart := fun p hp => List.mem_singleton.mp hp ▸ hfree
      type := .inl rfl
      owned := fun hne => absurd rfl hne
      bearer := fun p hp => by
        cases List.mem_singleton.mp hp
        exact .inl ⟨rfl, fun (h0 : 0 = m.addr) => hfree (by simp [← h0])⟩ }

/-- In a run of valid calls every call leaves interfaces and bearers that point at each other, and
the loopback interface first, exactly if every call is safe. -/
theorem links_kept {m : Block} (hfree : m.addr ∉ [0, bearerAdvPtr, listHeadPtr])
    (hinit : netIfaceInit (some m) = some s) {es : List IfaceCall}
    (hv : RunAll ifaceStep ValidCall s es) :
    Linked m.addr s ∧
      (RunAll ifaceStep (KeepsLinked m.addr) s es ↔ RunAll ifaceStep (SafeCall m.addr) s es) := by
  have hsound := sound_init hfree hinit
  refine ⟨hsound.linked, ?_⟩
  have hboth : RunAll ifaceStep (fun s e => ValidCall s e ∧ KeepsLinked m.addr s e) s es ↔
      RunAll ifaceStep (fun s e => ValidCall s e ∧ SafeCall m.addr s e) s es :=
    RunAll.iff_of_invariant (fun _ _ _ hs hc hnext => hs.step hc.1 hc.2 hnext)
      (fun _ _ hs => and_congr_right fun hv => hs.keepsLinked_iff hv) hsound
  exact ⟨fun hk => (hboth.mp (hv.and hk)).imp_of_mem fun _ _ _ hc => hc.2,
    fun hsafe => (hboth.mpr (hv.and hsafe)).imp_of_mem fun _ _ _ hc => hc.2⟩

/-- An interface and a bearer are created, connected and disconnected again. -/
theorem links_kept_connected : Linked 16 ⟨[loopbackIface 16], ⟨none, 0⟩⟩ ∧
    (RunAll ifaceStep (KeepsLinked 16) ⟨[loopbackIface 16], ⟨none, 0⟩⟩
      [.create (some ⟨32, 0, 0, 0, .zero⟩), .bearerCreate, .connect 32 bearerAdvPtr none none,
        .disconnect 32] ↔
      RunAll ifaceStep (SafeCall 16) ⟨[loopbackIface 16], ⟨none, 0⟩⟩
      [.create (some ⟨32, 0, 0, 0, .zero⟩), .bearerCreate, .connect 32 bearerAdvPtr none none,
        .disconnect 32]) :=
  links_kept (m := ⟨16, 0, 0, 0, .zero⟩) (by decide) rfl (by decide +kernel)

/-- Memory with 5 where the bearer is: the new interface points at a bearer there is not. -/
theorem links_broken : ∃ s₀ s, netIfaceInit (some ⟨16, 0, 0, 0, .zero⟩) = some s₀ ∧
    ValidCall s₀ (.create (some ⟨32, 5, 0, 0, .zero⟩)) ∧
    run ifaceStep s₀ [.create (some ⟨32, 5, 0, 0, .zero⟩)] = .ok s ∧ ¬Linked 16 s := by
  refine ⟨_, ⟨[loopbackIface 16, clearedIface ⟨32, 5, 0, 0, .zero⟩], ⟨none, 0⟩⟩, rfl, by decide,
    rfl, fun h => ?_⟩
  have hj := (h.link (clearedIface ⟨32, 5, 0, 0, .zero⟩) (by simp) 5 (by decide)).mp rfl
  exact absurd hj.1 (by decide)

end Links

end Meshx.Iface
