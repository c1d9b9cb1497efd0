import Meshx.ProcessOnce
import Meshx.LinkOpenRefusal

/-! The numbers of the transactions. A provisioner numbers from 0x00 to 0x7f and a device from 0x80
to 0xff, but several PDUs are numbered by one of the two rules whatever the role is. -/
namespace Meshx.PbAdv

open Lib Prov

section Rules

def peerRole : Role → Role
  | .device => .provisioner
  | .provisioner => .device

/-- The numbers that a session of the role may give to its transactions. -/
def OwnTransNum : Role → Byte → Prop
  | .provisioner, num => num ≤ 0x7f
  | .device, num => 0x80 ≤ num

/-- Whose rule numbers a PDU of the type. -/
def numberedAs (role : Role) : ProvType → Role
  | .invite => .provisioner
  | .publicKey | .confirmation | .random => role
  | _ => .device

def nextTransNum : Role → Byte → Byte
  | .provisioner, num => if 0x7f < num + 1 then 0 else num + 1
  | .device, num => if num + 1 = 0 then 0x80 else num + 1

/-- The rule is the one of the role, or gives a number of the role too. -/
def RuleFits : (role rule : Role) → Byte → Prop
  | .provisioner, .provisioner, _ => True
  | .provisioner, .device, num => num < 0x7f
  | .device, .device, num => 0x7f ≤ num
  | .device, .provisioner, _ => False

/-- How many numbers are given, at the least, until `last` is given again. -/
def ahead (last num : Byte) : ℕ :=
  if num.toNat < last.toNat then last.toNat - num.toNat
  else if last.toNat < 128 ∧ 128 ≤ num.toNat then last.toNat + 1
  else last.toNat + 128 - num.toNat

instance (role : Role) (num : Byte) : Decidable (OwnTransNum role num) :=
  match role with
  | .provisioner | .device => inferInstanceAs (Decidable (_ ≤ _))

instance (role rule : Role) (num : Byte) : Decidable (RuleFits role rule num) :=
  match role, rule with
  | .provisioner, .provisioner => isTrue trivial
  | .provisioner, .device => inferInstanceAs (Decidable (_ < _))
  | .device, .device => inferInstanceAs (Decidable (_ ≤ _))
  | .device, .provisioner => isFalse id

variable {role : Role} {num last : Byte} {type : ProvType} {s : PbAdvDev}

theorem peerTransNum_peerRole : peerTransNum (peerRole role) num = true ↔ OwnTransNum role num := by
  cases role <;> simp [peerRole, peerTransNum, OwnTransNum]

theorem pbAdvSend_num (s : PbAdvDev) (type : ProvType) : pbAdvSend s type =
    waiting s s.dev (nextTransNum (numberedAs s.dev.role type) s.txTransNum) := by
  have hrole : startDelay (requireTransNum s) .provPdu =
      waiting s s.dev (nextTransNum s.dev.role s.txTransNum) := by
    unfold requireTransNum
    cases hr : s.dev.role <;> rfl
  cases type with
  | publicKey | confirmation | random => exact hrole
  | _ => rfl

theorem toNat_nextTransNum_provisioner :
    (nextTransNum .provisioner num).toNat = if num.toNat < 127 then num.toNat + 1 else 0 := by
  simp only [nextTransNum]
  by_cases h : 0x7f < num + 1
  · rw [if_pos h]
    split_ifs <;> bv_omega
  · rw [if_neg h]
    split_ifs <;> bv_omega

theorem toNat_nextTransNum_device :
    (nextTransNum .device num).toNat = if num.toNat < 255 then num.toNat + 1 else 128 := by
  simp only [nextTransNum]
  by_cases h : num + 1 = 0
  · rw [if_pos h]
    split_ifs <;> bv_omega
  · rw [if_neg h]
    split_ifs <;> bv_omega

theorem own_nextTransNum {rule : Role} :
    OwnTransNum role (nextTransNum rule num) ↔ RuleFits role rule num := by
  cases rule
  · have hnext := @toNat_nextTransNum_device num
    cases role
    · change 128 ≤ (nextTransNum .device num).toNat ↔ 127 ≤ num.toNat
      split_ifs at hnext <;> omega
    · change (nextTransNum .device num).toNat ≤ 127 ↔ num.toNat < 127
      split_ifs at hnext <;> omega
  · have hnext := @toNat_nextTransNum_provisioner num
    cases role
    · refine iff_of_false (fun h => ?_) id
      change 128 ≤ (nextTransNum .provisioner num).toNat at h
      split_ifs at hnext <;> omega
    · refine iff_of_true ?_ trivial
      change (nextTransNum .provisioner num).toNat ≤ 127
      split_ifs at hnext <;> omega

theorem ahead_self : ahead num num = 128 := by
  unfold ahead
  rw [if_neg (lt_irrefl _), if_neg fun h => absurd h.1 (not_lt.mpr h.2)]
  omega

/-- A number given brings `last` no nearer than by one, and is not `last` unless that was next. -/
theorem ahead_nextTransNum (role : Role) (h : 1 < ahead last num) :
    nextTransNum role num ≠ last ∧ ahead last num ≤ ahead last (nextTransNum role num) + 1 := by
  have hnum := num.isLt
  have hlast := last.isLt
  unfold ahead at h ⊢
  rw [ne_eq, BitVec.toNat_eq]
  cases role
  · rw [toNat_nextTransNum_device]
    split_ifs at h ⊢ <;> omega
  · rw [toNat_nextTransNum_provisioner]
    split_ifs at h ⊢ <;> omega

end Rules

section Steps

variable {cfg : Config} {accepts : List Byte → Bool} {w : World} {s t : PbAdvDev} {c : Call}

/-- The PDU that the call sends in the states that admit it. -/
def Call.pdu : Call → Option ProvType
  | .invite _ => some .invite
  | .capabilites _ => some .capabilites
  | .start _ => some .start
  | .publicKey _ => some .publicKey
  | .inputComplete => some .inputComplete
  | .confirmation _ => some .confirmation
  | .random _ => some .random
  | .data _ => some .data
  | .complete => some .complete
  | .failed _ => some .failed
  | _ => none

/-- The PDU that is requested in the step: by the application, as the answer to a processed PDU,
or because the peer has used a number that is not its own. -/
def requested (cfg : Config) (s : PbAdvDev) : SessionEvent × World → Option ProvType
  | (.call c, _) => if Sends s.dev.state c then c.pdu else none
  | (.timeout, w) =>
    if AckDue s then
      if peerTransNum s.dev.role s.rxTransNum then
        answer cfg.prov s.dev s.provRxPdu (BitVec.ofNat 8 s.transDataLen) w.mallocOk
      else some .failed
    else none
  | (.recv _, _) => none

/-- The role that the event sets the session up for. -/
def roleAfter (cfg : Config) (s : PbAdvDev) : SessionEvent → Role
  | .call (.setup role _ _) => role
  | .recv pdata =>
    match parse pdata with
    | .ok (.linkOpen _ devUuid) => if takesOpen cfg s devUuid then .device else s.dev.role
    | _ => s.dev.role
  | _ => s.dev.role

/-- The event begins the transaction of the PDU that waits. -/
def Begins (s : PbAdvDev) : SessionEvent → Prop
  | .timeout => Waiting s
  | _ => False

instance (s : PbAdvDev) (e : SessionEvent) : Decidable (Begins s e) :=
  match e with
  | .timeout => inferInstanceAs (Decidable (Waiting s))
  | .call _ | .recv _ => isFalse id

/-- A delay is over in an opened link only. -/
def DelayOpened (s : PbAdvDev) : Prop :=
  s.timerOn = true → s.timerState = .delay → .linkOpened ≤ s.dev.state

/-- What a step does to the number of the session. -/
inductive Renumbered (cfg : Config) (s : PbAdvDev) (e : SessionEvent × World) :
    Option PbAdvDev → Prop
  | deleted (hnone : requested cfg s e = none) : Renumbered cfg s e none
  | numbered {type : ProvType} (h : requested cfg s e = some type) {t : PbAdvDev}
      (hbegins : ¬ Begins s e.1) (hwait : Waiting t) (hrole : t.dev.role = s.dev.role)
      (hnum : t.txTransNum = nextTransNum (numberedAs s.dev.role type) s.txTransNum)
      (ho : .linkOpened ≤ t.dev.state) : Renumbered cfg s e (some t)
  | begun (hbegins : Begins s e.1) (hwait : Waiting s) {t : PbAdvDev}
      (hstate : t.timerState = .retry) (hdev : t.dev = s.dev)
      (hnum : t.txTransNum = s.txTransNum) (ho : .linkOpened ≤ s.dev.state) :
      Renumbered cfg s e (some t)
  | relinked (hs : s.dev.state ≤ .linkOpening) (hbegins : ¬ Begins s e.1)
      {t : PbAdvDev} (hsends : ¬ SendsPdu t) (hdelay : DelayOpened t) : Renumbered cfg s e (some t)
  | kept (hnone : requested cfg s e = none) (hbegins : ¬ Begins s e.1) {t : PbAdvDev}
      (hnum : t.txTransNum = s.txTransNum)
      (hopened : .linkOpened ≤ s.dev.state → .linkOpened ≤ t.dev.state) (hdelay : DelayOpened t)
      (hwait : Waiting t → Waiting s) (hrep : Repeating t → Repeating s)
      (hrole : SendsPdu t → t.dev.role = roleAfter cfg s e.1) : Renumbered cfg s e (some t)

theorem delayOpened_of_state (h : t.timerState ≠ .delay) : DelayOpened t :=
  fun _ ht => absurd ht h

theorem not_sendsPdu_of_monitor (h : t.timerState = .linkMonitor) : ¬ SendsPdu t := by
  rintro (⟨-, ht, -⟩ | ⟨-, ht, -⟩)
  · simp [h] at ht
  · simp [h] at ht

theorem not_sendsPdu_of_link (h : t.timerState = .retry)
    (hs : ¬ (.invite ≤ t.dev.state ∧ t.dev.state ≤ .complete)) : ¬ SendsPdu t := by
  rintro (⟨-, ht, -⟩ | ⟨-, -, hin⟩)
  · simp [h] at ht
  · exact hs hin

theorem closing_not_sendsPdu (s : PbAdvDev) (reason : Byte) : ¬ SendsPdu (closing s reason) :=
  not_sendsPdu_of_link rfl (by simp only [closing, startTimer]; decide)

/-- In a link that is not opened the timer sends no PDU. -/
theorem DelayOpened.not_sendsPdu (hd : DelayOpened s) (hs : s.dev.state ≤ .linkOpening) :
    ¬ SendsPdu s := by
  rintro (⟨hon, ht, -⟩ | ⟨-, -, hle, -⟩)
  · exact absurd ((hd hon ht).trans hs) (by decide)
  · exact absurd (hle.trans hs) (by decide)

theorem sends_opened {state : ProvState} (h : Sends state c) : .linkOpened ≤ state := by
  cases c with
  | setup | linkOpen | linkClose | makeKey | setRemotePublicKey | setAuthValue | generateRandom
  | generateConfirmation => exact h.elim
  | _ => exact h.1.trans' (by decide)

theorem sending_role {type : ProvType} {r : Errno × ProvDev} (h : r.2.role = s.dev.role) :
    (sending s type r).dev.role = s.dev.role := by
  unfold sending
  split_ifs
  · rw [pbAdvSend_num]
    exact h
  · exact h

theorem call_role (cfg : Config) (accepts : List Byte → Bool) (s : PbAdvDev) (c : Call) :
    (call cfg accepts s c).1.dev.role = roleAfter cfg s (.call c) := by
  cases c with
  | setup role keyPair random => rfl
  | linkOpen linkId =>
    simp only [call, linkOpen, roleAfter]
    split_ifs <;> rfl
  | linkClose reason =>
    simp only [call, linkClose, roleAfter]
    split_ifs <;> rfl
  | makeKey generated => rfl
  | setRemotePublicKey key =>
    simp only [call, setRemotePublicKey, roleAfter]
    split_ifs <;> rfl
  | setAuthValue value =>
    cases value <;> simp only [call, setAuthValue, roleAfter]
    split_ifs <;> rfl
  | generateRandom generated => rfl
  | generateConfirmation random mallocOk => exact generateConfirmation_role random mallocOk
  | failed errCode => exact sending_role (failed_role errCode)
  | publicKey | inputComplete | confirmation | random => exact sending_role (admitted_role rfl)
  | _ => exact sending_role (admittedOnce_role rfl)

theorem call_sends (h : Sends s.dev.state c) : ∃ type d, c.pdu = some type ∧
    (call cfg accepts s c).1 = pbAdvSend { s with dev := d } type := by
  have hadmitted {type : ProvType} {first last : ProvState} {act : ProvDev}
      (h : first ≤ s.dev.state ∧ s.dev.state ≤ last) :
      ∃ d, sending s type (admitted s.dev first last act) = pbAdvSend { s with dev := d } type := by
    refine ⟨_, if_pos ?_⟩
    rw [admitted, if_neg]
    exact not_or.mpr ⟨not_lt.mpr h.1, not_lt.mpr h.2⟩
  have honce {type : ProvType} {first last : ProvState} {act : ProvDev}
      (h : first ≤ s.dev.state ∧ s.dev.state < last) :
      ∃ d, sending s type (admittedOnce s.dev first last act) =
        pbAdvSend { s with dev := d } type := by
    refine ⟨_, if_pos ?_⟩
    rw [admittedOnce, if_neg, if_neg h.2.ne]
    exact not_or.mpr ⟨not_lt.mpr h.1, not_lt.mpr h.2.le⟩
  cases c with
  | setup | linkOpen | linkClose | makeKey | setRemotePublicKey | setAuthValue | generateRandom
  | generateConfirmation => exact h.elim
  | failed errCode =>
    refine ⟨_, _, rfl, if_pos ?_⟩
    rcases @failed_state s.dev errCode with ⟨-, hret, -⟩ | ⟨hno, -⟩
    · exact hret
    · exact absurd h hno
  | publicKey | inputComplete | confirmation | random =>
    exact ⟨_, (hadmitted h).imp fun _ hd => ⟨rfl, hd⟩⟩
  | _ => exact ⟨_, (honce h).imp fun _ hd => ⟨rfl, hd⟩⟩

section Cases

variable {e : SessionEvent × World}

/-- A PDU is requested of a session that is otherwise the same. -/
theorem renumbered_pbAdvSend {type : ProvType} (h : requested cfg s e = some type)
    (hbegins : ¬ Begins s e.1) (hnum : t.txTransNum = s.txTransNum)
    (hrole : t.dev.role = s.dev.role) (ho : .linkOpened ≤ t.dev.state) :
    Renumbered cfg s e (some (pbAdvSend t type)) := by
  rw [pbAdvSend_num, hrole, hnum]
  exact .numbered h hbegins ⟨rfl, rfl, rfl⟩ hrole rfl ho

/-- The timer has no PDU to send after the step. -/
theorem renumbered_settled (hnone : requested cfg s e = none) (hbegins : ¬ Begins s e.1)
    (hnum : t.txTransNum = s.txTransNum)
    (hopened : .linkOpened ≤ s.dev.state → .linkOpened ≤ t.dev.state) (hdelay : DelayOpened t)
    (hsends : ¬ SendsPdu t) : Renumbered cfg s e (some t) :=
  .kept hnone hbegins hnum hopened hdelay (fun h => absurd (.inl h) hsends)
    (fun h => absurd (.inr h) hsends) fun h => absurd h hsends

theorem renumbered_closing {reason : Byte} (hnone : requested cfg s e = none)
    (hbegins : ¬ Begins s e.1) (hnum : t.txTransNum = s.txTransNum) :
    Renumbered cfg s e (some (closing t reason)) :=
  renumbered_settled hnone hbegins hnum (fun _ => le_linkClosing _)
    (delayOpened_of_state (by simp [closing, startTimer])) (closing_not_sendsPdu t reason)

/-- The step leaves the timer and the state, and the role that the event does not set. -/
theorem renumbered_same (hnone : requested cfg s e = none) (hbegins : ¬ Begins s e.1)
    (hd : DelayOpened s) (hnum : t.txTransNum = s.txTransNum) (hon : t.timerOn = s.timerOn)
    (hstate : t.timerState = s.timerState) (htype : t.timerDelayType = s.timerDelayType)
    (hdev : t.dev.state = s.dev.state) (hrole : t.dev.role = roleAfter cfg s e.1) :
    Renumbered cfg s e (some t) := by
  refine .kept hnone hbegins hnum (hdev ▸ id) ?_ ?_ ?_ fun _ => hrole
  · rw [DelayOpened, hon, hstate, hdev]
    exact hd
  · rw [Waiting, hon, hstate, htype]
    exact id
  · rw [Repeating, hon, hstate, hdev]
    exact id

end Cases

theorem call_renumbered (hd : DelayOpened s) :
    Renumbered cfg s (.call c, w) (some (call cfg w.accepts s c).1) := by
  have hcases := call_cases cfg w.accepts s c
  have hrole := call_role cfg w.accepts s c
  by_cases hc : Sends s.dev.state c
  · obtain ⟨type, d, hpdu, hcall⟩ := @call_sends cfg w.accepts s c hc
    have ho := hcases.linkOpened_le (sends_opened hc)
    have hsame : roleAfter cfg s (.call c) = s.dev.role := by
      cases c with
      | setup => exact hc.elim
      | _ => rfl
    rw [hcall, pbAdvSend_num] at hrole ho
    rw [hcall]
    exact renumbered_pbAdvSend ((if_pos hc).trans hpdu) id rfl (hrole.trans hsame) ho
  · have hnone : requested cfg s (.call c, w) = none := if_neg hc
    generalize (call cfg w.accepts s c).1 = t at hcases hrole
    cases hcases with
    | kept hc d hstate => exact renumbered_same hnone id hd rfl rfl rfl rfl hstate hrole
    | opened hc hidle linkId =>
      refine .relinked (hidle ▸ by decide) id (not_sendsPdu_of_link rfl ?_)
        (delayOpened_of_state (by simp [opening, startTimer]))
      simp only [opening, startTimer]
      decide
    | closed hc ho reason => exact renumbered_closing hnone id rfl
    | sent hs => exact absurd hs hc

theorem recvLinkOpen_dev_of_opened {linkId : BitVec 32} (h : .linkOpened ≤ s.dev.state) :
    (recvLinkOpen cfg w s linkId).dev = some (again cfg w s) := by
  rcases h.lt_or_eq with hlt | heq
  · rw [recvLinkOpen_of_later hlt]
  · unfold recvLinkOpen
    dsimp only
    rw [setupDevice_state]
    split_ifs with hother hsame hlater
    · rfl
    · rfl
    · rfl
    all_goals exact absurd heq.symm hsame

theorem recvLinkOpen_renumbered {pdata devUuid : List Byte} {linkId : BitVec 32}
    (hp : parse pdata = .ok (.linkOpen linkId devUuid)) (htakes : takesOpen cfg s devUuid)
    (hd : DelayOpened s) :
    Renumbered cfg s (.recv pdata, w) (recvLinkOpen cfg w s linkId).dev := by
  have hrole : roleAfter cfg s (.recv pdata) = .device := by
    simp only [roleAfter, hp]
    exact if_pos htakes
  by_cases ho : .linkOpened ≤ s.dev.state
  · rw [recvLinkOpen_dev_of_opened ho]
    exact renumbered_same rfl id hd rfl rfl rfl rfl rfl hrole.symm
  · have hle : s.dev.state ≤ .linkOpening := by
      have hlt := not_le.mp ho
      revert hlt
      cases s.dev.state <;> decide
    have hsends := hd.not_sendsPdu hle
    have hcases := recvLinkOpen_cases cfg w s linkId devUuid
    generalize (recvLinkOpen cfg w s linkId).dev = o at hcases
    cases hcases with
    | kept => exact .relinked hle id hsends hd
    | restored linkId devUuid hopened => exact absurd hopened ho
    | unacked linkId devUuid hle' d hd' =>
      -- the timer is as it was, and had no PDU to send
      refine .relinked hle id ?_ fun hon ht => absurd (hd hon ht) ho
      rintro (hwait | ⟨-, -, hin, -⟩)
      · exact hsends (.inl hwait)
      · exact absurd (hd' ▸ hin) (by decide)
    | accepted linkId devUuid hle' d hd' =>
      exact .relinked hle id (not_sendsPdu_of_monitor rfl)
        (delayOpened_of_state (by simp [startTimer]))

theorem filled_renumbered {e : SessionEvent × World} {u : PbAdvDev} (h : Filled u t)
    (hnone : requested cfg s e = none) (hbegins : ¬ Begins s e.1) (hd : DelayOpened s)
    (hnum : u.txTransNum = s.txTransNum) (hon : u.timerOn = s.timerOn)
    (hstate : u.timerState = s.timerState) (htype : u.timerDelayType = s.timerDelayType)
    (hdev : u.dev = s.dev) (hrole : s.dev.role = roleAfter cfg s e.1)
    (ho : .linkOpened ≤ s.dev.state) : Renumbered cfg s e (some t) := by
  have hstate' : u.dev.state = s.dev.state := congrArg ProvDev.state hdev
  have hrole' : u.dev.role = roleAfter cfg s e.1 := (congrArg ProvDev.role hdev).trans hrole
  cases h with
  | waits | ignored => exact renumbered_same hnone hbegins hd hnum hon hstate htype hstate' hrole'
  | dropped => exact renumbered_same hnone hbegins hd hnum hon hstate htype hstate' hrole'
  | acking =>
    refine renumbered_settled hnone hbegins hnum (fun _ => hstate' ▸ ho)
      (fun _ _ => hstate' ▸ ho) ?_
    rintro (⟨-, -, ht⟩ | ⟨-, ht, -⟩) <;> simp [transAck, startDelay, startTimer] at ht

theorem recv_renumbered {pdata : List Byte} {out : Out} (hd : DelayOpened s)
    (h : recv cfg s w pdata = .ok out) : Renumbered cfg s (.recv pdata, w) out.dev := by
  have hsame (hrole : s.dev.role = roleAfter cfg s (.recv pdata)) :
      Renumbered cfg s (.recv pdata, w) (some s) :=
    renumbered_same rfl id hd rfl rfl rfl rfl rfl hrole
  unfold recv at h
  cases hp : parse pdata with
  | error ret =>
    rw [hp] at h
    cases h
    exact hsame (by simp only [roleAfter, hp])
  | ok pkt =>
  rw [hp] at h
  by_cases hopen : ∃ linkId devUuid, pkt = .linkOpen linkId devUuid
  · obtain ⟨linkId, devUuid, rfl⟩ := hopen
    dsimp only at h
    split_ifs at h with htakes
    · cases h
      exact recvLinkOpen_renumbered hp htakes hd
    · cases h
      refine hsame ?_
      simp only [roleAfter, hp]
      exact (if_neg htakes).symm
  · have hrole : s.dev.role = roleAfter cfg s (.recv pdata) := by
      simp only [roleAfter, hp]
      cases pkt with
      | linkOpen linkId devUuid => exact absurd ⟨_, _, rfl⟩ hopen
      | _ => rfl
    have hpkt : recvPkt cfg w s pkt = .ok out := by
      cases pkt with
      | linkOpen linkId devUuid => exact absurd ⟨_, _, rfl⟩ hopen
      | _ => exact h
    rcases recvPkt_cases cfg w s pkt with he | ⟨out', hout, hreceived⟩
    · rw [he] at hpkt
      cases hpkt
    obtain rfl := Except.ok.inj (hout.symm.trans hpkt)
    clear h hpkt hout
    generalize out'.dev = o at hreceived
    cases hreceived with
    | kept => exact hsame hrole
    | restored linkId devUuid | unacked linkId devUuid | accepted linkId devUuid =>
      exact absurd ⟨_, _, rfl⟩ hopen
    | established linkId hle =>
      exact renumbered_settled rfl id rfl (fun _ => le_rfl)
        (delayOpened_of_state (by simp [PbAdv.established, startTimer]))
        (not_sendsPdu_of_monitor rfl)
    | closed => exact .deleted rfl
    | monitored =>
      exact renumbered_settled rfl id rfl id
        (delayOpened_of_state (by simp [PbAdv.monitored, startTimer])) (not_sendsPdu_of_monitor rfl)
    | ended => exact renumbered_closing rfl id rfl
    | begun linkId fcs pdu hstarts => exact renumbered_same rfl id hd rfl rfl rfl rfl rfl hrole
    | started linkId fcs pdu hstarts hlen hin t ht =>
      exact filled_renumbered ht rfl id hd rfl rfl rfl rfl rfl hrole hstarts.opened
    | continued linkId pdu hcont hlen hin t ht =>
      exact filled_renumbered ht rfl id hd rfl rfl rfl rfl rfl hrole hcont.opened

theorem acked_txTransNum (w : World) (s : PbAdvDev) : (acked w s).txTransNum = s.txTransNum := by
  unfold acked
  dsimp only
  split_ifs <;> rfl

theorem handleTransAck_renumbered (hdue : AckDue s) (ho : .linkOpened ≤ s.dev.state) :
    Renumbered cfg s (.timeout, w) (some (handleTransAck cfg w s).1) := by
  have hbegins : ¬ Begins s .timeout := fun h =>
    absurd (hdue.2.2.symm.trans h.2.2) (by decide)
  have hreq : requested cfg s (.timeout, w) =
      if peerTransNum s.dev.role s.rxTransNum then
        answer cfg.prov s.dev s.provRxPdu (BitVec.ofNat 8 s.transDataLen) w.mallocOk
      else some .failed := if_pos hdue
  have hmonitor : (acked w s).timerState = .linkMonitor := by simp [acked, startTimer]
  unfold handleTransAck
  dsimp only
  by_cases hnum : peerTransNum s.dev.role s.rxTransNum = true
  · rw [if_pos hnum] at hreq ⊢
    have hcases := pduProcess_cases cfg.prov s.dev s.provRxPdu (BitVec.ofNat 8 s.transDataLen)
      w.mallocOk
    have hrole := @pduProcess_role cfg.prov s.dev s.provRxPdu (BitVec.ofNat 8 s.transDataLen)
      w.mallocOk
    simp only [process, acked_dev, acked_provRxPdu]
    cases hans : answer cfg.prov s.dev s.provRxPdu (BitVec.ofNat 8 s.transDataLen) w.mallocOk with
    | none =>
      rw [hans] at hreq hcases
      refine renumbered_settled hreq hbegins (acked_txTransNum w s) (fun _ => ?_)
        (delayOpened_of_state (by simp [hmonitor])) (not_sendsPdu_of_monitor hmonitor)
      cases hcases with
      | kept hs => exact hs ▸ ho
      | moved hle => exact ho.trans hle
      | failed hs => exact hs ▸ by decide
    | some type =>
      rw [hans] at hreq hcases
      exact renumbered_pbAdvSend hreq hbegins (acked_txTransNum w s) hrole
        (hcases.answered_state.1.trans' (by decide))
  · rw [if_neg hnum] at hreq ⊢
    have hstate : (acked w s).dev.state = s.dev.state := congrArg ProvDev.state (acked_dev w s)
    have hrole : (acked w s).dev.role = s.dev.role := congrArg ProvDev.role (acked_dev w s)
    exact @renumbered_pbAdvSend cfg s
      { acked w s with dev := { (acked w s).dev with errCode := 7 } } (.timeout, w) .failed
      hreq hbegins (acked_txTransNum w s) hrole (hstate ▸ ho)

theorem timeout_renumbered {o : Option PbAdvDev} {acts : List Act} (hd : DelayOpened s)
    (h : handleTimeout cfg w s = .ok (o, acts)) : Renumbered cfg s (.timeout, w) o := by
  by_cases hdue : AckDue s
  · have hack : handleTimeout cfg w s = _ := timeout_ackDue hdue
    rw [hack] at h
    cases h
    exact handleTransAck_renumbered hdue (hd hdue.1 hdue.2.1)
  have hnone : requested cfg s (.timeout, w) = none := if_neg hdue
  rcases handleTimeout_cases cfg w s with ⟨-, he⟩ | ⟨hfree, o', acts', he, htimed⟩
  · rw [he] at h
    cases h
  obtain ⟨rfl, rfl⟩ := Prod.mk.inj (Except.ok.inj (he.symm.trans h))
  have hrest (hstate : s.timerState ≠ .delay) : ¬ Begins s .timeout := fun h => hstate h.2.1
  cases htimed with
  | off hoff =>
    exact renumbered_same hnone (fun h => Bool.false_ne_true (hoff.symm.trans h.1)) hd
      rfl rfl rfl rfl rfl rfl
  | processed hon ht htype | badNum hon ht htype => exact absurd ⟨hon, ht, htype⟩ hdue
  | sent hon ht htype =>
    have hwait : Waiting s := ⟨hon, ht, htype⟩
    have hbegins : Begins s .timeout := hwait
    exact .begun hbegins hwait rfl rfl rfl (hd hon ht)
  | lost hon ht hle =>
    refine renumbered_settled hnone (hrest (by simp [ht])) rfl id (fun hon => by cases hon) ?_
    rintro (⟨hon, -⟩ | ⟨hon, -⟩) <;> cases hon
  | lossClosed hon ht => exact renumbered_closing hnone (hrest (by simp [ht])) rfl
  | retried hon ht =>
    exact renumbered_same hnone (hrest (by simp [ht])) hd rfl rfl rfl rfl rfl rfl
  | deleted => exact .deleted hnone
  | expired hon ht => exact renumbered_closing hnone (hrest (by simp [ht])) rfl

/-- Every step does one of these to the number of the session. -/
theorem sessionNext_renumbered {e : SessionEvent × World} {o : Option PbAdvDev}
    (hd : DelayOpened s) (h : sessionNext cfg (some s) e = .ok o) : Renumbered cfg s e o := by
  obtain ⟨e, w⟩ := e
  obtain ⟨out, hout, rfl⟩ := map_ok h
  cases e with
  | recv pdata =>
    obtain ⟨out', hrecv, rfl⟩ := map_ok hout
    exact recv_renumbered hd hrecv
  | call c =>
    cases hout
    exact call_renumbered hd
  | timeout => exact timeout_renumbered hd hout

end Steps

section Packets

variable {cfg : Config} {w : World} {s : PbAdvDev}

/-- The packet is a segment of a transaction. -/
def isSegment (pkt : List Byte) : Bool :=
  (byteAt pkt 5).extractLsb' 0 2 = 0 || (byteAt pkt 5).extractLsb' 0 2 = 2

/-- The numbers of the transactions whose segments are sent. -/
def transNums (acts : List Act) : List Byte :=
  acts.filterMap fun act =>
    match act with
    | .send pkt => if isSegment pkt then some (byteAt pkt 4) else none
    | _ => none

/-- The act sends a segment of no other transaction. -/
def OfNumber (nums : Byte → Prop) : Act → Prop
  | .send pkt => isSegment pkt = true → nums (byteAt pkt 4)
  | _ => True

theorem forall_transNums {nums : Byte → Prop} {acts : List Act} :
    (∀ num ∈ transNums acts, nums num) ↔ ∀ act ∈ acts, OfNumber nums act := by
  constructor
  · intro h act hact
    cases act with
    | send pkt => 
      intro hseg
      refine h _ (List.mem_filterMap.mpr ⟨_, hact, ?_⟩)
      exact if_pos hseg
    | _ => trivial
  · intro h num hnum
    obtain ⟨act, hact, hsome⟩ := List.mem_filterMap.mp hnum
    cases act with
    | send pkt =>
      have hof := h _ hact
      dsimp only at hsome
      split_ifs at hsome with hseg
      exact Option.some.inj hsome ▸ hof hseg
    | _ => cases hsome

theorem not_isSegment {pkt : List Byte} {format : BitVec 2} {content : BitVec 6}
    (h : byteAt pkt 5 = gpc format content) (hf : (format = 0 || format = 2) = false) :
    ¬ isSegment pkt = true := by
  rw [isSegment, h, gpc_format, hf]
  exact Bool.false_ne_true

theorem ofLink_ofNumber (nums : Byte → Prop) : OfLink (OfNumber nums) where
  linkOpen linkId devUuid h :=
    absurd h (@not_isSegment (linkOpenPkt linkId devUuid) 3 0 rfl (by decide))
  linkAck linkId h := absurd h (@not_isSegment (linkAckPkt linkId) 3 1 rfl (by decide))
  linkClose linkId reason h :=
    absurd h (@not_isSegment (linkClosePkt linkId reason) 3 2 rfl (by decide))
  recvProvPdu _ _ _ := trivial

theorem ofNumber_transAckPkt (nums : Byte → Prop) (linkId : BitVec 32) (num : Byte) :
    OfNumber nums (.send (transAckPkt linkId num)) :=
  fun h => absurd h (@not_isSegment (transAckPkt linkId num) 1 0 rfl (by decide))

theorem segPkt_transNum (linkId : BitVec 32) (num : Byte) (data : List Byte) (i : ℕ) :
    byteAt (segPkt linkId num data i) 4 = num := by
  unfold segPkt
  split_ifs <;> rfl

theorem ofTrans_ofNumber {nums : Byte → Prop} (h : nums s.txTransNum) :
    OfTrans (OfNumber nums) s := by
  intro data pkt hpkt hseg
  obtain ⟨i, -, rfl⟩ := mem_transPkts.mp hpkt
  rw [segPkt_transNum]
  exact h

/-- Only the timer sends segments, and those of the transaction of the session. -/
theorem sessionStep_transNums {e : SessionEvent} {o : Option PbAdvDev} {acts : List Act}
    {nums : Byte → Prop} (hnums : e = .timeout → SendsPdu s → nums s.txTransNum)
    (h : sessionStep cfg s w e = .ok (o, acts)) : ∀ num ∈ transNums acts, nums num := by
  have hlink := ofLink_ofNumber nums
  rw [forall_transNums]
  cases e with
  | recv pdata =>
    obtain ⟨out, hout, heq⟩ := map_ok h
    cases heq
    rcases recv_acts hlink hout with hall | ⟨-, rfl⟩
    · exact hall
    · exact all_send (ofNumber_transAckPkt _ _ _)
  | call c =>
    cases h
    exact all_call hlink cfg w.accepts s c
  | timeout =>
    by_cases hdue : AckDue s
    · rw [timeout_ackDue hdue] at h
      cases h
      have hack := @all_send _ w.accepts _ (ofNumber_transAckPkt nums s.linkId s.rxTransNum)
      unfold handleTransAck
      dsimp only
      split_ifs
      · exact List.forall_mem_append.mpr
          ⟨hack, fun act hact => List.mem_singleton.mp hact ▸ trivial⟩
      · exact hack
    · exact all_handleTimeout hlink (fun hs => ofTrans_ofNumber (hnums rfl hs)) hdue h

end Packets

section Runs

variable {cfg : Config} {w : World} {s t : PbAdvDev}

/-- A session with the number of the last transaction that it has begun, and how many PDUs have
been requested since. -/
structure Numbering where
  session : Option PbAdvDev
  last : Option Byte
  requests : ℕ

def Numbering.next (cfg : Config) (h : Numbering) (e : SessionEvent × World) :
    Except Fault Numbering :=
  match h.session with
  | none => .ok h
  | some s => (sessionNext cfg (some s) e).map fun o =>
    if Begins s e.1 then ⟨o, some s.txTransNum, 0⟩
    else ⟨o, h.last, h.requests + (requested cfg s e).toList.length⟩

/-- The segments of a step carry numbers of the role, which the peer admits: the number of a
transaction that is begun is not the last one, and a transaction that is repeated keeps its
number. -/
structure Numbered (last : Option Byte) (s : PbAdvDev) (e : SessionEvent) (acts : List Act) :
    Prop where
  own : ∀ num ∈ transNums acts, OwnTransNum s.dev.role num ∧
    peerTransNum (peerRole s.dev.role) num = true
  begun : Begins s e → last ≠ some s.txTransNum ∧ ∀ num ∈ transNums acts, num = s.txTransNum
  repeated : ¬ Begins s e → ∀ num ∈ transNums acts, last = some num

/-- What the session sends in the step is numbered so. -/
def KeepsNumbers (cfg : Config) (h : Numbering) (e : SessionEvent × World) : Prop :=
  ∀ s, h.session = some s → ∀ o acts, sessionStep cfg s e.2 e.1 = .ok (o, acts) →
    Numbered h.last s e.1 acts

/-- A PDU that is requested is numbered by a rule that fits, and is one of at most 127 since the
last transaction was begun. -/
def RequestFits (s : PbAdvDev) (last : Option Byte) (requests : ℕ) : Option ProvType → Prop
  | some type => RuleFits s.dev.role (numberedAs s.dev.role type) s.txTransNum ∧
    (last = none ∨ requests < 127)
  | none => True

/-- The PDU that is requested fits, and no role is set while a number is in use. -/
def Fits (cfg : Config) (h : Numbering) (e : SessionEvent × World) : Prop :=
  match h.session with
  | some s => RequestFits s h.last h.requests (requested cfg s e) ∧
    (SendsPdu s → roleAfter cfg s e.1 = s.dev.role)
  | none => True

instance (last : Option Byte) (requests : ℕ) (o : Option ProvType) :
    Decidable (RequestFits s last requests o) :=
  match o with
  | some _ => inferInstanceAs (Decidable (_ ∧ _))
  | none => isTrue trivial

instance (h : Numbering) (e : SessionEvent × World) : Decidable (Fits cfg h e) :=
  match h with
  | ⟨some _, _, _⟩ => inferInstanceAs (Decidable (_ ∧ _))
  | ⟨none, _, _⟩ => isTrue trivial

/-- The number of a session against those of the transactions it has begun. -/
structure SoundNum (s : PbAdvDev) (last : Option Byte) (requests : ℕ) : Prop where
  delay : DelayOpened s
  own : SendsPdu s → OwnTransNum s.dev.role s.txTransNum
  fresh : Waiting s → last ≠ some s.txTransNum
  repeated : Repeating s → last = some s.txTransNum
  begun : ∀ num, last = some num →
    .linkOpened ≤ s.dev.state ∧ 128 ≤ ahead num s.txTransNum + requests

def Numbering.Sound (h : Numbering) : Prop := ∀ s, h.session = some s → SoundNum s h.last h.requests

variable {e : SessionEvent × World} {last : Option Byte} {requests : ℕ}

theorem SoundNum.numbered (h : SoundNum s last requests) {type : ProvType} (hwait : Waiting t)
    (hrole : t.dev.role = s.dev.role) (ho : .linkOpened ≤ t.dev.state)
    (hnum : t.txTransNum = nextTransNum (numberedAs s.dev.role type) s.txTransNum)
    (hfits : RequestFits s last requests (some type)) : SoundNum t last (requests + 1) where
  delay _ _ := ho
  own _ := by
    rw [hrole, hnum]
    exact own_nextTransNum.mpr hfits.1
  fresh _ hlast := by
    have hahead := (h.begun _ hlast).2
    have hnear : 1 < ahead t.txTransNum s.txTransNum := by
      have hfew := hfits.2.resolve_left (by simp [hlast])
      omega
    exact (ahead_nextTransNum _ hnear).1 hnum.symm
  repeated hrep := absurd (hwait.2.1.symm.trans hrep.2.1) (by decide)
  begun num hlast := by
    have hahead := (h.begun num hlast).2
    have hfew := hfits.2.resolve_left (by simp [hlast])
    have hnext := (ahead_nextTransNum (numberedAs s.dev.role type)
      (show 1 < ahead num s.txTransNum by omega)).2
    rw [hnum]
    exact ⟨ho, by omega⟩

theorem SoundNum.begin (h : SoundNum s last requests) (hwait : Waiting s)
    (hstate : t.timerState = .retry) (hdev : t.dev = s.dev) (hnum : t.txTransNum = s.txTransNum)
    (ho : .linkOpened ≤ s.dev.state) : SoundNum t (some s.txTransNum) 0 where
  delay := delayOpened_of_state (by simp [hstate])
  own _ := by
    rw [hdev, hnum]
    exact h.own (.inl hwait)
  fresh hw := absurd (hstate.symm.trans hw.2.1) (by decide)
  repeated _ := congrArg some hnum.symm
  begun num hlast := by
    rw [hdev, hnum, Option.some.inj hlast, ahead_self]
    exact ⟨ho, le_rfl⟩

theorem SoundNum.relinked (h : SoundNum s last requests) (hs : s.dev.state ≤ .linkOpening)
    (hsends : ¬ SendsPdu t) (hdelay : DelayOpened t) (n : ℕ) : SoundNum t last n where
  delay := hdelay
  own hp := absurd hp hsends
  fresh hw := absurd (.inl hw) hsends
  repeated hr := absurd (.inr hr) hsends
  begun num hlast := absurd ((h.begun num hlast).1.trans hs) (by decide)

theorem SoundNum.kept (h : SoundNum s last requests) (hnum : t.txTransNum = s.txTransNum)
    (hopened : .linkOpened ≤ s.dev.state → .linkOpened ≤ t.dev.state) (hdelay : DelayOpened t)
    (hwait : Waiting t → Waiting s) (hrep : Repeating t → Repeating s)
    (hrole : SendsPdu s → SendsPdu t → t.dev.role = s.dev.role) : SoundNum t last requests where
  delay := hdelay
  own hp := by
    have hs : SendsPdu s := hp.imp hwait hrep
    rw [hrole hs hp, hnum]
    exact h.own hs
  fresh hw := hnum ▸ h.fresh (hwait hw)
  repeated hr := hnum ▸ h.repeated (hrep hr)
  begun num hlast := by
    rw [hnum]
    exact ⟨hopened (h.begun num hlast).1, (h.begun num hlast).2⟩

theorem Numbering.Sound.next {h h' : Numbering} (hs : h.Sound) (hfits : Fits cfg h e)
    (hnext : h.next cfg e = .ok h') : h'.Sound := by
  obtain ⟨o, last, requests⟩ := h
  cases o with
  | none =>
    cases hnext
    exact hs
  | some s =>
  have hsound : SoundNum s last requests := hs s rfl
  obtain ⟨hreq, hrole⟩ := hfits
  obtain ⟨o, ho, rfl⟩ := map_ok hnext
  intro t ht
  have hmoved := sessionNext_renumbered hsound.delay ho
  by_cases hbegins : Begins s e.1
  · rw [if_pos hbegins] at ht ⊢
    obtain rfl : o = some t := ht
    cases hmoved with
    | numbered _ hno | relinked _ hno | kept _ hno => exact absurd hbegins hno
    | begun _ hwait hstate hdev hnum ho => exact hsound.begin hwait hstate hdev hnum ho
  · rw [if_neg hbegins] at ht ⊢
    obtain rfl : o = some t := ht
    cases hmoved with
    | numbered htype _ hwait hsame hnum ho =>
      rw [htype] at hreq ⊢
      exact hsound.numbered hwait hsame ho hnum hreq
    | begun hyes => exact absurd hyes hbegins
    | relinked hle _ hsends hdelay => exact hsound.relinked hle hsends hdelay _
    | kept hnone _ hnum hopened hdelay hwait hrep hafter =>
      rw [hnone]
      exact hsound.kept hnum hopened hdelay hwait hrep fun hp hp' => (hafter hp').trans (hrole hp)

theorem Numbering.Sound.keepsNumbers {h : Numbering} (hs : h.Sound) (e : SessionEvent × World) :
    KeepsNumbers cfg h e := by
  intro s hsession o acts hstep
  have hsound := hs s hsession
  refine ⟨sessionStep_transNums (fun _ hp => ?_) hstep, fun hbegins => ?_, fun hno => ?_⟩
  · exact ⟨hsound.own hp, peerTransNum_peerRole.mpr (hsound.own hp)⟩
  · have hwait : Waiting s := by
      cases he : e.1 with
      | timeout => rwa [he] at hbegins
      | _ => simp [he, Begins] at hbegins
    exact ⟨hsound.fresh hwait, sessionStep_transNums (fun _ _ => rfl) hstep⟩
  · refine sessionStep_transNums (fun he hp => ?_) hstep
    rw [he] at hno
    exact hsound.repeated (hp.resolve_left hno)

theorem init_sound (devUuid : List Byte) (role : Role) :
    (⟨some (clearedSession devUuid role), none, 0⟩ : Numbering).Sound := by
  intro s hs
  obtain rfl := Option.some.inj hs
  have hidle : ¬ SendsPdu (clearedSession devUuid role) := by
    rintro (⟨hon, -⟩ | ⟨hon, -⟩) <;> cases hon
  exact
    { delay := fun hon => absurd hon Bool.false_ne_true
      own := fun hp => absurd hp hidle
      fresh := fun hw => absurd (.inl hw) hidle
      repeated := fun hr => absurd (.inr hr) hidle
      begun := fun _ hlast => by cases hlast }

/-- In a run all of whose requests fit, every transaction has a number of the role that is not
the number of the one before it. -/
theorem transNums_kept (cfg : Config) (devUuid : List Byte) (role : Role)
    (es : List (SessionEvent × World))
    (h : RunAll (Numbering.next cfg) (Fits cfg) ⟨some (clearedSession devUuid role), none, 0⟩ es) :
    RunAll (Numbering.next cfg) (KeepsNumbers cfg)
      ⟨some (clearedSession devUuid role), none, 0⟩ es :=
  h.imp_of_invariant (fun _ _ _ hs hfits hnext => hs.next hfits hnext)
    (fun _ e hs _ => hs.keepsNumbers e) (init_sound devUuid role)

/-- A provisioner invites a device, sends the invitation again and gets its ack. -/
def inviting : List (SessionEvent × World) :=
  [(.call (.linkOpen 7), plainWorld), (.recv (linkAckPkt 7), plainWorld),
    (.call (.invite 5), plainWorld), (.timeout, plainWorld), (.timeout, plainWorld),
    (.recv (transAckPkt 7 0), plainWorld)]

theorem transNums_kept_inviting :
    RunAll (Numbering.next plainConfig) (KeepsNumbers plainConfig)
      ⟨some (clearedSession (List.replicate 16 2) .provisioner), none, 0⟩ inviting :=
  transNums_kept plainConfig (List.replicate 16 2) .provisioner inviting (by decide +kernel)

/-- A device sends a PDU to its provisioner, and then one more with a number of the provisioner. -/
def misnumbering : List (SessionEvent × World) :=
  [(.call (.linkOpen 7), plainWorld), (.recv (linkAckPkt 7), plainWorld),
    (.recv (transStartPkt 7 0x80 0 2 (crc [0, 5]) [0, 5]), plainWorld), (.timeout, plainWorld),
    (.recv (transStartPkt 7 5 0 2 (crc [0, 5]) [0, 5]), plainWorld), (.timeout, plainWorld)]

/-- The provisioner then sends its invitation with a number of a device. -/
theorem transNums_lost : ¬ ∀ (cfg : Config) (devUuid : List Byte) (role : Role)
    (es : List (SessionEvent × World)), RunAll (Numbering.next cfg) (KeepsNumbers cfg)
      ⟨some (clearedSession devUuid role), none, 0⟩ es := by
  intro h
  obtain ⟨n, hrun, hn⟩ : ∃ n,
      run (Numbering.next plainConfig)
        ⟨some (clearedSession (List.replicate 16 2) .provisioner), none, 0⟩ misnumbering = .ok n ∧
      n.session.map (fun s => (s.dev.role,
        (sessionStep plainConfig s plainWorld .timeout).toOption.map fun r => transNums r.2)) =
        some (.provisioner, some [0x80]) := observe (by decide +kernel)
  have hkeeps := (h plainConfig (List.replicate 16 2) .provisioner
    (misnumbering ++ [(.timeout, plainWorld)])).last hrun
  obtain ⟨o, last, requests⟩ := n
  cases o with
  | none => simp at hn
  | some s =>
  obtain ⟨hrole, hnums⟩ : s.dev.role = .provisioner ∧
      (sessionStep plainConfig s plainWorld .timeout).toOption.map (fun r => transNums r.2) =
        some [0x80] := by simpa using hn
  obtain ⟨⟨o', acts⟩, hstep, hacts⟩ := observe hnums
  have hown := ((hkeeps s rfl o' acts hstep).own 0x80 (by simp [hacts])).1
  rw [hrole] at hown
  exact absurd hown (by decide)

end Runs

end Meshx.PbAdv
