import Meshx.Beacon
import Meshx.Net
import Meshx.Prov
import Meshx.Lib.Run

/-! The one timer behind both kinds of beacons, over runs in which provisioning links open and
close. -/
namespace Meshx.Beacon

open Lib Net Prov

/-- The timer while it runs, with the bearer it sends on. -/
structure BeaconTimer where
  bearer : BearerType
  interval : BitVec 32
  deriving DecidableEq, Repr

/-- `beacon_timer` and the parameters of the node that are looked at. -/
structure Beaconing where
  nodeAddr : BitVec 16
  udbInterval : BitVec 32
  timer : Option BeaconTimer
  deriving DecidableEq, Repr

inductive BeaconType
  | udb
  | snb
  deriving DecidableEq, Repr

/-- `meshx_beacon_start`: why it does not start. -/
def startRefused (s : Beaconing) (bearer : Option BearerType) (type : BeaconType) :
    Option Errno :=
  if bearer ≠ some .adv then some .inval
  else match type with
    | .udb => if s.nodeAddr ≠ 0 then some .state else none
    | .snb => if s.nodeAddr = 0 then some .state else none

/-- `meshx_beacon_start`. A timer that runs already keeps its bearer; `created` is the answer of
`meshx_timer_create`. -/
def beaconStart (s : Beaconing) (bearer : Option BearerType) (type : BeaconType)
    (interval : BitVec 32) (created : Errno) : Errno × Beaconing :=
  match startRefused s bearer type with
  | some ret => (ret, s)
  | none =>
    match s.timer with
    | some timer => (.success, { s with timer := some { timer with interval := interval } })
    | none =>
      if created = .success then (.success, { s with timer := some ⟨.adv, interval⟩ })
      else (created, s)

/-- `meshx_beacon_stop`, whatever the type. -/
def beaconStop (s : Beaconing) (_ : BeaconType) : Beaconing := { s with timer := none }

/-- What `meshx_beacon_async_handle_timeout` sends when the timer expires. -/
def Beaconing.sends (s : Beaconing) : Option BeaconType :=
  s.timer.map fun _ => if s.nodeAddr = 0 then .udb else .snb

inductive LinkOpenResult
  | success
  | timeout
  deriving DecidableEq, Repr

/-- The notifications that `meshx_prov_handle_notify` looks into; the others are passed on. -/
inductive ProvNotify
  | linkOpen (result : LinkOpenResult)
  | linkClose (reason : Byte)
  | transAck (state : ProvState)
  | other
  deriving DecidableEq, Repr

/-- What `meshx_prov_handle_notify` does: the beacons, the reason it closes the link with, and
whether it deletes the session. -/
structure NotifyOut where
  node : Beaconing
  linkClose : Option Byte
  deleteDevice : Bool

/-- `meshx_prov_handle_notify` for a session of either role. -/
def provHandleNotify (s : Beaconing) (bearer : BearerType) (created : Errno) :
    ProvNotify → NotifyOut
  | .linkOpen .success => ⟨beaconStop s .udb, none, false⟩
  | .linkOpen .timeout => ⟨s, none, true⟩
  | .linkClose _ =>
    -- the start for a node without an address is commented out
    if s.nodeAddr = 0 then ⟨s, none, true⟩
    else ⟨(beaconStart s (some bearer) .udb (s.udbInterval / 100) created).2, none, true⟩
  | .transAck state =>
    if bearer = .adv then
      match state with
      | .complete => ⟨s, some 0, false⟩
      | .failed => ⟨s, some 2, false⟩
      | _ => ⟨s, none, false⟩
    else ⟨s, none, false⟩
  | .other => ⟨s, none, false⟩

inductive BeaconEvent
  | notify (bearer : BearerType) (created : Errno) (n : ProvNotify)
  | paramSet (addr : BitVec 16)
  | start (bearer : Option BearerType) (type : BeaconType) (interval : BitVec 32) (created : Errno)
  | stop (type : BeaconType)
  deriving DecidableEq, Repr

def beaconNext (s : Beaconing) : BeaconEvent → Beaconing
  | .notify bearer created n => (provHandleNotify s bearer created n).node
  | .paramSet addr => if addressIsUnicast addr then { s with nodeAddr := addr } else s
  | .start bearer type interval created => (beaconStart s bearer type interval created).2
  | .stop type => beaconStop s type

def beaconStep (s : Beaconing) (e : BeaconEvent) : Except Fault Beaconing := .ok (beaconNext s e)

/-- A link that opens stops no beacons but those of an unprovisioned device, and when a link has
closed on a node without an address these are sent. -/
def Survives (s : Beaconing) : BeaconEvent → Prop
  | .notify bearer created (.linkOpen result) =>
    let s' := beaconNext s (.notify bearer created (.linkOpen result))
    s.timer.isSome → s'.timer = none → s.sends = some .udb
  | .notify bearer created (.linkClose reason) =>
    let s' := beaconNext s (.notify bearer created (.linkClose reason))
    s'.nodeAddr = 0 → s'.sends = some .udb
  | _ => True

/-- A link opens while no beacons are sent or the node has no address; a link closes while
beacons are sent or the node has an address. -/
def Undisturbed (s : Beaconing) : BeaconEvent → Prop
  | .notify _ _ (.linkOpen .success) => s.timer = none ∨ s.nodeAddr = 0
  | .notify _ _ (.linkClose _) => s.timer.isSome ∨ s.nodeAddr ≠ 0
  | _ => True

variable {s : Beaconing} {bearer : BearerType} {created : Errno}

theorem sends_udb_iff : s.sends = some .udb ↔ s.timer.isSome ∧ s.nodeAddr = 0 := by
  rw [Beaconing.sends]
  cases s.timer with
  | none => simp
  | some timer => by_cases h : s.nodeAddr = 0 <;> simp [h]

/-- A link that closes does nothing to the beacons: they are not started without an address, and
with one the start is refused. -/
theorem linkClose_same (reason : Byte) :
    (provHandleNotify s bearer created (.linkClose reason)).node = s := by
  rw [provHandleNotify]
  by_cases haddr : s.nodeAddr = 0
  · rw [if_pos haddr]
  · rw [if_neg haddr, beaconStart]
    have href : ∃ ret, startRefused s (some bearer) .udb = some ret := by
      by_cases hb : some bearer ≠ some .adv
      · exact ⟨_, by rw [startRefused, if_pos hb]⟩
      · exact ⟨_, by simp only [startRefused, if_neg hb, if_pos haddr]; rfl⟩
    obtain ⟨ret, href⟩ := href
    rw [href]

theorem survives_iff (s : Beaconing) (e : BeaconEvent) : Survives s e ↔ Undisturbed s e := by
  cases e with
  | notify bearer created n =>
    cases n with
    | linkOpen result =>
      cases result with
      | success =>
        simp only [Survives, Undisturbed, beaconNext, provHandleNotify, beaconStop, sends_udb_iff]
        cases s.timer <;> simp
      | timeout =>
        simp only [Survives, Undisturbed, beaconNext, provHandleNotify]
        cases s.timer <;> simp
    | linkClose reason =>
      simp only [Survives, Undisturbed, beaconNext, linkClose_same, sends_udb_iff]
      tauto
    | transAck state => exact Iff.rfl
    | other => exact Iff.rfl
  | paramSet addr => exact Iff.rfl
  | start bearer type interval created => exact Iff.rfl
  | stop type => exact Iff.rfl

/-- Beaconing survives in exactly the runs in which no link opens on a provisioned node that
sends beacons, and none closes on an unprovisioned one that does not. -/
theorem beaconing_survives (s : Beaconing) (es : List BeaconEvent) :
    RunAll beaconStep Survives s es ↔ RunAll beaconStep Undisturbed s es :=
  RunAll.congr survives_iff

/-- One link that opens and closes ends the beacons of an unprovisioned device. -/
theorem beaconing_ends : ¬RunAll beaconStep Survives ⟨0, 5000, some ⟨.adv, 5000⟩⟩
    [.notify .adv .success (.linkOpen .success), .notify .adv .success (.linkClose 2)] := by
  intro h
  have hclose := (h.2 _ rfl).1 rfl
  exact absurd hclose (by decide)

end Meshx.Beacon
