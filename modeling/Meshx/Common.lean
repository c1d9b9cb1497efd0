import Meshx.AesCcm

/-! Types shared by the layers of the mesh stack: error codes, addresses, network key
values and the message context handed from layer to layer. -/
namespace Meshx

open Lib

/-- The return codes the modelled functions use. -/
inductive Errno
  | success
  | fail
  | mem
  | inval
  | state
  | invalNetIface
  | busy
  | already
  | length
  | max
  | connect
  | filter
  | stop
  | resource
  | timing
  | notFound
  | key
  | diff
  deriving DecidableEq, Repr

/-- Why an execution leaves the defined behaviour of the C program. -/
inductive Fault
  | nullDeref
  | badRead
  | badWrite
  | assertFailed
  | useAfterFree
  | hang
  deriving DecidableEq, Repr

abbrev Key := List Byte

/-- `meshx_net_key_value_t`. `meshx_k2` masks the NID to seven bits. -/
structure NetKeyValue where
  netKey : Key
  identityKey : Key
  beaconKey : Key
  nid : BitVec 7
  encryptionKey : Key
  privacyKey : Key
  netId : List Byte
  deriving DecidableEq, Repr

inductive KeyState
  | normal
  | phase1
  | phase2
  deriving DecidableEq, Repr

/-- `meshx_net_key_t`: the two slots of `key_value`. -/
structure NetKey where
  keyState : KeyState
  keyIndex : BitVec 16
  keyValue0 : NetKeyValue
  keyValue1 : NetKeyValue
  deriving DecidableEq, Repr

/-- `meshx_msg_ctx_t`. The access fields `akf`, `szmic`, `aid` and the control field
`opcode` share one byte, `papp_key` and `pdev_key` one pointer. -/
structure MsgCtx where
  src : BitVec 16
  dst : BitVec 16
  ttl : BitVec 7
  ctl : Bool
  seq : BitVec 24
  ivIndex : BitVec 32
  seqAuth : BitVec 24
  seg : Bool
  pnetKey : Option NetKeyValue
  netIface : Option ℕ
  info : Byte
  pkey : Option Key
  deriving DecidableEq, Repr

namespace MsgCtx

/-- The context after `memset(&msg_ctx, 0, sizeof(msg_ctx))`. -/
def zero : MsgCtx :=
  ⟨0, 0, 0, false, 0, 0, 0, false, none, none, 0, none⟩

def akf (ctx : MsgCtx) : Bool := ctx.info.getLsbD 0

def szmic (ctx : MsgCtx) : Bool := ctx.info.getLsbD 1

def aid (ctx : MsgCtx) : BitVec 6 := ctx.info.extractLsb' 2 6

def opcode (ctx : MsgCtx) : Byte := ctx.info

/-- The byte that holds the three access fields. -/
def accessInfo (akf szmic : Bool) (aid : BitVec 6) : Byte :=
  aid ++ BitVec.ofBool szmic ++ BitVec.ofBool akf

end MsgCtx

def addressIsUnicast (address : BitVec 16) : Bool := !address.msb && address != 0

def addressIsRfu (address : BitVec 16) : Bool := 0xFF00#16 ≤ address && address ≤ 0xFFFB#16

def addressIsValid (address : BitVec 16) : Bool := address != 0 && !addressIsRfu address

end Meshx
