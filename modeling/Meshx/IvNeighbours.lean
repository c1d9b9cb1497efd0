import Meshx.IvIndex
import Meshx.NetRoundTrip
import Meshx.Lib.Run

/-! Nodes one step of an IV update apart: the IVI bit of the sender's PDU leads the receiver to
the IV index the sender used. -/
namespace Meshx.IvIndex

open Lib Security Net

/-- Where a node is in the IV update from index `n` on: `(n, in progress)`, `(n, normal)` or
`(n + 1, in progress)`. -/
inductive IvStage
  | updating
  | updated
  | next
  deriving DecidableEq

def IvStage.rank : IvStage → ℕ
  | .updating => 0
  | .updated => 1
  | .next => 2

def IvStage.at (n : BitVec 32) : IvStage → BitVec 32 × IvState
  | .updating => (n, .inProgress)
  | .updated => (n, .normal)
  | .next => (n + 1, .inProgress)

def IvStage.Near (i j : IvStage) : Prop := i.rank ≤ j.rank + 1 ∧ j.rank ≤ i.rank + 1

instance (i j : IvStage) : Decidable (i.Near j) := inferInstanceAs (Decidable (_ ∧ _))

/-- The head byte of a sent PDU carries the lowest bit of the IV index. -/
theorem netPack_ivi {c : Crypto} {kv : NetKeyValue} {ctx : MsgCtx} {transPdu bytes : List Byte}
    (h : netPack c kv ctx transPdu = .ok bytes) (misc : List Byte) :
    (NetPdu.copy bytes misc).ivi = ctx.ivIndex.getLsbD 0 := by
  obtain ⟨p, hp, hret⟩ := bind_ok h
  cases hret
  have hhead : p.head = (plainPdu kv ctx transPdu).head := by
    rw [netEncrypt, writeBody] at hp
    split_ifs at hp
    cases hp
    rfl
  have hcopy : (NetPdu.copy ((netObfuscation c p ctx.ivIndex kv).bytes.take
      (9 + transPdu.length + micLen ctx.ctl)) misc).head = p.head := by
    rw [show 9 + transPdu.length + micLen ctx.ctl = (8 + transPdu.length + micLen ctx.ctl) + 1 by
      omega]
    rfl
  rw [NetPdu.ivi, hcopy, hhead]
  exact head_ivi _ _

/-- The receiver's IV index is the one the sender uses or the next one. -/
theorem near_ivIndex {n : BitVec 32} {i j : IvStage} (h : i.Near j) {a b : Iv}
    (ha : (a.ivIndex, a.state) = i.at n) (hb : (b.ivIndex, b.state) = j.at n) :
    b.ivIndex = ivIndexTxGet a ∨ b.ivIndex = ivIndexTxGet a + 1 := by
  have hback : n - 1 + 1 = n := BitVec.sub_add_cancel n 1
  have hforth : n + 1 - 1 = n := BitVec.add_sub_cancel n 1
  cases i <;> cases j <;> obtain ⟨hai, has⟩ := Prod.mk.inj ha <;>
    obtain ⟨hbi, -⟩ := Prod.mk.inj hb <;> simp only [ivIndexTxGet, hai, has, hbi, hback, hforth]
  · exact .inr trivial
  · exact .inr trivial
  · exact absurd h (by decide)
  · exact .inl trivial
  · exact .inl trivial
  · exact .inr trivial
  · exact absurd h (by decide)
  · exact .inl trivial
  · exact .inr trivial

/-- Between nodes at equal or adjacent stages the receiver selects the IV index the sender
used. -/
theorem rxIvIndex_neighbour {n : BitVec 32} {i j : IvStage} (h : i.Near j) {a b : Iv}
    (ha : (a.ivIndex, a.state) = i.at n) (hb : (b.ivIndex, b.state) = j.at n)
    {c : Crypto} {kv : NetKeyValue} {ctx : MsgCtx} {transPdu bytes : List Byte}
    (hctx : ctx.ivIndex = ivIndexTxGet a) (hsend : netPack c kv ctx transPdu = .ok bytes)
    (misc : List Byte) :
    rxIvIndex b.ivIndex (NetPdu.copy bytes misc).ivi = ivIndexTxGet a := by
  rw [netPack_ivi hsend, hctx]
  exact rxIvIndex_of_near (near_ivIndex h ha hb)

theorem rxIvIndex_neighbour_example : ∃ bytes,
    netPack maskCrypto (keyValueOf 5 (List.replicate 16 3))
      { MsgCtx.zero with src := 1, dst := 2, ivIndex := 5 } [0x10, 0x20] = .ok bytes ∧
    rxIvIndex 6 (NetPdu.copy bytes []).ivi = 5 := by
  obtain ⟨bytes, hbytes, -⟩ : ∃ bytes, netPack maskCrypto (keyValueOf 5 (List.replicate 16 3))
      { MsgCtx.zero with src := 1, dst := 2, ivIndex := 5 } [0x10, 0x20] = .ok bytes ∧
        bytes.length = 15 := observe (by decide +kernel)
  have hnear : IvStage.updated.Near .next := by decide
  exact ⟨bytes, hbytes, @rxIvIndex_neighbour 5 .updated .next hnear (.init 5)
    { Iv.init 6 with state := .inProgress } rfl rfl _ _ _ _ _ rfl hbytes []⟩

end Meshx.IvIndex
