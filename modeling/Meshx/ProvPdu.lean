import Meshx.Prov

/-! The provisioning PDUs that a session sends, as `pb_adv_invite` to `pb_adv_failed` put them
together, and the fields that the receiving side reads back from them. -/
namespace Meshx.Prov

open Lib

def ProvType.code : ProvType → Byte
  | .invite => 0x00
  | .capabilites => 0x01
  | .start => 0x02
  | .publicKey => 0x03
  | .inputComplete => 0x04
  | .confirmation => 0x05
  | .random => 0x06
  | .data => 0x07
  | .complete => 0x08
  | .failed => 0x09

@[simp] theorem ofByte_code (type : ProvType) : ProvType.ofByte type.code = some type := by
  cases type <;> decide

/-- `meshx_prov_pdu_t`: the type with its padding, then the field of that type. -/
def provPdu (type : ProvType) (body : List Byte) : List Byte := type.code :: body

def invitePdu (value : Byte) : List Byte := provPdu .invite [value]

def capabilitesPdu (cap : ProvCapabilites) : List Byte := provPdu .capabilites cap.bytes

def startPdu (value : ProvStart) : List Byte := provPdu .start value.bytes

def publicKeyPdu (key : List Byte) : List Byte := provPdu .publicKey key

def inputCompletePdu : List Byte := provPdu .inputComplete []

def confirmationPdu (value : List Byte) : List Byte := provPdu .confirmation value

def randomPdu (value : List Byte) : List Byte := provPdu .random value

def provDataPdu (text mic : List Byte) : List Byte := provPdu .data (text ++ mic)

def completePdu : List Byte := provPdu .complete []

def failedPdu (errCode : Byte) : List Byte := provPdu .failed [errCode]

/-- The PDU that the timer sends in the state of the session, if its switch has a case. -/
def statePdu (dev : ProvDev) : Option (List Byte) :=
  match dev.state with
  | .invite => some (invitePdu dev.invite)
  | .capabilites => some (capabilitesPdu dev.capabilites)
  | .start => some (startPdu dev.start)
  | .publicKey => some (publicKeyPdu dev.publicKey)
  | .inputComplete => some inputCompletePdu
  | .confirmation => some (confirmationPdu dev.confirmation)
  | .random => some (randomPdu dev.random)
  | .data => some (provDataPdu dev.data dev.mic)
  | .complete => some completePdu
  | .failed => some (failedPdu dev.errCode)
  | .idle | .linkOpening | .linkOpened | .linkClosing => none

/-- The switch has a case from the invitation to the failure. -/
theorem statePdu_isSome (dev : ProvDev) :
    (statePdu dev).isSome ↔ .invite ≤ dev.state ∧ dev.state ≤ .failed := by
  unfold statePdu
  cases dev.state <;> simp <;> decide

theorem field_provPdu {type : ProvType} {body : List Byte} (h : body.length = type.size) :
    field (provPdu type body) type = body := by
  simp [field, provPdu, ← h]

theorem ProvCapabilites.ofBytes_bytes (c : ProvCapabilites) :
    ProvCapabilites.ofBytes c.bytes = c := by
  obtain ⟨nums, alg, keyType, oobType, outSize, outAct, inSize, inAct⟩ := c
  have halg := readBe16_be16 alg ([keyType, oobType, outSize] ++ be16 outAct ++ [inSize] ++
    be16 inAct)
  have hout := readBe16_be16 outAct ([inSize] ++ be16 inAct)
  have hin := readBe16_be16 inAct []
  simp only [ofBytes, bytes, mk.injEq]
  exact ⟨rfl, halg, rfl, rfl, rfl, hout, rfl, hin⟩

theorem ProvStart.ofBytes_bytes (s : ProvStart) : ProvStart.ofBytes s.bytes = s := rfl

/-- The provisioning data as the application is notified of it. -/
def ProvData.ofBytes (xs : List Byte) : ProvData :=
  ⟨xs.take 16, readBe16 (xs.drop 16), byteAt xs 18, readBe32 (xs.drop 19),
    readBe16 (xs.drop 23)⟩

theorem ProvData.bytes_length {d : ProvData} (h : d.netKey.length = 16) :
    d.bytes.length = 25 := by
  simp [bytes, h]

theorem ProvData.ofBytes_bytes {d : ProvData} (h : d.netKey.length = 16) :
    ProvData.ofBytes d.bytes = d := by
  obtain ⟨key, index, flags, iv, addr⟩ := d
  have hrest (n : ℕ) : (ProvData.bytes ⟨key, index, flags, iv, addr⟩).drop (16 + n) =
      (be16 index ++ ([flags] ++ (be32 iv ++ be16 addr))).drop n := by
    simp only [bytes, List.append_assoc]
    rw [← List.drop_drop, List.drop_left' h]
  have hkey : (ProvData.bytes ⟨key, index, flags, iv, addr⟩).take 16 = key := by
    simp only [bytes, List.append_assoc]
    exact List.take_left' h
  have hflags : byteAt (ProvData.bytes ⟨key, index, flags, iv, addr⟩) 18 = flags := by
    have h18 := congrArg List.head? (hrest 2)
    simp only [List.head?_drop] at h18
    simp only [byteAt, List.getD_eq_getElem?_getD, h18]
    rfl
  simp only [ofBytes, mk.injEq]
  refine ⟨hkey, ?_, hflags, ?_, ?_⟩
  · rw [hrest 0]
    exact readBe16_be16 index _
  · rw [hrest 3]
    exact readBe32_be32 iv (be16 addr)
  · rw [hrest 7]
    exact readBe16_be16 addr []

end Meshx.Prov
