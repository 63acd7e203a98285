import Esp32AtMqtt.Gsm.Command
import Esp32AtMqtt.Gsm.SubscribeSent

/-!
# The packet that logs in

`OneNet_PackConnetData` builds a `CONNECT` packet in the buffer of its caller: twelve fixed bytes,
then the device id, the product id and the secret with their lengths in front. The fixed bytes are
stored without a look at the length of the buffer, and the test in front of the device id is made
with the length 0. The other two tests are right. So the buffer is respected exactly when it ends
behind the fixed bytes, or when it has room for the device id too (`packs_iff`).
-/

namespace Gsm

open AtCmd (cString)
open ControlPacket
open Thread (bytes cString_not_mem)

/-- A field `char[20]` with a string in it. -/
structure TextField where
  content : List UInt8
  size : content.length = 20
  terminated : 0 ∈ content

/-- What `OneNet_PackConnetData` reads of `OneNetDevie`. -/
structure StOneNetDevice where
  oneNetDeviceID : TextField
  oneNetProductID : TextField
  cecretCode : TextField

/-- What a call leaves in the buffer, from its first byte to the last one stored, and the result. -/
structure Packed where
  dataBuf : List UInt8
  result : ℤ
  deriving DecidableEq, Repr

namespace TextField

variable (field : TextField)

def text : List UInt8 := cString field.content

/-- `rt_strlen` of the field. -/
def strlen : UInt16 := UInt16.ofNat field.text.length

/-- The two bytes of `Len` and what `memcpy` copies. -/
def packed : List UInt8 :=
  [(field.strlen >>> 8 &&& 0x00ff).toUInt8, (field.strlen &&& 0x00ff).toUInt8] ++
    field.content.take field.strlen.toNat

end TextField

/-- The twelve fixed bytes. -/
def connectHeader (keepTime : UInt16) : List UInt8 :=
  let fixed : List UInt8 := [0x10, 0x00, 0x00, 0x04] ++ bytes "MQTT" ++ [0x04, 0xC2]
  fixed ++ [(keepTime >>> 8 &&& 0x00ff).toUInt8, (keepTime &&& 0x00ff).toUInt8]

/-- One field behind what is stored, after the test with `len`; the error is what is stored when
the function returns -1. -/
def packField (dataBufLen len : UInt16) (field : TextField) (dataBuf : List UInt8) :
    Except (List UInt8) (List UInt8) :=
  if dataBuf.length + 2 + len.toNat > dataBufLen.toNat then .error dataBuf
  else .ok (dataBuf ++ field.packed)

/-- The fields; `Index` is the length of what is stored. -/
def packFields (device : StOneNetDevice) (keepTime dataBufLen : UInt16) :
    Except (List UInt8) (List UInt8) := do
  -- `Len` is still 0 at the first test.
  let dataBuf ← packField dataBufLen 0 device.oneNetDeviceID (connectHeader keepTime)
  let dataBuf ← packField dataBufLen device.oneNetProductID.strlen device.oneNetProductID dataBuf
  packField dataBufLen device.cecretCode.strlen device.cecretCode dataBuf

/-- `OneNet_PackConnetData(ProtocolName, KeepTime, DataBuf, DataBufLen)`, which does not look at
`ProtocolName`. -/
def oneNetPackConnetData (device : StOneNetDevice) (keepTime : UInt16) (dataBufNull : Bool)
    (dataBufLen : UInt16) : Packed :=
  if dataBufNull then ⟨[], -1⟩
  else
    match packFields device keepTime dataBufLen with
    | .error dataBuf => ⟨dataBuf, -1⟩
    | .ok dataBuf => ⟨dataBuf.set 1 (UInt8.ofNat (dataBuf.length - 2)), dataBuf.length⟩

/-- The packet that the device logs in with. -/
def loginPacket (device : StOneNetDevice) (keepTime : UInt16) : ControlPacket :=
  connect true keepTime device.oneNetDeviceID.text none (some device.oneNetProductID.text)
    (some device.cecretCode.text)

/-- The buffer has `dataBufLen` bytes; the result is -1 or the length of the packet in it, and
nothing is stored behind it. -/
structure Packs (device : StOneNetDevice) (keepTime dataBufLen : UInt16) (p : Packed) : Prop where
  packet : p.result = -1 ∨
    ∃ n : ℕ, p.result = n ∧ n ≤ dataBufLen.toNat ∧ p.dataBuf[1]? = some (UInt8.ofNat (n - 2)) ∧
      n - 2 < 128 ∧ Decodes (p.dataBuf.take n) (loginPacket device keepTime)
  inside : p.dataBuf.length ≤ dataBufLen.toNat

section Field

variable (field : TextField)

theorem length_text_lt : field.text.length < 20 := by
  rw [← field.size]
  exact Ended.length_upTo_lt field.terminated

theorem toNat_strlen : field.strlen.toNat = field.text.length := by
  have hlen := length_text_lt field
  rw [TextField.strlen, UInt16.toNat_ofNat', Nat.mod_eq_of_lt (by omega)]

theorem packed_eq : field.packed = ControlPacket.text field.text := by
  have htake : field.content.take field.text.length = field.text :=
    List.prefix_iff_eq_take.mp (Ended.front_upTo 0 _) |>.symm
  rw [TextField.packed, toNat_strlen, htake, ControlPacket.text, be16, toUInt8_and_ff,
    toUInt8_and_ff]
  rfl

theorem length_packed : field.packed.length = 2 + field.text.length := by
  rw [packed_eq, length_text]

end Field

theorem connectHeader_eq (keepTime : UInt16) :
    connectHeader keepTime = 0x10 :: 0x00 :: (ControlPacket.text [0x4D, 0x51, 0x54, 0x54] ++
      ([4, connectFlags true none true true] ++ be16 keepTime)) := by
  rw [connectHeader, toUInt8_and_ff, toUInt8_and_ff]
  rfl

section Stages

variable (dataBufLen : UInt16) (field : TextField) (dataBuf : List UInt8)

/-- A field whose own length is tested is stored where there is room for it, or not at all. -/
theorem packField_strlen :
    packField dataBufLen field.strlen field dataBuf = .error dataBuf ∨
      packField dataBufLen field.strlen field dataBuf = .ok (dataBuf ++ field.packed) ∧
        (dataBuf ++ field.packed).length ≤ dataBufLen.toNat := by
  by_cases hroom : dataBuf.length + 2 + field.strlen.toNat > dataBufLen.toNat
  · exact .inl (if_pos hroom)
  · refine .inr ⟨if_neg hroom, ?_⟩
    rw [toNat_strlen] at hroom
    rw [List.length_append, length_packed]
    omega

end Stages

section Packet

variable (device : StOneNetDevice) (keepTime : UInt16)

/-- The fixed bytes and the device id. -/
def front : List UInt8 := connectHeader keepTime ++ device.oneNetDeviceID.packed

/-- All that is stored in a buffer that is long enough. -/
def filled : List UInt8 :=
  front device keepTime ++ device.oneNetProductID.packed ++ device.cecretCode.packed

theorem length_front :
    (front device keepTime).length = 14 + device.oneNetDeviceID.text.length := by
  rw [front, List.length_append, length_packed, ← Nat.add_assoc]
  rfl

theorem length_filled :
    (filled device keepTime).length =
      18 + device.oneNetDeviceID.text.length + device.oneNetProductID.text.length +
        device.cecretCode.text.length := by
  rw [filled, List.length_append, List.length_append, length_front, length_packed, length_packed]
  omega

theorem filled_eq :
    filled device keepTime = 0x10 :: 0x00 :: (loginPacket device keepTime).body := by
  rw [filled, front, connectHeader_eq, packed_eq, packed_eq, packed_eq]
  simp only [List.cons_append, List.append_assoc]
  rfl

theorem length_body_login : (loginPacket device keepTime).body.length + 2 =
    (filled device keepTime).length := by
  rw [filled_eq]
  rfl

theorem length_filled_lt : (filled device keepTime).length < 130 := by
  have hid := length_text_lt device.oneNetDeviceID
  have hproduct := length_text_lt device.oneNetProductID
  have hsecret := length_text_lt device.cecretCode
  rw [length_filled]
  omega

theorem wellFormed_login : (loginPacket device keepTime).WellFormed := by
  have hfits : ∀ field : TextField, Fits field.text := fun field =>
    lt_trans (length_text_lt field) (by decide)
  refine ⟨hfits _, by simp, ?_, ?_, fun _ => rfl⟩
  · rintro _ ⟨⟩
    exact hfits _
  · rintro _ ⟨⟩
    exact hfits _

/-- With the remaining length in its place, what is stored is the packet. -/
theorem filled_set : (filled device keepTime).set 1
    (UInt8.ofNat ((filled device keepTime).length - 2)) = (loginPacket device keepTime).bytes := by
  have hlt := length_filled_lt device keepTime
  have hbody := length_body_login device keepTime
  have hlength :
      (filled device keepTime).length - 2 = (loginPacket device keepTime).body.length := by
    omega
  rw [hlength, filled_eq, ControlPacket.bytes, Base128.encode_of_lt (by omega)]
  rfl

end Packet

section Buffer

variable {device : StOneNetDevice} {keepTime dataBufLen : UInt16}

theorem packFields_of_lt (h : dataBufLen.toNat < 14) :
    packFields device keepTime dataBufLen = .error (connectHeader keepTime) := by
  have hfirst : packField dataBufLen 0 device.oneNetDeviceID (connectHeader keepTime) =
      .error (connectHeader keepTime) := if_pos h
  rw [packFields, hfirst]
  rfl

theorem packFields_of_le (h : 14 ≤ dataBufLen.toNat) :
    packFields device keepTime dataBufLen =
      (packField dataBufLen device.oneNetProductID.strlen device.oneNetProductID
        (front device keepTime)).bind
          (packField dataBufLen device.cecretCode.strlen device.cecretCode) := by
  have hfirst : packField dataBufLen 0 device.oneNetDeviceID (connectHeader keepTime) =
      .ok (front device keepTime) := if_neg (Nat.not_lt.mpr h)
  rw [packFields, hfirst]
  rfl

/-- With room for the device id, what is stored when the function fails lies in the buffer. -/
theorem packFields_cases (keepTime : UInt16)
    (h : 14 + device.oneNetDeviceID.text.length ≤ dataBufLen.toNat) :
    (∃ dataBuf, packFields device keepTime dataBufLen = .error dataBuf ∧
        dataBuf.length ≤ dataBufLen.toNat) ∨
      packFields device keepTime dataBufLen = .ok (filled device keepTime) ∧
        (filled device keepTime).length ≤ dataBufLen.toNat := by
  have hfront : (front device keepTime).length ≤ dataBufLen.toNat := by
    rw [length_front]
    exact h
  rw [packFields_of_le (by omega)]
  rcases packField_strlen dataBufLen device.oneNetProductID _ with herr | ⟨hok, hsecond⟩
  · rw [herr]
    exact .inl ⟨_, rfl, hfront⟩
  · rw [hok]
    rcases packField_strlen dataBufLen device.cecretCode _ with herr | ⟨hok, hthird⟩
    · exact .inl ⟨_, herr, hsecond⟩
    · exact .inr ⟨hok, hthird⟩

theorem packs_of_le (h : 14 + device.oneNetDeviceID.text.length ≤ dataBufLen.toNat) :
    Packs device keepTime dataBufLen
      (oneNetPackConnetData device keepTime false dataBufLen) := by
  rw [oneNetPackConnetData, if_neg (by decide)]
  rcases packFields_cases keepTime h with ⟨dataBuf, herr, hlen⟩ | ⟨hok, hlen⟩
  · rw [herr]
    exact ⟨.inl rfl, hlen⟩
  · have hlt := length_filled_lt device keepTime
    rw [hok]
    dsimp only
    refine ⟨.inr ⟨(filled device keepTime).length, rfl, hlen, ?_, by omega, ?_⟩, ?_⟩
    · rw [filled_eq]
      rfl
    · refine ⟨wellFormed_login device keepTime, ?_⟩
      rw [← filled_set, List.take_of_length_le (List.length_set.le)]
    · rw [List.length_set]
      exact hlen

/-- Whatever the later tests say, the device id is stored. -/
theorem length_dataBuf_ge (device : StOneNetDevice) (keepTime : UInt16)
    (h : 14 ≤ dataBufLen.toNat) :
    14 + device.oneNetDeviceID.text.length ≤
      (oneNetPackConnetData device keepTime false dataBufLen).dataBuf.length := by
  rw [oneNetPackConnetData, if_neg (by decide), packFields_of_le h]
  rcases packField_strlen dataBufLen device.oneNetProductID
    (front device keepTime) with herr | ⟨hok, -⟩
  · rw [herr]
    exact (length_front device keepTime).ge
  · rw [hok]
    have hsecond := length_front device keepTime
    rcases packField_strlen dataBufLen device.cecretCode
      (front device keepTime ++ device.oneNetProductID.packed) with herr | ⟨hok, -⟩
    · rw [Except.bind, herr]
      dsimp only
      rw [List.length_append]
      omega
    · rw [Except.bind, hok]
      dsimp only
      rw [List.length_set, List.length_append, List.length_append]
      omega

end Buffer

/-- The function respects its buffer exactly when the buffer is null, ends behind the fixed bytes,
or has room for the device id and the fields in front of it. -/
theorem packs_iff (device : StOneNetDevice) (keepTime : UInt16) (dataBufNull : Bool)
    (dataBufLen : UInt16) :
    Packs device keepTime dataBufLen
        (oneNetPackConnetData device keepTime dataBufNull dataBufLen) ↔
      dataBufNull = true ∨ dataBufLen.toNat = 12 ∨ dataBufLen.toNat = 13 ∨
        14 + device.oneNetDeviceID.text.length ≤ dataBufLen.toNat := by
  cases dataBufNull with
  | true => exact iff_of_true ⟨.inl rfl, Nat.zero_le _⟩ (.inl rfl)
  | false =>
      rw [or_iff_right Bool.false_ne_true]
      by_cases hroom : 14 ≤ dataBufLen.toNat
      · constructor
        · intro hpacks
          have hstored := length_dataBuf_ge device keepTime hroom
          exact .inr (.inr (hstored.trans hpacks.inside))
        · intro h
          apply packs_of_le
          omega
      · have hresult : oneNetPackConnetData device keepTime false dataBufLen =
            ⟨connectHeader keepTime, -1⟩ := by
          rw [oneNetPackConnetData, if_neg (by decide), packFields_of_lt (by omega)]
        rw [hresult]
        constructor
        · intro hpacks
          have hinside : 12 ≤ dataBufLen.toNat := hpacks.inside
          omega
        · intro h
          refine ⟨.inl rfl, ?_⟩
          show 12 ≤ dataBufLen.toNat
          omega

/-- A `char[20]` that was zero and that at most 19 bytes are copied to. -/
def padded (str : List UInt8) : List UInt8 := (str ++ List.replicate 19 0).take 19 ++ [0]

theorem length_padded (str : List UInt8) : (padded str).length = 20 := by
  have htake : ((str ++ List.replicate 19 0).take 19).length = 19 := by
    apply List.length_take_of_le
    rw [List.length_append, List.length_replicate]
    exact Nat.le_add_left _ _
  rw [padded, List.length_append, htake]
  rfl

theorem zero_mem_padded (str : List UInt8) : 0 ∈ padded str :=
  List.mem_append_right _ (List.mem_singleton_self 0)

def TextField.ofBytes (str : List UInt8) : TextField :=
  ⟨padded str, length_padded str, zero_mem_padded str⟩

/-- `OneNetDevie` as `OneNetDevieInit` sets it. -/
def oneNetDevie : StOneNetDevice where
  oneNetDeviceID := .ofBytes (bytes "506020095")
  oneNetProductID := .ofBytes (bytes "196724")
  cecretCode := .ofBytes (bytes "Device")

/-- In a buffer of sixteen bytes the device id is stored behind its end. -/
theorem oneNetPackConnetData_length16 :
    ¬ ∀ (device : StOneNetDevice) (keepTime dataBufLen : UInt16) (dataBufNull : Bool),
      Packs device keepTime dataBufLen
        (oneNetPackConnetData device keepTime dataBufNull dataBufLen) := by
  intro hall
  have hpacks := hall oneNetDevie 0x78 16 false
  have hstored : 14 + oneNetDevie.oneNetDeviceID.text.length ≤ _ :=
    length_dataBuf_ge _ 0x78 (by decide : 14 ≤ (16 : UInt16).toNat)
  have hlength : oneNetDevie.oneNetDeviceID.text.length = 9 := by decide
  have hinside := hstored.trans hpacks.inside
  rw [hlength] at hinside
  exact absurd hinside (by decide)

end Gsm
