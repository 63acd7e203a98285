import Esp32AtMqtt.Codec.ControlPacket
import Esp32AtMqtt.Gsm.Thread

/-!
# A report to the server

`MQTT_SUBSCRIBESent` builds a `PUBLISH` packet in `TempTxBuf`. The length of the name, the remaining
length and the number of bytes to send are kept in eight bits each, and the remaining length is
always one byte, which a broker reads as a part of a length from 128 on. The only guard is about the
data. So the packet is right exactly when name and data have at most 123 bytes together
(`sendsOrRefuses_iff`).
-/

namespace Gsm

open AtCmd (cString)
open ControlPacket
open Thread (bytes)

/-- The size of `TempTxBuf`. -/
def tempTxBufSize : ℕ := 256

/-- What a call of `MQTT_SUBSCRIBESent` does: the blocks that it hands to `rt_device_write`, the
number of bytes that it stores from `TempTxBuf` on, and the result. -/
structure ReportSent where
  written : List (List UInt8)
  stored : ℕ
  result : ℤ
  deriving DecidableEq, Repr

/-- The `DataLen` bytes from `DataBuf` on. -/
def dataBlock (dataBuf : ℕ → UInt8) (dataLen : UInt8) : List UInt8 :=
  (List.range dataLen.toNat).map dataBuf

/-- `Lenth` as it is first set. -/
def nameLenth (targetDevice : List UInt8) : UInt8 := UInt8.ofNat (cString targetDevice).length

/-- What is stored from `TempTxBuf` on, from left to right. -/
def tempTxBuf (targetDevice : List UInt8) (dataBuf : ℕ → UInt8) (dataLen : UInt8) : List UInt8 :=
  let lenth := nameLenth targetDevice
  [0x32, 2 + lenth + 2 + dataLen, (lenth.toUInt16 >>> 8 &&& 0x00ff).toUInt8,
    (lenth.toUInt16 &&& 0x00ff).toUInt8] ++
    ((cString targetDevice).take lenth.toNat ++ ([0x00, 0x01] ++ dataBlock dataBuf dataLen))

/-- `Lenth` as it is set at the end. -/
def packetLenth (targetDevice : List UInt8) (dataLen : UInt8) : UInt8 :=
  2 + 2 + nameLenth targetDevice + 2 + dataLen

/-- `MQTT_SUBSCRIBESent(TargetDevice, DataBuf, DataLen)`; a null pointer is `none`, and
`deviceWrite` is what `rt_device_write` returns. -/
def mqttSubscribeSent (deviceWrite : List UInt8 → ℤ) (targetDevice : Option (List UInt8))
    (dataBuf : Option (ℕ → UInt8)) (dataLen : UInt8) : ReportSent :=
  match dataBuf, targetDevice with
  | some dataBuf, some targetDevice =>
      if 230 < dataLen then ⟨[], 0, -1⟩
      else
        let tempTxBuf := tempTxBuf targetDevice dataBuf dataLen
        let sent := tempTxBuf.take (packetLenth targetDevice dataLen).toNat
        ⟨[sent], tempTxBuf.length, deviceWrite sent⟩
  | _, _ => ⟨[], 0, -1⟩

/-- Nothing is sent, or one `PUBLISH` packet with QoS 1, the identifier 1, the name and the payload;
and nothing is stored behind `TempTxBuf`. -/
structure SendsOrRefuses (name payload : List UInt8) (s : ReportSent) : Prop where
  sent : s.written = [] ∨
    ∃ bs retain, s.written = [bs] ∧ Decodes bs (publish 1 retain name 1 payload)
  inside : s.stored ≤ tempTxBufSize

theorem toNat_nameLenth_le (targetDevice : List UInt8) :
    (nameLenth targetDevice).toNat ≤ (cString targetDevice).length := by
  rw [nameLenth, UInt8.toNat_ofNat']
  exact Nat.mod_le _ _

section Lengths

variable {targetDevice : List UInt8} {dataBuf : ℕ → UInt8} {dataLen : UInt8}

theorem length_dataBlock : (dataBlock dataBuf dataLen).length = dataLen.toNat := by
  rw [dataBlock, List.length_map, List.length_range]

theorem length_body_publish (retain : Bool) (name payload : List UInt8) :
    (publish 1 retain name 1 payload).body.length = 4 + name.length + payload.length := by
  rw [body, if_neg (by decide), List.length_append, List.length_append, length_text]
  show 2 + name.length + (2 + payload.length) = _
  omega

theorem toNat_nameLenth (h : (cString targetDevice).length < 256) :
    (nameLenth targetDevice).toNat = (cString targetDevice).length := by
  rw [nameLenth, UInt8.toNat_ofNat', Nat.mod_eq_of_lt h]

theorem toNat_packetLenth :
    (packetLenth targetDevice dataLen).toNat =
      (6 + (nameLenth targetDevice).toNat + dataLen.toNat) % 256 := by
  rw [packetLenth, UInt8.toNat_add, UInt8.toNat_add, UInt8.toNat_add]
  show (((4 + (nameLenth targetDevice).toNat) % 256 + 2) % 256 + dataLen.toNat) % 256 = _
  omega

theorem length_tempTxBuf :
    (tempTxBuf targetDevice dataBuf dataLen).length =
      6 + (nameLenth targetDevice).toNat + dataLen.toNat := by
  have hname := toNat_nameLenth_le targetDevice
  simp only [tempTxBuf, List.length_append, List.length_take, length_dataBlock, List.length_cons,
    List.length_nil]
  omega

end Lengths

theorem toUInt8_and_ff (v : UInt16) : (v &&& 0x00ff).toUInt8 = v.toUInt8 := by
  rw [UInt16.toUInt8_and]
  exact UInt8.and_neg_one

/-- A length of one byte in front of a string. -/
theorem text_eq {lenth : UInt8} {name : List UInt8} (h : lenth.toNat = name.length) :
    [(lenth.toUInt16 >>> 8 &&& 0x00ff).toUInt8, (lenth.toUInt16 &&& 0x00ff).toUInt8] ++ name =
      text name := by
  have hlenth : UInt16.ofNat name.length = lenth.toUInt16 := by
    rw [← h]
    exact UInt16.toNat_inj.mp (by simp)
  rw [text, be16, hlenth, toUInt8_and_ff, toUInt8_and_ff]

section Publish

variable {targetDevice : List UInt8} {dataBuf : ℕ → UInt8} {dataLen : UInt8}

/-- Name and data that are short enough are stored as the packet. -/
theorem tempTxBuf_eq (h : (cString targetDevice).length + dataLen.toNat ≤ 123) :
    tempTxBuf targetDevice dataBuf dataLen =
      (publish 1 false (cString targetDevice) 1 (dataBlock dataBuf dataLen)).bytes := by
  have hlenth : (nameLenth targetDevice).toNat = (cString targetDevice).length :=
    toNat_nameLenth (by omega)
  have hbody := length_body_publish false (cString targetDevice) (dataBlock dataBuf dataLen)
  rw [length_dataBlock] at hbody
  have hremaining : 2 + nameLenth targetDevice + 2 + dataLen =
      UInt8.ofNat (4 + (cString targetDevice).length + dataLen.toNat) := by
    apply UInt8.toNat_inj.mp
    rw [UInt8.toNat_add, UInt8.toNat_add, UInt8.toNat_add, UInt8.toNat_ofNat', hlenth]
    show (((2 + (cString targetDevice).length) % 256 + 2) % 256 + dataLen.toNat) % 256 = _ % 256
    omega
  rw [ControlPacket.bytes, hbody, Base128.encode_of_lt (by omega), body, ← text_eq hlenth,
    ← hremaining, tempTxBuf, hlenth, List.take_length]
  rfl

/-- What is sent of a packet that fits. -/
theorem tempTxBuf_take (h : (nameLenth targetDevice).toNat + dataLen.toNat < 250) :
    (tempTxBuf targetDevice dataBuf dataLen).take (packetLenth targetDevice dataLen).toNat =
      tempTxBuf targetDevice dataBuf dataLen := by
  have hlen : (packetLenth targetDevice dataLen).toNat =
      (tempTxBuf targetDevice dataBuf dataLen).length := by
    rw [toNat_packetLenth, length_tempTxBuf, Nat.mod_eq_of_lt (by omega)]
  rw [hlen, List.take_length]

theorem sendsOrRefuses_of_le (deviceWrite : List UInt8 → ℤ)
    (h : (cString targetDevice).length + dataLen.toNat ≤ 123) :
    SendsOrRefuses (cString targetDevice) (dataBlock dataBuf dataLen)
      (mqttSubscribeSent deviceWrite (some targetDevice) (some dataBuf) dataLen) := by
  have hlenth := toNat_nameLenth_le targetDevice
  have hguard : ¬ 230 < dataLen := by
    rw [UInt8.lt_iff_toNat_lt]
    show ¬ 230 < dataLen.toNat
    omega
  rw [mqttSubscribeSent, if_neg hguard]
  dsimp only
  rw [tempTxBuf_take (by omega)]
  refine ⟨.inr ⟨_, false, rfl, ⟨⟨by decide, ?_, by decide⟩, (tempTxBuf_eq h).symm⟩⟩, ?_⟩
  · show (cString targetDevice).length < 2 ^ 16
    omega
  · show (tempTxBuf targetDevice dataBuf dataLen).length ≤ tempTxBufSize
    rw [length_tempTxBuf, tempTxBufSize]
    omega

/-- The length of a packet that is right is one byte. -/
theorem le_of_decodes {retain : Bool}
    (h : Decodes ((tempTxBuf targetDevice dataBuf dataLen).take
        (packetLenth targetDevice dataLen).toNat)
      (publish 1 retain (cString targetDevice) 1 (dataBlock dataBuf dataLen))) :
    (cString targetDevice).length + dataLen.toNat ≤ 123 := by
  have hlenth := toNat_nameLenth_le targetDevice
  have hlen := congrArg List.length h.bytes
  rw [length_bytes, length_body_publish, length_dataBlock, List.length_take, length_tempTxBuf]
    at hlen
  have hfield := Base128.length_encode_le_iff 0
    (4 + (cString targetDevice).length + dataLen.toNat)
  omega

end Publish

/-- A packet is sent as it should be exactly when the data are refused, or when name and data have
at most 123 bytes. -/
theorem sendsOrRefuses_iff (deviceWrite : List UInt8 → ℤ) (targetDevice : List UInt8)
    (dataBuf : ℕ → UInt8) (dataLen : UInt8) :
    SendsOrRefuses (cString targetDevice) (dataBlock dataBuf dataLen)
        (mqttSubscribeSent deviceWrite (some targetDevice) (some dataBuf) dataLen) ↔
      230 < dataLen.toNat ∨ (cString targetDevice).length + dataLen.toNat ≤ 123 := by
  by_cases hguard : 230 < dataLen
  · have hrefused : 230 < dataLen.toNat := UInt8.lt_iff_toNat_lt.mp hguard
    refine iff_of_true ?_ (.inl hrefused)
    rw [mqttSubscribeSent, if_pos hguard]
    exact ⟨.inl rfl, Nat.zero_le _⟩
  · have hsent : ¬ 230 < dataLen.toNat := fun h => hguard (UInt8.lt_iff_toNat_lt.mpr h)
    rw [or_iff_right hsent]
    refine ⟨fun h => ?_, sendsOrRefuses_of_le deviceWrite⟩
    have hpacket := h.sent
    rw [mqttSubscribeSent, if_neg hguard] at hpacket
    dsimp only at hpacket
    rcases hpacket with hnil | ⟨bs, retain, hbs, hdecodes⟩
    · exact absurd hnil (List.cons_ne_nil _ _)
    · obtain rfl := (List.cons.inj hbs).1
      exact le_of_decodes hdecodes

/-- A name of one byte and 123 bytes of data have the remaining length 128. -/
theorem mqttSubscribeSent_length128 :
    ¬ ∀ (deviceWrite : List UInt8 → ℤ) (targetDevice : List UInt8) (dataBuf : ℕ → UInt8)
      (dataLen : UInt8), SendsOrRefuses (cString targetDevice) (dataBlock dataBuf dataLen)
        (mqttSubscribeSent deviceWrite (some targetDevice) (some dataBuf) dataLen) := by
  intro hall
  rcases (hall (fun _ => 0) [0x61] (fun _ => 0) 123).sent with hnil | ⟨bs, retain, hbs, hdecodes⟩
  · exact absurd hnil (List.cons_ne_nil _ _)
  · obtain rfl := (List.cons.inj hbs).1
    have hle : (cString [0x61]).length + (123 : UInt8).toNat ≤ 123 := le_of_decodes hdecodes
    exact absurd hle (by decide)

/-- The reply of `TLV_GetParam` to the name `Server` has 33 bytes. -/
theorem sendsOrRefuses_server (deviceWrite : List UInt8 → ℤ) (txBuf : ℕ → UInt8) :
    SendsOrRefuses (bytes "Server") (dataBlock txBuf 33)
      (mqttSubscribeSent deviceWrite (some (bytes "Server")) (some txBuf) 33) := by
  have hname : cString (bytes "Server") = bytes "Server" := by decide
  have hfits : (cString (bytes "Server")).length + (33 : UInt8).toNat ≤ 123 := by decide
  have hsent : SendsOrRefuses (cString (bytes "Server")) (dataBlock txBuf 33)
      (mqttSubscribeSent deviceWrite (some (bytes "Server")) (some txBuf) 33) :=
    sendsOrRefuses_of_le deviceWrite hfits
  rw [hname] at hsent
  exact hsent

end Gsm
