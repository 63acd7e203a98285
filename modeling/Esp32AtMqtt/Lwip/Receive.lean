import Esp32AtMqtt.Lwip.Publish

/-!
# What comes in

`mqtt_message_received` looks at the packet in `rx_buffer`. It classifies it by the high nibble of
the first byte alone, and most branches end with the status that also says that a connection was
accepted. What it reads lies in the client, from `rx_buffer` on; an access behind the client, or a
call through a null pointer, is `none`.
-/

namespace Lwip

open ControlPacket
open AtCmd (cString)

/-- `MQTT_VAR_HEADER_BUFFER_LEN`. -/
def rxBufferLen : ℕ := 128

/-- `struct mqtt_client_t` with what it has for packets that come in. -/
structure Receiver where
  client : MqttClient
  cyclicTick : UInt16
  inpubPktId : UInt16
  inpubArg : UInt32
  dataCb : UInt32
  pubCb : UInt32
  msgIdx : UInt32
  rxBuffer : List UInt8
  size : rxBuffer.length = rxBufferLen

theorem length_rxZeros : (List.replicate rxBufferLen (0 : UInt8)).length = rxBufferLen :=
  List.length_replicate

/-- The calls of the functions that the application has set: `mqtt_connection_cb_t`,
`mqtt_incoming_publish_cb_t`, `mqtt_incoming_data_cb_t` with the offset of the data in `rx_buffer`,
and `mqtt_request_cb_t`. -/
inductive Callback
  | connect (cb arg : UInt32) (status : ℕ)
  | publish (cb arg : UInt32) (topic : List UInt8) (totLen : UInt32)
  | data (cb arg : UInt32) (offset : ℕ) (len : UInt16) (last : Bool)
  | request (cb arg : UInt32) (err : ℤ)
  deriving DecidableEq, Repr

/-- What a call of `mqtt_message_received` leaves: the client, its result, the calls it has made,
and what it has written to the device. -/
structure Reception where
  receiver : Receiver
  status : ℕ
  callbacks : List Callback
  written : List UInt8

/-- `MQTT_CONNECT_ACCEPTED`. -/
def connectAccepted : ℕ := 0

/-- `MQTT_CONNECT_DISCONNECTED`. -/
def connectDisconnected : ℕ := 256

/-- `ERR_OK`. -/
def errOk : ℤ := 0

/-- `ERR_ABRT`. -/
def errAbrt : ℤ := -13

/-- The ring in memory: two numbers with the low byte first, and the buffer. -/
def Ringbuf.memory (rb : Ringbuf) : List UInt8 :=
  [rb.put.toUInt8, (rb.put >>> 8).toUInt8, rb.get.toUInt8, (rb.get >>> 8).toUInt8] ++ rb.buf

namespace Receiver

/-- The client in memory, from `rx_buffer` on. -/
def memory (r : Receiver) : List UInt8 := r.rxBuffer ++ r.client.output.memory

/-- `rx_buffer[i]`. -/
def load (r : Receiver) (i : ℕ) : Option UInt8 := r.memory[i]?

def ends (r : Receiver) (status : ℕ) : Reception := ⟨r, status, [], []⟩

end Receiver

/-- What `rt_device_read` puts into `rx_buffer`. -/
structure DeviceRead where
  bytes : List UInt8
  fits : bytes.length ≤ rxBufferLen

/-- `rt_device_read(DevNew, 0, client->rx_buffer, MQTT_VAR_HEADER_BUFFER_LEN)`. -/
def Receiver.reads (r : Receiver) (a : DeviceRead) : Receiver :=
  { r with
    rxBuffer := a.bytes ++ r.rxBuffer.drop a.bytes.length
    size := by
      have hfits := a.fits
      rw [List.length_append, List.length_drop, r.size]
      omega }

/-- Two bytes as a number. -/
def word (high low : UInt8) : UInt16 := high.toUInt16 <<< 8 + low.toUInt16

/-- `mqtt_take_request(&client->pend_req_queue, pkt_id)`: the request, and the client without it
in its queue. -/
def mqttTakeRequest (c : MqttClient) (pktId : UInt16) : Option (ℕ × Request × MqttClient) :=
  let slot := fun n => (c.reqList[n]?).join
  (c.pendReqQueue.findIdx? fun n => (slot n).any (·.pktId = pktId)).bind fun i =>
  (c.pendReqQueue[i]?).bind fun n =>
  (slot n).map fun r =>
    (n, r, { c with
      pendReqQueue := c.pendReqQueue.eraseIdx i
      reqList :=
        match c.pendReqQueue[i + 1]? with
        | some next => c.reqList.modify next
            (Option.map fun s => { s with timeoutDiff := s.timeoutDiff + r.timeoutDiff })
        | none => c.reqList })

/-- `mqtt_incomming_suback(r, result)`. -/
def mqttIncommingSuback (r : Request) (result : UInt8) : List Callback :=
  if r.cb ≠ 0 then [.request r.cb r.arg (if result < 3 then errOk else errAbrt)] else []

/-- The branch of a `CONNACK` packet. -/
def receivedConnack (r : Receiver) (fixedHdrIdx : UInt8) : Option Reception :=
  if r.client.connState = .mqttConnecting then
    (r.load (fixedHdrIdx.toNat + 1)).map fun code =>
      if code = 0 then
        { receiver := { r with
            cyclicTick := 0
            client := { r.client with connState := .mqttConnected } }
          status := connectAccepted
          callbacks :=
            if r.client.connectCb ≠ 0 then
              [.connect r.client.connectCb r.client.connectArg connectAccepted]
            else []
          written := [] }
      else r.ends code.toNat
  else some (r.ends connectAccepted)

/-- What is known of a `PUBLISH` packet when its payload is looked at. -/
structure TopicRead where
  receiver : Receiver
  payloadOffset : UInt16
  callbacks : List Callback

/-- The part of a `PUBLISH` packet in front of the payload; `some none` is the jump to
`out_disconnect`. The byte behind the topic is cleared for `pub_cb`, and restored. -/
def receivedTopic (r : Receiver) (fixedHdrIdx : UInt8) (length : UInt16)
    (remainingLength : UInt32) (qos : UInt8) : Option (Option TopicRead) :=
  (r.load fixedHdrIdx.toNat).bind fun high =>
  (r.load (fixedHdrIdx.toNat + 1)).bind fun low =>
    let topicLen := word high low
    let topic := fixedHdrIdx.toNat + 2
    let afterTopic := 2 + topicLen
    if length.toNat < afterTopic.toNat + (if qos ≠ 0 then 2 else 1) then some none
    else
      let pktId :=
        if 0 < qos then
          (r.load (fixedHdrIdx.toNat + afterTopic.toNat)).bind fun high =>
            (r.load (fixedHdrIdx.toNat + afterTopic.toNat + 1)).map (word high)
        else some 0
      let afterTopic := if 0 < qos then afterTopic + 2 else afterTopic
      pktId.bind fun pktId =>
        if topic + topicLen.toNat < r.memory.length then
          some (some {
            receiver := { r with inpubPktId := pktId }
            payloadOffset := afterTopic
            callbacks :=
              if r.pubCb ≠ 0 then
                [.publish r.pubCb r.inpubArg
                  (cString ((r.memory.drop topic).take topicLen.toNat))
                  (remainingLength + (length - afterTopic).toUInt32)]
              else [] })
        else none

section Device

variable (behind : List UInt8)

/-- A call of `pub_ack_rec_rel_response`, whose result is not looked at. -/
def respond (r : Receiver) (msg : UInt8) (pktId : UInt16) (qos : UInt8)
    (callbacks : List Callback) : Reception :=
  let sent := pubAckRecRelResponse behind r.client msg pktId qos
  ⟨{ r with client := sent.1 }, connectAccepted, callbacks, sent.2.2⟩

/-- The branch of a `PUBLISH` packet. -/
def receivedPublish (r : Receiver) (fixedHdrIdx : UInt8) (length : UInt16)
    (remainingLength : UInt32) (qos : UInt8) : Option Reception :=
  let read :=
    if r.msgIdx.toNat ≤ rxBufferLen then receivedTopic r fixedHdrIdx length remainingLength qos
    else some (some ⟨r, 0, []⟩)
  read.bind fun
    | none => some (r.ends connectDisconnected)
    | some t =>
        let payloadLength := length - t.payloadOffset
        if 0 < payloadLength ∨ remainingLength = 0 then
          if r.dataCb = 0 then none
          else
            let callbacks := t.callbacks ++
              [.data r.dataCb r.inpubArg (fixedHdrIdx.toNat + t.payloadOffset.toNat)
                payloadLength (remainingLength = 0)]
            if remainingLength = 0 ∧ 0 < qos then
              some (respond behind t.receiver (if qos = 1 then 4 else 5)
                t.receiver.inpubPktId 0 callbacks)
            else some ⟨t.receiver, connectAccepted, callbacks, []⟩
        else some ⟨t.receiver, connectAccepted, t.callbacks, []⟩

/-- The branch of the packets that begin with an identifier. The call that would answer a
`PUBREL` packet is commented out. -/
def receivedId (r : Receiver) (pktType : UInt8) (fixedHdrIdx : UInt8) (length : UInt16) :
    Option Reception :=
  (r.load fixedHdrIdx.toNat).bind fun high =>
  (r.load (fixedHdrIdx.toNat + 1)).bind fun low =>
    let pktId := high.toUInt16 <<< 8 ||| low.toUInt16
    if pktId = 0 then some (r.ends connectDisconnected)
    else if pktType = 5 then some (respond behind r 6 pktId 1 [])
    else if pktType = 6 then some (r.ends connectAccepted)
    else if pktType = 9 ∨ pktType = 11 ∨ pktType = 7 ∨ pktType = 4 then
      match mqttTakeRequest r.client pktId with
      | none => some (r.ends connectAccepted)
      | some (n, request, c) =>
          let gone : Receiver :=
            { r with client := { c with reqList := mqttDeleteRequest c.reqList n } }
          if pktType = 9 then
            if length < 3 then some (Receiver.ends { r with client := c } connectDisconnected)
            else
              (r.load (fixedHdrIdx.toNat + 2)).map fun result =>
                ⟨gone, connectAccepted, mqttIncommingSuback request result, []⟩
          else
            some ⟨gone, connectAccepted,
              if request.cb ≠ 0 then [.request request.cb request.arg errOk] else [], []⟩
    else some (r.ends connectDisconnected)

/-- `mqtt_message_received(client, fixed_hdr_idx, length, remaining_length)`. The packet types are
those of `enum mqtt_message_type`: 2 for `CONNACK`, 13 for `PINGRESP`, 3 for `PUBLISH`. -/
def mqttMessageReceived (r : Receiver) (fixedHdrIdx : UInt8) (length : UInt16)
    (remainingLength : UInt32) : Option Reception :=
  (r.load 0).bind fun first =>
    let pktType := (first &&& 0xf0) >>> 4
    if pktType = 2 then receivedConnack r fixedHdrIdx
    else if pktType = 13 then some (r.ends connectAccepted)
    else if pktType = 3 then
      receivedPublish behind r fixedHdrIdx length remainingLength ((first &&& 0x06) >>> 1)
    else receivedId behind r pktType fixedHdrIdx length

end Device

/-! ## What is read -/

namespace Receiver

/-- The byte behind `rx_buffer` at an offset. -/
def byte (r : Receiver) (i : ℕ) : UInt8 := r.memory.getD i 0

/-- What is read as the length of the topic, or as the identifier, with `fixed_hdr_idx = 2`. -/
def firstWord (r : Receiver) : UInt16 := word (r.byte 2) (r.byte 3)

/-- The packet type. -/
def pktType (r : Receiver) : UInt8 := (r.byte 0 &&& 0xf0) >>> 4

theorem length_memory (r : Receiver) : r.memory.length = 388 := by
  simp [memory, Ringbuf.memory, r.size, r.client.output.size, rxBufferLen, ringbufSize]

theorem load_eq (r : Receiver) {i : ℕ} (h : i < 388) : r.load i = some (r.byte i) := by
  have hlt : i < r.memory.length := r.length_memory ▸ h
  rw [load, byte, List.getD_eq_getElem?_getD, List.getElem?_eq_getElem hlt, Option.getD_some]

end Receiver

/-- A byte of `rx_buffer`. -/
theorem byte_of_lt (r : Receiver) {i : ℕ} (h : i < rxBufferLen) :
    r.byte i = r.rxBuffer.getD i 0 := by
  have hlt : i < r.rxBuffer.length := r.size ▸ h
  rw [Receiver.byte, Receiver.memory, List.getD_eq_getElem?_getD, List.getElem?_append_left hlt,
    ← List.getD_eq_getElem?_getD]

/-- The bytes that have been read, over those that were there. -/
theorem byte_reads (r : Receiver) (a : DeviceRead) (i : ℕ) :
    (r.reads a).byte i = a.bytes.getD i (r.byte i) := by
  have hfits := a.fits
  have hmem : (r.reads a).memory = a.bytes ++ r.memory.drop a.bytes.length := by
    rw [Receiver.memory, Receiver.memory, List.drop_append_of_le_length (r.size ▸ hfits),
      ← List.append_assoc]
    rfl
  rw [Receiver.byte, Receiver.byte, hmem, List.getD_eq_getElem?_getD, List.getD_eq_getElem?_getD]
  by_cases hi : i < a.bytes.length
  · rw [List.getElem?_append_left hi, List.getElem?_eq_getElem hi]
    rfl
  · have hle := Nat.not_lt.mp hi
    rw [List.getElem?_append_right hle, List.getElem?_eq_none hle, List.getElem?_drop,
      Nat.add_sub_cancel' hle, List.getD_eq_getElem?_getD]
    rfl

/-- The two bytes of a number do not overlap. -/
theorem or_eq_word (high low : UInt8) : high.toUInt16 <<< 8 ||| low.toUInt16 = word high low := by
  have hshift : (high.toUInt16 <<< 8).toNat = high.toNat <<< 8 := by
    rw [UInt16.toNat_shiftLeft, UInt8.toNat_toUInt16]
    have hlt := high.toNat_lt
    have height : (8 : UInt16).toNat % 16 = 8 := rfl
    rw [height, Nat.shiftLeft_eq]
    omega
  rw [word, ← UInt16.toNat_inj, UInt16.toNat_or, UInt16.toNat_add, hshift, UInt8.toNat_toUInt16,
    ← Nat.shiftLeft_add_eq_or_of_lt low.toNat_lt, Nat.mod_eq_of_lt]
  have hhigh := high.toNat_lt
  have hlow := low.toNat_lt
  rw [Nat.shiftLeft_eq]
  omega

/-! ## A `PUBLISH` packet -/

section Topic

variable (r : Receiver) {length : UInt16} {remainingLength : UInt32} {qos : UInt8}

/-- What has to come behind the length of the topic. -/
def behindTopic (qos : UInt8) : ℕ := if qos ≠ 0 then 2 else 1

/-- The test of the length, as the code makes it: `after_topic` has 16 bits. -/
def Receiver.TopicFits (length : UInt16) (qos : UInt8) : Prop :=
  (2 + r.firstWord).toNat + behindTopic qos ≤ length.toNat

theorem receivedTopic_short (h : ¬ r.TopicFits length qos) :
    receivedTopic r 2 length remainingLength qos = some none := by
  have hlt : length.toNat < (2 + word (r.byte 2) (r.byte 3)).toNat + (if qos ≠ 0 then 2 else 1) :=
    Nat.not_le.mp h
  simp only [receivedTopic, UInt8.reduceToNat, r.load_eq (by decide : 2 < 388),
    r.load_eq (by decide : 2 + 1 < 388), Option.bind_some]
  rw [if_pos hlt]

/-- A length of the topic for which `after_topic` wraps puts its end outside of the client. -/
theorem receivedTopic_wraps (h : r.TopicFits length qos)
    (hwraps : 65534 ≤ r.firstWord.toNat) :
    receivedTopic r 2 length remainingLength qos = none := by
  have hnot : ¬ length.toNat <
      (2 + word (r.byte 2) (r.byte 3)).toNat + (if qos ≠ 0 then 2 else 1) := Nat.not_lt.mpr h
  have hout : ¬ 2 + 2 + (word (r.byte 2) (r.byte 3)).toNat < r.memory.length := by
    have hword : r.firstWord = word (r.byte 2) (r.byte 3) := rfl
    rw [r.length_memory, ← hword]
    omega
  simp only [receivedTopic, UInt8.reduceToNat, r.load_eq (by decide : 2 < 388),
    r.load_eq (by decide : 2 + 1 < 388), Option.bind_some]
  rw [if_neg hnot]
  simp only [if_neg hout, Option.bind_fun_none]

/-- The identifier of a `PUBLISH` packet, when the length of its topic does not wrap. -/
def Receiver.topicId (qos : UInt8) : UInt16 :=
  if 0 < qos then word (r.byte (4 + r.firstWord.toNat)) (r.byte (4 + r.firstWord.toNat + 1))
  else 0

/-- The place behind the length of the topic. -/
theorem toNat_two_add {w : UInt16} (h : w.toNat < 65534) : (2 + w).toNat = 2 + w.toNat := by
  rw [UInt16.toNat_add, Nat.mod_eq_of_lt]
  · rfl
  · exact Nat.add_lt_of_lt_sub' h

variable (remainingLength) in
theorem receivedTopic_fits (h : r.TopicFits length qos) (hlen : length.toNat ≤ rxBufferLen)
    (hwraps : r.firstWord.toNat < 65534) :
    ∃ offset callbacks, receivedTopic r 2 length remainingLength qos =
      some (some ⟨{ r with inpubPktId := r.topicId qos }, offset, callbacks⟩) := by
  have hword : r.firstWord = word (r.byte 2) (r.byte 3) := rfl
  have hafter := toNat_two_add hwraps
  have hfits := h
  rw [Receiver.TopicFits, hafter] at hfits
  have hone : 1 ≤ behindTopic qos := by
    rw [behindTopic]
    split_ifs <;> decide
  rw [rxBufferLen] at hlen
  have hnot : ¬ length.toNat <
      (2 + word (r.byte 2) (r.byte 3)).toNat + (if qos ≠ 0 then 2 else 1) := Nat.not_lt.mpr h
  have hin : 2 + 2 + r.firstWord.toNat < r.memory.length := by
    rw [r.length_memory]
    omega
  simp only [receivedTopic, UInt8.reduceToNat, r.load_eq (by decide : 2 < 388),
    r.load_eq (by decide : 2 + 1 < 388), Option.bind_some]
  have hid : (if 0 < qos then
      (r.load (2 + (2 + r.firstWord.toNat))).bind fun high =>
        (r.load (2 + (2 + r.firstWord.toNat) + 1)).map (word high)
      else some 0) = some (r.topicId qos) := by
    rw [Receiver.topicId]
    split_ifs
    · rw [← Nat.add_assoc, r.load_eq (by omega), r.load_eq (by omega), Option.bind_some,
        Option.map_some]
    · rfl
  rw [if_neg hnot, ← hword, hafter, hid, Option.bind_some, if_pos hin]
  exact ⟨_, _, rfl⟩

end Topic

section Branches

variable (behind : List UInt8) (r : Receiver) {length : UInt16} {qos : UInt8}

/-- The call ends, and not with `MQTT_CONNECT_ACCEPTED`. -/
def Refused (res : Option Reception) : Prop := ∃ rec, res = some rec ∧ rec.status ≠ connectAccepted

theorem refused_some {rec : Reception} : Refused (some rec) ↔ rec.status ≠ connectAccepted := by
  constructor
  · rintro ⟨rec', heq, hstatus⟩
    rwa [Option.some.inj heq]
  · intro hstatus
    exact ⟨rec, rfl, hstatus⟩

theorem not_refused_none : ¬ Refused none := by
  rintro ⟨rec, heq, -⟩
  cases heq

theorem not_refused_accepted {rec : Reception} (h : rec.status = connectAccepted) :
    ¬ Refused (some rec) := fun hrefused => refused_some.mp hrefused h

theorem refused_disconnected : Refused (some (r.ends connectDisconnected)) :=
  ⟨_, rfl, (by decide : connectDisconnected ≠ connectAccepted)⟩

/-- The packets that begin with an identifier: `PUBACK`, `PUBREC`, `PUBREL`, `PUBCOMP`, `SUBACK`
and `UNSUBACK`. -/
def withId : List UInt8 := [4, 5, 6, 7, 9, 11]

/-- A `CONNACK` packet passes unless it is waited for and has another code than 0. -/
theorem receivedConnack_refused_iff :
    Refused (receivedConnack r 2) ↔ r.client.connState = .mqttConnecting ∧ r.byte 3 ≠ 0 := by
  rw [receivedConnack]
  by_cases hstate : r.client.connState = .mqttConnecting
  · rw [if_pos hstate, and_iff_right hstate, show (2 : UInt8).toNat + 1 = 3 from rfl,
      r.load_eq (by decide), Option.map_some, refused_some]
    by_cases hcode : r.byte 3 = 0
    · simp [hcode]
    · rw [if_neg hcode]
      exact iff_of_true (fun hzero => hcode (UInt8.toNat_inj.mp hzero)) hcode
  · rw [if_neg hstate, refused_some]
    exact iff_of_false (not_not.mpr rfl) fun h => hstate h.1

/-- A `PUBLISH` packet whose topic does not fit is given up. -/
theorem receivedPublish_short (remainingLength : UInt32) (hidx : r.msgIdx.toNat ≤ rxBufferLen)
    (h : ¬ r.TopicFits length qos) :
    receivedPublish behind r 2 length remainingLength qos =
      some (r.ends connectDisconnected) := by
  rw [receivedPublish, if_pos hidx, receivedTopic_short r h, Option.bind_some]

theorem receivedPublish_wraps (remainingLength : UInt32) (hidx : r.msgIdx.toNat ≤ rxBufferLen)
    (h : r.TopicFits length qos) (hwraps : 65534 ≤ r.firstWord.toNat) :
    receivedPublish behind r 2 length remainingLength qos = none := by
  rw [receivedPublish, if_pos hidx, receivedTopic_wraps r h hwraps, Option.bind_none]

/-- A complete `PUBLISH` packet is handed to the application, and answered when its QoS is not
0. -/
theorem receivedPublish_fits (hidx : r.msgIdx.toNat ≤ rxBufferLen)
    (h : r.TopicFits length qos) (hlen : length.toNat ≤ rxBufferLen)
    (hwraps : r.firstWord.toNat < 65534) (hcb : r.dataCb ≠ 0) :
    ∃ callbacks, receivedPublish behind r 2 length 0 qos =
      some (if 0 < qos then
          respond behind { r with inpubPktId := r.topicId qos } (if qos = 1 then 4 else 5)
            (r.topicId qos) 0 callbacks
        else ⟨{ r with inpubPktId := r.topicId qos }, connectAccepted, callbacks, []⟩) := by
  obtain ⟨offset, callbacks, hread⟩ := receivedTopic_fits r 0 h hlen hwraps
  rw [receivedPublish, if_pos hidx, hread, Option.bind_some]
  dsimp only
  rw [if_pos (.inr rfl), if_neg hcb]
  by_cases hqos : 0 < qos
  · rw [if_pos ⟨rfl, hqos⟩]
    exact ⟨_, by rw [if_pos hqos]⟩
  · rw [if_neg fun hand => hqos hand.2]
    exact ⟨_, by rw [if_neg hqos]⟩

/-- A `PUBLISH` packet passes, or ends in a call through a null pointer, unless its topic is
looked at and does not fit. -/
theorem receivedPublish_refused_iff (hlen : length.toNat ≤ rxBufferLen) :
    Refused (receivedPublish behind r 2 length 0 qos) ↔
      r.msgIdx.toNat ≤ rxBufferLen ∧ ¬ r.TopicFits length qos := by
  by_cases hidx : r.msgIdx.toNat ≤ rxBufferLen
  swap
  · refine iff_of_false ?_ fun h => hidx h.1
    rw [receivedPublish, if_neg hidx, Option.bind_some]
    dsimp only
    rw [if_pos (.inr rfl)]
    by_cases hcb : r.dataCb = 0
    · rw [if_pos hcb]
      exact not_refused_none
    · rw [if_neg hcb]
      split
      · exact not_refused_accepted rfl
      · exact not_refused_accepted rfl
  rw [and_iff_right hidx]
  by_cases hfits : r.TopicFits length qos
  swap
  · rw [receivedPublish_short behind r 0 hidx hfits]
    exact iff_of_true (refused_disconnected r) hfits
  refine iff_of_false ?_ (not_not.mpr hfits)
  by_cases hwraps : 65534 ≤ r.firstWord.toNat
  · rw [receivedPublish_wraps behind r 0 hidx hfits hwraps]
    exact not_refused_none
  by_cases hcb : r.dataCb = 0
  · obtain ⟨offset, callbacks, hread⟩ :=
      receivedTopic_fits r 0 hfits hlen (Nat.not_le.mp hwraps)
    rw [receivedPublish, if_pos hidx, hread, Option.bind_some]
    dsimp only
    rw [if_pos (.inr rfl), if_pos hcb]
    exact not_refused_none
  · obtain ⟨callbacks, heq⟩ :=
      receivedPublish_fits behind r hidx hfits hlen (Nat.not_le.mp hwraps) hcb
    rw [heq]
    split
    · exact not_refused_accepted rfl
    · exact not_refused_accepted rfl

/-- What becomes of a packet that begins with an identifier. -/
def idReception (pktType : UInt8) (length : UInt16) : Reception :=
  if r.firstWord = 0 then r.ends connectDisconnected
  else if pktType = 5 then respond behind r 6 r.firstWord 1 []
  else if pktType = 6 then r.ends connectAccepted
  else if pktType = 9 ∨ pktType = 11 ∨ pktType = 7 ∨ pktType = 4 then
    match mqttTakeRequest r.client r.firstWord with
    | none => r.ends connectAccepted
    | some (n, request, c) =>
        let gone : Receiver :=
          { r with client := { c with reqList := mqttDeleteRequest c.reqList n } }
        if pktType = 9 then
          if length < 3 then Receiver.ends { r with client := c } connectDisconnected
          else ⟨gone, connectAccepted, mqttIncommingSuback request (r.byte 4), []⟩
        else
          ⟨gone, connectAccepted,
            if request.cb ≠ 0 then [.request request.cb request.arg errOk] else [], []⟩
  else r.ends connectDisconnected

/-- All that is read of such a packet is there. -/
theorem receivedId_eq (pktType : UInt8) (length : UInt16) :
    receivedId behind r pktType 2 length = some (idReception behind r pktType length) := by
  have hword : r.firstWord = word (r.byte 2) (r.byte (2 + 1)) := rfl
  simp only [receivedId, UInt8.reduceToNat, r.load_eq (by decide : 2 < 388),
    r.load_eq (by decide : 2 + 1 < 388), r.load_eq (by decide : 2 + 2 < 388), Option.bind_some,
    or_eq_word, Option.map_some]
  rw [← hword, idReception]
  cases mqttTakeRequest r.client r.firstWord with
  | none => simp only [apply_ite some]
  | some taken => simp only [apply_ite some]

/-- A packet that begins with an identifier passes unless the identifier is 0, or a `SUBACK`
packet for a request that waits is too short. -/
theorem receivedId_refused_iff (pktType : UInt8) :
    Refused (receivedId behind r pktType 2 length) ↔
      (pktType ∈ withId → r.firstWord = 0 ∨
        pktType = 9 ∧ (mqttTakeRequest r.client r.firstWord).isSome ∧ length < 3) := by
  rw [receivedId_eq, idReception]
  by_cases hzero : r.firstWord = 0
  · rw [if_pos hzero]
    exact iff_of_true (refused_disconnected r) fun _ => .inl hzero
  rw [if_neg hzero]
  by_cases hfive : pktType = 5
  · rw [if_pos hfive, hfive]
    exact iff_of_false (not_refused_accepted rfl) fun h => by simpa [hzero] using h (by decide)
  rw [if_neg hfive]
  by_cases hsix : pktType = 6
  · rw [if_pos hsix, hsix]
    exact iff_of_false (not_refused_accepted rfl) fun h => by simpa [hzero] using h (by decide)
  rw [if_neg hsix]
  by_cases hack : pktType = 9 ∨ pktType = 11 ∨ pktType = 7 ∨ pktType = 4
  swap
  · rw [if_neg hack]
    refine iff_of_true (refused_disconnected r) fun hmem => ?_
    simp only [withId, List.mem_cons, List.not_mem_nil, or_false] at hmem
    tauto
  rw [if_pos hack]
  have hmem : pktType ∈ withId := by
    simp only [withId, List.mem_cons, List.not_mem_nil, or_false]
    tauto
  rw [forall_prop_of_true hmem, or_iff_right hzero]
  cases htake : mqttTakeRequest r.client r.firstWord with
  | none =>
      exact iff_of_false (not_refused_accepted rfl) fun h => nomatch h.2.1
  | some taken =>
      obtain ⟨n, request, c⟩ := taken
      dsimp only
      by_cases hnine : pktType = 9
      · rw [if_pos hnine]
        by_cases hlen : length < 3
        · rw [if_pos hlen]
          exact iff_of_true (refused_disconnected _) ⟨hnine, rfl, hlen⟩
        · rw [if_neg hlen]
          exact iff_of_false (not_refused_accepted rfl) fun h => hlen h.2.2
      · rw [if_neg hnine]
        exact iff_of_false (not_refused_accepted rfl) fun h => hnine h.1

end Branches

/-- The packets that are not taken for an acknowledgement, by their type: of the bytes in front,
of whether a `CONNACK` packet is waited for, of whether `msg_idx` is within `rx_buffer`, and of
the identifiers of the requests that wait. -/
structure Refuses (waiting early : Prop) (pending : UInt16 → Prop) (byte : ℕ → UInt8)
    (length : UInt16) : Prop where
  connack : (byte 0 &&& 0xf0) >>> 4 = 2 → waiting ∧ byte 3 ≠ 0
  pingresp : (byte 0 &&& 0xf0) >>> 4 ≠ 13
  publish : (byte 0 &&& 0xf0) >>> 4 = 3 → early ∧
    ¬ (2 + word (byte 2) (byte 3)).toNat + behindTopic ((byte 0 &&& 0x06) >>> 1) ≤ length.toNat
  id : (byte 0 &&& 0xf0) >>> 4 ∈ withId → word (byte 2) (byte 3) = 0 ∨
    (byte 0 &&& 0xf0) >>> 4 = 9 ∧ pending (word (byte 2) (byte 3)) ∧ length < 3

/-- Which packets do not pass for an acknowledgement. -/
theorem mqttMessageReceived_refused_iff (behind : List UInt8) (r : Receiver) {length : UInt16}
    (hlen : length.toNat ≤ rxBufferLen) :
    Refused (mqttMessageReceived behind r 2 length 0) ↔
      Refuses (r.client.connState = .mqttConnecting) (r.msgIdx.toNat ≤ rxBufferLen)
        (fun id => (mqttTakeRequest r.client id).isSome) r.byte length := by
  rw [mqttMessageReceived, r.load_eq (by decide), Option.bind_some]
  dsimp only
  by_cases hconnack : (r.byte 0 &&& 0xf0) >>> 4 = 2
  · rw [if_pos hconnack, receivedConnack_refused_iff]
    constructor
    · intro h
      refine ⟨fun _ => h, ?_, fun h3 => ?_, fun hmem => ?_⟩
      · rw [hconnack]
        decide
      · rw [hconnack] at h3
        exact absurd h3 (by decide)
      · rw [hconnack] at hmem
        exact absurd hmem (by decide)
    · intro h
      exact h.connack hconnack
  rw [if_neg hconnack]
  by_cases hping : (r.byte 0 &&& 0xf0) >>> 4 = 13
  · rw [if_pos hping]
    exact iff_of_false (not_refused_accepted rfl) fun h => h.pingresp hping
  rw [if_neg hping]
  by_cases hpublish : (r.byte 0 &&& 0xf0) >>> 4 = 3
  · rw [if_pos hpublish, receivedPublish_refused_iff behind r hlen]
    constructor
    · intro h
      refine ⟨fun h2 => absurd h2 hconnack, hping, fun _ => h, fun hmem => ?_⟩
      rw [hpublish] at hmem
      exact absurd hmem (by decide)
    · intro h
      exact h.publish hpublish
  · rw [if_neg hpublish, receivedId_refused_iff]
    constructor
    · intro h
      exact ⟨fun h2 => absurd h2 hconnack, hping, fun h3 => absurd h3 hpublish, h⟩
    · intro h
      exact h.id

end Lwip
