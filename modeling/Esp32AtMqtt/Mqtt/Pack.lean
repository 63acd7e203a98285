import Mathlib.Data.UInt
import Esp32AtMqtt.Mqtt.Length
import Esp32AtMqtt.Mqtt.Ledger

/-!
# Packing a packet

The functions of `mqtt.c` that pack a packet into a send buffer, and those that append to
a packet there. They allocate extents, fill them, and put them into the list; an error in
between leaves the extents that are allocated already behind, outside the list.

A packet begins with an extent of five bytes for the type and the remaining length, of
which only as many bytes count as the length field needs. A string argument is a `CStr`;
other data are given by an address and a size.
-/

namespace Mqtt

open FlatMemory

/-- `MQTTERR_PKT_TOO_LARGE`. -/
def mqtterrPktTooLarge : ℤ := -8

/-- `MQTTERR_INTERNAL`. -/
def mqtterrInternal : ℤ := -11

/-- Stands for a read behind the bytes that an argument has. It is none of the codes of
`mqtt.h`. -/
def readOutOfBounds : ℤ := -1001

/-- A string argument: its bytes in front of the null byte. No object of the 32-bit target
is larger than half of the memory. -/
structure CStr where
  bytes : List UInt8
  nonzero : 0 ∉ bytes
  length_lt : bytes.length < 2 ^ 31
  deriving Repr

theorem CStr.bytes_inj {s t : CStr} : s.bytes = t.bytes ↔ s = t := by
  cases s
  cases t
  exact (CStr.mk.injEq ..).symm ▸ Iff.rfl

instance : DecidableEq CStr := fun _ _ => decidable_of_iff _ CStr.bytes_inj

/-- The string `a` of the examples. -/
theorem a_nonzero : 0 ∉ ([0x61] : List UInt8) := by decide

theorem a_length_lt : ([0x61] : List UInt8).length < 2 ^ 31 := by decide

/-- `strlen(s)`. -/
def CStr.strlen (s : CStr) : UInt32 := UInt32.ofNat s.bytes.length

/-- `Mqtt_CheckUtf8(s, len) == len`. -/
def CStr.isUtf8 (s : CStr) (len : ℕ) : Bool := mqttCheckUtf8 s.bytes len = len

/-- What a packer leaves: its code, the buffer, and the heap. -/
abbrev Packed := ℤ × MqttBuffer × MqttHeap

/-- Go on with the extent that `MqttBuffer_AllocExtent` returns; without one the packer
returns `MQTTERR_OUTOFMEMORY`. -/
def withExtent (buf : MqttBuffer) (bytes : UInt32) (h : MqttHeap)
    (pack : MqttExtent → MqttBuffer → MqttHeap → Packed) : Packed :=
  match mqttBufferAllocExtent buf bytes h with
  | (none, buf, h) => (mqtterrOutofmemory, buf, h)
  | (some ext, buf, h) => pack ext buf h

theorem withExtent_eq (buf : MqttBuffer) (bytes : UInt32) (h : MqttHeap)
    (pack : MqttExtent → MqttBuffer → MqttHeap → Packed) :
    withExtent buf bytes h pack =
      match mqttBufferAllocExtent buf bytes h with
      | (none, buf, h) => (mqtterrOutofmemory, buf, h)
      | (some ext, buf, h) => pack ext buf h := by
  unfold withExtent
  generalize mqttBufferAllocExtent buf bytes h = r
  rfl

/-- `Mqtt_DumpLength(len, fix_head->payload + 1)`: the code, and the heap. -/
def dumpLengthInto (fixHead : MqttExtent) (len : UInt32) (h : MqttHeap) : ℤ × MqttHeap :=
  let r := mqttDumpLength len.toNat
  (r.1, h.write (fixHead.payload + 1) r.2)

/-- The extent with as many bytes as the length field needs, and the type. -/
def MqttExtent.withField (fixHead : MqttExtent) (ret : ℤ) : MqttExtent :=
  { fixHead with len := UInt32.ofInt (ret + 1) }

/-- `Mqtt_ReadLength(fix_head->payload + 1, 4, &len)`. -/
def readLengthFrom (fixHead : MqttExtent) (h : MqttHeap) : ℤ × UInt32 :=
  mqttReadLength (readMem h.mem (fixHead.payload + 1) 4) 4

/-- The bytes that `Mqtt_PktWriteString(buf, str, len)` stores. -/
def pktString (str : List UInt8) (len : UInt16) : List UInt8 :=
  mqttWB16 len ++ str.take len.toNat

/-- The bytes that `Mqtt_WB32(v, out)` stores. -/
def mqttWB32 (v : UInt32) : List UInt8 :=
  [(v >>> 24).toUInt8, (v >>> 16).toUInt8, (v >>> 8).toUInt8, v.toUInt8]

/-- The first extent of the list is replaced. -/
def MqttBuffer.setFirst (buf : MqttBuffer) (fixHead : MqttExtent) : MqttBuffer :=
  { buf with extents := fixHead :: buf.extents.tail }

/-- `Mqtt_AppendLength(buf, len)`. When the length is too large the first extent is left
with the length zero. -/
def mqttAppendLength (buf : MqttBuffer) (len : UInt32) (h : MqttHeap) : Packed :=
  match buf.extents with
  | [] => (nullDereference, buf, h)
  | fixHead :: _ =>
      let read := readLengthFrom fixHead h
      if read.1 < 0 then (mqtterrInvalidParameter, buf, h)
      else
        let dump := dumpLengthInto fixHead (read.2 + len) h
        let fixHead := fixHead.withField dump.1
        let buf := buf.setFirst fixHead
        if fixHead.len < 2 then (mqtterrPktTooLarge, buf, dump.2)
        else (mqtterrNoerror, buf, dump.2)

/-- `Mqtt_EraseLength(buf, len)`. -/
def mqttEraseLength (buf : MqttBuffer) (len : UInt32) (h : MqttHeap) : Packed :=
  match buf.extents with
  | [] => (nullDereference, buf, h)
  | fixHead :: _ =>
      let read := readLengthFrom fixHead h
      if read.1 < 0 then (mqtterrInvalidParameter, buf, h)
      else if read.2 < len then (mqtterrInternal, buf, h)
      else
        let buf := { buf with bufferedBytes := buf.bufferedBytes - len }
        let dump := dumpLengthInto fixHead (read.2 - len) h
        (mqtterrNoerror, buf.setFirst (fixHead.withField dump.1), dump.2)

/-- `isalnum(c)`. -/
def isalnum (c : UInt8) : Bool :=
  (0x30 ≤ c && c ≤ 0x39) || (0x41 ≤ c && c ≤ 0x5A) || (0x61 ≤ c && c ≤ 0x7A)

/-- `Mqtt_CheckClentIdentifier(id)`. -/
def mqttCheckClentIdentifier (id : CStr) : ℤ :=
  if id.bytes.all isalnum then id.bytes.length else -1

/-- The arguments of `Mqtt_PackConnectPkt`. The message and the password are known by
the bytes at their addresses, at least as many as their lengths say. -/
structure ConnectArgs where
  keepAlive : UInt16
  id : CStr
  cleanSession : Bool
  willTopic : Option CStr
  willMsg : Option (List UInt8)
  msgLen : UInt16
  qos : UInt32
  willRetain : Bool
  user : Option CStr
  password : Option (List UInt8)
  pswdLen : UInt16
  willMsg_readable : ∀ m ∈ willMsg, msgLen.toNat ≤ m.length
  password_readable : ∀ p ∈ password, pswdLen.toNat ≤ p.length

/-- The flags for the quality of service of the will; `none` for no legal level. Levels 1
and 2 set the will flag too. -/
def connectQosFlags (qos : UInt32) : Option UInt8 :=
  if qos = 0 then some 0 else if qos = 1 then some 0x0C else if qos = 2 then some 0x14 else none

namespace ConnectArgs

variable (a : ConnectArgs)

/-- `id_len`, an unsigned variable: `-1` becomes 65535, and the test for a negative length
never holds. -/
def idLen : UInt16 := UInt16.ofInt (mqttCheckClentIdentifier a.id)

/-- `wt_len`. -/
def wtLen : UInt16 := (a.willTopic.map fun s => UInt16.ofNat s.bytes.length).getD 0

/-- `flags` with the session, the will and its level. -/
def willFlags (qosFlags : UInt8) : UInt8 :=
  (if a.cleanSession then 0x02 else 0) ||| (if a.willTopic.isSome then 0x04 else 0) |||
    qosFlags ||| (if a.willRetain then 0x24 else 0)

/-- `total_len` in front of the user name. -/
def willTotal (flags : UInt8) : UInt32 :=
  10 + (a.idLen.toUInt32 + 2) +
    if flags &&& 0x04 ≠ 0 then 4 + a.wtLen.toUInt32 + a.msgLen.toUInt32 else 0

/-- What is written to the last extent. Without a message its length is taken for zero,
after the total length has been computed. -/
def fields (flags : UInt8) (user : CStr) (password : List UInt8) : List UInt8 :=
  let will :=
    match a.willMsg with
    | none => pktString ((a.willTopic.map CStr.bytes).getD []) a.wtLen ++ pktString [] 0
    | some msg => pktString ((a.willTopic.map CStr.bytes).getD []) a.wtLen ++ pktString msg a.msgLen
  pktString (a.id.bytes ++ [0]) a.idLen ++ (if flags &&& 0x04 ≠ 0 then will else []) ++
    pktString user.bytes (UInt16.ofNat user.bytes.length) ++ pktString password a.pswdLen

end ConnectArgs

/-- The second half of `Mqtt_PackConnectPkt`, from the allocation of the last extent on,
which is not tested. -/
def packConnectFields (a : ConnectArgs) (flags : UInt8) (totalLen : UInt32) (user : CStr)
    (password : List UInt8) (fixHead variableHead : MqttExtent) (buf : MqttBuffer)
    (h : MqttHeap) : Packed :=
  let r := mqttBufferAllocExtent buf (totalLen - 10) h
  let buf := r.2.1
  let dump := dumpLengthInto fixHead totalLen (r.2.2.write fixHead.payload [0x10])
  if dump.1 < 0 then (mqtterrPktTooLarge, buf, dump.2)
  else
    let h := dump.2.write variableHead.payload
      ([0, 4, 0x4D, 0x51, 0x54, 0x54, 4, flags] ++ mqttWB16 a.keepAlive)
    match r.1 with
    | none => (nullDereference, buf, h)
    | some payload =>
        if a.id.bytes.length + 1 < a.idLen.toNat then (readOutOfBounds, buf, h)
        else
          let buf := mqttBufferAppendExtent buf (fixHead.withField dump.1)
          let buf := mqttBufferAppendExtent buf variableHead
          (mqtterrNoerror, mqttBufferAppendExtent buf payload,
            h.write payload.payload (a.fields flags user password))

/-- `Mqtt_PackConnectPkt(buf, …)`. -/
def mqttPackConnectPkt (buf : MqttBuffer) (a : ConnectArgs) (h : MqttHeap) : Packed :=
  withExtent buf 5 h fun fixHead buf h =>
    withExtent buf 10 h fun variableHead buf h =>
      if a.willMsg.isSome ∧ a.willTopic.isNone then (mqtterrInvalidParameter, buf, h)
      else if a.willTopic.any fun s => ¬ s.isUtf8 a.wtLen.toNat then
        (mqtterrNotUtf8, buf, h)
      else
        match connectQosFlags a.qos with
        | none => (mqtterrInvalidParameter, buf, h)
        | some qosFlags =>
            let flags := a.willFlags qosFlags
            match a.user, a.password with
            | some user, some password =>
                let userLen := UInt16.ofNat user.bytes.length
                if ¬ user.isUtf8 userLen.toNat then (mqtterrNotUtf8, buf, h)
                else
                  let totalLen := a.willTotal flags + (userLen.toUInt32 + 2) +
                    (a.pswdLen.toUInt32 + 2)
                  packConnectFields a (flags ||| 0xC0) totalLen user password fixHead
                    variableHead buf h
            | _, _ => (mqtterrInvalidParameter, buf, h)

/-- The arguments of `Mqtt_PackPublishPkt`. -/
structure PublishArgs where
  pktId : UInt16
  topic : CStr
  payload : UInt32
  size : UInt32
  qos : UInt32
  retain : Bool
  own : Bool
  deriving DecidableEq, Repr

namespace PublishArgs

variable (a : PublishArgs)

/-- The first byte without the level. -/
def head : UInt8 := if a.retain then 0x31 else 0x30

/-- The packet identifier, which the lowest level does not have. -/
def idBytes : List UInt8 := if a.qos = 0 then [] else mqttWB16 a.pktId

/-- `total_len`. -/
def totalLen : UInt32 := a.topic.strlen + a.size + 2 + (if a.qos = 0 then 0 else 2)

end PublishArgs

/-- The bits of the first byte for the level; `none` for no legal level. -/
def publishQosFlags (qos : UInt32) : Option UInt8 :=
  if qos = 0 then some 0 else if qos = 1 then some 0x02 else if qos = 2 then some 0x04 else none

/-- `Mqtt_PackPublishPkt(buf, …)`. The code of `MqttBuffer_Append` is not looked at. -/
def mqttPackPublishPkt (buf : MqttBuffer) (a : PublishArgs) (h : MqttHeap) : Packed :=
  if a.pktId = 0 then (mqtterrInvalidParameter, buf, h)
  else if a.topic.bytes.any fun c => c = 0x23 || c = 0x2B then
    (mqtterrInvalidParameter, buf, h)
  else if ¬ a.topic.isUtf8 a.topic.bytes.length then (mqtterrNotUtf8, buf, h)
  else
    withExtent buf 5 h fun fixHead buf h =>
      match publishQosFlags a.qos with
      | none => (mqtterrInvalidParameter, buf, h.write fixHead.payload [a.head])
      | some qosFlags =>
          let h := h.write fixHead.payload [a.head ||| qosFlags]
          let dump := dumpLengthInto fixHead a.totalLen h
          if dump.1 < 0 then (mqtterrPktTooLarge, buf, dump.2)
          else
            withExtent buf (a.totalLen - a.size) dump.2 fun variableHead buf h =>
              let topicLen := UInt16.ofNat a.topic.bytes.length
              let h := h.write variableHead.payload (pktString a.topic.bytes topicLen ++ a.idBytes)
              let buf := mqttBufferAppendExtent buf (fixHead.withField dump.1)
              let buf := mqttBufferAppendExtent buf variableHead
              if a.size ≠ 0 then
                (mqtterrNoerror, (mqttBufferAppend buf a.payload a.size a.own h).2)
              else (mqtterrNoerror, buf, h)

/-- `Mqtt_SetPktDup(buf)`, which reads the first extent before it tests the pointer. -/
def mqttSetPktDup (buf : MqttBuffer) (h : MqttHeap) : Packed :=
  match buf.extents with
  | [] => (nullDereference, buf, h)
  | fixHead :: _ =>
      let first := h.mem fixHead.payload
      if first >>> 4 ≠ 3 then (mqtterrInvalidParameter, buf, h)
      else (mqtterrNoerror, buf, h.write fixHead.payload [first ||| 0x08])

/-- The loop over the topics: the code of the first one that is null or no UTF-8. -/
def checkTopics : List (Option CStr) → ℤ
  | [] => mqtterrNoerror
  | none :: _ => mqtterrInvalidParameter
  | some topic :: topics =>
      if topic.isUtf8 topic.bytes.length then checkTopics topics else mqtterrNotUtf8

/-- `topic_total_len`. -/
def topicsTotalLen (topics : List (Option CStr)) : UInt32 :=
  (topics.map fun topic => (topic.map CStr.strlen).getD 0).sum

/-- What is written for a topic, with `tail` behind it. -/
def topicEntry (tail : List UInt8) (topic : CStr) : List UInt8 :=
  pktString topic.bytes (UInt16.ofNat topic.bytes.length) ++ tail

/-- What is written behind the packet identifier. -/
def topicEntries (tail : List UInt8) (topics : List (Option CStr)) : List UInt8 :=
  topics.flatMap fun topic => (topic.map (topicEntry tail)).getD []

/-- `Mqtt_PackSubscribePkt(buf, pkt_id, qos, topics, topics_len)`. -/
def mqttPackSubscribePkt (buf : MqttBuffer) (pktId : UInt16) (qos : UInt32)
    (topics : List (Option CStr)) (h : MqttHeap) : Packed :=
  let topicsLen := UInt32.ofNat topics.length
  if pktId = 0 then (mqtterrInvalidParameter, buf, h)
  else if checkTopics topics ≠ mqtterrNoerror then (checkTopics topics, buf, h)
  else
    withExtent buf 5 h fun fixedHead buf h =>
      let h := h.write fixedHead.payload [0x80]
      let remainingLen := 2 + 2 * topicsLen + topicsTotalLen topics + topicsLen
      withExtent buf remainingLen h fun ext buf h =>
        let dump := dumpLengthInto fixedHead remainingLen h
        if dump.1 < 0 then (mqtterrPktTooLarge, buf, dump.2)
        else
          let buf := mqttBufferAppendExtent buf (fixedHead.withField dump.1)
          (mqtterrNoerror, mqttBufferAppendExtent buf ext,
            dump.2.write ext.payload (mqttWB16 pktId ++ topicEntries [qos.toUInt8] topics))

/-- `Mqtt_PackUnsubscribePkt(buf, pkt_id, topics, topics_len)`, which encodes the length
before it allocates the second extent. -/
def mqttPackUnsubscribePkt (buf : MqttBuffer) (pktId : UInt16)
    (topics : List (Option CStr)) (h : MqttHeap) : Packed :=
  let topicsLen := UInt32.ofNat topics.length
  if pktId = 0 then (mqtterrInvalidParameter, buf, h)
  else if checkTopics topics ≠ mqtterrNoerror then (checkTopics topics, buf, h)
  else
    let remainingLen := 2 + 2 * topicsLen + topicsTotalLen topics
    withExtent buf 5 h fun fixedHead buf h =>
      let dump := dumpLengthInto fixedHead remainingLen (h.write fixedHead.payload [0xA0])
      if dump.1 < 0 then (mqtterrPktTooLarge, buf, dump.2)
      else
        withExtent buf remainingLen dump.2 fun ext buf h =>
          let buf := mqttBufferAppendExtent buf (fixedHead.withField dump.1)
          (mqtterrNoerror, mqttBufferAppendExtent buf ext,
            h.write ext.payload (mqttWB16 pktId ++ topicEntries [] topics))

/-- `Mqtt_AppendSubscribeTopic` and its sibling: the first byte has to be `head`, and
`tail` follows the topic. -/
def mqttAppendTopic (head : UInt8) (tail : List UInt8) (buf : MqttBuffer)
    (topic : Option CStr) (h : MqttHeap) : Packed :=
  match buf.extents, topic with
  | fixedHead :: _, some topic =>
      if h.mem fixedHead.payload ≠ head then (mqtterrInvalidParameter, buf, h)
      else
        let entryLen := topic.strlen + (2 + UInt32.ofNat tail.length)
        withExtent buf entryLen h fun ext buf h =>
          let h := h.write ext.payload (topicEntry tail topic)
          let read := readLengthFrom fixedHead h
          if read.1 < 0 then (mqtterrInvalidParameter, buf, h)
          else
            let dump := dumpLengthInto fixedHead (read.2 + entryLen) h
            if dump.1 < 0 then (mqtterrPktTooLarge, buf, dump.2)
            else
              let buf := buf.setFirst (fixedHead.withField dump.1)
              (mqtterrNoerror, mqttBufferAppendExtent buf ext, dump.2)
  | _, _ => (mqtterrInvalidParameter, buf, h)

/-- `Mqtt_AppendSubscribeTopic(buf, topic, qos)`. -/
def mqttAppendSubscribeTopic (buf : MqttBuffer) (topic : Option CStr) (qos : UInt32)
    (h : MqttHeap) : Packed :=
  mqttAppendTopic 0x82 [qos.toUInt8] buf topic h

/-- `Mqtt_AppendUnsubscribeTopic(buf, topic)`. -/
def mqttAppendUnsubscribeTopic (buf : MqttBuffer) (topic : Option CStr) (h : MqttHeap) : Packed :=
  mqttAppendTopic 0xA2 [] buf topic h

/-- `Mqtt_PackPingReqPkt` and its sibling: a packet of two bytes. -/
def mqttPackEmptyPkt (head : UInt8) (buf : MqttBuffer) (h : MqttHeap) : Packed :=
  withExtent buf 2 h fun ext buf h =>
    (mqtterrNoerror, mqttBufferAppendExtent buf ext, h.write ext.payload [head, 0])

/-- `Mqtt_PackPingReqPkt(buf)`. -/
def mqttPackPingReqPkt := mqttPackEmptyPkt 0xC0

/-- `Mqtt_PackDisconnectPkt(buf)`. -/
def mqttPackDisconnectPkt := mqttPackEmptyPkt 0xE0

end Mqtt
