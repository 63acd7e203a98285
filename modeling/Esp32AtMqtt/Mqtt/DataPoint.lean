import Esp32AtMqtt.Mqtt.Pack

/-!
# Packing data points

The functions of `mqtt.c` that pack a command's answer, a binary data point, and data
points in JSON. The JSON is built by appending one text after the other to the payload of
a PUBLISH packet, and bookkeeping bytes in the packet's third extent hold the depth of the
open objects. They are looked for by `Mqtt_GetDataPointPktInfo`; the code that would put
them there is commented out.

`gmtime` and `strftime` are a parameter, `formatTime`. `Mqtt_HasIllegalCharacter` finds
nothing, and its tests are left out.
-/

namespace Mqtt

open FlatMemory

/-- `MQTTERR_NOT_IN_SUBOBJECT`. -/
def mqtterrNotInSubobject : ℤ := -12

/-- `MQTTERR_INCOMPLETE_SUBOBJECT`. -/
def mqtterrIncompleteSubobject : ℤ := -13

/-- `FORMAT_TIME_STRING_SIZE`. -/
def formatTimeStringSize : ℕ := 23

/-- What `Mqtt_FormatTime(ts, out)` writes, without the null byte; `none` when it
fails. -/
abbrev FormatTime := ℤ → Option {text : CStr // text.bytes.length = formatTimeStringSize}

/-- `RESP_CMD_TOPIC_PREFIX`, `$crsp/`. -/
def respCmdTopicPrefix : List UInt8 := [0x24, 0x63, 0x72, 0x73, 0x70, 0x2F]

/-- `$dp`. -/
def dpTopic : CStr := ⟨[0x24, 0x64, 0x70], by decide, by decide⟩

/-- `$crsp`. -/
def crspTopic : CStr := ⟨[0x24, 0x63, 0x72, 0x73, 0x70], by decide, by decide⟩

/-- `$SAVEDATA`. -/
def saveDataTopic : CStr :=
  ⟨[0x24, 0x53, 0x41, 0x56, 0x45, 0x44, 0x41, 0x54, 0x41], by decide, by decide⟩

/-- `$PASSDATA`. -/
def passDataTopic : CStr :=
  ⟨[0x24, 0x50, 0x41, 0x53, 0x53, 0x44, 0x41, 0x54, 0x41], by decide, by decide⟩

/-- The topic of a command's answer; `none` when no block of memory can hold it. -/
def cmdRetTopic (cmdid : CStr) : Option CStr :=
  if h : (respCmdTopicPrefix ++ cmdid.bytes).length < 2 ^ 31 then
    some ⟨respCmdTopicPrefix ++ cmdid.bytes, by
      rw [List.mem_append, not_or]
      exact ⟨by decide, cmdid.nonzero⟩, h⟩
  else none

/-- `Mqtt_PackCmdRetPkt(buf, …)`. The extent for the topic has one byte less than is
written to it. -/
def mqttPackCmdRetPkt (buf : MqttBuffer) (pktId : UInt16) (cmdid : CStr) (ret retLen qos : UInt32)
    (own : Bool) (h : MqttHeap) : Packed :=
  match cmdRetTopic cmdid with
  | none => (mqtterrOutofmemory, buf, h)
  | some topic =>
      withExtent buf (cmdid.strlen + 1 + 5) h fun ext buf h =>
        mqttPackPublishPkt buf ⟨pktId, topic, ret, retLen, if qos = 1 then 1 else 0, false, own⟩
          (h.write ext.payload (topic.bytes ++ [0]))

/-- The arguments of `Mqtt_PackDataPointByBinary`; the address 0 is the null pointer. -/
structure BinaryArgs where
  pktId : UInt16
  dsid : Option CStr
  desc : Option CStr
  time : ℤ
  bin : UInt32
  size : UInt32
  qos : UInt32
  retain : Bool
  own : Bool
  save : Bool
  deriving DecidableEq, Repr

namespace BinaryArgs

variable (a : BinaryArgs)

/-- The PUBLISH packet without payload that is packed first. -/
def publish : PublishArgs :=
  ⟨a.pktId, if a.save then saveDataTopic else passDataTopic, 0, 0, a.qos, a.retain, false⟩

/-- `header_len`, for the string `dsid`. -/
def headerLen (dsid : CStr) : UInt32 :=
  dsid.strlen + 2 + 1 + ((a.desc.map fun desc => desc.strlen + 1).getD 0) +
    (if 0 < a.time then UInt32.ofNat formatTimeStringSize + 1
      else if a.desc.isSome then 1 else 0) + 4

/-- What is written to the header's extent; `time` are the bytes where the time stands. -/
def header (dsid : CStr) (time : List UInt8) : List UInt8 :=
  4 :: mqttWB16 (a.headerLen dsid - 7).toUInt16 ++ dsid.bytes ++
    (if 0 < a.time then 0x2C :: time else if a.desc.isSome then [0x2C] else []) ++
    ((a.desc.map fun desc => 0x2C :: desc.bytes).getD []) ++ mqttWB32 a.size

end BinaryArgs

/-- The second half of `Mqtt_PackDataPointByBinary`. The result of `Mqtt_FormatTime` is not
looked at: when it fails, what is in the memory stays there. -/
def packBinaryPayload (formatTime : FormatTime) (a : BinaryArgs) (dsid : CStr)
    (buf : MqttBuffer) (h : MqttHeap) : Packed :=
  withExtent buf (a.headerLen dsid) h fun headerExt buf h =>
    let cursor := headerExt.payload + (4 + dsid.strlen)
    let time :=
      ((formatTime a.time).map (·.1.bytes)).getD (readMem h.mem cursor formatTimeStringSize)
    let h := h.write headerExt.payload (a.header dsid time)
    withExtent buf (if a.own then a.size else 0) h fun binaryExt buf h =>
      let binary := if a.own then binaryExt else ⟨a.size, a.bin⟩
      let h :=
        if a.own then h.write binaryExt.payload (readMem h.mem a.bin a.size.toNat) else h
      let r := mqttAppendLength buf (a.headerLen dsid + a.size) h
      if r.1 ≠ mqtterrNoerror then r
      else
        let buf := mqttBufferAppendExtent r.2.1 headerExt
        (mqtterrNoerror, mqttBufferAppendExtent buf binary, r.2.2)

/-- `Mqtt_PackDataPointByBinary(buf, …)`. The strings are checked when the PUBLISH packet
is in the list already. -/
def mqttPackDataPointByBinary (formatTime : FormatTime) (buf : MqttBuffer) (a : BinaryArgs)
    (h : MqttHeap) : Packed :=
  match a.dsid with
  | none => (mqtterrInvalidParameter, buf, h)
  | some dsid =>
      if buf.extents ≠ [] ∨ a.bin = 0 ∨ a.size = 0 then (mqtterrInvalidParameter, buf, h)
      else
        let r := mqttPackPublishPkt buf a.publish h
        if r.1 ≠ mqtterrNoerror then r
        else if ¬ dsid.isUtf8 dsid.bytes.length ∨
            a.desc.any fun desc => ¬ desc.isUtf8 desc.bytes.length then
          (mqtterrNotUtf8, r.2)
        else packBinaryPayload formatTime a dsid r.2.1 r.2.2

/-- `Mqtt_GetDataPointPktInfo(buf)`: the address of the bookkeeping bytes. -/
def mqttGetDataPointPktInfo (buf : MqttBuffer) (h : MqttHeap) : Option UInt32 :=
  match buf.extents with
  | fixHead :: _ :: firstPayload :: _ =>
      if h.mem fixHead.payload >>> 4 ≠ 3 then none
      else if h.mem firstPayload.payload ≠ 2 then none
      else if firstPayload.len ≠ 6 then none
      else if readMem h.mem (firstPayload.payload + 2) 2 ≠ [0x9C, 0xC1] then none
      else some (firstPayload.payload + 2)
  | _ => none

/-- `info->subobj_depth`, as the bits of a 16-bit number. -/
def subobjDepth (h : MqttHeap) (info : UInt32) : UInt16 :=
  (h.mem (info + 2)).toUInt16 ||| ((h.mem (info + 3)).toUInt16 <<< 8)

/-- Set `info->subobj_depth`. -/
def setSubobjDepth (h : MqttHeap) (info : UInt32) (depth : UInt16) : MqttHeap :=
  h.write (info + 2) [depth.toUInt8, (depth >>> 8).toUInt8]

/-- The number with these bits is negative. -/
def isNegative (depth : UInt16) : Bool := 0x8000 ≤ depth

/-- `Mqtt_PackDataPointStart(buf, …)`. -/
def mqttPackDataPointStart (buf : MqttBuffer) (pktId : UInt16) (qos : UInt32)
    (retain topic : Bool) (h : MqttHeap) : Packed :=
  if buf.extents ≠ [] then (mqtterrInvalidParameter, buf, h)
  else
    mqttPackPublishPkt buf
      ⟨pktId, if topic then dpTopic else crspTopic, 0, 0, qos, retain, false⟩ h

/-- The end of the functions that append a text to the payload: an extent for it, which is
counted in the packet's length and put into the list. -/
def appendText (buf : MqttBuffer) (text : List UInt8) (h : MqttHeap) : Packed :=
  withExtent buf (UInt32.ofNat text.length) h fun ext buf h =>
    let r := mqttAppendLength buf ext.len (h.write ext.payload text)
    if r.1 ≠ mqtterrNoerror then r
    else (mqtterrNoerror, mqttBufferAppendExtent r.2.1 ext, r.2.2)

/-- A text in quotation marks. -/
def quoted (text : List UInt8) : List UInt8 := 0x22 :: text ++ [0x22]

/-- The text of a value: `null` for the null pointer, and quotation marks around a
string. -/
def valueText (value : Option (List UInt8)) (str : Bool) : List UInt8 :=
  let text := value.getD [0x6E, 0x75, 0x6C, 0x6C]
  if str then quoted text else text

/-- `"dsid":{"time":value},`. -/
def dpText (dsid time value : List UInt8) : List UInt8 :=
  quoted dsid ++ [0x3A, 0x7B] ++ quoted time ++ 0x3A :: value ++ [0x7D, 0x2C]

/-- `Mqtt_AppendDP(buf, dsid, ts, value, value_len, str)`. -/
def mqttAppendDP (formatTime : FormatTime) (buf : MqttBuffer) (dsid : Option CStr) (ts : ℤ)
    (value : Option (List UInt8)) (str : Bool) (h : MqttHeap) : Packed :=
  match mqttGetDataPointPktInfo buf h, dsid with
  | some _, some dsid =>
      if dsid.bytes = [] then (mqtterrInvalidParameter, buf, h)
      else if ¬ dsid.isUtf8 dsid.bytes.length then (mqtterrNotUtf8, buf, h)
      else if 0 < ts then
        match formatTime ts with
        | none =>
            let totalLen :=
              dsid.bytes.length + 9 + formatTimeStringSize + (valueText value str).length
            withExtent buf (UInt32.ofNat totalLen) h fun ext buf h =>
              (mqtterrInternal, buf,
                h.write ext.payload (quoted dsid.bytes ++ [0x3A, 0x7B, 0x22]))
        | some time => appendText buf (dpText dsid.bytes time.1.bytes (valueText value str)) h
      else appendText buf (dpText dsid.bytes [] (valueText value str)) h
  | _, _ => (mqtterrInvalidParameter, buf, h)

/-- `snprintf(intbuf, MAX_INTBUF_SIZE, "%d", value)`. -/
def decimal (value : ℤ) : List UInt8 := (toString value).toList.map fun c => UInt8.ofNat c.toNat

/-- `Mqtt_AppendDPNull(buf, dsid)`. -/
def mqttAppendDPNull (formatTime : FormatTime) (buf : MqttBuffer) (dsid : Option CStr)
    (h : MqttHeap) : Packed :=
  mqttAppendDP formatTime buf dsid 0 none false h

/-- `Mqtt_AppendDPInt(buf, dsid, ts, value)`. -/
def mqttAppendDPInt (formatTime : FormatTime) (buf : MqttBuffer) (dsid : Option CStr) (ts : ℤ)
    (value : ℤ) (h : MqttHeap) : Packed :=
  mqttAppendDP formatTime buf dsid ts (some (decimal value)) false h

/-- `Mqtt_AppendDPDouble(buf, dsid, ts, value)`; `text` is what `snprintf` prints for the
value. -/
def mqttAppendDPDouble (formatTime : FormatTime) (buf : MqttBuffer) (dsid : Option CStr) (ts : ℤ)
    (text : List UInt8) (h : MqttHeap) : Packed :=
  mqttAppendDP formatTime buf dsid ts (some text) false h

/-- `Mqtt_AppendDPString(buf, dsid, ts, value)`. -/
def mqttAppendDPString (formatTime : FormatTime) (buf : MqttBuffer) (dsid : Option CStr) (ts : ℤ)
    (value : Option CStr) (h : MqttHeap) : Packed :=
  if value.any fun s => ¬ s.isUtf8 s.bytes.length then (mqtterrNotUtf8, buf, h)
  else mqttAppendDP formatTime buf dsid ts (some ((value.map CStr.bytes).getD [])) true h

/-- `Mqtt_AppendDPStartSubobject(buf, name)`; the null pointer is an empty name. -/
def mqttAppendDPStartSubobject (buf : MqttBuffer) (name : Option CStr) (h : MqttHeap) : Packed :=
  if name.any fun s => ¬ s.isUtf8 s.bytes.length then (mqtterrNotUtf8, buf, h)
  else
    match mqttGetDataPointPktInfo buf h with
    | none => (mqtterrInvalidParameter, buf, h)
    | some info =>
        appendText buf (quoted ((name.map CStr.bytes).getD []) ++ [0x3A, 0x7B])
          (setSubobjDepth h info (subobjDepth h info + 1))

/-- The address of the last byte of the last extent. -/
def lastByte (buf : MqttBuffer) : Option UInt32 :=
  buf.extents.getLast?.map fun lastExt => lastExt.payload + (lastExt.len - 1)

/-- `Mqtt_AppendDPFinishSubobject(buf)`. -/
def mqttAppendDPFinishSubobject (buf : MqttBuffer) (h : MqttHeap) : Packed :=
  match mqttGetDataPointPktInfo buf h, lastByte buf with
  | some info, some last =>
      let depth := subobjDepth h info - 1
      let h := setSubobjDepth h info depth
      if isNegative depth then (mqtterrNotInSubobject, buf, h)
      else if h.mem last = 0x7B then appendText buf [0x7D, 0x2C] h
      else appendText buf [0x2C] (h.write last [0x7D])
  | _, _ => (mqtterrInvalidParameter, buf, h)

/-- `Mqtt_AppendDPStartObject(buf, dsid, ts)`. -/
def mqttAppendDPStartObject (formatTime : FormatTime) (buf : MqttBuffer) (dsid : Option CStr)
    (ts : ℤ) (h : MqttHeap) : Packed :=
  let r := mqttAppendDPStartSubobject buf dsid h
  if r.1 ≠ mqtterrNoerror then r
  else if 0 < ts then
    match formatTime ts with
    | none => (mqtterrInternal, r.2)
    | some time => mqttAppendDPStartSubobject r.2.1 (some time.1) r.2.2
  else mqttAppendDPStartSubobject r.2.1 none r.2.2

/-- `Mqtt_AppendDPFinishObject(buf)`. -/
def mqttAppendDPFinishObject (buf : MqttBuffer) (h : MqttHeap) : Packed :=
  let r := mqttAppendDPFinishSubobject buf h
  if r.1 ≠ mqtterrNoerror then r else mqttAppendDPFinishSubobject r.2.1 r.2.2

/-- `Mqtt_AppendDPSubvalue(buf, name, value, value_len, str)`. -/
def mqttAppendDPSubvalue (buf : MqttBuffer) (name : CStr) (value : List UInt8) (str : Bool)
    (h : MqttHeap) : Packed :=
  match mqttGetDataPointPktInfo buf h with
  | none => (mqtterrInvalidParameter, buf, h)
  | some info =>
      let depth := subobjDepth h info
      if depth = 0 ∨ isNegative depth then (mqtterrNotInSubobject, buf, h)
      else if ¬ name.isUtf8 name.bytes.length then (mqtterrNotUtf8, buf, h)
      else
        appendText buf (quoted name.bytes ++ 0x3A :: valueText (some value) str ++ [0x2C]) h

/-- `Mqtt_AppendDPSubvalueInt(buf, name, value)`. -/
def mqttAppendDPSubvalueInt (buf : MqttBuffer) (name : CStr) (value : ℤ) (h : MqttHeap) :
    Packed :=
  mqttAppendDPSubvalue buf name (decimal value) false h

/-- `Mqtt_AppendDPSubvalueDouble(buf, name, value)`; `text` is what `snprintf` prints. -/
def mqttAppendDPSubvalueDouble (buf : MqttBuffer) (name : CStr) (text : List UInt8)
    (h : MqttHeap) : Packed :=
  mqttAppendDPSubvalue buf name text false h

/-- `Mqtt_AppendDPSubvalueString(buf, name, value)`. -/
def mqttAppendDPSubvalueString (buf : MqttBuffer) (name : CStr) (value : Option CStr)
    (h : MqttHeap) : Packed :=
  if value.any fun s => ¬ s.isUtf8 s.bytes.length then (mqtterrNotUtf8, buf, h)
  else mqttAppendDPSubvalue buf name ((value.map CStr.bytes).getD []) true h

/-- `Mqtt_PackDataPointFinish(buf)`: the bookkeeping bytes are taken out again, and the
last comma becomes a brace. -/
def mqttPackDataPointFinish (buf : MqttBuffer) (h : MqttHeap) : Packed :=
  match mqttGetDataPointPktInfo buf h, buf.extents with
  | some info, fixHead :: variableHead :: firstPayload :: rest =>
      let depth := subobjDepth h info
      if depth ≠ 0 ∧ ¬ isNegative depth then (mqtterrIncompleteSubobject, buf, h)
      else
        let buf :=
          { buf with extents := fixHead :: variableHead :: { firstPayload with len := 2 } :: rest }
        let r := mqttEraseLength buf 4 h
        if r.1 ≠ mqtterrNoerror then r
        else
          match rest.getLast? with
          | some lastExt =>
              (mqtterrNoerror, r.2.1, r.2.2.write (lastExt.payload + (lastExt.len - 1)) [0x7D])
          | none =>
              withExtent r.2.1 1 r.2.2 fun endExt buf h =>
                mqttAppendLength (mqttBufferAppendExtent buf endExt) endExt.len
                  (h.write endExt.payload [0x7D])
  | _, _ => (mqtterrInvalidParameter, buf, h)

end Mqtt
