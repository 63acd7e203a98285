import Esp32AtMqtt.Mqtt.Send

/-!
# Dispatching a received packet

`Mqtt_Dispatch` of `mqtt.c` and the handlers behind it. A handler gets the low four
bits of the fixed header and the packet's body, checks them, calls the user's
callback, and answers where the protocol wants an answer. The callbacks are a
parameter: functions that return a code and change a state `σ` of their own. A
pointer into the body is passed to them as the bytes from there on.

`Mqtt_HandlePublish` rewrites the body in place, to end the topic with a null byte;
the other handlers leave it alone. No handler changes its length
(`length_mqttDispatch`), that is, none writes outside it.
-/

namespace Mqtt

/-- `MQTTERR_NOERROR`. -/
def mqtterrNoerror : ℤ := 0

/-- `MQTTERR_OUTOFMEMORY`. -/
def mqtterrOutofmemory : ℤ := -1

/-- `MQTTERR_ILLEGAL_PKT`. -/
def mqtterrIllegalPkt : ℤ := -4

/-- `MQTTERR_NOT_UTF8`. -/
def mqtterrNotUtf8 : ℤ := -6

/-- `MQTTERR_INVALID_PARAMETER`. -/
def mqtterrInvalidParameter : ℤ := -7

/-- `MQTTERR_FAILED_SEND_RESPONSE`. -/
def mqtterrFailedSendResponse : ℤ := -14

/-- Stands for a null pointer that is dereferenced: the call does not come back. It
is none of the codes of `mqtt.h`. -/
def nullDereference : ℤ := -1000

/-- What a dispatcher returns: the error code, the body as it was rewritten in
place, and the state of the callbacks. -/
structure DispatchResult (σ : Type*) where
  errcode : ℤ
  pkt : List UInt8
  state : σ

/-- A dispatcher rewrites nothing outside the body it is given. -/
structure MqttDispatcher (σ : Type*) where
  dispatch : σ → UInt8 → List UInt8 → DispatchResult σ
  length_pkt : ∀ s fh pkt, (dispatch s fh pkt).pkt.length = pkt.length

/-- The callbacks of `struct MqttContext`. -/
structure MqttCallbacks (σ : Type*) where
  writevFunc : σ → (UInt32 → UInt8) → List Iovec → ℤ × σ
  handlePingResp : σ → ℤ × σ
  handleConnAck : (flags retCode : UInt8) → σ → ℤ × σ
  handlePublish : (pktId : UInt16) → (topic payload : List UInt8) → (payloadsize : ℕ) →
    (dup qos : UInt8) → σ → ℤ × σ
  handlePubAck : UInt16 → σ → ℤ × σ
  handlePubRec : UInt16 → σ → ℤ × σ
  handlePubRel : UInt16 → σ → ℤ × σ
  handlePubComp : UInt16 → σ → ℤ × σ
  handleSubAck : (pktId : UInt16) → (codes : List UInt8) → (count : ℕ) → σ → ℤ × σ
  handleUnsubAck : UInt16 → σ → ℤ × σ
  handleCmd : (pktId : UInt16) → (cmdid : List UInt8) → (timestamp : ℤ) →
    (desc cmdarg : List UInt8) → (cmdargLen : ℕ) → (dup qos : UInt8) → σ → ℤ × σ

/-- The state that the handlers share: that of the callbacks, and the heap. -/
abbrev HandlerState (σ : Type*) := σ × MqttHeap

/-- `Mqtt_RB16(v)`. -/
def mqttRB16 (v : List UInt8) : UInt16 :=
  ((v.getD 0 0).toUInt16 <<< 8) ||| (v.getD 1 0).toUInt16

/-- The bytes that `Mqtt_WB16(v, out)` stores. -/
def mqttWB16 (v : UInt16) : List UInt8 := [(v >>> 8).toUInt8, v.toUInt8]

/-- `Mqtt_TrailingBytesForUTF8`. -/
def mqttTrailingBytesForUTF8 (b : UInt8) : ℕ :=
  if b < 192 then 0 else if b < 224 then 1 else if b < 240 then 2
  else if b < 248 then 3 else if b < 252 then 4 else 5

/-- A trailing byte of a character lies between `0x80` and `0xBF`. -/
def isTrailing (b : UInt8) : Bool := 0x80 ≤ b && b ≤ 0xBF

/-- The inner `switch` of `Mqtt_IsLegalUtf8` on the first byte. -/
def isLegalSecond (first bv : UInt8) : Bool :=
  if first = 0xE0 then ! (bv < 0xA0)
  else if first = 0xED then ! (bv > 0x9F)
  else if first = 0xF0 then ! (bv < 0x90)
  else if first = 0xF4 then ! (bv > 0x8F)
  else true

/-- `Mqtt_IsLegalUtf8(first, len)`; plain `char` is unsigned on the target. The
bytes are looked at from the last to the first. -/
def mqttIsLegalUtf8 (first : List UInt8) (len : ℕ) : ℤ :=
  let b := fun i => first.getD i 0
  let firstLegal := ! ((0x80 ≤ b 0 && b 0 < 0xC2) || b 0 > 0xF4)
  let legal :=
    match len with
    | 1 => firstLegal
    | 2 => isTrailing (b 1) && isLegalSecond (b 0) (b 1) && firstLegal
    | 3 => isTrailing (b 2) && isTrailing (b 1) && isLegalSecond (b 0) (b 1) && firstLegal
    | 4 => isTrailing (b 3) && isTrailing (b 2) && isTrailing (b 1) &&
        isLegalSecond (b 0) (b 1) && firstLegal
    | _ => false
  if legal then mqtterrNoerror else mqtterrNotUtf8

/-- The loop of `Mqtt_CheckUtf8(str, len)` from the index `i` on. Every round looks
at the character at the start of `str`, not at the one at `i`. -/
def mqttCheckUtf8Loop (str : List UInt8) (len : ℕ) : ℕ → ℕ → ℤ
  | 0, i => i
  | fuel + 1, i =>
      if i < len then
        let utf8CharLen := mqttTrailingBytesForUTF8 (str.getD i 0) + 1
        if i + utf8CharLen > len then mqtterrNotUtf8
        else
          let ret := mqttIsLegalUtf8 str utf8CharLen
          if ret ≠ mqtterrNoerror then ret
          else if str.getD (i + utf8CharLen) 0 = 0 then ↑(i + utf8CharLen)
          else mqttCheckUtf8Loop str len fuel (i + utf8CharLen)
      else i

/-- `Mqtt_CheckUtf8(str, len)`. Every round advances the index, so `len` rounds are
enough. -/
def mqttCheckUtf8 (str : List UInt8) (len : ℕ) : ℤ := mqttCheckUtf8Loop str len len 0

/-- `Mqtt_PackPubAckPkt` and its siblings: the packet `head`, `2`, `pkt_id`.
`noExtent` is what follows when no extent can be allocated. -/
def mqttPackIdPkt (head : UInt8) (noExtent : ℤ) (buf : MqttBuffer) (pktId : UInt16)
    (h : MqttHeap) : ℤ × MqttBuffer × MqttHeap :=
  if pktId = 0 then (mqtterrInvalidParameter, buf, h)
  else
    match mqttBufferAllocExtent buf 4 h with
    | (none, buf, h) => (noExtent, buf, h)
    | (some ext, buf, h) =>
        (mqtterrNoerror, mqttBufferAppendExtent buf ext,
          h.write ext.payload (head :: 2 :: mqttWB16 pktId))

/-- `Mqtt_PackPubAckPkt(buf, pkt_id)`. -/
def mqttPackPubAckPkt := mqttPackIdPkt 0x40 mqtterrOutofmemory

/-- `Mqtt_PackPubRecPkt(buf, pkt_id)`. -/
def mqttPackPubRecPkt := mqttPackIdPkt 0x50 mqtterrOutofmemory

/-- `Mqtt_PackPubRelPkt(buf, pkt_id)`, which does not test the extent. -/
def mqttPackPubRelPkt := mqttPackIdPkt 0x62 nullDereference

/-- `Mqtt_PackPubCompPkt(buf, pkt_id)`. -/
def mqttPackPubCompPkt := mqttPackIdPkt 0x70 mqtterrOutofmemory

/-- Send a packed response and destroy its buffer: the code, and whether it was
packed and sent. -/
def sendResponse {σ : Type*} (cb : MqttCallbacks σ)
    (pack : MqttBuffer → UInt16 → MqttHeap → ℤ × MqttBuffer × MqttHeap) (pktId : UInt16)
    (s : HandlerState σ) : ℤ × HandlerState σ :=
  let (err, response, h) := pack mqttBufferInit pktId s.2
  if err = mqtterrNoerror then
    let (sent, u, h) := mqttSendPkt cb.writevFunc s.1 response 0 h
    let err :=
      if UInt32.ofInt sent ≠ response.bufferedBytes then mqtterrFailedSendResponse
      else mqtterrNoerror
    (err, u, (mqttBufferReset response h).2)
  else (err, s.1, (mqttBufferReset response h).2)

/-- A callback keeps the heap. -/
def callback {σ : Type*} (f : σ → ℤ × σ) (s : HandlerState σ) : ℤ × HandlerState σ :=
  ((f s.1).1, (f s.1).2, s.2)

/-- The handlers of the packets that carry a packet identifier only: the flags have
to be `flagsWanted`, and the callback gets the identifier. -/
def handleId {σ : Type*} (flagsWanted : UInt8) (f : UInt16 → HandlerState σ → ℤ × HandlerState σ)
    (flags : UInt8) (pkt : List UInt8) (s : HandlerState σ) : ℤ × HandlerState σ :=
  if flags ≠ flagsWanted ∨ pkt.length ≠ 2 then (mqtterrIllegalPkt, s)
  else
    let pktId := mqttRB16 pkt
    if pktId = 0 then (mqtterrIllegalPkt, s) else f pktId s

/-- A callback that is answered by a packet when it succeeds. -/
def answered {σ : Type*} (cb : MqttCallbacks σ) (f : UInt16 → σ → ℤ × σ)
    (pack : MqttBuffer → UInt16 → MqttHeap → ℤ × MqttBuffer × MqttHeap) (pktId : UInt16)
    (s : HandlerState σ) : ℤ × HandlerState σ :=
  let (err, s) := callback (f pktId) s
  if err ≥ 0 then sendResponse cb pack pktId s else (err, s)

section Handlers

variable {σ : Type*} (cb : MqttCallbacks σ) (flags : UInt8) (pkt : List UInt8)
  (s : HandlerState σ)

/-- `Mqtt_HandlePingResp`. -/
def mqttHandlePingResp : ℤ × HandlerState σ :=
  if flags ≠ 0 ∨ pkt.length ≠ 0 then (mqtterrIllegalPkt, s)
  else callback cb.handlePingResp s

/-- `Mqtt_HandleConnAck`. -/
def mqttHandleConnAck : ℤ × HandlerState σ :=
  if flags ≠ 0 ∨ pkt.length ≠ 2 then (mqtterrIllegalPkt, s)
  else
    let ackFlags := pkt.getD 0 0
    let retCode := pkt.getD 1 0
    if (ackFlags &&& 0x01 ≠ 0 ∧ retCode ≠ 0) ∨ retCode > 5 then (mqtterrIllegalPkt, s)
    else callback (cb.handleConnAck ackFlags retCode) s

/-- `Mqtt_HandlePubAck`. -/
def mqttHandlePubAck : ℤ × HandlerState σ :=
  handleId 0 (fun pktId => callback (cb.handlePubAck pktId)) flags pkt s

/-- `Mqtt_HandlePubRec`. -/
def mqttHandlePubRec : ℤ × HandlerState σ :=
  handleId 0 (answered cb cb.handlePubRec mqttPackPubRelPkt) flags pkt s

/-- `Mqtt_HandlePubRel`. -/
def mqttHandlePubRel : ℤ × HandlerState σ :=
  handleId 2 (answered cb cb.handlePubRel mqttPackPubCompPkt) flags pkt s

/-- `Mqtt_HandlePubComp`. -/
def mqttHandlePubComp : ℤ × HandlerState σ :=
  handleId 0 (fun pktId => callback (cb.handlePubComp pktId)) flags pkt s

/-- `Mqtt_HandleUnsubAck`. -/
def mqttHandleUnsubAck : ℤ × HandlerState σ :=
  handleId 0 (fun pktId => callback (cb.handleUnsubAck pktId)) flags pkt s

/-- `Mqtt_HandleSubAck`. -/
def mqttHandleSubAck : ℤ × HandlerState σ :=
  if flags ≠ 0 ∨ pkt.length < 2 then (mqtterrIllegalPkt, s)
  else
    let pktId := mqttRB16 pkt
    if pktId = 0 then (mqtterrIllegalPkt, s)
    else if (pkt.drop 2).any (fun code => code &&& 0x7C ≠ 0) then (mqtterrIllegalPkt, s)
    else callback (cb.handleSubAck pktId (pkt.drop 2) (pkt.length - 2)) s

end Handlers

/-- What `Mqtt_HandlePublish` has found before it checks the topic: the body with
the topic's end written into it, the offsets of the topic and of the payload, and the
packet identifier (`0` at the lowest level). -/
structure PublishParts where
  pkt : List UInt8
  topic : ℕ
  payload : ℕ
  pktId : UInt16

/-- The first half of `Mqtt_HandlePublish`, up to the null byte behind the topic;
`none` for an illegal packet. -/
def publishParts (flags : UInt8) (pkt : List UInt8) : Option PublishParts :=
  let dup := flags &&& 0x08
  let qos := (flags &&& 0x06) >>> 1
  let retain := flags &&& 0x01
  let size := pkt.length
  if size < 2 then none
  else if retain ≠ 0 then none
  else
    let topicLen := (mqttRB16 pkt).toNat
    if size < 2 + topicLen then none
    else if qos = 0 then
      if dup ≠ 0 then none
      else
        -- the topic moves over its own length field
        let moved := (pkt.drop 2).take topicLen ++ pkt.drop topicLen
        some ⟨moved.set topicLen 0, 0, 2 + topicLen, 0⟩
    else if qos = 1 ∨ qos = 2 then
      if topicLen + 4 > size then none
      else
        let pktId := mqttRB16 (pkt.drop (topicLen + 2))
        if pktId = 0 then none
        else some ⟨pkt.set (2 + topicLen) 0, 2, 4 + topicLen, pktId⟩
    else none

/-- `CMD_TOPIC_PREFIX`, `$creq`. -/
def cmdTopicPrefix : List UInt8 := [0x24, 0x63, 0x72, 0x65, 0x71]

/-- The bytes of the null-terminated string at the start of `str`. -/
def cString (str : List UInt8) : List UInt8 := str.takeWhile (· ≠ 0)

/-- `Mqtt_HandlePublish`: the code, the body as it is left, and the state. -/
def mqttHandlePublish {σ : Type*} (cb : MqttCallbacks σ) (flags : UInt8) (pkt : List UInt8)
    (s : HandlerState σ) : DispatchResult (HandlerState σ) :=
  let dup := flags &&& 0x08
  let qos := (flags &&& 0x06) >>> 1
  match publishParts flags pkt with
  | none => ⟨mqtterrIllegalPkt, pkt, s⟩
  | some parts =>
      let topicLen := (mqttRB16 pkt).toNat
      let topic := parts.pkt.drop parts.topic
      let payload := parts.pkt.drop parts.payload
      let payloadLen := pkt.length - parts.payload
      if mqttCheckUtf8 topic topicLen ≠ topicLen then ⟨mqtterrIllegalPkt, parts.pkt, s⟩
      else if (cString topic).any (fun c => c = 0x2B || c = 0x23) then
        ⟨mqtterrIllegalPkt, parts.pkt, s⟩
      else
        let (err, s) :=
          if topic.head? = some 0x24 then
            if cmdTopicPrefix <+: cString topic then
              callback (cb.handleCmd parts.pktId (topic.drop (cmdTopicPrefix.length + 1)) 0 []
                payload payloadLen dup qos) s
            else (mqtterrNoerror, s)
          else
            callback (cb.handlePublish parts.pktId topic payload payloadLen dup qos) s
        if err < 0 then ⟨err, parts.pkt, s⟩
        else if qos = 0 then ⟨err, parts.pkt, s⟩
        else
          let pack := if qos = 2 then mqttPackPubRecPkt else mqttPackPubAckPkt
          let (err, s) := sendResponse cb pack parts.pktId s
          ⟨if err = mqtterrNoerror then err else mqtterrFailedSendResponse, parts.pkt, s⟩

/-- `Mqtt_Dispatch(ctx, fh, pkt, size)`. -/
def mqttDispatch {σ : Type*} (cb : MqttCallbacks σ) (s : HandlerState σ) (fh : UInt8)
    (pkt : List UInt8) : DispatchResult (HandlerState σ) :=
  let flags := fh &&& 0x0F
  let kept := fun r : ℤ × HandlerState σ => (⟨r.1, pkt, r.2⟩ : DispatchResult _)
  match (fh >>> 4).toNat with
  | 13 => kept (mqttHandlePingResp cb flags pkt s)
  | 2 => kept (mqttHandleConnAck cb flags pkt s)
  | 3 => mqttHandlePublish cb flags pkt s
  | 4 => kept (mqttHandlePubAck cb flags pkt s)
  | 5 => kept (mqttHandlePubRec cb flags pkt s)
  | 6 => kept (mqttHandlePubRel cb flags pkt s)
  | 7 => kept (mqttHandlePubComp cb flags pkt s)
  | 9 => kept (mqttHandleSubAck cb flags pkt s)
  | 11 => kept (mqttHandleUnsubAck cb flags pkt s)
  | _ => ⟨mqtterrIllegalPkt, pkt, s⟩

theorem mqttRB16_toNat (a b : UInt8) (rest : List UInt8) :
    (mqttRB16 (a :: b :: rest)).toNat = a.toNat * 256 + b.toNat := by
  have ha := a.toNat_lt
  have hb := b.toNat_lt
  have hor : (a.toNat <<< 8) ||| b.toNat = a.toNat * 256 + b.toNat := by
    rw [← Nat.shiftLeft_add_eq_or_of_lt (by omega), Nat.shiftLeft_eq]
  simp only [mqttRB16, List.getD_cons_zero, List.getD_cons_succ, UInt16.toNat_or,
    UInt16.toNat_shiftLeft, UInt8.toNat_toUInt16, UInt16.reduceToNat]
  rw [show 8 % 16 = 8 from rfl, Nat.mod_eq_of_lt (by rw [Nat.shiftLeft_eq]; omega), hor]

theorem mqttWB16_eq (v : UInt16) :
    mqttWB16 v = [UInt8.ofNat (v.toNat / 256), UInt8.ofNat (v.toNat % 256)] := by
  have hhigh : (v >>> 8).toUInt8 = UInt8.ofNat (v.toNat / 256) := by
    rw [← UInt8.toNat_inj, UInt16.toNat_toUInt8, UInt16.toNat_shiftRight, UInt8.toNat_ofNat',
      Nat.shiftRight_eq_div_pow]
    rfl
  have hlow : v.toUInt8 = UInt8.ofNat (v.toNat % 256) := by
    rw [← UInt8.toNat_inj, UInt16.toNat_toUInt8, UInt8.toNat_ofNat']
    omega
  rw [mqttWB16, hhigh, hlow]

/-- Two bytes that have been read are stored again. -/
theorem mqttWB16_mqttRB16 (a b : UInt8) (rest : List UInt8) :
    mqttWB16 (mqttRB16 (a :: b :: rest)) = [a, b] := by
  have ha := a.toNat_lt
  have hb := b.toNat_lt
  rw [mqttWB16_eq, mqttRB16_toNat]
  simp only [List.cons.injEq, and_true, ← UInt8.toNat_inj, UInt8.toNat_ofNat']
  omega

/-- A number that has been stored is read back. -/
theorem mqttRB16_mqttWB16 (v : UInt16) (rest : List UInt8) :
    mqttRB16 (mqttWB16 v ++ rest) = v := by
  have hv := v.toNat_lt
  rw [mqttWB16_eq, ← UInt16.toNat_inj, List.cons_append, List.cons_append, mqttRB16_toNat,
    UInt8.toNat_ofNat', UInt8.toNat_ofNat']
  omega

/-- Where the topic and the payload lie, and that writing the null byte has not
touched them. -/
theorem publishParts_spec {flags : UInt8} {pkt : List UInt8} {parts : PublishParts}
    (h : publishParts flags pkt = some parts) :
    parts.pkt.length = pkt.length ∧
      (parts.pkt.drop parts.topic).take (mqttRB16 pkt).toNat =
        (pkt.drop 2).take (mqttRB16 pkt).toNat ∧
      parts.pkt.drop parts.payload = pkt.drop parts.payload := by
  set n := (mqttRB16 pkt).toNat with hn
  simp only [publishParts, ← hn] at h
  split_ifs at h with hsize hretain htopic hqos hdup hqos' hid hzero
  · -- level 0: the topic has moved to the front
    cases h
    have hlen : ((pkt.drop 2).take n).length = n := by
      simp only [List.length_take, List.length_drop]
      omega
    refine ⟨?_, ?_, ?_⟩
    · simp only [List.length_set, List.length_append, hlen, List.length_drop]
      omega
    · rw [List.drop_zero, List.take_set_of_le le_rfl, List.take_left' hlen]
    · have hback : ((pkt.drop 2).take n ++ pkt.drop n).drop (2 + n) = pkt.drop (2 + n) := by
        rw [List.drop_append, hlen, List.drop_of_length_le (by omega), List.drop_drop,
          List.nil_append]
        congr 1
        omega
      have hlt : n < 2 + n := by omega
      rw [List.drop_set_of_lt hlt, hback]
  · -- levels 1 and 2: the null byte goes where the identifier was
    cases h
    refine ⟨by simp, ?_, ?_⟩
    · have hshift : (pkt.set (2 + n) 0).drop 2 = (pkt.drop 2).set n 0 := by
        rw [List.drop_set, if_neg (by omega), Nat.add_sub_cancel_left]
      rw [hshift, List.take_set_of_le le_rfl]
    · have hlt : 2 + n < 4 + n := by omega
      rw [List.drop_set_of_lt hlt]

/-- However a body with its parts is handled, it is left with the topic moved. -/
theorem pkt_mqttHandlePublish {σ : Type*} (cb : MqttCallbacks σ) {flags : UInt8}
    {pkt : List UInt8} {parts : PublishParts} (hparts : publishParts flags pkt = some parts)
    (s : HandlerState σ) : (mqttHandlePublish cb flags pkt s).pkt = parts.pkt := by
  simp only [mqttHandlePublish, hparts, apply_ite DispatchResult.pkt, ite_self]

theorem length_mqttHandlePublish {σ : Type*} (cb : MqttCallbacks σ) (flags : UInt8)
    (pkt : List UInt8) (s : HandlerState σ) :
    (mqttHandlePublish cb flags pkt s).pkt.length = pkt.length := by
  cases hparts : publishParts flags pkt with
  | none => simp only [mqttHandlePublish, hparts]
  | some parts => rw [pkt_mqttHandlePublish cb hparts, (publishParts_spec hparts).1]

/-- No handler writes outside the body. -/
theorem length_mqttDispatch {σ : Type*} (cb : MqttCallbacks σ) (s : HandlerState σ)
    (fh : UInt8) (pkt : List UInt8) : (mqttDispatch cb s fh pkt).pkt.length = pkt.length := by
  have hpublish := length_mqttHandlePublish cb (fh &&& 0x0F) pkt s
  unfold mqttDispatch
  split
  case h_3 => exact hpublish
  all_goals rfl

/-- `Mqtt_Dispatch` as the dispatcher of the receive loop. -/
def mqttDispatcher {σ : Type*} (cb : MqttCallbacks σ) : MqttDispatcher (HandlerState σ) where
  dispatch := mqttDispatch cb
  length_pkt := length_mqttDispatch cb

end Mqtt
