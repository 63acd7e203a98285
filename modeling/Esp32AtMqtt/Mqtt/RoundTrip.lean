import Esp32AtMqtt.Mqtt.Whole

/-!
# A PUBLISH packet is handled as it was packed

What `Mqtt_PackPublishPkt` packs on an empty buffer, read by `Mqtt_ReadLength` and passed
to `Mqtt_HandlePublish`. The handler stores a null byte behind the topic, on its own length
field at level 0 and on the packet identifier at the others, so the payload is not touched.

To see which callbacks are called, `logged` keeps a log of them next to their state.
-/

namespace Mqtt

open FlatMemory Base128

/-- The callbacks, with a log of those called and their arguments. -/
def logged {σ : Type*} (cb : MqttCallbacks σ) : MqttCallbacks (σ × List Request) :=
  let note := fun (r : Request) (s : σ × List Request) =>
    ((r.call cb s.1).1, ((r.call cb s.1).2, s.2 ++ [r]))
  { writevFunc := fun s mem iov => ((cb.writevFunc s.1 mem iov).1, ((cb.writevFunc s.1 mem iov).2, s.2))
    handlePingResp := note .pingResp
    handleConnAck := fun flags retCode => note (.connAck flags retCode)
    handlePublish := fun pktId topic payload n dup qos => note (.publish pktId topic payload n dup qos)
    handlePubAck := fun pktId => note (.pubAck pktId)
    handlePubRec := fun pktId => note (.pubRec pktId)
    handlePubRel := fun pktId => note (.pubRel pktId)
    handlePubComp := fun pktId => note (.pubComp pktId)
    handleSubAck := fun pktId codes count => note (.subAck pktId codes count)
    handleUnsubAck := fun pktId => note (.unsubAck pktId)
    handleCmd := fun pktId cmdid _ _ arg n dup qos => note (.cmd pktId cmdid arg n dup qos) }

/-- A topic of ASCII characters, with none that has a meaning of its own. -/
structure PlainTopic (topic : List UInt8) : Prop where
  length_le : topic.length ≤ 65535
  ascii : ∀ b ∈ topic, b < 0x80
  no_null : 0 ∉ topic
  no_plus : 0x2B ∉ topic
  no_hash : 0x23 ∉ topic
  no_dollar : topic.head? ≠ some 0x24

theorem PlainTopic.length_lt {topic : List UInt8} (h : PlainTopic topic) :
    topic.length < 2 ^ 16 := Nat.lt_succ_of_le h.length_le

/-- Neither wildcard is found. -/
theorem PlainTopic.no_wildcard {topic : List UInt8} (h : PlainTopic topic) :
    ∀ c ∈ topic, c ≠ 0x2B ∧ c ≠ 0x23 :=
  fun _ hc => ⟨fun heq => h.no_plus (heq ▸ hc), fun heq => h.no_hash (heq ▸ hc)⟩

/-- The handler takes such a topic. -/
theorem PlainTopic.topicOk {topic : List UInt8} (h : PlainTopic topic) (rest : List UInt8) :
    topicOk (topic ++ 0 :: rest) topic.length = true := by
  rw [Mqtt.topicOk, Bool.and_eq_true, decide_eq_true_eq, cString_append h.no_null,
    Bool.not_eq_true', List.any_eq_false]
  refine ⟨mqttCheckUtf8_ascii h.ascii h.no_null _, fun c hc => ?_⟩
  obtain ⟨hplus, hhash⟩ := h.no_wildcard c hc
  simp only [hplus, hhash, decide_false, Bool.or_self, Bool.false_eq_true, not_false_eq_true]

/-- An accepted body with a plain topic asks for `handle_publish`. -/
theorem decodePublish_plain {flags : UInt8} {pkt : List UInt8} {parts : PublishParts}
    (hparts : publishParts flags pkt = some parts)
    (htopic : PlainTopic ((pkt.drop 2).take (mqttRB16 pkt).toNat)) :
    ∃ rest, decodePublish flags pkt =
      some (.publish parts.pktId ((pkt.drop 2).take (mqttRB16 pkt).toNat ++ 0 :: rest)
        (pkt.drop parts.payload) (pkt.length - parts.payload) (flags &&& 0x08)
        ((flags &&& 0x06) >>> 1)) := by
  obtain ⟨-, -, hlong, -⟩ := publishParts_eq_some_iff.mp hparts
  obtain ⟨rest, hrest⟩ := publishParts_topic hparts
  obtain ⟨-, -, hpayload⟩ := publishParts_spec hparts
  set topic := (pkt.drop 2).take (mqttRB16 pkt).toNat with hset
  have hlen : topic.length = (mqttRB16 pkt).toNat := by
    rw [hset, List.length_take, List.length_drop]
    omega
  have hfirst : (topic ++ 0 :: rest).head? ≠ some 0x24 := by
    cases htop : topic with
    | nil => simp
    | cons b bs =>
        have hno := htopic.no_dollar
        rwa [htop] at hno
  refine ⟨rest, ?_⟩
  simp only [decodePublish, hparts, hrest]
  rw [← hlen, if_pos (htopic.topicOk rest), publishRequest, hrest, if_neg hfirst, hpayload]

/-- The body of a packed packet, as the handler takes it apart. -/
theorem decodePublish_packed {topic : List UInt8} (htopic : PlainTopic topic) (payload : List UInt8)
    {pktId : UInt16} (hid : pktId ≠ 0) {qos : UInt32} (hqos : qos = 0 ∨ qos = 1 ∨ qos = 2)
    {flags : UInt8} (hflags : publishQosFlags qos = some flags) :
    ∃ rest, decodePublish flags
        (text topic ++ (if qos = 0 then [] else mqttWB16 pktId) ++ payload) =
      some (.publish (if qos = 0 then 0 else pktId) (topic ++ 0 :: rest) payload payload.length 0
        qos.toUInt8) := by
  have hlt := htopic.length_lt
  set ident := if qos = 0 then [] else mqttWB16 pktId with hident
  set pkt := text topic ++ ident ++ payload with hpkt
  have hread : (mqttRB16 pkt).toNat = topic.length := by
    rw [hpkt, List.append_assoc, mqttRB16_text hlt]
  have hname : (pkt.drop 2).take (mqttRB16 pkt).toNat = topic := by
    rw [hread, hpkt, List.append_assoc, drop_two_text, List.take_left' rfl]
  have hback : pkt.drop (2 + topic.length + ident.length) = payload := by
    rw [hpkt, List.drop_left' (by rw [List.length_append, length_text])]
  have hsize : pkt.length = 2 + topic.length + ident.length + payload.length := by
    rw [hpkt, List.length_append, List.length_append, length_text]
  -- what the first half of the handler has found
  obtain ⟨parts, hparts, hpayload, hfound⟩ : ∃ parts, publishParts flags pkt = some parts ∧
      parts.payload = 2 + topic.length + ident.length ∧
      parts.pktId = if qos = 0 then 0 else pktId := by
    rcases hqos with rfl | hlevel
    · cases hflags
      refine ⟨_, publishParts_eq_some_iff.mpr ⟨by omega, rfl, by omega, .inl ⟨rfl, rfl, rfl⟩⟩, ?_,
        rfl⟩
      rw [hread]
      rfl
    · have hne : qos ≠ 0 := by
        rcases hlevel with rfl | rfl <;> decide
      have hlevel' : flags &&& 0x01 = 0 ∧
          ((flags &&& 0x06) >>> 1 = 1 ∨ (flags &&& 0x06) >>> 1 = 2) := by
        rcases hlevel with rfl | rfl <;> cases hflags <;> decide
      have htwo : ident.length = 2 := by
        rw [hident, if_neg hne]
        rfl
      have hstored : mqttRB16 (pkt.drop (topic.length + 2)) = pktId := by
        rw [hpkt, List.append_assoc, Nat.add_comm, List.drop_left' (length_text topic), hident,
          if_neg hne, mqttRB16_mqttWB16]
      refine ⟨_, publishParts_eq_some_iff.mpr ⟨by omega, hlevel'.1, by omega,
        .inr ⟨hlevel'.2, by omega, ?_, rfl⟩⟩, ?_, ?_⟩
      · rwa [hread, hstored]
      · simp only [hread, htwo]
        omega
      · rw [if_neg hne]
        simp only [hread, hstored]
  have hbits : flags &&& 0x08 = 0 ∧ (flags &&& 0x06) >>> 1 = qos.toUInt8 := by
    rcases hqos with rfl | rfl | rfl <;> cases hflags <;> decide
  obtain ⟨rest, hdecode⟩ := decodePublish_plain hparts (by rwa [hname])
  refine ⟨rest, ?_⟩
  rw [hdecode, hname, hpayload, hback, hfound, hsize, hbits.1, hbits.2, Nat.add_sub_cancel_left]

/-- Sending an answer calls no callback. -/
theorem sendResponse_logged {σ : Type*} (cb : MqttCallbacks σ)
    (pack : MqttBuffer → UInt16 → MqttHeap → ℤ × MqttBuffer × MqttHeap) (pktId : UInt16)
    (s : HandlerState (σ × List Request)) :
    (sendResponse (logged cb) pack pktId s).2.1.2 = s.1.2 := by
  have hsend : ∀ buf h, (mqttSendPkt (logged cb).writevFunc s.1 buf 0 h).2.1.2 = s.1.2 := by
    intro buf h
    rw [mqttSendPkt]
    split
    · rfl
    · split <;> rfl
  simp only [sendResponse]
  by_cases hpack : (pack mqttBufferInit pktId s.2).1 = mqtterrNoerror
  · rw [if_pos hpack]
    exact hsend _ _
  · rw [if_neg hpack]

/-- A request is logged once, whatever its callback returns. -/
theorem handle_logged {σ : Type*} (cb : MqttCallbacks σ) {r : Request}
    (hcall : r.call (logged cb) = fun s => ((r.call cb s.1).1, ((r.call cb s.1).2, s.2 ++ [r])))
    (s : HandlerState (σ × List Request)) :
    (r.handle (logged cb) s).2.1.2 = s.1.2 ++ [r] := by
  simp only [Request.handle, callback, hcall]
  split
  · rfl
  · split
    · rfl
    · exact sendResponse_logged cb _ _ _

/-- The bytes of a packed packet: the type, the length field, and the body. -/
theorem flatten_packed {a : PublishArgs} {rs : List Region} {buf : MqttBuffer} {h : MqttHeap}
    {r : Packed} {fixHead variableHead : MqttExtent} {payload : List MqttExtent}
    {ds : List (MqttExtent × List UInt8)} {count : UInt32}
    (hp : PublishPacked a rs buf h r fixHead variableHead payload ds count)
    (hnil : buf.extents = []) (htopic : a.topic.bytes.length < 2 ^ 16)
    (htotal : a.totalLen.toNat < 2 ^ 28) (hall : Allocates a.extentSizes buf h) :
    flattenExtents r.2.2.mem r.2.1.extents =
      a.firstByte :: encode a.totalLen.toNat ++
        (text a.topic.bytes ++ a.idBytes ++ a.payloadBytes h) := by
  rw [hp.extents, hnil, List.nil_append, hp.flatten htopic htotal,
    hp.payload.flatten (.inr hall), PublishArgs.variableHeader, pktString_eq_text htopic]

/-- A `PUBLISH` packet that is packed on an empty buffer is read back, and handled as it was
packed: the flattened packet is its first byte, a length field, and a body of that length,
and the handler calls `handle_publish`, and nothing else, with the topic and a null byte, the
payload, its size, the level and the identifier. -/
theorem mqttPackPublishPkt_roundTrip {σ : Type*} (cb : MqttCallbacks σ)
    (s : HandlerState (σ × List Request)) (a : PublishArgs) (buf : MqttBuffer) (h : MqttHeap)
    (htopic : PlainTopic a.topic.bytes) (hid : a.pktId ≠ 0)
    (hqos : a.qos = 0 ∨ a.qos = 1 ∨ a.qos = 2) (hretain : a.retain = false)
    (hlen : a.bodyLen < 2 ^ 21) (hnil : buf.extents = [])
    (hm : MemoryOk a.payloadRegions a.extentSizes buf h) (hall : Allocates a.extentSizes buf h) :
    let r := mqttPackPublishPkt buf a h
    ∃ (fh : UInt8) (field body : List UInt8),
      r.1 = mqtterrNoerror ∧
        flattenExtents r.2.2.mem r.2.1.extents = fh :: field ++ body ∧
        (fh >>> 4).toNat = 3 ∧
        mqttReadLength (field ++ body) (field ++ body).length =
          ((field.length : ℤ), UInt32.ofNat body.length) ∧
        body.length = a.bodyLen ∧
        ∃ rest, (mqttHandlePublish (logged cb) (fh &&& 0x0F) body s).state.1.2 = s.1.2 ++
          [.publish (if a.qos = 0 then 0 else a.pktId) (a.topic.bytes ++ 0 :: rest)
            (a.payloadBytes h) a.size.toNat 0 a.qos.toUInt8] := by
  have htotal : a.totalLen.toNat = a.bodyLen := toNat_totalLen (by omega)
  have hacc : PublishAccepted a buf h := by
    refine ⟨hid, fun hwild => ?_, ?_, hqos, by omega, ?_⟩
    · obtain ⟨c, hc, hbad⟩ := List.any_eq_true.mp hwild
      obtain ⟨hplus, hhash⟩ := htopic.no_wildcard c hc
      simp [hplus, hhash] at hbad
    · have hcheck := mqttCheckUtf8_ascii htopic.ascii htopic.no_null []
      rw [List.append_nil] at hcheck
      exact decide_eq_true hcheck
    · rw [PublishArgs.extentSizes] at hall
      exact hall.of_append
  have hmem : a.size ≠ 0 → a.payloadRegion ∈ a.payloadRegions := fun hne => by
    rw [PublishArgs.payloadRegions, if_neg hne]
    exact List.mem_singleton_self _
  obtain ⟨fixHead, variableHead, payload, ds, count, hp⟩ :=
    publish_packs hacc (.start hm) (by omega) hmem
  obtain ⟨flags, hflags⟩ : ∃ flags, publishQosFlags a.qos = some flags :=
    Option.ne_none_iff_exists'.mp fun hnone => publishQosFlags_eq_none.mp hnone hqos
  have hfirst : a.firstByte >>> 4 = 3 ∧ a.firstByte &&& 0x0F = flags := by
    rw [PublishArgs.firstByte, PublishArgs.head, hretain, hflags]
    rcases hqos with hq | hq | hq <;> rw [hq] at hflags <;> cases hflags <;> decide
  have hsize := length_publishBody a h
  refine ⟨a.firstByte, encode a.totalLen.toNat,
    text a.topic.bytes ++ a.idBytes ++ a.payloadBytes h, publish_code hacc,
    flatten_packed hp hnil htopic.length_lt (by omega) hall, by rw [hfirst.1]; rfl, ?_, hsize, ?_⟩
  · -- the field is not longer than the reader takes
    have hfield := mqttReadLength_field (text a.topic.bytes ++ a.idBytes ++ a.payloadBytes h)
      (encode a.totalLen.toNat ++ (text a.topic.bytes ++ a.idBytes ++ a.payloadBytes h)).length
      (isField_encode a.totalLen.toNat)
      ((length_encode_le_iff 2 _).mpr (by rw [htotal]; omega))
      (by rw [List.length_append]; exact Nat.le_add_right _ _)
    rw [hfield, value_encode, hsize, htotal]
  · obtain ⟨rest, hdecode⟩ :=
      decodePublish_packed htopic (a.payloadBytes h) hid hqos hflags
    set body := text a.topic.bytes ++ a.idBytes ++ a.payloadBytes h with hbody
    have hstate : (mqttHandlePublish (logged cb) flags body s).state =
        (handleRequest (logged cb) (decodePublish flags body) s).2 :=
      congrArg Prod.snd (mqttHandlePublish_eq_handle (logged cb) flags body s)
    refine ⟨rest, ?_⟩
    rw [hfirst.2, hstate, hbody, PublishArgs.idBytes, hdecode, handleRequest, handle_logged cb rfl,
      PublishArgs.payloadBytes, length_readMem]

/-- The payload `hi` at the address 256, on the topic `a`, at level 1. -/
def hiArgs : PublishArgs :=
  ⟨7, ⟨[0x61], a_nonzero, a_length_lt⟩, 0x100, 2, 1, false, true⟩

/-- A memory with this payload, and two addresses for `malloc`. -/
def hiHeap : MqttHeap :=
  ⟨fun a => if a = 0x100 then 0x68 else if a = 0x101 then 0x69 else 0,
    [some 0x1000, some 0x2000], []⟩

/-- The packet is packed, and one callback gets `a`, `hi`, the level and the identifier. -/
theorem mqttPackPublishPkt_roundTrip_hi :
    let r := mqttPackPublishPkt mqttBufferInit hiArgs hiHeap
    ∃ (fh : UInt8) (field body : List UInt8),
      flattenExtents r.2.2.mem r.2.1.extents = fh :: field ++ body ∧
        ∃ rest, (mqttHandlePublish (logged willingCallbacks) (fh &&& 0x0F) body
          (((), []), hiHeap)).state.1.2 = [.publish 7 (0x61 :: 0 :: rest) [0x68, 0x69] 2 0 1] := by
  have htopic : PlainTopic hiArgs.topic.bytes :=
    ⟨by decide, by decide +kernel, by decide, by decide, by decide, by decide⟩
  obtain ⟨fh, field, body, -, hflat, -, -, -, rest, hlog⟩ :=
    mqttPackPublishPkt_roundTrip willingCallbacks (((), []), hiHeap) hiArgs mqttBufferInit hiHeap
      htopic (by decide) (by decide) rfl (by decide) rfl
      ⟨by decide +kernel, .inl rfl, by decide +kernel⟩ ⟨rfl, rfl, rfl, trivial⟩
  exact ⟨fh, field, body, hflat, rest, hlog⟩

end Mqtt
