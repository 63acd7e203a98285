import Esp32AtMqtt.Mqtt.Topics

/-!
# Subscriptions in one step and in two

`Mqtt_PackSubscribePkt` writes the first byte `0x80`, and `Mqtt_AppendSubscribeTopic` only adds
to a packet whose first byte is `0x82`, as the protocol has it. The functions for `UNSUBSCRIBE`
differ in the same way. So no topic can be appended to a packet that the SDK has packed, and no
packet that it packs is the one of the protocol.
-/

namespace Mqtt

open FlatMemory Base128

/-- The `SUBSCRIBE` packet of the protocol, with one level for all topics. -/
def subscribePacket (pktId : UInt16) (topics : List CStr) (qos : UInt32) : List UInt8 :=
  framed 0x82 (mqttWB16 pktId ++ topicTexts [qos.toUInt8] (topics.map some))

/-- The `UNSUBSCRIBE` packet of the protocol. -/
def unsubscribePacket (pktId : UInt16) (topics : List CStr) : List UInt8 :=
  framed 0xA2 (mqttWB16 pktId ++ topicTexts [] (topics.map some))

/-- A topic is packed by the one step `pack (ts ++ [t])`, or by `pack ts` and then `append t`:
both succeed with the same bytes, and these are the ones of `packet`. -/
structure StepsAgree (one two : Packed) (packet : List UInt8) : Prop where
  one_code : one.1 = mqtterrNoerror
  two_code : two.1 = mqtterrNoerror
  same : flattenExtents two.2.2.mem two.2.1.extents = flattenExtents one.2.2.mem one.2.1.extents
  wellFormed : flattenExtents one.2.2.mem one.2.1.extents = packet

/-- Both ways to subscribe to the topics `ts` and `t`. -/
def SubscribeAgrees (buf : MqttBuffer) (pktId : UInt16) (qos : UInt32) (ts : List CStr)
    (t : CStr) (h : MqttHeap) : Prop :=
  let first := mqttPackSubscribePkt buf pktId qos (ts.map some) h
  StepsAgree (mqttPackSubscribePkt buf pktId qos ((ts ++ [t]).map some) h)
    (mqttAppendSubscribeTopic first.2.1 t qos first.2.2) (subscribePacket pktId (ts ++ [t]) qos)

/-- Both ways to unsubscribe from them. -/
def UnsubscribeAgrees (buf : MqttBuffer) (pktId : UInt16) (ts : List CStr) (t : CStr)
    (h : MqttHeap) : Prop :=
  let first := mqttPackUnsubscribePkt buf pktId (ts.map some) h
  StepsAgree (mqttPackUnsubscribePkt buf pktId ((ts ++ [t]).map some) h)
    (mqttAppendUnsubscribeTopic first.2.1 t first.2.2) (unsubscribePacket pktId (ts ++ [t]))

/-- The first byte of what a packer of topics leaves on an empty buffer, if it leaves
anything. -/
theorem TopicsPacked.firstByte {head : UInt8} {tail : List UInt8} {pktId : UInt16}
    {topics : List (Option CStr)} {buf : MqttBuffer} {h : MqttHeap} {r : Packed}
    (hp : TopicsPacked head tail pktId topics buf h r) (hnil : buf.extents = [])
    (hm : MemoryOk [] [5, topicsLen tail topics] buf h)
    (hwhole : TopicsWhole tail pktId topics buf h) :
    ∀ e ∈ r.2.1.extents.head?, r.2.2.mem e.payload = head := by
  have hregions : extentRegions buf.extents = [] := by
    rw [hnil]
    rfl
  have hpacket := (hp.whole_iff (by rwa [hregions])).mpr hwhole
  cases hp with
  | refused hno hrefused =>
      have hlist := (hrefused [] (.start hm) (by simp [hregions])).untouched.extents
      rw [hlist, hnil]
      simp
  | packed fixedHead ext buf₁ buf₂ h₁ h₂ hacc hfix hext hr =>
      have hcode : r.1 = mqtterrNoerror := by rw [hr]
      obtain ⟨bytes, hbytes, hgrown⟩ := hpacket.resolve_right (not_refused_of_code hcode)
      obtain ⟨-, rfl⟩ := describe_eq_some.mp hbytes
      set field := (encode (topicsLen tail topics).toNat).length with hfield
      have hlist : r.2.1.extents = [] ++ [fixedHead.withField field, ext] := by
        obtain ⟨hlist₁, -⟩ := frame_of_alloc hfix
        obtain ⟨hlist₂, -⟩ := frame_of_alloc hext
        rw [hr]
        simp only [mqttBufferAppendExtent, hlist₂, hlist₁, hnil, List.nil_append,
          List.cons_append]
      have hflat := hgrown.flatten (hnil ▸ hlist)
      have hlen : (fixedHead.withField field).len.toNat = field + 1 :=
        toNat_len_withField fixedHead (length_encode_bounds hacc.total).2
      rw [flattenExtents_cons, hlen, readMem, framed, List.cons_append, List.cons_append] at hflat
      intro e he
      rw [hlist] at he
      obtain rfl : fixedHead.withField field = e := Option.some.inj he
      exact (List.cons.inj hflat).1

/-- Without a packet of the right first byte nothing is appended. -/
theorem mqttAppendTopic_refused {head : UInt8} (tail : List UInt8) {buf : MqttBuffer}
    (topic : Option CStr) {h : MqttHeap}
    (hhead : ∀ e ∈ buf.extents.head?, h.mem e.payload ≠ head) :
    (mqttAppendTopic head tail buf topic h).1 = mqtterrInvalidParameter := by
  unfold mqttAppendTopic
  split
  · next fixedHead rest topic hlist =>
      rw [if_pos (hhead fixedHead (by rw [hlist]; rfl))]
  · rfl

/-- Topics of which every one fits, with a length that does not wrap. -/
theorem topicsWhole_of_fits {tail : List UInt8} (pktId : UInt16) {ts : List CStr}
    (buf : MqttBuffer) (h : MqttHeap) (hfits : ∀ s ∈ ts, s.bytes.length < 2 ^ 16)
    (hlen : (topicTexts tail (ts.map some)).length < 2 ^ 21) :
    TopicsWhole tail pktId (ts.map some) buf h := by
  refine fun _ => ⟨fun topic htopic s hs => ?_, by omega⟩
  obtain ⟨s', hs', rfl⟩ := List.mem_map.mp htopic
  exact hfits s (Option.some.inj hs ▸ hs')

/-- No topic can be appended to a packet that the SDK has packed, whatever its topics: neither
the two ways to subscribe nor the two ways to unsubscribe agree. -/
theorem appendTopic_never_agrees (buf : MqttBuffer) (pktId : UInt16) (qos : UInt32)
    (ts : List CStr) (t : CStr) (h : MqttHeap) (hfits : ∀ s ∈ ts, s.bytes.length < 2 ^ 16)
    (hlen : (topicTexts [qos.toUInt8] (ts.map some)).length < 2 ^ 21)
    (hlen' : (topicTexts [] (ts.map some)).length < 2 ^ 21) (hnil : buf.extents = [])
    (hm : MemoryOk [] [5, topicsLen [qos.toUInt8] (ts.map some)] buf h)
    (hm' : MemoryOk [] [5, topicsLen [] (ts.map some)] buf h) :
    ¬ SubscribeAgrees buf pktId qos ts t h ∧ ¬ UnsubscribeAgrees buf pktId ts t h := by
  have hsub := (mqttPackSubscribePkt_cases buf pktId qos (ts.map some) h).firstByte hnil hm
    (topicsWhole_of_fits pktId buf h hfits hlen)
  have hunsub := (mqttPackUnsubscribePkt_cases buf pktId (ts.map some) h).firstByte hnil hm'
    (topicsWhole_of_fits pktId buf h hfits hlen')
  constructor
  · intro hagree
    have hcode := hagree.two_code
    rw [mqttAppendSubscribeTopic, mqttAppendTopic_refused] at hcode
    · exact absurd hcode (by decide)
    · intro e he
      rw [hsub e he]
      decide
  · intro hagree
    have hcode := hagree.two_code
    rw [mqttAppendUnsubscribeTopic, mqttAppendTopic_refused] at hcode
    · exact absurd hcode (by decide)
    · intro e he
      rw [hunsub e he]
      decide

/-- The topics `a` and `b`, in a memory with room for them. -/
def topicA : CStr := ⟨[0x61], a_nonzero, a_length_lt⟩

def topicB : CStr := ⟨[0x62], by decide, by decide⟩

def roomyHeap : MqttHeap := ⟨fun _ => 0, [some 0x1000, some 0x2000], []⟩

theorem appendTopic_never_agrees_ab :
    ¬ SubscribeAgrees mqttBufferInit 1 1 [topicA] topicB roomyHeap ∧
      ¬ UnsubscribeAgrees mqttBufferInit 1 [topicA] topicB roomyHeap :=
  appendTopic_never_agrees mqttBufferInit 1 1 [topicA] topicB roomyHeap (by decide) (by decide)
    (by decide) rfl ⟨by decide, .inl rfl, by decide +kernel⟩
    ⟨by decide, .inl rfl, by decide +kernel⟩

/-- A subscription to `a` is packed, and `b` is not appended to it; nor is the packet that is
packed for both of them a `SUBSCRIBE` packet of the protocol. -/
theorem mqttAppendSubscribeTopic_refuses :
    let first := mqttPackSubscribePkt mqttBufferInit 1 1 [some topicA] roomyHeap
    let one := mqttPackSubscribePkt mqttBufferInit 1 1 [some topicA, some topicB] roomyHeap
    first.1 = mqtterrNoerror ∧
      (mqttAppendSubscribeTopic first.2.1 topicB 1 first.2.2).1 = mqtterrInvalidParameter ∧
      (flattenExtents one.2.2.mem one.2.1.extents).head? = some 0x80 ∧
      ¬ SubscribeAgrees mqttBufferInit 1 1 [topicA] topicB roomyHeap := by
  intro first one
  have hrefused : (mqttAppendSubscribeTopic first.2.1 topicB 1 first.2.2).1 =
      mqtterrInvalidParameter := by decide +kernel
  refine ⟨by decide +kernel, hrefused, by decide +kernel, fun hagree => ?_⟩
  have hcode : mqtterrInvalidParameter = mqtterrNoerror := hrefused.symm.trans hagree.two_code
  exact absurd hcode (by decide)

end Mqtt
