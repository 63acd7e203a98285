import Esp32AtMqtt.Mqtt.Binary
import Esp32AtMqtt.Mqtt.Connect
import Esp32AtMqtt.Mqtt.TopicEntry

/-!
# Packing is all or nothing

The seven functions that pack a packet of a client or append to one. Each is to pack the whole
packet that its arguments describe, or to report an error with nothing changed. When that is so
has been found out for each of them; `PackCall.allOrNothing_iff` puts it together.
-/

namespace Mqtt

open FlatMemory

/-- A call that packs a packet, or that appends a topic to one. -/
inductive PackCall
  | connect (a : ConnectArgs)
  | publish (a : PublishArgs)
  | subscribe (pktId : UInt16) (qos : UInt32) (topics : List (Option CStr))
  | unsubscribe (pktId : UInt16) (topics : List (Option CStr))
  | appendSubscribeTopic (topic : Option CStr) (qos : UInt32)
  | appendUnsubscribeTopic (topic : Option CStr)
  | dataPointByBinary (a : BinaryArgs)

namespace PackCall

/-- The call. -/
def run (formatTime : FormatTime) (buf : MqttBuffer) (h : MqttHeap) : PackCall → Packed
  | connect a => mqttPackConnectPkt buf a h
  | publish a => mqttPackPublishPkt buf a h
  | subscribe pktId qos topics => mqttPackSubscribePkt buf pktId qos topics h
  | unsubscribe pktId topics => mqttPackUnsubscribePkt buf pktId topics h
  | appendSubscribeTopic topic qos => mqttAppendSubscribeTopic buf topic qos h
  | appendUnsubscribeTopic topic => mqttAppendUnsubscribeTopic buf topic h
  | dataPointByBinary a => mqttPackDataPointByBinary formatTime buf a h

/-- The call has packed the whole packet (or added the whole entry of the topic, with the length
in the header), or it has reported an error and changed nothing. -/
def AllOrNothing (formatTime : FormatTime) (buf : MqttBuffer) (h : MqttHeap) (c : PackCall) :
    Prop :=
  match c with
  | connect a => Whole buf h a.packet (c.run formatTime buf h)
  | publish a => Whole buf h (a.packet h) (c.run formatTime buf h)
  | subscribe pktId qos topics =>
      Whole buf h (topicsPacket 0x80 [qos.toUInt8] pktId topics) (c.run formatTime buf h)
  | unsubscribe pktId topics =>
      Whole buf h (topicsPacket 0xA0 [] pktId topics) (c.run formatTime buf h)
  | appendSubscribeTopic topic qos =>
      EntryWhole 0x82 (topicText [qos.toUInt8] topic) buf h (c.run formatTime buf h)
  | appendUnsubscribeTopic topic =>
      EntryWhole 0xA2 (topicText [] topic) buf h (c.run formatTime buf h)
  | dataPointByBinary a => Whole buf h (a.packet formatTime h) (c.run formatTime buf h)

/-- What the call finds in the memory: the extents in the list and the data of the caller lie
apart from the free part of the buffer, and `malloc` hands out chunks apart from all of them. -/
def MemoryFit (buf : MqttBuffer) (h : MqttHeap) : PackCall → Prop
  | connect a => MemoryOk (extentRegions buf.extents) a.extentSizes buf h
  | publish a => MemoryOk (a.payloadRegions ++ extentRegions buf.extents) a.extentSizes buf h
  | subscribe _ qos topics =>
      MemoryOk (extentRegions buf.extents) [5, topicsLen [qos.toUInt8] topics] buf h
  | unsubscribe _ topics => MemoryOk (extentRegions buf.extents) [5, topicsLen [] topics] buf h
  | appendSubscribeTopic topic qos => EntryMemoryOk 0x82 [qos.toUInt8] buf topic h
  | appendUnsubscribeTopic topic => EntryMemoryOk 0xA2 [] buf topic h
  | dataPointByBinary a =>
      MemoryOk (a.dataRegions ++ extentRegions buf.extents) a.extentSizes buf h

/-- Whatever the call accepts can be packed as it is. -/
def Packable (formatTime : FormatTime) (buf : MqttBuffer) (h : MqttHeap) : PackCall → Prop
  | connect a => ConnectWhole a buf h
  | publish a => PublishWhole a buf h
  | subscribe pktId qos topics => TopicsWhole [qos.toUInt8] pktId topics buf h
  | unsubscribe pktId topics => TopicsWhole [] pktId topics buf h
  | appendSubscribeTopic topic qos => TopicEntryWhole 0x82 [qos.toUInt8] buf topic h
  | appendUnsubscribeTopic topic => TopicEntryWhole 0xA2 [] buf topic h
  | dataPointByBinary a => BinaryWhole formatTime a buf h

/-- The seven functions are all or nothing exactly where what they accept can be packed. -/
theorem allOrNothing_iff (formatTime : FormatTime) (buf : MqttBuffer) (h : MqttHeap)
    (c : PackCall) (hm : c.MemoryFit buf h) :
    c.AllOrNothing formatTime buf h ↔ c.Packable formatTime buf h := by
  cases c with
  | connect a => exact connect_whole_iff hm
  | publish a => exact publish_whole_iff hm
  | subscribe pktId qos topics =>
      exact (mqttPackSubscribePkt_cases buf pktId qos topics h).whole_iff hm
  | unsubscribe pktId topics =>
      exact (mqttPackUnsubscribePkt_cases buf pktId topics h).whole_iff hm
  | appendSubscribeTopic topic qos => exact mqttAppendTopic_whole_iff (by simp) hm
  | appendUnsubscribeTopic topic => exact mqttAppendTopic_whole_iff (by simp) hm
  | dataPointByBinary a => exact binary_whole_iff hm

end PackCall

/-- Two bytes at the address 256, for the data stream `a`. -/
def pointArgs : BinaryArgs :=
  ⟨7, some ⟨[0x61], a_nonzero, a_length_lt⟩, none, 0, 0x100, 2, 0, false, false, true⟩

/-- A memory with these bytes, and two addresses for `malloc`. -/
def pointHeap : MqttHeap :=
  ⟨fun a => if a = 0x100 then 0x68 else if a = 0x101 then 0x69 else 0,
    [some 0x1000, some 0x2000], []⟩

/-- The data point is packed whole: one packet on the topic `$SAVEDATA`. -/
theorem allOrNothing_point :
    (PackCall.dataPointByBinary pointArgs).AllOrNothing (fun _ => none) mqttBufferInit pointHeap ∧
      let r := mqttPackDataPointByBinary (fun _ => none) mqttBufferInit pointArgs pointHeap
      r.1 = mqtterrNoerror ∧ flattenExtents r.2.2.mem r.2.1.extents =
        [0x30, 21, 0, 9, 0x24, 0x53, 0x41, 0x56, 0x45, 0x44, 0x41, 0x54, 0x41,
          4, 0, 1, 0x61, 0, 0, 0, 2, 0x68, 0x69] := by
  have hpackable : (PackCall.dataPointByBinary pointArgs).Packable (fun _ => none) mqttBufferInit
      pointHeap := by
    intro dsid hacc
    cases hacc.dsid
    exact ⟨[], by decide +kernel, fun _ hdesc => absurd hdesc (Option.not_mem_none _),
      ⟨rfl, rfl, rfl, rfl, trivial⟩, rfl, by decide, by decide⟩
  refine ⟨(PackCall.allOrNothing_iff _ _ _ (.dataPointByBinary pointArgs)
    ⟨by decide +kernel, .inl rfl, by decide +kernel⟩).mpr hpackable, by decide +kernel⟩

/-- A payload of 2000 bytes, which is to be copied. -/
def largeArgs : PublishArgs :=
  ⟨7, ⟨[0x61], a_nonzero, a_length_lt⟩, 0x100, 2000, 0, false, true⟩

/-- There is memory for the header and none for the payload: the packet is reported as packed,
with the payload missing. -/
theorem publish_without_payload :
    ¬ ∀ (formatTime : FormatTime) (buf : MqttBuffer) (h : MqttHeap) (c : PackCall),
      c.MemoryFit buf h → c.AllOrNothing formatTime buf h := by
  intro hall
  have hm : (PackCall.publish largeArgs).MemoryFit mqttBufferInit pointHeap :=
    ⟨by decide +kernel, .inl rfl, by decide +kernel⟩
  have hwhole := (publish_whole_iff hm).mp (hall (fun _ => none) _ _ _ hm)
  have hacc : PublishAccepted largeArgs mqttBufferInit pointHeap :=
    ⟨by decide, by decide, by decide +kernel, .inl rfl, by decide, rfl, rfl, trivial⟩
  obtain hzero | hextents := (hwhole hacc).2.2
  · exact absurd hzero (by decide)
  · exact absurd hextents.2.2.1 (by decide +kernel)

end Mqtt
