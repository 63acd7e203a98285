import Esp32AtMqtt.Codec.ControlPacket
import Esp32AtMqtt.Mqtt.DataPoint
import Esp32AtMqtt.Mqtt.RoundTrip

/-!
# The answer to a command

`Mqtt_PackCmdRetPkt` builds the topic in an extent of its own. The size it asks for is that of
the identifier, a null byte and the five characters `$creq`; what it stores is the six
characters `$crsp/`, the identifier and the null byte, one byte more for every identifier.

`cmdRetStores` are the two stores to that extent, `memcpy` and `strcpy`. The packet that is
built from the topic is the right one (`mqttPackCmdRetPkt_publishes`).
-/

namespace Mqtt

open FlatMemory Base128

/-- The size that is asked for. -/
def cmdRetSize (cmdid : CStr) : UInt32 := cmdid.strlen + 1 + 5

/-- The stores to the extent of the topic, each with its address. -/
def cmdRetStores (ext : MqttExtent) (cmdid : CStr) : List (UInt32 × List UInt8) :=
  [(ext.payload, respCmdTopicPrefix),
    (ext.payload + UInt32.ofNat respCmdTopicPrefix.length, cmdid.bytes ++ [0])]

/-- The heap behind the stores. -/
def MqttHeap.storeAll (h : MqttHeap) (stores : List (UInt32 × List UInt8)) : MqttHeap :=
  stores.foldl (fun h s => h.write s.1 s.2) h

/-- Every byte that is stored lies in the extent. -/
def StoresInside (ext : MqttExtent) (stores : List (UInt32 × List UInt8)) : Prop :=
  ∀ s ∈ stores, ∀ i < s.2.length,
    ∃ k < ext.len.toNat, s.1 + UInt32.ofNat i = ext.payload + UInt32.ofNat k

/-- The level that is packed. -/
def cmdRetQos (qos : UInt32) : UInt32 := if qos = 1 then 1 else 0

/-- The `PUBLISH` packet that the answer should be. -/
def cmdRetPacket (pktId : UInt16) (cmdid : CStr) (body : List UInt8) (qos : UInt32) :
    ControlPacket :=
  .publish (cmdRetQos qos).toUInt8 false (respCmdTopicPrefix ++ cmdid.bytes)
    (if cmdRetQos qos = 0 then 0 else pktId) body

/-- The stores to the extent of the topic stay in it, and the list holds the answer. -/
structure CmdRetExact (buf : MqttBuffer) (pktId : UInt16) (cmdid : CStr)
    (ret retLen qos : UInt32) (own : Bool) (h : MqttHeap) : Prop where
  inside : ∀ ext ∈ (mqttBufferAllocExtent buf (cmdRetSize cmdid) h).1,
    StoresInside ext (cmdRetStores ext cmdid)
  code : (mqttPackCmdRetPkt buf pktId cmdid ret retLen qos own h).1 = mqtterrNoerror
  packet : (cmdRetPacket pktId cmdid (readMem h.mem ret retLen.toNat) qos).Decodes
    (flattenExtents (mqttPackCmdRetPkt buf pktId cmdid ret retLen qos own h).2.2.mem
      (mqttPackCmdRetPkt buf pktId cmdid ret retLen qos own h).2.1.extents)

theorem toNat_cmdRetSize (cmdid : CStr) :
    (cmdRetSize cmdid).toNat = cmdid.bytes.length + 6 := by
  have hlt := cmdid.length_lt
  rw [cmdRetSize, UInt32.toNat_add, UInt32.toNat_add, toNat_strlen]
  simp only [UInt32.reduceToNat]
  omega

/-- The null byte of the topic is stored behind the extent. -/
theorem not_storesInside {buf : MqttBuffer} {cmdid : CStr} {h : MqttHeap} {ext : MqttExtent}
    (hext : (mqttBufferAllocExtent buf (cmdRetSize cmdid) h).1 = some ext) :
    ¬ StoresInside ext (cmdRetStores ext cmdid) := by
  intro hinside
  have hlt := cmdid.length_lt
  have hlen : ext.len.toNat = cmdid.bytes.length + 6 := by
    rw [mqttBufferAllocExtent_len hext, toNat_cmdRetSize]
  have hnull : cmdid.bytes.length < (cmdid.bytes ++ [0]).length := by simp
  obtain ⟨k, hk, heq⟩ := hinside _ (List.mem_cons_of_mem _ List.mem_cons_self) _ hnull
  rw [UInt32.add_assoc, ← UInt32.ofNat_add] at heq
  have hsix : respCmdTopicPrefix.length = 6 := rfl
  exact ofNat_add_ne (by omega) (by omega) (by omega) heq

/-- The function is its two stores, and `Mqtt_PackPublishPkt`. -/
theorem mqttPackCmdRetPkt_eq {buf : MqttBuffer} {cmdid topic : CStr} {h : MqttHeap}
    {ext : MqttExtent} (pktId : UInt16) (ret retLen qos : UInt32) (own : Bool)
    (htopic : cmdRetTopic cmdid = some topic)
    (hext : (mqttBufferAllocExtent buf (cmdRetSize cmdid) h).1 = some ext) :
    mqttPackCmdRetPkt buf pktId cmdid ret retLen qos own h =
      mqttPackPublishPkt (mqttBufferAllocExtent buf (cmdRetSize cmdid) h).2.1
        ⟨pktId, topic, ret, retLen, cmdRetQos qos, false, own⟩
        ((mqttBufferAllocExtent buf (cmdRetSize cmdid) h).2.2.storeAll
          (cmdRetStores ext cmdid)) := by
  have hbytes : topic.bytes = respCmdTopicPrefix ++ cmdid.bytes := by
    rw [cmdRetTopic] at htopic
    split at htopic
    · exact congrArg CStr.bytes (Option.some.inj htopic).symm
    · cases htopic
  have hstores : ∀ h' : MqttHeap, h'.storeAll (cmdRetStores ext cmdid) =
      h'.write ext.payload (topic.bytes ++ [0]) := by
    intro h'
    rw [hbytes, List.append_assoc, MqttHeap.write, writeMem_append]
    rfl
  obtain ⟨hnone, -⟩ | ⟨e, he, heq⟩ := withExtent_cases buf (cmdid.strlen + 1 + 5) h
    fun ext buf h => mqttPackPublishPkt buf
      ⟨pktId, topic, ret, retLen, cmdRetQos qos, false, own⟩
      (h.write ext.payload (topic.bytes ++ [0]))
  · rw [cmdRetSize, hnone] at hext
    cases hext
  · obtain rfl : e = ext := by
      rw [cmdRetSize, he] at hext
      exact Option.some.inj hext
    rw [hstores, mqttPackCmdRetPkt, htopic]
    exact heq

/-- The arguments that are passed on. -/
def cmdRetArgs (pktId : UInt16) (topic : CStr) (ret retLen qos : UInt32) (own : Bool) :
    PublishArgs := ⟨pktId, topic, ret, retLen, cmdRetQos qos, false, own⟩

theorem cmdRetQos_cases (qos : UInt32) : cmdRetQos qos = 0 ∨ cmdRetQos qos = 1 := by
  rw [cmdRetQos]
  split
  · exact .inr rfl
  · exact .inl rfl

/-- The topic of an answer is accepted. -/
theorem cmdRetTopic_plain {cmdid topic : CStr}
    (htopic : topic.bytes = respCmdTopicPrefix ++ cmdid.bytes)
    (hascii : ∀ b ∈ cmdid.bytes, b < 0x80 ∧ b ≠ 0x2B ∧ b ≠ 0x23) :
    ∀ b ∈ topic.bytes, b < 0x80 ∧ b ≠ 0x2B ∧ b ≠ 0x23 := by
  have hplain : respCmdTopicPrefix.all
      (fun b => decide (b < 0x80 ∧ b ≠ 0x2B ∧ b ≠ 0x23)) = true := rfl
  rw [htopic]
  refine List.forall_mem_append.mpr ⟨fun b hb => ?_, hascii⟩
  exact of_decide_eq_true (List.all_eq_true.mp hplain b hb)

/-- The bytes of the body are still there when the stores are done, if the null byte behind
the extent is none of them. -/
theorem readMem_storeAll {rs : List Region} {ns : List UInt32} {buf : MqttBuffer}
    {cmdid : CStr} {h h₁ : MqttHeap} {ext : MqttExtent}
    (hd : Drafted rs h ns [(ext, [])] buf h₁) (hlen : ext.len.toNat = cmdid.bytes.length + 6)
    {r : Region} (hr : r ∈ rs)
    (hspill : ∀ i < r.size, r.base + UInt32.ofNat i ≠ ext.payload + ext.len) :
    readMem (h₁.storeAll (cmdRetStores ext cmdid)).mem r.base r.size =
      readMem h.mem r.base r.size := by
  have hfits : ext.region.Fits := hd.fits (ext, []) List.mem_cons_self
  have hdisjoint : r.Disjoint ext.region := hd.clear (ext, []) List.mem_cons_self r hr
  have hsix : (respCmdTopicPrefix ++ cmdid.bytes).length = ext.len.toNat := by
    rw [List.length_append, hlen, Nat.add_comm]
    rfl
  have hzero : ext.payload + UInt32.ofNat 0 = ext.payload := UInt32.add_zero ext.payload
  have htopic := readMem_write_extent h₁.mem (k := 0) hfits
    (by rw [Nat.zero_add, hsix]) (hd.keptFits r hr) hdisjoint
  rw [hzero] at htopic
  have hstores : (h₁.storeAll (cmdRetStores ext cmdid)).mem =
      writeMem (writeMem h₁.mem ext.payload (respCmdTopicPrefix ++ cmdid.bytes))
        (ext.payload + ext.len) [0] := by
    rw [← UInt32.ofNat_toNat (x := ext.len), ← hsix, ← writeMem_append, List.append_assoc,
      writeMem_append]
    rfl
  rw [← hd.kept r hr, ← htopic, hstores]
  -- the last byte is the one behind the extent
  refine readMem_congr fun i hi => writeMem_of_ne _ fun j hj => ?_
  obtain rfl : j = 0 := Nat.lt_one_iff.mp hj
  rw [show UInt32.ofNat 0 = 0 from rfl, UInt32.add_zero]
  exact hspill i hi

/-- What `Mqtt_PackPublishPkt` finds in the memory behind the stores. -/
theorem memoryOk_storeAll {rs : List Region} {ns : List UInt32} {buf : MqttBuffer}
    {h h₁ : MqttHeap} {ext : MqttExtent} (hd : Drafted rs h ns [(ext, [])] buf h₁)
    (cmdid : CStr) : MemoryOk rs ns buf (h₁.storeAll (cmdRetStores ext cmdid)) := by
  have hallocs := hd.allocs.mono fun r hr => List.mem_append_right _ hr
  refine ⟨hd.keptFits, ?_, ?_⟩
  · exact hd.room.imp_right fun h => ⟨h.1, fun r hr => h.2 r (List.mem_append_right _ hr)⟩
  · exact (allocsOk_with rs ns buf buf.extents buf.bufferedBytes h₁ _).mpr hallocs

/-- The packet that is packed, as bytes. -/
theorem bytes_cmdRetPacket {pktId : UInt16} {cmdid topic : CStr} (ret retLen qos : UInt32)
    (own : Bool) (body : List UInt8) (htopic : topic.bytes = respCmdTopicPrefix ++ cmdid.bytes) :
    (cmdRetPacket pktId cmdid body qos).bytes =
      framed (cmdRetArgs pktId topic ret retLen qos own).firstByte
        (text topic.bytes ++ (cmdRetArgs pktId topic ret retLen qos own).idBytes ++ body) := by
  rw [htopic, List.append_assoc, framed, ControlPacket.bytes]
  rcases cmdRetQos_cases qos with hq | hq
  · simp only [cmdRetPacket, ControlPacket.body, ControlPacket.header, cmdRetArgs,
      PublishArgs.firstByte, PublishArgs.head, PublishArgs.idBytes, hq]
    rfl
  · simp only [cmdRetPacket, ControlPacket.body, ControlPacket.header, cmdRetArgs,
      PublishArgs.firstByte, PublishArgs.head, PublishArgs.idBytes, hq]
    rfl

/-- For no identifier does the function do what it should: whenever the first allocation
succeeds, one byte is stored outside the extent. -/
theorem mqttPackCmdRetPkt_never_exact (buf : MqttBuffer) (pktId : UInt16) (cmdid : CStr)
    (ret retLen qos : UInt32) (own : Bool) (h : MqttHeap)
    (hall : Allocates [cmdRetSize cmdid] buf h) :
    ¬ CmdRetExact buf pktId cmdid ret retLen qos own h := by
  intro hexact
  obtain ⟨ext, hext⟩ := Option.isSome_iff_exists.mp hall.1
  exact not_storesInside hext (hexact.inside ext hext)

/-- The identifier `7`. -/
def sevenId : CStr := ⟨[0x37], by decide, by decide⟩

/-- The answer `hi` to the command `7`, at level 1. -/
theorem mqttPackCmdRetPkt_never_exact_seven :
    ¬ CmdRetExact mqttBufferInit 1 sevenId 0x100 2 1 true hiHeap :=
  mqttPackCmdRetPkt_never_exact mqttBufferInit 1 sevenId 0x100 2 1 true hiHeap ⟨rfl, trivial⟩

/-- The extent for the topic `$crsp/7` has seven bytes, and the null byte is stored as the
eighth. -/
theorem mqttPackCmdRetPkt_spills :
    (mqttBufferAllocExtent mqttBufferInit (cmdRetSize sevenId) hiHeap).1 = some ⟨7, 0x200C⟩ ∧
      cmdRetStores ⟨7, 0x200C⟩ sevenId =
        [(0x200C, respCmdTopicPrefix), (0x2012, [0x37, 0])] ∧
      ¬ CmdRetExact mqttBufferInit 1 sevenId 0x100 2 1 true hiHeap := by
  have hext : (mqttBufferAllocExtent mqttBufferInit (cmdRetSize sevenId) hiHeap).1 =
      some ⟨7, 0x200C⟩ := rfl
  exact ⟨hext, rfl, fun hexact => not_storesInside hext (hexact.inside _ hext)⟩

/-- The topic and the body are accepted for a packet. -/
theorem publishAccepted_cmdRet {buf : MqttBuffer} {pktId : UInt16} {topic : CStr}
    {ret retLen qos : UInt32} {own : Bool} {h : MqttHeap} (hid : pktId ≠ 0)
    (hplain : ∀ b ∈ topic.bytes, b < 0x80 ∧ b ≠ 0x2B ∧ b ≠ 0x23)
    (hsize : (cmdRetArgs pktId topic ret retLen qos own).bodyLen < 2 ^ 28)
    (hall : Allocates (cmdRetArgs pktId topic ret retLen qos own).extentSizes buf h) :
    PublishAccepted (cmdRetArgs pktId topic ret retLen qos own) buf h := by
  have htotal := toNat_totalLen (a := cmdRetArgs pktId topic ret retLen qos own) (by omega)
  refine ⟨hid, fun hwild => ?_, ?_, ?_, by omega, ?_⟩
  · obtain ⟨c, hc, hbad⟩ := List.any_eq_true.mp hwild
    obtain ⟨-, hplus, hhash⟩ := hplain c hc
    simp [hplus, hhash] at hbad
  · have hcheck := mqttCheckUtf8_ascii (fun b hb => (hplain b hb).1) topic.nonzero []
    rw [List.append_nil] at hcheck
    exact decide_eq_true hcheck
  · exact (cmdRetQos_cases qos).imp_right .inl
  · rw [PublishArgs.extentSizes] at hall
    exact hall.of_append

/-- The packet is the right one all the same, as long as the byte behind the extent is none of
the body: it is the `PUBLISH` packet of the body to `$crsp/` and the identifier. -/
theorem mqttPackCmdRetPkt_publishes {buf : MqttBuffer} {pktId : UInt16} {cmdid topic : CStr}
    {ret retLen qos : UInt32} {own : Bool} {h : MqttHeap}
    (hascii : ∀ b ∈ cmdid.bytes, b < 0x80 ∧ b ≠ 0x2B ∧ b ≠ 0x23) (hid : pktId ≠ 0)
    (htopic : cmdRetTopic cmdid = some topic) (hfits : topic.bytes.length < 2 ^ 16)
    (hsize : (cmdRetArgs pktId topic ret retLen qos own).bodyLen < 2 ^ 28)
    (hnil : buf.extents = [])
    (hm : MemoryOk (cmdRetArgs pktId topic ret retLen qos own).payloadRegions
      (cmdRetSize cmdid :: (cmdRetArgs pktId topic ret retLen qos own).extentSizes) buf h)
    (hall : Allocates
      (cmdRetSize cmdid :: (cmdRetArgs pktId topic ret retLen qos own).extentSizes) buf h)
    (hspill : ∀ ext ∈ (mqttBufferAllocExtent buf (cmdRetSize cmdid) h).1,
      ∀ i < retLen.toNat, ret + UInt32.ofNat i ≠ ext.payload + ext.len) :
    (mqttPackCmdRetPkt buf pktId cmdid ret retLen qos own h).1 = mqtterrNoerror ∧
      (cmdRetPacket pktId cmdid (readMem h.mem ret retLen.toNat) qos).Decodes
        (flattenExtents (mqttPackCmdRetPkt buf pktId cmdid ret retLen qos own h).2.2.mem
          (mqttPackCmdRetPkt buf pktId cmdid ret retLen qos own h).2.1.extents) := by
  obtain ⟨ext, hext⟩ := Option.isSome_iff_exists.mp hall.1
  have hbytes : topic.bytes = respCmdTopicPrefix ++ cmdid.bytes := by
    rw [cmdRetTopic] at htopic
    split at htopic
    · exact congrArg CStr.bytes (Option.some.inj htopic).symm
    · cases htopic
  rw [mqttPackCmdRetPkt_eq pktId ret retLen qos own htopic hext]
  set a := cmdRetArgs pktId topic ret retLen qos own with ha
  have hsmall : (cmdRetSize cmdid).toNat ≤ 2 ^ 32 - 16 := by
    have hlt := cmdid.length_lt
    rw [toNat_cmdRetSize]
    omega
  obtain ⟨hlen, hd⟩ := (Drafted.start hm).alloc hsmall hext
  set buf₁ := (mqttBufferAllocExtent buf (cmdRetSize cmdid) h).2.1 with hbuf₁
  set h₁ := (mqttBufferAllocExtent buf (cmdRetSize cmdid) h).2.2
  set h₂ := h₁.storeAll (cmdRetStores ext cmdid) with hh₂
  have hall₂ : Allocates a.extentSizes buf₁ h₂ := by
    refine (allocates_write _ _ _ _ _).mpr ((allocates_write _ _ _ _ _).mpr hall.2)
  have hm₂ : MemoryOk a.payloadRegions a.extentSizes buf₁ h₂ := memoryOk_storeAll hd cmdid
  have htotal := toNat_totalLen (a := a) (by omega)
  have hacc : PublishAccepted a buf₁ h₂ :=
    publishAccepted_cmdRet hid (cmdRetTopic_plain hbytes hascii) hsize hall₂
  have hmem : a.size ≠ 0 → a.payloadRegion ∈ a.payloadRegions := fun hne => by
    rw [PublishArgs.payloadRegions, if_neg hne]
    exact List.mem_singleton_self _
  obtain ⟨fixHead, variableHead, payload, ds, count, hp⟩ :=
    publish_packs hacc (.start hm₂) (by omega) hmem
  have hnil₁ : buf₁.extents = [] := by
    rw [hbuf₁, (mqttBufferAllocExtent_frame buf (cmdRetSize cmdid) h).1, hnil]
  have hbody : a.payloadBytes h₂ = readMem h.mem ret retLen.toNat := by
    by_cases hzero : retLen = 0
    · rw [PublishArgs.payloadBytes, ha, cmdRetArgs, hzero]
      rfl
    · exact readMem_storeAll hd (by rw [hlen, toNat_cmdRetSize]) (hmem hzero) (hspill ext hext)
  have hflat := flatten_packed hp hnil₁ hfits (by omega) hall₂
  rw [hbody, htotal, ← length_publishBody a h₂, hbody] at hflat
  refine ⟨publish_code hacc, ⟨?_, ?_, ?_⟩, ?_⟩
  · rcases cmdRetQos_cases qos with hq | hq <;> rw [hq] <;> decide
  · rwa [← hbytes]
  · rcases cmdRetQos_cases qos with hq | hq <;> rw [hq]
    · simp
    · simpa using hid
  · rw [bytes_cmdRetPacket ret retLen qos own _ hbytes]
    exact hflat.symm

end Mqtt
