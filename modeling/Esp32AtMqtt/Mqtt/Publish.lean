import Esp32AtMqtt.Mqtt.Draft

/-!
# What packing a PUBLISH packet does

`PublishAccepted` are the tests of `Mqtt_PackPublishPkt`, the allocation of its two extents
among them. When one fails nothing has changed (`publish_refused`). When all pass the code
is `MQTTERR_NOERROR`, whatever becomes of the payload, and `PublishPacked` says what is in
the list.
-/

namespace Mqtt

open FlatMemory Base128

/-- All that `Mqtt_PackPublishPkt` tests. -/
structure PublishAccepted (a : PublishArgs) (buf : MqttBuffer) (h : MqttHeap) : Prop where
  pktId : a.pktId ≠ 0
  wildcards : ¬ a.topic.bytes.any fun c => c = 0x23 || c = 0x2B
  utf8 : a.topic.isUtf8 a.topic.bytes.length
  qos : a.qos = 0 ∨ a.qos = 1 ∨ a.qos = 2
  total : a.totalLen.toNat < 2 ^ 28
  allocates : Allocates [5, a.totalLen - a.size] buf h

namespace PublishArgs

variable (a : PublishArgs)

/-- The sizes of the extents that are allocated. -/
def extentSizes : List UInt32 :=
  [5, a.totalLen - a.size] ++ if a.size = 0 then [] else [appendExtentSize a.size a.own]

/-- The first byte. -/
def firstByte : UInt8 := a.head ||| (publishQosFlags a.qos).getD 0

/-- What is written behind the fixed header. -/
def variableHeader : List UInt8 :=
  pktString a.topic.bytes (UInt16.ofNat a.topic.bytes.length) ++ a.idBytes

/-- The bytes of the payload. -/
def payloadBytes (h : MqttHeap) : List UInt8 := readMem h.mem a.payload a.size.toNat

/-- Where the caller has the payload. -/
def payloadRegion : Region := ⟨a.payload, a.size.toNat⟩

/-- The payload of the caller, when there is one. -/
def payloadRegions : List Region := if a.size = 0 then [] else [a.payloadRegion]

/-- The length of the packet behind the fixed header, which `total_len` is when it does not
wrap. -/
def bodyLen : ℕ := a.topic.bytes.length + a.size.toNat + 2 + a.idBytes.length

end PublishArgs

theorem length_idBytes (a : PublishArgs) : a.idBytes.length = if a.qos = 0 then 0 else 2 := by
  rw [PublishArgs.idBytes]
  split <;> rfl

theorem toNat_strlen (s : CStr) : s.strlen.toNat = s.bytes.length := by
  have hlt := s.length_lt
  rw [CStr.strlen, UInt32.toNat_ofNat']
  omega

theorem length_pktString (str : List UInt8) (len : UInt16) :
    (pktString str len).length = 2 + min len.toNat str.length := by
  rw [pktString, List.length_append, List.length_take]
  rfl

/-- The extent behind the fixed header is as long as the topic and the identifier. -/
theorem toNat_variableLen (a : PublishArgs) :
    (a.totalLen - a.size).toNat = a.topic.bytes.length + 2 + a.idBytes.length := by
  have hlt := a.topic.length_lt
  have hsize := a.size.toNat_lt
  have hlen := toNat_strlen a.topic
  rw [PublishArgs.totalLen, length_idBytes, UInt32.toNat_sub, UInt32.toNat_add, UInt32.toNat_add,
    UInt32.toNat_add, hlen]
  split <;> simp only [UInt32.reduceToNat] <;> omega

/-- `total_len` is the length of the packet as long as that is below `2^32`. -/
theorem toNat_totalLen {a : PublishArgs} (h : a.bodyLen < 2 ^ 32) :
    a.totalLen.toNat = a.bodyLen := by
  have hlen := toNat_strlen a.topic
  rw [PublishArgs.bodyLen, length_idBytes] at h ⊢
  rw [PublishArgs.totalLen, UInt32.toNat_add, UInt32.toNat_add, UInt32.toNat_add, hlen]
  split at h <;> simp_all only [UInt32.reduceToNat, if_true, if_false] <;> omega

/-- What is written to the second extent fits. -/
theorem length_variableHeader_le (a : PublishArgs) :
    a.variableHeader.length ≤ (a.totalLen - a.size).toNat := by
  rw [toNat_variableLen, PublishArgs.variableHeader, List.length_append, length_pktString]
  have hle := Nat.min_le_right (UInt16.ofNat a.topic.bytes.length).toNat a.topic.bytes.length
  omega

theorem publishQosFlags_eq_none {qos : UInt32} :
    publishQosFlags qos = none ↔ ¬ (qos = 0 ∨ qos = 1 ∨ qos = 2) := by
  unfold publishQosFlags
  split_ifs with h0 h1 h2 <;> simp_all

theorem refused_at_once (buf : MqttBuffer) (h : MqttHeap) {code : ℤ} (hcode : IsError code) :
    Refused buf h (code, buf, h) := ⟨hcode, .refl buf h⟩

/-- When both extents are there, every test has passed. -/
theorem publishAccepted_of_extents {a : PublishArgs} {buf : MqttBuffer} {h : MqttHeap}
    (hid : a.pktId ≠ 0) (hwild : ¬ a.topic.bytes.any fun c => c = 0x23 || c = 0x2B)
    (hutf8 : ¬ ¬ a.topic.isUtf8 a.topic.bytes.length) {flags : UInt8}
    (hqos : publishQosFlags a.qos = some flags) (htotal : a.totalLen.toNat < 2 ^ 28)
    {fixHead variableHead : MqttExtent} (hfix : (mqttBufferAllocExtent buf 5 h).1 = some fixHead)
    (hvar : (mqttBufferAllocExtent (mqttBufferAllocExtent buf 5 h).2.1 (a.totalLen - a.size)
      (dumpLengthInto fixHead a.totalLen ((mqttBufferAllocExtent buf 5 h).2.2.write
        fixHead.payload [a.head ||| flags])).2).1 = some variableHead) :
    PublishAccepted a buf h := by
  refine ⟨hid, hwild, not_not.mp hutf8, ?_, htotal, ?_, ?_⟩
  · by_contra hq
    rw [publishQosFlags_eq_none.mpr hq] at hqos
    cases hqos
  · rw [hfix]
    rfl
  · have hall : Allocates [a.totalLen - a.size] (mqttBufferAllocExtent buf 5 h).2.1
        (dumpLengthInto fixHead a.totalLen ((mqttBufferAllocExtent buf 5 h).2.2.write
          fixHead.payload [a.head ||| flags])).2 := ⟨by rw [hvar]; rfl, trivial⟩
    rwa [dumpLengthInto, allocates_write, allocates_write] at hall

/-- The packet is reported as packed only when every test has passed. -/
theorem publish_accepted {a : PublishArgs} {buf : MqttBuffer} {h : MqttHeap}
    (hcode : (mqttPackPublishPkt buf a h).1 = mqtterrNoerror) : PublishAccepted a buf h := by
  unfold mqttPackPublishPkt at hcode
  by_cases hid : a.pktId = 0
  · rw [if_pos hid] at hcode
    exact (by decide : mqtterrInvalidParameter ≠ mqtterrNoerror).elim hcode
  rw [if_neg hid] at hcode
  by_cases hwild : a.topic.bytes.any fun c => c = 0x23 || c = 0x2B
  · rw [if_pos hwild] at hcode
    exact (by decide : mqtterrInvalidParameter ≠ mqtterrNoerror).elim hcode
  rw [if_neg hwild] at hcode
  by_cases hutf8 : ¬ a.topic.isUtf8 a.topic.bytes.length
  · rw [if_pos hutf8] at hcode
    exact (by decide : mqtterrNotUtf8 ≠ mqtterrNoerror).elim hcode
  rw [if_neg hutf8] at hcode
  obtain ⟨-, heq⟩ | ⟨fixHead, hfix, heq⟩ := withExtent_cases buf 5 h _
  · rw [heq] at hcode
    exact (by decide : mqtterrOutofmemory ≠ mqtterrNoerror).elim hcode
  rw [heq] at hcode
  cases hqos : publishQosFlags a.qos with
  | none =>
      simp only [hqos] at hcode
      exact (by decide : mqtterrInvalidParameter ≠ mqtterrNoerror).elim hcode
  | some flags =>
      simp only [hqos] at hcode
      rcases Nat.lt_or_ge a.totalLen.toNat (2 ^ 28) with htotal | htotal
      · rw [if_neg (by rw [dumpLengthInto_of_lt _ htotal]; omega)] at hcode
        obtain ⟨-, heq⟩ | ⟨variableHead, hvar, -⟩ := withExtent_cases
          (mqttBufferAllocExtent buf 5 h).2.1 (a.totalLen - a.size) _ _
        · rw [heq] at hcode
          exact (by decide : mqtterrOutofmemory ≠ mqtterrNoerror).elim hcode
        · exact publishAccepted_of_extents hid hwild hutf8 hqos htotal hfix hvar
      · rw [if_pos (by rw [dumpLengthInto_of_le _ htotal]; decide)] at hcode
        exact (by decide : mqtterrPktTooLarge ≠ mqtterrNoerror).elim hcode

/-- When a test fails nothing has changed. -/
theorem publish_refused {a : PublishArgs} {buf : MqttBuffer} {h : MqttHeap} {rs : List Region}
    (hd : Drafted rs h a.extentSizes [] buf h) (hrs : ∀ r ∈ extentRegions buf.extents, r ∈ rs)
    (hno : ¬ PublishAccepted a buf h) : Refused buf h (mqttPackPublishPkt buf a h) := by
  unfold mqttPackPublishPkt
  by_cases hid : a.pktId = 0
  · rw [if_pos hid]
    exact refused_at_once buf h (by decide)
  rw [if_neg hid]
  by_cases hwild : a.topic.bytes.any fun c => c = 0x23 || c = 0x2B
  · rw [if_pos hwild]
    exact refused_at_once buf h (by decide)
  rw [if_neg hwild]
  by_cases hutf8 : ¬ a.topic.isUtf8 a.topic.bytes.length
  · rw [if_pos hutf8]
    exact refused_at_once buf h (by decide)
  rw [if_neg hutf8]
  obtain ⟨-, heq⟩ | ⟨fixHead, hfix, heq⟩ := withExtent_cases buf 5 h _
  · rw [heq]
    exact refused_of_alloc buf 5 h
  rw [heq]
  obtain ⟨hext, hcount, -⟩ := mqttBufferAllocExtent_frame buf 5 h
  obtain ⟨hlen, hd₁⟩ := hd.alloc (by decide) hfix
  cases hqos : publishQosFlags a.qos with
  | none =>
      have hwrite := hd₁.writeFirst [] [a.head] (hlen ▸ (by decide : 1 ≤ (5 : UInt32).toNat))
      exact hwrite.refused hrs hext hcount (by decide)
  | some flags =>
      have hwrite := hd₁.writeFirst [] [a.head ||| flags]
        (hlen ▸ (by decide : 1 ≤ (5 : UInt32).toNat))
      have hdump := hwrite.dump [] hlen a.totalLen
      simp only
      rcases Nat.lt_or_ge a.totalLen.toNat (2 ^ 28) with htotal | htotal
      · rw [if_neg (by rw [dumpLengthInto_of_lt _ htotal]; omega)]
        obtain ⟨-, heq⟩ | ⟨variableHead, hvar, -⟩ := withExtent_cases
          (mqttBufferAllocExtent buf 5 h).2.1 (a.totalLen - a.size) _ _
        · rw [heq]
          obtain ⟨hext', hcount', -⟩ := mqttBufferAllocExtent_frame
            (mqttBufferAllocExtent buf 5 h).2.1 (a.totalLen - a.size) _
          exact hdump.skip.refused hrs (hext'.trans hext) (hcount'.trans hcount)
            (by decide)
        · exact absurd (publishAccepted_of_extents hid hwild hutf8 hqos htotal hfix hvar) hno
      · rw [if_pos (by rw [dumpLengthInto_of_le _ htotal]; decide)]
        exact hdump.refused hrs hext hcount (by decide)

/-- The first two extents of an accepted packet are in the list, and what is left to do is to
append the payload. -/
theorem publish_headers {a : PublishArgs} {buf : MqttBuffer} {h : MqttHeap}
    (hacc : PublishAccepted a buf h) :
    ∃ fixHead variableHead buf₂ h₂,
      mqttPackPublishPkt buf a h = (if a.size ≠ 0 then
        (mqtterrNoerror, (mqttBufferAppend buf₂ a.payload a.size a.own h₂).2)
        else (mqtterrNoerror, buf₂, h₂)) ∧
      buf₂.extents = buf.extents ++
        [fixHead.withField (encode a.totalLen.toNat).length, variableHead] ∧
      buf₂.bufferedBytes = buf.bufferedBytes +
        (fixHead.withField (encode a.totalLen.toNat).length).len + (a.totalLen - a.size) ∧
      (∀ ns, Allocates (5 :: (a.totalLen - a.size) :: ns) buf h ↔ Allocates ns buf₂ h₂) ∧
      ∀ rs ns, Drafted rs h (5 :: (a.totalLen - a.size) :: ns) [] buf h →
        fixHead.len = 5 ∧ variableHead.len = a.totalLen - a.size ∧
          Drafted rs h ns [(variableHead, a.variableHeader),
            (fixHead, a.firstByte :: encode a.totalLen.toNat)] buf₂ h₂ := by
  obtain ⟨flags, hflags⟩ : ∃ flags, publishQosFlags a.qos = some flags :=
    Option.ne_none_iff_exists'.mp fun hnone => publishQosFlags_eq_none.mp hnone hacc.qos
  have hfirst : a.head ||| flags = a.firstByte := by rw [PublishArgs.firstByte, hflags]; rfl
  obtain ⟨r, hr⟩ : ∃ r, mqttPackPublishPkt buf a h = r := ⟨_, rfl⟩
  rw [hr]
  unfold mqttPackPublishPkt at hr
  rw [if_neg hacc.pktId, if_neg hacc.wildcards, if_neg (not_not.mpr hacc.utf8)] at hr
  obtain ⟨fixHead, hfix, heq⟩ := withExtent_of_allocates hacc.allocates _
  rw [heq] at hr
  simp only [hflags, hfirst] at hr
  rw [if_neg (by rw [dumpLengthInto_of_lt _ hacc.total]; omega)] at hr
  -- writing the fixed header makes no difference to the allocation of the other extent
  set buf₁ := (mqttBufferAllocExtent buf 5 h).2.1
  set h₁ := (dumpLengthInto fixHead a.totalLen ((mqttBufferAllocExtent buf 5 h).2.2.write
    fixHead.payload [a.firstByte])).2 with hh₁
  have hall : ∀ ns, Allocates ns buf₁ h₁ ↔ Allocates ns buf₁ (mqttBufferAllocExtent buf 5 h).2.2 :=
    fun ns => by rw [hh₁, dumpLengthInto, allocates_write, allocates_write]
  obtain ⟨variableHead, hvar, heq⟩ := withExtent_of_allocates
    ((hall _).mpr hacc.allocates.2) _
  rw [heq] at hr
  obtain ⟨hext, hcount⟩ : buf₁.extents = buf.extents ∧ buf₁.bufferedBytes = buf.bufferedBytes :=
    ⟨(mqttBufferAllocExtent_frame buf 5 h).1, (mqttBufferAllocExtent_frame buf 5 h).2.1⟩
  obtain ⟨hext', hcount', -⟩ := mqttBufferAllocExtent_frame buf₁ (a.totalLen - a.size) h₁
  have hret : (dumpLengthInto fixHead a.totalLen ((mqttBufferAllocExtent buf 5 h).2.2.write
      fixHead.payload [a.firstByte])).1 = ((encode a.totalLen.toNat).length : ℤ) :=
    dumpLengthInto_of_lt _ hacc.total _
  have hlen := mqttBufferAllocExtent_len hfix
  have hlen' := mqttBufferAllocExtent_len hvar
  refine ⟨fixHead, variableHead, _, _, hr.symm, ?_, ?_, fun ns => ?_, fun rs ns hd => ?_⟩
  · simp only [mqttBufferAppendExtent, hext', hext, hret, List.append_assoc, List.cons_append,
      List.nil_append]
  · simp only [mqttBufferAppendExtent, hcount', hcount, hret, hlen']
  · have hfirst : Allocates (5 :: (a.totalLen - a.size) :: ns) buf h ↔
        Allocates ((a.totalLen - a.size) :: ns) buf₁ h₁ := by
      rw [hall]
      exact and_iff_right (by rw [hfix]; rfl)
    have hsecond : Allocates ((a.totalLen - a.size) :: ns) buf₁ h₁ ↔
        Allocates ns (mqttBufferAllocExtent buf₁ (a.totalLen - a.size) h₁).2.1
          (mqttBufferAllocExtent buf₁ (a.totalLen - a.size) h₁).2.2 :=
      and_iff_right (by rw [hvar]; rfl)
    rw [hfirst, hsecond]
    rw [allocates_write, allocates_append, allocates_append]
  · obtain ⟨-, hd₁⟩ := hd.alloc (by decide) hfix
    have hwrite := hd₁.writeFirst [] [a.firstByte]
      (hlen ▸ (by decide : 1 ≤ (5 : UInt32).toNat))
    have hdump := hwrite.dump [] hlen a.totalLen
    rw [mqttDumpLength_of_lt hacc.total] at hdump
    have hvarLen := toNat_variableLen a
    have hidLen := length_idBytes a
    have hlt := a.topic.length_lt
    obtain ⟨-, hd₂⟩ := hdump.alloc (by split at hidLen <;> omega) hvar
    have hwrite' := hd₂.writeFirst [] a.variableHeader (hlen' ▸ length_variableHeader_le a)
    exact ⟨hlen, hlen', (hwrite'.append _).append _⟩

/-- An accepted packet is reported as packed, whatever becomes of its payload. -/
theorem publish_code {a : PublishArgs} {buf : MqttBuffer} {h : MqttHeap}
    (hacc : PublishAccepted a buf h) : (mqttPackPublishPkt buf a h).1 = mqtterrNoerror := by
  obtain ⟨fixHead, variableHead, buf₂, h₂, heq, -⟩ := publish_headers hacc
  rw [heq]
  split <;> rfl

/-- What becomes of the payload: the extents in the list for it, the extents that hold its
bytes, and their number. It is not in the list when it is empty, or when its extent cannot
be allocated. -/
inductive PayloadPacked (a : PublishArgs) (buf : MqttBuffer) (h : MqttHeap)
    (mem : UInt32 → UInt8) : List MqttExtent → List (MqttExtent × List UInt8) → UInt32 → Prop
  | missing (hno : a.size = 0 ∨ ¬ Allocates a.extentSizes buf h) :
      PayloadPacked a buf h mem [] [] 0
  | packed (q p : MqttExtent) (bytes : List UInt8) (hsize : a.size ≠ 0)
      (hall : Allocates a.extentSizes buf h) (hlen : p.len = a.size)
      (hp : p = q ∨ p = ⟨a.size, a.payload⟩)
      (hread : readMem mem p.payload p.len.toNat = a.payloadBytes h) :
      PayloadPacked a buf h mem [p] [(q, bytes)] a.size

/-- What an accepted packet leaves in the list and in the memory. -/
structure PublishPacked (a : PublishArgs) (rs : List Region) (buf : MqttBuffer) (h : MqttHeap)
    (r : Packed) (fixHead variableHead : MqttExtent) (payload : List MqttExtent)
    (ds : List (MqttExtent × List UInt8)) (count : UInt32) : Prop where
  fixHead_len : fixHead.len = 5
  variableHead_len : variableHead.len = a.totalLen - a.size
  extents : r.2.1.extents = buf.extents ++
    fixHead.withField (encode a.totalLen.toNat).length :: variableHead :: payload
  bufferedBytes : r.2.1.bufferedBytes = buf.bufferedBytes +
    (fixHead.withField (encode a.totalLen.toNat).length).len + (a.totalLen - a.size) + count
  payload : PayloadPacked a buf h r.2.2.mem payload ds count
  drafted : Drafted rs h [] (ds ++ [(variableHead, a.variableHeader),
    (fixHead, a.firstByte :: encode a.totalLen.toNat)]) r.2.1 r.2.2

theorem publish_packs {a : PublishArgs} {buf : MqttBuffer} {h : MqttHeap} {rs : List Region}
    (hacc : PublishAccepted a buf h) (hd : Drafted rs h a.extentSizes [] buf h)
    (hfit : a.bodyLen < 2 ^ 32) (hrs : a.size ≠ 0 → a.payloadRegion ∈ rs) :
    ∃ fixHead variableHead payload ds count, PublishPacked a rs buf h
      (mqttPackPublishPkt buf a h) fixHead variableHead payload ds count := by
  obtain ⟨fixHead, variableHead, buf₂, h₂, heq, hext, hcount, hall, hdraft⟩ :=
    publish_headers hacc
  rw [heq]
  by_cases hsize : a.size = 0
  · have hd₂ := hd
    rw [PublishArgs.extentSizes, if_pos hsize] at hd₂
    obtain ⟨hlen, hlen', hd₂⟩ := hdraft rs [] hd₂
    refine ⟨fixHead, variableHead, [], [], 0, ?_⟩
    rw [if_neg (not_not.mpr hsize)]
    exact ⟨hlen, hlen', hext, by rw [hcount, UInt32.add_zero], .missing (.inl hsize), hd₂⟩
  · have hsizes : a.extentSizes =
        5 :: (a.totalLen - a.size) :: [appendExtentSize a.size a.own] := by
      rw [PublishArgs.extentSizes, if_neg hsize]
      rfl
    have hd₂ := hd
    rw [hsizes] at hd₂
    obtain ⟨hlen, hlen', hd₂⟩ := hdraft rs _ hd₂
    rw [if_pos hsize]
    by_cases happ : Allocates [appendExtentSize a.size a.own] buf₂ h₂
    · have hle : a.size.toNat ≤ 2 ^ 32 - 16 := by
        have htotal := hacc.total
        rw [toNat_totalLen hfit, PublishArgs.bodyLen] at htotal
        omega
      obtain ⟨q, bytes, p, hext', hcount', hplen, hp, hd₃, hread⟩ :=
        mqttBufferAppend_allocates hd₂ hle (hrs hsize) happ
      refine ⟨fixHead, variableHead, [p], [(q, bytes)], a.size, hlen, hlen', ?_, ?_,
        .packed q p bytes hsize (by rw [hsizes, hall]; exact happ) hplen hp ?_, hd₃⟩
      · rw [hext', hext, List.append_assoc]
        rfl
      · rw [hcount', hcount]
      · rw [hplen]
        exact hread
    · obtain ⟨hext', hcount', hd₃⟩ := mqttBufferAppend_fails hd₂ happ
      refine ⟨fixHead, variableHead, [], [], 0, hlen, hlen', ?_, ?_,
        .missing (.inr (by rw [hsizes, hall]; exact happ)), hd₃⟩
      · rw [hext', hext]
      · rw [hcount', hcount, UInt32.add_zero]

/-- The payload that is in the list: all of it, or nothing. -/
theorem PayloadPacked.flatten {a : PublishArgs} {buf : MqttBuffer} {h : MqttHeap}
    {mem : UInt32 → UInt8} {payload : List MqttExtent} {ds : List (MqttExtent × List UInt8)}
    {count : UInt32} (hp : PayloadPacked a buf h mem payload ds count)
    (hyes : a.size = 0 ∨ Allocates a.extentSizes buf h) :
    flattenExtents mem payload = a.payloadBytes h := by
  cases hp with
  | missing hno =>
      have hzero : a.size = 0 := by tauto
      rw [PublishArgs.payloadBytes, hzero]
      rfl
  | packed q p bytes hsize hall hlen hp' hread =>
      rw [flattenExtents_cons, hread, flattenExtents_nil, List.append_nil]

/-- The bytes of a packed packet. -/
theorem PublishPacked.flatten {a : PublishArgs} {rs : List Region} {buf : MqttBuffer}
    {h : MqttHeap} {r : Packed} {fixHead variableHead : MqttExtent} {payload : List MqttExtent}
    {ds : List (MqttExtent × List UInt8)} {count : UInt32}
    (hp : PublishPacked a rs buf h r fixHead variableHead payload ds count)
    (htopic : a.topic.bytes.length < 2 ^ 16) (htotal : a.totalLen.toNat < 2 ^ 28) :
    flattenExtents r.2.2.mem
        (fixHead.withField (encode a.totalLen.toNat).length :: variableHead :: payload) =
      a.firstByte :: encode a.totalLen.toNat ++
        (a.variableHeader ++ flattenExtents r.2.2.mem payload) := by
  have hhead : readMem r.2.2.mem (fixHead.withField (encode a.totalLen.toNat).length).payload
      (fixHead.withField (encode a.totalLen.toNat).length).len.toNat =
        a.firstByte :: encode a.totalLen.toNat :=
    hp.drafted.readMem_filled (e := fixHead) (List.mem_append_right _ (by simp)) rfl
      (toNat_len_withField fixHead (length_encode_bounds htotal).2)
  have hvariable : readMem r.2.2.mem variableHead.payload variableHead.len.toNat =
      a.variableHeader := by
    refine hp.drafted.readMem_filled (List.mem_append_right _ List.mem_cons_self) rfl ?_
    rw [hp.variableHead_len, toNat_variableLen, PublishArgs.variableHeader, List.length_append,
      length_pktString, UInt16.toNat_ofNat', Nat.mod_eq_of_lt htopic, Nat.min_self]
    omega
  rw [flattenExtents_cons, flattenExtents_cons, hhead, hvariable]

end Mqtt
