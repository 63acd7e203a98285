import Esp32AtMqtt.Mqtt.Whole

/-!
# What packing topics does

`Mqtt_PackSubscribePkt` and `Mqtt_PackUnsubscribePkt` differ in the first byte, in what stands
behind a topic, and in when the length is encoded. `TopicsAccepted` are the tests of both, and
`TopicsPacked` says what they do: one of the tests fails and nothing has changed, or two
extents are filled and put into the list.

The lengths of the topics are cut to 16 bits when they are written, and their sum is a 32-bit
number.
-/

namespace Mqtt

open FlatMemory Base128

/-- What the two packers take for the length behind the fixed header, with `tail` behind
every topic. -/
def topicsLen (tail : List UInt8) (topics : List (Option CStr)) : UInt32 :=
  2 + 2 * UInt32.ofNat topics.length + topicsTotalLen topics +
    UInt32.ofNat tail.length * UInt32.ofNat topics.length

/-- The topics of a packet, each with its length in front and `tail` behind. -/
def topicTexts (tail : List UInt8) (topics : List (Option CStr)) : List UInt8 :=
  topics.flatMap fun topic => (topic.map fun s => text s.bytes ++ tail).getD []

theorem checkTopics_eq_noerror {topics : List (Option CStr)} :
    checkTopics topics = mqtterrNoerror ↔
      ∀ topic ∈ topics, ∃ s, topic = some s ∧ s.isUtf8 s.bytes.length := by
  induction topics with
  | nil => simp [checkTopics]
  | cons topic topics ih =>
      cases topic with
      | none =>
          refine iff_of_false (by rw [checkTopics]; decide) fun h => ?_
          obtain ⟨s, hs, -⟩ := h none List.mem_cons_self
          cases hs
      | some s =>
          rw [checkTopics, List.forall_mem_cons]
          by_cases hutf8 : s.isUtf8 s.bytes.length
          · rw [if_pos hutf8, ih, and_iff_right ⟨s, rfl, hutf8⟩]
          · rw [if_neg hutf8]
            refine iff_of_false (by decide) fun h => ?_
            obtain ⟨s', hs', hutf8'⟩ := h.1
            cases hs'
            exact hutf8 hutf8'

theorem isError_checkTopics {topics : List (Option CStr)}
    (h : checkTopics topics ≠ mqtterrNoerror) : IsError (checkTopics topics) := by
  induction topics with
  | nil => exact absurd rfl h
  | cons topic topics ih =>
      cases topic with
      | none => exact (by decide : IsError mqtterrInvalidParameter)
      | some s =>
          rw [checkTopics] at h ⊢
          split
          · rw [if_pos (by assumption)] at h
            exact ih h
          · exact (by decide : IsError mqtterrNotUtf8)

theorem ofNat_length_topicTexts (tail : List UInt8) {topics : List (Option CStr)}
    (hsome : ∀ topic ∈ topics, topic.isSome) :
    UInt32.ofNat (2 + (topicTexts tail topics).length) = topicsLen tail topics := by
  have hlen : ∀ topics : List (Option CStr), (∀ topic ∈ topics, topic.isSome) →
      ∃ n, topicsTotalLen topics = UInt32.ofNat n ∧ (topicTexts tail topics).length =
        2 * topics.length + n + tail.length * topics.length := by
    intro topics hsome
    induction topics with
    | nil => exact ⟨0, rfl, rfl⟩
    | cons topic topics ih =>
        obtain ⟨s, rfl⟩ := Option.isSome_iff_exists.mp (hsome topic List.mem_cons_self)
        obtain ⟨n, hn, hlen⟩ := ih fun t ht => hsome t (List.mem_cons_of_mem _ ht)
        refine ⟨s.bytes.length + n, ?_, ?_⟩
        · rw [UInt32.ofNat_add, ← hn]
          rfl
        · rw [topicTexts, List.flatMap_cons, List.length_append, ← topicTexts, hlen]
          simp only [Option.map_some, Option.getD_some, List.length_append, length_text,
            List.length_cons, Nat.mul_succ]
          omega
  obtain ⟨n, hn, hlen⟩ := hlen topics hsome
  rw [topicsLen, hn, hlen]
  simp only [UInt32.ofNat_add, UInt32.ofNat_mul]
  rw [UInt32.add_assoc, UInt32.add_assoc]
  simp only [UInt32.add_assoc]
  rfl

/-- The packet of topics that the arguments describe. -/
def topicsPacket (head : UInt8) (tail : List UInt8) (pktId : UInt16) (topics : List (Option CStr)) :
    Option (List UInt8) :=
  describe (∀ topic ∈ topics, ∀ s ∈ topic, s.bytes.length < 2 ^ 16) head
    (mqttWB16 pktId ++ topicTexts tail topics)

/-- All that the two packers test. -/
structure TopicsAccepted (tail : List UInt8) (pktId : UInt16) (topics : List (Option CStr))
    (buf : MqttBuffer) (h : MqttHeap) : Prop where
  pktId : pktId ≠ 0
  checked : checkTopics topics = mqtterrNoerror
  allocates : Allocates [5, topicsLen tail topics] buf h
  total : (topicsLen tail topics).toNat < 2 ^ 28

/-- When the two packers are all or nothing: what they accept has topics that fit and a length
that does not wrap. -/
def TopicsWhole (tail : List UInt8) (pktId : UInt16) (topics : List (Option CStr))
    (buf : MqttBuffer) (h : MqttHeap) : Prop :=
  TopicsAccepted tail pktId topics buf h →
    (∀ topic ∈ topics, ∀ s ∈ topic, s.bytes.length < 2 ^ 16) ∧
      2 + (topicTexts tail topics).length < 2 ^ 32

/-- A packer of topics refuses; or it fills two extents and puts them into the list. -/
inductive TopicsPacked (head : UInt8) (tail : List UInt8) (pktId : UInt16)
    (topics : List (Option CStr)) (buf : MqttBuffer) (h : MqttHeap) (r : Packed) : Prop
  | refused (hno : ¬ TopicsAccepted tail pktId topics buf h)
      (hrefused : ∀ rs, Drafted rs h [5, topicsLen tail topics] [] buf h →
        (∀ q ∈ extentRegions buf.extents, q ∈ rs) → Refused buf h r)
  | packed (fixedHead ext : MqttExtent) (buf₁ buf₂ : MqttBuffer) (h₁ h₂ : MqttHeap)
      (hacc : TopicsAccepted tail pktId topics buf h)
      (hfix : mqttBufferAllocExtent buf 5 h = (some fixedHead, buf₁, h₁))
      (hext : mqttBufferAllocExtent buf₁ (topicsLen tail topics) h₁ = (some ext, buf₂, h₂))
      (hr : r = (mqtterrNoerror,
        mqttBufferAppendExtent (mqttBufferAppendExtent buf₂
          (fixedHead.withField (encode (topicsLen tail topics).toNat).length)) ext,
        (dumpLengthInto fixedHead (topicsLen tail topics)
          (h₂.write fixedHead.payload [head])).2.write ext.payload
            (mqttWB16 pktId ++ topicEntries tail topics)))

/-- The list and the count behind an allocation. -/
theorem frame_of_alloc {buf buf' : MqttBuffer} {n : UInt32} {h h' : MqttHeap}
    {o : Option MqttExtent} (halloc : mqttBufferAllocExtent buf n h = (o, buf', h')) :
    buf'.extents = buf.extents ∧ buf'.bufferedBytes = buf.bufferedBytes := by
  obtain ⟨hext, hcount, -⟩ := mqttBufferAllocExtent_frame buf n h
  rw [halloc] at hext hcount
  exact ⟨hext, hcount⟩

/-- The extent of the fixed header, with the first byte in it. -/
theorem drafted_head {rs : List Region} {ns : List UInt32} {buf buf₁ : MqttBuffer}
    {h h₁ : MqttHeap} {fixedHead : MqttExtent} (head : UInt8)
    (hd : Drafted rs h (5 :: ns) [] buf h)
    (hfix : mqttBufferAllocExtent buf 5 h = (some fixedHead, buf₁, h₁)) :
    fixedHead.len = 5 ∧
      Drafted rs h ns [(fixedHead, [head])] buf₁ (h₁.write fixedHead.payload [head]) := by
  obtain ⟨hlen, hd₁⟩ := hd.alloc (e := fixedHead) (by decide) (by rw [hfix])
  rw [hfix] at hd₁
  exact ⟨hlen, hd₁.writeFirst [] [head] (hlen ▸ (by decide : 1 ≤ (5 : UInt32).toNat))⟩

/-- The allocation that follows, whatever comes of it. -/
theorem skip_head {rs : List Region} {n : UInt32} {ds : List (MqttExtent × List UInt8)}
    {buf₁ buf₂ : MqttBuffer} {h h₁ h₂ : MqttHeap} {o : Option MqttExtent} {p : UInt32}
    {bytes : List UInt8} (hd : Drafted rs h [n] ds buf₁ (h₁.write p bytes))
    (hext : mqttBufferAllocExtent buf₁ n h₁ = (o, buf₂, h₂)) :
    Drafted rs h [] ds buf₂ (h₂.write p bytes) := by
  have hskip := hd.skip
  rwa [mqttBufferAllocExtent_write, hext] at hskip

theorem mqttBufferAllocExtent_dump (buf : MqttBuffer) (n : UInt32) (fixHead : MqttExtent)
    (len : UInt32) (h : MqttHeap) :
    mqttBufferAllocExtent buf n (dumpLengthInto fixHead len h).2 =
      let r := mqttBufferAllocExtent buf n h
      (r.1, r.2.1, (dumpLengthInto fixHead len r.2.2).2) :=
  mqttBufferAllocExtent_write buf h n _ _

/-- How both packers begin: a test or the first allocation fails and nothing has changed, or
the packer goes on with the extent of the fixed header. -/
theorem topics_begin (tail : List UInt8) {pktId : UInt16} {topics : List (Option CStr)}
    {buf : MqttBuffer} {h : MqttHeap} {pack : MqttExtent → MqttBuffer → MqttHeap → Packed}
    {r : Packed} (hr : (if pktId = 0 then (mqtterrInvalidParameter, buf, h)
      else if checkTopics topics ≠ mqtterrNoerror then (checkTopics topics, buf, h)
      else withExtent buf 5 h pack) = r) :
    (¬ TopicsAccepted tail pktId topics buf h ∧ Refused buf h r) ∨
      ∃ fixedHead buf₁ h₁, pktId ≠ 0 ∧ checkTopics topics = mqtterrNoerror ∧
        mqttBufferAllocExtent buf 5 h = (some fixedHead, buf₁, h₁) ∧
        pack fixedHead buf₁ h₁ = r := by
  by_cases hid : pktId = 0
  · rw [if_pos hid] at hr
    exact .inl ⟨fun hacc => hacc.pktId hid, hr ▸ refused_at_once buf h (by decide)⟩
  rw [if_neg hid] at hr
  by_cases hcheck : checkTopics topics = mqtterrNoerror
  swap
  · rw [if_pos hcheck] at hr
    exact .inl ⟨fun hacc => hcheck hacc.checked,
      hr ▸ refused_at_once buf h (isError_checkTopics hcheck)⟩
  rw [if_neg (not_not.mpr hcheck)] at hr
  rcases hfix : mqttBufferAllocExtent buf 5 h with ⟨_ | fixedHead, buf₁, h₁⟩
  · simp only [withExtent_eq, hfix] at hr
    refine .inl ⟨fun hacc => ?_, ?_⟩
    · have hsome := hacc.allocates.1
      rw [hfix] at hsome
      cases hsome
    · have hrefused := refused_of_alloc buf 5 h
      rwa [hfix, hr] at hrefused
  · simp only [withExtent_eq, hfix] at hr
    exact .inr ⟨fixedHead, buf₁, h₁, hid, hcheck, rfl, hr⟩

theorem mqttPackSubscribePkt_cases (buf : MqttBuffer) (pktId : UInt16) (qos : UInt32)
    (topics : List (Option CStr)) (h : MqttHeap) :
    TopicsPacked 0x80 [qos.toUInt8] pktId topics buf h
      (mqttPackSubscribePkt buf pktId qos topics h) := by
  obtain ⟨r, hr⟩ : ∃ r, mqttPackSubscribePkt buf pktId qos topics h = r := ⟨_, rfl⟩
  rw [hr]
  unfold mqttPackSubscribePkt at hr
  have hlen : 2 + 2 * UInt32.ofNat topics.length + topicsTotalLen topics +
      UInt32.ofNat topics.length = topicsLen [qos.toUInt8] topics := by
    rw [topicsLen, show UInt32.ofNat [qos.toUInt8].length = 1 from rfl, UInt32.one_mul]
  simp only [hlen] at hr
  obtain ⟨hno, hrefused⟩ | ⟨fixedHead, buf₁, h₁, hid, hcheck, hfix, hr⟩ :=
    topics_begin [qos.toUInt8] hr
  · exact .refused hno fun _ _ _ => hrefused
  obtain ⟨hlist₁, hcount₁⟩ := frame_of_alloc hfix
  rcases hext : mqttBufferAllocExtent buf₁ (topicsLen [qos.toUInt8] topics) h₁ with
    ⟨_ | ext, buf₂, h₂⟩
  · simp only [withExtent_eq, mqttBufferAllocExtent_write, hext] at hr
    obtain ⟨hlist₂, hcount₂⟩ := frame_of_alloc hext
    refine .refused (fun hacc => ?_) fun rs hd hrs => hr ▸ ?_
    · have hsome := hacc.allocates.2.1
      rw [hfix, hext] at hsome
      cases hsome
    · exact (skip_head (drafted_head 0x80 hd hfix).2 hext).refused hrs (hlist₂.trans hlist₁)
        (hcount₂.trans hcount₁) (by decide)
  · simp only [withExtent_eq, mqttBufferAllocExtent_write, hext] at hr
    obtain ⟨hlist₂, hcount₂⟩ := frame_of_alloc hext
    rcases Nat.lt_or_ge (topicsLen [qos.toUInt8] topics).toNat (2 ^ 28) with htotal | htotal
    · rw [if_neg (by rw [dumpLengthInto_of_lt _ htotal]; omega),
        dumpLengthInto_of_lt _ htotal] at hr
      refine .packed fixedHead ext buf₁ buf₂ h₁ h₂ ⟨hid, hcheck, ?_, htotal⟩ hfix hext hr.symm
      exact ⟨by rw [hfix]; rfl, by rw [hfix, hext]; rfl, trivial⟩
    · rw [if_pos (by rw [dumpLengthInto_of_le _ htotal]; decide)] at hr
      refine .refused (fun hacc => absurd hacc.total (Nat.not_lt.mpr htotal)) fun rs hd hrs =>
        hr ▸ ?_
      obtain ⟨hfixLen, hd₁⟩ := drafted_head 0x80 hd hfix
      exact ((skip_head hd₁ hext).dump [] hfixLen _).refused hrs (hlist₂.trans hlist₁)
        (hcount₂.trans hcount₁) (by decide)

theorem mqttPackUnsubscribePkt_cases (buf : MqttBuffer) (pktId : UInt16)
    (topics : List (Option CStr)) (h : MqttHeap) :
    TopicsPacked 0xA0 [] pktId topics buf h (mqttPackUnsubscribePkt buf pktId topics h) := by
  obtain ⟨r, hr⟩ : ∃ r, mqttPackUnsubscribePkt buf pktId topics h = r := ⟨_, rfl⟩
  rw [hr]
  unfold mqttPackUnsubscribePkt at hr
  have hlen : 2 + 2 * UInt32.ofNat topics.length + topicsTotalLen topics = topicsLen [] topics := by
    rw [topicsLen, show UInt32.ofNat ([] : List UInt8).length = 0 from rfl, UInt32.zero_mul,
      UInt32.add_zero]
  simp only [hlen] at hr
  obtain ⟨hno, hrefused⟩ | ⟨fixedHead, buf₁, h₁, hid, hcheck, hfix, hr⟩ := topics_begin [] hr
  · exact .refused hno fun _ _ _ => hrefused
  obtain ⟨hlist₁, hcount₁⟩ := frame_of_alloc hfix
  rcases Nat.lt_or_ge (topicsLen [] topics).toNat (2 ^ 28) with htotal | htotal
  swap
  · rw [if_pos (by rw [dumpLengthInto_of_le _ htotal]; decide)] at hr
    refine .refused (fun hacc => absurd hacc.total (Nat.not_lt.mpr htotal)) fun rs hd hrs =>
      hr ▸ ?_
    obtain ⟨hfixLen, hd₁⟩ := drafted_head 0xA0 hd hfix
    exact (hd₁.dump [] hfixLen _).refused hrs hlist₁ hcount₁ (by decide)
  rw [if_neg (by rw [dumpLengthInto_of_lt _ htotal]; omega), dumpLengthInto_of_lt _ htotal] at hr
  rcases hext : mqttBufferAllocExtent buf₁ (topicsLen [] topics) h₁ with ⟨_ | ext, buf₂, h₂⟩
  · simp only [withExtent_eq, mqttBufferAllocExtent_dump, mqttBufferAllocExtent_write, hext] at hr
    obtain ⟨hlist₂, hcount₂⟩ := frame_of_alloc hext
    refine .refused (fun hacc => ?_) fun rs hd hrs => hr ▸ ?_
    · have hsome := hacc.allocates.2.1
      rw [hfix, hext] at hsome
      cases hsome
    · obtain ⟨hfixLen, hd₁⟩ := drafted_head 0xA0 hd hfix
      exact ((skip_head hd₁ hext).dump [] hfixLen _).refused hrs (hlist₂.trans hlist₁)
        (hcount₂.trans hcount₁) (by decide)
  · simp only [withExtent_eq, mqttBufferAllocExtent_dump, mqttBufferAllocExtent_write, hext] at hr
    refine .packed fixedHead ext buf₁ buf₂ h₁ h₂ ⟨hid, hcheck, ?_, htotal⟩ hfix hext hr.symm
    exact ⟨by rw [hfix]; rfl, by rw [hfix, hext]; rfl, trivial⟩

/-- Topics that fit are written with their lengths. -/
theorem topicEntries_eq_texts (tail : List UInt8) {topics : List (Option CStr)}
    (hfits : ∀ topic ∈ topics, ∀ s ∈ topic, s.bytes.length < 2 ^ 16) :
    topicEntries tail topics = topicTexts tail topics := by
  induction topics with
  | nil => rfl
  | cons topic topics ih =>
      have hrest := ih fun t ht => hfits t (List.mem_cons_of_mem _ ht)
      rw [topicEntries, topicTexts, List.flatMap_cons, List.flatMap_cons, ← topicEntries,
        ← topicTexts, hrest]
      cases topic with
      | none => rfl
      | some s =>
          have hs := hfits (some s) List.mem_cons_self s rfl
          rw [Option.map_some, Option.map_some, topicEntry, pktString_eq_text hs]

/-- The packets of topics that are packed whole. -/
theorem TopicsPacked.whole_iff {head : UInt8} {tail : List UInt8} {pktId : UInt16}
    {topics : List (Option CStr)} {buf : MqttBuffer} {h : MqttHeap} {r : Packed}
    (hp : TopicsPacked head tail pktId topics buf h r)
    (hm : MemoryOk (extentRegions buf.extents) [5, topicsLen tail topics] buf h) :
    Whole buf h (topicsPacket head tail pktId topics) r ↔
      TopicsWhole tail pktId topics buf h := by
  have hd := Drafted.start hm
  cases hp with
  | refused hno hrefused =>
      exact iff_of_true (.inr (hrefused _ hd fun q hq => hq)) fun hacc => absurd hacc hno
  | packed fixedHead ext buf₁ buf₂ h₁ h₂ hacc hfix hext hr =>
      have hcode : r.1 = mqtterrNoerror := by rw [hr]
      have hbody : (mqttWB16 pktId ++ topicTexts tail topics).length =
          2 + (topicTexts tail topics).length := List.length_append
      by_cases hfits : (∀ topic ∈ topics, ∀ s ∈ topic, s.bytes.length < 2 ^ 16) ∧
          2 + (topicTexts tail topics).length < 2 ^ 32
      swap
      · refine iff_of_false (fun hw => ?_) fun hwhole => hfits (hwhole hacc)
        obtain ⟨bytes, hbytes, -⟩ := hw.resolve_right (not_refused_of_code hcode)
        obtain ⟨⟨htopics, hlen⟩, -⟩ := describe_eq_some.mp hbytes
        exact hfits ⟨htopics, by omega⟩
      refine iff_of_true ?_ fun _ => hfits
      -- nothing has been cut, and the second extent is filled to its end
      have hsome : ∀ topic ∈ topics, topic.isSome := fun topic htopic => by
        obtain ⟨s, rfl, -⟩ := checkTopics_eq_noerror.mp hacc.checked topic htopic
        rfl
      have hlen : (topicsLen tail topics).toNat = 2 + (topicTexts tail topics).length := by
        rw [← ofNat_length_topicTexts tail hsome, UInt32.toNat_ofNat', Nat.mod_eq_of_lt hfits.2]
      have htotal := hacc.total
      obtain ⟨hlist₁, hcount₁⟩ := frame_of_alloc hfix
      obtain ⟨hlist₂, hcount₂⟩ := frame_of_alloc hext
      obtain ⟨hfixLen, hd₁⟩ := drafted_head head hd hfix
      have halloc : mqttBufferAllocExtent buf₁ (topicsLen tail topics)
          (h₁.write fixedHead.payload [head]) =
            (some ext, buf₂, h₂.write fixedHead.payload [head]) := by
        rw [mqttBufferAllocExtent_write, hext]
      obtain ⟨hextLen, hd₂⟩ := hd₁.alloc (e := ext) (by omega) (by rw [halloc])
      rw [halloc] at hd₂
      have hdump := hd₂.dump [(ext, [])] hfixLen (topicsLen tail topics)
      rw [mqttDumpLength_of_lt htotal] at hdump
      have hfill := hdump.writeFirst [] (mqttWB16 pktId ++ topicTexts tail topics)
        (by rw [hextLen, hbody, hlen])
      have hlisted : PacketListed (extentRegions buf.extents) buf h r head
          (topicsLen tail topics).toNat fixedHead [ext]
          [(ext, mqttWB16 pktId ++ topicTexts tail topics),
            (fixedHead, head :: encode (topicsLen tail topics).toNat)] := by
        refine ⟨hcode, htotal, hfixLen, ?_, by simp, ?_⟩
        · rw [hr]
          simp only [mqttBufferAppendExtent, hlist₂, hlist₁, List.append_assoc, List.cons_append,
            List.nil_append]
        · rw [hr, topicEntries_eq_texts tail hfits.1]
          exact (hfill.append _).append ext
      refine (hlisted.whole_iff ?_ fun q hq => hq).mpr ⟨⟨hfits.1, by omega⟩, ?_⟩
      · rw [extentsLength_cons, extentsLength_nil, hextLen, Nat.add_zero]
      · rw [flattenExtents_cons, flattenExtents_nil, List.append_nil]
        exact hlisted.drafted.readMem_filled List.mem_cons_self rfl (by rw [hextLen, hbody, hlen])

end Mqtt
