import Esp32AtMqtt.Mqtt.Acknowledge
import Esp32AtMqtt.Mqtt.Utf8
import Esp32AtMqtt.Stream.Ended

/-!
# The packets that the dispatcher accepts

`ServerPacket` is the syntax of the packets that a server sends, `PUBLISH` retained or not.
The dispatcher declines two kinds of them on purpose (`Declined`): retained messages, and a
`CONNACK` that reports a session together with an error. Three of its checks are not those
of the protocol (`Loophole`): the reserved bits of the `CONNACK` flags, the return codes of
a `SUBACK`, and the string check of the topic. On all other packets it accepts exactly the
syntax.
-/

namespace Mqtt

open Utf8

/-- A string with its length in front. -/
def text (str : List UInt8) : List UInt8 := mqttWB16 (UInt16.ofNat str.length) ++ str

/-- The name of a topic: a string with neither null bytes nor wildcards. -/
structure TopicName (topic : List UInt8) : Prop where
  length_lt : topic.length < 2 ^ 16
  wellFormed : WellFormed topic
  no_null : 0 ∉ topic
  no_plus : 0x2B ∉ topic
  no_hash : 0x23 ∉ topic

/-- The first byte of a `PUBLISH` packet. -/
def publishHeader (dup : Bool) (qos : UInt8) (retain : Bool) : UInt8 :=
  0x30 + (if dup then 8 else 0) + 2 * qos + (if retain then 1 else 0)

/-- The packets that a server sends: the first byte, and the body. -/
inductive ServerPacket : UInt8 → List UInt8 → Prop
  | pingResp : ServerPacket 0xD0 []
  | connAck {flags retCode : UInt8} (hflags : flags = 0 ∨ flags = 1) (hcode : retCode ≤ 5) :
      ServerPacket 0x20 [flags, retCode]
  | pubAck {pktId : UInt16} (hid : pktId ≠ 0) : ServerPacket 0x40 (mqttWB16 pktId)
  | pubRec {pktId : UInt16} (hid : pktId ≠ 0) : ServerPacket 0x50 (mqttWB16 pktId)
  | pubRel {pktId : UInt16} (hid : pktId ≠ 0) : ServerPacket 0x62 (mqttWB16 pktId)
  | pubComp {pktId : UInt16} (hid : pktId ≠ 0) : ServerPacket 0x70 (mqttWB16 pktId)
  | unsubAck {pktId : UInt16} (hid : pktId ≠ 0) : ServerPacket 0xB0 (mqttWB16 pktId)
  | subAck {pktId : UInt16} {codes : List UInt8} (hid : pktId ≠ 0) (hne : codes ≠ [])
      (hcodes : ∀ code ∈ codes, code ∈ [0, 1, 2, 0x80]) :
      ServerPacket 0x90 (mqttWB16 pktId ++ codes)
  | publish0 {topic : List UInt8} (retain : Bool) (payload : List UInt8)
      (htopic : TopicName topic) :
      ServerPacket (publishHeader false 0 retain) (text topic ++ payload)
  | publish {topic : List UInt8} {qos : UInt8} {pktId : UInt16} (dup retain : Bool)
      (payload : List UInt8) (hqos : qos = 1 ∨ qos = 2) (hid : pktId ≠ 0)
      (htopic : TopicName topic) :
      ServerPacket (publishHeader dup qos retain) (text topic ++ mqttWB16 pktId ++ payload)

/-- The packets of the syntax that the dispatcher declines: a retained message, and a
session present in a connection that is refused. -/
inductive Declined : UInt8 → List UInt8 → Prop
  | retained {fh : UInt8} (pkt : List UInt8) (htype : (fh >>> 4).toNat = 3)
      (hretain : fh &&& 0x01 ≠ 0) : Declined fh pkt
  | sessionPresent {retCode : UInt8} (hcode : retCode ≠ 0) : Declined 0x20 [1, retCode]

/-- The packets on which a check of the dispatcher is not that of the protocol. -/
inductive Loophole : UInt8 → List UInt8 → Prop
  | connAck {flags retCode : UInt8} (hflags : 1 < flags)
      (hpass : flags &&& 0x01 = 0 ∨ retCode = 0) (hcode : retCode ≤ 5) :
      Loophole 0x20 [flags, retCode]
  | subAck {pktId : UInt16} {codes : List UInt8} (hid : pktId ≠ 0)
      (hpass : ∀ code ∈ codes, code &&& 0x7C = 0)
      (hcodes : codes = [] ∨ ∃ code ∈ codes, code ∉ [0, 1, 2, 0x80]) :
      Loophole 0x90 (mqttWB16 pktId ++ codes)
  | publish {fh : UInt8} {topic : List UInt8} (rest : List UInt8)
      (htype : (fh >>> 4).toNat = 3) (hlen : topic.length < 2 ^ 16)
      (htopic : ¬ CheckExact topic) : Loophole fh (text topic ++ rest)

/-- No callback reports anything but success. -/
def AllSucceed {σ : Type*} (cb : MqttCallbacks σ) : Prop :=
  ∀ (r : Request) s, (r.call cb s).1 = 0

/-- An answer that fails does not report an illegal packet. -/
theorem sendResponse_ne_illegal {σ : Type*} (cb : MqttCallbacks σ) (a : Answer) (pktId : UInt16)
    (s : HandlerState σ) : (sendResponse cb a.pack pktId s).1 ≠ mqtterrIllegalPkt := by
  have hpack : (a.pack mqttBufferInit pktId s.2).1 ≠ mqtterrIllegalPkt := by
    have hextent : a.noExtent ≠ mqtterrIllegalPkt := by
      cases a <;> decide
    rw [a.pack_eq, mqttPackIdPkt]
    split_ifs
    · exact (by decide : mqtterrInvalidParameter ≠ mqtterrIllegalPkt)
    · split
      · exact hextent
      · exact (by decide : mqtterrNoerror ≠ mqtterrIllegalPkt)
  simp only [sendResponse]
  split_ifs
  · exact (by decide : mqtterrFailedSendResponse ≠ mqtterrIllegalPkt)
  · exact (by decide : mqtterrNoerror ≠ mqtterrIllegalPkt)
  · exact hpack

theorem answerCode_ne_illegal (r : Request) {err : ℤ} (h : err ≠ mqtterrIllegalPkt) :
    r.answerCode err ≠ mqtterrIllegalPkt := by
  have hpublish : (if err = mqtterrNoerror then err else mqtterrFailedSendResponse) ≠
      mqtterrIllegalPkt := by
    split_ifs
    · exact h
    · decide
  cases r with
  | publish => exact hpublish
  | cmd => exact hpublish
  | system => exact hpublish
  | _ => exact h

/-- With callbacks that succeed, the packets refused are those that ask for nothing. -/
theorem errcode_ne_illegal_iff {σ : Type*} {cb : MqttCallbacks σ} (hcb : AllSucceed cb)
    (s : HandlerState σ) (fh : UInt8) (pkt : List UInt8) :
    (mqttDispatch cb s fh pkt).errcode ≠ mqtterrIllegalPkt ↔ ∃ r, request fh pkt = some r := by
  have hcode := congrArg Prod.fst (mqttDispatch_eq_handle cb s fh pkt)
  simp only at hcode
  rw [hcode]
  cases hr : request fh pkt with
  | none => exact iff_of_false (fun h => h rfl) (by simp)
  | some r =>
      refine iff_of_true ?_ ⟨r, rfl⟩
      have hzero : (r.call cb s.1).1 = 0 := hcb r s.1
      simp only [handleRequest, Request.handle, callback, hzero]
      cases r.answer with
      | none => exact (by decide : (0 : ℤ) ≠ mqtterrIllegalPkt)
      | some a => exact answerCode_ne_illegal r (sendResponse_ne_illegal cb a.1 a.2 _)

theorem mqttRB16_text {str : List UInt8} (h : str.length < 2 ^ 16) (rest : List UInt8) :
    (mqttRB16 (text str ++ rest)).toNat = str.length := by
  rw [text, List.append_assoc, mqttRB16_mqttWB16, UInt16.toNat_ofNat', Nat.mod_eq_of_lt h]

theorem drop_two_text (str rest : List UInt8) : (text str ++ rest).drop 2 = str ++ rest := rfl

theorem length_text (str : List UInt8) : (text str).length = 2 + str.length := by
  rw [text, List.length_append]
  rfl

/-- A body that is long enough begins with a topic. -/
theorem eq_text_append {pkt : List UInt8} (h : 2 + (mqttRB16 pkt).toNat ≤ pkt.length) :
    pkt = text ((pkt.drop 2).take (mqttRB16 pkt).toNat) ++ pkt.drop (2 + (mqttRB16 pkt).toNat) := by
  have hlen : ((pkt.drop 2).take (mqttRB16 pkt).toNat).length = (mqttRB16 pkt).toNat := by
    rw [List.length_take, List.length_drop]
    omega
  have hpre : mqttWB16 (mqttRB16 pkt) = pkt.take 2 := mqttWB16_mqttRB16_of_length (by omega)
  rw [text, hlen, UInt16.ofNat_toNat, hpre, ← List.drop_drop, List.append_assoc,
    List.take_append_drop, List.take_append_drop]

/-- The bytes in front of the first null byte. -/
theorem cString_append {str : List UInt8} (h : 0 ∉ str) (rest : List UInt8) :
    cString (str ++ 0 :: rest) = str := Ended.upTo_append_mark h rest

/-- On a topic where the string check is exact, the topic passes when it is a name. -/
theorem topicOk_iff {topic : List UInt8} (hexact : CheckExact topic)
    (hlen : topic.length < 2 ^ 16) (rest : List UInt8) :
    topicOk (topic ++ 0 :: rest) topic.length = true ↔ TopicName topic := by
  rw [topicOk, Bool.and_eq_true, decide_eq_true_eq, (mqttCheckUtf8_exact_iff topic 0 rest).mpr hexact]
  have hwild : ∀ h0 : 0 ∉ topic, (!(cString (topic ++ 0 :: rest)).any
      (fun c => c = 0x2B || c = 0x23)) = true ↔ 0x2B ∉ topic ∧ 0x23 ∉ topic := fun h0 => by
    rw [cString_append h0, Bool.not_eq_true', List.any_eq_false]
    simp only [Bool.or_eq_true, decide_eq_true_eq, not_or]
    exact ⟨fun h => ⟨fun hb => (h _ hb).1 rfl, fun hb => (h _ hb).2 rfl⟩,
      fun h c hc => ⟨fun heq => h.1 (heq ▸ hc), fun heq => h.2 (heq ▸ hc)⟩⟩
  constructor
  · rintro ⟨⟨hwell, h0⟩, h⟩
    exact ⟨hlen, hwell, h0, ((hwild h0).mp h).1, ((hwild h0).mp h).2⟩
  · intro h
    exact ⟨⟨h.wellFormed, h.no_null⟩, (hwild h.no_null).mpr ⟨h.no_plus, h.no_hash⟩⟩

/-- A body that passes the first half of the handler is accepted when its topic is a name. -/
theorem decodePublish_iff {flags : UInt8} {pkt : List UInt8} {parts : PublishParts}
    (hparts : publishParts flags pkt = some parts)
    (hexact : CheckExact ((pkt.drop 2).take (mqttRB16 pkt).toNat)) :
    (∃ r, decodePublish flags pkt = some r) ↔
      TopicName ((pkt.drop 2).take (mqttRB16 pkt).toNat) := by
  obtain ⟨-, -, hlong, -⟩ := publishParts_eq_some_iff.mp hparts
  obtain ⟨rest, hrest⟩ := publishParts_topic hparts
  have hlen : ((pkt.drop 2).take (mqttRB16 pkt).toNat).length = (mqttRB16 pkt).toNat := by
    rw [List.length_take, List.length_drop]
    omega
  have hlt : ((pkt.drop 2).take (mqttRB16 pkt).toNat).length < 2 ^ 16 := by
    rw [hlen]
    exact (mqttRB16 pkt).toNat_lt
  have hok := topicOk_iff hexact hlt rest
  rw [hlen, ← hrest] at hok
  rw [← hok]
  simp only [decodePublish, hparts]
  split_ifs with h
  · exact iff_of_true ⟨_, rfl⟩ h
  · exact iff_of_false (by simp) h

/-- A packet identifier makes up a body. -/
theorem decodeId_mqttWB16 (w : UInt8) (f : UInt16 → Request) {pktId : UInt16} (hid : pktId ≠ 0) :
    decodeId w f w (mqttWB16 pktId) = some (f pktId) := by
  have hread : mqttRB16 (mqttWB16 pktId) = pktId := by
    simpa using mqttRB16_mqttWB16 pktId []
  have hshape : ¬ (w ≠ w ∨ (mqttWB16 pktId).length ≠ 2) := by simp [mqttWB16]
  simp only [decodeId, if_neg hshape, hread, if_neg hid]

theorem decodeConnAck_eq_some {flags : UInt8} {pkt : List UInt8} {r : Request}
    (h : decodeConnAck flags pkt = some r) :
    flags = 0 ∧ ∃ ackFlags retCode, pkt = [ackFlags, retCode] ∧
      (ackFlags &&& 0x01 = 0 ∨ retCode = 0) ∧ retCode ≤ 5 := by
  simp only [decodeConnAck] at h
  split_ifs at h with hshape hcode
  rw [not_or, not_not, not_not] at hshape
  obtain ⟨ackFlags, retCode, rfl⟩ := List.length_eq_two.mp hshape.2
  simp only [List.getD_cons_zero, List.getD_cons_succ, not_or, not_and_or, not_not, gt_iff_lt,
    UInt8.not_lt] at hcode
  exact ⟨hshape.1, ackFlags, retCode, rfl, hcode⟩

theorem decodeSubAck_eq_some {flags : UInt8} {pkt : List UInt8} {r : Request}
    (h : decodeSubAck flags pkt = some r) :
    flags = 0 ∧ ∃ pktId codes, pkt = mqttWB16 pktId ++ codes ∧ pktId ≠ 0 ∧
      ∀ code ∈ codes, code &&& 0x7C = 0 := by
  simp only [decodeSubAck] at h
  split_ifs at h with hshape hid hcodes
  rw [not_or, not_not] at hshape
  refine ⟨hshape.1, mqttRB16 pkt, pkt.drop 2, ?_, hid, fun code hmem => ?_⟩
  · rw [mqttWB16_mqttRB16_of_length (by omega), List.take_append_drop]
  · by_contra hne
    exact hcodes (List.any_eq_true.mpr ⟨code, hmem, by simpa using hne⟩)

/-- The first byte is made of the type and the flags. -/
theorem toNat_eq_type_flags (fh : UInt8) :
    fh.toNat = 16 * (fh >>> 4).toNat + (fh &&& 0x0F).toNat := by
  have hflags : (fh &&& 0x0F).toNat = fh.toNat % 16 := by
    rw [UInt8.toNat_and]
    exact Nat.and_two_pow_sub_one_eq_mod fh.toNat 4
  have htype : (fh >>> 4).toNat = fh.toNat / 16 := by
    rw [UInt8.toNat_shiftRight, Nat.shiftRight_eq_div_pow]
    rfl
  rw [hflags, htype]
  omega

/-- A declined packet asks for nothing. -/
theorem request_of_declined {fh : UInt8} {pkt : List UInt8} (h : Declined fh pkt) :
    request fh pkt = none := by
  cases h with
  | retained pkt htype hretain =>
      have hmask : fh &&& 0x0F &&& 0x01 = fh &&& 0x01 := by
        rw [UInt8.and_assoc]
        rfl
      have hparts : publishParts (fh &&& 0x0F) pkt = none := by
        rw [Option.eq_none_iff_forall_ne_some]
        intro parts hparts
        exact hretain (hmask ▸ (publishParts_eq_some_iff.mp hparts).2.1)
      simp only [request, htype, decodePublish, hparts]
  | @sessionPresent retCode hcode =>
      have hrefused : (([1, retCode].getD 0 0 &&& 0x01 ≠ 0 ∧ [1, retCode].getD 1 0 ≠ 0) ∨
          [1, retCode].getD 1 0 > 5) := .inl ⟨(by decide : (1 : UInt8) &&& 0x01 ≠ 0), hcode⟩
      have hconn : request 0x20 [1, retCode] = decodeConnAck 0 [1, retCode] := rfl
      rw [hconn, decodeConnAck, if_neg (by simp), if_pos hrefused]

/-- The first byte of a `PUBLISH` packet that is not retained. -/
theorem eq_publishHeader {fh qos : UInt8} (htype : (fh >>> 4).toNat = 3)
    (hretain : fh &&& 0x0F &&& 0x01 = 0) (hqos : (fh &&& 0x0F &&& 0x06) >>> 1 = qos) :
    fh = publishHeader (fh &&& 0x0F &&& 0x08 ≠ 0) qos false := by
  have hbits : ∀ b : Fin 256, ((UInt8.ofNat b.val) >>> 4).toNat = 3 →
      UInt8.ofNat b.val &&& 0x0F &&& 0x01 = 0 →
        UInt8.ofNat b.val = publishHeader (UInt8.ofNat b.val &&& 0x0F &&& 0x08 ≠ 0)
          ((UInt8.ofNat b.val &&& 0x0F &&& 0x06) >>> 1) false := by
    decide +kernel
  have h := hbits ⟨fh.toNat, fh.toNat_lt⟩
  rw [UInt8.ofNat_toNat, hqos] at h
  exact h htype hretain

/-- An accepted `PUBLISH` packet is one of the syntax. -/
theorem serverPacket_of_decodePublish {fh : UInt8} {pkt : List UInt8} {r : Request}
    (htype : (fh >>> 4).toNat = 3) (h : decodePublish (fh &&& 0x0F) pkt = some r)
    (hno : ¬ Loophole fh pkt) : ServerPacket fh pkt := by
  obtain ⟨parts, hparts, -, -⟩ := decodePublish_eq_some h
  obtain ⟨hlen, hretain, htopic, hlevel⟩ := publishParts_eq_some_iff.mp hparts
  have hcut := eq_text_append htopic
  set topic := (pkt.drop 2).take (mqttRB16 pkt).toNat with hset
  have hlength : topic.length = (mqttRB16 pkt).toNat := by
    rw [hset, List.length_take, List.length_drop]
    omega
  have hlt : topic.length < 2 ^ 16 := by
    rw [hlength]
    exact (mqttRB16 pkt).toNat_lt
  have hexact : CheckExact topic := by
    by_contra hne
    exact hno (hcut ▸ Loophole.publish _ htype hlt hne)
  have hname : TopicName topic := (decodePublish_iff hparts hexact).mp ⟨r, h⟩
  obtain ⟨hqos, hdup, -⟩ | ⟨hqos, hid, hne, -⟩ := hlevel
  · have hfh := eq_publishHeader htype hretain hqos
    simp only [hdup, ne_eq, not_true, decide_false] at hfh
    rw [hfh, hcut]
    exact .publish0 false _ hname
  · have hfh := eq_publishHeader htype hretain rfl
    have hrest : pkt.drop (2 + (mqttRB16 pkt).toNat) =
        mqttWB16 (mqttRB16 (pkt.drop ((mqttRB16 pkt).toNat + 2))) ++
          (pkt.drop (2 + (mqttRB16 pkt).toNat)).drop 2 := by
      rw [Nat.add_comm _ 2, mqttWB16_mqttRB16_of_length (by rw [List.length_drop]; omega),
        List.take_append_drop]
    rw [hfh, hcut, hrest, ← List.append_assoc]
    exact .publish _ false _ hqos hne hname

/-- An accepted packet that carries an identifier only. -/
theorem eq_of_decodeId {fh b w : UInt8} {f : UInt16 → Request} {pkt : List UInt8} {r : Request}
    (h : decodeId w f (fh &&& 0x0F) pkt = some r)
    (hb : b.toNat = 16 * (fh >>> 4).toNat + w.toNat) :
    fh = b ∧ ∃ pktId, pktId ≠ 0 ∧ pkt = mqttWB16 pktId := by
  obtain ⟨hflags, hlen, hid, -⟩ := decodeId_eq_some h
  refine ⟨?_, mqttRB16 pkt, hid, ?_⟩
  · rw [← UInt8.toNat_inj, toNat_eq_type_flags, hflags, hb]
  · rw [mqttWB16_mqttRB16_of_length hlen.ge, List.take_of_length_le hlen.le]

/-- Outside the loopholes an accepted packet is one of the syntax. -/
theorem serverPacket_of_request {fh : UInt8} {pkt : List UInt8} {r : Request}
    (h : request fh pkt = some r) (hno : ¬ Loophole fh pkt) : ServerPacket fh pkt := by
  have hfirst : ∀ {b flags : UInt8} {n : ℕ}, (fh >>> 4).toNat = n → fh &&& 0x0F = flags →
      b.toNat = 16 * n + flags.toNat → fh = b := fun hn hf hb => by
    rw [← UInt8.toNat_inj, toNat_eq_type_flags, hn, hf, hb]
  simp only [request] at h
  split at h
  case h_1 htype =>
    split_ifs at h with hshape
    rw [not_or, not_not, not_not, List.length_eq_zero_iff] at hshape
    obtain rfl : fh = 0xD0 := hfirst htype hshape.1 rfl
    rw [hshape.2]
    exact .pingResp
  case h_2 htype =>
    obtain ⟨hflags, ackFlags, retCode, rfl, hpass, hcode⟩ := decodeConnAck_eq_some h
    obtain rfl : fh = 0x20 := hfirst htype hflags rfl
    refine .connAck ?_ hcode
    by_contra hne
    refine hno (.connAck ?_ hpass hcode)
    rw [not_or, ← UInt8.toNat_inj, ← UInt8.toNat_inj] at hne
    rw [UInt8.lt_iff_toNat_lt]
    simp only [UInt8.reduceToNat] at hne ⊢
    omega
  case h_3 htype => exact serverPacket_of_decodePublish htype h hno
  case h_4 htype =>
    obtain ⟨rfl, pktId, hid, rfl⟩ := eq_of_decodeId (b := 0x40) h (by rw [htype]; rfl)
    exact .pubAck hid
  case h_5 htype =>
    obtain ⟨rfl, pktId, hid, rfl⟩ := eq_of_decodeId (b := 0x50) h (by rw [htype]; rfl)
    exact .pubRec hid
  case h_6 htype =>
    obtain ⟨rfl, pktId, hid, rfl⟩ := eq_of_decodeId (b := 0x62) h (by rw [htype]; rfl)
    exact .pubRel hid
  case h_7 htype =>
    obtain ⟨rfl, pktId, hid, rfl⟩ := eq_of_decodeId (b := 0x70) h (by rw [htype]; rfl)
    exact .pubComp hid
  case h_8 htype =>
    obtain ⟨hflags, pktId, codes, rfl, hid, hpass⟩ := decodeSubAck_eq_some h
    obtain rfl : fh = 0x90 := hfirst htype hflags rfl
    by_cases hcodes : codes = [] ∨ ∃ code ∈ codes, code ∉ [0, 1, 2, 0x80]
    · exact absurd (Loophole.subAck hid hpass hcodes) hno
    · push Not at hcodes
      exact .subAck hid hcodes.1 hcodes.2
  case h_9 htype =>
    obtain ⟨rfl, pktId, hid, rfl⟩ := eq_of_decodeId (b := 0xB0) h (by rw [htype]; rfl)
    exact .unsubAck hid
  case h_10 => simp at h

/-- A packet whose body begins with the name of a topic. -/
theorem decodePublish_text {flags : UInt8} {topic rest : List UInt8} {parts : PublishParts}
    (hparts : publishParts flags (text topic ++ rest) = some parts) (hexact : CheckExact topic)
    (htopic : TopicName topic) : ∃ r, decodePublish flags (text topic ++ rest) = some r := by
  have hcut : ((text topic ++ rest).drop 2).take (mqttRB16 (text topic ++ rest)).toNat = topic := by
    rw [mqttRB16_text htopic.length_lt, drop_two_text, List.take_left' rfl]
  rw [decodePublish_iff hparts (by rwa [hcut]), hcut]
  exact htopic

/-- Level 0 of a `PUBLISH` packet. -/
theorem publishParts_level0 {topic : List UInt8} (hlen : topic.length < 2 ^ 16)
    (payload : List UInt8) : ∃ parts, publishParts 0 (text topic ++ payload) = some parts := by
  have hsize : (text topic ++ payload).length = 2 + topic.length + payload.length := by
    rw [List.length_append, length_text]
  refine ⟨_, publishParts_eq_some_iff.mpr ⟨by omega, rfl, ?_, .inl ⟨rfl, rfl, rfl⟩⟩⟩
  rw [mqttRB16_text hlen]
  omega

/-- Levels 1 and 2 of a `PUBLISH` packet. -/
theorem publishParts_level {flags : UInt8} {topic : List UInt8} {pktId : UInt16}
    (hretain : flags &&& 0x01 = 0) (hqos : (flags &&& 0x06) >>> 1 = 1 ∨ (flags &&& 0x06) >>> 1 = 2)
    (hlen : topic.length < 2 ^ 16) (hid : pktId ≠ 0) (payload : List UInt8) :
    ∃ parts, publishParts flags (text topic ++ mqttWB16 pktId ++ payload) = some parts := by
  rw [List.append_assoc]
  have hn := mqttRB16_text hlen (mqttWB16 pktId ++ payload)
  have hsize : (text topic ++ (mqttWB16 pktId ++ payload)).length =
      2 + topic.length + (2 + payload.length) := by
    rw [List.length_append, List.length_append, length_text]
    rfl
  have hread : mqttRB16 ((text topic ++ (mqttWB16 pktId ++ payload)).drop (topic.length + 2)) =
      pktId := by
    rw [Nat.add_comm, ← length_text, List.drop_left' rfl, mqttRB16_mqttWB16]
  refine ⟨_, publishParts_eq_some_iff.mpr ⟨by omega, hretain, by omega,
    .inr ⟨hqos, by omega, ?_, rfl⟩⟩⟩
  rw [hn, hread]
  exact hid

/-- Outside the loopholes the packets of the syntax are accepted, but for those that are
declined. -/
theorem request_of_serverPacket {fh : UInt8} {pkt : List UInt8} (h : ServerPacket fh pkt)
    (hdecl : ¬ Declined fh pkt) (hno : ¬ Loophole fh pkt) : ∃ r, request fh pkt = some r := by
  cases h with
  | pingResp => exact ⟨.pingResp, rfl⟩
  | @connAck flags retCode hflags hcode =>
      have hconn : request 0x20 [flags, retCode] = decodeConnAck 0 [flags, retCode] := rfl
      have hpass : ¬ ((flags &&& 0x01 ≠ 0 ∧ retCode ≠ 0) ∨ retCode > 5) := by
        rintro (⟨hflag, hret⟩ | hbig)
        · rcases hflags with rfl | rfl
          · exact hflag rfl
          · exact hdecl (.sessionPresent hret)
        · exact UInt8.not_lt.mpr hcode hbig
      rw [hconn, decodeConnAck, if_neg (by simp)]
      exact ⟨_, if_neg hpass⟩
  | pubAck hid => exact ⟨_, decodeId_mqttWB16 0 .pubAck hid⟩
  | pubRec hid => exact ⟨_, decodeId_mqttWB16 0 .pubRec hid⟩
  | pubRel hid => exact ⟨_, decodeId_mqttWB16 2 .pubRel hid⟩
  | pubComp hid => exact ⟨_, decodeId_mqttWB16 0 .pubComp hid⟩
  | unsubAck hid => exact ⟨_, decodeId_mqttWB16 0 .unsubAck hid⟩
  | @subAck pktId codes hid hne hcodes =>
      have hsub : request 0x90 (mqttWB16 pktId ++ codes) =
          decodeSubAck 0 (mqttWB16 pktId ++ codes) := rfl
      have hcode : ∀ code ∈ ([0, 1, 2, 0x80] : List UInt8), code &&& 0x7C = 0 := by
        decide +kernel
      have hpass : ¬ codes.any (fun code => code &&& 0x7C ≠ 0) = true := by
        rw [List.any_eq_true]
        rintro ⟨code, hmem, hbad⟩
        exact of_decide_eq_true hbad (hcode code (hcodes code hmem))
      rw [hsub, decodeSubAck, if_neg (by simp [mqttWB16]), mqttRB16_mqttWB16, if_neg hid]
      exact ⟨_, if_neg hpass⟩
  | @publish0 topic retain payload htopic =>
      cases retain with
      | true => exact absurd (.retained _ rfl (by decide)) hdecl
      | false =>
          have hexact : CheckExact topic := by
            by_contra hne
            exact hno (.publish payload rfl htopic.length_lt hne)
          obtain ⟨parts, hparts⟩ := publishParts_level0 htopic.length_lt payload
          exact decodePublish_text hparts hexact htopic
  | @publish topic qos pktId dup retain payload hqos hid htopic =>
      cases retain with
      | true =>
          refine absurd (.retained _ ?_ ?_) hdecl
          · rcases hqos with rfl | rfl <;> cases dup <;> rfl
          · rcases hqos with rfl | rfl <;> cases dup <;> decide
      | false =>
          have htype : (publishHeader dup qos false >>> 4).toNat = 3 := by
            rcases hqos with rfl | rfl <;> cases dup <;> rfl
          have hexact : CheckExact topic := by
            by_contra hne
            refine hno ?_
            rw [List.append_assoc]
            exact .publish _ htype htopic.length_lt hne
          have hflags : publishHeader dup qos false &&& 0x0F &&& 0x01 = 0 := by
            rcases hqos with rfl | rfl <;> cases dup <;> rfl
          have hlevel : (publishHeader dup qos false &&& 0x0F &&& 0x06) >>> 1 = qos := by
            rcases hqos with rfl | rfl <;> cases dup <;> rfl
          obtain ⟨parts, hparts⟩ := publishParts_level hflags (by rwa [hlevel])
            htopic.length_lt hid payload
          simp only [request, htype]
          rw [List.append_assoc] at hparts ⊢
          exact decodePublish_text hparts hexact htopic

/-- With callbacks that succeed, the dispatcher accepts exactly the packets of the syntax,
but for those that it declines, on all packets outside the loopholes. -/
theorem mqttDispatch_accepts_iff {σ : Type*} (cb : MqttCallbacks σ) (hcb : AllSucceed cb)
    (s : HandlerState σ) (fh : UInt8) (pkt : List UInt8) (hno : ¬ Loophole fh pkt) :
    (mqttDispatch cb s fh pkt).errcode ≠ mqtterrIllegalPkt ↔
      ServerPacket fh pkt ∧ ¬ Declined fh pkt := by
  rw [errcode_ne_illegal_iff hcb]
  constructor
  · rintro ⟨r, hr⟩
    refine ⟨serverPacket_of_request hr hno, fun hdecl => ?_⟩
    rw [request_of_declined hdecl] at hr
    simp at hr
  · rintro ⟨h, hdecl⟩
    exact request_of_serverPacket h hdecl hno

/-- A `PUBREL` packet is on none of the two lists. -/
theorem mqttDispatch_accepts_pubRel :
    (mqttDispatch willingCallbacks ((), ⟨fun _ => 0, [], []⟩) 0x62 [0, 7]).errcode ≠
        mqtterrIllegalPkt ↔
      ServerPacket 0x62 [0, 7] ∧ ¬ Declined 0x62 [0, 7] := by
  refine mqttDispatch_accepts_iff willingCallbacks (fun r _ => by cases r <;> rfl) _ _ _ fun h => ?_
  generalize hfh : (0x62 : UInt8) = fh at h
  generalize ([0, 7] : List UInt8) = pkt at h
  cases h with
  | connAck => exact absurd hfh (by decide)
  | subAck => exact absurd hfh (by decide)
  | publish _ htype => exact absurd (hfh ▸ htype) (by decide)

/-- The retained message `31` with the topic `a` is a packet of the syntax, and refused. -/
theorem mqttDispatch_refuses_retained :
    ¬ ∀ (h : MqttHeap) (fh : UInt8) (pkt : List UInt8), h.Supplies 3 →
      ((mqttDispatch willingCallbacks ((), h) fh pkt).errcode ≠ mqtterrIllegalPkt ↔
        ServerPacket fh pkt) := by
  intro hall
  have hwell : WellFormed [0x61] := ⟨[[0x61]], by simp [IsChar], rfl⟩
  have hname : TopicName [0x61] := ⟨by decide, hwell, by decide, by decide, by decide⟩
  have hsupply : (⟨fun _ => 0, List.replicate 3 (some 64), []⟩ : MqttHeap).Supplies 3 :=
    fun i hi => ⟨64, List.getElem?_replicate_of_lt hi⟩
  have hpacket : ServerPacket 0x31 [0, 1, 0x61] := .publish0 true [] hname
  exact (hall _ 0x31 [0, 1, 0x61] hsupply).mpr hpacket rfl

end Mqtt
