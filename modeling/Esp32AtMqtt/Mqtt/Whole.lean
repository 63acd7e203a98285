import Esp32AtMqtt.Mqtt.Grammar
import Esp32AtMqtt.Mqtt.Publish

/-!
# All or nothing

What an operation on a send buffer owes (`Whole`): it returns `MQTTERR_NOERROR`, and the list
has grown by the packet that its arguments describe; or it returns an error, and nothing has
changed. Arguments describe a packet when every string fits in its length field and the body
in the remaining length.

Here is the PUBLISH packet. Three kinds of arguments are accepted and not packed as they are:
a topic that is too long for its length field, a size that makes the total length wrap, and a
payload for which there is no extent.
-/

namespace Mqtt

open FlatMemory Base128

/-- A packet: the first byte, the length of the body, and the body. -/
def framed (fh : UInt8) (body : List UInt8) : List UInt8 := fh :: encode body.length ++ body

/-- The packet with this body, when its strings fit and its length can be written. -/
def describe (fits : Prop) [Decidable fits] (fh : UInt8) (body : List UInt8) :
    Option (List UInt8) :=
  if fits ∧ body.length < 2 ^ 28 then some (framed fh body) else none

/-- The list has grown by these bytes. -/
structure Grown (buf : MqttBuffer) (h : MqttHeap) (bytes : List UInt8) (r : Packed) : Prop where
  code : r.1 = mqtterrNoerror
  list : ∃ es, r.2.1.extents = buf.extents ++ es ∧ flattenExtents r.2.2.mem es = bytes
  kept : flattenExtents r.2.2.mem buf.extents = flattenExtents h.mem buf.extents

/-- The whole packet has been packed, or nothing has changed. -/
def Whole (buf : MqttBuffer) (h : MqttHeap) (packet : Option (List UInt8)) (r : Packed) : Prop :=
  (∃ bytes, packet = some bytes ∧ Grown buf h bytes r) ∨ Refused buf h r

/-- The PUBLISH packet that the arguments describe. -/
def PublishArgs.packet (a : PublishArgs) (h : MqttHeap) : Option (List UInt8) :=
  describe (a.topic.bytes.length < 2 ^ 16) a.firstByte
    (text a.topic.bytes ++ a.idBytes ++ a.payloadBytes h)

/-- When `Mqtt_PackPublishPkt` is all or nothing: whatever it accepts has a topic that fits
and a length that does not wrap, and there is an extent for the payload. -/
def PublishWhole (a : PublishArgs) (buf : MqttBuffer) (h : MqttHeap) : Prop :=
  PublishAccepted a buf h → a.topic.bytes.length < 2 ^ 16 ∧ a.bodyLen < 2 ^ 32 ∧
    (a.size = 0 ∨ Allocates a.extentSizes buf h)

/-- What is written for a string that fits in its length field. -/
theorem pktString_eq_text {str : List UInt8} (h : str.length < 2 ^ 16) :
    pktString str (UInt16.ofNat str.length) = text str := by
  rw [pktString, UInt16.toNat_ofNat', Nat.mod_eq_of_lt h, List.take_of_length_le le_rfl]
  rfl

theorem describe_eq_some {fits : Prop} [Decidable fits] {fh : UInt8} {body bytes : List UInt8} :
    describe fits fh body = some bytes ↔
      (fits ∧ body.length < 2 ^ 28) ∧ framed fh body = bytes := by
  rw [describe]
  split_ifs with hfits
  · rw [Option.some_inj, and_iff_right hfits]
  · exact iff_of_false (by simp) fun h => hfits h.1

theorem framed_inj {fh fh' : UInt8} {body body' : List UInt8}
    (h : framed fh body = framed fh' body') : body = body' := by
  rw [framed, framed, List.cons_append, List.cons_append] at h
  exact encode_append_inj (List.cons.inj h).2

theorem not_refused_of_code {buf : MqttBuffer} {h : MqttHeap} {r : Packed}
    (hcode : r.1 = mqtterrNoerror) : ¬ Refused buf h r := fun hr => by
  have hlt := hr.code.2
  rw [hcode] at hlt
  exact absurd hlt (by decide)

/-- A code that is none of `mqtt.h` is that of a call that does not come back. -/
theorem not_whole_of_crash {buf : MqttBuffer} {h : MqttHeap} {packet : Option (List UInt8)}
    {r : Packed} (hcode : r.1 < -14) : ¬ Whole buf h packet r := by
  rintro (⟨bytes, -, hgrown⟩ | hrefused)
  · rw [hgrown.code] at hcode
    exact absurd hcode (by decide)
  · have hge := hrefused.code.1
    omega

/-- The extents that have been put into the list, and the bytes of those before. -/
theorem Grown.of_drafted {rs : List Region} {ns : List UInt32}
    {ds : List (MqttExtent × List UInt8)} {buf : MqttBuffer} {h : MqttHeap} {r : Packed}
    (hd : Drafted rs h ns ds r.2.1 r.2.2) (hrs : ∀ q ∈ extentRegions buf.extents, q ∈ rs)
    (hcode : r.1 = mqtterrNoerror) {es : List MqttExtent}
    (hext : r.2.1.extents = buf.extents ++ es) :
    Grown buf h (flattenExtents r.2.2.mem es) r :=
  ⟨hcode, ⟨es, hext, rfl⟩, flattenExtents_kept fun q hq => hd.kept q (hrs q hq)⟩

/-- The bytes by which the list has grown are those of the extents behind it. -/
theorem Grown.flatten {buf : MqttBuffer} {h : MqttHeap} {bytes : List UInt8} {r : Packed}
    (hg : Grown buf h bytes r) {es : List MqttExtent}
    (hext : r.2.1.extents = buf.extents ++ es) : flattenExtents r.2.2.mem es = bytes := by
  obtain ⟨es', hext', hbytes⟩ := hg.list
  rw [hext'] at hext
  rwa [List.append_cancel_left hext] at hbytes

/-- What packing a packet adds to the list: the fixed header with the first byte and a length,
and the extents behind it. -/
structure PacketListed (rs : List Region) (buf : MqttBuffer) (h : MqttHeap) (r : Packed)
    (fh : UInt8) (n : ℕ) (fixHead : MqttExtent) (es : List MqttExtent)
    (ds : List (MqttExtent × List UInt8)) : Prop where
  code : r.1 = mqtterrNoerror
  short : n < 2 ^ 28
  fixHead_len : fixHead.len = 5
  extents : r.2.1.extents = buf.extents ++ fixHead.withField (encode n).length :: es
  header : (fixHead, fh :: encode n) ∈ ds
  drafted : Drafted rs h [] ds r.2.1 r.2.2

/-- Their lengths are added to the count. -/
structure PacketAdded (rs : List Region) (buf : MqttBuffer) (h : MqttHeap) (r : Packed)
    (fh : UInt8) (n : ℕ) (fixHead : MqttExtent) (es : List MqttExtent)
    (ds : List (MqttExtent × List UInt8)) : Prop
    extends PacketListed rs buf h r fh n fixHead es ds where
  bufferedBytes : r.2.1.bufferedBytes = buf.bufferedBytes +
    (fixHead.withField (encode n).length).len + (es.map MqttExtent.len).sum

section PacketListed

variable {rs : List Region} {buf : MqttBuffer} {h : MqttHeap} {r : Packed} {fh : UInt8} {n : ℕ}
  {fixHead : MqttExtent} {es : List MqttExtent} {ds : List (MqttExtent × List UInt8)}

/-- The fixed header of a packet that was added. -/
theorem PacketListed.readHeader (hp : PacketListed rs buf h r fh n fixHead es ds) :
    readMem r.2.2.mem (fixHead.withField (encode n).length).payload
      (fixHead.withField (encode n).length).len.toNat = fh :: encode n :=
  hp.drafted.readMem_filled hp.header rfl
    (toNat_len_withField fixHead (length_encode_bounds hp.short).2)

/-- The bytes of a packet whose extents are as long as its header says. -/
theorem PacketListed.flatten (hp : PacketListed rs buf h r fh n fixHead es ds)
    (hlen : extentsLength es = n) :
    flattenExtents r.2.2.mem (fixHead.withField (encode n).length :: es) =
      framed fh (flattenExtents r.2.2.mem es) := by
  rw [flattenExtents_cons, hp.readHeader, framed, length_flattenExtents, hlen]

/-- Such a packet is the whole one when its body is the one described. -/
theorem PacketListed.whole_iff (hp : PacketListed rs buf h r fh n fixHead es ds)
    (hlen : extentsLength es = n) (hrs : ∀ q ∈ extentRegions buf.extents, q ∈ rs)
    {fits : Prop} [Decidable fits] {body : List UInt8} :
    Whole buf h (describe fits fh body) r ↔
      (fits ∧ body.length < 2 ^ 28) ∧ flattenExtents r.2.2.mem es = body := by
  constructor
  · intro hw
    obtain ⟨bytes, hbytes, hgrown⟩ := hw.resolve_right (not_refused_of_code hp.code)
    obtain ⟨hfits, rfl⟩ := describe_eq_some.mp hbytes
    have hflat := hgrown.flatten hp.extents
    rw [hp.flatten hlen] at hflat
    exact ⟨hfits, framed_inj hflat⟩
  · rintro ⟨hfits, hbody⟩
    refine .inl ⟨_, describe_eq_some.mpr ⟨hfits, rfl⟩, ?_⟩
    have hgrown := Grown.of_drafted hp.drafted hrs hp.code hp.extents
    rwa [hp.flatten hlen, hbody] at hgrown

end PacketListed

theorem length_publishBody (a : PublishArgs) (h : MqttHeap) :
    (text a.topic.bytes ++ a.idBytes ++ a.payloadBytes h).length = a.bodyLen := by
  rw [List.length_append, List.length_append, length_text, PublishArgs.payloadBytes,
    length_readMem, PublishArgs.bodyLen]
  omega

/-- The packets that `Mqtt_PackPublishPkt` packs whole. -/
theorem publish_whole_iff {a : PublishArgs} {buf : MqttBuffer} {h : MqttHeap}
    (hm : MemoryOk (a.payloadRegions ++ extentRegions buf.extents) a.extentSizes buf h) :
    Whole buf h (a.packet h) (mqttPackPublishPkt buf a h) ↔ PublishWhole a buf h := by
  have hd := Drafted.start hm
  have hrs : ∀ q ∈ extentRegions buf.extents, q ∈ a.payloadRegions ++ extentRegions buf.extents :=
    fun q hq => List.mem_append_right _ hq
  have hpayload : a.size ≠ 0 → a.payloadRegion ∈ a.payloadRegions ++ extentRegions buf.extents :=
    fun hne => by
      rw [PublishArgs.payloadRegions, if_neg hne]
      exact List.mem_append_left _ (List.mem_singleton_self _)
  constructor
  · intro hw hacc
    have hcode := publish_code hacc
    obtain ⟨bytes, hbytes, hgrown⟩ := hw.resolve_right (not_refused_of_code hcode)
    obtain ⟨⟨htopic, hlen⟩, rfl⟩ := describe_eq_some.mp hbytes
    rw [length_publishBody] at hlen
    refine ⟨htopic, by omega, ?_⟩
    by_contra hmissing
    obtain ⟨fixHead, variableHead, payload, ds, count, hp⟩ :=
      publish_packs hacc hd (by omega) hpayload
    -- without the payload the packet is shorter than its arguments say
    have hflat := hp.flatten htopic hacc.total
    rw [hgrown.flatten hp.extents] at hflat
    obtain rfl : payload = [] := by
      cases hp.payload with
      | missing hno => rfl
      | packed q p bytes hsize hall hlen hp' hread => exact absurd (.inr hall) hmissing
    have hframed : framed a.firstByte (text a.topic.bytes ++ a.idBytes ++ a.payloadBytes h) =
        a.firstByte :: encode a.bodyLen ++ a.variableHeader := by
      rw [hflat, toNat_totalLen (by omega), flattenExtents_nil, List.append_nil]
    rw [framed, length_publishBody] at hframed
    have hback := congrArg List.length (List.append_cancel_left hframed)
    rw [length_publishBody, PublishArgs.variableHeader, pktString_eq_text htopic,
      List.length_append, length_text, PublishArgs.bodyLen] at hback
    have hzero : a.size.toNat = 0 := by omega
    exact hmissing (.inl (UInt32.toNat_inj.mp hzero))
  · intro hwhole
    by_cases hacc : PublishAccepted a buf h
    · obtain ⟨htopic, hlen, hyes⟩ := hwhole hacc
      obtain ⟨fixHead, variableHead, payload, ds, count, hp⟩ := publish_packs hacc hd hlen hpayload
      have htotal := hacc.total
      rw [toNat_totalLen hlen] at htotal
      refine .inl ⟨_, describe_eq_some.mpr ⟨⟨htopic, by rwa [length_publishBody]⟩, rfl⟩, ?_⟩
      have hflat := hp.flatten htopic hacc.total
      rw [hp.payload.flatten hyes, toNat_totalLen hlen, PublishArgs.variableHeader,
        pktString_eq_text htopic] at hflat
      have hgrown := Grown.of_drafted hp.drafted hrs (publish_code hacc) hp.extents
      rwa [toNat_totalLen hlen, hflat, ← length_publishBody a h] at hgrown
    · exact .inr (publish_refused hd hrs hacc)

end Mqtt
