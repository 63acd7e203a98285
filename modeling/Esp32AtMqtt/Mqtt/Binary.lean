import Esp32AtMqtt.Mqtt.DataPoint
import Esp32AtMqtt.Mqtt.Topics

/-!
# What packing a binary data point does

`Mqtt_PackDataPointByBinary` packs a PUBLISH packet without payload first, checks the strings
then, and appends two extents, the header with the label and the data. A failure behind the
first step leaves the empty packet in the list.

The label is the name of the data stream, the time and the description, with commas between.
Its length is cut to 16 bits, and a time that cannot be formatted leaves in it what was in the
memory.
-/

namespace Mqtt

open FlatMemory Base128

namespace BinaryArgs

variable (a : BinaryArgs)

/-- The size of the extent for the data. -/
def dataExtentSize : UInt32 := if a.own then a.size else 0

/-- The sizes of the extents that are allocated. -/
def extentSizes : List UInt32 :=
  [5, a.publish.totalLen - a.publish.size] ++
    (a.dsid.map fun dsid => [a.headerLen dsid, a.dataExtentSize]).getD []

/-- Where the caller has the data. -/
def dataRegions : List Region := if a.bin = 0 then [] else [⟨a.bin, a.size.toNat⟩]

/-- The text of the time; `none` when it cannot be formatted. -/
def timeText (formatTime : FormatTime) : Option (List UInt8) :=
  if 0 < a.time then (formatTime a.time).map (·.1.bytes) else some []

/-- What stands in front of the description. -/
def timePart (time : List UInt8) : List UInt8 :=
  if 0 < a.time then 0x2C :: time else if a.desc.isSome then [0x2C] else []

/-- The label of the data. -/
def label (dsid : CStr) (time : List UInt8) : List UInt8 :=
  dsid.bytes ++ a.timePart time ++ ((a.desc.map fun desc => 0x2C :: desc.bytes).getD [])

/-- The packet behind its fixed header. -/
def body (dsid : CStr) (time : List UInt8) (h : MqttHeap) : List UInt8 :=
  text a.publish.topic.bytes ++ a.publish.idBytes ++
    (4 :: text (a.label dsid time) ++ mqttWB32 a.size ++ readMem h.mem a.bin a.size.toNat)

/-- The packet that the arguments describe. -/
def packet (formatTime : FormatTime) (h : MqttHeap) : Option (List UInt8) :=
  match a.dsid, a.timeText formatTime with
  | some dsid, some time =>
      describe ((a.label dsid time).length < 2 ^ 16) a.publish.firstByte (a.body dsid time h)
  | _, _ => none

end BinaryArgs

/-- All that `Mqtt_PackDataPointByBinary` tests until the PUBLISH packet is packed. -/
structure BinaryAccepted (a : BinaryArgs) (dsid : CStr) (buf : MqttBuffer) (h : MqttHeap) :
    Prop where
  dsid : a.dsid = some dsid
  empty : buf.extents = []
  bin : a.bin ≠ 0
  size : a.size ≠ 0
  publish : PublishAccepted a.publish buf h

/-- Whatever it does behind that succeeds, and the label and the packet fit in their lengths. -/
structure BinaryPackable (formatTime : FormatTime) (a : BinaryArgs) (dsid : CStr)
    (buf : MqttBuffer) (h : MqttHeap) (time : List UInt8) : Prop where
  dsidUtf8 : dsid.isUtf8 dsid.bytes.length
  descUtf8 : ∀ desc ∈ a.desc, desc.isUtf8 desc.bytes.length
  allocates : Allocates a.extentSizes buf h
  timeText : a.timeText formatTime = some time
  label : (a.label dsid time).length < 2 ^ 16
  total : (a.body dsid time h).length < 2 ^ 28

/-- When `Mqtt_PackDataPointByBinary` is all or nothing: what it accepts can be packed. -/
def BinaryWhole (formatTime : FormatTime) (a : BinaryArgs) (buf : MqttBuffer) (h : MqttHeap) :
    Prop :=
  ∀ dsid, BinaryAccepted a dsid buf h → ∃ time, BinaryPackable formatTime a dsid buf h time

/-- The length is updated, and both extents are put into the list. -/
def listBinary (len : UInt32) (headerExt binary : MqttExtent) (buf : MqttBuffer) (h : MqttHeap) :
    Packed :=
  let r := mqttAppendLength buf len h
  if r.1 ≠ mqtterrNoerror then r
  else (mqtterrNoerror, mqttBufferAppendExtent (mqttBufferAppendExtent r.2.1 headerExt) binary, r.2.2)

/-- The last part, with both extents allocated. -/
def finishBinary (formatTime : FormatTime) (a : BinaryArgs) (dsid : CStr)
    (headerExt binaryExt : MqttExtent) (buf : MqttBuffer) (h : MqttHeap) : Packed :=
  let time := ((formatTime a.time).map (·.1.bytes)).getD
    (readMem h.mem (headerExt.payload + (4 + dsid.strlen)) formatTimeStringSize)
  let h := h.write headerExt.payload (a.header dsid time)
  listBinary (a.headerLen dsid + a.size) headerExt (if a.own then binaryExt else ⟨a.size, a.bin⟩)
    buf (if a.own then h.write binaryExt.payload (readMem h.mem a.bin a.size.toNat) else h)

/-- An allocation fails, or both extents are there. -/
theorem packBinaryPayload_cases (formatTime : FormatTime) (a : BinaryArgs) (dsid : CStr)
    (buf : MqttBuffer) (h : MqttHeap) :
    (¬ Allocates [a.headerLen dsid, a.dataExtentSize] buf h ∧
        (packBinaryPayload formatTime a dsid buf h).1 = mqtterrOutofmemory ∧
        (packBinaryPayload formatTime a dsid buf h).2.1.extents = buf.extents) ∨
      ∃ headerExt binaryExt buf₁ buf₂ h₁ h₂,
        mqttBufferAllocExtent buf (a.headerLen dsid) h = (some headerExt, buf₁, h₁) ∧
        mqttBufferAllocExtent buf₁ a.dataExtentSize h₁ = (some binaryExt, buf₂, h₂) ∧
        packBinaryPayload formatTime a dsid buf h =
          finishBinary formatTime a dsid headerExt binaryExt buf₂ h₂ := by
  obtain ⟨r, hr⟩ : ∃ r, packBinaryPayload formatTime a dsid buf h = r := ⟨_, rfl⟩
  rw [hr]
  unfold packBinaryPayload at hr
  rcases hheader : mqttBufferAllocExtent buf (a.headerLen dsid) h with ⟨_ | headerExt, buf₁, h₁⟩
  · simp only [withExtent_eq, hheader] at hr
    obtain ⟨hext, -, -⟩ := mqttBufferAllocExtent_frame buf (a.headerLen dsid) h
    rw [hheader] at hext
    refine .inl ⟨fun hall => ?_, hr ▸ ⟨rfl, hext⟩⟩
    have hsome := hall.1
    rw [hheader] at hsome
    cases hsome
  simp only [withExtent_eq, hheader, mqttBufferAllocExtent_write] at hr
  rw [show (if a.own then a.size else 0) = a.dataExtentSize from rfl] at hr
  obtain ⟨hext₁, -, -⟩ := mqttBufferAllocExtent_frame buf (a.headerLen dsid) h
  obtain ⟨hext₂, -, hmem₂⟩ := mqttBufferAllocExtent_frame buf₁ a.dataExtentSize h₁
  rw [hheader] at hext₁
  rcases hdata : mqttBufferAllocExtent buf₁ a.dataExtentSize h₁ with ⟨_ | binaryExt, buf₂, h₂⟩
  · simp only [hdata] at hr hext₂
    refine .inl ⟨fun hall => ?_, hr ▸ ⟨rfl, hext₂.trans hext₁⟩⟩
    have hsome := hall.2.1
    rw [hheader, hdata] at hsome
    cases hsome
  · simp only [hdata] at hr hmem₂
    refine .inr ⟨headerExt, binaryExt, buf₁, buf₂, h₁, h₂, rfl, hdata, ?_⟩
    rw [← hr]
    simp only [finishBinary, listBinary, hmem₂]

/-- The PUBLISH packet has no payload of its own. -/
theorem size_publish (a : BinaryArgs) : a.publish.size = 0 := rfl

/-- The list does not become empty. -/
theorem mqttAppendLength_extents {buf : MqttBuffer} (hne : buf.extents ≠ []) (len : UInt32)
    (h : MqttHeap) : (mqttAppendLength buf len h).2.1.extents ≠ [] := by
  unfold mqttAppendLength
  cases hext : buf.extents with
  | nil => exact absurd hext hne
  | cons fixHead rest =>
      simp only
      split
      · rw [hext]
        exact List.cons_ne_nil _ _
      · split
        · exact List.cons_ne_nil _ _
        · exact List.cons_ne_nil _ _

theorem listBinary_extents {buf : MqttBuffer} (hne : buf.extents ≠ []) (len : UInt32)
    (headerExt binary : MqttExtent) (h : MqttHeap) :
    (listBinary len headerExt binary buf h).2.1.extents ≠ [] := by
  rw [listBinary]
  split
  · exact mqttAppendLength_extents hne len h
  · exact List.append_ne_nil_of_right_ne_nil _ (List.cons_ne_nil _ _)

/-- The PUBLISH packet is in the list, and the strings are checked. -/
theorem binary_accepted {formatTime : FormatTime} {a : BinaryArgs} {dsid : CStr}
    {buf : MqttBuffer} {h : MqttHeap} (hacc : BinaryAccepted a dsid buf h) :
    ∃ fixHead variableHead buf₂ h₂,
      mqttPackDataPointByBinary formatTime buf a h =
        (if ¬ dsid.isUtf8 dsid.bytes.length ∨
            a.desc.any fun desc => ¬ desc.isUtf8 desc.bytes.length then
          (mqtterrNotUtf8, buf₂, h₂)
        else packBinaryPayload formatTime a dsid buf₂ h₂) ∧
      buf₂.extents =
        [fixHead.withField (encode a.publish.totalLen.toNat).length, variableHead] ∧
      (∀ ns, Allocates (5 :: (a.publish.totalLen - a.publish.size) :: ns) buf h ↔
        Allocates ns buf₂ h₂) ∧
      ∀ rs ns, Drafted rs h (5 :: (a.publish.totalLen - a.publish.size) :: ns) [] buf h →
        fixHead.len = 5 ∧ variableHead.len = a.publish.totalLen - a.publish.size ∧
          Drafted rs h ns [(variableHead, a.publish.variableHeader),
            (fixHead, a.publish.firstByte :: encode a.publish.totalLen.toNat)] buf₂ h₂ := by
  obtain ⟨fixHead, variableHead, buf₂, h₂, heq, hext, -, hall, hdraft⟩ :=
    publish_headers hacc.publish
  rw [if_neg (not_not.mpr (size_publish a))] at heq
  refine ⟨fixHead, variableHead, buf₂, h₂, ?_, ?_, hall, hdraft⟩
  · have hguard : ¬ (buf.extents ≠ [] ∨ a.bin = 0 ∨ a.size = 0) := by
      rintro (hne | hbin | hsize)
      · exact hne hacc.empty
      · exact hacc.bin hbin
      · exact hacc.size hsize
    rw [mqttPackDataPointByBinary]
    simp only [hacc.dsid, heq]
    rw [if_neg hguard, if_neg (not_not.mpr rfl)]
  · rw [hext, hacc.empty, List.nil_append]

/-- From then on the list is not empty any more, and `MQTTERR_NOERROR` means that the strings
are UTF-8 and all extents are there. -/
theorem binary_code {formatTime : FormatTime} {a : BinaryArgs} {dsid : CStr} {buf : MqttBuffer}
    {h : MqttHeap} (hacc : BinaryAccepted a dsid buf h) :
    (mqttPackDataPointByBinary formatTime buf a h).2.1.extents ≠ [] ∧
      ((mqttPackDataPointByBinary formatTime buf a h).1 = mqtterrNoerror →
        dsid.isUtf8 dsid.bytes.length ∧ (∀ desc ∈ a.desc, desc.isUtf8 desc.bytes.length) ∧
          Allocates a.extentSizes buf h) := by
  obtain ⟨fixHead, variableHead, buf₂, h₂, heq, hext, hall, -⟩ := binary_accepted hacc
  have hne : buf₂.extents ≠ [] := by
    rw [hext]
    exact List.cons_ne_nil _ _
  rw [heq]
  by_cases hutf8 : ¬ dsid.isUtf8 dsid.bytes.length ∨
      a.desc.any fun desc => ¬ desc.isUtf8 desc.bytes.length
  · rw [if_pos hutf8]
    exact ⟨hne, fun hcode => absurd hcode (by decide : mqtterrNotUtf8 ≠ mqtterrNoerror)⟩
  rw [if_neg hutf8]
  rw [not_or, not_not] at hutf8
  obtain ⟨-, hcode, hsame⟩ | ⟨headerExt, binaryExt, buf₃, buf₄, h₃, h₄, hheader, hdata, hfin⟩ :=
    packBinaryPayload_cases formatTime a dsid buf₂ h₂
  · rw [hcode, hsame]
    exact ⟨hne, fun hcode => absurd hcode (by decide : mqtterrOutofmemory ≠ mqtterrNoerror)⟩
  · have hne₄ : buf₄.extents ≠ [] := by
      rw [(frame_of_alloc hdata).1, (frame_of_alloc hheader).1]
      exact hne
    refine ⟨by rw [hfin]; exact listBinary_extents hne₄ _ _ _ _, fun _ => ⟨hutf8.1, ?_, ?_⟩⟩
    · intro desc hdesc
      by_contra hbad
      exact hutf8.2 ((Option.any_eq_true _ _).mpr ⟨desc, hdesc, decide_eq_true hbad⟩)
    · rw [BinaryArgs.extentSizes, hacc.dsid]
      exact (hall _).mpr ⟨by rw [hheader]; rfl, by rw [hheader, hdata]; rfl, trivial⟩

section Label

variable {formatTime : FormatTime} {a : BinaryArgs} {dsid : CStr} {time : List UInt8}

/-- The text of the time has its fixed length. -/
theorem length_timePart (htime : a.timeText formatTime = some time) :
    (a.timePart time).length =
      if 0 < a.time then formatTimeStringSize + 1 else if a.desc.isSome then 1 else 0 := by
  rw [BinaryArgs.timeText] at htime
  rw [BinaryArgs.timePart]
  by_cases hpos : 0 < a.time
  · rw [if_pos hpos] at htime ⊢
    obtain ⟨text, -, rfl⟩ := Option.map_eq_some_iff.mp htime
    rw [if_pos hpos, List.length_cons, text.2]
  · rw [if_neg hpos, if_neg hpos]
    split <;> rfl

/-- The length that is taken for the header is that of the label and seven bytes. -/
theorem toNat_headerLen (htime : a.timeText formatTime = some time)
    (hlabel : (a.label dsid time).length < 2 ^ 16) :
    (a.headerLen dsid).toNat = (a.label dsid time).length + 7 := by
  have htimeLen := length_timePart htime
  have hdsid := toNat_strlen dsid
  rw [BinaryArgs.label, List.length_append, List.length_append, htimeLen] at hlabel ⊢
  rw [BinaryArgs.headerLen]
  cases hdesc : a.desc with
  | none =>
      simp only [hdesc, Option.map_none, Option.getD_none, List.length_nil, Option.isSome_none,
        Bool.false_eq_true, if_false, UInt32.toNat_add, hdsid] at hlabel ⊢
      split at hlabel <;> simp_all only [if_true, if_false, formatTimeStringSize, UInt32.toNat_add,
        UInt32.toNat_ofNat', UInt32.reduceToNat] <;> omega
  | some desc =>
      have hlen := toNat_strlen desc
      simp only [hdesc, Option.map_some, Option.getD_some, List.length_cons, Option.isSome_some,
        if_true, UInt32.toNat_add, hdsid, hlen] at hlabel ⊢
      split at hlabel <;> simp_all only [if_true, if_false, formatTimeStringSize, UInt32.toNat_add,
        UInt32.toNat_ofNat', UInt32.reduceToNat] <;> omega

/-- The header that is written is the one described. -/
theorem header_eq (htime : a.timeText formatTime = some time)
    (hlabel : (a.label dsid time).length < 2 ^ 16) (old : List UInt8) :
    a.header dsid (((formatTime a.time).map (·.1.bytes)).getD old) =
      4 :: text (a.label dsid time) ++ mqttWB32 a.size := by
  have hlen := toNat_headerLen htime hlabel
  have hfield : (a.headerLen dsid - 7).toUInt16 = UInt16.ofNat (a.label dsid time).length := by
    rw [← UInt16.toNat_inj, UInt32.toNat_toUInt16, UInt16.toNat_ofNat', UInt32.toNat_sub, hlen]
    simp only [UInt32.reduceToNat]
    omega
  have htimePart : a.timePart (((formatTime a.time).map (·.1.bytes)).getD old) =
      a.timePart time := by
    rw [BinaryArgs.timeText] at htime
    by_cases hpos : 0 < a.time
    · rw [if_pos hpos] at htime
      rw [htime, Option.getD_some]
    · rw [BinaryArgs.timePart, BinaryArgs.timePart, if_neg hpos, if_neg hpos]
  rw [BinaryArgs.header, hfield, text, ← BinaryArgs.timePart, htimePart]
  simp only [BinaryArgs.label, List.append_assoc, List.cons_append]

end Label

theorem length_binaryBody (a : BinaryArgs) (dsid : CStr) (time : List UInt8) (h : MqttHeap) :
    (a.body dsid time h).length = a.publish.totalLen.toNat +
      ((a.label dsid time).length + 7) + a.size.toNat := by
  have htotal := toNat_variableLen a.publish
  rw [size_publish, UInt32.sub_zero] at htotal
  have hword : (mqttWB32 a.size).length = 4 := rfl
  simp only [BinaryArgs.body, List.length_append, List.length_cons, length_text, length_readMem,
    htotal, hword]
  omega

/-- The topics are short. -/
theorem toNat_publish_totalLen_le (a : BinaryArgs) : a.publish.totalLen.toNat ≤ 13 := by
  have htotal := toNat_variableLen a.publish
  have hid := length_idBytes a.publish
  have htopic : a.publish.topic.bytes.length = 9 := by
    rw [BinaryArgs.publish]
    split <;> rfl
  rw [size_publish, UInt32.sub_zero, htopic] at htotal
  split at hid <;> omega

/-- The data, in their extent or where the caller has them. -/
theorem binary_data {rs : List Region} {ds : List (MqttExtent × List UInt8)} {a : BinaryArgs}
    {binaryExt : MqttExtent} {buf : MqttBuffer} {h₀ h : MqttHeap}
    (hd : Drafted rs h₀ [] ((binaryExt, []) :: ds) buf h)
    (hlen : binaryExt.len = a.dataExtentSize) (hrs : (⟨a.bin, a.size.toNat⟩ : Region) ∈ rs) :
    ∃ bytes h', h' = (if a.own then h.write binaryExt.payload (readMem h.mem a.bin a.size.toNat)
        else h) ∧ Drafted rs h₀ [] ((binaryExt, bytes) :: ds) buf h' ∧
      ∀ {ds' : List (MqttExtent × List UInt8)} {buf' : MqttBuffer} {h'' : MqttHeap},
        Drafted rs h₀ [] ((binaryExt, bytes) :: ds') buf' h'' →
          ((if a.own then binaryExt else ⟨a.size, a.bin⟩ : MqttExtent).len = a.size ∧
            flattenExtents h''.mem [if a.own then binaryExt else ⟨a.size, a.bin⟩] =
              readMem h₀.mem a.bin a.size.toNat) := by
  have hkept := hd.kept _ hrs
  rw [BinaryArgs.dataExtentSize] at hlen
  by_cases hown : a.own
  · rw [if_pos hown] at hlen
    rw [if_pos hown, if_pos hown]
    refine ⟨readMem h.mem a.bin a.size.toNat, _, rfl,
      hd.writeFirst [] _ (by rw [length_readMem, hlen]), fun hd' => ⟨hlen, ?_⟩⟩
    have hheld := (hd'.held _ List.mem_cons_self).2
    rw [length_readMem] at hheld
    rw [flattenExtents_cons, flattenExtents_nil, List.append_nil, hlen, hheld]
    exact hkept
  · rw [if_neg hown, if_neg hown]
    refine ⟨[], h, rfl, hd, fun hd' => ⟨rfl, ?_⟩⟩
    rw [flattenExtents_cons, flattenExtents_nil, List.append_nil]
    exact hd'.kept _ hrs

/-- What is in the list behind a packet that can be packed. -/
theorem binary_packs {formatTime : FormatTime} {a : BinaryArgs} {dsid : CStr} {time : List UInt8}
    {buf : MqttBuffer} {h : MqttHeap} {rs : List Region} (hd : Drafted rs h a.extentSizes [] buf h)
    (hdata : (⟨a.bin, a.size.toNat⟩ : Region) ∈ rs) (hacc : BinaryAccepted a dsid buf h)
    (hp : BinaryPackable formatTime a dsid buf h time) :
    ∃ fixHead es ds, PacketListed rs buf h (mqttPackDataPointByBinary formatTime buf a h)
        a.publish.firstByte (a.body dsid time h).length fixHead es ds ∧
      extentsLength es = (a.body dsid time h).length ∧
      flattenExtents (mqttPackDataPointByBinary formatTime buf a h).2.2.mem es =
        a.body dsid time h := by
  obtain ⟨fixHead, variableHead, buf₂, h₂, heq, hext₂, hall, hdraft⟩ :=
    @binary_accepted formatTime a dsid buf h hacc
  have hsizes : a.extentSizes = 5 :: (a.publish.totalLen - a.publish.size) ::
      [a.headerLen dsid, a.dataExtentSize] := by
    rw [BinaryArgs.extentSizes, hacc.dsid]
    rfl
  have hallocates := hp.allocates
  rw [hsizes] at hd hallocates
  obtain ⟨hfixLen, hvarLen, hd₂⟩ := hdraft rs _ hd
  have hutf8 : ¬ (¬ dsid.isUtf8 dsid.bytes.length ∨
      a.desc.any fun desc => ¬ desc.isUtf8 desc.bytes.length) := by
    rintro (hbad | hbad)
    · exact hbad hp.dsidUtf8
    · obtain ⟨desc, hdesc, hbad⟩ := (Option.any_eq_true _ _).mp hbad
      exact of_decide_eq_true hbad (hp.descUtf8 desc hdesc)
  rw [if_neg hutf8] at heq
  obtain ⟨hno, -⟩ | ⟨headerExt, binaryExt, buf₃, buf₄, h₃, h₄, hheader, hbinary, hfin⟩ :=
    packBinaryPayload_cases formatTime a dsid buf₂ h₂
  · exact absurd ((hall _).mp hallocates) hno
  rw [hfin, finishBinary] at heq
  -- the lengths
  have hword : (mqttWB32 a.size).length = 4 := rfl
  have hbodyLen := length_binaryBody a dsid time h
  have hheaderLen := toNat_headerLen hp.timeText hp.label
  have htotalLe := toNat_publish_totalLen_le a
  have hshort := hp.total
  have hdataSize : a.dataExtentSize.toNat ≤ 2 ^ 32 - 16 := by
    rw [BinaryArgs.dataExtentSize]
    split
    · omega
    · decide
  have hsum : (a.headerLen dsid + a.size).toNat = (a.label dsid time).length + 7 + a.size.toNat := by
    rw [UInt32.toNat_add, hheaderLen]
    omega
  -- the two extents are filled
  obtain ⟨hheaderExt, hd₃⟩ := hd₂.alloc (e := headerExt) (by omega) (by rw [hheader])
  rw [hheader] at hd₃
  obtain ⟨hbinaryExt, hd₄⟩ := hd₃.alloc (e := binaryExt) hdataSize (by rw [hbinary])
  rw [hbinary] at hd₄
  have hfill := hd₄.writeFirst [(binaryExt, [])] (a.header dsid
    (((formatTime a.time).map (·.1.bytes)).getD
      (readMem h₄.mem (headerExt.payload + (4 + dsid.strlen)) formatTimeStringSize)))
    (by
      rw [header_eq hp.timeText hp.label, hheaderExt, hheaderLen]
      simp only [List.length_append, List.length_cons, length_text, hword]
      omega)
  obtain ⟨bytes, h₅, hh₅, hd₅, hlisted⟩ := binary_data hfill hbinaryExt hdata
  rw [header_eq hp.timeText hp.label] at hh₅ hd₅
  -- the length is updated, and the extents are put into the list
  have hext₄ : buf₄.extents =
      [fixHead.withField (encode a.publish.totalLen.toNat).length, variableHead] := by
    rw [(frame_of_alloc hbinary).1, (frame_of_alloc hheader).1, hext₂]
  have htotal : (a.body dsid time h).length =
      a.publish.totalLen.toNat + (a.headerLen dsid + a.size).toNat := by omega
  obtain ⟨h₆, hlen₆, hd₆⟩ := hd₅.appendLength [(binaryExt, bytes),
    (headerExt, 4 :: text (a.label dsid time) ++ mqttWB32 a.size),
    (variableHead, a.publish.variableHeader)] hfixLen hext₄ (by omega) (htotal ▸ hshort)
  rw [← htotal] at hlen₆ hd₆
  have hresult : mqttPackDataPointByBinary formatTime buf a h = (mqtterrNoerror,
      mqttBufferAppendExtent (mqttBufferAppendExtent
        (buf₄.setFirst (fixHead.withField (encode (a.body dsid time h).length).length)) headerExt)
          (if a.own then binaryExt else ⟨a.size, a.bin⟩), h₆) := by
    rw [heq, header_eq hp.timeText hp.label, ← hh₅, listBinary, hlen₆]
    exact if_neg (not_not.mpr rfl)
  obtain ⟨hbinaryLen, hbinaryBytes⟩ := hlisted hd₆
  refine ⟨fixHead, [variableHead, headerExt, if a.own then binaryExt else ⟨a.size, a.bin⟩],
    [(binaryExt, bytes), (headerExt, 4 :: text (a.label dsid time) ++ mqttWB32 a.size),
      (variableHead, a.publish.variableHeader),
      (fixHead, a.publish.firstByte :: encode (a.body dsid time h).length)],
    ⟨by rw [hresult], hshort, hfixLen, ?_, by simp, ?_⟩, ?_, ?_⟩
  · rw [hresult, hacc.empty]
    simp only [mqttBufferAppendExtent, MqttBuffer.setFirst, hext₄, List.tail_cons,
      List.cons_append, List.nil_append]
  · rw [hresult]
    exact (hd₆.append _).append _
  · rw [extentsLength_cons, extentsLength_cons, extentsLength_cons, extentsLength_nil, hvarLen,
      hheaderExt, hbinaryLen, hheaderLen, size_publish, UInt32.sub_zero, hbodyLen]
    omega
  · have htopic : a.publish.topic.bytes.length = 9 := by
      rw [BinaryArgs.publish]
      split <;> rfl
    have hvariable : a.publish.variableHeader =
        text a.publish.topic.bytes ++ a.publish.idBytes := by
      rw [PublishArgs.variableHeader, pktString_eq_text (by omega)]
    have hvarSize : variableHead.len.toNat = a.publish.variableHeader.length := by
      rw [hvarLen, toNat_variableLen, hvariable, List.length_append, length_text]
      omega
    have hheaderSize : headerExt.len.toNat =
        (4 :: text (a.label dsid time) ++ mqttWB32 a.size).length := by
      rw [hheaderExt, hheaderLen]
      simp only [List.length_append, List.length_cons, length_text, hword]
      omega
    rw [hresult, flattenExtents_cons, flattenExtents_cons, hbinaryBytes,
      hd₆.readMem_filled (by simp) rfl hvarSize, hd₆.readMem_filled (by simp) rfl hheaderSize,
      BinaryArgs.body, hvariable]

/-- What is not accepted changes nothing. -/
theorem binary_refused {formatTime : FormatTime} {a : BinaryArgs} {buf : MqttBuffer}
    {h : MqttHeap} {rs : List Region} (hd : Drafted rs h a.extentSizes [] buf h)
    (hrs : ∀ q ∈ extentRegions buf.extents, q ∈ rs) (hno : ∀ dsid, ¬ BinaryAccepted a dsid buf h) :
    Refused buf h (mqttPackDataPointByBinary formatTime buf a h) := by
  unfold mqttPackDataPointByBinary
  cases hdsid : a.dsid with
  | none => exact refused_at_once buf h (by decide)
  | some dsid =>
      by_cases hguard : buf.extents ≠ [] ∨ a.bin = 0 ∨ a.size = 0
      · simp only [if_pos hguard]
        exact refused_at_once buf h (by decide)
      rw [not_or, not_not, not_or] at hguard
      have hpublish : ¬ PublishAccepted a.publish buf h := fun hpublish =>
        hno dsid ⟨hdsid, hguard.1, hguard.2.1, hguard.2.2, hpublish⟩
      have hcode : (mqttPackPublishPkt buf a.publish h).1 ≠ mqtterrNoerror := fun hcode =>
        hpublish (publish_accepted hcode)
      have hfirst : Drafted rs h a.publish.extentSizes [] buf h := by
        rw [PublishArgs.extentSizes, if_pos (size_publish a), List.append_nil]
        rw [BinaryArgs.extentSizes] at hd
        exact hd.of_append
      simp only [if_neg (show ¬ (buf.extents ≠ [] ∨ a.bin = 0 ∨ a.size = 0) by
        rw [not_or, not_not, not_or]; exact hguard), if_pos hcode]
      exact publish_refused hfirst hrs hpublish

/-- The binary data points that are packed whole. -/
theorem binary_whole_iff {formatTime : FormatTime} {a : BinaryArgs} {buf : MqttBuffer}
    {h : MqttHeap}
    (hm : MemoryOk (a.dataRegions ++ extentRegions buf.extents) a.extentSizes buf h) :
    Whole buf h (a.packet formatTime h) (mqttPackDataPointByBinary formatTime buf a h) ↔
      BinaryWhole formatTime a buf h := by
  have hd := Drafted.start hm
  have hrs : ∀ q ∈ extentRegions buf.extents, q ∈ a.dataRegions ++ extentRegions buf.extents :=
    fun q hq => List.mem_append_right _ hq
  by_cases hacc : ∃ dsid, BinaryAccepted a dsid buf h
  swap
  · have hno : ∀ dsid, ¬ BinaryAccepted a dsid buf h := fun dsid hacc' => hacc ⟨dsid, hacc'⟩
    exact iff_of_true (.inr (binary_refused hd hrs hno)) fun dsid hacc' => absurd hacc' (hno dsid)
  obtain ⟨dsid, hacc⟩ := hacc
  obtain ⟨hne, hnoerror⟩ := @binary_code formatTime a dsid buf h hacc
  constructor
  · intro hwhole dsid' hacc'
    have hsame : dsid' = dsid := Option.some.inj (hacc'.dsid.symm.trans hacc.dsid)
    subst hsame
    have hgrown : ¬ Refused buf h (mqttPackDataPointByBinary formatTime buf a h) := fun hrefused =>
      hne (hrefused.untouched.extents.trans hacc.empty)
    obtain ⟨bytes, hbytes, hgrown⟩ := hwhole.resolve_right hgrown
    obtain ⟨hdsid, hdesc, hall⟩ := hnoerror hgrown.code
    rw [BinaryArgs.packet, hacc.dsid] at hbytes
    cases htime : a.timeText formatTime with
    | none =>
        simp only [htime] at hbytes
        cases hbytes
    | some time =>
        simp only [htime] at hbytes
        obtain ⟨⟨hlabel, htotal⟩, -⟩ := describe_eq_some.mp hbytes
        exact ⟨time, hdsid, hdesc, hall, htime, hlabel, htotal⟩
  · intro hwhole
    obtain ⟨time, hp⟩ := hwhole dsid hacc
    have hdata : (⟨a.bin, a.size.toNat⟩ : Region) ∈ a.dataRegions ++ extentRegions buf.extents := by
      rw [BinaryArgs.dataRegions, if_neg hacc.bin]
      exact List.mem_append_left _ (List.mem_singleton_self _)
    obtain ⟨fixHead, es, ds, hlisted, hlen, hflat⟩ := binary_packs hd hdata hacc hp
    have hpacket : a.packet formatTime h = describe ((a.label dsid time).length < 2 ^ 16)
        a.publish.firstByte (a.body dsid time h) := by
      rw [BinaryArgs.packet, hacc.dsid, hp.timeText]
    rw [hpacket]
    exact (hlisted.whole_iff hlen hrs).mpr ⟨⟨hp.label, hp.total⟩, hflat⟩

end Mqtt
