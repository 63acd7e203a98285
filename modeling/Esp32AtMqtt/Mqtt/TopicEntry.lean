import Esp32AtMqtt.Mqtt.Topics

/-!
# Appending a topic

`Mqtt_AppendSubscribeTopic` and `Mqtt_AppendUnsubscribeTopic` put one more topic behind the
list and encode the new length in the fixed header, the first extent of the list. The header
has five bytes of its own, of which as many count as its length field needs (`HeaderOk`).

A topic that is too long for its own length field is cut. When it is so long that the packet's
length cannot be encoded, the call refuses, and the header has been overwritten.
-/

namespace Mqtt

open FlatMemory Base128

/-- The extent of a fixed header with all its bytes. -/
def MqttExtent.header (fixedHead : MqttExtent) : MqttExtent := { fixedHead with len := 5 }

/-- The header begins with this byte, and its length field says this number. -/
def HeaderSays (mem : UInt32 → UInt8) (fixedHead : MqttExtent) (head : UInt8) (n : ℕ) : Prop :=
  ∃ field rest, readMem mem fixedHead.payload 5 = head :: (field ++ rest) ∧ IsField field ∧
    value field = n

/-- The entry stands behind the list, and the header says the length with it. -/
structure EntryAdded (head : UInt8) (entry : List UInt8) (buf : MqttBuffer) (h : MqttHeap)
    (r : Packed) (fixedHead : MqttExtent) (rest : List MqttExtent) (n : ℕ) (ext : MqttExtent) :
    Prop where
  code : r.1 = mqtterrNoerror
  extents : buf.extents = fixedHead :: rest
  header : HeaderSays h.mem fixedHead head n
  list : r.2.1.extents =
    fixedHead.withField (encode (n + entry.length)).length :: (rest ++ [ext])
  updated : flattenExtents r.2.2.mem [fixedHead.withField (encode (n + entry.length)).length] =
    head :: encode (n + entry.length)
  kept : flattenExtents r.2.2.mem rest = flattenExtents h.mem rest
  bytes : flattenExtents r.2.2.mem [ext] = entry

/-- Nothing has changed, all bytes of the header included. -/
structure RefusedEntry (buf : MqttBuffer) (h : MqttHeap) (r : Packed) : Prop
    extends Refused buf h r where
  header : ∀ fixedHead ∈ buf.extents.head?,
    readMem r.2.2.mem fixedHead.payload 5 = readMem h.mem fixedHead.payload 5

/-- The whole entry has been added, or nothing has changed. -/
def EntryWhole (head : UInt8) (entry : Option (List UInt8)) (buf : MqttBuffer) (h : MqttHeap)
    (r : Packed) : Prop :=
  (∃ bytes, entry = some bytes ∧
    ∃ fixedHead rest n ext, EntryAdded head bytes buf h r fixedHead rest n ext) ∨
      RefusedEntry buf h r

/-- The entry that a topic describes: it fits in its length field. -/
def topicText (tail : List UInt8) (topic : Option CStr) : Option (List UInt8) :=
  topic.bind fun s => if s.bytes.length < 2 ^ 16 then some (text s.bytes ++ tail) else none

/-- The size of the extent for a topic. -/
def topicEntrySize (tail : List UInt8) (s : CStr) : UInt32 :=
  s.strlen + (2 + UInt32.ofNat tail.length)

/-- All that the two functions test before they touch the header. -/
structure TopicAccepted (head : UInt8) (tail : List UInt8) (buf : MqttBuffer) (s : CStr)
    (h : MqttHeap) (fixedHead : MqttExtent) (rest : List MqttExtent) : Prop where
  extents : buf.extents = fixedHead :: rest
  head : h.mem fixedHead.payload = head
  allocates : Allocates [topicEntrySize tail s] buf h
  readable : 0 ≤ (readLengthFrom fixedHead h).1

/-- When the two functions are all or nothing: a topic that they accept fits in its length
field. -/
def TopicEntryWhole (head : UInt8) (tail : List UInt8) (buf : MqttBuffer) (topic : Option CStr)
    (h : MqttHeap) : Prop :=
  ∀ s ∈ topic, ∀ fixedHead rest, TopicAccepted head tail buf s h fixedHead rest →
    s.bytes.length < 2 ^ 16

/-- The first extent of a list is a fixed header as the packers leave it: five bytes of its own,
of which at most five count, apart from the other extents. -/
structure HeaderOk (ns : List UInt32) (buf : MqttBuffer) (h : MqttHeap) (fixedHead : MqttExtent)
    (rest : List MqttExtent) : Prop where
  len_le : fixedHead.len.toNat ≤ 5
  memory : MemoryOk (fixedHead.header.region :: extentRegions rest) ns buf h
  apart : ∀ q ∈ extentRegions rest, q.Disjoint fixedHead.header.region

/-- What the two functions find in the memory. -/
def EntryMemoryOk (head : UInt8) (tail : List UInt8) (buf : MqttBuffer) (topic : Option CStr)
    (h : MqttHeap) : Prop :=
  ∀ s ∈ topic, ∀ fixedHead rest, buf.extents = fixedHead :: rest →
    h.mem fixedHead.payload = head → HeaderOk [topicEntrySize tail s] buf h fixedHead rest

theorem toNat_topicEntrySize {tail : List UInt8} (htail : tail.length ≤ 1) (s : CStr) :
    (topicEntrySize tail s).toNat = 2 + s.bytes.length + tail.length := by
  have hlt := s.length_lt
  have hlen := toNat_strlen s
  rw [topicEntrySize, UInt32.toNat_add, UInt32.toNat_add, hlen, UInt32.toNat_ofNat']
  simp only [UInt32.reduceToNat]
  omega

theorem length_topicEntry_le {tail : List UInt8} (htail : tail.length ≤ 1) (s : CStr) :
    (topicEntry tail s).length ≤ (topicEntrySize tail s).toNat := by
  have hle := Nat.min_le_right (UInt16.ofNat s.bytes.length).toNat s.bytes.length
  rw [toNat_topicEntrySize htail, topicEntry, List.length_append, length_pktString]
  omega

/-- The header is being filled, with the bytes that it has. -/
theorem HeaderOk.drafted {ns : List UInt32} {buf : MqttBuffer} {h : MqttHeap}
    {fixedHead : MqttExtent} {rest : List MqttExtent} (hok : HeaderOk ns buf h fixedHead rest) :
    Drafted (extentRegions rest) h ns
      [(fixedHead.header, readMem h.mem fixedHead.payload 5)] buf h where
  room := hok.memory.room
  allocs := hok.memory.allocs
  fits := fun d hd => by
    rw [List.mem_singleton.mp hd]
    exact hok.memory.fits _ List.mem_cons_self
  apart := List.pairwise_singleton _ _
  keptFits := fun q hq => hok.memory.fits q (List.mem_cons_of_mem _ hq)
  clear := fun d hd q hq => by
    rw [List.mem_singleton.mp hd]
    exact hok.apart q hq
  held := fun d hd => by
    rw [List.mem_singleton.mp hd, length_readMem]
    exact ⟨le_rfl, rfl⟩
  kept := fun _ _ => rfl

section RefusedEntry

variable {ns ms : List UInt32} {ds : List (MqttExtent × List UInt8)} {buf buf' : MqttBuffer}
  {h h' : MqttHeap} {fixedHead : MqttExtent} {rest : List MqttExtent} {code : ℤ}

/-- As long as the header has its bytes the list has them too. -/
theorem HeaderOk.refused (hok : HeaderOk ns buf h fixedHead rest)
    (hextents : buf.extents = fixedHead :: rest)
    (hd : Drafted (extentRegions rest) h ms ds buf' h')
    (hmem : (fixedHead.header, readMem h.mem fixedHead.payload 5) ∈ ds)
    (hext : buf'.extents = buf.extents) (hcount : buf'.bufferedBytes = buf.bufferedBytes)
    (hcode : IsError code) : RefusedEntry buf h (code, buf', h') := by
  have hheader : readMem h'.mem fixedHead.payload 5 = readMem h.mem fixedHead.payload 5 := by
    have hheld := (hd.held _ hmem).2
    rwa [length_readMem] at hheld
  have hfirst : readMem h'.mem fixedHead.payload fixedHead.len.toNat =
      readMem h.mem fixedHead.payload fixedHead.len.toNat := by
    have hsplit : 5 = fixedHead.len.toNat + (5 - fixedHead.len.toNat) := by
      have hle := hok.len_le
      omega
    rw [hsplit, readMem_add, readMem_add] at hheader
    exact (List.append_inj hheader (by rw [length_readMem, length_readMem])).1
  refine ⟨⟨hcode, hext, hcount, ?_⟩, fun e he => ?_⟩
  · rw [hextents, flattenExtents_cons, flattenExtents_cons, hfirst,
      flattenExtents_kept fun q hq => hd.kept q hq]
  · rw [hextents, List.head?_cons, Option.mem_some_iff] at he
    rw [← he]
    exact hheader

end RefusedEntry

theorem refusedEntry_at_once (buf : MqttBuffer) (h : MqttHeap) {code : ℤ} (hcode : IsError code) :
    RefusedEntry buf h (code, buf, h) := ⟨refused_at_once buf h hcode, fun _ _ => rfl⟩

/-- The last part of both functions, from the length that the header says on. -/
def finishEntry (fixedHead ext : MqttExtent) (len : UInt32) (buf : MqttBuffer) (h : MqttHeap) :
    Packed :=
  let dump := dumpLengthInto fixedHead len h
  if dump.1 < 0 then (mqtterrPktTooLarge, buf, dump.2)
  else
    (mqtterrNoerror, mqttBufferAppendExtent (buf.setFirst (fixedHead.withField dump.1)) ext, dump.2)

/-- What is left to do when a topic has been accepted. -/
structure EntryDrafted (head : UInt8) (tail : List UInt8) (buf : MqttBuffer) (s : CStr)
    (h : MqttHeap) (r : Packed) (fixedHead : MqttExtent) (rest : List MqttExtent)
    (ext : MqttExtent) (buf₁ : MqttBuffer) (h₁ : MqttHeap) (field back : List UInt8) : Prop where
  accepted : TopicAccepted head tail buf s h fixedHead rest
  header : readMem h.mem fixedHead.payload 5 = head :: (field ++ back)
  isField : IsField field
  length_le : field.length ≤ 3
  ext_len : ext.len = topicEntrySize tail s
  extents : buf₁.extents = buf.extents
  drafted : Drafted (extentRegions rest) h []
    [(ext, topicEntry tail s), (fixedHead.header, head :: (field ++ back))] buf₁ h₁
  result : r =
    finishEntry fixedHead ext (UInt32.ofNat (value field) + topicEntrySize tail s) buf₁ h₁

/-- A topic is refused and nothing has changed; or it is accepted. -/
theorem mqttAppendTopic_cases {head : UInt8} {tail : List UInt8} (htail : tail.length ≤ 1)
    {buf : MqttBuffer} {s : CStr} {h : MqttHeap} (hm : EntryMemoryOk head tail buf (some s) h) :
    ((∀ fixedHead rest, ¬ TopicAccepted head tail buf s h fixedHead rest) ∧
        RefusedEntry buf h (mqttAppendTopic head tail buf (some s) h)) ∨
      ∃ fixedHead rest ext buf₁ h₁ field back, EntryDrafted head tail buf s h
        (mqttAppendTopic head tail buf (some s) h) fixedHead rest ext buf₁ h₁ field back := by
  obtain ⟨r, hr⟩ : ∃ r, mqttAppendTopic head tail buf (some s) h = r := ⟨_, rfl⟩
  rw [hr]
  unfold mqttAppendTopic at hr
  cases hextents : buf.extents with
  | nil =>
      simp only [hextents] at hr
      refine .inl ⟨fun fixedHead rest hacc => ?_, hr ▸ refusedEntry_at_once buf h (by decide)⟩
      have hcons := hacc.extents
      rw [hextents] at hcons
      cases hcons
  | cons fixedHead rest =>
      simp only [hextents] at hr
      have hsame : ∀ fixedHead' rest', TopicAccepted head tail buf s h fixedHead' rest' →
          fixedHead' = fixedHead ∧ rest' = rest := fun _ _ hacc => by
        have hcons := hacc.extents
        rw [hextents] at hcons
        exact ⟨(List.cons.inj hcons).1.symm, (List.cons.inj hcons).2.symm⟩
      by_cases hhead : h.mem fixedHead.payload = head
      swap
      · rw [if_pos hhead] at hr
        refine .inl ⟨fun fixedHead' rest' hacc => ?_, hr ▸ refusedEntry_at_once buf h (by decide)⟩
        obtain ⟨rfl, -⟩ := hsame _ _ hacc
        exact hhead hacc.head
      rw [if_neg (not_not.mpr hhead),
        show s.strlen + (2 + UInt32.ofNat tail.length) = topicEntrySize tail s from rfl] at hr
      have hok := hm s rfl fixedHead rest hextents hhead
      have hsize := toNat_topicEntrySize htail s
      have hslt := s.length_lt
      obtain ⟨hnone, heq⟩ | ⟨ext, hext, heq⟩ := withExtent_cases buf (topicEntrySize tail s) h _
      · rw [heq] at hr
        obtain ⟨hlist, hcount, -⟩ := mqttBufferAllocExtent_frame buf (topicEntrySize tail s) h
        refine .inl ⟨fun fixedHead' rest' hacc => ?_, hr ▸ ?_⟩
        · have hsome := hacc.allocates.1
          rw [hnone] at hsome
          cases hsome
        · exact hok.refused hextents hok.drafted.skip List.mem_cons_self hlist hcount (by decide)
      rw [heq] at hr
      obtain ⟨hlist, hcount, -⟩ := mqttBufferAllocExtent_frame buf (topicEntrySize tail s) h
      obtain ⟨hextLen, hd⟩ := hok.drafted.alloc (by omega) hext
      have hfill := hd.writeFirst [] (topicEntry tail s)
        (by rw [hextLen]; exact length_topicEntry_le htail s)
      set buf₁ := (mqttBufferAllocExtent buf (topicEntrySize tail s) h).2.1
      set h₁ := (mqttBufferAllocExtent buf (topicEntrySize tail s) h).2.2.write ext.payload
        (topicEntry tail s)
      -- the entry is apart from the header, so the length is read as it was
      have hbytes : readMem h.mem fixedHead.payload 5 =
          head :: readMem h.mem (fixedHead.payload + 1) 4 := by
        rw [← hhead]
        rfl
      have hheader : readMem h₁.mem fixedHead.payload 5 = readMem h.mem fixedHead.payload 5 := by
        have hheld := (hfill.held _ (List.mem_cons_of_mem _ List.mem_cons_self)).2
        rwa [length_readMem] at hheld
      have hread : readLengthFrom fixedHead h₁ = readLengthFrom fixedHead h := by
        rw [readLengthFrom_eq (hheader.trans hbytes), readLengthFrom_eq hbytes]
      simp only [hread] at hr
      have hfour : 3 ≤ (readMem h.mem (fixedHead.payload + 1) 4).length := by
        rw [length_readMem]
        omega
      obtain ⟨field, back, hsplit, hfield, hle, hvalue⟩ | hbad :=
        mqttReadLength_cases hfour (by decide : 3 ≤ 4)
      · rw [readLengthFrom_eq hbytes, hvalue, if_neg (by simp)] at hr
        refine .inr ⟨fixedHead, rest, ext, buf₁, h₁, field, back, ⟨hextents, hhead, ?_, ?_⟩,
          by rw [hbytes, hsplit], hfield, hle, hextLen, hlist, ?_, hr.symm⟩
        · exact ⟨by rw [hext]; rfl, trivial⟩
        · rw [readLengthFrom_eq hbytes, hvalue]
          omega
        · rw [hbytes, hsplit] at hfill
          exact hfill
      · rw [readLengthFrom_eq hbytes, hbad, if_pos (by decide)] at hr
        refine .inl ⟨fun fixedHead' rest' hacc => ?_, hr ▸ ?_⟩
        · obtain ⟨rfl, -⟩ := hsame _ _ hacc
          have hge := hacc.readable
          rw [readLengthFrom_eq hbytes, hbad] at hge
          omega
        · exact hok.refused hextents hfill (List.mem_cons_of_mem _ List.mem_cons_self) hlist hcount
            (by decide)

section EntryDrafted

variable {head : UInt8} {tail : List UInt8} {buf buf₁ : MqttBuffer} {s : CStr} {h h₁ : MqttHeap}
  {r : Packed} {fixedHead ext : MqttExtent} {rest : List MqttExtent} {field back : List UInt8}

/-- The new length does not wrap. -/
theorem EntryDrafted.toNat_len
    (hd : EntryDrafted head tail buf s h r fixedHead rest ext buf₁ h₁ field back)
    (htail : tail.length ≤ 1) :
    (UInt32.ofNat (value field) + topicEntrySize tail s).toNat =
      value field + (2 + s.bytes.length + tail.length) ∧ value field < 2 ^ 21 := by
  have hvalue : value field < 2 ^ 21 := value_lt_of_length_le hd.length_le
  have hlt := s.length_lt
  refine ⟨?_, hvalue⟩
  rw [UInt32.toNat_add, toNat_topicEntrySize htail, UInt32.toNat_ofNat']
  omega

/-- The memory when the new length has been written to the header. -/
theorem EntryDrafted.dumped
    (hd : EntryDrafted head tail buf s h r fixedHead rest ext buf₁ h₁ field back) (len : UInt32) :
    Drafted (extentRegions rest) h []
      [(ext, topicEntry tail s), (fixedHead.header, head :: (mqttDumpLength len.toNat).2)] buf₁
        (dumpLengthInto fixedHead len h₁).2 :=
  (hd.drafted.truncate [(ext, topicEntry tail s)] [head] (field ++ back)).dump
    [(ext, topicEntry tail s)] rfl len

/-- A topic that fits is added whole. -/
theorem EntryDrafted.added
    (hd : EntryDrafted head tail buf s h r fixedHead rest ext buf₁ h₁ field back)
    (htail : tail.length ≤ 1) (hfits : s.bytes.length < 2 ^ 16) :
    EntryAdded head (text s.bytes ++ tail) buf h r fixedHead rest (value field) ext := by
  obtain ⟨hlen, hvalue⟩ := hd.toNat_len htail
  have hentry : topicEntry tail s = text s.bytes ++ tail := by
    rw [topicEntry, pktString_eq_text hfits]
  have hsize : (text s.bytes ++ tail).length = 2 + s.bytes.length + tail.length := by
    rw [List.length_append, length_text]
  rw [← hsize] at hlen
  have hshort : (UInt32.ofNat (value field) + topicEntrySize tail s).toNat < 2 ^ 28 := by
    rw [hlen, hsize]
    omega
  have hdump := hd.dumped (UInt32.ofNat (value field) + topicEntrySize tail s)
  have hresult := hd.result
  rw [mqttDumpLength_of_lt hshort, hlen] at hdump
  simp only [finishEntry, dumpLengthInto_of_lt _ hshort, hlen] at hresult
  rw [if_neg (by omega)] at hresult
  have hbounds := length_encode_bounds (hlen ▸ hshort)
  subst hresult
  refine ⟨rfl, hd.accepted.extents, ⟨field, back, hd.header, hd.isField, rfl⟩, ?_, ?_, ?_, ?_⟩
  · simp only [mqttBufferAppendExtent, MqttBuffer.setFirst, hd.extents, hd.accepted.extents,
      List.tail_cons, List.cons_append]
  · rw [flattenExtents_cons, flattenExtents_nil, List.append_nil]
    exact hdump.readMem_filled (List.mem_cons_of_mem _ List.mem_cons_self) rfl
      (toNat_len_withField fixedHead hbounds.2)
  · exact flattenExtents_kept fun q hq => hdump.kept q hq
  · rw [flattenExtents_cons, flattenExtents_nil, List.append_nil, ← hentry]
    refine hdump.readMem_filled List.mem_cons_self rfl ?_
    rw [hd.ext_len, toNat_topicEntrySize htail, hentry, hsize]

/-- An accepted topic is never refused without a trace: when the length cannot be encoded, the
header is full of bytes that continue. -/
theorem EntryDrafted.not_refused
    (hd : EntryDrafted head tail buf s h r fixedHead rest ext buf₁ h₁ field back) :
    ¬ RefusedEntry buf h r := by
  intro hrefused
  have hresult := hd.result
  rcases Nat.lt_or_ge (UInt32.ofNat (value field) + topicEntrySize tail s).toNat (2 ^ 28) with
    hshort | hlong
  · simp only [finishEntry, dumpLengthInto_of_lt _ hshort] at hresult
    rw [if_neg (by omega)] at hresult
    exact not_refused_of_code (by rw [hresult]) hrefused.toRefused
  · simp only [finishEntry, dumpLengthInto_of_le _ hlong] at hresult
    rw [if_pos (by decide)] at hresult
    obtain ⟨hlen, hcont⟩ := dumpLengthLoop_continues 4 1
      (UInt32.ofNat (value field) + topicEntrySize tail s).toNat hlong
    have hheld := ((hd.dumped (UInt32.ofNat (value field) + topicEntrySize tail s)).held _
      (List.mem_cons_of_mem _ List.mem_cons_self)).2
    have hsame := hrefused.header fixedHead (by rw [hd.accepted.extents, List.head?_cons]; rfl)
    rw [hresult, hd.header] at hsame
    rw [List.length_cons, mqttDumpLength, hlen] at hheld
    have hbytes := (List.cons.inj (hheld.symm.trans hsame)).2
    obtain ⟨b, hb, hlt⟩ := hd.isField.exists_lt
    have hge := hcont b (hbytes ▸ List.mem_append_left back hb)
    omega

end EntryDrafted

/-- The topics that are appended whole. -/
theorem mqttAppendTopic_whole_iff {head : UInt8} {tail : List UInt8} (htail : tail.length ≤ 1)
    {buf : MqttBuffer} {topic : Option CStr} {h : MqttHeap}
    (hm : EntryMemoryOk head tail buf topic h) :
    EntryWhole head (topicText tail topic) buf h (mqttAppendTopic head tail buf topic h) ↔
      TopicEntryWhole head tail buf topic h := by
  cases topic with
  | none =>
      have heq : mqttAppendTopic head tail buf none h = (mqtterrInvalidParameter, buf, h) := by
        unfold mqttAppendTopic
        cases buf.extents <;> rfl
      rw [heq]
      exact iff_of_true (.inr (refusedEntry_at_once buf h (by decide))) fun s hs => nomatch hs
  | some s =>
      obtain ⟨hno, hrefused⟩ | ⟨fixedHead, rest, ext, buf₁, h₁, field, back, hd⟩ :=
        mqttAppendTopic_cases htail hm
      · refine iff_of_true (.inr hrefused) fun s' hs' fixedHead rest hacc => ?_
        cases hs'
        exact absurd hacc (hno fixedHead rest)
      have hcond : TopicEntryWhole head tail buf (some s) h ↔ s.bytes.length < 2 ^ 16 := by
        refine ⟨fun hwhole => hwhole s rfl _ _ hd.accepted, fun hlt s' hs' _ _ _ => ?_⟩
        cases hs'
        exact hlt
      rw [hcond]
      by_cases hfits : s.bytes.length < 2 ^ 16
      · refine iff_of_true (.inl ⟨_, if_pos hfits, _, _, _, _, hd.added htail hfits⟩) hfits
      · refine iff_of_false ?_ hfits
        rintro (⟨bytes, hbytes, -⟩ | hrefused)
        · rw [topicText, Option.bind_some, if_neg hfits] at hbytes
          cases hbytes
        · exact hd.not_refused hrefused

end Mqtt
