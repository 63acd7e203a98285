import Esp32AtMqtt.Edp.Savedata

/-!
# Documents of every shape

What `UnpackSavedataInt` and `UnpackSavedataString` do with whatever `cJSON_Parse` accepts.
The readers go down the tree through pointers of which they test only some, and
`UnpackSavedataInt` takes the number of an item of any type, which is zero where the item
has none. `Handled` says what a document needs at the places where there is no test.
-/

namespace Edp

/-- The field `type`. -/
def CJson.type : CJson → CJsonType
  | item type _ _ _ _ => type

/-- A tree as `cJSON_Parse` builds it: the items that have a string value are those of the
type string. -/
inductive CJson.Parsed : CJson → Prop
  | intro {type : CJsonType} {string valuestring : Option Str} {valueint : Int32}
      {child : List CJson} (hvalue : valuestring.isSome ↔ type = .string)
      (hchild : ∀ c ∈ child, c.Parsed) : Parsed (item type string valuestring valueint child)

/-- The kinds of a value that are read. -/
inductive ValueKind
  | int
  | string
  deriving DecidableEq, Repr

/-- The type of an item with a value of the kind. -/
def ValueKind.type : ValueKind → CJsonType
  | .int => .number
  | .string => .string

/-- What a call returns: 0 or a code, and nothing where it uses a null pointer. -/
def returnValue {α : Type} : EStateM.Result ℤ Reading α → Option ℤ
  | .ok _ _ => some 0
  | .error e _ => if e = nullUse then none else some e

/-- `UnpackSavedataInt` or `UnpackSavedataString`. -/
def ValueKind.call (parse : List UInt8 → Option CJson) (type : UInt8) (r : Reading) :
    ValueKind → Option ℤ
  | .int => returnValue (unpackSavedataInt parse type r)
  | .string => returnValue (unpackSavedataString parse type r)

/-- The document has the id of a data stream, a data point and a value of the kind, at the
places where the layout has them. -/
def HasPoint (kind : ValueKind) : SaveDataType → CJson → Prop
  | .fullJson, doc => ∃ ds ∈ doc.getObjectItem keyDatastreams, ∃ d ∈ ds.child.head?,
      (∃ i ∈ d.getObjectItem keyId, i.type = .string) ∧
      ∃ dp ∈ d.getObjectItem keyDatapoints, ∃ p ∈ dp.child.head?,
        ∃ v ∈ p.getObjectItem keyValue, v.type = kind.type
  | .simpleJsonWithoutTime, doc =>
      ∃ c ∈ doc.child.head?, c.string.isSome ∧ c.type = kind.type
  | .simpleJsonWithTime, doc =>
      ∃ c ∈ doc.child.head?, c.string.isSome ∧ ∃ v ∈ c.child.head?, v.type = kind.type
  | .bin, _ => False
  | .string, _ => False

/-- A call comes back, with a code when the document lacks something. -/
def Answered (kind : ValueKind) (type : SaveDataType) (doc : CJson) (ret : Option ℤ) : Prop :=
  ∃ code, ret = some code ∧ (¬ HasPoint kind type doc → code ≠ 0)

/-- Where the readers do not test, the document has what they look for: in the full layout an
id with a string value in the only data stream, and a value of the kind in the only data
point; otherwise a value of the kind in the first item, and in the layout without the time
a name for it. -/
def Handled (kind : ValueKind) : SaveDataType → CJson → Prop
  | .fullJson, doc => ∀ ds ∈ doc.getObjectItem keyDatastreams, ∀ d, ds.child = [d] →
      (∃ i ∈ d.getObjectItem keyId, i.type = .string) ∧
      ∀ dp ∈ d.getObjectItem keyDatapoints, ∀ p, dp.child = [p] →
        ∃ v ∈ p.getObjectItem keyValue, v.type = kind.type
  | .simpleJsonWithoutTime, doc =>
      ∀ c ∈ doc.child.head?, c.string.isSome ∧ c.type = kind.type
  | .simpleJsonWithTime, doc =>
      ∀ c ∈ doc.child.head?, c.string.isSome → ∀ v ∈ c.child.head?, v.type = kind.type
  | .bin, _ => True
  | .string, _ => True

theorem CJson.Parsed.valuestring_isSome_iff {c : CJson} (h : c.Parsed) :
    c.valuestring.isSome ↔ c.type = .string := by
  cases h with
  | intro hvalue _ => exact hvalue

theorem CJson.Parsed.mem_child {c d : CJson} (h : c.Parsed) (hd : d ∈ c.child) : d.Parsed := by
  cases h with
  | intro _ hchild => exact hchild d hd

theorem CJson.Parsed.getObjectItem {c d : CJson} (h : c.Parsed) {name : Str}
    (hd : c.getObjectItem name = some d) : d.Parsed :=
  h.mem_child (List.mem_of_find?_eq_some hd)

theorem getArraySize_singleton {c d : CJson} (h : c.child = [d]) : c.getArraySize = 1 := by
  rw [CJson.getArraySize, h, List.length_singleton]

theorem getArrayItem_singleton {c d : CJson} (h : c.child = [d]) : c.getArrayItem 0 = some d := by
  rw [CJson.getArrayItem, h, List.getElem?_cons_zero]

theorem forall_singleton_iff {c d : CJson} (h : c.child = [d]) {P : CJson → Prop} :
    (∀ d', c.child = [d'] → P d') ↔ P d := by
  simp [h]

section Answers

variable {α β : Type} {kind : ValueKind} {type : SaveDataType} {doc : CJson} {r : Reading}

@[simp] theorem deref_none (f : α → Read β) : (deref none >>= f) r = .error nullUse r := rfl

@[simp] theorem orReturn_none (code : ℤ) (f : α → Read β) :
    (orReturn code none >>= f) r = .error code r := rfl

theorem answered_error {e : ℤ} (hcode : e ≠ 0) (hnull : e ≠ nullUse) :
    Answered kind type doc (returnValue (.error e r : EStateM.Result ℤ Reading α)) :=
  ⟨e, if_neg hnull, fun _ => hcode⟩

theorem not_answered_null :
    ¬ Answered kind type doc (returnValue (.error nullUse r : EStateM.Result ℤ Reading α)) := by
  rintro ⟨code, hret, -⟩
  rw [returnValue, if_pos rfl] at hret
  cases hret

theorem answered_ok_iff (v : α) :
    Answered kind type doc (returnValue (.ok v r)) ↔ HasPoint kind type doc := by
  constructor
  · rintro ⟨code, hret, hcode⟩
    cases hret
    exact not_not.mp fun hno => hcode hno rfl
  · exact fun h => ⟨0, rfl, fun hno => absurd h hno⟩

/-- The value at the end: it must be of the kind. -/
theorem answered_value_iff {readValue : CJson → Option β} {dsId : Str} {v : CJson}
    (hread : v.type = kind.type → (readValue v).isSome)
    (hhas : HasPoint kind type doc ↔ v.type = kind.type) :
    Answered kind type doc
        (returnValue ((deref (readValue v) >>= fun value => pure (dsId, value)) r)) ↔
      v.type = kind.type := by
  cases hv : readValue v with
  | none =>
      refine iff_of_false not_answered_null fun htype => ?_
      have hsome := hread htype
      rw [hv] at hsome
      cases hsome
  | some value => exact (answered_ok_iff _).trans hhas

end Answers

section Layouts

variable {β : Type} {parse : List UInt8 → Option CJson} {readValue : CJson → Option β}
  {kind : ValueKind} {doc : CJson} {r r' : Reading}

theorem unpackSavedataType2_answered_iff
    (hjson : unpackSavedataJson mallocSucceeds parse r = .ok doc r') (hparsed : doc.Parsed)
    (hread : ∀ v : CJson, v.Parsed → v.type = kind.type → (readValue v).isSome) :
    Answered kind .simpleJsonWithoutTime doc
        (returnValue (unpackSavedataType2 parse readValue r)) ↔
      Handled kind .simpleJsonWithoutTime doc := by
  rw [unpackSavedataType2, bind_of_ok (orErr_of_ok hjson), Handled]
  cases hchild : doc.child.head? with
  | none => exact iff_of_true (answered_error (by decide) (by decide)) (by simp)
  | some c =>
      have hc := hparsed.mem_child (List.mem_of_mem_head? hchild)
      simp only [orReturn_some, Option.mem_some_iff, forall_eq']
      cases hname : c.string with
      | none => exact iff_of_false not_answered_null (by simp)
      | some name =>
          simp only [deref_some, Option.isSome_some, true_and]
          exact answered_value_iff (hread c hc) (by simp [HasPoint, hchild, hname])

theorem unpackSavedataType3_answered_iff
    (hjson : unpackSavedataJson mallocSucceeds parse r = .ok doc r') (hparsed : doc.Parsed)
    (hread : ∀ v : CJson, v.Parsed → v.type = kind.type → (readValue v).isSome) :
    Answered kind .simpleJsonWithTime doc
        (returnValue (unpackSavedataType3 parse readValue r)) ↔
      Handled kind .simpleJsonWithTime doc := by
  rw [unpackSavedataType3, bind_of_ok (orErr_of_ok hjson), Handled]
  cases hchild : doc.child.head? with
  | none => exact iff_of_true (answered_error (by decide) (by decide)) (by simp)
  | some c =>
      have hc := hparsed.mem_child (List.mem_of_mem_head? hchild)
      simp only [orReturn_some, Option.mem_some_iff, forall_eq']
      cases hname : c.string with
      | none => exact iff_of_true (answered_error (by decide) (by decide)) (by simp)
      | some name =>
          simp only [orReturn_some, Option.isSome_some, forall_const]
          cases hpoint : c.child.head? with
          | none => exact iff_of_true (answered_error (by decide) (by decide)) (by simp)
          | some v =>
              have hv := hc.mem_child (List.mem_of_mem_head? hpoint)
              simp only [orReturn_some, Option.mem_some_iff, forall_eq']
              exact answered_value_iff (hread v hv) (by simp [HasPoint, hchild, hname, hpoint])

/-- The only data point `p`, of the stream `d` with the id `dsId`. -/
theorem unpackPoint_answered_iff {ds d i dp p : CJson} {dsId : Str} {tail : List CJson}
    (hds : doc.getObjectItem keyDatastreams = some ds) (hd : ds.child = d :: tail)
    (hid : d.getObjectItem keyId = some i) (htype : i.type = .string)
    (hdp : d.getObjectItem keyDatapoints = some dp) (hp : dp.child = [p]) (hparsed : p.Parsed)
    (hread : ∀ v : CJson, v.Parsed → v.type = kind.type → (readValue v).isSome) :
    Answered kind .fullJson doc (returnValue ((do
        let valueItem ← deref (p.getObjectItem keyValue)
        let value ← deref (readValue valueItem)
        return (dsId, value) : Read (Str × β)) r')) ↔
      ∃ v ∈ p.getObjectItem keyValue, v.type = kind.type := by
  cases hvalue : p.getObjectItem keyValue with
  | none => exact iff_of_false not_answered_null (by simp)
  | some v =>
      simp only [deref_some, Option.mem_some_iff, exists_eq_left']
      exact answered_value_iff (hread v (hparsed.getObjectItem hvalue))
        (by simp [HasPoint, hds, hd, hid, htype, hdp, hp, hvalue])

/-- The data points of the stream `d` with the id `dsId`. -/
theorem unpackPoints_answered_iff {ds d i : CJson} {dsId : Str} {tail : List CJson}
    (hds : doc.getObjectItem keyDatastreams = some ds) (hd : ds.child = d :: tail)
    (hid : d.getObjectItem keyId = some i) (htype : i.type = .string) (hparsed : d.Parsed)
    (hread : ∀ v : CJson, v.Parsed → v.type = kind.type → (readValue v).isSome) :
    Answered kind .fullJson doc (returnValue ((do
        let dpArray ← orReturn (-1024) (d.getObjectItem keyDatapoints)
        if dpArray.getArraySize ≠ 1 then throw (-1024)
        else
          let dpItem ← deref (dpArray.getArrayItem 0)
          let valueItem ← deref (dpItem.getObjectItem keyValue)
          let value ← deref (readValue valueItem)
          return (dsId, value) : Read (Str × β)) r')) ↔
      ∀ dp ∈ d.getObjectItem keyDatapoints, ∀ p, dp.child = [p] →
        ∃ v ∈ p.getObjectItem keyValue, v.type = kind.type := by
  cases hpoints : d.getObjectItem keyDatapoints with
  | none => exact iff_of_true (answered_error (by decide) (by decide)) (by simp)
  | some dp =>
      simp only [orReturn_some, Option.mem_some_iff, forall_eq']
      split
      · next hsize =>
          refine iff_of_true (answered_error (by decide) (by decide)) fun p hp => ?_
          exact absurd (getArraySize_singleton hp) hsize
      · next hsize =>
          obtain ⟨p, hp⟩ := List.length_eq_one_iff.mp (not_not.mp hsize)
          rw [getArrayItem_singleton hp, deref_some, forall_singleton_iff hp]
          exact unpackPoint_answered_iff hds hd hid htype hpoints hp
            ((hparsed.getObjectItem hpoints).mem_child (by simp [hp])) hread

theorem unpackSavedataType1_answered_iff
    (hjson : unpackSavedataJson mallocSucceeds parse r = .ok doc r') (hparsed : doc.Parsed)
    (hread : ∀ v : CJson, v.Parsed → v.type = kind.type → (readValue v).isSome) :
    Answered kind .fullJson doc (returnValue (unpackSavedataType1 parse readValue r)) ↔
      Handled kind .fullJson doc := by
  rw [unpackSavedataType1, bind_of_ok (orErr_of_ok hjson), Handled]
  cases hds : doc.getObjectItem keyDatastreams with
  | none => exact iff_of_true (answered_error (by decide) (by decide)) (by simp)
  | some ds =>
      simp only [orReturn_some, Option.mem_some_iff, forall_eq']
      split
      · next hsize =>
          refine iff_of_true (answered_error (by decide) (by decide)) fun d hd => ?_
          exact absurd (getArraySize_singleton hd) hsize
      · next hsize =>
          obtain ⟨d, hd⟩ := List.length_eq_one_iff.mp (not_not.mp hsize)
          have hd' : d.Parsed := (hparsed.getObjectItem hds).mem_child (by simp [hd])
          rw [getArrayItem_singleton hd, orReturn_some, forall_singleton_iff hd]
          -- the id is used without a test, and so is its string
          cases hid : d.getObjectItem keyId with
          | none => exact iff_of_false not_answered_null (by simp)
          | some i =>
              have hi := (hd'.getObjectItem hid).valuestring_isSome_iff
              simp only [deref_some, Option.mem_some_iff, exists_eq_left']
              cases hstr : i.valuestring with
              | none =>
                  refine iff_of_false not_answered_null fun h => ?_
                  have hsome := hi.mpr h.1
                  rw [hstr] at hsome
                  cases hsome
              | some dsId =>
                  have htype : i.type = .string := hi.mp (by rw [hstr]; rfl)
                  simp only [deref_some, htype, true_and]
                  exact unpackPoints_answered_iff hds hd hid htype hd' hread

/-- A reader of one kind, in every layout. -/
theorem unpackSavedataValue_answered_iff
    (hjson : unpackSavedataJson mallocSucceeds parse r = .ok doc r') (hparsed : doc.Parsed)
    (hread : ∀ v : CJson, v.Parsed → v.type = kind.type → (readValue v).isSome)
    (type : SaveDataType) :
    Answered kind type doc (returnValue (unpackSavedataValue parse readValue type.flag r)) ↔
      Handled kind type doc := by
  cases type with
  | fullJson => exact unpackSavedataType1_answered_iff hjson hparsed hread
  | simpleJsonWithoutTime => exact unpackSavedataType2_answered_iff hjson hparsed hread
  | simpleJsonWithTime => exact unpackSavedataType3_answered_iff hjson hparsed hread
  | bin => exact iff_of_true (answered_error (by decide) (by decide)) trivial
  | string => exact iff_of_true (answered_error (by decide) (by decide)) trivial

end Layouts

/-- A document that is accepted is answered as it should be exactly when it has what the
readers look for without a test. -/
theorem unpackSavedata_answered_iff {parse : List UInt8 → Option CJson}
    (hparse : ∀ text doc, parse text = some doc → doc.Parsed) (kind : ValueKind)
    (type : SaveDataType) {doc : CJson} {r r' : Reading}
    (hjson : unpackSavedataJson mallocSucceeds parse r = .ok doc r') :
    Answered kind type doc (kind.call parse type.flag r) ↔ Handled kind type doc := by
  have hparsed : doc.Parsed := by
    obtain ⟨text, r₁, -, hdoc⟩ := bind_eq_ok hjson
    cases htext : parse text with
    | none =>
        rw [htext] at hdoc
        cases hdoc
    | some doc' =>
        rw [htext] at hdoc
        cases hdoc
        exact hparse text doc htext
  cases kind with
  | int => exact unpackSavedataValue_answered_iff hjson hparsed (fun _ _ _ => rfl) type
  | string =>
      refine unpackSavedataValue_answered_iff hjson hparsed (fun v hv htype => ?_) type
      exact hv.valuestring_isSome_iff.mpr htype

/-- A packet that holds a text, behind the flag. -/
def textPacket (text : Str) : Buffer :=
  ⟨text.field, UInt32.ofNat text.field.length, 0, UInt32.ofNat text.field.length⟩

/-- What `cJSON_Parse` makes of one text. -/
def parseOnly (text : Str) (doc : CJson) : List UInt8 → Option CJson := fun s =>
  if s = text.bytes then some doc else none

theorem parseOnly_parsed {text : Str} {doc : CJson} (h : doc.Parsed) :
    ∀ s doc', parseOnly text doc s = some doc' → doc'.Parsed := by
  intro s doc' hs
  unfold parseOnly at hs
  split at hs
  · exact Option.some.inj hs ▸ h
  · cases hs

/-- The text of a packet is read and parsed. -/
theorem unpackSavedataJson_textPacket {text : Str} (doc : CJson) (h : text.Short) :
    ∃ r', unpackSavedataJson mallocSucceeds (parseOnly text doc) (textPacket text).reading =
      .ok doc r' := by
  have hshort : text.bytes.length ≤ 65535 := h
  have hlen : (UInt32.ofNat text.field.length).toNat = text.field.length := by
    rw [Str.length_field, UInt32.toNat_ofNat']
    omega
  have hunread : (textPacket text).unread = text.field ++ [] := by
    show (text.field.take (UInt32.ofNat text.field.length).toNat).drop 0 = _
    rw [hlen, List.take_length, List.drop_zero, List.append_nil]
  have hpos : (textPacket text).writePos.toNat + 2 ^ 16 ≤ 2 ^ 32 := by
    show (UInt32.ofNat text.field.length).toNat + _ ≤ _
    rw [hlen, Str.length_field]
    omega
  exact unpackSavedataJson_field ⟨UInt32.zero_le, hlen.le⟩ hpos h (if_pos rfl) hunread

/-- The tree of a temperature. -/
def tempDoc : CJson := .item .object none none 0 [.item .number (some tempId) none 25 []]

theorem tempDoc_parsed : tempDoc.Parsed := by
  refine .intro (by simp) fun c hc => ?_
  rw [List.mem_singleton.mp hc]
  exact .intro (by simp) (by simp)

/-- The number of a temperature is read from the layout without the time. -/
theorem unpackSavedata_answered_temp :
    (∀ text doc, parseOnly tempText tempDoc text = some doc → doc.Parsed) ∧
      ∃ r', unpackSavedataJson mallocSucceeds (parseOnly tempText tempDoc)
          (textPacket tempText).reading = .ok tempDoc r' ∧
        Answered .int .simpleJsonWithoutTime tempDoc (ValueKind.int.call
          (parseOnly tempText tempDoc) SaveDataType.simpleJsonWithoutTime.flag
          (textPacket tempText).reading) := by
  have hparse : ∀ text doc, parseOnly tempText tempDoc text = some doc → doc.Parsed :=
    parseOnly_parsed tempDoc_parsed
  have hshort : tempText.Short := by decide
  obtain ⟨r', hjson⟩ := unpackSavedataJson_textPacket tempDoc hshort
  refine ⟨hparse, r', hjson, ?_⟩
  apply (unpackSavedata_answered_iff hparse .int .simpleJsonWithoutTime hjson).mpr
  rintro c ⟨⟩
  exact ⟨rfl, rfl⟩

/-- The bytes of `{"datastreams":[{}]}`. -/
def noIdText : Str :=
  ⟨[123, 34, 100, 97, 116, 97, 115, 116, 114, 101, 97, 109, 115, 34, 58, 91, 123, 125, 93, 125],
    by decide⟩

/-- The tree of that text. -/
def noIdDoc : CJson :=
  .item .object none none 0
    [.item .array (some keyDatastreams) none 0 [.item .object none none 0 []]]

theorem noIdDoc_parsed : noIdDoc.Parsed := by
  refine .intro (by simp) fun c hc => ?_
  rw [List.mem_singleton.mp hc]
  refine .intro (by simp) fun c hc => ?_
  rw [List.mem_singleton.mp hc]
  exact .intro (by simp) (by simp)

/-- The id of a stream that has none is read through the null pointer. -/
theorem unpackSavedata_noId :
    ¬ ∀ (parse : List UInt8 → Option CJson), (∀ text doc, parse text = some doc → doc.Parsed) →
      ∀ (kind : ValueKind) (type : SaveDataType) (doc : CJson) (r r' : Reading),
        unpackSavedataJson mallocSucceeds parse r = .ok doc r' →
        Answered kind type doc (kind.call parse type.flag r) := by
  intro hall
  have hshort : noIdText.Short := by decide
  obtain ⟨r', hjson⟩ := unpackSavedataJson_textPacket noIdDoc hshort
  obtain ⟨code, hret, -⟩ := hall _ (parseOnly_parsed noIdDoc_parsed) .int .fullJson noIdDoc _ r'
    hjson
  have hnone : ValueKind.int.call (parseOnly noIdText noIdDoc) SaveDataType.fullJson.flag
      (textPacket noIdText).reading = none := by
    decide +kernel
  rw [hnone] at hret
  cases hret

end Edp
