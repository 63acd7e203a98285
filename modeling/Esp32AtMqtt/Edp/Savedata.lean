import Esp32AtMqtt.Edp.RoundTrip

/-!
# Data points as JSON

`PacketSavedataInt`, `PacketSavedataString` and the functions that take their packets apart,
`UnpackSavedataInt` and `UnpackSavedataString`. `EdpKit.c` makes them from macros: `TYPE1` is the
full layout with a token, the data streams and their data points, `TYPE2` an object with the id
as its only name, `TYPE3` such an object around one whose only name is the time. A member of a
family is the definition of the macro at its values.

The trees are those of `cJSON.c`. `cJSON_Print` and `cJSON_Parse` are parameters; what is assumed
of them is that the text of the tree at hand is parsed to that tree.
-/

namespace Edp

/-- The types of an item. -/
inductive CJsonType
  | false
  | true
  | null
  | number
  | string
  | array
  | object
  deriving DecidableEq, Repr

/-- `struct cJSON`, with the items that `child` leads to as a list. `none` is the null pointer. -/
inductive CJson
  | item (type : CJsonType) (string valuestring : Option Str) (valueint : Int32)
      (child : List CJson)

namespace CJson

/-- The field `string`, the name of the item. -/
def string : CJson → Option Str
  | item _ string _ _ _ => string

/-- The field `valuestring`. -/
def valuestring : CJson → Option Str
  | item _ _ valuestring _ _ => valuestring

/-- The field `valueint`. -/
def valueint : CJson → Int32
  | item _ _ _ valueint _ => valueint

/-- The field `child`. -/
def child : CJson → List CJson
  | item _ _ _ _ child => child

/-- The item under another name. -/
def named : Str → CJson → CJson
  | name, item type _ valuestring valueint child => item type (some name) valuestring valueint child

/-- `cJSON_CreateNumber(num)`. -/
def createNumber (num : Int32) : CJson := item .number none none num []

/-- `cJSON_CreateString(string)`. -/
def createString (string : Str) : CJson := item .string none (some string) 0 []

/-- `cJSON_CreateArray()`. -/
def createArray : CJson := item .array none none 0 []

/-- `cJSON_CreateObject()`. -/
def createObject : CJson := item .object none none 0 []

/-- `cJSON_AddItemToArray(array, item)`. -/
def addItemToArray : CJson → CJson → CJson
  | item type string valuestring valueint child, new =>
      item type string valuestring valueint (child ++ [new])

/-- `cJSON_AddItemToObject(object, string, item)`. -/
def addItemToObject (object : CJson) (string : Str) (new : CJson) : CJson :=
  object.addItemToArray (new.named string)

/-- `cJSON_GetArraySize(array)`. -/
def getArraySize (array : CJson) : ℕ := array.child.length

/-- `cJSON_GetArrayItem(array, item)`. -/
def getArrayItem (array : CJson) (i : ℕ) : Option CJson := array.child[i]?

/-- `tolower(c)`. -/
def tolower (c : UInt8) : UInt8 := if 65 ≤ c ∧ c ≤ 90 then c + 32 else c

/-- `cJSON_strcasecmp(s1, s2) == 0`. -/
def strcaseeq (s₁ : Option Str) (s₂ : Str) : Bool :=
  match s₁ with
  | none => Bool.false
  | some s₁ => s₁.bytes.map tolower == s₂.bytes.map tolower

/-- `cJSON_GetObjectItem(object, string)`. -/
def getObjectItem (object : CJson) (string : Str) : Option CJson :=
  object.child.find? fun c => strcaseeq c.string string

end CJson

open CJson

/-- The bytes of `token`. -/
def keyToken : Str := ⟨[116, 111, 107, 101, 110], by decide⟩

/-- The bytes of `datastreams`. -/
def keyDatastreams : Str := ⟨[100, 97, 116, 97, 115, 116, 114, 101, 97, 109, 115], by decide⟩

/-- The bytes of `id`. -/
def keyId : Str := ⟨[105, 100], by decide⟩

/-- The bytes of `datapoints`. -/
def keyDatapoints : Str := ⟨[100, 97, 116, 97, 112, 111, 105, 110, 116, 115], by decide⟩

/-- The bytes of `at`. -/
def keyAt : Str := ⟨[97, 116], by decide⟩

/-- The bytes of `value`. -/
def keyValue : Str := ⟨[118, 97, 108, 117, 101], by decide⟩

/-- What `FormatAt(buffer, len, now)` leaves in the zeroed buffer: outside Linux and Windows it does
nothing. -/
def formatAt (_ : ℤ) : Str := ⟨[], List.not_mem_nil⟩

/-- The object of `PacketSavedataType1`, where `value` is the item that is added as the value. -/
def savedataType1 (dsId : Str) (value : CJson) (time : ℤ) (token : Option Str) : CJson :=
  let jsonObj :=
    match token with
    | some token => createObject.addItemToObject keyToken (createString token)
    | none => createObject
  let jsonObjDs := createObject.addItemToObject keyId (createString dsId)
  let dpItem := createObject.addItemToObject keyAt (createString (formatAt time))
  let dpItem := dpItem.addItemToObject keyValue value
  let dpArray := createArray.addItemToArray dpItem
  let jsonObjDs := jsonObjDs.addItemToObject keyDatapoints dpArray
  let dsArray := createArray.addItemToArray jsonObjDs
  jsonObj.addItemToObject keyDatastreams dsArray

/-- The object of `PacketSavedataType2`. -/
def savedataType2 (dsId : Str) (value : CJson) : CJson := createObject.addItemToObject dsId value

/-- The object of `PacketSavedataType3`. -/
def savedataType3 (dsId : Str) (value : CJson) (time : ℤ) : CJson :=
  let jsonObjDs := createObject.addItemToObject (formatAt time) value
  createObject.addItemToObject dsId jsonObjDs

/-- The object that `PacketSavedata` makes for a type, `none` for the types that have none. -/
def savedataObject (type : SaveDataType) (dsId : Str) (value : CJson) (time : ℤ)
    (token : Option Str) : Option CJson :=
  match type with
  | .fullJson => some (savedataType1 dsId value time token)
  | .simpleJsonWithoutTime => some (savedataType2 dsId value)
  | .simpleJsonWithTime => some (savedataType3 dsId value time)
  | _ => none

/-- `PacketSavedata` with an item as the value; `print` is `cJSON_Print`. -/
def packetSavedata (m : FreshMemory) (print : CJson → Str) (type : SaveDataType)
    (dstDevid : Option Str) (dsId : Str) (value : CJson) (time : ℤ) (token : Option Str) :
    Option Writing :=
  (savedataObject type dsId value time token).map fun jsonObj =>
    packetSavedataJson m dstDevid (print jsonObj) type

/-- `PacketSavedataInt(type, dst_devid, ds_id, value, at, token)`. -/
def packetSavedataInt (m : FreshMemory) (print : CJson → Str) (type : SaveDataType)
    (dstDevid : Option Str) (dsId : Str) (value : Int32) (time : ℤ) (token : Option Str) :
    Option Writing :=
  packetSavedata m print type dstDevid dsId (createNumber value) time token

/-- `PacketSavedataString(type, dst_devid, ds_id, value, at, token)`. -/
def packetSavedataString (m : FreshMemory) (print : CJson → Str) (type : SaveDataType)
    (dstDevid : Option Str) (dsId : Str) (value : Str) (time : ℤ) (token : Option Str) :
    Option Writing :=
  packetSavedata m print type dstDevid dsId (createString value) time token

/-- Stands for the use of a null pointer. It is none of the codes of the kit. -/
def nullUse : ℤ := -2001

/-- A pointer that is used without a test. -/
def deref {α : Type} : Option α → Read α
  | some v => return v
  | none => throw nullUse

/-- A pointer that is tested, with the code that is returned for the null pointer. -/
def orReturn {α : Type} (code : ℤ) : Option α → Read α
  | some v => return v
  | none => throw code

section Unpack

variable {β : Type} (parse : List UInt8 → Option CJson) (readValue : CJson → Option β)

/-- `UnpackSavedataType1`, with `readValue` for the field of the value that is read. -/
def unpackSavedataType1 : Read (Str × β) := do
  let jsonObj ← orErr (-1024) (unpackSavedataJson mallocSucceeds parse)
  let dsArray ← orReturn (-1024) (jsonObj.getObjectItem keyDatastreams)
  if dsArray.getArraySize ≠ 1 then throw (-1024)
  else
    let dsItem ← orReturn (-1024) (dsArray.getArrayItem 0)
    let idItem ← deref (dsItem.getObjectItem keyId)
    let dsId ← deref idItem.valuestring
    let dpArray ← orReturn (-1024) (dsItem.getObjectItem keyDatapoints)
    if dpArray.getArraySize ≠ 1 then throw (-1024)
    else
      let dpItem ← deref (dpArray.getArrayItem 0)
      let valueItem ← deref (dpItem.getObjectItem keyValue)
      let value ← deref (readValue valueItem)
      return (dsId, value)

/-- `UnpackSavedataType2`. -/
def unpackSavedataType2 : Read (Str × β) := do
  let jsonObj ← orErr (-1024) (unpackSavedataJson mallocSucceeds parse)
  let jsonChild ← orReturn (-1024) jsonObj.child.head?
  let dsId ← deref jsonChild.string
  let value ← deref (readValue jsonChild)
  return (dsId, value)

/-- `UnpackSavedataType3`. -/
def unpackSavedataType3 : Read (Str × β) := do
  let jsonObj ← orErr (-1024) (unpackSavedataJson mallocSucceeds parse)
  let jsonChild ← orReturn (-1024) jsonObj.child.head?
  let dsId ← orReturn (-1024) jsonChild.string
  let jsonChild ← orReturn (-1024) jsonChild.child.head?
  let value ← deref (readValue jsonChild)
  return (dsId, value)

/-- `UnpackSavedata` of a value, with the flag of the packet as the type. -/
def unpackSavedataValue (type : UInt8) : Read (Str × β) :=
  if type = SaveDataType.fullJson.flag then unpackSavedataType1 parse readValue
  else if type = SaveDataType.simpleJsonWithoutTime.flag then unpackSavedataType2 parse readValue
  else if type = SaveDataType.simpleJsonWithTime.flag then unpackSavedataType3 parse readValue
  else throw (-1)

end Unpack

/-- `UnpackSavedataInt(type, pkg, ds_id, value)`. -/
def unpackSavedataInt (parse : List UInt8 → Option CJson) (type : UInt8) : Read (Str × Int32) :=
  unpackSavedataValue parse (fun c => some c.valueint) type

/-- `UnpackSavedataString(type, pkg, ds_id, value)`. -/
def unpackSavedataString (parse : List UInt8 → Option CJson) (type : UInt8) : Read (Str × Str) :=
  unpackSavedataValue parse CJson.valuestring type

/-- The text of an object is read and parsed. -/
theorem unpackSavedataJson_field {parse : List UInt8 → Option CJson} {r : Reading} {jsonOut : Str}
    {jsonObj : CJson} {rest : List UInt8} (h : r.pkg.Held)
    (hpos : r.pkg.writePos.toNat + 2 ^ 16 ≤ 2 ^ 32) (hout : jsonOut.Short)
    (hparse : parse jsonOut.bytes = some jsonObj) (hunread : r.pkg.unread = jsonOut.field ++ rest) :
    ∃ r', unpackSavedataJson mallocSucceeds parse r = .ok jsonObj r' := by
  obtain ⟨r', hstr, -⟩ := readStr_field h hpos hout hunread
  refine ⟨r', ?_⟩
  rw [unpackSavedataJson, bind_of_ok (orErr_of_ok hstr), hparse]
  rfl

@[simp] theorem deref_some {α β : Type} (v : α) (f : α → Read β) : deref (some v) >>= f = f v := rfl

@[simp] theorem orReturn_some {α β : Type} (code : ℤ) (v : α) (f : α → Read β) :
    orReturn code (some v) >>= f = f v := rfl

section Layouts

variable {β : Type} {parse : List UInt8 → Option CJson} {readValue : CJson → Option β}
  {r r' : Reading} {dsId : Str} {value : CJson} {v : β}

/-- The full layout: the data streams are found behind the token, the points behind the id, and
the value behind the time. -/
theorem unpackSavedataType1_built {time : ℤ} {token : Option Str}
    (hread : unpackSavedataJson mallocSucceeds parse r =
      .ok (savedataType1 dsId value time token) r')
    (hvalue : readValue (value.named keyValue) = some v) :
    unpackSavedataType1 parse readValue r = .ok (dsId, v) r' := by
  have hfind : (savedataType1 dsId value time token).getObjectItem keyDatastreams =
      some ((createArray.addItemToArray ((createObject.addItemToObject keyId
        (createString dsId)).addItemToObject keyDatapoints (createArray.addItemToArray
        ((createObject.addItemToObject keyAt (createString (formatAt time))).addItemToObject
          keyValue value)))).named keyDatastreams) := by
    cases token with
    | none => rfl
    | some token => rfl
  rw [unpackSavedataType1, bind_of_ok (orErr_of_ok hread), hfind]
  -- one stream with an id, and one point in it
  show (deref (((createObject.addItemToObject keyAt
    (createString (formatAt time))).addItemToObject keyValue value).getObjectItem keyValue) >>=
    fun valueItem => deref (readValue valueItem) >>= fun value => pure (dsId, value)) r' = _
  have hpoint : ((createObject.addItemToObject keyAt
      (createString (formatAt time))).addItemToObject keyValue value).getObjectItem keyValue =
      some (value.named keyValue) := by
    cases value
    rfl
  rw [hpoint, deref_some, hvalue]
  rfl

theorem unpackSavedataType2_built
    (hread : unpackSavedataJson mallocSucceeds parse r = .ok (savedataType2 dsId value) r')
    (hvalue : readValue (value.named dsId) = some v) :
    unpackSavedataType2 parse readValue r = .ok (dsId, v) r' := by
  have hchild : (savedataType2 dsId value).child.head? = some (value.named dsId) := rfl
  have hname : (value.named dsId).string = some dsId := by
    cases value
    rfl
  rw [unpackSavedataType2, bind_of_ok (orErr_of_ok hread), hchild, orReturn_some, hname,
    deref_some, hvalue]
  rfl

theorem unpackSavedataType3_built {time : ℤ}
    (hread : unpackSavedataJson mallocSucceeds parse r = .ok (savedataType3 dsId value time) r')
    (hvalue : readValue (value.named (formatAt time)) = some v) :
    unpackSavedataType3 parse readValue r = .ok (dsId, v) r' := by
  rw [unpackSavedataType3, bind_of_ok (orErr_of_ok hread)]
  show (deref (readValue (value.named (formatAt time))) >>= fun value => pure (dsId, value)) r' = _
  rw [hvalue]
  rfl

/-- Every layout: the object that was made for the type of the packet is taken apart. -/
theorem unpackSavedataValue_built {type : SaveDataType} {time : ℤ} {token : Option Str}
    {jsonObj : CJson} (hobj : savedataObject type dsId value time token = some jsonObj)
    (hread : unpackSavedataJson mallocSucceeds parse r = .ok jsonObj r')
    (hvalue : ∀ name, readValue (value.named name) = some v) :
    unpackSavedataValue parse readValue type.flag r = .ok (dsId, v) r' := by
  cases type with
  | fullJson =>
      obtain rfl := Option.some.inj hobj
      exact unpackSavedataType1_built hread (hvalue _)
  | simpleJsonWithoutTime =>
      obtain rfl := Option.some.inj hobj
      exact unpackSavedataType2_built hread (hvalue _)
  | simpleJsonWithTime =>
      obtain rfl := Option.some.inj hobj
      exact unpackSavedataType3_built hread (hvalue _)
  | bin => nomatch hobj
  | string => nomatch hobj

end Layouts

/-- The value of a data point. -/
inductive SaveValue
  | int (value : Int32)
  | string (value : Str)

/-- The item of a value. -/
def SaveValue.item : SaveValue → CJson
  | .int value => createNumber value
  | .string value => createString value

/-- `PacketSavedataInt` or `PacketSavedataString`. -/
def SaveValue.pack (m : FreshMemory) (print : CJson → Str) (type : SaveDataType)
    (dstDevid : Option Str) (dsId : Str) (time : ℤ) (token : Option Str) :
    SaveValue → Option Writing
  | .int value => packetSavedataInt m print type dstDevid dsId value time token
  | .string value => packetSavedataString m print type dstDevid dsId value time token

/-- `UnpackSavedataInt` or `UnpackSavedataString`, for a value of the same kind. -/
def SaveValue.unpack (parse : List UInt8 → Option CJson) (type : UInt8) :
    SaveValue → Read (Str × SaveValue)
  | .int _ => do
      let p ← unpackSavedataInt parse type
      return (p.1, .int p.2)
  | .string _ => do
      let p ← unpackSavedataString parse type
      return (p.1, .string p.2)

/-- `UnpackSavedata`, and then the unpacker of the value with the flag that was read. -/
def readDataPoint (parse : List UInt8 → Option CJson) (kind : SaveValue) :
    Read (Option (List UInt8) × Str × SaveValue) := do
  let head ← unpackSavedata mallocSucceeds
  let p ← kind.unpack parse head.2
  return (head.1, p)

theorem SaveValue.unpack_built {parse : List UInt8 → Option CJson} {value : SaveValue}
    {type : SaveDataType} {dsId : Str} {time : ℤ} {token : Option Str} {jsonObj : CJson}
    {r r' : Reading} (hobj : savedataObject type dsId value.item time token = some jsonObj)
    (hread : unpackSavedataJson mallocSucceeds parse r = .ok jsonObj r') :
    value.unpack parse type.flag r = .ok (dsId, value) r' := by
  cases value with
  | int value =>
      have hunpack : unpackSavedataInt parse type.flag r = .ok (dsId, value) r' :=
        unpackSavedataValue_built hobj hread fun _ => rfl
      rw [SaveValue.unpack, bind_of_ok hunpack]
      rfl
  | string value =>
      have hunpack : unpackSavedataString parse type.flag r = .ok (dsId, value) r' :=
        unpackSavedataValue_built hobj hread fun _ => rfl
      rw [SaveValue.unpack, bind_of_ok hunpack]
      rfl

theorem SaveValue.pack_eq (m : FreshMemory) (print : CJson → Str) (type : SaveDataType)
    (dstDevid : Option Str) (dsId : Str) (time : ℤ) (token : Option Str) (value : SaveValue) :
    value.pack m print type dstDevid dsId time token =
      packetSavedata m print type dstDevid dsId value.item time token := by
  cases value <;> rfl

/-- A data point comes back in each of the three layouts: the id of the device or none, the id of
the data stream and the value. -/
theorem savedata_roundTrip (m : FreshMemory) {print : CJson → Str}
    {parse : List UInt8 → Option CJson} {type : SaveDataType} {dstDevid : Option Str} {dsId : Str}
    {time : ℤ} {token : Option Str} {value : SaveValue}
    (htype : type = .fullJson ∨ type = .simpleJsonWithoutTime ∨ type = .simpleJsonWithTime)
    (hdst : ∀ dst ∈ dstDevid, dst.Short)
    (hprint : ∀ jsonObj ∈ savedataObject type dsId value.item time token,
      (print jsonObj).Short ∧ parse (print jsonObj).bytes = some jsonObj) :
    ∃ w, value.pack m print type dstDevid dsId time token = some w ∧
      ∀ pkg : Buffer, pkg.Fresh → pkg.written = w.pkg.written →
        ∃ r, readPacket (readDataPoint parse value) pkg.reading =
          .ok (saveData, dstDevid.map Str.bytes, dsId, value) r := by
  obtain ⟨jsonObj, hobj⟩ : ∃ jsonObj, savedataObject type dsId value.item time token = some jsonObj := by
    rcases htype with rfl | rfl | rfl <;> exact ⟨_, rfl⟩
  obtain ⟨hout, hparse⟩ := hprint jsonObj hobj
  have hpacked := packed_packetSavedataJson m hdst hout type
  refine ⟨packetSavedataJson m dstDevid (print jsonObj) type, ?_, fun pkg hpkg hwritten => ?_⟩
  · rw [SaveValue.pack_eq, packetSavedata, hobj]
    rfl
  · have hbody : (addressFields dstDevid ++ [[type.flag], (print jsonObj).field]).flatten =
        (addressFields dstDevid).flatten ++ type.flag :: ((print jsonObj).field ++ []) := by
      simp
    have hlt := hpacked.length_lt
    rw [hpacked.built.written_eq] at hwritten
    have hsmall := hpkg.writePos_small hwritten hlt
    rw [hbody] at hwritten hlt
    obtain ⟨r₁, r₂, k, htype, hhead, hc⟩ := unpackSavedata_packed hdst hpkg hwritten hlt
    obtain ⟨r₃, hjson⟩ := unpackSavedataJson_field hc.held (by rw [hc.writePos_eq]; exact hsmall)
      hout hparse hc.unread_eq
    have hpoint : readDataPoint parse value r₁ = .ok (dstDevid.map Str.bytes, dsId, value) r₃ := by
      rw [readDataPoint, bind_of_ok hhead, bind_of_ok (SaveValue.unpack_built hobj hjson)]
      rfl
    refine ⟨r₃, ?_⟩
    rw [readPacket, bind_of_ok htype, bind_of_ok hpoint]
    rfl

/-- The bytes of `temp`. -/
def tempId : Str := ⟨[116, 101, 109, 112], by decide⟩

/-- What `cJSON_Print` makes of an object with the number 25 under the name `temp`. -/
def tempText : Str :=
  ⟨[123, 10, 9, 34, 116, 101, 109, 112, 34, 58, 9, 50, 53, 10, 125], by decide⟩

/-- A temperature without the time, to no device. -/
theorem savedata_roundTrip_temp :
    let print : CJson → Str := fun _ => tempText
    let parse : List UInt8 → Option CJson := fun s =>
      if s = tempText.bytes then some (savedataType2 tempId (createNumber 25)) else none
    ∃ w, packetSavedataInt zeroMemory print .simpleJsonWithoutTime none tempId 25 0 none = some w ∧
      ∀ pkg : Buffer, pkg.Fresh → pkg.written = w.pkg.written →
        ∃ r, readPacket (readDataPoint parse (.int 25)) pkg.reading =
          .ok (saveData, none, tempId, .int 25) r := by
  intro print parse
  have hprint : ∀ jsonObj ∈ savedataObject .simpleJsonWithoutTime tempId (SaveValue.int 25).item 0
      none, (print jsonObj).Short ∧ parse (print jsonObj).bytes = some jsonObj := by
    intro jsonObj hobj
    obtain rfl := Option.some.inj hobj
    exact ⟨by decide, if_pos rfl⟩
  have hnone : ∀ dst ∈ (none : Option Str), dst.Short := nofun
  exact savedata_roundTrip zeroMemory (Or.inr (Or.inl rfl)) hnone hprint

end Edp
