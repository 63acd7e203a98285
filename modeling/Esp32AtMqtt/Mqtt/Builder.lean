import Esp32AtMqtt.Mqtt.DataPoint
import Esp32AtMqtt.Mqtt.Publish

/-!
# The builder of data points

What the calls between `Mqtt_PackDataPointStart` and `Mqtt_PackDataPointFinish` are for: the
payload becomes one JSON object, with a member for each data point and each subobject.
`DpMember` is such a member, so a list of them stands for a well-nested sequence of calls,
and `BuildsJson` is what the calls owe.

They never deliver it. `Mqtt_PackDataPointStart` packs two extents and no bookkeeping
bytes, so every later call finds none and is refused.
-/

namespace Mqtt

open FlatMemory

/-- A member of the object that is built. -/
inductive DpMember
  | null (dsid : CStr)
  | int (dsid : CStr) (ts value : ℤ)
  | string (dsid : CStr) (ts : ℤ) (value : Option CStr)
  | subvalueInt (name : CStr) (value : ℤ)
  | subvalueDouble (name : CStr) (text : List UInt8)
  | subvalueString (name : CStr) (value : Option CStr)
  | subobject (name : Option CStr) (members : List DpMember)

/-- A call of the builder. -/
inductive DpCall
  | null (dsid : CStr)
  | int (dsid : CStr) (ts value : ℤ)
  | string (dsid : CStr) (ts : ℤ) (value : Option CStr)
  | subvalueInt (name : CStr) (value : ℤ)
  | subvalueDouble (name : CStr) (text : List UInt8)
  | subvalueString (name : CStr) (value : Option CStr)
  | startSubobject (name : Option CStr)
  | finishSubobject

mutual

/-- The calls for a member. -/
def DpMember.calls : DpMember → List DpCall
  | .null dsid => [.null dsid]
  | .int dsid ts value => [.int dsid ts value]
  | .string dsid ts value => [.string dsid ts value]
  | .subvalueInt name value => [.subvalueInt name value]
  | .subvalueDouble name text => [.subvalueDouble name text]
  | .subvalueString name value => [.subvalueString name value]
  | .subobject name members => .startSubobject name :: callsOf members ++ [.finishSubobject]

/-- The calls for members, one after the other. -/
def callsOf : List DpMember → List DpCall
  | [] => []
  | m :: ms => m.calls ++ callsOf ms

end

/-- A member `"name":value`. -/
def memberText (name value : List UInt8) : List UInt8 := 0x22 :: name ++ [0x22, 0x3A] ++ value

/-- An object `{…}` of members. -/
def objectText (members : List (List UInt8)) : List UInt8 :=
  0x7B :: [0x2C].intercalate members ++ [0x7D]

/-- The text of a string. -/
def stringText (value : Option CStr) : List UInt8 :=
  0x22 :: (value.map CStr.bytes).getD [] ++ [0x22]

/-- A data point `"dsid":{"time":value}`, where no time stands for the present. -/
def pointText (formatTime : FormatTime) (dsid : CStr) (ts : ℤ) (value : List UInt8) : List UInt8 :=
  let time := if 0 < ts then ((formatTime ts).map (·.1.bytes)).getD [] else []
  memberText dsid.bytes (objectText [memberText time value])

mutual

/-- The text that a member stands for. -/
def DpMember.text (formatTime : FormatTime) : DpMember → List UInt8
  | .null dsid => pointText formatTime dsid 0 [0x6E, 0x75, 0x6C, 0x6C]
  | .int dsid ts value => pointText formatTime dsid ts (decimal value)
  | .string dsid ts value => pointText formatTime dsid ts (stringText value)
  | .subvalueInt name value => memberText name.bytes (decimal value)
  | .subvalueDouble name text => memberText name.bytes text
  | .subvalueString name value => memberText name.bytes (stringText value)
  | .subobject name members =>
      memberText ((name.map CStr.bytes).getD []) (objectText (textsOf formatTime members))

/-- The texts of members, one after the other. -/
def textsOf (formatTime : FormatTime) : List DpMember → List (List UInt8)
  | [] => []
  | m :: ms => m.text formatTime :: textsOf formatTime ms

end

section Builder

variable (formatTime : FormatTime)

/-- Make a call. -/
def DpCall.run (buf : MqttBuffer) (h : MqttHeap) : DpCall → Packed
  | .null dsid => mqttAppendDPNull formatTime buf (some dsid) h
  | .int dsid ts value => mqttAppendDPInt formatTime buf (some dsid) ts value h
  | .string dsid ts value => mqttAppendDPString formatTime buf (some dsid) ts value h
  | .subvalueInt name value => mqttAppendDPSubvalueInt buf name value h
  | .subvalueDouble name text => mqttAppendDPSubvalueDouble buf name text h
  | .subvalueString name value => mqttAppendDPSubvalueString buf name value h
  | .startSubobject name => mqttAppendDPStartSubobject buf name h
  | .finishSubobject => mqttAppendDPFinishSubobject buf h

/-- Make calls, one after the other: their codes, the buffer, and the heap. -/
def runCalls : List DpCall → MqttBuffer → MqttHeap → List ℤ × MqttBuffer × MqttHeap
  | [], buf, h => ([], buf, h)
  | c :: cs, buf, h =>
      let r := c.run formatTime buf h
      let rest := runCalls cs r.2.1 r.2.2
      (r.1 :: rest.1, rest.2)

/-- What the builder owes on a buffer that was started: the calls for the members succeed,
and so does the end; the packet is then a first byte, a length field and a body of that
length, and the body is that of the start with the object behind it, where a byte for the
type may stand in between. Without an open subobject the call that closes one is refused
and changes nothing. -/
structure BuildsJson (members : List DpMember) (buf : MqttBuffer) (h : MqttHeap) : Prop where
  calls : ∀ code ∈ (runCalls formatTime (callsOf members) buf h).1, code = mqtterrNoerror
  finish : let r := runCalls formatTime (callsOf members) buf h
    (mqttPackDataPointFinish r.2.1 r.2.2).1 = mqtterrNoerror
  packet : let r := runCalls formatTime (callsOf members) buf h
    let p := mqttPackDataPointFinish r.2.1 r.2.2
    ∃ (fh : UInt8) (field type body : List UInt8),
      flattenExtents p.2.2.mem p.2.1.extents = fh :: field ++ body ∧
        mqttReadLength (field ++ body) (field ++ body).length =
          ((field.length : ℤ), UInt32.ofNat body.length) ∧
        body = flattenExtents h.mem buf.extents.tail ++ type ++
          objectText (textsOf formatTime members) ∧
        type.length ≤ 1
  unopened : Refused buf h (mqttAppendDPFinishSubobject buf h)

variable {formatTime} {buf : MqttBuffer} {h : MqttHeap}

/-- Without the bookkeeping bytes a call is refused and changes nothing. -/
theorem run_refused (hinfo : mqttGetDataPointPktInfo buf h = none) (c : DpCall) :
    ∃ code, IsError code ∧ c.run formatTime buf h = (code, buf, h) := by
  have hparameter : IsError mqtterrInvalidParameter := by decide
  have hutf8 : IsError mqtterrNotUtf8 := by decide
  have hdp : ∀ dsid ts value str, mqttAppendDP formatTime buf dsid ts value str h =
      (mqtterrInvalidParameter, buf, h) := fun dsid ts value str => by
    simp only [mqttAppendDP, hinfo]
  have hsub : ∀ name value str, mqttAppendDPSubvalue buf name value str h =
      (mqtterrInvalidParameter, buf, h) := fun name value str => by
    simp only [mqttAppendDPSubvalue, hinfo]
  cases c with
  | null dsid => exact ⟨_, hparameter, hdp _ _ _ _⟩
  | int dsid ts value => exact ⟨_, hparameter, hdp _ _ _ _⟩
  | string dsid ts value =>
      simp only [DpCall.run, mqttAppendDPString]
      split
      · exact ⟨_, hutf8, rfl⟩
      · exact ⟨_, hparameter, hdp _ _ _ _⟩
  | subvalueInt name value => exact ⟨_, hparameter, hsub _ _ _⟩
  | subvalueDouble name text => exact ⟨_, hparameter, hsub _ _ _⟩
  | subvalueString name value =>
      simp only [DpCall.run, mqttAppendDPSubvalueString]
      split
      · exact ⟨_, hutf8, rfl⟩
      · exact ⟨_, hparameter, hsub _ _ _⟩
  | startSubobject name =>
      simp only [DpCall.run, mqttAppendDPStartSubobject, hinfo]
      split
      · exact ⟨_, hutf8, rfl⟩
      · exact ⟨_, hparameter, rfl⟩
  | finishSubobject =>
      refine ⟨_, hparameter, ?_⟩
      simp only [DpCall.run, mqttAppendDPFinishSubobject, hinfo]

/-- So is every call of a sequence. -/
theorem runCalls_refused (hinfo : mqttGetDataPointPktInfo buf h = none) (cs : List DpCall) :
    (∀ code ∈ (runCalls formatTime cs buf h).1, IsError code) ∧
      (runCalls formatTime cs buf h).2 = (buf, h) := by
  induction cs with
  | nil => exact ⟨by simp [runCalls], rfl⟩
  | cons c cs ih =>
      have hfirst : ∃ code, IsError code ∧ c.run formatTime buf h = (code, buf, h) :=
        run_refused hinfo c
      obtain ⟨code, hcode, hrun⟩ := hfirst
      simp only [runCalls, hrun]
      exact ⟨List.forall_mem_cons.mpr ⟨hcode, ih.1⟩, ih.2⟩

/-- The end is refused, too. -/
theorem finish_refused (hinfo : mqttGetDataPointPktInfo buf h = none) :
    mqttPackDataPointFinish buf h = (mqtterrInvalidParameter, buf, h) := by
  simp only [mqttPackDataPointFinish, hinfo]

/-- The start packs two extents, so there are no bookkeeping bytes. -/
theorem info_eq_none_of_start {pktId : UInt16} {qos : UInt32} {retain topic : Bool}
    (hstart : (mqttPackDataPointStart buf pktId qos retain topic h).1 = mqtterrNoerror)
    (mem : MqttHeap) :
    mqttGetDataPointPktInfo (mqttPackDataPointStart buf pktId qos retain topic h).2.1 mem =
      none := by
  unfold mqttPackDataPointStart at hstart ⊢
  by_cases hnil : buf.extents = []
  · rw [if_neg (not_not.mpr hnil)] at hstart ⊢
    obtain ⟨fixHead, variableHead, buf₂, h₂, heq, hext, -⟩ :=
      publish_headers (publish_accepted hstart)
    rw [heq]
    simp only [ne_eq, not_true, if_false]
    rw [mqttGetDataPointPktInfo, hext, hnil]
    rfl
  · rw [if_pos hnil] at hstart
    exact (by decide : mqtterrInvalidParameter ≠ mqtterrNoerror).elim hstart

end Builder

/-- Whatever is asked for, a builder that was started does not build it. -/
theorem mqttPackDataPointStart_never_builds (formatTime : FormatTime) (buf : MqttBuffer)
    (h : MqttHeap) (pktId : UInt16) (qos : UInt32) (retain topic : Bool)
    (members : List DpMember)
    (hstart : (mqttPackDataPointStart buf pktId qos retain topic h).1 = mqtterrNoerror) :
    let r := mqttPackDataPointStart buf pktId qos retain topic h
    ¬ BuildsJson formatTime members r.2.1 r.2.2 := by
  intro r hbuilds
  have hinfo := info_eq_none_of_start hstart r.2.2
  have hrun : (runCalls formatTime (callsOf members) r.2.1 r.2.2).2 = (r.2.1, r.2.2) :=
    (runCalls_refused hinfo (callsOf members)).2
  have hfinish : (mqttPackDataPointFinish (runCalls formatTime (callsOf members) r.2.1 r.2.2).2.1
      (runCalls formatTime (callsOf members) r.2.1 r.2.2).2.2).1 = mqtterrNoerror :=
    hbuilds.finish
  rw [hrun, finish_refused hinfo] at hfinish
  exact (by decide : mqtterrInvalidParameter ≠ mqtterrNoerror).elim hfinish

/-- A heap on which the next allocations succeed. -/
def sixChunks : MqttHeap := ⟨fun _ => 0, List.replicate 6 (some 0x1000), []⟩

/-- The integer 5 for the name `t`: the start succeeds, and the object is not built. -/
theorem mqttPackDataPointStart_never_builds_int :
    let r := mqttPackDataPointStart mqttBufferInit 1 0 false true sixChunks
    ¬ BuildsJson (fun _ => none) [.int ⟨[0x74], by decide, by decide⟩ 0 5] r.2.1 r.2.2 :=
  mqttPackDataPointStart_never_builds (fun _ => none) mqttBufferInit sixChunks 1 0 false true
    [.int ⟨[0x74], by decide, by decide⟩ 0 5] (by decide +kernel)

/-- Behind a start that succeeds, and with two allocations to come for each of the two
extents that are missing, the call for the integer is refused. -/
theorem mqttAppendDPInt_refused_after_start :
    let r := mqttPackDataPointStart mqttBufferInit 1 0 false true sixChunks
    r.1 = mqtterrNoerror ∧ r.2.2.Supplies 4 ∧
      ¬ BuildsJson (fun _ => none) [.int ⟨[0x74], by decide, by decide⟩ 0 5] r.2.1 r.2.2 := by
  intro r
  have hleft : r.2.2.mallocs = List.replicate 4 (some 0x1000) := by decide +kernel
  refine ⟨by decide +kernel, fun i hi => ⟨0x1000, ?_⟩, fun hbuilds => ?_⟩
  · rw [hleft]
    exact List.getElem?_replicate_of_lt hi
  · have hcode := hbuilds.calls mqtterrInvalidParameter (by decide +kernel)
    exact (by decide : mqtterrInvalidParameter ≠ mqtterrNoerror).elim hcode

end Mqtt
