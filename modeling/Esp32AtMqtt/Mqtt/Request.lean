import Esp32AtMqtt.Mqtt.Dispatch

/-!
# What a received packet asks for

`Mqtt_Dispatch` does three things with a packet: it checks it, it calls one callback, and
it may answer. Here the first is taken apart from the others. `request fh pkt` is the
callback that the packet asks for, with its arguments, and `none` when the packet is
refused; `Request.handle` is what then happens to it. The handlers of `mqtt.c` are the one
after the other (`mqttDispatch_eq_handle`).
-/

namespace Mqtt

/-- The packets that the client sends as answers. -/
inductive Answer
  | pubAck
  | pubRec
  | pubRel
  | pubComp
  deriving DecidableEq, Repr

/-- The first byte of an answer. -/
def Answer.head : Answer → UInt8
  | pubAck => 0x40
  | pubRec => 0x50
  | pubRel => 0x62
  | pubComp => 0x70

/-- The function that packs an answer. -/
def Answer.pack : Answer → MqttBuffer → UInt16 → MqttHeap → ℤ × MqttBuffer × MqttHeap
  | pubAck => mqttPackPubAckPkt
  | pubRec => mqttPackPubRecPkt
  | pubRel => mqttPackPubRelPkt
  | pubComp => mqttPackPubCompPkt

/-- What follows when there is no room for an answer. -/
def Answer.noExtent : Answer → ℤ
  | pubRel => nullDereference
  | _ => mqtterrOutofmemory

theorem Answer.pack_eq (a : Answer) : a.pack = mqttPackIdPkt a.head a.noExtent := by
  cases a <;> rfl

/-- The callback that a packet asks for, with its arguments. A topic that starts with `$`
and is not one of the commands asks for none (`system`). -/
inductive Request
  | pingResp
  | connAck (flags retCode : UInt8)
  | publish (pktId : UInt16) (topic payload : List UInt8) (payloadsize : ℕ) (dup qos : UInt8)
  | cmd (pktId : UInt16) (cmdid payload : List UInt8) (payloadsize : ℕ) (dup qos : UInt8)
  | system (pktId : UInt16) (qos : UInt8)
  | pubAck (pktId : UInt16)
  | pubRec (pktId : UInt16)
  | pubRel (pktId : UInt16)
  | pubComp (pktId : UInt16)
  | subAck (pktId : UInt16) (codes : List UInt8) (count : ℕ)
  | unsubAck (pktId : UInt16)
  deriving DecidableEq, Repr

namespace Request

/-- Call the callback. -/
def call {σ : Type*} (cb : MqttCallbacks σ) : Request → σ → ℤ × σ
  | pingResp => cb.handlePingResp
  | connAck flags retCode => cb.handleConnAck flags retCode
  | publish pktId topic payload n dup qos => cb.handlePublish pktId topic payload n dup qos
  | cmd pktId cmdid payload n dup qos => cb.handleCmd pktId cmdid 0 [] payload n dup qos
  | system _ _ => fun s => (mqtterrNoerror, s)
  | pubAck pktId => cb.handlePubAck pktId
  | pubRec pktId => cb.handlePubRec pktId
  | pubRel pktId => cb.handlePubRel pktId
  | pubComp pktId => cb.handlePubComp pktId
  | subAck pktId codes count => cb.handleSubAck pktId codes count
  | unsubAck pktId => cb.handleUnsubAck pktId

/-- The answer to a `PUBLISH` packet. -/
def publishAnswer (pktId : UInt16) (qos : UInt8) : Option (Answer × UInt16) :=
  if qos = 0 then none else some (if qos = 2 then .pubRec else .pubAck, pktId)

/-- The answer that is sent when the callback has succeeded. -/
def answer : Request → Option (Answer × UInt16)
  | publish pktId _ _ _ _ qos => publishAnswer pktId qos
  | cmd pktId _ _ _ _ qos => publishAnswer pktId qos
  | system pktId qos => publishAnswer pktId qos
  | pubRec pktId => some (.pubRel, pktId)
  | pubRel pktId => some (.pubComp, pktId)
  | _ => none

/-- The code of the handler when its answer ended with `err`. -/
def answerCode : Request → ℤ → ℤ
  | publish .., err | cmd .., err | system .., err =>
      if err = mqtterrNoerror then err else mqtterrFailedSendResponse
  | _, err => err

/-- Call the callback, and answer when it has succeeded. -/
def handle {σ : Type*} (cb : MqttCallbacks σ) (r : Request) (s : HandlerState σ) :
    ℤ × HandlerState σ :=
  let (err, s) := callback (r.call cb) s
  if err < 0 then (err, s)
  else
    match r.answer with
    | none => (err, s)
    | some (a, pktId) =>
        let (err, s) := sendResponse cb a.pack pktId s
        (r.answerCode err, s)

end Request

/-- A packet that carries a packet identifier only. -/
def decodeId (flagsWanted : UInt8) (r : UInt16 → Request) (flags : UInt8) (pkt : List UInt8) :
    Option Request :=
  if flags ≠ flagsWanted ∨ pkt.length ≠ 2 then none
  else if mqttRB16 pkt = 0 then none
  else some (r (mqttRB16 pkt))

/-- A `CONNACK` packet. -/
def decodeConnAck (flags : UInt8) (pkt : List UInt8) : Option Request :=
  if flags ≠ 0 ∨ pkt.length ≠ 2 then none
  else if (pkt.getD 0 0 &&& 0x01 ≠ 0 ∧ pkt.getD 1 0 ≠ 0) ∨ pkt.getD 1 0 > 5 then none
  else some (.connAck (pkt.getD 0 0) (pkt.getD 1 0))

/-- A `SUBACK` packet. -/
def decodeSubAck (flags : UInt8) (pkt : List UInt8) : Option Request :=
  if flags ≠ 0 ∨ pkt.length < 2 then none
  else if mqttRB16 pkt = 0 then none
  else if (pkt.drop 2).any (fun code => code &&& 0x7C ≠ 0) then none
  else some (.subAck (mqttRB16 pkt) (pkt.drop 2) (pkt.length - 2))

/-- What a `PUBLISH` packet asks for, by its topic. -/
def publishRequest (parts : PublishParts) (size : ℕ) (dup qos : UInt8) : Request :=
  let topic := parts.pkt.drop parts.topic
  let payload := parts.pkt.drop parts.payload
  let payloadLen := size - parts.payload
  if topic.head? = some 0x24 then
    if cmdTopicPrefix <+: cString topic then
      .cmd parts.pktId (topic.drop (cmdTopicPrefix.length + 1)) payload payloadLen dup qos
    else .system parts.pktId qos
  else .publish parts.pktId topic payload payloadLen dup qos

/-- The topic passes the check, and has none of the two wildcards. -/
def topicOk (topic : List UInt8) (topicLen : ℕ) : Bool :=
  mqttCheckUtf8 topic topicLen = topicLen &&
    !(cString topic).any (fun c => c = 0x2B || c = 0x23)

/-- A `PUBLISH` packet. -/
def decodePublish (flags : UInt8) (pkt : List UInt8) : Option Request :=
  match publishParts flags pkt with
  | none => none
  | some parts =>
      if topicOk (parts.pkt.drop parts.topic) (mqttRB16 pkt).toNat then
        some (publishRequest parts pkt.length (flags &&& 0x08) ((flags &&& 0x06) >>> 1))
      else none

/-- When the first half of `Mqtt_HandlePublish` is passed, and what it has found then. -/
theorem publishParts_eq_some_iff {flags : UInt8} {pkt : List UInt8} {parts : PublishParts} :
    publishParts flags pkt = some parts ↔
      2 ≤ pkt.length ∧ flags &&& 0x01 = 0 ∧ 2 + (mqttRB16 pkt).toNat ≤ pkt.length ∧
        ((flags &&& 0x06) >>> 1 = 0 ∧ flags &&& 0x08 = 0 ∧
            parts = ⟨((pkt.drop 2).take (mqttRB16 pkt).toNat ++
              pkt.drop (mqttRB16 pkt).toNat).set (mqttRB16 pkt).toNat 0, 0,
              2 + (mqttRB16 pkt).toNat, 0⟩ ∨
          ((flags &&& 0x06) >>> 1 = 1 ∨ (flags &&& 0x06) >>> 1 = 2) ∧
            (mqttRB16 pkt).toNat + 4 ≤ pkt.length ∧
            mqttRB16 (pkt.drop ((mqttRB16 pkt).toNat + 2)) ≠ 0 ∧
            parts = ⟨pkt.set (2 + (mqttRB16 pkt).toNat) 0, 2, 4 + (mqttRB16 pkt).toNat,
              mqttRB16 (pkt.drop ((mqttRB16 pkt).toNat + 2))⟩) := by
  set n := (mqttRB16 pkt).toNat with hn
  set qos := (flags &&& 0x06) >>> 1 with hqos
  simp only [publishParts, ← hn, ← hqos]
  by_cases hsize : pkt.length < 2
  · rw [if_pos hsize]
    exact iff_of_false (by simp) fun h => by omega
  rw [if_neg hsize]
  by_cases hretain : flags &&& 0x01 = 0
  swap
  · rw [if_pos hretain]
    exact iff_of_false (by simp) fun h => hretain h.2.1
  rw [if_neg (not_not.mpr hretain)]
  by_cases htopic : pkt.length < 2 + n
  · rw [if_pos htopic]
    exact iff_of_false (by simp) fun h => by omega
  rw [if_neg htopic, and_iff_right (by omega), and_iff_right hretain, and_iff_right (by omega)]
  by_cases hzero : qos = 0
  · have hone : ¬ (qos = 1 ∨ qos = 2) := by
      rw [hzero]
      decide
    rw [if_pos hzero, and_iff_right hzero]
    simp only [hone, false_and, or_false]
    by_cases hdup : flags &&& 0x08 = 0
    · rw [if_neg (not_not.mpr hdup), and_iff_right hdup, Option.some_inj, eq_comm]
    · rw [if_pos hdup]
      exact iff_of_false (by simp) fun h => hdup h.1
  · rw [if_neg hzero]
    simp only [hzero, false_and, false_or]
    by_cases hlevel : qos = 1 ∨ qos = 2
    · rw [if_pos hlevel, and_iff_right hlevel]
      by_cases hid : n + 4 > pkt.length
      · rw [if_pos hid]
        exact iff_of_false (by simp) fun h => by omega
      · rw [if_neg hid, and_iff_right (by omega)]
        by_cases hnull : mqttRB16 (pkt.drop (n + 2)) = 0
        · rw [if_pos hnull]
          exact iff_of_false (by simp) fun h => h.1 hnull
        · rw [if_neg hnull, and_iff_right hnull, Option.some_inj, eq_comm]
    · rw [if_neg hlevel]
      exact iff_of_false (by simp) fun h => hlevel h.1

/-- The topic is followed by the null byte that the handler has stored. -/
theorem publishParts_topic {flags : UInt8} {pkt : List UInt8} {parts : PublishParts}
    (h : publishParts flags pkt = some parts) :
    ∃ rest, parts.pkt.drop parts.topic = (pkt.drop 2).take (mqttRB16 pkt).toNat ++ 0 :: rest := by
  obtain ⟨hlen, -, htopic, ⟨-, -, rfl⟩ | ⟨-, hid, -, rfl⟩⟩ := publishParts_eq_some_iff.mp h
  · have hname : ((pkt.drop 2).take (mqttRB16 pkt).toNat).length = (mqttRB16 pkt).toNat := by
      rw [List.length_take, List.length_drop]
      omega
    have hlt : (mqttRB16 pkt).toNat < pkt.length := by omega
    refine ⟨pkt.drop ((mqttRB16 pkt).toNat + 1), ?_⟩
    rw [List.drop_zero, List.set_append_right _ _ hname.le, hname, Nat.sub_self,
      List.drop_eq_getElem_cons hlt, List.set_cons_zero]
  · refine ⟨pkt.drop (2 + ((mqttRB16 pkt).toNat + 1)), ?_⟩
    have hlt : (mqttRB16 pkt).toNat < (pkt.drop 2).length := by
      rw [List.length_drop]
      omega
    simp only
    rw [List.drop_set, if_neg (by omega), Nat.add_sub_cancel_left,
      List.set_eq_take_append_cons_drop, if_pos hlt, List.drop_drop]

/-- What a packet asks for; `none` when it is refused. -/
def request (fh : UInt8) (pkt : List UInt8) : Option Request :=
  let flags := fh &&& 0x0F
  match (fh >>> 4).toNat with
  | 13 => if flags ≠ 0 ∨ pkt.length ≠ 0 then none else some .pingResp
  | 2 => decodeConnAck flags pkt
  | 3 => decodePublish flags pkt
  | 4 => decodeId 0 .pubAck flags pkt
  | 5 => decodeId 0 .pubRec flags pkt
  | 6 => decodeId 2 .pubRel flags pkt
  | 7 => decodeId 0 .pubComp flags pkt
  | 9 => decodeSubAck flags pkt
  | 11 => decodeId 0 .unsubAck flags pkt
  | _ => none

/-- The code and the state for what a packet asks for. -/
def handleRequest {σ : Type*} (cb : MqttCallbacks σ) (r : Option Request) (s : HandlerState σ) :
    ℤ × HandlerState σ :=
  match r with
  | none => (mqtterrIllegalPkt, s)
  | some r => r.handle cb s

section Handlers

variable {σ : Type*} (cb : MqttCallbacks σ) (flags : UInt8) (pkt : List UInt8)
  (s : HandlerState σ)

/-- Without an answer only the callback is called. -/
theorem handle_of_no_answer {r : Request} (h : r.answer = none) :
    r.handle cb s = callback (r.call cb) s := by
  simp only [Request.handle, h]
  split <;> rfl

/-- A handler that does not answer. -/
theorem handleId_callback (w : UInt8) (r : UInt16 → Request) (f : UInt16 → σ → ℤ × σ)
    (hcall : ∀ pktId, (r pktId).call cb = f pktId) (hanswer : ∀ pktId, (r pktId).answer = none) :
    handleId w (fun pktId => callback (f pktId)) flags pkt s =
      handleRequest cb (decodeId w r flags pkt) s := by
  simp only [handleId, decodeId]
  split_ifs with hbad hzero
  · rfl
  · rfl
  · rw [handleRequest, handle_of_no_answer cb s (hanswer _), hcall]

/-- A handler that answers. -/
theorem handleId_answered (w : UInt8) (r : UInt16 → Request) (f : UInt16 → σ → ℤ × σ)
    (a : Answer) (hcall : ∀ pktId, (r pktId).call cb = f pktId)
    (hanswer : ∀ pktId, (r pktId).answer = some (a, pktId))
    (hcode : ∀ pktId err, (r pktId).answerCode err = err) :
    handleId w (answered cb f a.pack) flags pkt s =
      handleRequest cb (decodeId w r flags pkt) s := by
  simp only [handleId, decodeId]
  split_ifs with hbad hzero
  · rfl
  · rfl
  · simp only [handleRequest, Request.handle, answered, hcall, hanswer, hcode]
    by_cases herr : (callback (f (mqttRB16 pkt)) s).1 < 0
    · rw [if_neg (by omega), if_pos herr]
    · rw [if_pos (by omega), if_neg herr]

theorem answer_publishRequest (parts : PublishParts) (size : ℕ) (dup qos : UInt8) :
    (publishRequest parts size dup qos).answer = Request.publishAnswer parts.pktId qos := by
  simp only [publishRequest]
  split_ifs <;> rfl

theorem answerCode_publishRequest (parts : PublishParts) (size : ℕ) (dup qos : UInt8) (err : ℤ) :
    (publishRequest parts size dup qos).answerCode err =
      if err = mqtterrNoerror then err else mqtterrFailedSendResponse := by
  simp only [publishRequest]
  split
  · split <;> rfl
  · rfl

theorem mqttHandlePublish_eq_handle :
    ((mqttHandlePublish cb flags pkt s).errcode, (mqttHandlePublish cb flags pkt s).state) =
      handleRequest cb (decodePublish flags pkt) s := by
  cases hparts : publishParts flags pkt with
  | none => simp only [mqttHandlePublish, decodePublish, hparts, handleRequest]
  | some parts =>
      simp only [mqttHandlePublish, decodePublish, hparts]
      by_cases hutf : mqttCheckUtf8 (parts.pkt.drop parts.topic) (mqttRB16 pkt).toNat =
          (mqttRB16 pkt).toNat
      · by_cases hwild : (cString (parts.pkt.drop parts.topic)).any
            (fun c => c = 0x2B || c = 0x23) = true
        · have hno : topicOk (parts.pkt.drop parts.topic) (mqttRB16 pkt).toNat = false := by
            rw [topicOk, hwild, Bool.not_true, Bool.and_false]
          rw [if_neg (not_not.mpr hutf), if_pos hwild, hno]
          rfl
        · have hok : topicOk (parts.pkt.drop parts.topic) (mqttRB16 pkt).toNat = true := by
            rw [topicOk, Bool.eq_false_iff.mpr hwild, hutf]
            simp
          rw [if_neg (not_not.mpr hutf), if_neg hwild, if_pos hok]
          set r := publishRequest parts pkt.length (flags &&& 0x08) ((flags &&& 0x06) >>> 1) with hr
          have hcall : callback (r.call cb) s =
              if (parts.pkt.drop parts.topic).head? = some 0x24 then
                if cmdTopicPrefix <+: cString (parts.pkt.drop parts.topic) then
                  callback (cb.handleCmd parts.pktId
                    ((parts.pkt.drop parts.topic).drop (cmdTopicPrefix.length + 1)) 0 []
                    (parts.pkt.drop parts.payload) (pkt.length - parts.payload) (flags &&& 0x08)
                    ((flags &&& 0x06) >>> 1)) s
                else (mqtterrNoerror, s)
              else callback (cb.handlePublish parts.pktId (parts.pkt.drop parts.topic)
                (parts.pkt.drop parts.payload) (pkt.length - parts.payload) (flags &&& 0x08)
                ((flags &&& 0x06) >>> 1)) s := by
            rw [hr, publishRequest]
            split_ifs <;> rfl
          rw [← hcall]
          simp only [handleRequest, Request.handle, hr, answer_publishRequest,
            answerCode_publishRequest, Request.publishAnswer]
          generalize callback ((publishRequest parts pkt.length (flags &&& 0x08)
            ((flags &&& 0x06) >>> 1)).call cb) s = c
          by_cases herr : c.1 < 0
          · rw [if_pos herr, if_pos herr]
          · rw [if_neg herr, if_neg herr]
            by_cases hzero : (flags &&& 0x06) >>> 1 = 0
            · rw [if_pos hzero, if_pos hzero]
            · rw [if_neg hzero, if_neg hzero]
              by_cases htwo : (flags &&& 0x06) >>> 1 = 2
              · rw [if_pos htwo, if_pos htwo]
                rfl
              · rw [if_neg htwo, if_neg htwo]
                rfl
      · have hno : topicOk (parts.pkt.drop parts.topic) (mqttRB16 pkt).toNat = false := by
          rw [topicOk, decide_eq_false hutf, Bool.false_and]
        rw [if_pos hutf, hno]
        rfl

theorem mqttHandleConnAck_eq_handle :
    mqttHandleConnAck cb flags pkt s = handleRequest cb (decodeConnAck flags pkt) s := by
  simp only [mqttHandleConnAck, decodeConnAck]
  split_ifs
  · rfl
  · rfl
  · exact (handle_of_no_answer cb s (r := .connAck _ _) rfl).symm

theorem mqttHandleSubAck_eq_handle :
    mqttHandleSubAck cb flags pkt s = handleRequest cb (decodeSubAck flags pkt) s := by
  simp only [mqttHandleSubAck, decodeSubAck]
  split_ifs
  · rfl
  · rfl
  · rfl
  · exact (handle_of_no_answer cb s (r := .subAck _ _ _) rfl).symm

end Handlers

/-- `Mqtt_Dispatch` handles what the packet asks for. -/
theorem mqttDispatch_eq_handle {σ : Type*} (cb : MqttCallbacks σ) (s : HandlerState σ)
    (fh : UInt8) (pkt : List UInt8) :
    ((mqttDispatch cb s fh pkt).errcode, (mqttDispatch cb s fh pkt).state) =
      handleRequest cb (request fh pkt) s := by
  simp only [mqttDispatch, request]
  generalize (fh >>> 4).toNat = packetType
  split
  · -- `PINGRESP`
    simp only [mqttHandlePingResp]
    split_ifs
    · rfl
    · exact (handle_of_no_answer cb s (r := .pingResp) rfl).symm
  · exact mqttHandleConnAck_eq_handle cb _ pkt s
  · exact mqttHandlePublish_eq_handle cb _ pkt s
  · exact handleId_callback cb _ pkt s 0 .pubAck _ (fun _ => rfl) fun _ => rfl
  · exact handleId_answered cb _ pkt s 0 .pubRec _ .pubRel (fun _ => rfl) (fun _ => rfl)
      fun _ _ => rfl
  · exact handleId_answered cb _ pkt s 2 .pubRel _ .pubComp (fun _ => rfl) (fun _ => rfl)
      fun _ _ => rfl
  · exact handleId_callback cb _ pkt s 0 .pubComp _ (fun _ => rfl) fun _ => rfl
  · exact mqttHandleSubAck_eq_handle cb _ pkt s
  · exact handleId_callback cb _ pkt s 0 .unsubAck _ (fun _ => rfl) fun _ => rfl
  · first
      | rfl
      | split <;> first | rfl | contradiction

end Mqtt
