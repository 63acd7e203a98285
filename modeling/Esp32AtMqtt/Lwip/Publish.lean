import Mathlib.Data.UInt
import Mathlib.Algebra.Order.Ring.Nat
import Esp32AtMqtt.Lwip.Output
import Esp32AtMqtt.AtClient.Response
import Esp32AtMqtt.Transition.Run
import Mathlib.Data.List.Forall2

/-!
# Publishing through the output ring

`mqtt_publish` and `pub_ack_rec_rel_response` append their packet to the output ring and send what
is in the ring, but nothing takes what has been sent out of it. So the second packet goes out with
the first one before it. And the lengths are computed in 16 bits, with no check.

The run has the packets of the calls that returned `ERR_OK`, and the bytes that were written.
-/

namespace Lwip

open ControlPacket Transition
open AtCmd (cString)

/-- `err_t`, as far as it is used. -/
inductive Err
  | ok
  | mem
  | conn
  | isConn
  deriving DecidableEq, Repr

/-- `conn_state`. -/
inductive ConnState
  | tcpDisconnected
  | tcpConnecting
  | mqttConnecting
  | mqttConnected
  deriving DecidableEq, Repr

/-- `struct mqtt_request_t` of a request that is in use. The pointers are opaque, and the `next`
pointers are the order of `pendReqQueue`. -/
structure Request where
  cb : UInt32
  arg : UInt32
  pktId : UInt16
  timeoutDiff : UInt16
  deriving DecidableEq, Repr

/-- `struct mqtt_client_t`. An unallocated request, one whose `next` is itself, is `none`. -/
structure MqttClient where
  keepAlive : UInt16
  pktIdSeq : UInt16
  connState : ConnState
  connectArg : UInt32
  connectCb : UInt32
  pendReqQueue : List ℕ
  reqList : List (Option Request)
  output : Ringbuf

/-- `MQTT_REQ_TIMEOUT`. -/
def mqttReqTimeout : UInt16 := 30

/-- `msg_generate_packet_id(client)`: the sequence number behind it, which it returns. -/
def msgGeneratePacketId (pktIdSeq : UInt16) : UInt16 :=
  if pktIdSeq + 1 = 0 then pktIdSeq + 1 + 1 else pktIdSeq + 1

/-- `mqtt_create_request(r_objs, pkt_id, cb, arg)`: the request that it takes, and the list. -/
def mqttCreateRequest (reqList : List (Option Request)) (pktId : UInt16) (cb arg : UInt32) :
    Option (ℕ × List (Option Request)) :=
  (reqList.findIdx? Option.isNone).map fun n => (n, reqList.set n (some ⟨cb, arg, pktId, 0⟩))

/-- `mqtt_delete_request(r)`. -/
def mqttDeleteRequest (reqList : List (Option Request)) (n : ℕ) : List (Option Request) :=
  reqList.set n none

/-- The timeouts of the pending requests, as `mqtt_append_request` adds them up. -/
def timeBefore (c : MqttClient) : UInt16 :=
  (c.pendReqQueue.map fun n => ((c.reqList[n]?).join.map (·.timeoutDiff)).getD 0).sum

/-- `mqtt_append_request(&client->pend_req_queue, r)`. -/
def mqttAppendRequest (c : MqttClient) (n : ℕ) : MqttClient :=
  { c with
    reqList := c.reqList.modify n
      (Option.map fun r => { r with timeoutDiff := mqttReqTimeout - timeBefore c })
    pendReqQueue := c.pendReqQueue ++ [n] }

/-- The arguments of `mqtt_publish`. A payload has as many bytes as it is said to have. -/
structure PublishCall where
  topic : List UInt8
  payload : Option (List UInt8)
  payloadLength : UInt16
  qos : UInt8
  retain : UInt8
  cb : UInt32
  arg : UInt32
  room : ∀ data ∈ payload, payloadLength.toNat ≤ data.length
  deriving DecidableEq

namespace PublishCall

/-- `topic_len`. -/
def topicLen (a : PublishCall) : UInt16 := UInt16.ofNat (cString a.topic).length

/-- `remaining_length`. -/
def remainingLength (a : PublishCall) : UInt16 :=
  UInt16.ofNat (2 + a.topicLen.toNat + a.payloadLength.toNat) + (if 0 < a.qos then 2 else 0)

/-- `pkt_id`. -/
def pktId (a : PublishCall) (c : MqttClient) : UInt16 :=
  if 0 < a.qos then msgGeneratePacketId c.pktIdSeq else 0

/-- The part of `mqtt_publish` that appends the packet. -/
def appendTo (a : PublishCall) (rb : Ringbuf) (pktId : UInt16) : Ringbuf :=
  let rb := rb.appendFixedHeader 3 0 a.qos a.retain a.remainingLength
  let rb := rb.appendString (cString a.topic) a.topicLen
  let rb := if 0 < a.qos then rb.appendU16 pktId else rb
  match a.payload with
  | some data => if 0 < a.payloadLength then rb.appendBuf data a.payloadLength else rb
  | none => rb

end PublishCall

section Device

variable (behind : List UInt8)

/-- `mqtt_publish(client, …)`: the client behind it, the result, and what is written. -/
def mqttPublish (c : MqttClient) (a : PublishCall) : MqttClient × Err × List UInt8 :=
  let pktId := a.pktId c
  let c := { c with pktIdSeq := if 0 < a.qos then pktId else c.pktIdSeq }
  match mqttCreateRequest c.reqList pktId a.cb a.arg with
  | none => (c, .mem, [])
  | some (n, reqList) =>
      let c := { c with reqList := reqList }
      if c.output.checkSpace a.remainingLength then
        let rb := a.appendTo c.output pktId
        (mqttAppendRequest { c with output := rb } n, .ok, rb.send behind)
      else ({ c with reqList := mqttDeleteRequest c.reqList n }, .mem, [])

/-- The arguments of `pub_ack_rec_rel_response` in its callers. -/
inductive Response
  | pubAck
  | pubRec
  | pubRel
  deriving DecidableEq, Repr

/-- `msg`. -/
def Response.msg : Response → UInt8
  | .pubAck => 4
  | .pubRec => 5
  | .pubRel => 6

/-- `qos`. -/
def Response.qos : Response → UInt8
  | .pubAck => 0
  | .pubRec => 0
  | .pubRel => 1

/-- `pub_ack_rec_rel_response(client, msg, pkt_id, qos)`. -/
def pubAckRecRelResponse (c : MqttClient) (msg : UInt8) (pktId : UInt16) (qos : UInt8) :
    MqttClient × Err × List UInt8 :=
  if c.output.checkSpace 2 then
    let rb := (c.output.appendFixedHeader msg 0 qos 0 2).appendU16 pktId
    ({ c with output := rb }, .ok, rb.send behind)
  else (c, .mem, [])

/-- The calls in question. -/
inductive OutCall
  | publish (a : PublishCall)
  | response (r : Response) (pktId : UInt16)
  deriving DecidableEq

def OutCall.run (c : MqttClient) : OutCall → MqttClient × Err × List UInt8
  | .publish a => mqttPublish behind c a
  | .response r pktId => pubAckRecRelResponse behind c r.msg pktId r.qos

/-- The client, the calls that returned `ERR_OK` with their packet identifiers, and what has been
written. -/
structure OutRun where
  client : MqttClient
  accepted : List (OutCall × UInt16)
  written : List UInt8

/-- The packet identifier of a call. -/
def OutCall.id (c : MqttClient) : OutCall → UInt16
  | .publish a => a.pktId c
  | .response _ pktId => pktId

def outStep (s : OutRun) (a : OutCall) : Option OutRun :=
  some {
    client := (a.run behind s.client).1
    accepted := if (a.run behind s.client).2.1 = .ok then s.accepted ++ [(a, a.id s.client)]
      else s.accepted
    written := s.written ++ (a.run behind s.client).2.2 }

end Device

/-- The payload that a call asks for. -/
def PublishCall.data (a : PublishCall) : List UInt8 :=
  (a.payload.map (·.take a.payloadLength.toNat)).getD []

def Response.kind : Response → AckKind
  | .pubAck => .pubAck
  | .pubRec => .pubRec
  | .pubRel => .pubRel

/-- The packet that a call asks for. -/
def OutCall.packet (a : OutCall) (id : UInt16) : ControlPacket :=
  match a with
  | .publish a => .publish a.qos (a.retain &&& 1 ≠ 0) (cString a.topic) id a.data
  | .response r _ => .ack r.kind id

/-- The bytes written are those of the packets that were accepted, each once and in order, and
each is well formed and decodes to what its call asked for, and to nothing else. -/
def WroteOnce (s : OutRun) : Prop :=
  ∃ packets : List (List UInt8), s.written = packets.flatten ∧
    List.Forall₂ (fun sent bs => ∀ p, Decodes bs p ↔ p = sent.1.packet sent.2) s.accepted packets

/-- A call that fails writes nothing, and leaves the ring and the requests as they are. -/
def FailsQuietly (behind : List UInt8) (c : MqttClient) (a : OutCall) : Prop :=
  (a.run behind c).2.1 ≠ .ok →
    (a.run behind c).2.2 = [] ∧ (a.run behind c).1.output = c.output ∧
      (a.run behind c).1.reqList = c.reqList ∧ (a.run behind c).1.pendReqQueue = c.pendReqQueue

/-- Nothing waits in the ring, and the next byte goes to the first slot. -/
def Ringbuf.AtStart (rb : Ringbuf) : Prop := rb.put = rb.get ∧ rb.put.toNat % ringbufSize = 0

/-- The length of the packet that a call of `mqtt_publish` asks for. -/
def PublishCall.length (a : PublishCall) : ℕ :=
  2 + (cString a.topic).length + a.payloadLength.toNat + (if 0 < a.qos then 2 else 0)

/-- A call finds no request or no space, or it finds the ring at its start, and asks for a packet
that there is, and that is not longer than the ring. -/
def Alone (s : OutRun) : OutCall → Prop
  | .publish a =>
      none ∈ s.client.reqList → s.client.output.checkSpace a.remainingLength = true →
        s.client.output.AtStart ∧ a.qos ≤ 2 ∧ (a.payload = none → a.payloadLength = 0) ∧
          1 + (Base128.encode a.length).length + a.length ≤ ringbufSize
  | .response _ _ => s.client.output.checkSpace 2 = true → s.client.output.AtStart

/-! ## The packets -/

theorem msgGeneratePacketId_ne_zero (pktIdSeq : UInt16) : msgGeneratePacketId pktIdSeq ≠ 0 := by
  rw [msgGeneratePacketId]
  split_ifs with h
  · rw [h]
    decide
  · exact h

/-- What `mqtt_publish` appends. -/
def PublishCall.appended (a : PublishCall) (pktId : UInt16) : List UInt8 :=
  controlByte 3 0 a.qos a.retain :: Base128.encode a.remainingLength.toNat ++
    (be16 a.topicLen ++ (cString a.topic).take a.topicLen.toNat) ++
    (if 0 < a.qos then be16 pktId else []) ++
    (match a.payload with
      | some data => if 0 < a.payloadLength then data.take a.payloadLength.toNat else []
      | none => [])

/-- The appending part of `mqtt_publish`. -/
theorem PublishCall.appendTo_eq (a : PublishCall) (rb : Ringbuf) (pktId : UInt16) :
    a.appendTo rb pktId = rb.append (a.appended pktId) := by
  simp only [appendTo, Ringbuf.appendFixedHeader_eq, Ringbuf.appendString_eq,
    Ringbuf.append_append, appended]
  by_cases hqos : 0 < a.qos
  · rw [if_pos hqos, if_pos hqos, Ringbuf.appendU16_eq, Ringbuf.append_append]
    cases a.payload with
    | none => rw [List.append_nil]
    | some data =>
        simp only
        split_ifs
        · rw [Ringbuf.appendBuf, Ringbuf.append_append]
        · rw [List.append_nil]
  · rw [if_neg hqos, if_neg hqos, List.append_nil]
    cases a.payload with
    | none => rw [List.append_nil]
    | some data =>
        simp only
        split_ifs
        · rw [Ringbuf.appendBuf, Ringbuf.append_append]
        · rw [List.append_nil]

/-- The lowest bit of a byte. -/
theorem and_one_eq (b : UInt8) : b &&& 1 = if b &&& 1 ≠ 0 then 1 else 0 := by
  have hall : ∀ n : Fin 256, n.val &&& 1 = 0 ∨ n.val &&& 1 = 1 := by decide +kernel
  have hor : b &&& 1 = 0 ∨ b &&& 1 = 1 := by
    rw [← UInt8.toNat_inj, ← UInt8.toNat_inj, UInt8.toNat_and]
    exact hall ⟨b.toNat, b.toNat_lt⟩
  rcases hor with h | h
  · rw [h]
    rfl
  · rw [h]
    rfl

/-- The control byte of a `PUBLISH` packet. -/
theorem controlByte_publish {qos retain : UInt8} (hqos : qos ≤ 2) :
    controlByte 3 0 qos retain = 0x30 + qos * 2 + (if retain &&& 1 ≠ 0 then 1 else 0) := by
  have hqos' : qos.toNat < 3 := Nat.lt_succ_of_le (UInt8.le_iff_toNat_le.mp hqos)
  have hall : ∀ (q : Fin 3) (r : UInt8), r = 0 ∨ r = 1 →
      (3 &&& 0x0f : UInt8) <<< 4 ||| ((0 &&& 1 : UInt8) <<< 3) |||
        ((UInt8.ofNat q.val &&& 3) <<< 1) ||| r = 0x30 + UInt8.ofNat q.val * 2 + r := by
    rintro q r (rfl | rfl)
    · revert q
      decide
    · revert q
      decide
  have hbit : (if retain &&& 1 ≠ 0 then 1 else 0 : UInt8) = 0 ∨
      (if retain &&& 1 ≠ 0 then 1 else 0 : UInt8) = 1 := by
    split_ifs
    · exact .inr rfl
    · exact .inl rfl
  have hfin := hall ⟨qos.toNat, hqos'⟩ _ hbit
  rw [UInt8.ofNat_toNat] at hfin
  rw [controlByte]
  conv_lhs => rw [and_one_eq retain]
  exact hfin

section Good

variable {a : PublishCall} (hfits : 1 + (Base128.encode a.length).length + a.length ≤ ringbufSize)

include hfits

theorem topicLen_toNat : a.topicLen.toNat = (cString a.topic).length := by
  have hlt : (cString a.topic).length < 2 ^ 16 := by
    rw [PublishCall.length, ringbufSize] at hfits
    omega
  rw [PublishCall.topicLen, UInt16.toNat_ofNat', Nat.mod_eq_of_lt hlt]

theorem remainingLength_toNat : a.remainingLength.toNat = a.length := by
  have htopic := topicLen_toNat hfits
  rw [ringbufSize] at hfits
  rw [PublishCall.remainingLength, UInt16.toNat_add, UInt16.toNat_ofNat', htopic]
  rw [PublishCall.length] at hfits ⊢
  split_ifs with hqos
  · rw [if_pos hqos] at hfits
    show (_ % 2 ^ 16 + 2) % 2 ^ 16 = _
    omega
  · rw [if_neg hqos] at hfits
    show (_ % 2 ^ 16 + 0) % 2 ^ 16 = _
    omega

omit hfits in
theorem data_length (hpayload : a.payload = none → a.payloadLength = 0) :
    a.data.length = a.payloadLength.toNat := by
  rw [PublishCall.data]
  cases hp : a.payload with
  | none =>
      rw [hpayload hp]
      rfl
  | some data => exact List.length_take_of_le (a.room data hp)

omit hfits in
theorem body_length (hpayload : a.payload = none → a.payloadLength = 0) (id : UInt16) :
    ((OutCall.publish a).packet id).body.length = a.length := by
  have hid : (if a.qos = 0 then [] else be16 id).length = if 0 < a.qos then 2 else 0 := by
    by_cases hzero : a.qos = 0
    · rw [if_pos hzero, hzero]
      rfl
    · rw [if_neg hzero, if_pos (UInt8.pos_iff_ne_zero.mpr hzero)]
      rfl
  show (text (cString a.topic) ++ ((if a.qos = 0 then [] else be16 id) ++ a.data)).length = _
  rw [List.length_append, List.length_append, length_text, data_length hpayload, hid,
    PublishCall.length]
  omega

/-- What is appended is the packet. -/
theorem appended_eq (hqos : a.qos ≤ 2) (hpayload : a.payload = none → a.payloadLength = 0)
    (id : UInt16) : a.appended id = ((OutCall.publish a).packet id).bytes := by
  have htopic := topicLen_toNat hfits
  have hlen : a.topicLen = UInt16.ofNat (cString a.topic).length := rfl
  have hid : (if 0 < a.qos then be16 id else []) = if a.qos = 0 then [] else be16 id := by
    by_cases hzero : a.qos = 0
    · rw [if_pos hzero, hzero]
      rfl
    · rw [if_neg hzero, if_pos (UInt8.pos_iff_ne_zero.mpr hzero)]
  have hdata : (match a.payload with
      | some data => if 0 < a.payloadLength then data.take a.payloadLength.toNat else []
      | none => []) = a.data := by
    rw [PublishCall.data]
    cases hp : a.payload with
    | none => rfl
    | some data =>
        show (if 0 < a.payloadLength then data.take a.payloadLength.toNat else []) =
          data.take a.payloadLength.toNat
        split_ifs with hpos
        · rfl
        · have hzero : a.payloadLength = 0 := by
            by_contra hne
            exact hpos (UInt16.pos_iff_ne_zero.mpr hne)
          rw [hzero]
          rfl
  have hbody : ((OutCall.publish a).packet id).body.length = a.remainingLength.toNat :=
    (body_length hpayload id).trans (remainingLength_toNat hfits).symm
  rw [bytes, hbody, PublishCall.appended, hdata, hid, controlByte_publish hqos, htopic,
    List.take_of_length_le (Nat.le_refl _), hlen]
  simp only [OutCall.packet, header, body, text, List.append_assoc, List.cons_append, ne_eq,
    decide_not, Bool.not_eq_true', decide_eq_false_iff_not]

/-- The packet is well formed. -/
theorem wellFormed_packet (hqos : a.qos ≤ 2) (c : MqttClient) :
    ((OutCall.publish a).packet (a.pktId c)).WellFormed := by
  have htopic : Fits (cString a.topic) := by
    rw [Fits, ← topicLen_toNat hfits]
    exact a.topicLen.toNat_lt
  refine ⟨hqos, htopic, ?_⟩
  rw [PublishCall.pktId]
  by_cases hzero : a.qos = 0
  · rw [hzero]
    exact iff_of_true rfl rfl
  · rw [if_pos (UInt8.pos_iff_ne_zero.mpr hzero)]
    exact iff_of_false (msgGeneratePacketId_ne_zero _) hzero

end Good

/-- What a response appends is its packet. -/
theorem response_appended (r : Response) (pktId : UInt16) (rb : Ringbuf) :
    (rb.appendFixedHeader r.msg 0 r.qos 0 2).appendU16 pktId =
      rb.append ((OutCall.response r pktId).packet pktId).bytes := by
  have hcontrol : controlByte r.msg 0 r.qos 0 = ackHeader r.kind := by
    cases r <;> decide
  rw [Ringbuf.appendFixedHeader_eq, Ringbuf.appendU16_eq, Ringbuf.append_append, hcontrol]
  rfl

/-- When a packet is decoded, nothing else is. -/
theorem decodes_iff {bs : List UInt8} {p : ControlPacket} (h : Decodes bs p) (q : ControlPacket) :
    Decodes bs q ↔ q = p :=
  ⟨fun hq => hq.unique h, fun heq => heq ▸ h⟩

/-! ## A call -/

section Call

variable {behind : List UInt8}

/-- With no free request the call fails. -/
theorem mqttPublish_of_none {c : MqttClient} {a : PublishCall}
    (h : c.reqList.findIdx? Option.isNone = none) :
    mqttPublish behind c a =
      ({ c with pktIdSeq := if 0 < a.qos then a.pktId c else c.pktIdSeq }, .mem, []) := by
  simp only [mqttPublish, mqttCreateRequest, h, Option.map_none]

/-- With a free request it depends on the space. -/
theorem mqttPublish_of_some {c : MqttClient} {a : PublishCall} {n : ℕ}
    (h : c.reqList.findIdx? Option.isNone = some n) :
    mqttPublish behind c a =
      if c.output.checkSpace a.remainingLength then
        (mqttAppendRequest
          { c with
            pktIdSeq := if 0 < a.qos then a.pktId c else c.pktIdSeq
            reqList := c.reqList.set n (some ⟨a.cb, a.arg, a.pktId c, 0⟩)
            output := a.appendTo c.output (a.pktId c) } n,
          .ok, (a.appendTo c.output (a.pktId c)).send behind)
      else
        ({ c with
            pktIdSeq := if 0 < a.qos then a.pktId c else c.pktIdSeq
            reqList := mqttDeleteRequest (c.reqList.set n (some ⟨a.cb, a.arg, a.pktId c, 0⟩)) n },
          .mem, []) := by
  simp only [mqttPublish, mqttCreateRequest, h, Option.map_some]

/-- How a call ends. -/
theorem mqttPublish_cases (behind : List UInt8) (c : MqttClient) (a : PublishCall) :
    (none ∈ c.reqList ∧ c.output.checkSpace a.remainingLength = true ∧
      (mqttPublish behind c a).2 =
        (.ok, (c.output.append (a.appended (a.pktId c))).send behind)) ∨
    ((mqttPublish behind c a).2 = (.mem, []) ∧ (mqttPublish behind c a).1.output = c.output ∧
      (mqttPublish behind c a).1.reqList = c.reqList ∧
      (mqttPublish behind c a).1.pendReqQueue = c.pendReqQueue) := by
  cases hfind : c.reqList.findIdx? Option.isNone with
  | none =>
      rw [mqttPublish_of_none hfind]
      exact .inr ⟨rfl, rfl, rfl, rfl⟩
  | some n =>
      obtain ⟨hn, hnone, -⟩ := List.findIdx?_eq_some_iff_getElem.mp hfind
      have hfree : c.reqList[n] = none := Option.isNone_iff_eq_none.mp hnone
      rw [mqttPublish_of_some hfind, a.appendTo_eq]
      by_cases hspace : c.output.checkSpace a.remainingLength = true
      · rw [if_pos hspace]
        exact .inl ⟨hfree ▸ List.getElem_mem hn, hspace, rfl⟩
      · rw [if_neg hspace]
        refine .inr ⟨rfl, rfl, ?_, rfl⟩
        show (c.reqList.set n _).set n none = c.reqList
        rw [List.set_set, ← hfree, List.set_getElem_self]

/-- A call that fails changes nothing that matters. -/
theorem failsQuietly (c : MqttClient) (a : OutCall) : FailsQuietly behind c a := by
  intro herr
  cases a with
  | publish a =>
      rcases mqttPublish_cases behind c a with ⟨-, -, hok⟩ | ⟨hmem, houtput, hrest⟩
      · exact absurd (congrArg Prod.fst hok) herr
      · exact ⟨congrArg Prod.snd hmem, houtput, hrest⟩
  | response r pktId =>
      simp only [OutCall.run, pubAckRecRelResponse] at herr ⊢
      split_ifs at herr ⊢
      · exact absurd rfl herr
      · exact ⟨rfl, rfl, rfl, rfl⟩

/-- A call that succeeds alone writes its packet. -/
theorem run_eq_bytes {s : OutRun} {a : OutCall} (hok : Alone s a)
    (haccepted : (a.run behind s.client).2.1 = .ok) :
    Decodes (a.run behind s.client).2.2 (a.packet (a.id s.client)) := by
  cases a with
  | publish a =>
      rcases mqttPublish_cases behind s.client a with ⟨hfree, hspace, hrun⟩ | ⟨hmem, -⟩
      · obtain ⟨⟨hempty, hput⟩, hqos, hpayload, hfits⟩ := hok hfree hspace
        have happended := appended_eq hfits hqos hpayload (a.pktId s.client)
        have hlen : (a.appended (a.pktId s.client)).length ≤ ringbufSize := by
          rw [happended, length_bytes, body_length hpayload]
          omega
        have hsent : ((OutCall.publish a).run behind s.client).2.2 =
            a.appended (a.pktId s.client) :=
          (congrArg Prod.snd hrun).trans (Ringbuf.send_append hempty hput hlen behind)
        rw [hsent]
        exact ⟨wellFormed_packet hfits hqos s.client, happended.symm⟩
      · exact absurd ((congrArg Prod.fst hmem).symm.trans haccepted) Err.noConfusion
  | response r pktId =>
      simp only [OutCall.run, pubAckRecRelResponse] at haccepted ⊢
      by_cases hspace : s.client.output.checkSpace 2 = true
      · obtain ⟨hempty, hput⟩ := hok hspace
        have hbody : ((OutCall.response r pktId).packet pktId).body.length = 2 := rfl
        have hlen : ((OutCall.response r pktId).packet pktId).bytes.length ≤ ringbufSize := by
          rw [length_bytes, hbody, Base128.encode_of_lt (by decide)]
          exact (by decide : 4 ≤ 256)
        rw [if_pos hspace, response_appended]
        exact ⟨trivial, (Ringbuf.send_append hempty hput hlen behind).symm⟩
      · rw [if_neg hspace] at haccepted
        exact absurd haccepted Err.noConfusion

/-- A step that finds its condition keeps what has been written in order. -/
theorem WroteOnce.step {s t : OutRun} {a : OutCall} (h : WroteOnce s) (hok : Alone s a)
    (hstep : outStep behind s a = some t) : WroteOnce t := by
  obtain ⟨packets, hwritten, hall⟩ := h
  rw [← Option.some.inj hstep]
  by_cases haccepted : (a.run behind s.client).2.1 = .ok
  · have hone : ∀ p, Decodes (a.run behind s.client).2.2 p ↔ p = a.packet (a.id s.client) :=
      decodes_iff (run_eq_bytes hok haccepted)
    refine ⟨packets ++ [(a.run behind s.client).2.2], ?_, ?_⟩
    · show s.written ++ _ = _
      rw [hwritten, List.flatten_append, List.flatten_singleton]
    · simp only [if_pos haccepted]
      exact List.rel_append hall (.cons hone .nil)
  · refine ⟨packets, ?_, ?_⟩
    · show s.written ++ _ = _
      rw [(failsQuietly s.client a haccepted).1, List.append_nil, hwritten]
    · simp only [if_neg haccepted]
      exact hall

/-- What has been written, when all is in order. -/
theorem flatten_eq {accepted : List (OutCall × UInt16)} {packets : List (List UInt8)}
    (h : List.Forall₂ (fun sent bs => ∀ p, Decodes bs p ↔ p = sent.1.packet sent.2) accepted
      packets) :
    packets.flatten = accepted.flatMap fun sent => (sent.1.packet sent.2).bytes := by
  induction h with
  | nil => rfl
  | cons hhead _ ih =>
      rw [List.flatten_cons, List.flatMap_cons, ih, ((hhead _).mpr rfl).bytes]

theorem WroteOnce.written_eq {s : OutRun} (h : WroteOnce s) :
    s.written = s.accepted.flatMap fun sent => (sent.1.packet sent.2).bytes := by
  obtain ⟨packets, hwritten, hall⟩ := h
  rw [hwritten, flatten_eq hall]

/-- As long as every accepted call finds the ring at its start, each packet is written once and
whole. -/
theorem published_once {c : MqttClient} {as : List OutCall} {t : OutRun}
    (h : Run (outStep behind) Alone ⟨c, [], []⟩ as t) :
    WroteOnce t ∧ ∀ a, FailsQuietly behind t.client a := by
  have hstart : WroteOnce ⟨c, [], []⟩ := ⟨[], rfl, .nil⟩
  exact ⟨h.invariant WroteOnce (fun _ _ _ hs hok hstep => hs.step hok hstep) hstart,
    failsQuietly t.client⟩

end Call

/-- A connected client with nothing in its ring. -/
def fresh : MqttClient where
  keepAlive := 60
  pktIdSeq := 0
  connState := .mqttConnected
  connectArg := 0
  connectCb := 0
  pendReqQueue := []
  reqList := List.replicate 4 none
  output := ⟨0, 0, List.replicate ringbufSize 0, length_zeros⟩

/-- The topic `a`, with nothing in the payload. -/
def publishA : PublishCall := ⟨[97], none, 0, 0, 0, 0, 0, fun _ h => nomatch h⟩

theorem published_once_publishA : ∃ t,
    Run (outStep []) Alone ⟨fresh, [], []⟩ [.publish publishA] t ∧ t.written ≠ [] ∧
      WroteOnce t ∧ ∀ a, FailsQuietly [] t.client a := by
  have hfits : 1 + (Base128.encode publishA.length).length + publishA.length ≤ ringbufSize := by
    rw [Base128.encode_of_lt (by decide)]
    decide
  have halone : Alone ⟨fresh, [], []⟩ (.publish publishA) :=
    fun _ _ => ⟨⟨rfl, Nat.zero_mod _⟩, by decide, fun _ => rfl, hfits⟩
  have hrun := Run.nil.snoc halone (Eq.refl (outStep [] ⟨fresh, [], []⟩ (.publish publishA)))
  exact ⟨_, hrun, by decide +kernel, published_once hrun⟩

/-- The second packet goes out with the first one before it. -/
theorem published_again : ¬ ∀ (behind : List UInt8) (c : MqttClient) (as : List OutCall)
    (t : OutRun), c.connState = .mqttConnected → c.output.put = c.output.get →
      Run (outStep behind) unconditional ⟨c, [], []⟩ as t → WroteOnce t := by
  intro hall
  obtain ⟨t, hrun, ht⟩ := Run.exists_of_exec (outStep []) unconditional ⟨fresh, [], []⟩
    [.publish publishA, .publish publishA]
    (fun t => decide (t.accepted = [(.publish publishA, 0), (.publish publishA, 0)] ∧
      t.written.length = 15)) (by decide +kernel)
  obtain ⟨haccepted, hwritten⟩ := of_decide_eq_true ht
  have hlength : ((OutCall.publish publishA).packet 0).bytes.length = 5 := by
    have hbody : ((OutCall.publish publishA).packet 0).body.length = 3 := rfl
    rw [length_bytes, hbody, Base128.encode_of_lt (by decide)]
    rfl
  rw [(hall [] fresh _ t rfl rfl hrun).written_eq, haccepted, List.flatMap_cons,
    List.flatMap_singleton, List.length_append, hlength] at hwritten
  exact absurd hwritten (by decide)

end Lwip
