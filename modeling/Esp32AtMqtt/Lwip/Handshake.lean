import Esp32AtMqtt.Lwip.Receive
import Esp32AtMqtt.Stream.Ring
import Mathlib.Data.List.GetD

/-!
# The handshakes of incoming packets

A connected client is given complete packets, one call of `mqtt_message_received` each. The run has
the answers that MQTT owes the broker, and what the calls append to the output ring. The answer to
a `PUBREL` packet is never made, because the call that would make it is commented out.
-/

namespace Lwip

open ControlPacket Transition

/-- A complete packet that fits `rx_buffer`: its body is shorter than 128 bytes, so its length
field has one byte. -/
structure Incoming where
  first : UInt8
  body : List UInt8
  fits : 2 + body.length ≤ rxBufferLen

/-- The number in front. -/
def leadingWord : List UInt8 → Option UInt16
  | high :: low :: _ => some (word high low)
  | _ => none

namespace Incoming

def bytes (p : Incoming) : List UInt8 := p.first :: UInt8.ofNat p.body.length :: p.body

def type (p : Incoming) : UInt8 := (p.first &&& 0xf0) >>> 4

def qos (p : Incoming) : UInt8 := (p.first &&& 0x06) >>> 1

/-- `length`, the received part of the body. -/
def length (p : Incoming) : UInt16 := UInt16.ofNat p.body.length

/-- The identifier of a complete `PUBLISH` packet, behind its topic. -/
def publishId (p : Incoming) : Option UInt16 :=
  (leadingWord p.body).bind fun n => leadingWord (p.body.drop (2 + n.toNat))

/-- The identifier of an acknowledgement; 0 is none. -/
def ackId (p : Incoming) : Option UInt16 := (leadingWord p.body).filter (· ≠ 0)

/-- What a client owes for a packet. -/
def answer (p : Incoming) : Option ControlPacket :=
  if p.type = 3 then
    if p.qos = 1 then p.publishId.map (.ack .pubAck)
    else if p.qos = 2 then p.publishId.map (.ack .pubRec)
    else none
  else if p.type = 5 then p.ackId.map (.ack .pubRel)
  else if p.type = 6 then p.ackId.map (.ack .pubComp)
  else none

end Incoming

/-- The packet is in `rx_buffer`, over what was there. -/
def Receiver.holds (r : Receiver) (p : Incoming) : Receiver :=
  { r.reads ⟨p.bytes, Nat.le_trans (Nat.le_of_eq (Nat.add_comm _ 2)) p.fits⟩ with
    msgIdx := UInt32.ofNat p.bytes.length }

/-- What has been appended to a ring. -/
def Ringbuf.added (old new : Ringbuf) : List UInt8 :=
  Ring.window (fun i => new.buf.getD i 0) ringbufSize old.put.toNat (new.put - old.put).toNat

/-- A call for a packet: the client behind it, and what it has appended. -/
def Receiver.takes (behind : List UInt8) (r : Receiver) (p : Incoming) :
    Option (Receiver × List UInt8) :=
  (mqttMessageReceived behind (r.holds p) 2 p.length 0).map fun rec =>
    (rec.receiver, r.client.output.added rec.receiver.client.output)

/-- The client, when nothing undefined has happened, the answers that it owes, and what has been
queued. -/
structure HandshakeRun where
  receiver : Option Receiver
  owed : List ControlPacket
  queued : List (List UInt8)

/-- A packet, or something else that the application does with the client, which stays
connected. -/
inductive HandshakeEvent
  | message (p : Incoming)
  | elsewhere (c : MqttClient)

def handshakeStep (behind : List UInt8) (s : HandshakeRun) : HandshakeEvent → Option HandshakeRun
  | .message p =>
      let res := s.receiver.bind fun r => r.takes behind p
      some {
        receiver := res.map (·.1)
        owed := s.owed ++ p.answer.toList
        queued := s.queued ++ (res.map (·.2)).toList.filter (· ≠ []) }
  | .elsewhere c =>
      if c.connState = .mqttConnected then
        some { s with receiver := s.receiver.map fun r => { r with client := c } }
      else none

def handshakeInit (r : Receiver) : HandshakeRun := ⟨some r, [], []⟩

/-- The client is connected, and both callbacks are set. -/
structure Ready (r : Receiver) : Prop where
  connected : r.client.connState = .mqttConnected
  dataCb : r.dataCb ≠ 0
  pubCb : r.pubCb ≠ 0

/-- There is space for an answer that is owed. -/
def Spacious (s : HandshakeRun) : HandshakeEvent → Prop
  | .message p => ∀ r ∈ s.receiver, p.answer.isSome → r.client.output.checkSpace 2 = true
  | .elsewhere _ => True

/-- Exactly the answers that are owed have been queued, in order. -/
def Completed (s : HandshakeRun) : Prop :=
  s.receiver.isSome ∧ s.queued = s.owed.map ControlPacket.bytes

/-- A packet that is answered as it should be: no `PUBREL` packet with an identifier, no
`PUBLISH` packet with QoS 3 that is taken for one with QoS 2, none with a length of its topic that
wraps, and no `PUBREC` packet without an identifier behind which another one stands. -/
structure Prompt (r : Receiver) (p : Incoming) : Prop where
  pubRel : p.type = 6 → p.ackId = none
  qosThree : p.type = 3 → p.qos = 3 → p.publishId.isSome → r.client.output.checkSpace 2 = false
  wraps : p.type = 3 → (r.holds p).TopicFits p.length p.qos → (r.holds p).firstWord.toNat < 65534
  pubRec : p.type = 5 → p.body.length < 2 → (r.holds p).firstWord ≠ 0 →
    r.client.output.checkSpace 2 = false

/-- The packet of a step is answered as it should be. -/
def PromptStep (s : HandshakeRun) : HandshakeEvent → Prop
  | .message p => ∀ r ∈ s.receiver, Prompt r p
  | .elsewhere _ => True

/-! ## The ring -/

theorem Ringbuf.added_self (rb : Ringbuf) : rb.added rb = [] := by
  rw [added, UInt16.sub_self]
  rfl

/-- What is appended has been appended, as long as the ring has that many bytes. -/
theorem Ringbuf.added_append (rb : Ringbuf) {items : List UInt8}
    (hlen : items.length ≤ ringbufSize) : rb.added (rb.append items) = items := by
  have hput : ((rb.append items).put - rb.put).toNat = items.length := by
    rw [append_put, UInt16.add_comm, UInt16.add_sub_cancel, UInt16.toNat_ofNat',
      Nat.mod_eq_of_lt (Nat.lt_of_le_of_lt hlen (by decide))]
  rw [added, hput]
  clear hput
  induction items using List.reverseRecOn with
  | nil => rfl
  | append_singleton xs x ih =>
      rw [List.length_append, List.length_singleton] at hlen ⊢
      have hlt : xs.length < ringbufSize := hlen
      have hslot : (rb.append xs).put.toNat % ringbufSize =
          (rb.put.toNat + xs.length) % ringbufSize := by
        rw [append_put, UInt16.toNat_add, UInt16.toNat_ofNat', ringbufSize]
        omega
      have hstored : (fun i => (rb.append (xs ++ [x])).buf.getD i 0) =
          Function.update (fun i => (rb.append xs).buf.getD i 0)
            ((rb.put.toNat + xs.length) % ringbufSize) x := by
        funext i
        rw [append_snoc]
        show ((rb.append xs).buf.set ((rb.append xs).put.toNat % ringbufSize) x).getD i 0 = _
        rw [hslot, Function.update_apply, List.getD_eq_getElem?_getD, List.getElem?_set,
          (rb.append xs).size, if_pos (Nat.mod_lt _ (by decide : 0 < ringbufSize))]
        by_cases hi : (rb.put.toNat + xs.length) % ringbufSize = i
        · rw [if_pos hi, if_pos hi.symm]
          rfl
        · rw [if_neg hi, if_neg fun heq => hi heq.symm, List.getD_eq_getElem?_getD]
      rw [hstored, Ring.window_push _ _ hlt, ih (Nat.le_of_lt hlt)]

/-! ## What is read of a packet -/

section Packet

variable (r : Receiver) (p : Incoming)

theorem byte_holds (i : ℕ) : (r.holds p).byte i = p.bytes.getD i (r.byte i) := byte_reads r _ i

theorem byte_holds_zero : (r.holds p).byte 0 = p.first := byte_holds r p 0

theorem byte_holds_body {i : ℕ} (hi : i < p.body.length) :
    (r.holds p).byte (2 + i) = p.body.getD i 0 := by
  have hlt : 2 + i < p.bytes.length := by
    simp only [Incoming.bytes, List.length_cons]
    omega
  rw [byte_holds, List.getD_eq_getElem _ _ hlt, List.getD_eq_getElem _ _ hi]
  simp only [Incoming.bytes, Nat.add_comm 2 i, List.getElem_cons_succ]

theorem toNat_length : p.length.toNat = p.body.length := by
  have hfits := p.fits
  rw [rxBufferLen] at hfits
  rw [Incoming.length, UInt16.toNat_ofNat', Nat.mod_eq_of_lt (by omega)]

theorem msgIdx_holds : (r.holds p).msgIdx.toNat ≤ rxBufferLen := by
  have hfits := p.fits
  have hlen : p.bytes.length = 2 + p.body.length := by
    simp only [Incoming.bytes, List.length_cons]
    omega
  show (UInt32.ofNat p.bytes.length).toNat ≤ rxBufferLen
  rw [UInt32.toNat_ofNat', hlen]
  exact (Nat.mod_le _ _).trans hfits

end Packet

theorem leadingWord_of_lt {bs : List UInt8} (h : bs.length < 2) : leadingWord bs = none := by
  match bs, h with
  | [], _ => rfl
  | [_], _ => rfl

/-- The number at a place. -/
theorem leadingWord_drop {bs : List UInt8} {k : ℕ} (h : k + 2 ≤ bs.length) :
    leadingWord (bs.drop k) = some (word (bs.getD k 0) (bs.getD (k + 1) 0)) := by
  rw [List.drop_eq_getElem_cons (by omega), List.drop_eq_getElem_cons (by omega),
    List.getD_eq_getElem _ _ (by omega), List.getD_eq_getElem _ _ (by omega)]
  rfl

/-- The first two bytes of a body. -/
theorem leadingWord_body (r : Receiver) {p : Incoming} (h : 2 ≤ p.body.length) :
    leadingWord p.body = some (r.holds p).firstWord := by
  have hword := leadingWord_drop (k := 0) h
  rw [List.drop_zero] at hword
  rw [hword, Receiver.firstWord, ← byte_holds_body r p (by omega), ← byte_holds_body r p (by omega)]

/-- The code finds the identifier of a complete `PUBLISH` packet, when it does not wrap. -/
theorem publishId_of_fits (r : Receiver) {p : Incoming} (hqos : p.qos ≠ 0)
    (hfits : (r.holds p).TopicFits p.length p.qos) (hwraps : (r.holds p).firstWord.toNat < 65534) :
    p.publishId = some ((r.holds p).topicId p.qos) := by
  rw [Receiver.TopicFits, toNat_two_add hwraps, toNat_length, behindTopic, if_pos hqos] at hfits
  rw [Incoming.publishId, leadingWord_body r (by omega), Option.bind_some, leadingWord_drop hfits,
    ← byte_holds_body r p (by omega), ← byte_holds_body r p (by omega), Receiver.topicId,
    if_pos (UInt8.pos_iff_ne_zero.mpr hqos)]
  congr 3
  · omega
  · omega

/-- And it finds none otherwise. -/
theorem publishId_of_not_fits (r : Receiver) {p : Incoming} (hqos : p.qos ≠ 0)
    (hfits : ¬ (r.holds p).TopicFits p.length p.qos) : p.publishId = none := by
  rw [Receiver.TopicFits, toNat_length, behindTopic, if_pos hqos, Nat.not_le] at hfits
  rw [Incoming.publishId]
  by_cases hlen : p.body.length < 2
  · rw [leadingWord_of_lt hlen, Option.bind_none]
  rw [leadingWord_body r (Nat.not_lt.mp hlen), Option.bind_some, leadingWord_of_lt]
  have hle : (2 + (r.holds p).firstWord).toNat ≤ 2 + (r.holds p).firstWord.toNat := by
    rw [UInt16.toNat_add]
    exact Nat.mod_le _ _
  rw [List.length_drop]
  omega

/-! ## What a call queues -/

section Call

variable {behind : List UInt8} {r : Receiver} {p : Incoming}

/-- The call ends, the client stays ready, and this has been queued. -/
def Queues (behind : List UInt8) (r : Receiver) (p : Incoming) (reply : Option ControlPacket) :
    Prop :=
  ∃ t, Ready t ∧ r.takes behind p = some (t, (reply.map ControlPacket.bytes).getD [])

theorem length_ack (kind : AckKind) (pktId : UInt16) :
    (ControlPacket.ack kind pktId).bytes.length = 4 := by
  have hbody : (ControlPacket.ack kind pktId).body.length = 2 := rfl
  rw [length_bytes, hbody, Base128.encode_of_lt (by decide)]
  rfl

/-- What a response appends. -/
theorem added_respond (h : Receiver) (k : Response) (pktId : UInt16) (callbacks : List Callback) :
    h.client.output.added (respond behind h k.msg pktId k.qos callbacks).receiver.client.output =
      if h.client.output.checkSpace 2 then (ControlPacket.ack k.kind pktId).bytes else [] := by
  rw [respond, pubAckRecRelResponse]
  split_ifs
  · rw [response_appended]
    refine Ringbuf.added_append _ ?_
    rw [OutCall.packet, length_ack]
    decide
  · exact Ringbuf.added_self _

theorem ready_respond {h : Receiver} (hready : Ready h) (msg : UInt8) (pktId : UInt16)
    (qos : UInt8) (callbacks : List Callback) :
    Ready (respond behind h msg pktId qos callbacks).receiver := by
  rw [respond, pubAckRecRelResponse]
  split_ifs
  · exact ⟨hready.connected, hready.dataCb, hready.pubCb⟩
  · exact ⟨hready.connected, hready.dataCb, hready.pubCb⟩

/-- A call that ends with a response. -/
theorem queues_respond {h : Receiver} (hready : Ready h) (k : Response) {pktId : UInt16}
    {callbacks : List Callback} (hout : h.client.output = r.client.output)
    (hcall : mqttMessageReceived behind (r.holds p) 2 p.length 0 =
      some (respond behind h k.msg pktId k.qos callbacks)) :
    Queues behind r p
      (if r.client.output.checkSpace 2 then some (.ack k.kind pktId) else none) := by
  have hkept : Ready (respond behind h k.msg pktId k.qos callbacks).receiver :=
    ready_respond hready k.msg pktId k.qos callbacks
  refine ⟨_, hkept, ?_⟩
  rw [Receiver.takes, hcall, Option.map_some, ← hout, added_respond]
  split_ifs
  · rfl
  · rfl

/-- A call that leaves the ring alone. -/
theorem queues_none {rec : Reception}
    (hcall : mqttMessageReceived behind (r.holds p) 2 p.length 0 = some rec)
    (hready : Ready rec.receiver) (hout : rec.receiver.client.output = r.client.output) :
    Queues behind r p none := by
  refine ⟨rec.receiver, hready, ?_⟩
  rw [Receiver.takes, hcall, Option.map_some, hout, Ringbuf.added_self]
  rfl

theorem ready_holds (h : Ready r) : Ready (r.holds p) := ⟨h.connected, h.dataCb, h.pubCb⟩

theorem message_type : mqttMessageReceived behind (r.holds p) 2 p.length 0 =
    if p.type = 2 then receivedConnack (r.holds p) 2
    else if p.type = 13 then some ((r.holds p).ends connectAccepted)
    else if p.type = 3 then receivedPublish behind (r.holds p) 2 p.length 0 p.qos
    else receivedId behind (r.holds p) p.type 2 p.length := by
  rw [mqttMessageReceived, (r.holds p).load_eq (by decide), Option.bind_some, byte_holds_zero]
  rfl

/-- A `PUBLISH` packet that is given up queues nothing. -/
theorem queues_publish_short (hready : Ready r) (htype : p.type = 3)
    (hfits : ¬ (r.holds p).TopicFits p.length p.qos) : Queues behind r p none := by
  have hcall : mqttMessageReceived behind (r.holds p) 2 p.length 0 =
      some ((r.holds p).ends connectDisconnected) := by
    rw [message_type, htype]
    exact receivedPublish_short behind _ 0 (msgIdx_holds r p) hfits
  exact queues_none hcall (ready_holds hready) rfl

theorem takes_publish_wraps (htype : p.type = 3)
    (hfits : (r.holds p).TopicFits p.length p.qos)
    (hwraps : 65534 ≤ (r.holds p).firstWord.toNat) : r.takes behind p = none := by
  rw [Receiver.takes, message_type, htype]
  exact congrArg _ (receivedPublish_wraps behind _ 0 (msgIdx_holds r p) hfits hwraps)

/-- A complete `PUBLISH` packet is answered by its QoS, where 3 is taken for 2. -/
theorem queues_publish (behind : List UInt8) (hready : Ready r) (htype : p.type = 3)
    (hfits : (r.holds p).TopicFits p.length p.qos)
    (hwraps : (r.holds p).firstWord.toNat < 65534) :
    Queues behind r p
      (if p.qos = 0 then none
      else if r.client.output.checkSpace 2 then
        some (.ack (if p.qos = 1 then .pubAck else .pubRec) ((r.holds p).topicId p.qos))
      else none) := by
  have hlen : p.length.toNat ≤ rxBufferLen := by
    rw [toNat_length]
    exact (Nat.le_add_left _ 2).trans p.fits
  obtain ⟨callbacks, hcall⟩ := receivedPublish_fits behind (r.holds p) (msgIdx_holds r p) hfits hlen
    hwraps hready.dataCb
  have hmessage : mqttMessageReceived behind (r.holds p) 2 p.length 0 =
      receivedPublish behind (r.holds p) 2 p.length 0 p.qos := by
    rw [message_type, htype]
    rfl
  have hheld : Ready { r.holds p with inpubPktId := (r.holds p).topicId p.qos } :=
    ⟨hready.connected, hready.dataCb, hready.pubCb⟩
  rw [hcall] at hmessage
  by_cases hzero : p.qos = 0
  · rw [hzero] at hmessage hheld ⊢
    exact queues_none hmessage hheld rfl
  rw [if_neg hzero]
  rw [if_pos (UInt8.pos_iff_ne_zero.mpr hzero)] at hmessage
  by_cases hone : p.qos = 1
  · rw [if_pos hone] at hmessage ⊢
    exact queues_respond hheld .pubAck rfl hmessage
  · rw [if_neg hone] at hmessage ⊢
    exact queues_respond hheld .pubRec rfl hmessage

/-- A `PUBREC` packet is answered when its identifier is not 0. -/
theorem queues_pubRec (behind : List UInt8) (hready : Ready r) (htype : p.type = 5) :
    Queues behind r p
      (if (r.holds p).firstWord = 0 then none
      else if r.client.output.checkSpace 2 then some (.ack .pubRel (r.holds p).firstWord)
      else none) := by
  have hmessage : mqttMessageReceived behind (r.holds p) 2 p.length 0 =
      if (r.holds p).firstWord = 0 then some ((r.holds p).ends connectDisconnected)
      else some (respond behind (r.holds p) 6 (r.holds p).firstWord 1 []) := by
    have hbranch := receivedId_eq behind (r.holds p) 5 p.length
    rw [idReception, if_pos rfl, apply_ite some] at hbranch
    rw [message_type, htype]
    exact hbranch
  by_cases hzero : (r.holds p).firstWord = 0
  · rw [if_pos hzero] at hmessage ⊢
    exact queues_none hmessage (ready_holds hready) rfl
  · rw [if_neg hzero] at hmessage ⊢
    exact queues_respond (ready_holds hready) .pubRel rfl hmessage

theorem mqttTakeRequest_keeps {c d : MqttClient} {pktId : UInt16} {n : ℕ} {request : Request}
    (h : mqttTakeRequest c pktId = some (n, request, d)) :
    d.output = c.output ∧ d.connState = c.connState := by
  obtain ⟨i, -, h⟩ := Option.bind_eq_some_iff.mp h
  obtain ⟨m, -, h⟩ := Option.bind_eq_some_iff.mp h
  obtain ⟨s, -, heq⟩ := Option.map_eq_some_iff.mp h
  obtain rfl := congrArg (fun t => t.2.2) heq
  exact ⟨rfl, rfl⟩

/-- Of the packets with an identifier only `PUBREC` is answered. -/
theorem receivedId_quiet {h : Receiver} (hready : Ready h) {pktType : UInt8} (hrec : pktType ≠ 5)
    (length : UInt16) :
    ∃ rec, receivedId behind h pktType 2 length = some rec ∧ Ready rec.receiver ∧
      rec.receiver.client.output = h.client.output := by
  refine ⟨_, receivedId_eq behind h pktType length, ?_⟩
  rw [idReception, if_neg hrec]
  split
  · exact ⟨hready, rfl⟩
  split
  · exact ⟨hready, rfl⟩
  split
  swap
  · exact ⟨hready, rfl⟩
  cases htake : mqttTakeRequest h.client h.firstWord with
  | none => exact ⟨hready, rfl⟩
  | some taken =>
      obtain ⟨n, request, c⟩ := taken
      obtain ⟨hout, hstate⟩ := mqttTakeRequest_keeps htake
      have hconnected := hstate.trans hready.connected
      dsimp only
      split
      · split
        · exact ⟨⟨hconnected, hready.dataCb, hready.pubCb⟩, hout⟩
        · exact ⟨⟨hconnected, hready.dataCb, hready.pubCb⟩, hout⟩
      · exact ⟨⟨hconnected, hready.dataCb, hready.pubCb⟩, hout⟩

/-- All the other packets queue nothing, `PUBREL` among them. -/
theorem queues_other (behind : List UInt8) (hready : Ready r) (hpublish : p.type ≠ 3)
    (hrec : p.type ≠ 5) :
    Queues behind r p none := by
  have hcall : ∃ rec, mqttMessageReceived behind (r.holds p) 2 p.length 0 = some rec ∧
      Ready rec.receiver ∧ rec.receiver.client.output = (r.holds p).client.output := by
    rw [message_type]
    split
    · have hnot : ¬ (r.holds p).client.connState = .mqttConnecting := by
        rw [(ready_holds hready).connected]
        decide
      rw [receivedConnack, if_neg hnot]
      exact ⟨_, rfl, ready_holds hready, rfl⟩
    split
    · exact ⟨_, rfl, ready_holds hready, rfl⟩
    · exact receivedId_quiet (ready_holds hready) hrec p.length
  obtain ⟨rec, hrec, hkept, hout⟩ := hcall
  exact queues_none hrec hkept hout

/-! ## A packet and its answer -/

/-- An acknowledgement, other than the one that is missing. -/
def MadeAnswer (q : ControlPacket) : Prop := ∃ kind id, q = .ack kind id ∧ kind ≠ .pubComp

/-- An answer is owed to a `PUBREL` packet, and nothing is queued. -/
structure Missing (behind : List UInt8) (r : Receiver) (p : Incoming) : Prop where
  owed : ∃ id, p.answer = some (.ack .pubComp id)
  queues : Queues behind r p none

/-- No answer is owed, and one is queued. -/
structure Extra (behind : List UInt8) (r : Receiver) (p : Incoming) : Prop where
  owed : p.answer = none
  queues : ∃ q, MadeAnswer q ∧ Queues behind r p (some q)

/-- What becomes of a packet: its answer is queued, or the call does not end, or an answer is
missing, or there is one too many. -/
inductive Fate (behind : List UInt8) (r : Receiver) (p : Incoming) : Prop
  | prompt (h : Prompt r p) (hmade : ∀ q ∈ p.answer, MadeAnswer q)
      (hq : Queues behind r p p.answer)
  | undefined (h : ¬ Prompt r p) (hq : r.takes behind p = none)
  | missing (h : ¬ Prompt r p) (hq : Missing behind r p)
  | extra (h : ¬ Prompt r p) (hq : Extra behind r p)

theorem ackId_of_lt (h : p.body.length < 2) : p.ackId = none := by
  rw [Incoming.ackId, leadingWord_of_lt h]
  rfl

theorem ackId_of_le (r : Receiver) (h : 2 ≤ p.body.length) :
    p.ackId = if (r.holds p).firstWord = 0 then none else some (r.holds p).firstWord := by
  rw [Incoming.ackId, leadingWord_body r h, Option.filter_some]
  by_cases hzero : (r.holds p).firstWord = 0
  · simp [hzero]
  · simp [hzero]

/-- The QoS has two bits. -/
theorem qos_cases (p : Incoming) : p.qos = 0 ∨ p.qos = 1 ∨ p.qos = 2 ∨ p.qos = 3 := by
  have hall : ∀ n : Fin 256, (n.val &&& 6) >>> 1 < 4 := by decide +kernel
  have hlt : p.qos.toNat < 4 := by
    rw [Incoming.qos, UInt8.toNat_shiftRight, UInt8.toNat_and]
    exact hall ⟨p.first.toNat, p.first.toNat_lt⟩
  rw [← UInt8.toNat_inj, ← UInt8.toNat_inj, ← UInt8.toNat_inj, ← UInt8.toNat_inj]
  have hone : (1 : UInt8).toNat = 1 := rfl
  have htwo : (2 : UInt8).toNat = 2 := rfl
  have hthree : (3 : UInt8).toNat = 3 := rfl
  have hzero : (0 : UInt8).toNat = 0 := rfl
  omega

/-- What is asked of a `PUBLISH` packet. -/
theorem prompt_publish (htype : p.type = 3)
    (hwraps : (r.holds p).TopicFits p.length p.qos → (r.holds p).firstWord.toNat < 65534)
    (hthree : p.qos = 3 → p.publishId.isSome → r.client.output.checkSpace 2 = false) :
    Prompt r p := by
  refine ⟨fun h => ?_, fun _ => hthree, fun _ => hwraps, fun h => ?_⟩
  · exact absurd (htype.symm.trans h) (by decide)
  · exact absurd (htype.symm.trans h) (by decide)

/-- A packet that owes no answer and gets none. -/
theorem Fate.quiet (h : Prompt r p) (hanswer : p.answer = none) (hq : Queues behind r p none) :
    Fate behind r p := by
  refine .prompt h ?_ ?_
  · rw [hanswer]
    exact fun q hq => nomatch hq
  · rw [hanswer]
    exact hq

/-- A packet that gets the answer it is owed. -/
theorem Fate.answered {kind : AckKind} {id : UInt16} (h : Prompt r p) (hkind : kind ≠ .pubComp)
    (hanswer : p.answer = some (.ack kind id)) (hq : Queues behind r p (some (.ack kind id))) :
    Fate behind r p := by
  refine .prompt h ?_ ?_
  · rw [hanswer]
    rintro q ⟨rfl⟩
    exact ⟨kind, id, rfl, hkind⟩
  · rw [hanswer]
    exact hq

theorem answer_publish (htype : p.type = 3) :
    p.answer = if p.qos = 1 then p.publishId.map (.ack .pubAck)
      else if p.qos = 2 then p.publishId.map (.ack .pubRec) else none := by
  rw [Incoming.answer, if_pos htype]

/-- What becomes of a `PUBLISH` packet that is given up: it has no identifier either. -/
theorem fate_publish_short (hready : Ready r) (htype : p.type = 3)
    (hfits : ¬ (r.holds p).TopicFits p.length p.qos) : Fate behind r p := by
  have hqueues := (queues_publish_short hready htype hfits : Queues behind r p none)
  by_cases hzero : p.qos = 0
  · have hanswer : p.answer = none := by
      rw [answer_publish htype, hzero]
      rfl
    refine .quiet (prompt_publish htype (fun h => absurd h hfits) fun h => ?_) hanswer hqueues
    exact absurd (hzero.symm.trans h) (by decide)
  · have hid := publishId_of_not_fits r hzero hfits
    have hanswer : p.answer = none := by
      rw [answer_publish htype, hid]
      split_ifs
      · rfl
      · rfl
      · rfl
    refine .quiet (prompt_publish htype (fun h => absurd h hfits) fun _ h => ?_) hanswer hqueues
    rw [hid] at h
    cases h

/-- What becomes of a complete `PUBLISH` packet. -/
theorem fate_publish_fits (hready : Ready r) (htype : p.type = 3)
    (hfits : (r.holds p).TopicFits p.length p.qos)
    (hlt : (r.holds p).firstWord.toNat < 65534)
    (hspace : p.answer.isSome → r.client.output.checkSpace 2 = true) : Fate behind r p := by
  have hqueues := queues_publish behind hready htype hfits hlt
  have hanswer := answer_publish htype
  have hid : p.qos ≠ 0 → p.publishId = some ((r.holds p).topicId p.qos) :=
    fun hzero => publishId_of_fits r hzero hfits hlt
  rcases qos_cases p with hq | hq | hq | hq
  · rw [hq] at hanswer
    rw [if_pos hq] at hqueues
    refine .quiet (prompt_publish htype (fun _ => hlt) fun h => ?_) hanswer hqueues
    exact absurd (hq.symm.trans h) (by decide)
  · have hzero : p.qos ≠ 0 := hq ▸ by decide
    rw [if_pos hq, hid hzero, Option.map_some] at hanswer
    rw [if_neg hzero, if_pos (hspace (hanswer ▸ rfl)), if_pos hq] at hqueues
    refine .answered (prompt_publish htype (fun _ => hlt) fun h => ?_) (by decide) hanswer hqueues
    exact absurd (hq.symm.trans h) (by decide)
  · have hzero : p.qos ≠ 0 := hq ▸ by decide
    have hone : p.qos ≠ 1 := hq ▸ by decide
    rw [if_neg hone, if_pos hq, hid hzero, Option.map_some] at hanswer
    rw [if_neg hzero, if_pos (hspace (hanswer ▸ rfl)), if_neg hone] at hqueues
    refine .answered (prompt_publish htype (fun _ => hlt) fun h => ?_) (by decide) hanswer hqueues
    exact absurd (hq.symm.trans h) (by decide)
  · -- QoS 3 is none, and is answered like 2 when there is space
    have hzero : p.qos ≠ 0 := hq ▸ by decide
    rw [hq] at hanswer
    rw [if_neg hzero] at hqueues
    by_cases hroom : r.client.output.checkSpace 2 = true
    · rw [if_pos hroom] at hqueues
      refine .extra (fun h => ?_) ⟨hanswer, _, ⟨_, _, rfl, ?_⟩, hqueues⟩
      · have hno := h.qosThree htype hq (hid hzero ▸ rfl)
        rw [hroom] at hno
        cases hno
      · rw [hq]
        decide
    · rw [if_neg hroom] at hqueues
      refine .quiet (prompt_publish htype (fun _ => hlt) fun _ _ => ?_) hanswer hqueues
      exact Bool.not_eq_true _ ▸ hroom

/-- What becomes of a `PUBREC` packet: an identifier is found that may not be its own. -/
theorem fate_pubRec (hready : Ready r) (htype : p.type = 5)
    (hspace : p.answer.isSome → r.client.output.checkSpace 2 = true) : Fate behind r p := by
  have hqueues := queues_pubRec behind hready htype
  have hanswer : p.answer = p.ackId.map (.ack .pubRel) := by
    rw [Incoming.answer, htype]
    rfl
  have hprompt : (p.body.length < 2 → (r.holds p).firstWord ≠ 0 →
      r.client.output.checkSpace 2 = false) → Prompt r p := by
    intro h
    refine ⟨fun h6 => ?_, fun h3 => ?_, fun h3 => ?_, fun _ => h⟩
    · exact absurd (htype.symm.trans h6) (by decide)
    · exact absurd (htype.symm.trans h3) (by decide)
    · exact absurd (htype.symm.trans h3) (by decide)
  by_cases hlen : p.body.length < 2
  · rw [ackId_of_lt hlen, Option.map_none] at hanswer
    by_cases hzero : (r.holds p).firstWord = 0
    · rw [if_pos hzero] at hqueues
      exact .quiet (hprompt fun _ h => absurd hzero h) hanswer hqueues
    rw [if_neg hzero] at hqueues
    by_cases hroom : r.client.output.checkSpace 2 = true
    · rw [if_pos hroom] at hqueues
      refine .extra (fun h => ?_) ⟨hanswer, _, ⟨.pubRel, _, rfl, by decide⟩, hqueues⟩
      have hno := h.pubRec htype hlen hzero
      rw [hroom] at hno
      cases hno
    · rw [if_neg hroom] at hqueues
      exact .quiet (hprompt fun _ _ => Bool.not_eq_true _ ▸ hroom) hanswer hqueues
  · have hown : Prompt r p := hprompt fun h => absurd h hlen
    rw [ackId_of_le r (Nat.not_lt.mp hlen)] at hanswer
    by_cases hzero : (r.holds p).firstWord = 0
    · rw [if_pos hzero] at hanswer hqueues
      exact .quiet hown hanswer hqueues
    · rw [if_neg hzero, Option.map_some] at hanswer
      rw [if_neg hzero, if_pos (hspace (hanswer ▸ rfl))] at hqueues
      exact .answered hown (by decide) hanswer hqueues

variable (behind) in
/-- What becomes of every packet that is given to a ready client with space for its answer. -/
theorem fate (hready : Ready r)
    (hspace : p.answer.isSome → r.client.output.checkSpace 2 = true) : Fate behind r p := by
  by_cases hpublish : p.type = 3
  · by_cases hfits : (r.holds p).TopicFits p.length p.qos
    swap
    · exact fate_publish_short hready hpublish hfits
    by_cases hwraps : 65534 ≤ (r.holds p).firstWord.toNat
    · exact .undefined (fun h => absurd (h.wraps hpublish hfits) (Nat.not_lt.mpr hwraps))
        (takes_publish_wraps hpublish hfits hwraps)
    · exact fate_publish_fits hready hpublish hfits (Nat.not_le.mp hwraps) hspace
  by_cases hrec : p.type = 5
  · exact fate_pubRec hready hrec hspace
  have hqueues := queues_other behind hready hpublish hrec
  have hanswer : p.answer = if p.type = 6 then p.ackId.map (.ack .pubComp) else none := by
    rw [Incoming.answer, if_neg hpublish, if_neg hrec]
  have hprompt : (p.type = 6 → p.ackId = none) → Prompt r p := fun h =>
    ⟨h, fun h3 => absurd h3 hpublish, fun h3 => absurd h3 hpublish, fun h5 => absurd h5 hrec⟩
  by_cases hrel : p.type = 6
  · rw [if_pos hrel] at hanswer
    cases hid : p.ackId with
    | none =>
        rw [hid] at hanswer
        exact .quiet (hprompt fun _ => hid) hanswer hqueues
    | some id =>
        rw [hid] at hanswer
        refine .missing (fun h => ?_) ⟨⟨id, hanswer⟩, hqueues⟩
        have hno := h.pubRel hrel
        rw [hid] at hno
        cases hno
  · rw [if_neg hrel] at hanswer
    exact .quiet (hprompt fun h => absurd h hrel) hanswer hqueues

end Call

/-! ## Runs -/

section Run

variable {behind : List UInt8} {s t : HandshakeRun}

/-- The client is ready, and what is queued is what is owed. -/
structure Served (s : HandshakeRun) : Prop where
  ready : ∃ r, s.receiver = some r ∧ Ready r
  queued : s.queued = s.owed.map ControlPacket.bytes
  made : ∀ q ∈ s.owed, MadeAnswer q

/-- Something undefined has happened, or an answer has been left out, or there is one too many. -/
inductive Unserved (s : HandshakeRun) : Prop
  | undefined (h : s.receiver = none)
  | differs (r : Receiver) (replies : List ControlPacket) (hr : s.receiver = some r)
      (hready : Ready r) (hqueued : s.queued = replies.map ControlPacket.bytes)
      (hmade : ∀ q ∈ replies, MadeAnswer q)
      (h : (∃ id, .ack .pubComp id ∈ s.owed) ∨ s.owed.length < replies.length)

theorem served_init {r : Receiver} (h : Ready r) : Served (handshakeInit r) :=
  ⟨⟨r, rfl, h⟩, rfl, fun _ hq => nomatch hq⟩

/-- What is queued is not empty. -/
theorem filter_bytes (reply : Option ControlPacket) :
    [(reply.map ControlPacket.bytes).getD []].filter (· ≠ []) =
      reply.toList.map ControlPacket.bytes := by
  cases reply with
  | none => rfl
  | some q => rfl

/-- A step with a packet. -/
theorem step_of_queues {r : Receiver} {p : Incoming} {reply : Option ControlPacket}
    (hr : s.receiver = some r) (hq : Queues behind r p reply)
    (h : handshakeStep behind s (.message p) = some t) :
    (∃ u, t.receiver = some u ∧ Ready u) ∧ t.owed = s.owed ++ p.answer.toList ∧
      t.queued = s.queued ++ reply.toList.map ControlPacket.bytes := by
  obtain ⟨u, hready, htakes⟩ := hq
  have hstep := Option.some.inj h
  rw [hr, Option.bind_some, htakes] at hstep
  rw [← hstep]
  refine ⟨⟨u, rfl, hready⟩, rfl, ?_⟩
  show s.queued ++ [(reply.map ControlPacket.bytes).getD []].filter (· ≠ []) = _
  rw [filter_bytes]

theorem step_of_undefined {r : Receiver} {p : Incoming} (hr : s.receiver = some r)
    (hq : r.takes behind p = none) (h : handshakeStep behind s (.message p) = some t) :
    t.receiver = none := by
  have hstep := Option.some.inj h
  rw [hr, Option.bind_some, hq] at hstep
  rw [← hstep]
  rfl

theorem step_elsewhere {c : MqttClient} {r : Receiver} (hr : s.receiver = some r) (hready : Ready r)
    (h : handshakeStep behind s (.elsewhere c) = some t) :
    (∃ u, t.receiver = some u ∧ Ready u) ∧ t.owed = s.owed ∧ t.queued = s.queued := by
  rw [handshakeStep, hr] at h
  split at h
  · next hconnected =>
      rw [← Option.some.inj h]
      exact ⟨⟨_, rfl, hconnected, hready.dataCb, hready.pubCb⟩, rfl, rfl⟩
  · cases h

/-- A packet that is answered as it should be keeps the client served. -/
theorem Served.step {a : HandshakeEvent} (hs : Served s) (hspace : Spacious s a)
    (hok : PromptStep s a) (h : handshakeStep behind s a = some t) : Served t := by
  obtain ⟨⟨r, hr, hready⟩, hqueued, hmade⟩ := hs
  cases a with
  | elsewhere c =>
      obtain ⟨hkept, howed, hqueued'⟩ := step_elsewhere hr hready h
      exact ⟨hkept, by rw [hqueued', howed, hqueued], howed ▸ hmade⟩
  | message p =>
      rcases fate behind hready (hspace r hr) with ⟨-, hmade', hq⟩ | hno | hno | hno
      · obtain ⟨hkept, howed, hqueued'⟩ := step_of_queues hr hq h
        refine ⟨hkept, by rw [hqueued', howed, hqueued, List.map_append], fun q hmem => ?_⟩
        rw [howed, List.mem_append, Option.mem_toList] at hmem
        exact hmem.elim (hmade q) (hmade' q)
      · exact absurd (hok r hr) ‹_›
      · exact absurd (hok r hr) ‹_›
      · exact absurd (hok r hr) ‹_›

/-- Any other packet leaves it unserved. -/
theorem Served.breaks {a : HandshakeEvent} (hs : Served s) (hspace : Spacious s a)
    (hok : ¬ PromptStep s a) (h : handshakeStep behind s a = some t) : Unserved t := by
  obtain ⟨⟨r, hr, hready⟩, hqueued, hmade⟩ := hs
  cases a with
  | elsewhere c => exact absurd trivial hok
  | message p =>
      rcases fate behind hready (hspace r hr) with ⟨hprompt, -, -⟩ | ⟨-, hq⟩ |
        ⟨-, ⟨id, howes⟩, hq⟩ | ⟨-, howes, q, hq, hqueues⟩
      · refine absurd (fun s hs => ?_) hok
        rw [hr] at hs
        exact Option.some.inj hs ▸ hprompt
      · exact .undefined (step_of_undefined hr hq h)
      · obtain ⟨⟨u, hu, hready'⟩, howed, hqueued'⟩ := step_of_queues hr hq h
        refine .differs u s.owed hu hready' ?_ hmade (.inl ⟨id, ?_⟩)
        · rw [hqueued', hqueued]
          exact List.append_nil _
        · rw [howed, howes]
          exact List.mem_append_right _ (List.mem_singleton_self _)
      · obtain ⟨⟨u, hu, hready'⟩, howed, hqueued'⟩ := step_of_queues hr hqueues h
        refine .differs u (s.owed ++ [q]) hu hready' ?_ ?_ (.inr ?_)
        · rw [hqueued', hqueued, List.map_append]
          rfl
        · exact List.forall_mem_append.mpr ⟨hmade, fun q' hq' => List.mem_singleton.mp hq' ▸ hq⟩
        · rw [howed, howes, List.length_append, List.length_append]
          exact Nat.lt_succ_self _

/-- What has been left out, or is one too many, is not made good later. -/
theorem Unserved.step {a : HandshakeEvent} (hs : Unserved s) (hspace : Spacious s a)
    (h : handshakeStep behind s a = some t) : Unserved t := by
  rcases hs with hnone | ⟨r, replies, hr, hready, hqueued, hmade, hdiffer⟩
  · cases a with
    | elsewhere c =>
        rw [handshakeStep, hnone] at h
        split at h
        · exact .undefined (Option.some.inj h ▸ rfl)
        · cases h
    | message p =>
        have hstep := Option.some.inj h
        rw [hnone] at hstep
        exact .undefined (hstep ▸ rfl)
  cases a with
  | elsewhere c =>
      obtain ⟨⟨u, hu, hready'⟩, howed, hqueued'⟩ := step_elsewhere hr hready h
      exact .differs u replies hu hready' (hqueued'.trans hqueued) hmade (howed ▸ hdiffer)
  | message p =>
      rcases fate behind hready (hspace r hr) with ⟨-, hmade', hq⟩ | ⟨-, hq⟩ |
        ⟨-, ⟨id, howes⟩, hq⟩ | ⟨-, howes, q, hq, hqueues⟩
      · obtain ⟨⟨u, hu, hready'⟩, howed, hqueued'⟩ := step_of_queues hr hq h
        refine .differs u (replies ++ p.answer.toList) hu hready' ?_ ?_ ?_
        · rw [hqueued', hqueued, List.map_append]
        · exact List.forall_mem_append.mpr
            ⟨hmade, fun q hq => hmade' q (Option.mem_toList.mp hq)⟩
        · rw [howed]
          rcases hdiffer with ⟨id, hmem⟩ | hlt
          · exact .inl ⟨id, List.mem_append_left _ hmem⟩
          · rw [List.length_append, List.length_append]
            exact .inr (Nat.add_lt_add_right hlt _)
      · exact .undefined (step_of_undefined hr hq h)
      · obtain ⟨⟨u, hu, hready'⟩, howed, hqueued'⟩ := step_of_queues hr hq h
        refine .differs u replies hu hready' ?_ hmade (.inl ⟨id, ?_⟩)
        · rw [hqueued', hqueued]
          exact List.append_nil _
        · rw [howed, howes]
          exact List.mem_append_right _ (List.mem_singleton_self _)
      · obtain ⟨⟨u, hu, hready'⟩, howed, hqueued'⟩ := step_of_queues hr hqueues h
        refine .differs u (replies ++ [q]) hu hready' ?_ ?_ ?_
        · rw [hqueued', hqueued, List.map_append]
          rfl
        · exact List.forall_mem_append.mpr ⟨hmade, fun q' hq' => List.mem_singleton.mp hq' ▸ hq⟩
        · have howed' : t.owed = s.owed := by
            rw [howed, howes]
            exact List.append_nil _
          rw [howed']
          rcases hdiffer with hmem | hlt
          · exact .inl hmem
          · rw [List.length_append]
            exact .inr (Nat.lt_succ_of_lt hlt)

theorem Served.completed (hs : Served s) : Completed s := by
  obtain ⟨r, hr, -⟩ := hs.ready
  exact ⟨hr ▸ rfl, hs.queued⟩

theorem Unserved.not_completed (hs : Unserved s) : ¬ Completed s := by
  rintro ⟨hsome, heq⟩
  rcases hs with hnone | ⟨r, replies, -, -, hqueued, hmade, hdiffer⟩
  · rw [hnone] at hsome
    cases hsome
  rw [hqueued] at heq
  rcases hdiffer with ⟨id, hmem⟩ | hlt
  · have hbytes := List.mem_map_of_mem (f := ControlPacket.bytes) hmem
    rw [← heq] at hbytes
    obtain ⟨q, hq, hqbytes⟩ := List.mem_map.mp hbytes
    obtain ⟨kind, id', rfl, hkind⟩ := hmade q hq
    have hheader : ackHeader kind = ackHeader .pubComp := (List.cons.inj hqbytes).1
    cases kind with
    | pubComp => exact hkind rfl
    | pubAck => exact absurd hheader (by decide)
    | pubRec => exact absurd hheader (by decide)
    | pubRel => exact absurd hheader (by decide)
  · have hlen := congrArg List.length heq
    rw [List.length_map, List.length_map] at hlen
    exact absurd hlen.symm (Nat.ne_of_lt hlt)

/-- In every run of a ready client that finds space for the answers it owes, exactly these have
been queued if and only if every packet was one that is answered as it should be. -/
theorem handshakes_completed_iff (behind : List UInt8) (r : Receiver) (hready : Ready r)
    (as : List HandshakeEvent) (s : HandshakeRun)
    (h : Run (handshakeStep behind) Spacious (handshakeInit r) as s) :
    Completed s ↔ Run (handshakeStep behind) (fun s a => Spacious s a ∧ PromptStep s a)
      (handshakeInit r) as s := by
  have hcases := h.kept_or_broken_within
    (fun s a t hs hspace hok hstep => Served.step hs hspace hok hstep)
    (fun s a t hs hspace hok hstep => Served.breaks hs hspace hok hstep)
    (fun s a t hs hspace hstep => Unserved.step hs hspace hstep) (served_init hready)
  rcases hcases with ⟨hrun, hserved⟩ | ⟨hno, hunserved⟩
  · exact iff_of_true hserved.completed hrun
  · exact iff_of_false hunserved.not_completed hno

end Run

instance (s : HandshakeRun) (a : HandshakeEvent) : Decidable (Spacious s a) :=
  match a with
  | .message p => inferInstanceAs
      (Decidable (∀ r ∈ s.receiver, p.answer.isSome → r.client.output.checkSpace 2 = true))
  | .elsewhere _ => isTrue trivial

/-- A connected client with both callbacks. -/
def listener : Receiver where
  client := fresh
  cyclicTick := 0
  inpubPktId := 0
  inpubArg := 0
  dataCb := 0x1000
  pubCb := 0x2000
  msgIdx := 0
  rxBuffer := List.replicate rxBufferLen 0
  size := length_rxZeros

theorem ready_listener : Ready listener := ⟨rfl, by decide, by decide⟩

/-- `x` at the topic `a`, with QoS 1 and the identifier 7. -/
def publishX : Incoming := ⟨0x32, [0, 1, 0x61, 0, 7, 0x78], by decide⟩

/-- A `PUBREC` and a `PUBREL` packet. -/
def pubRecNine : Incoming := ⟨0x50, [0, 9], by decide⟩

def pubRelFive : Incoming := ⟨0x62, [0, 5], by decide⟩

theorem handshakes_completed_iff_publishX :
    ∃ s, Run (handshakeStep []) Spacious (handshakeInit listener)
        [.message publishX, .message pubRecNine] s ∧
      s.queued = [[0x40, 2, 0, 7], [0x62, 2, 0, 9]] ∧
      (Completed s ↔ Run (handshakeStep []) (fun s a => Spacious s a ∧ PromptStep s a)
        (handshakeInit listener) [.message publishX, .message pubRecNine] s) := by
  obtain ⟨s, hrun, hs⟩ := Run.exists_of_exec (handshakeStep []) Spacious (handshakeInit listener)
    [.message publishX, .message pubRecNine]
    (fun s => decide (s.queued = [[0x40, 2, 0, 7], [0x62, 2, 0, 9]])) (by decide +kernel)
  exact ⟨s, hrun, of_decide_eq_true hs,
    handshakes_completed_iff [] listener ready_listener _ s hrun⟩

/-- A `PUBREL` packet is not answered. -/
theorem pubRel_unanswered :
    ∃ s, Ready listener ∧ Run (handshakeStep []) Spacious (handshakeInit listener)
        [.message pubRelFive] s ∧
      s.owed = [.ack .pubComp 5] ∧ s.queued = [] ∧ ¬ Completed s := by
  obtain ⟨s, hrun, hs⟩ := Run.exists_of_exec (handshakeStep []) Spacious (handshakeInit listener)
    [.message pubRelFive] (fun s => decide (s.owed = [.ack .pubComp 5] ∧ s.queued = []))
    (by decide +kernel)
  obtain ⟨howed, hqueued⟩ := of_decide_eq_true hs
  refine ⟨s, ready_listener, hrun, howed, hqueued, fun hdone => ?_⟩
  have heq := hdone.2
  rw [howed, hqueued] at heq
  cases heq

end Lwip
