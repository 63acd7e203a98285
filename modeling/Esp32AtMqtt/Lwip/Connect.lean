import Esp32AtMqtt.Lwip.Publish

/-!
# Connecting and subscribing

`mqtt_client_connect` and `mqtt_sub_unsub` clear the ring, append their packet, and hand the buffer
to `rt_ESP32_write` with the size `remaining_length + 2`. That is the size of a packet whose length
field has one byte. The flags of the user name and the password are always set, and the QoS of a
subscription is always 1.
-/

namespace Lwip

open ControlPacket
open AtCmd (cString)

/-- `struct mqtt_connect_client_info_t`. The client identifier must be set by the caller. -/
structure ClientInfo where
  clientId : List UInt8
  clientUser : Option (List UInt8)
  clientPass : Option (List UInt8)
  keepAlive : UInt16
  willTopic : Option (List UInt8)
  willMsg : Option (List UInt8)
  willQos : UInt8
  willRetain : UInt8

/-- The string behind a pointer, when there is one. -/
def pointed (str : Option (List UInt8)) : List UInt8 := cString (str.getD [])

namespace ClientInfo

/-- The test for a will. -/
def hasWill (info : ClientInfo) : Bool := info.willTopic.isSome && info.willMsg.isSome

/-- `flags`. -/
def flags (info : ClientInfo) : UInt8 :=
  let flags : UInt8 := 0xc0
  let flags :=
    if info.hasWill then
      let flags := flags ||| 0x04
      let flags := flags ||| (info.willQos &&& 3) <<< 3
      if info.willRetain ≠ 0 then flags ||| 0x20 else flags
    else flags
  flags ||| 0x02

/-- `will_topic_len`. -/
def willTopicLen (info : ClientInfo) : UInt8 :=
  if info.hasWill then UInt8.ofNat (pointed info.willTopic).length else 0

/-- `will_msg_len`. -/
def willMsgLen (info : ClientInfo) : UInt8 :=
  if info.hasWill then UInt8.ofNat (pointed info.willMsg).length else 0

/-- `client_id_length`. -/
def clientIdLength (info : ClientInfo) : UInt16 := UInt16.ofNat (cString info.clientId).length

/-- `client_user_length`. -/
def clientUserLength (info : ClientInfo) : UInt16 := UInt16.ofNat (pointed info.clientUser).length

/-- `Client_key_length`. -/
def clientKeyLength (info : ClientInfo) : UInt16 := UInt16.ofNat (pointed info.clientPass).length

/-- `remaining_length`. -/
def remainingLength (info : ClientInfo) : UInt16 :=
  let remainingLength : UInt16 := 2 + 4 + 1 + 1 + 2
  let remainingLength :=
    if info.hasWill then
      UInt16.ofNat
        (remainingLength.toNat + 2 + info.willTopicLen.toNat + 2 + info.willMsgLen.toNat)
    else remainingLength
  let remainingLength :=
    UInt16.ofNat (remainingLength.toNat + 2 + info.clientIdLength.toNat)
  let remainingLength :=
    if info.clientUser.isSome then remainingLength + info.clientUserLength + 2
    else remainingLength
  if info.clientPass.isSome then remainingLength + info.clientKeyLength + 2 else remainingLength

/-- The part of `mqtt_client_connect` that appends the packet. -/
def appendTo (info : ClientInfo) (rb : Ringbuf) : Ringbuf :=
  let rb := rb.appendFixedHeader 1 0 0 0 info.remainingLength
  let rb := rb.appendString [0x4D, 0x51, 0x54, 0x54] 4
  let rb := rb.appendU8 4
  let rb := rb.appendU8 info.flags
  let rb := rb.appendU16 info.keepAlive
  let rb := rb.appendString (cString info.clientId) info.clientIdLength
  let rb :=
    if info.flags &&& 0x04 ≠ 0 then
      (rb.appendString (pointed info.willTopic) info.willTopicLen.toUInt16).appendString
        (pointed info.willMsg) info.willMsgLen.toUInt16
    else rb
  let rb :=
    if info.clientUser.isSome then
      rb.appendString (pointed info.clientUser) info.clientUserLength
    else rb
  if info.clientPass.isSome then rb.appendString (pointed info.clientPass) info.clientKeyLength
  else rb

end ClientInfo

/-- The ring behind `memset(client, 0, …)`. -/
def Ringbuf.zero : Ringbuf := ⟨0, 0, List.replicate ringbufSize 0, length_zeros⟩

/-- The ring behind the `memset` of `mqtt_sub_unsub`, which clears 256 bytes from `put` on: the two
indexes and all but the last four bytes of the buffer. -/
def Ringbuf.wiped (rb : Ringbuf) : Ringbuf where
  put := 0
  get := 0
  buf := List.replicate 252 0 ++ rb.buf.drop 252
  size := by
    rw [List.length_append, List.length_replicate, List.length_drop, rb.size]
    rfl

/-- `mqtt_client_connect(client, …, cb, arg, client_info)`: the client behind it, the result, and
the buffer and the size that it hands to `rt_ESP32_write`. -/
def mqttClientConnect (c : MqttClient) (cb arg : UInt32) (info : ClientInfo) :
    MqttClient × Err × Option (List UInt8 × ℕ) :=
  if c.connState ≠ .tcpDisconnected then (c, .isConn, none)
  else
    let c : MqttClient := {
      keepAlive := info.keepAlive
      pktIdSeq := 0
      connState := .tcpDisconnected
      connectArg := arg
      connectCb := cb
      pendReqQueue := []
      reqList := List.replicate 4 none
      output := .zero }
    if c.output.checkSpace info.remainingLength then
      let rb := info.appendTo c.output
      ({ c with connState := .mqttConnecting, output := rb }, .ok,
        some (rb.buf, info.remainingLength.toNat + 2))
    else (c, .mem, none)

/-- The arguments of `mqtt_sub_unsub` that it uses, and what is in `r`, which it does not set. -/
structure SubCall where
  topic : List UInt8
  qos : UInt8
  sub : UInt8
  r : UInt32

namespace SubCall

/-- `topic_len`. -/
def topicLen (a : SubCall) : UInt16 := UInt16.ofNat (cString a.topic).length

/-- `remaining_length`. -/
def remainingLength (a : SubCall) : UInt16 :=
  UInt16.ofNat (a.topicLen.toNat + 2 + 2 + if a.sub ≠ 0 then 1 else 0)

/-- The part of `mqtt_sub_unsub` that appends the packet. -/
def appendTo (a : SubCall) (rb : Ringbuf) (pktId : UInt16) : Ringbuf :=
  let rb := rb.appendFixedHeader (if a.sub ≠ 0 then 8 else 10) 0 1 0 a.remainingLength
  let rb := rb.appendU16 pktId
  let rb := rb.appendString (cString a.topic) a.topicLen
  if a.sub ≠ 0 then rb.appendU8 1 else rb

end SubCall

/-- `mqtt_sub_unsub(client, …)`, likewise. When there is no space it clears a link behind `r`,
wherever that points. -/
def mqttSubUnsub (c : MqttClient) (a : SubCall) :
    MqttClient × Err × Option (List UInt8 × ℕ) :=
  let c := { c with output := c.output.wiped }
  if c.connState = .tcpDisconnected then (c, .conn, none)
  else
    let pktId := msgGeneratePacketId c.pktIdSeq
    let c := { c with pktIdSeq := pktId }
    if a.r = 0 then (c, .mem, none)
    else if c.output.checkSpace a.remainingLength then
      let rb := a.appendTo c.output pktId
      ({ c with output := rb }, .ok, some (rb.buf, a.remainingLength.toNat + 2))
    else (c, .mem, none)

/-- The calls in question. -/
inductive HandCall
  | connect (cb arg : UInt32) (info : ClientInfo)
  | subUnsub (a : SubCall)

namespace HandCall

def run (c : MqttClient) : HandCall → MqttClient × Err × Option (List UInt8 × ℕ)
  | connect cb arg info => mqttClientConnect c cb arg info
  | subUnsub a => mqttSubUnsub c a

/-- The ring that a call starts with. -/
def start (c : MqttClient) : HandCall → Ringbuf
  | connect .. => .zero
  | subUnsub _ => c.output.wiped

end HandCall

/-- What a string is appended as. -/
def counted (str : List UInt8) (length : UInt16) : List UInt8 :=
  be16 length ++ str.take length.toNat

/-- What `mqtt_client_connect` appends behind the length field. -/
def ClientInfo.rest (info : ClientInfo) : List UInt8 :=
  counted [0x4D, 0x51, 0x54, 0x54] 4 ++ ([4, info.flags] ++ (be16 info.keepAlive ++
    (counted (cString info.clientId) info.clientIdLength ++
      ((if info.hasWill then
          counted (pointed info.willTopic) info.willTopicLen.toUInt16 ++
            counted (pointed info.willMsg) info.willMsgLen.toUInt16
        else []) ++
        ((if info.clientUser.isSome then
            counted (pointed info.clientUser) info.clientUserLength
          else []) ++
          (if info.clientPass.isSome then
            counted (pointed info.clientPass) info.clientKeyLength
          else []))))))

/-- What `mqtt_sub_unsub` appends behind the length field. -/
def SubCall.rest (a : SubCall) (pktId : UInt16) : List UInt8 :=
  be16 pktId ++ (counted (cString a.topic) a.topicLen ++ if a.sub ≠ 0 then [1] else [])

/-- The will that is asked for. -/
def ClientInfo.will (info : ClientInfo) : Option Will :=
  if info.hasWill then
    some ⟨pointed info.willTopic, pointed info.willMsg, info.willQos, info.willRetain ≠ 0⟩
  else none

/-- The packet that is asked for. -/
def ClientInfo.packet (info : ClientInfo) : ControlPacket :=
  .connect true info.keepAlive (cString info.clientId) info.will (info.clientUser.map cString)
    (info.clientPass.map cString)

def SubCall.packet (a : SubCall) (pktId : UInt16) : ControlPacket :=
  if a.sub ≠ 0 then .subscribe pktId (cString a.topic) a.qos
  else .unsubscribe pktId (cString a.topic)

namespace HandCall

/-- What a call appends. -/
def appended (c : MqttClient) : HandCall → List UInt8
  | connect _ _ info => 0x10 :: (Base128.encode info.remainingLength.toNat ++ info.rest)
  | subUnsub a =>
      (if a.sub ≠ 0 then 0x82 else 0xA2) ::
        (Base128.encode a.remainingLength.toNat ++ a.rest (msgGeneratePacketId c.pktIdSeq))

/-- The packet that a call asks for. -/
def packet (c : MqttClient) : HandCall → ControlPacket
  | connect _ _ info => info.packet
  | subUnsub a => a.packet (msgGeneratePacketId c.pktIdSeq)

/-- What a call hands over is what it has appended to the ring, from the first byte to the last, and
that is well formed and decodes to what the call asked for, and to nothing else. -/
structure HandsPacket (c : MqttClient) (a : HandCall) : Prop where
  ring : (a.run c).1.output = (a.start c).append (a.appended c)
  handed : (a.run c).2.2.map (fun w => (w.1.take w.2, w.2)) =
    some (a.appended c, (a.appended c).length)
  decodes : ∀ p, Decodes (a.appended c) p ↔ p = a.packet c

/-- The length field of the packet has one byte. A `CONNECT` has a user name, a password, and a will
with a QoS that there is; a `SUBSCRIBE` asks for QoS 1. -/
def Suits (c : MqttClient) (a : HandCall) : Prop :=
  (a.packet c).body.length < 128 ∧
    match a with
    | connect _ _ info =>
        info.clientUser.isSome ∧ info.clientPass.isSome ∧ ∀ w ∈ info.will, w.qos ≤ 2
    | subUnsub a => a.sub ≠ 0 → a.qos = 1

end HandCall

/-! ## What is appended -/

theorem ClientInfo.flags_of_hasWill {info : ClientInfo} (h : info.hasWill = true) :
    info.flags = (if info.willRetain ≠ 0 then (0xc4 : UInt8) ||| (info.willQos &&& 3) <<< 3 ||| 0x20
      else (0xc4 : UInt8) ||| (info.willQos &&& 3) <<< 3) ||| 0x02 := by
  have hwill : (0xc0 : UInt8) ||| 0x04 = 0xc4 := by decide
  simp only [flags, if_pos h, hwill]

theorem ClientInfo.flags_of_noWill {info : ClientInfo} (h : info.hasWill = false) :
    info.flags = 0xc2 := by
  simp only [flags, h, Bool.false_eq_true, if_false]
  decide

/-- The flag of the will says whether there is one. -/
theorem ClientInfo.flags_will (info : ClientInfo) :
    info.flags &&& 0x04 ≠ 0 ↔ info.hasWill = true := by
  cases h : info.hasWill with
  | false =>
      rw [ClientInfo.flags_of_noWill h]
      decide
  | true =>
      have hall : ∀ n : Fin 256,
          ((0xc4 : UInt8) ||| (UInt8.ofNat n.val &&& 3) <<< 3 ||| 0x20 ||| 0x02) &&& 0x04 ≠ 0 ∧
            ((0xc4 : UInt8) ||| (UInt8.ofNat n.val &&& 3) <<< 3 ||| 0x02) &&& 0x04 ≠ 0 := by
        decide +kernel
      have hqos := hall ⟨info.willQos.toNat, info.willQos.toNat_lt⟩
      rw [UInt8.ofNat_toNat] at hqos
      rw [ClientInfo.flags_of_hasWill h, iff_true_right rfl]
      split_ifs
      · exact hqos.1
      · exact hqos.2

theorem ClientInfo.appendTo_eq (info : ClientInfo) (rb : Ringbuf) :
    info.appendTo rb =
      rb.append (0x10 :: (Base128.encode info.remainingLength.toNat ++ info.rest)) := by
  have hcontrol : controlByte 1 0 0 0 = 0x10 := by decide
  have hwill : ∀ rb : Ringbuf, (if info.flags &&& 0x04 ≠ 0 then
      (rb.appendString (pointed info.willTopic) info.willTopicLen.toUInt16).appendString
        (pointed info.willMsg) info.willMsgLen.toUInt16 else rb) =
      rb.append (if info.hasWill then
        counted (pointed info.willTopic) info.willTopicLen.toUInt16 ++
          counted (pointed info.willMsg) info.willMsgLen.toUInt16 else []) := by
    intro rb
    by_cases h : info.hasWill = true
    · rw [if_pos (info.flags_will.mpr h), if_pos h, Ringbuf.appendString_eq,
        Ringbuf.appendString_eq, Ringbuf.append_append]
      rfl
    · rw [if_neg (info.flags_will.not.mpr h), if_neg h]
      rfl
  have hstr : ∀ (rb : Ringbuf) (str : Option (List UInt8)) (length : UInt16),
      (if str.isSome then rb.appendString (pointed str) length else rb) =
        rb.append (if str.isSome then counted (pointed str) length else []) := by
    intro rb str length
    split_ifs
    · exact rb.appendString_eq _ _
    · rfl
  simp only [appendTo, hwill, hstr]
  rw [Ringbuf.appendFixedHeader_eq, hcontrol, Ringbuf.appendString_eq, Ringbuf.appendString_eq,
    Ringbuf.appendU16_eq, Ringbuf.appendU8, Ringbuf.appendU8]
  simp only [Ringbuf.append_append]
  congr 1
  simp only [rest, counted, List.append_assoc, List.cons_append, List.nil_append]

theorem SubCall.appendTo_eq (a : SubCall) (rb : Ringbuf) (pktId : UInt16) :
    a.appendTo rb pktId = rb.append ((if a.sub ≠ 0 then 0x82 else 0xA2) ::
      (Base128.encode a.remainingLength.toNat ++ a.rest pktId)) := by
  have hcontrol : controlByte (if a.sub ≠ 0 then 8 else 10) 0 1 0 =
      if a.sub ≠ 0 then 0x82 else 0xA2 := by
    split_ifs <;> decide
  have hqos : ∀ rb : Ringbuf, (if a.sub ≠ 0 then rb.appendU8 1 else rb) =
      rb.append (if a.sub ≠ 0 then [1] else []) := by
    intro rb
    split_ifs <;> rfl
  simp only [appendTo, hqos]
  rw [Ringbuf.appendFixedHeader_eq, hcontrol, Ringbuf.appendString_eq, Ringbuf.appendU16_eq]
  simp only [Ringbuf.append_append]
  congr 1
  simp only [rest, counted, List.append_assoc, List.cons_append]

/-- Of a packet whose length field is that of `remaining_length`, the first `remaining_length + 2`
bytes are the whole exactly when the field has one byte. -/
theorem handed_iff {rb : Ringbuf} (hput : rb.put.toNat % ringbufSize = 0) {header : UInt8}
    {rest : List UInt8} {r : UInt16} {p : ControlPacket} :
    (((rb.append (header :: (Base128.encode r.toNat ++ rest))).buf.take (r.toNat + 2) =
        header :: (Base128.encode r.toNat ++ rest) ∧
      r.toNat + 2 = (header :: (Base128.encode r.toNat ++ rest)).length) ∧
        Decodes (header :: (Base128.encode r.toNat ++ rest)) p) ↔
      p.WellFormed ∧ p.header = header ∧ p.body = rest ∧ r.toNat = p.body.length ∧
        p.body.length < 128 := by
  constructor
  · rintro ⟨⟨-, hsize⟩, hwell, hbytes⟩
    obtain ⟨hheader, hrest⟩ := List.cons.inj hbytes
    obtain ⟨hlen, hbody⟩ := Base128.encode_append_encode_inj hrest
    refine ⟨hwell, hheader, hbody, hlen.symm, ?_⟩
    rw [List.length_cons, List.length_append, ← hbody, ← hlen] at hsize
    exact (Base128.length_encode_le_iff 0 _).mp (by omega)
  · rintro ⟨hwell, rfl, rfl, hlen, hshort⟩
    have hsize : (p.header :: (Base128.encode r.toNat ++ p.body)).length = r.toNat + 2 := by
      rw [List.length_cons, List.length_append, hlen, Base128.encode_of_lt hshort,
        List.length_singleton, Nat.add_comm 1]
    have hroom : (p.header :: (Base128.encode r.toNat ++ p.body)).length ≤ ringbufSize := by
      rw [hsize, hlen, ringbufSize]
      omega
    refine ⟨⟨?_, hsize.symm⟩, hwell, ?_⟩
    · rw [← hsize]
      exact Ringbuf.take_append hput hroom
    · rw [bytes, hlen]

/-! ## Connecting -/

/-- A will with a QoS that there is gets its flags, but those of the login are always set. -/
theorem ClientInfo.flags_eq {info : ClientInfo} (hqos : ∀ w ∈ info.will, w.qos ≤ 2) :
    info.flags = connectFlags true (info.will.map fun w => (w.qos, w.retain)) true true := by
  cases h : info.hasWill with
  | false =>
      have hnone : info.will = none := by
        rw [ClientInfo.will, h]
        rfl
      rw [ClientInfo.flags_of_noWill h, hnone]
      decide
  | true =>
      have hsome : info.will = some ⟨pointed info.willTopic, pointed info.willMsg, info.willQos,
          info.willRetain ≠ 0⟩ := if_pos h
      have hlt : info.willQos.toNat < 3 :=
        Nat.lt_succ_of_le (UInt8.le_iff_toNat_le.mp (hqos _ hsome))
      have hall : ∀ q : Fin 3,
          (0xc4 : UInt8) ||| (UInt8.ofNat q.val &&& 3) <<< 3 ||| 0x20 ||| 0x02 =
              connectFlags true (some (UInt8.ofNat q.val, true)) true true ∧
            (0xc4 : UInt8) ||| (UInt8.ofNat q.val &&& 3) <<< 3 ||| 0x02 =
              connectFlags true (some (UInt8.ofNat q.val, false)) true true := by
        decide
      have hfin := hall ⟨info.willQos.toNat, hlt⟩
      rw [UInt8.ofNat_toNat] at hfin
      rw [ClientInfo.flags_of_hasWill h, hsome, Option.map_some]
      by_cases hretain : info.willRetain ≠ 0
      · rw [if_pos hretain, decide_eq_true hretain]
        exact hfin.1
      · rw [if_neg hretain, decide_eq_false hretain]
        exact hfin.2

/-- A string whose length is not cut. -/
theorem counted_eq {str : List UInt8} {length : UInt16} (h : length.toNat = str.length) :
    counted str length = text str := by
  rw [counted, text, ← h, UInt16.ofNat_toNat, h, List.take_length]

theorem toNat_ofNat_length (str : List UInt8) (h : str.length < 128) :
    (UInt16.ofNat str.length).toNat = str.length := by
  rw [UInt16.toNat_ofNat', Nat.mod_eq_of_lt (Nat.lt_trans h (by decide))]

theorem toNat_ofNat_length8 (str : List UInt8) (h : str.length < 128) :
    (UInt8.ofNat str.length).toUInt16.toNat = str.length := by
  rw [UInt8.toNat_toUInt16, UInt8.toNat_ofNat', Nat.mod_eq_of_lt (Nat.lt_trans h (by decide))]

/-- The bytes of the will. -/
def ClientInfo.willBytes (info : ClientInfo) : List UInt8 :=
  (info.will.map fun w => text w.topic ++ text w.message).getD []

/-- The will of a short packet is appended, and counted, as it is. -/
theorem ClientInfo.will_counted {info : ClientInfo} (h : info.willBytes.length < 128) :
    (if info.hasWill then
        counted (pointed info.willTopic) info.willTopicLen.toUInt16 ++
          counted (pointed info.willMsg) info.willMsgLen.toUInt16 else []) = info.willBytes ∧
      (if info.hasWill then
        (10 + 2 + info.willTopicLen.toNat + 2 + info.willMsgLen.toNat) else 10) =
        10 + info.willBytes.length := by
  rw [willBytes, will] at h ⊢
  by_cases hw : info.hasWill = true
  · simp only [if_pos hw, Option.map_some, Option.getD_some, List.length_append,
      length_text] at h ⊢
    have htopic := toNat_ofNat_length8 (pointed info.willTopic) (by omega)
    have hmsg := toNat_ofNat_length8 (pointed info.willMsg) (by omega)
    rw [willTopicLen, willMsgLen, if_pos hw, if_pos hw, counted_eq htopic, counted_eq hmsg]
    rw [UInt8.toNat_toUInt16] at htopic hmsg
    exact ⟨rfl, by omega⟩
  · rw [if_neg hw, if_neg hw, if_neg hw]
    exact ⟨rfl, rfl⟩

section Login

variable {info : ClientInfo} {user password : List UInt8} (huser : info.clientUser = some user)
  (hpassword : info.clientPass = some password)

include huser hpassword

theorem length_connect : info.packet.body.length =
    10 + ((2 + (cString info.clientId).length) + (info.willBytes.length +
      ((2 + (cString user).length) + (2 + (cString password).length)))) := by
  have hbody : info.packet.body = (text [0x4D, 0x51, 0x54, 0x54] ++
      [4, connectFlags true (info.will.map fun w => (w.qos, w.retain)) true true] ++
        be16 info.keepAlive) ++ (text (cString info.clientId) ++ (info.willBytes ++
          (text (cString user) ++ text (cString password)))) := by
    simp only [ClientInfo.packet, huser, hpassword, body, List.append_assoc]
    rfl
  rw [hbody]
  simp only [List.length_append, length_text]
  rfl

/-- The lengths of a short packet are counted as they are. -/
theorem remainingLength_connect (hshort : info.packet.body.length < 128) :
    info.remainingLength.toNat = info.packet.body.length := by
  rw [length_connect huser hpassword] at hshort ⊢
  have hid := toNat_ofNat_length (cString info.clientId) (by omega)
  have huserLen := toNat_ofNat_length (cString user) (by omega)
  have hpasswordLen := toNat_ofNat_length (cString password) (by omega)
  have hwill : (if info.hasWill then
      UInt16.ofNat ((2 + 4 + 1 + 1 + 2 : UInt16).toNat + 2 + info.willTopicLen.toNat + 2 +
        info.willMsgLen.toNat) else 2 + 4 + 1 + 1 + 2).toNat = 10 + info.willBytes.length := by
    have hcount := (ClientInfo.will_counted (by omega : info.willBytes.length < 128)).2
    have hten : (2 + 4 + 1 + 1 + 2 : UInt16).toNat = 10 := by decide
    rw [hten]
    split_ifs at hcount ⊢
    · rw [hcount, UInt16.toNat_ofNat']
      exact Nat.mod_eq_of_lt (by omega)
    · exact hten.trans hcount
  simp only [ClientInfo.remainingLength, ClientInfo.clientIdLength, ClientInfo.clientUserLength,
    ClientInfo.clientKeyLength, huser, hpassword, Option.isSome_some, if_true, hwill, hid]
  have huser' : (UInt16.ofNat (pointed (some user)).length).toNat = (cString user).length :=
    huserLen
  have hpassword' : (UInt16.ofNat (pointed (some password)).length).toNat =
      (cString password).length := hpasswordLen
  have htwo : (2 : UInt16).toNat = 2 := rfl
  simp only [UInt16.toNat_add, huser', hpassword', UInt16.toNat_ofNat', htwo]
  omega

/-- What is appended for a short packet is its body. -/
theorem rest_connect (hshort : info.packet.body.length < 128)
    (hqos : ∀ w ∈ info.will, w.qos ≤ 2) : info.rest = info.packet.body := by
  have hlen := length_connect huser hpassword
  have hid : counted (cString info.clientId) info.clientIdLength = text (cString info.clientId) :=
    counted_eq (toNat_ofNat_length _ (by omega))
  have huserText : counted (cString user) (UInt16.ofNat (cString user).length) =
      text (cString user) := counted_eq (toNat_ofNat_length _ (by omega))
  have hpasswordText : counted (cString password) (UInt16.ofNat (cString password).length) =
      text (cString password) := counted_eq (toNat_ofNat_length _ (by omega))
  have hwill := (ClientInfo.will_counted (by omega : info.willBytes.length < 128)).1
  rw [ClientInfo.rest, hid, hwill, ClientInfo.flags_eq hqos]
  simp only [ClientInfo.clientUserLength, ClientInfo.clientKeyLength, ClientInfo.packet, huser,
    hpassword, Option.isSome_some, if_true, pointed, Option.getD_some, huserText, hpasswordText]
  rfl

/-- A short packet with a login is well formed. -/
theorem wellFormed_connect (hshort : info.packet.body.length < 128)
    (hqos : ∀ w ∈ info.will, w.qos ≤ 2) : info.packet.WellFormed := by
  have hlen := length_connect huser hpassword
  have hfits : ∀ {str : List UInt8}, str.length < 128 → Fits str :=
    fun h => Nat.lt_trans h (by decide)
  have hwill : ∀ w ∈ info.will, Fits w.topic ∧ Fits w.message ∧ w.qos ≤ 2 := by
    intro w hw
    have hbytes : info.willBytes = text w.topic ++ text w.message := by
      rw [ClientInfo.willBytes, hw]
      rfl
    rw [hbytes, List.length_append, length_text, length_text] at hlen
    exact ⟨hfits (by omega), hfits (by omega), hqos w hw⟩
  simp only [ClientInfo.packet, huser, hpassword]
  refine ⟨hfits (by omega), hwill, ?_, ?_, fun _ => rfl⟩
  · rintro str ⟨⟩
    exact hfits (by omega)
  · rintro str ⟨⟩
    exact hfits (by omega)

end Login

/-- The flags of a packet that decodes to what was asked for. -/
theorem login_of_rest {info : ClientInfo} (hwell : info.packet.WellFormed)
    (hbody : info.packet.body = info.rest) :
    info.clientUser.isSome = true ∧ info.clientPass.isSome = true ∧
      ∀ w ∈ info.will, w.qos ≤ 2 := by
  have hqos : ∀ w ∈ info.will, w.qos ≤ 2 := fun w hw => (hwell.2.1 w hw).2.2
  have hqos' : ∀ w ∈ info.will.map (fun w => (w.qos, w.retain)), w.1 ≤ 2 := by
    intro w hw
    obtain ⟨v, hv, rfl⟩ := Option.mem_map.mp hw
    exact hqos v hv
  have hfixed := List.append_cancel_left hbody
  have hflags := (List.cons.inj (List.cons.inj hfixed).2).1
  rw [ClientInfo.flags_eq hqos] at hflags
  have hread := congrArg readFlags hflags
  rw [readFlags_connectFlags _ hqos', readFlags_connectFlags _ hqos'] at hread
  have hlogin := (Prod.mk.inj (Prod.mk.inj hread).2).2
  obtain ⟨huser, hpassword⟩ := Prod.mk.inj hlogin
  rw [Option.isSome_map] at huser hpassword
  exact ⟨huser, hpassword, hqos⟩

/-- When a `CONNECT` is what is appended, with a length field of one byte. -/
theorem connect_suits (info : ClientInfo) :
    (info.packet.WellFormed ∧ info.packet.header = 0x10 ∧ info.packet.body = info.rest ∧
        info.remainingLength.toNat = info.packet.body.length ∧ info.packet.body.length < 128) ↔
      info.packet.body.length < 128 ∧ info.clientUser.isSome = true ∧
        info.clientPass.isSome = true ∧ ∀ w ∈ info.will, w.qos ≤ 2 := by
  constructor
  · rintro ⟨hwell, -, hbody, -, hshort⟩
    exact ⟨hshort, login_of_rest hwell hbody⟩
  · rintro ⟨hshort, huser, hpassword, hqos⟩
    obtain ⟨user, huser⟩ := Option.isSome_iff_exists.mp huser
    obtain ⟨password, hpassword⟩ := Option.isSome_iff_exists.mp hpassword
    exact ⟨wellFormed_connect huser hpassword hshort hqos, rfl,
      (rest_connect huser hpassword hshort hqos).symm,
      remainingLength_connect huser hpassword hshort, hshort⟩

/-! ## Subscribing -/

theorem length_subUnsub (a : SubCall) (pktId : UInt16) : (a.packet pktId).body.length =
    (cString a.topic).length + 4 + if a.sub ≠ 0 then 1 else 0 := by
  rw [SubCall.packet]
  split_ifs
  · show (be16 pktId ++ (text (cString a.topic) ++ [a.qos])).length = _
    rw [List.length_append, List.length_append, length_text]
    show 2 + (_ + 1) = _
    omega
  · show (be16 pktId ++ text (cString a.topic)).length = _
    rw [List.length_append, length_text]
    show 2 + _ = _
    omega

/-- The lengths of a short packet are counted as they are. -/
theorem lengths_subUnsub {a : SubCall} {pktId : UInt16}
    (hshort : (a.packet pktId).body.length < 128) :
    a.topicLen.toNat = (cString a.topic).length ∧
      a.remainingLength.toNat = (a.packet pktId).body.length := by
  rw [length_subUnsub] at hshort ⊢
  have htopic : a.topicLen.toNat = (cString a.topic).length := toNat_ofNat_length _ (by omega)
  refine ⟨htopic, ?_⟩
  rw [SubCall.remainingLength, UInt16.toNat_ofNat', htopic]
  split_ifs <;> omega

/-- When a `SUBSCRIBE` or an `UNSUBSCRIBE` is what is appended, with a length field of one byte. -/
theorem subUnsub_suits (a : SubCall) {pktId : UInt16} (hid : pktId ≠ 0) :
    ((a.packet pktId).WellFormed ∧ (a.packet pktId).header = (if a.sub ≠ 0 then 0x82 else 0xA2) ∧
        (a.packet pktId).body = a.rest pktId ∧
        a.remainingLength.toNat = (a.packet pktId).body.length ∧
        (a.packet pktId).body.length < 128) ↔
      (a.packet pktId).body.length < 128 ∧ (a.sub ≠ 0 → a.qos = 1) := by
  by_cases hshort : (a.packet pktId).body.length < 128
  · obtain ⟨htopic, hcount⟩ := lengths_subUnsub hshort
    have hfits : Fits (cString a.topic) := by
      rw [Fits, ← htopic]
      exact a.topicLen.toNat_lt
    simp only [hshort, hcount, and_true, true_and, SubCall.rest, counted_eq htopic]
    rw [SubCall.packet]
    by_cases hsub : a.sub ≠ 0
    · simp only [if_pos hsub]
      constructor
      · rintro ⟨-, -, hbody⟩ -
        obtain ⟨-, hrest⟩ := be16_append_inj hbody
        exact (List.cons.inj (List.append_cancel_left hrest)).1
      · intro hqos
        have hone := hqos hsub
        refine ⟨⟨hid, hfits, ?_⟩, rfl, ?_⟩
        · rw [hone]
          decide
        · rw [hone]
          rfl
    · simp only [if_neg hsub]
      refine iff_of_true ⟨⟨hid, hfits⟩, rfl, ?_⟩ fun h => absurd h hsub
      rw [List.append_nil]
      rfl
  · exact iff_of_false (fun h => hshort h.2.2.2.2) fun h => hshort h.1

/-! ## Handing over -/

namespace HandCall

/-- A call of `mqtt_client_connect` that succeeds. -/
theorem connect_of_ok {c : MqttClient} {cb arg : UInt32} {info : ClientInfo}
    (h : (mqttClientConnect c cb arg info).2.1 = .ok) :
    (mqttClientConnect c cb arg info).1.output = info.appendTo .zero ∧
      (mqttClientConnect c cb arg info).2.2 =
        some ((info.appendTo .zero).buf, info.remainingLength.toNat + 2) := by
  simp only [mqttClientConnect] at h ⊢
  split_ifs at h ⊢
  exact ⟨rfl, rfl⟩

/-- A call of `mqtt_sub_unsub` that succeeds. -/
theorem subUnsub_of_ok {c : MqttClient} {a : SubCall} (h : (mqttSubUnsub c a).2.1 = .ok) :
    (mqttSubUnsub c a).1.output =
        a.appendTo c.output.wiped (msgGeneratePacketId c.pktIdSeq) ∧
      (mqttSubUnsub c a).2.2 =
        some ((a.appendTo c.output.wiped (msgGeneratePacketId c.pktIdSeq)).buf,
          a.remainingLength.toNat + 2) := by
  simp only [mqttSubUnsub] at h ⊢
  split_ifs at h ⊢
  exact ⟨rfl, rfl⟩

/-- A short packet is not refused for want of space. -/
theorem checkSpace_of_short {rb : Ringbuf} (hempty : rb.put = rb.get) {r : UInt16} {n : ℕ}
    (hr : r.toNat = n) (hshort : n < 128) : rb.checkSpace r = true := by
  apply Ringbuf.checkSpace_of_le hempty
  rw [hr, Base128.encode_of_lt hshort, List.length_singleton, ringbufSize]
  omega

/-- On a disconnected client a `CONNECT` that suits is sent. -/
theorem connect_ok {c : MqttClient} {cb arg : UInt32} {info : ClientInfo}
    (hstate : c.connState = .tcpDisconnected) (h : Suits c (.connect cb arg info)) :
    ((connect cb arg info).run c).2.1 = .ok := by
  obtain ⟨hshort, huser, hpassword, -⟩ := h
  obtain ⟨user, huser⟩ := Option.isSome_iff_exists.mp huser
  obtain ⟨password, hpassword⟩ := Option.isSome_iff_exists.mp hpassword
  have hspace : Ringbuf.zero.checkSpace info.remainingLength = true :=
    checkSpace_of_short rfl (remainingLength_connect huser hpassword hshort) hshort
  simp only [run, mqttClientConnect, hstate, ne_eq, not_true, if_false, hspace, if_true]

/-- On a client that is not disconnected, a subscription that suits is sent when `r` happens not to
be `NULL`. -/
theorem subUnsub_ok {c : MqttClient} {a : SubCall} (hstate : c.connState ≠ .tcpDisconnected)
    (hr : a.r ≠ 0) (h : Suits c (.subUnsub a)) : ((subUnsub a).run c).2.1 = .ok := by
  have hspace : c.output.wiped.checkSpace a.remainingLength = true :=
    checkSpace_of_short rfl (lengths_subUnsub h.1).2 h.1
  simp only [run, mqttSubUnsub, hstate, hr, if_false, hspace, if_true]

/-- What has to hold of the ring and of what is handed over. -/
theorem handsPacket_iff {c : MqttClient} {a : HandCall}
    (hring : (a.run c).1.output = (a.start c).append (a.appended c)) {size : ℕ}
    (hhanded : (a.run c).2.2 = some (((a.start c).append (a.appended c)).buf, size)) :
    HandsPacket c a ↔
      (((a.start c).append (a.appended c)).buf.take size = a.appended c ∧
        size = (a.appended c).length) ∧ Decodes (a.appended c) (a.packet c) := by
  constructor
  · rintro ⟨-, hsent, hdecodes⟩
    rw [hhanded, Option.map_some] at hsent
    exact ⟨Prod.mk.inj (Option.some.inj hsent), (hdecodes _).mpr rfl⟩
  · rintro ⟨⟨htake, hsize⟩, hdecodes⟩
    refine ⟨hring, ?_, decodes_iff hdecodes⟩
    rw [hhanded, Option.map_some, htake, hsize]

/-- A call that returns `ERR_OK` hands over its packet exactly when the packet suits. -/
theorem hands_iff {c : MqttClient} {a : HandCall} (hok : (a.run c).2.1 = .ok) :
    HandsPacket c a ↔ Suits c a := by
  cases a with
  | connect cb arg info =>
      obtain ⟨hring, hhanded⟩ := connect_of_ok hok
      rw [info.appendTo_eq] at hring hhanded
      rw [handsPacket_iff (a := .connect cb arg info) hring hhanded]
      exact (handed_iff (Nat.zero_mod _)).trans (connect_suits info)
  | subUnsub a =>
      obtain ⟨hring, hhanded⟩ := subUnsub_of_ok hok
      rw [a.appendTo_eq] at hring hhanded
      rw [handsPacket_iff (a := .subUnsub a) hring hhanded]
      exact (handed_iff (Nat.zero_mod _)).trans
        (subUnsub_suits a (msgGeneratePacketId_ne_zero c.pktIdSeq))

/-- A disconnected client. -/
def offline : MqttClient := { fresh with connState := .tcpDisconnected }

/-- Client `a` with the user name `u` and the password `p`, and no will. -/
def loginInfo : ClientInfo := ⟨[97], some [117], some [112], 60, none, none, 0, 0⟩

theorem hands_iff_loginInfo : HandsPacket offline (.connect 0 0 loginInfo) ∧
    HandsPacket fresh (.subUnsub ⟨[97], 1, 1, 1⟩) := by
  have hconnect : Suits offline (.connect 0 0 loginInfo) :=
    ⟨by decide +kernel, rfl, rfl, fun w hw => nomatch hw⟩
  have hsub : Suits fresh (.subUnsub ⟨[97], 1, 1, 1⟩) := ⟨by decide +kernel, fun _ => rfl⟩
  constructor
  · exact (hands_iff (connect_ok rfl hconnect)).mpr hconnect
  · exact (hands_iff (subUnsub_ok (by decide) (by decide) hsub)).mpr hsub

/-- Without a user name and a password the flags say that they are there. -/
theorem login_claimed : ¬ ∀ (c : MqttClient) (a : HandCall),
    (∀ b, a = .subUnsub b → b.qos ≤ 2) → (a.run c).2.1 = .ok → HandsPacket c a := by
  intro hall
  have hhands := hall offline
    (.connect 0 0 { loginInfo with clientUser := none, clientPass := none })
    (fun _ h => nomatch h) (by decide +kernel)
  have hdecodes := (hhands.decodes _).mpr rfl
  obtain ⟨-, hrest⟩ := List.cons.inj hdecodes.bytes
  obtain ⟨-, hbody⟩ := Base128.encode_append_encode_inj hrest
  exact Bool.false_ne_true (login_of_rest hdecodes.wellFormed hbody).1

end HandCall

end Lwip
