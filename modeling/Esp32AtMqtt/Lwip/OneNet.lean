import Esp32AtMqtt.Lwip.Connect
import Esp32AtMqtt.Lwip.Receive

/-!
# Connecting to OneNET

`OneNet_Connect` and `OneNet_SUBSCRIBE` hand over a packet, wait, read once from the device into
`rx_buffer`, and take the result of `mqtt_message_received` for the answer of the broker: a
`MQTT_CONNECT_ACCEPTED` is a success, whatever packet it is about.
-/

namespace Lwip

open ControlPacket

namespace Receiver

/-- `mqtt_client_connect(client, …)`, which clears the client, and its result. -/
def clientConnect (r : Receiver) (cb arg : UInt32) (info : ClientInfo) : Receiver × Err :=
  let out := mqttClientConnect r.client cb arg info
  if r.client.connState ≠ .tcpDisconnected then ({ r with client := out.1 }, out.2.1)
  else
    ({ client := out.1
       cyclicTick := 0
       inpubPktId := 0
       inpubArg := 0
       dataCb := 0
       pubCb := 0
       msgIdx := 0
       rxBuffer := List.replicate rxBufferLen 0
       size := length_rxZeros }, out.2.1)

end Receiver

section Device

variable (behind : List UInt8)

/-- The second half of both functions: what is read, and the result, which is `RT_EOK` or -1. -/
def answered (r : Receiver) (reply : DeviceRead) : Option (ℤ × Option Receiver) :=
  let r := r.reads reply
  if 0 < reply.bytes.length then
    (mqttMessageReceived behind r 2 (UInt16.ofNat reply.bytes.length) 0).map fun rec =>
      (if rec.status = connectAccepted then 0 else -1, some rec.receiver)
  else some (-1, some r)

/-- `OneNet_Connect()`: what it returns, and the client; `stale` is what the first read finds, and
`reply` what the second one finds. -/
def oneNetConnect (client : Option Receiver) (info : ClientInfo) (stale reply : DeviceRead) :
    Option (ℤ × Option Receiver) :=
  match client with
  | none => some (-1, none)
  | some r =>
      let r : Receiver := { r with client := { r.client with connState := .tcpDisconnected } }
      answered behind ((r.reads stale).clientConnect 0 0 info).1 reply

/-- `mqtt_sub_unsub(client, Sub_Topic, 0, NULL, NULL, 1)`, with what is in its `r`. -/
def subscribeCall (topic : List UInt8) (r : UInt32) : SubCall := ⟨topic, 0, 1, r⟩

/-- `OneNet_SUBSCRIBE(Sub_Topic)`. -/
def oneNetSubscribe (client : Option Receiver) (topic : List UInt8) (uninit : UInt32)
    (stale reply : DeviceRead) : Option (ℤ × Option Receiver) :=
  match client with
  | none => some (-1, none)
  | some r =>
      let r := r.reads stale
      answered behind
        { r with client := (mqttSubUnsub r.client (subscribeCall topic uninit)).1 } reply

end Device

/-- A `CONNACK` packet with return code 0. -/
def IsConnack (bs : List UInt8) : Prop := ∃ flags ≤ (1 : UInt8), bs = [0x20, 2, flags, 0]

/-- A `SUBACK` packet with an identifier and a QoS that is granted. -/
def IsSuback (id : UInt16) (bs : List UInt8) : Prop :=
  ∃ code ≤ (2 : UInt8), bs = [0x90, 3] ++ be16 id ++ [code]

/-- A result says success only with what the broker has said, and failure otherwise. -/
structure Honest (said : Prop) (state : Receiver → Prop) (out : Option (ℤ × Option Receiver)) :
    Prop where
  success : ∀ c, out = some (0, c) → said ∧ ∃ r, c = some r ∧ state r
  failure : ¬ said → ∃ code c, out = some (code, c) ∧ code ≠ 0

/-- The `CONNECT` packet has been handed over. -/
def Connects (info : ClientInfo) : Prop := Ringbuf.zero.checkSpace info.remainingLength = true

/-- The `SUBSCRIBE` packet is handed over. -/
def Subscribes (r : Receiver) (topic : List UInt8) (uninit : UInt32) : Prop :=
  (mqttSubUnsub r.client (subscribeCall topic uninit)).2.1 = .ok

/-- The broker has accepted the connection. -/
def ConnectSaid (info : ClientInfo) (reply : DeviceRead) : Prop :=
  Connects info ∧ IsConnack reply.bytes

/-- The broker has granted the subscription. -/
def SubscribeSaid (r : Receiver) (topic : List UInt8) (uninit : UInt32) (reply : DeviceRead) :
    Prop :=
  Subscribes r topic uninit ∧ IsSuback (msgGeneratePacketId r.client.pktIdSeq) reply.bytes

/-- What the second half needs for its result to say what the broker has said. -/
theorem answered_honest_iff {behind : List UInt8} {r : Receiver} {reply : DeviceRead}
    {said : Prop} {state : Receiver → Prop}
    (hsaid : said → ∀ c, answered behind r reply = some (0, c) → ∃ s, c = some s ∧ state s) :
    Honest said state (answered behind r reply) ↔
      reply.bytes = [] ∨ said ∨
        Refuses (r.client.connState = .mqttConnecting) (r.msgIdx.toNat ≤ rxBufferLen)
          (fun id => (mqttTakeRequest r.client id).isSome) (r.reads reply).byte
          (UInt16.ofNat reply.bytes.length) := by
  have hfits := reply.fits
  have hlen : (UInt16.ofNat reply.bytes.length).toNat ≤ rxBufferLen := by
    rw [UInt16.toNat_ofNat', Nat.mod_eq_of_lt (Nat.lt_of_le_of_lt hfits (by decide))]
    exact hfits
  have hrefused := mqttMessageReceived_refused_iff behind (r.reads reply) hlen
  by_cases hyes : said
  · exact iff_of_true ⟨fun c hc => ⟨hyes, hsaid hyes c hc⟩, fun hno => absurd hyes hno⟩
      (.inr (.inl hyes))
  by_cases hnil : reply.bytes = []
  · refine iff_of_true ?_ (.inl hnil)
    have hout : answered behind r reply = some (-1, some (r.reads reply)) := by
      rw [answered, hnil]
      rfl
    rw [hout]
    exact ⟨fun c hc => absurd (congrArg Prod.fst (Option.some.inj hc)) (by decide : (-1 : ℤ) ≠ 0),
      fun _ => ⟨-1, _, rfl, by decide⟩⟩
  rw [or_iff_right hnil, or_iff_right hyes]
  refine Iff.trans ?_ hrefused
  have hpos : 0 < reply.bytes.length := List.length_pos_iff.mpr hnil
  rw [answered, if_pos hpos]
  constructor
  · intro hhonest
    obtain ⟨code, c, hout, hcode⟩ := hhonest.failure hyes
    obtain ⟨rec, hrec, heq⟩ := Option.map_eq_some_iff.mp hout
    refine ⟨rec, hrec, fun hstatus => hcode ?_⟩
    rw [if_pos hstatus] at heq
    exact (congrArg Prod.fst heq).symm
  · rintro ⟨rec, hrec, hstatus⟩
    rw [hrec, Option.map_some, if_neg hstatus]
    exact ⟨fun c hc => absurd (congrArg Prod.fst (Option.some.inj hc)) (by decide : (-1 : ℤ) ≠ 0),
      fun _ => ⟨-1, _, rfl, by decide⟩⟩

/-! ## The client that waits -/

/-- What is looked at. -/
theorem Refuses.congr {waiting waiting' early early' : Prop} {pending pending' : UInt16 → Prop}
    {byte byte' : ℕ → UInt8} {length : UInt16} (hwaiting : waiting ↔ waiting')
    (hearly : early ↔ early') (hpending : ∀ id, pending id ↔ pending' id)
    (hbyte : ∀ i < 4, byte i = byte' i) :
    Refuses waiting early pending byte length ↔ Refuses waiting' early' pending' byte' length := by
  have hfirst := hbyte 0 (by decide)
  have hhigh := hbyte 2 (by decide)
  have hlow := hbyte 3 (by decide)
  obtain rfl := propext hwaiting
  obtain rfl := propext hearly
  obtain rfl : pending = pending' := funext fun id => propext (hpending id)
  constructor
  · rintro ⟨hconnack, hping, hpublish, hid⟩
    rw [hfirst, hlow] at hconnack
    rw [hfirst] at hping
    rw [hfirst, hhigh, hlow] at hpublish hid
    exact ⟨hconnack, hping, hpublish, hid⟩
  · rintro ⟨hconnack, hping, hpublish, hid⟩
    rw [← hfirst, ← hlow] at hconnack
    rw [← hfirst] at hping
    rw [← hfirst, ← hhigh, ← hlow] at hpublish hid
    exact ⟨hconnack, hping, hpublish, hid⟩

/-- `mqtt_sub_unsub` leaves the connection and the requests as they are. -/
theorem mqttSubUnsub_keeps (c : MqttClient) (a : SubCall) :
    ∃ seq rb, (mqttSubUnsub c a).1 = { c with pktIdSeq := seq, output := rb } := by
  simp only [mqttSubUnsub]
  split
  · exact ⟨_, _, rfl⟩
  · split
    · exact ⟨_, _, rfl⟩
    · split
      · exact ⟨_, _, rfl⟩
      · exact ⟨_, _, rfl⟩

/-- Whether a request is found does not depend on the ring. -/
theorem isSome_mqttTakeRequest (c : MqttClient) (seq : UInt16) (rb : Ringbuf) (id : UInt16) :
    (mqttTakeRequest { c with pktIdSeq := seq, output := rb } id).isSome =
      (mqttTakeRequest c id).isSome := by
  simp only [mqttTakeRequest, Option.isSome_bind, Option.isSome_map]

/-- The client that has handed over a `CONNECT` packet. -/
theorem clientConnect_state (r : Receiver) (info : ClientInfo)
    (h : r.client.connState = .tcpDisconnected) :
    ((r.clientConnect 0 0 info).1.client.connState = .mqttConnecting ↔ Connects info) ∧
      (r.clientConnect 0 0 info).1.msgIdx = 0 ∧
      (r.clientConnect 0 0 info).1.rxBuffer = List.replicate rxBufferLen 0 ∧
      ∀ id, mqttTakeRequest (r.clientConnect 0 0 info).1.client id = none := by
  have hnot : ¬ r.client.connState ≠ .tcpDisconnected := not_not.mpr h
  rw [Receiver.clientConnect, if_neg hnot, mqttClientConnect, if_neg hnot, Connects]
  dsimp only
  refine ⟨?_, rfl, rfl, fun id => ?_⟩
  · split_ifs with hspace
    · exact iff_of_true rfl hspace
    · exact iff_of_false (fun heq => by cases heq) hspace
  · split_ifs
    · rfl
    · rfl

/-- When the code is 0, the client is connected. -/
theorem connected_of_connack {behind : List UInt8} {r : Receiver} {length : UInt16}
    (hwaits : r.client.connState = .mqttConnecting) (htype : r.byte 0 = 0x20)
    (hcode : r.byte 3 = 0) {rec : Reception}
    (h : mqttMessageReceived behind r 2 length 0 = some rec) :
    rec.receiver.client.connState = .mqttConnected := by
  have hthree : (2 : UInt8).toNat + 1 = 3 := rfl
  rw [mqttMessageReceived, r.load_eq (by decide), Option.bind_some, htype] at h
  dsimp only at h
  rw [if_pos (by decide), receivedConnack, if_pos hwaits, hthree, r.load_eq (by decide),
    Option.map_some, if_pos hcode] at h
  rw [← Option.some.inj h]

/-- The first bytes of what comes, behind a `CONNECT` packet. -/
def replied (reply : DeviceRead) (i : ℕ) : UInt8 := reply.bytes.getD i 0

/-- The first bytes of what comes, behind a `SUBSCRIBE` packet: the first read and what was in
`rx_buffer` before fill what is missing. -/
def repliedOver (r : Receiver) (stale reply : DeviceRead) (i : ℕ) : UInt8 :=
  reply.bytes.getD i (stale.bytes.getD i (r.byte i))

/-- With no client both functions fail. -/
theorem honest_none {said : Prop} {state : Receiver → Prop} : Honest said state (some (-1, none)) :=
  ⟨fun c hc => absurd (congrArg Prod.fst (Option.some.inj hc)) (by decide : (-1 : ℤ) ≠ 0),
    fun _ => ⟨-1, none, rfl, by decide⟩⟩

/-- When the answer to a `CONNECT` packet is taken for what the broker has said. -/
theorem connect_honest_iff (behind : List UInt8) {r : Receiver} (info : ClientInfo)
    (reply : DeviceRead) (h : r.client.connState = .tcpDisconnected) :
    Honest (ConnectSaid info reply) (fun s => s.client.connState = .mqttConnected)
        (answered behind (r.clientConnect 0 0 info).1 reply) ↔
      reply.bytes = [] ∨ ConnectSaid info reply ∨
        Refuses (Connects info) True (fun _ => False) (replied reply)
          (UInt16.ofNat reply.bytes.length) := by
  obtain ⟨hwaits, hidx, hbuffer, hpending⟩ := clientConnect_state r info h
  have hbyte : ∀ i < rxBufferLen,
      ((r.clientConnect 0 0 info).1.reads reply).byte i = replied reply i := by
    intro i hi
    have hzero : (List.replicate rxBufferLen (0 : UInt8)).getD i 0 = 0 := by
      rw [List.getD_eq_getElem?_getD, List.getElem?_replicate, if_pos hi]
      rfl
    rw [byte_reads, replied, byte_of_lt _ hi, hbuffer, hzero]
  rw [answered_honest_iff]
  · refine or_congr_right (or_congr_right (Refuses.congr hwaits ?_ ?_ ?_))
    · rw [hidx]
      exact iff_of_true (Nat.zero_le _) trivial
    · intro id
      rw [hpending]
      exact iff_of_false Bool.false_ne_true not_false
    · intro i hi
      exact hbyte i (Nat.lt_trans hi (by decide))
  · rintro ⟨hsent, flags, -, hbytes⟩ c hc
    have hpos : 0 < reply.bytes.length := by
      rw [hbytes]
      exact Nat.zero_lt_succ _
    rw [answered, if_pos hpos] at hc
    obtain ⟨rec, hrec, heq⟩ := Option.map_eq_some_iff.mp hc
    refine ⟨rec.receiver, (congrArg Prod.snd heq).symm, connected_of_connack ?_ ?_ ?_ hrec⟩
    · exact hwaits.mpr hsent
    · rw [hbyte 0 (by decide), replied, hbytes]
      rfl
    · rw [hbyte 3 (by decide), replied, hbytes]
      rfl

/-- The bytes in front, behind a `SUBSCRIBE` packet. -/
theorem byte_subscribed (r : Receiver) (c : MqttClient) (stale reply : DeviceRead) {i : ℕ}
    (h : i < rxBufferLen) :
    (Receiver.reads { r.reads stale with client := c } reply).byte i =
      repliedOver r stale reply i := by
  have hold : Receiver.byte { r.reads stale with client := c } i = (r.reads stale).byte i := by
    rw [byte_of_lt _ h, byte_of_lt _ h]
  rw [byte_reads, hold, byte_reads, repliedOver]

/-- When `OneNet_SUBSCRIBE` says what the broker has said. -/
theorem oneNetSubscribe_honest_iff (behind : List UInt8) (r : Receiver) (topic : List UInt8)
    (uninit : UInt32) (stale reply : DeviceRead) :
    Honest (SubscribeSaid r topic uninit reply) (fun _ => True)
        (oneNetSubscribe behind (some r) topic uninit stale reply) ↔
      reply.bytes = [] ∨ SubscribeSaid r topic uninit reply ∨
        Refuses (r.client.connState = .mqttConnecting) (r.msgIdx.toNat ≤ rxBufferLen)
          (fun id => (mqttTakeRequest r.client id).isSome) (repliedOver r stale reply)
          (UInt16.ofNat reply.bytes.length) := by
  obtain ⟨seq, rb, hkeeps⟩ := mqttSubUnsub_keeps r.client (subscribeCall topic uninit)
  rw [oneNetSubscribe, answered_honest_iff]
  · refine or_congr_right (or_congr_right (Refuses.congr ?_ Iff.rfl ?_ ?_))
    · show (mqttSubUnsub r.client (subscribeCall topic uninit)).1.connState = _ ↔ _
      rw [hkeeps]
    · intro id
      show (mqttTakeRequest (mqttSubUnsub r.client (subscribeCall topic uninit)).1 id).isSome ↔ _
      rw [hkeeps, isSome_mqttTakeRequest]
    · intro i hi
      exact byte_subscribed r _ stale reply (Nat.lt_trans hi (by decide))
  · intro _ c hc
    rw [answered] at hc
    split at hc
    · obtain ⟨rec, -, heq⟩ := Option.map_eq_some_iff.mp hc
      exact ⟨rec.receiver, (congrArg Prod.snd heq).symm, trivial⟩
    · exact ⟨_, (congrArg Prod.snd (Option.some.inj hc)).symm, trivial⟩

/-- `OneNet_Connect` and `OneNet_SUBSCRIBE` say what the broker has said if and only if there is no
client, nothing comes, the broker does say it, or the packet that comes is refused. -/
theorem oneNet_honest_iff (behind : List UInt8) (client : Option Receiver) (info : ClientInfo)
    (topic : List UInt8) (uninit : UInt32) (stale reply : DeviceRead) :
    (Honest (ConnectSaid info reply) (fun s => s.client.connState = .mqttConnected)
        (oneNetConnect behind client info stale reply) ↔
      client = none ∨ reply.bytes = [] ∨ ConnectSaid info reply ∨
        Refuses (Connects info) True (fun _ => False) (replied reply)
          (UInt16.ofNat reply.bytes.length)) ∧
    (Honest (∃ r ∈ client, SubscribeSaid r topic uninit reply) (fun _ => True)
        (oneNetSubscribe behind client topic uninit stale reply) ↔
      ∀ r ∈ client, reply.bytes = [] ∨ SubscribeSaid r topic uninit reply ∨
        Refuses (r.client.connState = .mqttConnecting) (r.msgIdx.toNat ≤ rxBufferLen)
          (fun id => (mqttTakeRequest r.client id).isSome) (repliedOver r stale reply)
          (UInt16.ofNat reply.bytes.length)) := by
  cases client with
  | none =>
      exact ⟨iff_of_true honest_none (.inl rfl), iff_of_true honest_none fun r hr => nomatch hr⟩
  | some r =>
      constructor
      · rw [oneNetConnect, or_iff_right (Option.some_ne_none r)]
        exact connect_honest_iff behind info reply rfl
      · have hsaid : (∃ s ∈ some r, SubscribeSaid s topic uninit reply) ↔
            SubscribeSaid r topic uninit reply := by
          simp
        rw [propext hsaid, oneNetSubscribe_honest_iff]
        simp

/-- A client that has done nothing yet. -/
def idle : Receiver :=
  ⟨HandCall.offline, 0, 0, 0, 0, 0, 0, List.replicate rxBufferLen 0, length_rxZeros⟩

/-- A `PINGRESP` packet. -/
def pingresp : DeviceRead := ⟨[0xD0, 0], by decide⟩

def silence : DeviceRead := ⟨[], by decide⟩

/-- A `PINGRESP` packet passes for the answer to `CONNECT`, and the client still waits. -/
theorem connected_by_pingresp :
    ((oneNetConnect [] (some idle) HandCall.loginInfo silence pingresp).map fun out =>
        (out.1, out.2.map (·.client.connState))) = some (0, some .mqttConnecting) ∧
      ¬ Honest (ConnectSaid HandCall.loginInfo pingresp)
        (fun s => s.client.connState = .mqttConnected)
        (oneNetConnect [] (some idle) HandCall.loginInfo silence pingresp) := by
  have hout : ((oneNetConnect [] (some idle) HandCall.loginInfo silence pingresp).map fun out =>
      (out.1, out.2.map (·.client.connState))) = some (0, some .mqttConnecting) := by
    decide +kernel
  refine ⟨hout, fun hhonest => ?_⟩
  obtain ⟨⟨code, c⟩, heq, hcode⟩ := Option.map_eq_some_iff.mp hout
  obtain rfl : code = 0 := congrArg Prod.fst hcode
  obtain ⟨⟨-, flags, -, hbytes⟩, -⟩ := hhonest.success c heq
  have hfirst : (0xD0 : UInt8) = 0x20 := (List.cons.inj hbytes).1
  exact absurd hfirst (by decide)

end Lwip
