import Esp32AtMqtt.Lwip.Receive

/-!
# Where a received packet is looked at

The accesses of `mqtt_message_received` through the pointers into `rx_buffer`, and its calls of
functions that the application has set. The length is that of the whole packet, while the
offsets are counted from behind the fixed header: so the test of the topic lets it end two
bytes too far, and the payload that is handed out reaches two bytes behind the packet. Nothing
tests that a packet has the four bytes that are looked at in front.
-/

namespace Lwip

/-- A byte from `rx_buffer` on is read or written, bytes are handed to a function, or a function
is called. -/
inductive Access
  | read (i : ℕ)
  | write (i : ℕ)
  | hand (offset len : ℕ)
  | call (cb : UInt32)
  deriving DecidableEq, Repr

/-- The access stays inside the packet, or inside `rx_buffer` where it is no read, and the
function that is called has been set. -/
def Access.Inside (length : UInt16) : Access → Prop
  | .read i => i < length.toNat
  | .write i => i < rxBufferLen
  | .hand offset len => 0 < len → offset + len ≤ rxBufferLen
  | .call cb => cb ≠ 0

/-- The function that is called. -/
def Access.called : Access → Option UInt32
  | .call cb => some cb
  | _ => none

section Accesses

variable (r : Receiver) (fixedHdrIdx : ℕ)

/-- The branch of a `CONNACK` packet. -/
def connackAccesses : List Access :=
  if r.client.connState = .mqttConnecting then
    .read (fixedHdrIdx + 1) ::
      if r.byte (fixedHdrIdx + 1) = 0 ∧ r.client.connectCb ≠ 0 then [.call r.client.connectCb]
      else []
  else []

/-- The topic and the identifier of a `PUBLISH` packet, and the offset of the payload; `none` is the
jump to `out_disconnect`. -/
def topicAccesses (length : UInt16) (qos : UInt8) : List Access × Option UInt16 :=
  let topicLen := word (r.byte fixedHdrIdx) (r.byte (fixedHdrIdx + 1))
  let topic := fixedHdrIdx + 2
  let afterTopic := 2 + topicLen
  let lengthReads : List Access := [.read fixedHdrIdx, .read (fixedHdrIdx + 1)]
  if length.toNat < afterTopic.toNat + behindTopic qos then (lengthReads, none)
  else
    let idReads : List Access :=
      if 0 < qos then
        [.read (fixedHdrIdx + afterTopic.toNat), .read (fixedHdrIdx + afterTopic.toNat + 1)]
      else []
    let published : List Access :=
      if r.pubCb ≠ 0 then [.hand topic (topicLen.toNat + 1), .call r.pubCb] else []
    (lengthReads ++ idReads ++ [.read (topic + topicLen.toNat), .write (topic + topicLen.toNat)] ++
      published ++ [.write (topic + topicLen.toNat)],
      some (if 0 < qos then afterTopic + 2 else afterTopic))

/-- The payload of a `PUBLISH` packet. -/
def payloadAccesses (length : UInt16) (remainingLength : UInt32) (payloadOffset : UInt16) :
    List Access :=
  let payloadLength := length - payloadOffset
  if 0 < payloadLength ∨ remainingLength = 0 then
    [.hand (fixedHdrIdx + payloadOffset.toNat) payloadLength.toNat, .call r.dataCb]
  else []

/-- The branch of a `PUBLISH` packet. -/
def publishAccesses (length : UInt16) (remainingLength : UInt32) (qos : UInt8) : List Access :=
  if r.msgIdx.toNat ≤ rxBufferLen then
    let t := topicAccesses r fixedHdrIdx length qos
    match t.2 with
    | none => t.1
    | some payloadOffset =>
        t.1 ++ payloadAccesses r fixedHdrIdx length remainingLength payloadOffset
  else payloadAccesses r fixedHdrIdx length remainingLength 0

/-- The call for a request that is acknowledged. -/
def requestCall (request : Request) : List Access :=
  if request.cb ≠ 0 then [.call request.cb] else []

/-- The branch of the packets that begin with an identifier. -/
def idAccesses (pktType : UInt8) (length : UInt16) : List Access :=
  [.read fixedHdrIdx, .read (fixedHdrIdx + 1)] ++
    let pktId := (r.byte fixedHdrIdx).toUInt16 <<< 8 ||| (r.byte (fixedHdrIdx + 1)).toUInt16
    if pktId = 0 then []
    else if pktType = 5 then []
    else if pktType = 6 then []
    else if pktType = 9 ∨ pktType = 11 ∨ pktType = 7 ∨ pktType = 4 then
      match mqttTakeRequest r.client pktId with
      | none => []
      | some (_, request, _) =>
          if pktType = 9 then
            if length < 3 then [] else .read (fixedHdrIdx + 2) :: requestCall request
          else requestCall request
    else []

/-- The accesses of `mqtt_message_received(client, fixed_hdr_idx, length, remaining_length)`. -/
def messageAccesses (length : UInt16) (remainingLength : UInt32) : List Access :=
  .read 0 ::
    let pktType := (r.byte 0 &&& 0xf0) >>> 4
    if pktType = 2 then connackAccesses r fixedHdrIdx
    else if pktType = 13 then []
    else if pktType = 3 then
      publishAccesses r fixedHdrIdx length remainingLength ((r.byte 0 &&& 0x06) >>> 1)
    else idAccesses r fixedHdrIdx pktType length

end Accesses

/-- Every access stays inside. -/
def AllInside (length : UInt16) (as : List Access) : Prop := ∀ a ∈ as, a.Inside length

@[simp] theorem allInside_nil (length : UInt16) : AllInside length [] := by
  simp [AllInside]

@[simp] theorem allInside_cons (length : UInt16) (a : Access) (as : List Access) :
    AllInside length (a :: as) ↔ a.Inside length ∧ AllInside length as :=
  List.forall_mem_cons

@[simp] theorem allInside_append (length : UInt16) (as bs : List Access) :
    AllInside length (as ++ bs) ↔ AllInside length as ∧ AllInside length bs :=
  List.forall_mem_append

/-- The QoS of a `PUBLISH` packet. -/
def Receiver.qos (r : Receiver) : UInt8 := (r.byte 0 &&& 0x06) >>> 1

/-- The payload as it is handed out ends in `rx_buffer`, and there is a function to hand it to. -/
def Receiver.PayloadInside (r : Receiver) (length : UInt16) : Prop :=
  length.toNat ≤ 126 ∧ r.dataCb ≠ 0

/-- The packets that are handled inside: those that have the bytes in front that their branch looks
at, and, as `PUBLISH` packets, a topic that does not fit, or one that ends inside with what comes
behind it, and a payload that can be handed out. -/
structure Contained (r : Receiver) (length : UInt16) : Prop where
  connack : r.pktType = 2 → r.client.connState = .mqttConnecting → 4 ≤ length.toNat
  topic : r.pktType = 3 → r.msgIdx.toNat ≤ rxBufferLen → 4 ≤ length.toNat ∧
    (r.TopicFits length r.qos →
      4 + r.firstWord.toNat + behindTopic r.qos ≤ length.toNat ∧ r.PayloadInside length)
  payload : r.pktType = 3 → rxBufferLen < r.msgIdx.toNat → r.PayloadInside length
  id : r.pktType ≠ 2 → r.pktType ≠ 13 → r.pktType ≠ 3 → 4 ≤ length.toNat
  suback : r.pktType = 9 → r.firstWord ≠ 0 → (mqttTakeRequest r.client r.firstWord).isSome →
    5 ≤ length.toNat

section Branches

variable (r : Receiver) {length : UInt16} {qos : UInt8}

theorem allInside_connack_iff :
    AllInside length (connackAccesses r 2) ↔
      (r.client.connState = .mqttConnecting → 4 ≤ length.toNat) := by
  have hcall : AllInside length (if r.byte (2 + 1) = 0 ∧ r.client.connectCb ≠ 0 then
      [Access.call r.client.connectCb] else []) := by
    split
    · next h => simpa [Access.Inside] using h.2
    · exact allInside_nil length
  rw [connackAccesses]
  split
  · next hstate =>
      rw [allInside_cons, and_iff_left hcall, forall_prop_of_true hstate]
      exact Iff.rfl
  · next hstate => exact iff_of_true (allInside_nil length) fun h => absurd h hstate

/-- The payload behind an offset inside the packet. -/
theorem allInside_payload_iff {offset : UInt16} (h : offset.toNat < length.toNat) :
    AllInside length (payloadAccesses r 2 length 0 offset) ↔ r.PayloadInside length := by
  have hsub : (length - offset).toNat = length.toNat - offset.toNat :=
    UInt16.toNat_sub_of_le _ _ (UInt16.le_iff_toNat_le.mpr h.le)
  have hsum : (0 < length.toNat - offset.toNat →
      2 + offset.toNat + (length.toNat - offset.toNat) ≤ rxBufferLen) ↔ length.toNat ≤ 126 := by
    rw [rxBufferLen]
    omega
  rw [payloadAccesses, if_pos (.inr rfl), allInside_cons, allInside_cons,
    and_iff_left (allInside_nil length), Receiver.PayloadInside, ← hsum, ← hsub]
  exact Iff.rfl

/-- The function for the topic is only called when it is there. -/
theorem allInside_published {topicLen : ℕ} (h : 4 + (topicLen + 1) ≤ rxBufferLen) :
    AllInside length (if r.pubCb ≠ 0 then
      [Access.hand (2 + 2) (topicLen + 1), .call r.pubCb] else []) := by
  split
  · next hcb =>
      rw [allInside_cons, allInside_cons]
      exact ⟨fun _ => h, hcb, allInside_nil length⟩
  · exact allInside_nil length

/-- A topic that does not fit. -/
theorem topicAccesses_short (h : ¬ r.TopicFits length qos) :
    topicAccesses r 2 length qos = ([.read 2, .read 3], none) :=
  if_pos (Nat.not_le.mp h)

/-- A topic that fits, by the test. -/
theorem topicAccesses_fits (h : r.TopicFits length qos) :
    topicAccesses r 2 length qos =
      (([.read 2, .read 3] : List Access) ++
        (if 0 < qos then [.read (2 + (2 + r.firstWord).toNat),
          .read (2 + (2 + r.firstWord).toNat + 1)] else []) ++
        [.read (2 + 2 + r.firstWord.toNat), .write (2 + 2 + r.firstWord.toNat)] ++
        (if r.pubCb ≠ 0 then [.hand (2 + 2) (r.firstWord.toNat + 1), .call r.pubCb] else []) ++
        [.write (2 + 2 + r.firstWord.toNat)],
        some (if 0 < qos then 2 + r.firstWord + 2 else 2 + r.firstWord)) :=
  if_neg (Nat.not_lt.mpr h)

/-- What is read of a topic that fits, by the test, and behind it. -/
theorem allInside_topic_iff (h : r.TopicFits length qos) (hlen : length.toNat ≤ rxBufferLen)
    (hfour : 4 ≤ length.toNat) :
    AllInside length (topicAccesses r 2 length qos).1 ↔
      4 + r.firstWord.toNat + behindTopic qos ≤ length.toNat := by
  have hpos : 0 < qos ↔ qos ≠ 0 := UInt8.pos_iff_ne_zero
  rw [topicAccesses_fits r h]
  simp only [allInside_append, allInside_cons, allInside_nil, and_true, Access.Inside]
  rw [rxBufferLen] at *
  constructor
  · rintro ⟨⟨⟨⟨-, hid⟩, htopic, -⟩, -⟩, -⟩
    have hafter : (2 + r.firstWord).toNat = 2 + r.firstWord.toNat :=
      toNat_two_add (by omega)
    by_cases hqos : qos = 0
    · rw [behindTopic, if_neg (not_not.mpr hqos)]
      omega
    · rw [if_pos (hpos.mpr hqos), allInside_cons, allInside_cons] at hid
      have hlast : 2 + (2 + r.firstWord).toNat + 1 < length.toNat := hid.2.1
      rw [behindTopic, if_pos hqos]
      omega
  · intro hfits
    have hone : 1 ≤ behindTopic qos := by
      rw [behindTopic]
      split_ifs <;> decide
    have hafter : (2 + r.firstWord).toNat = 2 + r.firstWord.toNat :=
      toNat_two_add (by omega)
    refine ⟨⟨⟨⟨⟨by omega, by omega⟩, ?_⟩, by omega, by omega⟩, allInside_published r ?_⟩, by omega⟩
    · split
      · next hqos =>
          rw [behindTopic, if_pos (hpos.mp hqos)] at hfits
          rw [allInside_cons, allInside_cons]
          refine ⟨?_, ?_, allInside_nil length⟩
          · show 2 + (2 + r.firstWord).toNat < length.toNat
            omega
          · show 2 + (2 + r.firstWord).toNat + 1 < length.toNat
            omega
      · exact allInside_nil length
    · rw [rxBufferLen]
      omega

/-- The offset of the payload lies in the packet. -/
theorem payloadOffset_lt (hfits : 4 + r.firstWord.toNat + behindTopic qos ≤ length.toNat)
    (hlen : length.toNat ≤ rxBufferLen) :
    (if 0 < qos then 2 + r.firstWord + 2 else 2 + r.firstWord).toNat < length.toNat := by
  have hafter : (2 + r.firstWord).toNat = 2 + r.firstWord.toNat := by
    apply toNat_two_add
    rw [rxBufferLen] at hlen
    omega
  rw [rxBufferLen] at hlen
  split
  · next hqos =>
      rw [behindTopic, if_pos (UInt8.pos_iff_ne_zero.mp hqos)] at hfits
      rw [UInt16.toNat_add, hafter]
      show (2 + r.firstWord.toNat + 2) % 2 ^ 16 < length.toNat
      omega
  · omega

theorem allInside_publish_iff (hpos : 0 < length.toNat) (hlen : length.toNat ≤ rxBufferLen) :
    AllInside length (publishAccesses r 2 length 0 qos) ↔
      (r.msgIdx.toNat ≤ rxBufferLen → 4 ≤ length.toNat ∧
        (r.TopicFits length qos →
          4 + r.firstWord.toNat + behindTopic qos ≤ length.toNat ∧ r.PayloadInside length)) ∧
      (rxBufferLen < r.msgIdx.toNat → r.PayloadInside length) := by
  rw [publishAccesses]
  split
  · next hidx =>
      rw [forall_prop_of_true hidx,
        and_iff_left (fun hlate => absurd hidx (Nat.not_le.mpr hlate))]
      by_cases hfits : r.TopicFits length qos
      · have hoffset : (topicAccesses r 2 length qos).2 =
            some (if 0 < qos then 2 + r.firstWord + 2 else 2 + r.firstWord) := by
          rw [topicAccesses_fits r hfits]
        simp only [hoffset]
        rw [allInside_append, forall_prop_of_true hfits]
        constructor
        · rintro ⟨htopic, hpayload⟩
          have hthree : 3 < length.toNat := by
            rw [topicAccesses_fits r hfits] at htopic
            exact htopic (.read 3) (by simp)
          have hend := (allInside_topic_iff r hfits hlen hthree).mp htopic
          exact ⟨hthree, hend,
            (allInside_payload_iff r (payloadOffset_lt r hend hlen)).mp hpayload⟩
        · rintro ⟨hfour, hend, hpayload⟩
          exact ⟨(allInside_topic_iff r hfits hlen hfour).mpr hend,
            (allInside_payload_iff r (payloadOffset_lt r hend hlen)).mpr hpayload⟩
      · rw [topicAccesses_short r hfits]
        dsimp only
        rw [allInside_cons, allInside_cons, and_iff_left (allInside_nil length),
          and_iff_left (fun h => absurd h hfits)]
        exact ⟨fun h => h.2, fun h => ⟨Nat.lt_of_succ_lt h, h⟩⟩
  · next hidx =>
      rw [and_iff_right (fun h => absurd h hidx),
        forall_prop_of_true (Nat.not_le.mp hidx)]
      exact allInside_payload_iff r hpos

theorem allInside_requestCall (request : Request) : AllInside length (requestCall request) := by
  rw [requestCall]
  split
  · next hcb =>
      rw [allInside_cons]
      exact ⟨hcb, allInside_nil length⟩
  · exact allInside_nil length

theorem allInside_id_iff (pktType : UInt8) :
    AllInside length (idAccesses r 2 pktType length) ↔ 4 ≤ length.toNat ∧
      (pktType = 9 → r.firstWord ≠ 0 → (mqttTakeRequest r.client r.firstWord).isSome →
        5 ≤ length.toNat) := by
  have hword : (r.byte 2).toUInt16 <<< 8 ||| (r.byte (2 + 1)).toUInt16 = r.firstWord :=
    or_eq_word _ _
  have hhead : AllInside length [.read 2, .read (2 + 1)] ↔ 4 ≤ length.toNat := by
    rw [allInside_cons, allInside_cons, and_iff_left (allInside_nil length)]
    exact ⟨fun h => h.2, fun h => ⟨Nat.lt_of_succ_lt h, h⟩⟩
  rw [idAccesses, allInside_append, hhead, hword]
  refine and_congr_right fun hfour => ?_
  dsimp only
  by_cases hzero : r.firstWord = 0
  · rw [if_pos hzero]
    exact iff_of_true (allInside_nil length) fun _ h => absurd hzero h
  rw [if_neg hzero]
  by_cases hnine : pktType = 9
  · rw [hnine, if_neg (by decide), if_neg (by decide), if_pos (.inl rfl)]
    rw [forall_prop_of_true rfl, forall_prop_of_true hzero]
    cases htake : mqttTakeRequest r.client r.firstWord with
    | none => exact iff_of_true (allInside_nil length) (by simp)
    | some taken =>
        have hlong : ¬ length < 3 := by
          rw [UInt16.lt_iff_toNat_lt]
          exact Nat.not_lt.mpr (Nat.le_of_succ_le hfour)
        have hsome : (some taken).isSome := rfl
        dsimp only
        rw [if_pos rfl, if_neg hlong, allInside_cons,
          and_iff_left (allInside_requestCall taken.2.1), forall_prop_of_true hsome]
        exact Iff.rfl
  · refine iff_of_true ?_ fun h => absurd h hnine
    split
    · exact allInside_nil length
    · split
      · exact allInside_nil length
      · split
        · split
          · exact allInside_nil length
          · exact allInside_requestCall _
        · exact allInside_nil length

end Branches

/-! ## The accesses are those of the handler -/

/-- The function that a callback is. -/
def Callback.cb : Callback → UInt32
  | .connect cb _ _ => cb
  | .publish cb _ _ _ => cb
  | .data cb _ _ _ _ => cb
  | .request cb _ _ => cb

section Handler

variable (behind : List UInt8) (r : Receiver) {length : UInt16} {remainingLength : UInt32}
  {qos : UInt8}

/-- The functions that are called, in order. -/
def calls (as : List Access) : List UInt32 := as.filterMap Access.called

@[simp] theorem calls_nil : calls [] = [] := rfl

@[simp] theorem calls_read (i : ℕ) (as : List Access) : calls (.read i :: as) = calls as := rfl

@[simp] theorem calls_write (i : ℕ) (as : List Access) : calls (.write i :: as) = calls as := rfl

@[simp] theorem calls_hand (offset len : ℕ) (as : List Access) :
    calls (.hand offset len :: as) = calls as := rfl

@[simp] theorem calls_call (cb : UInt32) (as : List Access) :
    calls (.call cb :: as) = cb :: calls as := rfl

@[simp] theorem calls_append (as bs : List Access) : calls (as ++ bs) = calls as ++ calls bs :=
  List.filterMap_append

theorem calls_connack {rec : Reception} (h : receivedConnack r 2 = some rec) :
    calls (connackAccesses r 2) = rec.callbacks.map Callback.cb := by
  rw [receivedConnack] at h
  rw [connackAccesses]
  split at h
  · next hstate =>
      rw [show (2 : UInt8).toNat + 1 = 3 from rfl, r.load_eq (by decide), Option.map_some,
        Option.some_inj] at h
      rw [if_pos hstate, ← h]
      by_cases hcode : r.byte 3 = 0
      · by_cases hcb : r.client.connectCb = 0 <;> simp [hcode, hcb, Callback.cb]
      · simp [hcode, Receiver.ends]
  · next hstate =>
      rw [if_neg hstate, ← Option.some.inj h]
      rfl

/-- The topic as it is read, beside its accesses. -/
theorem calls_topic {o : Option TopicRead}
    (h : receivedTopic r 2 length remainingLength qos = some o) :
    match o with
    | none => topicAccesses r 2 length qos = ([.read 2, .read 3], none)
    | some t => (topicAccesses r 2 length qos).2 = some t.payloadOffset ∧
        calls (topicAccesses r 2 length qos).1 = t.callbacks.map Callback.cb := by
  by_cases hfits : r.TopicFits length qos
  · have hlt : ¬ length.toNat <
        (2 + word (r.byte 2) (r.byte 3)).toNat + (if qos ≠ 0 then 2 else 1) :=
      Nat.not_lt.mpr hfits
    have hword : r.firstWord = word (r.byte 2) (r.byte 3) := rfl
    simp only [receivedTopic, UInt8.reduceToNat, r.load_eq (by decide : 2 < 388),
      r.load_eq (by decide : 2 + 1 < 388), Option.bind_some] at h
    rw [if_neg hlt] at h
    obtain ⟨pktId, -, h⟩ := Option.bind_eq_some_iff.mp h
    split at h
    · obtain rfl := Option.some.inj h
      rw [topicAccesses_fits r hfits]
      refine ⟨by rw [hword], ?_⟩
      by_cases hcb : r.pubCb = 0 <;> by_cases hqos : 0 < qos <;>
        simp [Callback.cb, hcb, hqos]
    · cases h
  · rw [receivedTopic_short r hfits] at h
    obtain rfl := Option.some.inj h
    exact topicAccesses_short r hfits

theorem calls_publish {rec : Reception}
    (h : receivedPublish behind r 2 length remainingLength qos = some rec) :
    calls (publishAccesses r 2 length remainingLength qos) = rec.callbacks.map Callback.cb := by
  obtain ⟨o, hread, h⟩ := Option.bind_eq_some_iff.mp h
  cases o with
  | none =>
      obtain rfl := Option.some.inj h
      split at hread
      · next hidx =>
          have htopic : topicAccesses r 2 length qos = _ := calls_topic r hread
          rw [publishAccesses, if_pos hidx, htopic]
          rfl
      · cases hread
  | some t =>
      have hpayload : ∃ more, rec.callbacks = t.callbacks ++ more ∧
          calls (payloadAccesses r 2 length remainingLength t.payloadOffset) =
            more.map Callback.cb := by
        dsimp only at h
        rw [payloadAccesses]
        split at h
        · next hmore =>
            rw [if_pos hmore]
            split at h
            · cases h
            · split at h <;>
                · obtain rfl := Option.some.inj h
                  exact ⟨_, rfl, rfl⟩
        · next hmore =>
            rw [if_neg hmore]
            obtain rfl := Option.some.inj h
            exact ⟨[], (List.append_nil _).symm, rfl⟩
      obtain ⟨more, hcallbacks, hmore⟩ := hpayload
      rw [hcallbacks, List.map_append, publishAccesses]
      split at hread
      · next hidx =>
          obtain ⟨hoffset, hcalls⟩ := calls_topic r hread
          rw [if_pos hidx]
          simp only [hoffset]
          rw [calls_append, hcalls, hmore]
      · next hidx =>
          obtain rfl := Option.some.inj (Option.some.inj hread)
          rw [if_neg hidx]
          exact hmore

theorem calls_requestCall (request : Request) (err : ℤ) :
    calls (requestCall request) =
      (if request.cb ≠ 0 then [Callback.request request.cb request.arg err] else []).map
        Callback.cb := by
  rw [requestCall]
  split <;> rfl

theorem calls_id {pktType : UInt8} {rec : Reception}
    (h : receivedId behind r pktType 2 length = some rec) :
    calls (idAccesses r 2 pktType length) = rec.callbacks.map Callback.cb := by
  rw [receivedId_eq] at h
  obtain rfl := Option.some.inj h
  have hword : (r.byte 2).toUInt16 <<< 8 ||| (r.byte (2 + 1)).toUInt16 = r.firstWord :=
    or_eq_word _ _
  rw [idAccesses, List.cons_append, List.cons_append, List.nil_append, calls_read, calls_read,
    hword, idReception]
  dsimp only
  by_cases hzero : r.firstWord = 0
  · rw [if_pos hzero, if_pos hzero]
    rfl
  rw [if_neg hzero, if_neg hzero]
  by_cases hfive : pktType = 5
  · rw [if_pos hfive, if_pos hfive]
    rfl
  rw [if_neg hfive, if_neg hfive]
  by_cases hsix : pktType = 6
  · rw [if_pos hsix, if_pos hsix]
    rfl
  rw [if_neg hsix, if_neg hsix]
  by_cases hack : pktType = 9 ∨ pktType = 11 ∨ pktType = 7 ∨ pktType = 4
  swap
  · rw [if_neg hack, if_neg hack]
    rfl
  rw [if_pos hack, if_pos hack]
  cases mqttTakeRequest r.client r.firstWord with
  | none => rfl
  | some taken =>
      dsimp only
      by_cases hnine : pktType = 9
      swap
      · rw [if_neg hnine, if_neg hnine]
        exact calls_requestCall taken.2.1 errOk
      rw [if_pos hnine, if_pos hnine]
      by_cases hlen : length < 3
      · rw [if_pos hlen, if_pos hlen]
        rfl
      · rw [if_neg hlen, if_neg hlen]
        exact calls_requestCall taken.2.1 _

/-- The calls among the accesses are those that the handler makes. -/
theorem calls_messageAccesses {rec : Reception}
    (h : mqttMessageReceived behind r 2 length remainingLength = some rec) :
    calls (messageAccesses r 2 length remainingLength) = rec.callbacks.map Callback.cb := by
  rw [mqttMessageReceived, r.load_eq (by decide), Option.bind_some] at h
  rw [messageAccesses, calls_read]
  dsimp only at h ⊢
  split_ifs at h ⊢
  · exact calls_connack r h
  · obtain rfl := Option.some.inj h
    rfl
  · exact calls_publish behind r h
  · exact calls_id behind r h

/-- A packet that is handled inside is handled to the end. -/
theorem mqttMessageReceived_of_contained (hlen : length.toNat ≤ rxBufferLen)
    (h : Contained r length) : ∃ rec, mqttMessageReceived behind r 2 length 0 = some rec := by
  have htype : r.pktType = (r.byte 0 &&& 0xf0) >>> 4 := rfl
  have hqos : r.qos = (r.byte 0 &&& 0x06) >>> 1 := rfl
  rw [mqttMessageReceived, r.load_eq (by decide), Option.bind_some]
  dsimp only
  rw [← htype, ← hqos]
  split_ifs with hconnack hping hpublish
  · rw [receivedConnack, show (2 : UInt8).toNat + 1 = 3 from rfl, r.load_eq (by decide),
      Option.map_some]
    split <;> exact ⟨_, rfl⟩
  · exact ⟨_, rfl⟩
  · by_cases hidx : r.msgIdx.toNat ≤ rxBufferLen
    · by_cases hfits : r.TopicFits length r.qos
      · obtain ⟨hend, -, hcb⟩ := (h.topic hpublish hidx).2 hfits
        have hwraps : r.firstWord.toNat < 65534 := by
          rw [rxBufferLen] at hlen
          omega
        obtain ⟨callbacks, heq⟩ := receivedPublish_fits behind r hidx hfits hlen hwraps hcb
        exact ⟨_, heq⟩
      · exact ⟨_, receivedPublish_short behind r 0 hidx hfits⟩
    · have hcb := (h.payload hpublish (Nat.not_le.mp hidx)).2
      rw [receivedPublish, if_neg hidx, Option.bind_some]
      dsimp only
      rw [if_pos (.inr rfl), if_neg hcb]
      split <;> exact ⟨_, rfl⟩
  · exact ⟨_, receivedId_eq behind r r.pktType length⟩

end Handler

/-- A packet is handled inside `rx_buffer` exactly when it has what its branch looks at. -/
theorem allInside_iff (r : Receiver) {length : UInt16} (hpos : 0 < length.toNat)
    (hlen : length.toNat ≤ rxBufferLen) :
    AllInside length (messageAccesses r 2 length 0) ↔ Contained r length := by
  have htype : r.pktType = (r.byte 0 &&& 0xf0) >>> 4 := rfl
  have hfirst : (Access.read 0).Inside length := hpos
  rw [messageAccesses, allInside_cons, and_iff_right hfirst]
  dsimp only
  rw [← htype]
  by_cases hconnack : r.pktType = 2
  · rw [if_pos hconnack, allInside_connack_iff]
    constructor
    · intro h
      refine ⟨fun _ => h, ?_, ?_, fun hno => absurd hconnack hno, ?_⟩ <;>
        · rw [hconnack]
          exact fun hno => absurd hno (by decide)
    · exact fun h => h.connack hconnack
  rw [if_neg hconnack]
  by_cases hping : r.pktType = 13
  · rw [if_pos hping]
    refine iff_of_true (allInside_nil length) ?_
    refine ⟨fun h => absurd h hconnack, ?_, ?_, fun _ hno => absurd hping hno, ?_⟩ <;>
      · rw [hping]
        exact fun hno => absurd hno (by decide)
  rw [if_neg hping]
  by_cases hpublish : r.pktType = 3
  · rw [if_pos hpublish, allInside_publish_iff r hpos hlen]
    constructor
    · rintro ⟨htopic, hpayload⟩
      refine ⟨fun h => absurd h hconnack, fun _ => htopic, fun _ => hpayload,
        fun _ _ hno => absurd hpublish hno, ?_⟩
      rw [hpublish]
      exact fun hno => absurd hno (by decide)
    · exact fun h => ⟨h.topic hpublish, h.payload hpublish⟩
  · rw [if_neg hpublish, allInside_id_iff]
    constructor
    · rintro ⟨hfour, hsuback⟩
      exact ⟨fun h => absurd h hconnack, fun h => absurd h hpublish, fun h => absurd h hpublish,
        fun _ _ _ => hfour, hsuback⟩
    · exact fun h => ⟨h.id hconnack hping hpublish, h.suback⟩

/-- A client in which no function has been set, with a packet in `rx_buffer`. -/
def holding (packet : DeviceRead) : Receiver :=
  Receiver.reads
    { client := fresh
      cyclicTick := 0
      inpubPktId := 0
      inpubArg := 0
      dataCb := 0
      pubCb := 0
      msgIdx := 0
      rxBuffer := List.replicate rxBufferLen 0
      size := length_rxZeros } packet

/-- A `SUBACK` packet. -/
theorem allInside_suback :
    AllInside 5 (messageAccesses (holding ⟨[0x90, 3, 0, 10, 1], by decide⟩) 2 5 0) := by
  have hfirst : (holding ⟨[0x90, 3, 0, 10, 1], by decide⟩).byte 0 = 0x90 := byte_reads _ _ 0
  have htype : (holding ⟨[0x90, 3, 0, 10, 1], by decide⟩).pktType = 9 := by
    rw [Receiver.pktType, hfirst]
    decide
  have hother {n : UInt8} (hn : (9 : UInt8) ≠ n) {P : Prop}
      (h : (holding ⟨[0x90, 3, 0, 10, 1], by decide⟩).pktType = n) : P :=
    absurd (htype.symm.trans h) hn
  apply (allInside_iff (holding ⟨[0x90, 3, 0, 10, 1], by decide⟩) (by decide) (by decide)).mpr
  exact ⟨fun h => hother (by decide) h, fun h => hother (by decide) h,
    fun h => hother (by decide) h, fun _ _ _ => by decide, fun _ _ _ => by decide⟩

/-- A `PUBLISH` packet with the topic `a` and the payload `b` is handed to no function. -/
theorem messageAccesses_null :
    ¬ ∀ (r : Receiver) (length : UInt16), 0 < length.toNat → length.toNat ≤ rxBufferLen →
      AllInside length (messageAccesses r 2 length 0) := by
  intro hall
  have hpacket : ([0x30, 4, 0, 1, 97, 98] : List UInt8).length ≤ rxBufferLen := by decide
  have htype : ((holding ⟨_, hpacket⟩).byte 0 &&& 0xf0) >>> 4 = 3 := by
    have hfirst : (holding ⟨_, hpacket⟩).byte 0 = 0x30 := byte_reads _ _ 0
    rw [hfirst]
    decide
  have hword : (holding ⟨_, hpacket⟩).firstWord = 1 := by
    have hhigh : (holding ⟨_, hpacket⟩).byte 2 = 0 := byte_reads _ _ 2
    have hlow : (holding ⟨_, hpacket⟩).byte 3 = 1 := byte_reads _ _ 3
    rw [Receiver.firstWord, hhigh, hlow]
    decide
  have hinside := hall (holding ⟨_, hpacket⟩) 6 (by decide) (by decide)
  rw [messageAccesses, allInside_cons] at hinside
  dsimp only at hinside
  rw [htype, if_neg (by decide), if_neg (by decide), if_pos rfl,
    allInside_publish_iff _ (by decide) (by decide)] at hinside
  have hfits : (holding ⟨_, hpacket⟩).TopicFits 6
      (((holding ⟨_, hpacket⟩).byte 0 &&& 0x06) >>> 1) := by
    have hfirst : (holding ⟨_, hpacket⟩).byte 0 = 0x30 := byte_reads _ _ 0
    rw [Receiver.TopicFits, hword, hfirst]
    decide
  exact ((hinside.2.1 (Nat.zero_le _)).2 hfits).2.2 rfl

end Lwip
