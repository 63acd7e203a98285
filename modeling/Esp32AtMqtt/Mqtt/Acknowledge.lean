import Esp32AtMqtt.Mqtt.Request

/-!
# Acknowledgements

What the client writes to the connection while packets are dispatched. `ackDue` reads the
answer to a packet off its bytes, and `mqttDispatchAll` passes a sequence of packets to
`Mqtt_Dispatch`. When `writev_func` sends everything and `malloc` succeeds, the bytes
written are the answers due, one for each packet whose callback has succeeded, in the order
of the packets.

To tell the dispatcher's bytes from those that the callbacks may write, `recorded` keeps
the bytes given to `writev_func` next to the state of the callbacks.
-/

namespace Mqtt

open FlatMemory

/-- The callbacks, with a record of the bytes that `writev_func` is given. -/
def recorded {σ : Type*} (cb : MqttCallbacks σ) : MqttCallbacks (σ × List UInt8) :=
  let lift := fun (f : σ → ℤ × σ) (s : σ × List UInt8) => ((f s.1).1, ((f s.1).2, s.2))
  { writevFunc := fun s mem iov =>
      ((cb.writevFunc s.1 mem iov).1, ((cb.writevFunc s.1 mem iov).2, s.2 ++ flattenIov mem iov))
    handlePingResp := lift cb.handlePingResp
    handleConnAck := fun flags retCode => lift (cb.handleConnAck flags retCode)
    handlePublish := fun pktId topic payload n dup qos =>
      lift (cb.handlePublish pktId topic payload n dup qos)
    handlePubAck := fun pktId => lift (cb.handlePubAck pktId)
    handlePubRec := fun pktId => lift (cb.handlePubRec pktId)
    handlePubRel := fun pktId => lift (cb.handlePubRel pktId)
    handlePubComp := fun pktId => lift (cb.handlePubComp pktId)
    handleSubAck := fun pktId codes count => lift (cb.handleSubAck pktId codes count)
    handleUnsubAck := fun pktId => lift (cb.handleUnsubAck pktId)
    handleCmd := fun pktId cmdid ts desc arg n dup qos =>
      lift (cb.handleCmd pktId cmdid ts desc arg n dup qos) }

/-- `writev_func` sends everything it is given. -/
def SendsAll {σ : Type*} (cb : MqttCallbacks σ) : Prop :=
  ∀ s mem iov, (cb.writevFunc s mem iov).1 = (flattenIov mem iov).length

/-- The answer due to an accepted packet: `PUBACK` or `PUBREC` to a `PUBLISH` by its level,
`PUBREL` to a `PUBREC` and `PUBCOMP` to a `PUBREL`. Each has the two bytes of the packet's
identifier. -/
def ackDue (fh : UInt8) (pkt : List UInt8) : List UInt8 :=
  match (fh >>> 4).toNat with
  | 3 =>
      let pktId := (pkt.drop ((mqttRB16 pkt).toNat + 2)).take 2
      let qos := (fh &&& 0x06) >>> 1
      if qos = 1 then 0x40 :: 2 :: pktId else if qos = 2 then 0x50 :: 2 :: pktId else []
  | 5 => 0x62 :: 2 :: pkt
  | 6 => 0x70 :: 2 :: pkt
  | _ => []

/-- A packet that has been dispatched: the state that it found, and the code returned. -/
structure Dispatched (σ : Type*) where
  fh : UInt8
  pkt : List UInt8
  found : σ
  errcode : ℤ

/-- Pass packets to `Mqtt_Dispatch`, one after the other. -/
def mqttDispatchAll {σ : Type*} (cb : MqttCallbacks σ) :
    List (UInt8 × List UInt8) → HandlerState σ → List (Dispatched σ) × HandlerState σ
  | [], s => ([], s)
  | (fh, pkt) :: packets, s =>
      let r := mqttDispatch cb s fh pkt
      let rest := mqttDispatchAll cb packets r.state
      (⟨fh, pkt, s.1, r.errcode⟩ :: rest.1, rest.2)

/-- What is written for a packet: its answer, when the packet is accepted and its callback
does not fail in the state that the packet finds. -/
def Dispatched.written {σ : Type*} (cb : MqttCallbacks σ) (d : Dispatched (σ × List UInt8)) :
    List UInt8 :=
  match request d.fh d.pkt with
  | none => []
  | some r => if (r.call cb d.found.1).1 < 0 then [] else ackDue d.fh d.pkt

/-- The codes that a dispatched packet may return: a refused packet is illegal, and the
code of a callback that fails is passed on. -/
def Dispatched.CodeOk {σ : Type*} (cb : MqttCallbacks σ) (d : Dispatched (σ × List UInt8)) :
    Prop :=
  match request d.fh d.pkt with
  | none => d.errcode = mqtterrIllegalPkt
  | some r =>
      if (r.call cb d.found.1).1 < 0 then d.errcode = (r.call cb d.found.1).1
      else 0 ≤ d.errcode

/-- A callback is called with the state of the callbacks, and records nothing. -/
theorem call_recorded {σ : Type*} (cb : MqttCallbacks σ) (r : Request) (s : σ × List UInt8) :
    r.call (recorded cb) s = ((r.call cb s.1).1, ((r.call cb s.1).2, s.2)) := by
  cases r <;> rfl

/-- An answer is packed and sent whole, and its three allocations succeed. -/
theorem sendResponse_recorded {σ : Type*} {cb : MqttCallbacks σ} (hcb : SendsAll cb) (a : Answer)
    {pktId : UInt16} (hid : pktId ≠ 0) (s : σ × List UInt8) {h : MqttHeap} {n : ℕ}
    (hs : h.Supplies (n + 3)) :
    ∃ s' h', sendResponse (recorded cb) a.pack pktId (s, h) =
        (mqtterrNoerror, (s', s.2 ++ a.head :: 2 :: mqttWB16 pktId), h') ∧ h'.Supplies n := by
  obtain ⟨p, buf, h₁, halloc, hs₁⟩ := allocExtent_of_supplies mqttBufferInit 4 hs
  obtain ⟨hnil, hzero, -⟩ := mqttBufferAllocExtent_frame mqttBufferInit 4 h
  rw [halloc] at hnil hzero
  change buf.extents = [] at hnil
  change buf.bufferedBytes = 0 at hzero
  set bytes := a.head :: 2 :: mqttWB16 pktId with hbytes
  have hpack : a.pack mqttBufferInit pktId h =
      (mqtterrNoerror, mqttBufferAppendExtent buf ⟨4, p⟩, h₁.write p bytes) := by
    rw [a.pack_eq, mqttPackIdPkt, if_neg hid, halloc]
  have hs₁' : (h₁.write p bytes).Supplies (n + 1) := hs₁
  obtain ⟨iov, h₂, hiov, hs₂, hmem⟩ := hs₁'.malloc
  have hread : readMem (writeMem h₁.mem p bytes) p 4 = bytes :=
    readMem_writeMem_self h₁.mem p bytes (by simp [hbytes, mqttWB16])
  have hflat : flattenIov (writeMem h₁.mem p bytes) [⟨p, 4⟩] = bytes := by
    rw [flattenIov, List.flatMap_singleton]
    exact hread
  have hvec : mqttSendPktIov (mqttBufferAppendExtent buf ⟨4, p⟩) 0 = some [⟨p, 4⟩] := by
    simp [mqttSendPktIov, mqttBufferAppendExtent, hnil, hzero, mqttSendPktSkip, mqttSendPktFill]
  have hsend : mqttSendPkt (recorded cb).writevFunc s (mqttBufferAppendExtent buf ⟨4, p⟩) 0
      (h₁.write p bytes) =
      (4, ((cb.writevFunc s.1 (writeMem h₁.mem p bytes) [⟨p, 4⟩]).2, s.2 ++ bytes),
        h₂.free (some iov)) := by
    have hcount := hcb s.1 (writeMem h₁.mem p bytes) [⟨p, 4⟩]
    rw [hflat] at hcount
    rw [mqttSendPkt, hvec]
    simp only [hiov]
    rw [show h₂.mem = writeMem h₁.mem p bytes from hmem]
    simp only [recorded, hflat, hcount]
    rfl
  have hall : (mqttBufferAppendExtent buf ⟨4, p⟩).bufferedBytes = UInt32.ofInt 4 := by
    rw [mqttBufferAppendExtent, hzero]
    rfl
  simp only [sendResponse, hpack, hsend, hall, ne_eq, not_true, if_false, if_true]
  exact ⟨_, _, rfl, hs₂⟩

/-- The two bytes of a number are stored as they were read. -/
theorem mqttWB16_mqttRB16_of_length {v : List UInt8} (h : 2 ≤ v.length) :
    mqttWB16 (mqttRB16 v) = v.take 2 := by
  match v, h with
  | a :: b :: rest, _ => exact mqttWB16_mqttRB16 a b rest

theorem decodeId_eq_some {w flags : UInt8} {f : UInt16 → Request} {pkt : List UInt8}
    {r : Request} (h : decodeId w f flags pkt = some r) :
    flags = w ∧ pkt.length = 2 ∧ mqttRB16 pkt ≠ 0 ∧ r = f (mqttRB16 pkt) := by
  simp only [decodeId] at h
  split_ifs at h with hbad hzero
  rw [not_or, not_not, not_not] at hbad
  exact ⟨hbad.1, hbad.2, hzero, (Option.some.inj h).symm⟩

theorem decodePublish_eq_some {flags : UInt8} {pkt : List UInt8} {r : Request}
    (h : decodePublish flags pkt = some r) :
    ∃ parts, publishParts flags pkt = some parts ∧
      topicOk (parts.pkt.drop parts.topic) (mqttRB16 pkt).toNat = true ∧
      r = publishRequest parts pkt.length (flags &&& 0x08) ((flags &&& 0x06) >>> 1) := by
  simp only [decodePublish] at h
  cases hparts : publishParts flags pkt with
  | none => simp [hparts] at h
  | some parts =>
      simp only [hparts] at h
      split_ifs at h with hok
      exact ⟨parts, rfl, hok, (Option.some.inj h).symm⟩

/-- The bytes of an answer. -/
def answerBytes : Option (Answer × UInt16) → List UInt8
  | none => []
  | some (a, pktId) => a.head :: 2 :: mqttWB16 pktId

/-- The answer to a `PUBLISH` packet is the one that is due. -/
theorem answerBytes_decodePublish {fh : UInt8} {pkt : List UInt8} {r : Request}
    (h : decodePublish (fh &&& 0x0F) pkt = some r) :
    answerBytes r.answer =
      if (fh &&& 0x06) >>> 1 = 1 then
        0x40 :: 2 :: (pkt.drop ((mqttRB16 pkt).toNat + 2)).take 2
      else if (fh &&& 0x06) >>> 1 = 2 then
        0x50 :: 2 :: (pkt.drop ((mqttRB16 pkt).toNat + 2)).take 2
      else [] := by
  obtain ⟨parts, hparts, -, rfl⟩ := decodePublish_eq_some h
  have hmask : fh &&& 0x0F &&& 0x06 = fh &&& 0x06 := by
    rw [UInt8.and_assoc]
    rfl
  rw [publishParts_eq_some_iff, hmask] at hparts
  rw [answer_publishRequest, hmask, Request.publishAnswer]
  obtain ⟨-, -, -, ⟨hqos, -, rfl⟩ | ⟨hqos, hlen, -, rfl⟩⟩ := hparts
  · rw [hqos]
    rfl
  · have hid : mqttWB16 (mqttRB16 (pkt.drop ((mqttRB16 pkt).toNat + 2))) =
        (pkt.drop ((mqttRB16 pkt).toNat + 2)).take 2 :=
      mqttWB16_mqttRB16_of_length (by rw [List.length_drop]; omega)
    rcases hqos with hqos | hqos
    · rw [hqos, ← hid]
      rfl
    · rw [hqos, ← hid]
      rfl

/-- An answer never has the packet identifier 0. -/
theorem pktId_ne_zero_of_request {fh : UInt8} {pkt : List UInt8} {r : Request} {a : Answer}
    {pktId : UInt16} (h : request fh pkt = some r) (ha : r.answer = some (a, pktId)) :
    pktId ≠ 0 := by
  simp only [request] at h
  generalize (fh >>> 4).toNat = packetType at h
  split at h
  · split_ifs at h
    obtain rfl := Option.some.inj h
    simp [Request.answer] at ha
  · simp only [decodeConnAck] at h
    split_ifs at h
    obtain rfl := Option.some.inj h
    simp [Request.answer] at ha
  · obtain ⟨parts, hparts, -, rfl⟩ := decodePublish_eq_some h
    rw [publishParts_eq_some_iff] at hparts
    rw [answer_publishRequest, Request.publishAnswer] at ha
    obtain ⟨-, -, -, ⟨hqos, -, rfl⟩ | ⟨-, -, hid, rfl⟩⟩ := hparts
    · simp [hqos] at ha
    · split_ifs at ha <;> exact (Prod.mk.inj (Option.some.inj ha)).2 ▸ hid
  · obtain ⟨-, -, -, rfl⟩ := decodeId_eq_some h
    simp [Request.answer] at ha
  · obtain ⟨-, -, hid, rfl⟩ := decodeId_eq_some h
    exact (Prod.mk.inj (Option.some.inj ha)).2 ▸ hid
  · obtain ⟨-, -, hid, rfl⟩ := decodeId_eq_some h
    exact (Prod.mk.inj (Option.some.inj ha)).2 ▸ hid
  · obtain ⟨-, -, -, rfl⟩ := decodeId_eq_some h
    simp [Request.answer] at ha
  · simp only [decodeSubAck] at h
    split_ifs at h
    obtain rfl := Option.some.inj h
    simp [Request.answer] at ha
  · obtain ⟨-, -, -, rfl⟩ := decodeId_eq_some h
    simp [Request.answer] at ha
  · simp at h

/-- The answer that a request wants is the one that is due to the packet. -/
theorem answerBytes_request {fh : UInt8} {pkt : List UInt8} {r : Request}
    (h : request fh pkt = some r) : answerBytes r.answer = ackDue fh pkt := by
  have hid : pkt.length = 2 → mqttWB16 (mqttRB16 pkt) = pkt := fun hlen => by
    rw [mqttWB16_mqttRB16_of_length hlen.ge, List.take_of_length_le hlen.le]
  simp only [request] at h
  simp only [ackDue]
  generalize (fh >>> 4).toNat = packetType at h ⊢
  split at h
  · split_ifs at h
    exact (Option.some.inj h) ▸ rfl
  · simp only [decodeConnAck] at h
    split_ifs at h
    exact (Option.some.inj h) ▸ rfl
  · exact answerBytes_decodePublish h
  · obtain ⟨-, -, -, rfl⟩ := decodeId_eq_some h
    rfl
  · obtain ⟨-, hlen, -, rfl⟩ := decodeId_eq_some h
    simp only [Request.answer, answerBytes, Answer.head, hid hlen]
  · obtain ⟨-, hlen, -, rfl⟩ := decodeId_eq_some h
    simp only [Request.answer, answerBytes, Answer.head, hid hlen]
  · obtain ⟨-, -, -, rfl⟩ := decodeId_eq_some h
    rfl
  · simp only [decodeSubAck] at h
    split_ifs at h
    exact (Option.some.inj h) ▸ rfl
  · obtain ⟨-, -, -, rfl⟩ := decodeId_eq_some h
    rfl
  · simp at h

theorem answerCode_noerror (r : Request) : r.answerCode mqtterrNoerror = mqtterrNoerror := by
  cases r <;> rfl

/-- One packet: what is written for it, and its code. -/
theorem mqttDispatch_recorded {σ : Type*} {cb : MqttCallbacks σ} (hcb : SendsAll cb)
    (s : σ × List UInt8) {h : MqttHeap} {n : ℕ} (hs : h.Supplies (n + 3)) (fh : UInt8)
    (pkt : List UInt8) :
    let r := mqttDispatch (recorded cb) (s, h) fh pkt
    let d : Dispatched (σ × List UInt8) := ⟨fh, pkt, s, r.errcode⟩
    r.state.1.2 = s.2 ++ d.written cb ∧ d.CodeOk cb ∧ r.state.2.Supplies n := by
  have heq := mqttDispatch_eq_handle (recorded cb) (s, h) fh pkt
  have hcode := congrArg Prod.fst heq
  have hstate := congrArg Prod.snd heq
  simp only at hcode hstate
  simp only [hcode, hstate, Dispatched.written, Dispatched.CodeOk]
  cases hr : request fh pkt with
  | none => exact ⟨(List.append_nil _).symm, rfl, hs.mono (by omega)⟩
  | some r =>
      simp only [handleRequest, Request.handle, callback, call_recorded]
      by_cases herr : (r.call cb s.1).1 < 0
      · simp only [if_pos herr]
        exact ⟨(List.append_nil _).symm, trivial, hs.mono (by omega)⟩
      · simp only [if_neg herr]
        have hdue := answerBytes_request hr
        cases ha : r.answer with
        | none =>
            rw [ha] at hdue
            rw [← hdue]
            exact ⟨(List.append_nil _).symm, Int.not_lt.mp herr, hs.mono (by omega)⟩
        | some a =>
            obtain ⟨a, pktId⟩ := a
            obtain ⟨s', h', hsent, hs'⟩ := sendResponse_recorded hcb a
              (pktId_ne_zero_of_request hr ha) ((r.call cb s.1).2, s.2) hs
            rw [ha] at hdue
            simp only [hsent, ← hdue, answerCode_noerror]
            exact ⟨rfl, Int.le_refl 0, hs'⟩

theorem mqttDispatchAll_packets {σ : Type*} (cb : MqttCallbacks σ)
    (packets : List (UInt8 × List UInt8)) :
    ∀ s, (mqttDispatchAll cb packets s).1.map (fun d => (d.fh, d.pkt)) = packets := by
  induction packets with
  | nil => exact fun _ => rfl
  | cons p packets ih =>
      intro s
      rw [mqttDispatchAll, List.map_cons, ih]

/-- When no callback fails, the accepted packets are those with another code than that of an
illegal packet. -/
theorem Dispatched.written_of_nonneg {σ : Type*} {cb : MqttCallbacks σ}
    (hcb : ∀ (r : Request) s, 0 ≤ (r.call cb s).1) {d : Dispatched (σ × List UInt8)}
    (hd : d.CodeOk cb) :
    d.written cb = if d.errcode = mqtterrIllegalPkt then [] else ackDue d.fh d.pkt := by
  simp only [Dispatched.CodeOk] at hd
  simp only [Dispatched.written]
  cases hr : request d.fh d.pkt with
  | none =>
      rw [hr] at hd
      rw [if_pos hd]
  | some r =>
      have hcall : ¬ (r.call cb d.found.1).1 < 0 := Int.not_lt.mpr (hcb r d.found.1)
      simp only [hr, if_neg hcall] at hd
      have hcode : d.errcode ≠ mqtterrIllegalPkt := by
        rw [mqtterrIllegalPkt]
        omega
      simp only [if_neg hcall, if_neg hcode]

/-- A sequence of packets. -/
theorem mqttDispatchAll_recorded {σ : Type*} {cb : MqttCallbacks σ} (hcb : SendsAll cb)
    (packets : List (UInt8 × List UInt8)) :
    ∀ (s : σ × List UInt8) (h : MqttHeap), h.Supplies (3 * packets.length) →
      let run := mqttDispatchAll (recorded cb) packets (s, h)
      run.2.1.2 = s.2 ++ run.1.flatMap (Dispatched.written cb) ∧
        ∀ d ∈ run.1, d.CodeOk cb := by
  induction packets with
  | nil =>
      intro s h _
      simp [mqttDispatchAll]
  | cons p packets ih =>
      intro s h hs
      obtain ⟨fh, pkt⟩ := p
      rw [List.length_cons] at hs
      obtain ⟨hwire, hcode, hsupply⟩ := mqttDispatch_recorded hcb s
        (show h.Supplies (3 * packets.length + 3) from hs) fh pkt
      obtain ⟨hrest, hcodes⟩ := ih _ _ hsupply
      simp only [mqttDispatchAll]
      refine ⟨?_, List.forall_mem_cons.mpr ⟨hcode, hcodes⟩⟩
      rw [hrest, hwire, List.flatMap_cons, List.append_assoc]

/-- The bytes written while a sequence of packets is dispatched are the answers to the
packets that are accepted and whose callback does not fail; the code of a callback that
fails is returned. When no callback fails, every accepted packet gets the answer due. -/
theorem mqttDispatchAll_acks {σ : Type*} (cb : MqttCallbacks σ) (hcb : SendsAll cb)
    (packets : List (UInt8 × List UInt8)) (s : σ) (wire : List UInt8) (h : MqttHeap)
    (hs : h.Supplies (3 * packets.length)) :
    let run := mqttDispatchAll (recorded cb) packets ((s, wire), h)
    run.1.map (fun d => (d.fh, d.pkt)) = packets ∧
      run.2.1.2 = wire ++ run.1.flatMap (Dispatched.written cb) ∧
      (∀ d ∈ run.1, d.CodeOk cb) ∧
      ((∀ (r : Request) u, 0 ≤ (r.call cb u).1) →
        run.2.1.2 = wire ++ run.1.flatMap fun d =>
          if d.errcode = mqtterrIllegalPkt then [] else ackDue d.fh d.pkt) := by
  intro run
  obtain ⟨hwire, hcodes⟩ := mqttDispatchAll_recorded hcb packets (s, wire) h hs
  refine ⟨mqttDispatchAll_packets _ packets _, hwire, hcodes, fun hnonneg => ?_⟩
  rw [hwire]
  congr 1
  exact List.flatMap_congr fun d hd => Dispatched.written_of_nonneg hnonneg (hcodes d hd)

/-- Callbacks that succeed, with a connection that takes everything. -/
def willingCallbacks : MqttCallbacks Unit where
  writevFunc _ mem iov := ((flattenIov mem iov).length, ())
  handlePingResp s := (0, s)
  handleConnAck _ _ s := (0, s)
  handlePublish _ _ _ _ _ _ s := (0, s)
  handlePubAck _ s := (0, s)
  handlePubRec _ s := (0, s)
  handlePubRel _ s := (0, s)
  handlePubComp _ s := (0, s)
  handleSubAck _ _ _ s := (0, s)
  handleUnsubAck _ s := (0, s)
  handleCmd _ _ _ _ _ _ _ _ s := (0, s)

/-- A `PUBLISH` of level 1 on the topic `a` and a `PUBREL`, with a refused packet between
them: a `PUBACK` and a `PUBCOMP` are written. -/
theorem mqttDispatchAll_acks_publish_pubRel :
    (mqttDispatchAll (recorded willingCallbacks)
        [(0x32, [0, 1, 0x61, 0, 7]), (0x51, [0, 8]), (0x62, [0, 9])]
        (((), []), ⟨fun _ => 0, List.replicate 9 (some 64), []⟩)).2.1.2 =
      [0x40, 2, 0, 7, 0x70, 2, 0, 9] := by
  have hsupply : (⟨fun _ => 0, List.replicate 9 (some 64), []⟩ : MqttHeap).Supplies 9 :=
    fun i hi => ⟨64, List.getElem?_replicate_of_lt hi⟩
  have h := mqttDispatchAll_acks willingCallbacks (fun _ _ _ => rfl)
    [(0x32, [0, 1, 0x61, 0, 7]), (0x51, [0, 8]), (0x62, [0, 9])] () [] _ hsupply
  rw [h.2.2.2 fun r u => by cases r <;> exact Int.le_refl 0]
  rfl

end Mqtt
