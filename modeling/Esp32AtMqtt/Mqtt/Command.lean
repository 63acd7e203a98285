import Esp32AtMqtt.Mqtt.RoundTrip

/-!
# Command topics

`Mqtt_HandlePublish` looks for `$creq` at the start of a topic that begins with `$`, and
takes the command's identifier from the seventh byte on. The slash between the two is not
looked at, so a topic that goes on otherwise is taken for a command too, and behind the
topic `$creq` itself the identifier begins past the topic's null byte.
-/

namespace Mqtt

/-- The topic of the packet body `pkt`. -/
def publishTopic (pkt : List UInt8) : List UInt8 := (pkt.drop 2).take (mqttRB16 pkt).toNat

/-- The payload of the packet body `pkt`: behind the topic at the lowest level, and behind
the packet identifier at the others. -/
def publishPayload (flags : UInt8) (pkt : List UInt8) : List UInt8 :=
  pkt.drop ((if (flags &&& 0x06) >>> 1 = 0 then 2 else 4) + (mqttRB16 pkt).toNat)

/-- Where the handler leaves the topic: at the lowest level it moves over its length. -/
def topicOffset (flags : UInt8) : ℕ := if (flags &&& 0x06) >>> 1 = 0 then 0 else 2

/-- The request calls `handle_cmd`. -/
def Request.isCmd : Request → Bool
  | .cmd .. => true
  | _ => false

/-- What a command topic is: `$creq/` and an identifier. -/
def IsCmdTopic (IsId : List UInt8 → Prop) (topic : List UInt8) : Prop :=
  ∃ id, IsId id ∧ topic = cmdTopicPrefix ++ 0x2F :: id

/-- Commands are recognised exactly: `handle_cmd` is among the calls when the topic is a
command topic, it is then the only call, with the identifier as a null-terminated string
and with the payload, and the pointer it gets lies in `topicMem`, where the topic is, not
behind the null byte at the topic's end. -/
structure CommandExact (IsId : List UInt8 → Prop) (topic payload topicMem : List UInt8)
    (calls : List Request) : Prop where
  called : (∃ c ∈ calls, c.isCmd) ↔ IsCmdTopic IsId topic
  once : ∀ id, IsId id → topic = cmdTopicPrefix ++ 0x2F :: id → 0 ∉ id ∧
    ∃ pktId rest dup qos,
      calls = [.cmd pktId (id ++ 0 :: rest) payload payload.length dup qos]
  inside : ∀ pktId cmdid arg n dup qos, .cmd pktId cmdid arg n dup qos ∈ calls →
    ∃ k ≤ topic.length, cmdid = topicMem.drop k

/-- A string without a null byte is looked for in a null-terminated one. -/
theorem isPrefix_cString_iff {p : List UInt8} (hp : 0 ∉ p) (t rest : List UInt8) :
    p <+: cString (t ++ 0 :: rest) ↔ p <+: t := by
  induction p generalizing t with
  | nil => simp
  | cons x p ih =>
      rw [List.mem_cons, not_or] at hp
      cases t with
      | nil => simp [cString]
      | cons y t =>
          by_cases hy : y = 0
          · have hno : cString (y :: t ++ 0 :: rest) = [] := by simp [cString, hy]
            rw [hno, List.cons_prefix_cons, hy]
            exact iff_of_false (by simp) fun h => hp.1 h.1.symm
          · have hcons : cString (y :: t ++ 0 :: rest) = y :: cString (t ++ 0 :: rest) := by
              simp [cString, hy]
            rw [hcons, List.cons_prefix_cons, List.cons_prefix_cons, ih hp.2]

theorem zero_notMem_cmdTopicPrefix : 0 ∉ cmdTopicPrefix := by decide

/-- A topic that starts with `$creq` and passes the check has no null byte: its second byte
is no trailing byte, so only characters of one byte pass. -/
theorem zero_notMem_of_cmdTopic {topic rest : List UInt8}
    (hcheck : mqttCheckUtf8 (topic ++ 0 :: rest) topic.length = topic.length)
    (hcmd : cmdTopicPrefix <+: topic) : 0 ∉ topic := by
  obtain ⟨t, rfl⟩ := hcmd
  set str := cmdTopicPrefix ++ t ++ 0 :: rest with hstr
  have hle : (cmdTopicPrefix ++ t).length ≤ str.length := by
    have hsplit : str.length = (cmdTopicPrefix ++ t).length + (0 :: rest).length :=
      List.length_append
    exact hsplit ▸ Nat.le_add_right _ _
  obtain ⟨cs, -, hflat, hpass⟩ := (mqttCheckUtf8_eq_iff hle).mp hcheck
  rw [hstr, List.take_left' rfl] at hflat
  have hone : ∀ c ∈ cs, c.length = 1 := by
    intro c hc
    obtain ⟨⟨hpos, -⟩, htrail, -⟩ := (mqttIsLegalUtf8_eq_noerror_iff _ _).mp (hpass.legal c hc)
    by_contra hne
    have hsecond := htrail 1 le_rfl (by omega)
    exact absurd hsecond (by simp [hstr, cmdTopicPrefix, isTrailing])
  intro hzero
  rw [← hflat] at hzero
  obtain ⟨c, hc, hmem⟩ := List.mem_flatten.mp hzero
  obtain ⟨b, rfl⟩ := List.length_eq_one_iff.mp (hone c hc)
  obtain rfl : 0 = b := List.mem_singleton.mp hmem
  cases cs with
  | nil => cases hc
  | cons d ds =>
      rcases List.mem_cons.mp hc with rfl | htail
      · simp [cmdTopicPrefix] at hflat
      · exact hpass.no_null _ htail rfl

/-- What a body that passes the first half holds, by its level. -/
theorem publishParts_offsets {flags : UInt8} {pkt : List UInt8} {parts : PublishParts}
    (h : publishParts flags pkt = some parts) :
    parts.topic = topicOffset flags ∧ pkt.drop parts.payload = publishPayload flags pkt := by
  obtain ⟨-, -, -, ⟨hzero, -, rfl⟩ | ⟨hlevel, -, -, rfl⟩⟩ := publishParts_eq_some_iff.mp h
  · rw [topicOffset, publishPayload, if_pos hzero, if_pos hzero]
    exact ⟨rfl, rfl⟩
  · have hne : ¬ (flags &&& 0x06) >>> 1 = 0 := by
      rcases hlevel with hq | hq <;> rw [hq] <;> decide
    rw [topicOffset, publishPayload, if_neg hne, if_neg hne]
    exact ⟨rfl, rfl⟩

/-- A topic of the system is not handed over. -/
theorem handle_system_logged {σ : Type*} (cb : MqttCallbacks σ) (pktId : UInt16) (qos : UInt8)
    (s : HandlerState (σ × List Request)) :
    ((Request.system pktId qos).handle (logged cb) s).2.1.2 = s.1.2 := by
  have hcode : ¬ mqtterrNoerror < 0 := by decide
  have hcall : callback ((Request.system pktId qos).call (logged cb)) s = (mqtterrNoerror, s) :=
    rfl
  simp only [Request.handle, hcall]
  rw [if_neg hcode]
  split
  · rfl
  · exact sendResponse_logged cb _ _ _

/-- The calls for an accepted body: one of `handle_cmd` when the topic starts with `$creq`,
and none of it otherwise. -/
theorem calls_of_accepted {σ : Type*} (cb : MqttCallbacks σ) (s : σ) (h : MqttHeap)
    {flags : UInt8} {pkt : List UInt8} (hacc : (decodePublish flags pkt).isSome) :
    let r := mqttHandlePublish (logged cb) flags pkt ((s, []), h)
    ∃ rest, r.pkt.drop (topicOffset flags) = publishTopic pkt ++ 0 :: rest ∧
      mqttCheckUtf8 (publishTopic pkt ++ 0 :: rest) (publishTopic pkt).length =
        (publishTopic pkt).length ∧
      ((cmdTopicPrefix <+: publishTopic pkt ∧ ∃ pktId dup qos, r.state.1.2 =
          [.cmd pktId ((publishTopic pkt ++ 0 :: rest).drop 6) (publishPayload flags pkt)
            (publishPayload flags pkt).length dup qos]) ∨
        ¬ cmdTopicPrefix <+: publishTopic pkt ∧ ∀ c ∈ r.state.1.2, c.isCmd = false) := by
  intro r
  obtain ⟨req, hreq⟩ := Option.isSome_iff_exists.mp hacc
  obtain ⟨parts, hparts, hok, rfl⟩ := decodePublish_eq_some hreq
  obtain ⟨rest, hrest⟩ := publishParts_topic hparts
  obtain ⟨-, -, hpayload⟩ := publishParts_spec hparts
  obtain ⟨hoffset, hbehind⟩ := publishParts_offsets hparts
  have hlen : (publishTopic pkt).length = (mqttRB16 pkt).toNat := by
    obtain ⟨-, -, hlong, -⟩ := publishParts_eq_some_iff.mp hparts
    rw [publishTopic, List.length_take, List.length_drop]
    omega
  have hcheck : mqttCheckUtf8 (publishTopic pkt ++ 0 :: rest) (publishTopic pkt).length =
      (publishTopic pkt).length := by
    rw [topicOk, Bool.and_eq_true, decide_eq_true_eq, hrest] at hok
    rw [hlen]
    exact hok.1
  have hpkt : r.pkt = parts.pkt := pkt_mqttHandlePublish (logged cb) hparts ((s, []), h)
  have hstate : r.state = ((publishRequest parts pkt.length (flags &&& 0x08)
      ((flags &&& 0x06) >>> 1)).handle (logged cb) ((s, []), h)).2 := by
    have heq := congrArg Prod.snd (mqttHandlePublish_eq_handle (logged cb) flags pkt ((s, []), h))
    rwa [hreq] at heq
  refine ⟨rest, by rw [hpkt, ← hoffset, hrest]; rfl, hcheck, ?_⟩
  have hfound := isPrefix_cString_iff zero_notMem_cmdTopicPrefix (publishTopic pkt) rest
  rw [hstate, publishRequest, hrest, hpayload, hbehind]
  by_cases hcmd : cmdTopicPrefix <+: publishTopic pkt
  · have hdollar : (publishTopic pkt ++ 0 :: rest).head? = some 0x24 := by
      obtain ⟨t, ht⟩ := hcmd
      rw [← ht]
      rfl
    have hsize : pkt.length - parts.payload = (publishPayload flags pkt).length := by
      rw [← hbehind, List.length_drop]
    refine .inl ⟨hcmd, parts.pktId, flags &&& 0x08, (flags &&& 0x06) >>> 1, ?_⟩
    rw [← publishTopic, if_pos hdollar, if_pos (hfound.mpr hcmd), hsize, handle_logged cb rfl]
    rfl
  · refine .inr ⟨hcmd, ?_⟩
    rw [← publishTopic, if_neg (hfound.not.mpr hcmd)]
    split
    · rw [handle_system_logged]
      simp
    · rw [handle_logged cb rfl]
      simp [Request.isCmd]

/-- Commands are recognised exactly for an accepted packet, whatever counts as an
identifier, if and only if a topic that starts with `$creq` goes on with a slash and an
identifier. -/
theorem handleCmd_exact_iff {σ : Type*} (cb : MqttCallbacks σ) (s : σ) (h : MqttHeap)
    (IsId : List UInt8 → Prop) (flags : UInt8) (pkt : List UInt8)
    (hacc : (decodePublish flags pkt).isSome) :
    let r := mqttHandlePublish (logged cb) flags pkt ((s, []), h)
    CommandExact IsId (publishTopic pkt) (publishPayload flags pkt)
        (r.pkt.drop (topicOffset flags)) r.state.1.2 ↔
      (cmdTopicPrefix <+: publishTopic pkt → IsCmdTopic IsId (publishTopic pkt)) := by
  intro r
  obtain ⟨rest, hmem, hcheck, hcalls⟩ := calls_of_accepted cb s h hacc
  rw [hmem]
  constructor
  · intro hexact hcmd
    rcases hcalls with ⟨-, pktId, dup, qos, hcalls⟩ | ⟨hno, -⟩
    · exact hexact.called.mp ⟨_, by rw [hcalls]; exact List.mem_singleton_self _, rfl⟩
    · exact absurd hcmd hno
  · intro hcond
    rcases hcalls with ⟨hcmd, pktId, dup, qos, hcalls⟩ | ⟨hno, hother⟩
    · obtain ⟨id, hid, htopic⟩ := hcond hcmd
      have hdrop : (publishTopic pkt ++ 0 :: rest).drop 6 = id ++ 0 :: rest := by
        rw [htopic]
        rfl
      have hzero := zero_notMem_of_cmdTopic hcheck hcmd
      refine ⟨iff_of_true ⟨_, by rw [hcalls]; exact List.mem_singleton_self _, rfl⟩
        ⟨id, hid, htopic⟩, fun id' _ htopic' => ?_, fun pktId' cmdid arg n dup' qos' hcall => ?_⟩
      · have heq : id' = id := by
          rw [htopic', List.append_cancel_left_eq, List.cons.injEq] at htopic
          exact htopic.2
        refine ⟨fun hmem => hzero ?_, pktId, rest, dup, qos, by rw [hcalls, hdrop, heq]⟩
        rw [htopic']
        exact List.mem_append_right _ (List.mem_cons_of_mem _ hmem)
      · rw [hcalls, List.mem_singleton, Request.cmd.injEq] at hcall
        refine ⟨6, ?_, hcall.2.1⟩
        rw [htopic]
        simp [cmdTopicPrefix]
    · have hform : ¬ IsCmdTopic IsId (publishTopic pkt) := by
        rintro ⟨id, -, htopic⟩
        exact hno ⟨_, htopic.symm⟩
      refine ⟨iff_of_false (fun ⟨c, hc, hcmd⟩ => ?_) hform, fun id hid htopic => ?_,
        fun _ _ _ _ _ _ hcall => ?_⟩
      · rw [hother c hc] at hcmd
        cases hcmd
      · exact absurd ⟨id, hid, htopic⟩ hform
      · cases hother _ hcall

/-- The topic `$creq/7` with an empty payload, at the lowest level. -/
theorem handleCmd_exact_creq_seven :
    let pkt := [0, 7, 0x24, 0x63, 0x72, 0x65, 0x71, 0x2F, 0x37]
    let r := mqttHandlePublish (logged willingCallbacks) 0 pkt (((), []), ⟨fun _ => 0, [], []⟩)
    CommandExact (· ≠ []) (publishTopic pkt) (publishPayload 0 pkt) (r.pkt.drop 0)
      r.state.1.2 :=
  (handleCmd_exact_iff willingCallbacks () ⟨fun _ => 0, [], []⟩ (· ≠ []) 0
    [0, 7, 0x24, 0x63, 0x72, 0x65, 0x71, 0x2F, 0x37] (by decide +kernel)).mpr
    fun _ => ⟨[0x37], by decide, rfl⟩

/-- For the topic `$creq` the identifier begins behind the topic's null byte, whatever counts
as an identifier. -/
theorem handleCmd_behind_topic :
    let pkt := [0, 5, 0x24, 0x63, 0x72, 0x65, 0x71]
    let r := mqttHandlePublish (logged willingCallbacks) 0 pkt (((), []), ⟨fun _ => 0, [], []⟩)
    (decodePublish 0 pkt).isSome ∧ ∀ IsId, ¬ CommandExact IsId (publishTopic pkt)
      (publishPayload 0 pkt) (r.pkt.drop 0) r.state.1.2 := by
  intro pkt r
  refine ⟨by decide +kernel, fun IsId hexact => ?_⟩
  have hcalls : r.state.1.2 = [.cmd 0 [0x71] [] 0 0 0] := by decide +kernel
  have hpkt : r.pkt = [0x24, 0x63, 0x72, 0x65, 0x71, 0, 0x71] := by decide +kernel
  obtain ⟨k, hk, heq⟩ := hexact.inside 0 [0x71] [] 0 0 0 (by rw [hcalls]; simp)
  have hlen := congrArg List.length heq
  have htopic : (publishTopic pkt).length = 5 := by decide
  rw [hpkt, List.drop_zero, List.length_drop] at hlen
  simp only [List.length_cons, List.length_nil] at hlen
  omega

end Mqtt
