import Esp32AtMqtt.Codec.Base128
import Mathlib.Tactic.Common

/-!
# Packets of MQTT 3.1.1 that a client sends

A control packet is a header byte, the length of its body as a base-128 field, and the body. The
syntax covers `CONNECT`, `PUBLISH`, the four acknowledgements, and `SUBSCRIBE` and `UNSUBSCRIBE`
with one topic. `WellFormed` are the conditions on the parts; what a topic is made of is not
looked at.

`Decodes bs p` says that `bs` is the well-formed packet `p`. A list of bytes decodes to at most
one packet (`Decodes.unique`).
-/

/-- What is published when the connection is lost. -/
@[ext] structure Will where
  topic : List UInt8
  message : List UInt8
  qos : UInt8
  retain : Bool
  deriving DecidableEq, Repr

/-- The packets that acknowledge. -/
inductive AckKind
  | pubAck
  | pubRec
  | pubRel
  | pubComp
  deriving DecidableEq, Repr

/-- A packet; a `PUBLISH` with QoS 0 has the identifier 0, which is not sent. -/
inductive ControlPacket
  | connect (cleanSession : Bool) (keepAlive : UInt16) (clientId : List UInt8) (will : Option Will)
      (user password : Option (List UInt8))
  | publish (qos : UInt8) (retain : Bool) (topic : List UInt8) (pktId : UInt16)
      (payload : List UInt8)
  | ack (kind : AckKind) (pktId : UInt16)
  | subscribe (pktId : UInt16) (topic : List UInt8) (qos : UInt8)
  | unsubscribe (pktId : UInt16) (topic : List UInt8)
  deriving DecidableEq, Repr

namespace ControlPacket

/-- A number of two bytes. -/
def be16 (v : UInt16) : List UInt8 := [(v >>> 8).toUInt8, v.toUInt8]

/-- A string with its length in front. -/
def text (str : List UInt8) : List UInt8 := be16 (UInt16.ofNat str.length) ++ str

/-- The flags of a `CONNECT` packet. -/
def connectFlags (cleanSession : Bool) (will : Option (UInt8 × Bool)) (user password : Bool) :
    UInt8 :=
  let present : UInt8 := (if user then 0x80 else 0) + (if password then 0x40 else 0)
  let willFlags : UInt8 :=
    match will with
    | some (qos, retain) => 0x04 + qos * 8 + (if retain then 0x20 else 0)
    | none => 0
  present + willFlags + (if cleanSession then 0x02 else 0)

/-- What the flags of a `CONNECT` packet say. -/
def readFlags (flags : UInt8) : Bool × Option (UInt8 × Bool) × Bool × Bool :=
  (flags &&& 0x02 ≠ 0,
    if flags &&& 0x04 = 0 then none else some (flags >>> 3 &&& 3, flags &&& 0x20 ≠ 0),
    flags &&& 0x80 ≠ 0, flags &&& 0x40 ≠ 0)

/-- A string that may be missing. -/
def optText (str : Option (List UInt8)) : List UInt8 := (str.map text).getD []

def ackHeader : AckKind → UInt8
  | .pubAck => 0x40
  | .pubRec => 0x50
  | .pubRel => 0x62
  | .pubComp => 0x70

def header : ControlPacket → UInt8
  | connect .. => 0x10
  | publish qos retain .. => 0x30 + qos * 2 + (if retain then 1 else 0)
  | ack kind _ => ackHeader kind
  | subscribe .. => 0x82
  | unsubscribe .. => 0xA2

def body : ControlPacket → List UInt8
  | connect cleanSession keepAlive clientId will user password =>
      text [0x4D, 0x51, 0x54, 0x54] ++
        ([4, connectFlags cleanSession (will.map fun w => (w.qos, w.retain)) user.isSome
            password.isSome] ++
          (be16 keepAlive ++ (text clientId ++
            (((will.map fun w => text w.topic ++ text w.message).getD []) ++
              (optText user ++ optText password)))))
  | publish qos _ topic pktId payload =>
      text topic ++ ((if qos = 0 then [] else be16 pktId) ++ payload)
  | ack _ pktId => be16 pktId
  | subscribe pktId topic qos => be16 pktId ++ (text topic ++ [qos])
  | unsubscribe pktId topic => be16 pktId ++ text topic

/-- The packet on the wire. -/
def bytes (p : ControlPacket) : List UInt8 := p.header :: (Base128.encode p.body.length ++ p.body)

/-- A string that its length can be put in front of. -/
def Fits (str : List UInt8) : Prop := str.length < 2 ^ 16

def WellFormed : ControlPacket → Prop
  | connect _ _ clientId will user password =>
      Fits clientId ∧
        (∀ w ∈ will, Fits w.topic ∧ Fits w.message ∧ w.qos ≤ 2) ∧
        (∀ str ∈ user, Fits str) ∧ (∀ str ∈ password, Fits str) ∧
        (password.isSome = true → user.isSome = true)
  | publish qos _ topic pktId _ => qos ≤ 2 ∧ Fits topic ∧ (pktId = 0 ↔ qos = 0)
  | ack _ _ => True
  | subscribe pktId topic qos => pktId ≠ 0 ∧ Fits topic ∧ qos ≤ 2
  | unsubscribe pktId topic => pktId ≠ 0 ∧ Fits topic

/-- `bs` is the packet `p`, and it is well formed. -/
structure Decodes (bs : List UInt8) (p : ControlPacket) : Prop where
  wellFormed : p.WellFormed
  bytes : p.bytes = bs

/-! ## Parts -/

theorem be16_append_inj {v w : UInt16} {bs cs : List UInt8} (h : be16 v ++ bs = be16 w ++ cs) :
    v = w ∧ bs = cs := by
  obtain ⟨hhigh, hrest⟩ := List.cons.inj h
  obtain ⟨hlow, hrest⟩ := List.cons.inj hrest
  refine ⟨?_, hrest⟩
  have hhigh' := congrArg UInt8.toNat hhigh
  have hlow' := congrArg UInt8.toNat hlow
  have hv := v.toNat_lt
  have hw := w.toNat_lt
  rw [UInt16.toNat_toUInt8, UInt16.toNat_toUInt8, UInt16.toNat_shiftRight, UInt16.toNat_shiftRight,
    Nat.shiftRight_eq_div_pow, Nat.shiftRight_eq_div_pow] at hhigh'
  rw [UInt16.toNat_toUInt8, UInt16.toNat_toUInt8] at hlow'
  have height : (8 : UInt16).toNat % 16 = 8 := rfl
  rw [height] at hhigh'
  rw [← UInt16.toNat_inj]
  omega

theorem text_append_inj {s t : List UInt8} (hs : Fits s) (ht : Fits t) {bs cs : List UInt8}
    (h : text s ++ bs = text t ++ cs) : s = t ∧ bs = cs := by
  rw [text, text, List.append_assoc, List.append_assoc] at h
  obtain ⟨hlen, hrest⟩ := be16_append_inj h
  have hlen' := congrArg UInt16.toNat hlen
  rw [UInt16.toNat_ofNat', UInt16.toNat_ofNat', Nat.mod_eq_of_lt hs, Nat.mod_eq_of_lt ht] at hlen'
  exact List.append_inj hrest hlen'

theorem length_text (str : List UInt8) : (text str).length = 2 + str.length := List.length_append

theorem readFlags_connectFlags (cleanSession : Bool) {will : Option (UInt8 × Bool)}
    (hwill : ∀ w ∈ will, w.1 ≤ 2) (user password : Bool) :
    readFlags (connectFlags cleanSession will user password) =
      (cleanSession, will, user, password) := by
  cases will with
  | none =>
      revert cleanSession user password
      decide
  | some w =>
      obtain ⟨qos, retain⟩ := w
      have hqos : qos.toNat < 3 := Nat.lt_succ_of_le (UInt8.le_iff_toNat_le.mp (hwill _ rfl))
      have hall : ∀ (c : Bool) (q : Fin 3) (r u p : Bool),
          readFlags (connectFlags c (some (UInt8.ofNat q.val, r)) u p) =
            (c, some (UInt8.ofNat q.val, r), u, p) := by
        decide
      have h := hall cleanSession ⟨qos.toNat, hqos⟩ retain user password
      rw [UInt8.ofNat_toNat] at h
      exact h

/-- What the header byte of a `PUBLISH` packet says. -/
theorem publishHeader_inj {qos qos' : UInt8} {retain retain' : Bool} (hqos : qos ≤ 2)
    (hqos' : qos' ≤ 2)
    (h : 0x30 + qos * 2 + (if retain then 1 else 0) =
      0x30 + qos' * 2 + (if retain' then 1 else 0)) : qos = qos' ∧ retain = retain' := by
  rw [UInt8.le_iff_toNat_le] at hqos hqos'
  have hall : ∀ (q q' : Fin 3) (r r' : Bool),
      0x30 + UInt8.ofNat q.val * 2 + (if r then 1 else 0) =
        0x30 + UInt8.ofNat q'.val * 2 + (if r' then 1 else 0) → q = q' ∧ r = r' := by
    decide
  have hfin := hall ⟨qos.toNat, Nat.lt_succ_of_le hqos⟩ ⟨qos'.toNat, Nat.lt_succ_of_le hqos'⟩
    retain retain'
  simp only [UInt8.ofNat_toNat, Fin.mk.injEq, UInt8.toNat_inj] at hfin
  exact hfin h

/-- A string that may be missing, when it is known whether it is. -/
theorem optText_append_inj {s t : Option (List UInt8)} (hs : ∀ str ∈ s, Fits str)
    (ht : ∀ str ∈ t, Fits str) (hsome : s.isSome = t.isSome) {bs cs : List UInt8}
    (h : optText s ++ bs = optText t ++ cs) : s = t ∧ bs = cs := by
  cases s with
  | none =>
      cases t with
      | none => exact ⟨rfl, h⟩
      | some t => exact absurd hsome Bool.false_ne_true
  | some s =>
      cases t with
      | none => exact absurd hsome.symm Bool.false_ne_true
      | some t =>
          obtain ⟨rfl, hrest⟩ := text_append_inj (hs s rfl) (ht t rfl) h
          exact ⟨rfl, hrest⟩

/-! ## Decoding -/

theorem length_bytes (p : ControlPacket) :
    p.bytes.length = 1 + (Base128.encode p.body.length).length + p.body.length := by
  rw [bytes, List.length_cons, List.length_append]
  omega

theorem bytes_inj {p q : ControlPacket} (h : p.bytes = q.bytes) :
    p.header = q.header ∧ p.body = q.body := by
  obtain ⟨hheader, hrest⟩ := List.cons.inj h
  exact ⟨hheader, (Base128.encode_append_encode_inj hrest).2⟩

/-- The type of a packet is in the upper half of its header byte. -/
def type : ControlPacket → UInt8
  | connect .. => 1
  | publish .. => 3
  | ack .pubAck _ => 4
  | ack .pubRec _ => 5
  | ack .pubRel _ => 6
  | ack .pubComp _ => 7
  | subscribe .. => 8
  | unsubscribe .. => 10

theorem header_shiftRight {p : ControlPacket} (h : p.WellFormed) : p.header >>> 4 = p.type := by
  cases p with
  | connect => exact (by decide : (0x10 : UInt8) >>> 4 = 1)
  | publish qos retain topic pktId payload =>
      have hqos := Nat.lt_succ_of_le (UInt8.le_iff_toNat_le.mp h.1)
      have hall : ∀ (q : Fin 3) (r : Bool),
          (0x30 + UInt8.ofNat q.val * 2 + (if r then 1 else 0)) >>> 4 = 3 := by
        decide
      have hfin := hall ⟨qos.toNat, hqos⟩ retain
      rw [UInt8.ofNat_toNat] at hfin
      exact hfin
  | ack kind pktId =>
      have hall : ∀ k : Fin 4, ([0x40, 0x50, 0x62, 0x70].getD k.val 0 : UInt8) >>> 4 =
          [4, 5, 6, 7].getD k.val 0 := by decide
      cases kind with
      | pubAck => exact hall 0
      | pubRec => exact hall 1
      | pubRel => exact hall 2
      | pubComp => exact hall 3
  | subscribe => exact (by decide : (0x82 : UInt8) >>> 4 = 8)
  | unsubscribe => exact (by decide : (0xA2 : UInt8) >>> 4 = 10)

theorem connect_inj {c c' : Bool} {k k' : UInt16} {i i' : List UInt8} {w w' : Option Will}
    {u u' p p' : Option (List UInt8)} (h : (connect c k i w u p).WellFormed)
    (h' : (connect c' k' i' w' u' p').WellFormed)
    (hbody : (connect c k i w u p).body = (connect c' k' i' w' u' p').body) :
    connect c k i w u p = connect c' k' i' w' u' p' := by
  obtain ⟨hi, hw, hu, hp, -⟩ := h
  obtain ⟨hi', hw', hu', hp', -⟩ := h'
  -- The flags say what is there, and the rest is read from left to right.
  have hfixed := List.append_cancel_left hbody
  have hflags := (List.cons.inj (List.cons.inj hfixed).2).1
  have hread := congrArg readFlags hflags
  have hqos : ∀ x ∈ w.map (fun w => (w.qos, w.retain)), x.1 ≤ 2 := by
    intro x hx
    obtain ⟨y, hy, rfl⟩ := Option.mem_map.mp hx
    exact (hw y hy).2.2
  have hqos' : ∀ x ∈ w'.map (fun w => (w.qos, w.retain)), x.1 ≤ 2 := by
    intro x hx
    obtain ⟨y, hy, rfl⟩ := Option.mem_map.mp hx
    exact (hw' y hy).2.2
  rw [readFlags_connectFlags _ hqos, readFlags_connectFlags _ hqos'] at hread
  obtain ⟨rfl, hrest⟩ := Prod.mk.inj hread
  obtain ⟨hwill, hrest⟩ := Prod.mk.inj hrest
  obtain ⟨huser, hpass⟩ := Prod.mk.inj hrest
  obtain ⟨rfl, hclient⟩ := be16_append_inj (List.cons.inj (List.cons.inj hfixed).2).2
  obtain ⟨rfl, hvar⟩ := text_append_inj hi hi' hclient
  obtain ⟨rfl, hlogin⟩ : w = w' ∧ optText u ++ optText p = optText u' ++ optText p' := by
    cases w with
    | none =>
        cases w' with
        | none => exact ⟨rfl, hvar⟩
        | some w' => exact Option.noConfusion rfl (heq_of_eq hwill)
    | some w =>
        cases w' with
        | none => exact Option.noConfusion rfl (heq_of_eq hwill)
        | some w' =>
            obtain ⟨hq, hr⟩ := Prod.mk.inj (Option.some.inj hwill)
            obtain ⟨htopic, hmessage, -⟩ := hw w rfl
            obtain ⟨htopic', hmessage', -⟩ := hw' w' rfl
            simp only [Option.map_some, Option.getD_some, List.append_assoc] at hvar
            obtain ⟨ht, hrest⟩ := text_append_inj htopic htopic' hvar
            obtain ⟨hm, hlogin⟩ := text_append_inj hmessage hmessage' hrest
            exact ⟨congrArg some (Will.ext ht hm hq hr), hlogin⟩
  obtain ⟨rfl, hpassword⟩ := optText_append_inj hu hu' huser hlogin
  rw [← List.append_nil (optText p), ← List.append_nil (optText p')] at hpassword
  obtain ⟨rfl, -⟩ := optText_append_inj hp hp' hpass hpassword
  rfl

theorem publish_inj {q q' : UInt8} {r r' : Bool} {t t' : List UInt8} {i i' : UInt16}
    {d d' : List UInt8} (h : (publish q r t i d).WellFormed)
    (h' : (publish q' r' t' i' d').WellFormed)
    (hheader : (publish q r t i d).header = (publish q' r' t' i' d').header)
    (hbody : (publish q r t i d).body = (publish q' r' t' i' d').body) :
    publish q r t i d = publish q' r' t' i' d' := by
  obtain ⟨hq, ht, hi⟩ := h
  obtain ⟨hq', ht', hi'⟩ := h'
  obtain ⟨rfl, rfl⟩ := publishHeader_inj hq hq' hheader
  obtain ⟨rfl, hrest⟩ := text_append_inj ht ht' hbody
  by_cases hzero : q = 0
  · rw [if_pos hzero, if_pos hzero] at hrest
    rw [hi.mpr hzero, hi'.mpr hzero]
    exact congrArg _ hrest
  · rw [if_neg hzero, if_neg hzero] at hrest
    obtain ⟨rfl, hpayload⟩ := be16_append_inj hrest
    exact congrArg _ hpayload

theorem ack_inj {a a' : AckKind} {i i' : UInt16} (htype : (ack a i).type = (ack a' i').type)
    (hbody : (ack a i).body = (ack a' i').body) : ack a i = ack a' i' := by
  have hi : i = i' := by
    have happend : be16 i ++ [] = be16 i' ++ [] := congrArg (· ++ []) hbody
    exact (be16_append_inj happend).1
  have ha : a = a' := by
    cases a <;> cases a' <;> first | rfl | exact absurd htype (by simp [type])
  rw [hi, ha]

theorem subscribe_inj {i i' : UInt16} {t t' : List UInt8} {q q' : UInt8} (ht : Fits t)
    (ht' : Fits t') (hbody : (subscribe i t q).body = (subscribe i' t' q').body) :
    subscribe i t q = subscribe i' t' q' := by
  obtain ⟨rfl, hrest⟩ := be16_append_inj hbody
  obtain ⟨rfl, hqos⟩ := text_append_inj ht ht' hrest
  rw [(List.cons.inj hqos).1]

theorem unsubscribe_inj {i i' : UInt16} {t t' : List UInt8} (ht : Fits t) (ht' : Fits t')
    (hbody : (unsubscribe i t).body = (unsubscribe i' t').body) :
    unsubscribe i t = unsubscribe i' t' := by
  obtain ⟨rfl, hrest⟩ := be16_append_inj hbody
  have happend : text t ++ [] = text t' ++ [] := congrArg (· ++ []) hrest
  rw [(text_append_inj ht ht' happend).1]

/-- A list of bytes is at most one packet. -/
theorem Decodes.unique {bs : List UInt8} {p q : ControlPacket} (h : Decodes bs p)
    (h' : Decodes bs q) : p = q := by
  obtain ⟨hheader, hbody⟩ := bytes_inj (h.bytes.trans h'.bytes.symm)
  have htype : p.type = q.type := by
    rw [← header_shiftRight h.wellFormed, hheader, header_shiftRight h'.wellFormed]
  have hwell := h.wellFormed
  have hwell' := h'.wellFormed
  cases p with
  | connect =>
      cases q with
      | connect => exact connect_inj hwell hwell' hbody
      | ack kind => cases kind <;> exact absurd htype (by simp [type])
      | _ => exact absurd htype (by simp [type])
  | publish =>
      cases q with
      | publish => exact publish_inj hwell hwell' hheader hbody
      | ack kind => cases kind <;> exact absurd htype (by simp [type])
      | _ => exact absurd htype (by simp [type])
  | ack kind =>
      cases q with
      | ack => exact ack_inj htype hbody
      | _ => cases kind <;> exact absurd htype (by simp [type])
  | subscribe =>
      cases q with
      | subscribe => exact subscribe_inj hwell.2.1 hwell'.2.1 hbody
      | ack kind => cases kind <;> exact absurd htype (by simp [type])
      | _ => exact absurd htype (by simp [type])
  | unsubscribe =>
      cases q with
      | unsubscribe => exact unsubscribe_inj hwell.2 hwell'.2 hbody
      | ack kind => cases kind <;> exact absurd htype (by simp [type])
      | _ => exact absurd htype (by simp [type])

end ControlPacket
