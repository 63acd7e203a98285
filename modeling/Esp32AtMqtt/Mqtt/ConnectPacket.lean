import Esp32AtMqtt.Codec.ControlPacket
import Esp32AtMqtt.Codec.Utf8
import Esp32AtMqtt.Mqtt.Connect

/-!
# The CONNECT packet that is asked for

`ConnectExact` is what a caller of `Mqtt_PackConnectPkt` relies on: an error, or exactly one
well-formed packet that says what the arguments say, whatever the memory held before; and an
error for every identifier with a character that is neither a letter nor a digit.

`ConnectSound` is what the arguments have to satisfy for it when they pass the tests. The
identifier is in it, because the test of its length never fails; so is the level and the
retain flag of a will without a topic, for which the will flag is set all the same.
-/

namespace Mqtt

open FlatMemory Base128

namespace ConnectArgs

variable (a : ConnectArgs) (user : CStr) (password : List UInt8)

/-- The packet that the arguments ask for. There is a will when there is a topic for it. -/
def controlPacket : ControlPacket :=
  .connect a.cleanSession a.keepAlive a.id.bytes
    (a.willTopic.map fun t =>
      ⟨t.bytes, (a.willMsg.map (List.take a.msgLen.toNat)).getD [], a.qos.toUInt8, a.willRetain⟩)
    (some user.bytes) (some (password.take a.pswdLen.toNat))

end ConnectArgs

/-- The packet is well formed, its strings are UTF-8, and its bytes are appended to the list
whatever the memory held before. -/
structure ConnectAppended (a : ConnectArgs) (buf : MqttBuffer) (h : MqttHeap) (user : CStr)
    (password : List UInt8) : Prop where
  userGiven : a.user = some user
  passwordGiven : a.password = some password
  wellFormed : (a.controlPacket user password).WellFormed
  utf8 : Utf8.WellFormed a.id.bytes ∧ (∀ t ∈ a.willTopic, Utf8.WellFormed t.bytes) ∧
    Utf8.WellFormed user.bytes
  appended : ∀ mem, Grown buf { h with mem := mem } (a.controlPacket user password).bytes
    (mqttPackConnectPkt buf a { h with mem := mem })

/-- An error, or the packet that is asked for; an illegal identifier is an error. -/
structure ConnectExact (a : ConnectArgs) (buf : MqttBuffer) (h : MqttHeap) : Prop where
  encodes : IsError (mqttPackConnectPkt buf a h).1 ∨
    ∃ user password, ConnectAppended a buf h user password
  refuses : ¬ a.id.bytes.all isalnum → IsError (mqttPackConnectPkt buf a h).1

/-- Arguments for which the packet is the one that is asked for. -/
structure ConnectSound (a : ConnectArgs) (user : CStr) : Prop where
  id : a.id.bytes.all isalnum
  fits : a.Fits user
  utf8 : (∀ t ∈ a.willTopic, Utf8.WellFormed t.bytes) ∧ Utf8.WellFormed user.bytes
  will : a.willTopic = none → a.qos = 0 ∧ a.willRetain = false
  msg : a.willTopic.isSome → a.willMsg = none → a.msgLen = 0

/-- An ASCII string is UTF-8. -/
theorem wellFormed_of_ascii {bs : List UInt8} (h : ∀ b ∈ bs, b < 0x80) : Utf8.WellFormed bs := by
  refine ⟨bs.map fun b => [b], fun c hc => ?_, ?_⟩
  · obtain ⟨b, hb, rfl⟩ := List.mem_map.mp hc
    have hlt := UInt8.lt_iff_toNat_lt.mp (h b hb)
    exact UInt8.le_iff_toNat_le.mpr (Nat.le_of_lt_succ hlt)
  · induction bs with
    | nil => rfl
    | cons b bs ih =>
        rw [List.map_cons, List.flatten_cons, ih fun c hc => h c (List.mem_cons_of_mem _ hc)]
        rfl

theorem lt_of_isalnum {b : UInt8} (h : isalnum b = true) : b < 0x80 := by
  simp only [isalnum, Bool.or_eq_true, Bool.and_eq_true, decide_eq_true_eq,
    UInt8.le_iff_toNat_le, UInt8.reduceToNat] at h
  have hlimit : (0x80 : UInt8).toNat = 128 := rfl
  rw [UInt8.lt_iff_toNat_lt, hlimit]
  omega

/-- The will flag is clear when nothing about a will is given. -/
theorem flags_and_will_eq_zero_iff {a : ConnectArgs} (hqos : a.qos = 0 ∨ a.qos = 1 ∨ a.qos = 2) :
    a.flags &&& 0x04 = 0 ↔ a.willTopic = none ∧ a.qos = 0 ∧ a.willRetain = false := by
  have hall : ∀ (q : UInt8), q = 0 ∨ q = 0x0C ∨ q = 0x14 → ∀ clean topic retain : Bool,
      ((if clean then 0x02 else 0) ||| (if topic then 0x04 else 0) ||| q |||
          (if retain then 0x24 else 0)) &&& 0x04 = (0 : UInt8) ↔
        topic = false ∧ q = 0 ∧ retain = false := by
    rintro q (rfl | rfl | rfl) <;> decide
  have hnone : a.willTopic = none ↔ a.willTopic.isSome = false := by
    rw [Option.isSome_eq_false_iff, Option.isNone_iff_eq_none]
  rw [hnone, ConnectArgs.flags, ConnectArgs.willFlags]
  rcases hqos with hq | hq | hq <;> rw [hq]
  · rw [show (connectQosFlags 0).getD 0 = 0 from rfl, hall 0 (.inl rfl)]
    simp
  · rw [show (connectQosFlags 1).getD 0 = 0x0C from rfl, hall 0x0C (.inr (.inl rfl))]
    simp
  · rw [show (connectQosFlags 2).getD 0 = 0x14 from rfl, hall 0x14 (.inr (.inr rfl))]
    simp

/-- The flags that are written are those of the packet, when a will without a topic has
neither a level nor the retain flag. -/
theorem flags_eq_connectFlags {a : ConnectArgs} (hqos : a.qos = 0 ∨ a.qos = 1 ∨ a.qos = 2)
    (hwill : a.willTopic = none → a.qos = 0 ∧ a.willRetain = false) :
    ControlPacket.connectFlags a.cleanSession
        (a.willTopic.map fun _ => (a.qos.toUInt8, a.willRetain)) true true =
      a.flags ||| 0xC0 := by
  rw [ConnectArgs.flags, ConnectArgs.willFlags]
  cases htopic : a.willTopic with
  | none =>
      obtain ⟨hq, hretain⟩ := hwill htopic
      rw [hq, hretain]
      cases a.cleanSession <;> rfl
  | some t =>
      have hall : ∀ (q : UInt32), q = 0 ∨ q = 1 ∨ q = 2 → ∀ clean retain : Bool,
          ControlPacket.connectFlags clean (some (q.toUInt8, retain)) true true =
            ((if clean then 0x02 else 0) ||| 0x04 ||| (connectQosFlags q).getD 0 |||
              (if retain then 0x24 else 0)) ||| 0xC0 := by
        rintro q (rfl | rfl | rfl) <;> decide
      exact hall a.qos hqos a.cleanSession a.willRetain

/-- The body of the packet is the one that is packed, then. -/
theorem body_controlPacket {a : ConnectArgs} (user : CStr) (password : List UInt8)
    (hqos : a.qos = 0 ∨ a.qos = 1 ∨ a.qos = 2)
    (hwill : a.willTopic = none → a.qos = 0 ∧ a.willRetain = false) :
    (a.controlPacket user password).body = a.body user password := by
  have hflags := flags_eq_connectFlags hqos hwill
  have hfields : ((a.willTopic.map fun t => text t.bytes ++
      text ((a.willMsg.map (List.take a.msgLen.toNat)).getD [])).getD []) = a.will := by
    rw [ConnectArgs.will]
    cases htopic : a.willTopic with
    | none =>
        rw [if_pos ((flags_and_will_eq_zero_iff hqos).mpr ⟨htopic, hwill htopic⟩)]
        rfl
    | some t =>
        have hset : ¬ a.flags &&& 0x04 = 0 := fun hclear => by
          rw [((flags_and_will_eq_zero_iff hqos).mp hclear).1] at htopic
          cases htopic
        rw [if_neg hset]
        rfl
  rw [ConnectArgs.body, ConnectArgs.variableHeader, ← hflags, ← hfields]
  simp only [ConnectArgs.controlPacket, ControlPacket.body, Option.map_map, Function.comp_def,
    List.append_assoc, Option.isSome_some]
  rfl

/-- An accepted call returns no error: it packs, or does not come back. -/
theorem connect_not_error {a : ConnectArgs} {buf : MqttBuffer} {h : MqttHeap} {rs : List Region}
    (hm : MemoryOk rs a.extentSizes buf h) (hacc : ConnectAccepted a buf h)
    (hall : Allocates a.extentSizes buf h) : ¬ IsError (mqttPackConnectPkt buf a h).1 := by
  intro herr
  by_cases hid : a.idLen.toNat ≤ a.id.bytes.length + 1
  · obtain ⟨_, _, _, _, _, _, -, -, hp, -⟩ := connect_packs (.start hm) hacc hall hid
    rw [hp.code] at herr
    exact absurd herr (by decide)
  · have hcrash := connect_crashes hacc fun hpacks => hid hpacks.2
    exact absurd herr.1 (by omega)

/-- What has been packed begins with the flags. -/
theorem flags_of_grown {a : ConnectArgs} {buf : MqttBuffer} {h : MqttHeap} {user : CStr}
    {password : List UInt8} (hm : MemoryOk (extentRegions buf.extents) a.extentSizes buf h)
    (hacc : ConnectAccepted a buf h) (hall : Allocates a.extentSizes buf h)
    (hid : a.idLen.toNat ≤ a.id.bytes.length + 1)
    (hg : Grown buf h (a.controlPacket user password).bytes (mqttPackConnectPkt buf a h)) :
    a.flags ||| 0xC0 = ControlPacket.connectFlags a.cleanSession
      (a.willTopic.map fun _ => (a.qos.toUInt8, a.willRetain)) true true := by
  obtain ⟨user', password', fixHead, variableHead, payload, ds, -, -, hp, hvarLen, hvarMem,
    hpayLen, -⟩ := connect_packs (.start hm) hacc hall hid
  have hrest := toNat_connectPayload a user'
  have hlen : extentsLength [variableHead, payload] = (a.totalLen user').toNat := by
    rw [extentsLength_cons, extentsLength_cons, extentsLength_nil, hvarLen, hpayLen]
    simp only [UInt32.reduceToNat]
    omega
  have hflat := hg.flatten hp.extents
  rw [hp.flatten hlen, flattenExtents_cons,
    hp.drafted.readMem_filled hvarMem rfl (by rw [hvarLen]; rfl)] at hflat
  have hbody := framed_inj (hflat.trans rfl : _ = framed 0x10 (a.controlPacket user password).body)
  have hflags := congrArg (·.getD 7 0) hbody
  simp only [ConnectArgs.controlPacket, ControlPacket.body, Option.map_map] at hflags
  exact hflags

/-- What the memory holds makes no difference to the tests. -/
theorem connectAccepted_with (a : ConnectArgs) (buf : MqttBuffer) (h : MqttHeap)
    (mem : UInt32 → UInt8) :
    ConnectAccepted a buf { h with mem := mem } ↔ ConnectAccepted a buf h := by
  have hall := allocates_with [5, 10] buf buf.extents buf.bufferedBytes h mem
  constructor
  · intro hacc
    exact ⟨hall.mp hacc.allocates, hacc.will, hacc.willUtf8, hacc.qos, hacc.user, hacc.password⟩
  · intro hacc
    exact ⟨hall.mpr hacc.allocates, hacc.will, hacc.willUtf8, hacc.qos, hacc.user, hacc.password⟩

theorem memoryOk_with {rs : List Region} {ns : List UInt32} {buf : MqttBuffer} {h : MqttHeap}
    (hm : MemoryOk rs ns buf h) (mem : UInt32 → UInt8) :
    MemoryOk rs ns buf { h with mem := mem } :=
  ⟨hm.fits, hm.room, (allocsOk_with rs ns buf buf.extents buf.bufferedBytes h mem).mpr hm.allocs⟩

/-- A legal identifier is not taken for a longer one. -/
theorem idLen_le {a : ConnectArgs} (hlegal : a.id.bytes.all isalnum) :
    a.idLen.toNat ≤ a.id.bytes.length + 1 := by
  rw [toNat_idLen, if_pos hlegal]
  exact (Nat.mod_le _ _).trans (Nat.le_succ _)

/-- The packet that the arguments describe is the one that is asked for. -/
theorem packet_eq_controlPacket {a : ConnectArgs} {user : CStr} {password : List UInt8}
    (huser : a.user = some user) (hpassword : a.password = some password)
    (hqos : a.qos = 0 ∨ a.qos = 1 ∨ a.qos = 2)
    (hwill : a.willTopic = none → a.qos = 0 ∧ a.willRetain = false) (hfits : a.Fits user) :
    a.packet = some (a.controlPacket user password).bytes := by
  have hshort : (a.body user password).length < 2 ^ 28 := by
    have hlen := length_will hfits.2.1
    have hwt := a.wtLen.toNat_lt
    have hmsg := a.msgLen.toNat_lt
    have hpswd := a.pswdLen.toNat_lt
    obtain ⟨hid, -, hname⟩ := hfits
    rw [length_connectBody hpassword]
    rw [ConnectArgs.willLen] at hlen
    split at hlen <;> omega
  rw [ConnectArgs.packet, huser, hpassword]
  refine describe_eq_some.mpr ⟨⟨hfits, hshort⟩, ?_⟩
  rw [← body_controlPacket user password hqos hwill]
  rfl

/-- Sound arguments that pass the tests are packed. -/
theorem grown_of_sound {a : ConnectArgs} {buf : MqttBuffer} {h : MqttHeap} {user : CStr}
    {password : List UInt8} (hm : MemoryOk (extentRegions buf.extents) a.extentSizes buf h)
    (hacc : ConnectAccepted a buf h) (hall : Allocates a.extentSizes buf h)
    (huser : a.user = some user) (hpassword : a.password = some password)
    (hs : ConnectSound a user) :
    Grown buf h (a.controlPacket user password).bytes (mqttPackConnectPkt buf a h) := by
  have hmsg : a.flags &&& 0x04 ≠ 0 → a.willMsg = none → a.msgLen = 0 := by
    intro hset hnone
    refine hs.msg (Option.isSome_iff_ne_none.mpr fun htopic => hset ?_) hnone
    exact (flags_and_will_eq_zero_iff hacc.qos).mpr ⟨htopic, hs.will htopic⟩
  have hwhole : ConnectWhole a buf h := by
    intro _ user' huser'
    rw [huser, Option.some.injEq] at huser'
    exact ⟨hall, huser' ▸ hs.fits, .inl hs.id, hmsg⟩
  obtain ⟨bytes, hbytes, hgrown⟩ := ((connect_whole_iff hm).mpr hwhole).resolve_right
    fun hrefused => connect_not_error hm hacc hall hrefused.code
  rw [packet_eq_controlPacket huser hpassword hacc.qos hs.will hs.fits] at hbytes
  exact Option.some.inj hbytes ▸ hgrown

theorem wellFormed_controlPacket {a : ConnectArgs} {user : CStr} (password : List UInt8)
    (hqos : a.qos = 0 ∨ a.qos = 1 ∨ a.qos = 2) (hfits : a.Fits user) :
    (a.controlPacket user password).WellFormed := by
  obtain ⟨hid, htopic, huser⟩ := hfits
  refine ⟨hid, fun w hw => ?_, ?_, ?_, fun _ => rfl⟩
  · obtain ⟨t, ht, rfl⟩ := Option.mem_map.mp hw
    refine ⟨htopic t ht, ?_, ?_⟩
    · have hlt := a.msgLen.toNat_lt
      cases a.willMsg with
      | none => exact Nat.two_pow_pos 16
      | some msg =>
          refine Nat.lt_of_le_of_lt (List.length_take_le _ _) hlt
    · show a.qos.toUInt8 ≤ 2
      rcases hqos with hq | hq | hq <;> rw [hq] <;> decide
  · rintro str ⟨rfl⟩
    exact huser
  · rintro str ⟨rfl⟩
    exact Nat.lt_of_le_of_lt (List.length_take_le _ _) a.pswdLen.toNat_lt

/-- The function does what a caller relies on, for arguments with room for the packet, if and
only if they fail a test or are sound. -/
theorem connect_exact_iff (a : ConnectArgs) (buf : MqttBuffer) (h : MqttHeap)
    (hm : MemoryOk (extentRegions buf.extents) a.extentSizes buf h)
    (hall : Allocates a.extentSizes buf h) :
    ConnectExact a buf h ↔
      (ConnectAccepted a buf h → ∀ user, a.user = some user → ConnectSound a user) := by
  by_cases hacc : ConnectAccepted a buf h
  swap
  · obtain ⟨-, hrefused⟩ | ⟨_, _, _, _, hyes, -⟩ := connect_cases a buf h
    · exact iff_of_true ⟨.inl hrefused.code, fun _ => hrefused.code⟩ fun h => absurd h hacc
    · exact absurd hyes hacc
  have hnoerr := connect_not_error hm hacc hall
  constructor
  · rintro ⟨hdone, hrefuse⟩ _ user huser
    obtain ⟨user', password, happended⟩ := hdone.resolve_left hnoerr
    obtain rfl : user' = user := Option.some.inj (happended.userGiven.symm.trans huser)
    have hlegal : a.id.bytes.all isalnum := by_contra fun hno => hnoerr (hrefuse hno)
    have hgrown := happended.appended h.mem
    have hflags := flags_of_grown hm hacc hall (idLen_le hlegal) hgrown
    have hwill : a.willTopic = none → a.qos = 0 ∧ a.willRetain = false := by
      intro htopic
      have hclear : ∀ clean : Bool,
          ControlPacket.connectFlags clean none true true &&& 0x04 = 0 := by decide
      rw [htopic, Option.map_none] at hflags
      have hzero := and_will_flag a.flags
      rw [hflags, hclear] at hzero
      exact ((flags_and_will_eq_zero_iff hacc.qos).mp hzero.symm).2
    have hfits : a.Fits user' := by
      obtain ⟨hid, htopic, hname, -⟩ := happended.wellFormed
      refine ⟨hid, fun t ht => ?_, hname _ rfl⟩
      exact (htopic _ (Option.mem_map.mpr ⟨t, ht, rfl⟩)).1
    -- the packet is the one of the earlier result, so nothing is counted that is not written
    have hpacket := packet_eq_controlPacket happended.userGiven happended.passwordGiven hacc.qos
      hwill hfits
    have hwhole := (connect_whole_iff hm).mp (.inl ⟨_, hpacket, hgrown⟩)
    obtain ⟨-, -, -, hmsg⟩ := hwhole hacc user' happended.userGiven
    refine ⟨hlegal, hfits, happended.utf8.2, hwill, fun htopic hnone => ?_⟩
    refine hmsg (fun hclear => ?_) hnone
    rw [((flags_and_will_eq_zero_iff hacc.qos).mp hclear).1] at htopic
    cases htopic
  · intro hsound
    obtain ⟨user, huser, -⟩ := hacc.user
    obtain ⟨password, hpassword⟩ := Option.isSome_iff_exists.mp hacc.password
    have hs := hsound hacc user huser
    refine ⟨.inr ⟨user, password, huser, hpassword, ?_, ?_, fun mem => ?_⟩,
      fun hno => absurd hs.id hno⟩
    · exact wellFormed_controlPacket password hacc.qos hs.fits
    · exact ⟨wellFormed_of_ascii fun b hb => lt_of_isalnum (List.all_eq_true.mp hs.id b hb),
        hs.utf8⟩
    · have hall' := (allocates_with a.extentSizes buf buf.extents buf.bufferedBytes h mem).mpr hall
      exact grown_of_sound (memoryOk_with hm mem) ((connectAccepted_with a buf h mem).mpr hacc)
        hall' huser hpassword hs

theorem noMsg_readable : ∀ msg ∈ (none : Option (List UInt8)), (0 : UInt16).toNat ≤ msg.length := by
  simp

/-- The device `id` with the user `u` and the password `p`, without a will. -/
def deviceArgs (id : CStr) : ConnectArgs where
  keepAlive := 60
  id := id
  cleanSession := true
  willTopic := none
  willMsg := none
  msgLen := 0
  qos := 0
  willRetain := false
  user := some ⟨[0x75], by decide, by decide⟩
  password := some [0x70]
  pswdLen := 1
  willMsg_readable := noMsg_readable
  password_readable := by simp

/-- A memory with four blocks for `malloc`. -/
def fourBlocks : MqttHeap :=
  ⟨fun _ => 0, [some 0x1000, some 0x2000, some 0x3000, some 0x10000], []⟩

/-- The identifiers `ab` and `a-b`. -/
def idAB : CStr := ⟨[0x61, 0x62], by decide, by decide⟩

def idDashed : CStr := ⟨[0x61, 0x2D, 0x62], by decide, by decide⟩

theorem connect_exact_ab : ConnectExact (deviceArgs idAB) mqttBufferInit fourBlocks := by
  have hall : Allocates (deviceArgs idAB).extentSizes mqttBufferInit fourBlocks :=
    ⟨rfl, rfl, rfl, trivial⟩
  refine (connect_exact_iff (deviceArgs idAB) mqttBufferInit fourBlocks
    ⟨by decide, .inl rfl, by decide +kernel⟩ hall).mpr fun _ user huser => ?_
  obtain rfl := Option.some.inj huser
  have hascii : ∀ b ∈ [(0x75 : UInt8)], b < 0x80 := by
    intro b hb
    rw [List.mem_singleton.mp hb]
    decide
  exact ⟨by decide, by decide, ⟨by rintro t ⟨⟩, wellFormed_of_ascii hascii⟩,
    fun _ => ⟨rfl, rfl⟩, by simp [deviceArgs]⟩

/-- The identifier `a-b` is not refused: its length is taken for 65535, and as many bytes are
read. -/
theorem connect_reads_behind_id :
    (mqttPackConnectPkt mqttBufferInit (deviceArgs idDashed) fourBlocks).1 = readOutOfBounds ∧
      ¬ ConnectExact (deviceArgs idDashed) mqttBufferInit fourBlocks := by
  have hcode : (mqttPackConnectPkt mqttBufferInit (deviceArgs idDashed) fourBlocks).1 =
      readOutOfBounds := by decide +kernel
  refine ⟨hcode, fun hexact => ?_⟩
  have herr := hexact.refuses (by decide)
  rw [hcode] at herr
  exact absurd herr (by decide)

end Mqtt
