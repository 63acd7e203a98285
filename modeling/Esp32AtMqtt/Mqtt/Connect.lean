import Esp32AtMqtt.Mqtt.Whole

/-!
# What packing a CONNECT packet does

`ConnectAccepted` are the tests of `Mqtt_PackConnectPkt` and the first two allocations. When
one fails nothing has changed. When all pass the last extent is allocated, and whether it is
there is not tested.

The length of the client identifier is kept in an unsigned variable, so the code for an
illegal identifier becomes the length 65535, and the strings whose lengths are cut to 16 bits
are packed as they are cut.
-/

namespace Mqtt

open FlatMemory Base128

namespace ConnectArgs

variable (a : ConnectArgs)

/-- `flags`, without those for the user name and the password. -/
def flags : UInt8 := a.willFlags ((connectQosFlags a.qos).getD 0)

/-- `total_len`, for the user name. -/
def totalLen (user : CStr) : UInt32 :=
  a.willTotal a.flags + ((UInt16.ofNat user.bytes.length).toUInt32 + 2) +
    (a.pswdLen.toUInt32 + 2)

/-- The sizes of the extents that are allocated. -/
def extentSizes : List UInt32 := [5, 10] ++ (a.user.map fun user => a.totalLen user - 10).toList

/-- The second extent. -/
def variableHeader : List UInt8 :=
  [0, 4, 0x4D, 0x51, 0x54, 0x54, 4, a.flags ||| 0xC0] ++ mqttWB16 a.keepAlive

/-- The will, where a missing topic or message is empty. -/
def will : List UInt8 :=
  if a.flags &&& 0x04 = 0 then []
  else text ((a.willTopic.map CStr.bytes).getD []) ++
    text ((a.willMsg.map (List.take a.msgLen.toNat)).getD [])

/-- The packet behind its fixed header. -/
def body (user : CStr) (password : List UInt8) : List UInt8 :=
  a.variableHeader ++ (text a.id.bytes ++ a.will ++ text user.bytes ++
    text (password.take a.pswdLen.toNat))

/-- The strings fit in their length fields. -/
def Fits (user : CStr) : Prop :=
  a.id.bytes.length < 2 ^ 16 ∧ (∀ s ∈ a.willTopic, s.bytes.length < 2 ^ 16) ∧
    user.bytes.length < 2 ^ 16

instance (user : CStr) : Decidable (a.Fits user) := inferInstanceAs (Decidable (_ ∧ _ ∧ _))

/-- The CONNECT packet that the arguments describe. -/
def packet : Option (List UInt8) :=
  match a.user, a.password with
  | some user, some password => describe (a.Fits user) 0x10 (a.body user password)
  | _, _ => none

end ConnectArgs

/-- All that `Mqtt_PackConnectPkt` tests. -/
structure ConnectAccepted (a : ConnectArgs) (buf : MqttBuffer) (h : MqttHeap) : Prop where
  allocates : Allocates [5, 10] buf h
  will : ¬ (a.willMsg.isSome ∧ a.willTopic.isNone)
  willUtf8 : ∀ s ∈ a.willTopic, s.isUtf8 a.wtLen.toNat
  qos : a.qos = 0 ∨ a.qos = 1 ∨ a.qos = 2
  user : ∃ user, a.user = some user ∧ user.isUtf8 (UInt16.ofNat user.bytes.length).toNat
  password : a.password.isSome

/-- When `Mqtt_PackConnectPkt` is all or nothing: whatever it accepts gets its last extent,
has strings that fit and an identifier that is legal (or has the length 65535, for which an
illegal one is taken), and no length of a message that is missing. -/
def ConnectWhole (a : ConnectArgs) (buf : MqttBuffer) (h : MqttHeap) : Prop :=
  ConnectAccepted a buf h → ∀ user, a.user = some user →
    Allocates a.extentSizes buf h ∧ a.Fits user ∧
      (a.id.bytes.all isalnum ∨ a.id.bytes.length = 65535) ∧
      (a.flags &&& 0x04 ≠ 0 → a.willMsg = none → a.msgLen = 0)

theorem connectQosFlags_eq_none {qos : UInt32} :
    connectQosFlags qos = none ↔ ¬ (qos = 0 ∨ qos = 1 ∨ qos = 2) := by
  unfold connectQosFlags
  split_ifs with h0 h1 h2 <;> simp_all

/-- A test fails, and nothing has changed; or all pass, and the second half follows. -/
theorem connect_cases (a : ConnectArgs) (buf : MqttBuffer) (h : MqttHeap) :
    (¬ ConnectAccepted a buf h ∧ Refused buf h (mqttPackConnectPkt buf a h)) ∨
      ∃ user password fixHead variableHead, ConnectAccepted a buf h ∧ a.user = some user ∧
        a.password = some password ∧
        (mqttBufferAllocExtent buf 5 h).1 = some fixHead ∧
        (mqttBufferAllocExtent (mqttBufferAllocExtent buf 5 h).2.1 10
          (mqttBufferAllocExtent buf 5 h).2.2).1 = some variableHead ∧
        mqttPackConnectPkt buf a h = packConnectFields a (a.flags ||| 0xC0) (a.totalLen user)
          user password fixHead variableHead
          (mqttBufferAllocExtent (mqttBufferAllocExtent buf 5 h).2.1 10
            (mqttBufferAllocExtent buf 5 h).2.2).2.1
          (mqttBufferAllocExtent (mqttBufferAllocExtent buf 5 h).2.1 10
            (mqttBufferAllocExtent buf 5 h).2.2).2.2 := by
  obtain ⟨r, hr⟩ : ∃ r, mqttPackConnectPkt buf a h = r := ⟨_, rfl⟩
  rw [hr]
  unfold mqttPackConnectPkt at hr
  obtain ⟨hnone, heq⟩ | ⟨fixHead, hfix, heq⟩ := withExtent_cases buf 5 h _
  · rw [heq] at hr
    refine .inl ⟨fun hacc => ?_, hr ▸ refused_of_alloc buf 5 h⟩
    have hsome := hacc.allocates.1
    rw [hnone] at hsome
    cases hsome
  rw [heq] at hr
  obtain ⟨hext, hcount, hmem⟩ := mqttBufferAllocExtent_frame buf 5 h
  set buf₁ := (mqttBufferAllocExtent buf 5 h).2.1
  set h₁ := (mqttBufferAllocExtent buf 5 h).2.2
  obtain ⟨hext', hcount', hmem'⟩ := mqttBufferAllocExtent_frame buf₁ 10 h₁
  -- whatever test fails now, both allocations are behind
  have hrefused : ∀ {code : ℤ}, IsError code → Refused buf h
      (code, (mqttBufferAllocExtent buf₁ 10 h₁).2) := fun hcode =>
    ⟨hcode, .of_frame (hext'.trans hext) (hcount'.trans hcount) (hmem'.trans hmem)⟩
  obtain ⟨hnone, heq⟩ | ⟨variableHead, hvar, heq⟩ := withExtent_cases buf₁ 10 h₁ _
  · rw [heq] at hr
    refine .inl ⟨fun hacc => ?_, hr ▸ hrefused (by decide)⟩
    have hsome := hacc.allocates.2.1
    rw [hnone] at hsome
    cases hsome
  rw [heq] at hr
  by_cases hwill : a.willMsg.isSome ∧ a.willTopic.isNone
  · rw [if_pos hwill] at hr
    exact .inl ⟨fun hacc => hacc.will hwill, hr ▸ hrefused (by decide)⟩
  rw [if_neg hwill] at hr
  by_cases hutf8 : a.willTopic.any fun s => ¬ s.isUtf8 a.wtLen.toNat
  · rw [if_pos hutf8] at hr
    refine .inl ⟨fun hacc => ?_, hr ▸ hrefused (by decide)⟩
    obtain ⟨s, hs, hbad⟩ := (Option.any_eq_true _ _).mp hutf8
    exact of_decide_eq_true hbad (hacc.willUtf8 s hs)
  rw [if_neg hutf8] at hr
  have hwillUtf8 : ∀ s ∈ a.willTopic, s.isUtf8 a.wtLen.toNat := fun s hs => by
    by_contra hbad
    exact hutf8 ((Option.any_eq_true _ _).mpr ⟨s, hs, decide_eq_true hbad⟩)
  cases hqos : connectQosFlags a.qos with
  | none =>
      simp only [hqos] at hr
      exact .inl ⟨fun hacc => connectQosFlags_eq_none.mp hqos hacc.qos, hr ▸ hrefused (by decide)⟩
  | some qosFlags =>
      have hflags : a.willFlags qosFlags = a.flags := by rw [ConnectArgs.flags, hqos]; rfl
      have hlevel : a.qos = 0 ∨ a.qos = 1 ∨ a.qos = 2 := by
        by_contra hq
        rw [connectQosFlags_eq_none.mpr hq] at hqos
        cases hqos
      simp only [hqos, hflags] at hr
      cases huser : a.user with
      | none =>
          simp only [huser] at hr
          refine .inl ⟨fun hacc => ?_, hr ▸ hrefused (by decide)⟩
          obtain ⟨user, hsome, -⟩ := hacc.user
          rw [huser] at hsome
          cases hsome
      | some user =>
          cases hpassword : a.password with
          | none =>
              simp only [huser, hpassword] at hr
              refine .inl ⟨fun hacc => ?_, hr ▸ hrefused (by decide)⟩
              have hsome := hacc.password
              rw [hpassword] at hsome
              cases hsome
          | some password =>
              simp only [huser, hpassword] at hr
              by_cases huserUtf8 : user.isUtf8 (UInt16.ofNat user.bytes.length).toNat
              · rw [if_neg (not_not.mpr huserUtf8)] at hr
                refine .inr ⟨user, password, fixHead, variableHead, ?_, rfl, rfl, hfix, hvar, hr.symm⟩
                exact ⟨⟨by rw [hfix]; rfl, by rw [hvar]; rfl, trivial⟩, hwill, hwillUtf8, hlevel,
                  ⟨user, huser, huserUtf8⟩, by rw [hpassword]; rfl⟩
              · rw [if_pos huserUtf8] at hr
                refine .inl ⟨fun hacc => ?_, hr ▸ hrefused (by decide)⟩
                obtain ⟨user', huser', hutf8'⟩ := hacc.user
                rw [huser] at huser'
                cases huser'
                exact huserUtf8 hutf8'

/-- The length that is taken for the identifier. -/
theorem toNat_idLen (a : ConnectArgs) : a.idLen.toNat =
    if a.id.bytes.all isalnum then a.id.bytes.length % 2 ^ 16 else 65535 := by
  rw [ConnectArgs.idLen, mqttCheckClentIdentifier]
  split
  · rw [UInt16.ofInt, UInt16.toNat_ofNat']
    omega
  · rfl

/-- The bits of the user name and the password do not say that there is a will. -/
theorem and_will_flag (flags : UInt8) : (flags ||| 0xC0) &&& 0x04 = flags &&& 0x04 := by
  have hall : ∀ b : Fin 256, (UInt8.ofNat b.val ||| 0xC0) &&& 0x04 = UInt8.ofNat b.val &&& 0x04 := by
    decide +kernel
  have h := hall ⟨flags.toNat, flags.toNat_lt⟩
  rwa [UInt8.ofNat_toNat] at h

/-- The bytes that are counted for the will. -/
def ConnectArgs.willLen (a : ConnectArgs) : ℕ :=
  if a.flags &&& 0x04 = 0 then 0 else 4 + a.wtLen.toNat + a.msgLen.toNat

/-- The total length does not wrap. -/
theorem toNat_connectTotalLen (a : ConnectArgs) (user : CStr) : (a.totalLen user).toNat =
    10 + (a.idLen.toNat + 2) + a.willLen + ((UInt16.ofNat user.bytes.length).toNat + 2) +
      (a.pswdLen.toNat + 2) := by
  have hid := a.idLen.toNat_lt
  have hwt := a.wtLen.toNat_lt
  have hmsg := a.msgLen.toNat_lt
  have huser := (UInt16.ofNat user.bytes.length).toNat_lt
  have hpswd := a.pswdLen.toNat_lt
  rw [ConnectArgs.totalLen, ConnectArgs.willTotal, ConnectArgs.willLen]
  by_cases hwill : a.flags &&& 0x04 = 0
  · rw [if_neg (not_not.mpr hwill), if_pos hwill]
    simp only [UInt32.toNat_add, UInt16.toNat_toUInt32, UInt32.reduceToNat]
    omega
  · rw [if_pos hwill, if_neg hwill]
    simp only [UInt32.toNat_add, UInt16.toNat_toUInt32, UInt32.reduceToNat]
    omega

/-- The will as it is written. -/
def ConnectArgs.willFields (a : ConnectArgs) : List UInt8 :=
  if a.flags &&& 0x04 = 0 then []
  else
    match a.willMsg with
    | none => pktString ((a.willTopic.map CStr.bytes).getD []) a.wtLen ++ pktString [] 0
    | some msg => pktString ((a.willTopic.map CStr.bytes).getD []) a.wtLen ++ pktString msg a.msgLen

theorem connectFields_eq (a : ConnectArgs) (user : CStr) (password : List UInt8) :
    a.fields (a.flags ||| 0xC0) user password =
      pktString (a.id.bytes ++ [0]) a.idLen ++ a.willFields ++
        pktString user.bytes (UInt16.ofNat user.bytes.length) ++ pktString password a.pswdLen := by
  rw [ConnectArgs.fields, ConnectArgs.willFields, and_will_flag]
  by_cases hwill : a.flags &&& 0x04 = 0
  · rw [if_neg (not_not.mpr hwill), if_pos hwill]
  · rw [if_pos hwill, if_neg hwill] <;> rfl

/-- The length of the topic of the will, cut to 16 bits. -/
theorem toNat_wtLen (a : ConnectArgs) :
    a.wtLen.toNat = ((a.willTopic.map CStr.bytes).getD []).length % 2 ^ 16 := by
  rw [ConnectArgs.wtLen]
  cases a.willTopic with
  | none => rfl
  | some s => exact UInt16.toNat_ofNat'

/-- The bytes that are counted for the message, and not written. -/
def ConnectArgs.missing (a : ConnectArgs) : ℕ :=
  if a.flags &&& 0x04 = 0 ∨ a.willMsg.isSome then 0 else a.msgLen.toNat

theorem length_willFields (a : ConnectArgs) : a.willFields.length + a.missing = a.willLen := by
  have hwt := toNat_wtLen a
  have hle := Nat.mod_le ((a.willTopic.map CStr.bytes).getD []).length (2 ^ 16)
  rw [ConnectArgs.willFields, ConnectArgs.missing, ConnectArgs.willLen]
  by_cases hwill : a.flags &&& 0x04 = 0
  · rw [if_pos hwill, if_pos (.inl hwill), if_pos hwill]
    rfl
  · rw [if_neg hwill, if_neg hwill]
    cases hmsg : a.willMsg with
    | none =>
        rw [if_neg (by simp [hwill])]
        simp only [List.length_append, length_pktString, List.length_nil]
        omega
    | some msg =>
        have hread := a.willMsg_readable msg hmsg
        rw [if_pos (.inr rfl)]
        simp only [List.length_append, length_pktString]
        omega

/-- The length of what is written to the last extent. -/
theorem length_connectFields {a : ConnectArgs} {user : CStr} {password : List UInt8}
    (hpassword : a.password = some password) (hid : a.idLen.toNat ≤ a.id.bytes.length + 1) :
    10 + (a.fields (a.flags ||| 0xC0) user password).length + a.missing =
      (a.totalLen user).toNat := by
  have hwill := length_willFields a
  have hread := a.password_readable password hpassword
  have hcut : (UInt16.ofNat user.bytes.length).toNat ≤ user.bytes.length := by
    rw [UInt16.toNat_ofNat']
    exact Nat.mod_le _ _
  rw [connectFields_eq, toNat_connectTotalLen]
  simp only [List.length_append, length_pktString, List.length_singleton]
  omega

/-- Without the last extent the call does not come back. -/
theorem packConnectFields_none {a : ConnectArgs} {flags : UInt8} {totalLen : UInt32} {user : CStr}
    {password : List UInt8} {fixHead variableHead : MqttExtent} {buf : MqttBuffer} {h : MqttHeap}
    (htotal : totalLen.toNat < 2 ^ 28)
    (hnone : (mqttBufferAllocExtent buf (totalLen - 10) h).1 = none) :
    (packConnectFields a flags totalLen user password fixHead variableHead buf h).1 =
      nullDereference := by
  simp only [packConnectFields, hnone]
  rw [if_neg (by rw [dumpLengthInto_of_lt _ htotal]; omega)]

/-- With it the three extents are filled and put into the list, when the identifier is as long
as it is taken to be. -/
theorem packConnectFields_some {a : ConnectArgs} {flags : UInt8} {totalLen : UInt32} {user : CStr}
    {password : List UInt8} {fixHead variableHead payload : MqttExtent} {buf : MqttBuffer}
    {h : MqttHeap} (htotal : totalLen.toNat < 2 ^ 28)
    (hpayload : (mqttBufferAllocExtent buf (totalLen - 10) h).1 = some payload) :
    packConnectFields a flags totalLen user password fixHead variableHead buf h =
      let buf' := (mqttBufferAllocExtent buf (totalLen - 10) h).2.1
      let h' := (dumpLengthInto fixHead totalLen ((mqttBufferAllocExtent buf (totalLen - 10) h).2.2.write
        fixHead.payload [0x10])).2.write variableHead.payload
          ([0, 4, 0x4D, 0x51, 0x54, 0x54, 4, flags] ++ mqttWB16 a.keepAlive)
      if a.id.bytes.length + 1 < a.idLen.toNat then (readOutOfBounds, buf', h')
      else (mqtterrNoerror, mqttBufferAppendExtent (mqttBufferAppendExtent (mqttBufferAppendExtent buf'
        (fixHead.withField (encode totalLen.toNat).length)) variableHead) payload,
        h'.write payload.payload (a.fields flags user password)) := by
  simp only [packConnectFields, hpayload]
  rw [if_neg (by rw [dumpLengthInto_of_lt _ htotal]; omega), dumpLengthInto_of_lt _ htotal]

theorem connectTotalLen_lt (a : ConnectArgs) (user : CStr) : (a.totalLen user).toNat < 2 ^ 28 := by
  have hid := a.idLen.toNat_lt
  have hwt := a.wtLen.toNat_lt
  have hmsg := a.msgLen.toNat_lt
  have huser := (UInt16.ofNat user.bytes.length).toNat_lt
  have hpswd := a.pswdLen.toNat_lt
  rw [toNat_connectTotalLen, ConnectArgs.willLen]
  split <;> omega

/-- The size of the last extent. -/
theorem toNat_connectPayload (a : ConnectArgs) (user : CStr) :
    (a.totalLen user - 10).toNat + 10 = (a.totalLen user).toNat := by
  have hlen := toNat_connectTotalLen a user
  have hlt := (a.totalLen user).toNat_lt
  rw [UInt32.toNat_sub]
  simp only [UInt32.reduceToNat]
  omega

/-- What is in the list behind an accepted packet. -/
theorem connect_packs {a : ConnectArgs} {buf : MqttBuffer} {h : MqttHeap} {rs : List Region}
    (hd : Drafted rs h a.extentSizes [] buf h) (hacc : ConnectAccepted a buf h)
    (hall : Allocates a.extentSizes buf h) (hid : a.idLen.toNat ≤ a.id.bytes.length + 1) :
    ∃ user password fixHead variableHead payload ds, a.user = some user ∧
      a.password = some password ∧
      PacketAdded rs buf h (mqttPackConnectPkt buf a h) 0x10 (a.totalLen user).toNat fixHead
        [variableHead, payload] ds ∧
      variableHead.len = 10 ∧ (variableHead, a.variableHeader) ∈ ds ∧
      payload.len = a.totalLen user - 10 ∧
      (payload, a.fields (a.flags ||| 0xC0) user password) ∈ ds := by
  obtain ⟨hno, -⟩ | ⟨user, password, fixHead, variableHead, -, huser, hpassword, hfix, hvar, heq⟩ :=
    connect_cases a buf h
  · exact absurd hacc hno
  have hsizes : a.extentSizes = [5, 10, a.totalLen user - 10] := by
    rw [ConnectArgs.extentSizes, huser]
    rfl
  rw [hsizes] at hd hall
  have htotal := connectTotalLen_lt a user
  obtain ⟨hext, hcount, -⟩ := mqttBufferAllocExtent_frame buf 5 h
  obtain ⟨hfixLen, hd₁⟩ := hd.alloc (by decide) hfix
  set buf₁ := (mqttBufferAllocExtent buf 5 h).2.1
  set h₁ := (mqttBufferAllocExtent buf 5 h).2.2
  obtain ⟨hext', hcount', -⟩ := mqttBufferAllocExtent_frame buf₁ 10 h₁
  obtain ⟨hvarLen, hd₂⟩ := hd₁.alloc (by decide) hvar
  have hall₂ := hall.2.2
  set buf₂ := (mqttBufferAllocExtent buf₁ 10 h₁).2.1
  set h₂ := (mqttBufferAllocExtent buf₁ 10 h₁).2.2
  obtain ⟨payload, hpayload⟩ := Option.isSome_iff_exists.mp hall₂.1
  obtain ⟨hext'', hcount'', -⟩ := mqttBufferAllocExtent_frame buf₂ (a.totalLen user - 10) h₂
  have hrest := toNat_connectPayload a user
  obtain ⟨hpayLen, hd₃⟩ := hd₂.alloc (by omega) hpayload
  have hfields : 10 + (a.fields (a.flags ||| 0xC0) user password).length + a.missing =
      (a.totalLen user).toNat := length_connectFields hpassword hid
  -- the three extents are filled one after the other
  have hwrite := hd₃.writeFirst [(payload, []), (variableHead, [])] [0x10]
    (hfixLen ▸ (by decide : 1 ≤ (5 : UInt32).toNat))
  have hdump := hwrite.dump [(payload, []), (variableHead, [])] hfixLen (a.totalLen user)
  rw [mqttDumpLength_of_lt htotal] at hdump
  have hwrite₂ := hdump.writeFirst [(payload, [])] a.variableHeader
    (hvarLen ▸ (by decide : 10 ≤ (10 : UInt32).toNat))
  have hwrite₃ := hwrite₂.writeFirst [] (a.fields (a.flags ||| 0xC0) user password)
    (by rw [hpayLen]; omega)
  have hpacked := heq.trans (packConnectFields_some htotal hpayload)
  simp only at hpacked
  rw [if_neg (Nat.not_lt.mpr hid)] at hpacked
  refine ⟨user, password, fixHead, variableHead, payload,
    [(payload, a.fields (a.flags ||| 0xC0) user password), (variableHead, a.variableHeader),
      (fixHead, 0x10 :: encode (a.totalLen user).toNat)], huser, hpassword, ?_, hvarLen,
    by simp, hpayLen, List.mem_cons_self⟩
  rw [hpacked]
  refine ⟨⟨rfl, htotal, hfixLen, ?_, by simp,
    ((hwrite₃.append _).append variableHead).append payload⟩, ?_⟩
  · simp only [mqttBufferAppendExtent, hext'', hext', hext, List.append_assoc, List.cons_append,
      List.nil_append]
  · simp only [mqttBufferAppendExtent, hcount'', hcount', hcount, List.map_cons, List.map_nil,
      List.sum_cons, List.sum_nil, UInt32.add_zero, UInt32.add_assoc]

/-- The length of the packet that the arguments describe. -/
theorem length_connectBody {a : ConnectArgs} {user : CStr} {password : List UInt8}
    (hpassword : a.password = some password) :
    (a.body user password).length = 10 + (2 + a.id.bytes.length) + a.will.length +
      (2 + user.bytes.length) + (2 + a.pswdLen.toNat) := by
  have hread := a.password_readable password hpassword
  simp only [ConnectArgs.body, List.length_append, length_text, List.length_take,
    Nat.min_eq_left hread]
  have hhead : a.variableHeader.length = 10 := rfl
  omega

/-- The will that the arguments describe is as long as the one that is written, when its topic
fits. -/
theorem length_will {a : ConnectArgs} (hfits : ∀ s ∈ a.willTopic, s.bytes.length < 2 ^ 16) :
    a.will.length + a.missing = a.willLen := by
  have hwt := toNat_wtLen a
  have hcut : ((a.willTopic.map CStr.bytes).getD []).length < 2 ^ 16 := by
    cases htopic : a.willTopic with
    | none => decide
    | some s => exact hfits s htopic
  rw [ConnectArgs.will, ConnectArgs.missing, ConnectArgs.willLen]
  by_cases hwill : a.flags &&& 0x04 = 0
  · rw [if_pos hwill, if_pos (.inl hwill), if_pos hwill]
    rfl
  · rw [if_neg hwill, if_neg hwill]
    cases hmsg : a.willMsg with
    | none =>
        rw [if_neg (by simp [hwill])]
        simp only [List.length_append, length_text, Option.map_none, Option.getD_none,
          List.length_nil]
        omega
    | some msg =>
        have hread := a.willMsg_readable msg hmsg
        rw [if_pos (.inr rfl)]
        simp only [List.length_append, length_text, Option.map_some, Option.getD_some,
          List.length_take]
        omega

/-- With strings that fit the fields are those of the packet. -/
theorem connectFields_eq_body {a : ConnectArgs} {user : CStr} {password : List UInt8}
    (hpassword : a.password = some password) (hfits : a.Fits user)
    (hid : a.idLen.toNat = a.id.bytes.length) :
    a.variableHeader ++ a.fields (a.flags ||| 0xC0) user password = a.body user password := by
  obtain ⟨hidLen, htopic, huser⟩ := hfits
  have hread := a.password_readable password hpassword
  have hident : pktString (a.id.bytes ++ [0]) a.idLen = text a.id.bytes := by
    have hcast : a.idLen = UInt16.ofNat a.id.bytes.length := by
      rw [← UInt16.toNat_inj, hid, UInt16.toNat_ofNat', Nat.mod_eq_of_lt hidLen]
    rw [pktString, hid, List.take_left' rfl, hcast, text]
  have hcut : ∀ {str : List UInt8} {len : UInt16}, len.toNat ≤ str.length →
      pktString str len = text (str.take len.toNat) := fun hle => by
    rw [pktString, text, List.length_take, Nat.min_eq_left hle, UInt16.ofNat_toNat]
  have hwill : a.willFields = a.will := by
    have hwt := toNat_wtLen a
    have htext : pktString ((a.willTopic.map CStr.bytes).getD []) a.wtLen =
        text ((a.willTopic.map CStr.bytes).getD []) := by
      have hlt : ((a.willTopic.map CStr.bytes).getD []).length < 2 ^ 16 := by
        cases htop : a.willTopic with
        | none => decide
        | some s => exact htopic s htop
      rw [Nat.mod_eq_of_lt hlt] at hwt
      rw [hcut hwt.le, hwt, List.take_of_length_le le_rfl]
    rw [ConnectArgs.willFields, ConnectArgs.will, htext]
    split
    · rfl
    · cases hmsg : a.willMsg with
      | none => rfl
      | some msg => exact congrArg (text _ ++ ·) (hcut (a.willMsg_readable msg hmsg))
  rw [connectFields_eq, hident, hwill, pktString_eq_text huser, hcut hread, ConnectArgs.body]

/-- Without the last extent, or with an identifier shorter than it is taken to be, the call does
not come back. -/
theorem connect_crashes {a : ConnectArgs} {buf : MqttBuffer} {h : MqttHeap}
    (hacc : ConnectAccepted a buf h)
    (hno : ¬ (Allocates a.extentSizes buf h ∧ a.idLen.toNat ≤ a.id.bytes.length + 1)) :
    (mqttPackConnectPkt buf a h).1 < -14 := by
  obtain ⟨hbad, -⟩ | ⟨user, password, fixHead, variableHead, -, huser, -, -, -, heq⟩ :=
    connect_cases a buf h
  · exact absurd hacc hbad
  have hsizes : a.extentSizes = [5, 10, a.totalLen user - 10] := by
    rw [ConnectArgs.extentSizes, huser]
    rfl
  rw [hsizes] at hno
  set buf₂ := (mqttBufferAllocExtent (mqttBufferAllocExtent buf 5 h).2.1 10
    (mqttBufferAllocExtent buf 5 h).2.2).2.1
  set h₂ := (mqttBufferAllocExtent (mqttBufferAllocExtent buf 5 h).2.1 10
    (mqttBufferAllocExtent buf 5 h).2.2).2.2
  rw [heq]
  cases hpayload : (mqttBufferAllocExtent buf₂ (a.totalLen user - 10) h₂).1 with
  | none =>
      rw [packConnectFields_none (connectTotalLen_lt a user) hpayload]
      decide
  | some payload =>
      have hall : Allocates [5, 10, a.totalLen user - 10] buf h :=
        ⟨hacc.allocates.1, hacc.allocates.2.1, by rw [hpayload]; rfl, trivial⟩
      have hshort : a.id.bytes.length + 1 < a.idLen.toNat := by
        by_contra hle
        exact hno ⟨hall, Nat.not_lt.mp hle⟩
      rw [packConnectFields_some (connectTotalLen_lt a user) hpayload]
      simp only [if_pos hshort]
      decide

/-- With strings that fit, the identifier is as long as it is taken to be, and all that is
counted is written, exactly when the packet is as long as its arguments say. -/
theorem length_connectBody_eq_iff {a : ConnectArgs} {user : CStr} {password : List UInt8}
    (hpassword : a.password = some password) (hfits : a.Fits user) :
    (a.body user password).length = (a.totalLen user).toNat ↔
      (a.id.bytes.all isalnum ∨ a.id.bytes.length = 65535) ∧
        (a.flags &&& 0x04 ≠ 0 → a.willMsg = none → a.msgLen = 0) := by
  have hidLen := toNat_idLen a
  have hwill := length_will hfits.2.1
  have hlt := hfits.1
  have hmissing : a.missing = 0 ↔ (a.flags &&& 0x04 ≠ 0 → a.willMsg = none → a.msgLen = 0) := by
    rw [ConnectArgs.missing]
    by_cases hwritten : a.flags &&& 0x04 = 0 ∨ a.willMsg.isSome
    · rw [if_pos hwritten]
      refine iff_of_true rfl fun hflag hmsg => ?_
      rw [hmsg] at hwritten
      exact absurd (hwritten.resolve_left hflag) (by simp)
    · rw [if_neg hwritten]
      rw [not_or, Option.not_isSome_iff_eq_none] at hwritten
      exact ⟨fun h _ _ => UInt16.toNat_inj.mp h, fun h => by rw [h hwritten.1 hwritten.2]; rfl⟩
  rw [length_connectBody hpassword, toNat_connectTotalLen, UInt16.toNat_ofNat',
    Nat.mod_eq_of_lt hfits.2.2, ← hmissing]
  by_cases hlegal : a.id.bytes.all isalnum
  · rw [if_pos hlegal] at hidLen
    simp only [hlegal, true_or, true_and]
    omega
  · rw [if_neg hlegal] at hidLen
    simp only [hlegal, Bool.false_eq_true, false_or]
    omega

/-- The packets that `Mqtt_PackConnectPkt` packs whole. -/
theorem connect_whole_iff {a : ConnectArgs} {buf : MqttBuffer} {h : MqttHeap}
    (hm : MemoryOk (extentRegions buf.extents) a.extentSizes buf h) :
    Whole buf h a.packet (mqttPackConnectPkt buf a h) ↔ ConnectWhole a buf h := by
  by_cases hacc : ConnectAccepted a buf h
  swap
  · obtain ⟨-, hrefused⟩ | ⟨_, _, _, _, hyes, -⟩ := connect_cases a buf h
    · exact iff_of_true (.inr hrefused) fun h => absurd h hacc
    · exact absurd hyes hacc
  have hidLen := toNat_idLen a
  by_cases hpacks : Allocates a.extentSizes buf h ∧ a.idLen.toNat ≤ a.id.bytes.length + 1
  swap
  · refine iff_of_false (not_whole_of_crash (connect_crashes hacc hpacks)) fun hwhole => ?_
    obtain ⟨user, huser, -⟩ := hacc.user
    obtain ⟨hall, hfits, hlegal, -⟩ := hwhole hacc user huser
    refine hpacks ⟨hall, ?_⟩
    have hlt := hfits.1
    split at hidLen
    · omega
    · have hlong := hlegal.resolve_left (by assumption)
      omega
  obtain ⟨hall, hid⟩ := hpacks
  obtain ⟨user, password, fixHead, variableHead, payload, ds, huser, hpassword, hp, hvarLen,
    hvarMem, hpayLen, hpayMem⟩ := connect_packs (.start hm) hacc hall hid
  have hcond : ConnectWhole a buf h ↔ a.Fits user ∧
      (a.id.bytes.all isalnum ∨ a.id.bytes.length = 65535) ∧
      (a.flags &&& 0x04 ≠ 0 → a.willMsg = none → a.msgLen = 0) := by
    refine ⟨fun hwhole => (hwhole hacc user huser).2, fun hcond _ user' huser' => ?_⟩
    rw [huser] at huser'
    cases huser'
    exact ⟨hall, hcond⟩
  have hpacket : a.packet = describe (a.Fits user) 0x10 (a.body user password) := by
    rw [ConnectArgs.packet, huser, hpassword]
  have hrest := toNat_connectPayload a user
  have hlen : extentsLength [variableHead, payload] = (a.totalLen user).toNat := by
    rw [extentsLength_cons, extentsLength_cons, extentsLength_nil, hvarLen, hpayLen]
    simp only [UInt32.reduceToNat]
    omega
  rw [hpacket, hp.whole_iff hlen fun q hq => hq, hcond]
  constructor
  · rintro ⟨⟨hfits, -⟩, hflat⟩
    have hcount := congrArg List.length hflat
    rw [length_flattenExtents, hlen] at hcount
    exact ⟨hfits, (length_connectBody_eq_iff hpassword hfits).mp hcount.symm⟩
  · rintro ⟨hfits, hlegal⟩
    have hbody := (length_connectBody_eq_iff hpassword hfits).mpr hlegal
    have hidEq : a.idLen.toNat = a.id.bytes.length := by
      have hlt := hfits.1
      split at hidLen
      · omega
      · have hlong := hlegal.1.resolve_left (by assumption)
        omega
    have hfields := connectFields_eq_body hpassword hfits hidEq
    have hfieldsLen := congrArg List.length hfields
    rw [List.length_append, show a.variableHeader.length = 10 from rfl, hbody] at hfieldsLen
    have hshort := hp.short
    refine ⟨⟨hfits, by omega⟩, ?_⟩
    rw [flattenExtents_cons, flattenExtents_cons, flattenExtents_nil, List.append_nil,
      hp.drafted.readMem_filled hvarMem rfl (by rw [hvarLen]; rfl),
      hp.drafted.readMem_filled hpayMem rfl (by rw [hpayLen]; omega), hfields]

end Mqtt
