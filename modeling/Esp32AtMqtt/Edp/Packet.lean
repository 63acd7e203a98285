import Esp32AtMqtt.Edp.Remainlen
import Mathlib.Data.List.Forall2

/-!
# The packets that the device sends

The constructors `PacketConnect1`, `PacketConnect2`, `PacketPushdata`, `PacketSavedataBinStr`,
`PacketSavedataSimpleString`, `PacketCmdResp` and `PacketPing` of `EdpKit.c`. Each computes the
remaining length of the packet from its arguments, writes the type byte and the length, and then
one field after the other. `packed_all` is the part they share: when the number computed in
front is the number of the bytes written behind it, the packet is one that `IsPkgComplete`
accepts as a whole.
-/

namespace Edp

open Base128

/-- `CONNREQ`. -/
def connReq : UInt8 := 0x10

/-- `PUSHDATA`. -/
def pushData : UInt8 := 0x30

/-- `SAVEDATA`. -/
def saveData : UInt8 := 0x80

/-- `CMDRESP`. -/
def cmdResp : UInt8 := 0xB0

/-- `PINGREQ`. -/
def pingReq : UInt8 := 0xC0

/-- `PROTOCOL_NAME`, the bytes of `EDP`. -/
def protocolName : Str := ⟨[69, 68, 80], by decide⟩

/-- `PROTOCOL_VERSION`. -/
def protocolVersion : UInt8 := 1

/-- `enum SaveDataType`. -/
inductive SaveDataType
  | fullJson
  | bin
  | simpleJsonWithoutTime
  | simpleJsonWithTime
  | string
  deriving DecidableEq, Repr

/-- The number of a type, the flag in the packet. -/
def SaveDataType.flag : SaveDataType → UInt8
  | .fullJson => 0x01
  | .bin => 0x02
  | .simpleJsonWithoutTime => 0x03
  | .simpleJsonWithTime => 0x04
  | .string => 0x05

/-- `PacketConnect1(devid, auth_key)`. -/
def packetConnect1 (m : FreshMemory) (devid authKey : Str) : Writing :=
  let remainlen := (2 + 3) + 1 + 1 + 2 + (2 + devid.strlen) + (2 + authKey.strlen)
  (newWriting m).all [writeByte m connReq, writeRemainlen remainlen, writeStr m protocolName,
    writeByte m protocolVersion, writeByte m 0x40, writeUint16 m 0x0080, writeStr m devid,
    writeStr m authKey]

/-- `PacketConnect2(userid, auth_info)`. -/
def packetConnect2 (m : FreshMemory) (userid authInfo : Str) : Writing :=
  let remainlen := (2 + 3) + 1 + 1 + 2 + 2 + (2 + userid.strlen) + (2 + authInfo.strlen)
  (newWriting m).all [writeByte m connReq, writeRemainlen remainlen, writeStr m protocolName,
    writeByte m protocolVersion, writeByte m 0xC0, writeUint16 m 0x0080, writeByte m 0x00,
    writeByte m 0x00, writeStr m userid, writeStr m authInfo]

/-- `PacketPushdata(dst_devid, data, data_len)`. -/
def packetPushdata (m : FreshMemory) (dstDevid : Str) (data : List UInt8) : Writing :=
  let remainlen := (2 + dstDevid.strlen) + UInt32.ofNat data.length
  (newWriting m).all [writeByte m pushData, writeRemainlen remainlen, writeStr m dstDevid,
    putBytes m data]

/-- The flag and the id at the front of the body of a `SAVEDATA` packet. -/
def addressWriters (m : FreshMemory) : Option Str → List Writer
  | some dstDevid => [writeByte m 0x80, writeStr m dstDevid]
  | none => [writeByte m 0x00]

/-- `PacketSavedataBinStr(dst_devid, desc_str, bin_data, bin_len)`; `none` is the null pointer. -/
def packetSavedataBinStr (m : FreshMemory) (dstDevid : Option Str) (descStr : Str)
    (binData : List UInt8) : Option Writing :=
  let descLen := descStr.strlen
  let binLen := UInt32.ofNat binData.length
  if descLen.toNat > 0x01 <<< 16 ∨ binLen.toNat > 3 * (0x01 <<< 20) then none
  else
    let remainlen :=
      match dstDevid with
      | some dst => 1 + (2 + dst.strlen) + 1 + (2 + descLen) + (4 + binLen)
      | none => 1 + 1 + (2 + descLen) + (4 + binLen)
    some ((newWriting m).all ([writeByte m saveData, writeRemainlen remainlen] ++
      addressWriters m dstDevid ++ [writeByte m SaveDataType.bin.flag, writeStr m descStr,
      writeUint32 m binLen, putBytes m binData]))

/-- `PacketSavedataJson(dst_devid, json_obj, type)`, with the text of the object. -/
def packetSavedataJson (m : FreshMemory) (dstDevid : Option Str) (jsonOut : Str)
    (type : SaveDataType) : Writing :=
  let jsonLen := jsonOut.strlen
  let remainlen :=
    match dstDevid with
    | some dst => 1 + (2 + dst.strlen) + 1 + (2 + jsonLen)
    | none => 1 + 1 + (2 + jsonLen)
  (newWriting m).all ([writeByte m saveData, writeRemainlen remainlen] ++
    addressWriters m dstDevid ++ [writeByte m type.flag, writeStr m jsonOut])

/-- `PacketSavedataSimpleString(dst_devid, input)`. -/
def packetSavedataSimpleString (m : FreshMemory) (dstDevid : Option Str) (input : Str) : Writing :=
  let remainlen :=
    match dstDevid with
    | some dst => 1 + (2 + dst.strlen) + 1 + (2 + input.strlen)
    | none => 1 + 1 + (2 + input.strlen)
  (newWriting m).all ([writeByte m saveData, writeRemainlen remainlen] ++
    addressWriters m dstDevid ++ [writeByte m SaveDataType.string.flag, writeStr m input])

/-- `PacketCmdResp(cmdid, cmdid_len, resp, resp_len)`. -/
def packetCmdResp (m : FreshMemory) (cmdid resp : List UInt8) : Writing :=
  let cmdidLen := UInt16.ofNat cmdid.length
  let respLen := UInt32.ofNat resp.length
  let remainlen := cmdidLen.toUInt32 + respLen + (if respLen ≠ 0 then 6 else 2)
  (newWriting m).all ([writeByte m cmdResp, writeRemainlen remainlen, writeUint16 m cmdidLen,
    putBytes m cmdid] ++ if respLen ≠ 0 then [writeUint32 m respLen, putBytes m resp] else [])

/-- `PacketPing()`. -/
def packetPing (m : FreshMemory) : Writing :=
  (newWriting m).all [writeByte m pingReq, writeRemainlen 0]

/-- The calls of the constructors. -/
inductive PacketCall
  | connect1 (devid authKey : Str)
  | connect2 (userid authInfo : Str)
  | pushdata (dstDevid : Str) (data : List UInt8)
  | savedataBinStr (dstDevid : Option Str) (descStr : Str) (binData : List UInt8)
  | savedataSimpleString (dstDevid : Option Str) (input : Str)
  | cmdResp (cmdid resp : List UInt8)
  | ping

/-- The packet that a call makes, `none` where it is refused. -/
def PacketCall.build (m : FreshMemory) : PacketCall → Option Writing
  | .connect1 devid authKey => some (packetConnect1 m devid authKey)
  | .connect2 userid authInfo => some (packetConnect2 m userid authInfo)
  | .pushdata dstDevid data => some (packetPushdata m dstDevid data)
  | .savedataBinStr dstDevid descStr binData => packetSavedataBinStr m dstDevid descStr binData
  | .savedataSimpleString dstDevid input => some (packetSavedataSimpleString m dstDevid input)
  | .cmdResp cmdid resp => some (packetCmdResp m cmdid resp)
  | .ping => some (packetPing m)

/-- A string whose length has 16 bits. -/
def Str.Short (str : Str) : Prop := str.bytes.length ≤ 65535

instance (str : Str) : Decidable str.Short := inferInstanceAs (Decidable (_ ≤ _))

/-- Strings whose length has 16 bits, and data of fewer than `2^27` bytes. -/
def PacketCall.Small : PacketCall → Prop
  | .connect1 devid authKey => devid.Short ∧ authKey.Short
  | .connect2 userid authInfo => userid.Short ∧ authInfo.Short
  | .pushdata dstDevid data => dstDevid.Short ∧ data.length < 2 ^ 27
  | .savedataBinStr dstDevid descStr binData =>
      (∀ dst ∈ dstDevid, dst.Short) ∧ descStr.Short ∧ binData.length < 2 ^ 27
  | .savedataSimpleString dstDevid input => (∀ dst ∈ dstDevid, dst.Short) ∧ input.Short
  | .cmdResp cmdid resp => cmdid.length ≤ 65535 ∧ resp.length < 2 ^ 27
  | .ping => True

/-- A packet: the type, the length of the body, the body. -/
def packetBytes (msgType : UInt8) (body : List UInt8) : List UInt8 :=
  msgType :: (encode body.length ++ body)

/-- The packet has been written: its type, the length of the body, and the body. -/
structure Packed (w : Writing) (msgType : UInt8) (body : List UInt8) : Prop where
  built : Built w (packetBytes msgType body)
  length_lt : body.length < 2 ^ 28

/-- The part that the constructors share. -/
theorem packed_all (m : FreshMemory) {msgType : UInt8} {remainlen : UInt32} {fs : List Writer}
    {bs : List (List UInt8)} (hfs : List.Forall₂ Appends fs bs)
    (hlen : remainlen.toNat = bs.flatten.length) (hsmall : bs.flatten.length < 2 ^ 28) :
    Packed ((newWriting m).all ([writeByte m msgType, writeRemainlen remainlen] ++ fs)) msgType
      bs.flatten := by
  obtain ⟨-, htype⟩ := appends_writeByte m msgType _ [] (built_newWriting m)
    (by simp)
  rw [List.nil_append] at htype
  have hcap : 128 ≤ (writeByte m msgType (newWriting m)).2.pkg.capacity.toNat :=
    UInt32.le_iff_toNat_le.mp htype.valid.capacity_ge
  have hfive := length_encode_le_five remainlen
  have hhead := htype.writeRemainlen remainlen (by rw [List.length_singleton]; omega)
  have hall := Built.all hfs hhead (by
    rw [List.length_append, List.length_singleton]
    omega)
  rw [hlen, List.append_assoc] at hall
  exact ⟨hall, hsmall⟩

/-- `IsPkgComplete` takes the whole of it. -/
theorem Packed.complete {w : Writing} {msgType : UInt8} {body : List UInt8}
    (h : Packed w msgType body) : isPkgComplete w.pkg = w.pkg.writePos.toNat := by
  have hlt := h.length_lt
  have hfour : (encode body.length).length ≤ 4 :=
    (length_encode_le_iff 3 body.length).mpr (by simpa using hlt)
  let p : EdpPacket := ⟨msgType, encode body.length, body, isField_encode _, hfour, value_encode _⟩
  have hwritten : w.pkg.written = p.bytes ++ [] := by
    rw [h.built.written_eq, List.append_nil]
    rfl
  have hlen : p.bytes.length = w.pkg.writePos.toNat := by
    rw [h.built.length_eq]
    rfl
  rw [isPkgComplete_packet h.built.valid p hwritten, hlen]

theorem Str.Short.toNat_strlen {str : Str} (h : str.Short) : str.strlen.toNat = str.bytes.length := by
  have hle : str.bytes.length ≤ 65535 := h
  exact UInt32.toNat_ofNat_of_lt' (show str.bytes.length < 2 ^ 32 by omega)

theorem Str.length_field (str : Str) : str.field.length = 2 + str.bytes.length := by
  rw [Str.field, List.length_append]
  rfl

theorem toNat_ofNat_of_lt {n : ℕ} (h : n < 2 ^ 27) : (UInt32.ofNat n).toNat = n :=
  UInt32.toNat_ofNat_of_lt' (show n < 2 ^ 32 by omega)

section Constructors

variable (m : FreshMemory)

theorem packed_packetConnect1 {devid authKey : Str} (hdev : devid.Short) (hkey : authKey.Short) :
    Packed (packetConnect1 m devid authKey) connReq
      [protocolName.field, [protocolVersion], [0x40], uint16Bytes 0x0080, devid.field,
        authKey.field].flatten := by
  have hdev' : devid.bytes.length ≤ 65535 := hdev
  have hkey' : authKey.bytes.length ≤ 65535 := hkey
  have hlen : ([protocolName.field, [protocolVersion], [0x40], uint16Bytes 0x0080, devid.field,
      authKey.field].flatten).length = 13 + devid.bytes.length + authKey.bytes.length := by
    simp [Str.length_field, uint16Bytes, protocolName]
    omega
  refine packed_all m (.cons (appends_writeStr m (by decide)) (.cons (appends_writeByte m _)
    (.cons (appends_writeByte m _) (.cons (appends_writeUint16 m _) (.cons (appends_writeStr m hdev)
    (.cons (appends_writeStr m hkey) .nil)))))) ?_ ?_
  · simp only [UInt32.toNat_add, hdev.toNat_strlen, hkey.toNat_strlen, hlen, UInt32.reduceToNat]
    omega
  · rw [hlen]
    omega

theorem packed_packetConnect2 {userid authInfo : Str} (hid : userid.Short)
    (hauth : authInfo.Short) :
    Packed (packetConnect2 m userid authInfo) connReq
      [protocolName.field, [protocolVersion], [0xC0], uint16Bytes 0x0080, [0x00], [0x00],
        userid.field, authInfo.field].flatten := by
  have hid' : userid.bytes.length ≤ 65535 := hid
  have hauth' : authInfo.bytes.length ≤ 65535 := hauth
  have hlen : ([protocolName.field, [protocolVersion], [0xC0], uint16Bytes 0x0080, [0x00], [0x00],
      userid.field, authInfo.field].flatten).length =
      15 + userid.bytes.length + authInfo.bytes.length := by
    simp [Str.length_field, uint16Bytes, protocolName]
    omega
  refine packed_all m (.cons (appends_writeStr m (by decide)) (.cons (appends_writeByte m _)
    (.cons (appends_writeByte m _) (.cons (appends_writeUint16 m _) (.cons (appends_writeByte m _)
    (.cons (appends_writeByte m _) (.cons (appends_writeStr m hid)
    (.cons (appends_writeStr m hauth) .nil)))))))) ?_ ?_
  · simp only [UInt32.toNat_add, hid.toNat_strlen, hauth.toNat_strlen, hlen, UInt32.reduceToNat]
    omega
  · rw [hlen]
    omega

theorem packed_packetPushdata {dstDevid : Str} {data : List UInt8} (hdst : dstDevid.Short)
    (hdata : data.length < 2 ^ 27) :
    Packed (packetPushdata m dstDevid data) pushData [dstDevid.field, data].flatten := by
  have hdst' : dstDevid.bytes.length ≤ 65535 := hdst
  have hlen : [dstDevid.field, data].flatten.length = 2 + dstDevid.bytes.length + data.length := by
    simp [Str.length_field]
  refine packed_all m (.cons (appends_writeStr m hdst) (.cons (appends_putBytes m _) .nil)) ?_ ?_
  · simp only [UInt32.toNat_add, hdst.toNat_strlen, toNat_ofNat_of_lt hdata, hlen,
      UInt32.reduceToNat]
    omega
  · rw [hlen]
    omega

/-- The flag and the id as bytes. -/
def addressFields : Option Str → List (List UInt8)
  | some dstDevid => [[0x80], dstDevid.field]
  | none => [[0x00]]

theorem appends_addressWriters {dstDevid : Option Str} (h : ∀ dst ∈ dstDevid, dst.Short) :
    List.Forall₂ Appends (addressWriters m dstDevid) (addressFields dstDevid) := by
  cases dstDevid with
  | none => exact .cons (appends_writeByte m _) .nil
  | some dst => exact .cons (appends_writeByte m _) (.cons (appends_writeStr m (h dst rfl)) .nil)

/-- The length of the flag and the id. -/
def addressLength : Option Str → ℕ
  | some dstDevid => 3 + dstDevid.bytes.length
  | none => 1

theorem length_addressFields (dstDevid : Option Str) :
    (addressFields dstDevid).flatten.length = addressLength dstDevid := by
  cases dstDevid with
  | none => rfl
  | some dst =>
      simp only [addressFields, List.flatten_cons, List.flatten_nil, List.length_append,
        List.length_singleton, List.length_nil, Str.length_field, addressLength]
      omega

theorem addressLength_le {dstDevid : Option Str} (h : ∀ dst ∈ dstDevid, dst.Short) :
    addressLength dstDevid ≤ 65538 := by
  cases dstDevid with
  | none => exact (by decide : 1 ≤ 65538)
  | some dst =>
      have hshort : dst.bytes.length ≤ 65535 := h dst rfl
      exact (by omega : 3 + dst.bytes.length ≤ 65538)

theorem packed_packetSavedataBinStr {dstDevid : Option Str} {descStr : Str} {binData : List UInt8}
    {w : Writing} (hdst : ∀ dst ∈ dstDevid, dst.Short) (hdesc : descStr.Short)
    (hdata : binData.length < 2 ^ 27)
    (hw : packetSavedataBinStr m dstDevid descStr binData = some w) :
    Packed w saveData (addressFields dstDevid ++ [[SaveDataType.bin.flag], descStr.field,
      uint32Bytes (UInt32.ofNat binData.length), binData]).flatten := by
  have hdesc' : descStr.bytes.length ≤ 65535 := hdesc
  have haddress := addressLength_le hdst
  have hlen : (addressFields dstDevid ++ [[SaveDataType.bin.flag], descStr.field,
      uint32Bytes (UInt32.ofNat binData.length), binData]).flatten.length =
      addressLength dstDevid + 7 + descStr.bytes.length + binData.length := by
    simp only [List.flatten_append, List.length_append, length_addressFields, List.flatten_cons,
      List.flatten_nil, List.length_cons, List.length_nil, Str.length_field, uint32Bytes]
    omega
  simp only [packetSavedataBinStr] at hw
  split_ifs at hw
  obtain rfl := Option.some.inj hw
  rw [List.append_assoc]
  refine packed_all m (List.rel_append (appends_addressWriters m hdst)
    (.cons (appends_writeByte m SaveDataType.bin.flag) (.cons (appends_writeStr m hdesc)
      (.cons (appends_writeUint32 m (UInt32.ofNat binData.length))
        (.cons (appends_putBytes m binData) .nil))))) ?_ ?_
  · rw [hlen]
    cases dstDevid with
    | none =>
        simp only [addressLength, UInt32.toNat_add, hdesc.toNat_strlen, toNat_ofNat_of_lt hdata,
          UInt32.reduceToNat]
        omega
    | some dst =>
        have hshort := hdst dst rfl
        simp only [addressLength, UInt32.toNat_add, hdesc.toNat_strlen, hshort.toNat_strlen,
          toNat_ofNat_of_lt hdata, UInt32.reduceToNat] at haddress ⊢
        omega
  · rw [hlen]
    omega

theorem packed_packetSavedataJson {dstDevid : Option Str} {jsonOut : Str}
    (hdst : ∀ dst ∈ dstDevid, dst.Short) (hout : jsonOut.Short) (type : SaveDataType) :
    Packed (packetSavedataJson m dstDevid jsonOut type) saveData
      (addressFields dstDevid ++ [[type.flag], jsonOut.field]).flatten := by
  have hout' : jsonOut.bytes.length ≤ 65535 := hout
  have haddress := addressLength_le hdst
  have hlen : (addressFields dstDevid ++ [[type.flag], jsonOut.field]).flatten.length =
      addressLength dstDevid + 3 + jsonOut.bytes.length := by
    simp only [List.flatten_append, List.length_append, length_addressFields, List.flatten_cons,
      List.flatten_nil, List.length_singleton, List.length_nil, Str.length_field]
    omega
  simp only [packetSavedataJson, List.append_assoc]
  refine packed_all m (List.rel_append (appends_addressWriters m hdst)
    (.cons (appends_writeByte m type.flag) (.cons (appends_writeStr m hout) .nil))) ?_ ?_
  · rw [hlen]
    cases dstDevid with
    | none =>
        simp only [addressLength, UInt32.toNat_add, hout.toNat_strlen, UInt32.reduceToNat]
        omega
    | some dst =>
        have hshort := hdst dst rfl
        simp only [addressLength, UInt32.toNat_add, hout.toNat_strlen, hshort.toNat_strlen,
          UInt32.reduceToNat] at haddress ⊢
        omega
  · rw [hlen]
    omega

/-- A simple string is packed as the text of an object is. -/
theorem packed_packetSavedataSimpleString {dstDevid : Option Str} {input : Str}
    (hdst : ∀ dst ∈ dstDevid, dst.Short) (hinput : input.Short) :
    Packed (packetSavedataSimpleString m dstDevid input) saveData
      (addressFields dstDevid ++ [[SaveDataType.string.flag], input.field]).flatten :=
  packed_packetSavedataJson m hdst hinput .string

theorem packed_packetCmdResp {cmdid resp : List UInt8} (hid : cmdid.length ≤ 65535)
    (hresp : resp.length < 2 ^ 27) :
    ∃ body, Packed (packetCmdResp m cmdid resp) cmdResp body := by
  have hidLen : (UInt16.ofNat cmdid.length).toNat = cmdid.length :=
    UInt16.toNat_ofNat_of_lt' (show cmdid.length < 2 ^ 16 by omega)
  have hrespLen := toNat_ofNat_of_lt hresp
  have hhead : List.Forall₂ Appends [writeUint16 m (UInt16.ofNat cmdid.length), putBytes m cmdid]
      [uint16Bytes (UInt16.ofNat cmdid.length), cmdid] :=
    .cons (appends_writeUint16 m _) (.cons (appends_putBytes m _) .nil)
  rw [packetCmdResp]
  by_cases hzero : UInt32.ofNat resp.length ≠ 0
  · have hlen : [uint16Bytes (UInt16.ofNat cmdid.length), cmdid,
        uint32Bytes (UInt32.ofNat resp.length), resp].flatten.length =
        6 + cmdid.length + resp.length := by
      simp [uint16Bytes, uint32Bytes]
      omega
    rw [if_pos hzero, if_pos hzero]
    refine ⟨_, packed_all m (List.rel_append hhead (.cons (appends_writeUint32 m _)
      (.cons (appends_putBytes m resp) .nil))) ?_ ?_⟩
    · show _ = [uint16Bytes (UInt16.ofNat cmdid.length), cmdid,
        uint32Bytes (UInt32.ofNat resp.length), resp].flatten.length
      rw [hlen]
      simp only [UInt32.toNat_add, UInt16.toNat_toUInt32, hidLen, hrespLen, UInt32.reduceToNat]
      omega
    · exact hlen.trans_lt (by omega)
  · have hlen : [uint16Bytes (UInt16.ofNat cmdid.length), cmdid].flatten.length =
        2 + cmdid.length := by
      simp [uint16Bytes]
      omega
    have hnone : UInt32.ofNat resp.length = 0 := not_not.mp hzero
    rw [if_neg hzero, if_neg hzero, List.append_nil]
    refine ⟨_, packed_all m hhead ?_ ?_⟩
    · rw [hlen, hnone]
      simp only [UInt32.toNat_add, UInt16.toNat_toUInt32, hidLen, UInt32.reduceToNat]
      omega
    · exact hlen.trans_lt (by omega)

theorem packed_packetPing : Packed (packetPing m) pingReq [] :=
  packed_all m (.nil : List.Forall₂ Appends [] []) rfl (by decide)

end Constructors

/-- What a call makes is a packet. -/
theorem PacketCall.packed (m : FreshMemory) {call : PacketCall} (h : call.Small) {w : Writing}
    (hw : call.build m = some w) : ∃ msgType body, Packed w msgType body := by
  cases call with
  | connect1 devid authKey =>
      obtain rfl := Option.some.inj hw
      exact ⟨_, _, packed_packetConnect1 m h.1 h.2⟩
  | connect2 userid authInfo =>
      obtain rfl := Option.some.inj hw
      exact ⟨_, _, packed_packetConnect2 m h.1 h.2⟩
  | pushdata dstDevid data =>
      obtain rfl := Option.some.inj hw
      exact ⟨_, _, packed_packetPushdata m h.1 h.2⟩
  | savedataBinStr dstDevid descStr binData =>
      exact ⟨_, _, packed_packetSavedataBinStr m h.1 h.2.1 h.2.2 hw⟩
  | savedataSimpleString dstDevid input =>
      obtain rfl := Option.some.inj hw
      exact ⟨_, _, packed_packetSavedataSimpleString m h.1 h.2⟩
  | cmdResp cmdid resp =>
      obtain rfl := Option.some.inj hw
      exact ⟨_, packed_packetCmdResp m h.1 h.2⟩
  | ping =>
      obtain rfl := Option.some.inj hw
      exact ⟨_, _, packed_packetPing m⟩

/-- Every store of a constructor is at an index below the capacity of the block then, and the
packet is one complete packet: the length in front is that of the body behind it. -/
theorem packetCall_complete (m : FreshMemory) {call : PacketCall} (h : call.Small) {w : Writing}
    (hw : call.build m = some w) :
    (∀ s ∈ w.stores, ∀ i < s.count, s.index + i < s.capacity) ∧
      isPkgComplete w.pkg = w.pkg.writePos.toNat ∧
        ∃ msgType body, w.pkg.written = packetBytes msgType body := by
  obtain ⟨msgType, body, hpacked⟩ := PacketCall.packed m h hw
  refine ⟨fun s hs i hi => ?_, hpacked.complete, msgType, body, hpacked.built.written_eq⟩
  exact (Nat.add_lt_add_left hi s.index).trans_le (hpacked.built.stores_le s hs)

/-- A response without data to the command 7. -/
theorem packetCall_complete_cmdResp :
    isPkgComplete (packetCmdResp zeroMemory [7] []).pkg =
      (packetCmdResp zeroMemory [7] []).pkg.writePos.toNat := by
  have hsmall : (PacketCall.cmdResp [7] []).Small := ⟨by decide, by decide⟩
  exact (packetCall_complete zeroMemory hsmall rfl).2.1

end Edp
