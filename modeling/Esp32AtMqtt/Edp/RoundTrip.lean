import Esp32AtMqtt.Edp.Packet
import Esp32AtMqtt.Edp.Unpack
import Esp32AtMqtt.Stream.Ended
import Mathlib.Data.List.TakeWhile

/-!
# Push data and simple strings there and back

What `PacketPushdata` builds is delivered in chunks through `WriteBytes` and `GetEdpPacket` and
taken apart by `EdpPacketType` and `UnpackPushdata`; what `PacketSavedataSimpleString` builds is
taken apart by `EdpPacketType`, `UnpackSavedata` and `UnpackSavedataSimpleString`. The two sides
meet at the list of the fields: each reader takes from it what one writer has appended.
-/

namespace Edp

open Base128 Framing

/-- Memory for every block. -/
def mallocSucceeds : ℕ → Bool := fun _ => true

theorem takeUint16_uint16Bytes (val : UInt16) (rest : List UInt8) :
    takeUint16 (uint16Bytes val ++ rest) = some (val, rest) := by
  have hlt := val.toNat_lt
  have hmsb : (((val &&& 0xFF00) >>> 8).toUInt8).toNat = val.toNat / 256 := by
    rw [UInt16.toNat_toUInt8, UInt16.toNat_shiftRight, UInt16.toNat_and]
    show ((val.toNat &&& 65280) >>> 8) % 256 = val.toNat / 256
    rw [Nat.shiftRight_and_distrib, Nat.shiftRight_eq_div_pow]
    show (val.toNat / 256 &&& (2 ^ 8 - 1)) % 256 = val.toNat / 256
    rw [Nat.and_two_pow_sub_one_eq_mod]
    omega
  have hlsb : ((val &&& 0x00FF).toUInt8).toNat = val.toNat % 256 := by
    rw [UInt16.toNat_toUInt8, UInt16.toNat_and]
    show (val.toNat &&& (2 ^ 8 - 1)) % 256 = val.toNat % 256
    rw [Nat.and_two_pow_sub_one_eq_mod]
    omega
  have hval : (((val &&& 0xFF00) >>> 8).toUInt8.toUInt16 <<< 8) +
      (val &&& 0x00FF).toUInt8.toUInt16 = val := by
    rw [← UInt16.toNat_inj, UInt16.toNat_add, UInt16.toNat_shiftLeft, UInt8.toNat_toUInt16,
      UInt8.toNat_toUInt16, hmsb, hlsb]
    show ((val.toNat / 256) <<< 8 % 2 ^ 16 + val.toNat % 256) % 2 ^ 16 = val.toNat
    rw [Nat.shiftLeft_eq]
    omega
  rw [uint16Bytes, List.cons_append, List.cons_append, List.nil_append, takeUint16, hval]

/-- A string of the kit is read as it was written. -/
theorem takeStr_field {str : Str} (h : str.Short) (rest : List UInt8) :
    takeStr (str.field ++ rest) = some (str.bytes, rest) := by
  have hle : str.bytes.length ≤ 65535 := h
  have hlen : (UInt16.ofNat str.bytes.length).toNat = str.bytes.length :=
    UInt16.toNat_ofNat_of_lt' (show str.bytes.length < 2 ^ 16 by omega)
  have hstr : cString str.bytes = str.bytes := Ended.upTo_eq_self str.nul_notMem
  rw [takeStr, Str.field, List.append_assoc, takeUint16_uint16Bytes, Option.bind_some, hlen,
    takeBytes, if_pos (by rw [List.length_append]; omega), List.take_left' rfl, List.drop_left' rfl,
    Option.map_some, hstr]

theorem Answers.exists_ok {α : Type} {r : Reading} {k : ℕ} {v : α} {rest : List UInt8}
    {res : EStateM.Result ℤ Reading α} (h : Answers r k (some (v, rest)) res) :
    ∃ r', res = .ok v r' ∧ Consumed r r' rest k := by
  cases h with
  | taken hc => exact ⟨_, rfl, hc⟩

theorem orErr_of_ok {α : Type} {code : ℤ} {m : Read α} {r r' : Reading} {v : α}
    (h : m r = .ok v r') : orErr code m r = .ok v r' := by
  rw [orErr, h]

section Reads

variable {r : Reading} {rest : List UInt8}

theorem readStr_field (h : r.pkg.Held) (hpos : r.pkg.writePos.toNat + 2 ^ 16 ≤ 2 ^ 32) {str : Str}
    (hstr : str.Short) (hunread : r.pkg.unread = str.field ++ rest) :
    ∃ r', readStr mallocSucceeds r = .ok str.bytes r' ∧ Consumed r r' rest 1 := by
  have ha := answers_readStr mallocSucceeds h hpos fun _ => rfl
  rw [hunread, takeStr_field hstr] at ha
  exact ha.exists_ok

theorem readBytes_all (h : r.pkg.Held) {data : List UInt8} (hdata : data.length < 2 ^ 27)
    (hunread : r.pkg.unread = data) :
    ∃ r', readBytes mallocSucceeds (UInt32.ofNat data.length) r = .ok data r' ∧
      Consumed r r' [] 1 := by
  have hlen := toNat_ofNat_of_lt hdata
  have ha := answers_readBytes mallocSucceeds (UInt32.ofNat data.length) h
    (fun hshort => absurd hshort (by rw [hunread, hlen]; exact Nat.lt_irrefl _))
    (by rw [hlen]; omega) fun _ => rfl
  rw [hunread, hlen, takeBytes, if_pos le_rfl, List.take_length, List.drop_length] at ha
  exact ha.exists_ok

end Reads

/-- A packet that comes alone is returned as one packet, whatever the chunks are. -/
theorem Packed.received {w : Writing} {msgType : UInt8} {body : List UInt8}
    (h : Packed w msgType body) (m : FreshMemory) {as : List Arrival}
    (has : arrivedBytes as = w.pkg.written) :
    ∃ pkg, (receiveAll m as).pkgs = [pkg] ∧ pkg.Fresh ∧ pkg.written = packetBytes msgType body := by
  have hlt := h.length_lt
  have hfour : (encode body.length).length ≤ 4 :=
    (length_encode_le_iff 3 body.length).mpr (by simpa using hlt)
  let p : EdpPacket := ⟨msgType, encode body.length, body, isField_encode _, hfour, value_encode _⟩
  have hbytes : p.bytes = packetBytes msgType body := rfl
  have hstream : stream EdpPacket.bytes [p] = packetBytes msgType body := by
    rw [stream_cons, stream_nil, List.append_nil, hbytes]
  rw [h.built.written_eq] at has
  have hin := inStep_receiveAll m [p] as (by rw [hstream, has]) (by
    rw [hstream, ← hbytes, p.length_bytes]
    show (encode body.length).length + body.length + 1 < 2 ^ 30
    omega)
  have hpkgs := hin.pkgs_eq
  rw [has, ← hstream, completed_length, List.take_length, List.map_singleton, hbytes] at hpkgs
  obtain ⟨pkg, hpkg, hwritten⟩ := List.map_eq_singleton_iff.mp hpkgs
  exact ⟨pkg, hpkg, hin.fresh pkg (by rw [hpkg]; exact List.mem_singleton_self _), hwritten⟩

/-- A packet as it is before anything is read from it. -/
theorem Buffer.Fresh.held {pkg : Buffer} (h : pkg.Fresh) : pkg.Held := by
  refine ⟨?_, ?_⟩
  · rw [h.readPos_eq]
    exact UInt32.zero_le
  · rw [h.length_data]
    exact UInt32.le_iff_toNat_le.mp h.writePos_le

/-- The type and the remaining length at the front of a packet are read. -/
theorem Buffer.Fresh.readHead {pkg : Buffer} (h : pkg.Fresh) {msgType : UInt8} {body : List UInt8}
    (hwritten : pkg.written = packetBytes msgType body) (hlt : body.length < 2 ^ 28) :
    ∃ r₁ r₂, edpPacketType pkg.reading = .ok msgType r₁ ∧
      readRemainlen r₁ = .ok (UInt32.ofNat body.length) r₂ ∧ Consumed pkg.reading r₂ body 0 := by
  have hunread : pkg.reading.pkg.unread = msgType :: (encode body.length ++ body) := by
    show pkg.written.drop pkg.readPos.toNat = _
    rw [h.readPos_eq, hwritten]
    rfl
  have hnext := Consumed.next (r := pkg.reading) h.held hunread
  have hlen : (UInt32.ofNat body.length).toNat = body.length :=
    UInt32.toNat_ofNat_of_lt' (show body.length < 2 ^ 32 by omega)
  have hrest : pkg.reading.next.pkg.unread = encode (UInt32.ofNat body.length).toNat ++ body := by
    rw [hlen]
    exact hnext.unread_eq
  obtain ⟨r₂, hread, hc⟩ := readRemainlen_encode hnext.held (by rw [hlen]; exact hlt) hrest
  refine ⟨_, r₂, ?_, hread, hnext.trans hc⟩
  rw [edpPacketType, readByte_cons (r := pkg.reading) h.held hunread]

/-- A packet of the kit ends far below the last position. -/
theorem Buffer.Fresh.writePos_small {pkg : Buffer} (h : pkg.Fresh) {msgType : UInt8}
    {body : List UInt8} (hwritten : pkg.written = packetBytes msgType body)
    (hlt : body.length < 2 ^ 28) : pkg.writePos.toNat + 2 ^ 16 ≤ 2 ^ 32 := by
  have hfour : (encode body.length).length ≤ 4 :=
    (length_encode_le_iff 3 body.length).mpr (by simpa using hlt)
  rw [← h.length_written, hwritten, packetBytes, List.length_cons, List.length_append]
  omega

/-- `EdpPacketType` and then an unpacker of the body. -/
def readPacket {α : Type} (m : Read α) : Read (UInt8 × α) := do
  let mtype ← edpPacketType
  let v ← m
  return (mtype, v)

/-- Push data are unpacked as they were packed. -/
theorem unpackPushdata_packed {dstDevid : Str} {data : List UInt8} (hdst : dstDevid.Short)
    (hdata : data.length < 2 ^ 27) {pkg : Buffer} (h : pkg.Fresh)
    (hwritten : pkg.written = packetBytes pushData [dstDevid.field, data].flatten) :
    ∃ r, readPacket (unpackPushdata mallocSucceeds) pkg.reading =
        .ok (pushData, dstDevid.bytes, data, UInt32.ofNat data.length) r ∧
      Consumed pkg.reading r [] 2 := by
  have hdst' : dstDevid.bytes.length ≤ 65535 := hdst
  have hlen : [dstDevid.field, data].flatten.length = 2 + dstDevid.bytes.length + data.length := by
    simp [Str.length_field]
  have hbody : [dstDevid.field, data].flatten.length < 2 ^ 28 := by rw [hlen]; omega
  have hsmall := h.writePos_small hwritten hbody
  obtain ⟨r₁, r₂, htype, hremain, hc₂⟩ := h.readHead hwritten hbody
  obtain ⟨r₃, hstr, hc₃⟩ := readStr_field hc₂.held (by rw [hc₂.writePos_eq]; exact hsmall) hdst
    hc₂.unread_eq
  rw [List.flatten_singleton] at hc₃
  obtain ⟨r₄, hbytes, hc₄⟩ := readBytes_all hc₃.held hdata hc₃.unread_eq
  have hsub : UInt32.ofNat [dstDevid.field, data].flatten.length -
      (2 + UInt32.ofNat dstDevid.bytes.length) = UInt32.ofNat data.length := by
    rw [← UInt32.toNat_inj, UInt32.toNat_sub, UInt32.toNat_add, UInt32.toNat_ofNat',
      UInt32.toNat_ofNat', UInt32.toNat_ofNat', hlen]
    simp only [UInt32.reduceToNat]
    omega
  have hunpack : unpackPushdata mallocSucceeds r₁ =
      .ok (dstDevid.bytes, data, UInt32.ofNat data.length) r₄ := by
    rw [← hsub] at hbytes ⊢
    rw [unpackPushdata, bind_of_ok (orErr_of_ok hremain), bind_of_ok (orErr_of_ok hstr),
      bind_of_ok (orErr_of_ok hbytes)]
    rfl
  refine ⟨r₄, ?_, (hc₂.trans hc₃).trans hc₄⟩
  rw [readPacket, bind_of_ok htype, bind_of_ok hunpack]
  rfl

/-- The type, the id and the flag of a `SAVEDATA` packet are read; `tail` is left. -/
theorem unpackSavedata_packed {dstDevid : Option Str} (hdst : ∀ dst ∈ dstDevid, dst.Short)
    {flag : UInt8} {tail : List UInt8} {pkg : Buffer} (h : pkg.Fresh)
    (hwritten : pkg.written =
      packetBytes saveData ((addressFields dstDevid).flatten ++ flag :: tail))
    (hlt : ((addressFields dstDevid).flatten ++ flag :: tail).length < 2 ^ 28) :
    ∃ r₁ r₂ k, edpPacketType pkg.reading = .ok saveData r₁ ∧
      unpackSavedata mallocSucceeds r₁ = .ok (dstDevid.map Str.bytes, flag) r₂ ∧
      Consumed pkg.reading r₂ tail k := by
  have hsmall := h.writePos_small hwritten hlt
  obtain ⟨r₁, r₂, htype, hremain, hc₂⟩ := h.readHead hwritten hlt
  cases dstDevid with
  | none =>
      have hunread : r₂.pkg.unread = 0x00 :: flag :: tail := hc₂.unread_eq
      have hc₃ := hc₂.trans (Consumed.next hc₂.held hunread)
      have hc₄ := hc₃.trans (Consumed.next hc₃.held hc₃.unread_eq)
      refine ⟨r₁, _, _, htype, ?_, hc₄⟩
      rw [unpackSavedata, bind_of_ok (orErr_of_ok hremain),
        bind_of_ok (orErr_of_ok (readByte_cons hc₂.held hunread)), if_neg (by decide),
        bind_of_ok (orErr_of_ok (readByte_cons hc₃.held hc₃.unread_eq))]
      rfl
  | some dst =>
      have hunread : r₂.pkg.unread = 0x80 :: (dst.field ++ flag :: tail) := by
        rw [hc₂.unread_eq]
        simp [addressFields]
      have hc₃ := hc₂.trans (Consumed.next hc₂.held hunread)
      obtain ⟨r₄, hstr, hstep⟩ := readStr_field hc₃.held
        (by rw [hc₃.writePos_eq]; exact hsmall) (hdst dst rfl) hc₃.unread_eq
      have hc₄ := hc₃.trans hstep
      have hc₅ := hc₄.trans (Consumed.next hc₄.held hc₄.unread_eq)
      refine ⟨r₁, _, _, htype, ?_, hc₅⟩
      rw [unpackSavedata, bind_of_ok (orErr_of_ok hremain),
        bind_of_ok (orErr_of_ok (readByte_cons hc₂.held hunread)), if_pos rfl,
        bind_of_ok (orErr_of_ok hstr),
        bind_of_ok (orErr_of_ok (readByte_cons hc₄.held hc₄.unread_eq))]
      rfl

/-- `UnpackSavedata` and then an unpacker of the data. -/
def readSavedata {α : Type} (m : Read α) : Read (Option (List UInt8) × UInt8 × α) := do
  let head ← unpackSavedata mallocSucceeds
  let v ← m
  return (head.1, head.2, v)

theorem unpackSavedataSimpleString_packed {dstDevid : Option Str} {input : Str}
    (hdst : ∀ dst ∈ dstDevid, dst.Short) (hinput : input.Short) {pkg : Buffer} (h : pkg.Fresh)
    (hwritten : pkg.written = packetBytes saveData
      (addressFields dstDevid ++ [[SaveDataType.string.flag], input.field]).flatten)
    (hlt : (addressFields dstDevid ++
      [[SaveDataType.string.flag], input.field]).flatten.length < 2 ^ 28) :
    ∃ r, readPacket (readSavedata (unpackSavedataSimpleString mallocSucceeds)) pkg.reading =
      .ok (saveData, dstDevid.map Str.bytes, SaveDataType.string.flag, input.bytes) r := by
  have hbody : (addressFields dstDevid ++ [[SaveDataType.string.flag], input.field]).flatten =
      (addressFields dstDevid).flatten ++ SaveDataType.string.flag :: (input.field ++ []) := by
    simp
  have hsmall := h.writePos_small hwritten hlt
  rw [hbody] at hwritten hlt
  obtain ⟨r₁, r₂, k, htype, hhead, hc⟩ := unpackSavedata_packed hdst h hwritten hlt
  obtain ⟨r₃, hstr, -⟩ := readStr_field hc.held (by rw [hc.writePos_eq]; exact hsmall) hinput
    hc.unread_eq
  have hdata : readSavedata (unpackSavedataSimpleString mallocSucceeds) r₁ =
      .ok (dstDevid.map Str.bytes, SaveDataType.string.flag, input.bytes) r₃ := by
    rw [readSavedata, bind_of_ok hhead, unpackSavedataSimpleString,
      bind_of_ok (orErr_of_ok hstr)]
    rfl
  refine ⟨r₃, ?_⟩
  rw [readPacket, bind_of_ok htype, bind_of_ok hdata]
  rfl

/-- Push data come through the stream, and simple strings through the packet, as they were handed
in: the id, the data and their length with nothing left to read; the id or none, the flag of a
string and the string. -/
theorem edp_roundTrip (m m' : FreshMemory) {dst : Str} {data : List UInt8} (hdst : dst.Short)
    (hdata : data.length < 2 ^ 27) {as : List Arrival}
    (has : arrivedBytes as = (packetPushdata m dst data).pkg.written)
    {dst' : Option Str} {input : Str} (hdst' : ∀ d ∈ dst', d.Short) (hinput : input.Short)
    {simple : Buffer} (hfresh : simple.Fresh)
    (hsimple : simple.written = (packetSavedataSimpleString m dst' input).pkg.written) :
    (∃ pkg r, (receiveAll m' as).pkgs = [pkg] ∧
      readPacket (unpackPushdata mallocSucceeds) pkg.reading =
        .ok (pushData, dst.bytes, data, UInt32.ofNat data.length) r ∧
      r.pkg.readPos = r.pkg.writePos) ∧
    ∃ r, readPacket (readSavedata (unpackSavedataSimpleString mallocSucceeds)) simple.reading =
      .ok (saveData, dst'.map Str.bytes, SaveDataType.string.flag, input.bytes) r := by
  constructor
  · obtain ⟨pkg, hpkgs, hpkg, hwritten⟩ := (packed_packetPushdata m hdst hdata).received m' has
    obtain ⟨r, hread, hc⟩ := unpackPushdata_packed hdst hdata hpkg hwritten
    have hsum := hc.held.add_length_unread
    rw [hc.unread_eq] at hsum
    exact ⟨pkg, r, hpkgs, hread, UInt32.toNat_inj.mp hsum⟩
  · have hpacked := packed_packetSavedataSimpleString m hdst' hinput
    exact unpackSavedataSimpleString_packed hdst' hinput hfresh
      (hsimple.trans hpacked.built.written_eq) hpacked.length_lt

/-- The id `A`. -/
def deviceA : Str := ⟨[65], by decide⟩

/-- A byte of data in two chunks. -/
theorem edp_roundTrip_oneByte :
    ∃ pkg r, (receiveAll zeroMemory
        [⟨[0x30, 4, 0], zeroMemory⟩, ⟨[1, 65, 7], zeroMemory⟩]).pkgs = [pkg] ∧
      readPacket (unpackPushdata mallocSucceeds) pkg.reading = .ok (pushData, [65], [7], 1) r ∧
      r.pkg.readPos = r.pkg.writePos := by
  have hinput : deviceA.Short := by decide
  have hnone : ∀ d ∈ (none : Option Str), d.Short := nofun
  have hpacked := packed_packetSavedataSimpleString zeroMemory hnone hinput
  have has : arrivedBytes [⟨[0x30, 4, 0], zeroMemory⟩, ⟨[1, 65, 7], zeroMemory⟩] =
      (packetPushdata zeroMemory deviceA [7]).pkg.written := by
    decide +kernel
  exact (edp_roundTrip zeroMemory zeroMemory (by decide) (by decide) has hnone hinput
    ⟨hpacked.built.valid, hpacked.built.readPos_eq⟩ rfl).1

end Edp
