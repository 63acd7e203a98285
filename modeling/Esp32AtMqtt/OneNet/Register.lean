import Esp32AtMqtt.Gsm.Command
import Esp32AtMqtt.OneNet.Write
import Esp32AtMqtt.Stream.Search

/-!
# Registering the device

`RegisterDevice` sends a request in four pieces and looks for the device id in what it reads then.
`strstr` reads the string that it searches with its end, so the buffer, which the reply may fill,
has to have an end. What is copied has no end, and it may be as long as `Device_ID`, or longer,
since its length is compared as a `char`, which is unsigned on this target. `Registers` says for
which replies all of this does no harm.
-/

namespace OneNet

open AtCmd (cString)
open Gsm.Thread (bytes cString_not_mem)
open Search

/-- The size of `Device_ID`. -/
def deviceIdSize : ℕ := 10

/-- `Device_ID`. -/
structure DeviceId where
  bytes : List UInt8
  size : bytes.length = deviceIdSize

/-- `Device_ID` behind a `memcpy` to it. -/
def DeviceId.copy (id : DeviceId) (copied : List UInt8) : DeviceId where
  bytes := copied.take deviceIdSize ++ id.bytes.drop copied.length
  size := by
    have hsize := id.size
    rw [List.length_append, List.length_take, List.length_drop, hsize]
    omega

/-- The sizes of `sendBuf1` and `sendBuf2`. -/
def sendBuf1Size : ℕ := 400
def sendBuf2Size : ℕ := 100

/-- What `RegisterDevice` uses of `OneNetParam`: four strings, without their ends, that leave room
in `sendBuf1` and `sendBuf2`, and `Device_ID`. -/
structure OneNetParam where
  apiAddr : List UInt8
  regCode : List UInt8
  snNum : List UInt8
  deviceNames : List UInt8
  deviceId : DeviceId
  requestFits : 50 + apiAddr.length + regCode.length < sendBuf1Size
  bodyFits : 20 + deviceNames.length + snNum.length < sendBuf2Size

namespace OneNetParam

variable (p : OneNetParam)

/-- The four texts that are printed. -/
def requestLine : List UInt8 :=
  bytes "POST http://" ++ p.apiAddr ++ bytes "/register_de?register_code=" ++ p.regCode ++
    bytes " HTTP/1.1" ++ [0x0D, 0x0A]
def hostLine : List UInt8 := bytes "Host: " ++ p.apiAddr ++ [0x0D, 0x0A]
def body : List UInt8 :=
  bytes "\x7b\"title\":\"" ++ p.deviceNames ++ bytes "\",\"sn\":\"" ++ p.snNum ++ bytes "\"\x7d"
def contentLength : List UInt8 :=
  bytes "Content-Length:" ++ bytes (toString p.body.length) ++ [0x0D, 0x0A, 0x0D, 0x0A]

/-- The texts in the order in which they are sent. -/
def texts : List (List UInt8) := [p.requestLine, p.hostLine, p.contentLength, p.body]

theorem length_requestLine :
    p.requestLine.length = 50 + p.apiAddr.length + p.regCode.length := by
  have hpost : (bytes "POST http://").length = 12 := rfl
  have hcode : (bytes "/register_de?register_code=").length = 27 := rfl
  have hhttp : (bytes " HTTP/1.1").length = 9 := rfl
  simp only [requestLine, List.length_append, hpost, hcode, hhttp, List.length_cons,
    List.length_nil]
  omega

theorem length_body : p.body.length = 20 + p.deviceNames.length + p.snNum.length := by
  have htitle : (bytes "\x7b\"title\":\"").length = 10 := rfl
  have hsn : (bytes "\",\"sn\":\"").length = 8 := rfl
  have hend : (bytes "\"\x7d").length = 2 := rfl
  simp only [body, List.length_append, htitle, hsn, hend]
  omega

theorem length_hostLine : p.hostLine.length = 8 + p.apiAddr.length := by
  have hname : (bytes "Host: ").length = 6 := rfl
  simp only [hostLine, List.length_append, hname, List.length_cons, List.length_nil]
  omega

theorem length_contentLength :
    p.contentLength.length = 19 + (Nat.toDigits 10 p.body.length).length := by
  have hname : (bytes "Content-Length:").length = 15 := rfl
  simp only [contentLength, List.length_append, hname, length_bytes_toString, List.length_cons,
    List.length_nil]
  omega

/-- Every text that is printed fits `sendBuf1`, and the body `sendBuf2`. -/
theorem texts_fit : (∀ text ∈ p.texts, text.length < sendBuf1Size) ∧
    p.body.length < sendBuf2Size := by
  have hline := p.length_requestLine
  have hhost := p.length_hostLine
  have hcontent := p.length_contentLength
  have hbody := p.length_body
  have hrequest := p.requestFits
  have hbodyFits := p.bodyFits
  rw [sendBuf1Size] at *
  rw [sendBuf2Size] at *
  have hdigits : (Nat.toDigits 10 p.body.length).length ≤ 2 := by
    apply (Nat.length_toDigits_le_iff (by decide) (by decide)).mpr
    omega
  simp only [texts, List.forall_mem_cons]
  refine ⟨⟨?_, ?_, ?_, ?_, fun _ h => absurd h List.not_mem_nil⟩, ?_⟩ <;> omega

end OneNetParam

/-- What `rt_device_read(DevNew, 0, sendBuf1, sizeof(sendBuf1))` finds. -/
structure Reply where
  bytes : List UInt8
  fits : bytes.length ≤ sendBuf1Size

/-- `sendBuf1`, which was cleared before. -/
def Reply.sendBuf1 (reply : Reply) : List UInt8 :=
  reply.bytes ++ List.replicate (sendBuf1Size - reply.bytes.length) 0

/-- The two strings that are searched. -/
def deviceIdKey : List UInt8 := bytes "device_id"
def valueEnd : List UInt8 := bytes "\","

/-- `strstr(s, pat)`, where `s` goes on up to the end of the buffer: how far behind `s` the first
occurrence begins. When no zero byte ends the string in the buffer, the search leaves the buffer. -/
def strstr (s pat : List UInt8) : Option (Option ℕ) :=
  if 0 ∈ s then some (search pat (cString s)) else none

/-- What is made of a reply: the result, `Device_ID`, and how many bytes are stored from `Device_ID`
on. -/
structure Parsed where
  result : ℤ
  deviceId : DeviceId
  stored : ℕ

/-- No id is taken. -/
def Parsed.refused (id : DeviceId) : Parsed := ⟨-1, id, 0⟩

/-- What is done at `p`, which is where an id is expected. -/
def takeId (id : DeviceId) (p : List UInt8) : Option Parsed :=
  match strstr p valueEnd with
  | none => none
  | some none => some (.refused id)
  | some (some len) =>
      -- `temp` is a `char`, and `memcpy` takes the difference itself
      let temp := UInt8.ofNat len
      some (if temp ≤ 10 then ⟨0, id.copy (p.take len), len⟩ else .refused id)

/-- What is done with a reply in `sendBuf1`. -/
def parseReply (id : DeviceId) (sendBuf1 : List UInt8) : Option Parsed :=
  match strstr sendBuf1 deviceIdKey with
  | none => none
  | some none => some (.refused id)
  | some (some p) => takeId id (sendBuf1.drop (p + 12))

/-- What a call of `RegisterDevice` does. -/
structure Registration where
  requests : List Esp32Write
  parsed : Parsed

/-- `rt_ESP32_write(DevNew, 0, buf, strlen(buf))` for a text in `buf`. -/
def sendText (deviceWrite : List UInt8 → UInt32) (text : List UInt8) : Esp32Write :=
  rtEsp32Write deviceWrite (text.getD · 0) (UInt32.ofNat text.length)

/-- `RegisterDevice(ProOneNetParam)`, when the last read finds `reply`. -/
def registerDevice (deviceWrite : List UInt8 → UInt32) (p : OneNetParam) (reply : Reply) :
    Option Registration :=
  let requests := p.texts.map (sendText deviceWrite)
  if 0 < reply.bytes.length then
    (parseReply p.deviceId reply.sendBuf1).map fun parsed => ⟨requests, parsed⟩
  else some ⟨requests, .refused p.deviceId⟩

/-! ## The requests -/

theorem defaultRequest_fits :
    50 + (bytes "api.heclouds.com").length + (bytes "M4H1KwHiGI0wjZ1U").length < sendBuf1Size := by
  decide

theorem defaultBody_fits : 20 + (bytes "AMC_808").length + (bytes "808").length < sendBuf2Size := by
  decide

/-- What `OneNetParaInit` sets. -/
def oneNetParaInit (deviceId : DeviceId) : OneNetParam where
  apiAddr := bytes "api.heclouds.com"
  regCode := bytes "M4H1KwHiGI0wjZ1U"
  snNum := bytes "808"
  deviceNames := bytes "AMC_808"
  deviceId := deviceId
  requestFits := defaultRequest_fits
  bodyFits := defaultBody_fits

/-- The block that is sent for a text. -/
theorem block_getD {text : List UInt8} (h : text.length < 2 ^ 32) :
    block (text.getD · 0) (UInt32.ofNat text.length) = text := by
  have hlen : (UInt32.ofNat text.length).toNat = text.length := by
    rw [UInt32.toNat_ofNat', Nat.mod_eq_of_lt h]
  rw [block, hlen]
  apply List.ext_getElem
  · rw [List.length_map, List.length_range]
  · intro i hi hlt
    rw [List.getElem_map, List.getElem_range, List.getD_eq_getElem?_getD,
      List.getElem?_eq_getElem hlt, Option.getD_some]

/-- A text of ten to 99 bytes is sent as it is behind the right command. -/
theorem sendText_written (deviceWrite : List UInt8 → UInt32) {text : List UInt8}
    (h : 10 ≤ text.length ∧ text.length ≤ 99) :
    (sendText deviceWrite text).written.flatten =
      announcement (UInt32.ofNat text.length) ++ text := by
  have hlen : (UInt32.ofNat text.length).toNat = text.length := by
    rw [UInt32.toNat_ofNat', Nat.mod_eq_of_lt (by omega)]
  have hsent := announced_of_two deviceWrite (text.getD · 0) (hlen.symm ▸ h)
  rw [sendText, hsent.written, block_getD (by omega)]

/-- Every text that is sent to register has two digits of bytes. -/
theorem oneNetParaInit_written (deviceWrite : List UInt8 → UInt32) (id : DeviceId) :
    ∀ text ∈ (oneNetParaInit id).texts, (sendText deviceWrite text).written.flatten =
      announcement (UInt32.ofNat text.length) ++ text := by
  have hline : (oneNetParaInit id).requestLine.length = 82 := OneNetParam.length_requestLine _
  have hhost : (oneNetParaInit id).hostLine.length = 24 := OneNetParam.length_hostLine _
  have hbody : (oneNetParaInit id).body.length = 30 := OneNetParam.length_body _
  have hcontent : (oneNetParaInit id).contentLength.length = 21 := by
    rw [OneNetParam.length_contentLength, hbody]
    rfl
  simp only [OneNetParam.texts, List.forall_mem_cons]
  refine ⟨sendText_written deviceWrite ?_, sendText_written deviceWrite ?_,
    sendText_written deviceWrite ?_, sendText_written deviceWrite ?_,
    fun _ h => absurd h List.not_mem_nil⟩ <;> omega

/-! ## What a reply says -/

/-- The reply has the member `device_id":"<id>",`. -/
def Member (reply id : List UInt8) : Prop :=
  bytes "device_id\":\"" ++ id ++ valueEnd <:+: reply ∧ ¬ valueEnd <:+: id

/-- The reply has a member with an id that `Device_ID` has room for, with a zero byte behind it. -/
def Named (reply : List UInt8) : Prop := ∃ id, Member reply id ∧ id.length < deviceIdSize

/-- The reply is taken for what it says. -/
structure ParsedSafely (reply : List UInt8) (before : DeviceId) (parsed : Parsed) : Prop where
  accepted : parsed.result = 0 ↔ Named reply
  stored : parsed.result = 0 → ∃ id, Member reply id ∧ id ++ [0] <+: parsed.deviceId.bytes
  unchanged : parsed.result ≠ 0 → parsed.deviceId = before
  inside : parsed.stored ≤ deviceIdSize

/-- What is at `value`, where an id is expected, is taken for what it says: there is no `",` in the
string there, or the first one is too far away for the `char`, and the reply names no id; or what
stands in front of it, with what `Device_ID` already has behind so many bytes up to a zero byte, is
the id of a member. -/
def ValueTaken (reply : List UInt8) (before : DeviceId) (value : List UInt8) : Prop :=
  ¬ valueEnd <:+: cString value ∧ ¬ Named reply ∨
    ∃ id, IsFirst valueEnd id (cString value) ∧
      (10 < id.length % 256 ∧ ¬ Named reply ∨
        ∃ more, Member reply (id ++ more) ∧ more ++ [0] <+: before.bytes.drop id.length)

/-- The buffer has an end, and there is no `device_id` in front of it and the reply names no id; or
what is twelve bytes behind the beginning of the first `device_id` has an end in the buffer, and is
taken for what it says. -/
def Registers (reply : Reply) (before : DeviceId) : Prop :=
  0 ∈ reply.sendBuf1 ∧
    (¬ deviceIdKey <:+: cString reply.sendBuf1 ∧ ¬ Named reply.bytes ∨
      ∃ front, IsFirst deviceIdKey front (cString reply.sendBuf1) ∧
        0 ∈ reply.sendBuf1.drop (front.length + 12) ∧
        ValueTaken reply.bytes before (reply.sendBuf1.drop (front.length + 12)))

section Parse

variable {reply : List UInt8} {before : DeviceId}

/-- Nothing is wrong with a refusal exactly when the reply names no id. -/
theorem parsedSafely_refused_iff :
    ParsedSafely reply before (.refused before) ↔ ¬ Named reply := by
  have hresult : (-1 : ℤ) ≠ 0 := by decide
  constructor
  · intro h hnamed
    exact hresult (h.accepted.mpr hnamed)
  · intro h
    exact ⟨iff_of_false hresult h, fun hzero => absurd hzero hresult, fun _ => rfl, Nat.zero_le _⟩

/-- A string with its end behind bytes that are not zero. -/
theorem append_zero_prefix {id copied rest : List UInt8} (h : id ++ [0] <+: copied ++ rest)
    (hzero : 0 ∉ copied) : ∃ more, id = copied ++ more ∧ more ++ [0] <+: rest := by
  rcases List.prefix_or_prefix_of_prefix h (List.prefix_append copied rest) with hin | hout
  · exact absurd (hin.subset (by simp)) hzero
  · rcases List.prefix_concat_iff.mp hout with rfl | ⟨more, rfl⟩
    · exact absurd (by simp) hzero
    · rw [List.append_assoc] at h
      exact ⟨more, rfl, (List.prefix_append_right_inj copied).mp h⟩

/-- What is copied, and what stands behind it. -/
theorem parsedSafely_copy_iff {id : List UInt8} (hzero : 0 ∉ id) :
    ParsedSafely reply before ⟨0, before.copy id, id.length⟩ ↔
      ∃ more, Member reply (id ++ more) ∧ more ++ [0] <+: before.bytes.drop id.length := by
  have hbytes (hlen : id.length ≤ deviceIdSize) :
      (before.copy id).bytes = id ++ before.bytes.drop id.length := by
    show id.take deviceIdSize ++ before.bytes.drop id.length = _
    rw [List.take_of_length_le hlen]
  constructor
  · intro h
    obtain ⟨whole, hmember, hstored⟩ := h.stored rfl
    rw [hbytes h.inside] at hstored
    obtain ⟨more, rfl, hmore⟩ := append_zero_prefix hstored hzero
    exact ⟨more, hmember, hmore⟩
  · rintro ⟨more, hmember, hmore⟩
    have hroom := hmore.length_le
    rw [List.length_append, List.length_singleton, List.length_drop, before.size] at hroom
    have hlen : id.length ≤ deviceIdSize := by omega
    have hnamed : Named reply := by
      refine ⟨id ++ more, hmember, ?_⟩
      rw [List.length_append]
      omega
    refine ⟨iff_of_true rfl hnamed, fun _ => ⟨id ++ more, hmember, ?_⟩, fun h => absurd rfl h, hlen⟩
    rw [hbytes hlen, List.append_assoc]
    exact (List.prefix_append_right_inj id).mpr hmore

/-- What stands in front of an occurrence in a string has no end in it. -/
theorem isFirst_cString {pat id s : List UInt8} (h : IsFirst pat id (cString s)) :
    id = s.take id.length ∧ 0 ∉ id := by
  constructor
  · exact List.prefix_iff_eq_take.mp (h.front_prefix.trans (Ended.front_upTo 0 s))
  · exact fun hmem => cString_not_mem s (h.front_prefix.subset hmem)

theorem strstr_of_not_mem {s pat : List UInt8} (h : 0 ∉ s) : strstr s pat = none := if_neg h

/-- What comes of a search in a string that ends in the buffer. -/
theorem strstr_cases {s : List UInt8} (pat : List UInt8) (h : 0 ∈ s) :
    (strstr s pat = some none ∧ ¬ pat <:+: cString s) ∨
      ∃ front, strstr s pat = some (some front.length) ∧ IsFirst pat front (cString s) := by
  have hsearch : strstr s pat = some (search pat (cString s)) := if_pos h
  cases hfound : search pat (cString s) with
  | none =>
      rw [hfound] at hsearch
      exact .inl ⟨hsearch, search_eq_none_iff.mp hfound⟩
  | some i =>
      obtain ⟨front, hfront, rfl⟩ := exists_isFirst hfound
      rw [hfound] at hsearch
      exact .inr ⟨front, hsearch, hfront⟩

theorem takeId_iff (value : List UInt8) :
    (∃ parsed, takeId before value = some parsed ∧ ParsedSafely reply before parsed) ↔
      0 ∈ value ∧ ValueTaken reply before value := by
  by_cases hend : 0 ∈ value
  swap
  · rw [takeId, strstr_of_not_mem hend]
    exact iff_of_false (by simp) fun h => hend h.1
  rw [and_iff_right hend, ValueTaken]
  rcases strstr_cases valueEnd hend with ⟨hnone, hno⟩ | ⟨id, hsome, hfirst⟩
  · rw [takeId, hnone, absent_or_first_of_not hno]
    simp only [Option.some.injEq, exists_eq_left', parsedSafely_refused_iff]
  · obtain ⟨htake, hzero⟩ := isFirst_cString hfirst
    have htemp : UInt8.ofNat id.length ≤ 10 ↔ ¬ 10 < id.length % 256 := by
      rw [UInt8.le_iff_toNat_le, UInt8.toNat_ofNat', Nat.not_lt]
      exact Iff.rfl
    rw [hfirst.absent_or_first, takeId, hsome]
    simp only [Option.some.injEq, exists_eq_left', ← htake]
    split
    · next hle =>
        rw [parsedSafely_copy_iff hzero, or_iff_right fun h => htemp.mp hle h.1]
    · next hle =>
        have hlong : 10 < id.length % 256 := not_not.mp fun h => hle (htemp.mpr h)
        rw [parsedSafely_refused_iff, and_iff_right hlong]
        refine (or_iff_left ?_).symm
        rintro ⟨more, -, hmore⟩
        have hroom := hmore.length_le
        rw [List.length_append, List.length_singleton, List.length_drop, before.size,
          deviceIdSize] at hroom
        omega

end Parse

theorem parseReply_iff (reply : Reply) (before : DeviceId) :
    (∃ parsed, parseReply before reply.sendBuf1 = some parsed ∧
      ParsedSafely reply.bytes before parsed) ↔ Registers reply before := by
  by_cases hend : 0 ∈ reply.sendBuf1
  swap
  · rw [parseReply, strstr_of_not_mem hend]
    exact iff_of_false (by simp) fun h => hend h.1
  rw [Registers, and_iff_right hend]
  rcases strstr_cases deviceIdKey hend with ⟨hnone, hno⟩ | ⟨front, hsome, hfirst⟩
  · rw [parseReply, hnone, absent_or_first_of_not hno]
    simp only [Option.some.injEq, exists_eq_left', parsedSafely_refused_iff]
  · rw [parseReply, hsome, hfirst.absent_or_first]
    exact takeId_iff _

/-- An empty reply names nothing. -/
theorem not_named_nil : ¬ Named [] := by
  rintro ⟨id, hmember, -⟩
  have hlen := hmember.1.length_le
  have hpos : 0 < valueEnd.length := by decide
  rw [List.length_append, List.length_nil] at hlen
  omega

theorem registers_of_nil {reply : Reply} (h : reply.bytes = []) (before : DeviceId) :
    Registers reply before := by
  have hbuf : reply.sendBuf1 = List.replicate sendBuf1Size 0 := by
    rw [Reply.sendBuf1, h]
    rfl
  have hstring : cString reply.sendBuf1 = [] := by
    rw [hbuf]
    rfl
  refine ⟨?_, .inl ⟨?_, ?_⟩⟩
  · rw [hbuf]
    exact List.mem_replicate.mpr ⟨by decide, rfl⟩
  · rw [hstring, List.infix_nil]
    decide
  · rw [h]
    exact not_named_nil

/-- A reply is taken for what it says exactly when it `Registers`. -/
theorem registerDevice_iff (deviceWrite : List UInt8 → UInt32) (p : OneNetParam) (reply : Reply) :
    (∃ reg, registerDevice deviceWrite p reply = some reg ∧
      ParsedSafely reply.bytes p.deviceId reg.parsed) ↔ Registers reply p.deviceId := by
  rw [registerDevice]
  split
  · rw [← parseReply_iff]
    constructor
    · rintro ⟨reg, hreg, h⟩
      obtain ⟨parsed, hparsed, rfl⟩ := Option.map_eq_some_iff.mp hreg
      exact ⟨parsed, hparsed, h⟩
    · rintro ⟨parsed, hparsed, h⟩
      exact ⟨_, Option.map_eq_some_iff.mpr ⟨parsed, hparsed, rfl⟩, h⟩
  · next hlen =>
      have hnil : reply.bytes = [] := List.length_eq_zero_iff.mp (by omega)
      have hsafe : ParsedSafely reply.bytes p.deviceId (.refused p.deviceId) := by
        apply parsedSafely_refused_iff.mpr
        rw [hnil]
        exact not_named_nil
      exact iff_of_true ⟨_, rfl, hsafe⟩ (registers_of_nil hnil p.deviceId)

/-- `Device_ID` before anything is stored, and a reply with an id of ten bytes. -/
theorem length_blank : (List.replicate deviceIdSize (0 : UInt8)).length = deviceIdSize :=
  List.length_replicate

theorem tenDigits_fits : (bytes "device_id\":\"0123456789\",").length ≤ sendBuf1Size := by decide

/-- An id of ten bytes is accepted, and no zero byte is stored behind it. -/
theorem registerDevice_tenDigits : ¬ ∀ (deviceWrite : List UInt8 → UInt32) (p : OneNetParam)
    (reply : Reply), ∃ reg, registerDevice deviceWrite p reply = some reg ∧
      ParsedSafely reply.bytes p.deviceId reg.parsed := by
  intro hall
  obtain ⟨reg, hreg, hsafe⟩ := hall (fun _ => 0) (oneNetParaInit ⟨_, length_blank⟩)
    ⟨_, tenDigits_fits⟩
  have hout : (registerDevice (fun _ => 0) (oneNetParaInit ⟨_, length_blank⟩)
      ⟨_, tenDigits_fits⟩).map (fun reg => (reg.parsed.result, reg.parsed.deviceId.bytes)) =
        some (0, bytes "0123456789") := by
    decide +kernel
  rw [hreg, Option.map_some] at hout
  obtain ⟨hresult, hbytes⟩ := Prod.mk.inj (Option.some.inj hout)
  obtain ⟨id, -, hstored⟩ := hsafe.stored hresult
  rw [hbytes] at hstored
  exact absurd (hstored.subset (List.mem_append_right id (List.mem_singleton_self 0)))
    (by decide +kernel)

end OneNet
