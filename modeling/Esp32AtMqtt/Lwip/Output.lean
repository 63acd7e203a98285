import Esp32AtMqtt.Codec.ControlPacket

/-!
# The output ring of the lwIP MQTT client

`struct mqtt_ringbuf_t` with the functions that append to it. The indexes run on modulo 2^16, and
the slot of an index is its value modulo 256. Everything is appended byte by byte, so what a
function appends is a list of bytes (`Ringbuf.append`), and functions one behind the other append
their lists one behind the other.
-/

namespace Lwip

open ControlPacket

/-- `MQTT_OUTPUT_RINGBUF_SIZE`. -/
def ringbufSize : ℕ := 256

/-- `struct mqtt_ringbuf_t`. -/
structure Ringbuf where
  put : UInt16
  get : UInt16
  buf : List UInt8
  size : buf.length = ringbufSize

theorem length_zeros : (List.replicate ringbufSize (0 : UInt8)).length = ringbufSize :=
  List.length_replicate

namespace Ringbuf

/-- `mqtt_ringbuf_put(rb, item)`. -/
def putItem (rb : Ringbuf) (item : UInt8) : Ringbuf where
  put := rb.put + 1
  get := rb.get
  buf := rb.buf.set (rb.put.toNat % ringbufSize) item
  size := List.length_set.trans rb.size

def append (rb : Ringbuf) (items : List UInt8) : Ringbuf := items.foldl putItem rb

/-- `mqtt_ringbuf_len(rb)`. -/
def len (rb : Ringbuf) : UInt16 := rb.put - rb.get

/-- `mqtt_ringbuf_free(rb)`. -/
def free (rb : Ringbuf) : ℤ := ringbufSize - rb.len.toNat

/-- `mqtt_output_append_u8(rb, value)`. -/
def appendU8 (rb : Ringbuf) (value : UInt8) : Ringbuf := rb.append [value]

/-- `mqtt_output_append_u16(rb, value)`. -/
def appendU16 (rb : Ringbuf) (value : UInt16) : Ringbuf :=
  rb.append [(value >>> 8).toUInt8, (value &&& 0xff).toUInt8]

/-- `mqtt_output_append_buf(rb, data, length)`. -/
def appendBuf (rb : Ringbuf) (data : List UInt8) (length : UInt16) : Ringbuf :=
  rb.append (data.take length.toNat)

/-- `mqtt_output_append_string(rb, str, length)`. -/
def appendString (rb : Ringbuf) (str : List UInt8) (length : UInt16) : Ringbuf :=
  (rb.append [(length >>> 8).toUInt8, (length &&& 0xff).toUInt8]).append (str.take length.toNat)

end Ringbuf

/-- The loop of `mqtt_output_append_fixed_header`, in at most `n` rounds. -/
def lengthBytes : ℕ → UInt16 → List UInt8
  | 0, _ => []
  | n + 1, rLength =>
      ((rLength &&& 0x7f).toUInt8 ||| if 128 ≤ rLength then 0x80 else 0) ::
        if (0 : UInt16) < rLength >>> 7 then lengthBytes n (rLength >>> 7) else []

/-- The control byte of `mqtt_output_append_fixed_header`. -/
def controlByte (msgType dup qos retain : UInt8) : UInt8 :=
  (msgType &&& 0x0f) <<< 4 ||| (dup &&& 1) <<< 3 ||| (qos &&& 3) <<< 1 ||| (retain &&& 1)

/-- `mqtt_output_append_fixed_header(rb, msg_type, dup, qos, retain, r_length)`. Three rounds are
enough for 16 bits. -/
def Ringbuf.appendFixedHeader (rb : Ringbuf) (msgType dup qos retain : UInt8) (rLength : UInt16) :
    Ringbuf :=
  (rb.appendU8 (controlByte msgType dup qos retain)).append (lengthBytes 3 rLength)

/-- The loop of `mqtt_output_check_space`, in at most `n` rounds. -/
def totalLen : ℕ → UInt16 → UInt16 → UInt16
  | 0, total, _ => total
  | n + 1, total, rLength =>
      if (0 : UInt16) < rLength >>> 7 then totalLen n (total + 1) (rLength >>> 7) else total + 1

/-- `mqtt_output_check_space(rb, r_length)`. -/
def Ringbuf.checkSpace (rb : Ringbuf) (rLength : UInt16) : Bool :=
  (totalLen 3 (1 + rLength) rLength).toNat ≤ rb.free

/-- `mqtt_output_send(rb, tpcb)`: what it writes to the device, with the bytes `behind` after the
buffer. -/
def Ringbuf.send (behind : List UInt8) (rb : Ringbuf) : List UInt8 :=
  (rb.buf ++ behind).take rb.len.toNat

namespace Ringbuf

theorem append_append (rb : Ringbuf) (xs ys : List UInt8) :
    (rb.append xs).append ys = rb.append (xs ++ ys) := List.foldl_append.symm

theorem append_snoc (rb : Ringbuf) (xs : List UInt8) (x : UInt8) :
    rb.append (xs ++ [x]) = (rb.append xs).putItem x := List.foldl_append

theorem append_get (rb : Ringbuf) (items : List UInt8) : (rb.append items).get = rb.get := by
  induction items using List.reverseRecOn with
  | nil => rfl
  | append_singleton xs x ih =>
      rw [append_snoc]
      exact ih

theorem append_put (rb : Ringbuf) (items : List UInt8) :
    (rb.append items).put = rb.put + UInt16.ofNat items.length := by
  induction items using List.reverseRecOn with
  | nil => exact (UInt16.add_zero _).symm
  | append_singleton xs x ih =>
      rw [append_snoc, List.length_append, UInt16.ofNat_add, ← UInt16.add_assoc, ← ih]
      rfl

/-- What is appended from the first slot on lies at the start of the buffer. -/
theorem take_append {rb : Ringbuf} (hput : rb.put.toNat % ringbufSize = 0) {items : List UInt8}
    (hlen : items.length ≤ ringbufSize) : (rb.append items).buf.take items.length = items := by
  induction items using List.reverseRecOn with
  | nil => rfl
  | append_singleton xs x ih =>
      rw [List.length_append, List.length_singleton] at hlen ⊢
      have hxs := ih (Nat.le_of_succ_le hlen)
      have hroom : xs.length < (rb.append xs).buf.length := by
        rw [(rb.append xs).size]
        exact hlen
      have hslot : (rb.append xs).put.toNat % ringbufSize = xs.length := by
        rw [append_put, UInt16.toNat_add, UInt16.toNat_ofNat']
        rw [ringbufSize] at hput hlen ⊢
        omega
      have hbuf : (rb.append (xs ++ [x])).buf = (rb.append xs).buf.set xs.length x := by
        rw [append_snoc]
        show (rb.append xs).buf.set ((rb.append xs).put.toNat % ringbufSize) x = _
        rw [hslot]
      rw [hbuf, List.take_set, List.take_succ_eq_append_getElem hroom, hxs,
        List.set_append_right _ _ (Nat.le_refl _), Nat.sub_self]
      rfl

/-- When nothing waits in the ring, and it starts at the first slot, exactly what is appended is
sent. -/
theorem send_append {rb : Ringbuf} (hempty : rb.put = rb.get)
    (hput : rb.put.toNat % ringbufSize = 0) {items : List UInt8}
    (hlen : items.length ≤ ringbufSize) (behind : List UInt8) :
    (rb.append items).send behind = items := by
  have hcount : (rb.append items).len.toNat = items.length := by
    rw [len, append_get, append_put, ← hempty, UInt16.add_comm, UInt16.add_sub_cancel,
      UInt16.toNat_ofNat', Nat.mod_eq_of_lt (Nat.lt_of_le_of_lt hlen (by decide))]
  rw [send, hcount, List.take_append_of_le_length, take_append hput hlen]
  rw [(rb.append items).size]
  exact hlen

end Ringbuf

/-! ## The fixed header -/

theorem toUInt8_and_255 (v : UInt16) : (v &&& 0xff).toUInt8 = v.toUInt8 := by
  rw [← UInt8.toNat_inj, UInt16.toNat_toUInt8, UInt16.toNat_toUInt8, UInt16.toNat_and]
  have hmask : v.toNat &&& (0xff : UInt16).toNat = v.toNat % 2 ^ 8 :=
    Nat.and_two_pow_sub_one_eq_mod v.toNat 8
  rw [hmask, Nat.mod_mod]

theorem Ringbuf.appendU16_eq (rb : Ringbuf) (value : UInt16) :
    rb.appendU16 value = rb.append (be16 value) := by
  rw [appendU16, toUInt8_and_255]
  rfl

theorem Ringbuf.appendString_eq (rb : Ringbuf) (str : List UInt8) (length : UInt16) :
    rb.appendString str length = rb.append (be16 length ++ str.take length.toNat) := by
  rw [appendString, toUInt8_and_255, append_append]
  rfl

theorem toUInt8_and_127 (v : UInt16) : (v &&& 0x7f).toUInt8 = UInt8.ofNat (v.toNat % 128) := by
  have hmask : v.toNat &&& (0x7f : UInt16).toNat = v.toNat % 2 ^ 7 :=
    Nat.and_two_pow_sub_one_eq_mod v.toNat 7
  rw [← UInt8.toNat_inj, UInt16.toNat_toUInt8, UInt16.toNat_and, hmask, UInt8.toNat_ofNat']
  rfl

theorem toNat_shiftRight_seven (v : UInt16) : (v >>> 7).toNat = v.toNat / 128 := by
  rw [UInt16.toNat_shiftRight, Nat.shiftRight_eq_div_pow]
  rfl

/-- Whether there is another round. -/
theorem shiftRight_seven_pos_iff (v : UInt16) : (0 : UInt16) < v >>> 7 ↔ 128 ≤ v.toNat := by
  rw [UInt16.lt_iff_toNat_lt, toNat_shiftRight_seven]
  exact Nat.div_pos_iff.trans (and_iff_right (by decide))

theorem lengthBytes_of_lt (n : ℕ) {rLength : UInt16} (h : rLength.toNat < 128) :
    lengthBytes (n + 1) rLength = Base128.encode rLength.toNat := by
  have hlast : ¬ (0 : UInt16) < rLength >>> 7 :=
    (shiftRight_seven_pos_iff rLength).not.mpr (Nat.not_le_of_lt h)
  have hlow : ¬ 128 ≤ rLength := UInt16.le_iff_toNat_le.not.mpr (Nat.not_le_of_lt h)
  rw [lengthBytes, if_neg hlast, if_neg hlow, Base128.encode_of_lt h, toUInt8_and_127,
    Nat.mod_eq_of_lt h, UInt8.or_zero]

theorem lengthBytes_of_le (n : ℕ) {rLength : UInt16} (h : 128 ≤ rLength.toNat) :
    lengthBytes (n + 1) rLength =
      UInt8.ofNat (rLength.toNat % 128 + 128) :: lengthBytes n (rLength >>> 7) := by
  have hhigh : 128 ≤ rLength := UInt16.le_iff_toNat_le.mpr h
  rw [lengthBytes, if_pos ((shiftRight_seven_pos_iff rLength).mpr h), if_pos hhigh,
    toUInt8_and_127, Base128.or_high_of_lt (Nat.mod_lt _ (by decide))]

theorem shiftRight_seven_lt {n : ℕ} {v : UInt16} (h : v.toNat < 128 ^ (n + 1)) :
    (v >>> 7).toNat < 128 ^ n := by
  rw [toNat_shiftRight_seven, Nat.div_lt_iff_lt_mul (by decide)]
  exact h

/-- The loop makes the base-128 field of the length. -/
theorem lengthBytes_eq {n : ℕ} {rLength : UInt16} (h : rLength.toNat < 128 ^ (n + 1)) :
    lengthBytes (n + 1) rLength = Base128.encode rLength.toNat := by
  induction n generalizing rLength with
  | zero => exact lengthBytes_of_lt 0 h
  | succ n ih =>
      by_cases hlow : rLength.toNat < 128
      · exact lengthBytes_of_lt _ hlow
      · have hle : 128 ≤ rLength.toNat := Nat.not_lt.mp hlow
        rw [lengthBytes_of_le _ hle, ih (shiftRight_seven_lt h), toNat_shiftRight_seven,
          Base128.encode_of_le hle]

/-- Three rounds are enough. -/
theorem lengthBytes_three (rLength : UInt16) :
    lengthBytes 3 rLength = Base128.encode rLength.toNat :=
  lengthBytes_eq (Nat.lt_trans rLength.toNat_lt (by decide))

/-- The other loop counts the bytes of the field. -/
theorem totalLen_eq {n : ℕ} {rLength : UInt16} (h : rLength.toNat < 128 ^ (n + 1))
    (total : UInt16) :
    totalLen (n + 1) total rLength =
      total + UInt16.ofNat (Base128.encode rLength.toNat).length := by
  have hlast : ∀ {m : ℕ} {v : UInt16} (total : UInt16), v.toNat < 128 →
      totalLen (m + 1) total v = total + UInt16.ofNat (Base128.encode v.toNat).length := by
    intro m v total hv
    rw [totalLen, if_neg ((shiftRight_seven_pos_iff v).not.mpr (Nat.not_le_of_lt hv)),
      Base128.encode_of_lt hv]
    rfl
  induction n generalizing total rLength with
  | zero => exact hlast total h
  | succ n ih =>
      by_cases hlow : rLength.toNat < 128
      · exact hlast total hlow
      · have hle : 128 ≤ rLength.toNat := Nat.not_lt.mp hlow
        rw [totalLen, if_pos ((shiftRight_seven_pos_iff rLength).mpr hle),
          ih (shiftRight_seven_lt h), toNat_shiftRight_seven, Base128.encode_of_le hle,
          List.length_cons, Nat.add_comm, UInt16.ofNat_add, UInt16.add_assoc]
        rfl

/-- A packet that is not longer than the ring fits when nothing waits in it. -/
theorem Ringbuf.checkSpace_of_le {rb : Ringbuf} (hempty : rb.put = rb.get) {rLength : UInt16}
    (h : 1 + (Base128.encode rLength.toNat).length + rLength.toNat ≤ ringbufSize) :
    rb.checkSpace rLength = true := by
  have htotal : totalLen 3 (1 + rLength) rLength =
      1 + rLength + UInt16.ofNat (Base128.encode rLength.toNat).length :=
    totalLen_eq (Nat.lt_trans rLength.toNat_lt (by decide)) _
  have hlen : rb.len = 0 := by
    rw [len, hempty, UInt16.sub_self]
  have hnat : (1 + rLength + UInt16.ofNat (Base128.encode rLength.toNat).length).toNat =
      1 + (Base128.encode rLength.toNat).length + rLength.toNat := by
    rw [UInt16.toNat_add, UInt16.toNat_add, UInt16.toNat_ofNat']
    show ((1 + rLength.toNat) % 2 ^ 16 + _) % 2 ^ 16 = _
    rw [ringbufSize] at h
    omega
  rw [checkSpace, htotal, hnat, free, hlen]
  exact decide_eq_true (by
    show ((1 + (Base128.encode rLength.toNat).length + rLength.toNat : ℕ) : ℤ) ≤ ringbufSize - 0
    omega)

/-- The bytes of a fixed header. -/
theorem Ringbuf.appendFixedHeader_eq (rb : Ringbuf) (msgType dup qos retain : UInt8)
    (rLength : UInt16) :
    rb.appendFixedHeader msgType dup qos retain rLength =
      rb.append (controlByte msgType dup qos retain :: Base128.encode rLength.toNat) := by
  rw [appendFixedHeader, lengthBytes_three]
  exact rb.append_append _ _

end Lwip
