import Esp32AtMqtt.Edp.Buffer

/-!
# Writing the fields of an EDP packet

`WriteByte`, `WriteBytes`, `WriteUint16`, `WriteUint32`, `WriteStr` and `WriteRemainlen` of
`EdpKit.c`. All of them but the last make room before they store. `Writing` is the packet with
a record of the stores that have been made to its blocks.

A constructor calls one function after the other and does not look at what they return, see
`Writing.all`. As long as the bytes of all of them are fewer than `2^30`, each call puts its
bytes behind those written, and every store lies in its block.
-/

namespace Edp

open Base128

/-- A string: the bytes in front of its null byte. -/
structure Str where
  bytes : List UInt8
  nul_notMem : 0 ∉ bytes
  deriving DecidableEq

/-- `strlen(str)`. -/
def Str.strlen (str : Str) : UInt32 := UInt32.ofNat str.bytes.length

/-- A store to a block: its first index, its length, and the capacity of the block then. -/
structure Store where
  index : ℕ
  count : ℕ
  capacity : ℕ
  deriving DecidableEq, Repr

/-- A packet being written, and the stores so far. -/
structure Writing where
  pkg : Buffer
  stores : List Store
  deriving DecidableEq, Repr

/-- A function that writes, with its return value. -/
abbrev Writer := Writing → ℤ × Writing

/-- `NewBuffer()`. -/
def newWriting (m : FreshMemory) : Writing := ⟨newBuffer m, []⟩

/-- `buf->_data[buf->_write_pos++] = byte`. -/
def Writing.put (w : Writing) (byte : UInt8) : Writing :=
  let n := w.pkg.writePos.toNat
  ⟨{ w.pkg with data := w.pkg.data.set n byte, writePos := w.pkg.writePos + 1 },
    w.stores ++ [⟨n, 1, w.pkg.capacity.toNat⟩]⟩

/-- `CheckCapacity(buf, len)`; a new block takes over the bytes written. -/
def Writing.checkCapacity (m : FreshMemory) (w : Writing) (len : UInt32) : ℤ × Writing :=
  let r := Edp.checkCapacity m w.pkg len
  let copied : List Store :=
    if r.2.capacity > w.pkg.capacity then [⟨0, w.pkg.writePos.toNat, r.2.capacity.toNat⟩] else []
  (r.1, ⟨r.2, w.stores ++ copied⟩)

/-- `WriteByte(buf, byte)`. -/
def writeByte (m : FreshMemory) (byte : UInt8) : Writer := fun w =>
  match w.checkCapacity m 1 with
  | (0, w) => (0, w.put byte)
  | (_, w) => (-1, w)

/-- `WriteBytes(buf, bytes, count)`, the function `Edp.writeBytes` with its stores. -/
def putBytes (m : FreshMemory) (bytes : List UInt8) : Writer := fun w =>
  let room := (w.checkCapacity m (UInt32.ofNat bytes.length)).2
  let r := writeBytes m w.pkg bytes
  if r.1 = 0 then
    (0, ⟨r.2, room.stores ++ [⟨w.pkg.writePos.toNat, bytes.length, r.2.capacity.toNat⟩]⟩)
  else (r.1, ⟨r.2, room.stores⟩)

/-- `a || b` of two calls. -/
def Writer.or (f g : Writer) : Writer := fun w =>
  let r := f w
  if r.1 ≠ 0 then (1, r.2)
  else
    let r := g r.2
    (if r.1 ≠ 0 then 1 else 0, r.2)

/-- `WriteUint16(buf, val)`. -/
def writeUint16 (m : FreshMemory) (val : UInt16) : Writer :=
  (writeByte m ((val &&& 0xFF00) >>> 8).toUInt8).or (writeByte m (val &&& 0x00FF).toUInt8)

/-- `WriteUint32(buf, val)`. -/
def writeUint32 (m : FreshMemory) (val : UInt32) : Writer :=
  (((writeByte m ((val >>> 24) &&& 0x00FF).toUInt8).or
    (writeByte m ((val >>> 16) &&& 0x00FF).toUInt8)).or
    (writeByte m ((val >>> 8) &&& 0x00FF).toUInt8)).or
    (writeByte m (val &&& 0x00FF).toUInt8)

/-- `WriteStr(buf, str)`. -/
def writeStr (m : FreshMemory) (str : Str) : Writer :=
  let length := UInt16.ofNat str.bytes.length
  (writeUint16 m length).or (putBytes m (str.bytes.take length.toNat))

/-- The loop of `WriteRemainlen` with `n = 5 - remaining_count`. -/
def writeRemainlenLoop : ℕ → UInt32 → Writing → Writing
  | 0, _, w => w
  | n + 1, remainingLength, w =>
      let byte := (remainingLength % 128).toUInt8
      let remainingLength := remainingLength / 128
      let byte := if remainingLength > 0 then byte ||| 0x80 else byte
      let w := w.put byte
      if remainingLength > 0 then writeRemainlenLoop n remainingLength w else w

/-- `WriteRemainlen(buf, len_val)`. -/
def writeRemainlen (lenVal : UInt32) : Writer := fun w => (0, writeRemainlenLoop 5 lenVal w)

/-- The calls of a constructor. -/
def Writing.all (w : Writing) (fs : List Writer) : Writing :=
  fs.foldl (fun w f => (f w).2) w

/-- The bytes of a 16-bit number. -/
def uint16Bytes (val : UInt16) : List UInt8 :=
  [((val &&& 0xFF00) >>> 8).toUInt8, (val &&& 0x00FF).toUInt8]

/-- The bytes of a 32-bit number. -/
def uint32Bytes (val : UInt32) : List UInt8 :=
  [((val >>> 24) &&& 0x00FF).toUInt8, ((val >>> 16) &&& 0x00FF).toUInt8,
    ((val >>> 8) &&& 0x00FF).toUInt8, (val &&& 0x00FF).toUInt8]

/-- The bytes of a string, with its length in front. -/
def Str.field (str : Str) : List UInt8 :=
  uint16Bytes (UInt16.ofNat str.bytes.length) ++ str.bytes

/-- The packet holds the bytes, and every store was made in its block. -/
structure Built (w : Writing) (bytes : List UInt8) : Prop where
  valid : w.pkg.Valid
  written_eq : w.pkg.written = bytes
  stores_le : ∀ s ∈ w.stores, s.index + s.count ≤ s.capacity
  readPos_eq : w.pkg.readPos = 0

/-- A call that puts the bytes behind those written. -/
def Appends (f : Writer) (bytes : List UInt8) : Prop :=
  ∀ w front, Built w front → front.length + bytes.length < 2 ^ 30 →
    (f w).1 = 0 ∧ Built (f w).2 (front ++ bytes)

theorem built_newWriting (m : FreshMemory) : Built (newWriting m) [] :=
  ⟨valid_newBuffer m, rfl, fun _ hs => absurd hs List.not_mem_nil, rfl⟩

theorem Built.length_eq {w : Writing} {bytes : List UInt8} (h : Built w bytes) :
    w.pkg.writePos.toNat = bytes.length := by
  rw [← h.valid.length_written, h.written_eq]

/-- A byte stored where there is room. -/
theorem Built.put {w : Writing} {front : List UInt8} (h : Built w front) (byte : UInt8)
    (hroom : front.length < w.pkg.capacity.toNat) : Built (w.put byte) (front ++ [byte]) := by
  have hlen := h.length_eq
  have hcap := w.pkg.capacity.toNat_lt
  have hdata := h.valid.length_data
  have hpos : (w.pkg.writePos + 1).toNat = front.length + 1 := by
    rw [UInt32.toNat_add, hlen]
    exact Nat.mod_eq_of_lt (by simp only [UInt32.reduceToNat]; omega)
  refine ⟨⟨?_, ?_, h.valid.capacity_ge⟩, ?_, ?_, h.readPos_eq⟩
  · show (w.pkg.data.set _ byte).length = _
    rw [List.length_set, hdata]
    rfl
  · show w.pkg.writePos + 1 ≤ w.pkg.capacity
    rw [UInt32.le_iff_toNat_le, hpos]
    omega
  · have hfront := h.written_eq
    rw [Buffer.written, hlen] at hfront
    show (w.pkg.data.set w.pkg.writePos.toNat byte).take (w.pkg.writePos + 1).toNat = _
    rw [hpos, hlen, List.take_add_one, List.take_set_of_le le_rfl, hfront,
      List.getElem?_set_self (by omega)]
    rfl
  · intro s hs
    rcases List.mem_append.mp hs with hs | hs
    · exact h.stores_le s hs
    · rw [List.mem_singleton.mp hs, hlen]
      exact hroom

/-- Room is made, and what has been written stays. -/
theorem Built.checkCapacity (m : FreshMemory) {w : Writing} {front : List UInt8}
    (h : Built w front) (len : UInt32) (hsum : front.length + len.toNat < 2 ^ 30) :
    (w.checkCapacity m len).1 = 0 ∧ Built (w.checkCapacity m len).2 front ∧
      front.length + len.toNat ≤ (w.checkCapacity m len).2.pkg.capacity.toNat := by
  rw [← h.length_eq] at hsum
  obtain ⟨hret, hvalid, hwritten, hpos, hfits⟩ := checkCapacity_spec m h.valid len hsum
  rw [h.length_eq] at hfits
  refine ⟨hret, ⟨hvalid, hwritten.trans h.written_eq, ?_, ?_⟩, hfits⟩
  · intro s hs
    rcases List.mem_append.mp hs with hs | hs
    · exact h.stores_le s hs
    · have hwithin := UInt32.le_iff_toNat_le.mp hvalid.writePos_le
      rw [hpos] at hwithin
      split_ifs at hs with hgrow
      · rw [List.mem_singleton.mp hs, Nat.zero_add]
        exact hwithin
      · exact absurd hs List.not_mem_nil
  · exact (readPos_checkCapacity m w.pkg len).trans h.readPos_eq

theorem appends_writeByte (m : FreshMemory) (byte : UInt8) : Appends (writeByte m byte) [byte] := by
  intro w front h hsum
  obtain ⟨hret, hbuilt, hroom⟩ := h.checkCapacity m 1 hsum
  rcases hcheck : w.checkCapacity m 1 with ⟨r, w'⟩
  rw [hcheck] at hret hbuilt hroom
  simp only at hret
  subst hret
  simp only [writeByte, hcheck]
  exact ⟨trivial, hbuilt.put byte hroom⟩

theorem appends_putBytes (m : FreshMemory) (bytes : List UInt8) :
    Appends (putBytes m bytes) bytes := by
  intro w front h hsum
  have hcount : (UInt32.ofNat bytes.length).toNat = bytes.length :=
    UInt32.toNat_ofNat_of_lt' (show bytes.length < 2 ^ 32 by omega)
  obtain ⟨-, hroom, -⟩ := h.checkCapacity m (UInt32.ofNat bytes.length) (by rwa [hcount])
  obtain ⟨hret, hvalid, hwritten⟩ := writeBytes_spec m h.valid bytes (by rwa [h.written_eq])
  rw [h.written_eq] at hwritten
  have hend := UInt32.le_iff_toNat_le.mp hvalid.writePos_le
  rw [← hvalid.length_written, hwritten, List.length_append] at hend
  rw [putBytes]
  simp only [hret, if_true]
  refine ⟨trivial, ⟨hvalid, hwritten, ?_, ?_⟩⟩
  · intro s hs
    rcases List.mem_append.mp hs with hs | hs
    · exact hroom.stores_le s hs
    · rw [List.mem_singleton.mp hs, h.length_eq]
      exact hend
  · exact (readPos_writeBytes m w.pkg bytes).trans h.readPos_eq

theorem Appends.or {f g : Writer} {as bs : List UInt8} (hf : Appends f as) (hg : Appends g bs) :
    Appends (f.or g) (as ++ bs) := by
  intro w front h hsum
  rw [List.length_append] at hsum
  obtain ⟨hret, hbuilt⟩ := hf w front h (by omega)
  obtain ⟨hret', hbuilt'⟩ := hg (f w).2 (front ++ as) hbuilt
    (by rw [List.length_append]; omega)
  simp only [Writer.or, hret, hret', ne_eq, not_true_eq_false, if_false]
  rw [← List.append_assoc]
  exact ⟨trivial, hbuilt'⟩

theorem appends_writeUint16 (m : FreshMemory) (val : UInt16) :
    Appends (writeUint16 m val) (uint16Bytes val) :=
  (appends_writeByte m _).or (appends_writeByte m _)

theorem appends_writeUint32 (m : FreshMemory) (val : UInt32) :
    Appends (writeUint32 m val) (uint32Bytes val) :=
  (((appends_writeByte m _).or (appends_writeByte m _)).or (appends_writeByte m _)).or
    (appends_writeByte m _)

/-- A string is written whole when its length has 16 bits. -/
theorem appends_writeStr (m : FreshMemory) {str : Str} (h : str.bytes.length ≤ 65535) :
    Appends (writeStr m str) str.field := by
  have hlen : (UInt16.ofNat str.bytes.length).toNat = str.bytes.length :=
    UInt16.toNat_ofNat_of_lt' (show str.bytes.length < 2 ^ 16 by omega)
  have hall : str.bytes.take (UInt16.ofNat str.bytes.length).toNat = str.bytes := by
    rw [hlen, List.take_length]
  rw [writeStr, hall]
  exact (appends_writeUint16 m _).or (appends_putBytes m _)

/-- A digit as `WriteRemainlen` computes it. -/
theorem digit_eq (remaining : UInt32) :
    (if remaining / 128 > 0 then (remaining % 128).toUInt8 ||| 0x80
      else (remaining % 128).toUInt8) =
      UInt8.ofNat (if remaining.toNat < 128 then remaining.toNat else remaining.toNat % 128 + 128) := by
  have hdiv : remaining / 128 > 0 ↔ ¬ remaining.toNat < 128 := by
    rw [gt_iff_lt, UInt32.lt_iff_toNat_lt, UInt32.toNat_div]
    simp only [UInt32.reduceToNat]
    omega
  have hmod : (remaining % 128).toUInt8 = UInt8.ofNat (remaining.toNat % 128) := by
    rw [← UInt8.toNat_inj, UInt32.toNat_toUInt8, UInt32.toNat_mod, UInt8.toNat_ofNat']
    rfl
  rw [hmod]
  by_cases hlt : remaining.toNat < 128
  · rw [if_neg (fun hc => hdiv.mp hc hlt), if_pos hlt, Nat.mod_eq_of_lt hlt]
  · rw [if_pos (hdiv.mpr hlt), if_neg hlt]
    exact or_high_of_lt (Nat.mod_lt _ (by decide))

/-- `WriteRemainlen` puts the shortest field behind the bytes written, where there is room. -/
theorem Built.writeRemainlenLoop (n : ℕ) :
    ∀ (remaining : UInt32) (w : Writing) (front : List UInt8), Built w front →
      (encode remaining.toNat).length ≤ n →
      front.length + (encode remaining.toNat).length ≤ w.pkg.capacity.toNat →
      Built (writeRemainlenLoop n remaining w) (front ++ encode remaining.toNat) := by
  induction n with
  | zero =>
      intro remaining w front _ hlen _
      exact absurd hlen (Nat.not_le.mpr (isField_encode _).length_pos)
  | succ n ih =>
      intro remaining w front h hlen hroom
      have hput := h.put (UInt8.ofNat (if remaining.toNat < 128 then remaining.toNat
        else remaining.toNat % 128 + 128)) (by have := (isField_encode remaining.toNat).length_pos; omega)
      simp only [Edp.writeRemainlenLoop, digit_eq]
      by_cases hlt : remaining.toNat < 128
      · have hdiv : ¬ remaining / 128 > 0 := by
          rw [gt_iff_lt, UInt32.lt_iff_toNat_lt, UInt32.toNat_div]
          simp only [UInt32.reduceToNat]
          omega
        rw [if_pos hlt] at hput
        rw [if_neg hdiv, if_pos hlt, encode_of_lt hlt]
        exact hput
      · have hdiv : remaining / 128 > 0 := by
          rw [gt_iff_lt, UInt32.lt_iff_toNat_lt, UInt32.toNat_div]
          simp only [UInt32.reduceToNat]
          omega
        have hnat : (remaining / 128).toNat = remaining.toNat / 128 := UInt32.toNat_div _ _
        rw [encode_of_le (Nat.not_lt.mp hlt), List.length_cons] at hlen hroom
        rw [if_neg hlt] at hput
        rw [if_pos hdiv, if_neg hlt, encode_of_le (Nat.not_lt.mp hlt)]
        have hrec := ih (remaining / 128) _ _ hput (by rw [hnat]; omega)
          (by rw [hnat, List.length_append, List.length_singleton]; show _ ≤ w.pkg.capacity.toNat; omega)
        rw [hnat, List.append_assoc] at hrec
        exact hrec

theorem length_encode_le_five (n : UInt32) : (encode n.toNat).length ≤ 5 :=
  (length_encode_le_iff 4 n.toNat).mpr (n.toNat_lt.trans (by decide))

theorem Built.writeRemainlen {w : Writing} {front : List UInt8} (h : Built w front)
    (lenVal : UInt32)
    (hroom : front.length + (encode lenVal.toNat).length ≤ w.pkg.capacity.toNat) :
    Built (writeRemainlen lenVal w).2 (front ++ encode lenVal.toNat) :=
  Built.writeRemainlenLoop 5 lenVal w front h (length_encode_le_five lenVal) hroom

/-- One call after the other puts the bytes of all of them behind those written. -/
theorem Built.all {fs : List Writer} {bs : List (List UInt8)} (hfs : List.Forall₂ Appends fs bs) :
    ∀ {w : Writing} {front : List UInt8}, Built w front →
      front.length + bs.flatten.length < 2 ^ 30 → Built (w.all fs) (front ++ bs.flatten) := by
  induction hfs with
  | nil =>
      intro w front h _
      rw [List.flatten_nil, List.append_nil]
      exact h
  | @cons f b fs bs hf _ ih =>
      intro w front h hsum
      rw [List.flatten_cons, List.length_append] at hsum
      obtain ⟨-, hbuilt⟩ := hf w front h (by omega)
      have hrec := ih hbuilt (by rw [List.length_append]; omega)
      rw [List.append_assoc] at hrec
      exact hrec

end Edp
