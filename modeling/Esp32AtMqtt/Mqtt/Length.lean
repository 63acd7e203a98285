import Esp32AtMqtt.Codec.Base128
import Mathlib.Tactic.Ring

/-!
# The remaining-length field of an MQTT packet

`Mqtt_ReadLength` and `Mqtt_DumpLength` of `mqtt.c`, as two loops over the bytes
of the field. The writer produces up to four bytes and so covers every length
below `2^28`. The reader gives up, with the code of an out-of-range field, as soon
as three bytes in a row continue: it multiplies before it looks at the next byte
and compares with `≥` where the largest legal multiplier is `128^3`. The two are
therefore inverse exactly below `2^21`.

Both are bound to the fields of `Base128`: the writer to `Base128.encode`, the
reader to `Base128.value`.
-/

namespace Mqtt

open Base128

/-- The loop of `Mqtt_ReadLength` from index `i` on, over the bytes not read yet. -/
def mqttReadLengthLoop : List UInt8 → ℤ → UInt32 → UInt32 → ℤ × UInt32
  | [], _, _, len => (-1, len)
  | b :: rest, i, multiplier, len =>
      let len := len + (b &&& 0x7f).toUInt32 * multiplier
      if b &&& 0x80 = 0 then (i + 1, len)
      else
        let multiplier := multiplier * 128
        if multiplier ≥ 128 * 128 * 128 then (-2, len)
        else mqttReadLengthLoop rest (i + 1) multiplier len

/-- `Mqtt_ReadLength(stream, size, len)`: the returned code and the value left in
`*len`. -/
def mqttReadLength (stream : List UInt8) (size : ℕ) : ℤ × UInt32 :=
  mqttReadLengthLoop (stream.take size) 0 1 0

/-- The loop of `Mqtt_DumpLength` with `n` iterations left, from counter `i` on: the
returned code and the bytes written. -/
def mqttDumpLengthLoop : ℕ → ℤ → ℕ → ℤ × List UInt8
  | 0, _, _ => (-1, [])
  | n + 1, i, len =>
      let b := UInt8.ofNat (len % 128)
      let len := len / 128
      if 0 < len then
        let r := mqttDumpLengthLoop n (i + 1) len
        (r.1, (b ||| 128) :: r.2)
      else (i, [b])

/-- `Mqtt_DumpLength(len, buf)`. -/
def mqttDumpLength (len : ℕ) : ℤ × List UInt8 := mqttDumpLengthLoop 4 1 len

/-- One iteration that ends the field. -/
theorem readLengthLoop_last {b : UInt8} (hb : b.toNat < 128) (rest : List UInt8) (i : ℤ)
    (m len : UInt32) :
    mqttReadLengthLoop (b :: rest) i m len =
      (i + 1, len + (b &&& 0x7f).toUInt32 * m) := by
  simp [mqttReadLengthLoop, (and_high_eq_zero_iff b).mpr hb]

/-- One iteration that continues the field. -/
theorem readLengthLoop_continue {b : UInt8} (hb : 128 ≤ b.toNat) (rest : List UInt8)
    (i : ℤ) (m len : UInt32) :
    mqttReadLengthLoop (b :: rest) i m len =
      if m * 128 ≥ 2097152 then (-2, len + (b &&& 0x7f).toUInt32 * m)
      else mqttReadLengthLoop rest (i + 1) (m * 128)
        (len + (b &&& 0x7f).toUInt32 * m) := by
  have hne : ¬ (b &&& 0x80 = 0) := fun h =>
    absurd ((and_high_eq_zero_iff b).mp h) (Nat.not_lt.mpr hb)
  simp only [mqttReadLengthLoop, if_neg hne]
  rfl

/-- The reader on a field of at most three bytes: it consumes exactly the field
and adds its value at the current weight. -/
theorem readLengthLoop_field (f rest : List UInt8) :
    ∀ (k : ℕ) (i : ℤ) (m len : UInt32), IsField f → k + f.length ≤ 3 →
      m.toNat = 128 ^ k → len.toNat < 128 ^ k →
      (mqttReadLengthLoop (f ++ rest) i m len).1 = i + f.length ∧
        (mqttReadLengthLoop (f ++ rest) i m len).2.toNat =
          len.toNat + value f * 128 ^ k := by
  induction f with
  | nil => exact fun _ _ _ _ hf => absurd hf not_isField_nil
  | cons b bs ih =>
      intro k i m len hf hlength hm hlen
      have hk : k ≤ 2 := by
        simp only [List.length_cons] at hlength
        omega
      have hacc := accumulate_toNat (b := b) (k := k) (by omega) hm hlen
      by_cases hb : b.toNat < 128
      · have hbs : bs = [] := (isField_cons_of_lt hb bs).mp hf
        subst hbs
        rw [List.cons_append, readLengthLoop_last hb]
        refine ⟨by simp, ?_⟩
        rw [hacc]
        simp [value]
      · have hle : 128 ≤ b.toNat := Nat.not_lt.mp hb
        have hf' : IsField bs := (isField_cons_of_le hle bs).mp hf
        have hpos := hf'.length_pos
        simp only [List.length_cons] at hlength
        -- the field goes on, so at most one byte was read before this one
        have hk1 : k ≤ 1 := by omega
        have hpow : 128 ^ k ≤ 128 := by
          simpa using Nat.pow_le_pow_right (n := 128) (by omega) hk1
        have hm' := multiplier_toNat (by omega) hm
        have hsmall : ¬ (m * 128 ≥ 2097152) := by
          rw [ge_iff_le, UInt32.le_iff_toNat_le, hm', pow_succ]
          simp only [UInt32.reduceToNat]
          omega
        have hlen' := accumulate_lt (b := b) (by omega) hm hlen
        have hrec := ih (k + 1) (i + 1) (m * 128) _ hf' (by omega) hm' hlen'
        rw [List.cons_append, readLengthLoop_continue hle, if_neg hsmall]
        refine ⟨?_, ?_⟩
        · rw [hrec.1, List.length_cons]
          push_cast
          ring
        · rw [hrec.2, hacc, value, pow_succ]
          ring

/-- A field of at most three bytes is read back, whatever follows it. -/
theorem mqttReadLength_field {f : List UInt8} (rest : List UInt8) (size : ℕ)
    (hf : IsField f) (hlength : f.length ≤ 3) (hsize : f.length ≤ size) :
    mqttReadLength (f ++ rest) size = ((f.length : ℤ), UInt32.ofNat (value f)) := by
  have htake : (f ++ rest).take size = f ++ rest.take (size - f.length) := by
    rw [List.take_append, List.take_of_length_le hsize]
  obtain ⟨hret, hlen⟩ := readLengthLoop_field f (rest.take (size - f.length)) 0 0 1 0 hf
    (by omega) rfl (by decide)
  rw [← htake] at hret hlen
  refine Prod.ext (by rw [mqttReadLength, hret]; simp) ?_
  rw [← UInt32.toNat_inj, mqttReadLength, hlen, UInt32.toNat_ofNat']
  have hlt : value f < 2 ^ 32 := by
    have h := (mqttReadLengthLoop (List.take size (f ++ rest)) 0 1 0).2.toNat_lt
    rw [hlen] at h
    simpa using h
  rw [Nat.mod_eq_of_lt hlt]
  simp

/-- Three continuation bytes in a row are taken for an out-of-range field. -/
theorem mqttReadLength_three {a b c : UInt8} (rest : List UInt8) (size : ℕ)
    (ha : 128 ≤ a.toNat) (hb : 128 ≤ b.toNat) (hc : 128 ≤ c.toNat) (hsize : 3 ≤ size) :
    (mqttReadLength (a :: b :: c :: rest) size).1 = -2 := by
  obtain ⟨n, rfl⟩ : ∃ n, size = n + 3 := ⟨size - 3, by omega⟩
  simp only [mqttReadLength, List.take_succ_cons]
  rw [readLengthLoop_continue ha, if_neg (by decide), readLengthLoop_continue hb,
    if_neg (by decide), readLengthLoop_continue hc, if_pos (by decide)]

/-- What the reader makes of three bytes or more: a field that ends with the third byte at the
latest, or an error. -/
theorem mqttReadLength_cases {bytes : List UInt8} {size : ℕ} (hlen : 3 ≤ bytes.length)
    (hsize : 3 ≤ size) :
    (∃ field rest, bytes = field ++ rest ∧ IsField field ∧ field.length ≤ 3 ∧
        mqttReadLength bytes size = ((field.length : ℤ), UInt32.ofNat (value field))) ∨
      (mqttReadLength bytes size).1 = -2 := by
  match bytes, hlen with
  | a :: b :: c :: rest, _ =>
      have hfield : ∀ field back, a :: b :: c :: rest = field ++ back → IsField field →
          field.length ≤ 3 → mqttReadLength (a :: b :: c :: rest) size =
            ((field.length : ℤ), UInt32.ofNat (value field)) := by
        intro field back heq hf hle
        rw [heq]
        exact mqttReadLength_field back size hf hle (hle.trans hsize)
      by_cases ha : a.toNat < 128
      · have hf : IsField [a] := (isField_cons_of_lt ha []).mpr rfl
        exact .inl ⟨[a], b :: c :: rest, rfl, hf, by simp, hfield _ _ rfl hf (by simp)⟩
      rw [Nat.not_lt] at ha
      by_cases hb : b.toNat < 128
      · have hf : IsField [a, b] := (isField_cons_of_le ha [b]).mpr ((isField_cons_of_lt hb []).mpr rfl)
        exact .inl ⟨[a, b], c :: rest, rfl, hf, by simp, hfield _ _ rfl hf (by simp)⟩
      rw [Nat.not_lt] at hb
      by_cases hc : c.toNat < 128
      · have hf : IsField [a, b, c] := (isField_cons_of_le ha [b, c]).mpr
          ((isField_cons_of_le hb [c]).mpr ((isField_cons_of_lt hc []).mpr rfl))
        exact .inl ⟨[a, b, c], rest, rfl, hf, by simp, hfield _ _ rfl hf (by simp)⟩
      · exact .inr (mqttReadLength_three rest size ha hb (Nat.not_lt.mp hc) hsize)

/-- Fewer than three bytes that all continue are an incomplete field. -/
theorem mqttReadLength_short {q : List UInt8} (size : ℕ) (hq : ∀ b ∈ q, 128 ≤ b.toNat)
    (hlength : q.length ≤ 2) : (mqttReadLength q size).1 = -1 := by
  have hq' : ∀ b ∈ q.take size, 128 ≤ b.toNat := fun b hb => hq b (List.mem_of_mem_take hb)
  have hlength' : (q.take size).length ≤ 2 := (List.length_take_le' _ _).trans hlength
  unfold mqttReadLength
  match q.take size, hq', hlength' with
  | [], _, _ => rfl
  | [a], h, _ =>
      rw [readLengthLoop_continue (h a (by simp)), if_neg (by decide)]
      rfl
  | [a, b], h, _ =>
      rw [readLengthLoop_continue (h a (by simp)), if_neg (by decide),
        readLengthLoop_continue (h b (by simp)), if_neg (by decide)]
      rfl

/-- The writer produces the shortest field when it fits. -/
theorem dumpLengthLoop_of_lt (n : ℕ) :
    ∀ (i : ℤ) (len : ℕ), len < 128 ^ (n + 1) →
      mqttDumpLengthLoop (n + 1) i len =
        (i + ((encode len).length - 1 : ℕ), encode len) := by
  induction n with
  | zero =>
      intro i len h
      have hlen : len < 128 := by simpa using h
      have hdiv : len / 128 = 0 := by omega
      simp [mqttDumpLengthLoop, hdiv, encode_of_lt hlen, Nat.mod_eq_of_lt hlen]
  | succ n ih =>
      intro i len h
      rw [mqttDumpLengthLoop]
      by_cases hlen : len < 128
      · have hdiv : len / 128 = 0 := by omega
        simp [hdiv, encode_of_lt hlen, Nat.mod_eq_of_lt hlen]
      · have hle : 128 ≤ len := Nat.not_lt.mp hlen
        have hdiv : 0 < len / 128 := by omega
        have hlt : len / 128 < 128 ^ (n + 1) := by
          rw [pow_succ] at h
          omega
        have hpos := (isField_encode (len / 128)).length_pos
        simp only [if_pos hdiv, ih (i + 1) _ hlt, encode_of_le hle,
          or_high_of_lt (Nat.mod_lt len (by omega : 0 < 128)), List.length_cons,
          Prod.mk.injEq, and_true]
        omega

/-- A length that needs a further byte is refused. -/
theorem dumpLengthLoop_of_le (n : ℕ) :
    ∀ (i : ℤ) (len : ℕ), 128 ^ n ≤ len → (mqttDumpLengthLoop n i len).1 = -1 := by
  induction n with
  | zero => exact fun _ _ _ => rfl
  | succ n ih =>
      intro i len h
      have hle : 128 ^ n ≤ len / 128 := by
        rw [pow_succ] at h
        omega
      have hone : 1 ≤ 128 ^ n := Nat.one_le_pow _ _ (by omega)
      rw [mqttDumpLengthLoop]
      simp only [if_pos (show 0 < len / 128 by omega), ih (i + 1) _ hle]

/-- It writes a byte that continues in every iteration. -/
theorem dumpLengthLoop_continues (n : ℕ) :
    ∀ (i : ℤ) (len : ℕ), 128 ^ n ≤ len → (mqttDumpLengthLoop n i len).2.length = n ∧
      ∀ b ∈ (mqttDumpLengthLoop n i len).2, 128 ≤ b.toNat := by
  induction n with
  | zero => exact fun _ _ _ => ⟨rfl, fun b hb => absurd hb List.not_mem_nil⟩
  | succ n ih =>
      intro i len h
      have hle : 128 ^ n ≤ len / 128 := by
        rw [pow_succ] at h
        omega
      have hone : 1 ≤ 128 ^ n := Nat.one_le_pow _ _ (by omega)
      obtain ⟨hlen, hcont⟩ := ih (i + 1) (len / 128) hle
      rw [mqttDumpLengthLoop]
      simp only [if_pos (show 0 < len / 128 by omega), List.length_cons, hlen, true_and]
      intro b hb
      rcases List.mem_cons.mp hb with rfl | hb
      · rw [or_high_of_lt (Nat.mod_lt len (by omega : 0 < 128)), UInt8.toNat_ofNat']
        omega
      · exact hcont b hb

/-- The loop writes a byte in each iteration at most. -/
theorem length_dumpLengthLoop_le (n : ℕ) :
    ∀ (i : ℤ) (len : ℕ), (mqttDumpLengthLoop n i len).2.length ≤ n := by
  induction n with
  | zero => exact fun _ _ => le_rfl
  | succ n ih =>
      intro i len
      rw [mqttDumpLengthLoop]
      split
      · simpa using ih (i + 1) (len / 128)
      · simp

theorem mqttDumpLength_of_lt {len : ℕ} (h : len < 2 ^ 28) :
    mqttDumpLength len = (((encode len).length : ℤ), encode len) := by
  have hpos := (isField_encode len).length_pos
  rw [mqttDumpLength, dumpLengthLoop_of_lt 3 1 len (by simpa using h)]
  simp only [Prod.mk.injEq, and_true]
  omega

theorem mqttDumpLength_of_le {len : ℕ} (h : 2 ^ 28 ≤ len) :
    (mqttDumpLength len).1 = -1 :=
  dumpLengthLoop_of_le 4 1 len (by simpa using h)

/-- What the two functions owe each other at the length `len`: below `2^28` the
writer's one to four bytes are read back whatever follows, and a strict prefix of
them is reported as incomplete; from `2^28` on the writer fails. -/
def LengthCodec (len : ℕ) : Prop :=
  (len < 2 ^ 28 →
    (∃ n : ℕ, 1 ≤ n ∧ n ≤ 4 ∧ (mqttDumpLength len).1 = n ∧
      (mqttDumpLength len).2.length = n) ∧
    (∀ rest size, (mqttDumpLength len).2.length ≤ size →
      mqttReadLength ((mqttDumpLength len).2 ++ rest) size =
        ((mqttDumpLength len).1, UInt32.ofNat len)) ∧
    ∀ q, q <+: (mqttDumpLength len).2 → q ≠ (mqttDumpLength len).2 →
      (mqttReadLength q q.length).1 = -1) ∧
  (2 ^ 28 ≤ len → (mqttDumpLength len).1 = -1)

/-- The shortest field of a length below `2^28` has one to four bytes. -/
theorem length_encode_bounds {len : ℕ} (h : len < 2 ^ 28) :
    1 ≤ (encode len).length ∧ (encode len).length ≤ 4 :=
  ⟨(isField_encode len).length_pos, (length_encode_le_iff 3 len).mpr (by simpa using h)⟩

theorem lengthCodec_of_lt {len : ℕ} (h : len < 2 ^ 21) : LengthCodec len := by
  have h28 : len < 2 ^ 28 := by omega
  have hfield := isField_encode len
  have h3 : (encode len).length ≤ 3 := (length_encode_le_iff 2 len).mpr (by simpa using h)
  obtain ⟨h1, h4⟩ := length_encode_bounds h28
  refine ⟨fun _ => ?_, fun hle => by omega⟩
  rw [mqttDumpLength_of_lt h28]
  refine ⟨⟨_, h1, h4, rfl, rfl⟩, fun rest size hsize => ?_, fun q hq hne => ?_⟩
  · rw [mqttReadLength_field rest _ hfield h3 hsize, value_encode]
  · have hlt : q.length < (encode len).length := by
      refine lt_of_le_of_ne hq.length_le fun heq => hne (hq.eq_of_length heq)
    exact mqttReadLength_short _ (hfield.continues_of_strict hq hne) (by omega)

/-- A list of at least three bytes begins with three of them. -/
theorem exists_three_of_length {f : List UInt8} (h : 3 ≤ f.length) :
    ∃ a b c rest, f = a :: b :: c :: rest := by
  match f, h with
  | a :: b :: c :: rest, _ => exact ⟨a, b, c, rest, rfl⟩

/-- A field of more than three bytes begins with three continuation bytes. -/
theorem three_continue_of_isField {f : List UInt8} (hf : IsField f) (h : 3 < f.length) :
    ∃ a b c rest, f = a :: b :: c :: rest ∧
      128 ≤ a.toNat ∧ 128 ≤ b.toNat ∧ 128 ≤ c.toNat := by
  obtain ⟨a, b, c, rest, rfl⟩ := exists_three_of_length (Nat.le_of_lt h)
  have hrest : rest ≠ [] := by
    rintro rfl
    simp at h
  have hcont := hf.continues_of_strict (q := [a, b, c]) ⟨rest, rfl⟩
    (fun heq => hrest (by simpa using heq))
  exact ⟨a, b, c, rest, rfl, hcont a (by simp), hcont b (by simp), hcont c (by simp)⟩

/-- A length that takes four bytes is written and not read back. -/
theorem not_lengthCodec_of_four (len : ℕ) (h21 : 2 ^ 21 ≤ len) (h28 : len < 2 ^ 28) :
    ¬ LengthCodec len := by
  rintro ⟨h, -⟩
  obtain ⟨-, hread, -⟩ := h h28
  rw [mqttDumpLength_of_lt h28] at hread
  have h3 : ¬ (encode len).length ≤ 3 := fun hle => by
    have hlt := (length_encode_le_iff 2 len).mp hle
    omega
  obtain ⟨a, b, c, rest, heq, ha, hb, hc⟩ := three_continue_of_isField
    (isField_encode len) (Nat.not_le.mp h3)
  have hcode := congrArg Prod.fst (hread [] _ le_rfl)
  rw [heq, List.cons_append, List.cons_append, List.cons_append,
    mqttReadLength_three _ _ ha hb hc (by simp)] at hcode
  simp only at hcode
  omega

/-- The two loops are inverse exactly for the lengths of at most three bytes and
for those that the writer refuses. -/
theorem lengthCodec_iff (len : ℕ) : LengthCodec len ↔ len < 2 ^ 21 ∨ 2 ^ 28 ≤ len := by
  constructor
  · intro h
    by_contra hne
    rw [not_or, Nat.not_lt, Nat.not_le] at hne
    exact not_lengthCodec_of_four len hne.1 hne.2 h
  · rintro (h | h)
    · exact lengthCodec_of_lt h
    · exact ⟨fun hlt => absurd hlt (Nat.not_lt.mpr h), mqttDumpLength_of_le⟩

/-- The smallest length of four bytes is written as `80 80 80 01`, which the reader
calls out of range. -/
theorem lengthCodec_fails_at_two_pow_21 : ¬ ∀ len, LengthCodec len :=
  fun h => not_lengthCodec_of_four (2 ^ 21) le_rfl (by decide) (h _)

example : mqttDumpLength (2 ^ 21) = (4, [0x80, 0x80, 0x80, 0x01]) := by decide

example : (mqttReadLength [0x80, 0x80, 0x80, 0x01] 4).1 = -2 := by decide

end Mqtt
