import Mathlib.Data.List.Infix
import Mathlib.Algebra.Order.Ring.Nat

/-!
# Base-128 length fields

A length field is a list of bytes of seven bits each, lowest first, in which
every byte but the last has its high bit set. `IsField` says that a list is one
field, `value` is the number it stands for, and `encode n` is the shortest field
of `n`. A field is never a strict prefix of another one, and the shortest field
has at most `k` bytes exactly when the number is below `128 ^ k`.
-/

namespace Base128

/-- One field: continuation bytes, then a byte below 128, and nothing after. -/
def IsField : List UInt8 → Prop
  | [] => False
  | b :: bs => if b.toNat < 128 then bs = [] else IsField bs

/-- The number a field stands for. -/
def value : List UInt8 → ℕ
  | [] => 0
  | b :: bs => b.toNat % 128 + 128 * value bs

/-- The shortest field of a number. -/
def encode (n : ℕ) : List UInt8 :=
  if n < 128 then [UInt8.ofNat n]
  else UInt8.ofNat (n % 128 + 128) :: encode (n / 128)
termination_by n
decreasing_by omega

@[simp] theorem not_isField_nil : ¬ IsField [] := fun h => h

theorem isField_cons_of_lt {b : UInt8} (hb : b.toNat < 128) (bs : List UInt8) :
    IsField (b :: bs) ↔ bs = [] := by
  simp [IsField, hb]

theorem isField_cons_of_le {b : UInt8} (hb : 128 ≤ b.toNat) (bs : List UInt8) :
    IsField (b :: bs) ↔ IsField bs := by
  simp [IsField, Nat.not_lt.mpr hb]

theorem IsField.ne_nil {bs : List UInt8} (h : IsField bs) : bs ≠ [] := by
  rintro rfl
  exact h

theorem IsField.length_pos {bs : List UInt8} (h : IsField bs) : 0 < bs.length :=
  List.length_pos_iff.mpr h.ne_nil

/-- The last byte of a field does not continue it. -/
theorem IsField.exists_lt {bs : List UInt8} (h : IsField bs) : ∃ b ∈ bs, b.toNat < 128 := by
  induction bs with
  | nil => exact absurd h not_isField_nil
  | cons b bs ih =>
      by_cases hb : b.toNat < 128
      · exact ⟨b, List.mem_cons_self, hb⟩
      · obtain ⟨c, hc, hlt⟩ := ih ((isField_cons_of_le (Nat.not_lt.mp hb) bs).mp h)
        exact ⟨c, List.mem_cons_of_mem _ hc, hlt⟩

/-- Every byte of a strict prefix of a field continues it. -/
theorem IsField.continues_of_strict {bs q : List UInt8} (hb : IsField bs)
    (hq : q <+: bs) (hne : q ≠ bs) : ∀ b ∈ q, 128 ≤ b.toNat := by
  induction q generalizing bs with
  | nil => simp
  | cons a q ih =>
      obtain ⟨rest, rfl⟩ := hq
      by_cases hlt : a.toNat < 128
      · have hnil : q ++ rest = [] := (isField_cons_of_lt hlt _).mp hb
        have hq0 : q = [] := (List.append_eq_nil_iff.mp hnil).1
        have hr0 : rest = [] := (List.append_eq_nil_iff.mp hnil).2
        exact absurd (by simp [hq0, hr0]) hne
      · have hle : 128 ≤ a.toNat := Nat.not_lt.mp hlt
        have hb' : IsField (q ++ rest) := (isField_cons_of_le hle _).mp hb
        have hne' : q ≠ q ++ rest := fun h => hne (by rw [List.cons_append, ← h])
        intro b hmem
        rcases List.mem_cons.mp hmem with rfl | hmem
        · exact hle
        · exact ih hb' (List.prefix_append _ _) hne' b hmem

/-- A list of at most `k` bytes stands for a number below `128 ^ k`. -/
theorem value_lt_of_length_le {f : List UInt8} {k : ℕ} (h : f.length ≤ k) :
    value f < 128 ^ k := by
  induction f generalizing k with
  | nil => exact Nat.pow_pos (by omega)
  | cons b bs ih =>
      obtain ⟨j, rfl⟩ : ∃ j, k = j + 1 := ⟨k - 1, by simp only [List.length_cons] at h; omega⟩
      have hrec := ih (k := j) (by simpa using h)
      rw [value, pow_succ]
      omega

theorem encode_of_lt {n : ℕ} (h : n < 128) : encode n = [UInt8.ofNat n] := by
  rw [encode, if_pos h]

theorem encode_of_le {n : ℕ} (h : 128 ≤ n) :
    encode n = UInt8.ofNat (n % 128 + 128) :: encode (n / 128) := by
  rw [encode, if_neg (Nat.not_lt.mpr h)]

theorem toNat_ofNat_continuation (n : ℕ) :
    (UInt8.ofNat (n % 128 + 128)).toNat = n % 128 + 128 := by
  rw [UInt8.toNat_ofNat']
  omega

theorem isField_encode (n : ℕ) : IsField (encode n) := by
  induction n using Nat.strongRecOn with
  | ind n ih =>
      by_cases h : n < 128
      · rw [encode_of_lt h]
        have hb : (UInt8.ofNat n).toNat < 128 := by
          rw [UInt8.toNat_ofNat']
          omega
        exact (isField_cons_of_lt hb []).mpr rfl
      · have hle : 128 ≤ n := Nat.not_lt.mp h
        rw [encode_of_le hle]
        have hb : 128 ≤ (UInt8.ofNat (n % 128 + 128)).toNat := by
          rw [toNat_ofNat_continuation]
          omega
        exact (isField_cons_of_le hb _).mpr (ih (n / 128) (by omega))

theorem value_encode (n : ℕ) : value (encode n) = n := by
  induction n using Nat.strongRecOn with
  | ind n ih =>
      by_cases h : n < 128
      · rw [encode_of_lt h]
        simp only [value, UInt8.toNat_ofNat']
        omega
      · have hle : 128 ≤ n := Nat.not_lt.mp h
        rw [encode_of_le hle, value, toNat_ofNat_continuation, ih (n / 128) (by omega)]
        omega

/-- The shortest field fits in `k + 1` bytes exactly when the number is below
`128 ^ (k + 1)`. -/
theorem length_encode_le_iff (k n : ℕ) :
    (encode n).length ≤ k + 1 ↔ n < 128 ^ (k + 1) := by
  induction k generalizing n with
  | zero =>
      by_cases h : n < 128
      · simp [encode_of_lt h, h]
      · have hpos := (isField_encode (n / 128)).length_pos
        simp only [encode_of_le (Nat.not_lt.mp h), List.length_cons]
        omega
  | succ k ih =>
      have hpow : 128 ^ (k + 1 + 1) = 128 ^ (k + 1) * 128 := pow_succ _ _
      by_cases h : n < 128
      · have hone : 1 ≤ 128 ^ (k + 1) := Nat.one_le_pow _ _ (by omega)
        rw [encode_of_lt h]
        simp only [List.length_singleton]
        omega
      · have hle : 128 ≤ n := Nat.not_lt.mp h
        rw [encode_of_le hle, List.length_cons, Nat.add_le_add_iff_right, ih, hpow]
        omega

/-- A greater number has no shorter field. -/
theorem length_encode_mono {m n : ℕ} (h : m ≤ n) : (encode m).length ≤ (encode n).length := by
  obtain ⟨k, hk⟩ : ∃ k, (encode n).length = k + 1 :=
    Nat.exists_eq_add_one.mpr (isField_encode n).length_pos
  have hlt := (length_encode_le_iff k n).mp hk.le
  rw [hk]
  exact (length_encode_le_iff k m).mpr (h.trans_lt hlt)

/-- Data with their length in front say where they begin. -/
theorem encode_append_inj {bs cs : List UInt8}
    (h : encode bs.length ++ bs = encode cs.length ++ cs) : bs = cs := by
  have hlen := congrArg List.length h
  rw [List.length_append, List.length_append] at hlen
  have heq : bs.length = cs.length := by
    rcases Nat.lt_trichotomy bs.length cs.length with hlt | heq | hlt
    · have hle := length_encode_mono hlt.le
      omega
    · exact heq
    · have hle := length_encode_mono hlt.le
      omega
  rw [heq] at h
  exact List.append_cancel_left h

/-- A field says where it ends. -/
theorem encode_append_encode_inj {m n : ℕ} {bs cs : List UInt8}
    (h : encode m ++ bs = encode n ++ cs) : m = n ∧ bs = cs := by
  have hfield : encode m = encode n := by
    by_contra hne
    have hm : encode m <+: encode n ++ cs := h ▸ List.prefix_append _ _
    rcases List.prefix_or_prefix_of_prefix hm (List.prefix_append _ _) with hle | hle
    · obtain ⟨b, hb, hlt⟩ := (isField_encode m).exists_lt
      have hcont := (isField_encode n).continues_of_strict hle hne b hb
      exact absurd hlt (Nat.not_lt.mpr hcont)
    · obtain ⟨b, hb, hlt⟩ := (isField_encode n).exists_lt
      have hcont := (isField_encode m).continues_of_strict hle (Ne.symm hne) b hb
      exact absurd hlt (Nat.not_lt.mpr hcont)
  have hvalue := congrArg value hfield
  rw [value_encode, value_encode] at hvalue
  rw [hfield] at h
  exact ⟨hvalue, List.append_cancel_left h⟩

theorem and_mask_toNat (b : UInt8) : (b &&& 0x7f).toUInt32.toNat = b.toNat % 128 := by
  rw [UInt8.toNat_toUInt32, UInt8.toNat_and]
  exact Nat.and_two_pow_sub_one_eq_mod b.toNat 7

theorem and_high_eq_zero_iff (b : UInt8) : b &&& 0x80 = 0 ↔ b.toNat < 128 := by
  have hbit : ∀ n : Fin 256, n.val &&& 128 = 0 ↔ n.val < 128 := by
    decide +kernel
  rw [← UInt8.toNat_inj, UInt8.toNat_and]
  exact hbit ⟨b.toNat, b.toNat_lt⟩

theorem or_high_of_lt {n : ℕ} (h : n < 128) :
    UInt8.ofNat n ||| 128 = UInt8.ofNat (n + 128) := by
  have hbit : ∀ n : Fin 128, UInt8.ofNat n.val ||| 128 = UInt8.ofNat (n.val + 128) := by
    decide
  exact hbit ⟨n, h⟩

/-- The accumulator of a reader after one byte, as a number: below `128 ^ 4` nothing
wraps. -/
theorem accumulate_toNat {b : UInt8} {m len : UInt32} {k : ℕ} (hk : k ≤ 3)
    (hm : m.toNat = 128 ^ k) (hlen : len.toNat < 128 ^ k) :
    (len + (b &&& 0x7f).toUInt32 * m).toNat = len.toNat + b.toNat % 128 * 128 ^ k := by
  have hpow : 128 ^ k ≤ 2097152 := Nat.pow_le_pow_right (by omega) hk
  have hdigit : b.toNat % 128 * 128 ^ k ≤ 127 * 2097152 :=
    Nat.mul_le_mul (by omega) hpow
  rw [UInt32.toNat_add, UInt32.toNat_mul, and_mask_toNat, hm]
  omega

/-- The accumulator stays below the next power of 128. -/
theorem accumulate_lt {b : UInt8} {m len : UInt32} {k : ℕ} (hk : k ≤ 3)
    (hm : m.toNat = 128 ^ k) (hlen : len.toNat < 128 ^ k) :
    (len + (b &&& 0x7f).toUInt32 * m).toNat < 128 ^ (k + 1) := by
  have hdigit : b.toNat % 128 * 128 ^ k ≤ 127 * 128 ^ k := Nat.mul_le_mul_right _ (by omega)
  rw [accumulate_toNat hk hm hlen, pow_succ]
  omega

/-- The multiplier of the next byte. -/
theorem multiplier_toNat {m : UInt32} {k : ℕ} (hk : k ≤ 3) (hm : m.toNat = 128 ^ k) :
    (m * 0x80).toNat = 128 ^ (k + 1) := by
  have hpow : 128 ^ k ≤ 2097152 := Nat.pow_le_pow_right (n := 128) (by omega) hk
  rw [UInt32.toNat_mul, hm, pow_succ]
  simp only [UInt32.reduceToNat]
  omega

end Base128
