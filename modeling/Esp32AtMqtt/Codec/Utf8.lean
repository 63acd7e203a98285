import Mathlib.Data.List.Basic
import Mathlib.Data.Nat.Notation
import Mathlib.Tactic.Common

/-!
# Well-formed UTF-8

`IsChar` is the syntax of one character in RFC 3629: no overlong forms, no surrogates,
nothing above `U+10FFFF`. `WellFormed` strings are sequences of such characters, and they
are the encodings of Lean's strings (`wellFormed_iff_isValidUTF8`).

The first byte of a character says how many bytes it has. A cut of a string into pieces
with that property is unique (`eq_of_flatten_eq`), whatever the number of bytes is.
-/

namespace Utf8

/-- `UTF8-tail`. -/
def IsTail (b : UInt8) : Prop := 0x80 ≤ b ∧ b ≤ 0xBF

/-- `UTF8-char`. -/
def IsChar : List UInt8 → Prop
  | [a] => a ≤ 0x7F
  | [a, b] => 0xC2 ≤ a ∧ a ≤ 0xDF ∧ IsTail b
  | [a, b, c] =>
      (a = 0xE0 ∧ 0xA0 ≤ b ∧ b ≤ 0xBF ∨ 0xE1 ≤ a ∧ a ≤ 0xEC ∧ IsTail b ∨
        a = 0xED ∧ 0x80 ≤ b ∧ b ≤ 0x9F ∨ 0xEE ≤ a ∧ a ≤ 0xEF ∧ IsTail b) ∧ IsTail c
  | [a, b, c, d] =>
      (a = 0xF0 ∧ 0x90 ≤ b ∧ b ≤ 0xBF ∨ 0xF1 ≤ a ∧ a ≤ 0xF3 ∧ IsTail b ∨
        a = 0xF4 ∧ 0x80 ≤ b ∧ b ≤ 0x8F) ∧ IsTail c ∧ IsTail d
  | _ => False

/-- `UTF8-octets`. -/
def WellFormed (bs : List UInt8) : Prop :=
  ∃ cs : List (List UInt8), (∀ c ∈ cs, IsChar c) ∧ cs.flatten = bs

theorem IsChar.ne_nil {c : List UInt8} (h : IsChar c) : c ≠ [] := by
  rintro rfl
  exact h

/-- The syntax covers the encoding of every character. -/
theorem isChar_utf8EncodeChar (c : Char) : IsChar (String.utf8EncodeChar c) := by
  have hvalid : c.val.toNat < 0xD800 ∨ 0xDFFF < c.val.toNat ∧ c.val.toNat < 0x110000 := c.valid
  simp only [String.utf8EncodeChar]
  generalize c.val.toNat = v at hvalid ⊢
  split_ifs with h1 h2 h3 <;>
    simp only [IsChar, IsTail, UInt8.le_iff_toNat_le, ← UInt8.toNat_inj, UInt8.toNat_ofNat',
      UInt8.reduceToNat] <;> omega

/-- A character with the given code point has the given encoding. -/
theorem exists_char_of_encode {v : ℕ} {bs : List UInt8}
    (hvalid : v < 0xD800 ∨ 0xDFFF < v ∧ v < 0x110000)
    (henc : ∀ c : Char, c.val.toNat = v → String.utf8EncodeChar c = bs) :
    ∃ c, String.utf8EncodeChar c = bs := by
  have hlt : v < 2 ^ 32 := by omega
  have hval : (UInt32.ofNat v).toNat = v := by
    rw [UInt32.toNat_ofNat', Nat.mod_eq_of_lt hlt]
  exact ⟨⟨UInt32.ofNat v, by rw [UInt32.isValidChar, hval]; exact hvalid⟩, henc _ hval⟩

/-- Every piece that the syntax allows is the encoding of a character. -/
theorem IsChar.exists_char {bs : List UInt8} (h : IsChar bs) :
    ∃ c, String.utf8EncodeChar c = bs := by
  match bs, h with
  | [a], h =>
      simp only [IsChar, UInt8.le_iff_toNat_le, UInt8.reduceToNat] at h
      refine exists_char_of_encode (v := a.toNat) (by omega) fun c hc => ?_
      rw [String.utf8EncodeChar, hc, if_pos h, UInt8.ofNat_toNat]
  | [a, b], h =>
      simp only [IsChar, IsTail, UInt8.le_iff_toNat_le, UInt8.reduceToNat] at h
      refine exists_char_of_encode (v := a.toNat % 32 * 64 + b.toNat % 64) (by omega) fun c hc => ?_
      rw [String.utf8EncodeChar, hc, if_neg (by omega), if_pos (by omega)]
      simp only [List.cons.injEq, and_true, ← UInt8.toNat_inj, UInt8.toNat_ofNat']
      omega
  | [a, b, c], h =>
      simp only [IsChar, IsTail, UInt8.le_iff_toNat_le, ← UInt8.toNat_inj, UInt8.reduceToNat] at h
      have ha : 224 ≤ a.toNat ∧ a.toNat ≤ 239 := by omega
      have hb : 128 ≤ b.toNat ∧ b.toNat ≤ 191 := by omega
      have htail : 128 ≤ c.toNat ∧ c.toNat ≤ 191 := by omega
      have hlong : ¬ a.toNat % 16 * 4096 + b.toNat % 64 * 64 + c.toNat % 64 ≤ 2047 := by omega
      refine exists_char_of_encode (v := a.toNat % 16 * 4096 + b.toNat % 64 * 64 + c.toNat % 64)
        (by omega) fun ch hc => ?_
      clear h
      rw [String.utf8EncodeChar, hc, if_neg (by omega), if_neg hlong, if_pos (by omega)]
      simp only [List.cons.injEq, and_true, ← UInt8.toNat_inj, UInt8.toNat_ofNat']
      omega
  | [a, b, c, d], h =>
      simp only [IsChar, IsTail, UInt8.le_iff_toNat_le, ← UInt8.toNat_inj, UInt8.reduceToNat] at h
      have ha : 240 ≤ a.toNat ∧ a.toNat ≤ 244 := by omega
      have hb : 128 ≤ b.toNat ∧ b.toNat ≤ 191 := by omega
      have htail : (128 ≤ c.toNat ∧ c.toNat ≤ 191) ∧ 128 ≤ d.toNat ∧ d.toNat ≤ 191 := by omega
      have hlong : ¬ a.toNat % 8 * 262144 + b.toNat % 64 * 4096 + c.toNat % 64 * 64 +
          d.toNat % 64 ≤ 65535 := by omega
      refine exists_char_of_encode
        (v := a.toNat % 8 * 262144 + b.toNat % 64 * 4096 + c.toNat % 64 * 64 + d.toNat % 64)
        (by omega) fun ch hc => ?_
      clear h
      rw [String.utf8EncodeChar, hc, if_neg (by omega), if_neg (by omega), if_neg hlong]
      simp only [List.cons.injEq, and_true, ← UInt8.toNat_inj, UInt8.toNat_ofNat']
      omega

/-- The well-formed strings are the encodings of Lean's strings. -/
theorem wellFormed_iff_isValidUTF8 (bs : List UInt8) :
    WellFormed bs ↔ bs.toByteArray.IsValidUTF8 := by
  constructor
  · rintro ⟨cs, hcs, rfl⟩
    induction cs with
    | nil => exact ByteArray.isValidUTF8_empty
    | cons c cs ih =>
        obtain ⟨ch, hch⟩ := (hcs c (by simp)).exists_char
        have hrest := ih fun d hd => hcs d (by simp [hd])
        rw [List.flatten_cons, List.toByteArray_append, ← hch]
        exact Char.isValidUTF8_toByteArray_utf8EncodeChar.append hrest
  · rintro ⟨l, hl⟩
    refine ⟨l.map String.utf8EncodeChar, fun c hc => ?_, ?_⟩
    · obtain ⟨ch, -, rfl⟩ := List.mem_map.mp hc
      exact isChar_utf8EncodeChar ch
    · rw [List.utf8Encode, List.flatMap_def] at hl
      exact (List.toByteArray_inj.mp hl).symm

/-- A piece as long as its first byte says. -/
def IsPiece {α : Type*} (width : α → ℕ) (c : List α) : Prop :=
  ∃ a as, c = a :: as ∧ c.length = width a

/-- A string is cut into such pieces in one way at most. -/
theorem eq_of_flatten_eq {α : Type*} {width : α → ℕ} {cs ds : List (List α)}
    (hc : ∀ c ∈ cs, IsPiece width c) (hd : ∀ d ∈ ds, IsPiece width d)
    (h : cs.flatten = ds.flatten) : cs = ds := by
  induction cs generalizing ds with
  | nil =>
      cases ds with
      | nil => rfl
      | cons d ds =>
          obtain ⟨a, as, rfl, -⟩ := hd d (by simp)
          simp at h
  | cons c cs ih =>
      obtain ⟨a, as, hcons, hlen⟩ := hc c (by simp)
      cases ds with
      | nil => simp [hcons] at h
      | cons d ds =>
          obtain ⟨b, bs, hcons', hlen'⟩ := hd d (by simp)
          rw [List.flatten_cons, List.flatten_cons] at h
          have hab : a = b := by
            rw [hcons, hcons', List.cons_append, List.cons_append] at h
            exact (List.cons.inj h).1
          obtain ⟨hcd, hrest⟩ := List.append_inj h (by rw [hlen, hlen', hab])
          rw [hcd, ih (fun e he => hc e (by simp [he])) (fun e he => hd e (by simp [he])) hrest]

end Utf8
