import Esp32AtMqtt.Codec.Utf8
import Esp32AtMqtt.Mqtt.Dispatch

/-!
# The string check of the MQTT SDK

`Mqtt_CheckUtf8` cuts the string into pieces, each as long as the table
`Mqtt_TrailingBytesForUTF8` says for its first byte, and asks `Mqtt_IsLegalUtf8` about
every piece. It asks about the start of the string each time, not about the piece, so a
piece passes when the start of the string, taken with the piece's length, is a legal
character.

A well-formed string therefore passes exactly when none of its characters is longer than
the first one, and some strings pass that are not well-formed. `CheckExact` is the
condition under which the answer is the right one.
-/

namespace Mqtt

open Utf8

/-- The length of a character as the table gives it. -/
def utf8Width (b : UInt8) : ℕ := mqttTrailingBytesForUTF8 b + 1

/-- What the scan asks of the pieces: that the start of the string is a legal character of
the same length, and that no later piece begins with a null byte. -/
structure Passes (str : List UInt8) (cs : List (List UInt8)) : Prop where
  legal : ∀ c ∈ cs, mqttIsLegalUtf8 str c.length = mqtterrNoerror
  no_null : ∀ c ∈ cs.tail, c.head? ≠ some 0

/-- The pieces are characters, and none of them is the null character. -/
structure Clean (cs : List (List UInt8)) : Prop where
  isChar : ∀ c ∈ cs, IsChar c
  no_null : 0 ∉ cs.flatten

/-- The check answers rightly: when the pieces are characters, none is longer than the
first; and when they are not, one of them does not pass. A string that cannot be cut into
pieces is refused. -/
def CheckExact (bs : List UInt8) : Prop :=
  ∀ cs, (∀ c ∈ cs, IsPiece utf8Width c) → cs.flatten = bs →
    Clean cs ∧ (∀ c ∈ cs, c.length ≤ (cs.headD []).length) ∨
      ¬ Clean cs ∧ ((∃ c ∈ cs.tail, c.head? = some 0) ∨
        ∃ c ∈ cs, mqttIsLegalUtf8 bs c.length ≠ mqtterrNoerror)

theorem trailingBytes_of_lt {b : UInt8} (h : b.toNat < 192) : mqttTrailingBytesForUTF8 b = 0 := by
  have hlt : b < 192 := UInt8.lt_iff_toNat_lt.mpr h
  rw [mqttTrailingBytesForUTF8, if_pos hlt]

/-- A character is as long as the table says for its first byte. -/
theorem isPiece_of_isChar {c : List UInt8} (h : IsChar c) : IsPiece utf8Width c := by
  match c, h with
  | [a], h =>
      simp only [IsChar, UInt8.le_iff_toNat_le, UInt8.reduceToNat] at h
      exact ⟨a, [], rfl, by simp [utf8Width, trailingBytes_of_lt (show a.toNat < 192 by omega)]⟩
  | [a, b], h =>
      simp only [IsChar, UInt8.le_iff_toNat_le, UInt8.reduceToNat] at h
      refine ⟨a, [b], rfl, ?_⟩
      simp only [utf8Width, mqttTrailingBytesForUTF8, UInt8.lt_iff_toNat_lt, UInt8.reduceToNat]
      rw [if_neg (by omega), if_pos (by omega)]
      rfl
  | [a, b, c], h =>
      simp only [IsChar, UInt8.le_iff_toNat_le, ← UInt8.toNat_inj, UInt8.reduceToNat] at h
      refine ⟨a, [b, c], rfl, ?_⟩
      simp only [utf8Width, mqttTrailingBytesForUTF8, UInt8.lt_iff_toNat_lt, UInt8.reduceToNat]
      rw [if_neg (by omega), if_neg (by omega), if_pos (by omega)]
      rfl
  | [a, b, c, d], h =>
      simp only [IsChar, UInt8.le_iff_toNat_le, ← UInt8.toNat_inj, UInt8.reduceToNat] at h
      refine ⟨a, [b, c, d], rfl, ?_⟩
      simp only [utf8Width, mqttTrailingBytesForUTF8, UInt8.lt_iff_toNat_lt, UInt8.reduceToNat]
      rw [if_neg (by omega), if_neg (by omega), if_neg (by omega), if_pos (by omega)]
      rfl

/-- The first byte of a character is no trailing byte. -/
theorem not_isTrailing_head {c : List UInt8} (h : IsChar c) {b : UInt8} (hb : c.head? = some b) :
    isTrailing b = false := by
  have hfirst : b.toNat < 128 ∨ 192 ≤ b.toNat := by
    match c, h with
    | [a], h | [a, _], h | [a, _, _], h | [a, _, _, _], h =>
        obtain rfl : a = b := by simpa using hb
        simp only [IsChar, UInt8.le_iff_toNat_le, ← UInt8.toNat_inj, UInt8.reduceToNat] at h
        omega
  rw [isTrailing, Bool.and_eq_false_iff, decide_eq_false_iff_not, decide_eq_false_iff_not]
  simp only [UInt8.le_iff_toNat_le, UInt8.reduceToNat]
  omega

/-- The test of the first byte in `Mqtt_IsLegalUtf8`. -/
theorem firstLegal_iff (b : UInt8) :
    (! ((0x80 ≤ b && b < 0xC2) || b > 0xF4)) = true ↔
      (b.toNat < 0x80 ∨ 0xC2 ≤ b.toNat) ∧ b.toNat ≤ 0xF4 := by
  simp only [Bool.not_eq_true', Bool.or_eq_false_iff, Bool.and_eq_false_iff,
    decide_eq_false_iff_not, UInt8.le_iff_toNat_le, UInt8.lt_iff_toNat_lt, gt_iff_lt,
    UInt8.reduceToNat]
  omega

theorem ite_noerror_iff (b : Bool) :
    (if b then mqtterrNoerror else mqtterrNotUtf8) = mqtterrNoerror ↔ b = true := by
  revert b
  decide

/-- `Mqtt_IsLegalUtf8` with the conditions written out. -/
theorem mqttIsLegalUtf8_eq_noerror_iff (str : List UInt8) (len : ℕ) :
    mqttIsLegalUtf8 str len = mqtterrNoerror ↔
      (1 ≤ len ∧ len ≤ 4) ∧ (∀ j, 1 ≤ j → j < len → isTrailing (str.getD j 0) = true) ∧
        (2 ≤ len → isLegalSecond (str.getD 0 0) (str.getD 1 0) = true) ∧
        ((str.getD 0 0).toNat < 0x80 ∨ 0xC2 ≤ (str.getD 0 0).toNat) ∧
        (str.getD 0 0).toNat ≤ 0xF4 := by
  rw [← firstLegal_iff]
  match len with
  | 0 =>
      refine (ite_noerror_iff _).trans (iff_of_false Bool.false_ne_true fun h => ?_)
      exact absurd h.1.1 (by omega)
  | 1 =>
      refine (ite_noerror_iff _).trans ⟨fun h => ⟨⟨by omega, by omega⟩, fun j h1 h2 => by omega,
        fun h2 => by omega, h⟩, fun h => h.2.2.2⟩
  | 2 =>
      refine (ite_noerror_iff _).trans ?_
      simp only [Bool.and_eq_true]
      refine ⟨fun h => ⟨⟨by omega, by omega⟩, fun j h1 h2 => ?_, fun _ => h.1.2, h.2⟩, fun h =>
        ⟨⟨h.2.1 1 le_rfl (by omega), h.2.2.1 le_rfl⟩, h.2.2.2⟩⟩
      obtain rfl : j = 1 := by omega
      exact h.1.1
  | 3 =>
      refine (ite_noerror_iff _).trans ?_
      simp only [Bool.and_eq_true]
      refine ⟨fun h => ⟨⟨by omega, by omega⟩, fun j h1 h2 => ?_, fun _ => h.1.2, h.2⟩, fun h =>
        ⟨⟨⟨h.2.1 2 (by omega) (by omega), h.2.1 1 le_rfl (by omega)⟩, h.2.2.1 (by omega)⟩,
          h.2.2.2⟩⟩
      obtain rfl | rfl : j = 1 ∨ j = 2 := by omega
      · exact h.1.1.2
      · exact h.1.1.1
  | 4 =>
      refine (ite_noerror_iff _).trans ?_
      simp only [Bool.and_eq_true]
      refine ⟨fun h => ⟨⟨by omega, by omega⟩, fun j h1 h2 => ?_, fun _ => h.1.2, h.2⟩, fun h =>
        ⟨⟨⟨⟨h.2.1 3 (by omega) (by omega), h.2.1 2 (by omega) (by omega)⟩,
          h.2.1 1 le_rfl (by omega)⟩, h.2.2.1 (by omega)⟩, h.2.2.2⟩⟩
      obtain rfl | rfl | rfl : j = 1 ∨ j = 2 ∨ j = 3 := by omega
      · exact h.1.1.2
      · exact h.1.1.1.2
      · exact h.1.1.1.1
  | n + 5 =>
      refine (ite_noerror_iff _).trans (iff_of_false Bool.false_ne_true fun h => ?_)
      exact absurd h.1.2 (by omega)

theorem isTrailing_iff (b : UInt8) : isTrailing b = true ↔ 0x80 ≤ b.toNat ∧ b.toNat ≤ 0xBF := by
  simp only [isTrailing, Bool.and_eq_true, decide_eq_true_eq, UInt8.le_iff_toNat_le,
    UInt8.reduceToNat]

theorem isTail_iff (b : UInt8) : IsTail b ↔ 0x80 ≤ b.toNat ∧ b.toNat ≤ 0xBF := by
  simp only [IsTail, UInt8.le_iff_toNat_le, UInt8.reduceToNat]

theorem isLegalSecond_iff (first bv : UInt8) :
    isLegalSecond first bv = true ↔
      (first.toNat = 0xE0 → 0xA0 ≤ bv.toNat) ∧ (first.toNat = 0xED → bv.toNat ≤ 0x9F) ∧
        (first.toNat = 0xF0 → 0x90 ≤ bv.toNat) ∧ (first.toNat = 0xF4 → bv.toNat ≤ 0x8F) := by
  simp only [isLegalSecond, ← UInt8.toNat_inj, UInt8.reduceToNat]
  split_ifs <;>
    simp only [Bool.not_eq_true', decide_eq_false_iff_not, UInt8.lt_iff_toNat_lt, gt_iff_lt,
      UInt8.reduceToNat, true_iff] <;> omega

/-- A piece that `Mqtt_IsLegalUtf8` takes for legal is a character, and the other way
round. -/
theorem isChar_iff_legal {c : List UInt8} (h : IsPiece utf8Width c) (rest : List UInt8) :
    IsChar c ↔ mqttIsLegalUtf8 (c ++ rest) c.length = mqtterrNoerror := by
  obtain ⟨a, as, rfl, hlen⟩ := h
  rw [mqttIsLegalUtf8_eq_noerror_iff]
  simp only [utf8Width, mqttTrailingBytesForUTF8, UInt8.lt_iff_toNat_lt, UInt8.reduceToNat,
    List.length_cons] at hlen
  match as with
  | [] =>
      have ha : a.toNat < 192 := by
        simp only [List.length_nil] at hlen
        split_ifs at hlen <;> omega
      simp only [IsChar, List.singleton_append, List.getD_cons_zero, UInt8.le_iff_toNat_le,
        UInt8.reduceToNat, List.length_singleton]
      exact ⟨fun h => ⟨⟨le_rfl, by omega⟩, fun j h1 h2 => by omega, fun h2 => by omega,
        .inl (by omega), by omega⟩, fun h => by omega⟩
  | [b] =>
      have ha : 192 ≤ a.toNat ∧ a.toNat < 224 := by
        simp only [List.length_cons, List.length_nil] at hlen
        split_ifs at hlen <;> omega
      simp only [IsChar, isTail_iff, isTrailing_iff, isLegalSecond_iff, List.cons_append,
        List.nil_append, List.getD_cons_zero, List.getD_cons_succ, UInt8.le_iff_toNat_le,
        UInt8.reduceToNat, List.length_cons, List.length_nil]
      refine ⟨fun h => ⟨⟨by omega, by omega⟩, fun j h1 h2 => ?_, fun _ => by omega, by omega,
        by omega⟩, fun h => ?_⟩
      · obtain rfl : j = 1 := by omega
        exact h.2.2
      · have h1 := h.2.1 1 le_rfl (by omega)
        simp only [List.getD_cons_succ, List.getD_cons_zero] at h1
        omega
  | [b, c] =>
      have ha : 224 ≤ a.toNat ∧ a.toNat < 240 := by
        simp only [List.length_cons, List.length_nil] at hlen
        split_ifs at hlen <;> omega
      simp only [IsChar, isTail_iff, isTrailing_iff, isLegalSecond_iff, List.cons_append,
        List.nil_append, List.getD_cons_zero, List.getD_cons_succ, UInt8.le_iff_toNat_le,
        ← UInt8.toNat_inj, UInt8.reduceToNat, List.length_cons, List.length_nil]
      refine ⟨fun h => ⟨⟨by omega, by omega⟩, fun j h1 h2 => ?_, fun _ => by omega, by omega,
        by omega⟩, fun h => ?_⟩
      · obtain rfl | rfl : j = 1 ∨ j = 2 := by omega
        all_goals simp only [List.getD_cons_succ, List.getD_cons_zero]; omega
      · have h1 := h.2.1 1 le_rfl (by omega)
        have h2 := h.2.1 2 (by omega) (by omega)
        have hsecond := h.2.2.1 (by omega)
        simp only [List.getD_cons_succ, List.getD_cons_zero] at h1 h2
        omega
  | [b, c, d] =>
      have ha : 240 ≤ a.toNat ∧ a.toNat < 248 := by
        simp only [List.length_cons, List.length_nil] at hlen
        split_ifs at hlen <;> omega
      simp only [IsChar, isTail_iff, isTrailing_iff, isLegalSecond_iff, List.cons_append,
        List.nil_append, List.getD_cons_zero, List.getD_cons_succ, UInt8.le_iff_toNat_le,
        ← UInt8.toNat_inj, UInt8.reduceToNat, List.length_cons, List.length_nil]
      refine ⟨fun h => ⟨⟨by omega, by omega⟩, fun j h1 h2 => ?_, fun _ => by omega, by omega,
        by omega⟩, fun h => ?_⟩
      · obtain rfl | rfl | rfl : j = 1 ∨ j = 2 ∨ j = 3 := by omega
        all_goals simp only [List.getD_cons_succ, List.getD_cons_zero]; omega
      · have h1 := h.2.1 1 le_rfl (by omega)
        have h2 := h.2.1 2 (by omega) (by omega)
        have h3 := h.2.1 3 (by omega) (by omega)
        have hsecond := h.2.2.1 (by omega)
        simp only [List.getD_cons_succ, List.getD_cons_zero] at h1 h2 h3
        omega
  | _ :: _ :: _ :: _ :: _ =>
      refine iff_of_false (fun h => h) fun h => ?_
      have hfour := h.1.2
      simp only [List.length_cons] at hfour
      omega

/-- The piece at an index of the string, when it is not cut off. -/
theorem exists_piece {str : List UInt8} {len i : ℕ} (hlen : len ≤ str.length) (hi : i < len)
    (hfits : i + utf8Width (str.getD i 0) ≤ len) :
    ∃ c, IsPiece utf8Width c ∧ c.length = utf8Width (str.getD i 0) ∧
      (str.take len).drop i = c ++ (str.take len).drop (i + c.length) := by
  have hlt : i < str.length := by omega
  have hget : str.getD i 0 = str[i] := by
    rw [List.getD_eq_getElem?_getD, List.getElem?_eq_getElem hlt, Option.getD_some]
  have hdrop : (str.take len).drop i = str[i] :: (str.take len).drop (i + 1) := by
    rw [List.drop_eq_getElem_cons (by rw [List.length_take]; omega), List.getElem_take]
  have hmany : ((str.take len).drop i).length = len - i := by
    rw [List.length_drop, List.length_take]
    omega
  set w := utf8Width (str.getD i 0) with hw
  have hpos : 0 < w := by
    rw [hw, utf8Width]
    omega
  have hwlen : (((str.take len).drop i).take w).length = w := by
    rw [List.length_take]
    omega
  refine ⟨((str.take len).drop i).take w, ⟨str[i], ((str.take len).drop (i + 1)).take (w - 1), ?_, ?_⟩,
    hwlen, ?_⟩
  · obtain ⟨n, hn⟩ : ∃ n, w = n + 1 := ⟨w - 1, by omega⟩
    rw [hdrop, hn, List.take_succ_cons, Nat.add_sub_cancel]
  · rw [hwlen, hw, hget]
  · rw [hwlen, ← List.drop_drop, List.take_append_drop]

/-- A piece at the index `i` of the string. -/
theorem piece_at {str c : List UInt8} {len i : ℕ} {cs : List (List UInt8)}
    (hlen : len ≤ str.length) (hc : IsPiece utf8Width c)
    (hflat : (str.take len).drop i = (c :: cs).flatten) :
    i < len ∧ i + c.length ≤ len ∧ c.head? = some (str.getD i 0) ∧
      c.length = utf8Width (str.getD i 0) ∧
      (str.take len).drop (i + c.length) = cs.flatten := by
  obtain ⟨b, t, rfl, hwidth⟩ := hc
  have htotal := congrArg List.length hflat
  rw [List.flatten_cons, List.length_append, List.length_drop, List.length_take,
    List.length_cons] at htotal
  have hhere : i < len := by omega
  have hhead := congrArg List.head? hflat
  rw [List.head?_drop, List.getElem?_take_of_lt hhere, List.flatten_cons, List.cons_append,
    List.head?_cons] at hhead
  have hget : str.getD i 0 = b := by
    rw [List.getD_eq_getElem?_getD, hhead, Option.getD_some]
  refine ⟨hhere, ?_, by rw [hget, List.head?_cons], by rw [hget, hwidth], ?_⟩
  · rw [List.length_cons]
    omega
  · rw [← List.drop_drop, hflat, List.flatten_cons, List.drop_left' rfl]

theorem passes_cons {str c : List UInt8} {cs : List (List UInt8)} :
    Passes str (c :: cs) ↔ mqttIsLegalUtf8 str c.length = mqtterrNoerror ∧
      (∀ d ∈ cs.head?, d.head? ≠ some 0) ∧ Passes str cs := by
  constructor
  · intro h
    exact ⟨h.legal c (by simp), fun d hd => h.no_null d (List.mem_of_mem_head? hd),
      fun d hd => h.legal d (by simp [hd]), fun d hd => h.no_null d (List.mem_of_mem_tail hd)⟩
  · rintro ⟨hlegal, hnull, h⟩
    refine ⟨List.forall_mem_cons.mpr ⟨hlegal, h.legal⟩, fun d hd => ?_⟩
    cases cs with
    | nil => simp at hd
    | cons e es =>
        rcases List.mem_cons.mp hd with rfl | hd
        · exact hnull d (by simp)
        · exact h.no_null d hd

/-- An error code of the check is no index. -/
theorem legalCode_ne (str : List UInt8) (len n : ℕ)
    (h : mqttIsLegalUtf8 str len ≠ mqtterrNoerror) : mqttIsLegalUtf8 str len ≠ n := by
  have hcode : ∀ b : Bool, (if b then mqtterrNoerror else mqtterrNotUtf8) ≠ mqtterrNoerror →
      (if b then mqtterrNoerror else mqtterrNotUtf8) = -6 := by
    decide
  have hsix : mqttIsLegalUtf8 str len = -6 := hcode _ h
  omega

/-- The scan from the index `i` on, over a string that can be cut into pieces from there:
the induction is on the pieces. -/
theorem checkUtf8Loop_eq_iff {str : List UInt8} {len : ℕ} (hlen : len ≤ str.length)
    (cs : List (List UInt8)) :
    ∀ fuel i : ℕ, (∀ c ∈ cs, IsPiece utf8Width c) → (str.take len).drop i = cs.flatten →
      i ≤ len → len - i ≤ fuel → (mqttCheckUtf8Loop str len fuel i = len ↔ Passes str cs) := by
  induction cs with
  | nil =>
      intro fuel i _ hflat hi _
      have hend : i = len := by
        have hzero := congrArg List.length hflat
        rw [List.length_drop, List.length_take, List.flatten_nil, List.length_nil] at hzero
        omega
      subst hend
      refine iff_of_true ?_ ⟨by simp, by simp⟩
      cases fuel <;> simp [mqttCheckUtf8Loop]
  | cons c cs ih =>
      intro fuel i hpieces hflat hi hfuel
      have hc := hpieces c (by simp)
      have hcs := fun d hd => hpieces d (List.mem_cons_of_mem c hd)
      obtain ⟨hhere, hfits, -, hwidth, hrest⟩ := piece_at hlen hc hflat
      have hpos : 0 < c.length := by
        rw [hwidth, utf8Width]
        omega
      obtain ⟨n, rfl⟩ : ∃ n, fuel = n + 1 := ⟨fuel - 1, by omega⟩
      rw [utf8Width] at hwidth
      rw [mqttCheckUtf8Loop, if_pos hhere]
      simp only [← hwidth]
      rw [if_neg (by omega), passes_cons]
      by_cases hlegal : mqttIsLegalUtf8 str c.length = mqtterrNoerror
      · rw [if_neg (not_not.mpr hlegal)]
        by_cases hnull : str.getD (i + c.length) 0 = 0
        · -- a null byte ends the scan, behind the last piece or before
          rw [if_pos hnull]
          cases cs with
          | nil =>
              have hend : i + c.length = len := by
                have hzero := congrArg List.length hrest
                rw [List.length_drop, List.length_take, List.flatten_nil, List.length_nil] at hzero
                omega
              exact iff_of_true (by rw [hend]) ⟨hlegal, by simp, by simp, by simp⟩
          | cons d ds =>
              obtain ⟨hbefore, -, hhead, -⟩ := piece_at hlen (hcs d (by simp)) hrest
              rw [hnull] at hhead
              refine iff_of_false (by omega) fun h => h.2.1 d (by simp) hhead
        · rw [if_neg hnull, ih n (i + c.length) hcs hrest hfits (by omega)]
          refine ⟨fun h => ⟨hlegal, fun d hd hzero => ?_, h⟩, fun h => h.2.2⟩
          obtain ⟨ds, rfl⟩ := List.head?_eq_some_iff.mp hd
          obtain ⟨-, -, hhead, -⟩ := piece_at hlen (hcs d (by simp)) hrest
          exact hnull (Option.some.inj (hhead.symm.trans hzero))
      · rw [if_pos hlegal]
        exact iff_of_false (legalCode_ne str c.length len hlegal) fun h => hlegal h.1

/-- A string that passes can be cut into pieces. -/
theorem exists_pieces_of_checkUtf8Loop {str : List UInt8} {len : ℕ} (hlen : len ≤ str.length)
    (fuel : ℕ) :
    ∀ i ≤ len, mqttCheckUtf8Loop str len fuel i = len →
      ∃ cs : List (List UInt8), (∀ c ∈ cs, IsPiece utf8Width c) ∧
        cs.flatten = (str.take len).drop i := by
  have hend : ∃ cs : List (List UInt8), (∀ c ∈ cs, IsPiece utf8Width c) ∧
      cs.flatten = (str.take len).drop len :=
    ⟨[], by simp, by rw [List.drop_of_length_le (List.length_take_le len str)]; rfl⟩
  induction fuel with
  | zero =>
      intro i _ h
      have hi : i = len := Int.ofNat_inj.mp h
      exact hi ▸ hend
  | succ n ih =>
      intro i hle h
      rcases Nat.lt_or_ge i len with hhere | hge
      · rw [mqttCheckUtf8Loop, if_pos hhere] at h
        simp only at h
        by_cases hcut : i + (mqttTrailingBytesForUTF8 (str.getD i 0) + 1) > len
        · rw [if_pos hcut, mqtterrNotUtf8] at h
          omega
        · obtain ⟨c, hc, hwidth, hsplit⟩ := exists_piece hlen hhere (Nat.not_lt.mp hcut)
          rw [utf8Width] at hwidth
          rw [if_neg hcut, ← hwidth] at h
          by_cases hlegal : mqttIsLegalUtf8 str c.length = mqtterrNoerror
          · have hrest : ∃ cs : List (List UInt8), (∀ c ∈ cs, IsPiece utf8Width c) ∧
                cs.flatten = (str.take len).drop (i + c.length) := by
              rw [if_neg (not_not.mpr hlegal)] at h
              split_ifs at h with hnull
              · have hi : i + c.length = len := Int.ofNat_inj.mp h
                exact hi ▸ hend
              · exact ih (i + c.length) (by omega) h
            obtain ⟨cs, hcs, hflat⟩ := hrest
            exact ⟨c :: cs, List.forall_mem_cons.mpr ⟨hc, hcs⟩, by
              rw [List.flatten_cons, hflat, ← hsplit]⟩
          · rw [if_pos hlegal] at h
            exact absurd h (legalCode_ne str c.length len hlegal)
      · exact (Nat.le_antisymm hle hge) ▸ hend

/-- `Mqtt_CheckUtf8` answers the length of the string exactly when the string can be cut
into pieces that all pass. -/
theorem mqttCheckUtf8_eq_iff {str : List UInt8} {len : ℕ} (hlen : len ≤ str.length) :
    mqttCheckUtf8 str len = len ↔
      ∃ cs, (∀ c ∈ cs, IsPiece utf8Width c) ∧ cs.flatten = str.take len ∧ Passes str cs := by
  constructor
  · intro h
    obtain ⟨cs, hcs, hflat⟩ := exists_pieces_of_checkUtf8Loop hlen len 0 (Nat.zero_le _) h
    refine ⟨cs, hcs, by rw [hflat, List.drop_zero], ?_⟩
    exact (checkUtf8Loop_eq_iff hlen cs len 0 hcs (by rw [List.drop_zero, hflat, List.drop_zero])
      (Nat.zero_le _) le_rfl).mp h
  · rintro ⟨cs, hcs, hflat, hpass⟩
    exact (checkUtf8Loop_eq_iff hlen cs len 0 hcs (by rw [List.drop_zero, hflat])
      (Nat.zero_le _) le_rfl).mpr hpass

/-- The start of a string is a legal character of every length up to that of a legal
one. -/
theorem legal_of_le {str : List UInt8} {k l : ℕ} (h : mqttIsLegalUtf8 str l = mqtterrNoerror)
    (hk : 1 ≤ k) (hle : k ≤ l) : mqttIsLegalUtf8 str k = mqtterrNoerror := by
  rw [mqttIsLegalUtf8_eq_noerror_iff] at h ⊢
  obtain ⟨⟨-, hfour⟩, htrail, hsecond, hfirst⟩ := h
  exact ⟨⟨hk, hle.trans hfour⟩, fun j h1 h2 => htrail j h1 (by omega), fun h2 =>
    hsecond (h2.trans hle), hfirst⟩

/-- The bytes behind the string are not looked at. -/
theorem legal_append {bs : List UInt8} (rest : List UInt8) {k : ℕ} (hk : k ≤ bs.length) :
    mqttIsLegalUtf8 (bs ++ rest) k = mqtterrNoerror ↔
      mqttIsLegalUtf8 bs k = mqtterrNoerror := by
  have hget : ∀ j < bs.length, (bs ++ rest).getD j 0 = bs.getD j 0 := fun j hj => by
    rw [List.getD_eq_getElem?_getD, List.getElem?_append_left hj, List.getD_eq_getElem?_getD]
  rw [mqttIsLegalUtf8_eq_noerror_iff, mqttIsLegalUtf8_eq_noerror_iff]
  refine and_congr_right fun hbounds => ?_
  rw [hget 0 (by omega)]
  refine and_congr (forall_congr' fun j => ⟨fun h h1 h2 => ?_, fun h h1 h2 => ?_⟩)
    (and_congr_left fun _ => ⟨fun h h2 => ?_, fun h h2 => ?_⟩)
  · rw [← hget j (by omega)]
    exact h h1 h2
  · rw [hget j (by omega)]
    exact h h1 h2
  · rw [← hget 1 (by omega)]
    exact h h2
  · rw [hget 1 (by omega)]
    exact h h2

theorem length_le_flatten {c : List UInt8} {cs : List (List UInt8)} (h : c ∈ cs) :
    c.length ≤ cs.flatten.length := by
  obtain ⟨ds, es, rfl⟩ := List.append_of_mem h
  simp only [List.flatten_append, List.flatten_cons, List.length_append]
  omega

/-- A clean string passes exactly when none of its characters is longer than the first. -/
theorem Clean.passes_iff {cs : List (List UInt8)} (h : Clean cs) :
    Passes cs.flatten cs ↔ ∀ c ∈ cs, c.length ≤ (cs.headD []).length := by
  cases cs with
  | nil => exact iff_of_true ⟨by simp, by simp⟩ (by simp)
  | cons c cs =>
      have hc := h.isChar c (by simp)
      have hpiece := isPiece_of_isChar hc
      have hlegal : mqttIsLegalUtf8 (c :: cs).flatten c.length = mqtterrNoerror :=
        (isChar_iff_legal hpiece cs.flatten).mp hc
      rw [List.headD_cons]
      constructor
      · intro hpass d hd
        by_contra hlong
        -- another character follows the first one, so its first byte would have to be a tail
        cases cs with
        | nil =>
            obtain rfl : d = c := by simpa using hd
            exact hlong le_rfl
        | cons e es =>
            have hlt := Nat.not_le.mp hlong
            have hpos : 0 < c.length := List.length_pos_iff.mpr hc.ne_nil
            have htail := ((mqttIsLegalUtf8_eq_noerror_iff _ _).mp (hpass.legal d hd)).2.1
              c.length hpos hlt
            obtain ⟨b, t, rfl⟩ := List.exists_cons_of_ne_nil (h.isChar e (by simp)).ne_nil
            have hget : (c :: (b :: t) :: es).flatten.getD c.length 0 = b := by
              rw [List.flatten_cons, List.getD_eq_getElem?_getD, List.getElem?_append_right le_rfl]
              simp
            rw [hget, not_isTrailing_head (h.isChar (b :: t) (by simp)) rfl] at htail
            exact Bool.false_ne_true htail
      · intro hle
        refine ⟨fun d hd => ?_, fun d hd hzero => h.no_null ?_⟩
        · exact legal_of_le hlegal (List.length_pos_iff.mpr (h.isChar d hd).ne_nil) (hle d hd)
        · exact List.mem_flatten.mpr ⟨d, List.mem_of_mem_tail hd, List.mem_of_mem_head? hzero⟩

/-- A string is well-formed and without null bytes when its pieces are clean. -/
theorem wellFormed_iff_clean {cs : List (List UInt8)} (h : ∀ c ∈ cs, IsPiece utf8Width c) :
    WellFormed cs.flatten ∧ 0 ∉ cs.flatten ↔ Clean cs := by
  constructor
  · rintro ⟨⟨ds, hds, hflat⟩, hnull⟩
    have heq := eq_of_flatten_eq (fun d hd => isPiece_of_isChar (hds d hd)) h hflat
    exact ⟨heq ▸ hds, hnull⟩
  · exact fun hclean => ⟨⟨cs, hclean.isChar, rfl⟩, hclean.no_null⟩

/-- The check accepts exactly the well-formed strings without null bytes if and only if
the string is one on which it is exact; `t` is the byte behind the string. -/
theorem mqttCheckUtf8_exact_iff (bs : List UInt8) (t : UInt8) (rest : List UInt8) :
    (mqttCheckUtf8 (bs ++ t :: rest) bs.length = bs.length ↔ WellFormed bs ∧ 0 ∉ bs) ↔
      CheckExact bs := by
  have htake : (bs ++ t :: rest).take bs.length = bs := List.take_left' rfl
  have hcheck : mqttCheckUtf8 (bs ++ t :: rest) bs.length = bs.length ↔ _ :=
    mqttCheckUtf8_eq_iff (by simp)
  rw [htake] at hcheck
  rw [hcheck]
  by_cases hcut : ∃ cs : List (List UInt8), (∀ c ∈ cs, IsPiece utf8Width c) ∧ cs.flatten = bs
  · obtain ⟨cs, hcs, rfl⟩ := hcut
    have hunique : ∀ ds : List (List UInt8), (∀ d ∈ ds, IsPiece utf8Width d) →
        ds.flatten = cs.flatten → ds = cs := fun ds hds hflat => eq_of_flatten_eq hds hcs hflat
    have hpasses : Passes (cs.flatten ++ t :: rest) cs ↔ Passes cs.flatten cs :=
      ⟨fun h => ⟨fun c hc => (legal_append _ (length_le_flatten hc)).mp (h.legal c hc), h.no_null⟩,
        fun h => ⟨fun c hc => (legal_append _ (length_le_flatten hc)).mpr (h.legal c hc),
          h.no_null⟩⟩
    have haccept : (∃ ds : List (List UInt8), (∀ d ∈ ds, IsPiece utf8Width d) ∧
        ds.flatten = cs.flatten ∧ Passes (cs.flatten ++ t :: rest) ds) ↔ Passes cs.flatten cs :=
      ⟨fun ⟨ds, hds, hflat, h⟩ => hpasses.mp (hunique ds hds hflat ▸ h), fun h =>
        ⟨cs, hcs, rfl, hpasses.mpr h⟩⟩
    have hexact : CheckExact cs.flatten ↔
        (Clean cs ∧ (∀ c ∈ cs, c.length ≤ (cs.headD []).length) ∨
          ¬ Clean cs ∧ ((∃ c ∈ cs.tail, c.head? = some 0) ∨
            ∃ c ∈ cs, mqttIsLegalUtf8 cs.flatten c.length ≠ mqtterrNoerror)) :=
      ⟨fun h => h cs hcs rfl, fun h ds hds hflat => hunique ds hds hflat ▸ h⟩
    rw [haccept, wellFormed_iff_clean hcs, hexact]
    by_cases hclean : Clean cs
    · simp only [hclean, hclean.passes_iff, iff_true, true_and, not_true, false_and, or_false]
    · have hfails : ¬ Passes cs.flatten cs ↔ (∃ c ∈ cs.tail, c.head? = some 0) ∨
          ∃ c ∈ cs, mqttIsLegalUtf8 cs.flatten c.length ≠ mqtterrNoerror := by
        rw [← not_iff_not, not_not, not_or]
        push Not
        exact ⟨fun h => ⟨h.no_null, h.legal⟩, fun h => ⟨h.2, h.1⟩⟩
      simp only [hclean, iff_false, false_and, false_or, not_false_eq_true, true_and, hfails]
  · refine iff_of_true (iff_of_false ?_ ?_) fun cs hcs hflat => absurd ⟨cs, hcs, hflat⟩ hcut
    · rintro ⟨cs, hcs, hflat, -⟩
      exact hcut ⟨cs, hcs, hflat⟩
    · rintro ⟨⟨cs, hcs, hflat⟩, -⟩
      exact hcut ⟨cs, fun c hc => isPiece_of_isChar (hcs c hc), hflat⟩

/-- A string of ASCII characters passes: each of them is as long as the first. -/
theorem mqttCheckUtf8_ascii {bs : List UInt8} (hascii : ∀ b ∈ bs, b < 0x80) (h0 : 0 ∉ bs)
    (rest : List UInt8) : mqttCheckUtf8 (bs ++ rest) bs.length = bs.length := by
  have hchar : ∀ b ∈ bs, IsChar [b] := fun b hb => by
    have hlt := UInt8.lt_iff_toNat_lt.mp (hascii b hb)
    simp only [IsChar, UInt8.le_iff_toNat_le, UInt8.reduceToNat] at hlt ⊢
    omega
  refine (mqttCheckUtf8_eq_iff (by simp)).mpr ⟨bs.map fun b => [b], ?_, ?_, ?_, ?_⟩
  · intro c hc
    obtain ⟨b, hb, rfl⟩ := List.mem_map.mp hc
    exact isPiece_of_isChar (hchar b hb)
  · rw [List.take_left' rfl, ← List.flatMap_def, List.flatMap_singleton']
  · intro c hc
    obtain ⟨b, hb, rfl⟩ := List.mem_map.mp hc
    cases bs with
    | nil => cases hb
    | cons a as =>
        have ha := hchar a List.mem_cons_self
        exact (isChar_iff_legal (isPiece_of_isChar ha) (as ++ rest)).mp ha
  · intro c hc hzero
    obtain ⟨b, hb, rfl⟩ := List.mem_map.mp (List.mem_of_mem_tail hc)
    exact h0 (Option.some.inj hzero ▸ hb)

/-- The topic `aé` is well-formed, and refused: the start of the string is no character
of two bytes. -/
theorem mqttCheckUtf8_refuses_two_byte_char :
    ¬ (mqttCheckUtf8 [0x61, 0xC3, 0xA9, 0] 3 = 3 ↔
      WellFormed [0x61, 0xC3, 0xA9] ∧ 0 ∉ [0x61, 0xC3, 0xA9]) := by
  intro h
  have hwell : WellFormed [0x61, 0xC3, 0xA9] :=
    ⟨[[0x61], [0xC3, 0xA9]], by simp [IsChar, IsTail], rfl⟩
  exact absurd (h.mpr ⟨hwell, by decide⟩) (by decide)

/-- A trailing byte on its own is accepted behind a character of three bytes. -/
example : mqttCheckUtf8 [0xE2, 0x82, 0xAC, 0x82, 0] 4 = 4 := by decide

end Mqtt
