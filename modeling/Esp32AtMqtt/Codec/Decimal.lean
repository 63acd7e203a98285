import Mathlib.Algebra.Order.Ring.Nat
import Mathlib.Data.List.TakeWhile
import Mathlib.Tactic.Common

/-!
# Decimal numbers in texts

A text is a list of ASCII bytes. `text n` is how a number is printed, and `value ds` what some
digits are worth. A C library reads a number as `scan` does: it skips white space, takes one sign,
and then the digits up to the first byte that is none. So digits are read as they are whatever
stands behind them, if it is no digit (`scan_append`).
-/

namespace Decimal

/-- `isdigit`. -/
def isDigit (b : UInt8) : Bool := 0x30 ≤ b && b ≤ 0x39

/-- `isspace`. -/
def isSpace (b : UInt8) : Bool := b = 0x20 || 0x09 ≤ b && b ≤ 0x0D

/-- What a digit is worth. -/
def digitValue (b : UInt8) : ℕ := b.toNat - 0x30

/-- What some digits are worth. -/
def value (ds : List UInt8) : ℕ := ds.foldl (fun total b => 10 * total + digitValue b) 0

/-- A number as it is printed. -/
def text (n : ℕ) : List UInt8 := (Nat.toDigits 10 n).map fun c => UInt8.ofNat c.toNat

/-- What is read from the front of a text: whether the number is negative, and its digits. -/
def scan (s : List UInt8) : Bool × List UInt8 :=
  match s.dropWhile isSpace with
  | [] => (false, [])
  | b :: rest =>
      if b = 0x2D then (true, rest.takeWhile isDigit)
      else if b = 0x2B then (false, rest.takeWhile isDigit)
      else (false, (b :: rest).takeWhile isDigit)

/-! ## Values -/

theorem value_append_singleton (ds : List UInt8) (b : UInt8) :
    value (ds ++ [b]) = 10 * value ds + digitValue b := by
  rw [value, List.foldl_append]
  rfl

/-- The digits of a number smaller than ten. -/
theorem toNat_digitChar {d : ℕ} (h : d < 10) :
    isDigit (UInt8.ofNat (Nat.digitChar d).toNat) = true ∧
      digitValue (UInt8.ofNat (Nat.digitChar d).toNat) = d := by
  have hall : ∀ d : Fin 10, isDigit (UInt8.ofNat (Nat.digitChar d.val).toNat) = true ∧
      digitValue (UInt8.ofNat (Nat.digitChar d.val).toNat) = d.val := by
    decide
  exact hall ⟨d, h⟩

/-- A number is printed digit by digit. -/
theorem text_eq (n : ℕ) :
    text n = (if n < 10 then [] else text (n / 10)) ++
      [UInt8.ofNat (Nat.digitChar (n % 10)).toNat] := by
  rw [text, Nat.toDigits_eq_if (by decide)]
  by_cases h : n < 10
  · rw [if_pos h, if_pos h, Nat.mod_eq_of_lt h]
    rfl
  · rw [if_neg h, if_neg h, List.map_append]
    rfl

theorem isDigit_text (n : ℕ) : ∀ b ∈ text n, isDigit b = true := by
  induction n using Nat.strongRecOn with
  | ind n ih =>
      intro b hb
      rw [text_eq] at hb
      rcases List.mem_append.mp hb with hb | hb
      · split_ifs at hb with h
        · exact absurd hb List.not_mem_nil
        · exact ih (n / 10) (by omega) b hb
      · obtain rfl := List.mem_singleton.mp hb
        exact (toNat_digitChar (Nat.mod_lt n (by decide))).1

theorem value_text (n : ℕ) : value (text n) = n := by
  induction n using Nat.strongRecOn with
  | ind n ih =>
      have hlast := (toNat_digitChar (Nat.mod_lt n (by decide))).2
      rw [text_eq, value_append_singleton, hlast]
      by_cases h : n < 10
      · rw [if_pos h]
        show 10 * 0 + n % 10 = n
        omega
      · rw [if_neg h, ih (n / 10) (by omega)]
        omega

theorem text_ne_nil (n : ℕ) : text n ≠ [] := by
  rw [text_eq]
  exact List.append_ne_nil_of_right_ne_nil _ (List.cons_ne_nil _ _)

theorem length_text_le_iff {n k : ℕ} (hk : 0 < k) : (text n).length ≤ k ↔ n < 10 ^ k := by
  rw [text, List.length_map]
  exact Nat.length_toDigits_le_iff (by decide) hk

/-! ## Reading -/

/-- The digits end before the first byte that is none. -/
theorem takeWhile_isDigit {ds rest : List UInt8} (hds : ∀ b ∈ ds, isDigit b = true)
    (hrest : ∀ b ∈ rest.head?, isDigit b = false) : (ds ++ rest).takeWhile isDigit = ds := by
  rw [List.takeWhile_append_of_pos hds]
  cases rest with
  | nil => rw [List.takeWhile_nil, List.append_nil]
  | cons b rest =>
      rw [List.takeWhile_cons_of_neg (by simp [hrest b rfl]), List.append_nil]

theorem not_isSpace_of_isDigit {b : UInt8} (h : isDigit b = true) :
    isSpace b = false ∧ b ≠ 0x2D ∧ b ≠ 0x2B := by
  have hge : 0x30 ≤ b := of_decide_eq_true (Bool.and_eq_true_iff.mp h).1
  have hnat : 48 ≤ b.toNat := UInt8.le_iff_toNat_le.mp hge
  have hne : ∀ c : UInt8, c.toNat < 48 → b ≠ c := by
    rintro c hc rfl
    omega
  have hcontrol : ¬ b ≤ 0x0D := by
    intro hle
    have hthirteen : b.toNat ≤ 13 := UInt8.le_iff_toNat_le.mp hle
    omega
  refine ⟨?_, hne _ (by decide), hne _ (by decide)⟩
  rw [isSpace, decide_eq_false (hne 0x20 (by decide)), decide_eq_false hcontrol, Bool.and_false,
    Bool.or_false]

/-- Digits are read as they are. -/
theorem scan_append {ds rest : List UInt8} (hne : ds ≠ []) (hds : ∀ b ∈ ds, isDigit b = true)
    (hrest : ∀ b ∈ rest.head?, isDigit b = false) : scan (ds ++ rest) = (false, ds) := by
  obtain ⟨b, ds, rfl⟩ := List.exists_cons_of_ne_nil hne
  obtain ⟨hspace, hminus, hplus⟩ := not_isSpace_of_isDigit (hds b List.mem_cons_self)
  have hskip : (b :: ds ++ rest).dropWhile isSpace = b :: (ds ++ rest) := by
    rw [List.cons_append, List.dropWhile_cons_of_neg (by simp [hspace])]
  rw [scan, hskip]
  dsimp only
  rw [if_neg hminus, if_neg hplus, ← List.cons_append, takeWhile_isDigit hds hrest]

end Decimal
