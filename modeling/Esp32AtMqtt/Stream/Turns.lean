import Mathlib.Data.List.Basic
import Mathlib.Data.List.TakeWhile
import Mathlib.Data.Nat.Bitwise
import Mathlib.Algebra.BigOperators.Group.List.Basic
import Mathlib.Algebra.Order.BigOperators.Group.List

/-!
# Taking turns

`wait w t l` is what those who are in front of `t` in the queue `l` weigh together. It does not
grow when somebody leaves, comes, or has less left.

`FirstSet v n` says that `n` is the first bit of `v` that is set. It can be looked for piece by
piece.
-/

namespace Turns

section Wait

variable {τ : Type*} [DecidableEq τ] {w w' : τ → ℕ} {t u : τ} {l r : List τ}

/-- The weight of all who are in front of `t`. -/
def wait (w : τ → ℕ) (t : τ) : List τ → ℕ
  | [] => 0
  | u :: l => if u = t then 0 else w u + wait w t l

theorem wait_cons_of_ne (h : u ≠ t) : wait w t (u :: l) = w u + wait w t l := if_neg h

/-- Who comes is put behind. -/
theorem wait_append (h : t ∈ l) : wait w t (l ++ r) = wait w t l := by
  induction l with
  | nil => exact absurd h List.not_mem_nil
  | cons u l ih =>
      rw [List.cons_append, wait, wait]
      split_ifs with hu
      · rfl
      · rw [ih ((List.mem_cons.mp h).resolve_left fun heq => hu heq.symm)]

/-- Somebody else leaves. -/
theorem wait_erase_le (h : u ≠ t) : wait w t (l.erase u) ≤ wait w t l := by
  induction l with
  | nil => exact Nat.le_refl _
  | cons v l ih =>
      by_cases hv : v = u
      · subst hv
        rw [List.erase_cons_head, wait_cons_of_ne h]
        exact Nat.le_add_left _ _
      · rw [List.erase_cons_tail (by simpa using hv), wait, wait]
        split_ifs
        · exact Nat.le_refl _
        · exact Nat.add_le_add_left ih _

theorem wait_congr (h : ∀ u ∈ l, u ≠ t → w' u = w u) : wait w' t l = wait w t l := by
  induction l with
  | nil => rfl
  | cons u l ih =>
      rw [wait, wait]
      split_ifs with hu
      · rfl
      · rw [h u List.mem_cons_self hu, ih fun v hv => h v (List.mem_cons_of_mem u hv)]

end Wait

section FirstSet

/-- The first bit that is set. -/
def FirstSet (v n : ℕ) : Prop := v.testBit n = true ∧ ∀ i < n, v.testBit i = false

instance (v n : ℕ) : Decidable (FirstSet v n) :=
  inferInstanceAs (Decidable (v.testBit n = true ∧ ∀ i < n, v.testBit i = false))

variable {v k m n : ℕ}

/-- What a mask of `m` ones at `k` leaves. -/
theorem and_mask (v k m : ℕ) : v &&& ((2 ^ m - 1) * 2 ^ k) = v / 2 ^ k % 2 ^ m * 2 ^ k := by
  apply Nat.eq_of_testBit_eq
  intro i
  rw [Nat.testBit_and, Nat.testBit_mul_two_pow, Nat.testBit_mul_two_pow,
    Nat.testBit_two_pow_sub_one, Nat.testBit_mod_two_pow, Nat.testBit_div_two_pow]
  by_cases hi : k ≤ i
  · rw [Nat.sub_add_cancel hi]
    simp [hi, Bool.and_comm]
  · simp [hi]

/-- The first bit of a piece is the first one of all when nothing below is set. -/
theorem FirstSet.of_piece (hlow : v % 2 ^ k = 0) (h : FirstSet (v / 2 ^ k % 2 ^ m) n) :
    FirstSet v (n + k) := by
  obtain ⟨hset, hbelow⟩ := h
  rw [Nat.testBit_mod_two_pow, Nat.testBit_div_two_pow, Bool.and_eq_true, decide_eq_true_iff]
    at hset
  refine ⟨hset.2, fun i hi => ?_⟩
  by_cases hik : k ≤ i
  · have hnot := hbelow (i - k) (by omega)
    rw [Nat.testBit_mod_two_pow, Nat.testBit_div_two_pow, Nat.sub_add_cancel hik] at hnot
    simpa [show i - k < m by omega] using hnot
  · have hmod : (v % 2 ^ k).testBit i = false := by rw [hlow, Nat.zero_testBit]
    rw [Nat.testBit_mod_two_pow] at hmod
    simpa [Nat.not_le.mp hik] using hmod

end FirstSet

end Turns
