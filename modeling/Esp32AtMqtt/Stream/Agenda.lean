import Mathlib.Data.List.Perm.Basic
import Mathlib.Data.UInt
import Mathlib.Order.Lattice

/-!
# An agenda with a clock that wraps

`diff m a b` is the difference of two times on a clock that wraps at `m`. For times that are less
than half a turn apart it tells which one is later.

`place later t` puts an entry before the first one that is later. An agenda in an order stays in it.
-/

namespace Agenda

/-- `a - b` on a clock that wraps at `m`. -/
def diff (m a b : ℕ) : ℕ := (a % m + (m - b % m)) % m

section Diff

variable {m half a b : ℕ}

theorem diff_of_le (hle : b ≤ a) (hlt : a < b + m) : diff m a b = a - b := by
  have hmod : (a % m + (m - b % m)) % m = (a - b) % m := by
    have hb : b % m < m := Nat.mod_lt b (by omega)
    have ha := Nat.mod_add_div a m
    have hb' := Nat.mod_add_div b m
    have hsum : a % m + (m - b % m) + m * (a / m) = a - b + m * (b / m + 1) := by
      rw [Nat.mul_add, Nat.mul_one]
      omega
    rw [← Nat.add_mul_mod_self_left (a % m + (m - b % m)) m (a / m), hsum,
      Nat.add_mul_mod_self_left]
  rw [diff, hmod, Nat.mod_eq_of_lt (by omega)]

theorem diff_of_lt (hlt : a < b) (hle : b ≤ a + m) : diff m a b = m - (b - a) := by
  have hmod : a % m = (a + m) % m := (Nat.add_mod_right a m).symm
  have hdiff : diff m a b = diff m (a + m) b := by rw [diff, diff, hmod]
  rw [hdiff, diff_of_le hle (by omega)]
  omega

/-- Which of two times that are near each other is not earlier. -/
theorem diff_lt_iff (hm : 2 * half ≤ m) (ha : a < b + half) (hb : b < a + half) :
    diff m a b < half ↔ b ≤ a := by
  rcases Nat.lt_or_ge a b with hlt | hle
  · rw [diff_of_lt hlt (by omega)]
    omega
  · rw [diff_of_le hle (by omega)]
    omega

theorem diff_eq_zero_iff (hm : 2 * half ≤ m) (ha : a < b + half) (hb : b < a + half) :
    diff m a b = 0 ↔ a = b := by
  rcases Nat.lt_or_ge a b with hlt | hle
  · rw [diff_of_lt hlt (by omega)]
    omega
  · rw [diff_of_le hle (by omega)]
    omega

theorem toNat_sub_ofNat (a b : ℕ) :
    (UInt32.ofNat a - UInt32.ofNat b).toNat = diff (2 ^ 32) a b := by
  rw [UInt32.toNat_sub, UInt32.toNat_ofNat', UInt32.toNat_ofNat', diff, Nat.add_comm]

end Diff

/-- `t` is put before the first of the entries that are later. -/
def place {τ : Type*} (later : τ → Bool) (t : τ) : List τ → List τ
  | [] => [t]
  | u :: us => if later u then t :: u :: us else u :: place later t us

section Place

variable {τ : Type*} {later : τ → Bool} {t u : τ} {us : List τ}

theorem place_perm : (place later t us).Perm (t :: us) := by
  induction us with
  | nil => exact .refl _
  | cons u us ih =>
      rw [place]
      split_ifs
      · exact .refl _
      · exact (ih.cons u).trans (.swap t u us)

theorem mem_place : u ∈ place later t us ↔ u = t ∨ u ∈ us :=
  place_perm.mem_iff.trans List.mem_cons

theorem pairwise_place {R : τ → τ → Prop} (htrans : ∀ u v w, R u v → R v w → R u w)
    (hlater : ∀ u ∈ us, later u = true → R t u) (hnot : ∀ u ∈ us, later u = false → R u t)
    (h : us.Pairwise R) : (place later t us).Pairwise R := by
  induction us with
  | nil => exact List.pairwise_singleton R t
  | cons u us ih =>
      obtain ⟨hu, hus⟩ := List.pairwise_cons.mp h
      rw [place]
      split_ifs with hl
      · have htu := hlater u List.mem_cons_self hl
        refine List.pairwise_cons.mpr ⟨fun v hv => ?_, h⟩
        rcases List.mem_cons.mp hv with rfl | hv
        · exact htu
        · exact htrans t u v htu (hu v hv)
      · refine List.pairwise_cons.mpr ⟨fun v hv => ?_,
          ih (fun v hv => hlater v (List.mem_cons_of_mem u hv))
            (fun v hv => hnot v (List.mem_cons_of_mem u hv)) hus⟩
        rcases mem_place.mp hv with rfl | hv
        · exact hnot u List.mem_cons_self (by simpa using hl)
        · exact hu v hv

end Place

end Agenda
