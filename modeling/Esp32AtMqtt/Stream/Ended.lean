import Mathlib.Data.List.Infix

/-!
# Texts with an end mark

In an array a text stands in front of the first mark, and what is behind the mark does not
belong to it.
-/

namespace Ended

variable {A : Type*} [DecidableEq A] {z : A} {s : List A}

/-- The text in front of the first mark, or all of the array. -/
def upTo (z : A) (s : List A) : List A := s.takeWhile (· ≠ z)

theorem front_upTo (z : A) (s : List A) : upTo z s <+: s := List.takeWhile_prefix _

theorem not_mem_upTo (z : A) (s : List A) : z ∉ upTo z s := by
  intro hmem
  have hall := List.all_eq_true.mp List.all_takeWhile z hmem
  exact of_decide_eq_true hall rfl

/-- Elements in front that are no marks. -/
theorem upTo_append (h : z ∉ s) (rest : List A) : upTo z (s ++ rest) = s ++ upTo z rest := by
  apply List.takeWhile_append_of_pos
  intro a ha
  exact decide_eq_true fun hmark => h (hmark ▸ ha)

theorem upTo_append_mark (h : z ∉ s) (rest : List A) : upTo z (s ++ z :: rest) = s := by
  have hmark : upTo z (z :: rest) = [] := List.takeWhile_cons_of_neg (by simp)
  rw [upTo_append h, hmark, List.append_nil]

theorem upTo_eq_self (h : z ∉ s) : upTo z s = s := by
  have hall := upTo_append h []
  have hnil : upTo z [] = [] := rfl
  rwa [List.append_nil, hnil, List.append_nil] at hall

theorem length_upTo_lt (h : z ∈ s) : (upTo z s).length < s.length := by
  apply Nat.lt_of_le_of_ne (front_upTo z s).length_le
  intro hlength
  have hself : upTo z s = s := (front_upTo z s).eq_of_length hlength
  exact not_mem_upTo z s (hself.symm ▸ h)

end Ended
