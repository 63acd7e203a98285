import Mathlib.Algebra.Order.Ring.Nat
import Mathlib.Data.List.Nodup
import Mathlib.Logic.Function.Basic

/-!
# Delta lists

A list of entries that are due one after another, where each stores how long after the one before
it: `Timed diff due t xs` says that from the time `t` on the stored differences `diff` add up to
the times `due`. Time passes by a change to the first entry alone. An entry that is taken out
leaves its difference to the one behind it.
-/

namespace Delta

variable {ν : Type*}

/-- From `t` on, the entries `xs` are due one after another. -/
def Timed (diff due : ν → ℕ) : ℕ → List ν → Prop
  | _, [] => True
  | t, x :: xs => due x = t + diff x ∧ Timed diff due (due x) xs

section Timed

variable {diff diff' due due' : ν → ℕ} {t : ℕ} {x y : ν} {xs ys : List ν}

theorem timed_congr (hdiff : ∀ x ∈ xs, diff' x = diff x) (hdue : ∀ x ∈ xs, due' x = due x) :
    Timed diff' due' t xs ↔ Timed diff due t xs := by
  induction xs generalizing t with
  | nil => exact Iff.rfl
  | cons x xs ih =>
      simp only [Timed, hdiff x List.mem_cons_self, hdue x List.mem_cons_self,
        ih (fun y hy => hdiff y (List.mem_cons_of_mem x hy))
          (fun y hy => hdue y (List.mem_cons_of_mem x hy))]

theorem timed_append : Timed diff due t (xs ++ ys) ↔
    Timed diff due t xs ∧ Timed diff due (t + (xs.map diff).sum) ys := by
  induction xs generalizing t with
  | nil => simp [Timed]
  | cons x xs ih =>
      simp only [List.cons_append, Timed, ih, List.map_cons, List.sum_cons, ← Nat.add_assoc,
        and_assoc]
      refine and_congr_right fun hx => ?_
      rw [hx]

/-- Nothing is due before now. -/
theorem Timed.le (h : Timed diff due t xs) (hx : x ∈ xs) : t ≤ due x := by
  induction xs generalizing t with
  | nil => exact absurd hx List.not_mem_nil
  | cons y xs ih =>
      obtain ⟨hy, hxs⟩ := h
      have hle : t ≤ due y := by omega
      rcases List.mem_cons.mp hx with rfl | hx
      · exact hle
      · exact Nat.le_trans hle (ih hxs hx)

/-- The differences add up to when the last entry is due. -/
theorem Timed.sum_le (h : Timed diff due t xs) {bound : ℕ} (ht : t ≤ bound)
    (hdue : ∀ x ∈ xs, due x ≤ bound) : t + (xs.map diff).sum ≤ bound := by
  induction xs generalizing t with
  | nil => simpa using ht
  | cons x xs ih =>
      obtain ⟨hx, hxs⟩ := h
      have hrest := ih hxs (hdue x List.mem_cons_self) fun y hy => hdue y (List.mem_cons_of_mem x hy)
      rw [List.map_cons, List.sum_cons]
      omega

variable [DecidableEq ν]

/-- An entry is put behind the others. -/
theorem Timed.snoc (h : Timed diff due t xs) (hy : y ∉ xs) {bound : ℕ}
    (hbound : t + (xs.map diff).sum ≤ bound) :
    Timed (Function.update diff y (bound - (t + (xs.map diff).sum)))
      (Function.update due y bound) t (xs ++ [y]) := by
  have hne : ∀ x ∈ xs, x ≠ y := fun x hx => ne_of_mem_of_not_mem hx hy
  rw [timed_append, timed_congr (fun x hx => Function.update_of_ne (hne x hx) _ _)
    fun x hx => Function.update_of_ne (hne x hx) _ _]
  refine ⟨h, ?_, trivial⟩
  rw [List.map_congr_left fun x hx => Function.update_of_ne (hne x hx) _ diff,
    Function.update_self, Function.update_self]
  omega

/-- Time passes, and nothing is due yet. -/
theorem Timed.advance (h : Timed diff due t (x :: xs)) (hx : x ∉ xs) {k : ℕ} (hk : k ≤ diff x) :
    Timed (Function.update diff x (diff x - k)) due (t + k) (x :: xs) := by
  obtain ⟨hdue, hxs⟩ := h
  refine ⟨?_, (timed_congr (fun y hy => Function.update_of_ne (ne_of_mem_of_not_mem hy hx) _ _)
    fun _ _ => rfl).mpr hxs⟩
  rw [Function.update_self]
  omega

/-- An entry is taken out. -/
theorem Timed.remove (h : Timed diff due t (xs ++ x :: y :: ys))
    (hnodup : (xs ++ x :: y :: ys).Nodup) :
    Timed (Function.update diff y (diff y + diff x)) due t (xs ++ y :: ys) := by
  have hsplit := List.nodup_append.mp hnodup
  have hxs : y ∉ xs := fun hmem => hsplit.2.2 y hmem y (by simp) rfl
  have hys : y ∉ ys := (List.nodup_cons.mp (List.nodup_cons.mp hsplit.2.1).2).1
  have hne : ∀ {zs : List ν}, y ∉ zs → ∀ z ∈ zs,
      Function.update diff y (diff y + diff x) z = diff z := fun hzs z hz =>
    Function.update_of_ne (ne_of_mem_of_not_mem hz hzs) _ _
  rw [timed_append] at h ⊢
  obtain ⟨hbefore, hx, hy, hbehind⟩ := h
  rw [timed_congr (hne hxs) fun _ _ => rfl, List.map_congr_left (hne hxs)]
  refine ⟨hbefore, ?_, (timed_congr (hne hys) fun _ _ => rfl).mpr hbehind⟩
  rw [Function.update_self]
  omega

end Timed

end Delta
