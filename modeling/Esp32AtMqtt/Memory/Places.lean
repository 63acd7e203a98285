import Mathlib.Data.List.Basic
import Mathlib.Logic.Function.Basic

/-!
# Places of nodes

The nodes of a pool are in one of two lists, or in the hands of those who work with them. `Own`
says that each node is in exactly one of these places. It is kept when a node is taken from a list,
put into one, or moved from one to the other.
-/

namespace Linked

/-- Every node below `bound` is in one of two lists or in one hand. -/
structure Own {τ : Type*} (bound : ℕ) (xs ys : List ℕ) (hand : τ → Option ℕ) : Prop where
  all : ∀ n, n < bound ↔ n ∈ xs ∨ n ∈ ys ∨ ∃ t, hand t = some n
  apart : ∀ n ∈ xs, n ∉ ys
  held : ∀ t n, hand t = some n → n ∉ xs ∧ n ∉ ys
  one : ∀ t u n, hand t = some n → hand u = some n → t = u

variable {τ : Type*} {bound n : ℕ} {xs xs' ys : List ℕ} {hand : τ → Option ℕ} {t : τ}

theorem Own.swap (h : Own bound xs ys hand) : Own bound ys xs hand where
  all n := (h.all n).trans or_left_comm
  apart n hy hx := h.apart n hx hy
  held t n ht := (h.held t n ht).symm
  one := h.one

variable [DecidableEq τ]

theorem update_eq_some {p : Option ℕ} {u : τ} {m : ℕ} :
    Function.update hand t p u = some m ↔ u = t ∧ p = some m ∨ u ≠ t ∧ hand u = some m := by
  by_cases hut : u = t
  · subst hut
    simp
  · simp [hut]

/-- A node is taken from the front of a list. -/
theorem Own.take (h : Own bound (n :: xs) ys hand) (hn : n ∉ xs) (ht : hand t = none) :
    Own bound xs ys (Function.update hand t (some n)) := by
  have hself : ∀ u, hand u ≠ some n := fun u hu => (h.held u n hu).1 List.mem_cons_self
  refine ⟨fun m => ?_, fun m hm => h.apart m (List.mem_cons_of_mem n hm), fun u m hu => ?_,
    fun u v m hu hv => ?_⟩
  · simp only [h.all m, List.mem_cons, update_eq_some]
    constructor
    · rintro ((rfl | hm) | hm | ⟨u, hu⟩)
      · exact .inr (.inr ⟨t, .inl ⟨rfl, rfl⟩⟩)
      · exact .inl hm
      · exact .inr (.inl hm)
      · refine .inr (.inr ⟨u, .inr ⟨?_, hu⟩⟩)
        rintro rfl
        exact nomatch ht.symm.trans hu
    · rintro (hm | hm | ⟨u, ⟨-, hm⟩ | ⟨-, hu⟩⟩)
      · exact .inl (.inr hm)
      · exact .inr (.inl hm)
      · exact .inl (.inl (Option.some.inj hm).symm)
      · exact .inr (.inr ⟨u, hu⟩)
  · rcases update_eq_some.mp hu with ⟨-, hm⟩ | ⟨-, hu⟩
    · obtain rfl := Option.some.inj hm
      exact ⟨hn, h.apart n List.mem_cons_self⟩
    · obtain ⟨hxs, hys⟩ := h.held u m hu
      exact ⟨fun hm => hxs (List.mem_cons_of_mem n hm), hys⟩
  · rcases update_eq_some.mp hu with ⟨rfl, hm⟩ | ⟨-, hu'⟩
    · obtain rfl := Option.some.inj hm
      rcases update_eq_some.mp hv with ⟨rfl, -⟩ | ⟨-, hv'⟩
      · rfl
      · exact absurd hv' (hself v)
    · rcases update_eq_some.mp hv with ⟨rfl, hm⟩ | ⟨-, hv'⟩
      · obtain rfl := Option.some.inj hm
        exact absurd hu' (hself u)
      · exact h.one u v m hu' hv'

/-- A node is put into a list. -/
theorem Own.give (h : Own bound xs ys hand) (ht : hand t = some n)
    (hxs : ∀ m, m ∈ xs' ↔ m = n ∨ m ∈ xs) : Own bound xs' ys (Function.update hand t none) := by
  have hother : ∀ u m, Function.update hand t none u = some m ↔ u ≠ t ∧ hand u = some m :=
    fun u m => update_eq_some.trans (or_iff_right fun hself => nomatch hself.2)
  refine ⟨fun m => ?_, fun m hm => ?_, fun u m hu => ?_, fun u v m hu hv => ?_⟩
  · simp only [h.all m, hxs, hother]
    constructor
    · rintro (hm | hm | ⟨u, hu⟩)
      · exact .inl (.inr hm)
      · exact .inr (.inl hm)
      · by_cases hut : u = t
        · exact .inl (.inl (Option.some.inj (hu.symm.trans (hut ▸ ht))))
        · exact .inr (.inr ⟨u, hut, hu⟩)
    · rintro ((rfl | hm) | hm | ⟨u, -, hu⟩)
      · exact .inr (.inr ⟨t, ht⟩)
      · exact .inl hm
      · exact .inr (.inl hm)
      · exact .inr (.inr ⟨u, hu⟩)
  · rcases (hxs m).mp hm with rfl | hm
    · exact (h.held t m ht).2
    · exact h.apart m hm
  · obtain ⟨hut, hu⟩ := (hother u m).mp hu
    obtain ⟨hnot, hys⟩ := h.held u m hu
    refine ⟨fun hm => ?_, hys⟩
    rcases (hxs m).mp hm with rfl | hm
    · exact hut (h.one u t m hu ht)
    · exact hnot hm
  · exact h.one u v m ((hother u m).mp hu).2 ((hother v m).mp hv).2

omit [DecidableEq τ] in
/-- The first node of a list is put into the other one. -/
theorem Own.move (h : Own bound (n :: xs) ys hand) (hn : n ∉ xs) :
    Own bound xs (n :: ys) hand := by
  refine ⟨fun m => ?_, fun m hm hm' => ?_, fun u m hu => ?_, h.one⟩
  · rw [h.all m, List.mem_cons, List.mem_cons, or_assoc, or_left_comm, or_assoc]
  · rcases List.mem_cons.mp hm' with rfl | hm'
    · exact hn hm
    · exact h.apart m (List.mem_cons_of_mem n hm) hm'
  · obtain ⟨hxs, hys⟩ := h.held u m hu
    refine ⟨fun hm => hxs (List.mem_cons_of_mem n hm), fun hm => ?_⟩
    rcases List.mem_cons.mp hm with rfl | hm
    · exact hxs List.mem_cons_self
    · exact hys hm

end Linked
