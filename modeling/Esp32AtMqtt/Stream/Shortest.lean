import Mathlib.Data.List.Infix

/-!
# Cutting a list at the shortest prefixes of a kind

`P` says which lists are complete pieces. `Shortest P p` says that `p` is a complete piece and
that none of its shorter prefixes is one, the empty list left aside; `Unended P s` that no prefix
of `s` is complete. A reader that looks at one more element at a time is unended until the
first complete piece, and that piece is the shortest one.
-/

namespace Shortest

variable {B : Type*}

/-- No prefix of `s` but the empty one is complete. -/
def Unended (P : List B → Prop) (s : List B) : Prop := ∀ q, q <+: s → q ≠ [] → ¬ P q

/-- `p` is the first complete prefix of every list that begins with it. -/
structure IsShortest (P : List B → Prop) (p : List B) : Prop where
  ne_nil : p ≠ []
  complete : P p
  minimal : ∀ q, q <+: p → q ≠ [] → q ≠ p → ¬ P q

theorem unended_nil (P : List B → Prop) : Unended P [] :=
  fun _ hq hne => absurd (List.prefix_nil.mp hq) hne

/-- One more element that completes nothing. -/
theorem Unended.snoc {P : List B → Prop} {s : List B} {b : B} (h : Unended P s)
    (hb : ¬ P (s ++ [b])) : Unended P (s ++ [b]) := by
  intro q hq hne
  rcases List.prefix_concat_iff.mp hq with rfl | hq
  · exact hb
  · exact h q hq hne

/-- One more element that completes the first piece. -/
theorem Unended.isShortest {P : List B → Prop} {s : List B} {b : B} (h : Unended P s)
    (hb : P (s ++ [b])) : IsShortest P (s ++ [b]) := by
  refine ⟨by simp, hb, fun q hq hne hpart => ?_⟩
  rcases List.prefix_concat_iff.mp hq with rfl | hq
  · exact absurd rfl hpart
  · exact h q hq hne

/-- A list is unended, or it begins with a shortest complete piece. -/
theorem unended_or_isShortest (P : List B → Prop) (s : List B) :
    Unended P s ∨ ∃ p, p <+: s ∧ IsShortest P p := by
  induction s using List.reverseRecOn with
  | nil => exact .inl (unended_nil P)
  | append_singleton s b ih =>
      rcases ih with h | ⟨p, hp, hshort⟩
      · by_cases hb : P (s ++ [b])
        · exact .inr ⟨_, List.prefix_rfl, h.isShortest hb⟩
        · exact .inl (h.snoc hb)
      · exact .inr ⟨p, hp.trans (List.prefix_append s [b]), hshort⟩

/-- A complete list begins with a shortest complete piece. -/
theorem exists_isShortest {P : List B → Prop} {s : List B} (hne : s ≠ []) (h : P s) :
    ∃ p, p <+: s ∧ IsShortest P p :=
  (unended_or_isShortest P s).resolve_left fun hun => hun s List.prefix_rfl hne h

/-- A shortest complete piece is unended before its last element. -/
theorem IsShortest.unended {P : List B → Prop} {s : List B} {b : B}
    (h : IsShortest P (s ++ [b])) : Unended P s := by
  intro q hq hne
  refine h.minimal q (hq.trans (List.prefix_append s [b])) hne fun heq => ?_
  rw [heq] at hq
  have hlen := hq.length_le
  rw [List.length_append, List.length_singleton] at hlen
  exact absurd hlen (Nat.not_succ_le_self _)

theorem Unended.of_prefix {P : List B → Prop} {q s : List B} (h : Unended P s) (hq : q <+: s) :
    Unended P q := fun q' hq' => h q' (hq'.trans hq)

/-- A list has at most one shortest complete prefix. -/
theorem IsShortest.unique {P : List B → Prop} {p q s : List B} (hp : IsShortest P p)
    (hq : IsShortest P q) (hps : p <+: s) (hqs : q <+: s) : p = q := by
  rcases List.prefix_or_prefix_of_prefix hps hqs with h | h
  · by_contra hne
    exact hq.minimal p h hp.ne_nil hne hp.complete
  · by_contra hne
    exact hp.minimal q h hq.ne_nil (Ne.symm hne) hq.complete

end Shortest
