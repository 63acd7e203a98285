import Mathlib.Data.List.Infix

/-!
# The first occurrence of a block

`IsFirst pat front s` says that the first occurrence of `pat` in `s` stands behind `front`. There is
at most one such `front` (`IsFirst.unique`). `search pat s` goes through `s` from left to right and
finds how long it is.
-/

namespace Search

variable {A : Type*} {pat front s : List A}

/-- `front` stands in `s` in front of the first occurrence of `pat`. -/
structure IsFirst (pat front s : List A) : Prop where
  occurs : front ++ pat <+: s
  first : ∀ other, other ++ pat <+: s → front.length ≤ other.length

theorem IsFirst.front_prefix (h : IsFirst pat front s) : front <+: s :=
  (List.prefix_append front pat).trans h.occurs

theorem IsFirst.isInfix (h : IsFirst pat front s) : pat <:+: s := by
  obtain ⟨back, hback⟩ := h.occurs
  exact ⟨front, back, hback⟩

/-- There is one first occurrence. -/
theorem IsFirst.unique {front' : List A} (h : IsFirst pat front s) (h' : IsFirst pat front' s) :
    front = front' := by
  have hlen : front.length = front'.length :=
    Nat.le_antisymm (h.first front' h'.occurs) (h'.first front h.occurs)
  rw [List.prefix_iff_eq_take.mp h.front_prefix, List.prefix_iff_eq_take.mp h'.front_prefix, hlen]

/-- One element does not stand in front of its first occurrence. -/
theorem IsFirst.not_mem {a : A} (h : IsFirst [a] front s) : a ∉ front := by
  intro hmem
  obtain ⟨before, after, rfl⟩ := List.append_of_mem hmem
  have hocc : before ++ [a] <+: s := by
    apply List.IsPrefix.trans _ h.front_prefix
    exact (List.prefix_append_right_inj before).mpr (List.prefix_append [a] after)
  have hlen := h.first before hocc
  rw [List.length_append, List.length_cons] at hlen
  omega

/-- What is said of a list with no occurrence, and of one with a first occurrence. -/
theorem absent_or_first_of_not {Q : Prop} {P : List A → Prop} (h : ¬ pat <:+: s) :
    (¬ pat <:+: s ∧ Q ∨ ∃ front, IsFirst pat front s ∧ P front) ↔ Q := by
  constructor
  · rintro (⟨-, hq⟩ | ⟨front, hfront, -⟩)
    · exact hq
    · exact absurd hfront.isInfix h
  · exact fun hq => .inl ⟨h, hq⟩

theorem IsFirst.absent_or_first {Q : Prop} {P : List A → Prop} (h : IsFirst pat front s) :
    (¬ pat <:+: s ∧ Q ∨ ∃ front, IsFirst pat front s ∧ P front) ↔ P front := by
  constructor
  · rintro (⟨hno, -⟩ | ⟨front', hfront', hp⟩)
    · exact absurd h.isInfix hno
    · rwa [h.unique hfront']
  · exact fun hp => .inr ⟨front, h, hp⟩

theorem isFirst_nil (h : pat <+: s) : IsFirst pat [] s := ⟨h, fun _ _ => Nat.zero_le _⟩

/-- One more element in front that begins no occurrence. -/
theorem IsFirst.cons {a : A} (h : IsFirst pat front s) (ha : ¬ pat <+: a :: s) :
    IsFirst pat (a :: front) (a :: s) := by
  constructor
  · exact List.cons_prefix_cons.mpr ⟨rfl, h.occurs⟩
  · intro other hother
    cases other with
    | nil => exact absurd hother ha
    | cons b other =>
        exact Nat.succ_le_succ (h.first other (List.cons_prefix_cons.mp hother).2)

variable [DecidableEq A]

/-- Where the first occurrence of a block begins. -/
def search (pat : List A) : List A → Option ℕ
  | [] => if pat = [] then some 0 else none
  | a :: s => if pat <+: a :: s then some 0 else (search pat s).map (· + 1)

theorem search_eq_none_iff : search pat s = none ↔ ¬ pat <:+: s := by
  induction s with
  | nil =>
      rw [search, List.infix_nil]
      by_cases hpat : pat = [] <;> simp [hpat]
  | cons a s ih =>
      rw [search, List.infix_cons_iff]
      by_cases hpre : pat <+: a :: s
      · simp [hpre]
      · rw [if_neg hpre, Option.map_eq_none_iff, ih, or_iff_right hpre]

/-- What is found is the first occurrence. -/
theorem exists_isFirst {i : ℕ} (h : search pat s = some i) :
    ∃ front, IsFirst pat front s ∧ front.length = i := by
  induction s generalizing i with
  | nil =>
      rw [search] at h
      split at h
      · next hpat =>
          obtain rfl := Option.some.inj h
          exact ⟨[], isFirst_nil (hpat ▸ List.nil_prefix), rfl⟩
      · cases h
  | cons a s ih =>
      rw [search] at h
      split at h
      · next hpre =>
          obtain rfl := Option.some.inj h
          exact ⟨[], isFirst_nil hpre, rfl⟩
      · next hpre =>
          obtain ⟨j, hj, rfl⟩ := Option.map_eq_some_iff.mp h
          obtain ⟨front, hfront, rfl⟩ := ih hj
          exact ⟨a :: front, hfront.cons hpre, rfl⟩

end Search
