import Mathlib.Data.List.Infix

/-!
# A queue that keeps the newest elements

A queue with room for `n` elements that takes every new one, and gives up its oldest element
when it is full. The elements it still holds are always the last ones that it was given, so the
queue is known by what it was given and by how many elements have left it.

An element leaves in one of two ways, its `Fate`: it is taken, or it is lost. The fates are in
the order of the elements, so a fate also says when the element has left: with `lost k` the
element was given up when the `k`-th element came.
-/

namespace Newest

variable {α : Type*}

/-- How an element has left the queue. -/
inductive Fate
  | taken
  | lost (given : ℕ)
  deriving DecidableEq, Repr

/-- What the queue was given, and the fates of the elements that have left it. -/
structure Queue (α : Type*) where
  given : List α
  fates : List Fate

/-- Nothing was given yet. -/
def Queue.empty : Queue α := ⟨[], []⟩

/-- The elements that are still there, the oldest one first. -/
def Queue.held (q : Queue α) : List α := q.given.drop q.fates.length

/-- The elements with the fate `taken`. -/
def takenOf : List α → List Fate → List α
  | x :: xs, .taken :: fs => x :: takenOf xs fs
  | _ :: xs, .lost _ :: fs => takenOf xs fs
  | _, _ => []

/-- The elements that were taken, in the order in which they were taken. -/
def Queue.taken (q : Queue α) : List α := takenOf q.given q.fates

/-- A new element; the oldest one is given up when there are more than `n` then. -/
def Queue.give (n : ℕ) (q : Queue α) (x : α) : Queue α :=
  if n < q.held.length + 1 then
    ⟨q.given ++ [x], q.fates ++ [.lost (q.given.length + 1)]⟩
  else ⟨q.given ++ [x], q.fates⟩

/-- Take the oldest element. -/
def Queue.take (q : Queue α) : Queue α := ⟨q.given, q.fates ++ [.taken]⟩

/-- There are at most `n` elements, and an element is lost only when `n` newer ones were there:
as elements leave in order, all that came after it were. -/
structure Queue.Ok (n : ℕ) (q : Queue α) : Prop where
  left : q.fates.length ≤ q.given.length
  bound : q.held.length ≤ n
  lost : ∀ (i k : ℕ), q.fates[i]? = some (.lost k) → k = i + 1 + n ∧ k ≤ q.given.length

theorem Queue.length_held (q : Queue α) : q.held.length = q.given.length - q.fates.length :=
  List.length_drop

theorem Queue.ok_empty (n : ℕ) : (Queue.empty : Queue α).Ok n :=
  ⟨Nat.le_refl 0, Nat.zero_le n, by simp [Queue.empty]⟩

/-- What is taken are some of the elements given, in order. -/
theorem takenOf_sublist (xs : List α) (fs : List Fate) : (takenOf xs fs).Sublist xs := by
  induction xs generalizing fs with
  | nil => simp [takenOf]
  | cons x xs ih =>
      cases fs with
      | nil => simp [takenOf]
      | cons f fs =>
          cases f with
          | taken => exact (ih fs).cons_cons x
          | lost k => exact (ih fs).cons x

theorem Queue.taken_sublist (q : Queue α) : q.taken.Sublist q.given :=
  takenOf_sublist q.given q.fates

/-- A lost element is not taken, and neither is one that has not left. -/
theorem takenOf_append_left {xs : List α} {fs : List Fate} (h : fs.length ≤ xs.length)
    (ys : List α) : takenOf (xs ++ ys) fs = takenOf xs fs := by
  induction xs generalizing fs with
  | nil =>
      obtain rfl : fs = [] := List.length_eq_zero_iff.mp (Nat.le_zero.mp h)
      cases ys <;> rfl
  | cons x xs ih =>
      cases fs with
      | nil => rfl
      | cons f fs =>
          have hrest := ih (Nat.le_of_succ_le_succ h)
          cases f with
          | taken => exact congrArg (x :: ·) hrest
          | lost k => exact hrest

theorem takenOf_snoc_lost (xs : List α) (fs : List Fate) (k : ℕ) :
    takenOf xs (fs ++ [.lost k]) = takenOf xs fs := by
  induction xs generalizing fs with
  | nil => simp [takenOf]
  | cons x xs ih =>
      cases fs with
      | nil => cases xs <;> rfl
      | cons f fs =>
          cases f with
          | taken => exact congrArg (x :: ·) (ih fs)
          | lost k => exact ih fs

theorem takenOf_snoc_taken {xs : List α} {fs : List Fate} {x : α} {rest : List α}
    (h : xs.drop fs.length = x :: rest) : takenOf xs (fs ++ [.taken]) = takenOf xs fs ++ [x] := by
  induction xs generalizing fs with
  | nil => simp at h
  | cons y xs ih =>
      cases fs with
      | nil =>
          obtain ⟨rfl, rfl⟩ := List.cons.inj h
          cases xs <;> rfl
      | cons f fs =>
          cases f with
          | taken => exact congrArg (y :: ·) (ih h)
          | lost k => exact ih h

section Operations

variable {n : ℕ} {q : Queue α}

/-- What is there behind a new element. -/
theorem Queue.held_give (h : q.Ok n) (hn : 0 < n) (x : α) :
    (q.give n x).held = if n < q.held.length + 1 then q.held.tail ++ [x] else q.held ++ [x] := by
  have hlen := q.length_held
  have hleft := h.left
  rw [Queue.give]
  split
  · next hfull =>
      have hle : q.fates.length + 1 ≤ q.given.length := by omega
      rw [Queue.held, Queue.held, List.length_append, List.length_singleton,
        List.drop_append_of_le_length hle, List.tail_drop]
  · rw [Queue.held, Queue.held, List.drop_append_of_le_length hleft]

theorem Queue.taken_give (h : q.Ok n) (x : α) : (q.give n x).taken = q.taken := by
  rw [Queue.give]
  split
  · rw [Queue.taken, takenOf_snoc_lost, takenOf_append_left h.left]
    rfl
  · exact takenOf_append_left h.left [x]

theorem Queue.given_give (n : ℕ) (q : Queue α) (x : α) : (q.give n x).given = q.given ++ [x] := by
  rw [Queue.give]
  split <;> rfl

theorem Queue.Ok.give (h : q.Ok n) (hn : 0 < n) (x : α) : (q.give n x).Ok n := by
  have hlen := q.length_held
  have hleft := h.left
  have hbound := h.bound
  have hheld := Queue.held_give h hn x
  refine ⟨?_, ?_, ?_⟩
  · rw [Queue.give]
    split
    · simp only [List.length_append, List.length_singleton]
      omega
    · simp only [List.length_append, List.length_singleton]
      omega
  · rw [hheld]
    split
    · rw [List.length_append, List.length_tail, List.length_singleton]
      omega
    · rw [List.length_append, List.length_singleton]
      omega
  · intro i k hlost
    rw [Queue.give] at hlost ⊢
    split at hlost
    · next hfull =>
        rw [if_pos hfull, List.length_append, List.length_singleton]
        rcases Nat.lt_trichotomy i q.fates.length with hlt | rfl | hgt
        · rw [List.getElem?_append_left hlt] at hlost
          obtain ⟨hk, hle⟩ := h.lost i k hlost
          exact ⟨hk, by omega⟩
        · rw [List.getElem?_concat_length] at hlost
          obtain rfl : q.given.length + 1 = k := by simpa using hlost
          exact ⟨by omega, Nat.le_refl _⟩
        · rw [List.getElem?_eq_none (by
            rw [List.length_append, List.length_singleton]
            omega)] at hlost
          cases hlost
    · next hroom =>
        rw [if_neg hroom, List.length_append, List.length_singleton]
        obtain ⟨hk, hle⟩ := h.lost i k hlost
        exact ⟨hk, by omega⟩

/-- The oldest element is taken. -/
theorem Queue.taken_take {x : α} {rest : List α} (hheld : q.held = x :: rest) :
    q.take.taken = q.taken ++ [x] :=
  takenOf_snoc_taken hheld

theorem Queue.held_take {x : α} {rest : List α} (hheld : q.held = x :: rest) :
    q.take.held = rest := by
  have htail := congrArg List.tail hheld
  rw [Queue.held, List.tail_drop] at htail
  rw [Queue.held, Queue.take, List.length_append, List.length_singleton]
  exact htail

theorem Queue.Ok.take (h : q.Ok n) {x : α} {rest : List α} (hheld : q.held = x :: rest) :
    q.take.Ok n := by
  have hlen := q.length_held
  have hrest := Queue.held_take hheld
  have hbound := h.bound
  rw [hheld, List.length_cons] at hlen hbound
  refine ⟨?_, ?_, ?_⟩
  · have hle : q.fates.length + 1 ≤ q.given.length := by omega
    rwa [Queue.take, List.length_append, List.length_singleton]
  · rw [hrest]
    omega
  · intro i k hlost
    rcases Nat.lt_or_ge i q.fates.length with hlt | hge
    · rw [Queue.take, List.getElem?_append_left hlt] at hlost
      exact h.lost i k hlost
    · rw [Queue.take, List.getElem?_append_right hge, List.getElem?_singleton] at hlost
      split at hlost <;> cases hlost

end Operations

end Newest
