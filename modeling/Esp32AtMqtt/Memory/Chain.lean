import Mathlib.Data.List.Basic
import Mathlib.Data.List.Nodup
import Mathlib.Logic.Function.Basic

/-!
# Linked nodes

Nodes of any type `ν`, each with a link to another one or to none. `Path next p xs q` says that
the links lead from `p` over exactly the nodes `xs` to `q`; a linked list is a path to `none`. It
has no node twice, and it is the only one from where it begins.

A store to one link leaves the paths alone that do not go over its node. From this come the paths
behind an insertion and a removal. The loops over a linked list are `foldChain` and `findChain`,
with the number of rounds they may take; a linked list ends them.
-/

namespace Linked

variable {ν σ : Type*}

/-- From `p` over the nodes `xs` to `q`. -/
def Path (next : ν → Option ν) (p : Option ν) : List ν → Option ν → Prop
  | [], q => p = q
  | x :: xs, q => p = some x ∧ Path next (next x) xs q

section Path

variable {next next' : ν → Option ν} {p q : Option ν} {x y : ν} {xs ys : List ν}

@[simp] theorem path_nil : Path next p [] q ↔ p = q := Iff.rfl

@[simp] theorem path_cons : Path next p (x :: xs) q ↔ p = some x ∧ Path next (next x) xs q :=
  Iff.rfl

theorem path_append : Path next p (xs ++ ys) q ↔ ∃ r, Path next p xs r ∧ Path next r ys q := by
  induction xs generalizing p with
  | nil => simp
  | cons x xs ih => simp [ih, and_assoc]

/-- A path over `x` goes to `x`, and on from there. -/
theorem path_append_cons : Path next p (xs ++ x :: ys) q ↔
    Path next p xs (some x) ∧ Path next (next x) ys q := by
  rw [path_append]
  constructor
  · rintro ⟨r, hxs, rfl, hys⟩
    exact ⟨hxs, hys⟩
  · rintro ⟨hxs, hys⟩
    exact ⟨some x, hxs, rfl, hys⟩

/-- Only the links of its nodes matter to a path. -/
theorem path_congr (h : ∀ x ∈ xs, next' x = next x) :
    Path next' p xs q ↔ Path next p xs q := by
  induction xs generalizing p with
  | nil => exact Iff.rfl
  | cons x xs ih =>
      rw [path_cons, path_cons, h x List.mem_cons_self,
        ih fun y hy => h y (List.mem_cons_of_mem x hy)]

theorem path_update [DecidableEq ν] (hx : x ∉ xs) (r : Option ν) :
    Path (Function.update next x r) p xs q ↔ Path next p xs q :=
  path_congr fun _ hy => Function.update_of_ne (ne_of_mem_of_not_mem hy hx) r next

/-- Of two paths from the same place to the end there is only one. -/
theorem Path.unique (hxs : Path next p xs none) (hys : Path next p ys none) : xs = ys := by
  induction xs generalizing p ys with
  | nil =>
      cases ys with
      | nil => rfl
      | cons y ys => exact absurd (Eq.trans (Eq.symm hxs) hys.1).symm (Option.some_ne_none y)
  | cons x xs ih =>
      obtain ⟨rfl, hxs⟩ := hxs
      cases ys with
      | nil => exact absurd hys (Option.some_ne_none x)
      | cons y ys =>
          obtain ⟨heq, hys⟩ := hys
          obtain rfl := Option.some.inj heq
          rw [ih hxs hys]

/-- A path to the end comes to no node twice: it would go round for ever. -/
theorem Path.nodup (h : Path next p xs none) : xs.Nodup := by
  induction xs generalizing p with
  | nil => exact List.nodup_nil
  | cons x xs ih =>
      obtain ⟨rfl, hxs⟩ := h
      refine List.nodup_cons.mpr ⟨fun hmem => ?_, ih hxs⟩
      obtain ⟨before, behind, rfl⟩ := List.append_of_mem hmem
      have hagain := (path_append_cons.mp hxs).2
      have hlength := congrArg List.length (hagain.unique hxs)
      simp only [List.length_append, List.length_cons] at hlength
      omega

/-- A node of a linked list does not point to itself. -/
theorem Path.next_ne (h : Path next p xs none) (hx : x ∈ xs) : next x ≠ some x := by
  intro hself
  obtain ⟨before, behind, rfl⟩ := List.append_of_mem hx
  have hrest := (path_append_cons.mp h).2
  rw [hself] at hrest
  have hnodup := (List.nodup_append.mp h.nodup).2.1
  cases behind with
  | nil => exact absurd hrest (Option.some_ne_none x)
  | cons y ys =>
      obtain rfl := Option.some.inj hrest.1
      exact (List.nodup_cons.mp hnodup).1 List.mem_cons_self

/-- Where a path begins. -/
theorem Path.eq_head? (h : Path next p xs none) : p = xs.head? := by
  cases xs with
  | nil => exact h
  | cons x xs => exact h.1

/-- A node is put before a linked list. -/
theorem Path.push [DecidableEq ν] (h : Path next p xs none) (hx : x ∉ xs) :
    Path (Function.update next x p) (some x) (x :: xs) none := by
  rw [path_cons, Function.update_self, path_update hx]
  exact ⟨rfl, h⟩

/-- A node is put behind a linked list, with the link of the last node. -/
theorem Path.link [DecidableEq ν] (h : Path next p (xs ++ [x]) none) (hy : y ∉ xs ++ [x])
    (hlast : next y = none) :
    Path (Function.update next x (some y)) p (xs ++ [x, y]) none := by
  have hne : y ≠ x := fun heq => hy (heq ▸ List.mem_append_right xs List.mem_cons_self)
  have hx : x ∉ xs := fun hmem =>
    (List.nodup_append.mp h.nodup).2.2 x hmem x List.mem_cons_self rfl
  rw [path_append_cons] at h ⊢
  refine ⟨(path_update hx _).mpr h.1, ?_⟩
  rw [Function.update_self, path_cons, Function.update_of_ne hne, path_nil]
  exact ⟨rfl, hlast⟩

/-- A node is taken out of a linked list, with the link of the node before it. -/
theorem Path.unlink [DecidableEq ν] (h : Path next p (xs ++ [x] ++ y :: ys) none) :
    Path (Function.update next x (next y)) p (xs ++ [x] ++ ys) none := by
  have hnodup := h.nodup
  rw [List.append_assoc, List.singleton_append] at h hnodup ⊢
  have hsplit := List.nodup_append.mp hnodup
  have hx : x ∉ xs := fun hmem => hsplit.2.2 x hmem x List.mem_cons_self rfl
  have hys : x ∉ ys := fun hmem =>
    (List.nodup_cons.mp hsplit.2.1).1 (List.mem_cons_of_mem y hmem)
  rw [path_append_cons] at h ⊢
  rw [Function.update_self, path_update hx, path_update hys]
  exact ⟨h.1, h.2.2⟩

end Path

section Loops

variable (next : ν → Option ν)

/-- The loop that comes to every node of a linked list, with what it computes. It has no result if
it is not at the end after so many rounds. -/
def foldChain (f : σ → ν → σ) : ℕ → Option ν → σ → Option σ
  | _, none, s => some s
  | 0, some _, _ => none
  | rounds + 1, some x, s => foldChain f rounds (next x) (f s x)

/-- The loop that looks for the first node with a property: the node before it, and the node. -/
def findChain (test : ν → Bool) : ℕ → Option ν → Option ν → Option (Option ν × Option ν)
  | _, prev, none => some (prev, none)
  | 0, _, some _ => none
  | rounds + 1, prev, some x =>
      if test x then some (prev, some x) else findChain test rounds (some x) (next x)

variable {next} {p : Option ν} {x : ν} {xs ys : List ν} {rounds : ℕ}

/-- A loop over a linked list ends. -/
theorem foldChain_eq (f : σ → ν → σ) (h : Path next p xs none) (hrounds : xs.length ≤ rounds)
    (s : σ) : foldChain next f rounds p s = some (xs.foldl f s) := by
  induction xs generalizing p s rounds with
  | nil =>
      obtain rfl := path_nil.mp h
      cases rounds <;> rfl
  | cons x xs ih =>
      obtain ⟨rfl, hxs⟩ := h
      obtain ⟨rounds, rfl⟩ : ∃ n, rounds = n + 1 :=
        ⟨rounds - 1, by rw [List.length_cons] at hrounds; omega⟩
      exact ih hxs (Nat.succ_le_succ_iff.mp hrounds) (f s x)

/-- Nothing is found. -/
theorem findChain_eq_none {test : ν → Bool} (h : Path next p xs none)
    (hrounds : xs.length ≤ rounds) (hnone : ∀ x ∈ xs, test x = false) (prev : Option ν) :
    ∃ last, findChain next test rounds prev p = some (last, none) := by
  induction xs generalizing p prev rounds with
  | nil =>
      obtain rfl := path_nil.mp h
      exact ⟨prev, by cases rounds <;> rfl⟩
  | cons x xs ih =>
      obtain ⟨rfl, hxs⟩ := h
      obtain ⟨rounds, rfl⟩ : ∃ n, rounds = n + 1 :=
        ⟨rounds - 1, by rw [List.length_cons] at hrounds; omega⟩
      simp only [findChain, hnone x List.mem_cons_self, Bool.false_eq_true, if_false]
      exact ih hxs (Nat.succ_le_succ_iff.mp hrounds)
        (fun y hy => hnone y (List.mem_cons_of_mem x hy)) (some x)

/-- The first node with the property is found, and the node before it. -/
theorem findChain_eq_some {test : ν → Bool} (h : Path next p (xs ++ x :: ys) none)
    (hrounds : (xs ++ x :: ys).length ≤ rounds) (hbefore : ∀ y ∈ xs, test y = false)
    (hx : test x = true) (prev : Option ν) :
    findChain next test rounds prev p = some (xs.getLast?.or prev, some x) := by
  induction xs generalizing p prev rounds with
  | nil =>
      obtain ⟨rfl, -⟩ := path_cons.mp h
      obtain ⟨rounds, rfl⟩ : ∃ n, rounds = n + 1 :=
        ⟨rounds - 1, by rw [List.nil_append, List.length_cons] at hrounds; omega⟩
      simp [findChain, hx]
  | cons y xs ih =>
      obtain ⟨rfl, hxs⟩ := path_cons.mp h
      obtain ⟨rounds, rfl⟩ : ∃ n, rounds = n + 1 :=
        ⟨rounds - 1, by rw [List.cons_append, List.length_cons] at hrounds; omega⟩
      simp only [findChain, hbefore y List.mem_cons_self, Bool.false_eq_true, if_false]
      rw [ih hxs (Nat.succ_le_succ_iff.mp hrounds)
        fun z hz => hbefore z (List.mem_cons_of_mem y hz)]
      cases xs with
      | nil => rfl
      | cons z zs => simp [List.getLast?_cons]

end Loops

end Linked
