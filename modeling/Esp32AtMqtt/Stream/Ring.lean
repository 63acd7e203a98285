import Mathlib.Data.List.Basic
import Mathlib.Data.Nat.ModEq
import Mathlib.Logic.Function.Basic

/-!
# Windows of a circular array

`window b size head n` are the `n` elements of the circular array `b` of the given size, from
the index `head` on. A window grows at its end by a store behind it, as long as it is shorter
than the array, and gets shorter at its front when `head` advances.
-/

namespace Ring

variable {α : Type*}

/-- The `n` elements from `head` on. -/
def window (b : ℕ → α) (size head n : ℕ) : List α :=
  (List.range n).map fun i => b ((head + i) % size)

@[simp] theorem length_window (b : ℕ → α) (size head n : ℕ) :
    (window b size head n).length = n := by
  simp [window]

@[simp] theorem window_zero (b : ℕ → α) (size head : ℕ) : window b size head 0 = [] := rfl

/-- The element behind a window. -/
theorem window_succ (b : ℕ → α) (size head n : ℕ) :
    window b size head (n + 1) = window b size head n ++ [b ((head + n) % size)] := by
  simp [window, List.range_succ]

/-- The head may wrap. -/
theorem window_mod (b : ℕ → α) (size head n : ℕ) :
    window b size (head % size) n = window b size head n := by
  simp [window]

/-- The first element of a window. -/
theorem window_cons (b : ℕ → α) (size head n : ℕ) :
    window b size head (n + 1) =
      b (head % size) :: window b size ((head + 1) % size) n := by
  rw [window_mod]
  induction n with
  | zero => simp [window]
  | succ n ih =>
      rw [window_succ, ih, window_succ b size (head + 1) n, List.cons_append]
      congr 5
      omega

/-- Different places of a window are different elements of the array. -/
theorem add_mod_ne {size head i j : ℕ} (hij : i < j) (hj : j < size) :
    (head + i) % size ≠ (head + j) % size := by
  intro heq
  have hmod : i % size = j % size := Nat.ModEq.add_left_cancel' head heq
  rw [Nat.mod_eq_of_lt (Nat.lt_trans hij hj), Nat.mod_eq_of_lt hj] at hmod
  exact absurd hmod (Nat.ne_of_lt hij)

/-- A store behind a window that is shorter than the array does not touch it. -/
theorem window_update (b : ℕ → α) {size n : ℕ} (head : ℕ) (hn : n < size) (x : α) :
    window (Function.update b ((head + n) % size) x) size head n = window b size head n := by
  apply List.map_congr_left
  intro i hi
  have hlt := List.mem_range.mp hi
  rw [Function.update_of_ne (add_mod_ne hlt hn)]

/-- The window with what has been stored behind it. -/
theorem window_push (b : ℕ → α) {size n : ℕ} (head : ℕ) (hn : n < size) (x : α) :
    window (Function.update b ((head + n) % size) x) size head (n + 1) =
      window b size head n ++ [x] := by
  rw [window_succ, window_update b head hn, Function.update_self]

/-- An array that is a list, with one element stored. -/
theorem getD_set_eq_update (xs : List α) {i : ℕ} (hi : i < xs.length) (x d : α) :
    (fun j => (xs.set i x).getD j d) = Function.update (fun j => xs.getD j d) i x := by
  funext j
  by_cases hj : j = i
  · subst hj
    rw [Function.update_self, List.getD_eq_getElem?_getD, List.getElem?_set_self hi,
      Option.getD_some]
  · rw [Function.update_of_ne hj, List.getD_eq_getElem?_getD,
      List.getElem?_set_ne (fun h => hj h.symm), List.getD_eq_getElem?_getD]

/-- A window splits into a first part and the part behind it. -/
theorem window_add (b : ℕ → α) (size head m n : ℕ) :
    window b size head (m + n) = window b size head m ++ window b size (head + m) n := by
  induction n with
  | zero => simp
  | succ n ih =>
      rw [← Nat.add_assoc, window_succ, ih, window_succ b size (head + m) n, List.append_assoc,
        Nat.add_assoc]

/-- The array with a list stored from the index `i` on. -/
def store (b : ℕ → α) (size : ℕ) : ℕ → List α → ℕ → α
  | _, [] => b
  | i, x :: xs => store (Function.update b (i % size) x) size (i + 1) xs

theorem store_append (b : ℕ → α) (size i : ℕ) (xs ys : List α) :
    store b size i (xs ++ ys) = store (store b size i xs) size (i + xs.length) ys := by
  induction xs generalizing b i with
  | nil => rfl
  | cons x xs ih =>
      rw [List.cons_append, store, ih, store, List.length_cons, Nat.add_right_comm, Nat.add_assoc i]

/-- The index may wrap. -/
theorem store_mod (b : ℕ → α) (size i : ℕ) (xs : List α) :
    store b size (i % size) xs = store b size i xs := by
  induction xs generalizing b i with
  | nil => rfl
  | cons x xs ih =>
      rw [store, store, Nat.mod_mod, ← ih _ (i % size + 1), ← ih _ (i + 1), Nat.mod_add_mod]

/-- The window with a list that has been stored behind it. -/
theorem window_store (b : ℕ → α) {size n : ℕ} (head : ℕ) {xs : List α}
    (hroom : n + xs.length ≤ size) :
    window (store b size (head + n) xs) size head (n + xs.length) = window b size head n ++ xs := by
  induction xs generalizing b n with
  | nil => simp [store]
  | cons x xs ih =>
      rw [List.length_cons] at hroom
      rw [store, List.length_cons, Nat.add_comm xs.length, ← Nat.add_assoc, Nat.add_assoc head,
        ih _ (by omega), window_push b head (by omega), List.append_assoc, List.singleton_append]

/-- An array that is a list, with a list stored in it that does not wrap. -/
theorem getD_overwrite_eq_store (d : α) {size i : ℕ} {buffer xs : List α}
    (hlength : buffer.length = size) (hroom : i + xs.length ≤ size) :
    (fun j => (buffer.take i ++ xs ++ buffer.drop (i + xs.length)).getD j d) =
      store (fun j => buffer.getD j d) size i xs := by
  induction xs generalizing buffer i with
  | nil => simp [store]
  | cons x xs ih =>
      rw [List.length_cons] at hroom
      have hi : i < buffer.length := by omega
      have hset : buffer.set i x = buffer.take i ++ [x] ++ buffer.drop (i + 1) := by
        rw [List.set_eq_take_append_cons_drop, if_pos hi, List.append_assoc]
        rfl
      have hfront : (buffer.take i ++ [x]).length = i + 1 := by
        rw [List.length_append, List.length_take_of_le hi.le, List.length_singleton]
      have hdrop : (buffer.set i x).drop (i + 1 + xs.length) =
          buffer.drop (i + (xs.length + 1)) := by
        rw [← List.drop_drop, hset, List.drop_left' hfront, List.drop_drop]
        congr 1
        omega
      rw [store, Nat.mod_eq_of_lt (by omega), ← getD_set_eq_update buffer hi,
        ← ih (List.length_set.trans hlength) (by omega), hdrop, hset, List.take_left' hfront]
      simp only [List.append_assoc, List.singleton_append, List.length_cons]

end Ring
