import Mathlib.Algebra.Order.Ring.Nat
import Mathlib.Data.UInt
import Mathlib.Logic.Function.Basic
import Mathlib.Data.List.Basic

/-!
# Numbers in memory

A memory is a function from places to bytes. `load mem a n` is the number in the `n` bytes from `a`
on, the low byte first, and `store mem a n v` the memory with such a number stored. `bytes mem a n`
are the bytes themselves.
-/

namespace Words

/-- The number in the `n` bytes from `a` on. -/
def load (mem : ℕ → UInt8) : ℕ → ℕ → ℕ
  | _, 0 => 0
  | a, n + 1 => (mem a).toNat + 256 * load mem (a + 1) n

/-- The memory with the number `v` in the `n` bytes from `a` on. -/
def store (mem : ℕ → UInt8) : ℕ → ℕ → ℕ → ℕ → UInt8
  | _, 0, _ => mem
  | a, n + 1, v => store (Function.update mem a (UInt8.ofNat v)) (a + 1) n (v / 256)

/-- The `n` bytes from `a` on. -/
def bytes (mem : ℕ → UInt8) (a n : ℕ) : List UInt8 := (List.range n).map fun i => mem (a + i)

variable {mem mem' : ℕ → UInt8} {a b m n v x : ℕ}

@[simp] theorem length_bytes (mem : ℕ → UInt8) (a n : ℕ) : (bytes mem a n).length = n := by
  simp [bytes]

theorem bytes_congr (h : ∀ x, a ≤ x → x < a + n → mem' x = mem x) :
    bytes mem' a n = bytes mem a n := by
  apply List.map_congr_left
  intro i hi
  exact h _ (Nat.le_add_right a i) (Nat.add_lt_add_left (List.mem_range.mp hi) a)

/-- The first bytes of a region. -/
theorem take_bytes (mem : ℕ → UInt8) (a : ℕ) (h : m ≤ n) :
    (bytes mem a n).take m = bytes mem a m := by
  rw [bytes, ← List.map_take, List.take_range, Nat.min_eq_left h, bytes]

/-- A byte of a region whose bytes are known. -/
theorem apply_of_bytes {data : List UInt8} {i : ℕ} (h : bytes mem a data.length = data)
    (hi : i < data.length) : mem (a + i) = data[i] := by
  have hget : (bytes mem a data.length)[i]? = data[i]? := congrArg (·[i]?) h
  rw [bytes, List.getElem?_map, List.getElem?_range hi, List.getElem?_eq_getElem hi] at hget
  exact Option.some.inj hget

/-- Two sequences of bytes agree as far as both go. -/
theorem take_bytes_eq {data : List UInt8}
    (h : ∀ i, (hi : i < data.length) → i < n → mem (a + i) = data[i]) :
    (bytes mem a n).take data.length = data.take n := by
  apply List.ext_getElem
  · simp [Nat.min_comm]
  · intro i hi hi'
    rw [List.length_take] at hi'
    simpa [bytes] using h i (by omega) (by omega)

theorem bytes_add (mem : ℕ → UInt8) (a m n : ℕ) :
    bytes mem a (m + n) = bytes mem a m ++ bytes mem (a + m) n := by
  rw [bytes, List.range_add, List.map_append, List.map_map, bytes, bytes]
  simp [Function.comp_def, Nat.add_assoc]

/-- The bytes that are known, and those behind them. -/
theorem bytes_eq_append {data : List UInt8}
    (h : (bytes mem a n).take data.length = data.take n) :
    bytes mem a n = data.take n ++ bytes mem (a + data.length) (n - data.length) := by
  rcases Nat.le_total data.length n with hle | hle
  · have hsplit := bytes_add mem a data.length (n - data.length)
    rw [Nat.add_sub_cancel' hle] at hsplit
    rw [← h, take_bytes mem a hle, hsplit]
  · rw [Nat.sub_eq_zero_of_le hle, ← h, List.take_of_length_le (by rwa [length_bytes])]
    exact (List.append_nil _).symm

theorem load_congr (h : ∀ x, a ≤ x → x < a + n → mem' x = mem x) :
    load mem' a n = load mem a n := by
  induction n generalizing a with
  | zero => rfl
  | succ n ih =>
      rw [load, load, h a (Nat.le_refl a) (by omega),
        ih fun x hx hlt => h x (by omega) (by omega)]

/-- A store leaves the other bytes alone. -/
theorem store_of_outside (h : x < a ∨ a + n ≤ x) : store mem a n v x = mem x := by
  induction n generalizing mem a v with
  | zero => rfl
  | succ n ih =>
      rw [store, ih (by omega), Function.update_of_ne (by omega)]

theorem load_store_of_disjoint (h : b + m ≤ a ∨ a + n ≤ b) :
    load (store mem a n v) b m = load mem b m :=
  load_congr fun _ hx hlt => store_of_outside (by omega)

/-- What is stored is what is loaded. -/
theorem load_store (hv : v < 256 ^ n) : load (store mem a n v) a n = v := by
  induction n generalizing mem a v with
  | zero =>
      have hzero : v = 0 := by simpa using hv
      exact hzero.symm
  | succ n ih =>
      rw [Nat.pow_succ] at hv
      have hlow : store (Function.update mem a (UInt8.ofNat v)) (a + 1) n (v / 256) a =
          UInt8.ofNat v := by
        rw [store_of_outside (by omega), Function.update_self]
      rw [store, load, hlow, ih (Nat.div_lt_of_lt_mul (by omega)), UInt8.toNat_ofNat']
      exact Nat.mod_add_div v 256

/-- One byte is stored. -/
theorem bytes_update (i : ℕ) (c : UInt8) :
    bytes (Function.update mem (a + i) c) a n = (bytes mem a n).set i c := by
  apply List.ext_getElem
  · simp
  · intro j hj hj'
    rw [length_bytes] at hj
    by_cases hij : i = j
    · subst hij
      simp [bytes]
    · simp [bytes, Function.update_of_ne (show a + j ≠ a + i by omega), hij]

end Words
