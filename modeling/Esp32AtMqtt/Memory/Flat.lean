import Mathlib.Algebra.Order.Ring.Nat
import Mathlib.Tactic.Common
import Mathlib.Data.List.Basic

/-!
# A flat memory of 32-bit addresses

The memory is a total function on addresses, and address arithmetic wraps, as a
pointer of the 32-bit target does. `readMem mem base n` are the `n` bytes from
`base` on and `writeMem mem base bytes` is the memory after `bytes` have been
stored there.
-/

namespace FlatMemory

/-- The `n` bytes from the address `base` on. -/
def readMem (mem : UInt32 → UInt8) : UInt32 → ℕ → List UInt8
  | _, 0 => []
  | base, n + 1 => mem base :: readMem mem (base + 1) n

/-- The memory after the bytes have been stored from the address `base` on. -/
def writeMem (mem : UInt32 → UInt8) : UInt32 → List UInt8 → UInt32 → UInt8
  | _, [] => mem
  | base, b :: bs => writeMem (fun a => if a = base then b else mem a) (base + 1) bs

@[simp] theorem readMem_zero (mem : UInt32 → UInt8) (base : UInt32) :
    readMem mem base 0 = [] := rfl

@[simp] theorem length_readMem (mem : UInt32 → UInt8) (base : UInt32) (n : ℕ) :
    (readMem mem base n).length = n := by
  induction n generalizing base with
  | zero => rfl
  | succ n ih => simp [readMem, ih]

theorem add_ofNat_succ (base : UInt32) (m : ℕ) :
    base + 1 + UInt32.ofNat m = base + UInt32.ofNat (m + 1) := by
  rw [UInt32.ofNat_add, UInt32.add_assoc, UInt32.add_comm 1]
  rfl

/-- A region splits into a first part and the part behind it. -/
theorem readMem_add (mem : UInt32 → UInt8) (base : UInt32) (m n : ℕ) :
    readMem mem base (m + n) =
      readMem mem base m ++ readMem mem (base + UInt32.ofNat m) n := by
  induction m generalizing base with
  | zero => simp [readMem]
  | succ m ih =>
      rw [Nat.succ_add, readMem, ih, readMem, List.cons_append, add_ofNat_succ]

theorem readMem_drop (mem : UInt32 → UInt8) (base : UInt32) (m n : ℕ) :
    (readMem mem base (m + n)).drop m = readMem mem (base + UInt32.ofNat m) n := by
  rw [readMem_add, List.drop_left' (length_readMem mem base m)]

theorem ofNat_add_ne {base : UInt32} {i j : ℕ} (hi : i < 2 ^ 32) (hj : j < 2 ^ 32)
    (h : i ≠ j) : base + UInt32.ofNat i ≠ base + UInt32.ofNat j := by
  intro heq
  have hmod := congrArg UInt32.toNat ((UInt32.add_right_inj base).mp heq)
  rw [UInt32.toNat_ofNat', UInt32.toNat_ofNat', Nat.mod_eq_of_lt hi, Nat.mod_eq_of_lt hj] at hmod
  exact h hmod

/-- A store leaves the addresses outside its bytes alone. -/
theorem writeMem_of_ne {x base : UInt32} {bytes : List UInt8} (mem : UInt32 → UInt8)
    (h : ∀ i < bytes.length, x ≠ base + UInt32.ofNat i) :
    writeMem mem base bytes x = mem x := by
  induction bytes generalizing base mem with
  | nil => rfl
  | cons b bs ih =>
      have hfirst : x ≠ base := by
        have h0 := h 0 (by simp)
        rwa [show UInt32.ofNat 0 = 0 from rfl, UInt32.add_zero] at h0
      rw [writeMem, ih, if_neg hfirst]
      intro i hi
      rw [add_ofNat_succ]
      exact h (i + 1) (by simpa using hi)

/-- Bytes may be stored in two parts. -/
theorem writeMem_append (mem : UInt32 → UInt8) (base : UInt32) (front bytes : List UInt8) :
    writeMem mem base (front ++ bytes) =
      writeMem (writeMem mem base front) (base + UInt32.ofNat front.length) bytes := by
  induction front generalizing base mem with
  | nil => simp [writeMem]
  | cons b front ih =>
      rw [List.cons_append, writeMem, writeMem, ih, List.length_cons, add_ofNat_succ]

/-- What has been stored is read back. -/
theorem readMem_writeMem_self (mem : UInt32 → UInt8) (base : UInt32) (bytes : List UInt8)
    (h : bytes.length ≤ 2 ^ 32) :
    readMem (writeMem mem base bytes) base bytes.length = bytes := by
  induction bytes generalizing base mem with
  | nil => rfl
  | cons b bs ih =>
      simp only [List.length_cons] at h
      have hfirst : writeMem (fun a => if a = base then b else mem a) (base + 1) bs base = b := by
        rw [writeMem_of_ne, if_pos rfl]
        intro i hi
        rw [add_ofNat_succ]
        have hne : base + UInt32.ofNat 0 ≠ base + UInt32.ofNat (i + 1) :=
          ofNat_add_ne (by omega) (by omega) (by omega)
        rwa [show UInt32.ofNat 0 = 0 from rfl, UInt32.add_zero] at hne
      rw [List.length_cons, readMem, writeMem, hfirst, ih _ _ (by omega)]

theorem readMem_congr {mem mem' : UInt32 → UInt8} {base : UInt32} {n : ℕ}
    (h : ∀ i < n, mem (base + UInt32.ofNat i) = mem' (base + UInt32.ofNat i)) :
    readMem mem base n = readMem mem' base n := by
  induction n generalizing base with
  | zero => rfl
  | succ n ih =>
      have hfirst := h 0 (by omega)
      rw [show UInt32.ofNat 0 = 0 from rfl, UInt32.add_zero] at hfirst
      rw [readMem, readMem, hfirst, ih]
      intro i hi
      rw [add_ofNat_succ]
      exact h (i + 1) (by omega)

/-- Bytes stored behind others are read together with them. -/
theorem readMem_writeMem_append (mem : UInt32 → UInt8) (base : UInt32) {front : List UInt8}
    (bytes : List UInt8) (hfront : readMem mem base front.length = front)
    (hlen : front.length + bytes.length ≤ 2 ^ 32) :
    readMem (writeMem mem (base + UInt32.ofNat front.length) bytes) base
      (front.length + bytes.length) = front ++ bytes := by
  have hkept : readMem (writeMem mem (base + UInt32.ofNat front.length) bytes) base
      front.length = front := by
    refine Eq.trans (readMem_congr fun i hi => writeMem_of_ne mem fun j hj => ?_) hfront
    rw [UInt32.add_assoc, ← UInt32.ofNat_add]
    exact ofNat_add_ne (by omega) (by omega) (by omega)
  rw [readMem_add, hkept, readMem_writeMem_self _ _ _ (by omega)]

end FlatMemory
