import Esp32AtMqtt.Stream.Ring
import Mathlib.Data.Nat.Notation
import Mathlib.Tactic.Common

/-!
# The receive FIFO of a serial device

`struct rt_serial_rx_fifo` of `serial.c` with the critical sections of its two sides: the store
of one byte in `rt_hw_serial_isr`, and the read of one byte in `_serial_int_rx`. Equal indexes
mean an empty FIFO; a store that makes them equal moves the reader's index on, so that a FIFO
of `bufsz` bytes holds at most `bufsz - 1`.

`Holds bufsz f q` says that the FIFO `f` holds the bytes `q`. It is what the operations are
described by: a store, a read, and the number that is reported to `rx_indicate`.
-/

namespace Serial

open Ring

/-- `struct rt_serial_rx_fifo`. -/
structure RxFifo where
  buffer : List UInt8
  putIndex : UInt16
  getIndex : UInt16
  isFull : Bool
  deriving DecidableEq, Repr

namespace RxFifo

/-- The critical section of `rt_hw_serial_isr` for the byte `ch`. -/
def store (bufsz : UInt16) (f : RxFifo) (ch : UInt8) : RxFifo :=
  let buffer := f.buffer.set f.putIndex.toNat ch
  let putIndex := f.putIndex + 1
  let putIndex := if putIndex ≥ bufsz then 0 else putIndex
  if putIndex = f.getIndex then
    let getIndex := f.getIndex + 1
    ⟨buffer, putIndex, if getIndex ≥ bufsz then 0 else getIndex, true⟩
  else ⟨buffer, putIndex, f.getIndex, f.isFull⟩

/-- The critical section of `_serial_int_rx`; `none` when there is no byte. -/
def readByte (bufsz : UInt16) (f : RxFifo) : Option (UInt8 × RxFifo) :=
  if f.getIndex = f.putIndex ∧ f.isFull = false then none
  else
    let ch := f.buffer.getD f.getIndex.toNat 0
    let getIndex := f.getIndex + 1
    some (ch, { f with
      getIndex := if getIndex ≥ bufsz then 0 else getIndex
      isFull := false })

/-- `rx_length`, which is reported to `rx_indicate`. -/
def rxLength (bufsz : UInt16) (f : RxFifo) : ℕ :=
  if f.putIndex ≥ f.getIndex then f.putIndex.toNat - f.getIndex.toNat
  else bufsz.toNat - (f.getIndex.toNat - f.putIndex.toNat)

end RxFifo

/-- `_serial_int_rx(serial, data, length)` without an interrupt in between: the bytes, as many
as it returns, and the FIFO. -/
def serialIntRx (bufsz : UInt16) : ℕ → RxFifo → List UInt8 × RxFifo
  | 0, f => ([], f)
  | length + 1, f =>
      match f.readByte bufsz with
      | none => ([], f)
      | some (ch, f) => (ch :: (serialIntRx bufsz length f).1, (serialIntRx bufsz length f).2)

/-- The FIFO holds these bytes, the oldest one first. -/
structure Holds (bufsz : UInt16) (f : RxFifo) (q : List UInt8) : Prop where
  length : f.buffer.length = bufsz.toNat
  getIndex : f.getIndex.toNat < bufsz.toNat
  room : q.length < bufsz.toNat
  putIndex : f.putIndex.toNat = (f.getIndex.toNat + q.length) % bufsz.toNat
  bytes : window (fun i => f.buffer.getD i 0) bufsz.toNat f.getIndex.toNat q.length = q
  full : f.isFull = true → q.length + 1 = bufsz.toNat

/-- An index that is advanced. -/
theorem toNat_next {bufsz idx : UInt16} (h : idx.toNat < bufsz.toNat) :
    (if idx + 1 ≥ bufsz then 0 else idx + 1 : UInt16).toNat = (idx.toNat + 1) % bufsz.toNat := by
  have hlt := bufsz.toNat_lt
  have hsucc : (idx + 1).toNat = idx.toNat + 1 := by
    rw [UInt16.toNat_add]
    exact Nat.mod_eq_of_lt (by simp only [UInt16.reduceToNat]; omega)
  by_cases hwrap : idx + 1 ≥ bufsz
  · have hle := UInt16.le_iff_toNat_le.mp hwrap
    have heq : idx.toNat + 1 = bufsz.toNat := by omega
    rw [if_pos hwrap, heq, Nat.mod_self]
    rfl
  · have hno : ¬ bufsz.toNat ≤ (idx + 1).toNat := fun hle => hwrap (UInt16.le_iff_toNat_le.mpr hle)
    rw [if_neg hwrap, hsucc, Nat.mod_eq_of_lt (by omega)]

/-- The array with one byte stored. -/
theorem getD_set (buffer : List UInt8) {i : ℕ} (hi : i < buffer.length) (ch : UInt8) :
    (fun j => (buffer.set i ch).getD j 0) =
      Function.update (fun j => buffer.getD j 0) i ch := by
  funext j
  by_cases hj : j = i
  · subst hj
    rw [Function.update_self, List.getD_eq_getElem?_getD, List.getElem?_set_self hi,
      Option.getD_some]
  · rw [Function.update_of_ne hj, List.getD_eq_getElem?_getD,
      List.getElem?_set_ne (fun h => hj h.symm), List.getD_eq_getElem?_getD]

section Holds

variable {bufsz : UInt16} {f : RxFifo} {q : List UInt8}

theorem holds_empty (h : 0 < bufsz.toNat) :
    Holds bufsz ⟨List.replicate bufsz.toNat 0, 0, 0, false⟩ [] :=
  ⟨List.length_replicate, h, h, (Nat.zero_mod _).symm, rfl, fun hfull => nomatch hfull⟩

theorem Holds.putIndex_lt (h : Holds bufsz f q) : f.putIndex.toNat < bufsz.toNat := by
  rw [h.putIndex]
  exact Nat.mod_lt _ (Nat.zero_lt_of_lt h.getIndex)

/-- The bytes with a new one behind them, where the indexes have not moved yet. -/
theorem Holds.pushed (h : Holds bufsz f q) (ch : UInt8) :
    window (fun i => (f.buffer.set f.putIndex.toNat ch).getD i 0) bufsz.toNat f.getIndex.toNat
      (q.length + 1) = q ++ [ch] := by
  rw [getD_set _ (by rw [h.length]; exact h.putIndex_lt), h.putIndex,
    window_push _ _ h.room, h.bytes]

theorem Holds.next_putIndex (h : Holds bufsz f q) :
    (if f.putIndex + 1 ≥ bufsz then 0 else f.putIndex + 1 : UInt16).toNat =
      (f.getIndex.toNat + q.length + 1) % bufsz.toNat := by
  rw [toNat_next h.putIndex_lt, h.putIndex, Nat.mod_add_mod]

/-- A store without room gives up the oldest byte: the next place is the reader's, which moves
on. -/
theorem Holds.store_full (h : Holds bufsz f q) (hsize : 2 ≤ bufsz.toNat) (ch : UInt8)
    (hfull : bufsz.toNat - 1 < q.length + 1) :
    Holds bufsz (f.store bufsz ch) (q.tail ++ [ch]) := by
  have hroom := h.room
  have hget := h.getIndex
  have hpushed := h.pushed ch
  have heq : f.getIndex.toNat + q.length + 1 = f.getIndex.toNat + bufsz.toNat := by omega
  have hput := h.next_putIndex
  rw [heq, Nat.add_mod_right, Nat.mod_eq_of_lt hget] at hput
  have htail : (q.tail ++ [ch]).length = q.length := by
    rw [List.length_append, List.length_tail, List.length_singleton]
    omega
  have hne : q ≠ [] := by
    rintro rfl
    simp only [List.length_nil] at hfull
    omega
  unfold RxFifo.store
  dsimp only
  rw [if_pos (UInt16.toNat_inj.mp hput)]
  refine ⟨?_, ?_, ?_, ?_, ?_, fun _ => by rw [htail]; omega⟩
  · rw [List.length_set, h.length]
  · dsimp only
    rw [toNat_next hget]
    exact Nat.mod_lt _ (by omega)
  · rw [htail]
    exact hroom
  · dsimp only
    rw [toNat_next hget, htail, hput, Nat.mod_add_mod, Nat.add_right_comm, heq,
      Nat.add_mod_right, Nat.mod_eq_of_lt hget]
  · dsimp only
    rw [toNat_next hget, htail]
    rw [window_cons] at hpushed
    have hrest := congrArg List.tail hpushed
    rwa [List.tail_cons, List.tail_append_of_ne_nil hne] at hrest

/-- A store with room keeps all bytes. -/
theorem Holds.store_room (h : Holds bufsz f q) (ch : UInt8)
    (hspace : ¬ bufsz.toNat - 1 < q.length + 1) : Holds bufsz (f.store bufsz ch) (q ++ [ch]) := by
  have hget := h.getIndex
  have hput := h.next_putIndex
  have hne : (f.getIndex.toNat + q.length + 1) % bufsz.toNat ≠ f.getIndex.toNat := by
    have hdiff : (f.getIndex.toNat + 0) % bufsz.toNat ≠
        (f.getIndex.toNat + (q.length + 1)) % bufsz.toNat :=
      add_mod_ne (Nat.zero_lt_succ q.length) (by omega)
    rw [Nat.add_zero, Nat.mod_eq_of_lt hget] at hdiff
    exact fun heq => hdiff heq.symm
  rw [← hput] at hne
  have hlength : (q ++ [ch]).length = q.length + 1 := by
    rw [List.length_append, List.length_singleton]
  unfold RxFifo.store
  dsimp only
  rw [if_neg fun heq => hne (congrArg UInt16.toNat heq)]
  refine ⟨?_, hget, ?_, ?_, ?_, fun hyes => ?_⟩
  · rw [List.length_set, h.length]
  · rw [hlength]
    omega
  · rw [hlength]
    exact hput
  · rw [hlength]
    exact h.pushed ch
  · have hlen := h.full hyes
    omega

/-- A store keeps all bytes as long as there is room, and otherwise gives up the oldest. -/
theorem Holds.store (h : Holds bufsz f q) (hsize : 2 ≤ bufsz.toNat) (ch : UInt8) :
    Holds bufsz (f.store bufsz ch)
      (if bufsz.toNat - 1 < q.length + 1 then q.tail ++ [ch] else q ++ [ch]) := by
  split
  · next hfull => exact h.store_full hsize ch hfull
  · next hspace => exact h.store_room ch hspace

/-- There is nothing to read from an empty FIFO. -/
theorem Holds.readByte_nil (h : Holds bufsz f []) (hsize : 2 ≤ bufsz.toNat) :
    f.readByte bufsz = none := by
  have hput := h.putIndex
  rw [List.length_nil, Nat.add_zero, Nat.mod_eq_of_lt h.getIndex] at hput
  have hnot : f.isFull = false := by
    rw [← Bool.not_eq_true]
    intro hfull
    have hlen := h.full hfull
    rw [List.length_nil] at hlen
    omega
  rw [RxFifo.readByte, if_pos ⟨UInt16.toNat_inj.mp hput.symm, hnot⟩]

/-- The oldest byte is read. -/
theorem Holds.readByte_cons {b : UInt8} (h : Holds bufsz f (b :: q)) :
    ∃ f', f.readByte bufsz = some (b, f') ∧ Holds bufsz f' q := by
  have hroom := h.room
  have hget := h.getIndex
  have hput := h.putIndex
  have hbytes := h.bytes
  rw [List.length_cons] at hroom hput hbytes
  rw [window_cons, Nat.mod_eq_of_lt hget] at hbytes
  obtain ⟨hfirst, hrest⟩ := List.cons.inj hbytes
  have hdata : ¬ (f.getIndex = f.putIndex ∧ f.isFull = false) := by
    rintro ⟨heq, -⟩
    have hdiff : (f.getIndex.toNat + 0) % bufsz.toNat ≠
        (f.getIndex.toNat + (q.length + 1)) % bufsz.toNat :=
      add_mod_ne (Nat.zero_lt_succ q.length) hroom
    rw [Nat.add_zero, Nat.mod_eq_of_lt hget, ← hput, heq] at hdiff
    exact hdiff rfl
  refine ⟨_, by rw [RxFifo.readByte, if_neg hdata, hfirst], ?_⟩
  refine ⟨h.length, ?_, by omega, ?_, ?_, fun hfull => nomatch hfull⟩
  · dsimp only
    rw [toNat_next hget]
    exact Nat.mod_lt _ (by omega)
  · dsimp only
    rw [toNat_next hget, hput, Nat.mod_add_mod, Nat.add_right_comm, Nat.add_assoc]
  · dsimp only
    rw [toNat_next hget]
    exact hrest

/-- The number that is reported is the number of bytes. -/
theorem Holds.rxLength_eq (h : Holds bufsz f q) : f.rxLength bufsz = q.length := by
  have hroom := h.room
  have hget := h.getIndex
  have hput := h.putIndex
  rw [RxFifo.rxLength]
  rcases Nat.lt_or_ge (f.getIndex.toNat + q.length) bufsz.toNat with hlt | hge
  · rw [Nat.mod_eq_of_lt hlt] at hput
    rw [if_pos (UInt16.le_iff_toNat_le.mpr (by omega))]
    omega
  · rw [Nat.mod_eq_sub_mod hge, Nat.mod_eq_of_lt (by omega)] at hput
    rw [if_neg fun hle => absurd (UInt16.le_iff_toNat_le.mp hle) (by omega)]
    omega

/-- A read without an interrupt returns the oldest bytes, as many as there are of those asked
for. -/
theorem Holds.serialIntRx (h : Holds bufsz f q) (hsize : 2 ≤ bufsz.toNat) (length : ℕ) :
    (serialIntRx bufsz length f).1 = q.take length ∧
      Holds bufsz (serialIntRx bufsz length f).2 (q.drop length) := by
  induction length generalizing f q with
  | zero => exact ⟨rfl, h⟩
  | succ length ih =>
      cases q with
      | nil =>
          rw [Serial.serialIntRx, h.readByte_nil hsize]
          exact ⟨rfl, h⟩
      | cons b q =>
          obtain ⟨f', hread, hf'⟩ := h.readByte_cons
          obtain ⟨hbytes, hrest⟩ := ih hf'
          rw [Serial.serialIntRx, hread]
          dsimp only
          rw [hbytes]
          exact ⟨rfl, hrest⟩

end Holds

end Serial
