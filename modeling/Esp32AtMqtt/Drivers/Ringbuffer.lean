import Esp32AtMqtt.Stream.Ring
import Esp32AtMqtt.Transition.Run
import Mathlib.Data.UInt
import Mathlib.Algebra.Order.Ring.Nat

/-!
# Ring buffers of the device drivers

`struct rt_ringbuffer` of `ringbuffer.c`. A read index and a write index that are equal mean an
empty buffer or a full one, which the mirror bits tell: each is inverted when its index wraps.

The operations on blocks copy in two parts and do not look at single bytes. They do what a queue of
at most `buffer_size` bytes does, which is the run of `fifoStep` here. The exception is
`rt_ringbuffer_put_force` when there is too little room.
-/

namespace Drivers

open Ring Transition

/-- `struct rt_ringbuffer`. The indexes are bit fields of 15 bits. -/
structure RtRingbuffer where
  bufferPtr : List UInt8
  readMirror : Bool
  readIndex : ℕ
  writeMirror : Bool
  writeIndex : ℕ
  bufferSize : ℕ
  deriving DecidableEq, Repr

/-- `enum rt_ringbuffer_state`. -/
inductive RingbufferState
  | empty
  | full
  | halffull
  deriving DecidableEq, Repr

/-- `RT_ALIGN_DOWN(size, RT_ALIGN_SIZE)`. -/
def rtAlignDown (size : UInt16) : ℕ := size.toNat / 4 * 4

/-- `rt_ringbuffer_create(size)` when it succeeds, with what is in the memory of the pool. -/
def rtRingbufferCreate (size : UInt16) (pool : List UInt8) : RtRingbuffer :=
  ⟨pool, false, 0, false, 0, rtAlignDown size⟩

/-- What is stored in an index. -/
def index15 (n : ℕ) : ℕ := n % 2 ^ 15

/-- The first `n` bytes of the memory from a pointer on. -/
def bytes (ptr : ℕ → UInt8) (n : ℕ) : List UInt8 := (List.range n).map ptr

/-- `memcpy(&buffer[i], data, …)`. -/
def overwrite (buffer : List UInt8) (i : ℕ) (data : List UInt8) : List UInt8 :=
  buffer.take i ++ data ++ buffer.drop (i + data.length)

namespace RtRingbuffer

variable (rb : RtRingbuffer)

/-- `rt_ringbuffer_status(rb)`. -/
def status : RingbufferState :=
  if rb.readIndex = rb.writeIndex then
    if rb.readMirror = rb.writeMirror then .empty else .full
  else .halffull

/-- `rt_ringbuffer_data_len(rb)`. -/
def dataLen : ℕ :=
  match rb.status with
  | .empty => 0
  | .full => rb.bufferSize
  | .halffull =>
      if rb.readIndex < rb.writeIndex then rb.writeIndex - rb.readIndex
      else rb.bufferSize - (rb.readIndex - rb.writeIndex)

/-- `rt_ringbuffer_space_len(rb)`. -/
def spaceLen : ℕ := rb.bufferSize - rb.dataLen

/-- The copies of `rt_ringbuffer_put` and `rt_ringbuffer_put_force`. -/
def write (ptr : ℕ → UInt8) (length : ℕ) : RtRingbuffer :=
  if rb.writeIndex + length < rb.bufferSize then
    { rb with
      bufferPtr := overwrite rb.bufferPtr rb.writeIndex (bytes ptr length)
      writeIndex := index15 (rb.writeIndex + length) }
  else
    let first := rb.bufferSize - rb.writeIndex
    { rb with
      bufferPtr := overwrite
        (overwrite rb.bufferPtr rb.writeIndex (bytes ptr first)) 0
        (bytes (fun i => ptr (first + i)) (length - first))
      writeMirror := !rb.writeMirror
      writeIndex := index15 (length - first) }

/-- `rt_ringbuffer_put(rb, ptr, length)`. -/
def put (ptr : ℕ → UInt8) (length : UInt16) : RtRingbuffer × ℕ :=
  let size := rb.spaceLen
  if size = 0 then (rb, 0)
  else
    let length := if size < length.toNat then size else length.toNat
    (rb.write ptr length, length)

/-- `rt_ringbuffer_put_force(rb, ptr, length)`. -/
def putForce (ptr : ℕ → UInt8) (length : UInt16) : RtRingbuffer × ℕ :=
  let spaceLength := rb.spaceLen
  let length := if spaceLength < length.toNat then rb.bufferSize else length.toNat
  let wraps := ¬ rb.writeIndex + length < rb.bufferSize
  let rb := rb.write ptr length
  if spaceLength < length then
    if wraps then
      ({ rb with readMirror := !rb.readMirror, readIndex := rb.writeIndex }, length)
    else ({ rb with readIndex := rb.writeIndex }, length)
  else (rb, length)

/-- `rt_ringbuffer_get(rb, ptr, length)`: the bytes that are copied to `ptr`, as many as it
returns. -/
def get (length : UInt16) : RtRingbuffer × List UInt8 :=
  let size := rb.dataLen
  if size = 0 then (rb, [])
  else
    let length := if size < length.toNat then size else length.toNat
    if rb.readIndex + length < rb.bufferSize then
      ({ rb with readIndex := index15 (rb.readIndex + length) },
        (rb.bufferPtr.drop rb.readIndex).take length)
    else
      let first := rb.bufferSize - rb.readIndex
      ({ rb with readMirror := !rb.readMirror, readIndex := index15 (length - first) },
        (rb.bufferPtr.drop rb.readIndex).take first ++ rb.bufferPtr.take (length - first))

/-- The write index and its mirror bit behind one more byte. -/
def advanceWrite : RtRingbuffer :=
  if rb.writeIndex + 1 = rb.bufferSize then
    { rb with writeMirror := !rb.writeMirror, writeIndex := 0 }
  else { rb with writeIndex := index15 (rb.writeIndex + 1) }

/-- `rt_ringbuffer_putchar(rb, ch)`. -/
def putchar (ch : UInt8) : RtRingbuffer × ℕ :=
  if rb.spaceLen = 0 then (rb, 0)
  else (advanceWrite { rb with bufferPtr := rb.bufferPtr.set rb.writeIndex ch }, 1)

/-- `rt_ringbuffer_putchar_force(rb, ch)`. -/
def putcharForce (ch : UInt8) : RtRingbuffer × ℕ :=
  let oldState := rb.status
  let rb := { rb with bufferPtr := rb.bufferPtr.set rb.writeIndex ch }
  if rb.writeIndex + 1 = rb.bufferSize then
    let rb := rb.advanceWrite
    if oldState = .full then
      ({ rb with readMirror := !rb.readMirror, readIndex := rb.writeIndex }, 1)
    else (rb, 1)
  else
    let rb := rb.advanceWrite
    if oldState = .full then ({ rb with readIndex := rb.writeIndex }, 1) else (rb, 1)

/-- `rt_ringbuffer_getchar(rb, ch)`. -/
def getchar : RtRingbuffer × List UInt8 :=
  if rb.dataLen = 0 then (rb, [])
  else
    let ch := rb.bufferPtr.getD rb.readIndex 0
    if rb.readIndex + 1 = rb.bufferSize then
      ({ rb with readMirror := !rb.readMirror, readIndex := 0 }, [ch])
    else ({ rb with readIndex := index15 (rb.readIndex + 1) }, [ch])

/-- `rt_ringbuffer_reset(rb)`. -/
def reset : RtRingbuffer :=
  { rb with readMirror := false, readIndex := 0, writeMirror := false, writeIndex := 0 }

/-- The bytes that are in the buffer, the oldest one first. -/
def held : List UInt8 :=
  window (fun i => rb.bufferPtr.getD i 0) rb.bufferSize rb.readIndex rb.dataLen

end RtRingbuffer

/-- The calls, with the memory from a pointer on as a function. -/
inductive RbAction
  | put (ptr : ℕ → UInt8) (length : UInt16)
  | putForce (ptr : ℕ → UInt8) (length : UInt16)
  | get (length : UInt16)
  | putchar (ch : UInt8)
  | putcharForce (ch : UInt8)
  | getchar
  | dataLen
  | reset

/-- A ring buffer, and what the calls so far have returned and copied out of it. -/
structure RbSystem where
  rb : RtRingbuffer
  results : List (ℕ × List UInt8)

def RbSystem.returns (s : RbSystem) (rb : RtRingbuffer) (n : ℕ) (out : List UInt8) : RbSystem :=
  ⟨rb, s.results ++ [(n, out)]⟩

def rbStep (s : RbSystem) : RbAction → Option RbSystem
  | .put ptr length => some (s.returns (s.rb.put ptr length).1 (s.rb.put ptr length).2 [])
  | .putForce ptr length =>
      some (s.returns (s.rb.putForce ptr length).1 (s.rb.putForce ptr length).2 [])
  | .get length =>
      some (s.returns (s.rb.get length).1 (s.rb.get length).2.length (s.rb.get length).2)
  | .putchar ch => some (s.returns (s.rb.putchar ch).1 (s.rb.putchar ch).2 [])
  | .putcharForce ch => some (s.returns (s.rb.putcharForce ch).1 (s.rb.putcharForce ch).2 [])
  | .getchar => some (s.returns s.rb.getchar.1 s.rb.getchar.2.length s.rb.getchar.2)
  | .dataLen => some (s.returns s.rb s.rb.dataLen [])
  | .reset => some (s.returns s.rb.reset 0 [])

/-- A block is put by force only where it has room. -/
def Roomy (s : RbSystem) : RbAction → Prop
  | .putForce _ length => length.toNat ≤ s.rb.spaceLen
  | _ => True

instance (s : RbSystem) (a : RbAction) : Decidable (Roomy s a) :=
  match a with
  | .putForce _ length => inferInstanceAs (Decidable (length.toNat ≤ s.rb.spaceLen))
  | .put _ _ | .get _ | .putchar _ | .putcharForce _ | .getchar | .dataLen | .reset => isTrue trivial

/-- A queue of bytes, and what the calls so far have returned and taken from it. -/
structure Fifo where
  held : List UInt8
  results : List (ℕ × List UInt8)

def Fifo.returns (f : Fifo) (held : List UInt8) (n : ℕ) (out : List UInt8) : Fifo :=
  ⟨held, f.results ++ [(n, out)]⟩

/-- What the calls do to a queue that has room for `size` bytes. -/
def fifoStep (size : ℕ) (f : Fifo) : RbAction → Option Fifo
  | .put ptr length =>
      let n := min length.toNat (size - f.held.length)
      some (f.returns (f.held ++ bytes ptr n) n [])
  | .putForce ptr length =>
      some (f.returns (f.held ++ bytes ptr length.toNat) length.toNat [])
  | .get length =>
      let out := f.held.take length.toNat
      some (f.returns (f.held.drop length.toNat) out.length out)
  | .putchar ch =>
      if f.held.length < size then some (f.returns (f.held ++ [ch]) 1 [])
      else some (f.returns f.held 0 [])
  | .putcharForce ch =>
      some (f.returns ((if f.held.length < size then f.held else f.held.tail) ++ [ch]) 1 [])
  | .getchar =>
      let out := f.held.take 1
      some (f.returns (f.held.drop 1) out.length out)
  | .dataLen => some (f.returns f.held f.held.length [])
  | .reset => some (f.returns [] 0 [])

namespace RtRingbuffer

variable (rb : RtRingbuffer) (ptr : ℕ → UInt8) (n : ℕ)

@[simp] theorem bufferSize_write : (rb.write ptr n).bufferSize = rb.bufferSize := by
  unfold write
  split_ifs <;> rfl

@[simp] theorem readIndex_write : (rb.write ptr n).readIndex = rb.readIndex := by
  unfold write
  split_ifs <;> rfl

@[simp] theorem readMirror_write : (rb.write ptr n).readMirror = rb.readMirror := by
  unfold write
  split_ifs <;> rfl

end RtRingbuffer

/-! ## What a ring buffer holds -/

@[simp] theorem length_bytes (ptr : ℕ → UInt8) (n : ℕ) : (bytes ptr n).length = n := by
  simp [bytes]

theorem bytes_add (ptr : ℕ → UInt8) (m n : ℕ) :
    bytes ptr (m + n) = bytes ptr m ++ bytes (fun i => ptr (m + i)) n := by
  simp [bytes, List.range_add]

theorem index15_of_lt {n : ℕ} (h : n < 2 ^ 15) : index15 n = n := Nat.mod_eq_of_lt h

/-- A part of the array that does not wrap. -/
theorem take_drop_eq_window {buffer : List UInt8} {size i n : ℕ} (hlength : buffer.length = size)
    (hroom : i + n ≤ size) :
    (buffer.drop i).take n = window (fun j => buffer.getD j 0) size i n := by
  induction n with
  | zero => simp
  | succ n ih =>
      have hi : i + n < buffer.length := by omega
      rw [window_succ, ← ih (by omega), List.take_add_one, List.getElem?_drop,
        Nat.mod_eq_of_lt (by omega), List.getElem?_eq_getElem hi, List.getD_eq_getElem?_getD,
        List.getElem?_eq_getElem hi]
      rfl

theorem length_overwrite {buffer : List UInt8} {i : ℕ} {data : List UInt8}
    (h : i + data.length ≤ buffer.length) : (overwrite buffer i data).length = buffer.length := by
  simp only [overwrite, List.length_append, List.length_take, List.length_drop]
  omega

/-- The ring buffer holds the bytes `q`. -/
structure Holds (rb : RtRingbuffer) (q : List UInt8) : Prop where
  length : rb.bufferPtr.length = rb.bufferSize
  size : rb.bufferSize < 2 ^ 15
  read : rb.readIndex < rb.bufferSize
  room : q.length ≤ rb.bufferSize
  /-- The indexes have wrapped equally often, or the write index once more. -/
  indexes : (rb.readMirror = rb.writeMirror ∧ rb.writeIndex < rb.bufferSize ∧
      rb.writeIndex = rb.readIndex + q.length) ∨
    (rb.readMirror ≠ rb.writeMirror ∧ rb.writeIndex + rb.bufferSize = rb.readIndex + q.length)
  content : window (fun i => rb.bufferPtr.getD i 0) rb.bufferSize rb.readIndex q.length = q

theorem holds_create {size : UInt16} {pool : List UInt8} (hpool : pool.length = rtAlignDown size)
    (hpos : 0 < rtAlignDown size) (hsize : rtAlignDown size < 2 ^ 15) :
    Holds (rtRingbufferCreate size pool) [] where
  length := hpool
  size := hsize
  read := hpos
  room := Nat.zero_le _
  indexes := .inl ⟨rfl, hpos, rfl⟩
  content := rfl

namespace Holds

variable {rb : RtRingbuffer} {q : List UInt8}

theorem write_lt (h : Holds rb q) : rb.writeIndex < rb.bufferSize := by
  have hread := h.read
  have hroom := h.room
  rcases h.indexes with ⟨-, hlt, -⟩ | ⟨-, heq⟩ <;> omega

/-- The write index is behind the bytes. -/
theorem write_eq (h : Holds rb q) :
    rb.writeIndex = (rb.readIndex + q.length) % rb.bufferSize := by
  have hlt := h.write_lt
  rcases h.indexes with ⟨-, -, heq⟩ | ⟨-, heq⟩
  · rw [← heq, Nat.mod_eq_of_lt hlt]
  · rw [← heq, Nat.add_mod_right, Nat.mod_eq_of_lt hlt]

/-- `rt_ringbuffer_data_len` is right. -/
theorem dataLen_eq (h : Holds rb q) : rb.dataLen = q.length := by
  have hread := h.read
  have hroom := h.room
  have hlt := h.write_lt
  unfold RtRingbuffer.dataLen RtRingbuffer.status
  rcases h.indexes with ⟨hmirror, -, heq⟩ | ⟨hmirror, heq⟩
  · by_cases hindex : rb.readIndex = rb.writeIndex
    · simp only [if_pos hindex, if_pos hmirror]
      omega
    · simp only [if_neg hindex]
      split_ifs <;> omega
  · by_cases hindex : rb.readIndex = rb.writeIndex
    · simp only [if_pos hindex, if_neg hmirror]
      omega
    · simp only [if_neg hindex]
      split_ifs <;> omega

theorem spaceLen_eq (h : Holds rb q) : rb.spaceLen = rb.bufferSize - q.length := by
  rw [RtRingbuffer.spaceLen, h.dataLen_eq]

theorem held_eq (h : Holds rb q) : rb.held = q := by
  rw [RtRingbuffer.held, h.dataLen_eq, h.content]

theorem full_iff (h : Holds rb q) : rb.status = .full ↔ q.length = rb.bufferSize := by
  have hread := h.read
  unfold RtRingbuffer.status
  rcases h.indexes with ⟨hmirror, hlt, heq⟩ | ⟨hmirror, heq⟩
  · simp only [hmirror, if_true]
    constructor
    · intro hfull
      split_ifs at hfull
    · intro hfull
      omega
  · rw [if_neg hmirror]
    constructor
    · intro hfull
      split_ifs at hfull with hindex
      omega
    · intro hfull
      rw [if_pos (by omega)]

theorem length_write (h : Holds rb q) (ptr : ℕ → UInt8) {n : ℕ} (hn : n ≤ rb.bufferSize) :
    (rb.write ptr n).bufferPtr.length = rb.bufferSize := by
  have hlt := h.write_lt
  have hlength := h.length
  unfold RtRingbuffer.write
  split_ifs with hfits
  · exact (length_overwrite (by rw [length_bytes]; omega)).trans hlength
  · have hfirst : (overwrite rb.bufferPtr rb.writeIndex
        (bytes ptr (rb.bufferSize - rb.writeIndex))).length = rb.bufferSize :=
      (length_overwrite (by rw [length_bytes]; omega)).trans hlength
    exact (length_overwrite (by rw [length_bytes, hfirst]; omega)).trans hfirst

/-- The array behind the copies of a block. -/
theorem getD_write (h : Holds rb q) (ptr : ℕ → UInt8) {n : ℕ} (hn : n ≤ rb.bufferSize) :
    (fun i => (rb.write ptr n).bufferPtr.getD i 0) =
      store (fun i => rb.bufferPtr.getD i 0) rb.bufferSize rb.writeIndex (bytes ptr n) := by
  have hlt := h.write_lt
  have hlength := h.length
  unfold RtRingbuffer.write
  split_ifs with hfits
  · exact getD_overwrite_eq_store 0 hlength (by rw [length_bytes]; omega)
  · have hfirst : (overwrite rb.bufferPtr rb.writeIndex
        (bytes ptr (rb.bufferSize - rb.writeIndex))).length = rb.bufferSize :=
      (length_overwrite (by rw [length_bytes]; omega)).trans hlength
    have hwrap : rb.writeIndex + (bytes ptr (rb.bufferSize - rb.writeIndex)).length =
        rb.bufferSize := by rw [length_bytes]; omega
    calc (fun i => (overwrite _ 0 _).getD i 0)
      _ = store (fun i => (overwrite rb.bufferPtr rb.writeIndex
            (bytes ptr (rb.bufferSize - rb.writeIndex))).getD i 0) rb.bufferSize 0
            (bytes (fun i => ptr (rb.bufferSize - rb.writeIndex + i))
              (n - (rb.bufferSize - rb.writeIndex))) :=
          getD_overwrite_eq_store 0 hfirst (by rw [length_bytes]; omega)
      _ = store (store (fun i => rb.bufferPtr.getD i 0) rb.bufferSize rb.writeIndex
            (bytes ptr (rb.bufferSize - rb.writeIndex))) rb.bufferSize 0
            (bytes (fun i => ptr (rb.bufferSize - rb.writeIndex + i))
              (n - (rb.bufferSize - rb.writeIndex))) := by
          rw [← getD_overwrite_eq_store 0 hlength (by rw [length_bytes]; omega)]
          rfl
      _ = store (fun i => rb.bufferPtr.getD i 0) rb.bufferSize rb.writeIndex (bytes ptr n) := by
          conv_rhs => rw [show n = rb.bufferSize - rb.writeIndex +
            (n - (rb.bufferSize - rb.writeIndex)) by omega, bytes_add, store_append, hwrap,
            ← store_mod, Nat.mod_self]

/-- The write index behind the copies of a block. -/
theorem write_indexes (h : Holds rb q) (ptr : ℕ → UInt8) {n : ℕ} (hn : n ≤ rb.bufferSize) :
    (rb.writeIndex + n < rb.bufferSize ∧ (rb.write ptr n).writeMirror = rb.writeMirror ∧
      (rb.write ptr n).writeIndex = rb.writeIndex + n) ∨
    (rb.bufferSize ≤ rb.writeIndex + n ∧ (rb.write ptr n).writeMirror = !rb.writeMirror ∧
      (rb.write ptr n).writeIndex + rb.bufferSize = rb.writeIndex + n) := by
  have hsize := h.size
  have hlt := h.write_lt
  unfold RtRingbuffer.write
  split_ifs with hfits
  · exact .inl ⟨hfits, rfl, index15_of_lt (by omega)⟩
  · refine .inr ⟨by omega, rfl, ?_⟩
    show index15 (n - (rb.bufferSize - rb.writeIndex)) + rb.bufferSize = _
    rw [index15_of_lt (by omega)]
    omega

/-- A block that has room is put behind the bytes. -/
theorem write (h : Holds rb q) (ptr : ℕ → UInt8) {n : ℕ} (hn : n ≤ rb.bufferSize - q.length) :
    Holds (rb.write ptr n) (q ++ bytes ptr n) := by
  have hread := h.read
  have hroom := h.room
  have hcount : (q ++ bytes ptr n).length = q.length + n := by simp
  have hfits : n ≤ rb.bufferSize := by omega
  refine ⟨?_, ?_, ?_, ?_, ?_, ?_⟩
  · rw [h.length_write ptr hfits, RtRingbuffer.bufferSize_write]
  · rw [RtRingbuffer.bufferSize_write]
    exact h.size
  · rw [RtRingbuffer.bufferSize_write, RtRingbuffer.readIndex_write]
    exact hread
  · rw [RtRingbuffer.bufferSize_write, hcount]
    omega
  · rw [RtRingbuffer.bufferSize_write, RtRingbuffer.readIndex_write,
      RtRingbuffer.readMirror_write, hcount]
    rcases h.indexes with ⟨hmirror, hlt, heq⟩ | ⟨hmirror, heq⟩
    · rcases h.write_indexes ptr hfits with ⟨hno, hm, hi⟩ | ⟨hwrap, hm, hi⟩
      · exact .inl ⟨hmirror.trans hm.symm, by omega, by omega⟩
      · refine .inr ⟨?_, by omega⟩
        rw [hm, hmirror]
        exact (Bool.not_ne_self _).symm
    · rcases h.write_indexes ptr hfits with ⟨hno, hm, hi⟩ | ⟨hwrap, hm, hi⟩
      · exact .inr ⟨hm ▸ hmirror, by omega⟩
      · omega
  · rw [RtRingbuffer.bufferSize_write, RtRingbuffer.readIndex_write, hcount, h.getD_write ptr hfits,
      h.write_eq, store_mod]
    have hwindow := window_store (fun i => rb.bufferPtr.getD i 0) rb.readIndex
      (show q.length + (bytes ptr n).length ≤ rb.bufferSize by rw [length_bytes]; omega)
    rwa [length_bytes, h.content] at hwindow

/-- `rt_ringbuffer_put` puts as much of the block behind the bytes as has room. -/
theorem put (h : Holds rb q) (ptr : ℕ → UInt8) (length : UInt16) :
    Holds (rb.put ptr length).1 (q ++ bytes ptr (min length.toNat (rb.bufferSize - q.length))) ∧
      (rb.put ptr length).2 = min length.toNat (rb.bufferSize - q.length) := by
  simp only [RtRingbuffer.put, h.spaceLen_eq]
  split_ifs with hfull hdrop
  · rw [hfull, Nat.min_zero]
    exact ⟨by simpa [bytes] using h, rfl⟩
  · rw [Nat.min_eq_right hdrop.le]
    exact ⟨h.write ptr (Nat.le_refl _), rfl⟩
  · rw [Nat.min_eq_left (Nat.not_lt.mp hdrop)]
    exact ⟨h.write ptr (Nat.not_lt.mp hdrop), rfl⟩

/-- The bytes behind the first `n`, with the read index behind those. -/
theorem dropped (h : Holds rb q) {n : ℕ} (hn : n ≤ q.length) {mirror : Bool} {index : ℕ}
    (hindex : (rb.readIndex + n < rb.bufferSize ∧ mirror = rb.readMirror ∧
        index = rb.readIndex + n) ∨
      (rb.bufferSize ≤ rb.readIndex + n ∧ mirror = !rb.readMirror ∧
        index + rb.bufferSize = rb.readIndex + n)) :
    Holds { rb with readMirror := mirror, readIndex := index } (q.drop n) := by
  have hread := h.read
  have hroom := h.room
  have hcount : (q.drop n).length = q.length - n := List.length_drop
  have hmod : index % rb.bufferSize = (rb.readIndex + n) % rb.bufferSize := by
    rcases hindex with ⟨-, -, heq⟩ | ⟨-, -, heq⟩
    · rw [heq]
    · rw [← heq, Nat.add_mod_right]
  refine ⟨h.length, h.size, ?_, by rw [hcount]; show _ ≤ rb.bufferSize; omega, ?_, ?_⟩
  · show index < rb.bufferSize
    omega
  · show (mirror = rb.writeMirror ∧ rb.writeIndex < rb.bufferSize ∧
        rb.writeIndex = index + (q.drop n).length) ∨
      (mirror ≠ rb.writeMirror ∧ rb.writeIndex + rb.bufferSize = index + (q.drop n).length)
    rw [hcount]
    rcases h.indexes with ⟨hmirror, hlt, heq⟩ | ⟨hmirror, heq⟩
    · rcases hindex with ⟨hno, hm, hi⟩ | ⟨hwrap, hm, hi⟩
      · exact .inl ⟨hm.trans hmirror, hlt, by omega⟩
      · omega
    · rcases hindex with ⟨hno, hm, hi⟩ | ⟨hwrap, hm, hi⟩
      · exact .inr ⟨hm ▸ hmirror, by omega⟩
      · refine .inl ⟨?_, by omega, by omega⟩
        rw [hm]
        exact Bool.not_eq.mpr hmirror
  · show window _ rb.bufferSize index _ = _
    have hsplit := window_add (fun i => rb.bufferPtr.getD i 0) rb.bufferSize rb.readIndex n
      (q.length - n)
    rw [Nat.add_sub_cancel' hn, h.content] at hsplit
    rw [hcount, ← window_mod, hmod, window_mod]
    have hdrop := congrArg (List.drop n) hsplit
    rw [List.drop_left' (length_window _ _ _ _)] at hdrop
    exact hdrop.symm

/-- The first `n` bytes. -/
theorem take_eq (h : Holds rb q) {n : ℕ} (hn : n ≤ q.length) :
    q.take n = window (fun i => rb.bufferPtr.getD i 0) rb.bufferSize rb.readIndex n := by
  have hsplit := window_add (fun i => rb.bufferPtr.getD i 0) rb.bufferSize rb.readIndex n
    (q.length - n)
  rw [Nat.add_sub_cancel' hn, h.content] at hsplit
  rw [hsplit, List.take_left' (length_window _ _ _ _)]

/-- The read index behind the first `n` bytes. -/
theorem read_indexes (h : Holds rb q) {n : ℕ} (hn : n ≤ q.length) :
    Holds (if rb.readIndex + n < rb.bufferSize then
        { rb with readIndex := index15 (rb.readIndex + n) }
      else { rb with
        readMirror := !rb.readMirror
        readIndex := index15 (n - (rb.bufferSize - rb.readIndex)) }) (q.drop n) := by
  have hread := h.read
  have hroom := h.room
  have hsize := h.size
  split_ifs with hfits
  · exact h.dropped hn (.inl ⟨hfits, rfl, index15_of_lt (by omega)⟩)
  · refine h.dropped hn (.inr ⟨by omega, rfl, ?_⟩)
    rw [index15_of_lt (by omega)]
    omega

/-- `rt_ringbuffer_get` takes the first bytes, as many as there are. -/
theorem get (h : Holds rb q) (length : UInt16) :
    Holds (rb.get length).1 (q.drop length.toNat) ∧ (rb.get length).2 = q.take length.toNat := by
  have hread := h.read
  have hroom := h.room
  simp only [RtRingbuffer.get, h.dataLen_eq]
  by_cases hempty : q.length = 0
  · obtain rfl := List.length_eq_zero_iff.mp hempty
    rw [if_pos hempty, List.drop_nil, List.take_nil]
    exact ⟨h, rfl⟩
  · rw [if_neg hempty]
    obtain ⟨n, hn, hle, hdrop, htake⟩ : ∃ n,
        (if q.length < length.toNat then q.length else length.toNat) = n ∧ n ≤ q.length ∧
          q.drop length.toNat = q.drop n ∧ q.take length.toNat = q.take n := by
      by_cases hless : q.length < length.toNat
      · exact ⟨q.length, if_pos hless, Nat.le_refl _,
          by rw [List.drop_length, List.drop_of_length_le hless.le],
          by rw [List.take_length, List.take_of_length_le hless.le]⟩
      · exact ⟨length.toNat, if_neg hless, Nat.not_lt.mp hless, rfl, rfl⟩
    rw [hn, hdrop, htake, h.take_eq hle]
    have hindexes := h.read_indexes hle
    split_ifs at hindexes ⊢ with hfits
    · exact ⟨hindexes, take_drop_eq_window h.length (by omega)⟩
    · refine ⟨hindexes, ?_⟩
      have hsplit := window_add (fun i => rb.bufferPtr.getD i 0) rb.bufferSize rb.readIndex
        (rb.bufferSize - rb.readIndex) (n - (rb.bufferSize - rb.readIndex))
      have hwrap := window_mod (fun i => rb.bufferPtr.getD i 0) rb.bufferSize rb.bufferSize
        (n - (rb.bufferSize - rb.readIndex))
      rw [Nat.mod_self] at hwrap
      rw [Nat.add_sub_cancel' (by omega), Nat.add_sub_cancel' hread.le] at hsplit
      rw [hsplit, take_drop_eq_window h.length (by omega), ← hwrap]
      exact congrArg _ (take_drop_eq_window (i := 0) h.length (by omega))

/-- A byte is put like a block of one byte. -/
theorem advanceWrite_eq_write (h : Holds rb q) (ch : UInt8) :
    RtRingbuffer.advanceWrite { rb with bufferPtr := rb.bufferPtr.set rb.writeIndex ch } =
      rb.write (fun _ => ch) 1 := by
  have hlt := h.write_lt
  have hset : rb.bufferPtr.set rb.writeIndex ch =
      overwrite rb.bufferPtr rb.writeIndex (bytes (fun _ => ch) 1) := by
    rw [List.set_eq_take_append_cons_drop, if_pos (h.length ▸ hlt), overwrite, length_bytes,
      List.append_assoc]
    rfl
  by_cases hwrap : rb.writeIndex + 1 = rb.bufferSize
  · have hfirst : rb.bufferSize - rb.writeIndex = 1 := by omega
    simp only [RtRingbuffer.advanceWrite, RtRingbuffer.write, hwrap, if_true, Nat.lt_irrefl,
      if_false, hfirst, hset, Nat.sub_self]
    rfl
  · have hfits : rb.writeIndex + 1 < rb.bufferSize := by omega
    simp only [RtRingbuffer.advanceWrite, RtRingbuffer.write, hwrap, hfits, if_true, if_false, hset]

theorem putchar (h : Holds rb q) (ch : UInt8) :
    (q.length < rb.bufferSize → Holds (rb.putchar ch).1 (q ++ [ch]) ∧ (rb.putchar ch).2 = 1) ∧
      (¬ q.length < rb.bufferSize → rb.putchar ch = (rb, 0)) := by
  simp only [RtRingbuffer.putchar, h.spaceLen_eq]
  constructor
  · intro hroom
    rw [if_neg (by omega), h.advanceWrite_eq_write]
    exact ⟨h.write (fun _ => ch) (by omega), rfl⟩
  · intro hfull
    rw [if_pos (by omega)]

/-- A byte is taken like a block of one byte. -/
theorem getchar_eq_get (h : Holds rb q) : rb.getchar = rb.get 1 := by
  have hread := h.read
  have hone : (1 : UInt16).toNat = 1 := rfl
  simp only [RtRingbuffer.getchar, RtRingbuffer.get, h.dataLen_eq, hone]
  by_cases hempty : q.length = 0
  · rw [if_pos hempty, if_pos hempty]
  · have hmin : (if q.length < 1 then q.length else 1) = 1 := if_neg (by omega)
    have hfront : (rb.bufferPtr.drop rb.readIndex).take 1 = [rb.bufferPtr.getD rb.readIndex 0] := by
      rw [take_drop_eq_window h.length (by omega), window_succ, window_zero, Nat.add_zero,
        Nat.mod_eq_of_lt hread]
      rfl
    rw [if_neg hempty, if_neg hempty, hmin]
    by_cases hwrap : rb.readIndex + 1 = rb.bufferSize
    · have hfirst : rb.bufferSize - rb.readIndex = 1 := by omega
      rw [if_pos hwrap, if_neg (by omega), hfirst, hfront]
      rfl
    · rw [if_neg hwrap, if_pos (by omega), hfront]

theorem getchar (h : Holds rb q) : Holds rb.getchar.1 (q.drop 1) ∧ rb.getchar.2 = q.take 1 := by
  rw [h.getchar_eq_get]
  exact h.get 1

theorem reset (h : Holds rb q) : Holds rb.reset [] :=
  ⟨h.length, h.size, Nat.zero_lt_of_lt h.read, Nat.zero_le _,
    .inl ⟨rfl, Nat.zero_lt_of_lt h.read, rfl⟩, rfl⟩

/-- In a full buffer the oldest byte makes room. -/
theorem putcharForce (h : Holds rb q) (ch : UInt8) :
    Holds (rb.putcharForce ch).1
        ((if q.length < rb.bufferSize then q else q.tail) ++ [ch]) ∧
      (rb.putcharForce ch).2 = 1 := by
  by_cases hroom : q.length < rb.bufferSize
  · have hfull : rb.status ≠ .full := fun hfull => by
      have heq := h.full_iff.mp hfull
      omega
    have hsame : rb.putcharForce ch =
        (RtRingbuffer.advanceWrite { rb with bufferPtr := rb.bufferPtr.set rb.writeIndex ch }, 1) := by
      simp only [RtRingbuffer.putcharForce, if_neg hfull, ite_self]
    rw [hsame, if_pos hroom, h.advanceWrite_eq_write]
    exact ⟨h.write (fun _ => ch) (by omega), rfl⟩
  · have hread := h.read
    have hbound := h.room
    have hfull : rb.status = .full := h.full_iff.mpr (by omega)
    have hindex : rb.readIndex = rb.writeIndex := by
      rcases h.indexes with ⟨-, hlt, heq⟩ | ⟨-, heq⟩ <;> omega
    have htaken := h.getchar.1
    have hsize : rb.getchar.1.bufferSize = rb.bufferSize := by
      unfold RtRingbuffer.getchar
      split_ifs <;> rfl
    have hput := htaken.write (fun _ => ch) (n := 1) (by
      rw [hsize, List.length_drop]
      omega)
    -- the byte is written where the oldest one was
    have hsame : (rb.putcharForce ch).1 = rb.getchar.1.write (fun _ => ch) 1 := by
      rw [← htaken.advanceWrite_eq_write]
      by_cases hwrap : rb.writeIndex + 1 = rb.bufferSize
      · simp only [RtRingbuffer.putcharForce, RtRingbuffer.advanceWrite, RtRingbuffer.getchar,
          h.dataLen_eq, if_neg (show ¬ q.length = 0 by omega), hfull, hindex, hwrap, if_true]
      · simp only [RtRingbuffer.putcharForce, RtRingbuffer.advanceWrite, RtRingbuffer.getchar,
          h.dataLen_eq, if_neg (show ¬ q.length = 0 by omega), hfull, hindex, hwrap, if_true,
          if_false]
    rw [if_neg hroom, ← List.drop_one, hsame]
    refine ⟨hput, ?_⟩
    simp only [RtRingbuffer.putcharForce]
    split_ifs <;> rfl

/-- With room, `rt_ringbuffer_put_force` puts the block behind the bytes. -/
theorem putForce (h : Holds rb q) (ptr : ℕ → UInt8) {length : UInt16}
    (hroom : length.toNat ≤ rb.spaceLen) :
    Holds (rb.putForce ptr length).1 (q ++ bytes ptr length.toNat) ∧
      (rb.putForce ptr length).2 = length.toNat := by
  have hno : ¬ rb.spaceLen < length.toNat := Nat.not_lt.mpr hroom
  simp only [RtRingbuffer.putForce, if_neg hno]
  exact ⟨h.write ptr (h.spaceLen_eq ▸ hroom), trivial⟩

/-- Without room, `rt_ringbuffer_put_force` copies as many bytes as the buffer has. They are what
the buffer holds then, or it holds nothing. -/
theorem putForce_overflow (h : Holds rb q) (ptr : ℕ → UInt8) {length : UInt16}
    (hover : rb.spaceLen < length.toNat) :
    Holds (rb.putForce ptr length).1
        (if q ≠ [] ∧ rb.readMirror = rb.writeMirror then [] else bytes ptr rb.bufferSize) ∧
      (rb.putForce ptr length).2 = rb.bufferSize := by
  have hread := h.read
  have hbound := h.room
  have hlt := h.write_lt
  have hwraps : ¬ rb.writeIndex + rb.bufferSize < rb.bufferSize := by omega
  by_cases hempty : q = []
  · subst hempty
    have hspace : ¬ rb.spaceLen < rb.bufferSize := by
      rw [h.spaceLen_eq, List.length_nil]
      omega
    simp only [RtRingbuffer.putForce, if_pos hover, if_neg hspace, ne_eq, not_true_eq_false,
      false_and, if_false, and_true]
    exact h.write ptr (by simp)
  · have hpos := List.length_pos_of_ne_nil hempty
    have hspace : rb.spaceLen < rb.bufferSize := by
      rw [h.spaceLen_eq]
      omega
    obtain ⟨hmirror, hindex⟩ : (rb.write ptr rb.bufferSize).writeMirror = !rb.writeMirror ∧
        (rb.write ptr rb.bufferSize).writeIndex = rb.writeIndex := by
      rcases h.write_indexes ptr (Nat.le_refl _) with ⟨hno, -, -⟩ | ⟨-, hm, hi⟩
      · omega
      · exact ⟨hm, by omega⟩
    have hlength : (rb.write ptr rb.bufferSize).bufferPtr.length =
        (rb.write ptr rb.bufferSize).bufferSize := by
      rw [h.length_write ptr (Nat.le_refl _), RtRingbuffer.bufferSize_write]
    simp only [RtRingbuffer.putForce, if_pos hover, if_pos hspace, hwraps, not_false_eq_true,
      if_true, and_true, hempty, ne_eq, true_and]
    have hsize : (rb.write ptr rb.bufferSize).bufferSize = rb.bufferSize :=
      rb.bufferSize_write ptr _
    by_cases heq : rb.readMirror = rb.writeMirror
    · rw [if_pos heq]
      refine ⟨hlength, by simpa using h.size, by simpa [hindex] using hlt, Nat.zero_le _,
        .inl ⟨?_, by simpa [hindex] using hlt, rfl⟩, rfl⟩
      show (!(rb.write ptr rb.bufferSize).readMirror) = (rb.write ptr rb.bufferSize).writeMirror
      rw [hmirror, RtRingbuffer.readMirror_write, heq]
    · rw [if_neg heq]
      refine ⟨hlength, by simpa using h.size, by simpa [hindex] using hlt, by simp,
        .inr ⟨?_, by simp⟩, ?_⟩
      · show (!(rb.write ptr rb.bufferSize).readMirror) ≠ (rb.write ptr rb.bufferSize).writeMirror
        rw [hmirror, RtRingbuffer.readMirror_write]
        exact fun hnot => heq (Bool.not_inj hnot)
      · show window (fun i => (rb.write ptr rb.bufferSize).bufferPtr.getD i 0)
          (rb.write ptr rb.bufferSize).bufferSize (rb.write ptr rb.bufferSize).writeIndex _ = _
        have hwindow := window_store (fun i => rb.bufferPtr.getD i 0) rb.writeIndex
          (show 0 + (bytes ptr rb.bufferSize).length ≤ rb.bufferSize by simp)
        rw [hsize, hindex, h.getD_write ptr (Nat.le_refl _)]
        simpa using hwindow

end Holds

/-! ## Runs -/

section Runs

variable {s s' : RbSystem} {f : Fifo}

/-- The size stays. -/
theorem bufferSize_step {a : RbAction} (hstep : rbStep s a = some s') :
    s'.rb.bufferSize = s.rb.bufferSize := by
  cases a <;> obtain rfl := Option.some.inj hstep
  case put ptr length =>
    show (s.rb.put ptr length).1.bufferSize = _
    simp only [RtRingbuffer.put]
    split_ifs <;> simp
  case putForce ptr length =>
    show (s.rb.putForce ptr length).1.bufferSize = _
    simp only [RtRingbuffer.putForce]
    split_ifs <;> simp
  case get length =>
    show (s.rb.get length).1.bufferSize = _
    simp only [RtRingbuffer.get]
    split_ifs <;> rfl
  case putchar ch =>
    show (s.rb.putchar ch).1.bufferSize = _
    simp only [RtRingbuffer.putchar, RtRingbuffer.advanceWrite]
    split_ifs <;> rfl
  case putcharForce ch =>
    show (s.rb.putcharForce ch).1.bufferSize = _
    simp only [RtRingbuffer.putcharForce, RtRingbuffer.advanceWrite]
    split_ifs <;> rfl
  case getchar =>
    show s.rb.getchar.1.bufferSize = _
    simp only [RtRingbuffer.getchar]
    split_ifs <;> rfl
  case dataLen => rfl
  case reset => rfl

/-- One call does to the bytes what it does to a queue. -/
theorem Holds.step (h : Holds s.rb f.held) (hresults : s.results = f.results) {a : RbAction}
    (hroomy : Roomy s a) (hstep : rbStep s a = some s') :
    ∃ f', fifoStep s.rb.bufferSize f a = some f' ∧ Holds s'.rb f'.held ∧
      s'.results = f'.results := by
  cases a with
  | put ptr length =>
      obtain ⟨hput, hn⟩ := h.put ptr length
      obtain rfl := Option.some.inj hstep
      exact ⟨_, rfl, hput, by simp only [RbSystem.returns, Fifo.returns, hresults, hn]⟩
  | putForce ptr length =>
      obtain ⟨hput, hn⟩ := h.putForce ptr hroomy
      obtain rfl := Option.some.inj hstep
      exact ⟨_, rfl, hput, by simp only [RbSystem.returns, Fifo.returns, hresults, hn]⟩
  | get length =>
      obtain ⟨hget, hout⟩ := h.get length
      obtain rfl := Option.some.inj hstep
      exact ⟨_, rfl, hget, by simp only [RbSystem.returns, Fifo.returns, hresults, hout]⟩
  | putchar ch =>
      obtain ⟨hroom, hfull⟩ := h.putchar ch
      obtain rfl := Option.some.inj hstep
      by_cases hlt : f.held.length < s.rb.bufferSize
      · obtain ⟨hput, hn⟩ := hroom hlt
        exact ⟨_, if_pos hlt, hput, by simp only [RbSystem.returns, Fifo.returns, hresults, hn]⟩
      · have heq := hfull hlt
        refine ⟨_, if_neg hlt, ?_, by simp only [RbSystem.returns, Fifo.returns, hresults, heq]⟩
        show Holds (s.rb.putchar ch).1 f.held
        rw [heq]
        exact h
  | putcharForce ch =>
      obtain ⟨hput, hn⟩ := h.putcharForce ch
      obtain rfl := Option.some.inj hstep
      exact ⟨_, rfl, hput, by simp only [RbSystem.returns, Fifo.returns, hresults, hn]⟩
  | getchar =>
      obtain ⟨hget, hout⟩ := h.getchar
      obtain rfl := Option.some.inj hstep
      exact ⟨_, rfl, hget, by simp only [RbSystem.returns, Fifo.returns, hresults, hout]⟩
  | dataLen =>
      obtain rfl := Option.some.inj hstep
      exact ⟨_, rfl, h, by simp only [RbSystem.returns, Fifo.returns, hresults, h.dataLen_eq]⟩
  | reset =>
      obtain rfl := Option.some.inj hstep
      exact ⟨_, rfl, h.reset, by simp only [RbSystem.returns, Fifo.returns, hresults]⟩

/-- Every call leaves a ring buffer that holds something. -/
theorem Holds.step_any {q : List UInt8} (h : Holds s.rb q) {a : RbAction}
    (hstep : rbStep s a = some s') : ∃ q', Holds s'.rb q' := by
  by_cases hroomy : Roomy s a
  · obtain ⟨f', -, hholds, -⟩ := Holds.step (f := ⟨q, s.results⟩) h rfl hroomy hstep
    exact ⟨f'.held, hholds⟩
  · cases a with
    | putForce ptr length =>
        obtain rfl := Option.some.inj hstep
        exact ⟨_, (h.putForce_overflow ptr (Nat.not_le.mp hroomy)).1⟩
    | _ => exact absurd trivial hroomy

variable {size : UInt16} {pool : List UInt8} {as : List RbAction}

/-- As long as no block is put by force without room, a ring buffer is a queue: the calls return
the same, copy the same bytes, and leave the same bytes in it. -/
theorem ringbuffer_refines (hpool : pool.length = rtAlignDown size) (hpos : 4 ≤ size.toNat)
    (hsize : size.toNat < 2 ^ 15)
    (h : Run rbStep Roomy ⟨rtRingbufferCreate size pool, []⟩ as s) :
    ∃ f, Run (fifoStep (rtAlignDown size)) unconditional ⟨[], []⟩ as f ∧ s.rb.held = f.held ∧
      s.results = f.results ∧ f.held.length ≤ rtAlignDown size := by
  have halign : rtAlignDown size < 2 ^ 15 := by
    unfold rtAlignDown
    omega
  have hcreate := holds_create hpool (show 0 < rtAlignDown size by unfold rtAlignDown; omega) halign
  suffices hrefines : ∃ f, Run (fifoStep (rtAlignDown size)) unconditional ⟨[], []⟩ as f ∧
      Holds s.rb f.held ∧ s.results = f.results ∧ s.rb.bufferSize = rtAlignDown size by
    obtain ⟨f, hrun, hholds, hresults, hbuffer⟩ := hrefines
    exact ⟨f, hrun, hholds.held_eq, hresults, hbuffer ▸ hholds.room⟩
  induction h with
  | nil => exact ⟨⟨[], []⟩, .nil, hcreate, rfl, rfl⟩
  | snoc _ hroomy hstep ih =>
      obtain ⟨f, hrun, hholds, hresults, hbuffer⟩ := ih
      obtain ⟨f', hfifo, hholds', hresults'⟩ := hholds.step hresults hroomy hstep
      exact ⟨f', hrun.snoc trivial (hbuffer ▸ hfifo), hholds', hresults',
        (bufferSize_step hstep).trans hbuffer⟩

/-- A block that wraps, and one that is cut. -/
theorem ringbuffer_refines_wraps :
    ∃ s, Run rbStep Roomy ⟨rtRingbufferCreate 6 [0, 0, 0, 0], []⟩
      [.put (fun i => UInt8.ofNat (i + 1)) 3, .get 2, .put (fun i => UInt8.ofNat (i + 4)) 9,
        .putcharForce 9, .get 7] s ∧
      decide (s.results = [(3, []), (2, [1, 2]), (3, []), (1, []), (4, [4, 5, 6, 9])]) = true ∧
      ∃ f, Run (fifoStep (rtAlignDown 6)) unconditional ⟨[], []⟩
        [.put (fun i => UInt8.ofNat (i + 1)) 3, .get 2, .put (fun i => UInt8.ofNat (i + 4)) 9,
          .putcharForce 9, .get 7] f ∧ s.rb.held = f.held ∧
        s.results = f.results ∧ f.held.length ≤ rtAlignDown 6 := by
  obtain ⟨s, hrun, hp⟩ := Run.exists_of_exec rbStep Roomy ⟨rtRingbufferCreate 6 [0, 0, 0, 0], []⟩
    [.put (fun i => UInt8.ofNat (i + 1)) 3, .get 2, .put (fun i => UInt8.ofNat (i + 4)) 9,
      .putcharForce 9, .get 7]
    (fun s => decide (s.results = [(3, []), (2, [1, 2]), (3, []), (1, []), (4, [4, 5, 6, 9])]))
    (by decide)
  exact ⟨s, hrun, hp, ringbuffer_refines rfl (by decide) (by decide) hrun⟩

/-- What `rt_ringbuffer_put_force` does behind any calls. A block that has no room is not put behind
the bytes, and does not push out the old ones: the buffer holds as many bytes as it has room for
from the memory at `ptr`, however short the block is, or nothing at all. -/
theorem ringbuffer_putForce (hpool : pool.length = rtAlignDown size) (hpos : 4 ≤ size.toNat)
    (hsize : size.toNat < 2 ^ 15)
    (h : Run rbStep unconditional ⟨rtRingbufferCreate size pool, []⟩ as s) (ptr : ℕ → UInt8)
    (length : UInt16) :
    (length.toNat ≤ rtAlignDown size - s.rb.held.length →
      (s.rb.putForce ptr length).1.held = s.rb.held ++ bytes ptr length.toNat) ∧
    (rtAlignDown size - s.rb.held.length < length.toNat →
      (s.rb.putForce ptr length).1.held =
        if s.rb.held ≠ [] ∧ s.rb.readMirror = s.rb.writeMirror then []
        else bytes ptr (rtAlignDown size)) := by
  have halign : rtAlignDown size < 2 ^ 15 := by
    unfold rtAlignDown
    omega
  have hcreate := holds_create hpool (show 0 < rtAlignDown size by unfold rtAlignDown; omega) halign
  obtain ⟨⟨q, hholds⟩, hbuffer⟩ := h.invariant
    (fun s : RbSystem => (∃ q, Holds s.rb q) ∧ s.rb.bufferSize = rtAlignDown size)
    (fun _ _ _ ⟨⟨q, hq⟩, hb⟩ _ hstep => ⟨hq.step_any hstep, (bufferSize_step hstep).trans hb⟩)
    ⟨⟨[], hcreate⟩, rfl⟩
  rw [hholds.held_eq, ← hbuffer, ← hholds.spaceLen_eq]
  exact ⟨fun hroom => (hholds.putForce ptr hroom).1.held_eq,
    fun hover => (hholds.putForce_overflow ptr hover).1.held_eq⟩

/-- One byte is put by force into a full buffer: the three bytes behind it in memory go in too. -/
theorem ringbuffer_putForce_garbage :
    ∃ s, Run rbStep unconditional ⟨rtRingbufferCreate 4 [0, 0, 0, 0], []⟩
      [.put (fun i => UInt8.ofNat (i + 1)) 4] s ∧
      decide (s.rb.held = [1, 2, 3, 4]) = true ∧
      ((1 : UInt16).toNat ≤ rtAlignDown 4 - s.rb.held.length →
        (s.rb.putForce (fun i => UInt8.ofNat (i + 70)) 1).1.held =
          s.rb.held ++ bytes (fun i => UInt8.ofNat (i + 70)) (1 : UInt16).toNat) ∧
      (rtAlignDown 4 - s.rb.held.length < (1 : UInt16).toNat →
        (s.rb.putForce (fun i => UInt8.ofNat (i + 70)) 1).1.held =
          if s.rb.held ≠ [] ∧ s.rb.readMirror = s.rb.writeMirror then []
          else bytes (fun i => UInt8.ofNat (i + 70)) (rtAlignDown 4)) := by
  obtain ⟨s, hrun, hp⟩ := Run.exists_of_exec rbStep unconditional
    ⟨rtRingbufferCreate 4 [0, 0, 0, 0], []⟩ [.put (fun i => UInt8.ofNat (i + 1)) 4]
    (fun s => decide (s.rb.held = [1, 2, 3, 4])) (by decide)
  exact ⟨s, hrun, hp, ringbuffer_putForce rfl (by decide) (by decide) hrun _ _⟩

end Runs

end Drivers
