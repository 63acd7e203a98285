import Esp32AtMqtt.Memory.Flat

/-!
# The send buffer of the MQTT SDK

`struct MqttBuffer` of `mqtt_buffer.c`: a list of extents, each a length and the
address of its bytes, cut out of chunks obtained from `malloc`. The list from
`first_ext` along the `next` pointers is a `List`. The buffer's bytes live in the
flat memory, so an extent may also refer to bytes that the buffer does not own.

`MqttHeap` is what the functions share with the rest of the program: the memory,
what the coming calls of `malloc` return, and the addresses freed so far.
-/

namespace Mqtt

open FlatMemory

/-- `sizeof(struct MqttExtent)` on the 32-bit target. -/
def sizeofMqttExtent : UInt32 := 12

/-- `MQTT_DEFAULT_ALIGNMENT`, the size of an `int`. -/
def mqttDefaultAlignment : UInt32 := 4

/-- `MQTT_MIN_EXTENT_SIZE`. -/
def mqttMinExtentSize : UInt32 := 1024

/-- `struct MqttExtent` without its `next` pointer, which is the list's order. -/
structure MqttExtent where
  len : UInt32
  payload : UInt32
  deriving DecidableEq, Repr

/-- `struct MqttBuffer`. The pointer array `allocations` is kept as its bytes,
since growing it copies a number of bytes. -/
structure MqttBuffer where
  extents : List MqttExtent
  availableBytes : UInt32
  allocationsPtr : Option UInt32
  allocations : List UInt8
  firstAvailable : UInt32
  allocCount : UInt32
  allocMaxCount : UInt32
  bufferedBytes : UInt32
  deriving DecidableEq, Repr

/-- The memory, the results of the coming `malloc` calls (none left means that
they fail), and the addresses passed to `free` so far. -/
structure MqttHeap where
  mem : UInt32 → UInt8
  mallocs : List (Option UInt32)
  freed : List UInt32

/-- `malloc`. -/
def MqttHeap.malloc (h : MqttHeap) : Option UInt32 × MqttHeap :=
  (h.mallocs.head?.join, { h with mallocs := h.mallocs.tail })

/-- `free`; freeing `NULL` does nothing. -/
def MqttHeap.free (h : MqttHeap) (p : Option UInt32) : MqttHeap :=
  { h with freed := h.freed ++ p.toList }

/-- Store bytes in memory. -/
def MqttHeap.write (h : MqttHeap) (base : UInt32) (bytes : List UInt8) : MqttHeap :=
  { h with mem := writeMem h.mem base bytes }

/-- The next `n` calls of `malloc` succeed. -/
def MqttHeap.Supplies (h : MqttHeap) (n : ℕ) : Prop :=
  ∀ i < n, ∃ p, h.mallocs[i]? = some (some p)

/-- `MqttBuffer_Init(buf)`. -/
def mqttBufferInit : MqttBuffer := ⟨[], 0, none, [], 0, 0, 0, 0⟩

/-- The four bytes of a pointer, lowest first. -/
def ptrBytes (p : UInt32) : List UInt8 :=
  [p.toUInt8, (p >>> 8).toUInt8, (p >>> 16).toUInt8, (p >>> 24).toUInt8]

/-- Store a pointer at the index `i` of the pointer array. -/
def setPtr (array : List UInt8) (i : ℕ) (p : UInt32) : List UInt8 :=
  array.take (4 * i) ++ ptrBytes p ++ array.drop (4 * i + 4)

/-- The pointer at the index `i` of the pointer array. -/
def getPtr (array : List UInt8) (i : ℕ) : UInt32 :=
  ((array.drop (4 * i)).take 4).foldr (fun b p => b.toUInt32 ||| (p <<< 8)) 0

/-- The part of `MqttBuffer_AllocExtent` that doubles the pointer array when it is
full; `false` when `malloc` fails. Of the old array `alloc_max_count` bytes are
copied, not as many entries. -/
def mqttBufferGrow (buf : MqttBuffer) (h : MqttHeap) : Bool × MqttBuffer × MqttHeap :=
  if buf.allocCount = buf.allocMaxCount then
    let maxCount := buf.allocMaxCount * 2 + 1
    match h.malloc with
    | (none, h) => (false, buf, h)
    | (some tmp, h) =>
        let copied := buf.allocations.take buf.allocMaxCount.toNat
        let zeroed := List.replicate (4 * maxCount.toNat - copied.length) 0
        (true, { buf with
          allocMaxCount := maxCount
          allocationsPtr := some tmp
          allocations := copied ++ zeroed }, h.free buf.allocationsPtr)
  else (true, buf, h)

/-- The part of `MqttBuffer_AllocExtent` that obtains a new chunk. The rest of the
chunk in use is given up. -/
def mqttBufferAddChunk (buf : MqttBuffer) (alignedBytes : UInt32) (h : MqttHeap) :
    Bool × MqttBuffer × MqttHeap :=
  match mqttBufferGrow buf h with
  | (false, buf, h) => (false, buf, h)
  | (true, buf, h) =>
      let allocBytes :=
        if alignedBytes < mqttMinExtentSize then mqttMinExtentSize else alignedBytes
      match h.malloc with
      | (none, h) => (false, buf, h)
      | (some chunk, h) =>
          (true, { buf with
            allocCount := buf.allocCount + 1
            allocations := setPtr buf.allocations buf.allocCount.toNat chunk
            availableBytes := allocBytes
            firstAvailable := chunk }, h)

/-- The size of an extent for `bytes` payload bytes, rounded up to the alignment. -/
def alignedSize (bytes : UInt32) : UInt32 :=
  let alignedBytes := bytes + sizeofMqttExtent
  alignedBytes +
    (mqttDefaultAlignment - alignedBytes % mqttDefaultAlignment) % mqttDefaultAlignment

/-- `MqttBuffer_AllocExtent(buf, bytes)`; `none` is the null pointer. -/
def mqttBufferAllocExtent (buf : MqttBuffer) (bytes : UInt32) (h : MqttHeap) :
    Option MqttExtent × MqttBuffer × MqttHeap :=
  let alignedBytes := alignedSize bytes
  let r :=
    if buf.availableBytes < alignedBytes then mqttBufferAddChunk buf alignedBytes h
    else (true, buf, h)
  match r with
  | (false, buf, h) => (none, buf, h)
  | (true, buf, h) =>
      (some ⟨bytes, buf.firstAvailable + sizeofMqttExtent⟩, { buf with
        firstAvailable := buf.firstAvailable + alignedBytes
        availableBytes := buf.availableBytes - alignedBytes }, h)

/-- `MqttBuffer_AppendExtent(buf, ext)`. -/
def mqttBufferAppendExtent (buf : MqttBuffer) (ext : MqttExtent) : MqttBuffer :=
  { buf with
    extents := buf.extents ++ [ext]
    bufferedBytes := buf.bufferedBytes + ext.len }

/-- The addresses that `MqttBuffer_Reset` frees from the pointer array. -/
def mqttBufferChunks (buf : MqttBuffer) : List UInt32 :=
  (List.range buf.allocCount.toNat).map (getPtr buf.allocations)

/-- `MqttBuffer_Reset(buf)`, which `MqttBuffer_Destroy` also is. -/
def mqttBufferReset (buf : MqttBuffer) (h : MqttHeap) : MqttBuffer × MqttHeap :=
  (mqttBufferInit,
    { h with freed := h.freed ++ mqttBufferChunks buf ++ buf.allocationsPtr.toList })

/-- The bytes that the extents refer to, one after the other. -/
def flattenExtents (mem : UInt32 → UInt8) (es : List MqttExtent) : List UInt8 :=
  es.flatMap fun e => readMem mem e.payload e.len.toNat

/-- The sum of the lengths of the extents. -/
def extentsLength (es : List MqttExtent) : ℕ := (es.map fun e => e.len.toNat).sum

@[simp] theorem flattenExtents_nil (mem : UInt32 → UInt8) :
    flattenExtents mem [] = [] := rfl

theorem flattenExtents_cons (mem : UInt32 → UInt8) (e : MqttExtent)
    (es : List MqttExtent) :
    flattenExtents mem (e :: es) =
      readMem mem e.payload e.len.toNat ++ flattenExtents mem es := rfl

@[simp] theorem extentsLength_nil : extentsLength [] = 0 := rfl

theorem extentsLength_cons (e : MqttExtent) (es : List MqttExtent) :
    extentsLength (e :: es) = e.len.toNat + extentsLength es := rfl

theorem length_flattenExtents (mem : UInt32 → UInt8) (es : List MqttExtent) :
    (flattenExtents mem es).length = extentsLength es := by
  induction es with
  | nil => rfl
  | cons e es ih =>
      rw [flattenExtents_cons, List.length_append, length_readMem, ih, extentsLength_cons]

theorem MqttHeap.Supplies.mono {h : MqttHeap} {m n : ℕ} (hs : h.Supplies n) (hle : m ≤ n) :
    h.Supplies m := fun i hi => hs i (Nat.lt_of_lt_of_le hi hle)

/-- A call of `malloc` that succeeds. -/
theorem MqttHeap.Supplies.malloc {h : MqttHeap} {n : ℕ} (hs : h.Supplies (n + 1)) :
    ∃ p h', h.malloc = (some p, h') ∧ h'.Supplies n ∧ h'.mem = h.mem := by
  obtain ⟨p, hp⟩ := hs 0 (by omega)
  refine ⟨p, { h with mallocs := h.mallocs.tail }, ?_, fun i hi => ?_, rfl⟩
  · rw [MqttHeap.malloc, List.head?_eq_getElem?, hp]
    rfl
  · obtain ⟨q, hq⟩ := hs (i + 1) (by omega)
    exact ⟨q, by rw [← hq, List.getElem?_tail]⟩

/-- Growing the pointer array changes neither the list of extents nor the memory. -/
theorem mqttBufferGrow_frame (buf : MqttBuffer) (h : MqttHeap) :
    (mqttBufferGrow buf h).2.1.extents = buf.extents ∧
      (mqttBufferGrow buf h).2.1.bufferedBytes = buf.bufferedBytes ∧
      (mqttBufferGrow buf h).2.2.mem = h.mem := by
  rw [mqttBufferGrow]
  split_ifs
  · cases hm : h.malloc with
    | mk p h' =>
        obtain rfl : { h with mallocs := h.mallocs.tail } = h' := congrArg Prod.snd hm
        cases p <;> exact ⟨rfl, rfl, rfl⟩
  · exact ⟨rfl, rfl, rfl⟩

/-- Nor does a new chunk. -/
theorem mqttBufferAddChunk_frame (buf : MqttBuffer) (n : UInt32) (h : MqttHeap) :
    (mqttBufferAddChunk buf n h).2.1.extents = buf.extents ∧
      (mqttBufferAddChunk buf n h).2.1.bufferedBytes = buf.bufferedBytes ∧
      (mqttBufferAddChunk buf n h).2.2.mem = h.mem := by
  have hgrow := mqttBufferGrow_frame buf h
  rw [mqttBufferAddChunk]
  match hg : mqttBufferGrow buf h with
  | (false, buf₁, h₁) => simpa only [hg] using hgrow
  | (true, buf₁, h₁) =>
      simp only [hg] at hgrow ⊢
      cases hm : h₁.malloc with
      | mk p h' =>
          obtain rfl : { h₁ with mallocs := h₁.mallocs.tail } = h' := congrArg Prod.snd hm
          cases p <;> exact hgrow

/-- Allocating an extent changes neither the list of extents nor the memory. -/
theorem mqttBufferAllocExtent_frame (buf : MqttBuffer) (n : UInt32) (h : MqttHeap) :
    (mqttBufferAllocExtent buf n h).2.1.extents = buf.extents ∧
      (mqttBufferAllocExtent buf n h).2.1.bufferedBytes = buf.bufferedBytes ∧
      (mqttBufferAllocExtent buf n h).2.2.mem = h.mem := by
  have hadd := mqttBufferAddChunk_frame buf (alignedSize n) h
  simp only [mqttBufferAllocExtent]
  split_ifs
  · match hr : mqttBufferAddChunk buf (alignedSize n) h with
    | (false, buf₁, h₁) => simpa only [hr] using hadd
    | (true, buf₁, h₁) => simpa only [hr] using hadd
  · exact ⟨rfl, rfl, rfl⟩

/-- An extent is allocated when the two calls of `malloc` that it may take succeed. -/
theorem allocExtent_of_supplies (buf : MqttBuffer) (bytes : UInt32) {h : MqttHeap} {n : ℕ}
    (hs : h.Supplies (n + 2)) :
    ∃ p buf' h', mqttBufferAllocExtent buf bytes h = (some ⟨bytes, p⟩, buf', h') ∧
      h'.Supplies n := by
  have hgrow : ∃ buf' h', mqttBufferGrow buf h = (true, buf', h') ∧ h'.Supplies (n + 1) := by
    rw [mqttBufferGrow]
    split_ifs
    · obtain ⟨tmp, h', hm, hs', -⟩ := hs.malloc
      simp only [hm]
      exact ⟨_, _, rfl, hs'⟩
    · exact ⟨_, _, rfl, hs.mono (by omega)⟩
  rw [mqttBufferAllocExtent]
  split_ifs
  · obtain ⟨buf₁, h₁, hgrow, hs₁⟩ := hgrow
    obtain ⟨chunk, h₂, hm, hs₂, -⟩ := hs₁.malloc
    simp only [mqttBufferAddChunk, hgrow, hm]
    exact ⟨_, _, _, rfl, hs₂⟩
  · exact ⟨_, _, _, rfl, hs.mono (by omega)⟩

/-- `buffered_bytes` is the number of bytes that the extents hold. -/
def MqttBuffer.Counted (buf : MqttBuffer) : Prop :=
  buf.bufferedBytes.toNat = extentsLength buf.extents

end Mqtt
