import Esp32AtMqtt.Memory.Region
import Esp32AtMqtt.Mqtt.Dispatch
import Esp32AtMqtt.Transition.Run

/-!
# The chunks and extents of a send buffer

`MqttBuffer_AllocExtent` cuts extents out of chunks, as an arena does, and notes every
chunk in the pointer array, from which `MqttBuffer_Reset` frees them. Here are runs of
`MqttBuffer_AllocExtent` and `MqttBuffer_Append` on a buffer, with the chunks obtained and
the extents returned kept beside it.

Two things go wrong. The size of an extent is rounded up in 32 bits, so the largest
requests wrap and get an extent that is too small (`SizeOk`). And when the full pointer
array is doubled, `alloc_max_count` bytes of it are copied and not as many pointers, so
every pointer is lost that has a byte which is not zero among the others (`GrowthKeeps`).
-/

namespace Mqtt

open FlatMemory Transition

/-- `MqttBuffer_Append(buf, payload, size, own)`. -/
def mqttBufferAppend (buf : MqttBuffer) (payload size : UInt32) (own : Bool) (h : MqttHeap) :
    ℤ × MqttBuffer × MqttHeap :=
  let bytes := if own then size else sizeofMqttExtent
  match mqttBufferAllocExtent buf bytes h with
  | (none, buf, h) => (mqtterrOutofmemory, buf, h)
  | (some ext, buf, h) =>
      if own then
        (mqtterrNoerror, mqttBufferAppendExtent buf ext,
          h.write ext.payload (readMem h.mem payload size.toNat))
      else (mqtterrNoerror, mqttBufferAppendExtent buf ⟨size, payload⟩, h)

/-- How `MqttBuffer_Append` ends. -/
theorem mqttBufferAppend_cases (buf : MqttBuffer) (payload size : UInt32) (own : Bool)
    (h : MqttHeap) {bytes : UInt32} (hbytes : bytes = if own then size else sizeofMqttExtent) :
    (∃ buf' h', mqttBufferAllocExtent buf bytes h = (none, buf', h') ∧
      mqttBufferAppend buf payload size own h = (mqtterrOutofmemory, buf', h')) ∨
    ∃ ext buf' h', mqttBufferAllocExtent buf bytes h = (some ext, buf', h') ∧
      mqttBufferAppend buf payload size own h =
        if own then
          (mqtterrNoerror, mqttBufferAppendExtent buf' ext,
            h'.write ext.payload (readMem h'.mem payload size.toNat))
        else (mqtterrNoerror, mqttBufferAppendExtent buf' ⟨size, payload⟩, h') := by
  delta mqttBufferAppend
  dsimp only
  rw [← hbytes]
  match mqttBufferAllocExtent buf bytes h with
  | (none, buf', h') => exact .inl ⟨buf', h', rfl, rfl⟩
  | (some ext, buf', h') => exact .inr ⟨ext, buf', h', rfl, rfl⟩

/-- A call on a buffer. -/
inductive BufferCall
  | allocExtent (bytes : UInt32)
  | append (payload size : UInt32) (own : Bool)
  deriving DecidableEq, Repr

namespace BufferCall

/-- The size of the extent that the call asks for. -/
def bytes : BufferCall → UInt32
  | allocExtent bytes => bytes
  | append _ size own => if own then size else sizeofMqttExtent

/-- The buffer and the heap behind the call. -/
def run (buf : MqttBuffer) (h : MqttHeap) : BufferCall → MqttBuffer × MqttHeap
  | allocExtent bytes => (mqttBufferAllocExtent buf bytes h).2
  | append payload size own => (mqttBufferAppend buf payload size own h).2

end BufferCall

/-- The chunk that `MqttBuffer_AllocExtent` obtains, if it needs one and gets it. -/
def obtainedChunk (buf : MqttBuffer) (bytes : UInt32) (h : MqttHeap) : Option Region :=
  if buf.availableBytes < alignedSize bytes then
    match mqttBufferAddChunk buf (alignedSize bytes) h with
    | (true, buf, _) => some ⟨buf.firstAvailable, buf.availableBytes.toNat⟩
    | (false, _, _) => none
  else none

/-- The bytes of an extent: the structure, and the payload behind it. -/
def MqttExtent.region (e : MqttExtent) : Region :=
  ⟨e.payload - sizeofMqttExtent, sizeofMqttExtent.toNat + e.len.toNat⟩

/-- A buffer with the chunks obtained and the extents returned so far. -/
structure LedgerState where
  buf : MqttBuffer
  heap : MqttHeap
  chunks : List Region
  extents : List Region

/-- A fresh buffer. -/
def ledgerInit : LedgerState := ⟨mqttBufferInit, ⟨fun _ => 0, [], []⟩, [], []⟩

/-- The heap, with the results of the coming `malloc` calls. -/
def LedgerState.supplied (s : LedgerState) (mallocs : List (Option UInt32)) : MqttHeap :=
  { s.heap with mallocs := mallocs }

/-- One call, with the results of the `malloc` calls that it makes. -/
def ledgerStep (s : LedgerState) (a : BufferCall × List (Option UInt32)) : Option LedgerState :=
  let h := s.supplied a.2
  let ext := (mqttBufferAllocExtent s.buf a.1.bytes h).1
  some ⟨(a.1.run s.buf h).1, (a.1.run s.buf h).2,
    s.chunks ++ (obtainedChunk s.buf a.1.bytes h).toList,
    s.extents ++ (ext.map MqttExtent.region).toList⟩

/-- What `malloc` promises: a chunk ends before the memory does and shares no byte with the
chunks in use. -/
def MallocOk (s : LedgerState) (a : BufferCall × List (Option UInt32)) : Prop :=
  ∀ c ∈ obtainedChunk s.buf a.1.bytes (s.supplied a.2),
    c.Fits ∧ ∀ d ∈ s.chunks, d.Disjoint c

/-- The size asked for can be rounded up. -/
def SizeOk (a : BufferCall × List (Option UInt32)) : Prop := a.1.bytes.toNat ≤ 2 ^ 32 - 16

/-- When the call finds the pointer array full, the part of it that is not copied holds
zeros only: above all, there is no pointer yet. -/
def GrowthKeeps (s : LedgerState) (a : BufferCall × List (Option UInt32)) : Prop :=
  s.buf.availableBytes < alignedSize a.1.bytes → s.buf.allocCount = s.buf.allocMaxCount →
    ∀ b ∈ s.buf.allocations.drop s.buf.allocMaxCount.toNat, b = 0

instance (s : LedgerState) (a : BufferCall × List (Option UInt32)) : Decidable (MallocOk s a) :=
  inferInstanceAs (Decidable (∀ c ∈ obtainedChunk s.buf a.1.bytes (s.supplied a.2), _))

instance (a : BufferCall × List (Option UInt32)) : Decidable (SizeOk a) :=
  inferInstanceAs (Decidable (_ ≤ _))

instance (s : LedgerState) (a : BufferCall × List (Option UInt32)) : Decidable (GrowthKeeps s a) :=
  inferInstanceAs (Decidable (_ → _ → ∀ b ∈ s.buf.allocations.drop s.buf.allocMaxCount.toNat, b = 0))

/-- Every extent lies wholly inside one chunk, and shares no byte with another one. -/
structure ExtentsOk (s : LedgerState) : Prop where
  within : ∀ e ∈ s.extents, ∃ c ∈ s.chunks, e.Within c
  disjoint : s.extents.Pairwise Region.Disjoint

/-- The pointer array lists every chunk once, in the order in which they were obtained, so
`MqttBuffer_Reset` frees each of them once, and besides them the array. -/
structure LedgerOk (s : LedgerState) : Prop where
  listed : mqttBufferChunks s.buf = s.chunks.map Region.base
  nodup : (s.chunks.map Region.base).Nodup
  reset : (mqttBufferReset s.buf s.heap).2.freed =
    s.heap.freed ++ s.chunks.map Region.base ++ s.buf.allocationsPtr.toList

/-- The size of an extent is rounded up to the alignment. -/
theorem toNat_alignedSize {bytes : UInt32} (h : bytes.toNat ≤ 2 ^ 32 - 16) :
    (alignedSize bytes).toNat = (bytes.toNat + 15) / 4 * 4 := by
  have hsum : (bytes + sizeofMqttExtent).toNat = bytes.toNat + 12 := by
    rw [UInt32.toNat_add]
    simp only [sizeofMqttExtent, UInt32.reduceToNat]
    omega
  simp only [alignedSize, mqttDefaultAlignment, UInt32.toNat_add (_ + _), UInt32.toNat_mod,
    UInt32.toNat_sub, hsum, UInt32.reduceToNat]
  omega

/-- What growing the pointer array may do. -/
theorem mqttBufferGrow_cases (buf : MqttBuffer) (h : MqttHeap) :
    (∃ h', mqttBufferGrow buf h = (false, buf, h')) ∨
      (∃ h' tmp, buf.allocCount = buf.allocMaxCount ∧ mqttBufferGrow buf h = (true, { buf with
        allocMaxCount := buf.allocMaxCount * 2 + 1
        allocationsPtr := some tmp
        allocations := buf.allocations.take buf.allocMaxCount.toNat ++
          List.replicate (4 * (buf.allocMaxCount * 2 + 1).toNat -
            (buf.allocations.take buf.allocMaxCount.toNat).length) 0 }, h')) ∨
      buf.allocCount ≠ buf.allocMaxCount ∧ mqttBufferGrow buf h = (true, buf, h) := by
  rw [mqttBufferGrow]
  split_ifs with hfull
  · obtain ⟨_ | tmp, h'⟩ := h.malloc
    · exact .inl ⟨h', rfl⟩
    · exact .inr (.inl ⟨_, tmp, hfull, rfl⟩)
  · exact .inr (.inr ⟨hfull, rfl⟩)

/-- What obtaining a chunk may do: nothing but growing the pointer array, or that and
entering a chunk of the size asked for. -/
theorem mqttBufferAddChunk_cases (buf : MqttBuffer) (n : UInt32) (h : MqttHeap) :
    ∃ grown buf₁ h₁, mqttBufferGrow buf h = (grown, buf₁, h₁) ∧
      ((∃ h', mqttBufferAddChunk buf n h = (false, buf₁, h')) ∨
        ∃ h' chunk, grown = true ∧ mqttBufferAddChunk buf n h = (true, { buf₁ with
          allocCount := buf₁.allocCount + 1
          allocations := setPtr buf₁.allocations buf₁.allocCount.toNat chunk
          availableBytes := if n < mqttMinExtentSize then mqttMinExtentSize else n
          firstAvailable := chunk }, h')) := by
  rw [mqttBufferAddChunk]
  obtain ⟨_ | _, buf₁, h₁⟩ := mqttBufferGrow buf h
  · exact ⟨_, _, _, rfl, .inl ⟨h₁, rfl⟩⟩
  · refine ⟨_, _, _, rfl, ?_⟩
    rcases hm : h₁.malloc with ⟨_ | chunk, h'⟩
    · exact .inl ⟨h', by simp only [hm]⟩
    · exact .inr ⟨h', chunk, rfl, by simp only [hm]⟩

/-- The free part of the newest chunk. -/
def MqttBuffer.free (buf : MqttBuffer) : Region := ⟨buf.firstAvailable, buf.availableBytes.toNat⟩

/-- Growing the pointer array leaves the free part alone. -/
theorem free_mqttBufferGrow (buf : MqttBuffer) (h : MqttHeap) :
    (mqttBufferGrow buf h).2.1.free = buf.free := by
  obtain ⟨h', heq⟩ | ⟨h', tmp, -, heq⟩ | ⟨-, heq⟩ := mqttBufferGrow_cases buf h
  · rw [heq]
  · rw [heq]
    rfl
  · rw [heq]

/-- What is left of the free part behind an extent. -/
theorem free_carve (buf : MqttBuffer) {n : UInt32} (h : ¬ buf.availableBytes < n) :
    n.toNat ≤ buf.free.size ∧ ({ buf with
      firstAvailable := buf.firstAvailable + n
      availableBytes := buf.availableBytes - n } : MqttBuffer).free = buf.free.back n.toNat := by
  have hle : n ≤ buf.availableBytes := UInt32.not_lt.mp h
  refine ⟨UInt32.le_iff_toNat_le.mp hle, ?_⟩
  rw [MqttBuffer.free, MqttBuffer.free, Region.back, UInt32.ofNat_toNat, UInt32.toNat_sub_of_le _ _ hle]

/-- What allocating an extent may do: nothing to the free part; cut the extent off its
front; or obtain a chunk and cut the extent off that. -/
theorem mqttBufferAllocExtent_cases (buf : MqttBuffer) (bytes : UInt32) (h : MqttHeap) :
    (obtainedChunk buf bytes h = none ∧ (mqttBufferAllocExtent buf bytes h).1 = none ∧
        (mqttBufferAllocExtent buf bytes h).2.1.free = buf.free) ∨
      (obtainedChunk buf bytes h = none ∧ (alignedSize bytes).toNat ≤ buf.free.size ∧
        (mqttBufferAllocExtent buf bytes h).1 =
          some ⟨bytes, buf.free.base + sizeofMqttExtent⟩ ∧
        (mqttBufferAllocExtent buf bytes h).2.1.free = buf.free.back (alignedSize bytes).toNat) ∨
      ∃ c, obtainedChunk buf bytes h = some c ∧ 1024 ≤ c.size ∧
        (alignedSize bytes).toNat ≤ c.size ∧
        (mqttBufferAllocExtent buf bytes h).1 = some ⟨bytes, c.base + sizeofMqttExtent⟩ ∧
        (mqttBufferAllocExtent buf bytes h).2.1.free = c.back (alignedSize bytes).toNat := by
  rw [mqttBufferAllocExtent, obtainedChunk]
  by_cases hlt : buf.availableBytes < alignedSize bytes
  · simp only [if_pos hlt]
    obtain ⟨grown, buf₁, h₁, hgrow, ⟨h', heq⟩ | ⟨h', chunk, -, heq⟩⟩ :=
      mqttBufferAddChunk_cases buf (alignedSize bytes) h
    · have hfree := free_mqttBufferGrow buf h
      rw [hgrow] at hfree
      simp only [heq]
      exact .inl ⟨trivial, trivial, hfree⟩
    · simp only [heq]
      set n := alignedSize bytes
      set size := if n < mqttMinExtentSize then mqttMinExtentSize else n with hsize
      have hmin : mqttMinExtentSize ≤ size ∧ n ≤ size := by
        rw [hsize]
        split_ifs with hsmall
        · exact ⟨UInt32.le_refl _, UInt32.le_of_lt hsmall⟩
        · exact ⟨UInt32.not_lt.mp hsmall, UInt32.le_refl _⟩
      obtain ⟨-, hfree⟩ := free_carve { buf₁ with availableBytes := size, firstAvailable := chunk }
        (UInt32.not_lt.mpr hmin.2)
      exact .inr (.inr ⟨⟨chunk, size.toNat⟩, rfl, UInt32.le_iff_toNat_le.mp hmin.1,
        UInt32.le_iff_toNat_le.mp hmin.2, rfl, hfree⟩)
  · simp only [if_neg hlt]
    obtain ⟨hle, hfree⟩ := free_carve buf hlt
    exact .inr (.inl ⟨trivial, hle, rfl, hfree⟩)

/-- The arena of the chunks and extents. -/
def LedgerState.arena (s : LedgerState) : Arena := ⟨s.chunks, s.buf.free, s.extents⟩

/-- Both calls leave the buffer's chunks as `MqttBuffer_AllocExtent` does. -/
theorem free_run (buf : MqttBuffer) (h : MqttHeap) (c : BufferCall) :
    (c.run buf h).1.free = (mqttBufferAllocExtent buf c.bytes h).2.1.free := by
  cases c with
  | allocExtent bytes => rfl
  | append payload size own =>
      rw [BufferCall.run, BufferCall.bytes]
      obtain ⟨_, _, halloc, heq⟩ | ⟨ext, _, _, halloc, heq⟩ :=
        mqttBufferAppend_cases buf payload size own h rfl
      · rw [heq, halloc]
      · rw [heq, halloc]
        cases own <;> rfl

/-- The bytes of an extent that is cut off at an address. -/
theorem region_extent (base bytes : UInt32) :
    (⟨bytes, base + sizeofMqttExtent⟩ : MqttExtent).region = ⟨base, 12 + bytes.toNat⟩ := by
  rw [MqttExtent.region, UInt32.add_sub_cancel]
  rfl

/-- One call on the arena: the buffer keeps it in order. -/
theorem ledgerStep_arena {s t : LedgerState} {a : BufferCall × List (Option UInt32)}
    (hs : s.arena.Ok) (hmalloc : MallocOk s a) (hsize : SizeOk a) (h : ledgerStep s a = some t) :
    t.arena.Ok := by
  obtain rfl := Option.some.inj h
  have hround := toNat_alignedSize hsize
  have hfree := free_run s.buf (s.supplied a.2) a.1
  rw [LedgerState.arena, hfree]
  obtain ⟨hno, hext, hfree⟩ | ⟨hno, hle, hext, hfree⟩ | ⟨c, hc, -, hle, hext, hfree⟩ :=
    mqttBufferAllocExtent_cases s.buf a.1.bytes (s.supplied a.2)
  · rw [hno, hext, hfree]
    simpa [LedgerState.arena] using hs
  · have hcut := hs.carve (n := 12 + a.1.bytes.toNat) (by omega) (by omega) hle
    rw [hno, hext, hfree, Option.map_some, region_extent, Option.toList_none, List.append_nil]
    exact hcut
  · obtain ⟨hfits, hfresh⟩ := hmalloc c hc
    have hcut := (hs.refill hfits hfresh).carve (n := 12 + a.1.bytes.toNat) (by omega) (by omega) hle
    rw [hc, hext, hfree, Option.map_some, region_extent]
    exact hcut

/-- The number that bytes stand for, lowest first. -/
def littleEndian : List UInt8 → ℕ
  | [] => 0
  | b :: bs => b.toNat + 256 * littleEndian bs

theorem littleEndian_lt (bs : List UInt8) : littleEndian bs < 256 ^ bs.length := by
  induction bs with
  | nil => exact Nat.one_pos
  | cons b bs ih =>
      have hb := b.toNat_lt
      rw [littleEndian, List.length_cons, pow_succ]
      omega

/-- At most four bytes are put together to the number that they stand for. -/
theorem toNat_foldr_bytes {bs : List UInt8} (h : bs.length ≤ 4) :
    (bs.foldr (fun b (p : UInt32) => b.toUInt32 ||| (p <<< 8)) 0).toNat = littleEndian bs := by
  induction bs with
  | nil => rfl
  | cons b bs ih =>
      have hb := b.toNat_lt
      have hq : littleEndian bs < 2 ^ 24 := by
        have hpow : 256 ^ bs.length ≤ 256 ^ 3 :=
          Nat.pow_le_pow_right (by omega) (by rw [List.length_cons] at h; omega)
        exact (littleEndian_lt bs).trans_le (by simpa using hpow)
      rw [List.foldr_cons, UInt32.toNat_or, UInt8.toNat_toUInt32, UInt32.toNat_shiftLeft,
        ih (by simp only [List.length_cons] at h; omega), littleEndian,
        show (8 : UInt32).toNat % 32 = 8 from rfl, Nat.shiftLeft_eq, Nat.mod_eq_of_lt (by omega),
        Nat.or_comm, ← Nat.shiftLeft_eq, ← Nat.shiftLeft_add_eq_or_of_lt (by omega),
        Nat.shiftLeft_eq]
      omega

/-- The bytes of a pointer are put together to the pointer. -/
theorem foldr_ptrBytes (p : UInt32) :
    (ptrBytes p).foldr (fun b (p : UInt32) => b.toUInt32 ||| (p <<< 8)) 0 = p := by
  have hp := p.toNat_lt
  have hlen : (ptrBytes p).length ≤ 4 := le_rfl
  rw [← UInt32.toNat_inj, toNat_foldr_bytes hlen]
  simp only [ptrBytes, littleEndian, UInt32.toNat_toUInt8, UInt32.toNat_shiftRight,
    UInt32.reduceToNat, Nat.shiftRight_eq_div_pow, Nat.reduceMod, Nat.reducePow]
  omega

/-- Bytes behind the array do not change the pointers in it. -/
theorem getPtr_append {array : List UInt8} {j : ℕ} (h : 4 * j + 4 ≤ array.length)
    (rest : List UInt8) : getPtr (array ++ rest) j = getPtr array j := by
  rw [getPtr, getPtr, List.drop_append_of_le_length (by omega),
    List.take_append_of_le_length (by rw [List.length_drop]; omega)]

section SetPtr

variable {array : List UInt8} {i : ℕ} (h : 4 * i + 4 ≤ array.length) (p : UInt32)

include h

theorem length_setPtr : (setPtr array i p).length = array.length := by
  simp only [setPtr, List.length_append, List.length_take, List.length_drop, ptrBytes,
    List.length_cons, List.length_nil]
  omega

/-- The pointer that has been stored at an index. -/
theorem getPtr_setPtr_self : getPtr (setPtr array i p) i = p := by
  have hfront : (array.take (4 * i)).length = 4 * i := by
    rw [List.length_take]
    omega
  have hfour : (ptrBytes p).length = 4 := rfl
  rw [getPtr, setPtr, List.append_assoc, List.drop_left' hfront, List.take_left' hfour,
    foldr_ptrBytes]

/-- The pointers in front of the index are those of before. -/
theorem getPtr_setPtr_of_lt {j : ℕ} (hj : j < i) :
    getPtr (setPtr array i p) j = getPtr array j := by
  have hfront : 4 * j + 4 ≤ (array.take (4 * i)).length := by
    rw [List.length_take]
    omega
  have hkeep := getPtr_append hfront (array.drop (4 * i))
  rw [List.take_append_drop] at hkeep
  rw [setPtr, List.append_assoc, getPtr_append hfront, hkeep]

end SetPtr

/-- The chunks have the smallest size at least, and `malloc` has kept its promise. -/
structure ChunksOk (chunks : List Region) : Prop where
  fit : ∀ c ∈ chunks, c.Fits
  size : ∀ c ∈ chunks, 1024 ≤ c.size
  disjoint : chunks.Pairwise Region.Disjoint

/-- The pointer array and its counters note the chunks in order. -/
structure Noted (buf : MqttBuffer) (chunks : List Region) : Prop where
  count : buf.allocCount.toNat = chunks.length
  count_le : chunks.length ≤ buf.allocMaxCount.toNat
  max_le : buf.allocMaxCount.toNat ≤ 2 * chunks.length + 1
  length : buf.allocations.length = 4 * buf.allocMaxCount.toNat
  listed : ∀ j (hj : j < chunks.length), getPtr buf.allocations j = chunks[j].base

/-- The memory has room for so many chunks that the counters do not wrap. -/
theorem ChunksOk.length_le {chunks : List Region} (h : ChunksOk chunks) :
    chunks.length ≤ 2 ^ 22 :=
  length_le_of_disjoint (by decide) h.fit h.size h.disjoint

/-- The bytes lost when the array is doubled are zeros, so nothing is lost. -/
theorem take_append_zeros {array : List UInt8} {m n : ℕ} (hlen : array.length = 4 * m)
    (hzero : ∀ b ∈ array.drop m, b = 0) (hn : m ≤ n) :
    array.take m ++ List.replicate (4 * n - (array.take m).length) 0 =
      array ++ List.replicate (4 * n - 4 * m) 0 := by
  have hback : array.drop m = List.replicate (3 * m) 0 := by
    have hall := List.eq_replicate_of_mem hzero
    rwa [List.length_drop, hlen, show 4 * m - m = 3 * m by omega] at hall
  have hfront : (array.take m).length = m := by
    rw [List.length_take]
    omega
  calc array.take m ++ List.replicate (4 * n - (array.take m).length) 0
      = array.take m ++ (List.replicate (3 * m) 0 ++ List.replicate (4 * n - 4 * m) 0) := by
        rw [hfront, List.replicate_append_replicate]
        congr 2
        omega
    _ = array ++ List.replicate (4 * n - 4 * m) 0 := by
        rw [← List.append_assoc, ← hback, List.take_append_drop]

/-- Growing the array keeps the pointers, when nothing is lost; and if it succeeds there is
room for one more. -/
theorem Noted.grow {buf buf₁ : MqttBuffer} {chunks : List Region} {h h₁ : MqttHeap}
    {grown : Bool} (hn : Noted buf chunks) (hfew : chunks.length ≤ 2 ^ 22)
    (hkeeps : buf.allocCount = buf.allocMaxCount →
      ∀ b ∈ buf.allocations.drop buf.allocMaxCount.toNat, b = 0)
    (hg : mqttBufferGrow buf h = (grown, buf₁, h₁)) :
    Noted buf₁ chunks ∧ (grown = true → chunks.length < buf₁.allocMaxCount.toNat) := by
  obtain ⟨h', heq⟩ | ⟨h', tmp, hfull, heq⟩ | ⟨hroom, heq⟩ := mqttBufferGrow_cases buf h
  · rw [heq] at hg
    obtain ⟨rfl, rfl, -⟩ : false = grown ∧ buf = buf₁ ∧ h' = h₁ := by simpa using hg
    exact ⟨hn, by simp⟩
  · rw [heq] at hg
    obtain ⟨rfl, rfl, -⟩ := by simpa only [Prod.mk.injEq] using hg
    have hmax : buf.allocMaxCount.toNat = chunks.length := by rw [← hfull, hn.count]
    have htwice : (buf.allocMaxCount * 2 + 1).toNat = 2 * chunks.length + 1 := by
      rw [UInt32.toNat_add, UInt32.toNat_mul, hmax]
      simp only [UInt32.reduceToNat]
      omega
    have harray := take_append_zeros hn.length (hkeeps hfull)
      (n := (buf.allocMaxCount * 2 + 1).toNat) (by omega)
    refine ⟨⟨hn.count, ?_, ?_, ?_, fun j hj => ?_⟩, fun _ => ?_⟩
    · simp only [htwice]
      omega
    · simp only [htwice, le_refl]
    · simp only [harray, List.length_append, List.length_replicate, hn.length]
      omega
    · have hfits : 4 * j + 4 ≤ buf.allocations.length := by
        rw [hn.length]
        omega
      simp only [harray]
      rw [getPtr_append hfits, hn.listed j hj]
    · simp only [htwice]
      omega
  · rw [heq] at hg
    obtain ⟨rfl, rfl, -⟩ : true = grown ∧ buf = buf₁ ∧ h = h₁ := by simpa using hg
    refine ⟨hn, fun _ => Nat.lt_of_le_of_ne hn.count_le fun hlen => hroom ?_⟩
    rw [← UInt32.toNat_inj, hn.count, hlen]

/-- A chunk is noted behind the others. -/
theorem Noted.note {buf : MqttBuffer} {chunks : List Region} (hn : Noted buf chunks)
    (hfew : chunks.length ≤ 2 ^ 22) (hroom : chunks.length < buf.allocMaxCount.toNat)
    (chunk : Region) (free : UInt32) :
    Noted { buf with
      allocCount := buf.allocCount + 1
      allocations := setPtr buf.allocations buf.allocCount.toNat chunk.base
      availableBytes := free
      firstAvailable := chunk.base } (chunks ++ [chunk]) := by
  have hlen : (chunks ++ [chunk]).length = chunks.length + 1 := by simp
  have hfits : 4 * buf.allocCount.toNat + 4 ≤ buf.allocations.length := by
    rw [hn.length, hn.count]
    omega
  have hmax := hn.max_le
  refine ⟨?_, ?_, ?_, ?_, fun j hj => ?_⟩
  · rw [hlen, UInt32.toNat_add, hn.count]
    simp only [UInt32.reduceToNat]
    omega
  · rw [hlen]
    exact hroom
  · simp only [hlen]
    omega
  · simp only [length_setPtr hfits, hn.length]
  · simp only
    by_cases hlast : j = chunks.length
    · subst hlast
      have hself := getPtr_setPtr_self hfits chunk.base
      rw [List.getElem_append_right le_rfl]
      simpa [hn.count] using hself
    · have hlt : j < chunks.length := by omega
      rw [getPtr_setPtr_of_lt hfits _ (by rw [hn.count]; exact hlt), hn.listed j hlt,
        List.getElem_append_left hlt]

/-- A call notes the chunk that it obtains. -/
theorem Noted.allocExtent {buf : MqttBuffer} {chunks : List Region} (hn : Noted buf chunks)
    (hfew : chunks.length ≤ 2 ^ 22) (bytes : UInt32) (h : MqttHeap)
    (hkeeps : buf.availableBytes < alignedSize bytes → buf.allocCount = buf.allocMaxCount →
      ∀ b ∈ buf.allocations.drop buf.allocMaxCount.toNat, b = 0) :
    Noted (mqttBufferAllocExtent buf bytes h).2.1
      (chunks ++ (obtainedChunk buf bytes h).toList) := by
  rw [mqttBufferAllocExtent, obtainedChunk]
  by_cases hlt : buf.availableBytes < alignedSize bytes
  · simp only [if_pos hlt]
    obtain ⟨grown, buf₁, h₁, hgrow, ⟨h', heq⟩ | ⟨h', chunk, rfl, heq⟩⟩ :=
      mqttBufferAddChunk_cases buf (alignedSize bytes) h
    · simp only [heq, Option.toList_none, List.append_nil]
      exact (hn.grow hfew (hkeeps hlt) hgrow).1
    · obtain ⟨hn₁, hroom⟩ := hn.grow hfew (hkeeps hlt) hgrow
      set size := if alignedSize bytes < mqttMinExtentSize then mqttMinExtentSize
        else alignedSize bytes with hsize
      have hnote := hn₁.note hfew (hroom rfl) ⟨chunk, size.toNat⟩ size
      simp only [heq, Option.toList_some]
      exact ⟨hnote.count, hnote.count_le, hnote.max_le, hnote.length, hnote.listed⟩
  · simp only [if_neg hlt, Option.toList_none, List.append_nil]
    exact ⟨hn.count, hn.count_le, hn.max_le, hn.length, hn.listed⟩

theorem Noted.appendExtent {buf : MqttBuffer} {chunks : List Region} (hn : Noted buf chunks)
    (ext : MqttExtent) : Noted (mqttBufferAppendExtent buf ext) chunks :=
  ⟨hn.count, hn.count_le, hn.max_le, hn.length, hn.listed⟩

/-- Both calls note chunks as `MqttBuffer_AllocExtent` does. -/
theorem Noted.run {buf : MqttBuffer} {h : MqttHeap} {c : BufferCall} {chunks : List Region}
    (hn : Noted (mqttBufferAllocExtent buf c.bytes h).2.1 chunks) :
    Noted (c.run buf h).1 chunks := by
  cases c with
  | allocExtent bytes => exact hn
  | append payload size own =>
      rw [BufferCall.bytes] at hn
      rw [BufferCall.run]
      obtain ⟨_, _, halloc, heq⟩ | ⟨ext, _, _, halloc, heq⟩ :=
        mqttBufferAppend_cases buf payload size own h rfl
      · rw [halloc] at hn
        rw [heq]
        exact hn
      · rw [halloc] at hn
        rw [heq]
        cases own with
        | true => exact hn.appendExtent ext
        | false => exact hn.appendExtent ⟨size, payload⟩

/-- What `malloc` promises about a chunk is kept by a call. -/
theorem ChunksOk.step {s : LedgerState} {a : BufferCall × List (Option UInt32)}
    (hc : ChunksOk s.chunks) (hmalloc : MallocOk s a) :
    ChunksOk (s.chunks ++ (obtainedChunk s.buf a.1.bytes (s.supplied a.2)).toList) := by
  obtain ⟨hno, -⟩ | ⟨hno, -⟩ | ⟨c, hsome, hmin, -⟩ :=
    mqttBufferAllocExtent_cases s.buf a.1.bytes (s.supplied a.2)
  · simpa [hno] using hc
  · simpa [hno] using hc
  · obtain ⟨hfits, hfresh⟩ := hmalloc c hsome
    rw [hsome, Option.toList_some]
    refine ⟨fun d hd => ?_, fun d hd => ?_, ?_⟩
    · rcases List.mem_append.mp hd with hd | hd
      · exact hc.fit d hd
      · rwa [List.mem_singleton.mp hd]
    · rcases List.mem_append.mp hd with hd | hd
      · exact hc.size d hd
      · rwa [List.mem_singleton.mp hd]
    · refine List.pairwise_append.mpr ⟨hc.disjoint, List.pairwise_singleton _ _, ?_⟩
      intro d hd e he
      rw [List.mem_singleton.mp he]
      exact hfresh d hd

/-- Chunks that share no byte begin at different addresses. -/
theorem ChunksOk.nodup {chunks : List Region} (h : ChunksOk chunks) :
    (chunks.map Region.base).Nodup := by
  rw [List.Nodup, List.pairwise_map]
  refine h.disjoint.imp_of_mem fun {c d} hc hd hcd heq => ?_
  have hsize := h.size c hc
  have hsize' := h.size d hd
  simp only [Region.Disjoint, Region.limit, heq] at hcd
  omega

/-- The chunks that a noted array lists. -/
theorem Noted.chunks_eq {buf : MqttBuffer} {chunks : List Region} (hn : Noted buf chunks) :
    mqttBufferChunks buf = chunks.map Region.base := by
  refine List.ext_getElem ?_ fun j hj hj' => ?_
  · rw [mqttBufferChunks, List.length_map, List.length_map, List.length_range, hn.count]
  · rw [List.length_map] at hj'
    simp only [mqttBufferChunks, List.getElem_map, List.getElem_range]
    exact hn.listed j hj'

/-- The ledger in order. -/
theorem LedgerOk.of_noted {s : LedgerState} (hc : ChunksOk s.chunks)
    (hn : Noted s.buf s.chunks) : LedgerOk s where
  listed := hn.chunks_eq
  nodup := hc.nodup
  reset := by rw [mqttBufferReset, hn.chunks_eq]

/-- In every run of calls, with any of the allocations failing: as long as the sizes asked
for can be rounded up the extents lie inside the chunks and apart from each other, and as
long as no pointer is lost with the array the ledger lists every chunk once. -/
theorem ledger_ok (as : List (BufferCall × List (Option UInt32))) (s : LedgerState) :
    (Run ledgerStep (fun s a => MallocOk s a ∧ SizeOk a) ledgerInit as s → ExtentsOk s) ∧
      (Run ledgerStep (fun s a => MallocOk s a ∧ GrowthKeeps s a) ledgerInit as s →
        LedgerOk s) := by
  constructor
  · intro h
    have harena := h.invariant (fun s => s.arena.Ok)
      (fun s a t hs hok hstep => ledgerStep_arena hs hok.1 hok.2 hstep) Arena.Ok.empty
    exact ⟨harena.used_within, harena.used_disjoint⟩
  · intro h
    have hinit : ChunksOk ledgerInit.chunks ∧ Noted ledgerInit.buf ledgerInit.chunks :=
      ⟨⟨by simp [ledgerInit], by simp [ledgerInit], .nil⟩,
        ⟨rfl, le_rfl, Nat.zero_le _, rfl, fun j hj => absurd hj (Nat.not_lt_zero j)⟩⟩
    obtain ⟨hc, hn⟩ := h.invariant (fun s => ChunksOk s.chunks ∧ Noted s.buf s.chunks)
      (fun s a t hs hok hstep => by
        obtain rfl := Option.some.inj hstep
        exact ⟨hs.1.step hok.1, (hs.2.allocExtent hs.1.length_le _ _ hok.2).run⟩) hinit
    exact .of_noted hc hn

/-- A call whose allocation fails, one that gets a chunk, and one that still has room. -/
def ledgerCalls : List (BufferCall × List (Option UInt32)) :=
  [(.allocExtent 5000, [none]), (.allocExtent 100, [some 0x1000, some 0x2000]),
    (.append 0x500 7 true, [])]

/-- After these three calls two extents have been returned, and the one chunk is listed. -/
theorem ledger_ok_threeCalls :
    ∃ s, Run ledgerStep (fun s a => MallocOk s a ∧ SizeOk a) ledgerInit ledgerCalls s ∧
      ExtentsOk s ∧ LedgerOk s ∧
        s.extents = [⟨0x2000, 112⟩, ⟨0x2070, 19⟩] ∧ mqttBufferChunks s.buf = [0x2000] := by
  obtain ⟨s, hrun, hp⟩ := Run.exists_of_exec ledgerStep
    (fun s a => (MallocOk s a ∧ SizeOk a) ∧ GrowthKeeps s a) ledgerInit ledgerCalls
    (fun s => s.extents = [⟨0x2000, 112⟩, ⟨0x2070, 19⟩] ∧ mqttBufferChunks s.buf = [0x2000])
    (by decide +kernel)
  obtain ⟨hextents, hchunks⟩ := of_decide_eq_true hp
  have hsizes := hrun.mono fun _ _ h => h.1
  have hgrowth : Run ledgerStep (fun s a => MallocOk s a ∧ GrowthKeeps s a) ledgerInit
      ledgerCalls s := hrun.mono fun _ _ h => ⟨h.1.1, h.2⟩
  exact ⟨s, hsizes, (ledger_ok ledgerCalls s).1 hsizes, (ledger_ok ledgerCalls s).2 hgrowth,
    hextents, hchunks⟩

/-- Two requests of 2000 bytes: when the second chunk is noted the first pointer is lost
from the array, so `MqttBuffer_Reset` frees the address 0 in its place. -/
theorem ledger_loses_pointer :
    ¬ ∀ (as : List (BufferCall × List (Option UInt32))) (s : LedgerState),
      Run ledgerStep MallocOk ledgerInit as s → ExtentsOk s ∧ LedgerOk s := by
  intro hall
  obtain ⟨s, hrun, hp⟩ := Run.exists_of_exec ledgerStep MallocOk ledgerInit
    [(.allocExtent 2000, [some 0x1000, some 0x2000]),
      (.allocExtent 2000, [some 0x3000, some 0x4000])]
    (fun s => mqttBufferChunks s.buf ≠ s.chunks.map Region.base) (by decide +kernel)
  exact of_decide_eq_true hp (hall _ s hrun).2.listed

end Mqtt
