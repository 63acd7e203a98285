import Esp32AtMqtt.Memory.Words
import Mathlib.Data.List.Chain

/-!
# The heap of the kernel

The allocator of `src/mem.c`, on the bytes of its memory. The memory is divided into chunks, each
with a `struct heap_mem` before it that has the places of the next chunk and of the one before.
Places are offsets from `heap_ptr`.

`Tiles` says that the chunks of a list lie one behind the other in memory, with their headers, and
that those in use hold the bytes of their owners. What an operation does is said by a change to
the list of chunks.
-/

namespace Kernel

open Words

/-- `SIZEOF_STRUCT_MEM`. -/
def sizeofStructMem : ℕ := 12

/-- `MIN_SIZE_ALIGNED`. -/
def minSizeAligned : ℕ := 12

/-- `HEAP_MAGIC`. -/
def heapMagic : ℕ := 0x1ea0

/-- `RT_ALIGN(size, RT_ALIGN_SIZE)` in 32 bits. -/
def rtAlign (size : ℕ) : ℕ := (size + 3) % 2 ^ 32 / 4 * 4

/-- `a - b` in 32 bits. -/
def sub32 (a b : ℕ) : ℕ := (a + (2 ^ 32 - b)) % 2 ^ 32

/-- The memory from `heap_ptr` on, and the variables of `mem.c`. -/
structure SmallMem where
  mem : ℕ → UInt8
  lfree : ℕ
  memSizeAligned : ℕ
  usedMem : ℕ
  maxMem : ℕ

namespace SmallMem

/-- `mem->magic`, where `mem` is at `ptr`. -/
def magic (h : SmallMem) (ptr : ℕ) : ℕ := load h.mem ptr 2

/-- `mem->used`. -/
def used (h : SmallMem) (ptr : ℕ) : ℕ := load h.mem (ptr + 2) 2

/-- `mem->next`. -/
def next (h : SmallMem) (ptr : ℕ) : ℕ := load h.mem (ptr + 4) 4

/-- `mem->prev`. -/
def prev (h : SmallMem) (ptr : ℕ) : ℕ := load h.mem (ptr + 8) 4

def setMagic (h : SmallMem) (ptr v : ℕ) : SmallMem := { h with mem := store h.mem ptr 2 v }

def setUsed (h : SmallMem) (ptr v : ℕ) : SmallMem := { h with mem := store h.mem (ptr + 2) 2 v }

def setNext (h : SmallMem) (ptr v : ℕ) : SmallMem := { h with mem := store h.mem (ptr + 4) 4 v }

def setPrev (h : SmallMem) (ptr v : ℕ) : SmallMem := { h with mem := store h.mem (ptr + 8) 4 v }

/-- `heap_end`. -/
def heapEnd (h : SmallMem) : ℕ := h.memSizeAligned + sizeofStructMem

/-- More rounds than a loop over the chunks can take. -/
def rounds (h : SmallMem) : ℕ := h.memSizeAligned + sizeofStructMem + 1

/-- The loop of `rt_malloc`, up to the chunk that is taken. It has no result if it does not end
within `rounds`. -/
def mallocLoop (h : SmallMem) (size : ℕ) : ℕ → ℕ → Option (Option ℕ)
  | 0, _ => none
  | rounds + 1, ptr =>
      if ptr < sub32 h.memSizeAligned size then
        if h.used ptr = 0 ∧ size ≤ sub32 (h.next ptr) (ptr + sizeofStructMem) then some (some ptr)
        else h.mallocLoop size rounds (h.next ptr)
      else some none

/-- `used_mem` grows, and `max_mem` with it. -/
def countUsed (h : SmallMem) (n : ℕ) : SmallMem :=
  let usedMem := (h.usedMem + n) % 2 ^ 32
  { h with usedMem, maxMem := max h.maxMem usedMem }

/-- A header `mem2` is put `size` bytes behind the one of the chunk at `ptr`. -/
def insertHeader (h : SmallMem) (ptr size : ℕ) : SmallMem :=
  let ptr2 := ptr + sizeofStructMem + size
  let h := (((h.setMagic ptr2 heapMagic).setUsed ptr2 0).setNext ptr2 (h.next ptr)).setPrev ptr2 ptr
  h.setNext ptr ptr2

/-- The chunk at `ptr` is split behind `size` bytes, as in `rt_malloc` and `rt_realloc`. -/
def split (h : SmallMem) (ptr size : ℕ) : SmallMem :=
  let ptr2 := ptr + sizeofStructMem + size
  let h := h.insertHeader ptr size
  if h.next ptr2 ≠ h.heapEnd then h.setPrev (h.next ptr2) ptr2 else h

/-- The chunk at `ptr` is taken, the rest of it left to a new one if that is large enough. -/
def carve (h : SmallMem) (ptr size : ℕ) : SmallMem :=
  let h :=
    if size + sizeofStructMem + minSizeAligned ≤ sub32 (h.next ptr) (ptr + sizeofStructMem) then
      ((h.split ptr size).setUsed ptr 1).countUsed (size + sizeofStructMem)
    else (h.setUsed ptr 1).countUsed (sub32 (h.next ptr) ptr)
  h.setMagic ptr heapMagic

/-- The loop for the lowest free chunk from `ptr` on. -/
def lfreeLoop (h : SmallMem) : ℕ → ℕ → Option ℕ
  | 0, _ => none
  | rounds + 1, ptr =>
      if h.used ptr ≠ 0 ∧ ptr ≠ h.heapEnd then h.lfreeLoop rounds (h.next ptr) else some ptr

/-- `rt_malloc` when the loop found the chunk at `ptr`. -/
def grant (h : SmallMem) (ptr size : ℕ) : Option (SmallMem × Option ℕ) :=
  let h := h.carve ptr size
  let lfree := if ptr = h.lfree then h.lfreeLoop h.rounds h.lfree else some h.lfree
  lfree.bind fun lfree =>
    if ptr + sizeofStructMem + size ≤ h.heapEnd ∧ (ptr + sizeofStructMem) % 4 = 0 then
      some ({ h with lfree := lfree }, some (ptr + sizeofStructMem))
    else none

/-- `rt_malloc(size)`: the heap, and the address returned, which is none for `RT_NULL`. It has no
result when a loop does not end or an assertion fails. -/
def rtMalloc (h : SmallMem) (size : ℕ) : Option (SmallMem × Option ℕ) :=
  if size = 0 then some (h, none)
  else
    let size := rtAlign size
    if h.memSizeAligned < size then some (h, none)
    else
      let size := if size < minSizeAligned then minSizeAligned else size
      (h.mallocLoop size h.rounds h.lfree).bind fun found =>
        match found with
        | none => some (h, none)
        | some ptr => h.grant ptr size

/-- The chunk at `nmem` is combined with the one at `mem` before it, as `plug_holes` does it in both
directions. -/
def combine (h : SmallMem) (mem nmem : ℕ) : SmallMem :=
  let h := if h.lfree = nmem then { h with lfree := mem } else h
  let h := h.setNext mem (h.next nmem)
  h.setPrev (h.next nmem) mem

/-- `plug_holes(mem)`, forward. -/
def plugForward (h : SmallMem) (mem : ℕ) : SmallMem :=
  let nmem := h.next mem
  if mem ≠ nmem ∧ h.used nmem = 0 ∧ nmem ≠ h.heapEnd then h.combine mem nmem else h

/-- `plug_holes(mem)`, backward. -/
def plugBackward (h : SmallMem) (mem : ℕ) : SmallMem :=
  let pmem := h.prev mem
  if pmem ≠ mem ∧ h.used pmem = 0 then h.combine pmem mem else h

/-- `plug_holes(mem)`. It has no result when an assertion fails. -/
def plugHoles (h : SmallMem) (mem : ℕ) : Option SmallMem :=
  if mem < h.heapEnd ∧ h.used mem = 0 then some ((h.plugForward mem).plugBackward mem) else none

/-- The chunk at `mem` is unused from now on, as in `rt_free`. -/
def release (h : SmallMem) (mem : ℕ) : SmallMem :=
  let h := (h.setUsed mem 0).setMagic mem heapMagic
  let h := { h with lfree := if mem < h.lfree then mem else h.lfree }
  { h with usedMem := sub32 h.usedMem (sub32 (h.next mem) mem) }

/-- `rt_free(rmem)`. It has no result when an assertion fails. -/
def rtFree (h : SmallMem) (rmem : Option ℕ) : Option SmallMem :=
  match rmem with
  | none => some h
  | some rmem =>
      if rmem % 4 ≠ 0 ∨ h.heapEnd ≤ rmem then none
      else
        let mem := rmem - sizeofStructMem
        if h.used mem = 0 ∨ h.magic mem ≠ heapMagic then none
        else (h.release mem).plugHoles mem

/-- `rt_memcpy(dst, src, n)` of bytes that do not overlap. -/
def rtMemcpy (h : SmallMem) (dst src n : ℕ) : SmallMem :=
  { h with mem := fun x => if dst ≤ x ∧ x < dst + n then h.mem (src + (x - dst)) else h.mem x }

/-- `rt_realloc(rmem, newsize)`. -/
def rtRealloc (h : SmallMem) (rmem : Option ℕ) (newsize : ℕ) : Option (SmallMem × Option ℕ) :=
  let newsize := rtAlign newsize
  if h.memSizeAligned < newsize then some (h, none)
  else if newsize = 0 then (h.rtFree rmem).map fun h => (h, none)
  else
    match rmem with
    | none => h.rtMalloc newsize
    | some rmem =>
        if h.heapEnd ≤ rmem then some (h, some rmem)
        else
          let ptr := rmem - sizeofStructMem
          let size := sub32 (sub32 (h.next ptr) ptr) sizeofStructMem
          if size = newsize then some (h, some rmem)
          else if newsize + sizeofStructMem + minSizeAligned < size then
            let h := { h with usedMem := sub32 h.usedMem (size - newsize) }
            ((h.split ptr newsize).plugHoles (ptr + sizeofStructMem + newsize)).map fun h =>
              (h, some rmem)
          else
            (h.rtMalloc newsize).bind fun (h, nmem) =>
              match nmem with
              | none => some (h, none)
              | some nmem =>
                  ((h.rtMemcpy nmem rmem (min size newsize)).rtFree (some rmem)).map fun h =>
                    (h, some nmem)

/-- `rt_calloc(count, size)`. -/
def rtCalloc (h : SmallMem) (count size : ℕ) : Option (SmallMem × Option ℕ) :=
  let total := count * size % 2 ^ 32
  (h.rtMalloc total).map fun (h, p) =>
    match p with
    | none => (h, none)
    | some p =>
        ({ h with mem := fun x => if p ≤ x ∧ x < p + total then 0 else h.mem x }, some p)

section Fields

variable (h : SmallMem) (ptr v : ℕ)

@[simp] theorem setMagic_lfree : (h.setMagic ptr v).lfree = h.lfree := rfl

@[simp] theorem setMagic_usedMem : (h.setMagic ptr v).usedMem = h.usedMem := rfl

@[simp] theorem setMagic_memSizeAligned :
    (h.setMagic ptr v).memSizeAligned = h.memSizeAligned := rfl

@[simp] theorem setUsed_lfree : (h.setUsed ptr v).lfree = h.lfree := rfl

@[simp] theorem setUsed_usedMem : (h.setUsed ptr v).usedMem = h.usedMem := rfl

@[simp] theorem setUsed_memSizeAligned : (h.setUsed ptr v).memSizeAligned = h.memSizeAligned := rfl

@[simp] theorem countUsed_mem : (h.countUsed v).mem = h.mem := rfl

@[simp] theorem countUsed_lfree : (h.countUsed v).lfree = h.lfree := rfl

@[simp] theorem countUsed_usedMem : (h.countUsed v).usedMem = (h.usedMem + v) % 2 ^ 32 := rfl

@[simp] theorem countUsed_memSizeAligned : (h.countUsed v).memSizeAligned = h.memSizeAligned := rfl

end Fields

end SmallMem

/-- `rt_system_heap_init(begin_addr, end_addr)` when there is room for a heap, with what is in its
memory. -/
def rtSystemHeapInit (mem : ℕ → UInt8) (beginAddr endAddr : UInt32) : Option SmallMem :=
  let beginAlign := rtAlign beginAddr.toNat
  let endAlign := endAddr.toNat / 4 * 4
  if 2 * sizeofStructMem < endAlign ∧ beginAlign ≤ endAlign - 2 * sizeofStructMem then
    let size := endAlign - beginAlign - 2 * sizeofStructMem
    let last := size + sizeofStructMem
    let h : SmallMem := ⟨mem, 0, size, 0, 0⟩
    let h := (((h.setMagic 0 heapMagic).setNext 0 last).setPrev 0 0).setUsed 0 0
    some ((((h.setMagic last heapMagic).setUsed last 1).setNext last last).setPrev last last)
  else none

/-! ## Chunks -/

/-- A chunk of `size` bytes behind its header, with the bytes of its owner if it is in use. -/
structure Chunk where
  size : ℕ
  owner : Option (List UInt8)
  deriving DecidableEq, Repr

/-- A chunk with its header. -/
def Chunk.span (c : Chunk) : ℕ := sizeofStructMem + c.size

/-- What chunks take of the memory. -/
def spans (cs : List Chunk) : ℕ := (cs.map Chunk.span).sum

@[simp] theorem spans_nil : spans [] = 0 := rfl

@[simp] theorem spans_cons (c : Chunk) (cs : List Chunk) : spans (c :: cs) = c.span + spans cs :=
  List.sum_cons

theorem spans_singleton (c : Chunk) : spans [c] = c.span := by
  rw [spans_cons, spans_nil, Nat.add_zero]

@[simp] theorem spans_append (cs ds : List Chunk) : spans (cs ++ ds) = spans cs + spans ds := by
  simp [spans]

theorem le_spans_of_ne_nil {cs : List Chunk} (h : cs ≠ []) : 12 ≤ spans cs := by
  obtain ⟨c, cs, rfl⟩ := List.exists_cons_of_ne_nil h
  have hspan : c.span = 12 + c.size := rfl
  rw [spans_cons]
  omega

/-- The header and the bytes of a chunk at `ptr`, behind one at `prev`. -/
structure ChunkAt (mem : ℕ → UInt8) (prev ptr : ℕ) (c : Chunk) : Prop where
  magic : load mem ptr 2 = heapMagic
  used : load mem (ptr + 2) 2 = if c.owner.isSome then 1 else 0
  next : load mem (ptr + 4) 4 = ptr + c.span
  prev : load mem (ptr + 8) 4 = prev
  data : ∀ data ∈ c.owner, data.length ≤ c.size ∧
    bytes mem (ptr + sizeofStructMem) data.length = data

/-- From `ptr` on, the chunks lie one behind the other. -/
def Seg (mem : ℕ → UInt8) : ℕ → ℕ → List Chunk → Prop
  | _, _, [] => True
  | prev, ptr, c :: cs => ChunkAt mem prev ptr c ∧ Seg mem ptr (ptr + c.span) cs

/-- The place of the last chunk. -/
def lastPlace : ℕ → ℕ → List Chunk → ℕ
  | prev, _, [] => prev
  | _, ptr, c :: cs => lastPlace ptr (ptr + c.span) cs

section Seg

variable {mem mem' : ℕ → UInt8} {prev prev' ptr : ℕ} {c : Chunk} {cs ds : List Chunk}

theorem seg_append : Seg mem prev ptr (cs ++ ds) ↔
    Seg mem prev ptr cs ∧ Seg mem (lastPlace prev ptr cs) (ptr + spans cs) ds := by
  induction cs generalizing prev ptr with
  | nil => simp [Seg, lastPlace]
  | cons c cs ih =>
      simp only [List.cons_append, Seg, ih, lastPlace, spans_cons, and_assoc, Nat.add_assoc]

theorem ChunkAt.congr (h : ChunkAt mem prev ptr c)
    (hsame : ∀ x, ptr ≤ x → x < ptr + c.span → mem' x = mem x) : ChunkAt mem' prev ptr c := by
  have hspan : c.span = 12 + c.size := rfl
  refine ⟨?_, ?_, ?_, ?_, fun data hdata => ?_⟩
  · rw [load_congr fun x hx hlt => hsame x hx (by omega)]
    exact h.magic
  · rw [load_congr fun x hx hlt => hsame x (by omega) (by omega)]
    exact h.used
  · rw [load_congr fun x hx hlt => hsame x (by omega) (by omega)]
    exact h.next
  · rw [load_congr fun x hx hlt => hsame x (by omega) (by omega)]
    exact h.prev
  · obtain ⟨hle, hbytes⟩ := h.data data hdata
    have hheader : sizeofStructMem = 12 := rfl
    refine ⟨hle, ?_⟩
    rw [bytes_congr fun x hx hlt => hsame x (by omega) (by omega)]
    exact hbytes

/-- The header of a chunk gets another chunk before it. -/
theorem ChunkAt.reprev (h : ChunkAt mem prev ptr c) (hprev : load mem' (ptr + 8) 4 = prev')
    (hsame : ∀ x, ptr ≤ x → x < ptr + c.span → x < ptr + 8 ∨ ptr + 12 ≤ x → mem' x = mem x) :
    ChunkAt mem' prev' ptr c := by
  have hspan : c.span = 12 + c.size := rfl
  refine ⟨?_, ?_, ?_, hprev, fun data hdata => ?_⟩
  · rw [load_congr fun x hx hlt => hsame x hx (by omega) (by omega)]
    exact h.magic
  · rw [load_congr fun x hx hlt => hsame x (by omega) (by omega) (by omega)]
    exact h.used
  · rw [load_congr fun x hx hlt => hsame x (by omega) (by omega) (by omega)]
    exact h.next
  · obtain ⟨hle, hbytes⟩ := h.data data hdata
    have hheader : sizeofStructMem = 12 := rfl
    refine ⟨hle, ?_⟩
    rw [bytes_congr fun x hx hlt => hsame x (by omega) (by omega) (by omega)]
    exact hbytes

theorem Seg.congr (h : Seg mem prev ptr cs)
    (hsame : ∀ x, ptr ≤ x → x < ptr + spans cs → mem' x = mem x) : Seg mem' prev ptr cs := by
  induction cs generalizing prev ptr with
  | nil => trivial
  | cons c cs ih =>
      rw [spans_cons] at hsame
      exact ⟨h.1.congr fun x hx hlt => hsame x hx (by omega),
        ih h.2 fun x hx hlt => hsame x (by omega) (by omega)⟩

/-- The first of the chunks gets another chunk before it. -/
theorem Seg.reprev (h : Seg mem prev ptr cs) (hprev : cs ≠ [] → load mem' (ptr + 8) 4 = prev')
    (hsame : ∀ x, ptr ≤ x → x < ptr + spans cs → x < ptr + 8 ∨ ptr + 12 ≤ x →
      mem' x = mem x) : Seg mem' prev' ptr cs := by
  cases cs with
  | nil => trivial
  | cons c cs =>
      have hspan : c.span = 12 + c.size := rfl
      rw [spans_cons] at hsame
      exact ⟨h.1.reprev (hprev (List.cons_ne_nil c cs)) fun x hx hlt hor =>
          hsame x hx (by omega) hor,
        h.2.congr fun x hx hlt => hsame x (by omega) (by omega) (by omega)⟩

end Seg

theorem sub32_eq {a b : ℕ} (hb : b ≤ a) (ha : a < 2 ^ 32) : sub32 a b = a - b := by
  rw [sub32, show a + (2 ^ 32 - b) = a - b + 2 ^ 32 by omega, Nat.add_mod_right]
  exact Nat.mod_eq_of_lt (by omega)

theorem sub32_add_left {a n : ℕ} (h : a + n < 2 ^ 32) : sub32 (a + n) a = n := by
  rw [sub32_eq (Nat.le_add_right a n) h, Nat.add_sub_cancel_left]

/-- A chunk that is in memory behind others. -/
theorem Seg.chunkAt {mem : ℕ → UInt8} {before behind : List Chunk} {c : Chunk}
    (h : Seg mem 0 0 (before ++ c :: behind)) :
    ChunkAt mem (lastPlace 0 0 before) (spans before) c := by
  have hrest := (seg_append.mp h).2.1
  rwa [Nat.zero_add] at hrest

theorem lastPlace_append (prev ptr : ℕ) (cs : List Chunk) (c : Chunk) :
    lastPlace prev ptr (cs ++ [c]) = ptr + spans cs := by
  induction cs generalizing prev ptr with
  | nil => simp [lastPlace]
  | cons d cs ih => rw [List.cons_append, lastPlace, ih, spans_cons, Nat.add_assoc]

/-- There are not more chunks than bytes. -/
theorem length_le_spans (cs : List Chunk) : cs.length ≤ spans cs := by
  induction cs with
  | nil => exact Nat.zero_le _
  | cons c cs ih =>
      have hspan : c.span = 12 + c.size := rfl
      rw [List.length_cons, spans_cons]
      omega

/-- The place of the first free chunk, or of the end. -/
def firstFree : ℕ → List Chunk → ℕ
  | ptr, [] => ptr
  | ptr, c :: cs => if c.owner = none then ptr else firstFree (ptr + c.span) cs

/-- The place of the first free chunk of at least `size` bytes, if it is below `bound`. -/
def findFit (bound size : ℕ) : ℕ → List Chunk → Option ℕ
  | _, [] => none
  | ptr, c :: cs =>
      if ptr < bound then
        if c.owner = none ∧ size ≤ c.size then some ptr else findFit bound size (ptr + c.span) cs
      else none

/-- The chunks fill the memory up to `heap_end`. -/
structure Tiled (h : SmallMem) (chunks : List Chunk) : Prop where
  seg : Seg h.mem 0 0 chunks
  fills : spans chunks = h.heapEnd
  last : load h.mem (h.heapEnd + 2) 2 = 1
  sizes : ∀ c ∈ chunks, c.size % 4 = 0 ∧ 0 < c.size
  large : minSizeAligned ≤ h.memSizeAligned
  sizeAligned : h.memSizeAligned % 4 = 0
  small : h.heapEnd + sizeofStructMem ≤ 2 ^ 32

/-- Some chunks in the middle are replaced by others that take the same memory. Of what is behind
them only the place of the last of them changes. -/
theorem Tiled.replace {h h' : SmallMem} {before cs ds behind : List Chunk}
    (ht : Tiled h (before ++ cs ++ behind)) (hsize : h'.memSizeAligned = h.memSizeAligned)
    (hspans : spans ds = spans cs) (hsizes : ∀ c ∈ ds, c.size % 4 = 0 ∧ 0 < c.size)
    (hds : Seg h'.mem (lastPlace 0 0 before) (spans before) ds)
    (hprev : behind ≠ [] → load h'.mem (spans before + spans cs + 8) 4 =
      lastPlace 0 0 (before ++ ds))
    (hsame : ∀ x, x < spans before ∨ spans before + spans cs ≤ x ∧
      (x < spans before + spans cs + 8 ∨ spans before + spans cs + 12 ≤ x) →
      h'.mem x = h.mem x) : Tiled h' (before ++ ds ++ behind) := by
  obtain ⟨hall, hbehind⟩ := seg_append.mp ht.seg
  obtain ⟨hbefore, -⟩ := seg_append.mp hall
  rw [spans_append, Nat.zero_add] at hbehind
  have hend : h'.heapEnd = h.heapEnd := congrArg (· + sizeofStructMem) hsize
  have hfills := ht.fills
  simp only [spans_append] at hfills
  refine ⟨seg_append.mpr ⟨seg_append.mpr ⟨?_, by rwa [Nat.zero_add]⟩, ?_⟩, ?_, ?_, fun c hc => ?_,
    hsize ▸ ht.large, hsize ▸ ht.sizeAligned, hend ▸ ht.small⟩
  · refine hbefore.congr fun x _ hx => hsame x (Or.inl ?_)
    rwa [Nat.zero_add] at hx
  · rw [Nat.zero_add, spans_append, hspans]
    exact hbehind.reprev hprev fun x hx _ hor => hsame x (Or.inr ⟨hx, hor⟩)
  · rw [hend, spans_append, spans_append, hspans]
    exact hfills
  · -- the end of the heap has its flag before the field that may change
    have hbehind : spans behind = 0 ∨ 12 ≤ spans behind :=
      (eq_or_ne behind []).imp (fun hnil => by rw [hnil, spans_nil]) le_spans_of_ne_nil
    rw [hend, load_congr fun x hx hlt => hsame x (Or.inr ⟨by omega, by omega⟩)]
    exact ht.last
  · rcases List.mem_append.mp hc with hc | hc
    · rcases List.mem_append.mp hc with hc | hc
      · exact ht.sizes c (by simp [hc])
      · exact hsizes c hc
    · exact ht.sizes c (by simp [hc])

section Loops

variable {h : SmallMem} {chunks before behind : List Chunk} {c : Chunk}

/-- The chunks from a place on. -/
theorem Tiled.rest (ht : Tiled h (before ++ behind)) :
    Seg h.mem (lastPlace 0 0 before) (spans before) behind ∧
      spans before + spans behind = h.heapEnd := by
  have hseg := (seg_append.mp ht.seg).2
  rw [Nat.zero_add] at hseg
  exact ⟨hseg, by rw [← spans_append, ht.fills]⟩

theorem mallocLoop_eq {prev ptr size : ℕ} (hsmall : h.heapEnd < 2 ^ 32)
    (hseg : Seg h.mem prev ptr chunks) (hspans : ptr + spans chunks = h.heapEnd)
    (hsize : size ≤ h.memSizeAligned) {rounds : ℕ} (hrounds : chunks.length < rounds) :
    h.mallocLoop size rounds ptr =
      some (findFit (h.memSizeAligned - size) size ptr chunks) := by
  have hend : h.heapEnd = h.memSizeAligned + 12 := rfl
  have hbound : sub32 h.memSizeAligned size = h.memSizeAligned - size :=
    sub32_eq hsize (by omega)
  induction chunks generalizing prev ptr rounds with
  | nil =>
      obtain ⟨rounds, rfl⟩ : ∃ n, rounds = n + 1 := ⟨rounds - 1, by omega⟩
      rw [spans_nil] at hspans
      rw [SmallMem.mallocLoop, hbound, if_neg (by omega)]
      rfl
  | cons c chunks ih =>
      obtain ⟨rounds, rfl⟩ : ∃ n, rounds = n + 1 := ⟨rounds - 1, by omega⟩
      obtain ⟨hc, hrest⟩ := hseg
      have hspan : c.span = 12 + c.size := rfl
      rw [spans_cons] at hspans
      have hnext : h.next ptr = ptr + c.span := hc.next
      have hfits : sub32 (h.next ptr) (ptr + sizeofStructMem) = c.size := by
        have hheader : sizeofStructMem = 12 := rfl
        rw [hnext, sub32_eq (by omega) (by omega)]
        omega
      have hused : h.used ptr = 0 ↔ c.owner = none := by
        have heq : h.used ptr = if c.owner.isSome then 1 else 0 := hc.used
        rw [heq]
        cases c.owner <;> simp
      rw [SmallMem.mallocLoop, hbound, findFit, hfits, hnext,
        ih hrest (by omega) (Nat.succ_lt_succ_iff.mp hrounds)]
      simp only [hused]
      split_ifs <;> rfl

theorem lfreeLoop_eq {prev ptr : ℕ} (hseg : Seg h.mem prev ptr chunks)
    (hspans : ptr + spans chunks = h.heapEnd) {rounds : ℕ} (hrounds : chunks.length < rounds) :
    h.lfreeLoop rounds ptr = some (firstFree ptr chunks) := by
  induction chunks generalizing prev ptr rounds with
  | nil =>
      obtain ⟨rounds, rfl⟩ : ∃ n, rounds = n + 1 := ⟨rounds - 1, by omega⟩
      rw [spans_nil] at hspans
      rw [SmallMem.lfreeLoop, if_neg fun hno => hno.2 hspans]
      rfl
  | cons c chunks ih =>
      obtain ⟨rounds, rfl⟩ : ∃ n, rounds = n + 1 := ⟨rounds - 1, by omega⟩
      obtain ⟨hc, hrest⟩ := hseg
      have hspan : c.span = 12 + c.size := rfl
      rw [spans_cons] at hspans
      have hnext : h.next ptr = ptr + c.span := hc.next
      have hused : h.used ptr = if c.owner.isSome then 1 else 0 := hc.used
      rw [SmallMem.lfreeLoop, firstFree, hnext, hused,
        ih hrest (by omega) (Nat.succ_lt_succ_iff.mp hrounds)]
      cases howner : c.owner with
      | none => simp
      | some data => rw [if_pos ⟨by simp, by omega⟩, if_neg (by simp)]

end Loops

section Search

variable {bound size ptr : ℕ} {chunks before behind : List Chunk} {c d : Chunk}

theorem findFit_of_le (h : bound ≤ ptr) : findFit bound size ptr chunks = none := by
  cases chunks with
  | nil => rfl
  | cons c cs => rw [findFit, if_neg (Nat.not_lt.mpr h)]

/-- Chunks that are in use are passed over. -/
theorem findFit_append (h : ∀ c ∈ before, c.owner ≠ none) :
    findFit bound size ptr (before ++ chunks) = findFit bound size (ptr + spans before) chunks := by
  induction before generalizing ptr with
  | nil => rfl
  | cons c cs ih =>
      have hfits : ¬(c.owner = none ∧ size ≤ c.size) := fun hc => h c List.mem_cons_self hc.1
      rw [List.cons_append, findFit, spans_cons, if_neg hfits,
        ih fun d hd => h d (List.mem_cons_of_mem c hd), ← Nat.add_assoc]
      by_cases hlt : ptr < bound
      · rw [if_pos hlt]
      · rw [if_neg hlt, findFit_of_le (by omega)]

theorem findFit_eq_some {p : ℕ} (h : findFit bound size ptr chunks = some p) :
    ∃ before c behind, chunks = before ++ c :: behind ∧ p = ptr + spans before ∧
      c.owner = none ∧ size ≤ c.size := by
  induction chunks generalizing ptr with
  | nil => exact absurd h.symm (Option.some_ne_none p)
  | cons c chunks ih =>
      rw [findFit] at h
      split_ifs at h with hlt hfits
      · obtain rfl := Option.some.inj h
        exact ⟨[], c, chunks, rfl, rfl, hfits⟩
      · obtain ⟨before, d, behind, rfl, rfl, hd⟩ := ih h
        exact ⟨c :: before, d, behind, rfl, by rw [spans_cons, Nat.add_assoc], hd⟩

theorem findFit_eq_none_iff : findFit bound size ptr chunks = none ↔
    ∀ before c behind, chunks = before ++ c :: behind → c.owner = none →
      ptr + spans before < bound → c.size < size := by
  induction chunks generalizing ptr with
  | nil => exact iff_of_true rfl fun before c behind h => absurd h (by simp)
  | cons c chunks ih =>
      rw [findFit]
      constructor
      · intro hnone before d behind heq hfree hlt
        rcases List.cons_eq_append_iff.mp heq with ⟨rfl, hd⟩ | ⟨before', rfl, hrest⟩
        · obtain ⟨rfl, rfl⟩ := List.cons.inj hd
          rw [spans_nil, Nat.add_zero] at hlt
          rw [if_pos hlt] at hnone
          by_contra hle
          rw [if_pos ⟨hfree, Nat.not_lt.mp hle⟩] at hnone
          exact Option.some_ne_none _ hnone
        · rw [spans_cons, ← Nat.add_assoc] at hlt
          rw [if_pos (by omega)] at hnone
          split_ifs at hnone
          exact ih.mp hnone before' d behind hrest hfree hlt
      · intro hall
        split_ifs with hlt hfits
        · have hc := hall [] c chunks rfl hfits.1 hlt
          omega
        · refine ih.mpr fun before d behind heq hfree hlt' => ?_
          refine hall (c :: before) d behind (by rw [heq, List.cons_append]) hfree ?_
          rwa [spans_cons, ← Nat.add_assoc]
        · rfl

/-- The first free chunk is behind chunks that are in use. -/
theorem firstFree_append (h : ∀ c ∈ before, c.owner ≠ none) :
    firstFree ptr (before ++ chunks) = firstFree (ptr + spans before) chunks := by
  induction before generalizing ptr with
  | nil => rfl
  | cons c cs ih =>
      rw [List.cons_append, firstFree, if_neg (h c List.mem_cons_self),
        ih fun d hd => h d (List.mem_cons_of_mem c hd), spans_cons, Nat.add_assoc]

/-- Behind a free chunk nothing matters to the first free one. -/
theorem firstFree_append_free (hc : c.owner = none) (hd : d.owner = none) {cs ds : List Chunk} :
    firstFree ptr (before ++ c :: cs) = firstFree ptr (before ++ d :: ds) := by
  induction before generalizing ptr with
  | nil => rw [List.nil_append, List.nil_append, firstFree, firstFree, if_pos hc, if_pos hd]
  | cons b before ih =>
      rw [List.cons_append, List.cons_append, firstFree, firstFree, ih]

/-- The first free chunk is where a list can be split. -/
theorem exists_firstFree (ptr : ℕ) (chunks : List Chunk) :
    ∃ before behind, chunks = before ++ behind ∧ firstFree ptr chunks = ptr + spans before ∧
      (∀ c ∈ before, c.owner ≠ none) ∧ ∀ c ∈ behind.head?, c.owner = none := by
  induction chunks generalizing ptr with
  | nil => exact ⟨[], [], rfl, rfl, by simp, by simp⟩
  | cons c chunks ih =>
      by_cases hc : c.owner = none
      · exact ⟨[], c :: chunks, rfl, if_pos hc, by simp, by simpa using hc⟩
      · obtain ⟨before, behind, rfl, hplace, hbefore, hbehind⟩ := ih (ptr + c.span)
        refine ⟨c :: before, behind, rfl, ?_, ?_, hbehind⟩
        · rw [firstFree, if_neg hc, hplace, spans_cons, Nat.add_assoc]
        · intro d hd
          rcases List.mem_cons.mp hd with rfl | hd
          · exact hc
          · exact hbefore d hd

end Search

end Kernel
