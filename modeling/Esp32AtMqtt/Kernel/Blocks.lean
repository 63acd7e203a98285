import Esp32AtMqtt.Kernel.Chunks
import Mathlib.Algebra.Order.BigOperators.Group.List

/-!
# Blocks of the heap

What `rt_malloc`, `rt_free`, `rt_realloc` and `rt_calloc` do to a heap that is in order. The owners
of the blocks see that theirs are changed by nobody else.
-/

namespace Kernel

open Words

/-- The heap is in order: the chunks fill it, no two free ones are together, `lfree` is at one of
them, and `used_mem` is what those in use take. -/
structure HeapOk (h : SmallMem) (chunks : List Chunk) : Prop where
  tiled : Tiled h chunks
  apart : Apart chunks
  bound : h.lfree ∈ boundaries 0 chunks
  counted : h.usedMem = takens chunks
  start : (∀ c ∈ chunks, c.owner = none) → h.lfree = 0

section Lists

variable {ptr p : ℕ} {c d : Chunk} {cs ds before behind : List Chunk}

theorem takens_singleton (c : Chunk) : takens [c] = if c.owner = none then 0 else c.span := by
  simp [takens]

theorem ownerAt_singleton (ptr : ℕ) (c : Chunk) :
    ownerAt ptr [c] = Function.update (fun _ => none) (ptr + sizeofStructMem) c.owner := by
  funext p
  rw [ownerAt, ownerAt, Option.or_none, Function.update_apply]

/-- The owner of a chunk is found at its place. -/
theorem ownerAt_place (before : List Chunk) (c : Chunk) (behind : List Chunk) :
    ownerAt 0 (before ++ [c] ++ behind) (spans before + sizeofStructMem) = c.owner := by
  have hspan : c.span = sizeofStructMem + c.size := rfl
  have hheader : sizeofStructMem = 12 := rfl
  rw [ownerAt_append, ownerAt_append, Nat.zero_add, Nat.zero_add, ownerAt_singleton,
    Function.update_self, ownerAt_eq_none (Or.inr (by omega)), spans_append, spans_singleton,
    ownerAt_eq_none (Or.inl (by omega)), Option.none_or, Option.or_none]

theorem spans_mem_boundaries : ptr + spans before ∈ boundaries ptr (before ++ behind) :=
  mem_boundaries_append.mpr (Or.inr mem_boundaries_start)

/-- The boundaries stay when a chunk is replaced by others that end where it ends. -/
theorem boundaries_subset (hspans : spans ds = c.span)
    (h : p ∈ boundaries ptr (before ++ [c] ++ behind)) :
    p ∈ boundaries ptr (before ++ ds ++ behind) := by
  simp only [mem_boundaries_append, spans_append, spans_singleton, hspans] at h ⊢
  refine h.imp_left (Or.imp_right fun hc => ?_)
  simp only [boundaries, List.mem_cons, List.not_mem_nil, or_false] at hc
  rcases hc with rfl | rfl
  · exact mem_boundaries_start
  · have hlast : ptr + spans before + spans ds ∈ boundaries (ptr + spans before) (ds ++ []) :=
      spans_mem_boundaries
    rwa [List.append_nil, hspans] at hlast

theorem takens_le (cs : List Chunk) : takens cs ≤ spans cs := by
  apply List.sum_le_sum
  intro c _
  split_ifs <;> omega

theorem spans_mod (h : ∀ c ∈ cs, c.size % 4 = 0 ∧ 0 < c.size) : spans cs % 4 = 0 := by
  induction cs with
  | nil => rfl
  | cons c cs ih =>
      have hc := h c List.mem_cons_self
      have hspan : c.span = 12 + c.size := rfl
      have hcs := ih fun d hd => h d (List.mem_cons_of_mem c hd)
      rw [spans_cons]
      omega

theorem le_firstFree (ptr : ℕ) (cs : List Chunk) : ptr ≤ firstFree ptr cs := by
  induction cs generalizing ptr with
  | nil => exact Nat.le_refl ptr
  | cons c cs ih =>
      rw [firstFree]
      split_ifs
      · exact Nat.le_refl ptr
      · exact (Nat.le_add_right ptr c.span).trans (ih _)

theorem firstFree_mem_boundaries (ptr : ℕ) (cs : List Chunk) :
    firstFree ptr cs ∈ boundaries ptr cs := by
  induction cs generalizing ptr with
  | nil => exact List.mem_singleton_self ptr
  | cons c cs ih =>
      rw [firstFree, boundaries]
      split_ifs
      · exact List.mem_cons_self
      · exact List.mem_cons_of_mem ptr (ih _)

/-- A chunk that becomes free is the first if it lies before the one that was. -/
theorem firstFree_free (hd : d.owner = none) : firstFree ptr (before ++ d :: behind) =
    min (ptr + spans before) (firstFree ptr (before ++ c :: behind)) := by
  induction before generalizing ptr with
  | nil =>
      have hle := le_firstFree ptr (c :: behind)
      rw [List.nil_append, firstFree, if_pos hd, spans_nil, Nat.add_zero, List.nil_append,
        Nat.min_eq_left hle]
  | cons b before ih =>
      rw [List.cons_append, List.cons_append, firstFree, firstFree, ih, spans_cons, Nat.add_assoc]
      split_ifs
      · omega
      · rfl

/-- The first free chunk is at a given place, or before it whatever comes there. -/
theorem firstFree_cases (ptr : ℕ) (before : List Chunk) :
    (∀ b ∈ before, b.owner ≠ none) ∨
      (∀ cs ds, firstFree ptr (before ++ cs) = firstFree ptr (before ++ ds)) ∧
        ∀ cs, firstFree ptr (before ++ cs) < ptr + spans before := by
  induction before generalizing ptr with
  | nil => exact Or.inl fun b hb => absurd hb List.not_mem_nil
  | cons b before ih =>
      have hspan : b.span = 12 + b.size := rfl
      simp only [List.cons_append, firstFree, spans_cons]
      by_cases hb : b.owner = none
      · simp only [if_pos hb]
        exact Or.inr ⟨fun _ _ => trivial, fun _ => by omega⟩
      · simp only [if_neg hb, ← Nat.add_assoc]
        refine (ih (ptr + b.span)).imp_left fun hbefore => ?_
        exact List.forall_mem_cons.mpr ⟨hb, hbefore⟩

/-- Free chunks that are apart are one at most. -/
theorem Apart.eq_singleton (h : Apart (c :: cs)) (hfree : ∀ d ∈ c :: cs, d.owner = none) :
    cs = [] := by
  cases cs with
  | nil => rfl
  | cons d cs =>
      have hcd := (List.isChain_cons_cons.mp h).1
      rcases hcd with hc | hd
      · exact absurd (hfree c List.mem_cons_self) hc
      · exact absurd (hfree d (by simp)) hd

end Lists

section Operations

variable {h : SmallMem} {chunks before behind : List Chunk} {c : Chunk}

theorem Tiled.congr {h' : SmallMem} (ht : Tiled h chunks) (hmem : h'.mem = h.mem)
    (hsize : h'.memSizeAligned = h.memSizeAligned) : Tiled h' chunks := by
  have hend : h'.heapEnd = h.heapEnd := congrArg (· + sizeofStructMem) hsize
  refine ⟨?_, ?_, ?_, ht.sizes, ?_, ?_, ?_⟩
  · rw [hmem]
    exact ht.seg
  · rw [hend]
    exact ht.fills
  · rw [hmem, hend]
    exact ht.last
  · rw [hsize]
    exact ht.large
  · rw [hsize]
    exact ht.sizeAligned
  · rw [hend]
    exact ht.small

/-- When all chunks are free there is one, and `lfree` can only be at it or at the end. -/
theorem HeapOk.of_plugged {h' : SmallMem} {cs : List Chunk} (hplug : Plugged h h' cs chunks)
    (happart : Apart chunks) (hbound : h.lfree ∈ boundaries 0 cs)
    (hcounted : h.usedMem = takens cs)
    (hstart : h.lfree < h.heapEnd ∨ ∃ c ∈ chunks, c.owner ≠ none) : HeapOk h' chunks := by
  refine ⟨hplug.tiled, happart, hplug.bound hbound, ?_, fun hfree => ?_⟩
  · rw [hplug.usedMem, hcounted, hplug.takens]
  · have hlt : h.lfree < h.heapEnd := hstart.resolve_right fun ⟨c, hc, hused⟩ => hused (hfree c hc)
    have hle := hplug.le
    have hend : h'.heapEnd = h.heapEnd := congrArg (· + sizeofStructMem) hplug.memSizeAligned
    have hfills := hplug.tiled.fills
    have hmem := hplug.bound hbound
    cases chunks with
    | nil =>
        rw [spans_nil] at hfills
        omega
    | cons c cs =>
        obtain rfl := happart.eq_singleton hfree
        rw [spans_singleton] at hfills
        simp only [boundaries, List.mem_cons, List.not_mem_nil, or_false, Nat.zero_add] at hmem
        omega

/-- A chunk in use is released. -/
theorem Tiled.release (ht : Tiled h (before ++ [c] ++ behind)) :
    Tiled (h.release (spans before)) (before ++ [{ c with owner := none }] ++ behind) := by
  have hmagic : heapMagic < 256 ^ 2 := by decide
  have hmem : (h.release (spans before)).mem =
      store (store h.mem (spans before + 2) 2 0) (spans before) 2 heapMagic := rfl
  refine ht.setOwner rfl ?_ ?_ (by simp) fun x hx => ?_
  · rw [hmem, load_store hmagic]
  · rw [hmem, load_store_of_disjoint (by omega), load_store (by omega)]
    rfl
  · have hcspan : c.span = 12 + c.size := rfl
    rw [hmem, store_of_outside (by omega), store_of_outside (by omega)]

/-- `rt_free` gives back a block. -/
theorem HeapOk.rtFree {data : List UInt8} (hok : HeapOk h (before ++ [c] ++ behind))
    (howner : c.owner = some data) :
    ∃ h' chunks', h.rtFree (some (spans before + sizeofStructMem)) = some h' ∧
      h'.memSizeAligned = h.memSizeAligned ∧ HeapOk h' chunks' ∧
      ownerAt 0 chunks' = Function.update (ownerAt 0 (before ++ [c] ++ behind))
        (spans before + sizeofStructMem) none ∧
      (h.lfree = firstFree 0 (before ++ [c] ++ behind) → h'.lfree = firstFree 0 chunks') := by
  obtain ⟨hcAt, hplace, hsmall, hsizes⟩ := hok.tiled.chunkAt
  have hcspan : c.span = 12 + c.size := rfl
  have hheader : sizeofStructMem = 12 := rfl
  have hmod : spans before % 4 = 0 := spans_mod fun b hb => hok.tiled.sizes b (by simp [hb])
  obtain ⟨hbefore, hbehind⟩ := apart_split.mp hok.apart
  have htiled := hok.tiled.release
  have hnext : (h.release (spans before)).next (spans before) = spans before + c.span :=
    htiled.chunkAt.1.next
  have husedMem : (h.release (spans before)).usedMem =
      takens (before ++ [{ c with owner := none }] ++ behind) := by
    have hcount := hok.counted
    have hle := takens_le (before ++ [c] ++ behind)
    simp only [takens_append, takens_singleton, howner, spans_append, spans_singleton,
      reduceCtorEq, if_false, if_true] at hcount hle ⊢
    have hspan : sub32 ((h.release (spans before)).next (spans before)) (spans before) =
        c.span := by
      rw [hnext, sub32_add_left (by omega)]
    refine (congrArg (sub32 h.usedMem) hspan).trans ?_
    rw [sub32_eq (by omega) (by omega)]
    omega
  have hlfree : (h.release (spans before)).lfree = min (spans before) h.lfree := by
    refine (?_ : (if spans before < h.lfree then spans before else h.lfree) = _)
    split_ifs <;> omega
  have hspans : spans [{ c with owner := none }] = c.span := spans_singleton _
  have hbound : (h.release (spans before)).lfree ∈
      boundaries 0 (before ++ [{ c with owner := none }] ++ behind) := by
    rw [hlfree]
    rcases Nat.le_total (spans before) h.lfree with hle | hle
    · rw [Nat.min_eq_left hle, List.append_assoc, ← Nat.zero_add (spans before)]
      exact spans_mem_boundaries
    · rw [Nat.min_eq_right hle]
      exact boundaries_subset hspans hok.bound
  obtain ⟨h', chunks', hrun, happart, hplug⟩ := plugHoles_plugged htiled rfl
    (List.isChain_append.mp hbefore).1 (List.isChain_cons.mp hbehind).2
  refine ⟨h', chunks', ?_, hplug.memSizeAligned,
    .of_plugged hplug happart hbound husedMem (Or.inl ?_), ?_, fun hfirst => hplug.first ?_⟩
  · have hbad : ¬(h.used (spans before) = 0 ∨ h.magic (spans before) ≠ heapMagic) := by
      rintro (hused | hno)
      · have hfree := hcAt.used_eq_zero_iff.mp hused
        rw [howner] at hfree
        exact Option.some_ne_none data hfree
      · exact hno hcAt.magic
    rw [SmallMem.rtFree, if_neg (by omega), Nat.add_sub_cancel, if_neg hbad, hrun]
  · have hend : (h.release (spans before)).heapEnd = h.heapEnd := rfl
    rw [hlfree]
    omega
  · rw [hplug.owners]
    exact ownerAt_update hspans fun ptr => ownerAt_singleton ptr _
  · rw [hlfree, hfirst, List.append_assoc, List.append_assoc]
    exact ((firstFree_free rfl).trans (by rw [Nat.zero_add]; rfl)).symm

/-- A chunk gets an owner, with the bytes that are in memory. -/
theorem Tiled.take {h' : SmallMem} {n : ℕ} (ht : Tiled h (before ++ [c] ++ behind))
    (hn : n ≤ c.size) (hsize : h'.memSizeAligned = h.memSizeAligned)
    (hmem : h'.mem = store (store h.mem (spans before + 2) 2 1) (spans before) 2 heapMagic) :
    Tiled h' (before ++ [⟨c.size, some (bytes h'.mem (spans before + sizeofStructMem) n)⟩] ++
      behind) := by
  have hmagic : heapMagic < 256 ^ 2 := by decide
  have hcspan : c.span = 12 + c.size := rfl
  refine ht.setOwner hsize ?_ ?_ ?_ fun x hx => ?_
  · rw [hmem, load_store hmagic]
  · rw [hmem, load_store_of_disjoint (by omega), load_store (by omega)]
    rfl
  · rintro data ⟨⟩
    rw [length_bytes]
    exact ⟨hn, rfl⟩
  · rw [hmem, store_of_outside (by omega), store_of_outside (by omega)]

/-- The chunks that are in the place of one of which `size` bytes were taken. -/
def carved (c : Chunk) (size : ℕ) (data : List UInt8) : List Chunk :=
  if size + sizeofStructMem + minSizeAligned ≤ c.size then
    [⟨size, some data⟩, ⟨c.size - size - sizeofStructMem, none⟩]
  else [⟨c.size, some data⟩]

theorem spans_carved (c : Chunk) (size : ℕ) (data : List UInt8) :
    spans (carved c size data) = c.span := by
  have hheader : sizeofStructMem = 12 := rfl
  rw [carved]
  split_ifs
  · simp only [spans_cons, spans_nil, Chunk.span]
    omega
  · exact spans_singleton _

theorem ownerAt_carved (c : Chunk) (size : ℕ) (data : List UInt8) (ptr : ℕ) :
    ownerAt ptr (carved c size data) =
      Function.update (fun _ => none) (ptr + sizeofStructMem) (some data) := by
  rw [carved]
  split_ifs
  · funext p
    rw [ownerAt, ownerAt_of_free (by simp), Option.or_none, Function.update_apply]
  · exact ownerAt_singleton ptr _

theorem Apart.carved {size : ℕ} {data : List UInt8} (happart : Apart (before ++ [c] ++ behind))
    (hfree : c.owner = none) : Apart (before ++ Kernel.carved c size data ++ behind) := by
  obtain ⟨hbefore, hbehind⟩ := apart_split.mp happart
  rw [Kernel.carved]
  split_ifs
  · rw [List.append_cons, List.append_assoc (before ++ _), apart_split]
    refine ⟨hbefore.replace_last (absurd hfree), List.isChain_cons_cons.mpr ⟨Or.inl ?_, ?_⟩⟩
    · exact Option.some_ne_none data
    · exact hbehind.replace_head (absurd hfree)
  · exact apart_split.mpr ⟨hbefore.replace_last (absurd hfree), hbehind.replace_head (absurd hfree)⟩

/-- `carve` takes a free chunk, or the first part of it. -/
theorem HeapOk.carve {h' : SmallMem} {size n : ℕ} {data : List UInt8}
    (hok : HeapOk h (before ++ [c] ++ behind)) (hfree : c.owner = none) (haligned : size % 4 = 0)
    (hpos : 0 < size) (hsize : size ≤ c.size) (hn : n ≤ size)
    (hcarve : h.carve (spans before) size = h')
    (hdata : bytes h'.mem (spans before + sizeofStructMem) n = data) :
    h'.memSizeAligned = h.memSizeAligned ∧ h'.lfree = h.lfree ∧
      Tiled h' (before ++ carved c size data ++ behind) ∧
      h'.usedMem = takens (before ++ carved c size data ++ behind) := by
  obtain ⟨hcAt, hplace, hsmall, hsizes⟩ := hok.tiled.chunkAt
  have hcspan : c.span = 12 + c.size := rfl
  have hheader : sizeofStructMem = 12 := rfl
  have hmin : minSizeAligned = 12 := rfl
  have hnext : h.next (spans before) = spans before + c.span := hcAt.next
  have hroom : sub32 (h.next (spans before)) (spans before + sizeofStructMem) = c.size := by
    rw [hnext, sub32_eq (by omega) (by omega)]
    omega
  have hbefore := takens_le before
  have hbehind := takens_le behind
  have hcount := hok.counted
  simp only [takens_append, takens_singleton, hfree, if_true] at hcount
  by_cases hbig : size + sizeofStructMem + minSizeAligned ≤ c.size
  · have hcarve : h' = (((h.split (spans before) size).setUsed (spans before) 1).countUsed
        (size + sizeofStructMem)).setMagic (spans before) heapMagic := by
      simp only [← hcarve, SmallMem.carve, hroom, if_pos hbig]
    have hsplit := hok.tiled.split haligned hpos (by omega)
    rw [List.append_cons, List.append_assoc (before ++ _), hfree] at hsplit
    have hchunks : before ++ Kernel.carved c size data ++ behind = before ++ [⟨size, some data⟩] ++
        ([⟨c.size - size - 12, none⟩] ++ behind) := by
      rw [Kernel.carved, if_pos hbig, hheader, List.append_cons, List.append_assoc (before ++ _)]
    rw [hchunks]
    refine ⟨?_, ?_, ?_, ?_⟩
    · simp [hcarve]
    · simp [hcarve]
    · rw [← hdata]
      refine hsplit.take hn ?_ ?_
      · simp [hcarve]
      · rw [hcarve]
        rfl
    · have hcounted : h'.usedMem = (h.usedMem + (size + sizeofStructMem)) % 2 ^ 32 := by
        simp [hcarve]
      rw [hcounted, Nat.mod_eq_of_lt (by omega)]
      simp only [takens_append, takens_singleton, reduceCtorEq, if_false, if_true, Chunk.span]
      omega
  · have hcarve : h' = ((h.setUsed (spans before) 1).countUsed
        (sub32 (h.next (spans before)) (spans before))).setMagic (spans before) heapMagic := by
      simp only [← hcarve, SmallMem.carve, hroom, if_neg hbig]
    rw [Kernel.carved, if_neg hbig]
    refine ⟨?_, ?_, ?_, ?_⟩
    · simp [hcarve]
    · simp [hcarve]
    · rw [← hdata]
      refine hok.tiled.take (hn.trans hsize) ?_ ?_
      · simp [hcarve]
      · rw [hcarve]
        rfl
    · have hspan : sub32 (h.next (spans before)) (spans before) = c.span := by
        rw [hnext, sub32_eq (by omega) (by omega)]
        omega
      have hcounted : h'.usedMem = (h.usedMem + c.span) % 2 ^ 32 := by
        simp [hcarve, hspan]
      rw [hcounted, Nat.mod_eq_of_lt (by omega)]
      simp only [takens_append, takens_singleton, reduceCtorEq, if_false, Chunk.span] at hcspan ⊢
      omega

/-- The loop of `rt_malloc` from any chunk on. -/
theorem Tiled.mallocLoop {n : ℕ} (ht : Tiled h (before ++ behind)) (hn : n ≤ h.memSizeAligned) :
    h.mallocLoop n h.rounds (spans before) =
      some (findFit (h.memSizeAligned - n) n (spans before) behind) := by
  obtain ⟨hseg, hfills⟩ := ht.rest
  have hsmall := ht.small
  have hlength := length_le_spans behind
  have hend : h.heapEnd = h.memSizeAligned + sizeofStructMem := rfl
  have hheader : sizeofStructMem = 12 := rfl
  exact mallocLoop_eq (by omega) hseg hfills hn (by rw [SmallMem.rounds]; omega)

/-- What the loop of `rt_malloc` finds is a free chunk that is large enough. It is the first one if
`lfree` is where it should be. -/
theorem HeapOk.mallocLoop {n : ℕ} (hok : HeapOk h chunks) (hn : n ≤ h.memSizeAligned) :
    ∃ found, h.mallocLoop n h.rounds h.lfree = some found ∧
      (∀ ptr ∈ found, ∃ before c behind, chunks = before ++ [c] ++ behind ∧ ptr = spans before ∧
        c.owner = none ∧ n ≤ c.size) ∧
      (h.lfree = firstFree 0 chunks → found = findFit (h.memSizeAligned - n) n 0 chunks) := by
  obtain ⟨front, rest, rfl, hlfree⟩ := exists_of_mem_boundaries hok.bound
  rw [Nat.zero_add] at hlfree
  refine ⟨_, by rw [hlfree, hok.tiled.mallocLoop hn], fun ptr hptr => ?_, fun hfirst => ?_⟩
  · obtain ⟨middle, c, behind, rfl, rfl, hfree, hsize⟩ := findFit_eq_some (Option.mem_def.mp hptr)
    exact ⟨front ++ middle, c, behind, by simp, (spans_append front middle).symm, hfree, hsize⟩
  · obtain ⟨before, behind, heq, hplace, hused, -⟩ := exists_firstFree 0 (front ++ rest)
    have hloop := hok.tiled.mallocLoop hn
    have ht := hok.tiled
    rw [heq] at ht
    have hloop' := ht.mallocLoop hn
    rw [Nat.zero_add] at hplace
    rw [← hplace, ← hfirst, hlfree, hloop, Option.some_inj] at hloop'
    rw [hloop', heq, findFit_append hused, Nat.zero_add, ← hplace, ← hfirst, hlfree]

/-- The size of the chunk that `rt_malloc` looks for. -/
def blockSize (size : ℕ) : ℕ := max (rtAlign size) minSizeAligned

theorem rtAlign_spec {size : ℕ} (hsize : size ≤ 2 ^ 32 - 4) :
    size ≤ rtAlign size ∧ rtAlign size % 4 = 0 ∧ rtAlign size < size + 4 := by
  rw [rtAlign, Nat.mod_eq_of_lt (by omega)]
  omega

/-- A free chunk that is large enough is given to an owner. -/
theorem HeapOk.grant {size n : ℕ} (hok : HeapOk h (before ++ [c] ++ behind))
    (hfree : c.owner = none) (haligned : size % 4 = 0) (hpos : 0 < size) (hsize : size ≤ c.size)
    (hn : n ≤ size) :
    ∃ h' chunks', h.grant (spans before) size = some (h', some (spans before + sizeofStructMem)) ∧
      h'.memSizeAligned = h.memSizeAligned ∧ HeapOk h' chunks' ∧
      ownerAt 0 chunks' = Function.update (ownerAt 0 (before ++ [c] ++ behind))
        (spans before + sizeofStructMem)
        (some (bytes h'.mem (spans before + sizeofStructMem) n)) ∧
      (h.lfree = firstFree 0 (before ++ [c] ++ behind) → h'.lfree = firstFree 0 chunks') := by
  obtain ⟨-, hplace, -, -⟩ := hok.tiled.chunkAt
  have hcspan : c.span = 12 + c.size := rfl
  have hheader : sizeofStructMem = 12 := rfl
  have hmod : spans before % 4 = 0 := spans_mod fun b hb => hok.tiled.sizes b (by simp [hb])
  generalize hcarve : h.carve (spans before) size = h₁
  generalize hdata : bytes h₁.mem (spans before + sizeofStructMem) n = data
  obtain ⟨hsize₁, hlfree₁, htiled₁, hused₁⟩ :=
    hok.carve hfree haligned hpos hsize hn hcarve hdata
  have hspans : spans (carved c size data) = c.span := spans_carved c size data
  have hend : h₁.heapEnd = h.heapEnd := congrArg (· + sizeofStructMem) hsize₁
  obtain ⟨lfree, hrun, hbound, hfirst⟩ : ∃ lfree,
      (if spans before = h₁.lfree then h₁.lfreeLoop h₁.rounds h₁.lfree else some h₁.lfree) =
        some lfree ∧ lfree ∈ boundaries 0 (before ++ carved c size data ++ behind) ∧
      (h.lfree = firstFree 0 (before ++ [c] ++ behind) →
        lfree = firstFree 0 (before ++ carved c size data ++ behind)) := by
    have hfirst := firstFree_cases 0 before
    rw [List.append_assoc before [c], List.append_assoc before (carved c size data)]
    rw [List.append_assoc] at htiled₁
    by_cases hlow : spans before = h₁.lfree
    · refine ⟨firstFree (spans before) (carved c size data ++ behind), ?_, ?_, fun hf => ?_⟩
      · obtain ⟨hseg, hfills⟩ := htiled₁.rest
        have hlength := length_le_spans (carved c size data ++ behind)
        have hrounds : h₁.rounds = h₁.heapEnd + 1 := rfl
        rw [if_pos hlow, ← hlow]
        exact lfreeLoop_eq hseg hfills (by omega)
      · refine mem_boundaries_append.mpr (Or.inr ?_)
        rw [Nat.zero_add]
        exact firstFree_mem_boundaries _ _
      · rcases hfirst with hused | ⟨-, hlt⟩
        · rw [firstFree_append hused, Nat.zero_add]
        · have hlt := hlt ([c] ++ behind)
          omega
    · refine ⟨h₁.lfree, if_neg hlow, ?_, fun hf => ?_⟩
      · rw [hlfree₁, ← List.append_assoc]
        exact boundaries_subset hspans hok.bound
      · rcases hfirst with hused | ⟨hsame, -⟩
        · rw [firstFree_append hused, List.singleton_append, firstFree, if_pos hfree,
            Nat.zero_add] at hf
          exact absurd (hlfree₁.trans hf).symm hlow
        · rw [hlfree₁, hf]
          exact hsame _ _
  have hasserts : spans before + sizeofStructMem + size ≤ h₁.heapEnd ∧
      (spans before + sizeofStructMem) % 4 = 0 := by
    omega
  refine ⟨{ h₁ with lfree := lfree }, before ++ carved c size data ++ behind, ?_, hsize₁,
    ⟨htiled₁.congr rfl rfl, hok.apart.carved hfree, hbound, hused₁, fun hall => ?_⟩, ?_, hfirst⟩
  · rw [SmallMem.grant, hcarve]
    simp only [hrun, Option.bind_some, if_pos hasserts]
  · have hused : ∃ d ∈ carved c size data, d.owner = some data := by
      rw [carved]
      split_ifs <;> simp
    obtain ⟨d, hd, howner⟩ := hused
    have hnone := hall d (by simp [hd])
    rw [howner] at hnone
    exact absurd hnone (Option.some_ne_none data)
  · rw [hdata]
    exact ownerAt_update hspans (ownerAt_carved c size data)

/-- `rt_malloc` gives a new block with room for `size` bytes, or nothing and leaves the heap as it
was. If `lfree` is where it should be, the block is in the first chunk that is large enough. -/
theorem HeapOk.rtMalloc {size : ℕ} (hok : HeapOk h chunks) (hpos : 0 < size)
    (hsize : size ≤ 2 ^ 32 - 4) :
    ∃ h' r, h.rtMalloc size = some (h', r) ∧ h'.memSizeAligned = h.memSizeAligned ∧
      (h.lfree = firstFree 0 chunks → r = (findFit (h.memSizeAligned - blockSize size)
        (blockSize size) 0 chunks).map (· + sizeofStructMem)) ∧
      (r = none → h' = h) ∧ ∀ p ∈ r, ∃ chunks', HeapOk h' chunks' ∧ ownerAt 0 chunks p = none ∧
        ownerAt 0 chunks' = Function.update (ownerAt 0 chunks) p (some (bytes h'.mem p size)) ∧
        (h.lfree = firstFree 0 chunks → h'.lfree = firstFree 0 chunks') := by
  obtain ⟨hle, hmod, -⟩ := rtAlign_spec hsize
  have hmin : minSizeAligned = 12 := rfl
  have hlarge := hok.tiled.large
  rw [SmallMem.rtMalloc, if_neg (by omega)]
  by_cases hbig : h.memSizeAligned < rtAlign size
  · refine ⟨h, none, if_pos hbig, rfl, fun _ => ?_, fun _ => rfl, by simp⟩
    rw [findFit_of_le (by rw [blockSize]; omega)]
    rfl
  · have hblock : (if rtAlign size < minSizeAligned then minSizeAligned else rtAlign size) =
        blockSize size := by
      rw [blockSize]
      split_ifs <;> omega
    have hn : blockSize size ≤ h.memSizeAligned := by
      rw [blockSize]
      omega
    have hblockMod : blockSize size % 4 = 0 := by
      rw [← hblock]
      split_ifs <;> omega
    have hroom : size ≤ blockSize size := hle.trans (Nat.le_max_left _ _)
    obtain ⟨found, hloop, hfound, hfirstFit⟩ := hok.mallocLoop hn
    simp only [if_neg hbig, hblock, hloop, Option.bind_some]
    cases found with
    | none =>
        refine ⟨h, none, rfl, rfl, fun hfirst => ?_, fun _ => rfl, by simp⟩
        rw [← hfirstFit hfirst]
        rfl
    | some ptr =>
        obtain ⟨before, c, behind, rfl, rfl, hfree, hfits⟩ := hfound ptr rfl
        obtain ⟨h', chunks', hrun, hsize', hok', howners, hfirst⟩ :=
          hok.grant hfree hblockMod (by omega) hfits hroom
        refine ⟨h', _, hrun, hsize', fun hf => ?_, by simp, ?_⟩
        · rw [← hfirstFit hf]
          rfl
        · rintro p ⟨⟩
          exact ⟨chunks', hok', by rw [ownerAt_place, hfree], howners, hfirst⟩

end Operations

end Kernel
