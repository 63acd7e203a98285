import Esp32AtMqtt.Kernel.Heap

/-!
# Chunks that are taken and given back

What `rt_malloc`, `rt_free` and `rt_realloc` do to the chunks. A chunk gets an owner or loses it, it
is split in two, or two free ones are joined.
-/

namespace Kernel

open Words

/-- Where the chunks begin and where they end. -/
def boundaries : ℕ → List Chunk → List ℕ
  | ptr, [] => [ptr]
  | ptr, c :: cs => ptr :: boundaries (ptr + c.span) cs

/-- The bytes of the owner to whom the address `p` was given. -/
def ownerAt : ℕ → List Chunk → ℕ → Option (List UInt8)
  | _, [], _ => none
  | ptr, c :: cs, p =>
      (if p = ptr + sizeofStructMem then c.owner else none).or (ownerAt (ptr + c.span) cs p)

/-- What the chunks in use take of the memory. -/
def takens (cs : List Chunk) : ℕ := (cs.map fun c => if c.owner = none then 0 else c.span).sum

section Lists

variable {ptr p : ℕ} {c d : Chunk} {cs ds before behind : List Chunk}

theorem mem_boundaries_append :
    p ∈ boundaries ptr (cs ++ ds) ↔ p ∈ boundaries ptr cs ∨ p ∈ boundaries (ptr + spans cs) ds := by
  induction cs generalizing ptr with
  | nil =>
      have hstart : ptr ∈ boundaries ptr ds := by cases ds <;> exact List.mem_cons_self
      simp only [List.nil_append, boundaries, List.mem_singleton, spans_nil, Nat.add_zero]
      exact ⟨Or.inr, fun hp => hp.elim (fun heq => heq ▸ hstart) id⟩
  | cons c cs ih =>
      simp only [List.cons_append, boundaries, List.mem_cons, ih, spans_cons, or_assoc,
        Nat.add_assoc]

theorem mem_boundaries_start : ptr ∈ boundaries ptr cs := by
  cases cs <;> exact List.mem_cons_self

/-- Every boundary is the place where a list can be split. -/
theorem exists_of_mem_boundaries (h : p ∈ boundaries ptr cs) :
    ∃ before behind, cs = before ++ behind ∧ p = ptr + spans before := by
  induction cs generalizing ptr with
  | nil => exact ⟨[], [], rfl, List.mem_singleton.mp h⟩
  | cons c cs ih =>
      rcases List.mem_cons.mp h with rfl | h
      · exact ⟨[], c :: cs, rfl, rfl⟩
      · obtain ⟨before, behind, rfl, rfl⟩ := ih h
        exact ⟨c :: before, behind, rfl, by rw [spans_cons, Nat.add_assoc]⟩

theorem ownerAt_append : ownerAt ptr (cs ++ ds) p =
    (ownerAt ptr cs p).or (ownerAt (ptr + spans cs) ds p) := by
  induction cs generalizing ptr with
  | nil => rfl
  | cons c cs ih => rw [List.cons_append, ownerAt, ownerAt, ih, Option.or_assoc, spans_cons,
      Nat.add_assoc]

/-- No address is given that is not behind a header. -/
theorem ownerAt_eq_none (h : p < ptr + sizeofStructMem ∨ ptr + spans cs < p) :
    ownerAt ptr cs p = none := by
  induction cs generalizing ptr with
  | nil => rfl
  | cons c cs ih =>
      have hspan : c.span = sizeofStructMem + c.size := rfl
      rw [spans_cons] at h
      rw [ownerAt, if_neg (by omega), ih (by omega), Option.or_none]

theorem ownerAt_of_free (h : ∀ c ∈ cs, c.owner = none) : ownerAt ptr cs p = none := by
  induction cs generalizing ptr with
  | nil => rfl
  | cons c cs ih =>
      rw [ownerAt, h c List.mem_cons_self, ite_self,
        ih fun d hd => h d (List.mem_cons_of_mem c hd), Option.or_none]

/-- The owner of a chunk among others. -/
theorem exists_of_ownerAt {data : List UInt8} (h : ownerAt ptr cs p = some data) :
    ∃ before c behind, cs = before ++ [c] ++ behind ∧ p = ptr + spans before + sizeofStructMem ∧
      c.owner = some data := by
  induction cs generalizing ptr with
  | nil => exact absurd h.symm (Option.some_ne_none data)
  | cons c cs ih =>
      rcases Option.or_eq_some_iff.mp h with hc | ⟨-, hcs⟩
      · split_ifs at hc with hp
        exact ⟨[], c, cs, rfl, hp, hc⟩
      · obtain ⟨before, d, behind, rfl, rfl, hd⟩ := ih hcs
        exact ⟨c :: before, d, behind, rfl, by rw [spans_cons, Nat.add_assoc ptr], hd⟩

/-- The owner of one chunk changes. -/
theorem ownerAt_update {before behind ds : List Chunk} {owner : Option (List UInt8)}
    (hspans : spans ds = c.span)
    (hds : ∀ ptr, ownerAt ptr ds = Function.update (fun _ => none) (ptr + sizeofStructMem) owner) :
    ownerAt 0 (before ++ ds ++ behind) =
      Function.update (ownerAt 0 (before ++ [c] ++ behind)) (spans before + sizeofStructMem)
        owner := by
  have hspan : c.span = sizeofStructMem + c.size := rfl
  have hheader : sizeofStructMem = 12 := rfl
  funext p
  simp only [ownerAt_append, spans_append, hspans, Nat.zero_add, hds]
  by_cases hp : p = spans before + sizeofStructMem
  · subst hp
    have hlast : ownerAt (spans before + c.span) behind (spans before + sizeofStructMem) = none :=
      ownerAt_eq_none (Or.inl (by omega))
    rw [Function.update_self, Function.update_self, ownerAt_eq_none (Or.inr (by omega)), hlast,
      Option.none_or, Option.or_none]
  · rw [Function.update_of_ne hp, Function.update_of_ne hp]
    have hc : ownerAt (spans before) [c] p = none := by
      rw [ownerAt, if_neg hp, Option.none_or, ownerAt]
    simp only [ownerAt_append, spans_append, spans_singleton, Nat.zero_add, hc]

@[simp] theorem takens_append : takens (cs ++ ds) = takens cs + takens ds := by
  simp [takens]

end Lists

section Steps

variable {h h' : SmallMem} {before behind : List Chunk} {c d : Chunk}

/-- A chunk of the heap with what is around it. -/
theorem Tiled.chunkAt (ht : Tiled h (before ++ [c] ++ behind)) :
    ChunkAt h.mem (lastPlace 0 0 before) (spans before) c ∧
      spans before + c.span + spans behind = h.heapEnd ∧ h.heapEnd + 12 ≤ 2 ^ 32 ∧
      c.size % 4 = 0 ∧ 0 < c.size := by
  have hseg := ht.seg
  have hfills := ht.fills
  rw [List.append_assoc] at hseg
  simp only [spans_append, spans_cons, spans_nil, Nat.add_zero] at hfills
  exact ⟨hseg.chunkAt, hfills, ht.small, ht.sizes c (by simp)⟩

/-- The owner of a chunk changes. -/
theorem Tiled.setOwner {owner : Option (List UInt8)} (ht : Tiled h (before ++ [c] ++ behind))
    (hsize : h'.memSizeAligned = h.memSizeAligned)
    (hmagic : load h'.mem (spans before) 2 = heapMagic)
    (hused : load h'.mem (spans before + 2) 2 = if owner.isSome then 1 else 0)
    (hdata : ∀ data ∈ owner, data.length ≤ c.size ∧
      bytes h'.mem (spans before + sizeofStructMem) data.length = data)
    (hsame : ∀ x, x < spans before ∨ spans before + 4 ≤ x ∧ x < spans before + 12 ∨
      spans before + c.span ≤ x → h'.mem x = h.mem x) :
    Tiled h' (before ++ [{ c with owner := owner }] ++ behind) := by
  obtain ⟨hc, hplace, hsmall, hsizes⟩ := ht.chunkAt
  have hspan : c.span = 12 + c.size := rfl
  refine ht.replace hsize rfl (by simpa using hsizes)
    ⟨⟨hmagic, hused, ?_, ?_, hdata⟩, trivial⟩ (fun hne => ?_) fun x hx => hsame x ?_
  · rw [load_congr fun x hx hlt => hsame x (by omega)]
    exact hc.next
  · rw [load_congr fun x hx hlt => hsame x (by omega)]
    exact hc.prev
  · obtain ⟨e, es, rfl⟩ := List.exists_cons_of_ne_nil hne
    have hnext := (seg_append.mp ht.seg).2.1.prev
    simp only [spans_append, spans_cons, spans_nil, Nat.add_zero, Nat.zero_add,
      lastPlace_append] at hnext ⊢
    rw [load_congr fun x hx hlt => hsame x (by omega)]
    exact hnext
  · simp only [spans_cons, spans_nil, Nat.add_zero] at hx
    omega

/-- The headers after `insertHeader`. -/
theorem insertHeader_loads {ptr size place : ℕ} (hnext : load h.mem (ptr + 4) 4 = place)
    (hroom : ptr + 24 + size ≤ place) (hsmall : place < 2 ^ 32) :
    let mem := (h.insertHeader ptr size).mem
    load mem (ptr + 4) 4 = ptr + 12 + size ∧ ChunkAt mem ptr (ptr + 12 + size)
      ⟨place - (ptr + 24 + size), none⟩ ∧
      ∀ x, x < ptr + 4 ∨ ptr + 8 ≤ x ∧ x < ptr + 12 + size ∨ ptr + 24 + size ≤ x →
        mem x = h.mem x := by
  have hheader : sizeofStructMem = 12 := rfl
  have hmagic : heapMagic < 256 ^ 2 := by decide
  have hmem : (h.insertHeader ptr size).mem =
      store (store (store (store (store h.mem (ptr + 12 + size) 2 heapMagic) (ptr + 12 + size + 2) 2
        0) (ptr + 12 + size + 4) 4 place) (ptr + 12 + size + 8) 4 ptr) (ptr + 4) 4
        (ptr + 12 + size) := by
    rw [← hnext]
    rfl
  simp only [hmem]
  refine ⟨load_store (by omega), ⟨?_, ?_, ?_, ?_, by simp⟩, fun x hx => ?_⟩
  · simp (disch := omega) only [load_store_of_disjoint, load_store]
  · simp (disch := omega) only [load_store_of_disjoint, load_store]
    rfl
  · simp (disch := omega) only [load_store_of_disjoint, load_store, Chunk.span]
    omega
  · simp (disch := omega) only [load_store_of_disjoint, load_store]
  · simp (disch := omega) only [store_of_outside]

@[simp] theorem split_memSizeAligned (h : SmallMem) (ptr size : ℕ) :
    (h.split ptr size).memSizeAligned = h.memSizeAligned := by
  rw [SmallMem.split]
  split_ifs <;> rfl

@[simp] theorem split_lfree (h : SmallMem) (ptr size : ℕ) :
    (h.split ptr size).lfree = h.lfree := by
  rw [SmallMem.split]
  split_ifs <;> rfl

@[simp] theorem split_usedMem (h : SmallMem) (ptr size : ℕ) :
    (h.split ptr size).usedMem = h.usedMem := by
  rw [SmallMem.split]
  split_ifs <;> rfl

/-- `split` makes two chunks of one. The first keeps its owner, with the bytes there is room for. -/
theorem Tiled.split {size : ℕ} (ht : Tiled h (before ++ [c] ++ behind)) (haligned : size % 4 = 0)
    (hpos : 0 < size) (hsize : size + 12 < c.size) :
    Tiled (h.split (spans before) size)
      (before ++ [⟨size, c.owner.map (List.take size)⟩, ⟨c.size - size - 12, none⟩] ++ behind) := by
  obtain ⟨hc, hplace, hsmall, hcsizes⟩ := ht.chunkAt
  have hspan : c.span = 12 + c.size := rfl
  have hheader : sizeofStructMem = 12 := rfl
  obtain ⟨hnext, hnew, hsame⟩ := insertHeader_loads hc.next
    (show spans before + 24 + size ≤ spans before + c.span by omega) (by omega)
  have hmem : (h.split (spans before) size).mem = if spans before + c.span = h.heapEnd
      then (h.insertHeader (spans before) size).mem
      else store (h.insertHeader (spans before) size).mem (spans before + c.span + 8) 4
        (spans before + 12 + size) := by
    have hplace2 : (h.insertHeader (spans before) size).next (spans before + 12 + size) =
        spans before + c.span := by
      refine hnew.next.trans ?_
      simp only [Chunk.span]
      omega
    rw [SmallMem.split, hheader, hplace2, ite_not, apply_ite SmallMem.mem]
    rfl
  have hout : ∀ x, x < spans before + c.span + 8 ∨ spans before + c.span + 12 ≤ x →
      (h.split (spans before) size).mem x = (h.insertHeader (spans before) size).mem x := by
    intro x hx
    rw [hmem]
    split_ifs
    · rfl
    · exact store_of_outside (by omega)
  have hkeep : ∀ x, x < spans before + 4 ∨ spans before + 8 ≤ x ∧ x < spans before + 12 + size →
      (h.split (spans before) size).mem x = h.mem x := fun x hx => by
    rw [hout x (by omega), hsame x (by omega)]
  refine ht.replace (split_memSizeAligned h _ size) ?_ ?_
    ⟨⟨?_, ?_, ?_, ?_, fun data hdata => ?_⟩, ?_, trivial⟩ ?_ fun x hx => ?_
  · simp only [spans_cons, spans_nil, Chunk.span]
    omega
  · simp only [List.forall_mem_cons]
    exact ⟨⟨haligned, hpos⟩, by omega, by simp⟩
  · rw [load_congr fun x hx hlt => hkeep x (by omega)]
    exact hc.magic
  · rw [load_congr fun x hx hlt => hkeep x (by omega), hc.used, Option.isSome_map]
  · rw [load_congr fun x hx hlt => hout x (by omega), hnext, Chunk.span, hheader, Nat.add_assoc]
  · rw [load_congr fun x hx hlt => hkeep x (by omega)]
    exact hc.prev
  · obtain ⟨old, hold, rfl⟩ := Option.mem_map.mp hdata
    obtain ⟨hle, hbytes⟩ := hc.data old hold
    have htake : (old.take size).length ≤ size := List.length_take_le size old
    refine ⟨htake, ?_⟩
    rw [bytes_congr fun x hx hlt => hkeep x (by omega), List.length_take,
      ← take_bytes _ _ (Nat.min_le_right size old.length), hbytes, ← List.take_eq_take_min]
  · rw [Chunk.span, hheader, ← Nat.add_assoc]
    refine ChunkAt.congr ?_ fun x hx hlt => hout x ?_
    · convert hnew using 2
      omega
    · rw [Chunk.span] at hlt
      simp only at hlt
      omega
  · intro hne
    have hmore := le_spans_of_ne_nil hne
    have hmore : spans before + c.span ≠ h.heapEnd := by omega
    rw [spans_singleton, hmem, if_neg hmore, load_store (by omega),
      show before ++ [⟨size, c.owner.map (List.take size)⟩, ⟨c.size - size - 12, none⟩] =
        before ++ [⟨size, c.owner.map (List.take size)⟩] ++ [⟨c.size - size - 12, none⟩] by simp,
      lastPlace_append, spans_append, spans_singleton, Nat.zero_add, Nat.add_assoc]
    rfl
  · rw [spans_singleton] at hx
    rw [hout x (by omega), hsame x (by omega)]

/-- Two chunks become one free chunk. -/
theorem Tiled.join (ht : Tiled h (before ++ [c, d] ++ behind))
    (hsize : h'.memSizeAligned = h.memSizeAligned)
    (hfree : c.owner = none)
    (hmem : h'.mem = store (store h.mem (spans before + 4) 4 (spans before + c.span + d.span))
      (spans before + c.span + d.span + 8) 4 (spans before)) :
    Tiled h' (before ++ [⟨c.size + d.span, none⟩] ++ behind) := by
  have hseg := ht.seg
  have hfills := ht.fills
  have hsmall := ht.small
  have hcspan : c.span = 12 + c.size := rfl
  have hdspan : d.span = 12 + d.size := rfl
  have hheader : sizeofStructMem = 12 := rfl
  have hc : ChunkAt h.mem (lastPlace 0 0 before) (spans before) c := by
    rw [List.append_assoc] at hseg
    exact hseg.chunkAt
  simp only [spans_append, spans_cons, spans_nil, Nat.add_zero] at hfills
  have hcsizes := ht.sizes c (by simp)
  have hdsizes := ht.sizes d (by simp)
  have hsame : ∀ x, x < spans before + 4 ∨ spans before + 8 ≤ x ∧
      (x < spans before + c.span + d.span + 8 ∨ spans before + c.span + d.span + 12 ≤ x) →
      h'.mem x = h.mem x := by
    intro x hx
    rw [hmem, store_of_outside (by omega), store_of_outside (by omega)]
  refine ht.replace hsize ?_ ?_ ⟨⟨?_, ?_, ?_, ?_, by simp⟩, trivial⟩ ?_ fun x hx => ?_
  · simp only [spans_cons, spans_nil, Chunk.span]
    omega
  · simp only [List.forall_mem_cons]
    exact ⟨by omega, by simp⟩
  · rw [load_congr fun x hx hlt => hsame x (by omega)]
    exact hc.magic
  · rw [load_congr fun x hx hlt => hsame x (by omega), hc.used, hfree]
  · rw [hmem, load_store_of_disjoint (by omega), load_store (by omega)]
    simp only [Chunk.span]
    omega
  · rw [load_congr fun x hx hlt => hsame x (by omega)]
    exact hc.prev
  · intro _
    rw [spans_cons, spans_singleton, ← Nat.add_assoc, hmem, load_store (by omega),
      lastPlace_append, Nat.zero_add]
  · rw [spans_cons, spans_singleton] at hx
    exact hsame x (by omega)

/-- What `plug_holes` may do to the heap. -/
structure Plugged (h h' : SmallMem) (chunks chunks' : List Chunk) : Prop where
  tiled : Tiled h' chunks'
  memSizeAligned : h'.memSizeAligned = h.memSizeAligned
  usedMem : h'.usedMem = h.usedMem
  owners : ownerAt 0 chunks' = ownerAt 0 chunks
  takens : takens chunks' = takens chunks
  bound : h.lfree ∈ boundaries 0 chunks → h'.lfree ∈ boundaries 0 chunks'
  first : h.lfree = firstFree 0 chunks → h'.lfree = firstFree 0 chunks'
  le : h'.lfree ≤ h.lfree

theorem Plugged.refl {chunks : List Chunk} (ht : Tiled h chunks) : Plugged h h chunks chunks :=
  ⟨ht, rfl, rfl, rfl, rfl, id, id, Nat.le_refl _⟩

theorem Plugged.trans {h'' : SmallMem} {cs ds es : List Chunk} (hcd : Plugged h h' cs ds)
    (hde : Plugged h' h'' ds es) : Plugged h h'' cs es :=
  ⟨hde.tiled, hde.memSizeAligned.trans hcd.memSizeAligned, hde.usedMem.trans hcd.usedMem,
    hde.owners.trans hcd.owners, hde.takens.trans hcd.takens, fun hb => hde.bound (hcd.bound hb),
    fun hf => hde.first (hcd.first hf), hde.le.trans hcd.le⟩

theorem firstFree_le {ptr : ℕ} (hc : c.owner = none) :
    firstFree ptr (before ++ c :: behind) ≤ ptr + spans before := by
  induction before generalizing ptr with
  | nil => rw [List.nil_append, firstFree, if_pos hc, spans_nil, Nat.add_zero]
  | cons d before ih =>
      rw [List.cons_append, firstFree, spans_cons, ← Nat.add_assoc]
      split_ifs
      · omega
      · exact ih

/-- The chunk behind another. -/
theorem Tiled.chunkAt_behind (ht : Tiled h (before ++ [c] ++ d :: behind)) :
    ChunkAt h.mem (spans before) (spans before + c.span) d := by
  have hd := ht.seg.chunkAt
  rwa [lastPlace_append, spans_append, spans_singleton, Nat.zero_add] at hd

/-- Two free chunks are combined, and `lfree` is the first of them if it was the second. -/
theorem Plugged.combine (ht : Tiled h (before ++ [c, d] ++ behind)) (hc : c.owner = none)
    (hd : d.owner = none) :
    Plugged h (h.combine (spans before) (spans before + c.span)) (before ++ [c, d] ++ behind)
      (before ++ [⟨c.size + d.span, none⟩] ++ behind) := by
  have hcspan : c.span = 12 + c.size := rfl
  generalize hh' : h.combine (spans before) (spans before + c.span) = h'
  have hnext : load h.mem (spans before + c.span + 4) 4 = spans before + c.span + d.span := by
    have hd' : Tiled h (before ++ [c] ++ d :: behind) := by simpa using ht
    exact hd'.chunkAt_behind.next
  obtain ⟨hsize, husedMem, hmem, hlfree⟩ : h'.memSizeAligned = h.memSizeAligned ∧
      h'.usedMem = h.usedMem ∧ h'.mem = store (store h.mem (spans before + 4) 4
        (spans before + c.span + d.span)) (spans before + c.span + d.span + 8) 4 (spans before) ∧
      h'.lfree = if h.lfree = spans before + c.span then spans before else h.lfree := by
    rw [← hh']
    by_cases hlfree : h.lfree = spans before + c.span
    · simp only [SmallMem.combine, if_pos hlfree, SmallMem.setNext, SmallMem.setPrev, SmallMem.next]
      rw [load_store_of_disjoint (by omega), hnext]
      simp
    · simp only [SmallMem.combine, if_neg hlfree, SmallMem.setNext, SmallMem.setPrev, SmallMem.next]
      rw [load_store_of_disjoint (by omega), hnext]
      simp
  have hspans : spans [⟨c.size + d.span, none⟩] = spans [c, d] := by
    simp only [spans_cons, spans_nil, Chunk.span]
    omega
  refine ⟨ht.join hsize hc hmem, hsize, husedMem, ?_, ?_, fun hb => ?_, fun hf => ?_, ?_⟩
  · funext p
    have hone : ownerAt (spans before) [⟨c.size + d.span, none⟩] p = none :=
      ownerAt_of_free (by simp)
    have htwo : ownerAt (spans before) [c, d] p = none := ownerAt_of_free (by simp [hc, hd])
    simp only [ownerAt_append, spans_append, Nat.zero_add, hone, htwo, hspans]
  · simp [Kernel.takens, hc, hd]
  · rw [hlfree]
    simp only [mem_boundaries_append, Nat.zero_add, spans_append, hspans] at hb ⊢
    split_ifs with hlast
    · exact Or.inl (Or.inr mem_boundaries_start)
    · refine hb.imp_left (Or.imp_right fun hcd => ?_)
      simp only [boundaries, List.mem_cons, List.not_mem_nil, or_false] at hcd ⊢
      rw [← spans_singleton ⟨c.size + d.span, none⟩, hspans, spans_cons, spans_singleton,
        ← Nat.add_assoc]
      exact hcd.imp_right fun hrest => hrest.resolve_left hlast
  · have hle : firstFree 0 (before ++ [c, d] ++ behind) ≤ spans before := by
      rw [List.append_assoc]
      exact (firstFree_le hc).trans_eq (Nat.zero_add _)
    rw [hlfree, if_neg (by omega), hf, List.append_assoc, List.append_assoc]
    exact firstFree_append_free hc rfl
  · rw [hlfree]
    split_ifs <;> omega

/-- No two chunks that lie together are free. -/
def Apart (chunks : List Chunk) : Prop :=
  chunks.IsChain fun c d => c.owner ≠ none ∨ d.owner ≠ none

theorem apart_split :
    Apart (before ++ [c] ++ behind) ↔ Apart (before ++ [c]) ∧ Apart (c :: behind) := by
  rw [List.append_assoc, List.singleton_append]
  exact List.isChain_split

/-- The last chunk is replaced by another, which is in use if it was. -/
theorem Apart.replace_last (happart : Apart (before ++ [d]))
    (himp : d.owner ≠ none → c.owner ≠ none) : Apart (before ++ [c]) := by
  obtain ⟨hbefore, -, hlast⟩ := List.isChain_append.mp happart
  refine hbefore.append (List.isChain_singleton c) ?_
  rintro b hb _ ⟨⟩
  exact (hlast b hb d rfl).imp_right himp

theorem Apart.replace_head (happart : Apart (d :: behind))
    (himp : d.owner ≠ none → c.owner ≠ none) : Apart (c :: behind) := by
  obtain ⟨hhead, hbehind⟩ := List.isChain_cons.mp happart
  exact List.isChain_cons.mpr ⟨fun e he => (hhead e he).imp_left himp, hbehind⟩

theorem ChunkAt.used_eq_zero_iff {mem : ℕ → UInt8} {prev ptr : ℕ} (hc : ChunkAt mem prev ptr c) :
    load mem (ptr + 2) 2 = 0 ↔ c.owner = none := by
  rw [hc.used]
  cases c.owner <;> simp

/-- `plug_holes` joins a free chunk with the one behind it. -/
theorem plugForward_plugged (ht : Tiled h (before ++ [c] ++ behind)) (hc : c.owner = none)
    (hbehind : Apart behind) :
    ∃ c' behind', c'.owner = none ∧ Apart (c' :: behind') ∧
      Plugged h (h.plugForward (spans before)) (before ++ [c] ++ behind)
        (before ++ [c'] ++ behind') := by
  obtain ⟨hcAt, hplace, hsmall, -⟩ := ht.chunkAt
  have hcspan : c.span = 12 + c.size := rfl
  have hnext : h.next (spans before) = spans before + c.span := hcAt.next
  cases behind with
  | nil =>
      -- the end of the heap is in use
      have hend : spans before + c.span = h.heapEnd := hplace
      refine ⟨c, [], hc, List.isChain_singleton c, ?_⟩
      rw [SmallMem.plugForward, hnext, if_neg fun hjoin => hjoin.2.2 hend]
      exact .refl ht
  | cons d behind =>
      have hdAt := ht.chunkAt_behind
      have hdused : h.used (spans before + c.span) = 0 ↔ d.owner = none := hdAt.used_eq_zero_iff
      by_cases hd : d.owner = none
      · have hdnext : h.next (spans before + c.span) = spans before + c.span + d.span := hdAt.next
        have hdspan : d.span = 12 + d.size := rfl
        rw [spans_cons] at hplace
        have hjoin : spans before ≠ spans before + c.span ∧ h.used (spans before + c.span) = 0 ∧
            spans before + c.span ≠ h.heapEnd := ⟨by omega, hdused.mpr hd, by omega⟩
        refine ⟨⟨c.size + d.span, none⟩, behind, rfl, ?_, ?_⟩
        · exact hbehind.replace_head (absurd hd)
        · rw [SmallMem.plugForward, hnext, if_pos hjoin]
          have hlist : before ++ [c] ++ d :: behind = before ++ [c, d] ++ behind := by simp
          rw [hlist] at ht ⊢
          exact .combine ht hc hd
      · refine ⟨c, d :: behind, hc, List.isChain_cons_cons.mpr ⟨Or.inr hd, hbehind⟩, ?_⟩
        rw [SmallMem.plugForward, hnext, if_neg fun hjoin => hd (hdused.mp hjoin.2.1)]
        exact .refl ht

/-- `plug_holes` joins a free chunk with the one before it. -/
theorem plugBackward_plugged (ht : Tiled h (before ++ [c] ++ behind)) (hc : c.owner = none)
    (hbefore : Apart before) (hbehind : Apart (c :: behind)) :
    ∃ chunks', Apart chunks' ∧
      Plugged h (h.plugBackward (spans before)) (before ++ [c] ++ behind) chunks' := by
  obtain ⟨hcAt, hplace, hsmall, -⟩ := ht.chunkAt
  have hprev : h.prev (spans before) = lastPlace 0 0 before := hcAt.prev
  rcases List.eq_nil_or_concat before with rfl | ⟨before, b, rfl⟩
  · refine ⟨[c] ++ behind, hbehind, ?_⟩
    rw [SmallMem.plugBackward, hprev, if_neg fun hjoin => hjoin.1 rfl]
    exact .refl ht
  · have hb : ChunkAt h.mem (lastPlace 0 0 before) (spans before) b := by
      have hseg : Seg h.mem 0 0 (before ++ b :: c :: behind) := by simpa using ht.seg
      exact hseg.chunkAt
    have hbused : h.used (spans before) = 0 ↔ b.owner = none := hb.used_eq_zero_iff
    have hbspan : b.span = 12 + b.size := rfl
    rw [List.concat_eq_append] at ht hbefore hprev ⊢
    rw [lastPlace_append, Nat.zero_add] at hprev
    rw [SmallMem.plugBackward, hprev, spans_append, spans_singleton]
    by_cases hfree : b.owner = none
    · have hlist : before ++ [b] ++ [c] ++ behind = before ++ [b, c] ++ behind := by simp
      rw [if_pos ⟨by omega, hbused.mpr hfree⟩, hlist]
      rw [hlist] at ht
      refine ⟨_, ?_, .combine ht hfree hc⟩
      exact apart_split.mpr ⟨hbefore.replace_last (absurd hfree), hbehind.replace_head (absurd hc)⟩
    · refine ⟨before ++ [b] ++ [c] ++ behind, ?_, ?_⟩
      · refine apart_split.mpr ⟨?_, hbehind⟩
        refine hbefore.append (List.isChain_singleton c) fun x hx y _ => Or.inl ?_
        rw [List.getLast?_concat, Option.mem_some] at hx
        exact hx ▸ hfree
      · rw [if_neg fun hjoin => hfree (hbused.mp hjoin.2)]
        exact .refl ht

/-- `plug_holes` leaves no two free chunks together. -/
theorem plugHoles_plugged (ht : Tiled h (before ++ [c] ++ behind)) (hc : c.owner = none)
    (hbefore : Apart before) (hbehind : Apart behind) :
    ∃ h' chunks', h.plugHoles (spans before) = some h' ∧ Apart chunks' ∧
      Plugged h h' (before ++ [c] ++ behind) chunks' := by
  obtain ⟨hcAt, hplace, -, hsizes⟩ := ht.chunkAt
  have hcspan : c.span = 12 + c.size := rfl
  obtain ⟨c', behind', hc', happart, hforward⟩ := plugForward_plugged ht hc hbehind
  obtain ⟨chunks', happart', hbackward⟩ :=
    plugBackward_plugged hforward.tiled hc' hbefore happart
  refine ⟨_, chunks', if_pos ⟨by omega, hcAt.used_eq_zero_iff.mpr hc⟩, happart', ?_⟩
  exact hforward.trans hbackward

end Steps

end Kernel
