import Esp32AtMqtt.Kernel.Blocks

/-!
# Blocks that change

The owner of a block writes to it, or has its size changed by `rt_realloc`. The bytes for which
there is room in the new block are those of the old one.
-/

namespace Kernel

open Words

variable {h h' : SmallMem} {chunks before behind : List Chunk} {c : Chunk} {data : List UInt8}

/-- Only the bytes of a block change. -/
theorem Tiled.write {n : ℕ} (ht : Tiled h (before ++ [c] ++ behind)) (howner : c.owner = some data)
    (hn : n ≤ c.size) (hsize : h'.memSizeAligned = h.memSizeAligned)
    (hsame : ∀ x, x < spans before + sizeofStructMem ∨ spans before + c.span ≤ x →
      h'.mem x = h.mem x) :
    Tiled h' (before ++ [⟨c.size, some (bytes h'.mem (spans before + sizeofStructMem) n)⟩] ++
      behind) := by
  obtain ⟨hcAt, -, -, -⟩ := ht.chunkAt
  have hcspan : c.span = 12 + c.size := rfl
  have hheader : sizeofStructMem = 12 := rfl
  refine ht.setOwner hsize ?_ ?_ ?_ fun x hx => hsame x (by omega)
  · rw [load_congr fun x hx hlt => hsame x (by omega)]
    exact hcAt.magic
  · rw [load_congr fun x hx hlt => hsame x (by omega), hcAt.used, howner]
    rfl
  · rintro _ ⟨⟩
    rw [length_bytes]
    exact ⟨hn, rfl⟩

/-- The owner of a block writes to it. -/
theorem HeapOk.write {n : ℕ} (hok : HeapOk h (before ++ [c] ++ behind))
    (howner : c.owner = some data) (hn : n ≤ c.size) (hrest : h' = { h with mem := h'.mem })
    (hsame : ∀ x, x < spans before + sizeofStructMem ∨ spans before + c.span ≤ x →
      h'.mem x = h.mem x) :
    ∃ chunks', HeapOk h' chunks' ∧
      ownerAt 0 chunks' = Function.update (ownerAt 0 (before ++ [c] ++ behind))
        (spans before + sizeofStructMem)
        (some (bytes h'.mem (spans before + sizeofStructMem) n)) ∧
      (h.lfree = firstFree 0 (before ++ [c] ++ behind) → h'.lfree = firstFree 0 chunks') := by
  have hlfree : h'.lfree = h.lfree := by rw [hrest]
  have hsize : h'.memSizeAligned = h.memSizeAligned := by rw [hrest]
  have husedMem : h'.usedMem = h.usedMem := by rw [hrest]
  generalize hdata : bytes h'.mem (spans before + sizeofStructMem) n = data'
  have htiled := hok.tiled.write howner hn hsize hsame
  rw [hdata] at htiled
  have hspans : spans [⟨c.size, some data'⟩] = c.span := spans_singleton _
  refine ⟨_, ⟨htiled, ?_, ?_, ?_, fun hall => ?_⟩,
    ownerAt_update hspans fun ptr => ownerAt_singleton ptr _, fun hf => ?_⟩
  · obtain ⟨hbefore, hbehind⟩ := apart_split.mp hok.apart
    have himp : c.owner ≠ none → (⟨c.size, some data'⟩ : Chunk).owner ≠ none :=
      fun _ => Option.some_ne_none data'
    exact apart_split.mpr ⟨hbefore.replace_last himp, hbehind.replace_head himp⟩
  · rw [hlfree]
    exact boundaries_subset hspans hok.bound
  · rw [husedMem, hok.counted]
    simp only [takens_append, takens_singleton, howner, reduceCtorEq, if_false]
    rfl
  · exact absurd (hall ⟨c.size, some data'⟩ (by simp)) (Option.some_ne_none data')
  · rw [hlfree, hf, List.append_assoc, List.append_assoc]
    rcases firstFree_cases 0 before with hused | ⟨hfirst, -⟩
    · rw [firstFree_append hused, firstFree_append hused, List.singleton_append,
        List.singleton_append, firstFree, firstFree, howner, if_neg (Option.some_ne_none data),
        if_neg (Option.some_ne_none data')]
      rfl
    · exact hfirst _ _

/-- Where a block is, and what is in it. -/
theorem Tiled.of_ownerAt {p : ℕ} (ht : Tiled h chunks) (howner : ownerAt 0 chunks p = some data) :
    p % 4 = 0 ∧ sizeofStructMem ≤ p ∧ p + data.length ≤ h.heapEnd ∧
      bytes h.mem p data.length = data := by
  obtain ⟨before, c, behind, rfl, rfl, hc⟩ := exists_of_ownerAt howner
  obtain ⟨hcAt, hplace, -, -⟩ := ht.chunkAt
  obtain ⟨hlength, hbytes⟩ := hcAt.data data hc
  have hmod : spans before % 4 = 0 := spans_mod fun b hb => ht.sizes b (by simp [hb])
  have hcspan : c.span = 12 + c.size := rfl
  have hheader : sizeofStructMem = 12 := rfl
  rw [Nat.zero_add]
  exact ⟨by omega, by omega, by omega, hbytes⟩

/-- A block ends before the header of the next one. -/
theorem Tiled.ends_of_lt {p q : ℕ} {data' : List UInt8} (ht : Tiled h chunks)
    (hp : ownerAt 0 chunks p = some data) (hq : ownerAt 0 chunks q = some data') (hlt : p < q) :
    p + data.length + sizeofStructMem ≤ q := by
  obtain ⟨before, c, behind, rfl, rfl, hc⟩ := exists_of_ownerAt hp
  have hlength := (ht.chunkAt.1.data data hc).1
  have hcspan : c.span = sizeofStructMem + c.size := rfl
  have hbefore : ownerAt 0 before q = none := ownerAt_eq_none (Or.inr (by omega))
  have hmiddle : ownerAt (spans before) [c] q = none := by
    rw [ownerAt_singleton, Function.update_of_ne (by omega)]
  rw [ownerAt_append, ownerAt_append, Nat.zero_add, hbefore, hmiddle, Option.none_or,
    Option.none_or, spans_append, spans_singleton] at hq
  obtain ⟨middle, d, last, -, rfl, -⟩ := exists_of_ownerAt hq
  omega

/-- `rt_realloc` splits a block. -/
theorem HeapOk.shrink {size n : ℕ} (hok : HeapOk h (before ++ [c] ++ behind))
    (howner : c.owner = some data) (haligned : size % 4 = 0) (hpos : 0 < size)
    (hsize : size + 24 < c.size) (hn : n ≤ size)
    (hcount : h' = { h with usedMem := sub32 h.usedMem (c.size - size) }) :
    ∃ h'' chunks', (h'.split (spans before) size).plugHoles
        (spans before + sizeofStructMem + size) = some h'' ∧
      h''.memSizeAligned = h.memSizeAligned ∧ HeapOk h'' chunks' ∧
      (bytes h''.mem (spans before + sizeofStructMem) n).take data.length = data.take n ∧
      ownerAt 0 chunks' = Function.update (ownerAt 0 (before ++ [c] ++ behind))
        (spans before + sizeofStructMem)
        (some (bytes h''.mem (spans before + sizeofStructMem) n)) := by
  have hcspan : c.span = 12 + c.size := rfl
  have hheader : sizeofStructMem = 12 := rfl
  obtain ⟨-, hplace, hsmall, -⟩ := hok.tiled.chunkAt
  obtain ⟨hbefore, hbehind⟩ := apart_split.mp hok.apart
  have htiled : Tiled h' (before ++ [c] ++ behind) := by
    rw [hcount]
    exact hok.tiled.congr rfl rfl
  have hsplit := htiled.split haligned hpos (by omega)
  rw [List.append_cons, List.append_assoc (before ++ _), howner] at hsplit
  have hwrite := hsplit.write rfl hn rfl fun _ _ => rfl
  have hkept := hsplit.chunkAt.1.data _ rfl
  generalize hdata : bytes (h'.split (spans before) size).mem (spans before + sizeofStructMem) n =
    data' at hwrite
  rw [← List.append_assoc] at hwrite
  have himp : c.owner ≠ none → (⟨size, some data'⟩ : Chunk).owner ≠ none :=
    fun _ => Option.some_ne_none data'
  obtain ⟨h'', chunks', hrun, happart, hplug⟩ := plugHoles_plugged hwrite rfl
    (hbefore.replace_last himp) (List.isChain_cons.mp hbehind).2
  have hsize' : (h'.split (spans before) size).memSizeAligned = h.memSizeAligned := by
    rw [split_memSizeAligned, hcount]
  have hspans : spans [⟨size, some data'⟩, ⟨c.size - size - 12, none⟩] = c.span := by
    simp only [spans_cons, spans_nil, Chunk.span]
    omega
  have hlist : before ++ [⟨size, some data'⟩] ++ [⟨c.size - size - 12, none⟩] ++ behind =
      before ++ [⟨size, some data'⟩, ⟨c.size - size - 12, none⟩] ++ behind := by simp
  have howners : ownerAt 0 chunks' = Function.update (ownerAt 0 (before ++ [c] ++ behind))
      (spans before + sizeofStructMem) (some data') := by
    rw [hplug.owners, hlist]
    refine ownerAt_update hspans fun ptr => ?_
    funext p
    rw [ownerAt, ownerAt_of_free (by simp), Option.or_none, Function.update_apply]
  have hat : ownerAt 0 chunks' (spans before + sizeofStructMem) = some data' := by
    rw [howners, Function.update_self]
  have hlength : data'.length = n := by rw [← hdata, length_bytes]
  have hdata'' := (hplug.tiled.of_ownerAt hat).2.2.2
  rw [hlength] at hdata''
  refine ⟨h'', chunks', ?_, hplug.memSizeAligned.trans hsize', .of_plugged hplug happart ?_ ?_ ?_,
    ?_, ?_⟩
  · rw [← hrun, spans_append, spans_singleton, Chunk.span, Nat.add_assoc]
  · rw [hlist, split_lfree, hcount]
    exact boundaries_subset hspans hok.bound
  · have hused := takens_le (before ++ [c] ++ behind)
    have hcounted := hok.counted
    simp only [takens_append, takens_singleton, howner, spans_append, spans_singleton,
      reduceCtorEq, if_false] at hused hcounted
    have husedMem : (h'.split (spans before) size).usedMem = sub32 h.usedMem (c.size - size) := by
      rw [split_usedMem, hcount]
    rw [husedMem, sub32_eq (by omega) (by omega)]
    simp only [takens_append, takens_singleton, reduceCtorEq, if_false, if_true, Chunk.span]
    omega
  · obtain ⟨_, d, _, rfl, -, hd⟩ := exists_of_ownerAt hat
    exact Or.inr ⟨d, by simp, by rw [hd]; exact Option.some_ne_none data'⟩
  · rw [hdata'', ← hdata]
    refine take_bytes_eq fun i hi hlt => ?_
    have hlong : i < (data.take size).length := by
      rw [List.length_take]
      omega
    rw [apply_of_bytes hkept.2 hlong, List.getElem_take]
  · rw [howners, hdata'']

/-- `rt_realloc` moves a block to a new one. -/
theorem HeapOk.move {p q n m : ℕ} {fresh : List UInt8} (hok : HeapOk h chunks)
    (hp : ownerAt 0 chunks p = some data) (hq : ownerAt 0 chunks q = some fresh) (hpq : p ≠ q)
    (hn : n ≤ fresh.length) (hdata : min data.length n ≤ m) (hm : m ≤ fresh.length) :
    ∃ h' chunks', (h.rtMemcpy q p m).rtFree (some p) = some h' ∧
      h'.memSizeAligned = h.memSizeAligned ∧ HeapOk h' chunks' ∧
      (bytes h'.mem q n).take data.length = data.take n ∧
      ownerAt 0 chunks' = Function.update (Function.update (ownerAt 0 chunks) p none) q
        (some (bytes h'.mem q n)) := by
  have hsource := (hok.tiled.of_ownerAt hp).2.2.2
  generalize hcopied : h.rtMemcpy q p m = copied
  have hmem : ∀ x, copied.mem x = if q ≤ x ∧ x < q + m then h.mem (p + (x - q)) else h.mem x := by
    rw [← hcopied]
    exact fun _ => rfl
  have hrest : copied = { h with mem := copied.mem } := by
    rw [← hcopied]
    rfl
  obtain ⟨chunks₁, hok₁, howners₁⟩ : ∃ chunks₁, HeapOk copied chunks₁ ∧
      ownerAt 0 chunks₁ = Function.update (ownerAt 0 chunks) q (some (bytes copied.mem q n)) := by
    obtain ⟨before, c, behind, rfl, rfl, hc⟩ := exists_of_ownerAt hq
    have hlength := (hok.tiled.chunkAt.1.data fresh hc).1
    have hcspan : c.span = sizeofStructMem + c.size := rfl
    rw [Nat.zero_add] at hmem ⊢
    obtain ⟨chunks₁, hok₁, howners₁, -⟩ :=
      hok.write hc (hn.trans hlength) hrest fun x hx => by rw [hmem, if_neg (by omega)]
    exact ⟨chunks₁, hok₁, howners₁⟩
  have hp₁ : ownerAt 0 chunks₁ p = some data := by rw [howners₁, Function.update_of_ne hpq, hp]
  obtain ⟨h', chunks', hrun, hsize, hok', howners⟩ : ∃ h' chunks',
      copied.rtFree (some p) = some h' ∧ h'.memSizeAligned = copied.memSizeAligned ∧
      HeapOk h' chunks' ∧ ownerAt 0 chunks' = Function.update (ownerAt 0 chunks₁) p none := by
    obtain ⟨before, c, behind, rfl, rfl, hc⟩ := exists_of_ownerAt hp₁
    obtain ⟨h', chunks', hrun, hsize, hok', howners, -⟩ := hok₁.rtFree hc
    rw [Nat.zero_add]
    exact ⟨h', chunks', hrun, hsize, hok', howners⟩
  have hq' : ownerAt 0 chunks' q = some (bytes copied.mem q n) := by
    rw [howners, Function.update_of_ne hpq.symm, howners₁, Function.update_self]
  have hbytes := (hok'.tiled.of_ownerAt hq').2.2.2
  rw [length_bytes] at hbytes
  refine ⟨h', chunks', hrun, hsize.trans (by rw [← hcopied]; rfl), hok', ?_, ?_⟩
  · rw [hbytes]
    refine take_bytes_eq fun i hi hlt => ?_
    rw [hmem, if_pos (by omega), Nat.add_sub_cancel_left, apply_of_bytes hsource hi]
  · rw [howners, howners₁, hbytes, Function.update_comm hpq.symm]

/-- `rt_realloc` gives a block of another size, with the bytes of the old one that have room in it,
or nothing and leaves the heap as it was. -/
theorem HeapOk.rtRealloc {p newsize : ℕ} (hok : HeapOk h chunks)
    (hp : ownerAt 0 chunks p = some data) (hpos : 0 < newsize) (hsize : newsize ≤ 2 ^ 32 - 4) :
    ∃ h' r, h.rtRealloc (some p) newsize = some (h', r) ∧ h'.memSizeAligned = h.memSizeAligned ∧
      (r = none → h' = h) ∧ ∀ q ∈ r, ∃ chunks', HeapOk h' chunks' ∧
        (q = p ∨ ownerAt 0 chunks q = none) ∧
        (bytes h'.mem q newsize).take data.length = data.take newsize ∧
        ownerAt 0 chunks' = Function.update (Function.update (ownerAt 0 chunks) p none) q
          (some (bytes h'.mem q newsize)) := by
  obtain ⟨hle, hmod, hlt⟩ := rtAlign_spec hsize
  have hheader : sizeofStructMem = 12 := rfl
  have hmin : minSizeAligned = 12 := rfl
  obtain ⟨before, c, behind, rfl, rfl, hc⟩ := exists_of_ownerAt hp
  rw [Nat.zero_add] at hp ⊢
  obtain ⟨hcAt, hplace, hsmall, hcsizes⟩ := hok.tiled.chunkAt
  obtain ⟨hlength, hbytes⟩ := hcAt.data data hc
  have hcspan : c.span = 12 + c.size := rfl
  have hend : h.heapEnd = h.memSizeAligned + 12 := rfl
  have hnext : h.next (spans before) = spans before + c.span := hcAt.next
  have hsizeC : sub32 (sub32 (h.next (spans before)) (spans before)) sizeofStructMem = c.size := by
    rw [hnext, sub32_add_left (by omega), Chunk.span, sub32_add_left (by omega)]
  rw [SmallMem.rtRealloc]
  by_cases hbig : h.memSizeAligned < rtAlign newsize
  · exact ⟨h, none, if_pos hbig, rfl, fun _ => rfl, by simp⟩
  simp only [if_neg hbig, if_neg (show rtAlign newsize ≠ 0 by omega),
    if_neg (show ¬ h.heapEnd ≤ spans before + sizeofStructMem by omega), Nat.add_sub_cancel, hsizeC]
  by_cases hsame : c.size = rtAlign newsize
  · -- the block stays, with `newsize` bytes for its owner
    obtain ⟨chunks', hok', howners, -⟩ :=
      hok.write hc (hle.trans_eq hsame.symm) (rfl : h = { h with mem := h.mem }) fun _ _ => rfl
    refine ⟨h, _, if_pos hsame, rfl, by simp, ?_⟩
    rintro q ⟨⟩
    refine ⟨chunks', hok', Or.inl rfl, take_bytes_eq fun i hi _ => apply_of_bytes hbytes hi, ?_⟩
    rw [howners, Function.update_idem]
  rw [if_neg hsame]
  by_cases hsplit : rtAlign newsize + sizeofStructMem + minSizeAligned < c.size
  · obtain ⟨h', chunks', hrun, hsize', hok', hkept, howners⟩ :=
      hok.shrink hc hmod (by omega) (by omega) hle rfl
    rw [if_pos hsplit, hrun]
    refine ⟨h', _, rfl, hsize', by simp, ?_⟩
    rintro q ⟨⟩
    exact ⟨chunks', hok', Or.inl rfl, hkept, by rw [howners, Function.update_idem]⟩
  · obtain ⟨h₁, r, hmalloc, hsize₁, -, hnone, hsome⟩ :=
      hok.rtMalloc (show 0 < rtAlign newsize by omega) (by omega)
    rw [if_neg hsplit, hmalloc]
    cases r with
    | none => exact ⟨h₁, none, rfl, hsize₁, hnone, by simp⟩
    | some q =>
        obtain ⟨chunks₁, hok₁, hfresh, howners₁, -⟩ := hsome q rfl
        have hpq : spans before + sizeofStructMem ≠ q := by
          rintro rfl
          rw [hp] at hfresh
          exact Option.some_ne_none data hfresh
        obtain ⟨h', chunks', hrun, hsize', hok', hkept, howners⟩ := hok₁.move
          (by rw [howners₁, Function.update_of_ne hpq, hp]) (by rw [howners₁, Function.update_self])
          hpq (hle.trans_eq (length_bytes _ _ _).symm) (m := min c.size (rtAlign newsize))
          (by omega)
          (by rw [length_bytes]; omega)
        rw [Option.bind_some]
        simp only [hrun, Option.map_some]
        refine ⟨h', _, rfl, hsize'.trans hsize₁, by simp, ?_⟩
        rintro q ⟨⟩
        refine ⟨chunks', hok', Or.inr hfresh, hkept, ?_⟩
        rw [howners, howners₁, Function.update_comm hpq.symm, Function.update_idem]

end Kernel
