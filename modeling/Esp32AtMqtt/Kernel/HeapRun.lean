import Esp32AtMqtt.Kernel.Realloc
import Esp32AtMqtt.Transition.Run

/-!
# The heap over whole runs

Parts of the program take blocks, write to them, change their size and give them back. `blocks`
says what each of them has in its block, by what it did itself. That nobody else changes it, and
that no assertion of `src/mem.c` fails and no loop runs on, is shown for every run.

A size near `2 ^ 32` is rounded up to 0 by `RT_ALIGN`, and a block of 12 bytes is the answer. Such
sizes are left out by `Sized`.
-/

namespace Kernel

open Words Transition

/-- The heap, and what the owner of each block has in it. -/
structure HeapSystem where
  heap : SmallMem
  blocks : ℕ → Option (List UInt8)

/-- What is done with the heap. -/
inductive HeapAction
  | malloc (size : ℕ)
  | calloc (count size : ℕ)
  | realloc (p newsize : ℕ)
  | free (p : ℕ)
  | write (p i : ℕ) (value : UInt8)

/-- An address is returned, and `data` is what its owner has there. -/
def HeapSystem.given (s : HeapSystem) (h : SmallMem) (data : ℕ → List UInt8) : Option ℕ → HeapSystem
  | none => ⟨h, s.blocks⟩
  | some p => ⟨h, Function.update s.blocks p (some (data p))⟩

/-- One action. Nothing is done to a block that nobody has. -/
def heapStep (s : HeapSystem) : HeapAction → Option HeapSystem
  | .malloc size =>
      (s.heap.rtMalloc size).map fun r => s.given r.1 (fun p => bytes r.1.mem p size) r.2
  | .calloc count size =>
      (s.heap.rtCalloc count size).map fun r =>
        s.given r.1 (fun _ => List.replicate (count * size) 0) r.2
  | .realloc p newsize =>
      match s.blocks p with
      | none => some s
      | some data =>
          (s.heap.rtRealloc (some p) newsize).map fun r =>
            if newsize = 0 then ⟨r.1, Function.update s.blocks p none⟩
            else
              match r.2 with
              | none => ⟨r.1, s.blocks⟩
              | some q => ⟨r.1, Function.update (Function.update s.blocks p none) q
                  (some (data.take newsize ++
                    bytes r.1.mem (q + data.length) (newsize - data.length)))⟩
  | .free p =>
      match s.blocks p with
      | none => some s
      | some _ => (s.heap.rtFree (some p)).map fun h => ⟨h, Function.update s.blocks p none⟩
  | .write p i value =>
      match s.blocks p with
      | none => some s
      | some data =>
          if i < data.length then
            some ⟨{ s.heap with mem := Function.update s.heap.mem (p + i) value },
              Function.update s.blocks p (some (data.set i value))⟩
          else some s

/-- The block may get another size. -/
def HeapAction.isRealloc : HeapAction → Bool
  | .realloc _ _ => true
  | _ => false

/-- The sizes that can be rounded up. -/
def Sized (_ : HeapSystem) : HeapAction → Prop
  | .malloc size => size ≤ 2 ^ 32 - 4
  | .calloc count size => count * size ≤ 2 ^ 32 - 4
  | .realloc _ newsize => newsize ≤ 2 ^ 32 - 4
  | .free _ => True
  | .write _ _ _ => True

instance (s : HeapSystem) (a : HeapAction) : Decidable (Sized s a) :=
  match a with
  | .malloc size => inferInstanceAs (Decidable (size ≤ 2 ^ 32 - 4))
  | .calloc count size => inferInstanceAs (Decidable (count * size ≤ 2 ^ 32 - 4))
  | .realloc _ newsize => inferInstanceAs (Decidable (newsize ≤ 2 ^ 32 - 4))
  | .free _ => isTrue trivial
  | .write _ _ _ => isTrue trivial

/-- The chunks hold what the owners have in their blocks. -/
structure Owned (s : HeapSystem) (chunks : List Chunk) : Prop where
  ok : HeapOk s.heap chunks
  blocks : s.blocks = ownerAt 0 chunks

section Steps

variable {s : HeapSystem} {chunks : List Chunk}

/-- A step has a result, with which the owners agree. `lfree` stays where it should be if `first`
says so. -/
def Steps (s : HeapSystem) (chunks : List Chunk) (a : HeapAction) (first : Prop) : Prop :=
  ∃ s' chunks', heapStep s a = some s' ∧ Owned s' chunks' ∧
    s'.heap.memSizeAligned = s.heap.memSizeAligned ∧
    (first → s.heap.lfree = firstFree 0 chunks → s'.heap.lfree = firstFree 0 chunks')

theorem Owned.malloc (h : Owned s chunks) {size : ℕ} (hsize : size ≤ 2 ^ 32 - 4) :
    Steps s chunks (.malloc size) True := by
  rcases Nat.eq_zero_or_pos size with rfl | hpos
  · exact ⟨s, chunks, rfl, h, rfl, fun _ => id⟩
  · obtain ⟨h', r, hrun, hsame, -, hnone, hsome⟩ := h.ok.rtMalloc hpos hsize
    rw [Steps, heapStep, hrun]
    cases r with
    | none =>
        obtain rfl := hnone rfl
        exact ⟨s, chunks, rfl, h, rfl, fun _ => id⟩
    | some p =>
        obtain ⟨chunks', hok, -, howners, hfirst⟩ := hsome p rfl
        refine ⟨_, chunks', rfl, ⟨hok, ?_⟩, hsame, fun _ => hfirst⟩
        rw [howners, ← h.blocks]
        rfl

/-- A block is given back. -/
theorem Owned.rtFree (h : Owned s chunks) {p : ℕ} {data : List UInt8}
    (hp : s.blocks p = some data) :
    ∃ h' chunks', s.heap.rtFree (some p) = some h' ∧
      Owned ⟨h', Function.update s.blocks p none⟩ chunks' ∧
      h'.memSizeAligned = s.heap.memSizeAligned ∧
      (s.heap.lfree = firstFree 0 chunks → h'.lfree = firstFree 0 chunks') := by
  rw [h.blocks] at hp
  obtain ⟨before, c, behind, rfl, rfl, hc⟩ := exists_of_ownerAt hp
  rw [Nat.zero_add] at hp ⊢
  obtain ⟨h', chunks', hrun, hsame, hok, howners, hfirst⟩ := h.ok.rtFree hc
  exact ⟨h', chunks', hrun, ⟨hok, by rw [howners, ← h.blocks]⟩, hsame, hfirst⟩

theorem Owned.free (h : Owned s chunks) (p : ℕ) : Steps s chunks (.free p) True := by
  rw [Steps, heapStep]
  cases hp : s.blocks p with
  | none => exact ⟨s, chunks, rfl, h, rfl, fun _ => id⟩
  | some data =>
      obtain ⟨h', chunks', hrun, howned, hsame, hfirst⟩ := h.rtFree hp
      exact ⟨_, chunks', by rw [hrun]; rfl, howned, hsame, fun _ => hfirst⟩

theorem Owned.realloc (h : Owned s chunks) (p : ℕ) {newsize : ℕ} (hsize : newsize ≤ 2 ^ 32 - 4) :
    Steps s chunks (.realloc p newsize) False := by
  rw [Steps, heapStep]
  cases hp : s.blocks p with
  | none => exact ⟨s, chunks, rfl, h, rfl, fun _ => id⟩
  | some data =>
      rcases Nat.eq_zero_or_pos newsize with rfl | hpos
      · obtain ⟨h', chunks', hrun, howned, hsame, -⟩ := h.rtFree hp
        have hzero : s.heap.rtRealloc (some p) 0 = some (h', none) := by
          have halign : rtAlign 0 = 0 := rfl
          rw [SmallMem.rtRealloc, halign, if_neg (Nat.not_lt_zero _), if_pos rfl, hrun]
          rfl
        exact ⟨_, chunks', by rw [hzero]; rfl, howned, hsame, False.elim⟩
      · obtain ⟨h', r, hrun, hsame, hnone, hsome⟩ :=
          h.ok.rtRealloc (by rw [← h.blocks, hp]) hpos hsize
        have hne : newsize ≠ 0 := Nat.ne_of_gt hpos
        simp only [hrun, Option.map_some, if_neg hne]
        cases r with
        | none =>
            obtain rfl := hnone rfl
            exact ⟨s, chunks, rfl, h, rfl, False.elim⟩
        | some q =>
            obtain ⟨chunks', hok, -, hkept, howners⟩ := hsome q rfl
            refine ⟨_, chunks', rfl, ⟨hok, ?_⟩, hsame, False.elim⟩
            rw [howners, h.blocks, bytes_eq_append hkept]

theorem Owned.calloc (h : Owned s chunks) {count size : ℕ} (hsize : count * size ≤ 2 ^ 32 - 4) :
    Steps s chunks (.calloc count size) True := by
  have htotal : count * size % 2 ^ 32 = count * size := Nat.mod_eq_of_lt (by omega)
  rw [Steps, heapStep, SmallMem.rtCalloc, htotal]
  rcases Nat.eq_zero_or_pos (count * size) with hzero | hpos
  · rw [hzero]
    exact ⟨s, chunks, rfl, h, rfl, fun _ => id⟩
  obtain ⟨h', r, hrun, hsame, -, hnone, hsome⟩ := h.ok.rtMalloc hpos hsize
  rw [hrun]
  cases r with
  | none =>
      obtain rfl := hnone rfl
      exact ⟨s, chunks, rfl, h, rfl, fun _ => id⟩
  | some p =>
      obtain ⟨chunks', hok, -, howners, hfirst⟩ := hsome p rfl
      have hp : ownerAt 0 chunks' p = some (bytes h'.mem p (count * size)) := by
        rw [howners, Function.update_self]
      obtain ⟨before, c, behind, rfl, rfl, hc⟩ := exists_of_ownerAt hp
      have hlength := (hok.tiled.chunkAt.1.data _ hc).1
      have hcspan : c.span = sizeofStructMem + c.size := rfl
      rw [length_bytes] at hlength
      rw [Nat.zero_add] at howners ⊢
      generalize hmem : (fun x => if spans before + sizeofStructMem ≤ x ∧
        x < spans before + sizeofStructMem + count * size then 0 else h'.mem x) = mem
      obtain ⟨chunks'', hok'', howners'', hfirst''⟩ :=
        hok.write hc hlength (rfl : { h' with mem := mem } = { h' with mem := mem }) fun x hx => by
          rw [← hmem]
          exact if_neg (by omega)
      have hzeros : bytes mem (spans before + sizeofStructMem) (count * size) =
          List.replicate (count * size) 0 := by
        apply List.ext_getElem
        · simp
        · intro i hi hi'
          rw [length_bytes] at hi
          simp [bytes, ← hmem, hi]
      refine ⟨_, chunks'', rfl, ⟨?_, ?_⟩, hsame, fun _ hf => ?_⟩
      · simp only [hmem]
        exact hok''
      · rw [howners'', howners, hzeros, Function.update_idem, ← h.blocks]
        rfl
      · exact hfirst'' (hfirst hf)

theorem Owned.write (h : Owned s chunks) (p i : ℕ) (value : UInt8) :
    Steps s chunks (.write p i value) True := by
  rw [Steps, heapStep]
  cases hp : s.blocks p with
  | none => exact ⟨s, chunks, rfl, h, rfl, fun _ => id⟩
  | some data =>
      by_cases hi : i < data.length
      · rw [h.blocks] at hp
        obtain ⟨before, c, behind, rfl, rfl, hc⟩ := exists_of_ownerAt hp
        obtain ⟨hlength, hbytes⟩ := h.ok.tiled.chunkAt.1.data data hc
        have hcspan : c.span = sizeofStructMem + c.size := rfl
        rw [Nat.zero_add] at hp ⊢
        generalize hmem : Function.update s.heap.mem (spans before + sizeofStructMem + i) value =
          mem
        obtain ⟨chunks', hok, howners, hfirst⟩ :=
          h.ok.write hc hlength (rfl : { s.heap with mem := mem } = { s.heap with mem := mem })
            fun x hx => by
              rw [← hmem]
              exact Function.update_of_ne (by omega) _ _
        refine ⟨_, chunks', if_pos hi, ⟨hok, ?_⟩, rfl, fun _ => hfirst⟩
        rw [howners, ← h.blocks, ← hmem]
        simp only [bytes_update, hbytes]
      · exact ⟨s, chunks, if_neg hi, h, rfl, fun _ => id⟩

end Steps

/-- The heap begins with one free chunk. -/
theorem rtSystemHeapInit_ok {mem : ℕ → UInt8} {beginAddr endAddr : UInt32} {h : SmallMem}
    (hinit : rtSystemHeapInit mem beginAddr endAddr = some h)
    (hlarge : minSizeAligned ≤ h.memSizeAligned) :
    HeapOk h [⟨h.memSizeAligned, none⟩] ∧ h.lfree = 0 := by
  have hmagic : heapMagic < 256 ^ 2 := by decide
  have hheader : sizeofStructMem = 12 := rfl
  have hmin : minSizeAligned = 12 := rfl
  have hbegin : rtAlign beginAddr.toNat % 4 = 0 := by
    rw [rtAlign]
    omega
  have hend := endAddr.toNat_lt
  rw [rtSystemHeapInit] at hinit
  split_ifs at hinit with hroom
  generalize hsize : endAddr.toNat / 4 * 4 - rtAlign beginAddr.toNat - 2 * sizeofStructMem =
    size at hinit
  have hh := Option.some.inj hinit
  have hmod : size % 4 = 0 := by omega
  have hsmall : size + 24 < 2 ^ 32 := by omega
  have hsizeAligned : h.memSizeAligned = size := by
    rw [← hh]
    rfl
  have hlfree : h.lfree = 0 := by
    rw [← hh]
    rfl
  have husedMem : h.usedMem = 0 := by
    rw [← hh]
    rfl
  have hmem : h.mem = store (store (store (store (store (store (store (store mem 0 2 heapMagic)
      4 4 (size + 12)) 8 4 0) 2 2 0) (size + 12) 2 heapMagic) (size + 14) 2 1) (size + 16) 4
      (size + 12)) (size + 20) 4 (size + 12) := by
    rw [← hh]
    rfl
  rw [hsizeAligned] at hlarge ⊢
  have hend' : h.heapEnd = size + 12 := congrArg (· + 12) hsizeAligned
  refine ⟨⟨⟨⟨⟨?_, ?_, ?_, ?_, by simp⟩, trivial⟩, ?_, ?_, ?_, ?_, ?_, ?_⟩,
    List.isChain_singleton _, ?_, husedMem, fun _ => hlfree⟩, hlfree⟩
  · rw [hmem]
    simp (disch := omega) only [load_store_of_disjoint, load_store]
  · rw [hmem]
    simp (disch := omega) only [load_store_of_disjoint, load_store]
    rfl
  · rw [hmem]
    simp (disch := omega) only [load_store_of_disjoint, load_store, Chunk.span]
    omega
  · rw [hmem]
    simp (disch := omega) only [load_store_of_disjoint, load_store]
  · rw [spans_singleton, Chunk.span, hend', Nat.add_comm]
    rfl
  · rw [hmem, hend']
    simp (disch := omega) only [load_store_of_disjoint, load_store]
  · simp only [List.forall_mem_singleton]
    omega
  · rwa [hsizeAligned]
  · rwa [hsizeAligned]
  · omega
  · rw [hlfree]
    exact mem_boundaries_start

/-- One step from a heap that is in order. -/
theorem Owned.step {s : HeapSystem} {chunks : List Chunk} (h : Owned s chunks) {a : HeapAction}
    (ha : Sized s a) : Steps s chunks a (a.isRealloc = false) := by
  cases a with
  | malloc size =>
      obtain ⟨s', chunks', hstep, howned, hsame, hfirst⟩ := h.malloc ha
      exact ⟨s', chunks', hstep, howned, hsame, fun _ => hfirst trivial⟩
  | calloc count size =>
      obtain ⟨s', chunks', hstep, howned, hsame, hfirst⟩ := h.calloc ha
      exact ⟨s', chunks', hstep, howned, hsame, fun _ => hfirst trivial⟩
  | realloc p newsize =>
      obtain ⟨s', chunks', hstep, howned, hsame, -⟩ := h.realloc p ha
      exact ⟨s', chunks', hstep, howned, hsame, fun hno => Bool.noConfusion hno⟩
  | free p =>
      obtain ⟨s', chunks', hstep, howned, hsame, hfirst⟩ := h.free p
      exact ⟨s', chunks', hstep, howned, hsame, fun _ => hfirst trivial⟩
  | write p i value =>
      obtain ⟨s', chunks', hstep, howned, hsame, hfirst⟩ := h.write p i value
      exact ⟨s', chunks', hstep, howned, hsame, fun _ => hfirst trivial⟩

/-- The heap after `rt_system_heap_init`, with no blocks. -/
def HeapSystem.start (h : SmallMem) : HeapSystem := ⟨h, fun _ => none⟩

section Runs

variable {mem : ℕ → UInt8} {beginAddr endAddr : UInt32} {h : SmallMem} {as : List HeapAction}
  {s : HeapSystem}

theorem start_owned (hinit : rtSystemHeapInit mem beginAddr endAddr = some h)
    (hlarge : minSizeAligned ≤ h.memSizeAligned) :
    Owned (.start h) [⟨h.memSizeAligned, none⟩] :=
  ⟨(rtSystemHeapInit_ok hinit hlarge).1, funext fun _ => (ownerAt_of_free (by simp)).symm⟩

theorem Run.owned (hinit : rtSystemHeapInit mem beginAddr endAddr = some h)
    (hlarge : minSizeAligned ≤ h.memSizeAligned) (hrun : Run heapStep Sized (.start h) as s) :
    ∃ chunks, Owned s chunks := by
  refine Run.invariant (fun s => ∃ chunks, Owned s chunks) ?_ ⟨_, start_owned hinit hlarge⟩ hrun
  rintro s a t ⟨chunks, howned⟩ ha hstep
  obtain ⟨s', chunks', hstep', howned', -⟩ := howned.step ha
  rw [hstep'] at hstep
  exact ⟨chunks', Option.some.inj hstep ▸ howned'⟩

/-- In every run the blocks are inside the heap and apart from each other, and each has what its
owner put into it: no operation on another block, and no header, is ever written over it. -/
theorem heap_keepsBlocks (hinit : rtSystemHeapInit mem beginAddr endAddr = some h)
    (hlarge : minSizeAligned ≤ h.memSizeAligned) (hrun : Run heapStep Sized (.start h) as s)
    {p : ℕ} {data : List UInt8} (hp : s.blocks p = some data) :
    p % 4 = 0 ∧ sizeofStructMem ≤ p ∧ p + data.length ≤ s.heap.heapEnd ∧
      bytes s.heap.mem p data.length = data ∧
      ∀ q data', s.blocks q = some data' → q ≠ p →
        p + data.length + sizeofStructMem ≤ q ∨ q + data'.length + sizeofStructMem ≤ p := by
  obtain ⟨chunks, hok, hblocks⟩ := Run.owned hinit hlarge hrun
  rw [hblocks] at hp ⊢
  obtain ⟨hmod, hle, hend, hbytes⟩ := hok.tiled.of_ownerAt hp
  refine ⟨hmod, hle, hend, hbytes, fun q data' hq hne => ?_⟩
  rcases Nat.lt_or_gt_of_ne hne with hlt | hlt
  · exact Or.inr (hok.tiled.ends_of_lt hq hp hlt)
  · exact Or.inl (hok.tiled.ends_of_lt hp hq hlt)

/-- A replay from an initialized heap is a run. -/
theorem exists_run (mem : ℕ → UInt8) (beginAddr endAddr : UInt32)
    (ok : HeapSystem → HeapAction → Prop) [∀ s a, Decidable (ok s a)] (as : List HeapAction)
    (p : HeapSystem → Bool) (hp : ((rtSystemHeapInit mem beginAddr endAddr).bind fun h =>
      if minSizeAligned ≤ h.memSizeAligned then (exec heapStep ok (.start h) as).map p
      else none) = some true) :
    ∃ h s, rtSystemHeapInit mem beginAddr endAddr = some h ∧ minSizeAligned ≤ h.memSizeAligned ∧
      Run heapStep ok (.start h) as s ∧ p s = true := by
  obtain ⟨h, hinit, hexec⟩ := Option.bind_eq_some_iff.mp hp
  split_ifs at hexec with hlarge
  obtain ⟨s, hrun, hs⟩ := Run.exists_of_exec heapStep ok (.start h) as p hexec
  exact ⟨h, s, hinit, hlarge, hrun, hs⟩

/-- A block is written, others come and go, and it is made smaller. -/
theorem heap_keepsBlocks_smaller :
    ∃ h s, rtSystemHeapInit (fun _ => 0) 0 128 = some h ∧
      Run heapStep Sized (.start h) [.malloc 4, .malloc 40, .write 36 0 7, .calloc 2 9, .free 12,
        .realloc 36 2] s ∧ bytes s.heap.mem 36 2 = [7, 0] := by
  obtain ⟨h, s, hinit, hlarge, hrun, hs⟩ := exists_run (fun _ => 0) 0 128 Sized
    [.malloc 4, .malloc 40, .write 36 0 7, .calloc 2 9, .free 12, .realloc 36 2]
    (fun s => decide (s.blocks 36 = some [7, 0])) (by decide +kernel)
  have hp := of_decide_eq_true hs
  exact ⟨h, s, hinit, hrun, (heap_keepsBlocks hinit hlarge hrun hp).2.2.2.1⟩

/-- In every run the heap stays in order: the chunks fill it, no two free ones lie together,
`used_mem` is right, and the next operation ends without a failed assertion. When all blocks were
given back the heap is one free chunk again. -/
theorem heap_inOrder (hinit : rtSystemHeapInit mem beginAddr endAddr = some h)
    (hlarge : minSizeAligned ≤ h.memSizeAligned) (hrun : Run heapStep Sized (.start h) as s) :
    ∃ chunks, HeapOk s.heap chunks ∧ s.blocks = ownerAt 0 chunks ∧
      (∀ a, Sized s a → (heapStep s a).isSome) ∧
      ((∀ p, s.blocks p = none) → chunks = [⟨s.heap.memSizeAligned, none⟩] ∧ s.heap.lfree = 0 ∧
        s.heap.usedMem = 0) := by
  obtain ⟨chunks, howned⟩ := Run.owned hinit hlarge hrun
  refine ⟨chunks, howned.ok, howned.blocks, fun a ha => ?_, fun hnone => ?_⟩
  · obtain ⟨s', -, hstep, -⟩ := howned.step ha
    rw [hstep]
    rfl
  · have hfree : ∀ c ∈ chunks, c.owner = none := by
      intro c hc
      obtain ⟨before, behind, rfl⟩ := List.mem_iff_append.mp hc
      have hplace := hnone (spans before + sizeofStructMem)
      rw [howned.blocks, List.append_cons, ownerAt_place] at hplace
      exact hplace
    have hfills := howned.ok.tiled.fills
    have hcounted := howned.ok.counted
    refine ⟨?_, howned.ok.start hfree, ?_⟩
    · cases chunks with
      | nil => exact absurd hfills (Nat.ne_of_lt (Nat.succ_pos _))
      | cons c cs =>
          obtain rfl := howned.ok.apart.eq_singleton hfree
          have hend : s.heap.heapEnd = s.heap.memSizeAligned + sizeofStructMem := rfl
          have hc := hfree c List.mem_cons_self
          obtain ⟨size, owner⟩ := c
          rw [spans_singleton, Chunk.span, hend, Nat.add_comm] at hfills
          have hsize : size = s.heap.memSizeAligned := Nat.add_right_cancel hfills
          rw [hsize, show owner = none from hc]
    · rw [hcounted]
      exact List.sum_eq_zero fun n hn => by
        obtain ⟨c, hc, rfl⟩ := List.mem_map.mp hn
        exact if_pos (hfree c hc)

/-- All blocks are given back. -/
theorem heap_inOrder_freed :
    ∃ h s, rtSystemHeapInit (fun _ => 0) 0 128 = some h ∧
      Run heapStep Sized (.start h) [.malloc 4, .malloc 40, .free 12, .realloc 36 8, .free 36] s ∧
      ∃ chunks, HeapOk s.heap chunks ∧ s.blocks = ownerAt 0 chunks ∧
        (∀ a, Sized s a → (heapStep s a).isSome) ∧
        ((∀ p, s.blocks p = none) → chunks = [⟨s.heap.memSizeAligned, none⟩] ∧ s.heap.lfree = 0 ∧
          s.heap.usedMem = 0) := by
  obtain ⟨h, s, hinit, hlarge, hrun, -⟩ := exists_run (fun _ => 0) 0 128 Sized
    [.malloc 4, .malloc 40, .free 12, .realloc 36 8, .free 36]
    (fun s => decide (s.heap.lfree = 0)) (by decide +kernel)
  exact ⟨h, s, hinit, hrun, heap_inOrder hinit hlarge hrun⟩

/-- Without `rt_realloc`, `rt_malloc` takes the first chunk that is large enough and begins below a
bound, and returns nothing only if there is none. -/
theorem malloc_firstFit (hinit : rtSystemHeapInit mem beginAddr endAddr = some h)
    (hlarge : minSizeAligned ≤ h.memSizeAligned)
    (hrun : Run heapStep (fun s a => Sized s a ∧ a.isRealloc = false) (.start h) as s) :
    ∃ chunks, HeapOk s.heap chunks ∧ s.blocks = ownerAt 0 chunks ∧
      ∀ size, 0 < size → size ≤ 2 ^ 32 - 4 → ∃ h' r, s.heap.rtMalloc size = some (h', r) ∧
        r = (findFit (s.heap.memSizeAligned - blockSize size) (blockSize size) 0 chunks).map
          (· + sizeofStructMem) ∧
        (r = none ↔ ∀ before c behind, chunks = before ++ c :: behind → c.owner = none →
          spans before < s.heap.memSizeAligned - blockSize size → c.size < blockSize size) := by
  have hkept : ∃ chunks, Owned s chunks ∧ s.heap.lfree = firstFree 0 chunks := by
    refine Run.invariant (fun s => ∃ chunks, Owned s chunks ∧ s.heap.lfree = firstFree 0 chunks) ?_
      ⟨_, start_owned hinit hlarge, (rtSystemHeapInit_ok hinit hlarge).2⟩ hrun
    rintro s a t ⟨chunks, howned, hfirst⟩ ⟨ha, hno⟩ hstep
    obtain ⟨s', chunks', hstep', howned', -, hfirst'⟩ := howned.step ha
    rw [hstep'] at hstep
    obtain rfl := Option.some.inj hstep
    exact ⟨chunks', howned', hfirst' hno hfirst⟩
  obtain ⟨chunks, howned, hfirst⟩ := hkept
  refine ⟨chunks, howned.ok, howned.blocks, fun size hpos hsize => ?_⟩
  obtain ⟨h', r, hrun', -, hr, -⟩ := howned.ok.rtMalloc hpos hsize
  refine ⟨h', r, hrun', hr hfirst, ?_⟩
  rw [hr hfirst, Option.map_eq_none_iff, findFit_eq_none_iff]
  simp only [Nat.zero_add]

/-- The first of two free chunks is taken. -/
theorem malloc_firstFit_two :
    ∃ h s, rtSystemHeapInit (fun _ => 0) 0 128 = some h ∧
      Run heapStep (fun s a => Sized s a ∧ a.isRealloc = false) (.start h)
        [.malloc 16, .malloc 12, .free 12] s ∧
      (s.heap.rtMalloc 13).map Prod.snd = some (some 12) ∧
      ∃ chunks, HeapOk s.heap chunks ∧
        findFit (s.heap.memSizeAligned - 16) 16 0 chunks = some 0 := by
  obtain ⟨h, s, hinit, hlarge, hrun, hs⟩ := exists_run (fun _ => 0) 0 128
    (fun s a => Sized s a ∧ a.isRealloc = false) [.malloc 16, .malloc 12, .free 12]
    (fun s => decide ((s.heap.rtMalloc 13).map Prod.snd = some (some 12))) (by decide +kernel)
  have hgot := of_decide_eq_true hs
  obtain ⟨chunks, hok, -, hfit⟩ := malloc_firstFit hinit hlarge hrun
  obtain ⟨h', r, hmalloc, hr, -⟩ := hfit 13 (by decide) (by decide)
  refine ⟨h, s, hinit, hrun, hgot, chunks, hok, ?_⟩
  rw [hmalloc, Option.map_some, Option.some_inj] at hgot
  obtain ⟨p, hp, hplace⟩ := Option.map_eq_some_iff.mp (hr.symm.trans hgot)
  have hzero : p = 0 := Nat.add_right_cancel (hplace.trans (Nat.zero_add sizeofStructMem).symm)
  exact hzero ▸ hp

end Runs

end Kernel
