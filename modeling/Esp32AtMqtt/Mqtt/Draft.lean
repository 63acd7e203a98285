import Esp32AtMqtt.Mqtt.Pack

/-!
# Extents that are being filled

A packer allocates extents and writes to them before it puts them into the list. `Drafted`
says what holds in between: each of these extents has the bytes written to it so far, they
share no byte with each other nor with the free part of the chunk, and a list of regions,
such as those of the extents in the list and of the data of the caller, is as it was.

What `malloc` promises for the coming allocations, of known sizes, is `AllocsOk`. The
allocations and writes of a packer keep `Drafted` (`withExtent_drafted`, `Drafted.write`).
-/

namespace Mqtt

open FlatMemory Base128

section Independent

variable (buf : MqttBuffer) (es : List MqttExtent) (count : UInt32) (h : MqttHeap)
  (mem : UInt32 → UInt8)

theorem mqttBufferGrow_with :
    mqttBufferGrow { buf with extents := es, bufferedBytes := count } { h with mem := mem } =
      let r := mqttBufferGrow buf h
      (r.1, { r.2.1 with extents := es, bufferedBytes := count }, { r.2.2 with mem := mem }) := by
  simp only [mqttBufferGrow, MqttHeap.malloc]
  split_ifs
  · cases h.mallocs.head?.join with
    | none => rfl
    | some tmp => rfl
  · rfl

theorem mqttBufferAddChunk_with (n : UInt32) :
    mqttBufferAddChunk { buf with extents := es, bufferedBytes := count } n
        { h with mem := mem } =
      let r := mqttBufferAddChunk buf n h
      (r.1, { r.2.1 with extents := es, bufferedBytes := count }, { r.2.2 with mem := mem }) := by
  rw [mqttBufferAddChunk, mqttBufferGrow_with, mqttBufferAddChunk]
  obtain ⟨_ | _, buf₁, h₁⟩ := mqttBufferGrow buf h
  · rfl
  · simp only [MqttHeap.malloc]
    cases h₁.mallocs.head?.join with
    | none => rfl
    | some chunk => rfl

/-- The allocation of an extent uses neither the list of extents nor the memory. -/
theorem mqttBufferAllocExtent_with (n : UInt32) :
    mqttBufferAllocExtent { buf with extents := es, bufferedBytes := count } n
        { h with mem := mem } =
      let r := mqttBufferAllocExtent buf n h
      (r.1, { r.2.1 with extents := es, bufferedBytes := count }, { r.2.2 with mem := mem }) := by
  simp only [mqttBufferAllocExtent]
  split_ifs
  · rw [mqttBufferAddChunk_with]
    obtain ⟨_ | _, buf₁, h₁⟩ := mqttBufferAddChunk buf (alignedSize n) h
    · rfl
    · rfl
  · rfl

/-- It may come before a store or behind it. -/
theorem mqttBufferAllocExtent_write (n p : UInt32) (bytes : List UInt8) :
    mqttBufferAllocExtent buf n (h.write p bytes) =
      let r := mqttBufferAllocExtent buf n h
      (r.1, r.2.1, r.2.2.write p bytes) := by
  have hwith := mqttBufferAllocExtent_with buf buf.extents buf.bufferedBytes h
    (writeMem h.mem p bytes) n
  obtain ⟨hext, hcount, hmem⟩ := mqttBufferAllocExtent_frame buf n h
  refine hwith.trans ?_
  simp only [MqttHeap.write, hmem, ← hext, ← hcount]

theorem obtainedChunk_with (n : UInt32) :
    obtainedChunk { buf with extents := es, bufferedBytes := count } n { h with mem := mem } =
      obtainedChunk buf n h := by
  simp only [obtainedChunk]
  split_ifs
  · rw [mqttBufferAddChunk_with]
    obtain ⟨_ | _, buf₁, h₁⟩ := mqttBufferAddChunk buf (alignedSize n) h
    · rfl
    · rfl
  · rfl

end Independent

/-- An extent has the length asked for. -/
theorem mqttBufferAllocExtent_len {buf : MqttBuffer} {n : UInt32} {h : MqttHeap}
    {e : MqttExtent} (he : (mqttBufferAllocExtent buf n h).1 = some e) : e.len = n := by
  obtain ⟨-, hnone, -⟩ | ⟨-, -, hext, -⟩ | ⟨c, -, -, -, hext, -⟩ := mqttBufferAllocExtent_cases buf n h
  · rw [hnone] at he
    cases he
  · rw [hext] at he
    cases he
    rfl
  · rw [hext] at he
    cases he
    rfl

/-- What `malloc` promises for allocations of these sizes, one after the other: every chunk
ends before the memory does, and shares no byte with the regions in use and the extents
allocated before. -/
def AllocsOk : List Region → List UInt32 → MqttBuffer → MqttHeap → Prop
  | _, [], _, _ => True
  | rs, n :: ns, buf, h =>
      (∀ c ∈ obtainedChunk buf n h, c.Fits ∧ ∀ r ∈ rs, r.Disjoint c) ∧
        ∀ e ∈ (mqttBufferAllocExtent buf n h).1,
          AllocsOk (e.region :: rs) ns (mqttBufferAllocExtent buf n h).2.1
            (mqttBufferAllocExtent buf n h).2.2

instance decidableAllocsOk : ∀ (rs : List Region) (ns : List UInt32) (buf : MqttBuffer)
    (h : MqttHeap), Decidable (AllocsOk rs ns buf h)
  | _, [], _, _ => isTrue trivial
  | rs, n :: ns, buf, h =>
      have : ∀ e : MqttExtent, Decidable (AllocsOk (e.region :: rs) ns
          (mqttBufferAllocExtent buf n h).2.1 (mqttBufferAllocExtent buf n h).2.2) :=
        fun e => decidableAllocsOk (e.region :: rs) ns _ _
      inferInstanceAs (Decidable ((∀ c ∈ obtainedChunk buf n h, c.Fits ∧ ∀ r ∈ rs, r.Disjoint c) ∧
        ∀ e ∈ (mqttBufferAllocExtent buf n h).1, _))

theorem allocsOk_with (rs : List Region) (ns : List UInt32) (buf : MqttBuffer)
    (es : List MqttExtent) (count : UInt32) (h : MqttHeap) (mem : UInt32 → UInt8) :
    AllocsOk rs ns { buf with extents := es, bufferedBytes := count } { h with mem := mem } ↔
      AllocsOk rs ns buf h := by
  induction ns generalizing rs buf es count h with
  | nil => rfl
  | cons n ns ih =>
      simp only [AllocsOk, obtainedChunk_with, mqttBufferAllocExtent_with, ih]

/-- Fewer regions have to be left alone. -/
theorem AllocsOk.mono {rs rs' : List Region} (hrs : ∀ r ∈ rs', r ∈ rs) {ns : List UInt32}
    {buf : MqttBuffer} {h : MqttHeap} (hok : AllocsOk rs ns buf h) : AllocsOk rs' ns buf h := by
  induction ns generalizing rs rs' buf h with
  | nil => trivial
  | cons n ns ih =>
      refine ⟨fun c hc => ⟨(hok.1 c hc).1, fun r hr => (hok.1 c hc).2 r (hrs r hr)⟩, fun e he => ?_⟩
      refine ih (fun r hr => ?_) (hok.2 e he)
      rcases List.mem_cons.mp hr with rfl | hr
      · exact List.mem_cons_self
      · exact List.mem_cons_of_mem _ (hrs r hr)

/-- The first of the allocations. -/
theorem AllocsOk.of_append {rs : List Region} {ns ms : List UInt32} {buf : MqttBuffer}
    {h : MqttHeap} (hok : AllocsOk rs (ns ++ ms) buf h) : AllocsOk rs ns buf h := by
  induction ns generalizing rs buf h with
  | nil => trivial
  | cons n ns ih => exact ⟨hok.1, fun e he => ih (hok.2 e he)⟩

/-- What a packer finds in the memory: the regions in use end before the memory does, the
free part of the buffer is apart from them, and `malloc` keeps its promise. -/
structure MemoryOk (rs : List Region) (ns : List UInt32) (buf : MqttBuffer) (h : MqttHeap) :
    Prop where
  fits : ∀ r ∈ rs, r.Fits
  room : Clear buf.free rs
  allocs : AllocsOk rs ns buf h

/-- The payload of an extent begins behind its structure. -/
theorem MqttExtent.toNat_payload {e : MqttExtent} (hfits : e.region.Fits) (hlen : 0 < e.len.toNat) :
    e.payload.toNat = e.region.base.toNat + 12 := by
  have hend : (e.payload - sizeofMqttExtent).toNat + (12 + e.len.toNat) ≤ 2 ^ 32 := hfits
  have hbase : e.payload = e.payload - sizeofMqttExtent + sizeofMqttExtent := by
    rw [UInt32.sub_add_cancel]
  have hsum := congrArg UInt32.toNat hbase
  rw [UInt32.toNat_add, show sizeofMqttExtent.toNat = 12 from rfl] at hsum
  have hregion : e.region.base = e.payload - sizeofMqttExtent := rfl
  rw [hregion]
  omega

/-- Bytes of the payload lie in the extent. -/
theorem MqttExtent.within {e : MqttExtent} (hfits : e.region.Fits) {k n : ℕ} (hn : 0 < n)
    (hk : k + n ≤ e.len.toNat) :
    (⟨e.payload + UInt32.ofNat k, n⟩ : Region).Within e.region := by
  have hpayload := e.toNat_payload hfits (by omega)
  have hend : e.region.base.toNat + (12 + e.len.toNat) ≤ 2 ^ 32 := hfits
  have hstart : (e.payload + UInt32.ofNat k).toNat = e.region.base.toNat + 12 + k := by
    rw [UInt32.toNat_add, UInt32.toNat_ofNat']
    omega
  have hsize : e.region.size = 12 + e.len.toNat := rfl
  refine ⟨?_, ?_⟩
  · rw [hstart]
    omega
  · simp only [Region.limit, hstart, hsize]
    omega

/-- A store into an extent leaves a region apart from it alone. -/
theorem readMem_write_extent (mem : UInt32 → UInt8) {e : MqttExtent} (hfits : e.region.Fits)
    {k : ℕ} {bytes : List UInt8} (hk : k + bytes.length ≤ e.len.toNat) {r : Region} (hr : r.Fits)
    (hd : r.Disjoint e.region) :
    readMem (writeMem mem (e.payload + UInt32.ofNat k) bytes) r.base r.size =
      readMem mem r.base r.size := by
  cases bytes with
  | nil => rfl
  | cons b bs =>
      have hin := e.within hfits (k := k) (n := (b :: bs).length) (by simp) hk
      exact readMem_writeMem_of_disjoint mem hr (hin.2.trans hfits) (hin.disjoint hd.symm).symm

/-- Extents being filled, each with the bytes written to it so far; `rs` are the regions that
are left alone, and `ns` the sizes of the allocations to come. -/
structure Drafted (rs : List Region) (h₀ : MqttHeap) (ns : List UInt32)
    (ds : List (MqttExtent × List UInt8)) (buf : MqttBuffer) (h : MqttHeap) : Prop where
  room : Clear buf.free (ds.map (fun d => d.1.region) ++ rs)
  allocs : AllocsOk (ds.map (fun d => d.1.region) ++ rs) ns buf h
  fits : ∀ d ∈ ds, d.1.region.Fits
  apart : (ds.map fun d => d.1.region).Pairwise Region.Disjoint
  keptFits : ∀ r ∈ rs, r.Fits
  clear : ∀ d ∈ ds, ∀ r ∈ rs, r.Disjoint d.1.region
  held : ∀ d ∈ ds, d.2.length ≤ d.1.len.toNat ∧ readMem h.mem d.1.payload d.2.length = d.2
  kept : ∀ r ∈ rs, readMem h.mem r.base r.size = readMem h₀.mem r.base r.size

/-- No extent is being filled yet. -/
theorem Drafted.start {rs : List Region} {ns : List UInt32} {buf : MqttBuffer} {h : MqttHeap}
    (hm : MemoryOk rs ns buf h) : Drafted rs h ns [] buf h :=
  ⟨hm.room, hm.allocs, by simp, .nil, hm.fits, by simp, by simp, fun _ _ => rfl⟩

theorem dumpLengthInto_of_lt (fixHead : MqttExtent) {len : UInt32} (hlen : len.toNat < 2 ^ 28)
    (h : MqttHeap) : (dumpLengthInto fixHead len h).1 = ((encode len.toNat).length : ℤ) := by
  rw [dumpLengthInto, mqttDumpLength_of_lt hlen]

theorem dumpLengthInto_of_le (fixHead : MqttExtent) {len : UInt32} (hlen : 2 ^ 28 ≤ len.toNat)
    (h : MqttHeap) : (dumpLengthInto fixHead len h).1 = -1 :=
  mqttDumpLength_of_le hlen

/-- The extent with the type and a length field of `n` bytes. -/
theorem toNat_len_withField (fixHead : MqttExtent) {n : ℕ} (h : n ≤ 4) :
    (fixHead.withField n).len.toNat = n + 1 := by
  have hall : ∀ n : ℕ, n ≤ 4 → (UInt32.ofInt ((n : ℤ) + 1)).toNat = n + 1 := by decide
  exact hall n h

section Drafted

variable {rs : List Region} {h₀ h : MqttHeap} {ns : List UInt32}
  {ds : List (MqttExtent × List UInt8)} {buf : MqttBuffer}

/-- The list of extents does not matter. -/
theorem Drafted.relist (hd : Drafted rs h₀ ns ds buf h) (es : List MqttExtent) (count : UInt32) :
    Drafted rs h₀ ns ds { buf with extents := es, bufferedBytes := count } h :=
  { hd with
    allocs := (allocsOk_with _ ns buf es count h h.mem).mpr hd.allocs }

/-- Of the allocations to come the first are looked at. -/
theorem Drafted.of_append {ms : List UInt32} (hd : Drafted rs h₀ (ns ++ ms) ds buf h) :
    Drafted rs h₀ ns ds buf h := { hd with allocs := hd.allocs.of_append }

theorem Drafted.append (hd : Drafted rs h₀ ns ds buf h) (e : MqttExtent) :
    Drafted rs h₀ ns ds (mqttBufferAppendExtent buf e) h := hd.relist _ _

/-- An extent is allocated: nothing has been written to it. -/
theorem Drafted.alloc {n : UInt32} (hd : Drafted rs h₀ (n :: ns) ds buf h)
    (hsize : n.toNat ≤ 2 ^ 32 - 16) {e : MqttExtent}
    (he : (mqttBufferAllocExtent buf n h).1 = some e) :
    e.len = n ∧ Drafted rs h₀ ns ((e, []) :: ds) (mqttBufferAllocExtent buf n h).2.1
      (mqttBufferAllocExtent buf n h).2.2 := by
  have hround := toNat_alignedSize hsize
  have hmem := (mqttBufferAllocExtent_frame buf n h).2.2
  -- the free part that the extent is cut off is that of the chunk in use, or a new one
  obtain ⟨free, hfree, hle, heq, hback⟩ : ∃ free : Region,
      Clear free (ds.map (fun d => d.1.region) ++ rs) ∧ (alignedSize n).toNat ≤ free.size ∧
      e = ⟨n, free.base + sizeofMqttExtent⟩ ∧
      (mqttBufferAllocExtent buf n h).2.1.free = free.back (alignedSize n).toNat := by
    obtain ⟨-, hnone, -⟩ | ⟨-, hle, hext, hback⟩ | ⟨c, hc, -, hle, hext, hback⟩ :=
      mqttBufferAllocExtent_cases buf n h
    · rw [hnone] at he
      cases he
    · rw [hext] at he
      exact ⟨buf.free, hd.room, hle, (Option.some.inj he).symm, hback⟩
    · rw [hext] at he
      exact ⟨c, .inr (hd.allocs.1 c hc), hle, (Option.some.inj he).symm, hback⟩
  have hregion : e.region = free.front (12 + n.toNat) := by
    rw [heq, region_extent]
    rfl
  obtain ⟨hfits, hapart, hroom⟩ := hfree.carve (n := 12 + n.toNat) (by omega) (by omega) hle
  rw [← hregion] at hfits hapart hroom
  refine ⟨by rw [heq], ⟨?_, hd.allocs.2 e he, ?_, ?_, hd.keptFits, ?_, ?_, ?_⟩⟩
  · rw [hback]
    exact hroom
  · rintro d (_ | ⟨_, hd'⟩)
    · exact hfits
    · exact hd.fits d hd'
  · refine List.pairwise_cons.mpr ⟨fun r hr => ?_, hd.apart⟩
    exact (hapart r (List.mem_append_left _ hr)).symm
  · rintro d (_ | ⟨_, hd'⟩) r hr
    · exact hapart r (List.mem_append_right _ hr)
    · exact hd.clear d hd' r hr
  · rintro d (_ | ⟨_, hd'⟩)
    · exact ⟨Nat.zero_le _, rfl⟩
    · rw [hmem]
      exact hd.held d hd'
  · rw [hmem]
    exact hd.kept

/-- An allocation leaves all of it as it is, but for the new extent, which may be too small
when the size cannot be rounded up. -/
theorem Drafted.skip {n : UInt32} (hd : Drafted rs h₀ (n :: ns) ds buf h) :
    Drafted rs h₀ [] ds (mqttBufferAllocExtent buf n h).2.1
      (mqttBufferAllocExtent buf n h).2.2 := by
  have hmem := (mqttBufferAllocExtent_frame buf n h).2.2
  have hroom : Clear (mqttBufferAllocExtent buf n h).2.1.free
      (ds.map (fun d => d.1.region) ++ rs) := by
    obtain ⟨-, -, hfree⟩ | ⟨-, hle, -, hfree⟩ | ⟨c, hc, -, hle, -, hfree⟩ :=
      mqttBufferAllocExtent_cases buf n h
    · rw [hfree]
      exact hd.room
    · rw [hfree]
      exact hd.room.back hle
    · rw [hfree]
      exact Clear.back (.inr (hd.allocs.1 c hc)) hle
  exact { hd with
    room := hroom
    allocs := trivial
    held := by rw [hmem]; exact hd.held
    kept := by rw [hmem]; exact hd.kept }

/-- Of the bytes in an extent only the first are looked at. -/
theorem Drafted.truncate (ds₁ : List (MqttExtent × List UInt8))
    {ds₂ : List (MqttExtent × List UInt8)} {e : MqttExtent} (c c' : List UInt8)
    (hd : Drafted rs h₀ ns (ds₁ ++ (e, c ++ c') :: ds₂) buf h) :
    Drafted rs h₀ ns (ds₁ ++ (e, c) :: ds₂) buf h := by
  have hregions : (ds₁ ++ (e, c) :: ds₂).map (fun d => d.1.region) =
      (ds₁ ++ (e, c ++ c') :: ds₂).map (fun d => d.1.region) := by
    simp only [List.map_append, List.map_cons]
  have hext : ∀ d ∈ ds₁ ++ (e, c) :: ds₂, d = (e, c) ∨ d ∈ ds₁ ++ (e, c ++ c') :: ds₂ := by
    intro d hd'
    rcases List.mem_append.mp hd' with hd' | hd'
    · exact .inr (List.mem_append_left _ hd')
    · exact (List.mem_cons.mp hd').imp id fun hd' =>
        List.mem_append_right _ (List.mem_cons_of_mem _ hd')
  have hmem : (e, c ++ c') ∈ ds₁ ++ (e, c ++ c') :: ds₂ := by simp
  have hfits : e.region.Fits := hd.fits (e, c ++ c') hmem
  have hclear : ∀ r ∈ rs, r.Disjoint e.region := hd.clear (e, c ++ c') hmem
  refine ⟨by rw [hregions]; exact hd.room, by rw [hregions]; exact hd.allocs, ?_,
    by rw [hregions]; exact hd.apart, hd.keptFits, ?_, ?_, hd.kept⟩
  · intro d hd'
    obtain rfl | hd' := hext d hd'
    · exact hfits
    · exact hd.fits d hd'
  · intro d hd'
    obtain rfl | hd' := hext d hd'
    · exact hclear
    · exact hd.clear d hd'
  · intro d hd'
    obtain rfl | hd' := hext d hd'
    · obtain ⟨hlen, hread⟩ := hd.held _ hmem
      simp only [List.length_append] at hlen hread
      rw [readMem_add] at hread
      exact ⟨(Nat.le_add_right _ _).trans hlen, (List.append_inj hread (length_readMem _ _ _)).1⟩
    · exact hd.held d hd'

/-- Bytes are written behind those that an extent has already. -/
theorem Drafted.write (ds₁ : List (MqttExtent × List UInt8)) {ds₂ : List (MqttExtent × List UInt8)}
    {e : MqttExtent} {c : List UInt8} (hd : Drafted rs h₀ ns (ds₁ ++ (e, c) :: ds₂) buf h)
    (bytes : List UInt8) (hlen : c.length + bytes.length ≤ e.len.toNat) :
    Drafted rs h₀ ns (ds₁ ++ (e, c ++ bytes) :: ds₂) buf
      (h.write (e.payload + UInt32.ofNat c.length) bytes) := by
  have hregions : (ds₁ ++ (e, c ++ bytes) :: ds₂).map (fun d => d.1.region) =
      (ds₁ ++ (e, c) :: ds₂).map (fun d => d.1.region) := by
    simp only [List.map_append, List.map_cons]
  have hmem : (e, c) ∈ ds₁ ++ (e, c) :: ds₂ := by simp
  have hfits := hd.fits _ hmem
  obtain ⟨hbound, hread⟩ := hd.held _ hmem
  have hext : ∀ d ∈ ds₁ ++ (e, c ++ bytes) :: ds₂,
      ∃ d' ∈ ds₁ ++ (e, c) :: ds₂, d'.1 = d.1 := by
    intro d hd'
    rcases List.mem_append.mp hd' with hd' | hd'
    · exact ⟨d, List.mem_append_left _ hd', rfl⟩
    · rcases List.mem_cons.mp hd' with rfl | hd'
      · exact ⟨(e, c), hmem, rfl⟩
      · exact ⟨d, List.mem_append_right _ (List.mem_cons_of_mem _ hd'), rfl⟩
  have hother : ∀ d ∈ ds₁ ++ ds₂, d.1.region.Disjoint e.region ∧
      d ∈ ds₁ ++ (e, c) :: ds₂ := by
    have hpair := hd.apart
    rw [List.map_append, List.map_cons, List.pairwise_append, List.pairwise_cons] at hpair
    intro d hd'
    rcases List.mem_append.mp hd' with hd' | hd'
    · exact ⟨hpair.2.2 _ (List.mem_map_of_mem hd') _ List.mem_cons_self,
        List.mem_append_left _ hd'⟩
    · exact ⟨(hpair.2.1.1 _ (List.mem_map_of_mem hd')).symm,
        List.mem_append_right _ (List.mem_cons_of_mem _ hd')⟩
  refine ⟨by rw [hregions]; exact hd.room, ?_, ?_, by rw [hregions]; exact hd.apart, hd.keptFits,
    ?_, ?_, ?_⟩
  · rw [hregions]
    exact (allocsOk_with _ ns buf buf.extents buf.bufferedBytes h _).mpr hd.allocs
  · intro d hd'
    obtain ⟨d', hmem', heq⟩ := hext d hd'
    exact heq ▸ hd.fits d' hmem'
  · intro d hd'
    obtain ⟨d', hmem', heq⟩ := hext d hd'
    exact heq ▸ hd.clear d' hmem'
  · intro d hd'
    by_cases hself : d = (e, c ++ bytes)
    · subst hself
      have hlt := e.len.toNat_lt
      simp only [List.length_append]
      exact ⟨hlen, readMem_writeMem_append h.mem e.payload bytes hread (by omega)⟩
    · have hd'' : d ∈ ds₁ ++ ds₂ := by
        rcases List.mem_append.mp hd' with hd' | hd'
        · exact List.mem_append_left _ hd'
        · exact List.mem_append_right _ ((List.mem_cons.mp hd').resolve_left hself)
      obtain ⟨hdisjoint, hmem'⟩ := hother d hd''
      obtain ⟨hbound', hread'⟩ := hd.held d hmem'
      refine ⟨hbound', Eq.trans ?_ hread'⟩
      rcases Nat.eq_zero_or_pos d.2.length with hzero | hpos
      · rw [hzero, readMem_zero, readMem_zero]
      · have hin := d.1.within (hd.fits d hmem') (k := 0) hpos (by omega)
        rw [show UInt32.ofNat 0 = 0 from rfl, UInt32.add_zero] at hin
        exact readMem_write_extent h.mem hfits hlen (hin.2.trans (hd.fits d hmem'))
          (hin.disjoint hdisjoint)
  · intro r hr
    rw [← hd.kept r hr]
    exact readMem_write_extent h.mem hfits hlen (hd.keptFits r hr) (hd.clear _ hmem r hr)

/-- The first bytes are written to an extent. -/
theorem Drafted.writeFirst (ds₁ : List (MqttExtent × List UInt8))
    {ds₂ : List (MqttExtent × List UInt8)} {e : MqttExtent}
    (hd : Drafted rs h₀ ns (ds₁ ++ (e, []) :: ds₂) buf h) (bytes : List UInt8)
    (hlen : bytes.length ≤ e.len.toNat) :
    Drafted rs h₀ ns (ds₁ ++ (e, bytes) :: ds₂) buf (h.write e.payload bytes) := by
  have hwrite := hd.write ds₁ bytes (by rwa [List.length_nil, Nat.zero_add])
  rwa [List.length_nil, show UInt32.ofNat 0 = 0 from rfl, UInt32.add_zero, List.nil_append] at hwrite

/-- The length field is written behind the first byte. -/
theorem Drafted.dump (ds₁ : List (MqttExtent × List UInt8))
    {ds₂ : List (MqttExtent × List UInt8)} {e : MqttExtent} {head : UInt8}
    (hd : Drafted rs h₀ ns (ds₁ ++ (e, [head]) :: ds₂) buf h) (he : e.len = 5) (len : UInt32) :
    Drafted rs h₀ ns (ds₁ ++ (e, head :: (mqttDumpLength len.toNat).2) :: ds₂) buf
      (dumpLengthInto e len h).2 := by
  have hlen := length_dumpLengthLoop_le 4 1 len.toNat
  refine hd.write ds₁ (mqttDumpLength len.toNat).2 ?_
  rw [he, List.length_singleton]
  exact Nat.add_le_add_left hlen 1

/-- The bytes of an extent that has been filled. -/
theorem Drafted.readMem_filled {e e' : MqttExtent} {c : List UInt8}
    (hd : Drafted rs h₀ ns ds buf h) (hmem : (e, c) ∈ ds) (hpayload : e'.payload = e.payload)
    (hlen : e'.len.toNat = c.length) : readMem h.mem e'.payload e'.len.toNat = c := by
  rw [hpayload, hlen]
  exact (hd.held _ hmem).2

/-- The length field is read from the header's bytes behind the first. -/
theorem readLengthFrom_eq {fixHead : MqttExtent} {h : MqttHeap} {head : UInt8}
    {bytes : List UInt8} (hread : readMem h.mem fixHead.payload 5 = head :: bytes) :
    readLengthFrom fixHead h = mqttReadLength bytes 4 :=
  congrArg (mqttReadLength · 4) (List.cons.inj hread).2

/-- A length of three bytes at most is read back from a header. -/
theorem Drafted.readLength {fixHead : MqttExtent} {head : UInt8} {n : ℕ}
    (hd : Drafted rs h₀ ns ds buf h) (hmem : (fixHead, head :: encode n) ∈ ds) (hn : n < 2 ^ 21) :
    readLengthFrom fixHead h = (((encode n).length : ℤ), UInt32.ofNat n) := by
  have hlen : (encode n).length ≤ 3 := (length_encode_le_iff 2 n).mpr (by simpa using hn)
  obtain ⟨-, hread⟩ := hd.held _ hmem
  have hfive : 5 = (head :: encode n).length + (4 - (encode n).length) := by
    rw [List.length_cons]
    omega
  have hbytes : readMem h.mem fixHead.payload 5 = head :: (encode n ++
      readMem h.mem (fixHead.payload + UInt32.ofNat (head :: encode n).length)
        (4 - (encode n).length)) := by
    rw [hfive, readMem_add, hread]
    rfl
  rw [readLengthFrom_eq hbytes,
    mqttReadLength_field _ 4 (isField_encode n) hlen (hlen.trans (by omega)), value_encode]

/-- What `Mqtt_AppendLength` does to a header with a length of three bytes at most, as long as
the sum can be encoded. -/
theorem Drafted.appendLength (ds₁ : List (MqttExtent × List UInt8))
    {ds₂ : List (MqttExtent × List UInt8)} {fixHead : MqttExtent} {head : UInt8} {n : ℕ} {k : ℤ}
    {rest : List MqttExtent} {len : UInt32}
    (hd : Drafted rs h₀ ns (ds₁ ++ (fixHead, head :: encode n) :: ds₂) buf h)
    (hfix : fixHead.len = 5) (hext : buf.extents = fixHead.withField k :: rest) (hn : n < 2 ^ 21)
    (hsum : n + len.toNat < 2 ^ 28) :
    ∃ h', mqttAppendLength buf len h = (mqtterrNoerror,
        buf.setFirst (fixHead.withField (encode (n + len.toNat)).length), h') ∧
      Drafted rs h₀ ns (ds₁ ++ (fixHead, head :: encode (n + len.toNat)) :: ds₂)
        (buf.setFirst (fixHead.withField (encode (n + len.toNat)).length)) h' := by
  have hfield := hd.readLength (List.mem_append_right ds₁ List.mem_cons_self) hn
  have hread : readLengthFrom (fixHead.withField k) h = (((encode n).length : ℤ), UInt32.ofNat n) :=
    hfield
  have htotal : (UInt32.ofNat n + len).toNat = n + len.toNat := by
    rw [UInt32.toNat_add, UInt32.toNat_ofNat']
    omega
  have hshort : (UInt32.ofNat n + len).toNat < 2 ^ 28 := by rwa [htotal]
  have hcode : (dumpLengthInto (fixHead.withField k) (UInt32.ofNat n + len) h).1 =
      ((encode (n + len.toNat)).length : ℤ) := by
    rw [dumpLengthInto_of_lt _ hshort, htotal]
  obtain ⟨hpos, hle⟩ := length_encode_bounds hsum
  have htwo : ¬ (fixHead.withField ((encode (n + len.toNat)).length : ℤ)).len < 2 := by
    rw [UInt32.lt_iff_toNat_lt, toNat_len_withField fixHead hle]
    simp only [UInt32.reduceToNat]
    omega
  have hdump := (hd.truncate ds₁ [head] (encode n)).dump ds₁ hfix (UInt32.ofNat n + len)
  rw [mqttDumpLength_of_lt hshort, htotal] at hdump
  refine ⟨_, ?_, hdump.relist _ _⟩
  unfold mqttAppendLength
  simp only [hext, hread, hcode]
  rw [if_neg (by omega)]
  exact if_neg htwo

end Drafted

/-- The allocations of these sizes, one after the other, succeed. -/
def Allocates : List UInt32 → MqttBuffer → MqttHeap → Prop
  | [], _, _ => True
  | n :: ns, buf, h => (mqttBufferAllocExtent buf n h).1.isSome ∧
      Allocates ns (mqttBufferAllocExtent buf n h).2.1 (mqttBufferAllocExtent buf n h).2.2

theorem allocates_with (ns : List UInt32) (buf : MqttBuffer) (es : List MqttExtent)
    (count : UInt32) (h : MqttHeap) (mem : UInt32 → UInt8) :
    Allocates ns { buf with extents := es, bufferedBytes := count } { h with mem := mem } ↔
      Allocates ns buf h := by
  induction ns generalizing buf es count h with
  | nil => rfl
  | cons n ns ih => simp only [Allocates, mqttBufferAllocExtent_with, ih]

theorem allocates_write (ns : List UInt32) (buf : MqttBuffer) (h : MqttHeap) (p : UInt32)
    (bytes : List UInt8) : Allocates ns buf (h.write p bytes) ↔ Allocates ns buf h :=
  allocates_with ns buf buf.extents buf.bufferedBytes h _

theorem allocates_append (ns : List UInt32) (buf : MqttBuffer) (e : MqttExtent) (h : MqttHeap) :
    Allocates ns (mqttBufferAppendExtent buf e) h ↔ Allocates ns buf h :=
  allocates_with ns buf _ _ h h.mem

/-- The first of the allocations. -/
theorem Allocates.of_append {ns ms : List UInt32} {buf : MqttBuffer} {h : MqttHeap}
    (hall : Allocates (ns ++ ms) buf h) : Allocates ns buf h := by
  induction ns generalizing buf h with
  | nil => trivial
  | cons n ns ih => exact ⟨hall.1, ih hall.2⟩

/-- What `withExtent` does: there is no extent, or the packer goes on with one. The list of
extents is not touched. -/
theorem withExtent_cases (buf : MqttBuffer) (n : UInt32) (h : MqttHeap)
    (pack : MqttExtent → MqttBuffer → MqttHeap → Packed) :
    ((mqttBufferAllocExtent buf n h).1 = none ∧ withExtent buf n h pack =
        (mqtterrOutofmemory, (mqttBufferAllocExtent buf n h).2.1,
          (mqttBufferAllocExtent buf n h).2.2)) ∨
      ∃ e, (mqttBufferAllocExtent buf n h).1 = some e ∧ withExtent buf n h pack =
        pack e (mqttBufferAllocExtent buf n h).2.1 (mqttBufferAllocExtent buf n h).2.2 := by
  delta withExtent
  match mqttBufferAllocExtent buf n h with
  | (none, buf', h') => exact .inl ⟨rfl, rfl⟩
  | (some e, buf', h') => exact .inr ⟨e, rfl, rfl⟩

/-- The packer goes on with an extent when the allocation succeeds. -/
theorem withExtent_of_allocates {buf : MqttBuffer} {n : UInt32} {ns : List UInt32}
    {h : MqttHeap} (hall : Allocates (n :: ns) buf h)
    (pack : MqttExtent → MqttBuffer → MqttHeap → Packed) :
    ∃ e, (mqttBufferAllocExtent buf n h).1 = some e ∧ withExtent buf n h pack =
      pack e (mqttBufferAllocExtent buf n h).2.1 (mqttBufferAllocExtent buf n h).2.2 := by
  obtain ⟨hnone, -⟩ | hsome := withExtent_cases buf n h pack
  · have hsome := hall.1
    rw [hnone] at hsome
    cases hsome
  · exact hsome

/-- The regions of the bytes that extents refer to. -/
def extentRegions (es : List MqttExtent) : List Region :=
  es.map fun e => ⟨e.payload, e.len.toNat⟩

/-- Extents whose regions are left alone keep their bytes. -/
theorem flattenExtents_kept {mem mem' : UInt32 → UInt8} {es : List MqttExtent}
    (hkept : ∀ r ∈ extentRegions es, readMem mem' r.base r.size = readMem mem r.base r.size) :
    flattenExtents mem' es = flattenExtents mem es := by
  induction es with
  | nil => rfl
  | cons e es ih =>
      rw [flattenExtents_cons, flattenExtents_cons]
      rw [ih fun r hr => hkept r (List.mem_cons_of_mem _ hr)]
      exact congrArg (· ++ _) (hkept ⟨e.payload, e.len.toNat⟩ List.mem_cons_self)

/-- The list of extents, their bytes and `buffered_bytes` are what they were. -/
structure Untouched (buf : MqttBuffer) (h : MqttHeap) (buf' : MqttBuffer) (h' : MqttHeap) :
    Prop where
  extents : buf'.extents = buf.extents
  bufferedBytes : buf'.bufferedBytes = buf.bufferedBytes
  bytes : flattenExtents h'.mem buf.extents = flattenExtents h.mem buf.extents

theorem Untouched.refl (buf : MqttBuffer) (h : MqttHeap) : Untouched buf h buf h :=
  ⟨rfl, rfl, rfl⟩

/-- Neither the list nor the memory has changed. -/
theorem Untouched.of_frame {buf buf' : MqttBuffer} {h h' : MqttHeap}
    (hext : buf'.extents = buf.extents) (hcount : buf'.bufferedBytes = buf.bufferedBytes)
    (hmem : h'.mem = h.mem) : Untouched buf h buf' h' := ⟨hext, hcount, by rw [hmem]⟩

/-- One of the codes for errors in `mqtt.h`. -/
def IsError (code : ℤ) : Prop := -14 ≤ code ∧ code < 0

instance (code : ℤ) : Decidable (IsError code) := inferInstanceAs (Decidable (_ ∧ _))

/-- A packer that refuses. -/
structure Refused (buf : MqttBuffer) (h : MqttHeap) (r : Packed) : Prop where
  code : IsError r.1
  untouched : Untouched buf h r.2.1 r.2.2

/-- No extent was to be had. -/
theorem refused_of_alloc (buf : MqttBuffer) (n : UInt32) (h : MqttHeap) :
    Refused buf h (mqtterrOutofmemory, (mqttBufferAllocExtent buf n h).2.1,
      (mqttBufferAllocExtent buf n h).2.2) := by
  obtain ⟨hext, hcount, hmem⟩ := mqttBufferAllocExtent_frame buf n h
  exact ⟨(by decide : IsError mqtterrOutofmemory), .of_frame hext hcount hmem⟩

/-- An error behind allocations and writes. -/
theorem Drafted.refused {rs : List Region} {ns : List UInt32} {ds : List (MqttExtent × List UInt8)}
    {buf₀ buf : MqttBuffer} {h₀ h : MqttHeap} (hd : Drafted rs h₀ ns ds buf h)
    (hrs : ∀ r ∈ extentRegions buf₀.extents, r ∈ rs) (hext : buf.extents = buf₀.extents)
    (hcount : buf.bufferedBytes = buf₀.bufferedBytes) {code : ℤ} (hcode : IsError code) :
    Refused buf₀ h₀ (code, buf, h) :=
  ⟨hcode, hext, hcount, flattenExtents_kept fun r hr => hd.kept r (hrs r hr)⟩

/-- The extent that `MqttBuffer_Append` allocates. -/
def appendExtentSize (size : UInt32) (own : Bool) : UInt32 := if own then size else sizeofMqttExtent

/-- What `MqttBuffer_Append` does when it gets its extent: the data are in the list, in that
extent or where the caller has them. -/
theorem mqttBufferAppend_allocates {rs : List Region} {ds : List (MqttExtent × List UInt8)}
    {buf : MqttBuffer} {h₀ h : MqttHeap} {payload size : UInt32} {own : Bool}
    (hd : Drafted rs h₀ [appendExtentSize size own] ds buf h) (hsize : size.toNat ≤ 2 ^ 32 - 16)
    (hrs : (⟨payload, size.toNat⟩ : Region) ∈ rs)
    (hall : Allocates [appendExtentSize size own] buf h) :
    ∃ q bytes p, (mqttBufferAppend buf payload size own h).2.1.extents = buf.extents ++ [p] ∧
      (mqttBufferAppend buf payload size own h).2.1.bufferedBytes = buf.bufferedBytes + size ∧
      p.len = size ∧ (p = q ∨ p = ⟨size, payload⟩) ∧
      Drafted rs h₀ [] ((q, bytes) :: ds) (mqttBufferAppend buf payload size own h).2.1
        (mqttBufferAppend buf payload size own h).2.2 ∧
      readMem (mqttBufferAppend buf payload size own h).2.2.mem p.payload size.toNat =
        readMem h₀.mem payload size.toNat := by
  have hle : (appendExtentSize size own).toNat ≤ 2 ^ 32 - 16 := by
    unfold appendExtentSize
    split
    · exact hsize
    · decide
  obtain ⟨hext, hcount, hmem⟩ := mqttBufferAllocExtent_frame buf (appendExtentSize size own) h
  have hdata := hd.kept _ hrs
  obtain ⟨buf', h', halloc, -⟩ | ⟨q, buf', h', halloc, heq⟩ :=
    mqttBufferAppend_cases buf payload size own h (rfl : appendExtentSize size own = _)
  · have hsome := hall.1
    rw [halloc] at hsome
    exact absurd hsome Bool.false_ne_true
  obtain ⟨hlen, hd'⟩ := hd.alloc hle (by rw [halloc])
  rw [halloc] at hext hcount hmem hd'
  rw [heq]
  cases own with
  | true =>
      have hlen' : q.len = size := hlen
      have hwrite := hd'.writeFirst [] (readMem h'.mem payload size.toNat)
        (by rw [length_readMem, hlen'])
      refine ⟨q, _, q, congrArg (· ++ [q]) hext, ?_, hlen', .inl rfl, hwrite.append q, ?_⟩
      · show buf'.bufferedBytes + q.len = _
        rw [hcount, hlen']
      · have hread := (hwrite.held _ List.mem_cons_self).2
        rw [length_readMem] at hread
        rw [if_pos rfl]
        exact hread.trans (hmem ▸ hdata)
  | false =>
      refine ⟨q, [], ⟨size, payload⟩, congrArg (· ++ [_]) hext, congrArg (· + size) hcount, rfl,
        .inr rfl, hd'.append _, ?_⟩
      exact (congrArg (fun mem => readMem mem payload size.toNat) hmem).trans hdata

/-- Without an extent it leaves the list alone. -/
theorem mqttBufferAppend_fails {rs : List Region} {ds : List (MqttExtent × List UInt8)}
    {buf : MqttBuffer} {h₀ h : MqttHeap} {payload size : UInt32} {own : Bool}
    (hd : Drafted rs h₀ [appendExtentSize size own] ds buf h)
    (hall : ¬ Allocates [appendExtentSize size own] buf h) :
    (mqttBufferAppend buf payload size own h).2.1.extents = buf.extents ∧
      (mqttBufferAppend buf payload size own h).2.1.bufferedBytes = buf.bufferedBytes ∧
      Drafted rs h₀ [] ds (mqttBufferAppend buf payload size own h).2.1
        (mqttBufferAppend buf payload size own h).2.2 := by
  obtain ⟨hext, hcount, -⟩ := mqttBufferAllocExtent_frame buf (appendExtentSize size own) h
  have hd' := hd.skip
  obtain ⟨buf', h', halloc, heq⟩ | ⟨q, buf', h', halloc, -⟩ :=
    mqttBufferAppend_cases buf payload size own h (rfl : appendExtentSize size own = _)
  · rw [halloc] at hext hcount hd'
    rw [heq]
    exact ⟨hext, hcount, hd'⟩
  · exact absurd ⟨by rw [halloc]; rfl, trivial⟩ hall

end Mqtt
