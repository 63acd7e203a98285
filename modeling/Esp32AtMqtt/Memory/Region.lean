import Esp32AtMqtt.Memory.Flat
import Mathlib.Algebra.Order.Ring.Nat
import Mathlib.Data.List.Nodup
import Mathlib.Data.List.Perm.Subperm
import Mathlib.Tactic.Common

/-!
# Regions of the memory, and an arena that is cut into them

A region is a start address and a number of bytes. Regions are compared by their ends as
numbers, so a region has to end before the memory does (`Fits`).

An arena obtains chunks and cuts pieces off the front of the newest one; what is left of an
older chunk is given up. `Arena.Ok` says that the pieces lie inside chunks and that no two
of them share a byte. Both operations keep it.
-/

namespace FlatMemory

/-- `size` bytes from the address `base` on. -/
structure Region where
  base : UInt32
  size : ℕ
  deriving DecidableEq, Repr

namespace Region

/-- The address behind the region, as a number. -/
def limit (r : Region) : ℕ := r.base.toNat + r.size

/-- The region ends before the memory does. -/
def Fits (r : Region) : Prop := r.limit ≤ 2 ^ 32

/-- The region lies wholly inside another one. -/
def Within (r c : Region) : Prop := c.base.toNat ≤ r.base.toNat ∧ r.limit ≤ c.limit

/-- The two regions share no byte: one ends before the other begins. -/
def Disjoint (r c : Region) : Prop := r.limit ≤ c.base.toNat ∨ c.limit ≤ r.base.toNat

instance (r : Region) : Decidable r.Fits := inferInstanceAs (Decidable (_ ≤ _))

instance (r c : Region) : Decidable (r.Within c) := inferInstanceAs (Decidable (_ ∧ _))

instance (r c : Region) : Decidable (r.Disjoint c) := inferInstanceAs (Decidable (_ ∨ _))

theorem Disjoint.symm {r c : Region} (h : r.Disjoint c) : c.Disjoint r := Or.symm h

theorem Within.trans {r c d : Region} (h : r.Within c) (h' : c.Within d) : r.Within d :=
  ⟨h'.1.trans h.1, h.2.trans h'.2⟩

/-- A part of a region is disjoint from what the region is disjoint from. -/
theorem Within.disjoint {r c d : Region} (h : r.Within c) (hd : c.Disjoint d) :
    r.Disjoint d :=
  hd.imp (fun hle => h.2.trans hle) fun hle => hle.trans h.1

/-- An address of a region that fits does not wrap. -/
theorem Fits.toNat_add {r : Region} (h : r.Fits) {i : ℕ} (hi : i < r.size) :
    (r.base + UInt32.ofNat i).toNat = r.base.toNat + i := by
  have hend : r.base.toNat + r.size ≤ 2 ^ 32 := h
  rw [UInt32.toNat_add, UInt32.toNat_ofNat']
  omega

/-- The first `n` bytes of a region. -/
def front (r : Region) (n : ℕ) : Region := ⟨r.base, n⟩

/-- The bytes of a region behind its first `n`. -/
def back (r : Region) (n : ℕ) : Region := ⟨r.base + UInt32.ofNat n, r.size - n⟩

theorem front_within {r : Region} {n : ℕ} (h : n ≤ r.size) : (r.front n).Within r :=
  ⟨le_rfl, Nat.add_le_add_left h _⟩

theorem Fits.toNat_back {r : Region} (hr : r.Fits) {n : ℕ} (h : n ≤ r.size)
    (hlt : n < r.size ∨ r.limit < 2 ^ 32) : (r.back n).base.toNat = r.base.toNat + n := by
  have hend : r.base.toNat + r.size ≤ 2 ^ 32 := hr
  rw [limit] at hlt
  rw [back, UInt32.toNat_add, UInt32.toNat_ofNat']
  omega

theorem Fits.back_within {r : Region} (hr : r.Fits) {n : ℕ} (h : n < r.size) :
    (r.back n).Within r := by
  have hbase : (r.back n).base.toNat = r.base.toNat + n := hr.toNat_back h.le (.inl h)
  have hsize : (r.back n).size = r.size - n := rfl
  refine ⟨by omega, ?_⟩
  rw [limit, limit, hbase, hsize]
  omega

end Region

/-- A store outside a region does not change its bytes. -/
theorem readMem_writeMem_of_disjoint (mem : UInt32 → UInt8) {r : Region} {base : UInt32}
    {bytes : List UInt8} (hr : r.Fits) (hw : (⟨base, bytes.length⟩ : Region).Fits)
    (h : r.Disjoint ⟨base, bytes.length⟩) :
    readMem (writeMem mem base bytes) r.base r.size = readMem mem r.base r.size := by
  refine readMem_congr fun i hi => writeMem_of_ne mem fun j hj heq => ?_
  have hi' := hr.toNat_add hi
  have hj' := hw.toNat_add hj
  simp only at hj'
  rw [heq, hj'] at hi'
  simp only [Region.Disjoint, Region.limit] at h
  omega

/-- Regions that share no byte and have at least `k` bytes each: the memory has room for
`2 ^ 32 / k` of them. -/
theorem length_le_of_disjoint {rs : List Region} {k : ℕ} (hk : 0 < k)
    (hfit : ∀ r ∈ rs, r.Fits) (hsize : ∀ r ∈ rs, k ≤ r.size)
    (hdisjoint : rs.Pairwise Region.Disjoint) : rs.length ≤ 2 ^ 32 / k := by
  have hnodup : (rs.map fun r => r.base.toNat / k).Nodup := by
    rw [List.Nodup, List.pairwise_map]
    refine hdisjoint.imp_of_mem fun {r c} hr hc h heq => ?_
    have hr' := hsize r hr
    have hc' := hsize c hc
    have hdivr := Nat.div_add_mod r.base.toNat k
    have hdivc := Nat.div_add_mod c.base.toNat k
    have hmodr := Nat.mod_lt r.base.toNat hk
    have hmodc := Nat.mod_lt c.base.toNat hk
    rw [heq] at hdivr
    simp only [Region.Disjoint, Region.limit] at h
    omega
  have hsubset : (rs.map fun r => r.base.toNat / k) ⊆ List.range (2 ^ 32 / k) := by
    intro q hq
    obtain ⟨r, hr, rfl⟩ := List.mem_map.mp hq
    have hend : r.base.toNat + r.size ≤ 2 ^ 32 := hfit r hr
    have hle : r.base.toNat + k ≤ 2 ^ 32 := (Nat.add_le_add_left (hsize r hr) _).trans hend
    have hdiv : (r.base.toNat + k) / k ≤ 2 ^ 32 / k := Nat.div_le_div_right hle
    rw [Nat.add_div_right _ hk] at hdiv
    exact List.mem_range.mpr hdiv
  have hlen := (hnodup.subperm hsubset).length_le
  rwa [List.length_map, List.length_range] at hlen

/-- A free part ends before the memory does and shares no byte with the regions in use. -/
def Clear (free : Region) (rs : List Region) : Prop :=
  free.size = 0 ∨ free.Fits ∧ ∀ r ∈ rs, r.Disjoint free

instance (free : Region) (rs : List Region) : Decidable (Clear free rs) :=
  inferInstanceAs (Decidable (_ ∨ _ ∧ ∀ r ∈ rs, r.Disjoint free))

/-- What is left behind the first bytes of a free part. -/
theorem Clear.back {free : Region} {rs : List Region} (h : Clear free rs) {m : ℕ}
    (hm : m ≤ free.size) : Clear (free.back m) rs := by
  obtain hzero | ⟨hfits, hdisjoint⟩ := h
  · exact .inl (Nat.sub_eq_zero_of_le (by omega))
  obtain rfl | hlt := Nat.eq_or_lt_of_le hm
  · exact .inl (Nat.sub_self _)
  · have hback := hfits.back_within hlt
    exact .inr ⟨hback.2.trans hfits, fun r hr => (hback.disjoint (hdisjoint r hr).symm).symm⟩

/-- What is cut off the front of a free part is apart from the regions in use, and so is
what is left behind it. -/
theorem Clear.carve {free : Region} {rs : List Region} (h : Clear free rs) {n m : ℕ} (hn : 0 < n)
    (hnm : n ≤ m) (hm : m ≤ free.size) :
    (free.front n).Fits ∧ (∀ r ∈ rs, r.Disjoint (free.front n)) ∧
      Clear (free.back m) (free.front n :: rs) := by
  obtain hzero | ⟨hfits, hdisjoint⟩ := h
  · omega
  have hfront := Region.front_within (r := free) (hnm.trans hm)
  refine ⟨hfront.2.trans hfits, fun r hr => (hfront.disjoint (hdisjoint r hr).symm).symm, ?_⟩
  obtain rfl | hlt := Nat.eq_or_lt_of_le hm
  · exact .inl (Nat.sub_self _)
  · have hbase : (free.back m).base.toNat = free.base.toNat + m := hfits.toNat_back hm (.inl hlt)
    have hback := hfits.back_within hlt
    refine .inr ⟨hback.2.trans hfits, fun r hr => ?_⟩
    rcases List.mem_cons.mp hr with rfl | hr
    · refine .inl ?_
      simp only [Region.limit, hbase, Region.front]
      omega
    · exact (hback.disjoint (hdisjoint r hr).symm).symm

/-- The chunks obtained so far, the part of the newest one that is still free, and the
pieces handed out. -/
structure Arena where
  chunks : List Region
  free : Region
  used : List Region

namespace Arena

/-- The pieces lie inside chunks, and neither they nor the free part share a byte. -/
structure Ok (a : Arena) : Prop where
  chunks_fit : ∀ c ∈ a.chunks, c.Fits
  chunks_disjoint : a.chunks.Pairwise Region.Disjoint
  used_within : ∀ u ∈ a.used, ∃ c ∈ a.chunks, u.Within c
  used_disjoint : a.used.Pairwise Region.Disjoint
  free_ok : a.free.size = 0 ∨
    (∃ c ∈ a.chunks, a.free.Within c) ∧ ∀ u ∈ a.used, u.Disjoint a.free

/-- Obtain a chunk, and give up the rest of the one before. -/
def refill (a : Arena) (c : Region) : Arena := ⟨a.chunks ++ [c], c, a.used⟩

/-- Hand out `n` bytes of the free part and give up the bytes behind them up to `m`. -/
def carve (a : Arena) (n m : ℕ) : Arena := ⟨a.chunks, a.free.back m, a.used ++ [a.free.front n]⟩

/-- The arena without chunks. -/
def empty : Arena := ⟨[], ⟨0, 0⟩, []⟩

theorem Ok.empty : Arena.empty.Ok :=
  ⟨by simp [Arena.empty], .nil, by simp [Arena.empty], .nil, .inl rfl⟩

/-- A chunk may be added that shares no byte with the others. -/
theorem Ok.refill {a : Arena} (h : a.Ok) {c : Region} (hfit : c.Fits)
    (hfresh : ∀ d ∈ a.chunks, d.Disjoint c) : (a.refill c).Ok where
  chunks_fit d hd := by
    rcases List.mem_append.mp hd with hd | hd
    · exact h.chunks_fit d hd
    · rwa [List.mem_singleton.mp hd]
  chunks_disjoint := by
    refine List.pairwise_append.mpr ⟨h.chunks_disjoint, List.pairwise_singleton _ _, ?_⟩
    intro d hd e he
    rw [List.mem_singleton.mp he]
    exact hfresh d hd
  used_within u hu := by
    obtain ⟨d, hd, hwithin⟩ := h.used_within u hu
    exact ⟨d, List.mem_append_left _ hd, hwithin⟩
  used_disjoint := h.used_disjoint
  free_ok := by
    refine .inr ⟨⟨c, by simp [Arena.refill], le_rfl, le_rfl⟩, fun u hu => ?_⟩
    obtain ⟨d, hd, hwithin⟩ := h.used_within u hu
    exact hwithin.disjoint (hfresh d hd)

/-- The free part is apart from the pieces. -/
theorem Ok.clear {a : Arena} (h : a.Ok) : Clear a.free a.used := by
  obtain hzero | ⟨⟨c, hc, hwithin⟩, hdisjoint⟩ := h.free_ok
  · exact .inl hzero
  · exact .inr ⟨hwithin.2.trans (h.chunks_fit c hc), hdisjoint⟩

/-- A piece may be cut off that the free part has room for. -/
theorem Ok.carve {a : Arena} (h : a.Ok) {n m : ℕ} (hn : 0 < n) (hnm : n ≤ m)
    (hm : m ≤ a.free.size) : (a.carve n m).Ok := by
  obtain ⟨-, hapart, hclear⟩ := h.clear.carve hn hnm hm
  obtain hzero | ⟨⟨c, hc, hwithin⟩, -⟩ := h.free_ok
  · omega
  have hfront := Region.front_within (r := a.free) (hnm.trans hm)
  refine ⟨h.chunks_fit, h.chunks_disjoint, fun u hu => ?_, ?_, ?_⟩
  · rcases List.mem_append.mp hu with hu | hu
    · exact h.used_within u hu
    · rw [List.mem_singleton.mp hu]
      exact ⟨c, hc, hfront.trans hwithin⟩
  · refine List.pairwise_append.mpr ⟨h.used_disjoint, List.pairwise_singleton _ _, ?_⟩
    intro u hu v hv
    rw [List.mem_singleton.mp hv]
    exact hapart u hu
  · obtain hzero | ⟨-, hdisjoint⟩ := hclear
    · exact .inl hzero
    obtain hall | hlt := Nat.eq_or_lt_of_le hm
    · exact .inl (Nat.sub_eq_zero_of_le hall.ge)
    · have hfits : a.free.Fits := hwithin.2.trans (h.chunks_fit c hc)
      refine .inr ⟨⟨c, hc, (hfits.back_within hlt).trans hwithin⟩, fun u hu => ?_⟩
      rcases List.mem_append.mp hu with hu | hu
      · exact hdisjoint u (List.mem_cons_of_mem _ hu)
      · exact hdisjoint u (List.mem_cons.mpr (.inl (List.mem_singleton.mp hu)))

end Arena

end FlatMemory
