import Esp32AtMqtt.Edp.RoundTrip

/-!
# Binary data with a description there and back

What `PacketSavedataBinStr` builds is taken apart by `EdpPacketType`, `UnpackSavedata` and
`UnpackSavedataBinStr`. The guard of the constructor compares the length of the description
with `2^16` and lets that length through, while `WriteStr` stores its 16 low bits.
-/

namespace Edp

open Base128

/-- The byte that is written for the 8 low bits. -/
theorem toNat_lowByte (n : UInt32) : ((n &&& 0x00FF).toUInt8).toNat = n.toNat % 256 := by
  rw [UInt32.toNat_toUInt8, UInt32.toNat_and]
  show (n.toNat &&& (2 ^ 8 - 1)) % 256 = n.toNat % 256
  rw [Nat.and_two_pow_sub_one_eq_mod]
  omega

/-- A byte that is read behind a number of 24 bits. -/
theorem toNat_shiftLeft_or {n : UInt32} (b : UInt8) (hn : n.toNat < 2 ^ 24) :
    (n <<< 8 ||| b.toUInt32).toNat = n.toNat * 256 + b.toNat := by
  have hb : b.toNat < 2 ^ 8 := b.toNat_lt
  rw [UInt32.toNat_or, UInt32.toNat_shiftLeft, UInt8.toNat_toUInt32]
  show n.toNat <<< 8 % 2 ^ 32 ||| b.toNat = _
  have hlt : n.toNat <<< 8 < 2 ^ 32 := by
    rw [Nat.shiftLeft_eq]
    omega
  rw [Nat.mod_eq_of_lt hlt, ← Nat.shiftLeft_add_eq_or_of_lt hb, Nat.shiftLeft_eq]

theorem takeUint32_uint32Bytes (val : UInt32) (rest : List UInt8) :
    takeUint32 (uint32Bytes val ++ rest) = some (val, rest) := by
  have hshift (k : UInt32) (hk : k.toNat < 32) : (val >>> k).toNat = val.toNat / 2 ^ k.toNat := by
    rw [UInt32.toNat_shiftRight, Nat.mod_eq_of_lt hk, Nat.shiftRight_eq_div_pow]
  have hlt := val.toNat_lt
  have h₃ := hshift 24 (by decide)
  have h₂ := hshift 16 (by decide)
  have h₁ := hshift 8 (by decide)
  simp only [UInt32.reduceToNat] at h₃ h₂ h₁
  -- the value behind each byte, from the first
  have e₃ : (((val >>> 24) &&& 0x00FF).toUInt8.toUInt32).toNat = val.toNat / 2 ^ 24 % 256 := by
    rw [UInt8.toNat_toUInt32, toNat_lowByte, h₃]
  have e₂ := toNat_shiftLeft_or ((val >>> 16) &&& 0x00FF).toUInt8
    (n := ((val >>> 24) &&& 0x00FF).toUInt8.toUInt32) (by rw [e₃]; omega)
  rw [e₃, toNat_lowByte, h₂] at e₂
  have e₁ := toNat_shiftLeft_or ((val >>> 8) &&& 0x00FF).toUInt8 (by rw [e₂]; omega)
  rw [e₂, toNat_lowByte, h₁] at e₁
  have e₀ := toNat_shiftLeft_or (val &&& 0x00FF).toUInt8 (by rw [e₁]; omega)
  rw [e₁, toNat_lowByte] at e₀
  show takeUint32 (_ :: _ :: _ :: _ :: rest) = _
  rw [takeUint32, Option.some_inj, Prod.mk.injEq]
  refine ⟨UInt32.toNat_inj.mp ?_, rfl⟩
  rw [e₀]
  omega

theorem orErr_eq_ok {α : Type} {code : ℤ} {m : Read α} {r r' : Reading} {v : α}
    (h : orErr code m r = .ok v r') : m r = .ok v r' := by
  cases hm : m r with
  | ok u s =>
      rw [orErr_of_ok hm] at h
      exact h
  | error e s =>
      simp only [orErr, hm] at h
      cases h

/-- A string that is read has fewer bytes than a 16-bit length can say. -/
theorem length_of_readStr {malloc : ℕ → Bool} {r r' : Reading} {s : List UInt8}
    (h : readStr malloc r = .ok s r') : s.length ≤ 65535 := by
  obtain ⟨len, r₁, -, hcopy⟩ := bind_eq_ok h
  have hlen := len.toNat_lt
  simp only at hcopy
  split at hcopy
  · cases hcopy
  · split at hcopy
    · cases hcopy
      have hprefix : (cString (r₁.ahead len.toNat)).length ≤ (r₁.ahead len.toNat).length :=
        (List.takeWhile_prefix _).length_le
      have hahead : (r₁.ahead len.toNat).length ≤ len.toNat := List.length_take_le _ _
      omega
    · cases hcopy

/-- The description that `UnpackSavedataBinStr` returns. -/
theorem length_of_unpackSavedataBinStr {malloc : ℕ → Bool} {r r' : Reading}
    {v : List UInt8 × List UInt8 × UInt32} (h : unpackSavedataBinStr malloc r = .ok v r') :
    v.1.length ≤ 65535 := by
  obtain ⟨descStr, r₁, hdesc, h⟩ := bind_eq_ok h
  obtain ⟨binLen, r₂, -, h⟩ := bind_eq_ok h
  obtain ⟨binData, r₃, -, h⟩ := bind_eq_ok h
  cases h
  exact length_of_readStr (orErr_eq_ok hdesc)

/-- The readers of the kit recover the id, the description and the block, and leave nothing. -/
def Recovered (w : Writing) (dstDevid : Option Str) (descStr : Str) (binData : List UInt8) : Prop :=
  ∃ r, readPacket (readSavedata (unpackSavedataBinStr mallocSucceeds)) w.pkg.reading =
      .ok (saveData, dstDevid.map Str.bytes, SaveDataType.bin.flag, descStr.bytes, binData,
        UInt32.ofNat binData.length) r ∧ r.pkg.readPos = r.pkg.writePos

theorem Recovered.short {w : Writing} {dstDevid : Option Str} {descStr : Str}
    {binData : List UInt8} (h : Recovered w dstDevid descStr binData) : descStr.Short := by
  obtain ⟨r, hread, -⟩ := h
  obtain ⟨mtype, r₁, -, hread⟩ := bind_eq_ok hread
  obtain ⟨saved, r₂, hsaved, hread⟩ := bind_eq_ok hread
  obtain ⟨head, r₃, -, hsaved⟩ := bind_eq_ok hsaved
  obtain ⟨v, r₄, hunpack, hsaved⟩ := bind_eq_ok hsaved
  obtain rfl : (head.1, head.2, v) = saved := by injection hsaved
  injection hread with hvalues
  simp only [Prod.mk.injEq] at hvalues
  obtain ⟨-, -, -, rfl⟩ := hvalues
  exact length_of_unpackSavedataBinStr hunpack

/-- A description whose length has 16 bits is recovered with the rest. -/
theorem unpackSavedataBinStr_packed {dstDevid : Option Str} {descStr : Str} {binData : List UInt8}
    (hdst : ∀ dst ∈ dstDevid, dst.Short) (hdesc : descStr.Short) (hdata : binData.length < 2 ^ 27)
    {w : Writing} (hpacked : Packed w saveData (addressFields dstDevid ++
      [[SaveDataType.bin.flag], descStr.field, uint32Bytes (UInt32.ofNat binData.length),
        binData]).flatten) : Recovered w dstDevid descStr binData := by
  have hbody : (addressFields dstDevid ++ [[SaveDataType.bin.flag], descStr.field,
      uint32Bytes (UInt32.ofNat binData.length), binData]).flatten =
      (addressFields dstDevid).flatten ++ SaveDataType.bin.flag ::
        (descStr.field ++ (uint32Bytes (UInt32.ofNat binData.length) ++ binData)) := by
    simp
  have hfresh : w.pkg.Fresh := ⟨hpacked.built.valid, hpacked.built.readPos_eq⟩
  have hwritten : w.pkg.written = _ := hpacked.built.written_eq
  have hlt := hpacked.length_lt
  have hsmall := hfresh.writePos_small hwritten hlt
  rw [hbody] at hwritten hlt
  obtain ⟨r₁, r₂, k, htype, hhead, hc₂⟩ := unpackSavedata_packed hdst hfresh hwritten hlt
  obtain ⟨r₃, hstr, hc₃⟩ := readStr_field hc₂.held (by rw [hc₂.writePos_eq]; exact hsmall) hdesc
    hc₂.unread_eq
  have hc₃ := hc₂.trans hc₃
  have hfits : r₃.pkg.Fits 4 := by
    have hle := UInt32.le_iff_toNat_le.mp hc₃.held.readPos_le
    rw [hc₃.writePos_eq] at hle
    have hpos : r₃.pkg.readPos.toNat ≤ w.pkg.writePos.toNat := hle
    exact fun _ => by omega
  have hlen := answers_readUint32 hc₃.held hfits
  rw [hc₃.unread_eq, takeUint32_uint32Bytes] at hlen
  obtain ⟨r₄, hbinLen, hc₄⟩ := hlen.exists_ok
  have hc₄ := hc₃.trans hc₄
  obtain ⟨r₅, hbytes, hc₅⟩ := readBytes_all hc₄.held hdata hc₄.unread_eq
  have hc₅ := hc₄.trans hc₅
  have hunpack : unpackSavedataBinStr mallocSucceeds r₂ =
      .ok (descStr.bytes, binData, UInt32.ofNat binData.length) r₅ := by
    rw [unpackSavedataBinStr, bind_of_ok (orErr_of_ok hstr), bind_of_ok (orErr_of_ok hbinLen),
      bind_of_ok (orErr_of_ok hbytes)]
    rfl
  have hsum := hc₅.held.add_length_unread
  rw [hc₅.unread_eq] at hsum
  refine ⟨r₅, ?_, UInt32.toNat_inj.mp hsum⟩
  have hdata : readSavedata (unpackSavedataBinStr mallocSucceeds) r₁ =
      .ok (dstDevid.map Str.bytes, SaveDataType.bin.flag, descStr.bytes, binData,
        UInt32.ofNat binData.length) r₅ := by
    rw [readSavedata, bind_of_ok hhead, bind_of_ok hunpack]
    rfl
  rw [readPacket, bind_of_ok htype, bind_of_ok hdata]
  rfl

/-- When the guard refuses. -/
theorem packetSavedataBinStr_eq_none_iff (m : FreshMemory) (dstDevid : Option Str) (descStr : Str)
    (binData : List UInt8) : packetSavedataBinStr m dstDevid descStr binData = none ↔
      65536 < descStr.strlen.toNat ∨ 3 * 2 ^ 20 < (UInt32.ofNat binData.length).toNat := by
  simp only [packetSavedataBinStr]
  split
  · next hguard => exact iff_of_true rfl hguard
  · next hguard => exact iff_of_false (by simp) hguard

/-- The constructor refuses, or its packet is recovered. -/
def GuardRight (m : FreshMemory) (dstDevid : Option Str) (descStr : Str) (binData : List UInt8) :
    Prop :=
  ∀ w, packetSavedataBinStr m dstDevid descStr binData = some w →
    Recovered w dstDevid descStr binData

/-- The guard and the writer agree exactly when the length of the description has 16 bits, or the
guard refuses it or the block. -/
theorem guardRight_iff (m : FreshMemory) {dstDevid : Option Str} (descStr : Str)
    {binData : List UInt8} (hdst : ∀ dst ∈ dstDevid, dst.Short) (hdata : binData.length < 2 ^ 32) :
    GuardRight m dstDevid descStr binData ↔
      descStr.Short ∨ 65536 < descStr.strlen.toNat ∨ 3 * 2 ^ 20 < binData.length := by
  have hnone := packetSavedataBinStr_eq_none_iff m dstDevid descStr binData
  rw [UInt32.toNat_ofNat_of_lt' hdata] at hnone
  cases hw : packetSavedataBinStr m dstDevid descStr binData with
  | none =>
      refine iff_of_true (fun w hsome => ?_) (.inr (hnone.mp hw))
      rw [hw] at hsome
      cases hsome
  | some w =>
      have hpassed : ¬ (65536 < descStr.strlen.toNat ∨ 3 * 2 ^ 20 < binData.length) := fun h => by
        rw [hnone.mpr h] at hw
        cases hw
      rw [or_iff_left hpassed]
      constructor
      · exact fun h => (h w hw).short
      · intro hdesc w' hw'
        have hsmall : binData.length < 2 ^ 27 := by
          have hle := Nat.not_lt.mp (not_or.mp hpassed).2
          omega
        exact unpackSavedataBinStr_packed hdst hdesc hsmall
          (packed_packetSavedataBinStr m hdst hdesc hsmall hw')

/-- For the strings that fit in 32-bit memory it is one length that goes wrong. -/
theorem short_or_refused_iff {descStr : Str} (h : descStr.bytes.length < 2 ^ 32) :
    descStr.Short ∨ 65536 < descStr.strlen.toNat ↔ descStr.bytes.length ≠ 65536 := by
  rw [Str.strlen, UInt32.toNat_ofNat_of_lt' h, Str.Short]
  omega

/-- A byte described by a letter. -/
theorem guardRight_oneByte :
    (∀ dst ∈ some deviceA, dst.Short) ∧ GuardRight zeroMemory (some deviceA) deviceA [7] := by
  have hdst : ∀ dst ∈ some deviceA, dst.Short := by
    rintro dst ⟨⟩
    decide
  exact ⟨hdst, (guardRight_iff zeroMemory deviceA hdst (by decide)).mpr (.inl (by decide))⟩

/-- The description `aa…a` of `2^16` letters. -/
def longDesc : Str :=
  ⟨List.replicate 65536 97, fun h => absurd (List.eq_of_mem_replicate h) (by decide)⟩

/-- The packet for it is made, and says that the description is empty. -/
theorem packetSavedataBinStr_notRecovered :
    ¬ ∀ (m : FreshMemory) (dstDevid : Option Str) (descStr : Str) (binData : List UInt8),
      (∀ dst ∈ dstDevid, dst.Short) → binData.length < 2 ^ 32 →
      GuardRight m dstDevid descStr binData := by
  intro hall
  have hlen : longDesc.bytes.length = 65536 := List.length_replicate
  have hright := hall zeroMemory none longDesc [] (by simp) (by simp)
  cases hw : packetSavedataBinStr zeroMemory none longDesc [] with
  | none =>
      have hguard := (packetSavedataBinStr_eq_none_iff zeroMemory none longDesc []).mp hw
      rw [Str.strlen, hlen] at hguard
      revert hguard
      decide
  | some w =>
      have hshort : longDesc.bytes.length ≤ 65535 := (hright w hw).short
      omega

end Edp
