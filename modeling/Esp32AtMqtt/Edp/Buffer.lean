import Esp32AtMqtt.Codec.Base128
import Mathlib.Tactic.Common
import Mathlib.Data.Nat.Prime.Basic

/-!
# The buffers of the EDP kit

`struct Buffer` of `EdpKit.c`, which serves as receive buffer and as packet: a block
of `_capacity` bytes of which the first `_write_pos` have been written. `CheckCapacity`
doubles the capacity until the bytes to come fit, and `WriteBytes` stores them behind
those written.

`malloc` succeeds here; what a fresh block holds is a parameter, since the code reads
none of it.
-/

namespace Edp

/-- What the blocks that `malloc` returns hold. -/
structure FreshMemory where
  block : ℕ → List UInt8
  length_block : ∀ n, (block n).length = n

/-- Blocks of zero bytes. -/
def zeroMemory : FreshMemory := ⟨fun n => List.replicate n 0, fun _ => List.length_replicate⟩

/-- `BUFFER_SIZE`. -/
def bufferSize : UInt32 := 128

/-- `struct Buffer`, with the whole block that `_data` points to. -/
structure Buffer where
  data : List UInt8
  writePos : UInt32
  readPos : UInt32
  capacity : UInt32
  deriving DecidableEq, Repr

/-- `NewBuffer()`. -/
def newBuffer (m : FreshMemory) : Buffer := ⟨m.block bufferSize.toNat, 0, 0, bufferSize⟩

/-- The loop of `CheckCapacity`, with `n = 32 - flag`: the capacity it comes to, `none`
where `flag` exceeds 32. -/
def checkCapacityLoop (writePos len : UInt32) : ℕ → UInt32 → Option UInt32
  | 0, capLen => if capLen - writePos < len then none else some capLen
  | n + 1, capLen =>
      if capLen - writePos < len then checkCapacityLoop writePos len n (capLen <<< 1)
      else some capLen

/-- `CheckCapacity(buf, len)`. -/
def checkCapacity (m : FreshMemory) (buf : Buffer) (len : UInt32) : ℤ × Buffer :=
  match checkCapacityLoop buf.writePos len 32 buf.capacity with
  | none => (-1, buf)
  | some capLen =>
      if capLen > buf.capacity then
        let n := buf.writePos.toNat
        (0, { buf with
          data := buf.data.take n ++ (m.block capLen.toNat).drop n
          capacity := capLen })
      else (0, buf)

/-- `WriteBytes(buf, bytes, count)`. -/
def writeBytes (m : FreshMemory) (buf : Buffer) (bytes : List UInt8) : ℤ × Buffer :=
  let count := UInt32.ofNat bytes.length
  match checkCapacity m buf count with
  | (0, buf) =>
      let n := buf.writePos.toNat
      (0, { buf with
        data := buf.data.take n ++ bytes ++ buf.data.drop (n + bytes.length)
        writePos := buf.writePos + count })
  | (_, buf) => (-1, buf)

/-- The bytes written to a buffer. -/
def Buffer.written (buf : Buffer) : List UInt8 := buf.data.take buf.writePos.toNat

/-- The block is as large as `_capacity` says, and the bytes written lie in it. -/
structure Buffer.Valid (buf : Buffer) : Prop where
  length_data : buf.data.length = buf.capacity.toNat
  writePos_le : buf.writePos ≤ buf.capacity
  capacity_ge : bufferSize ≤ buf.capacity

theorem Buffer.Valid.length_written {buf : Buffer} (h : buf.Valid) :
    buf.written.length = buf.writePos.toNat := by
  have hle := UInt32.le_iff_toNat_le.mp h.writePos_le
  rw [Buffer.written, List.length_take, h.length_data, Nat.min_eq_left hle]

theorem Buffer.Valid.writePos_le_length {buf : Buffer} (h : buf.Valid) :
    buf.writePos.toNat ≤ buf.data.length := by
  rw [h.length_data]
  exact UInt32.le_iff_toNat_le.mp h.writePos_le

theorem valid_newBuffer (m : FreshMemory) : (newBuffer m).Valid :=
  ⟨m.length_block _, UInt32.zero_le, UInt32.le_refl _⟩

theorem written_newBuffer (m : FreshMemory) : (newBuffer m).written = [] := rfl

/-- The capacity is doubled until the bytes fit: it stays below `2^32`, since it is below
`2^30` when it is doubled, and 32 doublings are more than enough. -/
theorem checkCapacityLoop_fits {writePos len : UInt32}
    (hsum : writePos.toNat + len.toNat < 2 ^ 30) (n : ℕ) :
    ∀ capLen : UInt32, writePos ≤ capLen →
      writePos.toNat + len.toNat ≤ capLen.toNat * 2 ^ n →
      ∃ cap, checkCapacityLoop writePos len n capLen = some cap ∧ capLen ≤ cap ∧
        writePos.toNat + len.toNat ≤ cap.toNat := by
  induction n with
  | zero =>
      intro capLen hle hfit
      have hroom : ¬ capLen - writePos < len := by
        rw [UInt32.lt_iff_toNat_lt, UInt32.toNat_sub_of_le _ _ hle]
        omega
      exact ⟨capLen, if_neg hroom, UInt32.le_refl _, by omega⟩
  | succ n ih =>
      intro capLen hle hfit
      have hle' := UInt32.le_iff_toNat_le.mp hle
      by_cases hroom : capLen - writePos < len
      · have hlt := hroom
        rw [UInt32.lt_iff_toNat_lt, UInt32.toNat_sub_of_le _ _ hle] at hlt
        have hdouble : (capLen <<< 1).toNat = capLen.toNat * 2 := by
          rw [UInt32.toNat_shiftLeft, Nat.shiftLeft_eq]
          simp only [UInt32.reduceToNat, Nat.one_mod, pow_one]
          omega
        obtain ⟨cap, hcap, hge, hfits⟩ := ih (capLen <<< 1)
          (UInt32.le_iff_toNat_le.mpr (by omega))
          (by rw [hdouble, Nat.mul_assoc, ← pow_succ']; exact hfit)
        refine ⟨cap, by rw [checkCapacityLoop, if_pos hroom, hcap], ?_, hfits⟩
        exact UInt32.le_trans (UInt32.le_iff_toNat_le.mpr (by omega)) hge
      · refine ⟨capLen, by rw [checkCapacityLoop, if_neg hroom], UInt32.le_refl _, ?_⟩
        rw [UInt32.lt_iff_toNat_lt, UInt32.toNat_sub_of_le _ _ hle] at hroom
        omega

/-- `CheckCapacity` makes room and keeps the bytes written. -/
theorem checkCapacity_spec (m : FreshMemory) {buf : Buffer} (h : buf.Valid) (len : UInt32)
    (hsum : buf.writePos.toNat + len.toNat < 2 ^ 30) :
    (checkCapacity m buf len).1 = 0 ∧ (checkCapacity m buf len).2.Valid ∧
      (checkCapacity m buf len).2.written = buf.written ∧
      (checkCapacity m buf len).2.writePos = buf.writePos ∧
      buf.writePos.toNat + len.toNat ≤ (checkCapacity m buf len).2.capacity.toNat := by
  have hmin : 128 ≤ buf.capacity.toNat := UInt32.le_iff_toNat_le.mp h.capacity_ge
  obtain ⟨cap, hloop, hge, hfits⟩ := checkCapacityLoop_fits hsum 32 buf.capacity h.writePos_le
    (by omega)
  simp only [checkCapacity, hloop]
  split_ifs with hgrow
  · have hlt := UInt32.lt_iff_toNat_lt.mp hgrow
    have hpos := UInt32.le_iff_toNat_le.mp h.writePos_le
    have hwritten : (buf.data.take buf.writePos.toNat).length = buf.writePos.toNat :=
      h.length_written
    refine ⟨rfl, ⟨?_, UInt32.le_trans h.writePos_le hge, UInt32.le_trans h.capacity_ge hge⟩, ?_, rfl,
      hfits⟩
    · show (_ ++ (m.block cap.toNat).drop _).length = cap.toNat
      rw [List.length_append, hwritten, List.length_drop, m.length_block]
      omega
    · exact List.take_left' hwritten
  · have heq : cap = buf.capacity := UInt32.le_antisymm (UInt32.not_lt.mp hgrow) hge
    exact ⟨rfl, h, rfl, rfl, heq ▸ hfits⟩

/-- A capacity that is doubled stays a power of two, or has overflowed. -/
theorem checkCapacityLoop_dvd {writePos len : UInt32} (n : ℕ) :
    ∀ capLen cap : UInt32, capLen.toNat ∣ 2 ^ 31 ∨ capLen = 0 →
      checkCapacityLoop writePos len n capLen = some cap → cap.toNat ∣ 2 ^ 31 ∨ cap = 0 := by
  induction n with
  | zero =>
      intro capLen cap hcap hloop
      rw [checkCapacityLoop] at hloop
      split_ifs at hloop
      exact Option.some.inj hloop ▸ hcap
  | succ n ih =>
      intro capLen cap hcap hloop
      rw [checkCapacityLoop] at hloop
      split_ifs at hloop
      · refine ih _ cap ?_ hloop
        have hdouble : (capLen <<< 1).toNat = capLen.toNat * 2 % 2 ^ 32 := by
          rw [UInt32.toNat_shiftLeft, Nat.shiftLeft_eq]
          rfl
        rcases hcap with hdvd | rfl
        · obtain ⟨j, hj, heq⟩ := (Nat.dvd_prime_pow Nat.prime_two).mp hdvd
          rcases Nat.lt_or_eq_of_le hj with hlt | rfl
          · have hpow : 2 ^ (j + 1) ≤ 2 ^ 31 := Nat.pow_le_pow_right (by decide) hlt
            rw [hdouble, heq, ← pow_succ, Nat.mod_eq_of_lt (by omega)]
            exact Or.inl (pow_dvd_pow 2 hlt)
          · exact Or.inr (UInt32.toNat_inj.mp (by rw [hdouble, heq]; rfl))
        · exact Or.inr rfl
      · exact Option.some.inj hloop ▸ hcap

/-- The capacity of a buffer divides `2^31`. -/
theorem checkCapacity_dvd (m : FreshMemory) {buf : Buffer} (h : buf.capacity.toNat ∣ 2 ^ 31)
    (len : UInt32) : (checkCapacity m buf len).2.capacity.toNat ∣ 2 ^ 31 := by
  rw [checkCapacity]
  cases hloop : checkCapacityLoop buf.writePos len 32 buf.capacity with
  | none => exact h
  | some capLen =>
      dsimp only
      split_ifs with hgrow
      · rcases checkCapacityLoop_dvd 32 _ capLen (Or.inl h) hloop with hdvd | rfl
        · exact hdvd
        · exact absurd hgrow (UInt32.not_lt.mpr UInt32.zero_le)
      · exact h

/-- `WriteBytes` puts the bytes behind those written. -/
theorem writeBytes_spec (m : FreshMemory) {buf : Buffer} (h : buf.Valid) (bytes : List UInt8)
    (hsum : buf.written.length + bytes.length < 2 ^ 30) :
    (writeBytes m buf bytes).1 = 0 ∧ (writeBytes m buf bytes).2.Valid ∧
      (writeBytes m buf bytes).2.written = buf.written ++ bytes := by
  have hcount : (UInt32.ofNat bytes.length).toNat = bytes.length := by
    rw [UInt32.toNat_ofNat']
    omega
  rw [h.length_written] at hsum
  obtain ⟨hret, hvalid, hwritten, hpos, hfits⟩ := checkCapacity_spec m h
    (UInt32.ofNat bytes.length) (by rw [hcount]; exact hsum)
  rw [hcount] at hfits
  rcases hcheck : checkCapacity m buf (UInt32.ofNat bytes.length) with ⟨r, grown⟩
  simp only [hcheck] at hret hvalid hwritten hpos hfits
  subst hret
  have hfront : (grown.data.take grown.writePos.toNat).length = grown.writePos.toNat :=
    hvalid.length_written
  have hend : (grown.writePos + UInt32.ofNat bytes.length).toNat =
      grown.writePos.toNat + bytes.length := by
    rw [UInt32.toNat_add, hcount, hpos]
    omega
  have hlen := hvalid.length_data
  simp only [writeBytes, hcheck]
  refine ⟨trivial, ⟨?_, ?_, hvalid.capacity_ge⟩, ?_⟩
  · show (_ ++ bytes ++ _).length = grown.capacity.toNat
    rw [List.length_append, List.length_append, hfront, List.length_drop, hpos]
    omega
  · rw [UInt32.le_iff_toNat_le, hend, hpos]
    exact hfits
  · show List.take _ (_ ++ bytes ++ _) = _
    rw [hend, List.take_left' (by rw [List.length_append, hfront]), ← hwritten, Buffer.written]

theorem readPos_checkCapacity (m : FreshMemory) (buf : Buffer) (len : UInt32) :
    (checkCapacity m buf len).2.readPos = buf.readPos := by
  rw [checkCapacity]
  split
  · rfl
  · dsimp only
    split_ifs <;> rfl

theorem readPos_writeBytes (m : FreshMemory) (buf : Buffer) (bytes : List UInt8) :
    (writeBytes m buf bytes).2.readPos = buf.readPos := by
  have hpos := readPos_checkCapacity m buf (UInt32.ofNat bytes.length)
  simp only [writeBytes]
  split
  · rename_i heq
    rw [heq] at hpos
    exact hpos
  · rename_i heq
    rw [heq] at hpos
    exact hpos

end Edp
