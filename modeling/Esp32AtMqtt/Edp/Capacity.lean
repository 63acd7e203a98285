import Esp32AtMqtt.Edp.Buffer

/-!
# Capacities of every size

What `CheckCapacity` does for any buffer whose write position lies in its block, with a
request of any length. The loop doubles in 32 bits and compares an unsigned difference,
so it stops in two ways: at a capacity with room (`HasRoom`), or at one that has fallen so
far below the write position that the difference wraps (`Wraps`). The second is no growth
at all, and 0 is returned for it.
-/

namespace Edp

/-- The block is as large as `_capacity` says, and is not empty, and the write position
lies in it. -/
structure Buffer.Sized (buf : Buffer) : Prop where
  length_data : buf.data.length = buf.capacity.toNat
  writePos_le : buf.writePos ≤ buf.capacity
  capacity_pos : 0 < buf.capacity

/-- The capacity behind `k` doublings. -/
def doubled (capacity : UInt32) (k : ℕ) : UInt32 := UInt32.ofNat (capacity.toNat * 2 ^ k)

/-- The capacity behind `k` doublings has room. -/
def HasRoom (capacity writePos len : UInt32) (k : ℕ) : Prop :=
  writePos.toNat + len.toNat ≤ (doubled capacity k).toNat

/-- The capacity behind `k` doublings is below the write position, and the difference of
the two in 32 bits is not below the length. -/
def Wraps (capacity writePos len : UInt32) (k : ℕ) : Prop :=
  doubled capacity k < writePos ∧
    writePos.toNat + len.toNat ≤ (doubled capacity k).toNat + 2 ^ 32

/-- A capacity that wraps comes after one that has room. -/
def RoomFirst (capacity writePos len : UInt32) : Prop :=
  ∀ k ≤ 32, Wraps capacity writePos len k → ∃ j < k, HasRoom capacity writePos len j

/-- What a call of `CheckCapacity` promises: with 0, room for the bytes to come behind
those written; otherwise -1 and the buffer as it was. And the loop does not end below
the capacity it began at. -/
structure KeepsPromise (m : FreshMemory) (buf : Buffer) (len : UInt32) : Prop where
  room : (checkCapacity m buf len).1 = 0 →
    (checkCapacity m buf len).2.writePos.toNat + len.toNat ≤
      (checkCapacity m buf len).2.capacity.toNat
  kept : (checkCapacity m buf len).1 = 0 →
    (checkCapacity m buf len).2.writePos = buf.writePos ∧
      (checkCapacity m buf len).2.written = buf.written
  refused : (checkCapacity m buf len).1 ≠ 0 → checkCapacity m buf len = (-1, buf)
  grows : ∀ capLen ∈ checkCapacityLoop buf.writePos len 32 buf.capacity, buf.capacity ≤ capLen

theorem toNat_doubled (capacity : UInt32) (k : ℕ) :
    (doubled capacity k).toNat = capacity.toNat * 2 ^ k % 2 ^ 32 :=
  UInt32.toNat_ofNat'

theorem doubled_zero (capacity : UInt32) : doubled capacity 0 = capacity := by
  apply UInt32.toNat_inj.mp
  rw [toNat_doubled, pow_zero, Nat.mul_one, Nat.mod_eq_of_lt capacity.toNat_lt]

theorem doubled_succ (capacity : UInt32) (k : ℕ) :
    doubled capacity (k + 1) = doubled (capacity <<< 1) k := by
  have hshift : (capacity <<< 1).toNat = capacity.toNat * 2 % 2 ^ 32 := by
    rw [UInt32.toNat_shiftLeft, Nat.shiftLeft_eq]
    rfl
  apply UInt32.toNat_inj.mp
  rw [toNat_doubled, toNat_doubled, hshift, Nat.mod_mul_mod, Nat.mul_assoc, ← pow_succ']

/-- The loop goes on while there is neither room nor a wrap. -/
theorem not_sub_lt_iff (capacity writePos len : UInt32) (k : ℕ) :
    ¬ doubled capacity k - writePos < len ↔
      HasRoom capacity writePos len k ∨ Wraps capacity writePos len k := by
  have hcap := (doubled capacity k).toNat_lt
  have hpos := writePos.toNat_lt
  rw [HasRoom, Wraps, UInt32.lt_iff_toNat_lt, UInt32.lt_iff_toNat_lt, UInt32.toNat_sub]
  omega

/-- The loop ends at the first doubling at which its condition fails, or after 32. -/
theorem checkCapacityLoop_first (writePos len : UInt32) (n : ℕ) :
    ∀ capacity : UInt32,
      (checkCapacityLoop writePos len n capacity = none ∧
        ∀ k ≤ n, doubled capacity k - writePos < len) ∨
      ∃ k ≤ n, checkCapacityLoop writePos len n capacity = some (doubled capacity k) ∧
        ¬ doubled capacity k - writePos < len ∧
        ∀ j < k, doubled capacity j - writePos < len := by
  induction n with
  | zero =>
      intro capacity
      rw [checkCapacityLoop]
      split
      · next hless =>
          refine .inl ⟨rfl, fun k hk => ?_⟩
          rw [Nat.le_zero.mp hk, doubled_zero]
          exact hless
      · next hstop =>
          refine .inr ⟨0, Nat.le_refl 0, by rw [doubled_zero], ?_, by simp⟩
          rwa [doubled_zero]
  | succ n ih =>
      intro capacity
      rw [checkCapacityLoop]
      split
      · next hless =>
          rcases ih (capacity <<< 1) with ⟨hnone, hall⟩ | ⟨k, hk, hsome, hstop, hbefore⟩
          · refine .inl ⟨hnone, fun k hk => ?_⟩
            cases k with
            | zero => rwa [doubled_zero]
            | succ k =>
                rw [doubled_succ]
                exact hall k (Nat.le_of_succ_le_succ hk)
          · refine .inr ⟨k + 1, Nat.succ_le_succ hk, ?_, ?_, fun j hj => ?_⟩
            · rw [doubled_succ, hsome]
            · rwa [doubled_succ]
            · cases j with
              | zero => rwa [doubled_zero]
              | succ j =>
                  rw [doubled_succ]
                  exact hbefore j (Nat.lt_of_succ_lt_succ hj)
      · next hstop =>
          refine .inr ⟨0, Nat.zero_le _, by rw [doubled_zero], ?_, by simp⟩
          rwa [doubled_zero]

/-- A capacity with room is not below the one the loop began at, unless that had room. -/
theorem le_of_hasRoom {capacity writePos len : UInt32} {k : ℕ}
    (hroom : HasRoom capacity writePos len k)
    (hbefore : ∀ j < k, doubled capacity j - writePos < len) :
    capacity ≤ doubled capacity k := by
  cases k with
  | zero =>
      rw [doubled_zero]
      exact UInt32.le_refl _
  | succ k =>
      have hfirst := hbefore 0 (Nat.succ_pos k)
      have hno : ¬ HasRoom capacity writePos len 0 := fun h =>
        (not_sub_lt_iff capacity writePos len 0).mpr (.inl h) hfirst
      rw [HasRoom, doubled_zero] at hno
      rw [HasRoom] at hroom
      rw [UInt32.le_iff_toNat_le]
      omega

/-- Behind a growth to `capLen` the bytes written are those from before. -/
theorem written_grown (m : FreshMemory) {buf : Buffer} (h : buf.Sized) (capLen : UInt32) :
    (buf.data.take buf.writePos.toNat ++ (m.block capLen.toNat).drop buf.writePos.toNat).take
      buf.writePos.toNat = buf.written := by
  have hle := UInt32.le_iff_toNat_le.mp h.writePos_le
  exact List.take_left' (by rw [List.length_take, h.length_data, Nat.min_eq_left hle])

/-- When the loop ends with room, the call keeps its promise. -/
theorem keepsPromise_of_hasRoom (m : FreshMemory) {buf : Buffer} (h : buf.Sized) {len : UInt32}
    {k : ℕ} (hloop : checkCapacityLoop buf.writePos len 32 buf.capacity =
      some (doubled buf.capacity k))
    (hroom : HasRoom buf.capacity buf.writePos len k)
    (hle : buf.capacity ≤ doubled buf.capacity k) : KeepsPromise m buf len := by
  have hgrows : ∀ capLen ∈ checkCapacityLoop buf.writePos len 32 buf.capacity,
      buf.capacity ≤ capLen := by
    rw [hloop]
    rintro capLen ⟨⟩
    exact hle
  by_cases hgrow : doubled buf.capacity k > buf.capacity
  · have hcall : checkCapacity m buf len = (0, { buf with
        data := buf.data.take buf.writePos.toNat ++
          (m.block (doubled buf.capacity k).toNat).drop buf.writePos.toNat
        capacity := doubled buf.capacity k }) := by
      simp only [checkCapacity, hloop, if_pos hgrow]
    refine ⟨?_, ?_, ?_, hgrows⟩ <;> rw [hcall]
    · exact fun _ => hroom
    · exact fun _ => ⟨rfl, written_grown m h _⟩
    · exact fun hne => absurd rfl hne
  · have hcall : checkCapacity m buf len = (0, buf) := by
      simp only [checkCapacity, hloop, if_neg hgrow]
    have heq : doubled buf.capacity k = buf.capacity :=
      UInt32.le_antisymm (UInt32.not_lt.mp hgrow) hle
    rw [HasRoom, heq] at hroom
    refine ⟨?_, ?_, ?_, hgrows⟩ <;> rw [hcall]
    · exact fun _ => hroom
    · exact fun _ => ⟨rfl, rfl⟩
    · exact fun hne => absurd rfl hne

/-- `CheckCapacity` keeps its promise exactly when no capacity wraps before one has room. -/
theorem keepsPromise_iff (m : FreshMemory) {buf : Buffer} (h : buf.Sized) (len : UInt32) :
    KeepsPromise m buf len ↔ RoomFirst buf.capacity buf.writePos len := by
  have hiff := not_sub_lt_iff buf.capacity buf.writePos len
  have hwle := UInt32.le_iff_toNat_le.mp h.writePos_le
  rcases checkCapacityLoop_first buf.writePos len 32 buf.capacity with
    ⟨hnone, hall⟩ | ⟨i, hi, hsome, hstop, hbefore⟩
  · have hcall : checkCapacity m buf len = (-1, buf) := by
      simp only [checkCapacity, hnone]
    refine iff_of_true ⟨?_, ?_, fun _ => hcall, by simp [hnone]⟩ fun k hk hwraps =>
      absurd (hall k hk) ((hiff k).mpr (.inr hwraps))
    · simp [hcall]
    · simp [hcall]
  · constructor
    · intro hkeep k hk hwraps
      -- the loop ends at `i`, where the promise leaves only room
      have hge := UInt32.le_iff_toNat_le.mp (hkeep.grows _ hsome)
      have hroom : HasRoom buf.capacity buf.writePos len i :=
        ((hiff i).mp hstop).resolve_right fun hwraps => by
          have hlt := UInt32.lt_iff_toNat_lt.mp hwraps.1
          omega
      have hik : i ≤ k := Nat.le_of_not_lt fun hlt =>
        (hiff k).mpr (.inr hwraps) (hbefore k hlt)
      refine ⟨i, Nat.lt_of_le_of_ne hik fun heq => ?_, hroom⟩
      subst heq
      have hlt := UInt32.lt_iff_toNat_lt.mp hwraps.1
      omega
    · intro hfirst
      have hroom : HasRoom buf.capacity buf.writePos len i :=
        ((hiff i).mp hstop).resolve_right fun hwraps => by
          obtain ⟨j, hj, hroom⟩ := hfirst i hi hwraps
          exact (hiff j).mpr (.inl hroom) (hbefore j hj)
      exact keepsPromise_of_hasRoom m h hsome hroom (le_of_hasRoom hroom hbefore)

/-- A new buffer with one byte written. -/
def oneWritten : Buffer := ⟨List.replicate 128 7, 1, 0, 128⟩

theorem sized_oneWritten : oneWritten.Sized := ⟨List.length_replicate, by decide, by decide⟩

/-- The capacity `2^c` behind `k` doublings. -/
theorem toNat_doubled_pow {capacity : UInt32} {c : ℕ} (hcap : capacity.toNat = 2 ^ c) (k : ℕ) :
    (doubled capacity k).toNat = if c + k < 32 then 2 ^ (c + k) else 0 := by
  rw [toNat_doubled, hcap, ← pow_add]
  split
  · next hlt => exact Nat.mod_eq_of_lt (Nat.pow_lt_pow_right (by decide) hlt)
  · next hge => exact Nat.mod_eq_zero_of_dvd (pow_dvd_pow 2 (Nat.le_of_not_lt hge))

/-- The capacities that `NewBuffer` and `CheckCapacity` make are powers of two. For one of
them the condition is about the end of the bytes to come only. -/
theorem roomFirst_pow_iff {capacity writePos : UInt32} {c : ℕ} (hcap : capacity.toNat = 2 ^ c)
    (hle : writePos ≤ capacity) (len : UInt32) :
    RoomFirst capacity writePos len ↔ writePos = 0 ∨
      writePos.toNat + len.toNat ≤ 2 ^ 31 ∨ 2 ^ 32 < writePos.toNat + len.toNat := by
  have hc : c < 32 := by
    have hlt := capacity.toNat_lt
    rw [hcap] at hlt
    exact (Nat.pow_lt_pow_iff_right (by decide)).mp hlt
  have hle' := UInt32.le_iff_toNat_le.mp hle
  constructor
  · intro hfirst
    by_contra hno
    obtain ⟨hpos, hno⟩ := not_or.mp hno
    obtain ⟨hbig, hsmall⟩ := not_or.mp hno
    have hpos' : 0 < writePos.toNat :=
      Nat.pos_of_ne_zero fun h0 => hpos (UInt32.toNat_inj.mp h0)
    -- the doubling that makes the capacity zero
    have hzero : (doubled capacity (32 - c)).toNat = 0 := by
      rw [toNat_doubled_pow hcap, if_neg (by omega)]
    obtain ⟨j, hj, hroom⟩ := hfirst (32 - c) (by omega)
      ⟨by rw [UInt32.lt_iff_toNat_lt]; omega, by omega⟩
    rw [HasRoom, toNat_doubled_pow hcap, if_pos (by omega)] at hroom
    have hpow : 2 ^ (c + j) ≤ 2 ^ 31 := Nat.pow_le_pow_right (by decide) (by omega)
    omega
  · intro hcond k hk hwraps
    obtain ⟨hbelow, hlen⟩ := hwraps
    rw [UInt32.lt_iff_toNat_lt, toNat_doubled_pow hcap] at hbelow
    rw [toNat_doubled_pow hcap] at hlen
    split at hbelow
    · -- the capacity has not overflowed, and is not below the first one
      have hpow : 2 ^ c ≤ 2 ^ (c + k) := Nat.pow_le_pow_right (by decide) (Nat.le_add_right c k)
      omega
    · next hover =>
        rw [if_neg hover] at hlen
        have hfits : writePos.toNat + len.toNat ≤ 2 ^ 31 := by
          rcases hcond with rfl | hfits | hbig
          · exact absurd hbelow (by decide)
          · exact hfits
          · omega
        refine ⟨31 - c, by omega, ?_⟩
        rw [HasRoom, toNat_doubled_pow hcap, if_pos (by omega), Nat.add_sub_of_le (by omega)]
        exact hfits

/-- Ten bytes more. -/
theorem keepsPromise_tenBytes : oneWritten.Sized ∧ KeepsPromise zeroMemory oneWritten 10 :=
  ⟨sized_oneWritten, (keepsPromise_iff zeroMemory sized_oneWritten 10).mpr
    ((roomFirst_pow_iff (c := 7) rfl (by decide) 10).mpr (.inr (.inl (by decide))))⟩

/-- A request for half the address space is answered with 0, and there is no room. -/
theorem checkCapacity_noRoom :
    ¬ ∀ (m : FreshMemory) (buf : Buffer) (len : UInt32), buf.Sized → KeepsPromise m buf len := by
  intro hall
  have hroom := (hall zeroMemory oneWritten 0x80000000 sized_oneWritten).room
  revert hroom
  decide +kernel

end Edp
