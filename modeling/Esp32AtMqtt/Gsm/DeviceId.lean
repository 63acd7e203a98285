import Mathlib.Algebra.Order.Ring.Nat
import Mathlib.Data.List.Induction
import Mathlib.Data.List.GetD
import Mathlib.Data.Nat.Digits.Defs
import Mathlib.Data.Nat.ModEq
import Mathlib.Tactic.Common

/-!
# The id of the device

`MakeDeviceID` makes the id of the device out of the last fifteen digits of its SIM id. They are
read from back to front, and the id is `dz` with three times the number less 100010001 behind it,
all in 64 bits. The number is too large for the six bytes behind `dz` in most cases, and may be
smaller than what is taken from it; then the first bytes are not `dz`
(`wellFormed_and_unique_iff`). Ids of different numbers always differ.
-/

namespace Gsm

/-- A SIM id of twenty ASCII digits. -/
structure SimId where
  content : List UInt8
  size : content.length = 20
  digits : ∀ b ∈ content, 0x30 ≤ b.toNat ∧ b.toNat ≤ 0x39

/-- One round of the loop over the digits. -/
def foldDigit (tempDeviceID : UInt64) (digit : UInt8) : UInt64 :=
  (tempDeviceID + digit.toUInt64) * 10

/-- `TempDeviceID` behind the loop. -/
def foldDigits (tempSIMID : List UInt8) : UInt64 :=
  (List.range 15).foldl (fun t i => foldDigit t (tempSIMID.getD (20 - (i + 1)) 0)) 0

/-- `TempDeviceID` at the end. -/
def tempDeviceID (simid : List UInt8) : UInt64 :=
  let tempSIMID := (List.range 20).map fun i => simid.getD i 0 - 0x30
  0x647A000000000000 + (foldDigits tempSIMID / 10 - 100010001) * 3

/-- `MakeDeviceID(SIMID)`: what it stores in `Systempara.DeviceID`; the processor has the low byte
of a number in front. -/
def makeDeviceID (simid : List UInt8) : List UInt8 :=
  let id := tempDeviceID simid
  (List.range 8).map fun i => (id >>> UInt64.ofNat (8 * (7 - i))).toUInt8

namespace SimId

variable (simid : SimId)

/-- The digits of the id. -/
def digitList : List ℕ := simid.content.map fun b => b.toNat - 0x30

/-- The number with the last fifteen digits, read from back to front. -/
def number : ℕ := Nat.ofDigits 10 (simid.digitList.drop 5)

/-- The first two bytes of the device id are `dz`. -/
def WellFormed : Prop := (makeDeviceID simid.content).take 2 = [0x64, 0x7A]

end SimId

section Digits

variable (simid : SimId)

theorem digitList_lt : ∀ d ∈ simid.digitList, d < 10 := by
  intro d hd
  obtain ⟨b, hb, rfl⟩ := List.mem_map.mp hd
  have hdigit := simid.digits b hb
  omega

theorem length_drop_digitList : (simid.digitList.drop 5).length = 15 := by
  rw [List.length_drop, SimId.digitList, List.length_map, simid.size]

theorem number_lt : simid.number < 10 ^ 15 := by
  have hlt := Nat.ofDigits_lt_base_pow_length (b := 10) (l := simid.digitList.drop 5) (by decide)
    fun d hd => digitList_lt simid d (List.mem_of_mem_drop hd)
  rw [length_drop_digitList] at hlt
  exact hlt

/-- Fifteen digits are known from their number. -/
theorem drop_digitList_inj {simid simid' : SimId} (h : simid.number = simid'.number) :
    simid.digitList.drop 5 = simid'.digitList.drop 5 := by
  apply Nat.ofDigits_inj_of_len_eq (b := 10) (by decide)
  · rw [length_drop_digitList, length_drop_digitList]
  · exact fun d hd => digitList_lt simid d (List.mem_of_mem_drop hd)
  · exact fun d hd => digitList_lt simid' d (List.mem_of_mem_drop hd)
  · exact h

/-- The digits are known from their values. -/
theorem content_eq : simid.content = simid.digitList.map fun d => UInt8.ofNat (d + 0x30) := by
  rw [SimId.digitList, List.map_map]
  nth_rewrite 1 [← List.map_id simid.content]
  apply List.map_congr_left
  intro b hb
  have hdigit := simid.digits b hb
  show b = UInt8.ofNat (b.toNat - 0x30 + 0x30)
  rw [Nat.sub_add_cancel hdigit.1, UInt8.ofNat_toNat]

theorem drop_content_inj {simid simid' : SimId} (h : simid.number = simid'.number) :
    simid.content.drop 5 = simid'.content.drop 5 := by
  rw [content_eq simid, content_eq simid', ← List.map_drop, ← List.map_drop, drop_digitList_inj h]

end Digits

/-- The loop without its overflow. -/
theorem toNat_foldl_foldDigit (ds : List UInt8) (hlen : ds.length ≤ 15)
    (hlt : ∀ d ∈ ds, d.toNat < 10) :
    (ds.foldl foldDigit 0).toNat = 10 * Nat.ofDigits 10 (ds.reverse.map UInt8.toNat) := by
  induction ds using List.reverseRecOn with
  | nil => rfl
  | append_singleton ds d ih =>
      rw [List.length_append] at hlen
      have hprefix : ∀ e ∈ ds, e.toNat < 10 := fun e he => hlt e (List.mem_append_left _ he)
      have hd : d.toNat < 10 := hlt d (List.mem_append_right _ (List.mem_singleton_self d))
      have hbound : Nat.ofDigits 10 (ds.reverse.map UInt8.toNat) < 10 ^ 14 := by
        have hdigits := Nat.ofDigits_lt_base_pow_length (b := 10)
          (l := ds.reverse.map UInt8.toNat) (by decide) (by
            intro e he
            obtain ⟨b, hb, rfl⟩ := List.mem_map.mp he
            exact hprefix b (List.mem_reverse.mp hb))
        rw [List.length_map, List.length_reverse] at hdigits
        exact hdigits.trans_le (Nat.pow_le_pow_right (by decide) (Nat.le_of_succ_le_succ hlen))
      rw [List.foldl_append, List.foldl_cons, List.foldl_nil, foldDigit, UInt64.toNat_mul,
        UInt64.toNat_add, ih (Nat.le_of_succ_le hlen) hprefix, UInt8.toNat_toUInt64,
        List.reverse_append, List.reverse_singleton, List.singleton_append, List.map_cons,
        Nat.ofDigits_cons]
      show (10 * _ + d.toNat) % 2 ^ 64 * 10 % 2 ^ 64 = 10 * (d.toNat + 10 * _)
      omega

section Id

variable (simid : SimId)

theorem toNat_sub_zero {b : UInt8} (h : 0x30 ≤ b.toNat) : (b - 0x30).toNat = b.toNat - 0x30 := by
  have hb := b.toNat_lt
  rw [UInt8.toNat_sub]
  show (256 - 48 + b.toNat) % 256 = b.toNat - 48
  omega

/-- The digits in the order of the loop. -/
theorem loopDigits_eq :
    (List.range 15).map (fun i => ((List.range 20).map fun i => simid.content.getD i 0 - 0x30).getD
      (20 - (i + 1)) 0) = ((simid.content.drop 5).map (· - 0x30)).reverse := by
  have hsize := simid.size
  apply List.ext_getElem
  · rw [List.length_map, List.length_range, List.length_reverse, List.length_map, List.length_drop,
      hsize]
  · intro i hi hi'
    rw [List.length_map, List.length_range] at hi
    have hread :
        ((List.range 20).map fun i => simid.content.getD i 0 - 0x30).getD (20 - (i + 1)) 0 =
          simid.content.getD (20 - (i + 1)) 0 - 0x30 := by
      rw [List.getD_eq_getElem?_getD, List.getElem?_map, List.getElem?_range (by omega)]
      rfl
    have hindex : 5 + (((simid.content.drop 5).map (· - 0x30)).length - 1 - i) = 20 - (i + 1) := by
      rw [List.length_map, List.length_drop, hsize]
      omega
    rw [List.getElem_map, List.getElem_range, hread, List.getElem_reverse, List.getElem_map,
      List.getElem_drop, ← List.getD_eq_getElem _ 0, hindex]

theorem toNat_foldDigits :
    (foldDigits ((List.range 20).map fun i => simid.content.getD i 0 - 0x30)).toNat =
      10 * simid.number := by
  have hdrop : (simid.content.drop 5).map (fun b => (b - 0x30).toNat) = simid.digitList.drop 5 := by
    rw [SimId.digitList, ← List.map_drop]
    apply List.map_congr_left
    intro b hb
    exact toNat_sub_zero (simid.digits b (List.mem_of_mem_drop hb)).1
  rw [foldDigits, ← List.foldl_map (f := fun i => List.getD _ (20 - (i + 1)) 0), loopDigits_eq,
    toNat_foldl_foldDigit]
  · rw [List.reverse_reverse, List.map_map]
    exact congrArg (10 * Nat.ofDigits 10 ·) hdrop
  · rw [List.length_reverse, List.length_map, List.length_drop, simid.size]
  · intro d hd
    obtain ⟨b, hb, rfl⟩ := List.mem_map.mp (List.mem_reverse.mp hd)
    have hdigit := simid.digits b (List.mem_of_mem_drop hb)
    show (b - 0x30).toNat < 10
    rw [toNat_sub_zero hdigit.1]
    omega

/-- The id as a number; the difference may be negative. -/
theorem toNat_tempDeviceID :
    (tempDeviceID simid.content).toNat =
      (0x647A000000000000 + 3 * (2 ^ 64 - 100010001 + simid.number)) % 2 ^ 64 := by
  have hlt := number_lt simid
  rw [tempDeviceID, UInt64.toNat_add, UInt64.toNat_mul, UInt64.toNat_sub, UInt64.toNat_div,
    toNat_foldDigits]
  show (0x647A000000000000 + (2 ^ 64 - 100010001 + 10 * simid.number / 10) % 2 ^ 64 * 3 % 2 ^ 64) %
    2 ^ 64 = _
  omega

end Id

/-- A byte of the id. -/
theorem toNat_byte (id : UInt64) {i : ℕ} (h : i < 8) :
    (id >>> UInt64.ofNat (8 * (7 - i))).toUInt8.toNat = id.toNat / 2 ^ (8 * (7 - i)) % 256 := by
  rw [UInt64.toNat_toUInt8, UInt64.toNat_shiftRight, UInt64.toNat_ofNat',
    Nat.shiftRight_eq_div_pow]
  congr 3
  omega

/-- A number is known from its bytes. -/
theorem bytes_inj {id id' : UInt64}
    (h : (List.range 8).map (fun i => (id >>> UInt64.ofNat (8 * (7 - i))).toUInt8) =
      (List.range 8).map fun i => (id' >>> UInt64.ofNat (8 * (7 - i))).toUInt8) : id = id' := by
  have hbyte : ∀ i, i < 8 → id.toNat / 2 ^ (8 * (7 - i)) % 256 =
      id'.toNat / 2 ^ (8 * (7 - i)) % 256 := by
    intro i hi
    have heq := List.map_inj_left.mp h i (List.mem_range.mpr hi)
    rw [← toNat_byte id hi, ← toNat_byte id' hi, heq]
  -- From the highest byte down, what is above a place is the same in both.
  have habove : ∀ i, i ≤ 8 → id.toNat / 2 ^ (8 * (8 - i)) = id'.toNat / 2 ^ (8 * (8 - i)) := by
    intro i
    induction i with
    | zero =>
        intro _
        rw [Nat.div_eq_of_lt id.toNat_lt, Nat.div_eq_of_lt id'.toNat_lt]
    | succ i ih =>
        intro hi
        have hsplit : ∀ v : ℕ, v / 2 ^ (8 * (8 - i)) = v / 2 ^ (8 * (7 - i)) / 256 := by
          intro v
          rw [Nat.div_div_eq_div_mul]
          congr 1
          rw [show 8 * (8 - i) = 8 * (7 - i) + 8 by omega, Nat.pow_add]
        have hhigh := ih (Nat.le_of_succ_le hi)
        rw [hsplit, hsplit] at hhigh
        have hlow := hbyte i hi
        have hplace : 8 - (i + 1) = 7 - i := by omega
        rw [hplace]
        omega
  exact UInt64.toNat_inj.mp (by simpa using habove 8 le_rfl)

/-- What stands behind `dz`, or is borrowed from it. -/
theorem toNat_tempDeviceID_cases (simid : SimId) :
    simid.number < 100010001 ∧ (tempDeviceID simid.content).toNat =
        0x647A * 2 ^ 48 - 3 * (100010001 - simid.number) ∨
      100010001 ≤ simid.number ∧ (tempDeviceID simid.content).toNat =
        0x647A * 2 ^ 48 + 3 * (simid.number - 100010001) := by
  have hlt := number_lt simid
  rw [toNat_tempDeviceID]
  omega

/-- The first two bytes are what stands above the lower six. -/
theorem wellFormed_iff_div (simid : SimId) :
    simid.WellFormed ↔ (tempDeviceID simid.content).toNat / 2 ^ 48 = 0x647A := by
  have hlt := (tempDeviceID simid.content).toNat_lt
  have hfirst := toNat_byte (tempDeviceID simid.content) (by decide : 0 < 8)
  have hsecond := toNat_byte (tempDeviceID simid.content) (by decide : 1 < 8)
  have hbytes : (makeDeviceID simid.content).take 2 =
      [(tempDeviceID simid.content >>> UInt64.ofNat (8 * (7 - 0))).toUInt8,
        (tempDeviceID simid.content >>> UInt64.ofNat (8 * (7 - 1))).toUInt8] := rfl
  rw [SimId.WellFormed, hbytes, List.cons.injEq, List.cons.injEq, and_iff_left rfl,
    ← UInt8.toNat_inj, ← UInt8.toNat_inj, hfirst, hsecond]
  show _ / 2 ^ 56 % 256 = 100 ∧ _ / 2 ^ 48 % 256 = 122 ↔ _
  omega

theorem wellFormed_iff (simid : SimId) :
    simid.WellFormed ↔ 100010001 ≤ simid.number ∧ simid.number ≤ 93825092246886 := by
  have hlt := number_lt simid
  rw [wellFormed_iff_div]
  rcases toNat_tempDeviceID_cases simid with ⟨hsmall, hid⟩ | ⟨hlarge, hid⟩
  · rw [hid]
    omega
  · rw [hid]
    omega

/-- Three is prime to the modulus, so nothing is lost. -/
theorem number_inj {simid simid' : SimId}
    (h : makeDeviceID simid.content = makeDeviceID simid'.content) :
    simid.number = simid'.number := by
  have hbound : 10 ^ 15 < 2 ^ 64 := by decide
  have hlt := (number_lt simid).trans hbound
  have hlt' := (number_lt simid').trans hbound
  have hid := congrArg UInt64.toNat (bytes_inj h)
  rw [toNat_tempDeviceID, toNat_tempDeviceID] at hid
  have hthree : 2 ^ 64 - 100010001 + simid.number ≡ 2 ^ 64 - 100010001 + simid'.number
      [MOD 2 ^ 64] :=
    Nat.ModEq.cancel_left_of_coprime (Nat.Coprime.pow_left 64 (by decide : Nat.Coprime 2 3))
      (Nat.ModEq.add_left_cancel' _ hid)
  exact (Nat.ModEq.add_left_cancel' _ hthree).eq_of_lt_of_lt hlt hlt'

/-- The ids are what they should be exactly for the numbers that fit behind `dz`, and ids of
different numbers differ always. -/
theorem wellFormed_and_unique_iff (simid : SimId) :
    (simid.WellFormed ∧ ∀ simid' : SimId, simid.content.drop 5 ≠ simid'.content.drop 5 →
        makeDeviceID simid.content ≠ makeDeviceID simid'.content) ↔
      100010001 ≤ simid.number ∧ simid.number ≤ 93825092246886 := by
  rw [wellFormed_iff, and_iff_left]
  intro simid' hne heq
  exact hne (drop_content_inj (number_inj heq))

/-- A SIM id of ones. -/
theorem length_ones : (List.replicate 20 (0x31 : UInt8)).length = 20 := List.length_replicate

theorem digits_ones : ∀ b ∈ List.replicate 20 (0x31 : UInt8), 0x30 ≤ b.toNat ∧ b.toNat ≤ 0x39 := by
  intro b hb
  obtain rfl := List.eq_of_mem_replicate hb
  decide

def simOnes : SimId := ⟨List.replicate 20 0x31, length_ones, digits_ones⟩

/-- For twenty ones, what is behind `dz` has more than six bytes. -/
theorem makeDeviceID_ones :
    ¬ ∀ simid : SimId, simid.WellFormed ∧
      ∀ simid' : SimId, simid.content.drop 5 ≠ simid'.content.drop 5 →
        makeDeviceID simid.content ≠ makeDeviceID simid'.content := by
  intro hall
  have hbound := ((wellFormed_iff simOnes).mp (hall simOnes).1).2
  have hnumber : simOnes.number = 111111111111111 := by decide
  rw [hnumber] at hbound
  exact absurd hbound (by decide)

end Gsm
