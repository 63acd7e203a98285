import Esp32AtMqtt.Stream.Search

/-!
# A block of bytes in an array

`u8u8` of `gsm_comm.c` looks for the bytes of a reply among those received. The outer loop moves a
pointer through `des`, and the inner one runs along both arrays as far as they agree. A pointer is
here the place in its array, and a read outside gives `none`; `u8u8_eq_search` says that the two
loops are a search for the block and read nothing outside.
-/

namespace Gsm

/-- The inner loop with `n` rounds to go, at `temp_des`, `temp_src` and `j`: `j` when it is left. -/
def u8u8Inner (des src : List UInt8) : ℕ → ℕ → ℕ → ℕ → Option ℕ
  | 0, _, _, j => some j
  | n + 1, tempDes, tempSrc, j => do
      let a ← des[tempDes]?
      let b ← src[tempSrc]?
      if a ≠ b then some j else u8u8Inner des src n (tempDes + 1) (tempSrc + 1) (j + 1)

/-- The outer loop with `n` rounds to go, at `str_des`. -/
def u8u8Outer (des src : List UInt8) (srcLen : ℕ) : ℕ → ℕ → Option ℤ
  | 0, _ => some (-1)
  | n + 1, strDes => do
      let a ← des[strDes]?
      let b ← src[0]?
      if a ≠ b then u8u8Outer des src srcLen n (strDes + 1)
      else
        let j ← u8u8Inner des src srcLen strDes 0 0
        if j = srcLen then some 0 else u8u8Outer des src srcLen n (strDes + 1)

/-- `u8u8(des, desLen, src, srcLen)`. -/
def u8u8 (des : List UInt8) (desLen : UInt16) (src : List UInt8) (srcLen : UInt16) : Option ℤ :=
  let temp : ℤ := desLen.toNat - srcLen.toNat
  if temp < 0 then some (-1) else u8u8Outer des src srcLen.toNat (temp.toNat + 1) 0

section Loops

variable (des src : List UInt8)

/-- The inner loop counts how far the arrays agree. -/
theorem u8u8Inner_spec (n tempDes tempSrc j : ℕ) (hdes : tempDes + n ≤ des.length)
    (hsrc : tempSrc + n ≤ src.length) :
    ∃ k, u8u8Inner des src n tempDes tempSrc j = some (j + k) ∧
      (k = n ↔ (src.drop tempSrc).take n = (des.drop tempDes).take n) := by
  induction n generalizing tempDes tempSrc j with
  | zero => exact ⟨0, rfl, by simp⟩
  | succ n ih =>
      have hdesAt : tempDes < des.length := by omega
      have hsrcAt : tempSrc < src.length := by omega
      simp only [u8u8Inner, List.getElem?_eq_getElem hdesAt, List.getElem?_eq_getElem hsrcAt,
        List.drop_eq_getElem_cons hdesAt, List.drop_eq_getElem_cons hsrcAt, List.take_succ_cons,
        List.cons.injEq, Option.bind_eq_bind, Option.bind_some]
      by_cases heq : des[tempDes] = src[tempSrc]
      · obtain ⟨k, hk, hiff⟩ := ih (tempDes + 1) (tempSrc + 1) (j + 1) (by omega) (by omega)
        refine ⟨k + 1, ?_, ?_⟩
        · rw [if_neg (not_not.mpr heq), hk, Nat.add_right_comm, Nat.add_assoc]
        · rw [Nat.succ_inj, hiff, and_iff_right heq.symm]
      · refine ⟨0, if_pos heq, ?_⟩
        simp only [(Nat.succ_ne_zero n).symm, false_iff]
        exact fun hboth => heq hboth.1.symm

/-- Over the whole pattern it says whether the pattern stands there. -/
theorem u8u8Inner_whole (strDes : ℕ) (h : strDes + src.length ≤ des.length) :
    ∃ j, u8u8Inner des src src.length strDes 0 0 = some j ∧
      (j = src.length ↔ src <+: des.drop strDes) := by
  obtain ⟨k, hk, hiff⟩ := u8u8Inner_spec des src src.length strDes 0 0 h (Nat.zero_add _).le
  refine ⟨0 + k, hk, ?_⟩
  rw [Nat.zero_add, hiff, List.drop_zero, List.take_length, List.prefix_iff_eq_take]

/-- The outer loop finds the pattern in what is left of the array, in front of the places that are
too near to its end. -/
theorem u8u8Outer_eq {src : List UInt8} (hne : src ≠ []) (n strDes : ℕ)
    (h : strDes + n + src.length = des.length + 1) :
    u8u8Outer des src src.length n strDes =
      some (if src <:+: des.drop strDes then 0 else -1) := by
  have hpos : 0 < src.length := List.length_pos_iff.mpr hne
  induction n generalizing strDes with
  | zero =>
      have hshort : ¬ src <:+: des.drop strDes := by
        intro hinfix
        have hle := hinfix.length_le
        rw [List.length_drop] at hle
        omega
      rw [u8u8Outer, if_neg hshort]
  | succ n ih =>
      have hat : strDes < des.length := by omega
      have htail := ih (strDes + 1) (by omega)
      obtain ⟨j, hj, hiff⟩ := u8u8Inner_whole des src strDes (by omega)
      have hcons : src <:+: des.drop strDes ↔
          src <+: des.drop strDes ∨ src <:+: des.drop (strDes + 1) := by
        rw [List.drop_eq_getElem_cons hat, List.infix_cons_iff]
      simp only [u8u8Outer, List.getElem?_eq_getElem hat, List.getElem?_eq_getElem hpos, hj, hiff,
        htail, hcons, Option.bind_eq_bind, Option.bind_some]
      by_cases hpre : src <+: des.drop strDes
      · have hfirst : des[strDes] = src[0] := by
          rw [List.drop_eq_getElem_cons hat, List.prefix_iff_getElem] at hpre
          obtain ⟨_, hget⟩ := hpre
          exact (hget 0 hpos).symm
        rw [if_neg (not_not.mpr hfirst), if_pos hpre, if_pos (.inl hpre)]
      · simp only [hpre, if_false, false_or, ite_self]

end Loops

/-- The two loops are a search for the block. -/
theorem u8u8_eq_search {des src : List UInt8} {desLen srcLen : UInt16}
    (hdes : desLen.toNat = des.length) (hsrc : srcLen.toNat = src.length) (hne : src ≠ []) :
    u8u8 des desLen src srcLen = some (if (Search.search src des).isSome then 0 else -1) := by
  have hfound : (Search.search src des).isSome ↔ src <:+: des := by
    rw [← not_iff_not, ← Search.search_eq_none_iff, Bool.not_eq_true, Option.isSome_eq_false_iff,
      Option.isNone_iff_eq_none]
  rw [u8u8, hdes, hsrc]
  simp only [hfound]
  by_cases hfits : src.length ≤ des.length
  · have hrounds : ((des.length : ℤ) - src.length).toNat = des.length - src.length := by omega
    rw [if_neg (by omega), hrounds, u8u8Outer_eq des hne _ _ (by omega), List.drop_zero]
  · rw [if_pos (by omega), if_neg fun hinfix => hfits hinfix.length_le]

/-- A block of bytes is found exactly where it is, and nothing outside of the two arrays is read. -/
theorem u8u8_exact (des src : List UInt8) (desLen srcLen : UInt16)
    (hdes : desLen.toNat = des.length) (hsrc : srcLen.toNat = src.length) (hpos : 1 ≤ srcLen) :
    ∃ r, u8u8 des desLen src srcLen = some r ∧ (r = 0 ↔ src <:+: des) := by
  have hne : src ≠ [] := by
    rintro rfl
    rw [List.length_nil] at hsrc
    exact absurd (UInt16.le_iff_toNat_le.mp hpos) (by rw [hsrc]; decide)
  refine ⟨_, u8u8_eq_search hdes hsrc hne, ?_⟩
  rw [← not_iff_not, ← Search.search_eq_none_iff]
  cases Search.search src des with
  | none => simp
  | some i => simp

/-- The end of a partial match begins the match. -/
theorem u8u8_exact_aab :
    ∃ r, u8u8 [0x61, 0x61, 0x61, 0x62] 4 [0x61, 0x61, 0x62] 3 = some r ∧
      (r = 0 ↔ ([0x61, 0x61, 0x62] : List UInt8) <:+: [0x61, 0x61, 0x61, 0x62]) :=
  u8u8_exact _ _ 4 3 rfl rfl (by decide)

end Gsm
