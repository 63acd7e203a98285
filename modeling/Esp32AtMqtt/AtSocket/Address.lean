import Esp32AtMqtt.Codec.Decimal
import Mathlib.Data.List.Induction

/-!
# Addresses as texts

`ipaddr_to_ipstr` prints the four bytes of an address with dots between them, and `ipstr_to_u32`
reads them back with `ipstr_atol`, which takes white space, a sign and a number of any length. Of
what is printed nothing is cut off, and it is read back as the same address (`ipstr_roundTrip`). A
text is here the array that it stands in, from the pointer on; a function that reads behind it
gives `none`.
-/

namespace AtSock

open Decimal

/-- `NIPQUAD(addr)`; the processor has the low byte of a number in front. -/
def nipquad (addr : UInt32) : List UInt8 :=
  (List.range 4).map fun k => (addr >>> UInt32.ofNat (8 * k)).toUInt8

/-- `*(uint32_t *) ipBytes`. -/
def ipBytesToU32 (ipBytes : List UInt8) : UInt32 :=
  (ipBytes.getD 0 0).toUInt32 + (ipBytes.getD 1 0).toUInt32 * 0x100 +
    (ipBytes.getD 2 0).toUInt32 * 0x10000 + (ipBytes.getD 3 0).toUInt32 * 0x1000000

/-- Four texts with dots between them. -/
def dotted (a b c d : List UInt8) : List UInt8 := a ++ 0x2E :: (b ++ 0x2E :: (c ++ 0x2E :: d))

/-- What `rt_snprintf` prints for an address, if it prints numbers right. -/
def ipaddrText (addr : UInt32) : List UInt8 :=
  let byte := fun k => text ((nipquad addr).getD k 0).toNat
  dotted (byte 0) (byte 1) (byte 2) (byte 3)

/-- `ipaddr_to_ipstr(sockaddr, ipstr)`: what is stored in `ipstr`, which has 16 bytes. -/
def ipaddrToIpstr (addr : UInt32) : List UInt8 := (ipaddrText addr).take 15 ++ [0]

/-- The digits of a number without its sign. -/
def ipstrDigits (ds : List UInt8) : UInt32 :=
  ds.foldl (fun total b => 10 * total + (b - 0x30).toUInt32) 0

/-- `ipstr_atol(nptr)`. -/
def ipstrAtol (nptr : List UInt8) : Option UInt32 :=
  match nptr.dropWhile isSpace with
  | [] => none
  | b :: rest =>
      let digits := if b = 0x2D ∨ b = 0x2B then rest else b :: rest
      let total := ipstrDigits (digits.takeWhile isDigit)
      if digits.dropWhile isDigit = [] then none
      else some (if b = 0x2D then -total else total)

/-- `strchr(s, ch)`: how far behind `s` the character is, or a null pointer. -/
def strchr (s : List UInt8) (ch : UInt8) : Option (Option ℕ) :=
  let front := s.takeWhile fun b => b ≠ ch && b ≠ 0
  match s.drop front.length with
  | [] => none
  | b :: _ => some (if b = ch then some front.length else none)

/-- The loop of `ipstr_to_u32` with `n` rounds to go: the bytes that it stores. -/
def ipstrLoop : ℕ → List UInt8 → Option (List UInt8)
  | 0, _ => some []
  | n + 1, ipstr => do
      let byte ← ipstrAtol ipstr
      match ← strchr ipstr 0x2E with
      | none => pure [byte.toUInt8]
      | some k =>
          let later ← ipstrLoop n (ipstr.drop (k + 1))
          pure (byte.toUInt8 :: later)

/-- `ipstr_to_u32(ipstr)`. -/
def ipstrToU32 (ipstr : List UInt8) : Option UInt32 := (ipstrLoop 4 ipstr).map ipBytesToU32

/-! ## Reading -/

section Read

variable {ds rest : List UInt8}

theorem toNat_sub_digit {b : UInt8} (h : isDigit b = true) : (b - 0x30).toNat = digitValue b := by
  have hge : 0x30 ≤ b := of_decide_eq_true (Bool.and_eq_true_iff.mp h).1
  have hnat : 48 ≤ b.toNat := UInt8.le_iff_toNat_le.mp hge
  have hlt := b.toNat_lt
  rw [UInt8.toNat_sub, digitValue]
  show (256 - 48 + b.toNat) % 256 = b.toNat - 48
  omega

/-- A number is read modulo 2^32. -/
theorem toNat_ipstrDigits (hds : ∀ b ∈ ds, isDigit b = true) :
    (ipstrDigits ds).toNat = value ds % 2 ^ 32 := by
  induction ds using List.reverseRecOn with
  | nil => rfl
  | append_singleton ds b ih =>
      have hlast := toNat_sub_digit (hds b (List.mem_append_right _ (List.mem_singleton_self b)))
      have hfront := ih fun c hc => hds c (List.mem_append_left _ hc)
      have hround : ipstrDigits (ds ++ [b]) = 10 * ipstrDigits ds + (b - 0x30).toUInt32 := by
        rw [ipstrDigits, List.foldl_append]
        rfl
      rw [hround, UInt32.toNat_add, UInt32.toNat_mul, hfront, UInt8.toNat_toUInt32, hlast,
        value_append_singleton]
      show (10 * (value ds % 2 ^ 32) % 2 ^ 32 + digitValue b) % 2 ^ 32 = _
      omega

theorem dropWhile_isDigit (hds : ∀ b ∈ ds, isDigit b = true)
    (hrest : ∀ b ∈ rest.head?, isDigit b = false) : (ds ++ rest).dropWhile isDigit = rest := by
  rw [List.dropWhile_append_of_pos hds]
  cases rest with
  | nil => rfl
  | cons b rest => exact List.dropWhile_cons_of_neg (by simp [hrest b rfl])

/-- Digits are read up to what stands behind them, which has to be there. -/
theorem ipstrAtol_append (rest : List UInt8) (hne : ds ≠ []) (hds : ∀ b ∈ ds, isDigit b = true)
    (hrest : ∀ b ∈ rest.head?, isDigit b = false) :
    ipstrAtol (ds ++ rest) = if rest = [] then none else some (ipstrDigits ds) := by
  have htake := takeWhile_isDigit hds hrest
  have hdrop := dropWhile_isDigit hds hrest
  obtain ⟨b, ds, rfl⟩ := List.exists_cons_of_ne_nil hne
  obtain ⟨hspace, hminus, hplus⟩ := not_isSpace_of_isDigit (hds b List.mem_cons_self)
  have hskip : (b :: ds ++ rest).dropWhile isSpace = b :: (ds ++ rest) := by
    rw [List.cons_append, List.dropWhile_cons_of_neg (by simp [hspace])]
  rw [ipstrAtol, hskip]
  dsimp only
  rw [if_neg (not_or.mpr ⟨hminus, hplus⟩), if_neg hminus, ← List.cons_append, htake, hdrop]

/-- Where a search stops. -/
theorem strchr_stop {front : List UInt8} {ch b : UInt8} (hfront : ∀ b ∈ front, b ≠ ch ∧ b ≠ 0)
    (hb : b = ch ∨ b = 0) :
    strchr (front ++ b :: rest) ch = some (if b = ch then some front.length else none) := by
  have htake : (front ++ b :: rest).takeWhile (fun b => b ≠ ch && b ≠ 0) = front := by
    rw [List.takeWhile_append_of_pos (by simpa using hfront),
      List.takeWhile_cons_of_neg (by simpa [or_iff_not_imp_left] using hb), List.append_nil]
  rw [strchr, htake, List.drop_left]

theorem strchr_append {front : List UInt8} {ch : UInt8} (hfront : ∀ b ∈ front, b ≠ ch ∧ b ≠ 0) :
    strchr (front ++ ch :: rest) ch = some (some front.length) := by
  rw [strchr_stop hfront (.inl rfl), if_pos rfl]

theorem strchr_end {front : List UInt8} {ch : UInt8} (hch : ch ≠ 0)
    (hfront : ∀ b ∈ front, b ≠ ch ∧ b ≠ 0) : strchr (front ++ 0 :: rest) ch = some none := by
  rw [strchr_stop hfront (.inr rfl), if_neg hch.symm]

theorem isDigit_ne_dot (hds : ∀ b ∈ ds, isDigit b = true) : ∀ b ∈ ds, b ≠ 0x2E ∧ b ≠ 0 := by
  intro b hb
  have hdigit := hds b hb
  constructor <;> rintro rfl <;> exact absurd hdigit (by decide)

/-- A round of the loop at a number with a dot behind it. -/
theorem ipstrLoop_dot (n : ℕ) (hne : ds ≠ []) (hds : ∀ b ∈ ds, isDigit b = true) :
    ipstrLoop (n + 1) (ds ++ 0x2E :: rest) =
      (ipstrLoop n rest).map ((ipstrDigits ds).toUInt8 :: ·) := by
  have hread := ipstrAtol_append (0x2E :: rest) hne hds (by simp [isDigit])
  have hnext : (ds ++ 0x2E :: rest).drop (ds.length + 1) = rest := by
    rw [← List.drop_drop, List.drop_left]
    rfl
  rw [ipstrLoop, hread, if_neg (List.cons_ne_nil _ _), strchr_append (isDigit_ne_dot hds)]
  simp only [Option.bind_eq_bind, Option.bind_some, hnext, Option.pure_def]
  rw [Option.map_eq_bind]
  rfl

/-- The last round, at a number with the end of the string behind it. -/
theorem ipstrLoop_end (n : ℕ) (hne : ds ≠ []) (hds : ∀ b ∈ ds, isDigit b = true) :
    ipstrLoop (n + 1) (ds ++ 0 :: rest) = some [(ipstrDigits ds).toUInt8] := by
  have hread := ipstrAtol_append (0 :: rest) hne hds (by simp [isDigit])
  rw [ipstrLoop, hread, if_neg (List.cons_ne_nil _ _), strchr_end (by decide) (isDigit_ne_dot hds)]
  rfl

/-- A number at the end of the array is read behind it. -/
theorem ipstrLoop_cut (n : ℕ) (hne : ds ≠ []) (hds : ∀ b ∈ ds, isDigit b = true) :
    ipstrLoop (n + 1) ds = none := by
  have hread := ipstrAtol_append [] hne hds (by simp)
  rw [List.append_nil] at hread
  rw [ipstrLoop, hread]
  rfl

end Read

/-- Digits that make one byte of an address. -/
structure Octet (ds : List UInt8) : Prop where
  digits : ds ≠ [] ∧ ∀ b ∈ ds, isDigit b = true
  fits : value ds ≤ 255

section Octets

variable {a b c d rest : List UInt8}

theorem toUInt8_ipstrDigits {ds : List UInt8} (h : Octet ds) :
    (ipstrDigits ds).toUInt8 = UInt8.ofNat (value ds) := by
  have hfits := h.fits
  apply UInt8.toNat_inj.mp
  rw [UInt32.toNat_toUInt8, toNat_ipstrDigits h.digits.2, UInt8.toNat_ofNat']
  omega

/-- The address with the four bytes. -/
def quadAddr (a b c d : List UInt8) : UInt32 :=
  ipBytesToU32 [UInt8.ofNat (value a), UInt8.ofNat (value b), UInt8.ofNat (value c),
    UInt8.ofNat (value d)]

/-- Four numbers are read as their address. -/
theorem ipstrToU32_dotted (ha : Octet a) (hb : Octet b) (hc : Octet c) (hd : Octet d) :
    ipstrToU32 (dotted a b c d ++ 0 :: rest) = some (quadAddr a b c d) := by
  have hshape : dotted a b c d ++ 0 :: rest =
      a ++ 0x2E :: (b ++ 0x2E :: (c ++ 0x2E :: (d ++ 0 :: rest))) := by
    rw [dotted]
    simp only [List.append_assoc, List.cons_append]
  rw [ipstrToU32, hshape, ipstrLoop_dot _ ha.digits.1 ha.digits.2,
    ipstrLoop_dot _ hb.digits.1 hb.digits.2, ipstrLoop_dot _ hc.digits.1 hc.digits.2,
    ipstrLoop_end _ hd.digits.1 hd.digits.2, toUInt8_ipstrDigits ha, toUInt8_ipstrDigits hb,
    toUInt8_ipstrDigits hc, toUInt8_ipstrDigits hd]
  rfl

/-- With no end behind them, the last one is read behind the array. -/
theorem ipstrToU32_dotted_cut (ha : Octet a) (hb : Octet b) (hc : Octet c) (hd : Octet d) :
    ipstrToU32 (dotted a b c d) = none := by
  rw [ipstrToU32, dotted, ipstrLoop_dot _ ha.digits.1 ha.digits.2,
    ipstrLoop_dot _ hb.digits.1 hb.digits.2, ipstrLoop_dot _ hc.digits.1 hc.digits.2,
    ipstrLoop_cut _ hd.digits.1 hd.digits.2]
  rfl

end Octets

/-! ## Printing -/

theorem octet_text {n : ℕ} (h : n ≤ 255) : Octet (text n) :=
  ⟨⟨text_ne_nil n, isDigit_text n⟩, by rwa [value_text]⟩

theorem length_text_le_three {n : ℕ} (h : n ≤ 255) : (text n).length ≤ 3 :=
  (length_text_le_iff (by decide)).mpr (Nat.lt_of_le_of_lt h (by decide))

theorem length_dotted (a b c d : List UInt8) :
    (dotted a b c d).length = a.length + b.length + c.length + d.length + 3 := by
  rw [dotted]
  simp only [List.length_append, List.length_cons]
  omega

theorem toNat_le (b : UInt8) : b.toNat ≤ 255 := Nat.le_of_lt_succ b.toNat_lt

/-- What is printed fits, with its end. -/
theorem length_ipaddrText (addr : UInt32) : (ipaddrText addr).length ≤ 15 := by
  rw [ipaddrText, length_dotted]
  dsimp only
  have h0 := length_text_le_three (toNat_le ((nipquad addr).getD 0 0))
  have h1 := length_text_le_three (toNat_le ((nipquad addr).getD 1 0))
  have h2 := length_text_le_three (toNat_le ((nipquad addr).getD 2 0))
  have h3 := length_text_le_three (toNat_le ((nipquad addr).getD 3 0))
  omega

theorem ipaddrToIpstr_eq (addr : UInt32) : ipaddrToIpstr addr = ipaddrText addr ++ [0] := by
  rw [ipaddrToIpstr, List.take_of_length_le (length_ipaddrText addr)]

theorem toNat_getD_nipquad (addr : UInt32) {k : ℕ} (h : k < 4) :
    ((nipquad addr).getD k 0).toNat = addr.toNat / 2 ^ (8 * k) % 256 := by
  rw [nipquad, List.getD_eq_getElem?_getD, List.getElem?_map, List.getElem?_range h]
  show (addr >>> UInt32.ofNat (8 * k)).toUInt8.toNat = _
  rw [UInt32.toNat_toUInt8, UInt32.toNat_shiftRight, UInt32.toNat_ofNat',
    Nat.shiftRight_eq_div_pow]
  congr 3
  omega

/-- An address is known from its bytes. -/
theorem ipBytesToU32_nipquad (addr : UInt32) : ipBytesToU32 (nipquad addr) = addr := by
  have h0 := toNat_getD_nipquad addr (by decide : 0 < 4)
  have h1 := toNat_getD_nipquad addr (by decide : 1 < 4)
  have h2 := toNat_getD_nipquad addr (by decide : 2 < 4)
  have h3 := toNat_getD_nipquad addr (by decide : 3 < 4)
  have hlt := addr.toNat_lt
  apply UInt32.toNat_inj.mp
  rw [ipBytesToU32, UInt32.toNat_add, UInt32.toNat_add, UInt32.toNat_add, UInt32.toNat_mul,
    UInt32.toNat_mul, UInt32.toNat_mul, UInt8.toNat_toUInt32, UInt8.toNat_toUInt32,
    UInt8.toNat_toUInt32, UInt8.toNat_toUInt32, h0, h1, h2, h3]
  show (((addr.toNat / 1 % 256 + addr.toNat / 2 ^ 8 % 256 * 0x100 % 2 ^ 32) % 2 ^ 32 +
    addr.toNat / 2 ^ 16 % 256 * 0x10000 % 2 ^ 32) % 2 ^ 32 +
      addr.toNat / 2 ^ 24 % 256 * 0x1000000 % 2 ^ 32) % 2 ^ 32 = addr.toNat
  omega

theorem ipstrToU32_ipaddrText (addr : UInt32) (rest : List UInt8) :
    ipstrToU32 (ipaddrText addr ++ 0 :: rest) = some addr := by
  rw [ipaddrText, ipstrToU32_dotted (octet_text (toNat_le _)) (octet_text (toNat_le _))
    (octet_text (toNat_le _)) (octet_text (toNat_le _)), quadAddr]
  simp only [value_text, UInt8.ofNat_toNat]
  exact congrArg some (ipBytesToU32_nipquad addr)

/-- The text of an address fits its array with its end, it is read back as the address, and no other
address has it. -/
theorem ipstr_roundTrip (addr : UInt32) (rest : List UInt8) :
    ipaddrToIpstr addr = ipaddrText addr ++ [0] ∧ (ipaddrToIpstr addr).length ≤ 16 ∧
      ipstrToU32 (ipaddrToIpstr addr ++ rest) = some addr ∧
        ∀ addr', addr ≠ addr' → ipaddrText addr ≠ ipaddrText addr' := by
  refine ⟨ipaddrToIpstr_eq addr, ?_, ?_, ?_⟩
  · rw [ipaddrToIpstr_eq, List.length_append]
    exact Nat.succ_le_succ (length_ipaddrText addr)
  · rw [ipaddrToIpstr_eq, List.append_assoc]
    exact ipstrToU32_ipaddrText addr rest
  · intro addr' hne heq
    have hread := ipstrToU32_ipaddrText addr []
    rw [heq, ipstrToU32_ipaddrText] at hread
    exact hne (Option.some.inj hread).symm

end AtSock
