import Esp32AtMqtt.Edp.Segment

/-!
# Reading the fields of an EDP packet

`ReadByte`, `ReadBytes`, `ReadUint16`, `ReadUint32`, `ReadStr` and `ReadRemainlen` of
`EdpKit.c`. Each tests in 32 bits that its bytes are there, reads them and moves `_read_pos`.
`Reading` is the packet with a record of what has been read from it and of the blocks that
have been asked for.

The functions whose names begin with `take` say what the fields are, on the list of the bytes
that are not read yet. A reader takes its field when the sum of `_read_pos` and the length does
not wrap.
-/

namespace Edp

open Base128

/-- Stands for a store through the null pointer. It is none of the codes of the kit. -/
def nullStore : ℤ := -2000

/-- The packet being read; the bytes of it that have been read, each range by its first index
and its length; and the blocks asked for, each by the bytes allocated and the bytes stored. -/
structure Reading where
  pkg : Buffer
  reads : List (ℕ × ℕ)
  blocks : List (ℕ × ℕ)
  deriving DecidableEq, Repr

/-- A function that reads: it returns 0 and a value, or a code. -/
abbrev Read (α : Type) := EStateM ℤ Reading α

/-- The packet before anything is read from it. -/
def Buffer.reading (pkg : Buffer) : Reading := ⟨pkg, [], []⟩

/-- `pkg->_data[pkg->_read_pos]`. -/
def Reading.current (r : Reading) : UInt8 := r.pkg.data.getD r.pkg.readPos.toNat 0

/-- The byte at `_read_pos` is read, and `_read_pos` incremented. -/
def Reading.next (r : Reading) : Reading :=
  { r with
    pkg := { r.pkg with readPos := r.pkg.readPos + 1 }
    reads := r.reads ++ [(r.pkg.readPos.toNat, 1)] }

/-- `ReadByte(pkg, val)`. -/
def readByte : Read UInt8 := fun r =>
  if r.pkg.readPos + 1 > r.pkg.writePos then .error (-1) r else .ok r.current r.next

/-- `ReadUint16(pkg, val)`. -/
def readUint16 : Read UInt16 := fun r =>
  if r.pkg.readPos + 2 > r.pkg.writePos then .error (-1) r
  else
    let msb := r.current
    let lsb := r.next.current
    .ok ((msb.toUInt16 <<< 8) + lsb.toUInt16) r.next.next

/-- The loop of `ReadUint32` with `n` iterations left. -/
def readUint32Loop : ℕ → UInt32 → Reading → UInt32 × Reading
  | 0, tmpval, r => (tmpval, r)
  | n + 1, tmpval, r => readUint32Loop n ((tmpval <<< 8) ||| r.current.toUInt32) r.next

/-- `ReadUint32(pkg, val)`. -/
def readUint32 : Read UInt32 := fun r =>
  if r.pkg.readPos + 4 > r.pkg.writePos then .error (-1) r
  else
    let v := readUint32Loop 4 0 r
    .ok v.1 v.2

/-- A block of `size` bytes is asked for, `stored` bytes are stored to it, `used` bytes of the
packet are read for it, and `_read_pos` moves by `count`. Whether the block is had depends on
how many were asked for before. -/
def Reading.copy (malloc : ℕ → Bool) (r : Reading) (size stored used : ℕ) (count : UInt32) :
    EStateM.Result ℤ Reading Unit :=
  if malloc r.blocks.length then
    .ok () {
      pkg := { r.pkg with readPos := r.pkg.readPos + count }
      reads := r.reads ++ [(r.pkg.readPos.toNat, used)]
      blocks := r.blocks ++ [(size, stored)] }
  else .error nullStore { r with blocks := r.blocks ++ [(0, stored)] }

/-- The bytes from `_read_pos` on. -/
def Reading.ahead (r : Reading) (count : ℕ) : List UInt8 :=
  (r.pkg.data.drop r.pkg.readPos.toNat).take count

/-- `ReadBytes(pkg, val, count)`. The block has `count + 1` bytes, in 32 bits, and as many are
set to zero before `count` bytes are copied. -/
def readBytes (malloc : ℕ → Bool) (count : UInt32) : Read (List UInt8) := fun r =>
  if r.pkg.readPos + count > r.pkg.writePos then .error (-1) r
  else
    match r.copy malloc (count + 1).toNat (max (count + 1).toNat count.toNat) count.toNat count with
    | .ok _ r' => .ok (r.ahead count.toNat) r'
    | .error e r' => .error e r'

/-- A string: the bytes in front of the first null byte. -/
def cString (s : List UInt8) : List UInt8 := s.takeWhile (· ≠ 0)

/-- `ReadStr(pkg, val)`, and the string that `*val` points to then. `strncpy` reads no byte
behind a null byte. -/
def readStr (malloc : ℕ → Bool) : Read (List UInt8) := do
  let len ← readUint16
  fun r =>
    if r.pkg.readPos + len.toUInt32 > r.pkg.writePos then .error (-1) r
    else
      let val := cString (r.ahead len.toNat)
      match r.copy malloc (len.toNat + 1) (len.toNat + 1) (min len.toNat (val.length + 1))
          len.toUInt32 with
      | .ok _ r' => .ok val r'
      | .error e r' => .error e r'

/-- The loop of `ReadRemainlen` with `n = 5 - len_len`. -/
def readRemainlenLoop : ℕ → UInt32 → UInt32 → Read UInt32
  | 0, _, _ => throw (-1)
  | n + 1, multiplier, lenVal => do
      let onebyte ← readByte
      let lenVal := lenVal + (onebyte &&& 0x7f).toUInt32 * multiplier
      if n = 0 then throw (-1)
      else if onebyte &&& 0x80 ≠ 0 then readRemainlenLoop n (multiplier * 0x80) lenVal
      else return lenVal

/-- `ReadRemainlen(pkg, len_val)`. -/
def readRemainlen : Read UInt32 := readRemainlenLoop 5 1 0

/-- The bytes that are not read yet. -/
def Buffer.unread (buf : Buffer) : List UInt8 := buf.written.drop buf.readPos.toNat

/-- A 16-bit number at the front. -/
def takeUint16 : List UInt8 → Option (UInt16 × List UInt8)
  | msb :: lsb :: bs => some ((msb.toUInt16 <<< 8) + lsb.toUInt16, bs)
  | _ => none

/-- A 32-bit number at the front. -/
def takeUint32 : List UInt8 → Option (UInt32 × List UInt8)
  | a :: b :: c :: d :: bs =>
      some ((((a.toUInt32 <<< 8 ||| b.toUInt32) <<< 8 ||| c.toUInt32) <<< 8 ||| d.toUInt32), bs)
  | _ => none

/-- So many bytes at the front. -/
def takeBytes (n : ℕ) (bs : List UInt8) : Option (List UInt8 × List UInt8) :=
  if n ≤ bs.length then some (bs.take n, bs.drop n) else none

/-- A string with its length in front. -/
def takeStr (bs : List UInt8) : Option (List UInt8 × List UInt8) :=
  (takeUint16 bs).bind fun len => (takeBytes len.1.toNat len.2).map fun s => (cString s.1, s.2)

/-- The bytes of the packet are there, and those read are among them. -/
structure Buffer.Held (buf : Buffer) : Prop where
  readPos_le : buf.readPos ≤ buf.writePos
  writePos_le : buf.writePos.toNat ≤ buf.data.length

/-- A read of `n` bytes that are not there does not wrap. -/
def Buffer.Fits (buf : Buffer) (n : ℕ) : Prop :=
  buf.unread.length < n → buf.readPos.toNat + n < 2 ^ 32

/-- `r'` comes after `r` in the same packet: what has been read since lies in front of
`_write_pos`, `rest` is left, and `k` blocks more have been asked for, none of them overrun. -/
structure Consumed (r r' : Reading) (rest : List UInt8) (k : ℕ) : Prop where
  held : r'.pkg.Held
  pkg_eq : r'.pkg = { r.pkg with readPos := r'.pkg.readPos }
  readPos_le : r.pkg.readPos ≤ r'.pkg.readPos
  unread_eq : r'.pkg.unread = rest
  reads : ∃ l, r'.reads = r.reads ++ l ∧
    ∀ x ∈ l, r.pkg.readPos.toNat ≤ x.1 ∧ x.1 + x.2 ≤ r.pkg.writePos.toNat
  blocks : ∃ l, r'.blocks = r.blocks ++ l ∧ l.length = k ∧ ∀ b ∈ l, b.2 ≤ b.1

/-- What a reader answers when `taken` stands at the front: the value, with the bytes behind it
left; or a code. -/
inductive Answers {α : Type} (r : Reading) (k : ℕ) :
    Option (α × List UInt8) → EStateM.Result ℤ Reading α → Prop
  | refused {e : ℤ} {r' : Reading} (hcode : e ≠ 0) (hnull : e ≠ nullStore)
      (hblocks : ∃ l, r'.blocks = r.blocks ++ l ∧ ∀ b ∈ l, b.2 ≤ b.1) :
      Answers r k none (.error e r')
  | taken {v : α} {rest : List UInt8} {r' : Reading} (h : Consumed r r' rest k) :
      Answers r k (some (v, rest)) (.ok v r')

theorem Buffer.Held.length_unread {buf : Buffer} (h : buf.Held) :
    buf.unread.length = buf.writePos.toNat - buf.readPos.toNat := by
  have hle := h.writePos_le
  rw [Buffer.unread, List.length_drop, Buffer.written, List.length_take, Nat.min_eq_left hle]

theorem Buffer.Held.add_length_unread {buf : Buffer} (h : buf.Held) :
    buf.readPos.toNat + buf.unread.length = buf.writePos.toNat := by
  have hle := UInt32.le_iff_toNat_le.mp h.readPos_le
  rw [h.length_unread]
  omega

theorem Consumed.writePos_eq {r r' : Reading} {rest : List UInt8} {k : ℕ}
    (h : Consumed r r' rest k) : r'.pkg.writePos = r.pkg.writePos := by
  rw [h.pkg_eq]

theorem Consumed.trans {r r' r'' : Reading} {rest rest' : List UInt8} {j k : ℕ}
    (h : Consumed r r' rest j) (h' : Consumed r' r'' rest' k) :
    Consumed r r'' rest' (j + k) := by
  obtain ⟨l, hl, hin⟩ := h.reads
  obtain ⟨l', hl', hin'⟩ := h'.reads
  obtain ⟨b, hb, hj, hgood⟩ := h.blocks
  obtain ⟨b', hb', hk, hgood'⟩ := h'.blocks
  have hpos := UInt32.le_iff_toNat_le.mp h.readPos_le
  refine ⟨h'.held, ?_, UInt32.le_trans h.readPos_le h'.readPos_le, h'.unread_eq,
    ⟨l ++ l', by rw [hl', hl, List.append_assoc], ?_⟩,
    ⟨b ++ b', by rw [hb', hb, List.append_assoc], by rw [List.length_append, hj, hk], ?_⟩⟩
  · have hpkg := h'.pkg_eq
    rw [h.pkg_eq] at hpkg
    exact hpkg
  · intro x hx
    rcases List.mem_append.mp hx with hx | hx
    · exact hin x hx
    · obtain ⟨hfrom, hto⟩ := hin' x hx
      rw [h.writePos_eq] at hto
      exact ⟨hpos.trans hfrom, hto⟩
  · intro x hx
    rcases List.mem_append.mp hx with hx | hx
    · exact hgood x hx
    · exact hgood' x hx

/-- A reader that refuses leaves the packet as it is. -/
theorem Answers.here {α : Type} {r : Reading} {k : ℕ} :
    Answers r k (none : Option (α × List UInt8)) (.error (-1) r) :=
  .refused (by decide) (by decide) ⟨[], (List.append_nil _).symm, by simp⟩

theorem bind_of_error {α β : Type} {m : Read α} {f : α → Read β} {r r' : Reading} {e : ℤ}
    (h : m r = .error e r') : (m >>= f) r = .error e r' := by
  simp only [bind, EStateM.bind, h]

theorem bind_of_ok {α β : Type} {m : Read α} {f : α → Read β} {r r' : Reading} {v : α}
    (h : m r = .ok v r') : (m >>= f) r = f v r' := by
  simp only [bind, EStateM.bind, h]

/-- What two readers return comes from both. -/
theorem bind_eq_ok {α β : Type} {m : Read α} {f : α → Read β} {r r'' : Reading} {v : β}
    (h : (m >>= f) r = .ok v r'') : ∃ u r', m r = .ok u r' ∧ f u r' = .ok v r'' := by
  cases hm : m r with
  | ok u r' =>
      rw [bind_of_ok hm] at h
      exact ⟨u, r', rfl, h⟩
  | error e r' =>
      rw [bind_of_error hm] at h
      cases h

/-- A reader behind bytes that have been read. -/
theorem Answers.of_consumed {α : Type} {r r' : Reading} {rest : List UInt8} {j k : ℕ}
    {t : Option (α × List UInt8)} {res : EStateM.Result ℤ Reading α}
    (h : Consumed r r' rest j) (ha : Answers r' k t res) : Answers r (j + k) t res := by
  cases ha with
  | refused hcode hnull hblocks =>
      obtain ⟨l, hl, -, hgood⟩ := h.blocks
      obtain ⟨l', hl', hgood'⟩ := hblocks
      refine .refused hcode hnull ⟨l ++ l', by rw [hl', hl, List.append_assoc], ?_⟩
      intro b hb
      exact (List.mem_append.mp hb).elim (hgood b) (hgood' b)
  | taken h' => exact .taken (h.trans h')

/-- One reader after the other. -/
theorem Answers.bind {α β : Type} {m : Read α} {f : α → Read β} {r : Reading} {j k : ℕ}
    {t : Option (α × List UInt8)} {t' : α × List UInt8 → Option (β × List UInt8)}
    (hm : Answers r j t (m r))
    (hf : ∀ v rest r', t = some (v, rest) → Consumed r r' rest j →
      Answers r' k (t' (v, rest)) (f v r')) :
    Answers r (j + k) (t.bind t') ((m >>= f) r) := by
  generalize hres : m r = res at hm
  cases hm with
  | refused hcode hnull hblocks =>
      rw [bind_of_error hres]
      exact .refused hcode hnull hblocks
  | @taken v rest r' hc =>
      have hnext := hf v rest r' rfl hc
      rw [bind_of_ok hres, Option.bind_some]
      exact .of_consumed hc hnext

/-- The test in front of a read is true exactly when the bytes are not there. -/
theorem Buffer.Held.test_iff {buf : Buffer} (h : buf.Held) (count : UInt32)
    (hfits : buf.Fits count.toNat) :
    buf.readPos + count > buf.writePos ↔ buf.unread.length < count.toNat := by
  have hsum := h.add_length_unread
  have hlt := buf.writePos.toNat_lt
  rw [gt_iff_lt, UInt32.lt_iff_toNat_lt, UInt32.toNat_add]
  by_cases hshort : buf.unread.length < count.toNat
  · have hno := hfits hshort
    omega
  · omega

/-- `_read_pos` moves over bytes that are there. -/
theorem Consumed.skip {r : Reading} (h : r.pkg.Held) (count : UInt32)
    (hthere : count.toNat ≤ r.pkg.unread.length) {l : List (ℕ × ℕ)}
    (hl : ∀ x ∈ l, x.1 = r.pkg.readPos.toNat ∧ x.2 ≤ count.toNat) {b : List (ℕ × ℕ)}
    (hb : ∀ x ∈ b, x.2 ≤ x.1) :
    Consumed r ⟨{ r.pkg with readPos := r.pkg.readPos + count }, r.reads ++ l, r.blocks ++ b⟩
      (r.pkg.unread.drop count.toNat) b.length := by
  have hsum := h.add_length_unread
  have hlt := r.pkg.writePos.toNat_lt
  have hpos : (r.pkg.readPos + count).toNat = r.pkg.readPos.toNat + count.toNat := by
    rw [UInt32.toNat_add]
    omega
  refine ⟨⟨?_, h.writePos_le⟩, rfl, ?_, ?_, ⟨l, rfl, ?_⟩, ⟨b, rfl, rfl, hb⟩⟩
  · show _ ≤ r.pkg.writePos
    rw [UInt32.le_iff_toNat_le, hpos]
    omega
  · show _ ≤ r.pkg.readPos + count
    rw [UInt32.le_iff_toNat_le, hpos]
    omega
  · show r.pkg.written.drop (r.pkg.readPos + count).toNat = _
    rw [hpos, ← List.drop_drop]
    rfl
  · intro x hx
    obtain ⟨hfrom, hcount⟩ := hl x hx
    omega

/-- The byte at `_read_pos`. -/
theorem Reading.current_eq {r : Reading} {b : UInt8} {bs : List UInt8}
    (hunread : r.pkg.unread = b :: bs) : r.current = b := by
  have hget : (r.pkg.unread)[0]? = some b := by rw [hunread]; rfl
  rw [Buffer.unread, List.getElem?_drop, Buffer.written, List.getElem?_take] at hget
  split_ifs at hget with hlt
  · rw [Reading.current, List.getD_eq_getElem?_getD, ← Nat.add_zero r.pkg.readPos.toNat, hget]
    rfl

/-- A byte is read. -/
theorem Consumed.next {r : Reading} (h : r.pkg.Held) {b : UInt8} {bs : List UInt8}
    (hunread : r.pkg.unread = b :: bs) : Consumed r r.next bs 0 := by
  have hskip := Consumed.skip (l := [(r.pkg.readPos.toNat, 1)]) (b := []) h 1
    (by rw [hunread]; simp) (by simp) (by simp)
  rw [hunread, List.append_nil] at hskip
  exact hskip

theorem readByte_cons {r : Reading} (h : r.pkg.Held) {b : UInt8} {bs : List UInt8}
    (hunread : r.pkg.unread = b :: bs) : readByte r = .ok b r.next := by
  have htest := h.test_iff 1 fun hshort => absurd hshort (by rw [hunread]; simp)
  rw [readByte, if_neg (by rw [htest, hunread]; simp), Reading.current_eq hunread]

theorem readByte_nil {r : Reading} (h : r.pkg.Held) (hfits : r.pkg.Fits 1)
    (hunread : r.pkg.unread = []) : readByte r = .error (-1) r := by
  have htest := h.test_iff 1 hfits
  rw [readByte, if_pos (by rw [htest, hunread]; simp)]

theorem takeUint16_eq_none {bs : List UInt8} (h : bs.length < 2) : takeUint16 bs = none := by
  rcases bs with _ | ⟨_, _ | ⟨_, _⟩⟩
  · rfl
  · rfl
  · simp only [List.length_cons] at h
    omega

theorem exists_two {bs : List UInt8} (h : 2 ≤ bs.length) :
    ∃ msb lsb rest, bs = msb :: lsb :: rest := by
  match bs, h with
  | msb :: lsb :: rest, _ => exact ⟨msb, lsb, rest, rfl⟩

theorem takeUint32_eq_none {bs : List UInt8} (h : bs.length < 4) : takeUint32 bs = none := by
  rcases bs with _ | ⟨_, _ | ⟨_, _ | ⟨_, _ | ⟨_, _⟩⟩⟩⟩
  · rfl
  · rfl
  · rfl
  · rfl
  · simp only [List.length_cons] at h
    omega

theorem exists_four {bs : List UInt8} (h : 4 ≤ bs.length) :
    ∃ a b c d rest, bs = a :: b :: c :: d :: rest := by
  match bs, h with
  | a :: b :: c :: d :: rest, _ => exact ⟨a, b, c, d, rest, rfl⟩

theorem answers_readUint16 {r : Reading} (h : r.pkg.Held) (hfits : r.pkg.Fits 2) :
    Answers r 0 (takeUint16 r.pkg.unread) (readUint16 r) := by
  have htest := h.test_iff 2 hfits
  rw [readUint16]
  by_cases hshort : r.pkg.unread.length < 2
  · rw [if_pos (htest.mpr hshort), takeUint16_eq_none hshort]
    exact .here
  · obtain ⟨msb, lsb, rest, hbs⟩ := exists_two (Nat.not_lt.mp hshort)
    have hfirst := Consumed.next h hbs
    have hsecond := Consumed.next hfirst.held hfirst.unread_eq
    rw [if_neg (fun hc => hshort (htest.mp hc)), hbs, Reading.current_eq hbs,
      Reading.current_eq hfirst.unread_eq]
    exact .taken (hfirst.trans hsecond)

theorem answers_readUint32 {r : Reading} (h : r.pkg.Held) (hfits : r.pkg.Fits 4) :
    Answers r 0 (takeUint32 r.pkg.unread) (readUint32 r) := by
  have htest := h.test_iff 4 hfits
  rw [readUint32]
  by_cases hshort : r.pkg.unread.length < 4
  · rw [if_pos (htest.mpr hshort), takeUint32_eq_none hshort]
    exact .here
  · obtain ⟨a, b, c, d, rest, hbs⟩ := exists_four (Nat.not_lt.mp hshort)
    have h₁ := Consumed.next h hbs
    have h₂ := Consumed.next h₁.held h₁.unread_eq
    have h₃ := Consumed.next h₂.held h₂.unread_eq
    have h₄ := Consumed.next h₃.held h₃.unread_eq
    have hzero : (0 : UInt32) <<< 8 ||| a.toUInt32 = a.toUInt32 := by simp
    have hval : readUint32Loop 4 0 r =
        (((a.toUInt32 <<< 8 ||| b.toUInt32) <<< 8 ||| c.toUInt32) <<< 8 ||| d.toUInt32,
          r.next.next.next.next) := by
      simp only [readUint32Loop, Reading.current_eq hbs, Reading.current_eq h₁.unread_eq,
        Reading.current_eq h₂.unread_eq, Reading.current_eq h₃.unread_eq, hzero]
    rw [if_neg (fun hc => hshort (htest.mp hc)), hbs, hval]
    exact .taken (h₁.trans (h₂.trans (h₃.trans h₄)))

theorem Reading.ahead_eq {r : Reading} {n : ℕ} (h : n ≤ r.pkg.unread.length) :
    r.ahead n = r.pkg.unread.take n := by
  rw [Buffer.unread, List.length_drop, Buffer.written, List.length_take] at h
  rw [Reading.ahead, Buffer.unread, Buffer.written, List.drop_take, List.take_take,
    Nat.min_eq_left (by omega)]

/-- Bytes that are there are copied to a block that was had. -/
theorem answers_readBytes (malloc : ℕ → Bool) (count : UInt32) {r : Reading} (h : r.pkg.Held)
    (hfits : r.pkg.Fits count.toNat) (hcount : count.toNat + 1 < 2 ^ 32)
    (hmem : count.toNat ≤ r.pkg.unread.length → malloc r.blocks.length = true) :
    Answers r 1 (takeBytes count.toNat r.pkg.unread) (readBytes malloc count r) := by
  have htest := h.test_iff count hfits
  rw [readBytes, takeBytes]
  by_cases hthere : count.toNat ≤ r.pkg.unread.length
  · have hsize : (count + 1).toNat = count.toNat + 1 := by
      rw [UInt32.toNat_add]
      exact Nat.mod_eq_of_lt hcount
    rw [if_neg (fun hc => absurd (htest.mp hc) (Nat.not_lt.mpr hthere)), if_pos hthere,
      Reading.copy, if_pos (hmem hthere), ← Reading.ahead_eq hthere]
    refine .taken (Consumed.skip h count hthere (by simp) ?_)
    intro b hb
    rw [List.mem_singleton.mp hb, hsize]
    exact max_le le_rfl (Nat.le_succ _)
  · rw [if_pos (htest.mpr (Nat.not_le.mp hthere)), if_neg hthere]
    exact .here

theorem answers_readStr (malloc : ℕ → Bool) {r : Reading} (h : r.pkg.Held)
    (hpos : r.pkg.writePos.toNat + 2 ^ 16 ≤ 2 ^ 32)
    (hmem : (takeStr r.pkg.unread).isSome → malloc r.blocks.length = true) :
    Answers r 1 (takeStr r.pkg.unread) (readStr malloc r) := by
  have hle := UInt32.le_iff_toNat_le.mp h.readPos_le
  rw [takeStr] at hmem ⊢
  rw [readStr]
  refine Answers.bind (j := 0) (k := 1) (answers_readUint16 h fun _ => by omega)
    fun len rest r' htake hc => ?_
  rw [htake, Option.bind_some] at hmem
  have hlen : len.toUInt32.toNat = len.toNat := UInt16.toNat_toUInt32 len
  have hsmall := len.toNat_lt
  have hle' := UInt32.le_iff_toNat_le.mp hc.held.readPos_le
  rw [hc.writePos_eq] at hle'
  have htest := hc.held.test_iff len.toUInt32 fun _ => by omega
  rw [hlen, hc.unread_eq] at htest
  obtain ⟨l, hl, hzero, -⟩ := hc.blocks
  rw [List.length_eq_zero_iff.mp hzero, List.append_nil] at hl
  simp only [takeBytes] at hmem ⊢
  by_cases hthere : len.toNat ≤ rest.length
  · rw [if_pos hthere] at hmem ⊢
    have hahead : r'.ahead len.toNat = rest.take len.toNat := by
      rw [Reading.ahead_eq (by rw [hc.unread_eq]; exact hthere), hc.unread_eq]
    rw [if_neg (fun hc => absurd (htest.mp hc) (Nat.not_lt.mpr hthere)), Reading.copy, hl,
      if_pos (hmem rfl), hahead]
    have hskip := Consumed.skip hc.held len.toUInt32
      (l := [(r'.pkg.readPos.toNat,
        min len.toNat ((cString (rest.take len.toNat)).length + 1))])
      (b := [(len.toNat + 1, len.toNat + 1)])
      (by rw [hlen, hc.unread_eq]; exact hthere) (by simp [hlen]) (by simp)
    rw [hlen, hc.unread_eq, hl] at hskip
    exact .taken hskip
  · rw [if_pos (htest.mpr (Nat.not_le.mp hthere)), if_neg hthere]
    exact .here

/-- A string that is there, without memory for it. -/
theorem readStr_null {malloc : ℕ → Bool} {r : Reading} (h : r.pkg.Held)
    (hpos : r.pkg.writePos.toNat + 2 ^ 16 ≤ 2 ^ 32) (hsome : (takeStr r.pkg.unread).isSome)
    (hmem : malloc r.blocks.length = false) :
    ∃ r', readStr malloc r = .error nullStore r' ∧ ∃ b ∈ r'.blocks, b.1 < b.2 := by
  have hle := UInt32.le_iff_toNat_le.mp h.readPos_le
  have hread := answers_readUint16 h fun _ => by omega
  obtain ⟨v, hv⟩ := Option.isSome_iff_exists.mp hsome
  obtain ⟨⟨len, rest⟩, htake, hbytes⟩ := Option.bind_eq_some_iff.mp hv
  rw [htake] at hread
  generalize hres : readUint16 r = res at hread
  cases hread with
  | @taken _ _ r' hc =>
      obtain ⟨l, hl, hzero, -⟩ := hc.blocks
      rw [List.length_eq_zero_iff.mp hzero, List.append_nil] at hl
      have hlen : len.toUInt32.toNat = len.toNat := UInt16.toNat_toUInt32 len
      have hsmall := len.toNat_lt
      have hle' := UInt32.le_iff_toNat_le.mp hc.held.readPos_le
      rw [hc.writePos_eq] at hle'
      have htest := hc.held.test_iff len.toUInt32 fun _ => by omega
      have hthere : ¬ rest.length < len.toNat := by
        intro hshort
        simp only [takeBytes, if_neg (Nat.not_le.mpr hshort)] at hbytes
        nomatch hbytes
      rw [hlen, hc.unread_eq] at htest
      simp only [readStr, bind, EStateM.bind, hres, if_neg fun hc => hthere (htest.mp hc),
        Reading.copy, hl, hmem, Bool.false_eq_true, if_false]
      exact ⟨_, rfl, _, List.mem_append_right _ (List.mem_singleton_self _), Nat.succ_pos _⟩

/-- The loop of `ReadRemainlen` after `k` bytes of the field, which have the value `lenVal`. -/
theorem answers_readRemainlenLoop (n : ℕ) :
    ∀ (k : ℕ) (multiplier lenVal : UInt32) (r : Reading), r.pkg.Held → k + n = 4 →
      multiplier.toNat = 128 ^ k → lenVal.toNat < 128 ^ k →
      (takeRemainlenFrom n r.pkg.unread = none → r.pkg.readPos.toNat + (n + 1) < 2 ^ 32) →
      Answers r 0
        ((takeRemainlenFrom n r.pkg.unread).map fun v =>
          (UInt32.ofNat (lenVal.toNat + 128 ^ k * v.1), v.2))
        (readRemainlenLoop (n + 1) multiplier lenVal r) := by
  induction n with
  | zero =>
      intro k multiplier lenVal r h _ _ _ hfits
      have hfits := hfits rfl
      rw [readRemainlenLoop]
      cases hbs : r.pkg.unread with
      | nil =>
          rw [bind_of_error (readByte_nil h (fun _ => hfits) hbs)]
          exact .here
      | cons b bs =>
          have hnext := Consumed.next h hbs
          obtain ⟨l, hl, -, hgood⟩ := hnext.blocks
          rw [bind_of_ok (readByte_cons h hbs)]
          exact .refused (e := -1) (by decide) (by decide) ⟨l, hl, hgood⟩
  | succ n ih =>
      intro k multiplier lenVal r h hk hmul hval hfits
      rw [readRemainlenLoop]
      cases hbs : r.pkg.unread with
      | nil =>
          rw [hbs] at hfits
          have hfits := hfits rfl
          rw [bind_of_error (readByte_nil h (fun _ => by omega) hbs)]
          exact .here
      | cons b bs =>
          have hnext := Consumed.next h hbs
          have hacc := accumulate_toNat (b := b) (k := k) (by omega) hmul hval
          rw [bind_of_ok (readByte_cons h hbs), takeRemainlenFrom]
          simp only [Nat.add_one_ne_zero, if_false]
          by_cases hb : b.toNat < 128
          · have hbits : ¬ (b &&& 0x80 ≠ 0) := fun hc => hc ((and_high_eq_zero_iff b).mpr hb)
            have hvalue : lenVal + (b &&& 0x7f).toUInt32 * multiplier =
                UInt32.ofNat (lenVal.toNat + 128 ^ k * b.toNat) := by
              rw [← UInt32.toNat_inj, hacc, UInt32.toNat_ofNat', Nat.mod_eq_of_lt hb]
              have hlt := UInt32.toNat_lt (lenVal + (b &&& 0x7f).toUInt32 * multiplier)
              rw [hacc, Nat.mod_eq_of_lt hb] at hlt
              rw [Nat.mul_comm (128 ^ k), Nat.mod_eq_of_lt hlt]
            rw [if_neg hbits, if_pos hb, Option.map_some, hvalue]
            exact .taken hnext
          · have hbits : b &&& 0x80 ≠ 0 := fun hc => hb ((and_high_eq_zero_iff b).mp hc)
            have hpos : r.next.pkg.readPos.toNat = r.pkg.readPos.toNat + 1 := by
              have hsum := hnext.held.add_length_unread
              have hsum' := h.add_length_unread
              rw [hnext.unread_eq, hnext.writePos_eq] at hsum
              rw [hbs, List.length_cons] at hsum'
              omega
            rw [hbs, takeRemainlenFrom, if_neg hb, Option.map_eq_none_iff] at hfits
            have hrec := ih (k + 1) _ _ r.next hnext.held (by omega)
              (multiplier_toNat (by omega) hmul) (accumulate_lt (b := b) (by omega) hmul hval)
              (by rw [hnext.unread_eq, hpos]; intro hnone; have := hfits hnone; omega)
            rw [if_pos hbits, if_neg hb, Option.map_map]
            rw [hnext.unread_eq, hacc] at hrec
            refine .of_consumed (j := 0) (k := 0) hnext ?_
            convert hrec using 3 with v
            rw [Function.comp_apply, pow_succ]
            congr 2
            ring

theorem answers_readRemainlen {r : Reading} (h : r.pkg.Held)
    (hfits : takeRemainlen r.pkg.unread = none → r.pkg.readPos.toNat + 5 < 2 ^ 32) :
    Answers r 0 ((takeRemainlen r.pkg.unread).map fun v => (UInt32.ofNat v.1, v.2))
      (readRemainlen r) := by
  have hloop := answers_readRemainlenLoop 4 0 1 0 r h rfl rfl (by decide) hfits
  simp only [pow_zero, Nat.one_mul, UInt32.toNat_zero, Nat.zero_add] at hloop
  exact hloop

/-- What `takeRemainlenFrom` leaves is the end of the list, and the value has at most seven bits
for each byte taken. -/
theorem takeRemainlenFrom_some {n : ℕ} {bs rest : List UInt8} {v : ℕ}
    (h : takeRemainlenFrom n bs = some (v, rest)) :
    ∃ f, bs = f ++ rest ∧ f ≠ [] ∧ f.length ≤ n ∧ v < 128 ^ f.length := by
  induction n generalizing bs v with
  | zero => nomatch h
  | succ n ih =>
      cases bs with
      | nil => nomatch h
      | cons b bs =>
          rw [takeRemainlenFrom] at h
          split_ifs at h with hb
          · obtain ⟨rfl, rfl⟩ := Prod.mk.inj (Option.some.inj h)
            exact ⟨[b], rfl, List.cons_ne_nil _ _, by simp, by simpa using hb⟩
          · obtain ⟨⟨w, rest'⟩, hw, heq⟩ := Option.map_eq_some_iff.mp h
            obtain ⟨rfl, rfl⟩ := Prod.mk.inj heq
            obtain ⟨f, rfl, -, hlen, hlt⟩ := ih hw
            refine ⟨b :: f, rfl, List.cons_ne_nil _ _, by simpa using hlen, ?_⟩
            rw [List.length_cons, pow_succ]
            omega

end Edp
