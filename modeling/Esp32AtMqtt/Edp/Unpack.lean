import Esp32AtMqtt.Edp.Read

/-!
# Unpacking received packets

The functions `Unpack…` of `EdpKit.c`, and when a call of one of them stays inside the packet.
Every length they read comes from the network. The sums of a position and a length are 32-bit
sums, and `UnpackPushdata` subtracts the length of the id from the remaining length; where one
of these wraps, the test in front of the copy lets through what it should refuse. Memory may
run out as well: the blocks are cleared before the pointer is looked at.

`Judged` says both at once of a reader: what it answers when a condition on the bytes holds,
and that it leaves the packet or a block when the condition fails. `Judged.bind` puts the
conditions of two readers together.
-/

namespace Edp

/-- A read function with the code its caller returns in place of that of the reader. -/
def orErr {α : Type} (code : ℤ) (m : Read α) : Read α := fun r =>
  match m r with
  | .ok v r' => .ok v r'
  | .error e r' => .error (if e = nullStore then e else code) r'

/-- `EdpPacketType(pkg)`. -/
def edpPacketType : Read UInt8 := fun r =>
  match readByte r with
  | .ok mtype r' => .ok mtype r'
  | .error _ r' => .ok 0 r'

/-- `UnpackPushdata(pkg, src_devid, data, data_len)`. -/
def unpackPushdata (malloc : ℕ → Bool) : Read (List UInt8 × List UInt8 × UInt32) := do
  let remainlen ← orErr (-1010) readRemainlen
  let srcDevid ← orErr (-1011) (readStr malloc)
  let remainlen := remainlen - (2 + UInt32.ofNat srcDevid.length)
  let data ← orErr (-1012) (readBytes malloc remainlen)
  return (srcDevid, data, remainlen)

/-- `UnpackSavedata(pkg, src_devid, jb_flag)`; `none` is the null pointer. -/
def unpackSavedata (malloc : ℕ → Bool) : Read (Option (List UInt8) × UInt8) := do
  let _ ← orErr (-1020) readRemainlen
  let taFlag ← orErr (-1021) readByte
  if taFlag = 0x80 then
    let srcDevid ← orErr (-1022) (readStr malloc)
    let jbFlag ← orErr (-1023) readByte
    return (some srcDevid, jbFlag)
  else
    let jbFlag ← orErr (-1023) readByte
    return (none, jbFlag)

/-- `UnpackSavedataJson(pkg, json_obj)`, with `cJSON_Parse`. -/
def unpackSavedataJson {J : Type} (malloc : ℕ → Bool) (parse : List UInt8 → Option J) : Read J := do
  let jsonStr ← orErr (-1024) (readStr malloc)
  match parse jsonStr with
  | none => throw (-1025)
  | some jsonObj => return jsonObj

/-- `UnpackSavedataBin(pkg, desc_obj, bin_data, bin_len)`, with `cJSON_Parse`. -/
def unpackSavedataBin {J : Type} (malloc : ℕ → Bool) (parse : List UInt8 → Option J) :
    Read (J × List UInt8 × UInt32) := do
  let descStr ← orErr (-1026) (readStr malloc)
  match parse descStr with
  | none => throw (-1027)
  | some descObj => do
      let binLen ← orErr (-1028) readUint32
      let binData ← orErr (-1029) (readBytes malloc binLen)
      return (descObj, binData, binLen)

/-- `UnpackSavedataBinStr(pkg, desc_str, bin_data, bin_len)`. -/
def unpackSavedataBinStr (malloc : ℕ → Bool) : Read (List UInt8 × List UInt8 × UInt32) := do
  let descStr ← orErr (-1026) (readStr malloc)
  let binLen ← orErr (-1028) readUint32
  let binData ← orErr (-1029) (readBytes malloc binLen)
  return (descStr, binData, binLen)

/-- `UnpackCmdReq(pkg, cmdid, cmdid_len, req, req_len)`. -/
def unpackCmdReq (malloc : ℕ → Bool) :
    Read (List UInt8 × UInt16 × List UInt8 × UInt32) := do
  let _ ← orErr (-1031) readRemainlen
  let cmdidLen ← readUint16
  let cmdid ← orErr (-1031) (readBytes malloc cmdidLen.toUInt32)
  let reqLen ← readUint32
  let req ← orErr (-1031) (readBytes malloc reqLen)
  return (cmdid, cmdidLen, req, reqLen)

/-- `UnpackSavedataAck(pkg, json_ack)`. -/
def unpackSavedataAck (malloc : ℕ → Bool) : Read (List UInt8) := do
  let _ ← orErr (-1033) readRemainlen
  let _ ← orErr (-1033) readByte
  let jsonLen ← orErr (-1033) readUint16
  orErr (-1033) (readBytes malloc jsonLen.toUInt32)

/-- `UnpackSavedataSimpleString(pkg, output)`. -/
def unpackSavedataSimpleString (malloc : ℕ → Bool) : Read (List UInt8) :=
  orErr (-1024) (readStr malloc)

/-- The calls that read a packet. -/
inductive UnpackCall
  | readByte
  | readBytes (count : UInt32)
  | readUint16
  | readUint32
  | readStr
  | unpackPushdata
  | unpackCmdReq
  | unpackSavedataAck
  | unpackSavedataBin
  | unpackSavedataBinStr
  deriving DecidableEq, Repr

/-- A call, without what it stores for its caller. -/
def UnpackCall.run {J : Type} (malloc : ℕ → Bool) (parse : List UInt8 → Option J) :
    UnpackCall → Read Unit
  | .readByte => do let _ ← Edp.readByte; return ()
  | .readBytes count => do let _ ← Edp.readBytes malloc count; return ()
  | .readUint16 => do let _ ← Edp.readUint16; return ()
  | .readUint32 => do let _ ← Edp.readUint32; return ()
  | .readStr => do let _ ← Edp.readStr malloc; return ()
  | .unpackPushdata => do let _ ← Edp.unpackPushdata malloc; return ()
  | .unpackCmdReq => do let _ ← Edp.unpackCmdReq malloc; return ()
  | .unpackSavedataAck => do let _ ← Edp.unpackSavedataAck malloc; return ()
  | .unpackSavedataBin => do let _ ← Edp.unpackSavedataBin malloc parse; return ()
  | .unpackSavedataBinStr => do let _ ← Edp.unpackSavedataBinStr malloc; return ()

/-- A call on `pkg` was sound: it returned a code, or it read only bytes from `_read_pos` to
`_write_pos` and left the one not beyond the other; and no block got more bytes than were
allocated for it. -/
def Sound {α : Type} (pkg : Buffer) : EStateM.Result ℤ Reading α → Prop
  | .ok _ r =>
      (∀ x ∈ r.reads, pkg.readPos.toNat ≤ x.1 ∧ x.1 + x.2 ≤ pkg.writePos.toNat) ∧
        r.pkg.readPos ≤ r.pkg.writePos ∧ ∀ b ∈ r.blocks, b.2 ≤ b.1
  | .error e r => e ≠ 0 ∧ ∀ b ∈ r.blocks, b.2 ≤ b.1

/-- A packet whose block was made by `NewBuffer` and `CheckCapacity`: these only double the
capacity, which stays a divisor of `2^31` (`checkCapacity_dvd`). -/
structure Buffer.Loaded (pkg : Buffer) : Prop extends pkg.Held where
  writePos_le_half : pkg.writePos.toNat ≤ 2 ^ 31

theorem Buffer.Valid.loaded {pkg : Buffer} (h : pkg.Valid) (hcap : pkg.capacity.toNat ∣ 2 ^ 31)
    (hread : pkg.readPos ≤ pkg.writePos) : pkg.Loaded := by
  have hle := UInt32.le_iff_toNat_le.mp h.writePos_le
  exact ⟨⟨hread, by rw [h.length_data]; exact hle⟩,
    hle.trans (Nat.le_of_dvd (by decide) hcap)⟩

/-- What became of a call that is not sound. Only the last reader may have read behind the packet
and gone on. -/
inductive Broken {α : Type} (pkg : Buffer) (last : Bool) : EStateM.Result ℤ Reading α → Prop
  | overrun {r : Reading} (h : ∃ b ∈ r.blocks, b.1 < b.2) : Broken pkg last (.error nullStore r)
  | outside {v : α} {r : Reading} (hlast : last = true)
      (h : ∃ x ∈ r.reads, pkg.writePos.toNat < x.1 + x.2) : Broken pkg last (.ok v r)

/-- A reader answers what stands at the front if `safe` holds, and is broken if not. -/
structure Judged {α : Type} (pkg : Buffer) (last : Bool) (k : ℕ) (safe : Prop)
    (t : Option (α × List UInt8)) (res : EStateM.Result ℤ Reading α) : Prop where
  answers : safe → Answers pkg.reading k t res
  broken : ¬ safe → Broken pkg last res

theorem Judged.sound_iff {α : Type} {pkg : Buffer} {last : Bool} {k : ℕ} {safe : Prop}
    {t : Option (α × List UInt8)} {res : EStateM.Result ℤ Reading α}
    (h : Judged pkg last k safe t res) : Sound pkg res ↔ safe := by
  constructor
  · intro hsound
    by_contra hsafe
    cases h.broken hsafe with
    | overrun hover =>
        obtain ⟨b, hb, hlt⟩ := hover
        exact absurd (hsound.2 b hb) (Nat.not_le.mpr hlt)
    | outside _ hout =>
        obtain ⟨x, hx, hlt⟩ := hout
        exact absurd (hsound.1 x hx).2 (Nat.not_le.mpr hlt)
  · intro hsafe
    cases h.answers hsafe with
    | refused hcode _ hblocks =>
        obtain ⟨l, hl, hgood⟩ := hblocks
        refine ⟨hcode, fun b hb => hgood b ?_⟩
        rw [hl] at hb
        exact hb
    | taken hc =>
        obtain ⟨l, hl, hin⟩ := hc.reads
        obtain ⟨l', hl', -, hgood⟩ := hc.blocks
        refine ⟨fun x hx => hin x ?_, hc.held.readPos_le, fun b hb => hgood b ?_⟩
        · rw [hl] at hx
          exact hx
        · rw [hl'] at hb
          exact hb

theorem Judged.congr {α : Type} {pkg : Buffer} {last : Bool} {k : ℕ} {safe safe' : Prop}
    {t : Option (α × List UInt8)} {res : EStateM.Result ℤ Reading α}
    (h : Judged pkg last k safe t res) (hsafe : safe' ↔ safe) : Judged pkg last k safe' t res := by
  rw [hsafe]
  exact h

/-- One reader after the other: the conditions of both. -/
theorem Judged.bind {α β : Type} {pkg : Buffer} {last : Bool} {m : Read α} {f : α → Read β}
    {r : Reading} {j k : ℕ} {safe : Prop} {safe' : α → List UInt8 → Prop}
    {t : Option (α × List UInt8)} {t' : α → List UInt8 → Option (β × List UInt8)}
    (hm : Judged pkg false j safe t (m r))
    (hf : ∀ v rest r', Consumed pkg.reading r' rest j →
      Judged pkg last k (safe' v rest) (t' v rest) (f v r')) :
    Judged pkg last k (safe ∧ ∀ v rest, t = some (v, rest) → safe' v rest)
      (t.bind fun p => t' p.1 p.2) ((m >>= f) r) := by
  by_cases hsafe : safe
  · have ha := hm.answers hsafe
    generalize hres : m r = res at ha
    cases ha with
    | refused hcode hnull hblocks =>
        rw [bind_of_error hres]
        exact ⟨fun _ => .refused hcode hnull hblocks, fun hno => absurd ⟨hsafe, nofun⟩ hno⟩
    | @taken v rest r' hc =>
        rw [bind_of_ok hres]
        refine (hf v rest r' hc).congr ⟨fun h => h.2 v rest rfl, fun h => ⟨hsafe, ?_⟩⟩
        intro v' rest' heq
        obtain ⟨rfl, rfl⟩ := Prod.mk.inj (Option.some.inj heq)
        exact h
  · have hb := hm.broken hsafe
    refine ⟨fun h => absurd h.1 hsafe, fun _ => ?_⟩
    generalize hres : m r = res at hb
    cases hb with
    | overrun hover =>
        rw [bind_of_error hres]
        exact .overrun hover
    | outside hlast _ => nomatch hlast

/-- The value is changed at the end. -/
theorem Judged.bind_pure {α β : Type} {pkg : Buffer} {last : Bool} {m : Read α} {r : Reading}
    {k : ℕ} {safe : Prop} {t : Option (α × List UInt8)} (g : α → β)
    (hm : Judged pkg last k safe t (m r)) :
    Judged pkg last k safe (t.map fun p => (g p.1, p.2)) ((m >>= fun v => pure (g v)) r) := by
  refine ⟨fun hsafe => ?_, fun hsafe => ?_⟩
  · have ha := hm.answers hsafe
    generalize hres : m r = res at ha
    cases ha with
    | refused hcode hnull hblocks =>
        rw [bind_of_error hres]
        exact .refused hcode hnull hblocks
    | taken hc =>
        rw [bind_of_ok hres]
        exact .taken hc
  · have hb := hm.broken hsafe
    generalize hres : m r = res at hb
    cases hb with
    | overrun hover =>
        rw [bind_of_error hres]
        exact .overrun hover
    | outside hlast hout =>
        rw [bind_of_ok hres]
        exact .outside hlast hout

/-- The caller's code instead of the reader's. -/
theorem Judged.orErr {α : Type} {pkg : Buffer} {last : Bool} {m : Read α} {r : Reading} {k : ℕ}
    {safe : Prop} {t : Option (α × List UInt8)} {c : ℤ} (hcode : c ≠ 0)
    (hnull : c ≠ nullStore) (hm : Judged pkg last k safe t (m r)) :
    Judged pkg last k safe t (orErr c m r) := by
  refine ⟨fun hsafe => ?_, fun hsafe => ?_⟩
  · have ha := hm.answers hsafe
    rw [Edp.orErr]
    generalize m r = res at ha
    cases ha with
    | refused _ hne hblocks =>
        simp only [if_neg hne]
        exact .refused hcode hnull hblocks
    | taken hc => exact .taken hc
  · have hb := hm.broken hsafe
    rw [Edp.orErr]
    generalize m r = res at hb
    cases hb with
    | overrun hover =>
        simp only [if_true]
        exact .overrun hover
    | outside hlast hout => exact .outside hlast hout

section Readers

variable {pkg : Buffer} {r : Reading} {rest : List UInt8} {k : ℕ}

theorem Buffer.Loaded.consumed (h : pkg.Loaded) : Consumed pkg.reading pkg.reading pkg.unread 0 :=
  ⟨h.toHeld, rfl, UInt32.le_refl _, rfl, ⟨[], rfl, nofun⟩, ⟨[], rfl, rfl, nofun⟩⟩

theorem Consumed.length_blocks (h : Consumed pkg.reading r rest k) : r.blocks.length = k := by
  obtain ⟨l, hl, hk, -⟩ := h.blocks
  rw [hl]
  exact hk

theorem Consumed.readPos_le_half (h : Consumed pkg.reading r rest k) (hpkg : pkg.Loaded) :
    r.pkg.readPos.toNat ≤ 2 ^ 31 := by
  have hle := UInt32.le_iff_toNat_le.mp h.held.readPos_le
  rw [h.writePos_eq] at hle
  exact hle.trans hpkg.writePos_le_half

/-- A read of fewer than `2^31` bytes does not wrap. -/
theorem Consumed.fits (h : Consumed pkg.reading r rest k) (hpkg : pkg.Loaded) {n : ℕ}
    (hn : n < 2 ^ 31) : r.pkg.Fits n := by
  intro _
  have hle := h.readPos_le_half hpkg
  omega

theorem Judged.of_answers {α : Type} {t : Option (α × List UInt8)} {last : Bool}
    {res : EStateM.Result ℤ Reading α} (h : Consumed pkg.reading r rest k)
    (ha : Answers r 0 t res) : Judged pkg last k True t res :=
  ⟨fun _ => .of_consumed (j := k) (k := 0) h ha, fun hno => absurd trivial hno⟩

/-- One byte at the front. -/
def takeByte : List UInt8 → Option (UInt8 × List UInt8)
  | [] => none
  | b :: bs => some (b, bs)

/-- The remaining length at the front, as a 32-bit number. -/
def takeRemaining (bs : List UInt8) : Option (UInt32 × List UInt8) :=
  (takeRemainlen bs).map fun v => (UInt32.ofNat v.1, v.2)

theorem judged_readByte (h : Consumed pkg.reading r rest k) (hpkg : pkg.Loaded) (last : Bool) :
    Judged pkg last k True (takeByte rest) (readByte r) := by
  refine .of_answers h ?_
  cases hbs : r.pkg.unread with
  | nil =>
      rw [readByte_nil h.held (h.fits hpkg (by decide)) hbs, ← h.unread_eq, hbs]
      exact .here
  | cons b bs =>
      rw [readByte_cons h.held hbs, ← h.unread_eq, hbs]
      exact .taken (Consumed.next h.held hbs)

theorem judged_readUint16 (h : Consumed pkg.reading r rest k) (hpkg : pkg.Loaded) (last : Bool) :
    Judged pkg last k True (takeUint16 rest) (readUint16 r) := by
  have ha := answers_readUint16 h.held (h.fits hpkg (by decide))
  rw [h.unread_eq] at ha
  exact .of_answers h ha

theorem judged_readUint32 (h : Consumed pkg.reading r rest k) (hpkg : pkg.Loaded) (last : Bool) :
    Judged pkg last k True (takeUint32 rest) (readUint32 r) := by
  have ha := answers_readUint32 h.held (h.fits hpkg (by decide))
  rw [h.unread_eq] at ha
  exact .of_answers h ha

theorem judged_readRemainlen (h : Consumed pkg.reading r rest k) (hpkg : pkg.Loaded) (last : Bool) :
    Judged pkg last k True (takeRemaining rest) (readRemainlen r) := by
  have hle := h.readPos_le_half hpkg
  have ha := answers_readRemainlen h.held fun _ => by omega
  rw [h.unread_eq] at ha
  exact .of_answers h ha

/-- A string that is there needs a block. -/
theorem judged_readStr (malloc : ℕ → Bool) (h : Consumed pkg.reading r rest k)
    (hpkg : pkg.Loaded) (last : Bool) :
    Judged pkg last (k + 1) ((takeStr rest).isSome → malloc k = true) (takeStr rest)
      (readStr malloc r) := by
  have hhalf := hpkg.writePos_le_half
  have hpos : r.pkg.writePos.toNat + 2 ^ 16 ≤ 2 ^ 32 := by
    rw [h.writePos_eq]
    exact (by omega : pkg.writePos.toNat + 2 ^ 16 ≤ 2 ^ 32)
  refine ⟨fun hsafe => ?_, fun hsafe => ?_⟩
  · have ha := answers_readStr malloc h.held hpos (by rw [h.unread_eq, h.length_blocks]; exact hsafe)
    rw [h.unread_eq] at ha
    exact .of_consumed (j := k) (k := 1) h ha
  · obtain ⟨hsome, hmem⟩ := Classical.not_imp.mp hsafe
    have hnone : malloc r.blocks.length = false := by
      rw [h.length_blocks]
      exact Bool.eq_false_iff.mpr hmem
    obtain ⟨r', hres, hover⟩ := readStr_null h.held hpos (by rw [h.unread_eq]; exact hsome) hnone
    rw [hres]
    exact .overrun hover

/-- A copy of `count` bytes behind `k` blocks, when `rest` is left of the packet: the sum with the
position does not wrap, and the block is had. -/
def CopySafe (malloc : ℕ → Bool) (pkg : Buffer) (k count : ℕ) (rest : List UInt8) : Prop :=
  pkg.writePos.toNat - rest.length + count < 2 ^ 32 ∧ (count ≤ rest.length → malloc k = true)

theorem Consumed.position (h : Consumed pkg.reading r rest k) :
    pkg.writePos.toNat - rest.length = r.pkg.readPos.toNat := by
  have hsum := h.held.add_length_unread
  have hwp : r.pkg.writePos = pkg.writePos := h.writePos_eq
  rw [h.unread_eq, hwp] at hsum
  omega

/-- A block that is not had is stored to. -/
theorem readBytes_null {malloc : ℕ → Bool} (count : UInt32) {r : Reading}
    (htest : ¬ r.pkg.readPos + count > r.pkg.writePos) (hpos : 0 < max (count + 1).toNat count.toNat)
    (hmem : malloc r.blocks.length = false) :
    ∃ r', readBytes malloc count r = .error nullStore r' ∧ ∃ b ∈ r'.blocks, b.1 < b.2 := by
  simp only [readBytes, if_neg htest, Reading.copy, hmem, Bool.false_eq_true, if_false]
  exact ⟨_, rfl, _, List.mem_append_right _ (List.mem_singleton_self _), hpos⟩

/-- A copy whose sum does not wrap. -/
theorem judged_readBytes_of_lt {malloc : ℕ → Bool} {count : UInt32}
    (h : Consumed pkg.reading r rest k) (hpkg : pkg.Loaded)
    (hfit : r.pkg.readPos.toNat + count.toNat < 2 ^ 32) (last : Bool) :
    Judged pkg last (k + 1) (count.toNat ≤ rest.length → malloc k = true)
      (takeBytes count.toNat rest) (readBytes malloc count r) := by
  have htest := h.held.test_iff count fun _ => hfit
  rw [h.unread_eq] at htest
  by_cases hthere : count.toNat ≤ rest.length
  · have hhalf := hpkg.writePos_le_half
    have hwp : r.pkg.writePos = pkg.writePos := h.writePos_eq
    have hsum := h.held.add_length_unread
    rw [h.unread_eq, hwp] at hsum
    refine ⟨fun hmem => ?_, fun hmem => ?_⟩
    · have ha := answers_readBytes malloc count h.held (fun _ => hfit) (by omega)
        (by rw [h.unread_eq, h.length_blocks]; exact hmem)
      rw [h.unread_eq] at ha
      exact .of_consumed (j := k) (k := 1) h ha
    · have hnone : malloc r.blocks.length = false := by
        rw [h.length_blocks]
        exact Bool.eq_false_iff.mpr fun hc => hmem fun _ => hc
      have hsize : (count + 1).toNat = count.toNat + 1 := by
        rw [UInt32.toNat_add]
        simp only [UInt32.reduceToNat]
        omega
      obtain ⟨r', hres, hover⟩ := readBytes_null count
        (fun hc => absurd (htest.mp hc) (Nat.not_lt.mpr hthere)) (by rw [hsize]; omega) hnone
      rw [hres]
      exact .overrun hover
  · rw [takeBytes, if_neg hthere, readBytes, if_pos (htest.mpr (Nat.not_le.mp hthere))]
    exact ⟨fun _ => .of_consumed (j := k) (k := 1) h .here,
      fun hno => absurd (fun hc => absurd hc hthere) hno⟩

theorem judged_readBytes (malloc : ℕ → Bool) (count : UInt32)
    (h : Consumed pkg.reading r rest k) (hpkg : pkg.Loaded) :
    Judged pkg true (k + 1) (CopySafe malloc pkg k count.toNat rest)
      (takeBytes count.toNat rest) (readBytes malloc count r) := by
  rw [CopySafe, h.position]
  by_cases hfit : r.pkg.readPos.toNat + count.toNat < 2 ^ 32
  · exact (judged_readBytes_of_lt h hpkg hfit true).congr (and_iff_right hfit)
  · -- the sum wraps, so the test lets the bytes through
    have hlt := count.toNat_lt
    have hhalf := hpkg.writePos_le_half
    have hwp : r.pkg.writePos = pkg.writePos := h.writePos_eq
    have hle := UInt32.le_iff_toNat_le.mp h.held.readPos_le
    have htest : ¬ r.pkg.readPos + count > r.pkg.writePos := by
      rw [gt_iff_lt, UInt32.lt_iff_toNat_lt, UInt32.toNat_add]
      omega
    refine ⟨fun hsafe => absurd hsafe.1 hfit, fun _ => ?_⟩
    cases hmem : malloc r.blocks.length with
    | false =>
        obtain ⟨r', hres, hover⟩ := readBytes_null count htest
          (by rw [hwp] at hle; omega) hmem
        rw [hres]
        exact .overrun hover
    | true =>
        simp only [readBytes, if_neg htest, Reading.copy, hmem, if_true]
        exact .outside rfl ⟨_, List.mem_append_right _ (List.mem_singleton_self _),
          (by omega : pkg.writePos.toNat < r.pkg.readPos.toNat + count.toNat)⟩

/-- A length of 16 bits does not wrap. -/
theorem judged_readBytes16 (malloc : ℕ → Bool) (len : UInt16)
    (h : Consumed pkg.reading r rest k) (hpkg : pkg.Loaded) (last : Bool) :
    Judged pkg last (k + 1) (len.toNat ≤ rest.length → malloc k = true)
      (takeBytes len.toNat rest) (readBytes malloc len.toUInt32 r) := by
  have hle := h.readPos_le_half hpkg
  have hsmall := len.toNat_lt
  rw [← UInt16.toNat_toUInt32 len]
  exact judged_readBytes_of_lt h hpkg (by rw [UInt16.toNat_toUInt32]; omega) last

end Readers

/-- When a call is sound: what the lengths in the packet must not say, and the blocks that must
be had. -/
def UnpackCall.Safe {J : Type} (malloc : ℕ → Bool) (parse : List UInt8 → Option J) (pkg : Buffer) :
    UnpackCall → Prop
  | .readByte => True
  | .readBytes count => CopySafe malloc pkg 0 count.toNat pkg.unread
  | .readUint16 => True
  | .readUint32 => True
  | .readStr => (takeStr pkg.unread).isSome → malloc 0 = true
  | .unpackPushdata =>
      ∀ remainlen bs, takeRemaining pkg.unread = some (remainlen, bs) →
        ∀ srcDevid rest, takeStr bs = some (srcDevid, rest) →
          malloc 0 = true ∧ 2 + srcDevid.length ≤ remainlen.toNat ∧
            (remainlen.toNat - (2 + srcDevid.length) ≤ rest.length → malloc 1 = true)
  | .unpackCmdReq =>
      ∀ remainlen bs, takeRemaining pkg.unread = some (remainlen, bs) →
        ∀ cmdidLen bs', takeUint16 bs = some (cmdidLen, bs') →
          (cmdidLen.toNat ≤ bs'.length → malloc 0 = true) ∧
            ∀ cmdid bs'', takeBytes cmdidLen.toNat bs' = some (cmdid, bs'') →
              ∀ reqLen rest, takeUint32 bs'' = some (reqLen, rest) →
                CopySafe malloc pkg 1 reqLen.toNat rest
  | .unpackSavedataAck =>
      ∀ remainlen bs, takeRemaining pkg.unread = some (remainlen, bs) →
        ∀ flag bs', takeByte bs = some (flag, bs') →
          ∀ jsonLen rest, takeUint16 bs' = some (jsonLen, rest) →
            jsonLen.toNat ≤ rest.length → malloc 0 = true
  | .unpackSavedataBin =>
      ∀ descStr bs, takeStr pkg.unread = some (descStr, bs) →
        malloc 0 = true ∧ ((parse descStr).isSome →
          ∀ binLen rest, takeUint32 bs = some (binLen, rest) →
            CopySafe malloc pkg 1 binLen.toNat rest)
  | .unpackSavedataBinStr =>
      ∀ descStr bs, takeStr pkg.unread = some (descStr, bs) →
        malloc 0 = true ∧ ∀ binLen rest, takeUint32 bs = some (binLen, rest) →
          CopySafe malloc pkg 1 binLen.toNat rest

section Calls

variable {pkg : Buffer} {malloc : ℕ → Bool}

/-- The two conditions of a string that is read first. -/
theorem and_forall_takeStr {bs : List UInt8} {p : Prop} {q : List UInt8 → List UInt8 → Prop} :
    ((takeStr bs).isSome → p) ∧ (∀ s rest, takeStr bs = some (s, rest) → q s rest) ↔
      ∀ s rest, takeStr bs = some (s, rest) → p ∧ q s rest := by
  constructor
  · intro h s rest hs
    exact ⟨h.1 (by rw [hs]; rfl), h.2 s rest hs⟩
  · intro h
    refine ⟨fun hs => ?_, fun s rest hs => (h s rest hs).2⟩
    obtain ⟨⟨s, rest⟩, heq⟩ := Option.isSome_iff_exists.mp hs
    exact (h s rest heq).1

/-- What a call stores for its caller does not matter. -/
theorem sound_discard {α : Type} {m : Read α} {r : Reading} :
    Sound pkg ((do let _ ← m; return () : Read Unit) r) ↔ Sound pkg (m r) := by
  cases hres : m r with
  | ok v r' =>
      rw [bind_of_ok hres]
      rfl
  | error e r' =>
      rw [bind_of_error hres]
      rfl

theorem sound_unpackSavedataBinStr (h : pkg.Loaded) :
    Sound pkg (unpackSavedataBinStr malloc pkg.reading) ↔
      ∀ descStr bs, takeStr pkg.unread = some (descStr, bs) →
        malloc 0 = true ∧ ∀ binLen rest, takeUint32 bs = some (binLen, rest) →
          CopySafe malloc pkg 1 binLen.toNat rest := by
  have hall : Judged pkg true 2 _ _ (unpackSavedataBinStr malloc pkg.reading) :=
    .bind (.orErr (by decide) (by decide) (judged_readStr malloc h.consumed h false))
      fun _ _ _ hc => .bind (.orErr (by decide) (by decide) (judged_readUint32 hc h false))
        fun binLen _ _ hc => .bind_pure _
          (.orErr (by decide) (by decide) (judged_readBytes malloc binLen hc h))
  have hiff := hall.sound_iff
  simp only [true_and, and_forall_takeStr] at hiff
  exact hiff

/-- A text that does not parse is refused. -/
theorem judged_parse {α J : Type} {r : Reading} {rest : List UInt8} {j k : ℕ} (obj : Option J)
    {f : J → Read α} {safe : J → Prop} {t : J → Option (α × List UInt8)}
    (hc : Consumed pkg.reading r rest j)
    (hf : ∀ v, Judged pkg true k (safe v) (t v) (f v r)) :
    Judged pkg true k (∀ v, obj = some v → safe v) (obj.bind t)
      ((match obj with
        | none => throw (-1027)
        | some v => f v : Read α) r) := by
  cases obj with
  | none =>
      obtain ⟨l, hl, -, hgood⟩ := hc.blocks
      exact ⟨fun _ => .refused (by decide) (by decide) ⟨l, hl, hgood⟩,
        fun hno => absurd nofun hno⟩
  | some v =>
      refine (hf v).congr ⟨fun h => h v rfl, fun h v' hv => ?_⟩
      obtain rfl := Option.some.inj hv
      exact h

theorem sound_unpackSavedataBin {J : Type} {parse : List UInt8 → Option J} (h : pkg.Loaded) :
    Sound pkg (unpackSavedataBin malloc parse pkg.reading) ↔
      ∀ descStr bs, takeStr pkg.unread = some (descStr, bs) →
        malloc 0 = true ∧ ((parse descStr).isSome →
          ∀ binLen rest, takeUint32 bs = some (binLen, rest) →
            CopySafe malloc pkg 1 binLen.toNat rest) := by
  have hall : Judged pkg true 2 _ _ (unpackSavedataBin malloc parse pkg.reading) :=
    .bind (.orErr (by decide) (by decide) (judged_readStr malloc h.consumed h false))
      fun descStr _ _ hc => judged_parse (parse descStr) hc fun _ =>
        .bind (.orErr (by decide) (by decide) (judged_readUint32 hc h false))
        fun binLen _ _ hc => .bind_pure _
          (.orErr (by decide) (by decide) (judged_readBytes malloc binLen hc h))
  rw [hall.sound_iff]
  simp only [true_and, and_forall_takeStr]
  refine forall₃_congr fun descStr bs _ => and_congr_right fun _ => ?_
  constructor
  · intro hsafe hsome
    exact hsafe _ (Option.some_get hsome).symm
  · intro hsafe _ hv
    exact hsafe (by rw [hv]; rfl)

/-- The remaining length has 28 bits, and a byte at least is taken for it. -/
theorem takeRemaining_some {bs rest : List UInt8} {remainlen : UInt32}
    (h : takeRemaining bs = some (remainlen, rest)) :
    remainlen.toNat < 2 ^ 28 ∧ rest.length < bs.length := by
  obtain ⟨⟨v, rest'⟩, hv, heq⟩ := Option.map_eq_some_iff.mp h
  obtain ⟨rfl, rfl⟩ := Prod.mk.inj heq
  obtain ⟨f, rfl, hne, hlen, hlt⟩ := takeRemainlenFrom_some hv
  have hpow : 128 ^ f.length ≤ 128 ^ 4 := Nat.pow_le_pow_right (by decide) hlen
  have hpos := List.length_pos_iff.mpr hne
  rw [UInt32.toNat_ofNat', List.length_append]
  dsimp only
  omega

/-- A string has fewer than `2^16` bytes, and its length is in front of them. -/
theorem takeStr_some {bs s rest : List UInt8} (h : takeStr bs = some (s, rest)) :
    s.length < 2 ^ 16 ∧ rest.length + s.length + 2 ≤ bs.length := by
  obtain ⟨⟨len, bs'⟩, hlen, hmap⟩ := Option.bind_eq_some_iff.mp h
  obtain ⟨⟨s', rest'⟩, htake, heq⟩ := Option.map_eq_some_iff.mp hmap
  obtain ⟨rfl, rfl⟩ := Prod.mk.inj heq
  have hsmall := len.toNat_lt
  have hstr : (cString s').length ≤ s'.length := (List.takeWhile_prefix _).length_le
  obtain ⟨msb, lsb, rest'', rfl⟩ : ∃ msb lsb rest'', bs = msb :: lsb :: rest'' := by
    refine exists_two (Nat.not_lt.mp fun hshort => ?_)
    rw [takeUint16_eq_none hshort] at hlen
    nomatch hlen
  obtain ⟨-, rfl⟩ := Prod.mk.inj (Option.some.inj hlen)
  rw [takeBytes] at htake
  split_ifs at htake with hthere
  obtain ⟨rfl, rfl⟩ := Prod.mk.inj (Option.some.inj htake)
  rw [List.length_take] at hstr
  simp only [List.length_drop, List.length_cons] at hthere hstr ⊢
  omega

/-- The data behind an id: the subtraction must not wrap. -/
theorem copySafe_pushdata (h : pkg.Loaded) {remainlen : UInt32} {bs srcDevid rest : List UInt8}
    (hlen : takeRemaining pkg.unread = some (remainlen, bs))
    (hstr : takeStr bs = some (srcDevid, rest)) :
    CopySafe malloc pkg 1 (remainlen - (2 + UInt32.ofNat srcDevid.length)).toNat rest ↔
      2 + srcDevid.length ≤ remainlen.toNat ∧
        (remainlen.toNat - (2 + srcDevid.length) ≤ rest.length → malloc 1 = true) := by
  obtain ⟨hremain, hless⟩ := takeRemaining_some hlen
  obtain ⟨hid, hmany⟩ := takeStr_some hstr
  have hhalf := h.writePos_le_half
  have hsum := h.toHeld.add_length_unread
  have hsub : (2 + UInt32.ofNat srcDevid.length).toNat = 2 + srcDevid.length := by
    rw [UInt32.toNat_add, UInt32.toNat_ofNat']
    simp only [UInt32.reduceToNat]
    omega
  rw [CopySafe]
  by_cases hle : 2 + srcDevid.length ≤ remainlen.toNat
  · have hcount : (remainlen - (2 + UInt32.ofNat srcDevid.length)).toNat =
        remainlen.toNat - (2 + srcDevid.length) := by
      rw [UInt32.toNat_sub_of_le _ _ (UInt32.le_iff_toNat_le.mpr (by rw [hsub]; exact hle)), hsub]
    rw [hcount]
    exact and_congr_left fun _ => iff_of_true (by omega) hle
  · have hcount : (remainlen - (2 + UInt32.ofNat srcDevid.length)).toNat =
        2 ^ 32 + remainlen.toNat - (2 + srcDevid.length) := by
      rw [UInt32.toNat_sub, hsub]
      omega
    rw [hcount]
    exact iff_of_false (fun hc => absurd hc.1 (by omega)) fun hc => hle hc.1

theorem sound_unpackPushdata (h : pkg.Loaded) :
    Sound pkg (unpackPushdata malloc pkg.reading) ↔
      ∀ remainlen bs, takeRemaining pkg.unread = some (remainlen, bs) →
        ∀ srcDevid rest, takeStr bs = some (srcDevid, rest) →
          malloc 0 = true ∧ 2 + srcDevid.length ≤ remainlen.toNat ∧
            (remainlen.toNat - (2 + srcDevid.length) ≤ rest.length → malloc 1 = true) := by
  have hall : Judged pkg true 2 _ _ (unpackPushdata malloc pkg.reading) :=
    .bind (.orErr (by decide) (by decide) (judged_readRemainlen h.consumed h false))
      fun remainlen _ _ hc => .bind
        (.orErr (by decide) (by decide) (judged_readStr malloc hc h false))
        fun srcDevid _ _ hc => .bind_pure _ (.orErr (by decide) (by decide)
          (judged_readBytes malloc (remainlen - (2 + UInt32.ofNat srcDevid.length)) hc h))
  rw [hall.sound_iff]
  simp only [true_and, and_forall_takeStr]
  refine forall₃_congr fun remainlen bs hlen => forall₃_congr fun srcDevid rest hstr => ?_
  exact and_congr_right fun _ => copySafe_pushdata h hlen hstr

theorem sound_unpackCmdReq (h : pkg.Loaded) :
    Sound pkg (unpackCmdReq malloc pkg.reading) ↔
      ∀ remainlen bs, takeRemaining pkg.unread = some (remainlen, bs) →
        ∀ cmdidLen bs', takeUint16 bs = some (cmdidLen, bs') →
          (cmdidLen.toNat ≤ bs'.length → malloc 0 = true) ∧
            ∀ cmdid bs'', takeBytes cmdidLen.toNat bs' = some (cmdid, bs'') →
              ∀ reqLen rest, takeUint32 bs'' = some (reqLen, rest) →
                CopySafe malloc pkg 1 reqLen.toNat rest := by
  have hall : Judged pkg true 2 _ _ (unpackCmdReq malloc pkg.reading) :=
    .bind (.orErr (by decide) (by decide) (judged_readRemainlen h.consumed h false))
      fun _ _ _ hc => .bind (judged_readUint16 hc h false)
        fun cmdidLen _ _ hc => .bind
          (.orErr (by decide) (by decide) (judged_readBytes16 malloc cmdidLen hc h false))
          fun _ _ _ hc => .bind (judged_readUint32 hc h false)
            fun reqLen _ _ hc => .bind_pure _
              (.orErr (by decide) (by decide) (judged_readBytes malloc reqLen hc h))
  have hiff := hall.sound_iff
  simp only [true_and] at hiff
  exact hiff

theorem sound_unpackSavedataAck (h : pkg.Loaded) :
    Sound pkg (unpackSavedataAck malloc pkg.reading) ↔
      ∀ remainlen bs, takeRemaining pkg.unread = some (remainlen, bs) →
        ∀ flag bs', takeByte bs = some (flag, bs') →
          ∀ jsonLen rest, takeUint16 bs' = some (jsonLen, rest) →
            jsonLen.toNat ≤ rest.length → malloc 0 = true := by
  have hall : Judged pkg true 1 _ _ (unpackSavedataAck malloc pkg.reading) :=
    .bind (.orErr (by decide) (by decide) (judged_readRemainlen h.consumed h false))
      fun _ _ _ hc => .bind (.orErr (by decide) (by decide) (judged_readByte hc h false))
        fun _ _ _ hc => .bind (.orErr (by decide) (by decide) (judged_readUint16 hc h false))
          fun jsonLen _ _ hc =>
            .orErr (by decide) (by decide) (judged_readBytes16 malloc jsonLen hc h true)
  have hiff := hall.sound_iff
  simp only [true_and] at hiff
  exact hiff

end Calls

/-- A call stays inside the packet, and its stores inside the blocks, exactly when no length in the
packet makes a 32-bit sum or difference wrap and the blocks it asks for are had. -/
theorem unpackCall_sound_iff {J : Type} (malloc : ℕ → Bool) (parse : List UInt8 → Option J)
    {pkg : Buffer} (h : pkg.Loaded) (call : UnpackCall) :
    Sound pkg (call.run malloc parse pkg.reading) ↔ call.Safe malloc parse pkg := by
  cases call with
  | readByte => exact sound_discard.trans (judged_readByte h.consumed h true).sound_iff
  | readBytes count => exact sound_discard.trans (judged_readBytes malloc count h.consumed h).sound_iff
  | readUint16 => exact sound_discard.trans (judged_readUint16 h.consumed h true).sound_iff
  | readUint32 => exact sound_discard.trans (judged_readUint32 h.consumed h true).sound_iff
  | readStr => exact sound_discard.trans (judged_readStr malloc h.consumed h true).sound_iff
  | unpackPushdata => exact sound_discard.trans (sound_unpackPushdata h)
  | unpackCmdReq => exact sound_discard.trans (sound_unpackCmdReq h)
  | unpackSavedataAck => exact sound_discard.trans (sound_unpackSavedataAck h)
  | unpackSavedataBin => exact sound_discard.trans (sound_unpackSavedataBin h)
  | unpackSavedataBinStr => exact sound_discard.trans (sound_unpackSavedataBinStr h)

/-- A command request with an empty id whose request is said to have `2^32 - 8` bytes. -/
def longCmdReq : Buffer := ⟨[0xA0, 6, 0, 0, 0xFF, 0xFF, 0xFF, 0xF8], 8, 1, 8⟩

/-- Behind the type byte: the sum with the position is 0, so the length is accepted. With a block of
that size the request is read from behind the packet, without one the bytes at the null pointer
are cleared. -/
theorem unpackCmdReq_wraps :
    ¬ Sound longCmdReq (UnpackCall.unpackCmdReq.run (fun _ => true) (fun _ => some ())
        longCmdReq.reading) ∧
      ¬ Sound longCmdReq (UnpackCall.unpackCmdReq.run (fun i => i = 0) (fun _ => some ())
        longCmdReq.reading) := by
  have hloaded : longCmdReq.Loaded := ⟨⟨by decide, by decide⟩, by decide⟩
  have hno (malloc : ℕ → Bool) : ¬ Sound longCmdReq (unpackCmdReq malloc longCmdReq.reading) := by
    intro h
    have hsafe := (sound_unpackCmdReq hloaded).mp h
    have hfit := (hsafe 6 [0, 0, 0xFF, 0xFF, 0xFF, 0xF8] rfl 0 [0xFF, 0xFF, 0xFF, 0xF8] rfl).2
      [] [0xFF, 0xFF, 0xFF, 0xF8] rfl 0xFFFFFFF8 [] rfl
    exact absurd hfit.1 (by decide)
  exact ⟨fun h => hno _ (sound_discard.mp h), fun h => hno _ (sound_discard.mp h)⟩

/-- Push data with a byte of data. -/
def bytePushdata : Buffer := ⟨[0x30, 3, 0, 0, 7], 5, 1, 5⟩

theorem unpackCall_sound_iff_bytePushdata :
    Sound bytePushdata (UnpackCall.unpackPushdata.run (fun _ => true) (fun _ => some ())
      bytePushdata.reading) := by
  have hloaded : bytePushdata.Loaded := ⟨⟨by decide, by decide⟩, by decide⟩
  refine (unpackCall_sound_iff (fun _ => true) (fun _ => some ()) hloaded .unpackPushdata).mpr ?_
  intro remainlen bs hlen srcDevid rest hstr
  obtain ⟨rfl, rfl⟩ : 3 = remainlen ∧ [0, 0, 7] = bs := Prod.mk.inj (Option.some.inj hlen)
  obtain ⟨rfl, rfl⟩ : [] = srcDevid ∧ [7] = rest := Prod.mk.inj (Option.some.inj hstr)
  exact ⟨rfl, by decide, fun _ => rfl⟩

end Edp
