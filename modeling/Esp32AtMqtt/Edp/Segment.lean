import Esp32AtMqtt.Edp.Buffer
import Esp32AtMqtt.Stream.Framing
import Mathlib.Tactic.Ring

/-!
# Cutting the received stream into EDP packets

`IsPkgComplete` and `GetEdpPacket` of `EdpKit.c`. The receive buffer collects the chunks
in which the stream arrives; a packet that is there completely is copied into a buffer
of its own, and the bytes behind it move to the front.

A packet is a type byte, a length field of at most four bytes and a body of that
length. Whatever the chunks are, the packets taken out after each of them are those
completed so far, and the receive buffer keeps the bytes behind them.
-/

namespace Edp

open Base128 Framing

/-- The loop of `IsPkgComplete` when `n` more bytes of the length field may come, and what
follows it. `n` is `5 - len_len`, and `pdigit` is `data + len_len - 1`. -/
def isPkgCompleteLoop (data : List UInt8) (dataLen : UInt32) :
    ℕ → UInt32 → UInt32 → UInt32 → ℤ
  | 0, _, _, _ => -1
  | n + 1, lenLen, multiplier, lenVal =>
      if lenLen > dataLen - 1 then 0
      else
        let digit := data.getD lenLen.toNat 0
        let lenLen := lenLen + 1
        let lenVal := lenVal + (digit &&& 0x7f).toUInt32 * multiplier
        let multiplier := multiplier * 0x80
        if digit &&& 0x80 ≠ 0 then isPkgCompleteLoop data dataLen n lenLen multiplier lenVal
        else
          let pkgTotalLen := lenLen + lenVal
          if pkgTotalLen ≤ dataLen then pkgTotalLen.toInt32.toInt else 0

/-- `IsPkgComplete(buf)`. -/
def isPkgComplete (buf : Buffer) : ℤ :=
  if buf.writePos ≤ 1 then 0 else isPkgCompleteLoop buf.data buf.writePos 4 1 1 0

/-- What a call of `GetEdpPacket` answers: the value of `IsPkgComplete`, the packet, with
`none` for the null pointer, and the receive buffer. -/
structure PacketResult where
  flag : ℤ
  pkg : Option Buffer
  buf : Buffer

/-- `GetEdpPacket(buf)`. -/
def getEdpPacket (m : FreshMemory) (buf : Buffer) : PacketResult :=
  let flag := isPkgComplete buf
  if flag ≤ 0 then ⟨flag, none, buf⟩
  else
    let n := flag.toNat
    let pkg := (writeBytes m (newBuffer m) (buf.data.take n)).2
    let left := (buf.data.drop n).take (buf.writePos.toNat - n)
    ⟨flag, some pkg, { buf with
      data := left ++ buf.data.drop left.length
      writePos := buf.writePos - UInt32.ofNat n }⟩

/-- What repeated calls of `GetEdpPacket` have answered, and the receive buffer. -/
structure Drained where
  flags : List ℤ
  pkgs : List Buffer
  buf : Buffer

/-- `GetEdpPacket` until it returns the null pointer; every packet has two bytes at least,
so as many calls as there are bytes and one more are enough. -/
def drain (m : FreshMemory) : ℕ → Buffer → Drained
  | 0, buf => ⟨[], [], buf⟩
  | fuel + 1, buf =>
      let r := getEdpPacket m buf
      match r.pkg with
      | none => ⟨[r.flag], [], r.buf⟩
      | some pkg =>
          let d := drain m fuel r.buf
          ⟨r.flag :: d.flags, pkg :: d.pkgs, d.buf⟩

/-- A chunk as it arrives, and what fresh memory holds then. -/
structure Arrival where
  chunk : List UInt8
  fresh : FreshMemory

/-- What the arrivals so far have led to: the values of `WriteBytes` and of `IsPkgComplete`,
the packets, and the receive buffer. -/
structure Received where
  rets : List ℤ
  flags : List ℤ
  pkgs : List Buffer
  buf : Buffer

/-- One arrival: the chunk is written to the receive buffer, and the packets are taken
out. -/
def receive (r : Received) (a : Arrival) : Received :=
  let w := writeBytes a.fresh r.buf a.chunk
  let d := drain a.fresh (w.2.writePos.toNat + 1) w.2
  ⟨r.rets ++ [w.1], r.flags ++ d.flags, r.pkgs ++ d.pkgs, d.buf⟩

/-- The arrivals, into a new receive buffer. -/
def receiveAll (m : FreshMemory) (as : List Arrival) : Received :=
  as.foldl receive ⟨[], [], [], newBuffer m⟩

/-- A well-formed packet. -/
structure EdpPacket where
  msgType : UInt8
  lenField : List UInt8
  body : List UInt8
  isField : IsField lenField
  length_le : lenField.length ≤ 4
  value_eq : value lenField = body.length

/-- The bytes of a packet. -/
def EdpPacket.bytes (p : EdpPacket) : List UInt8 := p.msgType :: (p.lenField ++ p.body)

theorem EdpPacket.length_bytes (p : EdpPacket) :
    p.bytes.length = p.lenField.length + p.body.length + 1 := by
  simp [EdpPacket.bytes]

theorem EdpPacket.two_le_length (p : EdpPacket) : 2 ≤ p.bytes.length := by
  have hpos := p.isField.length_pos
  rw [p.length_bytes]
  omega

theorem EdpPacket.bytes_ne_nil (p : EdpPacket) : p.bytes ≠ [] := by
  simp [EdpPacket.bytes]

/-- What `IsPkgComplete` answers when the length field has been read: the length of the
packet, as far as that many bytes are there. -/
def completeAt (total dataLen : ℕ) : ℤ := if total ≤ dataLen then total else 0

theorem toInt_of_lt {u : UInt32} (h : u.toNat < 2 ^ 31) : u.toInt32.toInt = u.toNat :=
  BitVec.toInt_eq_toNat_of_lt (by simpa using (by omega : 2 * u.toNat < 2 ^ 32))

/-- A length field of at most `n` bytes at the front. -/
def takeRemainlenFrom : ℕ → List UInt8 → Option (ℕ × List UInt8)
  | 0, _ => none
  | _ + 1, [] => none
  | n + 1, b :: bs =>
      if b.toNat < 128 then some (b.toNat, bs)
      else (takeRemainlenFrom n bs).map fun v => (b.toNat % 128 + 128 * v.1, v.2)

/-- The remaining length at the front. -/
def takeRemainlen : List UInt8 → Option (ℕ × List UInt8) := takeRemainlenFrom 4

/-- A field of at most `n` bytes at the front. -/
theorem takeRemainlenFrom_field {f : List UInt8} (rest : List UInt8) (hf : IsField f) :
    ∀ n, f.length ≤ n → takeRemainlenFrom n (f ++ rest) = some (value f, rest) := by
  induction f with
  | nil => exact absurd hf not_isField_nil
  | cons b bs ih =>
      intro n hn
      obtain ⟨j, rfl⟩ : ∃ j, n = j + 1 := Nat.exists_eq_add_one.mpr (by simp at hn; omega)
      rw [List.cons_append, takeRemainlenFrom, value]
      by_cases hb : b.toNat < 128
      · rw [if_pos hb, (isField_cons_of_lt hb bs).mp hf, Nat.mod_eq_of_lt hb]
        rfl
      · have hbs := (isField_cons_of_le (Nat.not_lt.mp hb) bs).mp hf
        rw [if_neg hb, ih hbs j (by simpa using hn)]
        rfl

/-- Bytes that all continue are no field. -/
theorem takeRemainlenFrom_continues {q : List UInt8} (hq : ∀ b ∈ q, 128 ≤ b.toNat) (n : ℕ) :
    takeRemainlenFrom n q = none := by
  induction q generalizing n with
  | nil => cases n <;> rfl
  | cons b q ih =>
      cases n with
      | zero => rfl
      | succ n =>
          have hb := hq b List.mem_cons_self
          rw [takeRemainlenFrom, if_neg (Nat.not_lt.mpr hb),
            ih (fun c hc => hq c (List.mem_cons_of_mem _ hc)), Option.map_none]

/-- The answer of `IsPkgComplete` to the bytes `q` behind `k` bytes of the length field, of which
`n` more may come: `taken` is the rest of the field. -/
def scanAnswer (dataLen n : ℕ) (q : List UInt8) : Option (ℕ × List UInt8) → ℤ
  | some (v, rest) => completeAt (dataLen - rest.length + v) dataLen
  | none => if q.length < n then 0 else -1

theorem isPkgCompleteLoop_take {data : List UInt8} {dataLen : UInt32}
    (hdata : dataLen.toNat ≤ data.length) (n : ℕ) :
    ∀ (k : ℕ) (lenLen multiplier lenVal : UInt32) (q : List UInt8), k + n = 4 →
      (data.take dataLen.toNat).drop (k + 1) = q → k + 1 ≤ dataLen.toNat → lenLen.toNat = k + 1 →
      multiplier.toNat = 128 ^ k → lenVal.toNat < 128 ^ k →
      isPkgCompleteLoop data dataLen n lenLen multiplier lenVal =
        scanAnswer dataLen.toNat n q
          ((takeRemainlenFrom n q).map fun v => (lenVal.toNat + 128 ^ k * v.1, v.2)) := by
  induction n with
  | zero => intros; rfl
  | succ n ih =>
      intro k lenLen multiplier lenVal q hk hq hcome hlen hmul hval
      have hmany : q.length = dataLen.toNat - (k + 1) := by
        rw [← hq, List.length_drop, List.length_take, Nat.min_eq_left hdata]
      have hone : (dataLen - 1).toNat = dataLen.toNat - 1 := by
        rw [UInt32.toNat_sub_of_le _ _ (UInt32.le_iff_toNat_le.mpr (by simp; omega))]
        rfl
      have hgone : lenLen > dataLen - 1 ↔ q = [] := by
        rw [gt_iff_lt, UInt32.lt_iff_toNat_lt, hone, hlen, ← List.length_eq_zero_iff]
        omega
      rw [isPkgCompleteLoop]
      cases q with
      | nil =>
          rw [if_pos (hgone.mpr rfl)]
          rfl
      | cons b bs =>
          have hlt := dataLen.toNat_lt
          rw [List.length_cons] at hmany
          have hdigit : data.getD lenLen.toNat 0 = b := by
            have hget : ((data.take dataLen.toNat).drop (k + 1))[0]? = some b := by rw [hq]; rfl
            rw [List.getElem?_drop, List.getElem?_take_of_lt (by omega)] at hget
            rw [hlen, List.getD_eq_getElem?_getD, hget]
            rfl
          have hnext : (lenLen + 1).toNat = k + 2 := by
            rw [UInt32.toNat_add, hlen]
            simp only [UInt32.reduceToNat]
            omega
          have hbs : (data.take dataLen.toNat).drop (k + 1 + 1) = bs := by
            rw [← List.drop_drop, hq]
            rfl
          have hacc := accumulate_toNat (b := b) (k := k) (by omega) hmul hval
          rw [if_neg fun hc => List.cons_ne_nil _ _ (hgone.mp hc), takeRemainlenFrom]
          simp only [hdigit]
          by_cases hb : b.toNat < 128
          · have hbits : ¬ (b &&& 0x80 ≠ 0) := fun hc => hc ((and_high_eq_zero_iff b).mpr hb)
            have hpow : 128 ^ k ≤ 2097152 :=
              Nat.pow_le_pow_right (n := 128) (by omega) (by omega : k ≤ 3)
            have hdigits : b.toNat * 128 ^ k ≤ 127 * 2097152 := Nat.mul_le_mul (by omega) hpow
            rw [Nat.mod_eq_of_lt hb] at hacc
            have htotal : (lenLen + 1 + (lenVal + (b &&& 0x7f).toUInt32 * multiplier)).toNat =
                dataLen.toNat - bs.length + (lenVal.toNat + 128 ^ k * b.toNat) := by
              rw [UInt32.toNat_add, hnext, hacc, Nat.mul_comm (128 ^ k)]
              omega
            rw [if_neg hbits, if_pos hb, Option.map_some, scanAnswer, completeAt]
            simp only [UInt32.le_iff_toNat_le, htotal]
            split_ifs with hin
            · rw [toInt_of_lt, htotal]
              rw [htotal, Nat.mul_comm (128 ^ k)]
              omega
            · rfl
          · have hbits : b &&& 0x80 ≠ 0 := fun hc => hb ((and_high_eq_zero_iff b).mp hc)
            have hrec := ih (k + 1) _ _ _ bs (by omega) hbs (by omega) hnext
              (multiplier_toNat (by omega) hmul) (accumulate_lt (b := b) (by omega) hmul hval)
            rw [if_pos hbits, if_neg hb, hrec, hacc, Option.map_map]
            cases takeRemainlenFrom n bs with
            | none => simp [scanAnswer]
            | some v =>
                simp only [Option.map_some, Function.comp_apply, scanAnswer, pow_succ]
                congr 2
                ring

/-- `IsPkgComplete` on the bytes behind the type byte. -/
theorem isPkgComplete_take {buf : Buffer} {q : List UInt8} {t : UInt8}
    (hle : buf.writePos.toNat ≤ buf.data.length) (hwritten : buf.written = t :: q) :
    isPkgComplete buf = scanAnswer buf.writePos.toNat 4 q (takeRemainlen q) := by
  have hlen : buf.writePos.toNat = q.length + 1 := by
    have hlen := congrArg List.length hwritten
    rw [Buffer.written, List.length_take, Nat.min_eq_left hle] at hlen
    exact hlen
  rw [isPkgComplete]
  by_cases hone : buf.writePos ≤ 1
  · have hle := UInt32.le_iff_toNat_le.mp hone
    have hnil : q = [] := List.length_eq_zero_iff.mp (by simp at hle; omega)
    rw [if_pos hone, hnil]
    rfl
  · have hq : (buf.data.take buf.writePos.toNat).drop (0 + 1) = q := by
      rw [← Buffer.written, hwritten]
      rfl
    rw [if_neg hone, isPkgCompleteLoop_take hle 4 0 1 1 0 q rfl hq (by omega) rfl rfl (by decide)]
    simp [takeRemainlen]

/-- A packet at the front whose length field has come. -/
theorem isPkgComplete_field {buf : Buffer} (h : buf.Valid) (p : EdpPacket) {rest : List UInt8}
    (hwritten : buf.written = p.msgType :: (p.lenField ++ rest)) :
    isPkgComplete buf = completeAt p.bytes.length buf.written.length := by
  have hlen := h.length_written
  have hmany : buf.written.length = p.lenField.length + rest.length + 1 := by
    rw [hwritten]
    simp
  rw [isPkgComplete_take h.writePos_le_length hwritten, takeRemainlen,
    takeRemainlenFrom_field rest p.isField 4 p.length_le, scanAnswer, ← hlen, p.length_bytes,
    p.value_eq]
  congr 1
  omega

/-- A packet that has come completely. -/
theorem isPkgComplete_packet {buf : Buffer} (h : buf.Valid) (p : EdpPacket) {rest : List UInt8}
    (hwritten : buf.written = p.bytes ++ rest) : isPkgComplete buf = p.bytes.length := by
  have hfield : buf.written = p.msgType :: (p.lenField ++ (p.body ++ rest)) := by
    rw [hwritten]
    simp [EdpPacket.bytes]
  rw [isPkgComplete_field h p hfield, completeAt, if_pos]
  rw [hwritten, List.length_append]
  omega

/-- Without a byte there is no packet. -/
theorem isPkgComplete_nil {buf : Buffer} (h : buf.Valid) (hnil : buf.written = []) :
    isPkgComplete buf = 0 := by
  have hone : buf.writePos ≤ 1 := by
    rw [UInt32.le_iff_toNat_le, ← h.length_written, hnil]
    exact Nat.zero_le _
  rw [isPkgComplete, if_pos hone]

/-- A packet of which not all has come. -/
theorem isPkgComplete_part {buf : Buffer} (h : buf.Valid) (p : EdpPacket)
    (hpre : buf.written <+: p.bytes) (hne : buf.written ≠ p.bytes) : isPkgComplete buf = 0 := by
  cases hwritten : buf.written with
  | nil => exact isPkgComplete_nil h hwritten
  | cons t q =>
      obtain ⟨rfl, hq⟩ : t = p.msgType ∧ q <+: p.lenField ++ p.body := by
        rw [hwritten] at hpre
        simpa [EdpPacket.bytes, List.cons_prefix_cons] using hpre
      by_cases hfield : p.lenField <+: q
      · -- the length is known, and says that more bytes are to come
        obtain ⟨rest, rfl⟩ := hfield
        have hshort : ¬ p.bytes.length ≤ buf.written.length := fun hle =>
          hne (hpre.eq_of_length_le hle)
        rw [isPkgComplete_field h p hwritten, completeAt, if_neg hshort]
      · -- the length field is not there completely
        have hpart : q <+: p.lenField := by
          have hprefixes := List.prefix_or_prefix_of_prefix hq (List.prefix_append p.lenField p.body)
          exact hprefixes.resolve_right hfield
        have hstrict : q ≠ p.lenField := fun heq => hfield (heq ▸ List.prefix_refl _)
        have hless : q.length < p.lenField.length :=
          lt_of_le_of_ne hpart.length_le fun heq => hstrict (hpart.eq_of_length heq)
        have hcont := p.isField.continues_of_strict hpart hstrict
        rw [isPkgComplete_take h.writePos_le_length hwritten, takeRemainlen,
          takeRemainlenFrom_continues hcont 4, scanAnswer, if_pos (hless.trans_le p.length_le)]

/-- A packet of which nothing has been read. -/
structure Buffer.Fresh (pkg : Buffer) : Prop extends pkg.Valid where
  readPos_eq : pkg.readPos = 0

/-- `GetEdpPacket` with a packet at the front: the packet is returned and taken out. -/
theorem getEdpPacket_packet (m : FreshMemory) {buf : Buffer} (h : buf.Valid) (p : EdpPacket)
    {rest : List UInt8} (hwritten : buf.written = p.bytes ++ rest)
    (hlt : buf.written.length < 2 ^ 30) :
    (getEdpPacket m buf).flag = p.bytes.length ∧
      (∃ pkg, (getEdpPacket m buf).pkg = some pkg ∧ pkg.written = p.bytes ∧ pkg.Fresh) ∧
      (getEdpPacket m buf).buf.Valid ∧ (getEdpPacket m buf).buf.written = rest := by
  have hflag := isPkgComplete_packet h p hwritten
  have htwo := p.two_le_length
  have hpos : ¬ ((p.bytes.length : ℤ) ≤ 0) := by omega
  have hlen := h.length_written
  have hcap := h.length_data
  have hwithin := UInt32.le_iff_toNat_le.mp h.writePos_le
  have hmany : buf.writePos.toNat = p.bytes.length + rest.length := by
    rw [← hlen, hwritten, List.length_append]
  have hsplit : buf.data = p.bytes ++ rest ++ buf.data.drop buf.writePos.toNat := by
    rw [← hwritten, Buffer.written, List.take_append_drop]
  have hpkg : buf.data.take p.bytes.length = p.bytes := by
    rw [hsplit, List.append_assoc, List.take_left' rfl]
  have hleft : (buf.data.drop p.bytes.length).take (buf.writePos.toNat - p.bytes.length) =
      rest := by
    have hsub : buf.writePos.toNat - p.bytes.length = rest.length := by omega
    rw [hsub, hsplit, List.append_assoc, List.drop_left' rfl, List.take_left' rfl]
  have hstored := writeBytes_spec m (valid_newBuffer m) p.bytes
    (by rw [written_newBuffer, List.length_nil]; omega)
  have hback : (buf.writePos - UInt32.ofNat p.bytes.length).toNat = rest.length := by
    rw [UInt32.toNat_sub, UInt32.toNat_ofNat']
    omega
  simp only [getEdpPacket, hflag, if_neg hpos, Int.toNat_natCast, hpkg, hleft]
  refine ⟨trivial, ⟨_, rfl, by rw [hstored.2.2, written_newBuffer, List.nil_append],
    hstored.2.1, readPos_writeBytes m _ _⟩, ⟨?_, ?_, h.capacity_ge⟩, ?_⟩
  · show (rest ++ buf.data.drop rest.length).length = buf.capacity.toNat
    rw [List.length_append, List.length_drop]
    omega
  · show _ ≤ buf.capacity
    rw [UInt32.le_iff_toNat_le, hback]
    omega
  · show (rest ++ buf.data.drop rest.length).take _ = rest
    rw [hback, List.take_left' rfl]

/-- `GetEdpPacket` while the packet at the front is not complete. -/
theorem getEdpPacket_waits (m : FreshMemory) {buf : Buffer} (h : isPkgComplete buf = 0) :
    getEdpPacket m buf = ⟨0, none, buf⟩ := by
  simp [getEdpPacket, h]

/-- Bytes of a buffer that no packet can be taken from: none, or a strict prefix of a
packet. -/
def Unfinished (q : List UInt8) : Prop :=
  q = [] ∨ ∃ p : EdpPacket, q <+: p.bytes ∧ q ≠ p.bytes

theorem isPkgComplete_unfinished {buf : Buffer} (h : buf.Valid) (hq : Unfinished buf.written) :
    isPkgComplete buf = 0 := by
  rcases hq with hnil | ⟨p, hpre, hne⟩
  · exact isPkgComplete_nil h hnil
  · exact isPkgComplete_part h p hpre hne

/-- Calling `GetEdpPacket` until it returns the null pointer: the induction is on the
packets at the front. -/
theorem drain_spec (m : FreshMemory) (gs : List EdpPacket) {q : List UInt8} (hq : Unfinished q) :
    ∀ (fuel : ℕ) (buf : Buffer), buf.Valid → gs.length < fuel →
      buf.written = stream EdpPacket.bytes gs ++ q → buf.written.length < 2 ^ 30 →
      (drain m fuel buf).pkgs.map Buffer.written = gs.map EdpPacket.bytes ∧
        (∀ pkg ∈ (drain m fuel buf).pkgs, pkg.Fresh) ∧ (∀ flag ∈ (drain m fuel buf).flags, 0 ≤ flag) ∧
        (drain m fuel buf).buf.Valid ∧ (drain m fuel buf).buf.written = q := by
  induction gs with
  | nil =>
      intro fuel buf h hfuel hwritten hlt
      obtain ⟨n, rfl⟩ : ∃ n, fuel = n + 1 := ⟨fuel - 1, by simp at hfuel; omega⟩
      rw [stream_nil, List.nil_append] at hwritten
      have hwait := getEdpPacket_waits m (isPkgComplete_unfinished h (hwritten ▸ hq))
      simp only [drain, hwait]
      exact ⟨rfl, by simp, by simp, h, hwritten⟩
  | cons p gs ih =>
      intro fuel buf h hfuel hwritten hlt
      obtain ⟨n, rfl⟩ : ∃ n, fuel = n + 1 := ⟨fuel - 1, by simp at hfuel; omega⟩
      rw [stream_cons, List.append_assoc] at hwritten
      obtain ⟨hflag, ⟨pkg, hpkg, hbytes, hfresh⟩, hvalid, hleft⟩ := getEdpPacket_packet m h p hwritten hlt
      have hless : (getEdpPacket m buf).buf.written.length < 2 ^ 30 := by
        rw [hwritten, List.length_append] at hlt
        rw [hleft]
        omega
      obtain ⟨hpkgs, hfreshes, hflags, hvalid', hrest⟩ := ih n _ hvalid
        (by simpa using hfuel) hleft hless
      simp only [drain, hpkg]
      refine ⟨by rw [List.map_cons, List.map_cons, hbytes, hpkgs],
        List.forall_mem_cons.mpr ⟨hfresh, hfreshes⟩, fun flag hmem => ?_, hvalid', hrest⟩
      rcases List.mem_cons.mp hmem with rfl | hmem
      · rw [hflag]
        omega
      · exact hflags flag hmem

theorem unfinished_pending (ps : List EdpPacket) (n : ℕ) :
    Unfinished (pending EdpPacket.bytes ps n) := by
  rcases pending_cases EdpPacket.bytes ps n with h | ⟨p, -, h⟩
  · exact .inl h
  · exact .inr ⟨p, h⟩

/-- The bytes of the arrivals. -/
def arrivedBytes (as : List Arrival) : List UInt8 := as.flatMap Arrival.chunk

/-- What is true of the receiver when `n` bytes of the packets have arrived: the packets
that they complete have been returned, and the others are in the buffer. -/
structure InStep (ps : List EdpPacket) (n : ℕ) (r : Received) : Prop where
  rets_eq : ∀ ret ∈ r.rets, ret = 0
  flags_nonneg : ∀ flag ∈ r.flags, 0 ≤ flag
  pkgs_eq : r.pkgs.map Buffer.written =
    (ps.take (completed EdpPacket.bytes ps n)).map EdpPacket.bytes
  fresh : ∀ pkg ∈ r.pkgs, pkg.Fresh
  valid : r.buf.Valid
  written_eq : r.buf.written = pending EdpPacket.bytes ps n

theorem inStep_newBuffer (m : FreshMemory) (ps : List EdpPacket) :
    InStep ps 0 ⟨[], [], [], newBuffer m⟩ :=
  ⟨by simp, by simp, by simp [completed_zero EdpPacket.bytes_ne_nil], by simp, valid_newBuffer m,
    by rw [pending_zero EdpPacket.bytes_ne_nil, written_newBuffer]⟩

theorem length_pending_le (ps : List EdpPacket) (n : ℕ) :
    (pending EdpPacket.bytes ps n).length ≤ n := by
  have h := congrArg List.length (take_stream EdpPacket.bytes ps n)
  rw [List.length_take, List.length_append] at h
  omega

theorem length_le_stream (gs : List EdpPacket) :
    gs.length ≤ (stream EdpPacket.bytes gs).length := by
  induction gs with
  | nil => simp
  | cons p gs ih =>
      have htwo := p.two_le_length
      rw [stream_cons, List.length_append, List.length_cons]
      omega

/-- One arrival keeps the receiver in step. -/
theorem InStep.receive {ps : List EdpPacket} {n : ℕ} {r : Received} (h : InStep ps n r)
    {a : Arrival} (hchunk : (stream EdpPacket.bytes ps).take (n + a.chunk.length) =
      (stream EdpPacket.bytes ps).take n ++ a.chunk) (hlt : n + a.chunk.length < 2 ^ 30) :
    InStep ps (n + a.chunk.length) (receive r a) := by
  have hpend := length_pending_le ps n
  obtain ⟨hret, hvalid, hwritten⟩ := writeBytes_spec a.fresh h.valid a.chunk
    (by rw [h.written_eq]; omega)
  have hsplit := pending_append_chunk EdpPacket.bytes ps hchunk
  rw [h.written_eq, hsplit] at hwritten
  have hlen := hvalid.length_written
  have hmany := length_le_stream (arrived EdpPacket.bytes ps n (n + a.chunk.length))
  have htotal := congrArg List.length hsplit
  rw [List.length_append, List.length_append] at htotal
  obtain ⟨hpkgs, hfresh, hflags, hvalid', hrest⟩ := drain_spec a.fresh _
    (unfinished_pending ps (n + a.chunk.length))
    ((writeBytes a.fresh r.buf a.chunk).2.writePos.toNat + 1) _ hvalid
    (by rw [← hlen, hwritten, List.length_append]; omega) hwritten
    (by rw [hwritten, List.length_append]; omega)
  refine ⟨fun ret hmem => ?_, fun flag hmem => ?_, ?_, fun pkg hmem => ?_, hvalid', hrest⟩
  · rcases List.mem_append.mp hmem with hmem | hmem
    · exact h.rets_eq ret hmem
    · rw [List.mem_singleton.mp hmem, hret]
  · rcases List.mem_append.mp hmem with hmem | hmem
    · exact h.flags_nonneg flag hmem
    · exact hflags flag hmem
  · show (r.pkgs ++ _).map Buffer.written = _
    rw [List.map_append, h.pkgs_eq, hpkgs, ← List.map_append,
      take_completed_append_arrived _ _ (Nat.le_add_right n a.chunk.length)]
  · exact (List.mem_append.mp hmem).elim (h.fresh pkg) (hfresh pkg)

/-- The run lemma: the induction is on the arrivals, from the last one back. -/
theorem inStep_receiveAll (m : FreshMemory) (ps : List EdpPacket) (as : List Arrival)
    (hpre : arrivedBytes as <+: stream EdpPacket.bytes ps)
    (hlt : (stream EdpPacket.bytes ps).length < 2 ^ 30) :
    InStep ps (arrivedBytes as).length (receiveAll m as) := by
  induction as using List.reverseRecOn with
  | nil => exact inStep_newBuffer m ps
  | append_singleton as a ih =>
      have hbytes : arrivedBytes (as ++ [a]) = arrivedBytes as ++ a.chunk := by
        simp [arrivedBytes]
      rw [hbytes] at hpre
      have hbefore : arrivedBytes as <+: stream EdpPacket.bytes ps :=
        (List.prefix_append _ _).trans hpre
      have hlen := hpre.length_le
      rw [List.length_append] at hlen
      have hchunk : (stream EdpPacket.bytes ps).take ((arrivedBytes as).length + a.chunk.length) =
          (stream EdpPacket.bytes ps).take (arrivedBytes as).length ++ a.chunk := by
        rw [← List.length_append, ← List.prefix_iff_eq_take.mp hpre,
          ← List.prefix_iff_eq_take.mp hbefore]
      have hstep := (ih hbefore).receive hchunk (by omega)
      rw [hbytes, List.length_append, receiveAll, List.foldl_append]
      exact hstep

/-- Whatever the chunks are: after each of them the packets returned so far are those
completed so far, byte for byte, the receive buffer keeps the bytes behind them and has no
packet left, and neither `WriteBytes` nor `IsPkgComplete` has reported an error. -/
theorem getEdpPacket_segments (m : FreshMemory) (ps : List EdpPacket) (as : List Arrival)
    (hstream : arrivedBytes as = stream EdpPacket.bytes ps)
    (hlt : (stream EdpPacket.bytes ps).length < 2 ^ 30) :
    ∀ k ≤ as.length,
      let n := (arrivedBytes (as.take k)).length
      let r := receiveAll m (as.take k)
      (∀ ret ∈ r.rets, ret = 0) ∧ (∀ flag ∈ r.flags, 0 ≤ flag) ∧
        r.pkgs.map Buffer.written =
          (ps.take (completed EdpPacket.bytes ps n)).map EdpPacket.bytes ∧
        r.buf.written = pending EdpPacket.bytes ps n ∧ isPkgComplete r.buf = 0 := by
  intro k _ n r
  have hpre : arrivedBytes (as.take k) <+: stream EdpPacket.bytes ps := by
    rw [← hstream]
    exact ⟨arrivedBytes (as.drop k), by
      rw [arrivedBytes, arrivedBytes, ← List.flatMap_append, List.take_append_drop]; rfl⟩
  have h := inStep_receiveAll m ps (as.take k) hpre hlt
  refine ⟨h.rets_eq, h.flags_nonneg, h.pkgs_eq, h.written_eq, isPkgComplete_unfinished h.valid ?_⟩
  rw [h.written_eq]
  exact unfinished_pending ps n

/-- A ping response. -/
def pingResp : EdpPacket :=
  ⟨0xD0, [0], [], (isField_cons_of_lt (by decide) []).mpr rfl, by decide, rfl⟩

/-- A connection response. -/
def connResp : EdpPacket :=
  ⟨0x20, [2], [0, 0], (isField_cons_of_lt (by decide) []).mpr rfl, by decide, rfl⟩

/-- The second packet is cut behind its type byte. -/
theorem getEdpPacket_segments_twoPackets :
    let as : List Arrival := [⟨[0xD0, 0, 0x20], zeroMemory⟩, ⟨[2, 0, 0], zeroMemory⟩]
    (receiveAll zeroMemory (as.take 1)).pkgs.map Buffer.written = [[0xD0, 0]] ∧
      (receiveAll zeroMemory (as.take 1)).buf.written = [0x20] := by
  have h := getEdpPacket_segments zeroMemory [pingResp, connResp]
    [⟨[0xD0, 0, 0x20], zeroMemory⟩, ⟨[2, 0, 0], zeroMemory⟩] rfl (by decide) 1 (by decide)
  exact ⟨h.2.2.1, h.2.2.2.1⟩

end Edp
