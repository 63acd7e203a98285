import Esp32AtMqtt.Stream.Shortest
import Mathlib.Data.List.Forall2

/-!
# Cutting the received bytes into lines

`at_recv_readline` reads one character after another until a line ends: with carriage
return and line feed, with the client's end sign, or because what is in the receive
buffer is a whole URC. Once the buffer is full the characters are read and dropped, and
the line counts as failed.

`LineEnd` says which lists of bytes are complete lines, in terms of the bytes alone. A
call takes the shortest complete line off the stream, whether the buffer holds it or not.
-/

namespace AtCmd

open Shortest

/-- `strncmp(s, t, n) == 0`. Past the end of a list stands its terminator. -/
def strncmpEq : ℕ → List UInt8 → List UInt8 → Bool
  | 0, _, _ => true
  | n + 1, s, t =>
      if s.headD 0 = t.headD 0 then
        if s.headD 0 = 0 then true else strncmpEq n s.tail t.tail
      else false

/-- The strings of a `struct at_urc`, without their terminators. -/
structure AtUrc where
  cmdPrefix : List UInt8
  cmdSuffix : List UInt8
  prefix_string : 0 ∉ cmdPrefix
  suffix_string : 0 ∉ cmdSuffix

theorem AtUrc.strings_inj {u v : AtUrc} :
    u.cmdPrefix = v.cmdPrefix ∧ u.cmdSuffix = v.cmdSuffix ↔ u = v := by
  cases u
  cases v
  exact (AtUrc.mk.injEq ..).symm ▸ Iff.rfl

instance : DecidableEq AtUrc := fun _ _ => decidable_of_iff _ AtUrc.strings_inj

/-- The fields of `struct at_client` that the receiving side works on. `recv_bufsz` is
the length of `recv_buffer`, as `at_client_para_init` allocates it; the buffer is a block
of the target's memory, so its size fits `int`. -/
structure Receiver where
  recvBuffer : List UInt8
  curRecvLen : ℕ
  endSign : UInt8
  urcTable : Option (List AtUrc)
  deriving DecidableEq

/-- The field `recv_bufsz`. -/
def Receiver.recvBufsz (client : Receiver) : ℕ := client.recvBuffer.length

/-- The tests of one round of `get_urc_obj`. -/
def urcMatches (client : Receiver) (urc : AtUrc) : Bool :=
  let prefixLen := urc.cmdPrefix.length
  let suffixLen := urc.cmdSuffix.length
  if client.curRecvLen < prefixLen + suffixLen then false
  else
    (if prefixLen ≠ 0 then strncmpEq prefixLen client.recvBuffer urc.cmdPrefix else true) &&
      (if suffixLen ≠ 0 then
        strncmpEq suffixLen (client.recvBuffer.drop (client.curRecvLen - suffixLen))
          urc.cmdSuffix
      else true)

/-- `get_urc_obj(client)`; `none` is `RT_NULL`. -/
def getUrcObj (client : Receiver) : Option AtUrc :=
  match client.urcTable with
  | none => none
  | some table => table.find? (urcMatches client)

/-- `memset(client->recv_buffer, 0x00, client->recv_bufsz); client->cur_recv_len = 0`. -/
def Receiver.clear (client : Receiver) : Receiver :=
  { client with recvBuffer := List.replicate client.recvBufsz 0, curRecvLen := 0 }

/-- The client and the locals of `at_recv_readline` before a character is read. -/
structure ReadLoop where
  client : Receiver
  readLen : ℕ
  lastCh : UInt8
  isFull : Bool

/-- The character is stored, or the buffer is full. -/
def ReadLoop.store (l : ReadLoop) (ch : UInt8) : ReadLoop :=
  if l.readLen < l.client.recvBufsz then
    { l with
      client := { l.client with
        recvBuffer := l.client.recvBuffer.set l.readLen ch
        curRecvLen := l.readLen + 1 }
      readLen := l.readLen + 1 }
  else { l with isFull := true }

/-- "is newline or URC data". -/
def ReadLoop.ended (l : ReadLoop) (ch : UInt8) : Bool :=
  (ch = 10 && l.lastCh = 13) || (l.client.endSign ≠ 0 && ch = l.client.endSign) ||
    (getUrcObj l.client).isSome

/-- `RT_EFULL`. -/
def rtEfull : ℤ := 3

/-- What the function returns and leaves behind at the end of a line. -/
def ReadLoop.result (l : ReadLoop) : ℤ × Receiver :=
  if l.isFull then (-rtEfull, l.client.clear) else (l.readLen, l.client)

/-- The loop on the bytes still to come; `none` while `at_client_getchar` waits for more. -/
def readLoop : ReadLoop → List UInt8 → Option ((ℤ × Receiver) × List UInt8)
  | _, [] => none
  | l, ch :: stream =>
      let l := l.store ch
      if l.ended ch then some (l.result, stream)
      else readLoop { l with lastCh := ch } stream

/-- `at_recv_readline(client)` on the bytes to come: the result, the client behind the
call, and the bytes it has not read. -/
def atRecvReadline (client : Receiver) (stream : List UInt8) :
    Option ((ℤ × Receiver) × List UInt8) :=
  readLoop ⟨client.clear, 0, 0, false⟩ stream

/-- `n` calls one behind the other, up to one that waits: their results, and the bytes
that no finished call has read. -/
def readlines : ℕ → Receiver → List UInt8 → List (ℤ × Receiver) × List UInt8
  | 0, _, stream => ([], stream)
  | n + 1, client, stream =>
      match atRecvReadline client stream with
      | none => ([], stream)
      | some (r, rest) =>
          let (rs, rest) := readlines n r.2 rest
          (r :: rs, rest)

/-- `urc` stands around the bytes `p`: its prefix in front, its suffix at the end, and the
two do not overlap. -/
def AtUrc.Around (urc : AtUrc) (p : List UInt8) : Prop :=
  urc.cmdPrefix <+: p ∧ urc.cmdSuffix <:+ p ∧ urc.cmdPrefix.length + urc.cmdSuffix.length ≤ p.length

/-- The bytes `p` are a complete line. -/
def LineEnd (client : Receiver) (p : List UInt8) : Prop :=
  [13, 10] <:+ p ∨ (client.endSign ≠ 0 ∧ [client.endSign] <:+ p) ∨
    (p.length ≤ client.recvBufsz ∧ ∃ urc ∈ client.urcTable.getD [], urc.Around p)

/-- The result of a call that has read the line `p`: its length with the line in the
buffer, or `-RT_EFULL` with nothing in it. -/
structure LineResult (client : Receiver) (p : List UInt8) (r : ℤ × Receiver) : Prop where
  fits : p.length ≤ client.recvBufsz → r.1 = p.length ∧ r.2.curRecvLen = p.length ∧
    r.2.recvBuffer = p ++ List.replicate (client.recvBufsz - p.length) 0
  full : client.recvBufsz < p.length → r.1 = -rtEfull ∧ r.2.curRecvLen = 0 ∧
    r.2.recvBuffer = List.replicate client.recvBufsz 0
  recvBufsz : r.2.recvBufsz = client.recvBufsz
  endSign : r.2.endSign = client.endSign
  urcTable : r.2.urcTable = client.urcTable

/-- What a call on the bytes `stream` comes to: it has taken off the shortest complete
line, or there is none yet. -/
def CallFramed (client : Receiver) (stream : List UInt8) :
    Option ((ℤ × Receiver) × List UInt8) → Prop
  | none => Unended (LineEnd client) stream
  | some (r, rest) =>
      ∃ p, stream = p ++ rest ∧ IsShortest (LineEnd client) p ∧ LineResult client p r

/-- What `n` calls come to: the lines taken off are one behind the other, and fewer than
`n` of them only when the rest holds none. -/
def CallsFramed (client : Receiver) (n : ℕ) (stream : List UInt8)
    (out : List (ℤ × Receiver) × List UInt8) : Prop :=
  ∃ lines : List (List UInt8), stream = lines.flatten ++ out.2 ∧
    List.Forall₂ (fun p r => IsShortest (LineEnd client) p ∧ LineResult client p r) lines out.1 ∧
    (lines.length = n ∨ lines.length < n ∧ Unended (LineEnd client) out.2)

/-- A string without a zero byte is compared over its whole length. -/
theorem strncmpEq_iff {s t : List UInt8} (h : 0 ∉ t) : strncmpEq t.length s t ↔ t <+: s := by
  induction t generalizing s with
  | nil => simp [strncmpEq]
  | cons b t ih =>
      have hb : b ≠ 0 := fun h0 => h (h0 ▸ List.mem_cons_self)
      have ht : 0 ∉ t := fun h0 => h (List.mem_cons_of_mem b h0)
      cases s with
      | nil => simp [strncmpEq, Ne.symm hb]
      | cons a s =>
          rw [List.length_cons, strncmpEq, List.cons_prefix_cons]
          by_cases hab : a = b
          · subst hab
            simp [hb, ih ht]
          · simp [hab, Ne.symm hab]

/-- The client and the locals once the bytes `s` have been read and stored. -/
structure ReadLoop.Stored (client : Receiver) (s : List UInt8) (l : ReadLoop) : Prop where
  recvBuffer : l.client.recvBuffer =
    s.take client.recvBufsz ++ List.replicate (client.recvBufsz - s.length) 0
  curRecvLen : l.client.curRecvLen = min s.length client.recvBufsz
  readLen : l.readLen = min s.length client.recvBufsz
  isFull : l.isFull = decide (client.recvBufsz < s.length)
  endSign : l.client.endSign = client.endSign
  urcTable : l.client.urcTable = client.urcTable

section

variable {client : Receiver} {s : List UInt8} {l : ReadLoop}

theorem stored_nil (client : Receiver) : ReadLoop.Stored client [] ⟨client.clear, 0, 0, false⟩ := by
  constructor <;> simp [Receiver.clear]

theorem ReadLoop.Stored.recvBufsz (h : ReadLoop.Stored client s l) :
    l.client.recvBufsz = client.recvBufsz := by
  rw [Receiver.recvBufsz, h.recvBuffer, List.length_append, List.length_take,
    List.length_replicate]
  omega

/-- One more character, while the buffer has room for it. -/
theorem ReadLoop.Stored.store_fits (h : ReadLoop.Stored client s l)
    (hroom : s.length < client.recvBufsz) (ch : UInt8) :
    ReadLoop.Stored client (s ++ [ch]) (l.store ch) := by
  have hread : l.readLen = s.length := h.readLen.trans (Nat.min_eq_left (Nat.le_of_lt hroom))
  have hstore : l.readLen < l.client.recvBufsz := by
    rw [hread, h.recvBufsz]
    exact hroom
  have hlen : (s ++ [ch]).length = s.length + 1 := List.length_append
  rw [ReadLoop.store, if_pos hstore]
  refine ⟨?_, ?_, ?_, ?_, h.endSign, h.urcTable⟩
  · show l.client.recvBuffer.set l.readLen ch = _
    obtain ⟨k, hk⟩ : ∃ k, client.recvBufsz - s.length = k + 1 :=
      ⟨client.recvBufsz - s.length - 1, by omega⟩
    rw [h.recvBuffer, hread, List.take_of_length_le (Nat.le_of_lt hroom), hk,
      List.take_of_length_le (by rw [hlen]; exact hroom), hlen,
      show client.recvBufsz - (s.length + 1) = k by omega,
      List.set_append_right _ _ (Nat.le_refl _), Nat.sub_self, List.replicate_succ,
      List.set_cons_zero, List.append_assoc]
    rfl
  · show l.readLen + 1 = _
    rw [hread, hlen, Nat.min_eq_left hroom]
  · show l.readLen + 1 = _
    rw [hread, hlen, Nat.min_eq_left hroom]
  · rw [hlen, decide_eq_false (by omega)]
    exact h.isFull.trans (decide_eq_false (by omega))

/-- One more character, once the buffer is full. -/
theorem ReadLoop.Stored.store_full (h : ReadLoop.Stored client s l)
    (hfull : client.recvBufsz ≤ s.length) (ch : UInt8) :
    ReadLoop.Stored client (s ++ [ch]) (l.store ch) := by
  have hread : l.readLen = client.recvBufsz := h.readLen.trans (Nat.min_eq_right hfull)
  have hstore : ¬ l.readLen < l.client.recvBufsz := by
    rw [hread, h.recvBufsz]
    exact Nat.lt_irrefl _
  have hlen : (s ++ [ch]).length = s.length + 1 := List.length_append
  have hmin : min (s ++ [ch]).length client.recvBufsz = min s.length client.recvBufsz := by omega
  rw [ReadLoop.store, if_neg hstore]
  refine ⟨?_, ?_, ?_, ?_, h.endSign, h.urcTable⟩
  · show l.client.recvBuffer = _
    rw [h.recvBuffer, List.take_append_of_le_length hfull, hlen,
      Nat.sub_eq_zero_of_le hfull, Nat.sub_eq_zero_of_le (Nat.le_succ_of_le hfull)]
  · rw [hmin]
    exact h.curRecvLen
  · rw [hmin]
    exact h.readLen
  · exact (decide_eq_true (by omega)).symm

theorem ReadLoop.Stored.store (h : ReadLoop.Stored client s l) (ch : UInt8) :
    ReadLoop.Stored client (s ++ [ch]) (l.store ch) := by
  rcases Nat.lt_or_ge s.length client.recvBufsz with hroom | hfull
  · exact h.store_fits hroom ch
  · exact h.store_full hfull ch

/-- `last_ch = ch` is no part of it. -/
theorem ReadLoop.Stored.setLast (h : ReadLoop.Stored client s l) (ch : UInt8) :
    ReadLoop.Stored client s { l with lastCh := ch } :=
  ⟨h.recvBuffer, h.curRecvLen, h.readLen, h.isFull, h.endSign, h.urcTable⟩

/-- A list no longer than `p` begins `p ++ rest` when it begins `p`. -/
theorem prefix_append_iff {t p rest : List UInt8} (h : t.length ≤ p.length) :
    t <+: p ++ rest ↔ t <+: p :=
  ⟨fun ht => List.prefix_of_prefix_length_le ht (List.prefix_append p rest) h,
    fun ht => ht.trans (List.prefix_append p rest)⟩

/-- The tests of `get_urc_obj` on a buffer that begins with the `cur_recv_len` bytes `p`. -/
theorem urcMatches_iff {p rest : List UInt8} (hbuf : client.recvBuffer = p ++ rest)
    (hlen : client.curRecvLen = p.length) (urc : AtUrc) :
    urcMatches client urc ↔ urc.Around p := by
  have hskip : ∀ (n : ℕ) (s t : List UInt8),
      (if n ≠ 0 then strncmpEq n s t else true) = strncmpEq n s t := by
    rintro (_ | n) s t
    · rfl
    · rfl
  rw [urcMatches, hskip, hskip, hbuf, hlen, AtUrc.Around]
  split_ifs with hshort
  · have hno : ¬ urc.cmdPrefix.length + urc.cmdSuffix.length ≤ p.length := Nat.not_le_of_lt hshort
    simp [hno]
  · have hle : urc.cmdPrefix.length + urc.cmdSuffix.length ≤ p.length := Nat.le_of_not_lt hshort
    have hcut : p.length - urc.cmdSuffix.length ≤ p.length := Nat.sub_le _ _
    have hrest : urc.cmdSuffix.length = (p.drop (p.length - urc.cmdSuffix.length)).length := by
      rw [List.length_drop]
      omega
    have hsuffix : urc.cmdSuffix <+: p.drop (p.length - urc.cmdSuffix.length) ↔
        urc.cmdSuffix <:+ p := by
      rw [List.suffix_iff_eq_drop]
      exact ⟨fun h => h.eq_of_length hrest, fun h => h ▸ List.prefix_refl _⟩
    rw [Bool.and_eq_true, strncmpEq_iff urc.prefix_string, strncmpEq_iff urc.suffix_string,
      prefix_append_iff (by omega), List.drop_append_of_le_length hcut,
      prefix_append_iff (Nat.le_of_eq hrest), hsuffix]
    exact ⟨fun h => ⟨h.1, h.2, hle⟩, fun h => ⟨h.1, h.2.1⟩⟩

/-- `get_urc_obj` finds an entry when one stands around the bytes in the buffer. -/
theorem getUrcObj_isSome_iff {p rest : List UInt8} (hbuf : client.recvBuffer = p ++ rest)
    (hlen : client.curRecvLen = p.length) :
    (getUrcObj client).isSome ↔ ∃ urc ∈ client.urcTable.getD [], urc.Around p := by
  rw [getUrcObj]
  cases client.urcTable with
  | none => simp
  | some table => simp [List.find?_isSome, urcMatches_iff hbuf hlen]

/-- A line feed behind a carriage return. -/
theorem crlf_suffix_iff {ch : UInt8} :
    [13, 10] <:+ s ++ [ch] ↔ ch = 10 ∧ s.getLast?.getD 0 = 13 := by
  have hlast : s.getLast?.getD 0 = 13 ↔ [13] <:+ s := by
    rw [List.singleton_suffix_iff_getLast?_eq_some]
    cases s.getLast? with
    | none => simp
    | some b => simp
  rw [hlast, List.suffix_concat_iff]
  constructor
  · rintro (hnil | ⟨t, ht, hs⟩)
    · cases hnil
    · have hsplit : ([13] : List UInt8) ++ [10] = t ++ [ch] := ht
      obtain ⟨rfl, hch⟩ := List.append_inj' hsplit rfl
      exact ⟨(List.cons.inj hch).1.symm, hs⟩
  · rintro ⟨rfl, hs⟩
    exact .inr ⟨[13], rfl, hs⟩

/-- On the buffer the URC test sees the line, as long as the line fits; a longer one begins
with a full buffer that has been tested before. -/
theorem ReadLoop.Stored.urc_iff {ch : UInt8}
    (h : ReadLoop.Stored client (s ++ [ch]) l) (hpos : 0 < client.recvBufsz)
    (hs : Unended (LineEnd client) s) :
    (getUrcObj l.client).isSome ↔ (s ++ [ch]).length ≤ client.recvBufsz ∧
      ∃ urc ∈ client.urcTable.getD [], urc.Around (s ++ [ch]) := by
  have hlen : l.client.curRecvLen = ((s ++ [ch]).take client.recvBufsz).length := by
    rw [h.curRecvLen, List.length_take, Nat.min_comm]
  rw [getUrcObj_isSome_iff h.recvBuffer hlen, h.urcTable]
  rcases Nat.lt_or_ge client.recvBufsz (s ++ [ch]).length with hfull | hfits
  · have hle : client.recvBufsz ≤ s.length := by
      rw [List.length_append, List.length_singleton] at hfull
      omega
    have hne : s.take client.recvBufsz ≠ [] := by
      rw [Ne, ← List.length_eq_zero_iff, List.length_take_of_le hle]
      exact Nat.ne_of_gt hpos
    have htested : ¬ ∃ urc ∈ client.urcTable.getD [], urc.Around (s.take client.recvBufsz) :=
      fun hurc => hs _ (List.take_prefix _ _) hne (.inr (.inr ⟨List.length_take_le _ _, hurc⟩))
    rw [List.take_append_of_le_length hle]
    exact ⟨fun hurc => absurd hurc htested, fun hurc => absurd hurc.1 (Nat.not_le_of_lt hfull)⟩
  · rw [List.take_of_length_le hfits]
    exact ⟨fun hurc => ⟨hfits, hurc⟩, And.right⟩

/-- The test of the loop is whether the bytes read so far are a complete line. -/
theorem ReadLoop.Stored.ended_iff {ch : UInt8} (h : ReadLoop.Stored client (s ++ [ch]) l)
    (hpos : 0 < client.recvBufsz) (hlast : l.lastCh = s.getLast?.getD 0)
    (hs : Unended (LineEnd client) s) : l.ended ch ↔ LineEnd client (s ++ [ch]) := by
  have hsign : [client.endSign] <:+ s ++ [ch] ↔ ch = client.endSign := by
    rw [List.singleton_suffix_append_singleton_iff]
    exact eq_comm
  rw [LineEnd, crlf_suffix_iff, hsign, ← h.urc_iff hpos hs, ReadLoop.ended, hlast, h.endSign]
  simp [or_assoc]

/-- The result at the end of the line `p`. -/
theorem ReadLoop.Stored.result {p : List UInt8} (h : ReadLoop.Stored client p l) :
    LineResult client p l.result := by
  have hsz := h.recvBufsz
  refine ⟨fun hfits => ?_, fun hfull => ?_, ?_, ?_, ?_⟩
  · have hnot : l.isFull = false := h.isFull.trans (decide_eq_false (Nat.not_lt_of_le hfits))
    have hmin : min p.length client.recvBufsz = p.length := Nat.min_eq_left hfits
    rw [ReadLoop.result, hnot]
    refine ⟨?_, h.curRecvLen.trans hmin, ?_⟩
    · exact congrArg Int.ofNat (h.readLen.trans hmin)
    · have hbuf := h.recvBuffer
      rwa [List.take_of_length_le hfits] at hbuf
  · have hyes : l.isFull = true := h.isFull.trans (decide_eq_true hfull)
    rw [ReadLoop.result, hyes]
    exact ⟨rfl, rfl, by rw [← hsz]; rfl⟩
  · rw [ReadLoop.result]
    split_ifs
    · exact (List.length_replicate).trans hsz
    · exact hsz
  · rw [ReadLoop.result]
    split_ifs <;> exact h.endSign
  · rw [ReadLoop.result]
    split_ifs <;> exact h.urcTable

/-- The loop, once the bytes `s` have been read and no line has ended: one byte more at a
time until one does. -/
theorem readLoop_framed (hpos : 0 < client.recvBufsz) (stream : List UInt8)
    (h : ReadLoop.Stored client s l) (hlast : l.lastCh = s.getLast?.getD 0)
    (hs : Unended (LineEnd client) s) : CallFramed client (s ++ stream) (readLoop l stream) := by
  induction stream generalizing s l with
  | nil =>
      rw [List.append_nil]
      exact hs
  | cons ch stream ih =>
      have hstore := h.store ch
      have hlast' : (l.store ch).lastCh = s.getLast?.getD 0 := by
        rw [← hlast, ReadLoop.store]
        split_ifs <;> rfl
      have hended := hstore.ended_iff hpos hlast' hs
      have hcons : s ++ ch :: stream = s ++ [ch] ++ stream := by simp
      rw [readLoop]
      cases hend : (l.store ch).ended ch with
      | true =>
          have hline := hs.isShortest (hended.mp hend)
          simp only [if_true]
          exact ⟨s ++ [ch], hcons, hline, hstore.result⟩
      | false =>
          have hnot : ¬ LineEnd client (s ++ [ch]) := by
            rw [← hended, hend]
            exact Bool.false_ne_true
          simp only [Bool.false_eq_true, if_false]
          rw [hcons]
          exact ih (hstore.setLast ch) (by simp) (hs.snoc hnot)

theorem atRecvReadline_framed (hpos : 0 < client.recvBufsz) (stream : List UInt8) :
    CallFramed client stream (atRecvReadline client stream) :=
  readLoop_framed hpos stream (stored_nil client) rfl (unended_nil _)

/-- The next call sees the same table, end sign and size of the buffer. -/
theorem LineResult.lineEnd {p : List UInt8} {r : ℤ × Receiver} (h : LineResult client p r) :
    LineEnd r.2 = LineEnd client := by
  funext q
  rw [LineEnd, LineEnd, h.endSign, h.urcTable, h.recvBufsz]

theorem LineResult.trans {p q : List UInt8} {r r' : ℤ × Receiver} (h : LineResult client p r)
    (h' : LineResult r.2 q r') : LineResult client q r' := by
  refine ⟨?_, ?_, h'.recvBufsz.trans h.recvBufsz, h'.endSign.trans h.endSign,
    h'.urcTable.trans h.urcTable⟩
  · rw [← h.recvBufsz]
    exact h'.fits
  · rw [← h.recvBufsz]
    exact h'.full

theorem readlines_framed (n : ℕ) (hpos : 0 < client.recvBufsz) (stream : List UInt8) :
    CallsFramed client n stream (readlines n client stream) := by
  induction n generalizing client stream with
  | zero => exact ⟨[], rfl, .nil, .inl rfl⟩
  | succ n ih =>
      have hcall := atRecvReadline_framed hpos stream
      rw [readlines]
      cases hr : atRecvReadline client stream with
      | none =>
          rw [hr] at hcall
          exact ⟨[], rfl, .nil, .inr ⟨Nat.succ_pos n, hcall⟩⟩
      | some out =>
          obtain ⟨r, rest⟩ := out
          rw [hr] at hcall
          obtain ⟨p, hstream, hline, hresult⟩ := hcall
          have hpos' : 0 < r.2.recvBufsz := by
            rw [hresult.recvBufsz]
            exact hpos
          obtain ⟨lines, hrest, hlines, hcount⟩ := ih hpos' rest
          rw [hresult.lineEnd] at hlines hcount
          refine ⟨p :: lines, ?_, .cons ⟨hline, hresult⟩ ?_, ?_⟩
          · rw [List.flatten_cons, List.append_assoc, ← hrest]
            exact hstream
          · exact hlines.imp fun q r' h => ⟨h.1, hresult.trans h.2⟩
          · rw [List.length_cons]
            exact hcount.imp (congrArg Nat.succ) (And.imp_left Nat.succ_lt_succ)

end

/-- A call takes the shortest complete line off the bytes to come, and calls one behind
the other cut the bytes into such lines, with nothing lost, doubled or carried over. -/
theorem readline_frames (client : Receiver) (hpos : 0 < client.recvBufsz) :
    (∀ stream, CallFramed client stream (atRecvReadline client stream)) ∧
      ∀ n stream, CallsFramed client n stream (readlines n client stream) :=
  ⟨fun stream => atRecvReadline_framed hpos stream, fun n stream => readlines_framed n hpos stream⟩

/-- A URC `+I,` … `:`, as a module announces data with. -/
def urcData : AtUrc := ⟨[43, 73, 44], [58], by decide, by decide⟩

/-- A buffer of 6 bytes, the end sign `>` and one URC. -/
def smallReceiver : Receiver := ⟨List.replicate 6 0, 0, 62, some [urcData]⟩

/-- The bytes `OK`, a line of eight bytes, `+I,3:`, `>` and `AT`: a line, one that does not
fit, a URC, the end sign, and a line that has not ended. -/
theorem readline_frames_small :
    let stream : List UInt8 := [79, 75, 13, 10] ++ [65, 66, 67, 68, 69, 70, 13, 10] ++
      [43, 73, 44, 51, 58] ++ [62] ++ [65, 84]
    ((readlines 9 smallReceiver stream).1.map Prod.fst = [4, -3, 5, 1] ∧
        (readlines 9 smallReceiver stream).2 = [65, 84]) ∧
      CallsFramed smallReceiver 9 stream (readlines 9 smallReceiver stream) :=
  ⟨by decide +kernel, (readline_frames smallReceiver (by decide)).2 9 _⟩

end AtCmd
