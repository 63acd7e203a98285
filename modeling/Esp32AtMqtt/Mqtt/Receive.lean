import Esp32AtMqtt.Mqtt.Dispatch
import Esp32AtMqtt.Mqtt.Length
import Esp32AtMqtt.Stream.Framing

/-!
# Receiving packets from the byte stream

`Mqtt_RecvPkt` of `mqtt.c` reads a chunk behind the bytes it has kept, hands every
complete packet in the buffer to the dispatcher, and moves the rest to the front.
The results about the loop hold of every dispatcher, that is, of every function on
the fixed-header byte and the packet's body that may rewrite the body in place.

The move copies as many bytes as were consumed, not as many as are left, so a rest
longer than what was consumed is only partly moved; `moved_take` says what the
buffer keeps then.

A packet is a fixed-header byte, a length field of at most four bytes and a body of
that length. `Short` packets are those whose length field the reader accepts.
-/

namespace Mqtt

open Base128 Framing

/-- `MQTTERR_ENDOFFILE`. -/
def mqtterrEndoffile : ℤ := -2

/-- `MQTTERR_IO`. -/
def mqtterrIo : ℤ := -3

/-- `MQTTERR_BUF_OVERFLOW`. -/
def mqtterrBufOverflow : ℤ := -9

/-- The receiving part of `struct MqttContext`: the bytes from `bgn` to `end`, and
`pos - bgn`. -/
structure MqttContext where
  buf : List UInt8
  pos : ℕ
  deriving DecidableEq, Repr

/-- `Mqtt_InitContext(ctx, buf_size)`, when `malloc` returns a buffer of that size with
the contents `buf`. -/
def mqttInitContext (buf : List UInt8) : MqttContext := ⟨buf, 0⟩

/-- How the loop of `Mqtt_RecvPkt` ends: with `return err`, or by `break`; with the
callbacks' state, the buffer, the cursor, and the calls of the dispatcher. -/
structure RecvLoopEnd (σ : Type*) where
  err : Option ℤ
  state : σ
  buf : List UInt8
  cursor : ℕ
  calls : List (UInt8 × List UInt8)

/-- Calls of the dispatcher before the rest of the loop. -/
def RecvLoopEnd.addCalls {σ : Type*} (cs : List (UInt8 × List UInt8))
    (r : RecvLoopEnd σ) : RecvLoopEnd σ :=
  { r with calls := cs ++ r.calls }

/-- The loop of `Mqtt_RecvPkt`. Every round that goes on consumes a byte at least,
so `pos` rounds are enough. -/
def mqttRecvPktLoop {σ : Type*} (D : MqttDispatcher σ) :
    ℕ → σ → List UInt8 → ℕ → ℕ → RecvLoopEnd σ
  | 0, s, buf, _, cursor => ⟨none, s, buf, cursor, []⟩
  | fuel + 1, s, buf, pos, cursor =>
      if pos - cursor < 2 then ⟨none, s, buf, cursor, []⟩
      else
        let r := mqttReadLength (buf.drop (cursor + 1)) (pos - cursor - 1)
        if r.1 = -1 then ⟨none, s, buf, cursor, []⟩
        else if r.1 = -2 then ⟨some mqtterrIllegalPkt, s, buf, cursor, []⟩
        else
          let bytes := r.1.toNat
          let remainingLen := r.2.toNat
          if cursor + remainingLen + bytes + 1 > pos then ⟨none, s, buf, cursor, []⟩
          else
            let start := cursor + bytes + 1
            let fh := buf.getD cursor 0
            let pkt := (buf.drop start).take remainingLen
            let d := D.dispatch s fh pkt
            let buf := buf.take start ++ d.pkt ++ buf.drop (start + remainingLen)
            if d.errcode < 0 then
              ⟨some d.errcode, d.state, buf, cursor, [(fh, pkt)]⟩
            else
              (mqttRecvPktLoop D fuel d.state buf pos (start + remainingLen)).addCalls
                [(fh, pkt)]

/-- The byte at the offset `i` from `bgn`; `outside` are the bytes behind the
buffer. -/
def byteAt (buf : List UInt8) (outside : ℕ → UInt8) (i : ℕ) : UInt8 :=
  buf.getD i (outside (i - buf.length))

/-- `memmove(ctx->bgn, cursor, movebytes)` with `movebytes = cursor - ctx->bgn`. -/
def moved (buf : List UInt8) (outside : ℕ → UInt8) (cursor : ℕ) : List UInt8 :=
  (List.range cursor).map (fun i => byteAt buf outside (cursor + i)) ++ buf.drop cursor

/-- The result of a call: the returned code, the callbacks' state, the context and
the calls of the dispatcher. -/
structure RecvResult (σ : Type*) where
  ret : ℤ
  state : σ
  ctx : MqttContext
  calls : List (UInt8 × List UInt8)

/-- `Mqtt_RecvPkt(ctx)`, when `read_func` stores `chunk` at `ctx->pos` and returns
its length (`none` when it returns a negative number). -/
def mqttRecvPkt {σ : Type*} (D : MqttDispatcher σ) (outside : ℕ → UInt8) (s : σ)
    (ctx : MqttContext) (read : Option (List UInt8)) : RecvResult σ :=
  match read with
  | none => ⟨mqtterrIo, s, ctx, []⟩
  | some [] => ⟨mqtterrEndoffile, s, { ctx with pos := 0 }, []⟩
  | some chunk =>
      let buf := ctx.buf.take ctx.pos ++ chunk ++ ctx.buf.drop (ctx.pos + chunk.length)
      let pos := ctx.pos + chunk.length
      if pos > ctx.buf.length then ⟨mqtterrBufOverflow, s, ⟨buf, pos⟩, []⟩
      else
        let r := mqttRecvPktLoop D pos s buf pos 0
        match r.err with
        | some e => ⟨e, r.state, ⟨r.buf, pos⟩, r.calls⟩
        | none =>
            if 0 < r.cursor then
              ⟨mqtterrNoerror, r.state,
                ⟨moved r.buf outside r.cursor, pos - r.cursor⟩, r.calls⟩
            else ⟨mqtterrNoerror, r.state, ⟨r.buf, pos⟩, r.calls⟩

/-- A well-formed packet: the length field is one, of at most four bytes, and stands
for the length of the body. -/
structure MqttPacket where
  fh : UInt8
  lenField : List UInt8
  body : List UInt8
  isField : IsField lenField
  length_le : lenField.length ≤ 4
  value_eq : value lenField = body.length

/-- The bytes of a packet. -/
def MqttPacket.bytes (p : MqttPacket) : List UInt8 := p.fh :: (p.lenField ++ p.body)

/-- The length field takes at most three bytes. -/
def MqttPacket.Short (p : MqttPacket) : Prop := p.lenField.length ≤ 3

theorem MqttPacket.bytes_ne_nil (p : MqttPacket) : p.bytes ≠ [] := by
  simp [MqttPacket.bytes]

theorem MqttPacket.length_bytes (p : MqttPacket) :
    p.bytes.length = p.lenField.length + p.body.length + 1 := by
  simp [MqttPacket.bytes]

/-- The body of a short packet has fewer than `2^21` bytes. -/
theorem MqttPacket.Short.body_lt {p : MqttPacket} (h : p.Short) : p.body.length < 2 ^ 21 := by
  have hlt := value_lt_of_length_le (f := p.lenField) (k := 3) h
  rw [p.value_eq] at hlt
  simpa using hlt

/-- What the loop reads at the start of a short packet. -/
theorem readLength_packet {p : MqttPacket} (h : p.Short) (rest : List UInt8) (size : ℕ)
    (hsize : p.lenField.length ≤ size) :
    (mqttReadLength (p.lenField ++ rest) size).1 = p.lenField.length ∧
      (mqttReadLength (p.lenField ++ rest) size).2.toNat = p.body.length := by
  have hlt := h.body_lt
  rw [mqttReadLength_field rest size p.isField h hsize, p.value_eq]
  refine ⟨rfl, ?_⟩
  rw [UInt32.toNat_ofNat', Nat.mod_eq_of_lt (by omega)]

@[simp] theorem addCalls_nil {σ : Type*} (r : RecvLoopEnd σ) : r.addCalls [] = r := rfl

@[simp] theorem addCalls_append {σ : Type*} (cs ds : List (UInt8 × List UInt8))
    (r : RecvLoopEnd σ) : (r.addCalls ds).addCalls cs = r.addCalls (cs ++ ds) := by
  simp [RecvLoopEnd.addCalls]

/-- The bytes behind the fixed header, as the loop addresses them. -/
theorem drop_header (pre : List UInt8) (p : MqttPacket) (rest : List UInt8) :
    (pre ++ p.bytes ++ rest).drop (pre.length + 1) = p.lenField ++ (p.body ++ rest) := by
  have hsplit : pre ++ p.bytes ++ rest =
      (pre ++ [p.fh]) ++ (p.lenField ++ (p.body ++ rest)) := by
    simp [MqttPacket.bytes]
  rw [hsplit, List.drop_left' (by simp)]

/-- The body of the packet at the cursor, as the loop addresses it. -/
theorem take_body (pre : List UInt8) (p : MqttPacket) (rest : List UInt8) :
    ((pre ++ p.bytes ++ rest).drop (pre.length + p.lenField.length + 1)).take p.body.length =
      p.body := by
  have hsplit : pre ++ p.bytes ++ rest =
      (pre ++ p.fh :: p.lenField) ++ (p.body ++ rest) := by
    simp [MqttPacket.bytes]
  rw [hsplit, List.drop_left' (by simp; omega), List.take_left' rfl]

/-- One round at the start of a short packet that has arrived completely: the
dispatcher gets exactly its fixed header and body. -/
theorem recvLoop_packet {σ : Type*} (D : MqttDispatcher σ) {p : MqttPacket} (hp : p.Short)
    (fuel : ℕ) (s : σ) (pre rest : List UInt8) (pos : ℕ)
    (hpos : pre.length + p.bytes.length ≤ pos) (hdisp : 0 ≤ (D.dispatch s p.fh p.body).errcode) :
    mqttRecvPktLoop D (fuel + 1) s (pre ++ p.bytes ++ rest) pos pre.length =
      (mqttRecvPktLoop D fuel (D.dispatch s p.fh p.body).state
        (pre ++ (p.fh :: (p.lenField ++ (D.dispatch s p.fh p.body).pkt)) ++ rest) pos
        (pre.length + p.bytes.length)).addCalls [(p.fh, p.body)] := by
  have hlen := p.length_bytes
  have hfield := p.isField.length_pos
  obtain ⟨hret, hval⟩ := readLength_packet hp (p.body ++ rest)
    (pos - pre.length - 1) (by omega)
  have hbody := take_body pre p rest
  have hhead : (pre ++ p.bytes ++ rest).getD pre.length 0 = p.fh := by
    simp [MqttPacket.bytes]
  have hfront : (pre ++ p.bytes ++ rest).take (pre.length + p.lenField.length + 1) =
      pre ++ p.fh :: p.lenField := by
    have hsplit : pre ++ p.bytes ++ rest =
        (pre ++ p.fh :: p.lenField) ++ (p.body ++ rest) := by
      simp [MqttPacket.bytes]
    rw [hsplit, List.take_left' (by simp; omega)]
  have hback : (pre ++ p.bytes ++ rest).drop
      (pre.length + p.lenField.length + 1 + p.body.length) = rest := by
    rw [List.drop_left' (by rw [List.length_append, hlen]; omega)]
  have htwo : ¬ pos - pre.length < 2 := by omega
  have hne1 : ¬ ((p.lenField.length : ℤ) = -1) := by omega
  have hne2 : ¬ ((p.lenField.length : ℤ) = -2) := by omega
  have hfits : ¬ pre.length + p.body.length + p.lenField.length + 1 > pos := by omega
  rw [mqttRecvPktLoop, if_neg htwo, drop_header]
  simp only [hret, hval, if_neg hne1, if_neg hne2, Int.toNat_natCast, if_neg hfits, hbody, hhead,
    hfront, hback]
  have hbuf : (pre ++ p.fh :: p.lenField) ++ (D.dispatch s p.fh p.body).pkt ++ rest =
      pre ++ (p.fh :: (p.lenField ++ (D.dispatch s p.fh p.body).pkt)) ++ rest := by
    simp
  have hcursor : pre.length + p.lenField.length + 1 + p.body.length =
      pre.length + (p.lenField.length + p.body.length + 1) := by
    omega
  rw [if_neg (Int.not_lt.mpr hdisp), hlen, hbuf, hcursor]

/-- Every handler succeeds on the packets, one after the other. -/
def Accepts {σ : Type*} (D : MqttDispatcher σ) : σ → List MqttPacket → Prop
  | _, [] => True
  | s, p :: ps =>
      0 ≤ (D.dispatch s p.fh p.body).errcode ∧ Accepts D (D.dispatch s p.fh p.body).state ps

/-- The callbacks' state after the packets. -/
def dispatchAll {σ : Type*} (D : MqttDispatcher σ) : σ → List MqttPacket → σ
  | s, [] => s
  | s, p :: ps => dispatchAll D (D.dispatch s p.fh p.body).state ps

theorem dispatchAll_append {σ : Type*} (D : MqttDispatcher σ) (s : σ)
    (ps qs : List MqttPacket) :
    dispatchAll D s (ps ++ qs) = dispatchAll D (dispatchAll D s ps) qs := by
  induction ps generalizing s with
  | nil => rfl
  | cons p ps ih => exact ih _

theorem accepts_append {σ : Type*} (D : MqttDispatcher σ) (s : σ) (ps qs : List MqttPacket) :
    Accepts D s (ps ++ qs) ↔ Accepts D s ps ∧ Accepts D (dispatchAll D s ps) qs := by
  induction ps generalizing s with
  | nil => simp [Accepts, dispatchAll]
  | cons p ps ih => simp only [List.cons_append, Accepts, dispatchAll, ih, and_assoc]

/-- The call of the dispatcher that a packet is due. -/
def MqttPacket.call (p : MqttPacket) : UInt8 × List UInt8 := (p.fh, p.body)

/-- The loop passes over the short packets that have arrived, in order. -/
theorem recvLoop_packets {σ : Type*} (D : MqttDispatcher σ) (gs : List MqttPacket) :
    ∀ (fuel : ℕ) (s : σ) (pre rest : List UInt8) (pos : ℕ), (∀ p ∈ gs, p.Short) →
      Accepts D s gs → pre.length + (stream MqttPacket.bytes gs).length ≤ pos →
      ∃ pre', pre'.length = pre.length + (stream MqttPacket.bytes gs).length ∧
        mqttRecvPktLoop D (fuel + gs.length) s
            (pre ++ stream MqttPacket.bytes gs ++ rest) pos pre.length =
          (mqttRecvPktLoop D fuel (dispatchAll D s gs) (pre' ++ rest) pos pre'.length).addCalls
            (gs.map MqttPacket.call) := by
  induction gs with
  | nil => exact fun fuel s pre rest pos _ _ _ => ⟨pre, by simp, by simp [dispatchAll]⟩
  | cons p gs ih =>
      intro fuel s pre rest pos hshort hacc hpos
      rw [stream_cons, List.length_append] at hpos
      set d := D.dispatch s p.fh p.body with hd
      have hpkt : d.pkt.length = p.body.length := D.length_pkt s p.fh p.body
      obtain ⟨pre', hlen', hloop⟩ := ih fuel d.state
        (pre ++ (p.fh :: (p.lenField ++ d.pkt))) rest pos
        (fun q hq => hshort q (by simp [hq])) hacc.2
        (by simp only [List.length_append, List.length_cons, hpkt, p.length_bytes] at hpos ⊢
            omega)
      refine ⟨pre', ?_, ?_⟩
      · rw [hlen', stream_cons]
        simp only [List.length_append, List.length_cons, hpkt, p.length_bytes]
        omega
      · have hstep := recvLoop_packet D (hshort p (by simp)) (fuel + gs.length) s pre
          (stream MqttPacket.bytes gs ++ rest) pos (by omega) hacc.1
        have hcur : pre.length + p.bytes.length =
            (pre ++ (p.fh :: (p.lenField ++ d.pkt))).length := by
          simp only [List.length_append, List.length_cons, hpkt, p.length_bytes]
        rw [List.length_cons, ← Nat.add_assoc, stream_cons, List.append_assoc, List.append_assoc,
          ← List.append_assoc pre, hstep, ← hd, hcur, ← List.append_assoc, hloop,
          addCalls_append, List.map_cons, List.singleton_append]
        rfl

/-- Bytes that the loop waits behind: there are none, or they are a strict prefix of a
packet, whose length field is short or has not come with more than two bytes. -/
def Waits (q : List UInt8) : Prop :=
  q = [] ∨ ∃ p : MqttPacket, q <+: p.bytes ∧ q ≠ p.bytes ∧ (p.Short ∨ q.length ≤ 3)

/-- The loop stops at bytes it has to wait behind. -/
theorem recvLoop_rest {σ : Type*} (D : MqttDispatcher σ) (fuel : ℕ) (s : σ)
    (pre q post : List UInt8) (hq : Waits q) :
    mqttRecvPktLoop D fuel s (pre ++ q ++ post) (pre.length + q.length) pre.length =
      ⟨none, s, pre ++ q ++ post, pre.length, []⟩ := by
  cases fuel with
  | zero => rfl
  | succ fuel =>
      rw [mqttRecvPktLoop]
      by_cases htwo : pre.length + q.length - pre.length < 2
      · rw [if_pos htwo]
      · rw [if_neg htwo]
        obtain ⟨p, hpre, hne, hfew⟩ : ∃ p : MqttPacket, q <+: p.bytes ∧ q ≠ p.bytes ∧
            (p.Short ∨ q.length ≤ 3) := by
          rcases hq with rfl | hq
          · simp at htwo
          · exact hq
        obtain ⟨fh, q', rfl⟩ : ∃ fh q', q = fh :: q' := by
          cases q with
          | nil => simp at htwo
          | cons fh q' => exact ⟨fh, q', rfl⟩
        obtain ⟨rfl, hpre'⟩ : fh = p.fh ∧ q' <+: p.lenField ++ p.body := by
          simpa [MqttPacket.bytes, List.cons_prefix_cons] using hpre
        have hdrop : (pre ++ (p.fh :: q') ++ post).drop (pre.length + 1) = q' ++ post := by
          have hsplit : pre ++ (p.fh :: q') ++ post = (pre ++ [p.fh]) ++ (q' ++ post) := by simp
          rw [hsplit, List.drop_left' (by simp)]
        have hsize : pre.length + (p.fh :: q').length - pre.length - 1 = q'.length := by simp
        rw [hdrop, hsize]
        have htake : mqttReadLength (q' ++ post) q'.length = mqttReadLength q' q'.length := by
          simp [mqttReadLength]
        rw [htake]
        by_cases hfield : p.lenField <+: q'
        · -- the length is known, and says that more bytes are to come
          obtain ⟨tail, rfl⟩ := hfield
          have hshort : p.Short := by
            rcases hfew with h | h
            · exact h
            · simp only [List.length_cons, List.length_append] at h
              exact Nat.le_trans (Nat.le_add_right _ tail.length) (by omega)
          obtain ⟨hret, hval⟩ := readLength_packet hshort tail
            (p.lenField ++ tail).length (by simp)
          have htail : tail.length < p.body.length := by
            refine lt_of_le_of_ne ?_ fun heq => hne ?_
            · exact (List.prefix_append_right_inj _).mp hpre' |>.length_le
            · have hb := ((List.prefix_append_right_inj _).mp hpre').eq_of_length heq
              rw [MqttPacket.bytes, hb]
          have hne1 : ¬ ((p.lenField.length : ℤ) = -1) := by omega
          have hne2 : ¬ ((p.lenField.length : ℤ) = -2) := by omega
          simp only [hret, hval, if_neg hne1, if_neg hne2, Int.toNat_natCast]
          rw [if_pos (by simp only [List.length_cons, List.length_append]; omega)]
        · -- the rest ends inside the length field
          have hstart : q' <+: p.lenField := by
            rcases List.prefix_or_prefix_of_prefix hpre' (List.prefix_append p.lenField p.body)
              with h | h
            · exact h
            · exact absurd h hfield
          have hne' : q' ≠ p.lenField := fun h => hfield (by rw [h])
          have hlt : q'.length < p.lenField.length :=
            lt_of_le_of_ne hstart.length_le fun h => hne' (hstart.eq_of_length h)
          have htwo' : q'.length ≤ 2 := by
            rcases hfew with h | h
            · exact Nat.le_of_lt_succ (hlt.trans_le h)
            · simp only [List.length_cons] at h
              omega
          have hcode := mqttReadLength_short q'.length
            (p.isField.continues_of_strict hstart hne') htwo'
          rw [if_pos hcode]

/-- Bytes that begin with a fixed header and three length bytes that continue. -/
def LongHead (q : List UInt8) : Prop :=
  ∃ fh a b c rest, q = fh :: a :: b :: c :: rest ∧
    128 ≤ a.toNat ∧ 128 ≤ b.toNat ∧ 128 ≤ c.toNat

/-- A packet that is not short begins so, and so does every part of it from four bytes
on. -/
theorem longHead_of_prefix {p : MqttPacket} (hp : ¬ p.Short) {q : List UInt8}
    (hq : p.bytes.take 4 <+: q) : LongHead q := by
  obtain ⟨a, b, c, tail, heq, hcont⟩ :=
    three_continue_of_isField p.isField (Nat.not_le.mp hp)
  have htake : p.bytes.take 4 = [p.fh, a, b, c] := by
    simp [MqttPacket.bytes, heq]
  obtain ⟨rest, rfl⟩ := hq
  exact ⟨p.fh, a, b, c, rest, by simp [htake], hcont⟩

/-- The loop refuses such bytes. -/
theorem recvLoop_long {σ : Type*} (D : MqttDispatcher σ) {q : List UInt8} (hq : LongHead q)
    (fuel : ℕ) (s : σ) (pre post : List UInt8) :
    (mqttRecvPktLoop D (fuel + 1) s (pre ++ q ++ post) (pre.length + q.length)
      pre.length).err = some mqtterrIllegalPkt := by
  obtain ⟨fh, a, b, c, rest, rfl, ha, hb, hc⟩ := hq
  have htwo : ¬ pre.length + (fh :: a :: b :: c :: rest).length - pre.length < 2 := by
    simp only [List.length_cons]
    omega
  have hdrop : (pre ++ (fh :: a :: b :: c :: rest) ++ post).drop (pre.length + 1) =
      a :: b :: c :: (rest ++ post) := by
    have hsplit : pre ++ (fh :: a :: b :: c :: rest) ++ post =
        (pre ++ [fh]) ++ (a :: b :: c :: (rest ++ post)) := by
      simp
    rw [hsplit, List.drop_left' (by simp)]
  have hcode := mqttReadLength_three (rest ++ post)
    (pre.length + (fh :: a :: b :: c :: rest).length - pre.length - 1) ha hb hc
    (by simp only [List.length_cons]; omega)
  rw [mqttRecvPktLoop, if_neg htwo, hdrop]
  simp only [hcode]
  rw [if_neg (by decide), if_pos trivial]

/-- The first bytes behind the move, when `left` were to be kept: those that were
copied, and after them the old ones. -/
theorem moved_take (front left back : List UInt8) (outside : ℕ → UInt8) :
    (moved (front ++ left ++ back) outside front.length).take left.length =
      left.take front.length ++ left.take (left.length - front.length) := by
  have hdrop : (front ++ left ++ back).drop front.length = left ++ back := by
    rw [List.append_assoc, List.drop_left' rfl]
  have hcopy : ((List.range front.length).map fun i =>
      byteAt (front ++ left ++ back) outside (front.length + i)).take left.length =
        left.take front.length := by
    refine List.ext_getElem (by simp [Nat.min_comm]) fun i hi _ => ?_
    simp only [List.length_take, List.length_map, List.length_range, lt_inf_iff] at hi
    have hlt : front.length + i < (front ++ left ++ back).length := by simp; omega
    simp only [List.getElem_take, List.getElem_map, List.getElem_range, byteAt]
    rw [List.getD_eq_getElem?_getD, List.getElem?_eq_getElem hlt, Option.getD_some,
      List.getElem_append_left (by simp; omega), List.getElem_append_right (by omega)]
    simp
  rw [moved, hdrop, List.take_append, hcopy, List.length_map, List.length_range,
    List.take_append_of_le_length (by omega)]

theorem length_moved {buf : List UInt8} {cursor : ℕ} (h : cursor ≤ buf.length)
    (outside : ℕ → UInt8) : (moved buf outside cursor).length = buf.length := by
  simp [moved, h]

@[simp] theorem moved_zero (buf : List UInt8) (outside : ℕ → UInt8) :
    moved buf outside 0 = buf := by
  simp [moved]

theorem length_le_stream (fs : List MqttPacket) :
    fs.length ≤ (stream MqttPacket.bytes fs).length := by
  induction fs with
  | nil => simp
  | cons p fs ih =>
      have hlen := p.length_bytes
      rw [stream_cons, List.length_append, List.length_cons]
      omega

/-- The length of what is stored, with the chunk put behind the kept bytes. -/
theorem length_stored {ctx : MqttContext} {chunk stored : List UInt8}
    (hroom : ctx.pos + chunk.length ≤ ctx.buf.length)
    (hstored : ctx.buf.take ctx.pos ++ chunk = stored) :
    ctx.pos + chunk.length = stored.length := by
  rw [← hstored, List.length_append, List.length_take, Nat.min_eq_left (by omega)]

/-- A call whose chunk completes the short packets `gs`: the dispatcher gets these,
and the bytes `left` behind them are moved to the front by the number of bytes in
`front`, which lie where the packets were. -/
theorem mqttRecvPkt_arrived {σ : Type*} (D : MqttDispatcher σ) (outside : ℕ → UInt8) (s : σ)
    {ctx : MqttContext} {chunk left : List UInt8} {gs : List MqttPacket} (hne : chunk ≠ [])
    (hroom : ctx.pos + chunk.length ≤ ctx.buf.length)
    (hstored : ctx.buf.take ctx.pos ++ chunk = stream MqttPacket.bytes gs ++ left)
    (hshort : ∀ p ∈ gs, p.Short) (hacc : Accepts D s gs) (hleft : Waits left) :
    ∃ front back, front.length = (stream MqttPacket.bytes gs).length ∧
      (front ++ left ++ back).length = ctx.buf.length ∧
      mqttRecvPkt D outside s ctx (some chunk) =
        ⟨mqtterrNoerror, dispatchAll D s gs,
          ⟨moved (front ++ left ++ back) outside front.length, left.length⟩,
          gs.map MqttPacket.call⟩ := by
  set back := ctx.buf.drop (ctx.pos + chunk.length) with hback
  have hlen := length_stored hroom hstored
  rw [List.length_append] at hlen
  obtain ⟨fuel, hfuel⟩ : ∃ fuel, ctx.pos + chunk.length = fuel + gs.length := by
    have hle := length_le_stream gs
    exact ⟨ctx.pos + chunk.length - gs.length, by omega⟩
  obtain ⟨front, hfront, hloop⟩ := recvLoop_packets D gs fuel s [] (left ++ back)
    (ctx.pos + chunk.length) hshort hacc (by simp; omega)
  rw [List.length_nil, Nat.zero_add] at hfront
  rw [← hfuel, List.length_nil] at hloop
  have hrest := recvLoop_rest D fuel (dispatchAll D s gs) front left back hleft
  have hpos : ctx.pos + chunk.length = front.length + left.length := by omega
  have hbuf : ctx.buf.take ctx.pos ++ chunk ++ back =
      [] ++ stream MqttPacket.bytes gs ++ (left ++ back) := by
    rw [hstored, List.nil_append, List.append_assoc]
  have hall : mqttRecvPktLoop D (ctx.pos + chunk.length) s
      (ctx.buf.take ctx.pos ++ chunk ++ back) (ctx.pos + chunk.length) 0 =
        ⟨none, dispatchAll D s gs, front ++ left ++ back, front.length,
          gs.map MqttPacket.call⟩ := by
    rw [hbuf, hloop, hpos, ← List.append_assoc, hrest]
    simp [RecvLoopEnd.addCalls]
  refine ⟨front, back, hfront, ?_, ?_⟩
  · rw [List.length_append, List.length_append, hback, List.length_drop]
    omega
  · obtain ⟨b, chunk', rfl⟩ := List.exists_cons_of_ne_nil hne
    have hover : ¬ ctx.pos + (b :: chunk').length > ctx.buf.length := by omega
    simp only [mqttRecvPkt, if_neg hover, ← hback, hall]
    split_ifs with hcur
    · rw [hpos, Nat.add_sub_cancel_left]
    · have hzero : front.length = 0 := by omega
      rw [hpos, hzero, moved_zero, Nat.zero_add]

/-- A call fails when the length field of the next packet is too long. -/
theorem mqttRecvPkt_long {σ : Type*} (D : MqttDispatcher σ) (outside : ℕ → UInt8) (s : σ)
    {ctx : MqttContext} {chunk q : List UInt8} {gs : List MqttPacket} (hne : chunk ≠ [])
    (hroom : ctx.pos + chunk.length ≤ ctx.buf.length)
    (hstored : ctx.buf.take ctx.pos ++ chunk = stream MqttPacket.bytes gs ++ q)
    (hshort : ∀ p ∈ gs, p.Short) (hacc : Accepts D s gs) (hq : LongHead q) :
    (mqttRecvPkt D outside s ctx (some chunk)).ret = mqtterrIllegalPkt := by
  set back := ctx.buf.drop (ctx.pos + chunk.length) with hback
  have hlen := length_stored hroom hstored
  have hqlen : 0 < q.length := by
    obtain ⟨fh, a, b, c, rest, rfl, -⟩ := hq
    simp
  have hle := length_le_stream gs
  rw [List.length_append] at hlen
  obtain ⟨fuel, hfuel⟩ : ∃ fuel, ctx.pos + chunk.length = (fuel + 1) + gs.length :=
    ⟨ctx.pos + chunk.length - gs.length - 1, by omega⟩
  obtain ⟨front, hfront, hloop⟩ := recvLoop_packets D gs (fuel + 1) s [] (q ++ back)
    (ctx.pos + chunk.length) hshort hacc (by simp; omega)
  rw [List.length_nil, Nat.zero_add] at hfront
  rw [← hfuel, List.length_nil] at hloop
  have hlong := recvLoop_long D hq fuel (dispatchAll D s gs) front back
  have hpos : ctx.pos + chunk.length = front.length + q.length := by omega
  have hbuf : ctx.buf.take ctx.pos ++ chunk ++ back =
      [] ++ stream MqttPacket.bytes gs ++ (q ++ back) := by
    rw [hstored, List.nil_append, List.append_assoc]
  have herr : (mqttRecvPktLoop D (ctx.pos + chunk.length) s
      (ctx.buf.take ctx.pos ++ chunk ++ back) (ctx.pos + chunk.length) 0).err =
        some mqtterrIllegalPkt := by
    rw [hbuf, hloop, hpos, ← List.append_assoc]
    exact hlong
  obtain ⟨b, chunk', rfl⟩ := List.exists_cons_of_ne_nil hne
  have hover : ¬ ctx.pos + (b :: chunk').length > ctx.buf.length := by omega
  simp only [mqttRecvPkt, if_neg hover, ← hback, herr]

end Mqtt
