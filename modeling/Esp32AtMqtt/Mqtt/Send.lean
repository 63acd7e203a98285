import Esp32AtMqtt.Mqtt.Buffer
import Mathlib.Data.List.Infix
import Mathlib.Tactic.Common

/-!
# Sending a packet and resuming after a short write

`Mqtt_SendPkt` of `mqtt.c` hands the extents of a buffer to `writev_func`, from a
byte offset on. It skips extents while the bytes skipped are fewer than the
offset, so when the offset lies inside an extent it stops behind that extent, and
the correction of the first `iovec` then points in front of the next payload:
`offset - bytes` is negative, as an unsigned number and on a pointer of the same
width.

`ResumeOk` describes the offsets at which the unsent suffix is handed over all the
same: those at the start of an extent, and those where the memory in front of the
next payload happens to hold the bytes that should have been sent.
-/

namespace Mqtt

open FlatMemory

/-- `struct iovec`. -/
structure Iovec where
  iovBase : UInt32
  iovLen : UInt32
  deriving DecidableEq, Repr

/-- The skipping loop of `Mqtt_SendPkt`: the extents from the cursor on, and
`bytes`. -/
def mqttSendPktSkip : List MqttExtent → UInt32 → UInt32 → List MqttExtent × UInt32
  | [], bytes, _ => ([], bytes)
  | e :: es, bytes, offset =>
      if bytes < offset then mqttSendPktSkip es (bytes + e.len) offset
      else (e :: es, bytes)

/-- The filling of the `iovec` array: `d` is `offset - bytes`, which corrects the
first entry. -/
def mqttSendPktFill (firstExt : MqttExtent) (rest : List MqttExtent) (d : UInt32) :
    List Iovec :=
  ⟨firstExt.payload + d, firstExt.len - d⟩ :: rest.map fun e => ⟨e.payload, e.len⟩

/-- The `iovec` array that `Mqtt_SendPkt(ctx, buf, offset)` builds; `none` where it
returns `0` without one. -/
def mqttSendPktIov (buf : MqttBuffer) (offset : UInt32) : Option (List Iovec) :=
  if offset ≥ buf.bufferedBytes then none
  else
    match mqttSendPktSkip buf.extents 0 offset with
    | ([], _) => none
    | (firstExt :: rest, bytes) => some (mqttSendPktFill firstExt rest (offset - bytes))

/-- `Mqtt_SendPkt(ctx, buf, offset)`. `writev` stands for `ctx->writev_func`, which
reads the memory and may change the state of its argument. -/
def mqttSendPkt {σ : Type*}
    (writev : σ → (UInt32 → UInt8) → List Iovec → ℤ × σ) (s : σ)
    (buf : MqttBuffer) (offset : UInt32) (h : MqttHeap) : ℤ × σ × MqttHeap :=
  match mqttSendPktIov buf offset with
  | none => (0, s, h)
  | some iov =>
      match h.malloc with
      | (none, h) => (-1, s, h)
      | (some p, h) =>
          let r := writev s h.mem iov
          (r.1, r.2, h.free (some p))

/-- The bytes that an `iovec` array refers to, one after the other. -/
def flattenIov (mem : UInt32 → UInt8) (iov : List Iovec) : List UInt8 :=
  iov.flatMap fun v => readMem mem v.iovBase v.iovLen.toNat

/-- `Mqtt_SendPkt` at this offset hands exactly the unsent suffix to
`writev_func`. -/
def SendsSuffix (mem : UInt32 → UInt8) (buf : MqttBuffer) (offset : UInt32) : Prop :=
  ∃ iov, mqttSendPktIov buf offset = some iov ∧
    flattenIov mem iov = (flattenExtents mem buf.extents).drop offset.toNat

/-- The offset is at the start of an extent; or it lies inside an extent with
another one behind it, and the memory in front of that one's payload holds the
unsent bytes of the extent. -/
def ResumeOk (mem : UInt32 → UInt8) : List MqttExtent → ℕ → Prop
  | _, 0 => True
  | [], _ + 1 => False
  | e :: es, o + 1 =>
      if e.len.toNat ≤ o + 1 then ResumeOk mem es (o + 1 - e.len.toNat)
      else
        match es with
        | [] => False
        | f :: _ =>
            let t := e.len.toNat - (o + 1)
            readMem mem (f.payload - UInt32.ofNat t) t =
              readMem mem (e.payload + UInt32.ofNat (o + 1)) t

theorem skip_of_not_lt {bytes offset : UInt32} (h : ¬ bytes < offset)
    (es : List MqttExtent) : mqttSendPktSkip es bytes offset = (es, bytes) := by
  cases es with
  | nil => rfl
  | cons e es => simp [mqttSendPktSkip, h]

theorem skip_of_lt {bytes offset : UInt32} (h : bytes < offset) (e : MqttExtent)
    (es : List MqttExtent) : mqttSendPktSkip (e :: es) bytes offset =
      mqttSendPktSkip es (bytes + e.len) offset := by
  simp [mqttSendPktSkip, h]

theorem flattenIov_map (mem : UInt32 → UInt8) (es : List MqttExtent) :
    flattenIov mem (es.map fun e => ⟨e.payload, e.len⟩) = flattenExtents mem es := by
  simp [flattenIov, flattenExtents, List.flatMap_map]

/-- Without a correction the array is the extents themselves. -/
theorem flattenIov_fill_zero (mem : UInt32 → UInt8) (e : MqttExtent)
    (es : List MqttExtent) :
    flattenIov mem (mqttSendPktFill e es 0) = flattenExtents mem (e :: es) := by
  rw [flattenExtents_cons, ← flattenIov_map]
  simp [mqttSendPktFill, flattenIov]

/-- A correction that reaches back by `t` bytes sends those bytes first. -/
theorem flattenIov_fill_neg (mem : UInt32 → UInt8) (f : MqttExtent)
    (rest : List MqttExtent) {t : ℕ} (ht : f.len.toNat + t < 2 ^ 32) :
    flattenIov mem (mqttSendPktFill f rest (0 - UInt32.ofNat t)) =
      readMem mem (f.payload - UInt32.ofNat t) t ++ flattenExtents mem (f :: rest) := by
  have hbase : f.payload + (0 - UInt32.ofNat t) = f.payload - UInt32.ofNat t := by
    rw [UInt32.zero_sub, UInt32.sub_eq_add_neg]
  have hlen : (f.len - (0 - UInt32.ofNat t)).toNat = t + f.len.toNat := by
    rw [UInt32.zero_sub, UInt32.sub_neg, UInt32.toNat_add, UInt32.toNat_ofNat']
    omega
  have hback : f.payload - UInt32.ofNat t + UInt32.ofNat t = f.payload :=
    UInt32.sub_add_cancel _ _
  rw [mqttSendPktFill, flattenIov, List.flatMap_cons, hbase, hlen, readMem_add, hback,
    flattenExtents_cons, List.append_assoc]
  congr 2
  exact flattenIov_map mem rest

/-- The array built from the extents `es` when the skipping loop stands at `bytes`
sends the suffix from the offset `o` on. -/
def SendsFrom (mem : UInt32 → UInt8) (es : List MqttExtent) (bytes offset : UInt32)
    (o : ℕ) : Prop :=
  ∃ f rest b, mqttSendPktSkip es bytes offset = (f :: rest, b) ∧
    flattenIov mem (mqttSendPktFill f rest (offset - b)) = (flattenExtents mem es).drop o

/-- The offset lies inside the first extent: the loop stops behind it. -/
theorem sendsFrom_inside (mem : UInt32 → UInt8) (e : MqttExtent) (es : List MqttExtent)
    {bytes offset : UInt32} {o : ℕ} (ho : 0 < o) (hoff : offset.toNat = bytes.toNat + o)
    (hsum : bytes.toNat + extentsLength (e :: es) < 2 ^ 32) (hin : o < e.len.toNat) :
    SendsFrom mem (e :: es) bytes offset o ↔ ResumeOk mem (e :: es) o := by
  obtain ⟨n, rfl⟩ : ∃ n, o = n + 1 := ⟨o - 1, by omega⟩
  have hlt : bytes < offset := by
    rw [UInt32.lt_iff_toNat_lt]
    omega
  rw [extentsLength_cons] at hsum
  have hadd : (bytes + e.len).toNat = bytes.toNat + e.len.toNat := by
    rw [UInt32.toNat_add]
    omega
  have hstop : ¬ bytes + e.len < offset := by
    rw [UInt32.lt_iff_toNat_lt, hadd]
    omega
  have hskip : mqttSendPktSkip (e :: es) bytes offset = (es, bytes + e.len) := by
    rw [skip_of_lt hlt, skip_of_not_lt hstop]
  have hd : offset - (bytes + e.len) = 0 - UInt32.ofNat (e.len.toNat - (n + 1)) := by
    rw [← UInt32.toNat_inj, UInt32.toNat_sub, UInt32.toNat_sub, hadd, UInt32.toNat_ofNat',
      hoff, UInt32.toNat_zero]
    omega
  have hnot : ¬ e.len.toNat ≤ n + 1 := Nat.not_le.mpr hin
  cases es with
  | nil =>
      simp only [ResumeOk, if_neg hnot, iff_false]
      rintro ⟨f, rest, b, h, -⟩
      rw [hskip] at h
      simp at h
  | cons f rest =>
      rw [extentsLength_cons] at hsum
      have hdrop : (flattenExtents mem (e :: f :: rest)).drop (n + 1) =
          readMem mem (e.payload + UInt32.ofNat (n + 1)) (e.len.toNat - (n + 1)) ++
            flattenExtents mem (f :: rest) := by
        have hlen : e.len.toNat = n + 1 + (e.len.toNat - (n + 1)) := by omega
        rw [flattenExtents_cons, List.drop_append_of_le_length (by simpa using hin.le), hlen,
          readMem_drop]
        congr 2
        omega
      simp only [ResumeOk, if_neg hnot]
      constructor
      · rintro ⟨f', rest', b, h, hflat⟩
        rw [hskip] at h
        obtain ⟨⟨rfl, rfl⟩, rfl⟩ : (f = f' ∧ rest = rest') ∧ bytes + e.len = b := by
          simpa using h
        rw [hd, flattenIov_fill_neg mem f rest (by omega), hdrop] at hflat
        exact List.append_cancel_right hflat
      · intro h
        refine ⟨f, rest, bytes + e.len, hskip, ?_⟩
        rw [hd, flattenIov_fill_neg mem f rest (by omega), hdrop, h]

/-- The skipping loop from any of its states: the induction is on the extents not
looked at yet, with `o` bytes still to skip. -/
theorem sendsFrom_iff (mem : UInt32 → UInt8) (es : List MqttExtent) :
    ∀ (bytes offset : UInt32) (o : ℕ), offset.toNat = bytes.toNat + o →
      bytes.toNat + extentsLength es < 2 ^ 32 → o < extentsLength es →
        (SendsFrom mem es bytes offset o ↔ ResumeOk mem es o) := by
  induction es with
  | nil =>
      intro bytes offset o _ _ ho
      simp at ho
  | cons e es ih =>
      intro bytes offset o hoff hsum ho
      by_cases h0 : o = 0
      · subst h0
        have heq : offset = bytes := UInt32.toNat_inj.mp (by simpa using hoff)
        subst heq
        refine iff_of_true ⟨e, es, offset, skip_of_not_lt (UInt32.lt_irrefl _) _, ?_⟩ ?_
        · rw [UInt32.sub_self, flattenIov_fill_zero, List.drop_zero]
        · simp [ResumeOk]
      · by_cases hin : o < e.len.toNat
        · exact sendsFrom_inside mem e es (Nat.pos_of_ne_zero h0) hoff hsum hin
        · obtain ⟨n, rfl⟩ : ∃ n, o = n + 1 := ⟨o - 1, by omega⟩
          have hle : e.len.toNat ≤ n + 1 := Nat.not_lt.mp hin
          rw [extentsLength_cons] at hsum ho
          have hlt : bytes < offset := by
            rw [UInt32.lt_iff_toNat_lt]
            omega
          have hadd : (bytes + e.len).toNat = bytes.toNat + e.len.toNat := by
            rw [UInt32.toNat_add]
            omega
          have hdrop : (flattenExtents mem (e :: es)).drop (n + 1) =
              (flattenExtents mem es).drop (n + 1 - e.len.toNat) := by
            rw [flattenExtents_cons, List.drop_append, length_readMem,
              List.drop_of_length_le (by simpa using hle), List.nil_append]
          have hrec := ih (bytes + e.len) offset (n + 1 - e.len.toNat)
            (by rw [hadd]; omega) (by rw [hadd]; omega) (by omega)
          simp only [ResumeOk, if_pos hle, ← hrec]
          simp only [SendsFrom, skip_of_lt hlt, hdrop]

/-- Below `buffered_bytes` the unsent suffix is handed over exactly at the offsets
that `ResumeOk` describes. -/
theorem sendsSuffix_iff (mem : UInt32 → UInt8) {buf : MqttBuffer} (hbuf : buf.Counted)
    {offset : UInt32} (hoff : offset < buf.bufferedBytes) :
    SendsSuffix mem buf offset ↔ ResumeOk mem buf.extents offset.toNat := by
  have hlt : offset.toNat < extentsLength buf.extents := by
    rw [← hbuf]
    exact UInt32.lt_iff_toNat_lt.mp hoff
  have hsum : extentsLength buf.extents < 2 ^ 32 := by
    rw [← hbuf]
    exact buf.bufferedBytes.toNat_lt
  have hiff := sendsFrom_iff mem buf.extents 0 offset offset.toNat (by simp)
    (by simpa using hsum) hlt
  rw [← hiff]
  have hge : ¬ offset ≥ buf.bufferedBytes := UInt32.not_le.mpr hoff
  simp only [SendsSuffix, SendsFrom, mqttSendPktIov, if_neg hge]
  constructor
  · rintro ⟨iov, hiov, hflat⟩
    split at hiov
    · simp at hiov
    · rename_i f rest b heq
      have hfill := Option.some.inj hiov
      exact ⟨f, rest, b, heq, by rw [hfill]; exact hflat⟩
  · rintro ⟨f, rest, b, heq, hflat⟩
    exact ⟨_, by rw [heq], hflat⟩

/-- What the sending side of `MqttSample_HandleSocket` keeps: the bytes handed to the
connection, and `sendedbytes`, with `none` for `-1`. -/
structure SendRun where
  wire : List UInt8
  sendedbytes : Option UInt32
  deriving DecidableEq, Repr

/-- A `writev_func` that takes the first `n` bytes of what it is given. -/
def shortWrite (n : UInt32) (wire : List UInt8) (mem : UInt32 → UInt8)
    (iov : List Iovec) : ℤ × List UInt8 :=
  (n.toNat, wire ++ (flattenIov mem iov).take n.toNat)

/-- The `EPOLLOUT` branch of `MqttSample_HandleSocket`, with a `writev_func` that
takes `n` bytes and the `iovec` array allocated at `p`. -/
def mqttSampleHandleSocket (mem : UInt32 → UInt8) (buf : MqttBuffer) (p : UInt32)
    (s : SendRun) (n : UInt32) : SendRun :=
  match s.sendedbytes with
  | none => s
  | some sended =>
      let (bytes, wire, _) :=
        mqttSendPkt (shortWrite n) s.wire buf sended ⟨mem, [some p], []⟩
      if bytes < 0 then { s with wire := wire }
      else
        let sended := sended + UInt32.ofNat bytes.toNat
        ⟨wire, if sended = buf.bufferedBytes then none else some sended⟩

/-- Every offset reached by these returned counts is one to resume at. -/
def OffsetsOk (mem : UInt32 → UInt8) (es : List MqttExtent) : ℕ → List UInt32 → Prop
  | _, [] => True
  | o, n :: ns => ResumeOk mem es o ∧ OffsetsOk mem es (o + n.toNat) ns

/-- The sum of the returned counts. -/
def countSum (ns : List UInt32) : ℕ := (ns.map UInt32.toNat).sum

theorem countSum_cons (n : UInt32) (ns : List UInt32) :
    countSum (n :: ns) = n.toNat + countSum ns := rfl

/-- The sending state when `o` bytes of the buffer have gone out. -/
def sentState (mem : UInt32 → UInt8) (buf : MqttBuffer) (o : ℕ) : SendRun :=
  ⟨(flattenExtents mem buf.extents).take o,
    if o = extentsLength buf.extents then none else some (UInt32.ofNat o)⟩

/-- One event: the count returned moves the state on by as many bytes. -/
theorem handleSocket_sentState (mem : UInt32 → UInt8) {buf : MqttBuffer}
    (hbuf : buf.Counted) (p : UInt32) {o : ℕ} {n : UInt32}
    (hle : o + n.toNat ≤ extentsLength buf.extents) (hok : ResumeOk mem buf.extents o) :
    mqttSampleHandleSocket mem buf p (sentState mem buf o) n =
      sentState mem buf (o + n.toNat) := by
  by_cases hdone : o = extentsLength buf.extents
  · -- everything is sent, so the event finds `sendedbytes` at `-1`
    have hn : n.toNat = 0 := by omega
    simp [mqttSampleHandleSocket, sentState, hdone, hn]
  have hsum : extentsLength buf.extents < 2 ^ 32 := by
    rw [← hbuf]
    exact buf.bufferedBytes.toNat_lt
  have ho : (UInt32.ofNat o).toNat = o := by
    rw [UInt32.toNat_ofNat']
    omega
  have hoff : UInt32.ofNat o < buf.bufferedBytes := by
    rw [UInt32.lt_iff_toNat_lt, hbuf, ho]
    omega
  obtain ⟨iov, hiov, hflat⟩ := (sendsSuffix_iff mem hbuf hoff).mpr (by rwa [ho])
  have hnext : UInt32.ofNat o + UInt32.ofNat n.toNat = UInt32.ofNat (o + n.toNat) :=
    (UInt32.ofNat_add _ _).symm
  have hend : UInt32.ofNat (o + n.toNat) = buf.bufferedBytes ↔
      o + n.toNat = extentsLength buf.extents := by
    rw [← UInt32.toNat_inj, hbuf, UInt32.toNat_ofNat', Nat.mod_eq_of_lt (by omega)]
  have hwire : (flattenExtents mem buf.extents).take o ++ (flattenIov mem iov).take n.toNat =
      (flattenExtents mem buf.extents).take (o + n.toNat) := by
    rw [hflat, ho, List.take_add]
  simp only [mqttSampleHandleSocket, sentState, if_neg hdone, mqttSendPkt, hiov,
    MqttHeap.malloc, List.head?_cons, Option.join_some, shortWrite, hwire]
  rw [if_neg (by omega), Int.toNat_natCast, hnext]
  simp only [hend]

/-- A whole resumption: the events move the state on by the sum of their counts. -/
theorem handleSocket_run (mem : UInt32 → UInt8) {buf : MqttBuffer} (hbuf : buf.Counted)
    (p : UInt32) (ns : List UInt32) :
    ∀ o : ℕ, o + countSum ns ≤ extentsLength buf.extents →
      OffsetsOk mem buf.extents o ns →
        ns.foldl (mqttSampleHandleSocket mem buf p) (sentState mem buf o) =
          sentState mem buf (o + countSum ns) := by
  induction ns with
  | nil => exact fun _ _ _ => rfl
  | cons n ns ih =>
      intro o hle hok
      rw [countSum_cons] at hle
      have hstep := handleSocket_sentState mem hbuf p (n := n) (by omega) hok.1
      have hrest := ih (o + n.toNat) (by omega) hok.2
      rw [List.foldl_cons, hstep, hrest, countSum_cons, Nat.add_assoc]

/-- `Mqtt_SendPkt` hands over the unsent suffix exactly at the offsets of `ResumeOk`,
and a caller that resumes only at such offsets, whatever the short writes, has sent
the first bytes of the packet in order, and all of it once the counts reach its
length. -/
theorem mqttSendPkt_suffix_iff (mem : UInt32 → UInt8) (buf : MqttBuffer) (p : UInt32)
    (hbuf : buf.Counted) :
    (∀ offset < buf.bufferedBytes,
      (SendsSuffix mem buf offset ↔ ResumeOk mem buf.extents offset.toNat)) ∧
    ∀ ns : List UInt32, countSum ns ≤ extentsLength buf.extents →
      OffsetsOk mem buf.extents 0 ns →
        ns.foldl (mqttSampleHandleSocket mem buf p) (sentState mem buf 0) =
          sentState mem buf (countSum ns) := by
  refine ⟨fun offset hoff => sendsSuffix_iff mem hbuf hoff, fun ns hle hok => ?_⟩
  have h := handleSocket_run mem hbuf p ns 0 (by omega) hok
  rwa [Nat.zero_add] at h

/-- Two extents of two bytes each, at the addresses 0 and 100. -/
def twoExtents : MqttBuffer :=
  { mqttBufferInit with extents := [⟨2, 0⟩, ⟨2, 100⟩], bufferedBytes := 4 }

theorem counted_twoExtents : twoExtents.Counted := rfl

/-- At the offset 2 the second extent is sent, and the two events that return 2 each
send the whole buffer. -/
theorem mqttSendPkt_suffix_twoExtents :
    twoExtents.Counted ∧
      SendsSuffix (fun a => a.toUInt8) twoExtents 2 ∧
      [2, 2].foldl (mqttSampleHandleSocket (fun a => a.toUInt8) twoExtents 0)
          (sentState (fun a => a.toUInt8) twoExtents 0) =
        sentState (fun a => a.toUInt8) twoExtents 4 := by
  have h := mqttSendPkt_suffix_iff (fun a => a.toUInt8) twoExtents 0 counted_twoExtents
  refine ⟨counted_twoExtents, (h.1 2 (by decide)).mpr ?_, h.2 [2, 2] (by decide) ?_⟩
  · simp [ResumeOk, twoExtents]
  · simp [OffsetsOk, ResumeOk, twoExtents]

/-- At the offset 1 of the same buffer the array begins one byte in front of the
second payload: the bytes `63 64 65` go out instead of `01 64 65`. -/
theorem mqttSendPkt_not_suffix_inside_extent :
    ¬ ∀ (mem : UInt32 → UInt8) (buf : MqttBuffer) (offset : UInt32), buf.Counted →
      offset < buf.bufferedBytes → SendsSuffix mem buf offset := by
  intro hall
  have h := hall (fun a => a.toUInt8) twoExtents 1 counted_twoExtents (by decide)
  rw [sendsSuffix_iff _ counted_twoExtents (by decide)] at h
  simp [ResumeOk, twoExtents, readMem] at h

end Mqtt
