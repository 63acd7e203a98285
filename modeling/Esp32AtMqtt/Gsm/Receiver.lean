import Esp32AtMqtt.Stream.Shortest
import Mathlib.Data.List.TakeDrop

/-!
# The receiver of serial frames

`RX_Loop` takes one byte. It waits for the two header bytes, and then stores everything until it
has seen the two tail bytes one behind the other; the length that the frame carries plays no part.
`RX_Loop` also keeps the last bytes in `TempBuf`, which nothing reads; that is left out.

`Ended` are the lists that end with the tail pair, from the third byte on: the second header byte
may be the first byte of the pair. What is received of a frame is its shortest prefix of this
kind (`receives_front`), and nothing behind it is stored.
-/

namespace Gsm

open Shortest

/-- The two receive buffers. -/
inductive RxBuffer
  | buffRX
  | commBuff
  deriving DecidableEq, Repr

/-- `ReceiveDataHandled` and the other values of `ReceiveStation`. -/
def receiveDataHandled : UInt8 := 0
def receiveFistHeard : UInt8 := 1
def receiveSecondHeard : UInt8 := 2
def receiveOnePackedData : UInt8 := 3

/-- `stECEIVE`; a null `pRXBuf` is `none`. -/
structure Receive where
  pRXBuf : Option RxBuffer
  rxBufSize : UInt16
  rxIndex : UInt32
  receiveStation : UInt8
  receiveEnable : UInt8
  firstHeard : UInt8
  secondHeard : UInt8
  firstTail : UInt8
  secondTail : UInt8
  receiveStartTime : UInt32
  deriving DecidableEq, Repr

/-- `MAXRXNUM`. -/
def maxRxNum : ℕ := 512

/-- `RXStructInit(RX, …)` without its `memset` of the buffer, and what it returns. -/
def rxStructInit (rx : Receive) (firstHeard secondHeard firstTail secondTail : UInt8)
    (dataBuf : Option RxBuffer) (dataBufLen : UInt16) : Receive × UInt8 :=
  if dataBuf = none then ({ rx with pRXBuf := dataBuf, rxBufSize := dataBufLen }, 0xff)
  else
    (⟨dataBuf, dataBufLen, 0, receiveDataHandled, 1, firstHeard, secondHeard, firstTail, secondTail,
      rx.receiveStartTime⟩, 0)

/-- A structure that has not been initialized. -/
def Receive.zero : Receive := ⟨none, 0, 0, 0, 0, 0, 0, 0, 0, 0⟩

/-- `ATRX` behind `GSMInit`. -/
def atRxInit : Receive :=
  { (rxStructInit .zero 0x0D 0x0A 0x0D 0x0A (some .buffRX) (UInt16.ofNat maxRxNum)).1 with
    receiveEnable := 0 }

/-- `GSM_TransparentRX` behind `GSMInit`. -/
def transparentRxInit : Receive :=
  (rxStructInit .zero 0x64 0x7A 0x7A 0x64 (some .commBuff) (UInt16.ofNat maxRxNum)).1

/-- `RX_Loop(RX_Struct, ReceiveData)` with `buf` the bytes at `pRXBuf`: the structure behind it,
and the index at which the byte is stored, if it is. -/
def rxLoop (r : Receive) (buf : List UInt8) (receiveData : UInt8) : Receive × Option UInt32 :=
  if r.receiveStation = receiveDataHandled then
    if receiveData = r.firstHeard then
      ({ r with rxIndex := 1, receiveStation := receiveFistHeard }, some 0)
    else (r, none)
  else if r.receiveStation = receiveFistHeard then
    if receiveData = r.secondHeard then
      ({ r with rxIndex := r.rxIndex + 1, receiveStation := receiveSecondHeard }, some r.rxIndex)
    else ({ r with rxIndex := 0, receiveStation := receiveDataHandled }, none)
  else if r.receiveStation = receiveSecondHeard then
    if r.rxIndex < r.rxBufSize.toUInt32 then
      ({ r with
          rxIndex := r.rxIndex + 1
          receiveStation :=
            if receiveData = r.secondTail ∧ buf.getD (r.rxIndex - 1).toNat 0 = r.firstTail then
              receiveOnePackedData
            else r.receiveStation }, some r.rxIndex)
    else (r, none)
  else (r, none)

/-- A structure with the bytes at its `pRXBuf`. -/
abbrev RxState := Receive × List UInt8

/-- One byte arrives. -/
def RxState.byte (p : RxState) (receiveData : UInt8) : RxState :=
  match rxLoop p.1 p.2 receiveData with
  | (r, none) => (r, p.2)
  | (r, some i) => (r, p.2.set i.toNat receiveData)

/-- Bytes arrive one after another. -/
def RxState.feed (p : RxState) (bytes : List UInt8) : RxState := bytes.foldl RxState.byte p

/-- Nothing is being received, and there is room for `RXBufSize` bytes at `pRXBuf`. -/
structure Idle (p : RxState) : Prop where
  station : p.1.receiveStation = receiveDataHandled
  room : p.1.rxBufSize.toNat ≤ p.2.length

/-- The bytes `front` have been stored, from index 0 on, and the receiver stands at `station`. -/
structure Stored (r : Receive) (station : UInt8) (front : List UInt8) (p : RxState) : Prop where
  struct : p.1 = { r with rxIndex := UInt32.ofNat front.length, receiveStation := station }
  bytes : p.2.take front.length = front
  room : r.rxBufSize.toNat ≤ p.2.length

/-- The lists that end with the tail pair, from the third byte on. -/
def Ended (r : Receive) (front : List UInt8) : Prop :=
  3 ≤ front.length ∧ [r.firstTail, r.secondTail] <:+ front

instance (r : Receive) : DecidablePred (Ended r) := fun _ => inferInstanceAs (Decidable (_ ∧ _))

@[simp] theorem feed_nil (p : RxState) : p.feed [] = p := rfl

theorem feed_cons (p : RxState) (b : UInt8) (bytes : List UInt8) :
    p.feed (b :: bytes) = (p.byte b).feed bytes := rfl

theorem feed_append (p : RxState) (bytes bytes' : List UInt8) :
    p.feed (bytes ++ bytes') = (p.feed bytes).feed bytes' := List.foldl_append

theorem feed_snoc (p : RxState) (bytes : List UInt8) (b : UInt8) :
    p.feed (bytes ++ [b]) = (p.feed bytes).byte b := feed_append p bytes [b]

/-- A byte stored behind the others. -/
theorem take_set_append {buf : List UInt8} (front : List UInt8)
    (hbuf : buf.take front.length = front)
    (hlen : front.length < buf.length) (b : UInt8) :
    (buf.set front.length b).take (front ++ [b]).length = front ++ [b] := by
  rw [List.length_append, List.length_singleton, List.take_set,
    List.take_succ_eq_append_getElem hlen,
    hbuf, List.set_append_right _ _ (Nat.le_refl _), Nat.sub_self]
  rfl

/-- The first header byte. -/
theorem Idle.byte {p : RxState} (h : Idle p) (hsize : 1 ≤ p.1.rxBufSize.toNat) :
    Stored p.1 receiveFistHeard [p.1.firstHeard] (p.byte p.1.firstHeard) := by
  have hstep : p.byte p.1.firstHeard =
      ({ p.1 with rxIndex := 1, receiveStation := receiveFistHeard },
        p.2.set 0 p.1.firstHeard) := by
    rw [RxState.byte, rxLoop, if_pos h.station, if_pos rfl]
    rfl
  have hroom := h.room
  rw [hstep]
  refine ⟨rfl, take_set_append [] rfl ?_ _, ?_⟩
  · show 0 < p.2.length
    omega
  · rw [List.length_set]
    exact hroom

/-- The second header byte. -/
theorem Stored.second {r : Receive} {p : RxState}
    (h : Stored r receiveFistHeard [r.firstHeard] p) (hsize : 2 ≤ r.rxBufSize.toNat) :
    Stored r receiveSecondHeard [r.firstHeard, r.secondHeard] (p.byte r.secondHeard) := by
  have hroom := h.room
  have hstep : p.byte r.secondHeard =
      ({ r with rxIndex := 2, receiveStation := receiveSecondHeard },
        p.2.set 1 r.secondHeard) := by
    have hfirst : receiveFistHeard ≠ receiveDataHandled := by decide
    rw [RxState.byte, rxLoop, h.struct]
    simp only [if_neg hfirst, if_true]
    rfl
  rw [hstep]
  refine ⟨rfl, take_set_append [r.firstHeard] h.bytes ?_ _, ?_⟩
  · show 1 < p.2.length
    omega
  · rw [List.length_set]
    exact hroom

/-- The last of the bytes stored, read back. -/
theorem getD_of_take {buf front : List UInt8} (hbuf : buf.take front.length = front)
    (hne : front ≠ []) : buf.getD (front.length - 1) 0 = front.getLast hne := by
  have hlt : front.length - 1 < front.length :=
    Nat.sub_lt (List.length_pos_iff.mpr hne) Nat.one_pos
  rw [List.getLast_eq_getElem, List.getD_eq_getElem?_getD, ← List.getElem?_take_of_lt hlt, hbuf,
    List.getElem?_eq_getElem hlt]
  rfl

/-- Whether one more byte ends the frame. -/
theorem ended_snoc_iff {r : Receive} {front : List UInt8} (hlen : 2 ≤ front.length)
    (hne : front ≠ []) (b : UInt8) :
    Ended r (front ++ [b]) ↔ b = r.secondTail ∧ front.getLast hne = r.firstTail := by
  have hlong : 3 ≤ (front ++ [b]).length := by
    rw [List.length_append, List.length_singleton]
    omega
  constructor
  · rintro ⟨-, before, heq⟩
    have hsplit : (before ++ [r.firstTail]) ++ [r.secondTail] = front ++ [b] := by
      rw [List.append_assoc]
      exact heq
    obtain ⟨hfront, hb⟩ := List.append_singleton_inj.mp hsplit
    subst hfront
    exact ⟨hb.symm, List.getLast_append_singleton _⟩
  · rintro ⟨rfl, hlast⟩
    refine ⟨hlong, front.dropLast, ?_⟩
    have hsplit : front.dropLast ++ [r.firstTail] = front := by
      rw [← hlast]
      exact List.dropLast_append_getLast hne
    calc front.dropLast ++ [r.firstTail, r.secondTail]
        = (front.dropLast ++ [r.firstTail]) ++ [r.secondTail] := by rw [List.append_assoc]; rfl
      _ = front ++ [r.secondTail] := by rw [hsplit]

/-- A byte behind the header. -/
theorem Stored.body {r : Receive} {front : List UInt8} {p : RxState}
    (h : Stored r receiveSecondHeard front p) (hlen : 2 ≤ front.length)
    (hsize : front.length < r.rxBufSize.toNat) (b : UInt8) :
    (Ended r (front ++ [b]) → Stored r receiveOnePackedData (front ++ [b]) (p.byte b)) ∧
      (¬ Ended r (front ++ [b]) → Stored r receiveSecondHeard (front ++ [b]) (p.byte b)) := by
  have hroom := h.room
  have hne : front ≠ [] := List.length_pos_iff.mp (by omega)
  have hlt : front.length < 2 ^ 32 := hsize.trans (r.rxBufSize.toNat_lt.trans (by decide))
  have hindex : (UInt32.ofNat front.length).toNat = front.length := by
    rw [UInt32.toNat_ofNat', Nat.mod_eq_of_lt hlt]
  have hnext : UInt32.ofNat front.length + 1 = UInt32.ofNat (front ++ [b]).length := by
    rw [List.length_append, UInt32.ofNat_add]
    rfl
  have hprev : (UInt32.ofNat front.length - 1).toNat = front.length - 1 := by
    have hone : (1 : UInt32) ≤ UInt32.ofNat front.length := by
      rw [UInt32.le_iff_toNat_le, hindex]
      exact Nat.one_le_of_lt hlen
    rw [UInt32.toNat_sub_of_le _ _ hone, hindex]
    rfl
  have hroomy : UInt32.ofNat front.length < r.rxBufSize.toUInt32 := by
    rw [UInt32.lt_iff_toNat_lt, hindex, UInt16.toNat_toUInt32]
    exact hsize
  have hstep : p.byte b =
      ({ r with
          rxIndex := UInt32.ofNat (front ++ [b]).length
          receiveStation :=
            if b = r.secondTail ∧ front.getLast hne = r.firstTail then receiveOnePackedData
            else receiveSecondHeard },
        p.2.set front.length b) := by
    have hfirst : receiveSecondHeard ≠ receiveDataHandled := by decide
    have hsecond : receiveSecondHeard ≠ receiveFistHeard := by decide
    rw [RxState.byte, rxLoop, h.struct]
    simp only [if_neg hfirst, if_neg hsecond, if_pos hroomy, if_true, hprev,
      getD_of_take h.bytes hne, hnext, hindex]
  have hbytes := take_set_append front h.bytes (hsize.trans_le hroom) b
  rw [hstep]
  constructor
  · intro hend
    rw [if_pos ((ended_snoc_iff hlen hne b).mp hend)]
    exact ⟨rfl, hbytes, by rw [List.length_set]; exact hroom⟩
  · intro hend
    rw [if_neg (fun hpair => hend ((ended_snoc_iff hlen hne b).mpr hpair))]
    exact ⟨rfl, hbytes, by rw [List.length_set]; exact hroom⟩

/-- A frame that has been received is left alone by the bytes behind it. -/
theorem Stored.feed {r : Receive} {front : List UInt8} {p : RxState}
    (h : Stored r receiveOnePackedData front p) (bytes : List UInt8) : p.feed bytes = p := by
  induction bytes with
  | nil => rfl
  | cons b bytes ih =>
      have hstation : p.1.receiveStation = 3 := by rw [h.struct]; rfl
      have hstay : p.byte b = p := by
        rw [RxState.byte, rxLoop, hstation]
        rfl
      rw [feed_cons, hstay, ih]

/-- While no tail pair has come, everything is stored. -/
theorem feed_unended {p : RxState} (hidle : Idle p) (rest : List UInt8)
    (hun : Unended (Ended p.1) ([p.1.firstHeard, p.1.secondHeard] ++ rest))
    (hsize : 2 + rest.length ≤ p.1.rxBufSize.toNat) :
    Stored p.1 receiveSecondHeard ([p.1.firstHeard, p.1.secondHeard] ++ rest)
      (p.feed ([p.1.firstHeard, p.1.secondHeard] ++ rest)) := by
  induction rest using List.reverseRecOn with
  | nil => exact (hidle.byte (by omega)).second (by omega)
  | append_singleton rest b ih =>
      rw [List.length_append, List.length_singleton] at hsize
      rw [← List.append_assoc] at hun ⊢
      have hfront := ih (hun.of_prefix (List.prefix_append _ [b])) (by omega)
      have hlen : ([p.1.firstHeard, p.1.secondHeard] ++ rest).length = 2 + rest.length :=
        List.length_append
      have hmore : ¬ Ended p.1 ([p.1.firstHeard, p.1.secondHeard] ++ rest ++ [b]) :=
        hun _ List.prefix_rfl (by simp)
      rw [feed_snoc]
      exact (hfront.body (by omega) (by omega) b).2 hmore

/-- With the first tail pair the receiver has what it takes for a frame. -/
theorem feed_shortest {p : RxState} (hidle : Idle p) (rest : List UInt8)
    (hshort : IsShortest (Ended p.1) ([p.1.firstHeard, p.1.secondHeard] ++ rest))
    (hsize : 2 + rest.length ≤ p.1.rxBufSize.toNat) :
    Stored p.1 receiveOnePackedData ([p.1.firstHeard, p.1.secondHeard] ++ rest)
      (p.feed ([p.1.firstHeard, p.1.secondHeard] ++ rest)) := by
  induction rest using List.reverseRecOn with
  | nil => exact absurd (show 3 ≤ 2 from hshort.complete.1) (by decide)
  | append_singleton rest b =>
      rw [List.length_append, List.length_singleton] at hsize
      rw [← List.append_assoc] at hshort ⊢
      have hfront := feed_unended hidle rest hshort.unended (by omega)
      have hlen : ([p.1.firstHeard, p.1.secondHeard] ++ rest).length = 2 + rest.length :=
        List.length_append
      rw [feed_snoc]
      exact (hfront.body (by omega) (by omega) b).1 hshort.complete

/-- A frame on the wire: a length, an order, a body and a checksum, between the header and the
tail pair. -/
structure SerialFrame where
  lengthHigh : UInt8
  lengthLow : UInt8
  orderHigh : UInt8
  orderLow : UInt8
  body : List UInt8
  checkSum : UInt8

/-- The bytes of a frame for the receiver `r`. -/
def SerialFrame.bytes (r : Receive) (f : SerialFrame) : List UInt8 :=
  [r.firstHeard, r.secondHeard] ++
    ([f.lengthHigh, f.lengthLow, f.orderHigh, f.orderLow] ++ f.body ++
      [f.checkSum, r.firstTail, r.secondTail])

theorem ended_bytes (r : Receive) (f : SerialFrame) : Ended r (f.bytes r) := by
  refine ⟨by simp [SerialFrame.bytes], [r.firstHeard, r.secondHeard, f.lengthHigh, f.lengthLow,
    f.orderHigh, f.orderLow] ++ f.body ++ [f.checkSum], ?_⟩
  simp [SerialFrame.bytes]

/-- Behind the first bytes of a frame, as long as no tail pair has come. -/
theorem feed_front {p : RxState} (hidle : Idle p) {front rest : List UInt8}
    (hfront : front <+: [p.1.firstHeard, p.1.secondHeard] ++ rest) (hne : front ≠ [])
    (hun : Unended (Ended p.1) front) (hsize : front.length ≤ p.1.rxBufSize.toNat) :
    ∃ station, (station = receiveFistHeard ∨ station = receiveSecondHeard) ∧
      Stored p.1 station front (p.feed front) := by
  rcases front with _ | ⟨a, _ | ⟨b, front⟩⟩
  · exact absurd rfl hne
  · obtain ⟨rfl, -⟩ := List.cons_prefix_cons.mp hfront
    exact ⟨_, .inl rfl, hidle.byte hsize⟩
  · obtain ⟨rfl, htail⟩ := List.cons_prefix_cons.mp hfront
    obtain ⟨rfl, -⟩ := List.cons_prefix_cons.mp htail
    rw [List.length_cons, List.length_cons] at hsize
    exact ⟨_, .inr rfl, feed_unended hidle front hun (by omega)⟩

/-- Before the first tail pair the receiver has not got a frame. -/
theorem station_ne_of_unended {p : RxState} (hidle : Idle p) {front rest : List UInt8}
    (hfront : front <+: [p.1.firstHeard, p.1.secondHeard] ++ rest)
    (hun : Unended (Ended p.1) front) (hsize : front.length ≤ p.1.rxBufSize.toNat) :
    (p.feed front).1.receiveStation ≠ receiveOnePackedData := by
  by_cases hne : front = []
  · rw [hne, feed_nil, hidle.station]
    decide
  · obtain ⟨station, hstation, hstored⟩ := feed_front hidle hfront hne hun hsize
    rw [hstored.struct]
    rcases hstation with rfl | rfl
    · exact (by decide : receiveFistHeard ≠ receiveOnePackedData)
    · exact (by decide : receiveSecondHeard ≠ receiveOnePackedData)

/-- Of a frame that fits the buffer the receiver takes the bytes up to the first tail pair,
where the second header byte may be the first byte of the pair: it has a frame exactly from
that point on, with these bytes in the buffer, and ignores the rest. So it takes the whole
frame, at its last byte, exactly when no tail pair comes before. -/
theorem receives_front {p : RxState} (hidle : Idle p) (f : SerialFrame)
    (hsize : (f.bytes p.1).length ≤ p.1.rxBufSize.toNat) :
    ∃ q, IsShortest (Ended p.1) q ∧ q <+: f.bytes p.1 ∧
      (∀ front, front <+: f.bytes p.1 →
        ((p.feed front).1.receiveStation = receiveOnePackedData ↔ q <+: front) ∧
          (q <+: front → Stored p.1 receiveOnePackedData q (p.feed front))) ∧
      (q = f.bytes p.1 ↔
        ∀ front, front <+: f.bytes p.1 → front ≠ f.bytes p.1 → ¬ Ended p.1 front) := by
  have hne : f.bytes p.1 ≠ [] := List.cons_ne_nil _ _
  obtain ⟨q, hq, hshort⟩ := exists_isShortest hne (ended_bytes p.1 f)
  -- The first tail pair ends behind the header.
  obtain ⟨rest, rfl⟩ : ∃ rest, q = [p.1.firstHeard, p.1.secondHeard] ++ rest := by
    have hheader : [p.1.firstHeard, p.1.secondHeard] <+: q :=
      List.prefix_of_prefix_length_le (List.prefix_append _ _) hq
        (Nat.le_of_succ_le hshort.complete.1)
    exact hheader.imp fun rest h => h.symm
  have hfits := hq.length_le.trans hsize
  have hlen : ([p.1.firstHeard, p.1.secondHeard] ++ rest).length = 2 + rest.length :=
    List.length_append
  have hstored := feed_shortest hidle rest hshort (by omega)
  have hreceived : ∀ front, [p.1.firstHeard, p.1.secondHeard] ++ rest <+: front →
      Stored p.1 receiveOnePackedData ([p.1.firstHeard, p.1.secondHeard] ++ rest)
        (p.feed front) := by
    rintro _ ⟨more, rfl⟩
    rw [feed_append, hstored.feed]
    exact hstored
  refine ⟨_, hshort, hq, fun front hfront => ⟨⟨fun hstation => ?_, fun hle => ?_⟩,
    hreceived front⟩, ⟨fun heq front hfront hpart => ?_, fun hall => ?_⟩⟩
  · by_contra hnot
    have hbefore := (List.prefix_or_prefix_of_prefix hq hfront).resolve_left hnot
    refine station_ne_of_unended hidle hfront (fun q' hq' hne' => ?_)
      (hfront.length_le.trans hsize) hstation
    refine hshort.minimal q' (hq'.trans hbefore) hne' fun heq => hnot ?_
    exact heq ▸ hq'
  · rw [(hreceived front hle).struct]
  · by_cases hnil : front = []
    · rw [hnil]
      exact fun h => absurd (show 3 ≤ 0 from h.1) (by decide)
    · exact hshort.minimal front (heq ▸ hfront) hnil (heq ▸ hpart)
  · by_contra hpart
    exact hall _ hq hpart hshort.complete

/-- `GSM_TransparentRX` with its buffer behind `GSMInit`. -/
def serialInit : RxState := (transparentRxInit, List.replicate maxRxNum 0)

theorem idle_serialInit : Idle serialInit :=
  ⟨rfl, by rw [serialInit, List.length_replicate]; exact Nat.le_refl _⟩

/-- A payment request. -/
def payFrame : SerialFrame := ⟨0, 4, 0, 7, [1, 2], 14⟩

theorem receives_front_pay :
    ∃ q, IsShortest (Ended transparentRxInit) q ∧ q <+: payFrame.bytes transparentRxInit ∧
      (∀ front, front <+: payFrame.bytes transparentRxInit →
        ((serialInit.feed front).1.receiveStation = receiveOnePackedData ↔ q <+: front) ∧
          (q <+: front → Stored transparentRxInit receiveOnePackedData q (serialInit.feed front))) ∧
      (q = payFrame.bytes transparentRxInit ↔
        ∀ front, front <+: payFrame.bytes transparentRxInit →
          front ≠ payFrame.bytes transparentRxInit → ¬ Ended transparentRxInit front) :=
  receives_front idle_serialInit payFrame (by decide)

/-- A body with a tail pair is cut off behind it. -/
theorem cut_at_tailPair :
    ¬ ∀ (p : RxState) (f : SerialFrame), Idle p → (f.bytes p.1).length ≤ p.1.rxBufSize.toNat →
      ∀ front, front <+: f.bytes p.1 →
        ((p.feed front).1.receiveStation = receiveOnePackedData ↔ front = f.bytes p.1) ∧
          (front = f.bytes p.1 → Stored p.1 receiveOnePackedData front (p.feed front)) := by
  intro hall
  have hcut := (hall serialInit ⟨0, 4, 0, 7, [0x7A, 0x64], 0xE9⟩ idle_serialInit (by decide)
    [0x64, 0x7A, 0, 4, 0, 7, 0x7A, 0x64] (by decide)).1.mp (by decide +kernel)
  exact absurd hcut (by decide)

end Gsm
