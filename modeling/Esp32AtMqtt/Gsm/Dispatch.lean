import Esp32AtMqtt.Gsm.Receiver

/-!
# Serial frames are handed out

`ReceiveDataHandle` polls the receiver. Whatever it finds, it ends with `ReStartReceive`: also
where a frame is only half received, since the test of the time has no branch for "wait on",
and the start time that it tests is never set. So a frame is handed to `protocolHandle` when all
polls come before its first byte or behind its last one, and lost otherwise.
-/

namespace Gsm

open Shortest

/-- `ReceiveOverTime`. -/
def receiveOverTime : UInt32 := 100000

/-- `ReStartReceive()`. -/
def reStartReceive (p : RxState) : RxState :=
  ({ p.1 with
      receiveEnable := 1, receiveStartTime := 0, receiveStation := receiveDataHandled,
      rxIndex := 0 },
    List.replicate p.1.rxBufSize.toNat 0 ++ p.2.drop p.1.rxBufSize.toNat)

/-- `CheckSum(DataBuf, Len)`. -/
def checkSum (dataBuf : List UInt8) : UInt8 := dataBuf.foldl (· + ·) 0

/-- `DataLen` in `ReceiveDataHandle`. -/
def dataLen (buf : List UInt8) : UInt32 :=
  (buf.getD 2 0).toUInt32 * 255 + (buf.getD 3 0).toUInt32

/-- `Comment` in `ReceiveDataHandle`. -/
def comment (buf : List UInt8) : UInt16 :=
  (buf.getD 4 0).toUInt16 * 255 + (buf.getD 5 0).toUInt16

/-- The tests of `ReceiveDataHandle()` at `currentTick`, and the order for `protocolHandle`. -/
def frameOrder (p : RxState) (currentTick : UInt32) : Option UInt16 :=
  if p.1.receiveStation = receiveDataHandled then none
  else if p.1.receiveStation ≠ receiveOnePackedData ∧
      receiveOverTime < currentTick - p.1.receiveStartTime then none
  else if p.1.rxIndex < 7 then none
  else if p.1.rxIndex - 7 < dataLen p.2 ∨ p.1.rxBufSize.toUInt32 - 7 < dataLen p.2 then none
  else if p.2.getD (p.1.rxIndex - 3).toNat 0 ≠
      checkSum ((p.2.drop 2).take (p.1.rxIndex - 5).toNat) then none
  else some (comment p.2)

/-- `ReceiveDataHandle()`: the receiver behind it, and the call of `protocolHandle`, if there is
one, with the bytes that are in the buffer then. -/
def receiveDataHandle (p : RxState) (currentTick : UInt32) :
    RxState × Option (UInt16 × List UInt8) :=
  (reStartReceive p,
    (frameOrder p currentTick).map fun order => (order, p.2.take p.1.rxIndex.toNat))

/-- A byte arrives, or the receiver is polled. -/
inductive SerialAction
  | byte (tick : ℕ) (b : UInt8)
  | poll (tick : ℕ)
  deriving DecidableEq, Repr

/-- The tick at which an action happens. -/
def SerialAction.tick : SerialAction → ℕ
  | .byte tick _ => tick
  | .poll tick => tick

/-- Time does not run back, and all happens within `ReceiveOverTime`. -/
def Timely (as : List SerialAction) : Prop :=
  as.Pairwise fun a a' => a.tick ≤ a'.tick ∧ a'.tick - a.tick ≤ receiveOverTime.toNat

/-- The receiver, and the calls of `protocolHandle`. -/
structure SerialRun where
  rx : RxState
  calls : List (UInt16 × List UInt8)

def serialStep (s : SerialRun) : SerialAction → SerialRun
  | .byte _ b => { s with rx := s.rx.byte b }
  | .poll tick =>
      ⟨(receiveDataHandle s.rx (UInt32.ofNat tick)).1,
        s.calls ++ (receiveDataHandle s.rx (UInt32.ofNat tick)).2.toList⟩

def serialRun (s : SerialRun) (as : List SerialAction) : SerialRun := as.foldl serialStep s

/-- The bytes that arrive. -/
def bytesOf (as : List SerialAction) : List UInt8 :=
  as.filterMap fun
    | .byte _ b => some b
    | .poll _ => none

/-- A frame whose length, below 256, and checksum are right, and with no tail pair inside. -/
structure ValidFrame (r : Receive) (f : SerialFrame) : Prop where
  lengthHigh : f.lengthHigh = 0
  lengthLow : f.lengthLow.toNat = 2 + f.body.length
  checkSum : f.checkSum =
    Gsm.checkSum ([f.lengthHigh, f.lengthLow, f.orderHigh, f.orderLow] ++ f.body)
  inside : ∀ front, front <+: f.bytes r → front ≠ f.bytes r → ¬ Ended r front
  room : (f.bytes r).length ≤ r.rxBufSize.toNat

/-- The frame is handed to `protocolHandle` once, behind its last byte and complete, and a poll
that comes while it is received leaves the receiver as it is. -/
structure Dispatched (frame : List UInt8) (s : SerialRun) (as : List SerialAction) : Prop where
  once : ∃ order, (serialRun s as).calls = s.calls ++ [(order, frame)]
  behind : ∀ bs, bs <+: as → (bytesOf bs).length < frame.length → (serialRun s bs).calls = s.calls
  kept : ∀ bs tick, bs ++ [.poll tick] <+: as → 0 < (bytesOf bs).length →
    (bytesOf bs).length < frame.length →
      (serialRun s (bs ++ [.poll tick])).rx = (serialRun s bs).rx

/-- A poll has come behind the last of `n` bytes. -/
def PolledBehind (n : ℕ) (as : List SerialAction) : Prop :=
  ∃ bs tick, bs ++ [.poll tick] <+: as ∧ (bytesOf bs).length = n

/-- Every poll comes before the first byte or behind the last one, and one comes behind it. -/
structure PolledOutside (frame : List UInt8) (as : List SerialAction) : Prop where
  outside : ∀ bs tick, bs ++ [.poll tick] <+: as →
    (bytesOf bs).length = 0 ∨ (bytesOf bs).length = frame.length
  behind : PolledBehind frame.length as

theorem serialRun_snoc (s : SerialRun) (as : List SerialAction) (a : SerialAction) :
    serialRun s (as ++ [a]) = serialStep (serialRun s as) a := List.foldl_append

theorem bytesOf_byte (as : List SerialAction) (tick : ℕ) (b : UInt8) :
    bytesOf (as ++ [.byte tick b]) = bytesOf as ++ [b] := List.filterMap_append

theorem bytesOf_poll (as : List SerialAction) (tick : ℕ) :
    bytesOf (as ++ [.poll tick]) = bytesOf as :=
  List.filterMap_append.trans (List.append_nil _)

theorem bytesOf_mono {as bs : List SerialAction} (h : bs <+: as) : bytesOf bs <+: bytesOf as :=
  h.filterMap _

/-! ## The receiver of one frame -/

/-- The parts of the structure that stay as they were initialized. -/
def SameWire (r r' : Receive) : Prop :=
  r' = { r with
    rxIndex := r'.rxIndex, receiveStation := r'.receiveStation,
    receiveEnable := r'.receiveEnable, receiveStartTime := r'.receiveStartTime }

theorem SameWire.bytes {r r' : Receive} (h : SameWire r r') (f : SerialFrame) :
    f.bytes r' = f.bytes r := by
  rw [h]
  rfl

theorem SameWire.ended {r r' : Receive} (h : SameWire r r') : Ended r' = Ended r := by
  rw [h]
  rfl

theorem SameWire.trans {r r' r'' : Receive} (h : SameWire r r') (h' : SameWire r' r'') :
    SameWire r r'' := by
  rw [SameWire] at h h' ⊢
  rw [h', h]

theorem sameWire_reStartReceive (p : RxState) : SameWire p.1 (reStartReceive p).1 := rfl

/-- After a restart nothing is being received. -/
theorem idle_reStartReceive (p : RxState) : Idle (reStartReceive p) := by
  refine ⟨rfl, ?_⟩
  show p.1.rxBufSize.toNat ≤ (List.replicate _ _ ++ _ : List UInt8).length
  rw [List.length_append, List.length_replicate]
  exact Nat.le_add_right _ _

theorem bytes_length (r : Receive) (f : SerialFrame) : (f.bytes r).length = 9 + f.body.length := by
  simp only [SerialFrame.bytes, List.length_append, List.length_cons, List.length_nil]
  omega

/-! ## A complete frame passes the tests -/

section Complete

variable {r : Receive} {f : SerialFrame} {p : RxState}

/-- The index behind a complete frame, less a few bytes. -/
theorem rxIndex_sub (hvalid : ValidFrame r f) {k : ℕ} (hk : k ≤ 9) :
    (UInt32.ofNat (f.bytes r).length - UInt32.ofNat k).toNat = 9 + f.body.length - k := by
  have hroom := hvalid.room
  rw [bytes_length] at hroom ⊢
  have hsmall := r.rxBufSize.toNat_lt
  have hindex : (UInt32.ofNat (9 + f.body.length)).toNat = 9 + f.body.length := by
    rw [UInt32.toNat_ofNat', Nat.mod_eq_of_lt (by omega)]
  have hless : (UInt32.ofNat k).toNat = k := by
    rw [UInt32.toNat_ofNat', Nat.mod_eq_of_lt (by omega)]
  have hle : UInt32.ofNat k ≤ UInt32.ofNat (9 + f.body.length) := by
    rw [UInt32.le_iff_toNat_le, hindex, hless]
    omega
  rw [UInt32.toNat_sub_of_le _ _ hle, hindex, hless]

theorem Stored.split (h : Stored r receiveOnePackedData (f.bytes r) p) :
    ∃ rest, p.2 = f.bytes r ++ rest :=
  ⟨p.2.drop (f.bytes r).length, by
    conv_lhs => rw [← List.take_append_drop (f.bytes r).length p.2, h.bytes]⟩

theorem dataLen_bytes (hvalid : ValidFrame r f) (rest : List UInt8) :
    (dataLen (f.bytes r ++ rest)).toNat = 2 + f.body.length := by
  have hlen : dataLen (f.bytes r ++ rest) = f.lengthHigh.toUInt32 * 255 + f.lengthLow.toUInt32 :=
    rfl
  rw [hlen, hvalid.lengthHigh, ← hvalid.lengthLow]
  show ((0 : UInt32) * 255 + f.lengthLow.toUInt32).toNat = _
  rw [UInt32.zero_mul, UInt32.zero_add, UInt8.toNat_toUInt32]

theorem getD_checkSum (rest : List UInt8) :
    (f.bytes r ++ rest).getD (6 + f.body.length) 0 = f.checkSum := by
  have hsplit : f.bytes r ++ rest =
      ([r.firstHeard, r.secondHeard, f.lengthHigh, f.lengthLow, f.orderHigh, f.orderLow] ++
        f.body) ++ f.checkSum :: ([r.firstTail, r.secondTail] ++ rest) := by
    simp [SerialFrame.bytes]
  have hlen : ([r.firstHeard, r.secondHeard, f.lengthHigh, f.lengthLow, f.orderHigh,
      f.orderLow] ++ f.body).length = 6 + f.body.length := List.length_append
  rw [hsplit, ← hlen, List.getD_eq_getElem?_getD, List.getElem?_append_right (Nat.le_refl _),
    Nat.sub_self]
  rfl

theorem take_summed (rest : List UInt8) :
    ((f.bytes r ++ rest).drop 2).take (4 + f.body.length) =
      [f.lengthHigh, f.lengthLow, f.orderHigh, f.orderLow] ++ f.body := by
  have hsplit : (f.bytes r ++ rest).drop 2 =
      ([f.lengthHigh, f.lengthLow, f.orderHigh, f.orderLow] ++ f.body) ++
        ([f.checkSum, r.firstTail, r.secondTail] ++ rest) := by
    rw [← List.append_assoc]
    rfl
  rw [hsplit]
  exact List.take_left' List.length_append

/-- A poll behind the last byte of a valid frame hands it out. -/
theorem receiveDataHandle_complete (hvalid : ValidFrame r f)
    (h : Stored r receiveOnePackedData (f.bytes r) p) (currentTick : UInt32) :
    (receiveDataHandle p currentTick).2 = some (comment p.2, f.bytes r) := by
  obtain ⟨rest, hbuf⟩ := h.split
  have hroom := hvalid.room
  have hlength := bytes_length r f
  have hsmall := r.rxBufSize.toNat_lt
  have hstation : p.1.receiveStation = receiveOnePackedData := by rw [h.struct]
  have hindex : p.1.rxIndex = UInt32.ofNat (f.bytes r).length := by rw [h.struct]
  have hsize : p.1.rxBufSize = r.rxBufSize := by rw [h.struct]
  have hno : (receiveOnePackedData : UInt8) ≠ receiveDataHandled := by decide
  have hmany : ¬ p.1.rxIndex < 7 := by
    rw [hindex, UInt32.lt_iff_toNat_lt, UInt32.toNat_ofNat', Nat.mod_eq_of_lt (by omega)]
    show ¬ (f.bytes r).length < 7
    omega
  have hseven : (7 : UInt32) ≤ r.rxBufSize.toUInt32 := by
    rw [UInt32.le_iff_toNat_le, UInt16.toNat_toUInt32]
    show 7 ≤ r.rxBufSize.toNat
    omega
  have hlong : ¬ (p.1.rxIndex - 7 < dataLen p.2 ∨ p.1.rxBufSize.toUInt32 - 7 < dataLen p.2) := by
    rw [hindex, hsize, UInt32.lt_iff_toNat_lt, UInt32.lt_iff_toNat_lt, hbuf, dataLen_bytes hvalid,
      UInt32.toNat_sub_of_le _ _ hseven, UInt16.toNat_toUInt32]
    have hless : (UInt32.ofNat (f.bytes r).length - 7).toNat = 9 + f.body.length - 7 :=
      rxIndex_sub hvalid (by decide)
    rw [hless]
    show ¬ (_ ∨ r.rxBufSize.toNat - 7 < _)
    omega
  have hsum : ¬ p.2.getD (p.1.rxIndex - 3).toNat 0 ≠
      checkSum ((p.2.drop 2).take (p.1.rxIndex - 5).toNat) := by
    have hthree : (UInt32.ofNat (f.bytes r).length - 3).toNat = 6 + f.body.length :=
      (rxIndex_sub hvalid (by decide : 3 ≤ 9)).trans (by omega)
    have hfive : (UInt32.ofNat (f.bytes r).length - 5).toNat = 4 + f.body.length :=
      (rxIndex_sub hvalid (by decide : 5 ≤ 9)).trans (by omega)
    rw [hindex, hthree, hfive, hbuf, getD_checkSum, take_summed]
    exact fun hne => hne hvalid.checkSum
  have htake : p.2.take p.1.rxIndex.toNat = f.bytes r := by
    rw [hindex, UInt32.toNat_ofNat', Nat.mod_eq_of_lt (by omega)]
    exact h.bytes
  rw [receiveDataHandle, frameOrder, hstation, if_neg hno, if_neg (fun hand => hand.1 rfl),
    if_neg hmany, if_neg hlong, if_neg hsum, htake]
  rfl

end Complete

/-- A poll of an idle receiver hands nothing out. -/
theorem receiveDataHandle_idle {p : RxState} (h : Idle p) (currentTick : UInt32) :
    (receiveDataHandle p currentTick).2 = none := by
  rw [receiveDataHandle, frameOrder, if_pos h.station]
  rfl

/-! ## A run over one frame -/

/-- A poll leaves what a byte does not change. -/
theorem polledBehind_byte {n : ℕ} {as : List SerialAction} {tick : ℕ} {b : UInt8} :
    PolledBehind n (as ++ [.byte tick b]) ↔ PolledBehind n as := by
  constructor
  · rintro ⟨bs, tick', hbs, hlen⟩
    rcases List.prefix_concat_iff.mp hbs with heq | hbs
    · exact absurd (List.append_singleton_inj.mp heq).2 SerialAction.noConfusion
    · exact ⟨bs, tick', hbs, hlen⟩
  · rintro ⟨bs, tick', hbs, hlen⟩
    exact ⟨bs, tick', hbs.trans (List.prefix_append _ _), hlen⟩

theorem polledBehind_poll {n : ℕ} {as : List SerialAction} {tick : ℕ} :
    PolledBehind n (as ++ [.poll tick]) ↔ PolledBehind n as ∨ (bytesOf as).length = n := by
  constructor
  · rintro ⟨bs, tick', hbs, hlen⟩
    rcases List.prefix_concat_iff.mp hbs with heq | hbs
    · exact .inr ((List.append_singleton_inj.mp heq).1 ▸ hlen)
    · exact .inl ⟨bs, tick', hbs, hlen⟩
  · rintro (⟨bs, tick', hbs, hlen⟩ | hlen)
    · exact ⟨bs, tick', hbs.trans (List.prefix_append _ _), hlen⟩
    · exact ⟨as, tick, List.prefix_rfl, hlen⟩

/-- The frame has not been handed out: the receiver has what has arrived. -/
def Receiving (s : SerialRun) (as : List SerialAction) : Prop :=
  ∃ p, Idle p ∧ SameWire s.rx.1 p.1 ∧ (serialRun s as).rx = p.feed (bytesOf as) ∧
    (serialRun s as).calls = s.calls

/-- The frame has been handed out, and nothing is being received. -/
structure HandedOut (frame : List UInt8) (s : SerialRun) (as : List SerialAction) : Prop where
  all : bytesOf as = frame
  idle : Idle (serialRun s as).rx
  once : ∃ order, (serialRun s as).calls = s.calls ++ [(order, frame)]

theorem ValidFrame.sameWire {r r' : Receive} {f : SerialFrame} (hvalid : ValidFrame r f)
    (h : SameWire r r') : ValidFrame r' f := by
  refine ⟨hvalid.lengthHigh, hvalid.lengthLow, hvalid.checkSum, ?_, ?_⟩
  · rw [h.bytes, h.ended]
    exact hvalid.inside
  · rw [h.bytes]
    have hsize : r'.rxBufSize = r.rxBufSize := by rw [h]
    rw [hsize]
    exact hvalid.room

/-- A valid frame is its own shortest prefix with a tail pair. -/
theorem ValidFrame.isShortest {r : Receive} {f : SerialFrame} (hvalid : ValidFrame r f) :
    IsShortest (Ended r) (f.bytes r) :=
  ⟨List.cons_ne_nil _ _, ended_bytes r f, fun q hq _ hne => hvalid.inside q hq hne⟩

/-- Behind a valid frame the receiver has the frame. -/
theorem Idle.feed_bytes {p : RxState} {f : SerialFrame} (hidle : Idle p)
    (hvalid : ValidFrame p.1 f) :
    Stored p.1 receiveOnePackedData (f.bytes p.1) (p.feed (f.bytes p.1)) := by
  refine feed_shortest hidle _ hvalid.isShortest ?_
  have hlen : (f.bytes p.1).length = 2 + _ := List.length_append
  exact hlen ▸ hvalid.room

section Run

variable {s : SerialRun} {f : SerialFrame}

/-- While all polls come outside of the frame, it is being received or has been handed out, the
latter from the first poll behind it on. -/
theorem receiving_or_handedOut (hidle : Idle s.rx) (hvalid : ValidFrame s.rx.1 f)
    {as : List SerialAction} (hbytes : bytesOf as <+: f.bytes s.rx.1)
    (hout : ∀ bs tick, bs ++ [.poll tick] <+: as →
      (bytesOf bs).length = 0 ∨ (bytesOf bs).length = (f.bytes s.rx.1).length) :
    (¬ PolledBehind (f.bytes s.rx.1).length as ∧ Receiving s as) ∨
      (PolledBehind (f.bytes s.rx.1).length as ∧ HandedOut (f.bytes s.rx.1) s as) := by
  induction as using List.reverseRecOn with
  | nil =>
      refine .inl ⟨?_, s.rx, hidle, rfl, rfl, rfl⟩
      rintro ⟨bs, tick, hbs, -⟩
      exact List.append_ne_nil_of_right_ne_nil _ (List.cons_ne_nil _ _) (List.prefix_nil.mp hbs)
  | append_singleton as a ih =>
      have hbefore := (bytesOf_mono (List.prefix_append as [a])).trans hbytes
      have hstate := ih hbefore fun bs tick hbs => hout bs tick (hbs.trans (List.prefix_append _ _))
      cases a with
      | byte tick b =>
          rw [polledBehind_byte]
          rw [bytesOf_byte] at hbytes
          rcases hstate with ⟨hno, p, hp, hwire, hrx, hcalls⟩ | ⟨-, hhanded⟩
          · refine .inl ⟨hno, p, hp, hwire, ?_, ?_⟩
            · rw [serialRun_snoc, bytesOf_byte, feed_snoc, ← hrx]
              rfl
            · rw [serialRun_snoc]
              exact hcalls
          · rw [hhanded.all] at hbytes
            have hlen := hbytes.length_le
            rw [List.length_append, List.length_singleton] at hlen
            exact absurd hlen (Nat.not_succ_le_self _)
      | poll tick =>
          rw [polledBehind_poll]
          have hpolled := hout as tick List.prefix_rfl
          rcases hstate with ⟨hno, p, hp, hwire, hrx, hcalls⟩ | ⟨hyes, hhanded⟩
          · have hframe := hwire.bytes f
            rcases hpolled with hzero | hfull
            · -- Nothing has arrived: the poll finds an idle receiver.
              have hnil := List.eq_nil_of_length_eq_zero hzero
              rw [hnil, feed_nil] at hrx
              refine .inl ⟨?_, reStartReceive p, idle_reStartReceive p,
                hwire.trans (sameWire_reStartReceive p), ?_, ?_⟩
              · rintro (hbehind | hlen)
                · exact hno hbehind
                · rw [hzero, bytes_length] at hlen
                  omega
              · rw [serialRun_snoc, bytesOf_poll, hnil, feed_nil, ← hrx]
                rfl
              · rw [serialRun_snoc, serialStep, hrx, receiveDataHandle_idle hp]
                exact (List.append_nil _).trans hcalls
            · -- Everything has arrived: the poll hands the frame out.
              have hall := hbefore.eq_of_length hfull
              have hvalid' := hvalid.sameWire hwire
              have hstored := hp.feed_bytes hvalid'
              rw [hframe] at hstored
              rw [hall] at hrx
              refine .inr ⟨.inr hfull, ?_, ?_, ?_⟩
              · rw [bytesOf_poll, hall]
              · rw [serialRun_snoc]
                exact idle_reStartReceive _
              · refine ⟨comment (serialRun s as).rx.2, ?_⟩
                have hcomplete := receiveDataHandle_complete hvalid' (by rw [hframe]; exact hstored)
                  (UInt32.ofNat tick)
                rw [hframe, ← hrx] at hcomplete
                rw [serialRun_snoc, serialStep, hcomplete, hcalls]
                rfl
          · refine .inr ⟨.inl hyes, ?_, ?_, ?_⟩
            · rw [bytesOf_poll, hhanded.all]
            · rw [serialRun_snoc]
              exact idle_reStartReceive _
            · obtain ⟨order, hcalls⟩ := hhanded.once
              refine ⟨order, ?_⟩
              rw [serialRun_snoc, serialStep, receiveDataHandle_idle hhanded.idle]
              exact (List.append_nil _).trans hcalls

/-- A poll inside of the frame does not leave the receiver as it is. -/
theorem Receiving.poll_ne (hvalid : ValidFrame s.rx.1 f) {as : List SerialAction}
    (h : Receiving s as) (hbytes : bytesOf as <+: f.bytes s.rx.1)
    (hsome : 0 < (bytesOf as).length)
    (hpart : (bytesOf as).length < (f.bytes s.rx.1).length) (tick : ℕ) :
    (serialRun s (as ++ [.poll tick])).rx ≠ (serialRun s as).rx := by
  obtain ⟨p, hp, hwire, hrx, -⟩ := h
  have hvalid' := hvalid.sameWire hwire
  rw [← hwire.bytes f] at hbytes hpart
  have hun : Unended (Ended p.1) (bytesOf as) := fun q hq hne =>
    hvalid'.isShortest.minimal q (hq.trans hbytes) hne fun heq =>
      absurd (heq ▸ hq.length_le) (Nat.not_le_of_lt hpart)
  obtain ⟨station, hstation, hstored⟩ := feed_front hp hbytes (List.length_pos_iff.mp hsome) hun
    ((Nat.le_of_lt hpart).trans hvalid'.room)
  intro heq
  have hbefore : (serialRun s as).rx.1.receiveStation = station := by rw [hrx, hstored.struct]
  have hbehind : (serialRun s (as ++ [.poll tick])).rx.1.receiveStation = receiveDataHandled := by
    rw [serialRun_snoc]
    rfl
  rw [heq, hbefore] at hbehind
  rcases hstation with rfl | rfl
  · exact absurd hbehind (by decide)
  · exact absurd hbehind (by decide)

/-- If polls inside of the frame leave the receiver as it is, there are none. -/
theorem outside_of_kept (hidle : Idle s.rx) (hvalid : ValidFrame s.rx.1 f)
    {as : List SerialAction} (hbytes : bytesOf as <+: f.bytes s.rx.1)
    (hkept : ∀ bs tick, bs ++ [.poll tick] <+: as → 0 < (bytesOf bs).length →
      (bytesOf bs).length < (f.bytes s.rx.1).length →
        (serialRun s (bs ++ [.poll tick])).rx = (serialRun s bs).rx) :
    ∀ bs tick, bs ++ [.poll tick] <+: as →
      (bytesOf bs).length = 0 ∨ (bytesOf bs).length = (f.bytes s.rx.1).length := by
  induction as using List.reverseRecOn with
  | nil =>
      intro bs tick hbs
      exact absurd (List.prefix_nil.mp hbs)
        (List.append_ne_nil_of_right_ne_nil _ (List.cons_ne_nil _ _))
  | append_singleton as a ih =>
      have hbefore := (bytesOf_mono (List.prefix_append as [a])).trans hbytes
      have hout := ih hbefore fun bs tick hbs =>
        hkept bs tick (hbs.trans (List.prefix_append _ _))
      intro bs tick hbs
      rcases List.prefix_concat_iff.mp hbs with heq | hbs
      · obtain ⟨rfl, rfl⟩ := List.append_singleton_inj.mp heq
        by_contra hinside
        rw [not_or] at hinside
        have hsome := Nat.pos_of_ne_zero hinside.1
        have hpart := Nat.lt_of_le_of_ne hbefore.length_le hinside.2
        rcases receiving_or_handedOut hidle hvalid hbefore hout with ⟨-, hrec⟩ | ⟨-, hhanded⟩
        · exact hrec.poll_ne hvalid hbefore hsome hpart tick (hkept bs tick hbs hsome hpart)
        · exact hinside.2 (congrArg List.length hhanded.all)
      · exact hout bs tick hbs

end Run

/-- A valid frame is handed out once, behind its last byte and complete, and with no poll that
disturbs its reception, exactly if every poll comes before its first byte or behind its last
one, and at least one behind it. -/
theorem dispatched_iff {s : SerialRun} {f : SerialFrame} (hidle : Idle s.rx)
    (hvalid : ValidFrame s.rx.1 f) {as : List SerialAction} (hbytes : bytesOf as = f.bytes s.rx.1) :
    Dispatched (f.bytes s.rx.1) s as ↔ PolledOutside (f.bytes s.rx.1) as := by
  have hfed : bytesOf as <+: f.bytes s.rx.1 := hbytes ▸ List.prefix_rfl
  constructor
  · intro h
    have hout := outside_of_kept hidle hvalid hfed h.kept
    refine ⟨hout, ?_⟩
    rcases receiving_or_handedOut hidle hvalid hfed hout with ⟨-, p, -, -, -, hcalls⟩ | ⟨hyes, -⟩
    · obtain ⟨order, honce⟩ := h.once
      rw [hcalls] at honce
      exact absurd (List.self_eq_append_right.mp honce) (List.cons_ne_nil _ _)
    · exact hyes
  · intro h
    refine ⟨?_, fun bs hbs hlen => ?_, fun bs tick hbs hsome hpart => ?_⟩
    · rcases receiving_or_handedOut hidle hvalid hfed h.outside with ⟨hno, -⟩ | ⟨-, hhanded⟩
      · exact absurd h.behind hno
      · exact hhanded.once
    · have hstate := receiving_or_handedOut hidle hvalid ((bytesOf_mono hbs).trans hfed)
        fun bs' tick hbs' => h.outside bs' tick (hbs'.trans hbs)
      rcases hstate with ⟨-, p, -, -, -, hcalls⟩ | ⟨-, hhanded⟩
      · exact hcalls
      · exact absurd (congrArg List.length hhanded.all) (Nat.ne_of_lt hlen)
    · rcases h.outside bs tick hbs with hzero | hfull
      · exact absurd hzero (Nat.ne_of_gt hsome)
      · exact absurd hfull (Nat.ne_of_lt hpart)

theorem validFrame_payFrame : ValidFrame transparentRxInit payFrame := by
  refine ⟨rfl, rfl, by decide, fun front hfront => ?_, by decide⟩
  have hall : ∀ q ∈ (payFrame.bytes transparentRxInit).inits,
      q ≠ payFrame.bytes transparentRxInit → ¬ Ended transparentRxInit q := by decide
  exact hall front ((List.mem_inits _ _).mpr hfront)

/-- The payment request in one piece, and a poll. -/
def wholeThenPoll : List SerialAction :=
  (payFrame.bytes transparentRxInit).map (.byte 1) ++ [.poll 2]

theorem dispatched_iff_pay :
    Dispatched (payFrame.bytes transparentRxInit) ⟨serialInit, []⟩ wholeThenPoll ↔
      PolledOutside (payFrame.bytes transparentRxInit) wholeThenPoll :=
  dispatched_iff (s := ⟨serialInit, []⟩) idle_serialInit validFrame_payFrame (by decide)

/-- The payment request with a poll behind its first byte, and one behind its last. -/
def pollInside : List SerialAction :=
  [.byte 1 0x64, .poll 1] ++
    ((payFrame.bytes transparentRxInit).drop 1).map (.byte 1) ++ [.poll 2]

/-- A poll behind the first byte loses the frame, although all is timely. -/
theorem lost_by_poll :
    ¬ ∀ (f : SerialFrame) (as : List SerialAction), ValidFrame transparentRxInit f →
      bytesOf as = f.bytes transparentRxInit → Timely as →
        PolledBehind (f.bytes transparentRxInit).length as →
          Dispatched (f.bytes transparentRxInit) ⟨serialInit, []⟩ as := by
  intro hall
  have hbehind : PolledBehind (payFrame.bytes transparentRxInit).length pollInside :=
    ⟨pollInside.dropLast, 2, ⟨[], by decide⟩, by decide⟩
  have htimely : Timely pollInside := by
    rw [Timely]
    decide
  obtain ⟨order, honce⟩ :=
    (hall payFrame pollInside validFrame_payFrame (by decide) htimely hbehind).once
  have hcalls : (serialRun ⟨serialInit, []⟩ pollInside).calls = [] := by decide +kernel
  rw [hcalls] at honce
  exact absurd honce.symm (List.cons_ne_nil _ _)

end Gsm
