import Esp32AtMqtt.Gsm.Dispatch

/-!
# Which frames are accepted

`ReceiveDataHandle` on a received frame of any content. The length field and the order are put
together with the factor 255, the length is only bounded from above, and an index of 7 or 8
passes, with no room for an order in front of the checksum. A valid frame is one as the
device's own replies are: the length counts the bytes from the order up to the checksum.
-/

namespace Gsm

/-- A received frame: the index lies in the buffer. -/
structure Received (p : RxState) : Prop where
  station : p.1.receiveStation = receiveOnePackedData
  index_le : p.1.rxIndex.toNat ≤ p.1.rxBufSize.toNat
  room : p.1.rxBufSize.toNat ≤ p.2.length

/-- A byte of the frame. -/
def RxState.at (p : RxState) (i : ℕ) : ℕ := (p.2.getD i 0).toNat

/-- The byte before the tail is the sum of the bytes from the length up to it. -/
def SumRight (p : RxState) : Prop :=
  p.2.getD (p.1.rxIndex.toNat - 3) 0 = checkSum ((p.2.drop 2).take (p.1.rxIndex.toNat - 5))

/-- A valid frame. -/
structure ValidContent (p : RxState) : Prop where
  long : 9 ≤ p.1.rxIndex.toNat
  length_eq : p.at 2 * 256 + p.at 3 = p.1.rxIndex.toNat - 7
  sum : SumRight p

/-- `ReceiveDataHandle` calls `protocolHandle` exactly for a valid frame and with its order, and
the receiver ends idle. -/
structure AcceptsValid (p : RxState) (currentTick : UInt32) : Prop where
  called_iff : (receiveDataHandle p currentTick).2.isSome ↔ ValidContent p
  order_eq : ∀ call ∈ (receiveDataHandle p currentTick).2, call.1.toNat = p.at 4 * 256 + p.at 5
  idle : Idle (receiveDataHandle p currentTick).1

/-- A frame with the right sum and an index of at least 7, whose length field as the code reads it
is not too large, is valid and has an order below 256. -/
def Unmistaken (p : RxState) : Prop :=
  SumRight p → 7 ≤ p.1.rxIndex.toNat → p.at 2 * 255 + p.at 3 ≤ p.1.rxIndex.toNat - 7 →
    9 ≤ p.1.rxIndex.toNat ∧ p.at 2 * 256 + p.at 3 = p.1.rxIndex.toNat - 7 ∧ p.at 4 = 0

instance (p : RxState) : Decidable (SumRight p) := inferInstanceAs (Decidable (_ = _))

instance (p : RxState) : Decidable (Unmistaken p) :=
  inferInstanceAs (Decidable (SumRight p → _ → _ → _))

theorem at_le (p : RxState) (i : ℕ) : p.at i ≤ 255 := Nat.le_of_lt_succ (UInt8.toNat_lt _)

theorem toNat_dataLen (p : RxState) : (dataLen p.2).toNat = p.at 2 * 255 + p.at 3 := by
  have h₂ := at_le p 2
  have h₃ := at_le p 3
  rw [dataLen, UInt32.toNat_add, UInt32.toNat_mul, UInt8.toNat_toUInt32, UInt8.toNat_toUInt32]
  show (p.at 2 * 255 % 2 ^ 32 + p.at 3) % 2 ^ 32 = _
  omega

theorem toNat_comment (p : RxState) : (comment p.2).toNat = p.at 4 * 255 + p.at 5 := by
  have h₄ := at_le p 4
  have h₅ := at_le p 5
  rw [comment, UInt16.toNat_add, UInt16.toNat_mul, UInt8.toNat_toUInt16, UInt8.toNat_toUInt16]
  show (p.at 4 * 255 % 2 ^ 16 + p.at 5) % 2 ^ 16 = _
  omega

/-- The order is read right when its high byte is zero. -/
theorem toNat_comment_eq_iff (p : RxState) :
    (comment p.2).toNat = p.at 4 * 256 + p.at 5 ↔ p.at 4 = 0 := by
  rw [toNat_comment]
  omega

/-- The tests in the arithmetic of numbers. -/
theorem frameOrder_eq {p : RxState} (h : Received p) (currentTick : UInt32) :
    frameOrder p currentTick =
      if 7 ≤ p.1.rxIndex.toNat ∧ p.at 2 * 255 + p.at 3 ≤ p.1.rxIndex.toNat - 7 ∧ SumRight p then
        some (comment p.2)
      else none := by
  have hno : receiveOnePackedData ≠ receiveDataHandled := by decide
  have hle := h.index_le
  have hseven : p.1.rxIndex < 7 ↔ p.1.rxIndex.toNat < 7 := UInt32.lt_iff_toNat_lt
  rw [frameOrder, h.station, if_neg hno, if_neg fun hand => hand.1 rfl]
  by_cases hlong : 7 ≤ p.1.rxIndex.toNat
  · have hindex (k : UInt32) (hk : k.toNat ≤ 7) :
        (p.1.rxIndex - k).toNat = p.1.rxIndex.toNat - k.toNat :=
      UInt32.toNat_sub_of_le _ _ (UInt32.le_iff_toNat_le.mpr (hk.trans hlong))
    have hsize : (p.1.rxBufSize.toUInt32 - 7).toNat = p.1.rxBufSize.toNat - 7 := by
      rw [UInt32.toNat_sub_of_le _ _ (UInt32.le_iff_toNat_le.mpr ?_), UInt16.toNat_toUInt32]
      · rfl
      · rw [UInt16.toNat_toUInt32]
        exact hlong.trans hle
    have hlen : (p.1.rxIndex - 7 < dataLen p.2 ∨ p.1.rxBufSize.toUInt32 - 7 < dataLen p.2) ↔
        ¬ p.at 2 * 255 + p.at 3 ≤ p.1.rxIndex.toNat - 7 := by
      rw [UInt32.lt_iff_toNat_lt, UInt32.lt_iff_toNat_lt, hindex 7 (by decide), hsize,
        toNat_dataLen]
      simp only [UInt32.reduceToNat]
      omega
    have hsum : (p.2.getD (p.1.rxIndex - 3).toNat 0 ≠
        checkSum ((p.2.drop 2).take (p.1.rxIndex - 5).toNat)) ↔ ¬ SumRight p := by
      rw [hindex 3 (by decide), hindex 5 (by decide)]
      rfl
    rw [if_neg (by rw [hseven]; omega)]
    simp only [hlen, hsum, hlong, true_and]
    by_cases hfits : p.at 2 * 255 + p.at 3 ≤ p.1.rxIndex.toNat - 7
    · by_cases hright : SumRight p <;> simp [hfits, hright]
    · simp [hfits]
  · rw [if_pos (hseven.mpr (Nat.lt_of_not_le hlong)), if_neg fun hall => hlong hall.1]

/-- A valid frame passes the tests. -/
theorem ValidContent.passes {p : RxState} (h : ValidContent p) :
    7 ≤ p.1.rxIndex.toNat ∧ p.at 2 * 255 + p.at 3 ≤ p.1.rxIndex.toNat - 7 ∧ SumRight p := by
  have hlong := h.long
  have hlen := h.length_eq
  exact ⟨by omega, by omega, h.sum⟩

/-- A received frame is accepted as it should be exactly when the weaker tests do not let through
another one, and the order of it is below 256. -/
theorem acceptsValid_iff {p : RxState} (h : Received p) (currentTick : UInt32) :
    AcceptsValid p currentTick ↔ Unmistaken p := by
  have hcall : (receiveDataHandle p currentTick).2 = (frameOrder p currentTick).map fun order =>
      (order, p.2.take p.1.rxIndex.toNat) := rfl
  rw [frameOrder_eq h] at hcall
  constructor
  · rintro ⟨hiff, horder, -⟩ hsum hlong hfits
    rw [if_pos ⟨hlong, hfits, hsum⟩] at hcall
    rw [hcall] at hiff horder
    have hvalid := hiff.mp rfl
    exact ⟨hvalid.long, hvalid.length_eq, (toNat_comment_eq_iff p).mp (horder _ rfl)⟩
  · intro hright
    refine ⟨?_, ?_, idle_reStartReceive p⟩
    · rw [hcall]
      constructor
      · intro hsome
        split at hsome
        · next hpass =>
            obtain ⟨hlong, hlen, -⟩ := hright hpass.2.2 hpass.1 hpass.2.1
            exact ⟨hlong, hlen, hpass.2.2⟩
        · cases hsome
      · intro hvalid
        rw [if_pos hvalid.passes]
        rfl
    · intro call hmem
      rw [hcall] at hmem
      split at hmem
      · next hpass =>
          obtain ⟨-, -, hzero⟩ := hright hpass.2.2 hpass.1 hpass.2.1
          obtain rfl : _ = call := Option.some.inj hmem
          exact (toNat_comment_eq_iff p).mpr hzero
      · cases hmem

/-- The index lies in the buffer. -/
structure Receive.Bounded (r : Receive) : Prop where
  index_le : r.rxIndex.toNat ≤ r.rxBufSize.toNat
  first : r.receiveStation = receiveFistHeard → r.rxIndex = 1

/-- `RX_Loop` keeps the index in the buffer. -/
theorem Receive.Bounded.rxLoop {r : Receive} (h : r.Bounded) (hsize : 2 ≤ r.rxBufSize.toNat)
    (buf : List UInt8) (b : UInt8) :
    (rxLoop r buf b).1.Bounded ∧ (rxLoop r buf b).1.rxBufSize = r.rxBufSize := by
  have hsmall := r.rxBufSize.toNat_lt
  have hnext : r.rxIndex < r.rxBufSize.toUInt32 →
      (r.rxIndex + 1).toNat ≤ r.rxBufSize.toNat := by
    rw [UInt32.lt_iff_toNat_lt, UInt16.toNat_toUInt32, UInt32.toNat_add]
    simp only [UInt32.reduceToNat]
    omega
  unfold Gsm.rxLoop
  split_ifs with h₀ hb h₁ hb h₂ hlt htail
  · exact ⟨⟨(by omega : 1 ≤ r.rxBufSize.toNat), fun _ => rfl⟩, rfl⟩
  · exact ⟨h, rfl⟩
  · refine ⟨⟨?_, fun hno => absurd hno (by decide : receiveSecondHeard ≠ receiveFistHeard)⟩, rfl⟩
    show (r.rxIndex + 1).toNat ≤ _
    rw [h.first h₁]
    exact hsize
  · exact ⟨⟨Nat.zero_le _,
      fun hno => absurd hno (by decide : receiveDataHandled ≠ receiveFistHeard)⟩, rfl⟩
  · exact ⟨⟨hnext hlt,
      fun hno => absurd hno (by decide : receiveOnePackedData ≠ receiveFistHeard)⟩, rfl⟩
  · exact ⟨⟨hnext hlt, fun hno => absurd hno h₁⟩, rfl⟩
  · exact ⟨h, rfl⟩
  · exact ⟨h, rfl⟩

theorem byte_fst (p : RxState) (b : UInt8) : (p.byte b).1 = (rxLoop p.1 p.2 b).1 := by
  unfold RxState.byte
  split <;> next heq => rw [heq]

theorem length_byte (p : RxState) (b : UInt8) : (p.byte b).2.length = p.2.length := by
  unfold RxState.byte
  split
  · rfl
  · exact List.length_set

/-- So a frame that is complete behind any bytes is one in the buffer. -/
theorem received_feed {p : RxState} (h : p.1.Bounded) (hroom : p.1.rxBufSize.toNat ≤ p.2.length)
    (hsize : 2 ≤ p.1.rxBufSize.toNat) (bytes : List UInt8)
    (hstation : (p.feed bytes).1.receiveStation = receiveOnePackedData) :
    Received (p.feed bytes) := by
  induction bytes generalizing p with
  | nil => exact ⟨hstation, h.index_le, hroom⟩
  | cons b bytes ih =>
      obtain ⟨hbyte, hsame⟩ := h.rxLoop hsize p.2 b
      rw [← byte_fst] at hbyte hsame
      exact ih hbyte (by rw [hsame, length_byte]; exact hroom) (by rw [hsame]; exact hsize) hstation

/-- The receiver with these bytes received. -/
def received (bytes : List UInt8) : RxState :=
  RxState.feed (transparentRxInit, List.replicate maxRxNum 0) bytes

/-- The receiver behind `GSMInit` is idle, and its index lies in the buffer. -/
theorem received_of_station {bytes : List UInt8}
    (h : (received bytes).1.receiveStation = receiveOnePackedData) : Received (received bytes) :=
  received_feed ⟨Nat.zero_le _, fun hno => absurd hno (by decide)⟩ List.length_replicate.ge
    (by decide) bytes h

/-- The heartbeat of the server. -/
theorem acceptsValid_heartbeat :
    Received (received [0x64, 0x7A, 0, 2, 0, 8, 10, 0x7A, 0x64]) ∧
      AcceptsValid (received [0x64, 0x7A, 0, 2, 0, 8, 10, 0x7A, 0x64]) 0 := by
  have h : Received (received [0x64, 0x7A, 0, 2, 0, 8, 10, 0x7A, 0x64]) :=
    received_of_station (by decide +kernel)
  exact ⟨h, (acceptsValid_iff h 0).mpr (by decide +kernel)⟩

/-- A heartbeat that says its length is zero is accepted. -/
theorem receiveDataHandle_shortLength :
    ¬ ∀ (p : RxState) (currentTick : UInt32), Received p → AcceptsValid p currentTick := by
  intro hall
  have h : Received (received [0x64, 0x7A, 0, 0, 0, 8, 8, 0x7A, 0x64]) :=
    received_of_station (by decide +kernel)
  have hlen := ((hall _ 0 h).called_iff.mp (by decide +kernel)).length_eq
  revert hlen
  decide +kernel

end Gsm
