import Esp32AtMqtt.Gsm.Dispatch
import Esp32AtMqtt.Gsm.Heartbeat

/-!
# The receivers stay as they were initialized

`ATRX` and `GSM_TransparentRX` with their buffers, and all that writes them behind `GSMInit`. Every
store through a pointer is recorded. The fields that are assigned by their names lie inside their
structure, and are not.

`WaitHeartOvertimeHandle` clears the structure `ATRX` where its buffer is meant: as many bytes as
the buffer has, from the address of the pointer on. That runs past the structure, and what it
hits there depends on where the linker has put the other variables. So it is any function
`beyond`.
-/

namespace Gsm

open Transition

/-- The two structures of type `stECEIVE`. -/
inductive RxStruct
  | atRx
  | transparentRx
  deriving DecidableEq, Repr

/-- What a store through a pointer starts in. -/
inductive Place
  | buffer (b : RxBuffer)
  | struct (r : RxStruct)
  | null
  deriving DecidableEq, Repr

/-- `sizeof(stECEIVE)`, with pointers of four bytes. -/
def sizeofReceive : ℕ := 24

/-- `length` bytes are written from the `offset` on. -/
structure Write where
  place : Place
  offset : ℕ
  length : ℕ
  deriving DecidableEq, Repr

/-- A write stays inside what it starts in. -/
def Write.Inside (w : Write) : Prop :=
  match w.place with
  | .buffer _ => w.offset + w.length ≤ maxRxNum
  | .struct _ => w.offset + w.length ≤ sizeofReceive
  | .null => False

/-- The structures, the buffers and `HeartOverTime`. -/
structure GsmMemory where
  atRx : Receive
  transparentRx : Receive
  buffRX : List UInt8
  commBuff : List UInt8
  heart : HeartOverTime
  deriving Repr

namespace GsmMemory

def rx (m : GsmMemory) : RxStruct → Receive
  | .atRx => m.atRx
  | .transparentRx => m.transparentRx

def setRx (m : GsmMemory) (which : RxStruct) (r : Receive) : GsmMemory :=
  match which with
  | .atRx => { m with atRx := r }
  | .transparentRx => { m with transparentRx := r }

/-- The bytes at `pRXBuf`. -/
def bytes (m : GsmMemory) : Option RxBuffer → List UInt8
  | some .buffRX => m.buffRX
  | some .commBuff => m.commBuff
  | none => []

def setBytes (m : GsmMemory) (pRXBuf : Option RxBuffer) (bytes : List UInt8) : GsmMemory :=
  match pRXBuf with
  | some .buffRX => { m with buffRX := bytes }
  | some .commBuff => { m with commBuff := bytes }
  | none => m

@[simp] theorem rx_setBytes (m : GsmMemory) (p : Option RxBuffer) (bytes : List UInt8)
    (which : RxStruct) : (m.setBytes p bytes).rx which = m.rx which := by
  rcases p with _ | _ | _ <;> rfl

@[simp] theorem rx_setRx_self (m : GsmMemory) (which : RxStruct) (r : Receive) :
    (m.setRx which r).rx which = r := by
  cases which <;> rfl

theorem rx_setRx_ne (m : GsmMemory) {which which' : RxStruct} (h : which' ≠ which) (r : Receive) :
    (m.setRx which r).rx which' = m.rx which' := by
  cases which <;> cases which' <;> first | rfl | exact absurd rfl h

end GsmMemory

/-- What `pRXBuf` points to. -/
def place : Option RxBuffer → Place
  | some b => .buffer b
  | none => .null

/-- The memory, and what has been written through pointers. -/
structure GsmRun where
  memory : GsmMemory
  writes : List Write
  deriving Repr

/-- `RX_Loop(which, receiveData)`. -/
def GsmRun.rxLoop (s : GsmRun) (which : RxStruct) (receiveData : UInt8) : GsmRun :=
  let r := s.memory.rx which
  let buf := s.memory.bytes r.pRXBuf
  match Gsm.rxLoop r buf receiveData with
  | (r', none) => { s with memory := s.memory.setRx which r' }
  | (r', some i) =>
      ⟨(s.memory.setBytes r.pRXBuf (buf.set i.toNat receiveData)).setRx which r',
        s.writes ++ [⟨place r.pRXBuf, i.toNat, 1⟩]⟩

/-- `protocolHandle(order)` with the table of `ProTocolRegist`: what the handlers do to
`HeartOverTime`. `TLV_GetParam` has the order 7 and does nothing to it. -/
def protocolHandle (h : HeartOverTime) (order : UInt16) (currentTick : UInt32) : HeartOverTime :=
  if order = 0x0001 then tlvRegisetBack h currentTick
  else if order = 0x0008 then tlvHeartBeat h
  else h

/-- `ReceiveDataHandle()`. -/
def GsmRun.receiveDataHandle (s : GsmRun) (currentTick : UInt32) : GsmRun :=
  let r := s.memory.transparentRx
  let (p, call) := Gsm.receiveDataHandle (r, s.memory.bytes r.pRXBuf) currentTick
  let heart := match call with
    | some (order, _) => protocolHandle s.memory.heart order currentTick
    | none => s.memory.heart
  ⟨{ (s.memory.setBytes r.pRXBuf p.2).setRx .transparentRx p.1 with heart := heart },
    s.writes ++ [⟨place r.pRXBuf, 0, r.rxBufSize.toNat⟩]⟩

/-- A number with its lowest bytes cleared. -/
def clearLow (bytes v : ℕ) : ℕ := v / 256 ^ bytes * 256 ^ bytes

/-- `memset(&r.pRXBuf, 0, n)`. A pointer that is cleared in part points nowhere. -/
def Receive.zeroed (n : ℕ) (r : Receive) : Receive where
  pRXBuf := if n = 0 then r.pRXBuf else none
  rxBufSize := UInt16.ofNat (clearLow (n - 4) r.rxBufSize.toNat)
  rxIndex := UInt32.ofNat (clearLow (n - 8) r.rxIndex.toNat)
  receiveStation := if 12 < n then 0 else r.receiveStation
  receiveEnable := if 13 < n then 0 else r.receiveEnable
  firstHeard := if 14 < n then 0 else r.firstHeard
  secondHeard := if 15 < n then 0 else r.secondHeard
  firstTail := if 16 < n then 0 else r.firstTail
  secondTail := if 17 < n then 0 else r.secondTail
  receiveStartTime := UInt32.ofNat (clearLow (n - 20) r.receiveStartTime.toNat)

section Layout

variable (beyond : RxStruct → ℕ → GsmMemory → GsmMemory)

/-- `memset(&which.pRXBuf, 0, n)`. -/
def GsmRun.clear (s : GsmRun) (which : RxStruct) (n : ℕ) : GsmRun :=
  let hit := if sizeofReceive < n then beyond which (n - sizeofReceive) s.memory else s.memory
  ⟨hit.setRx which ((s.memory.rx which).zeroed n), s.writes ++ [⟨.struct which, 0, n⟩]⟩

/-- `WaitHeartOvertimeHandle()`. The second size is read behind the first `memset`. -/
def GsmRun.waitHeartOvertimeHandle (s : GsmRun) : GsmRun :=
  let s := { s with memory := { s.memory with heart := .zero } }
  let s := s.clear beyond .atRx s.memory.atRx.rxBufSize.toNat
  s.clear beyond .transparentRx s.memory.atRx.rxBufSize.toNat

/-- `HeartOverTimeCheck()`. -/
def GsmRun.heartOverTimeCheck (s : GsmRun) (currentTick : UInt32) : GsmRun :=
  if (Gsm.heartOverTimeCheck s.memory.heart currentTick).2 then s.waitHeartOvertimeHandle beyond
  else
    { s with memory :=
        { s.memory with heart := (Gsm.heartOverTimeCheck s.memory.heart currentTick).1 } }

/-- What runs behind `GSMInit`. -/
inductive GsmAction
  | rxLoop (which : RxStruct) (receiveData : UInt8)
  | receiveDataHandle (currentTick : UInt32)
  | heartOverTimeCheck (currentTick : UInt32)
  | waitHeartOvertimeHandle
  deriving DecidableEq, Repr

def gsmStep (s : GsmRun) : GsmAction → Option GsmRun
  | .rxLoop which receiveData => some (s.rxLoop which receiveData)
  | .receiveDataHandle currentTick => some (s.receiveDataHandle currentTick)
  | .heartOverTimeCheck currentTick => some (s.heartOverTimeCheck beyond currentTick)
  | .waitHeartOvertimeHandle => some (s.waitHeartOvertimeHandle beyond)

/-- Behind `GSMInit`. -/
def gsmInit (heart : HeartOverTime) : GsmRun where
  memory :=
    ⟨atRxInit, transparentRxInit, List.replicate maxRxNum 0, List.replicate maxRxNum 0, heart⟩
  writes := [⟨.buffer .buffRX, 0, maxRxNum⟩, ⟨.buffer .commBuff, 0, maxRxNum⟩]

/-- What `GSMInit` has made of a structure. -/
def rxInit : RxStruct → Receive
  | .atRx => atRxInit
  | .transparentRx => transparentRxInit

/-- The structures have the pointer, the size, the header and the tail that `GSMInit` gave them, the
indexes are in range, and everything was written inside of what it was meant for. -/
structure Intact (s : GsmRun) : Prop where
  wire : ∀ which, SameWire (rxInit which) (s.memory.rx which)
  index : ∀ which, (s.memory.rx which).rxIndex ≤ (s.memory.rx which).rxBufSize.toUInt32
  inside : ∀ w ∈ s.writes, w.Inside

/-- A check at this tick counts more than `OverTimes` waits. -/
def HeartOverTime.Overdue (h : HeartOverTime) (currentTick : UInt32) : Prop :=
  h.heartBwtStartMark = 1 ∧ oneOverTime < currentTick - h.lastHeartTick ∧
    overTimes < h.heartBeartWaitTimes + ((currentTick - h.lastHeartTick) / oneOverTime).toUInt8

/-- The watchdog does not run out. -/
def NoReset (s : GsmRun) : GsmAction → Prop
  | .heartOverTimeCheck currentTick => ¬ s.memory.heart.Overdue currentTick
  | .waitHeartOvertimeHandle => False
  | _ => True

end Layout

/-! ## One byte -/

theorem sameWire_rxLoop (r : Receive) (buf : List UInt8) (b : UInt8) :
    SameWire r (rxLoop r buf b).1 := by
  unfold rxLoop
  split_ifs <;> rfl

/-- The index is in range, and behind the first header byte there is room for another. -/
structure InRange (r : Receive) : Prop where
  index : r.rxIndex ≤ r.rxBufSize.toUInt32
  header : r.receiveStation = receiveFistHeard → r.rxIndex < r.rxBufSize.toUInt32

theorem add_one_le_of_lt {i n : UInt32} (h : i < n) : i + 1 ≤ n := by
  have hn := n.toNat_lt
  rw [UInt32.lt_iff_toNat_lt] at h
  rw [UInt32.le_iff_toNat_le, UInt32.toNat_add]
  show (i.toNat + 1) % 2 ^ 32 ≤ n.toNat
  rw [Nat.mod_eq_of_lt (by omega)]
  exact h

/-- What `RX_Loop` does to a structure: its index moves at most one on, behind a store at the old
one, unless it starts again. -/
theorem rxLoop_cases (r : Receive) (buf : List UInt8) (b : UInt8) :
    rxLoop r buf b = (r, none) ∨
    rxLoop r buf b = ({ r with rxIndex := 0, receiveStation := receiveDataHandled }, none) ∨
    rxLoop r buf b = ({ r with rxIndex := 1, receiveStation := receiveFistHeard }, some 0) ∨
    ∃ station, station ≠ receiveFistHeard ∧
      (r.receiveStation = receiveFistHeard ∨ r.rxIndex < r.rxBufSize.toUInt32) ∧
      rxLoop r buf b =
        ({ r with rxIndex := r.rxIndex + 1, receiveStation := station }, some r.rxIndex) := by
  unfold rxLoop
  by_cases hhandled : r.receiveStation = receiveDataHandled
  · rw [if_pos hhandled]
    by_cases hbyte : b = r.firstHeard
    · rw [if_pos hbyte]
      exact .inr (.inr (.inl rfl))
    · rw [if_neg hbyte]
      exact .inl rfl
  rw [if_neg hhandled]
  by_cases hfirst : r.receiveStation = receiveFistHeard
  · rw [if_pos hfirst]
    by_cases hbyte : b = r.secondHeard
    · rw [if_pos hbyte]
      exact .inr (.inr (.inr ⟨receiveSecondHeard, by decide, .inl hfirst, rfl⟩))
    · rw [if_neg hbyte]
      exact .inr (.inl rfl)
  rw [if_neg hfirst]
  by_cases hsecond : r.receiveStation = receiveSecondHeard
  · rw [if_pos hsecond]
    by_cases hroom : r.rxIndex < r.rxBufSize.toUInt32
    · rw [if_pos hroom]
      refine .inr (.inr (.inr ⟨_, ?_, .inr hroom, rfl⟩))
      split_ifs
      · decide
      · exact hfirst
    · rw [if_neg hroom]
      exact .inl rfl
  · rw [if_neg hsecond]
    exact .inl rfl

/-- A byte leaves the index in range, and is stored inside of the buffer. -/
theorem InRange.rxLoop {r : Receive} (h : InRange r) (hsize : 1 < r.rxBufSize.toUInt32)
    (buf : List UInt8) (b : UInt8) :
    InRange (Gsm.rxLoop r buf b).1 ∧
      ∀ i, (Gsm.rxLoop r buf b).2 = some i → i < r.rxBufSize.toUInt32 := by
  rcases rxLoop_cases r buf b with heq | heq | heq | ⟨station, hstation, hroom, heq⟩
  · rw [heq]
    exact ⟨h, fun i hi => Option.noConfusion rfl (heq_of_eq hi)⟩
  · rw [heq]
    have hno : receiveDataHandled ≠ receiveFistHeard := by decide
    refine ⟨⟨UInt32.zero_le, fun hfirst => absurd hfirst hno⟩, fun i hi => ?_⟩
    exact Option.noConfusion rfl (heq_of_eq hi)
  · rw [heq]
    refine ⟨⟨UInt32.le_of_lt hsize, fun _ => hsize⟩, fun i hi => ?_⟩
    rw [← Option.some.inj hi]
    exact UInt32.lt_trans (by decide) hsize
  · rw [heq]
    have hlt : r.rxIndex < r.rxBufSize.toUInt32 := hroom.elim h.header id
    refine ⟨⟨add_one_le_of_lt hlt, fun hfirst => absurd hfirst hstation⟩, fun i hi => ?_⟩
    rw [← Option.some.inj hi]
    exact hlt

/-! ## A run -/

section Layout

variable {beyond : RxStruct → ℕ → GsmMemory → GsmMemory} {s t : GsmRun}

/-- What all steps keep that meet the condition. -/
structure Sound (s : GsmRun) : Prop where
  intact : Intact s
  range : ∀ which, InRange (s.memory.rx which)

theorem rxBufSize_of_wire {which : RxStruct} {r : Receive} (h : SameWire (rxInit which) r) :
    r.rxBufSize = 512 := by
  rw [h]
  cases which <;> rfl

/-- The place of the buffer is a buffer. -/
theorem place_of_wire {which : RxStruct} {r : Receive} (h : SameWire (rxInit which) r) :
    ∃ b, place r.pRXBuf = .buffer b := by
  rw [h]
  cases which
  · exact ⟨.buffRX, rfl⟩
  · exact ⟨.commBuff, rfl⟩

/-- A store into the buffer of a structure that is as it was. -/
theorem inside_of_wire {which : RxStruct} {r : Receive} (h : SameWire (rxInit which) r)
    {offset length : ℕ} (hend : offset + length ≤ 512) :
    Write.Inside ⟨place r.pRXBuf, offset, length⟩ := by
  obtain ⟨b, hb⟩ := place_of_wire h
  rw [hb]
  exact hend

theorem inside_append {ws : List Write} (hws : ∀ w ∈ ws, w.Inside) {w : Write} (hw : w.Inside) :
    ∀ w' ∈ ws ++ [w], w'.Inside :=
  List.forall_mem_append.mpr ⟨hws, List.forall_mem_singleton.mpr hw⟩

/-- One structure changes, and keeps its wiring and range. -/
theorem Sound.setRx (h : Sound s) (which : RxStruct) (r : Receive)
    (hwire : SameWire (s.memory.rx which) r) (hrange : InRange r) {m : GsmMemory}
    (hm : ∀ which', m.rx which' = (s.memory.setRx which r).rx which') {ws : List Write}
    (hinside : ∀ w ∈ ws, w.Inside) : Sound ⟨m, ws⟩ := by
  have hkeep : ∀ which', SameWire (rxInit which') (m.rx which') ∧ InRange (m.rx which') := by
    intro which'
    rw [hm]
    by_cases heq : which' = which
    · rw [heq, GsmMemory.rx_setRx_self]
      exact ⟨(h.intact.wire which).trans hwire, hrange⟩
    · rw [GsmMemory.rx_setRx_ne _ heq]
      exact ⟨h.intact.wire which', h.range which'⟩
  exact ⟨⟨fun w => (hkeep w).1, fun w => (hkeep w).2.index, hinside⟩, fun w => (hkeep w).2⟩

theorem Sound.rxLoop (h : Sound s) (which : RxStruct) (b : UInt8) : Sound (s.rxLoop which b) := by
  have hwire := h.intact.wire which
  have hsize := rxBufSize_of_wire hwire
  have hbig : 1 < (s.memory.rx which).rxBufSize.toUInt32 := by
    rw [hsize]
    decide
  obtain ⟨hrange, hstore⟩ := (h.range which).rxLoop hbig
    (s.memory.bytes (s.memory.rx which).pRXBuf) b
  have hsame := sameWire_rxLoop (s.memory.rx which)
    (s.memory.bytes (s.memory.rx which).pRXBuf) b
  rcases hp : Gsm.rxLoop (s.memory.rx which) (s.memory.bytes (s.memory.rx which).pRXBuf) b
    with ⟨r, _ | i⟩
  all_goals
    rw [hp] at hrange hstore hsame
    simp only [GsmRun.rxLoop, hp]
  · exact h.setRx which r hsame hrange (fun _ => rfl) h.intact.inside
  · have hlt := hstore i rfl
    rw [hsize, UInt32.lt_iff_toNat_lt] at hlt
    refine h.setRx which r hsame hrange (fun which' => ?_)
      (inside_append h.intact.inside (inside_of_wire hwire hlt))
    by_cases heq : which' = which
    · rw [heq, GsmMemory.rx_setRx_self, GsmMemory.rx_setRx_self]
    · rw [GsmMemory.rx_setRx_ne _ heq, GsmMemory.rx_setRx_ne _ heq, GsmMemory.rx_setBytes]

theorem Sound.receiveDataHandle (h : Sound s) (currentTick : UInt32) :
    Sound (s.receiveDataHandle currentTick) := by
  have hwire := h.intact.wire .transparentRx
  have hsize : s.memory.transparentRx.rxBufSize = 512 := rxBufSize_of_wire hwire
  have hend : 0 + s.memory.transparentRx.rxBufSize.toNat ≤ 512 := by
    rw [hsize]
    decide
  have hno : receiveDataHandled ≠ receiveFistHeard := by decide
  refine h.setRx .transparentRx
    (reStartReceive (s.memory.transparentRx, s.memory.bytes s.memory.transparentRx.pRXBuf)).1
    (sameWire_reStartReceive _) ⟨UInt32.zero_le, fun hfirst => absurd hfirst hno⟩
    (fun which' => ?_) (inside_append h.intact.inside (inside_of_wire hwire hend))
  cases which'
  · exact GsmMemory.rx_setBytes s.memory _ _ .atRx
  · rfl

theorem Sound.setHeart (h : Sound s) (heart : HeartOverTime) :
    Sound { s with memory := { s.memory with heart := heart } } :=
  h.setRx .atRx s.memory.atRx rfl (h.range .atRx)
    (fun which' => by cases which' <;> rfl) h.intact.inside

/-- Whether the check calls `WaitHeartOvertimeHandle`. -/
theorem heartOverTimeCheck_iff (h : HeartOverTime) (currentTick : UInt32) :
    (heartOverTimeCheck h currentTick).2 = true ↔ h.Overdue currentTick := by
  unfold heartOverTimeCheck HeartOverTime.Overdue
  by_cases hmark : h.heartBwtStartMark = 1
  · rw [if_pos hmark]
    by_cases hlong : oneOverTime < currentTick - h.lastHeartTick
    · rw [if_pos hlong]
      by_cases hmany : overTimes < h.heartBeartWaitTimes +
          ((currentTick - h.lastHeartTick) / oneOverTime).toUInt8
      · exact iff_of_true (congrArg Prod.snd (if_pos hmany)) ⟨hmark, hlong, hmany⟩
      · refine iff_of_false ?_ fun hall => hmany hall.2.2
        rw [if_neg hmany]
        exact Bool.false_ne_true
    · rw [if_neg hlong]
      exact iff_of_false Bool.false_ne_true fun hall => hlong hall.2.1
  · rw [if_neg hmark]
    exact iff_of_false Bool.false_ne_true fun hall => hmark hall.1

theorem Sound.step {a : GsmAction} (h : Sound s) (hok : NoReset s a)
    (hstep : gsmStep beyond s a = some t) : Sound t := by
  cases a with
  | rxLoop which b => exact Option.some.inj hstep ▸ h.rxLoop which b
  | receiveDataHandle currentTick => exact Option.some.inj hstep ▸ h.receiveDataHandle currentTick
  | heartOverTimeCheck currentTick =>
      have hno : ¬ (heartOverTimeCheck s.memory.heart currentTick).2 = true := fun hyes =>
        hok ((heartOverTimeCheck_iff _ _).mp hyes)
      rw [← Option.some.inj hstep, GsmRun.heartOverTimeCheck, if_neg hno]
      exact h.setHeart _
  | waitHeartOvertimeHandle => exact hok.elim

/-- Something has been written outside of what it was meant for. -/
def Overrun (s : GsmRun) : Prop := ∃ w ∈ s.writes, ¬ w.Inside

/-- What has been written stays recorded. -/
theorem writes_grow {a : GsmAction} (hstep : gsmStep beyond s a = some t) :
    s.writes <+: t.writes := by
  cases a with
  | rxLoop which b =>
      rw [← Option.some.inj hstep]
      simp only [GsmRun.rxLoop]
      split
      · exact List.prefix_rfl
      · exact List.prefix_append _ _
  | receiveDataHandle currentTick =>
      rw [← Option.some.inj hstep]
      exact List.prefix_append _ _
  | heartOverTimeCheck currentTick =>
      rw [← Option.some.inj hstep, GsmRun.heartOverTimeCheck]
      split_ifs
      · exact (List.prefix_append _ _).trans (List.prefix_append _ _)
      · exact List.prefix_rfl
  | waitHeartOvertimeHandle =>
      rw [← Option.some.inj hstep]
      exact (List.prefix_append _ _).trans (List.prefix_append _ _)

/-- `WaitHeartOvertimeHandle` writes as many bytes as the buffer has to the structure. -/
theorem Sound.overrun (h : Sound s) : Overrun (s.waitHeartOvertimeHandle beyond) := by
  have hsize : s.memory.atRx.rxBufSize = 512 := rxBufSize_of_wire (h.intact.wire .atRx)
  refine ⟨⟨.struct .atRx, 0, s.memory.atRx.rxBufSize.toNat⟩, ?_, ?_⟩
  · exact List.mem_append_left _ (List.mem_append_right _ (List.mem_singleton_self _))
  · rw [hsize]
    exact (by decide : ¬ 0 + 512 ≤ sizeofReceive)

theorem Sound.broken {a : GsmAction} (h : Sound s) (hno : ¬ NoReset s a)
    (hstep : gsmStep beyond s a = some t) : Overrun t := by
  cases a with
  | rxLoop which b => exact absurd trivial hno
  | receiveDataHandle currentTick => exact absurd trivial hno
  | heartOverTimeCheck currentTick =>
      have hfires := (heartOverTimeCheck_iff _ _).mpr (not_not.mp hno)
      rw [← Option.some.inj hstep, GsmRun.heartOverTimeCheck, if_pos hfires]
      exact h.overrun
  | waitHeartOvertimeHandle => exact Option.some.inj hstep ▸ h.overrun

theorem sound_gsmInit (heart : HeartOverTime) : Sound (gsmInit heart) := by
  have hrange : ∀ which, InRange ((gsmInit heart).memory.rx which) := by
    have hat : InRange atRxInit := ⟨by decide, by decide⟩
    have htransparent : InRange transparentRxInit := ⟨by decide, by decide⟩
    rintro (_ | _)
    · exact hat
    · exact htransparent
  refine ⟨⟨?_, fun which => (hrange which).index, ?_⟩, hrange⟩
  · rintro (_ | _) <;> rfl
  · intro w hw
    rcases List.mem_pair.mp hw with rfl | rfl
    · exact Nat.le_refl 512
    · exact Nat.le_refl 512

/-- The structures stay as `GSMInit` has made them, with the indexes in range and every write
inside, exactly in the runs in which the watchdog does not run out. -/
theorem intact_iff (heart : HeartOverTime) {as : List GsmAction}
    (h : Run (gsmStep beyond) unconditional (gsmInit heart) as t) :
    Intact t ↔ Run (gsmStep beyond) NoReset (gsmInit heart) as t := by
  have hstay : ∀ s a t, Overrun s → gsmStep beyond s a = some t → Overrun t := by
    rintro s a t ⟨w, hw, hout⟩ hstep
    exact ⟨w, (writes_grow hstep).subset hw, hout⟩
  rcases Run.kept_or_broken (fun _ _ _ hs hok => hs.step hok) (fun _ _ _ hs hno => hs.broken hno)
    hstay (sound_gsmInit heart) h with ⟨hkept, hsound⟩ | ⟨hnot, w, hw, hout⟩
  · exact iff_of_true hsound.intact hkept
  · exact iff_of_false (fun hintact => hout (hintact.inside w hw)) hnot

end Layout

/-- A registration reply. -/
def registFrame : SerialFrame := ⟨0, 2, 0, 1, [], 3⟩

/-- The registration reply arrives and is handled at tick 0. -/
def registration : List GsmAction :=
  (registFrame.bytes transparentRxInit).map (.rxLoop .transparentRx) ++ [.receiveDataHandle 0]

theorem intact_registration :
    ∃ t, Run (gsmStep fun _ _ m => m) unconditional (gsmInit .zero) registration t ∧
      (Intact t ↔ Run (gsmStep fun _ _ m => m) NoReset (gsmInit .zero) registration t) := by
  obtain ⟨t, h, -⟩ := Run.exists_of_exec (gsmStep fun _ _ m => m) unconditional (gsmInit .zero)
    registration (fun _ => true) (by decide +kernel)
  exact ⟨t, h, intact_iff .zero h⟩

/-- The server is silent for a minute. -/
def silence : List GsmAction :=
  (List.range 61).map fun k => .heartOverTimeCheck (UInt32.ofNat (1001 * (k + 1)))

/-- When the watchdog runs out the structure is overrun. -/
theorem overrun_by_watchdog :
    ¬ ∀ (beyond : RxStruct → ℕ → GsmMemory → GsmMemory) (as : List GsmAction) (t : GsmRun),
      Run (gsmStep beyond) unconditional (gsmInit .zero) as t → Intact t := by
  intro hall
  obtain ⟨t, h, hw⟩ := Run.exists_of_exec (gsmStep fun _ _ m => m) unconditional (gsmInit .zero)
    (registration ++ silence) (fun t => decide (⟨.struct .atRx, 0, 512⟩ ∈ t.writes))
    (by decide +kernel)
  have hinside := (hall _ _ t h).inside _ (of_decide_eq_true hw)
  exact absurd hinside (by decide : ¬ 0 + 512 ≤ sizeofReceive)

end Gsm
