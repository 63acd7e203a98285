import Esp32AtMqtt.Serial.RxFifo
import Esp32AtMqtt.Stream.Newest
import Esp32AtMqtt.Transition.Run

/-!
# Reads while the interrupt stores bytes

The interrupt of a serial device and any number of reads, one critical section at a time. The
FIFO is a queue that keeps the newest `bufsz - 1` bytes: the bytes that reads return and those
that are still there are what such a queue has handed out and holds (`KeepsNewest`).
-/

namespace Serial

open Transition

/-- A call of `_serial_int_rx`: how many bytes are still asked for, and those read so far. The
loop ends with nothing left to ask for. -/
structure SerialRead where
  left : ℕ
  data : List UInt8
  deriving DecidableEq, Repr

/-- The FIFO and the calls that read from it, with the bytes received, those returned by the
reads, and the numbers reported to `rx_indicate`, each in order. -/
structure SerialState where
  fifo : RxFifo
  reads : List SerialRead
  received : List UInt8
  returned : List UInt8
  indicated : List ℕ
  deriving DecidableEq, Repr

/-- One critical section: `rt_hw_serial_isr` stores a byte that `getc` has returned, or reports
the number of bytes; a call of `_serial_int_rx` begins, or makes one round of its loop. -/
inductive SerialAction
  | store (ch : UInt8)
  | indicate
  | start (length : ℕ)
  | read (i : ℕ)
  deriving DecidableEq, Repr

/-- The FIFO as the device is opened. -/
def serialInit (bufsz : UInt16) : SerialState :=
  ⟨⟨List.replicate bufsz.toNat 0, 0, 0, false⟩, [], [], [], []⟩

/-- One round of the loop of `_serial_int_rx`; without a byte the loop is left. -/
def SerialState.readRound (bufsz : UInt16) (s : SerialState) (i left : ℕ) (data : List UInt8) :
    SerialState :=
  match s.fifo.readByte bufsz with
  | none => { s with reads := s.reads.set i ⟨0, data⟩ }
  | some (ch, fifo) =>
      { s with
        fifo := fifo
        reads := s.reads.set i ⟨left, data ++ [ch]⟩
        returned := s.returned ++ [ch] }

/-- The critical sections. -/
def serialStep (bufsz : UInt16) (s : SerialState) : SerialAction → Option SerialState
  | .store ch =>
      some { s with fifo := s.fifo.store bufsz ch, received := s.received ++ [ch] }
  | .indicate => some { s with indicated := s.indicated ++ [s.fifo.rxLength bufsz] }
  | .start length => some { s with reads := s.reads ++ [⟨length, []⟩] }
  | .read i =>
      match s.reads[i]? with
      | none | some ⟨0, _⟩ => none
      | some ⟨left + 1, data⟩ => some (s.readRound bufsz i left data)

/-- The FIFO keeps the newest bytes in order. What the reads have returned and what is there is
what a queue of `bufsz - 1` bytes that keeps the newest has handed out and holds, so a byte is
lost only when `bufsz - 1` newer ones are there. The number to report is the number of bytes
that a read returns, and it is positive behind every store. -/
structure KeepsNewest (bufsz : UInt16) (s : SerialState) : Prop where
  inside : s.fifo.putIndex < bufsz ∧ s.fifo.getIndex < bufsz
  order : s.returned.Sublist s.received ∧ ∀ r ∈ s.reads, r.data.Sublist s.returned
  queue : ∃ q : Newest.Queue UInt8, q.Ok (bufsz.toNat - 1) ∧ q.given = s.received ∧
    q.taken = s.returned ∧ q.held = (serialIntRx bufsz bufsz.toNat s.fifo).1
  reported : ∀ length, (serialIntRx bufsz length s.fifo).1.length =
    min length (s.fifo.rxLength bufsz)
  positive : ∀ ch, 0 < (s.fifo.store bufsz ch).rxLength bufsz

/-- The FIFO holds what the queue `q` holds. -/
structure Refines (bufsz : UInt16) (s : SerialState) (q : Newest.Queue UInt8) : Prop where
  ok : q.Ok (bufsz.toNat - 1)
  given : q.given = s.received
  taken : q.taken = s.returned
  holds : Holds bufsz s.fifo q.held
  reads : ∀ r ∈ s.reads, r.data.Sublist s.returned

section Refines

variable {bufsz : UInt16} {s : SerialState} {q : Newest.Queue UInt8}

theorem refines_init (hsize : 2 ≤ bufsz.toNat) :
    Refines bufsz (serialInit bufsz) Newest.Queue.empty :=
  ⟨Newest.Queue.ok_empty _, rfl, rfl, holds_empty (by omega), by simp [serialInit]⟩

/-- A store gives the byte to the queue. -/
theorem Refines.store (h : Refines bufsz s q) (hsize : 2 ≤ bufsz.toNat) (ch : UInt8) :
    Refines bufsz { s with fifo := s.fifo.store bufsz ch, received := s.received ++ [ch] }
      (q.give (bufsz.toNat - 1) ch) := by
  have hroom : 0 < bufsz.toNat - 1 := by omega
  refine ⟨h.ok.give hroom ch, ?_, ?_, ?_, h.reads⟩
  · rw [Newest.Queue.given_give, h.given]
  · rw [Newest.Queue.taken_give h.ok, h.taken]
  · rw [Newest.Queue.held_give h.ok hroom]
    exact h.holds.store hsize ch

/-- A round of a read takes the oldest byte of the queue, if there is one. -/
theorem Refines.readRound (h : Refines bufsz s q) (hsize : 2 ≤ bufsz.toNat) {i left : ℕ}
    {data : List UInt8} (hdata : data.Sublist s.returned) :
    ∃ q', Refines bufsz (s.readRound bufsz i left data) q' := by
  have hholds := h.holds
  cases hheld : q.held with
  | nil =>
      rw [hheld] at hholds
      refine ⟨q, ?_⟩
      rw [SerialState.readRound, hholds.readByte_nil hsize]
      refine ⟨h.ok, h.given, h.taken, h.holds, fun r hr => ?_⟩
      rcases List.mem_or_eq_of_mem_set hr with hr | rfl
      · exact h.reads r hr
      · exact hdata
  | cons b rest =>
      rw [hheld] at hholds
      obtain ⟨fifo, hread, hfifo⟩ := hholds.readByte_cons
      refine ⟨q.take, ?_⟩
      rw [SerialState.readRound, hread]
      refine ⟨h.ok.take hheld, h.given, ?_, ?_, fun r hr => ?_⟩
      · rw [Newest.Queue.taken_take hheld, h.taken]
      · rw [Newest.Queue.held_take hheld]
        exact hfifo
      · rcases List.mem_or_eq_of_mem_set hr with hr | rfl
        · exact (h.reads r hr).trans (List.sublist_append_left _ _)
        · exact hdata.append (List.Sublist.refl _)

/-- Every critical section is an operation of the queue, or none. -/
theorem Refines.step (h : Refines bufsz s q) (hsize : 2 ≤ bufsz.toNat) {a : SerialAction}
    {s' : SerialState} (hstep : serialStep bufsz s a = some s') :
    ∃ q', Refines bufsz s' q' := by
  cases a with
  | store ch =>
      cases hstep
      exact ⟨_, h.store hsize ch⟩
  | indicate =>
      cases hstep
      exact ⟨q, h.ok, h.given, h.taken, h.holds, h.reads⟩
  | start length =>
      cases hstep
      refine ⟨q, h.ok, h.given, h.taken, h.holds, fun r hr => ?_⟩
      rcases List.mem_append.mp hr with hr | hr
      · exact h.reads r hr
      · rw [List.mem_singleton.mp hr]
        exact List.nil_sublist _
  | read i =>
      rw [serialStep] at hstep
      split at hstep
      · cases hstep
      · cases hstep
      · next left data hread =>
          cases hstep
          exact h.readRound hsize (h.reads _ (List.mem_of_getElem? hread))

theorem Refines.keepsNewest (h : Refines bufsz s q) (hsize : 2 ≤ bufsz.toNat) :
    KeepsNewest bufsz s := by
  have hreads := h.holds.serialIntRx hsize
  have hroom := h.holds.room
  have hlength := h.holds.rxLength_eq
  refine ⟨⟨?_, ?_⟩, ⟨?_, h.reads⟩, ⟨q, h.ok, h.given, h.taken, ?_⟩, fun length => ?_, fun ch => ?_⟩
  · exact UInt16.lt_iff_toNat_lt.mpr h.holds.putIndex_lt
  · exact UInt16.lt_iff_toNat_lt.mpr h.holds.getIndex
  · rw [← h.taken, ← h.given]
    exact q.taken_sublist
  · rw [(hreads bufsz.toNat).1, List.take_of_length_le (Nat.le_of_lt hroom)]
  · rw [(hreads length).1, List.length_take, hlength]
  · rw [(h.holds.store hsize ch).rxLength_eq]
    split
    · simp
    · simp

end Refines

/-- In every interleaving of the stores of the interrupt with reads of any lengths the FIFO
keeps the newest bytes in order. -/
theorem receive_keepsNewest (bufsz : UInt16) (hsize : 2 ≤ bufsz.toNat) (as : List SerialAction)
    (s : SerialState) (hrun : Run (serialStep bufsz) unconditional (serialInit bufsz) as s) :
    KeepsNewest bufsz s := by
  obtain ⟨q, hq⟩ := hrun.invariant (fun s => ∃ q, Refines bufsz s q)
    (fun s a s' ⟨q, hq⟩ _ hstep => hq.step hsize hstep) ⟨_, refines_init hsize⟩
  exact hq.keepsNewest hsize

/-- Two bytes into a FIFO of two: the first one is lost, and the second one is read. -/
theorem receive_keepsNewest_two :
    ∃ s, Run (serialStep 2) unconditional (serialInit 2)
        [.start 4, .store 0x61, .store 0x62, .indicate, .read 0] s ∧
      s.returned = [0x62] ∧ s.indicated = [1] ∧ KeepsNewest 2 s := by
  obtain ⟨s, hrun, hs⟩ := Run.exists_of_exec (serialStep 2) unconditional (serialInit 2)
    [.start 4, .store 0x61, .store 0x62, .indicate, .read 0]
    (fun s => decide (s.returned = [0x62] ∧ s.indicated = [1])) (by decide)
  obtain ⟨hreturned, hindicated⟩ := of_decide_eq_true hs
  exact ⟨s, hrun, hreturned, hindicated, receive_keepsNewest 2 (by decide) _ s hrun⟩

end Serial
