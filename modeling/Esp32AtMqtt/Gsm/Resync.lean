import Esp32AtMqtt.Gsm.Receiver
import Mathlib.Data.List.DropRight

/-!
# Noise in front of a serial frame

How `RX_Loop` finds the header pair behind bytes that do not contain it. A byte that is not
the second of the pair sends the receiver back to the start, also where it is the first of
the pair once more. So in a run of first header bytes the receiver has heard every other one,
and it depends on the length of the run at the end of the noise whether the header is found.
-/

namespace Gsm

open Shortest

/-- The lists that end with the header pair. -/
def EndsWithHeader (r : Receive) (front : List UInt8) : Prop :=
  [r.firstHeard, r.secondHeard] <:+ front

/-- How many first header bytes stand at the end. -/
def firstRun (r : Receive) (bytes : List UInt8) : ℕ :=
  (bytes.rtakeWhile (· = r.firstHeard)).length

/-- The receiver has found the header exactly at the end of its first occurrence. -/
def Resynced (p : RxState) (stream : List UInt8) : Prop :=
  ∃ front, front <+: stream ∧ IsShortest (EndsWithHeader p.1) front ∧
    Stored p.1 receiveSecondHeard [p.1.firstHeard, p.1.secondHeard] (p.feed front) ∧
    ∀ q, q <+: front → q ≠ front → (p.feed q).1.receiveStation ≠ receiveSecondHeard

/-- Nothing is being received; the structure is `r` but for the index. -/
structure AwaitsHead (r : Receive) (p : RxState) : Prop where
  struct : p.1 = { r with rxIndex := p.1.rxIndex, receiveStation := receiveDataHandled }
  room : r.rxBufSize.toNat ≤ p.2.length

/-- The header pair as the last two bytes. -/
theorem append_header (r : Receive) (before : List UInt8) :
    before ++ [r.firstHeard, r.secondHeard] = (before ++ [r.firstHeard]) ++ [r.secondHeard] := by
  rw [List.append_assoc]
  rfl

theorem AwaitsHead.station {r : Receive} {p : RxState} (h : AwaitsHead r p) :
    p.1.receiveStation = receiveDataHandled := by
  rw [h.struct]

theorem Stored.station_eq {r : Receive} {station : UInt8} {front : List UInt8} {p : RxState}
    (h : Stored r station front p) : p.1.receiveStation = station := by
  rw [h.struct]

theorem Idle.awaitsHead {p : RxState} (h : Idle p) : AwaitsHead p.1 p := by
  refine ⟨?_, h.room⟩
  rw [← h.station]

theorem firstRun_first (r : Receive) (bytes : List UInt8) :
    firstRun r (bytes ++ [r.firstHeard]) = firstRun r bytes + 1 := by
  have hlast := List.rtakeWhile_concat_pos (fun b => decide (b = r.firstHeard)) bytes
    r.firstHeard (decide_eq_true rfl)
  rw [firstRun, hlast, List.length_append]
  rfl

theorem firstRun_other {r : Receive} {b : UInt8} (h : b ≠ r.firstHeard) (bytes : List UInt8) :
    firstRun r (bytes ++ [b]) = 0 := by
  rw [firstRun, List.rtakeWhile_concat_neg _ _ _ (by simpa using h), List.length_nil]

/-- A run is not empty when the last byte is a first header byte. -/
theorem exists_of_firstRun_ne_zero {r : Receive} {bytes : List UInt8} (h : firstRun r bytes ≠ 0) :
    ∃ before, bytes = before ++ [r.firstHeard] := by
  induction bytes using List.reverseRecOn with
  | nil => exact absurd rfl h
  | append_singleton bytes b _ =>
      by_cases hb : b = r.firstHeard
      · exact ⟨bytes, by rw [hb]⟩
      · exact absurd (firstRun_other hb bytes) h

/-- The first header byte, to a receiver that waits. -/
theorem AwaitsHead.first {r : Receive} {p : RxState} (h : AwaitsHead r p)
    (hsize : 1 ≤ r.rxBufSize.toNat) :
    Stored r receiveFistHeard [r.firstHeard] (p.byte r.firstHeard) := by
  have hfirst : p.1.firstHeard = r.firstHeard := by rw [h.struct]
  have hbuf : p.1.rxBufSize = r.rxBufSize := by rw [h.struct]
  have hidle : Idle p := ⟨h.station, by rw [hbuf]; exact h.room⟩
  have hstored := hidle.byte (by rw [hbuf]; exact hsize)
  rw [hfirst] at hstored
  exact ⟨by rw [hstored.struct, h.struct], hstored.bytes, by rw [← hbuf]; exact hstored.room⟩

/-- Another byte, to a receiver that waits. -/
theorem AwaitsHead.other {r : Receive} {p : RxState} (h : AwaitsHead r p) {b : UInt8}
    (hb : b ≠ r.firstHeard) : p.byte b = p := by
  have hfirst : p.1.firstHeard = r.firstHeard := by rw [h.struct]
  rw [RxState.byte, rxLoop, if_pos h.station, hfirst, if_neg hb]

/-- A byte that breaks the match sends the receiver back. -/
theorem Stored.broken {r : Receive} {front : List UInt8} {p : RxState}
    (h : Stored r receiveFistHeard front p) {b : UInt8} (hb : b ≠ r.secondHeard) :
    AwaitsHead r (p.byte b) := by
  have hno : receiveFistHeard ≠ receiveDataHandled := by decide
  have hstep : p.byte b =
      ({ r with rxIndex := 0, receiveStation := receiveDataHandled }, p.2) := by
    rw [RxState.byte, rxLoop, h.struct]
    simp only [if_neg hno, if_neg hb, if_true]
  rw [hstep]
  exact ⟨rfl, h.room⟩

/-- While the header has not come, the receiver has heard the first byte of it exactly when the
run of them at the end is odd. -/
theorem feed_noise {p : RxState} (hidle : Idle p) (hsize : 2 ≤ p.1.rxBufSize.toNat)
    {bytes : List UInt8} (hun : Unended (EndsWithHeader p.1) bytes) :
    (firstRun p.1 bytes % 2 = 1 →
        Stored p.1 receiveFistHeard [p.1.firstHeard] (p.feed bytes)) ∧
      (firstRun p.1 bytes % 2 = 0 → AwaitsHead p.1 (p.feed bytes)) := by
  induction bytes using List.reverseRecOn with
  | nil => exact ⟨fun h => absurd h Nat.zero_ne_one, fun _ => hidle.awaitsHead⟩
  | append_singleton bytes b ih =>
      obtain ⟨hheard, hwaiting⟩ := ih (hun.of_prefix (List.prefix_append _ [b]))
      rw [feed_snoc]
      by_cases hodd : firstRun p.1 bytes % 2 = 1
      · have hb : b ≠ p.1.secondHeard := by
          rintro rfl
          have hne : firstRun p.1 bytes ≠ 0 := by omega
          obtain ⟨before, rfl⟩ := exists_of_firstRun_ne_zero hne
          exact hun _ List.prefix_rfl (by simp) ⟨before, append_header _ _⟩
        have heven : firstRun p.1 (bytes ++ [b]) % 2 = 0 := by
          by_cases hfirst : b = p.1.firstHeard
          · rw [hfirst, firstRun_first]
            omega
          · rw [firstRun_other hfirst]
        refine ⟨fun h => ?_, fun _ => (hheard hodd).broken hb⟩
        rw [heven] at h
        cases h
      · have heven : firstRun p.1 bytes % 2 = 0 := by omega
        by_cases hfirst : b = p.1.firstHeard
        · subst hfirst
          rw [firstRun_first]
          refine ⟨fun _ => (hwaiting heven).first (by omega), fun h => ?_⟩
          omega
        · rw [firstRun_other hfirst, (hwaiting heven).other hfirst]
          exact ⟨fun h => absurd h (by decide), fun _ => hwaiting heven⟩

/-- Before the header the receiver has not found it. -/
theorem station_noise {p : RxState} (hidle : Idle p) (hsize : 2 ≤ p.1.rxBufSize.toNat)
    {bytes : List UInt8} (hun : Unended (EndsWithHeader p.1) bytes) :
    (p.feed bytes).1.receiveStation ≠ receiveSecondHeard := by
  obtain ⟨hheard, hwaiting⟩ := feed_noise hidle hsize hun
  rcases Nat.mod_two_eq_zero_or_one (firstRun p.1 bytes) with heven | hodd
  · rw [(hwaiting heven).station]
    decide
  · rw [(hheard hodd).station_eq]
    decide

/-- At the end of its first occurrence the header is found exactly when the run of first header
bytes in it is odd. -/
theorem feed_header {p : RxState} (hidle : Idle p) (hsize : 2 ≤ p.1.rxBufSize.toNat)
    {before : List UInt8} (hshort : IsShortest (EndsWithHeader p.1)
      ((before ++ [p.1.firstHeard]) ++ [p.1.secondHeard])) :
    Stored p.1 receiveSecondHeard [p.1.firstHeard, p.1.secondHeard]
        (p.feed ((before ++ [p.1.firstHeard]) ++ [p.1.secondHeard])) ↔
      firstRun p.1 before % 2 = 0 := by
  obtain ⟨hheard, hwaiting⟩ := feed_noise hidle hsize hshort.unended
  rw [firstRun_first] at hheard hwaiting
  rw [feed_snoc]
  constructor
  · intro hfound
    by_contra hodd
    have hback := hwaiting (by omega)
    have hstation : ((p.feed (before ++ [p.1.firstHeard])).byte
        p.1.secondHeard).1.receiveStation ≠ receiveSecondHeard := by
      by_cases hsame : p.1.secondHeard = p.1.firstHeard
      · rw [hsame, (hback.first (by omega)).station_eq]
        decide
      · rw [hback.other hsame, hback.station]
        decide
    exact hstation hfound.station_eq
  · intro heven
    exact (hheard (by omega)).second hsize

/-- With two header bytes that are the same, no first header byte stands in front of the first
occurrence. -/
theorem firstRun_same {r : Receive} {before : List UInt8} (hsame : r.firstHeard = r.secondHeard)
    (hun : Unended (EndsWithHeader r) (before ++ [r.firstHeard])) : firstRun r before = 0 := by
  by_contra hne
  obtain ⟨before, rfl⟩ := exists_of_firstRun_ne_zero hne
  refine hun _ List.prefix_rfl (by simp) ⟨before, ?_⟩
  rw [← hsame, List.append_assoc]
  rfl

/-- With two that differ, the first occurrence is the one behind the noise. -/
theorem isShortest_noise {r : Receive} {noise : List UInt8} (hne : r.firstHeard ≠ r.secondHeard)
    (hnoise : ¬ [r.firstHeard, r.secondHeard] <:+: noise) :
    IsShortest (EndsWithHeader r) ((noise ++ [r.firstHeard]) ++ [r.secondHeard]) := by
  apply Unended.isShortest
  · intro q hq _ hend
    rcases List.prefix_concat_iff.mp hq with rfl | hq
    · have hlast := hend.getLast (by simp)
      rw [List.getLast_append_singleton] at hlast
      exact hne hlast.symm
    · exact hnoise (hend.isInfix.trans hq.isInfix)
  · exact ⟨noise, append_header r noise⟩

/-- The receiver finds the header of the frame exactly when the header bytes are the same, or an
even number of first header bytes ends the noise. -/
theorem resynced_iff {p : RxState} (hidle : Idle p) (hsize : 2 ≤ p.1.rxBufSize.toNat)
    {noise frame : List UInt8}
    (hnoise : ¬ [p.1.firstHeard, p.1.secondHeard] <:+: noise)
    (hframe : [p.1.firstHeard, p.1.secondHeard] <+: frame) :
    Resynced p (noise ++ frame) ↔
      p.1.firstHeard = p.1.secondHeard ∨ firstRun p.1 noise % 2 = 0 := by
  have hhead : (noise ++ [p.1.firstHeard]) ++ [p.1.secondHeard] <+: noise ++ frame := by
    rw [List.append_assoc]
    exact (List.prefix_append_right_inj noise).mpr hframe
  -- the first occurrence, and what comes before it
  obtain ⟨front, hfront, hshort⟩ := exists_isShortest (P := EndsWithHeader p.1)
    (List.append_ne_nil_of_right_ne_nil _ (List.cons_ne_nil _ _))
    ⟨noise, append_header p.1 noise⟩
  obtain ⟨before, rfl⟩ := hshort.complete
  rw [append_header] at hfront hshort
  have hrun : firstRun p.1 before % 2 = 0 ↔
      p.1.firstHeard = p.1.secondHeard ∨ firstRun p.1 noise % 2 = 0 := by
    by_cases hsame : p.1.firstHeard = p.1.secondHeard
    · rw [firstRun_same hsame hshort.unended]
      exact iff_of_true rfl (.inl hsame)
    · have heq := hshort.unique (isShortest_noise hsame hnoise) hfront List.prefix_rfl
      have hbefore := List.append_cancel_right (List.append_cancel_right heq)
      rw [hbefore, or_iff_right hsame]
  rw [← hrun, ← feed_header hidle hsize hshort]
  constructor
  · rintro ⟨front, hfront', hshort', hfound, -⟩
    rwa [hshort'.unique hshort hfront' (hfront.trans hhead)] at hfound
  · intro hfound
    refine ⟨_, hfront.trans hhead, hshort, hfound, fun q hq hne => ?_⟩
    rcases List.prefix_concat_iff.mp hq with heq | hq
    · exact absurd heq hne
    · exact station_noise hidle hsize (hshort.unended.of_prefix hq)

/-- The receiver of the serial protocol, with a buffer of its size. -/
def transparentRx : RxState := (transparentRxInit, List.replicate maxRxNum 0)

theorem idle_transparentRx : Idle transparentRx := ⟨rfl, List.length_replicate.ge⟩

/-- A frame behind a byte of noise. -/
theorem resynced_oneByte : Resynced transparentRx ([7] ++ [0x64, 0x7A, 0, 2]) :=
  (resynced_iff idle_transparentRx (by decide) (by decide) (by decide)).mpr (.inr (by decide))

/-- A first header byte in front of the frame. -/
theorem not_resynced :
    ¬ ∀ (p : RxState), Idle p → 2 ≤ p.1.rxBufSize.toNat → ∀ noise frame : List UInt8,
      ¬ [p.1.firstHeard, p.1.secondHeard] <:+: noise →
      [p.1.firstHeard, p.1.secondHeard] <+: frame → Resynced p (noise ++ frame) := by
  intro hall
  obtain ⟨front, hfront, -, hfound, -⟩ := hall transparentRx idle_transparentRx (by decide)
    [0x64] [0x64, 0x7A] (by decide) (by decide)
  have hprefixes : ∀ front ∈ ([0x64, 0x64, 0x7A] : List UInt8).inits,
      (transparentRx.feed front).1.receiveStation ≠ receiveSecondHeard := by
    decide +kernel
  exact hprefixes front ((List.mem_inits _ _).mpr hfront) hfound.station_eq

end Gsm
