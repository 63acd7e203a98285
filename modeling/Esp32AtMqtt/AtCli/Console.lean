import Esp32AtMqtt.Drivers.Ringbuffer
import Esp32AtMqtt.Kernel.Semaphore

/-!
# Characters of the AT command line

The receive indication of `at_cli.c` puts each character into `console_rx_fifo` and releases
`console_rx_notice`; `console_getchar` takes the semaphore and gets a character. The two for the
client device do the same. The character is put by force, so no more than 256 of them may wait.
-/

namespace AtCli

open Drivers Kernel Transition

/-- `AT_CLI_FIFO_SIZE`. -/
def atCliFifoSize : UInt16 := 256

/-- Where the thread is in `console_getchar`. -/
inductive ConsolePc
  | take
  | wait
  | get
  deriving DecidableEq, Repr

/-- `console_rx_notice`, `console_rx_fifo` and the thread. History is what has been received, and
what `console_getchar` has returned. -/
structure Console where
  rxNotice : RtSemaphore Unit
  rxFifo : RtRingbuffer
  pc : ConsolePc
  received : List UInt8
  got : List UInt8

/-- Behind `at_cli_init`, with what is in the memory of the buffer. -/
def atCliInit (pool : List UInt8) : Console :=
  ⟨.rtSemCreate 0, rtRingbufferCreate atCliFifoSize pool, .take, [], []⟩

inductive ConsoleAction
  | rxInd (ch : UInt8)
  | getchar
  deriving DecidableEq, Repr

section Memory

/- What is behind the character on the stack of `console_getchar_rx_ind`, and what is in the
character of `console_getchar` before one is put there. -/
variable (stack : ℕ → UInt8) (uninit : UInt8)

/-- The memory from `&ch` on. -/
def addressOf (ch : UInt8) (i : ℕ) : UInt8 := if i = 0 then ch else stack i

/-- One character in the loop of `console_getchar_rx_ind`, or the next statement of
`console_getchar`. -/
def consoleStep (s : Console) : ConsoleAction → Option Console
  | .rxInd ch =>
      let r := s.rxNotice.rtSemRelease
      some {
        rxNotice := r.1
        rxFifo := (s.rxFifo.putForce (addressOf stack ch) 1).1
        pc := if r.2.isSome then .get else s.pc
        received := s.received ++ [ch]
        got := s.got }
  | .getchar =>
      match s.pc with
      | .take =>
          let r := s.rxNotice.rtSemTake ()
          some { s with rxNotice := r.1, pc := if r.2 then .get else .wait }
      | .wait => none
      | .get =>
          let r := s.rxFifo.getchar
          some { s with rxFifo := r.1, pc := .take, got := s.got ++ [r.2.headD uninit] }

end Memory

/-- The buffer has room for a character. -/
def RoomLeft (s : Console) : ConsoleAction → Prop
  | .rxInd _ => 0 < s.rxFifo.spaceLen
  | .getchar => True

instance (s : Console) (a : ConsoleAction) : Decidable (RoomLeft s a) :=
  match a with
  | .rxInd _ => inferInstanceAs (Decidable (0 < s.rxFifo.spaceLen))
  | .getchar => isTrue trivial

/-- The semaphore counts the characters `q` that wait, but for the one that the thread has taken it
for. -/
structure Counted (s : Console) (q : List UInt8) : Prop where
  holds : Holds s.rxFifo q
  size : s.rxFifo.bufferSize = 256
  inOrder : s.received = s.got ++ q
  value : s.rxNotice.value.toNat + (if s.pc = .get then 1 else 0) = q.length
  suspended : s.rxNotice.suspendThread = if s.pc = .wait then [()] else []
  asleep : s.pc = .wait → q = []

theorem counted_init {pool : List UInt8} (hpool : pool.length = 256) :
    Counted (atCliInit pool) [] where
  holds := holds_create hpool (by decide) (by decide)
  size := rfl
  inOrder := rfl
  value := rfl
  suspended := rfl
  asleep _ := rfl

section Runs

variable {stack : ℕ → UInt8} {uninit : UInt8} {s s' : Console} {q : List UInt8}

/-- A character is received. -/
theorem Counted.rxInd (h : Counted s q) {ch : UInt8} (hroom : 0 < s.rxFifo.spaceLen)
    (hstep : consoleStep stack uninit s (.rxInd ch) = some s') : Counted s' (q ++ [ch]) := by
  obtain rfl := Option.some.inj hstep
  have hput := (h.holds.putForce (addressOf stack ch) (show (1 : UInt16).toNat ≤ _ from hroom)).1
  have hsize := (bufferSize_step (s := ⟨s.rxFifo, []⟩)
    (a := .putForce (addressOf stack ch) 1) rfl).trans h.size
  have hspace : q.length < 256 := by
    rw [h.holds.spaceLen_eq, h.size] at hroom
    omega
  have hvalue := h.value
  have horder : s.received ++ [ch] = s.got ++ (q ++ [ch]) := by
    rw [h.inOrder, List.append_assoc]
  by_cases hwait : s.pc = .wait
  · have hq := h.asleep hwait
    have hlist : s.rxNotice.suspendThread = [()] := h.suspended.trans (if_pos hwait)
    subst hq
    rw [RtSemaphore.rtSemRelease_of_cons hlist]
    refine ⟨hput, hsize, horder, ?_, rfl, fun hno => by simp at hno⟩
    simp only [hwait, List.length_nil] at hvalue
    show s.rxNotice.value.toNat + 1 = 1
    simpa using hvalue
  · have hlist : s.rxNotice.suspendThread = [] := h.suspended.trans (if_neg hwait)
    rw [RtSemaphore.rtSemRelease_of_nil hlist]
    refine ⟨hput, hsize, horder, ?_, ?_, fun hw => absurd hw hwait⟩
    · show (s.rxNotice.value + 1).toNat + (if s.pc = .get then 1 else 0) = (q ++ [ch]).length
      have hle : s.rxNotice.value.toNat ≤ q.length := hvalue ▸ Nat.le_add_right _ _
      rw [UInt16.toNat_add, Nat.mod_eq_of_lt (by simp only [UInt16.reduceToNat]; omega),
        List.length_append, ← hvalue]
      simp only [UInt16.reduceToNat, List.length_singleton]
      omega
    · show s.rxNotice.suspendThread = if s.pc = .wait then [()] else []
      rw [if_neg hwait, hlist]

/-- A statement of the thread. -/
theorem Counted.getchar (h : Counted s q)
    (hstep : consoleStep stack uninit s .getchar = some s') : ∃ q', Counted s' q' := by
  have hvalue := h.value
  simp only [consoleStep] at hstep
  cases hpc : s.pc with
  | wait => simp [hpc] at hstep
  | take =>
      have hlist : s.rxNotice.suspendThread = [] := h.suspended.trans (by rw [hpc]; rfl)
      have hcount : s.rxNotice.value.toNat = q.length := by simpa [hpc] using hvalue
      simp only [hpc, Option.some.injEq] at hstep
      subst hstep
      refine ⟨q, ?_⟩
      by_cases hpos : 0 < s.rxNotice.value
      · rw [RtSemaphore.rtSemTake_of_pos hpos]
        refine ⟨h.holds, h.size, h.inOrder, ?_, hlist, fun hw => by simp at hw⟩
        have hone : (1 : UInt16) ≤ s.rxNotice.value := by
          have hlt := UInt16.lt_iff_toNat_lt.mp hpos
          exact UInt16.le_iff_toNat_le.mpr hlt
        show (s.rxNotice.value - 1).toNat + 1 = q.length
        have hlt := UInt16.le_iff_toNat_le.mp hone
        rw [UInt16.toNat_sub_of_le _ _ hone, ← hcount]
        simp only [UInt16.reduceToNat] at hlt ⊢
        omega
      · have hzero : s.rxNotice.value = 0 := UInt16.toNat_inj.mp (Nat.le_zero.mp
          (Nat.not_lt.mp fun hlt => hpos (UInt16.lt_iff_toNat_lt.mpr hlt)))
        have hnil : q = [] := List.length_eq_zero_iff.mp (by rw [← hcount, hzero]; rfl)
        rw [RtSemaphore.rtSemTake_of_zero hzero, hlist]
        exact ⟨h.holds, h.size, h.inOrder, by simpa using hcount, rfl, fun _ => hnil⟩
  | get =>
      have hlist : s.rxNotice.suspendThread = [] := h.suspended.trans (by rw [hpc]; rfl)
      have hcount : s.rxNotice.value.toNat + 1 = q.length := by simpa [hpc] using hvalue
      obtain ⟨ch, rest, rfl⟩ := List.exists_cons_of_length_pos (l := q) (by omega)
      obtain ⟨hrest, hout⟩ := h.holds.getchar
      have hsize := (bufferSize_step (s := ⟨s.rxFifo, []⟩) (a := .getchar) rfl).trans h.size
      simp only [hpc, Option.some.injEq] at hstep
      subst hstep
      refine ⟨rest, hrest, hsize, ?_, ?_, hlist, fun hw => by simp at hw⟩
      · show s.received = s.got ++ [s.rxFifo.getchar.2.headD uninit] ++ rest
        rw [hout, h.inOrder]
        simp
      · show s.rxNotice.value.toNat + 0 = rest.length
        rw [List.length_cons] at hcount
        omega

end Runs

end AtCli
