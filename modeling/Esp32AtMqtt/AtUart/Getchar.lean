import Esp32AtMqtt.Kernel.Semaphore
import Esp32AtMqtt.Transition.Run

/-!
# Waiting for a character on the AT UART

`at_client_getchar` and `at_server_gerchar` read one byte from the serial
device; when there is none they reset `rx_notice`, take it without a timeout and
try again. A byte that arrives is first pushed into the receive FIFO and then
announced by `rt_sem_release(rx_notice)` in the receive indication, so the two
halves of an arrival are separate steps and any number of arrivals may stand
between them.

The reader is lost when it is suspended although the FIFO holds a byte and no
release is still to come. The reset is what loses it: it also discards an
announcement that came after the failed read. `NoticeKept` is the condition that
no announcement is discarded while its byte is unread, and the runs that meet it
are exactly those that lose no wake-up.
-/

namespace AtUart

open Kernel Kernel.RtSemaphore Transition

/-- Where the reader stands in the loop of `at_client_getchar`. -/
inductive GetcharPc
  | read
  | reset
  | take
  | wait
  deriving DecidableEq, Repr

/-- The receive FIFO, the semaphore, the number of bytes pushed whose release is
still to come, the reader's place, and the characters returned so far. -/
structure UartState where
  rxFifo : List UInt8
  rxNotice : RtSemaphore Unit
  pending : ℕ
  pc : GetcharPc
  got : List UInt8
  deriving DecidableEq, Repr

/-- The device is open and idle. -/
def init : UartState := ⟨[], rtSemCreate 0, 0, .read, []⟩

/-- One statement of the loop. A returned character is kept in `got` and the
caller asks for the next one. -/
def getcharStep (s : UartState) : Option UartState :=
  match s.pc with
  | .read =>
      match s.rxFifo with
      | [] => some { s with pc := .reset }
      | ch :: rest => some { s with rxFifo := rest, got := s.got ++ [ch] }
  | .reset => some { s with rxNotice := (s.rxNotice.rtSemControl 0).1, pc := .take }
  | .take =>
      let r := s.rxNotice.rtSemTake ()
      some { s with rxNotice := r.1, pc := if r.2 then .read else .wait }
  | .wait => none

/-- `at_client_getchar(client)`. -/
def atClientGetchar (s : UartState) : Option UartState := getcharStep s

/-- `at_server_gerchar()`, the same loop on the server's device and semaphore. -/
def atServerGerchar (s : UartState) : Option UartState := getcharStep s

/-- Which end of the AT link reads. -/
inductive AtEnd
  | client
  | server
  deriving DecidableEq, Repr

/-- The reader of each end. -/
def getchar : AtEnd → UartState → Option UartState
  | .client => atClientGetchar
  | .server => atServerGerchar

inductive UartAction
  | push (ch : UInt8)
  | rxInd
  | reader
  deriving DecidableEq, Repr

/-- The steps of the link: a byte is pushed, a pushed byte is announced by the
receive indication, or the reader takes its next statement. -/
def step (e : AtEnd) (s : UartState) : UartAction → Option UartState
  | .push ch => some { s with rxFifo := s.rxFifo ++ [ch], pending := s.pending + 1 }
  | .rxInd =>
      if 0 < s.pending then
        let r := s.rxNotice.rtSemRelease
        some { s with
          rxNotice := r.1
          pending := s.pending - 1
          pc := if r.2.isSome then .read else s.pc }
      else none
  | .reader => getchar e s

/-- The reader is suspended, nothing will wake it, and a byte is waiting. -/
def Lost (s : UartState) : Prop :=
  s.pc = .wait ∧ s.rxNotice.value = 0 ∧ s.pending = 0 ∧ s.rxFifo ≠ []

instance (s : UartState) : Decidable (Lost s) :=
  inferInstanceAs (Decidable (_ ∧ _))

/-- No announcement is discarded while its byte is unread: the reset is taken
with an empty FIFO or with a release still to come, and between the reset and
the take the 16-bit counter does not wrap to zero. -/
def NoticeKept (s : UartState) : UartAction → Prop
  | .push _ => True
  | .rxInd => s.pc = .take → s.rxNotice.value = 65535 → s.rxFifo = [] ∨ 1 < s.pending
  | .reader => s.pc = .reset → s.rxFifo = [] ∨ 0 < s.pending

instance (s : UartState) : ∀ a : UartAction, Decidable (NoticeKept s a)
  | .push _ => isTrue trivial
  | .rxInd => inferInstanceAs (Decidable (_ → _ → _))
  | .reader => inferInstanceAs (Decidable (_ → _))

@[simp] theorem getchar_eq (e : AtEnd) (s : UartState) : getchar e s = getcharStep s := by
  cases e <;> rfl

/-- The reader is on the semaphore's list exactly while it waits. -/
def SuspendedIffWait (s : UartState) : Prop :=
  s.rxNotice.suspendThread = if s.pc = .wait then [()] else []

theorem suspendedIffWait_init : SuspendedIffWait init := rfl

theorem suspendedIffWait_step {e : AtEnd} {s t : UartState} {a : UartAction}
    (hs : SuspendedIffWait s) (h : step e s a = some t) : SuspendedIffWait t := by
  unfold SuspendedIffWait at hs ⊢
  cases a with
  | push ch =>
      simp only [step, Option.some.injEq] at h
      subst h
      exact hs
  | rxInd =>
      by_cases hp : 0 < s.pending
      · simp only [step, hp, if_true, Option.some.injEq] at h
        subst h
        by_cases hw : s.pc = .wait
        · rw [if_pos hw] at hs
          simp [rtSemRelease_of_cons hs]
        · rw [if_neg hw] at hs
          simp [rtSemRelease_of_nil hs, hs, hw]
      · simp [step, hp] at h
  | reader =>
      simp only [step, getchar_eq, getcharStep] at h
      cases hpc : s.pc with
      | read =>
          cases hf : s.rxFifo <;> simp only [hpc, hf, Option.some.injEq] at h <;>
            subst h <;> simpa [hpc] using hs
      | reset =>
          simp only [hpc, Option.some.injEq] at h
          subst h
          simp [rtSemControl]
      | take =>
          simp only [hpc, Option.some.injEq] at h
          subst h
          by_cases hv : 0 < s.rxNotice.value
          · simpa [rtSemTake_of_pos hv, hpc] using hs
          · simp only [hpc, reduceCtorEq, if_false] at hs
            simp [rtSemTake, hv, hs]
      | wait => simp [hpc] at h

/-- What keeps a reader from being lost: once it has looked at the FIFO, an
unread byte is matched by a counted release or by one still to come. -/
structure Announced (s : UartState) : Prop where
  suspended : SuspendedIffWait s
  waiting : s.pc = .wait → s.rxFifo = [] ∨ 0 < s.pending
  taking : s.pc = .take → s.rxFifo = [] ∨ 0 < s.pending ∨ 0 < s.rxNotice.value

theorem announced_init : Announced init :=
  ⟨suspendedIffWait_init, fun _ => .inl rfl, fun _ => .inl rfl⟩

theorem Announced.not_lost {s : UartState} (h : Announced s) : ¬ Lost s := by
  rintro ⟨hpc, -, hpend, hfifo⟩
  rcases h.waiting hpc with h0 | h0
  · exact hfifo h0
  · omega

theorem announced_push {e : AtEnd} {s t : UartState} {ch : UInt8}
    (hs : Announced s) (h : step e s (.push ch) = some t) : Announced t := by
  have hsus := suspendedIffWait_step hs.suspended h
  simp only [step, Option.some.injEq] at h
  subst h
  exact ⟨hsus, fun _ => .inr (Nat.succ_pos _), fun _ => .inr (.inl (Nat.succ_pos _))⟩

/-- A release wakes a waiting reader; a reader about to take finds it counted,
since the counter did not wrap. -/
theorem announced_rxInd {e : AtEnd} {s t : UartState}
    (hs : Announced s) (hok : NoticeKept s .rxInd) (h : step e s .rxInd = some t) :
    Announced t := by
  have hsus := suspendedIffWait_step hs.suspended h
  by_cases hp : 0 < s.pending
  · simp only [step, hp, if_true, Option.some.injEq] at h
    by_cases hw : s.pc = .wait
    · have hlist := hs.suspended
      rw [SuspendedIffWait, if_pos hw] at hlist
      rw [rtSemRelease_of_cons hlist] at h
      subst h
      exact ⟨hsus, fun hpc => by simp at hpc, fun hpc => by simp at hpc⟩
    · have hlist := hs.suspended
      rw [SuspendedIffWait, if_neg hw] at hlist
      rw [rtSemRelease_of_nil hlist] at h
      subst h
      refine ⟨hsus, fun hpc => absurd (by simpa using hpc) hw, fun hpc => ?_⟩
      have hpc' : s.pc = .take := by simpa using hpc
      by_cases hv : s.rxNotice.value = 65535
      · rcases hok hpc' hv with h0 | h1
        · exact .inl h0
        · exact .inr (.inl (Nat.sub_pos_of_lt h1))
      · exact .inr (.inr (value_add_one_pos hv))
  · simp [step, hp] at h

theorem announced_reader {e : AtEnd} {s t : UartState}
    (hs : Announced s) (hok : NoticeKept s .reader) (h : step e s .reader = some t) :
    Announced t := by
  have hsus := suspendedIffWait_step hs.suspended h
  simp only [step, getchar_eq, getcharStep] at h
  cases hpc : s.pc with
  | read =>
      cases hf : s.rxFifo <;> simp only [hpc, hf, Option.some.injEq] at h <;> subst h <;>
        exact ⟨hsus, fun hc => by simp at hc, fun hc => by simp at hc⟩
  | reset =>
      simp only [hpc, Option.some.injEq] at h
      subst h
      refine ⟨hsus, fun hc => by simp at hc, fun _ => ?_⟩
      exact (hok hpc).imp_right .inl
  | take =>
      simp only [hpc, Option.some.injEq] at h
      subst h
      by_cases hv : 0 < s.rxNotice.value
      · refine ⟨hsus, fun hc => ?_, fun hc => ?_⟩ <;> simp [rtSemTake_of_pos hv] at hc
      · refine ⟨hsus, fun _ => ?_, fun hc => ?_⟩
        · -- the counter is zero, so the byte is matched by a release to come
          rcases hs.taking hpc with h0 | h0 | h0
          · exact .inl h0
          · exact .inr h0
          · exact absurd h0 hv
        · simp [rtSemTake, hv] at hc
  | wait => simp [hpc] at h

theorem announced_step {e : AtEnd} {s t : UartState} {a : UartAction}
    (hs : Announced s) (hok : NoticeKept s a) (h : step e s a = some t) :
    Announced t := by
  cases a with
  | push ch => exact announced_push hs h
  | rxInd => exact announced_rxInd hs hok h
  | reader => exact announced_reader hs hok h

theorem suspendedIffWait_run {e : AtEnd} {s : UartState} {as : List UartAction}
    {ok : UartState → UartAction → Prop} (h : Run (step e) ok init as s) :
    SuspendedIffWait s :=
  h.invariant SuspendedIffWait (fun _ _ _ hs _ hst => suspendedIffWait_step hs hst)
    suspendedIffWait_init

/-- A take of the zero counter with a byte unread and no release to come suspends
the reader for good. -/
theorem lost_of_take_zero (e : AtEnd) {s : UartState} (hpc : s.pc = .take)
    (hv : s.rxNotice.value = 0) (hpend : s.pending = 0) (hfifo : s.rxFifo ≠ []) :
    ∃ u, step e s .reader = some u ∧ Lost u := by
  simp only [step, getchar_eq, getcharStep, hpc, rtSemTake_of_zero hv]
  exact ⟨_, rfl, rfl, hv, hpend, hfifo⟩

/-- A step that discards the announcement of an unread byte loses the reader:
its own next statement suspends it. -/
theorem lost_of_not_noticeKept {e : AtEnd} {s t : UartState} {a : UartAction}
    (hs : SuspendedIffWait s) (h : step e s a = some t) (hbad : ¬ NoticeKept s a) :
    ∃ u, step e t .reader = some u ∧ Lost u := by
  cases a with
  | push ch => exact absurd trivial hbad
  | rxInd =>
      simp only [NoticeKept, Classical.not_imp, not_or, Nat.not_lt] at hbad
      obtain ⟨hpc, hv, hfifo, hpend⟩ := hbad
      have hlist : s.rxNotice.suspendThread = [] := by simpa [SuspendedIffWait, hpc] using hs
      by_cases hp : 0 < s.pending
      · simp only [step, hp, if_true, rtSemRelease_of_nil hlist, Option.some.injEq] at h
        subst h
        exact lost_of_take_zero e hpc (by simp [hv]) (by simp only; omega) hfifo
      · simp [step, hp] at h
  | reader =>
      simp only [NoticeKept, Classical.not_imp, not_or, Nat.not_lt, Nat.le_zero] at hbad
      obtain ⟨hpc, hfifo, hpend⟩ := hbad
      simp only [step, getchar_eq, getcharStep, hpc, Option.some.injEq] at h
      subst h
      exact lost_of_take_zero e rfl rfl hpend hfifo

/-- A run of either end whose steps all keep the announcements never leaves the
reader suspended with a byte unread and no release to come; and the first step
that drops one does, by the reader's next statement. -/
theorem getchar_not_lost_of_noticeKept (e : AtEnd) :
    (∀ as s, Run (step e) NoticeKept init as s → ¬ Lost s) ∧
      ∀ as s a t, Run (step e) unconditional init as s → step e s a = some t →
        ¬ NoticeKept s a → ∃ u, step e t .reader = some u ∧ Lost u := by
  refine ⟨fun as s h => ?_, fun as s a t h hst hbad => ?_⟩
  · have hs : Announced s :=
      h.invariant Announced (fun _ _ _ hs hok hst => announced_step hs hok hst) announced_init
    exact hs.not_lost
  · exact lost_of_not_noticeKept (suspendedIffWait_run h) hst hbad

/-- A byte that arrives, with its release, between the failed read and the reset
is lost at either end. -/
theorem getchar_lost_after_reset :
    ¬ ∀ e as s, Run (step e) unconditional init as s → ¬ Lost s := by
  intro hall
  obtain ⟨s, hrun, hs⟩ := Run.exists_of_exec (step .client) unconditional init
    [.reader, .push 79, .rxInd, .reader, .reader]
    (fun s => decide (Lost s)) (by decide)
  exact hall .client _ s hrun (of_decide_eq_true hs)

end AtUart
