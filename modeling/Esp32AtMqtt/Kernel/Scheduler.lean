import Esp32AtMqtt.Stream.Turns
import Esp32AtMqtt.Transition.Run
import Mathlib.Data.UInt

/-!
# The scheduler of the kernel

`src/scheduler.c` with the functions of `src/thread.c` that put threads into the ready lists and
take them out, and the time slices of `rt_tick_increase`. There are 32 priorities, and a smaller
number is the higher one. Interrupts come between `rt_thread_suspend` and the `rt_schedule` that
follows it, so these are steps of their own.

A thread that waits for something is in a list of that thing, which is no list here. `pending` is
history: the ready lists are not what they were when `rt_schedule` last looked at them.
-/

namespace Kernel

open Transition Turns

/-- `__lowest_bit_bitmap`. -/
def lowestBitBitmap : List UInt8 :=
  [0, 0, 1, 0, 2, 0, 1, 0, 3, 0, 1, 0, 2, 0, 1, 0,
   4, 0, 1, 0, 2, 0, 1, 0, 3, 0, 1, 0, 2, 0, 1, 0,
   5, 0, 1, 0, 2, 0, 1, 0, 3, 0, 1, 0, 2, 0, 1, 0,
   4, 0, 1, 0, 2, 0, 1, 0, 3, 0, 1, 0, 2, 0, 1, 0,
   6, 0, 1, 0, 2, 0, 1, 0, 3, 0, 1, 0, 2, 0, 1, 0,
   4, 0, 1, 0, 2, 0, 1, 0, 3, 0, 1, 0, 2, 0, 1, 0,
   5, 0, 1, 0, 2, 0, 1, 0, 3, 0, 1, 0, 2, 0, 1, 0,
   4, 0, 1, 0, 2, 0, 1, 0, 3, 0, 1, 0, 2, 0, 1, 0,
   7, 0, 1, 0, 2, 0, 1, 0, 3, 0, 1, 0, 2, 0, 1, 0,
   4, 0, 1, 0, 2, 0, 1, 0, 3, 0, 1, 0, 2, 0, 1, 0,
   5, 0, 1, 0, 2, 0, 1, 0, 3, 0, 1, 0, 2, 0, 1, 0,
   4, 0, 1, 0, 2, 0, 1, 0, 3, 0, 1, 0, 2, 0, 1, 0,
   6, 0, 1, 0, 2, 0, 1, 0, 3, 0, 1, 0, 2, 0, 1, 0,
   4, 0, 1, 0, 2, 0, 1, 0, 3, 0, 1, 0, 2, 0, 1, 0,
   5, 0, 1, 0, 2, 0, 1, 0, 3, 0, 1, 0, 2, 0, 1, 0,
   4, 0, 1, 0, 2, 0, 1, 0, 3, 0, 1, 0, 2, 0, 1, 0]

/-- `__rt_ffs(value)`. -/
def rtFfs (value : UInt32) : ℕ :=
  let lowest (byte : UInt32) := (lowestBitBitmap.getD byte.toNat 0).toNat
  if value = 0 then 0
  else if value &&& 0xff ≠ 0 then lowest (value &&& 0xff) + 1
  else if value &&& 0xff00 ≠ 0 then lowest ((value &&& 0xff00) >>> 8) + 9
  else if value &&& 0xff0000 ≠ 0 then lowest ((value &&& 0xff0000) >>> 16) + 17
  else lowest ((value &&& 0xff000000) >>> 24) + 25

/-- The state of a thread. -/
inductive RtThreadStat
  | init
  | ready
  | suspend
  | close
  deriving DecidableEq, Repr

/-- What the scheduler uses of `struct rt_thread`. -/
structure RtThread where
  stat : RtThreadStat
  initPriority : UInt8
  currentPriority : UInt8
  numberMask : UInt32
  initTick : UInt32
  remainingTick : UInt32

/-- `_rt_thread_init(thread, .., priority, tick)`. -/
def rtThreadInit (priority : UInt8) (tick : UInt32) : RtThread where
  stat := .init
  initPriority := priority
  currentPriority := priority
  numberMask := 0
  initTick := tick
  remainingTick := tick

/-- The variables of `scheduler.c`, and which timers of threads are running. -/
structure Scheduler (τ : Type*) where
  thread : τ → RtThread
  rtThreadPriorityTable : ℕ → List τ
  rtThreadReadyPriorityGroup : UInt32
  rtCurrentThread : Option τ
  rtCurrentPriority : UInt8
  rtSchedulerLockNest : ℤ
  threadTimer : τ → Bool
  pending : Bool

namespace Scheduler

variable {τ : Type*} [DecidableEq τ]

def setThread (s : Scheduler τ) (t : τ) (f : RtThread → RtThread) : Scheduler τ :=
  { s with thread := Function.update s.thread t (f (s.thread t)) }

/-- `rt_timer_start(&thread->thread_timer)` and `rt_timer_stop`. -/
def setTimer (s : Scheduler τ) (t : τ) (running : Bool) : Scheduler τ :=
  { s with threadTimer := Function.update s.threadTimer t running }

/-- `rt_list_remove(&thread->tlist)`. -/
def rtListRemove (s : Scheduler τ) (t : τ) : Scheduler τ :=
  { s with rtThreadPriorityTable := fun p => (s.rtThreadPriorityTable p).erase t, pending := true }

/-- `rt_list_insert_before(&rt_thread_priority_table[priority], &thread->tlist)`. -/
def rtListInsertBefore (s : Scheduler τ) (t : τ) : Scheduler τ :=
  let p := (s.thread t).currentPriority.toNat
  { s with
    rtThreadPriorityTable :=
      Function.update s.rtThreadPriorityTable p (s.rtThreadPriorityTable p ++ [t])
    pending := true }

/-- `rt_schedule_insert_thread(thread)`. -/
def rtScheduleInsertThread (s : Scheduler τ) (t : τ) : Scheduler τ :=
  let s := (s.setThread t fun r => { r with stat := .ready }).rtListInsertBefore t
  { s with
    rtThreadReadyPriorityGroup := s.rtThreadReadyPriorityGroup ||| (s.thread t).numberMask }

/-- `rt_schedule_remove_thread(thread)`. -/
def rtScheduleRemoveThread (s : Scheduler τ) (t : τ) : Scheduler τ :=
  let s := s.rtListRemove t
  if s.rtThreadPriorityTable (s.thread t).currentPriority.toNat = [] then
    { s with
      rtThreadReadyPriorityGroup := s.rtThreadReadyPriorityGroup &&& ~~~(s.thread t).numberMask }
  else s

/-- The thread that `rt_schedule` finds, with its priority. There is none when it would read what
is no thread. -/
def highest (s : Scheduler τ) : Option (ℕ × τ) :=
  match rtFfs s.rtThreadReadyPriorityGroup with
  | 0 => none
  | p + 1 => (s.rtThreadPriorityTable p).head?.map fun t => (p, t)

/-- `rt_schedule()`. -/
def rtSchedule (s : Scheduler τ) : Option (Scheduler τ) :=
  if s.rtSchedulerLockNest = 0 then
    s.highest.bind fun (p, toThread) => s.rtCurrentThread.map fun fromThread =>
      if toThread ≠ fromThread then
        { s with rtCurrentPriority := .ofNat p, rtCurrentThread := some toThread, pending := false }
      else { s with pending := false }
  else some s

/-- `rt_system_scheduler_start()`. -/
def rtSystemSchedulerStart (s : Scheduler τ) : Option (Scheduler τ) :=
  s.highest.map fun (_, toThread) => { s with rtCurrentThread := some toThread, pending := false }

/-- `rt_enter_critical()`. -/
def rtEnterCritical (s : Scheduler τ) : Scheduler τ :=
  { s with rtSchedulerLockNest := (s.rtSchedulerLockNest + 1).bmod (2 ^ 16) }

/-- `rt_exit_critical()`. -/
def rtExitCritical (s : Scheduler τ) : Option (Scheduler τ) :=
  let nest := (s.rtSchedulerLockNest - 1).bmod (2 ^ 16)
  if nest ≤ 0 then { s with rtSchedulerLockNest := 0 }.rtSchedule
  else some { s with rtSchedulerLockNest := nest }

/-- `rt_thread_suspend(thread)`. -/
def rtThreadSuspend (s : Scheduler τ) (t : τ) : Scheduler τ :=
  if (s.thread t).stat ≠ .ready then s
  else
    let s := s.setThread t fun r => { r with stat := .suspend }
    (s.rtScheduleRemoveThread t).setTimer t false

/-- `rt_thread_resume(thread)`. -/
def rtThreadResume (s : Scheduler τ) (t : τ) : Scheduler τ :=
  if (s.thread t).stat ≠ .suspend then s
  else ((s.rtListRemove t).setTimer t false).rtScheduleInsertThread t

/-- `rt_thread_timeout(thread)`, which the timer of the thread calls. It has no result when the
assertion fails. -/
def rtThreadTimeout (s : Scheduler τ) (t : τ) : Option (Scheduler τ) :=
  if (s.thread t).stat = .suspend then
    (((s.setTimer t false).rtListRemove t).rtScheduleInsertThread t).rtSchedule
  else none

/-- `rt_thread_startup(thread)`. It has no result when the assertion fails. -/
def rtThreadStartup (s : Scheduler τ) (t : τ) : Option (Scheduler τ) :=
  if (s.thread t).stat = .init then
    let s := s.setThread t fun r =>
      { r with
        stat := .suspend
        currentPriority := r.initPriority
        numberMask := 1 <<< r.initPriority.toUInt32 }
    let s := s.rtThreadResume t
    if s.rtCurrentThread ≠ none then s.rtSchedule else some s
  else none

/-- `rt_thread_yield()`. A list with one thread has the same before and behind it. -/
def rtThreadYield (s : Scheduler τ) : Option (Scheduler τ) :=
  s.rtCurrentThread.bind fun t =>
    if (s.thread t).stat = .ready ∧
        1 < (s.rtThreadPriorityTable (s.thread t).currentPriority.toNat).length then
      ((s.rtListRemove t).rtListInsertBefore t).rtSchedule
    else some s

/-- `rt_thread_sleep(tick)` up to the scheduling, and what the functions of `ipc.c` do to wait. -/
def rtThreadSleep (s : Scheduler τ) (timed : Bool) : Option (Scheduler τ) :=
  s.rtCurrentThread.map fun t =>
    let s := s.rtThreadSuspend t
    if timed then s.setTimer t true else s

/-- `rt_thread_control(thread, RT_THREAD_CTRL_CHANGE_PRIORITY, &priority)`. -/
def rtThreadControl (s : Scheduler τ) (t : τ) (priority : UInt8) : Scheduler τ :=
  let change (s : Scheduler τ) := s.setThread t fun r =>
    { r with currentPriority := priority, numberMask := 1 <<< priority.toUInt32 }
  if (s.thread t).stat = .ready then
    (change (s.rtScheduleRemoveThread t)).rtScheduleInsertThread t
  else change s

/-- `rt_thread_detach(thread)` and `rt_thread_delete(thread)`, less what becomes of the object. -/
def rtThreadDetach (s : Scheduler τ) (t : τ) : Scheduler τ :=
  let s := if (s.thread t).stat ≠ .init then s.rtScheduleRemoveThread t else s
  (s.setTimer t false).setThread t fun r => { r with stat := .close }

/-- `rt_thread_exit()` up to the scheduling. -/
def rtThreadExit (s : Scheduler τ) : Option (Scheduler τ) :=
  s.rtCurrentThread.map fun t =>
    ((s.rtScheduleRemoveThread t).setTimer t false).setThread t fun r => { r with stat := .close }

/-- The time slice of `rt_tick_increase()`. -/
def rtTickIncrease (s : Scheduler τ) : Option (Scheduler τ) :=
  s.rtCurrentThread.bind fun t =>
    let s := s.setThread t fun r => { r with remainingTick := r.remainingTick - 1 }
    if (s.thread t).remainingTick = 0 then
      (s.setThread t fun r => { r with remainingTick := r.initTick }).rtThreadYield
    else some s

end Scheduler

/-- `rt_system_scheduler_init()`, with threads that are initialized. -/
def Scheduler.start {τ : Type*} (priority : τ → UInt8) (tick : τ → UInt32) : Scheduler τ where
  thread t := rtThreadInit (priority t) (tick t)
  rtThreadPriorityTable _ := []
  rtThreadReadyPriorityGroup := 0
  rtCurrentThread := none
  rtCurrentPriority := 31
  rtSchedulerLockNest := 0
  threadTimer _ := false
  pending := false

/-- What happens to threads. -/
inductive ThreadAction (τ : Type*)
  | init (t : τ) (priority : UInt8) (tick : UInt32)
  | startup (t : τ)
  | schedulerStart
  | suspend (t : τ)
  | resume (t : τ)
  | timeout (t : τ)
  | sleep (timed : Bool)
  | schedule
  | yield
  | control (t : τ) (priority : UInt8)
  | enterCritical
  | exitCritical
  | tick
  | exit
  | detach (t : τ)

section System

variable {τ : Type*} [DecidableEq τ]

def threadStep (s : Scheduler τ) : ThreadAction τ → Option (Scheduler τ)
  | .init t priority tick =>
      if priority < 32 then
        some ((s.setThread t fun _ => rtThreadInit priority tick).setTimer t false)
      else none
  | .startup t => s.rtThreadStartup t
  | .schedulerStart => s.rtSystemSchedulerStart
  | .suspend t => some (s.rtThreadSuspend t)
  | .resume t => some (s.rtThreadResume t)
  | .timeout t => s.rtThreadTimeout t
  | .sleep timed => s.rtThreadSleep timed
  | .schedule => s.rtSchedule
  | .yield => s.rtThreadYield
  | .control t priority => some (s.rtThreadControl t priority)
  | .enterCritical => some s.rtEnterCritical
  | .exitCritical => s.rtExitCritical
  | .tick => s.rtTickIncrease
  | .exit => s.rtThreadExit
  | .detach t => some (s.rtThreadDetach t)

/-- `idle` is ready from the start on, a timer fires when it is running, and the calls are those
that are allowed. -/
def Allowed (idle : τ) (s : Scheduler τ) : ThreadAction τ → Prop
  | .init t priority tick =>
      ((s.thread t).stat = .init ∨ (s.thread t).stat = .close) ∧ priority < 32 ∧ 0 < tick
  | .startup t => (s.thread t).stat = .init
  | .schedulerStart => s.rtCurrentThread = none ∧ (s.thread idle).stat = .ready
  | .suspend t | .detach t => t ≠ idle
  | .timeout t => s.threadTimer t = true ∧ s.rtCurrentThread ≠ none
  | .sleep _ => s.rtCurrentThread ≠ none ∧ s.rtCurrentThread ≠ some idle ∧
      ∀ t ∈ s.rtCurrentThread, (s.thread t).stat = .ready ∨ (s.thread t).stat = .suspend
  | .exit => s.rtCurrentThread ≠ none ∧ s.rtCurrentThread ≠ some idle
  | .schedule | .yield | .tick | .exitCritical => s.rtCurrentThread ≠ none
  | .control _ priority => priority < 32
  | .enterCritical => s.rtSchedulerLockNest < 32767
  | .resume _ => True

instance (idle : τ) (s : Scheduler τ) (a : ThreadAction τ) : Decidable (Allowed idle s a) :=
  match a with
  | .init t priority tick => inferInstanceAs (Decidable
      (((s.thread t).stat = .init ∨ (s.thread t).stat = .close) ∧ priority < 32 ∧ 0 < tick))
  | .startup t => inferInstanceAs (Decidable ((s.thread t).stat = .init))
  | .schedulerStart => inferInstanceAs (Decidable
      (s.rtCurrentThread = none ∧ (s.thread idle).stat = .ready))
  | .suspend t | .detach t => inferInstanceAs (Decidable (t ≠ idle))
  | .timeout t => inferInstanceAs (Decidable (s.threadTimer t = true ∧ s.rtCurrentThread ≠ none))
  | .sleep _ => inferInstanceAs (Decidable (s.rtCurrentThread ≠ none ∧
      s.rtCurrentThread ≠ some idle ∧
      ∀ t ∈ s.rtCurrentThread, (s.thread t).stat = .ready ∨ (s.thread t).stat = .suspend))
  | .exit => inferInstanceAs (Decidable (s.rtCurrentThread ≠ none ∧ s.rtCurrentThread ≠ some idle))
  | .schedule | .yield | .tick | .exitCritical =>
      inferInstanceAs (Decidable (s.rtCurrentThread ≠ none))
  | .control _ priority => inferInstanceAs (Decidable (priority < 32))
  | .enterCritical => inferInstanceAs (Decidable (s.rtSchedulerLockNest < 32767))
  | .resume _ => isTrue trivial

end System

section FirstBit

theorem lowestBitBitmap_firstSet : ∀ b : Fin 256, b.val ≠ 0 →
    FirstSet b.val (lowestBitBitmap.getD b.val 0).toNat := by
  decide +kernel

/-- A byte of the value, where `m` has the ones of the byte. -/
theorem firstSet_byte {value m j : UInt32} {k : ℕ}
    (hmask : m.toNat = (2 ^ 8 - 1) * 2 ^ k) (hshift : j.toNat = k) (hk : k < 32)
    (hlow : value.toNat % 2 ^ k = 0) (h : value &&& m ≠ 0) :
    FirstSet value.toNat
      ((lowestBitBitmap.getD ((value &&& m) >>> j).toNat 0).toNat + k) := by
  have hand : (value &&& m).toNat = value.toNat / 2 ^ k % 2 ^ 8 * 2 ^ k := by
    rw [UInt32.toNat_and, hmask, and_mask]
  have hbyte : ((value &&& m) >>> j).toNat = value.toNat / 2 ^ k % 2 ^ 8 := by
    rw [UInt32.toNat_shiftRight, hand, hshift, Nat.mod_eq_of_lt hk, Nat.shiftRight_eq_div_pow,
      Nat.mul_div_cancel _ (Nat.two_pow_pos k)]
  have hne : value.toNat / 2 ^ k % 2 ^ 8 ≠ 0 := fun hzero => h (UInt32.toNat_inj.mp (by
    rw [hand, hzero, Nat.zero_mul]
    rfl))
  refine FirstSet.of_piece (m := 8) hlow ?_
  rw [hbyte]
  exact lowestBitBitmap_firstSet ⟨_, Nat.mod_lt _ (by decide)⟩ hne

theorem mod_two_pow_of_and {value m : UInt32} {k : ℕ}
    (hmask : m.toNat = (2 ^ 8 - 1) * 2 ^ k) (hlow : value.toNat % 2 ^ k = 0)
    (h : value &&& m = 0) : value.toNat % 2 ^ (k + 8) = 0 := by
  have hand := congrArg UInt32.toNat h
  rw [UInt32.toNat_and, hmask, and_mask] at hand
  have hzero : value.toNat / 2 ^ k % 2 ^ 8 = 0 :=
    (Nat.mul_eq_zero.mp hand).resolve_right (Nat.two_pow_pos k).ne'
  rw [Nat.pow_add, Nat.mod_mul, hlow, hzero, Nat.mul_zero]

/-- `__rt_ffs` finds the first bit that is set. -/
theorem rtFfs_firstSet {value : UInt32} (h : value ≠ 0) :
    ∃ n, rtFfs value = n + 1 ∧ FirstSet value.toNat n := by
  have hzero : value.toNat % 2 ^ 0 = 0 := Nat.mod_one _
  rw [rtFfs, if_neg h]
  split_ifs with h₀ h₁ h₂
  · refine ⟨_, rfl, ?_⟩
    have hfirst := firstSet_byte (m := 0xff) (j := 0) (k := 0) (by decide) (by decide)
      (by decide) hzero h₀
    simpa using hfirst
  · have hlow := mod_two_pow_of_and (m := 0xff) (by decide) hzero (not_not.mp h₀)
    exact ⟨_, rfl, firstSet_byte (k := 8) (by decide) (by decide) (by decide) hlow h₁⟩
  · have hlow := mod_two_pow_of_and (m := 0xff) (by decide) hzero (not_not.mp h₀)
    have hlow' := mod_two_pow_of_and (m := 0xff00) (by decide) hlow (not_not.mp h₁)
    exact ⟨_, rfl, firstSet_byte (k := 16) (by decide) (by decide) (by decide) hlow' h₂⟩
  · have hlow := mod_two_pow_of_and (m := 0xff) (by decide) hzero (not_not.mp h₀)
    have hlow' := mod_two_pow_of_and (m := 0xff00) (by decide) hlow (not_not.mp h₁)
    have hlow'' := mod_two_pow_of_and (m := 0xff0000) (by decide) hlow' (not_not.mp h₂)
    refine ⟨_, rfl, firstSet_byte (k := 24) (by decide) (by decide) (by decide) hlow''
      fun h₃ => h ?_⟩
    have hall := mod_two_pow_of_and (m := 0xff000000) (by decide) hlow'' h₃
    exact UInt32.toNat_inj.mp ((Nat.mod_eq_of_lt value.toNat_lt).symm.trans hall)

/-- The bit of a priority. -/
theorem toNat_numberMask {priority : UInt8} (h : priority < 32) :
    (1 <<< priority.toUInt32 : UInt32).toNat = 2 ^ priority.toNat := by
  have hlt : priority.toNat < 32 := h
  have hpow : 2 ^ priority.toNat < 2 ^ 32 := Nat.pow_lt_pow_right (by decide) hlt
  rw [UInt32.toNat_shiftLeft, UInt8.toNat_toUInt32, Nat.mod_eq_of_lt hlt, Nat.shiftLeft_eq]
  simpa using Nat.mod_eq_of_lt hpow

theorem testBit_or_mask {group : UInt32} {priority : UInt8} (h : priority < 32) (p : ℕ) :
    (group ||| 1 <<< priority.toUInt32).toNat.testBit p =
      (group.toNat.testBit p || decide (priority.toNat = p)) := by
  rw [UInt32.toNat_or, Nat.testBit_or, toNat_numberMask h, Nat.testBit_two_pow]

theorem testBit_and_not_mask {group : UInt32} {priority : UInt8} (h : priority < 32) (p : ℕ) :
    (group &&& ~~~(1 <<< priority.toUInt32)).toNat.testBit p =
      (group.toNat.testBit p && !decide (priority.toNat = p)) := by
  have hlt := UInt32.toNat_lt (1 <<< priority.toUInt32)
  have hsub : UInt32.size - 1 - (1 <<< priority.toUInt32 : UInt32).toNat =
      2 ^ 32 - ((1 <<< priority.toUInt32 : UInt32).toNat + 1) := by
    rw [UInt32.size]
    omega
  rw [UInt32.toNat_and, Nat.testBit_and, UInt32.toNat_not, hsub, Nat.testBit_two_pow_sub_succ hlt,
    toNat_numberMask h, Nat.testBit_two_pow]
  by_cases hp : p < 32
  · simp [hp]
  · have hgroup : group.toNat.testBit p = false := Nat.testBit_lt_two_pow
      (group.toNat_lt.trans_le (Nat.pow_le_pow_right (by decide) (Nat.not_lt.mp hp)))
    simp [hgroup]

end FirstBit

end Kernel
