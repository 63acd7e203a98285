import Mathlib.Data.List.Basic

/-!
# Semaphores of the kernel

The counting semaphore of `src/ipc.c`, with the waiting threads named by a type
`τ`. Every operation runs with interrupts disabled, so each is one step.
The counter is the 16-bit field of `struct rt_semaphore` and wraps at `2^16`.

The value a suspended thread gets from `rt_sem_take` is decided when it is
resumed: `RT_EOK` by `rt_sem_release`, an error by `rt_sem_control` and by the
thread timer.
-/

namespace Kernel

/-- `struct rt_semaphore`: the counter and the threads suspended on it, in the
order in which they are resumed (`RT_IPC_FLAG_FIFO`). -/
structure RtSemaphore (τ : Type*) where
  value : UInt16
  suspendThread : List τ
  deriving DecidableEq, Repr

namespace RtSemaphore

/-- `rt_sem_create(name, value, RT_IPC_FLAG_FIFO)` when it succeeds. -/
def rtSemCreate {τ : Type*} (value : UInt16) : RtSemaphore τ := ⟨value, []⟩

/-- `rt_sem_take` by the thread `t`: `true` when the counter was positive and the
call returns `RT_EOK` at once, `false` when `t` is suspended. -/
def rtSemTake {τ : Type*} (sem : RtSemaphore τ) (t : τ) : RtSemaphore τ × Bool :=
  if 0 < sem.value then
    ({ sem with value := sem.value - 1 }, true)
  else
    ({ sem with suspendThread := sem.suspendThread ++ [t] }, false)

/-- `rt_sem_release`: the first suspended thread is resumed, and only when there
is none is the counter increased. -/
def rtSemRelease {τ : Type*} (sem : RtSemaphore τ) : RtSemaphore τ × Option τ :=
  match sem.suspendThread with
  | [] => ({ sem with value := sem.value + 1 }, none)
  | t :: ts => ({ sem with suspendThread := ts }, some t)

/-- `rt_sem_control(sem, RT_IPC_CMD_RESET, value)`: all suspended threads are
resumed, with an error, and the counter is set. -/
def rtSemControl {τ : Type*} (sem : RtSemaphore τ) (value : UInt16) :
    RtSemaphore τ × List τ :=
  (⟨value, []⟩, sem.suspendThread)

/-- `rt_thread_timeout` of a thread suspended on `sem`: it leaves the list. -/
def rtThreadTimeout {τ : Type*} [DecidableEq τ] (sem : RtSemaphore τ) (t : τ) :
    RtSemaphore τ :=
  { sem with suspendThread := sem.suspendThread.erase t }

theorem rtSemTake_of_pos {τ : Type*} {sem : RtSemaphore τ} (h : 0 < sem.value)
    (t : τ) : sem.rtSemTake t = ({ sem with value := sem.value - 1 }, true) := by
  simp [rtSemTake, h]

theorem rtSemTake_of_zero {τ : Type*} {sem : RtSemaphore τ} (h : sem.value = 0)
    (t : τ) : sem.rtSemTake t =
      ({ sem with suspendThread := sem.suspendThread ++ [t] }, false) := by
  simp [rtSemTake, h]

theorem rtSemRelease_of_nil {τ : Type*} {sem : RtSemaphore τ}
    (h : sem.suspendThread = []) :
    sem.rtSemRelease = ({ sem with value := sem.value + 1 }, none) := by
  simp [rtSemRelease, h]

theorem rtSemRelease_of_cons {τ : Type*} {sem : RtSemaphore τ} {t : τ} {ts : List τ}
    (h : sem.suspendThread = t :: ts) :
    sem.rtSemRelease = ({ sem with suspendThread := ts }, some t) := by
  simp [rtSemRelease, h]

/-- An increased counter is positive unless it wrapped. -/
theorem value_add_one_pos {v : UInt16} (h : v ≠ 65535) : 0 < v + 1 := by
  have hne : v.toNat ≠ 65535 := fun hv => h (UInt16.toNat_inj.mp hv)
  have hlt : v.toNat < 65536 := v.toNat_lt
  rw [UInt16.lt_iff_toNat_lt, UInt16.toNat_add]
  simp only [UInt16.reduceToNat]
  omega

end RtSemaphore

end Kernel
