import Mathlib.Data.List.Sort
import Mathlib.Data.UInt

/-!
# Waiting lists of the kernel

Every object of `src/ipc.c` has a list of the threads that are suspended on it. A thread is put
into it by `rt_ipc_list_suspend`, at the end or by its priority, where a smaller number is the
higher priority. It is the first thread of the list that is resumed.

A list with `RT_IPC_FLAG_PRIO` is in the order of the priorities, as long as these do not change,
and threads of one priority are in the order in which they came.
-/

namespace Kernel

/-- `RT_IPC_FLAG_FIFO` and `RT_IPC_FLAG_PRIO`. -/
inductive IpcFlag
  | fifo
  | prio
  deriving DecidableEq, Repr

/-- The waiting time of a call that waits again, `tick_delta` ticks later: what is left of it, or
as before for a call that does not give up. -/
def waitingTime (timeout : ℤ) (tickDelta : UInt32) : ℤ :=
  if 0 < timeout then max 0 ((timeout - tickDelta.toNat).bmod (2 ^ 32)) else timeout

variable {τ : Type*}

/-- `rt_ipc_list_suspend(list, thread, flag)`. With `RT_IPC_FLAG_PRIO` the thread is put before
the first one whose number is greater. -/
def rtIpcListSuspend (flag : IpcFlag) (priority : τ → UInt8) (list : List τ) (t : τ) : List τ :=
  match flag with
  | .fifo => list ++ [t]
  | .prio => list.orderedInsert (fun a b => priority a < priority b) t

/-- The priorities of other threads do not matter. -/
theorem rtIpcListSuspend_congr (flag : IpcFlag) {priority priority' : τ → UInt8} {list : List τ}
    {t : τ} (ht : priority t = priority' t) (h : ∀ s ∈ list, priority s = priority' s) :
    rtIpcListSuspend flag priority list t = rtIpcListSuspend flag priority' list t := by
  cases flag with
  | fifo => rfl
  | prio =>
      simp only [rtIpcListSuspend]
      induction list with
      | nil => rfl
      | cons s list ih =>
          simp only [List.orderedInsert_cons, ht, h s List.mem_cons_self]
          rw [ih fun u hu => h u (List.mem_cons_of_mem s hu)]

/-- The threads of a list are in the order of their priorities. -/
def ByPriority (priority : τ → UInt8) (list : List τ) : Prop :=
  list.Pairwise fun a b => priority a ≤ priority b

theorem perm_rtIpcListSuspend (flag : IpcFlag) (priority : τ → UInt8) (list : List τ) (t : τ) :
    (rtIpcListSuspend flag priority list t).Perm (t :: list) := by
  cases flag with
  | fifo => exact List.perm_append_singleton t list
  | prio => exact List.perm_orderedInsert _ t list

@[simp] theorem mem_rtIpcListSuspend {flag : IpcFlag} {priority : τ → UInt8} {list : List τ}
    {s t : τ} : s ∈ rtIpcListSuspend flag priority list t ↔ s = t ∨ s ∈ list := by
  rw [(perm_rtIpcListSuspend flag priority list t).mem_iff, List.mem_cons]

theorem nodup_rtIpcListSuspend (flag : IpcFlag) (priority : τ → UInt8) {list : List τ} {t : τ}
    (h : list.Nodup) (ht : t ∉ list) : (rtIpcListSuspend flag priority list t).Nodup := by
  rw [(perm_rtIpcListSuspend flag priority list t).nodup_iff]
  exact List.nodup_cons.mpr ⟨ht, h⟩

/-- The order of the priorities is kept: who stands behind the new thread has a lower priority
than it, who stands before it has none that is lower. -/
theorem ByPriority.suspend {priority : τ → UInt8} {list : List τ} (h : ByPriority priority list)
    (t : τ) : ByPriority priority (rtIpcListSuspend .prio priority list t) := by
  unfold ByPriority rtIpcListSuspend at *
  induction list with
  | nil => simp
  | cons s list ih =>
      obtain ⟨hs, hlist⟩ := List.pairwise_cons.mp h
      rw [List.orderedInsert_cons]
      split_ifs with hlt
      · refine List.pairwise_cons.mpr ⟨?_, h⟩
        intro u hu
        rcases List.mem_cons.mp hu with rfl | hu
        · exact UInt8.le_of_lt hlt
        · exact UInt8.le_trans (UInt8.le_of_lt hlt) (hs u hu)
      · refine List.pairwise_cons.mpr ⟨?_, ih hlist⟩
        intro u hu
        rcases (List.mem_orderedInsert _).mp hu with rfl | hu
        · exact UInt8.not_lt.mp hlt
        · exact hs u hu

/-- Only the priorities of the threads in a list matter to its order. -/
theorem ByPriority.congr {priority priority' : τ → UInt8} {list : List τ}
    (h : ByPriority priority list) (heq : ∀ t ∈ list, priority' t = priority t) :
    ByPriority priority' list := by
  refine List.Pairwise.imp_of_mem ?_ h
  intro a b ha hb hab
  rw [heq a ha, heq b hb]
  exact hab

theorem ByPriority.sublist {priority : τ → UInt8} {list list' : List τ}
    (h : ByPriority priority list) (hsub : list'.Sublist list) : ByPriority priority list' :=
  List.Pairwise.sublist hsub h

/-- The first thread of the list has the highest priority in it. -/
theorem ByPriority.head_le {priority : τ → UInt8} {t : τ} {list : List τ}
    (h : ByPriority priority (t :: list)) {s : τ} (hs : s ∈ list) : priority t ≤ priority s :=
  (List.pairwise_cons.mp h).1 s hs

end Kernel
