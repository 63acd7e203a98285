import Esp32AtMqtt.Kernel.Ready

/-!
# Time slices

Threads of one priority take turns: who is put into a ready list comes behind the others, and the
thread that runs is put behind them when its time slice is used up. A thread that is ready
therefore waits for no longer than those in front of it have left of their slices, as long as none
of a higher priority is ready.

While the scheduler is locked no other thread comes to run.
-/

namespace Kernel

open Transition Turns

section Keeps

variable {τ : Type*} [DecidableEq τ]

/-- `rt_schedule` leaves the threads and the lists as they are, and everything when it is locked. -/
theorem Scheduler.rtSchedule_same {s s' : Scheduler τ} (h : s.rtSchedule = some s') :
    s'.thread = s.thread ∧ s'.rtThreadPriorityTable = s.rtThreadPriorityTable ∧
      (s.rtSchedulerLockNest ≠ 0 → s' = s) := by
  rw [rtSchedule] at h
  split_ifs at h with hnest
  · obtain ⟨⟨p, u⟩, -, h⟩ := Option.bind_eq_some_iff.mp h
    obtain ⟨c, -, rfl⟩ := Option.map_eq_some_iff.mp h
    split_ifs
    · exact ⟨rfl, rfl, fun hne => absurd hnest hne⟩
    · exact ⟨rfl, rfl, fun hne => absurd hnest hne⟩
  · obtain rfl := Option.some.inj h
    exact ⟨rfl, rfl, fun _ => rfl⟩

/-- What is left of the time slice of a thread. -/
def Scheduler.left (s : Scheduler τ) (t : τ) : ℕ := (s.thread t).remainingTick.toNat

theorem Scheduler.left_setThread_of_ne (s : Scheduler τ) (f : RtThread → RtThread) {t u : τ}
    (h : u ≠ t) : (s.setThread t f).left u = s.left u := by
  rw [left, s.thread_setThread_of_ne t f h, left]

/-- How many ticks those in front of `t` have left. -/
def Scheduler.wait (s : Scheduler τ) (t : τ) : ℕ :=
  Turns.wait s.left t (s.rtThreadPriorityTable (s.priority t))

/-- `t` is left alone, and nobody comes in front of it. -/
structure Keeps (t : τ) (s s' : Scheduler τ) : Prop where
  thread : s'.thread t = s.thread t
  listed : ∀ p, t ∈ s.rtThreadPriorityTable p → t ∈ s'.rtThreadPriorityTable p
  wait : ∀ p, t ∈ s.rtThreadPriorityTable p →
    Turns.wait s'.left t (s'.rtThreadPriorityTable p) ≤
      Turns.wait s.left t (s.rtThreadPriorityTable p)

namespace Keeps

variable {t u : τ} {s s' s'' : Scheduler τ}

theorem of_eq (hthread : s'.thread = s.thread)
    (htable : s'.rtThreadPriorityTable = s.rtThreadPriorityTable) : Keeps t s s' := by
  refine ⟨congrFun hthread t, fun p hin => htable ▸ hin, fun p _ => Nat.le_of_eq ?_⟩
  have hleft : s'.left = s.left := by
    funext v
    rw [Scheduler.left, hthread, Scheduler.left]
  rw [hleft, htable]

theorem refl (t : τ) (s : Scheduler τ) : Keeps t s s := of_eq rfl rfl

theorem trans (h : Keeps t s s') (h' : Keeps t s' s'') : Keeps t s s'' :=
  ⟨h'.thread.trans h.thread, fun p hin => h'.listed p (h.listed p hin), fun p hin =>
    (h'.wait p (h.listed p hin)).trans (h.wait p hin)⟩

/-- Another thread is changed, but for its time slice. -/
theorem setThread (hu : u ≠ t) {f : RtThread → RtThread}
    (hf : (f (s.thread u)).remainingTick = (s.thread u).remainingTick) :
    Keeps t s (s.setThread u f) := by
  have hleft : (s.setThread u f).left = s.left := by
    funext v
    by_cases hv : v = u
    · rw [hv, Scheduler.left, Scheduler.thread_setThread_self, hf, Scheduler.left]
    · exact s.left_setThread_of_ne f hv
  exact ⟨s.thread_setThread_of_ne u f hu.symm, fun p hin => hin, fun p _ =>
    Nat.le_of_eq (by rw [hleft, Scheduler.table_setThread])⟩

/-- A thread that is in no list is changed. -/
theorem setThread_out (hu : u ≠ t) (hout : ∀ p, u ∉ s.rtThreadPriorityTable p)
    (f : RtThread → RtThread) : Keeps t s (s.setThread u f) := by
  refine ⟨s.thread_setThread_of_ne u f hu.symm, fun p hin => hin, fun p _ => Nat.le_of_eq ?_⟩
  refine wait_congr fun v hv _ => ?_
  have hvu : v ≠ u := fun heq => hout p (heq ▸ hv)
  exact s.left_setThread_of_ne f hvu

theorem setTimer (running : Bool) : Keeps t s (s.setTimer u running) := of_eq rfl rfl

theorem rtListRemove (hu : u ≠ t) : Keeps t s (s.rtListRemove u) :=
  ⟨rfl, fun _ hin => (List.mem_erase_of_ne hu.symm).mpr hin, fun _ _ => wait_erase_le hu⟩

theorem rtListInsertBefore (u : τ) : Keeps t s (s.rtListInsertBefore u) := by
  refine ⟨rfl, fun p hin => mem_put.mpr (.inl hin), fun p hin => Nat.le_of_eq ?_⟩
  show Turns.wait s.left t (Function.update s.rtThreadPriorityTable (s.priority u)
    (s.rtThreadPriorityTable (s.priority u) ++ [u]) p) = _
  by_cases hp : p = s.priority u
  · subst hp
    rw [Function.update_self, wait_append hin]
  · rw [Function.update_of_ne hp]

theorem insert (hu : u ≠ t) : Keeps t s (s.rtScheduleInsertThread u) :=
  ((setThread hu rfl).trans (rtListInsertBefore u)).trans (of_eq rfl rfl)

theorem remove (hu : u ≠ t) : Keeps t s (s.rtScheduleRemoveThread u) :=
  (rtListRemove hu).trans (of_eq (s.thread_remove u) (s.table_remove u))

theorem rtSchedule (h : s.rtSchedule = some s') : Keeps t s s' := by
  obtain ⟨hthread, htable, -⟩ := Scheduler.rtSchedule_same h
  exact of_eq hthread htable

theorem rtThreadSuspend (hu : u ≠ t) : Keeps t s (s.rtThreadSuspend u) := by
  rw [Scheduler.rtThreadSuspend]
  split_ifs
  · exact refl t s
  · exact ((setThread hu rfl).trans (remove hu)).trans (setTimer false)

/-- A thread that is ready is not resumed. -/
theorem rtThreadResume (ht : (s.thread t).stat = .ready) : Keeps t s (s.rtThreadResume u) := by
  rw [Scheduler.rtThreadResume]
  split_ifs with hstat
  · exact refl t s
  · have hu : u ≠ t := fun heq => hstat (by rw [heq, ht]; decide)
    exact ((rtListRemove hu).trans (setTimer false)).trans (insert hu)

theorem rtThreadTimeout (ht : (s.thread t).stat = .ready) (h : s.rtThreadTimeout u = some s') :
    Keeps t s s' := by
  rw [Scheduler.rtThreadTimeout] at h
  split_ifs at h with hstat
  have hu : u ≠ t := fun heq => absurd (ht.symm.trans (heq ▸ hstat)) (by decide)
  exact (((setTimer false).trans (rtListRemove hu)).trans (insert hu)).trans (rtSchedule h)

theorem rtThreadStartup (ht : (s.thread t).stat = .ready) (h : s.rtThreadStartup u = some s') :
    Keeps t s s' := by
  rw [Scheduler.rtThreadStartup] at h
  split_ifs at h with hstat
  have hu : u ≠ t := fun heq => absurd (ht.symm.trans (heq ▸ hstat)) (by decide)
  have hset : Keeps t s (s.setThread u fun r =>
      { r with
        stat := .suspend
        currentPriority := r.initPriority
        numberMask := 1 <<< r.initPriority.toUInt32 }) := setThread hu rfl
  have hresume := hset.trans (rtThreadResume (u := u) (hset.thread ▸ ht))
  simp only at h
  split_ifs at h
  · exact hresume.trans (rtSchedule h)
  · exact Option.some.inj h ▸ hresume

theorem rtThreadControl (hu : u ≠ t) {priority : UInt8} :
    Keeps t s (s.rtThreadControl u priority) := by
  rw [Scheduler.rtThreadControl]
  split_ifs
  · exact ((remove hu).trans (setThread hu rfl)).trans (insert hu)
  · exact setThread hu rfl

theorem rtThreadDetach (hu : u ≠ t) : Keeps t s (s.rtThreadDetach u) := by
  rw [Scheduler.rtThreadDetach]
  split_ifs
  · exact ((remove hu).trans (setTimer false)).trans (setThread hu rfl)
  · exact (setTimer false).trans (setThread hu rfl)

theorem rtThreadYield (hc : s.rtCurrentThread ≠ some t) (h : s.rtThreadYield = some s') :
    Keeps t s s' := by
  obtain ⟨c, hcurrent, h⟩ := Option.bind_eq_some_iff.mp h
  have hct : c ≠ t := fun heq => hc (heq ▸ hcurrent)
  split_ifs at h
  · exact ((rtListRemove hct).trans (rtListInsertBefore c)).trans (rtSchedule h)
  · exact Option.some.inj h ▸ refl t s

theorem rtThreadSleep (hc : s.rtCurrentThread ≠ some t) {timed : Bool}
    (h : s.rtThreadSleep timed = some s') : Keeps t s s' := by
  obtain ⟨c, hcurrent, rfl⟩ := Option.map_eq_some_iff.mp h
  have hct : c ≠ t := fun heq => hc (heq ▸ hcurrent)
  simp only
  split_ifs
  · exact (rtThreadSuspend hct).trans (setTimer true)
  · exact rtThreadSuspend hct

theorem rtThreadExit (hc : s.rtCurrentThread ≠ some t) (h : s.rtThreadExit = some s') :
    Keeps t s s' := by
  obtain ⟨c, hcurrent, rfl⟩ := Option.map_eq_some_iff.mp h
  have hct : c ≠ t := fun heq => hc (heq ▸ hcurrent)
  exact ((remove hct).trans (setTimer false)).trans (setThread hct rfl)

theorem rtExitCritical (h : s.rtExitCritical = some s') : Keeps t s s' := by
  rw [Scheduler.rtExitCritical] at h
  split_ifs at h
  · have hopen : Keeps t s { s with rtSchedulerLockNest := 0 } := of_eq rfl rfl
    exact hopen.trans (rtSchedule h)
  · exact Option.some.inj h ▸ of_eq rfl rfl

end Keeps

end Keeps

section Turns

variable {τ : Type*} {idle t : τ} {s : Scheduler τ}

/-- While `t` waits, the thread that runs is in front of it, in the same list. -/
theorem front_of_waits (h : Scheduled idle s) (hpending : s.pending = false)
    (ht : (s.thread t).stat = .ready)
    (hhigh : ∀ u, (s.thread u).stat = .ready → s.priority t ≤ s.priority u) {c : τ}
    (hcurrent : s.rtCurrentThread = some c) (hct : c ≠ t) :
    (s.thread c).stat = .ready ∧ s.priority c = s.priority t ∧
      ∃ rest, s.rtThreadPriorityTable (s.priority c) = c :: rest ∧ c ∉ rest ∧ t ∈ rest := by
  obtain ⟨hhead, hempty⟩ := h.first hpending c hcurrent
  have hin : t ∈ s.rtThreadPriorityTable (s.priority t) := (h.queued.ready t nofun).mp ht
  have hready : (s.thread c).stat = .ready :=
    (h.queued.ready c nofun).mpr (List.mem_of_mem_head? hhead)
  have hsame : s.priority c = s.priority t := by
    refine Nat.le_antisymm (Nat.not_lt.mp fun hlt => ?_) (hhigh c hready)
    rw [hempty _ hlt] at hin
    exact List.not_mem_nil hin
  obtain ⟨rest, hlist⟩ := List.head?_eq_some_iff.mp hhead
  have hnodup := h.queued.nodup (s.priority c)
  rw [hlist] at hnodup
  rw [← hsame, hlist] at hin
  exact ⟨hready, hsame, rest, hlist, (List.nodup_cons.mp hnodup).1,
    (List.mem_cons.mp hin).resolve_left hct.symm⟩

variable [DecidableEq τ] {s' : Scheduler τ}

/-- The thread that runs yields to those behind it. -/
theorem rtThreadYield_front {c : τ} {rest : List τ} (hcurrent : s.rtCurrentThread = some c)
    (hready : (s.thread c).stat = .ready)
    (hlist : s.rtThreadPriorityTable (s.priority c) = c :: rest) (hrest : rest ≠ [])
    (hstep : s.rtThreadYield = some s') :
    s'.thread = s.thread ∧ s'.rtThreadPriorityTable (s.priority c) = rest ++ [c] := by
  have hlength : 1 < (s.rtThreadPriorityTable (s.priority c)).length := by
    have hpos := List.length_pos_iff.mpr hrest
    rw [hlist, List.length_cons]
    omega
  rw [Scheduler.rtThreadYield, hcurrent, Option.bind_some, if_pos ⟨hready, hlength⟩] at hstep
  obtain ⟨hthread, htable, -⟩ := Scheduler.rtSchedule_same hstep
  refine ⟨hthread, ?_⟩
  rw [htable]
  refine (Function.update_self _ _ _).trans ?_
  show (s.rtThreadPriorityTable (s.priority c)).erase c ++ [c] = rest ++ [c]
  rw [hlist, List.erase_cons_head]

/-- A tick of the time slice of the thread in front. -/
theorem rtTickIncrease_wait (h : Scheduled idle s) (hpending : s.pending = false)
    (ht : (s.thread t).stat = .ready)
    (hhigh : ∀ u, (s.thread u).stat = .ready → s.priority t ≤ s.priority u)
    (hc : s.rtCurrentThread ≠ some t) (hstep : s.rtTickIncrease = some s') :
    s'.thread t = s.thread t ∧ s'.wait t + 1 ≤ s.wait t := by
  obtain ⟨c, hcurrent, hstep⟩ := Option.bind_eq_some_iff.mp hstep
  have hct : c ≠ t := fun heq => hc (heq ▸ hcurrent)
  obtain ⟨hready, hsame, rest, hlist, hnot, hrest⟩ :=
    front_of_waits h hpending ht hhigh hcurrent hct
  have hwait : s.wait t = s.left c + Turns.wait s.left t rest := by
    rw [Scheduler.wait, ← hsame, hlist, wait_cons_of_ne hct]
  have hsub := toNat_sub_one (h.slice c).1
  have hleft : s.left c = (s.thread c).remainingTick.toNat := rfl
  have hothers : ∀ f : RtThread → RtThread,
      Turns.wait (s.setThread c f).left t rest = Turns.wait s.left t rest := fun f =>
    wait_congr fun v hv _ => s.left_setThread_of_ne f fun heq => hnot (heq ▸ hv)
  simp only [Scheduler.thread_setThread_self, Scheduler.setThread_setThread] at hstep
  split_ifs at hstep with hzero
  · -- the thread in front is put behind `t`
    have hself := s.thread_setThread_self c fun r => { r with remainingTick := r.initTick }
    have hpriority : (s.setThread c fun r => { r with remainingTick := r.initTick }).priority c =
        s.priority c := by rw [Scheduler.priority, hself, Scheduler.priority]
    obtain ⟨hthread, hlast⟩ := rtThreadYield_front
      (s := s.setThread c fun r => { r with remainingTick := r.initTick }) hcurrent
      ((congrArg RtThread.stat hself).trans hready) (by rw [hpriority]; exact hlist)
      (List.ne_nil_of_mem hrest) hstep
    have ht' : s'.thread t = s.thread t :=
      (congrFun hthread t).trans (s.thread_setThread_of_ne c
        (fun r => { r with remainingTick := r.initTick }) hct.symm)
    have hleft' :
        s'.left = (s.setThread c fun r => { r with remainingTick := r.initTick }).left := by
      funext v
      rw [Scheduler.left, hthread]
      rfl
    refine ⟨ht', ?_⟩
    rw [Scheduler.wait, Scheduler.priority, ht', ← Scheduler.priority, ← hsame, ← hpriority, hlast,
      hleft', wait_append hrest, hothers, hwait]
    omega
  · obtain rfl := Option.some.inj hstep
    have ht' := s.thread_setThread_of_ne c
      (fun r => { r with remainingTick := r.remainingTick - 1 }) hct.symm
    refine ⟨ht', ?_⟩
    rw [Scheduler.wait, Scheduler.priority, ht', ← Scheduler.priority, ← hsame,
      Scheduler.table_setThread, hlist, wait_cons_of_ne hct, hothers, hwait, Scheduler.left,
      Scheduler.thread_setThread_self]
    show ((s.thread c).remainingTick - 1).toNat + _ + 1 ≤ _
    omega

end Turns

section Runs

variable {τ : Type*} [DecidableEq τ] {idle : τ} {priority : τ → UInt8} {tick : τ → UInt32}
  {as bs : List (ThreadAction τ)} {s s' : Scheduler τ} {t : τ}

def ThreadAction.isTick {τ : Type*} : ThreadAction τ → Bool
  | .tick => true
  | _ => false

/-- Nobody does anything to `t`. -/
def ThreadAction.Spares {τ : Type*} (t : τ) : ThreadAction τ → Prop
  | .suspend u | .control u _ | .detach u => u ≠ t
  | _ => True

/-- `t` does not run, and the ticks come while `rt_schedule` has looked at the ready lists and found
no higher priority than that of `t`. -/
def Waits (idle t : τ) (s : Scheduler τ) (a : ThreadAction τ) : Prop :=
  Allowed idle s a ∧ a.Spares t ∧ s.rtCurrentThread ≠ some t ∧
    (a.isTick = true → s.pending = false ∧
      ∀ u, (s.thread u).stat = .ready → s.priority t ≤ s.priority u)

instance {τ : Type*} [DecidableEq τ] (t : τ) (a : ThreadAction τ) : Decidable (a.Spares t) :=
  match a with
  | .suspend u | .control u _ | .detach u => inferInstanceAs (Decidable (u ≠ t))
  | .init .. | .startup _ | .schedulerStart | .resume _ | .timeout _ | .sleep _ | .schedule | .yield
  | .enterCritical | .exitCritical | .tick | .exit => isTrue trivial

instance [Fintype τ] (idle t : τ) (s : Scheduler τ) (a : ThreadAction τ) :
    Decidable (Waits idle t s a) :=
  inferInstanceAs (Decidable (Allowed idle s a ∧ a.Spares t ∧ s.rtCurrentThread ≠ some t ∧
    (a.isTick = true → s.pending = false ∧
      ∀ u, (s.thread u).stat = .ready → s.priority t ≤ s.priority u)))

/-- One step, while `t` waits. -/
theorem threadStep_wait (h : Scheduled idle s) (ht : (s.thread t).stat = .ready)
    {a : ThreadAction τ} (ha : Waits idle t s a) (hstep : threadStep s a = some s') :
    s'.thread t = s.thread t ∧ [a].countP ThreadAction.isTick + s'.wait t ≤ s.wait t := by
  obtain ⟨hallowed, hspares, hc, hhigh⟩ := ha
  have hin : t ∈ s.rtThreadPriorityTable (s.priority t) := (h.queued.ready t nofun).mp ht
  have hkept : Keeps t s s' → s'.thread t = s.thread t ∧ 0 + s'.wait t ≤ s.wait t := by
    intro hkeeps
    have hwait := hkeeps.wait _ hin
    refine ⟨hkeeps.thread, ?_⟩
    rw [Nat.zero_add, Scheduler.wait, Scheduler.priority, hkeeps.thread]
    exact hwait
  cases a with
  | init u p n =>
      have hout : (s.thread u).stat ≠ .ready := by
        rcases hallowed.1 with hstat | hstat
        · exact fun heq => absurd (hstat.symm.trans heq) (by decide)
        · exact fun heq => absurd (hstat.symm.trans heq) (by decide)
      have hu : u ≠ t := fun heq => hout (heq ▸ ht)
      rw [threadStep, if_pos hallowed.2.1] at hstep
      obtain rfl := Option.some.inj hstep
      exact hkept ((Keeps.setThread_out hu (h.queued.out_of_stat hout) _).trans (.setTimer false))
  | startup u => exact hkept (.rtThreadStartup ht hstep)
  | schedulerStart =>
      obtain ⟨_, -, rfl⟩ := Option.map_eq_some_iff.mp hstep
      exact hkept (.of_eq rfl rfl)
  | suspend u => exact hkept (Option.some.inj hstep ▸ .rtThreadSuspend hspares)
  | resume u => exact hkept (Option.some.inj hstep ▸ .rtThreadResume ht)
  | timeout u => exact hkept (.rtThreadTimeout ht hstep)
  | sleep timed => exact hkept (.rtThreadSleep hc hstep)
  | schedule => exact hkept (.rtSchedule hstep)
  | yield => exact hkept (.rtThreadYield hc hstep)
  | control u p => exact hkept (Option.some.inj hstep ▸ .rtThreadControl hspares)
  | enterCritical => exact hkept (Option.some.inj hstep ▸ .of_eq rfl rfl)
  | exitCritical => exact hkept (.rtExitCritical hstep)
  | tick =>
      obtain ⟨hthread, hwait⟩ := rtTickIncrease_wait h (hhigh rfl).1 ht (hhigh rfl).2 hc hstep
      refine ⟨hthread, ?_⟩
      rw [Nat.add_comm]
      exact hwait
  | exit => exact hkept (.rtThreadExit hc hstep)
  | detach u => exact hkept (Option.some.inj hstep ▸ .rtThreadDetach hspares)

/-- The scheduler is locked, and stays so. -/
def Locked (idle : τ) (s : Scheduler τ) (a : ThreadAction τ) : Prop :=
  Allowed idle s a ∧ (match a with | .exitCritical => 1 | _ => 0) < s.rtSchedulerLockNest

instance (idle : τ) (s : Scheduler τ) (a : ThreadAction τ) : Decidable (Locked idle s a) :=
  inferInstanceAs (Decidable (Allowed idle s a ∧
    (match a with | .exitCritical => 1 | _ => 0) < s.rtSchedulerLockNest))

/-- No function that ends with `rt_schedule` changes the thread that runs. -/
theorem rtSchedule_locked {u v : Scheduler τ} (h : u.rtSchedule = some v)
    (hnest : 0 < s.rtSchedulerLockNest)
    (hu : u.rtCurrentThread = s.rtCurrentThread ∧ u.rtSchedulerLockNest = s.rtSchedulerLockNest) :
    v.rtCurrentThread = s.rtCurrentThread := by
  have hne : u.rtSchedulerLockNest ≠ 0 := by omega
  rw [(Scheduler.rtSchedule_same h).2.2 hne]
  exact hu.1

theorem remove_locked {u : Scheduler τ}
    (hu : u.rtCurrentThread = s.rtCurrentThread ∧ u.rtSchedulerLockNest = s.rtSchedulerLockNest) :
    (u.rtScheduleRemoveThread t).rtCurrentThread = s.rtCurrentThread ∧
      (u.rtScheduleRemoveThread t).rtSchedulerLockNest = s.rtSchedulerLockNest :=
  ⟨(u.remove_same t).2.1.trans hu.1, (u.remove_same t).2.2.1.trans hu.2⟩

theorem rtThreadSuspend_locked : (s.rtThreadSuspend t).rtCurrentThread = s.rtCurrentThread := by
  rw [Scheduler.rtThreadSuspend]
  split_ifs
  · rfl
  · exact (remove_locked (u := s.setThread t _) ⟨rfl, rfl⟩).1

theorem rtThreadResume_locked : (s.rtThreadResume t).rtCurrentThread = s.rtCurrentThread ∧
    (s.rtThreadResume t).rtSchedulerLockNest = s.rtSchedulerLockNest := by
  rw [Scheduler.rtThreadResume]
  split_ifs <;> exact ⟨rfl, rfl⟩

theorem rtThreadYield_locked {u v : Scheduler τ} (h : u.rtThreadYield = some v)
    (hnest : 0 < s.rtSchedulerLockNest)
    (hu : u.rtCurrentThread = s.rtCurrentThread ∧ u.rtSchedulerLockNest = s.rtSchedulerLockNest) :
    v.rtCurrentThread = s.rtCurrentThread := by
  obtain ⟨c, -, h⟩ := Option.bind_eq_some_iff.mp h
  split_ifs at h
  · exact rtSchedule_locked h hnest ⟨hu.1, hu.2⟩
  · exact Option.some.inj h ▸ hu.1

/-- One step, while the scheduler is locked. -/
theorem threadStep_locked (h : Scheduled idle s) (hcurrent : s.rtCurrentThread ≠ none)
    {a : ThreadAction τ} (ha : Locked idle s a) (hstep : threadStep s a = some s') :
    s'.rtCurrentThread = s.rtCurrentThread := by
  obtain ⟨hallowed, hlocked⟩ := ha
  have hnest : 0 < s.rtSchedulerLockNest := by
    cases a <;> simp only at hlocked <;> omega
  cases a with
  | init u p n =>
      rw [threadStep, if_pos hallowed.2.1] at hstep
      exact Option.some.inj hstep ▸ rfl
  | startup u =>
      have hinit : (s.thread u).stat = .init := hallowed
      rw [threadStep, Scheduler.rtThreadStartup, if_pos hinit] at hstep
      simp only at hstep
      split_ifs at hstep
      · exact rtSchedule_locked hstep hnest rtThreadResume_locked
      · exact Option.some.inj hstep ▸ rtThreadResume_locked.1
  | schedulerStart => exact absurd hallowed.1 hcurrent
  | suspend u => exact Option.some.inj hstep ▸ rtThreadSuspend_locked
  | resume u => exact Option.some.inj hstep ▸ rtThreadResume_locked.1
  | timeout u =>
      rw [threadStep, Scheduler.rtThreadTimeout] at hstep
      split_ifs at hstep
      exact rtSchedule_locked hstep hnest ⟨rfl, rfl⟩
  | sleep timed =>
      obtain ⟨c, -, rfl⟩ := Option.map_eq_some_iff.mp hstep
      simp only
      split_ifs
      · exact rtThreadSuspend_locked (t := c)
      · exact rtThreadSuspend_locked
  | schedule => exact rtSchedule_locked hstep hnest ⟨rfl, rfl⟩
  | yield => exact rtThreadYield_locked hstep hnest ⟨rfl, rfl⟩
  | control u p =>
      obtain rfl := Option.some.inj hstep
      rw [Scheduler.rtThreadControl]
      split_ifs
      · exact (remove_locked (u := s) ⟨rfl, rfl⟩).1
      · rfl
  | enterCritical => exact Option.some.inj hstep ▸ rfl
  | exitCritical =>
      have hle := h.nest
      have hmore : 1 < s.rtSchedulerLockNest := hlocked
      have hbmod : (s.rtSchedulerLockNest - 1).bmod (2 ^ 16) = s.rtSchedulerLockNest - 1 := by
        rw [Int.bmod_eq_of_le] <;> omega
      rw [threadStep, Scheduler.rtExitCritical, hbmod, if_neg (by omega)] at hstep
      exact Option.some.inj hstep ▸ rfl
  | tick =>
      obtain ⟨c, -, hstep⟩ := Option.bind_eq_some_iff.mp hstep
      simp only at hstep
      split_ifs at hstep
      · exact rtThreadYield_locked hstep hnest ⟨rfl, rfl⟩
      · exact Option.some.inj hstep ▸ rfl
  | exit =>
      obtain ⟨c, -, rfl⟩ := Option.map_eq_some_iff.mp hstep
      exact (remove_locked (u := s) ⟨rfl, rfl⟩).1
  | detach u =>
      obtain rfl := Option.some.inj hstep
      rw [Scheduler.rtThreadDetach]
      split_ifs
      · exact (remove_locked (u := s) ⟨rfl, rfl⟩).1
      · rfl

/-- Between `rt_enter_critical` and the `rt_exit_critical` that belongs to it no other thread comes
to run, whatever is resumed, and however often the tick comes. -/
theorem critical_alone (hpriority : ∀ t, priority t < 32) (htick : ∀ t, 0 < tick t)
    (h : Run threadStep (Allowed idle) (.start priority tick) as s)
    (hcurrent : s.rtCurrentThread = some t) (hlocked : Run threadStep (Locked idle) s bs s') :
    s'.rtCurrentThread = some t := by
  have hs := scheduled_run hpriority htick h
  suffices hall : Scheduled idle s' ∧ s'.rtCurrentThread = some t from hall.2
  induction hlocked with
  | nil => exact ⟨hs, hcurrent⟩
  | @snoc bs u v a hrun ha hstep ih =>
      obtain ⟨hu, hsame⟩ := ih
      obtain ⟨w, hstep', hw⟩ := hu.threadStep ha.1
      obtain rfl : w = v := Option.some.inj (hstep'.symm.trans hstep)
      have hne : u.rtCurrentThread ≠ none := by
        rw [hsame]
        exact Option.some_ne_none t
      exact ⟨hw, (threadStep_locked hu hne ha hstep).trans hsame⟩

/-- A thread of a higher priority is woken by its timer while the scheduler is locked. -/
theorem critical_alone_woken :
    ∃ s s', Run threadStep (Allowed 0)
        (.start (fun t : Fin 3 => if t = 0 then 31 else if t = 1 then 10 else 5) fun _ => 1)
        [.startup 0, .startup 1, .startup 2, .schedulerStart, .sleep true, .schedule,
          .enterCritical] s ∧
      Run threadStep (Locked 0) s [.timeout 2, .tick] s' ∧
      decide ((s'.thread 2).stat = .ready) = true ∧ s'.rtCurrentThread = some 1 := by
  obtain ⟨s, hrun, hp⟩ := Run.exists_of_exec threadStep (Allowed 0)
    (.start (fun t : Fin 3 => if t = 0 then 31 else if t = 1 then 10 else 5) fun _ => 1)
    [.startup 0, .startup 1, .startup 2, .schedulerStart, .sleep true, .schedule, .enterCritical]
    (fun s => decide (s.rtCurrentThread = some 1) &&
      decide ((exec threadStep (Locked 0) s [.timeout 2, .tick]).map
        (fun s' => decide ((s'.thread 2).stat = .ready)) = some true)) (by decide +kernel)
  rw [Bool.and_eq_true, decide_eq_true_iff, decide_eq_true_iff] at hp
  obtain ⟨s', hlocked, hp'⟩ := Run.exists_of_exec threadStep (Locked 0) s [.timeout 2, .tick] _ hp.2
  exact ⟨s, s', hrun, hlocked, hp', critical_alone (by decide) (by decide) hrun hp.1 hlocked⟩

end Runs

end Kernel
