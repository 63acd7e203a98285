import Esp32AtMqtt.Kernel.Scheduler

/-!
# The ready lists

The ready lists, the bits of those that are not empty, and the states of the threads agree after
every step, so `rt_schedule` always finds a thread, and it is the first one of the highest
priority.
-/

namespace Kernel

open Transition Turns

section Lists

variable {τ : Type*}

/-- The number of a thread's priority. -/
def Scheduler.priority (s : Scheduler τ) (t : τ) : ℕ := (s.thread t).currentPriority.toNat

/-- The bit of the priority is in the mask, which a thread that was not started need not have. -/
def RtThread.MaskOk (r : RtThread) : Prop :=
  r.numberMask = 1 <<< r.currentPriority.toUInt32 ∨
    r.numberMask = 0 ∧ (r.stat = .init ∨ r.stat = .close)

/-- The ready lists fit together, but for the state of a thread that is being moved. -/
structure Queued (skip : Option τ) (s : Scheduler τ) : Prop where
  nodup : ∀ p, (s.rtThreadPriorityTable p).Nodup
  home : ∀ t p, t ∈ s.rtThreadPriorityTable p →
    s.priority t = p ∧ (s.thread t).numberMask = 1 <<< (s.thread t).currentPriority.toUInt32
  ready : ∀ t, t ∉ skip →
    ((s.thread t).stat = .ready ↔ t ∈ s.rtThreadPriorityTable (s.priority t))
  group : ∀ p, s.rtThreadReadyPriorityGroup.toNat.testBit p = true ↔
    s.rtThreadPriorityTable p ≠ []
  mask : ∀ t, (s.thread t).MaskOk
  below : ∀ t, (s.thread t).currentPriority < 32 ∧ (s.thread t).initPriority < 32

namespace Queued

variable {skip : Option τ} {s : Scheduler τ} {t : τ}

theorem weaken (h : Queued none s) (t : τ) : Queued (some t) s :=
  { h with ready := fun u _ => h.ready u nofun }

theorem unskip (h : Queued (some t) s)
    (ht : (s.thread t).stat = .ready ↔ t ∈ s.rtThreadPriorityTable (s.priority t)) :
    Queued none s := by
  refine { h with ready := fun u _ => ?_ }
  by_cases hu : u = t
  · rw [hu]
    exact ht
  · exact h.ready u fun heq => hu (Option.some.inj heq).symm

theorem mask_of_stat (h : Queued skip s)
    (ht : (s.thread t).stat = .ready ∨ (s.thread t).stat = .suspend) :
    (s.thread t).numberMask = 1 <<< (s.thread t).currentPriority.toUInt32 := by
  refine (h.mask t).resolve_right fun ⟨_, hstat⟩ => ?_
  rcases ht with ht | ht
  · exact absurd (ht ▸ hstat) (by decide)
  · exact absurd (ht ▸ hstat) (by decide)

theorem out_of_stat (h : Queued none s) (ht : (s.thread t).stat ≠ .ready) (p : ℕ) :
    t ∉ s.rtThreadPriorityTable p := by
  intro hin
  have hhome := (h.home t p hin).1
  exact ht ((h.ready t nofun).mpr (hhome ▸ hin))

/-- There is a thread to be found, and none that is ready has a higher priority. -/
theorem highest (h : Queued skip s) {p : ℕ} (hp : s.rtThreadPriorityTable p ≠ []) :
    ∃ q t ts, s.highest = some (q, t) ∧ s.rtThreadPriorityTable q = t :: ts ∧
      ∀ r < q, s.rtThreadPriorityTable r = [] := by
  have hgroup : s.rtThreadReadyPriorityGroup ≠ 0 := fun hzero => by
    have hbit := (h.group p).mpr hp
    rw [hzero] at hbit
    simp at hbit
  obtain ⟨q, hffs, hset, hbelow⟩ := rtFfs_firstSet hgroup
  obtain ⟨t, ts, hlist⟩ := List.exists_cons_of_ne_nil ((h.group q).mp hset)
  refine ⟨q, t, ts, by simp [Scheduler.highest, hffs, hlist], hlist, fun r hr => ?_⟩
  by_contra hne
  have hbit := (h.group r).mpr hne
  rw [hbelow r hr] at hbit
  exact Bool.noConfusion hbit

end Queued

end Lists

section Moves

variable {τ : Type*} [DecidableEq τ]

section Put

variable {table : ℕ → List τ} {t u : τ} {p q : ℕ}

omit [DecidableEq τ] in
theorem mem_put : u ∈ Function.update table q (table q ++ [t]) p ↔ u ∈ table p ∨ u = t ∧ p = q := by
  by_cases hp : p = q
  · subst hp
    simp
  · simp [hp]

omit [DecidableEq τ] in
theorem put_ne_nil : Function.update table q (table q ++ [t]) p ≠ [] ↔ table p ≠ [] ∨ p = q := by
  by_cases hp : p = q
  · subst hp
    simp
  · simp [hp]

omit [DecidableEq τ] in
theorem nodup_put (hnodup : ∀ p, (table p).Nodup) (hout : ∀ p, t ∉ table p) :
    (Function.update table q (table q ++ [t]) p).Nodup := by
  by_cases hp : p = q
  · subst hp
    rw [Function.update_self]
    exact (List.perm_append_singleton t _).nodup_iff.mpr (List.nodup_cons.mpr ⟨hout p, hnodup p⟩)
  · rw [Function.update_of_ne hp]
    exact hnodup p

end Put

namespace Scheduler

variable (s : Scheduler τ) (t : τ) (f : RtThread → RtThread)

@[simp] theorem thread_setThread_self : (s.setThread t f).thread t = f (s.thread t) :=
  Function.update_self t _ s.thread

theorem thread_setThread_of_ne {u : τ} (h : u ≠ t) : (s.setThread t f).thread u = s.thread u :=
  Function.update_of_ne h _ s.thread

@[simp] theorem timer_setTimer_self (running : Bool) :
    (s.setTimer t running).threadTimer t = running := by
  simp [setTimer]

theorem setThread_setThread (g : RtThread → RtThread) :
    (s.setThread t f).setThread t g = s.setThread t fun r => g (f r) := by
  simp [setThread]

@[simp] theorem table_setThread :
    (s.setThread t f).rtThreadPriorityTable = s.rtThreadPriorityTable := rfl

@[simp] theorem group_setThread :
    (s.setThread t f).rtThreadReadyPriorityGroup = s.rtThreadReadyPriorityGroup := rfl

theorem thread_insert : (s.rtScheduleInsertThread t).thread =
    Function.update s.thread t { s.thread t with stat := .ready } := rfl

/-- What `rt_schedule_remove_thread` leaves as it is. -/
theorem remove_same : (s.rtScheduleRemoveThread t).thread = s.thread ∧
    (s.rtScheduleRemoveThread t).rtCurrentThread = s.rtCurrentThread ∧
    (s.rtScheduleRemoveThread t).rtSchedulerLockNest = s.rtSchedulerLockNest ∧
    (s.rtScheduleRemoveThread t).threadTimer = s.threadTimer := by
  rw [rtScheduleRemoveThread]
  split_ifs <;> exact ⟨rfl, rfl, rfl, rfl⟩

theorem thread_remove : (s.rtScheduleRemoveThread t).thread = s.thread := (s.remove_same t).1

theorem pending_remove : (s.rtScheduleRemoveThread t).pending = true := by
  rw [rtScheduleRemoveThread]
  split_ifs <;> rfl

theorem table_remove : (s.rtScheduleRemoveThread t).rtThreadPriorityTable =
    fun p => (s.rtThreadPriorityTable p).erase t := by
  rw [rtScheduleRemoveThread]
  split_ifs <;> rfl

end Scheduler

namespace Queued

variable {skip : Option τ} {s : Scheduler τ} {t : τ}

/-- The thread that is being moved is changed. In a list it keeps its priority. -/
theorem setThread (h : Queued (some t) s) {f : RtThread → RtThread}
    (hhome : ∀ p, t ∈ s.rtThreadPriorityTable p →
      (f (s.thread t)).currentPriority = (s.thread t).currentPriority ∧
        (f (s.thread t)).numberMask = (s.thread t).numberMask)
    (hmask : (f (s.thread t)).MaskOk)
    (hbelow : (f (s.thread t)).currentPriority < 32 ∧ (f (s.thread t)).initPriority < 32) :
    Queued (some t) (s.setThread t f) := by
  have hne : ∀ u, u ∉ some t → u ≠ t := fun u hu heq => hu (congrArg some heq.symm)
  refine { h with home := fun u p hin => ?_, ready := fun u hu => ?_, mask := fun u => ?_,
                  below := fun u => ?_ }
  · by_cases hut : u = t
    · subst hut
      rw [Scheduler.priority, Scheduler.thread_setThread_self, (hhome p hin).1, (hhome p hin).2]
      exact h.home u p hin
    · rw [Scheduler.priority, Scheduler.thread_setThread_of_ne s t f hut]
      exact h.home u p hin
  · rw [Scheduler.priority, Scheduler.thread_setThread_of_ne s t f (hne u hu)]
    exact h.ready u hu
  · by_cases hut : u = t
    · rw [hut, Scheduler.thread_setThread_self]
      exact hmask
    · rw [Scheduler.thread_setThread_of_ne s t f hut]
      exact h.mask u
  · by_cases hut : u = t
    · rw [hut, Scheduler.thread_setThread_self]
      exact hbelow
    · rw [Scheduler.thread_setThread_of_ne s t f hut]
      exact h.below u

/-- Something that the lists do not depend on is changed. -/
theorem setThread_same (h : Queued none s) {f : RtThread → RtThread}
    (hstat : (f (s.thread t)).stat = (s.thread t).stat)
    (hpriority : (f (s.thread t)).currentPriority = (s.thread t).currentPriority)
    (hmask : (f (s.thread t)).numberMask = (s.thread t).numberMask)
    (hinit : (f (s.thread t)).initPriority = (s.thread t).initPriority) :
    Queued none (s.setThread t f) := by
  refine ((h.weaken t).setThread (fun _ _ => ⟨hpriority, hmask⟩) ?_ ?_).unskip ?_
  · rw [RtThread.MaskOk, hstat, hpriority, hmask]
    exact h.mask t
  · rw [hpriority, hinit]
    exact h.below t
  · rw [Scheduler.priority, Scheduler.thread_setThread_self, hstat, hpriority]
    exact h.ready t nofun

/-- Lists that lose a thread, with the bit of its priority taken away when its list is empty. -/
theorem remove (h : Queued (some t) s) : Queued (some t) (s.rtScheduleRemoveThread t) ∧
    ∀ p, t ∉ (s.rtScheduleRemoveThread t).rtThreadPriorityTable p := by
  have hthread := s.thread_remove t
  have htable := s.table_remove t
  have hpriority : ∀ u, (s.rtScheduleRemoveThread t).priority u = s.priority u := fun u => by
    rw [Scheduler.priority, hthread, Scheduler.priority]
  have hout : ∀ p, t ∉ (s.rtThreadPriorityTable p).erase t := fun p => (h.nodup p).not_mem_erase
  refine ⟨⟨fun p => ?_, fun u p hin => ?_, fun u hu => ?_, fun p => ?_, fun u => ?_, fun u => ?_⟩,
    fun p => htable ▸ hout p⟩
  · rw [htable]
    exact (h.nodup p).erase t
  · rw [htable] at hin
    rw [hpriority, hthread]
    exact h.home u p (List.mem_of_mem_erase hin)
  · have hne : u ≠ t := fun heq => hu (congrArg some heq.symm)
    rw [hthread, hpriority, htable, h.ready u hu]
    exact (List.mem_erase_of_ne hne).symm
  · have hother : ∀ p, s.priority t ≠ p →
        (s.rtThreadPriorityTable p).erase t = s.rtThreadPriorityTable p := fun p hp =>
      List.erase_of_not_mem fun hin => hp (h.home t p hin).1
    rw [htable]
    show _ ↔ (s.rtThreadPriorityTable p).erase t ≠ []
    rw [Scheduler.rtScheduleRemoveThread]
    split_ifs with hempty
    · have hzero : (s.rtThreadPriorityTable (s.priority t)).erase t = [] := hempty
      show (s.rtThreadReadyPriorityGroup &&& ~~~(s.thread t).numberMask).toNat.testBit p = true ↔ _
      rcases h.mask t with hmask | ⟨hmask, -⟩
      · -- nothing is left in the list of its priority
        rw [hmask, testBit_and_not_mask (h.below t).1, Bool.and_eq_true, h.group p]
        by_cases hp : s.priority t = p
        · subst hp
          rw [hzero]
          simp [Scheduler.priority]
        · have hnot : (s.thread t).currentPriority.toNat ≠ p := hp
          simp [hother p hp, hnot]
      · -- it was not started, and is in no list
        have hnotin : t ∉ s.rtThreadPriorityTable p := fun hin => by
          have hbit := congrArg UInt32.toNat (h.home t p hin).2
          rw [hmask, toNat_numberMask (h.below t).1] at hbit
          exact absurd hbit.symm (Nat.two_pow_pos _).ne'
        rw [hmask, List.erase_of_not_mem hnotin, ← h.group p]
        simp
    · show s.rtThreadReadyPriorityGroup.toNat.testBit p = true ↔ _
      rw [h.group p]
      by_cases hp : s.priority t = p
      · subst hp
        have hne : (s.rtThreadPriorityTable (s.priority t)).erase t ≠ [] := hempty
        refine ⟨fun _ => hne, fun _ hnil => hne ?_⟩
        rw [hnil]
        rfl
      · rw [hother p hp]
  · rw [hthread]
    exact h.mask u
  · rw [hthread]
    exact h.below u

/-- A thread that is in no list is put at the end of the one of its priority. -/
theorem insert (h : Queued (some t) s) (hout : ∀ p, t ∉ s.rtThreadPriorityTable p)
    (hmask : (s.thread t).numberMask = 1 <<< (s.thread t).currentPriority.toUInt32) :
    Queued none (s.rtScheduleInsertThread t) := by
  obtain ⟨hnodup, hhome, hready, hgroup, hmasks, hbelow⟩ := h.setThread (t := t)
    (f := fun r => { r with stat := .ready }) (fun p hin => absurd hin (hout p)) (.inl hmask)
    (h.below t)
  rw [Scheduler.rtScheduleInsertThread]
  generalize hset : s.setThread t (fun r => { r with stat := .ready }) = s₁ at *
  have hself : s₁.thread t = { s.thread t with stat := .ready } := by
    rw [← hset, Scheduler.thread_setThread_self]
  have hout₁ : ∀ p, t ∉ s₁.rtThreadPriorityTable p := by
    rw [← hset]
    exact hout
  have hbit : (s₁.thread t).numberMask = 1 <<< (s₁.thread t).currentPriority.toUInt32 := by
    rw [hself]
    exact hmask
  refine ⟨fun p => nodup_put hnodup hout₁, fun u p hin => ?_, fun u _ => ?_, fun p => ?_, hmasks,
    hbelow⟩
  · rcases mem_put.mp hin with hin | ⟨rfl, rfl⟩
    · exact hhome u p hin
    · exact ⟨rfl, hbit⟩
  · refine Iff.trans ?_ mem_put.symm
    by_cases hu : u = t
    · subst hu
      exact ⟨fun _ => .inr ⟨rfl, rfl⟩, fun _ => congrArg RtThread.stat hself⟩
    · exact (hready u fun heq => hu (Option.some.inj heq).symm).trans
        ⟨.inl, fun hin => hin.resolve_right fun heq => hu heq.1⟩
  · refine Iff.trans ?_ put_ne_nil.symm
    rw [← hgroup p]
    show (s₁.rtThreadReadyPriorityGroup ||| (s₁.thread t).numberMask).toNat.testBit p = true ↔ _
    rw [hbit, testBit_or_mask (hbelow t).1, Bool.or_eq_true, decide_eq_true_iff]
    exact or_congr_right eq_comm

/-- A thread of a list is put at its end. -/
theorem rotate (h : Queued none s) (ht : t ∈ s.rtThreadPriorityTable (s.priority t)) :
    Queued none ((s.rtListRemove t).rtListInsertBefore t) := by
  have hout : ∀ p, t ∉ (s.rtThreadPriorityTable p).erase t := fun p => (h.nodup p).not_mem_erase
  have hmem : ∀ u p, u ∈ ((s.rtListRemove t).rtListInsertBefore t).rtThreadPriorityTable p ↔
      u ∈ s.rtThreadPriorityTable p := fun u p => by
    refine mem_put.trans ?_
    by_cases hu : u = t
    · subst hu
      refine ⟨fun hin => ?_, fun hin => .inr ⟨rfl, (h.home u p hin).1.symm⟩⟩
      rcases hin with hin | ⟨-, rfl⟩
      · exact absurd hin (hout p)
      · exact ht
    · exact ⟨fun hin => List.mem_of_mem_erase (hin.resolve_right fun heq => hu heq.1),
        fun hin => .inl ((List.mem_erase_of_ne hu).mpr hin)⟩
  refine { h with
    nodup := fun p => nodup_put (fun p => (h.nodup p).erase t) hout
    home := fun u p hin => h.home u p ((hmem u p).mp hin)
    ready := fun u hu => (h.ready u hu).trans (hmem u _).symm
    group := fun p => (h.group p).trans ?_ }
  refine not_congr ?_
  rw [List.eq_nil_iff_forall_not_mem, List.eq_nil_iff_forall_not_mem]
  exact forall_congr' fun u => not_congr (hmem u p).symm

end Queued

/-- What holds between two steps. -/
structure Scheduled (idle : τ) (s : Scheduler τ) : Prop where
  queued : Queued none s
  slice : ∀ t, 0 < (s.thread t).remainingTick ∧ (s.thread t).remainingTick ≤ (s.thread t).initTick
  waiting : ∀ t, s.threadTimer t = true → (s.thread t).stat = .suspend
  idle : s.rtCurrentThread ≠ none → (s.thread idle).stat = .ready
  first : s.pending = false → ∀ t ∈ s.rtCurrentThread,
    (s.rtThreadPriorityTable (s.priority t)).head? = some t ∧
      ∀ p < s.priority t, s.rtThreadPriorityTable p = []
  nest : 0 ≤ s.rtSchedulerLockNest ∧ s.rtSchedulerLockNest ≤ 32767

theorem toNat_sub_one {tick : UInt32} (h : 0 < tick) : (tick - 1).toNat + 1 = tick.toNat := by
  have hpos : 0 < tick.toNat := UInt32.lt_iff_toNat_lt.mp h
  have hsub := UInt32.toNat_sub_of_le tick 1 (UInt32.le_iff_toNat_le.mpr hpos)
  rw [hsub, UInt32.toNat_one]
  omega

namespace Scheduled

variable {idle : τ} {s s' : Scheduler τ} {t : τ}

omit [DecidableEq τ] in
/-- A thread was moved. -/
theorem move (h : Scheduled idle s) (hqueued : Queued none s')
    (hothers : ∀ u, u ≠ t → s'.thread u = s.thread u ∧ s'.threadTimer u = s.threadTimer u)
    (hticks : (s'.thread t).remainingTick = (s.thread t).remainingTick ∧
      (s'.thread t).initTick = (s.thread t).initTick)
    (htimer : s'.threadTimer t = true → (s'.thread t).stat = .suspend)
    (hidle : t = idle → s.rtCurrentThread ≠ none → (s'.thread t).stat = .ready)
    (hcurrent : s'.rtCurrentThread = s.rtCurrentThread) (hpending : s'.pending = true)
    (hnest : s'.rtSchedulerLockNest = s.rtSchedulerLockNest) : Scheduled idle s' := by
  refine ⟨hqueued, fun u => ?_, fun u hu => ?_, fun hne => ?_,
    fun hfalse => absurd (hpending.symm.trans hfalse) (by decide), hnest ▸ h.nest⟩
  · by_cases hut : u = t
    · rw [hut, hticks.1, hticks.2]
      exact h.slice t
    · rw [(hothers u hut).1]
      exact h.slice u
  · by_cases hut : u = t
    · rw [hut] at hu ⊢
      exact htimer hu
    · rw [(hothers u hut).2] at hu
      rw [(hothers u hut).1]
      exact h.waiting u hu
  · rw [hcurrent] at hne
    by_cases hut : idle = t
    · rw [hut]
      exact hidle hut.symm hne
    · rw [(hothers idle hut).1]
      exact h.idle hne

/-- A thread that is not ready is changed, and stays so. -/
theorem setThread_out (h : Scheduled idle s) {f : RtThread → RtThread}
    (hstat : (s.thread t).stat ≠ .ready) (hstat' : (f (s.thread t)).stat ≠ .ready)
    (hmask : (f (s.thread t)).MaskOk)
    (hbelow : (f (s.thread t)).currentPriority < 32 ∧ (f (s.thread t)).initPriority < 32)
    (hslice : 0 < (f (s.thread t)).remainingTick ∧
      (f (s.thread t)).remainingTick ≤ (f (s.thread t)).initTick)
    (htimer : s.threadTimer t = true → (f (s.thread t)).stat = .suspend) :
    Scheduled idle (s.setThread t f) := by
  have hout := h.queued.out_of_stat hstat
  have hqueued : Queued none (s.setThread t f) := by
    refine ((h.queued.weaken t).setThread (fun p hin => absurd hin (hout p)) hmask hbelow).unskip ?_
    rw [Scheduler.thread_setThread_self]
    exact ⟨fun hready => absurd hready hstat', fun hin => absurd hin (hout _)⟩
  refine ⟨hqueued, fun u => ?_, fun u hu => ?_, fun hne => ?_, fun hpending c hc => ?_, h.nest⟩
  · by_cases hut : u = t
    · rw [hut, Scheduler.thread_setThread_self]
      exact hslice
    · rw [Scheduler.thread_setThread_of_ne s t f hut]
      exact h.slice u
  · by_cases hut : u = t
    · rw [hut] at hu
      rw [hut, Scheduler.thread_setThread_self]
      exact htimer hu
    · rw [Scheduler.thread_setThread_of_ne s t f hut]
      exact h.waiting u hu
  · have hidle := h.idle hne
    by_cases hut : idle = t
    · exact absurd (hut ▸ hidle) hstat
    · rw [Scheduler.thread_setThread_of_ne s t f hut]
      exact hidle
  · obtain ⟨hhead, hempty⟩ := h.first hpending c hc
    have hct : c ≠ t := fun heq => hout _ (heq ▸ List.mem_of_mem_head? hhead)
    have hpriority : (s.setThread t f).priority c = s.priority c := by
      rw [Scheduler.priority, Scheduler.thread_setThread_of_ne s t f hct, Scheduler.priority]
    rw [hpriority]
    exact ⟨hhead, hempty⟩

/-- `rt_schedule` finds the first thread of the highest priority. -/
theorem rtSchedule (h : Scheduled idle s) (hcurrent : s.rtCurrentThread ≠ none) :
    ∃ s', s.rtSchedule = some s' ∧ Scheduled idle s' := by
  obtain ⟨c, hc⟩ := Option.ne_none_iff_exists'.mp hcurrent
  rw [Scheduler.rtSchedule]
  split_ifs with hnest
  · have hin : idle ∈ s.rtThreadPriorityTable (s.priority idle) :=
      (h.queued.ready idle nofun).mp (h.idle hcurrent)
    obtain ⟨q, t, ts, hfound, hlist, hempty⟩ := h.queued.highest (List.ne_nil_of_mem hin)
    have hq : s.priority t = q := (h.queued.home t q (hlist ▸ List.mem_cons_self)).1
    have hfirst : (s.rtThreadPriorityTable (s.priority t)).head? = some t ∧
        ∀ p < s.priority t, s.rtThreadPriorityTable p = [] := by
      rw [hq, hlist]
      exact ⟨rfl, hempty⟩
    simp only [hfound, Option.bind_some, hc, Option.map_some]
    split_ifs with htc
    · exact ⟨_, rfl, { h with
        queued := { h.queued with }
        idle := fun _ => h.idle hcurrent
        first := fun _ u hu => Option.some.inj hu ▸ hfirst }⟩
    · rw [not_not] at htc
      refine ⟨_, rfl, { h with
        queued := { h.queued with }
        idle := fun _ => h.idle hcurrent
        first := fun _ u hu => ?_ }⟩
      obtain rfl : c = u := Option.some.inj hu
      exact htc ▸ hfirst
  · exact ⟨s, rfl, h⟩

theorem rtThreadSuspend (h : Scheduled idle s) (ht : t ≠ idle) :
    Scheduled idle (s.rtThreadSuspend t) := by
  rw [Scheduler.rtThreadSuspend]
  split_ifs with hstat
  · exact h
  · have hready : (s.thread t).stat = .ready := not_not.mp hstat
    have hset := (h.queued.weaken t).setThread (f := fun r => { r with stat := .suspend })
      (fun _ _ => ⟨rfl, rfl⟩) (.inl (h.queued.mask_of_stat (.inl hready))) (h.queued.below t)
    obtain ⟨hremove, hout⟩ := hset.remove
    obtain ⟨hthread, hcurrent, hnest, htimer⟩ :=
      (s.setThread t fun r => { r with stat := .suspend }).remove_same t
    have hself : ((s.setThread t fun r => { r with stat := .suspend }).rtScheduleRemoveThread
        t).thread t = { s.thread t with stat := .suspend } := by
      rw [hthread, Scheduler.thread_setThread_self]
    refine h.move (t := t) { hremove.unskip ?_ with } (fun u hu => ⟨?_, ?_⟩) ?_ ?_
      (fun heq => absurd heq ht) hcurrent (Scheduler.pending_remove _ t) hnest
    · rw [hself]
      exact ⟨nofun, fun hin => absurd hin (hout _)⟩
    · exact (congrFun hthread u).trans (Scheduler.thread_setThread_of_ne s t _ hu)
    · exact (Function.update_of_ne hu _ _).trans (congrFun htimer u)
    · show ((_ : Scheduler τ).thread t).remainingTick = _ ∧ _
      rw [Scheduler.setTimer, hself]
      exact ⟨rfl, rfl⟩
    · intro _
      exact congrArg RtThread.stat hself

/-- A thread that is suspended comes to a ready list. -/
theorem resumed (h : Scheduled idle s) (hstat : (s.thread t).stat = .suspend) :
    Scheduled idle (((s.rtListRemove t).setTimer t false).rtScheduleInsertThread t) := by
  have hout := h.queued.out_of_stat (t := t) (by rw [hstat]; decide)
  have htable : (s.rtListRemove t).rtThreadPriorityTable = s.rtThreadPriorityTable :=
    funext fun p => List.erase_of_not_mem (hout p)
  have hqueued : Queued (some t) ((s.rtListRemove t).setTimer t false) := { h.queued with
    nodup := fun p => by
      show ((s.rtListRemove t).rtThreadPriorityTable p).Nodup
      rw [htable]
      exact h.queued.nodup p
    home := fun u p hin => h.queued.home u p (htable ▸ hin)
    ready := fun u _ => by
      show _ ↔ u ∈ (s.rtListRemove t).rtThreadPriorityTable _
      rw [htable]
      exact h.queued.ready u nofun
    group := fun p => by
      show _ ↔ (s.rtListRemove t).rtThreadPriorityTable p ≠ []
      rw [htable]
      exact h.queued.group p }
  have hinsert := hqueued.insert (fun p hin => hout p (htable ▸ hin))
    (h.queued.mask_of_stat (.inr hstat))
  have hself : (((s.rtListRemove t).setTimer t false).rtScheduleInsertThread t).thread t =
      { s.thread t with stat := .ready } := Function.update_self t _ _
  have htimer : (((s.rtListRemove t).setTimer t false).rtScheduleInsertThread t).threadTimer t =
      false := Function.update_self t _ _
  refine h.move (t := t) hinsert (fun u hu => ⟨?_, ?_⟩) ?_ (fun hon => ?_) (fun _ _ => ?_) rfl rfl
    rfl
  · exact Function.update_of_ne hu _ _
  · exact Function.update_of_ne hu _ _
  · rw [hself]
    exact ⟨rfl, rfl⟩
  · exact absurd (htimer.symm.trans hon) (by decide)
  · exact congrArg RtThread.stat hself

theorem rtThreadResume (h : Scheduled idle s) (t : τ) : Scheduled idle (s.rtThreadResume t) := by
  rw [Scheduler.rtThreadResume]
  split_ifs with hstat
  · exact h
  · exact h.resumed (not_not.mp hstat)

/-- A timer of a thread that is suspended may be started. -/
theorem startTimer (h : Scheduled idle s) (hstat : (s.thread t).stat = .suspend) :
    Scheduled idle (s.setTimer t true) := by
  refine { h with queued := { h.queued with }, waiting := fun u hu => ?_ }
  by_cases hut : u = t
  · rw [hut]
    exact hstat
  · exact h.waiting u ((Function.update_of_ne hut _ _).symm.trans hu)

/-- The assertion of `rt_thread_timeout` holds when the timer is running. -/
theorem rtThreadTimeout (h : Scheduled idle s) (ht : s.threadTimer t = true)
    (hcurrent : s.rtCurrentThread ≠ none) :
    ∃ s', s.rtThreadTimeout t = some s' ∧ Scheduled idle s' := by
  have hstat := h.waiting t ht
  rw [Scheduler.rtThreadTimeout, if_pos hstat]
  exact (h.resumed hstat).rtSchedule hcurrent

theorem rtThreadStartup (h : Scheduled idle s) (ht : (s.thread t).stat = .init) :
    ∃ s', s.rtThreadStartup t = some s' ∧ Scheduled idle s' := by
  rw [Scheduler.rtThreadStartup, if_pos ht]
  have hset := h.setThread_out (t := t) (f := fun r =>
      { r with
        stat := .suspend
        currentPriority := r.initPriority
        numberMask := 1 <<< r.initPriority.toUInt32 })
    (by rw [ht]; decide) nofun (.inl rfl) ⟨(h.queued.below t).2, (h.queued.below t).2⟩ (h.slice t)
    fun _ => rfl
  have hresume := hset.rtThreadResume t
  simp only
  split_ifs with hcurrent
  · exact hresume.rtSchedule hcurrent
  · exact ⟨_, rfl, hresume⟩

theorem rtThreadSleep (h : Scheduled idle s) {timed : Bool} (hcurrent : s.rtCurrentThread ≠ none)
    (hidle : s.rtCurrentThread ≠ some idle)
    (hstat : ∀ t ∈ s.rtCurrentThread, (s.thread t).stat = .ready ∨ (s.thread t).stat = .suspend) :
    ∃ s', s.rtThreadSleep timed = some s' ∧ Scheduled idle s' := by
  obtain ⟨c, hc⟩ := Option.ne_none_iff_exists'.mp hcurrent
  have hne : c ≠ idle := fun heq => hidle (heq ▸ hc)
  have hsuspend := h.rtThreadSuspend hne
  have hafter : ((s.rtThreadSuspend c).thread c).stat = .suspend := by
    rw [Scheduler.rtThreadSuspend]
    split_ifs with hready
    · exact (hstat c hc).resolve_left hready
    · exact congrArg RtThread.stat ((congrFun (Scheduler.thread_remove _ c) c).trans
        (s.thread_setThread_self c _))
  rw [Scheduler.rtThreadSleep, hc, Option.map_some]
  refine ⟨_, rfl, ?_⟩
  split_ifs
  · exact hsuspend.startTimer hafter
  · exact hsuspend

theorem rtThreadControl (h : Scheduled idle s) {priority : UInt8} (hpriority : priority < 32) :
    Scheduled idle (s.rtThreadControl t priority) := by
  have hinit := (h.queued.below t).2
  rw [Scheduler.rtThreadControl]
  simp only
  split_ifs with hready
  · obtain ⟨hremove, hout⟩ := (h.queued.weaken t).remove
    obtain ⟨hthread, hcurrent, hnest, htimer⟩ := s.remove_same t
    have hself : (s.rtScheduleRemoveThread t).thread t = s.thread t := congrFun hthread t
    have hset := hremove.setThread (f := fun r =>
        { r with currentPriority := priority, numberMask := 1 <<< priority.toUInt32 })
      (fun p hin => absurd hin (hout p)) (.inl rfl) ⟨hpriority, hself ▸ hinit⟩
    have hinsert := hset.insert hout (by rw [Scheduler.thread_setThread_self])
    have hlast : ((s.rtScheduleRemoveThread t).setThread t fun r =>
        { r with currentPriority := priority, numberMask := 1 <<< priority.toUInt32 }).thread t =
        { s.thread t with
          currentPriority := priority, numberMask := 1 <<< priority.toUInt32 } := by
      rw [Scheduler.thread_setThread_self, hself]
    refine h.move (t := t) hinsert (fun u hu => ⟨?_, congrFun htimer u⟩) ?_ (fun hon => ?_)
      (fun _ _ => ?_) hcurrent rfl hnest
    · rw [Scheduler.thread_insert, Function.update_of_ne hu,
        Scheduler.thread_setThread_of_ne _ t _ hu, hthread]
    · rw [Scheduler.thread_insert, Function.update_self, hlast]
      exact ⟨rfl, rfl⟩
    · have hsuspended := h.waiting t ((congrFun htimer t).symm.trans hon)
      rw [hready] at hsuspended
      exact nomatch hsuspended
    · rw [Scheduler.thread_insert, Function.update_self]
  · exact h.setThread_out hready hready (.inl rfl) ⟨hpriority, hinit⟩ (h.slice t) (h.waiting t)

/-- A thread is taken out of all lists for good. -/
theorem closed (h : Scheduled idle s) (ht : t ≠ idle) :
    Scheduled idle (((s.rtScheduleRemoveThread t).setTimer t false).setThread t
      fun r => { r with stat := .close }) := by
  obtain ⟨hremove, hout⟩ := (h.queued.weaken t).remove
  obtain ⟨hthread, hcurrent, hnest, htimer⟩ := s.remove_same t
  have hself : (s.rtScheduleRemoveThread t).thread t = s.thread t := congrFun hthread t
  have hmask : RtThread.MaskOk { s.thread t with stat := .close } :=
    (h.queued.mask t).imp_right fun ⟨hzero, _⟩ => ⟨hzero, .inr rfl⟩
  have hset := (show Queued (some t) ((s.rtScheduleRemoveThread t).setTimer t false) from
    { hremove with }).setThread (f := fun r => { r with stat := .close }) (fun _ _ => ⟨rfl, rfl⟩)
    (by show RtThread.MaskOk { (s.rtScheduleRemoveThread t).thread t with stat := .close }
        rw [hself]
        exact hmask)
    (hremove.below t)
  have hlast : (((s.rtScheduleRemoveThread t).setTimer t false).setThread t
      fun r => { r with stat := .close }).thread t = { s.thread t with stat := .close } := by
    rw [Scheduler.thread_setThread_self]
    exact congrArg (fun r : RtThread => { r with stat := .close }) hself
  refine h.move (t := t) (hset.unskip ?_) (fun u hu => ⟨?_, ?_⟩) ?_ (fun hon => ?_)
    (fun heq => absurd heq ht) hcurrent (Scheduler.pending_remove s t) hnest
  · rw [hlast]
    exact ⟨nofun, fun hin => absurd hin (hout _)⟩
  · exact (Scheduler.thread_setThread_of_ne _ t _ hu).trans (congrFun hthread u)
  · exact (Function.update_of_ne hu _ _).trans (congrFun htimer u)
  · rw [hlast]
    exact ⟨rfl, rfl⟩
  · exact absurd ((Scheduler.timer_setTimer_self _ t false).symm.trans hon) (by decide)

theorem stopTimer (h : Scheduled idle s) : Scheduled idle (s.setTimer t false) := by
  refine { h with queued := { h.queued with }, waiting := fun u hu => ?_ }
  by_cases hut : u = t
  · rw [hut] at hu
    exact absurd ((Scheduler.timer_setTimer_self s t false).symm.trans hu) (by decide)
  · exact h.waiting u ((Function.update_of_ne hut _ _).symm.trans hu)

theorem rtThreadDetach (h : Scheduled idle s) (ht : t ≠ idle) :
    Scheduled idle (s.rtThreadDetach t) := by
  rw [Scheduler.rtThreadDetach]
  split_ifs with hstat
  · exact h.closed ht
  · have hinit : (s.thread t).stat = .init := not_not.mp hstat
    have hout : (s.thread t).stat ≠ .ready := by
      rw [hinit]
      decide
    exact (h.stopTimer (t := t)).setThread_out hout nofun
      ((h.queued.mask t).imp_right fun ⟨hzero, _⟩ => ⟨hzero, .inr rfl⟩) (h.queued.below t)
      (h.slice t) fun hon =>
        absurd ((Scheduler.timer_setTimer_self _ t false).symm.trans hon) (by decide)

theorem rtThreadYield (h : Scheduled idle s) (hcurrent : s.rtCurrentThread ≠ none) :
    ∃ s', s.rtThreadYield = some s' ∧ Scheduled idle s' := by
  obtain ⟨c, hc⟩ := Option.ne_none_iff_exists'.mp hcurrent
  rw [Scheduler.rtThreadYield, hc, Option.bind_some]
  split_ifs with hready
  · have hrotate := h.queued.rotate ((h.queued.ready c nofun).mp hready.1)
    have hmoved : Scheduled idle ((s.rtListRemove c).rtListInsertBefore c) :=
      h.move (t := c) hrotate (fun _ _ => ⟨rfl, rfl⟩) ⟨rfl, rfl⟩ (h.waiting c) (fun _ _ => hready.1)
        rfl rfl rfl
    exact hmoved.rtSchedule hcurrent
  · exact ⟨s, rfl, h⟩

/-- What is left of a time slice is changed. -/
theorem setTick (h : Scheduled idle s) {tick : UInt32}
    (htick : 0 < tick ∧ tick ≤ (s.thread t).initTick) :
    Scheduled idle (s.setThread t fun r => { r with remainingTick := tick }) := by
  have hpriority : ∀ u, (s.setThread t fun r => { r with remainingTick := tick }).priority u =
      s.priority u := fun u => by
    by_cases hut : u = t
    · rw [hut, Scheduler.priority, Scheduler.thread_setThread_self, Scheduler.priority]
    · rw [Scheduler.priority, Scheduler.thread_setThread_of_ne s t _ hut, Scheduler.priority]
  have hstat : ∀ u, ((s.setThread t fun r => { r with remainingTick := tick }).thread u).stat =
      (s.thread u).stat := fun u => by
    by_cases hut : u = t
    · rw [hut, Scheduler.thread_setThread_self]
    · rw [Scheduler.thread_setThread_of_ne s t _ hut]
  refine ⟨h.queued.setThread_same rfl rfl rfl rfl, fun u => ?_, fun u hu => ?_, fun hne => ?_,
    fun hpending c hc => ?_, h.nest⟩
  · by_cases hut : u = t
    · rw [hut, Scheduler.thread_setThread_self]
      exact htick
    · rw [Scheduler.thread_setThread_of_ne s t _ hut]
      exact h.slice u
  · rw [hstat]
    exact h.waiting u hu
  · rw [hstat]
    exact h.idle hne
  · rw [hpriority]
    exact h.first hpending c hc

theorem rtTickIncrease (h : Scheduled idle s) (hcurrent : s.rtCurrentThread ≠ none) :
    ∃ s', s.rtTickIncrease = some s' ∧ Scheduled idle s' := by
  obtain ⟨c, hc⟩ := Option.ne_none_iff_exists'.mp hcurrent
  obtain ⟨hpos, hle⟩ := h.slice c
  rw [Scheduler.rtTickIncrease, hc, Option.bind_some]
  simp only [Scheduler.thread_setThread_self, Scheduler.setThread_setThread]
  split_ifs with hzero
  · have htick := UInt32.lt_of_lt_of_le hpos hle
    exact (h.setTick (t := c) ⟨htick, UInt32.le_refl _⟩).rtThreadYield hcurrent
  · refine ⟨_, rfl, h.setTick (t := c) ⟨?_, ?_⟩⟩
    · exact UInt32.pos_iff_ne_zero.mpr hzero
    · have hsub := toNat_sub_one hpos
      rw [UInt32.le_iff_toNat_le] at hle ⊢
      omega

theorem rtExitCritical (h : Scheduled idle s) (hcurrent : s.rtCurrentThread ≠ none) :
    ∃ s', s.rtExitCritical = some s' ∧ Scheduled idle s' := by
  have hnest := h.nest
  have hbmod : (s.rtSchedulerLockNest - 1).bmod (2 ^ 16) = s.rtSchedulerLockNest - 1 := by
    rw [Int.bmod_eq_of_le] <;> omega
  rw [Scheduler.rtExitCritical, hbmod]
  split_ifs with hle
  · have hopen : Scheduled idle { s with rtSchedulerLockNest := 0 } :=
      { h with queued := { h.queued with }, nest := ⟨le_refl _, by simp only; omega⟩ }
    exact hopen.rtSchedule hcurrent
  · exact ⟨_, rfl, { h with
      queued := { h.queued with }
      nest := ⟨by simp only; omega, by simp only; omega⟩ }⟩

omit [DecidableEq τ] in
/-- `idle` is ready when the scheduler is started. -/
theorem rtSystemSchedulerStart (h : Scheduled idle s) (hidle : (s.thread idle).stat = .ready) :
    ∃ s', s.rtSystemSchedulerStart = some s' ∧ Scheduled idle s' := by
  have hin := (h.queued.ready idle nofun).mp hidle
  obtain ⟨q, t, ts, hfound, hlist, hempty⟩ := h.queued.highest (List.ne_nil_of_mem hin)
  have hq : s.priority t = q := (h.queued.home t q (hlist ▸ List.mem_cons_self)).1
  refine ⟨{ s with rtCurrentThread := some t, pending := false },
    by rw [Scheduler.rtSystemSchedulerStart, hfound]; rfl, { h with
      queued := { h.queued with }
      idle := fun _ => hidle
      first := fun _ u hu => ?_ }⟩
  obtain rfl : t = u := Option.some.inj hu
  show (s.rtThreadPriorityTable (s.priority t)).head? = some t ∧
    ∀ p < s.priority t, s.rtThreadPriorityTable p = []
  rw [hq, hlist]
  exact ⟨rfl, hempty⟩

/-- One step. -/
theorem threadStep (h : Scheduled idle s) {a : ThreadAction τ} (ha : Allowed idle s a) :
    ∃ s', Kernel.threadStep s a = some s' ∧ Scheduled idle s' := by
  cases a with
  | init t priority tick =>
      obtain ⟨hstat, hpriority, htick⟩ := ha
      refine ⟨_, if_pos hpriority, ?_⟩
      have hout : (s.thread t).stat ≠ .ready := by
        rcases hstat with hstat | hstat
        · exact fun heq => absurd (hstat.symm.trans heq) (by decide)
        · exact fun heq => absurd (hstat.symm.trans heq) (by decide)
      exact (h.stopTimer (t := t)).setThread_out hout (f := fun _ => rtThreadInit priority tick)
        nofun (.inr ⟨rfl, .inl rfl⟩) ⟨hpriority, hpriority⟩ ⟨htick, UInt32.le_refl _⟩
        fun hon => absurd ((Scheduler.timer_setTimer_self s t false).symm.trans hon) (by decide)
  | startup t => exact h.rtThreadStartup ha
  | schedulerStart => exact h.rtSystemSchedulerStart ha.2
  | suspend t => exact ⟨_, rfl, h.rtThreadSuspend ha⟩
  | resume t => exact ⟨_, rfl, h.rtThreadResume t⟩
  | timeout t => exact h.rtThreadTimeout ha.1 ha.2
  | sleep timed => exact h.rtThreadSleep ha.1 ha.2.1 ha.2.2
  | schedule =>
      exact h.rtSchedule ha
  | yield => exact h.rtThreadYield ha
  | control t priority => exact ⟨_, rfl, h.rtThreadControl ha⟩
  | enterCritical =>
      have hlt : s.rtSchedulerLockNest < 32767 := ha
      have hnest := h.nest
      have hbmod : (s.rtSchedulerLockNest + 1).bmod (2 ^ 16) = s.rtSchedulerLockNest + 1 := by
        rw [Int.bmod_eq_of_le] <;> omega
      refine ⟨_, rfl, { h with queued := { h.queued with }, nest := ?_ }⟩
      show 0 ≤ (s.rtSchedulerLockNest + 1).bmod (2 ^ 16) ∧
        (s.rtSchedulerLockNest + 1).bmod (2 ^ 16) ≤ 32767
      rw [hbmod]
      omega
  | exitCritical => exact h.rtExitCritical ha
  | tick => exact h.rtTickIncrease ha
  | exit =>
      obtain ⟨c, hc⟩ := Option.ne_none_iff_exists'.mp ha.1
      refine ⟨_, by rw [Kernel.threadStep, Scheduler.rtThreadExit, hc, Option.map_some], ?_⟩
      exact h.closed fun heq => ha.2 (heq ▸ hc)
  | detach t => exact ⟨_, rfl, h.rtThreadDetach ha⟩

end Scheduled

end Moves

section Runs

variable {τ : Type*} [DecidableEq τ] {idle : τ} {priority : τ → UInt8} {tick : τ → UInt32}
  {as : List (ThreadAction τ)} {s : Scheduler τ}

omit [DecidableEq τ] in
theorem scheduled_start (hpriority : ∀ t, priority t < 32) (htick : ∀ t, 0 < tick t) :
    Scheduled idle (.start priority tick) where
  queued := {
    nodup := fun _ => .nil
    home := nofun
    ready := fun _ _ => ⟨nofun, nofun⟩
    group := fun p => by simp [Scheduler.start]
    mask := fun _ => .inr ⟨rfl, .inl rfl⟩
    below := fun t => ⟨hpriority t, hpriority t⟩ }
  slice t := ⟨htick t, UInt32.le_refl _⟩
  waiting := nofun
  idle hne := absurd rfl hne
  first := nofun
  nest := ⟨Int.le_refl 0, Int.zero_le_ofNat 32767⟩

theorem scheduled_run (hpriority : ∀ t, priority t < 32) (htick : ∀ t, 0 < tick t)
    (h : Run threadStep (Allowed idle) (.start priority tick) as s) : Scheduled idle s :=
  h.invariant (Scheduled idle)
    (fun s a s' hs ha hstep => by
      obtain ⟨s₁, hstep₁, hs₁⟩ := hs.threadStep ha
      exact Option.some.inj (hstep₁.symm.trans hstep) ▸ hs₁)
    (scheduled_start hpriority htick)

/-- What the scheduler is for. -/
structure InOrder (s : Scheduler τ) : Prop where
  listed : ∀ t p, t ∈ s.rtThreadPriorityTable p ↔ (s.thread t).stat = .ready ∧ s.priority t = p
  once : ∀ p, (s.rtThreadPriorityTable p).Nodup
  group : ∀ p, s.rtThreadReadyPriorityGroup.toNat.testBit p = true ↔
    ∃ t, (s.thread t).stat = .ready ∧ s.priority t = p
  timed : ∀ t, s.threadTimer t = true → (s.thread t).stat = .suspend
  /-- The thread that runs is the first one of the highest priority that is ready. -/
  highest : s.pending = false → ∀ c ∈ s.rtCurrentThread, (s.thread c).stat = .ready ∧
    (s.rtThreadPriorityTable (s.priority c)).head? = some c ∧
      ∀ t, (s.thread t).stat = .ready → s.priority c ≤ s.priority t

omit [DecidableEq τ] in
theorem Scheduled.inOrder (h : Scheduled idle s) : InOrder s := by
  have hlisted : ∀ t p, t ∈ s.rtThreadPriorityTable p ↔
      (s.thread t).stat = .ready ∧ s.priority t = p := by
    intro t p
    refine ⟨fun hin => ?_, fun ⟨hready, heq⟩ => heq ▸ (h.queued.ready t nofun).mp hready⟩
    obtain rfl := (h.queued.home t p hin).1
    exact ⟨(h.queued.ready t nofun).mpr hin, rfl⟩
  refine ⟨hlisted, h.queued.nodup, fun p => ?_, h.waiting, fun hpending c hc => ?_⟩
  · rw [h.queued.group p]
    refine ⟨fun hne => ?_, fun ⟨t, ht⟩ => List.ne_nil_of_mem ((hlisted t p).mpr ht)⟩
    obtain ⟨t, ht⟩ := List.exists_mem_of_ne_nil _ hne
    exact ⟨t, (hlisted t p).mp ht⟩
  · obtain ⟨hhead, hempty⟩ := h.first hpending c hc
    have hready := ((hlisted c _).mp (List.mem_of_mem_head? hhead)).1
    refine ⟨hready, hhead, fun t ht => ?_⟩
    by_contra hlt
    have hin := (h.queued.ready t nofun).mp ht
    rw [hempty _ (Nat.not_le.mp hlt)] at hin
    exact List.not_mem_nil hin

end Runs

end Kernel
