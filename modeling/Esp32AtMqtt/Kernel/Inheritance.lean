import Esp32AtMqtt.Kernel.Mutex
import Mathlib.Data.Fintype.Basic

/-!
# Priority inheritance

A thread that waits for a mutex gives its priority to the owner, and the owner's last release
takes it back. This is enough where the list is in the order of the priorities, nobody else
changes these, and no thread takes a mutex while it holds another one: the owner is never behind
a thread that waits for it. With `RT_IPC_FLAG_FIFO` the mutex may be handed to a thread that is
behind another one in the list.

The threads have the priorities `base` as long as they hold nothing.
-/

namespace Kernel

open Transition

variable {μ τ : Type*} [DecidableEq μ] [DecidableEq τ]

/-- A step of a system in which the priorities are changed by the mutexes only, and a thread takes
a mutex only while it holds no other one. -/
def Plain (s : MutexSystem μ τ) : MutexAction μ τ → Prop
  | .take m t _ => s.depth m t < 255 ∧ ∀ m', m' ≠ m → s.depth m' t = 0
  | .control _ _ => False
  | _ => True

instance [Fintype μ] (s : MutexSystem μ τ) (a : MutexAction μ τ) : Decidable (Plain s a) :=
  match a with
  | .take m t _ =>
      inferInstanceAs (Decidable (s.depth m t < 255 ∧ ∀ m', m' ≠ m → s.depth m' t = 0))
  | .release _ _ | .timeout _ => isTrue trivial
  | .control _ _ => isFalse fun h => h

/-- The owner of a mutex runs at least as urgently as all who wait for it, and a thread that holds
nothing runs at its own priority. -/
structure Inherits (base : τ → UInt8) (s : MutexSystem μ τ) : Prop where
  urgent : ∀ m o w, 0 < s.depth m o → s.tlist w = some m → s.priority o ≤ base w
  raised : ∀ t, s.priority t ≤ base t
  restored : ∀ t, (∀ m, s.depth m t = 0) → s.priority t = base t
  /-- The next owner is one of the highest priority. -/
  next : ∀ m w ws, (s.mutex m).suspendThread = w :: ws → ∀ u ∈ ws, base w ≤ base u

/-- What one mutex needs for it. -/
structure MutexInherits (base : τ → UInt8) (x : RtMutex τ) (priority : τ → UInt8) : Prop where
  flag : x.flag = .prio
  original : ∀ o, x.owner = some o → x.originalPriority = base o
  urgent : ∀ o, x.owner = some o → ∀ w ∈ x.suspendThread, priority o ≤ base w
  sorted : ByPriority base x.suspendThread

/-- What the threads need for it. -/
structure ThreadsInherit (base : τ → UInt8) (s : MutexSystem μ τ) : Prop where
  raised : ∀ t, s.priority t ≤ base t
  restored : ∀ t, (∀ m, s.depth m t = 0) → s.priority t = base t
  single : ∀ m m' t, 0 < s.depth m t → 0 < s.depth m' t → m = m'
  idle : ∀ m m' t, s.tlist t = some m → s.depth m' t = 0

structure Inheriting (base : τ → UInt8) (s : MutexSystem μ τ) : Prop where
  excludes : Excludes s
  mutexes : ∀ m, MutexInherits base (s.mutex m) s.priority
  threads : ThreadsInherit base s

omit [DecidableEq τ] in
/-- The priorities matter at the owner only. -/
theorem MutexInherits.congr {base : τ → UInt8} {x : RtMutex τ} {priority priority' : τ → UInt8}
    (h : MutexInherits base x priority)
    (heq : ∀ o, x.owner = some o → priority' o = priority o) : MutexInherits base x priority' where
  flag := h.flag
  original := h.original
  urgent o ho w hw := heq o ho ▸ h.urgent o ho w hw
  sorted := h.sorted

namespace Inheriting

variable {base : τ → UInt8} {s s' : MutexSystem μ τ}

omit [DecidableEq τ] in
/-- A step that changes the mutex `m`, and the priorities of threads that own no other one. -/
theorem mutexes_update (h : Inheriting base s) {m : μ} {x : RtMutex τ}
    (hmutex : s'.mutex = Function.update s.mutex m x) (hx : MutexInherits base x s'.priority)
    (hother : ∀ m' o, m' ≠ m → (s.mutex m').owner = some o → s'.priority o = s.priority o)
    (m' : μ) : MutexInherits base (s'.mutex m') s'.priority := by
  by_cases hm : m' = m
  · subst hm
    rw [hmutex, Function.update_self]
    exact hx
  · rw [hmutex, Function.update_of_ne hm]
    exact (h.mutexes m').congr fun o ho => hother m' o hm ho

/-- The history of the mutex `m` at the thread `t` changes, where `m` is all that `t` may hold, and
with it the priority of `t`. -/
theorem threads_update (h : Inheriting base s) {m : μ} {t : τ} {n : ℕ}
    (hdepth : s'.depth = Function.update s.depth m (Function.update (s.depth m) t n))
    (htlist : s'.tlist = s.tlist) (ht : s.tlist t = none) (honly : ∀ m', m' ≠ m → s.depth m' t = 0)
    (hpriority : ∀ u, u ≠ t → s'.priority u = s.priority u) (hraised : s'.priority t ≤ base t)
    (hrestored : n = 0 → s'.priority t = base t) : ThreadsInherit base s' := by
  have hof : ∀ m' u, u ≠ t → s'.depth m' u = s.depth m' u := by
    intro m' u hu
    rw [hdepth]
    by_cases hm : m' = m
    · rw [hm, Function.update_self, Function.update_of_ne hu]
    · rw [Function.update_of_ne hm]
  have hself : ∀ m', 0 < s'.depth m' t → m' = m := by
    intro m' hpos
    by_contra hm
    rw [hdepth, Function.update_of_ne hm, honly m' hm] at hpos
    exact Nat.lt_irrefl 0 hpos
  refine ⟨fun u => ?_, fun u hu => ?_, fun m₁ m₂ u h₁ h₂ => ?_, fun m₁ m₂ u hu => ?_⟩
  · by_cases hut : u = t
    · exact hut ▸ hraised
    · exact hpriority u hut ▸ h.threads.raised u
  · by_cases hut : u = t
    · subst hut
      refine hrestored ?_
      have hm := hu m
      rwa [hdepth, Function.update_self, Function.update_self] at hm
    · rw [hpriority u hut]
      exact h.threads.restored u fun m' => hof m' u hut ▸ hu m'
  · by_cases hut : u = t
    · subst hut
      rw [hself m₁ h₁, hself m₂ h₂]
    · exact h.threads.single m₁ m₂ u (hof m₁ u hut ▸ h₁) (hof m₂ u hut ▸ h₂)
  · rw [htlist] at hu
    have hut : u ≠ t := fun heq => by
      rw [heq, ht] at hu
      exact absurd hu.symm (Option.some_ne_none _)
    rw [hof m₂ u hut]
    exact h.threads.idle m₁ m₂ u hu

omit [DecidableEq μ] [DecidableEq τ] in
/-- Whoever owns a mutex holds no other one. -/
theorem only (h : Inheriting base s) {m : μ} {o : τ} (ho : (s.mutex m).owner = some o) (m' : μ)
    (hm : m' ≠ m) : s.depth m' o = 0 := by
  by_contra hne
  exact hm (h.threads.single m' m o (Nat.pos_of_ne_zero hne)
    (((h.excludes.ok m).owner o).mp ho))

omit [DecidableEq μ] [DecidableEq τ] in
/-- The owners of two mutexes are two threads. -/
theorem owner_ne (h : Inheriting base s) {m m' : μ} {o t : τ} (hm : m' ≠ m)
    (ho : (s.mutex m').owner = some o) (ht : (s.mutex m).owner = some t) : o ≠ t := by
  rintro rfl
  have hzero := h.only ht m' hm
  have hpos := ((h.excludes.ok m').owner o).mp ho
  omega

omit [DecidableEq μ] [DecidableEq τ] in
/-- A thread that waits has its own priority. -/
theorem waiting (h : Inheriting base s) {m : μ} {w : τ} (hw : w ∈ (s.mutex m).suspendThread) :
    s.priority w = base w :=
  h.threads.restored w fun m' => h.threads.idle m m' w ((h.excludes.linked m w).mp hw)

/-- A thread begins to wait. -/
theorem wait (h : Inheriting base s) {m : μ} {t o : τ} {time : ℤ} (ht : s.tlist t = none)
    (honly : ∀ m', m' ≠ m → s.depth m' t = 0) (howner : (s.mutex m).owner = some o) (hne : o ≠ t)
    {priority : τ → UInt8}
    (hpriority : priority = if s.priority t < s.priority o
      then Function.update s.priority o (s.priority t) else s.priority)
    (hs' : s' = (s.set m { s.mutex m with
      suspendThread := rtIpcListSuspend (s.mutex m).flag priority (s.mutex m).suspendThread t }
      priority).suspend m t time) :
    (∀ m', MutexInherits base (s'.mutex m') s'.priority) ∧ ThreadsInherit base s' := by
  have hm := h.excludes.ok m
  have hzero : ∀ m', s.depth m' t = 0 := by
    intro m'
    by_cases heq : m' = m
    · rw [heq]
      exact hm.depth_eq_zero fun hsome => hne (Option.some.inj (howner.symm.trans hsome))
    · exact honly m' heq
  have htbase : s.priority t = base t := h.threads.restored t hzero
  -- only the owner gets another priority, and one that is not lower
  have hother : ∀ u, u ≠ o → priority u = s.priority u := by
    intro u hu
    rw [hpriority]
    split_ifs with hlt
    · exact Function.update_of_ne hu _ _
    · rfl
  have hle : priority o ≤ s.priority o ∧ priority o ≤ s.priority t := by
    rw [hpriority]
    split_ifs with hlt
    · rw [Function.update_self]
      exact ⟨UInt8.le_of_lt hlt, UInt8.le_refl _⟩
    · exact ⟨UInt8.le_refl _, UInt8.not_lt.mp hlt⟩
  have hlist : rtIpcListSuspend .prio priority (s.mutex m).suspendThread t =
      rtIpcListSuspend .prio base (s.mutex m).suspendThread t := by
    refine rtIpcListSuspend_congr .prio (by rw [hother t hne.symm, htbase]) fun u hu => ?_
    have huo : u ≠ o := fun heq => hm.running o howner (heq ▸ hu)
    rw [hother u huo, h.waiting hu]
  have hlocal := h.mutexes m
  rw [hs']
  refine ⟨h.mutexes_update rfl ⟨hlocal.flag, hlocal.original, fun u hu w hw => ?_, ?_⟩
    fun m' u hm' hu => hother u (h.owner_ne hm' hu howner), ?_⟩
  · obtain rfl : o = u := Option.some.inj (howner.symm.trans hu)
    rcases mem_rtIpcListSuspend.mp hw with rfl | hw
    · exact htbase ▸ hle.2
    · exact UInt8.le_trans hle.1 (hlocal.urgent o howner w hw)
  · show ByPriority base (rtIpcListSuspend (s.mutex m).flag priority (s.mutex m).suspendThread t)
    rw [hlocal.flag, hlist]
    exact hlocal.sorted.suspend t
  · refine ⟨fun u => ?_, fun u hu => ?_, h.threads.single, fun m₁ m₂ u hu => ?_⟩
    · by_cases huo : u = o
      · exact UInt8.le_trans (huo ▸ hle.1) (huo ▸ h.threads.raised o)
      · show priority u ≤ base u
        rw [hother u huo]
        exact h.threads.raised u
    · have huo : u ≠ o := by
        rintro rfl
        have hpos := (hm.owner u).mp howner
        have hz : s.depth m u = 0 := hu m
        omega
      exact (hother u huo).trans (h.threads.restored u hu)
    · by_cases hut : u = t
      · exact hut ▸ hzero m₂
      · refine h.threads.idle m₁ m₂ u ?_
        simpa [MutexSystem.suspend, MutexSystem.set, hut] using hu

/-- The last release hands the mutex over. -/
theorem handOver (h : Inheriting base s) {m : μ} {t w : τ} {ws : List τ}
    (howner : (s.mutex m).owner = some t) (hhold : (s.mutex m).hold - 1 = 0)
    (hlist : (s.mutex m).suspendThread = w :: ws) (ht : s.tlist t = none) {p : UInt8}
    (hp : p = Function.update s.priority t (s.mutex m).originalPriority w)
    (hs' : s' = (((s.set m { s.mutex m with
      owner := some w, originalPriority := p, hold := (s.mutex m).hold - 1 + 1,
      suspendThread := ws } (Function.update s.priority t (s.mutex m).originalPriority)).lessen
        m t).deepen m w).resume w) :
    (∀ m', MutexInherits base (s'.mutex m') s'.priority) ∧ ThreadsInherit base s' := by
  have hm := h.excludes.ok m
  have hlocal := h.mutexes m
  have hwmem : w ∈ (s.mutex m).suspendThread := by simp [hlist]
  have hwt : w ≠ t := fun heq => hm.running t howner (heq ▸ hwmem)
  have hwzero : ∀ m', s.depth m' w = 0 := fun m' =>
    h.threads.idle m m' w ((h.excludes.linked m w).mp hwmem)
  have hone : s.depth m t = 1 := hm.depth_eq_one howner hhold
  have hsorted : ByPriority base (w :: ws) := hlist ▸ hlocal.sorted
  -- `w` holds `m` and nothing else, and `t` holds nothing
  have hdepth : ∀ m' u, s'.depth m' u =
      if u = w then (if m' = m then 1 else 0) else if u = t then 0 else s.depth m' u := by
    intro m' u
    rw [hs']
    by_cases hmm : m' = m
    · subst hmm
      by_cases huw : u = w
      · simp [MutexSystem.resume, MutexSystem.deepen, MutexSystem.lessen, MutexSystem.set, huw,
          hwt, hwzero]
      · by_cases hut : u = t
        · subst hut
          simp [MutexSystem.resume, MutexSystem.deepen, MutexSystem.lessen, MutexSystem.set, huw,
            hone]
        · simp [MutexSystem.resume, MutexSystem.deepen, MutexSystem.lessen, MutexSystem.set, huw,
            hut]
    · have htzero := h.only howner m' hmm
      simp only [MutexSystem.resume, MutexSystem.deepen, MutexSystem.lessen, MutexSystem.set,
        Function.update_of_ne hmm, if_neg hmm]
      split_ifs with huw hut
      · exact huw ▸ hwzero m'
      · exact hut ▸ htzero
      · rfl
  have hpriority : s'.priority = Function.update s.priority t (base t) := by
    rw [hs', ← hlocal.original t howner]
    rfl
  have hwbase : s'.priority w = base w := by
    rw [hpriority, Function.update_of_ne hwt, h.waiting hwmem]
  have htlist : ∀ u m', s'.tlist u = some m' → u ≠ w ∧ s.tlist u = some m' := by
    intro u m' hu
    rw [hs'] at hu
    by_cases huw : u = w
    · simp [MutexSystem.resume, huw] at hu
    · refine ⟨huw, ?_⟩
      simpa [MutexSystem.resume, MutexSystem.deepen, MutexSystem.lessen, MutexSystem.set, huw]
        using hu
  have hmutex : s'.mutex = Function.update s.mutex m { s.mutex m with
      owner := some w, originalPriority := p, hold := (s.mutex m).hold - 1 + 1,
      suspendThread := ws } := by
    rw [hs']
    rfl
  constructor
  · refine h.mutexes_update hmutex ⟨hlocal.flag, fun o ho => ?_, fun o ho u hu => ?_, ?_⟩
      fun m' o hm' ho => ?_
    · obtain rfl : w = o := Option.some.inj ho
      show p = base w
      rw [hp, Function.update_of_ne hwt, h.waiting hwmem]
    · obtain rfl : w = o := Option.some.inj ho
      rw [hwbase]
      exact hsorted.head_le hu
    · exact hsorted.sublist (List.sublist_cons_self w ws)
    · rw [hpriority, Function.update_of_ne (h.owner_ne hm' ho howner)]
  · refine ⟨fun u => ?_, fun u hu => ?_, fun m₁ m₂ u h₁ h₂ => ?_, fun m₁ m₂ u hu => ?_⟩
    · rw [hpriority]
      by_cases hut : u = t
      · rw [hut, Function.update_self]
        exact UInt8.le_refl _
      · rw [Function.update_of_ne hut]
        exact h.threads.raised u
    · rw [hpriority]
      by_cases hut : u = t
      · rw [hut, Function.update_self]
      · have huw : u ≠ w := fun heq => by simpa [hdepth, heq] using hu m
        rw [Function.update_of_ne hut]
        exact h.threads.restored u fun m' => by simpa [hdepth, huw, hut] using hu m'
    · rw [hdepth] at h₁ h₂
      by_cases huw : u = w
      · rw [if_pos huw] at h₁ h₂
        have hof : ∀ m', 0 < (if m' = m then 1 else 0) → m' = m := fun m' hpos => by
          by_contra hne
          simp [hne] at hpos
        rw [hof m₁ h₁, hof m₂ h₂]
      · rw [if_neg huw] at h₁ h₂
        by_cases hut : u = t
        · simp [hut] at h₁
        · rw [if_neg hut] at h₁ h₂
          exact h.threads.single m₁ m₂ u h₁ h₂
    · obtain ⟨huw, hold⟩ := htlist u m₁ hu
      have hut : u ≠ t := fun heq => by
        rw [heq, ht] at hold
        exact absurd hold.symm (Option.some_ne_none _)
      rw [hdepth, if_neg huw, if_neg hut]
      exact h.threads.idle m₁ m₂ u hold

/-- The invariant is kept by every plain step. -/
theorem step (h : Inheriting base s) {a : MutexAction μ τ} (hplain : Plain s a)
    (hstep : mutexStep s a = some s') : Inheriting base s' := by
  have hshallow : Shallow s a := by
    cases a with
    | take m t time => exact hplain.1
    | release m t => trivial
    | timeout t => trivial
    | control t p => trivial
  suffices hrest : (∀ m, MutexInherits base (s'.mutex m) s'.priority) ∧ ThreadsInherit base s'
    from ⟨h.excludes.step hshallow hstep, hrest.1, hrest.2⟩
  cases a with
  | take m t time =>
      obtain ⟨ht, hstep⟩ : s.tlist t = none ∧ _ := Option.ite_none_right_eq_some.mp hstep
      obtain ⟨r, hr, hcase⟩ := (h.excludes.ok m).take s.priority t time
      rw [hr, Option.map_some] at hstep
      have hlocal := h.mutexes m
      cases hcase with
      | nested howner =>
          obtain rfl := Option.some.inj hstep
          exact ⟨h.mutexes_update rfl ⟨hlocal.flag, hlocal.original, hlocal.urgent, hlocal.sorted⟩
              fun _ _ _ _ => rfl,
            h.threads_update rfl rfl ht hplain.2 (fun _ _ => rfl) (h.threads.raised t)
              fun hz => absurd hz (Nat.succ_ne_zero _)⟩
      | acquired hfree =>
          obtain rfl := Option.some.inj hstep
          have hlist := ((h.excludes.ok m).free hfree).2.2
          have hzero : ∀ m', s.depth m' t = 0 := by
            intro m'
            by_cases hm : m' = m
            · rw [hm]
              exact (h.excludes.ok m).depth_eq_zero (by simp [hfree])
            · exact hplain.2 m' hm
          refine ⟨h.mutexes_update rfl ⟨hlocal.flag, fun o ho => ?_, fun o ho w hw => ?_,
              hlocal.sorted⟩ fun _ _ _ _ => rfl,
            h.threads_update rfl rfl ht hplain.2 (fun _ _ => rfl) (h.threads.raised t)
              fun hz => absurd hz (Nat.succ_ne_zero _)⟩
          · obtain rfl : t = o := Option.some.inj ho
            exact h.threads.restored t hzero
          · exact absurd hw (by simp [hlist])
      | refused howner hne htime =>
          obtain rfl := Option.some.inj hstep
          exact ⟨h.mutexes_update rfl hlocal fun _ _ _ _ => rfl,
            ⟨h.threads.raised, h.threads.restored, h.threads.single, h.threads.idle⟩⟩
      | waits howner hne hpriority =>
          obtain rfl := Option.some.inj hstep
          exact h.wait ht hplain.2 howner hne hpriority rfl
  | release m t =>
      obtain ⟨ht, hstep⟩ : s.tlist t = none ∧ _ := Option.ite_none_right_eq_some.mp hstep
      have hcase := rtMutexRelease_cases (s.mutex m) s.priority t
      generalize rtMutexRelease (s.mutex m) s.priority t = r at hcase hstep
      have hlocal := h.mutexes m
      cases hcase with
      | refused howner =>
          obtain rfl := Option.some.inj hstep
          exact ⟨h.mutexes_update rfl hlocal fun _ _ _ _ => rfl,
            ⟨h.threads.raised, h.threads.restored, h.threads.single, h.threads.idle⟩⟩
      | unnested howner hhold =>
          obtain rfl := Option.some.inj hstep
          have hpos := ((h.excludes.ok m).unnest howner hhold).owner t
          rw [Function.update_self] at hpos
          refine ⟨h.mutexes_update rfl ⟨hlocal.flag, hlocal.original, hlocal.urgent,
              hlocal.sorted⟩ fun _ _ _ _ => rfl,
            h.threads_update rfl rfl ht (h.only howner) (fun _ _ => rfl) (h.threads.raised t)
              fun hz => ?_⟩
          exact absurd hz (Nat.ne_of_gt (hpos.mp howner))
      | handedOver howner hhold hlist p hp =>
          obtain rfl := Option.some.inj hstep
          exact h.handOver howner hhold hlist ht hp rfl
      | unlocked howner hhold hlist =>
          obtain rfl := Option.some.inj hstep
          have hself : Function.update s.priority t (s.mutex m).originalPriority t = base t := by
            rw [Function.update_self, hlocal.original t howner]
          have hnone : ∀ o : τ, none ≠ some o := fun o heq => Option.some_ne_none o heq.symm
          exact ⟨h.mutexes_update rfl ⟨hlocal.flag, fun o ho => absurd ho (hnone o),
              fun o ho => absurd ho (hnone o), hlocal.sorted⟩ fun m' o hm ho =>
                Function.update_of_ne (h.owner_ne hm ho howner) _ _,
            h.threads_update rfl rfl ht (h.only howner)
              (fun u hu => Function.update_of_ne hu _ _) (hself ▸ UInt8.le_refl _) fun _ => hself⟩
  | timeout t =>
      simp only [mutexStep] at hstep
      cases ht : s.tlist t with
      | none => simp [ht] at hstep
      | some m =>
          rw [ht] at hstep
          obtain ⟨-, hstep⟩ : s.timer t = true ∧ _ := Option.ite_none_right_eq_some.mp hstep
          obtain rfl := Option.some.inj hstep
          have hlocal := h.mutexes m
          refine ⟨h.mutexes_update rfl ⟨hlocal.flag, hlocal.original,
              fun o ho w hw => hlocal.urgent o ho w (List.mem_of_mem_erase hw),
              hlocal.sorted.sublist List.erase_sublist⟩ fun _ _ _ _ => rfl,
            ⟨h.threads.raised, h.threads.restored, h.threads.single, fun m₁ m₂ u hu => ?_⟩⟩
          by_cases hut : u = t
          · exact absurd hu (by simp [MutexSystem.resume, hut])
          · refine h.threads.idle m₁ m₂ u ?_
            simpa [MutexSystem.resume, MutexSystem.set, hut] using hu
  | control t p => exact absurd hplain (fun h => h)

omit [DecidableEq μ] [DecidableEq τ] in
theorem inherits (h : Inheriting base s) : Inherits base s where
  urgent m o w ho hw := (h.mutexes m).urgent o (((h.excludes.ok m).owner o).mpr ho) w
    ((h.excludes.linked m w).mpr hw)
  raised := h.threads.raised
  restored := h.threads.restored
  next m w ws hlist u hu := by
    have hsorted : ByPriority base (w :: ws) := hlist ▸ (h.mutexes m).sorted
    exact hsorted.head_le hu

end Inheriting

omit [DecidableEq μ] [DecidableEq τ] in
theorem inheriting_init (base : τ → UInt8) :
    Inheriting base (mutexInit (fun _ : μ => .prio) base) where
  excludes := excludes_init _ base
  mutexes _ := ⟨rfl, fun o h => absurd h.symm (Option.some_ne_none o),
    fun o h => absurd h.symm (Option.some_ne_none o), List.Pairwise.nil⟩
  threads := ⟨fun _ => UInt8.le_refl _, fun _ _ => rfl,
    fun _ _ _ h => absurd h (Nat.lt_irrefl 0), fun _ _ _ _ => rfl⟩

/-- Three threads, the first one of the lowest priority. -/
def threePriorities : Fin 3 → UInt8
  | 0 => 20
  | 1 => 10
  | 2 => 5

end Kernel
