import Esp32AtMqtt.Kernel.Ipc
import Esp32AtMqtt.Transition.Run

/-!
# Mutexes of the kernel

The recursive mutex of `src/ipc.c`, which the AT client, the sockets and the OneNet parameters are
locked with. A thread that finds it taken raises the priority of the owner to its own and is
suspended; the owner's last release hands the mutex to the first thread of the list.

The system has any number of mutexes and threads. Its steps are the calls of the threads that are
not suspended, the thread timers, and changes of a thread's priority from elsewhere. `depth` is
history: the calls of `rt_mutex_take` that returned `RT_EOK`, less the releases that did.
-/

namespace Kernel

open Transition

variable {μ τ : Type*} [DecidableEq μ] [DecidableEq τ]

/-- `struct rt_mutex`. -/
structure RtMutex (τ : Type*) where
  flag : IpcFlag
  value : UInt16
  originalPriority : UInt8
  hold : UInt8
  owner : Option τ
  suspendThread : List τ
  deriving DecidableEq, Repr

/-- `rt_mutex_create(name, flag)` when it succeeds. -/
def rtMutexCreate (flag : IpcFlag) : RtMutex τ := ⟨flag, 1, 0xff, 0, none, []⟩

/-- What a call of `rt_mutex_take` comes to. -/
inductive TakeResult
  | ok
  | timeout
  | suspended
  deriving DecidableEq, Repr

/-- `rt_mutex_take(mutex, time)` by the thread `t`, up to where it returns or is suspended: the
mutex, the priorities of the threads, and the result. `none` when the owner is dereferenced
although there is none. -/
def rtMutexTake (x : RtMutex τ) (priority : τ → UInt8) (t : τ) (time : ℤ) :
    Option (RtMutex τ × (τ → UInt8) × TakeResult) :=
  if x.owner = some t then some ({ x with hold := x.hold + 1 }, priority, .ok)
  else if 0 < x.value then
    some ({ x with
      value := x.value - 1
      owner := some t
      originalPriority := priority t
      hold := x.hold + 1 }, priority, .ok)
  else if time = 0 then some (x, priority, .timeout)
  else x.owner.map fun owner =>
    let priority :=
      if priority t < priority owner then Function.update priority owner (priority t)
      else priority
    ({ x with suspendThread := rtIpcListSuspend x.flag priority x.suspendThread t }, priority,
      .suspended)

/-- What a call of `rt_mutex_release` comes to. With `ok` is the thread that is resumed. -/
inductive ReleaseResult (τ : Type*)
  | error
  | ok (next : Option τ)
  deriving DecidableEq, Repr

/-- `rt_mutex_release(mutex)` by the thread `t`. -/
def rtMutexRelease (x : RtMutex τ) (priority : τ → UInt8) (t : τ) :
    RtMutex τ × (τ → UInt8) × ReleaseResult τ :=
  if x.owner = some t then
    let hold := x.hold - 1
    if hold = 0 then
      let priority :=
        if x.originalPriority ≠ priority t then Function.update priority t x.originalPriority
        else priority
      match x.suspendThread with
      | w :: ws =>
          ({ x with
            owner := some w
            originalPriority := priority w
            hold := hold + 1
            suspendThread := ws }, priority, .ok (some w))
      | [] =>
          ({ x with
            value := x.value + 1
            owner := none
            originalPriority := 0xff
            hold := hold }, priority, .ok none)
    else ({ x with hold := hold }, priority, .ok none)
  else (x, priority, .error)

/-- The mutexes and the threads. `tlist` is the mutex whose list a thread is in, and `timer` says
whether its timer runs. -/
structure MutexSystem (μ τ : Type*) where
  mutex : μ → RtMutex τ
  priority : τ → UInt8
  tlist : τ → Option μ
  timer : τ → Bool
  depth : μ → τ → ℕ

inductive MutexAction (μ τ : Type*)
  | take (m : μ) (t : τ) (time : ℤ)
  | release (m : μ) (t : τ)
  | timeout (t : τ)
  | control (t : τ) (priority : UInt8)

namespace MutexSystem

/-- A call of `rt_mutex_take` by `t` has returned, or is going to return, `RT_EOK`. -/
def deepen (s : MutexSystem μ τ) (m : μ) (t : τ) : MutexSystem μ τ :=
  { s with
    depth := Function.update s.depth m (Function.update (s.depth m) t (s.depth m t + 1)) }

/-- A call of `rt_mutex_release` by `t` has returned `RT_EOK`. -/
def lessen (s : MutexSystem μ τ) (m : μ) (t : τ) : MutexSystem μ τ :=
  { s with
    depth := Function.update s.depth m (Function.update (s.depth m) t (s.depth m t - 1)) }

/-- `rt_thread_resume` of a thread that is out of the list: its timer is stopped. -/
def resume (s : MutexSystem μ τ) (t : τ) : MutexSystem μ τ :=
  { s with
    tlist := Function.update s.tlist t none
    timer := Function.update s.timer t false }

/-- `rt_thread_suspend`, and the start of the thread timer for a waiting time that ends. -/
def suspend (s : MutexSystem μ τ) (m : μ) (t : τ) (time : ℤ) : MutexSystem μ τ :=
  { s with
    tlist := Function.update s.tlist t (some m)
    timer := Function.update s.timer t (decide (0 < time)) }

def set (s : MutexSystem μ τ) (m : μ) (x : RtMutex τ) (priority : τ → UInt8) :
    MutexSystem μ τ :=
  { s with mutex := Function.update s.mutex m x, priority := priority }

end MutexSystem

/-- One step. A thread that is suspended makes no call. -/
def mutexStep (s : MutexSystem μ τ) : MutexAction μ τ → Option (MutexSystem μ τ)
  | .take m t time =>
      if s.tlist t = none then
        (rtMutexTake (s.mutex m) s.priority t time).map fun r =>
          match r.2.2 with
          | .ok => (s.set m r.1 r.2.1).deepen m t
          | .timeout => s.set m r.1 r.2.1
          | .suspended => (s.set m r.1 r.2.1).suspend m t time
      else none
  | .release m t =>
      if s.tlist t = none then
        let r := rtMutexRelease (s.mutex m) s.priority t
        match r.2.2 with
        | .error => some (s.set m r.1 r.2.1)
        | .ok none => some ((s.set m r.1 r.2.1).lessen m t)
        | .ok (some w) => some ((((s.set m r.1 r.2.1).lessen m t).deepen m w).resume w)
      else none
  | .timeout t =>
      match s.tlist t with
      | some m =>
          if s.timer t then
            let x := s.mutex m
            some ((s.set m { x with suspendThread := x.suspendThread.erase t } s.priority).resume t)
          else none
      | none => none
  | .control t priority => some { s with priority := Function.update s.priority t priority }

/-- The mutexes behind `rt_mutex_create`, and threads of which none is suspended. -/
def mutexInit (flag : μ → IpcFlag) (priority : τ → UInt8) : MutexSystem μ τ :=
  ⟨fun m => rtMutexCreate (flag m), priority, fun _ => none, fun _ => false, fun _ _ => 0⟩

/-- A thread does not take a mutex it already holds 255 times: `hold` has 8 bits. -/
def Shallow (s : MutexSystem μ τ) : MutexAction μ τ → Prop
  | .take m t _ => s.depth m t < 255
  | _ => True

instance (s : MutexSystem μ τ) (a : MutexAction μ τ) : Decidable (Shallow s a) :=
  match a with
  | .take m t _ => inferInstanceAs (Decidable (s.depth m t < 255))
  | .release _ _ | .timeout _ | .control _ _ => isTrue trivial

/-! ## What the mutexes guarantee -/

/-- A mutex has one holder at most. -/
structure MutuallyExclusive (s : MutexSystem μ τ) : Prop where
  exclusive : ∀ m t t', 0 < s.depth m t → 0 < s.depth m t' → t = t'
  /-- The owner is who has taken the mutex more often than released it, and `hold` says by how
  much. -/
  owner : ∀ m t, (s.mutex m).owner = some t ↔ 0 < s.depth m t
  hold : ∀ m t, (s.mutex m).owner = some t → (s.mutex m).hold.toNat = s.depth m t
  /-- Who waits for a mutex is in its list and in no other, and somebody else holds it. -/
  waiting : ∀ m t, t ∈ (s.mutex m).suspendThread ↔ s.tlist t = some m
  held : ∀ m t, s.tlist t = some m → ∃ o, o ≠ t ∧ 0 < s.depth m o
  /-- No call dereferences an owner that is not there. -/
  defined : ∀ m t time, s.tlist t = none → (mutexStep s (.take m t time)).isSome

/-! ## One mutex -/

/-- The fields of a mutex agree with each other, and with how often each thread holds it. -/
structure MutexOk (x : RtMutex τ) (depth : τ → ℕ) : Prop where
  free : x.owner = none → x.value = 1 ∧ x.hold = 0 ∧ x.suspendThread = []
  taken : ∀ t, x.owner = some t → x.value = 0
  owner : ∀ t, x.owner = some t ↔ 0 < depth t
  hold : ∀ t, x.owner = some t → x.hold.toNat = depth t
  nodup : x.suspendThread.Nodup
  running : ∀ t, x.owner = some t → t ∉ x.suspendThread

omit [DecidableEq τ] in
theorem mutexOk_create (flag : IpcFlag) :
    MutexOk (rtMutexCreate flag : RtMutex τ) (fun _ => 0) where
  free _ := ⟨rfl, rfl, rfl⟩
  taken t h := absurd h.symm (Option.some_ne_none t)
  owner t := ⟨fun h => absurd h.symm (Option.some_ne_none t),
    fun h => absurd h (Nat.lt_irrefl 0)⟩
  hold t h := absurd h.symm (Option.some_ne_none t)
  nodup := List.nodup_nil
  running _ _ := List.not_mem_nil

namespace MutexOk

variable {x : RtMutex τ} {depth : τ → ℕ} {t w : τ}

omit [DecidableEq τ] in
theorem depth_eq_zero (h : MutexOk x depth) (ht : x.owner ≠ some t) : depth t = 0 :=
  Nat.eq_zero_of_not_pos fun hpos => ht ((h.owner t).mpr hpos)

omit [DecidableEq τ] in
/-- A positive `value` says that there is no owner. -/
theorem value_pos_iff (h : MutexOk x depth) : 0 < x.value ↔ x.owner = none := by
  cases howner : x.owner with
  | none => simp [(h.free howner).1]
  | some o => simp [h.taken o howner]

/-- The owner changes, or its depth does, and nothing else about who holds the mutex. -/
theorem owner_update (h : MutexOk x depth) (hrest : ∀ u, u ≠ t → x.owner ≠ some u) {n : ℕ}
    (hn : 0 < n) (u : τ) : some t = some u ↔ 0 < Function.update depth t n u := by
  by_cases hu : u = t
  · subst hu
    simp [hn]
  · rw [Function.update_of_ne hu, h.depth_eq_zero (hrest u hu)]
    simp [Ne.symm hu]

theorem nest (h : MutexOk x depth) (ht : x.owner = some t) (hdepth : depth t < 255) :
    MutexOk { x with hold := x.hold + 1 } (Function.update depth t (depth t + 1)) where
  free hnone := absurd (ht.symm.trans hnone) (Option.some_ne_none t)
  taken := h.taken
  owner u := by
    have hrest : ∀ u, u ≠ t → x.owner ≠ some u := fun u hu heq =>
      hu (Option.some.inj (heq.symm.trans ht))
    rw [← h.owner_update hrest (Nat.succ_pos (depth t)), ← ht]
  hold u hu := by
    obtain rfl : t = u := Option.some.inj (ht.symm.trans hu)
    have hold := h.hold t ht
    rw [Function.update_self, UInt8.toNat_add]
    simp only [UInt8.reduceToNat]
    omega
  nodup := h.nodup
  running := h.running

theorem acquire (h : MutexOk x depth) (hfree : x.owner = none) (t : τ) (p : UInt8) :
    MutexOk { x with value := x.value - 1, owner := some t, originalPriority := p,
                     hold := x.hold + 1 } (Function.update depth t (depth t + 1)) := by
  obtain ⟨hvalue, hhold, hlist⟩ := h.free hfree
  refine ⟨fun hnone => absurd hnone (Option.some_ne_none t), fun u _ => by simp [hvalue],
    h.owner_update (fun u _ => by simp [hfree]) (Nat.succ_pos _), fun u hu => ?_, h.nodup,
    fun u _ => by simp [hlist]⟩
  obtain rfl : t = u := Option.some.inj hu
  have hzero : depth t = 0 := h.depth_eq_zero (by simp [hfree])
  simp [hhold, hzero]

omit [DecidableEq τ] in
theorem wait (h : MutexOk x depth) (howner : x.owner = some w) (ht : x.owner ≠ some t)
    (hlist : t ∉ x.suspendThread) (priority : τ → UInt8) :
    MutexOk { x with suspendThread := rtIpcListSuspend x.flag priority x.suspendThread t }
      depth where
  free hnone := absurd (howner.symm.trans hnone) (Option.some_ne_none w)
  taken := h.taken
  owner := h.owner
  hold := h.hold
  nodup := nodup_rtIpcListSuspend x.flag priority h.nodup hlist
  running u hu := by
    rw [mem_rtIpcListSuspend, not_or]
    exact ⟨fun heq => ht (heq ▸ hu), h.running u hu⟩

/-- A release that is not the last one. -/
theorem unnest (h : MutexOk x depth) (ht : x.owner = some t) (hhold : x.hold - 1 ≠ 0) :
    MutexOk { x with hold := x.hold - 1 } (Function.update depth t (depth t - 1)) := by
  have hdepth := h.hold t ht
  have hpos := (h.owner t).mp ht
  have hone : (1 : UInt8) ≤ x.hold := by
    rw [UInt8.le_iff_toNat_le]
    simp only [UInt8.reduceToNat]
    omega
  have hsub : (x.hold - 1).toNat = depth t - 1 := by
    rw [UInt8.toNat_sub_of_le _ _ hone, hdepth]
    rfl
  have hne : depth t - 1 ≠ 0 := fun hz => hhold (UInt8.toNat_inj.mp (by rw [hsub, hz]; rfl))
  have hrest : ∀ u, u ≠ t → x.owner ≠ some u := fun u hu heq =>
    hu (Option.some.inj (heq.symm.trans ht))
  refine ⟨fun hnone => absurd (ht.symm.trans hnone) (Option.some_ne_none t), h.taken,
    fun u => ?_, fun u hu => ?_, h.nodup, h.running⟩
  · rw [← h.owner_update hrest (Nat.pos_of_ne_zero hne), ← ht]
  · obtain rfl : t = u := Option.some.inj (ht.symm.trans hu)
    rw [Function.update_self, hsub]

omit [DecidableEq τ] in
/-- The depth of the owner at its last release. -/
theorem depth_eq_one (h : MutexOk x depth) (ht : x.owner = some t) (hhold : x.hold - 1 = 0) :
    depth t = 1 := by
  have hone : x.hold = 1 := by
    have hback : x.hold = x.hold - 1 + 1 := (UInt8.sub_add_cancel x.hold 1).symm
    rw [hback, hhold]
    rfl
  rw [← h.hold t ht, hone]
  rfl

/-- The last release, with a thread that waits. -/
theorem handOver (h : MutexOk x depth) (ht : x.owner = some t) (hhold : x.hold - 1 = 0)
    {ws : List τ} (hlist : x.suspendThread = w :: ws) (p : UInt8) :
    MutexOk { x with owner := some w, originalPriority := p, hold := x.hold - 1 + 1,
                     suspendThread := ws }
      (Function.update (Function.update depth t (depth t - 1)) w
        (Function.update depth t (depth t - 1) w + 1)) := by
  have hone := h.depth_eq_one ht hhold
  have hwt : w ≠ t := fun heq => h.running t ht (by simp [hlist, heq])
  obtain ⟨hws, hnodup⟩ := List.nodup_cons.mp (hlist ▸ h.nodup)
  have hw : depth w = 0 := h.depth_eq_zero fun heq =>
    hwt (Option.some.inj (heq.symm.trans ht))
  rw [Function.update_of_ne hwt, hw, hone]
  refine ⟨fun hnone => absurd hnone (Option.some_ne_none w), fun _ _ => h.taken t ht,
    fun u => ?_, fun u hu => ?_, hnodup, fun u hu => ?_⟩
  · by_cases huw : u = w
    · subst huw
      simp
    · by_cases hut : u = t
      · subst hut
        simp [Function.update_of_ne huw, Ne.symm huw]
      · have hu : depth u = 0 := h.depth_eq_zero fun heq =>
          hut (Option.some.inj (heq.symm.trans ht))
        simp [Function.update_of_ne huw, Function.update_of_ne hut, hu, Ne.symm huw]
  · obtain rfl : w = u := Option.some.inj hu
    simp [hhold]
  · obtain rfl : w = u := Option.some.inj hu
    exact hws

/-- The last release, with nobody waiting. -/
theorem unlock (h : MutexOk x depth) (ht : x.owner = some t) (hhold : x.hold - 1 = 0)
    (hlist : x.suspendThread = []) :
    MutexOk { x with value := x.value + 1, owner := none, originalPriority := 0xff,
                     hold := x.hold - 1 } (Function.update depth t (depth t - 1)) := by
  have hone := h.depth_eq_one ht hhold
  have hnone : ∀ u : τ, none ≠ some u := fun u heq => Option.some_ne_none u heq.symm
  refine ⟨fun _ => ⟨by simp [h.taken t ht], hhold, hlist⟩, fun u hu => absurd hu (hnone u),
    fun u => ?_, fun u hu => absurd hu (hnone u), h.nodup, fun u hu => absurd hu (hnone u)⟩
  by_cases hut : u = t
  · subst hut
    simp [hone]
  · have hu : depth u = 0 := h.depth_eq_zero fun heq =>
      hut (Option.some.inj (heq.symm.trans ht))
    simp [Function.update_of_ne hut, hu]

/-- A thread leaves the list, as its timer runs out. -/
theorem leave (h : MutexOk x depth) (t : τ) :
    MutexOk { x with suspendThread := x.suspendThread.erase t } depth where
  free hnone := by
    obtain ⟨hvalue, hhold, hlist⟩ := h.free hnone
    exact ⟨hvalue, hhold, by simp [hlist]⟩
  taken := h.taken
  owner := h.owner
  hold := h.hold
  nodup := h.nodup.erase t
  running u hu hmem := h.running u hu (List.mem_of_mem_erase hmem)

end MutexOk

/-! ## The system -/

/-- Every mutex agrees with its history, and the lists with `tlist`. -/
structure Excludes (s : MutexSystem μ τ) : Prop where
  ok : ∀ m, MutexOk (s.mutex m) (s.depth m)
  linked : ∀ m t, t ∈ (s.mutex m).suspendThread ↔ s.tlist t = some m

omit [DecidableEq μ] [DecidableEq τ] in
theorem excludes_init (flag : μ → IpcFlag) (priority : τ → UInt8) :
    Excludes (mutexInit flag priority) :=
  ⟨fun m => mutexOk_create (flag m), fun m _ =>
    ⟨fun h => absurd h List.not_mem_nil, fun h => absurd h.symm (Option.some_ne_none m)⟩⟩

omit [DecidableEq τ] in
/-- A step that changes the mutex `m` and the links to it. -/
theorem Excludes.update {s s' : MutexSystem μ τ} (h : Excludes s) {m : μ} {x : RtMutex τ}
    {depth : τ → ℕ} (hmutex : s'.mutex = Function.update s.mutex m x)
    (hdepth : s'.depth = Function.update s.depth m depth) (hok : MutexOk x depth)
    (hlink : ∀ t, t ∈ x.suspendThread ↔ s'.tlist t = some m)
    (hother : ∀ t m', m' ≠ m → (s'.tlist t = some m' ↔ s.tlist t = some m')) : Excludes s' := by
  constructor
  · intro m'
    by_cases hm : m' = m
    · subst hm
      rw [hmutex, hdepth, Function.update_self, Function.update_self]
      exact hok
    · rw [hmutex, hdepth, Function.update_of_ne hm, Function.update_of_ne hm]
      exact h.ok m'
  · intro m' t
    by_cases hm : m' = m
    · subst hm
      rw [hmutex, Function.update_self]
      exact hlink t
    · rw [hmutex, Function.update_of_ne hm, h.linked m' t]
      exact (hother t m' hm).symm

/-- What a call of `rt_mutex_take` can do. -/
inductive Taken (x : RtMutex τ) (priority : τ → UInt8) (t : τ) (time : ℤ) :
    RtMutex τ × (τ → UInt8) × TakeResult → Prop
  | nested (howner : x.owner = some t) :
      Taken x priority t time ({ x with hold := x.hold + 1 }, priority, .ok)
  | acquired (hfree : x.owner = none) :
      Taken x priority t time
        ({ x with value := x.value - 1, owner := some t, originalPriority := priority t,
                  hold := x.hold + 1 }, priority, .ok)
  | refused {o : τ} (howner : x.owner = some o) (hne : o ≠ t) (htime : time = 0) :
      Taken x priority t time (x, priority, .timeout)
  | waits {o : τ} {priority' : τ → UInt8} (howner : x.owner = some o) (hne : o ≠ t)
      (hpriority : priority' =
        if priority t < priority o then Function.update priority o (priority t) else priority) :
      Taken x priority t time
        ({ x with suspendThread := rtIpcListSuspend x.flag priority' x.suspendThread t },
          priority', .suspended)

theorem MutexOk.take {x : RtMutex τ} {depth : τ → ℕ} (h : MutexOk x depth)
    (priority : τ → UInt8) (t : τ) (time : ℤ) :
    ∃ r, rtMutexTake x priority t time = some r ∧ Taken x priority t time r := by
  unfold rtMutexTake
  by_cases howner : x.owner = some t
  · rw [if_pos howner]
    exact ⟨_, rfl, .nested howner⟩
  · rw [if_neg howner]
    cases hfree : x.owner with
    | none =>
        rw [if_pos (h.value_pos_iff.mpr hfree)]
        exact ⟨_, rfl, .acquired hfree⟩
    | some o =>
        have hvalue : ¬ 0 < x.value := fun hpos =>
          Option.some_ne_none o (hfree.symm.trans (h.value_pos_iff.mp hpos))
        have hne : o ≠ t := fun heq => howner (heq ▸ hfree)
        rw [if_neg hvalue]
        by_cases htime : time = 0
        · rw [if_pos htime]
          exact ⟨_, rfl, .refused hfree hne htime⟩
        · have hcase : Taken x priority t time _ := .waits hfree hne rfl
          rw [hfree] at hcase
          rw [if_neg htime]
          exact ⟨_, rfl, hcase⟩

/-- What a call of `rt_mutex_release` can do. -/
inductive Released (x : RtMutex τ) (priority : τ → UInt8) (t : τ) :
    RtMutex τ × (τ → UInt8) × ReleaseResult τ → Prop
  | refused (howner : x.owner ≠ some t) : Released x priority t (x, priority, .error)
  | unnested (howner : x.owner = some t) (hhold : x.hold - 1 ≠ 0) :
      Released x priority t ({ x with hold := x.hold - 1 }, priority, .ok none)
  | handedOver {w : τ} {ws : List τ} (howner : x.owner = some t) (hhold : x.hold - 1 = 0)
      (hlist : x.suspendThread = w :: ws) (p : UInt8)
      (hp : p = Function.update priority t x.originalPriority w) :
      Released x priority t
        ({ x with owner := some w, originalPriority := p, hold := x.hold - 1 + 1,
                  suspendThread := ws }, Function.update priority t x.originalPriority,
          .ok (some w))
  | unlocked (howner : x.owner = some t) (hhold : x.hold - 1 = 0) (hlist : x.suspendThread = []) :
      Released x priority t
        ({ x with value := x.value + 1, owner := none, originalPriority := 0xff,
                  hold := x.hold - 1 }, Function.update priority t x.originalPriority, .ok none)

theorem rtMutexRelease_cases (x : RtMutex τ) (priority : τ → UInt8) (t : τ) :
    Released x priority t (rtMutexRelease x priority t) := by
  have hrestored : (if x.originalPriority ≠ priority t
      then Function.update priority t x.originalPriority else priority) =
      Function.update priority t x.originalPriority := by
    by_cases heq : x.originalPriority = priority t
    · rw [if_neg (not_not.mpr heq), heq, Function.update_eq_self]
    · rw [if_pos heq]
  unfold rtMutexRelease
  by_cases howner : x.owner = some t
  · rw [if_pos howner]
    by_cases hhold : x.hold - 1 = 0
    · simp only [hhold, if_true, hrestored]
      cases hlist : x.suspendThread with
      | nil =>
          have hcase : Released x priority t _ := .unlocked howner hhold hlist
          rw [hhold, hlist] at hcase
          exact hcase
      | cons w ws =>
          have hcase : Released x priority t _ := .handedOver howner hhold hlist _ rfl
          rw [hhold] at hcase
          exact hcase
    · simp only [hhold, if_false]
      exact .unnested howner hhold
  · rw [if_neg howner]
    exact .refused howner

/-- The invariant is kept by every step that does not nest too deep. -/
theorem Excludes.step {s s' : MutexSystem μ τ} {a : MutexAction μ τ} (h : Excludes s)
    (hshallow : Shallow s a) (hstep : mutexStep s a = some s') : Excludes s' := by
  cases a with
  | take m t time =>
      obtain ⟨ht, hstep⟩ : s.tlist t = none ∧ _ := Option.ite_none_right_eq_some.mp hstep
      obtain ⟨r, hr, hcase⟩ := (h.ok m).take s.priority t time
      rw [hr, Option.map_some] at hstep
      have hfar : t ∉ (s.mutex m).suspendThread := fun hmem => by
        rw [h.linked m t, ht] at hmem
        exact absurd hmem.symm (Option.some_ne_none m)
      cases hcase with
      | nested howner =>
          obtain rfl := Option.some.inj hstep
          exact h.update rfl rfl ((h.ok m).nest howner hshallow) (h.linked m)
            fun _ _ _ => Iff.rfl
      | acquired hfree =>
          obtain rfl := Option.some.inj hstep
          exact h.update rfl rfl ((h.ok m).acquire hfree t _) (h.linked m) fun _ _ _ => Iff.rfl
      | refused howner hne htime =>
          obtain rfl := Option.some.inj hstep
          exact h.update rfl (Function.update_eq_self m s.depth).symm (h.ok m) (h.linked m)
            fun _ _ _ => Iff.rfl
      | @waits o priority' howner hne hpriority =>
          obtain rfl := Option.some.inj hstep
          have hother : (s.mutex m).owner ≠ some t := fun heq =>
            hne (Option.some.inj (howner.symm.trans heq))
          refine h.update rfl (Function.update_eq_self m s.depth).symm
            ((h.ok m).wait howner hother hfar priority') (fun u => ?_) fun u m' hm => ?_
          · rw [mem_rtIpcListSuspend, h.linked m u]
            by_cases hu : u = t
            · simp [MutexSystem.suspend, hu]
            · simp [MutexSystem.suspend, MutexSystem.set, hu]
          · by_cases hu : u = t
            · simp [MutexSystem.suspend, hu, ht, Ne.symm hm]
            · simp [MutexSystem.suspend, MutexSystem.set, hu]
  | release m t =>
      obtain ⟨ht, hstep⟩ : s.tlist t = none ∧ _ := Option.ite_none_right_eq_some.mp hstep
      have hcase := rtMutexRelease_cases (s.mutex m) s.priority t
      generalize rtMutexRelease (s.mutex m) s.priority t = r at hcase hstep
      cases hcase with
      | refused howner =>
          obtain rfl := Option.some.inj hstep
          exact h.update rfl (Function.update_eq_self m s.depth).symm (h.ok m) (h.linked m)
            fun _ _ _ => Iff.rfl
      | unnested howner hhold =>
          obtain rfl := Option.some.inj hstep
          exact h.update rfl rfl ((h.ok m).unnest howner hhold) (h.linked m)
            fun _ _ _ => Iff.rfl
      | @handedOver w ws howner hhold hlist p hp =>
          obtain rfl := Option.some.inj hstep
          have hw : s.tlist w = some m := (h.linked m w).mp (by simp [hlist])
          have hws : w ∉ ws := (List.nodup_cons.mp (hlist ▸ (h.ok m).nodup)).1
          refine h.update rfl (by simp [MutexSystem.deepen, MutexSystem.lessen,
            MutexSystem.resume, MutexSystem.set]) ((h.ok m).handOver howner hhold hlist p)
            (fun u => ?_) fun u m' hm => ?_
          · by_cases hu : u = w
            · simp [MutexSystem.resume, hu, hws]
            · have hmem := h.linked m u
              rw [hlist, List.mem_cons, or_iff_right hu] at hmem
              simp [MutexSystem.resume, MutexSystem.deepen, MutexSystem.lessen, MutexSystem.set,
                hu, hmem]
          · by_cases hu : u = w
            · simp [MutexSystem.resume, hu, hw, Ne.symm hm]
            · simp [MutexSystem.resume, MutexSystem.deepen, MutexSystem.lessen, MutexSystem.set,
                hu]
      | unlocked howner hhold hlist =>
          obtain rfl := Option.some.inj hstep
          exact h.update rfl rfl ((h.ok m).unlock howner hhold hlist) (h.linked m)
            fun _ _ _ => Iff.rfl
  | timeout t =>
      simp only [mutexStep] at hstep
      cases ht : s.tlist t with
      | none => simp [ht] at hstep
      | some m =>
          rw [ht] at hstep
          obtain ⟨-, hstep⟩ : s.timer t = true ∧ _ := Option.ite_none_right_eq_some.mp hstep
          obtain rfl := Option.some.inj hstep
          refine h.update rfl (Function.update_eq_self m s.depth).symm ((h.ok m).leave t)
            (fun u => ?_) fun u m' hm => ?_
          · by_cases hu : u = t
            · simp [MutexSystem.resume, hu, (h.ok m).nodup.not_mem_erase]
            · rw [List.mem_erase_of_ne hu, h.linked m u]
              simp [MutexSystem.resume, MutexSystem.set, hu]
          · by_cases hu : u = t
            · simp [MutexSystem.resume, hu, ht, Ne.symm hm]
            · simp [MutexSystem.resume, MutexSystem.set, hu]
  | control t p =>
      obtain rfl := Option.some.inj hstep
      exact ⟨h.ok, h.linked⟩

theorem Excludes.mutuallyExclusive {s : MutexSystem μ τ} (h : Excludes s) :
    MutuallyExclusive s where
  exclusive m t t' ht ht' :=
    Option.some.inj ((((h.ok m).owner t).mpr ht).symm.trans (((h.ok m).owner t').mpr ht'))
  owner m := (h.ok m).owner
  hold m := (h.ok m).hold
  waiting := h.linked
  held m t ht := by
    have hmem : t ∈ (s.mutex m).suspendThread := (h.linked m t).mpr ht
    cases howner : (s.mutex m).owner with
    | none => simp [((h.ok m).free howner).2.2] at hmem
    | some o =>
        exact ⟨o, fun heq => (h.ok m).running t (heq ▸ howner) hmem, ((h.ok m).owner o).mp howner⟩
  defined m t time ht := by
    obtain ⟨r, hr, -⟩ := (h.ok m).take s.priority t time
    simp [mutexStep, ht, hr]

/-- Whatever the threads do, a mutex is held by one thread at most, who waits does so for a mutex
that another one holds, and the owner is never looked for where there is none. -/
theorem mutex_mutuallyExclusive (flag : μ → IpcFlag) (priority : τ → UInt8)
    {as : List (MutexAction μ τ)} {s : MutexSystem μ τ}
    (h : Run mutexStep Shallow (mutexInit flag priority) as s) : MutuallyExclusive s :=
  (h.invariant Excludes (fun _ _ _ hs hok hstep => hs.step hok hstep)
    (excludes_init flag priority)).mutuallyExclusive

/-- Thread 0 locks a mutex twice, thread 1 waits for it, and gets it at the second release. -/
theorem mutex_mutuallyExclusive_handOver :
    ∃ s, Run mutexStep Shallow (mutexInit (fun _ : Unit => .fifo) (fun _ : Fin 2 => 20))
      [.take () 0 (-1), .take () 0 (-1), .take () 1 500, .release () 0, .release () 0] s ∧
      (decide (s.depth () 1 = 1) && decide (s.depth () 0 = 0)) = true ∧ MutuallyExclusive s := by
  obtain ⟨s, hrun, hp⟩ := Run.exists_of_exec mutexStep Shallow
    (mutexInit (fun _ : Unit => .fifo) (fun _ : Fin 2 => 20))
    [.take () 0 (-1), .take () 0 (-1), .take () 1 500, .release () 0, .release () 0]
    (fun s => decide (s.depth () 1 = 1) && decide (s.depth () 0 = 0)) (by decide)
  exact ⟨s, hrun, hp, mutex_mutuallyExclusive _ _ hrun⟩

end Kernel
