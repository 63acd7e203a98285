import Esp32AtMqtt.Stream.Agenda
import Esp32AtMqtt.Transition.Run

/-!
# The timers of the kernel

The timers of `src/timer.c`, with one level of the list, and the tick that wraps. `rt_timer_start`
is two parts between which the tick may come: the time is computed with interrupts enabled. The
timeout functions are called by `rt_timer_check`, and do what they want with timers.

Beside the fields of the code is a history: the time that does not wrap, when each timer is due,
when and as which it was put into the list, and which timers fired.
-/

namespace Kernel

open Agenda Transition

/-- `RT_TICK_MAX / 2`. -/
def rtTickHalf : ℕ := 0x7fffffff

/-- `struct rt_timer`. -/
structure RtTimer where
  initTick : UInt32
  timeoutTick : UInt32
  periodic : Bool
  activated : Bool

/-- A timer that fired, with the time when it was due, when and as which it was put into the list,
and when its function was called. -/
structure Firing (τ : Type*) where
  timer : τ
  due : ℕ
  since : ℕ
  turn : ℕ
  time : ℕ

/-- What is done with a timer. -/
inductive TimerOp (τ : Type*)
  | start (t : τ)
  | stop (t : τ)
  | setTime (t : τ) (time : UInt32)
  | setOneshot (t : τ)
  | setPeriodic (t : τ)
  deriving DecidableEq

/-- The timer of an operation. -/
def TimerOp.timer {τ : Type*} : TimerOp τ → τ
  | .start t | .stop t | .setTime t _ | .setOneshot t | .setPeriodic t => t

/-- The variables of `timer.c` and the tick, and the history. In `starting` are the timers for
which a thread is between the two parts of `rt_timer_start`. -/
structure TimerSystem (τ : Type*) where
  rtTick : UInt32
  timer : τ → RtTimer
  rtTimerList : List τ
  starting : List τ
  now : ℕ
  begun : τ → ℕ
  due : τ → ℕ
  since : τ → ℕ
  turn : τ → ℕ
  turns : ℕ
  fired : List (Firing τ)

namespace TimerSystem

variable {τ : Type*} [DecidableEq τ]

/-- A field of a timer is set. -/
def setTimer (s : TimerSystem τ) (t : τ) (f : RtTimer → RtTimer) : TimerSystem τ :=
  { s with timer := Function.update s.timer t (f (s.timer t)) }

/-- `rt_timer_start(timer)` up to the time. It has no result when the assertion fails. -/
def startBegin (s : TimerSystem τ) (t : τ) : Option (TimerSystem τ) :=
  if (s.timer t).initTick.toNat < rtTickHalf then
    some { s.setTimer t fun r =>
        { r with activated := false, timeoutTick := s.rtTick + r.initTick } with
      rtTimerList := s.rtTimerList.erase t
      begun := Function.update s.begun t s.now
      due := Function.update s.due t (s.now + (s.timer t).initTick.toNat) }
  else none

/-- The loop of `rt_timer_start` stops before such a timer. -/
def later (s : TimerSystem τ) (t u : τ) : Bool :=
  decide ((s.timer u).timeoutTick - (s.timer t).timeoutTick ≠ 0) &&
    decide (((s.timer u).timeoutTick - (s.timer t).timeoutTick).toNat < rtTickHalf)

/-- `rt_timer_start(timer)` from the time on. -/
def startEnd (s : TimerSystem τ) (t : τ) : TimerSystem τ :=
  { s.setTimer t fun r => { r with activated := true } with
    rtTimerList := place (s.later t) t s.rtTimerList
    since := Function.update s.since t s.now
    turn := Function.update s.turn t s.turns
    turns := s.turns + 1 }

/-- `rt_timer_start(timer)` when nothing comes between. -/
def rtTimerStart (s : TimerSystem τ) (t : τ) : Option (TimerSystem τ) :=
  (s.startBegin t).map fun s => s.startEnd t

/-- `rt_timer_stop(timer)`. -/
def rtTimerStop (s : TimerSystem τ) (t : τ) : TimerSystem τ :=
  if (s.timer t).activated then
    { s.setTimer t fun r => { r with activated := false } with
      rtTimerList := s.rtTimerList.erase t }
  else s

/-- An operation that is not interrupted. -/
def apply (s : TimerSystem τ) : TimerOp τ → Option (TimerSystem τ)
  | .start t => s.rtTimerStart t
  | .stop t => some (s.rtTimerStop t)
  | .setTime t time => some (s.setTimer t fun r => { r with initTick := time })
  | .setOneshot t => some (s.setTimer t fun r => { r with periodic := false })
  | .setPeriodic t => some (s.setTimer t fun r => { r with periodic := true })

/-- The operations of a timeout function. -/
def applyAll (s : TimerSystem τ) (ops : List (TimerOp τ)) : Option (TimerSystem τ) :=
  ops.foldlM apply s

/-- A timer is taken out of the list to be fired. -/
def fire (s : TimerSystem τ) (t : τ) : TimerSystem τ :=
  { s with
    rtTimerList := s.rtTimerList.erase t
    fired := s.fired ++ [⟨t, s.due t, s.since t, s.turn t, s.now⟩] }

/-- What `rt_timer_check` does when the timeout function has returned. -/
def restart (s : TimerSystem τ) (t : τ) : Option (TimerSystem τ) :=
  let again := (s.timer t).periodic && (s.timer t).activated
  let s := s.setTimer t fun r => { r with activated := false }
  if again then s.rtTimerStart t else some s

/-- The loop of `rt_timer_check`, where the function of a timer does what `callback` says. It has
no result when it does not end within `rounds`. -/
def checkLoop (callback : τ → List (TimerOp τ)) : ℕ → TimerSystem τ → Option (TimerSystem τ)
  | 0, _ => none
  | rounds + 1, s =>
      match s.rtTimerList with
      | [] => some s
      | t :: _ =>
          if (s.rtTick - (s.timer t).timeoutTick).toNat < rtTickHalf then
            ((s.fire t).applyAll (callback t)).bind fun s =>
              (s.restart t).bind fun s => checkLoop callback rounds s
          else some s

/-- `rt_timer_check()`. -/
def rtTimerCheck (s : TimerSystem τ) (callback : τ → List (TimerOp τ)) : Option (TimerSystem τ) :=
  s.checkLoop callback (s.rtTimerList.length + 1)

/-- `rt_tick_increase()`, less the time slices. -/
def rtTickIncrease (s : TimerSystem τ) (callback : τ → List (TimerOp τ)) :
    Option (TimerSystem τ) :=
  { s with rtTick := s.rtTick + 1, now := s.now + 1 }.rtTimerCheck callback

end TimerSystem

/-- What happens with the timers. -/
inductive TimerAction (τ : Type*)
  | op (o : TimerOp τ)
  | startBegin (t : τ)
  | startEnd (t : τ)
  | tick (callback : τ → List (TimerOp τ))

section System

variable {τ : Type*} [DecidableEq τ]

def timerStep (s : TimerSystem τ) : TimerAction τ → Option (TimerSystem τ)
  | .op o => s.apply o
  | .startBegin t => (s.startBegin t).map fun s => { s with starting := t :: s.starting }
  | .startEnd t =>
      if t ∈ s.starting then some { s.startEnd t with starting := s.starting.erase t } else none
  | .tick callback => s.rtTickIncrease callback

/-- The time is set to one that is allowed, in a system in which none is longer than `longest`. -/
def TimerOp.Fair (longest : ℕ) : TimerOp τ → Prop
  | .setTime _ time => 0 < time.toNat ∧ time.toNat ≤ longest
  | _ => True

instance (longest : ℕ) (o : TimerOp τ) : Decidable (o.Fair longest) :=
  match o with
  | .setTime _ time => inferInstanceAs (Decidable (0 < time.toNat ∧ time.toNat ≤ longest))
  | .start _ | .stop _ | .setOneshot _ | .setPeriodic _ => isTrue trivial

/-- A timer for which a thread is in `rt_timer_start` is left alone by others, and that thread does
not wait so long that the clock goes half around. -/
def Prompt (longest : ℕ) (s : TimerSystem τ) : TimerAction τ → Prop
  | .op o => o.Fair longest ∧ o.timer ∉ s.starting
  | .startBegin t => t ∉ s.starting
  | .startEnd t => s.now + longest < s.begun t + rtTickHalf
  | .tick callback => ∀ t, ∀ o ∈ callback t, o.Fair longest ∧ o.timer ∉ s.starting

end System

section Invariant

variable {τ : Type*}

/-- No timer is started, and the tick is `now`. -/
def TimerSystem.start (now : UInt32) (timer : τ → RtTimer) : TimerSystem τ where
  rtTick := now
  timer
  rtTimerList := []
  starting := []
  now := now.toNat
  begun _ := 0
  due _ := 0
  since _ := 0
  turn _ := 0
  turns := 0
  fired := []

/-- The order in which timers fire. -/
def TimerSystem.Earlier (s : TimerSystem τ) (t u : τ) : Prop :=
  s.due t < s.due u ∨ s.due t = s.due u ∧ s.turn t < s.turn u

/-- The order of what fired. -/
def Firing.Before (f g : Firing τ) : Prop :=
  f.time < g.time ∨ f.time = g.time ∧ (f.due < g.due ∨ f.due = g.due ∧ f.turn < g.turn)

/-- A timer for which the time was computed. -/
structure Ready (longest : ℕ) (s : TimerSystem τ) (t : τ) : Prop where
  out : t ∉ s.rtTimerList
  wrapped : (s.timer t).timeoutTick = UInt32.ofNat (s.due t)
  begun : s.begun t ≤ s.now
  late : s.begun t < s.due t
  early : s.due t ≤ s.begun t + longest

/-- The list is in order and the clock tells times in it apart, and what fired was on time. -/
structure Timed (longest : ℕ) (s : TimerSystem τ) : Prop where
  tick : s.rtTick = UInt32.ofNat s.now
  inits : ∀ t, 0 < (s.timer t).initTick.toNat ∧ (s.timer t).initTick.toNat ≤ longest
  sorted : s.rtTimerList.Pairwise s.Earlier
  once : (s.rtTimerList.map s.turn).Nodup
  wrapped : ∀ t ∈ s.rtTimerList, (s.timer t).timeoutTick = UInt32.ofNat (s.due t)
  near : ∀ t ∈ s.rtTimerList, s.due t ≤ s.now + longest ∧ s.now + longest < s.due t + rtTickHalf
  ready : ∀ t ∈ s.starting, Ready longest s t
  starting : s.starting.Nodup
  turns : ∀ t ∈ s.rtTimerList, s.turn t < s.turns
  firedTurns : ∀ f ∈ s.fired, f.turn < s.turns ∧ ∀ t ∈ s.rtTimerList, s.turn t ≠ f.turn
  firedOnce : (s.fired.map Firing.turn).Nodup
  onTime : ∀ f ∈ s.fired, f.time = max f.due (f.since + 1) ∧ f.time ≤ s.now
  inOrder : s.fired.Pairwise Firing.Before

/-- Nothing is overdue. -/
def Calm (longest : ℕ) (s : TimerSystem τ) : Prop :=
  ∀ t ∈ s.rtTimerList, s.since t ≤ s.now ∧ s.now < max (s.due t) (s.since t + 1) ∧
    s.now + longest + 1 < s.due t + rtTickHalf

/-- In `rt_timer_check` what is due comes behind what fired. -/
def Checking (s : TimerSystem τ) : Prop :=
  ∀ t ∈ s.rtTimerList, s.since t ≤ s.now ∧ (s.now < s.due t ∨
    s.now = max (s.due t) (s.since t + 1) ∧ ∀ f ∈ s.fired, f.time = s.now →
      f.due < s.due t ∨ f.due = s.due t ∧ f.turn < s.turn t)

/-- An operation leaves the other timers as they are, and puts its own into the list for later. -/
structure Kept (s s' : TimerSystem τ) : Prop where
  now : s'.now = s.now
  starting : s'.starting = s.starting
  fired : s'.fired = s.fired
  list : ∀ t ∈ s'.rtTimerList, t ∈ s.rtTimerList ∧ s'.due t = s.due t ∧ s'.since t = s.since t ∧
    s'.turn t = s.turn t ∨ s.now < s'.due t ∧ s'.since t = s.now

variable {longest : ℕ} {s s' s'' : TimerSystem τ}

theorem Kept.refl (s : TimerSystem τ) : Kept s s :=
  ⟨rfl, rfl, rfl, fun _ ht => Or.inl ⟨ht, rfl, rfl, rfl⟩⟩

theorem Kept.trans (h : Kept s s') (h' : Kept s' s'') : Kept s s'' := by
  refine ⟨h'.now.trans h.now, h'.starting.trans h.starting, h'.fired.trans h.fired, fun t ht => ?_⟩
  rcases h'.list t ht with ⟨ht', hdue, hsince, hturn⟩ | hnew
  · rw [hdue, hsince, hturn]
    exact h.list t ht'
  · rw [h.now] at hnew
    exact Or.inr hnew

theorem Calm.kept (hlongest : longest < rtTickHalf) (h : Calm longest s) (hkept : Kept s s') :
    Calm longest s' := by
  intro t ht
  rw [hkept.now]
  rcases hkept.list t ht with ⟨ht', hdue, hsince, -⟩ | ⟨hlt, hsince⟩
  · rw [hdue, hsince]
    exact h t ht'
  · omega

theorem Checking.kept (h : Checking s) (hkept : Kept s s') : Checking s' := by
  intro t ht
  rw [hkept.now, hkept.fired]
  rcases hkept.list t ht with ⟨ht', hdue, hsince, hturn⟩ | ⟨hlt, hsince⟩
  · rw [hdue, hsince, hturn]
    exact h t ht'
  · exact ⟨Nat.le_of_eq hsince, Or.inl hlt⟩

end Invariant

section Operations

variable {τ : Type*} [DecidableEq τ] {longest : ℕ} {s : TimerSystem τ} {t : τ}

namespace Timed

omit [DecidableEq τ] in
theorem nodup (h : Timed longest s) : s.rtTimerList.Nodup := .of_map _ h.once

/-- A field of a timer is set, but for the time when it is due. -/
theorem setTimer (h : Timed longest s) {f : RtTimer → RtTimer}
    (htick : (f (s.timer t)).timeoutTick = (s.timer t).timeoutTick)
    (hinit : 0 < (f (s.timer t)).initTick.toNat ∧ (f (s.timer t)).initTick.toNat ≤ longest) :
    Timed longest (s.setTimer t f) ∧ Kept s (s.setTimer t f) := by
  have hsame : ∀ u, ((s.setTimer t f).timer u).timeoutTick = (s.timer u).timeoutTick := by
    intro u
    by_cases hu : u = t
    · rw [hu]
      exact (congrArg RtTimer.timeoutTick (Function.update_self t _ s.timer)).trans htick
    · exact congrArg RtTimer.timeoutTick (Function.update_of_ne hu _ s.timer)
  refine ⟨{ h with inits := fun u => ?_, wrapped := fun u hu => ?_, ready := fun u hu => ?_ },
    rfl, rfl, rfl, fun u hu => Or.inl ⟨hu, rfl, rfl, rfl⟩⟩
  · by_cases hu : u = t
    · rw [hu, show (s.setTimer t f).timer t = _ from Function.update_self t _ s.timer]
      exact hinit
    · rw [show (s.setTimer t f).timer u = _ from Function.update_of_ne hu _ s.timer]
      exact h.inits u
  · rw [hsame]
    exact h.wrapped u hu
  · exact { h.ready u hu with wrapped := (hsame u).trans (h.ready u hu).wrapped }

/-- A timer is taken out of the list. -/
theorem erase (h : Timed longest s) (t : τ) :
    Timed longest { s with rtTimerList := s.rtTimerList.erase t } ∧
      Kept s { s with rtTimerList := s.rtTimerList.erase t } := by
  have hmem : ∀ u ∈ s.rtTimerList.erase t, u ∈ s.rtTimerList := fun _ => List.mem_of_mem_erase
  have hsub : (s.rtTimerList.erase t).Sublist s.rtTimerList := List.erase_sublist
  exact ⟨{ h with
    sorted := h.sorted.sublist hsub
    once := h.once.sublist (hsub.map _)
    wrapped := fun u hu => h.wrapped u (hmem u hu)
    near := fun u hu => h.near u (hmem u hu)
    ready := fun u hu => { h.ready u hu with out := fun hin => (h.ready u hu).out (hmem u hin) }
    turns := fun u hu => h.turns u (hmem u hu)
    firedTurns := fun f hf =>
      ⟨(h.firedTurns f hf).1, fun u hu => (h.firedTurns f hf).2 u (hmem u hu)⟩ },
    rfl, rfl, rfl, fun u hu => Or.inl ⟨hmem u hu, rfl, rfl, rfl⟩⟩

/-- The first part of `rt_timer_start`. -/
theorem startBegin (h : Timed longest s) (hlongest : longest < rtTickHalf)
    (ht : t ∉ s.starting) :
    ∃ s', s.startBegin t = some s' ∧ Timed longest s' ∧ Kept s s' ∧ Ready longest s' t ∧
      s'.begun t = s'.now := by
  obtain ⟨hpos, hle⟩ := h.inits t
  obtain ⟨herase, hkept⟩ := h.erase t
  have hout : t ∉ s.rtTimerList.erase t := h.nodup.not_mem_erase
  have hnot : ∀ u, u ∈ s.rtTimerList.erase t → u ≠ t := fun u hu heq => hout (heq ▸ hu)
  have hstarting : ∀ u, u ∈ s.starting → u ≠ t := fun u hu heq => ht (heq ▸ hu)
  refine ⟨_, if_pos (by omega), { herase with
      inits := fun u => ?_
      sorted := ?_
      wrapped := fun u hu => ?_
      near := fun u hu => ?_
      ready := fun u hu => ?_ },
    hkept.trans ⟨rfl, rfl, rfl, fun u hu => Or.inl ⟨hu, ?_, rfl, rfl⟩⟩, ?_, ?_⟩
  · by_cases hu : u = t
    · subst hu
      simpa [TimerSystem.setTimer] using h.inits u
    · simpa [TimerSystem.setTimer, hu] using h.inits u
  · refine herase.sorted.imp_of_mem fun {u v} hu hv huv => ?_
    simpa [TimerSystem.setTimer, TimerSystem.Earlier, hnot u hu, hnot v hv] using huv
  · simpa [TimerSystem.setTimer, hnot u hu] using herase.wrapped u hu
  · simpa [TimerSystem.setTimer, hnot u hu] using herase.near u hu
  · obtain ⟨hrout, hwrapped, hbegun, hlate, hearly⟩ := herase.ready u hu
    refine ⟨hrout, ?_, ?_, ?_, ?_⟩
    · simpa [TimerSystem.setTimer, hstarting u hu] using hwrapped
    · simpa [TimerSystem.setTimer, hstarting u hu] using hbegun
    · simpa [hstarting u hu] using hlate
    · simpa [hstarting u hu] using hearly
  · simp [hnot u hu]
  · refine ⟨hout, ?_, ?_, ?_, ?_⟩
    · simp [TimerSystem.setTimer, h.tick, UInt32.ofNat_add]
    · simp [TimerSystem.setTimer]
    · simpa using hpos
    · simpa using hle
  · simp [TimerSystem.setTimer]

omit [DecidableEq τ] in
/-- The loop of `rt_timer_start` tells the timers apart by the times when they are due. -/
theorem later_iff (h : Timed longest s) (hready : Ready longest s t)
    (hprompt : s.now + longest < s.begun t + rtTickHalf) {u : τ} (hu : u ∈ s.rtTimerList) :
    s.later t u = true ↔ s.due t < s.due u := by
  obtain ⟨hle, hlt⟩ := h.near u hu
  obtain ⟨-, hwrapped, hbegun, hlate, hearly⟩ := hready
  have hhalf : 2 * rtTickHalf ≤ 2 ^ 32 := by decide
  have hzero := diff_eq_zero_iff hhalf (show s.due u < s.due t + rtTickHalf by omega)
    (show s.due t < s.due u + rtTickHalf by omega)
  have hcomp := diff_lt_iff hhalf (show s.due u < s.due t + rtTickHalf by omega)
    (show s.due t < s.due u + rtTickHalf by omega)
  rw [TimerSystem.later, h.wrapped u hu, hwrapped, Bool.and_eq_true, decide_eq_true_iff,
    decide_eq_true_iff, ← UInt32.toNat_inj.ne, toNat_sub_ofNat, hcomp]
  have hne : diff (2 ^ 32) (s.due u) (s.due t) ≠ UInt32.toNat 0 ↔ s.due u ≠ s.due t := hzero.not
  rw [hne]
  omega

/-- The second part of `rt_timer_start`. -/
theorem startEnd (h : Timed longest s) (hready : Ready longest s t)
    (hprompt : s.now + longest < s.begun t + rtTickHalf) {starting : List τ}
    (hsub : starting.Sublist s.starting) (hout : t ∉ starting) :
    Timed longest { s.startEnd t with starting } := by
  obtain ⟨hnotin, hwrapped, hbegun, hlate, hearly⟩ := hready
  have hnot : ∀ u, u ∈ s.rtTimerList → u ≠ t := fun u hu heq => hnotin (heq ▸ hu)
  have hnot' : ∀ u, u ∈ starting → u ≠ t := fun u hu heq => hout (heq ▸ hu)
  have hperm : (place (s.later t) t s.rtTimerList).Perm (t :: s.rtTimerList) := place_perm
  have hmem : ∀ u, u ∈ (s.startEnd t).rtTimerList ↔ u = t ∨ u ∈ s.rtTimerList := fun u => mem_place
  have hturn : ∀ u ∈ s.rtTimerList, (s.startEnd t).turn u = s.turn u := fun u hu =>
    Function.update_of_ne (hnot u hu) _ _
  have hturnt : (s.startEnd t).turn t = s.turns := Function.update_self _ _ _
  refine { h with
    inits := fun u => ?_
    sorted := pairwise_place (fun u v w huv hvw => ?_) (fun u hu hlater => Or.inl ?_)
      (fun u hu hlater => ?_) (h.sorted.imp_of_mem fun {u v} hu hv huv => ?_)
    once := ?_
    wrapped := fun u hu => ?_
    near := fun u hu => ?_
    ready := fun u hu => ?_
    starting := h.starting.sublist hsub
    turns := fun u hu => ?_
    firedTurns := fun f hf => ⟨(h.firedTurns f hf).1.trans (Nat.lt_succ_self _), fun u hu => ?_⟩ }
  · by_cases hu : u = t
    · subst hu
      simpa [TimerSystem.startEnd, TimerSystem.setTimer] using h.inits u
    · simpa [TimerSystem.startEnd, TimerSystem.setTimer, hu] using h.inits u
  · simp only [TimerSystem.Earlier] at huv hvw ⊢
    omega
  · exact (h.later_iff ⟨hnotin, hwrapped, hbegun, hlate, hearly⟩ hprompt hu).mp hlater
  · -- it is behind those that are due at the same time
    have hle : ¬ s.due t < s.due u := fun hlt => by
      rw [(h.later_iff ⟨hnotin, hwrapped, hbegun, hlate, hearly⟩ hprompt hu).mpr hlt] at hlater
      exact Bool.noConfusion hlater
    have hlt : s.turn u < s.turns := h.turns u hu
    simp only [TimerSystem.Earlier, hturn u hu, hturnt]
    exact (Nat.lt_or_eq_of_le (Nat.not_lt.mp hle)).imp_right fun heq => ⟨heq, hlt⟩
  · simp only [TimerSystem.Earlier, hturn u hu, hturn v hv]
    exact huv
  · have hmap : s.rtTimerList.map (s.startEnd t).turn = s.rtTimerList.map s.turn :=
      List.map_congr_left hturn
    refine (hperm.map _).nodup_iff.mpr (List.nodup_cons.mpr ⟨?_, hmap ▸ h.once⟩)
    rw [hmap, hturnt]
    intro hin
    obtain ⟨u, hu, heq⟩ := List.mem_map.mp hin
    exact absurd heq (Nat.ne_of_lt (h.turns u hu))
  · rcases (hmem u).mp hu with rfl | hu
    · simpa [TimerSystem.startEnd, TimerSystem.setTimer] using hwrapped
    · simpa [TimerSystem.startEnd, TimerSystem.setTimer, hnot u hu] using h.wrapped u hu
  · show s.due u ≤ s.now + longest ∧ s.now + longest < s.due u + rtTickHalf
    rcases (hmem u).mp hu with rfl | hu
    · omega
    · exact h.near u hu
  · obtain ⟨hrout, hrwrapped, hrbegun, hrlate, hrearly⟩ := h.ready u (hsub.subset hu)
    refine ⟨fun hin => ?_, ?_, hrbegun, hrlate, hrearly⟩
    · exact ((hmem u).mp hin).elim (hnot' u hu) hrout
    · simpa [TimerSystem.startEnd, TimerSystem.setTimer, hnot' u hu] using hrwrapped
  · show (s.startEnd t).turn u < s.turns + 1
    rcases (hmem u).mp hu with rfl | hu
    · rw [hturnt]
      exact Nat.lt_succ_self _
    · rw [hturn u hu]
      exact (h.turns u hu).trans (Nat.lt_succ_self _)
  · show (s.startEnd t).turn u ≠ f.turn
    rcases (hmem u).mp hu with rfl | hu
    · rw [hturnt]
      exact Nat.ne_of_gt (h.firedTurns f hf).1
    · rw [hturn u hu]
      exact (h.firedTurns f hf).2 u hu

/-- A timer is put into the list for later. -/
theorem kept_startEnd (hnotin : t ∉ s.rtTimerList) (hlate : s.now < s.due t) :
    Kept s (s.startEnd t) := by
  refine ⟨rfl, rfl, rfl, fun u hu => ?_⟩
  rcases mem_place.mp hu with rfl | hu
  · exact Or.inr ⟨hlate, Function.update_self _ _ _⟩
  · have hne : u ≠ t := fun heq => hnotin (heq ▸ hu)
    exact Or.inl ⟨hu, rfl, Function.update_of_ne hne _ _, Function.update_of_ne hne _ _⟩

theorem rtTimerStart (h : Timed longest s) (hlongest : longest < rtTickHalf)
    (ht : t ∉ s.starting) :
    ∃ s', s.rtTimerStart t = some s' ∧ Timed longest s' ∧ Kept s s' := by
  obtain ⟨s₁, hbegin, htimed, hkept, hready, hbegun⟩ := h.startBegin hlongest ht
  refine ⟨s₁.startEnd t, by rw [TimerSystem.rtTimerStart, hbegin]; rfl,
    htimed.startEnd hready (by omega) (List.Sublist.refl _) (hkept.starting ▸ ht),
    hkept.trans (kept_startEnd hready.out (hbegun ▸ hready.late))⟩

theorem rtTimerStop (h : Timed longest s) :
    Timed longest (s.rtTimerStop t) ∧ Kept s (s.rtTimerStop t) := by
  rw [TimerSystem.rtTimerStop]
  split_ifs
  · obtain ⟨herase, hkept⟩ := h.erase t
    obtain ⟨hset, hkept'⟩ := herase.setTimer (t := t) (f := fun r => { r with activated := false })
      rfl (h.inits t)
    exact ⟨hset, hkept.trans hkept'⟩
  · exact ⟨h, .refl s⟩

/-- An operation on a timer that is not being started. -/
theorem apply (h : Timed longest s) (hlongest : longest < rtTickHalf) {o : TimerOp τ}
    (hfair : o.Fair longest) (ho : o.timer ∉ s.starting) :
    ∃ s', s.apply o = some s' ∧ Timed longest s' ∧ Kept s s' := by
  cases o with
  | start t => exact h.rtTimerStart hlongest ho
  | stop t => exact ⟨_, rfl, h.rtTimerStop⟩
  | setTime t time => exact ⟨_, rfl, h.setTimer rfl hfair⟩
  | setOneshot t => exact ⟨_, rfl, h.setTimer rfl (h.inits t)⟩
  | setPeriodic t => exact ⟨_, rfl, h.setTimer rfl (h.inits t)⟩

theorem applyAll (h : Timed longest s) (hlongest : longest < rtTickHalf) {ops : List (TimerOp τ)}
    (hops : ∀ o ∈ ops, o.Fair longest ∧ o.timer ∉ s.starting) :
    ∃ s', s.applyAll ops = some s' ∧ Timed longest s' ∧ Kept s s' := by
  induction ops generalizing s with
  | nil => exact ⟨s, rfl, h, .refl s⟩
  | cons o ops ih =>
      obtain ⟨hfair, ho⟩ := hops o List.mem_cons_self
      obtain ⟨s₁, happly, htimed, hkept⟩ := h.apply hlongest hfair ho
      obtain ⟨s₂, hrest, htimed', hkept'⟩ := ih htimed fun o ho =>
        hkept.starting ▸ hops o (List.mem_cons_of_mem _ ho)
      refine ⟨s₂, ?_, htimed', hkept.trans hkept'⟩
      rw [TimerSystem.applyAll, List.foldlM_cons, happly]
      exact hrest

theorem restart (h : Timed longest s) (hlongest : longest < rtTickHalf) (ht : t ∉ s.starting) :
    ∃ s', s.restart t = some s' ∧ Timed longest s' ∧ Kept s s' := by
  obtain ⟨hset, hkept⟩ := h.setTimer (t := t) (f := fun r => { r with activated := false })
    rfl (h.inits t)
  rw [TimerSystem.restart]
  split_ifs
  · obtain ⟨s', hstart, htimed, hkept'⟩ := hset.rtTimerStart hlongest ht
    exact ⟨s', hstart, htimed, hkept.trans hkept'⟩
  · exact ⟨_, rfl, hset, hkept⟩

end Timed

/-- How many timers are due. -/
def dueCount (s : TimerSystem τ) : ℕ := s.rtTimerList.countP fun t => s.due t ≤ s.now

omit [DecidableEq τ] in
theorem Kept.dueCount_le {s' : TimerSystem τ} (h : Kept s s') (hnodup : s'.rtTimerList.Nodup) :
    dueCount s' ≤ dueCount s := by
  rw [dueCount, dueCount, List.countP_eq_length_filter, List.countP_eq_length_filter]
  refine ((hnodup.filter _).subperm fun u hu => ?_).length_le
  obtain ⟨hin, hdue⟩ := List.mem_filter.mp hu
  rw [decide_eq_true_iff, h.now] at hdue
  rcases h.list u hin with ⟨hin', hsame, -, -⟩ | ⟨hlt, -⟩
  · exact List.mem_filter.mpr ⟨hin', decide_eq_true (hsame ▸ hdue)⟩
  · omega

/-- The first timer of the list is fired. -/
theorem Timed.fire (h : Timed longest s) (hcheck : Checking s) {ts : List τ}
    (hlist : s.rtTimerList = t :: ts) (hdue : s.due t ≤ s.now) :
    Timed longest (s.fire t) ∧ Checking (s.fire t) ∧ dueCount (s.fire t) < dueCount s := by
  have herase : s.rtTimerList.erase t = ts := by rw [hlist, List.erase_cons_head]
  have ht : t ∈ s.rtTimerList := hlist ▸ List.mem_cons_self
  obtain ⟨htime, hafter⟩ := (hcheck t ht).2.resolve_left (Nat.not_lt.mpr hdue)
  have hearlier : ∀ u ∈ ts, s.Earlier t u := by
    have hsorted := h.sorted
    rw [hlist] at hsorted
    exact (List.pairwise_cons.mp hsorted).1
  have hturn : ∀ u ∈ ts, s.turn u ≠ s.turn t := by
    have honce := h.once
    rw [hlist, List.map_cons] at honce
    exact fun u hu heq => (List.nodup_cons.mp honce).1 (heq ▸ List.mem_map_of_mem hu)
  have hmem : ∀ u, u ∈ (s.fire t).rtTimerList ↔ u ∈ ts := fun u => by
    rw [show (s.fire t).rtTimerList = ts from herase]
  have hin : ∀ u ∈ ts, u ∈ s.rtTimerList := fun u hu => hlist ▸ List.mem_cons_of_mem t hu
  refine ⟨{ (h.erase t).1 with
      ready := fun u hu => { (h.erase t).1.ready u hu with }
      firedTurns := fun f hf => ?_
      firedOnce := ?_
      onTime := fun f hf => ?_
      inOrder := ?_ }, fun u hu => ?_, ?_⟩
  · rcases List.mem_append.mp hf with hf | hf
    · exact ⟨(h.firedTurns f hf).1,
        fun u hu => (h.firedTurns f hf).2 u (hin u ((hmem u).mp hu))⟩
    · obtain rfl := List.mem_singleton.mp hf
      exact ⟨h.turns t ht, fun u hu => hturn u ((hmem u).mp hu)⟩
  · have hmap : (s.fire t).fired.map Firing.turn = s.fired.map Firing.turn ++ [s.turn t] :=
      List.map_append
    rw [hmap]
    refine List.nodup_append.mpr
      ⟨h.firedOnce, List.nodup_singleton _, fun n hn m hm heq => ?_⟩
    obtain ⟨f, hf, rfl⟩ := List.mem_map.mp hn
    exact (h.firedTurns f hf).2 t ht (heq.trans (List.mem_singleton.mp hm)).symm
  · rcases List.mem_append.mp hf with hf | hf
    · exact h.onTime f hf
    · obtain rfl := List.mem_singleton.mp hf
      exact ⟨htime, Nat.le_refl _⟩
  · refine List.pairwise_append.mpr ⟨h.inOrder, List.pairwise_singleton _ _, fun f hf g hg => ?_⟩
    obtain rfl := List.mem_singleton.mp hg
    refine (Nat.lt_or_eq_of_le (h.onTime f hf).2).imp_right fun heq => ⟨heq, ?_⟩
    exact hafter f hf heq
  · refine (hcheck u (hin u ((hmem u).mp hu))).imp_right (Or.imp_right fun ⟨hsame, hbefore⟩ =>
      ⟨hsame, fun f hf heq => ?_⟩)
    rcases List.mem_append.mp hf with hf | hf
    · exact hbefore f hf heq
    · obtain rfl := List.mem_singleton.mp hf
      exact hearlier u ((hmem u).mp hu)
  · rw [dueCount, dueCount, hlist, List.countP_cons_of_pos (by simpa using hdue),
      show (s.fire t).rtTimerList = ts from herase]
    exact Nat.lt_succ_self _

/-- One round of `rt_timer_check`. -/
def Round (callback : τ → List (TimerOp τ)) (s s' : TimerSystem τ) : Prop :=
  ∃ t s₁, t ∈ s.rtTimerList ∧ (s.fire t).applyAll (callback t) = some s₁ ∧ s₁.restart t = some s'

/-- `rt_timer_check` fires what is due and nothing else. What each round keeps it keeps. -/
theorem Timed.checkLoop (hlongest : longest < rtTickHalf) {callback : τ → List (TimerOp τ)}
    {I : TimerSystem τ → Prop} (hround : ∀ s s', Timed longest s → Timed longest s' →
      s'.starting = s.starting → I s → Round callback s s' → I s')
    (h : Timed longest s) (hcheck : Checking s) (hI : I s)
    (hcallback : ∀ t, ∀ o ∈ callback t, o.Fair longest ∧ o.timer ∉ s.starting)
    {rounds : ℕ} (hrounds : dueCount s < rounds) :
    ∃ s', s.checkLoop callback rounds = some s' ∧ Timed longest s' ∧ I s' ∧
      ∀ t ∈ s'.rtTimerList, s'.since t ≤ s'.now ∧ s'.now < s'.due t := by
  induction rounds generalizing s with
  | zero => exact absurd hrounds (Nat.not_lt_zero _)
  | succ rounds ih =>
      rw [TimerSystem.checkLoop]
      cases hlist : s.rtTimerList with
      | nil =>
          refine ⟨s, rfl, h, hI, fun t ht => ?_⟩
          rw [hlist] at ht
          exact absurd ht List.not_mem_nil
      | cons t ts =>
          have ht : t ∈ s.rtTimerList := hlist ▸ List.mem_cons_self
          obtain ⟨hle, hlt⟩ := h.near t ht
          have hcomp : (s.rtTick - (s.timer t).timeoutTick).toNat < rtTickHalf ↔
              s.due t ≤ s.now := by
            rw [h.tick, h.wrapped t ht, toNat_sub_ofNat]
            exact diff_lt_iff (by decide) (by omega) (by omega)
          simp only [hcomp]
          by_cases hdue : s.due t ≤ s.now
          · obtain ⟨hfired, hchecking, hcount⟩ := h.fire hcheck hlist hdue
            obtain ⟨s₁, hcall, htimed₁, hkept₁⟩ := hfired.applyAll hlongest (hcallback t)
            have hout : t ∉ s₁.starting := by
              rw [hkept₁.starting]
              exact fun hin => (h.ready t hin).out ht
            obtain ⟨s₂, hrestart, htimed₂, hkept₂⟩ := htimed₁.restart hlongest hout
            have hkept := hkept₁.trans hkept₂
            have hcount₂ := hkept.dueCount_le htimed₂.nodup
            have hstarting : s₂.starting = s.starting := hkept.starting
            obtain ⟨s', hloop, hend⟩ := ih htimed₂ (hchecking.kept hkept)
              (hround s s₂ h htimed₂ hstarting hI ⟨t, s₁, ht, hcall, hrestart⟩)
              (fun u o ho => hstarting ▸ hcallback u o ho) (by omega)
            refine ⟨s', ?_, hend⟩
            rw [if_pos hdue, hcall, Option.bind_some, hrestart, Option.bind_some, hloop]
          · refine ⟨s, if_neg hdue, h, hI, fun u hu => ⟨(hcheck u hu).1, ?_⟩⟩
            have hsorted := h.sorted
            rw [hlist] at hu hsorted
            have hsort := (List.pairwise_cons.mp hsorted).1
            rcases List.mem_cons.mp hu with rfl | hu
            · exact Nat.not_le.mp hdue
            · rcases hsort u hu with hbefore | ⟨heq, -⟩ <;> omega

/-- A tick from a state in which nothing is overdue. -/
theorem Timed.rtTickIncrease (hlongest : longest < rtTickHalf) {callback : τ → List (TimerOp τ)}
    {I : TimerSystem τ → Prop} (hround : ∀ s s', Timed longest s → Timed longest s' →
      s'.starting = s.starting → I s → Round callback s s' → I s')
    (h : Timed longest s) (hcalm : Calm longest s)
    (hI : I { s with rtTick := s.rtTick + 1, now := s.now + 1 })
    (hcallback : ∀ t, ∀ o ∈ callback t, o.Fair longest ∧ o.timer ∉ s.starting) :
    ∃ s', s.rtTickIncrease callback = some s' ∧ Timed longest s' ∧ Calm longest s' ∧ I s' := by
  generalize hticked : { s with rtTick := s.rtTick + 1, now := s.now + 1 } = ticked at hI
  have htimed : Timed longest ticked := by
    rw [← hticked]
    exact { h with
      tick := by rw [h.tick, UInt32.ofNat_add]; rfl
      near := fun t ht => by
        obtain ⟨-, -, hlt⟩ := hcalm t ht
        obtain ⟨hle, -⟩ := h.near t ht
        exact ⟨by simp only; omega, by simp only; omega⟩
      ready := fun t ht => { h.ready t ht with begun := (h.ready t ht).begun.trans (Nat.le_succ _) }
      onTime := fun f hf => ⟨(h.onTime f hf).1, (h.onTime f hf).2.trans (Nat.le_succ _)⟩ }
  have hcheck : Checking ticked := by
    rw [← hticked]
    intro t ht
    obtain ⟨hsince, hlt, -⟩ := hcalm t ht
    refine ⟨hsince.trans (Nat.le_succ _), ?_⟩
    simp only
    refine (Nat.lt_or_ge (s.now + 1) (s.due t)).imp_right fun hle => ⟨by omega, fun f hf heq => ?_⟩
    have hbefore := (h.onTime f hf).2
    omega
  have hcount : dueCount ticked < ticked.rtTimerList.length + 1 :=
    Nat.lt_succ_of_le List.countP_le_length
  obtain ⟨s', hrun, htimed', hI', hlater⟩ := htimed.checkLoop hlongest hround hcheck hI
    (fun t o ho => by rw [← hticked]; exact hcallback t o ho) hcount
  refine ⟨s', by rw [TimerSystem.rtTickIncrease, hticked]; exact hrun, htimed', fun t ht => ?_, hI'⟩
  obtain ⟨hsince, hlt⟩ := hlater t ht
  exact ⟨hsince, by omega, by omega⟩

/-- One step. -/
theorem timerStep_timed (hlongest : longest < rtTickHalf) {a : TimerAction τ} {s' : TimerSystem τ}
    (h : Timed longest s) (hcalm : Calm longest s) (hprompt : Prompt longest s a)
    (hstep : timerStep s a = some s') : Timed longest s' ∧ Calm longest s' := by
  cases a with
  | op o =>
      obtain ⟨s₁, happly, htimed, hkept⟩ := h.apply hlongest hprompt.1 hprompt.2
      rw [timerStep, happly] at hstep
      obtain rfl := Option.some.inj hstep
      exact ⟨htimed, hcalm.kept hlongest hkept⟩
  | startBegin t =>
      obtain ⟨s₁, hbegin, htimed, hkept, hready, -⟩ := h.startBegin hlongest hprompt
      rw [timerStep, hbegin] at hstep
      obtain rfl := Option.some.inj hstep
      refine ⟨{ htimed with ready := ?_, starting := ?_ },
        fun u hu => hcalm.kept hlongest hkept u hu⟩
      · intro u hu
        rcases List.mem_cons.mp hu with rfl | hu
        · exact { hready with }
        · exact { htimed.ready u hu with }
      · exact List.nodup_cons.mpr ⟨hkept.starting ▸ hprompt, htimed.starting⟩
  | startEnd t =>
      rw [timerStep] at hstep
      split_ifs at hstep with ht
      obtain rfl := Option.some.inj hstep
      have hready := h.ready t ht
      refine ⟨h.startEnd hready hprompt List.erase_sublist (h.starting.not_mem_erase), ?_⟩
      intro u hu
      have hlate := hready.late
      have hprompt : s.now + longest < s.begun t + rtTickHalf := hprompt
      show (s.startEnd t).since u ≤ s.now ∧ s.now < max (s.due u) ((s.startEnd t).since u + 1) ∧
        s.now + longest + 1 < s.due u + rtTickHalf
      rcases mem_place.mp hu with rfl | hu
      · rw [show (s.startEnd u).since u = s.now from Function.update_self _ _ _]
        omega
      · have hne : u ≠ t := fun heq => hready.out (heq ▸ hu)
        rw [show (s.startEnd t).since u = s.since u from Function.update_of_ne hne _ _]
        exact hcalm u hu
  | tick callback =>
      obtain ⟨s₁, htick, htimed, hcalm', -⟩ := h.rtTickIncrease (I := fun _ => True) hlongest
        (fun _ _ _ _ _ _ _ => trivial) hcalm trivial hprompt
      rw [timerStep, htick] at hstep
      obtain rfl := Option.some.inj hstep
      exact ⟨htimed, hcalm'⟩

end Operations

/-- A timer is marked as activated exactly when it is in the list, but for one whose function is
being called. -/
structure Flagged {τ : Type*} (skip : Option τ) (s : TimerSystem τ) : Prop where
  nodup : s.rtTimerList.Nodup
  out : ∀ t ∈ skip, t ∉ s.rtTimerList
  marked : ∀ t, t ∉ skip → ((s.timer t).activated = true ↔ t ∈ s.rtTimerList)

namespace Flagged

variable {τ : Type*} [DecidableEq τ] {skip : Option τ} {s s' : TimerSystem τ} {t : τ}

theorem setTimer (h : Flagged skip s) {f : RtTimer → RtTimer}
    (hf : (f (s.timer t)).activated = (s.timer t).activated) : Flagged skip (s.setTimer t f) := by
  refine { h with marked := fun u hu => ?_ }
  by_cases hut : u = t
  · subst hut
    rw [show (s.setTimer u f).timer u = _ from Function.update_self u _ s.timer, hf]
    exact h.marked u hu
  · rw [show (s.setTimer t f).timer u = _ from Function.update_of_ne hut _ s.timer]
    exact h.marked u hu

/-- A timer is taken out of the list, and is no longer marked. -/
theorem erase (h : Flagged skip s) {f : RtTimer → RtTimer}
    (hf : (f (s.timer t)).activated = false) :
    Flagged skip { s.setTimer t f with rtTimerList := s.rtTimerList.erase t } := by
  refine ⟨h.nodup.erase t, fun u hu hin => h.out u hu (List.mem_of_mem_erase hin), fun u hu => ?_⟩
  by_cases hut : u = t
  · subst hut
    simp [TimerSystem.setTimer, hf, h.nodup.not_mem_erase]
  · simpa [TimerSystem.setTimer, hut] using h.marked u hu

/-- A timer that is not in the list is put into it. -/
theorem startEnd (h : Flagged skip s) (hskip : t ∉ skip) (hout : t ∉ s.rtTimerList) :
    Flagged skip (s.startEnd t) := by
  refine ⟨place_perm.nodup_iff.mpr (List.nodup_cons.mpr ⟨hout, h.nodup⟩), fun u hu hin => ?_,
    fun u hu => ?_⟩
  · rcases mem_place.mp hin with rfl | hin
    · exact hskip hu
    · exact h.out u hu hin
  · refine Iff.trans ?_ (show u ∈ place (s.later t) t s.rtTimerList ↔ _ from mem_place).symm
    by_cases hut : u = t
    · subst hut
      simp [TimerSystem.startEnd, TimerSystem.setTimer]
    · simpa [TimerSystem.startEnd, TimerSystem.setTimer, hut] using h.marked u hu

theorem startBegin (h : Flagged skip s) (hbegin : s.startBegin t = some s') :
    Flagged skip s' ∧ t ∉ s'.rtTimerList := by
  rw [TimerSystem.startBegin] at hbegin
  split_ifs at hbegin
  obtain rfl := Option.some.inj hbegin
  exact ⟨{ h.erase (t := t) (f := fun r =>
    { r with activated := false, timeoutTick := s.rtTick + r.initTick }) rfl with },
    h.nodup.not_mem_erase⟩

theorem rtTimerStart (h : Flagged skip s) (hskip : t ∉ skip) (hstart : s.rtTimerStart t = some s') :
    Flagged skip s' := by
  obtain ⟨s₁, hbegin, rfl⟩ := Option.map_eq_some_iff.mp hstart
  obtain ⟨h₁, hout⟩ := h.startBegin hbegin
  exact h₁.startEnd hskip hout

theorem rtTimerStop (h : Flagged skip s) (t : τ) : Flagged skip (s.rtTimerStop t) := by
  rw [TimerSystem.rtTimerStop]
  split_ifs
  · exact h.erase rfl
  · exact h

theorem apply (h : Flagged skip s) {o : TimerOp τ} (ho : ∀ t ∈ skip, o ≠ .start t)
    (happly : s.apply o = some s') : Flagged skip s' := by
  cases o with
  | start t => exact h.rtTimerStart (fun ht => ho t ht rfl) happly
  | stop t => exact Option.some.inj happly ▸ h.rtTimerStop t
  | setTime t time => exact Option.some.inj happly ▸ h.setTimer rfl
  | setOneshot t => exact Option.some.inj happly ▸ h.setTimer rfl
  | setPeriodic t => exact Option.some.inj happly ▸ h.setTimer rfl

theorem applyAll (h : Flagged skip s) {ops : List (TimerOp τ)}
    (hops : ∀ t ∈ skip, TimerOp.start t ∉ ops) (happly : s.applyAll ops = some s') :
    Flagged skip s' := by
  induction ops generalizing s with
  | nil => exact Option.some.inj happly ▸ h
  | cons o ops ih =>
      rw [TimerSystem.applyAll, List.foldlM_cons] at happly
      obtain ⟨s₁, hfirst, hrest⟩ := Option.bind_eq_some_iff.mp happly
      refine ih (h.apply (fun t ht heq => hops t ht (heq ▸ List.mem_cons_self)) hfirst)
        (fun t ht hin => hops t ht (List.mem_cons_of_mem o hin)) hrest

omit [DecidableEq τ] in
/-- The mark of the timer that was called is set right. -/
theorem unskip (h : Flagged (some t) s) (ht : (s.timer t).activated = false) : Flagged none s := by
  refine ⟨h.nodup, nofun, fun u _ => ?_⟩
  by_cases hu : t = u
  · subst hu
    simp [ht, h.out t rfl]
  · exact h.marked u fun hin => hu (Option.some.inj hin)

/-- One round of `rt_timer_check`, in which the function does not start its own timer. -/
theorem round {callback : τ → List (TimerOp τ)} (hself : ∀ t, TimerOp.start t ∉ callback t)
    (h : Flagged none s) (hround : Round callback s s') : Flagged none s' := by
  obtain ⟨t, s₁, ht, hcall, hrestart⟩ := hround
  have hfired : Flagged (some t) (s.fire t) := by
    refine ⟨h.nodup.erase t, fun u hu => ?_, fun u hu => (h.marked u nofun).trans ?_⟩
    · exact Option.some.inj hu ▸ h.nodup.not_mem_erase
    · exact (List.mem_erase_of_ne fun heq => hu (congrArg some heq.symm)).symm
  have hcalled := hfired.applyAll (fun u hu => Option.some.inj hu ▸ hself t) hcall
  have hcleared : Flagged none (s₁.setTimer t fun r => { r with activated := false }) := by
    refine unskip (t := t) ⟨hcalled.nodup, hcalled.out, fun u hu => ?_⟩
      (by simp [TimerSystem.setTimer])
    have hne : u ≠ t := fun heq => hu (congrArg some heq.symm)
    simpa [TimerSystem.setTimer, hne] using hcalled.marked u hu
  rw [TimerSystem.restart] at hrestart
  split_ifs at hrestart
  · exact hcleared.rtTimerStart nofun hrestart
  · exact Option.some.inj hrestart ▸ hcleared

end Flagged

section Runs

variable {τ : Type*} [DecidableEq τ]

instance [Fintype τ] (longest : ℕ) (s : TimerSystem τ) (a : TimerAction τ) :
    Decidable (Prompt longest s a) :=
  match a with
  | .op o => inferInstanceAs (Decidable (o.Fair longest ∧ o.timer ∉ s.starting))
  | .startBegin t => inferInstanceAs (Decidable (t ∉ s.starting))
  | .startEnd t => inferInstanceAs (Decidable (s.now + longest < s.begun t + rtTickHalf))
  | .tick callback => inferInstanceAs
      (Decidable (∀ t, ∀ o ∈ callback t, o.Fair longest ∧ o.timer ∉ s.starting))

variable {longest : ℕ} {now : UInt32} {timer : τ → RtTimer} {as : List (TimerAction τ)}
  {s : TimerSystem τ}

omit [DecidableEq τ] in
theorem timed_start
    (hinits : ∀ t, 0 < (timer t).initTick.toNat ∧ (timer t).initTick.toNat ≤ longest) :
    Timed longest (.start now timer) ∧ Calm longest (.start now timer) := by
  refine ⟨{
    tick := (UInt32.ofNat_toNat (x := now)).symm
    inits := hinits
    sorted := .nil
    once := .nil
    wrapped := nofun
    near := nofun
    ready := nofun
    starting := .nil
    turns := nofun
    firedTurns := nofun
    firedOnce := .nil
    onTime := nofun
    inOrder := .nil }, nofun⟩

theorem timed_run (hlongest : longest < rtTickHalf)
    (hinits : ∀ t, 0 < (timer t).initTick.toNat ∧ (timer t).initTick.toNat ≤ longest)
    (h : Run timerStep (Prompt longest) (.start now timer) as s) :
    Timed longest s ∧ Calm longest s :=
  h.invariant (fun s => Timed longest s ∧ Calm longest s)
    (fun _ _ _ hs hprompt hstep => timerStep_timed hlongest hs.1 hs.2 hprompt hstep)
    (timed_start hinits)

/-- No function starts its own timer: `rt_timer_check` takes the mark from it afterwards. -/
def Selfless : TimerAction τ → Prop
  | .tick callback => ∀ t, TimerOp.start t ∉ callback t
  | _ => True

instance [Fintype τ] (a : TimerAction τ) : Decidable (Selfless a) :=
  match a with
  | .tick callback => inferInstanceAs (Decidable (∀ t, TimerOp.start t ∉ callback t))
  | .op _ | .startBegin _ | .startEnd _ => isTrue trivial

theorem timerStep_flagged (hlongest : longest < rtTickHalf) {a : TimerAction τ}
    {s' : TimerSystem τ} (htimed : Timed longest s) (hcalm : Calm longest s)
    (h : Flagged none s) (hprompt : Prompt longest s a) (hselfless : Selfless a)
    (hstep : timerStep s a = some s') : Flagged none s' := by
  cases a with
  | op o => exact h.apply nofun hstep
  | startBegin t =>
      obtain ⟨s₁, hbegin, rfl⟩ := Option.map_eq_some_iff.mp hstep
      exact { (h.startBegin hbegin).1 with }
  | startEnd t =>
      rw [timerStep] at hstep
      split_ifs at hstep with ht
      obtain rfl := Option.some.inj hstep
      exact { h.startEnd nofun (htimed.ready t ht).out with }
  | tick callback =>
      obtain ⟨s₁, htick, -, -, hflagged⟩ := htimed.rtTickIncrease (I := Flagged none) hlongest
        (fun _ _ _ _ _ hs hround => hs.round hselfless hround) hcalm { h with } hprompt
      rw [timerStep, htick] at hstep
      exact Option.some.inj hstep ▸ hflagged

end Runs

end Kernel
