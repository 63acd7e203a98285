import Mathlib.Algebra.Order.Ring.Nat
import Esp32AtMqtt.Transition.Run

/-!
# The heartbeat watchdog

`HeartOverTimeCheck` counts how many times `OneOverTime` ticks have passed since
`LastHeartTick`, in a counter of eight bits, and moves `LastHeartTick` each time it counts.
When the count is above `OverTimes` it starts the module again. A registration reply sets
`LastHeartTick`, but not the counter; a heartbeat packet sets neither.

The run has a clock that does not wrap; the ticks of the code are its value modulo 2^32. It
records when a packet was handled last, and for every time the watchdog has fired, when that
was and what packet came before.
-/

namespace Gsm

open Transition

/-- The fields of `stHeartOverTime` that are used. -/
structure HeartOverTime where
  heartBeartWaitTimes : UInt8
  heartBwtStartMark : UInt8
  lastHeartTick : UInt32
  deriving DecidableEq, Repr

/-- `OverTimes`. -/
def overTimes : UInt8 := 60

/-- `OneOverTime`. -/
def oneOverTime : UInt32 := 1000

/-- The structure after `memset`. -/
def HeartOverTime.zero : HeartOverTime := ⟨0, 0, 0⟩

/-- `HeartOverTimeCheck()` at `currentTick`, and whether it calls `WaitHeartOvertimeHandle`,
which clears the structure. -/
def heartOverTimeCheck (h : HeartOverTime) (currentTick : UInt32) : HeartOverTime × Bool :=
  if h.heartBwtStartMark = 1 then
    if oneOverTime < currentTick - h.lastHeartTick then
      let temp := (currentTick - h.lastHeartTick) / oneOverTime
      let waitTimes := h.heartBeartWaitTimes + temp.toUInt8
      if overTimes < waitTimes then (.zero, true)
      else ({ h with heartBeartWaitTimes := waitTimes, lastHeartTick := currentTick }, false)
    else (h, false)
  else (h, false)

/-- What `TLV_RegisetBack` does to the structure. -/
def tlvRegisetBack (h : HeartOverTime) (currentTick : UInt32) : HeartOverTime :=
  { h with heartBwtStartMark := 1, lastHeartTick := currentTick }

/-- What `TLV_HeartBeat` does to the structure. -/
def tlvHeartBeat (h : HeartOverTime) : HeartOverTime := h

/-- The watchdog with a clock. `lastPacket` is when a packet was handled last, `fired` is when
the watchdog fired, each time with the `lastPacket` of then, and `sinceCheck` is how long ago
it was checked or started. -/
structure HeartRun where
  heart : HeartOverTime
  now : ℕ
  lastPacket : Option ℕ
  fired : List (ℕ × Option ℕ)
  sinceCheck : ℕ
  deriving DecidableEq, Repr

/-- `rt_tick_get()`. -/
def HeartRun.tick (s : HeartRun) : UInt32 := UInt32.ofNat s.now

def HeartRun.init (now : ℕ) : HeartRun := ⟨.zero, now, none, [], 0⟩

inductive HeartAction
  | pass (ticks : ℕ)
  | check
  | regisetBack
  | heartBeat
  deriving DecidableEq, Repr

def heartStep (s : HeartRun) : HeartAction → Option HeartRun
  | .pass ticks => some { s with now := s.now + ticks, sinceCheck := s.sinceCheck + ticks }
  | .check =>
      some { s with
        heart := (heartOverTimeCheck s.heart s.tick).1
        fired :=
          if (heartOverTimeCheck s.heart s.tick).2 then s.fired ++ [(s.now, s.lastPacket)]
          else s.fired
        sinceCheck := 0 }
  | .regisetBack =>
      some { s with
        heart := tlvRegisetBack s.heart s.tick, lastPacket := some s.now, sinceCheck := 0 }
  | .heartBeat => some { s with heart := tlvHeartBeat s.heart, lastPacket := some s.now }

/-- The watchdog has fired only when no packet had been handled for `OverTimes * OneOverTime`
ticks. -/
def OnSilence (s : HeartRun) : Prop :=
  ∀ f ∈ s.fired, ∀ p ∈ f.2, p + overTimes.toNat * oneOverTime.toNat ≤ f.1

/-- The ticks that the watchdog has waited, as a check would count them now. -/
def HeartOverTime.waited (h : HeartOverTime) (currentTick : UInt32) : ℕ :=
  (h.heartBeartWaitTimes + ((currentTick - h.lastHeartTick) / oneOverTime).toUInt8).toNat *
      oneOverTime.toNat + ((currentTick - h.lastHeartTick) % oneOverTime).toNat

/-- A packet is handled only while the watchdog has hardly begun to wait: a registration when at
most one wait is counted, and a heartbeat when at most `OneOverTime` ticks are. -/
def Fresh (s : HeartRun) : HeartAction → Prop
  | .regisetBack => s.heart.heartBeartWaitTimes ≤ 1
  | .heartBeat =>
      s.heart.heartBwtStartMark = 1 → s.heart.waited s.tick ≤ oneOverTime.toNat
  | _ => True

/-- Only checks, and the last one was never more than `OneOverTime` ticks ago. -/
def Polling (s : HeartRun) : HeartAction → Prop
  | .pass ticks => s.sinceCheck + ticks ≤ oneOverTime.toNat
  | .check => True
  | .regisetBack => False
  | .heartBeat => False

instance (s : HeartRun) : ∀ a : HeartAction, Decidable (Fresh s a)
  | .pass _ => isTrue trivial
  | .check => isTrue trivial
  | .regisetBack => inferInstanceAs (Decidable (_ ≤ _))
  | .heartBeat => inferInstanceAs (Decidable (_ → _))

instance (s : HeartRun) : ∀ a : HeartAction, Decidable (Polling s a)
  | .pass _ => inferInstanceAs (Decidable (_ ≤ _))
  | .check => isTrue trivial
  | .regisetBack => isFalse id
  | .heartBeat => isFalse id

/-- The ticks since `LastHeartTick`, as the code computes them. -/
def HeartRun.elapsed (s : HeartRun) : ℕ := (s.tick - s.heart.lastHeartTick).toNat

theorem waited_eq (s : HeartRun) :
    s.heart.waited s.tick =
      (s.heart.heartBeartWaitTimes.toNat * 1000 + s.elapsed) % 256000 := by
  simp only [HeartOverTime.waited, HeartRun.elapsed, oneOverTime, UInt8.toNat_add,
    UInt32.toNat_toUInt8, UInt32.toNat_div, UInt32.toNat_mod, UInt32.reduceToNat]
  omega

theorem elapsed_lt (s : HeartRun) : s.elapsed < 2 ^ 32 := (s.tick - s.heart.lastHeartTick).toNat_lt

/-- Time passes for the code as it does, up to the wrap. -/
theorem elapsed_pass (s : HeartRun) (ticks sinceCheck : ℕ) :
    ({ s with now := s.now + ticks, sinceCheck := sinceCheck } : HeartRun).elapsed =
      (s.elapsed + ticks) % 2 ^ 32 := by
  simp only [HeartRun.elapsed, HeartRun.tick, UInt32.toNat_sub, UInt32.toNat_ofNat']
  omega

/-- One tick more is at most one tick waited more, also where the ticks wrap. -/
theorem waited_succ_le {c d : ℕ} (hc : c ≤ 60) (hd : d < 2 ^ 32) :
    (c * 1000 + (d + 1) % 2 ^ 32) % 256000 ≤ (c * 1000 + d) % 256000 + 1 := by
  rcases Nat.lt_or_ge (d + 1) (2 ^ 32) with hlt | hge
  · rw [Nat.mod_eq_of_lt hlt]
    omega
  · obtain rfl : d = 2 ^ 32 - 1 := by omega
    omega

theorem waited_pass_le {c d : ℕ} (hc : c ≤ 60) (hd : d < 2 ^ 32) (ticks : ℕ) :
    (c * 1000 + (d + ticks) % 2 ^ 32) % 256000 ≤ (c * 1000 + d) % 256000 + ticks := by
  induction ticks with
  | zero => exact Nat.le_of_eq (by rw [Nat.add_zero, Nat.mod_eq_of_lt hd, Nat.add_zero])
  | succ ticks ih =>
      have hnext := waited_succ_le hc (Nat.mod_lt (d + ticks) (Nat.two_pow_pos 32))
      rw [Nat.mod_add_mod] at hnext
      exact Nat.le_trans hnext (Nat.succ_le_succ ih)

/-- When `LastHeartTick` has just been set, the counted waits are all there is. -/
theorem waited_restart (h : HeartOverTime) (mark : UInt8) (currentTick : UInt32) :
    HeartOverTime.waited ⟨h.heartBeartWaitTimes, mark, currentTick⟩ currentTick =
      h.heartBeartWaitTimes.toNat * 1000 := by
  have hzero : ((0 : UInt32) / oneOverTime).toUInt8 = 0 := by decide
  have hrest : ((0 : UInt32) % oneOverTime).toNat = 0 := by decide
  rw [HeartOverTime.waited, UInt32.sub_self, hzero, hrest, UInt8.add_zero, Nat.add_zero]
  rfl

/-- What a check finds: the watchdog is not running, or has not waited long enough to count;
or it counts, and fires when the count is above `OverTimes`. -/
theorem heartOverTimeCheck_cases (h : HeartOverTime) (currentTick : UInt32) :
    (heartOverTimeCheck h currentTick = (h, false) ∧
        (h.heartBwtStartMark = 1 → (currentTick - h.lastHeartTick).toNat ≤ 1000)) ∨
      (h.heartBwtStartMark = 1 ∧ 1000 < (currentTick - h.lastHeartTick).toNat ∧
        ∃ waitTimes, waitTimes = h.heartBeartWaitTimes +
            ((currentTick - h.lastHeartTick) / oneOverTime).toUInt8 ∧
          ((overTimes < waitTimes ∧ heartOverTimeCheck h currentTick = (.zero, true)) ∨
            (waitTimes ≤ overTimes ∧ heartOverTimeCheck h currentTick =
              ({ h with heartBeartWaitTimes := waitTimes, lastHeartTick := currentTick },
                false)))) := by
  by_cases hmark : h.heartBwtStartMark = 1
  · by_cases hlong : oneOverTime < currentTick - h.lastHeartTick
    · refine .inr ⟨hmark, UInt32.lt_iff_toNat_lt.mp hlong, _, rfl, ?_⟩
      rw [heartOverTimeCheck, if_pos hmark, if_pos hlong]
      by_cases hfire : overTimes < h.heartBeartWaitTimes +
          ((currentTick - h.lastHeartTick) / oneOverTime).toUInt8
      · exact .inl ⟨hfire, if_pos hfire⟩
      · exact .inr ⟨UInt8.not_lt.mp hfire, if_neg hfire⟩
    · refine .inl ⟨?_, fun _ => UInt32.le_iff_toNat_le.mp (UInt32.not_lt.mp hlong)⟩
      rw [heartOverTimeCheck, if_pos hmark, if_neg hlong]
  · exact .inl ⟨if_neg hmark, fun h => absurd h hmark⟩

/-- The invariant of the first half: the watchdog has waited no longer than there was silence,
but for `OneOverTime` ticks. -/
structure Waiting (s : HeartRun) : Prop where
  silent : OnSilence s
  counted : s.heart.heartBeartWaitTimes ≤ overTimes
  waited : s.heart.heartBwtStartMark = 1 →
    ∀ p ∈ s.lastPacket, p + s.heart.waited s.tick ≤ s.now + oneOverTime.toNat

theorem waiting_pass {s : HeartRun} (hs : Waiting s) (ticks : ℕ) :
    Waiting { s with now := s.now + ticks, sinceCheck := s.sinceCheck + ticks } := by
  refine ⟨hs.silent, hs.counted, fun hmark p hp => ?_⟩
  have hold := hs.waited hmark p hp
  have hcount : s.heart.heartBeartWaitTimes.toNat ≤ 60 := UInt8.le_iff_toNat_le.mp hs.counted
  have hmore := waited_pass_le hcount (elapsed_lt s) ticks
  rw [waited_eq] at hold
  show p + HeartOverTime.waited _ (HeartRun.tick _) ≤ s.now + ticks + oneOverTime.toNat
  rw [waited_eq, elapsed_pass]
  show p + (s.heart.heartBeartWaitTimes.toNat * 1000 + (s.elapsed + ticks) % 2 ^ 32) % 256000 ≤ _
  omega

theorem onSilence_append {s : HeartRun} (hs : OnSilence s)
    (hnow : ∀ p ∈ s.lastPacket, p + overTimes.toNat * oneOverTime.toNat ≤ s.now)
    (heart : HeartOverTime) :
    OnSilence { s with
      heart := heart, fired := s.fired ++ [(s.now, s.lastPacket)], sinceCheck := 0 } := by
  intro f hf
  rcases List.mem_append.mp hf with hf | hf
  · exact hs f hf
  · rw [List.mem_singleton.mp hf]
    exact hnow

theorem waiting_check {s t : HeartRun} (hs : Waiting s) (h : heartStep s .check = some t) :
    Waiting t := by
  cases h
  rcases heartOverTimeCheck_cases s.heart s.tick with
    ⟨heq, -⟩ | ⟨hmark, hlong, waits, hwaits, hcase⟩
  · rw [heq]
    exact ⟨hs.silent, hs.counted, hs.waited⟩
  · have hwaited := hs.waited hmark
    rw [HeartOverTime.waited, ← hwaits] at hwaited
    rcases hcase with ⟨hfire, heq⟩ | ⟨hle, heq⟩
    · rw [heq]
      refine ⟨onSilence_append hs.silent (fun p hp => ?_) _,
        (by decide : (0 : UInt8) ≤ overTimes), nofun⟩
      have hp' := hwaited p hp
      have hcount : 60 < waits.toNat := UInt8.lt_iff_toNat_lt.mp hfire
      simp only [oneOverTime, overTimes, UInt32.reduceToNat, UInt8.reduceToNat] at hp' ⊢
      omega
    · rw [heq]
      refine ⟨hs.silent, hle, fun _ p hp => ?_⟩
      have hp' := hwaited p hp
      have hnew := waited_restart ⟨waits, 1, 0⟩ s.heart.heartBwtStartMark s.tick
      show p + HeartOverTime.waited ⟨waits, s.heart.heartBwtStartMark, s.tick⟩ s.tick ≤ _
      rw [hnew]
      exact Nat.le_trans (Nat.add_le_add_left (Nat.le_add_right _ _) p) hp'

theorem waiting_step {s t : HeartRun} {a : HeartAction} (hs : Waiting s) (hfresh : Fresh s a)
    (h : heartStep s a = some t) : Waiting t := by
  cases a with
  | pass ticks =>
      cases h
      exact waiting_pass hs ticks
  | check => exact waiting_check hs h
  | regisetBack =>
      cases h
      refine ⟨hs.silent, hs.counted, fun _ p hp => ?_⟩
      obtain rfl : s.now = p := Option.some.inj hp
      have hcount : s.heart.heartBeartWaitTimes.toNat ≤ 1 := UInt8.le_iff_toNat_le.mp hfresh
      show s.now + HeartOverTime.waited ⟨s.heart.heartBeartWaitTimes, 1, s.tick⟩ s.tick ≤
        s.now + 1000
      rw [waited_restart]
      omega
  | heartBeat =>
      cases h
      refine ⟨hs.silent, hs.counted, fun hmark p hp => ?_⟩
      obtain rfl : s.now = p := Option.some.inj hp
      exact Nat.add_le_add_left (hfresh hmark) s.now

/-! ## The watchdog fires -/

/-- The invariant of the second half, since the registration at `start`: every wait counted
stands for at most two times `OneOverTime`. -/
structure Counting (start : ℕ) (s : HeartRun) : Prop where
  mark : s.heart.heartBwtStartMark = 1
  counted : s.heart.heartBeartWaitTimes ≤ overTimes
  reference : ∃ last, s.heart.lastHeartTick = UInt32.ofNat last ∧ last ≤ s.now ∧
    s.now ≤ last + 1000 + s.sinceCheck ∧ last ≤ start + 2000 * s.heart.heartBeartWaitTimes.toNat
  polled : s.sinceCheck ≤ 1000

theorem counting_check {start : ℕ} {s t : HeartRun} (hs : Counting start s)
    (h : heartStep s .check = some t) :
    s.fired.length < t.fired.length ∨ Counting start t ∧ t.fired = s.fired := by
  cases h
  obtain ⟨last, hlast, hle, hnow, hstart⟩ := hs.reference
  have hpolled := hs.polled
  have helapsed : (s.tick - s.heart.lastHeartTick).toNat = s.now - last := by
    rw [hlast, HeartRun.tick, UInt32.toNat_sub, UInt32.toNat_ofNat', UInt32.toNat_ofNat']
    omega
  rcases heartOverTimeCheck_cases s.heart s.tick with ⟨heq, hshort⟩ |
    ⟨hmark, hlong, waits, hwaits, hcase⟩
  · have hshort' := hshort hs.mark
    rw [helapsed] at hshort'
    rw [heq]
    refine .inr ⟨⟨hs.mark, hs.counted, ⟨last, hlast, hle, ?_, hstart⟩, Nat.zero_le _⟩, rfl⟩
    show s.now ≤ last + 1000 + 0
    omega
  · rcases hcase with ⟨-, heq⟩ | ⟨hcount, heq⟩
    · rw [heq]
      exact .inl (by simp)
    · rw [heq]
      rw [helapsed] at hlong
      have hcounted : waits.toNat =
          (s.heart.heartBeartWaitTimes.toNat + (s.now - last) / 1000) % 256 := by
        rw [hwaits, UInt8.toNat_add, UInt32.toNat_toUInt8, UInt32.toNat_div, helapsed]
        exact Nat.add_mod_mod _ _ _
      have hold : s.heart.heartBeartWaitTimes.toNat ≤ 60 := UInt8.le_iff_toNat_le.mp hs.counted
      refine .inr ⟨⟨hs.mark, hcount, ⟨s.now, rfl, Nat.le_refl _, ?_, ?_⟩, Nat.zero_le _⟩, rfl⟩
      · exact Nat.le_add_right _ _
      · show s.now ≤ start + 2000 * waits.toNat
        omega

/-- A step of the polled watchdog: it has fired since the registration, or it goes on counting. -/
theorem counting_step {start : ℕ} {fired : List (ℕ × Option ℕ)} {s t : HeartRun} {a : HeartAction}
    (hs : fired.length < s.fired.length ∨ Counting start s ∧ s.fired = fired)
    (hpolling : Polling s a) (h : heartStep s a = some t) :
    fired.length < t.fired.length ∨ Counting start t ∧ t.fired = fired := by
  cases a with
  | pass ticks =>
      cases h
      refine hs.imp_right fun ⟨hcounting, hfired⟩ => ⟨?_, hfired⟩
      obtain ⟨last, hlast, hle, hnow, hstart⟩ := hcounting.reference
      refine ⟨hcounting.mark, hcounting.counted, ⟨last, hlast, ?_, ?_, hstart⟩, hpolling⟩
      · exact Nat.le_trans hle (Nat.le_add_right _ _)
      · show s.now + ticks ≤ last + 1000 + (s.sinceCheck + ticks)
        omega
  | check =>
      rcases hs with hmore | ⟨hcounting, rfl⟩
      · left
        cases h
        show _ < (if _ then _ else _ : List (ℕ × Option ℕ)).length
        split_ifs
        · rw [List.length_append]
          exact Nat.lt_add_right _ hmore
        · exact hmore
      · exact counting_check hcounting h
  | regisetBack => exact hpolling.elim
  | heartBeat => exact hpolling.elim

/-- The count is never above `OverTimes` when a function returns. -/
theorem counted_step {s t : HeartRun} {a : HeartAction}
    (hs : s.heart.heartBeartWaitTimes ≤ overTimes) (h : heartStep s a = some t) :
    t.heart.heartBeartWaitTimes ≤ overTimes := by
  cases a with
  | check =>
      cases h
      rcases heartOverTimeCheck_cases s.heart s.tick with ⟨heq, -⟩ | ⟨-, -, waits, -, hcase⟩
      · rw [heq]
        exact hs
      · rcases hcase with ⟨-, heq⟩ | ⟨hle, heq⟩
        · rw [heq]
          exact (by decide : (0 : UInt8) ≤ overTimes)
        · rw [heq]
          exact hle
  | _ =>
      cases h
      exact hs

/-- The watchdog fires only on silence when packets are handled only while it has hardly begun
to wait; and polled often enough, it has fired when `2 * (OverTimes + 1) * OneOverTime` ticks
have passed after a registration, and more, without a packet. -/
theorem watchdog (now : ℕ) :
    (∀ as s, Run heartStep Fresh (.init now) as s → OnSilence s) ∧
    ∀ as s t bs u, Run heartStep unconditional (.init now) as s →
      heartStep s .regisetBack = some t → Run heartStep Polling t bs u →
        2 * (overTimes.toNat + 1) * oneOverTime.toNat < u.now - t.now →
          t.fired.length < u.fired.length := by
  constructor
  · intro as s hrun
    have hinit : Waiting (.init now) := by
      refine ⟨?_, (by decide : (0 : UInt8) ≤ overTimes), nofun⟩
      exact fun f hf => absurd hf List.not_mem_nil
    exact (hrun.invariant Waiting (fun _ _ _ hs hok hst => waiting_step hs hok hst) hinit).silent
  · intro as s t bs u hbefore hregister hrun hlong
    have hcount := hbefore.invariant (fun s => s.heart.heartBeartWaitTimes ≤ overTimes)
      (fun _ _ _ hs _ hst => counted_step hs hst) (by decide : (0 : UInt8) ≤ overTimes)
    cases hregister
    have hstart : Counting s.now { s with
        heart := tlvRegisetBack s.heart s.tick, lastPacket := some s.now, sinceCheck := 0 } :=
      ⟨rfl, hcount, ⟨s.now, rfl, Nat.le_refl _, Nat.le_add_right _ _, Nat.le_add_right _ _⟩,
        Nat.zero_le _⟩
    have hend := hrun.invariant
      (fun u => s.fired.length < u.fired.length ∨ Counting s.now u ∧ u.fired = s.fired)
      (fun _ _ _ hs hok hst => counting_step hs hok hst) (.inr ⟨hstart, rfl⟩)
    refine hend.resolve_right fun ⟨hcounting, _⟩ => ?_
    obtain ⟨last, -, -, hnow, hlast⟩ := hcounting.reference
    have hpolled := hcounting.polled
    have hold : u.heart.heartBeartWaitTimes.toNat ≤ 60 :=
      UInt8.le_iff_toNat_le.mp hcounting.counted
    have hgone : 2 * (60 + 1) * 1000 < u.now - s.now := hlong
    omega

/-- A round of the thread in which the watchdog is checked. -/
def checkRound : List HeartAction := [.pass 1000, .check]

/-- A heartbeat comes soon after the registration, and then none for two minutes. -/
theorem watchdog_fires :
    (∃ s, Run heartStep Fresh (.init 0)
        ([.regisetBack, .pass 500, .heartBeat] ++ (List.replicate 123 checkRound).flatten) s ∧
      s.fired ≠ [] ∧ OnSilence s) ∧
    ∃ u, Run heartStep Polling
        ⟨tlvRegisetBack .zero 0, 0, some 0, [], 0⟩ (List.replicate 123 checkRound).flatten u ∧
      ([] : List (ℕ × Option ℕ)).length < u.fired.length := by
  constructor
  · obtain ⟨s, hrun, hs⟩ := Run.exists_of_exec heartStep Fresh (.init 0)
      ([.regisetBack, .pass 500, .heartBeat] ++ (List.replicate 123 checkRound).flatten)
      (fun s => decide (s.fired ≠ [])) (by decide +kernel)
    exact ⟨s, hrun, of_decide_eq_true hs, (watchdog 0).1 _ s hrun⟩
  · obtain ⟨u, hrun, hu⟩ := Run.exists_of_exec heartStep Polling
      ⟨tlvRegisetBack .zero 0, 0, some 0, [], 0⟩ (List.replicate 123 checkRound).flatten
      (fun u => decide (122000 < u.now)) (by decide +kernel)
    exact ⟨u, hrun, (watchdog 0).2 [] (.init 0) _ _ u .nil rfl hrun (of_decide_eq_true hu)⟩

/-- The packets of a minute do not keep the watchdog from firing. -/
theorem watchdog_despite_heartbeats :
    ¬ ((∀ now as s, Run heartStep unconditional (.init now) as s → OnSilence s) ∧
      ∀ now as s t bs u, Run heartStep unconditional (.init now) as s →
        heartStep s .regisetBack = some t → Run heartStep Polling t bs u →
          2 * (overTimes.toNat + 1) * oneOverTime.toNat < u.now - t.now →
            t.fired.length < u.fired.length) := by
  rintro ⟨hall, -⟩
  obtain ⟨s, hrun, hs⟩ := Run.exists_of_exec heartStep unconditional (.init 0)
    (.regisetBack :: (List.replicate 61 [.pass 1000, .heartBeat, .pass 1, .check]).flatten)
    (fun s => decide (s.fired = [(61061, some 61060)])) (by decide +kernel)
  have hsilent := hall 0 _ s hrun
  rw [OnSilence, of_decide_eq_true hs] at hsilent
  exact absurd (hsilent _ (List.mem_singleton_self _) 61060 rfl) (by decide)

end Gsm
