import Esp32AtMqtt.Gsm.Bringup

/-!
# How often a stage is tried

The stages of `GSM_ConnectingLoop` share the counter `TryNum`. A stage that has failed counts it up
and tests it: all of them with `>= MaxTryNum`, but `TEST_AT_COMM` with `> MaxTryNum`. Here the calls
that fail are counted beside it, and every change of the station is recorded. No stage fails more
than `MaxTryNum` times, and every stage is entered with `TryNum` 0, exactly along the runs in which
`TEST_AT_COMM` does not fail for the fifth time and nothing else sends a stage that has failed back
to `POWER_REST` (`bounded_iff`).
-/

namespace Gsm.Thread

open Transition

/-- A stay at a station that is over: how many calls failed there, and the station that was entered
then, with `TryNum`. -/
structure Stay where
  station : ConnectStation
  failures : ℕ
  next : ConnectStation
  tryNum : UInt8
  deriving DecidableEq, Repr

/-- The thread, the calls that have failed since the station changed, and the stays before. -/
structure Retried where
  thread : ThreadState
  failures : ℕ
  stays : List Stay

/-- The last command of a call has failed. -/
def callFailed (ops : List ThreadOp) : Bool := (commandsOf ops).getLast?.any fun e => !e.2

/-- The thread is at `t` now. -/
def Retried.note (s : Retried) (t : ThreadState) (failed : Bool) : Retried :=
  let failures := s.failures + failed.toNat
  if t.connectStation = s.thread.connectStation then ⟨t, failures, s.stays⟩
  else ⟨t, 0, s.stays ++ [⟨s.thread.connectStation, failures, t.connectStation, t.tryNum⟩]⟩

/-- What a call of `GSM_ConnectingLoop` does in the thread `t`. -/
def connectCall (t : ThreadState) (first second : Bool) : List ThreadOp :=
  gsmConnectingLoop t.oneNetParam t.connectStation t.tryNum first second

/-- A call, or anything else in the thread, which may send the connection back. -/
def retryStep (s : Retried) : ConnectAction → Option Retried
  | .call first second =>
      let ops := connectCall s.thread first second
      some (s.note (execAll s.thread ops) (callFailed ops))
  | .between t =>
      if t.tryNum = s.thread.tryNum ∧
          (t.connectStation = s.thread.connectStation ∨ t.connectStation = .powerRest) then
        some (s.note t false)
      else none

/-- At most `MaxTryNum` calls failed; when so many did, the connection went back to `POWER_REST`;
and the counter was 0 then. -/
structure Stay.Bounded (stay : Stay) : Prop where
  failures : stay.failures ≤ maxTryNum.toNat
  gaveUp : stay.failures = maxTryNum.toNat → stay.next = .powerRest
  entered : stay.tryNum = 0

/-- So it was in all stays before, and in the present one fewer calls have failed. -/
structure Retried.Bounded (s : Retried) : Prop where
  stays : ∀ stay ∈ s.stays, stay.Bounded
  failures : s.failures < maxTryNum.toNat

/-- `TEST_AT_COMM` does not fail for the fifth time, and a station is left from outside only with
the counter at 0. -/
def RetryOk (s : Retried) : ConnectAction → Prop
  | .call first _ =>
      ¬ (s.thread.connectStation = .testAtComm ∧ first = false ∧ s.thread.tryNum + 1 = maxTryNum)
  | .between t => t.connectStation = s.thread.connectStation ∨ s.thread.tryNum = 0

/-! ## One call -/

/-- The test of `TryNum` at a station. -/
def exceeded (station : ConnectStation) (tryNum : UInt8) : Bool :=
  if station = .testAtComm then maxTryNum < tryNum else maxTryNum ≤ tryNum

/-- What a call does to the station and the counter; the `Bool` is whether it fails. -/
inductive CallEffect (t : ThreadState) : Bool → ThreadState → Prop
  | idle {t' : ThreadState} (hstage : t.connectStation = .connectServerOK)
      (hstation : t'.connectStation = t.connectStation) (htry : t'.tryNum = t.tryNum) :
      CallEffect t false t'
  | restarted {failed : Bool} {t' : ThreadState} (hrest : t.connectStation = .powerRest)
      (hstation : t'.connectStation = .testAtComm) (htry : t'.tryNum = t.tryNum) :
      CallEffect t failed t'
  | passed {t' : ThreadState} (hstation : t'.connectStation ≠ t.connectStation)
      (hnext : t'.connectStation ≠ .powerRest) (htry : t'.tryNum = 0) : CallEffect t false t'
  | failed {t' : ThreadState} (hstage : t.connectStation ≠ .powerRest)
      (hstation : t'.connectStation = t.connectStation)
      (htest : exceeded t.connectStation (t.tryNum + 1) = false) (htry : t'.tryNum = t.tryNum + 1) :
      CallEffect t true t'
  | gaveUp {t' : ThreadState} (hstage : t.connectStation ≠ .powerRest)
      (hstation : t'.connectStation = .powerRest)
      (htest : exceeded t.connectStation (t.tryNum + 1) = true) (htry : t'.tryNum = 0) :
      CallEffect t true t'

section Stage

variable {t : ThreadState} {station : ConnectStation} {passed : List ThreadOp} {test : UInt8 → Bool}

theorem callFailed_send (cmds : List ThreadOp) (cmd : AtCommand) (keyWord : KeyWord)
    {ops : List ThreadOp} (hops : commandsOf ops = []) (ok : Bool) :
    callFailed (cmds ++ .sendComAtCmd cmd keyWord ok :: ops) = !ok := by
  have hcommands : commandsOf (cmds ++ .sendComAtCmd cmd keyWord ok :: ops) =
      commandsOf cmds ++ [((cmd, keyWord), ok)] := by
    rw [commandsOf, List.filterMap_append]
    exact congrArg (commandsOf cmds ++ ((cmd, keyWord), ok) :: ·) hops
  rw [callFailed, hcommands, List.getLast?_concat]
  rfl

theorem callEffect_stageFailed (hstation : t.connectStation = station)
    (hstage : station ≠ .powerRest) (htest : test = exceeded station) :
    CallEffect t true (execAll t (stageFailed t.tryNum test)) := by
  rw [stageFailed, htest, ← hstation]
  cases hexceeded : exceeded t.connectStation (t.tryNum + 1) with
  | true => exact .gaveUp (hstation ▸ hstage) rfl hexceeded rfl
  | false => exact .failed (hstation ▸ hstage) rfl hexceeded rfl

/-- A stage up to its last command; `cmds` are the commands before it. -/
theorem callEffect_send (hstation : t.connectStation = station) (hstage : station ≠ .powerRest)
    (cmds : List ThreadOp) (hcmds : execAll t cmds = t) (cmd : AtCommand) (keyWord : KeyWord)
    (htest : test = exceeded station) (hpassed : commandsOf passed = []) (next : ConnectStation)
    (hnext : (execAll t passed).connectStation = next) (hne : next ≠ station ∧ next ≠ .powerRest)
    (htry : (execAll t passed).tryNum = 0) (ok : Bool) :
    CallEffect t
      (callFailed (cmds ++ .sendComAtCmd cmd keyWord ok ::
        if ok then passed else stageFailed t.tryNum test))
      (execAll t (cmds ++ .sendComAtCmd cmd keyWord ok ::
        if ok then passed else stageFailed t.tryNum test)) := by
  cases ok with
  | true =>
      rw [if_pos rfl, callFailed_send cmds cmd keyWord hpassed, execAll_append, hcmds]
      rw [← hnext, ← hstation] at hne
      exact .passed hne.1 hne.2 htry
  | false =>
      rw [if_neg Bool.false_ne_true, callFailed_send cmds cmd keyWord (commandsOf_stageFailed _ _),
        execAll_append, hcmds]
      exact callEffect_stageFailed hstation hstage htest

theorem exceeded_of_ne (h : station ≠ .testAtComm) :
    (fun n => decide (maxTryNum ≤ n)) = exceeded station := by
  funext n
  rw [exceeded, if_neg h]

theorem callEffect_commandStage (cmd : AtCommand) (next : ConnectStation)
    (hstation : t.connectStation = station) (hstage : station ≠ .powerRest)
    (hcomm : station ≠ .testAtComm) (hne : next ≠ station ∧ next ≠ .powerRest) (ok : Bool) :
    CallEffect t (callFailed (commandStage cmd next t.tryNum ok))
      (execAll t (commandStage cmd next t.tryNum ok)) :=
  callEffect_send hstation hstage [] rfl cmd .ok (exceeded_of_ne hcomm) rfl next rfl hne rfl ok

theorem callEffect_connectServer (hstation : t.connectStation = .connectServer)
    (first second : Bool) :
    CallEffect t
      (callFailed (gsmConnectingLoop t.oneNetParam .connectServer t.tryNum first second))
      (execAll t (gsmConnectingLoop t.oneNetParam .connectServer t.tryNum first second)) := by
  cases first with
  | true =>
      refine .passed ?_ ConnectStation.noConfusion rfl
      rw [hstation]
      exact ConnectStation.noConfusion
  | false =>
      exact callEffect_send hstation (by decide) [.sendComAtCmd (.connectServer _ _) .ok false] rfl
        _ .connected (exceeded_of_ne (by decide)) rfl .connectServerOK rfl (by decide) rfl second

end Stage

theorem callEffect (t : ThreadState) (first second : Bool) :
    CallEffect t (callFailed (connectCall t first second))
      (execAll t (connectCall t first second)) := by
  rw [connectCall]
  cases hstation : t.connectStation with
  | powerRest => exact .restarted hstation rfl rfl
  | testAtComm =>
      exact callEffect_send hstation (by decide) [] rfl .atCommend .ok rfl rfl .colseEcho rfl
        (by decide) rfl first
  | connectServer => exact callEffect_connectServer hstation first second
  | startSendData =>
      exact callEffect_send hstation (by decide) [] rfl .atStartSendData .ok
        (exceeded_of_ne (by decide)) rfl .connectServerOK rfl (by decide) rfl first
  | connectServerOK => exact .idle hstation rfl rfl
  | _ => exact callEffect_commandStage _ _ hstation (by decide) (by decide) (by decide) first

/-! ## Runs -/

section Note

variable {s : Retried} {t : ThreadState} {failed : Bool}

theorem note_of_eq (h : t.connectStation = s.thread.connectStation) :
    s.note t failed = ⟨t, s.failures + failed.toNat, s.stays⟩ := if_pos h

theorem note_of_ne (h : t.connectStation ≠ s.thread.connectStation) :
    s.note t failed = ⟨t, 0, s.stays ++
      [⟨s.thread.connectStation, s.failures + failed.toNat, t.connectStation, t.tryNum⟩]⟩ :=
  if_neg h

theorem mem_stays_note {stay : Stay} (h : stay ∈ s.stays) : stay ∈ (s.note t failed).stays := by
  by_cases hstation : t.connectStation = s.thread.connectStation
  · rw [note_of_eq hstation]
    exact h
  · rw [note_of_ne hstation]
    exact List.mem_append_left _ h

end Note

/-- The invariant: `TryNum` is the number of failures in the present stay. -/
structure Counting (s : Retried) : Prop where
  bounded : s.Bounded
  counted : s.failures = s.thread.tryNum.toNat
  rest : s.thread.connectStation = .powerRest → s.thread.tryNum = 0

/-- What a run cannot come back from: a stay was not as it should be, or `TEST_AT_COMM` has failed
five times. -/
def Overrun (s : Retried) : Prop :=
  (∃ stay ∈ s.stays, ¬ stay.Bounded) ∨
    s.thread.connectStation = .testAtComm ∧ s.failures = maxTryNum.toNat ∧
      s.thread.tryNum = maxTryNum

theorem Overrun.not_bounded {s : Retried} (h : Overrun s) : ¬ s.Bounded := by
  intro hbounded
  rcases h with ⟨stay, hmem, hstay⟩ | ⟨-, hfailures, -⟩
  · exact hstay (hbounded.stays stay hmem)
  · exact absurd hfailures (ne_of_lt hbounded.failures)

/-- A stay that is over. -/
theorem Counting.left {s : Retried} (hs : Counting s) {t : ThreadState} {failed : Bool}
    (hstation : t.connectStation ≠ s.thread.connectStation) (htry : t.tryNum = 0)
    (hfailed : failed = true → s.failures + 1 = maxTryNum.toNat → t.connectStation = .powerRest) :
    Counting (s.note t failed) := by
  have hlt := hs.bounded.failures
  have hpos : 0 < maxTryNum.toNat := by decide
  rw [note_of_ne hstation]
  refine ⟨⟨?_, hpos⟩, ?_, fun _ => htry⟩
  · intro stay hstay
    rcases List.mem_append.mp hstay with hbefore | hlast
    · exact hs.bounded.stays stay hbefore
    · obtain rfl := List.mem_singleton.mp hlast
      cases failed with
      | true => exact ⟨hlt, hfailed rfl, htry⟩
      | false => exact ⟨hlt.le, fun heq => absurd heq hlt.ne, htry⟩
  · show 0 = t.tryNum.toNat
    rw [htry]
    rfl

theorem callFailed_testAtComm {t : ThreadState} (h : t.connectStation = .testAtComm)
    (first second : Bool) : callFailed (connectCall t first second) = !first := by
  rw [connectCall, h]
  apply callFailed_send []
  cases first with
  | true => rfl
  | false => exact commandsOf_stageFailed t.tryNum (maxTryNum < ·)

theorem toNat_tryNum_succ {tryNum : UInt8} (h : tryNum.toNat < maxTryNum.toNat) :
    (tryNum + 1).toNat = tryNum.toNat + 1 := by
  have hlt : tryNum.toNat < 5 := h
  rw [UInt8.toNat_add]
  show (tryNum.toNat + 1) % 256 = _
  omega

theorem counting_call {s : Retried} (hs : Counting s) {first second : Bool}
    (hok : RetryOk s (.call first second)) :
    Counting (s.note (execAll s.thread (connectCall s.thread first second))
      (callFailed (connectCall s.thread first second))) := by
  have hlt : s.thread.tryNum.toNat < maxTryNum.toNat := hs.counted ▸ hs.bounded.failures
  have hsucc := toNat_tryNum_succ hlt
  have heffect := callEffect s.thread first second
  have hcomm : s.thread.connectStation = .testAtComm → _ := fun h =>
    callFailed_testAtComm h first second
  generalize execAll s.thread (connectCall s.thread first second) = t at heffect
  generalize callFailed (connectCall s.thread first second) = failed at heffect hcomm
  cases heffect with
  | idle hstage hstation htry =>
      rw [note_of_eq hstation]
      refine ⟨⟨hs.bounded.stays, hs.bounded.failures⟩, ?_, ?_⟩
      · show s.failures = t.tryNum.toNat
        rw [htry, hs.counted]
      · intro hrest
        exact htry.trans (hs.rest (hstation.symm.trans hrest))
  | restarted hrest hstation htry =>
      have hzero : s.thread.tryNum = 0 := hs.rest hrest
      apply hs.left
      · rw [hstation, hrest]
        decide
      · exact htry.trans hzero
      · intro _ hfailures
        rw [hs.counted, hzero] at hfailures
        exact absurd hfailures (by decide)
  | passed hstation hnext htry => exact hs.left hstation htry (absurd · Bool.false_ne_true)
  | failed hstage hstation htest htry =>
      have hless : s.thread.tryNum.toNat + 1 < maxTryNum.toNat := by
        apply lt_of_le_of_ne hlt
        intro heq
        have hfifth : s.thread.tryNum + 1 = maxTryNum := UInt8.toNat_inj.mp (hsucc.trans heq)
        by_cases hstage : s.thread.connectStation = .testAtComm
        · have hfirst := hcomm hstage
          exact hok ⟨hstage, by simpa using hfirst, hfifth⟩
        · rw [exceeded, if_neg hstage, hfifth] at htest
          exact absurd htest (by decide)
      rw [note_of_eq hstation]
      refine ⟨⟨hs.bounded.stays, ?_⟩, ?_, ?_⟩
      · show s.failures + 1 < maxTryNum.toNat
        rw [hs.counted]
        exact hless
      · show s.failures + 1 = t.tryNum.toNat
        rw [htry, hsucc, hs.counted]
      · intro hrest
        exact absurd (hstation.symm.trans hrest) hstage
  | gaveUp hstage hstation htest htry =>
      apply hs.left
      · rw [hstation]
        exact hstage.symm
      · exact htry
      · exact fun _ _ => hstation

theorem counting_between {s : Retried} (hs : Counting s) {t : ThreadState}
    (htry : t.tryNum = s.thread.tryNum)
    (hok : t.connectStation = s.thread.connectStation ∨ s.thread.tryNum = 0)
    (hback : t.connectStation = s.thread.connectStation ∨ t.connectStation = .powerRest) :
    Counting (s.note t false) := by
  by_cases hstation : t.connectStation = s.thread.connectStation
  · rw [note_of_eq hstation]
    refine ⟨⟨hs.bounded.stays, hs.bounded.failures⟩, ?_, ?_⟩
    · show s.failures = t.tryNum.toNat
      rw [htry, hs.counted]
    · intro hrest
      exact htry.trans (hs.rest (hstation.symm.trans hrest))
  · have hzero : s.thread.tryNum = 0 := hok.resolve_left hstation
    exact hs.left hstation (htry.trans hzero) fun _ _ => hback.resolve_left hstation

theorem counting_step {s t : Retried} {a : ConnectAction} (hs : Counting s) (hok : RetryOk s a)
    (h : retryStep s a = some t) : Counting t := by
  cases a with
  | call first second =>
      cases h
      exact counting_call hs hok
  | between thread =>
      simp only [retryStep] at h
      split_ifs at h with hframe
      cases h
      exact counting_between hs hframe.1 hok hframe.2

/-- A stay that was not left as it should be. -/
theorem overrun_left {s : Retried} {t : ThreadState} {failed : Bool}
    (hstation : t.connectStation ≠ s.thread.connectStation)
    (hstay : ¬ Stay.Bounded
      ⟨s.thread.connectStation, s.failures + failed.toNat, t.connectStation, t.tryNum⟩) :
    Overrun (s.note t failed) := by
  rw [note_of_ne hstation]
  exact .inl ⟨_, List.mem_append_right _ (List.mem_singleton_self _), hstay⟩

/-- The fifth failure of `TEST_AT_COMM`, and a stage that is left from outside. -/
theorem overrun_step {s t : Retried} {a : ConnectAction} (hs : Counting s) (hok : ¬ RetryOk s a)
    (h : retryStep s a = some t) : Overrun t := by
  cases a with
  | call first second =>
      cases h
      obtain ⟨hstage, rfl, hfifth⟩ := not_not.mp hok
      have hsucc := toNat_tryNum_succ (hs.counted ▸ hs.bounded.failures)
      have heffect := callEffect s.thread false second
      rw [callFailed_testAtComm hstage] at heffect ⊢
      generalize execAll s.thread (connectCall s.thread false second) = t at heffect
      cases heffect with
      | restarted hrest => exact absurd (hstage.symm.trans hrest) (by decide)
      | failed _ hstation htest htry =>
          rw [Bool.not_false, note_of_eq hstation]
          refine .inr ⟨hstation.trans hstage, ?_, htry.trans hfifth⟩
          show s.failures + 1 = _
          rw [hs.counted, ← hsucc, hfifth]
      | gaveUp _ _ htest =>
          rw [hstage, hfifth] at htest
          exact absurd htest (by decide)
  | between thread =>
      obtain ⟨hleft, hcount⟩ := not_or.mp hok
      simp only [retryStep] at h
      split_ifs at h with hframe
      cases h
      apply overrun_left hleft
      intro hstay
      exact hcount (hframe.1.symm.trans hstay.entered)

theorem overrun_stays {s t : Retried} {a : ConnectAction} (hs : Overrun s)
    (h : retryStep s a = some t) : Overrun t := by
  rcases hs with ⟨stay, hmem, hstay⟩ | ⟨hstage, hfailures, hcount⟩
  · refine .inl ⟨stay, ?_, hstay⟩
    cases a with
    | call first second =>
        cases h
        exact mem_stays_note hmem
    | between thread =>
        simp only [retryStep] at h
        split_ifs at h with hframe
        cases h
        exact mem_stays_note hmem
  · cases a with
    | call first second =>
        cases h
        have heffect := callEffect s.thread first second
        generalize execAll s.thread (connectCall s.thread first second) = t at heffect
        generalize callFailed (connectCall s.thread first second) = failed at heffect
        cases heffect with
        | idle hok => exact absurd (hstage.symm.trans hok) (by decide)
        | restarted hrest => exact absurd (hstage.symm.trans hrest) (by decide)
        | passed hstation hnext =>
            apply overrun_left hstation
            intro hstay
            exact hnext (hstay.gaveUp hfailures)
        | failed _ _ htest =>
            rw [hstage, hcount] at htest
            exact absurd htest (by decide)
        | gaveUp hrest hstation =>
            apply overrun_left (hstation ▸ hrest.symm)
            intro hstay
            exact absurd (hfailures ▸ hstay.failures) (Nat.not_succ_le_self _)
    | between thread =>
        simp only [retryStep] at h
        split_ifs at h with hframe
        cases h
        by_cases hstation : thread.connectStation = s.thread.connectStation
        · rw [note_of_eq hstation]
          exact .inr ⟨hstation.trans hstage, hfailures, hframe.1.trans hcount⟩
        · apply overrun_left hstation
          intro hstay
          have hzero : maxTryNum = 0 := hcount.symm.trans (hframe.1.symm.trans hstay.entered)
          exact absurd hzero (by decide)

/-- No stage has failed more often than `MaxTryNum` times, the last failure of so many led to
`POWER_REST`, and the counter was 0 at every change of the station, exactly when each step of the
run was right: `TEST_AT_COMM` did not fail for the fifth time, and no stage was left from outside
with a counter that was not 0. -/
theorem bounded_iff {t : ThreadState} (htry : t.tryNum = 0) {as : List ConnectAction} {s : Retried}
    (h : Run retryStep unconditional ⟨t, 0, []⟩ as s) :
    s.Bounded ↔ Run retryStep RetryOk ⟨t, 0, []⟩ as s := by
  have hstart : Counting ⟨t, 0, []⟩ := by
    refine ⟨⟨by simp, Nat.succ_pos 4⟩, ?_, fun _ => htry⟩
    show 0 = t.tryNum.toNat
    rw [htry]
    rfl
  rcases h.kept_or_broken (fun _ _ _ => counting_step) (fun _ _ _ => overrun_step)
    (fun _ _ _ => overrun_stays) hstart with ⟨hrun, hcounting⟩ | ⟨hnot, hoverrun⟩
  · exact iff_of_true hcounting.bounded hrun
  · exact iff_of_false hoverrun.not_bounded hnot

instance : ∀ (s : Retried) (a : ConnectAction), Decidable (RetryOk s a)
  | _, .call _ _ => inferInstanceAs (Decidable (¬ _))
  | _, .between _ => inferInstanceAs (Decidable (_ ∨ _))

/-- Four failures of `TEST_AT_COMM`, and then every stage passes at once. -/
theorem bounded_fourFailures : ∃ s, Run retryStep unconditional ⟨.init, 0, []⟩
      (List.replicate 5 (.call false false) ++ List.replicate 7 (.call true false)) s ∧
    s.thread.connectStation = .connectServerOK ∧ s.Bounded := by
  obtain ⟨s, hrun, hs⟩ := Run.exists_of_exec retryStep RetryOk ⟨.init, 0, []⟩
    (List.replicate 5 (.call false false) ++ List.replicate 7 (.call true false))
    (fun s => decide (s.thread.connectStation = .connectServerOK)) (by decide +kernel)
  have hall := hrun.mono fun _ _ _ => trivial
  exact ⟨s, hall, of_decide_eq_true hs, (bounded_iff rfl hall).mpr hrun⟩

/-- `TEST_AT_COMM` fails six times before the connection goes back to `POWER_REST`. -/
theorem retryStep_sixFailures :
    ¬ ∀ (t : ThreadState), t.tryNum = 0 → ∀ (as : List ConnectAction) (s : Retried),
      Run retryStep unconditional ⟨t, 0, []⟩ as s → s.Bounded := by
  intro hall
  obtain ⟨s, hrun, hs⟩ := Run.exists_of_exec retryStep unconditional ⟨.init, 0, []⟩
    (List.replicate 7 (.call false false)) (fun s => s.stays.any fun stay => stay.failures = 6)
    (by decide +kernel)
  obtain ⟨stay, hmem, hsix⟩ := List.any_eq_true.mp hs
  have hle := ((hall .init rfl _ s hrun).stays stay hmem).failures
  rw [of_decide_eq_true hsix] at hle
  exact absurd hle (by decide)

end Gsm.Thread
