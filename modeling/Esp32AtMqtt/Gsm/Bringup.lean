import Esp32AtMqtt.Gsm.Thread
import Esp32AtMqtt.Transition.Ladder
import Esp32AtMqtt.Transition.Run

/-!
# The connection is brought up in order

`GSM_ConnectingLoop` and `APP_ESP32_Config_loop` run once in every round of the thread, each
at the station where it stood. Here the cases that they run through are recorded, with the
commands sent there and how they ended. When the connection stands, the record since the last
`POWER_REST` is a climb through all seven stages: in each of them failures and then a command
that succeeds, and no stage is tried before the one below it is passed. The same holds of the
Bluetooth part since its last `Reset`.
-/

namespace Gsm.Thread

open Ladder Transition

/-- A command with the word that its answer is searched for. -/
abbrev Sent := AtCommand × KeyWord

/-- The thread, and the cases that one of its two loops has run through. -/
structure Recorded (S : Type) where
  thread : ThreadState
  history : List (Record S Sent)

/-- The cases of a call are run through, and recorded. -/
def Recorded.play {S : Type} (s : Recorded S) (parts : List (S × List ThreadOp)) : Recorded S where
  thread := execAll s.thread (parts.flatMap Prod.snd)
  history := s.history ++ parts.map fun p => (p.1, commandsOf p.2)

theorem play_singleton {S : Type} (s : Recorded S) (station : S) (ops : List ThreadOp) :
    s.play [(station, ops)] =
      ⟨execAll s.thread ops, s.history ++ [(station, commandsOf ops)]⟩ := by
  rw [Recorded.play, List.flatMap_singleton]
  rfl

@[simp] theorem commandsOf_nil : commandsOf [] = [] := rfl

/-- A stage with one command. -/
theorem attempt_send {S : Type} (get : ThreadState → S) {tries : S → Sent → Prop}
    {bottom s next : S} {t : ThreadState} (passed failed : List ThreadOp) (c : Sent)
    (hc : tries s c) (hpassed : commandsOf passed = []) (hnext : get (execAll t passed) = next)
    (hfailed : commandsOf failed = [])
    (hback : get (execAll t failed) = s ∨ get (execAll t failed) = bottom) (ok : Bool) :
    Attempt tries bottom s next
      (commandsOf (.sendComAtCmd c.1 c.2 ok :: if ok then passed else failed))
      (get (execAll t (.sendComAtCmd c.1 c.2 ok :: if ok then passed else failed))) := by
  cases ok with
  | true =>
      have hes : commandsOf (.sendComAtCmd c.1 c.2 true :: passed) = [] ++ [(c, true)] :=
        congrArg _ hpassed
      show Attempt tries bottom s next (commandsOf (.sendComAtCmd c.1 c.2 true :: passed))
        (get (execAll t passed))
      rw [hes, hnext]
      exact .passed (failed_nil tries s) hc
  | false =>
      have hes : commandsOf (.sendComAtCmd c.1 c.2 false :: failed) = [(c, false)] :=
        congrArg _ hfailed
      show Attempt tries bottom s next (commandsOf (.sendComAtCmd c.1 c.2 false :: failed))
        (get (execAll t failed))
      rw [hes]
      exact .failed (failed_cons hc (failed_nil tries s)) hback

/-- A stage with a second command for the case that the first one fails. -/
theorem attempt_sendTwice {S : Type} (get : ThreadState → S) {tries : S → Sent → Prop}
    {bottom s next : S} {t : ThreadState} (passed failed : List ThreadOp) (c d : Sent)
    (hc : tries s c) (hd : tries s d) (hpassed : commandsOf passed = [])
    (hnext : get (execAll t passed) = next) (hfailed : commandsOf failed = [])
    (hback : get (execAll t failed) = s ∨ get (execAll t failed) = bottom) (first second : Bool) :
    Attempt tries bottom s next
      (commandsOf (.sendComAtCmd c.1 c.2 first :: if first then passed else
        .sendComAtCmd d.1 d.2 second :: if second then passed else failed))
      (get (execAll t (.sendComAtCmd c.1 c.2 first :: if first then passed else
        .sendComAtCmd d.1 d.2 second :: if second then passed else failed))) := by
  cases first with
  | true => exact attempt_send get passed failed c hc hpassed hnext hfailed hback true
  | false =>
      have hsecond := attempt_send get passed failed d hd hpassed hnext hfailed hback second
      have hes : commandsOf (.sendComAtCmd c.1 c.2 false ::
          .sendComAtCmd d.1 d.2 second :: if second then passed else failed) =
          (c, false) :: commandsOf (.sendComAtCmd d.1 d.2 second ::
            if second then passed else failed) := rfl
      show Attempt tries bottom s next (commandsOf (.sendComAtCmd c.1 c.2 false ::
          .sendComAtCmd d.1 d.2 second :: if second then passed else failed))
        (get (execAll t (.sendComAtCmd d.1 d.2 second :: if second then passed else failed)))
      rw [hes]
      generalize commandsOf (.sendComAtCmd d.1 d.2 second ::
        if second then passed else failed) = es at hsecond
      generalize get (execAll t (.sendComAtCmd d.1 d.2 second ::
        if second then passed else failed)) = s' at hsecond
      cases hsecond with
      | failed hes hback => exact .failed (failed_cons hc hes) hback
      | passed hes hd => exact .passed (failed_cons hc hes) hd

/-! ## The stages of `GSM_ConnectingLoop` -/

/-- The stages between `POWER_REST` and `ConnectServerOK`. -/
def connectOrder : List ConnectStation :=
  [.testAtComm, .colseEcho, .setBaudrate, .setWiFiMode, .connectGW, .readIPAddr, .connectServer]

/-- The stages below a station. -/
def connectBelow (station : ConnectStation) : List ConnectStation :=
  connectOrder.takeWhile (· ≠ station)

/-- The commands of a stage. -/
def ConnectTries : ConnectStation → Sent → Prop
  | .testAtComm, c => c = (.atCommend, .ok)
  | .colseEcho, c => c = (.atCloseEcho, .ok)
  | .setBaudrate, c => c = (.atBaudRate, .ok)
  | .setWiFiMode, c => c = (.atSetWiFiMode, .ok)
  | .connectGW, c => ∃ gwName gwKey, c = (.connectGW gwName gwKey, .ok)
  | .readIPAddr, c => c = (.atReadIPAddr, .ok)
  | .connectServer, c =>
      ∃ mqttAddr mqttPort, c = (.connectServer mqttAddr mqttPort, .ok) ∨
        c = (.connectServer mqttAddr mqttPort, .connected)
  | _, _ => False

/-- What may happen to the connection: a call of the loop, whose commands end as they do, or
anything else in the thread, which may send the connection back to `POWER_REST`. -/
inductive ConnectAction
  | call (first second : Bool)
  | between (t : ThreadState)

def connectStep (s : Recorded ConnectStation) : ConnectAction → Option (Recorded ConnectStation)
  | .call first second =>
      some (s.play [(s.thread.connectStation, gsmConnectingLoop s.thread.oneNetParam
        s.thread.connectStation s.thread.tryNum first second)])
  | .between t =>
      if t.tryNum = s.thread.tryNum ∧
          (t.connectStation = s.thread.connectStation ∨ t.connectStation = .powerRest) then
        some { s with thread := t }
      else none

theorem commandsOf_stageFailed (tryNum : UInt8) (exceeded : UInt8 → Bool) :
    commandsOf (stageFailed tryNum exceeded) = [] := by
  rw [stageFailed]
  split_ifs <;> rfl

theorem connectStation_stageFailed (t : ThreadState) (tryNum : UInt8) (exceeded : UInt8 → Bool) :
    (execAll t (stageFailed tryNum exceeded)).connectStation = t.connectStation ∨
      (execAll t (stageFailed tryNum exceeded)).connectStation = .powerRest := by
  rw [stageFailed]
  split_ifs
  · exact .inr rfl
  · exact .inl rfl

/-- The stages with one command. -/
theorem attempt_commandStage {t : ThreadState} {cmd : AtCommand}
    (hc : ConnectTries t.connectStation (cmd, .ok)) (next : ConnectStation) (ok : Bool) :
    Attempt ConnectTries .powerRest t.connectStation next
      (commandsOf (commandStage cmd next t.tryNum ok))
      (execAll t (commandStage cmd next t.tryNum ok)).connectStation :=
  attempt_send ThreadState.connectStation (stagePassed next) _ (cmd, .ok) hc rfl rfl
    (commandsOf_stageFailed _ _) (connectStation_stageFailed t _ _) ok

/-- A call at a stage is an attempt to pass it. -/
theorem attempt_gsmConnectingLoop {t : ThreadState} (hstage : t.connectStation ∈ connectOrder)
    (first second : Bool) :
    ∃ next, connectBelow next = connectBelow t.connectStation ++ [t.connectStation] ∧
      (next ∈ connectOrder ∨ next = .connectServerOK) ∧
      Attempt ConnectTries .powerRest t.connectStation next
        (commandsOf (gsmConnectingLoop t.oneNetParam t.connectStation t.tryNum first second))
        (execAll t (gsmConnectingLoop t.oneNetParam t.connectStation t.tryNum first
          second)).connectStation := by
  have hcommand : ∀ {station cmd}, t.connectStation = station → ConnectTries station (cmd, .ok) →
      ∀ next, Attempt ConnectTries .powerRest station next
        (commandsOf (commandStage cmd next t.tryNum first))
        (execAll t (commandStage cmd next t.tryNum first)).connectStation := by
    rintro _ cmd rfl hc next
    exact attempt_commandStage hc next first
  cases hstation : t.connectStation with
  | testAtComm =>
      refine ⟨.colseEcho, rfl, .inl (by decide), ?_⟩
      exact attempt_send ThreadState.connectStation (stagePassed .colseEcho) _ (.atCommend, .ok)
        rfl rfl rfl (commandsOf_stageFailed _ _) (hstation ▸ connectStation_stageFailed t _ _) first
  | colseEcho => exact ⟨.setBaudrate, rfl, .inl (by decide), hcommand hstation rfl _⟩
  | setBaudrate => exact ⟨.setWiFiMode, rfl, .inl (by decide), hcommand hstation rfl _⟩
  | setWiFiMode => exact ⟨.connectGW, rfl, .inl (by decide), hcommand hstation rfl _⟩
  | connectGW =>
      exact ⟨.readIPAddr, rfl, .inl (by decide), hcommand hstation ⟨_, _, rfl⟩ _⟩
  | readIPAddr => exact ⟨.connectServer, rfl, .inl (by decide), hcommand hstation rfl _⟩
  | connectServer =>
      refine ⟨.connectServerOK, rfl, .inr rfl, ?_⟩
      exact attempt_sendTwice ThreadState.connectStation serverReached _
        (.connectServer _ _, .ok) (.connectServer _ _, .connected) ⟨_, _, .inl rfl⟩ ⟨_, _, .inr rfl⟩
        rfl rfl (commandsOf_stageFailed _ _)
        (hstation ▸ connectStation_stageFailed t _ _) first second
  | _ =>
      rw [hstation] at hstage
      exact absurd hstage (by decide)

/-- The invariant: the connection is at the bottom, or it stands at its stage. -/
def ConnectUnderway (s : Recorded ConnectStation) : Prop :=
  s.thread.connectStation = .powerRest ∨
    (s.thread.connectStation ∈ connectOrder ∨ s.thread.connectStation = .connectServerOK) ∧
      Standing ConnectTries .powerRest (connectBelow s.thread.connectStation)
        s.thread.connectStation s.history

theorem connectUnderway_call {s : Recorded ConnectStation} (hs : ConnectUnderway s)
    (first second : Bool) :
    ConnectUnderway (s.play [(s.thread.connectStation, gsmConnectingLoop s.thread.oneNetParam
      s.thread.connectStation s.thread.tryNum first second)]) := by
  rw [play_singleton]
  rcases hs with hbottom | ⟨hstation, hstanding⟩
  · -- `POWER_REST` sends the connection to the first stage, however its command ends.
    rw [hbottom]
    exact .inr ⟨.inl (by simp [gsmConnectingLoop, ThreadOp.exec, connectOrder]),
      standing_bottom ConnectTries .powerRest .testAtComm s.history _⟩
  · have hne : s.thread.connectStation ≠ .powerRest := by
      rintro heq
      rw [heq] at hstation
      exact absurd hstation (by decide)
    rcases hstation with hstage | hok
    · obtain ⟨next, hbelow, hnext, hattempt⟩ := attempt_gsmConnectingLoop hstage first second
      refine (hstanding.attempt hne hbelow hattempt).imp_right fun hnew => ⟨?_, hnew.2⟩
      rcases hnew.1 with heq | heq
      · exact .inl (Eq.mpr (congrArg (· ∈ connectOrder) heq) hstage)
      · exact hnext.imp (Eq.mpr (congrArg (· ∈ connectOrder) heq)) heq.trans
    · -- Nothing is tried any more.
      have hnothing : gsmConnectingLoop s.thread.oneNetParam s.thread.connectStation
          s.thread.tryNum first second = [] := by
        rw [hok]
        rfl
      rw [hnothing]
      exact .inr ⟨.inr hok, hstanding.failed hne (failed_nil _ _)⟩

theorem connectUnderway_step {s t : Recorded ConnectStation} {a : ConnectAction}
    (hs : ConnectUnderway s) (h : connectStep s a = some t) : ConnectUnderway t := by
  cases a with
  | call first second =>
      cases h
      exact connectUnderway_call hs first second
  | between thread =>
      simp only [connectStep] at h
      split_ifs at h with hframe
      cases h
      rcases hframe.2 with hsame | hback
      · rcases hs with hbottom | hstanding
        · exact .inl (hsame.trans hbottom)
        · refine .inr ?_
          show (thread.connectStation ∈ connectOrder ∨ _) ∧ Standing _ _
            (connectBelow thread.connectStation) thread.connectStation _
          rw [hsame]
          exact hstanding
      · exact .inl hback

/-! ## The stages of `APP_ESP32_Config_loop` -/

/-- The stages between `Reset` and `BLEOK`. -/
def bleOrder : List BleStation :=
  [.bleInit, .bleGattsSrv, .bleGattsSrvStart, .bleAddr, .bleAdvParam, .bleAdvData, .bleAdvStart]

/-- The stages below a station. -/
def bleBelow (station : BleStation) : List BleStation := bleOrder.takeWhile (· ≠ station)

/-- The commands of a stage. -/
def BleTries : BleStation → Sent → Prop
  | .bleInit, c => c = (.atBleInit, .bleInitServer) ∨ c = (.bleInitServer, .ok)
  | .bleGattsSrv, c => c = (.atBleGattsSrv, .ok)
  | .bleGattsSrvStart, c => c = (.atBleGattsSrvStart, .ok)
  | .bleAddr, c => c = (.atBleAddr, .ok)
  | .bleAdvParam, c => c = (.atBleAdvParam, .ok)
  | .bleAdvData, c => c = (.atBleAdvData, .ok)
  | .bleAdvStart, c => c = (.atBleAdvStart, .ok)
  | _, _ => False

/-- What may happen to the Bluetooth part: a call of its loop, or anything else in the thread,
which leaves its station and its counter alone. -/
inductive BleAction
  | call (off first second : Bool)
  | between (t : ThreadState)

def bleStep (s : Recorded BleStation) : BleAction → Option (Recorded BleStation)
  | .call off first second =>
      some (s.play (appEsp32ConfigLoop s.thread.bleStation s.thread.bleTryNum off first second))
  | .between t =>
      if t.bleStation = s.thread.bleStation ∧ t.bleTryNum = s.thread.bleTryNum then
        some { s with thread := t }
      else none

theorem commandsOf_bleStageFailed (tryNum : ℕ) : commandsOf (bleStageFailed tryNum) = [] := by
  rw [bleStageFailed]
  split_ifs <;> rfl

theorem bleStation_bleStageFailed (t : ThreadState) (tryNum : ℕ) :
    (execAll t (bleStageFailed tryNum)).bleStation = t.bleStation ∨
      (execAll t (bleStageFailed tryNum)).bleStation = .reset := by
  rw [bleStageFailed]
  split_ifs
  · exact .inr rfl
  · exact .inl rfl

/-- The stages with one command. -/
theorem attempt_bleCommandStage {t : ThreadState} {cmd : AtCommand} {station : BleStation}
    (hstation : t.bleStation = station) (hc : BleTries station (cmd, .ok)) (next : BleStation)
    (ok : Bool) :
    Attempt BleTries .reset station next
      (commandsOf (bleCommandStage cmd next t.bleTryNum ok))
      (execAll t (bleCommandStage cmd next t.bleTryNum ok)).bleStation :=
  attempt_send ThreadState.bleStation (bleStagePassed next) _ (cmd, .ok) hc rfl rfl
    (commandsOf_bleStageFailed _) (hstation ▸ bleStation_bleStageFailed t _) ok

theorem attempt_bleInitStage {t : ThreadState} (hstation : t.bleStation = .bleInit) (tryNum : ℕ)
    (first second : Bool) :
    Attempt BleTries .reset .bleInit .bleGattsSrv (commandsOf (bleInitStage tryNum first second))
      (execAll t (bleInitStage tryNum first second)).bleStation :=
  attempt_sendTwice ThreadState.bleStation (bleStagePassed .bleGattsSrv) _
    (.atBleInit, .bleInitServer) (.bleInitServer, .ok) (.inl rfl) (.inr rfl) rfl rfl
    (commandsOf_bleStageFailed _) (hstation ▸ bleStation_bleStageFailed t _) first second

/-- Above `Reset` a call goes through one case, and is an attempt to pass it. -/
theorem attempt_appEsp32ConfigLoop {t : ThreadState} (hstage : t.bleStation ∈ bleOrder)
    (off first second : Bool) :
    ∃ ops next, appEsp32ConfigLoop t.bleStation t.bleTryNum off first second =
        [(t.bleStation, ops)] ∧
      bleBelow next = bleBelow t.bleStation ++ [t.bleStation] ∧
      Attempt BleTries .reset t.bleStation next (commandsOf ops) (execAll t ops).bleStation := by
  cases hstation : t.bleStation with
  | bleInit => exact ⟨_, .bleGattsSrv, rfl, rfl, attempt_bleInitStage hstation _ first second⟩
  | bleGattsSrv =>
      exact ⟨_, .bleGattsSrvStart, rfl, rfl, attempt_bleCommandStage hstation rfl _ first⟩
  | bleGattsSrvStart =>
      exact ⟨_, .bleAddr, rfl, rfl, attempt_bleCommandStage hstation rfl _ first⟩
  | bleAddr =>
      exact ⟨_, .bleAdvParam, rfl, rfl, attempt_bleCommandStage hstation rfl _ first⟩
  | bleAdvParam =>
      exact ⟨_, .bleAdvData, rfl, rfl, attempt_bleCommandStage hstation rfl _ first⟩
  | bleAdvData =>
      exact ⟨_, .bleAdvStart, rfl, rfl, attempt_bleCommandStage hstation rfl _ first⟩
  | bleAdvStart =>
      refine ⟨_, .bleOk, rfl, rfl, ?_⟩
      have htries : BleTries .bleAdvStart (.atBleAdvStart, .ok) := rfl
      exact attempt_send ThreadState.bleStation
        (bleStagePassed .bleOk ++ [.setAtComponetStation 0, .delay 100]) _ (.atBleAdvStart, .ok)
        htries rfl rfl (commandsOf_bleStageFailed _)
        (hstation ▸ bleStation_bleStageFailed t _) first
  | _ =>
      rw [hstation] at hstage
      exact absurd hstage (by decide)

/-- The invariant: the Bluetooth part is at `Reset`, or it stands at its stage. -/
def BleUnderway (s : Recorded BleStation) : Prop :=
  s.thread.bleStation = .reset ∨
    Standing BleTries .reset (bleBelow s.thread.bleStation) s.thread.bleStation s.history

/-- A stage that a call goes through, at the end of a record. -/
theorem bleUnderway_attempt {s : Recorded BleStation} {station next : BleStation}
    (hstanding : Standing BleTries .reset (bleBelow station) station s.history)
    (hne : station ≠ .reset) (hbelow : bleBelow next = bleBelow station ++ [station])
    {ops : List ThreadOp}
    (hattempt : Attempt BleTries .reset station next (commandsOf ops)
      (execAll s.thread ops).bleStation) : BleUnderway (s.play [(station, ops)]) := by
  rw [play_singleton]
  exact (hstanding.attempt hne hbelow hattempt).imp_right And.right

theorem bleUnderway_call {s : Recorded BleStation} (hs : BleUnderway s) (off first second : Bool) :
    BleUnderway (s.play
      (appEsp32ConfigLoop s.thread.bleStation s.thread.bleTryNum off first second)) := by
  by_cases hbottom : s.thread.bleStation = .reset
  · -- `Reset` falls through to the first stage, which is attempted in the same call.
    have hsplit : s.play (appEsp32ConfigLoop s.thread.bleStation s.thread.bleTryNum off first
        second) = (s.play [(.reset, bleReset off)]).play
          [(.bleInit, bleInitStage s.thread.bleTryNum first second)] := by
      rw [hbottom, appEsp32ConfigLoop, play_singleton, play_singleton, Recorded.play]
      simp [execAll_append]
    rw [hsplit]
    refine bleUnderway_attempt ?_ (by decide) rfl (attempt_bleInitStage rfl _ first second)
    exact standing_bottom BleTries .reset .bleInit s.history _
  · have hstanding := hs.resolve_left hbottom
    by_cases hok : s.thread.bleStation = .bleOk
    · have hnothing : appEsp32ConfigLoop s.thread.bleStation s.thread.bleTryNum off first
          second = [] := by
        rw [hok]
        rfl
      rw [hnothing, Recorded.play, List.flatMap_nil, List.map_nil, List.append_nil]
      exact .inr hstanding
    · have hstage : s.thread.bleStation ∈ bleOrder := by
        revert hbottom hok
        cases s.thread.bleStation <;> decide
      obtain ⟨ops, next, hparts, hbelow, hattempt⟩ :=
        attempt_appEsp32ConfigLoop hstage off first second
      rw [hparts]
      exact bleUnderway_attempt hstanding hbottom hbelow hattempt

theorem bleUnderway_step {s t : Recorded BleStation} {a : BleAction} (hs : BleUnderway s)
    (h : bleStep s a = some t) : BleUnderway t := by
  cases a with
  | call off first second =>
      cases h
      exact bleUnderway_call hs off first second
  | between thread =>
      simp only [bleStep] at h
      split_ifs at h with hframe
      cases h
      show thread.bleStation = .reset ∨ Standing _ _ (bleBelow thread.bleStation)
        thread.bleStation _
      rw [hframe.1]
      exact hs

/-- Whenever the connection to the server stands, the seven stages of `GSM_ConnectingLoop` have
been passed in their order since the last `POWER_REST`, and none was tried before the one below
it was passed; and whenever the Bluetooth part is up, so have its seven stages since the last
`Reset`. -/
theorem bringup_inOrder (t : ThreadState) :
    (∀ as s, t.connectStation = .powerRest → Run connectStep unconditional ⟨t, []⟩ as s →
      s.thread.connectStation = .connectServerOK →
        InOrder ConnectTries .powerRest connectOrder s.history) ∧
    ∀ as s, t.bleStation = .reset → Run bleStep unconditional ⟨t, []⟩ as s →
      s.thread.bleStation = .bleOk → InOrder BleTries .reset bleOrder s.history := by
  constructor
  · intro as s hstart hrun hok
    have hunderway := hrun.invariant ConnectUnderway
      (fun _ _ _ hs _ hst => connectUnderway_step hs hst) (.inl hstart)
    have hstanding := (hunderway.resolve_left (by rw [hok]; decide)).2
    rw [hok] at hstanding
    exact hstanding.inOrder_of_top fun c hc => hc
  · intro as s hstart hrun hok
    have hunderway := hrun.invariant BleUnderway
      (fun _ _ _ hs _ hst => bleUnderway_step hs hst) (.inl hstart)
    have hstanding := hunderway.resolve_left (by rw [hok]; decide)
    rw [hok] at hstanding
    exact hstanding.inOrder_of_top fun c hc => hc

/-- The server answers `CONNECTED` only, and the first Bluetooth command is answered `OK`. -/
theorem bringup_atOnce :
    (∃ s, Run connectStep unconditional ⟨.init, []⟩
        (.call false false :: .call false false :: List.replicate 6 (.call true false) ++
          [.call false true]) s ∧
      s.thread.connectStation = .connectServerOK ∧
        InOrder ConnectTries .powerRest connectOrder s.history) ∧
    ∃ s, Run bleStep unconditional ⟨.init, []⟩
        (.call false false true :: List.replicate 6 (.call false true false)) s ∧
      s.thread.bleStation = .bleOk ∧ InOrder BleTries .reset bleOrder s.history := by
  constructor
  · obtain ⟨s, hrun, hs⟩ := Run.exists_of_exec connectStep unconditional ⟨.init, []⟩
      (.call false false :: .call false false :: List.replicate 6 (.call true false) ++
        [.call false true])
      (fun s => decide (s.thread.connectStation = .connectServerOK)) (by decide +kernel)
    exact ⟨s, hrun, of_decide_eq_true hs,
      (bringup_inOrder .init).1 _ s rfl hrun (of_decide_eq_true hs)⟩
  · obtain ⟨s, hrun, hs⟩ := Run.exists_of_exec bleStep unconditional ⟨.init, []⟩
      (.call false false true :: List.replicate 6 (.call false true false))
      (fun s => decide (s.thread.bleStation = .bleOk)) (by decide +kernel)
    exact ⟨s, hrun, of_decide_eq_true hs,
      (bringup_inOrder .init).2 _ s rfl hrun (of_decide_eq_true hs)⟩

end Gsm.Thread
