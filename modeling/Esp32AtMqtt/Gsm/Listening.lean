import Esp32AtMqtt.Gsm.Bringup
import Esp32AtMqtt.Gsm.Heartbeat

/-!
# AT commands are sent while the parser listens

One round of the loop of `GSM_thread_entry`: `GSM_ConnectingLoop`, `APP_ESP32_Config_loop`,
`RegisterDevice` and `EST32ConnectOneNetLoop` under their guards, and `HeartOverTimeCheck`.
How the commands, the registration and the exchanges with OneNet end is arbitrary. No handler
of a serial frame runs, so the watchdog is never started.

Every statement is recorded with the value of `AT_COMPonet_Station` it finds. The invariant
`Alternating` is about the product of the two machines: the Bluetooth part is under way only
while the connection stands, and the flag is set exactly while one of the two is under way.
-/

namespace Gsm.Thread

open Transition

/-- How everything in one round ends. -/
structure Outcome where
  first : Bool
  second : Bool
  bleOff : Bool
  bleFirst : Bool
  bleSecond : Bool
  registered : Bool
  sent : Bool
  oneNetOk : Bool
  tick : UInt32
  deriving DecidableEq, Repr

/-- The loop: its globals, the watchdog, and the statements so far, each with the value of
`AT_COMPonet_Station` that it found. -/
structure MainRun where
  thread : ThreadState
  heart : HeartOverTime
  trace : List (ℕ × ThreadOp)
  deriving DecidableEq, Repr

/-- Statements with the values of `AT_COMPonet_Station` that they find. -/
def traced (t : ThreadState) : List ThreadOp → List (ℕ × ThreadOp)
  | [] => []
  | op :: ops => (t.atComponetStation, op) :: traced (op.exec t) ops

def connectBlock (o : Outcome) (t : ThreadState) : List ThreadOp :=
  if t.connectStation ≠ .connectServerOK then
    gsmConnectingLoop t.oneNetParam t.connectStation t.tryNum o.first o.second
  else []

def bleBlock (o : Outcome) (t : ThreadState) : List ThreadOp :=
  if t.bleStation ≠ .bleOk ∧ t.connectStation = .connectServerOK then
    (appEsp32ConfigLoop t.bleStation t.bleTryNum o.bleOff o.bleFirst o.bleSecond).flatMap Prod.snd
  else []

def registerBlock (o : Outcome) (t : ThreadState) : List ThreadOp :=
  if t.connectStation = .connectServerOK ∧ t.oneNetParam.deviceResgistMark = 0 ∧
      t.bleStation = .bleOk then
    registerDevice o.registered
  else []

def oneNetBlock (o : Outcome) (t : ThreadState) : List ThreadOp :=
  if t.connectStation = .connectServerOK ∧ t.oneNetParam.deviceResgistMark = 1 then
    est32ConnectOneNetLoop t.connectOneNetStep t.tyeNum o.sent o.oneNetOk
  else []

/-- The statements of a block. -/
def MainRun.block (block : ThreadState → List ThreadOp) (s : MainRun) : MainRun :=
  { s with
    thread := execAll s.thread (block s.thread)
    trace := s.trace ++ traced s.thread (block s.thread) }

/-- `HeartOverTimeCheck()`, with the restart that `WaitHeartOvertimeHandle` makes. -/
def MainRun.heartCheck (tick : UInt32) (s : MainRun) : MainRun :=
  { s with
    heart := (heartOverTimeCheck s.heart tick).1
    thread :=
      if (heartOverTimeCheck s.heart tick).2 then { s.thread with connectStation := .powerRest }
      else s.thread }

/-- One round of the loop. -/
def mainRound (s : MainRun) (o : Outcome) : Option MainRun :=
  some (((((s.block (connectBlock o)).block (bleBlock o)).block (registerBlock o)).block
    (oneNetBlock o)).heartCheck o.tick)

def MainRun.init : MainRun := ⟨.init, .zero, []⟩

/-- An AT command finds the flag set, and a function that uses the UART itself finds it clear. -/
def Listens : ℕ × ThreadOp → Prop
  | (flag, .sendComAtCmd _ _ _) => flag = 1
  | (flag, .enter _) => flag = 0
  | _ => True

/-- Statements that neither send a command nor use the UART themselves. -/
def ThreadOp.quiet : ThreadOp → Bool
  | .sendComAtCmd _ _ _ => false
  | .enter _ => false
  | _ => true

/-- The invariant. -/
structure Alternating (t : ThreadState) : Prop where
  known : t.connectStation = .powerRest ∨ t.connectStation ∈ connectOrder ∨
    t.connectStation = .connectServerOK
  connecting : t.connectStation ∈ connectOrder → t.atComponetStation = 1
  ble : t.bleStation ∈ bleOrder → t.connectStation = .connectServerOK ∧ t.atComponetStation = 1
  direct : t.connectStation = .connectServerOK → t.bleStation = .bleOk → t.atComponetStation = 0
  registered : t.oneNetParam.deviceResgistMark = 1 → t.bleStation = .bleOk

theorem traced_append (t : ThreadState) (ops ops' : List ThreadOp) :
    traced t (ops ++ ops') = traced t ops ++ traced (execAll t ops) ops' := by
  induction ops generalizing t with
  | nil => rfl
  | cons op ops ih => rw [List.cons_append, traced, ih, traced, List.cons_append, execAll_cons]

theorem listens_nil (t : ThreadState) : ∀ e ∈ traced t [], Listens e :=
  fun _ he => absurd he List.not_mem_nil

theorem listens_cons {t : ThreadState} {op : ThreadOp} {ops : List ThreadOp}
    (hop : Listens (t.atComponetStation, op)) (hops : ∀ e ∈ traced (op.exec t) ops, Listens e) :
    ∀ e ∈ traced t (op :: ops), Listens e := by
  intro e he
  rcases List.mem_cons.mp he with rfl | he
  · exact hop
  · exact hops e he

theorem listens_append {t : ThreadState} {ops ops' : List ThreadOp}
    (hops : ∀ e ∈ traced t ops, Listens e)
    (hops' : ∀ e ∈ traced (execAll t ops) ops', Listens e) :
    ∀ e ∈ traced t (ops ++ ops'), Listens e := by
  intro e he
  rw [traced_append] at he
  rcases List.mem_append.mp he with he | he
  · exact hops e he
  · exact hops' e he

theorem listens_of_quiet {ops : List ThreadOp} (hops : ops.all ThreadOp.quiet = true)
    (t : ThreadState) : ∀ e ∈ traced t ops, Listens e := by
  induction ops generalizing t with
  | nil => exact listens_nil t
  | cons op ops ih =>
      rw [List.all_cons, Bool.and_eq_true] at hops
      refine listens_cons ?_ (ih hops.2 _)
      cases op with
      | sendComAtCmd => cases hops.1
      | enter => cases hops.1
      | _ => trivial

theorem quiet_stageFailed (tryNum : UInt8) (exceeded : UInt8 → Bool) :
    (stageFailed tryNum exceeded).all ThreadOp.quiet = true := by
  rw [stageFailed]
  split_ifs <;> rfl

theorem quiet_bleStageFailed (tryNum : ℕ) :
    (bleStageFailed tryNum).all ThreadOp.quiet = true := by
  rw [bleStageFailed]
  split_ifs <;> rfl

/-- A command that finds the flag set, and then quiet statements, whether it succeeds or not. -/
theorem listens_send {t : ThreadState} (hflag : t.atComponetStation = 1) (cmd : AtCommand)
    (keyWord : KeyWord) (ok : Bool) {passed failed : List ThreadOp}
    (hpassed : passed.all ThreadOp.quiet = true)
    (hfailed : ∀ e ∈ traced t failed, Listens e) :
    ∀ e ∈ traced t (.sendComAtCmd cmd keyWord ok :: if ok then passed else failed), Listens e := by
  refine listens_cons hflag ?_
  cases ok with
  | true => exact listens_of_quiet hpassed t
  | false => exact hfailed

/-! ## `GSM_ConnectingLoop` -/

/-- The commands of `GSM_ConnectingLoop` find the flag set. -/
theorem listens_gsmConnectingLoop {t : ThreadState} (ht : Alternating t) (first second : Bool) :
    ∀ e ∈ traced t (gsmConnectingLoop t.oneNetParam t.connectStation t.tryNum first second),
      Listens e := by
  have hfailed : ∀ exceeded, ∀ e ∈ traced t (stageFailed t.tryNum exceeded), Listens e :=
    fun exceeded => listens_of_quiet (quiet_stageFailed t.tryNum exceeded) t
  have hconnecting := ht.connecting
  have hknown := ht.known
  revert hconnecting hknown
  cases t.connectStation with
  | powerRest =>
      intro _ _
      exact listens_cons trivial (listens_cons trivial (listens_cons rfl (listens_of_quiet rfl _)))
  | connectServer =>
      intro hflag _
      have hset := hflag (by decide)
      exact listens_send hset _ _ first rfl (listens_send hset _ _ second rfl (hfailed _))
  | connectServerOK =>
      intro _ _
      exact listens_nil t
  | setTranMode =>
      intro _ hknown
      exact absurd hknown (by decide)
  | startSendData =>
      intro _ hknown
      exact absurd hknown (by decide)
  | _ =>
      intro hflag _
      exact listens_send (hflag (by decide)) _ _ first rfl (hfailed _)

/-- The connection at the end of a call: it stands at a stage with the flag set, or it starts
again, or the server is reached and the flag is cleared. -/
def Connected (flag : ℕ) (station : ConnectStation) : Prop :=
  station = .powerRest ∨ (station ∈ connectOrder ∧ flag = 1) ∨
    (station = .connectServerOK ∧ flag = 0)

/-- What `GSM_ConnectingLoop` does to the globals. -/
theorem execAll_gsmConnectingLoop {t : ThreadState} (ht : Alternating t)
    (hnot : t.connectStation ≠ .connectServerOK) (first second : Bool) :
    ∃ flag station n,
      execAll t (gsmConnectingLoop t.oneNetParam t.connectStation t.tryNum first second) =
        { t with atComponetStation := flag, connectStation := station, tryNum := n } ∧
      Connected flag station := by
  have hfailed : t.connectStation ∈ connectOrder → ∀ exceeded, ∃ flag station n,
      execAll t (stageFailed t.tryNum exceeded) =
        { t with atComponetStation := flag, connectStation := station, tryNum := n } ∧
      Connected flag station := by
    intro hstage exceeded
    rw [stageFailed]
    split_ifs
    · exact ⟨_, .powerRest, 0, rfl, .inl rfl⟩
    · exact ⟨_, t.connectStation, _, rfl, .inr (.inl ⟨hstage, ht.connecting hstage⟩)⟩
  have hcommand : t.connectStation ∈ connectOrder → ∀ cmd next, next ∈ connectOrder →
      ∃ flag station n, execAll t (commandStage cmd next t.tryNum first) =
        { t with atComponetStation := flag, connectStation := station, tryNum := n } ∧
      Connected flag station := by
    intro hstage cmd next hnext
    cases first with
    | true => exact ⟨_, next, 0, rfl, .inr (.inl ⟨hnext, ht.connecting hstage⟩)⟩
    | false => exact hfailed hstage (maxTryNum ≤ ·)
  have hknown := ht.known
  cases hstation : t.connectStation with
  | powerRest =>
      exact ⟨1, .testAtComm, _, rfl, .inr (.inl ⟨by decide, rfl⟩)⟩
  | testAtComm =>
      have hstage : t.connectStation ∈ connectOrder := by rw [hstation]; decide
      cases first with
      | true => exact ⟨_, .colseEcho, 0, rfl, .inr (.inl ⟨by decide, ht.connecting hstage⟩)⟩
      | false => exact hfailed hstage (maxTryNum < ·)
  | connectServer =>
      have hstage : t.connectStation ∈ connectOrder := by rw [hstation]; decide
      cases first with
      | true => exact ⟨0, .connectServerOK, 0, rfl, .inr (.inr ⟨rfl, rfl⟩)⟩
      | false =>
          cases second with
          | true => exact ⟨0, .connectServerOK, 0, rfl, .inr (.inr ⟨rfl, rfl⟩)⟩
          | false => exact hfailed hstage (maxTryNum ≤ ·)
  | connectServerOK => exact absurd hstation hnot
  | setTranMode =>
      rw [hstation] at hknown
      exact absurd hknown (by decide)
  | startSendData =>
      rw [hstation] at hknown
      exact absurd hknown (by decide)
  | _ => exact hcommand (by rw [hstation]; decide) _ _ (by decide)

/-- The first block keeps the invariant. -/
theorem alternating_connectBlock {t : ThreadState} (ht : Alternating t) (o : Outcome) :
    Alternating (execAll t (connectBlock o t)) ∧
      ∀ e ∈ traced t (connectBlock o t), Listens e := by
  rw [connectBlock]
  split_ifs with hnot
  · refine ⟨?_, listens_gsmConnectingLoop ht o.first o.second⟩
    obtain ⟨flag, station, n, heq, hconnected⟩ :=
      execAll_gsmConnectingLoop ht hnot o.first o.second
    rw [heq]
    -- The Bluetooth part is not under way, since the connection did not stand.
    have hble : t.bleStation ∉ bleOrder := fun hble => hnot (ht.ble hble).1
    have hrest : ConnectStation.powerRest ∉ connectOrder := by decide
    have hreached : ConnectStation.connectServerOK ∉ connectOrder := by decide
    rcases hconnected with rfl | ⟨hstage, rfl⟩ | ⟨rfl, rfl⟩
    · exact ⟨.inl rfl, fun h => absurd h hrest, fun h => absurd h hble, nofun, ht.registered⟩
    · refine ⟨.inr (.inl hstage), fun _ => rfl, fun h => absurd h hble, fun h => ?_, ht.registered⟩
      obtain rfl : station = .connectServerOK := h
      exact absurd hstage hreached
    · exact ⟨.inr (.inr rfl), fun h => absurd h hreached, fun h => absurd h hble,
        fun _ _ => rfl, ht.registered⟩
  · exact ⟨ht, listens_nil t⟩

/-! ## `APP_ESP32_Config_loop` -/

/-- The Bluetooth part at the end of a call: it starts again, or it stands at a stage with the
flag set, or it is up and the flag is cleared. -/
def Configured (flag : ℕ) (station : BleStation) : Prop :=
  station = .reset ∨ (station ∈ bleOrder ∧ flag = 1) ∨ (station = .bleOk ∧ flag = 0)

/-- A call ends in one of these states, with the other globals as they were. -/
def EndsConfigured (t u : ThreadState) : Prop :=
  ∃ flag station n,
    u = { t with atComponetStation := flag, bleStation := station, bleTryNum := n } ∧
      Configured flag station

theorem endsConfigured_bleStageFailed {t : ThreadState} (hstage : t.bleStation ∈ bleOrder)
    (hflag : t.atComponetStation = 1) (tryNum : ℕ) :
    EndsConfigured t (execAll t (bleStageFailed tryNum)) := by
  rw [bleStageFailed]
  split_ifs
  · exact ⟨_, .reset, 0, rfl, .inl rfl⟩
  · exact ⟨_, t.bleStation, _, rfl, .inr (.inl ⟨hstage, hflag⟩)⟩

/-- `case BLEINIT`, entered with the flag set. -/
theorem bleInitStage_ok {t : ThreadState} (hstation : t.bleStation = .bleInit)
    (hflag : t.atComponetStation = 1) (tryNum : ℕ) (first second : Bool) :
    EndsConfigured t (execAll t (bleInitStage tryNum first second)) ∧
      ∀ e ∈ traced t (bleInitStage tryNum first second), Listens e := by
  have hstage : t.bleStation ∈ bleOrder := by rw [hstation]; decide
  have hpassed : EndsConfigured t (execAll t (bleStagePassed .bleGattsSrv)) :=
    ⟨_, .bleGattsSrv, 0, rfl, .inr (.inl ⟨by decide, hflag⟩)⟩
  constructor
  · cases first with
    | true => exact hpassed
    | false =>
        cases second with
        | true => exact hpassed
        | false => exact endsConfigured_bleStageFailed hstage hflag tryNum
  · exact listens_send hflag _ _ first rfl (listens_send hflag _ _ second rfl
      (listens_of_quiet (quiet_bleStageFailed tryNum) t))

/-- The other cases, entered with the flag set. -/
theorem bleCommandStage_ok {t : ThreadState} (hstage : t.bleStation ∈ bleOrder)
    (hflag : t.atComponetStation = 1) (cmd : AtCommand) {next : BleStation}
    (hnext : next ∈ bleOrder) (tryNum : ℕ) (ok : Bool) :
    EndsConfigured t (execAll t (bleCommandStage cmd next tryNum ok)) ∧
      ∀ e ∈ traced t (bleCommandStage cmd next tryNum ok), Listens e := by
  constructor
  · cases ok with
    | true => exact ⟨_, next, 0, rfl, .inr (.inl ⟨hnext, hflag⟩)⟩
    | false => exact endsConfigured_bleStageFailed hstage hflag tryNum
  · exact listens_send hflag _ _ ok rfl (listens_of_quiet (quiet_bleStageFailed tryNum) t)

theorem bleBlock_ok {t : ThreadState} (ht : Alternating t) (hnot : t.bleStation ≠ .bleOk)
    (off first second : Bool) :
    EndsConfigured t (execAll t
        ((appEsp32ConfigLoop t.bleStation t.bleTryNum off first second).flatMap Prod.snd)) ∧
      ∀ e ∈ traced t
        ((appEsp32ConfigLoop t.bleStation t.bleTryNum off first second).flatMap Prod.snd),
        Listens e := by
  have hcommand : t.bleStation ∈ bleOrder → ∀ cmd next, next ∈ bleOrder →
      EndsConfigured t (execAll t (bleCommandStage cmd next t.bleTryNum first ++ [])) ∧
        ∀ e ∈ traced t (bleCommandStage cmd next t.bleTryNum first ++ []), Listens e := by
    intro hstage cmd next hnext
    rw [List.append_nil]
    exact bleCommandStage_ok hstage (ht.ble hstage).2 cmd hnext _ first
  cases hstation : t.bleStation with
  | reset =>
      -- The flag is set first, and the next case is run through in the same call.
      have hinit := bleInitStage_ok (t := execAll t (bleReset off)) rfl rfl t.bleTryNum first second
      have hparts : (appEsp32ConfigLoop .reset t.bleTryNum off first second).flatMap Prod.snd =
          bleReset off ++ bleInitStage t.bleTryNum first second := by
        simp [appEsp32ConfigLoop]
      rw [hparts, execAll_append]
      refine ⟨hinit.1, listens_append ?_ hinit.2⟩
      exact listens_cons trivial (listens_cons trivial (listens_cons rfl (listens_of_quiet rfl _)))
  | bleInit =>
      have hflag := (ht.ble (by rw [hstation]; decide)).2
      have hinit := bleInitStage_ok hstation hflag t.bleTryNum first second
      have hparts : (appEsp32ConfigLoop .bleInit t.bleTryNum off first second).flatMap Prod.snd =
          bleInitStage t.bleTryNum first second := List.append_nil _
      rw [hparts]
      exact hinit
  | bleAdvStart =>
      have hstage : t.bleStation ∈ bleOrder := by rw [hstation]; decide
      have hflag := (ht.ble hstage).2
      have hparts : (appEsp32ConfigLoop .bleAdvStart t.bleTryNum off first second).flatMap
          Prod.snd = .sendComAtCmd .atBleAdvStart .ok first ::
            if first then bleStagePassed .bleOk ++ [.setAtComponetStation 0, .delay 100]
            else bleStageFailed t.bleTryNum := List.append_nil _
      rw [hparts]
      constructor
      · cases first with
        | true => exact ⟨0, .bleOk, 0, rfl, .inr (.inr ⟨rfl, rfl⟩)⟩
        | false => exact endsConfigured_bleStageFailed hstage hflag t.bleTryNum
      · exact listens_send hflag _ _ first rfl
          (listens_of_quiet (quiet_bleStageFailed t.bleTryNum) t)
  | bleOk => exact absurd hstation hnot
  | _ => exact hcommand (by rw [hstation]; decide) _ _ (by decide)

/-- The second block keeps the invariant. -/
theorem alternating_bleBlock {t : ThreadState} (ht : Alternating t) (o : Outcome) :
    Alternating (execAll t (bleBlock o t)) ∧ ∀ e ∈ traced t (bleBlock o t), Listens e := by
  rw [bleBlock]
  split_ifs with hguard
  · obtain ⟨hends, hlistens⟩ := bleBlock_ok ht hguard.1 o.bleOff o.bleFirst o.bleSecond
    refine ⟨?_, hlistens⟩
    obtain ⟨flag, station, n, heq, hconfigured⟩ := hends
    rw [heq]
    have hstands : t.connectStation ∉ connectOrder := by rw [hguard.2]; decide
    have hregistered : t.oneNetParam.deviceResgistMark ≠ 1 := fun h => hguard.1 (ht.registered h)
    have hreset : BleStation.reset ∉ bleOrder := by decide
    have hup : BleStation.bleOk ∉ bleOrder := by decide
    rcases hconfigured with rfl | ⟨hstage, rfl⟩ | ⟨rfl, rfl⟩
    · exact ⟨ht.known, fun h => absurd h hstands, fun h => absurd h hreset, nofun,
        fun h => absurd h hregistered⟩
    · refine ⟨ht.known, fun h => absurd h hstands, fun _ => ⟨hguard.2, rfl⟩, fun _ h => ?_,
        fun h => absurd h hregistered⟩
      obtain rfl : station = .bleOk := h
      exact absurd hstage hup
    · exact ⟨ht.known, fun h => absurd h hstands, fun h => absurd h hup, fun _ _ => rfl,
        fun h => absurd h hregistered⟩
  · exact ⟨ht, listens_nil t⟩

/-! ## Registration and the connection to OneNet -/

/-- With the Bluetooth part up, the connection may start again at any time. -/
theorem alternating_restart {t : ThreadState} (hble : t.bleStation = .bleOk)
    (hstation : t.connectStation = .powerRest) : Alternating t := by
  refine ⟨.inl hstation, fun h => ?_, fun h => ?_, fun h => ?_, fun _ => hble⟩
  · rw [hstation] at h
    exact absurd h (by decide)
  · rw [hble] at h
    exact absurd h (by decide)
  · rw [hstation] at h
    exact absurd h (by decide)

/-- A function that uses the UART itself, entered with the flag clear, and then quiet
statements. -/
theorem listens_enter {t : ThreadState} (hflag : t.atComponetStation = 0) (f : Direct)
    {ops : List ThreadOp} (hops : ops.all ThreadOp.quiet = true) :
    ∀ e ∈ traced t (.enter f :: ops), Listens e :=
  listens_cons hflag (listens_of_quiet hops t)

theorem alternating_registerBlock {t : ThreadState} (ht : Alternating t) (o : Outcome) :
    Alternating (execAll t (registerBlock o t)) ∧
      ∀ e ∈ traced t (registerBlock o t), Listens e := by
  rw [registerBlock]
  split_ifs with hguard
  · have hflag := ht.direct hguard.1 hguard.2.2
    cases o.registered with
    | true => exact ⟨alternating_restart hguard.2.2 rfl, listens_enter hflag _ rfl⟩
    | false => exact ⟨ht, listens_enter hflag _ rfl⟩
  · exact ⟨ht, listens_nil t⟩

theorem quiet_oneNetExchange (sent : Bool) :
    (oneNetExchange sent).all ThreadOp.quiet = true := by
  cases sent <;> rfl

theorem execAll_oneNetExchange (t : ThreadState) (sent : Bool) :
    execAll t (oneNetExchange sent) = t := by
  cases sent <;> rfl

/-- A step of the connection to OneNet that has failed. -/
theorem alternating_oneNetFailed {t : ThreadState} (ht : Alternating t)
    (hble : t.bleStation = .bleOk) (tyeNum : UInt8) :
    Alternating (execAll t (oneNetFailed tyeNum)) ∧
      (oneNetFailed tyeNum).all ThreadOp.quiet = true := by
  rw [oneNetFailed]
  split_ifs
  · exact ⟨alternating_restart hble rfl, rfl⟩
  · exact ⟨⟨ht.known, ht.connecting, ht.ble, ht.direct, ht.registered⟩, rfl⟩

/-- A step of the connection to OneNet: the exchange, and then quiet statements. -/
theorem alternating_oneNet {t : ThreadState} (hflag : t.atComponetStation = 0) (f : Direct)
    (sent : Bool) {ops : List ThreadOp}
    (hops : Alternating (execAll t ops) ∧ ops.all ThreadOp.quiet = true) :
    Alternating (execAll t (.enter f :: oneNetExchange sent ++ ops)) ∧
      ∀ e ∈ traced t (.enter f :: oneNetExchange sent ++ ops), Listens e := by
  have hquiet : (oneNetExchange sent ++ ops).all ThreadOp.quiet = true := by
    rw [List.all_append, quiet_oneNetExchange, hops.2]
    rfl
  have hexec : execAll t (.enter f :: oneNetExchange sent ++ ops) = execAll t ops := by
    rw [List.cons_append, execAll_cons, execAll_append]
    exact congrArg (execAll · ops) (execAll_oneNetExchange t sent)
  rw [hexec]
  exact ⟨hops.1, listens_enter hflag f hquiet⟩

theorem alternating_oneNetBlock {t : ThreadState} (ht : Alternating t) (o : Outcome) :
    Alternating (execAll t (oneNetBlock o t)) ∧ ∀ e ∈ traced t (oneNetBlock o t), Listens e := by
  rw [oneNetBlock]
  split_ifs with hguard
  · have hble := ht.registered hguard.2
    have hflag := ht.direct hguard.1 hble
    rw [est32ConnectOneNetLoop]
    split_ifs
    · refine alternating_oneNet hflag _ o.sent ?_
      exact ⟨⟨ht.known, ht.connecting, ht.ble, ht.direct, ht.registered⟩, rfl⟩
    · exact alternating_oneNet hflag _ o.sent (alternating_oneNetFailed ht hble _)
    · refine alternating_oneNet hflag _ o.sent ?_
      exact ⟨⟨ht.known, ht.connecting, ht.ble, ht.direct, ht.registered⟩, rfl⟩
    · exact alternating_oneNet hflag _ o.sent (alternating_oneNetFailed ht hble _)
    · exact ⟨ht, listens_nil t⟩
  · exact ⟨ht, listens_nil t⟩

/-! ## Runs -/

/-- The invariant of the loop: its globals alternate, the watchdog is not running, and every
statement so far has found the flag as it needs it. -/
structure Listening (s : MainRun) : Prop where
  alternating : Alternating s.thread
  stopped : s.heart.heartBwtStartMark = 0
  trace : ∀ e ∈ s.trace, Listens e

theorem listening_init : Listening .init := by
  refine ⟨⟨.inl rfl, fun h => absurd h ?_, fun h => absurd h ?_, nofun, nofun⟩, rfl,
    fun _ he => absurd he List.not_mem_nil⟩
  · exact (by decide : ConnectStation.powerRest ∉ connectOrder)
  · exact (by decide : BleStation.reset ∉ bleOrder)

theorem listening_block {s : MainRun} (hs : Listening s) {block : ThreadState → List ThreadOp}
    (hblock : Alternating (execAll s.thread (block s.thread)) ∧
      ∀ e ∈ traced s.thread (block s.thread), Listens e) : Listening (s.block block) := by
  refine ⟨hblock.1, hs.stopped, fun e he => ?_⟩
  rcases List.mem_append.mp he with he | he
  · exact hs.trace e he
  · exact hblock.2 e he

/-- A watchdog that is not running does not fire. -/
theorem listening_heartCheck {s : MainRun} (hs : Listening s) (tick : UInt32) :
    Listening (s.heartCheck tick) := by
  have hcheck : heartOverTimeCheck s.heart tick = (s.heart, false) := by
    rw [heartOverTimeCheck, hs.stopped]
    rfl
  rw [MainRun.heartCheck, hcheck]
  exact hs

theorem listening_round {s t : MainRun} {o : Outcome} (hs : Listening s)
    (h : mainRound s o = some t) : Listening t := by
  cases h
  have hconnect := listening_block hs (alternating_connectBlock hs.alternating o)
  have hble := listening_block hconnect (alternating_bleBlock hconnect.alternating o)
  have hregister := listening_block hble (alternating_registerBlock hble.alternating o)
  have honeNet := listening_block hregister (alternating_oneNetBlock hregister.alternating o)
  exact listening_heartCheck honeNet o.tick

/-- In every run of the loop of `GSM_thread_entry`, whatever the commands, the registration and
the exchanges with OneNet end in, every AT command is sent with `AT_COMPonet_Station` equal to
1, and `RegisterDevice`, `OneNet_Connect` and `OneNet_SUBSCRIBE` are called with it equal
to 0. -/
theorem listening (os : List Outcome) (s : MainRun)
    (h : Run mainRound unconditional .init os s) : ∀ e ∈ s.trace, Listens e :=
  (h.invariant Listening (fun _ _ _ hs _ hst => listening_round hs hst) listening_init).trace

/-- Everything succeeds. -/
def allOk : Outcome := ⟨true, true, true, true, true, true, true, true, 0⟩

/-- The device is connected, configured, registered, connected again, and subscribes. -/
theorem listening_upToSubscribe :
    ∃ s, Run mainRound unconditional .init (List.replicate 25 allOk) s ∧
      ((0, .enter .registerDevice) ∈ s.trace ∧ (0, .enter .oneNetSubscribe) ∈ s.trace) ∧
        ∀ e ∈ s.trace, Listens e := by
  obtain ⟨s, hrun, hs⟩ := Run.exists_of_exec mainRound unconditional .init
    (List.replicate 25 allOk)
    (fun s => decide ((0, .enter .registerDevice) ∈ s.trace ∧
      (0, .enter .oneNetSubscribe) ∈ s.trace)) (by decide +kernel)
  exact ⟨s, hrun, of_decide_eq_true hs, listening _ s hrun⟩

end Gsm.Thread
