import Esp32AtMqtt.AtClient.Response
import Esp32AtMqtt.Gsm.Connect

/-!
# The GSM thread with its commands and all its globals

`GSM_ConnectingLoop`, `APP_ESP32_Config_loop`, `EST32ConnectOneNetLoop` and the registration
step of `GSM_thread_entry` as lists of statements, with the AT commands they send and how
these end. A call of one of the first two is split into the cases of its `switch` that it
runs through: `Reset` falls through to `BLEINIT`, so such a call has two parts.

Beside the operations of `Gsm.MainOp` there are here the globals of the Bluetooth part and of
the registration, and the calls that use the UART without the AT client. What a statement
does to the globals is `ThreadOp.exec`. Without the texts of the commands the operations of
`GSM_ConnectingLoop` are those of `Gsm.gsmConnectingLoop` (`mainOps_gsmConnectingLoop`).
-/

namespace Gsm.Thread

open AtCmd

/-- The values of `BLE_Station`. -/
inductive BleStation
  | reset
  | bleInit
  | bleGattsSrv
  | bleGattsSrvStart
  | bleAddr
  | bleAdvParam
  | bleAdvData
  | bleAdvStart
  | bleOk
  deriving DecidableEq, Repr

/-- The fields of `OneNetParam` that the thread uses. -/
structure OneNetParam where
  gwName : List UInt8
  gwKey : List UInt8
  mqttAddr : List UInt8
  mqttPort : ℤ
  deviceResgistMark : UInt8
  deriving DecidableEq, Repr

/-- The bytes of a string of the source. -/
def bytes (s : String) : List UInt8 := s.toList.map fun c => UInt8.ofNat c.toNat

/-- The AT commands of the thread. -/
inductive AtCommand
  | atCipClose
  | atCommend
  | atCloseEcho
  | atBaudRate
  | atSetWiFiMode
  | connectGW (gwName gwKey : List UInt8)
  | atReadIPAddr
  | connectServer (mqttAddr : List UInt8) (mqttPort : ℤ)
  | atSetTranMode
  | atStartSendData
  | bleInitOff
  | atBleInit
  | bleInitServer
  | atBleGattsSrv
  | atBleGattsSrvStart
  | atBleAddr
  | atBleAdvParam
  | atBleAdvData
  | atBleAdvStart
  deriving DecidableEq, Repr

/-- The text of a command, as the call of `ESP32_SendCOM_AT_CMD` has it. -/
def AtCommand.text : AtCommand → List UInt8
  | .atCipClose => bytes "AT+CIPCLOSE"
  | .atCommend => bytes "AT"
  | .atCloseEcho => bytes "ATE0"
  | .atBaudRate => bytes "AT+UART=115200,8,1,0,0"
  | .atSetWiFiMode => bytes "AT+CWMODE=3"
  | .connectGW gwName gwKey =>
      bytes "AT+CWJAP=\"" ++ cString gwName ++ bytes "\",\"" ++ cString gwKey ++ bytes "\""
  | .atReadIPAddr => bytes "AT+CIFSR"
  | .connectServer mqttAddr mqttPort =>
      bytes "AT+CIPSTART=\"TCP\",\"" ++ cString mqttAddr ++ bytes "\"," ++
        bytes (toString mqttPort)
  | .atSetTranMode => bytes "AT+CIPMODE=1"
  | .atStartSendData => bytes "AT+CIPSEND"
  | .bleInitOff => bytes "AT+BLEINIT=0"
  | .atBleInit => bytes "AT+BLEINIT?"
  | .bleInitServer => bytes "AT+BLEINIT=2"
  | .atBleGattsSrv => bytes "AT+BLEGATTSSRVCRE"
  | .atBleGattsSrvStart => bytes "AT+BLEGATTSSRVSTART"
  | .atBleAddr => bytes "AT+BLEADDR?"
  | .atBleAdvParam => bytes "AT+BLEADVPARAM=32,64,0,0,7"
  | .atBleAdvData => bytes "AT+BLEADVDATA=\"0201060A09457370726573736966030302A0\""
  | .atBleAdvStart => bytes "AT+BLEADVSTART"

/-- The word that the answer to a command is searched for. -/
inductive KeyWord
  | ok
  | connected
  | bleInitOff
  | bleInitServer
  deriving DecidableEq, Repr

/-- The functions that use the UART without the AT client. -/
inductive Direct
  | registerDevice
  | oneNetConnect
  | oneNetSubscribe
  deriving DecidableEq, Repr

/-- One statement of the thread; `ok` is whether `ESP32_SendCOM_AT_CMD` returns 0. -/
inductive ThreadOp
  | setAtComponetStation (value : ℕ)
  | setConnectStation (station : ConnectStation)
  | setTryNum (n : UInt8)
  | setBleStation (station : BleStation)
  | setBleTryNum (n : ℕ)
  | setServer (addr : List UInt8) (port : ℤ)
  | setDeviceResgistMark (mark : UInt8)
  | setConnectOneNetStep (step : UInt8)
  | setTyeNum (n : UInt8)
  | sendComAtCmd (cmd : AtCommand) (keyWord : KeyWord) (ok : Bool)
  | enter (f : Direct)
  | deviceWrite
  | deviceRead (size : ℕ)
  | delay (ticks : ℕ)
  deriving DecidableEq, Repr

/-- The globals of the thread. `tryNum`, `bleTryNum` and `tyeNum` are the static counters of
`GSM_ConnectingLoop`, `APP_ESP32_Config_loop` and `EST32ConnectOneNetLoop`. -/
structure ThreadState where
  atComponetStation : ℕ
  connectStation : ConnectStation
  tryNum : UInt8
  bleStation : BleStation
  bleTryNum : ℕ
  connectOneNetStep : UInt8
  tyeNum : UInt8
  oneNetParam : OneNetParam
  deriving DecidableEq, Repr

/-- `OneNetParaInit()`. -/
def oneNetParaInit : OneNetParam where
  gwName := bytes "HMDJ" ++ List.replicate 26 0
  gwKey := bytes "88888888" ++ List.replicate 12 0
  mqttAddr := bytes "183.230.40.33" ++ List.replicate 17 0
  mqttPort := 80
  deviceResgistMark := 0

/-- The globals when the loop of `GSM_thread_entry` begins. -/
def ThreadState.init : ThreadState where
  atComponetStation := 1
  connectStation := .powerRest
  tryNum := 0
  bleStation := .reset
  bleTryNum := 0
  connectOneNetStep := 0
  tyeNum := 0
  oneNetParam := oneNetParaInit

/-- A statement of the thread. -/
def ThreadOp.exec (t : ThreadState) : ThreadOp → ThreadState
  | .setAtComponetStation value => { t with atComponetStation := value }
  | .setConnectStation station => { t with connectStation := station }
  | .setTryNum n => { t with tryNum := n }
  | .setBleStation station => { t with bleStation := station }
  | .setBleTryNum n => { t with bleTryNum := n }
  | .setServer addr port =>
      { t with oneNetParam :=
          { t.oneNetParam with
            mqttAddr := addr ++ t.oneNetParam.mqttAddr.drop addr.length, mqttPort := port } }
  | .setDeviceResgistMark mark =>
      { t with oneNetParam := { t.oneNetParam with deviceResgistMark := mark } }
  | .setConnectOneNetStep step => { t with connectOneNetStep := step }
  | .setTyeNum n => { t with tyeNum := n }
  | .sendComAtCmd _ _ _ => t
  | .enter _ => t
  | .deviceWrite => t
  | .deviceRead _ => t
  | .delay _ => t

/-- The statements one after another. -/
def execAll (t : ThreadState) (ops : List ThreadOp) : ThreadState := ops.foldl ThreadOp.exec t

/-- The commands among some statements, with how they ended. -/
def commandsOf (ops : List ThreadOp) : List ((AtCommand × KeyWord) × Bool) :=
  ops.filterMap fun
    | .sendComAtCmd cmd keyWord ok => some ((cmd, keyWord), ok)
    | _ => none

/-! ## `GSM_ConnectingLoop` -/

/-- A stage that has succeeded. -/
def stagePassed (next : ConnectStation) : List ThreadOp := [.setTryNum 0, .setConnectStation next]

/-- A stage that has failed once more; `exceeded` is its test of `TryNum`. -/
def stageFailed (tryNum : UInt8) (exceeded : UInt8 → Bool) : List ThreadOp :=
  .setTryNum (tryNum + 1) ::
    if exceeded (tryNum + 1) then [.setTryNum 0, .setConnectStation .powerRest] else []

/-- A stage with one command. -/
def commandStage (cmd : AtCommand) (next : ConnectStation) (tryNum : UInt8) (ok : Bool) :
    List ThreadOp :=
  .sendComAtCmd cmd .ok ok ::
    if ok then stagePassed next else stageFailed tryNum (maxTryNum ≤ ·)

/-- The server is reached: the AT client is put to sleep. -/
def serverReached : List ThreadOp :=
  [.setTryNum 0, .setAtComponetStation 0, .setConnectStation .connectServerOK]

/-- The `switch` of `GSM_ConnectingLoop()` at `station`; `first` and `second` tell which of its
AT commands succeed. -/
def gsmConnectingLoop (param : OneNetParam) (station : ConnectStation) (tryNum : UInt8)
    (first second : Bool) : List ThreadOp :=
  match station with
  | .powerRest =>
      [.setAtComponetStation 1, .delay 500, .sendComAtCmd .atCipClose .ok first, .deviceRead 512,
        .setConnectStation .testAtComm]
  | .testAtComm =>
      .sendComAtCmd .atCommend .ok first ::
        if first then stagePassed .colseEcho else stageFailed tryNum (maxTryNum < ·)
  | .colseEcho => commandStage .atCloseEcho .setBaudrate tryNum first
  | .setBaudrate => commandStage .atBaudRate .setWiFiMode tryNum first
  | .setWiFiMode => commandStage .atSetWiFiMode .connectGW tryNum first
  | .connectGW => commandStage (.connectGW param.gwName param.gwKey) .readIPAddr tryNum first
  | .readIPAddr => commandStage .atReadIPAddr .connectServer tryNum first
  | .connectServer =>
      .sendComAtCmd (.connectServer param.mqttAddr param.mqttPort) .ok first ::
        if first then serverReached
        else
          .sendComAtCmd (.connectServer param.mqttAddr param.mqttPort) .connected second ::
            if second then serverReached else stageFailed tryNum (maxTryNum ≤ ·)
  | .setTranMode => commandStage .atSetTranMode .startSendData tryNum first
  | .startSendData =>
      .sendComAtCmd .atStartSendData .ok first ::
        if first then serverReached ++ [.delay 100] else stageFailed tryNum (maxTryNum ≤ ·)
  | .connectServerOK => []

/-- A statement as an operation on the UART and the globals of the connection. -/
def ThreadOp.main? : ThreadOp → Option MainOp
  | .setAtComponetStation value => some (.setAtComponetStation value)
  | .setConnectStation station => some (.setConnectStation station)
  | .setTryNum n => some (.setTryNum n)
  | .sendComAtCmd _ _ _ => some .sendComAtCmd
  | .deviceWrite => some .deviceWrite
  | .deviceRead size => some (.deviceRead size)
  | .delay ticks => some (.delay ticks)
  | .setBleStation _ => none
  | .setBleTryNum _ => none
  | .setServer _ _ => none
  | .setDeviceResgistMark _ => none
  | .setConnectOneNetStep _ => none
  | .setTyeNum _ => none
  | .enter _ => none

/-- Without the texts of the commands the two models of `GSM_ConnectingLoop` agree. -/
theorem mainOps_gsmConnectingLoop (param : OneNetParam) (station : ConnectStation)
    (tryNum : UInt8) (first second : Bool) :
    (gsmConnectingLoop param station tryNum first second).filterMap ThreadOp.main? =
      Gsm.gsmConnectingLoop station tryNum first second := by
  have hfailed : ∀ exceeded, (stageFailed tryNum exceeded).filterMap ThreadOp.main? =
      Gsm.stageFailed tryNum exceeded := by
    intro exceeded
    rw [stageFailed, Gsm.stageFailed]
    split_ifs <;> rfl
  have hcommand : ∀ cmd next ok,
      (commandStage cmd next tryNum ok).filterMap ThreadOp.main? =
        Gsm.commandStage next tryNum ok := by
    intro cmd next ok
    cases ok with
    | true => rfl
    | false => exact congrArg (List.cons MainOp.sendComAtCmd) (hfailed (maxTryNum ≤ ·))
  cases station with
  | powerRest => rfl
  | testAtComm =>
      cases first with
      | true => rfl
      | false => exact congrArg (List.cons MainOp.sendComAtCmd) (hfailed (maxTryNum < ·))
  | connectServer =>
      cases first with
      | true => rfl
      | false =>
          cases second with
          | true => rfl
          | false =>
              exact congrArg (MainOp.sendComAtCmd :: MainOp.sendComAtCmd :: ·)
                (hfailed (maxTryNum ≤ ·))
  | startSendData =>
      cases first with
      | true => rfl
      | false => exact congrArg (List.cons MainOp.sendComAtCmd) (hfailed (maxTryNum ≤ ·))
  | connectServerOK => rfl
  | _ => exact hcommand _ _ _

/-! ## `APP_ESP32_Config_loop` -/

/-- A stage that has succeeded. -/
def bleStagePassed (next : BleStation) : List ThreadOp := [.setBleTryNum 0, .setBleStation next]

/-- A stage that has failed once more. -/
def bleStageFailed (tryNum : ℕ) : List ThreadOp :=
  .setBleTryNum (tryNum + 1) ::
    if maxTryNum.toNat < tryNum + 1 then [.setBleTryNum 0, .setBleStation .reset] else []

/-- A stage with one command. -/
def bleCommandStage (cmd : AtCommand) (next : BleStation) (tryNum : ℕ) (ok : Bool) :
    List ThreadOp :=
  .sendComAtCmd cmd .ok ok :: if ok then bleStagePassed next else bleStageFailed tryNum

/-- `case Reset`. -/
def bleReset (ok : Bool) : List ThreadOp :=
  [.setAtComponetStation 1, .delay 100, .sendComAtCmd .bleInitOff .bleInitOff ok,
    .setBleStation .bleInit]

/-- `case BLEINIT`. -/
def bleInitStage (tryNum : ℕ) (first second : Bool) : List ThreadOp :=
  .sendComAtCmd .atBleInit .bleInitServer first ::
    if first then bleStagePassed .bleGattsSrv
    else
      .sendComAtCmd .bleInitServer .ok second ::
        if second then bleStagePassed .bleGattsSrv else bleStageFailed tryNum

/-- The `switch` of `APP_ESP32_Config_loop()` at `station`: the cases it runs through, each with
its statements. `off` is how the command of `Reset` ends, `first` and `second` the others. -/
def appEsp32ConfigLoop (station : BleStation) (tryNum : ℕ) (off first second : Bool) :
    List (BleStation × List ThreadOp) :=
  match station with
  | .reset =>
      [(.reset, bleReset off), (.bleInit, bleInitStage tryNum first second)]
  | .bleInit => [(.bleInit, bleInitStage tryNum first second)]
  | .bleGattsSrv =>
      [(.bleGattsSrv, bleCommandStage .atBleGattsSrv .bleGattsSrvStart tryNum first)]
  | .bleGattsSrvStart =>
      [(.bleGattsSrvStart, bleCommandStage .atBleGattsSrvStart .bleAddr tryNum first)]
  | .bleAddr => [(.bleAddr, bleCommandStage .atBleAddr .bleAdvParam tryNum first)]
  | .bleAdvParam => [(.bleAdvParam, bleCommandStage .atBleAdvParam .bleAdvData tryNum first)]
  | .bleAdvData => [(.bleAdvData, bleCommandStage .atBleAdvData .bleAdvStart tryNum first)]
  | .bleAdvStart =>
      [(.bleAdvStart,
        .sendComAtCmd .atBleAdvStart .ok first ::
          if first then bleStagePassed .bleOk ++ [.setAtComponetStation 0, .delay 100]
          else bleStageFailed tryNum)]
  | .bleOk => []

/-! ## Registration and the connection to OneNet -/

/-- The statements of `RegisterDevice`. -/
def registerExchange : List ThreadOp :=
  [.deviceRead 100, .deviceWrite, .delay 100, .deviceWrite, .delay 100, .deviceRead 400,
    .deviceWrite, .delay 100, .deviceWrite, .delay 100, .deviceRead 400,
    .deviceWrite, .delay 100, .deviceWrite, .delay 100, .deviceRead 400,
    .deviceWrite, .delay 100, .deviceWrite, .delay 1000, .deviceRead 400]

/-- `MQTT_IPAddr_Default`. -/
def mqttIPAddrDefault : List UInt8 := bytes "183.230.40.39"

/-- `MQTT_ServerPort`. -/
def mqttServerPort : ℤ := 6002

/-- The call of `RegisterDevice` in `GSM_thread_entry`, and what is done when it returns 0. -/
def registerDevice (registered : Bool) : List ThreadOp :=
  .enter .registerDevice :: registerExchange ++
    if registered then
      [.setDeviceResgistMark 1, .setServer mqttIPAddrDefault mqttServerPort,
        .setConnectStation .powerRest]
    else []

/-- The statements of `OneNet_Connect` and of `OneNet_SUBSCRIBE`; `sent` is whether the packet
is handed to `rt_ESP32_write`. -/
def oneNetExchange (sent : Bool) : List ThreadOp :=
  .deviceRead mqttVarHeaderBufferLen ::
    (if sent then [.deviceWrite, .delay 100, .deviceWrite] else []) ++
      [.delay 500, .deviceRead mqttVarHeaderBufferLen]

/-- A step of the connection to OneNet that has failed once more. -/
def oneNetFailed (tyeNum : UInt8) : List ThreadOp :=
  .setTyeNum (tyeNum + 1) ::
    if 5 < tyeNum + 1 then [.setConnectOneNetStep 0, .setConnectStation .powerRest] else []

/-- `EST32ConnectOneNetLoop()`; `ok` is whether the function it calls returns 0. -/
def est32ConnectOneNetLoop (connectOneNetStep tyeNum : UInt8) (sent ok : Bool) :
    List ThreadOp :=
  if connectOneNetStep = 0 then
    .enter .oneNetConnect :: oneNetExchange sent ++
      if ok then [.setTyeNum 0, .setConnectOneNetStep 1] else oneNetFailed tyeNum
  else if connectOneNetStep = 1 then
    .enter .oneNetSubscribe :: oneNetExchange sent ++
      if ok then [.setConnectOneNetStep 2, .deviceWrite] else oneNetFailed tyeNum
  else []

@[simp] theorem execAll_nil (t : ThreadState) : execAll t [] = t := rfl

@[simp] theorem execAll_cons (t : ThreadState) (op : ThreadOp) (ops : List ThreadOp) :
    execAll t (op :: ops) = execAll (op.exec t) ops := rfl

theorem execAll_append (t : ThreadState) (ops ops' : List ThreadOp) :
    execAll t (ops ++ ops') = execAll (execAll t ops) ops' := List.foldl_append

end Gsm.Thread
