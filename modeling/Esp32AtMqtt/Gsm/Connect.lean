import Mathlib.Data.Nat.Notation

/-!
# The operations of the GSM thread

`GSM_ConnectingLoop`, `RegisterDevice`, `OneNet_Connect` and `OneNet_SUBSCRIBE` as the lists
of what they do to the UART and to the globals they share with the AT client, in the order
of their statements. How an AT command ends is a parameter: it depends on the module.
-/

namespace Gsm

/-- The values `GSMConnect.ConnectStation` is set to. -/
inductive ConnectStation
  | powerRest
  | testAtComm
  | colseEcho
  | setBaudrate
  | setWiFiMode
  | connectGW
  | readIPAddr
  | connectServer
  | setTranMode
  | startSendData
  | connectServerOK
  deriving DecidableEq, Repr

/-- One statement of the thread: it sets one of the globals, runs an AT command through the
client, or uses the UART itself. -/
inductive MainOp
  | setAtComponetStation (value : ℕ)
  | setConnectStation (station : ConnectStation)
  | setTryNum (n : UInt8)
  | sendComAtCmd
  | deviceWrite
  | deviceRead (size : ℕ)
  | delay (ticks : ℕ)
  deriving DecidableEq, Repr

/-- `MaxTryNum`. -/
def maxTryNum : UInt8 := 5

/-- A stage that has succeeded. -/
def stagePassed (next : ConnectStation) : List MainOp := [.setTryNum 0, .setConnectStation next]

/-- A stage that has failed once more; `exceeded` is its test of `TryNum`. -/
def stageFailed (tryNum : UInt8) (exceeded : UInt8 → Bool) : List MainOp :=
  .setTryNum (tryNum + 1) ::
    if exceeded (tryNum + 1) then [.setTryNum 0, .setConnectStation .powerRest] else []

/-- A stage with one command. -/
def commandStage (next : ConnectStation) (tryNum : UInt8) (ok : Bool) : List MainOp :=
  .sendComAtCmd :: if ok then stagePassed next else stageFailed tryNum (maxTryNum ≤ ·)

/-- The server is reached: the AT client is put to sleep. -/
def serverReached : List MainOp :=
  [.setTryNum 0, .setAtComponetStation 0, .setConnectStation .connectServerOK]

/-- `GSM_ConnectingLoop()` at `station`; `first` and `second` tell which of its AT commands
succeed. -/
def gsmConnectingLoop (station : ConnectStation) (tryNum : UInt8) (first second : Bool) :
    List MainOp :=
  match station with
  | .powerRest =>
      [.setAtComponetStation 1, .delay 500, .sendComAtCmd, .deviceRead 512,
        .setConnectStation .testAtComm]
  | .testAtComm =>
      .sendComAtCmd ::
        if first then stagePassed .colseEcho else stageFailed tryNum (maxTryNum < ·)
  | .colseEcho => commandStage .setBaudrate tryNum first
  | .setBaudrate => commandStage .setWiFiMode tryNum first
  | .setWiFiMode => commandStage .connectGW tryNum first
  | .connectGW => commandStage .readIPAddr tryNum first
  | .readIPAddr => commandStage .connectServer tryNum first
  | .connectServer =>
      .sendComAtCmd ::
        if first then serverReached
        else
          .sendComAtCmd ::
            if second then serverReached else stageFailed tryNum (maxTryNum ≤ ·)
  | .setTranMode => commandStage .startSendData tryNum first
  | .startSendData =>
      .sendComAtCmd ::
        if first then serverReached ++ [.delay 100] else stageFailed tryNum (maxTryNum ≤ ·)
  | .connectServerOK => []

/-- `rt_ESP32_write(dev, pos, buffer, size)`. -/
def esp32Write : List MainOp := [.deviceWrite, .delay 100, .deviceWrite]

/-- `RegisterDevice(ProOneNetParam)`, with what `GSM_thread_entry` does when the reply has
named the device id. -/
def registerDevice (registered : Bool) : List MainOp :=
  [.deviceRead 100] ++ esp32Write ++ [.delay 100, .deviceRead 400] ++ esp32Write ++
    [.delay 100, .deviceRead 400] ++ esp32Write ++ [.delay 100, .deviceRead 400] ++ esp32Write ++
    [.delay 1000, .deviceRead 400] ++
    if registered then [.setConnectStation .powerRest] else []

/-- `MQTT_VAR_HEADER_BUFFER_LEN`. -/
def mqttVarHeaderBufferLen : ℕ := 128

/-- `OneNet_Connect()` and `OneNet_SUBSCRIBE(Sub_Topic)`: what is in the FIFO is thrown away,
a packet is sent, and the answer is read half a second later. `gaveUp` is the case in which
`EST32ConnectOneNetLoop` starts the connection again. -/
def oneNetExchange (gaveUp : Bool) : List MainOp :=
  [.deviceRead mqttVarHeaderBufferLen, .deviceWrite, .delay 500,
    .deviceRead mqttVarHeaderBufferLen] ++
    if gaveUp then [.setConnectStation .powerRest] else []

def oneNetConnect (gaveUp : Bool) : List MainOp := oneNetExchange gaveUp

def oneNetSubscribe (gaveUp : Bool) : List MainOp := oneNetExchange gaveUp

/-- The calls of `GSM_thread_entry` in question. -/
inductive MainCall
  | connectingLoop (first second : Bool)
  | registerDevice (registered : Bool)
  | oneNetConnect (gaveUp : Bool)
  | oneNetSubscribe (gaveUp : Bool)
  deriving DecidableEq, Repr

/-- The operations of a call at `station`; `none` when `GSM_thread_entry` does not make it
there. -/
def MainCall.ops (station : ConnectStation) (tryNum : UInt8) : MainCall → Option (List MainOp)
  | .connectingLoop first second =>
      if station ≠ .connectServerOK then some (gsmConnectingLoop station tryNum first second)
      else none
  | .registerDevice registered =>
      if station = .connectServerOK then some (Gsm.registerDevice registered) else none
  | .oneNetConnect gaveUp =>
      if station = .connectServerOK then some (Gsm.oneNetConnect gaveUp) else none
  | .oneNetSubscribe gaveUp =>
      if station = .connectServerOK then some (Gsm.oneNetSubscribe gaveUp) else none

end Gsm
