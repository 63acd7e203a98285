import Mathlib.Data.List.Infix
import Esp32AtMqtt.AtClient.Response

/-!
# The AT server

`server_parser` appends every character to `recv_buffer` until the end mark is found in it, and
then looks up the command and calls one of its handlers. Neither the append nor the copy of the
name looks at the size of its buffer.

The run has every store into the two buffers, what is searched for the end mark, the handlers that
are called, and what is printed.
-/

namespace AtSrv

open AtCmd (cString)

/-- `AT_CMD_QUESTION_MARK`, `AT_CMD_EQUAL_MARK`, `AT_CMD_CR` and `AT_CMD_LF`. -/
def atCmdQuestionMark : UInt8 := 0x3F

def atCmdEqualMark : UInt8 := 0x3D

def atCmdCr : UInt8 := 0x0D

def atCmdLf : UInt8 := 0x0A

/-- `AT_CMD_CHAR_0` to `AT_CMD_CHAR_9`. -/
def isDigit (ch : UInt8) : Bool := 0x30 ≤ ch && ch ≤ 0x39

/-- `ESC_KEY`, `BACKSPACE_KEY` and `DELECT_KEY`. -/
def escKey : UInt8 := 0x1B

def backspaceKey : UInt8 := 0x08

def delectKey : UInt8 := 0x7F

/-- `AT_CMD_NAME_LEN`. -/
def atCmdNameLen : ℕ := 16

/-- `AT_SERVER_RECV_BUFF_LEN`. -/
def atServerRecvBuffLen : ℕ := 256

/-- `at_result_t`. -/
inductive AtResult
  | ok
  | faile
  | null
  | cmdErr
  | checkFaile
  | parseFaile
  deriving DecidableEq, Repr

/-- `struct at_cmd`. A handler is what it returns when it is called; a null pointer is `none`. -/
structure Cmd where
  name : List UInt8
  argsExpr : Option (List UInt8)
  test : Option AtResult
  query : Option AtResult
  setup : Option (List UInt8 → AtResult)
  exec : Option AtResult

/-- A call of a handler. -/
inductive Call
  | test
  | query
  | setup (args : List UInt8)
  | exec
  deriving DecidableEq, Repr

/-- What is printed: characters with `at_server_printf`, or a line with `at_server_printfln`. -/
inductive Print
  | chars (bs : List UInt8)
  | line (text : String)
  deriving DecidableEq, Repr

/-- `at_server_print_result(result)`. -/
def atServerPrintResult : AtResult → List Print
  | .ok => [.line "", .line "OK"]
  | .faile => [.line "", .line "ERROR"]
  | .null => []
  | .cmdErr => [.line "ERR CMD MATCH FAILED!", .line "", .line "ERROR"]
  | .checkFaile => [.line "ERR CHECK ARGS FORMAT FAILED!", .line "", .line "ERROR"]
  | .parseFaile => [.line "ERR PARSE ARGS FAILED!", .line "", .line "ERROR"]

/-- `at_check_args(args, args_format)`: whether it returns `RT_EOK`. -/
def atCheckArgs (args argsFormat : List UInt8) : Bool :=
  let leftSqBracketNum := argsFormat.count 0x5B
  let rightSqBracketNum := argsFormat.count 0x5D
  let leftAngleBracketNum := argsFormat.count 0x3C
  let rightAngleBracketNum := argsFormat.count 0x3E
  if leftSqBracketNum ≠ rightSqBracketNum ∨ leftAngleBracketNum ≠ rightAngleBracketNum ∨
      leftAngleBracketNum < leftSqBracketNum then false
  else
    let commaMarkNum := args.count 0x2C
    !(commaMarkNum + 1 < leftAngleBracketNum - leftSqBracketNum ||
      leftAngleBracketNum < commaMarkNum + 1)

/-- What a command leaves: the calls of handlers, and what is printed. -/
structure Outcome where
  calls : List Call
  prints : List Print

/-- A command that is not carried out. -/
def refusal (result : AtResult) : Outcome := ⟨[], atServerPrintResult result⟩

/-- A handler is called, if there is one. -/
def invoke (handler : Option AtResult) (call : Call) : Outcome :=
  match handler with
  | none => refusal .cmdErr
  | some result => ⟨[call], atServerPrintResult result⟩

/-- `at_cmd_process(cmd, cmd_args)`; `none` is the assertion in `at_check_args`. The string is
`cmd_args`, and behind it is its end. -/
def atCmdProcess (cmd : Cmd) (cmdArgs : List UInt8) : Option Outcome :=
  let ch (i : ℕ) := cmdArgs.getD i 0
  if ch 0 = atCmdEqualMark ∧ ch 1 = atCmdQuestionMark ∧ ch 2 = atCmdCr then
    some (invoke cmd.test .test)
  else if ch 0 = atCmdQuestionMark ∧ ch 1 = atCmdCr then some (invoke cmd.query .query)
  else if ch 0 = atCmdEqualMark ∨ isDigit (ch 0) ∧ ch 1 = atCmdCr then
    match cmd.setup with
    | none => some (refusal .cmdErr)
    | some setup =>
        cmd.argsExpr.map fun argsExpr =>
          if atCheckArgs cmdArgs argsExpr then
            ⟨[.setup cmdArgs], atServerPrintResult (setup cmdArgs)⟩
          else refusal .checkFaile
  else if ch 0 = atCmdCr then some (invoke cmd.exec .exec)
  else some ⟨[], []⟩

/-- `tolower(c)`. -/
def tolower (c : UInt8) : UInt8 := if 0x41 ≤ c ∧ c ≤ 0x5A then c + 0x20 else c

/-- `!strcasecmp(s1, s2)`. -/
def strcaseeq (s₁ s₂ : List UInt8) : Bool := s₁.map tolower = s₂.map tolower

/-- `at_find_cmd(cmd)`: the place in the table, and the command. -/
def atFindCmd (cmdTable : List Cmd) (name : List UInt8) : Option (ℕ × Cmd) :=
  (cmdTable.findIdx? fun cmd => strcaseeq name cmd.name).bind fun i =>
    (cmdTable[i]?).map fun cmd => (i, cmd)

/-- Where `at_cmd_get_name` cuts. -/
def isDelimiter (ch : UInt8) : Bool :=
  ch = atCmdQuestionMark || ch = atCmdEqualMark || ch = atCmdCr || isDigit ch

/-- `at_cmd_get_name(cmd_buffer, cmd_name)`: `cmd_name_len`. -/
def atCmdGetName (cmdBuffer : List UInt8) : Option ℕ := cmdBuffer.findIdx? isDelimiter

/-- A store into one of the two buffers, with its index. -/
inductive Store
  | recvBuffer (i : ℕ)
  | curCmdName (i : ℕ)
  deriving DecidableEq, Repr

/-- `struct at_server`, without the device, the semaphore and the thread. -/
structure Server where
  echoMode : Bool
  recvBuffer : List UInt8
  curRecvLen : ℕ
  endMark : List UInt8
  size : recvBuffer.length = atServerRecvBuffLen

namespace Server

/-- `recv_buffer[i] = ch`. -/
def store (v : Server) (i : ℕ) (ch : UInt8) (len : ℕ) : Server :=
  { v with
    recvBuffer := v.recvBuffer.set i ch
    curRecvLen := len
    size := List.length_set.trans v.size }

/-- `memset(server->recv_buffer, 0x00, AT_SERVER_RECV_BUFF_LEN)`, and the length. -/
def retry (v : Server) : Server :=
  { v with
    recvBuffer := List.replicate atServerRecvBuffLen 0
    curRecvLen := 0
    size := List.length_replicate }

end Server

/-- The parser with its variables and its history. There is no server when the loop has ended, an
assertion has failed, or the memory is damaged. -/
structure Parser where
  server : Option Server
  lastCh : UInt8
  stores : List Store
  searched : List (List UInt8)
  calls : List (ℕ × Call)
  prints : List Print

/-- The end of a turn, behind `__retry`. -/
def Parser.retries (s : Parser) (v : Server) (prints : List Print) : Parser :=
  { s with
    server := some v.retry
    stores := s.stores ++ (List.range atServerRecvBuffLen).map Store.recvBuffer
    prints := s.prints ++ prints }

/-- The part of `server_parser` behind the search. -/
def execute (cmdTable : List Cmd) (s : Parser) (v : Server) : Parser :=
  let line := cString v.recvBuffer
  match atCmdGetName line with
  | none => s.retries v (atServerPrintResult .cmdErr)
  | some nameLen =>
      let s := { s with
        stores := s.stores ++ (List.range (nameLen + 1)).map Store.curCmdName }
      if atCmdNameLen ≤ nameLen then { s with server := none }
      else
        match atFindCmd cmdTable (line.take nameLen) with
        | none => s.retries v (atServerPrintResult .cmdErr)
        | some (i, cmd) =>
            match atCmdProcess cmd (line.drop nameLen) with
            | none => { s with server := none }
            | some out =>
                { s with calls := s.calls ++ out.calls.map fun call => (i, call) }.retries v
                  out.prints

/-- The store of a character, and the search for the end mark. -/
def append (cmdTable : List Cmd) (s : Parser) (v : Server) (ch : UInt8) : Parser :=
  let s := { s with stores := s.stores ++ [Store.recvBuffer v.curRecvLen], lastCh := ch }
  if atServerRecvBuffLen ≤ v.curRecvLen then { s with server := none }
  else
    let v := v.store v.curRecvLen ch (v.curRecvLen + 1)
    let s := { s with server := some v, searched := s.searched ++ [v.recvBuffer] }
    if 0 ∉ v.recvBuffer then { s with server := none }
    else if v.endMark <:+: cString v.recvBuffer then execute cmdTable s v
    else s

/-- What is printed for a character in echo mode. -/
def echo (lastCh ch : UInt8) : Print :=
  if ch = atCmdCr ∨ ch = atCmdLf ∧ lastCh ≠ atCmdCr then .chars [atCmdCr, atCmdLf]
  else .chars [ch]

/-- A character that takes the last one back. -/
def Server.erases (v : Server) (ch : UInt8) : Bool :=
  v.echoMode && (ch = backspaceKey || ch = delectKey)

/-- `server_parser(server)`: a turn of its loop with the character that `get_char` returns. -/
def serverParser (cmdTable : List Cmd) (s : Parser) (ch : UInt8) : Parser :=
  match s.server with
  | none => s
  | some v =>
      if ch = escKey then { s with server := none }
      else if v.erases ch then
        if v.curRecvLen = 0 then s
        else
          { s with
            server := some (v.store (v.curRecvLen - 1) 0 (v.curRecvLen - 1))
            stores := s.stores ++ [Store.recvBuffer (v.curRecvLen - 1)]
            prints := s.prints ++ [.chars [0x08, 0x20, 0x08]] }
      else
        append cmdTable
          (if v.echoMode then { s with prints := s.prints ++ [echo s.lastCh ch] } else s) v ch

/-- The server as `at_server_init` sets it up, in an echo mode and with an end mark; `last_ch` is
not set. -/
def parserInit (echoMode : Bool) (endMark : List UInt8) (lastCh : UInt8) : Parser where
  server := some {
    echoMode := echoMode
    recvBuffer := List.replicate atServerRecvBuffLen 0
    curRecvLen := 0
    endMark := endMark
    size := List.length_replicate }
  lastCh := lastCh
  stores := []
  searched := []
  calls := []
  prints := []

end AtSrv
