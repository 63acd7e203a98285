import Mathlib.Data.List.Infix
import Esp32AtMqtt.AtClient.Response
import Esp32AtMqtt.Kernel.Semaphore

/-!
# The AT client: its callers and its parser

The steps of `at_client.c` on one client. `at_obj_exec_cmd` and
`at_client_obj_wait_connect` run under `client->lock`, so at most one of them is under
way; the parser thread takes no lock, and any of its steps may stand between any two of
theirs. One step is one access to what the two share: the fields of the client and the
response objects. The parser reads `client->resp` again at every use of it, and a use of
the null pointer ends it (`fault`).

A line is what `at_recv_readline` returns. Lines that match the URC table, and lines that
do not fit the receive buffer, change nothing here and are left out, as are the send
buffer and the device. The time test in `at_client_obj_wait_connect` may go either way.

Beside the client the state records what has happened: the calls begun, for which of them
the parser has completed an exchange, and the lines it received while the response of the
call under way was registered.
-/

namespace AtCmd

open Kernel Kernel.RtSemaphore

/-- `enum at_resp_status`. -/
inductive AtRespStatus
  | ok
  | error
  | timeout
  | buffFull
  deriving DecidableEq, Repr

/-- `struct at_client`. The lock is the call under way, see `ClientRun`. -/
structure AtClient where
  resp : Option ℕ
  respStatus : AtRespStatus
  respNotice : RtSemaphore Unit
  deriving DecidableEq, Repr

/-- What a call returns: `RT_EOK`, `-RT_ERROR` or `-RT_ETIMEOUT`. -/
inductive ExecResult
  | eok
  | error
  | etimeout
  deriving DecidableEq, Repr

/-- Which function a call is of. -/
inductive CallKind
  | execCmd
  | waitConnect
  deriving DecidableEq, Repr

/-- The next statement of a call. -/
inductive CallPc
  | setStatus
  | register
  | send
  | clear
  | take
  | wait
  | woken
  | timedOut
  | loopTest
  | free (result : ExecResult)
  | unregister (result : ExecResult)
  | unlock (result : ExecResult)
  deriving DecidableEq, Repr

/-- A call under way: its number, its response object and its place. -/
structure Call where
  id : ℕ
  kind : CallKind
  resp : Option ℕ
  pc : CallPc
  deriving DecidableEq, Repr

/-- The next statement of `client_parser`. -/
inductive ParserPc
  | readline
  | test
  | size
  | loadBuf
  | copy (dst : ℕ)
  | full
  | okLine
  | errorLine
  | countLine
  | countSet
  | setStatus (status : AtRespStatus)
  | loadCounts
  | storeCounts (dst : ℕ)
  | clearResp
  | release
  | reset
  | fault
  deriving DecidableEq, Repr

/-- The parser thread: its place, the receive buffer, its two local counters, and the
call whose response was registered when it took the line. -/
structure Parser where
  pc : ParserPc
  recvBuffer : List UInt8
  respBufLen : ℕ
  lineCounts : ℕ
  owner : Option ℕ
  deriving DecidableEq, Repr

/-- The client with its response objects, the call that holds `client->lock`, the parser,
and what has happened: how many calls have begun, the calls for which an exchange was
completed, the lines received under the current registration, the bytes of all lines, and
the calls that have returned. -/
structure ClientRun where
  heap : List AtResponse
  client : AtClient
  call : Option Call
  parser : Parser
  calls : ℕ
  completed : List ℕ
  got : List (List UInt8)
  received : ℕ
  returned : List Call
  deriving DecidableEq, Repr

/-- After `at_client_para_init`. -/
def init : ClientRun :=
  ⟨[], ⟨none, .ok, rtSemCreate 0⟩, none, ⟨.readline, [], 0, 0, none⟩, 0, [], [], 0, []⟩

/-- `AT_RESP_END_OK`, the bytes of `OK`. -/
def atRespEndOk : List UInt8 := [79, 75]

/-- `AT_RESP_END_ERROR`, the bytes of `ERROR`. -/
def atRespEndError : List UInt8 := [69, 82, 82, 79, 82]

/-- `AT_RESP_END_FAIL`, the bytes of `FAIL`. -/
def atRespEndFail : List UInt8 := [70, 65, 73, 76]

/-- `rt_tick_from_millisecond(500)` with `RT_TICK_PER_SECOND` 100. -/
def waitConnectTicks : ℤ := 50

namespace ClientRun

/-- The call `c` goes on at `pc`. -/
def callAt (s : ClientRun) (c : Call) (pc : CallPc) : ClientRun :=
  { s with call := some { c with pc := pc } }

/-- The parser goes on at `pc`. -/
def parserAt (s : ClientRun) (pc : ParserPc) : ClientRun :=
  { s with parser := { s.parser with pc := pc } }

/-- A call begins: it has taken `client->lock`. -/
def begin (s : ClientRun) (kind : CallKind) (resp : Option ℕ) (pc : CallPc) : ClientRun :=
  { s with call := some ⟨s.calls, kind, resp, pc⟩, calls := s.calls + 1 }

/-- The response object at the pointer. -/
def deref (s : ClientRun) (resp : Option ℕ) : Option AtResponse :=
  resp.bind fun r => s.heap[r]?

/-- A resumed call comes back from `rt_sem_take`. -/
def wake (s : ClientRun) : ClientRun :=
  match s.call with
  | some c => s.callAt c .woken
  | none => s

/-- `rt_sem_release(client->resp_notice)`. -/
def release (s : ClientRun) : ClientRun :=
  let r := s.client.respNotice.rtSemRelease
  let s := { s with client := { s.client with respNotice := r.1 } }
  if r.2.isSome then s.wake else s

/-- A use of `client->resp` by the parser. -/
def useResp (s : ClientRun) (f : ℕ → AtResponse → ClientRun) : ClientRun :=
  match s.client.resp, s.deref s.client.resp with
  | some r, some resp => f r resp
  | _, _ => s.parserAt .fault

end ClientRun

/-- The next statement of the call `c`; `none` when it is suspended. -/
def callerStep (s : ClientRun) (c : Call) : Option ClientRun :=
  match c.pc with
  | .setStatus =>
      some ({ s with client := { s.client with respStatus := .ok } }.callAt c .register)
  | .register =>
      some ({ s with client := { s.client with resp := c.resp }, got := [] }.callAt c
        (match c.kind with
          | .execCmd => .send
          | .waitConnect => .loopTest))
  | .loopTest => some (s.callAt c .clear)
  | .send =>
      some (s.callAt c
        (match c.kind, c.resp with
          | .execCmd, none => .unregister .eok
          | .execCmd, some _ => .clear
          | .waitConnect, _ => .take))
  | .clear =>
      c.resp.map fun r =>
        { s with heap := s.heap.modify r fun resp => { resp with lineCounts := 0 } }.callAt c
          (match c.kind with
            | .execCmd => .take
            | .waitConnect => .send)
  | .take =>
      (s.deref c.resp).map fun resp =>
        if s.client.respNotice.value = 0 ∧ resp.timeout = 0 then s.callAt c .timedOut
        else
          let r := s.client.respNotice.rtSemTake ()
          { s with client := { s.client with respNotice := r.1 } }.callAt c
            (if r.2 then .woken else .wait)
  | .wait => none
  | .woken =>
      match c.kind with
      | .execCmd =>
          some (s.callAt c (.unregister (if s.client.respStatus ≠ .ok then .error else .eok)))
      | .waitConnect => some (s.callAt c (.free .eok))
  | .timedOut =>
      match c.kind with
      | .execCmd =>
          some ({ s with client := { s.client with respStatus := .timeout } }.callAt c
            (.unregister .etimeout))
      | .waitConnect => some (s.callAt c .loopTest)
  | .free result => some (s.callAt c (.unregister result))
  | .unregister result =>
      some ({ s with client := { s.client with resp := none } }.callAt c (.unlock result))
  | .unlock _ => some { s with call := none, returned := s.returned ++ [c] }

/-- The next statement of `client_parser`; `none` while it waits for a line. -/
def parserStep (s : ClientRun) : Option ClientRun :=
  match s.parser.pc with
  | .readline => none
  | .test =>
      match s.client.resp with
      | none => some (s.parserAt .readline)
      | some _ =>
          some { s with
            got := s.got ++ [s.parser.recvBuffer]
            parser := { s.parser with
              pc := .size
              recvBuffer := terminated s.parser.recvBuffer
              owner := s.call.map Call.id } }
  | .size =>
      some (s.useResp fun _ resp =>
        s.parserAt (if s.parser.respBufLen + s.parser.recvBuffer.length < resp.bufSize
          then .loadBuf else .full))
  | .loadBuf => some (s.useResp fun r _ => s.parserAt (.copy r))
  | .copy dst =>
      some { s with
        heap := s.heap.modify dst fun resp =>
          resp.memcpy s.parser.respBufLen s.parser.recvBuffer
        parser := { s.parser with
          pc := .okLine
          respBufLen := s.parser.respBufLen + s.parser.recvBuffer.length
          lineCounts := s.parser.lineCounts + 1 } }
  | .full =>
      some ({ s with client := { s.client with respStatus := .buffFull } }.parserAt .okLine)
  | .okLine =>
      if atRespEndOk <+: s.parser.recvBuffer then
        some (s.useResp fun _ resp =>
          s.parserAt (if resp.lineNum = 0 then .setStatus .ok else .errorLine))
      else some (s.parserAt .errorLine)
  | .errorLine =>
      if atRespEndError <:+: cString s.parser.recvBuffer ∨
          atRespEndFail <+: s.parser.recvBuffer then
        some (s.parserAt (.setStatus .error))
      else some (s.parserAt .countLine)
  | .countLine =>
      some (s.useResp fun _ resp =>
        s.parserAt (if s.parser.lineCounts = resp.lineNum then .countSet else .readline))
  | .countSet =>
      some (s.useResp fun _ resp =>
        s.parserAt (if resp.lineNum ≠ 0 then .setStatus .ok else .readline))
  | .setStatus status =>
      some ({ s with client := { s.client with respStatus := status } }.parserAt .loadCounts)
  | .loadCounts => some (s.useResp fun r _ => s.parserAt (.storeCounts r))
  | .storeCounts dst =>
      some ({ s with
        heap := s.heap.modify dst fun resp =>
          { resp with lineCounts := s.parser.lineCounts } }.parserAt .clearResp)
  | .clearResp =>
      some ({ s with client := { s.client with resp := none } }.parserAt .release)
  | .release =>
      some ({ s with completed := s.completed ++ s.parser.owner.toList }.release.parserAt .reset)
  | .reset =>
      some { s with
        parser := { s.parser with pc := .readline, respBufLen := 0, lineCounts := 0 } }
  | .fault => none

inductive ClientAction
  | createResp (bufSize lineNum : ℕ) (timeout : ℤ)
  | respSetInfo (r bufSize lineNum : ℕ) (timeout : ℤ) (fresh : List UInt8)
  | execCmd (resp : Option ℕ)
  | waitConnect
  | caller
  | giveUp
  | timeout
  | readLine (line : List UInt8)
  | parser
  deriving DecidableEq, Repr

/-- The steps of the system. A response object is changed by `at_resp_set_info` only
between the calls with it. The thread timer of `rt_sem_take` runs only for a positive
time. -/
def step (s : ClientRun) : ClientAction → Option ClientRun
  | .createResp bufSize lineNum timeout =>
      some { s with heap := s.heap ++ [atCreateResp bufSize lineNum timeout] }
  | .respSetInfo r bufSize lineNum timeout fresh =>
      match s.heap[r]? with
      | some resp =>
          if s.call.bind Call.resp ≠ some r ∧ bufSize ≤ resp.bufSize + fresh.length then
            some { s with
              heap := s.heap.set r (atRespSetInfo resp bufSize lineNum timeout fresh) }
          else none
      | none => none
  | .execCmd resp =>
      if s.call = none ∧ ∀ r ∈ resp, r < s.heap.length then
        some (s.begin .execCmd resp .setStatus)
      else none
  | .waitConnect =>
      if s.call = none then
        some ({ s with heap := s.heap ++ [atCreateResp 16 0 waitConnectTicks] }.begin
          .waitConnect (some s.heap.length) .register)
      else none
  | .caller => s.call.bind (callerStep s)
  | .giveUp =>
      match s.call with
      | some c => if c.pc = .loopTest then some (s.callAt c (.free .etimeout)) else none
      | none => none
  | .timeout =>
      match s.call with
      | some c =>
          if c.pc = .wait ∧ ∃ resp ∈ s.deref c.resp, 0 < resp.timeout then
            some ({ s with client := { s.client with
              respNotice := s.client.respNotice.rtThreadTimeout () } }.callAt c .timedOut)
          else none
      | none => none
  | .readLine line =>
      if s.parser.pc = .readline ∧ line ≠ [] then
        some { s with
          received := s.received + line.length
          parser := { s.parser with pc := .test, recvBuffer := line } }
      else none
  | .parser => parserStep s

end AtCmd
