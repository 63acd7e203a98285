import Esp32AtMqtt.AtSocket.RecvPkt
import Esp32AtMqtt.Kernel.Semaphore
import Esp32AtMqtt.Transition.Run
import Mathlib.Data.Int.Notation

/-!
# An AT socket and the calls on it

`struct at_socket` and the functions of `at_socket.c` that receive: the callbacks
`at_recv_notice_cb` and `at_closed_notice_cb`, which the URC parser calls, and
`at_recvfrom`, which any number of threads may be in. The steps of a call are its
accesses to the socket, so any steps of other calls may stand between them; what a
call does under `recv_lock` is one step. The calls are kept in a list in the order
they began in, a finished one with its result, and the position of a call names it on
the receive semaphore.

Beside the socket the state records what has happened on it: deliveries, reads, freed
buffers, and the announcement of the peer's close.
-/

namespace AtSock

open Kernel Kernel.RtSemaphore Transition

/-- `AT_SOCKET_MAGIC`. -/
def atSocketMagic : UInt32 := 0xA100

/-- `enum at_socket_state`. -/
inductive AtSocketState
  | none
  | listen
  | connect
  | closed
  deriving DecidableEq, Repr

/-- `enum at_socket_type`. -/
inductive AtSocketType
  | invalid
  | tcp
  | udp
  deriving DecidableEq, Repr

/-- `struct at_socket`. `recv_lock` is only known to exist or not; the callback and
the wait queue, which no function here reads, are left out. -/
structure AtSocket where
  magic : UInt32
  socket : ℤ
  type : AtSocketType
  state : AtSocketState
  recvNotice : Option (RtSemaphore ℕ)
  recvLock : Bool
  recvpktList : List AtRecvPkt
  recvTimeout : ℤ
  sendTimeout : ℤ
  rcvevent : UInt16
  sendevent : UInt16
  errevent : UInt16
  deriving DecidableEq, Repr

/-- A socket filled with zero bytes. -/
def AtSocket.zero : AtSocket :=
  ⟨0, 0, .invalid, .none, none, false, [], 0, 0, 0, 0, 0⟩

/-- `at_event_t`. -/
inductive AtEvent
  | send
  | recv
  | error
  deriving DecidableEq, Repr

/-- The change of one counter in `at_do_event_changes`. -/
def changeEvent (n : UInt16) (isPlus : Bool) : UInt16 :=
  if isPlus then n + 1 else if n ≠ 0 then n - 1 else n

/-- `at_do_event_changes(sock, event, is_plus)`. -/
def atDoEventChanges (sock : AtSocket) (event : AtEvent) (isPlus : Bool) : AtSocket :=
  match event with
  | .send => { sock with sendevent := changeEvent sock.sendevent isPlus }
  | .recv => { sock with rcvevent := changeEvent sock.rcvevent isPlus }
  | .error => { sock with errevent := changeEvent sock.errevent isPlus }

/-- A buffer that `at_recv_notice_cb` accepts. -/
structure Delivery where
  buff : List UInt8
  ne_nil : buff ≠ []
  deriving DecidableEq, Repr

/-- The arguments of `at_recvfrom` behind its first test: the length, whether `flags`
has `MSG_DONTWAIT`, and whether `from` is given. -/
structure RecvArgs where
  len : ℕ
  dontwait : Bool
  hasFrom : Bool
  len_pos : 0 < len
  deriving DecidableEq, Repr

/-- Why `at_recvfrom` fails, as its log lines say. -/
inductive Failure
  | inputError
  | connectFailed
  | stateError
  | timeout
  | closedByRemote
  deriving DecidableEq, Repr

/-- How `at_recvfrom` comes to its exit: with `recv_len` bytes in `mem`, or with
`result = -1`. -/
inductive RecvExit
  | done (recvLen : ℕ) (mem : List UInt8)
  | fail (why : Failure)
  deriving DecidableEq, Repr

/-- The value that `at_recvfrom` returns. -/
def RecvExit.result : RecvExit → ℤ
  | .done recvLen _ => recvLen
  | .fail _ => -1

/-- Where a call stands. -/
inductive CallPc
  | noticePut (d : Delivery)
  | noticeRelease
  | noticeEvent
  | closedRecvEvent
  | closedErrorEvent
  | closedState
  | closedRelease
  | noticed
  | recvCheck (a : RecvArgs)
  | recvFirst (a : RecvArgs)
  | recvTake (a : RecvArgs)
  | recvBlocked (a : RecvArgs)
  | recvWoken (a : RecvArgs)
  | recvSecond (a : RecvArgs)
  | recvExit (r : RecvExit)
  | returned (r : RecvExit)
  deriving DecidableEq, Repr

/-- The call has returned. -/
def CallPc.ended : CallPc → Bool
  | .noticed => true
  | .returned _ => true
  | _ => false

/-- The socket, the calls, and what has happened: the buffers delivered, the reads with
the calls that made them, in the order in which they took their bytes, the buffers
freed, and how many buffers were delivered before the close was announced. -/
structure SocketRun where
  sock : AtSocket
  calls : List CallPc
  delivered : List (List UInt8)
  returned : List (ℕ × List UInt8)
  freed : List ℕ
  beforeClose : Option ℕ
  deriving DecidableEq, Repr

/-- What a step is answered by the rest of the system: whether `rt_calloc` succeeds,
and whether the device's `at_connect` does. -/
structure Answers where
  calloc : Bool
  connect : Bool
  deriving DecidableEq, Repr

inductive SocketAction
  | notice (buff : List UInt8)
  | closedNotice
  | recvfrom (len : ℕ) (dontwait hasFrom : Bool)
  | call (i : ℕ) (ans : Answers)
  | timeout (i : ℕ)
  | freeSocket
  deriving DecidableEq, Repr

namespace SocketRun

/-- The call `i` goes on at `pc`. -/
def setPc (s : SocketRun) (i : ℕ) (pc : CallPc) : SocketRun :=
  { s with calls := s.calls.set i pc }

/-- A call begins at `pc`. -/
def begin (s : SocketRun) (pc : CallPc) : SocketRun := { s with calls := s.calls ++ [pc] }

/-- A resumed thread comes back from `rt_sem_take`. -/
def wake (s : SocketRun) (j : ℕ) : SocketRun :=
  match s.calls[j]? with
  | some (.recvBlocked a) => s.setPc j (.recvWoken a)
  | _ => s

/-- `rt_sem_release(sock->recv_notice)`. -/
def release (s : SocketRun) : Option SocketRun :=
  match s.sock.recvNotice with
  | none => none
  | some sem =>
      let r := sem.rtSemRelease
      let s := { s with sock := { s.sock with recvNotice := some r.1 } }
      match r.2 with
      | none => some s
      | some j => some (s.wake j)

/-- `at_recvpkt_get(&sock->recvpkt_list, mem, len)` under `recv_lock`: how many bytes,
which, and the state behind it. -/
def get (s : SocketRun) (len : ℕ) : ℕ × List UInt8 × SocketRun :=
  let g := atRecvpktGet s.sock.recvpktList len
  (g.contentPos, g.mem, { s with
    sock := { s.sock with recvpktList := g.rlist }
    freed := s.freed ++ g.freed })

/-- The call `i` has read the bytes `mem`. -/
def gave (s : SocketRun) (i : ℕ) (mem : List UInt8) : SocketRun :=
  { s with returned := s.returned ++ [(i, mem)] }

end SocketRun

/-- The next step of the call `i`, which stands at `pc`: the state behind it, and where
the call goes on. -/
def callStep (s : SocketRun) (i : ℕ) (ans : Answers) : CallPc → Option (SocketRun × CallPc)
  | .noticePut d =>
      let rlist := atRecvpktPut s.sock.recvpktList ans.calloc s.delivered.length d.buff
      some ({ s with
        sock := { s.sock with recvpktList := rlist }
        delivered := s.delivered ++ [d.buff] }, .noticeRelease)
  | .noticeRelease => s.release.map fun s => (s, .noticeEvent)
  | .noticeEvent => some ({ s with sock := atDoEventChanges s.sock .recv true }, .noticed)
  | .closedRecvEvent =>
      some ({ s with sock := atDoEventChanges s.sock .recv true }, .closedErrorEvent)
  | .closedErrorEvent =>
      some ({ s with sock := atDoEventChanges s.sock .error true }, .closedState)
  | .closedState => some ({ s with sock := { s.sock with state := .closed } }, .closedRelease)
  | .closedRelease => s.release.map fun s => (s, .noticed)
  | .noticed => none
  | .recvCheck a =>
      if a.hasFrom ∧ s.sock.type = .udp ∧ s.sock.state = .none then
        if ans.connect then
          some ({ s with sock := { s.sock with state := .connect } }, .recvFirst a)
        else some (s, .recvExit (.fail .connectFailed))
      else if s.sock.state ≠ .connect then some (s, .recvExit (.fail .stateError))
      else some (s, .recvFirst a)
  | .recvFirst a =>
      let (recvLen, mem, s) := s.get a.len
      if 0 < recvLen then some (s.gave i mem, .recvExit (.done recvLen mem))
      else if a.dontwait then some (s, .recvExit (.done recvLen mem))
      else some (s, .recvTake a)
  | .recvTake a =>
      s.sock.recvNotice.map fun sem =>
        let r := sem.rtSemTake i
        ({ s with sock := { s.sock with recvNotice := some r.1 } },
          if r.2 then .recvWoken a else .recvBlocked a)
  | .recvBlocked _ => none
  | .recvWoken a =>
      if s.sock.state = .connect then some (s, .recvSecond a)
      else some (s, .recvExit (.fail .closedByRemote))
  | .recvSecond a =>
      let (recvLen, mem, s) := s.get a.len
      if 0 < recvLen then some (s.gave i mem, .recvExit (.done recvLen mem))
      else some (s, .recvTake a)
  | .recvExit (.fail why) =>
      some ({ s with sock := atDoEventChanges s.sock .error true }, .returned (.fail why))
  | .recvExit (.done recvLen mem) =>
      let sock := if recvLen ≠ 0 then atDoEventChanges s.sock .recv false else s.sock
      some ({ s with sock := sock }, .returned (.done recvLen mem))
  | .returned _ => none

/-- The steps of the system. A call on a socket that is not allocated returns at once;
`at_recvfrom` on one does not come back, since it goes on to count the error in the
null pointer. The thread timer runs only when `recv_timeout` is not zero. The socket
is freed, by `at_closesocket` or `at_shutdown`, when no call is under way. -/
def step (s : SocketRun) : SocketAction → Option SocketRun
  | .notice buff =>
      if h : buff ≠ [] then
        some (s.begin (if s.sock.magic = atSocketMagic then .noticePut ⟨buff, h⟩ else .noticed))
      else none
  | .closedNotice =>
      if s.sock.magic = atSocketMagic then
        some ({ s with beforeClose := s.beforeClose.or (some s.delivered.length) }.begin
          .closedRecvEvent)
      else some (s.begin .noticed)
  | .recvfrom len dontwait hasFrom =>
      if h : 0 < len then
        if s.sock.magic = atSocketMagic then
          some (s.begin (.recvCheck ⟨len, dontwait, hasFrom, h⟩))
        else none
      else some (s.begin (.returned (.fail .inputError)))
  | .call i ans => (s.calls[i]?.bind (callStep s i ans)).map fun r => r.1.setPc i r.2
  | .timeout i =>
      match s.calls[i]?, s.sock.recvNotice with
      | some (.recvBlocked _), some sem =>
          if s.sock.recvTimeout = 0 then none
          else
            some ({ s with sock :=
              { s.sock with recvNotice := some (sem.rtThreadTimeout i) } }.setPc i
                (.recvExit (.fail .timeout)))
      | _, _ => none
  | .freeSocket =>
      if s.sock.magic = atSocketMagic ∧ s.calls.all CallPc.ended then
        some { s with
          sock := .zero
          freed := s.freed ++ atRecvpktAllDelete s.sock.recvpktList }
      else none

/-- A blocked call may have been resumed. -/
def Resumed (cs ds : List CallPc) : Prop :=
  ds = cs ∨ ∃ j a, cs[j]? = some (.recvBlocked a) ∧ ds = cs.set j (.recvWoken a)

/-- `rt_sem_release` touches the semaphore and a call that waits on it. -/
theorem release_eq {s u : SocketRun} (h : s.release = some u) :
    ∃ sem calls, Resumed s.calls calls ∧
      u = { s with sock := { s.sock with recvNotice := some sem }, calls := calls } := by
  unfold SocketRun.release at h
  cases hsem : s.sock.recvNotice with
  | none => simp [hsem] at h
  | some sem =>
      simp only [hsem] at h
      cases hj : sem.rtSemRelease.2 with
      | none =>
          rw [hj] at h
          cases h
          exact ⟨_, _, .inl rfl, rfl⟩
      | some j =>
          rw [hj] at h
          cases h
          unfold SocketRun.wake
          split
          · next a ha => exact ⟨_, _, .inr ⟨j, a, ha, rfl⟩, rfl⟩
          · exact ⟨_, _, .inl rfl, rfl⟩

/-- The receive list and its history. -/
def SocketRun.queue (s : SocketRun) : PacketQueue :=
  ⟨s.sock.recvpktList, s.delivered, s.returned.flatMap Prod.snd, s.freed⟩

namespace CallPc

/-- What a step does to the queue. -/
def onQueue (ans : Answers) : CallPc → PacketQueue → PacketQueue
  | .noticePut d, q => q.put ans.calloc d.buff
  | .recvFirst a, q => q.get a.len
  | .recvSecond a, q => q.get a.len
  | _, q => q

/-- What a step does to `rcvevent`. -/
def onRcvevent : CallPc → UInt16 → UInt16
  | .noticeEvent, n => changeEvent n true
  | .closedRecvEvent, n => changeEvent n true
  | .recvExit (.done recvLen _), n => if recvLen ≠ 0 then changeEvent n false else n
  | _, n => n

/-- The bytes that a call has read. -/
def bytes : CallPc → Option (List UInt8)
  | .recvExit (.done recvLen mem) => if 0 < recvLen then some mem else none
  | .returned (.done recvLen mem) => if 0 < recvLen then some mem else none
  | _ => none

end CallPc

/-- What the step of a call can change. -/
structure CallFrame (s u : SocketRun) (i : ℕ) (ans : Answers) (pc pc' : CallPc) : Prop where
  calls : Resumed s.calls u.calls
  magic : u.sock.magic = s.sock.magic
  beforeClose : u.beforeClose = s.beforeClose
  queue : u.queue = pc.onQueue ans s.queue
  rcvevent : u.sock.rcvevent = pc.onRcvevent s.sock.rcvevent
  reads : (pc.bytes = none ∧ u.returned = s.returned ++ pc'.bytes.toList.map (Prod.mk i)) ∨
    (pc'.bytes = pc.bytes ∧ u.returned = s.returned)

/-- The two reads of the list differ only in where they go on without data. -/
theorem get_frame {s : SocketRun} {i : ℕ} {ans : Answers} {pc : CallPc} (pc' : CallPc) {len : ℕ}
    (hpc : ∀ q, pc.onQueue ans q = q.get len) (hev : ∀ n, pc.onRcvevent n = n)
    (hnone : pc.bytes = none) {recvLen : ℕ} {mem : List UInt8} {u : SocketRun}
    (hget : s.get len = (recvLen, mem, u)) :
    (0 < recvLen → CallFrame s (u.gave i mem) i ans pc (.recvExit (.done recvLen mem))) ∧
      (¬ 0 < recvLen → pc'.bytes = none → CallFrame s u i ans pc pc') := by
  cases hget
  refine ⟨fun h => ⟨.inl rfl, rfl, rfl, ?_, (hev _).symm, .inl ⟨hnone, ?_⟩⟩,
    fun h hnone' => ⟨.inl rfl, rfl, rfl, ?_, (hev _).symm, .inr ⟨hnone'.trans hnone.symm, rfl⟩⟩⟩
  · rw [hpc]
    simp [SocketRun.queue, SocketRun.gave, PacketQueue.get, h]
  · simp [SocketRun.gave, CallPc.bytes, h]
  · rw [hpc]
    simp [SocketRun.queue, PacketQueue.get, h]

theorem callStep_frame {s u : SocketRun} {i : ℕ} {ans : Answers} {pc pc' : CallPc}
    (h : callStep s i ans pc = some (u, pc')) : CallFrame s u i ans pc pc' := by
  have hquiet : ∀ {s : SocketRun} {pc pc' : CallPc}, (∀ q, pc.onQueue ans q = q) →
      pc.onRcvevent s.sock.rcvevent = s.sock.rcvevent → pc'.bytes = pc.bytes →
      CallFrame s s i ans pc pc' := fun hq hev hb =>
    ⟨.inl rfl, rfl, rfl, (hq _).symm, hev.symm, .inr ⟨hb, rfl⟩⟩
  cases pc with
  | noticePut d =>
      cases h
      exact ⟨.inl rfl, rfl, rfl, rfl, rfl, .inr ⟨rfl, rfl⟩⟩
  | noticeRelease =>
      obtain ⟨v, hv, heq⟩ := Option.map_eq_some_iff.mp h
      obtain ⟨sem, calls, hr, rfl⟩ := release_eq hv
      cases heq
      exact ⟨hr, rfl, rfl, rfl, rfl, .inr ⟨rfl, rfl⟩⟩
  | closedRelease =>
      obtain ⟨v, hv, heq⟩ := Option.map_eq_some_iff.mp h
      obtain ⟨sem, calls, hr, rfl⟩ := release_eq hv
      cases heq
      exact ⟨hr, rfl, rfl, rfl, rfl, .inr ⟨rfl, rfl⟩⟩
  | recvCheck a =>
      simp only [callStep] at h
      split_ifs at h <;> cases h <;> exact ⟨.inl rfl, rfl, rfl, rfl, rfl, .inr ⟨rfl, rfl⟩⟩
  | recvFirst a =>
      simp only [callStep] at h
      obtain ⟨hdata, hempty⟩ := get_frame (s := s) (i := i) pc'
        (fun q => (rfl : (CallPc.recvFirst a).onQueue ans q = q.get a.len)) (fun _ => rfl) rfl rfl
      split_ifs at h with hpos hdont <;> cases h
      · exact hdata hpos
      · exact hempty hpos (by simp [CallPc.bytes, hpos])
      · exact hempty hpos rfl
  | recvSecond a =>
      simp only [callStep] at h
      obtain ⟨hdata, hempty⟩ := get_frame (s := s) (i := i) pc'
        (fun q => (rfl : (CallPc.recvSecond a).onQueue ans q = q.get a.len)) (fun _ => rfl) rfl rfl
      split_ifs at h with hpos <;> cases h
      · exact hdata hpos
      · exact hempty hpos rfl
  | recvTake a =>
      obtain ⟨sem, -, heq⟩ := Option.map_eq_some_iff.mp h
      cases heq
      refine ⟨.inl rfl, rfl, rfl, rfl, rfl, .inr ⟨?_, rfl⟩⟩
      split <;> rfl
  | recvWoken a =>
      simp only [callStep] at h
      split_ifs at h <;> cases h <;> exact hquiet (fun _ => rfl) rfl rfl
  | recvExit r =>
      cases r with
      | fail why =>
          cases h
          exact ⟨.inl rfl, rfl, rfl, rfl, rfl, .inr ⟨rfl, rfl⟩⟩
      | done recvLen mem =>
          simp only [callStep] at h
          split_ifs at h with hz <;> cases h
          · refine ⟨.inl rfl, rfl, rfl, rfl, ?_, .inr ⟨rfl, rfl⟩⟩
            simp [CallPc.onRcvevent, atDoEventChanges, hz]
          · exact hquiet (fun _ => rfl) (by simp [CallPc.onRcvevent, hz]) rfl
  | noticeEvent | closedRecvEvent | closedErrorEvent | closedState =>
      cases h
      exact ⟨.inl rfl, rfl, rfl, rfl, rfl, .inr ⟨rfl, rfl⟩⟩
  | noticed | recvBlocked a | returned r => cases h

/-- Where a call begins. -/
def CallPc.start : CallPc → Bool
  | .noticePut _ | .closedRecvEvent | .noticed | .recvCheck _ => true
  | .returned (.fail .inputError) => true
  | _ => false

/-- What a step does: a call begins, a call goes on, a waiting call times out, or the
socket is freed. Only a close notification on an allocated socket announces the close. -/
inductive Stepped (s : SocketRun) : SocketAction → SocketRun → Prop
  | begun {a : SocketAction} (pc : CallPc) (d : Option ℕ) (start : pc.start = true)
      (alloc : s.sock.magic = atSocketMagic ∨ pc.ended = true)
      (close : (d = s.beforeClose ∧ pc ≠ .closedRecvEvent) ∨
        (a = .closedNotice ∧ d = s.beforeClose.or (some s.delivered.length))) :
      Stepped s a ({ s with beforeClose := d }.begin pc)
  | called {i : ℕ} {ans : Answers} {pc pc' : CallPc} {u : SocketRun}
      (call : s.calls[i]? = some pc) (next : callStep s i ans pc = some (u, pc')) :
      Stepped s (.call i ans) (u.setPc i pc')
  | timedOut {i : ℕ} {a : RecvArgs} {sem : RtSemaphore ℕ}
      (call : s.calls[i]? = some (.recvBlocked a)) :
      Stepped s (.timeout i) ({ s with sock := { s.sock with recvNotice := some sem } }.setPc i
        (.recvExit (.fail .timeout)))
  | freed (magic : s.sock.magic = atSocketMagic) (ended : ∀ pc ∈ s.calls, pc.ended = true) :
      Stepped s .freeSocket { s with
        sock := .zero
        freed := s.freed ++ atRecvpktAllDelete s.sock.recvpktList }

theorem step_stepped {s t : SocketRun} {a : SocketAction} (h : step s a = some t) :
    Stepped s a t := by
  cases a with
  | notice buff =>
      simp only [step] at h
      split_ifs at h with hne hmagic <;> cases h
      · exact .begun (.noticePut ⟨buff, hne⟩) _ rfl (.inl hmagic) (.inl ⟨rfl, nofun⟩)
      · exact .begun .noticed _ rfl (.inr rfl) (.inl ⟨rfl, nofun⟩)
  | closedNotice =>
      simp only [step] at h
      split_ifs at h with hmagic <;> cases h
      · exact .begun .closedRecvEvent _ rfl (.inl hmagic) (.inr ⟨rfl, rfl⟩)
      · exact .begun .noticed _ rfl (.inr rfl) (.inl ⟨rfl, nofun⟩)
  | recvfrom len dontwait hasFrom =>
      simp only [step] at h
      split_ifs at h with hlen hmagic <;> cases h
      · exact .begun (.recvCheck ⟨len, dontwait, hasFrom, hlen⟩) _ rfl (.inl hmagic)
          (.inl ⟨rfl, nofun⟩)
      · exact .begun (.returned (.fail .inputError)) _ rfl (.inr rfl) (.inl ⟨rfl, nofun⟩)
  | call i ans =>
      obtain ⟨⟨u, pc'⟩, hu, rfl⟩ := Option.map_eq_some_iff.mp h
      obtain ⟨pc, hpc, hcall⟩ := Option.bind_eq_some_iff.mp hu
      exact .called hpc hcall
  | timeout i =>
      simp only [step] at h
      split at h
      · next a sem hpc hsem =>
          split_ifs at h
          cases h
          exact .timedOut hpc
      · cases h
  | freeSocket =>
      simp only [step] at h
      split_ifs at h with hfree
      cases h
      exact .freed hfree.1 fun pc hpc => List.all_eq_true.mp hfree.2 pc hpc

/-- A socket as `at_socket` and `at_connect` leave it. -/
def connected (socket : ℤ) (type : AtSocketType) (recvTimeout sendTimeout : ℤ) : AtSocket :=
  { AtSocket.zero with
    magic := atSocketMagic
    socket := socket
    type := type
    state := .connect
    recvNotice := some (rtSemCreate 0)
    recvLock := true
    recvTimeout := recvTimeout
    sendTimeout := sendTimeout }

/-- The state before any call. -/
def init (sock : AtSocket) : SocketRun := ⟨sock, [], [], [], [], none⟩

end AtSock
