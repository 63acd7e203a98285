import Esp32AtMqtt.AtSocket.Table

/-!
# Sending through an AT socket

`at_sendto`, and the runs of all calls on the table: `at_sendto` and the calls that open,
connect and close a socket are one step each, a call of `at_recvfrom` or of a callback
takes its steps between them. Beside every slot stands whether its socket has been in the
connected state and in the closed state since it was allocated, and a log notes how the
device's `at_send` found the socket at each of its invocations.

The TCP branch of `at_sendto` tests the state. The UDP branch does not: it connects a
socket that is not connected yet when an address is given, and then sends whatever the
state is (`SendtoOk`).
-/

namespace AtSock

open Transition

/-- What `at_sendto` uses of its arguments: whether `data` and `to` are given, and the
size. -/
structure SendArgs where
  hasData : Bool
  size : ℕ
  hasTo : Bool
  deriving DecidableEq, Repr

/-- The exit of `at_sendto` with `result = -1`. -/
def sendtoFailed (sock : AtSocket) (sent : Option AtSocket) : ℤ × AtSocket × Option AtSocket :=
  (-1, atDoEventChanges sock .error true, sent)

/-- The device's `at_send` is invoked, and returns `devSend`. -/
def deviceSend (sock : AtSocket) (devSend : ℤ) : ℤ × AtSocket × Option AtSocket :=
  if devSend < 0 then sendtoFailed sock (some sock) else (devSend, sock, some sock)

/-- The part of `at_sendto` behind the tests of its arguments: the value returned, the
socket, and the socket as `at_send` finds it. -/
def sendtoSocket (sock : AtSocket) (hasTo : Bool) (devConnect devSend : ℤ) :
    ℤ × AtSocket × Option AtSocket :=
  match sock.type with
  | .tcp => if sock.state ≠ .connect then sendtoFailed sock none else deviceSend sock devSend
  | .udp =>
      if hasTo ∧ sock.state = .none then
        if devConnect < 0 then sendtoFailed sock none
        else deviceSend { sock with state := .connect } devSend
      else deviceSend sock devSend
  | .invalid => sendtoFailed sock none

/-- `at_sendto(socket, data, size, flags, to, tolen)`. Without device operations, data or
socket the exit counts the error through a pointer that was never set or is null, and the
call does not come back. -/
def atSendto (t : SocketTable) (socket : ℤ) (a : SendArgs) (devConnect devSend : ℤ) :
    Option (ℤ × SocketTable × Option AtSocket) :=
  if ¬ t.atDevOps ∨ ¬ a.hasData ∨ a.size = 0 then none
  else
    (atGetSocket t.sockets socket).map fun sock =>
      let r := sendtoSocket sock a.hasTo devConnect devSend
      (r.1, { t with sockets := t.sockets.set socket.toNat r.2.1 }, r.2.2)

/-- A slot of the table with the calls on its socket, and whether the socket has been
connected and closed since it was allocated. -/
structure Slot where
  run : SocketRun
  wasConnected : Bool
  wasClosed : Bool
  deriving DecidableEq, Repr

/-- A slot that is free, and always was. -/
def Slot.fresh : Slot := ⟨⟨.zero, [], [], [], [], none⟩, false, false⟩

/-- The slot behind a step of its socket. When the magic word changes it is not the same
socket any more. -/
def Slot.observe (slot : Slot) (run : SocketRun) : Slot :=
  if run.sock.magic = slot.run.sock.magic then
    ⟨run, slot.wasConnected || run.sock.state = .connect,
      slot.wasClosed || run.sock.state = .closed⟩
  else ⟨run, false, false⟩

/-- An invocation of the device's `at_send`: the socket, its state, and what the state has
been before. -/
structure DeviceSend where
  socket : ℤ
  state : AtSocketState
  wasConnected : Bool
  wasClosed : Bool
  deriving DecidableEq, Repr

/-- The table with the calls on it, and the invocations of `at_send`. -/
structure SendRun where
  slots : List Slot
  atSlock : Bool
  atDevOps : Bool
  sends : List DeviceSend
  deriving DecidableEq, Repr

/-- The calls, with the values that the device returns; and the steps of the calls of
`at_recvfrom` and of the callbacks on a slot. -/
inductive SendAction
  | socket (domain : Domain) (type protocol : ℤ) (ans : AllocAnswers)
  | connect (socket devConnect : ℤ)
  | sendto (socket : ℤ) (a : SendArgs) (devConnect devSend : ℤ)
  | recvfrom (socket : ℤ) (len : ℕ) (dontwait hasFrom : Bool)
  | closesocket (socket devClose : ℤ)
  | shutdown (socket how devClose : ℤ)
  | notice (socket : ℤ) (buff : List UInt8)
  | closedNotice (socket : ℤ)
  | call (slot i : ℕ) (ans : Answers)
  | timeout (slot i : ℕ)
  deriving DecidableEq, Repr

/-- A call that waits on a semaphore which is deleted comes back with an error. -/
def CallPc.unblock : CallPc → CallPc
  | .recvBlocked _ => .recvExit (.fail .timeout)
  | pc => pc

namespace SendRun

/-- The table without the calls. -/
def table (s : SendRun) : SocketTable :=
  ⟨s.slots.map fun slot => slot.run.sock, s.atSlock, s.atDevOps⟩

/-- The slots behind a call that leaves the table `t`. -/
def withTable (s : SendRun) (t : SocketTable) : SendRun :=
  { s with
    slots := s.slots.zipWith (fun slot sock => slot.observe { slot.run with sock := sock })
      t.sockets
    atSlock := t.atSlock }

/-- A step on one slot. -/
def onSlot (s : SendRun) (i : ℕ) (f : SocketRun → Option SocketRun) : Option SendRun :=
  s.slots[i]?.bind fun slot =>
    (f slot.run).map fun run => { s with slots := s.slots.set i (slot.observe run) }

/-- A callback, which returns at once for a descriptor outside the table. -/
def onSocket (s : SendRun) (socket : ℤ) (a : SocketAction) : Option SendRun :=
  if socket < 0 ∨ socket ≥ s.slots.length then some s
  else s.onSlot socket.toNat (step · a)

/-- The calls that wait on the semaphore of a socket which is freed. -/
def unblock (s : SendRun) (i : ℕ) : SendRun :=
  { s with slots := s.slots.modify i fun slot =>
      { slot with run := { slot.run with calls := slot.run.calls.map CallPc.unblock } } }

/-- The slots behind a call that frees the socket, if the descriptor has one. -/
def freed (s : SendRun) (socket : ℤ) (t : SocketTable) : SendRun :=
  if s.atDevOps ∧ (atGetSocket s.table.sockets socket).isSome then
    (s.withTable t).unblock socket.toNat
  else s

/-- The device's `at_send` finds the socket `sock`. -/
def sent (s : SendRun) (socket : ℤ) (sock : AtSocket) : DeviceSend :=
  let slot := s.slots[socket.toNat]?.getD .fresh
  ⟨socket, sock.state, slot.wasConnected, slot.wasClosed⟩

end SendRun

/-- The steps of the system. -/
def sendStep (s : SendRun) : SendAction → Option SendRun
  | .socket domain type protocol ans =>
      (atSocket s.table domain type protocol ans).map fun r => s.withTable r.2
  | .connect socket devConnect =>
      (atConnect s.table socket devConnect).map fun r => s.withTable r.2
  | .sendto socket a devConnect devSend =>
      (atSendto s.table socket a devConnect devSend).map fun r =>
        let s := s.withTable r.2.1
        { s with sends := s.sends ++ (r.2.2.map (s.sent socket)).toList }
  | .recvfrom socket len dontwait hasFrom =>
      if len = 0 ∨ ¬ s.atDevOps then some s
      else if socket < 0 then none
      else s.onSlot socket.toNat (step · (.recvfrom len dontwait hasFrom))
  | .closesocket socket devClose =>
      some (s.freed socket (atClosesocket s.table socket devClose).2)
  | .shutdown socket how devClose =>
      some (s.freed socket (atShutdown s.table socket how devClose).2)
  | .notice socket buff => s.onSocket socket (.notice buff)
  | .closedNotice socket => s.onSocket socket .closedNotice
  | .call slot i ans => s.onSlot slot (step · (.call i ans))
  | .timeout slot i => s.onSlot slot (step · (.timeout i))

/-- The table of `n` slots before any call. -/
def sendInit (n : ℕ) (atDevOps : Bool) : SendRun :=
  ⟨List.replicate n .fresh, false, atDevOps, []⟩

/-- An invocation of `at_send` for a connected socket. -/
def DeviceSend.Connected (e : DeviceSend) : Prop :=
  e.state = .connect ∧ e.wasConnected ∧ ¬ e.wasClosed

/-- The device's `at_send` has only been invoked for sockets in the connected state. So
each of them had been connected, and had not been closed since. -/
def OnlyConnected (s : SendRun) : Prop := ∀ e ∈ s.sends, e.Connected

/-- A call of `at_sendto` for a UDP socket finds it connected, or not connected yet and is
given an address to connect it to. -/
def SendtoOk (s : SendRun) : SendAction → Prop
  | .sendto socket args _ _ => ∀ sock ∈ atGetSocket s.table.sockets socket, sock.type = .udp →
      sock.state = .connect ∨ sock.state = .none ∧ args.hasTo
  | _ => True

instance (e : DeviceSend) : Decidable e.Connected := inferInstanceAs (Decidable (_ ∧ _))

instance (s : SendRun) : Decidable (OnlyConnected s) :=
  inferInstanceAs (Decidable (∀ e ∈ s.sends, e.Connected))

instance (s : SendRun) : ∀ a : SendAction, Decidable (SendtoOk s a)
  | .sendto socket _ _ _ =>
      inferInstanceAs (Decidable (∀ sock ∈ atGetSocket s.table.sockets socket, _))
  | .socket _ _ _ _ | .connect _ _ | .recvfrom _ _ _ _ | .closesocket _ _ | .shutdown _ _ _
  | .notice _ _ | .closedNotice _ | .call _ _ _ | .timeout _ _ => isTrue trivial

/-- What a step may do to a socket: it keeps its state, it is connected, it is closed, or
it becomes another socket, which is not connected. -/
inductive StateMove (old new : AtSocket) : Prop
  | keep (magic : new.magic = old.magic) (state : new.state = old.state)
  | connect (magic : new.magic = old.magic) (before : old.state = .none)
      (state : new.state = .connect)
  | close (magic : new.magic = old.magic) (state : new.state = .closed)
  | renew (magic : new.magic ≠ old.magic) (state : new.state = .none)

/-- The socket of a slot has been in its state, and a closed socket is not connected
again. -/
structure Slot.Ok (slot : Slot) : Prop where
  connected : slot.run.sock.state = .connect → slot.wasConnected ∧ ¬ slot.wasClosed
  unconnected : slot.run.sock.state = .none → ¬ slot.wasClosed

theorem StateMove.refl (sock : AtSocket) : StateMove sock sock := .keep rfl rfl

/-- Counting an event is no change of the state. -/
theorem atDoEventChanges_state (sock : AtSocket) (event : AtEvent) (isPlus : Bool) :
    (atDoEventChanges sock event isPlus).magic = sock.magic ∧
      (atDoEventChanges sock event isPlus).state = sock.state ∧
      (atDoEventChanges sock event isPlus).type = sock.type := by
  cases event <;> exact ⟨rfl, rfl, rfl⟩

/-- A slot stays in order. -/
theorem Slot.Ok.observe {slot : Slot} (h : slot.Ok) {run : SocketRun}
    (hmove : StateMove slot.run.sock run.sock) : (slot.observe run).Ok := by
  cases hmove with
  | keep hmagic hstate =>
      rw [Slot.observe, if_pos hmagic, hstate]
      constructor
      · intro hc
        obtain ⟨hwas, hnot⟩ := h.connected (hstate ▸ hc)
        simpa [hwas, hstate ▸ hc] using hnot
      · intro hn
        have hnot := h.unconnected (hstate ▸ hn)
        simpa [hstate ▸ hn] using hnot
  | connect hmagic hbefore hstate =>
      have hnot := h.unconnected hbefore
      rw [Slot.observe, if_pos hmagic]
      exact ⟨fun _ => by simpa [hstate] using hnot, fun _ => by simpa [hstate] using hnot⟩
  | close hmagic hstate =>
      rw [Slot.observe, if_pos hmagic]
      exact ⟨fun hc => by simp [hstate] at hc, fun hn => by simp [hstate] at hn⟩
  | renew hmagic hstate =>
      rw [Slot.observe, if_neg hmagic]
      exact ⟨fun hc => by simp [hstate] at hc, fun _ => by simp⟩

/-- What the step of a call does to the state. -/
theorem callStep_move {s u : SocketRun} {i : ℕ} {ans : Answers} {pc pc' : CallPc}
    (h : callStep s i ans pc = some (u, pc')) : StateMove s.sock u.sock := by
  cases pc with
  | noticePut d =>
      cases h
      exact .keep rfl rfl
  | noticeRelease | closedRelease =>
      obtain ⟨v, hv, heq⟩ := Option.map_eq_some_iff.mp h
      obtain ⟨sem, calls, -, rfl⟩ := release_eq hv
      cases heq
      exact .keep rfl rfl
  | recvCheck a =>
      simp only [callStep] at h
      split_ifs at h with hudp hans <;> cases h
      · exact .connect rfl hudp.2.2 rfl
      · exact .refl _
      · exact .refl _
      · exact .refl _
  | recvFirst a | recvSecond a =>
      simp only [callStep] at h
      split_ifs at h <;> cases h <;> exact .keep rfl rfl
  | recvTake a =>
      obtain ⟨sem, -, heq⟩ := Option.map_eq_some_iff.mp h
      cases heq
      exact .keep rfl rfl
  | recvWoken a =>
      simp only [callStep] at h
      split_ifs at h <;> cases h <;> exact .refl _
  | recvExit r =>
      cases r with
      | fail why =>
          cases h
          exact .keep rfl rfl
      | done recvLen mem =>
          simp only [callStep] at h
          split_ifs at h <;> cases h <;> exact .keep rfl rfl
  | noticeEvent | closedRecvEvent | closedErrorEvent =>
      cases h
      exact .keep rfl rfl
  | closedState =>
      cases h
      exact .close rfl rfl
  | noticed | recvBlocked a | returned r => cases h

/-- What a step on a socket that is not freed does to its state. -/
theorem step_move {s u : SocketRun} {a : SocketAction} (hfree : a ≠ .freeSocket)
    (h : step s a = some u) : StateMove s.sock u.sock := by
  cases a with
  | notice buff =>
      simp only [step] at h
      split_ifs at h <;> cases h <;> exact .refl _
  | closedNotice =>
      simp only [step] at h
      split_ifs at h <;> cases h <;> exact .refl _
  | recvfrom len dontwait hasFrom =>
      simp only [step] at h
      split_ifs at h <;> cases h <;> exact .refl _
  | call i ans =>
      obtain ⟨r, hr, rfl⟩ := Option.map_eq_some_iff.mp h
      obtain ⟨pc, -, hpc⟩ := Option.bind_eq_some_iff.mp hr
      have hmove : StateMove s.sock r.1.sock := callStep_move hpc
      exact hmove
  | timeout i =>
      simp only [step] at h
      split at h
      · split_ifs at h
        cases h
        exact .keep rfl rfl
      · cases h
  | freeSocket => exact absurd rfl hfree

/-- What a call may do to the sockets of the table. -/
def TableMove (sockets sockets' : List AtSocket) : Prop :=
  ∀ (i : ℕ) (old new : AtSocket), sockets[i]? = some old → sockets'[i]? = some new → StateMove old new

theorem TableMove.refl (sockets : List AtSocket) : TableMove sockets sockets := by
  intro i old new hold hnew
  obtain rfl : old = new := by simpa [hold] using hnew
  exact .refl old

/-- One socket moves. -/
theorem TableMove.set {sockets : List AtSocket} {i : ℕ} {old new : AtSocket}
    (hget : sockets[i]? = some old) (h : StateMove old new) :
    TableMove sockets (sockets.set i new) := by
  intro j old' new' hold hnew
  by_cases hij : i = j
  · subst hij
    obtain ⟨hlt, -⟩ := List.getElem?_eq_some_iff.mp hget
    rw [List.getElem?_set_self hlt] at hnew
    cases hnew
    rw [hget] at hold
    cases hold
    exact h
  · rw [List.getElem?_set_ne hij, hold] at hnew
    cases hnew
    exact .refl old'

/-- `alloc_socket` makes a free slot another socket, also when it fails in the middle. -/
theorem allocSocket_move (t : SocketTable) (ans : AllocAnswers) :
    TableMove t.sockets (allocSocket t ans).2.sockets := by
  unfold allocSocket
  split
  · exact .refl _
  · cases hidx : t.sockets.findIdx? (·.magic = 0) with
    | none =>
        simp only [hidx]
        exact .refl _
    | some i =>
        obtain ⟨hlt, hmagic, -⟩ := List.findIdx?_eq_some_iff_getElem.mp hidx
        have hget : t.sockets[i]? = some t.sockets[i] := List.getElem?_eq_getElem hlt
        have hzero : t.sockets[i].magic = 0 := of_decide_eq_true hmagic
        have hrenew : ∀ sock : AtSocket, sock.magic = atSocketMagic → sock.state = .none →
            TableMove t.sockets (t.sockets.set i sock) := by
          refine fun sock hm hs => .set hget (.renew ?_ hs)
          rw [hm, hzero]
          decide
        simp only [hidx, fillSocket]
        split_ifs
        · exact hrenew _ rfl rfl
        · exact hrenew _ rfl rfl
        · exact hrenew _ rfl rfl

/-- The type of a socket may be set in addition. -/
theorem TableMove.setType {sockets sockets' : List AtSocket} (h : TableMove sockets sockets')
    (i : ℕ) (type : AtSocketType) :
    TableMove sockets (sockets'.set i { sockets'.getD i .zero with type := type }) := by
  intro j old new hold hnew
  by_cases hij : i = j
  · subst hij
    have hlt : i < sockets'.length := by
      have hlen := (List.getElem?_eq_some_iff.mp hnew).1
      rwa [List.length_set] at hlen
    rw [List.getElem?_set_self hlt] at hnew
    cases hnew
    have hget : sockets'[i]? = some (sockets'.getD i .zero) := by
      rw [List.getD_eq_getElem?_getD, List.getElem?_eq_getElem hlt, Option.getD_some]
    obtain ⟨hm, hs⟩ | ⟨hm, hb, hs⟩ | ⟨hm, hs⟩ | ⟨hm, hs⟩ := h i old _ hold hget
    · exact .keep hm hs
    · exact .connect hm hb hs
    · exact .close hm hs
    · exact .renew hm hs
  · rw [List.getElem?_set_ne hij] at hnew
    exact h j old new hold hnew

theorem atSocket_move {t t' : SocketTable} {domain : Domain} {type protocol r : ℤ}
    {ans : AllocAnswers} (h : atSocket t domain type protocol ans = some (r, t')) :
    TableMove t.sockets t'.sockets := by
  have hmove := allocSocket_move t ans
  unfold atSocket at h
  split at h
  · cases h
  · cases htype : socketType type with
    | none =>
        simp only [htype, Option.some.injEq, Prod.mk.injEq] at h
        rw [← h.2]
        exact .refl _
    | some ty =>
        cases halloc : allocSocket t ans with
        | mk o u =>
            rw [halloc] at hmove
            cases o with
            | none =>
                simp only [htype, halloc, Option.some.injEq, Prod.mk.injEq] at h
                rw [← h.2]
                exact hmove
            | some idx =>
                simp only [htype, halloc, Option.some.injEq, Prod.mk.injEq] at h
                rw [← h.2]
                exact hmove.setType idx ty

/-- `at_connect` connects a socket that is not connected yet, or changes no state. -/
theorem atConnect_move {t t' : SocketTable} {socket devConnect r : ℤ}
    (h : atConnect t socket devConnect = some (r, t')) : TableMove t.sockets t'.sockets := by
  unfold atConnect at h
  split at h
  · cases h
    exact .refl _
  · cases hsock : atGetSocket t.sockets socket with
    | none => simp [hsock] at h
    | some sock =>
        obtain ⟨-, hget, -⟩ := atGetSocket_eq_some.mp hsock
        obtain ⟨hmagic, hstate, -⟩ := atDoEventChanges_state sock .error true
        simp only [hsock, Option.some.injEq, Prod.mk.injEq] at h
        rw [← h.2]
        split
        · exact .set hget (.keep hmagic hstate)
        · next hok =>
            obtain ⟨hnone, -⟩ := not_or.mp hok
            exact .set hget (.connect rfl (not_not.mp hnone) rfl)

/-- A slot that is freed holds no socket any more. -/
theorem freeSocket_move {t : SocketTable} {socket : ℤ} {sock : AtSocket}
    (h : atGetSocket t.sockets socket = some sock) :
    TableMove t.sockets (t.sockets.set socket.toNat .zero) := by
  obtain ⟨-, hget, hmagic⟩ := atGetSocket_eq_some.mp h
  refine .set hget (.renew ?_ rfl)
  rw [hmagic]
  decide

theorem atClosesocket_move (t : SocketTable) (socket devClose : ℤ) :
    TableMove t.sockets (atClosesocket t socket devClose).2.sockets := by
  unfold atClosesocket
  split
  · exact .refl _
  · cases hsock : atGetSocket t.sockets socket with
    | none => exact .refl _
    | some sock =>
        have hmove := freeSocket_move hsock
        simp only
        split <;> simpa only [freeSocket, List.set_set] using hmove

theorem atShutdown_move (t : SocketTable) (socket how devClose : ℤ) :
    TableMove t.sockets (atShutdown t socket how devClose).2.sockets := by
  unfold atShutdown
  split
  · exact .refl _
  · cases hsock : atGetSocket t.sockets socket with
    | none => exact .refl _
    | some sock =>
        have hmove := freeSocket_move hsock
        simp only
        split <;> exact hmove

/-- What `at_sendto` does to a socket. The state is not changed behind `at_send`, and it is
the connected one there exactly when a UDP socket is connected or comes to be. -/
structure SendFrame (sock : AtSocket) (hasTo : Bool) (new : AtSocket)
    (sent : Option AtSocket) : Prop where
  move : StateMove sock new
  state : ∀ k ∈ sent, new.state = k.state
  connected : ∀ k ∈ sent, k.state = .connect ↔
    (sock.type = .udp → sock.state = .connect ∨ sock.state = .none ∧ hasTo)
  unsent : sent = none → sock.type = .udp → sock.state = .connect ∨ sock.state = .none ∧ hasTo

theorem deviceSend_frame (sock : AtSocket) (devSend : ℤ) :
    (deviceSend sock devSend).2.1.magic = sock.magic ∧
      (deviceSend sock devSend).2.1.state = sock.state ∧
      (deviceSend sock devSend).2.2 = some sock := by
  obtain ⟨hmagic, hstate, -⟩ := atDoEventChanges_state sock .error true
  unfold deviceSend
  split
  · exact ⟨hmagic, hstate, rfl⟩
  · exact ⟨rfl, rfl, rfl⟩

theorem sendtoSocket_frame (sock : AtSocket) (hasTo : Bool) (devConnect devSend : ℤ) :
    SendFrame sock hasTo (sendtoSocket sock hasTo devConnect devSend).2.1
      (sendtoSocket sock hasTo devConnect devSend).2.2 := by
  obtain ⟨hmagic, hstate, -⟩ := atDoEventChanges_state sock .error true
  have hfailed : (sock.type = .udp → sock.state = .connect ∨ sock.state = .none ∧ hasTo) →
      SendFrame sock hasTo (sendtoFailed sock none).2.1 (sendtoFailed sock none).2.2 := fun hudp =>
    ⟨.keep hmagic hstate, by simp [sendtoFailed], by simp [sendtoFailed], fun _ => hudp⟩
  obtain ⟨hm, hs, hsent⟩ := deviceSend_frame sock devSend
  unfold sendtoSocket
  cases htype : sock.type with
  | invalid => exact hfailed (by simp [htype])
  | tcp =>
      simp only
      split_ifs with hconn
      · exact hfailed (by simp [htype])
      · refine ⟨.keep hm hs, ?_, ?_, ?_⟩
        · simpa [hsent] using hs
        · simpa [hsent, htype] using hconn
        · simp [hsent]
  | udp =>
      simp only
      split_ifs with hto hdev
      · exact hfailed fun _ => .inr ⟨hto.2, hto.1⟩
      · obtain ⟨hm, hs, hsent⟩ := deviceSend_frame { sock with state := .connect } devSend
        rw [← htype]
        refine ⟨.connect hm hto.2 hs, ?_, ?_, ?_⟩
        · simpa [hsent] using hs
        · simp [hsent, hto.1, hto.2]
        · simp [hsent]
      · refine ⟨.keep hm hs, ?_, ?_, ?_⟩
        · simpa [hsent] using hs
        · have hno : ¬ (sock.state = .none ∧ hasTo = true) := fun h => hto ⟨h.2, h.1⟩
          simp [hsent, htype, hno]
        · simp [hsent]

/-- When a call of `at_sendto` comes back it has found its socket. -/
theorem atSendto_eq_some {t t' : SocketTable} {socket devConnect devSend r : ℤ} {a : SendArgs}
    {sent : Option AtSocket} (h : atSendto t socket a devConnect devSend = some (r, t', sent)) :
    ∃ sock new, atGetSocket t.sockets socket = some sock ∧ SendFrame sock a.hasTo new sent ∧
      t'.sockets = t.sockets.set socket.toNat new := by
  unfold atSendto at h
  split at h
  · cases h
  · obtain ⟨sock, hsock, heq⟩ := Option.map_eq_some_iff.mp h
    cases heq
    exact ⟨sock, _, hsock, sendtoSocket_frame sock a.hasTo devConnect devSend, rfl⟩

/-- Every slot is in order. -/
def SlotsOk (s : SendRun) : Prop := ∀ slot ∈ s.slots, slot.Ok

theorem SlotsOk.withTable {s : SendRun} (hs : SlotsOk s) {t : SocketTable}
    (h : TableMove s.table.sockets t.sockets) : SlotsOk (s.withTable t) := by
  intro slot hslot
  obtain ⟨i, hi⟩ := List.mem_iff_getElem?.mp hslot
  rw [SendRun.withTable, List.getElem?_zipWith] at hi
  cases hold : s.slots[i]? with
  | none => simp [hold] at hi
  | some old =>
      cases hnew : t.sockets[i]? with
      | none => simp [hold, hnew] at hi
      | some sock =>
          simp only [hold, hnew, Option.some.injEq] at hi
          rw [← hi]
          have hsock : s.table.sockets[i]? = some old.run.sock := by
            rw [SendRun.table, List.getElem?_map, hold, Option.map_some]
          exact (hs old (List.mem_of_getElem? hold)).observe (h i _ _ hsock hnew)

theorem SlotsOk.onSlot {s t : SendRun} (hs : SlotsOk s) {i : ℕ}
    {f : SocketRun → Option SocketRun} (hf : ∀ r u, f r = some u → StateMove r.sock u.sock)
    (h : s.onSlot i f = some t) : SlotsOk t ∧ t.sends = s.sends := by
  obtain ⟨slot, hslot, hmap⟩ := Option.bind_eq_some_iff.mp h
  obtain ⟨u, hu, rfl⟩ := Option.map_eq_some_iff.mp hmap
  refine ⟨fun k hk => ?_, rfl⟩
  rcases List.mem_or_eq_of_mem_set hk with hk | rfl
  · exact hs k hk
  · exact (hs slot (List.mem_of_getElem? hslot)).observe (hf _ _ hu)

theorem SlotsOk.onSocket {s t : SendRun} (hs : SlotsOk s) {socket : ℤ} {a : SocketAction}
    (hfree : a ≠ .freeSocket) (h : s.onSocket socket a = some t) :
    SlotsOk t ∧ t.sends = s.sends := by
  unfold SendRun.onSocket at h
  split at h
  · cases h
    exact ⟨hs, rfl⟩
  · exact hs.onSlot (fun _ _ => step_move hfree) h

theorem SlotsOk.freed {s : SendRun} (hs : SlotsOk s) {socket : ℤ} {t : SocketTable}
    (h : TableMove s.table.sockets t.sockets) :
    SlotsOk (s.freed socket t) ∧ (s.freed socket t).sends = s.sends := by
  unfold SendRun.freed
  split
  · refine ⟨fun slot hslot => ?_, rfl⟩
    obtain ⟨i, hi⟩ := List.mem_iff_getElem?.mp hslot
    rw [SendRun.unblock, List.getElem?_modify] at hi
    obtain ⟨old, hold, rfl⟩ := Option.map_eq_some_iff.mp hi
    have hok := hs.withTable h old (List.mem_of_getElem? hold)
    split
    · exact ⟨hok.connected, hok.unconnected⟩
    · exact hok
  · exact ⟨hs, rfl⟩

/-- What `at_sendto` adds to the log is in order exactly when the call is. -/
theorem sendto_connected_iff {s : SendRun} (hs : SlotsOk s) {t : SocketTable}
    {socket devConnect devSend r : ℤ} {a : SendArgs} {sent : Option AtSocket}
    (h : atSendto s.table socket a devConnect devSend = some (r, t, sent)) :
    (∀ e ∈ (sent.map ((s.withTable t).sent socket)).toList, e.Connected) ↔
      SendtoOk s (.sendto socket a devConnect devSend) := by
  obtain ⟨sock, new, hsock, hframe, hset⟩ := atSendto_eq_some h
  obtain ⟨-, hget, -⟩ := atGetSocket_eq_some.mp hsock
  have hok : SendtoOk s (.sendto socket a devConnect devSend) ↔
      (sock.type = .udp → sock.state = .connect ∨ sock.state = .none ∧ a.hasTo) := by
    simp [SendtoOk, hsock]
  rw [hok]
  cases sent with
  | none => simpa using hframe.unsent rfl
  | some k =>
      rw [← hframe.connected k rfl, Option.map_some, Option.toList_some, List.forall_mem_singleton]
      refine ⟨fun h => h.1, fun hconn => ⟨hconn, ?_⟩⟩
      -- the slot of the socket is in order behind the call
      have hmove : TableMove s.table.sockets t.sockets := by
        rw [hset]
        exact .set hget hframe.move
      have hmap := hget
      rw [SendRun.table, List.getElem?_map] at hmap
      obtain ⟨old, hold, -⟩ := Option.map_eq_some_iff.mp hmap
      have hlt : socket.toNat < s.table.sockets.length := (List.getElem?_eq_some_iff.mp hget).1
      have hslot : (s.withTable t).slots[socket.toNat]? =
          some (old.observe { old.run with sock := new }) := by
        rw [SendRun.withTable, List.getElem?_zipWith, hold, hset, List.getElem?_set_self hlt]
      have hstate : (old.observe { old.run with sock := new }).run.sock.state = .connect := by
        rw [Slot.observe]
        split <;> exact (hframe.state k rfl).trans hconn
      have hdone := (hs.withTable hmove _ (List.mem_of_getElem? hslot)).connected hstate
      simpa only [SendRun.sent, hslot, Option.getD_some] using hdone

/-- Every step keeps the slots in order, and what it adds to the log is in order exactly
when the step meets the condition. -/
theorem sendStep_ok {s t : SendRun} {a : SendAction} (hs : SlotsOk s)
    (h : sendStep s a = some t) :
    SlotsOk t ∧ ∃ es, t.sends = s.sends ++ es ∧ ((∀ e ∈ es, e.Connected) ↔ SendtoOk s a) := by
  have hquiet : SlotsOk t ∧ t.sends = s.sends → SendtoOk s a →
      SlotsOk t ∧ ∃ es, t.sends = s.sends ++ es ∧ ((∀ e ∈ es, e.Connected) ↔ SendtoOk s a) :=
    fun hst hok => ⟨hst.1, [], by rw [hst.2, List.append_nil], iff_of_true (by simp) hok⟩
  cases a with
  | socket domain type protocol ans =>
      obtain ⟨r, hr, rfl⟩ := Option.map_eq_some_iff.mp h
      exact hquiet ⟨hs.withTable (atSocket_move hr), rfl⟩ trivial
  | connect socket devConnect =>
      obtain ⟨r, hr, rfl⟩ := Option.map_eq_some_iff.mp h
      exact hquiet ⟨hs.withTable (atConnect_move hr), rfl⟩ trivial
  | sendto socket args devConnect devSend =>
      obtain ⟨⟨r, u, sent⟩, hr, rfl⟩ := Option.map_eq_some_iff.mp h
      obtain ⟨sock, new, hsock, hframe, hset⟩ := atSendto_eq_some hr
      have hmove : TableMove s.table.sockets u.sockets := by
        rw [hset]
        exact .set (atGetSocket_eq_some.mp hsock).2.1 hframe.move
      exact ⟨hs.withTable hmove, _, rfl, sendto_connected_iff hs hr⟩
  | recvfrom socket len dontwait hasFrom =>
      simp only [sendStep] at h
      split_ifs at h
      · cases h
        exact hquiet ⟨hs, rfl⟩ trivial
      · exact hquiet (hs.onSlot (fun _ _ => step_move (by simp)) h) trivial
  | closesocket socket devClose =>
      cases h
      exact hquiet (hs.freed (atClosesocket_move s.table socket devClose)) trivial
  | shutdown socket how devClose =>
      cases h
      exact hquiet (hs.freed (atShutdown_move s.table socket how devClose)) trivial
  | notice socket buff => exact hquiet (hs.onSocket (by simp) h) trivial
  | closedNotice socket => exact hquiet (hs.onSocket (by simp) h) trivial
  | call slot i ans => exact hquiet (hs.onSlot (fun _ _ => step_move (by simp)) h) trivial
  | timeout slot i => exact hquiet (hs.onSlot (fun _ _ => step_move (by simp)) h) trivial

/-- In every run of the calls the device's `at_send` is invoked for connected sockets only,
exactly when every call of `at_sendto` for a UDP socket finds it connected, or not
connected yet with an address to connect it to. -/
theorem atSend_onlyConnected_iff {n : ℕ} {atDevOps : Bool} {as : List SendAction} {s : SendRun}
    (h : Run sendStep unconditional (sendInit n atDevOps) as s) :
    OnlyConnected s ↔ Run sendStep SendtoOk (sendInit n atDevOps) as s := by
  have hinit : SlotsOk (sendInit n atDevOps) := by
    intro slot hslot
    obtain rfl := List.eq_of_mem_replicate hslot
    exact ⟨by decide, by decide⟩
  constructor
  · intro honly
    induction h with
    | nil => exact .nil
    | snoc hrun _ hstep ih =>
        have hs := hrun.invariant SlotsOk (fun _ _ _ hs _ hst => (sendStep_ok hs hst).1) hinit
        obtain ⟨-, es, hsends, hok⟩ := sendStep_ok hs hstep
        rw [OnlyConnected, hsends] at honly
        exact (ih fun e he => honly e (List.mem_append_left es he)).snoc
          (hok.mp fun e he => honly e (List.mem_append_right _ he)) hstep
  · intro hrun
    have hboth := hrun.invariant (fun s => SlotsOk s ∧ OnlyConnected s)
      (fun s a t hs hok hst => by
        obtain ⟨hslots, es, hsends, hiff⟩ := sendStep_ok hs.1 hst
        refine ⟨hslots, fun e he => ?_⟩
        rw [hsends] at he
        exact (List.mem_append.mp he).elim (hs.2 e) (hiff.mpr hok e))
      ⟨hinit, by simp [OnlyConnected, sendInit]⟩
    exact hboth.2

/-- A TCP socket that is connected and sends, is closed by its peer and sends again; and a
UDP socket that is given an address. -/
def sendCalls : List SendAction :=
  [.socket .afInet sockStream 0 ⟨true, true, true⟩, .connect 0 0, .sendto 0 ⟨true, 5, false⟩ 0 5,
    .closedNotice 0, .call 0 0 ⟨true, true⟩, .call 0 0 ⟨true, true⟩, .call 0 0 ⟨true, true⟩,
    .call 0 0 ⟨true, true⟩, .sendto 0 ⟨true, 5, false⟩ 0 5,
    .socket .afInet sockDgram 0 ⟨true, true, true⟩, .sendto 1 ⟨true, 4, true⟩ 0 4]

/-- In that run the device sends twice, for connected sockets. -/
theorem atSend_onlyConnected_twoSends :
    ∃ s, Run sendStep unconditional (sendInit 5 true) sendCalls s ∧ OnlyConnected s ∧
      s.sends = [⟨0, .connect, true, false⟩, ⟨1, .connect, true, false⟩] := by
  obtain ⟨s, hrun, hp⟩ := Run.exists_of_exec sendStep SendtoOk (sendInit 5 true) sendCalls
    (fun s => s.sends = [⟨0, .connect, true, false⟩, ⟨1, .connect, true, false⟩])
    (by decide +kernel)
  have hfree : Run sendStep unconditional (sendInit 5 true) sendCalls s :=
    hrun.mono fun _ _ _ => trivial
  exact ⟨s, hfree, (atSend_onlyConnected_iff hfree).mpr hrun, of_decide_eq_true hp⟩

/-- A UDP socket that has not been connected sends without an address: the device's
`at_send` is invoked for it. -/
theorem atSend_invoked_unconnected :
    ¬ ∀ (n : ℕ) (atDevOps : Bool) (as : List SendAction) (s : SendRun),
      Run sendStep unconditional (sendInit n atDevOps) as s → OnlyConnected s := by
  intro hall
  obtain ⟨s, hrun, hp⟩ := Run.exists_of_exec sendStep unconditional (sendInit 5 true)
    [.socket .afInet sockDgram 0 ⟨true, true, true⟩, .sendto 0 ⟨true, 4, false⟩ 0 4]
    (fun s => ¬ OnlyConnected s) (by decide +kernel)
  exact of_decide_eq_true hp (hall _ _ _ s hrun)

end AtSock
