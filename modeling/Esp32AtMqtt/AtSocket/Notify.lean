import Esp32AtMqtt.AtSocket.Send

/-!
# The callbacks of the device

`at_connect` registers `at_recv_notice_cb` and `at_closed_notice_cb` with the device through
`at_set_event_cb`. Here are the runs of all calls on the table, with the callbacks that are
registered kept beside it.

`at_sendto` and `at_recvfrom` connect a UDP socket that is not connected yet, and register
nothing. So a socket can be connected while the device has no callback, unless there has been a
successful `at_connect` before (`NotifyOk`). A callback that is registered stays registered.
-/

namespace AtSock

open Transition

/-- `at_socket_evt_t`. -/
inductive AtSocketEvt
  | recv
  | closed
  deriving DecidableEq, Repr

/-- The table with the calls on it, and whether the device has a callback for the receive
event and for the closed event. -/
structure NotifyRun where
  run : SendRun
  recvNoticeCb : Bool
  closedNoticeCb : Bool
  deriving DecidableEq, Repr

namespace NotifyRun

/-- `at_dev_ops->at_set_event_cb(event, cb)`, with the callback for the event. -/
def atSetEventCb (s : NotifyRun) : AtSocketEvt → NotifyRun
  | .recv => { s with recvNoticeCb := true }
  | .closed => { s with closedNoticeCb := true }

/-- Both callbacks are registered. -/
def Registered (s : NotifyRun) : Prop := s.recvNoticeCb ∧ s.closedNoticeCb

instance (s : NotifyRun) : Decidable s.Registered := inferInstanceAs (Decidable (_ ∧ _))

end NotifyRun

/-- The call of `at_connect` comes to the statements behind the device's `at_connect`. -/
def Connects (s : SendRun) : SendAction → Prop
  | .connect socket devConnect => (atConnect s.table socket devConnect).map Prod.fst = some 0
  | _ => False

instance (s : SendRun) : ∀ a : SendAction, Decidable (Connects s a)
  | .connect _ _ => inferInstanceAs (Decidable (_ = _))
  | .socket _ _ _ _ | .sendto _ _ _ _ | .recvfrom _ _ _ _ | .closesocket _ _ | .shutdown _ _ _
  | .notice _ _ | .closedNotice _ | .call _ _ _ | .timeout _ _ => isFalse id

/-- The steps of the system. -/
def notifyStep (s : NotifyRun) (a : SendAction) : Option NotifyRun :=
  (sendStep s.run a).map fun run =>
    let t := { s with run := run }
    if Connects s.run a then (t.atSetEventCb .recv).atSetEventCb .closed else t

/-- The table of `n` slots before any call, and no callback. -/
def notifyInit (n : ℕ) (atDevOps : Bool) : NotifyRun := ⟨sendInit n atDevOps, false, false⟩

/-- Some socket is in the connected state. -/
def SomeConnected (s : SendRun) : Prop := ∃ slot ∈ s.slots, slot.run.sock.state = .connect

/-- When a socket is connected, both callbacks are registered. -/
def ConnectedNotified (s : NotifyRun) : Prop := SomeConnected s.run → s.Registered

instance (s : SendRun) : Decidable (SomeConnected s) :=
  inferInstanceAs (Decidable (∃ slot ∈ s.slots, _))

instance (s : NotifyRun) : Decidable (ConnectedNotified s) :=
  inferInstanceAs (Decidable (_ → _))

/-- The step connects a UDP socket without a call of `at_connect`: `at_sendto` with an address,
or the first test of `at_recvfrom`, finds it unconnected, and the device connects it. -/
def ImplicitConnect (s : SendRun) : SendAction → Prop
  | .sendto socket args devConnect _ => ∃ sock ∈ atGetSocket s.table.sockets socket,
      sock.type = .udp ∧ args.hasTo ∧ sock.state = .none ∧ 0 ≤ devConnect
  | .call slot i ans => ∃ k ∈ s.slots[slot]?, ∃ pc ∈ k.run.calls[i]?,
      match pc with
      | .recvCheck a =>
          a.hasFrom ∧ k.run.sock.type = .udp ∧ k.run.sock.state = .none ∧ ans.connect
      | _ => False
  | _ => False

/-- A socket is connected without a call of `at_connect` only when both callbacks are
registered already. -/
def NotifyOk (s : NotifyRun) (a : SendAction) : Prop := ImplicitConnect s.run a → s.Registered

/-- The part of `ImplicitConnect` for the first test of `at_recvfrom`. -/
instance (sock : AtSocket) (ans : Answers) : ∀ pc : CallPc, Decidable
    (match pc with
      | .recvCheck a => a.hasFrom ∧ sock.type = .udp ∧ sock.state = .none ∧ ans.connect
      | _ => False)
  | .recvCheck _ => inferInstanceAs (Decidable (_ ∧ _))
  | .noticePut _ | .noticeRelease | .noticeEvent | .closedRecvEvent | .closedErrorEvent
  | .closedState | .closedRelease | .noticed | .recvFirst _ | .recvTake _ | .recvBlocked _
  | .recvWoken _ | .recvSecond _ | .recvExit _ | .returned _ => isFalse id

instance (s : SendRun) : ∀ a : SendAction, Decidable (ImplicitConnect s a)
  | .sendto socket _ _ _ =>
      inferInstanceAs (Decidable (∃ sock ∈ atGetSocket s.table.sockets socket, _))
  | .call slot i _ =>
      inferInstanceAs (Decidable (∃ k ∈ s.slots[slot]?, ∃ pc ∈ k.run.calls[i]?, _))
  | .socket _ _ _ _ | .connect _ _ | .recvfrom _ _ _ _ | .closesocket _ _ | .shutdown _ _ _
  | .notice _ _ | .closedNotice _ | .timeout _ _ => isFalse id

instance (s : NotifyRun) (a : SendAction) : Decidable (NotifyOk s a) :=
  inferInstanceAs (Decidable (_ → _))

/-- Some socket of the table is in the connected state. -/
def SomeIn (sockets : List AtSocket) : Prop := ∃ sock ∈ sockets, sock.state = .connect

theorem someConnected_iff (s : SendRun) : SomeConnected s ↔ SomeIn s.table.sockets := by
  simp only [SomeConnected, SomeIn, SendRun.table, List.mem_map, exists_exists_and_eq_and]

/-- A slot that is written to. -/
theorem SomeIn.of_set {sockets : List AtSocket} {i : ℕ} {new : AtSocket}
    (h : SomeIn (sockets.set i new)) (hnew : new.state = .connect → SomeIn sockets) :
    SomeIn sockets := by
  obtain ⟨sock, hsock, hstate⟩ := h
  rcases List.mem_or_eq_of_mem_set hsock with hsock | rfl
  · exact ⟨sock, hsock, hstate⟩
  · exact hnew hstate

/-- `alloc_socket` connects nothing. -/
theorem SomeIn.of_alloc {t : SocketTable} {ans : AllocAnswers}
    (h : SomeIn (allocSocket t ans).2.sockets) : SomeIn t.sockets := by
  unfold allocSocket at h
  split at h
  · exact h
  · cases hidx : t.sockets.findIdx? (·.magic = 0) with
    | none =>
        simp only [hidx] at h
        exact h
    | some i =>
        simp only [hidx, fillSocket] at h
        split_ifs at h
        · exact h.of_set fun hstate => by cases hstate
        · exact h.of_set fun hstate => by cases hstate
        · exact h.of_set fun hstate => by cases hstate

theorem SomeIn.of_socket {t t' : SocketTable} {domain : Domain} {type protocol r : ℤ}
    {ans : AllocAnswers} (hcall : atSocket t domain type protocol ans = some (r, t'))
    (h : SomeIn t'.sockets) : SomeIn t.sockets := by
  unfold atSocket at hcall
  split at hcall
  · cases hcall
  · cases htype : socketType type with
    | none =>
        simp only [htype, Option.some.injEq, Prod.mk.injEq] at hcall
        rwa [← hcall.2] at h
    | some ty =>
        have halloc : SomeIn (allocSocket t ans).2.sockets → SomeIn t.sockets := SomeIn.of_alloc
        rcases hans : allocSocket t ans with ⟨o, u⟩
        rw [hans] at halloc
        cases o with
        | none =>
            simp only [htype, hans, Option.some.injEq, Prod.mk.injEq] at hcall
            rw [← hcall.2] at h
            exact halloc h
        | some idx =>
            simp only [htype, hans, Option.some.injEq, Prod.mk.injEq] at hcall
            rw [← hcall.2] at h
            refine halloc (h.of_set fun hstate => ?_)
            -- the type is set in the slot, and the slot keeps its state
            rcases hget : u.sockets[idx]? with _ | sock
            · simp [List.getD_eq_getElem?_getD, hget, AtSocket.zero] at hstate
            · exact ⟨sock, List.mem_of_getElem? hget,
                by simpa [List.getD_eq_getElem?_getD, hget] using hstate⟩

/-- `at_connect` connects a socket only where it returns 0. -/
theorem SomeIn.of_connect {t t' : SocketTable} {socket devConnect r : ℤ}
    (hcall : atConnect t socket devConnect = some (r, t')) (h : SomeIn t'.sockets) :
    SomeIn t.sockets ∨ r = 0 := by
  unfold atConnect at hcall
  split at hcall
  · cases hcall
    exact .inl h
  · cases hsock : atGetSocket t.sockets socket with
    | none => simp [hsock] at hcall
    | some sock =>
        obtain ⟨-, hget, -⟩ := atGetSocket_eq_some.mp hsock
        simp only [hsock, Option.some.injEq, Prod.mk.injEq] at hcall
        obtain ⟨rfl, rfl⟩ := hcall
        split at h
        · refine .inl (h.of_set fun hstate => ⟨sock, List.mem_of_getElem? hget, ?_⟩)
          rwa [(atDoEventChanges_state sock .error true).2.1] at hstate
        · next hok =>
            right
            rw [if_neg hok]

/-- A call that frees a slot connects nothing. -/
theorem SomeIn.of_close {t : SocketTable} {socket devClose : ℤ}
    (h : SomeIn (atClosesocket t socket devClose).2.sockets) : SomeIn t.sockets := by
  unfold atClosesocket at h
  split at h
  · exact h
  · cases hsock : atGetSocket t.sockets socket with
    | none =>
        simp only [hsock] at h
        exact h
    | some sock =>
        simp only [hsock] at h
        split at h
        · simp only [freeSocket, List.set_set] at h
          exact h.of_set fun hstate => by cases hstate
        · simp only [freeSocket, List.set_set] at h
          exact h.of_set fun hstate => by cases hstate

theorem SomeIn.of_shutdown {t : SocketTable} {socket how devClose : ℤ}
    (h : SomeIn (atShutdown t socket how devClose).2.sockets) : SomeIn t.sockets := by
  unfold atShutdown at h
  split at h
  · exact h
  · cases hsock : atGetSocket t.sockets socket with
    | none =>
        simp only [hsock] at h
        exact h
    | some sock =>
        simp only [hsock] at h
        split at h
        · exact h.of_set fun hstate => by cases hstate
        · exact h.of_set fun hstate => by cases hstate

/-- `at_sendto` connects a socket by itself, or leaves its state. -/
theorem sendtoSocket_connect_iff (sock : AtSocket) (hasTo : Bool) (devConnect devSend : ℤ) :
    (sendtoSocket sock hasTo devConnect devSend).2.1.state = .connect ↔
      sock.state = .connect ∨
        sock.type = .udp ∧ hasTo ∧ sock.state = .none ∧ 0 ≤ devConnect := by
  have hfailed : (sendtoFailed sock none).2.1.state = sock.state :=
    (atDoEventChanges_state sock .error true).2.1
  obtain ⟨-, hsend, -⟩ := deviceSend_frame sock devSend
  unfold sendtoSocket
  cases htype : sock.type with
  | invalid => simp [hfailed]
  | tcp =>
      simp only
      split_ifs with hconn
      · simp [hfailed]
      · simp [hsend]
  | udp =>
      simp only
      split_ifs with hto hdev
      · simp [hfailed, hto.2, hto.1, hdev]
      · obtain ⟨-, hsend', -⟩ := deviceSend_frame { sock with state := .connect } devSend
        rw [← htype]
        simp [hsend', hto.1, hto.2, Int.not_lt.mp hdev]
      · have hno : ¬ (hasTo = true ∧ sock.state = .none) := hto
        rw [hsend]
        tauto

/-- The step of a call connects its socket in the first test of `at_recvfrom` only. -/
theorem callStep_connect {s u : SocketRun} {i : ℕ} {ans : Answers} {pc pc' : CallPc}
    (h : callStep s i ans pc = some (u, pc')) (hconn : u.sock.state = .connect) :
    s.sock.state = .connect ∨ ∃ a, pc = .recvCheck a ∧
      a.hasFrom ∧ s.sock.type = .udp ∧ s.sock.state = .none ∧ ans.connect := by
  cases pc with
  | recvCheck a =>
      simp only [callStep] at h
      split_ifs at h with hudp hans
      · exact .inr ⟨a, rfl, hudp.1, hudp.2.1, hudp.2.2, hans⟩
      · cases h
        exact .inl hconn
      · cases h
        exact .inl hconn
      · cases h
        exact .inl hconn
  | noticePut d | noticeEvent | closedRecvEvent | closedErrorEvent =>
      cases h
      exact .inl hconn
  | closedState =>
      cases h
      cases hconn
  | noticeRelease | closedRelease =>
      obtain ⟨v, hv, heq⟩ := Option.map_eq_some_iff.mp h
      obtain ⟨sem, calls, -, rfl⟩ := release_eq hv
      cases heq
      exact .inl hconn
  | recvTake a =>
      obtain ⟨sem, -, heq⟩ := Option.map_eq_some_iff.mp h
      cases heq
      exact .inl hconn
  | recvFirst a | recvSecond a =>
      simp only [callStep] at h
      split_ifs at h <;> cases h <;> exact .inl hconn
  | recvWoken a =>
      simp only [callStep] at h
      split_ifs at h <;> cases h <;> exact .inl hconn
  | recvExit r =>
      cases r with
      | fail why =>
          cases h
          exact .inl hconn
      | done recvLen mem =>
          simp only [callStep] at h
          split_ifs at h <;> cases h <;> exact .inl hconn
  | noticed | recvBlocked a | returned r => cases h

/-- A step on one slot: where it leaves the slot connected is the caller's to say. -/
theorem SomeConnected.of_onSlot {s t : SendRun} {i : ℕ} {f : SocketRun → Option SocketRun}
    (hstep : s.onSlot i f = some t) (h : SomeConnected t) {p : Prop}
    (hf : ∀ slot u, s.slots[i]? = some slot → f slot.run = some u → u.sock.state = .connect →
      slot.run.sock.state = .connect ∨ p) : SomeConnected s ∨ p := by
  obtain ⟨slot, hslot, hmap⟩ := Option.bind_eq_some_iff.mp hstep
  obtain ⟨u, hu, rfl⟩ := Option.map_eq_some_iff.mp hmap
  obtain ⟨k, hk, hstate⟩ := h
  rcases List.mem_or_eq_of_mem_set hk with hk | rfl
  · exact .inl ⟨k, hk, hstate⟩
  · have hconn : u.sock.state = .connect := by
      rw [Slot.observe] at hstate
      split at hstate <;> exact hstate
    exact (hf slot u hslot hu hconn).imp (fun h => ⟨slot, List.mem_of_getElem? hslot, h⟩) id

/-- Steps on a socket that leave it as it is. -/
theorem step_begin_sock {s u : SocketRun} {a : SocketAction} (h : step s a = some u)
    (ha : (∃ buff, a = .notice buff) ∨ a = .closedNotice ∨
      (∃ len dontwait hasFrom, a = .recvfrom len dontwait hasFrom) ∨ ∃ i, a = .timeout i) :
    u.sock.state = s.sock.state := by
  rcases ha with ⟨buff, rfl⟩ | rfl | ⟨len, dontwait, hasFrom, rfl⟩ | ⟨i, rfl⟩
  · simp only [step] at h
    split_ifs at h <;> cases h <;> rfl
  · simp only [step] at h
    split_ifs at h <;> cases h <;> rfl
  · simp only [step] at h
    split_ifs at h <;> cases h <;> rfl
  · simp only [step] at h
    split at h
    · split_ifs at h
      cases h
      rfl
    · cases h

theorem SomeConnected.of_onSocket {s t : SendRun} {socket : ℤ} {a : SocketAction}
    (hstep : s.onSocket socket a = some t) (h : SomeConnected t)
    (ha : (∃ buff, a = .notice buff) ∨ a = .closedNotice) : SomeConnected s := by
  unfold SendRun.onSocket at hstep
  split at hstep
  · cases hstep
    exact h
  · have hkeep := SomeConnected.of_onSlot (p := False) hstep h fun slot u _ hu hconn => by
      rw [step_begin_sock hu (ha.imp id .inl)] at hconn
      exact .inl hconn
    exact hkeep.resolve_right id

/-- The sockets behind a call on the table. -/
theorem SomeConnected.of_withTable {s : SendRun} {t : SocketTable}
    (h : SomeConnected (s.withTable t)) : SomeIn t.sockets := by
  obtain ⟨slot, hslot, hstate⟩ := h
  obtain ⟨i, hi⟩ := List.mem_iff_getElem?.mp hslot
  rw [SendRun.withTable, List.getElem?_zipWith] at hi
  cases hold : s.slots[i]? with
  | none => simp [hold] at hi
  | some old =>
      cases hnew : t.sockets[i]? with
      | none => simp [hold, hnew] at hi
      | some sock =>
          simp only [hold, hnew, Option.some.injEq] at hi
          refine ⟨sock, List.mem_of_getElem? hnew, ?_⟩
          rw [← hi, Slot.observe] at hstate
          split at hstate <;> exact hstate

theorem SomeConnected.of_freed {s : SendRun} {socket : ℤ} {t : SocketTable}
    (h : SomeConnected (s.freed socket t)) : SomeConnected s ∨ SomeIn t.sockets := by
  unfold SendRun.freed at h
  split at h
  · obtain ⟨slot, hslot, hstate⟩ := h
    obtain ⟨i, hi⟩ := List.mem_iff_getElem?.mp hslot
    rw [SendRun.unblock, List.getElem?_modify] at hi
    obtain ⟨old, hold, rfl⟩ := Option.map_eq_some_iff.mp hi
    refine .inr (SomeConnected.of_withTable ⟨old, List.mem_of_getElem? hold, ?_⟩)
    split at hstate <;> exact hstate
  · exact .inl h

/-- A socket is connected because one was before, or by `at_connect`, or by a call that
connects a UDP socket. -/
theorem someConnected_of_step {s t : SendRun} {a : SendAction} (hstep : sendStep s a = some t)
    (h : SomeConnected t) : SomeConnected s ∨ Connects s a ∨ ImplicitConnect s a := by
  cases a with
  | socket domain type protocol ans =>
      obtain ⟨⟨r, u⟩, hr, rfl⟩ := Option.map_eq_some_iff.mp hstep
      exact .inl ((someConnected_iff s).mpr (h.of_withTable.of_socket hr))
  | connect socket devConnect =>
      obtain ⟨⟨r, u⟩, hr, rfl⟩ := Option.map_eq_some_iff.mp hstep
      refine (h.of_withTable.of_connect hr).imp (someConnected_iff s).mpr fun hzero => .inl ?_
      rw [Connects, hr, hzero]
      rfl
  | sendto socket args devConnect devSend =>
      obtain ⟨⟨r, u, sent⟩, hr, rfl⟩ := Option.map_eq_some_iff.mp hstep
      have hconn : SomeIn u.sockets := SomeConnected.of_withTable (s := s) h
      unfold atSendto at hr
      split at hr
      · cases hr
      obtain ⟨sock, hsock, heq⟩ := Option.map_eq_some_iff.mp hr
      cases heq
      obtain ⟨-, hget, -⟩ := atGetSocket_eq_some.mp hsock
      by_cases himplicit : ImplicitConnect s (.sendto socket args devConnect devSend)
      · exact .inr (.inr himplicit)
      · refine .inl ((someConnected_iff s).mpr (hconn.of_set fun hstate => ?_))
        refine ⟨sock, List.mem_of_getElem? hget, ?_⟩
        exact ((sendtoSocket_connect_iff sock args.hasTo devConnect devSend).mp hstate).resolve_right
          fun hnew => himplicit ⟨sock, hsock, hnew⟩
  | recvfrom socket len dontwait hasFrom =>
      simp only [sendStep] at hstep
      split_ifs at hstep
      · cases hstep
        exact .inl h
      · have hkeep := SomeConnected.of_onSlot (p := False) hstep h fun slot u _ hu hconn => by
          rw [step_begin_sock hu (.inr (.inr (.inl ⟨_, _, _, rfl⟩)))] at hconn
          exact .inl hconn
        exact .inl (hkeep.resolve_right id)
  | closesocket socket devClose =>
      cases hstep
      exact .inl (h.of_freed.elim id fun h => (someConnected_iff s).mpr h.of_close)
  | shutdown socket how devClose =>
      cases hstep
      exact .inl (h.of_freed.elim id fun h => (someConnected_iff s).mpr h.of_shutdown)
  | notice socket buff => exact .inl (h.of_onSocket hstep (.inl ⟨buff, rfl⟩))
  | closedNotice socket => exact .inl (h.of_onSocket hstep (.inr rfl))
  | call slot i ans =>
      refine (SomeConnected.of_onSlot (f := fun r => step r (.call i ans)) hstep h
        fun k u hk hu hconn => ?_).imp id .inr
      obtain ⟨r, hr, rfl⟩ := Option.map_eq_some_iff.mp hu
      obtain ⟨pc, hpc, hcall⟩ := Option.bind_eq_some_iff.mp hr
      refine (callStep_connect hcall hconn).imp id ?_
      rintro ⟨a, rfl, hfrom⟩
      exact ⟨k, hk, _, hpc, hfrom⟩
  | timeout slot i =>
      have hkeep := SomeConnected.of_onSlot (f := fun r => step r (.timeout i)) (p := False)
        hstep h fun k u _ hu hconn => by
          rw [step_begin_sock hu (.inr (.inr (.inr ⟨i, rfl⟩)))] at hconn
          exact .inl hconn
      exact .inl (hkeep.resolve_right id)

/-- A UDP socket that is connected by itself is connected. -/
theorem someConnected_of_implicit {s t : SendRun} {a : SendAction}
    (hstep : sendStep s a = some t) (h : ImplicitConnect s a) : SomeConnected t := by
  cases a with
  | sendto socket args devConnect devSend =>
      obtain ⟨sock, hsock, hnew⟩ := h
      obtain ⟨⟨r, u, sent⟩, hr, rfl⟩ := Option.map_eq_some_iff.mp hstep
      unfold atSendto at hr
      split at hr
      · cases hr
      rw [hsock] at hr
      cases hr
      obtain ⟨-, hget, -⟩ := atGetSocket_eq_some.mp hsock
      have hlt : socket.toNat < s.table.sockets.length := (List.getElem?_eq_some_iff.mp hget).1
      have hmap := hget
      rw [SendRun.table, List.getElem?_map] at hmap
      obtain ⟨old, hold, -⟩ := Option.map_eq_some_iff.mp hmap
      have hconn := (sendtoSocket_connect_iff sock args.hasTo devConnect devSend).mpr (.inr hnew)
      set new := (sendtoSocket sock args.hasTo devConnect devSend).2.1
      have hslot : (s.withTable { s.table with sockets := s.table.sockets.set socket.toNat new }).slots[
          socket.toNat]? = some (old.observe { old.run with sock := new }) := by
        rw [SendRun.withTable, List.getElem?_zipWith, hold, List.getElem?_set_self hlt]
      refine ⟨_, List.mem_of_getElem? hslot, ?_⟩
      rw [Slot.observe]
      split <;> exact hconn
  | call slot i ans =>
      obtain ⟨k, hk, pc, hpc, hfrom⟩ := h
      obtain ⟨slot', hslot', hmap⟩ := Option.bind_eq_some_iff.mp hstep
      obtain ⟨u, hu, rfl⟩ := Option.map_eq_some_iff.mp hmap
      obtain rfl : k = slot' := by
        rw [hk] at hslot'
        exact Option.some.inj hslot'
      cases pc with
      | recvCheck a =>
          obtain ⟨hto, hudp, hnone, hans⟩ := hfrom
          obtain ⟨r, hr, rfl⟩ := Option.map_eq_some_iff.mp hu
          rw [hpc, Option.bind_some, callStep, if_pos ⟨hto, hudp, hnone⟩, if_pos hans] at hr
          cases hr
          refine ⟨_, List.mem_set (List.getElem?_eq_some_iff.mp hk).1 _, ?_⟩
          rw [Slot.observe]
          split <;> rfl
      | _ => exact hfrom.elim
  | socket _ _ _ _ => exact h.elim
  | connect _ _ => exact h.elim
  | recvfrom _ _ _ _ => exact h.elim
  | closesocket _ _ => exact h.elim
  | shutdown _ _ _ => exact h.elim
  | notice _ _ => exact h.elim
  | closedNotice _ => exact h.elim
  | timeout _ _ => exact h.elim

/-- A step that meets the condition keeps the callbacks registered while a socket is
connected. -/
theorem connectedNotified_step {s t : NotifyRun} {a : SendAction} (hs : ConnectedNotified s)
    (hok : NotifyOk s a) (hstep : notifyStep s a = some t) : ConnectedNotified t := by
  obtain ⟨u, hu, rfl⟩ := Option.map_eq_some_iff.mp hstep
  intro hconn
  by_cases hcall : Connects s.run a
  · rw [if_pos hcall]
    exact ⟨rfl, rfl⟩
  · rw [if_neg hcall] at hconn ⊢
    rcases someConnected_of_step hu hconn with hbefore | hyes | himplicit
    · exact hs hbefore
    · exact absurd hyes hcall
    · exact hok himplicit

/-- A step that does not leaves a socket connected and no callback for it. -/
theorem notifyOk_of_connectedNotified {s t : NotifyRun} {a : SendAction}
    (hstep : notifyStep s a = some t) (ht : ConnectedNotified t) : NotifyOk s a := by
  intro himplicit
  obtain ⟨u, hu, rfl⟩ := Option.map_eq_some_iff.mp hstep
  have hcall : ¬ Connects s.run a := by
    intro hyes
    cases a with
    | connect socket devConnect => exact himplicit
    | _ => exact hyes
  rw [if_neg hcall] at ht
  exact ht (someConnected_of_implicit hu himplicit)

/-- In a run of the calls both callbacks are registered in every state in which a socket is
connected, exactly when `at_sendto` and `at_recvfrom` connect a UDP socket only where an
earlier call of `at_connect` has registered them. -/
theorem atConnect_notified_iff {n : ℕ} {atDevOps : Bool} {as : List SendAction} {s : NotifyRun}
    (h : Run notifyStep unconditional (notifyInit n atDevOps) as s) :
    (∀ bs t, bs <+: as → Run notifyStep unconditional (notifyInit n atDevOps) bs t →
      ConnectedNotified t) ↔ Run notifyStep NotifyOk (notifyInit n atDevOps) as s := by
  have hinit : ConnectedNotified (notifyInit n atDevOps) := by
    rintro ⟨slot, hslot, hstate⟩
    obtain rfl := List.eq_of_mem_replicate hslot
    cases hstate
  constructor
  · intro hall
    induction h with
    | nil => exact .nil
    | snoc hrun hok hstep ih =>
        have hfirst := ih fun bs t hbs => hall bs t (hbs.trans (List.prefix_append _ _))
        have hlast := hall _ _ (List.prefix_refl _) (hrun.snoc hok hstep)
        exact hfirst.snoc (notifyOk_of_connectedNotified hstep hlast) hstep
  · intro hrun bs t hbs ht
    obtain ⟨u, hu⟩ := hrun.of_prefix hbs
    obtain rfl := ht.unique hu
    exact hu.invariant ConnectedNotified (fun _ _ _ hs hok hstep =>
      connectedNotified_step hs hok hstep) hinit

/-- A TCP socket is connected, and then a UDP socket sends. -/
theorem atConnect_notified_tcpFirst :
    ∃ s, Run notifyStep unconditional (notifyInit 5 true)
        [.socket .afInet sockStream 0 ⟨true, true, true⟩, .connect 0 0,
          .socket .afInet sockDgram 0 ⟨true, true, true⟩, .sendto 1 ⟨true, 4, true⟩ 0 4] s ∧
      SomeConnected s.run ∧ ConnectedNotified s := by
  obtain ⟨s, hrun, hp⟩ := Run.exists_of_exec notifyStep NotifyOk (notifyInit 5 true)
    [.socket .afInet sockStream 0 ⟨true, true, true⟩, .connect 0 0,
      .socket .afInet sockDgram 0 ⟨true, true, true⟩, .sendto 1 ⟨true, 4, true⟩ 0 4]
    (fun s => SomeConnected s.run) (by decide +kernel)
  have hfree : Run notifyStep unconditional (notifyInit 5 true) _ s :=
    hrun.mono fun _ _ _ => trivial
  exact ⟨s, hfree, of_decide_eq_true hp,
    (atConnect_notified_iff hfree).mpr hrun _ s (List.prefix_refl _) hfree⟩

/-- A UDP socket sends without a call of `at_connect` before: it is connected, and the device
has no callback. -/
theorem atSendto_connects_unnotified :
    ¬ ∀ (n : ℕ) (atDevOps : Bool) (as : List SendAction) (s : NotifyRun),
      Run notifyStep unconditional (notifyInit n atDevOps) as s → ConnectedNotified s := by
  intro hall
  obtain ⟨s, hrun, hp⟩ := Run.exists_of_exec notifyStep unconditional (notifyInit 5 true)
    [.socket .afInet sockDgram 0 ⟨true, true, true⟩, .sendto 0 ⟨true, 4, true⟩ 0 4]
    (fun s => ¬ ConnectedNotified s) (by decide +kernel)
  exact of_decide_eq_true hp (hall _ _ _ s hrun)

end AtSock
