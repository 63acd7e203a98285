import Esp32AtMqtt.AtSocket.Send

/-!
# Calls for a descriptor that has no socket

`at_connect`, `at_recvfrom` and `at_sendto` with the pointer `sock` in view. Most of their
exits go to one label, which counts the error in the socket behind `sock` whether or not
the pointer has been set by then. `ReturnsEarly` are the exits in front of the label.
-/

namespace AtSock

/-- The variable `sock`: not assigned yet, null, or at a slot of the table with what it
holds. -/
inductive SockPtr
  | unset
  | null
  | slot (i : ℕ) (sock : AtSocket)
  deriving DecidableEq, Repr

/-- `sock = at_get_socket(socket)`. -/
def sockPtr (t : SocketTable) (socket : ℤ) : SockPtr :=
  match atGetSocket t.sockets socket with
  | none => .null
  | some sock => .slot socket.toNat sock

/-- What becomes of a call: it comes back with a value, having read or written through
`sock` the slot `touched`; it reads and writes through a pointer to no socket; or it
goes on to receive in a slot. -/
inductive CallEnd
  | returned (result : ℤ) (table : SocketTable) (touched : Option ℕ)
  | badAccess (sock : SockPtr)
  | receives (i : ℕ) (pc : CallPc)
  deriving DecidableEq, Repr

/-- The value and the table of a call that comes back. -/
def CallEnd.value? : CallEnd → Option (ℤ × SocketTable)
  | .returned result table _ => some (result, table)
  | _ => none

namespace Pointer

/-- The label `__exit` with `result = -1`. -/
def failExit (t : SocketTable) : SockPtr → CallEnd
  | .slot i sock =>
      .returned (-1) { t with sockets := t.sockets.set i (atDoEventChanges sock .error true) }
        (some i)
  | sock => .badAccess sock

/-- `at_connect(socket, name, namelen)`. -/
def atConnect (t : SocketTable) (socket devConnect : ℤ) : CallEnd :=
  if ¬ t.atDevOps then .returned (-1) t none
  else
    match sockPtr t socket with
    | .slot i sock =>
        if sock.state ≠ .none then failExit t (.slot i sock)
        else if devConnect < 0 then failExit t (.slot i sock)
        else
          .returned 0 { t with sockets := t.sockets.set i { sock with state := .connect } }
            (some i)
    | sock => failExit t sock

/-- `at_recvfrom(socket, mem, len, flags, from, fromlen)`, up to the first use of the
socket. -/
def atRecvfrom (t : SocketTable) (socket : ℤ) (hasMem : Bool) (len : ℕ)
    (dontwait hasFrom : Bool) : CallEnd :=
  if h : ¬ hasMem ∨ len = 0 then .returned (-1) t none
  else if ¬ t.atDevOps then .returned (-1) t none
  else
    match sockPtr t socket with
    | .slot i _ =>
        .receives i (.recvCheck ⟨len, dontwait, hasFrom, Nat.pos_of_ne_zero (not_or.mp h).2⟩)
    | sock => failExit t sock

/-- `at_sendto(socket, data, size, flags, to, tolen)`. The first two tests stand in front
of the assignment to `sock`. -/
def atSendto (t : SocketTable) (socket : ℤ) (a : SendArgs) (devConnect devSend : ℤ) : CallEnd :=
  if ¬ t.atDevOps then failExit t .unset
  else if ¬ a.hasData ∨ a.size = 0 then failExit t .unset
  else
    match sockPtr t socket with
    | .slot i sock =>
        let r := sendtoSocket sock a.hasTo devConnect devSend
        .returned r.1 { t with sockets := t.sockets.set i r.2.1 } (some i)
    | sock => failExit t sock

end Pointer

/-- A call with its arguments, and what the device answers it. -/
inductive DescriptorCall
  | connect (devConnect : ℤ)
  | recvfrom (hasMem : Bool) (len : ℕ) (dontwait hasFrom : Bool)
  | sendto (a : SendArgs) (devConnect devSend : ℤ)
  deriving DecidableEq, Repr

namespace DescriptorCall

/-- The call for the descriptor `socket`. -/
def run (t : SocketTable) (socket : ℤ) : DescriptorCall → CallEnd
  | .connect devConnect => Pointer.atConnect t socket devConnect
  | .recvfrom hasMem len dontwait hasFrom =>
      Pointer.atRecvfrom t socket hasMem len dontwait hasFrom
  | .sendto a devConnect devSend => Pointer.atSendto t socket a devConnect devSend

/-- The data pointer or the length is invalid. `at_connect` is given neither. -/
def BadData : DescriptorCall → Prop
  | .connect _ => False
  | .recvfrom hasMem len _ _ => ¬ hasMem ∨ len = 0
  | .sendto a _ _ => ¬ a.hasData ∨ a.size = 0

instance : ∀ c : DescriptorCall, Decidable c.BadData
  | .connect _ => inferInstanceAs (Decidable False)
  | .recvfrom _ _ _ _ | .sendto _ _ _ => inferInstanceAs (Decidable (_ ∨ _))

/-- The descriptor has no socket, no operations are registered, or the data is invalid. -/
def Invalid (t : SocketTable) (socket : ℤ) (c : DescriptorCall) : Prop :=
  atGetSocket t.sockets socket = none ∨ ¬ t.atDevOps ∨ c.BadData

instance (t : SocketTable) (socket : ℤ) (c : DescriptorCall) : Decidable (c.Invalid t socket) :=
  inferInstanceAs (Decidable (_ ∨ _))

/-- The call leaves by one of the `return -1` in front of the label. `at_sendto` has
none. -/
def ReturnsEarly (t : SocketTable) : DescriptorCall → Prop
  | .connect _ => ¬ t.atDevOps
  | .recvfrom hasMem len _ _ => ¬ hasMem ∨ len = 0 ∨ ¬ t.atDevOps
  | .sendto _ _ _ => False

end DescriptorCall

/-- The call returns -1, uses no socket structure and leaves the table as it is. -/
def CallEnd.FailsCleanly (t : SocketTable) (e : CallEnd) : Prop := e = .returned (-1) t none

instance (t : SocketTable) (e : CallEnd) : Decidable (e.FailsCleanly t) :=
  inferInstanceAs (Decidable (_ = _))

theorem sockPtr_of_none {t : SocketTable} {socket : ℤ} (h : atGetSocket t.sockets socket = none) :
    sockPtr t socket = .null := by
  simp only [sockPtr, h]

theorem sockPtr_of_some {t : SocketTable} {socket : ℤ} {sock : AtSocket}
    (h : atGetSocket t.sockets socket = some sock) :
    sockPtr t socket = .slot socket.toNat sock := by
  simp only [sockPtr, h]

/-- Nothing comes back from the label when `sock` points to no socket. -/
theorem failExit_null (t : SocketTable) : Pointer.failExit t .null = .badAccess .null := rfl

theorem failExit_unset (t : SocketTable) : Pointer.failExit t .unset = .badAccess .unset := rfl

/-- The calls that come back are those of `atConnect`. -/
theorem atConnect_value (t : SocketTable) (socket devConnect : ℤ) :
    (Pointer.atConnect t socket devConnect).value? = atConnect t socket devConnect := by
  unfold Pointer.atConnect atConnect
  split
  · rfl
  · cases hsock : atGetSocket t.sockets socket with
    | none => rw [sockPtr_of_none hsock]; rfl
    | some sock =>
        rw [sockPtr_of_some hsock]
        by_cases hstate : sock.state = .none
        · by_cases hdev : devConnect < 0 <;> simp [hstate, hdev, Pointer.failExit, CallEnd.value?]
        · simp [hstate, Pointer.failExit, CallEnd.value?]

/-- The calls that come back are those of `atSendto`. -/
theorem atSendto_value (t : SocketTable) (socket : ℤ) (a : SendArgs) (devConnect devSend : ℤ) :
    (Pointer.atSendto t socket a devConnect devSend).value? =
      (atSendto t socket a devConnect devSend).map fun r => (r.1, r.2.1) := by
  unfold Pointer.atSendto atSendto
  by_cases hops : t.atDevOps
  · by_cases hdata : ¬ a.hasData ∨ a.size = 0
    · simp only [hops, hdata, not_true_eq_false, if_false, if_true, or_true, failExit_unset]
      rfl
    · simp only [hops, hdata, not_true_eq_false, if_false, or_self]
      cases hsock : atGetSocket t.sockets socket with
      | none => rw [sockPtr_of_none hsock]; rfl
      | some sock => rw [sockPtr_of_some hsock]; rfl
  · simp only [hops, failExit_unset]
    rfl

/-- A call of `at_recvfrom` begins, or returns at once, in the runs of all calls exactly when
it does not use a pointer to no socket. -/
theorem recvfrom_isSome_iff (s : SendRun) (socket : ℤ) (len : ℕ) (dontwait hasFrom : Bool) :
    (sendStep s (.recvfrom socket len dontwait hasFrom)).isSome ↔
      ∀ p, Pointer.atRecvfrom s.table socket true len dontwait hasFrom ≠ .badAccess p := by
  have htable : s.table.atDevOps = s.atDevOps := rfl
  unfold Pointer.atRecvfrom
  by_cases hearly : len = 0 ∨ ¬ s.atDevOps
  · simp only [sendStep, if_pos hearly, Option.isSome_some, true_iff]
    intro p
    rcases hearly with hlen | hops
    · simp [hlen]
    · simp only [htable, hops]
      split <;> simp
  · obtain ⟨hlen, hops⟩ := not_or.mp hearly
    rw [not_not] at hops
    simp only [sendStep, htable, hops, hlen, not_true_eq_false, or_self, dite_false,
      if_false]
    cases hsock : atGetSocket s.table.sockets socket with
    | some sock =>
        obtain ⟨hpos, hget, hmagic⟩ := atGetSocket_eq_some.mp hsock
        rw [SendRun.table, List.getElem?_map] at hget
        obtain ⟨slot, hslot, rfl⟩ := Option.map_eq_some_iff.mp hget
        rw [sockPtr_of_some hsock, if_neg (Int.not_lt.mpr hpos)]
        simp [SendRun.onSlot, hslot, step, hmagic, Nat.pos_of_ne_zero hlen]
    | none =>
        rw [sockPtr_of_none hsock]
        simp only [failExit_null, ne_eq, CallEnd.badAccess.injEq, forall_eq', iff_false]
        split
        · simp
        · next hneg =>
            cases hslot : s.slots[socket.toNat]? with
            | none => simp [SendRun.onSlot, hslot]
            | some slot =>
                have hmagic : slot.run.sock.magic ≠ atSocketMagic := fun hmagic => by
                  have hget : s.table.sockets[socket.toNat]? = some slot.run.sock := by
                    rw [SendRun.table, List.getElem?_map, hslot, Option.map_some]
                  have hsome := atGetSocket_eq_some.mpr ⟨Int.not_lt.mp hneg, hget, hmagic⟩
                  rw [hsock] at hsome
                  cases hsome
                simp [SendRun.onSlot, hslot, step, hmagic, Nat.pos_of_ne_zero hlen]

/-- A call with an invalid descriptor or invalid data, or without device operations, fails
cleanly exactly when it leaves in front of the label. -/
theorem invalid_failsCleanly_iff {t : SocketTable} {socket : ℤ} {c : DescriptorCall}
    (h : c.Invalid t socket) : (c.run t socket).FailsCleanly t ↔ c.ReturnsEarly t := by
  cases c with
  | connect devConnect =>
      simp only [DescriptorCall.run, DescriptorCall.ReturnsEarly, Pointer.atConnect]
      split
      · next hops => exact iff_of_true rfl hops
      · next hops =>
          have hnone : atGetSocket t.sockets socket = none :=
            h.resolve_right fun h => h.elim hops id
          rw [sockPtr_of_none hnone]
          exact iff_of_false (by simp [failExit_null, CallEnd.FailsCleanly]) hops
  | recvfrom hasMem len dontwait hasFrom =>
      simp only [DescriptorCall.run, DescriptorCall.ReturnsEarly, Pointer.atRecvfrom]
      split
      · next hdata => exact iff_of_true rfl (hdata.imp_right .inl)
      · next hdata =>
          split
          · next hops => exact iff_of_true rfl (.inr (.inr hops))
          · next hops =>
              have hnone : atGetSocket t.sockets socket = none :=
                h.resolve_right fun h => h.elim hops hdata
              rw [sockPtr_of_none hnone]
              refine iff_of_false (by simp [failExit_null, CallEnd.FailsCleanly]) fun hearly => ?_
              exact (or_assoc.mpr hearly).elim hdata hops
  | sendto a devConnect devSend =>
      simp only [DescriptorCall.run, DescriptorCall.ReturnsEarly, Pointer.atSendto, iff_false]
      split
      · simp [failExit_unset, CallEnd.FailsCleanly]
      · next hops =>
          split
          · simp [failExit_unset, CallEnd.FailsCleanly]
          · next hdata =>
              have hnone : atGetSocket t.sockets socket = none :=
                h.resolve_right fun h => h.elim hops hdata
              rw [sockPtr_of_none hnone]
              simp [failExit_null, CallEnd.FailsCleanly]

/-- Nothing to receive into, and no operations. -/
theorem invalid_failsCleanly_noMem :
    (DescriptorCall.recvfrom false 8 false false).Invalid ⟨[.zero], false, false⟩ (-3) ∧
      ((DescriptorCall.recvfrom false 8 false false).run ⟨[.zero], false, false⟩ (-3)).FailsCleanly
        ⟨[.zero], false, false⟩ :=
  ⟨by decide, (invalid_failsCleanly_iff (by decide)).mpr (.inl (by decide))⟩

/-- `at_connect` for a slot that is free counts an error in the null pointer. -/
theorem connect_free_slot :
    ¬ ∀ (t : SocketTable) (socket : ℤ) (c : DescriptorCall),
      c.Invalid t socket → (c.run t socket).FailsCleanly t := by
  intro hall
  have h := hall ⟨[.zero], true, true⟩ 0 (.connect 0) (by decide)
  revert h
  decide

end AtSock
