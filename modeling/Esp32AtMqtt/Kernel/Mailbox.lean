import Esp32AtMqtt.Kernel.Ipc
import Esp32AtMqtt.Serial.RxFifo
import Esp32AtMqtt.Transition.Mesa
import Esp32AtMqtt.Transition.Run

/-!
# Mailboxes of the kernel

A mailbox of `src/ipc.c` is a ring of `size` words. Threads that find it full wait in
`suspend_sender_thread`, threads that find it empty in `suspend_thread`, both in a loop: who is
resumed looks again, and waits for the rest of its time if another thread was faster.

A step is what a thread does with the interrupts disabled, from the entry of its call or from where
it was suspended, to where it returns or is suspended; the timer of a suspended thread; or a reset.
`sent` and `received` are history: the mails that were put into the ring and taken out of it since
the last reset.
-/

namespace Kernel

open Transition Mesa Ring

/-- A call of `rt_mb_send_wait` or `rt_mb_recv`, with the waiting time that is left. -/
inductive MbCall
  | send (value : UInt32) (timeout : ℤ)
  | recv (timeout : ℤ)
  deriving DecidableEq, Repr

namespace MbCall

def timeout : MbCall → ℤ
  | .send _ timeout => timeout
  | .recv timeout => timeout

/-- The call as it goes on when its thread runs again. -/
def waited (tickDelta : UInt32) : MbCall → MbCall
  | .send value timeout => .send value (waitingTime timeout tickDelta)
  | .recv timeout => .recv (waitingTime timeout tickDelta)

end MbCall

/-- Where a thread is. It has `failed` when it was resumed with an error. -/
inductive MbPhase
  | outside
  | inside (call : MbCall) (failed : Bool)
  deriving DecidableEq, Repr

namespace MbPhase

/-- In `rt_mb_recv`, and not about to return an error. -/
def Receiving (p : MbPhase) : Prop := ∃ timeout, p = .inside (.recv timeout) false

/-- In `rt_mb_send_wait`, and not about to return an error. -/
def Sending (p : MbPhase) : Prop := ∃ value timeout, p = .inside (.send value timeout) false

end MbPhase

/-- `struct rt_mailbox` and the threads. The suspended threads of `receivers` are those of
`suspend_thread`, the ones of `senders` those of `suspend_sender_thread`. -/
structure Mailbox (τ : Type*) where
  flag : IpcFlag
  msgPool : List UInt32
  size : UInt16
  entry : UInt16
  inOffset : UInt16
  outOffset : UInt16
  receivers : Waiters τ
  senders : Waiters τ
  priority : τ → UInt8
  phase : τ → MbPhase
  sent : List UInt32
  received : List UInt32

variable {τ : Type*} [DecidableEq τ]

/-- `rt_mb_create(name, size, flag)` when it succeeds, and threads of these priorities. The memory
of the ring is not cleared. -/
def rtMbCreate (flag : IpcFlag) (msgPool : List UInt32) (size : UInt16) (priority : τ → UInt8) :
    Mailbox τ :=
  ⟨flag, msgPool, size, 0, 0, 0, .empty, .empty, priority, fun _ => .outside, [], []⟩

namespace Mailbox

/-- An offset of the ring is increased. -/
def nextOffset (mb : Mailbox τ) (offset : UInt16) : UInt16 :=
  if offset + 1 ≥ mb.size then 0 else offset + 1

def setPhase (mb : Mailbox τ) (t : τ) (phase : MbPhase) : Mailbox τ :=
  { mb with phase := Function.update mb.phase t phase }

/-- The mail of `rt_mb_send_wait` is put into the ring, and a receiver is resumed. -/
def store (mb : Mailbox τ) (value : UInt32) : Mailbox τ :=
  { mb with
    msgPool := mb.msgPool.set mb.inOffset.toNat value
    inOffset := mb.nextOffset mb.inOffset
    entry := mb.entry + 1
    receivers := mb.receivers.resume
    sent := mb.sent ++ [value] }

/-- `rt_mb_recv` takes a mail out of the ring, and a sender is resumed. -/
def fetch (mb : Mailbox τ) : Mailbox τ :=
  { mb with
    outOffset := mb.nextOffset mb.outOffset
    entry := mb.entry - 1
    senders := mb.senders.resume
    received := mb.received ++ [mb.msgPool.getD mb.outOffset.toNat 0] }

/-- `rt_ipc_list_suspend` for one of the lists. -/
def suspendIn (mb : Mailbox τ) (w : Waiters τ) (t : τ) : Waiters τ :=
  ⟨rtIpcListSuspend mb.flag mb.priority w.suspended t, w.resumed⟩

/-- The loop of `rt_mb_send_wait` and of `rt_mb_recv`: the thread `t` returns, with its mail or
with an error, or it is suspended. A call that does not wait is refused before the loop as it is
in it. -/
def loop (mb : Mailbox τ) (t : τ) : MbCall → Mailbox τ
  | .send value timeout =>
      if mb.entry = mb.size then
        if timeout = 0 then mb.setPhase t .outside
        else
          { mb with senders := mb.suspendIn mb.senders t }.setPhase t
            (.inside (.send value timeout) false)
      else (mb.store value).setPhase t .outside
  | .recv timeout =>
      if mb.entry = 0 then
        if timeout = 0 then mb.setPhase t .outside
        else
          { mb with receivers := mb.suspendIn mb.receivers t }.setPhase t
            (.inside (.recv timeout) false)
      else mb.fetch.setPhase t .outside

end Mailbox

inductive MbAction (τ : Type*)
  | call (t : τ) (call : MbCall)
  | run (t : τ) (tickDelta : UInt32)
  | timeout (t : τ)
  | reset
  | control (t : τ) (priority : UInt8)

/-- One step. `rt_thread_timeout` and `rt_mb_control(mb, RT_IPC_CMD_RESET, …)` resume a thread with
an error, which its call then returns. -/
def mbStep (mb : Mailbox τ) : MbAction τ → Option (Mailbox τ)
  | .call t call =>
      if mb.phase t = .outside then some (mb.loop t call) else none
  | .run t tickDelta =>
      match mb.phase t with
      | .inside _ true => some (mb.setPhase t .outside)
      | .inside call false =>
          if t ∈ mb.receivers.resumed then
            some ({ mb with receivers := mb.receivers.run t }.loop t
              (call.waited tickDelta))
          else if t ∈ mb.senders.resumed then
            some ({ mb with senders := mb.senders.run t }.loop t (call.waited tickDelta))
          else none
      | .outside => none
  | .timeout t =>
      match mb.phase t with
      | .inside call false =>
          if 0 < call.timeout then
            if t ∈ mb.receivers.suspended then
              some ({ mb with receivers := mb.receivers.leave t }.setPhase t (.inside call true))
            else if t ∈ mb.senders.suspended then
              some ({ mb with senders := mb.senders.leave t }.setPhase t (.inside call true))
            else none
          else none
      | _ => none
  | .reset =>
      some { mb with
        entry := 0
        inOffset := 0
        outOffset := 0
        receivers := ⟨[], mb.receivers.resumed⟩
        senders := ⟨[], mb.senders.resumed⟩
        phase := fun t =>
          match mb.phase t with
          | .inside call false =>
              .inside call (t ∈ mb.receivers.suspended ∨ t ∈ mb.senders.suspended)
          | phase => phase
        sent := []
        received := [] }
  | .control t priority => some { mb with priority := Function.update mb.priority t priority }

/-! ## The ring -/

namespace Mailbox

section Words

omit [DecidableEq τ]

/-- The mails in the ring, the oldest one first. -/
def mails (mb : Mailbox τ) : List UInt32 :=
  window (fun i => mb.msgPool.getD i 0) mb.size.toNat mb.outOffset.toNat mb.entry.toNat

/-- The ring holds what was sent and not received. -/
structure RingOk (mb : Mailbox τ) : Prop where
  length : mb.msgPool.length = mb.size.toNat
  outOffset : mb.outOffset.toNat ≤ mb.size.toNat - 1
  inOffset : mb.inOffset.toNat = (mb.outOffset.toNat + mb.entry.toNat) % mb.size.toNat
  entry : mb.entry.toNat ≤ mb.size.toNat
  fifo : mb.sent = mb.received ++ mb.mails

theorem ringOk_create (flag : IpcFlag) {msgPool : List UInt32} {size : UInt16}
    (hpool : msgPool.length = size.toNat) (priority : τ → UInt8) :
    (rtMbCreate flag msgPool size priority).RingOk where
  length := hpool
  outOffset := Nat.zero_le _
  inOffset := (Nat.zero_mod _).symm
  entry := Nat.zero_le _
  fifo := rfl

variable {mb : Mailbox τ}

/-- The number of mails does not wrap. -/
theorem RingOk.toNat_entry_add (h : mb.RingOk) (hroom : mb.entry ≠ mb.size) :
    (mb.entry + 1).toNat = mb.entry.toNat + 1 := by
  have hsize := mb.size.toNat_lt
  have hne : mb.entry.toNat ≠ mb.size.toNat := fun heq => hroom (UInt16.toNat_inj.mp heq)
  have hle := h.entry
  rw [UInt16.toNat_add]
  exact Nat.mod_eq_of_lt (by simp only [UInt16.reduceToNat]; omega)

theorem toNat_entry_pos (hsome : mb.entry ≠ 0) : 0 < mb.entry.toNat :=
  Nat.pos_of_ne_zero fun hz => hsome (UInt16.toNat_inj.mp hz)

theorem toNat_entry_sub (hsome : mb.entry ≠ 0) : (mb.entry - 1).toNat = mb.entry.toNat - 1 := by
  have hone : (1 : UInt16) ≤ mb.entry := by
    have hpos := toNat_entry_pos hsome
    rw [UInt16.le_iff_toNat_le]
    simp only [UInt16.reduceToNat]
    omega
  rw [UInt16.toNat_sub_of_le _ _ hone]
  rfl

/-- A mail is put behind the others. -/
theorem RingOk.store (h : mb.RingOk) (hroom : mb.entry ≠ mb.size) (value : UInt32) :
    (mb.store value).RingOk := by
  have hlt : mb.entry.toNat < mb.size.toNat :=
    lt_of_le_of_ne h.entry fun heq => hroom (UInt16.toNat_inj.mp heq)
  have hin : mb.inOffset.toNat < mb.size.toNat := h.inOffset ▸ Nat.mod_lt _ (by omega)
  have hentry := h.toNat_entry_add hroom
  refine ⟨?_, h.outOffset, ?_, ?_, ?_⟩
  · exact (List.length_set).trans h.length
  · show (mb.nextOffset mb.inOffset).toNat =
      (mb.outOffset.toNat + (mb.entry + 1).toNat) % mb.size.toNat
    rw [nextOffset, Serial.toNat_next hin, h.inOffset, hentry, Nat.mod_add_mod, Nat.add_assoc]
  · show (mb.entry + 1).toNat ≤ mb.size.toNat
    omega
  · show mb.sent ++ [value] =
      mb.received ++ window (fun i => (mb.msgPool.set mb.inOffset.toNat value).getD i 0)
        mb.size.toNat mb.outOffset.toNat (mb.entry + 1).toNat
    rw [hentry, getD_set_eq_update mb.msgPool (h.length ▸ hin) value 0, h.inOffset,
      window_push _ _ hlt, h.fifo, List.append_assoc]
    rfl

/-- The first mail is taken. -/
theorem RingOk.fetch (h : mb.RingOk) (hsome : mb.entry ≠ 0) : mb.fetch.RingOk := by
  have hpos := toNat_entry_pos hsome
  have hbound := h.entry
  have hbelow := h.outOffset
  have hout : mb.outOffset.toNat < mb.size.toNat := by omega
  have hentry := toNat_entry_sub hsome
  have hnext : (mb.nextOffset mb.outOffset).toNat =
      (mb.outOffset.toNat + 1) % mb.size.toNat := Serial.toNat_next hout
  have hsplit : mb.mails = mb.msgPool.getD mb.outOffset.toNat 0 :: mb.fetch.mails := by
    show window _ _ _ mb.entry.toNat =
      _ :: window _ _ (mb.nextOffset mb.outOffset).toNat (mb.entry - 1).toNat
    rw [hentry, hnext, show mb.entry.toNat = mb.entry.toNat - 1 + 1 by omega, window_cons,
      Nat.mod_eq_of_lt hout]
    rfl
  refine ⟨h.length, ?_, ?_, ?_, ?_⟩
  · show (mb.nextOffset mb.outOffset).toNat ≤ mb.size.toNat - 1
    have hmod := Nat.mod_lt (mb.outOffset.toNat + 1) (show 0 < mb.size.toNat by omega)
    omega
  · show mb.inOffset.toNat =
      ((mb.nextOffset mb.outOffset).toNat + (mb.entry - 1).toNat) % mb.size.toNat
    rw [hnext, hentry, Nat.mod_add_mod, h.inOffset]
    congr 1
    omega
  · show (mb.entry - 1).toNat ≤ mb.size.toNat
    omega
  · show mb.sent = (mb.received ++ [_]) ++ mb.fetch.mails
    rw [h.fifo, hsplit, List.append_assoc, List.singleton_append]

end Words

/-! ## The threads -/

/-- The threads that are in no list because they run. -/
structure Looking (mb : Mailbox τ) (t : τ) : Prop where
  receiving : mb.receivers.Listed fun u => u ≠ t ∧ (mb.phase u).Receiving
  sending : mb.senders.Listed fun u => u ≠ t ∧ (mb.phase u).Sending

/-- Every other thread that is inside of a call is in the list for it, and none is forgotten while
there is something for it. -/
structure WaitOk (mb : Mailbox τ) : Prop where
  receiving : mb.receivers.Listed fun u => (mb.phase u).Receiving
  sending : mb.senders.Listed fun u => (mb.phase u).Sending
  receivers : mb.receivers.Awake mb.entry.toNat
  senders : mb.senders.Awake (mb.size.toNat - mb.entry.toNat)

omit [DecidableEq τ] in
theorem waitOk_create (flag : IpcFlag) (msgPool : List UInt32) (size : UInt16)
    (priority : τ → UInt8) : (rtMbCreate flag msgPool size priority).WaitOk where
  receiving := Waiters.listed_empty fun t => by simp [rtMbCreate, MbPhase.Receiving]
  sending := Waiters.listed_empty fun t => by simp [rtMbCreate, MbPhase.Sending]
  receivers := Waiters.awake_empty _
  senders := Waiters.awake_empty _

section Looking

variable {mb : Mailbox τ} {t : τ}

omit [DecidableEq τ] in
/-- A thread that is in no list. -/
theorem WaitOk.look (h : mb.WaitOk) (hphase : ∀ call, mb.phase t ≠ .inside call false) :
    mb.Looking t where
  receiving := h.receiving.aside fun ⟨_, hp⟩ => hphase _ hp
  sending := h.sending.aside fun ⟨_, _, hp⟩ => hphase _ hp

/-- The thread `t` returns, or is about to return an error. -/
theorem Looking.gone (h : mb.Looking t) {p : MbPhase} (hp : ∀ call, p ≠ .inside call false) :
    (mb.receivers.Listed fun u => (Function.update mb.phase t p u).Receiving) ∧
      mb.senders.Listed fun u => (Function.update mb.phase t p u).Sending :=
  ⟨h.receiving.congr (Waiters.update_iff_of_not fun ⟨_, heq⟩ => hp _ heq),
    h.sending.congr (Waiters.update_iff_of_not fun ⟨_, _, heq⟩ => hp _ heq)⟩

omit [DecidableEq τ] in
theorem perm_suspendIn (mb : Mailbox τ) (w : Waiters τ) (t : τ) :
    (mb.suspendIn w t).all.Perm (t :: w.all) :=
  (perm_rtIpcListSuspend mb.flag mb.priority w.suspended t).append_right w.resumed

/-- The thread `t` is suspended in `rt_mb_recv`. -/
theorem Looking.receives (h : mb.Looking t) (timeout : ℤ) :
    ((mb.suspendIn mb.receivers t).Listed fun u =>
      (Function.update mb.phase t (.inside (.recv timeout) false) u).Receiving) ∧
      mb.senders.Listed fun u =>
        (Function.update mb.phase t (.inside (.recv timeout) false) u).Sending :=
  ⟨(h.receiving.join (mb.perm_suspendIn mb.receivers t) fun hself => hself.1 rfl).congr
      (Waiters.update_iff_of ⟨timeout, rfl⟩),
    h.sending.congr (Waiters.update_iff_of_not fun ⟨_, _, heq⟩ => by simp at heq)⟩

/-- The thread `t` is suspended in `rt_mb_send_wait`. -/
theorem Looking.sends (h : mb.Looking t) (value : UInt32) (timeout : ℤ) :
    (mb.receivers.Listed fun u =>
      (Function.update mb.phase t (.inside (.send value timeout) false) u).Receiving) ∧
      (mb.suspendIn mb.senders t).Listed fun u =>
        (Function.update mb.phase t (.inside (.send value timeout) false) u).Sending :=
  ⟨h.receiving.congr (Waiters.update_iff_of_not fun ⟨_, heq⟩ => by simp at heq),
    (h.sending.join (mb.perm_suspendIn mb.senders t) fun hself => hself.1 rfl).congr
      (Waiters.update_iff_of ⟨value, timeout, rfl⟩)⟩

end Looking

/-- One look of `rt_mb_send_wait` at the mailbox. Of the senders on their way one may be missing,
who is here. -/
theorem WaitOk.loop_send {mb : Mailbox τ} (hring : mb.RingOk) {t : τ}
    (hlook : mb.Looking t) (hreceivers : mb.receivers.Awake mb.entry.toNat)
    (hsenders : mb.senders.Awake (mb.size.toNat - mb.entry.toNat - 1)) (value : UInt32)
    (timeout : ℤ) :
    (mb.loop t (.send value timeout)).WaitOk ∧
      (mb.loop t (.send value timeout)).RingOk := by
  by_cases hfull : mb.entry = mb.size
  · have hnone : mb.size.toNat - mb.entry.toNat = 0 := by rw [hfull, Nat.sub_self]
    by_cases htimeout : timeout = 0
    · simp only [Mailbox.loop, if_pos hfull, if_pos htimeout]
      obtain ⟨hr, hs⟩ := hlook.gone (p := .outside) (by simp)
      exact ⟨⟨hr, hs, hreceivers,
        hsenders.mono (by show mb.size.toNat - mb.entry.toNat ≤ _; omega)⟩,
        hring.length, hring.outOffset, hring.inOffset, hring.entry, hring.fifo⟩
    · simp only [Mailbox.loop, if_pos hfull, if_neg htimeout]
      obtain ⟨hr, hs⟩ := hlook.sends value timeout
      refine ⟨⟨hr, hs, hreceivers, ?_⟩,
        hring.length, hring.outOffset, hring.inOffset, hring.entry, hring.fifo⟩
      show Waiters.Awake (mb.size.toNat - mb.entry.toNat) _
      rw [hnone]
      exact Waiters.awake_zero _
  · have hstore := hring.store hfull value
    simp only [Mailbox.loop, if_neg hfull]
    obtain ⟨hr, hs⟩ := hlook.gone (p := .outside) (by simp)
    refine ⟨⟨hr.resume, hs, ?_, ?_⟩,
      hstore.length, hstore.outOffset, hstore.inOffset, hstore.entry, hstore.fifo⟩
    · show mb.receivers.resume.Awake (mb.entry + 1).toNat
      rw [hring.toNat_entry_add hfull]
      exact hreceivers.resume
    · show mb.senders.Awake (mb.size.toNat - (mb.entry + 1).toNat)
      rw [hring.toNat_entry_add hfull]
      exact hsenders.mono (by omega)

/-- One look of `rt_mb_recv`, likewise. -/
theorem WaitOk.loop_recv {mb : Mailbox τ} (hring : mb.RingOk) {t : τ}
    (hlook : mb.Looking t) (hreceivers : mb.receivers.Awake (mb.entry.toNat - 1))
    (hsenders : mb.senders.Awake (mb.size.toNat - mb.entry.toNat))
    (timeout : ℤ) :
    (mb.loop t (.recv timeout)).WaitOk ∧ (mb.loop t (.recv timeout)).RingOk := by
  have hbound := hring.entry
  by_cases hempty : mb.entry = 0
  · have hnone : mb.entry.toNat = 0 := by
      rw [hempty]
      rfl
    by_cases htimeout : timeout = 0
    · simp only [Mailbox.loop, if_pos hempty, if_pos htimeout]
      obtain ⟨hr, hs⟩ := hlook.gone (p := .outside) (by simp)
      exact ⟨⟨hr, hs, hreceivers.mono (by show mb.entry.toNat ≤ _; omega), hsenders⟩,
        hring.length, hring.outOffset, hring.inOffset, hring.entry, hring.fifo⟩
    · simp only [Mailbox.loop, if_pos hempty, if_neg htimeout]
      obtain ⟨hr, hs⟩ := hlook.receives timeout
      refine ⟨⟨hr, hs, ?_, hsenders⟩,
        hring.length, hring.outOffset, hring.inOffset, hring.entry, hring.fifo⟩
      show Waiters.Awake mb.entry.toNat _
      rw [hnone]
      exact Waiters.awake_zero _
  · have hfetch := hring.fetch hempty
    have hpos := toNat_entry_pos hempty
    simp only [Mailbox.loop, if_neg hempty]
    obtain ⟨hr, hs⟩ := hlook.gone (p := .outside) (by simp)
    refine ⟨⟨hr, hs.resume, ?_, ?_⟩,
      hfetch.length, hfetch.outOffset, hfetch.inOffset, hfetch.entry, hfetch.fifo⟩
    · show mb.receivers.Awake (mb.entry - 1).toNat
      rw [toNat_entry_sub hempty]
      exact hreceivers
    · show mb.senders.resume.Awake (mb.size.toNat - (mb.entry - 1).toNat)
      rw [toNat_entry_sub hempty, show mb.size.toNat - (mb.entry.toNat - 1) =
        mb.size.toNat - mb.entry.toNat + 1 by omega]
      exact hsenders.resume

/-- Behind a reset, a thread is inside if it was and is not turned away. -/
theorem reset_phase {mb mb' : Mailbox τ} (hstep : mbStep mb .reset = some mb') (t : τ)
    (call : MbCall) : mb'.phase t = .inside call false ↔
      mb.phase t = .inside call false ∧ t ∉ mb.receivers.suspended ∧
        t ∉ mb.senders.suspended := by
  obtain rfl := Option.some.inj hstep
  show (match mb.phase t with
    | .inside call false =>
        .inside call (t ∈ mb.receivers.suspended ∨ t ∈ mb.senders.suspended)
    | phase => phase) = MbPhase.inside call false ↔ _
  cases mb.phase t with
  | outside => simp
  | inside c failed => cases failed <;> simp

omit [DecidableEq τ] in
/-- Nobody waits both for a mail and for room. -/
theorem WaitOk.apart {mb : Mailbox τ} (h : mb.WaitOk) {t : τ} (hr : t ∈ mb.receivers.all)
    (hs : t ∈ mb.senders.all) : False := by
  obtain ⟨timeout, hphase⟩ := (h.receiving.mem t).mp hr
  obtain ⟨value, timeout', hphase'⟩ := (h.sending.mem t).mp hs
  simp [hphase] at hphase'

theorem WaitOk.reset {mb mb' : Mailbox τ} (h : mb.WaitOk) (hstep : mbStep mb .reset = some mb') :
    mb'.WaitOk := by
  have hphase := reset_phase hstep
  obtain rfl := Option.some.inj hstep
  refine ⟨h.receiving.flush.congr fun u => ?_, h.sending.flush.congr fun u => ?_, .inl rfl,
    .inl rfl⟩
  · simp only [MbPhase.Receiving, hphase, exists_and_right]
    refine and_congr_right fun hp => and_iff_left fun hs => ?_
    exact h.apart ((h.receiving.mem u).mpr hp) (List.mem_append_left _ hs)
  · simp only [MbPhase.Sending, hphase, exists_and_right]
    refine and_congr_right fun hp => and_iff_right fun hr => ?_
    exact h.apart (List.mem_append_left _ hr) ((h.sending.mem u).mpr hp)

theorem WaitOk.step {mb mb' : Mailbox τ} (hwait : mb.WaitOk) (hring : mb.RingOk)
    {a : MbAction τ} (hstep : mbStep mb a = some mb') : mb'.WaitOk ∧ mb'.RingOk := by
  cases a with
  | call t call =>
      obtain ⟨hphase, hstep⟩ : mb.phase t = .outside ∧ _ :=
        Option.ite_none_right_eq_some.mp hstep
      obtain rfl := Option.some.inj hstep
      have hlook := hwait.look (t := t) (by simp [hphase])
      cases call with
      | send value timeout =>
          exact WaitOk.loop_send hring hlook hwait.receivers
            (hwait.senders.mono (Nat.sub_le _ _)) value timeout
      | recv timeout =>
          exact WaitOk.loop_recv hring hlook (hwait.receivers.mono (Nat.sub_le _ _))
            hwait.senders timeout
  | run t tickDelta =>
      simp only [mbStep] at hstep
      cases hphase : mb.phase t with
      | outside => simp [hphase] at hstep
      | inside call failed =>
          cases failed with
          | true =>
              simp only [hphase, Option.some.injEq] at hstep
              subst hstep
              obtain ⟨hr, hs⟩ := (hwait.look (t := t) (by simp [hphase])).gone (p := .outside) (by simp)
              exact ⟨⟨hr, hs, hwait.receivers, hwait.senders⟩, hring.length, hring.outOffset,
                hring.inOffset, hring.entry, hring.fifo⟩
          | false =>
              simp only [hphase] at hstep
              by_cases hr : t ∈ mb.receivers.resumed
              · rw [if_pos hr] at hstep
                obtain rfl := Option.some.inj hstep
                have hall : t ∈ mb.receivers.all := List.mem_append_right _ hr
                obtain ⟨timeout, hcall⟩ := (hwait.receiving.mem t).mp hall
                obtain ⟨rfl, -⟩ := MbPhase.inside.inj (hphase.symm.trans hcall)
                have hring' : ({ mb with receivers := mb.receivers.run t }).RingOk :=
                  ⟨hring.length, hring.outOffset, hring.inOffset, hring.entry, hring.fifo⟩
                have hlook : ({ mb with receivers := mb.receivers.run t }).Looking t :=
                  ⟨hwait.receiving.run hr,
                    hwait.sending.aside fun hs => hwait.apart hall ((hwait.sending.mem t).mpr hs)⟩
                exact WaitOk.loop_recv hring' hlook (hwait.receivers.run hr) hwait.senders _
              · rw [if_neg hr] at hstep
                obtain ⟨hs, hstep⟩ : t ∈ mb.senders.resumed ∧ _ :=
                  Option.ite_none_right_eq_some.mp hstep
                obtain rfl := Option.some.inj hstep
                have hall : t ∈ mb.senders.all := List.mem_append_right _ hs
                obtain ⟨value, timeout, hcall⟩ := (hwait.sending.mem t).mp hall
                obtain ⟨rfl, -⟩ := MbPhase.inside.inj (hphase.symm.trans hcall)
                have hring' : ({ mb with senders := mb.senders.run t }).RingOk :=
                  ⟨hring.length, hring.outOffset, hring.inOffset, hring.entry, hring.fifo⟩
                have hlook : ({ mb with senders := mb.senders.run t }).Looking t :=
                  ⟨hwait.receiving.aside fun hr =>
                    hwait.apart ((hwait.receiving.mem t).mpr hr) hall, hwait.sending.run hs⟩
                exact WaitOk.loop_send hring' hlook hwait.receivers (hwait.senders.run hs) value _
  | timeout t =>
      simp only [mbStep] at hstep
      cases hphase : mb.phase t with
      | outside => simp [hphase] at hstep
      | inside call failed =>
          cases failed with
          | true => simp [hphase] at hstep
          | false =>
              simp only [hphase] at hstep
              obtain ⟨-, hstep⟩ : 0 < call.timeout ∧ _ := Option.ite_none_right_eq_some.mp hstep
              by_cases hr : t ∈ mb.receivers.suspended
              · rw [if_pos hr] at hstep
                obtain rfl := Option.some.inj hstep
                have hlook : ({ mb with receivers := mb.receivers.leave t }).Looking t :=
                  ⟨hwait.receiving.leave hr, hwait.sending.aside fun hs =>
                    hwait.apart (List.mem_append_left _ hr) ((hwait.sending.mem t).mpr hs)⟩
                obtain ⟨hr', hs'⟩ := hlook.gone (p := .inside call true) (by simp)
                exact ⟨⟨hr', hs', hwait.receivers.leave t, hwait.senders⟩, hring.length,
                  hring.outOffset, hring.inOffset, hring.entry, hring.fifo⟩
              · rw [if_neg hr] at hstep
                obtain ⟨hs, hstep⟩ : t ∈ mb.senders.suspended ∧ _ :=
                  Option.ite_none_right_eq_some.mp hstep
                obtain rfl := Option.some.inj hstep
                have hlook : ({ mb with senders := mb.senders.leave t }).Looking t :=
                  ⟨hwait.receiving.aside fun hr' => hwait.apart
                    ((hwait.receiving.mem t).mpr hr') (List.mem_append_left _ hs),
                    hwait.sending.leave hs⟩
                obtain ⟨hr', hs'⟩ := hlook.gone (p := .inside call true) (by simp)
                exact ⟨⟨hr', hs', hwait.receivers, hwait.senders.leave t⟩, hring.length,
                  hring.outOffset, hring.inOffset, hring.entry, hring.fifo⟩
  | reset =>
      refine ⟨hwait.reset hstep, ?_⟩
      obtain rfl := Option.some.inj hstep
      exact ⟨hring.length, Nat.zero_le _, (Nat.zero_mod _).symm, Nat.zero_le _, rfl⟩
  | control t p =>
      obtain rfl := Option.some.inj hstep
      exact ⟨⟨hwait.receiving, hwait.sending, hwait.receivers, hwait.senders⟩, hring.length,
        hring.outOffset, hring.inOffset, hring.entry, hring.fifo⟩

end Mailbox

section Runs

variable {flag : IpcFlag} {msgPool : List UInt32} {size : UInt16} {priority : τ → UInt8}
  {as : List (MbAction τ)} {mb : Mailbox τ}

theorem mailbox_ok (hpool : msgPool.length = size.toNat)
    (h : Run mbStep unconditional (rtMbCreate flag msgPool size priority) as mb) :
    mb.WaitOk ∧ mb.RingOk :=
  h.invariant (fun mb => mb.WaitOk ∧ mb.RingOk) (fun _ _ _ hs _ hstep => hs.1.step hs.2 hstep)
    ⟨Mailbox.waitOk_create flag msgPool size priority, Mailbox.ringOk_create flag hpool priority⟩

/-- Whatever the threads do, the mails come out in the order in which they went in, each of them
once, and there are never more of them in the mailbox than it has places. -/
theorem mailbox_fifo (hpool : msgPool.length = size.toNat)
    (h : Run mbStep unconditional (rtMbCreate flag msgPool size priority) as mb) :
    mb.sent = mb.received ++ mb.mails ∧ mb.mails.length = mb.entry.toNat ∧
      mb.entry.toNat ≤ mb.size.toNat := by
  have hring := (mailbox_ok hpool h).2
  exact ⟨hring.fifo, length_window _ _ _ _, hring.entry⟩

/-- A receiver waits, a sender fills the mailbox, another thread takes the mail before the receiver
runs, and a second mail stays in the ring. -/
theorem mailbox_fifo_overtaken :
    ∃ mb, Run mbStep unconditional (rtMbCreate .fifo [0] 1 fun _ : Fin 3 => 10)
      [.call 0 (.recv (-1)), .call 1 (.send 7 0), .call 2 (.recv 0), .run 0 3,
        .call 1 (.send 8 0)] mb ∧
      (decide (mb.received = [7]) && decide (mb.receivers.resumed = [0])) = true ∧
      (mb.sent = mb.received ++ mb.mails ∧ mb.mails.length = mb.entry.toNat ∧
        mb.entry.toNat ≤ mb.size.toNat) := by
  obtain ⟨mb, hrun, hp⟩ := Run.exists_of_exec mbStep unconditional
    (rtMbCreate .fifo [0] 1 fun _ : Fin 3 => 10)
    [.call 0 (.recv (-1)), .call 1 (.send 7 0), .call 2 (.recv 0), .run 0 3, .call 1 (.send 8 0)]
    (fun mb => decide (mb.received = [7]) && decide (mb.receivers.resumed = [0])) (by decide)
  exact ⟨mb, hrun, hp, mailbox_fifo (by decide) hrun⟩

/-- No wake-up is lost: as long as threads are suspended, at least as many are on their way as
there are mails for the receivers, and free places for the senders. When nobody is on the way,
receivers wait for an empty mailbox only, and senders for a full one. -/
structure NoneForgotten (mb : Mailbox τ) : Prop where
  receivers : mb.receivers.suspended ≠ [] → mb.entry.toNat ≤ mb.receivers.resumed.length
  senders : mb.senders.suspended ≠ [] →
    mb.size.toNat - mb.entry.toNat ≤ mb.senders.resumed.length
  /-- Who is inside of a call, and is not going to return an error, is in the list for it. -/
  listed : ∀ t call, mb.phase t = .inside call false →
    t ∈ mb.receivers.all ∨ t ∈ mb.senders.all
  settled : mb.receivers.resumed = [] → mb.senders.resumed = [] →
    (mb.receivers.suspended ≠ [] → mb.entry = 0) ∧
      (mb.senders.suspended ≠ [] → mb.entry = mb.size)

end Runs

end Kernel
