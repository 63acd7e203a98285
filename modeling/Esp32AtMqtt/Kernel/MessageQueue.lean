import Esp32AtMqtt.Kernel.Ipc
import Esp32AtMqtt.Memory.Chain
import Esp32AtMqtt.Memory.Places
import Esp32AtMqtt.Transition.Mesa
import Esp32AtMqtt.Transition.Run
import Mathlib.Data.List.Forall2

/-!
# Message queues of the kernel

The messages of a queue of `src/ipc.c` are nodes of a pool, in the list of the queue or in the list
of those that are free. They are copied with the interrupts enabled: `rt_mq_send` takes a node from
the free list, fills it and puts it into the queue, `rt_mq_recv` takes it from the queue, copies it
out and gives it back. Between these steps the node is in no list, and other threads and interrupts
do the same with others.

A step is what a thread does without being interrupted, or one `rt_memcpy`; the timer of a suspended
thread; or a reset. `queued` and `returned` are history: the messages in the queue as they were
given to `rt_mq_send` and `rt_mq_urgent`, and what the calls returned.
-/

namespace Kernel

open Transition Mesa Linked

/-! ## The queue -/

/-- What a call returns. With `received`, `bytes` are in the buffer, and `message` was sent. -/
inductive MqReturn
  | ok
  | error
  | efull
  | etimeout
  | received (size : ℕ) (bytes message : List UInt8)
  deriving DecidableEq, Repr

/-- Where a thread is: in `rt_mq_send` or `rt_mq_urgent` with a node of the pool that it has `got`
or `filled`, in `rt_mq_recv` suspended or resumed, or there with a node that it has `fetched` or
`copied`. -/
inductive MqPhase
  | outside
  | got (msg : ℕ) (message : List UInt8) (urgent : Bool)
  | filled (msg : ℕ) (message : List UInt8) (urgent : Bool)
  | waiting (size : ℕ) (timeout : ℤ) (err : Option MqReturn)
  | fetched (msg : ℕ) (message : List UInt8) (size : ℕ)
  | copied (msg : ℕ) (result : MqReturn)
  deriving DecidableEq, Repr

namespace MqPhase

/-- The node that the thread has. -/
def held : MqPhase → Option ℕ
  | .got msg _ _ | .filled msg _ _ | .fetched msg _ _ | .copied msg _ => some msg
  | .outside | .waiting .. => none

/-- In `rt_mq_recv`, and not about to return an error. -/
def Receiving (p : MqPhase) : Prop := ∃ size timeout, p = .waiting size timeout none

end MqPhase

/-- `struct rt_messagequeue` and the threads. The nodes of the pool are numbered; `next` is their
header, `data` what is behind it. -/
structure MessageQueue (τ : Type*) where
  flag : IpcFlag
  msgSize : ℕ
  maxMsgs : UInt16
  next : ℕ → Option ℕ
  data : ℕ → List UInt8
  msgQueueHead : Option ℕ
  msgQueueTail : Option ℕ
  msgQueueFree : Option ℕ
  entry : UInt16
  receivers : Waiters τ
  priority : τ → UInt8
  phase : τ → MqPhase
  queued : List (List UInt8)
  returned : List (τ × MqReturn)

namespace MessageQueue

variable {τ : Type*}

/-- The loop of `rt_mq_create` and `rt_mq_control` puts a node into the free list. -/
def putFree (mq : MessageQueue τ) (msg : ℕ) : MessageQueue τ :=
  { mq with
    next := Function.update mq.next msg mq.msgQueueFree
    msgQueueFree := some msg }

end MessageQueue

/-- `rt_mq_create(name, msg_size, max_msgs, flag)` when it succeeds, and threads of these
priorities. `msgSize` is the rounded one. The pool is not cleared. -/
def rtMqCreate {τ : Type*} (flag : IpcFlag) (msgSize : ℕ) (maxMsgs : UInt16)
    (data : ℕ → List UInt8) (priority : τ → UInt8) : MessageQueue τ :=
  (List.range maxMsgs.toNat).foldl MessageQueue.putFree
    ⟨flag, msgSize, maxMsgs, fun _ => none, data, none, none, none, 0, .empty, priority,
      fun _ => .outside, [], []⟩

variable {τ : Type*} [DecidableEq τ]

namespace MessageQueue

def setPhase (mq : MessageQueue τ) (t : τ) (phase : MqPhase) : MessageQueue τ :=
  { mq with phase := Function.update mq.phase t phase }

/-- The call of `t` returns. -/
def returns (mq : MessageQueue τ) (t : τ) (result : MqReturn) : MessageQueue τ :=
  { mq with
    phase := Function.update mq.phase t .outside
    returned := mq.returned ++ [(t, result)] }

/-- `rt_mq_send(mq, buffer, size)` and `rt_mq_urgent(mq, buffer, size)` by the thread `t`, up to
where the interrupts are enabled. `none` where an assertion fails. -/
def rtMqSend (mq : MessageQueue τ) (t : τ) (message : List UInt8) (urgent : Bool) :
    Option (MessageQueue τ) :=
  if message.length = 0 then none
  else if mq.msgSize < message.length then some (mq.returns t .error)
  else
    match mq.msgQueueFree with
    | none => some (mq.returns t .efull)
    | some msg =>
        some ({ mq with msgQueueFree := mq.next msg }.setPhase t (.got msg message urgent))

/-- The message is copied into the node, whose link is cleared by `rt_mq_send` before. -/
def fill (mq : MessageQueue τ) (msg : ℕ) (message : List UInt8) (urgent : Bool) :
    MessageQueue τ :=
  { mq with
    next := if urgent then mq.next else Function.update mq.next msg none
    data := Function.update mq.data msg (message ++ (mq.data msg).drop message.length) }

/-- The node is put into the queue, by `rt_mq_urgent` in front, and a receiver is resumed. -/
def link (mq : MessageQueue τ) (msg : ℕ) (message : List UInt8) (urgent : Bool) :
    MessageQueue τ :=
  if urgent then
    { mq with
      next := Function.update mq.next msg mq.msgQueueHead
      msgQueueHead := some msg
      msgQueueTail := if mq.msgQueueTail = none then some msg else mq.msgQueueTail
      entry := mq.entry + 1
      receivers := mq.receivers.resume
      queued := message :: mq.queued }
  else
    { mq with
      next :=
        match mq.msgQueueTail with
        | some last => Function.update mq.next last (some msg)
        | none => mq.next
      msgQueueTail := some msg
      msgQueueHead := if mq.msgQueueHead = none then some msg else mq.msgQueueHead
      entry := mq.entry + 1
      receivers := mq.receivers.resume
      queued := mq.queued ++ [message] }

/-- The node `msg` is taken from the front of the queue. -/
def unlink (mq : MessageQueue τ) (msg : ℕ) : MessageQueue τ :=
  { mq with
    msgQueueHead := mq.next msg
    msgQueueTail := if mq.msgQueueTail = some msg then none else mq.msgQueueTail
    entry := mq.entry - 1
    queued := mq.queued.tail }

/-- The loop of `rt_mq_recv`: the thread `t` gets a node, returns an error, or is suspended. `none`
where a null pointer is dereferenced. -/
def loop (mq : MessageQueue τ) (t : τ) (size : ℕ) (timeout : ℤ) : Option (MessageQueue τ) :=
  if mq.entry = 0 then
    if timeout = 0 then some (mq.returns t .etimeout)
    else
      some ({ mq with
        receivers :=
          ⟨rtIpcListSuspend mq.flag mq.priority mq.receivers.suspended t,
            mq.receivers.resumed⟩ }.setPhase t (.waiting size timeout none))
  else
    mq.msgQueueHead.map fun msg =>
      (mq.unlink msg).setPhase t (.fetched msg (mq.queued.headD []) size)

/-- The loop of `rt_mq_control(mq, RT_IPC_CMD_RESET, …)`, with the rounds it may take. -/
def resetLoop : ℕ → MessageQueue τ → Option (MessageQueue τ)
  | 0, mq => if mq.msgQueueHead = none then some mq else none
  | rounds + 1, mq =>
      match mq.msgQueueHead with
      | none => some mq
      | some msg =>
          resetLoop rounds ({ mq with
            msgQueueHead := mq.next msg
            msgQueueTail := if mq.msgQueueTail = some msg then none else mq.msgQueueTail }.putFree
              msg)

/-- `rt_mq_control(mq, RT_IPC_CMD_RESET, …)`. -/
def rtMqControl (mq : MessageQueue τ) : Option (MessageQueue τ) :=
  (resetLoop mq.maxMsgs.toNat mq).map fun mq' =>
    { mq' with
      entry := 0
      receivers := ⟨[], mq.receivers.resumed⟩
      phase := fun t =>
        match mq.phase t with
        | .waiting size timeout none =>
            .waiting size timeout (if t ∈ mq.receivers.suspended then some .error else none)
        | phase => phase
      queued := [] }

end MessageQueue

inductive MqAction (τ : Type*)
  | send (t : τ) (message : List UInt8) (urgent : Bool)
  | recv (t : τ) (size : ℕ) (timeout : ℤ)
  | run (t : τ) (tickDelta : UInt32)
  | timeout (t : τ)
  | reset
  | control (t : τ) (priority : UInt8)

/-- One step. -/
def mqStep (mq : MessageQueue τ) : MqAction τ → Option (MessageQueue τ)
  | .send t message urgent =>
      if mq.phase t = .outside then mq.rtMqSend t message urgent else none
  | .recv t size timeout =>
      if mq.phase t = .outside ∧ size ≠ 0 then mq.loop t size timeout else none
  | .run t tickDelta =>
      match mq.phase t with
      | .outside => none
      | .got msg message urgent =>
          some ((mq.fill msg message urgent).setPhase t (.filled msg message urgent))
      | .filled msg message urgent => some ((mq.link msg message urgent).returns t .ok)
      | .waiting _ _ (some err) => some (mq.returns t err)
      | .waiting size timeout none =>
          if t ∈ mq.receivers.resumed then
            { mq with receivers := mq.receivers.run t }.loop t size (waitingTime timeout tickDelta)
          else none
      | .fetched msg message size =>
          some (mq.setPhase t (.copied msg
            (.received size ((mq.data msg).take (min size mq.msgSize)) message)))
      | .copied msg result => some ((mq.putFree msg).returns t result)
  | .timeout t =>
      match mq.phase t with
      | .waiting size timeout none =>
          if 0 < timeout ∧ t ∈ mq.receivers.suspended then
            some ({ mq with receivers := mq.receivers.leave t }.setPhase t
              (.waiting size timeout (some .etimeout)))
          else none
      | _ => none
  | .reset => mq.rtMqControl
  | .control t priority => some { mq with priority := Function.update mq.priority t priority }

/-! ## The lists -/

/-- The buffer begins with the message, as much of it as was asked for. -/
def MqReturn.Intact : MqReturn → Prop
  | .received size bytes message => message.take size <+: bytes
  | _ => True

theorem MqReturn.intact_ok : MqReturn.ok.Intact := trivial

namespace MessageQueue

section Lists

omit [DecidableEq τ]

/-- The message is in the node. What is behind it is older. -/
def Holds (mq : MessageQueue τ) (msg : ℕ) (message : List UInt8) : Prop :=
  message <+: mq.data msg ∧ message.length ≤ mq.msgSize

def PhaseOk (mq : MessageQueue τ) : MqPhase → Prop
  | .got _ message _ => message.length ≤ mq.msgSize
  | .filled msg message urgent => mq.Holds msg message ∧ (urgent = false → mq.next msg = none)
  | .fetched msg message _ => mq.Holds msg message
  | .copied _ result => result.Intact
  | .waiting _ _ (some err) => err.Intact
  | _ => True

/-- The nodes of the queue and the free ones. -/
structure Lists (mq : MessageQueue τ) (q f : List ℕ) : Prop where
  queue : Path mq.next mq.msgQueueHead q none
  tail : mq.msgQueueTail = q.getLast?
  free : Path mq.next mq.msgQueueFree f none
  entry : mq.entry.toNat = q.length
  own : Own mq.maxMsgs.toNat q f (MqPhase.held ∘ mq.phase)
  queued : List.Forall₂ mq.Holds q mq.queued
  phases : ∀ t, mq.PhaseOk (mq.phase t)
  returned : ∀ r ∈ mq.returned, r.2.Intact

variable {mq mq' : MessageQueue τ} {q f : List ℕ} {t : τ} {msg : ℕ} {p : MqPhase}

/-- Only the node that a thread has matters to it. -/
theorem PhaseOk.congr (h : mq.PhaseOk p) (hsize : mq'.msgSize = mq.msgSize)
    (hnode : ∀ n, p.held = some n → mq'.next n = mq.next n ∧ mq'.data n = mq.data n) :
    mq'.PhaseOk p := by
  cases p with
  | outside => trivial
  | got n message urgent =>
      rw [PhaseOk, hsize]
      exact h
  | filled n message urgent =>
      obtain ⟨hnext, hdata⟩ := hnode n rfl
      rw [PhaseOk, Holds, hdata, hnext, hsize]
      exact h
  | waiting size timeout err =>
      cases err with
      | none => trivial
      | some err => exact h
  | fetched n message size =>
      rw [PhaseOk, Holds, (hnode n rfl).2, hsize]
      exact h
  | copied n result => exact h

theorem Lists.setReceivers (h : mq.Lists q f) (w : Waiters τ) :
    Lists { mq with receivers := w } q f :=
  ⟨h.queue, h.tail, h.free, h.entry, h.own, h.queued, h.phases, h.returned⟩

theorem Lists.log (h : mq.Lists q f) (t : τ) {result : MqReturn} (hresult : result.Intact) :
    Lists { mq with returned := mq.returned ++ [(t, result)] } q f := by
  refine ⟨h.queue, h.tail, h.free, h.entry, h.own, h.queued, h.phases, fun r hr => ?_⟩
  rcases List.mem_append.mp hr with hr | hr
  · exact h.returned r hr
  · obtain rfl := List.mem_singleton.mp hr
    exact hresult

/-- The number of messages does not wrap. -/
theorem Lists.length_le (h : mq.Lists q f) : q.length ≤ mq.maxMsgs.toNat := by
  have hsub : q ⊆ List.range mq.maxMsgs.toNat := fun n hn =>
    List.mem_range.mpr ((h.own.all n).mpr (.inl hn))
  have hle := (h.queue.nodup.subperm hsub).length_le
  rwa [List.length_range] at hle

end Lists

section Steps

variable {mq mq' : MessageQueue τ} {q f : List ℕ} {t : τ} {msg : ℕ} {p : MqPhase}

theorem held_setPhase (mq : MessageQueue τ) (t : τ) (p : MqPhase) :
    MqPhase.held ∘ (mq.setPhase t p).phase =
      Function.update (MqPhase.held ∘ mq.phase) t p.held :=
  Function.comp_update ..

theorem phases_update (hok : mq'.PhaseOk p)
    (hothers : ∀ u, u ≠ t → mq'.PhaseOk (mq.phase u)) (u : τ) :
    mq'.PhaseOk (Function.update mq.phase t p u) := by
  by_cases hut : u = t
  · subst hut
    rw [Function.update_self]
    exact hok
  · rw [Function.update_of_ne hut]
    exact hothers u hut

/-- A thread goes on with the node that it has. -/
theorem Lists.setPhase (h : mq.Lists q f) (hheld : p.held = (mq.phase t).held)
    (hok : mq.PhaseOk p) : (mq.setPhase t p).Lists q f := by
  refine ⟨h.queue, h.tail, h.free, h.entry, ?_, h.queued,
    phases_update hok fun u _ => h.phases u, h.returned⟩
  rw [held_setPhase, hheld]
  exact (Function.update_eq_self t (MqPhase.held ∘ mq.phase)).symm ▸ h.own

theorem Lists.result (h : (mq.setPhase t .outside).Lists q f) {result : MqReturn}
    (hresult : result.Intact) : (mq.returns t result).Lists q f :=
  h.log t hresult

theorem Lists.returns (h : mq.Lists q f) (hheld : (mq.phase t).held = none) {result : MqReturn}
    (hresult : result.Intact) : (mq.returns t result).Lists q f :=
  (h.setPhase (p := .outside) hheld.symm trivial).result hresult

omit [DecidableEq τ] in
/-- The node of a thread is in no list, and no other thread has it. -/
theorem Lists.mine (h : mq.Lists q f) (ht : (mq.phase t).held = some msg) :
    msg ∉ q ∧ msg ∉ f ∧ ∀ u, u ≠ t → ∀ n, (mq.phase u).held = some n → n ≠ msg := by
  obtain ⟨hq, hf⟩ := h.own.held t msg ht
  refine ⟨hq, hf, fun u hut n hu heq => hut (h.own.one u t msg ?_ ht)⟩
  exact heq ▸ hu

theorem Lists.send (h : mq.Lists q f) (hout : mq.phase t = .outside) {message : List UInt8}
    {urgent : Bool} (hsend : mq.rtMqSend t message urgent = some mq') : ∃ f', mq'.Lists q f' := by
  have hheld : (mq.phase t).held = none := hout ▸ rfl
  rw [rtMqSend] at hsend
  split_ifs at hsend with hzero hlong
  · exact ⟨f, Option.some.inj hsend ▸ h.returns hheld trivial⟩
  · split at hsend
    case h_1 => exact ⟨f, Option.some.inj hsend ▸ h.returns hheld trivial⟩
    case h_2 n hfree =>
      obtain rfl := Option.some.inj hsend
      cases f with
      | nil => exact nomatch hfree.symm.trans (path_nil.mp h.free)
      | cons m f =>
          obtain ⟨hm, hpath⟩ := path_cons.mp h.free
          obtain rfl := Option.some.inj (hfree.symm.trans hm)
          have hnot := (List.nodup_cons.mp h.free.nodup).1
          refine ⟨f, h.queue, h.tail, hpath, h.entry, ?_, h.queued,
            phases_update (Nat.not_lt.mp hlong) fun u _ => h.phases u, h.returned⟩
          rw [held_setPhase]
          exact (h.own.swap.take hnot hheld).swap

omit [DecidableEq τ] in
/-- Another node is written, or the link of another node. -/
theorem Holds.congr {message : List UInt8} (h : mq.Holds msg message)
    (hsize : mq'.msgSize = mq.msgSize) (hdata : mq'.data msg = mq.data msg) :
    mq'.Holds msg message := by
  rw [Holds, hdata, hsize]
  exact h

omit [DecidableEq τ] in
theorem queued_congr {messages : List (List UInt8)} (h : List.Forall₂ mq.Holds q messages)
    (hsize : mq'.msgSize = mq.msgSize) (hdata : ∀ n ∈ q, mq'.data n = mq.data n) :
    List.Forall₂ mq'.Holds q messages :=
  ((List.forall₂_and_left q messages).mpr ⟨hdata, h⟩).imp fun _ _ hn => hn.2.congr hsize hn.1

theorem Lists.fill (h : mq.Lists q f) {message : List UInt8} {urgent : Bool}
    (hphase : mq.phase t = .got msg message urgent) :
    ((mq.fill msg message urgent).setPhase t (.filled msg message urgent)).Lists q f := by
  have ht : (mq.phase t).held = some msg := hphase ▸ rfl
  obtain ⟨hq, hf, hothers⟩ := h.mine ht
  have hlength : message.length ≤ mq.msgSize := by
    have hok := h.phases t
    rwa [hphase] at hok
  have hnext : ∀ n, n ≠ msg → (mq.fill msg message urgent).next n = mq.next n := by
    intro n hn
    simp only [MessageQueue.fill]
    split_ifs
    · rfl
    · exact Function.update_of_ne hn _ _
  have hdata : ∀ n, n ≠ msg → (mq.fill msg message urgent).data n = mq.data n := fun n hn =>
    Function.update_of_ne hn _ _
  have hpath : ∀ {a xs}, msg ∉ xs → Path mq.next a xs none →
      Path (mq.fill msg message urgent).next a xs none := fun hxs hpath =>
    (path_congr fun n hn => hnext n (ne_of_mem_of_not_mem hn hxs)).mpr hpath
  refine ⟨hpath hq h.queue, h.tail, hpath hf h.free, h.entry, ?_, ?_, phases_update ⟨?_, ?_⟩ ?_,
    h.returned⟩
  · have hself : (MqPhase.filled msg message urgent).held = (MqPhase.held ∘ mq.phase) t := ht.symm
    rw [held_setPhase, hself]
    exact (Function.update_eq_self t (MqPhase.held ∘ mq.phase)).symm ▸ h.own
  · exact queued_congr h.queued rfl fun n hn => hdata n (ne_of_mem_of_not_mem hn hq)
  · refine ⟨?_, hlength⟩
    show message <+: Function.update mq.data msg _ msg
    rw [Function.update_self]
    exact List.prefix_append message _
  · intro hurgent
    show (if urgent then mq.next else Function.update mq.next msg none) msg = none
    rw [hurgent, if_neg Bool.false_ne_true, Function.update_self]
  · intro u hut
    exact (h.phases u).congr rfl fun n hn =>
      ⟨hnext n (hothers u hut n hn), hdata n (hothers u hut n hn)⟩

/-- The last node, when the first one is taken. -/
theorem getLast?_behind (hnot : msg ∉ q) :
    (if (msg :: q).getLast? = some msg then none else (msg :: q).getLast?) = q.getLast? := by
  cases q with
  | nil => exact if_pos rfl
  | cons y ys =>
      rw [List.getLast?_cons_cons]
      exact if_neg fun hlast => hnot (List.mem_of_getLast? hlast)

omit [DecidableEq τ] in
/-- There is room for the number of the messages. -/
theorem Lists.toNat_entry (h : mq.Lists q f) (hroom : q.length < mq.maxMsgs.toNat) :
    (mq.entry + 1).toNat = q.length + 1 := by
  have hmax := mq.maxMsgs.toNat_lt
  rw [UInt16.toNat_add, h.entry]
  exact Nat.mod_eq_of_lt (by simp only [UInt16.reduceToNat]; omega)

theorem toNat_entry_sub {entry : UInt16} (hsome : entry ≠ 0) :
    (entry - 1).toNat = entry.toNat - 1 := by
  have hne : entry.toNat ≠ 0 := fun hzero => hsome (UInt16.toNat_inj.mp hzero)
  have hone : (1 : UInt16) ≤ entry := by
    rw [UInt16.le_iff_toNat_le]
    exact Nat.one_le_iff_ne_zero.mpr hne
  rw [UInt16.toNat_sub_of_le _ _ hone]
  rfl

omit [DecidableEq τ] in
/-- A node that is in a hand is not in the queue, which is therefore not full. -/
theorem Lists.length_lt (h : mq.Lists q f) (ht : (mq.phase t).held = some msg) :
    q.length < mq.maxMsgs.toNat := by
  have hq := (h.mine ht).1
  have hsub : msg :: q ⊆ List.range mq.maxMsgs.toNat := by
    intro n hn
    rw [List.mem_range, h.own.all]
    rcases List.mem_cons.mp hn with rfl | hn
    · exact .inr (.inr ⟨t, ht⟩)
    · exact .inl hn
  have hle := ((List.nodup_cons.mpr ⟨hq, h.queue.nodup⟩).subperm hsub).length_le
  rwa [List.length_range, List.length_cons] at hle

theorem Lists.link_urgent (h : mq.Lists q f) {message : List UInt8}
    (hphase : mq.phase t = .filled msg message true) :
    ((mq.link msg message true).setPhase t .outside).Lists (msg :: q) f := by
  have ht : (mq.phase t).held = some msg := hphase ▸ rfl
  obtain ⟨hq, hf, hothers⟩ := h.mine ht
  have hok := h.phases t
  rw [hphase] at hok
  refine ⟨h.queue.push hq, ?_, (path_update hf _).mpr h.free, h.toNat_entry (h.length_lt ht), ?_,
    .cons hok.1 h.queued, phases_update trivial fun u hut => ?_, h.returned⟩
  · show (if mq.msgQueueTail = none then some msg else mq.msgQueueTail) = (msg :: q).getLast?
    rw [h.tail, List.getLast?_cons]
    cases q.getLast? <;> rfl
  · rw [held_setPhase]
    exact h.own.give ht fun m => List.mem_cons
  · exact (h.phases u).congr rfl fun n hn =>
      ⟨Function.update_of_ne (hothers u hut n hn) _ _, rfl⟩

theorem Lists.link_behind (h : mq.Lists q f) {message : List UInt8}
    (hphase : mq.phase t = .filled msg message false) :
    ((mq.link msg message false).setPhase t .outside).Lists (q ++ [msg]) f := by
  have ht : (mq.phase t).held = some msg := hphase ▸ rfl
  obtain ⟨hq, hf, hothers⟩ := h.mine ht
  have hok := h.phases t
  rw [hphase] at hok
  have hnext : mq.next msg = none := hok.2 rfl
  have hentry := h.toNat_entry (h.length_lt ht)
  have hown : Own mq.maxMsgs.toNat (q ++ [msg]) f
      (MqPhase.held ∘ ((mq.link msg message false).setPhase t .outside).phase) := by
    rw [held_setPhase]
    refine h.own.give ht fun m => ?_
    rw [List.mem_append, List.mem_singleton, or_comm]
  have hqueued : List.Forall₂ mq.Holds (q ++ [msg]) (mq.queued ++ [message]) :=
    List.rel_append h.queued (.cons hok.1 .nil)
  rcases List.eq_nil_or_concat' q with rfl | ⟨xs, x, rfl⟩
  · have hhead : mq.msgQueueHead = none := path_nil.mp h.queue
    have htail : mq.msgQueueTail = none := h.tail
    have hlink : (mq.link msg message false).next = mq.next := by
      simp only [MessageQueue.link, htail, Bool.false_eq_true, if_false]
    refine ⟨?_, List.getLast?_concat.symm, ?_, ?_, hown, hqueued, ?_, h.returned⟩
    · show Path (mq.link msg message false).next
        (if mq.msgQueueHead = none then some msg else mq.msgQueueHead) [msg] none
      rw [hlink, if_pos hhead]
      exact ⟨rfl, hnext⟩
    · show Path (mq.link msg message false).next mq.msgQueueFree f none
      rw [hlink]
      exact h.free
    · exact hentry
    · refine phases_update trivial fun u _ => (h.phases u).congr rfl fun n _ => ⟨?_, rfl⟩
      exact congrFun hlink n
  · have htail : mq.msgQueueTail = some x := h.tail.trans List.getLast?_concat
    have hhead : mq.msgQueueHead ≠ none := fun hnone => by
      have hnil := h.queue.eq_head?.symm.trans hnone
      exact List.append_ne_nil_of_right_ne_nil xs (List.cons_ne_nil x [])
        (List.head?_eq_none_iff.mp hnil)
    have hin : x ∈ xs ++ [x] := List.mem_append_right xs List.mem_cons_self
    have hlink : (mq.link msg message false).next = Function.update mq.next x (some msg) := by
      simp only [MessageQueue.link, htail, Bool.false_eq_true, if_false]
    refine ⟨?_, List.getLast?_concat.symm, ?_, ?_, hown, hqueued, ?_, h.returned⟩
    · show Path (mq.link msg message false).next
        (if mq.msgQueueHead = none then some msg else mq.msgQueueHead) (xs ++ [x] ++ [msg]) none
      rw [hlink, if_neg hhead, List.append_assoc]
      exact h.queue.link hq hnext
    · show Path (mq.link msg message false).next mq.msgQueueFree f none
      rw [hlink]
      exact (path_update (h.own.apart x hin) _).mpr h.free
    · rw [List.length_append, List.length_singleton]
      exact hentry
    · refine phases_update trivial fun u _ => (h.phases u).congr rfl fun n hn => ⟨?_, rfl⟩
      refine (congrFun hlink n).trans (Function.update_of_ne ?_ _ _)
      exact (ne_of_mem_of_not_mem hin (h.own.held u n hn).1).symm

/-- The first message of the queue is taken. -/
theorem Lists.fetch (h : mq.Lists (msg :: q) f) (hheld : (mq.phase t).held = none) (size : ℕ) :
    ((mq.unlink msg).setPhase t (.fetched msg (mq.queued.headD []) size)).Lists q f := by
  obtain ⟨hnot, hnodup⟩ := List.nodup_cons.mp h.queue.nodup
  have hsome : mq.entry ≠ 0 := fun hzero => by
    have hentry := h.entry
    rw [hzero] at hentry
    exact nomatch hentry
  generalize hmessages : mq.queued = messages
  have hqueued := h.queued
  rw [hmessages] at hqueued
  cases hqueued with
  | @cons _ message _ messages hmessage hqueued =>
      refine ⟨h.queue.2, ?_, h.free, ?_, ?_, ?_,
        phases_update hmessage fun u _ => h.phases u, h.returned⟩
      · show (if mq.msgQueueTail = some msg then none else mq.msgQueueTail) = q.getLast?
        rw [h.tail]
        exact getLast?_behind hnot
      · show (mq.entry - 1).toNat = q.length
        rw [toNat_entry_sub hsome, h.entry]
        rfl
      · rw [held_setPhase]
        exact h.own.take hnot hheld
      · show List.Forall₂ mq.Holds q mq.queued.tail
        rw [hmessages]
        exact hqueued

omit [DecidableEq τ] in
/-- With messages in the queue the head is not null. -/
theorem Lists.head_of_entry (h : mq.Lists q f) (hsome : mq.entry ≠ 0) :
    ∃ msg q', q = msg :: q' ∧ mq.msgQueueHead = some msg := by
  cases q with
  | nil => exact absurd (UInt16.toNat_inj.mp h.entry) hsome
  | cons msg q => exact ⟨msg, q, rfl, h.queue.1⟩

theorem Lists.loop (h : mq.Lists q f) (hheld : (mq.phase t).held = none) (size : ℕ)
    (timeout : ℤ) : ∃ mq' q', mq.loop t size timeout = some mq' ∧ mq'.Lists q' f := by
  rw [MessageQueue.loop]
  split_ifs with hempty htimeout
  · exact ⟨_, q, rfl, h.returns hheld trivial⟩
  · exact ⟨_, q, rfl, (h.setReceivers _).setPhase hheld.symm trivial⟩
  · obtain ⟨msg, q', rfl, hhead⟩ := h.head_of_entry hempty
    exact ⟨_, q', congrArg (Option.map _) hhead, h.fetch hheld size⟩

omit [DecidableEq τ] in
/-- What is copied out begins with the message. -/
theorem Holds.intact {message : List UInt8} (h : mq.Holds msg message) (size : ℕ) :
    (MqReturn.received size ((mq.data msg).take (min size mq.msgSize)) message).Intact := by
  have hcut : message.take size = message.take (min size mq.msgSize) := by
    rcases Nat.le_total size mq.msgSize with hle | hle
    · rw [Nat.min_eq_left hle]
    · rw [Nat.min_eq_right hle, List.take_of_length_le (h.2.trans hle),
        List.take_of_length_le h.2]
  show message.take size <+: _
  rw [hcut]
  exact h.1.take _

theorem Lists.giveBack (h : mq.Lists q f) {result : MqReturn}
    (hphase : mq.phase t = .copied msg result) :
    ((mq.putFree msg).returns t result).Lists q (msg :: f) := by
  have ht : (mq.phase t).held = some msg := hphase ▸ rfl
  obtain ⟨hq, hf, hothers⟩ := h.mine ht
  have hok := h.phases t
  rw [hphase] at hok
  have hput : ((mq.putFree msg).setPhase t .outside).Lists q (msg :: f) := by
    refine ⟨(path_update hq _).mpr h.queue, h.tail, h.free.push hf, h.entry, ?_, h.queued,
      phases_update trivial fun u hut => ?_, h.returned⟩
    · rw [held_setPhase]
      exact (h.own.swap.give ht fun m => List.mem_cons).swap
    · exact (h.phases u).congr rfl fun n hn =>
        ⟨Function.update_of_ne (hothers u hut n hn) _ _, rfl⟩
  exact hput.result hok

omit [DecidableEq τ] in
/-- The loop of a reset ends, and puts the messages into the free list. -/
theorem resetLoop_eq {rounds : ℕ} (hqueue : Path mq.next mq.msgQueueHead q none)
    (hfree : Path mq.next mq.msgQueueFree f none) (htail : mq.msgQueueTail = q.getLast?)
    {hand : τ → Option ℕ} {bound : ℕ} (hown : Own bound q f hand) (hrounds : q.length ≤ rounds) :
    ∃ next free f', resetLoop rounds mq = some { mq with
        next := next
        msgQueueHead := none
        msgQueueTail := none
        msgQueueFree := free } ∧
      Path next free f' none ∧ (∀ n, n ∉ q → next n = mq.next n) ∧ Own bound [] f' hand := by
  induction q generalizing mq f rounds with
  | nil =>
      have hhead : mq.msgQueueHead = none := path_nil.mp hqueue
      have hlast : mq.msgQueueTail = none := htail
      have hself : mq = { mq with
          msgQueueHead := none
          msgQueueTail := none } := by
        cases mq
        simp only at hhead hlast
        rw [hhead, hlast]
      refine ⟨mq.next, mq.msgQueueFree, f, ?_, hfree, fun n _ => rfl, hown⟩
      rw [← hself]
      cases rounds with
      | zero => exact if_pos hhead
      | succ rounds => simp only [resetLoop, hhead]
  | cons msg q ih =>
      obtain ⟨hnot, -⟩ := List.nodup_cons.mp hqueue.nodup
      obtain ⟨rounds, rfl⟩ : ∃ n, rounds = n + 1 :=
        ⟨rounds - 1, by rw [List.length_cons] at hrounds; omega⟩
      have hmsg := hown.apart msg List.mem_cons_self
      have hlast : (if mq.msgQueueTail = some msg then none else mq.msgQueueTail) = q.getLast? := by
        rw [htail]
        exact getLast?_behind hnot
      obtain ⟨next, free, f', hloop, hpath, hnext, hown'⟩ := @ih ({ mq with
          msgQueueHead := mq.next msg
          msgQueueTail := if mq.msgQueueTail = some msg then none else mq.msgQueueTail }.putFree
            msg) (msg :: f) rounds
        ((path_update hnot _).mpr hqueue.2) (hfree.push hmsg) hlast (hown.move hnot)
        (Nat.succ_le_succ_iff.mp hrounds)
      refine ⟨next, free, f', ?_, hpath, fun n hn => ?_, hown'⟩
      · simp only [resetLoop, hqueue.1]
        exact hloop
      · obtain ⟨hne, hn⟩ := not_or.mp fun hor => hn (List.mem_cons.mpr hor)
        exact (hnext n hn).trans (Function.update_of_ne hne _ _)

theorem Lists.control (h : mq.Lists q f) :
    ∃ mq' f', mq.rtMqControl = some mq' ∧ mq'.Lists [] f' := by
  obtain ⟨next, free, f', hloop, hpath, hnext, hown⟩ :=
    resetLoop_eq h.queue h.free h.tail h.own h.length_le
  have hheld : ∀ t, (match mq.phase t with
      | .waiting size timeout none =>
          MqPhase.waiting size timeout (if t ∈ mq.receivers.suspended then some .error else none)
      | phase => phase).held = (mq.phase t).held := by
    intro t
    split
    next hphase =>
      rw [hphase]
      rfl
    next => rfl
  refine ⟨_, f', congrArg (Option.map _) hloop, rfl, rfl, hpath, rfl, ?_, .nil, fun t => ?_,
    h.returned⟩
  · show Own mq.maxMsgs.toNat [] f' fun t => (match mq.phase t with
      | .waiting size timeout none =>
          MqPhase.waiting size timeout (if t ∈ mq.receivers.suspended then some .error else none)
      | phase => phase).held
    simp only [hheld]
    exact hown
  · simp only
    split
    next size timeout hphase =>
      split_ifs
      · trivial
      · trivial
    next hphase =>
      exact (h.phases t).congr rfl fun n hn => ⟨hnext n (h.own.held t n hn).1, rfl⟩

/-- One step. -/
theorem Lists.step (h : mq.Lists q f) {a : MqAction τ} (hstep : mqStep mq a = some mq') :
    ∃ q' f', mq'.Lists q' f' := by
  cases a with
  | send t message urgent =>
      obtain ⟨hout, hsend⟩ := Option.ite_none_right_eq_some.mp hstep
      exact ⟨q, h.send hout hsend⟩
  | recv t size timeout =>
      obtain ⟨⟨hout, -⟩, hloop⟩ := Option.ite_none_right_eq_some.mp hstep
      obtain ⟨_, q', hloop', h'⟩ := h.loop (t := t) (hout ▸ rfl) size timeout
      exact ⟨q', f, Option.some.inj (hloop'.symm.trans hloop) ▸ h'⟩
  | run t tickDelta =>
      have hok := h.phases t
      rw [mqStep] at hstep
      split at hstep
      case h_1 => exact nomatch hstep
      case h_2 hphase => exact ⟨q, f, Option.some.inj hstep ▸ h.fill hphase⟩
      case h_3 msg message urgent hphase =>
        cases urgent with
        | true =>
            exact ⟨_, f, Option.some.inj hstep ▸ (h.link_urgent hphase).result MqReturn.intact_ok⟩
        | false =>
            exact ⟨_, f, Option.some.inj hstep ▸ (h.link_behind hphase).result MqReturn.intact_ok⟩
      case h_4 err hphase =>
        rw [hphase] at hok
        exact ⟨q, f, Option.some.inj hstep ▸ h.returns (hphase ▸ rfl) hok⟩
      case h_5 size timeout hphase =>
        obtain ⟨-, hloop⟩ := Option.ite_none_right_eq_some.mp hstep
        obtain ⟨_, q', hloop', h'⟩ := (h.setReceivers (mq.receivers.run t)).loop (t := t)
          (hphase ▸ rfl) size (waitingTime timeout tickDelta)
        exact ⟨q', f, Option.some.inj (hloop'.symm.trans hloop) ▸ h'⟩
      case h_6 msg message size hphase =>
        rw [hphase] at hok
        exact ⟨q, f, Option.some.inj hstep ▸ h.setPhase (hphase ▸ rfl) (Holds.intact hok size)⟩
      case h_7 msg result hphase => exact ⟨q, _, Option.some.inj hstep ▸ h.giveBack hphase⟩
  | timeout t =>
      rw [mqStep] at hstep
      split at hstep
      case h_1 size timeout hphase =>
        obtain ⟨-, hstep⟩ := Option.ite_none_right_eq_some.mp hstep
        exact ⟨q, f, Option.some.inj hstep ▸
          (h.setReceivers (mq.receivers.leave t)).setPhase (hphase ▸ rfl) trivial⟩
      case h_2 => exact nomatch hstep
  | reset =>
      obtain ⟨_, f', hcontrol, h'⟩ := h.control
      exact ⟨[], f', Option.some.inj (hcontrol.symm.trans hstep) ▸ h'⟩
  | control t priority =>
      exact ⟨q, f, Option.some.inj hstep ▸
        ⟨h.queue, h.tail, h.free, h.entry, h.own, h.queued, h.phases, h.returned⟩⟩

omit [DecidableEq τ] in
/-- The nodes of a new queue are free. -/
theorem rtMqCreate_eq (flag : IpcFlag) (msgSize : ℕ) (maxMsgs : UInt16) (data : ℕ → List UInt8)
    (priority : τ → UInt8) : ∃ next free f,
      rtMqCreate flag msgSize maxMsgs data priority =
        ⟨flag, msgSize, maxMsgs, next, data, none, none, free, 0, .empty, priority,
          fun _ => .outside, [], []⟩ ∧
      Path next free f none ∧ ∀ m, m ∈ f ↔ m < maxMsgs.toNat := by
  unfold rtMqCreate
  induction maxMsgs.toNat with
  | zero => exact ⟨_, _, [], rfl, rfl, fun m => by simp⟩
  | succ n ih =>
      obtain ⟨next, free, f, heq, hpath, hmem⟩ := ih
      have hnot : n ∉ f := fun hn => absurd ((hmem n).mp hn) (Nat.lt_irrefl n)
      refine ⟨Function.update next n free, some n, n :: f, ?_, hpath.push hnot, fun m => ?_⟩
      · rw [List.range_succ, List.foldl_append, heq]
        rfl
      · rw [List.mem_cons, hmem]
        omega

omit [DecidableEq τ] in
theorem lists_create (flag : IpcFlag) (msgSize : ℕ) (maxMsgs : UInt16) (data : ℕ → List UInt8)
    (priority : τ → UInt8) : ∃ f, (rtMqCreate flag msgSize maxMsgs data priority).Lists [] f := by
  obtain ⟨next, free, f, heq, hpath, hmem⟩ := rtMqCreate_eq flag msgSize maxMsgs data priority
  refine ⟨f, ?_⟩
  rw [heq]
  refine ⟨rfl, rfl, hpath, rfl, ⟨fun m => ?_, fun m hm => absurd hm List.not_mem_nil,
    fun t m ht => (nomatch ht), fun t u m ht => (nomatch ht)⟩, .nil, fun t => trivial,
    fun r hr => absurd hr List.not_mem_nil⟩
  constructor
  · exact fun hm => .inr (.inl ((hmem m).mpr hm))
  · rintro (hm | hm | ⟨t, ht⟩)
    · exact absurd hm List.not_mem_nil
    · exact (hmem m).mp hm
    · exact nomatch ht

end Steps

/-! ## The threads -/

section Threads

variable {mq mq' : MessageQueue τ} {q f : List ℕ} {t : τ} {p : MqPhase}

/-- Every thread that waits in `rt_mq_recv` is in the list, and none is forgotten while there is a
message for it. -/
structure WaitOk (mq : MessageQueue τ) : Prop where
  receiving : mq.receivers.Listed fun u => (mq.phase u).Receiving
  awake : mq.receivers.Awake mq.entry.toNat

theorem not_receiving_of_ne (h : ∀ size timeout, p ≠ .waiting size timeout none) :
    ¬ p.Receiving := fun ⟨size, timeout, heq⟩ => h size timeout heq

theorem not_receiving_of_eq {p' : MqPhase} (h : p' = p)
    (hp : ∀ size timeout, p ≠ .waiting size timeout none) : ¬ p'.Receiving :=
  h ▸ not_receiving_of_ne hp

/-- A thread that is in no list goes on, and does not wait. -/
theorem Listed.setPhase {w : Waiters τ} (h : w.Listed fun u => u ≠ t ∧ (mq.phase u).Receiving)
    (hp : ¬ p.Receiving) : w.Listed fun u => (Function.update mq.phase t p u).Receiving :=
  h.congr (Waiters.update_iff_of_not hp)

/-- A thread goes on that was in no list. -/
theorem WaitOk.goesOn (h : mq.WaitOk) (ht : ¬ (mq.phase t).Receiving)
    (hphase : mq'.phase = Function.update mq.phase t p)
    (hreceivers : mq'.receivers = mq.receivers) (hentry : mq'.entry = mq.entry)
    (hp : ¬ p.Receiving) : mq'.WaitOk := by
  refine ⟨?_, ?_⟩
  · rw [hreceivers, hphase]
    exact Listed.setPhase (h.receiving.aside ht) hp
  · rw [hreceivers, hentry]
    exact h.awake

/-- The loop of `rt_mq_recv`. Of the threads on their way one may be missing, who is here. -/
theorem WaitOk.loop (hlook : mq.receivers.Listed fun u => u ≠ t ∧ (mq.phase u).Receiving)
    (hawake : mq.receivers.Awake (mq.entry.toNat - 1)) {size : ℕ} {timeout : ℤ}
    (hloop : mq.loop t size timeout = some mq') : mq'.WaitOk := by
  rw [MessageQueue.loop] at hloop
  split_ifs at hloop with hempty htimeout
  · obtain rfl := Option.some.inj hloop
    refine ⟨Listed.setPhase hlook (not_receiving_of_ne nofun), ?_⟩
    show mq.receivers.Awake mq.entry.toNat
    rw [hempty]
    exact Waiters.awake_zero _
  · obtain rfl := Option.some.inj hloop
    refine ⟨?_, ?_⟩
    · have hperm : (Waiters.mk (rtIpcListSuspend mq.flag mq.priority mq.receivers.suspended t)
          mq.receivers.resumed).all.Perm (t :: mq.receivers.all) :=
        (perm_rtIpcListSuspend ..).append_right mq.receivers.resumed
      exact (hlook.join hperm fun hself => hself.1 rfl).congr
        (Waiters.update_iff_of ⟨size, timeout, rfl⟩)
    · show Waiters.Awake mq.entry.toNat _
      rw [hempty]
      exact Waiters.awake_zero _
  · obtain ⟨msg, -, rfl⟩ := Option.map_eq_some_iff.mp hloop
    refine ⟨Listed.setPhase hlook (not_receiving_of_ne nofun), ?_⟩
    show mq.receivers.Awake (mq.entry - 1).toNat
    rw [toNat_entry_sub hempty]
    exact hawake

/-- A receiver is resumed for the message that is put into the queue. -/
theorem WaitOk.link (h : mq.WaitOk) (hlists : mq.Lists q f) {msg : ℕ} {message : List UInt8}
    {urgent : Bool} (hphase : mq.phase t = .filled msg message urgent) :
    ((mq.link msg message urgent).returns t .ok).WaitOk := by
  have ht : (mq.phase t).held = some msg := hphase ▸ rfl
  have hentry := hlists.toNat_entry (hlists.length_lt ht)
  have hawake : mq.receivers.resume.Awake (mq.entry + 1).toNat := by
    rw [hentry, ← hlists.entry]
    exact h.awake.resume
  have hlisted : mq.receivers.resume.Listed fun u =>
      (Function.update mq.phase t .outside u).Receiving :=
    Listed.setPhase (h.receiving.resume.aside (not_receiving_of_eq hphase nofun))
      (not_receiving_of_ne nofun)
  cases urgent with
  | true => exact ⟨hlisted, hawake⟩
  | false => exact ⟨hlisted, hawake⟩

theorem WaitOk.control (h : mq.WaitOk) (hcontrol : mq.rtMqControl = some mq') : mq'.WaitOk := by
  obtain ⟨mq₁, -, rfl⟩ := Option.map_eq_some_iff.mp hcontrol
  refine ⟨h.receiving.flush.congr fun u => ?_, Waiters.awake_zero _⟩
  simp only [MqPhase.Receiving]
  cases hphase : mq.phase u with
  | waiting size timeout err =>
      cases err with
      | none => by_cases hu : u ∈ mq.receivers.suspended <;> simp [hu]
      | some err => simp
  | outside | got | filled | fetched | copied => simp

theorem WaitOk.send (h : mq.WaitOk) (hout : mq.phase t = .outside) {message : List UInt8}
    {urgent : Bool} (hsend : mq.rtMqSend t message urgent = some mq') : mq'.WaitOk := by
  have ht : ¬ (mq.phase t).Receiving := not_receiving_of_eq hout nofun
  rw [rtMqSend] at hsend
  split_ifs at hsend
  · obtain rfl := Option.some.inj hsend
    exact h.goesOn ht rfl rfl rfl (not_receiving_of_ne nofun)
  · split at hsend
    case h_1 =>
      obtain rfl := Option.some.inj hsend
      exact h.goesOn ht rfl rfl rfl (not_receiving_of_ne nofun)
    case h_2 msg _ =>
      obtain rfl := Option.some.inj hsend
      exact h.goesOn ht rfl rfl rfl (not_receiving_of_ne nofun)

omit [DecidableEq τ] in
theorem waitOk_create (flag : IpcFlag) (msgSize : ℕ) (maxMsgs : UInt16) (data : ℕ → List UInt8)
    (priority : τ → UInt8) : (rtMqCreate flag msgSize maxMsgs data priority).WaitOk := by
  obtain ⟨next, free, f, heq, -⟩ := rtMqCreate_eq flag msgSize maxMsgs data priority
  rw [heq]
  exact ⟨Waiters.listed_empty fun t => not_receiving_of_ne nofun, Waiters.awake_empty _⟩

theorem WaitOk.step (h : mq.WaitOk) (hlists : mq.Lists q f) {a : MqAction τ}
    (hstep : mqStep mq a = some mq') : mq'.WaitOk := by
  cases a with
  | send t message urgent =>
      obtain ⟨hout, hsend⟩ := Option.ite_none_right_eq_some.mp hstep
      exact h.send hout hsend
  | recv t size timeout =>
      obtain ⟨⟨hout, -⟩, hloop⟩ := Option.ite_none_right_eq_some.mp hstep
      exact WaitOk.loop (h.receiving.aside (not_receiving_of_eq hout nofun))
        (h.awake.mono (Nat.sub_le _ _)) hloop
  | run t tickDelta =>
      rw [mqStep] at hstep
      split at hstep
      case h_1 => exact nomatch hstep
      case h_2 msg message urgent hphase =>
        obtain rfl := Option.some.inj hstep
        exact h.goesOn (not_receiving_of_eq hphase nofun) rfl rfl rfl (not_receiving_of_ne nofun)
      case h_3 hphase => exact Option.some.inj hstep ▸ h.link hlists hphase
      case h_4 err hphase =>
        obtain rfl := Option.some.inj hstep
        exact h.goesOn (not_receiving_of_eq hphase nofun) rfl rfl rfl (not_receiving_of_ne nofun)
      case h_5 size timeout hphase =>
        obtain ⟨hin, hloop⟩ := Option.ite_none_right_eq_some.mp hstep
        exact WaitOk.loop (h.receiving.run hin) (h.awake.run hin) hloop
      case h_6 msg message size hphase =>
        obtain rfl := Option.some.inj hstep
        exact h.goesOn (not_receiving_of_eq hphase nofun) rfl rfl rfl (not_receiving_of_ne nofun)
      case h_7 msg result hphase =>
        obtain rfl := Option.some.inj hstep
        exact h.goesOn (not_receiving_of_eq hphase nofun) rfl rfl rfl (not_receiving_of_ne nofun)
  | timeout t =>
      rw [mqStep] at hstep
      split at hstep
      case h_1 size timeout hphase =>
        obtain ⟨⟨-, hin⟩, hstep⟩ := Option.ite_none_right_eq_some.mp hstep
        obtain rfl := Option.some.inj hstep
        exact ⟨Listed.setPhase (h.receiving.leave hin) (not_receiving_of_ne nofun),
          h.awake.leave t⟩
      case h_2 => exact nomatch hstep
  | reset => exact h.control hstep
  | control t priority => exact Option.some.inj hstep ▸ ⟨h.receiving, h.awake⟩

end Threads

/-- All that is kept by every step. -/
theorem correct_run {flag : IpcFlag} {msgSize : ℕ} {maxMsgs : UInt16} {data : ℕ → List UInt8}
    {priority : τ → UInt8} {as : List (MqAction τ)} {mq : MessageQueue τ}
    (h : Run mqStep unconditional (rtMqCreate flag msgSize maxMsgs data priority) as mq) :
    (∃ q f, mq.Lists q f) ∧ mq.WaitOk := by
  refine Run.invariant (fun mq => (∃ q f, mq.Lists q f) ∧ mq.WaitOk) ?_ ?_ h
  · rintro mq a mq' ⟨⟨q, f, hlists⟩, hwait⟩ - hstep
    exact ⟨hlists.step hstep, hwait.step hlists hstep⟩
  · exact ⟨⟨[], lists_create flag msgSize maxMsgs data priority⟩,
      waitOk_create flag msgSize maxMsgs data priority⟩

end MessageQueue

/-! ## Every run -/

section Runs

variable {flag : IpcFlag} {msgSize : ℕ} {maxMsgs : UInt16} {data : ℕ → List UInt8}
  {priority : τ → UInt8} {as : List (MqAction τ)} {mq : MessageQueue τ}

/-- Every node of the pool is in the queue, in the free list, or with one thread. The queue ends at
its tail and has as many nodes as `entry` says, its head is not null when it is read, and a reset
comes to an end. A call is refused for want of room only when no node is free. -/
theorem messages_accounted
    (h : Run mqStep unconditional (rtMqCreate flag msgSize maxMsgs data priority) as mq) :
    ∃ q f, Path mq.next mq.msgQueueHead q none ∧ mq.msgQueueTail = q.getLast? ∧
      mq.entry.toNat = q.length ∧ Path mq.next mq.msgQueueFree f none ∧
      Own mq.maxMsgs.toNat q f (MqPhase.held ∘ mq.phase) ∧
      (mq.entry ≠ 0 → mq.msgQueueHead ≠ none) ∧ mq.rtMqControl ≠ none ∧
      (mq.msgQueueFree = none →
        ∀ n < mq.maxMsgs.toNat, n ∈ q ∨ ∃ t, (mq.phase t).held = some n) := by
  obtain ⟨⟨q, f, hlists⟩, -⟩ := MessageQueue.correct_run h
  refine ⟨q, f, hlists.queue, hlists.tail, hlists.entry, hlists.free, hlists.own, fun hsome => ?_,
    ?_, fun hfull n hn => ?_⟩
  · obtain ⟨msg, -, -, hhead⟩ := hlists.head_of_entry hsome
    rw [hhead]
    exact Option.some_ne_none msg
  · obtain ⟨mq', -, hcontrol, -⟩ := hlists.control
    rw [hcontrol]
    exact Option.some_ne_none mq'
  · have hnil : f = [] := List.head?_eq_none_iff.mp (hlists.free.eq_head?.symm.trans hfull)
    rcases (hlists.own.all n).mp hn with hq | hf | ht
    · exact .inl hq
    · rw [hnil] at hf
      exact absurd hf List.not_mem_nil
    · exact .inr ht

/-- Of two nodes one is in the queue, and one with a sender who is interrupted. -/
theorem messages_accounted_full :
    ∃ mq, Run mqStep unconditional
        (rtMqCreate .fifo 4 2 (fun _ => [0, 0, 0, 0]) fun _ : Bool => 10)
        [.send true [1] false, .run true 0, .send false [2] true, .run true 0, .run false 0] mq ∧
      mq.entry = 1 ∧ mq.msgQueueFree = none ∧
      ∃ q f, Path mq.next mq.msgQueueHead q none ∧ mq.msgQueueTail = q.getLast? ∧
        mq.entry.toNat = q.length ∧ Path mq.next mq.msgQueueFree f none ∧
        Own mq.maxMsgs.toNat q f (MqPhase.held ∘ mq.phase) ∧
        (mq.entry ≠ 0 → mq.msgQueueHead ≠ none) ∧ mq.rtMqControl ≠ none ∧
        (mq.msgQueueFree = none →
          ∀ n < mq.maxMsgs.toNat, n ∈ q ∨ ∃ t, (mq.phase t).held = some n) := by
  obtain ⟨mq, hrun, hp⟩ := Run.exists_of_exec mqStep unconditional
    (rtMqCreate .fifo 4 2 (fun _ => [0, 0, 0, 0]) fun _ : Bool => 10)
    [.send true [1] false, .run true 0, .send false [2] true, .run true 0, .run false 0]
    (fun mq => decide (mq.entry = 1 ∧ mq.msgQueueFree = none)) (by decide +kernel)
  obtain ⟨hentry, hfree⟩ := of_decide_eq_true hp
  exact ⟨mq, hrun, hentry, hfree, messages_accounted hrun⟩

/-- The nodes of the queue hold the messages that were sent, in their order and unharmed by what is
copied meanwhile, and what `rt_mq_recv` returned begins with the message that was the first one. -/
theorem messages_inOrder
    (h : Run mqStep unconditional (rtMqCreate flag msgSize maxMsgs data priority) as mq) :
    (∃ q, Path mq.next mq.msgQueueHead q none ∧ List.Forall₂ mq.Holds q mq.queued) ∧
      ∀ t size bytes message, (t, .received size bytes message) ∈ mq.returned →
        message.take size <+: bytes := by
  obtain ⟨⟨q, f, hlists⟩, -⟩ := MessageQueue.correct_run h
  exact ⟨⟨q, hlists.queue, hlists.queued⟩,
    fun t size bytes message hr => hlists.returned (t, .received size bytes message) hr⟩

/-- A sender is interrupted by an urgent one, whose message comes first. -/
theorem messages_inOrder_urgent :
    ∃ mq, Run mqStep unconditional
        (rtMqCreate .fifo 4 2 (fun _ => [0, 0, 0, 0]) fun _ : Bool => 10)
        [.send true [1] false, .run true 0, .send false [2, 3] true, .run true 0, .run false 0,
          .run false 0, .recv true 3 0, .run true 0, .run true 0] mq ∧
      mq.queued = [[1]] ∧ (true, .received 3 [2, 3, 0] [2, 3]) ∈ mq.returned ∧
      (∃ q, Path mq.next mq.msgQueueHead q none ∧ List.Forall₂ mq.Holds q mq.queued) ∧
      ∀ t size bytes message, (t, .received size bytes message) ∈ mq.returned →
        message.take size <+: bytes := by
  obtain ⟨mq, hrun, hp⟩ := Run.exists_of_exec mqStep unconditional
    (rtMqCreate .fifo 4 2 (fun _ => [0, 0, 0, 0]) fun _ : Bool => 10)
    [.send true [1] false, .run true 0, .send false [2, 3] true, .run true 0, .run false 0,
      .run false 0, .recv true 3 0, .run true 0, .run true 0]
    (fun mq => decide (mq.queued = [[1]] ∧
      (true, MqReturn.received 3 [2, 3, 0] [2, 3]) ∈ mq.returned)) (by decide +kernel)
  obtain ⟨hqueued, hreturned⟩ := of_decide_eq_true hp
  exact ⟨mq, hrun, hqueued, hreturned, messages_inOrder hrun⟩

/-- Every thread that waits in `rt_mq_recv` is in the list, once, and while threads are suspended at
least as many are on their way as there are messages: when nobody is, they wait at an empty
queue. -/
theorem messages_noneForgotten
    (h : Run mqStep unconditional (rtMqCreate flag msgSize maxMsgs data priority) as mq) :
    mq.receivers.Listed (fun t => (mq.phase t).Receiving) ∧
      mq.receivers.Awake mq.entry.toNat ∧
      (mq.receivers.resumed = [] → mq.receivers.suspended ≠ [] → mq.entry = 0) := by
  obtain ⟨-, hwait⟩ := MessageQueue.correct_run h
  exact ⟨hwait.receiving, hwait.awake, fun hrest hsuspended =>
    UInt16.toNat_inj.mp (hwait.awake.settled hrest hsuspended)⟩

/-- A receiver waits again, as another thread was faster than it. -/
theorem messages_noneForgotten_again :
    ∃ mq, Run mqStep unconditional
        (rtMqCreate .fifo 4 2 (fun _ => [0, 0, 0, 0]) fun _ : Fin 3 => 10)
        [.recv 0 4 (-1), .send 1 [7] false, .run 1 0, .run 1 0, .recv 2 4 0, .run 0 0] mq ∧
      mq.receivers.suspended = [0] ∧
      mq.receivers.Listed (fun t => (mq.phase t).Receiving) ∧
      mq.receivers.Awake mq.entry.toNat ∧
      (mq.receivers.resumed = [] → mq.receivers.suspended ≠ [] → mq.entry = 0) := by
  obtain ⟨mq, hrun, hp⟩ := Run.exists_of_exec mqStep unconditional
    (rtMqCreate .fifo 4 2 (fun _ => [0, 0, 0, 0]) fun _ : Fin 3 => 10)
    [.recv 0 4 (-1), .send 1 [7] false, .run 1 0, .run 1 0, .recv 2 4 0, .run 0 0]
    (fun mq => decide (mq.receivers.suspended = [0])) (by decide +kernel)
  exact ⟨mq, hrun, of_decide_eq_true hp, messages_noneForgotten hrun⟩

end Runs

end Kernel
