import Esp32AtMqtt.Kernel.Ipc
import Esp32AtMqtt.Transition.Run

/-!
# Events of the kernel

An event object of `src/ipc.c` is a set of 32 events. A thread asks for some of them, for all
(`RT_EVENT_FLAG_AND`) or for one (`RT_EVENT_FLAG_OR`), and takes them out of the set when it asks
with `RT_EVENT_FLAG_CLEAR`. `rt_event_send` hands them to the threads of the list, from the first to
the last, each of which finds what those before it have left.

A step is what a thread does with the interrupts disabled, from the entry of its call or from where
it was suspended, to where it returns or is suspended; the timer of a suspended thread; or a reset.
What was `raised`, `delivered`, `dropped` and `returned` is history.
-/

namespace Kernel

open Transition

/-! ## Sets of events -/

/-- The event `i` is in the set. -/
def hasEvent (i : ℕ) (w : UInt32) : Bool := w.toBitVec.getLsbD i

@[simp] theorem hasEvent_zero (i : ℕ) : hasEvent i 0 = false := by simp [hasEvent]

@[simp] theorem hasEvent_and (i : ℕ) (a b : UInt32) :
    hasEvent i (a &&& b) = (hasEvent i a && hasEvent i b) := by simp [hasEvent]

@[simp] theorem hasEvent_or (i : ℕ) (a b : UInt32) :
    hasEvent i (a ||| b) = (hasEvent i a || hasEvent i b) := by simp [hasEvent]

theorem hasEvent_and_not (i : ℕ) (a b : UInt32) :
    hasEvent i (a &&& ~~~b) = (hasEvent i a && !hasEvent i b) := by
  simp only [hasEvent, UInt32.toBitVec_and, UInt32.toBitVec_not, BitVec.getLsbD_and,
    BitVec.getLsbD_not]
  cases ha : a.toBitVec.getLsbD i with
  | false => rfl
  | true => simp [BitVec.lt_of_getLsbD ha]

theorem eq_of_hasEvent {a b : UInt32} (h : ∀ i, hasEvent i a = hasEvent i b) : a = b :=
  UInt32.toBitVec_inj.mp (BitVec.eq_of_getLsbD_eq fun i _ => h i)

def rtEventFlagAnd : UInt8 := 0x01

def rtEventFlagOr : UInt8 := 0x02

def rtEventFlagClear : UInt8 := 0x04

/-- With `RT_EVENT_FLAG_CLEAR` a set is taken out of another one. -/
theorem hasEvent_clear (i : ℕ) (option : UInt8) (event set : UInt32) :
    hasEvent i (if option &&& rtEventFlagClear ≠ 0 then event &&& ~~~set else event) =
      (hasEvent i event && !(option &&& rtEventFlagClear ≠ 0 && hasEvent i set)) := by
  split_ifs with hclear
  · rw [hasEvent_and_not, decide_eq_true hclear, Bool.true_and]
  · rw [decide_eq_false hclear, Bool.false_and, Bool.not_false, Bool.and_true]

/-- What `rt_event_send` and `rt_event_recv` look for: `set` in the set of the event object. -/
def eventHere (event set : UInt32) (option : UInt8) : Bool :=
  if option &&& rtEventFlagAnd ≠ 0 then event &&& set = set
  else if option &&& rtEventFlagOr ≠ 0 then event &&& set ≠ 0
  else false

/-- What is there in a set is there in a larger one. -/
theorem eventHere_mono {event event' set : UInt32} {option : UInt8}
    (hsub : ∀ i, hasEvent i event → hasEvent i event') (h : eventHere event set option) :
    eventHere event' set option := by
  rw [eventHere] at h ⊢
  split_ifs at h ⊢ with hand hor
  · simp only [decide_eq_true_eq] at h ⊢
    refine eq_of_hasEvent fun i => ?_
    have hi := congrArg (hasEvent i) h
    rw [hasEvent_and, Bool.and_eq_right_iff_imp] at hi ⊢
    exact fun hset => hsub i (hi hset)
  · simp only [decide_eq_true_eq] at h ⊢
    refine fun hzero => h (eq_of_hasEvent fun i => ?_)
    have hi := congrArg (hasEvent i) hzero
    rw [hasEvent_and, hasEvent_zero, Bool.and_eq_false_imp] at hi ⊢
    exact fun hevent => hi (hsub i hevent)

/-! ## The event object -/

inductive RtError
  | error
  | etimeout
  deriving DecidableEq, Repr

/-- Where a thread is: in a call of `rt_event_recv`, with an error when it was resumed with one. -/
inductive EventPhase
  | outside
  | inside (set : UInt32) (option : UInt8) (timeout : ℤ) (error : Option RtError)
  deriving DecidableEq, Repr

namespace EventPhase

def fail (err : RtError) : EventPhase → EventPhase
  | .inside set option timeout _ => .inside set option timeout (some err)
  | .outside => .outside

/-- The thread timer was started. -/
def timed : EventPhase → Bool
  | .inside _ _ timeout _ => 0 < timeout
  | .outside => false

end EventPhase

/-- What a thread is given, and what it asked for. -/
structure Delivery (τ : Type*) where
  thread : τ
  set : UInt32
  option : UInt8
  recved : UInt32
  deriving DecidableEq, Repr

/-- What a call of `rt_event_recv` returns: an error, or `RT_EOK` and `*recved`. -/
structure EventReturn (τ : Type*) where
  thread : τ
  set : UInt32
  option : UInt8
  result : Except RtError UInt32
  deriving DecidableEq

/-- `struct rt_event` and the threads, with their `event_set` and `event_info`. -/
structure RtEvent (τ : Type*) where
  flag : IpcFlag
  set : UInt32
  suspendThread : List τ
  priority : τ → UInt8
  eventSet : τ → UInt32
  eventInfo : τ → UInt8
  phase : τ → EventPhase
  raised : List UInt32
  delivered : List (Delivery τ)
  dropped : List UInt32
  returned : List (EventReturn τ)

/-- `rt_event_create(name, flag)` when it succeeds, and threads of these priorities. -/
def rtEventCreate {τ : Type*} (flag : IpcFlag) (priority : τ → UInt8) : RtEvent τ :=
  ⟨flag, 0, [], priority, fun _ => 0, fun _ => 0, fun _ => .outside, [], [], [], []⟩

variable {τ : Type*} [DecidableEq τ]

namespace RtEvent

/-- The loop of `rt_event_send` comes to a thread. -/
def look (e : RtEvent τ) (t : τ) : RtEvent τ :=
  if eventHere e.set (e.eventSet t) (e.eventInfo t) then
    let eventSet :=
      if e.eventInfo t &&& rtEventFlagAnd ≠ 0 then e.eventSet t else e.eventSet t &&& e.set
    { e with
      set := if e.eventInfo t &&& rtEventFlagClear ≠ 0 then e.set &&& ~~~eventSet else e.set
      suspendThread := e.suspendThread.erase t
      eventSet := Function.update e.eventSet t eventSet
      delivered := e.delivered ++ [⟨t, e.eventSet t, e.eventInfo t, eventSet⟩] }
  else e

/-- `rt_event_send(event, set)`. -/
def rtEventSend (e : RtEvent τ) (set : UInt32) : Except RtError (RtEvent τ) :=
  if set = 0 then .error .error
  else
    .ok (e.suspendThread.foldl look
      { e with
        set := e.set ||| set
        raised := e.raised ++ [set &&& ~~~e.set] })

/-- `rt_event_recv(event, set, option, timeout, recved)` by the thread `t`, up to where it returns
or is suspended. `none` where an assertion fails. -/
def rtEventRecv (e : RtEvent τ) (t : τ) (set : UInt32) (option : UInt8) (timeout : ℤ) :
    Option (RtEvent τ) :=
  if set = 0 then some { e with returned := e.returned ++ [⟨t, set, option, .error .error⟩] }
  else if option &&& rtEventFlagAnd = 0 ∧ option &&& rtEventFlagOr = 0 then none
  else if eventHere e.set set option then
    some { e with
      set := if option &&& rtEventFlagClear ≠ 0 then e.set &&& ~~~set else e.set
      delivered := e.delivered ++ [⟨t, set, option, e.set &&& set⟩]
      returned := e.returned ++ [⟨t, set, option, .ok (e.set &&& set)⟩] }
  else if timeout = 0 then
    some { e with returned := e.returned ++ [⟨t, set, option, .error .etimeout⟩] }
  else
    some { e with
      suspendThread := rtIpcListSuspend e.flag e.priority e.suspendThread t
      eventSet := Function.update e.eventSet t set
      eventInfo := Function.update e.eventInfo t option
      phase := Function.update e.phase t (.inside set option timeout none) }

/-- `rt_event_control(event, RT_IPC_CMD_RESET, …)`: the threads are resumed with an error. -/
def rtEventControl (e : RtEvent τ) : RtEvent τ :=
  { e with
    set := 0
    suspendThread := []
    phase := fun t => if t ∈ e.suspendThread then (e.phase t).fail .error else e.phase t
    dropped := e.dropped ++ [e.set] }

/-- `rt_thread_timeout` of a thread that is suspended. -/
def rtThreadTimeout (e : RtEvent τ) (t : τ) : RtEvent τ :=
  { e with
    suspendThread := e.suspendThread.erase t
    phase := Function.update e.phase t ((e.phase t).fail .etimeout) }

end RtEvent

inductive EventAction (τ : Type*)
  | send (set : UInt32)
  | recv (t : τ) (set : UInt32) (option : UInt8) (timeout : ℤ)
  | run (t : τ)
  | timeout (t : τ)
  | reset
  | control (t : τ) (priority : UInt8)

/-- One step. A thread that runs again returns from `rt_event_recv`. -/
def eventStep (e : RtEvent τ) : EventAction τ → Option (RtEvent τ)
  | .send set =>
      match e.rtEventSend set with
      | .ok e' => some e'
      | .error _ => some e
  | .recv t set option timeout =>
      if e.phase t = .outside then e.rtEventRecv t set option timeout else none
  | .run t =>
      match e.phase t with
      | .inside set option _ error =>
          if t ∈ e.suspendThread then none
          else
            some { e with
              phase := Function.update e.phase t .outside
              returned := e.returned ++
                [⟨t, set, option, error.elim (.ok (e.eventSet t)) .error⟩] }
      | .outside => none
  | .timeout t =>
      if t ∈ e.suspendThread ∧ (e.phase t).timed then some (e.rtThreadTimeout t) else none
  | .reset => some e.rtEventControl
  | .control t priority => some { e with priority := Function.update e.priority t priority }


/-! ## What is handed out -/

namespace Delivery

omit [DecidableEq τ]

/-- The events are taken out of the set. -/
def clears (d : Delivery τ) : Bool := d.option &&& rtEventFlagClear ≠ 0

/-- The thread is given events it asked for: all of them with `RT_EVENT_FLAG_AND`, and with
`RT_EVENT_FLAG_OR` at least one. -/
structure AsAsked (d : Delivery τ) : Prop where
  asked : ∀ i, hasEvent i d.recved → hasEvent i d.set
  all : d.option &&& rtEventFlagAnd ≠ 0 → d.recved = d.set
  one : d.option &&& rtEventFlagAnd = 0 → d.recved ≠ 0

/-- What `rt_event_recv` gives to a thread that is not suspended. -/
theorem asAsked_of_here {event set : UInt32} {option : UInt8} (h : eventHere event set option)
    (t : τ) : AsAsked ⟨t, set, option, event &&& set⟩ := by
  rw [eventHere] at h
  refine ⟨fun i hi => ?_, fun hand => ?_, fun hand => ?_⟩
  · rw [hasEvent_and, Bool.and_eq_true] at hi
    exact hi.2
  · rw [if_pos hand] at h
    exact of_decide_eq_true h
  · rw [if_neg (not_not.mpr hand)] at h
    split_ifs at h
    exact of_decide_eq_true h

end Delivery

/-- What `rt_event_send` gives to a thread is what is there of that which it asked for. -/
theorem recved_of_here {event set : UInt32} {option : UInt8} (h : eventHere event set option) :
    (if option &&& rtEventFlagAnd ≠ 0 then set else set &&& event) = event &&& set := by
  split_ifs with hand
  · rw [eventHere, if_pos hand] at h
    exact (of_decide_eq_true h).symm
  · exact UInt32.and_comm set event

namespace RtEvent

/-- How often the event `i` was taken out of the set by a thread. -/
def taken (e : RtEvent τ) (i : ℕ) : ℕ :=
  e.delivered.countP fun d => d.clears && hasEvent i d.recved

/-- Events come into the set by `rt_event_send`, and go out of it to one thread or by a reset. -/
def Balanced (e : RtEvent τ) : Prop :=
  ∀ i, e.raised.countP (hasEvent i) =
    e.taken i + e.dropped.countP (hasEvent i) + (hasEvent i e.set).toNat

/-- What holds also within the loop of `rt_event_send`. -/
structure Sound (e : RtEvent τ) : Prop where
  nodup : e.suspendThread.Nodup
  suspended : ∀ t ∈ e.suspendThread, ∃ timeout,
    e.phase t = .inside (e.eventSet t) (e.eventInfo t) timeout none
  resumed : ∀ t set option timeout, e.phase t = .inside set option timeout none →
    t ∉ e.suspendThread → ⟨t, set, option, e.eventSet t⟩ ∈ e.delivered
  asAsked : ∀ d ∈ e.delivered, d.AsAsked
  returned : ∀ r ∈ e.returned, ∀ w, r.result = .ok w →
    ⟨r.thread, r.set, r.option, w⟩ ∈ e.delivered
  balanced : e.Balanced

/-- `t` is not suspended, or has to wait. -/
def Waits (e : RtEvent τ) (t : τ) : Prop :=
  t ∈ e.suspendThread → eventHere e.set (e.eventSet t) (e.eventInfo t) = false


variable {e e' : RtEvent τ} {t u : τ}

omit [DecidableEq τ] in
theorem Balanced.deliver (h : e.Balanced) (d : Delivery τ)
    (hhere : ∀ i, hasEvent i d.recved → hasEvent i e.set) (hraised : e'.raised = e.raised)
    (hdropped : e'.dropped = e.dropped) (hdelivered : e'.delivered = e.delivered ++ [d])
    (hset : ∀ i, hasEvent i e'.set = (hasEvent i e.set && !(d.clears && hasEvent i d.recved))) :
    e'.Balanced := by
  intro i
  have htaken : e'.taken i = e.taken i + (d.clears && hasEvent i d.recved).toNat := by
    rw [taken, hdelivered, List.countP_append, List.countP_singleton, ← taken]
    cases d.clears && hasEvent i d.recved <;> rfl
  rw [hraised, hdropped, htaken, hset, h i]
  cases hd : d.clears && hasEvent i d.recved with
  | false => simp
  | true =>
      rw [hhere i (Bool.and_eq_true_iff.mp hd).2]
      simp only [Bool.toNat_true, Bool.not_true, Bool.and_false, Bool.toNat_false]
      omega

/-- A thread of the list for which nothing is there is passed over, any other is resumed. -/
theorem look_cases (e : RtEvent τ) (t : τ) :
    (eventHere e.set (e.eventSet t) (e.eventInfo t) = false ∧ e.look t = e) ∨
      (eventHere e.set (e.eventSet t) (e.eventInfo t) = true ∧
        e.look t =
          { e with
            set :=
              if e.eventInfo t &&& rtEventFlagClear ≠ 0 then e.set &&& ~~~(e.set &&& e.eventSet t)
              else e.set
            suspendThread := e.suspendThread.erase t
            eventSet := Function.update e.eventSet t (e.set &&& e.eventSet t)
            delivered := e.delivered ++
              [⟨t, e.eventSet t, e.eventInfo t, e.set &&& e.eventSet t⟩] }) := by
  cases hhere : eventHere e.set (e.eventSet t) (e.eventInfo t) with
  | false => exact .inl ⟨rfl, if_neg (by rw [hhere]; decide)⟩
  | true =>
      refine .inr ⟨rfl, ?_⟩
      rw [look, if_pos hhere]
      simp only [recved_of_here hhere]

theorem hasEvent_look (e : RtEvent τ) (t : τ) {i : ℕ} (h : hasEvent i (e.look t).set) :
    hasEvent i e.set := by
  obtain ⟨-, hlook⟩ | ⟨-, hlook⟩ := e.look_cases t
  · rwa [hlook] at h
  · rw [hlook] at h
    exact (Bool.and_eq_true_iff.mp ((hasEvent_clear i _ _ _).symm.trans h)).1

/-- The other threads stay as they are. -/
theorem look_of_ne (e : RtEvent τ) (hu : u ≠ t) :
    (u ∈ (e.look t).suspendThread ↔ u ∈ e.suspendThread) ∧
      (e.look t).eventSet u = e.eventSet u ∧ (e.look t).eventInfo u = e.eventInfo u := by
  obtain ⟨-, hlook⟩ | ⟨-, hlook⟩ := e.look_cases t
  · rw [hlook]
    exact ⟨Iff.rfl, rfl, rfl⟩
  · rw [hlook]
    exact ⟨List.mem_erase_of_ne hu, Function.update_of_ne hu _ _, rfl⟩

theorem Sound.look (h : e.Sound) (hin : t ∈ e.suspendThread) : (e.look t).Sound := by
  obtain ⟨-, hlook⟩ | ⟨hhere, hlook⟩ := e.look_cases t
  · rw [hlook]
    exact h
  rw [hlook]
  obtain ⟨timeout, hphase⟩ := h.suspended t hin
  refine ⟨h.nodup.erase t, fun u hu => ?_, fun u set option left hu hout => ?_, ?_, ?_, ?_⟩
  · obtain ⟨hne, hu⟩ := h.nodup.mem_erase_iff.mp hu
    obtain ⟨left, hphase⟩ := h.suspended u hu
    refine ⟨left, ?_⟩
    simp only [Function.update_of_ne hne]
    exact hphase
  · by_cases hne : u = t
    · -- the thread that is resumed
      subst hne
      obtain ⟨rfl, rfl, -, -⟩ := EventPhase.inside.inj (hphase.symm.trans hu)
      simp only [Function.update_self]
      exact List.mem_append_right _ List.mem_cons_self
    · simp only [Function.update_of_ne hne]
      refine List.mem_append_left _ (h.resumed u set option left hu fun hmem => hout ?_)
      exact (List.mem_erase_of_ne hne).mpr hmem
  · intro d hd
    rcases List.mem_append.mp hd with hd | hd
    · exact h.asAsked d hd
    · obtain rfl := List.mem_singleton.mp hd
      exact Delivery.asAsked_of_here hhere t
  · exact fun r hr w hw => List.mem_append_left _ (h.returned r hr w hw)
  · refine h.balanced.deliver ⟨t, e.eventSet t, e.eventInfo t, e.set &&& e.eventSet t⟩
      (fun i hi => ?_) rfl rfl rfl fun i => hasEvent_clear i _ _ _
    rw [hasEvent_and, Bool.and_eq_true] at hi
    exact hi.1

theorem Waits.look (h : e.Waits u) (hu : u ≠ t) : (e.look t).Waits u := by
  obtain ⟨hmem, hset, hinfo⟩ := e.look_of_ne hu
  intro hin
  rw [hset, hinfo, Bool.eq_false_iff]
  intro hhere
  have hbefore := eventHere_mono (fun i => e.hasEvent_look t) hhere
  exact Bool.false_ne_true ((h (hmem.mp hin)).symm.trans hbefore)

theorem waits_look (hnodup : e.suspendThread.Nodup) (t : τ) : (e.look t).Waits t := by
  obtain ⟨hhere, hlook⟩ | ⟨-, hlook⟩ := e.look_cases t
  · rw [hlook]
    exact fun _ => hhere
  · rw [hlook]
    exact fun hin => absurd hin hnodup.not_mem_erase

/-- The loop of `rt_event_send`: who is still suspended behind it has to wait. -/
theorem foldl_look {l : List τ} (h : e.Sound) (hnodup : l.Nodup)
    (hin : ∀ t ∈ l, t ∈ e.suspendThread) :
    (l.foldl RtEvent.look e).Sound ∧
      ∀ t, t ∈ l ∨ e.Waits t → (l.foldl RtEvent.look e).Waits t := by
  induction l generalizing e with
  | nil => exact ⟨h, fun t ht => ht.resolve_left List.not_mem_nil⟩
  | cons t l ih =>
      obtain ⟨hnot, hnodup⟩ := List.nodup_cons.mp hnodup
      have hne : ∀ u ∈ l, u ≠ t := fun u hu heq => hnot (heq ▸ hu)
      obtain ⟨hsound, hwaits⟩ := ih (h.look (hin t List.mem_cons_self)) hnodup fun u hu =>
        (e.look_of_ne (hne u hu)).1.mpr (hin u (List.mem_cons_of_mem t hu))
      refine ⟨hsound, fun u hu => hwaits u ?_⟩
      by_cases hut : u = t
      · exact .inr (hut ▸ waits_look h.nodup t)
      · rcases hu with hu | hu
        · exact .inl ((List.mem_cons.mp hu).resolve_left hut)
        · exact .inr (hu.look hut)

/-- The threads that are suspended have to wait. -/
structure Correct (e : RtEvent τ) : Prop extends e.Sound where
  waits : ∀ t, e.Waits t

theorem Correct.send (h : e.Correct) {set : UInt32} (hsend : e.rtEventSend set = .ok e') :
    e'.Correct := by
  rw [rtEventSend] at hsend
  split_ifs at hsend
  obtain rfl := Except.ok.inj hsend
  have hraise : Sound { e with
      set := e.set ||| set
      raised := e.raised ++ [set &&& ~~~e.set] } := by
    refine ⟨h.nodup, h.suspended, h.resumed, h.asAsked, h.returned, fun i => ?_⟩
    show (e.raised ++ [set &&& ~~~e.set]).countP (hasEvent i) =
      e.taken i + e.dropped.countP (hasEvent i) + (hasEvent i (e.set ||| set)).toNat
    rw [List.countP_append, h.balanced i, List.countP_singleton, hasEvent_and_not, hasEvent_or]
    cases hasEvent i e.set <;> cases hasEvent i set <;> rfl
  obtain ⟨hsound, hwaits⟩ := foldl_look hraise h.nodup fun _ ht => ht
  refine ⟨hsound, fun t => hwaits t ?_⟩
  by_cases hin : t ∈ e.suspendThread
  · exact .inl hin
  · exact .inr fun hin' => absurd hin' hin

omit [DecidableEq τ] in
/-- A call returns an error. -/
theorem Correct.fails (h : e.Correct) (t : τ) (set : UInt32) (option : UInt8) (err : RtError) :
    Correct { e with returned := e.returned ++ [⟨t, set, option, .error err⟩] } := by
  refine ⟨⟨h.nodup, h.suspended, h.resumed, h.asAsked, fun r hr w hw => ?_, h.balanced⟩, h.waits⟩
  rcases List.mem_append.mp hr with hr | hr
  · exact h.returned r hr w hw
  · obtain rfl := List.mem_singleton.mp hr
    exact nomatch hw

omit [DecidableEq τ] in
/-- A call finds what it asks for. -/
theorem Correct.finds (h : e.Correct) (t : τ) {set : UInt32} {option : UInt8}
    (hhere : eventHere e.set set option = true) :
    Correct { e with
      set := if option &&& rtEventFlagClear ≠ 0 then e.set &&& ~~~set else e.set
      delivered := e.delivered ++ [⟨t, set, option, e.set &&& set⟩]
      returned := e.returned ++ [⟨t, set, option, .ok (e.set &&& set)⟩] } := by
  refine ⟨⟨h.nodup, h.suspended, fun u set' option' left hu hu' => ?_, fun d hd => ?_,
    fun r hr w hw => ?_, ?_⟩, fun u hu => ?_⟩
  · exact List.mem_append_left _ (h.resumed u set' option' left hu hu')
  · rcases List.mem_append.mp hd with hd | hd
    · exact h.asAsked d hd
    · obtain rfl := List.mem_singleton.mp hd
      exact Delivery.asAsked_of_here hhere t
  · rcases List.mem_append.mp hr with hr | hr
    · exact List.mem_append_left _ (h.returned r hr w hw)
    · obtain rfl := List.mem_singleton.mp hr
      obtain rfl := Except.ok.inj hw
      exact List.mem_append_right _ List.mem_cons_self
  · refine h.balanced.deliver ⟨t, set, option, e.set &&& set⟩ (fun i hi => ?_) rfl rfl rfl
      fun i => (hasEvent_clear i _ _ _).trans ?_
    · rw [hasEvent_and, Bool.and_eq_true] at hi
      exact hi.1
    · rw [Delivery.clears, hasEvent_and]
      cases hasEvent i e.set with
      | false => rfl
      | true => rw [Bool.true_and, Bool.true_and, Bool.true_and]
  · rw [Bool.eq_false_iff]
    intro hhere'
    refine Bool.false_ne_true ((h.waits u hu).symm.trans (eventHere_mono (fun i hi => ?_) hhere'))
    exact (Bool.and_eq_true_iff.mp ((hasEvent_clear i _ _ _).symm.trans hi)).1

/-- A call that does not find it is suspended. -/
theorem Correct.suspends (h : e.Correct) (hout : e.phase t = .outside) {set : UInt32}
    {option : UInt8} (timeout : ℤ) (hhere : eventHere e.set set option = false) :
    Correct { e with
      suspendThread := rtIpcListSuspend e.flag e.priority e.suspendThread t
      eventSet := Function.update e.eventSet t set
      eventInfo := Function.update e.eventInfo t option
      phase := Function.update e.phase t (.inside set option timeout none) } := by
  have hnot : t ∉ e.suspendThread := fun hin => by
    obtain ⟨left, hphase⟩ := h.suspended t hin
    exact nomatch hout.symm.trans hphase
  refine ⟨⟨nodup_rtIpcListSuspend _ _ h.nodup hnot, fun u hu => ?_,
    fun u set' option' left hu hu' => ?_, h.asAsked, h.returned, h.balanced⟩, fun u hu => ?_⟩
  · by_cases hut : u = t
    · subst hut
      exact ⟨timeout, by simp only [Function.update_self]⟩
    · obtain ⟨left, hphase⟩ := h.suspended u ((mem_rtIpcListSuspend.mp hu).resolve_left hut)
      refine ⟨left, ?_⟩
      simp only [Function.update_of_ne hut]
      exact hphase
  · obtain ⟨hut, hu'⟩ := not_or.mp fun hor => hu' (mem_rtIpcListSuspend.mpr hor)
    simp only [Function.update_of_ne hut] at hu ⊢
    exact h.resumed u set' option' left hu hu'
  · by_cases hut : u = t
    · subst hut
      simp only [Function.update_self]
      exact hhere
    · simp only [Function.update_of_ne hut]
      exact h.waits u ((mem_rtIpcListSuspend.mp hu).resolve_left hut)

theorem Correct.recv (h : e.Correct) (hout : e.phase t = .outside) {set : UInt32} {option : UInt8}
    {timeout : ℤ} (hrecv : e.rtEventRecv t set option timeout = some e') : e'.Correct := by
  rw [rtEventRecv] at hrecv
  by_cases hzero : set = 0
  · rw [if_pos hzero] at hrecv
    exact Option.some.inj hrecv ▸ h.fails t set option .error
  rw [if_neg hzero] at hrecv
  by_cases hassert : option &&& rtEventFlagAnd = 0 ∧ option &&& rtEventFlagOr = 0
  · rw [if_pos hassert] at hrecv
    exact nomatch hrecv
  rw [if_neg hassert] at hrecv
  by_cases hhere : eventHere e.set set option = true
  · rw [if_pos hhere] at hrecv
    exact Option.some.inj hrecv ▸ h.finds t hhere
  rw [if_neg hhere] at hrecv
  by_cases htimeout : timeout = 0
  · rw [if_pos htimeout] at hrecv
    exact Option.some.inj hrecv ▸ h.fails t set option .etimeout
  · rw [if_neg htimeout] at hrecv
    exact Option.some.inj hrecv ▸ h.suspends hout timeout (Bool.eq_false_iff.mpr hhere)

/-- A thread that is resumed returns. -/
theorem Correct.runs (h : e.Correct) {set : UInt32} {option : UInt8} {timeout : ℤ}
    {err : Option RtError} (hphase : e.phase t = .inside set option timeout err)
    (hnot : t ∉ e.suspendThread) :
    Correct { e with
      phase := Function.update e.phase t .outside
      returned := e.returned ++
        [⟨t, set, option, err.elim (.ok (e.eventSet t)) .error⟩] } := by
  refine ⟨⟨h.nodup, fun u hu => ?_, fun u set' option' left hu hu' => ?_, h.asAsked,
    fun r hr w hw => ?_, h.balanced⟩, h.waits⟩
  · have hut : u ≠ t := fun heq => hnot (heq ▸ hu)
    simp only [Function.update_of_ne hut]
    exact h.suspended u hu
  · have hut : u ≠ t := by
      rintro rfl
      simp only [Function.update_self] at hu
      exact nomatch hu
    simp only [Function.update_of_ne hut] at hu
    exact h.resumed u set' option' left hu hu'
  · rcases List.mem_append.mp hr with hr | hr
    · exact h.returned r hr w hw
    · obtain rfl := List.mem_singleton.mp hr
      cases err with
      | none =>
          obtain rfl := Except.ok.inj hw
          exact h.resumed t set option timeout hphase hnot
      | some err => exact nomatch hw

/-- A thread that has failed is not about to return events. -/
theorem fail_ne (err : RtError) (p : EventPhase) (set : UInt32) (option : UInt8) (timeout : ℤ) :
    p.fail err ≠ .inside set option timeout none := by
  cases p with
  | outside => exact nofun
  | inside set' option' timeout' err' => exact nofun

theorem Correct.timeout (h : e.Correct) (t : τ) : (e.rtThreadTimeout t).Correct := by
  refine ⟨⟨h.nodup.erase t, fun u hu => ?_, fun u set option left hu hu' => ?_, h.asAsked,
    h.returned, h.balanced⟩, fun u hu => h.waits u (List.mem_of_mem_erase hu)⟩
  · obtain ⟨hut, hin⟩ := h.nodup.mem_erase_iff.mp hu
    simp only [rtThreadTimeout, Function.update_of_ne hut]
    exact h.suspended u hin
  · by_cases hut : u = t
    · subst hut
      simp only [rtThreadTimeout, Function.update_self] at hu
      exact absurd hu (fail_ne _ _ _ _ _)
    · simp only [rtThreadTimeout, Function.update_of_ne hut] at hu
      exact h.resumed u set option left hu fun hin => hu' ((List.mem_erase_of_ne hut).mpr hin)

theorem Correct.control (h : e.Correct) : e.rtEventControl.Correct := by
  refine ⟨⟨List.nodup_nil, fun u hu => absurd hu List.not_mem_nil,
    fun u set option left hu _ => ?_, h.asAsked, h.returned, fun i => ?_⟩,
    fun u hu => absurd hu List.not_mem_nil⟩
  · simp only [rtEventControl] at hu
    split_ifs at hu with hin
    · exact absurd hu (fail_ne _ _ _ _ _)
    · exact h.resumed u set option left hu hin
  · show e.raised.countP (hasEvent i) =
      e.taken i + (e.dropped ++ [e.set]).countP (hasEvent i) + (hasEvent i 0).toNat
    rw [List.countP_append, List.countP_singleton, h.balanced i, hasEvent_zero]
    cases hasEvent i e.set <;> rfl

/-- One step. -/
theorem Correct.step (h : e.Correct) {a : EventAction τ} (hstep : eventStep e a = some e') :
    e'.Correct := by
  cases a with
  | send set =>
      rw [eventStep] at hstep
      split at hstep
      case h_1 hsend => exact Option.some.inj hstep ▸ h.send hsend
      case h_2 => exact Option.some.inj hstep ▸ h
  | recv t set option timeout =>
      obtain ⟨hout, hrecv⟩ := Option.ite_none_right_eq_some.mp hstep
      exact h.recv hout hrecv
  | run t =>
      rw [eventStep] at hstep
      split at hstep
      case h_1 set option timeout err hphase =>
        obtain ⟨hnot, hstep⟩ := Option.ite_none_left_eq_some.mp hstep
        exact Option.some.inj hstep ▸ h.runs hphase hnot
      case h_2 => exact nomatch hstep
  | timeout t =>
      obtain ⟨-, hstep⟩ := Option.ite_none_right_eq_some.mp hstep
      exact Option.some.inj hstep ▸ h.timeout t
  | reset => exact Option.some.inj hstep ▸ h.control
  | control t priority =>
      exact Option.some.inj hstep ▸
        ⟨⟨h.nodup, h.suspended, h.resumed, h.asAsked, h.returned, h.balanced⟩, h.waits⟩

theorem correct_run {flag : IpcFlag} {priority : τ → UInt8} {as : List (EventAction τ)}
    (h : Run eventStep unconditional (rtEventCreate flag priority) as e) : e.Correct := by
  refine Run.invariant Correct (fun e a e' he _ hstep => he.step hstep) ?_ h
  refine ⟨⟨List.nodup_nil, fun u hu => absurd hu List.not_mem_nil,
    fun u set option left hu _ => (nomatch hu), fun d hd => absurd hd List.not_mem_nil,
    fun r hr => absurd hr List.not_mem_nil, fun i => ?_⟩, fun u hu => absurd hu List.not_mem_nil⟩
  show 0 = 0 + 0 + (hasEvent i 0).toNat
  rw [hasEvent_zero]
  rfl

end RtEvent

/-! ## Every run -/

section Runs

variable {flag : IpcFlag} {priority : τ → UInt8} {as : List (EventAction τ)} {e : RtEvent τ}

/-- Nobody is suspended while the events that he asked for are there: no `rt_event_send` is missed,
whatever the threads before him in the list take. -/
theorem event_noneMissed (h : Run eventStep unconditional (rtEventCreate flag priority) as e)
    {t : τ} {set : UInt32} {option : UInt8} {timeout : ℤ}
    (hphase : e.phase t = .inside set option timeout none) (hin : t ∈ e.suspendThread) :
    eventHere e.set set option = false := by
  have he := RtEvent.correct_run h
  obtain ⟨left, hsuspended⟩ := he.suspended t hin
  obtain ⟨rfl, rfl, -, -⟩ := EventPhase.inside.inj (hsuspended.symm.trans hphase)
  exact he.waits t hin

/-- A thread waits for two events, of which one has come. -/
theorem event_noneMissed_half :
    ∃ e, Run eventStep unconditional (rtEventCreate .fifo fun _ : Bool => 10)
        [.recv true 3 0x01 (-1), .send 1] e ∧
      e.set = 1 ∧ true ∈ e.suspendThread ∧ eventHere e.set 3 0x01 = false := by
  obtain ⟨e, hrun, hp⟩ := Run.exists_of_exec eventStep unconditional
    (rtEventCreate .fifo fun _ : Bool => 10) [.recv true 3 0x01 (-1), .send 1]
    (fun e => decide (e.set = 1 ∧ true ∈ e.suspendThread ∧
      e.phase true = .inside 3 0x01 (-1) none)) (by decide +kernel)
  obtain ⟨hset, hin, hphase⟩ := of_decide_eq_true hp
  exact ⟨e, hrun, hset, hin, event_noneMissed hrun hphase hin⟩

/-- What `rt_event_recv` returns with `RT_EOK` was handed to its thread, and is what it asked
for. -/
theorem event_asAsked (h : Run eventStep unconditional (rtEventCreate flag priority) as e)
    {t : τ} {set w : UInt32} {option : UInt8} (hr : ⟨t, set, option, .ok w⟩ ∈ e.returned) :
    ⟨t, set, option, w⟩ ∈ e.delivered ∧ Delivery.AsAsked (⟨t, set, option, w⟩ : Delivery τ) := by
  have he := RtEvent.correct_run h
  have hin := he.returned _ hr w rfl
  exact ⟨hin, he.asAsked _ hin⟩

/-- A thread waits for one of two events, and another one is sent with it. -/
theorem event_asAsked_one :
    ∃ e, Run eventStep unconditional (rtEventCreate .fifo fun _ : Bool => 10)
        [.recv true 3 0x06 (-1), .send 0x12, .run true] e ∧
      e.set = 0x10 ∧ ⟨true, 3, 0x06, 2⟩ ∈ e.delivered ∧
      Delivery.AsAsked (⟨true, 3, 0x06, 2⟩ : Delivery Bool) := by
  obtain ⟨e, hrun, hp⟩ := Run.exists_of_exec eventStep unconditional
    (rtEventCreate .fifo fun _ : Bool => 10) [.recv true 3 0x06 (-1), .send 0x12, .run true]
    (fun e => decide (e.set = 0x10 ∧ ⟨true, 3, 0x06, .ok 2⟩ ∈ e.returned)) (by decide +kernel)
  obtain ⟨hset, hr⟩ := of_decide_eq_true hp
  exact ⟨e, hrun, hset, event_asAsked hrun hr⟩

/-- An event that is raised is taken out of the set once, by one thread that clears it or by a
reset, or it is still there. -/
theorem event_onceTaken (h : Run eventStep unconditional (rtEventCreate flag priority) as e)
    (i : ℕ) :
    e.raised.countP (hasEvent i) =
      e.delivered.countP (fun d => d.clears && hasEvent i d.recved) +
        e.dropped.countP (hasEvent i) + (hasEvent i e.set).toNat :=
  (RtEvent.correct_run h).balanced i

/-- Two threads wait for one event, and the first one takes it. -/
theorem event_onceTaken_two :
    ∃ e, Run eventStep unconditional (rtEventCreate .fifo fun _ : Bool => 10)
        [.recv true 1 0x06 (-1), .recv false 1 0x06 (-1), .send 1] e ∧
      e.suspendThread = [false] ∧ e.delivered = [⟨true, 1, 0x06, 1⟩] ∧
      e.raised.countP (hasEvent 0) =
        e.delivered.countP (fun d => d.clears && hasEvent 0 d.recved) +
          e.dropped.countP (hasEvent 0) + (hasEvent 0 e.set).toNat := by
  obtain ⟨e, hrun, hp⟩ := Run.exists_of_exec eventStep unconditional
    (rtEventCreate .fifo fun _ : Bool => 10)
    [.recv true 1 0x06 (-1), .recv false 1 0x06 (-1), .send 1]
    (fun e => decide (e.suspendThread = [false] ∧ e.delivered = [⟨true, 1, 0x06, 1⟩]))
    (by decide +kernel)
  obtain ⟨hsuspended, hdelivered⟩ := of_decide_eq_true hp
  exact ⟨e, hrun, hsuspended, hdelivered, event_onceTaken hrun 0⟩

end Runs

end Kernel
