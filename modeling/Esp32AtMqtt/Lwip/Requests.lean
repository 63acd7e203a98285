import Esp32AtMqtt.Lwip.Publish
import Esp32AtMqtt.Memory.Chain
import Esp32AtMqtt.Stream.Delta
import Mathlib.Algebra.Order.BigOperators.Group.List

/-!
# The requests in flight

The requests of the MQTT client are in an array of `MQTT_REQ_MAX_IN_FLIGHT`, and what links them is
in `next`: a request that is not in use points to itself, the pending ones are a list from
`pend_req_queue` on. The timeout of a request is stored as what it has more than the one before it.

A request is taken out of the list, its callback runs, and then it is deleted. The callback may
publish, so requests come and go while it runs, also between two rounds of the loop of
`mqtt_request_time_elapsed`. A step of the run is what happens between two calls of callbacks.
-/

namespace Lwip

open Linked Transition Delta

/-- `MQTT_REQ_MAX_IN_FLIGHT`. -/
abbrev mqttReqMaxInFlight : ℕ := 4

/-- `MQTT_CYCLIC_TIMER_INTERVAL`, with which `mqtt_request_time_elapsed` is called. -/
def mqttCyclicTimerInterval : UInt8 := 5

/-- A pointer into `req_list` that is not `NULL`. -/
abbrev ReqPtr := Fin mqttReqMaxInFlight

/-- `struct mqtt_request_t` in memory. -/
structure ReqCell where
  next : Option ReqPtr
  cb : UInt32
  arg : UInt32
  pktId : UInt16
  timeoutDiff : UInt16
  deriving DecidableEq, Repr

/-- `client->req_list` and `client->pend_req_queue`. -/
structure ReqPool where
  reqList : ReqPtr → ReqCell
  pendReqQueue : Option ReqPtr

namespace ReqPool

def next (p : ReqPool) (r : ReqPtr) : Option ReqPtr := (p.reqList r).next

/-- `timeout_diff` as a number. -/
def diff (p : ReqPool) (r : ReqPtr) : ℕ := (p.reqList r).timeoutDiff.toNat

def modify (p : ReqPool) (r : ReqPtr) (f : ReqCell → ReqCell) : ReqPool :=
  { p with reqList := Function.update p.reqList r (f (p.reqList r)) }

def setNext (p : ReqPool) (r : ReqPtr) (next : Option ReqPtr) : ReqPool :=
  p.modify r fun c => { c with next := next }

def setDiff (p : ReqPool) (r : ReqPtr) (timeoutDiff : UInt16) : ReqPool :=
  p.modify r fun c => { c with timeoutDiff := timeoutDiff }

/-- `memset(client, 0, sizeof(mqtt_client_t))`, what it does to the requests. -/
def zero : ReqPool := ⟨fun _ => ⟨none, 0, 0, 0, 0⟩, none⟩

/-- `mqtt_init_requests(client->req_list)`. -/
def mqttInitRequests (p : ReqPool) : ReqPool :=
  { p with reqList := fun r => { p.reqList r with next := some r } }

/-- `mqtt_create_request(client->req_list, pkt_id, cb, arg)`. -/
def mqttCreateRequest (p : ReqPool) (pktId : UInt16) (cb arg : UInt32) :
    Option (ReqPtr × ReqPool) :=
  ((List.finRange mqttReqMaxInFlight).find? fun r => p.next r = some r).map fun r =>
    (r, p.modify r fun c => { c with next := none, cb := cb, arg := arg, pktId := pktId })

/-- `mqtt_append_request(&client->pend_req_queue, r)`. Its loop has no result if it does not end:
there are no more rounds in it than there are requests. -/
def mqttAppendRequest (p : ReqPool) (r : ReqPtr) : Option ReqPool :=
  (foldChain p.next
    (fun (timeBefore, _) iter => (timeBefore + (p.reqList iter).timeoutDiff, some iter))
    mqttReqMaxInFlight p.pendReqQueue ((0 : UInt16), none)).map fun (timeBefore, head) =>
      let p := p.setDiff r (mqttReqTimeout - timeBefore)
      match head with
      | none => { p with pendReqQueue := some r }
      | some head => p.setNext head (some r)

/-- `mqtt_delete_request(r)`. -/
def mqttDeleteRequest (p : ReqPool) (r : ReqPtr) : ReqPool := p.setNext r (some r)

/-- The request `iter` behind `prev` is unchained. -/
def unchain (p : ReqPool) (prev : Option ReqPtr) (iter : ReqPtr) : ReqPool :=
  match prev with
  | none => { p with pendReqQueue := p.next iter }
  | some prev => p.setNext prev (p.next iter)

/-- The request behind `iter` gets what is left of its timeout. -/
def passTimeout (p : ReqPool) (iter : ReqPtr) : ReqPool :=
  match p.next iter with
  | none => p
  | some next => p.setDiff next ((p.reqList next).timeoutDiff + (p.reqList iter).timeoutDiff)

/-- `mqtt_take_request(&client->pend_req_queue, pkt_id)`. -/
def mqttTakeRequest (p : ReqPool) (pktId : UInt16) : Option (Option ReqPtr × ReqPool) :=
  (findChain p.next (fun iter => (p.reqList iter).pktId = pktId) mqttReqMaxInFlight none
    p.pendReqQueue).map fun (prev, iter) =>
      match iter with
      | none => (none, p)
      | some iter => (some iter, ((p.unchain prev iter).passTimeout iter).setNext iter none)

/-- The loop of `mqtt_clear_requests`. -/
def clearLoop : ℕ → ReqPool → Option ReqPtr → Option ReqPool
  | _, p, none => some p
  | 0, _, some _ => none
  | rounds + 1, p, some iter => clearLoop rounds (p.mqttDeleteRequest iter) (p.next iter)

/-- `mqtt_clear_requests(&client->pend_req_queue)`. -/
def mqttClearRequests (p : ReqPool) : Option ReqPool :=
  (clearLoop mqttReqMaxInFlight p p.pendReqQueue).map fun p => { p with pendReqQueue := none }

/-- A round of the loop of `mqtt_request_time_elapsed`, up to the callback of the request that has
timed out, if one has: the requests, the time that is left, and that request. -/
def elapsedRound (p : ReqPool) (t : UInt8) : ReqPool × UInt8 × Option ReqPtr :=
  match p.pendReqQueue with
  | none => (p, 0, none)
  | some r =>
      if (p.reqList r).timeoutDiff.toNat ≤ t.toNat then
        ({ p with pendReqQueue := p.next r }, t - (p.reqList r).timeoutDiff.toUInt8, some r)
      else (p.setDiff r ((p.reqList r).timeoutDiff - t.toUInt16), 0, none)

end ReqPool

/-- A request that has timed out: when it was published, what was left of the time of a running
`mqtt_request_time_elapsed` then, and when it timed out, in seconds. -/
structure TimedOut where
  asked : ℕ
  rest : ℕ
  ended : ℕ
  deriving DecidableEq, Repr

/-- The requests, those whose callback runs, and the `t` of `mqtt_request_time_elapsed`. History
is the time `now` in seconds, as far as that function was told of it, when each request was
published and when it is due, and those that have timed out. -/
structure ReqSystem where
  pool : ReqPool
  calling : List ReqPtr
  t : UInt8
  now : ℕ
  asked : ReqPtr → ℕ
  rest : ReqPtr → ℕ
  due : ReqPtr → ℕ
  timedOut : List TimedOut

/-- What may happen between two calls of callbacks. `room` is what `mqtt_output_check_space` says.
A `SUBACK` that is too short is what makes a request be taken and not deleted. -/
inductive ReqAction
  | clientConnect
  | publish (pktId : UInt16) (cb arg : UInt32) (room : Bool)
  | take (pktId : UInt16)
  | delete (r : ReqPtr)
  | abandon (r : ReqPtr)
  | close
  | timeElapsed
  | round
  deriving DecidableEq, Repr

namespace ReqSystem

/-- The requests behind `mqtt_client_connect`. -/
def start : ReqSystem :=
  ⟨ReqPool.zero.mqttInitRequests, [], 0, 0, fun _ => 0, fun _ => 0, fun _ => 0, []⟩

/-- The time, less what the loop of `mqtt_request_time_elapsed` has not dealt with yet. -/
def time (s : ReqSystem) : ℕ := s.now - s.t.toNat

/-- The request `r` is published. -/
def askedFor (s : ReqSystem) (pool : ReqPool) (r : ReqPtr) : ReqSystem :=
  { s with
    pool := pool
    asked := Function.update s.asked r s.now
    rest := Function.update s.rest r s.t.toNat
    due := Function.update s.due r (s.time + mqttReqTimeout.toNat) }

end ReqSystem

/-- One step. -/
def reqStep (s : ReqSystem) : ReqAction → Option ReqSystem
  | .clientConnect => some { s with pool := ReqPool.zero.mqttInitRequests }
  | .publish pktId cb arg room =>
      match s.pool.mqttCreateRequest pktId cb arg with
      | none => some s
      | some (r, pool) =>
          if room then (pool.mqttAppendRequest r).map fun pool => s.askedFor pool r
          else some { s with pool := pool.mqttDeleteRequest r }
  | .take pktId =>
      (s.pool.mqttTakeRequest pktId).map fun (r, pool) =>
        { s with pool := pool, calling := r.toList ++ s.calling }
  | .delete r =>
      if r ∈ s.calling then
        some { s with pool := s.pool.mqttDeleteRequest r, calling := s.calling.erase r }
      else none
  | .abandon r =>
      if r ∈ s.calling then some { s with calling := s.calling.erase r } else none
  | .close => s.pool.mqttClearRequests.map fun pool => { s with pool := pool }
  | .timeElapsed =>
      if s.t = 0 then
        some { s with
          t := mqttCyclicTimerInterval
          now := s.now + mqttCyclicTimerInterval.toNat }
      else none
  | .round =>
      if 0 < s.t then
        let (pool, t, expired) := s.pool.elapsedRound s.t
        some { s with
          pool := pool
          t := t
          calling := expired.toList ++ s.calling
          timedOut := s.timedOut ++ expired.toList.map fun r => ⟨s.asked r, s.rest r, s.now⟩ }
      else none

/-- The client does not connect anew from within a callback of a request. -/
def Settled (s : ReqSystem) : ReqAction → Prop
  | .clientConnect => s.calling = []
  | _ => True

instance (s : ReqSystem) (a : ReqAction) : Decidable (Settled s a) :=
  match a with
  | .clientConnect => inferInstanceAs (Decidable (s.calling = []))
  | .publish _ _ _ _ | .take _ | .delete _ | .abandon _ | .close | .timeElapsed | .round =>
      isTrue trivial

/-! ## One operation -/

namespace ReqPool

section Stores

variable (p : ReqPool) (r : ReqPtr)

@[simp] theorem pendReqQueue_setNext (q : Option ReqPtr) :
    (p.setNext r q).pendReqQueue = p.pendReqQueue := rfl

@[simp] theorem pendReqQueue_setDiff (d : UInt16) :
    (p.setDiff r d).pendReqQueue = p.pendReqQueue := rfl

@[simp] theorem next_setNext (q : Option ReqPtr) :
    (p.setNext r q).next = Function.update p.next r q := by
  funext n
  by_cases hn : n = r
  · subst hn
    simp [setNext, modify, next]
  · simp [setNext, modify, next, hn]

@[simp] theorem diff_setNext (q : Option ReqPtr) : (p.setNext r q).diff = p.diff := by
  funext n
  by_cases hn : n = r
  · subst hn
    simp [setNext, modify, diff]
  · simp [setNext, modify, diff, hn]

@[simp] theorem next_setDiff (d : UInt16) : (p.setDiff r d).next = p.next := by
  funext n
  by_cases hn : n = r
  · subst hn
    simp [setDiff, modify, next]
  · simp [setDiff, modify, next, hn]

@[simp] theorem diff_setDiff (d : UInt16) :
    (p.setDiff r d).diff = Function.update p.diff r d.toNat := by
  funext n
  by_cases hn : n = r
  · subst hn
    simp [setDiff, modify, diff]
  · simp [setDiff, modify, diff, hn]

end Stores

variable {p p' : ReqPool} {r : ReqPtr} {queue : List ReqPtr}

/-- There is room for all pending requests in a loop. -/
theorem length_le_max (h : Path p.next p.pendReqQueue queue none) :
    queue.length ≤ mqttReqMaxInFlight := by
  simpa using h.nodup.length_le_card

/-- A created request was free, and is linked to nothing. -/
theorem mqttCreateRequest_eq_some {pktId : UInt16} {cb arg : UInt32}
    (h : p.mqttCreateRequest pktId cb arg = some (r, p')) :
    p.next r = some r ∧ p'.next = Function.update p.next r none ∧ p'.diff = p.diff ∧
      p'.pendReqQueue = p.pendReqQueue := by
  obtain ⟨r', hfind, heq⟩ := Option.map_eq_some_iff.mp h
  obtain ⟨rfl, rfl⟩ := Prod.mk.inj heq
  have hfree := List.find?_some hfind
  refine ⟨of_decide_eq_true hfree, ?_, ?_, rfl⟩
  · funext n
    by_cases hn : n = r'
    · subst hn
      simp [modify, next]
    · simp [modify, next, hn]
  · funext n
    by_cases hn : n = r'
    · subst hn
      simp [modify, diff]
    · simp [modify, diff, hn]

/-- What the loop of `mqtt_append_request` comes to. -/
theorem foldl_timeBefore (p : ReqPool) (queue : List ReqPtr) (before : UInt16)
    (head : Option ReqPtr) :
    queue.foldl (fun (timeBefore, _) iter => (timeBefore + (p.reqList iter).timeoutDiff, some iter))
        (before, head) =
      (before + (queue.map fun r => (p.reqList r).timeoutDiff).sum, queue.getLast?.or head) := by
  induction queue generalizing before head with
  | nil => simp
  | cons r queue ih =>
      rw [List.foldl_cons, ih, List.map_cons, List.sum_cons, ← UInt16.add_assoc]
      cases queue with
      | nil => rfl
      | cons s rest => simp [List.getLast?_cons]

/-- The timeouts add up without a carry. -/
theorem toNat_sum_timeoutDiff (h : (queue.map p.diff).sum < 65536) :
    (queue.map fun r => (p.reqList r).timeoutDiff).sum.toNat = (queue.map p.diff).sum := by
  induction queue with
  | nil => rfl
  | cons r queue ih =>
      rw [List.map_cons, List.sum_cons] at h
      rw [List.map_cons, List.sum_cons, List.map_cons, List.sum_cons, UInt16.toNat_add,
        ih (by omega)]
      exact Nat.mod_eq_of_lt h

/-- The request is put behind the pending ones, with what is left to `MQTT_REQ_TIMEOUT`. -/
theorem mqttAppendRequest_eq_some (h : Path p.next p.pendReqQueue queue none) (hr : r ∉ queue)
    (hnext : p.next r = none) (hsum : (queue.map p.diff).sum ≤ mqttReqTimeout.toNat) :
    ∃ p', p.mqttAppendRequest r = some p' ∧
      Path p'.next p'.pendReqQueue (queue ++ [r]) none ∧
      p'.diff = Function.update p.diff r (mqttReqTimeout.toNat - (queue.map p.diff).sum) ∧
      ∀ n, n ∉ queue → p'.next n = p.next n := by
  have htime := toNat_sum_timeoutDiff (Nat.lt_of_le_of_lt hsum (by decide))
  have hdiff : (mqttReqTimeout - (queue.map fun r => (p.reqList r).timeoutDiff).sum).toNat =
      mqttReqTimeout.toNat - (queue.map p.diff).sum := by
    rw [UInt16.toNat_sub_of_le _ _ (UInt16.le_iff_toNat_le.mpr (htime ▸ hsum)), htime]
  simp only [mqttAppendRequest, foldChain_eq _ h (length_le_max h), Option.map_some,
    foldl_timeBefore, UInt16.zero_add, Option.or_none]
  rcases List.eq_nil_or_concat queue with rfl | ⟨before, last, hqueue⟩
  · refine ⟨_, rfl, ?_, ?_, fun n _ => ?_⟩
    · show Path (p.setDiff r _).next (some r) [r] none
      simp [hnext]
    · show (p.setDiff r _).diff = _
      rw [diff_setDiff, hdiff]
    · exact congrFun (p.next_setDiff r _) n
  · rw [List.concat_eq_append] at hqueue
    subst hqueue
    rw [List.getLast?_concat]
    refine ⟨_, rfl, ?_, ?_, fun n hn => ?_⟩
    · simp only [next_setNext, pendReqQueue_setNext, next_setDiff, pendReqQueue_setDiff,
        List.append_assoc, List.singleton_append]
      exact h.link hr hnext
    · rw [diff_setNext, diff_setDiff, hdiff]
    · have hne : n ≠ last := fun heq => hn (heq ▸ List.mem_append_right before List.mem_cons_self)
      rw [next_setNext, next_setDiff, Function.update_of_ne hne]

theorem path_unchain {before behind : List ReqPtr}
    (h : Path p.next p.pendReqQueue (before ++ r :: behind) none) :
    Path (p.unchain before.getLast? r).next (p.unchain before.getLast? r).pendReqQueue
      (before ++ behind) none := by
  rcases List.eq_nil_or_concat before with rfl | ⟨before, last, rfl⟩
  · exact (path_cons.mp h).2
  · rw [List.concat_eq_append] at h ⊢
    rw [List.getLast?_concat]
    simp only [unchain, next_setNext, pendReqQueue_setNext]
    exact h.unlink

theorem next_unchain {before : List ReqPtr} {n : ReqPtr} (hn : n ∉ before) :
    (p.unchain before.getLast? r).next n = p.next n := by
  rcases List.eq_nil_or_concat before with rfl | ⟨before, last, rfl⟩
  · rfl
  · rw [List.concat_eq_append] at hn ⊢
    have hne : n ≠ last := fun heq => hn (heq ▸ List.mem_append_right before List.mem_cons_self)
    rw [List.getLast?_concat]
    simp only [unchain, next_setNext, Function.update_of_ne hne]

@[simp] theorem diff_unchain (prev : Option ReqPtr) : (p.unchain prev r).diff = p.diff := by
  cases prev with
  | none => rfl
  | some prev => exact p.diff_setNext prev _

@[simp] theorem next_passTimeout : (p.passTimeout r).next = p.next := by
  unfold passTimeout
  split
  next => rfl
  next => exact p.next_setDiff _ _

@[simp] theorem pendReqQueue_passTimeout : (p.passTimeout r).pendReqQueue = p.pendReqQueue := by
  unfold passTimeout
  split <;> rfl

/-- What the requests store when `r` is taken from before the requests `behind`. -/
def diffWithout (diff : ReqPtr → ℕ) (r : ReqPtr) : List ReqPtr → ReqPtr → ℕ
  | [] => diff
  | y :: _ => Function.update diff y (diff y + diff r)

theorem diff_passTimeout {behind : List ReqPtr} (hnext : p.next r = behind.head?)
    (hsum : ∀ y ∈ behind, p.diff y + p.diff r < 65536) :
    (p.passTimeout r).diff = diffWithout p.diff r behind := by
  cases behind with
  | nil => simp only [passTimeout, hnext, List.head?_nil, diffWithout]
  | cons y ys =>
      simp only [passTimeout, hnext, List.head?_cons, diff_setDiff, diffWithout]
      rw [UInt16.toNat_add]
      exact congrArg _ (Nat.mod_eq_of_lt (hsum y List.mem_cons_self))

/-- `mqtt_take_request` takes the first pending request with the packet identifier out, or there
is none. -/
theorem mqttTakeRequest_eq (h : Path p.next p.pendReqQueue queue none) (pktId : UInt16) :
    ((∀ r ∈ queue, (p.reqList r).pktId ≠ pktId) ∧ p.mqttTakeRequest pktId = some (none, p)) ∨
      ∃ before r behind, queue = before ++ r :: behind ∧ (p.reqList r).pktId = pktId ∧
        (∀ n ∈ before, (p.reqList n).pktId ≠ pktId) ∧
        p.mqttTakeRequest pktId =
          some (some r, ((p.unchain before.getLast? r).passTimeout r).setNext r none) := by
  by_cases hany : ∃ r ∈ queue, (p.reqList r).pktId = pktId
  · right
    obtain ⟨r, hr⟩ : ∃ r, queue.find? (fun n => (p.reqList n).pktId = pktId) = some r := by
      obtain ⟨r, hr, hpkt⟩ := hany
      exact Option.isSome_iff_exists.mp (List.find?_isSome.mpr ⟨r, hr, decide_eq_true hpkt⟩)
    obtain ⟨hpkt, before, behind, rfl, hbefore⟩ := List.find?_eq_some_iff_append.mp hr
    have hnot : ∀ n ∈ before, decide ((p.reqList n).pktId = pktId) = false := fun n hn => by
      simpa using hbefore n hn
    have hfind := findChain_eq_some h (length_le_max h) hnot hpkt none
    refine ⟨before, r, behind, rfl, of_decide_eq_true hpkt,
      fun n hn => of_decide_eq_false (hnot n hn), ?_⟩
    rw [Option.or_none] at hfind
    simp only [mqttTakeRequest, hfind, Option.map_some]
  · left
    have hall : ∀ r ∈ queue, (p.reqList r).pktId ≠ pktId := fun r hr hpkt => hany ⟨r, hr, hpkt⟩
    obtain ⟨last, hfind⟩ := findChain_eq_none h (length_le_max h)
      (fun r hr => decide_eq_false (hall r hr)) none
    exact ⟨hall, by simp only [mqttTakeRequest, hfind, Option.map_some]⟩

/-- The requests behind one that was taken. -/
theorem path_taken {before behind : List ReqPtr}
    (h : Path p.next p.pendReqQueue (before ++ r :: behind) none) :
    Path (((p.unchain before.getLast? r).passTimeout r).setNext r none).next
      (((p.unchain before.getLast? r).passTimeout r).setNext r none).pendReqQueue
      (before ++ behind) none := by
  have hr : r ∉ before ++ behind :=
    (List.nodup_cons.mp (List.nodup_middle.mp h.nodup)).1
  rw [next_setNext, path_update hr, next_passTimeout, pendReqQueue_setNext,
    pendReqQueue_passTimeout]
  exact path_unchain h

theorem clearLoop_eq {iter : Option ReqPtr} (h : Path p.next iter queue none) {rounds : ℕ}
    (hrounds : queue.length ≤ rounds) :
    ∃ p', clearLoop rounds p iter = some p' ∧
      ∀ n, p'.next n = if n ∈ queue then some n else p.next n := by
  induction queue generalizing p iter rounds with
  | nil =>
      obtain rfl := path_nil.mp h
      exact ⟨p, by cases rounds <;> rfl, fun n => by simp⟩
  | cons r queue ih =>
      have hr : r ∉ queue := (List.nodup_cons.mp h.nodup).1
      obtain ⟨rfl, hqueue⟩ := path_cons.mp h
      obtain ⟨rounds, rfl⟩ : ∃ n, rounds = n + 1 :=
        ⟨rounds - 1, by rw [List.length_cons] at hrounds; omega⟩
      have hpath : Path (p.mqttDeleteRequest r).next (p.next r) queue none := by
        rw [mqttDeleteRequest, next_setNext, path_update hr]
        exact hqueue
      obtain ⟨p', hloop, hnext⟩ := ih hpath (Nat.succ_le_succ_iff.mp hrounds)
      refine ⟨p', hloop, fun n => ?_⟩
      rw [hnext n, mqttDeleteRequest, next_setNext]
      by_cases hn : n = r
      · subst hn
        simp [hr]
      · simp [hn]

/-- `mqtt_clear_requests` frees what is pending. -/
theorem mqttClearRequests_eq_some (h : Path p.next p.pendReqQueue queue none) :
    ∃ p', p.mqttClearRequests = some p' ∧ p'.pendReqQueue = none ∧
      ∀ n, p'.next n = if n ∈ queue then some n else p.next n := by
  obtain ⟨p', hloop, hnext⟩ := clearLoop_eq h (length_le_max h)
  exact ⟨{ p' with pendReqQueue := none }, by rw [mqttClearRequests, hloop, Option.map_some], rfl,
    hnext⟩

end ReqPool

/-! ## Runs -/

namespace ReqSystem

/-- The requests `queue` are pending, and each of them is due when it should be. -/
structure Pending (s : ReqSystem) (queue : List ReqPtr) : Prop where
  path : Path s.pool.next s.pool.pendReqQueue queue none
  nodup : (queue ++ s.calling).Nodup
  used : ∀ r ∈ s.calling, s.pool.next r ≠ some r
  timed : Timed s.pool.diff s.due s.time queue
  due : ∀ r ∈ queue, s.due r ≤ s.time + mqttReqTimeout.toNat
  asked : ∀ r ∈ queue, s.asked r + mqttReqTimeout.toNat = s.due r + s.rest r

/-- The clock, and what it was when requests timed out. -/
structure Clock (s : ReqSystem) : Prop where
  interval : s.t ≤ mqttCyclicTimerInterval
  past : s.t.toNat ≤ s.now
  rest : ∀ r, s.rest r ≤ mqttCyclicTimerInterval.toNat
  timedOut : ∀ e ∈ s.timedOut, e.rest ≤ mqttCyclicTimerInterval.toNat ∧
    e.asked + mqttReqTimeout.toNat ≤ e.ended + e.rest ∧
    e.ended + e.rest ≤ e.asked + mqttReqTimeout.toNat + mqttCyclicTimerInterval.toNat

variable {s s' : ReqSystem} {queue : List ReqPtr}

/-- The assertion at the beginning of `mqtt_append_request`. -/
theorem Pending.sum_le (h : s.Pending queue) :
    (queue.map s.pool.diff).sum ≤ mqttReqTimeout.toNat := by
  have hle := h.timed.sum_le (Nat.le_add_right s.time mqttReqTimeout.toNat) h.due
  omega

theorem Pending.calling_of_mem (h : s.Pending queue) {r : ReqPtr} (hr : r ∈ queue) :
    r ∉ s.calling := fun hmem => (List.nodup_append.mp h.nodup).2.2 r hr r hmem rfl

/-- A free request is not pending, and its callback does not run. -/
theorem Pending.not_mem_of_free (h : s.Pending queue) {r : ReqPtr}
    (hfree : s.pool.next r = some r) : r ∉ queue ++ s.calling := by
  intro hmem
  rcases List.mem_append.mp hmem with hr | hr
  · exact h.path.next_ne hr hfree
  · exact h.used r hr hfree

theorem pending_start : start.Pending [] where
  path := rfl
  nodup := List.nodup_nil
  used _ hr := absurd hr List.not_mem_nil
  timed := trivial
  due _ hr := absurd hr List.not_mem_nil
  asked _ hr := absurd hr List.not_mem_nil

theorem clock_start : start.Clock where
  interval := by decide
  past := Nat.zero_le _
  rest _ := Nat.zero_le _
  timedOut _ he := absurd he List.not_mem_nil

/-- Nothing about the pending requests has changed. -/
theorem Pending.congr (h : s.Pending queue) (hnext : s'.pool.next = s.pool.next)
    (hdiff : s'.pool.diff = s.pool.diff) (hfirst : s'.pool.pendReqQueue = s.pool.pendReqQueue)
    (hcalling : s'.calling = s.calling) (htime : s'.time = s.time)
    (hhistory : s'.due = s.due ∧ s'.asked = s.asked ∧ s'.rest = s.rest) : s'.Pending queue := by
  obtain ⟨hdue, hasked, hrest⟩ := hhistory
  constructor
  · rw [hnext, hfirst]
    exact h.path
  · rw [hcalling]
    exact h.nodup
  · rw [hcalling, hnext]
    exact h.used
  · rw [hdiff, hdue, htime]
    exact h.timed
  · rw [hdue, htime]
    exact h.due
  · rw [hasked, hdue, hrest]
    exact h.asked

/-- `mqtt_publish` with room for the packet. -/
theorem Pending.publish (h : s.Pending queue) (hclock : s.Clock) {pktId : UInt16} {cb arg : UInt32}
    {r : ReqPtr} {p : ReqPool} (hcreate : s.pool.mqttCreateRequest pktId cb arg = some (r, p)) :
    ∃ p', p.mqttAppendRequest r = some p' ∧ (s.askedFor p' r).Pending (queue ++ [r]) := by
  obtain ⟨hfree, hnext, hdiff, hfirst⟩ := ReqPool.mqttCreateRequest_eq_some hcreate
  have hnot := h.not_mem_of_free hfree
  obtain ⟨hqueue, hcalling⟩ := not_or.mp fun hmem => hnot (List.mem_append.mpr hmem)
  have hpath : Path p.next p.pendReqQueue queue none := by
    rw [hnext, hfirst, path_update hqueue]
    exact h.path
  have hlink : p.next r = none := by rw [hnext, Function.update_self]
  have hsum : (queue.map p.diff).sum ≤ mqttReqTimeout.toNat := by
    rw [hdiff]
    exact h.sum_le
  obtain ⟨p', happend, hpath', hdiff', hkeep⟩ :=
    ReqPool.mqttAppendRequest_eq_some hpath hqueue hlink hsum
  refine ⟨p', happend, hpath', ?_, fun n hn => ?_, ?_, fun n hn => ?_, fun n hn => ?_⟩
  · rw [List.append_assoc, List.singleton_append]
    exact List.nodup_middle.mpr (List.nodup_cons.mpr ⟨hnot, h.nodup⟩)
  · have hne : n ≠ r := fun heq => hcalling (heq ▸ hn)
    show p'.next n ≠ some n
    rw [hkeep n fun hmem => h.calling_of_mem hmem hn, hnext, Function.update_of_ne hne]
    exact h.used n hn
  · show Timed p'.diff (Function.update s.due r (s.time + mqttReqTimeout.toNat)) s.time _
    have hsnoc := h.timed.snoc hqueue (Nat.add_le_add_left h.sum_le s.time)
    rwa [Nat.add_sub_add_left, ← hdiff, ← hdiff'] at hsnoc
  · show Function.update s.due r _ n ≤ _
    by_cases hr : n = r
    · rw [hr, Function.update_self]
      exact Nat.le_refl _
    · rw [Function.update_of_ne hr]
      exact h.due n ((List.mem_append.mp hn).resolve_right fun heq => hr (List.mem_singleton.mp heq))
  · show Function.update s.asked r s.now n + _ =
      Function.update s.due r _ n + Function.update s.rest r s.t.toNat n
    by_cases hr : n = r
    · have hpast := hclock.past
      rw [hr, Function.update_self, Function.update_self, Function.update_self, ReqSystem.time]
      omega
    · rw [Function.update_of_ne hr, Function.update_of_ne hr, Function.update_of_ne hr]
      exact h.asked n
        ((List.mem_append.mp hn).resolve_right fun heq => hr (List.mem_singleton.mp heq))

/-- `mqtt_publish` without room for the packet. -/
theorem Pending.refuse (h : s.Pending queue) {pktId : UInt16} {cb arg : UInt32} {r : ReqPtr}
    {p : ReqPool} (hcreate : s.pool.mqttCreateRequest pktId cb arg = some (r, p)) :
    ({ s with pool := p.mqttDeleteRequest r }).Pending queue := by
  obtain ⟨hfree, hnext, hdiff, hfirst⟩ := ReqPool.mqttCreateRequest_eq_some hcreate
  refine h.congr ?_ ?_ ?_ rfl rfl ⟨rfl, rfl, rfl⟩
  · show (p.setNext r (some r)).next = s.pool.next
    rw [ReqPool.next_setNext, hnext, Function.update_idem, ← hfree, Function.update_eq_self]
  · show (p.setNext r (some r)).diff = s.pool.diff
    rw [ReqPool.diff_setNext, hdiff]
  · exact hfirst

/-- A request is taken out of the queue. -/
theorem Pending.taken {before behind : List ReqPtr} {r : ReqPtr}
    (h : s.Pending (before ++ r :: behind)) :
    ({ s with
      pool := ((s.pool.unchain before.getLast? r).passTimeout r).setNext r none
      calling := r :: s.calling }).Pending (before ++ behind) := by
  have hperm : (before ++ behind ++ r :: s.calling).Perm (before ++ r :: behind ++ s.calling) :=
    List.perm_middle.trans (List.perm_middle.symm.append_right s.calling)
  have hsub : ∀ n ∈ before ++ behind, n ∈ before ++ r :: behind := fun n hn =>
    (List.perm_middle.mem_iff).mpr (List.mem_cons_of_mem r hn)
  have hlink : s.pool.next r = behind.head? := by
    have hrest := (path_append_cons.mp h.path).2
    exact hrest.eq_head?
  have hlink' : (s.pool.unchain before.getLast? r).next r = behind.head? := by
    have hr : r ∉ before := fun hmem =>
      (List.nodup_append.mp h.path.nodup).2.2 r hmem r List.mem_cons_self rfl
    rw [ReqPool.next_unchain hr, hlink]
  refine ⟨ReqPool.path_taken h.path, hperm.nodup_iff.mpr h.nodup, fun n hn => ?_, ?_,
    fun n hn => h.due n (hsub n hn), fun n hn => h.asked n (hsub n hn)⟩
  · show (ReqPool.setNext _ r none).next n ≠ some n
    rw [ReqPool.next_setNext]
    by_cases hr : n = r
    · rw [hr, Function.update_self]
      exact fun heq => Option.some_ne_none r heq.symm
    · have hn := (List.mem_cons.mp hn).resolve_left hr
      have hbefore : n ∉ before := fun hmem =>
        h.calling_of_mem (List.mem_append_left _ hmem) hn
      rw [Function.update_of_ne hr, ReqPool.next_passTimeout, ReqPool.next_unchain hbefore]
      exact h.used n hn
  · show Timed (ReqPool.setNext _ r none).diff s.due s.time _
    have hle : ∀ n ∈ before ++ r :: behind, s.pool.diff n ≤ mqttReqTimeout.toNat := fun n hn =>
      Nat.le_trans (List.single_le_sum (fun _ _ => Nat.zero_le _) _ (List.mem_map_of_mem hn))
        h.sum_le
    have hsum : ∀ n ∈ behind, s.pool.diff n + s.pool.diff r < 65536 := fun n hn => by
      have hn := hle n (hsub n (List.mem_append_right before hn))
      have hr := hle r (List.mem_append_right before List.mem_cons_self)
      have htimeout : mqttReqTimeout.toNat = 30 := rfl
      omega
    rw [ReqPool.diff_setNext, ReqPool.diff_passTimeout hlink' (by simpa using hsum),
      ReqPool.diff_unchain]
    have htimed := h.timed
    cases behind with
    | nil =>
        rw [List.append_nil]
        exact (timed_append.mp htimed).1
    | cons y ys => exact htimed.remove h.path.nodup

/-- A request whose callback has run is deleted. -/
theorem Pending.delete (h : s.Pending queue) {r : ReqPtr} (hr : r ∈ s.calling) :
    ({ s with
      pool := s.pool.mqttDeleteRequest r
      calling := s.calling.erase r }).Pending queue := by
  have hqueue : r ∉ queue := fun hmem => h.calling_of_mem hmem hr
  have hcalling : s.calling.Nodup := (List.nodup_append.mp h.nodup).2.1
  refine ⟨?_, h.nodup.sublist (List.erase_sublist.append_left queue), fun n hn => ?_, ?_, h.due,
    h.asked⟩
  · show Path (s.pool.setNext r (some r)).next s.pool.pendReqQueue queue none
    rw [ReqPool.next_setNext, path_update hqueue]
    exact h.path
  · obtain ⟨hne, hn⟩ := hcalling.mem_erase_iff.mp hn
    show (s.pool.setNext r (some r)).next n ≠ some n
    rw [ReqPool.next_setNext, Function.update_of_ne hne]
    exact h.used n hn
  · show Timed (s.pool.setNext r (some r)).diff s.due s.time queue
    rw [ReqPool.diff_setNext]
    exact h.timed

/-- A request that was taken is not deleted. -/
theorem Pending.abandon (h : s.Pending queue) (r : ReqPtr) :
    ({ s with calling := s.calling.erase r }).Pending queue :=
  ⟨h.path, h.nodup.sublist (List.erase_sublist.append_left queue),
    fun n hn => h.used n (List.mem_of_mem_erase hn), h.timed, h.due, h.asked⟩

theorem Pending.close (h : s.Pending queue) :
    ∃ p, s.pool.mqttClearRequests = some p ∧ ({ s with pool := p }).Pending [] := by
  obtain ⟨p, hclear, hfirst, hnext⟩ := ReqPool.mqttClearRequests_eq_some h.path
  refine ⟨p, hclear, hfirst, (List.nodup_append.mp h.nodup).2.1, fun n hn => ?_, trivial,
    fun n hn => absurd hn List.not_mem_nil, fun n hn => absurd hn List.not_mem_nil⟩
  show p.next n ≠ some n
  rw [hnext n, if_neg fun hmem => h.calling_of_mem hmem hn]
  exact h.used n hn

/-- `mqtt_request_time_elapsed` is called. -/
theorem Pending.timeElapsed (h : s.Pending queue) (ht : s.t = 0) :
    ({ s with
      t := mqttCyclicTimerInterval
      now := s.now + mqttCyclicTimerInterval.toNat }).Pending queue := by
  refine h.congr rfl rfl rfl rfl ?_ ⟨rfl, rfl, rfl⟩
  show s.now + mqttCyclicTimerInterval.toNat - mqttCyclicTimerInterval.toNat = s.now - s.t.toNat
  rw [Nat.add_sub_cancel, ht]
  rfl

/-- The first request times out in this round. -/
theorem Pending.expired {r : ReqPtr} (h : s.Pending (r :: queue)) (hclock : s.Clock)
    (hle : (s.pool.reqList r).timeoutDiff.toNat ≤ s.t.toNat) (timedOut : List TimedOut) :
    ({ s with
      pool := { s.pool with pendReqQueue := s.pool.next r }
      t := s.t - (s.pool.reqList r).timeoutDiff.toUInt8
      calling := r :: s.calling
      timedOut := timedOut }).Pending queue ∧
      s.due r = s.now - (s.t - (s.pool.reqList r).timeoutDiff.toUInt8).toNat := by
  have ht := s.t.toNat_lt
  have hpast := hclock.past
  have hdiff : (s.pool.reqList r).timeoutDiff.toUInt8.toNat = s.pool.diff r := by
    rw [UInt16.toNat_toUInt8]
    exact Nat.mod_eq_of_lt (Nat.lt_of_le_of_lt hle ht)
  have hleft : (s.t - (s.pool.reqList r).timeoutDiff.toUInt8).toNat = s.t.toNat - s.pool.diff r := by
    rw [UInt8.toNat_sub_of_le _ _ (UInt8.le_iff_toNat_le.mpr (hdiff ▸ hle)), hdiff]
  have hr := h.timed.1
  have hdue : s.due r = s.now - (s.t - (s.pool.reqList r).timeoutDiff.toUInt8).toNat := by
    have hle : s.pool.diff r ≤ s.t.toNat := hle
    rw [hr, hleft, ReqSystem.time]
    omega
  refine ⟨⟨(path_cons.mp h.path).2, List.nodup_middle.mpr h.nodup, fun n hn => ?_, ?_,
    fun n hn => ?_, fun n hn => h.asked n (List.mem_cons_of_mem r hn)⟩, hdue⟩
  · rcases List.mem_cons.mp hn with rfl | hn
    · exact h.path.next_ne List.mem_cons_self
    · exact h.used n hn
  · show Timed s.pool.diff s.due (s.now - (s.t - _).toNat) queue
    rw [← hdue]
    exact h.timed.2
  · show s.due n ≤ s.now - (s.t - _).toNat + _
    have hn := h.due n (List.mem_cons_of_mem r hn)
    rw [← hdue]
    omega

/-- No request times out in this round. -/
theorem Pending.notYet {r : ReqPtr} (h : s.Pending (r :: queue)) (hclock : s.Clock)
    (hlt : ¬ (s.pool.reqList r).timeoutDiff.toNat ≤ s.t.toNat) :
    ({ s with
      pool := s.pool.setDiff r ((s.pool.reqList r).timeoutDiff - s.t.toUInt16)
      t := 0 }).Pending (r :: queue) := by
  have hpast := hclock.past
  have hlt : s.t.toNat < s.pool.diff r := Nat.not_le.mp hlt
  have ht : s.t.toUInt16.toNat = s.t.toNat := UInt8.toNat_toUInt16 s.t
  have htime : s.time + s.t.toNat = s.now := by rw [ReqSystem.time]; omega
  have hdiff : ((s.pool.reqList r).timeoutDiff - s.t.toUInt16).toNat =
      s.pool.diff r - s.t.toNat := by
    rw [UInt16.toNat_sub_of_le _ _ (UInt16.le_iff_toNat_le.mpr (ht ▸ hlt.le)), ht]
    rfl
  refine ⟨?_, h.nodup, fun n hn => ?_, ?_, fun n hn => ?_, h.asked⟩
  · show Path (s.pool.setDiff r _).next s.pool.pendReqQueue _ none
    rw [ReqPool.next_setDiff]
    exact h.path
  · show (s.pool.setDiff r _).next n ≠ some n
    rw [ReqPool.next_setDiff]
    exact h.used n hn
  · show Timed (s.pool.setDiff r _).diff s.due s.now _
    rw [ReqPool.diff_setDiff, hdiff, ← htime]
    exact h.timed.advance (List.nodup_cons.mp h.path.nodup).1 hlt.le
  · show s.due n ≤ s.now + _
    have hn := h.due n hn
    omega

theorem Pending.step (h : s.Pending queue) (hclock : s.Clock) {a : ReqAction}
    (hsettled : Settled s a) (hstep : reqStep s a = some s') : ∃ queue', s'.Pending queue' := by
  cases a with
  | clientConnect =>
      obtain rfl := Option.some.inj hstep
      have hcalling : s.calling = [] := hsettled
      exact ⟨[], rfl, by simp [hcalling], by simp [hcalling], trivial, by simp, by simp⟩
  | publish pktId cb arg room =>
      simp only [reqStep] at hstep
      cases hcreate : s.pool.mqttCreateRequest pktId cb arg with
      | none =>
          rw [hcreate] at hstep
          exact ⟨queue, Option.some.inj hstep ▸ h⟩
      | some rp =>
          obtain ⟨r, p⟩ := rp
          rw [hcreate] at hstep
          cases room with
          | true =>
              obtain ⟨p', happend, hpending⟩ := h.publish hclock hcreate
              simp only [if_true, happend, Option.map_some, Option.some.injEq] at hstep
              exact ⟨queue ++ [r], hstep ▸ hpending⟩
          | false =>
              simp only [Bool.false_eq_true, if_false, Option.some.injEq] at hstep
              exact ⟨queue, hstep ▸ h.refuse hcreate⟩
  | take pktId =>
      simp only [reqStep] at hstep
      rcases ReqPool.mqttTakeRequest_eq h.path pktId with
        ⟨-, htake⟩ | ⟨before, r, behind, rfl, -, -, htake⟩
      · rw [htake, Option.map_some] at hstep
        exact ⟨queue, Option.some.inj hstep ▸ h⟩
      · rw [htake, Option.map_some] at hstep
        exact ⟨before ++ behind, Option.some.inj hstep ▸ h.taken⟩
  | delete r =>
      obtain ⟨hr, hstep⟩ : r ∈ s.calling ∧ _ := Option.ite_none_right_eq_some.mp hstep
      exact ⟨queue, Option.some.inj hstep ▸ h.delete hr⟩
  | abandon r =>
      obtain ⟨-, hstep⟩ : r ∈ s.calling ∧ _ := Option.ite_none_right_eq_some.mp hstep
      exact ⟨queue, Option.some.inj hstep ▸ h.abandon r⟩
  | close =>
      obtain ⟨p, hclear, hpending⟩ := h.close
      simp only [reqStep, hclear, Option.map_some, Option.some.injEq] at hstep
      exact ⟨[], hstep ▸ hpending⟩
  | timeElapsed =>
      obtain ⟨ht, hstep⟩ : s.t = 0 ∧ _ := Option.ite_none_right_eq_some.mp hstep
      exact ⟨queue, Option.some.inj hstep ▸ h.timeElapsed ht⟩
  | round =>
      obtain ⟨-, hstep⟩ : 0 < s.t ∧ _ := Option.ite_none_right_eq_some.mp hstep
      obtain rfl := Option.some.inj hstep
      cases queue with
      | nil =>
          have hfirst : s.pool.pendReqQueue = none := h.path
          simp only [hfirst]
          exact ⟨[], hfirst, h.nodup, h.used, trivial, by simp, by simp⟩
      | cons r queue =>
          have hfirst : s.pool.pendReqQueue = some r := h.path.1
          simp only [hfirst]
          split_ifs with hle
          · exact ⟨queue, (h.expired hclock hle _).1⟩
          · have hpending := h.notYet hclock hle
            exact ⟨r :: queue, hpending.congr rfl rfl rfl rfl rfl ⟨rfl, rfl, rfl⟩⟩

theorem Clock.step (hclock : s.Clock) (h : s.Pending queue) {a : ReqAction}
    (hstep : reqStep s a = some s') : s'.Clock := by
  cases a with
  | clientConnect =>
      obtain rfl := Option.some.inj hstep
      exact ⟨hclock.interval, hclock.past, hclock.rest, hclock.timedOut⟩
  | publish pktId cb arg room =>
      simp only [reqStep] at hstep
      cases hcreate : s.pool.mqttCreateRequest pktId cb arg with
      | none =>
          rw [hcreate] at hstep
          exact Option.some.inj hstep ▸ hclock
      | some rp =>
          obtain ⟨r, p⟩ := rp
          rw [hcreate] at hstep
          cases room with
          | true =>
              obtain ⟨p', -, hstep⟩ := Option.map_eq_some_iff.mp hstep
              refine hstep ▸ ⟨hclock.interval, hclock.past, fun n => ?_, hclock.timedOut⟩
              show Function.update s.rest r s.t.toNat n ≤ _
              by_cases hn : n = r
              · rw [hn, Function.update_self]
                exact UInt8.le_iff_toNat_le.mp hclock.interval
              · rw [Function.update_of_ne hn]
                exact hclock.rest n
          | false =>
              exact Option.some.inj hstep ▸
                ⟨hclock.interval, hclock.past, hclock.rest, hclock.timedOut⟩
  | take pktId =>
      obtain ⟨rp, -, rfl⟩ := Option.map_eq_some_iff.mp hstep
      exact ⟨hclock.interval, hclock.past, hclock.rest, hclock.timedOut⟩
  | delete r =>
      obtain ⟨-, hstep⟩ : r ∈ s.calling ∧ _ := Option.ite_none_right_eq_some.mp hstep
      exact Option.some.inj hstep ▸ ⟨hclock.interval, hclock.past, hclock.rest, hclock.timedOut⟩
  | abandon r =>
      obtain ⟨-, hstep⟩ : r ∈ s.calling ∧ _ := Option.ite_none_right_eq_some.mp hstep
      exact Option.some.inj hstep ▸ ⟨hclock.interval, hclock.past, hclock.rest, hclock.timedOut⟩
  | close =>
      obtain ⟨p, -, rfl⟩ := Option.map_eq_some_iff.mp hstep
      exact ⟨hclock.interval, hclock.past, hclock.rest, hclock.timedOut⟩
  | timeElapsed =>
      obtain ⟨-, hstep⟩ : s.t = 0 ∧ _ := Option.ite_none_right_eq_some.mp hstep
      exact Option.some.inj hstep ▸
        ⟨UInt8.le_refl _, Nat.le_add_left _ _, hclock.rest, hclock.timedOut⟩
  | round =>
      obtain ⟨-, hstep⟩ : 0 < s.t ∧ _ := Option.ite_none_right_eq_some.mp hstep
      obtain rfl := Option.some.inj hstep
      have hinterval := UInt8.le_iff_toNat_le.mp hclock.interval
      have hpast := hclock.past
      cases queue with
      | nil =>
          have hfirst : s.pool.pendReqQueue = none := h.path
          simp only [hfirst, Option.toList_none, List.map_nil,
            List.append_nil]
          exact ⟨UInt8.zero_le, Nat.zero_le _, hclock.rest, hclock.timedOut⟩
      | cons r queue =>
          have hfirst : s.pool.pendReqQueue = some r := h.path.1
          simp only [hfirst]
          split_ifs with hle
          · obtain ⟨-, hdue⟩ := h.expired hclock hle s.timedOut
            have hasked := h.asked r List.mem_cons_self
            have hrest := hclock.rest r
            have hleft : (s.t - (s.pool.reqList r).timeoutDiff.toUInt8).toNat ≤ s.t.toNat := by
              have ht := s.t.toNat_lt
              rw [UInt8.toNat_sub_of_le _ _ (UInt8.le_iff_toNat_le.mpr _), UInt16.toNat_toUInt8]
              · exact Nat.sub_le _ _
              · rw [UInt16.toNat_toUInt8]
                exact Nat.le_trans (Nat.mod_le _ _) hle
            refine ⟨UInt8.le_iff_toNat_le.mpr (Nat.le_trans hleft hinterval),
              Nat.le_trans hleft hpast, hclock.rest, fun e he => ?_⟩
            rcases List.mem_append.mp he with he | he
            · exact hclock.timedOut e he
            · obtain rfl := List.mem_singleton.mp he
              refine ⟨hrest, ?_, ?_⟩ <;> simp only <;> omega
          · simp only [Option.toList_none, List.map_nil, List.append_nil]
            exact ⟨UInt8.zero_le, Nat.zero_le _, hclock.rest, hclock.timedOut⟩

end ReqSystem

/-- Every request is free, or pending once, or taken once. No loop over the pending ones goes round
for ever. -/
structure Accounted (s : ReqSystem) : Prop where
  pending : ∃ queue, Path s.pool.next s.pool.pendReqQueue queue none ∧
    (queue ++ s.calling).Nodup ∧ ∀ r ∈ queue ++ s.calling, s.pool.next r ≠ some r
  /-- A request that is created can be appended. -/
  append : ∀ pktId cb arg r p, s.pool.mqttCreateRequest pktId cb arg = some (r, p) →
    (p.mqttAppendRequest r).isSome
  take : ∀ pktId, (s.pool.mqttTakeRequest pktId).isSome
  clear : s.pool.mqttClearRequests.isSome

/-- The requests time out when they should, up to the time between two calls of the timer. -/
structure InTime (s : ReqSystem) : Prop where
  /-- `time_before <= MQTT_REQ_TIMEOUT`, as `mqtt_append_request` used to assert. -/
  timeBefore : ∀ queue, Path s.pool.next s.pool.pendReqQueue queue none →
    (queue.map s.pool.diff).sum ≤ mqttReqTimeout.toNat
  /-- A pending request is due `MQTT_REQ_TIMEOUT` seconds behind its call, less what the loop that
  has called its callback had not dealt with. -/
  due : ∀ queue, Path s.pool.next s.pool.pendReqQueue queue none → ∀ r ∈ queue,
    s.asked r + mqttReqTimeout.toNat = s.due r + s.rest r ∧ s.rest r ≤ 5
  /-- None is pending for longer, except while `mqtt_request_time_elapsed` is at work. -/
  notOverdue : ∀ queue, Path s.pool.next s.pool.pendReqQueue queue none → ∀ r ∈ queue,
    s.now ≤ s.due r + s.t.toNat ∧ s.t.toNat ≤ 5
  timedOut : ∀ e ∈ s.timedOut, e.rest ≤ 5 ∧ e.asked + mqttReqTimeout.toNat ≤ e.ended + e.rest ∧
    e.ended + e.rest ≤ e.asked + mqttReqTimeout.toNat + 5

namespace ReqSystem

variable {s : ReqSystem} {queue : List ReqPtr}

theorem Pending.accounted (h : s.Pending queue) (hclock : s.Clock) : Accounted s where
  pending := by
    refine ⟨queue, h.path, h.nodup, fun r hr => ?_⟩
    rcases List.mem_append.mp hr with hr | hr
    · exact h.path.next_ne hr
    · exact h.used r hr
  append pktId cb arg r p hcreate := by
    obtain ⟨p', happend, -⟩ := h.publish hclock hcreate
    rw [happend]
    rfl
  take pktId := by
    rcases ReqPool.mqttTakeRequest_eq h.path pktId with ⟨-, htake⟩ | ⟨_, _, _, -, -, -, htake⟩
    · rw [htake]
      rfl
    · rw [htake]
      rfl
  clear := by
    obtain ⟨p, hclear, -⟩ := h.close
    rw [hclear]
    rfl

theorem Pending.inTime (h : s.Pending queue) (hclock : s.Clock) : InTime s where
  timeBefore queue' hpath := by
    rw [hpath.unique h.path]
    exact h.sum_le
  due queue' hpath r hr := by
    rw [hpath.unique h.path] at hr
    exact ⟨h.asked r hr, hclock.rest r⟩
  notOverdue queue' hpath r hr := by
    rw [hpath.unique h.path] at hr
    have hle : s.now - s.t.toNat ≤ s.due r := h.timed.le hr
    exact ⟨by omega, UInt8.le_iff_toNat_le.mp hclock.interval⟩
  timedOut := hclock.timedOut

end ReqSystem

theorem requests_pending {as : List ReqAction} {s : ReqSystem}
    (h : Run reqStep Settled ReqSystem.start as s) : ∃ queue, s.Pending queue ∧ s.Clock :=
  h.invariant (fun s : ReqSystem => ∃ queue, s.Pending queue ∧ s.Clock)
    (fun _ _ _ ⟨_, hpending, hclock⟩ hsettled hstep =>
      (hpending.step hclock hsettled hstep).imp fun _ hpending' =>
        ⟨hpending', hclock.step hpending hstep⟩)
    ⟨[], ReqSystem.pending_start, ReqSystem.clock_start⟩

theorem requests_accounted {as : List ReqAction} {s : ReqSystem}
    (h : Run reqStep Settled ReqSystem.start as s) : Accounted s := by
  obtain ⟨queue, hpending, hclock⟩ := requests_pending h
  exact hpending.accounted hclock

/-- Three requests, the second one is acknowledged, and its callback publishes. -/
theorem requests_accounted_callback :
    ∃ s, Run reqStep Settled ReqSystem.start
      [.publish 1 0 0 true, .publish 2 0 0 true, .publish 3 0 0 true, .take 2,
        .publish 4 0 0 true, .delete 1] s ∧
      (decide (s.pool.next 2 = some 3) && decide (s.pool.next 1 = some 1)) = true ∧
      Accounted s := by
  obtain ⟨s, hrun, hp⟩ := Run.exists_of_exec reqStep Settled ReqSystem.start
    [.publish 1 0 0 true, .publish 2 0 0 true, .publish 3 0 0 true, .take 2,
      .publish 4 0 0 true, .delete 1]
    (fun s => decide (s.pool.next 2 = some 3) && decide (s.pool.next 1 = some 1)) (by decide)
  exact ⟨s, hrun, hp, requests_accounted hrun⟩

end Lwip
