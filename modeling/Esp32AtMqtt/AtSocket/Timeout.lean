import Esp32AtMqtt.AtSocket.Table
import Mathlib.Algebra.Order.Ring.Int

/-!
# Timeouts of a socket

`at_setsockopt` turns a time into milliseconds, `at_getsockopt` turns them back, and `at_recvfrom`
waits for so many ticks. No milliseconds stand for no end of the wait, and less than one
millisecond is cut to none (`keepsTimeouts_iff`). At the other end are the milliseconds that
overflow, and the wait that the kernel's timer does not take.
-/

namespace AtSock

open Kernel.RtSemaphore

/-- `struct timeval`. -/
structure Timeval where
  tvSec : ℤ
  tvUsec : ℤ
  deriving DecidableEq, Repr

/-- A time in two words of 32 bits: whole seconds, and less than a second. -/
structure Duration extends Timeval where
  sec_nonneg : 0 ≤ tvSec
  sec_lt : tvSec < 0x80000000
  usec_nonneg : 0 ≤ tvUsec
  usec_lt : tvUsec < 1000000

/-- A time in microseconds. -/
def Timeval.micros (tv : Timeval) : ℤ := tv.tvSec * 1000000 + tv.tvUsec

/-- A time in whole milliseconds. -/
def Timeval.rounded (tv : Timeval) : Timeval := ⟨tv.tvSec, tv.tvUsec / 1000 * 1000⟩

/-- The result of a signed operation on 32 bits, which is undefined when it overflows. -/
def signedResult (n : ℤ) : Option ℤ :=
  if -0x80000000 ≤ n ∧ n < 0x80000000 then some n else none

/-- `tv_sec * 1000 + tv_usec / 1000`. -/
def Timeval.msec (tv : Timeval) : Option ℤ :=
  (signedResult (tv.tvSec * 1000)).bind fun sec => signedResult (sec + tv.tvUsec.tdiv 1000)

/-- `timeout / 1000U` and `(timeout % 1000U) * 1000U`, of the timeout without its sign. -/
def ofMsec (timeout : ℤ) : Timeval :=
  let t := timeout % 0x100000000
  ⟨t / 1000, t % 1000 * 1000⟩

/-- `SO_RCVTIMEO` and `SO_SNDTIMEO`. -/
inductive TimeoutOpt
  | rcvtimeo
  | sndtimeo
  deriving DecidableEq, Repr

inductive SockoptLevel
  | solSocket
  | ipprotoTcp
  | other
  deriving DecidableEq, Repr

/-- `optname`, of which the level `IPPROTO_TCP` takes any. -/
inductive SockoptName
  | timeout (o : TimeoutOpt)
  | other
  deriving DecidableEq, Repr

/-- The field of an option. -/
def AtSocket.timeout (sock : AtSocket) : TimeoutOpt → ℤ
  | .rcvtimeo => sock.recvTimeout
  | .sndtimeo => sock.sendTimeout

/-- Store in the field of an option. -/
def AtSocket.setTimeout (sock : AtSocket) (o : TimeoutOpt) (ms : ℤ) : AtSocket :=
  match o with
  | .rcvtimeo => { sock with recvTimeout := ms }
  | .sndtimeo => { sock with sendTimeout := ms }

/-- `at_setsockopt(socket, level, optname, optval, optlen)`: the returned value and the sockets,
unless the milliseconds overflow. A null `optval` is refused whatever the option is. -/
def atSetsockopt (sockets : List AtSocket) (socket : ℤ) (level : SockoptLevel)
    (optname : SockoptName) (optval : Option Timeval) : Option (ℤ × List AtSocket) :=
  match optval, atGetSocket sockets socket with
  | none, _ => some (-1, sockets)
  | some _, none => some (-1, sockets)
  | some tv, some sock =>
      match level, optname with
      | .solSocket, .timeout o =>
          tv.msec.map fun ms => (0, sockets.set socket.toNat (sock.setTimeout o ms))
      | .solSocket, .other => some (-1, sockets)
      | .ipprotoTcp, _ => some (0, sockets)
      | .other, _ => some (-1, sockets)

/-- `at_getsockopt(socket, level, optname, optval, optlen)`: the returned value and what is stored
in `optval`. -/
def atGetsockopt (sockets : List AtSocket) (socket : ℤ) (level : SockoptLevel)
    (optname : SockoptName) (optval optlen : Bool) : ℤ × Option Timeval :=
  if ¬ optval ∨ ¬ optlen then (-1, none)
  else
    match atGetSocket sockets socket with
    | none => (-1, none)
    | some sock =>
        match level, optname with
        | .solSocket, .timeout o => (0, some (ofMsec (sock.timeout o)))
        | _, _ => (-1, none)

/-- `RT_WAITING_FOREVER`. -/
def rtWaitingForever : ℤ := -1

/-- `RT_TICK_MAX`. -/
def rtTickMax : ℤ := 0xFFFFFFFF

/-- How `rt_sem_take` ends at a semaphore that is zero and that nobody releases. -/
inductive TakeEnd
  | timeout
  | never
  | assertion
  deriving DecidableEq, Repr

/-- `rt_sem_take(sem, time)` at such a semaphore. `rt_timer_start` asserts that the time is less
than half of what ticks can count, and `RT_DEBUG` is defined. -/
def rtSemTakeAlone (time : ℤ) : TakeEnd :=
  if time = 0 then .timeout
  else if 0 < time then if time < rtTickMax / 2 then .timeout else .assertion
  else .never

/-- The loop of `at_recvfrom` when nothing arrives and the semaphore has been released `value`
times too often: the returned value, when it comes back. -/
def recvLoopAlone (timeout : ℤ) : ℕ → Option ℤ
  | 0 =>
      match rtSemTakeAlone timeout with
      | .timeout => some (-1)
      | .never => none
      | .assertion => none
  | value + 1 => recvLoopAlone timeout value

/-- `at_recvfrom(socket, mem, len, flags, from, fromlen)` on the socket when nothing else happens,
without `from`: the returned value, when it comes back. -/
def atRecvfromAlone (sock : AtSocket) (len : ℕ) (dontwait : Bool) : Option ℤ :=
  if len = 0 then some (-1)
  else if sock.state ≠ .connect then some (-1)
  else
    let recvLen := (atRecvpktGet sock.recvpktList len).contentPos
    if 0 < recvLen then some recvLen
    else if dontwait then some 0
    else
      let timeout := if sock.recvTimeout = 0 then rtWaitingForever else sock.recvTimeout
      sock.recvNotice.bind fun sem => recvLoopAlone timeout sem.value.toNat

/-- A connected socket with nothing to read. -/
structure Idle (sock : AtSocket) : Prop where
  state_eq : sock.state = .connect
  recvpktList_eq : sock.recvpktList = []
  recvNotice_isSome : sock.recvNotice.isSome

/-- What is waited for on the socket once its timeout is `timeout`. -/
def WaitsFor (timeout : ℤ) (tv : Timeval) : Prop :=
  ∀ sock len, Idle sock → sock.recvTimeout = timeout → 0 < len →
    ((atRecvfromAlone sock len false).isSome ↔ tv ≠ ⟨0, 0⟩)

/-- The timeout that is set is refused, or it is what is read and what is waited for. -/
def KeepsTimeout (sockets : List AtSocket) (socket : ℤ) (o : TimeoutOpt) (tv : Timeval) : Prop :=
  ∃ r sockets', atSetsockopt sockets socket .solSocket (.timeout o) (some tv) =
      some (r, sockets') ∧
    (r < 0 ∨
      atGetsockopt sockets' socket .solSocket (.timeout o) true true = (0, some tv.rounded) ∧
        (o = .rcvtimeo → ∀ sock ∈ atGetSocket sockets' socket, WaitsFor sock.recvTimeout tv))

/-- Both timeouts mean what was set. -/
def KeepsTimeouts (sockets : List AtSocket) (socket : ℤ) (tv : Timeval) : Prop :=
  ∀ o, KeepsTimeout sockets socket o tv

/-- The times that the code keeps: none, or from one millisecond on to what the timer takes. -/
def Representable (tv : Timeval) : Prop :=
  tv.micros = 0 ∨ 1000 ≤ tv.micros ∧ tv.micros < 2147483647000

/-! ## Milliseconds -/

section Milliseconds

variable (tv : Duration)

theorem signedResult_of_nonneg {n : ℤ} (h : 0 ≤ n) :
    signedResult n = if n < 0x80000000 then some n else none := by
  have hlow : -0x80000000 ≤ n := by omega
  simp only [signedResult, hlow, true_and]

/-- The seconds overflow only where the whole does. -/
theorem msec_eq : tv.msec =
    if tv.micros < 2147483648000 then some (tv.tvSec * 1000 + tv.tvUsec / 1000) else none := by
  have hsec := tv.sec_nonneg
  have husec := tv.usec_nonneg
  have hlt := tv.usec_lt
  have hdiv : tv.tvUsec.tdiv 1000 = tv.tvUsec / 1000 := Int.tdiv_eq_ediv_of_nonneg husec
  rw [Timeval.msec, signedResult_of_nonneg (by omega), Timeval.micros]
  by_cases hfits : tv.tvSec * 1000000 + tv.tvUsec < 2147483648000
  · have hfirst : tv.tvSec * 1000 < 0x80000000 := by omega
    rw [if_pos hfits, if_pos hfirst, Option.bind_some, hdiv, signedResult_of_nonneg (by omega)]
    exact if_pos (by omega)
  · rw [if_neg hfits]
    by_cases hfirst : tv.tvSec * 1000 < 0x80000000
    · rw [if_pos hfirst, Option.bind_some, hdiv, signedResult_of_nonneg (by omega)]
      exact if_neg (by omega)
    · rw [if_neg hfirst, Option.bind_none]

/-- What is stored is read back. -/
theorem ofMsec_msec (hfits : tv.micros < 2147483648000) :
    ofMsec (tv.tvSec * 1000 + tv.tvUsec / 1000) = tv.rounded := by
  have hsec := tv.sec_nonneg
  have husec := tv.usec_nonneg
  have hlt := tv.usec_lt
  rw [Timeval.micros] at hfits
  have hword : (tv.tvSec * 1000 + tv.tvUsec / 1000) % 0x100000000 =
      tv.tvSec * 1000 + tv.tvUsec / 1000 := Int.emod_eq_of_lt (by omega) (by omega)
  have hquot : (tv.tvSec * 1000 + tv.tvUsec / 1000) / 1000 = tv.tvSec := by omega
  have hrest : (tv.tvSec * 1000 + tv.tvUsec / 1000) % 1000 = tv.tvUsec / 1000 := by omega
  rw [ofMsec, hword, Timeval.rounded, hquot, hrest]

theorem micros_eq_zero_iff : tv.micros = 0 ↔ tv.toTimeval = ⟨0, 0⟩ := by
  have hsec := tv.sec_nonneg
  have husec := tv.usec_nonneg
  have hparts : tv.toTimeval = ⟨0, 0⟩ ↔ tv.tvSec = 0 ∧ tv.tvUsec = 0 := by
    rw [← Timeval.mk.injEq]
  rw [hparts, Timeval.micros]
  omega

end Milliseconds

/-! ## Waiting -/

/-- Releases too many do not matter. -/
theorem recvLoopAlone_eq (timeout : ℤ) (value : ℕ) :
    recvLoopAlone timeout value = recvLoopAlone timeout 0 := by
  induction value with
  | zero => rfl
  | succ value ih => exact ih

theorem recvLoopAlone_isSome_iff (timeout : ℤ) (value : ℕ) :
    (recvLoopAlone timeout value).isSome ↔ 0 ≤ timeout ∧ timeout < 0x7FFFFFFF := by
  have hhalf : rtTickMax / 2 = 0x7FFFFFFF := by decide
  rw [recvLoopAlone_eq, recvLoopAlone, rtSemTakeAlone, hhalf]
  rcases lt_trichotomy timeout 0 with hneg | rfl | hpos
  · rw [if_neg hneg.ne, if_neg hneg.not_gt]
    simp [hneg.not_ge]
  · simp
  · rw [if_neg hpos.ne', if_pos hpos]
    by_cases hlt : timeout < 0x7FFFFFFF
    · simp [hlt, hpos.le]
    · simp [hlt]

/-- A read on an idle socket comes back when its timeout is one that the timer takes. -/
theorem atRecvfromAlone_isSome_iff {sock : AtSocket} (h : Idle sock) {len : ℕ} (hlen : 0 < len) :
    (atRecvfromAlone sock len false).isSome ↔
      0 < sock.recvTimeout ∧ sock.recvTimeout < 0x7FFFFFFF := by
  obtain ⟨sem, hsem⟩ := Option.isSome_iff_exists.mp h.recvNotice_isSome
  have hempty : (atRecvpktGet sock.recvpktList len).contentPos = 0 := by
    rw [h.recvpktList_eq]
    rfl
  rw [atRecvfromAlone, if_neg (Nat.ne_of_gt hlen), if_neg (not_not.mpr h.state_eq), hempty, hsem]
  simp only [lt_irrefl, if_false, Bool.false_eq_true, Option.bind_some, recvLoopAlone_isSome_iff]
  by_cases hzero : sock.recvTimeout = 0
  · rw [if_pos hzero, hzero]
    decide
  · rw [if_neg hzero]
    omega

/-- In the runs of a socket it is the thread timer that ends the wait. -/
theorem step_timeout_isSome_iff {s : SocketRun} {i : ℕ} {a : RecvArgs} {sock : AtSocket}
    (hcall : s.calls[i]? = some (.recvBlocked a)) (hnotice : s.sock.recvNotice.isSome)
    (hsock : Idle sock) (hsame : sock.recvTimeout = s.sock.recvTimeout)
    (hnonneg : 0 ≤ s.sock.recvTimeout) (hlt : s.sock.recvTimeout < 0x7FFFFFFF) :
    (step s (.timeout i)).isSome ↔ (atRecvfromAlone sock a.len false).isSome := by
  rw [atRecvfromAlone_isSome_iff hsock a.len_pos, hsame]
  obtain ⟨sem, hsem⟩ := Option.isSome_iff_exists.mp hnotice
  simp only [step, hcall, hsem]
  by_cases hzero : s.sock.recvTimeout = 0
  · simp [hzero]
  · rw [if_neg hzero, Option.isSome_some]
    simp only [true_iff]
    omega

/-- A wait for a timeout can be asked for on some socket. -/
theorem idle_connected (socket : ℤ) (type : AtSocketType) (recvTimeout sendTimeout : ℤ) :
    Idle (connected socket type recvTimeout sendTimeout) := ⟨rfl, rfl, rfl⟩

theorem waitsFor_iff (timeout : ℤ) (tv : Timeval) :
    WaitsFor timeout tv ↔ ((0 < timeout ∧ timeout < 0x7FFFFFFF) ↔ tv ≠ ⟨0, 0⟩) := by
  constructor
  · intro h
    have hone := h (connected 0 .tcp timeout 0) 1 (idle_connected 0 .tcp timeout 0) rfl Nat.one_pos
    rwa [atRecvfromAlone_isSome_iff (idle_connected 0 .tcp timeout 0) Nat.one_pos] at hone
  · rintro h sock len hidle rfl hlen
    rwa [atRecvfromAlone_isSome_iff hidle hlen]

/-! ## What is set -/

section Options

variable {sockets : List AtSocket} {socket : ℤ} {sock : AtSocket}

theorem magic_setTimeout (sock : AtSocket) (o : TimeoutOpt) (ms : ℤ) :
    (sock.setTimeout o ms).magic = sock.magic := by
  cases o <;> rfl

theorem timeout_setTimeout (sock : AtSocket) (o : TimeoutOpt) (ms : ℤ) :
    (sock.setTimeout o ms).timeout o = ms := by
  cases o <;> rfl

/-- Only a socket has a timeout to set. -/
theorem keepsTimeout_of_none (h : atGetSocket sockets socket = none) (o : TimeoutOpt)
    (tv : Timeval) : KeepsTimeout sockets socket o tv := by
  refine ⟨-1, sockets, ?_, .inl (by decide)⟩
  unfold atSetsockopt
  rw [h]

/-- A timeout that overflows has no meaning. -/
theorem keepsTimeout_msec (h : atGetSocket sockets socket = some sock) (o : TimeoutOpt)
    (tv : Timeval) :
    KeepsTimeout sockets socket o tv ↔
      ∃ ms, tv.msec = some ms ∧ ofMsec ms = tv.rounded ∧ (o = .rcvtimeo → WaitsFor ms tv) := by
  have hset : atSetsockopt sockets socket .solSocket (.timeout o) (some tv) =
      tv.msec.map fun ms => (0, sockets.set socket.toNat (sock.setTimeout o ms)) := by
    unfold atSetsockopt
    rw [h]
  have hmagic := (atGetSocket_eq_some.mp h).2.2
  have hread := fun ms => atGetSocket_set_self h ((magic_setTimeout sock o ms).trans hmagic)
  have hget : ∀ ms, atGetsockopt (sockets.set socket.toNat (sock.setTimeout o ms)) socket
      .solSocket (.timeout o) true true = (0, some (ofMsec ms)) := by
    intro ms
    rw [atGetsockopt, hread ms]
    simp [timeout_setTimeout]
  rw [KeepsTimeout, hset]
  constructor
  · rintro ⟨r, sockets', hsome, hkept⟩
    obtain ⟨ms, hms, hpair⟩ := Option.map_eq_some_iff.mp hsome
    obtain ⟨rfl, rfl⟩ := Prod.mk.inj hpair
    obtain ⟨hback, hwait⟩ := hkept.resolve_left (lt_irrefl 0)
    rw [hget] at hback
    refine ⟨ms, hms, Option.some.inj (Prod.mk.inj hback).2, ?_⟩
    rintro rfl
    exact hwait rfl _ (hread ms)
  · rintro ⟨ms, hms, hback, hwait⟩
    refine ⟨0, _, by rw [hms]; rfl, .inr ⟨by rw [hget, hback], ?_⟩⟩
    rintro rfl sock' hsock'
    rw [hread, Option.mem_some_iff] at hsock'
    subst hsock'
    exact hwait rfl

theorem keepsTimeout_sndtimeo (h : atGetSocket sockets socket = some sock) (tv : Duration) :
    KeepsTimeout sockets socket .sndtimeo tv.toTimeval ↔ tv.micros < 2147483648000 := by
  rw [keepsTimeout_msec h, msec_eq]
  constructor
  · rintro ⟨ms, hms, -⟩
    exact (Option.ite_none_right_eq_some.mp hms).1
  · intro hfits
    exact ⟨_, if_pos hfits, ofMsec_msec tv hfits, fun hsnd => absurd hsnd (by decide)⟩

theorem keepsTimeout_rcvtimeo (h : atGetSocket sockets socket = some sock) (tv : Duration) :
    KeepsTimeout sockets socket .rcvtimeo tv.toTimeval ↔ Representable tv.toTimeval := by
  have hzero := micros_eq_zero_iff tv
  have hsec := tv.sec_nonneg
  have husec := tv.usec_nonneg
  have hlt := tv.usec_lt
  have hwhole : tv.micros = tv.tvSec * 1000000 + tv.tvUsec := rfl
  rw [keepsTimeout_msec h, msec_eq, Representable]
  constructor
  · rintro ⟨ms, hms, -, hwait⟩
    obtain ⟨hfits, hms⟩ := Option.ite_none_right_eq_some.mp hms
    have hiff := (waitsFor_iff ms _).mp (hwait rfl)
    rw [← Option.some.inj hms, Ne, ← hzero] at hiff
    omega
  · intro hrep
    have hfits : tv.micros < 2147483648000 := by omega
    refine ⟨_, if_pos hfits, ofMsec_msec tv hfits, fun _ => (waitsFor_iff _ _).mpr ?_⟩
    rw [Ne, ← hzero]
    omega

end Options

/-- The timeouts of a socket mean what was set exactly for the times that the code keeps. -/
theorem keepsTimeouts_iff (sockets : List AtSocket) (socket : ℤ) (tv : Duration) :
    KeepsTimeouts sockets socket tv.toTimeval ↔
      atGetSocket sockets socket = none ∨ Representable tv.toTimeval := by
  cases h : atGetSocket sockets socket with
  | none => simp only [true_or, iff_true]; exact fun o => keepsTimeout_of_none h o _
  | some sock =>
      simp only [reduceCtorEq, false_or]
      constructor
      · intro hkept
        exact (keepsTimeout_rcvtimeo h tv).mp (hkept .rcvtimeo)
      · rintro hrep (_ | _)
        · exact (keepsTimeout_rcvtimeo h tv).mpr hrep
        · apply (keepsTimeout_sndtimeo h tv).mpr
          rw [Representable] at hrep
          omega

/-- Half a millisecond. -/
def halfMillisecond : Duration := ⟨⟨0, 500⟩, by decide, by decide, by decide, by decide⟩

/-- It is waited for ever. -/
theorem setsockopt_halfMillisecond :
    ¬ ∀ (sockets : List AtSocket) (socket : ℤ) (tv : Duration),
      KeepsTimeouts sockets socket tv.toTimeval := by
  intro hall
  have hkept := hall [connected 0 .tcp 0 0] 0 halfMillisecond .rcvtimeo
  have hrep := (keepsTimeout_rcvtimeo rfl halfMillisecond).mp hkept
  exact absurd hrep (by unfold Representable; decide)

end AtSock
