import Esp32AtMqtt.AtSocket.Stream

/-!
# Reading an AT socket that the peer closes

`at_closed_notice_cb` counts an event and an error, sets the socket's state to closed
and releases the receive semaphore. A call of `at_recvfrom` tests the state before its
first look at the list and again after every wait, so after the change of the state
only the calls that have passed their test still read. No byte is lost or reordered
before that, and no call reports the closed connection before the notification.
-/

namespace AtSock

open Transition

namespace CallPc

/-- A close notification is under way. -/
def closing : CallPc → Bool
  | .closedRecvEvent | .closedErrorEvent | .closedState | .closedRelease => true
  | _ => false

/-- The call fails because the socket is not connected any more. -/
def reportsClose : CallPc → Bool
  | .recvExit (.fail .stateError) | .recvExit (.fail .closedByRemote) => true
  | .returned (.fail .stateError) | .returned (.fail .closedByRemote) => true
  | _ => false

/-- The call has tested the state and is about to read the list. -/
def reading : CallPc → Bool
  | .recvFirst _ | .recvSecond _ => true
  | _ => false

end CallPc

/-- A call closes, or reports the close, only when it did before, or when it finds the
socket not connected. -/
theorem callStep_reports {s u : SocketRun} {i : ℕ} {ans : Answers} {pc pc' : CallPc}
    (h : callStep s i ans pc = some (u, pc')) (hpc' : pc'.closing ∨ pc'.reportsClose) :
    (pc.closing ∨ pc.reportsClose) ∨ s.sock.state ≠ .connect := by
  cases pc with
  | noticePut d | noticeEvent =>
      cases h
      simp [CallPc.closing, CallPc.reportsClose] at hpc'
  | noticeRelease =>
      obtain ⟨v, hv, heq⟩ := Option.map_eq_some_iff.mp h
      cases heq
      simp [CallPc.closing, CallPc.reportsClose] at hpc'
  | closedRecvEvent | closedErrorEvent | closedState | closedRelease => exact .inl (.inl rfl)
  | recvCheck a =>
      simp only [callStep] at h
      split_ifs at h with hudp hans hstate <;> cases h
      all_goals first
        | exact .inr hstate
        | simp [CallPc.closing, CallPc.reportsClose] at hpc'
  | recvFirst a | recvSecond a =>
      simp only [callStep] at h
      split_ifs at h <;> cases h <;> simp [CallPc.closing, CallPc.reportsClose] at hpc'
  | recvTake a =>
      obtain ⟨sem, -, heq⟩ := Option.map_eq_some_iff.mp h
      cases heq
      split at hpc' <;> simp [CallPc.closing, CallPc.reportsClose] at hpc'
  | recvWoken a =>
      simp only [callStep] at h
      split_ifs at h with hstate <;> cases h
      · simp [CallPc.closing, CallPc.reportsClose] at hpc'
      · exact .inr hstate
  | recvExit r =>
      cases r with
      | done n mem =>
          cases h
          simp [CallPc.closing, CallPc.reportsClose] at hpc'
      | fail why =>
          cases h
          exact .inl (hpc'.imp id fun hr => by cases why <;> first | rfl | cases hr)
  | noticed | recvBlocked a | returned r => cases h

/-- The state of a socket changes only by a close notification, or by a connect from
the state in which it was made. -/
theorem callStep_state {s u : SocketRun} {i : ℕ} {ans : Answers} {pc pc' : CallPc}
    (h : callStep s i ans pc = some (u, pc')) :
    u.sock.state = s.sock.state ∨ (pc.closing ∧ u.sock.state = .closed) ∨
      s.sock.state = .none := by
  cases pc with
  | closedState =>
      cases h
      exact .inr (.inl ⟨rfl, rfl⟩)
  | noticeRelease | closedRelease =>
      obtain ⟨v, hv, heq⟩ := Option.map_eq_some_iff.mp h
      obtain ⟨sem, calls, hr, rfl⟩ := release_eq hv
      cases heq
      exact .inl rfl
  | recvCheck a =>
      simp only [callStep] at h
      split_ifs at h with hudp <;> cases h
      · exact .inr (.inr hudp.2.2)
      all_goals exact .inl rfl
  | recvFirst a | recvSecond a | recvWoken a =>
      simp only [callStep] at h
      split_ifs at h <;> cases h <;> exact .inl rfl
  | recvTake a =>
      obtain ⟨sem, -, heq⟩ := Option.map_eq_some_iff.mp h
      cases heq
      exact .inl rfl
  | recvExit r =>
      cases r with
      | done n mem =>
          simp only [callStep] at h
          split_ifs at h <;> cases h <;> exact .inl rfl
      | fail why =>
          cases h
          exact .inl rfl
  | noticePut d | noticeEvent | closedRecvEvent | closedErrorEvent =>
      cases h
      exact .inl rfl
  | noticed | recvBlocked a | returned r => cases h

/-- The close is known of only after its notification. -/
structure CloseOk (s : SocketRun) : Prop where
  reports : ∀ pc ∈ s.calls, pc.closing ∨ pc.reportsClose → s.beforeClose.isSome
  state : s.sock.magic = atSocketMagic →
    s.sock.state = .connect ∨ (s.sock.state = .closed ∧ s.beforeClose.isSome)

theorem mem_resumed {cs ds : List CallPc} (h : Resumed cs ds) {pc : CallPc} (hpc : pc ∈ ds) :
    pc ∈ cs ∨ ∃ a, pc = .recvWoken a := by
  rcases h with rfl | ⟨j, a, -, rfl⟩
  · exact .inl hpc
  · exact (List.mem_or_eq_of_mem_set hpc).imp id fun h => ⟨a, h⟩

theorem closeOk_begin {s : SocketRun} (hs : CloseOk s) {pc : CallPc} {d : Option ℕ}
    (hd : s.beforeClose.isSome → d.isSome) (hpc : pc.closing ∨ pc.reportsClose → d.isSome) :
    CloseOk ({ s with beforeClose := d }.begin pc) :=
  ⟨List.forall_mem_append.mpr ⟨fun q hq hr => hd (hs.reports q hq hr),
    List.forall_mem_singleton.mpr hpc⟩, fun hm => (hs.state hm).imp id fun h => ⟨h.1, hd h.2⟩⟩

/-- A call begins without a report, and closes only when it announces the close. -/
theorem CallPc.closing_of_start {pc : CallPc} (h : pc.start = true)
    (hr : pc.closing ∨ pc.reportsClose) : pc = .closedRecvEvent := by
  cases pc with
  | closedRecvEvent => rfl
  | noticePut d | noticed | recvCheck a => simp [CallPc.closing, CallPc.reportsClose] at hr
  | returned r =>
      cases r with
      | done n mem => cases h
      | fail why =>
          cases why with
          | inputError => simp [CallPc.closing, CallPc.reportsClose] at hr
          | _ => cases h
  | _ => cases h

theorem closeOk_step {s t : SocketRun} {a : SocketAction} (hstream : StreamOk s) (hs : CloseOk s)
    (h : step s a = some t) : CloseOk t := by
  cases step_stepped h with
  | begun pc d hstart halloc hclose =>
      rcases hclose with ⟨rfl, hne⟩ | ⟨-, rfl⟩
      · exact closeOk_begin hs id fun hr => absurd (CallPc.closing_of_start hstart hr) hne
      · exact closeOk_begin hs (by cases s.beforeClose <;> simp)
          (by cases s.beforeClose <;> simp)
  | @called i ans pc pc' u hpc hcall =>
      have hframe := callStep_frame hcall
      have hmem : pc ∈ s.calls := List.mem_of_getElem? hpc
      have hmagic : s.sock.magic = atSocketMagic := by
        rcases hstream with ⟨hm, -⟩ | ⟨-, hd⟩
        · exact hm
        · rw [callStep_ended (hd.ended pc hmem)] at hcall
          cases hcall
      have hclosed : s.sock.state ≠ .connect → s.beforeClose.isSome :=
        fun hne => ((hs.state hmagic).resolve_left hne).2
      refine ⟨fun q hq hr => ?_, fun _ => ?_⟩
      · show u.beforeClose.isSome
        rw [hframe.beforeClose]
        rcases List.mem_or_eq_of_mem_set hq with hq | rfl
        · rcases mem_resumed hframe.calls hq with hq | ⟨a, rfl⟩
          · exact hs.reports q hq hr
          · simp [CallPc.closing, CallPc.reportsClose] at hr
        · exact (callStep_reports hcall hr).elim (hs.reports pc hmem) hclosed
      · show u.sock.state = .connect ∨ (u.sock.state = .closed ∧ u.beforeClose.isSome)
        rw [hframe.beforeClose]
        rcases callStep_state hcall with heq | ⟨hc, heq⟩ | hnone
        · rw [heq]
          exact hs.state hmagic
        · exact .inr ⟨heq, hs.reports pc hmem (.inl hc)⟩
        · rcases hs.state hmagic with h0 | ⟨h0, -⟩ <;> rw [h0] at hnone <;> cases hnone
  | timedOut hpc =>
      refine ⟨fun q hq hr => ?_, hs.state⟩
      rcases List.mem_or_eq_of_mem_set hq with hq | rfl
      · exact hs.reports q hq hr
      · simp [CallPc.closing, CallPc.reportsClose] at hr
  | freed hmagic hended =>
      have hzero : AtSocket.zero.magic ≠ atSocketMagic := by decide
      exact ⟨hs.reports, fun hm => absurd hm hzero⟩

/-- Since a moment in which nothing more could be read from the list `l`, with the reads
`rs` made: no call is about to read, nothing was read, and the list has only grown. -/
structure Shut (rs : List (ℕ × List UInt8)) (l : List AtRecvPkt) (s : SocketRun) : Prop where
  returned_eq : s.returned = rs
  reading : ∀ pc ∈ s.calls, ¬ pc.reading ∧ (s.sock.magic ≠ atSocketMagic → pc.ended)
  state : s.sock.magic = atSocketMagic →
    s.sock.state = .closed ∧ unread l <+: unread s.sock.recvpktList

/-- On a closed socket no call comes to read, and a call that is not reading returns
nothing and leaves the list's bytes in place. -/
theorem callStep_shut {s u : SocketRun} {i : ℕ} {ans : Answers} {pc pc' : CallPc}
    (h : callStep s i ans pc = some (u, pc')) (hstate : s.sock.state = .closed)
    (hpc : ¬ pc.reading) :
    u.returned = s.returned ∧ ¬ pc'.reading ∧
      unread s.sock.recvpktList <+: unread u.sock.recvpktList := by
  cases pc with
  | noticePut d =>
      cases h
      refine ⟨rfl, by simp [CallPc.reading], ?_⟩
      show _ <+: unread (atRecvpktPut _ _ _ _)
      rw [atRecvpktPut]
      split_ifs
      · rw [unread_append]
        exact List.prefix_append _ _
      · exact List.prefix_rfl
  | noticeRelease | closedRelease =>
      obtain ⟨v, hv, heq⟩ := Option.map_eq_some_iff.mp h
      obtain ⟨sem, calls, hr, rfl⟩ := release_eq hv
      cases heq
      exact ⟨rfl, by simp [CallPc.reading], List.prefix_rfl⟩
  | recvCheck a =>
      simp only [callStep] at h
      have hudp : ¬ (a.hasFrom ∧ s.sock.type = .udp ∧ s.sock.state = .none) := by
        rw [hstate]
        exact fun h => absurd h.2.2 (by decide)
      have hconn : s.sock.state ≠ .connect := by
        rw [hstate]
        decide
      rw [if_neg hudp, if_pos hconn] at h
      cases h
      exact ⟨rfl, by simp [CallPc.reading], List.prefix_rfl⟩
  | recvFirst a | recvSecond a => exact absurd rfl hpc
  | recvTake a =>
      obtain ⟨sem, -, heq⟩ := Option.map_eq_some_iff.mp h
      cases heq
      exact ⟨rfl, by split <;> simp [CallPc.reading], List.prefix_rfl⟩
  | recvWoken a =>
      have hconn : s.sock.state ≠ .connect := by
        rw [hstate]
        decide
      simp only [callStep, if_neg hconn] at h
      cases h
      exact ⟨rfl, by simp [CallPc.reading], List.prefix_rfl⟩
  | recvExit r =>
      cases r with
      | done n mem =>
          simp only [callStep] at h
          split_ifs at h <;> cases h <;>
            exact ⟨rfl, by simp [CallPc.reading], List.prefix_rfl⟩
      | fail why =>
          cases h
          exact ⟨rfl, by simp [CallPc.reading], List.prefix_rfl⟩
  | noticeEvent | closedRecvEvent | closedErrorEvent | closedState =>
      cases h
      exact ⟨rfl, by simp [CallPc.reading], List.prefix_rfl⟩
  | noticed | recvBlocked a | returned r => cases h

theorem shut_begin {rs : List (ℕ × List UInt8)} {l : List AtRecvPkt} {s : SocketRun}
    (hs : Shut rs l s) {pc : CallPc} {d : Option ℕ} (hread : ¬ pc.reading)
    (hpc : s.sock.magic ≠ atSocketMagic → pc.ended) :
    Shut rs l ({ s with beforeClose := d }.begin pc) :=
  ⟨hs.returned_eq, List.forall_mem_append.mpr ⟨hs.reading,
    List.forall_mem_singleton.mpr ⟨hread, hpc⟩⟩, hs.state⟩

theorem CallPc.not_reading_of_start {pc : CallPc} (h : pc.start = true) : ¬ pc.reading := by
  cases pc <;> first | exact Bool.false_ne_true | cases h

theorem shut_step {rs : List (ℕ × List UInt8)} {l : List AtRecvPkt} {s t : SocketRun}
    {a : SocketAction} (hs : Shut rs l s) (h : step s a = some t) : Shut rs l t := by
  cases step_stepped h with
  | begun pc d hstart halloc hclose =>
      exact shut_begin hs (CallPc.not_reading_of_start hstart) halloc.resolve_left
  | @called i ans pc pc' u hpc hcall =>
      have hframe := callStep_frame hcall
      have hread := hs.reading pc (List.mem_of_getElem? hpc)
      have hmagic : s.sock.magic = atSocketMagic := by
        by_contra hm
        rw [callStep_ended (hread.2 hm)] at hcall
        cases hcall
      obtain ⟨hstate, hlist⟩ := hs.state hmagic
      obtain ⟨hret, hpc', hleft⟩ := callStep_shut hcall hstate hread.1
      have hstate' : u.sock.state = .closed := by
        rcases callStep_state hcall with heq | ⟨-, heq⟩ | hnone
        · rw [heq, hstate]
        · exact heq
        · rw [hstate] at hnone
          cases hnone
      refine ⟨hret.trans hs.returned_eq, fun q hq => ?_, fun _ => ⟨hstate', hlist.trans hleft⟩⟩
      refine ⟨?_, fun hm => absurd (hframe.magic.trans hmagic) hm⟩
      rcases List.mem_or_eq_of_mem_set hq with hq | rfl
      · rcases mem_resumed hframe.calls hq with hq | ⟨a, rfl⟩
        · exact (hs.reading q hq).1
        · simp [CallPc.reading]
      · exact hpc'
  | timedOut hpc =>
      have hblocked := hs.reading _ (List.mem_of_getElem? hpc)
      refine ⟨hs.returned_eq, fun q hq => ?_, hs.state⟩
      rcases List.mem_or_eq_of_mem_set hq with hq | rfl
      · exact hs.reading q hq
      · exact ⟨by simp [CallPc.reading], fun hm => absurd (hblocked.2 hm) (by
          simp [CallPc.ended])⟩
  | freed hmagic hended =>
      have hzero : AtSocket.zero.magic ≠ atSocketMagic := by decide
      exact ⟨hs.returned_eq, fun q hq => ⟨(hs.reading q hq).1, fun _ => hended q hq⟩,
        fun hm => absurd hm hzero⟩

/-- A call that has passed its test while bytes are unread returns the first of them. -/
theorem reading_returns {s : SocketRun} (hk : s.queue.Kept) (hne : unread s.sock.recvpktList ≠ [])
    {i : ℕ} {a : RecvArgs}
    (hpc : s.calls[i]? = some (.recvFirst a) ∨ s.calls[i]? = some (.recvSecond a))
    (ans : Answers) :
    ∃ t n, 0 < n ∧ step s (.call i ans) = some t ∧
      t.calls[i]? = some (.recvExit (.done n ((unread s.sock.recvpktList).take a.len))) := by
  obtain ⟨hpos, hok⟩ := atRecvpktGet_spec hk.live a.len_pos
  have hlen : 0 < (atRecvpktGet s.sock.recvpktList a.len).contentPos := by
    have hlist := List.length_pos_iff.mpr hne
    have harg := a.len_pos
    have hrlist : s.queue.rlist = s.sock.recvpktList := rfl
    rw [← hrlist, hpos, hok.mem_eq, List.length_take]
    exact Nat.lt_min.mpr ⟨harg, hlist⟩
  have hstep : ∀ pc, s.calls[i]? = some pc →
      callStep s i ans pc = some (((s.get a.len).2.2).gave i (s.get a.len).2.1,
        .recvExit (.done (s.get a.len).1 (s.get a.len).2.1)) →
      ∃ t n, 0 < n ∧ step s (.call i ans) = some t ∧
        t.calls[i]? = some (.recvExit (.done n ((unread s.sock.recvpktList).take a.len))) := by
    intro pc hget hcall
    obtain ⟨hlt, -⟩ := List.getElem?_eq_some_iff.mp hget
    refine ⟨_, _, hlen, by rw [step, hget, Option.bind_some, hcall]; rfl, ?_⟩
    simp only [SocketRun.setPc, SocketRun.gave, SocketRun.get, List.getElem?_set_self hlt]
    exact congrArg (fun mem => some (CallPc.recvExit (.done _ mem))) hok.mem_eq
  rcases hpc with hpc | hpc
  · exact hstep _ hpc (if_pos hlen)
  · exact hstep _ hpc (if_pos hlen)

/-- Reading a connected socket that the peer closes. The bytes returned are the first
ones delivered and the others are in the list; no call reports the closed connection
before the notification; a call that has passed its test while bytes are unread
returns the first of them. From a moment on in which the state is closed and no call is
about to read, nothing more is returned and the unread bytes stay in the list until the
socket is freed. -/
theorem recv_before_close (socket : ℤ) (type : AtSocketType) (recvTimeout sendTimeout : ℤ)
    (as : List SocketAction) (s : SocketRun)
    (h : Run step Allocates (init (connected socket type recvTimeout sendTimeout)) as s) :
    (s.sock.magic = atSocketMagic →
      s.delivered.flatten = s.stored ++ unread s.sock.recvpktList) ∧
    (∀ pc ∈ s.calls, pc.reportsClose → s.beforeClose.isSome) ∧
    (∀ i a ans, s.calls[i]? = some (.recvFirst a) ∨ s.calls[i]? = some (.recvSecond a) →
      unread s.sock.recvpktList ≠ [] → ∃ t n, 0 < n ∧ step s (.call i ans) = some t ∧
        t.calls[i]? = some (.recvExit (.done n ((unread s.sock.recvpktList).take a.len)))) ∧
    (s.sock.state = .closed → (∀ pc ∈ s.calls, ¬ pc.reading) →
      ∀ bs t, Run step unconditional s bs t → t.returned = s.returned ∧
        (t.sock.magic = atSocketMagic →
          unread s.sock.recvpktList <+: unread t.sock.recvpktList)) := by
  have hboth : StreamOk s ∧ CloseOk s := h.invariant (fun s => StreamOk s ∧ CloseOk s)
    (fun _ _ _ hs hok hst => ⟨streamOk_step hs.1 hok hst, closeOk_step hs.1 hs.2 hst⟩)
    ⟨streamOk_init socket type recvTimeout sendTimeout, by simp [init], fun _ => .inl rfl⟩
  obtain ⟨hstream, hclose⟩ := hboth
  refine ⟨(streamKept_of_run h).unread_eq, fun pc hpc hr => hclose.reports pc hpc (.inr hr), ?_, ?_⟩
  · intro i a ans hpc hne
    rcases hstream with ⟨-, hk⟩ | ⟨-, hd⟩
    · exact reading_returns hk hne hpc ans
    · exact absurd (by rw [hd.rlist_eq]; rfl) hne
  · intro hstate hread bs t hrun
    have hended : s.sock.magic ≠ atSocketMagic → ∀ pc ∈ s.calls, pc.ended := by
      intro hm
      rcases hstream with ⟨hm', -⟩ | ⟨-, hd⟩
      · exact absurd hm' hm
      · exact hd.ended
    have hshut : Shut s.returned s.sock.recvpktList s :=
      ⟨rfl, fun pc hpc => ⟨hread pc hpc, fun hm => hended hm pc hpc⟩,
        fun _ => ⟨hstate, List.prefix_rfl⟩⟩
    have ht := hrun.invariant (Shut s.returned s.sock.recvpktList)
      (fun _ _ _ hs _ hst => shut_step hs hst) hshut
    exact ⟨ht.returned_eq, fun hm => (ht.state hm).2⟩

/-- A delivered buffer, then the close notification, then a read. -/
def closeThenRead : List SocketAction :=
  [.notice [1, 2, 3]] ++ callSteps 3 0 ++ [.closedNotice] ++ callSteps 4 1 ++
    [.recvfrom 3 false false] ++ callSteps 2 2

/-- The read fails, and the three bytes stay unread. -/
theorem recv_before_close_unread : ∃ s,
    Run step Allocates (init (connected 0 .tcp 0 0)) closeThenRead s ∧
    (s.calls[2]? = some (.returned (.fail .stateError)) ∧ s.sock.state = .closed ∧
      unread s.sock.recvpktList = [1, 2, 3]) ∧
    (∀ pc ∈ s.calls, pc.reportsClose → s.beforeClose.isSome) ∧
    (s.sock.state = .closed → (∀ pc ∈ s.calls, ¬ pc.reading) →
      ∀ bs t, Run step unconditional s bs t → t.returned = s.returned) := by
  obtain ⟨s, hrun, hs⟩ := Run.exists_of_exec step Allocates (init (connected 0 .tcp 0 0))
    closeThenRead (fun s => decide (s.calls[2]? = some (CallPc.returned (.fail .stateError)) ∧
      s.sock.state = .closed ∧ unread s.sock.recvpktList = [1, 2, 3])) (by decide)
  obtain ⟨-, hreports, -, hshut⟩ := recv_before_close 0 .tcp 0 0 closeThenRead s hrun
  exact ⟨s, hrun, of_decide_eq_true hs, hreports,
    fun hstate hread bs t hr => (hshut hstate hread bs t hr).1⟩

/-- Not every byte delivered before the close notification is returned before a call
reports the closed connection. -/
theorem recv_after_close_not_all :
    ¬ ∀ socket type recvTimeout sendTimeout as s,
      Run step Allocates (init (connected socket type recvTimeout sendTimeout)) as s →
        ∀ d, s.beforeClose = some d → (∃ pc ∈ s.calls, pc.reportsClose) →
          (s.delivered.take d).flatten <+: s.stored := by
  intro hall
  obtain ⟨s, hrun, hs⟩ := Run.exists_of_exec step Allocates (init (connected 0 .tcp 0 0))
    closeThenRead (fun s => decide (s.beforeClose = some 1 ∧
      s.calls[2]? = some (CallPc.returned (.fail .stateError)) ∧
      s.delivered = [[1, 2, 3]] ∧ s.stored = [])) (by decide)
  obtain ⟨hclose, hcall, hdel, hstored⟩ := of_decide_eq_true hs
  have hempty := hall 0 .tcp 0 0 closeThenRead s hrun 1 hclose
    ⟨_, List.mem_of_getElem? hcall, rfl⟩
  rw [hdel, hstored] at hempty
  exact absurd (List.prefix_nil.mp hempty) (by decide)

end AtSock
