import Esp32AtMqtt.AtSocket.Close

/-!
# The readiness counter of an AT socket

`rcvevent` is increased by every delivery and decreased by every call of `at_recvfrom`
that returns data, while such a call may take a part of a packet or several packets.
It is positive with nothing to read, or zero with bytes unread, as soon as a read that
empties the list is not the last one counted.

`expected` is the counter with the calls under way settled: the deliveries that are in
the list but not counted yet, and the reads that have taken their bytes but are not
uncounted yet. `CountKept` says that reads empty the list exactly when `expected` is
one, and the runs that meet it keep the counter true.
-/

namespace AtSock

open Transition

namespace CallPc

/-- A delivery that is in the list and will still be counted. -/
def uncounted : CallPc → Bool
  | .noticeRelease | .noticeEvent => true
  | _ => false

/-- A read that has taken bytes and will still be uncounted. -/
def unsettled : CallPc → Bool
  | .recvExit (.done recvLen _) => decide (recvLen ≠ 0)
  | _ => false

end CallPc

/-- `rcvevent` when the calls under way have settled it. -/
def SocketRun.expected (s : SocketRun) : ℤ :=
  s.sock.rcvevent.toNat + s.calls.countP CallPc.uncounted - s.calls.countP CallPc.unsettled

/-- A call may take its next step: a read of a list that holds data empties it exactly
when one event is expected; a read that is uncounted finds an event counted, or data
still in the list; and the 16-bit counter does not wrap. -/
def MayStep (s : SocketRun) : CallPc → Prop
  | .recvFirst a | .recvSecond a =>
      s.sock.recvpktList ≠ [] →
        ((unread s.sock.recvpktList).length ≤ a.len ↔ s.expected = 1)
  | .noticeEvent => s.sock.rcvevent ≠ 65535
  | .recvExit (.done recvLen _) =>
      recvLen ≠ 0 → s.sock.rcvevent = 0 → s.sock.recvpktList ≠ []
  | _ => True

/-- The calls take such steps only, allocations succeed, and the peer does not close. -/
def CountKept (s : SocketRun) : SocketAction → Prop
  | .call i ans => ans.calloc = true ∧ ∀ pc ∈ s.calls[i]?, MayStep s pc
  | .closedNotice => False
  | _ => True

instance (s : SocketRun) : ∀ pc : CallPc, Decidable (MayStep s pc)
  | .recvFirst _ | .recvSecond _ => inferInstanceAs (Decidable (_ → (_ ↔ _)))
  | .noticeEvent => inferInstanceAs (Decidable (_ ≠ _))
  | .recvExit (.done _ _) => inferInstanceAs (Decidable (_ → _ → _))
  | .recvExit (.fail _) => isTrue trivial
  | .noticePut _ | .noticeRelease | .closedRecvEvent | .closedErrorEvent | .closedState
  | .closedRelease | .noticed | .recvCheck _ | .recvTake _ | .recvBlocked _ | .recvWoken _
  | .returned _ => isTrue trivial

instance (s : SocketRun) : ∀ a : SocketAction, Decidable (CountKept s a)
  | .call _ _ => inferInstanceAs (Decidable (_ ∧ _))
  | .closedNotice => isFalse id
  | .notice _ | .recvfrom _ _ _ | .timeout _ | .freeSocket => isTrue trivial

theorem Resumed.countP {cs ds : List CallPc} (h : Resumed cs ds) {p : CallPc → Bool}
    (hp : ∀ a, p (.recvWoken a) = p (.recvBlocked a)) : ds.countP p = cs.countP p := by
  rcases h with rfl | ⟨j, a, hj, rfl⟩
  · rfl
  · obtain ⟨hlt, hget⟩ := List.getElem?_eq_some_iff.mp hj
    have hpos : p cs[j] = true → 0 < cs.countP p :=
      fun hc => List.countP_pos_iff.mpr ⟨_, List.getElem_mem hlt, hc⟩
    rw [List.countP_set hlt, hp, ← hget]
    split_ifs with hc
    · have := hpos hc
      omega
    · omega

/-- How the number of calls of a kind changes with the step of one call. -/
theorem countP_setPc {s u : SocketRun} {i : ℕ} {pc : CallPc} (hpc : s.calls[i]? = some pc)
    (hcalls : Resumed s.calls u.calls) (pc' : CallPc) {p : CallPc → Bool}
    (hp : ∀ a, p (.recvWoken a) = p (.recvBlocked a)) :
    (u.setPc i pc').calls.countP p + (p pc).toNat = s.calls.countP p + (p pc').toNat := by
  obtain ⟨hlt, hget⟩ := List.getElem?_eq_some_iff.mp hpc
  have hltu : i < u.calls.length := by
    rw [hcalls.length_eq]
    exact hlt
  have hat : p u.calls[i] = p pc := by
    rcases hcalls with heq | ⟨j, a, hj, heq⟩
    · simp only [heq, hget]
    · simp only [heq, List.getElem_set]
      split_ifs with hij
      · subst hij
        rw [hpc] at hj
        cases hj
        exact hp a
      · rw [hget]
  have hpos : p u.calls[i] = true → 0 < u.calls.countP p :=
    fun hc => List.countP_pos_iff.mpr ⟨_, List.getElem_mem hltu, hc⟩
  rw [SocketRun.setPc, List.countP_set hltu, ← hcalls.countP hp, hat]
  rw [hat] at hpos
  cases hold : p pc with
  | true =>
      have hone := hpos hold
      cases p pc' <;> simp <;> omega
  | false => cases p pc' <;> simp

/-- Which steps lead to a delivery still to be counted, or to a read still to be
uncounted. -/
theorem callStep_next {s u : SocketRun} {i : ℕ} {ans : Answers} {pc pc' : CallPc}
    (h : callStep s i ans pc = some (u, pc')) :
    pc'.uncounted = (match pc with
      | .noticePut _ | .noticeRelease => true
      | _ => false) ∧
    pc'.unsettled = (match pc with
      | .recvFirst a | .recvSecond a =>
          decide (0 < (atRecvpktGet s.sock.recvpktList a.len).contentPos)
      | _ => false) := by
  cases pc with
  | noticeRelease | closedRelease =>
      obtain ⟨v, hv, heq⟩ := Option.map_eq_some_iff.mp h
      cases heq
      exact ⟨rfl, rfl⟩
  | recvCheck a | recvWoken a =>
      simp only [callStep] at h
      split_ifs at h <;> cases h <;> exact ⟨rfl, rfl⟩
  | recvFirst a | recvSecond a =>
      have hpositive : ∀ n : ℕ, decide (n ≠ 0) = decide (0 < n) := fun n => by
        simp [Nat.pos_iff_ne_zero]
      simp only [callStep] at h
      split_ifs at h with hpos <;> cases h
      all_goals first
        | exact ⟨rfl, hpositive _⟩
        | exact ⟨rfl, (decide_eq_false hpos).symm⟩
  | recvTake a =>
      obtain ⟨sem, -, heq⟩ := Option.map_eq_some_iff.mp h
      cases heq
      split <;> exact ⟨rfl, rfl⟩
  | recvExit r =>
      cases r with
      | done n mem =>
          cases h
          exact ⟨rfl, rfl⟩
      | fail why =>
          cases h
          exact ⟨rfl, rfl⟩
  | noticePut d | noticeEvent | closedRecvEvent | closedErrorEvent | closedState =>
      cases h
      exact ⟨rfl, rfl⟩
  | noticed | recvBlocked a | returned r => cases h

/-- The counter is true of the list, with the calls under way settled. -/
structure CountOk (s : SocketRun) : Prop where
  nonneg : 0 ≤ s.expected
  pos_iff : 0 < s.expected ↔ s.sock.recvpktList ≠ []
  notClosing : ∀ pc ∈ s.calls, ¬ pc.closing

theorem expected_begin {s : SocketRun} {pc : CallPc} (hu : pc.uncounted = false)
    (hs : pc.unsettled = false) : (s.begin pc).expected = s.expected := by
  simp [SocketRun.expected, SocketRun.begin, List.countP_append, hu, hs]

theorem countOk_begin {s : SocketRun} (hs : CountOk s) {pc : CallPc} (hu : pc.uncounted = false)
    (hu' : pc.unsettled = false) (hc : ¬ pc.closing) : CountOk (s.begin pc) := by
  have heq := expected_begin (s := s) hu hu'
  exact ⟨by rw [heq]; exact hs.nonneg, by rw [heq]; exact hs.pos_iff,
    List.forall_mem_append.mpr ⟨hs.notClosing, List.forall_mem_singleton.mpr hc⟩⟩

/-- A close notification does not come from another call. -/
theorem callStep_notClosing {s u : SocketRun} {i : ℕ} {ans : Answers} {pc pc' : CallPc}
    (h : callStep s i ans pc = some (u, pc')) (hpc : ¬ pc.closing) : ¬ pc'.closing := by
  cases pc with
  | noticeRelease =>
      obtain ⟨v, hv, heq⟩ := Option.map_eq_some_iff.mp h
      cases heq
      simp [CallPc.closing]
  | closedRecvEvent | closedErrorEvent | closedState | closedRelease => exact absurd rfl hpc
  | recvCheck a | recvFirst a | recvSecond a | recvWoken a =>
      simp only [callStep] at h
      split_ifs at h <;> cases h <;> simp [CallPc.closing]
  | recvTake a =>
      obtain ⟨sem, -, heq⟩ := Option.map_eq_some_iff.mp h
      cases heq
      split <;> simp [CallPc.closing]
  | recvExit r =>
      cases r <;> cases h <;> simp [CallPc.closing]
  | noticePut d | noticeEvent =>
      cases h
      simp [CallPc.closing]
  | noticed | recvBlocked a | returned r => cases h

/-- What a read does to the list: it takes data if there is any, and it empties the list
if it is long enough. -/
theorem get_list {l : List AtRecvPkt} (hl : ∀ p ∈ l, p.Live) {len : ℕ} (hlen : 0 < len) :
    (0 < (atRecvpktGet l len).contentPos ↔ l ≠ []) ∧
      ((atRecvpktGet l len).rlist ≠ [] ↔ ¬ (unread l).length ≤ len) := by
  obtain ⟨hpos, hok⟩ := atRecvpktGet_spec hl hlen
  have hnil := unread_eq_nil_iff hl
  have hleft := unread_eq_nil_iff hok.live_left
  refine ⟨?_, ?_⟩
  · rw [hpos, hok.mem_eq, List.length_take, ne_eq, ← not_congr hnil, ← List.length_eq_zero_iff]
    omega
  · rw [ne_eq, ← not_congr hleft, hok.unread_left, List.drop_eq_nil_iff]

/-- The change of the expected counter by the step of a call. -/
theorem expected_setPc {s u : SocketRun} {i : ℕ} {ans : Answers} {pc pc' : CallPc}
    (hpc : s.calls[i]? = some pc) (h : callStep s i ans pc = some (u, pc')) :
    (u.setPc i pc').expected = s.expected
        + ((pc.onRcvevent s.sock.rcvevent).toNat - s.sock.rcvevent.toNat : ℤ)
        + (pc'.uncounted.toNat - pc.uncounted.toNat)
        - (pc'.unsettled.toNat - pc.unsettled.toNat) := by
  have hframe := callStep_frame h
  have hu := countP_setPc hpc hframe.calls pc' (p := CallPc.uncounted) fun _ => rfl
  have hs := countP_setPc hpc hframe.calls pc' (p := CallPc.unsettled) fun _ => rfl
  have hev : (u.setPc i pc').sock.rcvevent = pc.onRcvevent s.sock.rcvevent := hframe.rcvevent
  simp only [SocketRun.expected, hev]
  omega

theorem toNat_changeEvent_plus {n : UInt16} (h : n ≠ 65535) :
    (changeEvent n true).toNat = n.toNat + 1 := by
  have hne : n.toNat ≠ 65535 := fun hn => h (UInt16.toNat_inj.mp hn)
  have hlt : n.toNat < 65536 := n.toNat_lt
  rw [changeEvent, if_pos rfl, UInt16.toNat_add]
  simp only [UInt16.reduceToNat]
  omega

theorem toNat_changeEvent_minus (n : UInt16) :
    (changeEvent n false).toNat = n.toNat - 1 := by
  by_cases h : n = 0
  · simp [changeEvent, h]
  · have hne : n.toNat ≠ 0 := fun hn => h (UInt16.toNat_inj.mp hn)
    have hle : (1 : UInt16) ≤ n := by
      rw [UInt16.le_iff_toNat_le]
      simp only [UInt16.reduceToNat]
      omega
    rw [changeEvent, if_neg (by decide), if_pos h, UInt16.toNat_sub_of_le _ _ hle]
    rfl

/-- The step of a call that keeps the count. -/
theorem countOk_call {s u : SocketRun} {i : ℕ} {ans : Answers} {pc pc' : CallPc}
    (hk : s.queue.Kept) (hs : CountOk s) (hok : CountKept s (.call i ans))
    (hpc : s.calls[i]? = some pc) (h : callStep s i ans pc = some (u, pc')) :
    CountOk (u.setPc i pc') := by
  have hframe := callStep_frame h
  have hmem : pc ∈ s.calls := List.mem_of_getElem? hpc
  have hclosing := hs.notClosing pc hmem
  have hexp := expected_setPc hpc h
  have hlist : (u.setPc i pc').sock.recvpktList = (pc.onQueue ans s.queue).rlist :=
    congrArg PacketQueue.rlist hframe.queue
  obtain ⟨hu, hs'⟩ := callStep_next h
  obtain ⟨hnonneg, hiff, hnone⟩ := hs
  obtain ⟨hcalloc, hall⟩ := hok
  have hkept : MayStep s pc := hall pc hpc
  have hcount : 0 ≤ (u.setPc i pc').expected ∧
      (0 < (u.setPc i pc').expected ↔ (u.setPc i pc').sock.recvpktList ≠ []) := by
    rw [hexp, hlist, hu, hs']
    have hget := fun (a : RecvArgs) => get_list (l := s.sock.recvpktList) hk.live a.len_pos
    cases pc with
    | noticePut d =>
        -- one more packet, not counted yet
        have hne : (CallPc.onQueue ans (.noticePut d) s.queue).rlist ≠ [] := by
          show atRecvpktPut _ ans.calloc _ _ ≠ []
          simp [atRecvpktPut, hcalloc]
        simp only [CallPc.onRcvevent, CallPc.uncounted, CallPc.unsettled, Bool.toNat_true,
          Bool.toNat_false, ne_eq, hne, not_false_eq_true, iff_true]
        omega
    | noticeEvent =>
        have hplus := toNat_changeEvent_plus hkept
        simp only [CallPc.onRcvevent, CallPc.uncounted, CallPc.unsettled, Bool.toNat_true,
          Bool.toNat_false, hplus]
        refine ⟨by omega, Iff.trans ?_ hiff⟩
        omega
    | recvFirst a | recvSecond a =>
        obtain ⟨hdata, hleft⟩ := hget a
        simp only [CallPc.onRcvevent, CallPc.uncounted, CallPc.unsettled, Bool.toNat_false]
        by_cases hempty : s.sock.recvpktList = []
        · -- no data: nothing is taken
          have hzero : ¬ 0 < (atRecvpktGet s.sock.recvpktList a.len).contentPos :=
            fun hp => hdata.mp hp hempty
          have hsame : (s.queue.get a.len).rlist = s.sock.recvpktList := by
            show (atRecvpktGet s.sock.recvpktList a.len).rlist = s.sock.recvpktList
            rw [hempty]
            rfl
          show _ ∧ (_ ↔ (s.queue.get a.len).rlist ≠ [])
          rw [hsame, decide_eq_false hzero, ← hiff, Bool.toNat_false]
          omega
        · -- the read is uncounted later, and it empties the list iff one event is left
          have hpos := hdata.mpr hempty
          have hone := hkept hempty
          have hlt := hiff.mpr hempty
          show _ ∧ (_ ↔ (atRecvpktGet s.sock.recvpktList a.len).rlist ≠ [])
          rw [hleft, decide_eq_true hpos, Bool.toNat_true, hone]
          omega
    | recvExit r =>
        cases r with
        | fail why =>
            simp only [CallPc.onRcvevent, CallPc.uncounted, CallPc.unsettled, Bool.toNat_false]
            refine ⟨by omega, Iff.trans ?_ hiff⟩
            omega
        | done n mem =>
            show _ ∧ (_ ↔ s.sock.recvpktList ≠ [])
            by_cases hn : n = 0
            · simp only [CallPc.onRcvevent, CallPc.uncounted, CallPc.unsettled, hn, ne_eq,
                not_true_eq_false, if_false, decide_false, Bool.toNat_false]
              refine ⟨by omega, Iff.trans ?_ hiff⟩
              omega
            · have hminus := toNat_changeEvent_minus s.sock.rcvevent
              simp only [CallPc.onRcvevent, CallPc.uncounted, CallPc.unsettled, hn, ne_eq,
                not_false_eq_true, if_true, decide_true, Bool.toNat_true, Bool.toNat_false, hminus]
              by_cases hz : s.sock.rcvevent = 0
              · have hne := hkept hn hz
                have hlt := hiff.mpr hne
                have hzero : s.sock.rcvevent.toNat = 0 := by rw [hz]; rfl
                simp only [hzero, hne, not_false_eq_true, iff_true]
                omega
              · have hpos : s.sock.rcvevent.toNat ≠ 0 := fun hn => hz (UInt16.toNat_inj.mp hn)
                refine ⟨by omega, Iff.trans ?_ hiff⟩
                omega
    | closedRecvEvent | closedErrorEvent | closedState | closedRelease => exact absurd rfl hclosing
    | noticeRelease | noticed | recvCheck a | recvTake a | recvBlocked a | recvWoken a
    | returned r =>
        simp only [CallPc.onRcvevent, CallPc.uncounted, CallPc.unsettled, Bool.toNat_true,
          Bool.toNat_false]
        refine ⟨by omega, Iff.trans ?_ hiff⟩
        omega
  refine ⟨hcount.1, hcount.2, fun q hq => ?_⟩
  rcases List.mem_or_eq_of_mem_set hq with hq | rfl
  · rcases mem_resumed hframe.calls hq with hq | ⟨a, rfl⟩
    · exact hnone q hq
    · simp [CallPc.closing]
  · exact callStep_notClosing h hclosing

theorem allocates_of_countKept {s : SocketRun} {a : SocketAction} (h : CountKept s a) :
    Allocates s a := by
  cases a with
  | call i ans => exact h.1
  | closedNotice => exact absurd h id
  | _ => trivial

theorem CallPc.uncounted_of_start {pc : CallPc} (h : pc.start = true) :
    pc.uncounted = false ∧ pc.unsettled = false := by
  cases pc with
  | noticePut d | closedRecvEvent | noticed | recvCheck a => exact ⟨rfl, rfl⟩
  | returned r => exact ⟨rfl, rfl⟩
  | _ => cases h

theorem countOk_step {s t : SocketRun} {a : SocketAction} (hstream : StreamOk s)
    (hs : CountOk s) (hok : CountKept s a) (h : step s a = some t) : CountOk t := by
  cases step_stepped h with
  | begun pc d hstart halloc hclose =>
      obtain ⟨hu, hu'⟩ := CallPc.uncounted_of_start hstart
      rcases hclose with ⟨rfl, hne⟩ | ⟨rfl, -⟩
      · exact countOk_begin hs hu hu' fun hc => hne (CallPc.closing_of_start hstart (.inl hc))
      · exact absurd hok id
  | called hpc hcall =>
      rcases hstream with ⟨-, hk⟩ | ⟨-, hd⟩
      · exact countOk_call hk hs hok hpc hcall
      · rw [callStep_ended (hd.ended _ (List.mem_of_getElem? hpc))] at hcall
        cases hcall
  | @timedOut i a sem hpc =>
      have hu := countP_setPc (u := s) hpc (.inl rfl) (.recvExit (.fail .timeout))
        (p := CallPc.uncounted) fun _ => rfl
      have hs' := countP_setPc (u := s) hpc (.inl rfl) (.recvExit (.fail .timeout))
        (p := CallPc.unsettled) fun _ => rfl
      simp only [CallPc.uncounted, CallPc.unsettled, Bool.toNat_false] at hu hs'
      have heq : ({ s with sock := { s.sock with recvNotice := some sem } }.setPc i
          (.recvExit (.fail .timeout))).expected = s.expected := by
        simp only [SocketRun.setPc] at hu hs'
        simp only [SocketRun.expected, SocketRun.setPc]
        omega
      refine ⟨by rw [heq]; exact hs.nonneg, by rw [heq]; exact hs.pos_iff, fun q hq => ?_⟩
      rcases List.mem_or_eq_of_mem_set hq with hq | rfl
      · exact hs.notClosing q hq
      · simp [CallPc.closing]
  | freed hmagic hended =>
      have hu : s.calls.countP CallPc.uncounted = 0 := List.countP_eq_zero.mpr fun pc hpc => by
        have hend := hended pc hpc
        cases pc <;> first | exact Bool.false_ne_true | cases hend
      have hs' : s.calls.countP CallPc.unsettled = 0 := List.countP_eq_zero.mpr fun pc hpc => by
        have hend := hended pc hpc
        cases pc <;> first | exact Bool.false_ne_true | cases hend
      have hzero : AtSocket.zero.rcvevent.toNat = 0 := rfl
      refine ⟨?_, ?_, hs.notClosing⟩
      · simp [SocketRun.expected, hu, hs', hzero]
      · simp [SocketRun.expected, hu, hs', AtSocket.zero]

/-- No call stands between its access to the list and its change of the counter. -/
def Settled (s : SocketRun) : Prop :=
  ∀ pc ∈ s.calls, pc.uncounted = false ∧ pc.unsettled = false

instance (s : SocketRun) : Decidable (Settled s) :=
  inferInstanceAs (Decidable (∀ pc ∈ s.calls, _))

end AtSock
