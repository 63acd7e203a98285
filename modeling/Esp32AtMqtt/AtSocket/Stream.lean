import Esp32AtMqtt.AtSocket.Socket

/-!
# The byte stream through an AT socket

In every run of deliveries, reads, close notifications and a final free on a connected
socket, with any number of calls under way at a time, the reads return the delivered
bytes in order and the receive list holds the others; every buffer is freed once.

A close notification does not change this, but it shuts the reads off: `at_recvfrom`
tests the socket's state before it looks at the list, so bytes that are unread when
the state changes stay in the list until the socket is freed.
-/

namespace AtSock

open Transition

/-- Every allocation of the step succeeds. -/
def Allocates (_ : SocketRun) : SocketAction → Prop
  | .call _ ans => ans.calloc = true
  | _ => True

instance (s : SocketRun) : ∀ a : SocketAction, Decidable (Allocates s a)
  | .call _ ans => inferInstanceAs (Decidable (ans.calloc = true))
  | .notice _ | .closedNotice | .recvfrom _ _ _ | .timeout _ | .freeSocket => isTrue trivial

/-- The bytes returned so far, in the order in which the reads took them. -/
def SocketRun.stored (s : SocketRun) : List UInt8 := s.returned.flatMap Prod.snd

/-- Nothing is left to do on a freed socket. -/
structure Deleted (s : SocketRun) : Prop where
  ended : ∀ pc ∈ s.calls, pc.ended = true
  rlist_eq : s.sock.recvpktList = []
  stored_prefix : s.stored <+: s.delivered.flatten
  freed_eq : s.freed = List.range s.delivered.length

/-- The law of the queue holds while the socket is allocated. -/
def StreamOk (s : SocketRun) : Prop :=
  (s.sock.magic = atSocketMagic ∧ s.queue.Kept) ∨ (s.sock.magic ≠ atSocketMagic ∧ Deleted s)

/-- The step of a call keeps the law of the queue. -/
theorem kept_onQueue {q : PacketQueue} (h : q.Kept) {ans : Answers} (hans : ans.calloc = true)
    (pc : CallPc) : (pc.onQueue ans q).Kept := by
  cases pc with
  | noticePut d =>
      have hput := h.put d.ne_nil
      rwa [← hans] at hput
  | recvFirst a => exact h.get a.len_pos
  | recvSecond a => exact h.get a.len_pos
  | _ => exact h

theorem callStep_ended {s : SocketRun} {i : ℕ} {ans : Answers} {pc : CallPc}
    (h : pc.ended = true) : callStep s i ans pc = none := by
  cases pc <;> first | rfl | cases h

theorem streamOk_init (socket : ℤ) (type : AtSocketType) (recvTimeout sendTimeout : ℤ) :
    StreamOk (init (connected socket type recvTimeout sendTimeout)) :=
  .inl ⟨rfl, PacketQueue.kept_empty⟩

/-- A call begins on an allocated socket, or it ends at once. -/
theorem streamOk_begin {s : SocketRun} (hs : StreamOk s) {pc : CallPc} (d : Option ℕ)
    (h : s.sock.magic = atSocketMagic ∨ pc.ended = true) :
    StreamOk ({ s with beforeClose := d }.begin pc) := by
  rcases hs with ⟨hm, hk⟩ | ⟨hm, hd⟩
  · exact .inl ⟨hm, hk⟩
  · have hpc := h.resolve_left hm
    exact .inr ⟨hm, List.forall_mem_append.mpr ⟨hd.ended, List.forall_mem_singleton.mpr hpc⟩,
      hd.rlist_eq, hd.stored_prefix, hd.freed_eq⟩

theorem streamOk_step {s t : SocketRun} {a : SocketAction} (hs : StreamOk s)
    (hok : Allocates s a) (h : step s a = some t) : StreamOk t := by
  cases step_stepped h with
  | begun pc d hstart halloc hclose => exact streamOk_begin hs d halloc
  | @called i ans pc pc' u hpc hcall =>
      rcases hs with ⟨hm, hk⟩ | ⟨hm, hd⟩
      · have hframe := callStep_frame hcall
        have hkept := kept_onQueue hk hok pc
        rw [← hframe.queue] at hkept
        exact .inl ⟨hframe.magic.trans hm, hkept⟩
      · have hmem : pc ∈ s.calls := List.mem_of_getElem? hpc
        rw [callStep_ended (hd.ended pc hmem)] at hcall
        cases hcall
  | timedOut hpc =>
      rcases hs with ⟨hm, hk⟩ | ⟨hm, hd⟩
      · exact .inl ⟨hm, hk⟩
      · have hend := hd.ended _ (List.mem_of_getElem? hpc)
        cases hend
  | freed hmagic hended =>
      rcases hs with ⟨hm, hk⟩ | ⟨hm, hd⟩
      · have hzero : AtSocket.zero.magic ≠ atSocketMagic := by decide
        exact .inr ⟨hzero, hended, rfl, ⟨unread s.sock.recvpktList, hk.bytes.symm⟩, hk.nodes⟩
      · exact absurd hmagic hm

/-- Whatever a call has read is recorded once, under the call's position. -/
def ReadsRecorded (s : SocketRun) : Prop :=
  ∀ i, s.returned.filter (fun r => r.1 = i) =
    (s.calls[i]?.bind CallPc.bytes).toList.map (Prod.mk i)

theorem Resumed.bind_bytes {cs ds : List CallPc} (h : Resumed cs ds) (i : ℕ) :
    ds[i]?.bind CallPc.bytes = cs[i]?.bind CallPc.bytes := by
  rcases h with rfl | ⟨j, a, hj, rfl⟩
  · rfl
  · rw [List.getElem?_set]
    split_ifs with heq hlt
    · rw [← heq, hj]
      rfl
    · rw [List.getElem?_eq_none (by omega)]
    · rfl

theorem Resumed.length_eq {cs ds : List CallPc} (h : Resumed cs ds) : ds.length = cs.length := by
  rcases h with rfl | ⟨j, a, hj, rfl⟩
  · rfl
  · simp

/-- A call that begins has read nothing. -/
theorem readsRecorded_begin {s : SocketRun} (hs : ReadsRecorded s) {pc : CallPc}
    (hpc : pc.bytes = none) : ReadsRecorded (s.begin pc) := by
  intro i
  have hcalls : (s.begin pc).calls[i]?.bind CallPc.bytes = s.calls[i]?.bind CallPc.bytes := by
    rcases Nat.lt_trichotomy i s.calls.length with hlt | heq | hgt
    · rw [SocketRun.begin, List.getElem?_append_left hlt]
    · rw [SocketRun.begin, heq, List.getElem?_concat_length, List.getElem?_eq_none (Nat.le_refl _)]
      exact hpc
    · rw [SocketRun.begin, List.getElem?_eq_none (by simp; omega),
        List.getElem?_eq_none (by omega)]
  rw [hcalls]
  exact hs i

/-- The step of a call records what it reads. -/
theorem readsRecorded_setPc {s u : SocketRun} (hs : ReadsRecorded s) {i : ℕ} {pc pc' : CallPc}
    (hpc : s.calls[i]? = some pc) (hcalls : Resumed s.calls u.calls)
    (hreads : (pc.bytes = none ∧ u.returned = s.returned ++ pc'.bytes.toList.map (Prod.mk i)) ∨
      (pc'.bytes = pc.bytes ∧ u.returned = s.returned)) : ReadsRecorded (u.setPc i pc') := by
  intro j
  have hlt : i < u.calls.length := by
    rw [hcalls.length_eq]
    exact (List.getElem?_eq_some_iff.mp hpc).1
  have hat : (u.setPc i pc').calls[j]?.bind CallPc.bytes =
      if i = j then pc'.bytes else s.calls[j]?.bind CallPc.bytes := by
    rw [SocketRun.setPc, List.getElem?_set]
    split_ifs with heq
    · rfl
    · exact hcalls.bind_bytes j
  have hold : s.returned.filter (fun r => r.1 = i) = pc.bytes.toList.map (Prod.mk i) := by
    rw [hs i, hpc]
    rfl
  show u.returned.filter (fun r => r.1 = j) = _
  rw [hat]
  rcases hreads with ⟨hnone, heq⟩ | ⟨hsame, heq⟩
  · rw [heq, List.filter_append]
    by_cases hij : i = j
    · subst hij
      rw [if_pos rfl, hold, hnone]
      cases pc'.bytes <;> simp
    · rw [if_neg hij, hs j]
      cases pc'.bytes <;> simp [hij]
  · rw [heq]
    by_cases hij : i = j
    · subst hij
      rw [if_pos rfl, hold, hsame]
    · rw [if_neg hij, hs j]

theorem CallPc.bytes_of_start {pc : CallPc} (h : pc.start = true) : pc.bytes = none := by
  cases pc with
  | noticePut d | closedRecvEvent | noticed | recvCheck a => rfl
  | returned r =>
      cases r with
      | done n mem => cases h
      | fail why => rfl
  | _ => cases h

theorem readsRecorded_step {s t : SocketRun} {a : SocketAction} (hs : ReadsRecorded s)
    (h : step s a = some t) : ReadsRecorded t := by
  cases step_stepped h with
  | begun pc d hstart halloc hclose =>
      exact readsRecorded_begin (s := { s with beforeClose := d }) hs (CallPc.bytes_of_start hstart)
  | called hpc hcall =>
      have hframe := callStep_frame hcall
      exact readsRecorded_setPc hs hpc hframe.calls hframe.reads
  | timedOut hpc =>
      exact readsRecorded_setPc (u := { s with sock := _ }) hs hpc (.inl rfl) (.inr ⟨rfl, rfl⟩)
  | freed hmagic hended => exact hs

/-- What the stream's law says of a state. -/
structure StreamKept (s : SocketRun) : Prop where
  stored_prefix : s.stored <+: s.delivered.flatten
  unread_eq : s.sock.magic = atSocketMagic →
    s.delivered.flatten = s.stored ++ unread s.sock.recvpktList
  reads : ∀ i pc, s.calls[i]? = some pc →
    s.returned.filter (fun r => r.1 = i) = pc.bytes.toList.map (Prod.mk i)
  freed_once : s.freed ++ s.sock.recvpktList.map AtRecvPkt.node = List.range s.delivered.length
  held : ∀ p ∈ s.sock.recvpktList, p.Live ∧ s.delivered[p.node]? = some p.buff

theorem StreamOk.streamKept {s : SocketRun} (hs : StreamOk s) (hr : ReadsRecorded s) :
    StreamKept s := by
  have hreads : ∀ i pc, s.calls[i]? = some pc →
      s.returned.filter (fun r => r.1 = i) = pc.bytes.toList.map (Prod.mk i) := by
    intro i pc hpc
    rw [hr i, hpc]
    rfl
  rcases hs with ⟨hm, hk⟩ | ⟨hm, hd⟩
  · exact ⟨⟨unread s.sock.recvpktList, hk.bytes.symm⟩, fun _ => hk.bytes, hreads, hk.nodes,
      fun p hp => ⟨hk.live p hp, hk.buffers p hp⟩⟩
  · refine ⟨hd.stored_prefix, fun h => absurd h hm, hreads, ?_, ?_⟩
    · rw [hd.rlist_eq, hd.freed_eq]
      simp
    · rw [hd.rlist_eq]
      simp

/-- The run lemma, for use by the other results about a socket. -/
theorem streamKept_of_run {socket : ℤ} {type : AtSocketType} {recvTimeout sendTimeout : ℤ}
    {as : List SocketAction} {s : SocketRun}
    (h : Run step Allocates (init (connected socket type recvTimeout sendTimeout)) as s) :
    StreamKept s := by
  have hs : StreamOk s := h.invariant StreamOk (fun _ _ _ => streamOk_step)
    (streamOk_init socket type recvTimeout sendTimeout)
  have hr : ReadsRecorded s := h.invariant ReadsRecorded
    (fun _ _ _ hs _ hst => readsRecorded_step hs hst) (fun i => by simp [init])
  exact hs.streamKept hr

/-- Every run of deliveries, reads, close notifications and a free on a connected socket
keeps the stream. -/
theorem recv_keeps_stream (socket : ℤ) (type : AtSocketType) (recvTimeout sendTimeout : ℤ)
    (as : List SocketAction) (s : SocketRun)
    (h : Run step Allocates (init (connected socket type recvTimeout sendTimeout)) as s) :
    StreamKept s :=
  streamKept_of_run h

/-- The next `n` steps of the call `i`. -/
def callSteps (n i : ℕ) : List SocketAction := List.replicate n (.call i ⟨true, true⟩)

/-- Two deliveries, a read that ends inside the second buffer, and one that empties it. -/
theorem recv_keeps_stream_twoReads : ∃ s,
    Run step Allocates (init (connected 0 .tcp 0 0))
      ([.notice [1, 2]] ++ callSteps 3 0 ++ [.notice [3, 4]] ++ callSteps 3 1 ++
        [.recvfrom 3 false false] ++ callSteps 3 2 ++ [.recvfrom 3 false false] ++
        callSteps 3 3) s ∧
    (s.returned = [(2, [1, 2, 3]), (3, [4])] ∧ s.freed = [0, 1]) ∧ StreamKept s := by
  obtain ⟨s, hrun, hs⟩ := Run.exists_of_exec step Allocates (init (connected 0 .tcp 0 0))
    ([.notice [1, 2]] ++ callSteps 3 0 ++ [.notice [3, 4]] ++ callSteps 3 1 ++
      [.recvfrom 3 false false] ++ callSteps 3 2 ++ [.recvfrom 3 false false] ++ callSteps 3 3)
    (fun s => decide (s.returned = [(2, [1, 2, 3]), (3, [4])] ∧ s.freed = [0, 1])) (by decide)
  exact ⟨s, hrun, of_decide_eq_true hs, recv_keeps_stream 0 .tcp 0 0 _ s hrun⟩

end AtSock
