import Esp32AtMqtt.AtClient.Readline
import Esp32AtMqtt.AtClient.Completion

/-!
# The buffers of the parser

Which bytes of the receive buffer `client_parser` and `at_recv_readline` look at or write,
as lists of indices that follow their statements, and where the parser writes in a response.

All indices of the receive buffer are inside it. A copy into a response comes after a test
of the size of the response, but the parser reads `client->resp` again for the copy: when a
command has timed out in between and another one has registered a smaller response, the
line runs over its end. `RoomKept` excludes that registration, and `at_resp_set_info` on
the response that is about to be written.
-/

namespace AtCmd

open Transition

/-- How many bytes of `s` the call `strncmp(s, t, n)` looks at. -/
def strncmpReads : ℕ → List UInt8 → List UInt8 → ℕ
  | 0, _, _ => 0
  | n + 1, s, t =>
      if s.headD 0 = t.headD 0 ∧ s.headD 0 ≠ 0 then strncmpReads n s.tail t.tail + 1 else 1

/-- The indices one round of `get_urc_obj` looks at. -/
def urcReads (client : Receiver) (urc : AtUrc) : List ℕ :=
  let prefixLen := urc.cmdPrefix.length
  let suffixLen := urc.cmdSuffix.length
  let suffixStart := client.curRecvLen - suffixLen
  if client.curRecvLen < prefixLen + suffixLen then []
  else
    List.range (strncmpReads prefixLen client.recvBuffer urc.cmdPrefix) ++
      if strncmpEq prefixLen client.recvBuffer urc.cmdPrefix then
        (List.range (strncmpReads suffixLen (client.recvBuffer.drop suffixStart)
          urc.cmdSuffix)).map (suffixStart + ·)
      else []

/-- The rounds over the table, up to the entry that matches. -/
def tableReads (client : Receiver) : List AtUrc → List ℕ
  | [] => []
  | urc :: table =>
      urcReads client urc ++ if urcMatches client urc then [] else tableReads client table

/-- The indices `get_urc_obj(client)` looks at. -/
def getUrcObjReads (client : Receiver) : List ℕ := tableReads client (client.urcTable.getD [])

/-- The indices a round of `at_recv_readline` touches behind the character: the store, the
URC test if it comes to that, and the `memset` of a line that has failed. -/
def ReadLoop.touches (l : ReadLoop) (ch : UInt8) : List ℕ :=
  let k := l.store ch
  (if l.readLen < l.client.recvBufsz then [l.readLen] else []) ++
    (if (ch = 10 && k.lastCh = 13) || (k.client.endSign ≠ 0 && ch = k.client.endSign) then []
      else getUrcObjReads k.client) ++
    if k.ended ch && k.isFull then List.range k.client.recvBufsz else []

/-- The indices the loop touches on the bytes to come. -/
def readLoopTouches : ReadLoop → List UInt8 → List ℕ
  | _, [] => []
  | l, ch :: stream =>
      l.touches ch ++
        if (l.store ch).ended ch then []
        else readLoopTouches { l.store ch with lastCh := ch } stream

/-- The indices `at_recv_readline(client)` touches, beginning with its `memset`. -/
def readlineTouches (client : Receiver) (stream : List UInt8) : List ℕ :=
  List.range client.recvBufsz ++ readLoopTouches ⟨client.clear, 0, 0, false⟩ stream

/-- `client->recv_buffer[client->cur_recv_len - 1] = '\0'`. -/
def Receiver.terminate (client : Receiver) : Receiver :=
  { client with recvBuffer := client.recvBuffer.set (client.curRecvLen - 1) 0 }

/-- The indices the body of the loop of `client_parser` touches with a line in the buffer,
on all its branches together: the URC test, the terminator, the source of the `memcpy`, the
two keywords compared with `memcmp`, and the string searched by `strstr` with its end. -/
def bodyTouches (client : Receiver) : List ℤ :=
  (getUrcObjReads client).map Nat.cast ++ [(client.curRecvLen : ℤ) - 1] ++
    (List.range client.curRecvLen ++ List.range 2 ++
      List.range (strlen client.terminate.recvBuffer + 1) ++ List.range 4).map Nat.cast

/-- The indices of `n` rounds of the loop of `client_parser`. -/
def parserTouches : ℕ → Receiver → List UInt8 → List ℤ
  | 0, _, _ => []
  | n + 1, client, stream =>
      (readlineTouches client stream).map Nat.cast ++
        match atRecvReadline client stream with
        | none => []
        | some (r, rest) => (if 0 < r.1 then bodyTouches r.2 else []) ++ parserTouches n r.2 rest

theorem strncmpReads_le (n : ℕ) (s t : List UInt8) : strncmpReads n s t ≤ n := by
  induction n generalizing s t with
  | zero => exact Nat.le_refl 0
  | succ n ih =>
      rw [strncmpReads]
      split_ifs
      · exact Nat.succ_le_succ (ih _ _)
      · exact Nat.succ_pos n

section

variable {client : Receiver}

theorem urcReads_lt (hlen : client.curRecvLen ≤ client.recvBufsz) (urc : AtUrc) :
    ∀ i ∈ urcReads client urc, i < client.recvBufsz := by
  intro i hi
  rw [urcReads] at hi
  split_ifs at hi with hshort heq
  · cases hi
  · rcases List.mem_append.mp hi with hfront | hback
    · have hread := strncmpReads_le urc.cmdPrefix.length client.recvBuffer urc.cmdPrefix
      have hlt := List.mem_range.mp hfront
      omega
    · obtain ⟨j, hj, rfl⟩ := List.mem_map.mp hback
      have hread := strncmpReads_le urc.cmdSuffix.length
        (client.recvBuffer.drop (client.curRecvLen - urc.cmdSuffix.length)) urc.cmdSuffix
      have hlt := List.mem_range.mp hj
      omega
  · rw [List.append_nil] at hi
    have hread := strncmpReads_le urc.cmdPrefix.length client.recvBuffer urc.cmdPrefix
    have hlt := List.mem_range.mp hi
    omega

theorem getUrcObjReads_lt (hlen : client.curRecvLen ≤ client.recvBufsz) :
    ∀ i ∈ getUrcObjReads client, i < client.recvBufsz := by
  rw [getUrcObjReads]
  generalize client.urcTable.getD [] = table
  induction table with
  | nil => exact nofun
  | cons urc table ih =>
      intro i hi
      rw [tableReads] at hi
      rcases List.mem_append.mp hi with hfirst | hrest
      · exact urcReads_lt hlen urc i hfirst
      · split_ifs at hrest
        · cases hrest
        · exact ih i hrest

/-- A string that has been terminated at `k` ends there or before. -/
theorem strlen_set_zero_le {bytes : List UInt8} {k : ℕ} (h : k < bytes.length) :
    strlen (bytes.set k 0) ≤ k := by
  induction bytes generalizing k with
  | nil => exact absurd h (Nat.not_lt_zero k)
  | cons b bytes ih =>
      cases k with
      | zero => simp [strlen, cString]
      | succ k =>
          have hrest := ih (Nat.lt_of_succ_lt_succ h)
          rw [strlen, cString] at hrest ⊢
          rw [List.set_cons_succ, List.takeWhile_cons]
          split_ifs
          · exact Nat.succ_le_succ hrest
          · exact Nat.zero_le _

theorem ReadLoop.Stored.curRecvLen_le {s : List UInt8} {l : ReadLoop}
    (h : ReadLoop.Stored client s l) : l.client.curRecvLen ≤ l.client.recvBufsz := by
  rw [h.curRecvLen, h.recvBufsz]
  exact Nat.min_le_right _ _

theorem ReadLoop.Stored.touches_lt {s : List UInt8} {l : ReadLoop}
    (h : ReadLoop.Stored client s l) (ch : UInt8) :
    ∀ i ∈ l.touches ch, i < client.recvBufsz := by
  have hstore := h.store ch
  intro i hi
  rw [ReadLoop.touches] at hi
  rcases List.mem_append.mp hi with hi | hfail
  · rcases List.mem_append.mp hi with hwrite | hurc
    · split_ifs at hwrite with hroom
      · rw [List.mem_singleton.mp hwrite, ← h.recvBufsz]
        exact hroom
      · cases hwrite
    · split_ifs at hurc
      · cases hurc
      · rw [← hstore.recvBufsz]
        exact getUrcObjReads_lt hstore.curRecvLen_le i hurc
  · split_ifs at hfail
    · rw [← hstore.recvBufsz]
      exact List.mem_range.mp hfail
    · cases hfail

theorem readLoopTouches_lt {s : List UInt8} {l : ReadLoop} (stream : List UInt8)
    (h : ReadLoop.Stored client s l) :
    ∀ i ∈ readLoopTouches l stream, i < client.recvBufsz := by
  induction stream generalizing s l with
  | nil => exact nofun
  | cons ch stream ih =>
      intro i hi
      rw [readLoopTouches] at hi
      rcases List.mem_append.mp hi with hround | hrest
      · exact h.touches_lt ch i hround
      · split_ifs at hrest
        · cases hrest
        · exact ih ((h.store ch).setLast ch) i hrest

theorem readlineTouches_lt (stream : List UInt8) :
    ∀ i ∈ readlineTouches client stream, i < client.recvBufsz := by
  intro i hi
  rcases List.mem_append.mp hi with hset | hloop
  · exact List.mem_range.mp hset
  · exact readLoopTouches_lt stream (stored_nil client) i hloop

/-- The index `i` is one of the receive buffer. -/
def Receiver.Inside (client : Receiver) (i : ℤ) : Prop := 0 ≤ i ∧ i < client.recvBufsz

theorem Receiver.inside_cast {i : ℕ} (h : i < client.recvBufsz) : client.Inside i :=
  ⟨Int.natCast_nonneg i, Int.ofNat_lt.mpr h⟩

theorem bodyTouches_inside (hsize : 4 ≤ client.recvBufsz) (hpos : 0 < client.curRecvLen)
    (hlen : client.curRecvLen ≤ client.recvBufsz) : ∀ i ∈ bodyTouches client, client.Inside i := by
  have hstr : strlen client.terminate.recvBuffer ≤ client.curRecvLen - 1 :=
    strlen_set_zero_le (Nat.lt_of_lt_of_le (Nat.sub_one_lt_of_lt hpos) hlen)
  intro i hi
  rw [bodyTouches] at hi
  rcases List.mem_append.mp hi with hi | hline
  · rcases List.mem_append.mp hi with hurc | hterm
    · obtain ⟨j, hj, rfl⟩ := List.mem_map.mp hurc
      exact Receiver.inside_cast (getUrcObjReads_lt hlen j hj)
    · rw [List.mem_singleton.mp hterm]
      constructor <;> omega
  · obtain ⟨j, hj, rfl⟩ := List.mem_map.mp hline
    apply Receiver.inside_cast
    simp only [List.mem_append, List.mem_range] at hj
    omega

/-- Every round of the parser keeps inside, and leaves a buffer of the same size. -/
theorem parserTouches_inside (n : ℕ) (hsize : 4 ≤ client.recvBufsz) (stream : List UInt8) :
    ∀ i ∈ parserTouches n client stream, client.Inside i := by
  induction n generalizing client stream with
  | zero => exact nofun
  | succ n ih =>
      intro i hi
      rw [parserTouches] at hi
      rcases List.mem_append.mp hi with hread | hrest
      · obtain ⟨j, hj, rfl⟩ := List.mem_map.mp hread
        exact Receiver.inside_cast (readlineTouches_lt stream j hj)
      · have hcall := atRecvReadline_framed (Nat.lt_of_lt_of_le (by decide) hsize) stream
        cases hr : atRecvReadline client stream with
        | none =>
            rw [hr] at hrest
            cases hrest
        | some out =>
            obtain ⟨r, rest⟩ := out
            rw [hr] at hcall hrest
            obtain ⟨p, -, hline, hresult⟩ := hcall
            have hsame : ∀ {j : ℤ}, r.2.Inside j → client.Inside j := by
              intro j hj
              rwa [Receiver.Inside, hresult.recvBufsz] at hj
            have hsize' : 4 ≤ r.2.recvBufsz := by
              rw [hresult.recvBufsz]
              exact hsize
            rcases List.mem_append.mp hrest with hbody | hnext
            · split_ifs at hbody with hpos
              · have hfits : p.length ≤ client.recvBufsz := by
                  by_contra hfull
                  rw [(hresult.full (Nat.lt_of_not_le hfull)).1] at hpos
                  exact absurd hpos (by decide)
                obtain ⟨-, hcur, -⟩ := hresult.fits hfits
                refine hsame (bodyTouches_inside hsize' ?_ ?_ i hbody)
                · rw [hcur]
                  exact List.length_pos_iff.mpr hline.ne_nil
                · rw [hcur, hresult.recvBufsz]
                  exact hfits
              · cases hbody
            · exact hsame (ih hsize' rest i hnext)

end

/-- The response `r` has room for the line in the receive buffer, behind what is stored. -/
def ClientRun.Room (s : ClientRun) (r : ℕ) : Prop :=
  ∃ resp, s.heap[r]? = some resp ∧
    s.parser.respBufLen + s.parser.recvBuffer.length ≤ resp.bufSize

instance (s : ClientRun) (r : ℕ) : Decidable (s.Room r) :=
  decidable_of_iff (∃ resp ∈ s.heap[r]?,
    s.parser.respBufLen + s.parser.recvBuffer.length ≤ resp.bufSize) Iff.rfl

/-- A response that is registered between the test of the size and the copy has room for
the line, and the response of the copy is not given another buffer. -/
def RoomKept (s : ClientRun) : ClientAction → Prop
  | .caller => s.parser.pc = .loadBuf → ∀ c ∈ s.call, c.pc = .register → ∀ r ∈ c.resp, s.Room r
  | .respSetInfo r _ _ _ _ => s.parser.pc ≠ .copy r
  | _ => True

instance (s : ClientRun) : ∀ a : ClientAction, Decidable (RoomKept s a)
  | .caller =>
      inferInstanceAs (Decidable (_ → ∀ c ∈ s.call, _ → ∀ r ∈ c.resp, s.Room r))
  | .respSetInfo .. => inferInstanceAs (Decidable (_ ≠ _))
  | .createResp .. => isTrue trivial
  | .execCmd _ => isTrue trivial
  | .waitConnect => isTrue trivial
  | .giveUp => isTrue trivial
  | .timeout => isTrue trivial
  | .readLine _ => isTrue trivial
  | .parser => isTrue trivial

/-- The invariant of these runs: a registered response is that of the call under way, and
the response the line is about to go to has room for it. -/
structure InRoom (s : ClientRun) : Prop where
  registered : ∀ r ∈ s.client.resp, ∃ c ∈ s.call, c.resp = some r ∧ ∀ result, c.pc ≠ .unlock result
  valid : ∀ c ∈ s.call, ∀ r ∈ c.resp, r < s.heap.length
  loadBuf : s.parser.pc = .loadBuf → ∀ r ∈ s.client.resp, s.Room r
  copy : ∀ dst, s.parser.pc = .copy dst → s.Room dst

theorem inRoom_init : InRoom init := by
  constructor <;> simp [init]

/-- The line and the size of the response are as before. -/
theorem ClientRun.Room.of_eq {s t : ClientRun} {r : ℕ} (h : s.Room r)
    (hparser : t.parser.respBufLen = s.parser.respBufLen)
    (hline : t.parser.recvBuffer = s.parser.recvBuffer)
    (hsize : (t.heap[r]?).map AtResponse.bufSize = (s.heap[r]?).map AtResponse.bufSize) :
    t.Room r := by
  obtain ⟨resp, hresp, hfits⟩ := h
  rw [hresp] at hsize
  obtain ⟨resp', hresp', hsize'⟩ := Option.map_eq_some_iff.mp hsize
  refine ⟨resp', hresp', ?_⟩
  rw [hparser, hline, hsize']
  exact hfits

/-- A change of a response that keeps the sizes. -/
theorem bufSize_modify {heap : List AtResponse} {r' : ℕ} {f : AtResponse → AtResponse}
    (hf : ∀ resp, heap[r']? = some resp → (f resp).bufSize = resp.bufSize) (r : ℕ) :
    ((heap.modify r' f)[r]?).map AtResponse.bufSize = (heap[r]?).map AtResponse.bufSize := by
  rw [List.getElem?_modify]
  cases hr : heap[r]? with
  | none => rfl
  | some resp =>
      by_cases heq : r' = r
      · simpa [heq] using hf resp (heq ▸ hr)
      · simp [heq]

/-- What the step of a call leaves: the sizes of the responses, and nothing registered once
the call is about to release the lock. -/
theorem callerStep_sizes {s t : ClientRun} {c : Call} (h : callerStep s c = some t) (r : ℕ) :
    (t.heap[r]?).map AtResponse.bufSize = (s.heap[r]?).map AtResponse.bufSize := by
  by_cases hpc : c.pc = .clear
  · simp only [callerStep, hpc] at h
    obtain ⟨r', -, rfl⟩ := Option.map_eq_some_iff.mp h
    refine bufSize_modify ?_ r
    exact fun _ _ => rfl
  · rw [(callerStep_frame h).heap hpc]

theorem callerStep_unlock {s t : ClientRun} {c : Call} (h : callerStep s c = some t) :
    ∀ d ∈ t.call, ∀ result, d.pc = .unlock result → t.client.resp = none := by
  intro d hd result hres
  have hno : ∀ {u : ClientRun} {pc : CallPc}, u.callAt c pc = t →
      (∀ result, pc ≠ .unlock result) → t.client.resp = none := by
    intro u pc hu hne
    rw [← hu] at hd
    cases hd
    exact absurd hres (hne result)
  unfold callerStep at h
  cases hpc : c.pc with
  | wait => simp [hpc] at h
  | clear =>
      simp only [hpc] at h
      obtain ⟨r, -, hrun⟩ := Option.map_eq_some_iff.mp h
      refine hno hrun ?_
      cases c.kind <;> exact nofun
  | take =>
      simp only [hpc] at h
      obtain ⟨resp, -, hrun⟩ := Option.map_eq_some_iff.mp h
      split_ifs at hrun <;> exact hno hrun nofun
  | unregister result =>
      simp only [hpc, Option.some.injEq] at h
      rw [← h]
      rfl
  | unlock result =>
      simp only [hpc, Option.some.injEq] at h
      rw [← h] at hd
      cases hd
  | woken =>
      cases hk : c.kind <;> simp only [hpc, hk, Option.some.injEq] at h <;> exact hno h nofun
  | timedOut =>
      cases hk : c.kind <;> simp only [hpc, hk, Option.some.injEq] at h <;> exact hno h nofun
  | register =>
      simp only [hpc, Option.some.injEq] at h
      refine hno h ?_
      cases c.kind <;> exact nofun
  | send =>
      simp only [hpc, Option.some.injEq] at h
      refine hno h ?_
      cases c.kind <;> cases c.resp <;> exact nofun
  | _ =>
      simp only [hpc, Option.some.injEq] at h
      exact hno h nofun

/-- The step of the call under way. -/
theorem inRoom_caller {s t : ClientRun} {c : Call} (hs : InRoom s) (hc : s.call = some c)
    (hok : RoomKept s .caller) (h : callerStep s c = some t) : InRoom t := by
  have hframe := callerStep_frame h
  have hroom : ∀ {r : ℕ}, s.Room r → t.Room r := fun hr =>
    hr.of_eq (by rw [hframe.parser]) (by rw [hframe.parser]) (callerStep_sizes h _)
  have hfrom : ∀ r ∈ t.client.resp, c.resp = some r ∧ (c.pc = .register ∨ r ∈ s.client.resp) := by
    intro r hr
    by_cases hpc : c.pc = .register
    · simp only [callerStep, hpc, Option.some.injEq] at h
      rw [← h] at hr
      exact ⟨hr, .inl hpc⟩
    · rcases hframe.resp hpc with hsame | hnone
      · rw [hsame] at hr
        obtain ⟨c', hc', hcr, -⟩ := hs.registered r hr
        obtain rfl : c = c' := Option.some.inj (hc.symm.trans hc')
        exact ⟨hcr, .inr hr⟩
      · rw [hnone] at hr
        cases hr
  refine ⟨fun r hr => ?_, fun d hd r hr => ?_, fun hpc r hr => ?_, fun dst hpc => ?_⟩
  · obtain ⟨hcr, hwhy⟩ := hfrom r hr
    rcases hframe.call with ⟨pc, htcall, -⟩ | ⟨result, hpc, htcall, -⟩
    · refine ⟨_, htcall, hcr, fun result hres => ?_⟩
      rw [callerStep_unlock h _ htcall result hres] at hr
      cases hr
    · rcases hwhy with hpc' | hr'
      · rw [hpc] at hpc'
        cases hpc'
      · obtain ⟨c', hc', -, hne⟩ := hs.registered r hr'
        obtain rfl : c = c' := Option.some.inj (hc.symm.trans hc')
        exact absurd hpc (hne result)
  · rw [hframe.heap_length]
    rcases hframe.call with ⟨pc, htcall, -⟩ | ⟨result, -, htcall, -⟩
    · rw [htcall] at hd
      cases hd
      exact hs.valid c hc r hr
    · rw [htcall] at hd
      cases hd
  · obtain ⟨hcr, hwhy⟩ := hfrom r hr
    rw [hframe.parser] at hpc
    rcases hwhy with hreg | hr'
    · exact hroom (hok hpc c hc hreg r hcr)
    · exact hroom (hs.loadBuf hpc r hr')
  · rw [hframe.parser] at hpc
    exact hroom (hs.copy dst hpc)

theorem useResp_cases (s : ClientRun) (f : ℕ → AtResponse → ClientRun) :
    s.useResp f = s.parserAt .fault ∨
      ∃ r resp, s.client.resp = some r ∧ s.heap[r]? = some resp ∧ s.useResp f = f r resp := by
  unfold ClientRun.useResp ClientRun.deref
  cases hr : s.client.resp with
  | none => exact .inl rfl
  | some r =>
      cases hresp : s.heap[r]? with
      | none => exact .inl (by simp [hresp])
      | some resp => exact .inr ⟨r, resp, rfl, hresp, by simp [hresp]⟩

/-- The place of the parser concerns no response. -/
def ParserPc.aside : ParserPc → Bool
  | .loadBuf => false
  | .copy _ => false
  | _ => true

/-- A step of the parser to a place that concerns no response. -/
theorem InRoom.of_aside {s t : ClientRun} (hs : InRoom s)
    (hresp : t.client.resp = s.client.resp ∨ t.client.resp = none)
    (hlen : t.heap.length = s.heap.length) (hpc : t.parser.pc.aside = true)
    (hcall : t.call = s.call ∨ ∃ c, s.call = some c ∧ t.call = some { c with pc := .woken }) :
    InRoom t := by
  refine ⟨fun r hr => ?_, fun d hd r hr => ?_, fun hload => ?_, fun dst hcopy => ?_⟩
  · rcases hresp with hsame | hnone
    · rw [hsame] at hr
      obtain ⟨c, hc, hcr, hne⟩ := hs.registered r hr
      rcases hcall with hcall | ⟨c', hc', hcall⟩
      · exact ⟨c, hcall ▸ hc, hcr, hne⟩
      · obtain rfl : c' = c := Option.some.inj (hc'.symm.trans hc)
        exact ⟨_, hcall, hcr, fun _ => nofun⟩
    · rw [hnone] at hr
      cases hr
  · rw [hlen]
    rcases hcall with hcall | ⟨c', hc', hcall⟩
    · exact hs.valid d (hcall ▸ hd) r hr
    · rw [hcall] at hd
      cases hd
      exact hs.valid c' hc' r hr
  · rw [hload] at hpc
    cases hpc
  · rw [hcopy] at hpc
    cases hpc

/-- The step of the parser: the size of the response is tested, its buffer is loaded, and
what has been tested still holds of the response loaded. -/
theorem inRoom_parserStep {s t : ClientRun} (hs : InRoom s) (h : parserStep s = some t) :
    InRoom t := by
  have hframe := parserStep_frame h
  have haside : s.parser.pc ≠ .release →
      (t.client.resp = s.client.resp ∨ t.client.resp = none) → t.parser.pc.aside = true →
      InRoom t := fun hne hresp hpc =>
    hs.of_aside hresp hframe.heap hpc (.inl (hframe.quiet hne).1)
  have huse : ∀ {g : ℕ → AtResponse → ParserPc}, s.parser.pc ≠ .release →
      (s.useResp fun r resp => s.parserAt (g r resp)) = t →
      (∀ r resp, (g r resp).aside = true) → InRoom t := by
    intro g hne ht hg
    rcases useResp_cases s fun r resp => s.parserAt (g r resp) with hfault | ⟨r, resp, -, -, heq⟩
    · rw [hfault] at ht
      exact haside hne (.inl (by rw [← ht]; rfl)) (by rw [← ht]; rfl)
    · rw [heq] at ht
      exact haside hne (.inl (by rw [← ht]; rfl)) (by rw [← ht]; exact hg r resp)
  cases hpc : s.parser.pc with
  | readline => simp [parserStep, hpc] at h
  | fault => simp [parserStep, hpc] at h
  | test =>
      simp only [parserStep, hpc] at h
      split at h <;> cases h <;> exact haside (by simp [hpc]) (.inl rfl) rfl
  | size =>
      simp only [parserStep, hpc, Option.some.injEq] at h
      rcases useResp_cases s fun _ resp => s.parserAt
        (if s.parser.respBufLen + s.parser.recvBuffer.length < resp.bufSize then .loadBuf
          else .full) with hfault | ⟨r, resp, hr, hresp, heq⟩
      · rw [hfault] at h
        exact haside (by simp [hpc]) (.inl (by rw [← h]; rfl)) (by rw [← h]; rfl)
      · rw [heq] at h
        subst h
        by_cases hfits : s.parser.respBufLen + s.parser.recvBuffer.length < resp.bufSize
        · rw [if_pos hfits]
          refine ⟨hs.registered, hs.valid, fun _ r' hr' => ?_, fun _ h => by cases h⟩
          obtain rfl : r = r' := Option.some.inj (hr.symm.trans hr')
          exact ⟨resp, hresp, Nat.le_of_lt hfits⟩
        · rw [if_neg hfits]
          exact hs.of_aside (.inl rfl) rfl rfl (.inl rfl)
  | loadBuf =>
      simp only [parserStep, hpc, Option.some.injEq] at h
      rcases useResp_cases s fun r _ => s.parserAt (.copy r) with hfault | ⟨r, resp, hr, -, heq⟩
      · rw [hfault] at h
        exact haside (by simp [hpc]) (.inl (by rw [← h]; rfl)) (by rw [← h]; rfl)
      · rw [heq] at h
        subst h
        refine ⟨hs.registered, hs.valid, by rintro ⟨⟩, fun dst hdst => ?_⟩
        obtain rfl : r = dst := ParserPc.copy.inj hdst
        exact hs.loadBuf hpc r hr
  | release =>
      simp only [parserStep, hpc, Option.some.injEq] at h
      obtain ⟨client, call, heq, hresp, -, hcall⟩ :=
        release_frame { s with completed := s.completed ++ s.parser.owner.toList }
      rw [heq] at h
      subst h
      exact hs.of_aside (.inl hresp) hframe.heap rfl hcall
  | okLine =>
      simp only [parserStep, hpc] at h
      split_ifs at h <;> simp only [Option.some.injEq] at h
      · refine huse (by simp [hpc]) h fun r resp => ?_
        split_ifs <;> rfl
      · subst h
        exact haside (by simp [hpc]) (.inl rfl) rfl
  | errorLine =>
      simp only [parserStep, hpc] at h
      split_ifs at h <;> cases h <;> exact haside (by simp [hpc]) (.inl rfl) rfl
  | countLine =>
      simp only [parserStep, hpc, Option.some.injEq] at h
      refine huse (by simp [hpc]) h fun r resp => ?_
      split_ifs <;> rfl
  | countSet =>
      simp only [parserStep, hpc, Option.some.injEq] at h
      refine huse (by simp [hpc]) h fun r resp => ?_
      split_ifs <;> rfl
  | loadCounts =>
      simp only [parserStep, hpc, Option.some.injEq] at h
      exact huse (by simp [hpc]) h fun _ _ => rfl
  | clearResp =>
      simp only [parserStep, hpc, Option.some.injEq] at h
      subst h
      exact haside (by simp [hpc]) (.inr rfl) rfl
  | _ =>
      simp only [parserStep, hpc, Option.some.injEq] at h
      subst h
      exact haside (by simp [hpc]) (.inl rfl) rfl

/-- A step beside the parser that keeps the registration: the call may move on, and the
responses in question keep their room. -/
theorem InRoom.of_call {s t : ClientRun} (hs : InRoom s) (hparser : t.parser = s.parser)
    (hresp : t.client.resp = s.client.resp)
    (hcall : ∀ c ∈ s.call, (∀ result, c.pc ≠ .unlock result) →
      ∃ d ∈ t.call, d.resp = c.resp ∧ ∀ result, d.pc ≠ .unlock result)
    (hvalid : ∀ d ∈ t.call, ∀ r ∈ d.resp, r < t.heap.length)
    (hheap : ∀ r, r ∈ s.client.resp ∨ s.parser.pc = .copy r → r < s.heap.length →
      t.heap[r]? = s.heap[r]?) : InRoom t := by
  have hroom : ∀ {r : ℕ}, r ∈ s.client.resp ∨ s.parser.pc = .copy r → s.Room r → t.Room r := by
    intro r hr hroom
    have hlt : r < s.heap.length := by
      obtain ⟨resp, hget, -⟩ := hroom
      exact (List.getElem?_eq_some_iff.mp hget).1
    exact hroom.of_eq (by rw [hparser]) (by rw [hparser]) (by rw [hheap r hr hlt])
  refine ⟨fun r hr => ?_, hvalid, fun hpc r hr => ?_, fun dst hpc => ?_⟩
  · rw [hresp] at hr
    obtain ⟨c, hc, hcr, hne⟩ := hs.registered r hr
    obtain ⟨d, hd, hdr, hne'⟩ := hcall c hc hne
    exact ⟨d, hd, hdr.trans hcr, hne'⟩
  · rw [hparser] at hpc
    rw [hresp] at hr
    exact hroom (.inl hr) (hs.loadBuf hpc r hr)
  · rw [hparser] at hpc
    exact hroom (.inr hpc) (hs.copy dst hpc)

theorem inRoom_step {s t : ClientRun} {a : ClientAction} (hs : InRoom s) (hok : RoomKept s a)
    (h : step s a = some t) : InRoom t := by
  have hself : ∀ c ∈ s.call, (∀ result, c.pc ≠ .unlock result) →
      ∃ d ∈ s.call, d.resp = c.resp ∧ ∀ result, d.pc ≠ .unlock result :=
    fun c hc hne => ⟨c, hc, rfl, hne⟩
  have hnone : ∀ {P : Call → Prop}, s.call = none → ∀ c ∈ s.call, P c := by
    intro P hcall c hc
    rw [hcall] at hc
    cases hc
  cases a with
  | parser => exact inRoom_parserStep hs h
  | caller =>
      obtain ⟨c, hc, hcaller⟩ := Option.bind_eq_some_iff.mp h
      exact inRoom_caller hs hc hok hcaller
  | createResp bufSize lineNum timeout =>
      cases h
      refine hs.of_call rfl rfl hself (fun d hd r hr => ?_) fun r _ hlt => ?_
      · exact Nat.lt_of_lt_of_le (hs.valid d hd r hr) (by simp)
      · exact List.getElem?_append_left hlt
  | respSetInfo r bufSize lineNum timeout fresh =>
      simp only [step] at h
      split at h
      · split_ifs at h with hguard
        cases h
        refine hs.of_call rfl rfl hself (fun d hd r' hr' => ?_) fun r' hr' _ => ?_
        · exact Nat.lt_of_lt_of_le (hs.valid d hd r' hr') (by simp)
        · refine List.getElem?_set_ne ?_
          rintro rfl
          rcases hr' with hreg | hcopy
          · obtain ⟨c, hc, hcr, -⟩ := hs.registered r hreg
            exact hguard.1 (by rw [Option.mem_def.mp hc, Option.bind_some, hcr])
          · exact hok hcopy
      · cases h
  | execCmd resp =>
      simp only [step] at h
      split_ifs at h with hguard
      cases h
      refine hs.of_call rfl rfl (hnone hguard.1) ?_ fun _ _ _ => rfl
      rintro d ⟨⟩ r hr
      exact hguard.2 r hr
  | waitConnect =>
      simp only [step] at h
      split_ifs at h with hcall
      cases h
      refine hs.of_call rfl rfl (hnone hcall) ?_ fun r _ hlt => List.getElem?_append_left hlt
      rintro d ⟨⟩ r hr
      cases hr
      simp [ClientRun.begin]
  | giveUp =>
      simp only [step] at h
      split at h
      · next c hc =>
          split_ifs at h
          cases h
          refine hs.of_call rfl rfl (fun c' hc' _ => ?_) ?_ fun _ _ _ => rfl
          · obtain rfl : c = c' := Option.some.inj (hc.symm.trans hc')
            exact ⟨_, rfl, rfl, by simp⟩
          · rintro d ⟨⟩ r hr
            exact hs.valid c hc r hr
      · cases h
  | timeout =>
      simp only [step] at h
      split at h
      · next c hc =>
          split_ifs at h
          cases h
          refine hs.of_call rfl rfl (fun c' hc' _ => ?_) ?_ fun _ _ _ => rfl
          · obtain rfl : c = c' := Option.some.inj (hc.symm.trans hc')
            exact ⟨_, rfl, rfl, by simp⟩
          · rintro d ⟨⟩ r hr
            exact hs.valid c hc r hr
      · cases h
  | readLine line =>
      simp only [step] at h
      split_ifs at h
      cases h
      exact hs.of_aside (.inl rfl) rfl rfl (.inl rfl)

/-- Every byte the parser is about to copy lands inside the response. -/
def CopyInside (s : ClientRun) : Prop :=
  ∀ dst, s.parser.pc = .copy dst → ∃ resp, s.heap[dst]? = some resp ∧
    ∀ i < s.parser.recvBuffer.length, s.parser.respBufLen + i < resp.bufSize

theorem InRoom.copyInside {s : ClientRun} (h : InRoom s) : CopyInside s := by
  intro dst hpc
  obtain ⟨resp, hresp, hfits⟩ := h.copy dst hpc
  refine ⟨resp, hresp, fun i hi => ?_⟩
  omega

/-- The parser keeps inside the receive buffer for all bytes, tables and end signs, and
inside the responses in every run in which their room is kept. -/
theorem parser_inside (client : Receiver) (n : ℕ) (stream : List UInt8) (as : List ClientAction)
    (s : ClientRun) :
    (4 ≤ client.recvBufsz → ∀ i ∈ parserTouches n client stream, client.Inside i) ∧
      (Run step RoomKept init as s → CopyInside s) := by
  constructor
  · intro hsize
    exact parserTouches_inside n hsize stream
  · intro h
    have hroom := h.invariant InRoom (fun _ _ _ hs hok hst => inRoom_step hs hok hst) inRoom_init
    exact hroom.copyInside

/-- A receiver of four bytes that has nothing to match. -/
def tinyReceiver : Receiver := ⟨List.replicate 4 0, 0, 0, none⟩

/-- A line that fills the smallest buffer, and a copy of a line in a sequential run. -/
theorem parser_inside_tiny :
    (∀ i ∈ parserTouches 1 tinyReceiver okLine, tinyReceiver.Inside i) ∧
      ∃ s, Run step RoomKept init (commandToWait 0 ++ parserLine okLine 3) s ∧
        s.parser.pc = .copy 0 ∧ CopyInside s := by
  obtain ⟨s, hrun, hs⟩ := Run.exists_of_exec step RoomKept init
    (commandToWait 0 ++ parserLine okLine 3) (fun s => decide (s.parser.pc = .copy 0))
    (by decide +kernel)
  obtain ⟨hbuffer, hcopy⟩ := parser_inside tinyReceiver 1 okLine _ s
  exact ⟨hbuffer (by decide), s, hrun, of_decide_eq_true hs, hcopy hrun⟩

/-- A command with 64 bytes for its answer times out while the parser stands between the
test of the size and the copy; the next one registers two bytes, and `OK` takes four. -/
theorem copy_not_inside_afterTimeout :
    ¬ ∀ as s, Run step unconditional init as s → CopyInside s := by
  intro hall
  obtain ⟨s, hrun, hs⟩ := Run.exists_of_exec step unconditional init
    (commandToWait 0 ++ parserLine okLine 2 ++ [.timeout] ++ List.replicate 3 .caller ++
      [.createResp 2 0 10, .execCmd (some 1)] ++ List.replicate 2 .caller ++ [.parser])
    (fun s => decide (s.parser.pc = .copy 1 ∧ s.heap[1]?.map AtResponse.bufSize = some 2 ∧
      s.parser.recvBuffer.length = 4)) (by decide +kernel)
  obtain ⟨hpc, hsize, hlen⟩ := of_decide_eq_true hs
  obtain ⟨resp, hresp, hin⟩ := hall _ s hrun 1 hpc
  rw [hresp, Option.map_some] at hsize
  have hlast := hin 3 (by rw [hlen]; decide)
  rw [Option.some.inj hsize] at hlast
  exact absurd hlast (Nat.not_lt_of_le (Nat.le_trans (by decide) (Nat.le_add_left 3 _)))

end AtCmd
