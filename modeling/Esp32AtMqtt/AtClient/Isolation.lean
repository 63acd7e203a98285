import Esp32AtMqtt.AtClient.Completion

/-!
# The lines a response holds

The parser keeps the write offset and the number of lines in its own locals, and sets
them back only when it completes an exchange. A call that times out after its first line
leaves them as they are, and the next response is filled behind the lines of the earlier
one. Besides, a call clears `line_counts` only after it has sent its command, so a fast
answer may be counted before.

`LinesKept` excludes these steps, the unsettled timeouts, and zero bytes inside lines;
`T` is a number of bytes that the lines of the run do not exceed and every buffer does.
In such runs a call that returns `RT_EOK` leaves in its response exactly the lines that
came while it was registered.
-/

namespace AtCmd

open Kernel Kernel.RtSemaphore Transition

/-- The parser has nothing stored, or is about to forget it. -/
def Parser.Cleared (p : Parser) : Prop := p.pc = .reset ∨ (p.respBufLen = 0 ∧ p.lineCounts = 0)

instance (p : Parser) : Decidable p.Cleared := inferInstanceAs (Decidable (_ ∨ _))

/-- The call may take its next statement: a response is registered with the parser's
counters cleared, `line_counts` is cleared before the parser sets it, and a timeout is
settled. -/
def CallerKeeps (s : ClientRun) (c : Call) : Prop :=
  (c.pc = .register → c.resp ≠ none → s.parser.Cleared) ∧
    (c.pc = .clear → s.client.resp = c.resp ∧ s.parser.pc ≠ .clearResp) ∧
      (c.pc = .unregister .etimeout → s.client.resp = c.resp ∧ s.parser.pc.busy = false)

instance (s : ClientRun) (c : Call) : Decidable (CallerKeeps s c) :=
  inferInstanceAs (Decidable ((_ → _ → _) ∧ (_ → _ ∧ _) ∧ (_ → _ ∧ _)))

/-- The runs in question: `at_obj_exec_cmd` calls, every buffer larger than the lines of
the run together. -/
def Ample (T : ℕ) (s : ClientRun) : ClientAction → Prop
  | .createResp bufSize _ _ => T < bufSize
  | .respSetInfo _ bufSize _ _ _ => T < bufSize
  | .waitConnect => False
  | .readLine line => s.received + line.length ≤ T
  | _ => True

instance (T : ℕ) (s : ClientRun) : ∀ a : ClientAction, Decidable (Ample T s a)
  | .createResp .. => inferInstanceAs (Decidable (_ < _))
  | .respSetInfo .. => inferInstanceAs (Decidable (_ < _))
  | .execCmd _ => isTrue trivial
  | .waitConnect => isFalse id
  | .caller => isTrue trivial
  | .giveUp => isTrue trivial
  | .timeout => isTrue trivial
  | .readLine _ => inferInstanceAs (Decidable (_ ≤ _))
  | .parser => isTrue trivial

/-- A step that keeps the lines: one of a call that may be taken, or of the parser taking
a line without a zero byte inside. -/
def StepKeeps (s : ClientRun) : ClientAction → Prop
  | .caller => ∀ c ∈ s.call, CallerKeeps s c
  | .parser => s.parser.pc = .test → s.client.resp ≠ none → 0 ∉ s.parser.recvBuffer.dropLast
  | _ => True

instance (s : ClientRun) : ∀ a : ClientAction, Decidable (StepKeeps s a)
  | .createResp .. => isTrue trivial
  | .respSetInfo .. => isTrue trivial
  | .execCmd _ => isTrue trivial
  | .waitConnect => isTrue trivial
  | .caller => inferInstanceAs (Decidable (∀ c ∈ s.call, _))
  | .giveUp => isTrue trivial
  | .timeout => isTrue trivial
  | .readLine _ => isTrue trivial
  | .parser => inferInstanceAs (Decidable (_ → _ → _))

def LinesKept (T : ℕ) (s : ClientRun) (a : ClientAction) : Prop := Ample T s a ∧ StepKeeps s a

instance (T : ℕ) (s : ClientRun) (a : ClientAction) : Decidable (LinesKept T s a) :=
  inferInstanceAs (Decidable (_ ∧ _))

theorem StepKeeps.settled {s : ClientRun} {a : ClientAction} (h : StepKeeps s a) :
    TimeoutSettled s a := by
  cases a with
  | caller => exact fun c hc => (h c hc).2.2
  | _ => exact trivial

/-- The line in the receive buffer has been taken and not been stored yet. -/
def ParserPc.holdsLine : ParserPc → Bool
  | .size => true
  | .loadBuf => true
  | .copy _ => true
  | .full => true
  | _ => false

/-- The lines taken and not stored yet. -/
def Parser.inFlight (p : Parser) : List (List UInt8) :=
  if p.pc.holdsLine then [p.recvBuffer] else []

theorem Parser.inFlight_eq_nil {p : Parser} (h : p.pc.holdsLine = false) : p.inFlight = [] := by
  rw [Parser.inFlight, h]
  rfl

theorem Parser.inFlight_eq_line {p : Parser} (h : p.pc.holdsLine = true) :
    p.inFlight = [p.recvBuffer] := by
  rw [Parser.inFlight, h]
  rfl

theorem ParserPc.busy_of_holdsLine {pc : ParserPc} (h : pc.holdsLine = true) :
    pc.busy = true := by
  cases pc <;> first | rfl | cases h

/-- The bytes received under the current registration. -/
def ClientRun.gotBytes (s : ClientRun) : ℕ := (s.got.map terminated).flatten.length

/-- The bytes of a line that is not taken yet. -/
def ClientRun.untaken (s : ClientRun) : ℕ :=
  if s.parser.pc = .test then s.parser.recvBuffer.length else 0

/-- The response `r` is being filled: the parser's counters tell the lines stored at the
front of its buffer, and with the line in flight these are the lines received. -/
def Filling (s : ClientRun) (r : ℕ) : Prop :=
  s.parser.pc ≠ .full ∧ ∃ resp lines, s.heap[r]? = some resp ∧
    s.got.map terminated = lines ++ s.parser.inFlight ∧
    resp.buf.take s.parser.respBufLen = lines.flatten ∧
    s.parser.respBufLen = lines.flatten.length ∧ s.parser.lineCounts = lines.length

/-- The response `r` is filled: it counts the lines received and begins with them. -/
def Filled (s : ClientRun) (r : ℕ) : Prop :=
  ∃ resp, s.heap[r]? = some resp ∧ resp.lineCounts = s.got.length ∧
    (s.got.map terminated).flatten <+: resp.buf

/-- The final line of the call `c` has been counted. -/
def ClientRun.Answered (s : ClientRun) (c : Call) : Prop :=
  s.parser.pc = .clearResp ∨ s.parser.pc = .release ∨ c.id ∈ s.completed

/-- The invariant of the runs that keep their lines. -/
structure Content (T : ℕ) (s : ClientRun) : Prop where
  room : ∀ resp ∈ s.heap, T < resp.bufSize
  bytes : s.gotBytes + s.untaken ≤ s.received
  received : s.received ≤ T
  line : s.parser.pc = .test → s.parser.recvBuffer ≠ []
  lines : ∀ line ∈ s.got, LineOk line
  fresh : ∀ r ∈ s.client.resp, s.parser.pc = .reset → s.got = []
  filling : ∀ r ∈ s.client.resp, s.parser.pc ≠ .clearResp → s.parser.pc ≠ .reset → Filling s r
  filled : ∀ c ∈ s.call, ∀ r ∈ c.resp, s.Answered c → Filled s r

/-- Once the line is taken, all bytes to account for are those received. -/
theorem ClientRun.bytes_of_taken {s : ClientRun} (hpc : s.parser.pc ≠ .test)
    (h : s.gotBytes ≤ s.received) : s.gotBytes + s.untaken ≤ s.received := by
  rw [ClientRun.untaken, if_neg hpc]
  exact h

theorem Content.gotBytes_le {T : ℕ} {s : ClientRun} (hs : Content T s) :
    s.gotBytes ≤ s.received :=
  Nat.le_trans (Nat.le_add_right _ _) hs.bytes

/-- Away from the final statements an answer has been released. -/
theorem ClientRun.Answered.completed {s : ClientRun} {c : Call} (h : s.Answered c)
    (hclear : s.parser.pc ≠ .clearResp) (hrelease : s.parser.pc ≠ .release) :
    c.id ∈ s.completed :=
  (h.resolve_left hclear).resolve_left hrelease

theorem content_init (T : ℕ) : Content T init := by
  constructor <;> simp [init, ClientRun.gotBytes, ClientRun.untaken]

/-- A change of one response object that keeps its size keeps the room. -/
theorem room_modify {T r : ℕ} {heap : List AtResponse} {f : AtResponse → AtResponse}
    (h : ∀ resp ∈ heap, T < resp.bufSize)
    (hf : ∀ resp, heap[r]? = some resp → (f resp).bufSize = resp.bufSize) :
    ∀ resp ∈ heap.modify r f, T < resp.bufSize := by
  intro resp hresp
  obtain ⟨i, hi⟩ := List.mem_iff_getElem?.mp hresp
  rw [List.getElem?_modify] at hi
  obtain ⟨resp', hresp', rfl⟩ := Option.map_eq_some_iff.mp hi
  have hroom := h resp' (List.mem_of_getElem? hresp')
  split_ifs with heq
  · rw [hf resp' (heq ▸ hresp')]
    exact hroom
  · exact hroom

/-- A registered response is that of the call under way, and its final line is still to
come. -/
theorem Matched.opened {s : ClientRun} (hs : Matched s) {r : ℕ} (hr : s.client.resp = some r) :
    ∃ c, s.call = some c ∧ c.resp = some r ∧ c.id ∉ s.completed ∧ s.parser.pc.OpenFor r := by
  have hquiet : ¬ Quiet s := fun hq => by
    rw [hq.resp] at hr
    cases hr
  obtain ⟨c, r', hc, hcr, -, he⟩ := hs.exchange_of_not_quiet hquiet
  cases he with
  | opened hr' hn hp hopen ho =>
      obtain rfl : r' = r := Option.some.inj (hr'.symm.trans hr)
      exact ⟨c, hc, hcr, hp, hopen⟩
  | closing hr' hn hp ho hb => rw [hr'] at hr; cases hr
  | released hr' hn hp hw hb => rw [hr'] at hr; cases hr

/-- A step of another than the parser that touches neither the lines nor the response of
the call under way, and registers nothing. -/
theorem Content.of_call {T : ℕ} {s t : ClientRun} (hs : Content T s) (hm : Matched s)
    (hroom : ∀ resp ∈ t.heap, T < resp.bufSize)
    (hheap : ∀ c ∈ s.call, ∀ r ∈ c.resp, t.heap[r]? = s.heap[r]?)
    (hparser : t.parser = s.parser) (hgot : t.got = s.got) (hreceived : t.received = s.received)
    (hresp : t.client.resp = s.client.resp ∨ t.client.resp = none)
    (hcall : ∀ d ∈ t.call, t.Answered d → ∃ c ∈ s.call, c.resp = d.resp ∧ s.Answered c) :
    Content T t := by
  have hopen : ∀ r ∈ t.client.resp, r ∈ s.client.resp ∧ t.heap[r]? = s.heap[r]? := by
    intro r hr
    rcases hresp with heq | heq <;> rw [heq] at hr
    · obtain ⟨c, hc, hcr, -⟩ := hm.opened hr
      exact ⟨hr, hheap c hc r hcr⟩
    · cases hr
  refine ⟨hroom, ?_, ?_, ?_, ?_, fun r hr => ?_, fun r hr => ?_, fun d hd r hr ha => ?_⟩
  · simp only [ClientRun.gotBytes, ClientRun.untaken, hgot, hparser, hreceived]
    exact hs.bytes
  · rw [hreceived]
    exact hs.received
  · rw [hparser]
    exact hs.line
  · rw [hgot]
    exact hs.lines
  · rw [hparser, hgot]
    exact hs.fresh r (hopen r hr).1
  · unfold Filling
    rw [hparser, hgot, (hopen r hr).2]
    exact hs.filling r (hopen r hr).1
  · obtain ⟨c, hc, hcr, ha'⟩ := hcall d hd ha
    have hr' : r ∈ c.resp := hcr ▸ hr
    unfold Filled
    rw [hgot, hheap c hc r hr']
    exact hs.filled c hc r hr' ha'

/-- Before its registration a call has no answer. -/
theorem Matched.not_answered {s : ClientRun} (hs : Matched s) {c : Call} (hc : s.call = some c)
    (hstage : c.pc.stage = .early) : ¬ s.Answered c := by
  obtain ⟨hq, hid⟩ := (callOk_early hstage).mp (hs.active c hc)
  have hb := hq.parser
  rintro (hpc | hpc | hmem)
  · rw [hpc] at hb
    cases hb
  · rw [hpc] at hb
    cases hb
  · exact hid hmem

/-- The registration, with the parser's counters cleared, starts an empty filling. -/
theorem content_register {T : ℕ} {s t : ClientRun} {c : Call} (hs : Content T s)
    (hm : Matched s) (hc : s.call = some c) (hpc : c.pc = .register)
    (hok : c.resp ≠ none → s.parser.Cleared) (h : callerStep s c = some t) : Content T t := by
  have hstage : c.pc.stage = .early := by rw [hpc]; rfl
  obtain ⟨hq, hid⟩ := (callOk_early hstage).mp (hm.active c hc)
  have hnot := hm.not_answered hc hstage
  simp only [callerStep, hpc, Option.some.injEq] at h
  subst h
  refine ⟨hs.room, ?_, hs.received, hs.line, fun _ h => (by cases h), fun _ _ _ => rfl,
    fun r hr _ hreset => ?_, ?_⟩
  · show 0 + s.untaken ≤ s.received
    have hbytes := hs.bytes
    omega
  · have hcr : c.resp = some r := hr
    have hlt := hm.numbered.valid c hc r hcr
    obtain ⟨hlen, hcount⟩ := (hok (by simp [hcr])).resolve_left hreset
    have hhold : s.parser.pc.holdsLine = false := by
      by_contra hne
      have hb := ParserPc.busy_of_holdsLine (Bool.not_eq_false _ ▸ hne)
      exact absurd (hq.parser.symm.trans hb) Bool.false_ne_true
    refine ⟨fun hfull => ?_, s.heap[r], [], List.getElem?_eq_getElem hlt, ?_, ?_, hlen, hcount⟩
    · rw [show s.parser.pc = .full from hfull] at hhold
      cases hhold
    · exact (Parser.inFlight_eq_nil hhold).symm
    · show (s.heap[r]).buf.take s.parser.respBufLen = _
      rw [hlen]
      rfl
  · rintro d ⟨⟩ r - ha
    exact absurd ha hnot

/-- `resp->line_counts = 0`, taken before the parser counts, loses nothing. -/
theorem content_clear {T : ℕ} {s t : ClientRun} {c : Call} (hs : Content T s)
    (hm : Matched s) (hc : s.call = some c) (hpc : c.pc = .clear)
    (hok : s.client.resp = c.resp ∧ s.parser.pc ≠ .clearResp) (h : callerStep s c = some t) :
    Content T t := by
  simp only [callerStep, hpc] at h
  obtain ⟨r, hcr, rfl⟩ := Option.map_eq_some_iff.mp h
  obtain ⟨c', hc', hcr', hid, hopen⟩ := hm.opened (hok.1.trans hcr)
  obtain rfl : c = c' := Option.some.inj (hc.symm.trans hc')
  refine ⟨room_modify hs.room fun _ _ => rfl, hs.bytes, hs.received, hs.line, hs.lines, hs.fresh,
    fun r' hr' hne hreset => ?_, ?_⟩
  · obtain ⟨hfull, resp, lines, hr, hrest⟩ := hs.filling r' hr' hne hreset
    obtain ⟨hgot, hbuf, hlen⟩ := hrest
    refine ⟨hfull, if r = r' then { resp with lineCounts := 0 } else resp, lines, ?_, hgot, ?_,
      hlen⟩
    · show (s.heap.modify r _)[r']? = _
      rw [List.getElem?_modify, hr]
      split_ifs <;> rfl
    · split_ifs <;> exact hbuf
  · rintro d ⟨⟩ r' - (ha | ha | ha)
    · exact absurd ha hok.2
    · rw [show s.parser.pc = .release from ha] at hopen
      exact hopen.elim
    · exact absurd ha hid

theorem content_caller {T : ℕ} {s t : ClientRun} (hs : Content T s) (hm : Matched s)
    (hok : ∀ c ∈ s.call, CallerKeeps s c) (h : step s .caller = some t) : Content T t := by
  obtain ⟨c, hc, hstep⟩ := Option.bind_eq_some_iff.mp h
  obtain ⟨hregister, hclear, -⟩ := hok c hc
  by_cases hr : c.pc = .register
  · exact content_register hs hm hc hr (hregister hr) hstep
  · by_cases hl : c.pc = .clear
    · exact content_clear hs hm hc hl (hclear hl) hstep
    · have hframe := callerStep_frame hstep
      have hheap := hframe.heap hl
      refine hs.of_call hm (by rw [hheap]; exact hs.room) (fun _ _ _ _ => by rw [hheap])
        hframe.parser (hframe.got hr) hframe.received (hframe.resp hr) fun d hd ha => ?_
      rcases hframe.call with ⟨pc, htcall, -⟩ | ⟨result, -, htcall, -⟩
      · rw [htcall] at hd
        cases hd
        refine ⟨c, hc, rfl, ?_⟩
        rwa [ClientRun.Answered, hframe.parser, hframe.completed] at ha
      · rw [htcall] at hd
        cases hd

/-- A line is read: it is not taken yet. -/
theorem content_readLine {T : ℕ} {s t : ClientRun} {line : List UInt8} (hs : Content T s)
    (hok : s.received + line.length ≤ T) (h : step s (.readLine line) = some t) :
    Content T t := by
  simp only [step] at h
  split_ifs at h with hguard
  cases h
  obtain ⟨hpc, hne⟩ := hguard
  refine ⟨hs.room, ?_, hok, fun _ => hne, hs.lines, by simp, fun r hr _ _ => ?_,
    fun c hc r hr ha => ?_⟩
  · have hbytes := hs.bytes
    simp only [ClientRun.gotBytes, ClientRun.untaken, hpc, reduceCtorEq, if_false, if_true]
      at hbytes ⊢
    omega
  · obtain ⟨-, resp, lines, hresp, hgot, hrest⟩ :=
      hs.filling r hr (by simp [hpc]) (by simp [hpc])
    refine ⟨by simp, resp, lines, hresp, ?_, hrest⟩
    rw [Parser.inFlight_eq_nil (by rw [hpc]; rfl)] at hgot
    rw [Parser.inFlight_eq_nil rfl]
    exact hgot
  · exact hs.filled c hc r hr (.inr (.inr (ha.completed (by simp) (by simp))))

/-- The places of the parser at which a line is being worked on or awaited, and neither
just read nor finished. -/
def ParserPc.plain : ParserPc → Bool
  | .test => false
  | .full => false
  | .clearResp => false
  | .release => false
  | .reset => false
  | _ => true

/-- Two states that agree in all that concerns the lines. -/
structure SameContent (s t : ClientRun) : Prop where
  heap : t.heap = s.heap
  got : t.got = s.got
  received : t.received = s.received
  resp : t.client.resp = s.client.resp
  call : t.call = s.call
  completed : t.completed = s.completed
  recvBuffer : t.parser.recvBuffer = s.parser.recvBuffer
  respBufLen : t.parser.respBufLen = s.parser.respBufLen
  lineCounts : t.parser.lineCounts = s.parser.lineCounts

/-- A statement of the parser that only looks at the line. -/
theorem Content.of_parserMove {T : ℕ} {s t : ClientRun} (hs : Content T s) (hv : SameContent s t)
    (hplain : s.parser.pc.plain = true) (hplain' : t.parser.pc.plain = true)
    (hhold : t.parser.pc.holdsLine = s.parser.pc.holdsLine) : Content T t := by
  have hflight : t.parser.inFlight = s.parser.inFlight := by
    rw [Parser.inFlight, Parser.inFlight, hhold, hv.recvBuffer]
  have hne : ∀ {u : ClientRun}, u.parser.pc.plain = true → ∀ {pc : ParserPc}, pc.plain = false →
      u.parser.pc ≠ pc := by
    intro u hu pc hpc heq
    rw [heq, hpc] at hu
    cases hu
  refine ⟨by rw [hv.heap]; exact hs.room, ?_, by rw [hv.received]; exact hs.received,
    fun hpc => absurd hpc (hne hplain' rfl), by rw [hv.got]; exact hs.lines,
    fun r _ hpc => absurd hpc (hne hplain' rfl), fun r hr _ _ => ?_, fun c hc r hr ha => ?_⟩
  · refine ClientRun.bytes_of_taken (hne hplain' rfl) ?_
    rw [ClientRun.gotBytes, hv.got, hv.received]
    exact hs.gotBytes_le
  · obtain ⟨-, resp, lines, hresp, hgot, hbuf, hlen, hcount⟩ :=
      hs.filling r (hv.resp ▸ hr) (hne hplain rfl) (hne hplain rfl)
    refine ⟨hne hplain' rfl, resp, lines, by rw [hv.heap, hresp], ?_, ?_, ?_, ?_⟩
    · rw [hv.got, hflight, hgot]
    · rw [hv.respBufLen, hbuf]
    · rw [hv.respBufLen, hlen]
    · rw [hv.lineCounts, hcount]
  · have hid : c.id ∈ s.completed :=
      hv.completed ▸ ha.completed (hne hplain' rfl) (hne hplain' rfl)
    unfold Filled
    rw [hv.heap, hv.got]
    exact hs.filled c (hv.call ▸ hc) r hr (.inr (.inr hid))

/-- A line is taken for the registered response. -/
theorem content_test {T : ℕ} {s t : ClientRun} {r : ℕ} (hs : Content T s) (hm : Matched s)
    (hr : s.client.resp = some r) (hpc : s.parser.pc = .test)
    (hok : 0 ∉ s.parser.recvBuffer.dropLast) (h : parserStep s = some t) : Content T t := by
  obtain ⟨c, hc, hcr, hid, -⟩ := hm.opened hr
  have hne := hs.line hpc
  simp only [parserStep, hpc, hr, Option.some.injEq] at h
  subst h
  refine ⟨hs.room, ?_, hs.received, by simp, ?_, fun _ _ => by simp, fun r' hr' _ _ => ?_, ?_⟩
  · have hbytes := hs.bytes
    rw [ClientRun.untaken, if_pos hpc] at hbytes
    simp only [ClientRun.gotBytes, ClientRun.untaken, reduceCtorEq, if_false, List.map_append,
      List.map_cons, List.map_nil, List.flatten_append, List.flatten_cons, List.flatten_nil,
      List.append_nil, List.length_append, length_terminated hne] at hbytes ⊢
    omega
  · exact List.forall_mem_append.mpr ⟨hs.lines, List.forall_mem_singleton.mpr ⟨hne, hok⟩⟩
  · obtain ⟨-, resp, lines, hresp, hgot, hrest⟩ :=
      hs.filling r' hr' (by simp [hpc]) (by simp [hpc])
    refine ⟨by simp, resp, lines, hresp, ?_, hrest⟩
    rw [Parser.inFlight_eq_nil (by rw [hpc]; rfl), List.append_nil] at hgot
    rw [List.map_append, hgot]
    rfl
  · intro d hd r' _ ha
    obtain rfl : c = d := Option.some.inj (hc.symm.trans hd)
    exact absurd (ha.completed (by simp) (by simp)) hid

/-- The line in flight fits the buffer. -/
theorem Content.fits {T : ℕ} {s : ClientRun} (hs : Content T s) {r : ℕ} {resp : AtResponse}
    {lines : List (List UInt8)} (hresp : s.heap[r]? = some resp)
    (hgot : s.got.map terminated = lines ++ [s.parser.recvBuffer])
    (hlen : s.parser.respBufLen = lines.flatten.length) :
    s.parser.respBufLen + s.parser.recvBuffer.length < resp.bufSize := by
  have hroom := hs.room resp (List.mem_of_getElem? hresp)
  have hbytes := hs.bytes
  have hcap := hs.received
  rw [ClientRun.gotBytes, hgot, List.flatten_append, List.length_append] at hbytes
  rw [hlen]
  simp only [List.flatten_cons, List.flatten_nil, List.append_nil] at hbytes
  omega

/-- The line in flight is stored behind the others. -/
theorem content_copy {T : ℕ} {s t : ClientRun} {r : ℕ} (hs : Content T s) (hm : Matched s)
    (hr : s.client.resp = some r) (hpc : s.parser.pc = .copy r) (h : parserStep s = some t) :
    Content T t := by
  obtain ⟨c, hc, hcr, hid, -⟩ := hm.opened hr
  obtain ⟨-, resp, lines, hresp, hgot, hbuf, hlen, hcount⟩ :=
    hs.filling r hr (by simp [hpc]) (by simp [hpc])
  rw [Parser.inFlight_eq_line (by rw [hpc]; rfl)] at hgot
  have hfits := hs.fits hresp hgot hlen
  simp only [parserStep, hpc, Option.some.injEq] at h
  subst h
  refine ⟨room_modify hs.room ?_, ?_, hs.received, by simp, hs.lines, fun _ _ => by simp,
    fun r' hr' _ _ => ?_, ?_⟩
  · intro resp' hresp'
    obtain rfl : resp' = resp := Option.some.inj (hresp'.symm.trans hresp)
    exact AtResponse.bufSize_memcpy (Nat.le_of_lt hfits)
  · exact ClientRun.bytes_of_taken (by simp) hs.gotBytes_le
  · obtain rfl : r = r' := Option.some.inj (hr.symm.trans hr')
    refine ⟨by simp, resp.memcpy s.parser.respBufLen s.parser.recvBuffer,
      lines ++ [s.parser.recvBuffer], ?_, ?_, ?_, ?_, ?_⟩
    · show (s.heap.modify r _)[r]? = _
      rw [List.getElem?_modify_eq, hresp]
      rfl
    · rw [Parser.inFlight_eq_nil rfl, List.append_nil]
      exact hgot
    · have hoff : s.parser.respBufLen ≤ resp.bufSize := by omega
      rw [AtResponse.take_memcpy hoff, hbuf]
      simp
    · simp [hlen]
    · simp [hcount]
  · intro d hd r' _ ha
    obtain rfl : c = d := Option.some.inj (hc.symm.trans hd)
    exact absurd (ha.completed (by simp) (by simp)) hid

/-- The final line is counted: the response is filled. -/
theorem content_storeCounts {T : ℕ} {s t : ClientRun} {r : ℕ} (hs : Content T s)
    (hm : Matched s) (hr : s.client.resp = some r) (hpc : s.parser.pc = .storeCounts r)
    (h : parserStep s = some t) : Content T t := by
  obtain ⟨c, hc, hcr, -, -⟩ := hm.opened hr
  obtain ⟨-, resp, lines, hresp, hgot, hbuf, hlen, hcount⟩ :=
    hs.filling r hr (by simp [hpc]) (by simp [hpc])
  rw [Parser.inFlight_eq_nil (by rw [hpc]; rfl), List.append_nil] at hgot
  simp only [parserStep, hpc, Option.some.injEq] at h
  subst h
  refine ⟨room_modify hs.room fun _ _ => rfl, ?_, hs.received, by rintro ⟨⟩, hs.lines,
    fun _ _ => by rintro ⟨⟩, fun _ _ hne => absurd rfl hne, fun d hd r' hr' _ => ?_⟩
  · exact ClientRun.bytes_of_taken (by rintro ⟨⟩) hs.gotBytes_le
  · obtain rfl : c = d := Option.some.inj (hc.symm.trans hd)
    obtain rfl : r = r' := Option.some.inj (hcr.symm.trans hr')
    refine ⟨{ resp with lineCounts := s.parser.lineCounts }, ?_, ?_, ?_⟩
    · show (s.heap.modify r _)[r]? = _
      rw [List.getElem?_modify_eq, hresp]
      rfl
    · rw [hcount, ← hgot, List.length_map]
      rfl
    · show (s.got.map terminated).flatten <+: resp.buf
      rw [hgot, ← hbuf]
      exact List.take_prefix _ _

/-- With nothing registered the parser leaves the lines as they are. -/
theorem content_unregistered {T : ℕ} {s t : ClientRun} (hs : Content T s)
    (hheap : t.heap = s.heap) (hgot : t.got = s.got) (hreceived : t.received = s.received)
    (hresp : t.client.resp = none) (hpc : t.parser.pc ≠ .test)
    (hcall : ∀ d ∈ t.call, t.Answered d → ∃ c ∈ s.call, c.resp = d.resp ∧ s.Answered c) :
    Content T t := by
  refine ⟨by rw [hheap]; exact hs.room, ?_, by rw [hreceived]; exact hs.received,
    fun h => absurd h hpc, by rw [hgot]; exact hs.lines, by simp [hresp], by simp [hresp],
    fun d hd r hr ha => ?_⟩
  · refine ClientRun.bytes_of_taken hpc ?_
    rw [ClientRun.gotBytes, hgot, hreceived]
    exact hs.gotBytes_le
  · obtain ⟨c, hc, hcr, ha'⟩ := hcall d hd ha
    unfold Filled
    rw [hheap, hgot]
    exact hs.filled c hc r (hcr ▸ hr) ha'

/-- The counters are cleared before the next line. -/
theorem content_reset {T : ℕ} {s t : ClientRun} (hs : Content T s) (hm : Matched s)
    (hpc : s.parser.pc = .reset) (h : parserStep s = some t) : Content T t := by
  simp only [parserStep, hpc, Option.some.injEq] at h
  subst h
  refine ⟨hs.room, ?_, hs.received, by simp, hs.lines, fun _ _ => by simp, fun r hr _ _ => ?_,
    fun d hd r hr ha => hs.filled d hd r hr (.inr (.inr (ha.completed (by simp) (by simp))))⟩
  · exact ClientRun.bytes_of_taken (by simp) hs.gotBytes_le
  · obtain ⟨c, hc, hcr, -, -⟩ := hm.opened hr
    have hlt := hm.numbered.valid c hc r hcr
    have hnil : s.got = [] := hs.fresh r hr hpc
    refine ⟨by simp, s.heap[r], [], List.getElem?_eq_getElem hlt, ?_, rfl, rfl, rfl⟩
    show s.got.map terminated = _
    rw [hnil]
    rfl

theorem content_release {T : ℕ} {s t : ClientRun} (hs : Content T s) (hresp : s.client.resp = none)
    (hpc : s.parser.pc = .release) (h : parserStep s = some t) : Content T t := by
  simp only [parserStep, hpc, Option.some.injEq] at h
  subst h
  obtain ⟨client, call, heq, hresp', -, hcall⟩ :=
    release_frame { s with completed := s.completed ++ s.parser.owner.toList }
  rw [heq]
  refine content_unregistered hs rfl rfl rfl (hresp'.trans hresp) (by rintro ⟨⟩) fun d hd _ => ?_
  have hd : call = some d := hd
  obtain hsame | ⟨c, hc, hwoken⟩ := hcall
  · exact ⟨d, hsame.symm.trans hd, rfl, .inr (.inl hpc)⟩
  · rw [hwoken] at hd
    cases hd
    exact ⟨c, hc, rfl, .inr (.inl hpc)⟩

/-- A step of the parser while a response is registered. -/
theorem content_parser_opened {T : ℕ} {s t : ClientRun} {r : ℕ} (hs : Content T s)
    (hm : Matched s) (hr : s.client.resp = some r) (hok : StepKeeps s .parser)
    (h : parserStep s = some t) : Content T t := by
  obtain ⟨c, hc, hcr, hid, hopen⟩ := hm.opened hr
  have hlt := hm.numbered.valid c hc r hcr
  have huse := fun f => useResp_eq (s := s) (f := f) hr (List.getElem?_eq_getElem hlt)
  have hsame : ∀ {pc : ParserPc} {status : AtRespStatus}, s.parser.pc.plain = true →
      pc.plain = true → pc.holdsLine = s.parser.pc.holdsLine →
      Content T ({ s with client := { s.client with respStatus := status } }.parserAt pc) :=
    fun hplain hplain' hhold =>
      hs.of_parserMove ⟨rfl, rfl, rfl, rfl, rfl, rfl, rfl, rfl, rfl⟩ hplain hplain' hhold
  cases hpc : s.parser.pc with
  | readline => simp [parserStep, hpc] at h
  | fault => rw [hpc] at hopen; exact hopen.elim
  | release => rw [hpc] at hopen; exact hopen.elim
  | test => exact content_test hs hm hr hpc (hok hpc (by simp [hr])) h
  | reset => exact content_reset hs hm hpc h
  | copy dst =>
      rw [hpc] at hopen
      obtain rfl : dst = r := hopen
      exact content_copy hs hm hr hpc h
  | storeCounts dst =>
      rw [hpc] at hopen
      obtain rfl : dst = r := hopen
      exact content_storeCounts hs hm hr hpc h
  | full => exact absurd hpc (hs.filling r hr (by simp [hpc]) (by simp [hpc])).1
  | clearResp =>
      simp only [parserStep, hpc, Option.some.injEq] at h
      subst h
      exact content_unregistered hs rfl rfl rfl rfl (by rintro ⟨⟩)
        fun d hd _ => ⟨d, hd, rfl, .inl hpc⟩
  | size =>
      obtain ⟨-, resp, lines, hresp, hgot, -, hlen, -⟩ :=
        hs.filling r hr (by simp [hpc]) (by simp [hpc])
      rw [Parser.inFlight_eq_line (by rw [hpc]; rfl)] at hgot
      have hfits := hs.fits hresp hgot hlen
      obtain rfl : s.heap[r] = resp :=
        Option.some.inj ((List.getElem?_eq_getElem hlt).symm.trans hresp)
      simp only [parserStep, hpc, huse, if_pos hfits, Option.some.injEq] at h
      subst h
      exact hsame (by rw [hpc]; rfl) rfl (by rw [hpc]; rfl)
  | okLine =>
      simp only [parserStep, hpc, huse] at h
      split_ifs at h <;> cases h <;> exact hsame (by rw [hpc]; rfl) rfl (by rw [hpc]; rfl)
  | errorLine =>
      simp only [parserStep, hpc] at h
      split_ifs at h <;> cases h <;> exact hsame (by rw [hpc]; rfl) rfl (by rw [hpc]; rfl)
  | countLine =>
      simp only [parserStep, hpc, huse, Option.some.injEq] at h
      subst h
      split_ifs <;> exact hsame (by rw [hpc]; rfl) rfl (by rw [hpc]; rfl)
  | countSet =>
      simp only [parserStep, hpc, huse, Option.some.injEq] at h
      subst h
      split_ifs <;> exact hsame (by rw [hpc]; rfl) rfl (by rw [hpc]; rfl)
  | loadBuf =>
      simp only [parserStep, hpc, huse, Option.some.injEq] at h
      subst h
      exact hsame (by rw [hpc]; rfl) rfl (by rw [hpc]; rfl)
  | loadCounts =>
      simp only [parserStep, hpc, huse, Option.some.injEq] at h
      subst h
      exact hsame (by rw [hpc]; rfl) rfl (by rw [hpc]; rfl)
  | setStatus status =>
      simp only [parserStep, hpc, Option.some.injEq] at h
      subst h
      exact hsame (by rw [hpc]; rfl) rfl (by rw [hpc]; rfl)

theorem content_parserStep {T : ℕ} {s t : ClientRun} (hs : Content T s) (hm : Matched s)
    (hok : StepKeeps s .parser) (h : step s .parser = some t) : Content T t := by
  cases hr : s.client.resp with
  | some r => exact content_parser_opened hs hm hr hok h
  | none =>
      by_cases hb : s.parser.pc.busy = true
      · obtain ⟨c, r, hc, hcr, -, hx⟩ := hm.exchange hb
        cases hx with
        | opened hr' hn hp hopen ho => rw [hr] at hr'; cases hr'
        | closing hr' hn hp ho hpc => exact content_release hs hr hpc h
        | released hr' hn hp hw hb' => rw [hb'] at hb; cases hb
      · cases hpc : s.parser.pc with
        | readline => simp [step, parserStep, hpc] at h
        | reset => exact content_reset hs hm hpc h
        | test =>
            simp only [step, parserStep, hpc, hr, Option.some.injEq] at h
            subst h
            exact content_unregistered hs rfl rfl rfl hr (by rintro ⟨⟩) fun d hd ha =>
              ⟨d, hd, rfl, .inr (.inr (ha.completed (by rintro ⟨⟩) (by rintro ⟨⟩)))⟩
        | _ => simp [hpc, ParserPc.busy] at hb

/-- A step of the caller's side that leaves the response of the call under way, the lines
and the parser alone. -/
theorem content_aside {T : ℕ} {s t : ClientRun} (hs : Content T s) (hm : Matched s)
    (hroom : ∀ resp ∈ t.heap, T < resp.bufSize)
    (hheap : ∀ c ∈ s.call, ∀ r ∈ c.resp, t.heap[r]? = s.heap[r]?)
    (hparser : t.parser = s.parser) (hgot : t.got = s.got) (hreceived : t.received = s.received)
    (hresp : t.client.resp = s.client.resp) (hcompleted : t.completed = s.completed)
    (hcall : ∀ d ∈ t.call, ∃ c ∈ s.call, c.id = d.id ∧ c.resp = d.resp) : Content T t := by
  refine hs.of_call hm hroom hheap hparser hgot hreceived (.inl hresp) fun d hd ha => ?_
  obtain ⟨c, hc, hid, hcr⟩ := hcall d hd
  refine ⟨c, hc, hcr, ?_⟩
  rwa [ClientRun.Answered, hparser, hcompleted, ← hid] at ha

/-- The call under way moves on without a step of its own. -/
theorem content_callAt {T : ℕ} {s : ClientRun} {c : Call} (hs : Content T s) (hm : Matched s)
    (hc : s.call = some c) {client : AtClient} (hresp : client.resp = s.client.resp)
    (pc : CallPc) : Content T ({ s with client := client }.callAt c pc) := by
  refine content_aside hs hm hs.room (fun _ _ _ _ => rfl) rfl rfl rfl hresp rfl ?_
  rintro d ⟨⟩
  exact ⟨c, hc, rfl, rfl⟩

theorem content_step {T : ℕ} {s t : ClientRun} {a : ClientAction} (hs : Content T s)
    (hm : Matched s) (hok : LinesKept T s a) (h : step s a = some t) : Content T t := by
  obtain ⟨hample, hkeeps⟩ := hok
  have hself : ∀ d ∈ s.call, ∃ c ∈ s.call, c.id = d.id ∧ c.resp = d.resp :=
    fun d hd => ⟨d, hd, rfl, rfl⟩
  cases a with
  | caller => exact content_caller hs hm hkeeps h
  | parser => exact content_parserStep hs hm hkeeps h
  | readLine line => exact content_readLine hs hample h
  | waitConnect => exact hample.elim
  | createResp bufSize lineNum timeout =>
      cases h
      refine content_aside hs hm ?_ (fun c hc r hr => ?_) rfl rfl rfl rfl rfl hself
      · refine List.forall_mem_append.mpr ⟨hs.room, List.forall_mem_singleton.mpr ?_⟩
        rw [AtResponse.bufSize, atCreateResp, List.length_replicate]
        exact hample
      · exact List.getElem?_append_left (hm.numbered.valid c hc r hr)
  | respSetInfo r bufSize lineNum timeout fresh =>
      simp only [step] at h
      split at h
      · next resp hresp =>
          split_ifs at h with hguard
          cases h
          refine content_aside hs hm (fun resp' hresp' => ?_) (fun c hc r' hr' => ?_)
            rfl rfl rfl rfl rfl hself
          · rcases List.mem_or_eq_of_mem_set hresp' with hmem | rfl
            · exact hs.room resp' hmem
            · rw [bufSize_atRespSetInfo hguard.2]
              exact hample
          · refine List.getElem?_set_ne fun heq => hguard.1 ?_
            have hc' : s.call = some c := hc
            have hr'' : c.resp = some r' := hr'
            rw [hc', Option.bind_some, hr'', heq]
      · cases h
  | execCmd resp =>
      simp only [step] at h
      split_ifs at h with hguard
      cases h
      have hb := (hm.idle hguard.1).parser
      refine hs.of_call hm hs.room (fun _ _ _ _ => rfl) rfl rfl rfl (.inl rfl) ?_
      rintro d ⟨⟩ (ha | ha | ha)
      · rw [show s.parser.pc = .clearResp from ha] at hb
        cases hb
      · rw [show s.parser.pc = .release from ha] at hb
        cases hb
      · exact absurd (hm.numbered.completed_lt _ ha) (Nat.lt_irrefl _)
  | giveUp =>
      simp only [step] at h
      split at h
      · next c hc =>
          split_ifs at h
          cases h
          exact content_callAt hs hm hc rfl _
      · cases h
  | timeout =>
      simp only [step] at h
      split at h
      · next c hc =>
          split_ifs at h
          cases h
          exact content_callAt hs hm hc (by rfl) _
      · cases h

/-- The run lemma: the lines are kept together with the matching. -/
theorem content_of_run {T : ℕ} {as : List ClientAction} {s : ClientRun}
    (h : Run step (LinesKept T) init as s) : Content T s ∧ Matched s := by
  refine h.invariant (fun s => Content T s ∧ Matched s) ?_ ⟨content_init T, matched_init⟩
  rintro s a t ⟨hs, hm⟩ hok hst
  exact ⟨content_step hs hm hok hst, matched_step hm hok.2.settled hst⟩

/-- A call about to return `RT_EOK` leaves in its response exactly the lines received
while it was registered. -/
def HoldsLines (s : ClientRun) : Prop :=
  ∀ c ∈ s.call, c.pc = .unlock .eok → ∀ r ∈ c.resp,
    ∃ resp, s.heap[r]? = some resp ∧ resp.Holds s.got

/-- In every run that keeps its lines, a call that returns `RT_EOK` leaves in its
response exactly the lines received while it was registered. -/
theorem execCmd_holdsLines (T : ℕ) (as : List ClientAction) (s : ClientRun)
    (h : Run step (LinesKept T) init as s) : HoldsLines s := by
  obtain ⟨hs, hm⟩ := content_of_run h
  intro c hc hpc r hr
  have hne : c.resp ≠ none := by
    rw [show c.resp = some r from hr]
    exact nofun
  have hdone := (hm.active c hc).completed_of_eok hne hpc
  obtain ⟨resp, hresp, hcount, hbuf⟩ := hs.filled c hc r hr (.inr (.inr hdone))
  exact ⟨resp, hresp, atRespGetLine_stored hs.lines hcount hbuf⟩

/-- A line `A` or `B`, which ends no exchange. -/
def lineA : List UInt8 := [65, 13, 10]

def lineB : List UInt8 := [66, 13, 10]

/-- A command whose answer has two lines. -/
theorem execCmd_holdsLines_twoLines : ∃ s,
    Run step (LinesKept 20) init
      (commandToWait 0 ++ parserLine lineB 7 ++ parserLine okLine 11 ++
        List.replicate 2 .caller) s ∧
    (s.call.map Call.pc = some (.unlock .eok) ∧ s.got = [lineB, okLine]) ∧ HoldsLines s := by
  obtain ⟨s, hrun, hs⟩ := Run.exists_of_exec step (LinesKept 20) init
    (commandToWait 0 ++ parserLine lineB 7 ++ parserLine okLine 11 ++ List.replicate 2 .caller)
    (fun s => decide (s.call.map Call.pc = some (CallPc.unlock ExecResult.eok) ∧
      s.got = [lineB, okLine])) (by decide +kernel)
  exact ⟨s, hrun, of_decide_eq_true hs, execCmd_holdsLines 20 _ s hrun⟩

/-- A command that times out after its first line, and the next one with the same
response: it counts three lines where two were received. -/
theorem execCmd_not_holdsLines_afterTimeout :
    ¬ ∀ T as s, Run step (Ample T) init as s → HoldsLines s := by
  intro hall
  obtain ⟨s, hrun, hs⟩ := Run.exists_of_exec step (Ample 20) init
    (commandToWait 0 ++ parserLine lineA 7 ++ [.timeout] ++ List.replicate 3 .caller ++
      [.execCmd (some 0)] ++ List.replicate 5 .caller ++ parserLine lineB 7 ++
      parserLine okLine 11 ++ List.replicate 2 .caller)
    (fun s => decide (s.call.map (fun c => (c.pc, c.resp)) =
        some (CallPc.unlock ExecResult.eok, some 0) ∧
      s.heap[0]?.map AtResponse.lineCounts = some 3 ∧ s.got.length = 2)) (by decide +kernel)
  obtain ⟨hcall, hcount, hlen⟩ := of_decide_eq_true hs
  obtain ⟨c, hc, hpc⟩ := Option.map_eq_some_iff.mp hcall
  obtain ⟨hpc, hcr⟩ := Prod.mk.inj hpc
  obtain ⟨resp, hresp, hholds⟩ := hall 20 _ s hrun c hc hpc 0 hcr
  rw [hresp, Option.map_some, hholds.1, hlen] at hcount
  cases hcount

end AtCmd
