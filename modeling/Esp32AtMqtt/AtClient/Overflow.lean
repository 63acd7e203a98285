import Esp32AtMqtt.AtClient.Lines

/-!
# Lines that do not fit

A line for which the response has no room sets `resp_status` to `AT_RESP_BUFF_FULL` and is
not stored; a line for which the receive buffer has no room is dropped before the parser
sees it. When the exchange then ends with a line that reports `AT_RESP_OK`, the status is
set again, and the command succeeds although a line of its answer is missing.

`OverflowReported` is the condition that this does not happen: when the parser is about to
report `AT_RESP_OK`, the status is not `AT_RESP_BUFF_FULL` and no line has been dropped. In
such runs a command that succeeds has all the lines of its answer in its response, one
behind the other, though not always from the start of the buffer: the parser's offset may
be left over from a response before it.
-/

namespace AtCmd

open Kernel Kernel.RtSemaphore Transition

/-- The call has timed out and can no longer return `RT_EOK`. -/
def CallPc.gone : CallPc → Bool
  | .unregister .etimeout => true
  | .unlock .etimeout => true
  | _ => false

/-- A command that may still return `RT_EOK`. -/
def Call.Live (c : Call) : Prop := c.kind = .execCmd ∧ c.pc.gone = false

instance (c : Call) : Decidable c.Live := inferInstanceAs (Decidable (_ ∧ _))

/-- The timeouts are settled, and the parser reports `AT_RESP_OK` for a command only when
every line so far has fitted both buffers. -/
def OverflowReported (s : LineRun) : LineAction → Prop
  | .client .caller => TimeoutSettled s.run .caller
  | .client .parser => s.run.parser.pc = .setStatus .ok → ∀ c ∈ s.run.call, c.Live →
      s.run.client.respStatus ≠ .buffFull ∧ s.heard = s.run.got
  | _ => True

instance (s : LineRun) : ∀ a : LineAction, Decidable (OverflowReported s a)
  | .fullLine _ => isTrue trivial
  | .client .caller => inferInstanceAs (Decidable (TimeoutSettled s.run .caller))
  | .client .parser => inferInstanceAs (Decidable (_ → ∀ c ∈ s.run.call, _ → _ ∧ _))
  | .client (.createResp ..) => isTrue trivial
  | .client (.respSetInfo ..) => isTrue trivial
  | .client (.execCmd _) => isTrue trivial
  | .client .waitConnect => isTrue trivial
  | .client .giveUp => isTrue trivial
  | .client .timeout => isTrue trivial
  | .client (.readLine _) => isTrue trivial

theorem OverflowReported.settled {s : LineRun} {a : LineAction} (h : OverflowReported s a) :
    LineSettled s a := by
  cases a with
  | fullLine line => exact trivial
  | client a =>
      cases a with
      | caller => exact h
      | _ => exact trivial

/-- The parser has set the status with which the exchange ends. -/
def ParserPc.reported : ParserPc → Bool
  | .loadCounts => true
  | .storeCounts _ => true
  | .clearResp => true
  | _ => false

theorem ParserPc.not_holdsLine_of_reported {pc : ParserPc} (h : pc.reported = true) :
    pc.holdsLine = false := by
  cases pc with
  | loadCounts => rfl
  | storeCounts dst => rfl
  | clearResp => rfl
  | _ => cases h

/-- The size of the response has been tested for the line. -/
def ParserPc.tested : ParserPc → Bool
  | .loadBuf => true
  | .copy _ => true
  | _ => false

theorem ParserPc.holdsLine_of_tested {pc : ParserPc} (h : pc.tested = true) :
    pc.holdsLine = true := by
  cases pc with
  | loadBuf => rfl
  | copy dst => rfl
  | _ => cases h

/-- The bytes of the response object `r`. -/
def ClientRun.bufOf (s : ClientRun) (r : ℕ) : Option (List UInt8) :=
  (s.heap[r]?).map AtResponse.buf

/-- How the lines received so far lie in the response `r`: one of them is about to be
refused, or there is none, or they lie one behind the other up to the parser's offset. -/
inductive Storing (s : ClientRun) (r : ℕ) : Prop
  | refused (pc : s.parser.pc = .full)
  | fresh (pc : s.parser.pc = .reset) (got : s.got = [])
  | stored (bytes : List UInt8) (base : ℕ) (lines : List (List UInt8))
      (pc : s.parser.pc ≠ .reset) (buf : s.bufOf r = some bytes)
      (got : s.got.map terminated = lines ++ s.parser.inFlight)
      (len : s.parser.respBufLen = base + lines.flatten.length)
      (kept : (bytes.take s.parser.respBufLen).drop base = lines.flatten)
      (room : s.parser.pc.tested = true →
        s.parser.respBufLen + s.parser.recvBuffer.length ≤ bytes.length)

/-- All lines that have come lie in the response of the call, one behind the other. -/
def AllStored (s : LineRun) (c : Call) : Prop :=
  ∀ r ∈ c.resp, ∃ bytes, s.run.bufOf r = some bytes ∧ (s.heard.map terminated).flatten <:+: bytes

/-- What holds of a command that may still return `RT_EOK`. -/
structure Kept (s : LineRun) (c : Call) : Prop where
  place : c.pc ≠ .loopTest ∧ ∀ result, c.pc ≠ .free result
  cleared : c.pc = .register → s.run.client.respStatus = .ok
  status : s.run.client.resp ≠ none → s.run.parser.pc.reported = false →
    s.run.client.respStatus = .ok ∨ s.run.client.respStatus = .buffFull
  storing : ∀ r ∈ s.run.client.resp, s.run.client.respStatus = .ok → Storing s.run r
  heard : s.run.parser.pc.reported = true → s.run.client.respStatus = .ok →
    s.heard = s.run.got
  answered : s.run.parser.pc = .release ∨ c.id ∈ s.run.completed →
    s.run.client.respStatus = .ok → AllStored s c
  result : c.pc = .unregister .eok ∨ c.pc = .unlock .eok → AllStored s c

/-- The invariant of the runs that report what does not fit. -/
structure LinesReported (s : LineRun) : Prop where
  matched : Matched s.run
  kept : ∀ c ∈ s.run.call, c.Live → Kept s c

theorem ParserPc.reported_of_not_busy {pc : ParserPc} (h : pc.busy = false) :
    pc.reported = false := by
  cases pc with
  | loadCounts => cases h
  | storeCounts dst => cases h
  | clearResp => cases h
  | _ => rfl

/-- With nothing registered only the answer counts. -/
theorem kept_of_unregistered {t : LineRun} {c : Call} (hresp : t.run.client.resp = none)
    (hpc : t.run.parser.pc.reported = false)
    (hplace : c.pc ≠ .loopTest ∧ ∀ result, c.pc ≠ .free result)
    (hcleared : c.pc = .register → t.run.client.respStatus = .ok)
    (hanswered : t.run.parser.pc = .release ∨ c.id ∈ t.run.completed →
      t.run.client.respStatus = .ok → AllStored t c)
    (hresult : c.pc = .unregister .eok ∨ c.pc = .unlock .eok → AllStored t c) : Kept t c := by
  refine ⟨hplace, hcleared, fun hne => absurd hresp hne, ?_, ?_, hanswered, hresult⟩
  · intro r hr
    rw [hresp] at hr
    cases hr
  · intro hreported
    rw [hpc] at hreported
    cases hreported

/-- With the response registered the lines are still coming in. -/
theorem kept_of_opened {t : LineRun} {c : Call} {r : ℕ} (hm : Matched t.run)
    (hc : t.run.call = some c) (hr : t.run.client.resp = some r)
    (hplace : c.pc ≠ .loopTest ∧ ∀ result, c.pc ≠ .free result)
    (hstatus : t.run.parser.pc.reported = false →
      t.run.client.respStatus = .ok ∨ t.run.client.respStatus = .buffFull)
    (hstoring : t.run.client.respStatus = .ok → Storing t.run r)
    (hheard : t.run.parser.pc.reported = true → t.run.client.respStatus = .ok →
      t.heard = t.run.got) : Kept t c := by
  obtain ⟨c', hc', -, hid, hopen⟩ := hm.opened hr
  obtain rfl : c = c' := Option.some.inj (hc.symm.trans hc')
  have hquiet : ¬ Quiet t.run := fun hq => by
    rw [hq.resp] at hr
    cases hr
  have hok := hm.active c hc
  refine ⟨hplace, fun hpc => ?_, fun _ => hstatus, fun r' hr' => ?_, hheard, ?_, fun hpc => ?_⟩
  · exact absurd ((callOk_early (by rw [hpc]; rfl)).mp hok).1 hquiet
  · obtain rfl : r = r' := Option.some.inj (hr.symm.trans hr')
    exact hstoring
  · rintro (hpc | hmem)
    · rw [hpc] at hopen
      exact hopen.elim
    · exact absurd hmem hid
  · have hstage : c.pc.stage = .served := by
      rcases hpc with hpc | hpc
      · rw [hpc]
        rfl
      · rw [hpc]
        rfl
    exact absurd ((callOk_served hstage).mp hok).1 hquiet

theorem ClientRun.bufOf_eq {s t : ClientRun} {r : ℕ} (h : t.heap[r]? = s.heap[r]?) :
    t.bufOf r = s.bufOf r := by rw [ClientRun.bufOf, ClientRun.bufOf, h]

/-- A change of `line_counts` leaves the bytes alone. -/
theorem ClientRun.bufOf_modify {s t : ClientRun} {r' : ℕ} {f : AtResponse → AtResponse}
    (hheap : t.heap = s.heap.modify r' f) (hf : ∀ resp, (f resp).buf = resp.buf) (r : ℕ) :
    t.bufOf r = s.bufOf r := by
  rw [ClientRun.bufOf, ClientRun.bufOf, hheap, List.getElem?_modify]
  cases s.heap[r]? with
  | none => rfl
  | some resp =>
      by_cases hr : r' = r
      · simpa [hr] using hf resp
      · simp [hr]

/-- Two states that agree in what the storing is about, but for the place of the parser. -/
structure SameStore (s t : ClientRun) (r : ℕ) : Prop where
  buf : t.bufOf r = s.bufOf r
  got : t.got = s.got
  recvBuffer : t.parser.recvBuffer = s.parser.recvBuffer
  respBufLen : t.parser.respBufLen = s.parser.respBufLen

/-- The places of the parser at which the lines lie as `Storing.stored` tells. -/
def ParserPc.steady : ParserPc → Bool
  | .full => false
  | .reset => false
  | _ => true

/-- The parser moves on and holds the line as before. -/
theorem Storing.move {s t : ClientRun} {r : ℕ} (h : Storing s r) (hv : SameStore s t r)
    (hpc : s.parser.pc.steady = true) (hpc' : t.parser.pc ≠ .reset)
    (hhold : t.parser.pc.holdsLine = s.parser.pc.holdsLine)
    (hroom : t.parser.pc.tested = true → s.parser.pc.tested = true ∨
      ∀ bytes ∈ s.bufOf r, s.parser.respBufLen + s.parser.recvBuffer.length ≤ bytes.length) :
    Storing t r := by
  cases h with
  | refused hfull => rw [hfull] at hpc; cases hpc
  | fresh hreset => rw [hreset] at hpc; cases hpc
  | stored bytes base lines hne hbuf hgot hlen hkept hfits =>
      have hflight : t.parser.inFlight = s.parser.inFlight := by
        rw [Parser.inFlight, Parser.inFlight, hhold, hv.recvBuffer]
      refine .stored bytes base lines hpc' (hv.buf.trans hbuf) ?_ ?_ ?_ fun htested => ?_
      · rw [hv.got, hflight, hgot]
      · rw [hv.respBufLen, hlen]
      · rw [hv.respBufLen, hkept]
      · rw [hv.respBufLen, hv.recvBuffer]
        exact (hroom htested).elim hfits fun hall => hall bytes hbuf

/-- A line is taken. -/
theorem Storing.test {s t : ClientRun} {r : ℕ} (h : Storing s r) (hpc : s.parser.pc = .test)
    (hpc' : t.parser.pc = .size) (hbuf : t.bufOf r = s.bufOf r)
    (hgot : t.got = s.got ++ [s.parser.recvBuffer])
    (hrecv : t.parser.recvBuffer = terminated s.parser.recvBuffer)
    (hlen : t.parser.respBufLen = s.parser.respBufLen) : Storing t r := by
  cases h with
  | refused hfull => rw [hpc] at hfull; cases hfull
  | fresh hreset => rw [hpc] at hreset; cases hreset
  | stored bytes base lines _ hbuf' hgot' hlen' hkept _ =>
      rw [Parser.inFlight_eq_nil (by rw [hpc]; rfl), List.append_nil] at hgot'
      refine .stored bytes base lines (by simp [hpc']) (hbuf.trans hbuf') ?_ (hlen.trans hlen')
        (by rw [hlen, hkept]) fun htested => ?_
      · rw [hgot, List.map_append, hgot', Parser.inFlight_eq_line (by rw [hpc']; rfl), hrecv]
        rfl
      · rw [hpc'] at htested
        cases htested

/-- The line in flight is stored behind the others. -/
theorem Storing.copy {s t : ClientRun} {r : ℕ} (h : Storing s r) (hpc : s.parser.pc = .copy r)
    (hpc' : t.parser.pc = .okLine) (hgot : t.got = s.got)
    (hheap : t.heap = s.heap.modify r fun resp =>
      resp.memcpy s.parser.respBufLen s.parser.recvBuffer)
    (hlen : t.parser.respBufLen = s.parser.respBufLen + s.parser.recvBuffer.length) :
    Storing t r := by
  cases h with
  | refused hfull => rw [hpc] at hfull; cases hfull
  | fresh hreset => rw [hpc] at hreset; cases hreset
  | stored bytes base lines _ hbuf hgot' hlen' hkept hroom =>
      have hfits := hroom (by rw [hpc]; rfl)
      obtain ⟨resp, hresp, rfl⟩ := Option.map_eq_some_iff.mp hbuf
      have hoff : s.parser.respBufLen ≤ resp.bufSize := Nat.le_trans (Nat.le_add_right _ _) hfits
      have hcut : (resp.buf.take s.parser.respBufLen).length = s.parser.respBufLen :=
        List.length_take_of_le hoff
      rw [Parser.inFlight_eq_line (by rw [hpc]; rfl)] at hgot'
      refine .stored (resp.memcpy s.parser.respBufLen s.parser.recvBuffer).buf base
        (lines ++ [s.parser.recvBuffer]) (by simp [hpc']) ?_ ?_ ?_ ?_ fun htested => ?_
      · rw [ClientRun.bufOf, hheap, List.getElem?_modify_eq, hresp]
        rfl
      · rw [hgot, hgot', Parser.inFlight_eq_nil (by rw [hpc']; rfl), List.append_nil]
      · rw [hlen, hlen', List.flatten_append, List.length_append, List.flatten_singleton]
        omega
      · rw [hlen, AtResponse.take_memcpy hoff, List.drop_append_of_le_length (by omega), hkept,
          List.flatten_append, List.flatten_singleton]
      · rw [hpc'] at htested
        cases htested

/-- The counters are cleared before the first line. -/
theorem Storing.reset {s t : ClientRun} {r : ℕ} {bytes : List UInt8} (h : Storing s r)
    (hpc : s.parser.pc = .reset) (hpc' : t.parser.pc = .readline) (hgot : t.got = s.got)
    (hbuf : t.bufOf r = some bytes) (hlen : t.parser.respBufLen = 0) : Storing t r := by
  cases h with
  | refused hfull => rw [hpc] at hfull; cases hfull
  | stored _ _ _ hne => exact absurd hpc hne
  | fresh _ hnil =>
      refine .stored bytes 0 [] (by simp [hpc']) hbuf ?_ hlen (by simp [hlen]) fun htested => ?_
      · rw [hgot, hnil, Parser.inFlight_eq_nil (by rw [hpc']; rfl)]
        rfl
      · rw [hpc'] at htested
        cases htested

/-- A line is read and not taken yet. -/
theorem Storing.read {s t : ClientRun} {r : ℕ} (h : Storing s r) (hpc : s.parser.pc = .readline)
    (hpc' : t.parser.pc = .test) (hgot : t.got = s.got) (hbuf : t.bufOf r = s.bufOf r)
    (hlen : t.parser.respBufLen = s.parser.respBufLen) : Storing t r := by
  cases h with
  | refused hfull => rw [hpc] at hfull; cases hfull
  | fresh hreset => rw [hpc] at hreset; cases hreset
  | stored bytes base lines _ hbuf' hgot' hlen' hkept _ =>
      refine .stored bytes base lines (by simp [hpc']) (hbuf.trans hbuf') ?_ (hlen.trans hlen')
        (by rw [hlen, hkept]) fun htested => ?_
      · rw [hgot, hgot', Parser.inFlight_eq_nil (by rw [hpc]; rfl),
          Parser.inFlight_eq_nil (by rw [hpc']; rfl)]
      · rw [hpc'] at htested
        cases htested

/-- At a registration nothing has come yet, whatever offset the parser stands at. -/
theorem storing_register {s : ClientRun} {r : ℕ} {bytes : List UInt8} (hgot : s.got = [])
    (hb : s.parser.pc.busy = false) (hbuf : s.bufOf r = some bytes) : Storing s r := by
  by_cases hreset : s.parser.pc = .reset
  · exact .fresh hreset hgot
  · have hhold : s.parser.pc.holdsLine = false := by
      by_contra hne
      have hb' := ParserPc.busy_of_holdsLine (Bool.not_eq_false _ ▸ hne)
      exact absurd (hb.symm.trans hb') Bool.false_ne_true
    refine .stored bytes s.parser.respBufLen [] hreset hbuf ?_ rfl ?_ fun htested => ?_
    · rw [hgot, Parser.inFlight_eq_nil hhold]
      rfl
    · rw [List.drop_eq_nil_of_le (List.length_take_le _ _)]
      rfl
    · rw [ParserPc.holdsLine_of_tested htested] at hhold
      cases hhold

/-- The stored lines stand in the response. -/
theorem Storing.inBuffer {s : ClientRun} {r : ℕ} (h : Storing s r)
    (hpc : s.parser.pc.reported = true) :
    ∃ bytes, s.bufOf r = some bytes ∧ (s.got.map terminated).flatten <:+: bytes := by
  cases h with
  | refused hfull => rw [hfull] at hpc; cases hpc
  | fresh hreset => rw [hreset] at hpc; cases hpc
  | stored bytes base lines _ hbuf hgot _ hkept _ =>
      have hhold := ParserPc.not_holdsLine_of_reported hpc
      rw [Parser.inFlight_eq_nil hhold, List.append_nil] at hgot
      refine ⟨bytes, hbuf, ?_⟩
      rw [hgot, ← hkept]
      exact (List.drop_suffix _ _).isInfix.trans (List.take_prefix _ _).isInfix

/-- A statement of the parser that only looks at the line, before the status is set. -/
theorem kept_parserMove {s t : LineRun} {c : Call} {r : ℕ} {pc : ParserPc} (hk : Kept s c)
    (hm : Matched t.run) (hc : t.run.call = some c) (hr : s.run.client.resp = some r)
    (hrun : t.run = s.run.parserAt pc)
    (hsteady : s.run.parser.pc.steady = true) (hpc' : pc ≠ .reset)
    (hhold : pc.holdsLine = s.run.parser.pc.holdsLine)
    (hroom : pc.tested = true → s.run.parser.pc.tested = true ∨ ∀ bytes ∈ s.run.bufOf r,
      s.run.parser.respBufLen + s.run.parser.recvBuffer.length ≤ bytes.length)
    (hbefore : s.run.parser.pc.reported = false) (hafter : pc.reported = false) : Kept t c := by
  have hresp : t.run.client.resp = some r := by rw [hrun, ← hr]; rfl
  have hstatus : t.run.client.respStatus = s.run.client.respStatus := by rw [hrun]; rfl
  have hpct : t.run.parser.pc = pc := by rw [hrun]; rfl
  refine kept_of_opened hm hc hresp hk.place (fun _ => ?_) (fun hst => ?_) fun hrep => ?_
  · rw [hstatus]
    exact hk.status (by simp [hr]) hbefore
  · refine (hk.storing r hr (hstatus.symm.trans hst)).move ?_ hsteady (hpct ▸ hpc')
      (hpct ▸ hhold) (hpct ▸ hroom)
    constructor <;> rw [hrun] <;> rfl
  · rw [hpct, hafter] at hrep
    cases hrep

/-- The parser sets the status with which the exchange ends. -/
theorem kept_setStatus {s t : LineRun} {c : Call} {r : ℕ} {status : AtRespStatus}
    (hk : Kept s c) (hm : Matched t.run) (hc : t.run.call = some c)
    (hr : s.run.client.resp = some r) (hpc : s.run.parser.pc = .setStatus status)
    (hok : status = .ok → s.run.client.respStatus ≠ .buffFull ∧ s.heard = s.run.got)
    (hheard : t.heard = s.heard) (h : parserStep s.run = some t.run) : Kept t c := by
  simp only [parserStep, hpc, Option.some.injEq] at h
  have hresp : t.run.client.resp = some r := by rw [← h, ← hr]; rfl
  have hstatus : t.run.client.respStatus = status := by rw [← h]; rfl
  have hpct : t.run.parser.pc = .loadCounts := by rw [← h]; rfl
  have hbefore : status = .ok → s.run.client.respStatus = .ok := fun hst =>
    (hk.status (by simp [hr]) (by rw [hpc]; rfl)).resolve_right (hok hst).1
  refine kept_of_opened hm hc hresp hk.place (fun hrep => ?_) (fun hst => ?_) fun _ hst => ?_
  · rw [hpct] at hrep
    cases hrep
  · refine (hk.storing r hr (hbefore (hstatus.symm.trans hst))).move ?_ (by rw [hpc]; rfl)
      (by simp [hpct]) (by rw [hpct, hpc]; rfl) (by simp [hpct, ParserPc.tested])
    constructor <;> rw [← h] <;> rfl
  · rw [hheard, (hok (hstatus.symm.trans hst)).2, ← h]
    rfl

/-- The parser finishes with the response: the two statements that store `line_counts`. -/
theorem kept_counts {s t : LineRun} {c : Call} {r : ℕ} (hk : Kept s c) (hm : Matched t.run)
    (hc : t.run.call = some c) (hr : s.run.client.resp = some r)
    (hresp : t.run.client.resp = s.run.client.resp)
    (hstatus : t.run.client.respStatus = s.run.client.respStatus)
    (hv : SameStore s.run t.run r) (hbefore : s.run.parser.pc.reported = true)
    (hafter : t.run.parser.pc.reported = true) (hheard : t.heard = s.heard) : Kept t c := by
  refine kept_of_opened hm hc (hresp.trans hr) hk.place (fun hrep => ?_) (fun hst => ?_)
    fun _ hst => ?_
  · rw [hafter] at hrep
    cases hrep
  · have hsteady : ∀ {pc : ParserPc}, pc.reported = true → pc.steady = true ∧ pc ≠ .reset := by
      intro pc hpc
      cases pc with
      | loadCounts => exact ⟨rfl, nofun⟩
      | storeCounts dst => exact ⟨rfl, nofun⟩
      | clearResp => exact ⟨rfl, nofun⟩
      | _ => cases hpc
    have hhold := ParserPc.not_holdsLine_of_reported hafter
    refine (hk.storing r hr (hstatus.symm.trans hst)).move hv (hsteady hbefore).1
      (hsteady hafter).2 (hhold.trans (ParserPc.not_holdsLine_of_reported hbefore).symm)
      fun htested => ?_
    rw [ParserPc.holdsLine_of_tested htested] at hhold
    cases hhold
  · rw [hheard, hv.got]
    exact hk.heard hbefore (hstatus.symm.trans hst)

/-- The registration is taken back: what has been stored is the whole answer. -/
theorem kept_clearResp {s t : LineRun} {c : Call} {r : ℕ} (hk : Kept s c)
    (hcr : c.resp = some r) (hstage : c.pc.stage = .awaiting) (hr : s.run.client.resp = some r)
    (hpc : s.run.parser.pc = .clearResp) (hheard : t.heard = s.heard)
    (h : parserStep s.run = some t.run) : Kept t c := by
  have hrep : s.run.parser.pc.reported = true := by rw [hpc]; rfl
  have hne : c.pc ≠ .register := fun hpc' => by rw [hpc'] at hstage; cases hstage
  have hres : ¬ (c.pc = .unregister .eok ∨ c.pc = .unlock .eok) := by
    rintro (hpc' | hpc') <;> rw [hpc'] at hstage <;> cases hstage
  simp only [parserStep, hpc, Option.some.injEq] at h
  have hstatus : t.run.client.respStatus = s.run.client.respStatus := by rw [← h]; rfl
  refine kept_of_unregistered (by rw [← h]; rfl) (by rw [← h]; rfl) hk.place
    (fun hpc' => absurd hpc' hne) (fun _ hst r' hr' => ?_) fun hpc' => absurd hpc' hres
  obtain rfl : r = r' := Option.some.inj (hcr.symm.trans hr')
  have hst' := hstatus.symm.trans hst
  obtain ⟨bytes, hbytes, hin⟩ := (hk.storing r hr hst').inBuffer hrep
  refine ⟨bytes, ?_, ?_⟩
  · rw [← hbytes, ← h]
    rfl
  · rw [hheard, hk.heard hrep hst']
    exact hin

/-- The step of the parser while the response of the command is registered. -/
theorem kept_parser_opened {s t : LineRun} {c : Call} {r : ℕ} (hk : Kept s c)
    (hm : Matched s.run) (hm' : Matched t.run) (hlive : c.Live) (hc : s.run.call = some c)
    (hr : s.run.client.resp = some r) (hok : OverflowReported s (.client .parser))
    (h : parserStep s.run = some t.run) (hheard : t.heard = s.heardAfter .parser) : Kept t c := by
  obtain ⟨c', hc', hcr, hid, hopen⟩ := hm.opened hr
  obtain rfl : c = c' := Option.some.inj (hc.symm.trans hc')
  have hlt := hm.numbered.valid c hc r hcr
  have hget := List.getElem?_eq_getElem hlt
  have huse := fun f => useResp_eq (s := s.run) (f := f) hr hget
  have hnr : s.run.parser.pc ≠ .release := fun hpc => by rw [hpc] at hopen; exact hopen
  have hct : t.run.call = some c := ((parserStep_frame h).quiet hnr).1.trans hc
  have hsame : s.run.parser.pc ≠ .test → t.heard = s.heard := fun hpc =>
    hheard.trans (if_neg fun hand => hpc hand.1)
  have hmove : ∀ {pc : ParserPc}, t.run = s.run.parserAt pc → _ :=
    fun hrun => kept_parserMove hk hm' hct hr hrun
  have hstep := h
  cases hpc : s.run.parser.pc with
  | readline => simp [parserStep, hpc] at h
  | fault => rw [hpc] at hopen; exact hopen.elim
  | release => exact absurd hpc hnr
  | test =>
      simp only [parserStep, hpc, hr, Option.some.injEq] at h
      refine kept_of_opened hm' hct (by rw [← h, ← hr]) hk.place (fun _ => ?_) (fun hst => ?_) ?_
      · rw [← h]
        exact hk.status (by simp [hr]) (by rw [hpc]; rfl)
      · rw [← h] at hst
        have hbuf : t.run.bufOf r = s.run.bufOf r := ClientRun.bufOf_eq (by rw [← h])
        refine (hk.storing r hr hst).test hpc ?_ hbuf ?_ ?_ ?_ <;> rw [← h]
      · rw [← h]
        rintro ⟨⟩
  | reset =>
      simp only [parserStep, hpc, Option.some.injEq] at h
      refine kept_of_opened hm' hct (by rw [← h, ← hr]) hk.place (fun _ => ?_) (fun hst => ?_) ?_
      · rw [← h]
        exact hk.status (by simp [hr]) (by rw [hpc]; rfl)
      · rw [← h] at hst
        have hbuf : t.run.bufOf r = some (s.run.heap[r]).buf := by
          rw [← h, ClientRun.bufOf, hget]
          rfl
        refine (hk.storing r hr hst).reset hpc ?_ ?_ hbuf ?_ <;> rw [← h]
      · rw [← h]
        rintro ⟨⟩
  | copy dst =>
      rw [hpc] at hopen
      obtain rfl : dst = r := hopen
      simp only [parserStep, hpc, Option.some.injEq] at h
      refine kept_of_opened hm' hct (by rw [← h, ← hr]) hk.place (fun _ => ?_) (fun hst => ?_) ?_
      · rw [← h]
        exact hk.status (by simp [hr]) (by rw [hpc]; rfl)
      · rw [← h] at hst
        refine (hk.storing dst hr hst).copy hpc ?_ ?_ ?_ ?_ <;> rw [← h]
      · rw [← h]
        rintro ⟨⟩
  | full =>
      simp only [parserStep, hpc, Option.some.injEq] at h
      refine kept_of_opened hm' hct (by rw [← h, ← hr]; rfl) hk.place (fun _ => .inr ?_)
        (fun hst => ?_) ?_
      · rw [← h]
        rfl
      · rw [← h] at hst
        cases hst
      · rw [← h]
        rintro ⟨⟩
  | size =>
      simp only [parserStep, hpc, huse, Option.some.injEq] at h
      by_cases hfits : s.run.parser.respBufLen + s.run.parser.recvBuffer.length <
          (s.run.heap[r]).bufSize
      · rw [if_pos hfits] at h
        refine hmove h.symm (by rw [hpc]; rfl) (by simp) (by rw [hpc]; rfl) (fun _ => .inr ?_)
          (by rw [hpc]; rfl) rfl
        intro bytes hbytes
        rw [ClientRun.bufOf, hget] at hbytes
        cases hbytes
        exact Nat.le_of_lt hfits
      · rw [if_neg hfits] at h
        refine kept_of_opened hm' hct (by rw [← h, ← hr]; rfl) hk.place (fun _ => ?_)
          (fun _ => .refused ?_) ?_
        · rw [← h]
          exact hk.status (by simp [hr]) (by rw [hpc]; rfl)
        · rw [← h]
          rfl
        · rw [← h]
          rintro ⟨⟩
  | setStatus status =>
      refine kept_setStatus hk hm' hct hr hpc (fun hst => ?_) (hsame (by simp [hpc])) hstep
      exact hok (by rw [hpc, hst]) c hc hlive
  | loadCounts =>
      simp only [parserStep, hpc, huse, Option.some.injEq] at h
      refine kept_counts hk hm' hct hr ?_ ?_ ⟨?_, ?_, ?_, ?_⟩ (by rw [hpc]; rfl) ?_
        (hsame (by simp [hpc])) <;> rw [← h] <;> rfl
  | storeCounts dst =>
      simp only [parserStep, hpc, Option.some.injEq] at h
      refine kept_counts hk hm' hct hr ?_ ?_ ⟨?_, ?_, ?_, ?_⟩ (by rw [hpc]; rfl) ?_
        (hsame (by simp [hpc])) <;> rw [← h]
      any_goals rfl
      have hheap : t.run.heap = s.run.heap.modify dst fun resp =>
          { resp with lineCounts := s.run.parser.lineCounts } := by rw [← h]; rfl
      rw [h]
      exact ClientRun.bufOf_modify hheap (fun _ => rfl) r
  | clearResp =>
      obtain ⟨d, -, hd, -, hstage, -⟩ := hm.exchange (by rw [hpc]; rfl)
      obtain rfl : c = d := Option.some.inj (hc.symm.trans hd)
      exact kept_clearResp hk hcr hstage hr hpc (hsame (by simp [hpc])) h
  | okLine =>
      simp only [parserStep, hpc, huse] at h
      split_ifs at h <;> exact hmove (Option.some.inj h).symm (by rw [hpc]; rfl) (by simp)
        (by rw [hpc]; rfl) (fun h => by cases h) (by rw [hpc]; rfl) rfl
  | errorLine =>
      simp only [parserStep, hpc] at h
      split_ifs at h <;> exact hmove (Option.some.inj h).symm (by rw [hpc]; rfl) (by simp)
        (by rw [hpc]; rfl) (fun h => absurd h (by decide)) (by rw [hpc]; rfl) rfl
  | countLine =>
      simp only [parserStep, hpc, huse] at h
      split_ifs at h <;> exact hmove (Option.some.inj h).symm (by rw [hpc]; rfl) (by simp)
        (by rw [hpc]; rfl) (fun h => absurd h (by decide)) (by rw [hpc]; rfl) rfl
  | countSet =>
      simp only [parserStep, hpc, huse] at h
      split_ifs at h <;> exact hmove (Option.some.inj h).symm (by rw [hpc]; rfl) (by simp)
        (by rw [hpc]; rfl) (fun h => absurd h (by decide)) (by rw [hpc]; rfl) rfl
  | loadBuf =>
      simp only [parserStep, hpc, huse] at h
      exact hmove (Option.some.inj h).symm (by rw [hpc]; rfl) (by simp) (by rw [hpc]; rfl)
        (fun _ => .inl (by rw [hpc]; rfl)) (by rw [hpc]; rfl) rfl

/-- A step with nothing registered that leaves the status, the completions, the lines and
the response of the command alone. -/
theorem Kept.of_unregistered {s t : LineRun} {c d : Call} (hk : Kept s c)
    (hresp : t.run.client.resp = none) (hb : t.run.parser.pc.busy = false)
    (hstatus : t.run.client.respStatus = s.run.client.respStatus)
    (hcompleted : d.id ∈ t.run.completed →
      s.run.parser.pc = .release ∨ c.id ∈ s.run.completed)
    (hheard : t.heard = s.heard) (hcr : d.resp = c.resp)
    (hbuf : ∀ r ∈ c.resp, t.run.bufOf r = s.run.bufOf r)
    (hplace : d.pc ≠ .loopTest ∧ ∀ result, d.pc ≠ .free result)
    (hcleared : d.pc = .register → c.pc = .register)
    (hresult : d.pc = .unregister .eok ∨ d.pc = .unlock .eok →
      c.pc = .unregister .eok ∨ c.pc = .unlock .eok) : Kept t d := by
  have hstored : AllStored s c → AllStored t d := by
    intro hall r hr
    rw [hcr] at hr
    rw [hbuf r hr, hheard]
    exact hall r hr
  refine kept_of_unregistered hresp (ParserPc.reported_of_not_busy hb) hplace
    (fun hpc => hstatus.trans (hk.cleared (hcleared hpc))) (fun hans hst => ?_)
    fun hpc => hstored (hk.result (hresult hpc))
  rcases hans with hpc | hmem
  · rw [hpc] at hb
    cases hb
  · exact hstored (hk.answered (hcompleted hmem) (hstatus.symm.trans hst))

/-- `rt_sem_release` touches the semaphore, and wakes the call if it waits. -/
theorem release_woken {s : ClientRun} {c : Call} (hc : s.call = some c)
    (hnotice : s.client.respNotice = ⟨0, c.waiters⟩) :
    s.release.call = some c ∨
      c.pc = .wait ∧ s.release.call = some { c with pc := .woken } := by
  by_cases hw : c.pc = .wait
  · rw [Call.waiters, if_pos hw] at hnotice
    simp only [ClientRun.release, hnotice, rtSemRelease, Option.isSome_some, if_true,
      ClientRun.wake, hc]
    exact .inr ⟨hw, rfl⟩
  · rw [Call.waiters, if_neg hw] at hnotice
    simp only [ClientRun.release, hnotice, rtSemRelease, Option.isSome_none,
      Bool.false_eq_true, if_false]
    exact .inl hc

/-- The completion is released: the answer of the command is what it was. -/
theorem kept_release {s t : LineRun} {c d : Call} (hk : c.Live → Kept s c) (hlive : d.Live)
    (hc : s.run.call = some c) (hd : t.run.call = some d) (hresp : s.run.client.resp = none)
    (hnotice : s.run.client.respNotice = ⟨0, c.waiters⟩) (hpc : s.run.parser.pc = .release)
    (hheard : t.heard = s.heard) (h : parserStep s.run = some t.run) : Kept t d := by
  simp only [parserStep, hpc, Option.some.injEq] at h
  let u := { s.run with completed := s.run.completed ++ s.run.parser.owner.toList }
  have hrun : t.run = u.release.parserAt .reset := h.symm
  obtain ⟨client, call, heq, hresp', hstatus, -⟩ := release_frame u
  have hcall := release_woken (s := u) hc hnotice
  have hheap : u.release.heap = s.run.heap := by rw [heq]
  have hdu : u.release.call = some d := by rw [← hd, hrun]; rfl
  have hbuf : ∀ r ∈ c.resp, t.run.bufOf r = s.run.bufOf r := by
    intro r _
    refine ClientRun.bufOf_eq ?_
    rw [hrun]
    exact congrArg (·[r]?) hheap
  have hback : t.run.client.resp = none ∧ t.run.parser.pc.busy = false ∧
      t.run.client.respStatus = s.run.client.respStatus := by
    rw [hrun, heq]
    exact ⟨hresp'.trans hresp, rfl, hstatus⟩
  rcases hcall with hsame | ⟨hw, hwoken⟩
  · obtain rfl : c = d := Option.some.inj (hsame.symm.trans hdu)
    have hkc := hk hlive
    exact hkc.of_unregistered hback.1 hback.2.1 hback.2.2 (fun _ => .inl hpc) hheard rfl hbuf
      hkc.place id id
  · obtain rfl : { c with pc := .woken } = d := Option.some.inj (hwoken.symm.trans hdu)
    have hkc := hk ⟨hlive.1, by rw [hw]; rfl⟩
    exact hkc.of_unregistered hback.1 hback.2.1 hback.2.2 (fun _ => .inl hpc) hheard rfl hbuf
      ⟨by simp, by simp⟩ (by simp) (by rintro (h | h) <;> cases h)

/-- The step of the parser, for whatever command is under way. -/
theorem kept_parserStep {s t : LineRun} (hs : LinesReported s) (hm' : Matched t.run)
    (hok : OverflowReported s (.client .parser)) (h : parserStep s.run = some t.run)
    (hheard : t.heard = s.heardAfter .parser) : ∀ d ∈ t.run.call, d.Live → Kept t d := by
  intro d hd hlive
  cases hr : s.run.client.resp with
  | some r =>
      obtain ⟨c, hc, -, -, hopen⟩ := hs.matched.opened hr
      have hnr : s.run.parser.pc ≠ .release := fun hpc => by rw [hpc] at hopen; exact hopen
      have hct : t.run.call = some c := ((parserStep_frame h).quiet hnr).1.trans hc
      obtain rfl : c = d := Option.some.inj (hct.symm.trans hd)
      exact kept_parser_opened (hs.kept c hc hlive) hs.matched hm' hlive hc hr hok h hheard
  | none =>
      have hsame : t.heard = s.heard := hheard.trans (if_neg fun hand => hand.2 hr)
      by_cases hb : s.run.parser.pc.busy = true
      · obtain ⟨c, r, hc, hcr, -, hx⟩ := hs.matched.exchange hb
        cases hx with
        | opened hr' hn hp hopen ho => rw [hr] at hr'; cases hr'
        | released hr' hn hp hw hb' => rw [hb'] at hb; cases hb
        | closing hr' hn hp ho hpc =>
            exact kept_release (hs.kept c hc) hlive hc hd hr hn hpc hsame h
      · have hb' := Bool.not_eq_true _ ▸ hb
        obtain ⟨hclient, hcall, hcompleted, hbt, hheap⟩ := parserStep_idle hr hb' h
        have hk := hs.kept d (hcall.symm.trans hd) hlive
        refine hk.of_unregistered (by rw [hclient, hr]) hbt (by rw [hclient])
          (fun hmem => .inr (hcompleted ▸ hmem)) hsame rfl (fun r _ => ?_) hk.place id id
        exact ClientRun.bufOf_eq (by rw [hheap])

/-- A step beside the parser that leaves the registration, the status and the lines as they
are: the command has moved from `c` to `d`. -/
theorem Kept.of_caller {s t : LineRun} {c d : Call} (hk : Kept s c)
    (hresp : t.run.client.resp = s.run.client.resp)
    (hstatus : t.run.client.respStatus = s.run.client.respStatus)
    (hcompleted : t.run.completed = s.run.completed) (hparser : t.run.parser = s.run.parser)
    (hgot : t.run.got = s.run.got) (hheard : t.heard = s.heard) (hid : d.id = c.id)
    (hcr : d.resp = c.resp) (hreg : ∀ r ∈ s.run.client.resp, r ∈ c.resp)
    (hbuf : ∀ r ∈ c.resp, t.run.bufOf r = s.run.bufOf r)
    (hplace : d.pc ≠ .loopTest ∧ ∀ result, d.pc ≠ .free result)
    (hcleared : d.pc = .register → s.run.client.respStatus = .ok)
    (hresult : d.pc = .unregister .eok ∨ d.pc = .unlock .eok → AllStored s c) : Kept t d := by
  have hstored : AllStored s c → AllStored t d := by
    intro hall r hr
    rw [hcr] at hr
    rw [hbuf r hr, hheard]
    exact hall r hr
  refine ⟨hplace, fun hpc => hstatus.trans (hcleared hpc), ?_, ?_, ?_, ?_,
    fun hpc => hstored (hresult hpc)⟩
  · rw [hresp, hparser, hstatus]
    exact hk.status
  · rw [hresp, hstatus]
    intro r hr hst
    have hv : SameStore s.run t.run r :=
      ⟨hbuf r (hreg r hr), hgot, by rw [hparser], by rw [hparser]⟩
    cases hk.storing r hr hst with
    | refused hpc => exact .refused (by rw [hparser, hpc])
    | fresh hpc hnil => exact .fresh (by rw [hparser, hpc]) (by rw [hgot, hnil])
    | stored bytes base lines hpc hb hg hl hkept hroom =>
        refine .stored bytes base lines ?_ (hv.buf.trans hb) ?_ ?_ ?_ ?_
        · rwa [hparser]
        · rwa [hgot, hparser]
        · rwa [hparser]
        · rwa [hparser]
        · rwa [hparser]
  · rw [hparser, hstatus, hheard, hgot]
    exact hk.heard
  · rw [hparser, hid, hcompleted, hstatus]
    exact fun hans hst => hstored (hk.answered hans hst)

/-- `client->resp_status = AT_RESP_OK` before the registration. -/
theorem kept_clearStatus {s t : LineRun} {c d : Call} (hm : Matched s.run)
    (hc : s.run.call = some c) (hd : t.run.call = some d) (hpc : c.pc = .setStatus)
    (h : callerStep s.run c = some t.run) : Kept t d := by
  obtain ⟨hq, hid⟩ := (callOk_early (by rw [hpc]; rfl)).mp (hm.active c hc)
  simp only [callerStep, hpc, Option.some.injEq] at h
  have hb : t.run.parser.pc.busy = false := by rw [← h, ← hq.parser]; rfl
  obtain rfl : { c with pc := .register } = d := by
    rw [← h] at hd
    exact Option.some.inj hd
  refine kept_of_unregistered (by rw [← h, ← hq.resp]; rfl) (ParserPc.reported_of_not_busy hb)
    ⟨by simp, by simp⟩ (fun _ => by rw [← h]; rfl) (fun hans _ => ?_)
    (by rintro (h | h) <;> cases h)
  rcases hans with hrel | hmem
  · rw [hrel] at hb
    cases hb
  · rw [← h] at hmem
    exact absurd hmem hid

/-- `client->resp = resp` with the status cleared. -/
theorem kept_register {s t : LineRun} {c d : Call} (hm : Matched s.run) (hm' : Matched t.run)
    (hk : Kept s c) (hkind : c.kind = .execCmd) (hc : s.run.call = some c)
    (hd : t.run.call = some d) (hpc : c.pc = .register) (h : callerStep s.run c = some t.run) :
    Kept t d := by
  obtain ⟨hq, hid⟩ := (callOk_early (by rw [hpc]; rfl)).mp (hm.active c hc)
  simp only [callerStep, hpc, hkind, Option.some.injEq] at h
  have hb : t.run.parser.pc.busy = false := by rw [← h, ← hq.parser]; rfl
  have hrep := ParserPc.reported_of_not_busy hb
  have hst : t.run.client.respStatus = .ok := by rw [← hk.cleared hpc, ← h]; rfl
  have hdc : { c with pc := .send } = d := by
    rw [← h] at hd
    exact Option.some.inj hd
  have hplace : d.pc ≠ .loopTest ∧ ∀ result, d.pc ≠ .free result := by
    rw [← hdc]
    exact ⟨by simp, by simp⟩
  rcases Option.eq_none_or_eq_some c.resp with hcr | ⟨r, hcr⟩
  · refine kept_of_unregistered (by rw [← h, ← hcr]; rfl) hrep hplace (fun _ => hst)
      (fun hans _ r hr => ?_) fun _ r hr => ?_
    · rw [← hdc, show ({ c with pc := .send } : Call).resp = none from hcr] at hr
      cases hr
    · rw [← hdc, show ({ c with pc := .send } : Call).resp = none from hcr] at hr
      cases hr
  · have hlt := hm.numbered.valid c hc r hcr
    have hbuf : t.run.bufOf r = some (s.run.heap[r]).buf := by
      rw [← h]
      show (s.run.heap[r]?).map AtResponse.buf = _
      rw [List.getElem?_eq_getElem hlt]
      rfl
    refine kept_of_opened hm' hd (by rw [← h, ← hcr]; rfl) hplace (fun _ => .inl hst)
      (fun _ => storing_register (by rw [← h]; rfl) hb hbuf) fun hr => ?_
    rw [hrep] at hr
    cases hr

/-- The call goes on behind its registration, and its response is let alone. -/
theorem kept_of_move {s t : LineRun} {c : Call} {pc : CallPc} (hs : LinesReported s)
    (hc : s.run.call = some c) (hlive : c.Live) (h : callerStep s.run c = some t.run)
    (hheard : t.heard = s.heardAfter .caller) (hne : c.pc ≠ .register)
    (hresp : t.run.client.resp = s.run.client.resp)
    (hstatus : t.run.client.respStatus = s.run.client.respStatus)
    (hbuf : ∀ r ∈ c.resp, t.run.bufOf r = s.run.bufOf r)
    (hplace : pc ≠ .loopTest ∧ ∀ result, pc ≠ .free result) (hcleared : pc ≠ .register)
    (hresult : Kept s c → pc = .unregister .eok ∨ pc = .unlock .eok → AllStored s c) :
    Kept t { c with pc := pc } := by
  have hframe := callerStep_frame h
  have hk := hs.kept c hc hlive
  have hreg : ∀ r ∈ s.run.client.resp, r ∈ c.resp := by
    intro r hr
    obtain ⟨c', hc', hcr, -⟩ := hs.matched.opened hr
    obtain rfl : c = c' := Option.some.inj (hc.symm.trans hc')
    exact hcr
  have hsame : t.heard = s.heard :=
    hheard.trans (if_neg fun heq => hne (Option.some.inj ((congrArg _ hc).symm.trans heq)))
  exact hk.of_caller hresp hstatus hframe.completed hframe.parser (hframe.got hne) hsame rfl rfl
    hreg hbuf hplace (fun hpc => absurd hpc hcleared) (hresult hk)

/-- The call goes on, and nothing but the client has been touched. -/
theorem kept_of_callAt {s t : LineRun} {c d : Call} {client : AtClient} {pc : CallPc}
    (hs : LinesReported s) (hc : s.run.call = some c) (hd : t.run.call = some d)
    (hlive : c.Live) (h : callerStep s.run c = some t.run)
    (hheard : t.heard = s.heardAfter .caller)
    (hrun : ({ s.run with client := client } : ClientRun).callAt c pc = t.run)
    (hresp : client.resp = s.run.client.resp)
    (hstatus : client.respStatus = s.run.client.respStatus) (hne : c.pc ≠ .register)
    (hnc : c.pc ≠ .clear) (hplace : pc ≠ .loopTest ∧ ∀ result, pc ≠ .free result)
    (hcleared : pc ≠ .register)
    (hresult : Kept s c → pc = .unregister .eok ∨ pc = .unlock .eok → AllStored s c) :
    Kept t d := by
  have hheap := (callerStep_frame h).heap hnc
  obtain rfl : { c with pc := pc } = d := by
    rw [← hrun] at hd
    exact Option.some.inj hd
  apply kept_of_move hs hc hlive h hheard hne
  · rw [← hrun, ← hresp]
    rfl
  · rw [← hrun, ← hstatus]
    rfl
  · exact fun r _ => ClientRun.bufOf_eq (by rw [hheap])
  · exact hplace
  · exact hcleared
  · exact hresult

/-- The step of the command. -/
theorem kept_caller {s t : LineRun} {c : Call} (hs : LinesReported s) (hm' : Matched t.run)
    (hc : s.run.call = some c) (h : callerStep s.run c = some t.run)
    (hheard : t.heard = s.heardAfter .caller) : ∀ d ∈ t.run.call, d.Live → Kept t d := by
  intro d hd hlive
  have hstep := h
  have hkind : c.kind = .execCmd := by
    rcases (callerStep_frame h).call with ⟨pc, htcall, -⟩ | ⟨result, -, htcall, -⟩
    · obtain rfl := Option.some.inj (hd.symm.trans htcall)
      exact hlive.1
    · rw [htcall] at hd
      cases hd
  cases hpc : c.pc with
  | setStatus => exact kept_clearStatus hs.matched hc hd hpc h
  | register =>
      have hk := hs.kept c hc ⟨hkind, by rw [hpc]; rfl⟩
      exact kept_register hs.matched hm' hk hkind hc hd hpc h
  | wait => simp [callerStep, hpc] at h
  | loopTest =>
      have hk := hs.kept c hc ⟨hkind, by rw [hpc]; rfl⟩
      exact absurd hpc hk.place.1
  | free result =>
      have hk := hs.kept c hc ⟨hkind, by cases result <;> rw [hpc] <;> rfl⟩
      exact absurd hpc (hk.place.2 result)
  | send =>
      have hcl : c.Live := ⟨hkind, by rw [hpc]; rfl⟩
      simp only [callerStep, hpc, hkind, Option.some.injEq] at h
      cases hcr : c.resp with
      | none =>
          rw [hcr] at h
          refine kept_of_callAt hs hc hd hcl hstep hheard h rfl rfl (by simp [hpc])
            (by simp [hpc]) ⟨by simp, by simp⟩ (by simp) ?_
          intro _ _ r hr
          rw [hcr] at hr
          cases hr
      | some r =>
          rw [hcr] at h
          exact kept_of_callAt hs hc hd hcl hstep hheard h rfl rfl (by simp [hpc])
            (by simp [hpc]) ⟨by simp, by simp⟩ (by simp)
            fun _ => by rintro (hpc' | hpc') <;> cases hpc'
  | clear =>
      have hcl : c.Live := ⟨hkind, by rw [hpc]; rfl⟩
      simp only [callerStep, hpc, hkind] at h
      obtain ⟨r', -, hrun⟩ := Option.map_eq_some_iff.mp h
      obtain rfl : { c with pc := .take } = d := by
        rw [← hrun] at hd
        exact Option.some.inj hd
      have hheap : t.run.heap = s.run.heap.modify r' fun resp => { resp with lineCounts := 0 } := by
        rw [← hrun]
        rfl
      exact kept_of_move hs hc hcl hstep hheard (by simp [hpc]) (by rw [← hrun]; rfl)
        (by rw [← hrun]; rfl) (fun r _ => ClientRun.bufOf_modify hheap (fun _ => rfl) r)
        ⟨by simp, by simp⟩ (by simp) fun _ => by rintro (hpc' | hpc') <;> cases hpc'
  | take =>
      have hcl : c.Live := ⟨hkind, by rw [hpc]; rfl⟩
      simp only [callerStep, hpc] at h
      obtain ⟨resp, -, hrun⟩ := Option.map_eq_some_iff.mp h
      split_ifs at hrun
      all_goals
        exact kept_of_callAt hs hc hd hcl hstep hheard hrun rfl rfl (by simp [hpc])
          (by simp [hpc]) ⟨by simp, by simp⟩ (by simp)
          fun _ => by rintro (hpc' | hpc') <;> cases hpc'
  | woken =>
      have hcl : c.Live := ⟨hkind, by rw [hpc]; rfl⟩
      obtain ⟨-, hdone⟩ := (callOk_served (by rw [hpc]; rfl)).mp (hs.matched.active c hc)
      simp only [callerStep, hpc, hkind, Option.some.injEq] at h
      by_cases hst : s.run.client.respStatus ≠ .ok
      · rw [if_pos hst] at h
        exact kept_of_callAt hs hc hd hcl hstep hheard h rfl rfl (by simp [hpc])
          (by simp [hpc]) ⟨by simp, by simp⟩ (by simp)
          fun _ => by rintro (hpc' | hpc') <;> cases hpc'
      · rw [if_neg hst] at h
        refine kept_of_callAt hs hc hd hcl hstep hheard h rfl rfl (by simp [hpc])
          (by simp [hpc]) ⟨by simp, by simp⟩ (by simp) ?_
        intro hk _ r hr
        have hne : c.resp ≠ none := by
          rw [Option.mem_def.mp hr]
          simp
        exact hk.answered (.inr (hdone hne)) (not_not.mp hst) r hr
  | timedOut =>
      simp only [callerStep, hpc, hkind, Option.some.injEq] at h
      obtain rfl : { c with pc := .unregister .etimeout } = d := by
        rw [← h] at hd
        exact Option.some.inj hd
      cases hlive.2
  | unregister result =>
      simp only [callerStep, hpc, Option.some.injEq] at h
      obtain rfl : { c with pc := .unlock result } = d := by
        rw [← h] at hd
        exact Option.some.inj hd
      have hres : result ≠ .etimeout := by
        rintro rfl
        cases hlive.2
      have hgone : c.pc.gone = false := by
        cases result with
        | etimeout => exact absurd rfl hres
        | eok => rw [hpc]; rfl
        | error => rw [hpc]; rfl
      have hstage : c.pc.stage = .served := by
        cases result with
        | etimeout => exact absurd rfl hres
        | eok => rw [hpc]; rfl
        | error => rw [hpc]; rfl
      have hq := ((callOk_served hstage).mp (hs.matched.active c hc)).1
      refine kept_of_callAt hs hc hd ⟨hkind, hgone⟩ hstep hheard h hq.resp.symm rfl
        (by simp [hpc]) (by simp [hpc]) ⟨by simp, by simp⟩ (by simp) ?_
      rintro hk (heq | heq)
      · cases heq
      · cases heq
        exact hk.result (.inl hpc)
  | unlock result =>
      simp only [callerStep, hpc, Option.some.injEq] at h
      rw [← h] at hd
      cases hd

/-- A line arrives: it is not taken yet. -/
theorem kept_readLine {s t : LineRun} {c : Call} {line : List UInt8} (hs : LinesReported s)
    (hm' : Matched t.run) (hc : s.run.call = some c) (hlive : c.Live)
    (hpc : s.run.parser.pc = .readline)
    (hrun : t.run = { s.run with
      received := s.run.received + line.length
      parser := { s.run.parser with pc := .test, recvBuffer := line } })
    (hheard : t.heard = s.heard) : Kept t c := by
  have hk := hs.kept c hc hlive
  have hct : t.run.call = some c := by rw [hrun, ← hc]
  have hresp : t.run.client.resp = s.run.client.resp := by rw [hrun]
  have hb : t.run.parser.pc.busy = false := by rw [hrun]; rfl
  have hbuf : ∀ r, t.run.bufOf r = s.run.bufOf r := fun r => ClientRun.bufOf_eq (by rw [hrun])
  cases hr : s.run.client.resp with
  | none =>
      exact hk.of_unregistered (hresp.trans hr) hb (by rw [hrun])
        (fun hmem => .inr (by rwa [hrun] at hmem)) hheard rfl (fun r _ => hbuf r) hk.place id id
  | some r =>
      refine kept_of_opened hm' hct (hresp.trans hr) hk.place (fun _ => ?_) (fun hst => ?_)
        fun hrep => ?_
      · rw [hrun]
        exact hk.status (by simp [hr]) (by rw [hpc]; rfl)
      · rw [hrun] at hst
        refine (hk.storing r hr hst).read hpc ?_ ?_ (hbuf r) ?_ <;> rw [hrun]
      · rw [ParserPc.reported_of_not_busy hb] at hrep
        cases hrep

/-- A line is dropped: while a response is registered, it is heard and not stored. -/
theorem kept_fullLine {s t : LineRun} {c : Call} (hs : LinesReported s)
    (hc : s.run.call = some c) (hlive : c.Live) (hpc : s.run.parser.pc = .readline)
    (hrun : t.run = s.run) (hheard : s.run.client.resp = none → t.heard = s.heard) :
    Kept t c := by
  have hk := hs.kept c hc hlive
  have hrep : t.run.parser.pc.reported = false := by rw [hrun, hpc]; rfl
  cases hr : s.run.client.resp with
  | none =>
      refine hk.of_unregistered (by rw [hrun, hr]) (by rw [hrun, hpc]; rfl) (by rw [hrun])
        (fun hmem => .inr (hrun ▸ hmem)) (hheard hr) rfl (fun r _ => by rw [hrun]) hk.place id id
  | some r =>
      refine kept_of_opened (hrun ▸ hs.matched) (hrun ▸ hc) (by rw [hrun, hr]) hk.place
        (fun _ => ?_) (fun hst => ?_) fun hrep' => ?_
      · rw [hrun]
        exact hk.status (by simp [hr]) (by rw [hpc]; rfl)
      · rw [hrun] at hst ⊢
        exact hk.storing r hr hst
      · rw [hrep] at hrep'
        cases hrep'

/-- A command begins. -/
theorem kept_begin {t : LineRun} {d : Call} (hq : Quiet t.run) (hpc : d.pc = .setStatus)
    (hid : d.id ∉ t.run.completed) : Kept t d := by
  have hb := hq.parser
  refine kept_of_unregistered hq.resp (ParserPc.reported_of_not_busy hb)
    ⟨by simp [hpc], by simp [hpc]⟩ (fun h => ?_) (fun hans _ => ?_) fun h => ?_
  · rw [hpc] at h
    cases h
  · rcases hans with hrel | hmem
    · rw [hrel] at hb
      cases hb
    · exact absurd hmem hid
  · rw [hpc] at h
    rcases h with h | h <;> cases h

theorem linesReported_step {recvBufsz : ℕ} {s t : LineRun} {a : LineAction}
    (hs : LinesReported s) (hok : OverflowReported s a) (h : lineStep recvBufsz s a = some t) :
    LinesReported t := by
  have hm' := matched_lineStep hs.matched hok.settled h
  refine ⟨hm', fun d hd hlive => ?_⟩
  cases a with
  | fullLine line =>
      obtain ⟨hpc, hrun, hheard⟩ := lineStep_fullLine h
      exact kept_fullLine hs (hrun ▸ hd) hlive hpc hrun hheard
  | client a =>
      obtain ⟨-, hstep, hheard⟩ := lineStep_client h
      have hreg : ∀ {c : Call}, s.run.call = some c → ∀ r ∈ s.run.client.resp, r ∈ c.resp := by
        intro c hc r hr
        obtain ⟨c', hc', hcr, -⟩ := hs.matched.opened hr
        obtain rfl : c = c' := Option.some.inj (hc.symm.trans hc')
        exact hcr
      cases a with
      | parser => exact kept_parserStep hs hm' hok hstep hheard d hd hlive
      | caller =>
          obtain ⟨c, hc, hcaller⟩ := Option.bind_eq_some_iff.mp hstep
          exact kept_caller hs hm' hc hcaller hheard d hd hlive
      | createResp bufSize lineNum timeout =>
          have hrun := Option.some.inj hstep
          have hc : s.run.call = some d := by rw [← hd, ← hrun]
          have hk := hs.kept d hc hlive
          refine hk.of_caller ?_ ?_ ?_ ?_ ?_ hheard rfl rfl (hreg hc) (fun r hr => ?_) hk.place
            hk.cleared hk.result <;> rw [← hrun]
          have hlt := hs.matched.numbered.valid d hc r hr
          exact ClientRun.bufOf_eq (List.getElem?_append_left hlt)
      | respSetInfo r bufSize lineNum timeout fresh =>
          simp only [step] at hstep
          split at hstep
          · next resp hresp =>
              split_ifs at hstep with hguard
              have hrun := Option.some.inj hstep
              have hc : s.run.call = some d := by rw [← hd, ← hrun]
              have hk := hs.kept d hc hlive
              refine hk.of_caller ?_ ?_ ?_ ?_ ?_ hheard rfl rfl (hreg hc) (fun r' hr' => ?_)
                hk.place hk.cleared hk.result <;> rw [← hrun]
              refine ClientRun.bufOf_eq (List.getElem?_set_ne fun heq => hguard.1 ?_)
              rw [hc, Option.bind_some, Option.mem_def.mp hr', heq]
          · cases hstep
      | execCmd resp =>
          simp only [step] at hstep
          split_ifs at hstep with hguard
          have hrun := Option.some.inj hstep
          have hq := hs.matched.idle hguard.1
          have hd' : (⟨s.run.calls, .execCmd, resp, .setStatus⟩ : Call) = d := by
            rw [← hrun] at hd
            exact Option.some.inj hd
          refine kept_begin ?_ (by rw [← hd']) fun hmem => ?_
          · rw [← hrun]
            exact ⟨hq.resp, hq.notice, hq.parser⟩
          · rw [← hd', ← hrun] at hmem
            exact Nat.lt_irrefl _ (hs.matched.numbered.completed_lt _ hmem)
      | waitConnect =>
          simp only [step] at hstep
          split_ifs at hstep with hnone
          have hd' : (⟨s.run.calls, .waitConnect, some s.run.heap.length, .register⟩ : Call) =
              d := by
            rw [← Option.some.inj hstep] at hd
            exact Option.some.inj hd
          have hkind := hlive.1
          rw [← hd'] at hkind
          cases hkind
      | giveUp =>
          simp only [step] at hstep
          split at hstep
          · next c hc =>
              split_ifs at hstep with hpc
              have hd' : { c with pc := .free .etimeout } = d := by
                rw [← Option.some.inj hstep] at hd
                exact Option.some.inj hd
              have hlc : c.Live := ⟨by rw [← hlive.1, ← hd'], by rw [hpc]; rfl⟩
              exact absurd hpc (hs.kept c hc hlc).place.1
          · cases hstep
      | timeout =>
          simp only [step] at hstep
          split at hstep
          · next c hc =>
              split_ifs at hstep with hpc
              have hrun := Option.some.inj hstep
              obtain rfl : { c with pc := .timedOut } = d := by
                rw [← hrun] at hd
                exact Option.some.inj hd
              have hk := hs.kept c hc ⟨hlive.1, by rw [hpc.1]; rfl⟩
              refine hk.of_caller ?_ ?_ ?_ ?_ ?_ hheard rfl rfl (hreg hc) (fun r _ => ?_)
                ⟨by simp, by simp⟩ (by simp) (by rintro (h | h) <;> cases h) <;>
                rw [← hrun] <;> rfl
          · cases hstep
      | readLine line =>
          simp only [step] at hstep
          split_ifs at hstep with hguard
          have hrun := Option.some.inj hstep
          have hc : s.run.call = some d := by rw [← hd, ← hrun]
          exact kept_readLine hs hm' hc hlive hguard.1 hrun.symm hheard

/-- The run lemma. -/
theorem linesReported_of_run {recvBufsz : ℕ} {as : List LineAction} {s : LineRun}
    (h : Run (lineStep recvBufsz) OverflowReported .init as s) : LinesReported s :=
  h.invariant LinesReported (fun _ _ _ hs hok hst => linesReported_step hs hok hst)
    ⟨matched_init, by rintro c ⟨⟩⟩

/-- A command that is about to return `RT_EOK` has every line that came while its response
was registered in the buffer of the response, in order. -/
def LostNothing (s : LineRun) : Prop :=
  ∀ c ∈ s.run.call, c.kind = .execCmd → c.pc = .unlock .eok → ∀ r ∈ c.resp,
    ∃ resp, s.run.heap[r]? = some resp ∧ (s.heard.map terminated).flatten <:+: resp.buf

/-- In every run that reports what does not fit, a command that succeeds has lost nothing. -/
theorem execCmd_lostNothing (recvBufsz : ℕ) (as : List LineAction) (s : LineRun)
    (h : Run (lineStep recvBufsz) OverflowReported .init as s) : LostNothing s := by
  intro c hc hkind hpc r hr
  have hlive : c.Live := ⟨hkind, by rw [hpc]; rfl⟩
  obtain ⟨bytes, hbytes, hin⟩ := ((linesReported_of_run h).kept c hc hlive).result (.inr hpc) r hr
  obtain ⟨resp, hresp, rfl⟩ := Option.map_eq_some_iff.mp hbytes
  exact ⟨resp, hresp, hin⟩

/-- A line of ten bytes, which ends no exchange. -/
def longLine : List UInt8 := [65, 66, 67, 68, 69, 70, 71, 72, 13, 10]

/-- A command with a new response object of `bufSize` bytes, up to its wait. -/
def commandWith (bufSize r : ℕ) : List LineAction :=
  [.client (.createResp bufSize 0 10), .client (.execCmd (some r))] ++
    List.replicate 5 (.client .caller)

/-- The parser takes a line and makes its next `n` steps. -/
def takeLine (line : List UInt8) (n : ℕ) : List LineAction := (parserLine line n).map .client

/-- The line `OK` is taken, and the command comes back with its result. -/
def finish : List LineAction := takeLine okLine 11 ++ List.replicate 2 (.client .caller)

/-- A command whose answer has two lines, both stored. -/
theorem execCmd_lostNothing_twoLines : ∃ s,
    Run (lineStep 64) OverflowReported .init
      (commandWith 64 0 ++ takeLine longLine 7 ++ finish) s ∧
    (s.run.call.map Call.pc = some (.unlock .eok) ∧ s.heard = [longLine, okLine]) ∧
    LostNothing s := by
  obtain ⟨s, hrun, hs⟩ := Run.exists_of_exec (lineStep 64) OverflowReported .init
    (commandWith 64 0 ++ takeLine longLine 7 ++ finish)
    (fun s => decide (s.run.call.map Call.pc = some (CallPc.unlock ExecResult.eok) ∧
      s.heard = [longLine, okLine])) (by decide +kernel)
  exact ⟨s, hrun, of_decide_eq_true hs, execCmd_lostNothing 64 _ s hrun⟩

/-- A command on the first response object is about to return `RT_EOK`, and `longLine`
came and is not in it. -/
def Lacking (s : LineRun) : Prop :=
  s.run.call = some ⟨0, .execCmd, some 0, .unlock .eok⟩ ∧ longLine ∈ s.heard ∧
    ∀ resp ∈ s.run.heap[0]?, 65 ∉ resp.buf

instance (s : LineRun) : Decidable (Lacking s) :=
  inferInstanceAs (Decidable (_ ∧ _ ∧ ∀ resp ∈ s.run.heap[0]?, _))

theorem Lacking.not_lostNothing {s : LineRun} (h : Lacking s) : ¬ LostNothing s := by
  obtain ⟨hcall, hline, hbuf⟩ := h
  intro hall
  obtain ⟨resp, hresp, hin⟩ := hall _ hcall rfl rfl 0 rfl
  have hmem : (65 : UInt8) ∈ (s.heard.map terminated).flatten :=
    List.mem_flatten_of_mem (List.mem_map_of_mem hline) (by decide)
  exact hbuf resp hresp (hin.subset hmem)

/-- With settled timeouts: a line too long for the response, and one too long for the
receive buffer, both followed by `OK`. -/
theorem execCmd_loses_lines :
    (¬ ∀ as s, Run (lineStep 64) LineSettled .init as s → LostNothing s) ∧
      ¬ ∀ as s, Run (lineStep 8) LineSettled .init as s → LostNothing s := by
  constructor
  · intro hall
    obtain ⟨s, hrun, hs⟩ := Run.exists_of_exec (lineStep 64) LineSettled .init
      (commandWith 8 0 ++ takeLine longLine 7 ++ finish) (fun s => decide (Lacking s))
      (by decide +kernel)
    exact (of_decide_eq_true hs).not_lostNothing (hall _ s hrun)
  · intro hall
    obtain ⟨s, hrun, hs⟩ := Run.exists_of_exec (lineStep 8) LineSettled .init
      (commandWith 64 0 ++ [.fullLine longLine] ++ finish) (fun s => decide (Lacking s))
      (by decide +kernel)
    exact (of_decide_eq_true hs).not_lostNothing (hall _ s hrun)

end AtCmd
