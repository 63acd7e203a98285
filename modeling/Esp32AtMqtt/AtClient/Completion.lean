import Esp32AtMqtt.AtClient.Exchange
import Esp32AtMqtt.Transition.Run
import Mathlib.Data.List.Nodup

/-!
# Commands and their completions

Nothing but the registration ties a completion to a call. If the parser stands inside an
exchange when a call that timed out unregisters, or has already released `resp_notice`,
then the completion is left for the next call, which returns at once with a status that
is not its own; and the parser may still write to the response of a call that has
returned.

`TimeoutSettled` is the condition that a call that timed out unregisters a response that
is still registered, while the parser is between two lines. In the runs that meet it
commands and completions are matched one to one.
-/

namespace AtCmd

open Kernel Kernel.RtSemaphore Transition

/-- A call that timed out unregisters a response that is still registered, and the parser
is not inside an exchange. -/
def TimeoutSettled (s : ClientRun) : ClientAction → Prop
  | .caller => ∀ c ∈ s.call, c.pc = .unregister .etimeout →
      s.client.resp = c.resp ∧ s.parser.pc.busy = false
  | _ => True

instance (s : ClientRun) : ∀ a : ClientAction, Decidable (TimeoutSettled s a)
  | .caller => inferInstanceAs (Decidable (∀ c ∈ s.call, _ → _ ∧ _))
  | .createResp .. => isTrue trivial
  | .respSetInfo .. => isTrue trivial
  | .execCmd _ => isTrue trivial
  | .waitConnect => isTrue trivial
  | .giveUp => isTrue trivial
  | .timeout => isTrue trivial
  | .readLine _ => isTrue trivial
  | .parser => isTrue trivial

/-- The calls are numbered in the order they begin in, and each completes and returns at
most once. -/
structure Numbered (s : ClientRun) : Prop where
  call : ∀ c ∈ s.call, c.id + 1 = s.calls ∧ ∀ d ∈ s.returned, d.id < c.id
  valid : ∀ c ∈ s.call, ∀ r ∈ c.resp, r < s.heap.length
  completed_lt : ∀ i ∈ s.completed, i < s.calls
  completed_once : s.completed.Nodup
  returned_lt : ∀ d ∈ s.returned, d.id < s.calls
  returned_once : (s.returned.map Call.id).Nodup
  returned_eok : ∀ d ∈ s.returned, d.resp ≠ none → d.pc = .unlock .eok → d.id ∈ s.completed

/-- The invariant of the settled runs. -/
structure Matched (s : ClientRun) : Prop where
  idle : s.call = none → Quiet s
  active : ∀ c ∈ s.call, CallOk s c
  numbered : Numbered s

theorem matched_init : Matched init :=
  ⟨fun _ => ⟨rfl, rfl, rfl⟩, by simp [init], by constructor <;> simp [init]⟩

/-- The numbering is kept while the calls only move on. -/
theorem Numbered.of_moved {s t : ClientRun} (h : Numbered s) (hcalls : t.calls = s.calls)
    (hreturned : t.returned = s.returned) (hheap : s.heap.length ≤ t.heap.length)
    (hcall : ∀ d ∈ t.call, ∃ c ∈ s.call, d.id = c.id ∧ d.resp = c.resp)
    (hcompleted : t.completed = s.completed ∨
      ∃ c ∈ s.call, c.id ∉ s.completed ∧ t.completed = s.completed ++ [c.id]) :
    Numbered t := by
  have hsub : ∀ i ∈ s.completed, i ∈ t.completed := by
    rcases hcompleted with heq | ⟨c, -, -, heq⟩ <;> rw [heq]
    · exact fun _ hi => hi
    · exact fun _ hi => List.mem_append_left _ hi
  refine ⟨fun d hd => ?_, fun d hd r hr => ?_, ?_, ?_, ?_, ?_, ?_⟩
  · obtain ⟨c, hc, hid, -⟩ := hcall d hd
    rw [hcalls, hreturned, hid]
    exact h.call c hc
  · obtain ⟨c, hc, -, hresp⟩ := hcall d hd
    exact Nat.lt_of_lt_of_le (h.valid c hc r (hresp ▸ hr)) hheap
  · rw [hcalls]
    rcases hcompleted with heq | ⟨c, hc, -, heq⟩ <;> rw [heq]
    · exact h.completed_lt
    · have hlt : c.id < s.calls := by
        have hid := (h.call c hc).1
        omega
      exact List.forall_mem_append.mpr ⟨h.completed_lt, List.forall_mem_singleton.mpr hlt⟩
  · rcases hcompleted with heq | ⟨c, hc, hid, heq⟩ <;> rw [heq]
    · exact h.completed_once
    · exact List.nodup_append.mpr ⟨h.completed_once, List.nodup_singleton _,
        fun i hi j hj heq => hid (List.mem_singleton.mp hj ▸ heq ▸ hi)⟩
  · rw [hcalls, hreturned]
    exact h.returned_lt
  · rw [hreturned]
    exact h.returned_once
  · rw [hreturned]
    exact fun d hd hr hpc => hsub _ (h.returned_eok d hd hr hpc)

/-- A call begins with the next number. -/
theorem Numbered.begin {s : ClientRun} (h : Numbered s) (kind : CallKind) (resp : Option ℕ)
    (pc : CallPc) (hvalid : ∀ r ∈ resp, r < s.heap.length) : Numbered (s.begin kind resp pc) := by
  refine ⟨?_, ?_, fun i hi => Nat.lt_succ_of_lt (h.completed_lt i hi), h.completed_once,
    fun d hd => Nat.lt_succ_of_lt (h.returned_lt d hd), h.returned_once, h.returned_eok⟩
  · rintro c ⟨⟩
    exact ⟨rfl, h.returned_lt⟩
  · rintro c ⟨⟩
    exact hvalid

/-- A call returns; if it does so with `RT_EOK`, it has its completion. -/
theorem Numbered.unlock {s t : ClientRun} {c : Call} (h : Numbered s) (hc : s.call = some c)
    (heok : c.resp ≠ none → c.pc = .unlock .eok → c.id ∈ s.completed)
    (hcalls : t.calls = s.calls) (hcompleted : t.completed = s.completed)
    (hcall : t.call = none) (hreturned : t.returned = s.returned ++ [c]) : Numbered t := by
  obtain ⟨hid, hlt⟩ := h.call c hc
  refine ⟨by simp [hcall], by simp [hcall], ?_, ?_, ?_, ?_, ?_⟩
  · rw [hcalls, hcompleted]
    exact h.completed_lt
  · rw [hcompleted]
    exact h.completed_once
  · rw [hcalls, hreturned]
    exact List.forall_mem_append.mpr
      ⟨h.returned_lt, List.forall_mem_singleton.mpr (by omega)⟩
  · rw [hreturned, List.map_append]
    refine List.nodup_append.mpr ⟨h.returned_once, List.nodup_singleton _, ?_⟩
    intro i hi j hj
    obtain ⟨d, hd, rfl⟩ := List.mem_map.mp hi
    obtain rfl := List.mem_singleton.mp hj
    exact Nat.ne_of_lt (hlt d hd)
  · rw [hreturned, hcompleted]
    exact List.forall_mem_append.mpr ⟨h.returned_eok, List.forall_mem_singleton.mpr heok⟩

/-- The call under way moves on. -/
theorem Matched.of_moved {s t : ClientRun} {c d : Call} (hs : Matched s) (hc : s.call = some c)
    (hd : t.call = some d) (hid : d.id = c.id) (hresp : d.resp = c.resp) (hok : CallOk t d)
    (hcalls : t.calls = s.calls) (hreturned : t.returned = s.returned)
    (hheap : t.heap.length = s.heap.length)
    (hcompleted : t.completed = s.completed ∨
      c.id ∉ s.completed ∧ t.completed = s.completed ++ [c.id]) : Matched t := by
  refine ⟨by simp [hd], by simpa [hd] using hok, ?_⟩
  refine hs.numbered.of_moved hcalls hreturned (Nat.le_of_eq hheap.symm) ?_
    (hcompleted.imp_right fun h => ⟨c, hc, h⟩)
  rw [hd]
  rintro e ⟨⟩
  exact ⟨c, hc, hid, hresp⟩

theorem matched_caller {s t : ClientRun} (hs : Matched s) (hok : TimeoutSettled s .caller)
    (h : step s .caller = some t) : Matched t := by
  obtain ⟨c, hc, hstep⟩ := Option.bind_eq_some_iff.mp h
  have hcall := hs.active c hc
  have hframe := callerStep_frame hstep
  rcases hframe.call with ⟨pc, htcall, hreturned⟩ | ⟨result, hpc, htcall, hreturned⟩
  · rcases callOk_caller hcall (hok c hc) hstep with ⟨hnone, -⟩ | ⟨d, hd, hok'⟩
    · rw [htcall] at hnone
      cases hnone
    · obtain rfl : d = { c with pc := pc } := Option.some.inj (hd.symm.trans htcall)
      exact hs.of_moved hc hd rfl rfl hok' hframe.calls hreturned
        hframe.heap_length (.inl hframe.completed)
  · rcases callOk_caller hcall (hok c hc) hstep with ⟨-, hq⟩ | ⟨d, hd, -⟩
    · refine ⟨fun _ => hq, by simp [htcall], ?_⟩
      exact hs.numbered.unlock hc hcall.completed_of_eok hframe.calls hframe.completed htcall
        hreturned
    · rw [htcall] at hd
      cases hd

theorem matched_parserStep {s t : ClientRun} (hs : Matched s) (h : step s .parser = some t) :
    Matched t := by
  have hframe := parserStep_frame h
  cases hc : s.call with
  | none =>
      obtain ⟨hq, htcall, hcompleted⟩ := quiet_parserStep (hs.idle hc) h
      have hnone : t.call = none := htcall.trans hc
      refine ⟨fun _ => hq, by simp [hnone], ?_⟩
      exact hs.numbered.of_moved hframe.calls hframe.returned (Nat.le_of_eq hframe.heap.symm)
        (by simp [hnone]) (.inl hcompleted)
  | some c =>
      obtain ⟨hcompleted, d, hd, hid, hresp, hok⟩ :=
        callOk_parserStep (hs.active c hc) hc (hs.numbered.valid c hc) h
      exact hs.of_moved hc hd hid hresp hok hframe.calls hframe.returned hframe.heap hcompleted

/-- A step that touches neither the call nor what the matching is about. -/
theorem Matched.of_view {s t : ClientRun} (hs : Matched s) (hv : SameView s t)
    (hcall : t.call = s.call) (hcalls : t.calls = s.calls) (hreturned : t.returned = s.returned)
    (hheap : s.heap.length ≤ t.heap.length) : Matched t := by
  refine ⟨fun hnone => (hs.idle (hcall ▸ hnone)).of_view hv, fun c hc => ?_, ?_⟩
  · exact (hs.active c (hcall ▸ hc)).of_view hv
  · exact hs.numbered.of_moved hcalls hreturned hheap
      (fun d hd => ⟨d, hcall ▸ hd, rfl, rfl⟩) (.inl hv.completed)

theorem matched_begin {s : ClientRun} (hs : Matched s) (hnone : s.call = none) (kind : CallKind)
    (resp : Option ℕ) (pc : CallPc) (hstage : pc.stage = .early)
    (hvalid : ∀ r ∈ resp, r < s.heap.length) : Matched (s.begin kind resp pc) := by
  have hq := hs.idle hnone
  have hfresh : s.calls ∉ s.completed := fun hmem =>
    Nat.lt_irrefl _ (hs.numbered.completed_lt _ hmem)
  refine ⟨nofun, ?_, hs.numbered.begin kind resp pc hvalid⟩
  rintro c ⟨⟩
  exact (callOk_early hstage).mpr ⟨⟨hq.resp, hq.notice, hq.parser⟩, hfresh⟩

/-- A line is read; nothing registered is touched. -/
theorem matched_readLine {s : ClientRun} (hs : Matched s) (hpc : s.parser.pc = .readline)
    (line : List UInt8) :
    Matched { s with
      received := s.received + line.length
      parser := { s.parser with pc := .test, recvBuffer := line } } := by
  have hquiet : ∀ {u : ClientRun}, u.client = s.client → u.parser.pc = .test → Quiet s →
      Quiet u := by
    intro u hclient hu hq
    exact ⟨by rw [hclient, hq.resp], by rw [hclient, hq.notice], by rw [hu]; rfl⟩
  refine ⟨fun hnone => hquiet rfl rfl (hs.idle hnone), fun c hc => ?_, ?_⟩
  · have hok := hs.active c hc
    cases hstage : c.pc.stage with
    | early =>
        have hq := (callOk_early hstage).mp hok
        exact (callOk_early hstage).mpr ⟨hquiet rfl rfl hq.1, hq.2⟩
    | served =>
        have hq := (callOk_served hstage).mp hok
        exact (callOk_served hstage).mpr ⟨hquiet rfl rfl hq.1, hq.2⟩
    | abandoned =>
        exact (callOk_abandoned hstage).mpr (hquiet rfl rfl ((callOk_abandoned hstage).mp hok))
    | awaiting =>
        rcases Option.eq_none_or_eq_some c.resp with hcr | ⟨r, hcr⟩
        · exact (callOk_none hstage hcr).mpr (hquiet rfl rfl ((callOk_none hstage hcr).mp hok))
        · refine (callOk_some hstage hcr).mpr ?_
          cases (callOk_some hstage hcr).mp hok with
          | opened hr hn hp hb ho => exact .opened hr hn hp trivial nofun
          | closing hr hn hp ho hb => rw [hpc] at hb; cases hb
          | released hr hn hp hne hb => exact .released hr hn hp hne rfl
  · exact hs.numbered.of_moved rfl rfl (Nat.le_refl _) (fun d hd => ⟨d, hd, rfl, rfl⟩) (.inl rfl)

theorem matched_step {s t : ClientRun} {a : ClientAction} (hs : Matched s)
    (hok : TimeoutSettled s a) (h : step s a = some t) : Matched t := by
  cases a with
  | caller => exact matched_caller hs hok h
  | parser => exact matched_parserStep hs h
  | createResp bufSize lineNum timeout =>
      cases h
      exact hs.of_view ⟨rfl, rfl, rfl, rfl⟩ rfl rfl rfl (by simp)
  | respSetInfo r bufSize lineNum timeout fresh =>
      simp only [step] at h
      split at h
      · split_ifs at h
        cases h
        exact hs.of_view ⟨rfl, rfl, rfl, rfl⟩ rfl rfl rfl (by simp)
      · cases h
  | execCmd resp =>
      simp only [step] at h
      split_ifs at h with hguard
      cases h
      exact matched_begin hs hguard.1 .execCmd resp .setStatus rfl hguard.2
  | waitConnect =>
      simp only [step] at h
      split_ifs at h with hnone
      cases h
      have hgrown : Matched { s with heap := s.heap ++ [atCreateResp 16 0 waitConnectTicks] } :=
        hs.of_view ⟨rfl, rfl, rfl, rfl⟩ rfl rfl rfl (by simp)
      exact matched_begin hgrown hnone .waitConnect (some s.heap.length) .register rfl (by simp)
  | giveUp =>
      simp only [step] at h
      split at h
      · next c hc =>
          split_ifs at h with hpc
          cases h
          have hstage : c.pc.stage = .awaiting := by rw [hpc]; rfl
          have hok' := callOk_move (t := s) (hs.active c hc) ⟨rfl, rfl, rfl, rfl⟩ hstage
            (by simp [hpc]) (.free .etimeout) rfl nofun
          exact hs.of_moved hc rfl rfl rfl hok' rfl rfl rfl (.inl rfl)
      · cases h
  | timeout =>
      simp only [step] at h
      split at h
      · next c hc =>
          split_ifs at h with hpc
          cases h
          have hok' := callOk_timeout (hs.active c hc) hpc.1
          exact hs.of_moved hc rfl rfl rfl hok' rfl rfl rfl (.inl rfl)
      · cases h
  | readLine line =>
      simp only [step] at h
      split_ifs at h with hpc
      cases h
      exact matched_readLine hs hpc.1 line

/-- The run lemma, for use by the other results about the client. -/
theorem matched_of_run {ok : ClientRun → ClientAction → Prop}
    (hsettled : ∀ s a, ok s a → TimeoutSettled s a) {as : List ClientAction} {s : ClientRun}
    (h : Run step ok init as s) : Matched s :=
  h.invariant Matched (fun s a _ hs hok hst => matched_step hs (hsettled s a hok) hst) matched_init

/-- Where the client is not quiet, a call awaits its completion with a response. -/
theorem Matched.exchange_of_not_quiet {s : ClientRun} (hs : Matched s) (hquiet : ¬ Quiet s) :
    ∃ c r, s.call = some c ∧ c.resp = some r ∧ c.pc.stage = .awaiting ∧ Exchange s c r := by
  cases hc : s.call with
  | none => exact absurd (hs.idle hc) hquiet
  | some c =>
      have hok := hs.active c hc
      cases hstage : c.pc.stage with
      | early => exact absurd ((callOk_early hstage).mp hok).1 hquiet
      | served => exact absurd ((callOk_served hstage).mp hok).1 hquiet
      | abandoned => exact absurd ((callOk_abandoned hstage).mp hok) hquiet
      | awaiting =>
          rcases Option.eq_none_or_eq_some c.resp with hcr | ⟨r, hcr⟩
          · exact absurd ((callOk_none hstage hcr).mp hok) hquiet
          · exact ⟨c, r, rfl, hcr, hstage, (callOk_some hstage hcr).mp hok⟩

/-- A parser that is not between two lines works for the call under way. -/
theorem Matched.exchange {s : ClientRun} (hs : Matched s) (hb : s.parser.pc.busy = true) :
    ∃ c r, s.call = some c ∧ c.resp = some r ∧ c.pc.stage = .awaiting ∧ Exchange s c r :=
  hs.exchange_of_not_quiet fun hq => absurd (hq.parser.symm.trans hb) Bool.false_ne_true

/-- Commands and completions are matched one to one. A call that returned `RT_EOK` has a
completion, which the parser made from a line taken while the response of this call was
registered; no call has two, or returns twice. `resp_notice` is 0 when a response is
registered, and when a call starts to wait for a completion that has not come. The parser
works for the call under way, its response stays registered until the parser takes it
back, and no other response object is written to. -/
structure OneToOne (s : ClientRun) : Prop where
  returned_eok : ∀ c ∈ s.returned, c.resp ≠ none → c.pc = .unlock .eok → c.id ∈ s.completed
  returned_once : (s.returned.map Call.id).Nodup
  completed_once : s.completed.Nodup
  notice_register : ∀ c ∈ s.call, c.pc = .register →
    s.client.respNotice.value = 0 ∧ c.id ∉ s.completed
  notice_take : ∀ c ∈ s.call, c.resp ≠ none → c.pc = .take →
    s.client.respNotice.value = if c.id ∈ s.completed then 1 else 0
  registered : s.parser.pc.busy = true → s.parser.pc ≠ .release →
    ∃ c ∈ s.call, s.parser.owner = some c.id ∧ c.resp ≠ none ∧ s.client.resp = c.resp
  writes : ∀ dst ∈ s.parser.pc.dst, ∃ c ∈ s.call, s.parser.owner = some c.id ∧ c.resp = some dst
  no_fault : s.parser.pc ≠ .fault

theorem Matched.notice_take {s : ClientRun} (hs : Matched s) {c : Call} (hc : s.call = some c)
    (hresp : c.resp ≠ none) (hpc : c.pc = .take) :
    s.client.respNotice.value = if c.id ∈ s.completed then 1 else 0 := by
  have hstage : c.pc.stage = .awaiting := by rw [hpc]; rfl
  obtain ⟨r, hcr⟩ := Option.ne_none_iff_exists'.mp hresp
  cases (callOk_some hstage hcr).mp (hs.active c hc) with
  | opened hr hn hp hb ho => rw [hn, if_neg hp]
  | closing hr hn hp ho hb => rw [hn, if_neg hp]
  | released hr hn hp hne hb => rw [hn, if_pos hp]

theorem Matched.oneToOne {s : ClientRun} (hs : Matched s) : OneToOne s := by
  refine ⟨hs.numbered.returned_eok, hs.numbered.returned_once, hs.numbered.completed_once,
    fun c hc hpc => ?_, fun c hc hresp hpc => hs.notice_take hc hresp hpc, fun hb hne => ?_,
    fun dst hdst => ?_, fun hpc => ?_⟩
  · obtain ⟨hq, hid⟩ := (callOk_early (by rw [hpc]; rfl)).mp (hs.active c hc)
    exact ⟨by rw [hq.notice], hid⟩
  · obtain ⟨c, r, hc, hcr, -, hx⟩ := hs.exchange hb
    cases hx with
    | opened hr hn hp hopen ho => exact ⟨c, hc, ho hb, by simp [hcr], hr.trans hcr.symm⟩
    | closing hr hn hp ho hpc => exact absurd hpc hne
    | released hr hn hp hw hb' => rw [hb'] at hb; cases hb
  · have hb : s.parser.pc.busy = true := by
      cases hpc : s.parser.pc <;> rw [hpc] at hdst <;> first | rfl | cases hdst
    obtain ⟨c, r, hc, hcr, -, hx⟩ := hs.exchange hb
    cases hx with
    | opened hr hn hp hopen ho => exact ⟨c, hc, ho hb, by rw [hcr, hopen.dst_eq hdst]⟩
    | closing hr hn hp ho hpc => rw [hpc] at hdst; cases hdst
    | released hr hn hp hw hb' => rw [hb'] at hb; cases hb
  · obtain ⟨c, r, -, -, -, hx⟩ := hs.exchange (by rw [hpc]; rfl)
    cases hx with
    | opened hr hn hp hopen ho => rw [hpc] at hopen; exact hopen
    | closing hr hn hp ho hpc' => rw [hpc] at hpc'; cases hpc'
    | released hr hn hp hw hb => rw [hpc] at hb; cases hb

/-- In every run in which the calls that time out are settled, commands and completions
are matched one to one. -/
theorem completions_oneToOne (as : List ClientAction) (s : ClientRun)
    (h : Run step TimeoutSettled init as s) : OneToOne s :=
  (matched_of_run (fun _ _ hok => hok) h).oneToOne

/-- The line `OK`. -/
def okLine : List UInt8 := [79, 75, 13, 10]

/-- A command with a new response object, up to its wait. -/
def commandToWait (r : ℕ) : List ClientAction :=
  [.createResp 64 0 10, .execCmd (some r)] ++ List.replicate 5 .caller

/-- The parser reads a line and makes its next `n` steps. -/
def parserLine (line : List UInt8) (n : ℕ) : List ClientAction :=
  .readLine line :: List.replicate n .parser

/-- A command that times out without an answer, and one that gets its `OK`. -/
theorem completions_oneToOne_afterTimeout : ∃ s,
    Run step TimeoutSettled init
      (commandToWait 0 ++ [.timeout] ++ List.replicate 3 .caller ++ commandToWait 1 ++
        parserLine okLine 11 ++ List.replicate 3 .caller) s ∧
    (s.returned.map Call.pc = [.unlock .etimeout, .unlock .eok] ∧ s.completed = [1]) ∧
    OneToOne s := by
  obtain ⟨s, hrun, hs⟩ := Run.exists_of_exec step TimeoutSettled init
    (commandToWait 0 ++ [.timeout] ++ List.replicate 3 .caller ++ commandToWait 1 ++
      parserLine okLine 11 ++ List.replicate 3 .caller)
    (fun s => decide (s.returned.map Call.pc =
      [CallPc.unlock ExecResult.etimeout, CallPc.unlock ExecResult.eok] ∧ s.completed = [1]))
    (by decide)
  exact ⟨s, hrun, of_decide_eq_true hs, completions_oneToOne _ s hrun⟩

/-- An `OK` that arrives after the timeout and before the unregistration completes the
next command; and a timeout while a line is being stored leaves the parser about to write
to the response of a command that has returned. -/
theorem completions_not_oneToOne_late :
    (¬ ∀ as s, Run step unconditional init as s → ∀ c ∈ s.returned, c.resp ≠ none →
        c.pc = .unlock .eok → c.id ∈ s.completed) ∧
      ¬ ∀ as s, Run step unconditional init as s → ∀ dst ∈ s.parser.pc.dst,
        ∃ c ∈ s.call, c.resp = some dst := by
  constructor
  · intro hall
    obtain ⟨s, hrun, hs⟩ := Run.exists_of_exec step unconditional init
      (commandToWait 0 ++ [.timeout] ++ parserLine okLine 11 ++ List.replicate 3 .caller ++
        commandToWait 1 ++ List.replicate 3 .caller)
      (fun s => decide (∃ c ∈ s.returned, c.resp ≠ none ∧
        c.pc = CallPc.unlock ExecResult.eok ∧ c.id ∉ s.completed)) (by decide)
    obtain ⟨c, hc, hresp, hpc, hid⟩ := of_decide_eq_true hs
    exact hid (hall _ s hrun c hc hresp hpc)
  · intro hall
    obtain ⟨s, hrun, hs⟩ := Run.exists_of_exec step unconditional init
      (commandToWait 0 ++ parserLine okLine 3 ++ [.timeout] ++ List.replicate 3 .caller)
      (fun s => decide (s.parser.pc.dst = some 0 ∧ s.call = none)) (by decide)
    obtain ⟨hdst, hnone⟩ := of_decide_eq_true hs
    obtain ⟨c, hc, -⟩ := hall _ s hrun 0 hdst
    rw [hnone] at hc
    cases hc

end AtCmd
