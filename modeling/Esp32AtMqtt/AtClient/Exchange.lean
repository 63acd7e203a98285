import Esp32AtMqtt.AtClient.Client

/-!
# The exchange of a call

A completion is a final line: the parser sets `resp_status`, clears `client->resp` and
releases `resp_notice`. Here the exchange of one call is followed from its registration
to its return, through the steps of the call and of the parser. `CallOk` is what holds of
the call under way while the client keeps its completions apart; each step keeps it, but
for one: a call that has timed out takes its registration back without looking at what
the parser is doing, and the lemma about that step needs the parser between two lines and
the registration still in place.
-/

namespace AtCmd

open Kernel Kernel.RtSemaphore

/-- The parser has taken a line for a registered response and is not done with it. -/
def ParserPc.busy : ParserPc → Bool
  | .readline => false
  | .test => false
  | .reset => false
  | _ => true

/-- The response object that the next statement of the parser writes to. -/
def ParserPc.dst : ParserPc → Option ℕ
  | .copy dst => some dst
  | .storeCounts dst => some dst
  | _ => none

/-- Where the parser can stand while the response `r` is registered. -/
def ParserPc.OpenFor (r : ℕ) : ParserPc → Prop
  | .copy dst => dst = r
  | .storeCounts dst => dst = r
  | .release => False
  | .fault => False
  | _ => True

theorem ParserPc.openFor_of_not_busy {pc : ParserPc} (h : pc.busy = false) (r : ℕ) :
    pc.OpenFor r := by
  cases pc with
  | readline => exact trivial
  | test => exact trivial
  | reset => exact trivial
  | _ => cases h

theorem ParserPc.OpenFor.dst_eq {pc : ParserPc} {r dst : ℕ} (h : pc.OpenFor r)
    (hdst : dst ∈ pc.dst) : dst = r := by
  cases pc with
  | copy d => exact (Option.some.inj hdst).symm.trans h
  | storeCounts d => exact (Option.some.inj hdst).symm.trans h
  | _ => cases hdst

/-- The parts of a call: before its registration, until it has taken its completion or
given up, with its completion, and after a timeout. -/
inductive CallStage
  | early
  | awaiting
  | served
  | abandoned
  deriving DecidableEq, Repr

def CallPc.stage : CallPc → CallStage
  | .setStatus => .early
  | .register => .early
  | .woken => .served
  | .free .eok => .served
  | .free .error => .served
  | .unregister .eok => .served
  | .unregister .error => .served
  | .unlock .eok => .served
  | .unlock .error => .served
  | .unlock .etimeout => .abandoned
  | _ => .awaiting

/-- Nothing is registered, released or under way. -/
structure Quiet (s : ClientRun) : Prop where
  resp : s.client.resp = none
  notice : s.client.respNotice = ⟨0, []⟩
  parser : s.parser.pc.busy = false

/-- The threads suspended on `resp_notice` while `c` is under way. -/
def Call.waiters (c : Call) : List Unit := if c.pc = .wait then [()] else []

/-- Where the exchange of the call `c` with the response `r` stands: the response is
registered and the parser may be busy for it; or the parser has taken the registration
back and is about to release; or it has released, and the call has not taken yet. -/
inductive Exchange (s : ClientRun) (c : Call) (r : ℕ) : Prop
  | opened (resp : s.client.resp = some r) (notice : s.client.respNotice = ⟨0, c.waiters⟩)
      (pending : c.id ∉ s.completed) (parser : s.parser.pc.OpenFor r)
      (owner : s.parser.pc.busy = true → s.parser.owner = some c.id)
  | closing (resp : s.client.resp = none) (notice : s.client.respNotice = ⟨0, c.waiters⟩)
      (pending : c.id ∉ s.completed) (owner : s.parser.owner = some c.id)
      (parser : s.parser.pc = .release)
  | released (resp : s.client.resp = none) (notice : s.client.respNotice = ⟨1, []⟩)
      (done : c.id ∈ s.completed) (running : c.pc ≠ .wait)
      (parser : s.parser.pc.busy = false)

/-- What holds while the call `c` is under way. A call without a response has no
exchange. -/
def CallOk (s : ClientRun) (c : Call) : Prop :=
  match c.pc.stage, c.resp with
  | .early, _ => Quiet s ∧ c.id ∉ s.completed
  | .awaiting, some r => Exchange s c r
  | .awaiting, none => Quiet s
  | .served, resp => Quiet s ∧ (resp ≠ none → c.id ∈ s.completed)
  | .abandoned, _ => Quiet s

theorem callOk_early {s : ClientRun} {c : Call} (h : c.pc.stage = .early) :
    CallOk s c ↔ Quiet s ∧ c.id ∉ s.completed := by rw [CallOk, h]

theorem callOk_some {s : ClientRun} {c : Call} {r : ℕ} (h : c.pc.stage = .awaiting)
    (hr : c.resp = some r) : CallOk s c ↔ Exchange s c r := by rw [CallOk, h, hr]

theorem callOk_none {s : ClientRun} {c : Call} (h : c.pc.stage = .awaiting)
    (hr : c.resp = none) : CallOk s c ↔ Quiet s := by rw [CallOk, h, hr]

theorem callOk_served {s : ClientRun} {c : Call} (h : c.pc.stage = .served) :
    CallOk s c ↔ Quiet s ∧ (c.resp ≠ none → c.id ∈ s.completed) := by rw [CallOk, h]

theorem callOk_abandoned {s : ClientRun} {c : Call} (h : c.pc.stage = .abandoned) :
    CallOk s c ↔ Quiet s := by rw [CallOk, h]

/-- Two states that agree in the registration, the semaphore, the completions and the
parser. -/
structure SameView (s t : ClientRun) : Prop where
  resp : t.client.resp = s.client.resp
  notice : t.client.respNotice = s.client.respNotice
  completed : t.completed = s.completed
  parser : t.parser = s.parser

theorem Quiet.of_view {s t : ClientRun} (h : Quiet s) (hv : SameView s t) : Quiet t :=
  ⟨hv.resp.trans h.resp, hv.notice.trans h.notice, by rw [hv.parser, h.parser]⟩

theorem Exchange.of_view {s t : ClientRun} {c d : Call} {r : ℕ} (h : Exchange s c r)
    (hv : SameView s t) (hid : d.id = c.id) (hw : d.waiters = c.waiters)
    (hd : c.pc ≠ .wait → d.pc ≠ .wait) : Exchange t d r := by
  cases h with
  | opened hr hn hp hb ho =>
      refine .opened (hv.resp.trans hr) ?_ ?_ ?_ ?_
      · rw [hv.notice, hw, hn]
      · rwa [hv.completed, hid]
      · rw [hv.parser]
        exact hb
      · rw [hv.parser, hid]
        exact ho
  | closing hr hn hp ho hb =>
      refine .closing (hv.resp.trans hr) ?_ ?_ ?_ ?_
      · rw [hv.notice, hw, hn]
      · rwa [hv.completed, hid]
      · rw [hv.parser, hid, ho]
      · rw [hv.parser, hb]
  | released hr hn hp hne hb =>
      refine .released (hv.resp.trans hr) (hv.notice.trans hn) ?_ (hd hne) ?_
      · rwa [hv.completed, hid]
      · rw [hv.parser, hb]

/-- Another step than the call's, or the parser's, does not matter to the call. -/
theorem CallOk.of_view {s t : ClientRun} {c : Call} (h : CallOk s c) (hv : SameView s t) :
    CallOk t c := by
  cases hstage : c.pc.stage with
  | early =>
      have hq := (callOk_early hstage).mp h
      exact (callOk_early hstage).mpr ⟨hq.1.of_view hv, by rw [hv.completed]; exact hq.2⟩
  | awaiting =>
      cases hcr : c.resp with
      | none => exact (callOk_none hstage hcr).mpr (((callOk_none hstage hcr).mp h).of_view hv)
      | some r =>
          have hx := (callOk_some hstage hcr).mp h
          exact (callOk_some hstage hcr).mpr (hx.of_view hv rfl rfl id)
  | served =>
      have hq := (callOk_served hstage).mp h
      exact (callOk_served hstage).mpr ⟨hq.1.of_view hv, by rw [hv.completed]; exact hq.2⟩
  | abandoned =>
      exact (callOk_abandoned hstage).mpr (((callOk_abandoned hstage).mp h).of_view hv)

/-- A step of the call that only moves it on inside the awaiting stage. -/
theorem callOk_move {s t : ClientRun} {c : Call} (h : CallOk s c) (hv : SameView s t)
    (hstage : c.pc.stage = .awaiting) (hc : c.pc ≠ .wait) (pc : CallPc)
    (hstage' : pc.stage = .awaiting) (hpc : pc ≠ .wait) :
    CallOk (t.callAt c pc) { c with pc := pc } := by
  have hv' : SameView s (t.callAt c pc) := ⟨hv.resp, hv.notice, hv.completed, hv.parser⟩
  rcases Option.eq_none_or_eq_some c.resp with hcr | ⟨r, hcr⟩
  · have hq := (callOk_none hstage hcr).mp h
    exact (callOk_none (c := { c with pc := pc }) hstage' hcr).mpr (hq.of_view hv')
  · have hx := (callOk_some hstage hcr).mp h
    have hw : ({ c with pc := pc } : Call).waiters = c.waiters := by
      rw [Call.waiters, Call.waiters, if_neg hc, if_neg hpc]
    exact (callOk_some (c := { c with pc := pc }) hstage' hcr).mpr
      (hx.of_view hv' rfl hw fun _ => hpc)

/-- What the step of a call leaves alone. -/
structure CallerFrame (s t : ClientRun) (c : Call) : Prop where
  calls : t.calls = s.calls
  completed : t.completed = s.completed
  received : t.received = s.received
  parser : t.parser = s.parser
  heap_length : t.heap.length = s.heap.length
  heap : c.pc ≠ .clear → t.heap = s.heap
  got : c.pc ≠ .register → t.got = s.got
  resp : c.pc ≠ .register → t.client.resp = s.client.resp ∨ t.client.resp = none
  call : (∃ pc, t.call = some { c with pc := pc } ∧ t.returned = s.returned) ∨
    ∃ result, c.pc = .unlock result ∧ t.call = none ∧ t.returned = s.returned ++ [c]

theorem callerStep_frame {s t : ClientRun} {c : Call} (h : callerStep s c = some t) :
    CallerFrame s t c := by
  have hmove : ∀ {client : AtClient} {pc : CallPc},
      client.resp = s.client.resp ∨ client.resp = none →
      CallerFrame s ({ s with client := client }.callAt c pc) c := fun hresp =>
    ⟨rfl, rfl, rfl, rfl, rfl, fun _ => rfl, fun _ => rfl, fun _ => hresp, .inl ⟨_, rfl, rfl⟩⟩
  unfold callerStep at h
  cases hpc : c.pc with
  | register =>
      simp only [hpc, Option.some.injEq] at h
      subst h
      exact ⟨rfl, rfl, rfl, rfl, rfl, fun _ => rfl, fun hne => absurd hpc hne,
        fun hne => absurd hpc hne, .inl ⟨_, rfl, rfl⟩⟩
  | clear =>
      simp only [hpc] at h
      obtain ⟨r, -, rfl⟩ := Option.map_eq_some_iff.mp h
      exact ⟨rfl, rfl, rfl, rfl, List.length_modify _ _ _, fun hne => absurd hpc hne,
        fun _ => rfl, fun _ => .inl rfl, .inl ⟨_, rfl, rfl⟩⟩
  | take =>
      simp only [hpc] at h
      obtain ⟨resp, -, rfl⟩ := Option.map_eq_some_iff.mp h
      split_ifs <;> exact hmove (.inl rfl)
  | wait => simp [hpc] at h
  | unlock result =>
      simp only [hpc, Option.some.injEq] at h
      subst h
      exact ⟨rfl, rfl, rfl, rfl, rfl, fun _ => rfl, fun _ => rfl, fun _ => .inl rfl,
        .inr ⟨result, hpc, rfl, rfl⟩⟩
  | unregister result =>
      simp only [hpc, Option.some.injEq] at h
      subst h
      exact hmove (.inr rfl)
  | woken =>
      cases hk : c.kind <;> simp only [hpc, hk, Option.some.injEq] at h <;> subst h <;>
        exact hmove (.inl rfl)
  | timedOut =>
      cases hk : c.kind <;> simp only [hpc, hk, Option.some.injEq] at h <;> subst h <;>
        exact hmove (.inl rfl)
  | _ =>
      simp only [hpc, Option.some.injEq] at h
      subst h
      exact hmove (.inl rfl)

/-- `rt_sem_take(client->resp_notice, resp->timeout)`: the call waits, unless its
completion has been released. -/
theorem callOk_take {s t : ClientRun} {c : Call} (hs : CallOk s c) (hpc : c.pc = .take)
    (h : callerStep s c = some t) : ∃ d, t.call = some d ∧ CallOk t d := by
  simp only [callerStep, hpc] at h
  obtain ⟨resp, hresp, rfl⟩ := Option.map_eq_some_iff.mp h
  have hstage : c.pc.stage = .awaiting := by rw [hpc]; rfl
  have hne : c.pc ≠ .wait := by rw [hpc]; exact nofun
  have hw : c.waiters = [] := if_neg hne
  by_cases htime : s.client.respNotice.value = 0 ∧ resp.timeout = 0
  · rw [if_pos htime]
    exact ⟨_, rfl, callOk_move hs ⟨rfl, rfl, rfl, rfl⟩ hstage hne .timedOut rfl nofun⟩
  · rw [if_neg htime]
    cases hcr : c.resp with
    | none => simp [hcr, ClientRun.deref] at hresp
    | some r =>
        have hzero : (⟨0, []⟩ : RtSemaphore Unit).rtSemTake () = (⟨0, [()]⟩, false) := rfl
        have hone : (⟨1, []⟩ : RtSemaphore Unit).rtSemTake () = (⟨0, []⟩, true) := by decide
        refine ⟨_, rfl, ?_⟩
        cases (callOk_some hstage hcr).mp hs with
        | opened hr hn hp hb ho =>
            rw [hw] at hn
            rw [hn, hzero]
            exact (callOk_some (c := { c with pc := .wait }) rfl hcr).mpr
              (.opened hr rfl hp hb ho)
        | closing hr hn hp ho hb =>
            rw [hw] at hn
            rw [hn, hzero]
            exact (callOk_some (c := { c with pc := .wait }) rfl hcr).mpr
              (.closing hr rfl hp ho hb)
        | released hr hn hp _ hb =>
            rw [hn, hone]
            exact (callOk_served rfl).mpr ⟨⟨hr, rfl, hb⟩, fun _ => hp⟩

/-- The registration opens the exchange. -/
theorem callOk_register {s : ClientRun} {c : Call} (hq : Quiet s) (hid : c.id ∉ s.completed)
    (pc : CallPc) (hstage : pc.stage = .awaiting) (hpc : pc ≠ .wait) :
    CallOk ({ s with client := { s.client with resp := c.resp }, got := [] }.callAt c pc)
      { c with pc := pc } := by
  cases hcr : c.resp with
  | none => exact (callOk_none hstage rfl).mpr ⟨rfl, hq.notice, hq.parser⟩
  | some r =>
      refine (callOk_some hstage rfl).mpr
        (.opened rfl ?_ hid (ParserPc.openFor_of_not_busy hq.parser r) fun hb => ?_)
      · rw [Call.waiters, if_neg hpc]
        exact hq.notice
      · exact absurd (hq.parser.symm.trans hb) Bool.false_ne_true

/-- A call that timed out takes back a registration that is still there, and the parser
is between two lines. -/
theorem callOk_unregister {s : ClientRun} {c : Call} (hs : CallOk s c)
    (hpc : c.pc = .unregister .etimeout)
    (hok : s.client.resp = c.resp ∧ s.parser.pc.busy = false) :
    CallOk ({ s with client := { s.client with resp := none } }.callAt c (.unlock .etimeout))
      { c with pc := .unlock .etimeout } := by
  have hstage : c.pc.stage = .awaiting := by rw [hpc]; rfl
  have hw : c.waiters = [] := if_neg (by simp [hpc])
  refine (callOk_abandoned rfl).mpr ⟨rfl, ?_, hok.2⟩
  cases hcr : c.resp with
  | none => exact ((callOk_none hstage hcr).mp hs).notice
  | some r =>
      cases (callOk_some hstage hcr).mp hs with
      | opened hr hn hp hb ho => exact hw ▸ hn
      | closing hr hn hp ho hb => exact hw ▸ hn
      | released hr hn hp hne hb =>
          rw [hok.1, hcr] at hr
          cases hr

/-- The step of a settled call keeps what holds of it. -/
theorem callOk_caller {s t : ClientRun} {c : Call} (hs : CallOk s c)
    (hok : c.pc = .unregister .etimeout → s.client.resp = c.resp ∧ s.parser.pc.busy = false)
    (h : callerStep s c = some t) :
    (t.call = none ∧ Quiet t) ∨ ∃ d, t.call = some d ∧ CallOk t d := by
  have hmove : ∀ {u : ClientRun} (pc : CallPc), SameView s u → c.pc.stage = .awaiting →
      c.pc ≠ .wait → pc.stage = .awaiting → pc ≠ .wait →
      ∃ d, (u.callAt c pc).call = some d ∧ CallOk (u.callAt c pc) d :=
    fun pc hv hstage hc hstage' hpc => ⟨_, rfl, callOk_move hs hv hstage hc pc hstage' hpc⟩
  have hserve : ∀ {u : ClientRun} (pc : CallPc), SameView s u → c.pc.stage = .served →
      pc.stage = .served → ∃ d, (u.callAt c pc).call = some d ∧ CallOk (u.callAt c pc) d := by
    intro u pc hv hstage hstage'
    obtain ⟨hq, hdone⟩ := (callOk_served hstage).mp hs
    refine ⟨_, rfl, (callOk_served hstage').mpr ⟨?_, ?_⟩⟩
    · exact hq.of_view ⟨hv.resp, hv.notice, hv.completed, hv.parser⟩
    · intro hr
      rw [show (u.callAt c pc).completed = s.completed from hv.completed]
      exact hdone hr
  have hsame : SameView s s := ⟨rfl, rfl, rfl, rfl⟩
  cases hpc : c.pc with
  | take => exact .inr (callOk_take hs hpc h)
  | wait => simp [callerStep, hpc] at h
  | setStatus =>
      simp only [callerStep, hpc, Option.some.injEq] at h
      subst h
      obtain ⟨hq, hid⟩ := (callOk_early (by rw [hpc]; rfl)).mp hs
      exact .inr ⟨_, rfl, (callOk_early rfl).mpr ⟨⟨hq.resp, hq.notice, hq.parser⟩, hid⟩⟩
  | register =>
      simp only [callerStep, hpc, Option.some.injEq] at h
      subst h
      obtain ⟨hq, hid⟩ := (callOk_early (by rw [hpc]; rfl)).mp hs
      cases c.kind with
      | execCmd => exact .inr ⟨_, rfl, callOk_register hq hid .send rfl nofun⟩
      | waitConnect => exact .inr ⟨_, rfl, callOk_register hq hid .loopTest rfl nofun⟩
  | loopTest =>
      simp only [callerStep, hpc, Option.some.injEq] at h
      subst h
      exact .inr (hmove .clear hsame (by rw [hpc]; rfl) (by simp [hpc]) rfl nofun)
  | send =>
      simp only [callerStep, hpc, Option.some.injEq] at h
      subst h
      have hstage : c.pc.stage = .awaiting := by rw [hpc]; rfl
      have hne : c.pc ≠ .wait := by simp [hpc]
      cases hk : c.kind with
      | waitConnect => exact .inr (hmove .take hsame hstage hne rfl nofun)
      | execCmd =>
          cases hcr : c.resp with
          | some r => exact .inr (hmove .clear hsame hstage hne rfl nofun)
          | none =>
              have hq := (callOk_none hstage hcr).mp hs
              refine .inr ⟨_, rfl, (callOk_served rfl).mpr ⟨hq.of_view ⟨rfl, rfl, rfl, rfl⟩, ?_⟩⟩
              exact fun hr => absurd hcr hr
  | clear =>
      simp only [callerStep, hpc] at h
      obtain ⟨r, -, rfl⟩ := Option.map_eq_some_iff.mp h
      have hstage : c.pc.stage = .awaiting := by rw [hpc]; rfl
      have hne : c.pc ≠ .wait := by simp [hpc]
      cases c.kind with
      | execCmd => exact .inr (hmove .take ⟨rfl, rfl, rfl, rfl⟩ hstage hne rfl nofun)
      | waitConnect => exact .inr (hmove .send ⟨rfl, rfl, rfl, rfl⟩ hstage hne rfl nofun)
  | woken =>
      have hstage : c.pc.stage = .served := by rw [hpc]; rfl
      cases hk : c.kind with
      | execCmd =>
          simp only [callerStep, hpc, hk, Option.some.injEq] at h
          subst h
          by_cases hst : s.client.respStatus ≠ .ok
          · exact .inr (hserve _ hsame hstage (by rw [if_pos hst]; rfl))
          · exact .inr (hserve _ hsame hstage (by rw [if_neg hst]; rfl))
      | waitConnect =>
          simp only [callerStep, hpc, hk, Option.some.injEq] at h
          subst h
          exact .inr (hserve _ hsame hstage rfl)
  | timedOut =>
      have hstage : c.pc.stage = .awaiting := by rw [hpc]; rfl
      have hne : c.pc ≠ .wait := by simp [hpc]
      cases hk : c.kind with
      | execCmd =>
          simp only [callerStep, hpc, hk, Option.some.injEq] at h
          subst h
          exact .inr (hmove _ ⟨rfl, rfl, rfl, rfl⟩ hstage hne rfl nofun)
      | waitConnect =>
          simp only [callerStep, hpc, hk, Option.some.injEq] at h
          subst h
          exact .inr (hmove _ hsame hstage hne rfl nofun)
  | free result =>
      simp only [callerStep, hpc, Option.some.injEq] at h
      subst h
      cases result with
      | etimeout => exact .inr (hmove _ hsame (by rw [hpc]; rfl) (by simp [hpc]) rfl nofun)
      | eok => exact .inr (hserve _ hsame (by rw [hpc]; rfl) rfl)
      | error => exact .inr (hserve _ hsame (by rw [hpc]; rfl) rfl)
  | unregister result =>
      simp only [callerStep, hpc, Option.some.injEq] at h
      subst h
      cases result with
      | etimeout => exact .inr ⟨_, rfl, callOk_unregister hs hpc (hok hpc)⟩
      | eok =>
          have hq := ((callOk_served (by rw [hpc]; rfl)).mp hs).1
          exact .inr (hserve _ ⟨hq.resp.symm, rfl, rfl, rfl⟩ (by rw [hpc]; rfl) rfl)
      | error =>
          have hq := ((callOk_served (by rw [hpc]; rfl)).mp hs).1
          exact .inr (hserve _ ⟨hq.resp.symm, rfl, rfl, rfl⟩ (by rw [hpc]; rfl) rfl)
  | unlock result =>
      simp only [callerStep, hpc, Option.some.injEq] at h
      subst h
      refine .inl ⟨rfl, ?_⟩
      cases result with
      | etimeout => exact ((callOk_abandoned (by rw [hpc]; rfl)).mp hs).of_view ⟨rfl, rfl, rfl, rfl⟩
      | eok => exact ((callOk_served (by rw [hpc]; rfl)).mp hs).1.of_view ⟨rfl, rfl, rfl, rfl⟩
      | error => exact ((callOk_served (by rw [hpc]; rfl)).mp hs).1.of_view ⟨rfl, rfl, rfl, rfl⟩

/-- What every step of the parser leaves alone, and what only the release changes. -/
structure ParserFrame (s t : ClientRun) : Prop where
  calls : t.calls = s.calls
  returned : t.returned = s.returned
  heap : t.heap.length = s.heap.length
  quiet : s.parser.pc ≠ .release → t.call = s.call ∧ t.completed = s.completed ∧
    t.client.respNotice = s.client.respNotice

theorem useResp_frame {s : ClientRun} {f : ℕ → AtResponse → ClientRun}
    (h : ∀ r resp, ParserFrame s (f r resp)) : ParserFrame s (s.useResp f) := by
  unfold ClientRun.useResp
  split
  · exact h _ _
  · exact ⟨rfl, rfl, rfl, fun _ => ⟨rfl, rfl, rfl⟩⟩

/-- `rt_sem_release` touches the semaphore, and wakes the call under way or leaves it. -/
theorem release_frame (s : ClientRun) :
    ∃ client call, s.release = { s with client := client, call := call } ∧
      client.resp = s.client.resp ∧ client.respStatus = s.client.respStatus ∧
      (call = s.call ∨ ∃ c, s.call = some c ∧ call = some { c with pc := .woken }) := by
  unfold ClientRun.release ClientRun.wake
  simp only
  split_ifs
  · split
    · next c hc => exact ⟨_, _, rfl, rfl, rfl, .inr ⟨c, hc, rfl⟩⟩
    · exact ⟨_, s.call, rfl, rfl, rfl, .inl rfl⟩
  · exact ⟨_, s.call, rfl, rfl, rfl, .inl rfl⟩

theorem parserStep_frame {s t : ClientRun} (h : parserStep s = some t) : ParserFrame s t := by
  unfold parserStep at h
  cases hpc : s.parser.pc with
  | readline => simp [hpc] at h
  | fault => simp [hpc] at h
  | test =>
      simp only [hpc] at h
      split at h <;> cases h <;> exact ⟨rfl, rfl, rfl, fun _ => ⟨rfl, rfl, rfl⟩⟩
  | copy dst =>
      simp only [hpc, Option.some.injEq] at h
      subst h
      exact ⟨rfl, rfl, List.length_modify _ _ _, fun _ => ⟨rfl, rfl, rfl⟩⟩
  | storeCounts dst =>
      simp only [hpc, Option.some.injEq] at h
      subst h
      exact ⟨rfl, rfl, List.length_modify _ _ _, fun _ => ⟨rfl, rfl, rfl⟩⟩
  | okLine =>
      simp only [hpc] at h
      split_ifs at h <;> cases h
      · exact useResp_frame fun _ _ => ⟨rfl, rfl, rfl, fun _ => ⟨rfl, rfl, rfl⟩⟩
      · exact ⟨rfl, rfl, rfl, fun _ => ⟨rfl, rfl, rfl⟩⟩
  | errorLine =>
      simp only [hpc] at h
      split_ifs at h <;> cases h <;> exact ⟨rfl, rfl, rfl, fun _ => ⟨rfl, rfl, rfl⟩⟩
  | release =>
      simp only [hpc, Option.some.injEq] at h
      subst h
      obtain ⟨client, call, heq, -⟩ :=
        release_frame { s with completed := s.completed ++ s.parser.owner.toList }
      rw [heq]
      exact ⟨rfl, rfl, rfl, fun hne => absurd hpc hne⟩
  | _ =>
      simp only [hpc, Option.some.injEq] at h
      subst h
      first
      | exact useResp_frame fun _ _ => ⟨rfl, rfl, rfl, fun _ => ⟨rfl, rfl, rfl⟩⟩
      | exact ⟨rfl, rfl, rfl, fun _ => ⟨rfl, rfl, rfl⟩⟩

/-- A line that comes while nothing is registered is not looked at. -/
theorem parserStep_idle {s t : ClientRun} (hresp : s.client.resp = none)
    (hb : s.parser.pc.busy = false) (h : parserStep s = some t) :
    t.client = s.client ∧ t.call = s.call ∧ t.completed = s.completed ∧
      t.parser.pc.busy = false ∧ t.heap = s.heap := by
  unfold parserStep at h
  cases hpc : s.parser.pc with
  | readline => simp [hpc] at h
  | test =>
      simp only [hpc, hresp, Option.some.injEq] at h
      subst h
      exact ⟨rfl, rfl, rfl, rfl, rfl⟩
  | reset =>
      simp only [hpc, Option.some.injEq] at h
      subst h
      exact ⟨rfl, rfl, rfl, rfl, rfl⟩
  | _ => simp [hpc, ParserPc.busy] at hb

theorem useResp_eq {s : ClientRun} {r : ℕ} {resp : AtResponse} (hresp : s.client.resp = some r)
    (hr : s.heap[r]? = some resp) (f : ℕ → AtResponse → ClientRun) : s.useResp f = f r resp := by
  have hd : s.deref (some r) = some resp := hr
  rw [ClientRun.useResp, hresp, hd]

/-- A line taken for a registered response is finished with that response, up to the
statement that takes the registration back. -/
theorem parserStep_opened {s t : ClientRun} {c : Call} {r : ℕ} (hcall : s.call = some c)
    (hresp : s.client.resp = some r) (hr : r < s.heap.length) (hopen : s.parser.pc.OpenFor r)
    (howner : s.parser.pc.busy = true → s.parser.owner = some c.id)
    (h : parserStep s = some t) :
    (t.client.resp = some r ∧ t.parser.pc.OpenFor r ∧
        (t.parser.pc.busy = true → t.parser.owner = some c.id)) ∨
      (t.client.resp = none ∧ t.parser.pc = .release ∧ t.parser.owner = some c.id) := by
  have huse := fun f => useResp_eq (s := s) (f := f) hresp (List.getElem?_eq_getElem hr)
  unfold parserStep at h
  cases hpc : s.parser.pc with
  | readline => simp [hpc] at h
  | fault => simp [hpc] at h
  | release => simp [hpc, ParserPc.OpenFor] at hopen
  | test =>
      simp only [hpc, hresp, hcall, Option.some.injEq] at h
      subst h
      exact .inl ⟨hresp, trivial, fun _ => rfl⟩
  | reset =>
      simp only [hpc, Option.some.injEq] at h
      subst h
      exact .inl ⟨hresp, trivial, nofun⟩
  | clearResp =>
      have ho := howner (by rw [hpc]; rfl)
      simp only [hpc, Option.some.injEq] at h
      subst h
      exact .inr ⟨rfl, rfl, ho⟩
  | size =>
      have ho := howner (by rw [hpc]; rfl)
      simp only [hpc, huse, Option.some.injEq] at h
      subst h
      split_ifs <;> exact .inl ⟨hresp, trivial, fun _ => ho⟩
  | loadBuf =>
      have ho := howner (by rw [hpc]; rfl)
      simp only [hpc, huse, Option.some.injEq] at h
      subst h
      exact .inl ⟨hresp, rfl, fun _ => ho⟩
  | okLine =>
      have ho := howner (by rw [hpc]; rfl)
      simp only [hpc, huse] at h
      split_ifs at h <;> cases h <;> exact .inl ⟨hresp, trivial, fun _ => ho⟩
  | errorLine =>
      have ho := howner (by rw [hpc]; rfl)
      simp only [hpc] at h
      split_ifs at h <;> cases h <;> exact .inl ⟨hresp, trivial, fun _ => ho⟩
  | countLine =>
      have ho := howner (by rw [hpc]; rfl)
      simp only [hpc, huse, Option.some.injEq] at h
      subst h
      split_ifs <;> exact .inl ⟨hresp, trivial, fun _ => ho⟩
  | countSet =>
      have ho := howner (by rw [hpc]; rfl)
      simp only [hpc, huse, Option.some.injEq] at h
      subst h
      split_ifs <;> exact .inl ⟨hresp, trivial, fun _ => ho⟩
  | loadCounts =>
      have ho := howner (by rw [hpc]; rfl)
      simp only [hpc, huse, Option.some.injEq] at h
      subst h
      exact .inl ⟨hresp, rfl, fun _ => ho⟩
  | _ =>
      have ho := howner (by rw [hpc]; rfl)
      simp only [hpc, Option.some.injEq] at h
      subst h
      exact .inl ⟨hresp, trivial, fun _ => ho⟩

/-- `rt_sem_release` by the parser: a waiting call comes back with its completion, and
otherwise the completion is counted for it. -/
theorem callOk_release {s t : ClientRun} {c : Call} {r : ℕ} (hcall : s.call = some c)
    (hcr : c.resp = some r)
    (hresp : s.client.resp = none) (hnotice : s.client.respNotice = ⟨0, c.waiters⟩)
    (hstage : c.pc.stage = .awaiting) (howner : s.parser.owner = some c.id)
    (hpc : s.parser.pc = .release) (h : parserStep s = some t) :
    t.completed = s.completed ++ [c.id] ∧
      ∃ d, t.call = some d ∧ d.id = c.id ∧ d.resp = c.resp ∧ CallOk t d := by
  have hmem : c.id ∈ s.completed ++ [c.id] := List.mem_append_right _ List.mem_cons_self
  simp only [parserStep, hpc, howner, Option.some.injEq, Option.toList_some] at h
  subst h
  by_cases hw : c.pc = .wait
  · rw [Call.waiters, if_pos hw] at hnotice
    simp only [ClientRun.release, hnotice, rtSemRelease, Option.isSome_some, if_true,
      ClientRun.wake, hcall]
    exact ⟨rfl, _, rfl, rfl, rfl, (callOk_served rfl).mpr ⟨⟨hresp, rfl, rfl⟩, fun _ => hmem⟩⟩
  · rw [Call.waiters, if_neg hw] at hnotice
    have hone : (0 : UInt16) + 1 = 1 := by decide
    simp only [ClientRun.release, hnotice, rtSemRelease, hone, Option.isSome_none,
      Bool.false_eq_true, if_false]
    refine ⟨rfl, c, hcall, rfl, rfl, ?_⟩
    exact (callOk_some hstage hcr).mpr (.released hresp rfl hmem hw rfl)

/-- The step of the parser in an exchange. -/
theorem exchange_parserStep {s t : ClientRun} {c : Call} {r : ℕ} (hx : Exchange s c r)
    (hcall : s.call = some c) (hcr : c.resp = some r) (hstage : c.pc.stage = .awaiting)
    (hr : r < s.heap.length) (h : parserStep s = some t) :
    (t.completed = s.completed ∨ c.id ∉ s.completed ∧ t.completed = s.completed ++ [c.id]) ∧
      ∃ d, t.call = some d ∧ d.id = c.id ∧ d.resp = c.resp ∧ CallOk t d := by
  cases hx with
  | opened hresp hn hp hopen howner =>
      have hne : s.parser.pc ≠ .release := by
        intro hpc
        rw [hpc] at hopen
        exact hopen
      obtain ⟨htcall, hcompleted, hnotice⟩ := (parserStep_frame h).quiet hne
      have hp' : c.id ∉ t.completed := by rwa [hcompleted]
      refine ⟨.inl hcompleted, c, htcall.trans hcall, rfl, rfl, (callOk_some hstage hcr).mpr ?_⟩
      rcases parserStep_opened hcall hresp hr hopen howner h with ⟨h1, h2, h3⟩ | ⟨h1, h2, h3⟩
      · exact .opened h1 (hnotice.trans hn) hp' h2 h3
      · exact .closing h1 (hnotice.trans hn) hp' h3 h2
  | closing hresp hn hp howner hpc =>
      obtain ⟨hcompleted, hd⟩ := callOk_release hcall hcr hresp hn hstage howner hpc h
      exact ⟨.inr ⟨hp, hcompleted⟩, hd⟩
  | released hresp hn hp hw hb =>
      obtain ⟨hclient, htcall, hcompleted, hb', -⟩ := parserStep_idle hresp hb h
      refine ⟨.inl hcompleted, c, htcall.trans hcall, rfl, rfl, (callOk_some hstage hcr).mpr ?_⟩
      exact .released (by rw [hclient, hresp]) (by rw [hclient, hn]) (by rwa [hcompleted]) hw hb'

theorem quiet_parserStep {s t : ClientRun} (hq : Quiet s) (h : parserStep s = some t) :
    Quiet t ∧ t.call = s.call ∧ t.completed = s.completed := by
  obtain ⟨hclient, hcall, hcompleted, hb, -⟩ := parserStep_idle hq.resp hq.parser h
  exact ⟨⟨by rw [hclient, hq.resp], by rw [hclient, hq.notice], hb⟩, hcall, hcompleted⟩

/-- The step of the parser keeps what holds of the call under way; only the release
completes it. -/
theorem callOk_parserStep {s t : ClientRun} {c : Call} (hs : CallOk s c) (hcall : s.call = some c)
    (hvalid : ∀ r ∈ c.resp, r < s.heap.length) (h : parserStep s = some t) :
    (t.completed = s.completed ∨ c.id ∉ s.completed ∧ t.completed = s.completed ++ [c.id]) ∧
      ∃ d, t.call = some d ∧ d.id = c.id ∧ d.resp = c.resp ∧ CallOk t d := by
  have hquiet : Quiet s → (Quiet t → t.completed = s.completed → CallOk t c) →
      (t.completed = s.completed ∨ c.id ∉ s.completed ∧ t.completed = s.completed ++ [c.id]) ∧
        ∃ d, t.call = some d ∧ d.id = c.id ∧ d.resp = c.resp ∧ CallOk t d := by
    intro hq hok
    obtain ⟨hq', htcall, hcompleted⟩ := quiet_parserStep hq h
    exact ⟨.inl hcompleted, c, htcall.trans hcall, rfl, rfl, hok hq' hcompleted⟩
  cases hstage : c.pc.stage with
  | early =>
      obtain ⟨hq, hid⟩ := (callOk_early hstage).mp hs
      exact hquiet hq fun hq' heq => (callOk_early hstage).mpr ⟨hq', by rwa [heq]⟩
  | awaiting =>
      cases hcr : c.resp with
      | none =>
          have hq := (callOk_none hstage hcr).mp hs
          rw [← hcr]
          exact hquiet hq fun hq' _ => (callOk_none hstage hcr).mpr hq'
      | some r =>
          have hx := (callOk_some hstage hcr).mp hs
          rw [← hcr]
          exact exchange_parserStep hx hcall hcr hstage (hvalid r hcr) h
  | served =>
      obtain ⟨hq, hdone⟩ := (callOk_served hstage).mp hs
      exact hquiet hq fun hq' heq => (callOk_served hstage).mpr ⟨hq', by rwa [heq]⟩
  | abandoned =>
      have hq := (callOk_abandoned hstage).mp hs
      exact hquiet hq fun hq' _ => (callOk_abandoned hstage).mpr hq'

/-- The thread timer takes a waiting call off the semaphore's list. -/
theorem callOk_timeout {s : ClientRun} {c : Call} (hs : CallOk s c) (hpc : c.pc = .wait) :
    CallOk ({ s with client := { s.client with
        respNotice := s.client.respNotice.rtThreadTimeout () } }.callAt c .timedOut)
      { c with pc := .timedOut } := by
  have hstage : c.pc.stage = .awaiting := by rw [hpc]; rfl
  have hw : c.waiters = [()] := if_pos hpc
  rcases Option.eq_none_or_eq_some c.resp with hcr | ⟨r, hcr⟩
  · have hq := (callOk_none hstage hcr).mp hs
    refine (callOk_none (c := { c with pc := .timedOut }) rfl hcr).mpr ⟨hq.resp, ?_, hq.parser⟩
    show s.client.respNotice.rtThreadTimeout () = _
    rw [hq.notice]
    rfl
  · have hback : ∀ {u : RtSemaphore Unit}, u = ⟨0, c.waiters⟩ → u.rtThreadTimeout () = ⟨0, []⟩ := by
      rintro u rfl
      rw [hw]
      rfl
    refine (callOk_some (c := { c with pc := .timedOut }) rfl hcr).mpr ?_
    cases (callOk_some hstage hcr).mp hs with
    | opened hr hn hp hb ho => exact .opened hr (hback hn) hp hb ho
    | closing hr hn hp ho hb => exact .closing hr (hback hn) hp ho hb
    | released hr hn hp hne hb => exact absurd hpc hne

/-- A call that stands at its return with `RT_EOK` has its completion. -/
theorem CallOk.completed_of_eok {s : ClientRun} {c : Call} (h : CallOk s c)
    (hresp : c.resp ≠ none) (hpc : c.pc = .unlock .eok) : c.id ∈ s.completed :=
  ((callOk_served (by rw [hpc]; rfl)).mp h).2 hresp

end AtCmd
