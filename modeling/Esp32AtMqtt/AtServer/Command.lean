import Esp32AtMqtt.AtServer.Bounds

/-!
# The commands of the AT server

What stands behind the name of a command says which of its handlers is asked for.
`at_cmd_process` classifies it by up to three characters, those of the end mark included, and it
expects a carriage return there.
-/

namespace AtSrv

/-- The handlers of a command. -/
inductive Kind
  | test
  | query
  | setup
  | exec
  deriving DecidableEq, Repr

def Call.kind : Call → Kind
  | .test => .test
  | .query => .query
  | .setup _ => .setup
  | .exec => .exec

namespace Cmd

/-- The command has the handler. -/
def Has (cmd : Cmd) : Kind → Prop
  | .test => cmd.test.isSome
  | .query => cmd.query.isSome
  | .setup => cmd.setup.isSome
  | .exec => cmd.exec.isSome

/-- What a call returns. -/
def result (cmd : Cmd) : Call → Option AtResult
  | .test => cmd.test
  | .query => cmd.query
  | .setup args => cmd.setup.map (· args)
  | .exec => cmd.exec

/-- The arguments satisfy the format of the command. -/
def Accepts (cmd : Cmd) (args : List UInt8) : Prop :=
  ∃ expr, cmd.argsExpr = some expr ∧ atCheckArgs args expr = true

/-- Arguments are looked at only when there is a format. -/
def Takes (cmd : Cmd) : Prop := cmd.setup = none ∨ cmd.argsExpr.isSome

/-- The arguments do not lead to a call. -/
def Declines (cmd : Cmd) (args : List UInt8) : Prop :=
  cmd.setup = none ∨ ∃ expr, cmd.argsExpr = some expr ∧ atCheckArgs args expr = false

end Cmd

/-- The number of final results among what is printed. -/
def finals (prints : List Print) : ℕ :=
  prints.countP fun p => p = .line "OK" ∨ p = .line "ERROR"

/-- `AT_CMD_END_MARK`, in the three configurations. -/
def IsEndMark (endMark : List UInt8) : Prop :=
  endMark = [atCmdCr, atCmdLf] ∨ endMark = [atCmdCr] ∨ endMark = [atCmdLf]

/-- The end mark begins with a carriage return. -/
def EndsCr (endMark : List UInt8) : Prop := endMark.head? = some atCmdCr

instance : DecidablePred EndsCr :=
  fun endMark => inferInstanceAs (Decidable (endMark.head? = some atCmdCr))

/-- What stands behind the name asks for a handler. -/
def AsksRest (cmd : Cmd) : Kind → List UInt8 → Prop
  | .test, chs => chs = [atCmdEqualMark, atCmdQuestionMark]
  | .query, chs => chs = [atCmdQuestionMark]
  | .setup, chs => cmd.Accepts chs ∧
      ((∃ args, chs = atCmdEqualMark :: args ∧ args ≠ [atCmdQuestionMark]) ∨
        ∃ d, isDigit d ∧ chs = [d])
  | .exec, chs => chs = []

/-- What may stand behind the name of a command. -/
def Regular (cmd : Cmd) (endMark : List UInt8) : List UInt8 → Prop
  | [] => True
  | ch :: chs =>
      if ch = atCmdCr then cmd.exec = none
      else if ch = atCmdEqualMark then
        if chs = [atCmdQuestionMark] then
          EndsCr endMark ∨ cmd.test = none ∧ cmd.Declines (ch :: chs)
        else if [atCmdQuestionMark, atCmdCr] <+: chs then
          cmd.test = none ∧ ¬ (cmd.Has .setup ∧ cmd.Accepts (ch :: chs))
        else cmd.Takes
      else if ch = atCmdQuestionMark then
        if chs = [] then EndsCr endMark else chs.head? = some atCmdCr ∧ cmd.query = none
      else
        if chs = [] then EndsCr endMark ∧ cmd.Takes
        else chs.head? = some atCmdCr ∧ cmd.Declines (ch :: chs)

theorem isDigit_ne {d ch : UInt8} (hd : isDigit d = true) (hch : isDigit ch = false) : d ≠ ch := by
  rintro rfl
  rw [hd] at hch
  cases hch

section Process

variable {cmd : Cmd} {chs : List UInt8}

/-- The command has called what it is asked for, and one final result is printed. -/
structure Served (cmd : Cmd) (chs : List UInt8) (out : Outcome) : Prop where
  one : out.calls.length ≤ 1
  called : ∀ kind, cmd.Has kind → ((∃ c ∈ out.calls, c.kind = kind) ↔ AsksRest cmd kind chs)
  final : (∀ c ∈ out.calls, cmd.result c ≠ some .null) → finals out.prints = 1

theorem finals_atServerPrintResult {result : AtResult} (h : result ≠ .null) :
    finals (atServerPrintResult result) = 1 := by
  cases result with
  | null => exact absurd rfl h
  | ok => decide
  | faile => decide
  | cmdErr => decide
  | checkFaile => decide
  | parseFaile => decide

theorem asksRest_nil {kind : Kind} : AsksRest cmd kind [] ↔ kind = .exec := by
  cases kind <;> simp [AsksRest]

theorem not_asksRest {kind : Kind} {ch : UInt8} (hequal : ch ≠ atCmdEqualMark)
    (hquestion : ch ≠ atCmdQuestionMark) (hdigit : ¬ isDigit ch = true) :
    ¬ AsksRest cmd kind (ch :: chs) := by
  cases kind with
  | test => simp [AsksRest, hequal]
  | query => simp [AsksRest, hquestion]
  | exec => simp [AsksRest]
  | setup =>
      rintro ⟨-, ⟨args, heq, -⟩ | ⟨d, hd, heq⟩⟩
      · exact hequal (List.cons.inj heq).1
      · exact hdigit ((List.cons.inj heq).1 ▸ hd)

theorem asksRest_equal {kind : Kind} : AsksRest cmd kind (atCmdEqualMark :: chs) ↔
    kind = .test ∧ chs = [atCmdQuestionMark] ∨
      kind = .setup ∧ chs ≠ [atCmdQuestionMark] ∧ cmd.Accepts (atCmdEqualMark :: chs) := by
  cases kind with
  | test => simp [AsksRest]
  | query => simp [AsksRest, atCmdEqualMark, atCmdQuestionMark]
  | exec => simp [AsksRest]
  | setup =>
      simp only [AsksRest, List.cons.injEq, reduceCtorEq, false_and, false_or, true_and]
      constructor
      · rintro ⟨hok, ⟨args, rfl, hargs⟩ | ⟨d, hd, heq, -⟩⟩
        · exact ⟨hargs, hok⟩
        · exact absurd heq.symm (isDigit_ne hd (by decide))
      · rintro ⟨hargs, hok⟩
        exact ⟨hok, .inl ⟨chs, rfl, hargs⟩⟩

theorem asksRest_question {kind : Kind} : AsksRest cmd kind (atCmdQuestionMark :: chs) ↔
    kind = .query ∧ chs = [] := by
  cases kind <;> simp [AsksRest, atCmdEqualMark, atCmdQuestionMark, isDigit]

theorem asksRest_digit {kind : Kind} {d : UInt8} (hd : isDigit d = true) :
    AsksRest cmd kind (d :: chs) ↔ kind = .setup ∧ chs = [] ∧ cmd.Accepts [d] := by
  have hequal : d ≠ atCmdEqualMark := isDigit_ne hd (by decide)
  have hquestion : d ≠ atCmdQuestionMark := isDigit_ne hd (by decide)
  cases kind with
  | test => simp [AsksRest, hequal]
  | query => simp [AsksRest, hquestion]
  | exec => simp [AsksRest]
  | setup =>
      simp only [AsksRest, List.cons.injEq, hequal, false_and, exists_false, false_or, true_and]
      constructor
      · rintro ⟨hok, e, -, rfl, rfl⟩
        exact ⟨rfl, hok⟩
      · rintro ⟨rfl, hok⟩
        exact ⟨hok, d, hd, rfl, rfl⟩

/-- At most one handler is asked for. -/
theorem AsksRest.unique {k l : Kind} (hk : AsksRest cmd k chs) (hl : AsksRest cmd l chs) :
    k = l := by
  cases chs with
  | nil => rw [asksRest_nil.mp hk, asksRest_nil.mp hl]
  | cons ch chs =>
      by_cases hequal : ch = atCmdEqualMark
      · subst hequal
        rcases asksRest_equal.mp hk with ⟨rfl, heq⟩ | ⟨rfl, hne, -⟩ <;>
          rcases asksRest_equal.mp hl with ⟨rfl, heq'⟩ | ⟨rfl, hne', -⟩
        · rfl
        · exact absurd heq hne'
        · exact absurd heq' hne
        · rfl
      by_cases hquestion : ch = atCmdQuestionMark
      · subst hquestion
        rw [(asksRest_question.mp hk).1, (asksRest_question.mp hl).1]
      by_cases hdigit : isDigit ch = true
      · rw [((asksRest_digit hdigit).mp hk).1, ((asksRest_digit hdigit).mp hl).1]
      · exact absurd hk (not_asksRest hequal hquestion hdigit)

/-- None of the handlers that there are is asked for. -/
def NoneAsked (cmd : Cmd) (chs : List UInt8) : Prop :=
  ∀ kind, cmd.Has kind → ¬ AsksRest cmd kind chs

/-- A refusal is right when nothing is asked for that there is. -/
theorem served_refusal {result : AtResult} (h : result ≠ .null) :
    Served cmd chs (refusal result) ↔ NoneAsked cmd chs := by
  constructor
  · intro hs kind hhas hasks
    obtain ⟨c, hc, -⟩ := (hs.called kind hhas).mpr hasks
    cases hc
  · intro hno
    refine ⟨Nat.zero_le _, fun kind hhas => ?_, fun _ => finals_atServerPrintResult h⟩
    exact iff_of_false (fun ⟨c, hc, _⟩ => nomatch hc) (hno kind hhas)

/-- A call is right when it is asked for. -/
theorem served_call {call : Call} {result : AtResult} (h : cmd.result call = some result)
    (hhas : cmd.Has call.kind) :
    Served cmd chs ⟨[call], atServerPrintResult result⟩ ↔ AsksRest cmd call.kind chs := by
  constructor
  · intro hs
    exact (hs.called _ hhas).mp ⟨call, List.mem_singleton_self _, rfl⟩
  · intro hasks
    refine ⟨Nat.le_refl _, fun kind _ => ⟨?_, fun hk => ?_⟩, fun hnull => ?_⟩
    · rintro ⟨c, hc, rfl⟩
      exact List.mem_singleton.mp hc ▸ hasks
    · exact ⟨call, List.mem_singleton_self _, hasks.unique hk⟩
    · refine finals_atServerPrintResult fun heq => hnull call (List.mem_singleton_self _) ?_
      rw [h, heq]

/-- Without a final result nothing is right. -/
theorem not_served_silent {cmdArgs : List UInt8} (h : atCmdProcess cmd cmdArgs = some ⟨[], []⟩) :
    ¬ ∃ out, atCmdProcess cmd cmdArgs = some out ∧ Served cmd chs out := by
  rintro ⟨out, hout, hserved⟩
  rw [← Option.some.inj (h.symm.trans hout)] at hserved
  exact absurd (hserved.final fun _ hc => by cases hc) (by decide)

section Invoke

variable {handler : Option AtResult} (call : Call) (h : cmd.result call = handler)
  (hhas : cmd.Has call.kind ↔ handler.isSome)

include h hhas

/-- What is asked for is served, be there a handler or not. -/
theorem served_invoke (hasks : AsksRest cmd call.kind chs) :
    Served cmd chs (invoke handler call) := by
  cases handler with
  | none =>
      refine (served_refusal (by decide)).mpr fun kind hkind hasks' => ?_
      rw [hasks'.unique hasks, hhas] at hkind
      cases hkind
  | some result => exact (served_call h (hhas.mpr rfl)).mpr hasks

/-- What is not asked for is served only when there is no handler, and nothing else is asked
for. -/
theorem served_invoke_iff (hno : ¬ AsksRest cmd call.kind chs) :
    Served cmd chs (invoke handler call) ↔ handler = none ∧ NoneAsked cmd chs := by
  cases handler with
  | none => simp [invoke, served_refusal]
  | some result => simp [invoke, served_call h (hhas.mpr rfl), hno]

/-- Where nothing is asked for, a handler must be missing. -/
theorem served_invoke_unasked {cmdArgs : List UInt8}
    (hprocess : atCmdProcess cmd cmdArgs = some (invoke handler call))
    (hno : ∀ kind, ¬ AsksRest cmd kind chs) :
    (∃ out, atCmdProcess cmd cmdArgs = some out ∧ Served cmd chs out) ↔ handler = none := by
  simp only [hprocess, Option.some.injEq, exists_eq_left']
  rw [served_invoke_iff call h hhas (hno _)]
  exact and_iff_left fun kind _ => hno kind

end Invoke

/-- The branch of `at_cmd_process` with the arguments. -/
def setupOutcome (cmd : Cmd) (cmdArgs : List UInt8) : Option Outcome :=
  match cmd.setup with
  | none => some (refusal .cmdErr)
  | some setup =>
      cmd.argsExpr.map fun argsExpr =>
        if atCheckArgs cmdArgs argsExpr then
          ⟨[.setup cmdArgs], atServerPrintResult (setup cmdArgs)⟩
        else refusal .checkFaile

/-- The characters of the end mark are not counted. -/
theorem atCheckArgs_append {args endMark expr : List UInt8} (h : IsEndMark endMark) :
    atCheckArgs (args ++ endMark) expr = atCheckArgs args expr := by
  have hcount : endMark.count 0x2C = 0 := by
    rcases h with rfl | rfl | rfl <;> rfl
  simp only [atCheckArgs, List.count_append, hcount, Nat.add_zero]

/-- When the arguments are looked at, what is asked for is settled by them. -/
theorem served_setup {endMark : List UInt8} (h : IsEndMark endMark) :
    (∃ out, setupOutcome cmd (chs ++ endMark) = some out ∧ Served cmd chs out) ↔
      (cmd.Declines chs → NoneAsked cmd chs) ∧
      (¬ cmd.Declines chs → cmd.argsExpr.isSome ∧ AsksRest cmd .setup chs) := by
  rw [setupOutcome]
  cases hsetup : cmd.setup with
  | none =>
      have hdeclines : cmd.Declines chs := .inl hsetup
      simp [served_refusal, hdeclines]
  | some setup =>
      cases hexpr : cmd.argsExpr with
      | none =>
          have hdeclines : ¬ cmd.Declines chs := by
            rintro (hnone | ⟨expr, hsome, -⟩)
            · exact absurd (hsetup.symm.trans hnone) (by simp)
            · exact absurd (hexpr.symm.trans hsome) (by simp)
          simp [hdeclines]
      | some expr =>
          simp only [Option.map_some, Option.some.injEq, exists_eq_left', atCheckArgs_append h,
            Option.isSome_some, true_and]
          cases hok : atCheckArgs chs expr with
          | false =>
              have hdeclines : cmd.Declines chs := .inr ⟨expr, hexpr, hok⟩
              simp [served_refusal, hdeclines]
          | true =>
              have hdeclines : ¬ cmd.Declines chs := by
                rintro (hnone | ⟨expr', hsome, hno⟩)
                · exact absurd (hsetup.symm.trans hnone) (by simp)
                · rw [← Option.some.inj (hexpr.symm.trans hsome), hok] at hno
                  cases hno
              have hresult : cmd.result (.setup (chs ++ endMark)) =
                  some (setup (chs ++ endMark)) := by
                rw [Cmd.result, hsetup, Option.map_some]
              have hhas : cmd.Has .setup := by
                rw [Cmd.Has, hsetup]
                rfl
              rw [if_pos rfl, served_call hresult hhas]
              simp [hdeclines, Call.kind]

theorem Cmd.Declines.not_accepts {args : List UInt8} (h : cmd.Declines args)
    (hhas : cmd.Has .setup) : ¬ cmd.Accepts args := by
  rintro ⟨expr, hexpr, hok⟩
  rcases h with hnone | ⟨expr', hexpr', hno⟩
  · rw [Cmd.Has, hnone] at hhas
    cases hhas
  · rw [← Option.some.inj (hexpr.symm.trans hexpr'), hok] at hno
    cases hno

/-- Arguments that are asked for by what stands behind the name are served when there is a
format. -/
theorem served_setup_asked {endMark : List UInt8} (h : IsEndMark endMark)
    (hasks : ∀ kind, AsksRest cmd kind chs ↔ kind = .setup ∧ cmd.Accepts chs) :
    (∃ out, setupOutcome cmd (chs ++ endMark) = some out ∧ Served cmd chs out) ↔ cmd.Takes := by
  rw [served_setup h]
  constructor
  · rintro ⟨-, hcall⟩
    by_cases hdeclines : cmd.Declines chs
    · rcases hdeclines with hnone | ⟨expr, hexpr, -⟩
      · exact .inl hnone
      · exact .inr (hexpr ▸ rfl)
    · exact .inr (hcall hdeclines).1
  · intro htakes
    refine ⟨fun hdeclines kind hhas hkind => ?_, fun hdeclines => ?_⟩
    · obtain ⟨rfl, hok⟩ := (hasks kind).mp hkind
      exact hdeclines.not_accepts hhas hok
    · have hsome : cmd.argsExpr.isSome := htakes.resolve_left fun hnone => hdeclines (.inl hnone)
      obtain ⟨expr, hexpr⟩ := Option.isSome_iff_exists.mp hsome
      have hok : atCheckArgs chs expr = true :=
        Bool.not_eq_false _ ▸ fun hno => hdeclines (.inr ⟨expr, hexpr, hno⟩)
      exact ⟨hsome, (hasks .setup).mpr ⟨rfl, expr, hexpr, hok⟩⟩

/-- Arguments that are not asked for are served when they do not lead to a call, and nothing else
is asked for. -/
theorem served_setup_unasked {endMark : List UInt8} (h : IsEndMark endMark)
    (hno : ¬ AsksRest cmd .setup chs) :
    (∃ out, setupOutcome cmd (chs ++ endMark) = some out ∧ Served cmd chs out) ↔
      cmd.Declines chs ∧ NoneAsked cmd chs := by
  rw [served_setup h]
  constructor
  · rintro ⟨hrefused, hcall⟩
    have hdeclines : cmd.Declines chs := by
      by_contra hcalled
      exact hno (hcall hcalled).2
    exact ⟨hdeclines, hrefused hdeclines⟩
  · rintro ⟨hdeclines, hnone⟩
    exact ⟨fun _ => hnone, fun hcalled => absurd hdeclines hcalled⟩

/-! ### The branches of `at_cmd_process` -/

theorem atCmdProcess_exec : atCmdProcess cmd (atCmdCr :: chs) = some (invoke cmd.exec .exec) := by
  simp [atCmdProcess, atCmdCr, atCmdEqualMark, atCmdQuestionMark, isDigit]

theorem atCmdProcess_query :
    atCmdProcess cmd (atCmdQuestionMark :: atCmdCr :: chs) = some (invoke cmd.query .query) := by
  simp [atCmdProcess, atCmdCr, atCmdEqualMark, atCmdQuestionMark]

theorem atCmdProcess_question {ch : UInt8} (h : ch ≠ atCmdCr) :
    atCmdProcess cmd (atCmdQuestionMark :: ch :: chs) = some ⟨[], []⟩ := by
  have hdiffer : atCmdQuestionMark ≠ atCmdEqualMark ∧ atCmdQuestionMark ≠ atCmdCr ∧
      isDigit atCmdQuestionMark = false := by decide
  simp [atCmdProcess, h, hdiffer]

theorem atCmdProcess_test :
    atCmdProcess cmd (atCmdEqualMark :: atCmdQuestionMark :: atCmdCr :: chs) =
      some (invoke cmd.test .test) := by
  simp [atCmdProcess]

theorem atCmdProcess_equal (h : ¬ [atCmdQuestionMark, atCmdCr] <+: chs) :
    atCmdProcess cmd (atCmdEqualMark :: chs) = setupOutcome cmd (atCmdEqualMark :: chs) := by
  have hdiffer : atCmdEqualMark ≠ atCmdQuestionMark := by decide
  have hno : ¬ (chs.getD 0 0 = atCmdQuestionMark ∧ chs.getD 1 0 = atCmdCr) := by
    rintro ⟨hquestion, hcr⟩
    match chs, hquestion, hcr with
    | _ :: _ :: _, rfl, rfl => exact h ⟨_, rfl⟩
  simp only [atCmdProcess, List.getD_cons_zero, List.getD_cons_succ, hno, hdiffer, true_and,
    false_and, if_false, true_or, if_true]
  rfl

theorem atCmdProcess_digit {d : UInt8} (hd : isDigit d = true) :
    atCmdProcess cmd (d :: atCmdCr :: chs) = setupOutcome cmd (d :: atCmdCr :: chs) := by
  have hequal : d ≠ atCmdEqualMark := isDigit_ne hd (by decide)
  have hquestion : d ≠ atCmdQuestionMark := isDigit_ne hd (by decide)
  simp [atCmdProcess, hequal, hquestion, hd]
  rfl

theorem atCmdProcess_digits {d ch : UInt8} (hd : isDigit d = true) (h : ch ≠ atCmdCr) :
    atCmdProcess cmd (d :: ch :: chs) = some ⟨[], []⟩ := by
  have hequal : d ≠ atCmdEqualMark := isDigit_ne hd (by decide)
  have hcr : d ≠ atCmdCr := isDigit_ne hd (by decide)
  simp [atCmdProcess, hequal, h, hcr]

/-! ### What is served -/

variable {endMark : List UInt8}

theorem IsEndMark.eq_cons (h : IsEndMark endMark) :
    ∃ ch chs, endMark = ch :: chs ∧ ch ≠ atCmdQuestionMark ∧ (EndsCr endMark ↔ ch = atCmdCr) := by
  rcases h with rfl | rfl | rfl
  · exact ⟨_, _, rfl, by decide, by decide⟩
  · exact ⟨_, _, rfl, by decide, by decide⟩
  · exact ⟨_, _, rfl, by decide, by decide⟩

theorem served_exec (hcr : EndsCr endMark) :
    ∃ out, atCmdProcess cmd endMark = some out ∧ Served cmd [] out := by
  obtain ⟨chs, rfl⟩ : ∃ chs, endMark = atCmdCr :: chs := List.head?_eq_some_iff.mp hcr
  exact ⟨_, atCmdProcess_exec, served_invoke .exec rfl Iff.rfl rfl⟩

/-- A carriage return in a line is taken for its end. -/
theorem served_cr :
    (∃ out, atCmdProcess cmd (atCmdCr :: chs ++ endMark) = some out ∧
      Served cmd (atCmdCr :: chs) out) ↔ cmd.exec = none := by
  have hno : ∀ kind, ¬ AsksRest cmd kind (atCmdCr :: chs) :=
    fun kind => not_asksRest (by decide) (by decide) (by decide)
  exact served_invoke_unasked .exec rfl Iff.rfl atCmdProcess_exec hno

theorem served_question (h : IsEndMark endMark) :
    (∃ out, atCmdProcess cmd (atCmdQuestionMark :: chs ++ endMark) = some out ∧
      Served cmd (atCmdQuestionMark :: chs) out) ↔
      if chs = [] then EndsCr endMark else chs.head? = some atCmdCr ∧ cmd.query = none := by
  obtain ⟨e, es, rfl, -, hcr⟩ := h.eq_cons
  cases chs with
  | nil =>
      rw [if_pos rfl, hcr]
      by_cases he : e = atCmdCr
      · subst he
        refine iff_of_true ⟨_, atCmdProcess_query, ?_⟩ rfl
        exact served_invoke .query rfl Iff.rfl (asksRest_question.mpr ⟨rfl, rfl⟩)
      · exact iff_of_false (not_served_silent (atCmdProcess_question he)) he
  | cons ch chs =>
      have hno : ∀ kind, ¬ AsksRest cmd kind (atCmdQuestionMark :: ch :: chs) :=
        fun kind hasks => nomatch (asksRest_question.mp hasks).2
      rw [if_neg (List.cons_ne_nil ch chs), List.head?_cons, Option.some.injEq]
      by_cases hch : ch = atCmdCr
      · subst hch
        rw [and_iff_right rfl]
        exact served_invoke_unasked .query rfl Iff.rfl atCmdProcess_query hno
      · exact iff_of_false (not_served_silent (atCmdProcess_question hch)) fun hand => hch hand.1

theorem served_digit {d : UInt8} (hd : isDigit d = true) (h : IsEndMark endMark) :
    (∃ out, atCmdProcess cmd (d :: chs ++ endMark) = some out ∧ Served cmd (d :: chs) out) ↔
      if chs = [] then EndsCr endMark ∧ cmd.Takes
      else chs.head? = some atCmdCr ∧ cmd.Declines (d :: chs) := by
  have hmark := h
  obtain ⟨e, es, rfl, -, hcr⟩ := h.eq_cons
  cases chs with
  | nil =>
      rw [if_pos rfl, hcr]
      by_cases he : e = atCmdCr
      · subst he
        have hasks : ∀ kind, AsksRest cmd kind [d] ↔ kind = .setup ∧ cmd.Accepts [d] :=
          fun kind => (asksRest_digit hd).trans (and_congr_right fun _ => and_iff_right rfl)
        have hserved := served_setup_asked hmark hasks
        simp only [List.cons_append, List.nil_append, atCmdProcess_digit hd, true_and]
        exact hserved
      · exact iff_of_false (not_served_silent (atCmdProcess_digits hd he)) fun hand => he hand.1
  | cons ch chs =>
      have hno : ∀ kind, ¬ AsksRest cmd kind (d :: ch :: chs) :=
        fun kind hasks => nomatch ((asksRest_digit hd).mp hasks).2.1
      rw [if_neg (List.cons_ne_nil ch chs), List.head?_cons, Option.some.injEq]
      by_cases hch : ch = atCmdCr
      · subst hch
        have hserved := served_setup_unasked hmark (hno .setup)
        simp only [List.cons_append, atCmdProcess_digit hd, true_and] at hserved ⊢
        rw [hserved]
        exact ⟨fun hand => hand.1, fun hdeclines => ⟨hdeclines, fun kind _ => hno kind⟩⟩
      · exact iff_of_false (not_served_silent (atCmdProcess_digits hd hch)) fun hand => hch hand.1

theorem noneAsked_test :
    NoneAsked cmd [atCmdEqualMark, atCmdQuestionMark] ↔ cmd.test = none := by
  constructor
  · intro hno
    by_contra hsome
    exact hno .test (Option.isSome_iff_ne_none.mpr hsome) (asksRest_equal.mpr (.inl ⟨rfl, rfl⟩))
  · rintro hnone kind hhas hasks
    rcases asksRest_equal.mp hasks with ⟨rfl, -⟩ | ⟨-, hne, -⟩
    · rw [Cmd.Has, hnone] at hhas
      cases hhas
    · exact hne rfl

theorem noneAsked_args (hargs : chs ≠ [atCmdQuestionMark]) :
    NoneAsked cmd (atCmdEqualMark :: chs) ↔
      ¬ (cmd.Has .setup ∧ cmd.Accepts (atCmdEqualMark :: chs)) := by
  constructor
  · rintro hno ⟨hhas, hok⟩
    exact hno .setup hhas (asksRest_equal.mpr (.inr ⟨rfl, hargs, hok⟩))
  · rintro hno kind hhas hasks
    rcases asksRest_equal.mp hasks with ⟨-, heq⟩ | ⟨rfl, -, hok⟩
    · exact hargs heq
    · exact hno ⟨hhas, hok⟩

theorem served_equal (h : IsEndMark endMark) :
    (∃ out, atCmdProcess cmd (atCmdEqualMark :: chs ++ endMark) = some out ∧
      Served cmd (atCmdEqualMark :: chs) out) ↔
      if chs = [atCmdQuestionMark] then
        EndsCr endMark ∨ cmd.test = none ∧ cmd.Declines (atCmdEqualMark :: chs)
      else if [atCmdQuestionMark, atCmdCr] <+: chs then
        cmd.test = none ∧ ¬ (cmd.Has .setup ∧ cmd.Accepts (atCmdEqualMark :: chs))
      else cmd.Takes := by
  have hmark := h
  obtain ⟨e, es, rfl, hquestion, hcr⟩ := h.eq_cons
  split
  · next htest =>
      subst htest
      rw [hcr]
      by_cases he : e = atCmdCr
      · subst he
        refine iff_of_true ⟨_, atCmdProcess_test, ?_⟩ (.inl rfl)
        exact served_invoke .test rfl Iff.rfl (asksRest_equal.mpr (.inl ⟨rfl, rfl⟩))
      · -- a line feed behind the `?`: the mark is taken for an argument
        have hprefix : ¬ [atCmdQuestionMark, atCmdCr] <+: [atCmdQuestionMark] ++ e :: es := by
          rintro ⟨behind, heq⟩
          exact he (List.cons.inj (List.cons.inj heq).2).1.symm
        have hno : ¬ AsksRest cmd .setup [atCmdEqualMark, atCmdQuestionMark] := by
          simp [asksRest_equal]
        rw [List.cons_append, atCmdProcess_equal hprefix, ← List.cons_append,
          served_setup_unasked hmark hno, noneAsked_test, or_iff_right he, and_comm]
  · next htest =>
      split
      · next hpre =>
          have hno : ¬ AsksRest cmd .test (atCmdEqualMark :: chs) := by
            simp [asksRest_equal, htest]
          have hserved : Served cmd (atCmdEqualMark :: chs) (invoke cmd.test .test) ↔ _ :=
            served_invoke_iff .test rfl Iff.rfl hno
          obtain ⟨chs, rfl⟩ := hpre
          simp only [List.cons_append, List.nil_append, atCmdProcess_test, Option.some.injEq,
            exists_eq_left'] at hserved htest ⊢
          rw [hserved, noneAsked_args htest]
      · next hpre =>
          have hprefix : ¬ [atCmdQuestionMark, atCmdCr] <+: chs ++ e :: es := by
            rintro ⟨behind, heq⟩
            match chs, heq, htest, hpre with
            | [], heq, _, _ => exact hquestion (List.cons.inj heq).1.symm
            | [ch], heq, htest, _ =>
                have hch : atCmdQuestionMark = ch := (List.cons.inj heq).1
                exact htest (hch ▸ rfl)
            | ch :: next :: chs, heq, _, hpre =>
                have hch : atCmdQuestionMark = ch := (List.cons.inj heq).1
                have hnext : atCmdCr = next := (List.cons.inj (List.cons.inj heq).2).1
                exact hpre ⟨chs, hch ▸ hnext ▸ rfl⟩
          have hasks : ∀ kind, AsksRest cmd kind (atCmdEqualMark :: chs) ↔
              kind = .setup ∧ cmd.Accepts (atCmdEqualMark :: chs) := by
            intro kind
            simp [asksRest_equal, htest]
          rw [List.cons_append, atCmdProcess_equal hprefix, ← List.cons_append,
            served_setup_asked hmark hasks]

/-- What stands behind the name is served if and only if it is regular. -/
theorem served_iff (h : IsEndMark endMark) (hcut : EndsCr endMark ∨ chs ≠ [])
    (hhead : ∀ ch ∈ chs.head?, isDelimiter ch = true) :
    (∃ out, atCmdProcess cmd (chs ++ endMark) = some out ∧ Served cmd chs out) ↔
      Regular cmd endMark chs := by
  cases chs with
  | nil => exact iff_of_true (served_exec (hcut.resolve_right fun hne => hne rfl)) trivial
  | cons ch chs =>
      have hch := hhead ch rfl
      rw [Regular]
      split
      · next hcr =>
          subst hcr
          exact served_cr
      split
      · next hequal =>
          subst hequal
          exact served_equal h
      split
      · next hquestion =>
          subst hquestion
          exact served_question h
      · next hcr hequal hquestion =>
          refine served_digit ?_ h
          simpa [isDelimiter, hcr, hequal, hquestion] using hch

end Process

end AtSrv
