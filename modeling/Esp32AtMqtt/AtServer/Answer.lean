import Mathlib.Data.List.Induction
import Mathlib.Data.List.Nodup
import Esp32AtMqtt.AtServer.Command

/-!
# The answer to a line

A line asks for a handler by the name of a command and what stands behind it. The server finds the
end of the name by itself: it cuts at the first `?`, `=`, carriage return or digit, whatever the
table says. So which lines are answered as they should be depends on the names of the table, and on
what stands in the line behind the first such character.
-/

namespace AtSrv

open AtCmd (cString)

/-- A line, without its end mark, asks for a handler: the name and `=?`, the name and `?`, the name,
`=` and arguments in the format of the command, the name and a digit in its format, and the name
alone. -/
inductive Asks (cmd : Cmd) : Kind → List UInt8 → Prop
  | test {name : List UInt8} (h : strcaseeq name cmd.name) :
      Asks cmd .test (name ++ [atCmdEqualMark, atCmdQuestionMark])
  | query {name : List UInt8} (h : strcaseeq name cmd.name) :
      Asks cmd .query (name ++ [atCmdQuestionMark])
  | args {name args : List UInt8} (h : strcaseeq name cmd.name) (hargs : args ≠ [atCmdQuestionMark])
      (hok : cmd.Accepts (atCmdEqualMark :: args)) :
      Asks cmd .setup (name ++ atCmdEqualMark :: args)
  | digit {name : List UInt8} {d : UInt8} (h : strcaseeq name cmd.name) (hd : isDigit d)
      (hok : cmd.Accepts [d]) : Asks cmd .setup (name ++ [d])
  | exec {name : List UInt8} (h : strcaseeq name cmd.name) : Asks cmd .exec name

/-- A server between two lines. -/
def Idle (echoMode : Bool) (endMark : List UInt8) (s : Parser) : Prop :=
  ∃ v, s.server = some v ∧ v.echoMode = echoMode ∧ v.endMark = endMark ∧ v.curRecvLen = 0 ∧
    v.recvBuffer = List.replicate atServerRecvBuffLen 0

/-- Of the handlers of the table exactly those that a line asks for are called, which is at most
one, and one final result is printed, unless the handler returns `AT_RESULT_NULL`. -/
structure Answers (cmdTable : List Cmd) (text : List UInt8) (calls : List (ℕ × Call))
    (prints : List Print) : Prop where
  one : calls.length ≤ 1
  called : ∀ i cmd, cmdTable[i]? = some cmd → ∀ kind, cmd.Has kind →
    ((∃ c ∈ calls, c.1 = i ∧ c.2.kind = kind) ↔ Asks cmd kind text)
  final : (∀ c ∈ calls, ∀ cmd, cmdTable[c.1]? = some cmd → cmd.result c.2 ≠ some .null) →
    finals prints = 1

/-- Between two states of the parser a line has been answered, and the server waits for the
next. -/
structure Answered (cmdTable : List Cmd) (echoMode : Bool) (endMark text : List UInt8)
    (s t : Parser) : Prop where
  idle : Idle echoMode endMark t
  answers : ∃ calls prints, t.calls = s.calls ++ calls ∧ t.prints = s.prints ++ prints ∧
    Answers cmdTable text calls prints

/-- A character of a line; in echo mode some take the last one back. -/
def edit (echoMode : Bool) (line : List UInt8) (ch : UInt8) : List UInt8 :=
  if echoMode && (ch = backspaceKey || ch = delectKey) then line.dropLast else line ++ [ch]

def edited (echoMode : Bool) (chs : List UInt8) : List UInt8 := chs.foldl (edit echoMode) []

/-- The characters of a complete line: it is within the buffer, and it ends in the end mark, which
has not been in it before. -/
structure CompleteLine (echoMode : Bool) (endMark chs text : List UInt8) : Prop where
  mark : IsEndMark endMark
  chars : ∀ ch ∈ chs, ch ≠ 0 ∧ ch ≠ escKey
  line : edited echoMode chs = text ++ endMark
  fits : ∀ pre, pre <+: chs → (edited echoMode pre).length < atServerRecvBuffLen
  once : ∀ pre, pre <+: chs → pre ≠ chs → ¬ endMark <:+: edited echoMode pre

/-- What a line begins with, up to the first character that names are cut at. -/
def namePart (text : List UInt8) : List UInt8 := text.takeWhile (! isDelimiter ·)

/-- What stands behind that. -/
def argsPart (text : List UInt8) : List UInt8 := text.dropWhile (! isDelimiter ·)

/-- The end of the name is found in the line. -/
def Cut (endMark text : List UInt8) : Prop := EndsCr endMark ∨ argsPart text ≠ []

/-- A command that is not found by its name: there is a character in it that names are cut at, or a
command before it in the table has the same name, up to case. -/
def Hidden (cmdTable : List Cmd) (i : ℕ) (cmd : Cmd) : Prop :=
  (∃ ch ∈ cmd.name, isDelimiter ch) ∨ ∃ c ∈ cmdTable.take i, strcaseeq c.name cmd.name

/-- The line asks for no handler of a hidden command. -/
def Unhidden (cmdTable : List Cmd) (text : List UInt8) : Prop :=
  ∀ i cmd, cmdTable[i]? = some cmd → Hidden cmdTable i cmd → ∀ kind, cmd.Has kind →
    ¬ Asks cmd kind text

/-- A line that is answered as it should be: it asks for no handler of a hidden command; its name
has fewer than sixteen characters, and what stands behind it is regular for the command that is
found; and when the end of the name is not found, it is not the name of a command with an `exec`
handler. -/
structure Plain (cmdTable : List Cmd) (endMark text : List UInt8) : Prop where
  unhidden : Unhidden cmdTable text
  short : Cut endMark text → (namePart text).length < atCmdNameLen
  regular : Cut endMark text → ∀ i cmd, atFindCmd cmdTable (namePart text) = some (i, cmd) →
    Regular cmd endMark (argsPart text)
  uncut : ¬ Cut endMark text → ∀ cmd ∈ cmdTable, strcaseeq text cmd.name → cmd.exec = none

/-! ## The name of a line -/

theorem isDelimiter_tolower (ch : UInt8) : isDelimiter (tolower ch) = isDelimiter ch := by
  have h : ∀ n : Fin 256, isDelimiter (tolower (UInt8.ofFin n)) = isDelimiter (UInt8.ofFin n) := by
    decide +kernel
  exact h ch.toFin

/-- Names that are equal up to case have a delimiter or not together. -/
theorem plain_of_strcaseeq {a b : List UInt8} (h : strcaseeq a b = true)
    (hplain : ∀ ch ∈ b, isDelimiter ch = false) : ∀ ch ∈ a, isDelimiter ch = false := by
  intro ch hch
  have hmap : a.map tolower = b.map tolower := of_decide_eq_true h
  have hmem : tolower ch ∈ b.map tolower := hmap ▸ List.mem_map_of_mem hch
  obtain ⟨ch', hch', heq⟩ := List.mem_map.mp hmem
  rw [← isDelimiter_tolower, ← heq, isDelimiter_tolower]
  exact hplain ch' hch'

theorem strcaseeq_symm {a b : List UInt8} (h : strcaseeq a b = true) : strcaseeq b a = true :=
  decide_eq_true (of_decide_eq_true h).symm

theorem strcaseeq_trans {a b c : List UInt8} (hab : strcaseeq a b = true)
    (hbc : strcaseeq b c = true) : strcaseeq a c = true :=
  decide_eq_true ((of_decide_eq_true hab).trans (of_decide_eq_true hbc))

section Name

variable {name chs : List UInt8}

/-- A name without a character that names are cut at, in front of such a character or of the end,
is what a line is cut to. -/
theorem cut_append (hplain : ∀ ch ∈ name, isDelimiter ch = false)
    (hhead : ∀ ch ∈ chs.head?, isDelimiter ch = true) :
    namePart (name ++ chs) = name ∧ argsPart (name ++ chs) = chs := by
  have hall : ∀ ch ∈ name, (! isDelimiter ch) = true := fun ch hch => by rw [hplain ch hch]; rfl
  rw [namePart, argsPart, List.takeWhile_append_of_pos hall, List.dropWhile_append_of_pos hall]
  cases chs with
  | nil => exact ⟨List.append_nil _, rfl⟩
  | cons ch chs => simp [hhead ch rfl]

theorem plain_namePart (text : List UInt8) : ∀ ch ∈ namePart text, isDelimiter ch = false := by
  intro ch hch
  simpa using List.all_eq_true.mp List.all_takeWhile ch hch

theorem head_argsPart (text : List UInt8) :
    ∀ ch ∈ (argsPart text).head?, isDelimiter ch = true := by
  intro ch hch
  have hhead := List.head?_dropWhile_not (! isDelimiter ·) text
  rw [argsPart] at hch
  rw [hch] at hhead
  simpa using hhead

theorem namePart_append_argsPart (text : List UInt8) : namePart text ++ argsPart text = text :=
  List.takeWhile_append_dropWhile

theorem asks_iff_exists {cmd : Cmd} {kind : Kind} {text : List UInt8} :
    Asks cmd kind text ↔ ∃ name chs, text = name ++ chs ∧ strcaseeq name cmd.name = true ∧
      AsksRest cmd kind chs := by
  constructor
  · intro h
    cases h with
    | @test name h => exact ⟨name, _, rfl, h, rfl⟩
    | @query name h => exact ⟨name, _, rfl, h, rfl⟩
    | @args name args h hargs hok => exact ⟨name, _, rfl, h, hok, .inl ⟨args, rfl, hargs⟩⟩
    | @digit name d h hd hok => exact ⟨name, _, rfl, h, hok, .inr ⟨d, hd, rfl⟩⟩
    | exec h => exact ⟨text, [], (List.append_nil _).symm, h, rfl⟩
  · rintro ⟨name, chs, rfl, h, hasks⟩
    cases kind with
    | test =>
        rw [hasks]
        exact .test h
    | query =>
        rw [hasks]
        exact .query h
    | setup =>
        rcases hasks with ⟨hok, ⟨args, rfl, hargs⟩ | ⟨d, hd, rfl⟩⟩
        · exact .args h hargs hok
        · exact .digit h hd hok
    | exec =>
        rw [hasks, List.append_nil]
        exact .exec h

theorem AsksRest.head {cmd : Cmd} {kind : Kind} (h : AsksRest cmd kind chs) :
    ∀ ch ∈ chs.head?, isDelimiter ch = true := by
  have hdigit : ∀ d, isDigit d = true → isDelimiter d = true := by
    intro d hd
    simp [isDelimiter, hd]
  have hmarks : isDelimiter atCmdEqualMark = true ∧ isDelimiter atCmdQuestionMark = true := by
    decide
  cases kind with
  | test =>
      rw [show chs = _ from h]
      exact fun ch hch => Option.some.inj hch ▸ hmarks.1
  | query =>
      rw [show chs = _ from h]
      exact fun ch hch => Option.some.inj hch ▸ hmarks.2
  | setup =>
      rcases h with ⟨-, ⟨args, rfl, -⟩ | ⟨d, hd, rfl⟩⟩
      · exact fun ch hch => Option.some.inj hch ▸ hmarks.1
      · exact fun ch hch => Option.some.inj hch ▸ hdigit d hd
  | exec =>
      rw [show chs = _ from h]
      intro ch hch
      cases hch

/-- A line asks for a handler of a command with a plain name by what it is cut to. -/
theorem asks_iff {cmd : Cmd} {kind : Kind} {text : List UInt8}
    (hplain : ∀ ch ∈ cmd.name, isDelimiter ch = false) :
    Asks cmd kind text ↔
      strcaseeq (namePart text) cmd.name = true ∧ AsksRest cmd kind (argsPart text) := by
  rw [asks_iff_exists]
  constructor
  · rintro ⟨name, chs, rfl, h, hasks⟩
    obtain ⟨hname, hargs⟩ := cut_append (plain_of_strcaseeq h hplain) hasks.head
    rw [hname, hargs]
    exact ⟨h, hasks⟩
  · rintro ⟨h, hasks⟩
    exact ⟨_, _, (namePart_append_argsPart text).symm, h, hasks⟩

end Name


section Table

variable {cmdTable : List Cmd} {i : ℕ} {cmd : Cmd}

theorem atFindCmd_eq_some_iff {name : List UInt8} : atFindCmd cmdTable name = some (i, cmd) ↔
    cmdTable[i]? = some cmd ∧ strcaseeq name cmd.name = true ∧
      ∀ c ∈ cmdTable.take i, strcaseeq name c.name = false := by
  rw [atFindCmd, Option.bind_eq_some_iff]
  constructor
  · rintro ⟨j, hfound, hmap⟩
    obtain ⟨c, hc, heq⟩ := Option.map_eq_some_iff.mp hmap
    cases heq
    obtain ⟨hlt, hsame, hbefore⟩ := List.findIdx?_eq_some_iff_getElem.mp hfound
    have hget : cmdTable[i] = cmd := Option.some.inj ((List.getElem?_eq_getElem hlt).symm.trans hc)
    refine ⟨hc, hget ▸ hsame, fun c hc => ?_⟩
    obtain ⟨k, hk, rfl⟩ := List.mem_take_iff_getElem.mp hc
    exact Bool.not_eq_true _ ▸ hbefore k (Nat.lt_of_lt_of_le hk (Nat.min_le_left _ _))
  · rintro ⟨hcmd, hsame, hbefore⟩
    obtain ⟨hlt, hget⟩ := List.getElem?_eq_some_iff.mp hcmd
    refine ⟨i, List.findIdx?_eq_some_iff_getElem.mpr ⟨hlt, hget ▸ hsame, fun j hj => ?_⟩, ?_⟩
    · have hmem : cmdTable[j] ∈ cmdTable.take i :=
        List.mem_take_iff_getElem.mpr ⟨j, Nat.lt_min.mpr ⟨hj, Nat.lt_trans hj hlt⟩, rfl⟩
      exact Bool.not_eq_true _ ▸ hbefore _ hmem
    · rw [hcmd, Option.map_some]

/-- A command that is not hidden is found when it is asked for. -/
theorem found_of_asks {kind : Kind} {text : List UInt8} (hcmd : cmdTable[i]? = some cmd)
    (hseen : ¬ Hidden cmdTable i cmd) (hasks : Asks cmd kind text) :
    atFindCmd cmdTable (namePart text) = some (i, cmd) := by
  have hplain : ∀ ch ∈ cmd.name, isDelimiter ch = false :=
    fun ch hch => Bool.not_eq_true _ ▸ fun hdelimiter => hseen (.inl ⟨ch, hch, hdelimiter⟩)
  have hname := ((asks_iff hplain).mp hasks).1
  refine atFindCmd_eq_some_iff.mpr ⟨hcmd, hname, fun c hc => ?_⟩
  exact Bool.not_eq_true _ ▸ fun hsame =>
    hseen (.inr ⟨c, hc, strcaseeq_trans (strcaseeq_symm hsame) hname⟩)

variable {text endMark : List UInt8}

/-- A refusal answers a line when no handler is asked for. -/
theorem answers_refusal {result : AtResult} (h : result ≠ .null) :
    Answers cmdTable text [] (atServerPrintResult result) ↔
      ∀ (i : ℕ) cmd, cmdTable[i]? = some cmd → ∀ kind, cmd.Has kind → ¬ Asks cmd kind text := by
  constructor
  · intro hanswers i cmd hcmd kind hhas hasks
    obtain ⟨c, hc, -⟩ := (hanswers.called i cmd hcmd kind hhas).mpr hasks
    cases hc
  · intro hno
    refine ⟨Nat.zero_le _, fun i cmd hcmd kind hhas => ?_, fun _ => finals_atServerPrintResult h⟩
    exact iff_of_false (fun ⟨c, hc, _⟩ => nomatch hc) (hno i cmd hcmd kind hhas)

/-- When no command is found, a refusal answers the line unless it is for a hidden command. -/
theorem answers_not_found {result : AtResult} (h : result ≠ .null)
    (hfind : atFindCmd cmdTable (namePart text) = none) :
    Answers cmdTable text [] (atServerPrintResult result) ↔ Unhidden cmdTable text := by
  rw [answers_refusal h]
  constructor
  · exact fun hno i cmd hcmd _ => hno i cmd hcmd
  · intro hno i cmd hcmd kind hhas hasks
    by_cases hhidden : Hidden cmdTable i cmd
    · exact hno i cmd hcmd hhidden kind hhas hasks
    · have hfound := found_of_asks hcmd hhidden hasks
      rw [hfind] at hfound
      cases hfound

/-- When a command is found, its outcome answers the line when it serves what stands behind the
name, unless the line is for a hidden command. -/
theorem answers_found {out : Outcome}
    (hfind : atFindCmd cmdTable (namePart text) = some (i, cmd)) :
    Answers cmdTable text (out.calls.map fun call => (i, call)) out.prints ↔
      Unhidden cmdTable text ∧ Served cmd (argsPart text) out := by
  obtain ⟨hcmd, hname, hbefore⟩ := atFindCmd_eq_some_iff.mp hfind
  have hplain : ∀ ch ∈ cmd.name, isDelimiter ch = false :=
    plain_of_strcaseeq (strcaseeq_symm hname) (plain_namePart text)
  have hasks : ∀ kind, Asks cmd kind text ↔ AsksRest cmd kind (argsPart text) :=
    fun kind => (asks_iff hplain).trans (and_iff_right hname)
  have hcalls : ∀ j kind, (∃ c ∈ out.calls.map fun call => (i, call), c.1 = j ∧ c.2.kind = kind) ↔
      i = j ∧ ∃ c ∈ out.calls, c.kind = kind := by
    intro j kind
    constructor
    · rintro ⟨c, hc, rfl, rfl⟩
      obtain ⟨call, hcall, rfl⟩ := List.mem_map.mp hc
      exact ⟨rfl, call, hcall, rfl⟩
    · rintro ⟨rfl, call, hcall, rfl⟩
      exact ⟨_, List.mem_map_of_mem hcall, rfl, rfl⟩
  have hseen : ¬ Hidden cmdTable i cmd := by
    rintro (⟨ch, hch, hdelimiter⟩ | ⟨c, hc, hsame⟩)
    · rw [hplain ch hch] at hdelimiter
      cases hdelimiter
    · have hno := hbefore c hc
      rw [strcaseeq_trans hname (strcaseeq_symm hsame)] at hno
      cases hno
  have hown : ∀ kind, (∃ c ∈ out.calls.map fun call => (i, call), c.1 = i ∧ c.2.kind = kind) ↔
      ∃ c ∈ out.calls, c.kind = kind := fun kind => (hcalls i kind).trans (and_iff_right rfl)
  have hnull : (∀ c ∈ out.calls.map fun call => (i, call), ∀ cmd, cmdTable[c.1]? = some cmd →
      cmd.result c.2 ≠ some .null) ↔ ∀ c ∈ out.calls, cmd.result c ≠ some .null := by
    rw [List.forall_mem_map]
    refine forall₂_congr fun call _ => ⟨fun h => h cmd hcmd, fun h cmd' hcmd' => ?_⟩
    exact Option.some.inj (hcmd.symm.trans hcmd') ▸ h
  constructor
  · intro h
    refine ⟨fun j cmd' hcmd' hhidden kind hhas hask => ?_, ?_, fun kind hhas => ?_, ?_⟩
    · obtain ⟨rfl, -⟩ := (hcalls j kind).mp ((h.called j cmd' hcmd' kind hhas).mpr hask)
      exact hseen (Option.some.inj (hcmd.symm.trans hcmd') ▸ hhidden)
    · have hone := h.one
      rwa [List.length_map] at hone
    · rw [← hown, h.called i cmd hcmd kind hhas, hasks]
    · exact fun hcalled => h.final (hnull.mpr hcalled)
  · rintro ⟨hno, h⟩
    refine ⟨?_, fun j cmd' hcmd' kind hhas => ?_, fun hcalled => h.final (hnull.mp hcalled)⟩
    · rw [List.length_map]
      exact h.one
    · by_cases heq : i = j
      · subst heq
        cases hcmd.symm.trans hcmd'
        rw [hown, h.called kind hhas, hasks]
      · refine iff_of_false (fun hcalled => heq ((hcalls j kind).mp hcalled).1) fun hask => ?_
        by_cases hhidden : Hidden cmdTable j cmd'
        · exact hno j cmd' hcmd' hhidden kind hhas hask
        · have hfound := found_of_asks hcmd' hhidden hask
          rw [hfind] at hfound
          exact heq (Prod.mk.inj (Option.some.inj hfound)).1

/-! ## The answer to a line -/

theorem atCmdGetName_append {name chs : List UInt8} {ch : UInt8}
    (hplain : ∀ ch ∈ name, isDelimiter ch = false) (hch : isDelimiter ch = true) :
    atCmdGetName (name ++ ch :: chs) = some name.length := by
  rw [atCmdGetName, List.findIdx?_append, List.findIdx?_eq_none_iff.mpr hplain, Option.none_or,
    List.findIdx?_cons, if_pos hch, Option.map_some, Nat.zero_add]

theorem atCmdGetName_cut (h : IsEndMark endMark) (hcut : Cut endMark text) :
    atCmdGetName (text ++ endMark) = some (namePart text).length := by
  have htext : text ++ endMark = namePart text ++ (argsPart text ++ endMark) := by
    rw [← List.append_assoc, namePart_append_argsPart]
  rw [htext]
  cases hargs : argsPart text with
  | nil =>
      have hcr : EndsCr endMark := hcut.resolve_right fun hne => hne hargs
      obtain ⟨chs, rfl⟩ : ∃ chs, endMark = atCmdCr :: chs := List.head?_eq_some_iff.mp hcr
      exact atCmdGetName_append (plain_namePart text) (by decide)
  | cons ch chs =>
      refine atCmdGetName_append (plain_namePart text) (head_argsPart text ch ?_)
      rw [hargs]
      rfl

theorem plain_of_not_cut (hcut : ¬ Cut endMark text) : ∀ ch ∈ text, isDelimiter ch = false := by
  have hargs : argsPart text = [] := by
    by_contra hne
    exact hcut (.inr hne)
  rw [← namePart_append_argsPart text, hargs, List.append_nil]
  exact plain_namePart text

theorem atCmdGetName_uncut (h : IsEndMark endMark) (hcut : ¬ Cut endMark text) :
    atCmdGetName (text ++ endMark) = none := by
  refine List.findIdx?_eq_none_iff.mpr fun ch hch => ?_
  rcases List.mem_append.mp hch with hch | hch
  · exact plain_of_not_cut hcut ch hch
  · rcases h with rfl | rfl | rfl
    · exact absurd (.inl rfl) hcut
    · exact absurd (.inl rfl) hcut
    · rw [List.mem_singleton.mp hch]
      rfl

/-- A line without a character that names are cut at can only ask for an `exec` handler. -/
theorem asks_of_plain {kind : Kind} (hplain : ∀ ch ∈ text, isDelimiter ch = false) :
    Asks cmd kind text ↔ kind = .exec ∧ strcaseeq text cmd.name = true := by
  constructor
  · intro hasks
    obtain ⟨name, chs, rfl, hname, hrest⟩ := asks_iff_exists.mp hasks
    cases chs with
    | nil =>
        rw [List.append_nil]
        exact ⟨asksRest_nil.mp hrest, hname⟩
    | cons ch chs =>
        have hno := hplain ch (List.mem_append_right _ List.mem_cons_self)
        rw [hrest.head ch rfl] at hno
        cases hno
  · rintro ⟨rfl, hname⟩
    exact .exec hname

/-- When the end of the name is not found, the refusal answers a line that is not plain in no
way. -/
theorem answers_uncut {result : AtResult} (h : result ≠ .null) (hcut : ¬ Cut endMark text) :
    Answers cmdTable text [] (atServerPrintResult result) ↔ Plain cmdTable endMark text := by
  have hplain := plain_of_not_cut hcut
  rw [answers_refusal h]
  constructor
  · intro hno
    refine ⟨fun i cmd hcmd _ => hno i cmd hcmd, fun hcut' => absurd hcut' hcut,
      fun hcut' => absurd hcut' hcut, fun _ cmd hmem hname => ?_⟩
    obtain ⟨i, hcmd⟩ := List.getElem?_of_mem hmem
    by_contra hsome
    exact hno i cmd hcmd .exec (Option.isSome_iff_ne_none.mpr hsome) (.exec hname)
  · intro hline i cmd hcmd kind hhas hasks
    obtain ⟨rfl, hname⟩ := (asks_of_plain hplain).mp hasks
    have hnone := hline.uncut hcut cmd (List.mem_of_getElem? hcmd) hname
    rw [Cmd.Has, hnone] at hhas
    cases hhas

theorem finals_append (a b : List Print) : finals (a ++ b) = finals a + finals b :=
  List.countP_append

section Execute

variable {s t : Parser} {v : Server} {shown : List Print}

theorem idle_retries (prints : List Print) :
    Idle v.echoMode v.endMark (t.retries v prints) := ⟨v.retry, rfl, rfl, rfl, rfl, rfl⟩

/-- What a line leaves behind answers it when what follows on the echo does. -/
theorem answered_retries {calls : List (ℕ × Call)} {prints : List Print}
    (hcalls : t.calls = s.calls ++ calls) (hprints : t.prints = s.prints ++ shown)
    (hshown : finals shown = 0) :
    Answered cmdTable v.echoMode v.endMark text s (t.retries v prints) ↔
      Answers cmdTable text calls prints := by
  have hfinals : finals (shown ++ prints) = finals prints := by
    rw [finals_append, hshown, Nat.zero_add]
  constructor
  · rintro ⟨-, calls', prints', hcalls', hprints', h⟩
    have hc : calls = calls' := List.append_cancel_left (hcalls.symm.trans hcalls')
    have hp : shown ++ prints = prints' := by
      have heq : t.prints ++ prints = s.prints ++ prints' := hprints'
      rw [hprints, List.append_assoc] at heq
      exact List.append_cancel_left heq
    subst hc hp
    exact ⟨h.one, h.called, fun hcalled => hfinals ▸ h.final hcalled⟩
  · intro h
    refine ⟨idle_retries prints, calls, shown ++ prints, hcalls, ?_, h.one, h.called,
      fun hcalled => hfinals ▸ h.final hcalled⟩
    show t.prints ++ prints = _
    rw [hprints, List.append_assoc]

/-- What is carried out answers the line if and only if it is plain. -/
theorem answered_execute (hcalls : t.calls = s.calls) (hprints : t.prints = s.prints ++ shown)
    (hshown : finals shown = 0) (hline : cString v.recvBuffer = text ++ v.endMark)
    (h : IsEndMark v.endMark) :
    Answered cmdTable v.echoMode v.endMark text s (execute cmdTable t v) ↔
      Plain cmdTable v.endMark text := by
  have hnil : t.calls = s.calls ++ [] := hcalls.trans (List.append_nil _).symm
  rw [execute, hline]
  dsimp only
  by_cases hcut : Cut v.endMark text
  swap
  · rw [atCmdGetName_uncut h hcut]
    exact (answered_retries hnil hprints hshown).trans (answers_uncut (by decide) hcut)
  have htext : text ++ v.endMark = namePart text ++ (argsPart text ++ v.endMark) := by
    rw [← List.append_assoc, namePart_append_argsPart]
  rw [atCmdGetName_cut h hcut]
  dsimp only
  rw [htext, List.take_left, List.drop_left]
  split
  · -- the name goes over the end of its buffer
    next hlong =>
      refine iff_of_false ?_ fun hline => absurd (hline.short hcut) (Nat.not_lt.mpr hlong)
      rintro ⟨⟨w, hw, -⟩, -⟩
      cases hw
  next hshort =>
  have hlt := Nat.not_le.mp hshort
  cases hfind : atFindCmd cmdTable (namePart text) with
  | none =>
      dsimp only
      refine Iff.trans (answered_retries hnil hprints hshown) ?_
      refine (answers_not_found (by decide) hfind).trans
        ⟨fun hno => ?_, fun hline => hline.unhidden⟩
      refine ⟨hno, fun _ => hlt, fun _ i cmd hfound => ?_, fun hcut' => absurd hcut hcut'⟩
      cases hfind.symm.trans hfound
  | some found =>
      obtain ⟨i, cmd⟩ := found
      have hregular : _ ↔ Regular cmd v.endMark (argsPart text) :=
        served_iff h hcut (head_argsPart text)
      have hplain : Plain cmdTable v.endMark text ↔
          Unhidden cmdTable text ∧ Regular cmd v.endMark (argsPart text) := by
        constructor
        · exact fun hline => ⟨hline.unhidden, hline.regular hcut i cmd hfind⟩
        · rintro ⟨hno, hreg⟩
          refine ⟨hno, fun _ => hlt, fun _ j cmd' hfound => ?_, fun hcut' => absurd hcut hcut'⟩
          cases hfind.symm.trans hfound
          exact hreg
      dsimp only
      rw [hplain, ← hregular]
      cases hprocess : atCmdProcess cmd (argsPart text ++ v.endMark) with
      | none =>
          refine iff_of_false ?_ ?_
          · rintro ⟨⟨w, hw, -⟩, -⟩
            cases hw
          · rintro ⟨-, out, hout, -⟩
            cases hout
      | some out =>
          have hcalled : t.calls ++ out.calls.map (fun call => (i, call)) =
              s.calls ++ out.calls.map fun call => (i, call) := by rw [hcalls]
          dsimp only
          refine Iff.trans (answered_retries hcalled hprints hshown) ?_
          rw [answers_found hfind]
          simp only [Option.some.injEq, exists_eq_left']

end Execute

end Table

/-! ## The characters of a line -/

theorem cString_eq_self {str : List UInt8} (h : ∀ ch ∈ str, ch ≠ 0) : cString str = str :=
  Ended.upTo_eq_self fun hmem => h 0 hmem rfl

theorem edited_append (echoMode : Bool) (chs : List UInt8) (ch : UInt8) :
    edited echoMode (chs ++ [ch]) = edit echoMode (edited echoMode chs) ch := by
  rw [edited, List.foldl_append]
  rfl

/-- Every character of a line has been typed. -/
theorem edited_subset (echoMode : Bool) (chs : List UInt8) : edited echoMode chs ⊆ chs := by
  induction chs using List.reverseRecOn with
  | nil => exact List.Subset.refl []
  | append_singleton chs ch ih =>
      rw [edited_append, edit]
      split
      · exact fun c hc => List.mem_append_left _ (ih ((List.dropLast_subset _) hc))
      · exact fun c hc => (List.mem_append.mp hc).elim (fun h => List.mem_append_left _ (ih h))
          (List.mem_append_right _)

section Typing

variable {cmdTable : List Cmd} {echoMode : Bool} {endMark line : List UInt8} {s t : Parser}
  {ch : UInt8}

/-- A part of a line has been typed, and nothing has been done but to echo it. -/
structure Typed (echoMode : Bool) (endMark : List UInt8) (s : Parser) (line : List UInt8)
    (t : Parser) : Prop where
  server : ∃ v, t.server = some v ∧ v.echoMode = echoMode ∧ v.endMark = endMark ∧ Cleared v ∧
    v.line = line
  calls : t.calls = s.calls
  prints : ∃ shown, t.prints = s.prints ++ shown ∧ finals shown = 0

theorem typed_idle (h : Idle echoMode endMark s) : Typed echoMode endMark s [] s := by
  obtain ⟨v, hv, hecho, hmark, hlen, hbuffer⟩ := h
  have hline : v.line = [] := by
    rw [Server.line, hlen, List.take_zero]
  refine ⟨⟨v, hv, hecho, hmark, ⟨hlen ▸ Nat.zero_le _, ?_⟩, hline⟩, rfl, [],
    (List.append_nil _).symm, rfl⟩
  rw [hline, hlen, hbuffer]
  rfl

theorem finals_echo (lastCh ch : UInt8) : finals [echo lastCh ch] = 0 := by
  rw [echo]
  split
  · rfl
  · rfl

/-- The parser behind the store of a character. -/
def stored (s : Parser) (v : Server) (ch : UInt8) : Parser :=
  { s with
    server := some (v.store v.curRecvLen ch (v.curRecvLen + 1))
    lastCh := ch
    stores := s.stores ++ [Store.recvBuffer v.curRecvLen]
    searched := s.searched ++ [(v.store v.curRecvLen ch (v.curRecvLen + 1)).recvBuffer] }

/-- While the line has an end in the buffer, it is what the end mark is looked for in. -/
theorem append_eq {v : Server} (hclear : Cleared v) (hlen : (v.line ++ [ch]).length < 256) :
    append cmdTable s v ch =
      if v.endMark <:+: cString (v.line ++ [ch]) then
        execute cmdTable (stored s v ch) (v.store v.curRecvLen ch (v.curRecvLen + 1))
      else stored s v ch := by
  rw [List.length_append, hclear.length_line, List.length_singleton] at hlen
  have hfull : ¬ atServerRecvBuffLen ≤ v.curRecvLen := by
    rw [atServerRecvBuffLen]
    omega
  have hroom := Nat.not_le.mp hfull
  have hzero : 0 ∈ (v.store v.curRecvLen ch (v.curRecvLen + 1)).recvBuffer :=
    (zero_mem_store_iff hclear hroom).mpr (.inl (by omega))
  have hstring : cString (v.store v.curRecvLen ch (v.curRecvLen + 1)).recvBuffer = _ :=
    cString_store hclear hroom
  have hmark : (v.store v.curRecvLen ch (v.curRecvLen + 1)).endMark = v.endMark := rfl
  rw [append]
  dsimp only
  rw [if_neg hfull, if_neg (not_not.mpr hzero), hmark, hstring]
  rfl

/-- The parser with the echo of a character. -/
def echoed (s : Parser) (v : Server) (ch : UInt8) : Parser :=
  if v.echoMode then { s with prints := s.prints ++ [echo s.lastCh ch] } else s

theorem echoed_spec (s : Parser) (v : Server) (ch : UInt8) : (echoed s v ch).calls = s.calls ∧
    ∃ shown, (echoed s v ch).prints = s.prints ++ shown ∧ finals shown = 0 := by
  rw [echoed]
  split
  · exact ⟨rfl, _, rfl, finals_echo _ _⟩
  · exact ⟨rfl, [], (List.append_nil _).symm, rfl⟩

theorem serverParser_eq {v : Server} (hv : t.server = some v) : serverParser cmdTable t ch =
    if ch = escKey then { t with server := none }
    else if v.erases ch then
      if v.curRecvLen = 0 then t
      else
        { t with
          server := some (v.store (v.curRecvLen - 1) 0 (v.curRecvLen - 1))
          stores := t.stores ++ [Store.recvBuffer (v.curRecvLen - 1)]
          prints := t.prints ++ [.chars [0x08, 0x20, 0x08]] }
    else append cmdTable (echoed t v ch) v ch := by
  rw [serverParser]
  split
  · next hnone => cases hv.symm.trans hnone
  · next w hw =>
      cases hv.symm.trans hw
      rfl

theorem erases_eq {v : Server} (hecho : v.echoMode = echoMode) :
    edit echoMode line ch = if v.erases ch then line.dropLast else line ++ [ch] := by
  rw [edit, Server.erases, hecho]

/-- A further character of the line that does not complete it. -/
theorem Typed.step (h : Typed echoMode endMark s line t) (hesc : ch ≠ escKey)
    (hfits : (edit echoMode line ch).length < atServerRecvBuffLen)
    (hopen : ¬ endMark <:+: edit echoMode line ch) :
    Typed echoMode endMark s (edit echoMode line ch) (serverParser cmdTable t ch) := by
  obtain ⟨⟨v, hv, hecho, hmark, hclear, hline⟩, hcalls, shown, hprints, hshown⟩ := h
  rw [erases_eq hecho] at hfits hopen ⊢
  rw [serverParser_eq hv, if_neg hesc]
  split
  · next herase =>
      rw [if_pos herase] at hfits hopen
      split
      · next hzero =>
          have hnil : line = [] := by
            rw [← hline, Server.line, hzero, List.take_zero]
          subst hnil
          exact ⟨⟨v, hv, hecho, hmark, hclear, hline⟩, hcalls, shown, hprints, hshown⟩
      · next hpos =>
          refine ⟨⟨_, rfl, hecho, hmark, cleared_erase hclear hpos, ?_⟩, hcalls,
            shown ++ [.chars [0x08, 0x20, 0x08]], ?_, ?_⟩
          · rw [line_erase hclear hpos, hline, List.dropLast_eq_take, ← hclear.length_line, hline]
          · show t.prints ++ _ = _
            rw [hprints, List.append_assoc]
          · rw [finals_append, hshown]
            rfl
  · next herase =>
      rw [if_neg herase] at hfits hopen
      have hlen : (v.line ++ [ch]).length < 256 := hline ▸ hfits
      have hno : ¬ v.endMark <:+: cString (v.line ++ [ch]) := by
        intro hmark'
        rw [hmark, hline] at hmark'
        exact hopen (hmark'.trans (List.takeWhile_prefix _).isInfix)
      have hroom : v.curRecvLen < atServerRecvBuffLen := by
        rw [List.length_append, hclear.length_line] at hlen
        exact Nat.lt_of_succ_lt hlen
      obtain ⟨hechoed, shown', hprints', hshown'⟩ := echoed_spec t v ch
      have hturn : append cmdTable (echoed t v ch) v ch = _ := append_eq hclear hlen
      rw [hturn, if_neg hno]
      refine ⟨⟨_, rfl, hecho, hmark, cleared_store hclear hroom, ?_⟩,
        hechoed.trans hcalls, shown ++ shown', ?_, ?_⟩
      · rw [line_store hclear hroom, hline]
      · show (echoed t v ch).prints = _
        rw [hprints', hprints, List.append_assoc]
      · rw [finals_append, hshown, hshown']

/-- The character that completes the line. -/
theorem Typed.last {text : List UInt8} (h : Typed echoMode endMark s line t) (hesc : ch ≠ escKey)
    (hline : edit echoMode line ch = text ++ endMark)
    (hfits : (text ++ endMark).length < atServerRecvBuffLen) (hzero : ∀ c ∈ text ++ endMark, c ≠ 0)
    (hmark : IsEndMark endMark) (hopen : ¬ endMark <:+: line) :
    Answered cmdTable echoMode endMark text s (serverParser cmdTable t ch) ↔
      Plain cmdTable endMark text := by
  obtain ⟨⟨v, hv, rfl, rfl, hclear, rfl⟩, hcalls, shown, hprints, hshown⟩ := h
  have herase : ¬ v.erases ch = true := by
    intro herase
    rw [erases_eq rfl, if_pos herase] at hline
    have hsuffix : v.endMark <:+: v.line.dropLast := hline ▸ (List.suffix_append _ _).isInfix
    exact hopen (hsuffix.trans (List.dropLast_prefix _).isInfix)
  rw [erases_eq rfl, if_neg herase] at hline
  have hlen : (v.line ++ [ch]).length < 256 := hline ▸ hfits
  have hroom : v.curRecvLen < atServerRecvBuffLen := by
    rw [List.length_append, hclear.length_line] at hlen
    exact Nat.lt_of_succ_lt hlen
  have hstring : cString (v.line ++ [ch]) = text ++ v.endMark := by
    rw [hline, cString_eq_self hzero]
  have hbuffer : cString (v.store v.curRecvLen ch (v.curRecvLen + 1)).recvBuffer =
      text ++ v.endMark := by
    rw [cString_store hclear hroom, hstring]
  have hfound : v.endMark <:+: cString (v.line ++ [ch]) :=
    hstring ▸ (List.suffix_append _ _).isInfix
  obtain ⟨hechoed, shown', hprints', hshown'⟩ := echoed_spec t v ch
  have hturn : append cmdTable (echoed t v ch) v ch = _ := append_eq hclear hlen
  have hall : (stored (echoed t v ch) v ch).prints = s.prints ++ (shown ++ shown') := by
    show (echoed t v ch).prints = _
    rw [hprints', hprints, List.append_assoc]
  have hquiet : finals (shown ++ shown') = 0 := by
    rw [finals_append, hshown, hshown']
  have hsame : (stored (echoed t v ch) v ch).calls = s.calls := hechoed.trans hcalls
  rw [serverParser_eq hv, if_neg hesc, if_neg herase, hturn, if_pos hfound]
  exact answered_execute hsame hall hquiet hbuffer hmark

/-- What has been typed before the end of a line. -/
theorem CompleteLine.typed {chs pre text : List UInt8}
    (h : CompleteLine echoMode endMark chs text) (hs : Idle echoMode endMark s) (hpre : pre <+: chs)
    (hne : pre ≠ chs) :
    Typed echoMode endMark s (edited echoMode pre) (pre.foldl (serverParser cmdTable) s) := by
  induction pre using List.reverseRecOn with
  | nil => exact typed_idle hs
  | append_singleton pre ch ih =>
      have hbefore : pre <+: chs := (List.prefix_append pre [ch]).trans hpre
      have hshort : pre ≠ chs := by
        rintro rfl
        have hlen := hpre.length_le
        rw [List.length_append, List.length_singleton] at hlen
        exact absurd hlen (Nat.not_succ_le_self _)
      have hmem : ch ∈ chs := hpre.subset (List.mem_append_right _ (List.mem_singleton_self ch))
      have hfits := h.fits _ hpre
      have hopen := h.once _ hpre hne
      rw [edited_append] at hfits hopen ⊢
      rw [List.foldl_append, List.foldl_cons, List.foldl_nil]
      exact (ih hbefore hshort).step (h.chars ch hmem).2 hfits hopen

end Typing

/-- A complete line that comes to an idle server is answered as it should be if and only if it is
plain, whatever the table. -/
theorem line_answered_iff (cmdTable : List Cmd) (echoMode : Bool) (endMark chs text : List UInt8)
    (s : Parser) (hs : Idle echoMode endMark s) (h : CompleteLine echoMode endMark chs text) :
    Answered cmdTable echoMode endMark text s (chs.foldl (serverParser cmdTable) s) ↔
      Plain cmdTable endMark text := by
  rcases List.eq_nil_or_concat' chs with rfl | ⟨pre, ch, rfl⟩
  · have hnil : endMark = [] := (List.append_eq_nil_iff.mp h.line.symm).2
    rcases h.mark with hmark | hmark | hmark
    · cases hmark.symm.trans hnil
    · cases hmark.symm.trans hnil
    · cases hmark.symm.trans hnil
  · have hpre : pre <+: pre ++ [ch] := List.prefix_append _ _
    have hne : pre ≠ pre ++ [ch] := by simp
    have hline : edit echoMode (edited echoMode pre) ch = text ++ endMark :=
      (edited_append echoMode pre ch).symm.trans h.line
    have hfits := h.fits _ List.prefix_rfl
    rw [h.line] at hfits
    have hzero : ∀ c ∈ text ++ endMark, c ≠ 0 := fun c hc =>
      (h.chars c (edited_subset echoMode (pre ++ [ch]) (h.line ▸ hc))).1
    rw [List.foldl_append, List.foldl_cons, List.foldl_nil]
    exact (h.typed hs hpre hne).last (h.chars ch (by simp)).2 hline hfits hzero h.mark
      (h.once pre hpre hne)

/-- `AT`, with an `exec` handler. -/
def atCmd : Cmd := ⟨[0x41, 0x54], none, none, none, none, some .ok⟩

theorem idle_init (echoMode : Bool) (endMark : List UInt8) (lastCh : UInt8) :
    Idle echoMode endMark (parserInit echoMode endMark lastCh) := ⟨_, rfl, rfl, rfl, rfl, rfl⟩

/-- A line that is typed without editing, for a given text. -/
theorem completeLine_of_inits {echoMode : Bool} {endMark chs text : List UInt8}
    (hmark : IsEndMark endMark) (hline : edited echoMode chs = text ++ endMark)
    (hchars : (chs.all fun ch => ch ≠ 0 ∧ ch ≠ escKey) = true)
    (h : ∀ pre ∈ chs.inits, (edited echoMode pre).length < atServerRecvBuffLen ∧
      (pre ≠ chs → ¬ endMark <:+: edited echoMode pre)) :
    CompleteLine echoMode endMark chs text :=
  ⟨hmark, fun ch hch => of_decide_eq_true (List.all_eq_true.mp hchars ch hch), hline,
    fun pre hpre => (h pre ((List.mem_inits _ _).mpr hpre)).1,
    fun pre hpre => (h pre ((List.mem_inits _ _).mpr hpre)).2⟩

/-- The line `AT`, with a character that is taken back. -/
theorem line_answered_iff_at :
    Answered [atCmd] true [atCmdCr, atCmdLf] [0x41, 0x54] (parserInit true [atCmdCr, atCmdLf] 0)
        ([0x41, 0x42, 0x08, 0x54, 0x0D, 0x0A].foldl (serverParser [atCmd])
          (parserInit true [atCmdCr, atCmdLf] 0)) ↔
      Plain [atCmd] [atCmdCr, atCmdLf] [0x41, 0x54] :=
  line_answered_iff [atCmd] true [atCmdCr, atCmdLf] [0x41, 0x42, 0x08, 0x54, 0x0D, 0x0A]
    [0x41, 0x54] _ (idle_init _ _ _)
    (completeLine_of_inits (.inl rfl) rfl rfl (by decide))

/-- The line `AT?x` has no answer. -/
theorem no_answer : ¬ ∀ (cmdTable : List Cmd) (echoMode : Bool) (endMark chs text : List UInt8)
    (s : Parser), (cmdTable.map fun cmd => cmd.name.map tolower).Nodup → Idle echoMode endMark s →
    CompleteLine echoMode endMark chs text →
    Answered cmdTable echoMode endMark text s (chs.foldl (serverParser cmdTable) s) := by
  intro h
  obtain ⟨-, calls, prints, hcalls, hprints, hanswers⟩ :=
    h [atCmd] true [atCmdCr, atCmdLf] [0x41, 0x54, 0x3F, 0x78, 0x0D, 0x0A] [0x41, 0x54, 0x3F, 0x78]
      (parserInit true [atCmdCr, atCmdLf] 0) (List.nodup_singleton _) (idle_init _ _ _)
      (completeLine_of_inits (.inl rfl) rfl rfl (by decide))
  have hno : ([0x41, 0x54, 0x3F, 0x78, 0x0D, 0x0A].foldl (serverParser [atCmd])
      (parserInit true [atCmdCr, atCmdLf] 0)).calls = [] := by decide +kernel
  have hsilent : finals ([0x41, 0x54, 0x3F, 0x78, 0x0D, 0x0A].foldl (serverParser [atCmd])
      (parserInit true [atCmdCr, atCmdLf] 0)).prints = 0 := by decide +kernel
  have hnil : calls = [] := hcalls.symm.trans hno
  have hone : finals prints = 1 := hanswers.final (hnil ▸ fun c hc => nomatch hc)
  rw [hprints, finals_append, hone] at hsilent
  cases hsilent

end AtSrv
