import Esp32AtMqtt.AtClient.Response
import Esp32AtMqtt.Stream.Ended
import Mathlib.Data.List.Infix

/-!
# Editing a line for the AT client

The loop of `client_cli_parser` in `at_cli.c` puts the characters of a line into `cur_line`, takes
the last one out on a backspace, and has the line executed at its end. There is no check that the
line has room in the 30 bytes of `cur_line`.

`Edited` is the editing without the array: the line as it stands, and the lines that were ended.
-/

namespace AtCli

open AtCmd Ended

/-- `ESC_KEY`. -/
def escKey : UInt8 := 0x1b

/-- `BACKSPACE_KEY`. -/
def backspaceKey : UInt8 := 0x08

/-- `DELECT_KEY`. -/
def delectKey : UInt8 := 0x7f

/-- `FINSH_CMD_SIZE`. -/
def finshCmdSize : ℕ := 30

/-- `cur_line` and `cur_line_len`, what has been printed, and the commands that `at_obj_exec_cmd`
has been called with. -/
structure CliLine where
  curLine : List UInt8
  curLineLen : ℕ
  printed : List UInt8
  executed : List (List UInt8)
  deriving DecidableEq, Repr

/-- The beginning of `client_cli_parser`. -/
def cliStart : CliLine := ⟨List.replicate finshCmdSize 0, 0, [], []⟩

/-- One round of the loop, for a character that is not `ESC_KEY`. It is `none` where the code writes
behind `cur_line`. -/
def cliRound (s : CliLine) (ch : UInt8) : Option CliLine :=
  if ch = backspaceKey ∨ ch = delectKey then
    if s.curLineLen ≠ 0 then
      some { s with
        curLine := s.curLine.set (s.curLineLen - 1) 0
        curLineLen := s.curLineLen - 1
        printed := s.printed ++ [0x08, 0x20, 0x08] }
    else some s
  else if ch = 0x0d ∨ ch = 0x0a then
    if s.curLineLen ≠ 0 then
      some { s with
        curLineLen := 0
        printed := s.printed ++ [0x0a]
        executed := s.executed ++ [cString (s.curLine.take s.curLineLen)] }
    else some { s with curLineLen := 0 }
  else if s.curLineLen < s.curLine.length then
    some { s with
      curLine := s.curLine.set s.curLineLen ch
      curLineLen := s.curLineLen + 1
      printed := s.printed ++ [ch] }
  else none

/-- The loop of `client_cli_parser` over the characters that `console_getchar` returns. -/
def clientCliParser : CliLine → List UInt8 → Option CliLine
  | s, [] => some s
  | s, ch :: chs =>
      if ch = escKey then some s else (cliRound s ch).bind fun s => clientCliParser s chs

/-- A line that is being edited, and the lines before it that are not empty. -/
structure Edited where
  line : List UInt8
  ended : List (List UInt8)
  deriving DecidableEq, Repr

/-- What a character does to the line. -/
def Edited.edit (e : Edited) (ch : UInt8) : Edited :=
  if ch = backspaceKey ∨ ch = delectKey then { e with line := e.line.dropLast }
  else if ch = 0x0d ∨ ch = 0x0a then ⟨[], if e.line = [] then e.ended else e.ended ++ [e.line]⟩
  else { e with line := e.line ++ [ch] }

/-- What the characters do to an empty line. -/
def edited (chs : List UInt8) : Edited := chs.foldl Edited.edit ⟨[], []⟩

/-- The array holds the line. -/
structure Shows (s : CliLine) (e : Edited) : Prop where
  size : s.curLine.length = finshCmdSize
  len : s.curLineLen = e.line.length
  fits : e.line.length ≤ finshCmdSize
  line : s.curLine.take s.curLineLen = e.line
  executed : s.executed = e.ended.map cString

theorem shows_start : Shows cliStart ⟨[], []⟩ :=
  ⟨List.length_replicate, rfl, Nat.zero_le _, rfl, rfl⟩

section Shows

variable {s : CliLine} {e : Edited}

/-- One character does to the array what it does to the line, or the line gets too long. -/
theorem Shows.round (h : Shows s e) (ch : UInt8) :
    (∃ s', cliRound s ch = some s' ∧ Shows s' (e.edit ch)) ∨
      (cliRound s ch = none ∧ ¬ (e.edit ch).line.length ≤ finshCmdSize) := by
  have hsize := h.size
  have hfits := h.fits
  have hline := h.line
  rw [h.len] at hline
  by_cases herase : ch = backspaceKey ∨ ch = delectKey
  · left
    simp only [cliRound, Edited.edit, if_pos herase, h.len]
    by_cases hempty : e.line.length = 0
    · have hnil := List.length_eq_zero_iff.mp hempty
      refine ⟨s, if_neg (not_not.mpr hempty), ?_⟩
      rw [hnil, List.dropLast_nil, ← hnil]
      exact h
    · refine ⟨_, if_pos hempty, List.length_set.trans hsize, List.length_dropLast.symm,
        by simp only [List.length_dropLast]; omega, ?_, h.executed⟩
      show (s.curLine.set (e.line.length - 1) 0).take (e.line.length - 1) = e.line.dropLast
      rw [List.take_set_of_le (Nat.le_refl _), List.dropLast_eq_take, ← hline, List.take_take,
        hline]
      congr 1
      omega
  · by_cases hend : ch = 0x0d ∨ ch = 0x0a
    · left
      simp only [cliRound, Edited.edit, if_neg herase, if_pos hend, h.len]
      by_cases hempty : e.line = []
      · refine ⟨_, if_neg (by simp [hempty]), hsize, rfl, Nat.zero_le _, rfl, ?_⟩
        rw [if_pos hempty]
        exact h.executed
      · refine ⟨_, if_pos (by simpa using hempty), hsize, rfl, Nat.zero_le _, rfl, ?_⟩
        rw [if_neg hempty, List.map_append, ← h.executed, hline]
        rfl
    · simp only [cliRound, Edited.edit, if_neg herase, if_neg hend, h.len, hsize]
      have hlength : (e.line ++ [ch]).length = e.line.length + 1 := by simp
      by_cases hroom : e.line.length < finshCmdSize
      · left
        refine ⟨_, if_pos hroom, List.length_set.trans hsize, hlength.symm, hlength ▸ hroom, ?_,
          h.executed⟩
        show (s.curLine.set e.line.length ch).take (e.line.length + 1) = e.line ++ [ch]
        rw [List.take_add_one, List.take_set_of_le (Nat.le_refl _), hline,
          List.getElem?_set_self (by omega)]
        rfl
      · right
        exact ⟨if_neg hroom, hlength ▸ hroom⟩

/-- The characters up to `ESC_KEY` do to the array what they do to the line, or the line gets too
long on the way. -/
theorem Shows.run (h : Shows s e) (chs : List UInt8) :
    (∃ s', clientCliParser s chs = some s' ∧
      Shows s' ((upTo escKey chs).foldl Edited.edit e) ∧
      ∀ front, front <+: upTo escKey chs →
        (front.foldl Edited.edit e).line.length ≤ finshCmdSize) ∨
    (clientCliParser s chs = none ∧ ∃ front, front <+: upTo escKey chs ∧
      ¬ (front.foldl Edited.edit e).line.length ≤ finshCmdSize) := by
  induction chs generalizing s e with
  | nil =>
      refine .inl ⟨s, rfl, h, fun front hfront => ?_⟩
      rw [List.prefix_nil.mp hfront]
      exact h.fits
  | cons ch chs ih =>
      by_cases hesc : ch = escKey
      · have hnone : upTo escKey (ch :: chs) = [] := by
          rw [hesc]
          exact List.takeWhile_cons_of_neg (by simp)
        refine .inl ⟨s, by rw [clientCliParser, if_pos hesc], hnone ▸ h, fun front hfront => ?_⟩
        rw [hnone] at hfront
        rw [List.prefix_nil.mp hfront]
        exact h.fits
      · have hmore : upTo escKey (ch :: chs) = ch :: upTo escKey chs :=
          List.takeWhile_cons_of_pos (by simpa using hesc)
        simp only [clientCliParser, if_neg hesc, hmore]
        rcases h.round ch with ⟨s', hround, hshows⟩ | ⟨hround, hlong⟩
        · rw [hround, Option.bind_some]
          rcases ih hshows with ⟨s'', hrun, hshows', hfits⟩ | ⟨hrun, front, hfront, hlong⟩
          · refine .inl ⟨s'', hrun, hshows', fun front hfront => ?_⟩
            rcases List.prefix_cons_iff.mp hfront with rfl | ⟨rest, rfl, hrest⟩
            · exact h.fits
            · exact hfits rest hrest
          · exact .inr ⟨hrun, ch :: front, List.cons_prefix_cons.mpr ⟨rfl, hfront⟩, hlong⟩
        · rw [hround]
          exact .inr ⟨rfl, [ch], List.cons_prefix_cons.mpr ⟨rfl, List.nil_prefix⟩, hlong⟩

end Shows

/-- The command line stays within `cur_line` exactly if no line gets longer than 30 characters on
the way, and executes then the lines as they were edited, each up to a null character. -/
theorem clientCliParser_edits (chs : List UInt8) :
    ((clientCliParser cliStart chs).isSome ↔
      ∀ front, front <+: upTo escKey chs → (edited front).line.length ≤ finshCmdSize) ∧
    ∀ s ∈ clientCliParser cliStart chs,
      s.executed = (edited (upTo escKey chs)).ended.map cString ∧
        s.curLine.take s.curLineLen = (edited (upTo escKey chs)).line := by
  rcases shows_start.run chs with ⟨s, hrun, hshows, hfits⟩ | ⟨hrun, front, hfront, hlong⟩
  · rw [hrun]
    refine ⟨iff_of_true rfl hfits, fun s' hs' => ?_⟩
    obtain rfl := Option.some.inj hs'
    exact ⟨hshows.executed, hshows.line⟩
  · rw [hrun]
    exact ⟨iff_of_false Bool.false_ne_true fun hall => hlong (hall front hfront),
      fun s hs => absurd hs (Option.not_mem_none s)⟩

example : (clientCliParser cliStart [0x41, 0x54, 0x55, 0x08, 0x0d, 0x1b, 0x41]).map
    (·.executed) = some [[0x41, 0x54]] := by decide

end AtCli
