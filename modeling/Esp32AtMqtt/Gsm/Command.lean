import Mathlib.Algebra.Order.Ring.Nat
import Esp32AtMqtt.Gsm.Thread

/-!
# The text of a command on the UART

`ESP32_SendCOM_AT_CMD` hands the command to `at_obj_exec_cmd` as the format of a `vsnprintf` with no
arguments. The formatted text goes to a buffer of 128 bytes, and as many bytes are sent from it as
the text has, also when the buffer has fewer.

So a command arrives as it is exactly when it has no percent sign and leaves room for the zero byte
(`unchanged_iff`).
-/

namespace Gsm.Thread

open AtCmd

/-- `AT_CMD_MAX_LEN`. -/
def atCmdMaxLen : ℕ := 128

/-- The static buffer `send_buf`. -/
structure SendBuf where
  bytes : List UInt8
  size : bytes.length = atCmdMaxLen

/-- The percent sign. -/
def percent : UInt8 := 0x25

/-- What a format with no arguments stands for. The standard defines it for `%%`; every other
conversion asks for an argument. -/
def formatted : List UInt8 → Option (List UInt8)
  | [] => some []
  | [b] => if b = percent then none else some [b]
  | b :: b' :: rest =>
      if b = percent then
        if b' = percent then (formatted rest).map (percent :: ·) else none
      else (formatted (b' :: rest)).map (b :: ·)

/-- The buffer behind `vsnprintf(send_buf, sizeof(send_buf), …)` that writes `text`. -/
def SendBuf.print (buf : SendBuf) (text : List UInt8) : SendBuf where
  bytes := text.take (atCmdMaxLen - 1) ++
    0 :: buf.bytes.drop ((text.take (atCmdMaxLen - 1)).length + 1)
  size := by
    have hsize := buf.size
    have hle : (text.take (atCmdMaxLen - 1)).length ≤ atCmdMaxLen - 1 := List.length_take_le _ _
    rw [List.length_append, List.length_cons, List.length_drop, hsize]
    rw [atCmdMaxLen] at hle ⊢
    omega

/-- What `vsnprintf` returns, in `last_cmd_len`: the length of the text, or -1 when that is not an
`int`. -/
def lastCmdLen (text : List UInt8) : UInt32 :=
  if text.length < 2 ^ 31 then UInt32.ofNat text.length else -1

/-- What has happened on the UART: the bytes sent, how many of them were read from `send_buf` on,
and the result. -/
structure UartOutcome where
  written : List UInt8
  read : ℕ
  result : ℤ
  deriving DecidableEq, Repr

/-- What does not depend on the text: whether `at_create_resp` succeeds, whether there is a
client, what the wait for the answer returns, and what `at_resp_parse_line_args_by_kw` does. -/
structure Surroundings where
  created : Bool
  client : Bool
  waited : ℤ
  parsed : ℤ
  deriving DecidableEq, Repr

section Send

variable (behind : List UInt8)

/-- `at_vprintf(device, format, args)`, with the bytes `behind` after `send_buf`. -/
def atVprintf (buf : SendBuf) (format : List UInt8) : Option (List UInt8 × ℕ) :=
  (formatted format).map fun text =>
    (((buf.print text).bytes ++ behind).take (lastCmdLen text).toNat, (lastCmdLen text).toNat)

/-- `at_vprintfln(device, format, args)`. -/
def atVprintfln (buf : SendBuf) (format : List UInt8) : Option (List UInt8 × ℕ) :=
  (atVprintf behind buf format).map fun (written, read) => (written ++ [0x0D, 0x0A], read)

/-- `at_obj_exec_cmd(client, resp, cmd_expr)`. -/
def atObjExecCmd (e : Surroundings) (buf : SendBuf) (cmdExpr : List UInt8) : Option UartOutcome :=
  if e.client then
    (atVprintfln behind buf cmdExpr).map fun (written, read) => ⟨written, read, e.waited⟩
  else some ⟨[], 0, -1⟩

/-- `ESP32_SendCOM_AT_CMD(AT_CMD, …)` for the string at `atCmd`; nothing is said when the standard
leaves open what `vsnprintf` does. -/
def esp32SendComAtCmd (e : Surroundings) (buf : SendBuf) (atCmd : List UInt8) :
    Option UartOutcome :=
  if e.created then
    (atObjExecCmd behind e buf (cString atCmd)).map fun sent =>
      { sent with result := if sent.result ≠ 0 then 1 else if 0 < e.parsed then 0 else -1 }
  else some ⟨[], 0, 1⟩

end Send

/-- The command was sent as it is, with CR LF behind it, or nothing was sent and the call has
failed; and no byte that is not in `send_buf` was sent. -/
structure Unchanged (cmd : List UInt8) (sent : UartOutcome) : Prop where
  text : sent.written = cmd ++ [0x0D, 0x0A] ∨ sent.written = [] ∧ sent.result ≠ 0
  inside : sent.read ≤ atCmdMaxLen

/-! ## The format -/

theorem formatted_of_not_mem {format : List UInt8} (h : percent ∉ format) :
    formatted format = some format := by
  induction format with
  | nil => rfl
  | cons b rest ih =>
      have hb : percent ≠ b := List.ne_of_not_mem_cons h
      have hrest : percent ∉ rest := List.not_mem_of_not_mem_cons h
      cases rest with
      | nil => rw [formatted, if_neg hb.symm]
      | cons b' rest => rw [formatted, if_neg hb.symm, ih hrest, Option.map_some]

/-- The text is not longer than the format, and shorter when there is a percent sign. -/
theorem length_formatted {format text : List UInt8} (h : formatted format = some text) :
    text.length ≤ format.length ∧ (text.length = format.length → percent ∉ format) := by
  induction format using formatted.induct generalizing text with
  | case1 =>
      rw [← Option.some.inj h]
      exact ⟨Nat.le_refl _, fun _ => List.not_mem_nil⟩
  | case2 => exact absurd h (by simp [formatted])
  | case3 b hb =>
      rw [formatted, if_neg hb] at h
      rw [← Option.some.inj h]
      exact ⟨Nat.le_refl _, fun _ hmem => hb (List.mem_singleton.mp hmem).symm⟩
  | case4 rest ih =>
      rw [formatted, if_pos rfl, if_pos rfl] at h
      obtain ⟨text', htext', rfl⟩ := Option.map_eq_some_iff.mp h
      have hle := (ih htext').1
      simp only [List.length_cons]
      exact ⟨by omega, fun heq => absurd heq (by omega)⟩
  | case5 b' rest hb' => exact absurd h (by simp [formatted, hb'])
  | case6 b b' rest hb ih =>
      rw [formatted, if_neg hb] at h
      obtain ⟨text', htext', rfl⟩ := Option.map_eq_some_iff.mp h
      obtain ⟨hle, hno⟩ := ih htext'
      refine ⟨Nat.succ_le_succ hle, fun heq hmem => ?_⟩
      rcases List.mem_cons.mp hmem with heq' | hmem
      · exact hb heq'.symm
      · exact hno (Nat.succ.inj heq) hmem

/-! ## The buffer -/

/-- A text that fits is in the buffer from the start on. -/
theorem SendBuf.take_print (buf : SendBuf) {text : List UInt8} (h : text.length < atCmdMaxLen)
    (behind : List UInt8) : ((buf.print text).bytes ++ behind).take text.length = text := by
  have hall : text.take (atCmdMaxLen - 1) = text := List.take_of_length_le (Nat.le_pred_of_lt h)
  show (text.take (atCmdMaxLen - 1) ++ 0 :: _ ++ behind).take text.length = text
  rw [hall, List.append_assoc]
  exact List.take_left' rfl

/-- Behind a text that does not fit, the last byte of the buffer is zero. -/
theorem SendBuf.getElem?_print (buf : SendBuf) {text : List UInt8} (h : atCmdMaxLen ≤ text.length)
    (behind : List UInt8) :
    ((buf.print text).bytes ++ behind)[atCmdMaxLen - 1]? = some 0 := by
  have hlen : (text.take (atCmdMaxLen - 1)).length = atCmdMaxLen - 1 :=
    List.length_take_of_le (Nat.le_trans (Nat.sub_le _ _) h)
  show (text.take (atCmdMaxLen - 1) ++ 0 :: _ ++ behind)[atCmdMaxLen - 1]? = some 0
  rw [List.append_assoc, List.getElem?_append_right (Nat.le_of_eq hlen), hlen, Nat.sub_self]
  rfl

theorem cString_not_mem (s : List UInt8) : 0 ∉ cString s := Ended.not_mem_upTo 0 s

/-- `last_cmd_len` for a text that fits. -/
theorem lastCmdLen_of_lt {text : List UInt8} (h : text.length < atCmdMaxLen) :
    (lastCmdLen text).toNat = text.length := by
  have hsmall : text.length < 2 ^ 31 := Nat.lt_trans h (by decide)
  rw [lastCmdLen, if_pos hsmall, UInt32.toNat_ofNat',
    Nat.mod_eq_of_lt (Nat.lt_trans hsmall (by decide))]

/-- `last_cmd_len` for a text that does not fit. -/
theorem le_lastCmdLen {text : List UInt8} (h : atCmdMaxLen ≤ text.length) :
    atCmdMaxLen ≤ (lastCmdLen text).toNat := by
  rw [lastCmdLen]
  by_cases hsmall : text.length < 2 ^ 31
  · rw [if_pos hsmall, UInt32.toNat_ofNat', Nat.mod_eq_of_lt (Nat.lt_trans hsmall (by decide))]
    exact h
  · rw [if_neg hsmall]
    exact (by decide : atCmdMaxLen ≤ (-1 : UInt32).toNat)

/-- What is sent of a command is the command exactly when it has no percent sign and fits. -/
theorem atVprintf_eq_iff (behind : List UInt8) (buf : SendBuf) {cmd : List UInt8}
    (hzero : 0 ∉ cmd) :
    (∃ read, atVprintf behind buf cmd = some (cmd, read)) ↔
      percent ∉ cmd ∧ cmd.length < atCmdMaxLen := by
  constructor
  · rintro ⟨read, h⟩
    obtain ⟨text, htext, heq⟩ := Option.map_eq_some_iff.mp h
    have htake := congrArg Prod.fst heq
    simp only at htake
    obtain ⟨hle, hno⟩ := length_formatted htext
    by_cases hfits : text.length < atCmdMaxLen
    · rw [lastCmdLen_of_lt hfits, buf.take_print hfits] at htake
      rw [← htake]
      exact ⟨htake ▸ hno (congrArg List.length htake), hfits⟩
    · -- The zero byte would be a byte of the command.
      rw [Nat.not_lt] at hfits
      have hlast : cmd[atCmdMaxLen - 1]? = some 0 := by
        have hin : atCmdMaxLen - 1 < (lastCmdLen text).toNat :=
          Nat.lt_of_lt_of_le (by decide) (le_lastCmdLen hfits)
        rw [← htake, List.getElem?_take_of_lt hin]
        exact buf.getElem?_print hfits behind
      exact absurd (List.mem_of_getElem? hlast) hzero
  · rintro ⟨hno, hfits⟩
    refine ⟨cmd.length, ?_⟩
    rw [atVprintf, formatted_of_not_mem hno, Option.map_some, lastCmdLen_of_lt hfits]
    exact congrArg (fun text => some (text, cmd.length)) (buf.take_print hfits behind)

/-- Whatever is sent, its length is `last_cmd_len`. -/
theorem atVprintf_read {behind : List UInt8} {buf : SendBuf} {cmd : List UInt8} {read : ℕ}
    (h : atVprintf behind buf cmd = some (cmd, read)) (hno : percent ∉ cmd)
    (hfits : cmd.length < atCmdMaxLen) : read = cmd.length := by
  rw [atVprintf, formatted_of_not_mem hno, Option.map_some, lastCmdLen_of_lt hfits] at h
  exact (congrArg Prod.snd (Option.some.inj h)).symm

/-- A command is sent as it is, or the call fails and sends nothing, exactly if there is no response
object, or no client, or the command has no percent sign and fewer bytes than the buffer. -/
theorem unchanged_iff (behind : List UInt8) (e : Surroundings) (buf : SendBuf)
    (atCmd : List UInt8) :
    (∃ sent, esp32SendComAtCmd behind e buf atCmd = some sent ∧ Unchanged (cString atCmd) sent) ↔
      e.created = false ∨ e.client = false ∨
        percent ∉ cString atCmd ∧ (cString atCmd).length < atCmdMaxLen := by
  rw [esp32SendComAtCmd]
  cases hcreated : e.created with
  | false =>
      rw [if_neg Bool.false_ne_true]
      exact iff_of_true ⟨_, rfl, .inr ⟨rfl, by decide⟩, Nat.zero_le _⟩ (.inl rfl)
  | true =>
      rw [if_pos rfl, atObjExecCmd]
      cases hclient : e.client with
      | false =>
          rw [if_neg Bool.false_ne_true]
          exact iff_of_true ⟨_, rfl, .inr ⟨rfl, Int.one_ne_zero⟩, Nat.zero_le _⟩ (.inr (.inl rfl))
      | true =>
          rw [if_pos rfl, atVprintfln, ← atVprintf_eq_iff behind buf (cString_not_mem atCmd)]
          constructor
          · rintro ⟨sent, hsent, htext, -⟩
            obtain ⟨sent', hsent', rfl⟩ := Option.map_eq_some_iff.mp hsent
            obtain ⟨⟨written', read'⟩, hwritten', rfl⟩ := Option.map_eq_some_iff.mp hsent'
            obtain ⟨⟨written, read⟩, hwritten, heq⟩ := Option.map_eq_some_iff.mp hwritten'
            obtain ⟨rfl, rfl⟩ := Prod.mk.inj heq
            rcases htext with heq | ⟨hnil, -⟩
            · rw [List.append_cancel_right heq] at hwritten
              exact .inr (.inr ⟨read, hwritten⟩)
            · exact absurd hnil (List.append_ne_nil_of_right_ne_nil _ (List.cons_ne_nil _ _))
          · rintro (hfalse | hfalse | ⟨read, h⟩)
            · exact absurd hfalse.symm Bool.false_ne_true
            · exact absurd hfalse.symm Bool.false_ne_true
            · obtain ⟨hno, hfits⟩ :=
                (atVprintf_eq_iff behind buf (cString_not_mem atCmd)).mp ⟨read, h⟩
              rw [h]
              refine ⟨_, rfl, .inl rfl, ?_⟩
              show read ≤ atCmdMaxLen
              rw [atVprintf_read h hno hfits]
              exact Nat.le_of_lt hfits

/-- `AT+CWJAP` with a password that ends with two percent signs. -/
def percentKey : List UInt8 := (AtCommand.connectGW (bytes "A") (bytes "50%%")).text

/-- Of two percent signs one arrives. -/
theorem percent_lost :
    ¬ ∀ (behind : List UInt8) (e : Surroundings) (buf : SendBuf) (atCmd : List UInt8), ∃ sent,
      esp32SendComAtCmd behind e buf atCmd = some sent ∧ Unchanged (cString atCmd) sent := by
  intro hall
  obtain ⟨sent, hsent, htext, -⟩ :=
    hall [] ⟨true, true, 0, 1⟩ ⟨List.replicate atCmdMaxLen 0, rfl⟩ percentKey
  have hwritten : (esp32SendComAtCmd [] ⟨true, true, 0, 1⟩
      ⟨List.replicate atCmdMaxLen 0, rfl⟩ percentKey).map UartOutcome.written =
        some (bytes "AT+CWJAP=\"A\",\"50%\"" ++ [0x0D, 0x0A]) := by decide +kernel
  rw [hsent] at hwritten
  rw [Option.some.inj hwritten] at htext
  exact absurd htext (not_or.mpr ⟨by decide +kernel, fun h => absurd h.1 (by decide +kernel)⟩)

/-- The command with name and password arrives as it is exactly when neither has a percent sign
and both together have less than 114 bytes. -/
theorem connectGW_sent_iff (behind : List UInt8) (buf : SendBuf) (gwName gwKey : List UInt8) :
    (∃ read, atVprintf behind buf (AtCommand.connectGW gwName gwKey).text =
        some ((AtCommand.connectGW gwName gwKey).text, read)) ↔
      percent ∉ cString gwName ∧ percent ∉ cString gwKey ∧ strlen gwName + strlen gwKey < 114 := by
  have hname := cString_not_mem gwName
  have hkey := cString_not_mem gwKey
  have hmem : ∀ b, b ∉ bytes "AT+CWJAP=\"" → b ∉ bytes "\",\"" → b ∉ bytes "\"" →
      (b ∈ (AtCommand.connectGW gwName gwKey).text ↔ b ∈ cString gwName ∨ b ∈ cString gwKey) := by
    intro b h h' h''
    simp only [AtCommand.text, List.mem_append, h, h', h'', false_or, or_false]
  have hzero : 0 ∉ (AtCommand.connectGW gwName gwKey).text :=
    (hmem 0 (by decide) (by decide) (by decide)).not.mpr (not_or.mpr ⟨hname, hkey⟩)
  have hlength : (AtCommand.connectGW gwName gwKey).text.length =
      strlen gwName + strlen gwKey + 14 := by
    simp only [AtCommand.text, List.length_append, strlen]
    show 10 + _ + 3 + _ + 1 = _
    omega
  have hfits : strlen gwName + strlen gwKey + 14 < atCmdMaxLen ↔
      strlen gwName + strlen gwKey < 114 := Nat.add_lt_add_iff_right
  rw [atVprintf_eq_iff behind buf hzero, hmem percent (by decide) (by decide) (by decide), hlength,
    not_or, and_assoc, hfits]

end Gsm.Thread
