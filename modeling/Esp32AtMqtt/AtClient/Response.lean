import Esp32AtMqtt.Stream.Ended
import Mathlib.Tactic.Common
import Mathlib.Data.Int.Notation
import Mathlib.Data.List.Basic

/-!
# Response objects

`struct at_response` with the functions that make, change and read it. A pointer into
`buf` is the list of the bytes from there on, and a string is read off such a list up to
its first zero byte, as the C library does.

The parser stores a line with its last byte replaced by a zero byte, one behind the
other; `atRespGetLine_stored` is what `at_resp_get_line` finds then.
-/

namespace AtCmd

/-- `struct at_response`. `buf_size` is the length of `buf`, as `at_create_resp` and
`at_resp_set_info` leave it. -/
structure AtResponse where
  buf : List UInt8
  lineNum : ℕ
  lineCounts : ℕ
  timeout : ℤ
  deriving DecidableEq, Repr

/-- The field `buf_size`. -/
def AtResponse.bufSize (resp : AtResponse) : ℕ := resp.buf.length

/-- `at_create_resp(buf_size, line_num, timeout)` when the memory is there. -/
def atCreateResp (bufSize lineNum : ℕ) (timeout : ℤ) : AtResponse :=
  ⟨List.replicate bufSize 0, lineNum, 0, timeout⟩

/-- `at_resp_set_info(resp, buf_size, line_num, timeout)` when the memory is there;
`fresh` are the bytes that a longer block has behind the old ones. -/
def atRespSetInfo (resp : AtResponse) (bufSize lineNum : ℕ) (timeout : ℤ)
    (fresh : List UInt8) : AtResponse :=
  { resp with
    buf := if resp.bufSize ≠ bufSize then (resp.buf ++ fresh).take bufSize else resp.buf
    lineNum := lineNum
    timeout := timeout }

/-- `memcpy(resp->buf + off, bytes, …)`. -/
def AtResponse.memcpy (resp : AtResponse) (off : ℕ) (bytes : List UInt8) : AtResponse :=
  { resp with buf := resp.buf.take off ++ bytes ++ resp.buf.drop (off + bytes.length) }

/-- The string at `s`. -/
def cString (s : List UInt8) : List UInt8 := s.takeWhile (· ≠ 0)

/-- `strlen(s)`. -/
def strlen (s : List UInt8) : ℕ := (cString s).length

/-- The rest of the loop of `at_resp_get_line`, `n` rounds from the end. -/
def getLineFrom (respLine : ℕ) : ℕ → ℕ → List UInt8 → Option (List UInt8)
  | 0, _, _ => none
  | n + 1, lineNum, respBuf =>
      if respLine = lineNum then some respBuf
      else getLineFrom respLine n (lineNum + 1) (respBuf.drop (strlen respBuf + 1))

/-- `at_resp_get_line(resp, resp_line)`; `none` is `RT_NULL`. -/
def atRespGetLine (resp : AtResponse) (respLine : ℕ) : Option (List UInt8) :=
  if respLine > resp.lineCounts ∨ respLine ≤ 0 then none
  else getLineFrom respLine resp.lineCounts 1 resp.buf

/-- A line as the parser stores it: `recv_buffer[cur_recv_len - 1] = '\0'`. -/
def terminated (line : List UInt8) : List UInt8 := line.dropLast ++ [0]

/-- A line that a string can hold: no zero byte in front of its last byte. -/
def LineOk (line : List UInt8) : Prop := line ≠ [] ∧ 0 ∉ line.dropLast

instance (line : List UInt8) : Decidable (LineOk line) :=
  inferInstanceAs (Decidable (_ ∧ _))

/-- `resp` holds exactly the lines: they are counted, and `at_resp_get_line` gives the
`k`-th of them for every `k`. -/
def AtResponse.Holds (resp : AtResponse) (lines : List (List UInt8)) : Prop :=
  resp.lineCounts = lines.length ∧ (atRespGetLine resp 0).map cString = none ∧
    ∀ k, (atRespGetLine resp (k + 1)).map cString = lines[k]?.map List.dropLast

theorem length_terminated {line : List UInt8} (h : line ≠ []) :
    (terminated line).length = line.length := by
  have hpos : 0 < line.length := List.length_pos_iff.mpr h
  simp only [terminated, List.length_append, List.length_dropLast, List.length_singleton]
  omega

/-- The string in front of a stored line is the line without its last byte. -/
theorem cString_terminated {line : List UInt8} (h : 0 ∉ line.dropLast) (rest : List UInt8) :
    cString (terminated line ++ rest) = line.dropLast := by
  rw [terminated, List.append_assoc, List.singleton_append]
  exact Ended.upTo_append_mark h rest

theorem drop_terminated {line : List UInt8} (h : 0 ∉ line.dropLast) (rest : List UInt8) :
    (terminated line ++ rest).drop (strlen (terminated line ++ rest) + 1) = rest := by
  rw [strlen, cString_terminated h]
  exact List.drop_left' (by simp [terminated])

/-- The loop passes one stored line a round. -/
theorem getLineFrom_stored {lines : List (List UInt8)} (h : ∀ line ∈ lines, LineOk line)
    (rest : List UInt8) (i n : ℕ) :
    (getLineFrom (n + i) lines.length n ((lines.map terminated).flatten ++ rest)).map cString =
      lines[i]?.map List.dropLast := by
  induction lines generalizing i n with
  | nil => rfl
  | cons line lines ih =>
      have hline : 0 ∉ line.dropLast := (h line List.mem_cons_self).2
      have hlines : ∀ l ∈ lines, LineOk l := fun l hl => h l (List.mem_cons_of_mem line hl)
      rw [List.length_cons, List.map_cons, List.flatten_cons, List.append_assoc, getLineFrom]
      cases i with
      | zero => simp [cString_terminated hline]
      | succ i =>
          rw [if_neg (by omega), drop_terminated hline, show n + (i + 1) = n + 1 + i by omega]
          exact ih hlines i (n + 1)

/-- A counted buffer that begins with the stored lines holds exactly these. -/
theorem atRespGetLine_stored {resp : AtResponse} {lines : List (List UInt8)}
    (h : ∀ line ∈ lines, LineOk line) (hcount : resp.lineCounts = lines.length)
    (hbuf : (lines.map terminated).flatten <+: resp.buf) : resp.Holds lines := by
  obtain ⟨rest, hrest⟩ := hbuf
  refine ⟨hcount, by simp [atRespGetLine], fun k => ?_⟩
  rw [atRespGetLine]
  by_cases hk : k < lines.length
  · rw [if_neg (by omega), ← hrest, hcount, Nat.add_comm k 1]
    exact getLineFrom_stored h rest k 1
  · rw [if_pos (Or.inl (by omega)), List.getElem?_eq_none (by omega)]
    rfl

/-- The new size, when the bytes for it are there. -/
theorem bufSize_atRespSetInfo {resp : AtResponse} {bufSize lineNum : ℕ} {timeout : ℤ}
    {fresh : List UInt8} (h : bufSize ≤ resp.bufSize + fresh.length) :
    (atRespSetInfo resp bufSize lineNum timeout fresh).bufSize = bufSize := by
  rw [AtResponse.bufSize, atRespSetInfo]
  split_ifs with hne
  · rw [List.length_take, List.length_append]
    exact Nat.min_eq_left h
  · exact not_not.mp hne

/-- A copy behind the first `off` bytes extends what the buffer begins with. -/
theorem AtResponse.take_memcpy {resp : AtResponse} {off : ℕ} (h : off ≤ resp.bufSize)
    (bytes : List UInt8) :
    (resp.memcpy off bytes).buf.take (off + bytes.length) = resp.buf.take off ++ bytes := by
  have hoff : (resp.buf.take off).length = off := List.length_take_of_le h
  have hlen : (resp.buf.take off ++ bytes).length = off + bytes.length := by
    rw [List.length_append, hoff]
  rw [AtResponse.memcpy, List.take_left' hlen]

theorem AtResponse.bufSize_memcpy {resp : AtResponse} {off : ℕ} {bytes : List UInt8}
    (h : off + bytes.length ≤ resp.bufSize) : (resp.memcpy off bytes).bufSize = resp.bufSize := by
  unfold AtResponse.bufSize at h ⊢
  simp only [AtResponse.memcpy, List.length_append, List.length_take, List.length_drop]
  omega

end AtCmd
