import Esp32AtMqtt.AtClient.Exchange
import Esp32AtMqtt.Transition.Run

/-!
# Looking up a line of a response

`client_parser` puts the lines of a response one behind the other, and `at_resp_get_line` and
`at_resp_get_line_by_kw` go through them from string to string. Here a pointer into the buffer is
the place that it points to, and a string that does not end in the buffer gives `none`. The
readers are given any buffer that begins with the stored bytes, the stored bytes alone among them,
so that they read no others (`lineLookup`).
-/

namespace AtCmd

open Transition

namespace Lookup

/-- The string at a place of the buffer. -/
def stringAt (buf : List UInt8) (off : ℕ) : Option (List UInt8) :=
  let s := cString (buf.drop off)
  if off + s.length < buf.length then some s else none

/-- The loop of `at_resp_get_line` with `n` rounds to go; inside, `none` is `RT_NULL`. -/
def getLineLoop (buf : List UInt8) (respLine : ℕ) : ℕ → ℕ → ℕ → Option (Option ℕ)
  | 0, _, _ => some none
  | n + 1, lineNum, respBuf =>
      if respLine = lineNum then some (some respBuf)
      else
        (stringAt buf respBuf).bind fun s =>
          getLineLoop buf respLine n (lineNum + 1) (respBuf + s.length + 1)

/-- `at_resp_get_line(resp, resp_line)`. -/
def atRespGetLine (resp : AtResponse) (respLine : ℕ) : Option (Option ℕ) :=
  if respLine > resp.lineCounts ∨ respLine ≤ 0 then some none
  else getLineLoop resp.buf respLine resp.lineCounts 1 0

/-- The loop of `at_resp_get_line_by_kw`. -/
def getLineByKwLoop (buf keyword : List UInt8) : ℕ → ℕ → Option (Option ℕ)
  | 0, _ => some none
  | n + 1, respBuf =>
      (stringAt buf respBuf).bind fun s =>
        if keyword <:+: s then some (some respBuf)
        else getLineByKwLoop buf keyword n (respBuf + s.length + 1)

/-- `at_resp_get_line_by_kw(resp, keyword)`. -/
def atRespGetLineByKw (resp : AtResponse) (keyword : List UInt8) : Option (Option ℕ) :=
  getLineByKwLoop resp.buf keyword resp.lineCounts 0

/-- What is found without leaving the buffer is the list that the pointer stands for. -/
theorem getLineFrom_eq {buf : List UInt8} {respLine : ℕ} {r : Option ℕ} (n lineNum off : ℕ)
    (h : getLineLoop buf respLine n lineNum off = some r) :
    getLineFrom respLine n lineNum (buf.drop off) = r.map buf.drop := by
  induction n generalizing lineNum off with
  | zero =>
      obtain rfl := Option.some.inj h
      rfl
  | succ n ih =>
      rw [getLineLoop] at h
      rw [getLineFrom]
      split_ifs at h with hline
      · obtain rfl := Option.some.inj h
        rw [if_pos hline, Option.map_some]
      · obtain ⟨s, hs, hrest⟩ := Option.bind_eq_some_iff.mp h
        have hstring : s = cString (buf.drop off) := by
          simp only [stringAt, Option.ite_none_right_eq_some, Option.some.injEq] at hs
          exact hs.2.symm
        rw [if_neg hline, List.drop_drop, ← ih (lineNum + 1) _ hrest, hstring, strlen,
          Nat.add_assoc]

theorem atRespGetLine_eq {resp : AtResponse} {respLine : ℕ} {r : Option ℕ}
    (h : atRespGetLine resp respLine = some r) :
    AtCmd.atRespGetLine resp respLine = r.map resp.buf.drop := by
  rw [atRespGetLine] at h
  rw [AtCmd.atRespGetLine]
  split_ifs at h ⊢ with hout
  · obtain rfl := Option.some.inj h
    rfl
  · exact getLineFrom_eq _ _ 0 h

end Lookup

/-! ## Storing -/

/-- `client_parser` between two lines of a response: the response object, `resp_buf_len`,
`line_counts`, and the lines that it has stored. -/
structure Storage where
  resp : AtResponse
  respBufLen : ℕ
  lineCounts : ℕ
  lines : List (List UInt8)

namespace Storage

/-- What `client_parser` does with a line of a response. -/
def store (s : Storage) (line : List UInt8) : Storage :=
  let recvBuffer := terminated line
  if s.respBufLen + recvBuffer.length < s.resp.bufSize then
    { resp := s.resp.memcpy s.respBufLen recvBuffer
      respBufLen := s.respBufLen + recvBuffer.length
      lineCounts := s.lineCounts + 1
      lines := s.lines ++ [line] }
  else s

/-- The lines of a response, one after another. -/
def storeAll (resp : AtResponse) (lines : List (List UInt8)) : Storage :=
  lines.foldl store ⟨resp, 0, 0, []⟩

/-- The bytes that are stored. -/
def bytes (s : Storage) : List UInt8 := (s.lines.map terminated).flatten

/-- The response once it is complete, with what may be read of its buffer. -/
def completed (s : Storage) (buf : List UInt8) : AtResponse :=
  { s.resp with buf := buf, lineCounts := s.lineCounts }

/-- What the parser keeps: the counters say what stands at the front of the buffer. -/
structure Ok (s : Storage) : Prop where
  take_eq : s.resp.buf.take s.respBufLen = s.bytes
  room : s.respBufLen ≤ s.resp.bufSize
  len_eq : s.respBufLen = s.lines.flatten.length
  counts_eq : s.lineCounts = s.lines.length
  lines_ok : ∀ line ∈ s.lines, LineOk line

theorem ok_empty (resp : AtResponse) : Ok ⟨resp, 0, 0, []⟩ :=
  ⟨rfl, Nat.zero_le _, rfl, rfl, fun _ h => absurd h List.not_mem_nil⟩

/-- One line, stored or not. -/
theorem ok_store {s : Storage} (h : s.Ok) {line : List UInt8} (hline : LineOk line) :
    (s.store line).Ok := by
  have hlen := length_terminated hline.1
  rw [store]
  split_ifs with hfits
  · constructor
    · rw [AtResponse.take_memcpy h.room, h.take_eq, bytes, bytes, List.map_append,
        List.flatten_append, List.map_singleton, List.flatten_singleton]
    · rw [AtResponse.bufSize_memcpy hfits.le]
      exact hfits.le
    · rw [List.flatten_append, List.flatten_singleton, List.length_append, hlen, h.len_eq]
    · rw [List.length_append, List.length_singleton, h.counts_eq]
    · exact List.forall_mem_append.mpr ⟨h.lines_ok, List.forall_mem_singleton.mpr hline⟩
  · exact h

theorem ok_foldl {lines : List (List UInt8)} (hlines : ∀ line ∈ lines, LineOk line) {s : Storage}
    (h : s.Ok) : (lines.foldl store s).Ok := by
  induction lines generalizing s with
  | nil => exact h
  | cons line lines ih =>
      obtain ⟨hline, hrest⟩ := List.forall_mem_cons.mp hlines
      exact ih hrest (ok_store h hline)

/-- All lines are stored while they fit. -/
theorem lines_foldl {lines : List (List UInt8)} (hlines : ∀ line ∈ lines, LineOk line) {s : Storage}
    (h : s.Ok) (hfits : s.respBufLen + lines.flatten.length < s.resp.bufSize) :
    (lines.foldl store s).lines = s.lines ++ lines := by
  induction lines generalizing s with
  | nil => exact (List.append_nil _).symm
  | cons line lines ih =>
      obtain ⟨hline, hrest⟩ := List.forall_mem_cons.mp hlines
      have hlen := length_terminated hline.1
      rw [List.flatten_cons, List.length_append, ← Nat.add_assoc, ← hlen] at hfits
      have hroom : s.respBufLen + (terminated line).length < s.resp.bufSize := by omega
      have hnext : s.store line = { resp := s.resp.memcpy s.respBufLen (terminated line)
                                    respBufLen := s.respBufLen + (terminated line).length
                                    lineCounts := s.lineCounts + 1
                                    lines := s.lines ++ [line] } := if_pos hroom
      have hsize : (s.store line).resp.bufSize = s.resp.bufSize := by
        rw [hnext, AtResponse.bufSize_memcpy hroom.le]
      have hused : (s.store line).respBufLen = s.respBufLen + (terminated line).length := by
        rw [hnext]
      have hstored : (s.store line).lines = s.lines ++ [line] := by
        rw [hnext]
      rw [List.foldl_cons, ih hrest (ok_store h hline) (by rw [hused, hsize]; exact hfits), hstored,
        List.append_assoc, List.singleton_append]

/-- The parser stands at this storage of the response `r`. -/
structure Shown (s : ClientRun) (r : ℕ) (u : Storage) : Prop where
  resp : s.heap[r]? = some u.resp
  respBufLen : s.parser.respBufLen = u.respBufLen
  lineCounts : s.parser.lineCounts = u.lineCounts

/-- Between taking a line for the registered response and looking what line it is, the parser stores
it so. -/
theorem parser_stores {s : ClientRun} {r : ℕ} {u : Storage} (h : Shown s r u)
    (hpc : s.parser.pc = .test) (hr : s.client.resp = some r) :
    ∃ as t, Run step unconditional s as t ∧ (∀ a ∈ as, a = .parser) ∧ t.parser.pc = .okLine ∧
      Shown t r (u.store s.parser.recvBuffer) := by
  let line := terminated s.parser.recvBuffer
  let s₁ : ClientRun := { s with
    got := s.got ++ [s.parser.recvBuffer]
    parser := { s.parser with pc := .size, recvBuffer := line, owner := s.call.map Call.id } }
  have htest : step s .parser = some s₁ := by
    simp only [step, parserStep, hpc, hr]
    rfl
  have hsize : step s₁ .parser = some (s₁.parserAt
      (if u.respBufLen + line.length < u.resp.bufSize then .loadBuf else .full)) := by
    rw [← h.respBufLen]
    exact congrArg some (useResp_eq (s := s₁) hr h.resp _)
  have hrun : Run step unconditional s [.parser, .parser] (s₁.parserAt
      (if u.respBufLen + line.length < u.resp.bufSize then .loadBuf else .full)) :=
    (Run.nil.snoc trivial htest).snoc trivial hsize
  by_cases hfits : u.respBufLen + line.length < u.resp.bufSize
  · let t : ClientRun := { s₁ with
      heap := s.heap.modify r fun resp => resp.memcpy s.parser.respBufLen line
      parser := { s₁.parser with
        pc := .okLine
        respBufLen := s.parser.respBufLen + line.length
        lineCounts := s.parser.lineCounts + 1 } }
    have hload : step (s₁.parserAt .loadBuf) .parser = some (s₁.parserAt (.copy r)) :=
      congrArg some (useResp_eq (s := s₁.parserAt .loadBuf) hr h.resp _)
    have hcopy : step (s₁.parserAt (.copy r)) .parser = some t := rfl
    rw [if_pos hfits] at hrun
    refine ⟨_, t, (hrun.snoc trivial hload).snoc trivial hcopy, by simp, rfl, ?_⟩
    rw [store, if_pos hfits]
    constructor
    · show (s.heap.modify r fun resp => resp.memcpy s.parser.respBufLen line)[r]? = _
      rw [List.getElem?_modify_eq, h.resp, h.respBufLen]
      rfl
    · exact congrArg (· + line.length) h.respBufLen
    · exact congrArg (· + 1) h.lineCounts
  · let t := { s₁ with client := { s.client with respStatus := .buffFull } }.parserAt .okLine
    have hfull : step (s₁.parserAt .full) .parser = some t := rfl
    rw [if_neg hfits] at hrun
    refine ⟨_, t, hrun.snoc trivial hfull, by simp, rfl, ?_⟩
    rw [store, if_neg hfits]
    exact ⟨h.resp, h.respBufLen, h.lineCounts⟩

end Storage

/-! ## Reading -/

/-- Where the line with `i` lines in front of it begins. -/
def lineStart (lines : List (List UInt8)) (i : ℕ) : ℕ := (lines.take i).flatten.length

theorem lineStart_succ (line : List UInt8) (lines : List (List UInt8)) (i : ℕ) :
    lineStart (line :: lines) (i + 1) = line.length + lineStart lines i := by
  rw [lineStart, List.take_succ_cons, List.flatten_cons, List.length_append, lineStart]

namespace Lookup

section Stored

variable {line : List UInt8} {lines : List (List UInt8)}

/-- The string of a stored line ends with it. -/
theorem stringAt_stored (hline : LineOk line) (front rest : List UInt8) :
    stringAt (front ++ (terminated line ++ rest)) front.length = some line.dropLast := by
  have hstring : cString ((front ++ (terminated line ++ rest)).drop front.length) =
      line.dropLast := by
    rw [List.drop_left, cString_terminated hline.2]
  have hlen : (terminated line).length = line.dropLast.length + 1 := List.length_append
  rw [stringAt, hstring]
  apply if_pos
  rw [List.length_append, List.length_append, hlen]
  omega

/-- Behind the string of a stored line the next line begins. -/
theorem next_eq (line front : List UInt8) :
    front.length + line.dropLast.length + 1 = (front ++ terminated line).length := by
  rw [terminated, List.length_append, List.length_append, List.length_singleton, Nat.add_assoc]

theorem length_front (hline : LineOk line) (front : List UInt8) :
    (front ++ terminated line).length = front.length + line.length := by
  rw [List.length_append, length_terminated hline.1]

theorem flatten_cons (line front rest : List UInt8) (lines : List (List UInt8)) :
    front ++ (((line :: lines).map terminated).flatten ++ rest) =
      front ++ (terminated line ++ ((lines.map terminated).flatten ++ rest)) := by
  rw [List.map_cons, List.flatten_cons, List.append_assoc]

/-- The loop passes one stored line a round, until it has the number. -/
theorem getLineLoop_stored (h : ∀ line ∈ lines, LineOk line) (front rest : List UInt8) (i n : ℕ) :
    getLineLoop (front ++ ((lines.map terminated).flatten ++ rest)) (n + i) lines.length n
        front.length =
      some (if i < lines.length then some (front.length + lineStart lines i) else none) := by
  induction lines generalizing front i n with
  | nil => rfl
  | cons line lines ih =>
      obtain ⟨hline, hrest⟩ := List.forall_mem_cons.mp h
      rw [flatten_cons, List.length_cons, getLineLoop]
      cases i with
      | zero =>
          rw [Nat.add_zero, if_pos rfl, if_pos (Nat.succ_pos _)]
          rfl
      | succ i =>
          have hnext := ih hrest (front ++ terminated line) i (n + 1)
          have hnum : n + (i + 1) = n + 1 + i := by omega
          rw [if_neg (by omega), stringAt_stored hline, Option.bind_some, next_eq,
            ← List.append_assoc, hnum, hnext, length_front hline, lineStart_succ,
            Nat.add_assoc]
          simp only [Nat.succ_lt_succ_iff]

/-- It passes the lines without the keyword. -/
theorem getLineByKwLoop_stored (h : ∀ line ∈ lines, LineOk line) (keyword front rest : List UInt8) :
    getLineByKwLoop (front ++ ((lines.map terminated).flatten ++ rest)) keyword lines.length
        front.length =
      some ((lines.findIdx? fun line => keyword <:+: line.dropLast).map
        fun i => front.length + lineStart lines i) := by
  induction lines generalizing front with
  | nil => rfl
  | cons line lines ih =>
      obtain ⟨hline, hrest⟩ := List.forall_mem_cons.mp h
      have hnext := ih hrest (front ++ terminated line)
      rw [flatten_cons, List.length_cons, getLineByKwLoop, stringAt_stored hline, Option.bind_some,
        List.findIdx?_cons]
      by_cases hhas : keyword <:+: line.dropLast
      · simp only [hhas, if_true, decide_true, Option.map_some]
        rfl
      · simp only [hhas, if_false, decide_false, Bool.false_eq_true, Option.map_map]
        rw [next_eq, ← List.append_assoc, hnext, length_front hline]
        simp only [Function.comp_def, lineStart_succ, Nat.add_assoc]

end Stored

end Lookup

/-- In `buf` the readers find the stored lines: each stands where it begins, `at_resp_get_line`
finds that place by the number of the line and none by another number, and
`at_resp_get_line_by_kw` finds the first one with the keyword. -/
structure Storage.FoundIn (s : Storage) (buf : List UInt8) : Prop where
  line_at : ∀ i line, s.lines[i]? = some line → terminated line <+: buf.drop (lineStart s.lines i)
  getLine : ∀ k, Lookup.atRespGetLine (s.completed buf) k =
    some (if 1 ≤ k ∧ k ≤ s.lineCounts then some (lineStart s.lines (k - 1)) else none)
  getLineByKw : ∀ keyword, Lookup.atRespGetLineByKw (s.completed buf) keyword =
    some ((s.lines.findIdx? fun line => keyword <:+: line.dropLast).map (lineStart s.lines))

theorem length_flatten_terminated {lines : List (List UInt8)} (h : ∀ line ∈ lines, LineOk line) :
    (lines.map terminated).flatten.length = lines.flatten.length := by
  induction lines with
  | nil => rfl
  | cons line lines ih =>
      obtain ⟨hline, hrest⟩ := List.forall_mem_cons.mp h
      rw [List.map_cons, List.flatten_cons, List.flatten_cons, List.length_append,
        List.length_append, length_terminated hline.1, ih hrest]

/-- The stored bytes are all that the readers need. -/
theorem Storage.Ok.foundIn {s : Storage} (h : s.Ok) {buf : List UInt8} (hbuf : s.bytes <+: buf) :
    s.FoundIn buf := by
  obtain ⟨rest, rfl⟩ := hbuf
  constructor
  · intro i line hline
    have hlt := (List.getElem?_eq_some_iff.mp hline).1
    have hget : s.lines[i] = line := (List.getElem?_eq_some_iff.mp hline).2
    have hsplit : s.lines = s.lines.take i ++ line :: s.lines.drop (i + 1) := by
      rw [← hget, List.getElem_cons_drop, List.take_append_drop]
    have hfront : ∀ l ∈ s.lines.take i, LineOk l := fun l hl =>
      h.lines_ok l (List.mem_of_mem_take hl)
    have hbytes : s.bytes = ((s.lines.take i).map terminated).flatten ++
        (terminated line ++ ((s.lines.drop (i + 1)).map terminated).flatten) := by
      conv_lhs => rw [bytes, hsplit]
      rw [List.map_append, List.flatten_append, List.map_cons, List.flatten_cons]
    rw [hbytes, List.append_assoc, lineStart, ← length_flatten_terminated hfront, List.drop_left,
      List.append_assoc]
    exact List.prefix_append _ _
  · intro k
    have hloop := Lookup.getLineLoop_stored h.lines_ok [] rest (k - 1) 1
    rw [Lookup.atRespGetLine]
    by_cases hk : 1 ≤ k ∧ k ≤ s.lineCounts
    · have hnum : 1 + (k - 1) = k := by omega
      have hin : k - 1 < s.lines.length := by
        rw [← h.counts_eq]
        omega
      rw [hnum, if_pos hin, List.length_nil, Nat.zero_add] at hloop
      rw [if_pos hk, ← hloop, ← h.counts_eq]
      apply if_neg
      show ¬ (k > s.lineCounts ∨ k ≤ 0)
      omega
    · rw [if_neg hk]
      apply if_pos
      show k > s.lineCounts ∨ k ≤ 0
      omega
  · intro keyword
    have hloop := Lookup.getLineByKwLoop_stored h.lines_ok keyword [] rest
    simp only [List.length_nil, Nat.zero_add] at hloop
    rw [← h.counts_eq] at hloop
    exact hloop

/-- Of the lines of a response those are stored that fit, and all of them in a buffer that is
large enough. They are found in every memory that the stored bytes are the front of, be it with
the rest of the buffer or with nothing behind them. -/
theorem lineLookup {lines : List (List UInt8)} (h : ∀ line ∈ lines, LineOk line)
    (resp : AtResponse) :
    (lines.flatten.length < resp.bufSize → (Storage.storeAll resp lines).lines = lines) ∧
      (Storage.storeAll resp lines).bytes <+: (Storage.storeAll resp lines).resp.buf ∧
        ∀ buf, (Storage.storeAll resp lines).bytes <+: buf →
          (Storage.storeAll resp lines).FoundIn buf := by
  have hempty := Storage.ok_empty resp
  have hok : (Storage.storeAll resp lines).Ok := Storage.ok_foldl h hempty
  refine ⟨fun hfits => ?_, ?_, fun buf hbuf => hok.foundIn hbuf⟩
  · apply Storage.lines_foldl h hempty
    rwa [Nat.zero_add]
  · rw [← hok.take_eq]
    exact List.take_prefix _ _

/-- The lines `a` and `\r\n`, and a line of one byte between them. -/
theorem lineLookup_threeLines :
    let resp : AtResponse := atCreateResp 8 0 0
    let lines : List (List UInt8) := [[0x61, 0x0A], [0x3E], [0x0D, 0x0A]]
    (lines.flatten.length < resp.bufSize → (Storage.storeAll resp lines).lines = lines) ∧
      (Storage.storeAll resp lines).bytes <+: (Storage.storeAll resp lines).resp.buf ∧
        ∀ buf, (Storage.storeAll resp lines).bytes <+: buf →
          (Storage.storeAll resp lines).FoundIn buf :=
  lineLookup (by decide) _

end AtCmd
