import Esp32AtMqtt.AtServer.Server
import Esp32AtMqtt.Transition.Run

/-!
# The stores of the AT server

A character is stored behind what has come of a line, however long that is, and a name is copied
up to its end, wherever that is. So what is stored stays inside of the two buffers as long as
every line is shorter than the one, and the name of every command shorter than the other.
-/

namespace AtSrv

open AtCmd (cString)
open Transition

def parserStep (cmdTable : List Cmd) (s : Parser) (ch : UInt8) : Option Parser :=
  some (serverParser cmdTable s ch)

def Store.Inside : Store → Prop
  | .recvBuffer i => i < atServerRecvBuffLen
  | .curCmdName i => i < atCmdNameLen

/-- All the stores have been inside of their buffers, and whenever `recv_buffer` was searched it
had an end. -/
structure Inside (s : Parser) : Prop where
  stores : ∀ a ∈ s.stores, a.Inside
  searched : ∀ buffer ∈ s.searched, 0 ∈ buffer

/-- What has come of a line. -/
def Server.line (v : Server) : List UInt8 := v.recvBuffer.take v.curRecvLen

/-- There is room for a character, and when it completes a line, for the name of its command. -/
structure Room (v : Server) (ch : UInt8) : Prop where
  line : v.curRecvLen < 255 ∨ v.curRecvLen = 255 ∧ 0 ∈ v.line ++ [ch]
  name : v.endMark <:+: cString (v.line ++ [ch]) →
    ∀ n, atCmdGetName (cString (v.line ++ [ch])) = some n → n < atCmdNameLen

/-- There is room for the character of a turn, when it is stored. -/
def RoomStep (s : Parser) (ch : UInt8) : Prop :=
  ∀ v ∈ s.server, ch ≠ escKey → v.erases ch = false → Room v ch

/-- Behind the line there are null bytes. -/
structure Cleared (v : Server) : Prop where
  length : v.curRecvLen ≤ atServerRecvBuffLen
  rest : v.recvBuffer = v.line ++ List.replicate (atServerRecvBuffLen - v.curRecvLen) 0

theorem cleared_retry (v : Server) : Cleared v.retry := ⟨Nat.zero_le _, rfl⟩

theorem Cleared.length_line {v : Server} (h : Cleared v) : v.line.length = v.curRecvLen := by
  rw [Server.line, List.length_take, v.size, Nat.min_eq_left h.length]

/-- Null bytes behind a string do not belong to it. -/
theorem cString_zeros (str : List UInt8) (k : ℕ) :
    cString (str ++ List.replicate k 0) = cString str := by
  induction str with
  | nil =>
      cases k with
      | zero => rfl
      | succ k => rfl
  | cons b str ih =>
      rw [List.cons_append, cString, cString, List.takeWhile_cons, List.takeWhile_cons]
      split
      · exact congrArg _ ih
      · rfl

/-! ## A character -/

section Store

variable {v : Server} {ch : UInt8}

/-- The buffer behind the store of a character. -/
theorem recvBuffer_store (h : Cleared v) (hroom : v.curRecvLen < atServerRecvBuffLen) :
    (v.store v.curRecvLen ch (v.curRecvLen + 1)).recvBuffer =
      v.line ++ [ch] ++ List.replicate (255 - v.curRecvLen) 0 := by
  have hzeros : atServerRecvBuffLen - v.curRecvLen = (255 - v.curRecvLen) + 1 := by
    rw [atServerRecvBuffLen] at hroom ⊢
    omega
  show v.recvBuffer.set v.curRecvLen ch = _
  rw [h.rest, hzeros, List.replicate_succ, List.set_append_right _ _ (Nat.le_of_eq h.length_line),
    h.length_line, Nat.sub_self, List.set_cons_zero, List.append_assoc, List.singleton_append]

theorem line_store (h : Cleared v) (hroom : v.curRecvLen < atServerRecvBuffLen) :
    (v.store v.curRecvLen ch (v.curRecvLen + 1)).line = v.line ++ [ch] := by
  have hlen : (v.line ++ [ch]).length = v.curRecvLen + 1 := by
    rw [List.length_append, h.length_line, List.length_singleton]
  rw [Server.line, recvBuffer_store h hroom]
  show (v.line ++ [ch] ++ _).take (v.curRecvLen + 1) = _
  rw [← hlen, List.take_left]

theorem cleared_store (h : Cleared v) (hroom : v.curRecvLen < atServerRecvBuffLen) :
    Cleared (v.store v.curRecvLen ch (v.curRecvLen + 1)) := by
  refine ⟨hroom, ?_⟩
  rw [line_store h hroom, recvBuffer_store h hroom]
  congr 2
  show 255 - v.curRecvLen = atServerRecvBuffLen - (v.curRecvLen + 1)
  rw [atServerRecvBuffLen]
  omega

theorem cString_store (h : Cleared v) (hroom : v.curRecvLen < atServerRecvBuffLen) :
    cString (v.store v.curRecvLen ch (v.curRecvLen + 1)).recvBuffer = cString (v.line ++ [ch]) := by
  rw [recvBuffer_store h hroom, cString_zeros]

/-- The buffer has an end behind the store. -/
theorem zero_mem_store_iff (h : Cleared v) (hroom : v.curRecvLen < atServerRecvBuffLen) :
    0 ∈ (v.store v.curRecvLen ch (v.curRecvLen + 1)).recvBuffer ↔
      v.curRecvLen < 255 ∨ v.curRecvLen = 255 ∧ 0 ∈ v.line ++ [ch] := by
  rw [recvBuffer_store h hroom, List.mem_append, List.mem_replicate]
  rw [atServerRecvBuffLen] at hroom
  constructor
  · rintro (hmem | ⟨hne, -⟩)
    · by_cases hlt : v.curRecvLen < 255
      · exact .inl hlt
      · exact .inr ⟨by omega, hmem⟩
    · exact .inl (by omega)
  · rintro (hlt | ⟨-, hmem⟩)
    · exact .inr ⟨by omega, rfl⟩
    · exact .inl hmem

/-- The buffer when the last character is taken back. -/
theorem recvBuffer_erase (h : Cleared v) (hpos : v.curRecvLen ≠ 0) :
    (v.store (v.curRecvLen - 1) 0 (v.curRecvLen - 1)).recvBuffer =
      v.line.take (v.curRecvLen - 1) ++
        List.replicate (atServerRecvBuffLen - (v.curRecvLen - 1)) 0 := by
  have hlen := h.length_line
  have hle := h.length
  have hlt : v.curRecvLen - 1 < v.line.length := by omega
  have hzeros : atServerRecvBuffLen - (v.curRecvLen - 1) =
      (atServerRecvBuffLen - v.curRecvLen) + 1 := by omega
  have hdrop : v.line.drop (v.curRecvLen - 1 + 1) = [] :=
    List.drop_eq_nil_of_le (by omega)
  show v.recvBuffer.set (v.curRecvLen - 1) 0 = _
  rw [h.rest, hzeros, List.set_append_left _ _ hlt, List.set_eq_take_append_cons_drop, if_pos hlt,
    hdrop, List.replicate_succ, List.append_assoc, List.singleton_append]

theorem line_erase (h : Cleared v) (hpos : v.curRecvLen ≠ 0) :
    (v.store (v.curRecvLen - 1) 0 (v.curRecvLen - 1)).line = v.line.take (v.curRecvLen - 1) := by
  have hlen : (v.line.take (v.curRecvLen - 1)).length = v.curRecvLen - 1 := by
    rw [List.length_take, h.length_line, Nat.min_eq_left (Nat.sub_le _ _)]
  rw [Server.line, recvBuffer_erase h hpos]
  exact List.take_left' hlen

theorem cleared_erase (h : Cleared v) (hpos : v.curRecvLen ≠ 0) :
    Cleared (v.store (v.curRecvLen - 1) 0 (v.curRecvLen - 1)) := by
  refine ⟨Nat.le_trans (Nat.sub_le _ _) h.length, ?_⟩
  rw [line_erase h hpos]
  exact recvBuffer_erase h hpos

end Store

/-! ## A turn -/

section Turn

variable {cmdTable : List Cmd} {s : Parser} {v : Server} {ch : UInt8}

/-- Stores that are inside leave everything inside. -/
theorem inside_append {stores : List Store} (searched : List (List UInt8))
    (h : ∀ buffer ∈ searched, 0 ∈ buffer) {t : Parser} (hs : Inside s)
    (hstores : t.stores = s.stores ++ stores) (hsearched : t.searched = s.searched ++ searched) :
    Inside t ↔ ∀ a ∈ stores, a.Inside := by
  constructor
  · intro ht a ha
    exact ht.stores a (hstores ▸ List.mem_append_right _ ha)
  · intro hnew
    refine ⟨fun a ha => ?_, fun buffer hb => ?_⟩
    · rw [hstores, List.mem_append] at ha
      exact ha.elim (hs.stores a) (hnew a)
    · rw [hsearched, List.mem_append] at hb
      exact hb.elim (hs.searched buffer) (h buffer)

theorem retry_inside : ∀ a ∈ (List.range atServerRecvBuffLen).map Store.recvBuffer, a.Inside := by
  intro a ha
  obtain ⟨i, hi, rfl⟩ := List.mem_map.mp ha
  exact List.mem_range.mp hi

theorem retries_inside (hs : Inside s) (prints : List Print) : Inside (s.retries v prints) := by
  have hiff : Inside (s.retries v prints) ↔ _ :=
    inside_append [] (fun _ hb => nomatch hb) hs rfl (List.append_nil _).symm
  exact hiff.mpr retry_inside

/-- The parser behind the copy of a name. -/
structure Copied (s : Parser) (n : ℕ) (t : Parser) : Prop where
  stores : t.stores = s.stores ++ (List.range (n + 1)).map Store.curCmdName
  searched : t.searched = s.searched

/-- The copy of a name stays inside when the name has room. -/
theorem Copied.inside_iff {n : ℕ} {t : Parser} (h : Copied s n t) (hs : Inside s) :
    Inside t ↔ n < atCmdNameLen := by
  rw [inside_append [] (fun _ hb => nomatch hb) hs h.stores
    (h.searched.trans (List.append_nil _).symm)]
  constructor
  · intro hinside
    exact hinside (.curCmdName n) (List.mem_map_of_mem (List.mem_range.mpr (Nat.lt_succ_self n)))
  · intro hn a ha
    obtain ⟨i, hi, rfl⟩ := List.mem_map.mp ha
    exact Nat.lt_of_le_of_lt (Nat.le_of_lt_succ (List.mem_range.mp hi)) hn

/-- What carrying out a command can do to the buffers. -/
theorem execute_cases (cmdTable : List Cmd) (s : Parser) (v : Server) :
    (atCmdGetName (cString v.recvBuffer) = none ∧
      ∃ prints, execute cmdTable s v = s.retries v prints) ∨
    ∃ n, atCmdGetName (cString v.recvBuffer) = some n ∧ ∃ t, Copied s n t ∧
      (t.server = none ∧ execute cmdTable s v = t ∨
        n < atCmdNameLen ∧ ∃ prints, execute cmdTable s v = t.retries v prints) := by
  rw [execute]
  dsimp only
  cases hname : atCmdGetName (cString v.recvBuffer) with
  | none => exact .inl ⟨rfl, _, rfl⟩
  | some n =>
      refine .inr ⟨n, rfl, ?_⟩
      dsimp only
      split
      · refine ⟨_, ?_, .inl ⟨?_, rfl⟩⟩
        · exact ⟨rfl, rfl⟩
        · rfl
      · next hshort =>
          have hlt := Nat.not_le.mp hshort
          split
          · refine ⟨_, ?_, .inr ⟨hlt, _, rfl⟩⟩
            exact ⟨rfl, rfl⟩
          · split
            · refine ⟨_, ?_, .inl ⟨?_, rfl⟩⟩
              · exact ⟨rfl, rfl⟩
              · rfl
            · refine ⟨_, ?_, .inr ⟨hlt, _, rfl⟩⟩
              exact ⟨rfl, rfl⟩

/-- A command is carried out inside of the buffers when its name has room. -/
theorem execute_inside (hs : Inside s) :
    Inside (execute cmdTable s v) ↔
      ∀ n, atCmdGetName (cString v.recvBuffer) = some n → n < atCmdNameLen := by
  rcases execute_cases cmdTable s v with ⟨hname, prints, heq⟩ |
    ⟨n, hname, t, hcopied, ⟨-, heq⟩ | ⟨hlt, prints, heq⟩⟩
  · rw [heq, hname]
    exact iff_of_true (retries_inside hs prints) fun n hn => nomatch hn
  · rw [heq, hname, hcopied.inside_iff hs]
    exact ⟨fun hlt m hm => Option.some.inj hm ▸ hlt, fun h => h n rfl⟩
  · rw [heq, hname]
    exact iff_of_true (retries_inside ((hcopied.inside_iff hs).mpr hlt) prints)
      fun m hm => Option.some.inj hm ▸ hlt

/-- Behind a command the buffer is empty. -/
theorem execute_cleared : ∀ w ∈ (execute cmdTable s v).server, Cleared w := by
  intro w hw
  rcases execute_cases cmdTable s v with ⟨-, prints, heq⟩ |
    ⟨n, -, t, -, ⟨hnone, heq⟩ | ⟨-, prints, heq⟩⟩
  · rw [heq] at hw
    exact Option.some.inj hw ▸ cleared_retry v
  · rw [heq, hnone] at hw
    cases hw
  · rw [heq] at hw
    exact Option.some.inj hw ▸ cleared_retry v

/-- A character is stored, and looked for the end mark in, inside of the buffers when there is
room for it. -/
theorem append_inside (hs : Inside s) (hv : Cleared v) :
    Inside (append cmdTable s v ch) ↔ Room v ch := by
  rw [append]
  dsimp only
  by_cases hfull : atServerRecvBuffLen ≤ v.curRecvLen
  · -- the store is outside
    rw [if_pos hfull]
    refine iff_of_false (fun h => ?_) fun h => ?_
    · have hstore : v.curRecvLen < atServerRecvBuffLen :=
        h.stores (.recvBuffer v.curRecvLen)
          (List.mem_append_right _ (List.mem_singleton_self _))
      exact absurd hstore (Nat.not_lt.mpr hfull)
    · rw [atServerRecvBuffLen] at hfull
      rcases h.line with hlt | ⟨heq, -⟩
      · omega
      · omega
  have hroom := Nat.not_le.mp hfull
  have hend : 0 ∈ (v.store v.curRecvLen ch (v.curRecvLen + 1)).recvBuffer ↔ _ :=
    zero_mem_store_iff hv hroom
  have hstring : cString (v.store v.curRecvLen ch (v.curRecvLen + 1)).recvBuffer = _ :=
    cString_store hv hroom
  have hmark : (v.store v.curRecvLen ch (v.curRecvLen + 1)).endMark = v.endMark := rfl
  rw [if_neg hfull]
  by_cases hzero : 0 ∈ (v.store v.curRecvLen ch (v.curRecvLen + 1)).recvBuffer
  swap
  · -- what is searched has no end
    rw [if_pos hzero]
    refine iff_of_false (fun h => ?_) fun h => hzero (hend.mpr h.line)
    exact hzero (h.searched _ (List.mem_append_right _ (List.mem_singleton_self _)))
  have hstored : ∀ t : Parser, t.stores = s.stores ++ [.recvBuffer v.curRecvLen] →
      t.searched = s.searched ++ [(v.store v.curRecvLen ch (v.curRecvLen + 1)).recvBuffer] →
      Inside t := by
    intro t hstores hsearched
    refine (inside_append _ ?_ hs hstores hsearched).mpr ?_
    · intro buffer hb
      exact List.mem_singleton.mp hb ▸ hzero
    · intro a ha
      exact List.mem_singleton.mp ha ▸ hroom
  rw [if_neg (not_not.mpr hzero), hmark, hstring]
  split
  · next hfound =>
      rw [execute_inside (hstored _ rfl rfl), hstring]
      exact ⟨fun h => ⟨hend.mp hzero, fun _ => h⟩, fun h => h.name hfound⟩
  · next hnot =>
      exact iff_of_true (hstored _ rfl rfl) ⟨hend.mp hzero, fun h => absurd h hnot⟩

/-- The null bytes behind the line are kept. -/
theorem append_cleared (hv : Cleared v) :
    ∀ w ∈ (append cmdTable s v ch).server, Cleared w := by
  intro w hw
  rw [append] at hw
  dsimp only at hw
  split at hw
  · cases hw
  · next hfull =>
      split at hw
      · cases hw
      · split at hw
        · exact execute_cleared w hw
        · exact Option.some.inj hw ▸ cleared_store hv (Nat.not_le.mp hfull)

/-- A turn of the parser stays inside of the buffers when there is room for its character. -/
theorem serverParser_inside (hs : Inside s) (hclear : ∀ v ∈ s.server, Cleared v) :
    Inside (serverParser cmdTable s ch) ↔ RoomStep s ch := by
  rw [serverParser, RoomStep]
  cases hserver : s.server with
  | none => exact iff_of_true hs fun v hv => nomatch hv
  | some v =>
      have hv : Cleared v := hclear v hserver
      have hiff : (∀ w ∈ some v, ch ≠ escKey → w.erases ch = false → Room w ch) ↔
          (ch ≠ escKey → v.erases ch = false → Room v ch) :=
        ⟨fun h => h v rfl, fun h w hw => Option.some.inj hw ▸ h⟩
      rw [hiff]
      dsimp only
      by_cases hesc : ch = escKey
      · rw [if_pos hesc]
        exact iff_of_true ⟨hs.stores, hs.searched⟩ fun h => absurd hesc h
      rw [if_neg hesc, imp_iff_right hesc]
      by_cases herase : v.erases ch = true
      · rw [if_pos herase]
        refine iff_of_true ?_ fun h => absurd (herase.symm.trans h) (by decide)
        split
        · exact hs
        · next hpos =>
            have hlt : v.curRecvLen - 1 < atServerRecvBuffLen := by
              have hle := hv.length
              omega
            refine ⟨fun a ha => ?_, hs.searched⟩
            rcases List.mem_append.mp ha with ha | ha
            · exact hs.stores a ha
            · exact List.mem_singleton.mp ha ▸ hlt
      · rw [if_neg herase, imp_iff_right (Bool.not_eq_true _ ▸ herase)]
        refine append_inside ?_ hv
        split
        · exact ⟨hs.stores, hs.searched⟩
        · exact hs

theorem serverParser_cleared (hclear : ∀ v ∈ s.server, Cleared v) :
    ∀ v ∈ (serverParser cmdTable s ch).server, Cleared v := by
  rw [serverParser]
  cases hserver : s.server with
  | none =>
      intro v hv
      exact hclear v hv
  | some v =>
      have hv : Cleared v := hclear v hserver
      dsimp only
      split
      · exact fun w hw => nomatch hw
      split
      · split
        · exact hclear
        · next hpos => exact fun w hw => Option.some.inj hw ▸ cleared_erase hv hpos
      · exact append_cleared hv

/-- What was outside stays in the history. -/
theorem serverParser_outside (h : ¬ Inside s) : ¬ Inside (serverParser cmdTable s ch) := by
  have hgrows : ∀ t : Parser, s.stores <+: t.stores → s.searched <+: t.searched → ¬ Inside t :=
    fun t hstores hsearched ht => h ⟨fun a ha => ht.stores a (hstores.subset ha),
      fun b hb => ht.searched b (hsearched.subset hb)⟩
  have hexecute : ∀ (t : Parser) (w : Server), t.stores <+: (execute cmdTable t w).stores ∧
      t.searched <+: (execute cmdTable t w).searched := by
    intro t w
    rcases execute_cases cmdTable t w with ⟨-, prints, heq⟩ |
      ⟨n, -, u, hu, ⟨-, heq⟩ | ⟨-, prints, heq⟩⟩
    · rw [heq]
      exact ⟨List.prefix_append _ _, List.prefix_rfl⟩
    · rw [heq, hu.stores, hu.searched]
      exact ⟨List.prefix_append _ _, List.prefix_rfl⟩
    · rw [heq]
      refine ⟨?_, ?_⟩
      · show _ <+: u.stores ++ _
        rw [hu.stores, List.append_assoc]
        exact List.prefix_append _ _
      · show _ <+: u.searched
        exact hu.searched ▸ List.prefix_rfl
  rw [serverParser]
  cases s.server with
  | none => exact h
  | some v =>
      dsimp only
      split
      · exact hgrows _ List.prefix_rfl List.prefix_rfl
      split
      · split
        · exact h
        · exact hgrows _ (List.prefix_append _ _) List.prefix_rfl
      have hshown : ∀ t : Parser, t.stores = s.stores → t.searched = s.searched →
          ¬ Inside (append cmdTable t v ch) := by
        intro t hstores hsearched
        rw [append]
        dsimp only
        split
        · exact hgrows _ (hstores ▸ List.prefix_append _ _) (hsearched ▸ List.prefix_rfl)
        split
        · exact hgrows _ (hstores ▸ List.prefix_append _ _) (hsearched ▸ List.prefix_append _ _)
        split
        · refine hgrows _ (List.IsPrefix.trans ?_ (hexecute _ _).1)
            (List.IsPrefix.trans ?_ (hexecute _ _).2)
          · exact hstores ▸ List.prefix_append _ _
          · exact hsearched ▸ List.prefix_append _ _
        · exact hgrows _ (hstores ▸ List.prefix_append _ _) (hsearched ▸ List.prefix_append _ _)
      split
      · exact hshown _ rfl rfl
      · exact hshown _ rfl rfl

end Turn

theorem inside_init (echoMode : Bool) (endMark : List UInt8) (lastCh : UInt8) :
    Inside (parserInit echoMode endMark lastCh) := by
  constructor
  · exact fun _ ha => nomatch ha
  · exact fun _ hb => nomatch hb

/-- Whatever characters come, with every end mark and in both echo modes: what the parser has
stored is inside of its buffers, and what it has searched had an end, if and only if there was
room for every character that was stored. -/
theorem server_inside_iff (cmdTable : List Cmd) (echoMode : Bool) (endMark : List UInt8)
    (lastCh : UInt8) (chs : List UInt8) (s : Parser)
    (h : Run (parserStep cmdTable) unconditional (parserInit echoMode endMark lastCh) chs s) :
    Inside s ↔ Run (parserStep cmdTable) RoomStep (parserInit echoMode endMark lastCh) chs s := by
  have hkeep : ∀ (t : Parser) ch u, (Inside t ∧ ∀ v ∈ t.server, Cleared v) → RoomStep t ch →
      parserStep cmdTable t ch = some u → Inside u ∧ ∀ v ∈ u.server, Cleared v := by
    rintro t ch u ⟨ht, hclear⟩ hroom hstep
    rw [← Option.some.inj hstep]
    exact ⟨(serverParser_inside ht hclear).mpr hroom, serverParser_cleared hclear⟩
  have hbreak : ∀ (t : Parser) ch u, (Inside t ∧ ∀ v ∈ t.server, Cleared v) → ¬ RoomStep t ch →
      parserStep cmdTable t ch = some u → ¬ Inside u := by
    rintro t ch u ⟨ht, hclear⟩ hroom hstep
    rw [← Option.some.inj hstep]
    exact fun hu => hroom ((serverParser_inside ht hclear).mp hu)
  have hstay : ∀ (t : Parser) ch u, ¬ Inside t → parserStep cmdTable t ch = some u →
      ¬ Inside u := by
    intro t ch u ht hstep
    rw [← Option.some.inj hstep]
    exact serverParser_outside ht
  have hinit : Inside (parserInit echoMode endMark lastCh) ∧
      ∀ v ∈ (parserInit echoMode endMark lastCh).server, Cleared v := by
    refine ⟨inside_init echoMode endMark lastCh, fun v hv => ?_⟩
    rw [← Option.some.inj hv]
    exact ⟨Nat.zero_le _, rfl⟩
  rcases h.kept_or_broken hkeep hbreak hstay hinit with ⟨hrun, hinside, -⟩ | ⟨hno, hout⟩
  · exact iff_of_true hinside hrun
  · exact iff_of_false hout hno

/-- The line `AT`, in echo mode. -/
theorem server_inside_iff_at :
    ∃ s, Run (parserStep []) unconditional (parserInit true [0x0D, 0x0A] 0)
        [0x41, 0x54, 0x0D, 0x0A] s ∧
      (Inside s ↔
        Run (parserStep []) RoomStep (parserInit true [0x0D, 0x0A] 0)
          [0x41, 0x54, 0x0D, 0x0A] s) := by
  obtain ⟨s, hrun, -⟩ := Run.exists_of_exec (parserStep []) unconditional
    (parserInit true [0x0D, 0x0A] 0) [0x41, 0x54, 0x0D, 0x0A] (fun _ => true) (by decide +kernel)
  exact ⟨s, hrun, server_inside_iff [] true [0x0D, 0x0A] 0 _ s hrun⟩

/-- A name of sixteen characters is copied with its end over the end of `cur_cmd_name`. -/
theorem long_name_outside :
    ∃ s, Run (parserStep []) unconditional (parserInit true [0x0D, 0x0A] 0)
        (List.replicate 16 0x41 ++ [0x0D, 0x0A]) s ∧
      Store.curCmdName 16 ∈ s.stores ∧ ¬ Inside s := by
  obtain ⟨s, hrun, hs⟩ := Run.exists_of_exec (parserStep []) unconditional
    (parserInit true [0x0D, 0x0A] 0) (List.replicate 16 0x41 ++ [0x0D, 0x0A])
    (fun s => decide (Store.curCmdName 16 ∈ s.stores)) (by decide +kernel)
  have hmem := of_decide_eq_true hs
  exact ⟨s, hrun, hmem, fun h => absurd (h.stores _ hmem) (Nat.lt_irrefl 16)⟩

end AtSrv
