import Esp32AtMqtt.Codec.Decimal
import Esp32AtMqtt.OneNet.Register

/-!
# Reports of the module

`uartDataParse` looks for `+IPD` in what the UART has received, takes the number five bytes behind
its beginning for the length, and the bytes behind the next colon for the data. None of this is
checked: there may be no colon, another text may stand between, and the length may be anything.
`parses_iff` says for which contents the data are the payload of the first report `+IPD,<n>:`.
-/

namespace Edp

open Decimal
open Gsm.Thread (bytes cString_not_mem)
open OneNet (strstr)
open Search

/-- What is in the buffer of `Recv_Thread_Func`, up to the last byte that counts: a string has its
end in it. -/
structure UartBuffer where
  bytes : List UInt8
  size : bytes.length ≤ 128
  terminated : 0 ∈ bytes

def ipdKey : List UInt8 := bytes "+IPD"
def ipdComma : List UInt8 := bytes "+IPD,"
def colonKey : List UInt8 := bytes ":"

/-- `atoi(s)`; a value that is no `int` is undefined. -/
def atoi (s : List UInt8) : Option ℤ :=
  if 0 ∈ s then
    let v : ℤ :=
      if (scan (AtCmd.cString s)).1 then -value (scan (AtCmd.cString s)).2
      else value (scan (AtCmd.cString s)).2
    if -2 ^ 31 ≤ v ∧ v < 2 ^ 31 then some v else none
  else none

/-- What `uartDataParse` leaves in the buffer, and where the data begin that it returns, with
`*plen`; a null pointer is `none`. -/
structure UartParsed where
  buffer : List UInt8
  result : Option (ℕ × ℤ)
  deriving DecidableEq, Repr

/-- `uartDataParse(buffer, plen)`; `none` is an access outside the buffer or an undefined value.
What is found of the other three texts is printed only, and so are the data. -/
def uartDataParse (buffer : List UInt8) : Option UartParsed := do
  let _ ← strstr buffer (bytes "CLOSED")
  let _ ← strstr buffer (bytes "WIFI DISCONNECT")
  let _ ← strstr buffer (bytes "WIFI CONNECTED")
  match ← strstr buffer ipdKey with
  | none => pure ⟨buffer, none⟩
  | some p =>
      let pnum := p + 5
      match ← strstr (buffer.drop p) colonKey with
      -- A null pointer is written through.
      | none => none
      | some i =>
          let buffer := buffer.set (p + i) 0
          let len ← atoi (buffer.drop pnum)
          pure ⟨buffer, some (p + i + 1, len)⟩

/-- What announces `value ds` bytes. -/
def reportHeader (ds : List UInt8) : List UInt8 := ipdComma ++ ds ++ colonKey

/-- The header of a report stands behind `front`. -/
structure IsReport (buffer front ds : List UInt8) : Prop where
  occurs : front ++ reportHeader ds <+: buffer
  digits : ds ≠ [] ∧ ∀ b ∈ ds, isDigit b = true

/-- And no other one in front of it. -/
structure IsFirstReport (buffer front ds : List UInt8) : Prop extends IsReport buffer front ds where
  first : ∀ front' ds', IsReport buffer front' ds' → front.length ≤ front'.length

/-- A null pointer is returned, or the payload of the first report, which is complete, and nothing
is changed there. -/
def Parses (buffer : List UInt8) (parsed : Option UartParsed) : Prop :=
  ∃ left result, parsed = some ⟨left, result⟩ ∧ left.length = buffer.length ∧
    ∀ p n, result = some (p, n) → ∃ front ds, IsFirstReport buffer front ds ∧
      p = (front ++ reportHeader ds).length ∧ n = value ds ∧ p + value ds ≤ buffer.length ∧
        left.drop p = buffer.drop p

/-- There is no `+IPD` in the string, or it has a colon behind the first one, what stands in front
of the first colon there ends with `+IPD,` and digits, so many bytes as they say are behind the
colon, and what stands five bytes behind the beginning of that `+IPD` is read as the same number.
-/
def Complete (buffer : List UInt8) : Prop :=
  ¬ ipdKey <:+: AtCmd.cString buffer ∨
    ∃ front, IsFirst ipdKey front (AtCmd.cString buffer) ∧
      ∃ head, IsFirst colonKey head ((AtCmd.cString buffer).drop front.length) ∧
        ∃ pre ds, head = pre ++ ipdComma ++ ds ∧ (ds ≠ [] ∧ ∀ b ∈ ds, isDigit b = true) ∧
          front.length + head.length + 1 + value ds ≤ buffer.length ∧
            atoi (head.drop 5 ++ [0]) = some (value ds : ℤ)

/-! ## Reports -/

section Report

variable {buffer front front' ds ds' : List UInt8}

theorem length_reportHeader (ds : List UInt8) : (reportHeader ds).length = 6 + ds.length := by
  rw [reportHeader, List.length_append, List.length_append]
  show 5 + ds.length + 1 = _
  omega

/-- A header has one `+`, and no end of a string. -/
theorem reportHeader_eq (ds : List UInt8) :
    reportHeader ds = 0x2B :: ([0x49, 0x50, 0x44, 0x2C] ++ ds ++ [0x3A]) := rfl

theorem isDigit_ne {b c : UInt8} (hb : isDigit b = true) (hc : isDigit c = false) : b ≠ c := by
  rintro rfl
  exact Bool.noConfusion (hb.symm.trans hc)

theorem IsReport.not_mem_tail (h : IsReport buffer front ds) :
    0x2B ∉ [0x49, 0x50, 0x44, 0x2C] ++ ds ++ [0x3A] := by
  intro hmem
  rcases List.mem_append.mp hmem with hmem | hmem
  · rcases List.mem_append.mp hmem with hmem | hmem
    · exact absurd hmem (by decide)
    · exact isDigit_ne (h.digits.2 _ hmem) (by decide) rfl
  · exact absurd hmem (by decide)

theorem IsReport.zero_not_mem (h : IsReport buffer front ds) : 0 ∉ reportHeader ds := by
  intro hmem
  rcases List.mem_append.mp hmem with hmem | hmem
  · rcases List.mem_append.mp hmem with hmem | hmem
    · exact absurd hmem (by decide)
    · exact isDigit_ne (h.digits.2 _ hmem) (by decide) rfl
  · exact absurd hmem (by decide)

/-- A byte of a block that a list begins with. -/
theorem getElem?_eq_of_front {xs ys : List UInt8} (h : xs <+: ys) {i : ℕ} (hi : i < xs.length) :
    ys[i]? = xs[i]? := by
  obtain ⟨zs, rfl⟩ := h
  exact List.getElem?_append_left hi

/-- Headers do not overlap. -/
theorem IsReport.disjoint (h : IsReport buffer front ds) (h' : IsReport buffer front' ds')
    (hlt : front.length < front'.length) :
    (front ++ reportHeader ds).length ≤ front'.length := by
  by_contra hover
  rw [not_le] at hover
  have hplus : buffer[front'.length]? = some 0x2B := by
    rw [getElem?_eq_of_front h'.occurs (by simp [length_reportHeader]), reportHeader_eq]
    simp
  rw [getElem?_eq_of_front h.occurs hover, List.getElem?_append_right hlt.le,
    reportHeader_eq] at hplus
  obtain ⟨k, hk⟩ := Nat.exists_eq_add_of_lt hlt
  have hindex : front'.length - front.length = k + 1 := by omega
  rw [hindex, List.getElem?_cons_succ] at hplus
  exact h.not_mem_tail (List.mem_of_getElem? hplus)

end Report

/-! ## One call -/

/-- The first `+IPD` stands behind `front`, and the first colon behind it behind `head`. -/
structure Located (buffer front head more : List UInt8) : Prop where
  split : buffer = front ++ (head ++ 0x3A :: more)
  key : IsFirst ipdKey front (AtCmd.cString buffer)
  colon : 0x3A ∉ head
  string : front ++ head ++ [0x3A] <+: AtCmd.cString buffer

section Parse

variable {buffer front head more front' ds : List UInt8}

theorem prefix_cString (s : List UInt8) : AtCmd.cString s <+: s := Ended.front_upTo 0 s

/-- Behind a part of its front a string goes on as it does in the buffer. -/
theorem string_drop (h : front <+: AtCmd.cString buffer) :
    (AtCmd.cString buffer).drop front.length = AtCmd.cString (buffer.drop front.length) := by
  obtain ⟨rest, rfl⟩ := h.trans (prefix_cString buffer)
  have hfront : 0 ∉ front := fun hmem => cString_not_mem _ (h.subset hmem)
  have hstring : AtCmd.cString (front ++ rest) = front ++ AtCmd.cString rest :=
    Ended.upTo_append hfront rest
  rw [hstring, List.drop_left, List.drop_left]

theorem zero_mem_drop (h : front <+: AtCmd.cString buffer) (hzero : 0 ∈ buffer) :
    0 ∈ buffer.drop front.length := by
  obtain ⟨rest, rfl⟩ := h.trans (prefix_cString buffer)
  rw [List.drop_left]
  rcases List.mem_append.mp hzero with hmem | hmem
  · exact absurd (h.subset hmem) (cString_not_mem _)
  · exact hmem

theorem located_of_isFirst (hkey : IsFirst ipdKey front (AtCmd.cString buffer))
    (hcolon : IsFirst colonKey head ((AtCmd.cString buffer).drop front.length)) :
    ∃ more, Located buffer front head more := by
  have hfront : (AtCmd.cString buffer).take front.length = front :=
    (List.prefix_iff_eq_take.mp hkey.front_prefix).symm
  have hstring : front ++ head ++ [0x3A] <+: AtCmd.cString buffer := by
    rw [List.append_assoc]
    nth_rewrite 1 [← List.take_append_drop front.length (AtCmd.cString buffer)]
    rw [hfront]
    exact (List.prefix_append_right_inj front).mpr hcolon.occurs
  obtain ⟨more, hmore⟩ := hstring.trans (prefix_cString buffer)
  refine ⟨more, ?_, hkey, hcolon.not_mem, hstring⟩
  rw [← hmore, List.append_assoc, List.append_assoc]
  rfl

/-- A header that does not begin in front of the first `+IPD` does not end in front of the colon. -/
theorem Located.le_of_report (h : Located buffer front head more)
    (hreport : IsReport buffer front' ds) (hle : front.length ≤ front'.length) :
    front.length + head.length + 1 ≤ (front' ++ reportHeader ds).length := by
  by_contra hshort
  have hlast : (front' ++ reportHeader ds)[front'.length + 5 + ds.length]? = some 0x3A := by
    rw [reportHeader, ← List.append_assoc, ← List.append_assoc]
    have hlength : (front' ++ ipdComma ++ ds).length = front'.length + 5 + ds.length := by
      rw [List.length_append, List.length_append]
      rfl
    rw [← hlength]
    exact List.getElem?_concat_length
  have hwhole : (front' ++ reportHeader ds).length = front'.length + 5 + ds.length + 1 := by
    rw [List.length_append, length_reportHeader]
    omega
  rw [← getElem?_eq_of_front hreport.occurs (by omega), h.split,
    List.getElem?_append_right (by omega), List.getElem?_append_left (by omega)] at hlast
  exact h.colon (List.mem_of_getElem? hlast)

/-- A header that ends with the colon, or in front of it, begins with the first `+IPD` or behind. -/
theorem Located.key_le (h : Located buffer front head more) (hreport : IsReport buffer front' ds)
    (hle : (front' ++ reportHeader ds).length ≤ front.length + head.length + 1) :
    front.length ≤ front'.length := by
  have hlength : (front ++ head ++ [(0x3A : UInt8)]).length = front.length + head.length + 1 := by
    rw [List.length_append, List.length_append]
    rfl
  have hin : front' ++ reportHeader ds <+: AtCmd.cString buffer :=
    (List.prefix_of_prefix_length_le hreport.occurs (h.string.trans (prefix_cString buffer))
      (hlength ▸ hle)).trans h.string
  apply h.key.first
  apply List.IsPrefix.trans _ hin
  exact (List.prefix_append_right_inj front').mpr ⟨0x2C :: (ds ++ colonKey), rfl⟩

/-- A report whose header ends with the colon is the first one. -/
theorem Located.isFirstReport (h : Located buffer front head more)
    (hreport : IsReport buffer front' ds)
    (hend : (front' ++ reportHeader ds).length = front.length + head.length + 1) :
    IsFirstReport buffer front' ds := by
  refine ⟨hreport, fun front'' ds'' hother => ?_⟩
  by_contra hlt
  rw [not_le] at hlt
  have hbefore := hother.disjoint hreport hlt
  have hfront' : front'.length ≤ (front' ++ reportHeader ds).length := by
    rw [List.length_append]
    exact Nat.le_add_right _ _
  have hcolon := h.le_of_report hother (h.key_le hother (by omega))
  rw [List.length_append, length_reportHeader] at hend
  omega

/-- Such a report stands at the end of what is between. -/
theorem Located.report_iff (h : Located buffer front head more) :
    (∃ front', (front' ++ reportHeader ds).length = front.length + head.length + 1 ∧
        IsReport buffer front' ds) ↔
      (∃ pre, head = pre ++ ipdComma ++ ds) ∧ ds ≠ [] ∧ ∀ b ∈ ds, isDigit b = true := by
  constructor
  · rintro ⟨front', hend, hreport⟩
    have hle := h.key_le hreport hend.le
    have heq : front' ++ ipdComma ++ ds = front ++ head := by
      have hprefix : front' ++ reportHeader ds <+: front ++ head ++ 0x3A :: more := by
        rw [List.append_assoc front, ← h.split]
        exact hreport.occurs
      rw [reportHeader, ← List.append_assoc, ← List.append_assoc] at hprefix
      have hlength : (front' ++ ipdComma ++ ds).length = (front ++ head).length := by
        rw [List.length_append, length_reportHeader] at hend
        rw [List.length_append, List.length_append, List.length_append]
        show front'.length + 5 + ds.length = _
        omega
      exact (List.prefix_of_prefix_length_le ((List.prefix_append _ colonKey).trans hprefix)
        (List.prefix_append _ _) hlength.le).eq_of_length hlength
    obtain ⟨pre, rfl⟩ : front <+: front' := by
      apply List.prefix_of_prefix_length_le (List.prefix_append front head) _ hle
      rw [← heq, List.append_assoc]
      exact List.prefix_append _ _
    refine ⟨⟨pre, ?_⟩, hreport.digits⟩
    rw [List.append_assoc, List.append_assoc, List.append_cancel_left_eq] at heq
    rw [List.append_assoc]
    exact heq.symm
  · rintro ⟨⟨pre, rfl⟩, hdigits⟩
    refine ⟨front ++ pre, ?_, ?_, hdigits⟩
    · rw [List.length_append, List.length_append, length_reportHeader, List.length_append,
        List.length_append]
      show _ = front.length + (pre.length + 5 + ds.length) + 1
      omega
    · refine ⟨more, ?_⟩
      rw [h.split, reportHeader]
      simp only [List.append_assoc, colonKey]
      rfl

theorem strstr_of_mem {s : List UInt8} (h : 0 ∈ s) (pat : List UInt8) :
    strstr s pat = some (search pat (AtCmd.cString s)) := if_pos h

/-- Nothing but the string in front of its end is read. -/
theorem atoi_append {s rest : List UInt8} (h : 0 ∉ s) :
    atoi (s ++ 0 :: rest) = atoi (s ++ [0]) := by
  have hstring : ∀ rest, AtCmd.cString (s ++ 0 :: rest) = s := Ended.upTo_append_mark h
  have hmem : ∀ rest, 0 ∈ s ++ 0 :: rest := fun rest =>
    List.mem_append_right _ List.mem_cons_self
  rw [atoi, atoi, if_pos (hmem rest), if_pos (hmem []), hstring, hstring]

theorem atoi_digits (hne : ds ≠ []) (hds : ∀ b ∈ ds, isDigit b = true)
    (hsmall : value ds < 2 ^ 31) : atoi (ds ++ [0]) = some (value ds : ℤ) := by
  have hzero : 0 ∉ ds := fun hmem => isDigit_ne (hds 0 hmem) (by decide) rfl
  have hstring : AtCmd.cString (ds ++ [0]) = ds := Ended.upTo_append_mark hzero []
  have hread : scan ds = (false, ds) := by
    have hend : ∀ b ∈ ([] : List UInt8).head?, isDigit b = false :=
      fun b hb => absurd hb (Option.not_mem_none b)
    have hscan := scan_append hne hds hend
    rwa [List.append_nil] at hscan
  rw [atoi, if_pos (List.mem_append_right _ (List.mem_singleton_self 0)), hstring, hread]
  apply if_pos
  constructor
  · show -2 ^ 31 ≤ (value ds : ℤ)
    omega
  · show (value ds : ℤ) < 2 ^ 31
    omega

/-- The number is read in the right place when the report begins with the first `+IPD`. -/
theorem complete_of_report {buffer : UartBuffer}
    (hkey : IsFirst ipdKey front (AtCmd.cString buffer.bytes))
    (hcolon : IsFirst colonKey (ipdComma ++ ds) ((AtCmd.cString buffer.bytes).drop front.length))
    (hdigits : ds ≠ [] ∧ ∀ b ∈ ds, isDigit b = true)
    (hroom : front.length + (ipdComma ++ ds).length + 1 + value ds ≤ buffer.bytes.length) :
    Complete buffer.bytes := by
  have hsize := buffer.size
  have hdrop : (ipdComma ++ ds).drop 5 = ds := rfl
  refine .inr ⟨front, hkey, _, hcolon, [], ds, rfl, hdigits, hroom, ?_⟩
  rw [hdrop]
  exact atoi_digits hdigits.1 hdigits.2 (by omega)

theorem Located.zero_not_mem (h : Located buffer front head more) : 0 ∉ front ++ head := by
  intro hmem
  exact cString_not_mem buffer (h.string.subset (List.mem_append_left _ hmem))

/-- What is looked for first is printed only. -/
theorem uartDataParse_eq (hzero : 0 ∈ buffer) :
    uartDataParse buffer =
      match search ipdKey (AtCmd.cString buffer) with
      | none => some ⟨buffer, none⟩
      | some p => (strstr (buffer.drop p) colonKey).bind fun colon =>
          colon.bind fun i => (atoi ((buffer.set (p + i) 0).drop (p + 5))).map fun len =>
            ⟨buffer.set (p + i) 0, some (p + i + 1, len)⟩ := by
  rw [uartDataParse, strstr_of_mem hzero, strstr_of_mem hzero, strstr_of_mem hzero,
    strstr_of_mem hzero]
  simp only [Option.bind_eq_bind, Option.bind_some, Option.map_eq_bind]
  cases search ipdKey (AtCmd.cString buffer) with
  | none => rfl
  | some p =>
      apply congrArg (Option.bind _)
      funext colon
      cases colon with
      | none => rfl
      | some i => rfl

/-- What is done when there is a colon. -/
theorem uartDataParse_of_located (h : Located buffer front head more) (hzero : 0 ∈ buffer)
    (hsearch : search ipdKey (AtCmd.cString buffer) = some front.length)
    (hcolon : strstr (buffer.drop front.length) colonKey = some (some head.length)) :
    uartDataParse buffer = (atoi ((head ++ 0 :: more).drop 5)).map fun len =>
      ⟨front ++ (head ++ 0 :: more), some (front.length + head.length + 1, len)⟩ := by
  have hset : buffer.set (front.length + head.length) 0 = front ++ (head ++ 0 :: more) := by
    rw [h.split, List.set_append_right _ _ (Nat.le_add_right _ _), Nat.add_sub_cancel_left,
      List.set_append_right _ _ le_rfl, Nat.sub_self]
    rfl
  have hdrop : (front ++ (head ++ 0 :: more)).drop (front.length + 5) =
      (head ++ 0 :: more).drop 5 := by
    rw [← List.drop_drop, List.drop_left]
  rw [uartDataParse_eq hzero, hsearch]
  simp only [hcolon, Option.bind_some, hset, hdrop]

theorem Located.parses_iff_report (h : Located buffer front head more)
    (hparse : uartDataParse buffer = (atoi ((head ++ 0 :: more).drop 5)).map fun len =>
      ⟨front ++ (head ++ 0 :: more), some (front.length + head.length + 1, len)⟩) :
    Parses buffer (uartDataParse buffer) ↔
      ∃ pre ds, head = pre ++ ipdComma ++ ds ∧ (ds ≠ [] ∧ ∀ b ∈ ds, isDigit b = true) ∧
        front.length + head.length + 1 + value ds ≤ buffer.length ∧
          atoi (head.drop 5 ++ [0]) = some (value ds : ℤ) := by
  have hread : 5 ≤ head.length →
      atoi ((head ++ 0 :: more).drop 5) = atoi (head.drop 5 ++ [0]) := by
    intro hlong
    rw [List.drop_append_of_le_length hlong]
    apply atoi_append
    intro hmem
    exact h.zero_not_mem (List.mem_append_right _ (List.mem_of_mem_drop hmem))
  have hlong : ∀ {pre ds}, head = pre ++ ipdComma ++ ds → 5 ≤ head.length := by
    rintro pre ds rfl
    rw [List.append_assoc, List.length_append, List.length_append]
    exact Nat.le_add_left_of_le (Nat.le_add_right 5 _)
  rw [hparse]
  constructor
  · rintro ⟨left, result, heq, -, hresult⟩
    obtain ⟨len, hlen, hparsed⟩ := Option.map_eq_some_iff.mp heq
    obtain ⟨-, rfl⟩ := UartParsed.mk.inj hparsed
    obtain ⟨front', ds, hfirst, hp, rfl, hfits, -⟩ := hresult _ _ rfl
    obtain ⟨⟨pre, hhead⟩, hdigits⟩ := h.report_iff.mp ⟨front', hp.symm, hfirst.toIsReport⟩
    refine ⟨pre, ds, hhead, hdigits, hfits, ?_⟩
    rw [← hread (hlong hhead)]
    exact hlen
  · rintro ⟨pre, ds, hhead, hdigits, hfits, hatoi⟩
    obtain ⟨front', hend, hreport⟩ := h.report_iff.mpr ⟨⟨pre, hhead⟩, hdigits⟩
    refine ⟨front ++ (head ++ 0 :: more), some (front.length + head.length + 1, value ds), ?_, ?_,
      ?_⟩
    · rw [hread (hlong hhead), hatoi]
      rfl
    · rw [h.split, List.length_append, List.length_append, List.length_append, List.length_append]
      rfl
    · rintro p n ⟨⟩
      refine ⟨front', ds, h.isFirstReport hreport hend, hend.symm, rfl, hfits, ?_⟩
      have hbehind : ∀ b : UInt8,
          (front ++ (head ++ b :: more)).drop (front.length + head.length + 1) = more := by
        intro b
        rw [← List.append_assoc, ← List.length_append, ← List.drop_drop, List.drop_left]
        rfl
      rw [hbehind, h.split, hbehind]

end Parse

/-- What is returned is the payload of the first report exactly when this is complete and read in
the right place. -/
theorem parses_iff (buffer : UartBuffer) :
    Parses buffer.bytes (uartDataParse buffer.bytes) ↔ Complete buffer.bytes := by
  have hzero := buffer.terminated
  generalize buffer.bytes = buffer at hzero
  cases hsearch : search ipdKey (AtCmd.cString buffer) with
  | none =>
      have habsent := search_eq_none_iff.mp hsearch
      refine iff_of_true ⟨buffer, none, ?_, rfl, by simp⟩ (.inl habsent)
      rw [uartDataParse_eq hzero, hsearch]
  | some p =>
      obtain ⟨front, hkey, rfl⟩ := exists_isFirst hsearch
      have hcomplete : Complete buffer ↔
          ∃ head, IsFirst colonKey head ((AtCmd.cString buffer).drop front.length) ∧
            ∃ pre ds, head = pre ++ ipdComma ++ ds ∧ (ds ≠ [] ∧ ∀ b ∈ ds, isDigit b = true) ∧
              front.length + head.length + 1 + value ds ≤ buffer.length ∧
                atoi (head.drop 5 ++ [0]) = some (value ds : ℤ) := by
        constructor
        · rintro (habsent | ⟨front', hkey', h⟩)
          · exact absurd hkey.isInfix habsent
          · rwa [hkey.unique hkey']
        · exact fun h => .inr ⟨front, hkey, h⟩
      have hstring := string_drop hkey.front_prefix
      have hend := zero_mem_drop hkey.front_prefix hzero
      rw [hcomplete]
      cases hcolon : search colonKey ((AtCmd.cString buffer).drop front.length) with
      | none =>
          have habsent := search_eq_none_iff.mp hcolon
          apply iff_of_false
          · rintro ⟨left, result, heq, -⟩
            rw [uartDataParse_eq hzero, hsearch] at heq
            simp only [strstr_of_mem hend, ← hstring, hcolon, Option.bind_some,
              Option.bind_none] at heq
            cases heq
          · rintro ⟨head, hfirst, -⟩
            exact habsent hfirst.isInfix
      | some i =>
          obtain ⟨head, hfirst, rfl⟩ := exists_isFirst hcolon
          obtain ⟨more, hlocated⟩ := located_of_isFirst hkey hfirst
          have hcall := uartDataParse_of_located hlocated hzero hsearch (by
            rw [strstr_of_mem hend, ← hstring, hcolon])
          rw [hlocated.parses_iff_report hcall]
          constructor
          · exact fun h => ⟨head, hfirst, h⟩
          · rintro ⟨head', hfirst', h⟩
            rwa [hfirst.unique hfirst']

/-- A report that is cut off in its length. -/
def truncated : List UInt8 := bytes "+IPD,12" ++ [0]

theorem length_truncated : truncated.length ≤ 128 := by decide

theorem zero_mem_truncated : 0 ∈ truncated := List.mem_append_right _ (List.mem_singleton_self 0)

def truncatedBuffer : UartBuffer := ⟨truncated, length_truncated, zero_mem_truncated⟩

/-- It has no colon, and a null pointer is written through. -/
theorem uartDataParse_truncated :
    ¬ ∀ buffer : UartBuffer, Parses buffer.bytes (uartDataParse buffer.bytes) := by
  intro hall
  obtain ⟨left, result, heq, -⟩ := hall truncatedBuffer
  have hnull : uartDataParse truncatedBuffer.bytes = none := by decide
  exact absurd (hnull.symm.trans heq) (Option.some_ne_none _).symm

/-- The number of the report is negative for the code. -/
example : (uartDataParse (bytes "+IPD,-1:abc" ++ [0])).bind (·.result) = some (8, -1) := by decide

end Edp
