import Esp32AtMqtt.AtSocket.Address

/-!
# Numeric host names

`at_gethostbyname` and `at_getaddrinfo` take a name without letters for an address: they copy it
to an array of 16 bytes, whatever its length is, and read it with `ipstr_to_u32`, which takes
everything. `at_gethostbyname` fails for no such name, `at_getaddrinfo` for those that are read as
0. `strict_iff` says for which names this is right.
-/

namespace AtSock

open Decimal

/-- `isalpha`. -/
def isAlpha (b : UInt8) : Bool := 0x41 ≤ b && b ≤ 0x5A || 0x61 ≤ b && b ≤ 0x7A

/-- The size of `ipstr`. -/
def ipstrSize : ℕ := 16

/-- `DNS_MAX_NAME_LENGTH`. -/
def dnsMaxNameLength : ℕ := 256

/-- `at_dev_ops->at_domain_resolve`: its result, and the 16 bytes that it leaves in `ipstr`. -/
abbrev DomainResolve := List UInt8 → ℤ × List UInt8

/-- What is in `ipstr` for a name; `some none` is an error of the device, and `none` an access
outside the array. -/
def hostIpstr (resolve : DomainResolve) (failed : ℤ → Bool) (name : List UInt8) :
    Option (Option (List UInt8)) :=
  if (name.takeWhile fun b => !isAlpha b).length < name.length then
    some (if failed (resolve name).1 then none else some (resolve name).2)
  else if ipstrSize < name.length then none
  else some (some (name ++ List.replicate (ipstrSize - name.length) 0))

/-- What `at_gethostbyname` fills in of `struct hostent`. -/
structure Hostent where
  hName : List UInt8
  hAddr : UInt32
  deriving DecidableEq, Repr

/-- `at_gethostbyname(name)`; `atDevOps` is `none` when no device is registered. -/
def atGethostbyname (atDevOps : Option DomainResolve) (name : Option (List UInt8)) :
    Option (Option Hostent) :=
  match name, atDevOps with
  | some name, some resolve => do
      match ← hostIpstr resolve (· < 0) name with
      | none => pure none
      | some ipstr =>
          let addr ← ipstrToU32 ipstr
          pure (some ⟨name.take dnsMaxNameLength, addr⟩)
  | _, _ => some none

/-- What `ai_family` may be. -/
inductive AddressFamily
  | at
  | inet
  | unspec
  | other
  deriving DecidableEq, Repr

/-- `hints`, without `AI_NUMERICHOST`. -/
structure Hints where
  aiFamily : AddressFamily
  aiSocktype : ℤ
  aiProtocol : ℤ
  deriving DecidableEq, Repr

/-- A call of `at_getaddrinfo` beside its name: whether `res` is a null pointer, what `atoi` makes
of `servname`, the hints, and whether `rt_malloc` finds memory. -/
structure AddrInfoCall where
  resNull : Bool
  servPort : Option ℤ
  hints : Option Hints
  malloc : Bool
  deriving DecidableEq, Repr

/-- What is put into `*res`; its family is `AF_INET`. -/
structure AddrInfo where
  sAddr : UInt32
  sinPort : UInt16
  aiSocktype : ℤ
  aiProtocol : ℤ
  aiCanonname : List UInt8
  deriving DecidableEq, Repr

def eaiService : ℤ := 201
def eaiFail : ℤ := 202
def eaiMemory : ℤ := 203
def eaiFamily : ℤ := 204

/-- `htons(port)`. -/
def htons (port : UInt16) : UInt16 := port <<< 8 ||| port >>> 8

namespace AddrInfoCall

variable (c : AddrInfoCall)

/-- What is checked before the name is looked at. -/
def early? (atDevOps : Option DomainResolve) : Option ℤ :=
  if c.resNull || atDevOps.isNone then some eaiFail
  else if c.hints.any fun hints => hints.aiFamily = .other then some eaiFamily
  else if c.servPort.any fun port => port ≤ 0 || 0xffff < port then some eaiService
  else none

def addrInfo (name : List UInt8) (addr : UInt32) : AddrInfo where
  sAddr := addr
  sinPort := htons (UInt16.ofInt (c.servPort.getD 0))
  aiSocktype := (c.hints.map (·.aiSocktype)).getD 0
  aiProtocol := (c.hints.map (·.aiProtocol)).getD 0
  aiCanonname := name

end AddrInfoCall

/-- `at_getaddrinfo(nodename, servname, hints, res)` for a `nodename` that is not null: the
result, and `*res`. -/
def atGetaddrinfo (atDevOps : Option DomainResolve) (c : AddrInfoCall) (name : List UInt8) :
    Option (ℤ × Option AddrInfo) :=
  match c.early? atDevOps, atDevOps with
  | none, some resolve => do
      match ← hostIpstr resolve (· ≠ 0) name with
      | none => pure (eaiFail, none)
      | some ipstr =>
          let addr ← ipstrToU32 ipstr
          if addr = 0 || dnsMaxNameLength < name.length then pure (eaiFail, none)
          else if c.malloc then pure (0, some (c.addrInfo name addr))
          else pure (eaiMemory, none)
  | code, _ => some (code.getD eaiFail, none)

/-- A string without letters, without its end. -/
structure NumericName where
  bytes : List UInt8
  noNul : 0 ∉ bytes
  noLetter : ∀ b ∈ bytes, isAlpha b = false

/-- Four numbers of one byte each with dots between them, and their address. -/
def IsQuad (name : List UInt8) (addr : UInt32) : Prop :=
  ∃ a b c d, (Octet a ∧ Octet b ∧ Octet c ∧ Octet d) ∧ name = dotted a b c d ∧
    addr = quadAddr a b c d

/-- There is no access outside `ipstr`, and an address is only found for four numbers, which is then
theirs. -/
structure Strict (name : List UInt8) (found : Option (Option UInt32)) : Prop where
  inside : found ≠ none
  quad : ∀ addr, found = some (some addr) → IsQuad name addr

/-- What is in `ipstr` for a numeric name that fits. -/
def paddedName (name : List UInt8) : List UInt8 :=
  name ++ List.replicate (ipstrSize - name.length) 0

section Name

variable {name : List UInt8} {addr : UInt32}

theorem hostIpstr_numeric (name : NumericName) (resolve : DomainResolve) (failed : ℤ → Bool) :
    hostIpstr resolve failed name.bytes =
      if ipstrSize < name.bytes.length then none else some (some (paddedName name.bytes)) := by
  have hall : name.bytes.takeWhile (fun b => !isAlpha b) = name.bytes := by
    rw [List.takeWhile_eq_self_iff]
    intro b hb
    rw [name.noLetter b hb]
    rfl
  rw [hostIpstr, hall, if_neg (lt_irrefl _)]
  rfl

/-- Four numbers with their end in the array are read. -/
theorem ipstrToU32_padded (h : IsQuad name addr) (hlen : name.length ≤ 15) :
    ipstrToU32 (paddedName name) = some addr := by
  obtain ⟨a, b, c, d, ⟨ha, hb, hc, hd⟩, rfl, rfl⟩ := h
  have hend : paddedName (dotted a b c d) =
      dotted a b c d ++ 0 :: List.replicate (15 - (dotted a b c d).length) 0 := by
    have hcount : ipstrSize - (dotted a b c d).length = 15 - (dotted a b c d).length + 1 := by
      rw [ipstrSize]
      omega
    rw [paddedName, hcount, List.replicate_succ]
  rw [hend, ipstrToU32_dotted ha hb hc hd]

/-- Four numbers that fill the array are not. -/
theorem ipstrToU32_full (h : IsQuad name addr) (hlen : name.length = ipstrSize) :
    ipstrToU32 (paddedName name) = none := by
  obtain ⟨a, b, c, d, ⟨ha, hb, hc, hd⟩, rfl, rfl⟩ := h
  rw [paddedName, hlen, Nat.sub_self, List.replicate_zero, List.append_nil,
    ipstrToU32_dotted_cut ha hb hc hd]

/-- An address that is read is the one of the four numbers. -/
theorem eq_of_quad (h : IsQuad name addr) (hlen : name.length ≤ ipstrSize) {found : UInt32}
    (hread : ipstrToU32 (paddedName name) = some found) : name.length ≤ 15 ∧ found = addr := by
  have hne : name.length ≠ ipstrSize := by
    intro hfull
    rw [ipstrToU32_full h hfull] at hread
    exact absurd hread (Option.some_ne_none found).symm
  have hshort : name.length ≤ 15 := by
    rw [ipstrSize] at hne hlen
    omega
  rw [ipstrToU32_padded h hshort] at hread
  exact ⟨hshort, (Option.some.inj hread).symm⟩

/-- What is found when an address that is read is kept if `keeps` says so. -/
theorem strict_iff_read (name : List UInt8) (keeps : UInt32 → Bool) :
    Strict name (if ipstrSize < name.length then none
        else (ipstrToU32 (paddedName name)).map fun addr =>
          if keeps addr then some addr else none) ↔
      name.length ≤ ipstrSize ∧ ∃ addr, ipstrToU32 (paddedName name) = some addr ∧
        (keeps addr = false ∨ ∃ quad, IsQuad name quad) := by
  by_cases hlen : ipstrSize < name.length
  · rw [if_pos hlen]
    exact iff_of_false (fun h => h.inside rfl) fun h => absurd hlen (Nat.not_lt.mpr h.1)
  · rw [if_neg hlen, and_iff_right (Nat.not_lt.mp hlen)]
    cases hread : ipstrToU32 (paddedName name) with
    | none =>
        apply iff_of_false
        · exact fun h => h.inside rfl
        · rintro ⟨addr, haddr, -⟩
          exact absurd haddr (Option.some_ne_none addr).symm
    | some addr =>
        rw [Option.map_some]
        constructor
        · intro h
          refine ⟨addr, rfl, ?_⟩
          cases hkeeps : keeps addr with
          | false => exact .inl rfl
          | true =>
              refine .inr ⟨addr, h.quad addr ?_⟩
              rw [if_pos hkeeps]
        · rintro ⟨_, ⟨⟩, h⟩
          refine ⟨Option.some_ne_none _, ?_⟩
          intro found hfound
          split_ifs at hfound with hkeeps
          · obtain rfl := Option.some.inj (Option.some.inj hfound)
            rcases h with hno | ⟨quad, hquad⟩
            · exact absurd hkeeps (by simp [hno])
            · rw [(eq_of_quad hquad (Nat.not_lt.mp hlen) hread).2]
              exact hquad
          · cases hfound

end Name

/-- What `at_gethostbyname` finds. -/
def hostAddr (found : Option (Option Hostent)) : Option (Option UInt32) :=
  found.map (·.map (·.hAddr))

/-- What `at_getaddrinfo` finds. -/
def infoAddr (found : Option (ℤ × Option AddrInfo)) : Option (Option UInt32) :=
  found.map (·.2.map (·.sAddr))

section Found

variable (name : NumericName) (resolve : DomainResolve)

theorem hostAddr_atGethostbyname :
    hostAddr (atGethostbyname (some resolve) (some name.bytes)) =
      if ipstrSize < name.bytes.length then none
      else
        (ipstrToU32 (paddedName name.bytes)).map fun addr => if true then some addr else none := by
  rw [atGethostbyname, hostIpstr_numeric]
  by_cases hlen : ipstrSize < name.bytes.length
  · rw [if_pos hlen, if_pos hlen]
    rfl
  · rw [if_neg hlen, if_neg hlen]
    simp only [Option.bind_eq_bind, Option.bind_some]
    cases ipstrToU32 (paddedName name.bytes) with
    | none => rfl
    | some addr => rfl

/-- An address that is found is not 0, and there is memory for it. -/
def AddrInfoCall.keeps (c : AddrInfoCall) (addr : UInt32) : Bool := addr ≠ 0 && c.malloc

theorem infoAddr_atGetaddrinfo {c : AddrInfoCall} (hlate : c.early? (some resolve) = none) :
    infoAddr (atGetaddrinfo (some resolve) c name.bytes) =
      if ipstrSize < name.bytes.length then none
      else (ipstrToU32 (paddedName name.bytes)).map fun addr =>
        if c.keeps addr then some addr else none := by
  unfold atGetaddrinfo
  rw [hlate]
  dsimp only
  rw [hostIpstr_numeric]
  by_cases hlen : ipstrSize < name.bytes.length
  · rw [if_pos hlen, if_pos hlen]
    rfl
  · rw [if_neg hlen, if_neg hlen]
    simp only [Option.bind_eq_bind, Option.bind_some]
    cases ipstrToU32 (paddedName name.bytes) with
    | none => rfl
    | some addr =>
        have hshort : ¬ dnsMaxNameLength < name.bytes.length := by
          rw [dnsMaxNameLength]
          rw [ipstrSize] at hlen
          omega
        rw [Option.bind_some, Option.map_some, AddrInfoCall.keeps, decide_eq_false hshort,
          Bool.or_false]
        by_cases hzero : addr = 0
        · rw [if_pos (decide_eq_true hzero), hzero]
          rfl
        · rw [if_neg (by simpa using hzero)]
          cases hmalloc : c.malloc with
          | true => simp [infoAddr, AddrInfoCall.addrInfo, hzero]
          | false => simp [infoAddr]

end Found

/-- Nothing is found. -/
theorem strict_none (name : List UInt8) : Strict name (some none) :=
  ⟨Option.some_ne_none none, fun _ h => absurd (Option.some.inj h) (Option.some_ne_none _).symm⟩

theorem strict_atGethostbyname_iff (name : NumericName) (atDevOps : Option DomainResolve) :
    Strict name.bytes (hostAddr (atGethostbyname atDevOps (some name.bytes))) ↔
      atDevOps = none ∨ name.bytes.length ≤ 15 ∧ ∃ quad, IsQuad name.bytes quad := by
  cases atDevOps with
  | none => exact iff_of_true (strict_none _) (.inl rfl)
  | some resolve =>
      rw [hostAddr_atGethostbyname, strict_iff_read, or_iff_right (Option.some_ne_none _)]
      constructor
      · rintro ⟨hlen, addr, hread, hkeeps⟩
        obtain ⟨quad, hquad⟩ := hkeeps.resolve_left Bool.noConfusion
        exact ⟨(eq_of_quad hquad hlen hread).1, quad, hquad⟩
      · rintro ⟨hlen, quad, hquad⟩
        exact ⟨hlen.trans (Nat.le_succ 15), quad, ipstrToU32_padded hquad hlen, .inr ⟨quad, hquad⟩⟩

theorem keeps_eq_false_iff {c : AddrInfoCall} {addr : UInt32} :
    c.keeps addr = false ↔ addr = 0 ∨ c.malloc = false := by
  rw [AddrInfoCall.keeps, Bool.and_eq_false_iff]
  simp

theorem strict_atGetaddrinfo_iff (name : NumericName) (atDevOps : Option DomainResolve)
    (c : AddrInfoCall) :
    Strict name.bytes (infoAddr (atGetaddrinfo atDevOps c name.bytes)) ↔
      c.early? atDevOps ≠ none ∨
        name.bytes.length ≤ ipstrSize ∧ ∃ addr, ipstrToU32 (paddedName name.bytes) = some addr ∧
          (addr = 0 ∨ c.malloc = false ∨ ∃ quad, IsQuad name.bytes quad) := by
  cases hearly : c.early? atDevOps with
  | some code =>
      refine iff_of_true ?_ (.inl (Option.some_ne_none code))
      unfold atGetaddrinfo
      rw [hearly]
      exact strict_none _
  | none =>
      cases atDevOps with
      | none =>
          rw [AddrInfoCall.early?, Option.isNone_none, Bool.or_true, if_pos rfl] at hearly
          cases hearly
      | some resolve =>
          rw [infoAddr_atGetaddrinfo name resolve hearly, strict_iff_read,
            or_iff_right (not_not.mpr rfl)]
          simp only [keeps_eq_false_iff, or_assoc]

/-- `at_gethostbyname` is right for a numeric name exactly when no device is registered, or the
name is four numbers and has at most 15 bytes. `at_getaddrinfo` is right exactly when it returns
before it looks at the name, or the name is read within its 16 bytes and gives 0, or there is no
memory, or it is four numbers. -/
theorem strict_iff (name : NumericName) (atDevOps : Option DomainResolve) (c : AddrInfoCall) :
    (Strict name.bytes (hostAddr (atGethostbyname atDevOps (some name.bytes))) ↔
      atDevOps = none ∨ name.bytes.length ≤ 15 ∧ ∃ quad, IsQuad name.bytes quad) ∧
    (Strict name.bytes (infoAddr (atGetaddrinfo atDevOps c name.bytes)) ↔
      c.early? atDevOps ≠ none ∨
        name.bytes.length ≤ ipstrSize ∧ ∃ addr, ipstrToU32 (paddedName name.bytes) = some addr ∧
          (addr = 0 ∨ c.malloc = false ∨ ∃ quad, IsQuad name.bytes quad)) :=
  ⟨strict_atGethostbyname_iff name atDevOps, strict_atGetaddrinfo_iff name atDevOps c⟩

/-- A name of twenty dots. -/
def dots : List UInt8 := List.replicate 20 0x2E

theorem zero_not_mem_dots : 0 ∉ dots := fun h => absurd (List.eq_of_mem_replicate h) (by decide)

theorem noLetter_dots : ∀ b ∈ dots, isAlpha b = false := by
  intro b hb
  obtain rfl := List.eq_of_mem_replicate hb
  decide

def dotsName : NumericName := ⟨dots, zero_not_mem_dots, noLetter_dots⟩

/-- It is copied behind the end of the array. -/
theorem atGethostbyname_dots :
    ¬ ∀ (name : NumericName) (atDevOps : Option DomainResolve) (c : AddrInfoCall),
      Strict name.bytes (hostAddr (atGethostbyname atDevOps (some name.bytes))) ∧
        Strict name.bytes (infoAddr (atGetaddrinfo atDevOps c name.bytes)) := by
  intro hall
  have hstrict := (hall dotsName (some fun _ => (0, [])) ⟨false, none, none, true⟩).1
  have hlen := (strict_atGethostbyname_iff _ _).mp hstrict
  rcases hlen with hnone | ⟨hlen, -⟩
  · exact absurd hnone (Option.some_ne_none _)
  · exact absurd hlen (by decide)

/-- Three numbers are taken for four. -/
example : ipstrToU32 (paddedName [0x31, 0x2E, 0x32, 0x2E, 0x33]) = some 0x00030201 := by decide

end AtSock
