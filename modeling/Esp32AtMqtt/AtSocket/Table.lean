import Esp32AtMqtt.AtSocket.Socket

/-!
# The table of AT sockets

`alloc_socket`, `free_socket` and the calls that open, connect and close a socket. A
slot of the table is free when its magic word is zero, and its index is the
descriptor. Every call is one step: `alloc_socket` holds the table's lock.

`at_socket` answers an allocation that failed with `RT_NULL`, which as an `int` is the
descriptor of the first slot. `CanAllocate` is the condition under which it does not.
-/

namespace AtSock

open Kernel.RtSemaphore Transition

/-- `domain` of `at_socket`: `AF_AT`, `AF_INET`, or another one. -/
inductive Domain
  | afAt
  | afInet
  | other
  deriving DecidableEq, Repr

/-- `SOCK_STREAM`. -/
def sockStream : ℤ := 1

/-- `SOCK_DGRAM`. -/
def sockDgram : ℤ := 2

/-- The array `sockets`, whether `at_slock` exists, and whether device operations are
registered. -/
structure SocketTable where
  sockets : List AtSocket
  atSlock : Bool
  atDevOps : Bool
  deriving DecidableEq, Repr

/-- Which of the kernel objects that `alloc_socket` asks for can be created: the
table's lock, the receive semaphore, and the receive lock. -/
structure AllocAnswers where
  atSlock : Bool
  recvNotice : Bool
  recvLock : Bool
  deriving DecidableEq, Repr

/-- `at_get_socket(socket)`. -/
def atGetSocket (sockets : List AtSocket) (socket : ℤ) : Option AtSocket :=
  if socket < 0 ∨ socket ≥ sockets.length then none
  else sockets[socket.toNat]?.filter (·.magic = atSocketMagic)

/-- A slot as `alloc_socket` begins to fill it. -/
def claimed (sock : AtSocket) (idx : ℕ) : AtSocket :=
  { sock with
    magic := atSocketMagic
    socket := idx
    state := .none
    rcvevent := 0
    sendevent := 0
    errevent := 0
    recvpktList := [] }

/-- The second half of `alloc_socket`, for the slot `idx`. A slot whose semaphore or lock
cannot be created keeps its magic word. -/
def fillSocket (t : SocketTable) (idx : ℕ) (ans : AllocAnswers) : Option ℕ × SocketTable :=
  let sock := claimed (t.sockets.getD idx .zero) idx
  if ¬ ans.recvNotice then
    (none, { t with sockets := t.sockets.set idx { sock with recvNotice := none } })
  else
    let sock := { sock with recvNotice := some (rtSemCreate 0) }
    if ¬ ans.recvLock then
      (none, { t with sockets := t.sockets.set idx { sock with recvLock := false } })
    else (some idx, { t with sockets := t.sockets.set idx { sock with recvLock := true } })

/-- `alloc_socket()`: the index of the socket, or the null pointer. -/
def allocSocket (t : SocketTable) (ans : AllocAnswers) : Option ℕ × SocketTable :=
  if ¬ t.atSlock ∧ ¬ ans.atSlock then (none, t)
  else
    let t := { t with atSlock := true }
    match t.sockets.findIdx? (·.magic = 0) with
    | none => (none, t)
    | some idx => fillSocket t idx ans

/-- The socket type that `at_socket` takes `type` for. -/
def socketType (type : ℤ) : Option AtSocketType :=
  if type = sockStream then some .tcp else if type = sockDgram then some .udp else none

/-- `at_socket(domain, type, protocol)`: the returned value and the table. The assertion
on the domain does not come back when it fails. -/
def atSocket (t : SocketTable) (domain : Domain) (type _protocol : ℤ) (ans : AllocAnswers) :
    Option (ℤ × SocketTable) :=
  if domain = .other then none
  else
    match socketType type with
    | none => some (-1, t)
    | some socketType =>
        match allocSocket t ans with
        | (none, t) => some (0, t) -- `RT_NULL`
        | (some idx, t) =>
            let sock := { t.sockets.getD idx .zero with type := socketType }
            some (sock.socket, { t with sockets := t.sockets.set idx sock })

/-- `free_socket(sock)` of the slot: the semaphore, the lock and the packets are
deleted, and the slot is filled with zero bytes. -/
def freeSocket (t : SocketTable) (socket : ℤ) : SocketTable :=
  { t with sockets := t.sockets.set socket.toNat .zero }

/-- `at_closesocket(socket)`; `devClose` is what the device returns. Both ways out of
the connected state free the slot. -/
def atClosesocket (t : SocketTable) (socket devClose : ℤ) : ℤ × SocketTable :=
  if ¬ t.atDevOps then (-1, t)
  else
    match atGetSocket t.sockets socket with
    | none => (-1, t)
    | some sock =>
        let lastState := sock.state
        let t := { t with sockets := t.sockets.set socket.toNat { sock with state := .closed } }
        if lastState = .connect ∧ devClose ≠ 0 then (-1, freeSocket t socket)
        else (0, freeSocket t socket)

/-- `at_shutdown(socket, how)`. -/
def atShutdown (t : SocketTable) (socket _how devClose : ℤ) : ℤ × SocketTable :=
  if ¬ t.atDevOps then (-1, t)
  else
    match atGetSocket t.sockets socket with
    | none => (-1, t)
    | some sock =>
        if sock.state = .connect ∧ devClose ≠ 0 then (-1, freeSocket t socket)
        else (0, freeSocket t socket)

/-- `at_connect(socket, …)`; `devConnect` is what the device returns. For a descriptor
that is not allocated the error is counted in the null pointer, and the call does not
come back. -/
def atConnect (t : SocketTable) (socket devConnect : ℤ) : Option (ℤ × SocketTable) :=
  if ¬ t.atDevOps then some (-1, t)
  else
    match atGetSocket t.sockets socket with
    | none => none
    | some sock =>
        let (result, sock) :=
          if sock.state ≠ .none ∨ devConnect < 0 then
            ((-1 : ℤ), atDoEventChanges sock .error true)
          else (0, { sock with state := .connect })
        some (result, { t with sockets := t.sockets.set socket.toNat sock })

/-- The table, and the descriptors that `at_socket` has returned and that have not been
closed since. -/
structure TableRun where
  table : SocketTable
  opened : List ℤ
  deriving DecidableEq, Repr

inductive TableAction
  | socket (domain : Domain) (type protocol : ℤ) (ans : AllocAnswers)
  | closesocket (socket devClose : ℤ)
  | shutdown (socket how devClose : ℤ)
  | connect (socket devConnect : ℤ)
  deriving DecidableEq, Repr

/-- A caller that gets a non-negative value holds a descriptor. -/
def TableRun.hold (s : TableRun) (r : ℤ × SocketTable) : TableRun :=
  ⟨r.2, if 0 ≤ r.1 then s.opened ++ [r.1] else s.opened⟩

/-- A descriptor is given up by a call that finds its socket. -/
def TableRun.drop (s : TableRun) (socket : ℤ) (t : SocketTable) : TableRun :=
  ⟨t, if s.table.atDevOps ∧ (atGetSocket s.table.sockets socket).isSome then
    s.opened.filter (· ≠ socket) else s.opened⟩

/-- The calls on the table. -/
def tableStep (s : TableRun) : TableAction → Option TableRun
  | .socket domain type protocol ans => (atSocket s.table domain type protocol ans).map s.hold
  | .closesocket socket devClose =>
      some (s.drop socket (atClosesocket s.table socket devClose).2)
  | .shutdown socket how devClose =>
      some (s.drop socket (atShutdown s.table socket how devClose).2)
  | .connect socket devConnect =>
      (atConnect s.table socket devConnect).map fun r => { s with table := r.2 }

/-- The table of `n` slots before any call. -/
def tableInit (n : ℕ) (atDevOps : Bool) : TableRun :=
  ⟨⟨List.replicate n .zero, false, atDevOps⟩, []⟩

/-- A non-negative value is the index of a slot that was free and is allocated now, and
the value is negative when no slot could be allocated. -/
structure FreshDescriptor (t : SocketTable) (ans : AllocAnswers) (r : ℤ) (t' : SocketTable) :
    Prop where
  fresh : 0 ≤ r → ∃ sock sock', t.sockets[r.toNat]? = some sock ∧ sock.magic = 0 ∧
    atGetSocket t'.sockets r = some sock' ∧ sock'.socket = r
  negative : (allocSocket t ans).1 = none → r < 0

/-- The type is not supported; or the table's lock exists or can be created, a slot is
free, and its semaphore and lock can be created. -/
def CanAllocate (t : SocketTable) (type : ℤ) (ans : AllocAnswers) : Prop :=
  socketType type = none ∨
    ((t.atSlock ∨ ans.atSlock) ∧ (∃ sock ∈ t.sockets, sock.magic = 0) ∧
      ans.recvNotice ∧ ans.recvLock)

instance (t : SocketTable) (type : ℤ) (ans : AllocAnswers) : Decidable (CanAllocate t type ans) :=
  inferInstanceAs (Decidable (_ ∨ _))

/-- Every call of `at_socket` can allocate. -/
def SocketsAllocate (s : TableRun) : TableAction → Prop
  | .socket _ type _ ans => CanAllocate s.table type ans
  | _ => True

instance (s : TableRun) : ∀ a : TableAction, Decidable (SocketsAllocate s a)
  | .socket _ type _ ans => inferInstanceAs (Decidable (CanAllocate s.table type ans))
  | .closesocket _ _ | .shutdown _ _ _ | .connect _ _ => isTrue trivial

theorem fillSocket_some {t t' : SocketTable} {i idx : ℕ} {ans : AllocAnswers}
    (h : fillSocket t i ans = (some idx, t')) :
    i = idx ∧ ∃ sock, t' = { t with sockets := t.sockets.set i sock } ∧
      sock.magic = atSocketMagic ∧ sock.socket = i := by
  simp only [fillSocket] at h
  split_ifs at h <;> cases h
  exact ⟨rfl, _, rfl, rfl, rfl⟩

theorem fillSocket_isSome (t : SocketTable) (idx : ℕ) (ans : AllocAnswers) :
    (fillSocket t idx ans).1.isSome ↔ ans.recvNotice ∧ ans.recvLock := by
  simp only [fillSocket]
  split_ifs with hsem hlock
  · simp [hsem, hlock]
  · simp [hlock]
  · simp [hsem]

/-- When `alloc_socket` succeeds: the slot was free, and it is allocated now. -/
theorem allocSocket_some {t t' : SocketTable} {ans : AllocAnswers} {idx : ℕ}
    (h : allocSocket t ans = (some idx, t')) :
    ∃ sock sock', t.sockets[idx]? = some sock ∧ sock.magic = 0 ∧
      t' = { t with atSlock := true, sockets := t.sockets.set idx sock' } ∧
      sock'.magic = atSocketMagic ∧ sock'.socket = idx := by
  unfold allocSocket at h
  split at h
  · cases h
  · cases hidx : t.sockets.findIdx? (·.magic = 0) with
    | none => simp [hidx] at h
    | some i =>
        simp only [hidx] at h
        obtain ⟨rfl, sock', rfl, hmagic', hsocket⟩ := fillSocket_some h
        obtain ⟨hlt, hmagic, -⟩ := List.findIdx?_eq_some_iff_getElem.mp hidx
        exact ⟨t.sockets[i], sock', List.getElem?_eq_getElem hlt, of_decide_eq_true hmagic, rfl,
          hmagic', hsocket⟩

/-- Exactly when `alloc_socket` succeeds. -/
theorem allocSocket_isSome (t : SocketTable) (ans : AllocAnswers) :
    (allocSocket t ans).1.isSome ↔ (t.atSlock ∨ ans.atSlock) ∧
      (∃ sock ∈ t.sockets, sock.magic = 0) ∧ ans.recvNotice ∧ ans.recvLock := by
  have hfree : (t.sockets.findIdx? (·.magic = 0)).isSome ↔ ∃ sock ∈ t.sockets, sock.magic = 0 := by
    simp [List.findIdx?_isSome, List.any_eq_true]
  rw [← hfree]
  unfold allocSocket
  split
  · next hlock =>
      simp only [Option.isSome_none, Bool.false_eq_true, false_iff]
      exact fun h => h.1.elim (fun h => hlock.1 h) fun h => hlock.2 h
  · next hlock =>
      have hsome : t.atSlock ∨ ans.atSlock := by
        by_contra hno
        exact hlock (not_or.mp hno)
      cases hidx : t.sockets.findIdx? (·.magic = 0) with
      | none => simp [hidx]
      | some i =>
          simp only [hidx, hsome, true_and, Option.isSome_some]
          exact fillSocket_isSome _ i ans

theorem atGetSocket_eq_some {sockets : List AtSocket} {socket : ℤ} {sock : AtSocket} :
    atGetSocket sockets socket = some sock ↔
      0 ≤ socket ∧ sockets[socket.toNat]? = some sock ∧ sock.magic = atSocketMagic := by
  unfold atGetSocket
  split
  · next hout =>
      simp only [reduceCtorEq, false_iff]
      rintro ⟨hpos, hget, -⟩
      obtain ⟨hlt, -⟩ := List.getElem?_eq_some_iff.mp hget
      omega
  · next hin =>
      simp only [Option.filter_eq_some_iff, decide_eq_true_eq]
      exact ⟨fun h => ⟨by omega, h⟩, fun h => h.2⟩

/-- The slot of another descriptor may change. -/
theorem atGetSocket_set {sockets : List AtSocket} {d : ℤ} {i : ℕ} (hne : d.toNat ≠ i)
    (sock : AtSocket) : atGetSocket (sockets.set i sock) d = atGetSocket sockets d := by
  simp only [atGetSocket, List.length_set, List.getElem?_set_ne hne.symm]

/-- The slot of a descriptor may change while it keeps its magic word. -/
theorem atGetSocket_set_self {sockets : List AtSocket} {d : ℤ} {sock sock' : AtSocket}
    (h : atGetSocket sockets d = some sock) (hmagic : sock'.magic = atSocketMagic) :
    atGetSocket (sockets.set d.toNat sock') d = some sock' := by
  obtain ⟨hpos, hget, -⟩ := atGetSocket_eq_some.mp h
  obtain ⟨hlt, -⟩ := List.getElem?_eq_some_iff.mp hget
  exact atGetSocket_eq_some.mpr ⟨hpos, by rw [List.getElem?_set_self hlt], hmagic⟩

/-- What a call of `at_socket` does when its allocation succeeds. -/
theorem atSocket_of_some {t u : SocketTable} {domain : Domain} {type : ℤ} (protocol : ℤ)
    {ans : AllocAnswers} {ty : AtSocketType} {idx : ℕ} (hdomain : domain ≠ .other)
    (htype : socketType type = some ty) (halloc : allocSocket t ans = (some idx, u)) :
    ∃ sock sock' : AtSocket, t.sockets[idx]? = some sock ∧ sock.magic = 0 ∧
      sock'.magic = atSocketMagic ∧ sock'.socket = (idx : ℤ) ∧
      atSocket t domain type protocol ans = some ((idx : ℤ),
        { t with atSlock := true, sockets := t.sockets.set idx sock' }) := by
  obtain ⟨sock, sock', hget, hmagic, rfl, hmagic', hsocket⟩ := allocSocket_some halloc
  obtain ⟨hlt, -⟩ := List.getElem?_eq_some_iff.mp hget
  refine ⟨sock, { sock' with type := ty }, hget, hmagic, hmagic', hsocket, ?_⟩
  have hslot : (t.sockets.set idx sock').getD idx .zero = sock' := by
    rw [List.getD_eq_getElem?_getD, List.getElem?_set_self hlt, Option.getD_some]
  simp only [atSocket, if_neg hdomain, htype, halloc, hslot, hsocket, List.set_set]

theorem canAllocate_iff {t : SocketTable} {type : ℤ} {ty : AtSocketType}
    (htype : socketType type = some ty) (ans : AllocAnswers) :
    CanAllocate t type ans ↔ (allocSocket t ans).1.isSome := by
  rw [allocSocket_isSome, CanAllocate, htype]
  simp

/-- A call of `at_socket` answers as it should exactly when it can allocate. -/
theorem freshDescriptor_iff {t t' : SocketTable} {domain : Domain} {type protocol r : ℤ}
    {ans : AllocAnswers} (h : atSocket t domain type protocol ans = some (r, t')) :
    FreshDescriptor t ans r t' ↔ CanAllocate t type ans := by
  have hdomain : domain ≠ .other := by
    rintro rfl
    simp [atSocket] at h
  cases htype : socketType type with
  | none =>
      simp only [atSocket, if_neg hdomain, htype, Option.some.injEq, Prod.mk.injEq] at h
      obtain ⟨rfl, rfl⟩ := h
      exact iff_of_true ⟨fun h => absurd h (by decide), fun _ => by decide⟩ (.inl htype)
  | some ty =>
      rw [canAllocate_iff htype]
      cases halloc : allocSocket t ans with
      | mk o u =>
          cases o with
          | none =>
              -- the null pointer is returned, and it is not negative
              simp only [atSocket, if_neg hdomain, htype, halloc, Option.some.injEq,
                Prod.mk.injEq] at h
              refine iff_of_false (fun hfresh => ?_) (by simp)
              have hneg := hfresh.negative (by rw [halloc])
              omega
          | some idx =>
              obtain ⟨sock, sock', hget, hmagic, hmagic', hsocket, hcall⟩ :=
                atSocket_of_some protocol hdomain htype halloc
              obtain ⟨hlt, -⟩ := List.getElem?_eq_some_iff.mp hget
              rw [hcall, Option.some.injEq, Prod.mk.injEq] at h
              obtain ⟨rfl, rfl⟩ := h
              refine iff_of_true
                ⟨fun _ => ⟨sock, sock', hget, hmagic, ?_, hsocket⟩, fun hnone => ?_⟩
                rfl
              · exact atGetSocket_eq_some.mpr ⟨by omega, by
                  rw [Int.toNat_natCast, List.getElem?_set_self hlt], hmagic'⟩
              · rw [halloc] at hnone
                cases hnone

/-- A call of `at_socket` that can allocate takes no slot that is allocated. -/
theorem atSocket_keeps {t t' : SocketTable} {domain : Domain} {type protocol r : ℤ}
    {ans : AllocAnswers} (hcan : CanAllocate t type ans)
    (h : atSocket t domain type protocol ans = some (r, t')) (d : ℤ)
    (hd : (atGetSocket t.sockets d).isSome) : (atGetSocket t'.sockets d).isSome := by
  have hdomain : domain ≠ .other := by
    rintro rfl
    simp [atSocket] at h
  cases htype : socketType type with
  | none =>
      simp only [atSocket, if_neg hdomain, htype, Option.some.injEq, Prod.mk.injEq] at h
      rwa [← h.2]
  | some ty =>
      obtain ⟨idx, hidx⟩ := Option.isSome_iff_exists.mp ((canAllocate_iff htype ans).mp hcan)
      obtain ⟨sock, sock', hget, hmagic, hmagic', hsocket, hcall⟩ :=
        atSocket_of_some (u := (allocSocket t ans).2) protocol hdomain htype
          (Prod.ext hidx rfl)
      rw [hcall, Option.some.injEq, Prod.mk.injEq] at h
      have hne : d.toNat ≠ idx := by
        rintro rfl
        obtain ⟨sock'', hsock⟩ := Option.isSome_iff_exists.mp hd
        obtain ⟨-, hslot, hm⟩ := atGetSocket_eq_some.mp hsock
        rw [hget] at hslot
        cases hslot
        rw [hmagic] at hm
        exact absurd hm (by decide)
      rw [← h.2, atGetSocket_set hne]
      exact hd

/-- `at_connect` frees no slot. -/
theorem atConnect_keeps {t t' : SocketTable} {socket devConnect r : ℤ}
    (h : atConnect t socket devConnect = some (r, t')) (d : ℤ)
    (hd : (atGetSocket t.sockets d).isSome) : (atGetSocket t'.sockets d).isSome := by
  unfold atConnect at h
  split at h
  · cases h
    exact hd
  · cases hsock : atGetSocket t.sockets socket with
    | none => simp [hsock] at h
    | some sock =>
        obtain ⟨hpos, hget, hmagic⟩ := atGetSocket_eq_some.mp hsock
        have hset : ∃ sock', sock'.magic = atSocketMagic ∧
            t'.sockets = t.sockets.set socket.toNat sock' := by
          simp only [hsock, Option.some.injEq, Prod.mk.injEq] at h
          rw [← h.2]
          exact ⟨_, by split <;> exact hmagic, rfl⟩
        obtain ⟨sock', hmagic', hsockets⟩ := hset
        rw [hsockets]
        by_cases hne : d.toNat = socket.toNat
        · obtain ⟨dsock, hdsock⟩ := Option.isSome_iff_exists.mp hd
          rw [← hne, atGetSocket_set_self hdsock hmagic']
          rfl
        · rw [atGetSocket_set hne]
          exact hd

/-- The open descriptors are distinct, and each is the index of an allocated slot. -/
structure DescriptorsUnique (s : TableRun) : Prop where
  nodup : s.opened.Nodup
  allocated : ∀ d ∈ s.opened, (atGetSocket s.table.sockets d).isSome

theorem descriptorsUnique_init (n : ℕ) (atDevOps : Bool) :
    DescriptorsUnique (tableInit n atDevOps) := ⟨List.nodup_nil, by simp [tableInit]⟩

/-- Closing a descriptor frees its slot only, and gives up this descriptor. -/
theorem descriptorsUnique_drop {s : TableRun} (hs : DescriptorsUnique s) {socket : ℤ}
    {t : SocketTable}
    (ht : t = s.table ∧ ¬ (s.table.atDevOps ∧ (atGetSocket s.table.sockets socket).isSome) ∨
      (s.table.atDevOps ∧ (atGetSocket s.table.sockets socket).isSome) ∧
        ∃ sock, t.sockets = (s.table.sockets.set socket.toNat sock).set socket.toNat .zero) :
    DescriptorsUnique (s.drop socket t) := by
  rcases ht with ⟨rfl, hno⟩ | ⟨hfound, sock, hsockets⟩
  · rw [TableRun.drop, if_neg hno]
    exact hs
  · rw [TableRun.drop, if_pos hfound]
    refine ⟨hs.nodup.filter _, fun d hd => ?_⟩
    obtain ⟨hmem, hne⟩ := List.mem_filter.mp hd
    have hne' : d.toNat ≠ socket.toNat := by
      obtain ⟨sock', hsock⟩ := Option.isSome_iff_exists.mp hfound.2
      obtain ⟨sock'', hsock'⟩ := Option.isSome_iff_exists.mp (hs.allocated d hmem)
      have hpos := (atGetSocket_eq_some.mp hsock).1
      have hpos' := (atGetSocket_eq_some.mp hsock').1
      have hdne : d ≠ socket := by simpa using hne
      omega
    show (atGetSocket t.sockets d).isSome
    rw [hsockets, atGetSocket_set hne', atGetSocket_set hne']
    exact hs.allocated d hmem

/-- What a close of a descriptor that is found does to the table. -/
theorem atClosesocket_sockets (t : SocketTable) (socket devClose : ℤ) :
    (atClosesocket t socket devClose).2 = t ∧
        ¬ (t.atDevOps ∧ (atGetSocket t.sockets socket).isSome) ∨
      (t.atDevOps ∧ (atGetSocket t.sockets socket).isSome) ∧
        ∃ sock, (atClosesocket t socket devClose).2.sockets =
          (t.sockets.set socket.toNat sock).set socket.toNat .zero := by
  unfold atClosesocket
  by_cases hdev : t.atDevOps
  · rw [if_neg (not_not.mpr hdev)]
    cases hsock : atGetSocket t.sockets socket with
    | none => exact .inl ⟨rfl, by simp⟩
    | some sock =>
        refine .inr ⟨⟨hdev, rfl⟩, { sock with state := .closed }, ?_⟩
        dsimp only
        split <;> rfl
  · rw [if_pos hdev]
    exact .inl ⟨rfl, fun h => hdev h.1⟩

theorem atShutdown_sockets (t : SocketTable) (socket how devClose : ℤ) :
    (atShutdown t socket how devClose).2 = t ∧
        ¬ (t.atDevOps ∧ (atGetSocket t.sockets socket).isSome) ∨
      (t.atDevOps ∧ (atGetSocket t.sockets socket).isSome) ∧
        ∃ sock, (atShutdown t socket how devClose).2.sockets =
          (t.sockets.set socket.toNat sock).set socket.toNat .zero := by
  unfold atShutdown
  by_cases hdev : t.atDevOps
  · rw [if_neg (not_not.mpr hdev)]
    cases hsock : atGetSocket t.sockets socket with
    | none => exact .inl ⟨rfl, by simp⟩
    | some sock =>
        refine .inr ⟨⟨hdev, rfl⟩, sock, ?_⟩
        dsimp only
        split <;> simp [freeSocket]
  · rw [if_pos hdev]
    exact .inl ⟨rfl, fun h => hdev h.1⟩

theorem descriptorsUnique_step {s s' : TableRun} {a : TableAction} (hs : DescriptorsUnique s)
    (hok : SocketsAllocate s a) (h : tableStep s a = some s') : DescriptorsUnique s' := by
  cases a with
  | socket domain type protocol ans =>
      obtain ⟨⟨r, t⟩, hcall, rfl⟩ := Option.map_eq_some_iff.mp h
      have hfresh := (freshDescriptor_iff hcall).mpr hok
      have hkeep := atSocket_keeps hok hcall
      rw [TableRun.hold]
      dsimp only
      split
      · next hpos =>
          obtain ⟨sock, sock', hget, hmagic, hget', -⟩ := hfresh.fresh hpos
          have hnew : r ∉ s.opened := by
            intro hmem
            obtain ⟨sock'', hsock⟩ := Option.isSome_iff_exists.mp (hs.allocated r hmem)
            obtain ⟨-, hslot, hm⟩ := atGetSocket_eq_some.mp hsock
            rw [hget] at hslot
            cases hslot
            rw [hmagic] at hm
            exact absurd hm (by decide)
          refine ⟨List.nodup_append.mpr ⟨hs.nodup, by simp, ?_⟩, ?_⟩
          · intro d hd e he
            rw [List.mem_singleton] at he
            exact fun heq => hnew (by rwa [← he, ← heq])
          · refine List.forall_mem_append.mpr ⟨fun d hd => hkeep d (hs.allocated d hd), ?_⟩
            exact List.forall_mem_singleton.mpr (by rw [hget']; rfl)
      · exact ⟨hs.nodup, fun d hd => hkeep d (hs.allocated d hd)⟩
  | closesocket socket devClose =>
      cases h
      exact descriptorsUnique_drop hs (atClosesocket_sockets s.table socket devClose)
  | shutdown socket how devClose =>
      cases h
      exact descriptorsUnique_drop hs (atShutdown_sockets s.table socket how devClose)
  | connect socket devConnect =>
      obtain ⟨⟨r, t⟩, hcall, rfl⟩ := Option.map_eq_some_iff.mp h
      exact ⟨hs.nodup, fun d hd => atConnect_keeps hcall d (hs.allocated d hd)⟩

/-- Every call of `at_socket`, in any state, answers as it should exactly when it can
allocate; and in every run whose calls of `at_socket` can allocate the descriptors open
at a time are distinct, and each is the index of an allocated slot. -/
theorem atSocket_fresh_iff_canAllocate (n : ℕ) (atDevOps : Bool) :
    (∀ t domain type protocol ans r t', atSocket t domain type protocol ans = some (r, t') →
      (FreshDescriptor t ans r t' ↔ CanAllocate t type ans)) ∧
    ∀ as s, Run tableStep SocketsAllocate (tableInit n atDevOps) as s → DescriptorsUnique s :=
  ⟨fun _ _ _ _ _ _ _ h => freshDescriptor_iff h, fun _ _ h =>
    h.invariant DescriptorsUnique (fun _ _ _ => descriptorsUnique_step)
      (descriptorsUnique_init n atDevOps)⟩

/-- With all slots in use `at_socket` returns the descriptor of the first slot, which
another caller holds. -/
theorem atSocket_repeats_descriptor :
    ¬ ∀ n atDevOps as s, Run tableStep unconditional (tableInit n atDevOps) as s →
      DescriptorsUnique s := by
  intro hall
  obtain ⟨s, hrun, hs⟩ := Run.exists_of_exec tableStep unconditional (tableInit 5 true)
    (List.replicate 6 (.socket .afInet sockStream 0 ⟨true, true, true⟩))
    (fun s => decide (s.opened = [0, 1, 2, 3, 4, 0])) (by decide)
  have hunique := (hall 5 true _ s hrun).nodup
  rw [of_decide_eq_true hs] at hunique
  exact absurd hunique (by decide)

end AtSock
