import Esp32AtMqtt.AtSocket.Table

/-!
# Failed allocations of AT sockets

`alloc_socket` marks the slot it has found as used before it creates the slot's semaphore
and lock, and its error exit releases the table's lock only. A call that fails behind that
mark loses the slot, and a failure of the second object loses the first one too. The calls
that fail before a slot is found leave the table as it was.
-/

namespace AtSock

open Transition

/-- The kernel objects that `alloc_socket` asks for. -/
inductive KernelObject
  | atSlock
  | recvNotice (idx : ℕ)
  | recvLock (idx : ℕ)
  deriving DecidableEq, Repr

/-- The objects that a call of `alloc_socket` creates, in this order. The function deletes
no object, so they all exist when it returns. -/
def allocObjects (t : SocketTable) (ans : AllocAnswers) : List KernelObject :=
  let lock := if t.atSlock then [] else [.atSlock]
  if ¬ t.atSlock ∧ ¬ ans.atSlock then []
  else
    match t.sockets.findIdx? (·.magic = 0) with
    | none => lock
    | some idx =>
        if ¬ ans.recvNotice then lock
        else if ¬ ans.recvLock then lock ++ [.recvNotice idx]
        else lock ++ [.recvNotice idx, .recvLock idx]

/-- Every entry is as before, and every object created has been released. -/
structure ChangesNothing (t : SocketTable) (ans : AllocAnswers) (t' : SocketTable) : Prop where
  entries : t'.sockets = t.sockets
  released : allocObjects t ans = []

/-- The table's lock does not exist and cannot be created. -/
def LockRefused (t : SocketTable) (ans : AllocAnswers) : Prop :=
  ¬ t.atSlock ∧ ¬ ans.atSlock

instance (t : SocketTable) (ans : AllocAnswers) : Decidable (LockRefused t ans) :=
  inferInstanceAs (Decidable (_ ∧ _))

/-- No slot is free. -/
def TableFull (t : SocketTable) : Prop :=
  ∀ sock ∈ t.sockets, sock.magic ≠ 0

instance (t : SocketTable) : Decidable (TableFull t) :=
  inferInstanceAs (Decidable (∀ sock ∈ t.sockets, _))

/-- The number of free slots. -/
def freeSlots (t : SocketTable) : ℕ :=
  t.sockets.countP (·.magic = 0)

/-- `n` calls of `at_socket` in a row get a socket each, when every kernel object can be
created. -/
def canOpen : ℕ → SocketTable → Bool
  | 0, _ => true
  | n + 1, t =>
      (allocSocket t ⟨true, true, true⟩).1.isSome &&
        (atSocket t .afAt sockStream 0 ⟨true, true, true⟩).any fun r => canOpen n r.2

/-- The arguments of a call of `at_socket`, and the answers it gets. -/
structure SocketCall where
  domain : Domain
  type : ℤ
  protocol : ℤ
  ans : AllocAnswers
  deriving DecidableEq, Repr

/-- A call of `at_socket` that gives no socket. -/
def failedSocket (t : SocketTable) (c : SocketCall) : Option SocketTable :=
  if socketType c.type = none ∨ (allocSocket t c.ans).1 = none then
    (atSocket t c.domain c.type c.protocol c.ans).map (·.2)
  else none

/-- The call fails before it has found a slot. -/
def FindsNoSlot (t : SocketTable) (c : SocketCall) : Prop :=
  socketType c.type = none ∨ LockRefused t c.ans ∨ TableFull t

instance (t : SocketTable) (c : SocketCall) : Decidable (FindsNoSlot t c) :=
  inferInstanceAs (Decidable (_ ∨ _))

theorem findIdx_eq_none_iff (t : SocketTable) :
    t.sockets.findIdx? (·.magic = 0) = none ↔ TableFull t := by
  simp [TableFull, List.findIdx?_eq_none_iff]

theorem freeSlots_eq_zero_iff (t : SocketTable) : freeSlots t = 0 ↔ TableFull t := by
  simp [freeSlots, TableFull, List.countP_eq_zero]

/-- A free slot that is taken is one slot less. -/
theorem freeSlots_set {t : SocketTable} {idx : ℕ} {sock sock' : AtSocket}
    (hget : t.sockets[idx]? = some sock) (hfree : sock.magic = 0) (hused : sock'.magic ≠ 0)
    (lock : Bool) :
    freeSlots { t with atSlock := lock, sockets := t.sockets.set idx sock' } + 1 =
      freeSlots t := by
  obtain ⟨hlt, rfl⟩ := List.getElem?_eq_some_iff.mp hget
  have hpos : 0 < t.sockets.countP (·.magic = 0) :=
    List.countP_pos_iff.mpr ⟨_, List.getElem_mem hlt, decide_eq_true hfree⟩
  unfold freeSlots
  rw [List.countP_set hlt, decide_eq_true hfree, decide_eq_false hused, if_pos rfl,
    if_neg Bool.false_ne_true, Nat.add_zero]
  exact Nat.sub_add_cancel hpos

/-- A slot whose second half fails is marked as used. -/
theorem fillSocket_none {t t' : SocketTable} {idx : ℕ} {ans : AllocAnswers}
    (h : fillSocket t idx ans = (none, t')) :
    ∃ sock, t' = { t with sockets := t.sockets.set idx sock } ∧
      sock.magic = atSocketMagic := by
  simp only [fillSocket] at h
  split_ifs at h <;> cases h
  · exact ⟨_, rfl, rfl⟩
  · exact ⟨_, rfl, rfl⟩

/-- What a failed call does: it gives up at the lock, or finds the table full, or loses a
slot. -/
theorem allocSocket_none {t t' : SocketTable} {ans : AllocAnswers}
    (h : allocSocket t ans = (none, t')) :
    (LockRefused t ans ∧ t' = t) ∨
      (¬ LockRefused t ans ∧ TableFull t ∧ t' = { t with atSlock := true }) ∨
      (¬ LockRefused t ans ∧ ∃ idx sock sock', t.sockets[idx]? = some sock ∧ sock.magic = 0 ∧
        sock'.magic = atSocketMagic ∧
        t' = { t with atSlock := true, sockets := t.sockets.set idx sock' }) := by
  unfold allocSocket at h
  split at h
  · next hlock => exact .inl ⟨hlock, (Prod.mk.inj h).2.symm⟩
  · next hlock =>
    cases hidx : t.sockets.findIdx? (·.magic = 0) with
    | none =>
        simp only [hidx] at h
        have hfull := (findIdx_eq_none_iff t).mp hidx
        exact .inr (.inl ⟨hlock, hfull, (Prod.mk.inj h).2.symm⟩)
    | some idx =>
        simp only [hidx] at h
        obtain ⟨sock', rfl, hmagic'⟩ := fillSocket_none h
        obtain ⟨hlt, hmagic, -⟩ := List.findIdx?_eq_some_iff_getElem.mp hidx
        exact .inr (.inr ⟨hlock, idx, t.sockets[idx], sock', List.getElem?_eq_getElem hlt,
          of_decide_eq_true hmagic, hmagic', rfl⟩)

theorem atSocketMagic_ne_zero : atSocketMagic ≠ 0 := by decide

/-- A failed call leaves the entries alone exactly when it finds no slot. -/
theorem allocSocket_entries {t t' : SocketTable} {ans : AllocAnswers}
    (h : allocSocket t ans = (none, t')) :
    t'.sockets = t.sockets ↔ LockRefused t ans ∨ TableFull t := by
  rcases allocSocket_none h with ⟨hlock, rfl⟩ | ⟨-, hfull, rfl⟩ |
    ⟨hlock, idx, sock, sock', hget, hmagic, hmagic', rfl⟩
  · exact iff_of_true rfl (.inl hlock)
  · exact iff_of_true rfl (.inr hfull)
  · obtain ⟨hlt, rfl⟩ := List.getElem?_eq_some_iff.mp hget
    apply iff_of_false
    · intro heq
      have hslot : some sock' = t.sockets[idx]? := by
        rw [← List.getElem?_set_self hlt]
        exact congrArg (·[idx]?) heq
      rw [hget, Option.some.injEq] at hslot
      rw [← hslot, hmagic'] at hmagic
      exact atSocketMagic_ne_zero hmagic
    · rintro (hrefused | hfull)
      · exact hlock hrefused
      · exact hfull _ (List.getElem_mem hlt) hmagic

/-- Nothing is created exactly when the lock is refused, or exists and the table is full or
the first object is refused. -/
theorem allocObjects_eq_nil_iff (t : SocketTable) (ans : AllocAnswers) :
    allocObjects t ans = [] ↔
      LockRefused t ans ∨ t.atSlock ∧ (TableFull t ∨ ¬ ans.recvNotice) := by
  unfold allocObjects
  by_cases hlock : ¬ t.atSlock ∧ ¬ ans.atSlock
  · exact iff_of_true (if_pos hlock) (.inl hlock)
  · rw [if_neg hlock, ← findIdx_eq_none_iff]
    have hrefused : ¬ LockRefused t ans := hlock
    cases t.sockets.findIdx? (·.magic = 0) with
    | none =>
        cases hs : t.atSlock with
        | false => simp [hrefused]
        | true => simp
    | some idx =>
        cases hs : t.atSlock with
        | false => cases ans.recvNotice <;> cases ans.recvLock <;> simp [hrefused]
        | true => cases ans.recvNotice <;> cases ans.recvLock <;> simp [hrefused]

/-- Exactly when a failed call changes nothing. -/
theorem changesNothing_iff {t t' : SocketTable} {ans : AllocAnswers}
    (h : allocSocket t ans = (none, t')) :
    ChangesNothing t ans t' ↔ LockRefused t ans ∨ t.atSlock ∧ TableFull t := by
  constructor
  · rintro ⟨hentries, hreleased⟩
    rcases (allocObjects_eq_nil_iff t ans).mp hreleased with hlock | ⟨hlock, -⟩
    · exact .inl hlock
    · rcases (allocSocket_entries h).mp hentries with hrefused | hfull
      · exact .inl hrefused
      · exact .inr ⟨hlock, hfull⟩
  · intro hcond
    refine ⟨(allocSocket_entries h).mpr (hcond.imp_right And.right), ?_⟩
    exact (allocObjects_eq_nil_iff t ans).mpr (hcond.imp_right fun h => ⟨h.1, .inl h.2⟩)

/-- Exactly the free slots can be opened. -/
theorem canOpen_iff (n : ℕ) (t : SocketTable) : canOpen n t ↔ n ≤ freeSlots t := by
  induction n generalizing t with
  | zero => simp [canOpen]
  | succ n ih =>
      cases halloc : allocSocket t ⟨true, true, true⟩ with
      | mk o u =>
          cases o with
          | none =>
              -- nothing is refused, so the table is full
              have hsome := (allocSocket_isSome t ⟨true, true, true⟩).not.mp (by simp [halloc])
              have hfull : TableFull t := by simpa [TableFull] using hsome
              have hzero := (freeSlots_eq_zero_iff t).mpr hfull
              simp [canOpen, halloc, hzero]
          | some idx =>
              obtain ⟨sock, sock', hget, hmagic, hmagic', -, hcall⟩ :=
                atSocket_of_some 0 (show Domain.afAt ≠ .other by decide)
                  (show socketType sockStream = some .tcp from rfl) halloc
              have hused : sock'.magic ≠ 0 := hmagic' ▸ atSocketMagic_ne_zero
              have hcount := freeSlots_set hget hmagic hused true
              rw [canOpen, halloc, hcall, Option.isSome_some, Bool.true_and, Option.any_some, ih,
                ← hcount]
              exact Nat.succ_le_succ_iff.symm

/-- What a failed call of `at_socket` does to the free slots. -/
theorem freeSlots_failedSocket {t t' : SocketTable} {c : SocketCall}
    (h : failedSocket t c = some t') :
    (FindsNoSlot t c ∧ freeSlots t' = freeSlots t) ∨
      (¬ FindsNoSlot t c ∧ freeSlots t' + 1 = freeSlots t) := by
  unfold failedSocket at h
  split at h
  · next hfail =>
      obtain ⟨⟨r, u⟩, hcall, rfl⟩ := Option.map_eq_some_iff.mp h
      have hdomain : c.domain ≠ .other := by
        intro hother
        simp [atSocket, hother] at hcall
      cases htype : socketType c.type with
      | none =>
          simp only [atSocket, if_neg hdomain, htype, Option.some.injEq, Prod.mk.injEq] at hcall
          obtain ⟨-, rfl⟩ := hcall
          exact .inl ⟨.inl htype, rfl⟩
      | some ty =>
          have hnone : (allocSocket t c.ans).1 = none := hfail.resolve_left (by simp [htype])
          have halloc : allocSocket t c.ans = (none, (allocSocket t c.ans).2) :=
            Prod.ext hnone rfl
          simp only [atSocket, if_neg hdomain, htype] at hcall
          rw [halloc] at hcall
          obtain ⟨-, rfl⟩ := Prod.mk.inj (Option.some.inj hcall)
          rcases allocSocket_none halloc with ⟨hlock, heq⟩ | ⟨-, hfull, heq⟩ |
            ⟨hlock, idx, sock, sock', hget, hmagic, hmagic', heq⟩
          · exact .inl ⟨.inr (.inl hlock), by rw [heq]⟩
          · exact .inl ⟨.inr (.inr hfull), by rw [heq]; rfl⟩
          · refine .inr ⟨?_, ?_⟩
            · rintro (hno | hrefused | hfull)
              · rw [htype] at hno
                cases hno
              · exact hlock hrefused
              · obtain ⟨hlt, rfl⟩ := List.getElem?_eq_some_iff.mp hget
                exact hfull _ (List.getElem_mem hlt) hmagic
            · rw [heq]
              exact freeSlots_set hget hmagic (hmagic' ▸ atSocketMagic_ne_zero) true
  · cases h

/-- Behind failed calls the free slots are the ones from before exactly when no call has
found a slot; otherwise they are fewer. -/
theorem freeSlots_run {t t' : SocketTable} {cs : List SocketCall}
    (h : Run failedSocket unconditional t cs t') :
    freeSlots t' = freeSlots t ↔ Run failedSocket FindsNoSlot t cs t' := by
  have hkeep : ∀ u c v, freeSlots u = freeSlots t → FindsNoSlot u c →
      failedSocket u c = some v → freeSlots v = freeSlots t := by
    intro u c v hu hok hstep
    rcases freeSlots_failedSocket hstep with ⟨-, heq⟩ | ⟨hno, -⟩
    · rw [heq, hu]
    · exact absurd hok hno
  have hbreak : ∀ u c v, freeSlots u = freeSlots t → ¬ FindsNoSlot u c →
      failedSocket u c = some v → freeSlots v < freeSlots t := by
    intro u c v hu hno hstep
    rcases freeSlots_failedSocket hstep with ⟨hok, -⟩ | ⟨-, heq⟩
    · exact absurd hok hno
    · omega
  have hstay : ∀ u c v, freeSlots u < freeSlots t → failedSocket u c = some v →
      freeSlots v < freeSlots t := by
    intro u c v hu hstep
    rcases freeSlots_failedSocket hstep with ⟨-, heq⟩ | ⟨-, heq⟩ <;> omega
  rcases h.kept_or_broken hkeep hbreak hstay rfl with ⟨hrun, heq⟩ | ⟨hno, hlt⟩
  · exact iff_of_true heq hrun
  · exact iff_of_false (Nat.ne_of_lt hlt) hno

/-- A failed `alloc_socket` changes nothing exactly when it gives up at the table's lock, or
finds the lock made and the table full; its entries are as before exactly when it finds no
slot. Failed calls of `at_socket` leave as many sockets to open as there were exactly when
none of them has found a slot. -/
theorem allocSocket_changesNothing_iff (t : SocketTable) :
    (∀ ans t', allocSocket t ans = (none, t') →
      (ChangesNothing t ans t' ↔ LockRefused t ans ∨ t.atSlock ∧ TableFull t) ∧
      (t'.sockets = t.sockets ↔ LockRefused t ans ∨ TableFull t)) ∧
    ∀ cs t', Run failedSocket unconditional t cs t' →
      ((∀ n, canOpen n t' ↔ canOpen n t) ↔ Run failedSocket FindsNoSlot t cs t') := by
  refine ⟨fun ans t' h => ⟨changesNothing_iff h, allocSocket_entries h⟩, fun cs t' h => ?_⟩
  rw [← freeSlots_run h]
  simp only [canOpen_iff]
  constructor
  · intro hall
    exact Nat.le_antisymm ((hall _).mp (Nat.le_refl _)) ((hall _).mpr (Nat.le_refl _))
  · intro heq n
    rw [heq]

/-- A semaphore that cannot be created costs the first slot of the table. -/
theorem allocSocket_loses_slot :
    ¬ ((∀ t ans t', allocSocket t ans = (none, t') → ChangesNothing t ans t') ∧
      ∀ t cs t', Run failedSocket unconditional t cs t' →
        ∀ n, canOpen n t' ↔ canOpen n t) := by
  rintro ⟨hall, -⟩
  have hkept := (hall ⟨[.zero], true, true⟩ ⟨true, false, true⟩ _ rfl).entries
  exact absurd hkept (by decide)

end AtSock
