import Mathlib.Data.List.Basic
import Mathlib.Data.List.Nodup
import Mathlib.Logic.Function.Basic

/-!
# Waiting without losing a wake-up

Threads wait until there is something for them: an item in a queue, a free place in one. Whoever
makes one available resumes the first thread that is suspended. The resumed thread does not get the
item handed over. It looks again when it runs, may find that another thread was faster, and is then
suspended once more.

`Waiters` has the suspended threads and those that were resumed and have not run since. What such
a monitor must keep is `Awake n`, where `n` items are available: if threads are suspended, there
are at least as many on their way as there are items. So when nobody is on the way, nobody is
suspended beside an item.
-/

namespace Mesa

/-- The threads that wait. -/
structure Waiters (τ : Type*) where
  suspended : List τ
  resumed : List τ
  deriving DecidableEq, Repr

namespace Waiters

variable {τ : Type*}

/-- Nobody waits. -/
def empty : Waiters τ := ⟨[], []⟩

/-- All threads that have not been served yet. -/
def all (w : Waiters τ) : List τ := w.suspended ++ w.resumed

/-- The first suspended thread is resumed, if there is one. -/
def resume (w : Waiters τ) : Waiters τ :=
  match w.suspended with
  | [] => w
  | t :: ts => ⟨ts, w.resumed ++ [t]⟩

/-- A resumed thread runs. -/
def run [DecidableEq τ] (w : Waiters τ) (t : τ) : Waiters τ := ⟨w.suspended, w.resumed.erase t⟩

/-- A suspended thread gives up. -/
def leave [DecidableEq τ] (w : Waiters τ) (t : τ) : Waiters τ := ⟨w.suspended.erase t, w.resumed⟩

/-- With `n` items available, no suspended thread is forgotten. -/
def Awake (n : ℕ) (w : Waiters τ) : Prop := w.suspended = [] ∨ n ≤ w.resumed.length

theorem awake_empty (n : ℕ) : Awake n (empty : Waiters τ) := .inl rfl

/-- Nothing is available. -/
theorem awake_zero (w : Waiters τ) : Awake 0 w := .inr (Nat.zero_le _)

theorem Awake.mono {m n : ℕ} {w : Waiters τ} (h : Awake n w) (hmn : m ≤ n) : Awake m w :=
  h.imp_right (Nat.le_trans hmn)

/-- One more item, and one more thread on its way to it. -/
theorem Awake.resume {n : ℕ} {w : Waiters τ} (h : Awake n w) : Awake (n + 1) w.resume := by
  unfold Waiters.resume
  split
  next hnil => exact .inl hnil
  next t ts hcons =>
    have hle : n ≤ w.resumed.length := h.resolve_left (hcons ▸ List.cons_ne_nil t ts)
    exact .inr (by simpa using hle)

/-- A resumed thread comes for its item. -/
theorem Awake.run [DecidableEq τ] {n : ℕ} {w : Waiters τ} (h : Awake n w) {t : τ}
    (ht : t ∈ w.resumed) : Awake (n - 1) (w.run t) := by
  refine h.imp_right fun hle => ?_
  show n - 1 ≤ (w.resumed.erase t).length
  rw [List.length_erase_of_mem ht]
  omega

theorem Awake.leave [DecidableEq τ] {n : ℕ} {w : Waiters τ} (h : Awake n w) (t : τ) :
    Awake n (w.leave t) := by
  refine h.imp_left fun hnil => ?_
  simp [Waiters.leave, hnil]

/-- When no thread is on its way, nobody waits beside an item. -/
theorem Awake.settled {n : ℕ} {w : Waiters τ} (h : Awake n w) (hrest : w.resumed = [])
    (hwait : w.suspended ≠ []) : n = 0 := by
  have hle := h.resolve_left hwait
  rw [hrest] at hle
  exact Nat.le_zero.mp hle

theorem perm_resume (w : Waiters τ) : w.resume.all.Perm w.all := by
  unfold Waiters.resume
  split
  next => exact List.Perm.refl _
  next t ts hcons =>
    simp only [all, hcons, List.cons_append]
    exact (List.append_assoc ts w.resumed [t] ▸ List.perm_append_singleton t (ts ++ w.resumed))

theorem all_run [DecidableEq τ] {w : Waiters τ} {t : τ} (ht : t ∈ w.resumed)
    (hnodup : w.all.Nodup) : (w.run t).all = w.all.erase t := by
  have hnot : t ∉ w.suspended := fun hmem => (List.nodup_append.mp hnodup).2.2 t hmem t ht rfl
  exact (List.erase_append_right w.resumed hnot).symm

theorem all_leave [DecidableEq τ] {w : Waiters τ} {t : τ} (ht : t ∈ w.suspended) :
    (w.leave t).all = w.all.erase t :=
  (List.erase_append_left w.resumed ht).symm

/-- The lists have the threads that are inside, each of them once. -/
structure Listed (w : Waiters τ) (inside : τ → Prop) : Prop where
  nodup : w.all.Nodup
  mem : ∀ t, t ∈ w.all ↔ inside t

theorem listed_empty {inside : τ → Prop} (h : ∀ t, ¬ inside t) : Listed empty inside :=
  ⟨List.nodup_nil, fun t => ⟨fun ht => absurd ht List.not_mem_nil, fun ht => absurd ht (h t)⟩⟩

section Listed

variable {w w' : Waiters τ} {inside inside' : τ → Prop} {t : τ}

theorem Listed.congr (h : Listed w inside) (hiff : ∀ u, inside' u ↔ inside u) :
    Listed w inside' :=
  ⟨h.nodup, fun u => (h.mem u).trans (hiff u).symm⟩

theorem Listed.resume (h : Listed w inside) : Listed w.resume inside :=
  ⟨w.perm_resume.nodup_iff.mpr h.nodup, fun u => w.perm_resume.mem_iff.trans (h.mem u)⟩

/-- A thread joins. -/
theorem Listed.join (h : Listed w inside) (hperm : w'.all.Perm (t :: w.all)) (ht : ¬ inside t) :
    Listed w' fun u => u = t ∨ inside u := by
  refine ⟨hperm.nodup_iff.mpr (List.nodup_cons.mpr ⟨fun hmem => ht ((h.mem t).mp hmem), h.nodup⟩),
    fun u => ?_⟩
  rw [hperm.mem_iff, List.mem_cons, h.mem u]

/-- A resumed thread is in no list while it runs. -/
theorem Listed.run [DecidableEq τ] (h : Listed w inside) (ht : t ∈ w.resumed) :
    Listed (w.run t) fun u => u ≠ t ∧ inside u := by
  have hall := all_run ht h.nodup
  refine ⟨hall ▸ h.nodup.erase t, fun u => ?_⟩
  rw [hall, h.nodup.mem_erase_iff, h.mem u]

/-- A suspended thread that gives up is in no list. -/
theorem Listed.leave [DecidableEq τ] (h : Listed w inside) (ht : t ∈ w.suspended) :
    Listed (w.leave t) fun u => u ≠ t ∧ inside u := by
  have hall := all_leave ht
  refine ⟨hall ▸ h.nodup.erase t, fun u => ?_⟩
  rw [hall, h.nodup.mem_erase_iff, h.mem u]

/-- A thread that is in no list. -/
theorem Listed.aside (h : Listed w inside) (ht : ¬ inside t) :
    Listed w fun u => u ≠ t ∧ inside u :=
  h.congr fun _ => ⟨fun hu => hu.2, fun hu => ⟨fun heq => ht (heq ▸ hu), hu⟩⟩

/-- All suspended threads are turned away. -/
theorem Listed.flush (h : Listed w inside) :
    Listed ⟨[], w.resumed⟩ fun u => inside u ∧ u ∉ w.suspended := by
  have hsplit := List.nodup_append.mp h.nodup
  refine ⟨hsplit.2.1, fun u => ?_⟩
  rw [← h.mem u]
  show u ∈ w.resumed ↔ u ∈ w.suspended ++ w.resumed ∧ _
  rw [List.mem_append]
  exact ⟨fun hu => ⟨.inr hu, fun hmem => hsplit.2.2 u hmem u hu rfl⟩,
    fun hu => hu.1.resolve_left hu.2⟩

end Listed

/-- A thread gets to where it is not inside. -/
theorem update_iff_of_not [DecidableEq τ] {π : Type*} {P : π → Prop} {phase : τ → π} {t : τ}
    {p : π} (hp : ¬ P p) (u : τ) : P (Function.update phase t p u) ↔ u ≠ t ∧ P (phase u) := by
  by_cases hu : u = t
  · subst hu
    simp [hp]
  · simp [hu]

/-- A thread gets to where it is inside. -/
theorem update_iff_of [DecidableEq τ] {π : Type*} {P : π → Prop} {phase : τ → π} {t : τ}
    {p : π} (hp : P p) (u : τ) :
    P (Function.update phase t p u) ↔ u = t ∨ u ≠ t ∧ P (phase u) := by
  by_cases hu : u = t
  · subst hu
    simp [hp]
  · simp [hu]

end Waiters

end Mesa
