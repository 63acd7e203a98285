import Mathlib.Data.List.Basic

/-!
# Runs of a labelled step function

A system is a partial step function `step : S → A → Option S`; `none` means
that the action is not enabled. `Run step ok s as t` says that the actions
`as` lead from `s` to `t` and that every one of them met the side condition
`ok` in the state it was taken in. The unconditional runs are the instance
`ok = fun _ _ => True`, so a theorem about conditional runs is also one about
all of them.

`exec` replays a list of actions and is what a concrete run is evaluated with;
`Run.exists_of_exec` makes a run of a replay.
-/

namespace Transition

/-- The actions `as` lead from `s` to a state, and each of them met `ok` when
it was taken. The list grows at its end, so the induction follows the run. -/
inductive Run {S A : Type*} (step : S → A → Option S) (ok : S → A → Prop)
    (s : S) : List A → S → Prop
  | nil : Run step ok s [] s
  | snoc {as : List A} {t u : S} {a : A} (h : Run step ok s as t)
      (hok : ok t a) (hstep : step t a = some u) :
      Run step ok s (as ++ [a]) u

/-- The side condition that every step meets. -/
def unconditional {S A : Type*} : S → A → Prop := fun _ _ => True

/-- Replay a list of actions, checking the side condition at every step. -/
def exec {S A : Type*} (step : S → A → Option S) (ok : S → A → Prop)
    [∀ s a, Decidable (ok s a)] : S → List A → Option S
  | s, [] => some s
  | s, a :: as =>
      if ok s a then (step s a).bind fun t => exec step ok t as else none

instance {S A : Type*} (s : S) (a : A) :
    Decidable (unconditional s a) := isTrue trivial

namespace Run

/-- An invariant kept by every step that meets the side condition holds after
every such run. -/
theorem invariant {S A : Type*} {step : S → A → Option S} {ok : S → A → Prop}
    (I : S → Prop)
    (hstep : ∀ s a t, I s → ok s a → step s a = some t → I t)
    {s t : S} {as : List A} (hs : I s) (h : Run step ok s as t) : I t := by
  induction h with
  | nil => exact hs
  | snoc _ hok hst ih => exact hstep _ _ _ ih hok hst

/-- A side condition may be weakened. -/
theorem mono {S A : Type*} {step : S → A → Option S} {ok ok' : S → A → Prop}
    (hok : ∀ s a, ok s a → ok' s a) {s t : S} {as : List A} (h : Run step ok s as t) :
    Run step ok' s as t := by
  induction h with
  | nil => exact .nil
  | snoc _ ha hst ih => exact ih.snoc (hok _ _ ha) hst

/-- The actions determine the state they lead to. -/
theorem unique {S A : Type*} {step : S → A → Option S} {ok ok' : S → A → Prop} {s t u : S}
    {as : List A} (ht : Run step ok s as t) (hu : Run step ok' s as u) : t = u := by
  induction ht generalizing u with
  | nil =>
      generalize has : ([] : List A) = as at hu
      cases hu with
      | nil => rfl
      | snoc hrun hok hstep => simp at has
  | @snoc as t v a hrun hok hstep ih =>
      generalize has : as ++ [a] = bs at hu
      cases hu with
      | nil => simp at has
      | snoc hrun' hok' hstep' =>
          obtain ⟨rfl, rfl⟩ := List.append_singleton_inj.mp has
          rw [ih hrun', hstep'] at hstep
          exact (Option.some.inj hstep).symm

/-- The last step of a run. -/
theorem of_snoc {S A : Type*} {step : S → A → Option S} {ok : S → A → Prop} {s u : S}
    {as : List A} {a : A} (h : Run step ok s (as ++ [a]) u) :
    ∃ t, Run step ok s as t ∧ ok t a ∧ step t a = some u := by
  generalize has : as ++ [a] = bs at h
  cases h with
  | nil => exact absurd has (List.append_ne_nil_of_right_ne_nil _ (List.cons_ne_nil _ _))
  | snoc hrun hok hstep =>
      obtain ⟨rfl, rfl⟩ := List.append_singleton_inj.mp has
      exact ⟨_, hrun, hok, hstep⟩

/-- Among the runs that meet a side condition: if the steps that meet a second one keep an
invariant, the others break it, and what is broken stays broken, the invariant holds exactly
behind the runs that meet both. -/
theorem kept_or_broken_within {S A : Type*} {step : S → A → Option S} {within ok : S → A → Prop}
    {I Broken : S → Prop}
    (hkeep : ∀ s a t, I s → within s a → ok s a → step s a = some t → I t)
    (hbreak : ∀ s a t, I s → within s a → ¬ ok s a → step s a = some t → Broken t)
    (hstay : ∀ s a t, Broken s → within s a → step s a = some t → Broken t)
    {s t : S} {as : List A} (hs : I s) (h : Run step within s as t) :
    (Run step (fun s a => within s a ∧ ok s a) s as t ∧ I t) ∨
      (¬ Run step (fun s a => within s a ∧ ok s a) s as t ∧ Broken t) := by
  induction h with
  | nil => exact .inl ⟨.nil, hs⟩
  | @snoc as t u a hrun hwithin hstep ih =>
      rcases ih with ⟨hkept, hI⟩ | ⟨hnot, hbroken⟩
      · by_cases ha : ok t a
        · exact .inl ⟨hkept.snoc ⟨hwithin, ha⟩ hstep, hkeep t a u hI hwithin ha hstep⟩
        · refine .inr ⟨fun hall => ?_, hbreak t a u hI hwithin ha hstep⟩
          obtain ⟨t', hrun', ha', -⟩ := hall.of_snoc
          rw [hrun.unique hrun'] at ha
          exact ha ha'.2
      · refine .inr ⟨fun hall => ?_, hstay t a u hbroken hwithin hstep⟩
        obtain ⟨t', hrun', -, -⟩ := hall.of_snoc
        rw [hrun.unique hrun'] at hnot
        exact hnot hrun'

/-- The same among all runs. -/
theorem kept_or_broken {S A : Type*} {step : S → A → Option S} {ok : S → A → Prop}
    {I Broken : S → Prop} (hkeep : ∀ s a t, I s → ok s a → step s a = some t → I t)
    (hbreak : ∀ s a t, I s → ¬ ok s a → step s a = some t → Broken t)
    (hstay : ∀ s a t, Broken s → step s a = some t → Broken t)
    {s t : S} {as : List A} (hs : I s) (h : Run step unconditional s as t) :
    (Run step ok s as t ∧ I t) ∨ (¬ Run step ok s as t ∧ Broken t) := by
  have hboth := h.kept_or_broken_within (fun s a t hI _ => hkeep s a t hI)
    (fun s a t hI _ => hbreak s a t hI) (fun s a t hb _ => hstay s a t hb) hs
  rcases hboth with ⟨hrun, hI⟩ | ⟨hnot, hbroken⟩
  · exact .inl ⟨hrun.mono fun s a hok => hok.2, hI⟩
  · exact .inr ⟨fun hrun => hnot (hrun.mono fun s a hok => ⟨trivial, hok⟩), hbroken⟩

/-- The first actions of a run. -/
theorem of_prefix {S A : Type*} {step : S → A → Option S} {ok : S → A → Prop} {s t : S}
    {as bs : List A} (h : Run step ok s as t) (hbs : bs <+: as) : ∃ u, Run step ok s bs u := by
  induction h with
  | nil => exact ⟨s, List.prefix_nil.mp hbs ▸ .nil⟩
  | snoc hrun hok hstep ih =>
      rcases List.prefix_concat_iff.mp hbs with rfl | hbs
      · exact ⟨_, hrun.snoc hok hstep⟩
      · exact ih hbs

theorem cons {S A : Type*} {step : S → A → Option S} {ok : S → A → Prop}
    {s t u : S} {a : A} {as : List A} (hok : ok s a) (hstep : step s a = some t)
    (h : Run step ok t as u) : Run step ok s (a :: as) u := by
  induction h with
  | nil => exact Run.snoc .nil hok hstep
  | snoc _ hok' hst' ih => exact ih.snoc hok' hst'

/-- A replay that succeeds is a run. -/
theorem of_exec {S A : Type*} {step : S → A → Option S} {ok : S → A → Prop}
    [∀ s a, Decidable (ok s a)] :
    ∀ {s t : S} {as : List A}, exec step ok s as = some t → Run step ok s as t
  | s, t, [], h => by
      have hst : s = t := by simpa [exec] using h
      subst hst
      exact .nil
  | s, t, a :: as, h => by
      by_cases hok : ok s a
      · cases hs : step s a with
        | none => simp [exec, hok, hs] at h
        | some u =>
            have hrest : exec step ok u as = some t := by
              simpa [exec, hok, hs] using h
            exact cons hok hs (of_exec hrest)
      · simp [exec, hok] at h

/-- A replay that ends in a state where the check `p` holds gives a run to such
a state. It is stated with `Option.map`, so that the replay is evaluated
without comparing states. -/
theorem exists_of_exec {S A : Type*} (step : S → A → Option S) (ok : S → A → Prop)
    [∀ s a, Decidable (ok s a)] (s : S) (as : List A) (p : S → Bool)
    (h : (exec step ok s as).map p = some true) :
    ∃ t, Run step ok s as t ∧ p t = true := by
  cases ht : exec step ok s as with
  | none => simp [ht] at h
  | some t =>
      have hp : p t = true := by simpa [ht] using h
      exact ⟨t, of_exec ht, hp⟩

end Run

end Transition
