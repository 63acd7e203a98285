import Mathlib.Data.List.TakeWhile

/-!
# Stages climbed in order

A machine works through the stages of a list, one command after another. In a stage it may
try any of the commands of `tries s`; the first one that passes takes it to the next stage.
After too many failures it starts again from the bottom. Its history is the list of the
stages entered, each with the commands tried there and how they ended.

`Climbed tries stages es` says that the commands `es` are those of a climb: for every stage
of the list failures and then one success, in the order of the list. `Standing` is the
invariant of such a machine: since the last record of the bottom the history is a climb of
the stages below, and failures of the present one.
-/

namespace Ladder

variable {S C : Type*}

/-- A stage that was entered, with the commands tried there and how they ended. -/
abbrev Record (S C : Type*) := S × List (C × Bool)

/-- Commands of the stage `s` that have all failed. -/
def Failed (tries : S → C → Prop) (s : S) (es : List (C × Bool)) : Prop :=
  ∀ e ∈ es, tries s e.1 ∧ e.2 = false

/-- Every stage of the list has been passed, in its order. -/
inductive Climbed (tries : S → C → Prop) : List S → List (C × Bool) → Prop
  | nil : Climbed tries [] []
  | snoc {stages : List S} {es fails : List (C × Bool)} {s : S} {c : C}
      (h : Climbed tries stages es) (hfails : Failed tries s fails) (hc : tries s c) :
      Climbed tries (stages ++ [s]) (es ++ (fails ++ [(c, true)]))

/-- The commands of some records. -/
def commands (rs : List (Record S C)) : List (C × Bool) := rs.flatMap Prod.snd

/-- Since the bottom was last entered, the stages have been passed in their order. -/
def InOrder (tries : S → C → Prop) (bottom : S) (stages : List S)
    (history : List (Record S C)) : Prop :=
  ∃ before first since, history = before ++ (bottom, first) :: since ∧
    (∀ r ∈ since, r.1 ≠ bottom) ∧ Climbed tries stages (commands since)

/-- The machine stands at `s` with the stages `below` passed. -/
def Standing (tries : S → C → Prop) (bottom : S) (below : List S) (s : S)
    (history : List (Record S C)) : Prop :=
  ∃ before first since passed failed, history = before ++ (bottom, first) :: since ∧
    (∀ r ∈ since, r.1 ≠ bottom) ∧ commands since = passed ++ failed ∧
      Climbed tries below passed ∧ Failed tries s failed

theorem failed_nil (tries : S → C → Prop) (s : S) : Failed tries s [] :=
  fun _ he => absurd he List.not_mem_nil

theorem failed_cons {tries : S → C → Prop} {s : S} {c : C} {es : List (C × Bool)}
    (hc : tries s c) (hes : Failed tries s es) : Failed tries s ((c, false) :: es) := by
  intro e he
  rcases List.mem_cons.mp he with rfl | he
  · exact ⟨hc, rfl⟩
  · exact hes e he

theorem failed_append {tries : S → C → Prop} {s : S} {es fs : List (C × Bool)}
    (hes : Failed tries s es) (hfs : Failed tries s fs) : Failed tries s (es ++ fs) := by
  intro e he
  rcases List.mem_append.mp he with he | he
  · exact hes e he
  · exact hfs e he

theorem commands_append (rs ts : List (Record S C)) :
    commands (rs ++ ts) = commands rs ++ commands ts := List.flatMap_append

theorem commands_singleton (s : S) (es : List (C × Bool)) : commands [(s, es)] = es := by
  rw [commands, List.flatMap_cons, List.flatMap_nil, List.append_nil]

/-- Behind the record of the bottom nothing has been passed yet. -/
theorem standing_bottom (tries : S → C → Prop) (bottom s : S) (history : List (Record S C))
    (first : List (C × Bool)) : Standing tries bottom [] s (history ++ [(bottom, first)]) :=
  ⟨history, first, [], [], [], rfl, fun _ hr => absurd hr List.not_mem_nil, rfl, .nil,
    failed_nil tries s⟩

/-- Failures leave the machine where it stands. -/
theorem Standing.failed {tries : S → C → Prop} {bottom s : S} {below : List S}
    {history : List (Record S C)} (h : Standing tries bottom below s history) (hs : s ≠ bottom)
    {es : List (C × Bool)} (hes : Failed tries s es) :
    Standing tries bottom below s (history ++ [(s, es)]) := by
  obtain ⟨before, first, since, passed, failed, rfl, hsince, hcommands, hclimbed, hfailed⟩ := h
  refine ⟨before, first, since ++ [(s, es)], passed, failed ++ es, ?_, ?_, ?_, hclimbed,
    failed_append hfailed hes⟩
  · rw [List.append_assoc, List.cons_append]
  · intro r hr
    rcases List.mem_append.mp hr with hr | hr
    · exact hsince r hr
    · rw [List.mem_singleton.mp hr]
      exact hs
  · rw [commands_append, commands_singleton, hcommands, List.append_assoc]

/-- A command that passes completes a climb one stage higher. -/
theorem Standing.inOrder {tries : S → C → Prop} {bottom s : S} {below : List S}
    {history : List (Record S C)} (h : Standing tries bottom below s history) (hs : s ≠ bottom)
    {es : List (C × Bool)} {c : C} (hes : Failed tries s es) (hc : tries s c) :
    InOrder tries bottom (below ++ [s]) (history ++ [(s, es ++ [(c, true)])]) := by
  obtain ⟨before, first, since, passed, failed, rfl, hsince, hcommands, hclimbed, hfailed⟩ := h
  refine ⟨before, first, since ++ [(s, es ++ [(c, true)])], ?_, ?_, ?_⟩
  · rw [List.append_assoc, List.cons_append]
  · intro r hr
    rcases List.mem_append.mp hr with hr | hr
    · exact hsince r hr
    · rw [List.mem_singleton.mp hr]
      exact hs
  · rw [commands_append, commands_singleton, hcommands]
    have hsnoc := hclimbed.snoc (failed_append hfailed hes) hc
    simpa only [List.append_assoc] using hsnoc

/-- After a climb the machine stands above its stages. -/
theorem InOrder.standing {tries : S → C → Prop} {bottom : S} {stages : List S}
    {history : List (Record S C)} (h : InOrder tries bottom stages history) (s : S) :
    Standing tries bottom stages s history := by
  obtain ⟨before, first, since, hhistory, hsince, hclimbed⟩ := h
  exact ⟨before, first, since, commands since, [], hhistory, hsince, (List.append_nil _).symm,
    hclimbed, failed_nil tries s⟩

/-- What a stage does in one call: its commands fail, and the machine stays or starts again,
or one of them passes and it goes on to `next`. -/
inductive Attempt (tries : S → C → Prop) (bottom s next : S) : List (C × Bool) → S → Prop
  | failed {es : List (C × Bool)} {s' : S} (hes : Failed tries s es)
      (hback : s' = s ∨ s' = bottom) : Attempt tries bottom s next es s'
  | passed {es : List (C × Bool)} {c : C} (hes : Failed tries s es) (hc : tries s c) :
      Attempt tries bottom s next (es ++ [(c, true)]) next

/-- After a call the machine is back at the bottom, or it stands where it stood or one stage
up, with the stages `below` of that stage passed. -/
theorem Standing.attempt {tries : S → C → Prop} {bottom s next s' : S} {below : S → List S}
    {history : List (Record S C)} {es : List (C × Bool)}
    (h : Standing tries bottom (below s) s history) (hs : s ≠ bottom)
    (hnext : below next = below s ++ [s]) (ha : Attempt tries bottom s next es s') :
    s' = bottom ∨
      (s' = s ∨ s' = next) ∧ Standing tries bottom (below s') s' (history ++ [(s, es)]) := by
  cases ha with
  | failed hes hback =>
      rcases hback with rfl | rfl
      · exact .inr ⟨.inl rfl, h.failed hs hes⟩
      · exact .inl rfl
  | passed hes hc =>
      refine .inr ⟨.inr rfl, ?_⟩
      rw [hnext]
      exact (h.inOrder hs hes hc).standing _

/-- Where nothing is tried, the machine stands because it has just climbed. -/
theorem Standing.inOrder_of_top {tries : S → C → Prop} {bottom s : S} {below : List S}
    {history : List (Record S C)} (h : Standing tries bottom below s history)
    (htop : ∀ c, ¬ tries s c) : InOrder tries bottom below history := by
  obtain ⟨before, first, since, passed, failed, hhistory, hsince, hcommands, hclimbed, hfailed⟩ := h
  have hnil : failed = [] := List.eq_nil_iff_forall_not_mem.mpr fun e he => htop _ (hfailed e he).1
  rw [hnil, List.append_nil] at hcommands
  exact ⟨before, first, since, hhistory, hsince, hcommands ▸ hclimbed⟩

end Ladder
