import Mathlib.Algebra.Order.Ring.Nat
import Mathlib.Data.List.Basic
import Mathlib.Tactic.Common

/-!
# Numbers as they are spoken

A number is spoken from its highest place down, each digit with the word for its power of ten, and
nothing is said for a place with the digit 0, but one zero for a gap between two digits. `Rest p
ws n` says that `ws` is what is said of the `p` places behind a digit, and `Lead p ws n` what is
said of a number with at most `p` places. From `10 ^ g` on a number is spoken in two groups
(`Whole`), and a sum of money has its two last digits behind a point (`Amount`). Words are read in
one way (`Amount.unique`).
-/

namespace Numeral

/-- A word; `unit k` stands for `10 ^ k`. -/
inductive Word
  | digit (d : ℕ)
  | unit (k : ℕ)
  | point
  | currency
  deriving DecidableEq, Repr

/-- A digit of the place `p` with the word for its power. -/
def spokenDigit (d p : ℕ) : List Word := .digit d :: if p = 0 then [] else [.unit p]

/-- What is said of the `p` places behind a digit. -/
inductive Rest : ℕ → List Word → ℕ → Prop
  | done (p : ℕ) : Rest p [] 0
  | next {p d n : ℕ} {ws : List Word} (hpos : 0 < d) (hd : d < 10) (h : Rest p ws n) :
      Rest (p + 1) (spokenDigit d p ++ ws) (d * 10 ^ p + n)
  | gap {p q d n : ℕ} {ws : List Word} (hq : q < p) (hpos : 0 < d) (hd : d < 10)
      (h : Rest q ws n) : Rest (p + 1) (.digit 0 :: (spokenDigit d q ++ ws)) (d * 10 ^ q + n)

/-- What is said of a number that is not 0 and has at most `places` places. -/
inductive Lead (places : ℕ) : List Word → ℕ → Prop
  | mk {p d n : ℕ} {ws : List Word} (hp : p < places) (hpos : 0 < d) (hd : d < 10)
      (h : Rest p ws n) : Lead places (spokenDigit d p ++ ws) (d * 10 ^ p + n)

/-- What is said of a number, in groups of `g` places. -/
inductive Whole (g : ℕ) : List Word → ℕ → Prop
  | zero : Whole g [.digit 0] 0
  | low {ws : List Word} {n : ℕ} (h : Lead g ws n) : Whole g ws n
  | high {hs ls : List Word} {n m : ℕ} (hn : Lead g hs n) (hm : Rest g ls m) :
      Whole g (hs ++ .unit g :: ls) (n * 10 ^ g + m)

/-- What is said of a sum, which is given in hundredths. -/
inductive Amount (g : ℕ) : List Word → ℕ → Prop
  | whole {ws : List Word} {n : ℕ} (h : Whole g ws n) : Amount g (ws ++ [.currency]) (n * 100)
  | tenths {ws : List Word} {n j : ℕ} (h : Whole g ws n) (hpos : 0 < j) (hj : j < 10) :
      Amount g (ws ++ [.point, .digit j, .currency]) (n * 100 + j * 10)
  | hundredths {ws : List Word} {n j f : ℕ} (h : Whole g ws n) (hj : j < 10) (hf : f < 10) :
      Amount g (ws ++ [.point, .digit j, .digit f, .currency]) (n * 100 + j * 10 + f)

/-! ## Building -/

theorem Lead.mono {p q n : ℕ} {ws : List Word} (hpq : p ≤ q) (h : Lead p ws n) : Lead q ws n := by
  cases h with
  | mk hp hpos hd h => exact .mk (hp.trans_le hpq) hpos hd h

/-- A digit 0 is said behind another digit when more comes. -/
theorem Lead.rest {p n : ℕ} {ws : List Word} (h : Lead p ws n) :
    Rest (p + 1) (.digit 0 :: ws) n := by
  cases h with
  | mk hp hpos hd h => exact .gap hp hpos hd h

/-! ## What a group is made of -/

/-- A digit, or the word for a power below `10 ^ g`. -/
def Inner (g : ℕ) : Word → Prop
  | .digit _ => True
  | .unit k => k < g
  | .point => False
  | .currency => False

theorem inner_spokenDigit {d p g : ℕ} (h : p < g) : ∀ w ∈ spokenDigit d p, Inner g w := by
  intro w hw
  rcases List.mem_cons.mp hw with rfl | hw
  · trivial
  · split_ifs at hw with hp
    · exact absurd hw List.not_mem_nil
    · obtain rfl := List.mem_singleton.mp hw
      exact h

theorem Rest.inner {p g n : ℕ} {ws : List Word} (h : Rest p ws n) (hp : p ≤ g) :
    ∀ w ∈ ws, Inner g w := by
  induction h with
  | done => simp
  | next _ _ _ ih =>
      intro w hw
      rcases List.mem_append.mp hw with hw | hw
      · exact inner_spokenDigit hp w hw
      · exact ih (Nat.le_of_succ_le hp) w hw
  | gap hq _ _ _ ih =>
      intro w hw
      rcases List.mem_cons.mp hw with rfl | hw
      · trivial
      · rcases List.mem_append.mp hw with hw | hw
        · exact inner_spokenDigit (hq.trans (Nat.lt_of_succ_le hp)) w hw
        · exact ih (hq.le.trans (Nat.le_of_succ_le hp)) w hw

theorem Lead.inner {g n : ℕ} {ws : List Word} (h : Lead g ws n) : ∀ w ∈ ws, Inner g w := by
  cases h with
  | mk hp hpos hd h =>
      intro w hw
      rcases List.mem_append.mp hw with hw | hw
      · exact inner_spokenDigit hp w hw
      · exact h.inner hp.le w hw

theorem Lead.pos {g n : ℕ} {ws : List Word} (h : Lead g ws n) : 0 < n := by
  cases h with
  | mk _ hpos =>
      exact Nat.add_pos_left (Nat.mul_pos hpos (Nat.pow_pos (by decide))) _

theorem Lead.ne_nil {g n : ℕ} {ws : List Word} (h : Lead g ws n) : ws ≠ [] := by
  cases h with
  | mk => exact List.cons_ne_nil _ _

/-! ## Reading -/

/-- Two lists are the same up to the first word that neither of them has. -/
theorem append_cons_inj {P : Word → Prop} {v w : Word} (hv : ¬ P v) (hw : ¬ P w) :
    ∀ {as bs cs ds : List Word}, (∀ x ∈ as, P x) → (∀ x ∈ bs, P x) →
      as ++ v :: cs = bs ++ w :: ds → as = bs ∧ v = w ∧ cs = ds
  | [], [], _, _, _, _, h => ⟨rfl, List.cons.inj h⟩
  | [], b :: _, _, _, _, hb, h => by
      obtain ⟨rfl, -⟩ := List.cons.inj h
      exact absurd (hb _ List.mem_cons_self) hv
  | a :: _, [], _, _, ha, _, h => by
      obtain ⟨rfl, -⟩ := List.cons.inj h
      exact absurd (ha _ List.mem_cons_self) hw
  | a :: as, b :: bs, cs, ds, ha, hb, h => by
      obtain ⟨rfl, hrest⟩ := List.cons.inj h
      obtain ⟨rfl, hvw⟩ := append_cons_inj hv hw (fun x hx => ha x (List.mem_cons_of_mem _ hx))
        (fun x hx => hb x (List.mem_cons_of_mem _ hx)) hrest
      exact ⟨rfl, hvw⟩

/-- The word behind a digit tells its place. -/
theorem spokenDigit_append_inj {d e p q n m : ℕ} {ws vs : List Word} (hn : Rest p ws n)
    (hm : Rest q vs m) (h : spokenDigit d p ++ ws = spokenDigit e q ++ vs) :
    d = e ∧ p = q ∧ ws = vs := by
  obtain ⟨hdigit, hrest⟩ := List.cons.inj h
  refine ⟨Word.digit.inj hdigit, ?_⟩
  by_cases hp : p = 0
  · by_cases hq : q = 0
    · rw [if_pos hp, if_pos hq] at hrest
      exact ⟨hp.trans hq.symm, hrest⟩
    · subst hp
      cases hn
      rw [if_pos rfl, if_neg hq] at hrest
      exact absurd hrest (by simp)
  · by_cases hq : q = 0
    · subst hq
      cases hm
      rw [if_pos rfl, if_neg hp] at hrest
      exact absurd hrest (by simp)
    · rw [if_neg hp, if_neg hq] at hrest
      obtain ⟨hunit, hrest⟩ := List.cons.inj hrest
      exact ⟨Word.unit.inj hunit, hrest⟩

theorem Rest.unique {p n m : ℕ} {ws : List Word} (h : Rest p ws n) (h' : Rest p ws m) : n = m := by
  induction h generalizing m with
  | done =>
      generalize hws : ([] : List Word) = ws at h'
      cases h' with
      | done => rfl
      | next => exact absurd hws (by simp [spokenDigit])
      | gap => exact absurd hws (by simp)
  | @next p d n ws hpos hd h ih =>
      generalize hvs : spokenDigit d p ++ ws = vs at h'
      cases h' with
      | done => exact absurd hvs (by simp [spokenDigit])
      | next _ _ h' =>
          obtain ⟨rfl, -, rfl⟩ := spokenDigit_append_inj h h' hvs
          rw [ih h']
      | gap =>
          have hzero := Word.digit.inj (List.cons.inj hvs).1
          exact absurd hzero hpos.ne'
  | @gap p q d n ws hq hpos hd h ih =>
      generalize hvs : Word.digit 0 :: (spokenDigit d q ++ ws) = vs at h'
      cases h' with
      | done => exact absurd hvs (by simp)
      | next hpos' =>
          have hzero := Word.digit.inj (List.cons.inj hvs).1
          exact absurd hzero hpos'.ne
      | gap _ _ _ h' =>
          obtain ⟨rfl, rfl, rfl⟩ := spokenDigit_append_inj h h' (List.cons.inj hvs).2
          rw [ih h']

/-- A number begins with a digit and the word for its power, or it is one digit. -/
theorem Lead.head {g n : ℕ} {ws : List Word} (h : Lead g ws n) :
    (∃ d k rest, ws = .digit d :: .unit k :: rest) ∨ n < 10 ∧ ws = [.digit n] := by
  cases h with
  | @mk p d n ws _ _ hd h =>
      by_cases hp : p = 0
      · subst hp
        cases h
        rw [Nat.pow_zero, Nat.mul_one]
        exact .inr ⟨hd, rfl⟩
      · refine .inl ⟨d, p, ws, ?_⟩
        rw [spokenDigit, if_neg hp]
        rfl

theorem Lead.unique {g n m : ℕ} {ws : List Word} (h : Lead g ws n) (h' : Lead g ws m) : n = m := by
  cases h with
  | @mk p d n ws hp hpos hd h =>
      generalize hvs : spokenDigit d p ++ ws = vs at h'
      cases h' with
      | mk _ _ _ h' =>
          obtain ⟨rfl, rfl, rfl⟩ := spokenDigit_append_inj h h' hvs
          rw [h.unique h']

theorem Rest.lt {p n : ℕ} {ws : List Word} (h : Rest p ws n) : n < 10 ^ p := by
  induction h with
  | done p => exact Nat.pow_pos (by decide)
  | @next p d n ws _ hd _ ih =>
      have hmul : (d + 1) * 10 ^ p ≤ 10 * 10 ^ p := Nat.mul_le_mul_right _ hd
      rw [Nat.succ_mul] at hmul
      rw [Nat.pow_succ']
      omega
  | @gap p q d n ws hq _ hd _ ih =>
      have hmul : (d + 1) * 10 ^ q ≤ 10 * 10 ^ q := Nat.mul_le_mul_right _ hd
      have hpow : 10 ^ (q + 1) ≤ 10 ^ (p + 1) :=
        Nat.pow_le_pow_right (by decide) (Nat.succ_le_succ hq.le)
      rw [Nat.succ_mul] at hmul
      rw [Nat.pow_succ'] at hpow
      omega

/-- A number whose highest digit is in the place `p` is said in the same way behind a digit. -/
theorem Lead.rest_of_le {p n : ℕ} {ws : List Word} (h : Lead (p + 1) ws n) (hn : 10 ^ p ≤ n) :
    Rest (p + 1) ws n := by
  cases h with
  | @mk q d n ws hq hpos hd h =>
      have hlt : d * 10 ^ q + n < 10 ^ (q + 1) := (Rest.next hpos hd h).lt
      have hpow : 10 ^ p < 10 ^ (q + 1) := hn.trans_lt hlt
      have hle : p < q + 1 := (Nat.pow_lt_pow_iff_right (by decide)).mp hpow
      obtain rfl : q = p := by omega
      exact .next hpos hd h

theorem Lead.le_of_rest {p n m : ℕ} {ws : List Word} (h : Lead (p + 1) ws n)
    (h' : Rest (p + 1) ws m) : 10 ^ p ≤ n := by
  cases h with
  | @mk q d n ws hq hpos hd h =>
      generalize hvs : spokenDigit d q ++ ws = vs at h'
      cases h' with
      | done => exact absurd hvs (by simp [spokenDigit])
      | next _ _ h' =>
          obtain ⟨rfl, rfl, rfl⟩ := spokenDigit_append_inj h h' hvs
          exact (Nat.le_mul_of_pos_left _ hpos).trans (Nat.le_add_right _ _)
      | gap =>
          have hzero := Word.digit.inj (List.cons.inj hvs).1
          exact absurd hzero hpos.ne'

theorem not_inner_unit (g : ℕ) : ¬ Inner g (.unit g) := lt_irrefl g

theorem Lead.ne_zero {g n : ℕ} {ws : List Word} (h : Lead g ws n) : ws ≠ [.digit 0] := by
  cases h with
  | mk _ hpos =>
      intro heq
      exact hpos.ne' (Word.digit.inj (List.cons.inj heq).1)

theorem Lead.ne_append {g n : ℕ} {ws hs ls : List Word} (h : Lead g ws n) :
    ws ≠ hs ++ .unit g :: ls := by
  rintro rfl
  exact not_inner_unit g (h.inner _ (List.mem_append_right _ List.mem_cons_self))

theorem Whole.ne_nil {g n : ℕ} {ws : List Word} (h : Whole g ws n) : ws ≠ [] := by
  cases h with
  | zero => exact List.cons_ne_nil _ _
  | low h => exact h.ne_nil
  | high => exact List.append_ne_nil_of_right_ne_nil _ (List.cons_ne_nil _ _)

/-- What is said behind the word for `10 ^ g`. -/
theorem Whole.rest {g n : ℕ} {hs ls : List Word} (h : Whole g (hs ++ .unit g :: ls) n)
    (hhs : ∀ w ∈ hs, Inner g w) : ∃ m, Rest g ls m := by
  generalize hws : hs ++ Word.unit g :: ls = ws at h
  cases h with
  | zero =>
      have hmem : Word.unit g ∈ [Word.digit 0] :=
        hws ▸ List.mem_append_right _ List.mem_cons_self
      exact absurd (List.mem_singleton.mp hmem) (by simp)
  | low h => exact absurd hws.symm h.ne_append
  | high hn hm =>
      obtain ⟨-, -, rfl⟩ :=
        append_cons_inj (not_inner_unit g) (not_inner_unit g) hhs hn.inner hws
      exact ⟨_, hm⟩

theorem Whole.unique {g n m : ℕ} {ws : List Word} (h : Whole g ws n) (h' : Whole g ws m) :
    n = m := by
  cases h with
  | zero =>
      generalize hws : [Word.digit 0] = ws at h'
      cases h' with
      | zero => rfl
      | low h' => exact absurd hws.symm h'.ne_zero
      | @high hs _ _ _ hn =>
          obtain ⟨w, hs, rfl⟩ := List.exists_cons_of_ne_nil hn.ne_nil
          exact absurd hws (by simp)
  | low h =>
      cases h' with
      | zero => exact absurd rfl h.ne_zero
      | low h' => exact h.unique h'
      | high => exact absurd rfl h.ne_append
  | @high hs ls n m hn hm =>
      generalize hws : hs ++ Word.unit g :: ls = ws at h'
      cases h' with
      | zero =>
          obtain ⟨w, hs, rfl⟩ := List.exists_cons_of_ne_nil hn.ne_nil
          exact absurd hws (by simp)
      | low h' => exact absurd hws.symm h'.ne_append
      | high hn' hm' =>
          obtain ⟨rfl, -, rfl⟩ := append_cons_inj (not_inner_unit g) (not_inner_unit g) hn.inner
            hn'.inner hws
          rw [hn.unique hn', hm.unique hm']

/-- A word that stands neither for the point nor at the end. -/
def Plain : Word → Prop
  | .digit _ => True
  | .unit _ => True
  | .point => False
  | .currency => False

theorem Inner.plain {g : ℕ} : ∀ {w : Word}, Inner g w → Plain w
  | .digit _, _ => trivial
  | .unit _, _ => trivial
  | .point, h => h
  | .currency, h => h

theorem Whole.plain {g n : ℕ} {ws : List Word} (h : Whole g ws n) : ∀ w ∈ ws, Plain w := by
  cases h with
  | zero =>
      intro w hw
      obtain rfl := List.mem_singleton.mp hw
      trivial
  | low h => exact fun w hw => (h.inner w hw).plain
  | high hn hm =>
      intro w hw
      rcases List.mem_append.mp hw with hw | hw
      · exact (hn.inner w hw).plain
      · rcases List.mem_cons.mp hw with rfl | hw
        · trivial
        · exact (hm.inner le_rfl w hw).plain

/-- What stands behind the whole part of a sum, and what it is worth. -/
inductive Part : List Word → ℕ → Prop
  | whole : Part [.currency] 0
  | tenths {j : ℕ} (hpos : 0 < j) (hj : j < 10) : Part [.point, .digit j, .currency] (j * 10)
  | hundredths {j f : ℕ} (hj : j < 10) (hf : f < 10) :
      Part [.point, .digit j, .digit f, .currency] (j * 10 + f)

theorem Amount.split {g n : ℕ} {ws : List Word} (h : Amount g ws n) :
    ∃ front back m c, ws = front ++ back ∧ Whole g front m ∧ Part back c ∧ n = m * 100 + c := by
  cases h with
  | whole h => exact ⟨_, _, _, _, rfl, h, .whole, rfl⟩
  | tenths h hpos hj => exact ⟨_, _, _, _, rfl, h, .tenths hpos hj, rfl⟩
  | hundredths h hj hf => exact ⟨_, _, _, _, rfl, h, .hundredths hj hf, Nat.add_assoc _ _ _⟩

theorem Part.head {back : List Word} {c : ℕ} (h : Part back c) :
    ∃ w rest, back = w :: rest ∧ ¬ Plain w := by
  cases h with
  | whole => exact ⟨_, _, rfl, fun h => h⟩
  | tenths => exact ⟨_, _, rfl, fun h => h⟩
  | hundredths => exact ⟨_, _, rfl, fun h => h⟩

/-- Where the whole part ends. -/
theorem append_part_inj {as bs cs ds : List Word} {w : Word} {c : ℕ} (has : ∀ x ∈ as, Plain x)
    (hw : ¬ Plain w) (hbs : ∀ x ∈ bs, Plain x) (hds : Part ds c) (h : as ++ w :: cs = bs ++ ds) :
    as = bs ∧ w :: cs = ds := by
  obtain ⟨v, rest, rfl, hv⟩ := hds.head
  obtain ⟨rfl, rfl, rfl⟩ := append_cons_inj hw hv has hbs h
  exact ⟨rfl, rfl⟩

theorem Part.lt {back : List Word} {c : ℕ} (h : Part back c) : c < 100 := by
  cases h with
  | whole => decide
  | tenths => omega
  | hundredths => omega

theorem Part.unique {back : List Word} {c d : ℕ} (h : Part back c) (h' : Part back d) : c = d := by
  cases h with
  | whole => cases h' with | whole => rfl
  | tenths => cases h' with | tenths => rfl
  | hundredths => cases h' with | hundredths => rfl

theorem Amount.unique {g n m : ℕ} {ws : List Word} (h : Amount g ws n) (h' : Amount g ws m) :
    n = m := by
  obtain ⟨front, back, k, c, rfl, hk, hc, rfl⟩ := h.split
  obtain ⟨front', back', k', c', heq, hk', hc', rfl⟩ := h'.split
  obtain ⟨w, rest, rfl, hw⟩ := hc.head
  obtain ⟨rfl, rfl⟩ := append_part_inj hk.plain hw hk'.plain hc' heq
  rw [hk.unique hk', hc.unique hc']

end Numeral
