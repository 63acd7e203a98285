import Esp32AtMqtt.Codec.Numeral

/-!
# The sum that is announced

`VoicePlayHandle` splits a sum in hundredths into the groups above and below ten thousand, plays
both with `VoicePlayerLowNum`, and then the digits behind the point. `VoicePlayerLowNum` is right:
it comes to an end, stays in its array, and plays a group as it is spoken. What it is called with
is not: behind the point with a number of two digits, and below ten thousand without the zero for
a gap. So a sum is announced exactly when it is a whole one and no zero is missing
(`announced_iff_wholeYuan`).
-/

namespace Gsm.Voice

open Numeral

/-- What is left by a division; there is none by 0. -/
def remainder (a b : ℕ) : Option ℕ := if b = 0 then none else some (a % b)

/-- The inner loop of `VoicePlayerLowNum` from `j` on; `none` is a division by 0, a place that is
not in `Temp`, or a loop that is not over after `fuel` rounds. -/
def lowNumLoop (num : ℕ) (temp : List ℕ) : ℕ → UInt8 → ℕ → Option (List ℕ)
  | 0, _, _ => none
  | fuel + 1, j, zeroNum => do
      let digit ← temp[j.toNat]?
      let rest ← remainder num zeroNum
      let played ←
        if digit ≠ 0 then pure (digit :: if 1 ≤ j.toNat then [10 + j.toNat - 1] else [])
        else if rest ≠ 0 then do
          let before ← temp[j.toNat + 1]?
          pure (if before ≠ 0 then [0] else [])
        else pure []
      if rest = 0 then pure played
      else do
        -- `j` is unsigned, so the test of the loop is always passed.
        let later ← lowNumLoop num temp fuel (j - 1) (zeroNum / 10)
        pure (played ++ later)

/-- The outer loop from `i - 1` on; the inner one never comes back to it. -/
def lowNumPlaces (fuel num : ℕ) (temp : List ℕ) : ℕ → ℕ → Option (List ℕ)
  | 0, _ => some []
  | i + 1, zeroNum => do
      let digit ← temp[i]?
      if digit ≠ 0 then lowNumLoop num temp fuel (UInt8.ofNat i) (zeroNum / 10)
      else lowNumPlaces fuel num temp i (zeroNum / 10)

/-- `VoicePlayerLowNum(Num)`: what it plays. -/
def voicePlayerLowNum (fuel num : ℕ) : Option (List ℕ) :=
  let num := num % 10000
  if num = 0 then some []
  else
    lowNumPlaces fuel num [num % 10, num % 100 / 10, num % 1000 / 100, num / 1000] 4 10000

/-- What `VoicePlayHandle()` plays for `Money`. -/
def voicePlayHandle (fuel : ℕ) (money : UInt32) : Option (List ℕ) := do
  let num0 := money.toNat % 10
  let num1 := money.toNat % 100
  let num2 := money.toNat / 100 % 10000
  let num3 := money.toNat / 1000000
  let high ← voicePlayerLowNum fuel num3
  let tenThousand := if num3 % 10000 ≠ 0 then [13] else []
  let low ← voicePlayerLowNum fuel num2
  if num0 = 0 ∧ num1 = 0 then pure (high ++ tenThousand ++ low ++ [15])
  else do
    let tenths ← voicePlayerLowNum fuel num1
    let hundredths ← (if num0 ≠ 0 then voicePlayerLowNum fuel num0 else some [])
    pure (high ++ tenThousand ++ low ++ [14] ++ tenths ++ hundredths ++ [15])

/-- The word of a voice. -/
def word (voice : ℕ) : Option Word :=
  if voice < 10 then some (.digit voice)
  else if voice < 14 then some (.unit (voice - 9))
  else if voice = 14 then some .point
  else if voice = 15 then some .currency
  else none

/-- The voices say the sum `money`, and no other. -/
def Says (voices : List ℕ) (money : ℕ) : Prop :=
  ∃ ws, voices.map word = ws.map some ∧ ∀ n, Amount 4 ws n ↔ n = money

/-- `VoicePlayHandle` comes to an end without an access outside its array, and what it plays says
the sum. -/
def Announced (money : UInt32) : Prop :=
  ∃ voices, (∀ fuel, 4 ≤ fuel → voicePlayHandle fuel money = some voices) ∧
    Says voices money.toNat

/-! ## A group -/

/-- `Temp[k]`. -/
def place (num k : ℕ) : ℕ := num / 10 ^ k % 10

/-- The array of `VoicePlayerLowNum`. -/
def places (num : ℕ) : List ℕ := (List.range 4).map (place num)

theorem places_eq {num : ℕ} (h : num < 10000) :
    [num % 10, num % 100 / 10, num % 1000 / 100, num / 1000] = places num := by
  have hplaces : places num = [place num 0, place num 1, place num 2, place num 3] := rfl
  rw [hplaces, place, place, place, place]
  congr 1
  · omega
  · congr 1
    · omega
    · congr 1
      · omega
      · congr 1
        omega

theorem getElem?_places (num : ℕ) {k : ℕ} (h : k < 4) : (places num)[k]? = some (place num k) := by
  rw [places, List.getElem?_map, List.getElem?_range h]
  rfl

/-- The highest of `k + 1` places. -/
theorem mod_pow_succ (num k : ℕ) : num % 10 ^ (k + 1) = place num k * 10 ^ k + num % 10 ^ k := by
  rw [Nat.pow_succ, Nat.mod_mul, Nat.add_comm, Nat.mul_comm]
  rfl

theorem place_lt (num k : ℕ) : place num k < 10 := Nat.mod_lt _ (by decide)

/-- The voices of a digit with its power. -/
def digitVoices (d j : ℕ) : List ℕ := d :: if 1 ≤ j then [10 + j - 1] else []

theorem map_word_digitVoices {d j : ℕ} (hd : d < 10) (hj : j < 4) :
    (digitVoices d j).map word = (spokenDigit d j).map some := by
  have hdigit : word d = some (.digit d) := if_pos hd
  rw [digitVoices, spokenDigit, List.map_cons, List.map_cons, hdigit]
  congr 1
  obtain rfl | rfl | rfl | rfl : j = 0 ∨ j = 1 ∨ j = 2 ∨ j = 3 := by omega
  all_goals rfl

theorem toNat_ofNat_of_lt {j : ℕ} (h : j < 4) : (UInt8.ofNat j).toNat = j := by
  rw [UInt8.toNat_ofNat', Nat.mod_eq_of_lt (by omega)]

theorem remainder_pow (num j : ℕ) : remainder num (10 ^ j) = some (num % 10 ^ j) :=
  if_neg (Nat.pow_pos (by decide)).ne'

section Round

variable {num j : ℕ}

/-- The last digit that is not 0. -/
theorem lowNumLoop_last (hj : j < 4) (hdigit : place num j ≠ 0) (hrest : num % 10 ^ j = 0)
    (fuel : ℕ) : lowNumLoop num (places num) (fuel + 1) (UInt8.ofNat j) (10 ^ j) =
      some (digitVoices (place num j) j) := by
  rw [lowNumLoop, toNat_ofNat_of_lt hj, getElem?_places num hj, remainder_pow]
  simp only [Option.bind_eq_bind, Option.bind_some, if_pos hdigit, hrest, Option.pure_def, if_true]
  rfl

theorem ofNat_succ_sub_one (j : ℕ) : UInt8.ofNat (j + 1) - 1 = UInt8.ofNat j := by
  rw [UInt8.ofNat_add]
  exact UInt8.add_sub_cancel _ _

theorem pow_succ_div (j : ℕ) : 10 ^ (j + 1) / 10 = 10 ^ j := by
  rw [Nat.pow_succ, Nat.mul_div_cancel _ (by decide)]

/-- A digit with more behind it. -/
theorem lowNumLoop_digit (hj : j + 1 < 4) (hdigit : place num (j + 1) ≠ 0)
    (hrest : num % 10 ^ (j + 1) ≠ 0) (fuel : ℕ) :
    lowNumLoop num (places num) (fuel + 1) (UInt8.ofNat (j + 1)) (10 ^ (j + 1)) =
      (lowNumLoop num (places num) fuel (UInt8.ofNat j) (10 ^ j)).map
        (digitVoices (place num (j + 1)) (j + 1) ++ ·) := by
  rw [lowNumLoop, toNat_ofNat_of_lt hj, getElem?_places num hj, remainder_pow, ofNat_succ_sub_one,
    pow_succ_div]
  simp only [Option.bind_eq_bind, Option.bind_some, if_pos hdigit, if_neg hrest, Option.pure_def]
  rw [Option.map_eq_bind]
  rfl

/-- A place with the digit 0 and more behind it. -/
theorem lowNumLoop_zero (hj : j + 2 < 4) (hdigit : place num (j + 1) = 0)
    (hrest : num % 10 ^ (j + 1) ≠ 0) (fuel : ℕ) :
    lowNumLoop num (places num) (fuel + 1) (UInt8.ofNat (j + 1)) (10 ^ (j + 1)) =
      (lowNumLoop num (places num) fuel (UInt8.ofNat j) (10 ^ j)).map
        ((if place num (j + 2) ≠ 0 then [0] else []) ++ ·) := by
  have hlt : j + 1 < 4 := Nat.lt_of_succ_lt hj
  rw [lowNumLoop, toNat_ofNat_of_lt hlt, getElem?_places num hlt, remainder_pow,
    ofNat_succ_sub_one, pow_succ_div, getElem?_places num hj]
  simp only [Option.bind_eq_bind, Option.bind_some, if_neg (not_not.mpr hdigit), if_pos hrest,
    if_neg hrest, Option.pure_def]
  rw [Option.map_eq_bind]
  rfl

end Round

/-- The loop from `j` on plays `voices`, whatever the fuel is, and they stand for the words `ws`. -/
structure Plays (num j : ℕ) (voices : List ℕ) (ws : List Word) : Prop where
  played : ∀ fuel, j + 1 ≤ fuel →
    lowNumLoop num (places num) fuel (UInt8.ofNat j) (10 ^ j) = some voices
  words : voices.map word = ws.map some

section Loop

variable {num j : ℕ} {voices front : List ℕ} {ws vs : List Word}

/-- A round in front of the rest. -/
theorem Plays.round (h : Plays num j voices ws)
    (hround : ∀ fuel, lowNumLoop num (places num) (fuel + 1) (UInt8.ofNat (j + 1)) (10 ^ (j + 1)) =
      (lowNumLoop num (places num) fuel (UInt8.ofNat j) (10 ^ j)).map (front ++ ·))
    (hfront : front.map word = vs.map some) :
    Plays num (j + 1) (front ++ voices) (vs ++ ws) := by
  constructor
  · intro fuel hfuel
    obtain ⟨fuel, rfl⟩ := Nat.exists_eq_succ_of_ne_zero (Nat.ne_of_gt (Nat.zero_lt_of_lt hfuel))
    rw [hround, h.played fuel (Nat.le_of_succ_le_succ hfuel)]
    rfl
  · rw [List.map_append, List.map_append, hfront, h.words]

/-- What the loop from `j` on plays behind a digit. -/
def PlaysRest (num j : ℕ) : Prop :=
  ∃ voices ws, Plays num j voices ws ∧ Rest (j + 1) ws (num % 10 ^ (j + 1))

/-- What it plays from the first digit on, or behind a gap whose zero has been said. -/
def PlaysLead (num j : ℕ) : Prop :=
  ∃ voices ws, Plays num j voices ws ∧ Lead (j + 1) ws (num % 10 ^ (j + 1))

/-- A digit, and then what is said behind it. -/
theorem plays_digit (hj : j < 4) (hdigit : place num j ≠ 0)
    (hlower : ∀ i, j = i + 1 → num % 10 ^ (i + 1) ≠ 0 → PlaysRest num i) :
    ∃ voices ws, Plays num j voices (spokenDigit (place num j) j ++ ws) ∧
      Rest j ws (num % 10 ^ j) := by
  have hfront := map_word_digitVoices (place_lt num j) hj
  by_cases hrest : num % 10 ^ j = 0
  · refine ⟨digitVoices (place num j) j, [], ⟨?_, ?_⟩, ?_⟩
    · intro fuel hfuel
      obtain ⟨fuel, rfl⟩ := Nat.exists_eq_succ_of_ne_zero (Nat.ne_of_gt (Nat.zero_lt_of_lt hfuel))
      exact lowNumLoop_last hj hdigit hrest fuel
    · rw [List.append_nil]
      exact hfront
    · rw [hrest]
      exact .done j
  · cases j with
    | zero => exact absurd (Nat.mod_one num) hrest
    | succ i =>
        obtain ⟨voices, ws, hplays, hws⟩ := hlower i rfl hrest
        exact ⟨_, ws, hplays.round (lowNumLoop_digit hj hdigit hrest) hfront, hws⟩

theorem playsRest_of_digit (hdigit : place num j ≠ 0)
    (h : ∃ voices ws, Plays num j voices (spokenDigit (place num j) j ++ ws) ∧
      Rest j ws (num % 10 ^ j)) : PlaysRest num j ∧ PlaysLead num j := by
  obtain ⟨voices, ws, hplays, hws⟩ := h
  have hpos := Nat.pos_of_ne_zero hdigit
  refine ⟨⟨voices, _, hplays, ?_⟩, voices, _, hplays, ?_⟩
  · rw [mod_pow_succ]
    exact .next hpos (place_lt num j) hws
  · rw [mod_pow_succ]
    exact .mk (Nat.lt_succ_self j) hpos (place_lt num j) hws

theorem lowNumLoop_plays (num j : ℕ) (hj : j < 4) (hne : num % 10 ^ (j + 1) ≠ 0) :
    (j + 1 < 4 → place num (j + 1) ≠ 0 → PlaysRest num j) ∧
      (place num j ≠ 0 ∨ j + 1 < 4 ∧ place num (j + 1) = 0 → PlaysLead num j) := by
  induction j with
  | zero =>
      have hdigit : place num 0 ≠ 0 := by
        intro hzero
        rw [mod_pow_succ, hzero, Nat.pow_zero, Nat.mod_one] at hne
        exact hne rfl
      have hboth := playsRest_of_digit hdigit
        (plays_digit hj hdigit fun i hi => absurd hi (Nat.succ_ne_zero i).symm)
      exact ⟨fun _ _ => hboth.1, fun _ => hboth.2⟩
  | succ j ih =>
      have hlt : j < 4 := Nat.lt_of_succ_lt hj
      by_cases hdigit : place num (j + 1) = 0
      · have hrest : num % 10 ^ (j + 1) ≠ 0 := by
          rw [mod_pow_succ, hdigit, Nat.zero_mul, Nat.zero_add] at hne
          exact hne
        have hmod : num % 10 ^ (j + 1 + 1) = num % 10 ^ (j + 1) := by
          rw [mod_pow_succ num (j + 1), hdigit, Nat.zero_mul, Nat.zero_add]
        obtain ⟨voices, ws, hplays, hws⟩ := (ih hlt hrest).2 (.inr ⟨hj, hdigit⟩)
        constructor
        · intro hupper hbefore
          have hround := lowNumLoop_zero hupper hdigit hrest
          rw [if_pos hbefore] at hround
          refine ⟨_, [.digit 0] ++ ws, hplays.round hround rfl, ?_⟩
          rw [hmod]
          exact hws.rest
        · intro hfirst
          obtain ⟨hupper, hbefore⟩ := hfirst.resolve_left (not_not.mpr hdigit)
          have hround := lowNumLoop_zero hupper hdigit hrest
          rw [if_neg (not_not.mpr hbefore)] at hround
          refine ⟨_, [] ++ ws, hplays.round hround rfl, ?_⟩
          rw [hmod]
          exact hws.mono (Nat.le_succ _)
      · have hboth := playsRest_of_digit hdigit (plays_digit hj hdigit (by
          rintro i hi hrest
          obtain rfl := Nat.succ.inj hi
          exact (ih hlt hrest).1 hj hdigit))
        exact ⟨fun _ _ => hboth.1, fun _ => hboth.2⟩

end Loop

/-- The outer loop skips the places above the first digit. -/
theorem lowNumPlaces_plays (num : ℕ) (i : ℕ) (hi : i ≤ 4) (hne : num % 10 ^ i ≠ 0) :
    ∃ voices ws, (∀ fuel, 4 ≤ fuel →
        lowNumPlaces fuel num (places num) i (10 ^ i) = some voices) ∧
      voices.map word = ws.map some ∧ Lead i ws (num % 10 ^ i) := by
  induction i with
  | zero => exact absurd (Nat.mod_one num) hne
  | succ i ih =>
      by_cases hdigit : place num i = 0
      · have hmod : num % 10 ^ (i + 1) = num % 10 ^ i := by
          rw [mod_pow_succ, hdigit, Nat.zero_mul, Nat.zero_add]
        obtain ⟨voices, ws, hplayed, hwords, hws⟩ := ih (Nat.le_of_succ_le hi) (hmod ▸ hne)
        refine ⟨voices, ws, ?_, hwords, ?_⟩
        · intro fuel hfuel
          rw [lowNumPlaces, getElem?_places num hi, pow_succ_div]
          simp only [Option.bind_eq_bind, Option.bind_some, if_neg (not_not.mpr hdigit)]
          exact hplayed fuel hfuel
        · rw [hmod]
          exact hws.mono (Nat.le_succ i)
      · obtain ⟨voices, ws, hplays, hws⟩ := (lowNumLoop_plays num i hi hne).2 (.inl hdigit)
        refine ⟨voices, ws, ?_, hplays.words, hws⟩
        intro fuel hfuel
        rw [lowNumPlaces, getElem?_places num hi, pow_succ_div]
        simp only [Option.bind_eq_bind, Option.bind_some, if_pos hdigit]
        exact hplays.played fuel (hi.trans hfuel)

/-- `VoicePlayerLowNum` comes to an end in its array, and says its number. -/
theorem voicePlayerLowNum_plays {num : ℕ} (hpos : num ≠ 0) (hlt : num < 10000) :
    ∃ voices ws, (∀ fuel, 4 ≤ fuel → voicePlayerLowNum fuel num = some voices) ∧
      voices.map word = ws.map some ∧ Lead 4 ws num := by
  have hmod : num % 10 ^ 4 = num := Nat.mod_eq_of_lt hlt
  obtain ⟨voices, ws, hplayed, hwords, hws⟩ :=
    lowNumPlaces_plays num 4 le_rfl (by rwa [hmod])
  refine ⟨voices, ws, ?_, hwords, hmod ▸ hws⟩
  intro fuel hfuel
  have hgroup : num % 10000 = num := hmod
  rw [voicePlayerLowNum, hgroup, if_neg hpos, places_eq hlt]
  exact hplayed fuel hfuel

/-! ## The whole sum -/

/-- What is said of a group, which may be 0. -/
def Group (num : ℕ) (ws : List Word) : Prop := num = 0 ∧ ws = [] ∨ Lead 4 ws num

theorem voicePlayerLowNum_group (num : ℕ) (hlt : num < 10000) :
    ∃ voices ws, (∀ fuel, 4 ≤ fuel → voicePlayerLowNum fuel num = some voices) ∧
      voices.map word = ws.map some ∧ Group num ws := by
  by_cases hzero : num = 0
  · refine ⟨[], [], ?_, rfl, .inl ⟨hzero, rfl⟩⟩
    rintro fuel -
    rw [hzero]
    rfl
  · obtain ⟨voices, ws, hplayed, hwords, hws⟩ := voicePlayerLowNum_plays hzero hlt
    exact ⟨voices, ws, hplayed, hwords, .inr hws⟩

/-- What is said in front of the point. -/
def frontWords (num3 : ℕ) (hs ls : List Word) : List Word :=
  hs ++ (if num3 = 0 then [] else [.unit 4]) ++ ls

/-- What `VoicePlayHandle` plays, in words. -/
theorem voicePlayHandle_plays (money : UInt32) :
    ∃ voices hs ls tail, (∀ fuel, 4 ≤ fuel → voicePlayHandle fuel money = some voices) ∧
      voices.map word = (frontWords (money.toNat / 1000000) hs ls ++ tail).map some ∧
      Group (money.toNat / 1000000) hs ∧ Group (money.toNat / 100 % 10000) ls ∧
      (money.toNat % 100 = 0 ∧ tail = [.currency] ∨
        money.toNat % 100 ≠ 0 ∧ ∃ ts fs, tail = .point :: (ts ++ fs ++ [.currency]) ∧
          Group (money.toNat % 100) ts ∧ Group (money.toNat % 10) fs) := by
  have hmoney := money.toNat_lt
  obtain ⟨high, hs, hhigh, hhs, hhgroup⟩ :=
    voicePlayerLowNum_group (money.toNat / 1000000) (by omega)
  obtain ⟨low, ls, hlow, hls, hlgroup⟩ :=
    voicePlayerLowNum_group (money.toNat / 100 % 10000) (Nat.mod_lt _ (by decide))
  obtain ⟨tenths, ts, htenths, hts, htgroup⟩ :=
    voicePlayerLowNum_group (money.toNat % 100) (by omega)
  obtain ⟨hundredths, fs, hhundredths, hfs, hfgroup⟩ :=
    voicePlayerLowNum_group (money.toNat % 10) (by omega)
  have hunit : (if money.toNat / 1000000 % 10000 ≠ 0 then [13] else []).map word =
      (if money.toNat / 1000000 = 0 then [] else [Word.unit 4]).map some := by
    rw [Nat.mod_eq_of_lt (by omega)]
    by_cases hzero : money.toNat / 1000000 = 0
    · rw [if_pos hzero, if_neg (not_not.mpr hzero)]
      rfl
    · rw [if_neg hzero, if_pos hzero]
      rfl
  have hfront : ∀ tail, (high ++ (if money.toNat / 1000000 % 10000 ≠ 0 then [13] else []) ++ low ++
      tail).map word = (frontWords (money.toNat / 1000000) hs ls).map some ++ tail.map word := by
    intro tail
    rw [List.map_append, List.map_append, List.map_append, hhs, hunit, hls, frontWords,
      List.map_append, List.map_append]
  by_cases hcents : money.toNat % 100 = 0
  · refine ⟨high ++ (if money.toNat / 1000000 % 10000 ≠ 0 then [13] else []) ++ low ++ [15], hs, ls,
      [.currency], fun fuel hfuel => ?_, ?_, hhgroup, hlgroup, .inl ⟨hcents, rfl⟩⟩
    · have htenth : money.toNat % 10 = 0 := by omega
      rw [voicePlayHandle, hhigh fuel hfuel, hlow fuel hfuel]
      simp only [Option.bind_eq_bind, Option.bind_some, hcents, htenth, and_self, if_true,
        Option.pure_def]
    · rw [hfront, List.map_append]
      rfl
  · refine ⟨high ++ (if money.toNat / 1000000 % 10000 ≠ 0 then [13] else []) ++ low ++
        ([14] ++ tenths ++ hundredths ++ [15]), hs, ls, .point :: (ts ++ fs ++ [.currency]),
      fun fuel hfuel => ?_, ?_, hhgroup, hlgroup, .inr ⟨hcents, ts, fs, rfl, htgroup, hfgroup⟩⟩
    · have hlast : (if money.toNat % 10 ≠ 0 then voicePlayerLowNum fuel (money.toNat % 10)
          else some []) = some hundredths := by
        rw [← hhundredths fuel hfuel]
        by_cases htenth : money.toNat % 10 = 0
        · rw [if_neg (not_not.mpr htenth), htenth]
          rfl
        · rw [if_pos htenth]
      rw [voicePlayHandle, hhigh fuel hfuel, hlow fuel hfuel, htenths fuel hfuel, hlast]
      simp only [Option.bind_eq_bind, Option.bind_some, hcents, and_false, if_false,
        Option.pure_def, List.append_assoc]
    · have htail : ([14] ++ tenths ++ hundredths ++ [15]).map word =
          (Word.point :: (ts ++ fs ++ [.currency])).map some := by
        rw [List.map_append, List.map_append, List.map_append, hts, hfs]
        show _ = some Word.point :: (ts ++ fs ++ [Word.currency]).map some
        rw [List.map_append, List.map_append]
        rfl
      rw [hfront, htail, List.map_append]

/-- Words are said by voices in one way. -/
theorem map_some_inj {ws vs : List Word} (h : ws.map some = vs.map some) : ws = vs :=
  List.map_injective_iff.mpr (Option.some_injective Word) h

theorem says_of_amount {voices : List ℕ} {ws : List Word} {money : ℕ}
    (hwords : voices.map word = ws.map some) (h : Amount 4 ws money) : Says voices money :=
  ⟨ws, hwords, fun _ => ⟨fun hn => hn.unique h, fun hn => hn ▸ h⟩⟩

theorem amount_of_says {voices : List ℕ} {ws : List Word} {money : ℕ}
    (hwords : voices.map word = ws.map some) (h : Says voices money) : Amount 4 ws money := by
  obtain ⟨vs, hvs, hall⟩ := h
  rw [map_some_inj (hwords.symm.trans hvs)]
  exact (hall money).mpr rfl

section Front

variable {num3 num2 : ℕ} {hs ls : List Word}

theorem Group.plain {num : ℕ} {ws : List Word} (h : Group num ws) : ∀ w ∈ ws, Plain w := by
  rcases h with ⟨-, rfl⟩ | h
  · simp
  · exact fun w hw => (h.inner w hw).plain

theorem plain_frontWords (hhs : Group num3 hs) (hls : Group num2 ls) :
    ∀ w ∈ frontWords num3 hs ls, Plain w := by
  intro w hw
  rcases List.mem_append.mp hw with hw | hw
  · rcases List.mem_append.mp hw with hw | hw
    · exact hhs.plain w hw
    · split_ifs at hw with hzero
      · exact absurd hw List.not_mem_nil
      · obtain rfl := List.mem_singleton.mp hw
        trivial
  · exact hls.plain w hw

/-- What stands in front of the point is a number when it is not 0 and no zero is missing. -/
theorem whole_frontWords (hhs : Group num3 hs) (hls : Group num2 ls)
    (hpos : num3 * 10000 + num2 ≠ 0) (hgap : num3 = 0 ∨ num2 = 0 ∨ 1000 ≤ num2) :
    Whole 4 (frontWords num3 hs ls) (num3 * 10000 + num2) := by
  rcases hhs with ⟨rfl, rfl⟩ | hhigh
  · rcases hls with ⟨rfl, rfl⟩ | hlow
    · exact absurd rfl hpos
    · rw [Nat.zero_mul, Nat.zero_add]
      exact .low hlow
  · have hne := hhigh.pos.ne'
    have hwords : frontWords num3 hs ls = hs ++ .unit 4 :: ls := by
      rw [frontWords, if_neg hne, List.append_assoc]
      rfl
    rw [hwords]
    refine .high hhigh ?_
    rcases hls with ⟨rfl, rfl⟩ | hlow
    · exact .done 4
    · exact hlow.rest_of_le ((hgap.resolve_left hne).resolve_left hlow.pos.ne')

/-- It is no number when it is 0, or when a zero is missing. -/
theorem of_whole_frontWords (hhs : Group num3 hs) (hls : Group num2 ls) {m : ℕ}
    (h : Whole 4 (frontWords num3 hs ls) m) :
    num3 * 10000 + num2 ≠ 0 ∧ (num3 = 0 ∨ num2 = 0 ∨ 1000 ≤ num2) := by
  rcases hhs with ⟨rfl, rfl⟩ | hhigh
  · rcases hls with ⟨rfl, rfl⟩ | hlow
    · exact absurd rfl h.ne_nil
    · refine ⟨?_, .inl rfl⟩
      have hpos := hlow.pos
      omega
  · have hpos := hhigh.pos
    refine ⟨by omega, ?_⟩
    rcases hls with ⟨rfl, rfl⟩ | hlow
    · exact .inr (.inl rfl)
    · rw [frontWords, if_neg hpos.ne', List.append_assoc] at h
      obtain ⟨m, hm⟩ := h.rest hhigh.inner
      exact .inr (.inr (hlow.le_of_rest hm))

end Front

/-- What is played for two digits behind the point does not say them. -/
theorem not_part {num : ℕ} {ts fs : List Word} (hne : num % 100 ≠ 0) (hts : Group (num % 100) ts)
    (hfs : Group (num % 10) fs) {c : ℕ} (h : Part (.point :: (ts ++ fs ++ [.currency])) c) :
    c ≠ num % 100 := by
  have hlead : Lead 4 ts (num % 100) := hts.resolve_left fun h => hne h.1
  generalize hws : Word.point :: (ts ++ fs ++ [.currency]) = ws at h
  rcases hlead.head with ⟨d, k, rest, rfl⟩ | ⟨hlt, rfl⟩
  · -- A number of two digits has a word for ten.
    cases h with
    | whole => simp at hws
    | tenths => simp at hws
    | hundredths => simp at hws
  · -- The digit is played twice.
    have hdigit : num % 10 = num % 100 := by omega
    rw [hdigit] at hfs
    have hagain : Lead 4 fs (num % 100) := hfs.resolve_left fun h => hne h.1
    rcases hagain.head with ⟨d, k, rest, rfl⟩ | ⟨-, rfl⟩
    · cases h with
      | whole => simp at hws
      | tenths => simp at hws
      | hundredths => simp at hws
    · cases h with
      | whole => simp at hws
      | tenths => simp at hws
      | hundredths =>
          simp only [List.cons_append, List.nil_append, List.cons.injEq, Word.digit.injEq, and_true,
            true_and] at hws
          omega

/-- What is announced says the sum when its words do. -/
theorem announced_iff_amount {money : UInt32} {voices : List ℕ} {ws : List Word}
    (hplayed : ∀ fuel, 4 ≤ fuel → voicePlayHandle fuel money = some voices)
    (hwords : voices.map word = ws.map some) : Announced money ↔ Amount 4 ws money.toNat := by
  constructor
  · rintro ⟨voices', hplayed', hsays⟩
    have hvoices := (hplayed 4 le_rfl).symm.trans (hplayed' 4 le_rfl)
    obtain rfl := Option.some.inj hvoices
    exact amount_of_says hwords hsays
  · intro hamount
    exact ⟨voices, hplayed, says_of_amount hwords hamount⟩

theorem whole_of_announced {money : UInt32} (h : Announced money) :
    money.toNat ≠ 0 ∧ money.toNat % 100 = 0 ∧
      (money.toNat / 1000000 = 0 ∨ money.toNat / 100 % 10000 = 0 ∨
        1000 ≤ money.toNat / 100 % 10000) := by
  obtain ⟨voices, hs, ls, tail, hplayed, hwords, hhs, hls, htail⟩ := voicePlayHandle_plays money
  have hamount := (announced_iff_amount hplayed hwords).mp h
  obtain ⟨front, back, m, c, heq, hwhole, hpart, hvalue⟩ := hamount.split
  rcases htail with ⟨hcents, rfl⟩ | ⟨hcents, ts, fs, rfl, hts, hfs⟩
  · obtain ⟨rfl, -⟩ := append_part_inj (w := .currency) (plain_frontWords hhs hls) (fun h => h)
      hwhole.plain hpart heq
    obtain ⟨hpos, hgap⟩ := of_whole_frontWords hhs hls hwhole
    exact ⟨by omega, hcents, hgap⟩
  · obtain ⟨rfl, rfl⟩ := append_part_inj (w := .point) (plain_frontWords hhs hls) (fun h => h)
      hwhole.plain hpart heq
    have hlt := hpart.lt
    exact absurd (by omega) (not_part hcents hts hfs hpart)

theorem announced_of_whole {money : UInt32} (hpos : money.toNat ≠ 0)
    (hcents : money.toNat % 100 = 0)
    (hgap : money.toNat / 1000000 = 0 ∨ money.toNat / 100 % 10000 = 0 ∨
      1000 ≤ money.toNat / 100 % 10000) : Announced money := by
  obtain ⟨voices, hs, ls, tail, hplayed, hwords, hhs, hls, htail⟩ := voicePlayHandle_plays money
  obtain ⟨-, rfl⟩ := htail.resolve_right fun h => h.1 hcents
  have hwhole := whole_frontWords hhs hls (by omega) hgap
  have hvalue : (money.toNat / 1000000 * 10000 + money.toNat / 100 % 10000) * 100 =
      money.toNat := by omega
  have hamount := Amount.whole hwhole
  rw [hvalue] at hamount
  exact (announced_iff_amount hplayed hwords).mpr hamount

/-- A sum is announced exactly when it is not 0, has nothing behind the point, and needs no zero
between its two groups. -/
theorem announced_iff_wholeYuan (money : UInt32) :
    Announced money ↔
      money.toNat ≠ 0 ∧ money.toNat % 100 = 0 ∧
        (money.toNat / 1000000 = 0 ∨ money.toNat / 100 % 10000 = 0 ∨
          1000 ≤ money.toNat / 100 % 10000) :=
  ⟨whole_of_announced, fun h => announced_of_whole h.1 h.2.1 h.2.2⟩

/-- For 12.34 yuan the last digit is played twice, and the one before it with the word for ten. -/
theorem announced_1234 : ¬ ∀ money, Announced money := by
  intro hall
  have hcents := (whole_of_announced (hall 1234)).2.1
  exact absurd hcents (by decide)

/-- Ten thousand and five yuan are announced without the zero. -/
example : voicePlayHandle 4 1000500 = some [1, 13, 5, 15] := by decide

end Gsm.Voice
