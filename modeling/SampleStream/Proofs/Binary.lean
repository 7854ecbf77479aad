import Mathlib.Order.Monotone.Basic
import Mathlib.Tactic.Ring
import SampleStream.Binary

/-!
# Rounding to a word

A word is `k` ranges of fractions and a mantissa `m` on top, and then its number is `m * 2 ^ k` smallest
steps (`steps_eq`). So between the words around it a number rounds to a whole mantissa of one exponent,
apart from the lower neighbour of a power of two, which is half a step nearer. Main statement: whatever lies
between the middles of a word and its neighbours is rounded to that word (`nearest_eq`).
-/

namespace SampleStream.Binary

-- A quotient within a half of `m` is rounded to `m`, if it is not a half away from an odd `m`.
theorem roundHalfEven_eq {num den m : Nat} (hden : 0 < den)
    (hlow : 2 * (m * den) ≤ 2 * num + den) (hhigh : 2 * num ≤ 2 * (m * den) + den)
    (htie : m % 2 = 0 ∨ 2 * (m * den) < 2 * num + den ∧ 2 * num < 2 * (m * den) + den) :
    roundHalfEven num den = m := by
  have hdiv := Nat.div_add_mod num den
  have hmod := Nat.mod_lt num hden
  unfold roundHalfEven
  dsimp only
  generalize num / den = q at hdiv ⊢
  generalize num % den = r at hdiv hmod ⊢
  have hle : q ≤ m := by
    by_contra hlt
    have hmul := Nat.mul_le_mul_right den (Nat.lt_of_not_le hlt)
    rw [Nat.succ_mul, Nat.mul_comm q] at hmul
    omega
  have hge : m ≤ q + 1 := by
    by_contra hlt
    have hmul := Nat.mul_le_mul_right den (Nat.lt_of_not_le hlt)
    rw [Nat.succ_mul, Nat.succ_mul, Nat.mul_comm q] at hmul
    omega
  obtain rfl | rfl : m = q ∨ m = q + 1 := by omega
  · rw [Nat.mul_comm m] at hlow hhigh htie
    split_ifs <;> omega
  · have hmul : (q + 1) * den = den * q + den := by ring
    rw [hmul] at hlow hhigh htie
    split_ifs <;> omega

theorem roundHalfEven_le (num den : Nat) : roundHalfEven num den ≤ num / den + 1 := by
  unfold roundHalfEven
  dsimp only
  split_ifs <;> omega

namespace Format

variable {f : Format} {k m num den : Nat}

theorem fractions_pos (f : Format) : 0 < f.fractions :=
  Nat.pow_pos (by decide)

-- The number of a word by its exponent and mantissa; the mantissa of the next power of two will do as
-- well as that of the last word before it.
theorem steps_eq (hm : m ≤ 2 * f.fractions) (hk : k = 0 ∨ f.fractions ≤ m) :
    f.steps (k * f.fractions + m) = m * 2 ^ k := by
  have hpos := f.fractions_pos
  obtain hlt | ⟨n, rfl, hn⟩ | rfl : m < f.fractions ∨
      (∃ n, m = f.fractions + n ∧ n < f.fractions) ∨ m = 2 * f.fractions := by
    by_cases hlt : m < f.fractions
    · exact .inl hlt
    · by_cases heq : m = 2 * f.fractions
      · exact .inr (.inr heq)
      · exact .inr (.inl ⟨m - f.fractions, by omega, by omega⟩)
  · obtain rfl : k = 0 := by omega
    rw [steps, if_pos (by omega)]
    simp
  · have hword : k * f.fractions + (f.fractions + n) = n + (k + 1) * f.fractions := by ring
    rw [steps, if_neg (by omega), hword, Nat.add_mul_mod_self_right, Nat.mod_eq_of_lt hn,
      Nat.add_mul_div_right _ _ hpos, Nat.div_eq_of_lt hn]
    simp
  · have hword : k * f.fractions + 2 * f.fractions = 0 + (k + 2) * f.fractions := by ring
    rw [steps, if_neg (by omega), hword, Nat.add_mul_mod_self_right, Nat.zero_mod,
      Nat.add_mul_div_right _ _ hpos, Nat.zero_div]
    have hexp : Nat.pow 2 (0 + (k + 2) - 1) = 2 ^ k * 2 := by
      rw [show 0 + (k + 2) - 1 = k + 1 by omega]
      exact Nat.pow_succ 2 k
    rw [hexp]
    ring

theorem exists_mantissa (f : Format) (word : Nat) : ∃ k m, word = k * f.fractions + m ∧
    m < 2 * f.fractions ∧ (k = 0 ∨ f.fractions ≤ m) := by
  have hpos := f.fractions_pos
  have hdiv := Nat.div_add_mod word f.fractions
  have hmod := Nat.mod_lt word hpos
  cases hq : word / f.fractions with
  | zero =>
    rw [hq] at hdiv
    exact ⟨0, word, by simp, by omega, .inl rfl⟩
  | succ k =>
    rw [hq, Nat.mul_succ, Nat.mul_comm] at hdiv
    exact ⟨k, f.fractions + word % f.fractions, by omega, by omega, .inr (by omega)⟩

-- The mantissas of a word and of the next one, of the same power of two.
theorem exists_gap (f : Format) (word : Nat) : ∃ k m, word = k * f.fractions + m ∧ m < 2 * f.fractions ∧
    (k = 0 ∨ f.fractions ≤ m) ∧ f.steps word = m * 2 ^ k ∧ f.steps (word + 1) = (m + 1) * 2 ^ k := by
  obtain ⟨k, m, rfl, hm, hk⟩ := f.exists_mantissa word
  refine ⟨k, m, rfl, hm, hk, steps_eq (by omega) hk, ?_⟩
  rw [Nat.add_assoc]
  exact steps_eq (by omega) (by omega)

-- Words are ordered like their numbers.
theorem strictMono_steps (f : Format) : StrictMono f.steps := by
  apply strictMono_nat_of_lt_succ
  intro word
  obtain ⟨k, m, -, -, -, hword, hnext⟩ := f.exists_gap word
  rw [hword, hnext]
  exact Nat.mul_lt_mul_of_pos_right (Nat.lt_succ_self m) (Nat.pow_pos (by decide))

-- A number is no more than so many of the gaps below it as there are mantissas.
theorem steps_succ_le_gaps (f : Format) (word : Nat) :
    f.steps (word + 1) + 2 * f.fractions * f.steps word ≤ 2 * f.fractions * f.steps (word + 1) := by
  obtain ⟨k, m, rfl, hm, -, hword, hnext⟩ := f.exists_gap word
  rw [hword, hnext, ← Nat.mul_assoc, ← Nat.mul_assoc, ← Nat.add_mul]
  refine Nat.mul_le_mul_right _ ?_
  rw [Nat.mul_succ, Nat.add_comm]
  exact Nat.add_le_add_left hm _

-- A quotient has the exponent of the range of mantissas that it lies in.
theorem log2_sub_fraction_eq (hden : 0 < den)
    (hlow : k = 0 ∨ f.fractions * (den * 2 ^ k) ≤ num) (hhigh : num < 2 * (f.fractions * (den * 2 ^ k))) :
    (num / den).log2 - f.fraction = k := by
  have hpow : f.fractions * 2 ^ k = 2 ^ (f.fraction + k) := (Nat.pow_add 2 _ _).symm
  have hupper : num / den < 2 ^ (f.fraction + k + 1) := by
    rw [Nat.div_lt_iff_lt_mul hden, Nat.pow_succ, ← hpow]
    calc num < 2 * (f.fractions * (den * 2 ^ k)) := hhigh
      _ = f.fractions * 2 ^ k * 2 * den := by ring
  by_cases hzero : num / den = 0
  · have hk : k = 0 := by
      refine hlow.resolve_right fun hle => ?_
      have hone : f.fractions * 2 ^ k ≤ num / den := by
        rw [Nat.le_div_iff_mul_le hden]
        calc f.fractions * 2 ^ k * den = f.fractions * (den * 2 ^ k) := by ring
          _ ≤ num := hle
      rw [hzero, hpow] at hone
      exact absurd hone (Nat.not_le_of_lt (Nat.pow_pos (by decide)))
    rw [hzero, hk]
    simp
  · have hlt := (Nat.log2_lt hzero).mpr hupper
    obtain rfl | hle := hlow
    · omega
    · have hlower : 2 ^ (f.fraction + k) ≤ num / den := by
        rw [Nat.le_div_iff_mul_le hden, ← hpow]
        calc f.fractions * 2 ^ k * den = f.fractions * (den * 2 ^ k) := by ring
          _ ≤ num := hle
      have hge := (Nat.le_log2 hzero).mpr hlower
      omega

-- What lies in a range of mantissas, within a half of one of them, is rounded to it.
theorem nearest_of_range (hden : 0 < den) (hword : k * f.fractions + m ≤ f.infinity)
    (hlow : k = 0 ∨ f.fractions * (den * 2 ^ k) ≤ num) (hhigh : num < 2 * (f.fractions * (den * 2 ^ k)))
    (hbelow : 2 * (m * (den * 2 ^ k)) ≤ 2 * num + den * 2 ^ k)
    (habove : 2 * num ≤ 2 * (m * (den * 2 ^ k)) + den * 2 ^ k)
    (htie : m % 2 = 0 ∨ 2 * (m * (den * 2 ^ k)) < 2 * num + den * 2 ^ k ∧
      2 * num < 2 * (m * (den * 2 ^ k)) + den * 2 ^ k) :
    f.nearest num den = k * f.fractions + m := by
  have hstep : 0 < den * 2 ^ k := Nat.mul_pos hden (Nat.pow_pos (by decide))
  have hround := roundHalfEven_eq hstep hbelow habove htie
  unfold nearest
  rw [log2_sub_fraction_eq hden hlow hhigh]
  change min f.infinity (k * f.fractions + roundHalfEven num (den * 2 ^ k)) = _
  rw [hround, Nat.min_eq_right hword]

-- A word whose neighbours are both one mantissa away.
theorem nearest_of_inner (hden : 0 < den) (hpos : 0 < k * f.fractions + m)
    (hword : k * f.fractions + m ≤ f.infinity) (hm : m < 2 * f.fractions) (hk : k = 0 ∨ f.fractions < m)
    (hlow : (f.steps (k * f.fractions + m - 1) + m * 2 ^ k) * den ≤ 2 * num)
    (hhigh : 2 * num ≤ 2 * (m * (den * 2 ^ k)) + den * 2 ^ k)
    (htie : m % 2 = 0 ∨ (f.steps (k * f.fractions + m - 1) + m * 2 ^ k) * den < 2 * num ∧
      2 * num < 2 * (m * (den * 2 ^ k)) + den * 2 ^ k) :
    f.nearest num den = k * f.fractions + m := by
  have hmpos : 0 < m := by
    rcases hk with rfl | hlt
    · rw [Nat.zero_mul, Nat.zero_add] at hpos
      exact hpos
    · omega
  obtain ⟨n, rfl⟩ : ∃ n, m = n + 1 := ⟨m - 1, by omega⟩
  have hpred : f.steps (k * f.fractions + (n + 1) - 1) = n * 2 ^ k := by
    rw [← Nat.add_assoc, Nat.add_sub_cancel]
    exact steps_eq (by omega) (by omega)
  have hbelow : (n * 2 ^ k + (n + 1) * 2 ^ k) * den + den * 2 ^ k = 2 * ((n + 1) * (den * 2 ^ k)) := by
    ring
  rw [hpred] at hlow htie
  -- In smallest steps of this exponent, the range of mantissas is that of the neighbours too.
  have hmin : k = 0 ∨ f.fractions * (den * 2 ^ k) ≤ n * (den * 2 ^ k) :=
    hk.imp_right fun hlt => Nat.mul_le_mul_right _ (by omega)
  have hmax : (n + 1 + 1) * (den * 2 ^ k) ≤ 2 * f.fractions * (den * 2 ^ k) :=
    Nat.mul_le_mul_right _ hm
  have hstep : 0 < den * 2 ^ k := Nat.mul_pos hden (Nat.pow_pos (by decide))
  rw [Nat.mul_assoc, Nat.add_mul, Nat.one_mul] at hmax
  have hsplit : (n + 1) * (den * 2 ^ k) = n * (den * 2 ^ k) + den * 2 ^ k := by ring
  exact nearest_of_range hden hword (by omega) (by omega) (by omega) hhigh (by omega)

-- A power of two, whose lower neighbour is the last mantissa of the exponent below. It is an even word, so
-- the middles count.
theorem nearest_of_power (hden : 0 < den) (heven : f.fractions % 2 = 0)
    (hword : (k + 1) * f.fractions + f.fractions ≤ f.infinity)
    (hlow : (f.steps ((k + 1) * f.fractions + f.fractions - 1) + f.fractions * 2 ^ (k + 1)) * den ≤ 2 * num)
    (hhigh : 2 * num ≤ 2 * (f.fractions * (den * 2 ^ (k + 1))) + den * 2 ^ (k + 1)) :
    f.nearest num den = (k + 1) * f.fractions + f.fractions := by
  have hF := f.fractions_pos
  have hsame : (k + 1) * f.fractions + f.fractions = k * f.fractions + 2 * f.fractions := by ring
  obtain ⟨n, hn⟩ : ∃ n, 2 * f.fractions = n + 1 := ⟨2 * f.fractions - 1, by omega⟩
  have hpred : f.steps ((k + 1) * f.fractions + f.fractions - 1) = n * 2 ^ k := by
    rw [hsame, hn, ← Nat.add_assoc, Nat.add_sub_cancel]
    exact steps_eq (by omega) (by omega)
  have hbelow : (n * 2 ^ k + f.fractions * 2 ^ (k + 1)) * den + den * 2 ^ k =
      2 * (2 * f.fractions * (den * 2 ^ k)) := by
    calc _ = (2 * f.fractions + (n + 1)) * (den * 2 ^ k) := by ring
      _ = _ := by rw [← hn]; ring
  have hdouble : den * 2 ^ (k + 1) = 2 * (den * 2 ^ k) := by ring
  have hrange : f.fractions * (den * 2 ^ (k + 1)) = 2 * (f.fractions * (den * 2 ^ k)) := by ring
  have hstep : 0 < den * 2 ^ k := Nat.mul_pos hden (Nat.pow_pos (by decide))
  have hunit : den * 2 ^ k ≤ f.fractions * (den * 2 ^ k) := Nat.le_mul_of_pos_left _ hF
  rw [hpred] at hlow
  rw [hrange, hdouble] at hhigh
  rw [Nat.mul_assoc] at hbelow
  -- Below the power of two a quotient has the lower exponent, and is rounded up to the end of its range.
  by_cases hside : num < 2 * (f.fractions * (den * 2 ^ k))
  · rw [hsame] at hword ⊢
    refine nearest_of_range hden hword (.inr (by omega)) hside ?_ ?_ (.inl (by omega))
    · rw [Nat.mul_assoc]
      omega
    · rw [Nat.mul_assoc]
      omega
  · refine nearest_of_range hden hword (.inr ?_) ?_ ?_ ?_ (.inl heven)
    all_goals rw [hrange]
    · omega
    · omega
    all_goals rw [hdouble]; omega

theorem fractions_even (hf : 0 < f.fraction) : f.fractions % 2 = 0 := by
  obtain ⟨n, hn⟩ := Nat.exists_eq_succ_of_ne_zero (Nat.pos_iff_ne_zero.mp hf)
  rw [fractions, hn]
  change 2 ^ n * 2 % 2 = 0
  exact Nat.mul_mod_left _ _

-- What lies between the middles of a word and its neighbours is rounded to the word, an even word if
-- the middles count.
theorem nearest_eq (hf : 0 < f.fraction) {word : Nat} (hpos : 0 < word) (hword : word ≤ f.infinity)
    (hden : 0 < den) (hlow : (f.steps (word - 1) + f.steps word) * den ≤ 2 * num)
    (hhigh : 2 * num ≤ (f.steps word + f.steps (word + 1)) * den)
    (htie : word % 2 = 0 ∨ (f.steps (word - 1) + f.steps word) * den < 2 * num ∧
      2 * num < (f.steps word + f.steps (word + 1)) * den) :
    f.nearest num den = word := by
  have heven := fractions_even hf
  obtain ⟨k, m, rfl, hm, hk⟩ := f.exists_mantissa word
  have hparity : (k * f.fractions + m) % 2 = m % 2 := by
    rw [Nat.add_mod, Nat.mul_mod, heven, Nat.mul_zero, Nat.zero_mod, Nat.zero_add, Nat.mod_mod]
  have hsucc : f.steps (k * f.fractions + m + 1) = (m + 1) * 2 ^ k := by
    rw [Nat.add_assoc]
    exact steps_eq (by omega) (by omega)
  have habove : (m * 2 ^ k + (m + 1) * 2 ^ k) * den = 2 * (m * (den * 2 ^ k)) + den * 2 ^ k := by ring
  rw [hsucc, steps_eq (by omega) hk, habove] at hhigh htie
  rw [steps_eq (by omega) hk] at hlow
  rw [hparity] at htie
  by_cases hbound : k = 0 ∨ f.fractions < m
  · exact nearest_of_inner hden hpos hword hm hbound hlow hhigh htie
  · rw [not_or, Nat.not_lt] at hbound
    obtain ⟨j, rfl⟩ := Nat.exists_eq_succ_of_ne_zero hbound.1
    obtain rfl : m = f.fractions := by omega
    exact nearest_of_power hden heven hword hlow hhigh

-- A number below a power of two is rounded to no more than the word of that power.
theorem nearest_le (h : num / den < 2 ^ (f.fraction + (k + 1))) :
    f.nearest num den ≤ (k + 2) * f.fractions := by
  let e := (num / den).log2 - f.fraction
  have he : e ≤ k := by
    by_cases hzero : num / den = 0
    · change (num / den).log2 - f.fraction ≤ k
      rw [hzero]
      exact Nat.le_trans (Nat.sub_le _ _) (Nat.zero_le k)
    · have hlog := (Nat.log2_lt hzero).mpr h
      omega
  have hquotient : num / (den * 2 ^ e) < 2 * f.fractions := by
    rw [← Nat.div_div_eq_div_mul]
    refine Nat.div_lt_of_lt_mul ?_
    calc num / den
      _ < 2 ^ ((num / den).log2 + 1) := Nat.lt_log2_self
      _ ≤ 2 ^ (e + f.fraction + 1) := Nat.pow_le_pow_right (by decide) (by omega)
      _ = 2 ^ e * (2 * f.fractions) := by
        rw [Nat.pow_succ, Nat.pow_add, Nat.mul_assoc, Nat.mul_comm 2]
        rfl
  have hround := roundHalfEven_le num (den * 2 ^ e)
  have hexponent : e * f.fractions ≤ k * f.fractions := Nat.mul_le_mul_right _ he
  change min f.infinity (e * f.fractions + roundHalfEven num (den * 2 ^ e)) ≤ _
  rw [Nat.add_mul]
  omega

-- A word below that of a power of two is of a number below it.
theorem steps_lt {word : Nat} (h : word < (k + 1) * f.fractions) : f.steps word < 2 ^ (f.fraction + k) := by
  have hsteps : f.steps (k * f.fractions + f.fractions) = f.fractions * 2 ^ k :=
    steps_eq (by omega) (.inr (Nat.le_refl _))
  rw [← Nat.succ_mul] at hsteps
  have hlt := f.strictMono_steps h
  rw [hsteps] at hlt
  rw [Nat.pow_add]
  exact hlt

end Format

end SampleStream.Binary
