import SampleStream.Proofs.Approximation
import SampleStream.Proofs.Precision

/-!
# Reading a sample through double precision

The shortest decimal of a sample is read as a double, and that is rounded to a sample again. It is the same sample
(`Sample.narrow_scaled`), since the decimal is either a middle of samples, which no rounding moves, or so far from the
middles that two roundings do not move it past one (`Sample.decimal_margin`). Decimals of eight digits are far from
every middle of which they are none. A decimal of more digits is far from the middles around it, as the nearest one to
the sample of its grid, which is finer than the gaps between samples.
-/

namespace SampleStream

theorem Decimal.toRat_strip (fuel : Nat) (d : Decimal) : (d.strip fuel).toRat = d.toRat := by
  induction fuel generalizing d with
  | zero => rfl
  | succ fuel ih =>
    rw [strip]
    split
    · rename_i hzero
      obtain ⟨n, hn⟩ : 10 ∣ d.digits := Nat.dvd_of_mod_eq_zero hzero.1
      rw [ih, toRat, toRat, hn, Nat.mul_div_cancel_left n (by decide), zpow_add_one₀ (by norm_num)]
      push_cast
      ring
    · rfl

namespace Interval

variable {i : Interval} {tie : Tie} {exponent : Int} {d : Decimal}

-- A number on one side of the center that is outside is beyond the end there.
theorem has_or_le_low (hscale : 0 < i.scale) (hhigh : i.middle < i.high) {x : ℚ} (h : x ≤ i.center) :
    i.Has x ∨ x * i.scale ≤ i.low := by
  have hmiddle : x * i.scale ≤ i.middle := by
    rw [← center_mul_scale hscale]
    exact mul_le_mul_of_nonneg_right h (Nat.cast_nonneg _)
  have hend : (i.middle : ℚ) < i.high := Nat.cast_lt.mpr hhigh
  rw [or_iff_not_imp_right, not_le]
  intro hin
  exact ⟨hin.le, hmiddle.trans hend.le, .inr ⟨hin, lt_of_le_of_lt hmiddle hend⟩⟩

theorem has_or_high_le (hscale : 0 < i.scale) (hlow : i.low < i.middle) {x : ℚ} (h : i.center < x) :
    i.Has x ∨ i.high ≤ x * i.scale := by
  have hmiddle : i.middle < x * i.scale := by
    rw [← center_mul_scale hscale]
    exact mul_lt_mul_of_pos_right h (Nat.cast_pos.mpr hscale)
  have hend : (i.low : ℚ) < i.middle := Nat.cast_lt.mpr hlow
  rw [or_iff_not_imp_right, not_le]
  intro hin
  exact ⟨(hend.trans hmiddle).le, hin.le, .inr ⟨hend.trans hmiddle, hin⟩⟩

/-- Where a decimal that is found on a grid lies, and what keeps its neighbour on the other side of the center from
being found. -/
theorem onGrid_sides (hscale : 0 < i.scale) (hlow : i.low < i.middle) (hhigh : i.middle < i.high)
    (h : i.onGrid tie exponent = some d) :
    d.toRat * i.scale ≤ i.middle ∧ (i.high ≤ d.toRat * i.scale + 10 ^ exponent * i.scale ∨
        2 * i.middle ≤ 2 * (d.toRat * i.scale) + 10 ^ exponent * i.scale) ∨
      i.middle < d.toRat * i.scale ∧ (d.toRat * i.scale ≤ i.low + 10 ^ exponent * i.scale ∨
        2 * (d.toRat * i.scale) ≤ 2 * i.middle + 10 ^ exponent * i.scale) := by
  obtain ⟨hbelow, habove⟩ := below_spec hscale exponent
  have hlower := has_or_le_low hscale hhigh hbelow
  have hupper := has_or_high_le hscale hlow habove
  have hscale' : (0 : ℚ) < i.scale := Nat.cast_pos.mpr hscale
  have hbelow' := mul_le_mul_of_nonneg_right hbelow hscale'.le
  have habove' := mul_lt_mul_of_pos_right habove hscale'
  rw [center_mul_scale hscale] at hbelow' habove'
  have hnext : ((i.below exponent + 1 : ℕ) * 10 ^ exponent * i.scale : ℚ) =
      i.below exponent * 10 ^ exponent * i.scale + 10 ^ exponent * i.scale := by
    push_cast
    ring
  have htwice : 2 * i.center * i.scale = 2 * i.middle := by rw [mul_assoc, center_mul_scale hscale]
  have hhalfway : ((2 * i.below exponent + 1) * 10 ^ exponent * i.scale : ℚ) =
      2 * (i.below exponent * 10 ^ exponent * i.scale) + 10 ^ exponent * i.scale := by
    ring
  obtain ⟨rfl, hwhy⟩ | ⟨rfl, hwhy⟩ := onGrid_cases hscale h
  · refine .inl ⟨hbelow', hwhy.imp (fun hout => ?_) fun hhalf => ?_⟩
    · rw [Decimal.toRat, ← hnext]
      exact hupper.resolve_left hout
    · have hle := mul_le_mul_of_nonneg_right (hhalf.elim le_of_lt fun htie => le_of_eq htie.1) hscale'.le
      rwa [hhalfway, htwice] at hle
  · refine .inr ⟨habove', ?_⟩
    rw [Decimal.toRat, hnext]
    refine hwhy.imp (fun hout => ?_) fun hhalf => ?_
    · exact add_le_add_left (hlower.resolve_left hout) _
    · have hle := mul_le_mul_of_nonneg_right (hhalf.elim le_of_lt fun htie => ge_of_eq htie.1) hscale'.le
      rw [hhalfway, htwice] at hle
      linarith

/-- A decimal with more digits than gaps between samples need is far from both ends. -/
theorem far_of_onGrid (hscale : 0 < i.scale) (hlow : i.low < i.middle) (hhigh : i.middle < i.high)
    (hbelow : (i.middle : ℚ) ≤ 2 ^ 25 * (i.middle - i.low))
    (habove : (i.middle : ℚ) ≤ (2 ^ 25 - 2) * (i.high - i.middle)) (h : i.onGrid tie exponent = some d)
    (hdigits : 2 ^ 24 < d.digits) : 17 * i.low < 2 ^ 56 * (d.toRat * i.scale - i.low) ∧
      17 * i.high < 2 ^ 56 * (i.high - d.toRat * i.scale) := by
  have hsides := onGrid_sides hscale hlow hhigh h
  have hstep : (0 : ℚ) < 10 ^ exponent * i.scale := mul_pos (zpow_pos (by norm_num) _) (Nat.cast_pos.mpr hscale)
  have hpoint : (2 ^ 24 + 1) * (10 ^ exponent * i.scale) ≤ d.toRat * i.scale := by
    have hexponent : d.exponent = exponent := by
      obtain ⟨rfl, -⟩ | ⟨rfl, -⟩ := onGrid_cases hscale h <;> rfl
    have hmany : (2 ^ 24 + 1 : ℚ) ≤ d.digits := by exact_mod_cast hdigits
    rw [Decimal.toRat, hexponent, mul_assoc]
    exact mul_le_mul_of_nonneg_right hmany hstep.le
  have hpositive : (0 : ℚ) ≤ i.low := Nat.cast_nonneg _
  generalize d.toRat * i.scale = point at *
  generalize (10 ^ exponent * i.scale : ℚ) = step at *
  obtain ⟨hside, hout | hhalf⟩ | ⟨hside, hout | hhalf⟩ := hsides
  all_goals constructor <;> linarith

end Interval

namespace Sample

open Binary

variable {s : Sample} {tie : Tie} {x y : ℚ}

-- The middle of two words is an odd number of powers of two.
theorem exists_middle {word : Nat} (hword : word < single.infinity) : ∃ mantissa k, 0 < mantissa ∧ mantissa < 2 ^ 25 ∧
    (k = 0 ∨ 2 ^ 24 < mantissa) ∧ k ≤ 253 ∧ single.steps word + single.steps (word + 1) = mantissa * 2 ^ k := by
  obtain ⟨k, m, rfl, hm, hk, hsteps, hnext⟩ := single.exists_gap word
  have hF : single.fractions = 2 ^ 23 := rfl
  have hinfinity : single.infinity = 255 * 2 ^ 23 := rfl
  rw [hF] at hm hk hword
  refine ⟨2 * m + 1, k, by omega, by omega, by omega, by omega, ?_⟩
  rw [hsteps, hnext]
  ring

theorem exists_middle_of_end (hpos : 0 < s.word) (hs : s.word < single.infinity) {b : Nat}
    (hb : b = s.interval.low ∨ b = s.interval.high) : ∃ mantissa k, 0 < mantissa ∧ mantissa < 2 ^ 25 ∧
      (k = 0 ∨ 2 ^ 24 < mantissa) ∧ k ≤ 253 ∧ b = mantissa * 2 ^ k := by
  obtain rfl | rfl := hb
  · obtain ⟨mantissa, k, h⟩ := exists_middle (show s.word - 1 < single.infinity by omega)
    rw [Nat.sub_add_cancel hpos] at h
    exact ⟨mantissa, k, h⟩
  · exact exists_middle hs

theorem has_decimal (tie : Tie) (hpos : 0 < s.word) : s.interval.Has (s.decimal tie).toRat :=
  (Interval.contains_iff_has _).mp (contains_decimal tie hpos)

theorem one_le_decimal (tie : Tie) (hpos : 0 < s.word) : 1 ≤ (s.decimal tie).toRat * s.interval.scale := by
  refine le_trans ?_ (has_decimal tie hpos).1
  have hsteps : single.steps 0 < s.steps := single.strictMono_steps hpos
  have hlow : 1 ≤ s.interval.low := by
    change 1 ≤ single.steps (s.word - 1) + s.steps
    omega
  exact_mod_cast hlow

theorem middle_le_gaps (hpos : 0 < s.word) :
    (s.interval.middle : ℚ) ≤ 2 ^ 25 * (s.interval.middle - s.interval.low) ∧
      (s.interval.middle : ℚ) ≤ (2 ^ 25 - 2) * (s.interval.high - s.interval.middle) := by
  have hlow : (s.interval.low : ℚ) = single.steps (s.word - 1) + s.steps := Nat.cast_add _ _
  have hbelow := single.steps_succ_le_gaps (s.word - 1)
  rw [Nat.sub_add_cancel hpos] at hbelow
  have habove := single.steps_succ_le_gaps s.word
  have hF : 2 * single.fractions = 2 ^ 24 := rfl
  rw [hF, ← Nat.cast_le (α := ℚ)] at hbelow habove
  push_cast at hbelow habove
  rw [hlow, middle_interval, high_interval, steps]
  constructor <;> linarith

-- The shortest decimal is found on a grid, and stripped of zeros. It has nine digits at most.
theorem exists_onGrid_decimal (tie : Tie) (hpos : 0 < s.word) (hs : s.word < single.infinity) :
    ∃ exponent d, s.interval.onGrid tie exponent = some d ∧ s.decimal tie = d.strip 9 ∧
      (Numeral.digits (s.decimal tie).digits).length ≤ 9 := by
  obtain ⟨hlow, hhigh⟩ := center_range hpos hs
  obtain ⟨hleading, habove⟩ := Interval.leadingExponent_spec (scale_interval_pos s) hlow hhigh
  have hnine := onGrid_nine hpos tie hleading
  have hzero : s.isZero = false := by
    rw [isZero, beq_eq_false_iff_ne]
    exact hpos.ne'
  rw [decimal, hzero, if_neg Bool.false_ne_true, Interval.shortest]
  split
  · rename_i d hfound
    obtain ⟨n, hmem, hn⟩ := List.exists_of_findSome?_eq_some hfound
    have hlt := List.mem_range.mp hmem
    exact ⟨_, d, hn, rfl, (Interval.length_strip_le (scale_interval_pos s) habove hlt hn).trans hlt⟩
  · rename_i hnone
    rw [List.findSome?_eq_none_iff] at hnone
    exact absurd (hnone 8 (List.mem_range.mpr (by decide))) hnine

/-- The decimals that are next to a middle. -/
def IsOutlier (x : ℚ) : Prop :=
  ∃ n, (n = 1 ∨ n = 2) ∧ x = (7038531 * n : ℕ) * 10 ^ (-32 : Int)

/-- The shortest decimal of a sample is an end of its interval or, but for outliers, far from both ends. -/
theorem decimal_margin (hpos : 0 < s.word) (hs : s.word < single.infinity) {b : Nat}
    (hb : b = s.interval.low ∨ b = s.interval.high) : (s.decimal tie).toRat * s.interval.scale = b ∨
      17 * (b : ℚ) < 2 ^ 56 * |(s.decimal tie).toRat * s.interval.scale - b| ∨ IsOutlier (s.decimal tie).toRat := by
  obtain ⟨exponent, d, hd, hdecimal, -⟩ := exists_onGrid_decimal tie hpos hs
  have hsame : (s.decimal tie).toRat = d.toRat := by rw [hdecimal, Decimal.toRat_strip]
  have hscale : (s.interval.scale : ℚ) = 2 ^ 150 := Nat.cast_pow 2 150
  by_cases hmany : 2 ^ 24 < d.digits
  · obtain ⟨hbelow, habove⟩ := middle_le_gaps hpos
    obtain ⟨hlow, hhigh⟩ := Interval.far_of_onGrid (scale_interval_pos s) (low_lt_middle hpos) (middle_lt_high s)
      hbelow habove hd hmany
    refine .inr (.inl ?_)
    rw [hsame]
    obtain rfl | rfl := hb
    · exact lt_of_lt_of_le hlow (mul_le_mul_of_nonneg_left (le_abs_self _) (by norm_num))
    · rw [abs_sub_comm]
      exact lt_of_lt_of_le hhigh (mul_le_mul_of_nonneg_left (le_abs_self _) (by norm_num))
  · have hdigits : (s.decimal tie).digits ≤ 2 ^ 24 := by
      rw [hdecimal]
      exact Nat.le_trans (d.digits_strip_le 9) (Nat.le_of_not_lt hmany)
    obtain ⟨mantissa, k, hmantissa, hmost, hk, hk', hmiddle⟩ := exists_middle_of_end hpos hs hb
    have hdigits' : 0 < (s.decimal tie).digits := by
      refine Nat.pos_of_ne_zero fun hzero => ?_
      have hnone : (s.decimal tie).toRat = 0 := by rw [Decimal.toRat, hzero, Nat.cast_zero, zero_mul]
      have hone := one_le_decimal tie hpos
      rw [hnone, zero_mul] at hone
      linarith
    rw [hscale, hmiddle]
    exact Decimal.eq_or_far hdigits' hdigits hmantissa hmost hk hk'

theorem has_of_close (hx : s.interval.Has x) (hclose : Close 17 x y)
    (hmargin : ∀ b, b = s.interval.low ∨ b = s.interval.high → 17 * (b : ℚ) < 2 ^ 56 * |x * s.interval.scale - b|) :
    s.interval.Has y := by
  have hscale : (0 : ℚ) < s.interval.scale := Nat.cast_pos.mpr (scale_interval_pos s)
  have hbelow := mul_le_mul_of_nonneg_right hclose.below hscale.le
  have habove := mul_le_mul_of_nonneg_right hclose.above hscale.le
  have hlow := hmargin _ (.inl rfl)
  have hhigh := hmargin _ (.inr rfl)
  rw [abs_of_nonneg (sub_nonneg.mpr hx.1)] at hlow
  rw [abs_sub_comm, abs_of_nonneg (sub_nonneg.mpr hx.2.1)] at hhigh
  have hleast : (s.interval.low : ℚ) < y * s.interval.scale := by linarith
  have hmost : y * s.interval.scale < (s.interval.high : ℚ) := by linarith
  exact ⟨hleast.le, hmost.le, .inr ⟨hleast, hmost⟩⟩

/-- A double that lies in the interval of a sample is rounded to that sample. -/
theorem narrow_of_has (hpos : 0 < s.word) (hs : s.word < single.infinity) {word : Nat}
    (h : s.interval.Has (double.value word)) : narrow word = s.word := by
  have hone : double.one = single.one * Nat.pow 2 (double.depth - single.depth) := by decide +kernel
  have hden : 0 < Nat.pow 2 (double.depth - single.depth) := by decide +kernel
  unfold narrow
  generalize Nat.pow 2 (double.depth - single.depth) = den at *
  have hden' : (0 : ℚ) < den := Nat.cast_pos.mpr hden
  have hvalue : ((2 * double.steps word : ℕ) : ℚ) = double.value word * s.interval.scale * den := by
    rw [interval_scale, Nat.cast_mul, ← double.value_mul_one word, hone]
    push_cast
    ring
  have hle (b : Nat) : b * den ≤ 2 * double.steps word ↔ (b : ℚ) ≤ double.value word * s.interval.scale := by
    rw [← Nat.cast_le (α := ℚ), hvalue, Nat.cast_mul, mul_le_mul_iff_left₀ hden']
  have hge (b : Nat) : 2 * double.steps word ≤ b * den ↔ double.value word * s.interval.scale ≤ (b : ℚ) := by
    rw [← Nat.cast_le (α := ℚ), hvalue, Nat.cast_mul, mul_le_mul_iff_left₀ hden']
  obtain ⟨hlow, hhigh, hends⟩ := h
  refine Format.nearest_eq (by decide) hpos hs.le hden ((hle s.interval.low).mpr hlow)
    ((hge s.interval.high).mpr hhigh) (hends.imp beq_iff_eq.mp fun hinner => ⟨?_, ?_⟩)
  · exact Nat.lt_of_not_le fun hbeyond => absurd ((hge s.interval.low).mp hbeyond) (not_le.mpr hinner.1)
  · exact Nat.lt_of_not_le fun hbeyond => absurd ((hle s.interval.high).mp hbeyond) (not_le.mpr hinner.2)

theorem decimal_eq_of_word_eq {t : Sample} (h : s.word = t.word) : s.decimal tie = t.decimal tie := by
  rw [decimal, decimal, interval, interval, isZero, isZero, steps, steps, h]

theorem decimal_le (tie : Tie) (hpos : 0 < s.word) (hs : s.word < single.infinity) :
    (s.decimal tie).toRat ≤ 2 ^ 128 := by
  have hscale : (0 : ℚ) < s.interval.scale := Nat.cast_pos.mpr (scale_interval_pos s)
  refine le_of_mul_le_mul_right ((has_decimal tie hpos).2.1.trans ?_) hscale
  have hmono := single.strictMono_steps.monotone
  have hhigh : s.interval.high ≤ 2 * single.steps single.infinity := by
    have hthis : s.steps ≤ single.steps single.infinity := hmono hs.le
    have hnext : single.steps (s.word + 1) ≤ single.steps single.infinity := hmono hs
    change s.steps + single.steps (s.word + 1) ≤ _
    omega
  have hscale' : 2 * single.steps single.infinity = 2 ^ 128 * s.interval.scale := by
    rw [steps_infinity, interval_scale, Nat.mul_left_comm]
  rw [hscale'] at hhigh
  exact_mod_cast hhigh

-- The two decimals next to middles are on the right side of them when they are read.
theorem all_outliers : ∀ tie ∈ [Tie.up, .even], ∀ n ∈ [1, 2],
    let d := (ofWord false (single.ofDecimal (7038531 * n) (-32))).decimal tie
    (Json.Number.scaled (double.ofDecimal d.digits 0) d.exponent 4).map narrow =
      some (single.ofDecimal (7038531 * n) (-32)) := by
  decide +kernel

theorem narrow_outlier (hpos : 0 < s.word) (hs : s.word < single.infinity) (h : IsOutlier (s.decimal tie).toRat) :
    (Json.Number.scaled (double.ofDecimal (s.decimal tie).digits 0) (s.decimal tie).exponent 4).map narrow =
      some s.word := by
  obtain ⟨n, hn, h⟩ := h
  have hhas := has_decimal tie hpos
  rw [h] at hhas
  have hword : single.ofDecimal (7038531 * n) (-32) = s.word := by
    rw [Format.ofDecimal_eq single ⟨7038531 * n, -32⟩]
    exact nearest_of_contains hpos hs ((Interval.contains_iff_has ⟨7038531 * n, -32⟩).mpr hhas)
  have hread := all_outliers tie (by cases tie <;> decide) n (by simpa using hn)
  have hsame : (ofWord false s.word).decimal tie = s.decimal tie := decimal_eq_of_word_eq (word_ofWord false hs.le)
  dsimp only at hread
  rwa [hword, hsame] at hread

section

variable (hpos : 0 < s.word) {digits : Nat} {exponent : Int} (hx : digits * 10 ^ exponent = (s.decimal tie).toRat)

include hpos hx

theorem pos_of_decimal : 0 < digits := by
  refine Nat.pos_of_ne_zero ?_
  rintro rfl
  have hone := one_le_decimal tie hpos
  rw [← hx, Nat.cast_zero, zero_mul, zero_mul] at hone
  linarith

theorem not_isOutlier_of_le (hlarge : -1 ≤ exponent) : ¬IsOutlier (s.decimal tie).toRat := by
  rintro ⟨n, hn, h⟩
  have hone : (1 : ℚ) ≤ digits := by exact_mod_cast pos_of_decimal hpos hx
  have hpow : (10 : ℚ) ^ (-1 : Int) ≤ 10 ^ exponent := zpow_le_zpow_right₀ (by norm_num) hlarge
  have hleast := mul_le_mul hone hpow (by norm_num) (Nat.cast_nonneg _)
  rw [hx, h] at hleast
  obtain rfl | rfl := hn <;> norm_num at hleast

variable (hs : s.word < single.infinity) (hdigits : digits < 2 ^ 53)

include hs hdigits

theorem natAbs_le_of_decimal : exponent.natAbs ≤ 62 := by
  have hone : (1 : ℚ) ≤ digits := by exact_mod_cast pos_of_decimal hpos hx
  have hmost : (digits : ℚ) ≤ 2 ^ 53 := by exact_mod_cast hdigits.le
  have hten : (0 : ℚ) < 10 ^ exponent := zpow_pos (by norm_num) _
  by_contra hfar
  obtain hlow | hhigh : exponent ≤ -63 ∨ 63 ≤ exponent := by omega
  · have hpow : (10 : ℚ) ^ exponent ≤ 10 ^ (-63 : Int) := zpow_le_zpow_right₀ (by norm_num) hlow
    have hsmall := mul_le_mul hmost hpow hten.le (by norm_num)
    have hleast := one_le_decimal tie hpos
    have hscale : (s.interval.scale : ℚ) = 2 ^ 150 := Nat.cast_pow 2 150
    rw [hx] at hsmall
    rw [hscale] at hleast
    norm_num at hsmall
    linarith
  · have hpow : (10 : ℚ) ^ (63 : Int) ≤ 10 ^ exponent := zpow_le_zpow_right₀ (by norm_num) hhigh
    have hlarge := mul_le_mul hone hpow (by norm_num) (Nat.cast_nonneg _)
    rw [hx] at hlarge
    have hlargest := decimal_le tie hpos hs
    norm_num at hlarge hlargest
    linarith

-- A decimal that is a middle is not moved when it is read.
theorem value_of_middle {word b : Nat} (hscales : Json.Number.Scales digits exponent word)
    (hb : b = s.interval.low ∨ b = s.interval.high) (heq : (s.decimal tie).toRat * s.interval.scale = b) :
    double.value word = (s.decimal tie).toRat := by
  obtain ⟨mantissa, k, -, hmantissa, -, -, rfl⟩ := exists_middle_of_end hpos hs hb
  have hscale : (s.interval.scale : ℚ) = 2 ^ 150 := Nat.cast_pow 2 150
  rw [← hx]
  refine hscales.exact (pos_of_decimal hpos hx) hdigits (natAbs_le_of_decimal hpos hx hs hdigits)
    (show mantissa < 2 ^ 53 by omega) (k := k + 924) ?_
  have hdepth : double.depth = 150 + 924 := rfl
  rw [Format.cast_one, hx, hdepth, pow_add, pow_add, ← mul_assoc, ← hscale, heq, Nat.cast_mul,
    Nat.cast_pow, Nat.cast_ofNat, mul_assoc]

/-- The shortest decimal of a sample is read as a double that is rounded to the sample. Zeros may be put behind the
digits as far as the first place after the point. -/
theorem narrow_scaled (hlast : exponent = (s.decimal tie).exponent ∨ -1 ≤ exponent) :
    (Json.Number.scaled (double.ofDecimal digits 0) exponent 4).map narrow = some s.word := by
  have hdigits' := pos_of_decimal hpos hx
  have hexponent := natAbs_le_of_decimal hpos hx hs hdigits
  have hten : (0 : ℚ) < 10 ^ exponent := zpow_pos (by norm_num) _
  by_cases houtlier : IsOutlier (s.decimal tie).toRat
  · obtain rfl | hlarge := hlast
    · obtain rfl : digits = (s.decimal tie).digits := by
        rw [Decimal.toRat, mul_left_inj' hten.ne'] at hx
        exact_mod_cast hx
      exact narrow_outlier hpos hs houtlier
    · exact absurd houtlier (not_isOutlier_of_le hpos hx hlarge)
  obtain ⟨word, hscaled, hscales⟩ := Json.Number.exists_scales hdigits' hdigits hexponent
  have hclose := hscales.close hdigits' hdigits hexponent
  rw [hx] at hclose
  rw [hscaled, Option.map_some, Option.some_inj]
  refine narrow_of_has hpos hs ?_
  by_cases hend : ∃ b, (b = s.interval.low ∨ b = s.interval.high) ∧ (s.decimal tie).toRat * s.interval.scale = b
  · obtain ⟨b, hb, heq⟩ := hend
    rw [value_of_middle hpos hx hs hdigits hscales hb heq]
    exact has_decimal tie hpos
  · refine has_of_close (has_decimal tie hpos) hclose fun b hb => ?_
    obtain heq | hfar | hout := decimal_margin hpos hs hb
    · exact absurd ⟨b, hb, heq⟩ hend
    · exact hfar
    · exact absurd hout houtlier

end

end Sample

end SampleStream
