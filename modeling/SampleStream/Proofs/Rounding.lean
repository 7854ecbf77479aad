import Mathlib.Algebra.Order.Field.Basic
import Mathlib.Algebra.Order.Ring.Abs
import Mathlib.Algebra.Order.Ring.Rat
import Mathlib.Data.Rat.Cast.Order
import Mathlib.Tactic.Linarith
import SampleStream.Proofs.Literal

/-!
# Correct rounding

A quotient is rounded to the word whose middles with its neighbours enclose it (`Format.nearest_rounds`), and that
is the nearest word (`Format.Rounds.dist_le`), the even one of two (`Format.Rounds.dist_lt`). So what is read from a
decimal is the sample nearest to it, by all its digits (`Sample.isNearest_ofDecimal`), and it is the only such sample
of its sign (`Sample.IsNearest.unique`).
-/

namespace SampleStream

namespace Binary.Format

variable {f : Format} {num den word other k : Nat}

/-- The quotient, in smallest steps, lies between the middles of the word and its neighbours, which only belong to an
even word. Infinity counts as the power of two after the largest number, and nothing is above it. -/
structure Rounds (f : Format) (num den word : Nat) : Prop where
  le : word ≤ f.infinity
  low : 0 < word → (f.steps (word - 1) + f.steps word) * den ≤ 2 * num
  high : word < f.infinity → 2 * num ≤ (f.steps word + f.steps (word + 1)) * den
  odd : word % 2 = 1 → (0 < word → (f.steps (word - 1) + f.steps word) * den < 2 * num) ∧
    (word < f.infinity → 2 * num < (f.steps word + f.steps (word + 1)) * den)

-- The least word whose upper middle is not passed.
theorem exists_rounds (f : Format) (num den : Nat) : ∃ word, f.Rounds num den word := by
  let fits (word : Nat) : Prop := f.infinity ≤ word ∨
    2 * num < (f.steps word + f.steps (word + 1)) * den ∨
    2 * num = (f.steps word + f.steps (word + 1)) * den ∧ word % 2 = 0
  have hexists : ∃ word, fits word := ⟨f.infinity, .inl (Nat.le_refl _)⟩
  classical
  have hfits : fits (Nat.find hexists) := Nat.find_spec hexists
  have hleast : ∀ n < Nat.find hexists, ¬fits n := fun n hn => Nat.find_min hexists hn
  have hle : Nat.find hexists ≤ f.infinity := Nat.find_min' hexists (.inl (Nat.le_refl _))
  generalize Nat.find hexists = word at hfits hleast hle
  have hbelow (hpos : 0 < word) : (f.steps (word - 1) + f.steps word) * den ≤ 2 * num ∧
      (word % 2 = 1 → (f.steps (word - 1) + f.steps word) * den < 2 * num) := by
    have hnot := hleast (word - 1) (by omega)
    have hsucc : word - 1 + 1 = word := by omega
    simp only [fits, hsucc, not_or, not_and] at hnot
    omega
  have habove (hlt : word < f.infinity) : 2 * num ≤ (f.steps word + f.steps (word + 1)) * den ∧
      (word % 2 = 1 → 2 * num < (f.steps word + f.steps (word + 1)) * den) := by
    have hor := hfits.resolve_left (Nat.not_le.mpr hlt)
    omega
  exact ⟨word, hle, fun hpos => (hbelow hpos).1, fun hlt => (habove hlt).1,
    fun hodd => ⟨fun hpos => (hbelow hpos).2 hodd, fun hlt => (habove hlt).2 hodd⟩⟩

section

variable (hf : 0 < f.fraction) (hinfinity : f.infinity = (k + 2) * f.fractions)

include hf

include hinfinity

theorem nearest_of_rounds (hden : 0 < den) (h : f.Rounds num den word) : f.nearest num den = word := by
  obtain ⟨hle, hlow, hhigh, hodd⟩ := h
  have hF := two_le_fractions hf
  have hsize : 2 ≤ f.infinity := by
    rw [hinfinity]
    exact Nat.le_trans hF (Nat.le_mul_of_pos_left _ (Nat.succ_pos _))
  obtain rfl | hpos := Nat.eq_zero_or_pos word
  · have hone : f.steps 0 + f.steps (0 + 1) = 1 := by
      rw [steps, steps, if_pos (by omega), if_pos (by omega)]
    have hhigh := hhigh (by omega)
    rw [hone, Nat.one_mul] at hhigh
    exact nearest_eq_zero hden hhigh
  obtain hlt | rfl := Nat.lt_or_eq_of_le hle
  · have htie : word % 2 = 0 ∨ word % 2 = 1 := by omega
    exact nearest_eq hf hpos hle hden (hlow hpos) (hhigh hlt)
      (htie.imp_right fun h => ⟨(hodd h).1 hpos, (hodd h).2 hlt⟩)
  · exact nearest_eq_infinity hf hinfinity hden (hlow hpos)

/-- Rounding gives the word whose middles enclose the quotient. -/
theorem nearest_rounds (hden : 0 < den) : f.Rounds num den (f.nearest num den) := by
  obtain ⟨word, h⟩ := f.exists_rounds num den
  rwa [nearest_of_rounds hf hinfinity hden h]

end

namespace Rounds

-- The middles as rationals.
theorem middle_le (h : f.Rounds num den word) (hden : 0 < den) (hlt : other < word) :
    (f.steps other + f.steps word : ℚ) ≤ 2 * (num / den) ∧
      (word % 2 = 1 → (f.steps other + f.steps word : ℚ) < 2 * (num / den)) := by
  have hpos : 0 < word := Nat.zero_lt_of_lt hlt
  have hmono : f.steps other ≤ f.steps (word - 1) := f.strictMono_steps.monotone (by omega)
  have hscale : (f.steps other + f.steps word) * den ≤ (f.steps (word - 1) + f.steps word) * den :=
    Nat.mul_le_mul_right den (Nat.add_le_add_right hmono _)
  have hden' : (0 : ℚ) < den := Nat.cast_pos.mpr hden
  rw [← mul_div_assoc, le_div_iff₀ hden', lt_div_iff₀ hden']
  constructor
  · exact_mod_cast Nat.le_trans hscale (h.low hpos)
  · intro hodd
    exact_mod_cast Nat.lt_of_le_of_lt hscale ((h.odd hodd).1 hpos)

theorem le_middle (h : f.Rounds num den word) (hden : 0 < den) (hlt : word < other) (hother : other ≤ f.infinity) :
    2 * (num / den) ≤ (f.steps word + f.steps other : ℚ) ∧
      (word % 2 = 1 → 2 * (num / den) < (f.steps word + f.steps other : ℚ)) := by
  have hmono : f.steps (word + 1) ≤ f.steps other := f.strictMono_steps.monotone hlt
  have hscale : (f.steps word + f.steps (word + 1)) * den ≤ (f.steps word + f.steps other) * den :=
    Nat.mul_le_mul_right den (Nat.add_le_add_left hmono _)
  have hden' : (0 : ℚ) < den := Nat.cast_pos.mpr hden
  have hinside : word < f.infinity := by omega
  rw [← mul_div_assoc, div_le_iff₀ hden', div_lt_iff₀ hden']
  constructor
  · exact_mod_cast Nat.le_trans (h.high hinside) hscale
  · intro hodd
    exact_mod_cast Nat.lt_of_lt_of_le ((h.odd hodd).2 hinside) hscale

/-- No word is nearer. -/
theorem dist_le (h : f.Rounds num den word) (hden : 0 < den) (hother : other ≤ f.infinity) :
    |(num / den : ℚ) - f.steps word| ≤ |(num / den : ℚ) - f.steps other| := by
  obtain hlt | rfl | hlt := Nat.lt_trichotomy other word
  · have hsteps : (f.steps other : ℚ) < f.steps word := by exact_mod_cast f.strictMono_steps hlt
    have hmiddle := (h.middle_le hden hlt).1
    have habs := le_abs_self ((num / den : ℚ) - f.steps other)
    exact abs_le.mpr ⟨by linarith, by linarith⟩
  · exact le_refl _
  · have hsteps : (f.steps word : ℚ) < f.steps other := by exact_mod_cast f.strictMono_steps hlt
    have hmiddle := (h.le_middle hden hlt hother).1
    have habs := neg_abs_le ((num / den : ℚ) - f.steps other)
    exact abs_le.mpr ⟨by linarith, by linarith⟩

/-- An odd word is nearer than any other. -/
theorem dist_lt (h : f.Rounds num den word) (hden : 0 < den) (hother : other ≤ f.infinity) (hne : other ≠ word)
    (hodd : word % 2 = 1) : |(num / den : ℚ) - f.steps word| < |(num / den : ℚ) - f.steps other| := by
  obtain hlt | heq | hlt := Nat.lt_trichotomy other word
  · have hsteps : (f.steps other : ℚ) < f.steps word := by exact_mod_cast f.strictMono_steps hlt
    have hmiddle := (h.middle_le hden hlt).2 hodd
    have habs := le_abs_self ((num / den : ℚ) - f.steps other)
    exact abs_lt.mpr ⟨by linarith, by linarith⟩
  · exact absurd heq hne
  · have hsteps : (f.steps word : ℚ) < f.steps other := by exact_mod_cast f.strictMono_steps hlt
    have hmiddle := (h.le_middle hden hlt hother).2 hodd
    have habs := neg_abs_le ((num / den : ℚ) - f.steps other)
    exact abs_lt.mpr ⟨by linarith, by linarith⟩

end Rounds

end Binary.Format

namespace Decimal

/-- The number of a decimal. -/
def toRat (d : Decimal) : ℚ :=
  d.digits * 10 ^ d.exponent

theorem power_eq (exponent : Int) : ((power exponent).1 : ℚ) = 10 ^ exponent * (power exponent).2 := by
  match exponent with
  | .ofNat n => simp [power]
  | .negSucc n =>
    rw [power, zpow_negSucc]
    simp

theorem numerator_eq (d : Decimal) : (d.numerator : ℚ) = d.toRat * d.denominator := by
  rw [numerator, denominator, toRat, Nat.cast_mul, power_eq, mul_assoc]

theorem toRat_parts (d : Decimal) :
    (Numeral.value (d.parts.1 ++ d.parts.2) : ℚ) * 10 ^ (-(d.parts.2.length : Int)) = d.toRat := by
  have hden : (d.denominator : ℚ) ≠ 0 := Nat.cast_ne_zero.mpr d.denominator_pos.ne'
  have hvalue : (Numeral.value (d.parts.1 ++ d.parts.2) : ℚ) * d.denominator =
      d.numerator * 10 ^ d.parts.2.length := by exact_mod_cast d.value_parts
  rw [numerator_eq, mul_right_comm, mul_left_inj' hden] at hvalue
  rw [hvalue, zpow_neg, zpow_natCast, mul_assoc, mul_inv_cancel₀ (by positivity), mul_one]

end Decimal

namespace Sample

open Binary

theorem negative_ofWord (negative : Bool) {word : Nat} (h : word ≤ single.infinity) :
    (ofWord negative word).negative = negative := by
  have hinfinity : single.infinity = 2139095040 := rfl
  have hsign : ((0x80000000 : UInt32) ≤ (ofWord negative word).bits) ↔
      2147483648 ≤ (ofWord negative word).bits.toNat := by
    rw [UInt32.le_iff_toNat_le]
    rfl
  unfold Sample.negative
  rw [Bool.eq_iff_iff, decide_eq_true_eq, hsign]
  unfold ofWord signWord
  rw [UInt32.toNat_ofNat']
  cases negative <;> simp <;> omega

theorem word_le_infinity {s : Sample} (h : s.isNaN = false) : s.word ≤ single.infinity := by
  rw [isNaN, decide_eq_false_iff_not] at h
  exact Nat.not_lt.mp h

/-- One, or minus one. -/
def unit (negative : Bool) : ℚ :=
  if negative then -1 else 1

@[simp] theorem abs_unit (negative : Bool) : |unit negative| = 1 := by
  cases negative <;> simp [unit]

theorem unit_not (negative : Bool) : unit (!negative) = -unit negative := by
  cases negative <;> simp [unit]

/-- The number that a sample stands for, unless it is a NaN. Infinity stands for the power of two after the largest
finite number, as it does for rounding. -/
def number (s : Sample) : ℚ :=
  unit s.negative * (s.steps / single.one)

/-- The sample is nearest to the number, ties to the even word. -/
structure IsNearest (x : ℚ) (s : Sample) : Prop where
  isNaN : s.isNaN = false
  nearest : ∀ t : Sample, t.isNaN = false → |x - s.number| ≤ |x - t.number|
  even : ∀ t : Sample, t.isNaN = false → t.number ≠ s.number → |x - s.number| = |x - t.number| → s.word % 2 = 0

theorem one_pos : (0 : ℚ) < single.one :=
  Nat.cast_pos.mpr (Nat.pow_pos (by decide))

theorem abs_number (s : Sample) : |s.number| = s.steps / single.one := by
  rw [number, abs_mul, abs_unit, one_mul, abs_of_nonneg (div_nonneg (Nat.cast_nonneg _) one_pos.le)]

-- The sign is the same on both sides, and samples of the other sign are no nearer.
theorem isNearest_ofWord (negative : Bool) {num den word : Nat} (hden : 0 < den) (h : single.Rounds num den word) :
    IsNearest (unit negative * (num / den / single.one)) (ofWord negative word) := by
  have hword := word_ofWord negative h.le
  have hone := one_pos
  have hquotient : (0 : ℚ) ≤ num / den := div_nonneg (Nat.cast_nonneg _) (Nat.cast_nonneg _)
  have hnumber : (ofWord negative word).number = unit negative * (single.steps word / single.one) := by
    rw [number, steps, negative_ofWord negative h.le, hword]
  have hdist : |unit negative * (num / den / single.one) - (ofWord negative word).number| =
      |(num / den : ℚ) - single.steps word| / single.one := by
    rw [hnumber, ← mul_sub, ← sub_div, abs_mul, abs_unit, one_mul, abs_div, abs_of_pos hone]
  have hfar (t : Sample) : |(num / den : ℚ) - t.steps| / single.one ≤
      |unit negative * (num / den / single.one) - t.number| := by
    have habs := abs_abs_sub_abs_le (unit negative * (num / den / single.one)) t.number
    rwa [abs_mul, abs_unit, one_mul, abs_number, abs_of_nonneg (div_nonneg hquotient hone.le), ← sub_div, abs_div,
      abs_of_pos hone] at habs
  refine ⟨?_, fun t ht => ?_, fun t ht hne heq => ?_⟩
  · rw [isNaN, hword, decide_eq_false_iff_not, Nat.not_lt]
    exact h.le
  · rw [hdist]
    exact le_trans ((div_le_div_iff_of_pos_right hone).mpr (h.dist_le hden (word_le_infinity ht))) (hfar t)
  · rw [hword]
    by_contra hodd
    replace hodd : word % 2 = 1 := by omega
    rw [hdist] at heq
    by_cases hsame : t.word = word
    · -- the other sample of the word, on the other side of zero
      have hother : t.negative = !negative := by
        have hsign : t.negative ≠ negative := by
          intro hsign
          rw [number, steps, hsign, hsame, hnumber] at hne
          exact hne rfl
        rwa [← Bool.eq_not] at hsign
      have hpos : (0 : ℚ) < single.steps word := by
        have hlt := single.strictMono_steps (show 0 < word by omega)
        exact_mod_cast Nat.zero_lt_of_lt hlt
      have hopposite : |unit negative * (num / den / single.one) - t.number| =
          (num / den + single.steps word) / single.one := by
        rw [number, steps, hother, hsame, unit_not, neg_mul, sub_neg_eq_add, ← mul_add, ← add_div, abs_mul, abs_unit,
          one_mul, abs_of_nonneg (div_nonneg (by linarith) hone.le)]
      have hzero := h.dist_le hden (Nat.zero_le single.infinity)
      have hnone : single.steps 0 = 0 := rfl
      rw [hnone, Nat.cast_zero, sub_zero, abs_of_nonneg hquotient] at hzero
      rw [hopposite, div_left_inj' hone.ne'] at heq
      linarith
    · have hlt := h.dist_lt hden (word_le_infinity ht) hsame hodd
      rw [← div_lt_div_iff_of_pos_right hone] at hlt
      exact absurd heq (ne_of_lt (lt_of_lt_of_le hlt (hfar t)))

-- What lies between two numbers that are equally far is nearer.
theorem dist_lt_of_between {x a b c : ℚ} (h : |x - a| = |x - b|) (hc : a < c ∧ c < b ∨ b < c ∧ c < a) :
    |x - c| < |x - a| := by
  obtain heq | hmiddle := abs_eq_abs.mp h
  · obtain ⟨hac, hcb⟩ | ⟨hbc, hca⟩ := hc <;> linarith
  · obtain ⟨hac, hcb⟩ | ⟨hbc, hca⟩ := hc
    · have habs := le_abs_self (x - a)
      exact abs_lt.mpr ⟨by linarith, by linarith⟩
    · have habs := neg_abs_le (x - a)
      exact abs_lt.mpr ⟨by linarith, by linarith⟩

theorem eq_of_number_eq {s t : Sample} (hsign : s.negative = t.negative) (h : s.number = t.number) : s = t := by
  have hunit : unit t.negative ≠ 0 := by
    rw [← abs_pos, abs_unit]
    exact zero_lt_one
  rw [number, number, hsign, mul_right_inj' hunit, div_left_inj' one_pos.ne', Nat.cast_inj] at h
  rw [← s.ofWord_word, ← t.ofWord_word, hsign, single.strictMono_steps.injective h]

-- Two even words have a word between them, which would be nearer.
theorem IsNearest.not_lt {x : ℚ} {s t : Sample} (hs : IsNearest x s) (ht : IsNearest x t)
    (hsign : s.negative = t.negative) : ¬s.word < t.word := by
  intro hlt
  have hsteps : single.steps s.word < single.steps t.word := single.strictMono_steps hlt
  have hne : t.number ≠ s.number := by
    intro heq
    have hsame := eq_of_number_eq hsign heq.symm
    rw [hsame] at hlt
    exact Nat.lt_irrefl _ hlt
  have hdist : |x - s.number| = |x - t.number| := le_antisymm (hs.nearest t ht.isNaN) (ht.nearest s hs.isNaN)
  have heven := hs.even t ht.isNaN hne hdist
  have heven' := ht.even s hs.isNaN hne.symm hdist.symm
  have hbound := word_le_infinity ht.isNaN
  have hword := word_ofWord s.negative (show s.word + 1 ≤ single.infinity by omega)
  have hnegative := negative_ofWord s.negative (show s.word + 1 ≤ single.infinity by omega)
  have hbetween : s.number < (ofWord s.negative (s.word + 1)).number ∧
        (ofWord s.negative (s.word + 1)).number < t.number ∨
      t.number < (ofWord s.negative (s.word + 1)).number ∧
        (ofWord s.negative (s.word + 1)).number < s.number := by
    have hlow : (s.steps : ℚ) / single.one < single.steps (s.word + 1) / single.one := by
      rw [div_lt_div_iff_of_pos_right one_pos]
      exact_mod_cast single.strictMono_steps (Nat.lt_succ_self s.word)
    have hhigh : (single.steps (s.word + 1) : ℚ) / single.one < t.steps / single.one := by
      rw [div_lt_div_iff_of_pos_right one_pos]
      exact_mod_cast single.strictMono_steps (show s.word + 1 < t.word by omega)
    simp only [number, hnegative, ← hsign, unit, steps, hword] at hlow hhigh ⊢
    cases s.negative
    · exact .inl ⟨by simpa using hlow, by simpa using hhigh⟩
    · exact .inr ⟨by simpa using hhigh, by simpa using hlow⟩
  have hnan : (ofWord s.negative (s.word + 1)).isNaN = false := by
    rw [Sample.isNaN, decide_eq_false_iff_not, hword]
    omega
  exact absurd (hs.nearest _ hnan) (not_le.mpr (dist_lt_of_between hdist hbetween))

/-- Only one sample of a sign is nearest to a number. -/
theorem IsNearest.unique {x : ℚ} {s t : Sample} (hs : IsNearest x s) (ht : IsNearest x t)
    (hsign : s.negative = t.negative) : s = t := by
  have hle := hs.not_lt ht hsign
  have hge := ht.not_lt hs hsign.symm
  rw [← s.ofWord_word, ← t.ofWord_word, hsign, show s.word = t.word by omega]

theorem nearest_rounds (d : Decimal) : single.Rounds (d.numerator * single.one) d.denominator
    (single.nearest (d.numerator * single.one) d.denominator) :=
  Format.nearest_rounds (k := 253) (by decide) (by decide) d.denominator_pos

/-- All digits of a decimal count, however many they are: what is read is nearest to its number. -/
theorem isNearest_ofDecimal (negative : Bool) (d : Decimal) :
    IsNearest (unit negative * d.toRat) (ofDecimal negative d) ∧ (ofDecimal negative d).negative = negative := by
  have hrounds := nearest_rounds d
  have hnumber : (d.numerator * single.one : ℕ) / d.denominator / single.one = d.toRat := by
    have hden : (d.denominator : ℚ) ≠ 0 := Nat.cast_ne_zero.mpr d.denominator_pos.ne'
    rw [Nat.cast_mul, d.numerator_eq, mul_right_comm, mul_div_cancel_right₀ _ hden,
      mul_div_cancel_right₀ _ one_pos.ne']
  rw [ofDecimal_eq_nearest, ← hnumber]
  exact ⟨isNearest_ofWord negative d.denominator_pos hrounds, negative_ofWord negative hrounds.le⟩

/-- A sample is read just from the decimals that it is the nearest to. -/
theorem ofDecimal_eq_iff {negative : Bool} {d : Decimal} {s : Sample} :
    ofDecimal negative d = s ↔ IsNearest (unit negative * d.toRat) s ∧ s.negative = negative := by
  obtain ⟨hnearest, hsign⟩ := isNearest_ofDecimal negative d
  constructor
  · rintro rfl
    exact ⟨hnearest, hsign⟩
  · rintro ⟨hs, hnegative⟩
    exact hnearest.unique hs (hsign.trans hnegative.symm)

/-- The number written with a sign, digits in front of a point and digits behind it. -/
def pointNumber (negative : Bool) (whole fraction : List Char) : ℚ :=
  unit negative * (Numeral.value (whole ++ fraction) / 10 ^ fraction.length)

theorem ofPoint_eq_iff {negative : Bool} {whole fraction : List Char} {s : Sample} :
    ofPoint negative whole fraction = s ↔
      IsNearest (pointNumber negative whole fraction) s ∧ s.negative = negative := by
  rw [ofPoint, ofDecimal_eq_iff, pointNumber, Decimal.toRat, zpow_neg, zpow_natCast, div_eq_mul_inv]

end Sample

end SampleStream
