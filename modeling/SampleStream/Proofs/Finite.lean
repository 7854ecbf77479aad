import SampleStream.Proofs.Binary
import SampleStream.Proofs.Decimal
import SampleStream.Sample.Text

/-!
# Finite samples

What lies below the middle between the largest finite word and the infinity after it is rounded to a finite
word, and nothing else is (`nearest_lt_infinity_iff`). So a decimal that is too large or too small for a look at its
digits is read as if it were rounded (`ofDecimal_eq_nearest`), and the digits around a point tell whether they are a
finite sample, without rounding (`isFinite_ofPoint_iff`).
-/

namespace SampleStream

namespace Binary

-- Halves go to an even number from below.
theorem le_roundHalfEven_iff {num den m : Nat} (hden : 0 < den) (heven : m % 2 = 0) :
    m ≤ roundHalfEven num den ↔ 2 * (m * den) ≤ 2 * num + den := by
  have hdiv := Nat.div_add_mod num den
  have hmod := Nat.mod_lt num hden
  unfold roundHalfEven
  dsimp only
  generalize num / den = q at hdiv ⊢
  generalize num % den = r at hdiv hmod ⊢
  obtain hle | rfl | hlt : m ≤ q ∨ m = q + 1 ∨ q + 2 ≤ m := by omega
  · have hmul := Nat.mul_le_mul_right den hle
    rw [Nat.mul_comm q] at hmul
    split_ifs <;> omega
  · have hmul : (q + 1) * den = den * q + den := by ring
    rw [hmul]
    split_ifs <;> omega
  · have hmul := Nat.mul_le_mul_right den hlt
    rw [Nat.add_mul, Nat.mul_comm q] at hmul
    split_ifs <;> omega

namespace Format

variable {f : Format} {k num den : Nat}

-- The exponent that a quotient is rounded with leaves it at most two ranges of fractions, and at least
-- one if it is not the least exponent.
theorem exponent_bounds (f : Format) (num : Nat) (hden : 0 < den) :
    let e := (num / den).log2 - f.fraction
    num < 2 * f.fractions * (den * 2 ^ e) ∧ (e = 0 ∨ f.fractions * (den * 2 ^ e) ≤ num) := by
  intro e
  have hpow : f.fractions * 2 ^ e = 2 ^ (f.fraction + e) := (Nat.pow_add 2 _ _).symm
  constructor
  · have hlt : num / den < 2 ^ (f.fraction + e + 1) :=
      Nat.lt_of_lt_of_le Nat.lt_log2_self (Nat.pow_le_pow_right (by decide) (by omega))
    rw [Nat.div_lt_iff_lt_mul hden, Nat.pow_succ, ← hpow] at hlt
    calc num < f.fractions * 2 ^ e * 2 * den := hlt
      _ = 2 * f.fractions * (den * 2 ^ e) := by ring
  · by_cases he : e = 0
    · exact .inl he
    · have hzero : num / den ≠ 0 := by
        intro hzero
        have hlog : (num / den).log2 = 0 := by rw [hzero]; rfl
        omega
      have hge : 2 ^ (f.fraction + e) ≤ num / den := (Nat.le_log2 hzero).mp (by omega)
      rw [← hpow, Nat.le_div_iff_mul_le hden] at hge
      refine .inr ?_
      calc f.fractions * (den * 2 ^ e) = f.fractions * 2 ^ e * den := by ring
        _ ≤ num := hge

-- Infinity takes everything from the middle past the largest finite number on, which counts `k` as its
-- exponent.
theorem nearest_lt_infinity_iff (heven : f.fractions % 2 = 0) (hinfinity : f.infinity = (k + 2) * f.fractions)
    (hden : 0 < den) : f.nearest num den < f.infinity ↔
      2 * num + den * 2 ^ k < 2 * (2 * f.fractions * (den * 2 ^ k)) := by
  obtain ⟨habove, hbelow⟩ := f.exponent_bounds num hden
  have hnearest : f.nearest num den = min f.infinity (((num / den).log2 - f.fraction) * f.fractions +
      roundHalfEven num (den * 2 ^ ((num / den).log2 - f.fraction))) := rfl
  rw [hnearest]
  generalize (num / den).log2 - f.fraction = e at habove hbelow ⊢
  have hstep (e : Nat) : 0 < den * 2 ^ e := Nat.mul_pos hden (Nat.pow_pos (by decide))
  have hround {m : Nat} (hm : m % 2 = 0) :
      m ≤ roundHalfEven num (den * 2 ^ e) ↔ 2 * (m * (den * 2 ^ e)) ≤ 2 * num + den * 2 ^ e :=
    le_roundHalfEven_iff (hstep e) hm
  have hF := f.fractions_pos
  have hmin (word : Nat) : min f.infinity word < f.infinity ↔ word < f.infinity := by omega
  rw [hmin, hinfinity]
  obtain hlt | rfl | hlt := Nat.lt_trichotomy e k
  · -- below the largest exponent everything is finite
    have hscale : 2 * (den * 2 ^ e) ≤ den * 2 ^ k := by
      calc 2 * (den * 2 ^ e) = den * 2 ^ (e + 1) := by ring
        _ ≤ den * 2 ^ k := Nat.mul_le_mul_left _ (Nat.pow_le_pow_right (by decide) hlt)
    have hrounded : ¬3 * f.fractions ≤ roundHalfEven num (den * 2 ^ e) := by
      rw [hround (by omega)]
      have hsplit : 2 * (3 * f.fractions * (den * 2 ^ e)) =
          2 * (2 * f.fractions * (den * 2 ^ e)) + 2 * (f.fractions * (den * 2 ^ e)) := by ring
      have hunit : den * 2 ^ e ≤ f.fractions * (den * 2 ^ e) := Nat.le_mul_of_pos_left _ hF
      omega
    have hexponent : e * f.fractions + 3 * f.fractions ≤ (k + 2) * f.fractions := by
      rw [← Nat.add_mul]
      exact Nat.mul_le_mul_right _ (by omega)
    have hhalf : 2 * f.fractions * (den * 2 ^ e) ≤ f.fractions * (den * 2 ^ k) := by
      calc 2 * f.fractions * (den * 2 ^ e) = f.fractions * (2 * (den * 2 ^ e)) := by ring
        _ ≤ f.fractions * (den * 2 ^ k) := Nat.mul_le_mul_left _ hscale
    have hunit : den * 2 ^ k ≤ f.fractions * (den * 2 ^ k) := Nat.le_mul_of_pos_left _ hF
    have hdouble : 2 * (2 * f.fractions * (den * 2 ^ k)) = 4 * (f.fractions * (den * 2 ^ k)) := by ring
    constructor <;> intro <;> omega
  · have hrounded := hround (m := 2 * f.fractions) (by omega)
    rw [Nat.add_mul]
    omega
  · -- above it nothing is
    have hscale : 2 * (den * 2 ^ k) ≤ den * 2 ^ e := by
      calc 2 * (den * 2 ^ k) = den * 2 ^ (k + 1) := by ring
        _ ≤ den * 2 ^ e := Nat.mul_le_mul_left _ (Nat.pow_le_pow_right (by decide) hlt)
    have hlow : f.fractions * (den * 2 ^ e) ≤ num := hbelow.resolve_left (by omega)
    have hrounded : f.fractions ≤ roundHalfEven num (den * 2 ^ e) := by
      rw [hround heven]
      omega
    have hexponent : (k + 2) * f.fractions ≤ e * f.fractions + f.fractions := by
      rw [← Nat.succ_mul]
      exact Nat.mul_le_mul_right _ (by omega)
    have hhalf : 2 * f.fractions * (den * 2 ^ k) ≤ num := by
      calc 2 * f.fractions * (den * 2 ^ k) = f.fractions * (2 * (den * 2 ^ k)) := by ring
        _ ≤ f.fractions * (den * 2 ^ e) := Nat.mul_le_mul_left _ hscale
        _ ≤ num := hlow
    constructor <;> intro <;> omega

theorem nearest_le_infinity (f : Format) (num den : Nat) : f.nearest num den ≤ f.infinity :=
  Nat.min_le_left _ _

theorem nearest_zero (f : Format) (den : Nat) : f.nearest 0 den = 0 := by
  simp [nearest, roundHalfEven]

theorem nearest_eq_zero (hden : 0 < den) (h : 2 * num ≤ den) : f.nearest num den = 0 := by
  have hdiv : num / den = 0 := Nat.div_eq_of_lt (by omega)
  have hlog : (num / den).log2 - f.fraction = 0 := by
    rw [hdiv]
    exact Nat.zero_sub _
  have hround : roundHalfEven num (den * Nat.pow 2 0) = 0 := by
    rw [show den * Nat.pow 2 0 = den from Nat.mul_one den]
    exact roundHalfEven_eq hden (by omega) (by omega) (.inl rfl)
  rw [nearest, hlog, hround]
  simp

theorem two_le_fractions (hf : 0 < f.fraction) : 2 ≤ f.fractions := by
  have hpos := f.fractions_pos
  have heven := fractions_even hf
  omega

theorem nearest_eq_infinity (hf : 0 < f.fraction) (hinfinity : f.infinity = (k + 2) * f.fractions)
    (hden : 0 < den) (h : (f.steps (f.infinity - 1) + f.steps f.infinity) * den ≤ 2 * num) :
    f.nearest num den = f.infinity := by
  have hF := two_le_fractions hf
  have hlast : f.infinity - 1 = k * f.fractions + (2 * f.fractions - 1) := by
    rw [hinfinity, Nat.add_mul]
    omega
  have htop : f.infinity = k * f.fractions + 2 * f.fractions := by rw [hinfinity, Nat.add_mul]
  have hsteps : f.steps (f.infinity - 1) = (2 * f.fractions - 1) * 2 ^ k := by
    rw [hlast, steps_eq (by omega) (by omega)]
  have hsteps' : f.steps f.infinity = 2 * f.fractions * 2 ^ k := by
    rw [htop, steps_eq (by omega) (by omega)]
  have hsum : (f.steps (f.infinity - 1) + f.steps f.infinity) * den + den * 2 ^ k =
      2 * (2 * f.fractions * (den * 2 ^ k)) := by
    obtain ⟨n, hn⟩ : ∃ n, 2 * f.fractions = n + 1 := ⟨2 * f.fractions - 1, by omega⟩
    rw [hsteps, hsteps', hn, Nat.add_sub_cancel]
    ring
  have hnot : ¬f.nearest num den < f.infinity := by
    rw [nearest_lt_infinity_iff (fractions_even hf) hinfinity hden]
    omega
  exact Nat.le_antisymm (f.nearest_le_infinity num den) (Nat.not_lt.mp hnot)

theorem ofDecimal_eq (f : Format) (d : Decimal) :
    f.ofDecimal d.digits d.exponent = f.nearest (d.numerator * f.one) d.denominator := by
  obtain ⟨digits, exponent⟩ := d
  match exponent with
  | .ofNat n => rfl
  | .negSucc n =>
    change f.nearest (digits * f.one) (Nat.pow 10 (n + 1)) =
      f.nearest (digits * 1 * f.one) (Nat.pow 10 (n + 1))
    rw [Nat.mul_one]

end Format

end Binary

namespace Sample

open Binary

theorem word_ofWord (negative : Bool) {word : Nat} (h : word ≤ single.infinity) :
    (ofWord negative word).word = word := by
  have hinfinity : single.infinity = 2139095040 := rfl
  unfold ofWord Sample.word signWord
  rw [UInt32.toNat_ofNat']
  split <;> omega

theorem steps_infinity : single.steps single.infinity = 2 ^ 128 * single.one := by
  decide +kernel

-- The answers without rounding are those of rounding.
theorem ofDecimal_eq_nearest (negative : Bool) (d : Decimal) :
    ofDecimal negative d = ofWord negative (single.nearest (d.numerator * single.one) d.denominator) := by
  have hden := d.denominator_pos
  have hone : single.one = 2 ^ 149 := rfl
  by_cases hdigits : d.digits = 0
  · have hnum : d.numerator = 0 := by rw [Decimal.numerator, hdigits, Nat.zero_mul]
    rw [ofDecimal, if_pos hdigits, Format.nearest_eq_zero hden (by simp [hnum])]
  by_cases hlarge : 39 ≤ d.magnitude
  · have hle := Decimal.le_numerator hdigits (n := 39) hlarge
    have hsum : single.steps (single.infinity - 1) + single.steps single.infinity ≤ 2 * (2 ^ 128 * single.one) := by
      have hlt := single.strictMono_steps (show single.infinity - 1 < single.infinity by decide)
      have hinf := steps_infinity
      omega
    have hmiddle : (single.steps (single.infinity - 1) + single.steps single.infinity) * d.denominator ≤
        2 * (d.numerator * single.one) := by
      calc (single.steps (single.infinity - 1) + single.steps single.infinity) * d.denominator
          ≤ 2 * (2 ^ 128 * single.one) * d.denominator := Nat.mul_le_mul_right _ hsum
        _ = 2 * (2 ^ 128 * d.denominator * single.one) := by ring
        _ ≤ 2 * (10 ^ 39 * d.denominator * single.one) :=
          Nat.mul_le_mul_left _ (Nat.mul_le_mul_right _ (Nat.mul_le_mul_right _ (by decide)))
        _ ≤ 2 * (d.numerator * single.one) := Nat.mul_le_mul_left _ (Nat.mul_le_mul_right _ hle)
    rw [ofDecimal, if_neg hdigits, if_pos hlarge, infinite,
      Format.nearest_eq_infinity (k := 253) (by decide) (by decide) hden hmiddle]
  by_cases hsmall : d.magnitude < -46
  · have hlt := Decimal.numerator_lt (n := 46) hsmall
    rw [ofDecimal, if_neg hdigits, if_neg hlarge, if_pos hsmall, Format.nearest_eq_zero hden]
    calc 2 * (d.numerator * single.one) = d.numerator * 2 ^ 150 := by rw [hone]; ring
      _ ≤ d.numerator * 10 ^ 46 := Nat.mul_le_mul_left _ (by decide)
      _ ≤ d.denominator := hlt.le
  · rw [ofDecimal, if_neg hdigits, if_neg hlarge, if_neg hsmall, Format.ofDecimal_eq]

theorem isFinite_ofWord (negative : Bool) {word : Nat} (hword : word ≤ single.infinity) :
    (ofWord negative word).isFinite = true ↔ word < single.infinity := by
  rw [isFinite, word_ofWord negative hword, decide_eq_true_eq]

/-- The middle between the largest finite sample and the power of two after it. -/
def overflow : Nat := 2 ^ 128 - 2 ^ 103

-- Decimals below the middle are finite samples.
theorem isFinite_ofDecimal_iff (negative : Bool) (d : Decimal) :
    (ofDecimal negative d).isFinite = true ↔ d.numerator < overflow * d.denominator := by
  rw [ofDecimal_eq_nearest, isFinite_ofWord negative (Format.nearest_le_infinity _ _ _),
    Format.nearest_lt_infinity_iff (k := 253) (by decide) (by decide) d.denominator_pos]
  -- both sides count in smallest steps
  have hone : single.one = 2 ^ 149 := rfl
  have hfractions : single.fractions = 2 ^ 23 := rfl
  have hmiddle : 2 * (2 * single.fractions * (d.denominator * 2 ^ 253)) =
      2 * (overflow * d.denominator * 2 ^ 149) + d.denominator * 2 ^ 253 := by
    rw [hfractions, overflow]
    ring
  rw [hmiddle, hone]
  have hscale : d.numerator * 2 ^ 149 < overflow * d.denominator * 2 ^ 149 ↔
      d.numerator < overflow * d.denominator :=
    Nat.mul_lt_mul_right (Nat.pow_pos (by decide))
  rw [← hscale]
  omega

-- Digits around a point are a finite sample just if they stand for less than the middle.
theorem isFinite_ofPoint_iff (negative : Bool) (whole fraction : List Char) :
    (ofPoint negative whole fraction).isFinite = true ↔
      Numeral.value (whole ++ fraction) < overflow * 10 ^ fraction.length := by
  rw [ofPoint, isFinite_ofDecimal_iff, Decimal.numerator, Decimal.denominator, Decimal.power_neg,
    Nat.mul_one]

end Sample

end SampleStream
