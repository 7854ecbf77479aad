import Mathlib.Data.Nat.Dist
import SampleStream.Proofs.Shortest

/-!
# Decimals next to middles

The middle of two samples is an odd number below `2 ^ 25` times a power of two. A decimal of few digits that is not
such a middle is far from it, compared with what two roundings to double precision move it by: that is less than
`17 / 2 ^ 56` of it (`Decimal.eq_or_far`). For one power of ten and one power of two this is about fractions of small
numbers near to their ratio. A single fraction `p / q` is enough to tell, if it is near to the ratio itself: any other
fraction is far from `p / q`, and then from the ratio (`Ratio.Isolates.mul_eq`). It is found among the convergents of
the ratio. There is just one decimal that is next to a middle, `7038531 * 10 ^ (-32)`, and its double.
-/

namespace SampleStream

namespace Ratio

variable {num den p q digits mantissa : Nat}

/-- Digits times `num / den` are, within what two roundings move, the mantissa. -/
def Near (num den digits mantissa : Nat) : Prop :=
  2 ^ 56 * Nat.dist (num * digits) (den * mantissa) ≤ 17 * (den * mantissa)

/-- The fraction is so near to `num / den` that no other one of small numbers is. -/
def Isolates (num den p q : Nat) : Prop :=
  p.Coprime q ∧ (2 ^ 55 * Nat.dist (p * den) (q * num) + 17 * (q * den) < 2 ^ 31 * den ∨
    2 ^ 56 * Nat.dist (p * den) (q * num) + 17 * (p * den) < 2 ^ 31 * num)

/-- The fraction is the ratio itself, or not of small numbers, or not near enough. -/
def Harmless (num den p q : Nat) : Prop :=
  p = 0 ∨ q = 0 ∨ 2 ^ 24 < q ∨ 2 ^ 25 ≤ p ∨ p * den = q * num ∨
    17 * (p * den) < 2 ^ 56 * Nat.dist (p * den) (q * num)

instance (num den p q : Nat) : Decidable (Isolates num den p q) :=
  inferInstanceAs (Decidable (_ ∧ _))

instance (num den p q : Nat) : Decidable (Harmless num den p q) :=
  inferInstanceAs (Decidable (_ ∨ _))

theorem eq_of_mul_dist_lt {a b n : Nat} (h : n * Nat.dist a b < n) : a = b := by
  refine Nat.eq_of_dist_eq_zero ?_
  by_contra hne
  exact Nat.not_le_of_lt h (Nat.le_mul_of_pos_right n (Nat.pos_of_ne_zero hne))

-- The distance to the other fraction, by way of the ratio.
theorem den_mul_dist_le (num den p q digits mantissa : Nat) :
    den * Nat.dist (p * digits) (q * mantissa) ≤
      digits * Nat.dist (p * den) (q * num) + q * Nat.dist (num * digits) (den * mantissa) := by
  have htriangle := Nat.dist.triangle_inequality (digits * (p * den)) (digits * (q * num)) (den * (q * mantissa))
  have hsame : digits * (q * num) = q * (num * digits) := by ring
  have hother : den * (q * mantissa) = q * (den * mantissa) := by ring
  rw [Nat.dist_mul_left, hsame, hother, Nat.dist_mul_left] at htriangle
  have hleft : digits * (p * den) = den * (p * digits) := by ring
  rwa [hleft, ← hother, Nat.dist_mul_left] at htriangle

theorem num_mul_dist_le (num den p q digits mantissa : Nat) :
    num * Nat.dist (p * digits) (q * mantissa) ≤
      p * Nat.dist (num * digits) (den * mantissa) + mantissa * Nat.dist (p * den) (q * num) := by
  have htriangle := Nat.dist.triangle_inequality (p * (num * digits)) (p * (den * mantissa)) (num * (q * mantissa))
  have hsame : p * (den * mantissa) = mantissa * (p * den) := by ring
  have hother : num * (q * mantissa) = mantissa * (q * num) := by ring
  rw [Nat.dist_mul_left, hsame, hother, Nat.dist_mul_left] at htriangle
  have hleft : p * (num * digits) = num * (p * digits) := by ring
  rwa [hleft, ← hother, Nat.dist_mul_left] at htriangle

/-- What is near is a multiple of the fraction. -/
theorem Isolates.mul_eq (h : Isolates num den p q) (hdigits : digits ≤ 2 ^ 24) (hmantissa : mantissa < 2 ^ 25)
    (hnear : Near num den digits mantissa) : p * digits = q * mantissa := by
  unfold Near at hnear
  obtain ⟨-, hden | hnum⟩ := h
  · refine eq_of_mul_dist_lt (n := den) ?_
    have hdist := den_mul_dist_le num den p q digits mantissa
    have hgap := Nat.mul_le_mul_right (Nat.dist (p * den) (q * num)) hdigits
    have hmove := Nat.mul_le_mul_left q hnear
    have hbound := Nat.mul_le_mul_left (q * den) hmantissa.le
    have hleft : q * (2 ^ 56 * Nat.dist (num * digits) (den * mantissa)) =
        2 ^ 56 * (q * Nat.dist (num * digits) (den * mantissa)) := by ring
    have hright : q * (17 * (den * mantissa)) = 17 * (q * den * mantissa) := by ring
    rw [hleft, hright] at hmove
    omega
  · refine eq_of_mul_dist_lt (n := num) ?_
    have hdist := num_mul_dist_le num den p q digits mantissa
    have hgap := Nat.mul_le_mul_right (Nat.dist (p * den) (q * num)) hmantissa.le
    have hmove := Nat.mul_le_mul_left p hnear
    have hbound := Nat.mul_le_mul_left (p * den) hmantissa.le
    have hleft : p * (2 ^ 56 * Nat.dist (num * digits) (den * mantissa)) =
        2 ^ 56 * (p * Nat.dist (num * digits) (den * mantissa)) := by ring
    have hright : p * (17 * (den * mantissa)) = 17 * (p * den * mantissa) := by ring
    rw [hleft, hright] at hmove
    omega

theorem Harmless.eq_of_near (h : Harmless num den p q) (hcoprime : p.Coprime q) (hpos : 0 < digits)
    (hdigits : digits ≤ 2 ^ 24) (hpos' : 0 < mantissa) (hmantissa : mantissa < 2 ^ 25)
    (hnear : Near num den digits mantissa) (heq : p * digits = q * mantissa) :
    num * digits = den * mantissa := by
  have hq : q ∣ digits := hcoprime.symm.dvd_of_dvd_mul_left ⟨mantissa, heq⟩
  have hp : p ∣ mantissa := hcoprime.dvd_of_dvd_mul_left ⟨digits, heq.symm⟩
  have hqpos : 0 < q := Nat.pos_of_dvd_of_pos hq hpos
  have hppos : 0 < p := Nat.pos_of_dvd_of_pos hp hpos'
  have hqle := Nat.le_of_dvd hpos hq
  have hple := Nat.le_of_dvd hpos' hp
  obtain h | h | h | h | hsame | hfar := h
  · omega
  · omega
  · omega
  · omega
  · refine Nat.eq_of_mul_eq_mul_left hqpos ?_
    calc q * (num * digits) = q * num * digits := (Nat.mul_assoc _ _ _).symm
      _ = p * den * digits := by rw [hsame]
      _ = den * (p * digits) := by ring
      _ = den * (q * mantissa) := by rw [heq]
      _ = q * (den * mantissa) := by ring
  · -- the multiple is as far from the ratio as the fraction
    refine absurd hnear (Nat.not_le_of_lt ?_)
    have hdist : q * Nat.dist (num * digits) (den * mantissa) = digits * Nat.dist (p * den) (q * num) := by
      rw [← Nat.dist_mul_left, ← Nat.dist_mul_left, Nat.dist_comm]
      congr 1
      · calc q * (den * mantissa) = den * (q * mantissa) := by ring
          _ = den * (p * digits) := by rw [heq]
          _ = digits * (p * den) := by ring
      · ring
    refine Nat.lt_of_mul_lt_mul_left (a := q) ?_
    calc q * (17 * (den * mantissa)) = 17 * den * (q * mantissa) := by ring
      _ = 17 * den * (p * digits) := by rw [heq]
      _ = digits * (17 * (p * den)) := by ring
      _ < digits * (2 ^ 56 * Nat.dist (p * den) (q * num)) := Nat.mul_lt_mul_of_pos_left hfar hpos
      _ = 2 ^ 56 * (q * Nat.dist (num * digits) (den * mantissa)) := by rw [hdist]; ring
      _ = q * (2 ^ 56 * Nat.dist (num * digits) (den * mantissa)) := by ring

/-- Whether a convergent of a ratio passes, of which `a / b` is left, with the two before it. -/
def convergent (passes : Nat → Nat → Bool) (a b p q p' q' : Nat) : Nat → Bool
  | 0 => false
  | fuel + 1 =>
    passes p q || (b != 0 && convergent passes b (a % b) (a / b * p + p') (a / b * q + q') p q fuel)

theorem exists_of_convergent {passes : Nat → Nat → Bool} {a b p q p' q' fuel : Nat}
    (h : convergent passes a b p q p' q' fuel = true) : ∃ p q, passes p q = true := by
  induction fuel generalizing a b p q p' q' with
  | zero => cases h
  | succ fuel ih =>
    rw [convergent, Bool.or_eq_true, Bool.and_eq_true] at h
    obtain h | ⟨-, h⟩ := h
    · exact ⟨p, q, h⟩
    · exact ih h

end Ratio

namespace Decimal

open Ratio

/-- The power of ten to a power of two, with middles counted in the smallest step that they have. -/
def ratio (exponent : Int) (k : Nat) : Nat × Nat :=
  ((power exponent).1 * 2 ^ 150, (power exponent).2 * 2 ^ k)

/-- Digits that are next to a middle, although they are none. -/
def IsOutlier (exponent : Int) (digits : Nat) : Prop :=
  exponent = -32 ∧ 7038531 ∣ digits

instance (exponent : Int) (digits : Nat) : Decidable (IsOutlier exponent digits) :=
  inferInstanceAs (Decidable (_ ∧ _))

/-- Whether a convergent of the ratio tells all digits from all mantissas, but for outliers. -/
def isSettled (exponent : Int) (k : Nat) : Bool :=
  let r := ratio exponent k
  convergent (fun p q => decide (Isolates r.1 r.2 p q ∧ (Harmless r.1 r.2 p q ∨ IsOutlier exponent q)))
    r.1 r.2 1 0 0 1 40

variable {exponent : Int} {digits mantissa k : Nat}

theorem power_pos (exponent : Int) : 0 < (power exponent).1 ∧ 0 < (power exponent).2 := by
  unfold power
  split
  · exact ⟨Nat.pow_pos (by decide), Nat.one_pos⟩
  · exact ⟨Nat.one_pos, Nat.pow_pos (by decide)⟩

theorem eq_or_outlier_of_isSettled (h : isSettled exponent k = true) (hpos : 0 < digits) (hdigits : digits ≤ 2 ^ 24)
    (hpos' : 0 < mantissa) (hmantissa : mantissa < 2 ^ 25)
    (hnear : Near (ratio exponent k).1 (ratio exponent k).2 digits mantissa) :
    (ratio exponent k).1 * digits = (ratio exponent k).2 * mantissa ∨ IsOutlier exponent digits := by
  obtain ⟨p, q, hpasses⟩ := exists_of_convergent h
  obtain ⟨hisolates, hharmless | ⟨hexponent, hq⟩⟩ := of_decide_eq_true hpasses
  · have heq := hisolates.mul_eq hdigits hmantissa hnear
    exact .inl (hharmless.eq_of_near hisolates.1 hpos hdigits hpos' hmantissa hnear heq)
  · have heq := hisolates.mul_eq hdigits hmantissa hnear
    have hdvd : q ∣ digits := hisolates.1.symm.dvd_of_dvd_mul_left ⟨mantissa, heq⟩
    exact .inr ⟨hexponent, hq.trans hdvd⟩

-- With eight digits, all samples have one of five powers of two at a power of ten.
theorem all_isSettled : ((List.range 86).all fun n => (List.range 5).all fun j =>
    isSettled (n - 53) (((ratio (n - 53) 0).1 / (ratio (n - 53) 0).2).log2 - j)) = true := by
  decide +kernel

theorem isSettled_of_le (hlow : -53 ≤ exponent) (hhigh : exponent < 33)
    (hle : k = 0 ∨ (ratio exponent k).2 ≤ (ratio exponent k).1)
    (hlt : (ratio exponent k).1 < 21 * (ratio exponent k).2) : isSettled exponent k = true := by
  obtain ⟨n, rfl⟩ : ∃ n : Nat, exponent = n - 53 := ⟨(exponent + 53).toNat, by omega⟩
  have hall := List.all_eq_true.mp all_isSettled n (List.mem_range.mpr (by omega))
  rw [List.all_eq_true] at hall
  have hpos := (power_pos (n - 53)).2
  have hratio : (ratio (n - 53) k).2 = (ratio (n - 53) 0).2 * 2 ^ k := by
    rw [ratio, ratio, pow_zero, Nat.mul_one]
  have hnum : (ratio (n - 53) k).1 = (ratio (n - 53) 0).1 := rfl
  have hden : 0 < (ratio (n - 53) 0).2 := Nat.mul_pos hpos (Nat.pow_pos (by decide))
  rw [hratio, hnum] at hle hlt
  generalize (ratio (n - 53) 0).1 = a at *
  generalize (ratio (n - 53) 0).2 = b at *
  have hupper : a / b < 2 ^ (k + 5) := by
    rw [Nat.div_lt_iff_lt_mul hden]
    calc a < 21 * (b * 2 ^ k) := hlt
      _ ≤ 32 * (b * 2 ^ k) := Nat.mul_le_mul_right _ (by decide)
      _ = 2 ^ (k + 5) * b := by ring
  -- the power of two is one of the five
  obtain ⟨j, hj, hk⟩ : ∃ j < 5, k = (a / b).log2 - j := by
    by_cases hzero : a / b = 0
    · obtain rfl | hle := hle
      · exact ⟨0, by decide, by rw [hzero]; rfl⟩
      · have hone : 1 ≤ a / b := by
          rw [Nat.le_div_iff_mul_le hden, Nat.one_mul]
          exact Nat.le_trans (Nat.le_mul_of_pos_right b (Nat.pow_pos (by decide))) hle
        omega
    · have hlog := (Nat.log2_lt hzero).mpr hupper
      obtain rfl | hle := hle
      · exact ⟨(a / b).log2, by omega, (Nat.sub_self _).symm⟩
      · have hlower : 2 ^ k ≤ a / b := by
          rw [Nat.le_div_iff_mul_le hden, Nat.mul_comm]
          exact hle
        have hge := (Nat.le_log2 hzero).mpr hlower
        exact ⟨(a / b).log2 - k, by omega, by omega⟩
  rw [hk]
  exact hall j (List.mem_range.mpr hj)

/-- Eight digits that are near to a mantissa are a middle, if they are no outlier. -/
theorem eq_or_outlier_of_near (hlow : -53 ≤ exponent) (hhigh : exponent < 33) (hmin : 2 ^ 24 < 10 * digits)
    (hmax : digits ≤ 2 ^ 24) (hpos : 0 < mantissa) (hmantissa : mantissa < 2 ^ 25) (hk : k = 0 ∨ 2 ^ 24 < mantissa)
    (hnear : Near (ratio exponent k).1 (ratio exponent k).2 digits mantissa) :
    (ratio exponent k).1 * digits = (ratio exponent k).2 * mantissa ∨ IsOutlier exponent digits := by
  refine eq_or_outlier_of_isSettled (isSettled_of_le hlow hhigh ?_ ?_) (by omega) hmax hpos hmantissa hnear
  all_goals
    have hden : 0 < (ratio exponent k).2 := Nat.mul_pos (power_pos exponent).2 (Nat.pow_pos (by decide))
    unfold Near Nat.dist at hnear
    generalize (ratio exponent k).1 = num at *
    generalize (ratio exponent k).2 = den at *
    have hcoarse := Nat.mul_le_mul_left den hmantissa.le
  · refine hk.imp_right fun hfine => ?_
    by_contra hlt
    have hless := Nat.mul_le_mul_right digits (Nat.le_of_not_le hlt)
    have hdigits := Nat.mul_le_mul_left den hmax
    have hmore := Nat.mul_le_mul_left den hfine
    rw [Nat.mul_succ] at hmore
    omega
  · by_contra hge
    have hmore := Nat.mul_le_mul_right digits (Nat.le_of_not_lt hge)
    have hdigits := Nat.mul_le_mul_left den hmin
    have hleft : 21 * den * digits = 21 * (den * digits) := Nat.mul_assoc _ _ _
    have hright : den * (10 * digits) = 10 * (den * digits) := Nat.mul_left_comm _ _ _
    rw [Nat.mul_succ] at hdigits
    omega

theorem cast_dist (a b : Nat) : ((Nat.dist a b : ℕ) : ℚ) = |(a : ℚ) - b| := by
  obtain hle | hle := Nat.le_total a b
  · rw [Nat.dist_eq_sub_of_le hle, Nat.cast_sub hle, abs_sub_comm, abs_of_nonneg]
    exact sub_nonneg.mpr (Nat.cast_le.mpr hle)
  · rw [Nat.dist_eq_sub_of_le_right hle, Nat.cast_sub hle, abs_of_nonneg]
    exact sub_nonneg.mpr (Nat.cast_le.mpr hle)

theorem cast_num_mul (d : Decimal) (k : Nat) :
    (((ratio d.exponent k).1 * d.digits : ℕ) : ℚ) = d.toRat * 2 ^ 150 * (power d.exponent).2 := by
  rw [ratio, toRat, Nat.cast_mul, Nat.cast_mul, power_eq]
  push_cast
  ring

theorem cast_den_mul (exponent : Int) (mantissa k : Nat) :
    (((ratio exponent k).2 * mantissa : ℕ) : ℚ) = (mantissa * 2 ^ k : ℕ) * (power exponent).2 := by
  rw [ratio]
  push_cast
  ring

theorem near_iff (d : Decimal) (mantissa k : Nat) :
    Near (ratio d.exponent k).1 (ratio d.exponent k).2 d.digits mantissa ↔
      2 ^ 56 * |d.toRat * 2 ^ 150 - (mantissa * 2 ^ k : ℕ)| ≤ 17 * ((mantissa * 2 ^ k : ℕ) : ℚ) := by
  have hden : (0 : ℚ) < (power d.exponent).2 := Nat.cast_pos.mpr (power_pos d.exponent).2
  rw [Near, ← Nat.cast_le (α := ℚ), Nat.cast_mul, Nat.cast_mul, cast_dist, cast_num_mul, cast_den_mul, ← sub_mul,
    abs_mul, abs_of_pos hden, ← mul_assoc, ← mul_assoc, mul_le_mul_iff_left₀ hden, Nat.cast_pow, Nat.cast_ofNat,
    Nat.cast_ofNat]

theorem eq_iff (d : Decimal) (mantissa k : Nat) :
    (ratio d.exponent k).1 * d.digits = (ratio d.exponent k).2 * mantissa ↔
      d.toRat * 2 ^ 150 = (mantissa * 2 ^ k : ℕ) := by
  have hden : ((power d.exponent).2 : ℚ) ≠ 0 := Nat.cast_ne_zero.mpr (power_pos d.exponent).2.ne'
  rw [← Nat.cast_inj (R := ℚ), cast_num_mul, cast_den_mul, mul_left_inj' hden]

-- Zeros are put behind the digits until there is no room for another.
theorem exists_eight {digits : Nat} (hpos : 0 < digits) (hmax : digits ≤ 2 ^ 24) :
    ∃ n, digits * 10 ^ n ≤ 2 ^ 24 ∧ 2 ^ 24 < 10 * (digits * 10 ^ n) := by
  by_cases hroom : 10 * digits ≤ 2 ^ 24
  · obtain ⟨n, hle, hlt⟩ := exists_eight (show 0 < 10 * digits by omega) hroom
    have hsame : digits * 10 ^ (n + 1) = 10 * digits * 10 ^ n := by ring
    exact ⟨n + 1, by rwa [hsame], by rwa [hsame]⟩
  · exact ⟨0, by simpa using hmax, by simpa using Nat.lt_of_not_le hroom⟩
termination_by 2 ^ 24 - digits

/-- A decimal of at most eight digits is a middle or far from it, or else it is one of two. -/
theorem eq_or_far {d : Decimal} (hpos : 0 < d.digits) (hdigits : d.digits ≤ 2 ^ 24) (hpos' : 0 < mantissa)
    (hmantissa : mantissa < 2 ^ 25) (hk : k = 0 ∨ 2 ^ 24 < mantissa) (hmost : k ≤ 253) :
    d.toRat * 2 ^ 150 = (mantissa * 2 ^ k : ℕ) ∨
      17 * ((mantissa * 2 ^ k : ℕ) : ℚ) < 2 ^ 56 * |d.toRat * 2 ^ 150 - (mantissa * 2 ^ k : ℕ)| ∨
      ∃ n, (n = 1 ∨ n = 2) ∧ d.toRat = (7038531 * n : ℕ) * 10 ^ (-32 : Int) := by
  obtain ⟨n, hmax, hmin⟩ := exists_eight hpos hdigits
  let e : Decimal := ⟨d.digits * 10 ^ n, d.exponent - n⟩
  have hsame : e.toRat = d.toRat := by
    rw [toRat, toRat, zpow_ten (show d.exponent = n + (d.exponent - n) by omega), ← mul_assoc]
    exact congrArg (· * (10 : ℚ) ^ (d.exponent - n)) (by rw [Nat.cast_mul, Nat.cast_pow, Nat.cast_ofNat])
  rw [or_iff_not_imp_left]
  intro hne
  rw [or_iff_not_imp_left, not_lt]
  intro hnear
  rw [← hsame] at hne hnear ⊢
  have hten (a : Int) : (0 : ℚ) < 10 ^ a := zpow_pos (by norm_num) a
  have hmost' : ((mantissa * 2 ^ k : ℕ) : ℚ) ≤ 2 ^ 25 * 2 ^ 253 := by
    have hpow : 2 ^ k ≤ 2 ^ 253 := Nat.pow_le_pow_right (by decide) hmost
    exact_mod_cast Nat.mul_le_mul hmantissa.le hpow
  have hone : (1 : ℚ) ≤ ((mantissa * 2 ^ k : ℕ) : ℚ) := by
    exact_mod_cast Nat.mul_pos hpos' (Nat.pow_pos (by decide))
  have hmax' : (e.digits : ℚ) ≤ 2 ^ 24 := by exact_mod_cast hmax
  have hmin' : (2 ^ 24 : ℚ) < 10 * e.digits := by exact_mod_cast hmin
  -- the power of ten is one of those that samples have
  have hrange : -53 ≤ e.exponent ∧ e.exponent < 33 := by
    generalize ((mantissa * 2 ^ k : ℕ) : ℚ) = middle at hnear hmost' hone
    have hhalf (distance : ℚ) (h : 2 ^ 56 * distance ≤ 17 * middle) : distance ≤ middle / 2 := by
      linarith only [h, hone]
    obtain ⟨hbelow, habove⟩ := abs_le.mp (hhalf _ hnear)
    constructor
    · by_contra hlt
      have hpow : (10 : ℚ) ^ e.exponent ≤ 10 ^ (-54 : Int) := zpow_le_zpow_right₀ (by norm_num) (by omega)
      have hsmall : e.toRat ≤ 2 ^ 24 * 10 ^ (-54 : Int) := mul_le_mul hmax' hpow (hten _).le (by norm_num)
      norm_num at hsmall
      linarith only [hsmall, hbelow, hone]
    · by_contra hge
      have hpow : (10 : ℚ) ^ (33 : Int) ≤ 10 ^ e.exponent := zpow_le_zpow_right₀ (by norm_num) (by omega)
      have hlarge : (e.digits : ℚ) * 10 ^ (33 : Int) ≤ e.toRat := mul_le_mul_of_nonneg_left hpow (Nat.cast_nonneg _)
      norm_num at hlarge hmost'
      linarith only [hlarge, habove, hmin', hmost']
  obtain heq | ⟨hexponent, m, hm⟩ := eq_or_outlier_of_near hrange.1 hrange.2 hmin hmax hpos' hmantissa hk
    ((e.near_iff mantissa k).mpr hnear)
  · exact absurd ((e.eq_iff mantissa k).mp heq) hne
  · refine ⟨m, by change d.digits * 10 ^ n = _ at hm; omega, ?_⟩
    rw [toRat, hexponent]
    exact congrArg (fun digits : ℕ => (digits : ℚ) * 10 ^ (-32 : Int)) hm

end Decimal

end SampleStream
