import Mathlib.Algebra.Order.Field.Power
import Mathlib.Data.Nat.Cast.Order.Field
import SampleStream.Proofs.Rounding

/-!
# The fewest digits

The search for a decimal in an interval finds one with the fewest digits (`Interval.length_shortest_le`), if nine are
enough for the interval. On its grid it is the nearest to the middle, and the rule for ties decides between two that
are equally near (`Interval.nearest_of_onGrid`). So no decimal that is read as a sample has fewer digits than the
sample's own (`Sample.length_decimal_le`).
-/

namespace SampleStream

namespace Decimal

theorem zpow_ten {a b : Int} {n : Nat} (h : a = n + b) : (10 : ℚ) ^ a = 10 ^ n * 10 ^ b := by
  rw [h, zpow_add₀ (by norm_num), zpow_natCast]

theorem digits_strip_le (fuel : Nat) (d : Decimal) : (d.strip fuel).digits ≤ d.digits := by
  induction fuel generalizing d with
  | zero => exact Nat.le_refl _
  | succ fuel ih =>
    rw [strip]
    split
    · exact Nat.le_trans (ih _) (Nat.div_le_self _ _)
    · exact Nat.le_refl _

-- All zeros of a power of ten are taken.
theorem digits_strip_power {fuel k : Nat} (h : k ≤ fuel) (exponent : Int) :
    (strip fuel ⟨10 ^ k, exponent⟩).digits = 1 := by
  induction fuel generalizing k exponent with
  | zero =>
    obtain rfl : k = 0 := by omega
    rfl
  | succ fuel ih =>
    cases k with
    | zero =>
      rw [strip, if_neg (by simp)]
      rfl
    | succ k =>
      have hpow : 10 ^ (k + 1) = 10 * 10 ^ k := Nat.pow_succ'
      have hpos : 0 < 10 ^ k := Nat.pow_pos (by decide)
      rw [strip, if_pos (by dsimp only; omega), hpow, Nat.mul_div_cancel_left _ (by decide)]
      exact ih (by omega) _

end Decimal

/-- Of two decimals on a grid that are equally near, the rule takes that of the digits named first. -/
def Tie.Prefers : Tie → Nat → Nat → Prop
  | .up, taken, other => other < taken
  | .even, taken, _ => taken % 2 = 0

theorem Tie.prefers_lower {tie : Tie} {n : Nat} (h : tie.takesLower n = true) : tie.Prefers n (n + 1) := by
  cases tie with
  | up => cases h
  | even => exact beq_iff_eq.mp h

theorem Tie.prefers_upper {tie : Tie} {n : Nat} (h : tie.takesLower n = false) : tie.Prefers (n + 1) n := by
  cases tie with
  | up => exact Nat.lt_succ_self n
  | even =>
    have hodd := beq_eq_false_iff_ne.mp h
    change (n + 1) % 2 = 0
    omega

namespace Interval

variable {i : Interval} {x y z : ℚ}

/-- The number is one of the interval. -/
def Has (i : Interval) (x : ℚ) : Prop :=
  i.low ≤ x * i.scale ∧ x * i.scale ≤ i.high ∧ (i.closed = true ∨ i.low < x * i.scale ∧ x * i.scale < i.high)

/-- The number that the interval is around. -/
def center (i : Interval) : ℚ :=
  i.middle / i.scale

theorem center_mul_scale (hscale : 0 < i.scale) : i.center * i.scale = i.middle :=
  div_mul_cancel₀ _ (Nat.cast_ne_zero.mpr hscale.ne')

theorem Has.between (hx : i.Has x) (hz : i.Has z) (hxy : x ≤ y) (hyz : y ≤ z) : i.Has y := by
  have hscale : (0 : ℚ) ≤ i.scale := Nat.cast_nonneg _
  have hlow := mul_le_mul_of_nonneg_right hxy hscale
  have hhigh := mul_le_mul_of_nonneg_right hyz hscale
  refine ⟨le_trans hx.1 hlow, le_trans hhigh hz.2.1, ?_⟩
  obtain hclosed | ⟨hbelow, -⟩ := hx.2.2
  · exact .inl hclosed
  · obtain hclosed | ⟨-, habove⟩ := hz.2.2
    · exact .inl hclosed
    · exact .inr ⟨lt_of_lt_of_le hbelow hlow, lt_of_le_of_lt hhigh habove⟩

theorem contains_iff_has (d : Decimal) : i.Contains d ↔ i.Has d.toRat := by
  have hden : (0 : ℚ) < d.denominator := Nat.cast_pos.mpr d.denominator_pos
  have hvalue : ((d.numerator * i.scale : ℕ) : ℚ) = d.toRat * i.scale * d.denominator := by
    rw [Nat.cast_mul, d.numerator_eq, mul_right_comm]
  have hle (a : ℕ) : a * d.denominator ≤ d.numerator * i.scale ↔ (a : ℚ) ≤ d.toRat * i.scale := by
    rw [← Nat.cast_le (α := ℚ), hvalue, Nat.cast_mul, mul_le_mul_iff_left₀ hden]
  have hge (a : ℕ) : d.numerator * i.scale ≤ a * d.denominator ↔ d.toRat * i.scale ≤ (a : ℚ) := by
    rw [← Nat.cast_le (α := ℚ), hvalue, Nat.cast_mul, mul_le_mul_iff_left₀ hden]
  have hlt (a : ℕ) : a * d.denominator < d.numerator * i.scale ↔ (a : ℚ) < d.toRat * i.scale := by
    rw [← not_le, hge, not_le]
  have hgt (a : ℕ) : d.numerator * i.scale < a * d.denominator ↔ d.toRat * i.scale < (a : ℚ) := by
    rw [← not_le, hle, not_le]
  rw [Contains, Within, hle, hge, hlt, hgt, Has]

theorem holds_iff_has (d : Decimal) : i.holds d = true ↔ i.Has d.toRat := by
  rw [← contains_iff_has]
  exact ⟨contains_of_holds, holds_of_contains⟩

/-- The last digits of a grid that are not above the center. -/
def below (i : Interval) (exponent : Int) : Nat :=
  i.middle * (Decimal.power exponent).2 / ((Decimal.power exponent).1 * i.scale)

-- Only the neighbours of the center are looked at.
theorem digits_of_onGrid {tie : Tie} {exponent : Int} {d : Decimal} (h : i.onGrid tie exponent = some d) :
    d.digits ≤ i.below exponent + 1 := by
  unfold onGrid at h
  dsimp only at h
  split at h
  · split at h <;> cases h
    · exact Nat.le_succ _
    · exact Nat.le_refl _
  · cases h
    exact Nat.le_succ _
  · cases h
    exact Nat.le_refl _
  · cases h

-- A search upwards stops at the latest at what it could find.
theorem le_of_findSome?_range {α : Type} {find : Nat → Option α} {most k : Nat} {found : α} (hk : k < most)
    (hfind : find k ≠ none) (h : (List.range most).findSome? find = some found) : ∃ a ≤ k, find a = some found := by
  obtain ⟨front, a, back, hrange, ha, hnone⟩ := List.findSome?_eq_some_iff.mp h
  have hsorted := List.pairwise_lt_range (n := most)
  rw [hrange, List.pairwise_append, List.pairwise_cons] at hsorted
  have hmem : k ∈ front ++ a :: back := by
    rw [← hrange]
    exact List.mem_range.mpr hk
  obtain hfront | rfl | hback : k ∈ front ∨ k = a ∨ k ∈ back := by simpa using hmem
  · exact absurd (hnone k hfront) hfind
  · exact ⟨k, Nat.le_refl _, ha⟩
  · exact ⟨a, (hsorted.2.1.1 k hback).le, ha⟩

section

variable (hscale : 0 < i.scale)

include hscale

theorem mul_power_le_iff (n : Nat) (exponent : Int) :
    n * ((Decimal.power exponent).1 * i.scale) ≤ i.middle * (Decimal.power exponent).2 ↔
      n * 10 ^ exponent ≤ i.center := by
  have hscale' : (0 : ℚ) < i.scale := Nat.cast_pos.mpr hscale
  have hden : (0 : ℚ) < (Decimal.power exponent).2 := Nat.cast_pos.mpr (Decimal.denominator_pos ⟨0, exponent⟩)
  rw [← Nat.cast_le (α := ℚ), Nat.cast_mul, Nat.cast_mul, Nat.cast_mul, Decimal.power_eq, mul_right_comm, ← mul_assoc,
    mul_le_mul_iff_left₀ hden, center, le_div_iff₀ hscale', mul_assoc]

theorem center_lt_power_iff (exponent : Int) :
    i.middle * (Decimal.power exponent).2 < (Decimal.power exponent).1 * i.scale ↔ i.center < 10 ^ exponent := by
  have hone := mul_power_le_iff hscale 1 exponent
  rw [Nat.one_mul, Nat.cast_one, one_mul] at hone
  rw [← not_le, hone, not_le]

-- The search stops at the first power of ten above the center.
theorem leadingExponent_spec {start : Int} {fuel : Nat} (hlow : (10 : ℚ) ^ (start - 1) ≤ i.center)
    (hhigh : i.center < 10 ^ (start + fuel)) :
    (10 : ℚ) ^ (i.leadingExponent start fuel - 1) ≤ i.center ∧ i.center < 10 ^ i.leadingExponent start fuel := by
  induction fuel generalizing start with
  | zero =>
    rw [Nat.cast_zero, add_zero] at hhigh
    exact ⟨hlow, hhigh⟩
  | succ fuel ih =>
    have hiff := center_lt_power_iff hscale start
    rw [leadingExponent]
    by_cases hlt : i.center < 10 ^ start
    · simp only [hiff.mpr hlt, if_true]
      exact ⟨hlow, hlt⟩
    · simp only [mt hiff.mp hlt, if_false]
      refine ih ?_ ?_
      · rw [add_sub_cancel_right]
        exact not_lt.mp hlt
      · rw [add_assoc, add_comm 1, ← Nat.cast_succ]
        exact hhigh

theorem below_spec (exponent : Int) :
    (i.below exponent : ℚ) * 10 ^ exponent ≤ i.center ∧ i.center < (i.below exponent + 1 : ℕ) * 10 ^ exponent := by
  have hnum : 0 < (Decimal.power exponent).1 := by
    unfold Decimal.power
    split
    · exact Nat.pow_pos (by decide)
    · exact Nat.one_pos
  have hunit : 0 < (Decimal.power exponent).1 * i.scale := Nat.mul_pos hnum hscale
  rw [← mul_power_le_iff hscale, ← not_le, ← mul_power_le_iff hscale, Nat.not_le, ← Nat.le_div_iff_mul_le hunit,
    ← Nat.div_lt_iff_lt_mul hunit]
  exact ⟨Nat.le_refl _, Nat.lt_succ_self _⟩

-- If any decimal of a grid is in the interval, so is one of them.
theorem onGrid_ne_none {tie : Tie} {exponent : Int} (hcenter : i.Has i.center) {n : Nat}
    (hn : i.Has (n * 10 ^ exponent)) : i.onGrid tie exponent ≠ none := by
  obtain ⟨hbelow, habove⟩ := below_spec hscale exponent
  have hpow : (0 : ℚ) < 10 ^ exponent := zpow_pos (by norm_num) _
  intro hnone
  unfold onGrid at hnone
  dsimp only at hnone
  split at hnone
  · split at hnone <;> cases hnone
  · cases hnone
  · cases hnone
  · rename_i hnotbelow hnotabove
    change i.holds ⟨i.below exponent, exponent⟩ = false at hnotbelow
    change i.holds ⟨i.below exponent + 1, exponent⟩ = false at hnotabove
    rw [← Bool.not_eq_true, holds_iff_has] at hnotbelow hnotabove
    by_cases hle : n ≤ i.below exponent
    · refine hnotbelow (hn.between hcenter ?_ hbelow)
      exact mul_le_mul_of_nonneg_right (Nat.cast_le.mpr hle) hpow.le
    · refine hnotabove (hcenter.between hn habove.le ?_)
      exact mul_le_mul_of_nonneg_right (Nat.cast_le.mpr (by dsimp only; omega)) hpow.le

-- Where the center is in the gap between two neighbours.
theorem compare_halfway (n : Nat) (exponent : Int) :
    (2 * (i.middle * (Decimal.power exponent).2) < (n + (n + 1)) * ((Decimal.power exponent).1 * i.scale) ↔
        2 * i.center < (2 * n + 1) * 10 ^ exponent) ∧
      (2 * (i.middle * (Decimal.power exponent).2) = (n + (n + 1)) * ((Decimal.power exponent).1 * i.scale) ↔
        2 * i.center = (2 * n + 1) * 10 ^ exponent) := by
  have hden : (0 : ℚ) < (Decimal.power exponent).2 := Nat.cast_pos.mpr (Decimal.denominator_pos ⟨0, exponent⟩)
  have hunit : (0 : ℚ) < i.scale * (Decimal.power exponent).2 := mul_pos (Nat.cast_pos.mpr hscale) hden
  have hleft : ((2 * (i.middle * (Decimal.power exponent).2) : ℕ) : ℚ) =
      2 * i.center * (i.scale * (Decimal.power exponent).2) := by
    push_cast
    rw [← center_mul_scale hscale]
    ring
  have hright : (((n + (n + 1)) * ((Decimal.power exponent).1 * i.scale) : ℕ) : ℚ) =
      (2 * n + 1) * 10 ^ exponent * (i.scale * (Decimal.power exponent).2) := by
    push_cast
    rw [Decimal.power_eq]
    ring
  rw [← Nat.cast_lt (α := ℚ), ← Nat.cast_inj (R := ℚ), hleft, hright, mul_lt_mul_iff_left₀ hunit,
    mul_left_inj' hunit.ne']
  exact ⟨Iff.rfl, Iff.rfl⟩

-- Which neighbour of the center is found, and why not the other.
theorem onGrid_cases {tie : Tie} {exponent : Int} {d : Decimal} (h : i.onGrid tie exponent = some d) :
    d = ⟨i.below exponent, exponent⟩ ∧ (¬i.Has ((i.below exponent + 1 : ℕ) * 10 ^ exponent) ∨
        2 * i.center < (2 * i.below exponent + 1) * 10 ^ exponent ∨
        2 * i.center = (2 * i.below exponent + 1) * 10 ^ exponent ∧ tie.takesLower (i.below exponent) = true) ∨
      d = ⟨i.below exponent + 1, exponent⟩ ∧ (¬i.Has (i.below exponent * 10 ^ exponent) ∨
        (2 * i.below exponent + 1) * 10 ^ exponent < 2 * i.center ∨
        2 * i.center = (2 * i.below exponent + 1) * 10 ^ exponent ∧ tie.takesLower (i.below exponent) = false) := by
  obtain ⟨hless, hequal⟩ := i.compare_halfway hscale (i.below exponent) exponent
  have hout {n : Nat} (h : i.holds ⟨n, exponent⟩ = false) : ¬i.Has (n * 10 ^ exponent) :=
    fun hhas => Bool.eq_false_iff.mp h ((holds_iff_has ⟨n, exponent⟩).mpr hhas)
  unfold onGrid at h
  dsimp only at h
  split at h
  · -- both are in the interval
    split at h
    · rename_i hlower
      cases h
      rw [Bool.or_eq_true, Bool.and_eq_true, decide_eq_true_eq, beq_iff_eq] at hlower
      exact .inl ⟨rfl, .inr (hlower.imp hless.mp fun htie => ⟨hequal.mp htie.1, htie.2⟩)⟩
    · rename_i hupper
      cases h
      rw [Bool.or_eq_true, Bool.and_eq_true, decide_eq_true_eq, beq_iff_eq, not_or, not_and, Bool.not_eq_true]
        at hupper
      refine .inr ⟨rfl, .inr ?_⟩
      obtain hmore | heq := (not_lt.mp (mt hless.mpr hupper.1)).lt_or_eq
      · exact .inl hmore
      · exact .inr ⟨heq.symm, hupper.2 (hequal.mpr heq.symm)⟩
  · rename_i habove
    cases h
    exact .inl ⟨rfl, .inl (hout habove)⟩
  · rename_i hbelow _
    cases h
    exact .inr ⟨rfl, .inl (hout hbelow)⟩
  · cases h

section

variable {exponent : Int} {n : Nat}

-- How far the decimals of a grid are from the center, before it and behind it.
theorem abs_sub_center_of_le (h : n ≤ i.below exponent) :
    |(n * 10 ^ exponent - i.center : ℚ)| = i.center - n * 10 ^ exponent := by
  have hstep : (0 : ℚ) < 10 ^ exponent := zpow_pos (by norm_num) _
  have hle := mul_le_mul_of_nonneg_right (Nat.cast_le (α := ℚ) |>.mpr h) hstep.le
  rw [abs_sub_comm, abs_of_nonneg (sub_nonneg.mpr (hle.trans (below_spec hscale exponent).1))]

theorem abs_sub_center_of_lt (h : i.below exponent < n) :
    |(n * 10 ^ exponent - i.center : ℚ)| = n * 10 ^ exponent - i.center := by
  have hstep : (0 : ℚ) < 10 ^ exponent := zpow_pos (by norm_num) _
  have hle := mul_le_mul_of_nonneg_right (Nat.cast_le (α := ℚ) |>.mpr (Nat.succ_le_of_lt h)) hstep.le
  exact abs_of_nonneg (sub_nonneg.mpr ((below_spec hscale exponent).2.le.trans hle))

end

/-- No other decimal of the grid that is in the interval is nearer to its center than the one that is found, and if
one is as near then the rule for ties is against it. -/
theorem nearest_of_onGrid {tie : Tie} {exponent : Int} {d : Decimal} (hcenter : i.Has i.center)
    (h : i.onGrid tie exponent = some d) {n : Nat} (hn : i.Has (n * 10 ^ exponent)) (hne : n ≠ d.digits) :
    |d.toRat - i.center| < |n * 10 ^ exponent - i.center| ∨
      |d.toRat - i.center| = |n * 10 ^ exponent - i.center| ∧ tie.Prefers d.digits n := by
  obtain ⟨hbelow, habove⟩ := below_spec hscale exponent
  have hmono {m n : Nat} (h : m < n) : (m * 10 ^ exponent : ℚ) < n * 10 ^ exponent :=
    mul_lt_mul_of_pos_right (Nat.cast_lt.mpr h) (zpow_pos (by norm_num) _)
  have hgap : ((i.below exponent + 1 : ℕ) * 10 ^ exponent : ℚ) = i.below exponent * 10 ^ exponent + 10 ^ exponent := by
    push_cast
    ring
  obtain ⟨rfl, hwhy⟩ | ⟨rfl, hwhy⟩ := onGrid_cases hscale h
  · rw [Decimal.toRat, abs_sub_center_of_le hscale (Nat.le_refl _)]
    obtain hlt | hgt := Nat.lt_or_gt_of_ne hne
    · have hfar := hmono hlt
      rw [abs_sub_center_of_le hscale hlt.le]
      exact .inl (by linarith)
    · rw [abs_sub_center_of_lt hscale hgt]
      obtain rfl | hbeyond := (Nat.succ_le_of_lt hgt).eq_or_lt
      · obtain hout | hless | ⟨heq, htie⟩ := hwhy
        · exact absurd hn hout
        · exact .inl (by linarith)
        · exact .inr ⟨by linarith, Tie.prefers_lower htie⟩
      · have hfar := hmono hbeyond
        obtain hout | hless | ⟨heq, -⟩ := hwhy
        · exact absurd (hcenter.between hn habove.le hfar.le) hout
        · exact .inl (by linarith)
        · exact .inl (by linarith)
  · rw [Decimal.toRat, abs_sub_center_of_lt hscale (Nat.lt_succ_self _)]
    obtain hlt | hgt := Nat.lt_or_gt_of_ne hne
    · have hle := Nat.le_of_lt_succ hlt
      rw [abs_sub_center_of_le hscale hle]
      obtain rfl | hbeyond := hle.eq_or_lt
      · obtain hout | hmore | ⟨heq, htie⟩ := hwhy
        · exact absurd hn hout
        · exact .inl (by linarith)
        · exact .inr ⟨by linarith, Tie.prefers_upper htie⟩
      · have hfar := hmono hbeyond
        obtain hout | hmore | ⟨heq, -⟩ := hwhy
        · exact absurd (hn.between hcenter hfar.le hbelow) hout
        · exact .inl (by linarith)
        · exact .inl (by linarith)
    · have hfar := hmono hgt
      rw [abs_sub_center_of_lt hscale (Nat.lt_of_succ_lt hgt)]
      exact .inl (by linarith)

variable {tie : Tie} {top : Int}

-- With every grid one digit more is before the center.
theorem below_lt (hhigh : i.center < 10 ^ top) (n : Nat) : i.below (top - (n + 1 : Nat)) < 10 ^ (n + 1) := by
  have hbelow := (below_spec hscale (top - (n + 1 : Nat))).1
  have hpow : (0 : ℚ) < 10 ^ (top - (n + 1 : Nat)) := zpow_pos (by norm_num) _
  have hlt := lt_of_le_of_lt hbelow hhigh
  rw [Decimal.zpow_ten (show top = (n + 1 : Nat) + (top - (n + 1 : Nat)) by omega), mul_lt_mul_iff_left₀ hpow] at hlt
  exact_mod_cast hlt

-- A decimal that is found has no more digits than its grid.
theorem length_strip_le (hhigh : i.center < 10 ^ top) {n most : Nat} (hn : n < most) {d : Decimal}
    (hd : i.onGrid tie (top - (n + 1 : Nat)) = some d) : (Numeral.digits (d.strip most).digits).length ≤ n + 1 := by
  have hbelow := below_lt hscale hhigh n
  have hdigits := digits_of_onGrid hd
  by_cases hlt : d.digits < 10 ^ (n + 1)
  · exact Numeral.length_digits_le (Nat.succ_pos n) (Nat.lt_of_le_of_lt (d.digits_strip_le most) hlt)
  · obtain ⟨digits, exponent⟩ := d
    obtain rfl : digits = 10 ^ (n + 1) := by
      dsimp only at hdigits hlt
      omega
    rw [Decimal.digits_strip_power hn, Numeral.digits, if_pos (by decide)]
    exact Nat.succ_le_succ (Nat.zero_le n)

-- A decimal of the interval is on the grid of its digits, unless the leading power of ten is in the interval too.
theorem exists_onGrid (tie : Tie) (hlow : (10 : ℚ) ^ (top - 1) ≤ i.center) (hcenter : i.Has i.center) {d : Decimal}
    (hd : i.Has d.toRat) : ∃ n < (Numeral.digits d.digits).length, i.onGrid tie (top - (n + 1 : Nat)) ≠ none := by
  have hlength := List.length_pos_iff.mpr (Numeral.digits_ne_nil d.digits)
  have hlt := Numeral.lt_pow_length_digits d.digits
  obtain ⟨n, hn⟩ := Nat.exists_eq_succ_of_ne_zero (Nat.pos_iff_ne_zero.mp hlength)
  rw [hn] at hlt ⊢
  by_cases hfine : top - (n + 1 : Nat) ≤ d.exponent
  · obtain ⟨k, hk⟩ := Int.eq_ofNat_of_zero_le (sub_nonneg.mpr hfine)
    refine ⟨n, Nat.lt_succ_self n, onGrid_ne_none hscale hcenter (n := d.digits * 10 ^ k) ?_⟩
    have hsame : ((d.digits * 10 ^ k : ℕ) : ℚ) * 10 ^ (top - (n + 1 : Nat)) = d.toRat := by
      rw [Decimal.toRat, Decimal.zpow_ten (show d.exponent = k + (top - (n + 1 : Nat)) by omega), Nat.cast_mul,
        Nat.cast_pow, Nat.cast_ofNat, mul_assoc]
    rwa [hsame]
  · refine ⟨0, Nat.succ_pos n, onGrid_ne_none hscale hcenter (n := 1) ?_⟩
    rw [Nat.cast_one, one_mul]
    refine hd.between hcenter ?_ (by simpa using hlow)
    calc d.toRat ≤ 10 ^ (n + 1) * 10 ^ d.exponent := by
          refine mul_le_mul_of_nonneg_right ?_ (zpow_nonneg (by norm_num) _)
          exact_mod_cast hlt.le
      _ = 10 ^ ((n + 1 : Nat) + d.exponent) := (Decimal.zpow_ten rfl).symm
      _ ≤ 10 ^ (top - (0 + 1 : Nat)) := zpow_le_zpow_right₀ (by norm_num) (by omega)

/-- No decimal in the interval has fewer digits than the one that is found, if one of the grids looked at has one. -/
theorem length_shortest_le {start : Int} {fuel most depth : Nat} (hcenter : i.Has i.center)
    (hlow : (10 : ℚ) ^ (start - 1) ≤ i.center) (hhigh : i.center < 10 ^ (start + fuel))
    (hmost : ∃ n < most, i.onGrid tie (i.leadingExponent start fuel - (n + 1 : Nat)) ≠ none) {d : Decimal}
    (hd : i.Has d.toRat) :
    (Numeral.digits (i.shortest tie start fuel most depth).digits).length ≤ (Numeral.digits d.digits).length := by
  obtain ⟨hbelow, habove⟩ := leadingExponent_spec hscale hlow hhigh
  obtain ⟨n, hn, hgrid⟩ := exists_onGrid hscale tie hbelow hcenter hd
  obtain ⟨m, hm, hmgrid⟩ := hmost
  -- the first grid with a decimal in the interval is no finer than that of the digits
  obtain ⟨k, hk, hkn, hkgrid⟩ : ∃ k < most, k ≤ n ∧
      i.onGrid tie (i.leadingExponent start fuel - (k + 1 : Nat)) ≠ none := by
    obtain hlt | hle := Nat.lt_or_ge n most
    · exact ⟨n, hlt, Nat.le_refl n, hgrid⟩
    · exact ⟨m, hm, by omega, hmgrid⟩
  unfold shortest
  dsimp only
  split
  · rename_i found hfound
    obtain ⟨a, hle, ha⟩ := le_of_findSome?_range hk hkgrid hfound
    have hlength := length_strip_le hscale habove (Nat.lt_of_le_of_lt hle hk) ha
    omega
  · rename_i hnone
    rw [List.findSome?_eq_none_iff] at hnone
    exact absurd (hnone k (List.mem_range.mpr hk)) hkgrid

end

end Interval

namespace Sample

open Binary

-- A decimal that is read as a sample is in the interval of the sample.
theorem contains_of_ofDecimal {s : Sample} (hpos : 0 < s.word) (hs : s.word < single.infinity) {negative : Bool}
    {d : Decimal} (h : ofDecimal negative d = s) : s.interval.Contains d := by
  have hrounds := nearest_rounds d
  have hword : single.nearest (d.numerator * single.one) d.denominator = s.word := by
    rw [← word_ofWord negative hrounds.le, ← ofDecimal_eq_nearest, h]
  rw [hword] at hrounds
  obtain ⟨-, hlow, hhigh, hodd⟩ := hrounds
  have hscale : d.numerator * s.interval.scale = 2 * (d.numerator * single.one) := by
    rw [interval_scale, Nat.mul_left_comm]
  rw [Interval.Contains, Interval.Within, hscale]
  refine ⟨hlow hpos, hhigh hs, ?_⟩
  obtain heven | hodd' : s.word % 2 = 0 ∨ s.word % 2 = 1 := by omega
  · exact .inl (beq_iff_eq.mpr heven)
  · exact .inr ⟨(hodd hodd').1 hpos, (hodd hodd').2 hs⟩

section

variable {s : Sample} (hpos : 0 < s.word)

theorem scale_interval_pos (s : Sample) : 0 < s.interval.scale := by
  rw [interval_scale]
  exact Nat.mul_pos (by decide) (Nat.pow_pos (by decide))

theorem middle_interval (s : Sample) : (s.interval.middle : ℚ) = 2 * s.steps := by
  change ((2 * s.steps : ℕ) : ℚ) = _
  rw [Nat.cast_mul, Nat.cast_ofNat]

theorem high_interval (s : Sample) : (s.interval.high : ℚ) = s.steps + single.steps (s.word + 1) :=
  Nat.cast_add _ _

theorem center_interval (s : Sample) : s.interval.center = s.steps / single.one := by
  rw [Interval.center, interval_scale, middle_interval, Nat.cast_mul, Nat.cast_ofNat,
    mul_div_mul_left _ _ two_ne_zero]

include hpos

theorem has_of_between {x : ℚ} (hlow : (s.interval.middle : ℚ) ≤ x * s.interval.scale)
    (hhigh : x * s.interval.scale < s.interval.high) : s.interval.Has x := by
  have hlt : (s.interval.low : ℚ) < x * s.interval.scale :=
    lt_of_lt_of_le (Nat.cast_lt.mpr (low_lt_middle hpos)) hlow
  exact ⟨hlt.le, hhigh.le, .inr ⟨hlt, hhigh⟩⟩

theorem has_center : s.interval.Has s.interval.center := by
  have hcenter := Interval.center_mul_scale (scale_interval_pos s)
  refine has_of_between hpos hcenter.ge ?_
  rw [hcenter]
  exact Nat.cast_lt.mpr (middle_lt_high s)

-- Nine digits are finer than the upper half gap.
theorem onGrid_nine (tie : Tie) {top : Int} (hlow : (10 : ℚ) ^ (top - 1) ≤ s.interval.center) :
    s.interval.onGrid tie (top - (8 + 1 : Nat)) ≠ none := by
  have hscale := scale_interval_pos s
  obtain ⟨hbelow, habove⟩ := Interval.below_spec hscale (top - (8 + 1 : Nat))
  refine Interval.onGrid_ne_none hscale (has_center hpos) (n := s.interval.below (top - (8 + 1 : Nat)) + 1) ?_
  generalize s.interval.below (top - (8 + 1 : Nat)) = n at hbelow habove ⊢
  -- the step of the grid, a hundred millionth of the leading power of ten
  have hgrid : (10 : ℚ) ^ (top - 1) = 10 ^ 8 * 10 ^ (top - (8 + 1 : Nat)) := Decimal.zpow_ten (by omega)
  have hpositive : (0 : ℚ) < 10 ^ (top - (8 + 1 : Nat)) := zpow_pos (by norm_num) _
  generalize (10 : ℚ) ^ (top - (8 + 1 : Nat)) = step at hbelow habove hgrid hpositive ⊢
  have hone : (0 : ℚ) < step * single.one := mul_pos hpositive one_pos
  have hstep : 10 ^ 8 * (step * single.one) ≤ s.steps := by
    rwa [hgrid, center_interval, le_div_iff₀ one_pos, mul_assoc] at hlow
  have hgap : (s.steps : ℚ) < 2 ^ 24 * (single.steps (s.word + 1) - s.steps) := by
    have hlt : (s.steps : ℚ) < single.steps (s.word + 1) :=
      Nat.cast_lt.mpr (single.strictMono_steps (Nat.lt_succ_self _))
    have hgaps : (single.steps (s.word + 1) : ℚ) + 2 ^ 24 * s.steps ≤ 2 ^ 24 * single.steps (s.word + 1) := by
      exact_mod_cast single.steps_succ_le_gaps s.word
    linarith
  have hnext : (n + 1 : ℕ) * step ≤ s.interval.center + step := by
    rw [Nat.cast_succ, add_mul, one_mul]
    exact add_le_add_left hbelow _
  have hscale' : (0 : ℚ) < s.interval.scale := Nat.cast_pos.mpr hscale
  refine has_of_between hpos ?_ ?_
  · rw [← Interval.center_mul_scale hscale]
    exact mul_le_mul_of_nonneg_right habove.le hscale'.le
  · refine lt_of_le_of_lt (mul_le_mul_of_nonneg_right hnext hscale'.le) ?_
    rw [add_mul, Interval.center_mul_scale hscale, middle_interval, high_interval, interval_scale, Nat.cast_mul,
      Nat.cast_ofNat]
    linarith

end

-- The range in which the leading power of ten is looked for.
theorem center_range {s : Sample} (hpos : 0 < s.word) (hs : s.word < single.infinity) :
    (10 : ℚ) ^ ((-46 : Int) - 1) ≤ s.interval.center ∧ s.interval.center < 10 ^ ((-46 : Int) + (90 : Nat)) := by
  have hcenter := center_interval s
  have hone : (1 : ℚ) ≤ s.steps := by
    exact_mod_cast Nat.succ_le_of_lt (single.strictMono_steps hpos)
  have hsteps : (s.steps : ℚ) < 2 ^ 128 * single.one := by
    exact_mod_cast Nat.lt_of_lt_of_eq (single.strictMono_steps hs) steps_infinity
  constructor
  · rw [hcenter, le_div_iff₀ one_pos]
    refine le_trans ?_ hone
    norm_num [Format.one, single]
  · rw [hcenter, div_lt_iff₀ one_pos]
    refine lt_of_lt_of_le hsteps (mul_le_mul_of_nonneg_right ?_ one_pos.le)
    norm_num

/-- No decimal that is read as the sample has fewer digits than the sample is written with. -/
theorem length_decimal_le {s : Sample} (tie : Tie) (hs : s.isFinite = true) {d : Decimal}
    (h : ofDecimal s.negative d = s) :
    (Numeral.digits (s.decimal tie).digits).length ≤ (Numeral.digits d.digits).length := by
  rw [isFinite, decide_eq_true_eq] at hs
  have hlength := List.length_pos_iff.mpr (Numeral.digits_ne_nil d.digits)
  by_cases hzero : s.word = 0
  · rw [decimal_of_word_zero hzero, Numeral.digits, if_pos (by decide)]
    exact hlength
  · have hpos := Nat.pos_of_ne_zero hzero
    obtain ⟨hlow, hhigh⟩ := center_range hpos hs
    have hscale := scale_interval_pos s
    obtain ⟨hbelow, -⟩ := Interval.leadingExponent_spec hscale hlow hhigh
    have hhas := (Interval.contains_iff_has d).mp (contains_of_ofDecimal hpos hs h)
    rw [decimal, if_neg (by simpa [isZero] using hzero)]
    exact Interval.length_shortest_le hscale (has_center hpos) hlow hhigh
      ⟨8, by decide, onGrid_nine hpos tie hbelow⟩ hhas

end Sample

end SampleStream
