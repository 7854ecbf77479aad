import Mathlib.Algebra.Order.Ring.Nat
import Mathlib.Data.List.Induction
import Mathlib.Tactic.Ring
import SampleStream.Decimal

/-!
# Decimals in an interval

What the search for the fewest digits gives lies in the interval that it searches (`contains_shortest`),
and the digits around the point stand for the same number (`contains_iff_within_parts`).
-/

namespace SampleStream

namespace Numeral

theorem isDigit_digitChar {d : Nat} (h : d < 10) : isDigit (digitChar d) = true := by
  have hall : ∀ d : Fin 10, isDigit (digitChar d.val) = true := by decide
  exact hall ⟨d, h⟩

theorem isDigit_of_mem_digits (n : Nat) : ∀ c ∈ digits n, isDigit c = true := by
  fun_induction digits n with
  | case1 n h =>
    intro c hc
    rw [List.mem_singleton.mp hc]
    exact isDigit_digitChar h
  | case2 n h ih =>
    intro c hc
    rcases List.mem_append.mp hc with hc | hc
    · exact ih c hc
    · rw [List.mem_singleton.mp hc]
      exact isDigit_digitChar (Nat.mod_lt n (by decide))

theorem digits_ne_nil (n : Nat) : digits n ≠ [] := by
  rw [digits]
  split <;> simp

theorem value_append (cs ds : List Char) : value (cs ++ ds) = value cs * 10 ^ ds.length + value ds := by
  induction ds using List.reverseRecOn with
  | nil => simp [value]
  | append_singleton ds d ih =>
    rw [← List.append_assoc, value_append_singleton, value_append_singleton, ih, List.length_append,
      List.length_singleton]
    ring

theorem value_replicate_zero (n : Nat) : value (List.replicate n '0') = 0 := by
  induction n with
  | zero => rfl
  | succ n ih =>
    rw [List.replicate_succ', value_append_singleton, ih]
    rfl

theorem lt_pow_length_digits (n : Nat) : n < 10 ^ (digits n).length := by
  fun_induction digits n with
  | case1 n h => simpa using h
  | case2 n h ih =>
    rw [List.length_append, List.length_singleton, Nat.pow_succ]
    omega

theorem pow_length_digits_le {n : Nat} (hn : n ≠ 0) : 10 ^ ((digits n).length - 1) ≤ n := by
  fun_induction digits n with
  | case1 n h =>
    change 1 ≤ n
    exact Nat.pos_of_ne_zero hn
  | case2 n h ih =>
    have hlen := List.length_pos_iff.mpr (digits_ne_nil (n / 10))
    obtain ⟨k, hk⟩ := Nat.exists_eq_succ_of_ne_zero (Nat.pos_iff_ne_zero.mp hlen)
    have hle := ih (by omega)
    rw [hk] at hle
    rw [List.length_append, List.length_singleton, hk, Nat.succ_eq_add_one, Nat.add_sub_cancel,
      Nat.pow_succ]
    simp only [Nat.succ_eq_add_one, Nat.add_sub_cancel] at hle
    omega

theorem length_digits_le {n k : Nat} (hk : 0 < k) (h : n < 10 ^ k) : (digits n).length ≤ k := by
  by_cases hn : n = 0
  · rw [hn, digits, if_pos (by decide)]
    exact hk
  · have hle := pow_length_digits_le hn
    have hlt := (Nat.pow_lt_pow_iff_right (by decide : 1 < 10)).mp (Nat.lt_of_le_of_lt hle h)
    omega

end Numeral

namespace Decimal

/-- The number of a decimal, as a quotient. -/
def numerator (d : Decimal) : Nat :=
  d.digits * (power d.exponent).1

def denominator (d : Decimal) : Nat :=
  (power d.exponent).2

theorem power_neg (n : Nat) : power (-(n : Int)) = (1, 10 ^ n) := by
  cases n <;> rfl

theorem denominator_pos (d : Decimal) : 0 < d.denominator := by
  unfold denominator power
  split
  · exact Nat.one_pos
  · exact Nat.pow_pos (by decide)

-- A zero at the end, moved to the exponent.
theorem numerator_mul_shift (n : Nat) (exponent : Int) :
    (Decimal.mk (10 * n) exponent).numerator * (Decimal.mk n (exponent + 1)).denominator =
      (Decimal.mk n (exponent + 1)).numerator * (Decimal.mk (10 * n) exponent).denominator := by
  unfold numerator denominator
  match exponent with
  | .ofNat k =>
    change 10 * n * 10 ^ k * 1 = n * 10 ^ (k + 1) * 1
    ring
  | .negSucc 0 =>
    change 10 * n * 1 * 1 = n * 1 * 10 ^ 1
    ring
  | .negSucc (k + 1) =>
    change 10 * n * 1 * 10 ^ (k + 1) = n * 1 * 10 ^ (k + 1 + 1)
    ring

end Decimal

namespace Interval

variable {i : Interval}

/-- The quotient is one of the reals of the interval. -/
def Within (i : Interval) (num den : Nat) : Prop :=
  i.low * den ≤ num * i.scale ∧ num * i.scale ≤ i.high * den ∧
    (i.closed = true ∨ i.low * den < num * i.scale ∧ num * i.scale < i.high * den)

def Contains (i : Interval) (d : Decimal) : Prop :=
  i.Within d.numerator d.denominator

theorem within_mul_right {a b c : Nat} (hc : 0 < c) : i.Within (a * c) (b * c) ↔ i.Within a b := by
  have hmid : a * c * i.scale = a * i.scale * c := by ring
  unfold Within
  rw [hmid, ← Nat.mul_assoc, ← Nat.mul_assoc, Nat.mul_le_mul_right_iff hc, Nat.mul_le_mul_right_iff hc,
    Nat.mul_lt_mul_right hc, Nat.mul_lt_mul_right hc]

-- Only the number counts, not the quotient that it is given by.
theorem within_congr {a b c d : Nat} (hb : 0 < b) (hd : 0 < d) (h : a * d = c * b) :
    i.Within a b ↔ i.Within c d := by
  rw [← within_mul_right hd, h, Nat.mul_comm b d, within_mul_right hb]

theorem contains_of_holds {d : Decimal} (h : i.holds d = true) : i.Contains d := by
  unfold holds at h
  unfold Contains Within Decimal.numerator Decimal.denominator
  generalize Decimal.power d.exponent = p at h ⊢
  obtain ⟨num, den⟩ := p
  dsimp only at h ⊢
  split at h
  · rename_i hclosed
    simp only [Bool.and_eq_true, decide_eq_true_eq] at h
    exact ⟨h.1, h.2, .inl hclosed⟩
  · simp only [Bool.and_eq_true, decide_eq_true_eq] at h
    exact ⟨Nat.le_of_lt h.1, Nat.le_of_lt h.2, .inr h⟩

theorem holds_of_contains {d : Decimal} (h : i.Contains d) : i.holds d = true := by
  obtain ⟨hlow, hhigh, hends⟩ := h
  unfold holds
  unfold Decimal.numerator Decimal.denominator at hlow hhigh hends
  generalize Decimal.power d.exponent = p at hlow hhigh hends ⊢
  obtain ⟨num, den⟩ := p
  dsimp only at hlow hhigh hends ⊢
  split
  · simp [hlow, hhigh]
  · rename_i hopen
    obtain ⟨hbelow, habove⟩ := hends.resolve_left hopen
    simp [hbelow, habove]

theorem holds_of_onGrid {tie : Tie} {exponent : Int} {d : Decimal} (h : i.onGrid tie exponent = some d) :
    i.holds d = true := by
  unfold onGrid at h
  dsimp only at h
  split at h
  · rename_i hbelow habove
    split at h <;> cases h <;> assumption
  · cases h; assumption
  · cases h; assumption
  · cases h

theorem contains_strip (fuel : Nat) (d : Decimal) : i.Contains (d.strip fuel) ↔ i.Contains d := by
  induction fuel generalizing d with
  | zero => rfl
  | succ fuel ih =>
    rw [Decimal.strip]
    split
    · rename_i hzero
      obtain ⟨n, hn⟩ : ∃ n, d.digits = 10 * n := ⟨d.digits / 10, by omega⟩
      obtain ⟨digits, exponent⟩ := d
      dsimp only at hn
      subst hn
      rw [ih, Nat.mul_div_cancel_left n (by decide)]
      exact (within_congr (Decimal.denominator_pos _) (Decimal.denominator_pos _)
        (Decimal.numerator_mul_shift n exponent)).symm
    · rfl

-- The shortest decimal lies in the interval: the search gives none but such, and falls back to the
-- middle.
theorem contains_shortest {depth : Nat} (hlow : i.low < i.middle) (hhigh : i.middle < i.high)
    (hscale : i.scale = 2 ^ (depth + 1)) (tie : Tie) (start : Int) (span most : Nat) :
    i.Contains (i.shortest tie start span most (depth + 1)) := by
  unfold shortest
  dsimp only
  split
  · rename_i d hd
    obtain ⟨n, -, hgrid⟩ := List.exists_of_findSome?_eq_some hd
    exact (contains_strip most d).mpr (contains_of_holds (holds_of_onGrid hgrid))
  · -- the middle itself, written with a five for every two of the scale
    have hten : (2 : Nat) ^ (depth + 1) * 5 ^ (depth + 1) = 10 ^ (depth + 1) := by
      rw [← Nat.mul_pow]
    have hmid : i.middle * Nat.pow 5 (depth + 1) * 1 * i.scale = i.middle * 10 ^ (depth + 1) := by
      rw [hscale, ← hten]
      change i.middle * 5 ^ (depth + 1) * 1 * 2 ^ (depth + 1) = _
      ring
    have hpos : 0 < 10 ^ (depth + 1) := Nat.pow_pos (by decide)
    have hbelow := Nat.mul_lt_mul_of_pos_right hlow hpos
    have habove := Nat.mul_lt_mul_of_pos_right hhigh hpos
    change i.low * 10 ^ (depth + 1) ≤ i.middle * Nat.pow 5 (depth + 1) * 1 * i.scale ∧
      i.middle * Nat.pow 5 (depth + 1) * 1 * i.scale ≤ i.high * 10 ^ (depth + 1) ∧
      (i.closed = true ∨ i.low * 10 ^ (depth + 1) < i.middle * Nat.pow 5 (depth + 1) * 1 * i.scale ∧
        i.middle * Nat.pow 5 (depth + 1) * 1 * i.scale < i.high * 10 ^ (depth + 1))
    rw [hmid]
    exact ⟨Nat.le_of_lt hbelow, Nat.le_of_lt habove, .inr ⟨hbelow, habove⟩⟩

end Interval

namespace Decimal

theorem isDigit_of_mem_replicate {n : Nat} : ∀ c ∈ List.replicate n '0', Numeral.isDigit c = true := by
  intro c hc
  rw [List.eq_of_mem_replicate hc]
  decide

-- Around the point stand digits, at least one of them before it.
theorem parts_digits (d : Decimal) : d.parts.1 ≠ [] ∧
    (∀ c ∈ d.parts.1, Numeral.isDigit c = true) ∧ ∀ c ∈ d.parts.2, Numeral.isDigit c = true := by
  have hne := Numeral.digits_ne_nil d.digits
  have hdigits := Numeral.isDigit_of_mem_digits d.digits
  unfold parts
  dsimp only
  -- zeros behind the digits, the point among them, or zeros in front
  generalize Numeral.digits d.digits = ds at hne hdigits ⊢
  split
  · rename_i n _
    refine ⟨by simp [hne], fun c hc => ?_, by simp⟩
    rcases List.mem_append.mp hc with hc | hc
    · exact hdigits c hc
    · exact isDigit_of_mem_replicate c hc
  · rename_i n _
    split
    · rename_i hlt
      rw [List.splitAt_eq]
      refine ⟨?_, fun c hc => hdigits c (List.mem_of_mem_take hc),
        fun c hc => hdigits c (List.mem_of_mem_drop hc)⟩
      simp only [ne_eq, List.take_eq_nil_iff, hne, or_false]
      omega
    · refine ⟨by simp, by simp [Numeral.isDigit], fun c hc => ?_⟩
      rcases List.mem_append.mp hc with hc | hc
      · exact isDigit_of_mem_replicate c hc
      · exact hdigits c hc

theorem length_fraction (d : Decimal) : d.parts.2.length = (-d.exponent).toNat := by
  obtain ⟨digits, exponent⟩ := d
  unfold parts
  dsimp only
  split
  · exact (Int.toNat_of_nonpos (Int.neg_nonpos_of_nonneg (Int.natCast_nonneg _))).symm
  · change _ = _ + 1
    split
    · rw [List.splitAt_eq, List.length_drop]
      omega
    · rw [List.length_append, List.length_replicate]
      omega

theorem isEmpty_fraction (d : Decimal) : d.parts.2.isEmpty = decide (0 ≤ d.exponent) := by
  rw [Bool.eq_iff_iff, List.isEmpty_iff, ← List.length_eq_zero_iff, length_fraction, decide_eq_true_eq]
  omega

-- The digits around the point stand for the decimal.
theorem value_parts (d : Decimal) : Numeral.value (d.parts.1 ++ d.parts.2) * d.denominator =
    d.numerator * 10 ^ d.parts.2.length := by
  obtain ⟨digits, exponent⟩ := d
  unfold numerator denominator
  match exponent with
  | .ofNat n =>
    change Numeral.value (Numeral.digits digits ++ List.replicate n '0' ++ []) * 1 =
      digits * 10 ^ n * 10 ^ 0
    rw [List.append_nil, Numeral.value_append, Numeral.value_digits, Numeral.value_replicate_zero,
      List.length_replicate]
    ring
  | .negSucc n =>
    -- the parts hold the same digits, and as many behind the point as the exponent says
    have hlength : (parts ⟨digits, .negSucc n⟩).2.length = n + 1 := length_fraction _
    have hvalue : Numeral.value ((parts ⟨digits, .negSucc n⟩).1 ++ (parts ⟨digits, .negSucc n⟩).2) = digits := by
      unfold parts
      dsimp only
      split
      · rw [List.splitAt_eq, List.take_append_drop, Numeral.value_digits]
      · rw [Numeral.value_append, Numeral.value_append, Numeral.value_digits, Numeral.value_replicate_zero]
        simp [Numeral.value, Numeral.digitValue]
    rw [hvalue, hlength]
    change digits * 10 ^ (n + 1) = digits * 1 * 10 ^ (n + 1)
    ring

-- The magnitude bounds the number from below.
theorem le_numerator {d : Decimal} (hd : d.digits ≠ 0) {n : Nat} (h : (n : Int) ≤ d.magnitude) :
    10 ^ n * d.denominator ≤ d.numerator := by
  have hlead := Numeral.pow_length_digits_le hd
  obtain ⟨digits, exponent⟩ := d
  unfold magnitude at h
  dsimp only at h hlead
  generalize (Numeral.digits digits).length - 1 = lead at h hlead
  match exponent with
  | .ofNat k =>
    have hle : n ≤ lead + k := by
      simp only [Int.ofNat_eq_natCast] at h
      omega
    change 10 ^ n * 1 ≤ digits * 10 ^ k
    calc 10 ^ n * 1 ≤ 10 ^ (lead + k) := by rw [Nat.mul_one]; exact Nat.pow_le_pow_right (by decide) hle
      _ = 10 ^ lead * 10 ^ k := Nat.pow_add 10 lead k
      _ ≤ digits * 10 ^ k := Nat.mul_le_mul_right _ hlead
  | .negSucc k =>
    have hle : n + (k + 1) ≤ lead := by omega
    change 10 ^ n * 10 ^ (k + 1) ≤ digits * 1
    calc 10 ^ n * 10 ^ (k + 1) = 10 ^ (n + (k + 1)) := (Nat.pow_add 10 n (k + 1)).symm
      _ ≤ 10 ^ lead := Nat.pow_le_pow_right (by decide) hle
      _ ≤ digits * 1 := by rw [Nat.mul_one]; exact hlead

-- The magnitude bounds the number from above.
theorem numerator_lt {d : Decimal} {n : Nat} (h : d.magnitude < -n) :
    d.numerator * 10 ^ n < d.denominator := by
  have hpos := List.length_pos_iff.mpr (Numeral.digits_ne_nil d.digits)
  have hlt := Numeral.lt_pow_length_digits d.digits
  obtain ⟨digits, exponent⟩ := d
  unfold magnitude at h
  dsimp only at h hpos hlt
  generalize (Numeral.digits digits).length = length at h hpos hlt
  match exponent with
  | .ofNat k =>
    simp only [Int.ofNat_eq_natCast] at h
    omega
  | .negSucc k =>
    have hle : length + n ≤ k + 1 := by omega
    change digits * 1 * 10 ^ n < 10 ^ (k + 1)
    calc digits * 1 * 10 ^ n < 10 ^ length * 10 ^ n := by
          rw [Nat.mul_one]
          exact Nat.mul_lt_mul_of_pos_right hlt (Nat.pow_pos (by decide))
      _ = 10 ^ (length + n) := (Nat.pow_add 10 length n).symm
      _ ≤ 10 ^ (k + 1) := Nat.pow_le_pow_right (by decide) hle

end Decimal

theorem Interval.contains_iff_within_parts (i : Interval) (d : Decimal) : i.Contains d ↔
    i.Within (Numeral.value (d.parts.1 ++ d.parts.2)) (10 ^ d.parts.2.length) :=
  (within_congr (Nat.pow_pos (by decide)) d.denominator_pos d.value_parts).symm

end SampleStream
