import SampleStream.Json
import SampleStream.Proofs.Shortest

/-!
# Double precision

A number is rounded to a word whose number is within a half of a last bit of it (`Format.Rounded.close`), and to the
word that stands for just that number, if one does (`Format.Rounded.eq`). A decimal is read with two such roundings,
of the power of ten and of the product or quotient. So what is read is within `17 / 2 ^ 56` of it (`Scales.close`), and
is the decimal itself if that is a number of less than 53 bits (`Scales.exact`).
-/

namespace SampleStream

namespace Binary

/-- The second number is at most so many of its `2 ^ 56` parts away from the first. -/
structure Close (parts : ℚ) (x y : ℚ) : Prop where
  below : (2 ^ 56 - parts) * y ≤ 2 ^ 56 * x
  above : 2 ^ 56 * x ≤ (2 ^ 56 + parts) * y

namespace Close

variable {parts c x y z : ℚ}

theorem mul_left (h : Close parts x y) (hc : 0 ≤ c) : Close parts (c * x) (c * y) := by
  have hbelow := mul_le_mul_of_nonneg_left h.below hc
  have habove := mul_le_mul_of_nonneg_left h.above hc
  exact ⟨by linarith, by linarith⟩

-- What is divided by a number is closer to what is divided by the other.
theorem div_left (h : Close parts x y) (hc : 0 ≤ c) (hx : 0 < x) (hy : 0 < y) :
    Close parts (c / y) (c / x) := by
  have hbelow := mul_le_mul_of_nonneg_left h.below hc
  have habove := mul_le_mul_of_nonneg_left h.above hc
  constructor
  · rw [mul_div_assoc', mul_div_assoc', div_le_div_iff₀ hx hy]
    linarith
  · rw [mul_div_assoc', mul_div_assoc', div_le_div_iff₀ hy hx]
    linarith

/-- One rounding after the other, and one besides the other. -/
theorem trans (h : Close 8 x y) (h' : Close 8 y z) (hz : 0 ≤ z) : Close 17 x z := by
  obtain ⟨hbelow, habove⟩ := h
  obtain ⟨hbelow', habove'⟩ := h'
  constructor <;> linarith

theorem trans_left (h : Close 8 y x) (h' : Close 8 y z) (hz : 0 ≤ z) : Close 17 x z := by
  obtain ⟨hbelow, habove⟩ := h
  obtain ⟨hbelow', habove'⟩ := h'
  constructor <;> linarith

end Close

end Binary

namespace Binary.Format

variable {f : Format} {word other k : Nat} {x y : ℚ}

/-- The number of a word. -/
def value (f : Format) (word : Nat) : ℚ :=
  f.steps word / f.one

/-- The word is what the number is rounded to. -/
def Rounded (f : Format) (x : ℚ) (word : Nat) : Prop :=
  ∃ num den : Nat, 0 < den ∧ x * f.one = num / den ∧ f.nearest num den = word

theorem one_pos (f : Format) : (0 : ℚ) < f.one :=
  Nat.cast_pos.mpr (Nat.pow_pos (by decide))

theorem cast_one (f : Format) : (f.one : ℚ) = 2 ^ f.depth :=
  Nat.cast_pow 2 f.depth

theorem value_mul_one (f : Format) (word : Nat) : f.value word * f.one = f.steps word :=
  div_mul_cancel₀ _ f.one_pos.ne'

theorem value_nonneg (f : Format) (word : Nat) : 0 ≤ f.value word :=
  div_nonneg (Nat.cast_nonneg _) f.one_pos.le

theorem rounded_ofDecimal (f : Format) (digits : Nat) (exponent : Int) :
    f.Rounded (digits * 10 ^ exponent) (f.ofDecimal digits exponent) := by
  cases exponent with
  | ofNat n =>
    refine ⟨digits * 10 ^ n * f.one, 1, Nat.one_pos, ?_, rfl⟩
    rw [Nat.cast_one, div_one, Int.ofNat_eq_natCast, zpow_natCast]
    push_cast
    rfl
  | negSucc n =>
    refine ⟨digits * f.one, 10 ^ (n + 1), Nat.pow_pos (by decide), ?_, rfl⟩
    rw [zpow_negSucc]
    push_cast
    rw [div_eq_mul_inv, mul_right_comm]

theorem rounded_mul (f : Format) (a b : Nat) : f.Rounded (f.value a * f.value b) (f.mul a b) := by
  refine ⟨f.steps a * f.steps b, f.one, Nat.pow_pos (by decide), ?_, rfl⟩
  rw [Nat.cast_mul, ← f.value_mul_one a, ← f.value_mul_one b, eq_div_iff f.one_pos.ne']
  ring

theorem rounded_div (f : Format) (a : Nat) {b : Nat} (hb : 0 < f.steps b) :
    f.Rounded (f.value a / f.value b) (f.div a b) := by
  refine ⟨f.steps a * f.one, f.steps b, hb, ?_, rfl⟩
  rw [Nat.cast_mul, value, value, div_div_div_cancel_right₀ f.one_pos.ne', div_mul_eq_mul_div]

-- A number with a full mantissa is no less than as many gaps as there are fractions, above it and below it.
theorem mul_gap_le (f : Format) (h : f.fractions ≤ word) :
    f.fractions * f.steps (word + 1) ≤ (f.fractions + 1) * f.steps word := by
  obtain ⟨k, m, rfl, -, hk, hword, hnext⟩ := f.exists_gap word
  have hfull : f.fractions ≤ m := by
    obtain rfl | hle := hk
    · rwa [Nat.zero_mul, Nat.zero_add] at h
    · exact hle
  rw [hword, hnext, ← Nat.mul_assoc, ← Nat.mul_assoc]
  refine Nat.mul_le_mul_right _ ?_
  rw [Nat.mul_succ, Nat.succ_mul]
  exact Nat.add_le_add_left hfull _

theorem mul_gap_succ_le (f : Format) (h : f.fractions ≤ word + 1) :
    f.fractions * f.steps (word + 1) ≤ f.fractions * f.steps word + f.steps (word + 1) := by
  obtain ⟨k, m, rfl, -, hk, hword, hnext⟩ := f.exists_gap word
  have hfull : f.fractions ≤ m + 1 := by
    obtain rfl | hle := hk
    · rwa [Nat.zero_mul, Nat.zero_add] at h
    · exact Nat.le_succ_of_le hle
  rw [hword, hnext, ← Nat.mul_assoc, ← Nat.mul_assoc, ← Nat.add_mul]
  refine Nat.mul_le_mul_right _ ?_
  rw [Nat.mul_succ]
  exact Nat.add_le_add_left hfull _

-- A number that has no more bits than a mantissa is that of a word.
theorem exists_steps (f : Format) {mantissa : Nat} (h : mantissa ≤ 2 * f.fractions) (k : Nat) :
    ∃ word, f.steps word = mantissa * 2 ^ k := by
  induction k generalizing mantissa with
  | zero => exact ⟨0 * f.fractions + mantissa, steps_eq h (.inl rfl)⟩
  | succ k ih =>
    by_cases hfull : f.fractions ≤ mantissa
    · exact ⟨(k + 1) * f.fractions + mantissa, steps_eq h (.inr hfull)⟩
    · obtain ⟨word, hword⟩ := ih (show 2 * mantissa ≤ 2 * f.fractions by omega)
      refine ⟨word, hword.trans ?_⟩
      ring

namespace Rounded

section

variable (hf : 0 < f.fraction) (hinfinity : f.infinity = (k + 2) * f.fractions)

include hf hinfinity

/-- The number of a word is rounded to that word. -/
theorem eq (h : f.Rounded (f.value other) word) (hother : other ≤ f.infinity) : word = other := by
  obtain ⟨num, den, hden, hx, rfl⟩ := h
  have hden' : (den : ℚ) ≠ 0 := Nat.cast_ne_zero.mpr hden.ne'
  obtain rfl : num = f.steps other * den := by
    rw [value_mul_one, eq_div_iff hden'] at hx
    exact_mod_cast hx.symm
  have hmono := f.strictMono_steps
  have habove : f.steps other < f.steps (other + 1) := hmono (Nat.lt_succ_self other)
  have hbelow (hpos : 0 < other) : f.steps (other - 1) + f.steps other < 2 * f.steps other := by
    have hlt : f.steps (other - 1) < f.steps other := hmono (by omega)
    omega
  refine nearest_of_rounds hf hinfinity hden
    ⟨hother, fun hpos => ?_, fun _ => ?_, fun _ => ⟨fun hpos => ?_, fun _ => ?_⟩⟩
  all_goals rw [← Nat.mul_assoc]
  · exact Nat.mul_le_mul_right den (hbelow hpos).le
  · exact Nat.mul_le_mul_right den (by omega)
  · exact Nat.mul_lt_mul_of_pos_right (hbelow hpos) hden
  · exact Nat.mul_lt_mul_of_pos_right (by omega) hden

/-- A number with a full mantissa is rounded to one within a half of its last bit. -/
theorem close (h : f.Rounded x word) (hlow : f.fractions ≤ x * f.one) (hhigh : x ≤ f.value (f.infinity - 1)) :
    word < f.infinity ∧ 2 * f.fractions * |x - f.value word| ≤ f.value word := by
  obtain ⟨num, den, hden, hx, rfl⟩ := h
  have hrounds : f.Rounds num den (f.nearest num den) := nearest_rounds hf hinfinity hden
  generalize f.nearest num den = word at hrounds ⊢
  have hmono := f.strictMono_steps
  have hF := f.fractions_pos
  have hinfinity' : f.fractions < f.infinity := by
    rw [hinfinity, Nat.succ_mul]
    exact Nat.lt_add_of_pos_left (Nat.mul_pos (Nat.succ_pos k) hF)
  -- the word is one of a full mantissa, and is not that of infinity
  have hfull : f.fractions ≤ word := by
    by_contra hlt
    have hfirst : f.steps f.fractions = f.fractions := by
      simpa using steps_eq (k := 0) (m := f.fractions) (by omega) (.inl rfl)
    obtain ⟨hmiddle, -⟩ := hrounds.le_middle hden (Nat.lt_of_not_le hlt) hinfinity'.le
    have hless : (f.steps word : ℚ) < f.steps f.fractions := Nat.cast_lt.mpr (hmono (Nat.lt_of_not_le hlt))
    rw [hfirst] at hmiddle hless
    linarith
  have hfinite : word < f.infinity := by
    by_contra hge
    obtain ⟨hmiddle, -⟩ := hrounds.middle_le hden (show f.infinity - 1 < word by omega)
    have hless : (f.steps (f.infinity - 1) : ℚ) < f.steps word := Nat.cast_lt.mpr (hmono (by omega))
    have hmost := mul_le_mul_of_nonneg_right hhigh f.one_pos.le
    rw [value_mul_one, hx] at hmost
    linarith
  refine ⟨hfinite, ?_⟩
  have hbelow := (hrounds.middle_le hden (show word - 1 < word by omega)).1
  have habove := (hrounds.le_middle hden (Nat.lt_succ_self word) hfinite).1
  have hgap : (f.fractions * f.steps (word + 1) : ℚ) ≤ (f.fractions + 1) * f.steps word := by
    exact_mod_cast f.mul_gap_le hfull
  have hgap' : (f.fractions * f.steps word : ℚ) ≤ f.fractions * f.steps (word - 1) + f.steps word := by
    have hle := f.mul_gap_succ_le (show f.fractions ≤ word - 1 + 1 by omega)
    rw [Nat.sub_add_cancel (by omega)] at hle
    exact_mod_cast hle
  have hF' : (0 : ℚ) < f.fractions := Nat.cast_pos.mpr hF
  have hbelow' := mul_le_mul_of_nonneg_left hbelow hF'.le
  have habove' := mul_le_mul_of_nonneg_left habove hF'.le
  rw [← mul_le_mul_iff_left₀ f.one_pos, mul_assoc, ← abs_of_pos f.one_pos, ← abs_mul, abs_of_pos f.one_pos,
    sub_mul, value_mul_one, hx, ← abs_of_pos (mul_pos two_pos hF'), ← abs_mul, abs_le]
  constructor <;> linarith

/-- A number that has no more bits than a mantissa is not changed. -/
theorem exact (h : f.Rounded x word) {mantissa j : Nat} (hmantissa : mantissa ≤ 2 * f.fractions)
    (hx : x * f.one = mantissa * 2 ^ j) (hhigh : x ≤ f.value (f.infinity - 1)) : f.value word = x := by
  obtain ⟨other, hother⟩ := f.exists_steps hmantissa j
  have hsame : f.value other = x := by
    rw [value, hother, div_eq_iff f.one_pos.ne', hx]
    push_cast
    rfl
  have hle : other ≤ f.infinity - 1 := by
    rw [← hsame, value, value, div_le_div_iff_of_pos_right f.one_pos, Nat.cast_le] at hhigh
    exact f.strictMono_steps.le_iff_le.mp hhigh
  rw [← hsame] at h
  rw [h.eq hf hinfinity (by omega), hsame]

end

end Rounded

end Binary.Format

namespace Json.Number

open Binary Format

variable {digits word : Nat} {exponent : Int} {x : ℚ}

-- The numbers that decimals of samples lead to are far from both ends of the range.
theorem le_largest : (10 : ℚ) ^ 100 ≤ double.value (double.infinity - 1) := by
  have hnat : 10 ^ 100 * double.one ≤ double.steps (double.infinity - 1) := by decide +kernel
  rw [value, le_div_iff₀ double.one_pos]
  exact_mod_cast hnat

theorem full_of_le (h : 1 / 10 ^ 64 ≤ x) : (double.fractions : ℚ) ≤ x * double.one := by
  have hnat : double.fractions * 10 ^ 64 ≤ double.one := by decide +kernel
  have hone : (double.fractions * 10 ^ 64 : ℚ) ≤ double.one := by exact_mod_cast hnat
  calc (double.fractions : ℚ) ≤ double.one / 10 ^ 64 := by rwa [le_div_iff₀ (by norm_num)]
    _ = 1 / 10 ^ 64 * double.one := by rw [one_div, div_eq_mul_inv, mul_comm]
    _ ≤ x * double.one := mul_le_mul_of_nonneg_right h double.one_pos.le

theorem close_of_rounded (h : double.Rounded x word) (hlow : 1 / 10 ^ 64 ≤ x) (hhigh : x ≤ 10 ^ 100) :
    word < double.infinity ∧ Close 8 x (double.value word) := by
  obtain ⟨hfinite, hclose⟩ := h.close (k := 2045) (by decide) (by decide) (full_of_le hlow) (hhigh.trans le_largest)
  have hfractions : (2 * double.fractions : ℚ) = 2 ^ 53 := by
    norm_num [Format.fractions, double]
  rw [hfractions, ← abs_of_pos (show (0 : ℚ) < 2 ^ 53 by norm_num), ← abs_mul, abs_le] at hclose
  exact ⟨hfinite, by linarith [hclose.1], by linarith [hclose.2]⟩

theorem exact_of_rounded (h : double.Rounded x word) {mantissa k : Nat} (hmantissa : mantissa < 2 ^ 53)
    (hx : x * double.one = mantissa * 2 ^ k) (hhigh : x ≤ 10 ^ 100) : double.value word = x :=
  h.exact (k := 2045) (by decide) (by decide) hmantissa.le hx (hhigh.trans le_largest)

/-- How digits become a word: they are multiplied or divided by a power of ten that is rounded itself. -/
inductive Scales (digits : Nat) : Int → Nat → Prop
  | up {n power word : Nat} (hpower : double.Rounded (10 ^ n) power)
    (h : double.Rounded (digits * double.value power) word) : Scales digits n word
  | down {n power word : Nat} (hpower : double.Rounded (10 ^ n) power)
    (h : double.Rounded (digits / double.value power) word) : Scales digits (-n) word

theorem rounded_power (n : Nat) : double.Rounded (10 ^ n) (double.ofDecimal 1 n) := by
  have hrounded := double.rounded_ofDecimal 1 n
  rwa [Nat.cast_one, one_mul, zpow_natCast] at hrounded

theorem value_ofDecimal_zero (hdigits : digits < 2 ^ 53) : double.value (double.ofDecimal digits 0) = digits := by
  have hrounded := double.rounded_ofDecimal digits 0
  rw [zpow_zero, mul_one] at hrounded
  refine exact_of_rounded hrounded hdigits (k := double.depth) ?_ ?_
  · rw [cast_one]
  · have hlt : (digits : ℚ) < 2 ^ 53 := by exact_mod_cast hdigits
    refine hlt.le.trans ?_
    norm_num

theorem power_close {n power : Nat} (hn : n ≤ 62) (h : double.Rounded (10 ^ n) power) :
    Close 8 (10 ^ n) (double.value power) ∧ 1 / 2 ≤ double.value power ∧ double.value power ≤ 2 * 10 ^ 62 := by
  have hone : (1 : ℚ) ≤ 10 ^ n := one_le_pow₀ (by norm_num)
  have hmost : (10 : ℚ) ^ n ≤ 10 ^ 62 := pow_le_pow_right₀ (by norm_num) hn
  obtain ⟨-, hclose⟩ := close_of_rounded h (by linarith) (by linarith)
  exact ⟨hclose, by linarith [hclose.2], by linarith [hclose.1]⟩

section

variable (hpos : 0 < digits) (hdigits : digits < 2 ^ 53) (hlow : 1 / 2 ≤ x) (hhigh : x ≤ 2 * 10 ^ 62)

include hpos hdigits hlow hhigh

theorem product_range : 1 / 10 ^ 64 ≤ digits * x ∧ digits * x ≤ 10 ^ 100 := by
  have hone : (1 : ℚ) ≤ digits := by exact_mod_cast hpos
  have hmost : (digits : ℚ) ≤ 2 ^ 53 := by exact_mod_cast hdigits.le
  have hleast := mul_le_mul hone hlow (by norm_num) (Nat.cast_nonneg _)
  have hlargest := mul_le_mul hmost hhigh (by linarith) (by norm_num)
  norm_num at hleast hlargest ⊢
  constructor <;> linarith

theorem quotient_range : 1 / 10 ^ 64 ≤ digits / x ∧ digits / x ≤ 10 ^ 100 := by
  have hone : (1 : ℚ) ≤ digits := by exact_mod_cast hpos
  have hmost : (digits : ℚ) ≤ 2 ^ 53 := by exact_mod_cast hdigits.le
  have hx : 0 < x := by linarith
  rw [le_div_iff₀ hx, div_le_iff₀ hx]
  norm_num at hhigh ⊢
  constructor <;> linarith

end

/-- Digits of less than 53 bits are taken to the power of ten in one step. -/
theorem exists_scales (hpos : 0 < digits) (hdigits : digits < 2 ^ 53) (hexponent : exponent.natAbs ≤ 62) :
    ∃ word, scaled (double.ofDecimal digits 0) exponent 4 = some word ∧ Scales digits exponent word := by
  have hvalue := value_ofDecimal_zero hdigits
  have hpower := rounded_power exponent.natAbs
  obtain ⟨-, hlow, hhigh⟩ := power_close hexponent hpower
  have hfirst : exponent.natAbs ≤ 308 := by omega
  by_cases hsign : 0 ≤ exponent
  · have hrounded := double.rounded_mul (double.ofDecimal digits 0) (double.ofDecimal 1 exponent.natAbs)
    rw [hvalue] at hrounded
    have hrange := product_range hpos hdigits hlow hhigh
    obtain ⟨hfinite, -⟩ := close_of_rounded hrounded hrange.1 hrange.2
    have hscales := Scales.up hpower hrounded
    refine ⟨double.mul (double.ofDecimal digits 0) (double.ofDecimal 1 exponent.natAbs), ?_, ?_⟩
    · simp only [scaled, hfirst, hsign, hfinite, if_true]
    · rwa [Int.natAbs_of_nonneg hsign] at hscales ⊢
  · have hsteps : 0 < double.steps (double.ofDecimal 1 exponent.natAbs) := by
      have hpositive : 0 < double.value (double.ofDecimal 1 exponent.natAbs) := by linarith
      rw [value, lt_div_iff₀ double.one_pos, zero_mul] at hpositive
      exact_mod_cast hpositive
    have hrounded := double.rounded_div (double.ofDecimal digits 0) hsteps
    rw [hvalue] at hrounded
    have hscales := Scales.down hpower hrounded
    rw [show -(exponent.natAbs : Int) = exponent by omega] at hscales
    refine ⟨_, ?_, hscales⟩
    simp only [scaled, hfirst, hsign, if_true, if_false]

/-- Two roundings. -/
theorem Scales.close (h : Scales digits exponent word) (hpos : 0 < digits) (hdigits : digits < 2 ^ 53)
    (hexponent : exponent.natAbs ≤ 62) : Close 17 (digits * 10 ^ exponent) (double.value word) := by
  cases h with
  | @up n power _ hpower h =>
    obtain ⟨hclose, hlow, hhigh⟩ := power_close (by omega) hpower
    have hrange := product_range hpos hdigits hlow hhigh
    rw [zpow_natCast]
    exact (hclose.mul_left (Nat.cast_nonneg digits)).trans (close_of_rounded h hrange.1 hrange.2).2
      (double.value_nonneg word)
  | @down n power _ hpower h =>
    obtain ⟨hclose, hlow, hhigh⟩ := power_close (by omega) hpower
    have hrange := quotient_range hpos hdigits hlow hhigh
    rw [zpow_neg, zpow_natCast, ← div_eq_mul_inv]
    have hdiv := hclose.div_left (Nat.cast_nonneg digits) (by positivity) (by linarith)
    exact hdiv.trans_left (close_of_rounded h hrange.1 hrange.2).2 (double.value_nonneg word)

-- A power of ten is as exact as the power of five in it.
theorem value_power {n power : Nat} (hn : n ≤ 62) (hfive : 5 ^ n < 2 ^ 53) (h : double.Rounded (10 ^ n) power) :
    double.value power = 10 ^ n := by
  refine exact_of_rounded h hfive (k := n + double.depth) ?_ ?_
  · rw [cast_one, pow_add, ← mul_assoc, Nat.cast_pow, Nat.cast_ofNat, ← mul_pow]
    norm_num
  · exact pow_le_pow_right₀ (by norm_num) (by omega)

theorem pow_five_le {n a b k : Nat} (ha : 0 < a) (h : a * 2 ^ k = b * 10 ^ n) : 5 ^ n ≤ a := by
  have hdvd : 5 ^ n ∣ a * 2 ^ k := by
    rw [h, show 10 = 5 * 2 from rfl, mul_pow, ← mul_assoc, mul_right_comm]
    exact Dvd.intro_left _ rfl
  exact Nat.le_of_dvd ha ((Nat.Coprime.pow n k (by decide)).dvd_of_dvd_mul_right hdvd)

/-- A number of less than 53 bits is not moved. -/
theorem Scales.exact (h : Scales digits exponent word) (hpos : 0 < digits) (hdigits : digits < 2 ^ 53)
    (hexponent : exponent.natAbs ≤ 62) {mantissa k : Nat} (hmantissa : mantissa < 2 ^ 53)
    (hx : digits * 10 ^ exponent * double.one = (mantissa * 2 ^ k : ℚ)) :
    double.value word = digits * 10 ^ exponent := by
  rw [cast_one] at hx
  cases h with
  | @up n power _ hpower h =>
    rw [zpow_natCast] at hx ⊢
    have hnat : mantissa * 2 ^ k = digits * 2 ^ double.depth * 10 ^ n := by
      refine Nat.cast_injective (R := ℚ) ?_
      rw [mul_right_comm]
      simp only [Nat.cast_mul, Nat.cast_pow, Nat.cast_ofNat, hx]
    have hpositive : 0 < mantissa := by
      refine Nat.pos_of_mul_pos_right (b := 2 ^ k) ?_
      rw [hnat]
      positivity
    have hfive : 5 ^ n < 2 ^ 53 := Nat.lt_of_le_of_lt (pow_five_le hpositive hnat) hmantissa
    obtain ⟨-, hlow, hhigh⟩ := power_close (by omega) hpower
    have hrange := product_range hpos hdigits hlow hhigh
    rw [value_power (by omega) hfive hpower] at h hrange
    rw [← cast_one] at hx
    exact exact_of_rounded h hmantissa hx hrange.2
  | @down n power _ hpower h =>
    rw [zpow_neg, zpow_natCast, ← div_eq_mul_inv] at hx ⊢
    have hnat : digits * 2 ^ double.depth = mantissa * 2 ^ k * 10 ^ n := by
      refine Nat.cast_injective (R := ℚ) ?_
      have hten : (10 : ℚ) ^ n ≠ 0 := by positivity
      simp only [Nat.cast_mul, Nat.cast_pow, Nat.cast_ofNat, ← hx]
      rw [mul_right_comm, div_mul_cancel₀ _ hten]
    have hfive : 5 ^ n < 2 ^ 53 := Nat.lt_of_le_of_lt (pow_five_le hpos hnat) hdigits
    obtain ⟨-, hlow, hhigh⟩ := power_close (by omega) hpower
    have hrange := quotient_range hpos hdigits hlow hhigh
    rw [value_power (by omega) hfive hpower] at h hrange
    rw [← cast_one] at hx
    exact exact_of_rounded h hmantissa hx hrange.2

end Json.Number

end SampleStream
