import Mathlib.Data.List.TakeDrop
import SampleStream.Proofs.Finite
import SampleStream.Proofs.Spelling

/-!
# Literals of samples

A finite sample is the one nearest to every decimal in its interval (`ofDecimal_eq`), of which its literal
is one. So the literal is a spelling of just that sample, to the last bit (`spelling_literal`).
-/

namespace SampleStream

theorem Numeral.toLower_of_isDigit {c : Char} (h : isDigit c = true) : c.toLower = c := by
  have hnine : c.val ≤ '9'.val := by
    rw [isDigit, Bool.and_eq_true, decide_eq_true_eq, decide_eq_true_eq] at h
    exact h.2
  refine dif_neg ?_
  rintro ⟨hA, -⟩
  exact absurd (UInt32.le_trans hA hnine) (by decide)

namespace Sample

open Binary

-- A sample is its sign and its word.
theorem ofWord_word (s : Sample) : ofWord s.negative s.word = s := by
  have hsize := s.bits.toNat_lt
  have hword : (if s.negative = true then signWord + s.word else s.word) = s.bits.toNat := by
    unfold negative word signWord
    have hneg : (0x80000000 ≤ s.bits) ↔ 2147483648 ≤ s.bits.toNat := by
      rw [UInt32.le_iff_toNat_le]
      rfl
    simp only [decide_eq_true_eq, hneg]
    split <;> omega
  unfold ofWord
  rw [hword, UInt32.ofNat_toNat]

theorem interval_scale (s : Sample) : s.interval.scale = 2 * single.one :=
  Nat.pow_succ'

-- A number in the interval of a positive sample is rounded to its word.
theorem nearest_of_contains {s : Sample} (hpos : 0 < s.word) (hs : s.word < single.infinity) {d : Decimal}
    (hd : s.interval.Contains d) : single.nearest (d.numerator * single.one) d.denominator = s.word := by
  obtain ⟨hlow, hhigh, htie⟩ := hd
  have hscale : d.numerator * s.interval.scale = 2 * (d.numerator * single.one) := by
    rw [interval_scale, Nat.mul_left_comm]
  have hclosed : s.interval.closed = true ↔ s.word % 2 = 0 := beq_iff_eq
  rw [hscale] at hlow hhigh htie
  rw [hclosed] at htie
  exact Format.nearest_eq (by decide) hpos (Nat.le_of_lt hs) d.denominator_pos hlow hhigh htie

-- Every decimal in the interval of a positive sample is read as the sample's word.
theorem ofDecimal_eq {s : Sample} (hpos : 0 < s.word) (hs : s.word < single.infinity) (negative : Bool)
    {d : Decimal} (hd : s.interval.Contains d) : ofDecimal negative d = ofWord negative s.word := by
  rw [ofDecimal_eq_nearest, nearest_of_contains hpos hs hd]

theorem low_lt_middle {s : Sample} (hpos : 0 < s.word) : s.interval.low < s.interval.middle := by
  have hlow : single.steps (s.word - 1) < single.steps s.word :=
    single.strictMono_steps (Nat.sub_lt hpos Nat.one_pos)
  change single.steps (s.word - 1) + single.steps s.word < 2 * single.steps s.word
  omega

theorem middle_lt_high (s : Sample) : s.interval.middle < s.interval.high := by
  have hhigh : single.steps s.word < single.steps (s.word + 1) :=
    single.strictMono_steps (Nat.lt_succ_self _)
  change 2 * single.steps s.word < single.steps s.word + single.steps (s.word + 1)
  omega

theorem decimal_of_word_zero {s : Sample} {tie : Tie} (h : s.word = 0) : s.decimal tie = ⟨0, 0⟩ := by
  rw [decimal, isZero, h]
  rfl

theorem contains_decimal {s : Sample} (tie : Tie) (hpos : 0 < s.word) : s.interval.Contains (s.decimal tie) := by
  have hzero : s.isZero = false := by
    rw [isZero, beq_eq_false_iff_ne]
    exact Nat.pos_iff_ne_zero.mp hpos
  rw [decimal, if_neg (by rw [hzero]; decide)]
  exact Interval.contains_shortest (low_lt_middle hpos) (middle_lt_high s) rfl tie (-46) 90 9

-- The digits that a finite sample is written with are those of just that sample.
theorem ofPoint_parts {s : Sample} (tie : Tie) (hs : s.isFinite = true) :
    ofPoint s.negative (s.decimal tie).parts.1 (s.decimal tie).parts.2 = s := by
  rw [isFinite, decide_eq_true_eq] at hs
  conv_rhs => rw [← s.ofWord_word]
  by_cases hzero : s.word = 0
  · have hdecimal : s.decimal tie = ⟨0, 0⟩ := decimal_of_word_zero hzero
    have hparts : Decimal.parts ⟨0, 0⟩ = (['0'], []) := by
      simp [Decimal.parts, Numeral.digits, Numeral.digitChar]
    rw [hdecimal, hzero, hparts]
    rfl
  · have hpos := Nat.pos_of_ne_zero hzero
    refine ofDecimal_eq hpos hs _ ?_
    -- the decimal read back has another exponent but the same value, so it is in the interval too
    have hwithin := (Interval.contains_iff_within_parts _ _).mp (contains_decimal tie hpos)
    generalize (s.decimal tie).parts.2 = fraction at hwithin ⊢
    generalize Numeral.value ((s.decimal tie).parts.1 ++ fraction) = n at hwithin ⊢
    unfold Interval.Contains Decimal.numerator Decimal.denominator
    rw [Decimal.power_neg, Nat.mul_one]
    exact hwithin

theorem literal_eq {s : Sample} (hs : s.isFinite = true) :
    s.literal = Scan.sign s.negative ++ (s.decimal .up).parts.1 ++ '.' :: (s.decimal .up).parts.2 := by
  rw [literal, if_pos hs]
  dsimp only [signed, Scan.sign]
  cases s.negative <;> simp

-- A finite sample is spelled by its literal.
theorem spelling_literal {s : Sample} (hs : s.isFinite = true) : Spelling (.sample s) s.literal := by
  obtain ⟨hne, hwhole, hfraction⟩ := (s.decimal .up).parts_digits
  have hpoint := ofPoint_parts .up hs
  have h := Spelling.sample s.negative hne hwhole hfraction (by rw [hpoint, hs])
  rwa [hpoint, ← literal_eq hs] at h

theorem readSign_sign (negative : Bool) {cs : List Char} (h : ∀ c ∈ cs.head?, Numeral.isDigit c = true) :
    readSign (Scan.sign negative ++ cs) = (negative, cs) := by
  cases negative with
  | true => rfl
  | false =>
    rw [Scan.sign, if_neg Bool.false_ne_true, List.nil_append]
    unfold readSign
    split
    · exact absurd (h '-' rfl) (by decide)
    · exact absurd (h '+' rfl) (by decide)
    · rfl

theorem readDigits_point {whole fraction : List Char} (hne : whole ≠ [])
    (hwhole : ∀ c ∈ whole, Numeral.isDigit c = true) (hfraction : ∀ c ∈ fraction, Numeral.isDigit c = true) :
    readDigits (whole ++ '.' :: fraction) = some (whole, fraction, []) := by
  have hpoint := Scan.stops_point fraction
  have hend : Scan.Stops Numeral.isDigit [] := nofun
  have htake := hend.takeWhile_append hfraction
  have hdrop := hend.dropWhile_append hfraction
  rw [List.append_nil] at htake hdrop
  unfold readDigits
  simp only [List.span_eq_takeWhile_dropWhile, hpoint.takeWhile_append hwhole, hpoint.dropWhile_append hwhole,
    htake, hdrop]
  rw [if_neg (by simp [hne])]

-- What a sample is written with is read as any number is.
theorem ofText?_point (negative : Bool) {whole fraction : List Char} (hne : whole ≠ [])
    (hwhole : ∀ c ∈ whole, Numeral.isDigit c = true) (hfraction : ∀ c ∈ fraction, Numeral.isDigit c = true) :
    ofText? (.ofList (Scan.sign negative ++ whole ++ '.' :: fraction)) =
      some (ofPoint negative whole fraction) := by
  obtain ⟨c, cs, rfl⟩ := List.exists_cons_of_ne_nil hne
  have hc : Numeral.isDigit c = true := hwhole c List.mem_cons_self
  have hword (word : String) (hword : word.toList.head?.any Numeral.isDigit = false) :
      (String.ofList ((c :: cs ++ '.' :: fraction).map Char.toLower) == word) = false := by
    rw [beq_eq_false_iff_ne]
    rintro rfl
    simp [Numeral.toLower_of_isDigit hc, hc] at hword
  have hhead : ∀ d ∈ (c :: cs ++ '.' :: fraction).head?, Numeral.isDigit d = true := by simpa using hc
  have hsign := readSign_sign negative hhead
  rw [ofText?, String.toList_ofList, List.append_assoc, hsign]
  dsimp only
  rw [hword "inf" (by decide), hword "infinity" (by decide), hword "nan" (by decide),
    readDigits_point hne hwhole hfraction]
  simp [readExponent, ofPoint]

end Sample

end SampleStream
