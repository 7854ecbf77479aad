import SampleStream.Module.Builtin
import SampleStream.Proofs.Json.Writing
import SampleStream.Proofs.Margin

/-!
# Built-in streams loaded from their texts

The text of a stream has one number in it, and two halves meet at what that number holds (`Holds`). A number that
holds a sample is read as it, although it is rounded twice, to a double and then to a sample (`Holds.sample?_eq`); and
the number written for a finite sample holds it (`holds_sampleNumber`). So every stream of a finite sample is loaded as
it was; any other is written with a `null`, which is refused (`load_text`).
-/

namespace SampleStream

open Binary

namespace Decimal

theorem toRat_lt {d : Decimal} {top : Int} (h : d.magnitude < top) : d.toRat < 10 ^ top := by
  have hlength := List.length_pos_iff.mpr (Numeral.digits_ne_nil d.digits)
  have hten : (0 : ℚ) < 10 ^ d.exponent := zpow_pos (by norm_num) _
  have hdigits : (d.digits : ℚ) < 10 ^ (Numeral.digits d.digits).length := by
    exact_mod_cast Numeral.lt_pow_length_digits d.digits
  unfold magnitude at h
  calc d.toRat < 10 ^ (Numeral.digits d.digits).length * 10 ^ d.exponent := mul_lt_mul_of_pos_right hdigits hten
    _ = 10 ^ ((Numeral.digits d.digits).length + d.exponent) := (zpow_ten rfl).symm
    _ ≤ 10 ^ top := zpow_le_zpow_right₀ (by norm_num) (by omega)

-- The digits before the point begin with a zero only if that is all of them.
theorem whole_eq_zero {d : Decimal} (hzero : d.digits = 0 → d.exponent = 0) (h : d.parts.1.head? = some '0') :
    d.parts.1 = ['0'] := by
  obtain ⟨digits, exponent⟩ := d
  obtain ⟨c, cs, hcons⟩ := List.exists_cons_of_ne_nil (Numeral.digits_ne_nil digits)
  have hall : c = '0' → Numeral.digits digits = ['0'] := fun hc =>
    Numeral.digits_eq_zero_of_head? (by rw [hcons, hc, List.head?_cons])
  unfold parts at h ⊢
  dsimp only at h hzero ⊢
  split at h
  · rename_i n
    rw [hcons, List.cons_append, List.head?_cons, Option.some_inj] at h
    have hdigits := Numeral.value_digits digits
    rw [hall h] at hdigits ⊢
    obtain rfl : n = 0 := Int.ofNat_eq_zero.mp (hzero hdigits.symm)
    rfl
  · split at h
    · rename_i n hlt
      rw [List.splitAt_eq, hcons, List.head?_take, if_neg (by rw [← hcons]; omega), List.head?_cons,
        Option.some_inj] at h
      rw [hall h] at hlt
      exact absurd hlt (by simp)
    · rename_i hge
      rw [if_neg hge]

end Decimal

namespace Sample

variable {s : Sample} {tie : Tie}

theorem digits_decimal_lt (tie : Tie) (hs : s.word < single.infinity) : (s.decimal tie).digits < 10 ^ 9 := by
  by_cases hzero : s.word = 0
  · rw [decimal_of_word_zero hzero]
    decide
  · obtain ⟨-, -, -, -, hlength⟩ := exists_onGrid_decimal tie (Nat.pos_of_ne_zero hzero) hs
    exact (Numeral.lt_pow_length_digits _).trans_le (Nat.pow_le_pow_right (by decide) hlength)

theorem word_eq_zero_of_decimal (h : (s.decimal tie).toRat = 0) : s.word = 0 := by
  by_contra hzero
  have hone := one_le_decimal tie (Nat.pos_of_ne_zero hzero)
  rw [h, zero_mul] at hone
  exact absurd hone (by norm_num)

theorem exponent_of_digits_eq_zero (s : Sample) (tie : Tie) (h : (s.decimal tie).digits = 0) :
    (s.decimal tie).exponent = 0 := by
  have hnumber : (s.decimal tie).toRat = 0 := by rw [Decimal.toRat, h, Nat.cast_zero, zero_mul]
  rw [decimal_of_word_zero (word_eq_zero_of_decimal hnumber)]

end Sample

namespace Builtin

/-- The number stands for the decimal of the sample, whichever is taken on a tie. Zeros may be put behind its digits
as far as the first place after the point. -/
structure Holds (tie : Tie) (n : Json.Number) (s : Sample) : Prop where
  negative : n.negative = s.negative
  number : n.digits * 10 ^ n.place = (s.decimal tie).toRat
  digits_lt : n.digits < 2 ^ 53
  place : n.place = (s.decimal tie).exponent ∨ -1 ≤ n.place

section

variable {n : Json.Number} {s : Sample} {tie : Tie}

theorem Holds.digits_eq_zero (h : Holds tie n s) (hword : s.word = 0) : n.digits = 0 := by
  have hzero : n.digits * (10 : ℚ) ^ n.place = 0 := by
    rw [h.number, Sample.decimal_of_word_zero hword, Decimal.toRat, Nat.cast_zero, zero_mul]
  exact_mod_cast (mul_eq_zero_iff_right (zpow_ne_zero _ (by norm_num))).mp hzero

-- Rounded to a double, the number is still rounded to the sample.
theorem Holds.narrow_double (h : Holds tie n s) (hs : s.word < single.infinity) :
    n.double?.map narrow = some s.word := by
  rw [Json.Number.double?_eq (h.digits_lt.trans (by decide))]
  by_cases hzero : s.word = 0
  · rw [h.digits_eq_zero hzero, hzero]
    have hword : double.ofDecimal 0 0 = 0 := by decide +kernel
    have hnarrow : narrow 0 = 0 := by decide +kernel
    rw [hword, Json.Number.zero_scaled, Option.map_some, hnarrow]
  · exact Sample.narrow_scaled (Nat.pos_of_ne_zero hzero) h.number hs h.digits_lt h.place

-- A natural is rounded at once.
theorem Holds.ofDecimal_eq (h : Holds tie n s) (hs : s.word < single.infinity) (hplace : n.place = 0) :
    Sample.ofDecimal n.negative ⟨n.digits, 0⟩ = s := by
  rw [h.negative]
  conv_rhs => rw [← s.ofWord_word]
  by_cases hzero : s.word = 0
  · rw [h.digits_eq_zero hzero, hzero, Sample.ofDecimal, if_pos rfl]
  · have hpos := Nat.pos_of_ne_zero hzero
    refine Sample.ofDecimal_eq hpos hs _ ((Interval.contains_iff_has _).mpr ?_)
    have hnumber := h.number
    rw [hplace] at hnumber
    rw [Decimal.toRat, hnumber]
    exact Sample.has_decimal tie hpos

/-- A number that holds a finite sample is read as the sample, sign and bits. -/
theorem Holds.sample?_eq (h : Holds tie n s) {text : List Char} (hspelling : n.Spelling text)
    (hs : s.isFinite = true) : sample? n = some s := by
  rw [Sample.isFinite, decide_eq_true_eq] at hs
  unfold sample?
  dsimp only
  by_cases hintegral : n.integral = true
  · obtain ⟨hdigits, hplace⟩ := hspelling.integral hintegral
    have hlargest : Numeral.value n.whole ≤ if n.negative then Nat.pow 2 63 else UInt64.size - 1 := by
      rw [← hdigits]
      refine h.digits_lt.le.trans ?_
      cases n.negative <;> decide
    rw [if_pos (by rw [hintegral, decide_eq_true hlargest]; rfl), ← hdigits, h.ofDecimal_eq hs hplace]
  · obtain ⟨word, hdouble, hword⟩ := Option.map_eq_some_iff.mp (h.narrow_double hs)
    rw [Bool.not_eq_true] at hintegral
    rw [hintegral, Bool.false_and, if_neg Bool.false_ne_true, hdouble, Option.map_some, hword, h.negative,
      s.ofWord_word]

-- With one more zero behind the digits this sample is read as the next.
example : sample? ⟨false, "7038531".toList, [], -32, false⟩ = some ⟨363742205⟩ ∧
    sample? ⟨false, "70385310".toList, [], -33, false⟩ = some ⟨363742206⟩ := by
  decide +kernel

-- The three forms of what is written.
theorem sampleNumber_cases (s : Sample) :
    (0 ≤ (s.decimal .even).exponent ∧ (s.decimal .even).magnitude < 13 ∧
      sampleNumber s = ⟨s.negative, (s.decimal .even).parts.1, ['0'], 0, false⟩) ∨
    ((s.decimal .even).exponent < 0 ∧
      sampleNumber s = ⟨s.negative, (s.decimal .even).parts.1, (s.decimal .even).parts.2, 0, false⟩) ∨
    ((s.decimal .even).magnitude ≠ 0 ∧
      sampleNumber s = ⟨s.negative, (Numeral.digits (s.decimal .even).digits).take 1,
        (Numeral.digits (s.decimal .even).digits).drop 1, (s.decimal .even).magnitude, false⟩) := by
  unfold sampleNumber
  dsimp only
  split
  · rename_i hpositional
    by_cases hexponent : (s.decimal .even).exponent < 0
    · refine .inr (.inl ⟨hexponent, ?_⟩)
      rw [(s.decimal .even).isEmpty_fraction, decide_eq_false (Int.not_le.mpr hexponent), if_neg Bool.false_ne_true]
    · have hwhole := Int.not_lt.mp hexponent
      refine .inl ⟨hwhole, ?_, by rw [(s.decimal .even).isEmpty_fraction, decide_eq_true hwhole, if_pos rfl]⟩
      rw [Bool.or_eq_true, Bool.and_eq_true, decide_eq_true_eq, decide_eq_true_eq] at hpositional
      obtain hzero | ⟨-, hlt⟩ := hpositional
      · rw [Sample.decimal_of_word_zero (beq_iff_eq.mp hzero)]
        decide +kernel
      · exact hlt
  · rename_i hscientific
    rw [Bool.or_eq_true, Bool.and_eq_true, decide_eq_true_eq, decide_eq_true_eq] at hscientific
    exact .inr (.inr ⟨by omega, rfl⟩)

theorem Holds.of_digits (hs : s.word < single.infinity) (hnegative : n.negative = s.negative)
    (hdigits : n.digits = (s.decimal tie).digits) (hplace : n.place = (s.decimal tie).exponent) : Holds tie n s where
  negative := hnegative
  number := by rw [hdigits, hplace, Decimal.toRat]
  digits_lt := by
    rw [hdigits]
    exact (Sample.digits_decimal_lt tie hs).trans (by decide)
  place := .inl hplace

-- With places behind the point these are the last digits of the decimal.
theorem holds_fraction (hs : s.word < single.infinity) (hexponent : (s.decimal tie).exponent < 0) :
    Holds tie ⟨s.negative, (s.decimal tie).parts.1, (s.decimal tie).parts.2, 0, false⟩ s := by
  have hlength : ((s.decimal tie).parts.2.length : Int) = -(s.decimal tie).exponent := by
    rw [Decimal.length_fraction]
    exact Int.toNat_of_nonneg (by omega)
  have hnumber := (s.decimal tie).toRat_parts
  rw [hlength, neg_neg, Decimal.toRat, mul_left_inj' (zpow_ne_zero _ (by norm_num))] at hnumber
  refine .of_digits hs rfl (by exact_mod_cast hnumber) ?_
  change (0 : Int) - (s.decimal tie).parts.2.length = _
  rw [hlength]
  omega

-- A whole number is written with one zero behind the point.
theorem holds_whole (hexponent : 0 ≤ (s.decimal tie).exponent) (hmagnitude : (s.decimal tie).magnitude < 13) :
    Holds tie ⟨s.negative, (s.decimal tie).parts.1, ['0'], 0, false⟩ s := by
  have hlength : (s.decimal tie).parts.2.length = 0 := by
    rw [Decimal.length_fraction]
    exact Int.toNat_of_nonpos (by omega)
  have hnumber := (s.decimal tie).toRat_parts
  rw [hlength, List.length_eq_zero_iff.mp hlength, List.append_nil, Nat.cast_zero, neg_zero, zpow_zero, mul_one]
    at hnumber
  have hdigits : Numeral.value ((s.decimal tie).parts.1 ++ ['0']) = 10 * Numeral.value (s.decimal tie).parts.1 :=
    Numeral.value_append_singleton _ _
  have hlt : Numeral.value (s.decimal tie).parts.1 < 10 ^ 13 := by
    have hlt := Decimal.toRat_lt hmagnitude
    rw [← hnumber] at hlt
    exact_mod_cast hlt
  refine ⟨rfl, ?_, ?_, .inr (Int.le_refl _)⟩
  · change (Numeral.value ((s.decimal tie).parts.1 ++ ['0']) : ℚ) * 10 ^ (-1 : Int) = _
    rw [hdigits, ← hnumber, Nat.cast_mul, zpow_neg_one]
    ring
  · change Numeral.value ((s.decimal tie).parts.1 ++ ['0']) < _
    omega

-- One digit is in front of the point, and the others are behind it.
theorem holds_scientific (hs : s.word < single.infinity) :
    Holds tie ⟨s.negative, (Numeral.digits (s.decimal tie).digits).take 1,
      (Numeral.digits (s.decimal tie).digits).drop 1, (s.decimal tie).magnitude, false⟩ s := by
  refine .of_digits hs rfl ?_ ?_
  · change Numeral.value (_ ++ _) = _
    rw [List.take_append_drop, Numeral.value_digits]
  · change (s.decimal tie).magnitude - _ = _
    rw [List.length_drop, Decimal.magnitude, add_sub_cancel_right]

/-- What is written for a finite sample holds it. -/
theorem holds_sampleNumber (hs : s.isFinite = true) : Holds .even (sampleNumber s) s := by
  rw [Sample.isFinite, decide_eq_true_eq] at hs
  obtain ⟨hexponent, hmagnitude, heq⟩ | ⟨hexponent, heq⟩ | ⟨-, heq⟩ := sampleNumber_cases s <;> rw [heq]
  · exact holds_whole hexponent hmagnitude
  · exact holds_fraction hs hexponent
  · exact holds_scientific hs

-- Halfway between two decimals the even digit is written here, and the greater one in a source text.
example : sampleNumber ⟨0x4a000001⟩ = ⟨false, "2097152".toList, ['2'], 0, false⟩ ∧
    Sample.literal ⟨0x4a000001⟩ = "2097152.3".toList := by
  decide +kernel

theorem spelling_sampleNumber (s : Sample) : (sampleNumber s).Spelling (sampleNumber s).chars := by
  obtain ⟨hne, hwhole, hfraction⟩ := (s.decimal .even).parts_digits
  have hzero := Decimal.whole_eq_zero (s.exponent_of_digits_eq_zero .even)
  obtain ⟨-, -, heq⟩ | ⟨hexponent, heq⟩ | ⟨hmagnitude, heq⟩ := sampleNumber_cases s <;> rw [heq]
  · exact Json.Number.spelling_chars ⟨hne, hwhole⟩ hzero (List.forall_mem_singleton.mpr rfl) rfl
  · refine Json.Number.spelling_chars ⟨hne, hwhole⟩ hzero hfraction ?_
    dsimp only
    rw [(s.decimal .even).isEmpty_fraction, decide_eq_false (Int.not_le.mpr hexponent), Bool.false_and]
  · have hdigits := Numeral.isDigit_of_mem_digits (s.decimal .even).digits
    obtain ⟨c, cs, hcons⟩ := List.exists_cons_of_ne_nil (Numeral.digits_ne_nil (s.decimal .even).digits)
    rw [hcons] at hdigits ⊢
    obtain ⟨hc, hcs⟩ := List.forall_mem_cons.mp hdigits
    refine Json.Number.spelling_chars ⟨List.cons_ne_nil c [], List.forall_mem_singleton.mpr hc⟩ ?_ hcs ?_
    · intro hhead
      exact congrArg (fun c => [c]) (Option.some.inj hhead)
    · dsimp only
      rw [decide_eq_false hmagnitude, Bool.and_false]

end

def name : Builtin → String
  | .constant _ => "Constant"
  | .sine _ => "Sine"

def sample : Builtin → Sample
  | .constant value => value
  | .sine frequency => frequency

/-- The module that plays the stream; a sine has the given rate. -/
def playing (sampleRate : UInt32) : Builtin → AnyModule
  | .constant value => .constant (.new ⟨value⟩)
  | .sine frequency => .sine (.new (.new frequency sampleRate))

/-- How a stream is refused whose sample is written as `null`. -/
def refusal : Builtin → LoadError
  | .constant _ => .malformed "invalid type: null, expected f32 at line 1 column 16"
  | .sine _ => .malformed "invalid type: null, expected f32 at line 1 column 12"

theorem toJson_eq (b : Builtin) : b.toJson = .object [(some b.name, sampleJson b.sample)] := by
  cases b <;> rfl

theorem ofName?_name (b : Builtin) : ofName? b.name b.sample = some b := by
  cases b <;> rfl

theorem load_eq {sampleRate : UInt32} {text : String} {b : Builtin} (h : ofText text = .ok b) :
    load sampleRate text = .ok (b.playing sampleRate) := by
  rw [load, h]
  cases b <;> rfl

/-- A stream is read from every text that spells an object of its name and of a number that holds its sample. -/
theorem ofText_of_spelledBy (b : Builtin) {n : Json.Number} {cs : List Char} {text : String}
    (hs : b.sample.isFinite = true) {tie : Tie} (hn : Holds tie n b.sample) (hspelling : n.Spelling cs)
    (htext : (Json.object [(some b.name, .number n)]).SpelledBy text) : ofText text = .ok b := by
  unfold ofText
  rw [Json.ofText?_of_spelledBy htext]
  dsimp only
  rw [hn.sample?_eq hspelling hs]
  dsimp only
  rw [b.ofName?_name]

theorem spelledBy_text (b : Builtin) : b.toJson.SpelledBy b.text := by
  have hsample : Json.Spells (sampleJson b.sample).chars (sampleJson b.sample).tokens := by
    unfold sampleJson
    split
    · exact .single (.number (spelling_sampleNumber b.sample))
    · exact .single .null
  unfold Json.SpelledBy text Json.compact
  rw [String.toList_ofList, toJson_eq]
  exact Json.spells_object (List.forall_mem_singleton.mpr rfl) (List.forall_mem_singleton.mpr hsample)

theorem ofText_null (b : Builtin) (hs : b.sample.isFinite = false) : ofText b.text = .error b.refusal := by
  have hspelled := b.spelledBy_text
  have hjson : sampleJson b.sample = .null := by rw [sampleJson, hs, if_neg Bool.false_ne_true]
  rw [toJson_eq, hjson] at hspelled
  unfold ofText
  rw [Json.ofText?_of_spelledBy hspelled]
  dsimp only
  rw [text, toJson_eq, hjson]
  cases b <;> rw [name, refusal] <;> decide +kernel

/-- If its sample is finite, the text of a stream is read as the stream, bit for bit, and loaded as the module that
plays it. Otherwise it is refused. -/
theorem load_text (sampleRate : UInt32) (b : Builtin) :
    ofText b.text = (if b.sample.isFinite then .ok b else .error b.refusal) ∧
      load sampleRate b.text = if b.sample.isFinite then .ok (b.playing sampleRate) else .error b.refusal := by
  by_cases hs : b.sample.isFinite = true
  · have hspelled := b.spelledBy_text
    rw [toJson_eq, sampleJson, if_pos hs] at hspelled
    have hread := b.ofText_of_spelledBy hs (holds_sampleNumber hs) (spelling_sampleNumber b.sample) hspelled
    rw [if_pos hs, if_pos hs]
    exact ⟨hread, load_eq hread⟩
  · have hread := b.ofText_null (Bool.not_eq_true _ ▸ hs)
    rw [if_neg hs, if_neg hs]
    exact ⟨hread, by rw [load, hread]⟩

-- Minus zero, the least sample there is, infinity, and what is no number.
theorem load_text_edges :
    load 48000 (constant ⟨0x80000000⟩).text = .ok (.constant (.new ⟨⟨0x80000000⟩⟩)) ∧
    load 48000 (sine ⟨1⟩).text = .ok (.sine (.new (.new ⟨1⟩ 48000))) ∧
    load 48000 (constant (.infinite false)).text =
      .error (.malformed "invalid type: null, expected f32 at line 1 column 16") ∧
    load 48000 (sine .nan).text = .error (.malformed "invalid type: null, expected f32 at line 1 column 12") :=
  ⟨(load_text 48000 (constant ⟨0x80000000⟩)).2.trans (if_pos (by decide)),
    (load_text 48000 (sine ⟨1⟩)).2.trans (if_pos (by decide)),
    (load_text 48000 (constant (.infinite false))).2.trans (if_neg (by decide)),
    (load_text 48000 (sine .nan)).2.trans (if_neg (by decide))⟩

end Builtin

end SampleStream
