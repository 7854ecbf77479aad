import Mathlib.Tactic.IntervalCases
import SampleStream.Json.Writer
import SampleStream.Proofs.Finite
import SampleStream.Proofs.Json.Reading

/-!
# Written JSON

What is written for a value spells it without any blanks, and so is read back as the value
(`spelledBy_compact`). The numbers are naturals, and the strings have content.
-/

namespace SampleStream.Numeral

theorem head?_digits {n : Nat} (hn : n ≠ 0) : (digits n).head? ≠ some '0' := by
  fun_induction digits n with
  | case1 n hlt =>
    have hchar : ∀ d : Fin 10, d.val ≠ 0 → digitChar d.val ≠ '0' := by decide
    exact fun hhead => hchar ⟨n, hlt⟩ hn (Option.some.inj hhead)
  | case2 n hge ih =>
    obtain ⟨d, ds, hdigits⟩ := List.exists_cons_of_ne_nil (digits_ne_nil (n / 10))
    rw [hdigits] at ih ⊢
    exact ih (by omega)

theorem digits_eq_zero_of_head? {n : Nat} (h : (digits n).head? = some '0') : digits n = ['0'] := by
  by_cases hn : n = 0
  · rw [hn, digits, if_pos (by decide)]
    rfl
  · exact absurd h (head?_digits hn)

theorem toDigits_eq (n : Nat) : Nat.toDigits 10 n = digits n := by
  have hchar : ∀ d < 10, Nat.digitChar d = digitChar d := by decide
  fun_induction digits n with
  | case1 n hlt => rw [Nat.toDigits_of_lt_base hlt, hchar n hlt]
  | case2 n hge ih =>
    rw [Nat.toDigits_of_base_le (by decide) (Nat.le_of_not_lt hge), ih, hchar _ (Nat.mod_lt n (by decide))]

end SampleStream.Numeral

namespace SampleStream.Json

namespace Number

open Binary

theorem exponent_toString (exponent : Int) : Exponent exponent true ('e' :: (toString exponent).toList) := by
  have hdigits (n : Nat) : IsDigits (Numeral.digits n) := ⟨Numeral.digits_ne_nil n, Numeral.isDigit_of_mem_digits n⟩
  cases exponent with
  | ofNat n =>
    have htext : (toString (Int.ofNat n)).toList = Numeral.digits n := Nat.toList_repr.trans (Numeral.toDigits_eq n)
    have hspelled := Exponent.bare (.inl rfl : 'e' = 'e' ∨ 'e' = 'E') (hdigits n)
    rw [Numeral.value_digits] at hspelled
    rw [htext]
    exact hspelled
  | negSucc n =>
    have htext : (toString (Int.negSucc n)).toList = '-' :: Numeral.digits (n + 1) := by
      rw [← Numeral.toDigits_eq, ← Nat.toList_repr]
      exact String.toList_append
    have hspelled := Exponent.minus (.inl rfl : 'e' = 'e' ∨ 'e' = 'E') (hdigits (n + 1))
    rw [Numeral.value_digits] at hspelled
    rw [htext]
    exact hspelled

/-- What is written for a number spells it, if its digits are digits. -/
theorem spelling_chars {n : Number} (hwhole : IsDigits n.whole) (hzero : n.whole.head? = some '0' → n.whole = ['0'])
    (hfraction : ∀ c ∈ n.fraction, Numeral.isDigit c = true)
    (hintegral : n.integral = (n.fraction.isEmpty && decide (n.exponent = 0))) : n.Spelling n.chars := by
  obtain ⟨negative, whole, fraction, exponent, integral⟩ := n
  dsimp only at hwhole hzero hfraction hintegral
  have hpoint : Fraction fraction (if fraction.isEmpty then [] else '.' :: fraction) := by
    cases fraction with
    | nil => exact .none
    | cons c cs => exact .point ⟨List.cons_ne_nil c cs, hfraction⟩
  have hmark : Exponent exponent (!decide (exponent = 0))
      (if exponent = 0 then [] else 'e' :: (toString exponent).toList) := by
    by_cases h : exponent = 0
    · rw [if_pos h, decide_eq_true h, h]
      exact .none
    · rw [if_neg h, decide_eq_false h]
      exact exponent_toString exponent
  have hspelled := Spelling.mk negative hwhole hzero hpoint hmark
  rw [Bool.not_not] at hspelled
  rw [hintegral]
  exact hspelled

theorem spelling_ofNat (n : Nat) : (ofNat n).Spelling (ofNat n).chars :=
  spelling_chars ⟨Numeral.digits_ne_nil n, Numeral.isDigit_of_mem_digits n⟩ Numeral.digits_eq_zero_of_head?
    (fun _ h => absurd h List.not_mem_nil) rfl

/-- All digits of a number as one natural. -/
def digits (n : Number) : Nat :=
  Numeral.value (n.whole ++ n.fraction)

/-- The exponent of ten of the last digit. -/
def place (n : Number) : Int :=
  n.exponent - n.fraction.length

theorem le_foldl (value : Nat) (cs : List Char) :
    value ≤ cs.foldl (fun n c => 10 * n + Numeral.digitValue c) value := by
  induction cs generalizing value with
  | nil => exact Nat.le_refl _
  | cons c cs ih =>
    have hnext : value ≤ 10 * value + Numeral.digitValue c := by omega
    exact Nat.le_trans hnext (ih _)

-- All digits count if they fit the word.
theorem leading_eq {value : Nat} {cs : List Char}
    (h : cs.foldl (fun n c => 10 * n + Numeral.digitValue c) value < UInt64.size) :
    leading value cs = (cs.foldl (fun n c => 10 * n + Numeral.digitValue c) value, 0) := by
  induction cs generalizing value with
  | nil => rfl
  | cons c cs ih =>
    unfold leading
    dsimp only
    rw [if_pos (Nat.lt_of_le_of_lt (le_foldl _ cs) h)]
    exact ih h

-- A number with neither point nor exponent is the natural of its digits.
theorem Spelling.integral {n : Number} {text : List Char} (h : n.Spelling text) (hintegral : n.integral = true) :
    n.digits = Numeral.value n.whole ∧ n.place = 0 := by
  cases h with
  | @mk _ whole fraction _ _ exponent marked hwhole hzero hfraction hexponent =>
    dsimp only at hintegral
    rw [Bool.and_eq_true, List.isEmpty_iff, Bool.not_eq_true'] at hintegral
    obtain ⟨rfl, rfl⟩ := hintegral
    cases hexponent
    exact ⟨congrArg Numeral.value (List.append_nil whole), rfl⟩

theorem double?_eq {n : Number} (h : n.digits < UInt64.size) :
    n.double? = scaled (Binary.double.ofDecimal n.digits 0) n.place 4 := by
  have hleading : leading 0 (n.whole ++ n.fraction) = (n.digits, 0) := leading_eq h
  unfold double?
  rw [hleading]
  dsimp only
  rw [Int.natCast_zero, Int.add_zero]
  rfl

theorem scaled_zero (word fuel : Nat) : scaled word 0 (fuel + 1) =
    let product := Binary.double.mul word (Binary.double.ofDecimal 1 0)
    if product < Binary.double.infinity then some product else none := by
  rw [scaled]
  simp only [Int.natAbs_zero, Nat.zero_le, Int.le_refl, if_true, Int.natCast_zero]

theorem zero_scaled (exponent : Int) (fuel : Nat) : scaled 0 exponent (fuel + 1) = some 0 := by
  have hsteps : Binary.double.steps 0 = 0 := by decide
  rw [scaled, Format.mul, Format.div, hsteps, Nat.zero_mul, Nat.zero_mul, Format.nearest_zero, Format.nearest_zero,
    if_pos (rfl : (0 : Nat) = 0)]
  dsimp only
  split
  · split <;> rfl
  · rfl

/-- A natural that fits a word is far below infinity. -/
theorem isSome_double?_ofNat {n : Nat} (h : n < UInt64.size) : (ofNat n).double?.isSome = true := by
  let f := Binary.double
  let one := f.ofDecimal 1 0
  have hdigits : (ofNat n).digits = n := by
    change Numeral.value (Numeral.digits n ++ []) = n
    rw [List.append_nil, Numeral.value_digits]
  have hpos : 0 < f.one := Nat.pow_pos (by decide)
  have hword : f.ofDecimal n 0 ≤ (1085 + 2) * f.fractions := by
    refine Format.nearest_le ?_
    rw [Nat.div_one]
    calc n * Nat.pow 10 0 * f.one
      _ = n * f.one := congrArg (· * f.one) (Nat.mul_one n)
      _ < UInt64.size * f.one := Nat.mul_lt_mul_of_pos_right h hpos
      _ = 2 ^ (f.fraction + (1085 + 1)) := by decide +kernel
  have hsteps : f.steps (f.ofDecimal n 0) < 2 ^ (f.fraction + (1086 + 1)) :=
    Format.steps_lt (k := 1086 + 1) (Nat.lt_of_le_of_lt hword (by decide +kernel))
  have hone : f.steps one = f.one := by decide +kernel
  have hproduct : f.mul (f.ofDecimal n 0) one < f.infinity := by
    refine Nat.lt_of_le_of_lt (Format.nearest_le (k := 1086) ?_) (by decide +kernel)
    rw [hone, Nat.mul_div_cancel _ hpos]
    exact hsteps
  have hplace : (ofNat n).place = 0 := rfl
  rw [double?_eq (hdigits.symm ▸ h), hdigits, hplace, scaled_zero]
  dsimp only
  rw [if_pos hproduct]
  rfl

end Number

namespace Token

theorem hex4?_hexDigits {n : Nat} (hn : n < 0x20) : ∃ a b c d,
    List.replicate (4 - (Numeral.hexDigits n).length) '0' ++ Numeral.hexDigits n = [a, b, c, d] ∧
      hex4? a b c d = some n := by
  interval_cases n <;> exact ⟨_, _, _, _, rfl, rfl⟩

theorem quoted_escape (c : Char) {content cs : List Char} (h : Quoted content cs) :
    Quoted (c :: content) (escape c ++ cs) := by
  unfold escape
  split_ifs with hquote hslash hback hfeed hline hreturn htab hcontrol
  · obtain rfl := beq_iff_eq.mp hquote
    exact .letter rfl h
  · obtain rfl := beq_iff_eq.mp hslash
    exact .letter rfl h
  · obtain rfl := beq_iff_eq.mp hback
    exact .letter rfl h
  · obtain rfl := beq_iff_eq.mp hfeed
    exact .letter rfl h
  · obtain rfl := beq_iff_eq.mp hline
    exact .letter rfl h
  · obtain rfl := beq_iff_eq.mp hreturn
    exact .letter rfl h
  · obtain rfl := beq_iff_eq.mp htab
    exact .letter rfl h
  · -- a control character is far below the halves of pairs
    obtain ⟨a, b, d, e, hhex, hunit⟩ := hex4?_hexDigits hcontrol
    have hquoted : Quoted (Char.ofNat c.toNat :: content) ('\\' :: 'u' :: a :: b :: d :: e :: cs) := by
      refine .unit hunit ?_ ?_ h
      · exact Bool.and_eq_false_iff.mpr (.inl (decide_eq_false (by omega)))
      · exact Bool.and_eq_false_iff.mpr (.inl (decide_eq_false (by omega)))
    rw [Char.ofNat_toNat] at hquoted
    dsimp only
    rw [List.cons_append, List.cons_append, List.cons_append, hhex]
    exact hquoted
  · exact .plain (Nat.le_of_not_lt hcontrol) (fun heq => hquote (beq_iff_eq.mpr heq))
      (fun heq => hslash (beq_iff_eq.mpr heq)) h

theorem quoted_escapeAll (content : List Char) : Quoted content (content.flatMap escape) := by
  induction content with
  | nil => exact .nil
  | cons c content ih => exact quoted_escape c ih

theorem spelling_quote (content : String) :
    Spelling (.string (some content)) (quote (some content)) :=
  .string (quoted_escapeAll content.toList)

end Token

theorem Spells.single {t : Token} {text : List Char} (h : t.Spelling text) : Spells text [t] := by
  have hspells := Spells.token h .nil
  rw [List.append_nil] at hspells
  exact hspells

theorem Spells.append {cs ds : List Char} {ts us : List Token} (h : Spells cs ts) (h' : Spells ds us) :
    Spells (cs ++ ds) (ts ++ us) := by
  induction h with
  | nil => exact h'
  | blank hc rest ih => exact .blank hc ih
  | token first rest ih =>
    rw [List.append_assoc]
    exact .token first ih

/-- A value of the kinds that are written on the wire: its numbers are naturals, and its strings have
content. -/
inductive Plain : Json → Prop
  | null : Plain .null
  | bool (b : Bool) : Plain (.bool b)
  | nat (n : Nat) : Plain (.nat n)
  | text (s : String) : Plain (.text s)
  | array {items : List Json} (h : ∀ j ∈ items, Plain j) : Plain (.array items)
  | object {members : List (Option String × Json)} (hkeys : ∀ m ∈ members, m.1.isSome = true)
    (h : ∀ m ∈ members, Plain m.2) : Plain (.object members)

theorem spells_charsAll (items : List Json) (h : ∀ j ∈ items, Spells j.chars j.tokens) :
    Spells (charsAll items) (tokensAll items) := by
  induction items with
  | nil => exact .nil
  | cons j items ih =>
    obtain ⟨hj, hrest⟩ := List.forall_mem_cons.mp h
    cases items with
    | nil => exact hj
    | cons k js =>
      rw [tokensAll_cons_cons]
      exact hj.append (.token .comma (ih hrest))

theorem spells_charsMembers (members : List (Option String × Json))
    (hkeys : ∀ m ∈ members, m.1.isSome = true) (h : ∀ m ∈ members, Spells m.2.chars m.2.tokens) :
    Spells (charsMembers members) (tokensMembers members) := by
  induction members with
  | nil => exact .nil
  | cons m members ih =>
    obtain ⟨hm, hrest⟩ := List.forall_mem_cons.mp h
    obtain ⟨hkey, hrestKeys⟩ := List.forall_mem_cons.mp hkeys
    obtain ⟨_ | key, j⟩ := m
    · cases hkey
    have hmember : Spells (quote (some key) ++ (':' :: j.chars)) (.string (some key) :: .colon :: j.tokens) :=
      (Spells.single (Token.spelling_quote key)).append (.token .colon hm)
    cases members with
    | nil => exact hmember
    | cons m ms =>
      rw [tokensMembers_cons_cons]
      exact hmember.append (.token .comma (ih hrestKeys hrest))

theorem spells_object {members : List (Option String × Json)} (hkeys : ∀ m ∈ members, m.1.isSome = true)
    (h : ∀ m ∈ members, Spells m.2.chars m.2.tokens) : Spells (object members).chars (object members).tokens := by
  have hspells : Spells (['{'] ++ (charsMembers members ++ ['}'])) (object members).tokens :=
    .token .leftBrace ((spells_charsMembers members hkeys h).append (.single .rightBrace))
  exact hspells

theorem spells_chars {j : Json} (h : j.Plain) : Spells j.chars j.tokens := by
  induction h with
  | null => exact .single .null
  | bool b =>
    cases b with
    | false => exact .single .no
    | true => exact .single .yes
  | nat n => exact .single (.number (Number.spelling_ofNat n))
  | text s => exact .single (Token.spelling_quote s)
  | @array items _ ih =>
    have hspells : Spells (['['] ++ (charsAll items ++ [']'])) (array items).tokens :=
      .token .leftBracket ((spells_charsAll items ih).append (.single .rightBracket))
    exact hspells
  | object hkeys _ ih => exact spells_object hkeys ih

theorem spelledBy_compact {j : Json} (h : j.Plain) : j.SpelledBy j.compact := by
  unfold SpelledBy compact
  rw [String.toList_ofList]
  exact spells_chars h

end SampleStream.Json
