import Mathlib.Data.List.TakeDrop
import SampleStream.Json.Token
import SampleStream.Proofs.Spelling

/-!
# The spelling of JSON tokens

How tokens stand in a text: each in one of its spellings, and any blanks between them (`Json.Spells`). A text
is cut into the tokens that it spells (`ofText_of_spells`), as long as no number is next to what would go on
with it (`Separated`); in the tokens of a value none is.
-/

namespace SampleStream.Json

open Scan (Stops)

/-- A run of digits, with one digit at least. -/
structure IsDigits (ds : List Char) : Prop where
  ne_nil : ds ≠ []
  digit : ∀ c ∈ ds, Numeral.isDigit c = true

namespace Number

/-- The ways to write the digits after the point: without a point if there are none. -/
inductive Fraction : List Char → List Char → Prop
  | none : Fraction [] []
  | point {ds : List Char} (h : IsDigits ds) : Fraction ds ('.' :: ds)

/-- The ways to write an exponent, and whether it is written at all. -/
inductive Exponent : Int → Bool → List Char → Prop
  | none : Exponent 0 false []
  | bare {mark : Char} {ds : List Char} (hmark : mark = 'e' ∨ mark = 'E') (h : IsDigits ds) :
    Exponent (Numeral.value ds) true (mark :: ds)
  | plus {mark : Char} {ds : List Char} (hmark : mark = 'e' ∨ mark = 'E') (h : IsDigits ds) :
    Exponent (Numeral.value ds) true (mark :: '+' :: ds)
  | minus {mark : Char} {ds : List Char} (hmark : mark = 'e' ∨ mark = 'E') (h : IsDigits ds) :
    Exponent (-Numeral.value ds) true (mark :: '-' :: ds)

/-- The ways to write a number. Only zero itself begins with a zero. -/
inductive Spelling : Number → List Char → Prop
  | mk (negative : Bool) {whole fraction point mark : List Char} {exponent : Int} {marked : Bool}
    (hwhole : IsDigits whole) (hzero : whole.head? = some '0' → whole = ['0'])
    (hfraction : Fraction fraction point) (hexponent : Exponent exponent marked mark) :
    Spelling ⟨negative, whole, fraction, exponent, fraction.isEmpty && !marked⟩
      ((if negative then ['-'] else []) ++ whole ++ point ++ mark)

end Number

namespace Token

/-- The ways to write characters inside quotes: as they are, by a letter, by one 16-bit unit or by two. -/
inductive Quoted : List Char → List Char → Prop
  | nil : Quoted [] []
  | plain {c : Char} {content cs : List Char} (hlow : 0x20 ≤ c.toNat) (hquote : c ≠ '"') (hslash : c ≠ '\\')
    (rest : Quoted content cs) : Quoted (c :: content) (c :: cs)
  | letter {e c : Char} {content cs : List Char} (he : escaped? e = some c) (rest : Quoted content cs) :
    Quoted (c :: content) ('\\' :: e :: cs)
  | unit {a b c d : Char} {n : Nat} {content cs : List Char} (hunit : hex4? a b c d = some n)
    (hhigh : isHigh n = false) (hlow : isLow n = false) (rest : Quoted content cs) :
    Quoted (Char.ofNat n :: content) ('\\' :: 'u' :: a :: b :: c :: d :: cs)
  | pair {a b c d e f g h : Char} {high low : Nat} {content cs : List Char}
    (hunit : hex4? a b c d = some high) (hhigh : isHigh high = true) (hunit' : hex4? e f g h = some low)
    (hlow : isLow low = true) (rest : Quoted content cs) :
    Quoted (Char.ofNat (0x10000 + (high - 0xd800) * 0x400 + (low - 0xdc00)) :: content)
      ('\\' :: 'u' :: a :: b :: c :: d :: '\\' :: 'u' :: e :: f :: g :: h :: cs)

/-- The ways to write a token. Only strings with content are written. -/
inductive Spelling : Token → List Char → Prop
  | leftBrace : Spelling .leftBrace ['{']
  | rightBrace : Spelling .rightBrace ['}']
  | leftBracket : Spelling .leftBracket ['[']
  | rightBracket : Spelling .rightBracket [']']
  | colon : Spelling .colon [':']
  | comma : Spelling .comma [',']
  | null : Spelling .null ['n', 'u', 'l', 'l']
  | yes : Spelling (.bool true) ['t', 'r', 'u', 'e']
  | no : Spelling (.bool false) ['f', 'a', 'l', 's', 'e']
  | number {n : Number} {cs : List Char} (h : n.Spelling cs) : Spelling (.number n) cs
  | string {content : String} {cs : List Char} (h : Quoted content.toList cs) :
    Spelling (.string (some content)) ('"' :: cs ++ ['"'])

end Token

/-- The text is made of spellings of the tokens in order, and of blanks. -/
inductive Spells : List Char → List Token → Prop
  | nil : Spells [] []
  | blank {c : Char} {cs : List Char} {ts : List Token} (hc : Token.isBlank c = true) (rest : Spells cs ts) :
    Spells (c :: cs) ts
  | token {t : Token} {text cs : List Char} {ts : List Token} (first : t.Spelling text)
    (rest : Spells cs ts) : Spells (text ++ cs) (t :: ts)

namespace Token

/-- Whether a character would go on with a number. -/
def goesOn (c : Char) : Bool :=
  Numeral.isDigit c || c == '.' || c == 'e' || c == 'E'

/-- Whether the token may stand right behind a number. -/
def closes : Token → Bool
  | .rightBrace | .rightBracket | .comma => true
  | _ => false

/-- No number is next to a token that could be taken for more of it. -/
def Separated : List Token → Prop
  | .number _ :: t :: ts => t.closes = true ∧ Separated (t :: ts)
  | _ :: ts => Separated ts
  | [] => True

theorem Separated.of_cons {t : Token} {ts : List Token} (h : Separated (t :: ts)) : Separated ts := by
  cases t with
  | number n =>
    cases ts with
    | nil => trivial
    | cons t ts => exact h.2
  | _ => exact h

theorem stops_of_blank {c : Char} (hc : isBlank c = true) (cs : List Char) : Stops goesOn (c :: cs) := by
  intro d hd
  cases hd
  simp only [isBlank, Bool.or_eq_true, beq_iff_eq] at hc
  rcases hc with ((rfl | rfl) | rfl) | rfl <;> decide

-- What follows a number does not go on with it.
theorem stops_of_spells {n : Number} {cs : List Char} {ts : List Token} (h : Spells cs ts)
    (hts : Separated (.number n :: ts)) : Stops goesOn cs := by
  cases h with
  | nil => nofun
  | blank hc rest => exact stops_of_blank hc _
  | @token t text cs ts first rest =>
    have hcloses : t.closes = true := hts.1
    cases first with
    | rightBrace | rightBracket | comma =>
      intro d hd
      cases hd
      decide
    | _ => cases hcloses

section Numbers

variable {cs : List Char}

theorem stops_digit (h : Stops goesOn cs) : Stops Numeral.isDigit cs := by
  intro c hc
  have hgoes := h c hc
  simp only [goesOn, Bool.or_eq_false_iff] at hgoes
  exact hgoes.1.1.1

theorem span_digits {ds : List Char} (hds : IsDigits ds) (h : Stops Numeral.isDigit cs) :
    (ds ++ cs).span Numeral.isDigit = (ds, cs) := by
  rw [List.span_eq_takeWhile_dropWhile, h.takeWhile_append hds.digit, h.dropWhile_append hds.digit]

theorem isEmpty_eq_false {ds : List Char} (hds : IsDigits ds) : ds.isEmpty = false :=
  List.isEmpty_eq_false_iff.mpr hds.ne_nil

/-- The sign at the front, and what follows it. -/
def signOf : List Char → Bool × List Char
  | '-' :: rest => (true, rest)
  | '+' :: rest => (false, rest)
  | rest => (false, rest)

-- Behind the mark and the sign stand the digits.
theorem exponent?_marked {mark : Char} (hmark : mark = 'e' ∨ mark = 'E') {after ds : List Char}
    {negative : Bool} (hafter : signOf after = (negative, ds ++ cs)) (hds : IsDigits ds)
    (hstops : Stops goesOn cs) : exponent? (mark :: after) =
      some (if negative then -(Numeral.value ds : Int) else Numeral.value ds, true, cs) := by
  have hexponent : exponent? (mark :: after) =
      let sign := signOf after
      let ds := sign.2.span Numeral.isDigit
      if ds.1.isEmpty then none
      else some (if sign.1 then -(Numeral.value ds.1 : Int) else Numeral.value ds.1, true, ds.2) := by
    rcases hmark with rfl | rfl <;> rfl
  rw [hexponent, hafter]
  dsimp only
  rw [span_digits hds (stops_digit hstops)]
  dsimp only
  rw [isEmpty_eq_false hds]
  rfl

theorem exponent?_of_spelling {exponent : Int} {marked : Bool} {mark : List Char}
    (h : Number.Exponent exponent marked mark) (hstops : Stops goesOn cs) :
    exponent? (mark ++ cs) = some (exponent, marked, cs) := by
  cases h with
  | none =>
    cases cs with
    | nil => rfl
    | cons c cs =>
      have hgoes := hstops c rfl
      simp only [goesOn, Bool.or_eq_false_iff] at hgoes
      have hmark : (c == 'e' || c == 'E') = false := by rw [hgoes.1.2, hgoes.2]; rfl
      unfold exponent?
      dsimp only [List.nil_append]
      rw [hmark]
      rfl
  | @bare mark ds hmark hds =>
    have hsign : signOf (ds ++ cs) = (false, ds ++ cs) := by
      obtain ⟨d, ds, rfl⟩ := List.exists_cons_of_ne_nil hds.ne_nil
      have hd := hds.digit d List.mem_cons_self
      rw [List.cons_append]
      unfold signOf
      split
      · cases ‹_ = _›
        exact absurd hd (by decide)
      · cases ‹_ = _›
        exact absurd hd (by decide)
      · rfl
    exact exponent?_marked hmark hsign hds hstops
  | @plus mark ds hmark hds =>
    have hsign : signOf ('+' :: ds ++ cs) = (false, ds ++ cs) := rfl
    exact exponent?_marked hmark hsign hds hstops
  | @minus mark ds hmark hds =>
    have hsign : signOf ('-' :: ds ++ cs) = (true, ds ++ cs) := rfl
    exact exponent?_marked hmark hsign hds hstops

theorem stops_mark {exponent : Int} {marked : Bool} {mark : List Char}
    (h : Number.Exponent exponent marked mark) (hstops : Stops goesOn cs) :
    Stops (fun c => Numeral.isDigit c || c == '.') (mark ++ cs) := by
  have hmarked {c : Char} (hc : c = 'e' ∨ c = 'E') (cs : List Char) :
      Stops (fun c => Numeral.isDigit c || c == '.') (c :: cs) := by
    intro d hd
    cases hd
    rcases hc with rfl | rfl <;> rfl
  cases h with
  | none =>
    intro c hc
    have hgoes := hstops c hc
    simp only [goesOn, Bool.or_eq_false_iff] at hgoes
    simp only [hgoes, Bool.or_false]
  | bare hmark hds => exact hmarked hmark _
  | plus hmark hds => exact hmarked hmark _
  | minus hmark hds => exact hmarked hmark _

theorem fraction?_of_spelling {fraction point : List Char} (h : Number.Fraction fraction point)
    (hstops : Stops (fun c => Numeral.isDigit c || c == '.') cs) :
    fraction? (point ++ cs) = some (fraction, cs) := by
  cases h with
  | none =>
    cases cs with
    | nil => rfl
    | cons c cs =>
      have hpoint := hstops c rfl
      rw [List.nil_append]
      unfold fraction?
      split
      · cases ‹_ = _›
        exact absurd hpoint (by decide)
      · rfl
  | point hds =>
    have hdigit : Stops Numeral.isDigit cs := fun c hc => (Bool.or_eq_false_iff.mp (hstops c hc)).1
    rw [List.cons_append, fraction?, span_digits hds hdigit]
    dsimp only
    rw [isEmpty_eq_false hds]
    rfl

theorem number?_of_spelling (negative : Bool) {whole fraction point mark : List Char} {exponent : Int}
    {marked : Bool} (hwhole : IsDigits whole) (hzero : whole.head? = some '0' → whole = ['0'])
    (hfraction : Number.Fraction fraction point) (hexponent : Number.Exponent exponent marked mark)
    (hstops : Stops goesOn cs) : number? negative (whole ++ point ++ mark ++ cs) =
      some (⟨negative, whole, fraction, exponent, fraction.isEmpty && !marked⟩, cs) := by
  have hmark := stops_mark hexponent hstops
  have hpoint : Stops Numeral.isDigit (point ++ (mark ++ cs)) := by
    cases hfraction with
    | none => exact fun c hc => (Bool.or_eq_false_iff.mp (hmark c hc)).1
    | point hds =>
      intro c hc
      cases hc
      rfl
  have hleading : (whole.isEmpty || (whole.head? == some '0' && decide (1 < whole.length))) = false := by
    rw [isEmpty_eq_false hwhole, Bool.false_or, Bool.and_eq_false_iff]
    by_cases hhead : whole.head? = some '0'
    · refine .inr ?_
      rw [hzero hhead]
      rfl
    · exact .inl (beq_eq_false_iff_ne.mpr hhead)
  unfold number?
  rw [List.append_assoc, List.append_assoc, span_digits hwhole hpoint]
  dsimp only
  rw [hleading, fraction?_of_spelling hfraction hmark]
  change (exponent? (mark ++ cs)).bind _ = _
  rw [exponent?_of_spelling hexponent hstops]
  rfl

-- A number without a sign begins with a digit, and nothing else does.
theorem next?_digit {c : Char} (hc : Numeral.isDigit c = true) (cs : List Char) :
    next? (c :: cs) = (number? false (c :: cs)).map fun (n, rest) => (.number n, rest) := by
  have hne {d : Char} (hd : Numeral.isDigit d = false) : c ≠ d := by
    rintro rfl
    rw [hd] at hc
    cases hc
  unfold next?
  split
  all_goals first | rfl | exact absurd (List.cons.inj ‹_ = _›).1 (hne rfl)

theorem next?_of_number {n : Number} {text : List Char} (h : n.Spelling text) (hstops : Stops goesOn cs) :
    next? (text ++ cs) = some (.number n, cs) := by
  cases h with
  | @mk negative whole fraction point mark exponent marked hwhole hzero hfraction hexponent =>
    have hnumber := number?_of_spelling negative hwhole hzero hfraction hexponent hstops
    cases negative with
    | true =>
      change (number? true (whole ++ point ++ mark ++ cs)).map _ = _
      rw [hnumber]
      rfl
    | false =>
      obtain ⟨d, ds, rfl⟩ := List.exists_cons_of_ne_nil hwhole.ne_nil
      have hnext := next?_digit (hwhole.digit d List.mem_cons_self) (ds ++ point ++ mark ++ cs)
      change next? (d :: (ds ++ point ++ mark ++ cs)) = _
      rw [hnext]
      change (number? false (d :: ds ++ point ++ mark ++ cs)).map _ = _
      rw [hnumber]
      rfl

end Numbers

section Strings

-- A unit that is no half of a pair is a character by itself.
theorem joinUnits_unit {n : Nat} (hhigh : isHigh n = false) (hlow : isLow n = false)
    (us : List (Nat ⊕ Char)) : joinUnits (.inl n :: us) = (joinUnits us).map (Char.ofNat n :: ·) := by
  have hnone : (isHigh n || isLow n) = false := by rw [hhigh, hlow]; rfl
  match us with
  | [] => simp only [joinUnits, hnone]; rfl
  | .inr c :: us => simp only [joinUnits, hnone]; rfl
  | .inl low :: us => simp only [joinUnits, hhigh, hlow]; rfl

theorem joinUnits_pair {high low : Nat} (hhigh : isHigh high = true) (hlow : isLow low = true)
    (us : List (Nat ⊕ Char)) : joinUnits (.inl high :: .inl low :: us) = (joinUnits us).map
      (Char.ofNat (0x10000 + (high - 0xd800) * 0x400 + (low - 0xdc00)) :: ·) := by
  simp only [joinUnits, hhigh, hlow]
  rfl

theorem units_plain {c : Char} (hlow : 0x20 ≤ c.toNat) (hquote : c ≠ '"') (hslash : c ≠ '\\')
    (cs : List Char) : units (c :: cs) = (units cs).map fun (more, rest) => (.inr c :: more, rest) := by
  have hplain : (decide (c.toNat < 0x20) || c == '\\') = false := by
    rw [decide_eq_false (Nat.not_lt.mpr hlow), beq_eq_false_iff_ne.mpr hslash]
    rfl
  rw [units.eq_def]
  split
  · cases ‹_ = _›
  · exact absurd (List.cons.inj ‹_ = _›).1 hquote
  · exact absurd (List.cons.inj ‹_ = _›).1 hslash
  · exact absurd (List.cons.inj ‹_ = _›).1 hslash
  · cases ‹_ = _›
    rw [hplain]
    rfl

theorem units_letter {e c : Char} (he : escaped? e = some c) (cs : List Char) :
    units ('\\' :: e :: cs) = (units cs).map fun (more, rest) => (.inr c :: more, rest) := by
  have hu : e ≠ 'u' := by
    rintro rfl
    cases he
  rw [units.eq_def]
  split
  · cases ‹_ = _›
  · cases ‹_ = _›
  · exact absurd (List.cons.inj (List.cons.inj ‹_ = _›).2).1 hu
  · cases ‹_ = _›
    rw [he]
    cases units cs <;> rfl
  · rename_i hnot heq
    cases heq
    exact (hnot e cs rfl rfl).elim

-- What stands inside quotes is read as what it was written for.
theorem units_of_quoted {content cs : List Char} (h : Quoted content cs) (rest : List Char) :
    ∃ us, units (cs ++ '"' :: rest) = some (us, rest) ∧ joinUnits us = some content := by
  induction h with
  | nil => exact ⟨[], rfl, rfl⟩
  | @plain c content cs hlow hquote hslash _ ih =>
    obtain ⟨us, hunits, hjoin⟩ := ih
    refine ⟨.inr c :: us, ?_, ?_⟩
    · rw [List.cons_append, units_plain hlow hquote hslash, hunits]
      rfl
    · rw [joinUnits, hjoin]
      rfl
  | @letter e c content cs he _ ih =>
    obtain ⟨us, hunits, hjoin⟩ := ih
    refine ⟨.inr c :: us, ?_, ?_⟩
    · rw [List.cons_append, List.cons_append, units_letter he, hunits]
      rfl
    · rw [joinUnits, hjoin]
      rfl
  | @unit a b c d n content cs hunit hhigh hlow _ ih =>
    obtain ⟨us, hunits, hjoin⟩ := ih
    refine ⟨.inl n :: us, ?_, ?_⟩
    · simp only [List.cons_append]
      rw [units, hunit, hunits]
      rfl
    · rw [joinUnits_unit hhigh hlow, hjoin]
      rfl
  | @pair a b c d e f g h high low content cs hunit hhigh hunit' hlow _ ih =>
    obtain ⟨us, hunits, hjoin⟩ := ih
    refine ⟨.inl high :: .inl low :: us, ?_, ?_⟩
    · simp only [List.cons_append]
      rw [units, hunit, units, hunit', hunits]
      rfl
    · rw [joinUnits_pair hhigh hlow, hjoin]
      rfl

end Strings

/-- A spelling begins with a character that is no blank. -/
theorem Spelling.head {t : Token} {text : List Char} (h : t.Spelling text) :
    ∃ c cs, text = c :: cs ∧ isBlank c = false := by
  cases h with
  | number h =>
    cases h with
    | @mk negative whole fraction point mark exponent marked hwhole =>
      cases negative with
      | true => exact ⟨'-', _, rfl, rfl⟩
      | false =>
        obtain ⟨d, ds, rfl⟩ := List.exists_cons_of_ne_nil hwhole.ne_nil
        refine ⟨d, _, rfl, Bool.eq_false_iff.mpr fun hblank => ?_⟩
        have hdigit := hwhole.digit d List.mem_cons_self
        rw [stops_digit (stops_of_blank hblank []) d rfl] at hdigit
        cases hdigit
  | _ => exact ⟨_, _, rfl, rfl⟩

theorem next?_of_spelling {t : Token} {text : List Char} (h : t.Spelling text) {cs : List Char}
    (hstops : ∀ n, t = .number n → Stops goesOn cs) : next? (text ++ cs) = some (t, cs) := by
  cases h with
  | number h => exact next?_of_number h (hstops _ rfl)
  | @string content quoted h =>
    obtain ⟨us, hunits, hjoin⟩ := units_of_quoted h cs
    have hnext : next? ('"' :: quoted ++ ['"'] ++ cs) = (units (quoted ++ '"' :: cs)).map
        fun (us, rest) => (.string ((joinUnits us).map String.ofList), rest) := by
      rw [List.append_assoc]
      rfl
    rw [hnext, hunits, Option.map_some]
    dsimp only
    rw [hjoin, Option.map_some, String.ofList_toList]
  | _ => rfl

-- Enough fuel is left after a token, as each takes a character.
theorem scan_of_spells {cs : List Char} {ts : List Token} (h : Spells cs ts) (hts : Separated ts)
    {fuel : Nat} (hfuel : cs.length < fuel) : scan fuel cs = ts := by
  induction h generalizing fuel with
  | nil =>
    obtain ⟨fuel, rfl⟩ := Nat.exists_eq_succ_of_ne_zero (Nat.ne_of_gt hfuel)
    rfl
  | @blank c cs ts hc rest ih =>
    obtain ⟨fuel, rfl⟩ := Nat.exists_eq_succ_of_ne_zero (Nat.ne_of_gt (Nat.zero_lt_of_lt hfuel))
    have hscan := ih hts (Nat.lt_of_succ_lt hfuel)
    unfold scan at hscan ⊢
    rw [List.dropWhile_cons_of_pos hc]
    exact hscan
  | @token t text cs ts first rest ih =>
    obtain ⟨fuel, rfl⟩ := Nat.exists_eq_succ_of_ne_zero (Nat.ne_of_gt (Nat.zero_lt_of_lt hfuel))
    obtain ⟨c, more, rfl, hc⟩ := first.head
    have hnext := next?_of_spelling first fun n hn => stops_of_spells rest (hn ▸ hts)
    have hrest : cs.length < fuel := by
      simp only [List.length_append, List.length_cons] at hfuel
      omega
    have hscan := ih hts.of_cons hrest
    rw [List.cons_append] at hnext ⊢
    unfold scan
    rw [List.dropWhile_cons_of_neg (by rw [hc]; nofun)]
    dsimp only
    rw [hnext]
    exact congrArg (t :: ·) hscan

/-- A text is cut into the tokens that it spells, however many blanks stand between them. -/
theorem ofText_of_spells {cs : List Char} {ts : List Token} (h : Spells cs ts) (hts : Separated ts) :
    ofText cs = ts :=
  scan_of_spells h hts (Nat.lt_succ_self _)

end Token

end SampleStream.Json
