import SampleStream.Proofs.Front
import SampleStream.Proofs.Shortest

/-!
# Samples in a source text

A literal of a sample is digits around a point. Wherever a scan comes to one, it reads the sample nearest to the
number written, or refuses it if that is infinite; and nothing else is read as a sample or refused for its range. What a
finite sample is printed as is such a literal, with the fewest digits, and is read as the sample (`tokenize_samples`).
-/

namespace SampleStream

open Sample

/-- Digits around a point, at least one in front of it, with a sign if the number is to be negative. -/
def IsLiteral (negative : Bool) (x : ℚ) (text : List Char) : Prop :=
  ∃ whole fraction, whole ≠ [] ∧ (∀ c ∈ whole, Numeral.isDigit c = true) ∧
    (∀ c ∈ fraction, Numeral.isDigit c = true) ∧ text = Scan.sign negative ++ whole ++ '.' :: fraction ∧
    x = pointNumber negative whole fraction

/-- The sample that a literal is to be read as: of its sign, and nearest to its number. -/
def Sample.Means (negative : Bool) (x : ℚ) (s : Sample) : Prop :=
  s.IsNearest x ∧ s.negative = negative

theorem Sample.means_ofPoint (negative : Bool) (whole fraction : List Char) :
    Means negative (pointNumber negative whole fraction) (ofPoint negative whole fraction) :=
  ofPoint_eq_iff.mp rfl

namespace Scan

-- Only a number with a point is refused for the range of samples.
theorem literal_of_number {negative : Bool} {c : Char} (hc : Numeral.isDigit c = true) {cs : List Char}
    (h : (number negative (c :: cs)).reading = .error .sampleRange) : ∃ whole fraction, whole ≠ [] ∧
      (∀ c ∈ whole, Numeral.isDigit c = true) ∧ (∀ c ∈ fraction, Numeral.isDigit c = true) ∧
      (number negative (c :: cs)).text = sign negative ++ whole ++ '.' :: fraction ∧
      (ofPoint negative whole fraction).isFinite = false := by
  by_cases hpoint : ((c :: cs).dropWhile Numeral.isDigit).head? = some '.'
  · obtain ⟨rest, hrest⟩ := List.head?_eq_some_iff.mp hpoint
    refine ⟨(c :: cs).takeWhile Numeral.isDigit, rest.takeWhile Numeral.isDigit, by simp [hc],
      fun d hd => List.mem_takeWhile_imp hd, fun d hd => List.mem_takeWhile_imp hd, ?_⟩
    rw [number_of_point negative hrest] at h ⊢
    split at h
    · cases h
    · rename_i hruns
      rw [if_neg hruns]
      refine ⟨rfl, ?_⟩
      split at h
      · cases h
      · rename_i hfinite
        rwa [Bool.not_eq_true] at hfinite
  · rw [number_of_no_point negative hpoint] at h
    split at h
    · cases h
    · dsimp only at h
      split at h <;> cases h

-- A symbol is a number only with a sign in front of a digit.
theorem symbol_of_sampleRange {c : Char} {cs : List Char} (h : (symbol c cs).reading = .error .sampleRange) :
    ∃ d rest, Numeral.isDigit d = true ∧ symbol c cs = number true (d :: rest) := by
  have hone (cs : List Char) : (oneChar c cs).reading ≠ .error .sampleRange := by
    unfold oneChar
    dsimp only
    split <;> nofun
  cases cs with
  | nil => exact absurd h (hone [])
  | cons d rest =>
    rw [symbol] at h ⊢
    cases hs : double? c d with
    | some s =>
      rw [hs] at h
      cases h
    | none =>
      rw [hs] at h
      by_cases hsign : (c == '-' && Numeral.isDigit d) = true
      · have hd := (Bool.and_eq_true _ _ ▸ hsign).2
        exact ⟨d, rest, hd, if_pos hsign⟩
      · dsimp only at h
        rw [if_neg hsign] at h
        exact absurd h (hone _)

theorem literal_of_cut {c : Char} {cs : List Char} (h : (cut c cs).reading = .error .sampleRange) :
    ∃ negative whole fraction, whole ≠ [] ∧ (∀ c ∈ whole, Numeral.isDigit c = true) ∧
      (∀ c ∈ fraction, Numeral.isDigit c = true) ∧ (cut c cs).text = sign negative ++ whole ++ '.' :: fraction ∧
      (ofPoint negative whole fraction).isFinite = false := by
  unfold cut at h ⊢
  by_cases hword : isWordStart c = true
  · rw [if_pos hword] at h
    unfold word at h
    dsimp only at h
    split at h
    · split at h <;> cases h
    · cases h
  · rw [if_neg hword] at h ⊢
    by_cases hdigit : Numeral.isDigit c = true
    · rw [if_pos hdigit] at h ⊢
      exact ⟨false, literal_of_number hdigit h⟩
    · rw [if_neg hdigit] at h ⊢
      obtain ⟨d, rest, hd, hnumber⟩ := symbol_of_sampleRange h
      rw [hnumber] at h ⊢
      exact ⟨true, literal_of_number hd h⟩

end Scan

theorem isLiteral_point (negative : Bool) {whole fraction : List Char} (hne : whole ≠ [])
    (hwhole : ∀ c ∈ whole, Numeral.isDigit c = true) (hfraction : ∀ c ∈ fraction, Numeral.isDigit c = true) :
    IsLiteral negative (pointNumber negative whole fraction) (Scan.sign negative ++ whole ++ '.' :: fraction) :=
  ⟨whole, fraction, hne, hwhole, hfraction, rfl, rfl⟩

/-- How the samples of a source text are read. -/
structure ReadsNearest (source : String) : Prop where
  /-- a literal that the scan comes to is its only sample, or ends the scan with a complaint if that is infinite -/
  literal : ∀ front text after ts negative x, source.toList = front ++ text ++ after →
    Front (text ++ after) 0 front ts → IsLiteral negative x text → Scan.runsOn after = false →
    ∃ s, Sample.Means negative x s ∧ (∀ t, Sample.Means negative x t → t = s) ∧
      tokenize source = if s.isFinite then
        (Scan.tokens (utf8Length (front ++ text)) after).map fun us =>
          ts ++ ⟨.sample s, ⟨utf8Length front, utf8Length (front ++ text)⟩⟩ :: us
      else .error ⟨⟨utf8Length front, utf8Length (front ++ text)⟩, .sampleOutOfRange (.ofList text)⟩
  /-- no other token is a sample -/
  token : ∀ ts, tokenize source = .ok ts → ∀ s span, (⟨.sample s, span⟩ : Token) ∈ ts →
    ∃ text negative x, span.slice? source.toList = some text ∧ IsLiteral negative x text ∧ Sample.Means negative x s ∧
      s.isFinite = true
  /-- and nothing else is refused for its range -/
  error : ∀ span text, tokenize source = .error ⟨span, .sampleOutOfRange text⟩ →
    ∃ negative x s, span.slice? source.toList = some text.toList ∧ IsLiteral negative x text.toList ∧
      Sample.Means negative x s ∧ s.isFinite = false

theorem readsNearest (source : String) : ReadsNearest source := by
  constructor
  case literal =>
    rintro front text after ts negative x hsource hfront ⟨whole, fraction, hne, hwhole, hfraction, rfl, rfl⟩ hafter
    refine ⟨ofPoint negative whole fraction, means_ofPoint negative whole fraction,
      fun t ht => (ofPoint_eq_iff.mpr ht).symm, ?_⟩
    obtain ⟨c, cs, htext, hblank, hcut⟩ := Scan.cut_point negative hne hwhole hfraction hafter
    have hc : ¬Scan.isBlank c = true := by simp [hblank]
    have htokens := hfront.tokens
    rw [Nat.zero_add] at htokens
    rw [tokenize, hsource, List.append_assoc, htokens, htext, utf8Length_append]
    by_cases hfinite : (ofPoint negative whole fraction).isFinite = true
    · rw [if_pos hfinite] at hcut ⊢
      rw [Scan.tokens_of_lexeme hc (congrArg Scan.Cut.reading hcut), hcut]
      dsimp only
      cases Scan.tokens _ after <;> rfl
    · rw [if_neg hfinite] at hcut ⊢
      rw [Scan.tokens_of_flaw hc (congrArg Scan.Cut.reading hcut), hcut]
      rfl
  case token =>
    intro ts hts s span hmem
    have hplaced : Placed 0 source.toList ts := Scan.placed_of_tokens 0 source.toList hts
    obtain ⟨before, text, after, hsource, hspelling, hspan⟩ := hplaced.spelled _ hmem Lexeme.noConfusion
    dsimp only at hspelling hspan
    cases hspelling with
    | @sample negative whole fraction hne hwhole hfraction hfinite =>
      refine ⟨_, negative, _, ?_, isLiteral_point negative hne hwhole hfraction,
        means_ofPoint negative whole fraction, hfinite⟩
      rw [hspan, hsource, Nat.zero_add]
      exact Span.slice?_append before _ after
  case error =>
    intro span text h
    obtain ⟨front, c, rest, ts, hsource, -, hblank, flaw, hreading, herror⟩ := Scan.front_of_error h
    obtain ⟨rfl, hcause⟩ := SyntaxError.mk.inj herror
    obtain ⟨rfl, rfl⟩ : flaw = .sampleRange ∧ text = .ofList (Scan.cut c rest).text := by
      cases flaw <;> cases hcause
      exact ⟨rfl, rfl⟩
    obtain ⟨negative, whole, fraction, hne, hwhole, hfraction, htext, hfinite⟩ := Scan.literal_of_cut hreading
    refine ⟨negative, _, _, ?_, ?_, means_ofPoint negative whole fraction, hfinite⟩
    · rw [hsource, Nat.zero_add, String.toList_ofList, ← Scan.cut_text_append_rest c rest, ← List.append_assoc]
      exact Span.slice?_append front _ _
    · rw [String.toList_ofList, htext]
      exact isLiteral_point negative hne hwhole hfraction

/-- How a sample is printed. -/
structure PrintsBack (s : Sample) : Prop where
  /-- as a literal that is to be read as the sample -/
  literal : ∃ x, IsLiteral s.negative x (Expr.sample s).text.toList ∧ Sample.Means s.negative x s
  /-- of which the scan makes the sample and nothing else -/
  tokens : tokenize (Expr.sample s).text = .ok
    [⟨.sample s, ⟨0, (Expr.sample s).text.utf8ByteSize⟩⟩, ⟨.done, .point (Expr.sample s).text.utf8ByteSize⟩]
  /-- with as few digits as any number has that is to be read as the sample, but for zeros next to the point -/
  shortest : ∃ d : Decimal,
    (Expr.sample s).text.toList = Scan.sign s.negative ++ d.parts.1 ++ '.' :: d.parts.2 ∧
      ∀ other : Decimal, Sample.Means s.negative (unit s.negative * other.toRat) s →
        (Numeral.digits d.digits).length ≤ (Numeral.digits other.digits).length

theorem printsBack {s : Sample} (hs : s.isFinite = true) : PrintsBack s := by
  have htext : (Expr.sample s).text.toList = s.literal := by
    rw [Expr.text, Phrase.text, String.toList_ofList]
    exact List.append_nil _
  have hlength : (Expr.sample s).text.utf8ByteSize = utf8Length s.literal := by
    rw [← utf8Length_toList, htext]
  obtain ⟨hne, hwhole, hfraction⟩ := (s.decimal .up).parts_digits
  constructor
  case literal =>
    refine ⟨_, ?_, ofPoint_eq_iff.mp (ofPoint_parts .up hs)⟩
    rw [htext, literal_eq hs]
    exact isLiteral_point s.negative hne hwhole hfraction
  case tokens =>
    have hplaced : Placed 0 (s.literal ++ []) _ := .lexeme (spelling_literal hs) (apart_nil _) .nil
    have htokens := hplaced.tokens
    rw [List.append_nil, Nat.zero_add] at htokens
    rw [tokenize, htext, hlength, htokens]
  case shortest =>
    refine ⟨s.decimal .up, by rw [htext, literal_eq hs], fun other hother => ?_⟩
    exact length_decimal_le .up hs (ofDecimal_eq_iff.mpr hother)

/-- Finite samples are printed such that they are read back, and every literal is read as the sample nearest to it. -/
theorem tokenize_samples :
    (∀ s : Sample, s.isFinite = true → PrintsBack s) ∧ ∀ source : String, ReadsNearest source :=
  ⟨fun _ hs => printsBack hs, readsNearest⟩

-- The negative sample nearest to zero; and a literal halfway between two samples, the lower one even.
theorem tokenize_samples_halfway : (⟨0x80000001⟩ : Sample).isFinite = true ∧ PrintsBack ⟨0x80000001⟩ ∧
    tokenize "16777217." = .ok [⟨.sample ⟨0x4b800000⟩, ⟨0, 9⟩⟩, ⟨.done, ⟨9, 9⟩⟩] := by
  refine ⟨by decide, tokenize_samples.1 _ (by decide), ?_⟩
  have hliteral : IsLiteral false _ "16777217.".toList :=
    @isLiteral_point false "16777217".toList [] (by decide) (List.all_eq_true.mp rfl) nofun
  obtain ⟨s, -, hunique, htokens⟩ := (tokenize_samples.2 "16777217.").literal [] "16777217.".toList [] [] false _
    rfl .nil hliteral rfl
  have hmeans := ofPoint_eq_iff.mp (show ofPoint false "16777217".toList [] = ⟨0x4b800000⟩ by decide +kernel)
  rw [← hunique _ hmeans] at htokens
  rw [htokens, if_pos (by decide), Scan.tokens]
  rfl

end SampleStream
