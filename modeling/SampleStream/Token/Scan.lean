import SampleStream.SyntaxError

/-!
# Scanning

A source text is cut into lexemes from the front. Each cut is as long as its class allows, and a word or
number that runs into further letters, digits or underscores is refused as a whole. Main statements: a
cut and what is left after it are the text (`cut_text_append_rest`), and no cut is empty
(`cut_text_ne_nil`).
-/

namespace SampleStream

namespace Scan

/-- Space, tab, line feed, form feed and carriage return. -/
def isBlank (c : Char) : Bool :=
  c == ' ' || c == '\t' || c == '\n' || c == '\x0c' || c == '\r'

def isLower (c : Char) : Bool :=
  'a' ≤ c && c ≤ 'z'

/-- What a word may begin with, before its letters are looked at. -/
def isWordStart (c : Char) : Bool :=
  isLower c || ('A' ≤ c && c ≤ 'Z') || c == '_'

def isWordChar (c : Char) : Bool :=
  isWordStart c || Numeral.isDigit c

/-- Why a piece of text is no lexeme. -/
inductive Flaw
  | invalid
  | integerRange
  | sampleRange
deriving DecidableEq, Repr

/-- A piece from the front of a text, what follows it, and what the piece says. -/
structure Cut where
  text : List Char
  rest : List Char
  reading : Except Flaw Lexeme

/-- A run of word characters; only lower-case letters make a word. -/
def word (cs : List Char) : Cut :=
  let text := cs.takeWhile isWordChar
  { text
    rest := cs.dropWhile isWordChar
    reading :=
      if text.all isLower then
        match Keyword.ofText? (String.ofList text) with
        | some k => .ok (.keyword k)
        | none => .ok (.name (String.ofList text))
      else .error .invalid }

/-- A piece that takes the word characters after `text` with it and is refused. -/
def refused (text rest : List Char) : Cut where
  text := text ++ rest.takeWhile isWordChar
  rest := rest.dropWhile isWordChar
  reading := .error .invalid

/-- Whether a word character comes next. -/
def runsOn (cs : List Char) : Bool :=
  match cs with
  | [] => false
  | c :: _ => isWordChar c

def sign (negative : Bool) : List Char :=
  if negative then ['-'] else []

/-- Digits with a point are a sample, digits alone an index. A sign, taken before `cs`, asks for the
point. -/
def number (negative : Bool) (cs : List Char) : Cut :=
  let whole := cs.takeWhile Numeral.isDigit
  match cs.dropWhile Numeral.isDigit with
  | '.' :: rest =>
    let fraction := rest.takeWhile Numeral.isDigit
    let after := rest.dropWhile Numeral.isDigit
    let text := sign negative ++ whole ++ '.' :: fraction
    if runsOn after then refused text after
    else
      let s := Sample.ofPoint negative whole fraction
      ⟨text, after, if s.isFinite then .ok (.sample s) else .error .sampleRange⟩
  | rest =>
    let text := sign negative ++ whole
    if negative || runsOn rest then refused text rest
    else
      let n := Numeral.value whole
      ⟨text, rest, if n < UInt64.size then .ok (.index (UInt64.ofNat n)) else .error .integerRange⟩

-- What a number is, by what stands behind its first digits.
theorem number_of_point (negative : Bool) {cs rest : List Char}
    (h : cs.dropWhile Numeral.isDigit = '.' :: rest) :
    let whole := cs.takeWhile Numeral.isDigit
    let fraction := rest.takeWhile Numeral.isDigit
    let after := rest.dropWhile Numeral.isDigit
    let text := sign negative ++ whole ++ '.' :: fraction
    let s := Sample.ofPoint negative whole fraction
    number negative cs = if runsOn after then refused text after
      else ⟨text, after, if s.isFinite then .ok (.sample s) else .error .sampleRange⟩ := by
  simp only [number, h]

theorem number_of_no_point (negative : Bool) {cs : List Char}
    (h : (cs.dropWhile Numeral.isDigit).head? ≠ some '.') :
    let whole := cs.takeWhile Numeral.isDigit
    let after := cs.dropWhile Numeral.isDigit
    let text := sign negative ++ whole
    let n := Numeral.value whole
    number negative cs = if negative || runsOn after then refused text after
      else ⟨text, after, if n < UInt64.size then .ok (.index (UInt64.ofNat n)) else .error .integerRange⟩ := by
  intro whole after text n
  unfold number
  dsimp only
  split
  · rename_i hrest
    rw [hrest] at h
    exact absurd rfl h
  · rfl

/-- The symbols of one character. -/
def single? (c : Char) : Option Symbol :=
  match c with
  | '\\' => some .backslash
  | '&' => some .ampersand
  | '!' => some .bang
  | ':' => some .colon
  | ',' => some .comma
  | '.' => some .dot
  | '=' => some .equals
  | '(' => some .leftParen
  | ')' => some .rightParen
  | '{' => some .leftBrace
  | '}' => some .rightBrace
  | '|' => some .pipe
  | '*' => some .star
  | '+' => some .plus
  | '~' => some .tilde
  | _ => none

/-- The symbols of two characters. -/
def double? (c d : Char) : Option Symbol :=
  match c, d with
  | '-', '>' => some .arrow
  | ':', ':' => some .colonColon
  | '=', '>' => some .fatArrow
  | _, _ => none

def oneChar (c : Char) (cs : List Char) : Cut :=
  ⟨[c], cs, match single? c with | some s => .ok (.symbol s) | none => .error .invalid⟩

/-- Symbols, the longer first, and numbers with a sign. -/
def symbol (c : Char) (cs : List Char) : Cut :=
  match cs with
  | [] => oneChar c cs
  | d :: rest =>
    match double? c d with
    | some s => ⟨[c, d], rest, .ok (.symbol s)⟩
    | none => if c == '-' && Numeral.isDigit d then number true cs else oneChar c cs

/-- The first piece of a text that does not begin with a blank. -/
def cut (c : Char) (cs : List Char) : Cut :=
  if isWordStart c then word (c :: cs)
  else if Numeral.isDigit c then number false (c :: cs)
  else symbol c cs

theorem refused_text_append_rest (text rest : List Char) :
    (refused text rest).text ++ (refused text rest).rest = text ++ rest := by
  simp [refused]

theorem number_text_append_rest (negative : Bool) (cs : List Char) :
    (number negative cs).text ++ (number negative cs).rest = sign negative ++ cs := by
  have hs := List.takeWhile_append_dropWhile (p := Numeral.isDigit) (l := cs)
  unfold number
  dsimp only
  split
  · rename_i rest h
    rw [h] at hs
    split
    · rw [refused_text_append_rest]
      conv => rhs; rw [← hs]
      simp
    · conv => rhs; rw [← hs]
      simp
  · rename_i rest
    split
    · rw [refused_text_append_rest]
      conv => rhs; rw [← hs]
      simp
    · conv => rhs; rw [← hs]
      simp

theorem symbol_text_append_rest (c : Char) (cs : List Char) :
    (symbol c cs).text ++ (symbol c cs).rest = c :: cs := by
  unfold symbol
  split
  · simp [oneChar]
  · split
    · simp
    · split
      · rename_i h
        rw [number_text_append_rest]
        simp only [Bool.and_eq_true, beq_iff_eq] at h
        simp [sign, h.1]
      · simp [oneChar]

theorem cut_text_append_rest (c : Char) (cs : List Char) :
    (cut c cs).text ++ (cut c cs).rest = c :: cs := by
  unfold cut
  split
  · simp [word]
  · split
    · rw [number_text_append_rest]; simp [sign]
    · exact symbol_text_append_rest c cs

theorem number_text_ne_nil (negative : Bool) (c : Char) (cs : List Char)
    (h : Numeral.isDigit c = true) : (number negative (c :: cs)).text ≠ [] := by
  unfold number
  dsimp only
  split <;> split <;> simp [refused, h]

theorem cut_text_ne_nil (c : Char) (cs : List Char) : (cut c cs).text ≠ [] := by
  unfold cut
  split
  · rename_i h; simp [word, isWordChar, h]
  · split
    · rename_i h; exact number_text_ne_nil false c cs h
    · unfold symbol
      split
      · simp [oneChar]
      · split
        · simp
        · split
          · rename_i h
            simp only [Bool.and_eq_true] at h
            exact number_text_ne_nil true _ _ h.2
          · simp [oneChar]

theorem cut_rest_length_lt (c : Char) (cs : List Char) :
    (cut c cs).rest.length < (c :: cs).length := by
  have h := congrArg List.length (cut_text_append_rest c cs)
  have h0 := List.length_pos_iff.mpr (cut_text_ne_nil c cs)
  rw [List.length_append] at h
  omega

def Flaw.cause (text : List Char) : Flaw → SyntaxError.Cause
  | .invalid => .invalidToken (String.ofList text)
  | .integerRange => .integerOutOfRange (String.ofList text)
  | .sampleRange => .sampleOutOfRange (String.ofList text)

/-- The tokens of a text that begins at `offset`, up to the first flaw. -/
def tokens (offset : Nat) : List Char → Except SyntaxError (List Token)
  | [] => .ok [⟨.done, .point offset⟩]
  | c :: cs =>
    if isBlank c then tokens (offset + 1) cs
    else
      let piece := cut c cs
      let stop := offset + utf8Length piece.text
      match piece.reading with
      | .error flaw => .error ⟨⟨offset, stop⟩, flaw.cause piece.text⟩
      | .ok lexeme => (tokens stop piece.rest).map (⟨lexeme, ⟨offset, stop⟩⟩ :: ·)
termination_by cs => cs.length
decreasing_by
  · simp
  · exact cut_rest_length_lt c cs

theorem tokens_of_blank {c : Char} (h : isBlank c = true) (offset : Nat) (cs : List Char) :
    tokens offset (c :: cs) = tokens (offset + 1) cs := by
  rw [tokens, if_pos h]

theorem tokens_of_flaw {c : Char} {cs : List Char} {flaw : Flaw} (hc : ¬isBlank c = true)
    (h : (cut c cs).reading = .error flaw) (offset : Nat) : tokens offset (c :: cs) =
      .error ⟨⟨offset, offset + utf8Length (cut c cs).text⟩, flaw.cause (cut c cs).text⟩ := by
  rw [tokens, if_neg hc]
  simp only [h]

theorem tokens_of_lexeme {c : Char} {cs : List Char} {l : Lexeme} (hc : ¬isBlank c = true)
    (h : (cut c cs).reading = .ok l) (offset : Nat) : tokens offset (c :: cs) =
      (tokens (offset + utf8Length (cut c cs).text) (cut c cs).rest).map
        (⟨l, ⟨offset, offset + utf8Length (cut c cs).text⟩⟩ :: ·) := by
  rw [tokens, if_neg hc]
  simp only [h]

end Scan

/-- The tokens of a source text, the last of them its end. -/
def tokenize (source : String) : Except SyntaxError (List Token) :=
  Scan.tokens 0 source.toList

end SampleStream
