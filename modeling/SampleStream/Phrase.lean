import SampleStream.Token

/-!
# Phrases

What a printer writes: lexemes in order, with single blanks where the layout has them. The characters of
a phrase are what stands on the page, its lexemes are what a reader should get back.
-/

namespace SampleStream

inductive Phrase.Part
  | lexeme (l : Lexeme)
  | blank
deriving DecidableEq, Repr

abbrev Phrase := List Phrase.Part

namespace Phrase

def Part.chars : Part → List Char
  | .lexeme l => l.written
  | .blank => [' ']

def chars (p : Phrase) : List Char :=
  p.flatMap Part.chars

def text (p : Phrase) : String :=
  String.ofList p.chars

def lexemes (p : Phrase) : List Lexeme :=
  p.filterMap fun
    | .lexeme l => some l
    | .blank => none

def name (text : String) : Part := .lexeme (.name text)

def keyword (k : Keyword) : Part := .lexeme (.keyword k)

def symbol (s : Symbol) : Part := .lexeme (.symbol s)

/-- The phrase in parentheses if it needs them. -/
def grouped (needed : Bool) (p : Phrase) : Phrase :=
  if needed then symbol .leftParen :: p ++ [symbol .rightParen] else p

theorem lexemes_append (p q : Phrase) : lexemes (p ++ q) = lexemes p ++ lexemes q := by
  simp [lexemes]

theorem chars_append (p q : Phrase) : chars (p ++ q) = chars p ++ chars q := by
  simp [chars]

end Phrase

end SampleStream
