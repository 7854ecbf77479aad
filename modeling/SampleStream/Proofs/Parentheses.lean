import SampleStream.Phrase

/-!
# Parentheses

What parentheses add to a way of writing: a level of nesting and two lexemes. `bare` takes the lexemes away
again.
-/

namespace SampleStream

/-- One level of nesting more if parentheses are needed. -/
def nested (needed : Bool) (depth : Nat) : Nat :=
  if needed then depth + 1 else depth

def Lexeme.isParen (l : Lexeme) : Bool :=
  l == .symbol .leftParen || l == .symbol .rightParen

@[simp] theorem Lexeme.isParen_name (x : String) : (Lexeme.name x).isParen = false := by
  simp [Lexeme.isParen]

@[simp] theorem Lexeme.isParen_index (n : UInt64) : (Lexeme.index n).isParen = false := by
  simp [Lexeme.isParen]

@[simp] theorem Lexeme.isParen_sample (s : Sample) : (Lexeme.sample s).isParen = false := by
  simp [Lexeme.isParen]

@[simp] theorem Lexeme.isParen_keyword (k : Keyword) : (Lexeme.keyword k).isParen = false := by
  simp [Lexeme.isParen]

@[simp] theorem Lexeme.isParen_symbol (s : Symbol) :
    (Lexeme.symbol s).isParen = (s == .leftParen || s == .rightParen) := by
  cases s <;> rfl

/-- The lexemes without any parentheses. -/
def bare (ls : List Lexeme) : List Lexeme :=
  ls.filter fun l => !l.isParen

@[simp] theorem bare_nil : bare [] = [] := rfl

@[simp] theorem bare_append (ls ms : List Lexeme) : bare (ls ++ ms) = bare ls ++ bare ms :=
  List.filter_append ls ms

@[simp] theorem bare_cons {l : Lexeme} (h : l.isParen = false) (ls : List Lexeme) :
    bare (l :: ls) = l :: bare ls := by
  simp [bare, h]

@[simp] theorem bare_leftParen (ls : List Lexeme) : bare (.symbol .leftParen :: ls) = bare ls := rfl

@[simp] theorem bare_rightParen (ls : List Lexeme) : bare (.symbol .rightParen :: ls) = bare ls := rfl

namespace Phrase

@[simp] theorem lexemes_nil : lexemes [] = [] := rfl

@[simp] theorem lexemes_lexeme (l : Lexeme) (p : Phrase) :
    lexemes (.lexeme l :: p) = l :: lexemes p := rfl

@[simp] theorem lexemes_blank (p : Phrase) : lexemes (.blank :: p) = lexemes p := rfl

attribute [simp] lexemes_append

@[simp] theorem bare_lexemes_grouped (needed : Bool) (p : Phrase) :
    bare (grouped needed p).lexemes = bare p.lexemes := by
  cases needed
  · rfl
  · simp [grouped, symbol]

end Phrase

end SampleStream
