import SampleStream.Sample.Text
import SampleStream.Text.Numeral

/-!
# Tokens

The words, numbers and symbols of the calculus, and where they stand in a source text. Offsets count the
bytes of the text's encoding.
-/

namespace SampleStream

/-- The bytes from `start` up to and without `stop`. -/
structure Span where
  start : Nat
  stop : Nat
deriving DecidableEq, Repr, Inhabited

namespace Span

def point (offset : Nat) : Span := ⟨offset, offset⟩

/-- How many bytes the span covers; none when it ends before it starts. -/
def length? (s : Span) : Option Nat :=
  if s.start ≤ s.stop then some (s.stop - s.start) else none

def isEmpty (s : Span) : Bool :=
  s.start == s.stop

def text (s : Span) : String :=
  toString s.start ++ ".." ++ toString s.stop

end Span

inductive Keyword
  | letWord
  | inWord
  | caseWord
  | inl
  | inr
deriving DecidableEq, Repr

namespace Keyword

def text : Keyword → String
  | .letWord => "let"
  | .inWord => "in"
  | .caseWord => "case"
  | .inl => "inl"
  | .inr => "inr"

def ofText? (word : String) : Option Keyword :=
  if word = "let" then some .letWord
  else if word = "in" then some .inWord
  else if word = "case" then some .caseWord
  else if word = "inl" then some .inl
  else if word = "inr" then some .inr
  else none

theorem ofText?_text (k : Keyword) : ofText? k.text = some k := by
  cases k <;> decide

end Keyword

inductive Symbol
  | backslash
  | ampersand
  | bang
  | colonColon
  | colon
  | comma
  | dot
  | equals
  | leftParen
  | rightParen
  | leftBrace
  | rightBrace
  | pipe
  | fatArrow
  | star
  | plus
  | arrow
  | tilde
deriving DecidableEq, Repr

def Symbol.text : Symbol → String
  | .backslash => "\\"
  | .ampersand => "&"
  | .bang => "!"
  | .colonColon => "::"
  | .colon => ":"
  | .comma => ","
  | .dot => "."
  | .equals => "="
  | .leftParen => "("
  | .rightParen => ")"
  | .leftBrace => "\x7b"
  | .rightBrace => "\x7d"
  | .pipe => "|"
  | .fatArrow => "=>"
  | .star => "*"
  | .plus => "+"
  | .arrow => "->"
  | .tilde => "~"

/-- What a token is, apart from its place. -/
inductive Lexeme
  | name (text : String)
  | index (value : UInt64)
  | sample (value : Sample)
  | keyword (word : Keyword)
  | symbol (s : Symbol)
  /-- The end of the text, which closes every token list. -/
  | done
deriving DecidableEq, Repr, Inhabited

namespace Lexeme

/-- Whether an expression may begin here; juxtaposition takes arguments as long as this holds. -/
def startsExpr : Lexeme → Bool
  | .name _ | .index _ | .sample _ => true
  | .keyword .inl | .keyword .inr | .keyword .letWord | .keyword .caseWord => true
  | .symbol .leftParen | .symbol .bang | .symbol .backslash | .symbol .ampersand => true
  | _ => false

/-- The lexeme between backticks, for messages, with its class where it has one. -/
def describe : Lexeme → String
  | .name text => "identifier `" ++ text ++ "`"
  | .index value => "integer `" ++ toString value.toNat ++ "`"
  | .sample value => "sample `" ++ String.ofList value.shown ++ "`"
  | .keyword word => "`" ++ word.text ++ "`"
  | .symbol s => "`" ++ s.text ++ "`"
  | .done => "end of input"

/-- The lexeme by itself, its sample shown rather than written. -/
def text : Lexeme → String
  | .name text => text
  | .index value => toString value.toNat
  | .sample value => String.ofList value.shown
  | .keyword word => word.text
  | .symbol s => s.text
  | .done => "<eof>"

/-- The characters that a source text holds for the lexeme. -/
def written : Lexeme → List Char
  | .name text => text.toList
  | .index value => Numeral.digits value.toNat
  | .sample value => value.literal
  | .keyword word => word.text.toList
  | .symbol s => s.text.toList
  | .done => []

end Lexeme

structure Token where
  lexeme : Lexeme
  span : Span
deriving DecidableEq, Repr, Inhabited

end SampleStream
