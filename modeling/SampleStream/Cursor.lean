import SampleStream.Token.Scan

/-!
# Cursors

A place in a token list: the span of the token just read and the tokens still to come, of which the last
is the end of the text. Readers take a cursor and give a result with the cursor behind it.
-/

namespace SampleStream

structure Cursor where
  last : Option Span
  rest : List Token
deriving DecidableEq, Repr

/-- How many levels of expressions and types may be open at once. -/
def maxNesting : Nat := 100

namespace Cursor

def start (tokens : List Token) : Cursor :=
  ⟨none, tokens⟩

def peek (c : Cursor) : Token :=
  c.rest.headD ⟨.done, c.last.getD (.point 0)⟩

/-- What comes next. -/
def next (c : Cursor) : Lexeme :=
  c.peek.lexeme

/-- The cursor behind the next token. -/
def skip (c : Cursor) : Cursor :=
  match c.rest with
  | [] => c
  | t :: ts => ⟨some t.span, ts⟩

/-- The complaint that something else was expected here. -/
def expected (c : Cursor) (wanted : List String) : SyntaxError :=
  let cause := match c.next with
    | .done => .unexpectedEnd wanted
    | found => .unexpected wanted found.describe
  ⟨c.peek.span, cause⟩

/-- The complaint that one level more would be too many; it points at the token that opened it. -/
def tooDeep (c : Cursor) : SyntaxError :=
  ⟨c.last.getD c.peek.span, .nestingTooDeep maxNesting⟩

end Cursor

/-- Reads some tokens from the front. -/
abbrev Reader (α : Type) := Cursor → Except SyntaxError (α × Cursor)

namespace Cursor

/-- The cursor behind the next token, which must be `wanted`. -/
def expect (wanted : Lexeme) (c : Cursor) : Except SyntaxError Cursor :=
  if c.next = wanted then .ok c.skip else .error (c.expected [wanted.describe])

def symbol (s : Symbol) : Cursor → Except SyntaxError Cursor :=
  expect (.symbol s)

def keyword (k : Keyword) : Cursor → Except SyntaxError Cursor :=
  expect (.keyword k)

def name : Reader String := fun c =>
  match c.next with
  | .name text => .ok (text, c.skip)
  | _ => .error (c.expected ["an identifier"])

/-- The result of a reader that has read everything. -/
def closed {α : Type} (result : α × Cursor) : Except SyntaxError α :=
  match result.2.next with
  | .done => .ok result.1
  | _ => .error (result.2.expected ["end of input"])

end Cursor

end SampleStream
