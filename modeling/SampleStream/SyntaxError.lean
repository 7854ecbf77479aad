import SampleStream.Token

/-!
# Syntax errors

Why a source text was refused and where. `render` shows the line with the place underlined; a span that
the text cannot have (it ends before it starts, or starts inside a character) has no such picture.
-/

namespace SampleStream

/-- The bytes that a run of characters takes. -/
def utf8Length : List Char → Nat
  | [] => 0
  | c :: cs => c.utf8Size + utf8Length cs

/-- The characters of the first `n` bytes, all of them when there are fewer; none when the cut falls
inside a character. -/
def takeBytes? : Nat → List Char → Option (List Char)
  | 0, _ => some []
  | _ + 1, [] => some []
  | n + 1, c :: cs =>
    if c.utf8Size ≤ n + 1 then (takeBytes? (n + 1 - c.utf8Size) cs).map (c :: ·) else none

namespace Span

/-- The line and the column of the span's start, both counted from one; columns count bytes. -/
def lineColumn? (s : Span) (source : List Char) : Option (Nat × Nat) := do
  let before ← takeBytes? s.start source
  let column := utf8Length (before.reverse.takeWhile (· != '\n'))
  some (before.count '\n' + 1, column + 1)

end Span

/-- The `n`th line of a text, counted from zero, without its line break. A carriage return in front of
the line feed belongs to the break. -/
def lineAt : Nat → List Char → List Char
  | 0, cs =>
    let (line, rest) := cs.span (· != '\n')
    if rest.isEmpty then line
    else if line.getLast? = some '\r' then line.dropLast else line
  | n + 1, cs => lineAt n ((cs.dropWhile (· != '\n')).drop 1)

namespace SyntaxError

inductive Cause
  | invalidToken (text : String)
  | unexpected (expected : List String) (found : String)
  | unexpectedEnd (expected : List String)
  | integerOutOfRange (text : String)
  | sampleOutOfRange (text : String)
  | nestingTooDeep (limit : Nat)
deriving DecidableEq, Repr

/-- Alternatives joined by commas, the last by `or`. -/
def alternatives : List String → String
  | [] => "nothing"
  | [one] => one
  | many => ", ".intercalate many.dropLast ++ " or " ++ many.getLastD ""

namespace Cause

def message : Cause → String
  | .invalidToken text => "invalid token `" ++ text ++ "`"
  | .unexpected expected found => "expected " ++ alternatives expected ++ ", found " ++ found
  | .unexpectedEnd expected => "expected " ++ alternatives expected ++ ", found end of input"
  | .integerOutOfRange text => "integer literal `" ++ text ++ "` does not fit in 64 bits"
  | .sampleOutOfRange text => "sample literal `" ++ text ++ "` is out of range"
  | .nestingTooDeep limit => "expression nested deeper than " ++ toString limit ++ " levels"

/-- What would have been accepted, where the error is about that. -/
def expected? : Cause → Option (List String)
  | .unexpected expected _ => some expected
  | .unexpectedEnd expected => some expected
  | _ => none

end Cause

end SyntaxError

structure SyntaxError where
  span : Span
  cause : SyntaxError.Cause
deriving DecidableEq, Repr

namespace SyntaxError

def message (e : SyntaxError) : String :=
  e.cause.message ++ " at " ++ e.span.text

/-- The message, the place, the line, and carets under the span, at least one. -/
def render? (e : SyntaxError) (source : String) : Option String := do
  let (line, column) ← e.span.lineColumn? source.toList
  let length ← e.span.length?
  let shown := String.ofList (lineAt (line - 1) source.toList)
  let underline := String.ofList
    (List.replicate (column - 1) ' ' ++ List.replicate (max 1 length) '^')
  some ("error: " ++ e.cause.message
    ++ "\n --> " ++ toString line ++ ":" ++ toString column
    ++ "\n  | " ++ shown
    ++ "\n  | " ++ underline)

end SyntaxError

end SampleStream
