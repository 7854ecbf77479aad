import SampleStream.Cursor
import SampleStream.Ty

/-!
# Reading types

Types are read by climbing the table of levels: a phrase takes operators as long as they are at or above
its minimum and the phrase so far may be their left operand. Each operand is one level of nesting deeper,
and the levels left bound the recursion.
-/

namespace SampleStream.Ty

def Operator.ofLexeme? : Lexeme → Option Operator
  | .symbol .arrow => some .function
  | .symbol .plus => some .sum
  | .symbol .star => some .product
  | _ => none

/-- A type that no operator opens, with its level. `inner` reads what is nested in it. -/
def readHead (inner : Nat → Reader Ty) : Reader (Ty × Nat) := fun c =>
  match c.next with
  | .symbol .tilde => do
    let (t, c) ← inner streamLevel c.skip
    return ((.stream t, streamLevel), c)
  | .symbol .leftParen => do
    let (t, c) ← inner lowest c.skip
    let c ← c.symbol .rightParen
    return ((t, atomLevel), c)
  | .name word =>
    match BaseTy.ofKeyword? word with
    | some b => .ok ((.base b, atomLevel), c.skip)
    | none => .error (c.expected ["a type"])
  | _ => .error (c.expected ["a type"])

/-- Extends a phrase by the operators that follow it, at most one for each of `fuel`. -/
def climb (inner : Nat → Reader Ty) (min : Nat) : Nat → Ty × Nat → Reader Ty
  | 0, (lhs, _), c => .ok (lhs, c)
  | fuel + 1, (lhs, level), c =>
    match Operator.ofLexeme? c.next with
    | none => .ok (lhs, c)
    | some op =>
      if op.fixity.level < min ∨ level < op.fixity.leftMin then .ok (lhs, c)
      else do
        let (rhs, c) ← inner op.fixity.rightMin c.skip
        climb inner min fuel (op.apply lhs rhs, op.fixity.level) c

/-- Reads the longest type whose operators are at or above `min`, with `room` levels of nesting left. A
phrase cannot have more operators than there are tokens. -/
def read : (room : Nat) → (min : Nat) → Reader Ty
  | 0, _, c => .error c.tooDeep
  | room + 1, min, c => do
    let (head, c) ← readHead (read room) c
    climb (read room) min c.rest.length head c

/-- Reads a token list as one type, with `room` levels of nesting. -/
def ofTokens (room : Nat) (tokens : List Token) : Except SyntaxError Ty := do
  Cursor.closed (← read room lowest (.start tokens))

/-- Reads a source text as one type. -/
def parse (source : String) : Except SyntaxError Ty := do
  ofTokens maxNesting (← tokenize source)

end SampleStream.Ty
