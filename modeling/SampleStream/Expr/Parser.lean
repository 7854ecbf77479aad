import SampleStream.Expr
import SampleStream.Ty.Parser

/-!
# Reading expressions

Expressions are read by climbing the table of levels, as types are. Binders are open to the right: their
body takes all that follows, and they may stand without parentheses as any operand but a left one.
-/

namespace SampleStream.Expr

/-- The operator that a lexeme brings; whatever can begin an expression brings an application. -/
def Operator.ofLexeme? : Lexeme → Option Operator
  | .symbol .colon => some .annotate
  | .symbol .colonColon => some .cons
  | l => if l.startsExpr then some .apply else none

/-- The operator of an infix lexeme; an application has none. -/
def Operator.ofSymbol? : Lexeme → Option Operator
  | .symbol .colon => some .annotate
  | .symbol .colonColon => some .cons
  | _ => none

/-- The parameter, the dot and the body of a binder. -/
def readBinder (inner : Nat → Reader Expr) : Reader (String × Expr) := fun c => do
  let (x, c) ← c.name
  let c ← c.symbol .dot
  let (body, c) ← inner lowest c
  return ((x, body), c)

/-- The bound value and the body of a `let`, from its equals sign on. -/
def readBinding (inner : Nat → Reader Expr) : Reader (Expr × Expr) := fun c => do
  let c ← c.symbol .equals
  let (value, c) ← inner lowest c
  let c ← c.keyword .inWord
  let (body, c) ← inner lowest c
  return ((value, body), c)

/-- What follows the word `let`: one name, or two in parentheses. -/
def readLet (inner : Nat → Reader Expr) : Reader Expr := fun c =>
  match c.next with
  | .symbol .leftParen => do
    let (x, c) ← c.skip.name
    let c ← c.symbol .comma
    let (y, c) ← c.name
    let c ← c.symbol .rightParen
    let ((scrutinee, body), c) ← readBinding inner c
    return (.unpair x y scrutinee body, c)
  | _ => do
    let (x, c) ← c.name
    let ((value, body), c) ← readBinding inner c
    return (.letIn x value body, c)

/-- One branch of a case analysis: the injection, the name, the arrow and the body. -/
def readBranch (inner : Nat → Reader Expr) (side : Keyword) : Reader (String × Expr) := fun c => do
  let c ← c.keyword side
  let (x, c) ← c.name
  let c ← c.symbol .fatArrow
  let (body, c) ← inner lowest c
  return ((x, body), c)

/-- What follows the word `case`. -/
def readCase (inner : Nat → Reader Expr) : Reader Expr := fun c => do
  let (scrutinee, c) ← inner lowest c
  let c ← c.symbol .leftBrace
  let ((x, left), c) ← readBranch inner .inl c
  let c ← c.symbol .pipe
  let ((y, right), c) ← readBranch inner .inr c
  let c ← c.symbol .rightBrace
  return (.caseOf scrutinee x left y right, c)

/-- What follows an opening parenthesis: one expression, or a pair. -/
def readGroup (inner : Nat → Reader Expr) : Reader Expr := fun c => do
  let (first, c) ← inner lowest c
  match c.next with
  | .symbol .rightParen => return (first, c.skip)
  | .symbol .comma => do
    let (second, c) ← inner lowest c.skip
    let c ← c.symbol .rightParen
    return (.pair first second, c)
  | _ => .error (c.expected
      [(Lexeme.symbol .rightParen).describe, (Lexeme.symbol .comma).describe])

/-- An expression that no operator opens, with its level. `inner` reads what is nested in it. -/
def readHead (inner : Nat → Reader Expr) : Reader (Expr × Nat) := fun c =>
  match c.next with
  | .name x => .ok ((.identifier x, atomLevel), c.skip)
  | .index n => .ok ((.index n, atomLevel), c.skip)
  | .sample s => .ok ((.sample s, atomLevel), c.skip)
  | .symbol .bang => do
    let (e, c) ← inner prefixLevel c.skip
    return ((.force e, prefixLevel), c)
  | .keyword .inl => do
    let (e, c) ← inner prefixLevel c.skip
    return ((.inl e, prefixLevel), c)
  | .keyword .inr => do
    let (e, c) ← inner prefixLevel c.skip
    return ((.inr e, prefixLevel), c)
  | .symbol .backslash => do
    let ((x, body), c) ← readBinder inner c.skip
    return ((.lambda x body, lowest), c)
  | .symbol .ampersand => do
    let ((x, body), c) ← readBinder inner c.skip
    return ((.fix x body, lowest), c)
  | .keyword .letWord => do
    let (e, c) ← readLet inner c.skip
    return ((e, lowest), c)
  | .keyword .caseWord => do
    let (e, c) ← readCase inner c.skip
    return ((e, atomLevel), c)
  | .symbol .leftParen => do
    let (e, c) ← readGroup inner c.skip
    return ((e, atomLevel), c)
  | _ => .error (c.expected ["an expression"])

/-- The operator at the cursor with its right operand, around the left operand `lhs`. -/
def readOperation (inner : Nat → Reader Expr) (ascribed : Reader Ty) (lhs : Expr) :
    Operator → Reader Expr
  | .apply, c => do
    let (arg, c) ← inner Operator.apply.fixity.rightMin c
    return (.apply lhs arg, c)
  | .annotate, c => do
    let (t, c) ← ascribed c.skip
    return (.annotate lhs t, c)
  | .cons, c => do
    let (tail, c) ← inner Operator.cons.fixity.rightMin c.skip
    return (.cons lhs tail, c)

/-- Extends a phrase by the operators that follow it, at most one for each of `fuel`. -/
def climb (inner : Nat → Reader Expr) (ascribed : Reader Ty) (min : Nat) :
    Nat → Expr × Nat → Reader Expr
  | 0, (lhs, _), c => .ok (lhs, c)
  | fuel + 1, (lhs, level), c =>
    match Operator.ofLexeme? c.next with
    | none => .ok (lhs, c)
    | some op =>
      if op.fixity.level < min ∨ level < op.fixity.leftMin then .ok (lhs, c)
      else do
        let (e, c) ← readOperation inner ascribed lhs op c
        climb inner ascribed min fuel (e, op.fixity.level) c

/-- Reads the longest expression whose operators are at or above `min`, with `room` levels of nesting
left. A phrase cannot have more operators than there are tokens. -/
def read : (room : Nat) → (min : Nat) → Reader Expr
  | 0, _, c => .error c.tooDeep
  | room + 1, min, c => do
    let (head, c) ← readHead (read room) c
    climb (read room) (Ty.read room Ty.lowest) min c.rest.length head c

/-- Reads a token list as one expression, with `room` levels of nesting. -/
def ofTokens (room : Nat) (tokens : List Token) : Except SyntaxError Expr := do
  Cursor.closed (← read room lowest (.start tokens))

/-- Reads a source text as one expression. -/
def parse (source : String) : Except SyntaxError Expr := do
  ofTokens maxNesting (← tokenize source)

end SampleStream.Expr
