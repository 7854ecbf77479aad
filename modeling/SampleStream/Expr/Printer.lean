import SampleStream.Expr
import SampleStream.Ty.Printer

/-!
# Written expressions

An expression is written with parentheses exactly where the table of levels would otherwise regroup a
part. Literals of samples keep their point, so none reads back as an index.
-/

namespace SampleStream.Expr

open Phrase

/-- The phrase of an expression without parentheses around the whole. Parts that stand between fixed
lexemes take any expression and are never grouped. -/
def phrase : Expr → Phrase
  | .identifier x => [name x]
  | .index n => [.lexeme (.index n)]
  | .sample s => [.lexeme (.sample s)]
  | .apply f x =>
    grouped (f.level < Operator.apply.fixity.leftMin) f.phrase
      ++ .blank :: grouped (x.level < Operator.apply.fixity.rightMin) x.phrase
  | .lambda x body => symbol .backslash :: name x :: symbol .dot :: .blank :: body.phrase
  | .fix x body => symbol .ampersand :: name x :: symbol .dot :: .blank :: body.phrase
  | .force e => symbol .bang :: grouped (e.level < prefixLevel) e.phrase
  | .inl e => keyword .inl :: .blank :: grouped (e.level < prefixLevel) e.phrase
  | .inr e => keyword .inr :: .blank :: grouped (e.level < prefixLevel) e.phrase
  | .cons h t =>
    grouped (h.level < Operator.cons.fixity.leftMin) h.phrase
      ++ .blank :: symbol .colonColon :: .blank
      :: grouped (t.level < Operator.cons.fixity.rightMin) t.phrase
  | .letIn x v body =>
    keyword .letWord :: .blank :: name x :: .blank :: symbol .equals :: .blank :: v.phrase
      ++ .blank :: keyword .inWord :: .blank :: body.phrase
  | .annotate e t =>
    grouped (e.level < Operator.annotate.fixity.leftMin) e.phrase
      ++ .blank :: symbol .colon :: .blank :: t.phrase
  | .pair a b =>
    symbol .leftParen :: a.phrase ++ symbol .comma :: .blank :: b.phrase ++ [symbol .rightParen]
  | .unpair x y s body =>
    keyword .letWord :: .blank :: symbol .leftParen :: name x :: symbol .comma :: .blank
      :: name y :: symbol .rightParen :: .blank :: symbol .equals :: .blank :: s.phrase
      ++ .blank :: keyword .inWord :: .blank :: body.phrase
  | .caseOf s x l y r =>
    keyword .caseWord :: .blank :: s.phrase
      ++ .blank :: symbol .leftBrace :: .blank :: keyword .inl :: .blank :: name x :: .blank
      :: symbol .fatArrow :: .blank :: l.phrase
      ++ .blank :: symbol .pipe :: .blank :: keyword .inr :: .blank :: name y :: .blank
      :: symbol .fatArrow :: .blank :: r.phrase
      ++ [.blank, symbol .rightBrace]

/-- The expression as text. -/
def text (e : Expr) : String :=
  Phrase.text e.phrase

end SampleStream.Expr
