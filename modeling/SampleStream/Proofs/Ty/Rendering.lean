import SampleStream.Proofs.Parentheses
import SampleStream.Ty.Printer

/-!
# Renderings of types

The ways of writing a type as lexemes that respect the table of levels: every part gives its own lexemes
around those of its operands, and any part may stand in any number of parentheses. An operand whose level
is below the minimum of its place stands in at least one pair.
-/

namespace SampleStream.Ty

/-- `t.Rendering level depth ls`: the lexemes `ls` are a way to write `t`. The level is that of the form
that is seen from outside, so that of parentheses if there are any, and `depth` counts the levels of
nesting inside: a left operand has none of its own, whatever else is read by itself has one. -/
inductive Rendering : Ty → Nat → Nat → List Lexeme → Prop
  | base (b : BaseTy) : Rendering (.base b) atomLevel 0 [.name b.keyword]
  | stream {t : Ty} {level depth : Nat} {ls : List Lexeme} (inner : Rendering t level depth ls)
      (hmin : streamLevel ≤ level) :
      Rendering (.stream t) streamLevel (depth + 1) (.symbol .tilde :: ls)
  | operation {a b : Ty} {aLevel aDepth bLevel bDepth : Nat} {ls ms : List Lexeme} (op : Operator)
      (left : Rendering a aLevel aDepth ls) (hleft : op.fixity.leftMin ≤ aLevel)
      (right : Rendering b bLevel bDepth ms) (hright : op.fixity.rightMin ≤ bLevel) :
      Rendering (op.apply a b) op.fixity.level (max aDepth (bDepth + 1))
        (ls ++ .symbol op.symbol :: ms)
  | grouped {t : Ty} {level depth : Nat} {ls : List Lexeme} (inner : Rendering t level depth ls) :
      Rendering t atomLevel (depth + 1) (.symbol .leftParen :: ls ++ [.symbol .rightParen])

/-- The levels of nesting inside the printed form. -/
def depth : Ty → Nat
  | .base _ => 0
  | .stream t => nested (t.level < streamLevel) t.depth + 1
  | .product a b => operands .product a.level a.depth b.level b.depth
  | .sum a b => operands .sum a.level a.depth b.level b.depth
  | .function a b => operands .function a.level a.depth b.level b.depth
where
  /-- The left operand costs its parentheses at most, the right one is a level deeper. -/
  operands (op : Operator) (leftLevel leftDepth rightLevel rightDepth : Nat) : Nat :=
    max (nested (leftLevel < op.fixity.leftMin) leftDepth)
      (nested (rightLevel < op.fixity.rightMin) rightDepth + 1)

/-- The levels of nesting of the printed form, the outermost included. -/
def nesting (t : Ty) : Nat := t.depth + 1

theorem leftMin_le_atomLevel (op : Operator) : op.fixity.leftMin ≤ atomLevel := by
  cases op <;> decide

theorem rightMin_le_atomLevel (op : Operator) : op.fixity.rightMin ≤ atomLevel := by
  cases op <;> decide

-- An operator keeps its left operand at least as tight as itself.
theorem level_le_leftMin (op : Operator) : op.fixity.level ≤ op.fixity.leftMin := by
  cases op <;> decide

theorem level_le_rightMin (op : Operator) : op.fixity.level ≤ op.fixity.rightMin := by
  cases op <;> decide

-- An operand, grouped exactly if its level asks for it, reaches the minimum of its place.
theorem Rendering.operand {t : Ty} {ls : Phrase} (h : Rendering t t.level t.depth ls.lexemes)
    {min : Nat} (hmin : min ≤ atomLevel) :
    ∃ level, min ≤ level ∧ Rendering t level (nested (t.level < min) t.depth)
      (Phrase.grouped (t.level < min) ls).lexemes := by
  by_cases hlt : t.level < min
  · refine ⟨atomLevel, hmin, ?_⟩
    simpa [nested, Phrase.grouped, Phrase.lexemes, Phrase.symbol, hlt] using h.grouped
  · refine ⟨t.level, Nat.le_of_not_lt hlt, ?_⟩
    simpa [nested, Phrase.grouped, hlt] using h

theorem Rendering.joined (op : Operator) {a b : Ty} {ls ms : Phrase}
    (ha : Rendering a a.level a.depth ls.lexemes) (hb : Rendering b b.level b.depth ms.lexemes) :
    Rendering (op.apply a b) op.fixity.level (depth.operands op a.level a.depth b.level b.depth)
      (phrase.joined op a.level ls b.level ms).lexemes := by
  obtain ⟨aLevel, haMin, ha'⟩ := ha.operand (leftMin_le_atomLevel op)
  obtain ⟨bLevel, hbMin, hb'⟩ := hb.operand (rightMin_le_atomLevel op)
  have h := Rendering.operation op ha' haMin hb' hbMin
  simpa [depth.operands, phrase.joined, Phrase.lexemes, Phrase.symbol] using h

-- The printed form is a rendering, with no level of nesting more than `depth` says.
theorem rendering_phrase (t : Ty) : Rendering t t.level t.depth t.phrase.lexemes := by
  induction t with
  | base b => exact .base b
  | stream t ih =>
    obtain ⟨level, hmin, h⟩ := ih.operand (show streamLevel ≤ atomLevel by decide)
    exact .stream h hmin
  | product a b iha ihb => exact .joined .product iha ihb
  | sum a b iha ihb => exact .joined .sum iha ihb
  | function a b iha ihb => exact .joined .function iha ihb

theorem bare_lexemes_operation (op : Operator) (a b : Ty) :
    bare (op.apply a b).phrase.lexemes =
      bare a.phrase.lexemes ++ .symbol op.symbol :: bare b.phrase.lexemes := by
  cases op <;> simp [Operator.apply, Operator.symbol, phrase, phrase.joined, Phrase.symbol]

-- Parentheses apart, a type is written in one way only.
theorem Rendering.bare_eq {t : Ty} {level depth : Nat} {ls : List Lexeme}
    (h : Rendering t level depth ls) : bare ls = bare t.phrase.lexemes := by
  induction h with
  | base b => rfl
  | stream inner hmin ih => simp [phrase, Phrase.symbol, ih]
  | operation op left hleft right hright iha ihb =>
    rw [bare_lexemes_operation, bare_append, iha, ← ihb]
    cases op <;> simp [Operator.symbol]
  | grouped inner ih => simp [ih]

-- The end of the text is no part of a rendering.
theorem Rendering.done_not_mem {t : Ty} {level depth : Nat} {ls : List Lexeme}
    (h : Rendering t level depth ls) : Lexeme.done ∉ ls := by
  induction h with
  | base b => simp
  | stream inner hmin ih => simp [ih]
  | operation op left hleft right hright iha ihb => simp [iha, ihb]
  | grouped inner ih => simp [ih]

end SampleStream.Ty
