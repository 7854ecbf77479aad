import SampleStream.Expr.Printer
import SampleStream.Proofs.Ty.Rendering

/-!
# Renderings of expressions

The ways of writing an expression as lexemes that respect the table of levels. As for types, every part
gives its own lexemes around those of its operands and may stand in any number of parentheses. There are
two notions: a strict rendering groups every operand whose level is below the minimum of its place, as the
printer does, and a lax one lets binders stand open where nothing can follow them but what is theirs.
-/

namespace SampleStream.Expr

/-- The forms of one operand. -/
inductive Unary
  | force
  | inl
  | inr

namespace Unary

def lexeme : Unary → Lexeme
  | .force => .symbol .bang
  | .inl => .keyword .inl
  | .inr => .keyword .inr

def apply : Unary → Expr → Expr
  | .force => .force
  | .inl => .inl
  | .inr => .inr

end Unary

/-- The forms that bind one name in a body and bind nothing else. -/
inductive Binder
  | lambda
  | fix

namespace Binder

def symbol : Binder → Symbol
  | .lambda => .backslash
  | .fix => .ampersand

def apply : Binder → String → Expr → Expr
  | .lambda => .lambda
  | .fix => .fix

end Binder

/-- Whether an operand of some level may stand where `min` is asked for. The lowest level is that of
binders alone, which a lax rendering leaves open. -/
def Admits (lax : Prop) (min level : Nat) : Prop :=
  min ≤ level ∨ lax ∧ level = lowest

/-- `Rendering lax e level depth ls`: the lexemes `ls` are a way to write `e`. The level is that of the
form that is seen from outside, so that of parentheses if there are any, and `depth` counts the levels of
nesting inside: a left operand has none of its own, whatever else is read by itself has one. -/
inductive Rendering (lax : Prop) : Expr → Nat → Nat → List Lexeme → Prop
  | identifier (x : String) : Rendering lax (.identifier x) atomLevel 0 [.name x]
  | index (n : UInt64) : Rendering lax (.index n) atomLevel 0 [.index n]
  | sample (s : Sample) : Rendering lax (.sample s) atomLevel 0 [.sample s]
  | apply {f x : Expr} {fLevel fDepth xLevel xDepth : Nat} {ls ms : List Lexeme}
      (fn : Rendering lax f fLevel fDepth ls) (hfn : Operator.apply.fixity.leftMin ≤ fLevel)
      (arg : Rendering lax x xLevel xDepth ms)
      (harg : Admits lax Operator.apply.fixity.rightMin xLevel) :
      Rendering lax (.apply f x) Operator.apply.fixity.level (max fDepth (xDepth + 1)) (ls ++ ms)
  | cons {h t : Expr} {hLevel hDepth tLevel tDepth : Nat} {ls ms : List Lexeme}
      (head : Rendering lax h hLevel hDepth ls) (hhead : Operator.cons.fixity.leftMin ≤ hLevel)
      (tail : Rendering lax t tLevel tDepth ms)
      (htail : Admits lax Operator.cons.fixity.rightMin tLevel) :
      Rendering lax (.cons h t) Operator.cons.fixity.level (max hDepth (tDepth + 1))
        (ls ++ .symbol .colonColon :: ms)
  | annotate {e : Expr} {t : Ty} {eLevel eDepth tLevel tDepth : Nat} {ls ms : List Lexeme}
      (inner : Rendering lax e eLevel eDepth ls)
      (hinner : Operator.annotate.fixity.leftMin ≤ eLevel) (ty : t.Rendering tLevel tDepth ms) :
      Rendering lax (.annotate e t) Operator.annotate.fixity.level (max eDepth (tDepth + 1))
        (ls ++ .symbol .colon :: ms)
  | unary {e : Expr} {level depth : Nat} {ls : List Lexeme} (form : Unary)
      (inner : Rendering lax e level depth ls) (hinner : Admits lax prefixLevel level) :
      Rendering lax (form.apply e) prefixLevel (depth + 1) (form.lexeme :: ls)
  | binder {body : Expr} {level depth : Nat} {ls : List Lexeme} (form : Binder) (x : String)
      (inner : Rendering lax body level depth ls) :
      Rendering lax (form.apply x body) lowest (depth + 1)
        (.symbol form.symbol :: .name x :: .symbol .dot :: ls)
  | letIn {v body : Expr} {vLevel vDepth bLevel bDepth : Nat} {ls ms : List Lexeme} (x : String)
      (value : Rendering lax v vLevel vDepth ls) (inner : Rendering lax body bLevel bDepth ms) :
      Rendering lax (.letIn x v body) lowest (max vDepth bDepth + 1)
        (.keyword .letWord :: .name x :: .symbol .equals :: ls ++ .keyword .inWord :: ms)
  | unpair {s body : Expr} {sLevel sDepth bLevel bDepth : Nat} {ls ms : List Lexeme} (x y : String)
      (scrutinee : Rendering lax s sLevel sDepth ls) (inner : Rendering lax body bLevel bDepth ms) :
      Rendering lax (.unpair x y s body) lowest (max sDepth bDepth + 1)
        (.keyword .letWord :: .symbol .leftParen :: .name x :: .symbol .comma :: .name y
          :: .symbol .rightParen :: .symbol .equals :: ls ++ .keyword .inWord :: ms)
  | pair {a b : Expr} {aLevel aDepth bLevel bDepth : Nat} {ls ms : List Lexeme}
      (first : Rendering lax a aLevel aDepth ls) (second : Rendering lax b bLevel bDepth ms) :
      Rendering lax (.pair a b) atomLevel (max aDepth bDepth + 1)
        (.symbol .leftParen :: ls ++ .symbol .comma :: ms ++ [.symbol .rightParen])
  | caseOf {s l r : Expr} {sLevel sDepth lLevel lDepth rLevel rDepth : Nat} {ks ls ms : List Lexeme}
      (x y : String) (scrutinee : Rendering lax s sLevel sDepth ks)
      (left : Rendering lax l lLevel lDepth ls) (right : Rendering lax r rLevel rDepth ms) :
      Rendering lax (.caseOf s x l y r) atomLevel (max sDepth (max lDepth rDepth) + 1)
        (.keyword .caseWord :: ks ++ .symbol .leftBrace :: .keyword .inl :: .name x
          :: .symbol .fatArrow :: ls ++ .symbol .pipe :: .keyword .inr :: .name y
          :: .symbol .fatArrow :: ms ++ [.symbol .rightBrace])
  | grouped {e : Expr} {level depth : Nat} {ls : List Lexeme}
      (inner : Rendering lax e level depth ls) :
      Rendering lax e atomLevel (depth + 1) (.symbol .leftParen :: ls ++ [.symbol .rightParen])

/-- The levels of nesting inside the printed form. -/
def depth : Expr → Nat
  | .identifier _ | .index _ | .sample _ => 0
  | .apply f x => operands .apply f.level f.depth (nested (x.level < Operator.apply.fixity.rightMin) x.depth)
  | .cons h t => operands .cons h.level h.depth (nested (t.level < Operator.cons.fixity.rightMin) t.depth)
  | .annotate e t => operands .annotate e.level e.depth t.depth
  | .force e | .inl e | .inr e => nested (e.level < prefixLevel) e.depth + 1
  | .lambda _ body | .fix _ body => body.depth + 1
  | .letIn _ v body => max v.depth body.depth + 1
  | .unpair _ _ s body => max s.depth body.depth + 1
  | .pair a b => max a.depth b.depth + 1
  | .caseOf s _ l _ r => max s.depth (max l.depth r.depth) + 1
where
  /-- The left operand costs its parentheses at most, the right one is a level deeper. -/
  operands (op : Operator) (leftLevel leftDepth rightDepth : Nat) : Nat :=
    max (nested (leftLevel < op.fixity.leftMin) leftDepth) (rightDepth + 1)

/-- The levels of nesting of the printed form, the outermost included. -/
def nesting (e : Expr) : Nat := e.depth + 1

theorem leftMin_le_atomLevel (op : Operator) : op.fixity.leftMin ≤ atomLevel := by
  cases op <;> decide

theorem rightMin_le_atomLevel (op : Operator) : op.fixity.rightMin ≤ atomLevel := by
  cases op <;> decide

-- An operator keeps its left operand at least as tight as itself.
theorem level_le_leftMin (op : Operator) : op.fixity.level ≤ op.fixity.leftMin := by
  cases op <;> decide

theorem level_le_rightMin (op : Operator) : op.fixity.level ≤ op.fixity.rightMin := by
  cases op <;> decide

-- Binders are below every place of a left operand.
theorem lowest_lt_leftMin (op : Operator) : lowest < op.fixity.leftMin := by
  cases op <;> decide

-- An operand, grouped exactly if its level asks for it, reaches the minimum of its place.
theorem Rendering.operand {lax : Prop} {e : Expr} {p : Phrase}
    (h : Rendering lax e e.level e.depth p.lexemes) {min : Nat} (hmin : min ≤ atomLevel) :
    ∃ level, min ≤ level ∧ Rendering lax e level (nested (e.level < min) e.depth)
      (Phrase.grouped (e.level < min) p).lexemes := by
  by_cases hlt : e.level < min
  · refine ⟨atomLevel, hmin, ?_⟩
    simpa [nested, Phrase.grouped, Phrase.symbol, hlt] using h.grouped
  · refine ⟨e.level, Nat.le_of_not_lt hlt, ?_⟩
    simpa [nested, Phrase.grouped, hlt] using h

-- The printed form is a rendering of either kind, with no level of nesting more than `depth` says.
theorem rendering_phrase (lax : Prop) (e : Expr) : Rendering lax e e.level e.depth e.phrase.lexemes := by
  induction e with
  | identifier x => exact .identifier x
  | index n => exact .index n
  | sample s => exact .sample s
  | apply f x ihf ihx =>
    -- operands come grouped or not, and `operand` covers both
    obtain ⟨fLevel, hfMin, hf⟩ := ihf.operand (leftMin_le_atomLevel .apply)
    obtain ⟨xLevel, hxMin, hx⟩ := ihx.operand (rightMin_le_atomLevel .apply)
    simpa [phrase, level, depth, depth.operands] using Rendering.apply hf hfMin hx (.inl hxMin)
  | cons h t ihh iht =>
    obtain ⟨hLevel, hhMin, hh⟩ := ihh.operand (leftMin_le_atomLevel .cons)
    obtain ⟨tLevel, htMin, ht⟩ := iht.operand (rightMin_le_atomLevel .cons)
    simpa [phrase, level, depth, depth.operands, Phrase.symbol] using Rendering.cons hh hhMin ht (.inl htMin)
  | annotate e t ih =>
    obtain ⟨eLevel, heMin, he⟩ := ih.operand (leftMin_le_atomLevel .annotate)
    simpa [phrase, level, depth, depth.operands, Phrase.symbol] using
      Rendering.annotate he heMin t.rendering_phrase
  | force e ih =>
    obtain ⟨level, hmin, h⟩ := ih.operand (show prefixLevel ≤ atomLevel by decide)
    exact .unary .force h (.inl hmin)
  | inl e ih =>
    obtain ⟨level, hmin, h⟩ := ih.operand (show prefixLevel ≤ atomLevel by decide)
    exact .unary .inl h (.inl hmin)
  | inr e ih =>
    obtain ⟨level, hmin, h⟩ := ih.operand (show prefixLevel ≤ atomLevel by decide)
    exact .unary .inr h (.inl hmin)
  | lambda x body ih => exact .binder .lambda x ih
  | fix x body ih => exact .binder .fix x ih
  | letIn x v body ihv ihb =>
    simpa [phrase, level, depth, Phrase.symbol, Phrase.name, Phrase.keyword] using
      Rendering.letIn x ihv ihb
  | unpair x y s body ihs ihb =>
    simpa [phrase, level, depth, Phrase.symbol, Phrase.name, Phrase.keyword] using
      Rendering.unpair x y ihs ihb
  | pair a b iha ihb =>
    simpa [phrase, level, depth, Phrase.symbol] using Rendering.pair iha ihb
  | caseOf s x l y r ihs ihl ihr =>
    simpa [phrase, level, depth, Phrase.symbol, Phrase.name, Phrase.keyword] using
      Rendering.caseOf x y ihs ihl ihr

-- Parentheses apart, an expression is written in one way only.
theorem Rendering.bare_eq {lax : Prop} {e : Expr} {level depth : Nat} {ls : List Lexeme}
    (h : Rendering lax e level depth ls) : bare ls = bare e.phrase.lexemes := by
  induction h with
  | identifier x => rfl
  | index n => rfl
  | sample s => rfl
  | apply fn hfn arg harg ihf ihx => simp [phrase, ihf, ihx]
  | cons head hhead tail htail ihh iht => simp [phrase, Phrase.symbol, ihh, iht]
  | annotate inner hinner ty ih => simp [phrase, Phrase.symbol, ih, ty.bare_eq]
  | unary form inner hinner ih =>
    cases form <;> simp [Unary.lexeme, Unary.apply, phrase, Phrase.symbol, Phrase.keyword, ih]
  | binder form x inner ih =>
    cases form <;> simp [Binder.symbol, Binder.apply, phrase, Phrase.symbol, Phrase.name, ih]
  | letIn x value inner ihv ihb =>
    simp [phrase, Phrase.symbol, Phrase.name, Phrase.keyword, ihv, ihb]
  | unpair x y scrutinee inner ihs ihb =>
    simp [phrase, Phrase.symbol, Phrase.name, Phrase.keyword, ihs, ihb]
  | pair first second iha ihb => simp [phrase, Phrase.symbol, iha, ihb]
  | caseOf x y scrutinee left right ihs ihl ihr =>
    simp [phrase, Phrase.symbol, Phrase.name, Phrase.keyword, ihs, ihl, ihr]
  | grouped inner ih => simp [ih]

-- The end of the text is no part of a rendering.
theorem Rendering.done_not_mem {lax : Prop} {e : Expr} {level depth : Nat} {ls : List Lexeme}
    (h : Rendering lax e level depth ls) : Lexeme.done ∉ ls := by
  induction h with
  | identifier x => simp
  | index n => simp
  | sample s => simp
  | apply fn hfn arg harg ihf ihx => simp [ihf, ihx]
  | cons head hhead tail htail ihh iht => simp [ihh, iht]
  | annotate inner hinner ty ih => simp [ih, ty.done_not_mem]
  | unary form inner hinner ih => cases form <;> simp [Unary.lexeme, ih]
  | binder form x inner ih => simp [ih]
  | letIn x value inner ihv ihb => simp [ihv, ihb]
  | unpair x y scrutinee inner ihs ihb => simp [ihs, ihb]
  | pair first second iha ihb => simp [iha, ihb]
  | caseOf x y scrutinee left right ihs ihl ihr => simp [ihs, ihl, ihr]
  | grouped inner ih => simp [ih]

end SampleStream.Expr
