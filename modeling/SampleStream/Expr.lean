import SampleStream.Sample
import SampleStream.Ty

/-!
# Expressions

The expressions of the calculus. Trees carry no positions, so two sources that differ only in blanks and
redundant parentheses have one tree.
-/

namespace SampleStream

inductive Expr
  | identifier (name : String)
  | index (value : UInt64)
  | sample (value : Sample)
  /-- Application by juxtaposition. -/
  | apply (fn arg : Expr)
  | lambda (param : String) (body : Expr)
  /-- The guarded fixpoint: in the body the name stands for the whole one step later. -/
  | fix (param : String) (body : Expr)
  /-- Unfolds one layer of a delayed stream. -/
  | force (delayed : Expr)
  /-- A head sample in front of a tail. -/
  | cons (head tail : Expr)
  | letIn (name : String) (value body : Expr)
  | annotate (inner : Expr) (ty : Ty)
  | pair (first second : Expr)
  /-- Binds the two halves of a pair. -/
  | unpair (first second : String) (scrutinee body : Expr)
  | inl (inner : Expr)
  | inr (inner : Expr)
  /-- Tells the two injections apart. -/
  | caseOf (scrutinee : Expr) (leftName : String) (leftBody : Expr)
      (rightName : String) (rightBody : Expr)
deriving DecidableEq, Repr

namespace Expr

/-- The infix forms of expressions. -/
inductive Operator
  | annotate
  | cons
  | apply
deriving DecidableEq, Repr

/-- An annotation binds looser than a cons, and both looser than application. -/
def Operator.fixity : Operator → Fixity
  | .annotate => ⟨1, .left⟩
  | .cons => ⟨2, .right⟩
  | .apply => ⟨3, .left⟩

/-- The level of binders, which are open to the right; it takes any expression. -/
def lowest : Nat := 0

/-- The level of the one-operand forms and of their operand. -/
def prefixLevel : Nat := 4

/-- The level of names, literals, parenthesised expressions, pairs and case analyses. -/
def atomLevel : Nat := 5

/-- The level of the outermost form. -/
def level : Expr → Nat
  | .identifier _ | .index _ | .sample _ | .pair _ _ | .caseOf .. => atomLevel
  | .force _ | .inl _ | .inr _ => prefixLevel
  | .apply _ _ => Operator.apply.fixity.level
  | .cons _ _ => Operator.cons.fixity.level
  | .annotate _ _ => Operator.annotate.fixity.level
  | .lambda _ _ | .fix _ _ | .letIn .. | .unpair .. => lowest

/-- Equality of trees up to the numbers of their samples. -/
def same : Expr → Expr → Bool
  | .identifier a, .identifier b => a == b
  | .index a, .index b => a == b
  | .sample a, .sample b => a.same b
  | .apply f x, .apply g y => f.same g && x.same y
  | .lambda a e, .lambda b f => a == b && e.same f
  | .fix a e, .fix b f => a == b && e.same f
  | .force a, .force b => a.same b
  | .cons a s, .cons b t => a.same b && s.same t
  | .letIn a v e, .letIn b w f => a == b && v.same w && e.same f
  | .annotate a s, .annotate b t => a.same b && s == t
  | .pair a x, .pair b y => a.same b && x.same y
  | .unpair a x s e, .unpair b y t f => a == b && x == y && s.same t && e.same f
  | .inl a, .inl b => a.same b
  | .inr a, .inr b => a.same b
  | .caseOf a m x n y, .caseOf b p z q w =>
    a.same b && m == p && x.same z && n == q && y.same w
  | _, _ => false

end Expr

end SampleStream
