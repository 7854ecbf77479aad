import SampleStream.Precedence

/-!
# Types

The types of the calculus: three ground types, functions, streams that start one step later, products
and sums.
-/

namespace SampleStream

inductive BaseTy
  | sample
  | index
  | unit
deriving DecidableEq, Repr

namespace BaseTy

def keyword : BaseTy → String
  | .sample => "sample"
  | .index => "index"
  | .unit => "unit"

def ofKeyword? (word : String) : Option BaseTy :=
  if word = "sample" then some .sample
  else if word = "index" then some .index
  else if word = "unit" then some .unit
  else none

theorem ofKeyword?_keyword (b : BaseTy) : ofKeyword? b.keyword = some b := by
  cases b <;> decide

end BaseTy

inductive Ty
  | base (b : BaseTy)
  /-- Functions, written with an arrow. -/
  | function (domain codomain : Ty)
  /-- What is available one step later, written with a tilde. -/
  | stream (inner : Ty)
  | product (first second : Ty)
  | sum (left right : Ty)
deriving DecidableEq, Repr

namespace Ty

/-- The infix forms of types. -/
inductive Operator
  | function
  | sum
  | product
deriving DecidableEq, Repr

namespace Operator

/-- Function arrows bind loosest, products tightest; all group to the right. -/
def fixity : Operator → Fixity
  | .function => ⟨0, .right⟩
  | .sum => ⟨1, .right⟩
  | .product => ⟨2, .right⟩

def apply : Operator → Ty → Ty → Ty
  | .function => .function
  | .sum => .sum
  | .product => .product

end Operator

/-- The level that takes any type. -/
def lowest : Nat := Operator.function.fixity.level

/-- The level of a tilde and its operand. -/
def streamLevel : Nat := 3

/-- The level of ground types and parenthesised types. -/
def atomLevel : Nat := 4

/-- The level of the outermost form. -/
def level : Ty → Nat
  | .base _ => atomLevel
  | .stream _ => streamLevel
  | .product _ _ => Operator.product.fixity.level
  | .sum _ _ => Operator.sum.fixity.level
  | .function _ _ => Operator.function.fixity.level

end Ty

end SampleStream
