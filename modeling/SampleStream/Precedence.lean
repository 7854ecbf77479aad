/-!
# Precedence

Levels and associativity of every form, as data that readers and printers share: what binds tighter has
the higher level. Where parentheses are needed follows from this table alone.
-/

namespace SampleStream

inductive Assoc
  | left
  | right
deriving DecidableEq, Repr

inductive Side
  | left
  | right
deriving DecidableEq, Repr

/-- How tightly an infix operator binds, and to which side it groups. -/
structure Fixity where
  level : Nat
  assoc : Assoc
deriving DecidableEq, Repr

namespace Fixity

/-- The least level of an ungrouped left operand. -/
def leftMin (f : Fixity) : Nat :=
  match f.assoc with
  | .left => f.level
  | .right => f.level + 1

/-- The least level of an ungrouped right operand. -/
def rightMin (f : Fixity) : Nat :=
  match f.assoc with
  | .left => f.level + 1
  | .right => f.level

def minOf (f : Fixity) : Side → Nat
  | .left => f.leftMin
  | .right => f.rightMin

/-- The least level of an operand, if it still fits a byte. -/
def minInByte? (f : Fixity) (side : Side) : Option Nat :=
  if f.minOf side < 256 then some (f.minOf side) else none

end Fixity

end SampleStream
