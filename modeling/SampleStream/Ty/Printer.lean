import SampleStream.Phrase
import SampleStream.Ty

/-!
# Written types

A type is written with parentheses exactly where the table of levels would otherwise regroup a part.
-/

namespace SampleStream.Ty

open Phrase

def Operator.symbol : Operator → Symbol
  | .function => .arrow
  | .sum => .plus
  | .product => .star

/-- The phrase of a type without parentheses around the whole. -/
def phrase : Ty → Phrase
  | .base b => [name b.keyword]
  | .stream inner => Phrase.symbol .tilde :: grouped (inner.level < streamLevel) inner.phrase
  | .product a b => joined .product a.level a.phrase b.level b.phrase
  | .sum a b => joined .sum a.level a.phrase b.level b.phrase
  | .function a b => joined .function a.level a.phrase b.level b.phrase
where
  /-- Two operands around their operator, each grouped if its level is below the operator's minimum. -/
  joined (op : Operator) (leftLevel : Nat) (left : Phrase) (rightLevel : Nat) (right : Phrase) :
      Phrase :=
    grouped (leftLevel < op.fixity.leftMin) left
      ++ .blank :: Phrase.symbol op.symbol :: .blank
      :: grouped (rightLevel < op.fixity.rightMin) right

/-- The type as text. -/
def text (t : Ty) : String :=
  Phrase.text t.phrase

end SampleStream.Ty
