import SampleStream.Expr
import SampleStream.Outline
import SampleStream.Sample.Text

/-!
# Outlines of trees

The structure of types and expressions under the names that the outline of a program uses.
-/

namespace SampleStream

def BaseTy.outline : BaseTy → Outline
  | .sample => .word "Sample"
  | .index => .word "Index"
  | .unit => .word "Unit"

def Ty.outline : Ty → Outline
  | .base b => .node "Base" [b.outline]
  | .function a b => .node "Function" [a.outline, b.outline]
  | .stream t => .node "Stream" [t.outline]
  | .product a b => .node "Product" [a.outline, b.outline]
  | .sum a b => .node "Sum" [a.outline, b.outline]

def Expr.outline : Expr → Outline
  | .identifier x => .node "Identifier" [.quoted x]
  | .index n => .node "IntLiteral" [.nat n.toNat]
  | .sample s => .node "SampleLiteral" [.leaf s.shown]
  | .apply f x => .node "Application" [f.outline, x.outline]
  | .lambda x e => .node "Lambda" [.quoted x, e.outline]
  | .fix x e => .node "Lob" [.quoted x, e.outline]
  | .force e => .node "Force" [e.outline]
  | .cons h t => .node "Gen" [h.outline, t.outline]
  | .letIn x v e => .node "Let" [.quoted x, v.outline, e.outline]
  | .annotate e t => .node "Annotate" [e.outline, t.outline]
  | .pair a b => .node "Pair" [a.outline, b.outline]
  | .unpair x y s e => .node "Unpair" [.quoted x, .quoted y, s.outline, e.outline]
  | .inl e => .node "Inl" [e.outline]
  | .inr e => .node "Inr" [e.outline]
  | .caseOf s x l y r => .record "Case"
      [("scrutinee", s.outline), ("left_name", .quoted x), ("left_body", l.outline),
       ("right_name", .quoted y), ("right_body", r.outline)] false

end SampleStream
