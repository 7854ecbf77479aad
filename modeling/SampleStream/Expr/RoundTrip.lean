import SampleStream.Expr.Parser
import SampleStream.Expr.Printer

/-!
# Reading back

Whether a written tree reads back to itself. It need not: a written form can nest deeper than the source
it came from, names can be no names, and a sample without a number has no literal.
-/

namespace SampleStream

def Ty.readsBack (t : Ty) : Except SyntaxError Bool :=
  (Ty.parse t.text).map (· == t)

def Expr.readsBack (e : Expr) : Except SyntaxError Bool :=
  (Expr.parse e.text).map (·.same e)

end SampleStream
