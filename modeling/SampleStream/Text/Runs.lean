/-!
# Runs of characters

Sets of characters, given by the runs of code points that they are made of.
-/

namespace SampleStream.Text

/-- First and last code points of the runs, ascending. -/
abbrev Runs := Array (Nat × Nat)

def Runs.has (runs : Runs) (c : Char) : Bool :=
  runs.any fun (first, last) => first ≤ c.toNat && c.toNat ≤ last

end SampleStream.Text
