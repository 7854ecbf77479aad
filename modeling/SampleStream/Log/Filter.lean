import SampleStream.Log.Directive

/-!
# Log filters

What is told of all that happens. A filter is a list of directives, parted by commas; one that cannot be read is
left out, and why is said.
-/

namespace SampleStream

structure LogFilter where
  directives : List LogDirective := []
  /-- Directives that are left out, and why. -/
  refused : List (String × LogDirective.Flaw) := []
deriving DecidableEq, Repr

namespace LogFilter

/-- Puts one more directive in front. A torn one spoils the filter. -/
def add? (text : String) (f : LogFilter) : Option LogFilter :=
  match LogDirective.ofText text.toList with
  | .ok d => some { f with directives := d :: f.directives }
  | .error .torn => none
  | .error flaw => some { f with refused := (text, flaw) :: f.refused }

/-- Reads a filter. Nothing between two commas is no directive. -/
def ofText? (text : String) : Option LogFilter :=
  ((text.splitOn ",").filter (· != "")).foldrM add? {}

/-- What is said of the directives that are left out. -/
def notices (f : LogFilter) : List String :=
  f.refused.map fun (text, flaw) => "ignoring `" ++ text ++ "`: " ++ flaw.message ++ "\n"

end LogFilter

end SampleStream
