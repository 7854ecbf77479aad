import SampleStream.Text.Numeral

/-!
# Log levels

How much of what happens is told.
-/

namespace SampleStream

inductive LogLevel
  | off
  | error
  | warn
  | info
  | debug
  | trace
deriving DecidableEq, Repr

namespace LogLevel

/-- All levels, each of which lets more through than those before it. -/
def all : List LogLevel := [.off, .error, .warn, .info, .debug, .trace]

def name : LogLevel → String
  | .off => "off"
  | .error => "error"
  | .warn => "warn"
  | .info => "info"
  | .debug => "debug"
  | .trace => "trace"

/-- Reads the place of a level among all of them. It may have a plus sign. -/
def ofNumber? (cs : List Char) : Option LogLevel :=
  let ds := match cs with
    | '+' :: ds => ds
    | ds => ds
  if ds.isEmpty || !ds.all Numeral.isDigit then none else all[Numeral.value ds]?

/-- Reads the number or the name of a level, the name in letters of either case. -/
def ofText? (cs : List Char) : Option LogLevel :=
  match ofNumber? cs with
  | some level => some level
  | none => all.find? (·.name == String.ofList (cs.map Char.toLower))

end LogLevel

end SampleStream
