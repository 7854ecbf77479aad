import SampleStream.Command

/-!
# Arguments

The parameters that a command line may set, by their names, and what their values are read as.
-/

namespace SampleStream

inductive Argument
  | config (path : String)
  | logLevel (filter : String)
  | quantumSize (n : Nat)
  | channels (n : Nat)
  | sampleRate (n : Nat)
  | renderPriority (n : Nat)
  | file (path : String)
  | inline (text : String)
  | asType
  | tree
  | constant (value : Sample)
  | frequency (value : Sample)
  | quanta (n : Nat)
deriving DecidableEq, Repr

namespace Argument

/-- A number below `bound`: digits, after a plus sign or none. Where `signed` numbers are read, zero may
have a minus sign too. -/
def number? (signed : Bool) (bound : Nat) (text : String) : Option Nat :=
  let (negative, ds) := Sample.readSign text.toList
  let n := Numeral.value ds
  if ds.isEmpty || !ds.all Numeral.isDigit then none
  else if negative && (!signed || n != 0) then none
  else if n < bound then some n
  else none

def size? (text : String) : Option Nat :=
  number? false UInt64.size text

/-- A path is not empty. -/
def path? (text : String) : Option String :=
  if text.isEmpty then none else some text

end Argument

/-- What follows the name of a parameter. -/
inductive Parameter.Form
  /-- Nothing: the name is the argument. -/
  | flag (a : Argument)
  | value (read : String → Option Argument)
  /-- Nothing: the name ends the reading. -/
  | stop (s : Stop)

/-- A parameter with its names. No flag has a short one. -/
structure Parameter where
  long : String
  short : Option Char
  form : Parameter.Form

namespace Parameter

def help : Parameter := ⟨"help", some 'h', .stop .help⟩

def version : Parameter := ⟨"version", some 'V', .stop .version⟩

/-- Parameters that stand before or after the name of the command. -/
def shared : List Parameter := [
  ⟨"config", some 'c', .value fun t => (Argument.path? t).map .config⟩,
  ⟨"log-level", none, .value fun t => some (.logLevel t)⟩,
  ⟨"quantum-size", none, .value fun t => (Argument.size? t).map .quantumSize⟩,
  ⟨"channels", none, .value fun t => (Argument.size? t).map .channels⟩,
  ⟨"sample-rate", none, .value fun t => (Argument.number? true UInt32.size t).map .sampleRate⟩,
  ⟨"render-priority", none, .value fun t => (Argument.number? true UInt8.size t).map .renderPriority⟩]

def parse : List Parameter := [
  ⟨"expr", some 'e', .value fun t => some (.inline t)⟩,
  ⟨"type", none, .flag .asType⟩,
  ⟨"debug", none, .flag .tree⟩]

def render : List Parameter := [
  ⟨"constant", none, .value fun t => (Sample.ofText? t).map .constant⟩,
  ⟨"frequency", none, .value fun t => (Sample.ofText? t).map .frequency⟩,
  ⟨"quanta", some 'q', .value fun t => (Argument.size? t).map .quanta⟩]

end Parameter

end SampleStream
