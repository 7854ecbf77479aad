import SampleStream.Module.Builtin

/-!
# Commands

What a command line asks for. Every command runs under a configuration: that of a file, if one is named,
with the settings of the command line over it.
-/

namespace SampleStream

/-- Where a source text comes from. -/
inductive TextSource
  | file (path : String)
  | inline (text : String)
  | standardInput
deriving DecidableEq, Repr

inductive Command
  /-- Reads an expression or a type and prints it back, its tree first when that is asked for. -/
  | parse (source : TextSource) (asType tree : Bool)
  /-- Plays a built-in stream for a number of quanta and reports on it. -/
  | render (source : Builtin) (quanta : Nat)
deriving DecidableEq, Repr

structure Invocation where
  /-- The path of the configuration file. -/
  config : Option String
  /-- The text of the filter for what is logged. -/
  logFilter : String
  /-- The settings given, in the order of `Config.settings`. -/
  overrides : List (Option Nat)
  command : Command
deriving DecidableEq, Repr

/-- The paths of the files that an invocation may read. -/
def Invocation.paths (i : Invocation) : List String :=
  i.config.toList ++ match i.command with
    | .parse (.file path) _ _ => [path]
    | _ => []

def Invocation.readsInput (i : Invocation) : Bool :=
  match i.command with
  | .parse .standardInput _ _ => true
  | _ => false

/-- Why a command line is not run. -/
inductive Stop
  | help
  | version
  /-- It cannot be understood. -/
  | misuse
deriving DecidableEq, Repr

end SampleStream
