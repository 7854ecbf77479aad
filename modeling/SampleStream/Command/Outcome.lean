import SampleStream.Command.Directory
import SampleStream.Command.Line
import SampleStream.Config.File
import SampleStream.Expr.Outline
import SampleStream.Expr.Parser
import SampleStream.Expr.Printer
import SampleStream.Log.Filter
import SampleStream.Session.Offline
import SampleStream.Ty.Parser

/-!
# Outcomes of commands

Running an invocation, and how its outcome is told: what is printed, what the failure is, and the number
that the program ends with. Notices on the log filter come before all else.
-/

namespace SampleStream

/-- Why a command fails. -/
inductive Failure
  | configUnreadable (path : String) (fault : FileFault)
  | configMalformed (path : String)
  | configInvalid (flaw : Config.Flaw)
  | sourceUnreadable (path : String) (fault : FileFault)
  | inputUnreadable (fault : FileFault)
  /-- A syntax error, told with the place in its source. -/
  | syntaxError (told : String)
  | noQuanta
  | protocol (error : ProtocolError)
deriving DecidableEq, Repr

namespace Failure

def message : Failure → String
  | .configUnreadable path fault => "cannot read config file " ++ path ++ ": " ++ fault.message
  | .configMalformed path => "invalid config file " ++ path
  | .configInvalid flaw => flaw.report
  | .sourceUnreadable path _ => "cannot read " ++ path
  | .inputUnreadable fault => fault.message
  | .syntaxError told => told
  | .noQuanta => "--quanta must be positive"
  | .protocol error => error.message

/-- What lies behind the failure. -/
def cause? : Failure → Option String
  | .configUnreadable _ fault => some fault.message
  | .sourceUnreadable _ fault => some fault.message
  | _ => none

def report (f : Failure) : String :=
  let cause := match f.cause? with
    | some cause => "\n\nCaused by:\n    " ++ cause
    | none => ""
  "Error: " ++ f.message ++ cause ++ "\n"

end Failure

inductive Outcome
  | printed (text : String)
  | rendered (stats : RenderStats) (first : List Sample)
  | failed (f : Failure)
  | panicked
  | stopped (s : Stop)
deriving DecidableEq, Repr

namespace Outcome

def usage : String :=
  "Usage: lambdalisten [OPTIONS] <parse [FILE] | render>\n"

def exitCode : Outcome → UInt32
  | .printed _ => 0
  | .rendered .. => 0
  | .failed _ => 1
  | .panicked => 101
  | .stopped .misuse => 2
  | .stopped _ => 0

/-- The report on a rendering. The numbers of all quanta and of silent ones depend on how threads take
turns; `count` writes them. -/
def summary (count : Nat → String) (stats : RenderStats) (first : List Sample) : String :=
  let shown := first.map fun s => String.ofList s.shown
  "quanta: " ++ count stats.quanta ++ " (silent " ++ count stats.silent
    ++ ", failed " ++ toString stats.failed ++ ", dropped loads " ++ toString stats.droppedLoads
    ++ ")\nfirst quantum: [" ++ ", ".intercalate shown ++ "]\n"

def standardOutput (count : Nat → String) : Outcome → String
  | .printed text => text
  | .rendered stats first => summary count stats first
  | .stopped .version => "lambdalisten 0.1.0\n"
  | .stopped .help => usage
  | _ => ""

def standardError : Outcome → String
  | .failed f => f.report
  | .stopped .misuse => usage
  | _ => ""

/-- What was read, printed back on a line, and its tree in front of that when it is asked for. -/
def ofParse (source : String) (tree : Bool) : Except SyntaxError (Outline × String) → Outcome
  | .ok (outline, text) => .printed ((if tree then outline.indented ++ "\n" else "") ++ text ++ "\n")
  | .error e =>
    match e.render? source with
    | some told => .failed (.syntaxError told)
    | none => .panicked

def parse (source : String) (asType tree : Bool) : Outcome :=
  if asType then ofParse source tree ((Ty.parse source).map fun t => (t.outline, t.text))
  else ofParse source tree ((Expr.parse source).map fun e => (e.outline, e.text))

/-- How long an acknowledgment is waited for. -/
def patience : Nat := 5000000

/-- Renders a stream. One channel stands for all, since all get the same samples. -/
def render (config : Config) (source : Builtin) (quanta : Nat) : Outcome :=
  match (Session.link? config : Option (Session String AnyModule)) with
  | none => .panicked
  | some s =>
    match s.bring (Builtin.load config.sampleRate) source.text with
    | (.error e, _) => .failed (.protocol e)
    | (.ok (), s) =>
      let channels := [List.replicate config.quantumSize.toNat Sample.zero]
      match s.opening channels patience with
      | (.error e, _) => .failed (.protocol e)
      | (.ok filled, s) =>
        .rendered (s.advance channels (quanta - 1)).processor.stats (filled.headD [])

end Outcome

/-- What a command may read: files, and the standard input. -/
structure Surroundings where
  file : String → Except FileFault String
  input : Except FileFault String

namespace TextSource

def read (place : Surroundings) : TextSource → Except Failure String
  | .file path => (place.file path).mapError (.sourceUnreadable path)
  | .inline text => .ok text
  | .standardInput => place.input.mapError .inputUnreadable

end TextSource

namespace Invocation

/-- The configuration of the file, which has to be valid by itself, or the default one. -/
def baseConfig (place : Surroundings) (i : Invocation) : Except Failure Config :=
  match i.config with
  | none => .ok {}
  | some path => do
    let text ← (place.file path).mapError (.configUnreadable path)
    match Config.ofText text with
    | .ok c => .ok c
    | .error .malformed => .error (.configMalformed path)
    | .error (.invalid flaw) => .error (.configInvalid flaw)

/-- The configuration that the command runs under. -/
def configuration (place : Surroundings) (i : Invocation) : Except Failure Config := do
  let base ← i.baseConfig place
  ((base.override i.overrides).validate).mapError .configInvalid

/-- Runs the command under its configuration. -/
def execute (place : Surroundings) (config : Config) : Command → Outcome
  | .parse source asType tree =>
    match source.read place with
    | .ok text => .parse text asType tree
    | .error f => .failed f
  | .render source quanta =>
    if quanta = 0 then .failed .noQuanta else .render config source quanta

/-- What comes of the command. -/
def outcome (place : Surroundings) (i : Invocation) : Outcome :=
  match i.configuration place with
  | .ok config => execute place config i.command
  | .error f => .failed f

end Invocation

/-- What a run of the program leaves behind. -/
structure Run where
  /-- What is said of the log filter. -/
  notices : List String
  outcome : Outcome
deriving DecidableEq, Repr

namespace Run

def exitCode (r : Run) : UInt32 :=
  r.outcome.exitCode

def standardOutput (count : Nat → String) (r : Run) : String :=
  r.outcome.standardOutput count

def standardError (r : Run) : String :=
  String.join r.notices ++ r.outcome.standardError

end Run

namespace Invocation

/-- The log filter is read before anything else; one that is spoilt ends the run. -/
def run (place : Surroundings) (i : Invocation) : Run :=
  match LogFilter.ofText? i.logFilter with
  | some filter => ⟨filter.notices, i.outcome place⟩
  | none => ⟨[], .panicked⟩

/-- Runs what the words of a line ask for. -/
def runWords (place : Surroundings) (words : List String) : Run :=
  match ofWords words with
  | .ok i => i.run place
  | .error s => ⟨[], .stopped s⟩

end Invocation

end SampleStream
