import SampleStream.Command.Argument

/-!
# Command lines

The words of a command line are read from left to right, first those of the program and then those of the
command that they name; the first that does not fit decides. A value may be a word of its own, which does
not begin with a dash unless it is nothing else, or be attached to the name.
-/

namespace SampleStream

/-- What may stand at one level of a line. -/
structure Level where
  parameters : List Parameter
  commands : List String
  /-- What a word without a name is; nothing where none may stand. -/
  place : String → Option Argument
  /-- How many such words may stand. -/
  places : Nat

/-- The parameters set so far, by their long names, and what they were set to. -/
structure Reading where
  used : List String := []
  placed : Nat := 0
  given : List Argument := []

namespace Reading

/-- Sets a parameter, which is done at most once. -/
def set (p : Parameter) (a : Option Argument) (r : Reading) : Except Stop Reading :=
  match a with
  | some a =>
    if r.used.contains p.long then .error .misuse
    else .ok { r with used := p.long :: r.used, given := r.given ++ [a] }
  | none => .error .misuse

def place (level : Level) (r : Reading) (word : String) : Except Stop Reading :=
  match level.place word with
  | some a =>
    if r.placed < level.places then .ok { r with placed := r.placed + 1, given := r.given ++ [a] }
    else .error .misuse
  | none => .error .misuse

end Reading

/-- The name in front of the first equals sign, and the value behind it if there is one. -/
def splitAttached (cs : List Char) : List Char × Option String :=
  match cs.span (· != '=') with
  | (name, '=' :: value) => (name, some (String.ofList value))
  | (name, _) => (name, none)

/-- The value that is attached to a short name, an equals sign in front of it or not. -/
def shortAttached : List Char → Option String
  | [] => none
  | '=' :: value => some (String.ofList value)
  | value => some (String.ofList value)

/-- A parameter's name has been read with the value attached to it. The parameter is given back when its
value is still to come. -/
def Reading.name (p : Parameter) (attached : Option String) (r : Reading) :
    Except Stop (Reading × Option Parameter) :=
  match p.form, attached with
  | .stop s, none => .error s
  | .flag a, none => (r.set p (some a)).map (·, none)
  | .value read, some text => (r.set p (read text)).map (·, none)
  | .value _, none => .ok (r, some p)
  | _, some _ => .error .misuse

/-- What a short name is followed by does not matter to a parameter that ends the reading. -/
def Reading.shortName (p : Parameter) (rest : List Char) (r : Reading) :
    Except Stop (Reading × Option Parameter) :=
  match p.form with
  | .stop s => .error s
  | _ => r.name p (shortAttached rest)

namespace Level

/-- Reads a word that begins with a dash. -/
def dashed (level : Level) (r : Reading) : List Char → Except Stop (Reading × Option Parameter)
  | '-' :: cs =>
    let (name, attached) := splitAttached cs
    match level.parameters.find? (·.long == String.ofList name) with
    | some p => r.name p attached
    | none => .error .misuse
  | c :: cs =>
    match level.parameters.find? (·.short == some c) with
    | some p => r.shortName p cs
    | none => .error .misuse
  | [] => .error .misuse

/-- Reads words up to the name of a command, with the parameter that still waits for its value. After two
dashes all words are without names. -/
def read (level : Level) (r : Reading) : Option Parameter → List String →
    Except Stop (Reading × Option (String × List String))
  | none, [] => .ok (r, none)
  | some _, [] => .error .misuse
  | waiting, word :: rest =>
    match waiting, word.toList with
    | some _, '-' :: _ :: _ => .error .misuse
    | some p, _ => do
      let r ← r.name p (some word)
      level.read r.1 none rest
    | none, ['-', '-'] => do
      let r ← rest.foldlM (Reading.place level) r
      .ok (r, none)
    | none, '-' :: c :: cs => do
      let (r, waiting) ← level.dashed r (c :: cs)
      level.read r waiting rest
    | none, _ =>
      if level.commands.contains word then .ok (r, some (word, rest))
      else do
        let r ← r.place level word
        level.read r none rest

def program : Level where
  parameters := .help :: .version :: Parameter.shared
  commands := ["parse", "render", "help"]
  place _ := none
  places := 0

def parse : Level where
  parameters := .help :: Parameter.shared ++ Parameter.parse
  commands := []
  place word := (Argument.path? word).map .file
  places := 1

def render : Level where
  parameters := .help :: Parameter.shared ++ Parameter.render
  commands := []
  place _ := none
  places := 0

end Level

namespace Invocation

/-- The first of the arguments that `pick` takes. -/
def first {α : Type} (given : List Argument) (pick : Argument → Option α) : Option α :=
  given.findSome? pick

/-- How many quanta are rendered when the line does not say. -/
def defaultQuanta : Nat := 16

/-- The sine that is rendered when the line does not say, at 440. -/
def defaultSource : Builtin := .sine (.ofNat 440)

/-- What is logged when the line does not say. -/
def defaultLogFilter : String := "info"

/-- The text to parse. It is given only once. -/
def textSource (given : List Argument) : Except Stop TextSource :=
  let file := first given fun | .file p => some p | _ => none
  let inline := first given fun | .inline t => some t | _ => none
  match file, inline with
  | some _, some _ => .error .misuse
  | some path, none => .ok (.file path)
  | none, some text => .ok (.inline text)
  | none, none => .ok .standardInput

/-- The stream to render. It is given only once. -/
def streamSource (given : List Argument) : Except Stop Builtin :=
  let constant := first given fun | .constant v => some v | _ => none
  let frequency := first given fun | .frequency v => some v | _ => none
  match constant, frequency with
  | some _, some _ => .error .misuse
  | some value, none => .ok (.constant value)
  | none, some value => .ok (.sine value)
  | none, none => .ok defaultSource

/-- The settings among the arguments, in the order of `Config.settings`; some cannot be given. -/
def overridesOf (given : List Argument) : List (Option Nat) :=
  [first given fun | .quantumSize n => some n | _ => none,
   first given fun | .channels n => some n | _ => none,
   first given fun | .sampleRate n => some n | _ => none,
   none, none, none,
   first given fun | .renderPriority n => some n | _ => none]

def parse (given : List Argument) : Except Stop Command := do
  return .parse (← textSource given) (given.contains .asType) (given.contains .tree)

def render (given : List Argument) : Except Stop Command := do
  let quanta := first given fun | .quanta n => some n | _ => none
  return .render (← streamSource given) (quanta.getD defaultQuanta)

/-- An argument behind the name of the command wins over the same in front of it. -/
def ofLevels (level : Level) (command : List Argument → Except Stop Command) (outer : List Argument)
    (words : List String) : Except Stop Invocation := do
  let (r, _) ← level.read {} none words
  let given := r.given ++ outer
  return {
    config := first given fun | .config p => some p | _ => none
    logFilter := (first given fun | .logLevel f => some f | _ => none).getD defaultLogFilter
    overrides := overridesOf given
    command := ← command given }

/-- Help is given on the program or on one command. -/
def helpOn : List String → Stop
  | [] => .help
  | [command] => if Level.program.commands.contains command then .help else .misuse
  | _ => .misuse

/-- The invocation that the words of a line ask for. -/
def ofWords (words : List String) : Except Stop Invocation := do
  let (r, command) ← Level.program.read {} none words
  match command with
  | none => .error .misuse
  | some (name, rest) =>
    if name == "parse" then ofLevels .parse parse r.given rest
    else if name == "render" then ofLevels .render render r.given rest
    else .error (helpOn rest)

end Invocation

end SampleStream
