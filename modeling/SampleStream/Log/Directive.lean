import SampleStream.Log.Level
import SampleStream.Log.Pattern
import SampleStream.Sample.Text
import SampleStream.SyntaxError

/-!
# Log directives

A directive names a level, or the target that it is about and, in brackets, the span that has to be around what
happens there, and then the level behind an equals sign. A span is described by its name, by a field in braces,
or by both.
-/

namespace SampleStream

/-- A field that a span must have, and the pattern or the number that its value must match. -/
structure LogField where
  name : String
  value : Option String
deriving DecidableEq, Repr

structure LogDirective where
  level : LogLevel := .trace
  target : Option String := none
  span : Option String := none
  fields : List LogField := []
deriving DecidableEq, Repr

namespace LogDirective

/-- Why a text is no directive. -/
inductive Flaw
  | malformed
  | level
  | field (pattern : Pattern.Flaw)
  /-- A part of it would begin or end inside a character. -/
  | torn
deriving DecidableEq, Repr

def Flaw.message : Flaw → String
  | .malformed => "invalid filter directive"
  | .level => "error parsing level filter: expected one of \"off\", \"error\", \"warn\", \"info\", "
      ++ "\"debug\", \"trace\", or a number 0-5"
  | .field pattern => "invalid field filter: " ++ pattern.message
  | .torn => "byte index is not a char boundary"

/-- The part of a text between two offsets. -/
def part (text : List Char) (start stop : Nat) : Except Flaw (List Char) :=
  match takeBytes? start text, takeBytes? stop text with
  | some before, some upTo => .ok (upTo.drop before.length)
  | _, _ => .error .torn

/-- The level from an offset to the end of the text; nothing there stands for the most telling one. -/
def levelAt (text : List Char) (offset : Nat) : Except Flaw LogLevel := do
  let word ← part text offset (utf8Length text)
  if word.isEmpty then .ok .trace
  else match LogLevel.ofText? word with
    | some level => .ok level
    | none => .error .level

/-- Reads a field, with a value if there is one behind an equals sign. A further equals sign ends the value. A
number is not taken for a pattern. -/
def readField (text : List Char) : Except Flaw LogField :=
  match text.span (· != '=') with
  | (name, '=' :: rest) =>
    let value := rest.takeWhile (· != '=')
    let field : LogField := ⟨String.ofList name, some (String.ofList value)⟩
    if (Sample.ofText? (String.ofList value)).isSome then .ok field
    else match Pattern.flaw? value with
      | none => .ok field
      | some flaw => .error (.field flaw)
  | (name, _) => .ok ⟨String.ofList name, none⟩

/-- Reads what follows a closed bracket, which is at an offset. -/
def readRest (text : List Char) (d : LogDirective) (offset : Nat) : List Char → Except Flaw LogDirective
  | [] => .ok d
  | '=' :: _ => do return { d with level := ← levelAt text (offset + 1) }
  | _ => .error .malformed

/-- Reads what follows an opening brace, which is at an offset. -/
def readFields (text : List Char) (d : LogDirective) (offset : Nat) (cs : List Char) :
    Except Flaw LogDirective :=
  match cs.span (· != '}') with
  | (inside, '}' :: rest) => do
    let stop := offset + utf8Length inside
    let content ← part text offset stop
    if content.isEmpty then .error .malformed
    else
      let field ← readField content
      match rest with
      | ']' :: rest => readRest text { d with fields := [field] } (stop + 2) rest
      | _ => .error .malformed
  | _ => .error .malformed

/-- Reads what follows an opening bracket, which is at an offset. -/
def readSpan (text : List Char) (d : LogDirective) (offset : Nat) (cs : List Char) :
    Except Flaw LogDirective :=
  let (inside, rest) := cs.span fun c => c != ']' && c != '{'
  let stop := offset + utf8Length inside
  match rest with
  | ']' :: rest => do
    let name ← part text offset stop
    readRest text { d with span := some (String.ofList name) } (stop + 1) rest
  | '{' :: rest => do
    let name ← part text offset stop
    let span := if name.isEmpty then none else some (String.ofList name)
    readFields text { d with span } (stop + 1) rest
  | _ => .error .malformed

/-- What may begin a level or a target. -/
def isStart (c : Char) : Bool :=
  c == '-' || c == ':' || c == '_' || Text.isAlphanumeric c

/-- Reads a level, or a target with what follows it. -/
def readTarget (text cs : List Char) : Except Flaw LogDirective :=
  let (inside, rest) := cs.span fun c => c != '=' && c != '['
  let stop := utf8Length inside
  match rest with
  | '=' :: _ => do
    let target ← part text 0 stop
    return { target := some (String.ofList target), level := ← levelAt text (stop + 1) }
  | '[' :: rest => do
    let target ← part text 0 stop
    readSpan text { target := some (String.ofList target) } (stop + 1) rest
  | _ =>
    match LogLevel.ofText? text with
    | some level => .ok { level }
    | none => .ok { target := some (String.ofList text) }

/-- Reads a directive, in which there is no comma. Its parts are looked for in the text without the space around
it, but taken from the whole text at the offsets found. -/
def ofText (text : List Char) : Except Flaw LogDirective :=
  match Text.trim text with
  | '[' :: rest => readSpan text {} 1 rest
  | c :: rest => if isStart c then readTarget text (c :: rest) else .error .malformed
  | [] => .error .malformed

end LogDirective

end SampleStream
