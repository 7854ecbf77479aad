import SampleStream.Text.Letter
import SampleStream.Text.Numeral

/-!
# Patterns

Regular expressions that the values of log fields are matched with, and why one cannot be used. A pattern holds
no closing brace, so a counted repetition, and all else that such a brace would end, is unfinished.

No tables of characters of all scripts stand behind patterns: case can be ignored, and a class named by a
letter can be used, only in the parts that match bytes. Such a part has to match whole characters, so it takes
no byte beyond the first half.
-/

namespace SampleStream.Pattern

/-- Why a pattern cannot be used. -/
inductive Flaw
  | malformed
  /-- It asks for the edge of a word in any script. -/
  | wordEdge
deriving DecidableEq, Repr

def Flaw.message : Flaw → String
  | .malformed => "error building NFA"
  | .wordEdge => "unsupported regex feature for DFAs: cannot build DFAs for regexes with Unicode word boundaries; "
      ++ "switch to ASCII word boundaries, or heuristically enable Unicode word boundaries or use a different "
      ++ "regex engine"

/-- How a part of a pattern is read. -/
structure Mode where
  ignoresCase : Bool := false
  /-- It matches bytes, not characters. -/
  bytes : Bool := false
  /-- Space and comments in it count for nothing. -/
  spaced : Bool := false
deriving DecidableEq, Repr

/-- Passes over space and comments. A comment goes up to the end of its line. -/
def skipSpace (comment : Bool) : List Char → List Char
  | [] => []
  | c :: cs =>
    if comment then skipSpace (c != '\n') cs
    else if Text.isSpace c then skipSpace false cs
    else if c == '#' then skipSpace true cs
    else c :: cs

def Mode.skip (m : Mode) (cs : List Char) : List Char :=
  if m.spaced then skipSpace false cs else cs

/-- What matches one character, or none at a certain place. -/
inductive Atom
  | char (c : Char)
  /-- A character given by two digits, which a part that matches bytes takes for a byte. -/
  | byte (c : Char)
  | any
  /-- An end of a line or of the text. -/
  | edge
  | wordEdge
  /-- A class that a letter names, or all but that class. -/
  | letterClass (complement : Bool)
deriving DecidableEq, Repr

namespace Atom

/-- Whether an atom can stand in a part of this mode. -/
def isAllowed (m : Mode) : Atom → Bool
  | .char _ => m.bytes || !m.ignoresCase
  | .byte c => if m.bytes then c.toNat < 0x80 else !m.ignoresCase
  | .any => !m.bytes
  | .edge => true
  | .wordEdge => true
  | .letterClass complement => m.bytes && !complement

/-- The character that an atom stands for in a bracketed class. -/
def char? : Atom → Option Char
  | .char c => some c
  | .byte c => some c
  | _ => none

/-- Whether an atom can stand in a bracketed class of this mode. -/
def isMember (m : Mode) (a : Atom) : Bool :=
  match a.char?, a with
  | some c, _ => !m.bytes || c.toNat < 0x80
  | none, .letterClass _ => a.isAllowed m
  | none, _ => false

end Atom

/-- Reads a fixed count of hexadecimal digits. -/
def readHex (m : Mode) : Nat → Nat → List Char → Option (Nat × List Char)
  | 0, value, cs => some (value, cs)
  | count + 1, value, cs =>
    match m.skip cs with
    | [] => none
    | c :: rest => do readHex m count (16 * value + (← Numeral.hexValue? c)) rest

/-- Reads a character by the digits of its number. -/
def readCode (m : Mode) (count : Nat) (cs : List Char) : Option (Char × List Char) := do
  let (n, rest) ← readHex m count 0 cs
  if n.isValidChar then some (Char.ofNat n, rest) else none

/-- Reads what follows a backslash. -/
def readEscape (m : Mode) : List Char → Option (Atom × List Char)
  | [] => none
  | c :: rest =>
    if c == 'x' then (readCode m 2 rest).map fun (c, rest) => (.byte c, rest)
    else if c == 'u' then (readCode m 4 rest).map fun (c, rest) => (.char c, rest)
    else if c == 'U' then (readCode m 8 rest).map fun (c, rest) => (.char c, rest)
    else if c == 'd' || c == 's' || c == 'w' then some (.letterClass false, rest)
    else if c == 'D' || c == 'S' || c == 'W' then some (.letterClass true, rest)
    else if c == 'a' then some (.char '\x07', rest)
    else if c == 'f' then some (.char '\x0c', rest)
    else if c == 'n' then some (.char '\n', rest)
    else if c == 'r' then some (.char '\r', rest)
    else if c == 't' then some (.char '\t', rest)
    else if c == 'v' then some (.char '\x0b', rest)
    else if c == 'A' || c == 'z' then some (.edge, rest)
    else if c == 'b' || c == 'B' || c == '<' || c == '>' then some (.wordEdge, rest)
    else if 0x80 ≤ c.toNat || c.isAlphanum then none
    else some (.char c, rest)

/-- Names of the classes that stand in brackets and colons. -/
def classNames : List String :=
  ["alnum", "alpha", "ascii", "blank", "cntrl", "digit", "graph", "lower", "print", "punct", "space", "upper",
   "word", "xdigit"]

/-- Reads a named class behind its bracket, and whether it is all but that class. -/
def readNamed : List Char → Option (Bool × List Char)
  | ':' :: cs =>
    let (complement, cs) := match cs with
      | '^' :: cs => (true, cs)
      | cs => (false, cs)
    match cs.span (· != ':') with
    | (name, ':' :: ']' :: rest) =>
      if classNames.contains (String.ofList name) then some (complement, rest) else none
    | _ => none
  | _ => none

/-- How far into a bracketed class the reading is. At its front dashes stand for themselves, and so does a closing
bracket that comes first. -/
inductive ClassPlace
  | opened
  | dashes
  | inside
deriving DecidableEq, Repr

/-- Passes over the sign that takes all but a class. -/
def readComplement (m : Mode) (cs : List Char) : Option (List Char) :=
  match m.skip cs with
  | '^' :: rest => if m.bytes then none else some rest
  | rest => some rest

def readMember (m : Mode) : List Char → Option (Atom × List Char)
  | [] => none
  | '\\' :: rest => readEscape m rest
  | c :: rest => some (.char c, rest)

/-- Reads a member of a class, or a range from one to another. A dash in front of the end or of another dash makes
no range. -/
def readMembers (m : Mode) (cs : List Char) : Option (List Char) := do
  let (a, rest) ← readMember m cs
  if !a.isMember m then none
  match m.skip rest with
  | '-' :: behind =>
    match m.skip behind with
    | ']' :: _ => some ('-' :: behind)
    | '-' :: _ => some ('-' :: behind)
    | cs => do
      let (b, rest) ← readMember m cs
      match a.char?, b.char? with
      | some first, some last => if b.isMember m && first ≤ last then some rest else none
      | _, _ => none
  | rest => some rest

/-- Reads bracketed classes up to the end of the outermost; `depth` of them are open. -/
def readClass (m : Mode) (depth : Nat) (place : ClassPlace) : Nat → List Char → Option (List Char)
  | 0, _ => none
  | steps + 1, cs =>
    match place, m.skip cs with
    | _, [] => none
    | .opened, '-' :: rest => readClass m depth .dashes steps rest
    | .dashes, '-' :: rest => readClass m depth .dashes steps rest
    | .opened, ']' :: rest => readClass m depth .inside steps rest
    | _, '[' :: rest =>
      match readNamed rest with
      | some (complement, rest) =>
        if m.bytes && complement then none else readClass m depth .inside steps rest
      | none => do readClass m (depth + 1) .opened steps (← readComplement m rest)
    | _, ']' :: rest => if depth ≤ 1 then some rest else readClass m (depth - 1) .inside steps rest
    | _, '&' :: '&' :: rest => readClass m depth .inside steps rest
    | _, '-' :: '-' :: rest => readClass m depth .inside steps rest
    | _, '~' :: '~' :: rest => readClass m depth .inside steps rest
    | _, cs => do readClass m depth .inside steps (← readMembers m cs)

/-- What has been read of a pattern. -/
structure Reading where
  mode : Mode := {}
  /-- The modes around the groups that are open, the innermost first. -/
  around : List Mode := []
  names : List (List Char) := []
  /-- The last thing read can be repeated. -/
  repeatable : Bool := false
  /-- Edges of words in any script are asked for. -/
  wordEdge : Bool := false

/-- Sets a mode. Some bear on what is matched only, and not on whether a pattern can be used. -/
def Mode.set? (m : Mode) (on : Bool) (c : Char) : Option Mode :=
  if c == 'i' then some { m with ignoresCase := on }
  else if c == 'u' then some { m with bytes := !on }
  else if c == 'x' then some { m with spaced := on }
  else if c == 'm' || c == 's' || c == 'U' || c == 'R' then some m
  else none

/-- Reads modes up to the colon or the parenthesis that ends them, and says which of them it was. Each is named
once, and those behind a dash are unset; `dangling` is said of a dash that nothing follows yet. -/
def readModes (m : Mode) (named : List Char) (dangling : Bool) : List Char → Option (Mode × Char × List Char)
  | [] => none
  | ':' :: rest => if dangling then none else some (m, ':', rest)
  | ')' :: rest => if dangling || named.isEmpty then none else some (m, ')', rest)
  | c :: rest =>
    if named.contains c then none
    else if c == '-' then readModes m (c :: named) true rest
    else do readModes (← m.set? (!named.contains '-') c) (c :: named) false rest

/-- Whether a character can stand in the name of a group. -/
def isNameChar (c : Char) : Bool :=
  c == '_' || c == '.' || c == '[' || c == ']' || Text.isAlphanumeric c

/-- Reads the name of a group and the bracket behind it. -/
def readName (cs : List Char) : Option (List Char × List Char) :=
  match cs.span (· != '>') with
  | (first :: name, '>' :: rest) =>
    if (first == '_' || Text.isAlphabetic first) && name.all isNameChar then some (first :: name, rest) else none
  | _ => none

namespace Reading

def opened (r : Reading) (mode : Mode) : Reading :=
  { r with mode, around := r.mode :: r.around, repeatable := false }

def openedAs (r : Reading) (cs : List Char) : Option (Reading × List Char) := do
  let (name, rest) ← readName cs
  if r.names.contains name then none
  else some ({ r.opened r.mode with names := name :: r.names }, rest)

/-- Reads what follows the parenthesis of a group. It may set modes, for the group or for what follows in the
group around it. What stands before or behind a place cannot be looked at. -/
def group (r : Reading) (cs : List Char) : Option (Reading × List Char) :=
  match r.mode.skip cs with
  | '?' :: '=' :: _ => none
  | '?' :: '!' :: _ => none
  | '?' :: '<' :: '=' :: _ => none
  | '?' :: '<' :: '!' :: _ => none
  | '?' :: 'P' :: '<' :: rest => r.openedAs rest
  | '?' :: '<' :: rest => r.openedAs rest
  | '?' :: rest => do
    let (mode, stop, rest) ← readModes r.mode [] false rest
    if stop == ':' then some (r.opened mode, rest) else some ({ r with mode, repeatable := false }, rest)
  | rest => some (r.opened r.mode, rest)

def atom (r : Reading) (a : Atom) (rest : List Char) : Option (Reading × List Char) :=
  if a.isAllowed r.mode then
    some ({ r with repeatable := true, wordEdge := r.wordEdge || (a == .wordEdge && !r.mode.bytes) }, rest)
  else none

/-- A repetition may be followed by a mark that makes it short. -/
def repetition (r : Reading) (rest : List Char) : Option (Reading × List Char) :=
  if !r.repeatable then none
  else match rest with
    | '?' :: rest => some (r, rest)
    | rest => some (r, rest)

def bracketed (r : Reading) (cs : List Char) : Option (Reading × List Char) := do
  if r.mode.ignoresCase && !r.mode.bytes then none
  let cs ← readComplement r.mode cs
  let rest ← readClass r.mode 1 .opened (cs.length + 1) cs
  some ({ r with repeatable := true }, rest)

/-- Reads one thing from the front. -/
def step (r : Reading) : List Char → Option (Reading × List Char)
  | [] => some (r, [])
  | '(' :: rest => r.group rest
  | ')' :: rest =>
    match r.around with
    | mode :: around => some ({ r with mode, around, repeatable := true }, rest)
    | [] => none
  | '|' :: rest => some ({ r with repeatable := false }, rest)
  | '[' :: rest => r.bracketed rest
  | '?' :: rest => r.repetition rest
  | '*' :: rest => r.repetition rest
  | '+' :: rest => r.repetition rest
  | '{' :: _ => none
  | '\\' :: rest => do
    let (a, rest) ← readEscape r.mode rest
    r.atom a rest
  | '.' :: rest => r.atom .any rest
  | '^' :: rest => r.atom .edge rest
  | '$' :: rest => r.atom .edge rest
  | c :: rest => r.atom (.char c) rest

/-- Reads to the end. A step takes one character at least. -/
def finish (r : Reading) : Nat → List Char → Option Reading
  | 0, _ => none
  | steps + 1, cs =>
    match r.mode.skip cs with
    | [] => if r.around.isEmpty then some r else none
    | cs => do
      let (r, rest) ← r.step cs
      r.finish steps rest

end Reading

/-- Why a pattern cannot be used, if it cannot. -/
def flaw? (cs : List Char) : Option Flaw :=
  match ({} : Reading).finish (cs.length + 1) cs with
  | none => some .malformed
  | some r => if r.wordEdge then some .wordEdge else none

end SampleStream.Pattern
