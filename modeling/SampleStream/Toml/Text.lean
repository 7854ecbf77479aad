import SampleStream.Text.Numeral

/-!
# Text in TOML

Blanks, comments, line ends, the four kinds of strings, and keys. Every reader takes the text and gives
what it read with the rest.
-/

namespace SampleStream.Toml

abbrev Scanner (α : Type) := List Char → Option (α × List Char)

def isBlank (c : Char) : Bool :=
  c == ' ' || c == '\t'

def skipBlanks (cs : List Char) : List Char :=
  cs.dropWhile isBlank

/-- What may stand in comments and on one line of a string: everything but the controls, tabs apart. -/
def isPlain (c : Char) : Bool :=
  c == '\t' || (0x20 ≤ c.toNat && c.toNat != 0x7f)

/-- The rest after a line end, which is a line feed with or without a carriage return. -/
def lineEnd? : List Char → Option (List Char)
  | '\n' :: rest => some rest
  | '\r' :: '\n' :: rest => some rest
  | _ => none

/-- The rest after a comment, if there is one; it ends where a character may not stand in it. -/
def skipComment : List Char → List Char
  | '#' :: rest => rest.dropWhile isPlain
  | cs => cs

/-- Passes over blanks, comments and line ends, at most one line for each of `fuel`. -/
def skipLines : Nat → List Char → List Char
  | 0, cs => cs
  | fuel + 1, cs =>
    let rest := skipComment (skipBlanks cs)
    match lineEnd? rest with
    | some rest => skipLines fuel rest
    | none => rest

/-- The character with this code point in base sixteen; none for surrogates and beyond the last one. -/
def codePoint? (hex : List Char) : Option Char := do
  let n ← hex.foldlM (fun n c => return 16 * n + (← Numeral.hexValue? c)) 0
  if n.isValidChar then some (Char.ofNat n) else none

/-- The character of a one-letter escape. -/
def escaped? (c : Char) : Option Char :=
  match c with
  | 'b' => some '\x08'
  | 't' => some '\t'
  | 'n' => some '\n'
  | 'f' => some '\x0c'
  | 'r' => some '\r'
  | '"' => some '"'
  | '\\' => some '\\'
  | _ => none

/-- The character that an escape stands for, after its backslash. -/
def escape? : Scanner Char
  | 'u' :: rest => if rest.length < 4 then none else (codePoint? (rest.take 4)).map (·, rest.drop 4)
  | 'U' :: rest => if rest.length < 8 then none else (codePoint? (rest.take 8)).map (·, rest.drop 8)
  | c :: rest => (escaped? c).map (·, rest)
  | [] => none

/-- A string in double quotes, after the first. -/
def basic (fuel : Nat) : Scanner (List Char) := fun cs =>
  match fuel, cs with
  | _ + 1, '"' :: rest => some ([], rest)
  | fuel + 1, '\\' :: rest => do
    let (c, rest) ← escape? rest
    let (more, rest) ← basic fuel rest
    some (c :: more, rest)
  | fuel + 1, c :: rest =>
    if isPlain c then (basic fuel rest).map fun (more, rest) => (c :: more, rest) else none
  | _, _ => none

/-- A string in single quotes, after the first. -/
def literal : Scanner (List Char) := fun cs =>
  let body := cs.takeWhile fun c => isPlain c && c != '\''
  match cs.drop body.length with
  | '\'' :: rest => some (body, rest)
  | _ => none

/-- The rest after a line end that directly follows the opening quotes. -/
def skipFirstLineEnd (cs : List Char) : List Char :=
  (lineEnd? cs).getD cs

/-- Passes over blanks and line ends alone. -/
def skipSpace : Nat → List Char → List Char
  | 0, cs => cs
  | fuel + 1, cs =>
    let rest := skipBlanks cs
    match lineEnd? rest with
    | some rest => skipSpace fuel rest
    | none => rest

/-- A string over several lines between triple quotes, after the opening ones. Up to two quotes may stand
anywhere in it, also right before the closing ones. With `escapes`, a backslash at the end of a line
takes the break and the blanks after it away. -/
def multiline (escapes : Bool) (quote : Char) : Nat → Scanner (List Char)
  | 0, _ => none
  | fuel + 1, cs =>
    let quotes := (cs.takeWhile (· == quote)).length
    if 0 < quotes then
      let rest := cs.drop quotes
      if quotes < 3 then
        (multiline escapes quote fuel rest).map fun (more, rest) =>
          (List.replicate quotes quote ++ more, rest)
      else if quotes ≤ 5 then some (List.replicate (quotes - 3) quote, rest)
      else none
    else
      match lineEnd? cs, cs with
      | some rest, _ => (multiline escapes quote fuel rest).map fun (more, rest) => ('\n' :: more, rest)
      | none, [] => none
      | none, c :: rest =>
        if escapes && c == '\\' then
          match lineEnd? (skipBlanks rest) with
          | some after => multiline escapes quote fuel (skipSpace after.length after)
          | none => do
            let (e, rest) ← escape? rest
            let (more, rest) ← multiline escapes quote fuel rest
            some (e :: more, rest)
        else if isPlain c then
          (multiline escapes quote fuel rest).map fun (more, rest) => (c :: more, rest)
        else none

/-- A string of any kind. -/
def string? : Scanner String := fun cs =>
  let read : Option (List Char × List Char) := match cs with
    | '"' :: '"' :: '"' :: rest =>
      multiline true '"' (rest.length + 1) (skipFirstLineEnd rest)
    | '\'' :: '\'' :: '\'' :: rest =>
      multiline false '\'' (rest.length + 1) (skipFirstLineEnd rest)
    | '"' :: rest => basic (rest.length + 1) rest
    | '\'' :: rest => literal rest
    | _ => none
  read.map fun (content, rest) => (String.ofList content, rest)

def isBareKeyChar (c : Char) : Bool :=
  ('a' ≤ c && c ≤ 'z') || ('A' ≤ c && c ≤ 'Z') || Numeral.isDigit c || c == '_' || c == '-'

/-- One part of a key: bare, or a string on one line. -/
def simpleKey? : Scanner String := fun cs =>
  match cs with
  | '"' :: rest => (basic (rest.length + 1) rest).map fun (k, rest) => (String.ofList k, rest)
  | '\'' :: rest => (literal rest).map fun (k, rest) => (String.ofList k, rest)
  | _ =>
    let (bare, rest) := cs.span isBareKeyChar
    if bare.isEmpty then none else some (String.ofList bare, rest)

/-- The parts of a dotted key, at most `fuel` of them, with the blanks around them passed over. -/
def key? : Nat → Scanner (List String)
  | 0, _ => none
  | fuel + 1, cs => do
    let (part, rest) ← simpleKey? (skipBlanks cs)
    match skipBlanks rest with
    | '.' :: rest => do
      let (parts, rest) ← key? fuel rest
      some (part :: parts, rest)
    | rest => some ([part], rest)

end SampleStream.Toml
