import SampleStream.Json

/-!
# Writing JSON

Values as text without blanks, members in their order.
-/

namespace SampleStream.Json

/-- The form of one character inside quotes. -/
def escape (c : Char) : List Char :=
  if c == '"' then ['\\', '"']
  else if c == '\\' then ['\\', '\\']
  else if c == '\x08' then ['\\', 'b']
  else if c == '\x0c' then ['\\', 'f']
  else if c == '\n' then ['\\', 'n']
  else if c == '\r' then ['\\', 'r']
  else if c == '\t' then ['\\', 't']
  else if c.toNat < 0x20 then
    let hex := Numeral.hexDigits c.toNat
    '\\' :: 'u' :: List.replicate (4 - hex.length) '0' ++ hex
  else [c]

/-- A string in quotes; one without content is written empty. -/
def quote (content : Option String) : List Char :=
  '"' :: (content.getD "").toList.flatMap escape ++ ['"']

def Number.chars (n : Number) : List Char :=
  let sign := if n.negative then ['-'] else []
  let fraction := if n.fraction.isEmpty then [] else '.' :: n.fraction
  let exponent := if n.exponent = 0 then [] else 'e' :: (toString n.exponent).toList
  sign ++ n.whole ++ fraction ++ exponent

mutual
def chars : Json → List Char
  | .null => ['n', 'u', 'l', 'l']
  | .bool true => ['t', 'r', 'u', 'e']
  | .bool false => ['f', 'a', 'l', 's', 'e']
  | .number n => n.chars
  | .string content => quote content
  | .array items => '[' :: charsAll items ++ [']']
  | .object members => '{' :: charsMembers members ++ ['}']

def charsAll : List Json → List Char
  | [] => []
  | [j] => j.chars
  | j :: js => j.chars ++ ',' :: charsAll js

def charsMembers : List (Option String × Json) → List Char
  | [] => []
  | [(key, j)] => quote key ++ ':' :: j.chars
  | (key, j) :: js => quote key ++ ':' :: j.chars ++ ',' :: charsMembers js
end

/-- The value as text. -/
def compact (j : Json) : String :=
  String.ofList j.chars

end SampleStream.Json
