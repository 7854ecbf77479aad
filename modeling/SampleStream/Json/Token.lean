import SampleStream.Json

/-!
# JSON tokens

A text is cut into punctuation, words, numbers and strings, with blanks between them passed over. Where
nothing can be cut any more the list ends with `junk`.
-/

namespace SampleStream.Json

inductive Token
  | leftBrace
  | rightBrace
  | leftBracket
  | rightBracket
  | colon
  | comma
  | null
  | bool (b : Bool)
  | number (n : Number)
  | string (content : Option String)
  | junk
deriving DecidableEq, Repr

namespace Token

def isBlank (c : Char) : Bool :=
  c == ' ' || c == '\t' || c == '\n' || c == '\r'

def hex4? (a b c d : Char) : Option Nat := do
  some (((← Numeral.hexValue? a) * 16 + (← Numeral.hexValue? b)) * 256 + (← Numeral.hexValue? c) * 16
    + (← Numeral.hexValue? d))

/-- The character of a one-letter escape. -/
def escaped? (c : Char) : Option Char :=
  match c with
  | '"' => some '"'
  | '\\' => some '\\'
  | '/' => some '/'
  | 'b' => some '\x08'
  | 'f' => some '\x0c'
  | 'n' => some '\n'
  | 'r' => some '\r'
  | 't' => some '\t'
  | _ => none

/-- The 16-bit units and characters of a string up to its closing quote, and what follows it. Control
characters must be escaped. -/
def units : List Char → Option (List (Nat ⊕ Char) × List Char)
  | [] => none
  | '"' :: rest => some ([], rest)
  | '\\' :: 'u' :: a :: b :: c :: d :: rest => do
    let unit ← hex4? a b c d
    let (more, rest) ← units rest
    some (.inl unit :: more, rest)
  | '\\' :: e :: rest => do
    let c ← escaped? e
    let (more, rest) ← units rest
    some (.inr c :: more, rest)
  | c :: rest =>
    if c.toNat < 0x20 || c == '\\' then none
    else (units rest).map fun (more, rest) => (.inr c :: more, rest)

def isHigh (unit : Nat) : Bool := 0xd800 ≤ unit && unit < 0xdc00

def isLow (unit : Nat) : Bool := 0xdc00 ≤ unit && unit < 0xe000

/-- Joins surrogate pairs; none when one half stands alone. -/
def joinUnits : List (Nat ⊕ Char) → Option (List Char)
  | [] => some []
  | .inr c :: rest => (joinUnits rest).map (c :: ·)
  | .inl high :: .inl low :: rest =>
    if isHigh high && isLow low then
      (joinUnits rest).map (Char.ofNat (0x10000 + (high - 0xd800) * 0x400 + (low - 0xdc00)) :: ·)
    else if isHigh high || isLow high then none
    else (joinUnits (.inl low :: rest)).map (Char.ofNat high :: ·)
  | .inl unit :: rest =>
    if isHigh unit || isLow unit then none else (joinUnits rest).map (Char.ofNat unit :: ·)

/-- The digits after the point, if there is one; a point needs a digit. -/
def fraction? : List Char → Option (List Char × List Char)
  | '.' :: rest =>
    let (ds, rest) := rest.span Numeral.isDigit
    if ds.isEmpty then none else some (ds, rest)
  | rest => some ([], rest)

/-- The exponent, if there is one, and whether there is; a mark needs a digit. -/
def exponent? : List Char → Option (Int × Bool × List Char)
  | [] => some (0, false, [])
  | c :: rest =>
    if c == 'e' || c == 'E' then
      let (negative, rest) := match rest with
        | '-' :: rest => (true, rest)
        | '+' :: rest => (false, rest)
        | rest => (false, rest)
      let (ds, rest) := rest.span Numeral.isDigit
      let n : Int := Numeral.value ds
      if ds.isEmpty then none else some (if negative then -n else n, true, rest)
    else some (0, false, c :: rest)

/-- A number after its sign. Only zero itself begins with a zero. -/
def number? (negative : Bool) (cs : List Char) : Option (Number × List Char) := do
  let (whole, rest) := cs.span Numeral.isDigit
  if whole.isEmpty || (whole.head? == some '0' && 1 < whole.length) then none
  else
    let (fraction, rest) ← fraction? rest
    let (exponent, marked, rest) ← exponent? rest
    some (⟨negative, whole, fraction, exponent, fraction.isEmpty && !marked⟩, rest)

/-- The token at the front of a text without leading blanks, and what follows it. -/
def next? : List Char → Option (Token × List Char)
  | '{' :: rest => some (.leftBrace, rest)
  | '}' :: rest => some (.rightBrace, rest)
  | '[' :: rest => some (.leftBracket, rest)
  | ']' :: rest => some (.rightBracket, rest)
  | ':' :: rest => some (.colon, rest)
  | ',' :: rest => some (.comma, rest)
  | 'n' :: 'u' :: 'l' :: 'l' :: rest => some (.null, rest)
  | 't' :: 'r' :: 'u' :: 'e' :: rest => some (.bool true, rest)
  | 'f' :: 'a' :: 'l' :: 's' :: 'e' :: rest => some (.bool false, rest)
  | '"' :: rest => (units rest).map fun (us, rest) => (.string ((joinUnits us).map String.ofList), rest)
  | '-' :: rest => (number? true rest).map fun (n, rest) => (.number n, rest)
  | cs => (number? false cs).map fun (n, rest) => (.number n, rest)

/-- The tokens of a text, at most `fuel` of them. -/
def scan : Nat → List Char → List Token
  | 0, _ => [.junk]
  | fuel + 1, cs =>
    match cs.dropWhile isBlank with
    | [] => []
    | rest =>
      match next? rest with
      | some (t, rest) => t :: scan fuel rest
      | none => [.junk]

/-- The tokens of a text; each takes at least one character. -/
def ofText (cs : List Char) : List Token :=
  scan (cs.length + 1) cs

end Token

end SampleStream.Json
