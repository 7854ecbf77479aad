import SampleStream.Binary
import SampleStream.Toml
import SampleStream.Toml.Text

/-!
# Numbers, dates and times in TOML

What begins with a digit or a sign, and the words. Integers are signed 64-bit; a positive float must be
in range; dates are checked against the calendar.
-/

namespace SampleStream.Toml

/-- Digits of one class with single underscores between them, given without the underscores. -/
def grouped? (isDigit : Char → Bool) : Scanner (List Char)
  | [] => none
  | c :: rest => if isDigit c then some (more [c] rest) else none
where
  more (read : List Char) : List Char → List Char × List Char
    | '_' :: c :: rest => if isDigit c then more (c :: read) rest else (read.reverse, '_' :: c :: rest)
    | c :: rest => if isDigit c then more (c :: read) rest else (read.reverse, c :: rest)
    | [] => (read.reverse, [])

def sign? : List Char → Option Bool × List Char
  | '-' :: rest => (some true, rest)
  | '+' :: rest => (some false, rest)
  | cs => (none, cs)

/-- Decimal digits of which a zero may be first only alone. -/
def decimalDigits? : Scanner (List Char) := fun cs =>
  match cs with
  | '0' :: rest => some (['0'], rest)
  | _ => grouped? Numeral.isDigit cs

def word64? (n : Int) : Option Toml :=
  if -0x8000000000000000 ≤ n ∧ n < 0x8000000000000000 then some (.integer n) else none

def inBase (base : Nat) (digits : List Char) : Nat :=
  digits.foldl (fun n c => base * n + (Numeral.hexValue? c).getD 0) 0

def isHexDigit (c : Char) : Bool := (Numeral.hexValue? c).isSome

def isOctalDigit (c : Char) : Bool := '0' ≤ c && c ≤ '7'

def isBinaryDigit (c : Char) : Bool := c == '0' || c == '1'

def integer? : Scanner Toml
  | '0' :: 'x' :: rest => based 16 isHexDigit rest
  | '0' :: 'o' :: rest => based 8 isOctalDigit rest
  | '0' :: 'b' :: rest => based 2 isBinaryDigit rest
  | cs => do
    let (sign, rest) := sign? cs
    let (digits, rest) ← decimalDigits? rest
    let n : Int := Numeral.value digits
    some (← word64? (if sign == some true then -n else n), rest)
where
  based (base : Nat) (isDigit : Char → Bool) (cs : List Char) : Option (Toml × List Char) := do
    let (digits, rest) ← grouped? isDigit cs
    some (← word64? (inBase base digits), rest)

/-- The digits after a point, or none where no point with a digit follows. -/
def fraction? : Scanner (List Char)
  | '.' :: rest => grouped? Numeral.isDigit rest
  | _ => none

/-- The exponent after its mark. -/
def exponent? : Scanner Int
  | c :: rest =>
    if c == 'e' || c == 'E' then do
      let (sign, rest) := sign? rest
      let (digits, rest) ← grouped? Numeral.isDigit rest
      let n : Int := Numeral.value digits
      some (if sign == some true then -n else n, rest)
    else none
  | [] => none

/-- Whether a number rounds to a finite double. Exponents far out of range are told apart without
computing the power. -/
def isFinite (digits : List Char) (exponent : Int) : Bool :=
  let n := Numeral.value digits
  let magnitude := exponent + (Numeral.digits n).length
  n == 0 || magnitude < -400 ||
    (magnitude < 400 && Binary.double.ofDecimal n exponent < Binary.double.infinity)

/-- A float has a fraction, an exponent, or both, or is a word. -/
def float? : Scanner Toml := fun cs =>
  let (sign, start) := sign? cs
  match start with
  | 'i' :: 'n' :: 'f' :: rest => some (.float ['i', 'n', 'f'], rest)
  | 'n' :: 'a' :: 'n' :: rest => some (.float ['n', 'a', 'n'], rest)
  | _ => do
    let (whole, rest) ← decimalDigits? start
    let (fraction, afterFraction) := (fraction? rest).getD ([], rest)
    let (exponent, after) := (exponent? afterFraction).getD (0, afterFraction)
    if after.length == rest.length then none
    else if sign == some true || isFinite (whole ++ fraction) (exponent - fraction.length) then
      some (.float (cs.take (cs.length - after.length)), after)
    else none

/-- Exactly `n` digits with a value in the range. -/
def fixed? (n low high : Nat) : Scanner Nat := fun cs =>
  let digits := cs.take n
  let value := Numeral.value digits
  if digits.length == n && digits.all Numeral.isDigit && low ≤ value && value ≤ high then
    some (value, cs.drop n)
  else none

def char? (c : Char) : List Char → Option (List Char)
  | d :: rest => if d == c then some rest else none
  | [] => none

def daysIn (year month : Nat) : Nat :=
  if month == 2 then
    if year % 4 == 0 && (year % 100 != 0 || year % 400 == 0) then 29 else 28
  else if month == 4 || month == 6 || month == 9 || month == 11 then 30
  else 31

/-- The rest after a date of the calendar. -/
def date? (cs : List Char) : Option (List Char) := do
  let (year, cs) ← fixed? 4 0 9999 cs
  let cs ← char? '-' cs
  let (month, cs) ← fixed? 2 1 12 cs
  let cs ← char? '-' cs
  let (day, cs) ← fixed? 2 1 31 cs
  if day ≤ daysIn year month then some cs else none

/-- The rest after a time of day; the sixtieth second of a minute may follow the fifty-ninth. -/
def time? (cs : List Char) : Option (List Char) := do
  let (_, cs) ← fixed? 2 0 23 cs
  let cs ← char? ':' cs
  let (_, cs) ← fixed? 2 0 59 cs
  let cs ← char? ':' cs
  let (_, cs) ← fixed? 2 0 60 cs
  match cs with
  | '.' :: rest =>
    let (digits, after) := rest.span Numeral.isDigit
    if digits.isEmpty then none else some after
  | cs => some cs

/-- The rest after an offset from universal time. -/
def offset? : List Char → Option (List Char)
  | 'Z' :: rest => some rest
  | 'z' :: rest => some rest
  | c :: rest =>
    if c == '+' || c == '-' then do
      let (_, rest) ← fixed? 2 0 23 rest
      let rest ← char? ':' rest
      let (_, rest) ← fixed? 2 0 59 rest
      some rest
    else none
  | [] => none

/-- A date with or without a time, or a time alone; an offset needs both. -/
def moment? : Scanner Toml := fun cs => do
  let rest ← match date? cs with
    | none => time? cs
    | some (c :: rest) =>
      if c == 'T' || c == 't' || c == ' ' then
        match time? rest with
        | some rest => some ((offset? rest).getD rest)
        | none => some (c :: rest)
      else some (c :: rest)
    | some [] => some []
  some (.moment (cs.take (cs.length - rest.length)), rest)

def bool? : Scanner Toml
  | 't' :: 'r' :: 'u' :: 'e' :: rest => some (.bool true, rest)
  | 'f' :: 'a' :: 'l' :: 's' :: 'e' :: rest => some (.bool false, rest)
  | _ => none

/-- A value without parts. -/
def scalar? : Scanner Toml := fun cs =>
  match cs with
  | '"' :: _ | '\'' :: _ => (string? cs).map fun (s, rest) => (.string s, rest)
  | 't' :: _ | 'f' :: _ => bool? cs
  | _ => (moment? cs).orElse fun _ => (float? cs).orElse fun _ => integer? cs

end SampleStream.Toml
