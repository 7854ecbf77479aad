import SampleStream.Decimal
import SampleStream.Sample

/-!
# The text of a sample

A sample is written with the fewest digits that read back to it, and where two such decimals are equally
near, with the greater one. Source literals are always positional and keep their point; shown values change
to an exponent when they are very large or very small.
-/

namespace SampleStream.Sample

/-- The reals that round to a positive finite sample: from halfway to the word below to halfway to the
word above, both included when the word is even. -/
def interval (s : Sample) : Interval where
  low := Binary.single.steps (s.word - 1) + s.steps
  middle := 2 * s.steps
  high := s.steps + Binary.single.steps (s.word + 1)
  scale := Nat.pow 2 (Binary.single.depth + 1)
  closed := s.word % 2 == 0

/-- The shortest decimal that reads back to the magnitude of a finite sample. Every sample lies between
`10 ^ (-46)` and `10 ^ 39`, and nine digits tell any two apart. -/
def decimal (s : Sample) (tie : Tie) : Decimal :=
  if s.isZero then ⟨0, 0⟩
  else s.interval.shortest tie (-46) 90 9 (Binary.single.depth + 1)

def signed (s : Sample) (text : List Char) : List Char :=
  if s.negative then '-' :: text else text

/-- The text of a sample that is no finite number. -/
def nonFinite (s : Sample) : List Char :=
  if s.isNaN then ['N', 'a', 'N'] else s.signed ['i', 'n', 'f']

/-- The form in which a sample stands in a source text: digits, a point, and the digits of the fraction
if there are any. Only finite samples have one. -/
def literal (s : Sample) : List Char :=
  if s.isFinite then
    let (whole, fraction) := (s.decimal .up).parts
    s.signed (whole ++ '.' :: fraction)
  else s.nonFinite

/-- The form in which a sample is shown: positional with at least one digit after the point from
`0.0001` up to `10 ^ 16`, otherwise with an exponent. -/
def shown (s : Sample) : List Char :=
  if s.isFinite then
    let d := s.decimal .up
    if s.isZero || (-4 ≤ d.magnitude && d.magnitude < 16) then
      let (whole, fraction) := d.parts
      s.signed (whole ++ '.' :: if fraction.isEmpty then ['0'] else fraction)
    else s.signed d.scientific
  else s.nonFinite

/-- The sample nearest to `digits * 10 ^ exponent`. Exponents that lead far out of the range of samples
are answered without computing the power. -/
def ofDecimal (negative : Bool) (d : Decimal) : Sample :=
  if d.digits = 0 then ofWord negative 0
  else if 39 ≤ d.magnitude then infinite negative
  else if d.magnitude < -46 then ofWord negative 0
  else ofWord negative (Binary.single.ofDecimal d.digits d.exponent)

/-- The sample nearest to `whole.fraction`. -/
def ofPoint (negative : Bool) (whole fraction : List Char) : Sample :=
  ofDecimal negative ⟨Numeral.value (whole ++ fraction), -fraction.length⟩

/-- Digits with an optional point, at least one digit in all, and what follows them. -/
def readDigits (cs : List Char) : Option (List Char × List Char × List Char) :=
  let (whole, rest) := cs.span Numeral.isDigit
  let (fraction, rest) := match rest with
    | '.' :: rest => rest.span Numeral.isDigit
    | rest => ([], rest)
  if whole.isEmpty && fraction.isEmpty then none else some (whole, fraction, rest)

def readSign : List Char → Bool × List Char
  | '-' :: cs => (true, cs)
  | '+' :: cs => (false, cs)
  | cs => (false, cs)

/-- An exponent mark with its number, or nothing. -/
def readExponent : List Char → Option Int
  | [] => some 0
  | c :: cs =>
    let (negative, ds) := readSign cs
    if (c == 'e' || c == 'E') && !ds.isEmpty && ds.all Numeral.isDigit then
      some (if negative then -(Numeral.value ds : Int) else Numeral.value ds)
    else none

/-- Reads a number: an optional sign, then `inf`, `infinity` or `nan` in any case, or digits with an
optional point and exponent. -/
def ofText? (text : String) : Option Sample :=
  let (negative, cs) := readSign text.toList
  let folded := String.ofList (cs.map Char.toLower)
  if folded == "inf" || folded == "infinity" then some (infinite negative)
  else if folded == "nan" then some nan
  else do
    let (whole, fraction, rest) ← readDigits cs
    let exponent ← readExponent rest
    some (ofDecimal negative ⟨Numeral.value (whole ++ fraction), exponent - fraction.length⟩)

end SampleStream.Sample
