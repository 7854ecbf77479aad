import SampleStream.Text.Numeral

/-!
# Shortest decimals

A number that stands for an interval of reals is written with the fewest digits of any decimal in the
interval. The search runs over decimal grids from coarse to fine; on each grid only the two neighbours
of the number need a look.
-/

namespace SampleStream

/-- The number `digits * 10 ^ exponent`. -/
structure Decimal where
  digits : Nat
  exponent : Int
deriving DecidableEq, Repr

/-- A number with the reals that read back to it: `low / scale`, `middle / scale` and `high / scale`,
with the two ends among them exactly when `closed`. -/
structure Interval where
  low : Nat
  middle : Nat
  high : Nat
  scale : Nat
  closed : Bool

/-- Which neighbour on a grid is taken for a number halfway between the two. -/
inductive Tie
  | up
  | even
deriving DecidableEq, Repr

/-- Whether it is the lower one, of the digits given. -/
def Tie.takesLower : Tie → Nat → Bool
  | .up, _ => false
  | .even, digits => digits % 2 == 0

namespace Decimal

/-- Numerator and denominator of a power of ten. -/
def power : Int → Nat × Nat
  | .ofNat n => (Nat.pow 10 n, 1)
  | .negSucc n => (1, Nat.pow 10 (n + 1))

/-- The digits before and after the point. -/
def parts (d : Decimal) : List Char × List Char :=
  let ds := Numeral.digits d.digits
  match d.exponent with
  | .ofNat n => (ds ++ List.replicate n '0', [])
  | .negSucc n =>
    if n + 1 < ds.length then ds.splitAt (ds.length - (n + 1))
    else (['0'], List.replicate (n + 1 - ds.length) '0' ++ ds)

/-- The exponent of ten of the leading digit. -/
def magnitude (d : Decimal) : Int :=
  d.exponent + ((Numeral.digits d.digits).length - 1 : Nat)

/-- One digit before the point, and the exponent of ten after `e`. -/
def scientific (d : Decimal) : List Char :=
  let exponent := (toString d.magnitude).toList
  match Numeral.digits d.digits with
  | [] => []
  | [c] => c :: 'e' :: exponent
  | c :: cs => c :: '.' :: cs ++ 'e' :: exponent

/-- Takes trailing zeros into the exponent, at most `fuel` of them. -/
def strip (fuel : Nat) (d : Decimal) : Decimal :=
  match fuel with
  | 0 => d
  | fuel + 1 =>
    if d.digits % 10 = 0 ∧ d.digits ≠ 0 then strip fuel ⟨d.digits / 10, d.exponent + 1⟩ else d

end Decimal

namespace Interval

/-- Whether the decimal lies in the interval. -/
def holds (i : Interval) (d : Decimal) : Bool :=
  let (num, den) := Decimal.power d.exponent
  let x := d.digits * num * i.scale
  if i.closed then i.low * den ≤ x && x ≤ i.high * den
  else i.low * den < x && x < i.high * den

/-- The decimal of the grid of step `10 ^ exponent` that the interval holds and that is nearest to its
middle. -/
def onGrid (i : Interval) (tie : Tie) (exponent : Int) : Option Decimal :=
  let (num, den) := Decimal.power exponent
  let below : Decimal := ⟨i.middle * den / (num * i.scale), exponent⟩
  let above : Decimal := ⟨below.digits + 1, exponent⟩
  let twice := 2 * (i.middle * den)
  let halfway := (below.digits + above.digits) * (num * i.scale)
  match i.holds below, i.holds above with
  | true, true =>
    if twice < halfway || (twice == halfway && tie.takesLower below.digits) then some below
    else some above
  | true, false => some below
  | false, true => some above
  | false, false => none

/-- The least power of ten above the middle, searched upwards from the exponent `start`. -/
def leadingExponent (i : Interval) (start : Int) : Nat → Int
  | 0 => start
  | fuel + 1 =>
    let (num, den) := Decimal.power start
    if i.middle * den < num * i.scale then start else i.leadingExponent (start + 1) fuel

/-- The fewest digits, at most `most`, that lie in the interval, and of those the nearest to its
middle; the middle itself, whose denominator is `2 ^ depth`, where no so short one does. -/
def shortest (i : Interval) (tie : Tie) (start : Int) (span most depth : Nat) : Decimal :=
  let top := i.leadingExponent start span
  match (List.range most).findSome? fun (n : Nat) => i.onGrid tie (top - (n + 1 : Nat)) with
  | some d => d.strip most
  | none => ⟨i.middle * Nat.pow 5 depth, -depth⟩

end Interval

end SampleStream
