/-!
# Binary floating-point words

A format is told by the width of its fraction, the exponent of its smallest step and the word of its
infinity. Words of non-negative numbers are ordered like the numbers, and every finite one is a whole
number of smallest steps, so exact arithmetic on naturals is all that rounding needs.
-/

namespace SampleStream.Binary

/-- A binary interchange format, without its sign bit. -/
structure Format where
  /-- Bits below the leading one of a normal number. -/
  fraction : Nat
  /-- The smallest positive number is two to the minus this. -/
  depth : Nat
  /-- The word of infinity; the finite words are those below it. -/
  infinity : Nat

def single : Format := ⟨23, 149, 0x7f800000⟩

def double : Format := ⟨52, 1074, 0x7ff0000000000000⟩

/-- The quotient rounded to the nearest natural, a half going to the even neighbour. -/
def roundHalfEven (num den : Nat) : Nat :=
  let q := num / den
  let r := num % den
  if 2 * r < den then q else if den < 2 * r then q + 1 else q + q % 2

namespace Format

/-- The number of fractions, and the word of the smallest normal number. -/
def fractions (f : Format) : Nat :=
  Nat.pow 2 f.fraction

/-- How many smallest steps one is. -/
def one (f : Format) : Nat :=
  Nat.pow 2 f.depth

/-- How many smallest steps the number of this word is. -/
def steps (f : Format) (word : Nat) : Nat :=
  if word < f.fractions then word
  else (f.fractions + word % f.fractions) * Nat.pow 2 (word / f.fractions - 1)

/-- The word nearest to `num / den` smallest steps, ties to the even word; infinity from halfway past
the largest finite number. -/
def nearest (f : Format) (num den : Nat) : Nat :=
  let e := (num / den).log2 - f.fraction
  min f.infinity (e * f.fractions + roundHalfEven num (den * Nat.pow 2 e))

/-- The word nearest to `digits * 10 ^ exponent`. -/
def ofDecimal (f : Format) (digits : Nat) (exponent : Int) : Nat :=
  match exponent with
  | .ofNat n => f.nearest (digits * Nat.pow 10 n * f.one) 1
  | .negSucc n => f.nearest (digits * f.one) (Nat.pow 10 (n + 1))

/-- The product of two words' numbers, rounded. -/
def mul (f : Format) (a b : Nat) : Nat :=
  f.nearest (f.steps a * f.steps b) f.one

/-- The quotient of two words' numbers, rounded. -/
def div (f : Format) (a b : Nat) : Nat :=
  f.nearest (f.steps a * f.one) (f.steps b)

end Format

/-- The single-precision word nearest to the number of a double-precision word. -/
def narrow (word : Nat) : Nat :=
  single.nearest (double.steps word) (Nat.pow 2 (double.depth - single.depth))

end SampleStream.Binary
