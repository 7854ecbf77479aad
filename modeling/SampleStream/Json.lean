import SampleStream.Binary
import SampleStream.Text.Numeral

/-!
# JSON values

Values as they stand in a text: members keep their order and their repetitions, numbers keep their
digits. A string whose escapes name half of a surrogate pair has no content.
-/

namespace SampleStream

namespace Json

/-- A number by its digits before and after the point and its exponent of ten. It is integral when
neither point nor exponent was written. -/
structure Number where
  negative : Bool
  whole : List Char
  fraction : List Char
  exponent : Int
  integral : Bool
deriving DecidableEq, Repr

namespace Number

def ofNat (n : Nat) : Number :=
  ⟨false, Numeral.digits n, [], 0, true⟩

/-- The natural that an integral number without a sign stands for. -/
def nat? (n : Number) : Option Nat :=
  if n.integral && !n.negative then some (Numeral.value n.whole) else none

/-- The value of the leading digits that fit a 64-bit word, and how many digits follow them. -/
def leading (value : Nat) : List Char → Nat × Nat
  | [] => (value, 0)
  | c :: cs =>
    let longer := 10 * value + Numeral.digitValue c
    if longer < UInt64.size then leading longer cs else (value, cs.length + 1)

/-- A double-precision word times a power of ten, in steps of at most 308 orders of magnitude; none when
it leaves the finite range. -/
def scaled (word : Nat) (exponent : Int) : Nat → Option Nat
  | 0 => some 0
  | fuel + 1 =>
    let power (n : Nat) := Binary.double.ofDecimal 1 n
    if exponent.natAbs ≤ 308 then
      if 0 ≤ exponent then
        let product := Binary.double.mul word (power exponent.natAbs)
        if product < Binary.double.infinity then some product else none
      else some (Binary.double.div word (power exponent.natAbs))
    else if word = 0 then some 0
    else if 0 ≤ exponent then none
    else scaled (Binary.double.div word (power 308)) (exponent + 308) fuel

/-- The magnitude as a double-precision word: the leading digits and the power of ten are each rounded,
then their product. Three steps take every small number to zero. -/
def double? (n : Number) : Option Nat :=
  let (value, dropped) := leading 0 (n.whole ++ n.fraction)
  let exponent := n.exponent + dropped - n.fraction.length
  scaled (Binary.double.ofDecimal value 0) exponent 4

end Number

end Json

inductive Json
  | null
  | bool (b : Bool)
  | number (n : Json.Number)
  | string (content : Option String)
  | array (items : List Json)
  | object (members : List (Option String × Json))

namespace Json

def nat (n : Nat) : Json :=
  .number (.ofNat n)

def text (s : String) : Json :=
  .string (some s)

/-- The natural below `bound` that the value is. -/
def natBelow? (bound : Nat) : Json → Option Nat
  | .number n => n.nat?.filter (· < bound)
  | _ => none

mutual
/-- Whether every string has content, every number is finite, and arrays and objects nest at most
`room` deep. -/
def sound (room : Nat) : Json → Bool
  | .number n => n.double?.isSome
  | .string content => content.isSome
  | .array items => 0 < room && soundAll (room - 1) items
  | .object members => 0 < room && soundMembers (room - 1) members
  | _ => true

def soundAll (room : Nat) : List Json → Bool
  | [] => true
  | j :: js => sound room j && soundAll room js

def soundMembers (room : Nat) : List (Option String × Json) → Bool
  | [] => true
  | (key, j) :: js => key.isSome && sound room j && soundMembers room js
end

/-- The values of a record's fields. An object gives each by name, at most once, and its other members
are passed over; an array gives them in order and may end early. -/
def fields? (names : List String) : Json → Option (List (Option Json))
  | .object members =>
    if members.all (·.1.isSome) then
      names.mapM fun name =>
        match members.filter (·.1 == some name) with
        | [] => some none
        | [(_, value)] => some (some value)
        | _ => none
    else none
  | .array items =>
    if items.length ≤ names.length then
      some (items.map some ++ List.replicate (names.length - items.length) none)
    else none
  | _ => none

end Json

end SampleStream
