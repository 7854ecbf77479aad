import SampleStream.Json.Reader
import SampleStream.Json.Writer
import SampleStream.Module.Source
import SampleStream.Sample.Text

/-!
# Built-in streams

Streams that need no compiler, and the texts that they are loaded from. A sample that is no finite number
is written as `null`, and `null` is not read back.
-/

namespace SampleStream

inductive Builtin
  | constant (value : Sample)
  | sine (frequency : Sample)
deriving DecidableEq, Repr

namespace Builtin

/-- The shortest decimal of a finite sample, the one with the even last digit where two are equally near. It is
positional with at least one digit after the point from `0.000001` up to `10 ^ 13`, otherwise with an exponent. -/
def sampleNumber (s : Sample) : Json.Number :=
  let d := s.decimal .even
  if s.isZero || (-6 ≤ d.magnitude && d.magnitude < 13) then
    let (whole, fraction) := d.parts
    ⟨s.negative, whole, if fraction.isEmpty then ['0'] else fraction, 0, false⟩
  else
    let digits := Numeral.digits d.digits
    ⟨s.negative, digits.take 1, digits.drop 1, d.magnitude, false⟩

def sampleJson (s : Sample) : Json :=
  if s.isFinite then .number (sampleNumber s) else .null

def toJson : Builtin → Json
  | .constant value => .object [(some "Constant", sampleJson value)]
  | .sine frequency => .object [(some "Sine", sampleJson frequency)]

def text (b : Builtin) : String :=
  b.toJson.compact

/-- The sample that a number is read as. An integral number of a 64-bit word is rounded once; any other is
read as a double-precision number, if it is in their range, and that is rounded again. -/
def sample? (n : Json.Number) : Option Sample :=
  let value := Numeral.value n.whole
  let largest := if n.negative then Nat.pow 2 63 else UInt64.size - 1
  if n.integral && value ≤ largest then some (.ofDecimal n.negative ⟨value, 0⟩)
  else n.double?.map fun word => .ofWord n.negative (Binary.narrow word)

def ofName? (name : String) (s : Sample) : Option Builtin :=
  if name = "Constant" then some (.constant s)
  else if name = "Sine" then some (.sine s)
  else none

/-- The stream that a text describes: an object of one member, its name the kind and its value the
sample. A `null` ends just in front of the closing brace. -/
def ofText (text : String) : Except LoadError Builtin :=
  match Json.ofText? text with
  | some (.object [(some name, .number n)], true) =>
    match sample? n with
    | none => .error (.malformed "number out of range")
    | some s =>
      match ofName? name s with
      | some b => .ok b
      | none => .error (.malformed "unknown stream")
  | some (.object [(some _, .null)], true) =>
    .error (.malformed ("invalid type: null, expected f32 at line 1 column "
      ++ toString (text.length - 1)))
  | _ => .error (.malformed "no stream")

/-- Loads a text; a sine has the given rate. -/
def load (sampleRate : UInt32) (text : String) : Except LoadError AnyModule :=
  match ofText text with
  | .ok (.constant value) => (Source.constant value).load
  | .ok (.sine frequency) => (Source.sine frequency sampleRate).load
  | .error e => .error e

end Builtin

end SampleStream
