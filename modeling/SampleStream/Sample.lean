import SampleStream.Binary

/-!
# Samples

A sample is a single-precision word. Samples are told apart by their bits; `same` is the comparison of
their numbers. All arithmetic that has an exact result to round is done on whole numbers of smallest
steps.
-/

namespace SampleStream

structure Sample where
  bits : UInt32
deriving DecidableEq, Inhabited, Repr

namespace Sample

def zero : Sample := ⟨0⟩

/-- The sign bit. -/
def negative (s : Sample) : Bool :=
  0x80000000 ≤ s.bits

/-- The sign bit alone. -/
def signWord : Nat := 0x80000000

/-- The word without its sign bit. -/
def word (s : Sample) : Nat :=
  s.bits.toNat % signWord

def ofWord (negative : Bool) (word : Nat) : Sample :=
  ⟨UInt32.ofNat (if negative then signWord + word else word)⟩

def isFinite (s : Sample) : Bool :=
  s.word < Binary.single.infinity

def isNaN (s : Sample) : Bool :=
  Binary.single.infinity < s.word

def isZero (s : Sample) : Bool :=
  s.word == 0

def infinite (negative : Bool) : Sample :=
  ofWord negative Binary.single.infinity

def nan : Sample := ⟨0x7fc00000⟩

/-- Equality of numbers: the two zeros are equal and a NaN equals nothing. -/
def same (a b : Sample) : Bool :=
  !a.isNaN && (a == b || (a.isZero && b.isZero))

/-- The sample's magnitude in smallest steps. -/
def steps (s : Sample) : Nat :=
  Binary.single.steps s.word

/-- The sample nearest to a natural. -/
def ofNat (n : Nat) : Sample :=
  ofWord false (Binary.single.ofDecimal n 0)

def toFloat (s : Sample) : Float32 := Float32.ofBits s.bits

def ofFloat (x : Float32) : Sample := ⟨x.toBits⟩

instance : Add Sample := ⟨fun a b => ofFloat (a.toFloat + b.toFloat)⟩
instance : Mul Sample := ⟨fun a b => ofFloat (a.toFloat * b.toFloat)⟩
instance : Div Sample := ⟨fun a b => ofFloat (a.toFloat / b.toFloat)⟩

/-- The remainder of the division truncated toward zero; it is exact and has the sign of the dividend. -/
def rem (a b : Sample) : Sample :=
  if !a.isFinite || b.isNaN || b.isZero then nan
  else if !b.isFinite then a
  else ofWord a.negative (Binary.single.nearest (a.steps % b.steps) 1)

instance : Mod Sample := ⟨rem⟩

def sin (a : Sample) : Sample := ofFloat a.toFloat.sin

/-- The circle constant, 2π. -/
def tau : Sample := ⟨0x40c90fdb⟩

/-- The four bytes of the word, least significant first. -/
def toBytes (s : Sample) : List UInt8 :=
  [s.bits.toUInt8, (s.bits >>> 8).toUInt8, (s.bits >>> 16).toUInt8, (s.bits >>> 24).toUInt8]

def ofBytes (a b c d : UInt8) : Sample :=
  ⟨a.toUInt32 ||| b.toUInt32 <<< 8 ||| c.toUInt32 <<< 16 ||| d.toUInt32 <<< 24⟩

end Sample

end SampleStream
