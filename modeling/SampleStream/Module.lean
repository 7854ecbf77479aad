import SampleStream.Config
import SampleStream.Sample
import SampleStream.Text.Numeral

/-!
# Compiled modules

What the runtime asks of a compiled stream. A module owns a flat memory; it is asked for a buffer and for
its first continuation once, and then stepped, each step writing a quantum of samples into the buffer and
naming the continuation that comes next.
-/

namespace SampleStream

universe u

/-- An offset into the memory of a module. -/
abbrev Pointer := UInt32

/-- The rest of a stream. Only the module that gave it out knows what it stands for. -/
structure Handle where
  id : UInt64
deriving DecidableEq, Repr, Inhabited

inductive ModuleError
  | missingExport (name : String)
  | badExport (name detail : String)
  | trap (reason : String)
  | outOfBounds (ptr : Pointer) (length memory : Nat)
  | alloc (size : Nat)
  | staleHandle (handle : Handle)
  | step (reason : String)
deriving DecidableEq, Repr

/-- The handle as it is shown. -/
def Handle.text (h : Handle) : String :=
  "StreamHandle(" ++ toString h.id.toNat ++ ")"

def ModuleError.message : ModuleError → String
  | .missingExport name => "module does not export `" ++ name ++ "`"
  | .badExport name detail => "export `" ++ name ++ "` has the wrong type: " ++ detail
  | .trap reason => "module trapped: " ++ reason
  | .outOfBounds ptr length memory =>
    toString length ++ " bytes at 0x" ++ String.ofList (Numeral.hexDigits ptr.toNat)
      ++ " fall outside a memory of " ++ toString memory ++ " bytes"
  | .alloc size => "cannot allocate " ++ toString size ++ " bytes"
  | .staleHandle handle => "continuation " ++ handle.text ++ " is not live in this module"
  | .step reason => "stream failed: " ++ reason

/-- Why a load gave no module. -/
inductive LoadError
  | malformed (reason : String)
  | module (error : ModuleError)
deriving DecidableEq, Repr

def LoadError.message : LoadError → String
  | .malformed reason => "malformed module: " ++ reason
  | .module error => error.message

/-- How a call ended that may fail or panic. -/
inductive Ending (α : Type)
  | done (result : α)
  | failed (error : ModuleError)
  | panicked
deriving DecidableEq, Repr

class CompiledModule (σ : Type u) where
  memory : σ → List UInt8
  /-- A buffer of so many bytes. -/
  alloc : σ → Nat → Except ModuleError Pointer × σ
  /-- The continuation that the stream starts from. -/
  entry : σ → Except ModuleError Handle × σ
  /-- Writes a quantum of samples at a pointer and gives the successor of a continuation. -/
  step : σ → Handle → Nat → Pointer → Ending Handle × σ

/-- The samples that bytes stand for, four bytes each; what is left over at the end stands for none. -/
def decodeSamples : List UInt8 → List Sample
  | a :: b :: c :: d :: rest => Sample.ofBytes a b c d :: decodeSamples rest
  | _ => []

def encodeSamples (samples : List Sample) : List UInt8 :=
  samples.flatMap Sample.toBytes

/-- The `count` samples that stand in a memory from a pointer on. -/
def readSamples (memory : List UInt8) (ptr : Pointer) (count : Nat) :
    Except ModuleError (List Sample) :=
  let length := count * sampleSize
  if ptr.toNat + length ≤ memory.length then
    .ok (decodeSamples ((memory.drop ptr.toNat).take length))
  else .error (.outOfBounds ptr length memory.length)

end SampleStream
