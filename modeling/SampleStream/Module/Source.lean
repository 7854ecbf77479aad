import SampleStream.Module.Canned
import SampleStream.Module.Native

/-!
# Module sources

What a load describes, and the modules that come of it. A source may also describe a load that fails.
-/

namespace SampleStream

/-- A module of any of the kinds that a source describes. -/
inductive AnyModule
  | constant (m : NativeModule Constant)
  | sine (m : NativeModule Sine)
  | script (m : NativeModule Script)
  | canned (m : CannedModule)

namespace AnyModule

def memory : AnyModule → List UInt8
  | .constant m => CompiledModule.memory m
  | .sine m => CompiledModule.memory m
  | .script m => CompiledModule.memory m
  | .canned m => CompiledModule.memory m

def alloc (size : Nat) : AnyModule → Except ModuleError Pointer × AnyModule
  | .constant m => (CompiledModule.alloc m size).map id .constant
  | .sine m => (CompiledModule.alloc m size).map id .sine
  | .script m => (CompiledModule.alloc m size).map id .script
  | .canned m => (CompiledModule.alloc m size).map id .canned

def entry : AnyModule → Except ModuleError Handle × AnyModule
  | .constant m => (CompiledModule.entry m).map id .constant
  | .sine m => (CompiledModule.entry m).map id .sine
  | .script m => (CompiledModule.entry m).map id .script
  | .canned m => (CompiledModule.entry m).map id .canned

def step (handle : Handle) (quantum : Nat) (out : Pointer) : AnyModule → Ending Handle × AnyModule
  | .constant m => (CompiledModule.step m handle quantum out).map id .constant
  | .sine m => (CompiledModule.step m handle quantum out).map id .sine
  | .script m => (CompiledModule.step m handle quantum out).map id .script
  | .canned m => (CompiledModule.step m handle quantum out).map id .canned

end AnyModule

instance : CompiledModule AnyModule where
  memory := AnyModule.memory
  alloc m size := m.alloc size
  entry := AnyModule.entry
  step m handle quantum out := m.step handle quantum out

inductive Source
  | malformed (reason : String)
  | failing (error : ModuleError)
  | canned (m : CannedModule)
  | constant (value : Sample)
  | sine (frequency : Sample) (sampleRate : UInt32)
  | script (actions : List Script.Action)

/-- The module that a source describes. -/
def Source.load : Source → Except LoadError AnyModule
  | .malformed reason => .error (.malformed reason)
  | .failing error => .error (.module error)
  | .canned m => .ok (.canned m)
  | .constant value => .ok (.constant (.new ⟨value⟩))
  | .sine frequency sampleRate => .ok (.sine (.new (.new frequency sampleRate)))
  | .script actions => .ok (.script (.new ⟨actions⟩))

end SampleStream
