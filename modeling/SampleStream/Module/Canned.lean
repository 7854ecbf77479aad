import SampleStream.Stream

/-!
# Canned modules

A module whose every answer is prepared. It checks nothing, so it can answer in ways that no native
module does.
-/

namespace SampleStream

/-- One prepared step: the memory it leaves, if it changes it, and how it ends. Without a successor it
gives back the handle it was asked for. -/
structure CannedModule.Action where
  memory : Option (List UInt8)
  ending : Ending (Option Handle)
deriving Repr

structure CannedModule where
  memory : List UInt8
  alloc : Except ModuleError Pointer
  entry : Except ModuleError Handle
  /-- The steps in order; the last repeats. -/
  steps : List CannedModule.Action

namespace CannedModule

def step (m : CannedModule) (handle : Handle) : Ending Handle × CannedModule :=
  match takeTurn m.steps with
  | none => (.done handle, m)
  | some (a, rest) =>
    let m := { m with memory := a.memory.getD m.memory, steps := rest }
    match a.ending with
    | .panicked => (.panicked, m)
    | .failed e => (.failed e, m)
    | .done successor => (.done (successor.getD handle), m)

end CannedModule

instance : CompiledModule CannedModule where
  memory := CannedModule.memory
  alloc m _ := (m.alloc, m)
  entry m := (m.entry, m)
  step m handle _ _ := m.step handle

end SampleStream
