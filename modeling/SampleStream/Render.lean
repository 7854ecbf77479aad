/-!
# Render state

What the owner of a processor can read at any time: where its module slot stands, and how many quanta
went which way.
-/

namespace SampleStream

inductive RenderState
  | unloaded
  /-- A load was received and its module is on the way. -/
  | loading
  /-- A module is adopted and stepped every quantum. -/
  | ready
deriving DecidableEq, Repr, Inhabited

def RenderState.name : RenderState → String
  | .unloaded => "Unloaded"
  | .loading => "Loading"
  | .ready => "Ready"

structure RenderStats where
  /-- All quanta. -/
  quanta : Nat := 0
  /-- Quanta of silence because no module was ready. -/
  silent : Nat := 0
  /-- Quanta of silence because the module failed. -/
  failed : Nat := 0
  /-- Loads that could not be handed to the loader. -/
  droppedLoads : Nat := 0
deriving DecidableEq, Repr, Inhabited

/-- Quanta that carry what a module rendered. -/
def RenderStats.rendered (s : RenderStats) : Nat :=
  s.quanta - s.silent

end SampleStream
