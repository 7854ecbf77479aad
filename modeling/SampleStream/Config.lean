/-!
# Configuration

Sizes and bounds of a session: frames in a quantum, output channels, rate, queue capacities and the
priority of the render thread. A setting that is not given has its default.
-/

namespace SampleStream

structure Config where
  /-- Frames in a render quantum. -/
  quantumSize : UInt64 := 128
  /-- Output channels; all get the same samples. -/
  channels : UInt64 := 2
  sampleRate : UInt32 := 48000
  /-- Bound of the queue of loads. -/
  controlCapacity : UInt64 := 16
  /-- Bound of the two queues between the processor and the loader. -/
  loaderCapacity : UInt64 := 16
  /-- Bound of the queues of acknowledgments and of failure reports. -/
  eventCapacity : UInt64 := 16
  renderPriority : UInt8 := 80
deriving DecidableEq, Repr, Inhabited

/-- Bytes of a sample in the memory of a module. -/
def sampleSize : Nat := 4

namespace Config

/-- Why a configuration is refused. -/
inductive Flaw
  | noQuantum
  | noChannels
  | noCapacity
  | priorityTooHigh
deriving DecidableEq, Repr

def Flaw.message : Flaw → String
  | .noQuantum => "quantum_size must be positive"
  | .noChannels => "channels must be positive"
  | .noCapacity => "queue capacities must be positive"
  | .priorityTooHigh => "render_priority must be within 0..=99"

/-- The first flaw of a configuration, in the order of the settings. -/
def flaw? (c : Config) : Option Flaw :=
  if c.quantumSize = 0 then some .noQuantum
  else if c.channels = 0 then some .noChannels
  else if c.controlCapacity = 0 ∨ c.loaderCapacity = 0 ∨ c.eventCapacity = 0 then some .noCapacity
  else if 99 < c.renderPriority then some .priorityTooHigh
  else none

def validate (c : Config) : Except Flaw Config :=
  match c.flaw? with
  | some flaw => .error flaw
  | none => .ok c

/-- Bytes of one quantum in the memory of a module, if a 64-bit word holds the product. -/
def scratchBytes? (c : Config) : Option Nat :=
  let bytes := c.quantumSize.toNat * sampleSize
  if bytes < UInt64.size then some bytes else none

/-- The names of the settings, in order. -/
def settings : List String :=
  ["quantum_size", "channels", "sample_rate", "control_capacity", "loader_capacity",
   "event_capacity", "render_priority"]

/-- The bounds of the settings, in order. -/
def bounds : List Nat :=
  [UInt64.size, UInt64.size, UInt32.size, UInt64.size, UInt64.size, UInt64.size, UInt8.size]

/-- The values of the settings, in order. -/
def values (c : Config) : List Nat :=
  [c.quantumSize.toNat, c.channels.toNat, c.sampleRate.toNat, c.controlCapacity.toNat,
   c.loaderCapacity.toNat, c.eventCapacity.toNat, c.renderPriority.toNat]

/-- The configuration with these settings, in order and within their bounds. -/
def ofValues (c : Config) : List Nat → Config
  | [quantum, channels, rate, control, loader, event, priority] =>
    { quantumSize := .ofNat quantum, channels := .ofNat channels, sampleRate := .ofNat rate,
      controlCapacity := .ofNat control, loaderCapacity := .ofNat loader,
      eventCapacity := .ofNat event, renderPriority := .ofNat priority }
  | _ => c

theorem ofValues_values (c d : Config) : c.ofValues d.values = d := by
  simp [ofValues, values]

/-- Writes the settings that are given over those of `c`. -/
def override (c : Config) (given : List (Option Nat)) : Config :=
  c.ofValues (List.zipWith (fun new old => new.getD old) given c.values)

end Config

end SampleStream
