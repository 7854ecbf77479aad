import SampleStream.Config
import SampleStream.Module
import SampleStream.Render
import SampleStream.Session.Queue

/-!
# Sessions

A session joins three parts by bounded queues. The controller sends loads and looks for readiness, the
processor renders a quantum at a time, and the worker makes modules and drops them. Loads travel from
the controller through the processor to the worker; modules travel back to the processor and, when they
are superseded, to the worker again. Each part may be dropped at any time. Whatever is done with a module
is recorded.
-/

namespace SampleStream

universe u v

/-- A module with the number of its load. Zero is the number of modules from elsewhere. -/
structure Loaded (σ : Type u) where
  id : Nat
  state : σ

/-- What is done with a module. -/
inductive Event
  | alloc (id size : Nat)
  | entered (id : Nat)
  | stepped (id : Nat) (handle : Handle) (quantum : Nat) (out : Pointer)
  | dropped (id : Nat)
deriving DecidableEq, Repr

namespace Event

/-- The number of the module that it is done with. -/
def module : Event → Nat
  | .alloc id _ => id
  | .entered id => id
  | .stepped id _ _ _ => id
  | .dropped id => id

def text : Event → String
  | .alloc id size => "alloc " ++ toString id ++ " " ++ toString size
  | .entered id => "entry " ++ toString id
  | .stepped id handle quantum out =>
    "step " ++ toString id ++ " " ++ toString handle.id.toNat ++ " " ++ toString quantum
      ++ " " ++ toString out.toNat
  | .dropped id => "drop " ++ toString id

end Event

/-- A module with its buffer and first continuation, ready to be adopted as it is. -/
structure Prepared (σ : Type u) where
  generation : Nat
  module : Loaded σ
  scratch : Pointer
  entry : Handle

/-- An adopted module and the continuation that it is stepped from next. -/
structure Active (σ : Type u) where
  module : Loaded σ
  scratch : Pointer
  current : Handle

def Prepared.activate {σ : Type u} (p : Prepared σ) : Active σ :=
  ⟨p.module, p.scratch, p.entry⟩

/-- From the processor to the worker. -/
inductive Request (α : Type v) (σ : Type u)
  | instantiate (generation : Nat) (source : α)
  /-- A superseded module, to be dropped by the worker. -/
  | retire (m : Loaded σ)

/-- From the worker to the processor. -/
inductive LoadOutcome (σ : Type u)
  | loaded (p : Prepared σ)
  | failed (generation : Nat)

def LoadOutcome.generation {σ : Type u} : LoadOutcome σ → Nat
  | .loaded p => p.generation
  | .failed generation => generation

/-- From the worker to the controller: a load failed, and why. -/
structure LoadReport where
  generation : Nat
  error : LoadError
deriving DecidableEq, Repr

/-- The slot of the processor. The active module is stepped every quantum; while a newer load is on its
way the last active one is parked. -/
structure Processor (σ : Type u) where
  state : RenderState := .unloaded
  active : Option (Active σ) := none
  parked : Option (Active σ) := none
  /-- The number of the last load received. -/
  generation : Nat := 0
  /-- Whether the adoption of the active module is still to be acknowledged. -/
  ackPending : Bool := false
  stats : RenderStats := {}

structure Session (α : Type v) (σ : Type u) where
  /-- Frames in a quantum. -/
  quantum : Nat
  /-- Bytes of the buffer that every module is asked for. -/
  scratchBytes : Nat
  controllerAlive : Bool := true
  processorAlive : Bool := true
  workerAlive : Bool := true
  /-- How many loads the controller sent. -/
  sent : Nat := 0
  processor : Processor σ := {}
  /-- Loads from the controller to the processor. -/
  control : Queue α
  requests : Queue (Request α σ)
  outcomes : Queue (LoadOutcome σ)
  /-- Acknowledgments from the processor to the controller. -/
  acks : Queue Unit
  reports : Queue LoadReport
  /-- How many loads the worker has tried. -/
  loads : Nat := 0
  /-- What was done with modules, the newest first. -/
  trace : List Event := []

namespace Session

variable {α : Type v} {σ : Type u}

/-- Bytes of the places in a queue of reports. -/
def reportBytes (capacity : Nat) : Nat :=
  64 * capacity

/-- Bytes of the places in each queue of a session: loads, requests, outcomes, acknowledgments and reports. -/
def queueBytes (config : Config) : List Nat :=
  [32 * config.controlCapacity.toNat, 40 * config.loaderCapacity.toNat, 48 * config.loaderCapacity.toNat,
    8 * config.eventCapacity.toNat, reportBytes config.eventCapacity.toNat]

/-- Whether there is room for the queues of a session. -/
def hasRoom (config : Config) : Bool :=
  (queueBytes config).all (· < Queue.maxBytes)

/-- A new session; none when the size of its buffers exceeds a 64-bit word, or its queues have no room. -/
def link? (config : Config) : Option (Session α σ) :=
  match hasRoom config, config.scratchBytes? with
  | true, some scratchBytes => some {
      quantum := config.quantumSize.toNat
      scratchBytes
      control := .empty config.controlCapacity.toNat
      requests := .empty config.loaderCapacity.toNat
      outcomes := .empty config.loaderCapacity.toNat
      acks := .empty config.eventCapacity.toNat
      reports := .empty config.eventCapacity.toNat }
  | _, _ => none

def note (e : Event) (s : Session α σ) : Session α σ :=
  { s with trace := e :: s.trace }

/-- Everything done with modules, in order. -/
def log (s : Session α σ) : List Event :=
  s.trace.reverse

/-- What was done with the session's own modules since an earlier state. -/
def since (s earlier : Session α σ) : List Event :=
  ((s.trace.take (s.trace.length - earlier.trace.length)).reverse).filter (·.module != 0)

def dropModule (m : Loaded σ) (s : Session α σ) : Session α σ :=
  s.note (.dropped m.id)

/-- Drops the module in a slot, if there is one. -/
def dropActive (slot : Option (Active σ)) (s : Session α σ) : Session α σ :=
  match slot with
  | some a => s.dropModule a.module
  | none => s

/-- Puts a request into the worker's queue; none when that is full or the worker is gone. -/
def request? (r : Request α σ) (s : Session α σ) : Option (Session α σ) :=
  if s.workerAlive then (s.requests.push? r).map fun requests => { s with requests } else none

/-- Hands a module to the worker to be dropped there, or drops it at once. -/
def retire (m : Loaded σ) (s : Session α σ) : Session α σ :=
  match s.request? (.retire m) with
  | some s => s
  | none => s.dropModule m

/-- Drops the module that an outcome brings. -/
def dropOutcome (s : Session α σ) : LoadOutcome σ → Session α σ
  | .loaded p => s.dropModule p.module
  | .failed _ => s

/-- Drops the module that a request carries. -/
def dropRequest (s : Session α σ) : Request α σ → Session α σ
  | .retire m => s.dropModule m
  | .instantiate _ _ => s

/-- Lets go of the queues between the processor and the worker, and of the modules that they hold. A
queue lasts as long as one of its ends. -/
def dropQueues (s : Session α σ) : Session α σ :=
  let emptied := { s with requests := s.requests.clear, outcomes := s.outcomes.clear }
  s.outcomes.items.foldl dropOutcome (s.requests.items.foldl dropRequest emptied)

def dropController (s : Session α σ) : Session α σ :=
  { s with controllerAlive := false }

/-- The worker goes. Modules on their way stay in their queues while the processor is there. -/
def dropWorker (s : Session α σ) : Session α σ :=
  let gone := { s with workerAlive := false }
  if s.processorAlive then gone else gone.dropQueues

/-- The processor goes: the active module, then the parked one. Modules on their way stay in their
queues while the worker is there. -/
def dropProcessor (s : Session α σ) : Session α σ :=
  let slot := s.processor
  let gone := { s with
    processorAlive := false
    processor := { slot with active := none, parked := none } }
  let gone := (gone.dropActive slot.active).dropActive slot.parked
  if s.workerAlive then gone else gone.dropQueues

end Session

end SampleStream
