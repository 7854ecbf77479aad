import SampleStream.Session.State

/-!
# The processor

One call renders one quantum. Messages are looked at first, so a step is never interrupted: loads park
the active module and go on to the worker, outcomes bring modules to adopt. Then the active module is
stepped and its samples are copied into every channel; a quantum that fails is silent.
-/

namespace SampleStream.Session

universe u v

variable {α : Type v} {σ : Type u} [CompiledModule σ]

/-- Puts a module into the active slot; one that was there is dropped. -/
def install (a : Active σ) (s : Session α σ) : Session α σ :=
  let s := s.dropActive s.processor.active
  { s with processor := { s.processor with active := some a, state := .ready } }

/-- Falls back to the parked module, without a new acknowledgment. -/
def restoreParked (s : Session α σ) : Session α σ :=
  match s.processor.parked with
  | some a => { s with processor := { s.processor with parked := none } }.install a
  | none => { s with processor := { s.processor with state := .unloaded } }

/-- Parks the active module. Only one is parked at a time, the last that was ready. -/
def park (s : Session α σ) : Session α σ :=
  match s.processor.active with
  | none => s
  | some a =>
    let stale := s.processor.parked
    let s := { s with processor := { s.processor with active := none, parked := some a } }
    match stale with
    | some p => s.retire p.module
    | none => s

/-- Takes a load on. One that the worker's queue refuses is dropped, and the parked module is back. -/
def receive (s : Session α σ) (source : α) : Session α σ :=
  let s := { s with processor := { s.processor with generation := s.processor.generation + 1 } }.park
  let s := { s with processor := { s.processor with state := .loading, ackPending := false } }
  match s.request? (.instantiate s.processor.generation source) with
  | some s => s
  | none =>
    let stats := { s.processor.stats with droppedLoads := s.processor.stats.droppedLoads + 1 }
    { s with processor := { s.processor with stats } }.restoreParked

/-- Retires the parked module, if there is one. -/
def retireParked (s : Session α σ) : Session α σ :=
  match s.processor.parked with
  | some p => { s with processor := { s.processor with parked := none } }.retire p.module
  | none => s

/-- Takes an outcome on. Only that of the latest load counts; a module of an earlier one is retired. -/
def adopt (s : Session α σ) (o : LoadOutcome σ) : Session α σ :=
  let current := o.generation = s.processor.generation ∧ s.processor.state = .loading
  match o with
  | .loaded p =>
    if current then
      let s := s.retireParked.install p.activate
      { s with processor := { s.processor with ackPending := true } }
    else s.retire p.module
  | .failed _ => if current then s.restoreParked else s

/-- Acknowledges the adoption, if that is still to be done. It stays to be done while the queue is full,
and is done with when nobody is there to see it. -/
def acknowledge (s : Session α σ) : Session α σ :=
  if s.processor.ackPending then
    let acknowledged := { s with processor := { s.processor with ackPending := false } }
    if s.controllerAlive then
      match s.acks.push? () with
      | some acks => { acknowledged with acks }
      | none => s
    else acknowledged
  else s

/-- The samples of the quantum at the front of a channel of the same length, zeros behind them. -/
def fillChannel (memory : List UInt8) (scratch : Pointer) (quantum : Nat) (channel : List Sample) :
    Except ModuleError (List Sample) := do
  let n := min quantum channel.length
  let samples ← readSamples memory scratch n
  return samples ++ List.replicate (channel.length - n) .zero

def silence (channels : List (List Sample)) : List (List Sample) :=
  channels.map fun channel => List.replicate channel.length .zero

/-- Steps the active module from its continuation and decodes its memory into every channel; none when
any of that fails. The continuation moves on as soon as the step has succeeded. -/
def render (channels : List (List Sample)) (s : Session α σ) :
    Option (List (List Sample)) × Session α σ :=
  match s.processor.active with
  | none => (none, s)
  | some a =>
    let s := s.note (.stepped a.module.id a.current s.quantum a.scratch)
    let (ending, state) := CompiledModule.step a.module.state a.current s.quantum a.scratch
    let stepped (current : Handle) : Session α σ :=
      let active := some { a with module := { a.module with state }, current }
      { s with processor := { s.processor with active } }
    match ending with
    | .done next =>
      let filled := channels.mapM (fillChannel (CompiledModule.memory state) a.scratch s.quantum)
      (filled.toOption, stepped next)
    | _ => (none, stepped a.current)

/-- Counts with a change to the counters. -/
def count (change : RenderStats → RenderStats) (s : Session α σ) : Session α σ :=
  { s with processor := { s.processor with stats := change s.processor.stats } }

/-- Takes on all loads, and then all outcomes, that have arrived. -/
def drain (s : Session α σ) : Session α σ :=
  let s := s.control.items.foldl receive { s with control := s.control.clear }
  s.outcomes.items.foldl adopt { s with outcomes := s.outcomes.clear }

/-- Renders one quantum into channels of any lengths. Their previous contents do not matter. -/
def process (channels : List (List Sample)) (s : Session α σ) :
    List (List Sample) × Session α σ :=
  let s := (s.count fun c => { c with quanta := c.quanta + 1 }).drain
  if s.processor.state = .ready then
    match s.acknowledge.render channels with
    | (some filled, s) => (filled, s)
    | (none, s) => (silence channels, s.count fun c => { c with failed := c.failed + 1 })
  else (silence channels, s.count fun c => { c with silent := c.silent + 1 })

end SampleStream.Session
