import SampleStream.Session.State

/-!
# The worker

Everything that may take long or allocate: loading a module, asking it for its buffer and its first
continuation, and dropping it. The worker waits for room when the queue of outcomes is full; that wait
has no end as long as nobody else runs, and is answered by `none`.
-/

namespace SampleStream.Session

universe u v

variable {α : Type v} {σ : Type u} [CompiledModule σ]

/-- Loads a source and prepares the module. A module that fails on the way is dropped. -/
def prepare (load : α → Except LoadError σ) (generation : Nat) (source : α) (s : Session α σ) :
    Except LoadError (Prepared σ) × Session α σ :=
  let id := s.loads + 1
  let s := { s with loads := id }
  match load source with
  | .error e => (.error e, s)
  | .ok state =>
    let s := s.note (.alloc id s.scratchBytes)
    match CompiledModule.alloc state s.scratchBytes with
    | (.error e, _) => (.error (.module e), s.note (.dropped id))
    | (.ok scratch, state) =>
      let s := s.note (.entered id)
      match CompiledModule.entry state with
      | (.error e, _) => (.error (.module e), s.note (.dropped id))
      | (.ok entry, state) => (.ok ⟨generation, ⟨id, state⟩, scratch, entry⟩, s)

/-- Tells the controller of a failure. A report that finds no room is lost. -/
def report (r : LoadReport) (s : Session α σ) : Session α σ :=
  if s.controllerAlive then
    match s.reports.push? r with
    | some reports => { s with reports }
    | none => s
  else s

/-- Hands an outcome to the processor, or drops it when the processor is gone. -/
def deliver (o : LoadOutcome σ) (s : Session α σ) : Option (Session α σ) :=
  if s.processorAlive then (s.outcomes.push? o).map fun outcomes => { s with outcomes }
  else some (s.dropOutcome o)

def handle (load : α → Except LoadError σ) (s : Session α σ) : Request α σ → Option (Session α σ)
  | .instantiate generation source =>
    match s.prepare load generation source with
    | (.ok p, s) => s.deliver (.loaded p)
    | (.error error, s) => (s.report ⟨generation, error⟩).deliver (.failed generation)
  | .retire m => some (s.dropModule m)

/-- Handles the request at the front of the queue. -/
def handleNext (load : α → Except LoadError σ) (s : Session α σ) : Option (Session α σ) :=
  match s.requests.items with
  | [] => some s
  | r :: rest => { s with requests := { s.requests with items := rest } }.handle load r

/-- Handles the requests that are queued, and says how many there were. -/
def runPending (load : α → Except LoadError σ) (s : Session α σ) : Option (Nat × Session α σ) := do
  let count := s.requests.items.length
  let s ← (List.range count).foldlM (fun s _ => s.handleNext load) s
  some (count, s)

end SampleStream.Session
