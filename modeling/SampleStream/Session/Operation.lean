import SampleStream.Session.Controller
import SampleStream.Session.Processor
import SampleStream.Session.Worker

/-!
# Operations on a session

Everything that can be done with a session, one operation at a time, and what each answers. An operation
that needs a part already dropped does nothing.
-/

namespace SampleStream

universe u v

inductive Operation (α : Type v)
  | load (source : α)
  | process (channels : List (List Sample))
  | status
  | runPending
  /-- Serves requests until the processor hangs up; only after it has gone. -/
  | serve
  | tryReady
  | waitReady (microseconds : Nat)
  | dropController
  | dropProcessor
  | dropWorker

inductive Answer
  | sent (generation : Nat)
  | rendered (channels : List (List Sample))
  | status
  | handled (count : Nat)
  | ready (acknowledged : Bool)
  | done
  | refused (error : ProtocolError)
  /-- The operation needs a part that is gone. -/
  | missing
  /-- The worker waits for room that nobody makes. -/
  | stuck
deriving DecidableEq, Repr

namespace Session

variable {α : Type v} {σ : Type u} [CompiledModule σ]

def answered {β : Type} (answer : β → Answer) : Except ProtocolError β × Session α σ →
    Answer × Session α σ
  | (.ok b, s) => (answer b, s)
  | (.error e, s) => (.refused e, s)

omit [CompiledModule σ] in
theorem answered_snd {β : Type} (answer : β → Answer) (result : Except ProtocolError β × Session α σ) :
    (answered answer result).2 = result.2 := by
  obtain ⟨_ | _, _⟩ := result <;> rfl

def served (answer : Nat → Answer) (s : Session α σ) : Option (Nat × Session α σ) →
    Answer × Session α σ
  | some (count, s) => (answer count, s)
  | none => (.stuck, s)

/-- One operation, atomic as far as the other parts can see. A wait takes an acknowledgment first when
there is a choice. -/
def step (load : α → Except LoadError σ) (s : Session α σ) : Operation α → Answer × Session α σ
  | .load source => if s.controllerAlive then answered .sent (s.load source) else (.missing, s)
  | .process channels =>
    if s.processorAlive then
      let (filled, s) := s.process channels
      (.rendered filled, s)
    else (.missing, s)
  | .status => if s.processorAlive then (.status, s) else (.missing, s)
  | .runPending =>
    if s.workerAlive then served .handled s (s.runPending load) else (.missing, s)
  | .serve =>
    if s.workerAlive && !s.processorAlive then served (fun _ => .done) s (s.runPending load)
    else (.missing, s)
  | .tryReady => if s.controllerAlive then answered .ready s.tryReady else (.missing, s)
  | .waitReady microseconds =>
    if s.controllerAlive then
      answered (fun _ => .ready true) (s.waitReady (fun _ => true) microseconds)
    else (.missing, s)
  | .dropController => if s.controllerAlive then (.done, s.dropController) else (.missing, s)
  | .dropProcessor => if s.processorAlive then (.done, s.dropProcessor) else (.missing, s)
  | .dropWorker => if s.workerAlive then (.done, s.dropWorker) else (.missing, s)

/-- The state after operations in order. -/
def after (load : α → Except LoadError σ) (s : Session α σ) (ops : List (Operation α)) : Session α σ :=
  ops.foldl (fun s op => (s.step load op).2) s

/-- The answers to operations in order, each with the state before and after it. -/
def run (load : α → Except LoadError σ) (s : Session α σ) :
    List (Operation α) → List (Answer × Session α σ × Session α σ)
  | [] => []
  | op :: ops =>
    let (answer, next) := s.step load op
    (answer, s, next) :: next.run load ops

end Session

end SampleStream
