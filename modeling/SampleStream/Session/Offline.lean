import SampleStream.Session.Controller
import SampleStream.Session.Processor
import SampleStream.Session.Worker

/-!
# Offline rendering

A load that is played for a number of quanta, with the worker serving requests between them as it would
on a thread of its own. Which quanta are silent before the module is adopted depends on the threads; what
is rendered after that does not.
-/

namespace SampleStream.Session

universe u v

variable {α : Type v} {σ : Type u} [CompiledModule σ]

/-- The worker's turn. One that waits for room leaves everything as it is. -/
def workerTurn (load : α → Except LoadError σ) (s : Session α σ) : Session α σ :=
  match s.runPending load with
  | some (_, s) => s
  | none => s

/-- Sends a load, and gives the processor and the worker a turn each. Nothing fills the quantum of that
turn, so it needs no channels. -/
def bring (load : α → Except LoadError σ) (source : α) (s : Session α σ) :
    Except ProtocolError Unit × Session α σ :=
  match s.load source with
  | (.error e, s) => (.error e, s)
  | (.ok _, s) =>
    match ((s.process []).2.workerTurn load).tryReady with
    | (.error e, s) => (.error e, s)
    | (.ok _, s) => (.ok (), s)

/-- Renders the first quantum of a module that has been brought, and waits for its acknowledgment. One
that does not come is missed after so many microseconds. -/
def opening (channels : List (List Sample)) (microseconds : Nat) (s : Session α σ) :
    Except ProtocolError (List (List Sample)) × Session α σ :=
  let (filled, s) := s.process channels
  match s.waitReady (fun _ => true) microseconds with
  | (.error e, s) => (.error e, s)
  | (.ok (), s) => (.ok filled, s)

/-- Renders so many more quanta, and keeps them all. -/
def continued (channels : List (List Sample)) : Nat → Session α σ →
    List (List (List Sample)) × Session α σ
  | 0, s => ([], s)
  | n + 1, s =>
    let (filled, s) := s.process channels
    let (rest, s) := continued channels n s
    (filled :: rest, s)

/-- Renders so many more quanta, and keeps none. -/
def advance (channels : List (List Sample)) : Nat → Session α σ → Session α σ
  | 0, s => s
  | n + 1, s => advance channels n (s.process channels).2

theorem continued_snd (channels : List (List Sample)) (n : Nat) (s : Session α σ) :
    (s.continued channels n).2 = s.advance channels n := by
  induction n generalizing s with
  | zero => rfl
  | succ n ih => exact ih _

/-- Plays a load for `quanta` quanta, the first one included. -/
def play (load : α → Except LoadError σ) (source : α) (channels : List (List Sample)) (quanta : Nat)
    (microseconds : Nat) (s : Session α σ) :
    Except ProtocolError (List (List (List Sample))) × Session α σ :=
  match s.bring load source with
  | (.error e, s) => (.error e, s)
  | (.ok (), s) =>
    match s.opening channels microseconds with
    | (.error e, s) => (.error e, s)
    | (.ok first, s) =>
      let (rest, s) := s.continued channels (quanta - 1)
      (.ok (first :: rest), s)

/-- The processor hangs up, and the worker serves what is left and goes too. -/
def finish (load : α → Except LoadError σ) (s : Session α σ) : Session α σ :=
  (s.dropProcessor.workerTurn load).dropWorker

end SampleStream.Session
