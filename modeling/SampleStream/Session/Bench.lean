import SampleStream.Outline
import SampleStream.Session.Worker

/-!
# The worker on a bench

A worker by itself: its queues are filled and emptied by hand, and both of its neighbours are there but
idle. Modules that are retired from outside have the number zero.
-/

namespace SampleStream

universe u v

def Handle.outline (h : Handle) : Outline :=
  .node "StreamHandle" [.nat h.id.toNat]

def LoadOutcome.outline {σ : Type u} : LoadOutcome σ → Outline
  | .loaded p => .node "Loaded" [.record "PreparedModule"
      [("generation", .nat p.generation), ("scratch", .nat p.scratch.toNat),
       ("entry", p.entry.outline)] true]
  | .failed generation => .record "Failed" [("generation", .nat generation)] false

namespace Bench

inductive Operation (α : Type v) (σ : Type u)
  | queue (r : Request α σ)
  | handle (r : Request α σ)
  | runPending
  /-- Takes all outcomes and drops them. -/
  | outcomes
  | reports

inductive Answer
  | queued (accepted : Bool)
  | handled (count : Nat)
  | done
  | outcomes (shown : List (Nat × Outline))
  | reports (taken : List LoadReport)
  | stuck

variable {α : Type v} {σ : Type u} [CompiledModule σ]

/-- Room for requests and for outcomes. -/
def room : Nat := 64

/-- A worker with nothing to do; none when its queue of reports has no room. -/
def start? (reportCapacity scratchBytes : Nat) : Option (Session α σ) :=
  if Session.reportBytes reportCapacity < Queue.maxBytes then some {
    quantum := 0
    scratchBytes
    control := .empty 0
    requests := .empty room
    outcomes := .empty room
    acks := .empty 0
    reports := .empty reportCapacity }
  else none

def step (load : α → Except LoadError σ) (s : Session α σ) : Operation α σ → Answer × Session α σ
  | .queue r =>
    match s.request? r with
    | some s => (.queued true, s)
    | none => (.queued false, s)
  | .handle r =>
    match s.handle load r with
    | some s => (.done, s)
    | none => (.stuck, s)
  | .runPending =>
    match s.runPending load with
    | some (count, s) => (.handled count, s)
    | none => (.stuck, s)
  | .outcomes =>
    let taken := s.outcomes.items
    (.outcomes (taken.map fun o => (o.generation, o.outline)),
      taken.foldl Session.dropOutcome { s with outcomes := s.outcomes.clear })
  | .reports => (.reports s.reports.items, { s with reports := s.reports.clear })

/-- The answers to operations in order, each with what was done with modules meanwhile. -/
def run (load : α → Except LoadError σ) (s : Session α σ) :
    List (Operation α σ) → List (Answer × List Event)
  | [] => []
  | op :: ops =>
    let (answer, next) := step load s op
    (answer, next.since s) :: run load next ops

end Bench

end SampleStream
