import SampleStream.Proofs.Session.Rest

/-!
# Without the worker

A worker that goes leaves its queue behind, and nobody touches that any more (`Session.Unattended`). Loads that
arrive later are refused, and the module that was parked is back. But a load that was in the queue is never
answered: if it is the latest, the processor waits for it until another load arrives
(`History.worker_departs`).
-/

namespace SampleStream

universe u v

variable {α : Type v} {σ : Type u}

namespace Session

variable {gone s : Session α σ}

/-- The worker went from the session `gone`, and its queue is as it was then. -/
structure Unattended (gone s : Session α σ) : Prop where
  worker : s.workerAlive = false
  requests : s.requests = gone.requests
  later : gone.processor.generation ≤ s.processor.generation

theorem Unattended.congr (hl : gone.Unattended s) {t : Session α σ} (hworker : t.workerAlive = s.workerAlive)
    (hrequests : t.requests = s.requests)
    (hgeneration : t.processor.generation = s.processor.generation) : gone.Unattended t where
  worker := hworker.trans hl.worker
  requests := hrequests.trans hl.requests
  later := hgeneration ▸ hl.later

-- A load is refused.
theorem Unattended.receive (hl : gone.Unattended s)
    (hslot : s.processor.active = none ∨ s.processor.parked = none) (source : α) :
    gone.Unattended (s.receive source) := by
  rw [receive_eq_request source hslot, request?_of_gone hl.worker]
  exact ⟨hl.worker, hl.requests, Nat.le_succ_of_le hl.later⟩

-- A module that is given up is dropped at once.
theorem Unattended.adopt (hl : gone.Unattended s)
    (hslot : s.processor.state = .loading → s.processor.active = none) (o : LoadOutcome σ) :
    gone.Unattended (s.adopt o) := by
  have hrequests : (s.adopt o).requests = s.requests := by
    rcases s.requests_adopt o with hsame | ⟨m, hworker, -⟩
    · exact hsame
    · rw [hl.worker] at hworker
      cases hworker
  obtain ⟨requests, trace, processor, heq, hgeneration, -⟩ := adopt_eq hslot o
  rw [heq] at hrequests ⊢
  exact hl.congr rfl hrequests hgeneration

end Session

namespace History

variable [CompiledModule σ] {gone : Session α σ} {h : History α σ}

theorem Sound.unattended_process (hs : h.Sound h.session.outcomes.items) (hl : gone.Unattended h.session)
    (channels : List (List Sample)) : gone.Unattended (h.process channels).session := by
  have htaken : gone.Unattended h.taken.session :=
    hs.taken_induction (P := fun k _ _ => gone.Unattended k.session) (hl.congr rfl rfl rfl)
      (fun _ source _ _ hk hleft => hleft.receive hk.slot.exclusive source)
      (fun _ _ hleft => hleft.congr rfl rfl rfl)
      (fun _ o _ hk hleft => hleft.adopt hk.slot.active_eq_none o)
  obtain ⟨acks, trace, active, ackPending, stats, heq, -⟩ := hs.process_eq channels
  rw [heq]
  exact htaken.congr rfl rfl rfl

-- Whatever is done without the worker leaves its queue alone, as long as the processor is there.
theorem Sound.unattended_move (hs : h.Sound h.session.outcomes.items) (hl : gone.Unattended h.session)
    {move : Move α σ} (halive : (h.move move).session.processorAlive = true) :
    gone.Unattended (h.move move).session := by
  have hmoved := h.moved move
  generalize (h.move move).session = next at hmoved halive ⊢
  cases hmoved with
  | processed channels hthere => exact hs.unattended_process hl channels
  | handled hworker hnext =>
    rw [hl.worker] at hworker
    cases hworker
  | processorGone hthere =>
    rw [Session.processorAlive_dropProcessor] at halive
    cases halive
  | workerGone hworker =>
    rw [hl.worker] at hworker
    cases hworker
  | aside controllerAlive sent control acks reports hidle => exact hl.congr rfl rfl rfl

theorem Sound.unattended_through (hs : h.Sound h.session.outcomes.items) (hl : gone.Unattended h.session)
    (moves : List (Move α σ)) (halive : (h.through moves).session.processorAlive = true) :
    gone.Unattended (h.through moves).session :=
  (through_induction (P := fun k => k.Sound k.session.outcomes.items ∧ gone.Unattended k.session) ⟨hs, hl⟩
    (fun _ _ ⟨hk, hleft⟩ halive => ⟨hk.move halive, hk.unattended_move hleft halive⟩) moves halive).2

theorem unattended_dropWorker (h : History α σ) (halive : h.session.processorAlive = true) :
    (h.move .dropWorker).session.Unattended (h.move .dropWorker).session := by
  refine ⟨?_, rfl, Nat.le_refl _⟩
  rw [History.move]
  split
  · rw [Session.dropWorker_eq halive]
  · exact Bool.eq_false_iff.mpr ‹_›

/-- How a quantum ends after the worker has gone from the session `gone`. -/
structure EndsWithout (gone : Session α σ) (next : History α σ) : Prop where
  /-- The processor waits only for a load that was in the worker's queue then, while no other has come. -/
  waits_iff : next.session.processor.state = .loading ↔
    gone.processor.generation ∈ Request.loads gone.requests.items ∧
      next.session.processor.generation = gone.processor.generation
  /-- While it does, nothing is played, and the module adopted last is parked. -/
  waiting : next.session.processor.state = .loading → next.session.processor.active = none ∧
    next.session.processor.parked.map (·.module.id) = (Deed.lastAdopted? next.deeds).map Prod.snd
  /-- Otherwise the module adopted last is active, if there is one. -/
  rested : next.session.processor.state ≠ .loading →
    match Deed.lastAdopted? next.deeds with
    | some (_, id) => next.session.processor.state = .ready ∧
        next.session.processor.active.map (·.module.id) = some id
    | none => next.session.processor.state = .unloaded ∧ next.session.processor.active = none

-- After a quantum nothing is underway but what the worker left in its queue.
theorem Sound.endsWithout (hs : h.Sound h.session.outcomes.items)
    (hu : Underway h.session h.session.outcomes.items) (hk : h.session.processor.Keeps h.deeds)
    (hl : gone.Unattended h.session)
    (hbound : ∀ g ∈ Request.loads gone.requests.items, g ≤ gone.processor.generation)
    (channels : List (List Sample)) : EndsWithout gone (h.process channels) := by
  have hslot := (hs.process channels).1.slot
  have hkeeps := hs.keeps_process hk channels
  have hleft := hs.unattended_process hl channels
  have hunderway := hs.underway_process hu channels
  have hnone : (h.process channels).session.outcomes.items = [] := by
    obtain ⟨acks, trace, active, ackPending, stats, heq, -⟩ := hs.process_eq channels
    rw [heq]
    exact hs.taken_outcomes
  refine ⟨?_, fun hloading => ?_, hslot.rested hkeeps⟩
  · rw [hunderway.loading_iff, hnone]
    unfold Session.tags
    rw [List.map_nil, List.nil_append, hleft.requests]
    constructor
    · intro hmem
      have hlatest := Nat.le_antisymm (hbound _ hmem) hleft.later
      exact ⟨hlatest ▸ hmem, hlatest⟩
    · rintro ⟨hmem, hlatest⟩
      exact hlatest ▸ hmem
  · have hactive := hslot.active_eq_none hloading
    unfold Processor.Keeps at hkeeps
    rw [hactive, Option.none_or] at hkeeps
    exact ⟨hactive, hkeeps⟩

/-- Whenever the worker goes, and whatever happens then: a quantum leaves the module adopted last playing, or
none if there is none, unless the worker has left the latest load in its queue. For that load the
processor waits, quantum after quantum, until another arrives. -/
theorem worker_departs {config : Config} {s : Session α σ} (hlink : Session.link? config = some s)
    (before after : List (Move α σ))
    (halive : (History.through ⟨s, []⟩ (before ++ .dropWorker :: after)).session.processorAlive = true)
    (channels : List (List Sample)) :
    EndsWithout (History.through ⟨s, []⟩ (before ++ [.dropWorker])).session
      ((History.through ⟨s, []⟩ (before ++ .dropWorker :: after)).process channels) := by
  have hsplit : History.through ⟨s, []⟩ (before ++ .dropWorker :: after) =
      (History.through ⟨s, []⟩ (before ++ [.dropWorker])).through after := by
    rw [← through_append, List.append_assoc]
    rfl
  have hthere : (History.through ⟨s, []⟩ (before ++ [.dropWorker])).session.processorAlive = true :=
    processorAlive_of_through (hsplit ▸ halive)
  obtain ⟨hsound, hunderway, -⟩ := keeps_through hlink _ hthere
  obtain ⟨hs, hu, hk⟩ := keeps_through hlink _ halive
  have hgone : (History.through ⟨s, []⟩ (before ++ [.dropWorker])).session.Unattended
      (History.through ⟨s, []⟩ (before ++ [.dropWorker])).session := by
    rw [through_append] at hthere ⊢
    have hmoved : ((History.through ⟨s, []⟩ before).move .dropWorker).session.processorAlive = true := hthere
    exact unattended_dropWorker _ (move_cases hmoved).1
  rw [hsplit] at halive hs hu hk ⊢
  refine hs.endsWithout hu hk (hsound.unattended_through hgone after halive) (fun g hg => ?_) channels
  exact hunderway.bound g (List.mem_append_right _ hg)

/-- The second load is in the worker's queue when the worker goes. The processor waits for it although a
module has been adopted, and has that module playing again only when a third load is refused. -/
theorem worker_departs_stranded :
    let load : Unit → Except LoadError CannedModule := fun _ => .ok ⟨[], .ok 0, .ok ⟨0⟩, []⟩
    let s : Session Unit CannedModule := {
      quantum := 1, scratchBytes := 4, control := .empty 2, requests := .empty 2, outcomes := .empty 2
      acks := .empty 1, reports := .empty 1 }
    let before : List (Move Unit CannedModule) := [.turn (.load ()), .turn (.process []),
      .turn (.handle load), .turn (.process []), .turn (.load ()), .turn (.process [])]
    let gone := (History.through ⟨s, []⟩ (before ++ [.dropWorker])).session
    let next := (History.through ⟨s, []⟩ (before ++ .dropWorker :: [.turn (.process [])])).process []
    let last := (History.through ⟨s, []⟩ (before ++ .dropWorker :: [.turn (.load ())])).process []
    Session.link? {
      quantumSize := 1, controlCapacity := 2, loaderCapacity := 2, eventCapacity := 1 } = some s ∧
    EndsWithout gone next ∧ next.session.processor.state = .loading ∧
    Deed.lastAdopted? next.deeds = some (1, 1) ∧
    EndsWithout gone last ∧ last.session.processor.state = .ready ∧
    last.session.processor.active.map (·.module.id) = some 1 := by
  intro load s before gone next last
  have hlink : Session.link? {
      quantumSize := 1, controlCapacity := 2, loaderCapacity := 2, eventCapacity := 1 } = some s := rfl
  have hnext := worker_departs hlink before [.turn (.process [])] (by decide +kernel) []
  have hlast := worker_departs hlink before [.turn (.load ())] (by decide +kernel) []
  exact ⟨hlink, hnext, by decide +kernel, by decide +kernel, hlast, by decide +kernel, by decide +kernel⟩

end History

end SampleStream
