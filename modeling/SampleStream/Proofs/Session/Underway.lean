import SampleStream.Module.Canned
import SampleStream.Proofs.Session.Quantum

/-!
# Loads underway

A load that was forwarded is underway until its outcome is taken on: it is queued for the worker, or its
outcome is queued for the processor. Loads are underway in the order of their numbers, each once, and the
processor waits exactly while the latest of them is. `Underway` is this invariant; the slot of the
processor is accounted for by it (`Accounted`).
-/

namespace SampleStream

universe u v

variable {α : Type v} {σ : Type u}

/-- The loads among the requests. -/
def Request.loads (rs : List (Request α σ)) : List Nat :=
  rs.filterMap fun
    | .instantiate generation _ => some generation
    | .retire _ => none

namespace Request

@[simp] theorem loads_nil : loads ([] : List (Request α σ)) = [] := rfl

@[simp] theorem loads_instantiate (generation : Nat) (source : α) (rs : List (Request α σ)) :
    loads (.instantiate generation source :: rs) = generation :: loads rs := rfl

@[simp] theorem loads_retire (m : Loaded σ) (rs : List (Request α σ)) :
    loads (.retire m :: rs) = loads rs := rfl

@[simp] theorem loads_append (rs ts : List (Request α σ)) : loads (rs ++ ts) = loads rs ++ loads ts :=
  List.filterMap_append

end Request

namespace Session

variable {s : Session α σ}

theorem loads_of_push_instantiate {generation : Nat} {source : α} {requests : Queue (Request α σ)}
    (hpush : s.requests.push? (.instantiate generation source) = some requests) :
    Request.loads requests.items = Request.loads s.requests.items ++ [generation] := by
  rw [Queue.items_of_push? hpush, Request.loads_append]
  rfl

theorem loads_of_push_retire {m : Loaded σ} {requests : Queue (Request α σ)}
    (hpush : s.requests.push? (.retire m) = some requests) :
    Request.loads requests.items = Request.loads s.requests.items := by
  rw [Queue.items_of_push? hpush, Request.loads_append]
  exact List.append_nil _

-- The worker's queue takes the module last, or not at all.
theorem requests_retire (m : Loaded σ) (s : Session α σ) : (s.retire m).requests = s.requests ∨
    s.workerAlive = true ∧ s.requests.push? (.retire m) = some (s.retire m).requests := by
  unfold retire
  cases hr : s.request? (.retire m) with
  | none => exact .inl rfl
  | some next =>
    have hworker := workerAlive_of_request? hr
    obtain ⟨requests, hpush, rfl⟩ := request?_eq_some hr
    exact .inr ⟨hworker, hpush⟩

theorem requests_install (a : Active σ) (s : Session α σ) : (s.install a).requests = s.requests := by
  obtain ⟨trace, htrace⟩ := s.dropActive_eq s.processor.active
  unfold install
  dsimp only
  rw [htrace]

theorem requests_restoreParked (s : Session α σ) : s.restoreParked.requests = s.requests := by
  unfold restoreParked
  split
  · exact requests_install _ _
  · rfl

-- An outcome that is taken on asks the worker to drop one module at most, and for nothing else.
theorem requests_adopt (o : LoadOutcome σ) (s : Session α σ) : (s.adopt o).requests = s.requests ∨
    ∃ m, s.workerAlive = true ∧ s.requests.push? (.retire m) = some (s.adopt o).requests := by
  unfold adopt
  cases o with
  | loaded p =>
    dsimp only
    split
    · change (s.retireParked.install p.activate).requests = _ ∨
        ∃ m, _ ∧ _ = some (s.retireParked.install p.activate).requests
      rw [requests_install]
      unfold retireParked
      split
      · exact (requests_retire _ _).imp_right fun hpush => ⟨_, hpush⟩
      · exact .inl rfl
    · exact (requests_retire p.module s).imp_right fun hpush => ⟨p.module, hpush⟩
  | failed generation =>
    dsimp only
    split
    · exact .inl (requests_restoreParked s)
    · exact .inl rfl

theorem loads_adopt (o : LoadOutcome σ) (s : Session α σ) :
    Request.loads (s.adopt o).requests.items = Request.loads s.requests.items := by
  rcases s.requests_adopt o with heq | ⟨m, -, hpush⟩
  · rw [heq]
  · exact loads_of_push_retire hpush

/-- The loads that are underway while these outcomes wait, in order. -/
def tags (s : Session α σ) (waiting : List (LoadOutcome σ)) : List Nat :=
  waiting.map LoadOutcome.generation ++ Request.loads s.requests.items

theorem tags_cons {t : Session α σ}
    (hloads : Request.loads t.requests.items = Request.loads s.requests.items) {o : LoadOutcome σ}
    {waiting : List (LoadOutcome σ)} : s.tags (o :: waiting) = o.generation :: t.tags waiting := by
  unfold tags
  rw [hloads]
  rfl

/-- How many things are underway for a load: requests to the worker and outcomes. -/
def underway (s : Session α σ) (generation : Nat) : Nat :=
  (s.outcomes.items.map LoadOutcome.generation).count generation
    + (Request.loads s.requests.items).count generation

theorem underway_eq (s : Session α σ) (generation : Nat) :
    s.underway generation = (s.tags s.outcomes.items).count generation :=
  List.count_append.symm

-- A load that is handled stays underway, as its outcome, and keeps its place.
theorem tags_handleNext [CompiledModule σ] {load : α → Except LoadError σ} {next : Session α σ}
    (halive : s.processorAlive = true) (h : s.handleNext load = some next) :
    next.tags next.outcomes.items = s.tags s.outcomes.items := by
  cases handled_of_handleNext halive h with
  | nothing hitems hnext => rw [hnext]
  | dropped m rest hitems hnext =>
    unfold tags
    rw [hnext, hitems, Request.loads_retire]
    rfl
  | tried generation source rest o outcomes reports events hitems hpush hgeneration hnext =>
    unfold tags
    rw [hnext, hitems, Queue.items_of_push? hpush, Request.loads_instantiate, ← hgeneration,
      List.map_append, List.append_assoc]
    rfl

end Session

/-- The processor waits for what is underway. -/
structure Underway (s : Session α σ) (waiting : List (LoadOutcome σ)) : Prop where
  order : (s.tags waiting).Pairwise (· < ·)
  bound : ∀ g ∈ s.tags waiting, g ≤ s.processor.generation
  loading_iff : s.processor.state = .loading ↔ s.processor.generation ∈ s.tags waiting
  /-- Only an adoption is to be acknowledged. -/
  pending : s.processor.ackPending = true → s.processor.state = .ready

namespace Underway

variable {s : Session α σ} {waiting : List (LoadOutcome σ)}

-- The invariant is about what is underway, and what the processor waits for.
theorem congr (hu : Underway s waiting) {t : Session α σ} {rest : List (LoadOutcome σ)}
    (htags : t.tags rest = s.tags waiting) (hstate : t.processor.state = s.processor.state)
    (hgeneration : t.processor.generation = s.processor.generation)
    (hpending : t.processor.ackPending = true → t.processor.state = .ready) : Underway t rest where
  order := by rw [htags]; exact hu.order
  bound := by rw [htags, hgeneration]; exact hu.bound
  loading_iff := by rw [htags, hstate, hgeneration]; exact hu.loading_iff
  pending := hpending

-- A load that is forwarded is the last that is underway.
theorem begun (hu : Underway s waiting) {requests : Queue (Request α σ)}
    (hloads : Request.loads requests.items =
      Request.loads s.requests.items ++ [s.processor.generation + 1]) :
    Underway { s with requests, processor := s.processor.begun } waiting := by
  have htags : ({ s with requests, processor := s.processor.begun } : Session α σ).tags waiting =
      s.tags waiting ++ [s.processor.generation + 1] := by
    unfold Session.tags
    rw [List.append_assoc, ← hloads]
  exact {
    order := by
      rw [htags, List.pairwise_append]
      refine ⟨hu.order, List.pairwise_singleton _ _, fun g hg g' hg' => ?_⟩
      rw [List.mem_singleton.mp hg']
      exact Nat.lt_succ_of_le (hu.bound g hg)
    bound := fun g hg => by
      rw [htags, List.mem_append, List.mem_singleton] at hg
      rcases hg with hg | rfl
      · exact Nat.le_succ_of_le (hu.bound g hg)
      · exact Nat.le_refl _
    loading_iff := by
      rw [htags]
      exact iff_of_true rfl (List.mem_append_right _ (List.mem_singleton_self _))
    pending := nofun }

-- A load that is refused is not underway, and nothing is waited for.
theorem denied (hu : Underway s waiting) :
    Underway { s with processor := s.processor.denied } waiting where
  order := hu.order
  bound := fun g hg => Nat.le_succ_of_le (hu.bound g hg)
  loading_iff := by
    refine iff_of_false (Slot.resumed_state _ _).1 fun hmem => ?_
    exact Nat.not_succ_le_self _ (hu.bound _ hmem)
  pending := nofun

theorem receive (hu : Underway s waiting) (hslot : s.processor.active = none ∨ s.processor.parked = none)
    (source : α) : Underway (s.receive source) waiting := by
  rcases Session.receive_cases source hslot with ⟨requests, hpush, heq⟩ | heq
  · rw [heq]
    exact hu.begun (Session.loads_of_push_instantiate hpush)
  · rw [heq]
    exact hu.denied

variable {o : LoadOutcome σ}

-- The latest load is not underway any more once its outcome is taken on.
theorem arrived (hu : Underway s (o :: waiting)) (hcurrent : s.Current o) {t : Session α σ}
    (hloads : Request.loads t.requests.items = Request.loads s.requests.items)
    (hgeneration : t.processor.generation = s.processor.generation)
    (hstate : t.processor.state ≠ .loading)
    (hpending : t.processor.ackPending = true → t.processor.state = .ready) : Underway t waiting := by
  have htags : s.tags (o :: waiting) = o.generation :: t.tags waiting := Session.tags_cons hloads
  have horder := hu.order
  rw [htags, List.pairwise_cons] at horder
  exact {
    order := horder.2
    bound := fun g hg => by
      rw [hgeneration]
      exact hu.bound g (by rw [htags]; exact List.mem_cons_of_mem _ hg)
    loading_iff := by
      refine iff_of_false hstate fun hmem => ?_
      rw [hgeneration, ← hcurrent.1] at hmem
      exact Nat.lt_irrefl _ (horder.1 _ hmem)
    pending := hpending }

-- The outcome of an earlier load makes no difference to what is waited for.
theorem late (hu : Underway s (o :: waiting)) (hlate : ¬s.Current o) {t : Session α σ}
    (hloads : Request.loads t.requests.items = Request.loads s.requests.items)
    (hprocessor : t.processor = s.processor) : Underway t waiting := by
  have htags : s.tags (o :: waiting) = o.generation :: t.tags waiting := Session.tags_cons hloads
  have horder := hu.order
  rw [htags, List.pairwise_cons] at horder
  exact {
    order := horder.2
    bound := fun g hg => by
      rw [hprocessor]
      exact hu.bound g (by rw [htags]; exact List.mem_cons_of_mem _ hg)
    loading_iff := by
      rw [hprocessor, hu.loading_iff, htags, List.mem_cons, or_iff_right_of_imp]
      intro hfirst
      exact absurd ⟨hfirst.symm, hu.loading_iff.mpr (by rw [htags, hfirst]; exact List.mem_cons_self)⟩
        hlate
    pending := by rw [hprocessor]; exact hu.pending }

theorem adopt (hu : Underway s (o :: waiting)) (hactive : s.processor.state = .loading →
    s.processor.active = none) : Underway (s.adopt o) waiting := by
  have hloads := s.loads_adopt o
  by_cases hcurrent : s.Current o
  · cases o with
    | loaded p =>
      obtain ⟨requests, trace, heq, -, -⟩ :=
        Session.adopt_loaded_current hcurrent (hactive hcurrent.2)
      rw [heq] at hloads ⊢
      exact hu.arrived hcurrent hloads rfl nofun fun _ => rfl
    | failed generation =>
      rw [Session.adopt_failed_current hcurrent (hactive hcurrent.2)]
      refine hu.arrived hcurrent rfl rfl (Slot.resumed_state _ _).1 fun hack => ?_
      -- while a load is waited for nothing is to be acknowledged
      have hready := hu.pending hack
      rw [hcurrent.2] at hready
      cases hready
  · cases o with
    | loaded p =>
      obtain ⟨requests, trace, heq, -, -⟩ := Session.retire_eq p.module s
      rw [Session.adopt_loaded_late hcurrent, heq] at hloads ⊢
      exact hu.late hcurrent hloads rfl
    | failed generation =>
      rw [Session.adopt_failed_late hcurrent]
      exact hu.late hcurrent rfl rfl

end Underway

/-- What the slot holds goes with what is underway. -/
structure Accounted (s : Session α σ) : Prop where
  ready_iff : s.processor.state = .ready ↔ s.processor.active.isSome = true
  parked : s.processor.parked.isSome = true → s.processor.state = .loading
  exclusive : s.processor.active = none ∨ s.processor.parked = none
  pending : s.processor.ackPending = true → s.processor.state = .ready
  /-- The latest load is waited for exactly while one thing is underway for it, and there is never more
  than one. -/
  loading_iff : s.processor.state = .loading ↔ s.underway s.processor.generation = 1
  once : s.underway s.processor.generation ≤ 1

theorem Underway.accounted {s : Session α σ} {deeds : List Deed}
    (hu : Underway s s.outcomes.items) (hslot : Slot s.processor deeds) : Accounted s := by
  have hnodup : (s.tags s.outcomes.items).Nodup := hu.order.imp fun hlt => Nat.ne_of_lt hlt
  have honce : s.underway s.processor.generation ≤ 1 := by
    rw [Session.underway_eq]
    exact List.nodup_iff_count.mp hnodup s.processor.generation
  refine ⟨hslot.ready_iff, hslot.parked, hslot.exclusive, hu.pending, ?_, honce⟩
  rw [hu.loading_iff, ← List.count_pos_iff, ← Session.underway_eq]
  omega

namespace History

variable {h : History α σ}

-- All that has arrived is taken on, and what is underway from then on is with the worker.
theorem Sound.underway_taken (hs : h.Sound h.session.outcomes.items)
    (hu : Underway h.session h.session.outcomes.items) : Underway h.taken.session [] :=
  hs.taken_induction (P := fun k _ waiting => Underway k.session waiting)
    (hu.congr rfl rfl rfl hu.pending)
    (fun _ source _ _ hk hP => hP.receive hk.slot.exclusive source)
    (fun _ _ hP => hP.congr rfl rfl rfl hP.pending)
    (fun _ _ _ hk hP => hP.adopt hk.slot.active_eq_none)

variable [CompiledModule σ]

theorem Sound.underway_process (hs : h.Sound h.session.outcomes.items)
    (hu : Underway h.session h.session.outcomes.items) (channels : List (List Sample)) :
    Underway (h.process channels).session (h.process channels).session.outcomes.items := by
  have htaken := hs.underway_taken hu
  have hnone : h.taken.session.outcomes.items = [] := hs.taken_outcomes
  have hsession : (h.process channels).session = (h.session.process channels).2 := rfl
  rw [hsession]
  cases hs.plays channels with
  | module g a hstate hactive hlast hprocess hsteps hdeeds =>
    obtain ⟨acks, ackPending, hack⟩ := h.taken.session.acknowledge_eq
    rw [hprocess, hack]
    exact htaken.congr (congrArg h.taken.session.tags hnone) rfl rfl fun _ => hstate
  | nothing hstate hprocess hsteps hdeeds =>
    rw [hprocess]
    exact htaken.congr (congrArg h.taken.session.tags hnone) rfl rfl htaken.pending

theorem Sound.underway_turn (hs : h.Sound h.session.outcomes.items)
    (hu : Underway h.session h.session.outcomes.items) (turn : Turn α σ) :
    Underway (h.turn turn).session (h.turn turn).session.outcomes.items := by
  rcases h.turn_cases turn with ⟨channels, rfl⟩ | ⟨load, next, rfl, hnext, heq⟩ |
    ⟨sent, control, acks, reports, heq⟩
  · exact hs.underway_process hu channels
  · have htags := Session.tags_handleNext hs.alive hnext
    obtain ⟨requests, outcomes, reports, loads, trace, rfl⟩ := Session.handleNext_eq hnext
    rw [heq]
    exact hu.congr htags rfl rfl hu.pending
  · rw [heq]
    exact hu.congr rfl rfl rfl hu.pending

theorem Sound.underway_move (hs : h.Sound h.session.outcomes.items)
    (hu : Underway h.session h.session.outcomes.items) {move : Move α σ}
    (halive : (h.move move).session.processorAlive = true) :
    Underway (h.move move).session (h.move move).session.outcomes.items := by
  obtain ⟨-, ⟨turn, -, -, hturn⟩ | ⟨controllerAlive, workerAlive, hgone⟩⟩ := move_cases halive
  · rw [hturn]
    exact hs.underway_turn hu turn
  · rw [hgone]
    exact hu.congr rfl rfl rfl hu.pending

omit [CompiledModule σ] in
-- Nothing is underway in a new session.
theorem underway_link {config : Config} {s : Session α σ} (hlink : Session.link? config = some s) :
    Underway s s.outcomes.items := by
  unfold Session.link? at hlink
  split at hlink
  · cases hlink
    exact ⟨.nil, nofun, by simp [Session.tags, Queue.empty], nofun⟩
  · cases hlink

/-- Whatever happens in a session, as long as its processor is there: what the slot holds goes with what is
underway. Within a quantum, too, whatever number of loads has been taken on, nothing is parked beside an
active module, so that no parked module ever makes way for another. -/
theorem slot_accounted {config : Config} {s : Session α σ} (hlink : Session.link? config = some s)
    (moves : List (Move α σ))
    (halive : (History.through ⟨s, []⟩ moves).session.processorAlive = true) :
    let h := History.through ⟨s, []⟩ moves
    Accounted h.session ∧ ∀ count,
      let received := (h.session.control.items.take count).foldl receive h.opened
      received.session.processor.active = none ∨ received.session.processor.parked = none := by
  intro h
  have hinvariant : h.Sound h.session.outcomes.items ∧ Underway h.session h.session.outcomes.items :=
    through_induction
      (P := fun k => k.Sound k.session.outcomes.items ∧ Underway k.session k.session.outcomes.items)
      ⟨Sound.link hlink, underway_link hlink⟩
      (fun k move ⟨hk, hu⟩ halive => ⟨hk.move halive, hk.underway_move hu halive⟩) moves halive
  obtain ⟨hs, hu⟩ := hinvariant
  refine ⟨hu.accounted hs.slot, fun count => ?_⟩
  exact (hs.opened.receive_all _).1.slot.exclusive

/-- The module of the first load is parked while the outcome of the second and the third load are
underway; nobody sends loads any more. -/
theorem slot_accounted_parked :
    let load : Unit → Except LoadError CannedModule := fun _ => .ok ⟨[], .ok 0, .ok ⟨0⟩, []⟩
    let s : Session Unit CannedModule := {
      quantum := 1, scratchBytes := 4, control := .empty 2, requests := .empty 2, outcomes := .empty 2
      acks := .empty 1, reports := .empty 1 }
    let moves : List (Move Unit CannedModule) := [.turn (.load ()), .turn (.process []),
      .turn (.handle load), .turn (.process []), .turn (.load ()), .turn (.load ()), .turn (.process []),
      .turn (.handle load), .dropController]
    let h := History.through ⟨s, []⟩ moves
    Session.link? {
      quantumSize := 1, controlCapacity := 2, loaderCapacity := 2, eventCapacity := 1 } = some s ∧
    h.session.processorAlive = true ∧ Accounted h.session ∧ h.session.processor.state = .loading ∧
    h.session.processor.generation = 3 ∧
    h.session.processor.parked.map (·.module.id) = some 1 ∧
    h.session.tags h.session.outcomes.items = [2, 3] := by
  intro load s moves h
  have hlink : Session.link? {
      quantumSize := 1, controlCapacity := 2, loaderCapacity := 2, eventCapacity := 1 } = some s := rfl
  have haccounted := slot_accounted hlink moves (by decide +kernel)
  exact ⟨hlink, by decide +kernel, haccounted.1, by decide +kernel, by decide +kernel,
    by decide +kernel, by decide +kernel⟩

end History

end SampleStream
